import Nlcpp.Delivery

/-!
How many messages a call of `receiveMessages` works off.

`Handles` says what `nl_recvmsgs` does with a datagram and those after it, one rule for
each thing that can happen to a message, and counts the messages that go to a callback;
messages that a callback receives on the same socket are not among them. `parse_handles`
finds this in every call that comes back. The call returns 0 whatever it worked off
(`ReceiveCall.result_zero`).
-/

namespace Nlcpp.Socket

variable {π : Type} (L : Libnl π) (call : Caller π)

/-- `nl_recvmsgs` works off the rest of a datagram and those it goes on to read: the
messages that went to a callback, the result, and what is left. -/
inductive Handles (acceptAll : Bool) :
    (multipart interrupted : Bool) → List (NlMsg π) → World π → ℕ → ℤ → World π → Prop where
  /-- The sequence check fails. -/
  | refused {mu i m ms w} : ¬(callbacks call acceptAll).Accepts m w →
      Handles acceptAll mu i (m :: ms) w 0 (report i (-(NLE_SEQ_MISMATCH : ℤ))) w
  /-- The callback lets `nl_recvmsgs` go on. -/
  | next {mu i m ms w w₁ w' code count res} : (callbacks call acceptAll).Accepts m w →
      (((callbacks call acceptAll).of m).run (w.dispatch m)) = .returned code w₁ → code ≠ .stop →
      Handles acceptAll (m.leavesOpen mu) (i || m.dumpIntr) ms w₁ count res w' →
      Handles acceptAll mu i (m :: ms) w (count + 1) res w'
  /-- The callback stops it. -/
  | stop {mu i m ms w w'} : (callbacks call acceptAll).Accepts m w →
      (((callbacks call acceptAll).of m).run (w.dispatch m)) = .returned .stop w' →
      Handles acceptAll mu i (m :: ms) w 1 (report (i || m.dumpIntr) (L.exitCode m)) w'
  /-- The datagram ends and nothing is incomplete. -/
  | complete {i w} : Handles acceptAll false i [] w 0 (report i 0) w
  /-- A multipart message goes on in the next datagram. -/
  | more {i ms w w' rest count res} : w.nl.incoming = .datagram ms :: rest →
      Handles acceptAll true i ms { w with nl := { w.nl with incoming := rest } } count res w' →
      Handles acceptAll true i [] w count res w'
  /-- The next datagram cannot be read. -/
  | unread {i w rest} {code : ℕ} : w.nl.incoming = .failure code :: rest →
      Handles acceptAll true i [] w 0 (-(code : ℤ))
        { w with nl := { w.nl with incoming := rest } }

variable {L call} {acceptAll : Bool}

/-- Working off a datagram, when reading on from it follows the rules. -/
theorem parse_handles {n : ℕ}
    (readOn : ∀ {i : Bool} {w w' : World π} {res : ℤ}, w.nl.incoming.length ≤ n →
      (readThen (L.parse (callbacks call acceptAll) true i)).run w = .returned res w' →
        ∃ count, Handles L call acceptAll true i [] w count res w')
    {multipart interrupted : Bool} {ms : List (NlMsg π)} {w w' : World π} {res : ℤ}
    (size : w.nl.incoming.length ≤ n)
    (returned : (L.parse (callbacks call acceptAll) multipart interrupted ms).run w =
      .returned res w') :
    ∃ count, Handles L call acceptAll multipart interrupted ms w count res w' := by
  induction ms generalizing multipart interrupted w with
  | nil =>
      cases multipart with
      | true =>
          rw [L.parse_end_multipart] at returned
          exact readOn size returned
      | false =>
          rw [L.parse_end] at returned
          cases returned
          exact ⟨0, .complete⟩
  | cons m ms ih =>
      by_cases accepted : (callbacks call acceptAll).Accepts m w
      · rw [L.parse_accepted accepted] at returned
        cases back : ((callbacks call acceptAll).of m).run (w.dispatch m) with
        | threw e w₁ =>
            rw [back] at returned
            cases returned
        | blocked w₁ =>
            rw [back] at returned
            cases returned
        | returned code w₁ =>
            rw [back, Outcome.next_returned] at returned
            -- The callback used up arrivals at most.
            have fewer := World.pending_le (Prog.later_of_returned back)
            rw [World.dispatch_incoming] at fewer
            cases code with
            | stop =>
                cases returned
                exact ⟨1, .stop accepted back⟩
            | ok =>
                obtain ⟨count, handles⟩ := ih (fewer.trans size) returned
                exact ⟨count + 1, .next accepted back NlCode.noConfusion handles⟩
            | skip =>
                obtain ⟨count, handles⟩ := ih (fewer.trans size) returned
                exact ⟨count + 1, .next accepted back (by decide) handles⟩
      · have ⟨checked, other⟩ := not_not.mp (mt callbacks_accepts.mpr accepted)
        have unset : (callbacks call acceptAll).seqCheck = none := by
          simpa [callbacks] using checked
        rw [L.parse_refused _ _ _ _ _ _ unset other] at returned
        cases returned
        exact ⟨0, .refused accepted⟩

/-- Reading datagrams while a multipart message is incomplete. -/
theorem readThen_handles {n : ℕ} {interrupted : Bool} {w w' : World π} {res : ℤ}
    (size : w.nl.incoming.length ≤ n)
    (returned : (readThen (L.parse (callbacks call acceptAll) true interrupted)).run w =
      .returned res w') :
    ∃ count, Handles L call acceptAll true interrupted [] w count res w' := by
  induction n generalizing interrupted w w' res with
  | zero =>
      rw [readThen_nil (List.length_eq_zero_iff.mp (Nat.le_zero.mp size))] at returned
      cases returned
  | succ n ih =>
      rcases next : w.nl.incoming with _ | ⟨ms | code, rest⟩
      · rw [readThen_nil next] at returned
        cases returned
      · rw [readThen_datagram next] at returned
        rw [next] at size
        obtain ⟨count, handles⟩ := parse_handles ih (Nat.le_of_succ_le_succ size) returned
        exact ⟨count, .more next handles⟩
      · rw [readThen_failure next] at returned
        cases returned
        exact ⟨0, .unread next⟩

/-- A call of `nl_recvmsgs`: it works off the datagram it reads, or it cannot read one. -/
inductive Takes (L : Libnl π) (call : Caller π) (w : World π) : ℕ → ℤ → World π → Prop where
  | datagram {ms rest count res w'} : w.nl.incoming = .datagram ms :: rest →
      Handles L call w.socket.acceptAll false false ms
        { w with nl := { w.nl with incoming := rest } } count res w' → Takes L call w count res w'
  | unread {rest} {code : ℕ} : w.nl.incoming = .failure code :: rest →
      Takes L call w 0 (-(code : ℤ)) { w with nl := { w.nl with incoming := rest } }

/-- A call of `nl_recvmsgs` that comes back has taken a number of messages. -/
theorem nlRecvmsgs_takes {w w' : World π} {res : ℤ}
    (returned : (nlRecvmsgs L call).run w = .returned res w') :
    ∃ count, Takes L call w count res w' := by
  rw [nlRecvmsgs_run] at returned
  rcases next : w.nl.incoming with _ | ⟨ms | code, rest⟩
  · rw [readThen_nil next] at returned
    cases returned
  · rw [readThen_datagram next] at returned
    obtain ⟨count, handles⟩ := parse_handles readThen_handles (le_refl rest.length) returned
    exact ⟨count, .datagram next handles⟩
  · rw [readThen_failure next] at returned
    cases returned
    exact ⟨0, .unread next⟩

/-! ### What the call returns -/

theorem report_nonpos {code : ℤ} (nonpos : code ≤ 0) (interrupted : Bool) :
    report interrupted code ≤ 0 := by
  cases interrupted with
  | true => exact (by decide : -(NLE_DUMP_INTR : ℤ) ≤ 0)
  | false => exact nonpos

theorem exitCode_nonpos (m : NlMsg π) : L.exitCode m ≤ 0 := by
  unfold Libnl.exitCode
  split
  · split <;> omega
  · exact le_refl 0

theorem Handles.nonpos {mu i : Bool} {ms : List (NlMsg π)} {w w' : World π} {count : ℕ} {res : ℤ}
    (handles : Handles L call acceptAll mu i ms w count res w') : res ≤ 0 := by
  induction handles with
  | refused => exact report_nonpos (by decide) _
  | next _ _ _ _ ih => exact ih
  | stop => exact report_nonpos (exitCode_nonpos _) _
  | complete => exact report_nonpos (le_refl 0) _
  | more _ _ ih => exact ih
  | unread => omega

/-- A datagram that is not empty is refused, or some of it goes to a callback. -/
theorem Handles.counted {i : Bool} {m : NlMsg π} {ms : List (NlMsg π)} {w w' : World π} {res : ℤ}
    {mu : Bool} (handles : Handles L call acceptAll mu i (m :: ms) w 0 res w') : res < 0 := by
  cases handles with
  | refused => cases i <;> decide

/-- **A call that returns says 0.** -/
theorem receiveMessages_returned {w w' : World π} {result : ℕ}
    (returned : (receiveMessages L call).run w = .returned result w') :
    result = 0 ∧ (nlRecvmsgs L call).run w = .returned 0 w' := by
  rw [receiveMessages, Prog.run_bind] at returned
  cases received : (nlRecvmsgs L call).run w with
  | threw e w₁ =>
      rw [received] at returned
      cases returned
  | blocked w₁ =>
      rw [received] at returned
      cases returned
  | returned res w₁ =>
      rw [received, Outcome.next_returned] at returned
      obtain ⟨count, takes⟩ := nlRecvmsgs_takes received
      have nonpos : res ≤ 0 := by
        cases takes with
        | datagram _ handles => exact handles.nonpos
        | unread => omega
      by_cases failed : res < 0
      · obtain ⟨e, thrown, -⟩ :=
          Exception.throwCode_ne_zero "failed to receive message" (Int.ne_of_lt failed)
        simp [failed, thrown] at returned
      · obtain rfl : res = 0 := by omega
        simp only [Int.lt_irrefl, if_false] at returned
        cases returned
        exact ⟨rfl, rfl⟩

/-- A call of `receiveMessages` that returned, with the number of messages that it took
from the socket and handed to callbacks. -/
structure ReceiveCall (L : Libnl π) (call : Caller π) where
  before : World π
  result : ℕ
  after : World π
  returned : (receiveMessages L call).run before = .returned result after
  processed : ℕ
  takes : Takes L call before processed 0 after

namespace ReceiveCall

/-- Every call that returned is one. -/
theorem of_returned {w w' : World π} {result : ℕ}
    (returned : (receiveMessages L call).run w = .returned result w') :
    ∃ c : ReceiveCall L call, c.before = w ∧ c.result = result ∧ c.after = w' := by
  obtain ⟨count, takes⟩ := nlRecvmsgs_takes (receiveMessages_returned returned).2
  exact ⟨⟨w, result, w', returned, count, takes⟩, rfl, rfl, rfl⟩

/-- The sums over successive calls, whatever happens between them. -/
def results (calls : List (ReceiveCall L call)) : ℕ := calls.foldr (fun c n => c.result + n) 0

def allProcessed (calls : List (ReceiveCall L call)) : ℕ :=
  calls.foldr (fun c n => c.processed + n) 0

end ReceiveCall

/-- The next receive event is no datagram with a message. -/
def NothingNext (w : World π) : Prop :=
  ∀ m ms rest, w.nl.incoming ≠ .datagram (m :: ms) :: rest

/-- A call without an error has processed nothing exactly when there was nothing next. -/
theorem Takes.zero_iff {w w' : World π} {count : ℕ} {res : ℤ} (takes : Takes L call w count res w')
    (fine : 0 ≤ res) : count = 0 ↔ NothingNext w := by
  cases takes with
  | @unread rest code next =>
      refine ⟨fun _ m ms rest' next' => ?_, fun _ => rfl⟩
      rw [next] at next'
      cases next'
  | @datagram ms rest count res w' next handles =>
      cases ms with
      | nil =>
          cases handles with
          | complete =>
              refine ⟨fun _ m ms rest' next' => ?_, fun _ => rfl⟩
              rw [next] at next'
              cases next'
      | cons m ms =>
          refine ⟨fun zero => ?_, fun nothing => absurd next (nothing m ms rest)⟩
          subst zero
          exact absurd handles.counted (Int.not_lt.mpr fine)

namespace ReceiveCall

theorem result_zero (c : ReceiveCall L call) : c.result = 0 :=
  (receiveMessages_returned c.returned).1

theorem results_zero (calls : List (ReceiveCall L call)) : results calls = 0 := by
  induction calls with
  | nil => rfl
  | cons c calls ih => rw [results, List.foldr_cons, c.result_zero, Nat.zero_add]; exact ih

theorem allProcessed_zero_iff (calls : List (ReceiveCall L call)) :
    allProcessed calls = 0 ↔ ∀ c ∈ calls, c.processed = 0 := by
  induction calls with
  | nil => simp [allProcessed]
  | cons c calls ih =>
      rw [List.forall_mem_cons, ← ih]
      exact Nat.add_eq_zero_iff

end ReceiveCall

/-- **A call counts what it received** exactly when there was nothing to receive, and the
sum over any calls is right exactly when that holds of each of them. -/
theorem receive_counts_iff (L : Libnl π) (call : Caller π) :
    (∀ c : ReceiveCall L call, c.result = c.processed ↔ NothingNext c.before) ∧
      ∀ calls : List (ReceiveCall L call),
        ReceiveCall.results calls = ReceiveCall.allProcessed calls ↔
          ∀ c ∈ calls, NothingNext c.before := by
  have nothing (c : ReceiveCall L call) : c.processed = 0 ↔ NothingNext c.before :=
    c.takes.zero_iff (le_refl 0)
  constructor
  · intro c
    rw [c.result_zero, eq_comm, nothing]
  · intro calls
    rw [ReceiveCall.results_zero, eq_comm, ReceiveCall.allProcessed_zero_iff]
    exact forall₂_congr fun c _ => nothing c

/-- A datagram with two messages. -/
def twoMessages : World Reply :=
  (World.opened Reply 5 0).arrive
    [.datagram [.of 5 (.data (namedReply [])), .of 5 (.data (namedReply []))]]

/-- Both are processed, and the call returns 0. -/
theorem two_messages_uncounted :
    ∃ c : ReceiveCall (.reference Reply) Conduct.quiet.call,
      c.before = twoMessages ∧ c.processed = 2 ∧ c.result = 0 :=
  ⟨{ before := twoMessages
     result := 0
     after := _
     returned := rfl
     processed := 2
     takes := .datagram rfl
      (.next rfl rfl NlCode.noConfusion (.next rfl rfl NlCode.noConfusion .complete)) },
    rfl, rfl, rfl⟩

end Nlcpp.Socket
