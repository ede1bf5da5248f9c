import Nlcpp.Delivery
import Mathlib.Data.UInt

/-!
Sequence numbers over whole runs of synchronous calls.

`sendMessageSync` takes its message by `const` reference, but libnl writes the
number it assigns into it, so the number stays in the message object. A run
keeps every message object of the client. `Fits` is the condition on the run's
inputs alone: it counts calls and remembers what each message object holds.
`all_matched_iff_fits` says that it is exact.
-/

namespace Nlcpp

variable {π : Type}

/-! ### Runs of synchronous calls -/

/-- What the kernel sends for request `n`: an answer in which every message
carries the number. -/
structure KernelAnswer (π : Type) (n : UInt32) extends Answer π n where
  unmixed : ∀ event ∈ before ++ after, Unmixed n event

/-- A client with one socket and the message objects it has. -/
structure Client (π : Type) where
  world : World π
  messages : ℕ → Message

/-- One `sendMessageSync` of a message object, with a callback or without, and
what the kernel will answer to the number that goes out. -/
structure Call (π : Type) where
  message : ℕ
  callback : Option (Option Closure)
  answer : (n : UInt32) → KernelAnswer π n

/-- Who is called with the replies: the call's callback, or the handler. -/
def Call.listener (call : Call π) (handler : Option Closure) : Option Closure :=
  call.callback.getD handler

section Runs

variable (L : Libnl π) (conduct : Conduct π)

/-- The number that goes out when the call is made. -/
def Call.number (call : Call π) (c : Client π) : UInt32 :=
  (L.nlSendAuto (c.messages call.message) c.world.nl).2.1.seq

/-- The socket with the answer to the call under way. -/
def Call.awaited (call : Call π) (c : Client π) : World π :=
  c.world.arrive (call.answer (call.number L c)).queue

/-- Make the call. -/
def Call.send (call : Call π) (c : Client π) : Outcome Thrown (World π) Message :=
  match call.callback with
  | none =>
    (Socket.sendMessageSync L conduct.call (c.messages call.message)).run (call.awaited L c)
  | some callback =>
    (Socket.sendMessageSyncWith L conduct.call (c.messages call.message) callback).run
      (call.awaited L c)

/-- The client after a call: the message object holds what was sent. -/
def Client.after (c : Client π) (call : Call π) (sent : Message) (w : World π) : Client π where
  world := w
  messages := Function.update c.messages call.message sent

/-- In every call of the run the number sent is the expected one, the terminal
message of the answer is dispatched, and the call returns. -/
def AllMatched (c : Client π) : List (Call π) → Prop
  | [] => True
  | call :: calls => ∃ sent w', call.send L conduct c = .returned sent w' ∧
      sent.seq = c.world.nl.seqExpect ∧
      (call.answer sent.seq).terminal ∈ w'.nl.dispatched.drop c.world.nl.dispatched.length ∧
      AllMatched (c.after call sent w') calls

end Runs

/-! ### The condition on the inputs -/

/-- What a run of calls on a socket that started with number `start` has come to:
how many calls assigned a number and how many brought one, what the message
objects hold, and what was handed out. -/
structure Tally (π : Type) where
  fresh : ℕ
  explicit : ℕ
  fields : ℕ → UInt32
  trace : List (Event π)

namespace Tally

variable (start : UInt32) (handler : Option Closure) (conduct : Conduct π)

/-- The number of the next call: `start` plus the calls made so far. -/
def turn (t : Tally π) : UInt32 := start + UInt32.ofNat (t.fresh + t.explicit)

/-- The call's message carries no number, and the calls that brought one make up
whole rounds of the 32-bit counter; or it carries just the number whose turn it is. -/
def InTurn (t : Tally π) (call : Call π) : Prop :=
  if t.fields call.message = 0 then 2 ^ 32 ∣ t.explicit
  else t.fields call.message = t.turn start

/-- The messages an answer to the next call lets through. -/
def answered (t : Tally π) (call : Call π) : List (NlMsg π) :=
  (call.answer (t.turn start)).delivered ++ [(call.answer (t.turn start)).terminal]

/-- No function object throws on the replies to the next call. -/
def Unharmed (t : Tally π) (call : Call π) : Prop :=
  ¬Trips (conduct.fails t.trace (call.listener handler)) [] (t.answered start call)

/-- The tally after a call whose turn it was. -/
def next (t : Tally π) (call : Call π) : Tally π where
  fresh := if t.fields call.message = 0 then t.fresh + 1 else t.fresh
  explicit := if t.fields call.message = 0 then t.explicit else t.explicit + 1
  fields := Function.update t.fields call.message (t.turn start)
  trace := t.trace ++ handedTo (call.listener handler) (t.answered start call)

/-- Every call of the run comes in turn, and none throws. -/
def Fits (t : Tally π) : List (Call π) → Prop
  | [] => True
  | call :: calls => t.InTurn start call ∧ t.Unharmed start handler conduct call ∧
      (t.next start handler call).Fits calls

end Tally

/-! ### The invariant -/

/-- What the tally says of the client: the socket's two numbers, the message
objects, the history, and that only stale messages are left in the queue. -/
structure Tally.Of (start : UInt32) (handler : Option Closure) (t : Tally π) (c : Client π) :
    Prop where
  checked : c.world.socket.acceptAll = false
  installed : c.world.socket.validCallback = handler
  seqNext : c.world.nl.seqNext = start + UInt32.ofNat t.fresh
  seqExpect : c.world.nl.seqExpect = t.turn start
  fields : ∀ i, (c.messages i).seq = t.fields i
  trace : c.world.trace = t.trace
  stale : ∀ event ∈ c.world.nl.incoming, Answer.Stale (t.turn start) event

theorem add_ofNat_eq_iff (start : UInt32) (fresh explicit : ℕ) :
    start + UInt32.ofNat fresh = start + UInt32.ofNat (fresh + explicit) ↔ 2 ^ 32 ∣ explicit := by
  rw [UInt32.ofNat_add, ← add_assoc, left_eq_add, UInt32.ofNat_eq_iff_mod_eq_toNat,
    Nat.dvd_iff_mod_eq_zero]
  rfl

/-- The turn moves on by one with every call. -/
theorem Tally.next_turn (start : UInt32) (handler : Option Closure) (t : Tally π) (call : Call π) :
    (t.next start handler call).turn start = t.turn start + 1 := by
  have one_more : (t.next start handler call).fresh + (t.next start handler call).explicit =
      t.fresh + t.explicit + 1 := by
    unfold Tally.next
    dsimp only
    split <;> omega
  rw [Tally.turn, one_more, UInt32.ofNat_add, ← add_assoc]
  rfl

/-- What carries the number of a call is stale for the next one. -/
theorem stale_of_unmixed {n : UInt32} {event : Incoming π} (unmixed : Unmixed n event) :
    Answer.Stale (n + 1) event := by
  cases event with
  | failure code => trivial
  | datagram ms =>
      intro m mem same
      rw [unmixed m mem] at same
      simp at same

section Step

variable {L : Libnl π} {conduct : Conduct π} {start : UInt32} {handler : Option Closure}
  {t : Tally π} {c : Client π} {call : Call π}

/-- The number that goes out is the expected one exactly when the call comes in
turn. -/
theorem number_iff_inTurn (kept : t.Of start handler c) :
    call.number L c = t.turn start ↔ t.InTurn start call := by
  unfold Call.number Tally.InTurn
  by_cases fresh : t.fields call.message = 0
  · rw [if_pos fresh, (L.send_fresh _ _ ((kept.fields _).trans fresh)).1, kept.seqNext]
    exact add_ofNat_eq_iff start t.fresh t.explicit
  · have numbered : (c.messages call.message).seq ≠ 0 := by rwa [kept.fields]
    rw [if_neg fresh, (L.send_numbered _ _ numbered).1, kept.fields]

/-- What is sent does not depend on what has arrived meanwhile. -/
theorem number_awaited : (L.nlSendAuto (c.messages call.message) (call.awaited L c).nl).2.1.seq =
    call.number L c := by
  unfold Call.number
  by_cases fresh : (c.messages call.message).seq = 0
  · rw [(L.send_fresh _ _ fresh).1, (L.send_fresh _ _ fresh).1]
    rfl
  · rw [(L.send_numbered _ _ fresh).1, (L.send_numbered _ _ fresh).1]

/-- Either overload is an exchange with the call's listener. -/
theorem send_exchange (kept : t.Of start handler c) :
    call.send L conduct c =
      (exchangeOf conduct (call.awaited L c) (call.listener handler)).comeBack L
        (c.messages call.message) (call.awaited L c) (call.listener handler)
        fun _ => (L.nlSendAuto (c.messages call.message) (call.awaited L c).nl).2.1 := by
  have installed : (call.awaited L c).socket.validCallback = handler := kept.installed
  unfold Call.send Call.listener
  cases call.callback with
  | none =>
      dsimp only
      rw [sendMessageSync_exchange, installed]
      rfl
  | some callback => exact sendMessageSyncWith_exchange ..

variable (conduct) in
/-- A call that comes in turn finds its answer behind stale messages. -/
theorem exchange_inTurn (kept : t.Of start handler c) (turn : call.number L c = t.turn start) :
    (t.Unharmed start handler conduct call ∧
      ∃ q, exchangeOf conduct (call.awaited L c) (call.listener handler) =
          .ended q (call.answer (t.turn start)).after ∧
        q.expect = t.turn start + 1 ∧ q.passed = t.answered start call) ∨
    (¬t.Unharmed start handler conduct call ∧
      ∃ e q rest, exchangeOf conduct (call.awaited L c) (call.listener handler) =
        .thrown e q rest) := by
  have taken := exchange_answer_trips true
    (conduct.fails t.trace (call.listener handler))
    ((call.answer (t.turn start)).toAnswer.behind kept.stale)
    (p := .start (t.turn start)) (fun _ => rfl) nofun Int.one_pos
  rw [Answer.behind_queue] at taken
  have same : exchangeOf conduct (call.awaited L c) (call.listener handler) =
      exchange true (conduct.fails t.trace (call.listener handler)) false false
        (c.world.nl.incoming ++ (call.answer (t.turn start)).queue) (.start (t.turn start)) := by
    simp only [exchangeOf, Call.awaited, World.arrive, kept.checked, kept.trace,
      kept.seqExpect, Bool.not_false]
    rw [turn]
  rw [same]
  simpa only [Progress.start, List.nil_append, Answer.behind_delivered, Answer.behind_terminal,
    Answer.behind_after, Tally.Unharmed, Tally.answered, not_not] using taken

/-- libnl's next number after a call moves on only when it was assigned. -/
theorem seqNext_after (kept : t.Of start handler c) :
    (L.nlSendAuto (c.messages call.message) (call.awaited L c).nl).2.2.seqNext =
      start + UInt32.ofNat (t.next start handler call).fresh := by
  unfold Tally.next
  by_cases fresh : t.fields call.message = 0
  · rw [(L.send_fresh _ _ ((kept.fields _).trans fresh)).2]
    simp only [if_pos fresh, UInt32.ofNat_add, ← add_assoc, ← kept.seqNext]
    rfl
  · have numbered : (c.messages call.message).seq ≠ 0 := by rwa [kept.fields]
    rw [(L.send_numbered _ _ numbered).2]
    simp only [if_neg fresh, ← kept.seqNext]
    rfl

/-- **A call in turn that nothing harms is matched, and the tally goes on.** -/
theorem send_matched (kept : t.Of start handler c) (turn : t.InTurn start call)
    (unharmed : t.Unharmed start handler conduct call) :
    ∃ sent w', call.send L conduct c = .returned sent w' ∧ sent.seq = t.turn start ∧
      w'.nl.dispatched = c.world.nl.dispatched ++ t.answered start call ∧
      (t.next start handler call).Of start handler (c.after call sent w') := by
  have number := (number_iff_inTurn (L := L) kept).mpr turn
  rcases exchange_inTurn conduct kept number with
    ⟨-, q, ended, expect, passed⟩ | ⟨harmed, -⟩
  · rw [send_exchange kept, ended]
    refine ⟨_, _, rfl, number_awaited.trans number, ?_, ?_⟩
    · simp [Progress.world, passed, Call.awaited, World.arrive]
    · refine ⟨kept.checked, kept.installed, seqNext_after kept, ?_, ?_, ?_, ?_⟩
      · exact expect.trans (t.next_turn start handler call).symm
      · intro i
        by_cases this : i = call.message
        · subst this
          simpa [Client.after, Tally.next] using number_awaited.trans number
        · simpa [Client.after, Tally.next, this] using kept.fields i
      · simp only [Client.after, Progress.world, World.during, Call.awaited, World.arrive,
          Tally.next, kept.trace, passed]
      · rw [t.next_turn start handler call]
        intro event mem
        exact stale_of_unmixed ((call.answer (t.turn start)).unmixed event
          (List.mem_append_right _ mem))
  · exact absurd unharmed harmed

/-- Who is matched came in turn and was not harmed. -/
theorem matched_fits (kept : t.Of start handler c) {sent : Message} {w' : World π}
    (back : call.send L conduct c = .returned sent w') (expected : sent.seq = t.turn start) :
    t.InTurn start call ∧ t.Unharmed start handler conduct call := by
  rw [send_exchange kept] at back
  have same : sent.seq = call.number L c := by
    rw [← number_awaited]
    cases ended : exchangeOf conduct (call.awaited L c) (call.listener handler) with
    | ended p rest =>
        rw [ended] at back
        cases back
        rfl
    | thrown e p rest =>
        rw [ended] at back
        cases back
    | starved p =>
        rw [ended] at back
        cases back
  have number : call.number L c = t.turn start := same.symm.trans expected
  rcases exchange_inTurn conduct kept number with
    ⟨unharmed, -⟩ | ⟨-, e, q, rest, thrown⟩
  · exact ⟨(number_iff_inTurn kept).mp number, unharmed⟩
  · rw [thrown] at back
    cases back

end Step

/-- Calls are matched exactly as long as the tally says so. -/
theorem allMatched_iff {L : Libnl π} {conduct : Conduct π} {start : UInt32}
    {handler : Option Closure} {t : Tally π} {c : Client π} (kept : t.Of start handler c)
    (calls : List (Call π)) :
    AllMatched L conduct c calls ↔ t.Fits start handler conduct calls := by
  induction calls generalizing t c with
  | nil => exact Iff.rfl
  | cons call calls ih =>
      constructor
      · rintro ⟨sent, w', back, expected, -, later⟩
        rw [kept.seqExpect] at expected
        obtain ⟨turn, unharmed⟩ := matched_fits kept back expected
        obtain ⟨sent', w'', back', -, -, kept'⟩ := send_matched (L := L) kept turn unharmed
        rw [back] at back'
        cases back'
        exact ⟨turn, unharmed, (ih kept').mp later⟩
      · rintro ⟨turn, unharmed, later⟩
        obtain ⟨sent, w', back, expected, dispatched, kept'⟩ :=
          send_matched (L := L) kept turn unharmed
        refine ⟨sent, w', back, expected.trans kept.seqExpect.symm, ?_, (ih kept').mpr later⟩
        rw [dispatched, List.drop_left, expected]
        simp [Tally.answered]

/-- A client with a new socket, on which a handler may have been installed. -/
def Client.opened (start : UInt32) (callStatus : ℤ) (handler : Option Closure)
    (messages : ℕ → Message) : Client π where
  world := { World.opened π start callStatus with
    socket := { Socket.opened callStatus with validCallback := handler } }
  messages

/-- **Every call of a run is matched with its own answer if and only if the run
fits**: each call's message carries no number while the calls that brought one
make up whole rounds of the counter, or carries just the number whose turn it
is; and no function object throws on a reply. -/
theorem all_matched_iff_fits (L : Libnl π) (conduct : Conduct π) (start : UInt32)
    (callStatus : ℤ) (handler : Option Closure) (messages : ℕ → Message)
    (calls : List (Call π)) :
    AllMatched L conduct (Client.opened start callStatus handler messages) calls ↔
      Tally.Fits start handler conduct ⟨0, 0, fun i => (messages i).seq, []⟩ calls := by
  refine allMatched_iff ⟨rfl, rfl, ?_, ?_, fun _ => rfl, rfl, ?_⟩ calls
  · exact (add_zero start).symm
  · exact (add_zero start).symm
  · simp [Client.opened, World.opened]

/-- A kernel that acknowledges every request at once. -/
def acknowledge (n : UInt32) : KernelAnswer Reply n where
  toAnswer := ack n
  unmixed := by simp [ack]

/-- The same message object sent twice on a new socket: the second call goes out
with the number of the first, and never comes back. -/
theorem resent_message_unmatched :
    ¬AllMatched (.reference Reply) .quiet
        (Client.opened 5 0 none fun _ => Ctrl.dumpFamilies)
        [⟨0, none, acknowledge⟩, ⟨0, none, acknowledge⟩] := by
  rintro ⟨sent, w', first, -, -, sent', w'', second, -⟩
  cases first
  cases second

end Nlcpp
