import Mathlib.Data.List.Perm.Subperm
import Nlcpp.Lib.Run
import Nlcpp.Nesting

/-!
What becomes of the messages that a socket receives.

An `Account` says, of what happened between two states, which receive events were used up,
which messages were dispatched and what the client saw. Every program of the classes has one
(`SocketCall.accounts`), with function objects that may use the socket themselves: no message
is dispatched twice, and a data message that is dispatched goes to exactly one function object.
`messages_accounted` says so of every run of a socket whose function objects send requests and
install handlers (`Script`); `messages_in_order` is about function objects that leave the socket
alone, where the order of arrival is kept as well.
-/

namespace Nlcpp

open scoped List

variable {π : Type}

/-! ### What is accounted for -/

/-- The messages of a receive event. -/
def Incoming.messages : Incoming π → List (NlMsg π)
  | .datagram ms => ms
  | .failure _ => []

/-- The messages that arrived, oldest first. -/
def arrivals (events : List (Incoming π)) : List (NlMsg π) := events.flatMap Incoming.messages

/-- The message that a function object was called with. -/
def Event.message? : Event π → Option (NlMsg π)
  | .handed _ m => some m
  | _ => none

/-- The messages that function objects were called with. -/
def handedIn (events : List (Event π)) : List (NlMsg π) := events.filterMap Event.message?

/-- The number that is expected after these messages. -/
def expectAfter (n : UInt32) : List (NlMsg π) → UInt32
  | [] => n
  | m :: ms => expectAfter (if m.isTerminal then n + 1 else n) ms

/-- Each of these messages carries the number that is expected when it comes. -/
def Numbered (n : UInt32) : List (NlMsg π) → Prop
  | [] => True
  | m :: ms => m.seq = n ∧ Numbered (if m.isTerminal then n + 1 else n) ms

/-- An ACK or ERROR is the last message of its datagram. -/
def NothingBehind : List (NlMsg π) → Prop
  | [] => True
  | m :: ms => ((∃ e, m.body = .error e) → ms = []) ∧ NothingBehind ms

/-- The receive events used up between two states, the messages dispatched, and what the client
saw. -/
structure Account (π : Type) where
  used : List (Incoming π)
  passed : List (NlMsg π)
  events : List (Event π)

/-- What became of the messages between two states: of those that were `held` already, and of
those that were received. With `lax` none is refused for its number; where everybody called is
`alone`, nobody uses the socket. -/
structure Account.Of (alone : Prop) (lax : Bool) (held : List (NlMsg π)) (returned : Bool)
    (w w' : World π) (a : Account π) : Prop where
  incoming : w.nl.incoming = a.used ++ w'.nl.incoming
  dispatched : w'.nl.dispatched = w.nl.dispatched ++ a.passed
  trace : w'.trace = w.trace ++ a.events
  once : a.passed <+~ held ++ arrivals a.used
  ordered : alone → a.passed <+ held ++ arrivals a.used
  called : handedIn a.events <+ a.passed.filter NlMsg.isData
  allCalled : w.socket.validCallback.isSome = true →
    handedIn a.events = a.passed.filter NlMsg.isData ∧ w'.socket.validCallback.isSome = true
  expect : w'.nl.seqExpect = expectAfter w.nl.seqExpect a.passed
  numbered : w'.socket.acceptAll = false → Numbered w.nl.seqExpect a.passed
  acceptAll : w.socket.acceptAll = true → w'.socket.acceptAll = true
  whole : returned = true → lax = true → NothingBehind held →
    (∀ event ∈ a.used, NothingBehind event.messages) → a.passed ~ held ++ arrivals a.used

/-! ### One thing after the other -/

section Append

theorem arrivals_append (a b : List (Incoming π)) :
    arrivals (a ++ b) = arrivals a ++ arrivals b := List.flatMap_append

theorem handedIn_append (a b : List (Event π)) : handedIn (a ++ b) = handedIn a ++ handedIn b :=
  List.filterMap_append

theorem expectAfter_append (n : UInt32) (a b : List (NlMsg π)) :
    expectAfter n (a ++ b) = expectAfter (expectAfter n a) b := by
  induction a generalizing n with
  | nil => rfl
  | cons m a ih => exact ih _

theorem Numbered.append {n : UInt32} {a b : List (NlMsg π)} (first : Numbered n a)
    (rest : Numbered (expectAfter n a) b) : Numbered n (a ++ b) := by
  induction a generalizing n with
  | nil => exact rest
  | cons m a ih => exact ⟨first.1, ih first.2 rest⟩

theorem NothingBehind.of_append {a b : List (NlMsg π)} (nothing : NothingBehind (a ++ b)) :
    NothingBehind a ∧ NothingBehind b := by
  induction a with
  | nil => exact ⟨trivial, nothing⟩
  | cons m a ih =>
      obtain ⟨last, rest⟩ := nothing
      exact ⟨⟨fun error => (List.append_eq_nil_iff.mp (last error)).1, (ih rest).1⟩, (ih rest).2⟩

/-- What was held or received in one part and in the next was held or received in both. -/
theorem shuffled (held arrived held' arrived' : List (NlMsg π)) :
    (held ++ arrived) ++ (held' ++ arrived') ~ (held ++ held') ++ (arrived ++ arrived') := by
  rw [List.append_assoc, List.append_assoc]
  exact (List.perm_append_comm_assoc arrived held' arrived').append_left held

end Append

namespace Account

def append (a b : Account π) : Account π where
  used := a.used ++ b.used
  passed := a.passed ++ b.passed
  events := a.events ++ b.events

variable {alone : Prop} {lax lax' came returned : Bool} {held held' : List (NlMsg π)}
  {w t u : World π} {a b : Account π}

/-- The accounts of one part and of the next are the account of both. -/
theorem Of.trans (first : a.Of alone lax held came w t)
    (second : b.Of alone lax' held' returned t u) (laxer : lax = true → lax' = true)
    (order : alone → a.used = [] ∨ held' = []) :
    (a.append b).Of alone lax (held ++ held') (came && returned) w u where
  incoming := by rw [append, first.incoming, second.incoming, List.append_assoc]
  dispatched := by rw [append, second.dispatched, first.dispatched, List.append_assoc]
  trace := by rw [append, second.trace, first.trace, List.append_assoc]
  once := by
    rw [append, arrivals_append]
    exact (first.once.append second.once).trans (shuffled _ _ _ _).subperm
  ordered isAlone := by
    have both := (first.ordered isAlone).append (second.ordered isAlone)
    rw [append, arrivals_append]
    rcases order isAlone with nothing | nothing
    · rw [nothing] at both ⊢
      simpa [arrivals] using both
    · rw [nothing] at both ⊢
      simpa using both
  called := by
    rw [append, handedIn_append, List.filter_append]
    exact first.called.append second.called
  allCalled installed := by
    obtain ⟨called, still⟩ := first.allCalled installed
    obtain ⟨called', still'⟩ := second.allCalled still
    rw [append, handedIn_append, List.filter_append, called, called']
    exact ⟨rfl, still'⟩
  expect := by rw [append, second.expect, first.expect, expectAfter_append]
  numbered checked := by
    have before : t.socket.acceptAll = false :=
      Bool.eq_false_iff.mpr fun off => Bool.eq_false_iff.mp checked (second.acceptAll off)
    refine (first.numbered before).append ?_
    rw [← first.expect]
    exact second.numbered checked
  acceptAll off := second.acceptAll (first.acceptAll off)
  whole both isLax nothing each := by
    obtain ⟨came, returned⟩ := Bool.and_eq_true_iff.mp both
    obtain ⟨early, late⟩ := nothing.of_append
    obtain ⟨each, each'⟩ := List.forall_mem_append.mp each
    rw [append, arrivals_append]
    exact ((first.whole came isLax early each).append
      (second.whole returned (laxer isLax) late each')).trans (shuffled _ _ _ _)

/-- Between these states nothing was received and nothing was dispatched. -/
structure Quiet (events : List (Event π)) (w w' : World π) : Prop where
  incoming : w'.nl.incoming = w.nl.incoming
  dispatched : w'.nl.dispatched = w.nl.dispatched
  expect : w'.nl.seqExpect = w.nl.seqExpect
  trace : w'.trace = w.trace ++ events
  silent : handedIn events = []
  acceptAll : w.socket.acceptAll = true → w'.socket.acceptAll = true
  installed : w.socket.validCallback.isSome = true → w'.socket.validCallback.isSome = true

theorem Quiet.of {events : List (Event π)} (quiet : Quiet events w t) :
    Of alone lax [] returned w t ⟨[], [], events⟩ where
  incoming := quiet.incoming.symm
  dispatched := by rw [quiet.dispatched, List.append_nil]
  trace := quiet.trace
  once := List.Subperm.refl []
  ordered _ := List.Sublist.refl []
  called := by rw [quiet.silent]; exact List.Sublist.refl []
  allCalled installed := ⟨quiet.silent, quiet.installed installed⟩
  expect := quiet.expect
  numbered _ := trivial
  acceptAll := quiet.acceptAll
  whole _ _ _ _ := List.Perm.refl []

theorem Quiet.refl (w : World π) : Quiet [] w w :=
  ⟨rfl, rfl, rfl, (List.append_nil _).symm, rfl, id, id⟩

/-- The rest of a datagram is left, if there may be one. -/
theorem Of.cut (account : a.Of alone lax held returned w t)
    (last : returned = true → lax = true → NothingBehind (held ++ held') → held' = []) :
    a.Of alone lax (held ++ held') returned w t :=
  { account with
    once := by
      refine account.once.trans (List.Sublist.subperm ?_)
      exact (List.sublist_append_left held held').append (List.Sublist.refl _)
    ordered := fun isAlone => (account.ordered isAlone).trans
      ((List.sublist_append_left held held').append (List.Sublist.refl _))
    whole := fun came isLax nothing each => by
      cases last came isLax nothing
      rw [List.append_nil] at nothing ⊢
      exact account.whole came isLax nothing each }

/-- A datagram was received, and was held then. -/
theorem Of.read {ms : List (NlMsg π)} {rest : List (Incoming π)}
    (next : w.nl.incoming = .datagram ms :: rest)
    (account : a.Of alone lax ms returned { w with nl := { w.nl with incoming := rest } } t) :
    Of alone lax [] returned w t ⟨.datagram ms :: a.used, a.passed, a.events⟩ :=
  { account with
    incoming := by
      rw [next, List.cons_append]
      exact congrArg _ account.incoming
    once := account.once
    ordered := account.ordered
    whole := fun came isLax _ each =>
      account.whole came isLax (each _ List.mem_cons_self)
        fun event mem => each event (List.mem_cons_of_mem _ mem) }

/-- A read failed. -/
theorem Of.unread {code : ℕ} {rest : List (Incoming π)}
    (next : w.nl.incoming = .failure code :: rest) :
    Of alone lax [] returned w { w with nl := { w.nl with incoming := rest } }
      ⟨[.failure code], [], []⟩ :=
  have nothing : Of alone lax [] returned w w ⟨[], [], []⟩ := (Quiet.refl w).of
  { nothing with incoming := next, whole := fun _ _ _ _ => List.Perm.refl [] }

/-- A message passed the sequence check, and its function object was called if there was one. -/
theorem of_dispatch {m : NlMsg π} {events : List (Event π)}
    (accepted : ¬((!lax) = true ∧ m.seq ≠ w.nl.seqExpect))
    (off : lax = true → w.socket.acceptAll = true) (nl : t.nl = (w.dispatch m).nl)
    (trace : t.trace = w.trace ++ events)
    (calls : handedIn events =
      if w.socket.validCallback.isSome = true then [m].filter NlMsg.isData else [])
    (same : t.socket.acceptAll = w.socket.acceptAll ∧
      t.socket.validCallback = w.socket.validCallback) :
    Of alone lax [m] returned w t ⟨[], [m], events⟩ where
  incoming := by rw [nl]; rfl
  dispatched := by rw [nl]; rfl
  trace := trace
  once := List.Subperm.refl _
  ordered _ := List.Sublist.refl _
  called := by
    rw [calls]
    split
    · exact List.Sublist.refl _
    · exact List.nil_sublist _
  allCalled installed := by
    rw [calls, if_pos installed, same.2]
    exact ⟨rfl, installed⟩
  expect := by rw [nl]; rfl
  numbered checked := by
    rw [same.1] at checked
    have strict : lax = false := Bool.eq_false_iff.mpr fun isLax => by
      rw [off isLax] at checked
      cases checked
    refine ⟨?_, trivial⟩
    by_contra other
    exact accepted ⟨by rw [strict]; rfl, other⟩
  acceptAll isOff := by rwa [same.1]
  whole _ _ _ _ := List.Perm.refl _

end Account

/-! ### Calls of function objects -/

/-- What became of the messages, for some account; with no sequence check none is refused. -/
def Accounted (alone : Prop) (returned : Bool) (w w' : World π) : Prop :=
  ∃ a : Account π, a.Of alone w.socket.acceptAll [] returned w w'

theorem accounted_composes (alone : Prop) : Prog.Composes (Accounted (π := π) alone) where
  refl _ w := ⟨_, (Account.Quiet.refl w).of⟩
  trans := by
    rintro returned s t u ⟨a, first⟩ ⟨b, second⟩
    exact ⟨_, first.trans second first.acceptAll fun _ => .inr rfl⟩

/-- While fewer than `n` receive events are pending, function objects account for the messages,
the one they are called with included. Where they are `alone` they receive none. -/
def Caller.Accounts (alone : Prop) (n : ℕ) (call : Caller π) : Prop :=
  ∀ closure msg (w : World π), w.pending < n →
    ∃ a : Account π,
      a.Of alone w.socket.acceptAll [] ((call closure msg).run w).isReturned
        { w with trace := w.trace ++ [.handed closure msg] } ((call closure msg).run w).state ∧
      (alone → a.used = [])

section Receiving

/-- A failed read and a received datagram are accounted for when the work on the datagram is. -/
theorem readThen_accounts {alone : Prop} {lax : Bool} {w : World π}
    {parse : List (NlMsg π) → SockProg π ℤ}
    (each : ∀ ms (v : World π), v.pending < w.pending → v.socket = w.socket →
      ∃ a : Account π, a.Of alone lax ms ((parse ms).run v).isReturned v ((parse ms).run v).state) :
    ∃ a : Account π,
      a.Of alone lax [] ((readThen parse).run w).isReturned w ((readThen parse).run w).state := by
  rcases incoming : w.nl.incoming with _ | ⟨ms | code, rest⟩
  · rw [readThen_nil incoming]
    exact ⟨_, (Account.Quiet.refl w).of⟩
  · rw [readThen_datagram incoming]
    obtain ⟨a, account⟩ := each ms { w with nl := { w.nl with incoming := rest } }
      (by simp [World.pending, incoming]) rfl
    exact ⟨_, account.read incoming⟩
  · rw [readThen_failure incoming]
    exact ⟨_, Account.Of.unread incoming⟩

variable {alone : Prop} {n : ℕ} {call : Caller π} (accounts : call.Accounts alone n)
  {acceptAll : Bool} {m : NlMsg π} {w : World π}

include accounts

/-- A message that passes the sequence check is dispatched, and what its callback does is
accounted for. Only the callback of an ACK or ERROR stops. -/
theorem callback_accounts (few : w.pending < n)
    (accepted : ¬((!acceptAll) = true ∧ m.seq ≠ w.nl.seqExpect))
    (off : acceptAll = true → w.socket.acceptAll = true) :
    let o := ((Socket.callbacks call acceptAll).of m).run (w.dispatch m)
    (∃ a : Account π, a.Of alone acceptAll [m] o.isReturned w o.state ∧ (alone → a.used = [])) ∧
      ∀ c w', o = .returned c w' → c = .stop → ∃ e, m.body = .error e := by
  intro o
  have terminal (notData : m.isData = false) (status : ℤ) :
      Account.Of alone acceptAll [m] true w
        { w.dispatch m with socket := { (w.dispatch m).socket with callStatus := status } }
        ⟨[], [m], []⟩ := by
    refine Account.of_dispatch accepted off rfl (List.append_nil _).symm ?_ ⟨rfl, rfl⟩
    simp [handedIn, notData]
  cases body : m.body with
  | done =>
      have ran : o = _ := callbacks_of_done body acceptAll
      rw [ran]
      refine ⟨⟨_, terminal (NlMsg.isData_of_body_done body) 0, fun _ => rfl⟩, ?_⟩
      intro c w' same stop
      cases same
      cases stop
  | error code =>
      have ran : o = _ := callbacks_of_error body acceptAll
      rw [ran]
      exact ⟨⟨_, terminal (NlMsg.isData_of_body_error body) _, fun _ => rfl⟩,
        fun _ _ _ _ => ⟨code, rfl⟩⟩
  | data p =>
      have isData := NlMsg.isData_of_body_data body
      have ran : o = (Socket.validCallbackWrapper call m).run (w.dispatch m) := by
        simp only [o, callbacks_of_data body]
      cases slot : w.socket.validCallback with
      | none =>
          rw [Socket.validCallbackWrapper_none (by exact slot)] at ran
          rw [ran]
          refine ⟨⟨⟨[], [m], []⟩, ?_, fun _ => rfl⟩, ?_⟩
          · refine Account.of_dispatch accepted off rfl (List.append_nil _).symm ?_ ⟨rfl, rfl⟩
            simp [handedIn, slot]
          · intro c w' same stop
            cases same
            cases stop
      | some closure =>
          rw [Socket.validCallbackWrapper_some (by exact slot)] at ran
          obtain ⟨a, account, without⟩ := accounts closure m (w.dispatch m) few
          have first : Account.Of alone acceptAll [m] true w
              { w.dispatch m with trace := (w.dispatch m).trace ++ [.handed closure m] }
              ⟨[], [m], [.handed closure m]⟩ := by
            refine Account.of_dispatch accepted off rfl rfl ?_ ⟨rfl, rfl⟩
            simp [handedIn, Event.message?, slot, isData]
          have both := first.trans account off fun _ => .inr rfl
          rw [ran]
          cases result : (call closure m).run (w.dispatch m) with
          | returned u t =>
              rw [result] at both
              refine ⟨⟨_, both, fun isAlone => without isAlone⟩, ?_⟩
              intro c w' same stop
              cases same
              cases stop
          | threw e t =>
              rw [result] at both
              refine ⟨⟨_, both, fun isAlone => without isAlone⟩, ?_⟩
              intro c w' same
              cases same
          | blocked t =>
              rw [result] at both
              refine ⟨⟨_, both, fun isAlone => without isAlone⟩, ?_⟩
              intro c w' same
              cases same

variable (L : Libnl π)

/-- The work on a datagram accounts for its messages. The induction is on what is pending, for
the next datagram of a multipart message, and on the messages. -/
theorem parse_accounts (bound : ℕ) (few : bound < n) (multi intr : Bool) (ms : List (NlMsg π))
    (pending : w.pending ≤ bound) (off : acceptAll = true → w.socket.acceptAll = true) :
    let o := (L.parse (Socket.callbacks call acceptAll) multi intr ms).run w
    ∃ a : Account π, a.Of alone acceptAll ms o.isReturned w o.state := by
  induction bound using Nat.strong_induction_on generalizing multi intr ms w with
  | _ bound fewer =>
    induction ms generalizing multi intr w with
    | nil =>
        cases multi with
        | false =>
            rw [L.parse_end]
            exact ⟨_, (Account.Quiet.refl w).of⟩
        | true =>
            rw [L.parse_end_multipart]
            refine readThen_accounts fun ms v less same => ?_
            have below : v.pending < bound := Nat.lt_of_lt_of_le less pending
            exact fewer v.pending below (below.trans few) _ _ _ (Nat.le_refl _) (by rwa [same])
    | cons m ms later =>
        by_cases refused : (!acceptAll) = true ∧ m.seq ≠ w.nl.seqExpect
        · have strict : acceptAll = false := Bool.not_eq_true' _ |>.mp refused.1
          subst strict
          rw [L.parse_refused _ _ _ _ _ _ rfl refused.2]
          have nothing : Account.Of alone false [] true w w ⟨[], [], []⟩ :=
            (Account.Quiet.refl w).of
          exact ⟨_, nothing.cut fun _ isLax => by cases isLax⟩
        · obtain ⟨⟨a, account, without⟩, stops⟩ := callback_accounts accounts
            (Nat.lt_of_le_of_lt pending few) refused off
          rw [L.parse_accepted (callbacks_accepts.mpr refused)]
          have fewer_left := ((Socket.callbacks call acceptAll).of m).later (w.dispatch m)
          cases ran : ((Socket.callbacks call acceptAll).of m).run (w.dispatch m) with
          | threw e t =>
              rw [ran] at account
              exact ⟨a, account.cut fun came => by cases came⟩
          | blocked t =>
              rw [ran] at account
              exact ⟨a, account.cut fun came => by cases came⟩
          | returned c t =>
              rw [ran] at account fewer_left
              have left : t.pending ≤ bound := (World.pending_le fewer_left).trans pending
              have stillOff (isLax : acceptAll = true) := account.acceptAll (off isLax)
              have goOn (multi intr : Bool) :=
                later multi intr left stillOff
              have both {returned : Bool} {u : World π} {b : Account π}
                  (rest : b.Of alone acceptAll ms returned t u) :=
                account.trans rest id fun isAlone => .inl (without isAlone)
              rw [Outcome.next_returned]
              cases c with
              | ok =>
                  obtain ⟨b, rest⟩ := goOn (m.leavesOpen multi) (intr || m.dumpIntr)
                  exact ⟨_, both rest⟩
              | skip =>
                  obtain ⟨b, rest⟩ := goOn (m.leavesOpen multi) (intr || m.dumpIntr)
                  exact ⟨_, both rest⟩
              | stop =>
                  -- An ACK or ERROR stops; what is behind it in the datagram is left.
                  have last (nothing : NothingBehind (m :: ms)) : ms = [] :=
                    nothing.1 (stops _ _ ran rfl)
                  exact ⟨a, account.cut fun _ _ => last⟩

end Receiving

/-! ### Programs -/

namespace SockProg

variable {alone : Prop} {n : ℕ} {α β : Type}

/-- The program accounts for the messages, while at most `n` receive events are pending. -/
abbrev Accounts (alone : Prop) (n : ℕ) (p : SockProg π α) : Prop :=
  p.Keeps (Accounted alone) fun w => w.pending ≤ n

theorem Accounts.bind {p : SockProg π α} {f : α → SockProg π β} (first : p.Accounts alone n)
    (rest : ∀ a, (f a).Accounts alone n) : (p >>= f).Accounts alone n :=
  Prog.Keeps.bind (accounted_composes alone)
    (fun few later => (World.pending_le later).trans few) first rest

theorem accounts_pure (a : α) : (pure a : SockProg π α).Accounts alone n :=
  Prog.keeps_pure (accounted_composes alone) a

theorem accounts_get : SockProg.Accounts alone n (Prog.get : SockProg π (World π)) :=
  Prog.keeps_get (accounted_composes alone)

theorem accounts_throw (e : Thrown) : SockProg.Accounts alone n (Prog.throw e : SockProg π α) :=
  Prog.keeps_throw (accounted_composes alone) e

theorem accounts_check (r : Except Exception Unit) :
    (SockProg.check r : SockProg π Unit).Accounts alone n := by
  cases r with
  | ok u => exact accounts_pure ()
  | error e => exact accounts_throw _

theorem accounts_attempt (put : Except Exception Unit × Message) :
    (SockProg.attempt put : SockProg π Message).Accounts alone n := by
  obtain ⟨r, m⟩ := put
  cases r with
  | ok u => exact accounts_pure m
  | error e => exact accounts_throw _

/-- An event that is no call. -/
theorem accounts_log {e : Event π} (silent : e.message? = none) :
    (SockProg.log e).Accounts alone n := fun _ _ =>
  ⟨_, Account.Quiet.of ⟨rfl, rfl, rfl, rfl, by simp [handedIn, silent], id, id⟩⟩

theorem accounts_setSocket {f : Socket → Socket}
    (acceptAll : ∀ s, s.acceptAll = true → (f s).acceptAll = true)
    (installed : ∀ s, s.validCallback.isSome = true → (f s).validCallback.isSome = true) :
    (SockProg.setSocket f : SockProg π Unit).Accounts alone n := fun _ _ =>
  ⟨_, Account.Quiet.of ⟨rfl, rfl, rfl, (List.append_nil _).symm, rfl, acceptAll _, installed _⟩⟩

end SockProg

section Calls

variable {alone : Prop} {n : ℕ} {call : Caller π} (accounts : call.Accounts alone n) (L : Libnl π)

include accounts

theorem accounts_nlRecvmsgs : (Socket.nlRecvmsgs L call).Accounts alone n := by
  intro w few
  rw [Socket.nlRecvmsgs_run]
  refine readThen_accounts fun ms v less same => ?_
  have below : v.pending < n := Nat.lt_of_lt_of_le less few
  exact parse_accounts accounts L v.pending below _ _ _ (Nat.le_refl _) (by rw [same]; exact id)

theorem accounts_receiveLoop : (Socket.receiveLoop L call).Accounts alone n :=
  Prog.Keeps.whileDo (accounted_composes alone)
    (fun few later => (World.pending_le later).trans few)
    ((accounts_nlRecvmsgs accounts L).bind fun _ => SockProg.accounts_pure ())

theorem accounts_receiveMessages : (Socket.receiveMessages L call).Accounts alone n := by
  refine (accounts_nlRecvmsgs accounts L).bind fun res => ?_
  by_cases failed : res < 0
  · simp only [if_pos failed]
    exact (SockProg.accounts_check _).bind fun _ => SockProg.accounts_pure _
  · simp only [if_neg failed]
    exact SockProg.accounts_pure _

omit accounts in
theorem accounts_nlSendAuto (message : Message) :
    (Socket.nlSendAuto L message).Accounts alone n := by
  intro w _
  rw [Socket.nlSendAuto_run, L.sendAuto_sock]
  exact ⟨_, Account.Quiet.of ⟨rfl, rfl, rfl, (List.append_nil _).symm, rfl, id, id⟩⟩

theorem accounts_sendMessageSync (message : Message) :
    (Socket.sendMessageSync L call message).Accounts alone n := by
  refine (accounts_nlSendAuto L message).bind fun sent => ?_
  refine SockProg.Accounts.bind (SockProg.accounts_setSocket ?_ ?_) fun _ => ?_
  · exact fun _ off => off
  · exact fun _ installed => installed
  · exact (accounts_receiveLoop accounts L).bind fun _ => SockProg.accounts_pure sent

/-- A request with a callback: the messages are accounted for although the handler of before is
put back. -/
theorem accounts_request (message : Message) (callback : Closure) :
    (GenericSocket.sendMessageSync L call message callback).Accounts alone n := by
  intro w few
  obtain ⟨a, account⟩ := accounts_sendMessageSync accounts L message
    { w with socket := { w.socket with validCallback := some callback } } few
  rw [GenericSocket.sendMessageSync, Socket.sendMessageSyncWith_run]
  have called := account.allCalled rfl
  cases ran : (Socket.sendMessageSync L call message).run
      { w with socket := { w.socket with validCallback := some callback } } with
  | returned sent t =>
      rw [ran] at account called
      exact ⟨a, { account with allCalled := fun installed => ⟨called.1, installed⟩ }⟩
  | threw e t =>
      rw [ran] at account called
      exact ⟨a, { account with allCalled := fun _ => called }⟩
  | blocked t =>
      rw [ran] at account called
      exact ⟨a, { account with allCalled := fun _ => called }⟩

end Calls

/-! ### Function objects that account for the messages -/

section Callers

variable {alone : Prop} {n : ℕ} {call : Caller π} (L : Libnl π)

/-- The lambda of a request only looks at its message. -/
theorem accounts_withLambda (accounts : call.Accounts alone n) (lambda : Closure) :
    (call.withLambda lambda).Accounts alone n := by
  intro closure msg w few
  by_cases same : closure = lambda
  · rw [Caller.withLambda, if_pos same]
    exact ⟨_, (Account.Quiet.refl _).of, fun _ => rfl⟩
  · rw [Caller.withLambda, if_neg same]
    exact accounts closure msg w few

/-- Function objects that leave the socket alone, whether they throw or not. -/
theorem accounts_conduct (conduct : Conduct π) : conduct.call.Accounts True n := by
  intro closure msg w _
  rw [Conduct.call_run]
  cases conduct (w.trace ++ [.handed closure msg]) closure msg with
  | some e => exact ⟨_, (Account.Quiet.refl _).of, fun _ => rfl⟩
  | none => exact ⟨_, (Account.Quiet.refl _).of, fun _ => rfl⟩

theorem accounts_userRequest (accounts : call.Accounts alone n) (message : Message)
    (callback : Closure) : (UserCode.request L call message callback).Accounts alone n := by
  refine SockProg.accounts_get.bind fun before => ?_
  refine (SockProg.accounts_log rfl).bind fun _ => ?_
  refine (accounts_request accounts L message callback).bind fun sent => ?_
  exact SockProg.accounts_get.bind fun after => SockProg.accounts_log rfl

theorem accounts_onValidMessage (callback : Closure) :
    (GenericSocket.onValidMessage callback : SockProg π Unit).Accounts alone n := by
  refine SockProg.accounts_setSocket ?_ ?_
  · exact fun _ off => off
  · exact fun _ _ => rfl

theorem accounts_script (accounts : call.Accounts alone n) (script : Script π) :
    (script.run L call).Accounts alone n := by
  induction script with
  | finish => exact SockProg.accounts_pure ()
  | request message callback rest ih =>
      refine (accounts_userRequest L accounts message callback).bind fun _ => ?_
      exact SockProg.accounts_get.bind fun w => ih w.trace
  | install callback rest ih =>
      refine SockProg.Accounts.bind ?_ fun _ => SockProg.accounts_get.bind fun w => ih w.trace
      exact (SockProg.accounts_log rfl).bind fun _ => accounts_onValidMessage callback

/-- Function objects that use the socket account for the messages, to any depth: a request that
one of them sends has received something before it calls another. -/
theorem accounts_userCode (user : UserCode π) (n : ℕ) : (user.caller L).Accounts False n := by
  induction n with
  | zero => exact fun _ _ w few => absurd few (Nat.not_lt_zero _)
  | succ n ih =>
      intro closure msg w few
      rw [UserCode.caller_eq]
      obtain ⟨a, account⟩ := accounts_script L ih
        (user (w.trace ++ [.handed closure msg]) closure msg)
        { w with trace := w.trace ++ [.handed closure msg] } (Nat.le_of_lt_succ few)
      exact ⟨a, account, False.elim⟩

end Callers

/-! ### Runs -/

/-- What a client calls on a socket. -/
inductive SocketCall where
  | addMembership (group err : ℤ)
  | dropMembership (group err : ℤ)
  | onValidMessage (callback : Closure)
  | receiveMessages
  | send (message : Message)
  | request (message : Message) (callback : Closure)
  | getFamily (name : List UInt8) (lambda : Closure)
  | getFamilies (lambda : Closure)
  | getInterface (attrMax : ℕ) (family : ℤ) (ifindex : UInt32) (lambda : Closure)
  | getInterfaces (attrMax : ℕ) (family : ℤ) (lambda : Closure)

/-- A call, or something that arrives. Arrivals are taken from the front of the queue, so what
arrives during a call can as well arrive before it. -/
inductive SocketOp where
  | call (call : SocketCall)
  | arrive (events : List (Incoming Reply))

/-- A socket in use: what has arrived since, whether a call threw, and whether one waits. -/
structure SocketRun where
  world : World Reply
  arrived : List (Incoming Reply)
  threw : Bool
  waits : Bool

section Runs

variable (L : Libnl Reply) (N : Nla) (call : Caller Reply)

def SocketCall.prog : SocketCall → SockProg Reply Unit
  | addMembership group err => Socket.addMembership L group err
  | dropMembership group err => Socket.dropMembership L group err
  | onValidMessage callback => GenericSocket.onValidMessage callback
  | receiveMessages => do let _ ← Socket.receiveMessages L call
  | send message => do let _ ← Socket.sendMessageSync L call message
  | request message callback => do let _ ← GenericSocket.sendMessageSync L call message callback
  | getFamily name lambda => do let _ ← Ctrl.getFamily L N call name lambda
  | getFamilies lambda => do let _ ← Ctrl.getFamilies L N call lambda
  | getInterface attrMax family ifindex lambda => do
    let _ ← Nl80211.getInterface L N call attrMax family ifindex lambda
  | getInterfaces attrMax family lambda => do
    let _ ← Nl80211.getInterfaces L N call attrMax family lambda

namespace SocketRun

def of (w : World Reply) : SocketRun := ⟨w, [], false, false⟩

def returned (s : SocketRun) : Bool := !s.threw && !s.waits

/-- Nothing happens any more when a call waits. -/
def step (s : SocketRun) (op : SocketOp) : SocketRun :=
  if s.waits then s
  else match op with
    | .arrive events =>
      { s with world := s.world.arrive events, arrived := s.arrived ++ events }
    | .call c =>
      match (c.prog L N call).run s.world with
      | .returned _ w => { s with world := w }
      | .threw _ w => { s with world := w, threw := true }
      | .blocked w => { s with world := w, waits := true }

end SocketRun

variable {L N call} {alone : Prop} {n : ℕ}

/-- A function of libnl that only changes the groups. -/
theorem accounts_groups {f : NlSock π → NlSock π}
    {moves : ∀ w : World π, { w with nl := f w.nl } ≤ w}
    (groups : ∀ s, f s = { s with groups := (f s).groups }) :
    SockProg.Accounts alone n
      (Prog.modify (fun w => { w with nl := f w.nl }) moves : SockProg π Unit) := by
  intro w _
  rw [Prog.run_modify, groups]
  exact ⟨_, Account.Quiet.of ⟨rfl, rfl, rfl, (List.append_nil _).symm, rfl, id, id⟩⟩

theorem joined_groups (L : Libnl π) (group err : ℤ) (s : NlSock π) :
    L.nlSocketAddMembership group err s =
      { s with groups := (L.nlSocketAddMembership group err s).groups } := by
  by_cases ok : err = 0
  · rw [ok, L.join_ok]
  · rw [L.join_failed _ _ _ ok]

theorem left_groups (L : Libnl π) (group err : ℤ) (s : NlSock π) :
    L.nlSocketDropMembership group err s =
      { s with groups := (L.nlSocketDropMembership group err s).groups } := by
  by_cases ok : err = 0
  · rw [ok, L.leave_ok]
  · rw [L.leave_failed _ _ _ ok]

theorem accounts_local {α : Type} (accounts : call.Accounts alone n) (message : Message)
    (lambda : Closure) (body : α → Reply → α) (result : α) :
    (GenericSocket.sendMessageSyncLocal L call message lambda body result).Accounts alone n := by
  refine SockProg.accounts_get.bind fun before => ?_
  refine (accounts_request (accounts_withLambda accounts lambda) L message lambda).bind fun _ => ?_
  exact SockProg.accounts_get.bind fun after => SockProg.accounts_pure _

/-- Every call on a socket accounts for the messages. -/
theorem SocketCall.accounts (accounts : call.Accounts alone n) (c : SocketCall) :
    (c.prog L N call).Accounts alone n := by
  have done {α : Type} {p : SockProg Reply α} (kept : p.Accounts alone n) :
      SockProg.Accounts alone n (p >>= fun _ => pure ()) :=
    kept.bind fun _ => SockProg.accounts_pure ()
  cases c with
  | addMembership group err =>
      refine SockProg.Accounts.bind (SockProg.accounts_setSocket ?_ ?_) fun _ => ?_
      · exact fun _ _ => rfl
      · exact fun _ installed => installed
      · exact (accounts_groups (joined_groups L group err)).bind fun _ => SockProg.accounts_check _
  | dropMembership group err =>
      exact (accounts_groups (left_groups L group err)).bind fun _ => SockProg.accounts_check _
  | onValidMessage callback => exact accounts_onValidMessage callback
  | receiveMessages => exact done (accounts_receiveMessages accounts L)
  | send message => exact done (accounts_sendMessageSync accounts L message)
  | request message callback => exact done (accounts_request accounts L message callback)
  | getFamily name lambda =>
      exact done ((SockProg.accounts_attempt _).bind fun msg => accounts_local accounts _ _ _ _)
  | getFamilies lambda => exact done (accounts_local accounts _ _ _ _)
  | getInterface attrMax family ifindex lambda =>
      exact done ((SockProg.accounts_attempt _).bind fun msg => accounts_local accounts _ _ _ _)
  | getInterfaces attrMax family lambda => exact done (accounts_local accounts _ _ _ _)

/-- What arrives behind the queue changes no account. -/
theorem Account.Of.arrive {lax returned : Bool} {held : List (NlMsg π)} {w t : World π}
    {a : Account π} (account : a.Of alone lax held returned w t) (events : List (Incoming π)) :
    a.Of alone lax held returned (w.arrive events) (t.arrive events) :=
  { account with
    incoming := by
      show w.nl.incoming ++ events = a.used ++ (t.nl.incoming ++ events)
      rw [account.incoming, List.append_assoc] }

/-- What a run has made of the messages, as if all had been there when it began. -/
def SocketRun.Accounted (alone : Prop) (w : World Reply) (s : SocketRun) : Prop :=
  ∃ a : Account Reply, a.Of alone w.socket.acceptAll [] s.returned (w.arrive s.arrived) s.world

theorem SocketRun.Accounted.step (accounts : ∀ n, call.Accounts alone n) {w : World Reply}
    {s : SocketRun} (accounted : s.Accounted alone w) (op : SocketOp) :
    (s.step L N call op).Accounted alone w := by
  obtain ⟨world, arrived, threw, waits⟩ := s
  obtain ⟨a, account⟩ := accounted
  cases waits with
  | true => exact ⟨a, account⟩
  | false =>
      cases op with
      | arrive events =>
          refine ⟨a, ?_⟩
          have later := account.arrive events
          rwa [World.arrive, World.arrive, List.append_assoc] at later
      | call c =>
          obtain ⟨b, next⟩ := c.accounts (L := L) (N := N) (accounts world.pending) world
            (Nat.le_refl _)
          have both := account.trans next account.acceptAll fun _ => .inr rfl
          simp only [SocketRun.step]
          cases ran : (c.prog L N call).run world with
          | returned u t =>
              rw [ran] at both
              exact ⟨_, by simpa [SocketRun.returned, Outcome.isReturned] using both⟩
          | threw e t =>
              rw [ran] at both
              exact ⟨_, by simpa [SocketRun.returned, Outcome.isReturned] using both⟩
          | blocked t =>
              rw [ran] at both
              exact ⟨_, by simpa [SocketRun.returned, Outcome.isReturned] using both⟩

theorem SocketRun.accounted_run (accounts : ∀ n, call.Accounts alone n) (w : World Reply)
    (ops : List SocketOp) :
    (Run.final (SocketRun.step L N call) (.of w) ops).Accounted alone w := by
  refine Run.forall_states (P := SocketRun.Accounted alone w)
    (fun s op accounted => accounted.step accounts op) ?_ ops _ (Run.final_mem_states _ _)
  refine ⟨_, (Account.Quiet.of ⟨?_, rfl, rfl, (List.append_nil _).symm, rfl, id, id⟩)⟩
  exact (List.append_nil _).symm

/-- **No message is doubled, and none is lost behind libnl.** Whatever a client calls on a socket,
whatever requests its function objects send from inside of these calls and whatever handlers they
install, and whatever arrives: each message that was received is dispatched
at most once, and once a handler is installed each data message that is dispatched is handed to
exactly one function object, in the order of dispatch. While the sequence check is on, every
message dispatched carried the number expected then. When it was off from the beginning and
every call returned, all that was received was dispatched, unless something was behind an ACK or
ERROR in its datagram. -/
theorem messages_accounted (L : Libnl Reply) (N : Nla) (user : UserCode Reply) (w : World Reply)
    (ops : List SocketOp) :
    let s := Run.final (SocketRun.step L N (user.caller L)) (.of w) ops
    ∃ used passed events,
      w.nl.incoming ++ s.arrived = used ++ s.world.nl.incoming ∧
      s.world.nl.dispatched = w.nl.dispatched ++ passed ∧
      s.world.trace = w.trace ++ events ∧
      passed <+~ arrivals used ∧
      handedIn events <+ passed.filter NlMsg.isData ∧
      (w.socket.validCallback.isSome = true → handedIn events = passed.filter NlMsg.isData) ∧
      (s.world.socket.acceptAll = false → Numbered w.nl.seqExpect passed) ∧
      (s.returned = true → w.socket.acceptAll = true →
        (∀ event ∈ used, NothingBehind event.messages) → passed ~ arrivals used) := by
  intro s
  obtain ⟨a, account⟩ := SocketRun.accounted_run (N := N) (accounts_userCode L user) w ops
  exact ⟨a.used, a.passed, a.events, account.incoming, account.dispatched, account.trace,
    account.once, account.called, fun installed => (account.allCalled installed).1,
    account.numbered, fun came off => account.whole came off trivial⟩

/-- Callback 1 asks when it is called with the first of two events: the answer is dispatched, and
handed to callback 2, before the second one. -/
example :
    let event : NlMsg Reply := .of 0 (.data (namedReply []))
    let s := Run.final
      (SocketRun.step (.reference Reply) .reference (asking.caller (.reference Reply)))
      (.of (World.opened Reply 5 0))
      [.call (.addMembership 3 0), .call (.onValidMessage 1),
        .arrive [.datagram [event, { event with multi := true }],
          .datagram [.of 5 (.error 0)], .datagram [.of 6 (.error 0)], .datagram [.of 0 .done]],
        .call .receiveMessages]
    s.returned = true ∧ s.world.nl.dispatched.map NlMsg.seq = [0, 5, 0, 6, 0] := by
  decide

/-- **The order of arrival is kept** where function objects leave the socket alone: what is
dispatched is what was received, in order, less what was refused or left. -/
theorem messages_in_order (L : Libnl Reply) (N : Nla) (conduct : Conduct Reply) (w : World Reply)
    (ops : List SocketOp) :
    let s := Run.final (SocketRun.step L N conduct.call) (.of w) ops
    ∃ used passed events,
      w.nl.incoming ++ s.arrived = used ++ s.world.nl.incoming ∧
      s.world.nl.dispatched = w.nl.dispatched ++ passed ∧
      s.world.trace = w.trace ++ events ∧
      passed <+ arrivals used ∧
      (w.socket.validCallback.isSome = true → handedIn events = passed.filter NlMsg.isData) ∧
      (s.returned = true → w.socket.acceptAll = true →
        (∀ event ∈ used, NothingBehind event.messages) → passed = arrivals used) := by
  intro s
  obtain ⟨a, account⟩ :=
    SocketRun.accounted_run (N := N) (L := L) (fun n => accounts_conduct conduct) w ops
  refine ⟨a.used, a.passed, a.events, account.incoming, account.dispatched, account.trace,
    account.ordered trivial, fun installed => (account.allCalled installed).1, ?_⟩
  intro came off each
  exact (account.ordered trivial).eq_of_length (account.whole came off trivial each).length_eq

end Runs

end Nlcpp
