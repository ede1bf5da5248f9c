import Nlcpp.Socket

/-!
User code whose function objects use the socket themselves.

A callback may send further requests on the socket it is called from and install
handlers; the callbacks of those requests may do so again, to any depth. It does nothing
else with the socket, and it does not throw. Such function objects are therefore defined
in terms of each other (`UserCode.caller_eq`). That is a definition because a callback
runs after a receive event has been used up, so nested calls start with fewer of them.
-/

namespace Nlcpp

variable {π : Type}

/-- What a callback does with the socket before it returns, where everything that
happened so far decides how it goes on. -/
inductive Script (π : Type) where
  | finish
  | request (message : Message) (callback : Closure) (rest : List (Event π) → Script π)
  | install (callback : Closure) (rest : List (Event π) → Script π)

/-- User code: what a function object does when it is called with a message, given
everything that happened so far (this call included). -/
abbrev UserCode (π : Type) := List (Event π) → Closure → NlMsg π → Script π

/-- A terminal message with this number is among those dispatched after the first
`earlier` ones. -/
def World.answered (w : World π) (earlier : ℕ) (seq : UInt32) : Bool :=
  (w.nl.dispatched.drop earlier).any fun m => m.isTerminal && m.seq == seq

/-- How much is still to be received. -/
def World.pending (w : World π) : ℕ := w.nl.incoming.length

section Call

variable (L : Libnl π) (call : Caller π)

/-- User code sends a request: `GenericSocket::sendMessageSync(message, callback)`. -/
def UserCode.request (message : Message) (callback : Closure) : SockProg π Unit := do
  let before ← Prog.get
  SockProg.log (.requested callback (L.nlSendAuto message before.nl).2.1.seq)
  let sent ← GenericSocket.sendMessageSync L call message callback
  let after ← Prog.get
  SockProg.log (.returned callback sent.seq
    (after.answered before.nl.dispatched.length sent.seq))

/-- User code installs a handler: `GenericSocket::onValidMessage(callback)`. -/
def UserCode.install (callback : Closure) : SockProg π Unit := do
  SockProg.log (.installed callback)
  GenericSocket.onValidMessage callback

def Script.run : Script π → SockProg π Unit
  | .finish => pure ()
  | .request message callback rest => do
    UserCode.request L call message callback
    let w ← Prog.get
    (rest w.trace).run
  | .install callback rest => do
    UserCode.install callback
    let w ← Prog.get
    (rest w.trace).run

/-- A function object of the user code; those of its own requests are called by `call`. -/
def UserCode.calling (user : UserCode π) : Caller π := fun closure msg => do
  SockProg.log (.handed closure msg)
  let w ← Prog.get
  (user w.trace closure msg).run L call

end Call

/-- The function objects of the user code, as one family of programs. -/
def UserCode.family (L : Libnl π) (user : UserCode π)
    (p : Closure × NlMsg π → SockProg π Unit) : Closure × NlMsg π → SockProg π Unit :=
  fun i => user.calling L (fun closure msg => p (closure, msg)) i.1 i.2

/-- The function objects of the user code. -/
def UserCode.caller (L : Libnl π) (user : UserCode π) : Caller π := fun closure msg =>
  Prog.fix World.pending (user.family L) (closure, msg)

/-! ### Callers that agree while little is pending -/

/-- Two callers do the same while fewer than `n` receive events are pending. -/
def Caller.AgreeBelow (n : ℕ) (call call' : Caller π) : Prop :=
  ∀ closure msg (w : World π), w.pending < n → (call closure msg).run w = (call' closure msg).run w

section Agree

variable {L : Libnl π} {call call' : Caller π} {n : ℕ} {w : World π}

theorem of_agree (agree : call.AgreeBelow n call') (acceptAll : Bool) (few : w.pending < n)
    (m : NlMsg π) : ((Socket.callbacks call acceptAll).of m).run w =
      ((Socket.callbacks call' acceptAll).of m).run w := by
  unfold CallbackSet.of
  cases m.body with
  | done => rfl
  | error code => rfl
  | data p =>
      simp only [Socket.callbacks]
      cases slot : w.socket.validCallback with
      | none => rw [Socket.validCallbackWrapper_none slot, Socket.validCallbackWrapper_none slot]
      | some closure =>
          rw [Socket.validCallbackWrapper_some slot, Socket.validCallbackWrapper_some slot,
            agree closure m w few]

/-- libnl works off a datagram the same way with callers that agree. -/
theorem parse_agree (agree : call.AgreeBelow n call') (acceptAll : Bool) (bound : ℕ)
    (few : bound < n) (multi intr : Bool) (ms : List (NlMsg π)) (pending : w.pending ≤ bound) :
    (L.parse (Socket.callbacks call acceptAll) multi intr ms).run w =
      (L.parse (Socket.callbacks call' acceptAll) multi intr ms).run w := by
  induction bound using Nat.strong_induction_on generalizing multi intr ms w with
  | _ bound fewer =>
    induction ms generalizing multi intr w with
    | nil =>
        cases multi with
        | false => rw [L.parse_end, L.parse_end]
        | true =>
            rw [L.parse_end_multipart, L.parse_end_multipart]
            refine readThen_congr fun msgs w' less => ?_
            have below : w'.pending < bound := Nat.lt_of_lt_of_le less pending
            exact fewer w'.pending below (below.trans few) _ _ _ (Nat.le_refl _)
    | cons m ms later =>
        by_cases refused : (!acceptAll) = true ∧ m.seq ≠ w.nl.seqExpect
        · have strict : acceptAll = false := Bool.not_eq_true' _ |>.mp refused.1
          subst strict
          rw [L.parse_refused _ _ _ _ _ _ rfl refused.2, L.parse_refused _ _ _ _ _ _ rfl refused.2]
        · rw [L.parse_accepted (callbacks_accepts.mpr refused),
            L.parse_accepted (callbacks_accepts.mpr refused),
            of_agree agree acceptAll (w := w.dispatch m) (Nat.lt_of_le_of_lt pending few)]
          apply Outcome.next_congr
          intro c w' returned
          have left : w'.pending ≤ bound :=
            Nat.le_trans (World.pending_le (Prog.later_of_returned returned)) pending
          cases c with
          | ok => exact later _ _ left
          | skip => exact later _ _ left
          | stop => rfl

/-- A call of `nl_recvmsgs` uses up a receive event before it calls anything. -/
theorem nlRecvmsgs_agree (agree : call.AgreeBelow n call') (pending : w.pending ≤ n) :
    (Socket.nlRecvmsgs L call).run w = (Socket.nlRecvmsgs L call').run w := by
  rw [Socket.nlRecvmsgs_run, Socket.nlRecvmsgs_run]
  refine readThen_congr fun msgs w' less => ?_
  have below : w'.pending < n := Nat.lt_of_lt_of_le less pending
  exact parse_agree agree _ w'.pending below _ _ _ (Nat.le_refl _)

theorem receiveLoop_agree (agree : call.AgreeBelow n call') (pending : w.pending ≤ n) :
    (Socket.receiveLoop L call).run w = (Socket.receiveLoop L call').run w := by
  induction size : w.pending using Nat.strong_induction_on generalizing w with
  | _ bound fewer =>
    rw [Socket.receiveLoop_run, Socket.receiveLoop_run, nlRecvmsgs_agree agree pending]
    split
    · apply Outcome.next_congr
      intro code w' returned
      rw [Socket.nlRecvmsgs_run] at returned
      have used : w'.pending < w.pending := readThen_uses returned
      exact fewer _ (size ▸ used) (by omega) rfl
    · rfl

theorem request_agree (agree : call.AgreeBelow n call') (message : Message) (callback : Closure)
    (pending : w.pending ≤ n) :
    (UserCode.request L call message callback).run w =
      (UserCode.request L call' message callback).run w := by
  simp only [UserCode.request, GenericSocket.sendMessageSync, Prog.run_bind, Prog.run_get,
    Outcome.next_returned, SockProg.run_log, Socket.sendMessageSyncWith_run,
    Socket.sendMessageSync_run]
  rw [receiveLoop_agree agree]
  exact (congrArg List.length (L.sendAuto_incoming message w.nl)).trans_le pending

theorem Script.run_agree (agree : call.AgreeBelow n call') (script : Script π)
    (pending : w.pending ≤ n) : (script.run L call).run w = (script.run L call').run w := by
  induction script generalizing w with
  | finish => rfl
  | request message callback rest ih =>
      simp only [Script.run, Prog.run_bind, Prog.run_get, Outcome.next_returned]
      rw [request_agree agree message callback pending]
      apply Outcome.next_congr
      intro _ w' returned
      exact ih _ (Nat.le_trans (World.pending_le (Prog.later_of_returned returned)) pending)
  | install callback rest ih =>
      simp only [Script.run, Prog.run_bind, Prog.run_get, Outcome.next_returned]
      apply Outcome.next_congr
      intro _ w' returned
      exact ih _ (Nat.le_trans (World.pending_le (Prog.later_of_returned returned)) pending)

end Agree

/-- **The function objects of user code satisfy their equation**: each does what the
code says, and the callbacks of its requests are function objects of the same code. -/
theorem UserCode.caller_eq (L : Libnl π) (user : UserCode π) :
    user.caller L = user.calling L (user.caller L) := by
  have fixed : Prog.fix World.pending (user.family L) =
      user.family L (Prog.fix World.pending (user.family L)) := by
    apply Prog.fix_eq
    intro n p q agree i w few
    simp only [UserCode.family, UserCode.calling, Prog.run_bind, SockProg.run_log, Prog.run_get,
      Outcome.next_returned]
    exact Script.run_agree (n := n) (fun closure msg v below => agree (closure, msg) v below) _
      (Nat.le_of_lt_succ few)
  funext closure msg
  exact congrFun fixed (closure, msg)

end Nlcpp
