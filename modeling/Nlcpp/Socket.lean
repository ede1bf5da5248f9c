import Nlcpp.Libnl

/-!
`nl::Socket` and the `GenericSocket` calls on top of it.

Every function is the body of the member function of that name. A
`std::function` object is called through `call`, so what client code does inside
its callbacks stays open.
-/

namespace Nlcpp

variable {π : Type}

namespace Socket

/-- The members after construction: no SEQ_CHECK callback, no handler. The
constructor leaves `callStatus` as it finds it. -/
def opened (callStatus : ℤ) : Socket :=
  { acceptAll := false, callStatus, validCallback := none }

/-! ### The callbacks given to libnl -/

def finishCallbackWrapper (_msg : NlMsg π) : SockProg π NlCode := do
  SockProg.setSocket fun socket => { socket with callStatus := 0 }
  return .skip

def ackCallbackWrapper (_msg : NlMsg π) : SockProg π NlCode := do
  SockProg.setSocket fun socket => { socket with callStatus := 0 }
  return .stop

def validCallbackWrapper (call : Caller π) (msg : NlMsg π) : SockProg π NlCode := do
  let w ← Prog.get
  match w.socket.validCallback with
  | some validCallback => call validCallback msg
  | none => pure ()
  return .skip

def errorCallbackWrapper (error : ℤ) : SockProg π NlCode := do
  if error > 0 then
    SockProg.setSocket fun socket => { socket with callStatus := -(EPROTO : ℤ) }
  else
    SockProg.setSocket fun socket => { socket with callStatus := error }
  return .stop

/-- `Socket::callbacks`; `addMembership` adds the SEQ_CHECK callback. -/
def callbacks (call : Caller π) (acceptAll : Bool) : CallbackSet π where
  seqCheck := if acceptAll then some fun _ => pure .ok else none
  valid := validCallbackWrapper call
  finish := finishCallbackWrapper
  ack := ackCallbackWrapper
  err := errorCallbackWrapper

/-! ### Sending and receiving -/

variable (L : Libnl π) (call : Caller π)

/-- `nl_send_auto(sock, message.get())`: the message as it is afterwards; the
result is not looked at. -/
def nlSendAuto (message : Message) : SockProg π Message where
  run w := .returned (L.nlSendAuto message w.nl).2.1 { w with nl := (L.nlSendAuto message w.nl).2.2 }
  later w := World.le_of_incoming_eq (L.sendAuto_incoming message w.nl)

/-- `nl_recvmsgs(sock, callbacks)`. -/
def nlRecvmsgs : SockProg π ℤ := do
  let w ← Prog.get
  L.nlRecvmsgs (callbacks call w.socket.acceptAll)

/-- The receive loop of `sendMessageSync`. -/
def receiveLoop : SockProg π Unit :=
  Prog.whileDo (fun w => w.nl.incoming.length) (fun w => decide (w.socket.callStatus > 0))
    (nlRecvmsgs L call >>= fun _ => pure ())

/-- `Socket::sendMessageSync(message)`: the message as the call leaves it. -/
def sendMessageSync (message : Message) : SockProg π Message := do
  let message ← nlSendAuto L message
  SockProg.setSocket fun socket => { socket with callStatus := 1 }
  receiveLoop L call
  return message

/-- `std::swap(validCallback, callback)`: what was installed before. -/
def swapValidCallback (callback : Option Closure) : SockProg π (Option Closure) := do
  let w ← Prog.get
  SockProg.setSocket fun socket => { socket with validCallback := callback }
  return w.socket.validCallback

/-- `Socket::sendMessageSync(message, callback)`. -/
def sendMessageSyncWith (message : Message) (callback : Option Closure) : SockProg π Message := do
  let callback ← swapValidCallback callback
  let message ← sendMessageSync L call message
  let _ ← swapValidCallback callback
  return message

/-- `Socket::receiveMessages`. -/
def receiveMessages : SockProg π ℕ := do
  let res ← nlRecvmsgs L call
  if res < 0 then SockProg.check (Exception.throwCode "failed to receive message" res)
  return res.toNat

/-! ### Memberships -/

/-- `Socket::addMembership(group)` when `nl_socket_add_membership` returns `err`. -/
def addMembership (group err : ℤ) : SockProg π Unit := do
  SockProg.setSocket fun socket => { socket with acceptAll := true }
  .modify (fun w => { w with nl := L.nlSocketAddMembership group err w.nl })
    fun w => World.le_of_incoming_eq (L.joined_incoming group err w.nl)
  SockProg.check (Exception.throwCode "failed to add membership" err)

/-- `Socket::dropMembership(group)` when `nl_socket_drop_membership` returns `err`. -/
def dropMembership (group err : ℤ) : SockProg π Unit := do
  .modify (fun w => { w with nl := L.nlSocketDropMembership group err w.nl })
    fun w => World.le_of_incoming_eq (L.left_incoming group err w.nl)
  SockProg.check (Exception.throwCode "failed to add membership" err)

end Socket

/-- A newly constructed socket: both of libnl's numbers start at `seq`. -/
def World.opened (π : Type) (seq : UInt32) (callStatus : ℤ) : World π where
  nl := { seqNext := seq, seqExpect := seq, incoming := [], dispatched := [], groups := ∅ }
  socket := Socket.opened callStatus
  trace := []

/-- More arrives at the socket. -/
def World.arrive (events : List (Incoming π)) (w : World π) : World π :=
  { w with nl := { w.nl with incoming := w.nl.incoming ++ events } }

/-! ### `GenericSocket` -/

namespace GenericSocket

variable (L : Libnl π) (call : Caller π)

/-- `GenericSocket::sendMessageSync(message, callback)`: the lambda it installs
hands every message to the callback. -/
def sendMessageSync (message : Message) (callback : Closure) : SockProg π Message :=
  Socket.sendMessageSyncWith L call message (some callback)

/-- `GenericSocket::onValidMessage`. -/
def onValidMessage (callback : Closure) : SockProg π Unit :=
  SockProg.setSocket fun socket => { socket with validCallback := some callback }

end GenericSocket

/-! ### What the functions do, equation by equation -/

namespace Socket

variable {L : Libnl π} {call : Caller π}

@[simp] theorem finishCallbackWrapper_run (msg : NlMsg π) (w : World π) :
    (finishCallbackWrapper msg).run w =
      .returned .skip { w with socket := { w.socket with callStatus := 0 } } := rfl

@[simp] theorem ackCallbackWrapper_run (msg : NlMsg π) (w : World π) :
    (ackCallbackWrapper msg).run w =
      .returned .stop { w with socket := { w.socket with callStatus := 0 } } := rfl

theorem validCallbackWrapper_some {f : Closure} {w : World π}
    (h : w.socket.validCallback = some f) (msg : NlMsg π) :
    (validCallbackWrapper call msg).run w =
      ((call f msg).run w).next fun _ w' => .returned .skip w' := by
  simp [validCallbackWrapper, h]

theorem validCallbackWrapper_none {w : World π} (h : w.socket.validCallback = none)
    (msg : NlMsg π) : (validCallbackWrapper call msg).run w = .returned .skip w := by
  simp [validCallbackWrapper, h]

/-- The status an ERROR message leaves. -/
def errorStatus (error : ℤ) : ℤ := if error > 0 then -(EPROTO : ℤ) else error

theorem errorStatus_neg {error : ℤ} (h : error ≠ 0) : errorStatus error < 0 := by
  unfold errorStatus EPROTO
  split <;> omega

theorem errorStatus_le_zero (error : ℤ) : errorStatus error ≤ 0 := by
  by_cases ack : error = 0
  · subst ack
    exact Int.le_refl 0
  · exact Int.le_of_lt (errorStatus_neg ack)

@[simp] theorem errorCallbackWrapper_run (error : ℤ) (w : World π) :
    (errorCallbackWrapper error).run w =
      .returned .stop { w with socket := { w.socket with callStatus := errorStatus error } } := by
  unfold errorCallbackWrapper errorStatus
  split <;> rfl

@[simp] theorem nlSendAuto_run (message : Message) (w : World π) :
    (nlSendAuto L message).run w =
      .returned (L.nlSendAuto message w.nl).2.1 { w with nl := (L.nlSendAuto message w.nl).2.2 } := rfl

theorem nlRecvmsgs_run (w : World π) :
    (nlRecvmsgs L call).run w =
      (readThen (L.parse (callbacks call w.socket.acceptAll) false false)).run w := by
  simp [nlRecvmsgs, L.recvmsgs_reads]

/-- The loop unfolds as a while loop: every round that comes back has used up a
receive event. -/
theorem receiveLoop_run (w : World π) :
    (receiveLoop L call).run w =
      if w.socket.callStatus > 0 then
        ((nlRecvmsgs L call).run w).next fun _ w' => (receiveLoop L call).run w'
      else .returned () w := by
  unfold receiveLoop
  rw [Prog.whileDo_run]
  · simp [Outcome.next_next]
  · intro s s' h
    rw [Prog.run_bind, nlRecvmsgs_run] at h
    cases hr : (readThen (L.parse (callbacks call s.socket.acceptAll) false false)).run s with
    | returned a s₁ =>
        rw [hr] at h
        cases h
        exact readThen_uses hr
    | threw e s₁ => rw [hr] at h; cases h
    | blocked s₁ => rw [hr] at h; cases h

theorem sendMessageSync_run (message : Message) (w : World π) :
    (sendMessageSync L call message).run w =
      ((receiveLoop L call).run
        { w with
          nl := (L.nlSendAuto message w.nl).2.2
          socket := { w.socket with callStatus := 1 } }).next fun _ w' =>
            .returned (L.nlSendAuto message w.nl).2.1 w' := by
  simp [sendMessageSync]

@[simp] theorem swapValidCallback_run (callback : Option Closure) (w : World π) :
    (swapValidCallback callback).run w = .returned w.socket.validCallback
      { w with socket := { w.socket with validCallback := callback } } := rfl

theorem sendMessageSyncWith_run (message : Message) (callback : Option Closure) (w : World π) :
    (sendMessageSyncWith L call message callback).run w =
      ((sendMessageSync L call message).run
        { w with socket := { w.socket with validCallback := callback } }).next fun message w' =>
          .returned message { w' with
            socket := { w'.socket with validCallback := w.socket.validCallback } } := by
  simp [sendMessageSyncWith]

end Socket

/-- With a SEQ_CHECK callback every message passes, otherwise the expected ones. -/
theorem callbacks_accepts {call : Caller π} {acceptAll : Bool} {m : NlMsg π} {v : World π} :
    (Socket.callbacks call acceptAll).Accepts m v ↔
      ¬((!acceptAll) = true ∧ m.seq ≠ v.nl.seqExpect) := by
  cases acceptAll <;> simp [Socket.callbacks, CallbackSet.Accepts]

section Of

variable {call : Caller π} {m : NlMsg π} {w : World π}

theorem callbacks_of_data {p : π} (body : m.body = .data p) (acceptAll : Bool) :
    (Socket.callbacks call acceptAll).of m = Socket.validCallbackWrapper call m := by
  simp [CallbackSet.of, body, Socket.callbacks]

theorem callbacks_of_done (body : m.body = .done) (acceptAll : Bool) :
    ((Socket.callbacks call acceptAll).of m).run w =
      .returned .skip { w with socket := { w.socket with callStatus := 0 } } := by
  simp [CallbackSet.of, body, Socket.callbacks]

/-- An ACK is an error message with code 0. -/
theorem callbacks_of_error {code : ℤ} (body : m.body = .error code) (acceptAll : Bool) :
    ((Socket.callbacks call acceptAll).of m).run w =
      .returned .stop
        { w with socket := { w.socket with callStatus := Socket.errorStatus code } } := by
  unfold CallbackSet.of
  rw [body]
  by_cases ack : code = 0
  · subst ack
    rfl
  · simp only [if_neg ack]
    exact Socket.errorCallbackWrapper_run code w

theorem NlMsg.leavesOpen_data {p : π} (body : m.body = .data p) (multi : Bool) :
    m.leavesOpen multi = (multi || m.multi) := by
  simp [NlMsg.leavesOpen, body]

theorem NlMsg.leavesOpen_done (body : m.body = .done) (multi : Bool) :
    m.leavesOpen multi = false := by
  simp [NlMsg.leavesOpen, body]

end Of

end Nlcpp
