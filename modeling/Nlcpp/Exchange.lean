import Nlcpp.Socket

/-!
What one exchange does, as a function of the receive queue.

A `sendMessageSync` call takes messages off the queue until a terminal message
has been dispatched. `exchange` says which messages it dispatches, how it ends
and what it leaves, with no callback set, no handler slot and no loop in sight.
`sendMessageSync_exchange` connects the two for function objects that may throw
but do not use the socket themselves.
-/

namespace Nlcpp

variable {π : Type}

/-! ### Function objects that leave the socket alone -/

/-- Whether a function object throws when it is called with a message, given
everything handed out so far (this call included). -/
abbrev Conduct (π : Type) := List (Event π) → Closure → NlMsg π → Option Thrown

namespace Conduct

/-- Calling a function object that only notes the message, and throws or not. -/
def call (conduct : Conduct π) : Caller π := fun closure msg => do
  SockProg.log (.handed closure msg)
  let w ← Prog.get
  match conduct w.trace closure msg with
  | some e => .throw e
  | none => pure ()

/-- Function objects that do not throw. -/
def quiet : Conduct π := fun _ _ _ => none

theorem call_run (conduct : Conduct π) (closure : Closure) (msg : NlMsg π) (w : World π) :
    (conduct.call closure msg).run w =
      match conduct (w.trace ++ [.handed closure msg]) closure msg with
      | some e => .threw e { w with trace := w.trace ++ [.handed closure msg] }
      | none => .returned () { w with trace := w.trace ++ [.handed closure msg] } := by
  simp only [call, Prog.run_bind, SockProg.run_log, Outcome.next_returned, Prog.run_get]
  split <;> rfl

end Conduct

/-! ### The abstract exchange -/

/-- What an exchange has done so far: the number it expects, its status, the
messages dispatched (oldest first), and whether an interrupted dump was reported. -/
structure Progress (π : Type) where
  expect : UInt32
  status : ℤ
  passed : List (NlMsg π)
  interrupted : Bool
deriving DecidableEq

namespace Progress

/-- The status after a message of this body. -/
def statusAfter (body : Body π) (status : ℤ) : ℤ :=
  match body with
  | .data _ => status
  | .done => 0
  | .error code => Socket.errorStatus code

/-- Dispatch one message. -/
def pass (p : Progress π) (m : NlMsg π) : Progress π where
  expect := if m.isTerminal then p.expect + 1 else p.expect
  status := statusAfter m.body p.status
  passed := p.passed ++ [m]
  interrupted := p.interrupted

/-- Note what a call of `nl_recvmsgs` reported. -/
def reported (p : Progress π) (interrupted : Bool) : Progress π :=
  { p with interrupted := p.interrupted || interrupted }

end Progress

/-- How the work on a datagram ends: read on, leave `nl_recvmsgs`, or leave by an
exception. The flag says whether a dump was interrupted. -/
inductive Leave where
  | readOn (interrupted : Bool)
  | back (interrupted : Bool)
  | thrown (e : Thrown)

/-- How an exchange ends, and the part of the queue it leaves. -/
inductive Ending (π : Type) where
  | ended (p : Progress π) (rest : List (Incoming π))
  | thrown (e : Thrown) (p : Progress π) (rest : List (Incoming π))
  | starved (p : Progress π)

section Exchange

-- `strict`: only messages with the expected number are accepted.
-- `fails`: what is thrown when the last of these messages is dispatched.
variable (strict : Bool) (fails : List (NlMsg π) → Option Thrown)

/-- Work off one datagram. -/
def walk : Bool → Bool → List (NlMsg π) → Progress π → Progress π × Leave
  | multi, intr, [], p => (p, if multi then .readOn intr else .back intr)
  | multi, intr, m :: ms, p =>
    if strict ∧ m.seq ≠ p.expect then (p, .back intr)
    else match m.body with
      | .data _ =>
        match fails (p.pass m).passed with
        | some e => (p.pass m, .thrown e)
        | none => walk (multi || m.multi) (intr || m.dumpIntr) ms (p.pass m)
      | .done => walk false (intr || m.dumpIntr) ms (p.pass m)
      | .error _ => (p.pass m, .back (intr || m.dumpIntr))

/-- Take receive events until a terminal message was dispatched. The flags are
those of the `nl_recvmsgs` call in progress. -/
def exchange : Bool → Bool → List (Incoming π) → Progress π → Ending π
  | _, _, [], p => .starved p
  | _, _, .failure _ :: rest, p =>
    if p.status > 0 then exchange false false rest p else .ended p rest
  | multi, intr, .datagram ms :: rest, p =>
    match walk strict fails multi intr ms p with
    | (p, .readOn intr) => exchange true intr rest p
    | (p, .back intr) =>
      if p.status > 0 then exchange false false rest (p.reported intr)
      else .ended (p.reported intr) rest
    | (p, .thrown e) => .thrown e p rest

@[simp] theorem exchange_nil (multi intr : Bool) (p : Progress π) :
    exchange strict fails multi intr [] p = .starved p := rfl

@[simp] theorem exchange_failure (multi intr : Bool) (code : ℕ) (rest : List (Incoming π))
    (p : Progress π) :
    exchange strict fails multi intr (.failure code :: rest) p =
      if p.status > 0 then exchange strict fails false false rest p else .ended p rest := rfl

theorem exchange_datagram (multi intr : Bool) (ms : List (NlMsg π)) (rest : List (Incoming π))
    (p : Progress π) :
    exchange strict fails multi intr (.datagram ms :: rest) p =
      match walk strict fails multi intr ms p with
      | (p, .readOn intr) => exchange strict fails true intr rest p
      | (p, .back intr) =>
        if p.status > 0 then exchange strict fails false false rest (p.reported intr)
        else .ended (p.reported intr) rest
      | (p, .thrown e) => .thrown e p rest := rfl

end Exchange

/-! ### The faithful call refines the abstract exchange -/

/-- The calls of the installed function object that the dispatched messages caused. -/
def handedTo (target : Option Closure) (passed : List (NlMsg π)) : List (Event π) :=
  match target with
  | some closure => (passed.filter NlMsg.isData).map (.handed closure)
  | none => []

/-- The throw that a conduct gives for a list of dispatched messages. -/
def Conduct.fails (conduct : Conduct π) (trace : List (Event π)) (target : Option Closure)
    (passed : List (NlMsg π)) : Option Thrown :=
  match target, passed.getLast? with
  | some closure, some msg => conduct (trace ++ handedTo target passed) closure msg
  | _, _ => none

/-- The world in the middle of an exchange that started in `w`. -/
def Progress.world (p : Progress π) (w : World π) (rest : List (Incoming π)) : World π where
  nl := { w.nl with
    seqExpect := p.expect
    incoming := rest
    dispatched := w.nl.dispatched ++ p.passed }
  socket := { w.socket with callStatus := p.status }
  trace := w.trace ++ handedTo w.socket.validCallback p.passed

/-- The outcome that an ending of an exchange started in `w` stands for. -/
def Ending.outcome (e : Ending π) (w : World π) : Outcome Thrown (World π) Unit :=
  match e with
  | .ended p rest => .returned () (p.world w rest)
  | .thrown e p rest => .threw e (p.world w rest)
  | .starved p => .blocked (p.world w [])

theorem handedTo_append (target : Option Closure) (xs ys : List (NlMsg π)) :
    handedTo target (xs ++ ys) = handedTo target xs ++ handedTo target ys := by
  cases target <;> simp [handedTo]

theorem handedTo_data {closure : Closure} {m : NlMsg π} (h : m.isData = true) :
    handedTo (some closure) [m] = [.handed closure m] := by
  simp [handedTo, h]

theorem handedTo_terminal {target : Option Closure} {m : NlMsg π} (h : m.isData = false) :
    handedTo target [m] = [] := by
  cases target <;> simp [handedTo, h]

theorem NlMsg.isData_of_body_data {m : NlMsg π} {p : π} (h : m.body = .data p) :
    m.isData = true := by
  simp [NlMsg.isData, h]

theorem NlMsg.isData_of_body_done {m : NlMsg π} (h : m.body = .done) : m.isData = false := by
  simp [NlMsg.isData, h]

theorem NlMsg.isData_of_body_error {m : NlMsg π} {e : ℤ} (h : m.body = .error e) :
    m.isData = false := by
  simp [NlMsg.isData, h]

section Refinement

variable {L : Libnl π} {conduct : Conduct π} {w : World π}

/-- Dispatching a data message in the middle of an exchange: the installed
function object is called, and the exchange has passed the message. -/
theorem valid_run {m : NlMsg π} {data : π} (body : m.body = .data data) (p : Progress π)
    (rest : List (Incoming π)) :
    (Socket.validCallbackWrapper conduct.call m).run ((p.world w rest).dispatch m) =
      match conduct.fails w.trace w.socket.validCallback (p.pass m).passed with
      | some e => .threw e ((p.pass m).world w rest)
      | none => .returned .skip ((p.pass m).world w rest) := by
  have isData := NlMsg.isData_of_body_data body
  cases target : w.socket.validCallback with
  | none =>
      rw [Socket.validCallbackWrapper_none (by exact target)]
      simp [Conduct.fails, World.dispatch, Progress.world, Progress.pass, Progress.statusAfter,
        body, handedTo, target]
  | some closure =>
      rw [Socket.validCallbackWrapper_some (by exact target), Conduct.call_run]
      have reached : ((p.world w rest).dispatch m).trace ++ [.handed closure m] =
          w.trace ++ handedTo (some closure) (p.pass m).passed := by
        simp [World.dispatch, Progress.world, Progress.pass, handedTo_append,
          handedTo_data isData, target]
      have settled : ({ (p.world w rest).dispatch m with
          trace := w.trace ++ handedTo (some closure) (p.pass m).passed } : World π) =
          (p.pass m).world w rest := by
        simp [World.dispatch, Progress.world, Progress.pass, Progress.statusAfter, body, target]
      rw [reached, settled]
      simp only [Conduct.fails, Progress.pass, List.getLast?_append_of_ne_nil, ne_eq,
        List.cons_ne_nil, not_false_eq_true, List.getLast?_singleton]
      split <;> rfl

/-- Dispatching a terminal message calls no function object; with the status its
callback sets, the exchange has passed the message. -/
theorem world_pass_terminal {m : NlMsg π} (terminal : m.isData = false) (p : Progress π)
    (rest : List (Incoming π)) :
    ({ (p.world w rest).dispatch m with
        socket := { ((p.world w rest).dispatch m).socket with
          callStatus := Progress.statusAfter m.body p.status } } : World π) =
      (p.pass m).world w rest := by
  simp [World.dispatch, Progress.world, Progress.pass, handedTo_append,
    handedTo_terminal terminal, List.append_assoc]

theorem done_run {m : NlMsg π} (body : m.body = .done) (p : Progress π) (acceptAll : Bool)
    (rest : List (Incoming π)) :
    ((Socket.callbacks conduct.call acceptAll).of m).run ((p.world w rest).dispatch m) =
      .returned .skip ((p.pass m).world w rest) := by
  have settled := world_pass_terminal (w := w) (NlMsg.isData_of_body_done body) p rest
  rw [body] at settled
  rw [callbacks_of_done body, ← settled]
  rfl

theorem error_run {m : NlMsg π} {code : ℤ} (body : m.body = .error code) (p : Progress π)
    (acceptAll : Bool) (rest : List (Incoming π)) :
    ((Socket.callbacks conduct.call acceptAll).of m).run ((p.world w rest).dispatch m) =
      .returned .stop ((p.pass m).world w rest) := by
  have settled := world_pass_terminal (w := w) (NlMsg.isData_of_body_error body) p rest
  rw [body] at settled
  rw [callbacks_of_error body, ← settled]
  rfl

variable (L) (conduct) (w) in
/-- libnl's work on a datagram, with the callbacks of the class, is `walk`. -/
theorem parse_walk (multi intr : Bool) (ms : List (NlMsg π)) (p : Progress π)
    (rest : List (Incoming π)) :
    match walk (!w.socket.acceptAll) (conduct.fails w.trace w.socket.validCallback)
        multi intr ms p with
    | (p', .readOn i) =>
        (L.parse (Socket.callbacks conduct.call w.socket.acceptAll) multi intr ms).run
            (p.world w rest) =
          (readThen (L.parse (Socket.callbacks conduct.call w.socket.acceptAll) true i)).run
            (p'.world w rest)
    | (p', .back _) =>
        ∃ code, (L.parse (Socket.callbacks conduct.call w.socket.acceptAll) multi intr ms).run
          (p.world w rest) = .returned code (p'.world w rest)
    | (p', .thrown e) =>
        (L.parse (Socket.callbacks conduct.call w.socket.acceptAll) multi intr ms).run
          (p.world w rest) = .threw e (p'.world w rest) := by
  induction ms generalizing multi intr p with
  | nil =>
      cases multi with
      | false => exact ⟨_, by rw [L.parse_end]; rfl⟩
      | true => exact congrArg (fun q => Prog.run q (p.world w rest)) (L.parse_end_multipart _ _)
  | cons m ms ih =>
      unfold walk
      by_cases refused : (!w.socket.acceptAll) = true ∧ m.seq ≠ p.expect
      · rw [if_pos refused]
        refine ⟨_, L.parse_refused _ multi intr m ms _ ?_ refused.2⟩
        simp [Socket.callbacks, Bool.not_eq_true' _ |>.mp refused.1]
      · rw [if_neg refused]
        have accepted : (Socket.callbacks conduct.call w.socket.acceptAll).Accepts m
            (p.world w rest) := callbacks_accepts.mpr refused
        rw [L.parse_accepted accepted]
        cases body : m.body with
        | data data =>
            rw [callbacks_of_data body, valid_run body, NlMsg.leavesOpen_data body]
            cases fails : conduct.fails w.trace w.socket.validCallback (p.pass m).passed with
            | some e => rfl
            | none => exact ih _ _ (p.pass m)
        | done =>
            rw [done_run body, NlMsg.leavesOpen_done body]
            exact ih _ _ (p.pass m)
        | error code =>
            rw [error_run body]
            exact ⟨_, rfl⟩

theorem read_datagram (parse : List (NlMsg π) → SockProg π ℤ) (p : Progress π)
    (ms : List (NlMsg π)) (rest : List (Incoming π)) :
    (readThen parse).run (p.world w (.datagram ms :: rest)) = (parse ms).run (p.world w rest) :=
  readThen_datagram rfl

theorem read_failure (parse : List (NlMsg π) → SockProg π ℤ) (p : Progress π) (code : ℕ)
    (rest : List (Incoming π)) :
    (readThen parse).run (p.world w (.failure code :: rest)) =
      .returned (-(code : ℤ)) (p.world w rest) :=
  readThen_failure rfl

variable (L) (conduct) (w) in
/-- Reading on and then looping is `exchange`. -/
theorem loop_exchange (multi intr : Bool) (incoming : List (Incoming π)) (p : Progress π) :
    (((readThen (L.parse (Socket.callbacks conduct.call w.socket.acceptAll) multi intr)).run
        (p.world w incoming)).next fun _ v => (Socket.receiveLoop L conduct.call).run v) =
      (exchange (!w.socket.acceptAll) (conduct.fails w.trace w.socket.validCallback)
        multi intr incoming p).outcome w := by
  induction incoming generalizing multi intr p with
  | nil =>
      rw [readThen_nil rfl]
      rfl
  | cons event rest ih =>
      -- A call that comes back is followed by the test of the loop.
      have tested : ∀ q : Progress π, (Socket.receiveLoop L conduct.call).run (q.world w rest) =
          if q.status > 0 then
            (exchange (!w.socket.acceptAll) (conduct.fails w.trace w.socket.validCallback)
              false false rest q).outcome w
          else .returned () (q.world w rest) := by
        intro q
        rw [Socket.receiveLoop_run, Socket.nlRecvmsgs_run]
        exact if_congr Iff.rfl (ih false false q) rfl
      cases event with
      | failure code =>
          rw [read_failure, Outcome.next_returned, exchange_failure, tested]
          split <;> rfl
      | datagram ms =>
          rw [read_datagram, exchange_datagram]
          have worked := parse_walk L conduct w multi intr ms p rest
          revert worked
          rcases walk (!w.socket.acceptAll) (conduct.fails w.trace w.socket.validCallback)
            multi intr ms p with ⟨q, i | i | e⟩
          · intro worked
            rw [worked, ih]
          · rintro ⟨code, back⟩
            rw [back, Outcome.next_returned]
            refine (tested (q.reported i)).trans ?_
            by_cases go : q.status > 0
            · simp only [if_pos (show (q.reported i).status > 0 from go), if_pos go]
            · simp only [if_neg (show ¬(q.reported i).status > 0 from go), if_neg go]
              rfl
          · intro worked
            rw [worked]
            rfl

/-- The progress an exchange on this socket starts from. -/
def Progress.start (expect : UInt32) : Progress π :=
  { expect, status := 1, passed := [], interrupted := false }

theorem Progress.start_world (status : w.socket.callStatus = 1) :
    (Progress.start w.nl.seqExpect).world w w.nl.incoming = w := by
  obtain ⟨nl, ⟨acceptAll, callStatus, validCallback⟩, trace⟩ := w
  subst status
  cases validCallback <;> simp [Progress.start, Progress.world, handedTo]

variable (L) (conduct) in
theorem receiveLoop_exchange (status : w.socket.callStatus = 1) :
    (Socket.receiveLoop L conduct.call).run w =
      (exchange (!w.socket.acceptAll) (conduct.fails w.trace w.socket.validCallback)
        false false w.nl.incoming (.start w.nl.seqExpect)).outcome w := by
  rw [Socket.receiveLoop_run, if_pos (by rw [status]; decide), Socket.nlRecvmsgs_run]
  have looped := loop_exchange L conduct w false false
    w.nl.incoming (.start w.nl.seqExpect)
  rwa [Progress.start_world status] at looped

end Refinement

/-- The world in which an exchange takes place: the request has been sent, and
`callback` is installed. -/
def World.during (L : Libnl π) (message : Message) (callback : Option Closure) (w : World π) :
    World π where
  nl := (L.nlSendAuto message w.nl).2.2
  socket := { w.socket with callStatus := 1, validCallback := callback }
  trace := w.trace

section Calls

variable (L : Libnl π) (conduct : Conduct π) (message : Message) (w : World π)

@[simp] theorem World.during_incoming (callback : Option Closure) :
    (w.during L message callback).nl.incoming = w.nl.incoming :=
  L.sendAuto_incoming message w.nl

@[simp] theorem World.during_expect (callback : Option Closure) :
    (w.during L message callback).nl.seqExpect = w.nl.seqExpect := by
  rw [World.during, L.sendAuto_sock]

@[simp] theorem World.during_dispatched (callback : Option Closure) :
    (w.during L message callback).nl.dispatched = w.nl.dispatched := by
  rw [World.during, L.sendAuto_sock]

/-- The exchange that a call of `sendMessageSync` with `callback` carries out. -/
def exchangeOf (callback : Option Closure) : Ending π :=
  exchange (!w.socket.acceptAll) (conduct.fails w.trace callback) false false w.nl.incoming
    (.start w.nl.seqExpect)

/-- How a request comes back from its exchange: with a result made of the
messages dispatched, and with the handler of before in its slot. -/
def Ending.comeBack {α : Type} (listener : Option Closure) (result : List (NlMsg π) → α)
    (ending : Ending π) : Outcome Thrown (World π) α :=
  let during := w.during L message listener
  match ending with
  | .ended p rest => .returned (result p.passed)
      { p.world during rest with
        socket := { during.socket with
          callStatus := p.status
          validCallback := w.socket.validCallback } }
  | .thrown e p rest => .threw e (p.world during rest)
  | .starved p => .blocked (p.world during [])

variable {L message w} in
/-- A request returns exactly when its exchange ends, with what is made of the messages. -/
theorem comeBack_returned_iff {α : Type} {listener : Option Closure}
    {result : List (NlMsg π) → α} {r : α} {ending : Ending π} :
    (∃ w', ending.comeBack L message w listener result = .returned r w') ↔
      ∃ p rest, ending = .ended p rest ∧ result p.passed = r := by
  cases ending with
  | ended p rest => simp [Ending.comeBack]
  | thrown e p rest => simp [Ending.comeBack]
  | starved p => simp [Ending.comeBack]

/-- **`sendMessageSync(message)` refines the exchange** with the handler. -/
theorem sendMessageSync_exchange :
    (Socket.sendMessageSync L conduct.call message).run w =
      (exchangeOf conduct w w.socket.validCallback).comeBack L message w w.socket.validCallback
        fun _ => (L.nlSendAuto message w.nl).2.1 := by
  have looped := receiveLoop_exchange L conduct
    (w := w.during L message w.socket.validCallback) rfl
  rw [World.during_incoming, World.during_expect] at looped
  rw [Socket.sendMessageSync_run]
  change ((Socket.receiveLoop L conduct.call).run
    (w.during L message w.socket.validCallback)).next _ = _
  rw [looped]
  change ((exchangeOf conduct w w.socket.validCallback).outcome _).next _ = _
  cases exchangeOf conduct w w.socket.validCallback <;> rfl

/-- **`sendMessageSync(message, callback)` refines the exchange** with the
callback; when the exchange ends, the handler of before is put back. -/
theorem sendMessageSyncWith_exchange (callback : Option Closure) :
    (Socket.sendMessageSyncWith L conduct.call message callback).run w =
      (exchangeOf conduct w callback).comeBack L message w callback
        fun _ => (L.nlSendAuto message w.nl).2.1 := by
  rw [Socket.sendMessageSyncWith_run, sendMessageSync_exchange]
  change ((exchangeOf conduct w callback).comeBack L message _ callback _).next _ = _
  cases exchangeOf conduct w callback <;> rfl

end Calls

end Nlcpp
