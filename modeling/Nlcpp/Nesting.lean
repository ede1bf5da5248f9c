import Nlcpp.UserCode
import Nlcpp.Delivery
import Mathlib.Data.List.Basic

/-!
Requests made by callbacks of requests.

All calls in progress share the status and the handler slot of their socket: a
terminal message ends the innermost call, whoever it answers, and a data message goes
to the innermost callback. That is right as long as the answers keep step with the
calls. `UserCode.course` follows the calls through the receive queue and says where
they get out of step; until then, calls and answers match (`matched_while_in_step`).
-/

namespace Nlcpp

variable {π : Type}

/-! ### What is expected of a nesting of calls -/

/-- A request in progress: its callback and its number. -/
structure Pending where
  callback : Closure
  seq : UInt32
deriving DecidableEq, Repr

/-- The requests in progress after an event, innermost first, when the event is as it
should be: a message is handed to the callback of the request it answers, and a call
returns with its answer. -/
def Event.follow (pending : List Pending) : Event π → Option (List Pending)
  | .requested callback seq => some (⟨callback, seq⟩ :: pending)
  | .handed closure msg =>
    match pending.find? (·.seq = msg.seq) with
    | some request => if request.callback = closure then some pending else none
    | none => none
  | .returned _ _ answered => if answered then some pending.tail else none
  | .installed _ => some pending

/-- The requests in progress after all these events, if all are as they should be. -/
def follow (pending : List Pending) (events : List (Event π)) : Option (List Pending) :=
  events.foldlM Event.follow pending

/-- The handler that an event installs. -/
def Event.handler : Event π → Option Closure
  | .installed closure => some closure
  | _ => none

/-- The handler installed last. -/
def lastInstalled (events : List (Event π)) : Option Closure :=
  (events.filterMap Event.handler).getLast?

/-- What happened between two states of a run. -/
def World.since (w w' : World π) : List (Event π) := w'.trace.drop w.trace.length

/-- Calls and answers match: every call that returned had its answer, every message
went to the callback of the request it answers, and in the end the slot holds the
handler installed last, or the one of before. -/
def Matched (w : World π) : Outcome Thrown (World π) Unit → Prop
  | .returned _ w' => (follow [] (w.since w')).isSome ∧
      w'.socket.validCallback = (lastInstalled (w.since w') <|> w.socket.validCallback)
  | .threw _ w' => (follow [] (w.since w')).isSome
  | .blocked w' => (follow [] (w.since w')).isSome

instance (w : World π) : (o : Outcome Thrown (World π) Unit) → Decidable (Matched w o)
  | .returned _ _ => instDecidableAnd
  | .threw _ w' => inferInstanceAs (Decidable ((follow [] (w.since w')).isSome = true))
  | .blocked w' => inferInstanceAs (Decidable ((follow [] (w.since w')).isSome = true))

/-! ### Following the calls through the queue -/

/-- Where a run stands: libnl's two numbers, what is still to be received, and what
happened so far. -/
structure Standing (π : Type) where
  next : UInt32
  expect : UInt32
  incoming : List (Incoming π)
  trace : List (Event π)

def World.standing (w : World π) : Standing π :=
  ⟨w.nl.seqNext, w.nl.seqExpect, w.nl.incoming, w.trace⟩

/-- How a part of a run goes: to its end, until nothing more arrives, or to a point
where the answers are out of step with the calls. -/
inductive Course (α : Type) where
  | goes (a : α)
  | waits
  | outOfStep

namespace Course

variable {α β : Type}

def bind (c : Course α) (f : α → Course β) : Course β :=
  match c with
  | .goes a => f a
  | .waits => .waits
  | .outOfStep => .outOfStep

/-- The answers keep step with the calls. -/
def InStep : Course α → Prop
  | .outOfStep => False
  | _ => True

instance : (c : Course α) → Decidable c.InStep
  | .goes _ => instDecidableTrue
  | .waits => instDecidableTrue
  | .outOfStep => instDecidableFalse

end Course

namespace Standing

variable (s : Standing π)

/-- The number that a request with this message gets. -/
def number (message : Message) : UInt32 := if message.seq = 0 then s.next else message.seq

/-- The request is sent. -/
def send (message : Message) (callback : Closure) : Standing π :=
  { s with
    next := if message.seq = 0 then s.next + 1 else s.next
    trace := s.trace ++ [.requested callback (s.number message)] }

/-- Note an event. -/
def log (e : Event π) : Standing π := { s with trace := s.trace ++ [e] }

/-- A terminal message is dispatched. -/
def complete : Standing π := { s with expect := s.expect + 1 }

end Standing

/-- Where a call stands within `nl_recvmsgs`: whether that reads on, whether the call's
callback has sent a request, whether the call has its answer. -/
structure Work (π : Type) where
  readsOn : Bool
  nested : Bool
  answered : Bool
  standing : Standing π

/-- The script begins with a request. -/
def Script.sends : Script π → Bool
  | .request .. => true
  | _ => false

section Follow

-- `strict`: only messages with the expected number are accepted.
-- `settle`: the course of a request made by a callback.
variable (user : UserCode π) (strict : Bool)
  (settle : Message → Closure → Standing π → Course (Standing π))

/-- What a callback does. A handler that it installs would not stay. -/
def Script.course : Script π → Standing π → Course (Standing π)
  | .finish, s => .goes s
  | .request message callback rest, s =>
    (settle message callback s).bind fun s => (rest s.trace).course s
  | .install .., _ => .outOfStep

/-- The rest of a datagram, worked off for the request in progress. Every message that
is accepted must carry its number. -/
def datagramCourse (request : Pending) (multi nested answered : Bool) :
    List (NlMsg π) → Standing π → Course (Work π)
  | [], s => .goes ⟨multi, nested, answered, s⟩
  | m :: ms, s =>
    if strict ∧ m.seq ≠ s.expect then .goes ⟨false, nested, answered, s⟩
    else if m.seq ≠ request.seq then .outOfStep
    else match m.body with
      | .data _ =>
        let called := s.log (.handed request.callback m)
        let script := user called.trace request.callback m
        (script.course settle called).bind fun s =>
          datagramCourse request (multi || m.multi) (nested || script.sends) answered ms s
      | .done => datagramCourse request false nested true ms s.complete
      | .error _ => .goes ⟨false, nested, true, s.complete⟩

/-- One receive event. -/
def eventCourse (request : Pending) (multi nested answered : Bool) :
    Incoming π → Standing π → Course (Work π)
  | .failure _, s => .goes ⟨false, nested, answered, s⟩
  | .datagram ms, s => datagramCourse user strict settle request multi nested answered ms s

/-- What follows a receive event. A call whose callback has sent a request must not
leave `nl_recvmsgs` without its answer, for it then ends. -/
def Work.goOn (work : Work π)
    (receive : (multi nested answered : Bool) → Standing π → Course (Standing π)) :
    Course (Standing π) :=
  if work.readsOn then receive true work.nested work.answered work.standing
  else if work.answered then .goes work.standing
  else if work.nested then .outOfStep
  else receive false false false work.standing

/-- Receive events, until the call in progress is over. -/
def receiveCourse (request : Pending) :
    ℕ → (multi nested answered : Bool) → Standing π → Course (Standing π)
  | 0, _, _, _, _ => .waits
  | n + 1, multi, nested, answered, s =>
    match s.incoming with
    | [] => .waits
    | event :: rest =>
      (eventCourse user strict settle request multi nested answered event
        { s with incoming := rest }).bind fun work => work.goOn (receiveCourse request n)

/-- A call of `sendMessageSync`. -/
def callCourse (message : Message) (callback : Closure) (s : Standing π) : Course (Standing π) :=
  (receiveCourse user strict settle ⟨callback, s.number message⟩ (s.incoming.length + 1)
    false false false (s.send message callback)).bind fun after =>
      .goes (after.log (.returned callback (s.number message) true))

end Follow

/-- Calls nested to a depth. -/
def UserCode.courseTo (user : UserCode π) (strict : Bool) :
    ℕ → Message → Closure → Standing π → Course (Standing π)
  | 0 => fun _ _ _ => .waits
  | depth + 1 => callCourse user strict (user.courseTo strict depth)

/-- The course of a request. Nested calls start with fewer receive
events, which bounds the depth. -/
def UserCode.course (user : UserCode π) (strict : Bool) (message : Message) (callback : Closure)
    (s : Standing π) : Course (Standing π) :=
  user.courseTo strict (s.incoming.length + 1) message callback s

/-! ### The course describes the run -/

/-- Between two states everything was as it should be, and no handler was installed. -/
def Tidy (pending pending' : List Pending) (w w' : World π) : Prop :=
  ∃ events, w'.trace = w.trace ++ events ∧ follow pending events = some pending' ∧
    events.filterMap Event.handler = []

section Tidy

variable {pending pending' pending'' : List Pending} {w w' w'' : World π}

theorem Tidy.of_trace_eq (same : w'.trace = w.trace) : Tidy pending pending w w' :=
  ⟨[], by rw [same, List.append_nil], rfl, rfl⟩

theorem Tidy.event {e : Event π} (logged : w'.trace = w.trace ++ [e])
    (step : e.follow pending = some pending') (noHandler : e.handler = none) :
    Tidy pending pending' w w' := by
  refine ⟨[e], logged, ?_, ?_⟩
  · simpa [Nlcpp.follow] using step
  · simpa using noHandler

theorem Tidy.trans (first : Tidy pending pending' w w') (second : Tidy pending' pending'' w' w'') :
    Tidy pending pending'' w w'' := by
  obtain ⟨events, trace, step, calm⟩ := first
  obtain ⟨events', trace', step', calm'⟩ := second
  refine ⟨events ++ events', by rw [trace', trace, List.append_assoc], ?_, ?_⟩
  · unfold Nlcpp.follow at step step' ⊢
    rw [List.foldlM_append, step]
    exact step'
  · rw [List.filterMap_append, calm, calm']
    rfl

end Tidy

namespace Course

variable {α β γ δ : Type}

theorem bind_assoc (c : Course α) (f : α → Course β) (g : β → Course γ) :
    (c.bind f).bind g = c.bind fun a => (f a).bind g := by
  cases c <;> rfl

/-- The course describes a run that starts in `w`. -/
def Of (c : Course α) (pending : List Pending) (w : World π) (o : Outcome Thrown (World π) β)
    (good : α → World π → Prop) : Prop :=
  match c with
  | .goes a => ∃ b w', o = .returned b w' ∧ Tidy pending pending w w' ∧ good a w'
  | .waits => ∃ w' pending', o = .blocked w' ∧ Tidy pending pending' w w'
  | .outOfStep => True

variable {c : Course α} {pending : List Pending} {w w' : World π} {o : Outcome Thrown (World π) β}
  {good : α → World π → Prop}

/-- What comes before is tidy, too. -/
theorem Of.after (before : Tidy pending pending w w') (run : c.Of pending w' o good) :
    c.Of pending w o good := by
  cases c with
  | goes a =>
      obtain ⟨b, v, returned, tidy, isGood⟩ := run
      exact ⟨b, v, returned, before.trans tidy, isGood⟩
  | waits =>
      obtain ⟨v, pending', blocked, tidy⟩ := run
      exact ⟨v, pending', blocked, before.trans tidy⟩
  | outOfStep => trivial

theorem Of.imp {good' : α → World π → Prop} (run : c.Of pending w o good)
    (implied : ∀ a w', good a w' → good' a w') : c.Of pending w o good' := by
  cases c with
  | goes a =>
      obtain ⟨b, v, returned, tidy, isGood⟩ := run
      exact ⟨b, v, returned, tidy, implied a v isGood⟩
  | waits => exact run
  | outOfStep => trivial

/-- One part of a run after the other. -/
theorem Of.bind {f : α → Course γ} {k : β → World π → Outcome Thrown (World π) δ}
    {good' : γ → World π → Prop} (first : c.Of pending w o good)
    (second : ∀ a b w', o = .returned b w' → good a w' → (f a).Of pending w' (k b w') good') :
    (c.bind f).Of pending w (o.next k) good' := by
  cases c with
  | goes a =>
      obtain ⟨b, v, rfl, tidy, isGood⟩ := first
      exact (second a b v rfl isGood).after tidy
  | waits =>
      obtain ⟨v, pending', rfl, tidy⟩ := first
      exact ⟨v, pending', rfl, tidy⟩
  | outOfStep => trivial

end Course

/-- What a callback leaves as it was, and the messages dispatched only grow. -/
structure Keeps (w w' : World π) : Prop where
  mode : w'.socket.acceptAll = w.socket.acceptAll
  slot : w'.socket.validCallback = w.socket.validCallback
  dispatched : w.nl.dispatched <+: w'.nl.dispatched

theorem Keeps.trans {w w' w'' : World π} (first : Keeps w w') (second : Keeps w' w'') :
    Keeps w w'' where
  mode := second.mode.trans first.mode
  slot := second.slot.trans first.slot
  dispatched := first.dispatched.trans second.dispatched

theorem World.answered_mono {w w' : World π} (grown : w.nl.dispatched <+: w'.nl.dispatched)
    {earlier : ℕ} {seq : UInt32} (answered : w.answered earlier seq = true) :
    w'.answered earlier seq = true := by
  obtain ⟨more, dispatched⟩ := grown
  unfold World.answered at answered ⊢
  rw [← dispatched, List.drop_append, List.any_append, answered, Bool.true_or]

/-- The course of a request describes what the socket does, as long as fewer than `n`
receive events are pending. -/
def Settles (L : Libnl π) (call : Caller π) (strict : Bool) (n : ℕ)
    (settle : Message → Closure → Standing π → Course (Standing π)) : Prop :=
  ∀ message callback pending (w : World π), w.socket.acceptAll = !strict → w.pending < n →
    (settle message callback w.standing).Of pending w
      ((UserCode.request L call message callback).run w)
      fun s w' => w'.standing = s ∧ Keeps w w' ∧ w'.socket.callStatus ≤ 0

section Describe

variable {L : Libnl π} {user : UserCode π} {strict : Bool} {n : ℕ}
  {settle : Message → Closure → Standing π → Course (Standing π)}
  {call : Caller π} {pending : List Pending} {w : World π}

variable (pending) in
/-- A callback's script: unless it sends a request, it leaves the status alone. -/
theorem script_of (settles : Settles L call strict n settle) (script : Script π)
    (mode : w.socket.acceptAll = !strict) (few : w.pending < n) :
    (script.course settle w.standing).Of pending w ((script.run L call).run w) fun s w' =>
      w'.standing = s ∧ Keeps w w' ∧
        (w'.socket.callStatus > 0 ↔ w.socket.callStatus > 0 ∧ script.sends = false) := by
  induction script generalizing w with
  | finish =>
      refine ⟨(), w, rfl, .of_trace_eq rfl, rfl, ⟨rfl, rfl, List.prefix_refl _⟩, ?_⟩
      simp [Script.sends]
  | install callback rest ih => trivial
  | request message callback rest ih =>
      simp only [Script.course, Script.run, Prog.run_bind, Prog.run_get, Outcome.next_returned]
      apply (settles message callback pending w mode few).bind
      rintro s _ v returned ⟨rfl, keeps, status⟩
      have left : v.pending < n :=
        Nat.lt_of_le_of_lt (World.pending_le (Prog.later_of_returned returned)) few
      apply (ih v.trace (keeps.mode.trans mode) left).imp
      rintro s' w' ⟨standing, keeps', status'⟩
      refine ⟨standing, keeps.trans keeps', ?_⟩
      rw [status']
      simp [Script.sends, Int.not_lt.mpr status]

variable (strict) in
/-- The state of a call in progress: the slot holds its callback, the status is positive
as long as its callback has sent no request and its answer is missing, and an answer is
among the messages dispatched since `start`. -/
structure Amid (request : Pending) (start : List (NlMsg π)) (nested answered : Bool)
    (w : World π) : Prop where
  mode : w.socket.acceptAll = !strict
  slot : w.socket.validCallback = some request.callback
  status : w.socket.callStatus > 0 ↔ nested = false ∧ answered = false
  since : start <+: w.nl.dispatched
  answer : answered = true → w.answered start.length request.seq = true

/-- A data message is handed to the callback of the innermost call, which follows its
script. -/
theorem data_run {m : NlMsg π} {p : π} (body : m.body = .data p) {closure : Closure}
    (slot : w.socket.validCallback = some closure) (acceptAll : Bool) :
    ((Socket.callbacks (user.caller L) acceptAll).of m).run w =
      (((user (w.trace ++ [.handed closure m]) closure m).run L (user.caller L)).run
        { w with trace := w.trace ++ [.handed closure m] }).next fun _ w' =>
          .returned .skip w' := by
  rw [callbacks_of_data body, Socket.validCallbackWrapper_some slot, UserCode.caller_eq]
  simp only [UserCode.calling, Prog.run_bind, SockProg.run_log, Prog.run_get, Outcome.next_returned]
  rw [← UserCode.caller_eq]

/-- A terminal message is dispatched, and its callback sets the status. -/
def World.complete (m : NlMsg π) (status : ℤ) (w : World π) : World π :=
  { w.dispatch m with socket := { w.socket with callStatus := status } }

/-- A terminal message with the number of the call in progress is its answer. -/
theorem Amid.terminal {request : Pending} {start : List (NlMsg π)} {nested answered : Bool}
    (amid : Amid strict request start nested answered w) {m : NlMsg π}
    (terminal : m.isTerminal = true) (own : m.seq = request.seq) {status : ℤ}
    (settled : status ≤ 0) :
    Amid strict request start nested true (w.complete m status) where
  mode := amid.mode
  slot := amid.slot
  status := iff_of_false (Int.not_lt.mpr settled) (by simp)
  since := amid.since.trans (List.prefix_append ..)
  answer := by
    intro _
    have early : start.length ≤ w.nl.dispatched.length := amid.since.length_le
    simp [World.answered, World.complete, World.dispatch, List.drop_append_of_le_length early,
      terminal, own]

theorem standing_complete {m : NlMsg π} (terminal : m.isTerminal = true) (status : ℤ) :
    (w.complete m status).standing = w.standing.complete := by
  simp [World.standing, World.complete, World.dispatch, Standing.complete, terminal]

/-- A data message is dispatched and about to be handled by this function object. -/
def World.hand (closure : Closure) (m : NlMsg π) (w : World π) : World π :=
  { w.dispatch m with trace := w.trace ++ [.handed closure m] }

theorem standing_hand {m : NlMsg π} (isData : m.isTerminal = false) (closure : Closure) :
    (w.hand closure m).standing = w.standing.log (.handed closure m) := by
  simp [World.standing, World.hand, World.dispatch, Standing.log, isData]

/-- The callback of the innermost call, run on a message that carries its number. -/
theorem handed_of {request : Pending} (outer : List Pending) {start : List (NlMsg π)}
    {nested answered : Bool} (settles : Settles L call strict n settle)
    (amid : Amid strict request start nested answered w) (few : w.pending < n) {m : NlMsg π}
    (isData : m.isTerminal = false) (own : m.seq = request.seq) (script : Script π) :
    (script.course settle (w.standing.log (.handed request.callback m))).Of (request :: outer) w
      ((script.run L call).run (w.hand request.callback m)) fun s v =>
        v.standing = s ∧ Amid strict request start (nested || script.sends) answered v := by
  have handed : Tidy (request :: outer) (request :: outer) w (w.hand request.callback m) := by
    apply Tidy.event rfl _ rfl
    simp [Event.follow, own]
  rw [← standing_hand isData]
  apply Course.Of.after handed
  have ran := script_of (w := w.hand request.callback m) (request :: outer) settles script
    amid.mode few
  apply ran.imp
  rintro s v ⟨standing, keeps, status⟩
  have grown : w.nl.dispatched <+: v.nl.dispatched :=
    (List.prefix_append w.nl.dispatched [m]).trans keeps.dispatched
  refine ⟨standing, keeps.mode.trans amid.mode, keeps.slot.trans amid.slot, ?_,
    amid.since.trans grown, fun ended => World.answered_mono grown (amid.answer ended)⟩
  have before : w.socket.callStatus > 0 ↔ nested = false ∧ answered = false := amid.status
  rw [status, Bool.or_eq_false_iff]
  exact (and_congr_left' before).trans and_right_comm

end Describe

/-! ### One receive event, one call -/

section Receive

variable {L : Libnl π} {user : UserCode π} {strict : Bool} {n : ℕ}
  {settle : Message → Closure → Standing π → Course (Standing π)}
  {request : Pending} {outer : List Pending} {start : List (NlMsg π)} {w : World π}

/-- The rest of a datagram, and then whatever follows it. -/
theorem datagram_of {γ δ : Type} (settles : Settles L (user.caller L) strict n settle)
    (bound : ℕ) (few : bound < n) {f : Work π → Course γ}
    {k : ℤ → World π → Outcome Thrown (World π) δ} {good : γ → World π → Prop}
    (resume : ∀ (work : Work π) (w' : World π), w'.pending ≤ bound → w'.standing = work.standing →
      Amid strict request start work.nested work.answered w' →
      (work.readsOn = true → ∀ intr, (f work).Of (request :: outer) w'
        (((readThen (L.parse (Socket.callbacks (user.caller L) (!strict)) true intr)).run
          w').next k) good) ∧
      (work.readsOn = false → ∀ code, (f work).Of (request :: outer) w' (k code w') good))
    (multi intr nested answered : Bool) (ms : List (NlMsg π)) (pending : w.pending ≤ bound)
    (amid : Amid strict request start nested answered w) :
    ((datagramCourse user strict settle request multi nested answered ms w.standing).bind f).Of
      (request :: outer) w
      (((L.parse (Socket.callbacks (user.caller L) (!strict)) multi intr ms).run w).next k)
      good := by
  induction ms generalizing multi intr nested answered w with
  | nil =>
      have resumed := resume ⟨multi, nested, answered, w.standing⟩ w pending rfl amid
      cases multi with
      | false =>
          rw [L.parse_end]
          exact resumed.2 rfl _
      | true =>
          rw [L.parse_end_multipart]
          exact resumed.1 rfl intr
  | cons m ms ih =>
      unfold datagramCourse
      by_cases refused : strict = true ∧ m.seq ≠ w.standing.expect
      · rw [if_pos refused]
        have noCheck : (Socket.callbacks (user.caller L) (!strict)).seqCheck = none := by
          rw [refused.1]
          rfl
        rw [L.parse_refused _ _ _ _ _ _ noCheck refused.2]
        exact (resume ⟨false, nested, answered, w.standing⟩ w pending rfl amid).2 rfl _
      · rw [if_neg refused]
        by_cases foreign : m.seq ≠ request.seq
        · rw [if_pos foreign]
          trivial
        · rw [if_neg foreign]
          have own : m.seq = request.seq := not_not.mp foreign
          have accepted : (Socket.callbacks (user.caller L) (!strict)).Accepts m w := by
            rw [callbacks_accepts, Bool.not_not]
            exact refused
          rw [L.parse_accepted accepted]
          cases body : m.body with
          | data p =>
              have isData : m.isTerminal = false := by simp [NlMsg.isTerminal, NlMsg.isData, body]
              rw [data_run body (w := w.dispatch m) amid.slot, NlMsg.leavesOpen_data body]
              simp only [Outcome.next_next, Outcome.next_returned, NlCode.resume_skip,
                Course.bind_assoc]
              have handed := handed_of outer settles amid
                (Nat.lt_of_le_of_lt pending few) isData own
                (user (w.trace ++ [.handed request.callback m]) request.callback m)
              apply handed.bind
              rintro s _ v returned ⟨rfl, amid'⟩
              exact ih _ _ _ _
                (Nat.le_trans (World.pending_le (Prog.later_of_returned returned)) pending) amid'
          | done =>
              have terminal : m.isTerminal = true := by simp [NlMsg.isTerminal, NlMsg.isData, body]
              rw [callbacks_of_done body, Outcome.next_returned, NlCode.resume_skip,
                NlMsg.leavesOpen_done body, ← standing_complete terminal 0]
              have tidy : Tidy (request :: outer) (request :: outer) w (w.complete m 0) :=
                .of_trace_eq rfl
              apply Course.Of.after tidy
              exact ih (w := w.complete m 0) false (intr || m.dumpIntr) nested true pending
                (amid.terminal terminal own (Int.le_refl 0))
          | error code =>
              have terminal : m.isTerminal = true := by simp [NlMsg.isTerminal, NlMsg.isData, body]
              rw [callbacks_of_error body, Outcome.next_returned, NlCode.resume_stop]
              have tidy : Tidy (request :: outer) (request :: outer) w
                  (w.complete m (Socket.errorStatus code)) := .of_trace_eq rfl
              apply Course.Of.after tidy
              exact (resume ⟨false, nested, true, w.standing.complete⟩
                (w.complete m (Socket.errorStatus code)) pending (standing_complete terminal _)
                (amid.terminal terminal own (Socket.errorStatus_le_zero code))).2 rfl _

variable (L user strict request outer start) in
/-- A course for receiving describes the rest of a call of `nl_recvmsgs` and the receive
loop after it. -/
def Receives (receive : (multi nested answered : Bool) → Standing π → Course (Standing π))
    (w : World π) : Prop :=
  ∀ multi intr nested answered, Amid strict request start nested answered w →
    (receive multi nested answered w.standing).Of (request :: outer) w
      (((readThen (L.parse (Socket.callbacks (user.caller L) (!strict)) multi intr)).run w).next
        fun _ w' => (Socket.receiveLoop L (user.caller L)).run w')
      fun s w' => w'.standing = s ∧ ∃ nested, Amid strict request start nested true w'

/-- The receive loop goes on as long as the status is positive. -/
theorem goOn_of {receive : (multi nested answered : Bool) → Standing π → Course (Standing π)}
    (receives : Receives L user strict request outer start receive w) {work : Work π}
    (standing : w.standing = work.standing)
    (amid : Amid strict request start work.nested work.answered w)
    (back : work.readsOn = false) :
    (work.goOn receive).Of (request :: outer) w ((Socket.receiveLoop L (user.caller L)).run w)
      fun s w' => w'.standing = s ∧ ∃ nested, Amid strict request start nested true w' := by
  obtain ⟨readsOn, nested, answered, s⟩ := work
  subst standing
  subst back
  rw [Socket.receiveLoop_run]
  cases answered with
  | true =>
      rw [if_neg (by rw [amid.status]; simp)]
      exact ⟨(), w, rfl, .of_trace_eq rfl, rfl, nested, amid⟩
  | false =>
      cases nested with
      | true => trivial
      | false =>
          rw [if_pos (amid.status.mpr ⟨rfl, rfl⟩), Socket.nlRecvmsgs_run, amid.mode]
          exact receives false false false false amid

variable (request outer start) in
/-- The rest of a call of `nl_recvmsgs`, and the receive loop after it. -/
theorem receive_of (settles : Settles L (user.caller L) strict n settle) (fuel : ℕ)
    (enough : w.pending < fuel) (few : w.pending ≤ n) :
    Receives L user strict request outer start
      (receiveCourse user strict settle request fuel) w := by
  induction fuel generalizing w with
  | zero => exact absurd enough (Nat.not_lt_zero _)
  | succ fuel ih =>
      intro multi intr nested answered amid
      unfold receiveCourse
      cases arrived : w.nl.incoming with
      | nil =>
          rw [readThen_nil arrived, show w.standing.incoming = [] from arrived]
          exact ⟨w, request :: outer, rfl, .of_trace_eq rfl⟩
      | cons event rest =>
          have size : w.pending = rest.length + 1 := by simp [World.pending, arrived]
          rw [show w.standing.incoming = event :: rest from arrived]
          set read : World π := { w with nl := { w.nl with incoming := rest } } with readEq
          have amid' : Amid strict request start nested answered read :=
            ⟨amid.mode, amid.slot, amid.status, amid.since, amid.answer⟩
          have tidy : Tidy (request :: outer) (request :: outer) w read := .of_trace_eq rfl
          apply Course.Of.after tidy
          cases event with
          | failure code =>
              rw [readThen_failure arrived, Outcome.next_returned]
              exact goOn_of (ih (w := read) (by simp [readEq, World.pending]; omega)
                (by simp [readEq, World.pending]; omega)) rfl amid' rfl
          | datagram ms =>
              rw [readThen_datagram arrived]
              refine datagram_of settles rest.length (by omega) ?_ multi intr nested
                answered ms (Nat.le_refl _) amid'
              intro work w' less standing amidWork
              have receives := ih (w := w') (by omega) (by omega)
              constructor
              · intro readsOn intr
                have resumed := receives true intr work.nested work.answered amidWork
                rw [Work.goOn, if_pos readsOn, ← standing]
                exact resumed
              · intro back code
                exact goOn_of receives standing amidWork back

end Receive

section Calls

variable (L : Libnl π) (user : UserCode π) {strict : Bool} {n : ℕ}
  {settle : Message → Closure → Standing π → Course (Standing π)}

theorem number_sent (message : Message) (w : World π) :
    (L.nlSendAuto message w.nl).2.1.seq = w.standing.number message := by
  unfold Standing.number
  by_cases fresh : message.seq = 0
  · rw [if_pos fresh, (L.send_fresh message w.nl fresh).1]
    rfl
  · rw [if_neg fresh, (L.send_numbered message w.nl fresh).1]

/-- A request is sent, with its callback in the slot. -/
def World.sending (message : Message) (callback : Closure) (w : World π) : World π :=
  ({ w with trace := w.trace ++ [.requested callback (w.standing.number message)] } :
    World π).during L message (some callback)

theorem standing_sending (message : Message) (callback : Closure) (w : World π) :
    (w.sending L message callback).standing = w.standing.send message callback := by
  unfold World.sending World.during Standing.send World.standing
  by_cases fresh : message.seq = 0
  · simp [(L.send_fresh message w.nl fresh).2, fresh]
  · simp [(L.send_numbered message w.nl fresh).2, fresh]

theorem dispatched_sending (message : Message) (callback : Closure) (w : World π) :
    (w.sending L message callback).nl.dispatched = w.nl.dispatched :=
  World.during_dispatched L message _ (some callback)

theorem request_run (call : Caller π) (message : Message) (callback : Closure) (w : World π) :
    (UserCode.request L call message callback).run w =
      ((Socket.receiveLoop L call).run (w.sending L message callback)).next fun _ w' =>
        .returned () { w' with
          socket := { w'.socket with validCallback := w.socket.validCallback }
          trace := w'.trace ++ [.returned callback (w.standing.number message)
            (w'.answered w.nl.dispatched.length (w.standing.number message))] } := by
  simp only [UserCode.request, GenericSocket.sendMessageSync, Prog.run_bind, Prog.run_get,
    Outcome.next_returned, SockProg.run_log, Socket.sendMessageSyncWith_run,
    Socket.sendMessageSync_run, Outcome.next_next, number_sent]
  rfl

/-- A call, when the courses of the requests its callback makes are right. -/
theorem call_of (settles : Settles L (user.caller L) strict n settle) :
    Settles L (user.caller L) strict (n + 1) (callCourse user strict settle) := by
  intro message callback pending w mode few
  let request : Pending := ⟨callback, w.standing.number message⟩
  set sent := w.sending L message callback with sentEq
  have size : sent.pending = w.pending := by
    simp [sentEq, World.sending, World.pending]
  have amid : Amid strict request w.nl.dispatched false false sent :=
    ⟨mode, rfl, by simp [sentEq, World.sending, World.during],
      by rw [sentEq, dispatched_sending], by simp⟩
  have opened : Tidy pending (request :: pending) w sent := .event rfl rfl rfl
  have received := receive_of request pending w.nl.dispatched settles (w := sent)
    (w.standing.incoming.length + 1) (by rw [size]; exact Nat.lt_succ_self _) (by omega)
    false false false false amid
  rw [sentEq, standing_sending, ← sentEq] at received
  have looped : (Socket.receiveLoop L (user.caller L)).run sent =
      ((readThen (L.parse (Socket.callbacks (user.caller L) (!strict)) false false)).run sent).next
        fun _ w' => (Socket.receiveLoop L (user.caller L)).run w' := by
    rw [Socket.receiveLoop_run, if_pos (amid.status.mpr ⟨rfl, rfl⟩), Socket.nlRecvmsgs_run, amid.mode]
  rw [← looped] at received
  rw [request_run, callCourse]
  revert received
  cases receiveCourse user strict settle request (w.standing.incoming.length + 1) false false
    false (w.standing.send message callback) with
  | outOfStep => exact fun _ => trivial
  | waits =>
      rintro ⟨v, pending', blocked, tidy⟩
      rw [blocked]
      exact ⟨v, pending', rfl, opened.trans tidy⟩
  | goes after =>
      rintro ⟨_, v, returned, tidy, rfl, nested, ended⟩
      have answered : v.answered w.nl.dispatched.length (w.standing.number message) = true :=
        ended.answer rfl
      rw [returned, Outcome.next_returned, answered]
      refine ⟨(), _, rfl, opened.trans (tidy.trans ?_), rfl, ⟨?_, rfl, ended.since⟩, ?_⟩
      · exact .event rfl rfl rfl
      · exact ended.mode.trans mode.symm
      · exact Int.not_lt.mp fun positive => by simpa using ended.status.mp positive

variable (strict) in
/-- The course to a depth is right for calls that start with fewer receive events. -/
theorem courseTo_settles (depth : ℕ) :
    Settles L (user.caller L) strict depth (user.courseTo strict depth) := by
  induction depth with
  | zero =>
      intro message callback pending w mode few
      exact absurd few (Nat.not_lt_zero _)
  | succ depth ih => exact call_of L user ih

theorem since_of_trace {w w' : World π} {events : List (Event π)}
    (trace : w'.trace = w.trace ++ events) : w.since w' = events := by
  rw [World.since, trace, List.drop_left]

/-- **As long as the answers keep step with the calls, calls and answers match**: for
any user code, to any depth, with or without the sequence check. -/
theorem matched_while_in_step (message : Message) (callback : Closure) (w : World π)
    (inStep : (user.course (!w.socket.acceptAll) message callback w.standing).InStep) :
    Matched w ((UserCode.request L (user.caller L) message callback).run w) := by
  have described := courseTo_settles L user (!w.socket.acceptAll)
    (w.standing.incoming.length + 1) message callback [] w (Bool.not_not _).symm
    (Nat.lt_succ_self _)
  revert described inStep
  unfold UserCode.course
  cases user.courseTo (!w.socket.acceptAll) (w.standing.incoming.length + 1) message callback
    w.standing with
  | outOfStep => exact fun no => no.elim
  | waits =>
      rintro - ⟨v, pending, blocked, events, trace, followed, -⟩
      rw [blocked]
      simp only [Matched, since_of_trace trace, followed, Option.isSome_some]
  | goes s =>
      rintro - ⟨_, v, returned, ⟨events, trace, followed, calm⟩, -, keeps, -⟩
      rw [returned]
      simp only [Matched, since_of_trace trace, followed, Option.isSome_some, true_and,
        lastInstalled, calm, keeps.slot, List.getLast?_nil]
      rfl

end Calls

/-! ### In step and out of step -/

/-- Callback 1 sends a request with callback 2 for every message. -/
def asking : UserCode Reply := fun _ closure _ =>
  if closure = 1 then .request Ctrl.dumpFamilies 2 fun _ => .finish else .finish

/-- Callback 1 installs handler 9. -/
def installing : UserCode Reply := fun _ closure _ =>
  if closure = 1 then .install 9 fun _ => .finish else .finish

/-- A socket that has joined a group, and the answer of the nested request comes while
`nl_recvmsgs` is still busy with the datagram of the outer one. -/
theorem matched_in_one_datagram :
    let w := (((Socket.addMembership (.reference Reply) 3 0).run (World.opened Reply 5 0)).state).arrive
      [.datagram [.of 5 (.data (namedReply [])), .of 5 .done],
        .datagram [.of 6 (.data (namedReply [])), .of 6 (.error 0)]]
    Matched w ((UserCode.request (.reference Reply) (asking.caller (.reference Reply))
      Ctrl.dumpFamilies 1).run w) :=
  matched_while_in_step (.reference Reply) asking Ctrl.dumpFamilies 1 _ (by decide)

/-- The nested call takes the second reply and the acknowledgement of the outer request;
the handler that a callback installs is lost. -/
theorem out_of_step :
    (let w := (World.opened Reply 5 0).arrive
      [.datagram [.of 5 (.data (namedReply []))], .datagram [.of 5 (.data (namedReply []))],
        .datagram [.of 5 (.error 0)]]
    let o := (UserCode.request (.reference Reply) (asking.caller (.reference Reply))
      Ctrl.dumpFamilies 1).run w
    ¬Matched w o ∧ o.state.trace = [.requested 1 5, .handed 1 (.of 5 (.data (namedReply []))),
      .requested 2 6, .handed 2 (.of 5 (.data (namedReply []))), .returned 2 6 false,
      .returned 1 5 true]) ∧
    let w := (World.opened Reply 5 0).arrive
      [.datagram [.of 5 (.data (namedReply [])), .of 5 (.error 0)]]
    let o := (UserCode.request (.reference Reply) (installing.caller (.reference Reply))
      Ctrl.dumpFamilies 1).run w
    ¬Matched w o ∧ lastInstalled o.state.trace = some 9 ∧
      o.state.socket.validCallback = none := by
  decide

end Nlcpp
