import Nlcpp.Commands
import Nlcpp.Watch

/-!
The test tool in a session.

Whoever writes to the tool gets lines back: answers to commands, and what happens to the
addresses that are watched. `main` goes on one step at a time (`Session.goOn`), and each step
may be answered by anything the world can answer. `session_told` says what is on the console in
every state: read line by line, it is one answer for each command that returned, in order, the
items of a last command that did not, and the changes that the managers handed on, in theirs,
none of them behind an item whose answer is not complete (`Heard.inside`).
-/

namespace Nlcpp

def Action.delete : Action := ⟨2⟩

namespace TestTool

/-! ### What `main` does besides -/

/-- What a call of `dataReady` comes to: the changes that are handed to the callback, and what
`nl_cache_mngr_data_ready` returns then. -/
structure DataReady (A : Type) where
  changes : List (A × Nlcpp.Action)
  ret : ℤ

/-- What is answered while `main` goes on. -/
structure Reply (A : Type) where
  /-- `poll` fails, and `strerror` says this. -/
  pollError : Option Word
  getlineFails : Bool
  ready : ℕ → DataReady A
  env : Env A
  /-- What is in the buffer of `getline` behind the line. -/
  behind : Word

section Parts

variable {A B : Type} (sys : System A B)

def showAction (action : Nlcpp.Action) : Word :=
  if action = .new then ascii "new" else if action = .delete then ascii "del"
  else ascii "unknown"

/-- The callback of `addressWatch`. -/
def watchEvent (addr : A) (action : Nlcpp.Action) : Tool Unit := do
  let laddr ← getAddr sys (sys.rtnlAddrGetLocal addr)
  printLine (ascii "address-watch-event " ++ showAction action ++ ascii " " ++
    showAddress sys laddr)

/-- `CacheManager::dataReady()`. -/
def dataReady (ready : DataReady A) : Tool Unit := do
  ready.changes.forM fun change => watchEvent sys change.1 change.2
  if ready.ret < 0 then
    throwing (Exception.throwCode "nl_cache_mngr_data_ready failed" ready.ret)

/-- The loop over the managers, with what `poll` reported for each. -/
def handle (fds : List Bool) (ready : ℕ → DataReady A) : Tool Unit :=
  fds.zipIdx.forM fun fd => if fd.1 then dataReady sys (ready fd.2) else pure ()

/-- What is done for a line; it says whether there is one more descriptor. -/
def perform (env : Env A) : Dispatch → Tool Bool
  | .skipped => pure false
  | .called action args => do
    runCommand sys env action args
    return action = .addressWatch
  | .unknown message => do
    printError message
    return false

end Parts

/-! ### Sessions -/

inductive Ending where
  /-- `main` returns 0. -/
  | finished
  /-- `poll` failed with this message, and `main` returns 1. -/
  | pollFailed (message : Word)
  | failed (f : Failure)
deriving DecidableEq, Repr

/-- The message that `main` leaves with. -/
def Ending.message : Ending → List Word
  | pollFailed message => [message]
  | _ => []

/-- `changes` is for the record: what the managers handed on. -/
structure Session (A : Type) where
  tool : State
  console : Console
  changes : List (A × Nlcpp.Action)
  ending : Option Ending

/-- What happens: something is written or closed, a manager's descriptor gets something to read,
or `main` goes on. -/
inductive Input (A : Type) where
  | write (chunk : Word)
  | close
  | event (manager : ℕ)
  | goOn (reply : Reply A)

namespace Session

variable {A B : Type} (sys : System A B) (s : Session A)

def start : Session A := ⟨State.start, ⟨[], []⟩, [], none⟩

/-- `main` is left. -/
def leave (console : Console) (ending : Ending) : Session A :=
  { s with tool := s.tool.advance .ends, console := console, ending := some ending }

/-- `main` goes on after a part of it. -/
def after : Nlcpp.Outcome Failure Console Bool → Session A
  | .returned watches console =>
    { s with tool := s.tool.advance (.goesOn watches), console := console }
  | .threw f console => s.leave console (.failed f)
  | .blocked console => { s with console := console }

/-- The changes that are handed on when `poll` has reported these descriptors. -/
def handed (fds : List Bool) (ready : ℕ → DataReady A) : List (A × Nlcpp.Action) :=
  fds.zipIdx.flatMap fun fd => if fd.1 then (ready fd.2).changes else []

/-- The next thing that `main` does. -/
def goOn (reply : Reply A) : Session A :=
  match s.tool.phase with
  | .polling =>
    match reply.pollError with
    | some error =>
      let message := ascii "poll failed: " ++ error
      s.leave { s.console with err := s.console.err ++ [message] } (.pollFailed message)
    | none => { s with tool := s.tool.advance (.goesOn false) }
  | .handling _ fds =>
    { s with changes := s.changes ++ handed fds reply.ready }.after
      ((do handle sys fds reply.ready; return false : Tool Bool).run s.console)
  | .reading _ =>
    if reply.getlineFails then s.leave s.console .finished
    else
      let tool := s.tool.advance (.goesOn false)
      { s with tool := tool, ending := if tool.phase = .stopped then some .finished else s.ending }
  | .executing line =>
    match (Line.ofGetline line reply.behind).dispatched sys.isspace with
    | some d => s.after ((perform sys reply.env d).run s.console)
    | none => s
  | .stopped => s

def step : Input A → Session A
  | .write chunk => { s with tool := TestTool.step s.tool (.write chunk) }
  | .close => { s with tool := TestTool.step s.tool .close }
  | .event manager => { s with tool := TestTool.step s.tool (.event manager) }
  | .goOn reply => s.goOn sys reply

end Session

/-! ### What became of a line -/

inductive Reaction where
  /-- A line without words. -/
  | skipped
  /-- A message to `cerr`. -/
  | complained (message : Word)
  | answered (action : Action) (items : List Word) (done : Word)
  /-- The program ended after these items. -/
  | failed (items : List Word) (f : Failure)
deriving DecidableEq, Repr

namespace Reaction

def lines : Reaction → List Word
  | answered _ items done => items ++ [done]
  | failed items _ => items
  | _ => []

def complaint : Reaction → List Word
  | complained message => [message]
  | failed _ f => f.message
  | _ => []

def answer : Reaction → Option (Action × List Word × Word)
  | answered action items done => some (action, items, done)
  | _ => none

/-- The items of an answer that has no last line. -/
def begun : Reaction → List Word
  | failed items _ => items
  | _ => []

def failure : Reaction → Option Failure
  | failed _ f => some f
  | _ => none

def watches : Reaction → Bool
  | answered action _ _ => action = .addressWatch
  | _ => false

end Reaction

section Reacts

variable {A B : Type} (sys : System A B)

/-- This can become of a line: what its command does, in some environment. -/
inductive Reacts (line : Word) : Reaction → Prop where
  | skipped : (Line.ofGetline line []).Does sys.isspace .skipped → Reacts line .skipped
  | complained {message} : (Line.ofGetline line []).Does sys.isspace (.unknown message) →
      Reacts line (.complained message)
  | answered {action args env items done} :
      (Line.ofGetline line []).Does sys.isspace (.called action args) →
      Prints (runCommand sys env action args) (items ++ [done]) (.ok ()) →
      (∀ item ∈ items, IsItem action item) → IsDone action done →
      Reacts line (.answered action items done)
  | failed {action args env items f} :
      (Line.ofGetline line []).Does sys.isspace (.called action args) →
      Prints (runCommand sys env action args) items (.error f) →
      (∀ item ∈ items, IsItem action item) → Reacts line (.failed items f)

end Reacts

/-! ### Reading the output -/

def actions : List Action :=
  [.linkList, .linkAdd, .linkDel, .addressList, .addressAdd, .addressDel, .addressWatch]

instance (action : Action) (line : Word) : Decidable (IsDone action line) :=
  inferInstanceAs (Decidable (firstWord line = _))

/-- The command that a line says is done. -/
def doneOf (line : Word) : Option Action := actions.find? fun action => IsDone action line

def IsEvent (line : Word) : Prop := firstWord line = ascii "address-watch-event"

instance (line : Word) : Decidable (IsEvent line) :=
  inferInstanceAs (Decidable (firstWord line = _))

/-- What a reader of the output has made of it: the answers, the events, and the items for
which there is no answer yet; `inside` are the events that came while there were such items. -/
structure Heard where
  answers : List (Action × List Word × Word)
  events : List Word
  pending : List Word
  inside : List Word
deriving DecidableEq, Repr

def Heard.line (h : Heard) (line : Word) : Heard :=
  if IsEvent line then
    { h with
      events := h.events ++ [line]
      inside := if h.pending = [] then h.inside else h.inside ++ [line] }
  else
    match doneOf line with
    | some action =>
      { h with answers := h.answers ++ [(action, h.pending, line)], pending := [] }
    | none => { h with pending := h.pending ++ [line] }

def hear (out : List Word) : Heard := out.foldl Heard.line ⟨[], [], [], []⟩

section Hear

variable {action : Action} {line : Word} {lines : List Word} (h : Heard)

theorem IsItem.not_isEvent (isItem : IsItem action line) : ¬IsEvent line := by
  rw [IsEvent, isItem]
  cases action <;> decide

theorem IsDone.not_isEvent (isDone : IsDone action line) : ¬IsEvent line := by
  rw [IsEvent, isDone]
  cases action <;> decide

theorem IsItem.doneOf (isItem : IsItem action line) : doneOf line = none := by
  have word : firstWord line = action.name ++ ascii "-item" := isItem
  simp only [TestTool.doneOf, IsDone, word]
  cases action <;> decide

theorem IsDone.doneOf (isDone : IsDone action line) : doneOf line = some action := by
  have word : firstWord line = action.name ++ ascii "-done" := isDone
  simp only [TestTool.doneOf, IsDone, word]
  cases action <;> decide

/-- Items wait for their answer to be complete. -/
theorem hear_items (areItems : ∀ item ∈ lines, IsItem action item) :
    lines.foldl Heard.line h = { h with pending := h.pending ++ lines } := by
  induction lines generalizing h with
  | nil => simp
  | cons item lines ih =>
      obtain ⟨isItem, areItems⟩ := List.forall_mem_cons.mp areItems
      rw [List.foldl_cons, ih _ areItems, Heard.line, if_neg isItem.not_isEvent, isItem.doneOf]
      simp

theorem hear_done (isDone : IsDone action line) :
    h.line line =
      { h with answers := h.answers ++ [(action, h.pending, line)], pending := [] } := by
  rw [Heard.line, if_neg isDone.not_isEvent, isDone.doneOf]

/-- Events between two answers. -/
theorem hear_events (areEvents : ∀ event ∈ lines, IsEvent event) (nothing : h.pending = []) :
    lines.foldl Heard.line h = { h with events := h.events ++ lines } := by
  induction lines generalizing h with
  | nil => simp
  | cons event lines ih =>
      obtain ⟨isEvent, areEvents⟩ := List.forall_mem_cons.mp areEvents
      have first : h.line event = { h with events := h.events ++ [event] } := by
        rw [Heard.line, if_pos isEvent, if_pos nothing]
      have rest := ih { h with events := h.events ++ [event] } areEvents nothing
      rw [List.foldl_cons, first, rest]
      simp

/-- What became of a line is heard as such. -/
theorem hear_reaction {A B : Type} {sys : System A B} {reaction : Reaction}
    (reacts : Reacts sys line reaction) (nothing : h.pending = []) :
    reaction.lines.foldl Heard.line h =
      ⟨h.answers ++ reaction.answer.toList, h.events, reaction.begun, h.inside⟩ := by
  obtain ⟨answers, events, pending, inside⟩ := h
  cases nothing
  cases reacts with
  | skipped | complained => simp [Reaction.lines, Reaction.answer, Reaction.begun]
  | answered _ _ areItems isDone =>
      simp only [Reaction.lines, List.foldl_append, hear_items _ areItems, List.foldl_cons,
        List.foldl_nil, hear_done _ isDone]
      rfl
  | failed _ _ areItems =>
      simp only [Reaction.lines, hear_items _ areItems]
      simp [Reaction.answer, Reaction.begun]

end Hear

/-! ### Events -/

section Events

variable {A B α : Type} (sys : System A B)

/-- The line for a change. -/
def eventLine (change : A × Nlcpp.Action) : Word :=
  ascii "address-watch-event " ++ showAction change.2 ++ ascii " " ++
    showAddress sys ((sys.rtnlAddrGetLocal change.1).bind sys.S.nlAddrClone)

theorem isEvent_eventLine (change : A × Nlcpp.Action) : IsEvent (eventLine sys change) :=
  firstWord_of (ascii "address-watch-event")
    (32 :: (showAction change.2 ++ ascii " " ++
      showAddress sys ((sys.rtnlAddrGetLocal change.1).bind sys.S.nlAddrClone)))
    (by simp [eventLine, ascii]) (by decide) (.inr rfl)

/-- It prints these lines, or the first of them and no message when it does not return. -/
def Relays (p : Tool Unit) (events : List Word) : Prop :=
  ∃ lines r, Prints p lines r ∧ lines <+: events ∧ (r = .ok () → lines = events) ∧
    ∀ f, r = .error f → f.message = []

theorem Relays.bind {p q : Tool Unit} {events more : List Word} (first : Relays p events)
    (later : Relays q more) : Relays (p >>= fun _ => q) (events ++ more) := by
  obtain ⟨lines, r, prints, part, whole, silent⟩ := first
  cases r with
  | ok u =>
      obtain ⟨lines', r, prints', part', whole', silent'⟩ := later
      cases whole rfl
      refine ⟨_, r, prints.bind prints', (List.prefix_append_right_inj _).mpr part', ?_, silent'⟩
      exact fun returned => congrArg (events ++ ·) (whole' returned)
  | error f =>
      refine ⟨lines, .error f, prints.bind_error _, part.trans (List.prefix_append _ _), ?_, ?_⟩
      · exact fun returned => absurd returned (by simp)
      · intro f' same
        cases same
        exact silent f rfl

theorem relays_pure : Relays (pure () : Tool Unit) [] :=
  ⟨[], .ok (), prints_pure (), List.prefix_refl _, fun _ => rfl, by simp⟩

theorem relays_forM {body : α → Tool Unit} {events : α → List Word}
    (each : ∀ a, Relays (body a) (events a)) (as : List α) :
    Relays (as.forM body) (as.flatMap events) := by
  induction as with
  | nil => exact relays_pure
  | cons a as ih =>
      rw [List.flatMap_cons]
      exact (each a).bind ih

theorem relays_watchEvent (change : A × Nlcpp.Action) :
    Relays (watchEvent sys change.1 change.2) [eventLine sys change] := by
  obtain ⟨r, prints, silent⟩ := prints_getAddr sys (sys.rtnlAddrGetLocal change.1)
  cases r with
  | ok laddr =>
      obtain ⟨-, rfl, -⟩ := getAddr_returned_iff.mp (prints ⟨[], []⟩)
      exact ⟨_, _, prints.bind (prints_printLine _), List.prefix_refl _, fun _ => rfl, by simp⟩
  | error f =>
      refine ⟨[], .error f, prints.bind_error _, List.nil_prefix, ?_, ?_⟩
      · exact fun returned => absurd returned (by simp)
      · intro f' same
        cases same
        exact silent f rfl

theorem relays_dataReady (ready : DataReady A) :
    Relays (dataReady sys ready) (ready.changes.map (eventLine sys)) := by
  have last : Relays (if ready.ret < 0 then
      throwing (Exception.throwCode "nl_cache_mngr_data_ready failed" ready.ret)
      else pure () : Tool Unit) [] := by
    split
    · refine ⟨[], _, prints_lift _, List.prefix_refl _, fun _ => rfl, ?_⟩
      intro f threw
      cases code : Exception.throwCode "nl_cache_mngr_data_ready failed" ready.ret with
      | ok u =>
          rw [code] at threw
          cases threw
      | error e =>
          rw [code] at threw
          cases threw
          rfl
    · exact relays_pure
  have all := (relays_forM (relays_watchEvent sys) ready.changes).bind last
  rwa [List.append_nil, ← List.map_eq_flatMap] at all

theorem relays_handle (fds : List Bool) (ready : ℕ → DataReady A) :
    Relays (handle sys fds ready) ((Session.handed fds ready).map (eventLine sys)) := by
  rw [Session.handed, List.map_flatMap]
  refine relays_forM (fun fd => ?_) fds.zipIdx
  cases fd.1 with
  | true => exact relays_dataReady sys (ready fd.2)
  | false => exact relays_pure

end Events

/-! ### One step -/

section Told

variable {A B : Type} {sys : System A B} {s : Session A} {reactions : List Reaction}

/-- How a line ends. -/
def Reaction.outcome (reaction : Reaction) (c : Console) : Nlcpp.Outcome Failure Console Bool :=
  let c := ⟨c.out ++ reaction.lines, c.err ++ reaction.complaint⟩
  match reaction.failure with
  | none => .returned reaction.watches c
  | some f => .threw f c

/-- What is done for a line is one of the things that can become of it. -/
theorem perform_reacts (sys : System A B) (env : Env A) (line behind : Word) :
    ∃ d reaction, (Line.ofGetline line behind).dispatched sys.isspace = some d ∧
      Reacts sys line reaction ∧ ∀ c, (perform sys env d).run c = reaction.outcome c := by
  obtain ⟨d, dispatched, does⟩ :=
    Line.exists_dispatched sys.isspace (Line.ofGetline line behind)
  rw [Line.does_ofGetline line behind []] at does
  cases d with
  | skipped =>
      refine ⟨_, .skipped, dispatched, .skipped does, fun c => ?_⟩
      simp [perform, Reaction.outcome, Reaction.failure, Reaction.watches, Reaction.lines,
        Reaction.complaint]
  | unknown message =>
      refine ⟨_, .complained message, dispatched, .complained does, fun c => ?_⟩
      simp [perform, printError, Reaction.outcome, Reaction.failure, Reaction.watches,
        Reaction.lines, Reaction.complaint]
  | called action args =>
      obtain ⟨lines, r, prints, isAnswer⟩ := runCommand_answers sys env action args
      cases r with
      | ok u =>
          obtain ⟨items, done, rfl, areItems, isDone⟩ := isAnswer
          refine ⟨_, .answered action items done, dispatched,
            .answered does prints areItems isDone, fun c => ?_⟩
          simp [perform, prints c, Reaction.outcome, Reaction.failure, Reaction.watches,
            Reaction.lines, Reaction.complaint]
      | error f =>
          refine ⟨_, .failed lines f, dispatched, .failed does prints isAnswer, fun c => ?_⟩
          simp [perform, prints c, Reaction.outcome, Reaction.failure, Reaction.lines,
            Reaction.complaint]

/-- While `main` has not been left, all there is on the console is what became of the lines and
of the changes. -/
structure Session.Going (sys : System A B) (s : Session A) (reactions : List Reaction) : Prop where
  ending : s.ending = none
  returned : ∀ reaction ∈ reactions, reaction.failure = none
  events : (hear s.console.out).events = s.changes.map (eventLine sys)

/-- What is on the console, when this became of the lines. Only the last line can have failed,
and then it has ended the session. -/
structure Session.Told (sys : System A B) (s : Session A) (reactions : List Reaction) : Prop where
  reacted : List.Forall₂ (Reacts sys) s.tool.executed reactions
  answers : (hear s.console.out).answers = reactions.filterMap Reaction.answer
  pending : (hear s.console.out).pending = reactions.flatMap Reaction.begun
  inside : (hear s.console.out).inside = []
  events : (hear s.console.out).events <+: s.changes.map (eventLine sys)
  complaints : s.console.err =
    reactions.flatMap Reaction.complaint ++ s.ending.elim [] Ending.message
  earlier : ∀ reaction ∈ reactions.dropLast, reaction.failure = none
  failed : ∀ reaction ∈ reactions, ∀ f, reaction.failure = some f → s.ending = some (.failed f)
  ended : s.tool.phase = .stopped → s.ending ≠ none
  going : s.tool.phase ≠ .stopped → s.Going sys reactions

namespace Session

theorem Going.pending (going : s.Going sys reactions) : reactions.flatMap Reaction.begun = [] := by
  refine List.flatMap_eq_nil_iff.mpr fun reaction mem => ?_
  have returned := going.returned reaction mem
  cases reaction with
  | failed items f => cases returned
  | skipped | complained | answered => rfl

/-- There are no other messages while `main` has not been left. -/
theorem Told.going_complaints (told : s.Told sys reactions) (going : s.Going sys reactions) :
    s.console.err = reactions.flatMap Reaction.complaint := by
  rw [told.complaints, going.ending]
  exact List.append_nil _

theorem Told.going_pending (told : s.Told sys reactions) (going : s.Going sys reactions) :
    (hear s.console.out).pending = [] :=
  told.pending.trans going.pending

/-- Nothing was executed and nothing was printed. -/
theorem Told.moved (told : s.Told sys reactions) {tool : State}
    (executed : tool.executed = s.tool.executed)
    (stopped : tool.phase = .stopped ↔ s.tool.phase = .stopped) :
    Told sys { s with tool := tool } reactions where
  reacted := executed ▸ told.reacted
  answers := told.answers
  pending := told.pending
  inside := told.inside
  events := told.events
  complaints := told.complaints
  earlier := told.earlier
  failed := told.failed
  ended left := told.ended (stopped.mp left)
  going running :=
    have going := told.going fun left => running (stopped.mpr left)
    ⟨going.ending, going.returned, going.events⟩

/-- `main` is left, with nothing executed; events may have been printed before. -/
theorem Told.left (told : s.Told sys reactions) (running : s.tool.phase ≠ .stopped) {t : Session A}
    (executed : t.tool.executed = s.tool.executed) (stopped : t.tool.phase = .stopped)
    {ending : Ending} (ended : t.ending = some ending) (lines : List Word)
    (out : t.console.out = s.console.out ++ lines) (areEvents : ∀ line ∈ lines, IsEvent line)
    (events : s.changes.map (eventLine sys) ++ lines <+: t.changes.map (eventLine sys))
    (err : t.console.err = s.console.err ++ ending.message) : t.Told sys reactions := by
  have going := told.going running
  have heard : hear t.console.out =
      { hear s.console.out with events := (hear s.console.out).events ++ lines } := by
    rw [hear, out, List.foldl_append]
    exact hear_events _ areEvents (told.going_pending going)
  refine ⟨executed ▸ told.reacted, ?_, ?_, ?_, ?_, ?_, told.earlier, ?_, ?_, ?_⟩
  · rw [heard]
    exact told.answers
  · rw [heard]
    exact told.pending
  · rw [heard]
    exact told.inside
  · rw [heard]
    simpa only [going.events] using events
  · rw [err, told.going_complaints going, ended]
    rfl
  · intro reaction mem f failed
    rw [going.returned reaction mem] at failed
    cases failed
  · rw [ended]
    simp
  · exact fun running => absurd stopped running

/-- The managers have handed on their changes. -/
theorem Told.relayed (told : s.Told sys reactions) (running : s.tool.phase ≠ .stopped)
    {tool : State} (executed : tool.executed = s.tool.executed) (still : tool.phase ≠ .stopped)
    (changes : List (A × Nlcpp.Action)) :
    Told sys { s with
      tool := tool
      console := { s.console with out := s.console.out ++ changes.map (eventLine sys) }
      changes := s.changes ++ changes } reactions := by
  have going := told.going running
  have heard : hear (s.console.out ++ changes.map (eventLine sys)) =
      { hear s.console.out with
        events := (hear s.console.out).events ++ changes.map (eventLine sys) } := by
    rw [hear, List.foldl_append]
    refine hear_events _ (fun line mem => ?_) (told.going_pending going)
    obtain ⟨change, -, rfl⟩ := List.mem_map.mp mem
    exact isEvent_eventLine sys change
  have events : (hear (s.console.out ++ changes.map (eventLine sys))).events =
      (s.changes ++ changes).map (eventLine sys) := by
    rw [heard, List.map_append, ← going.events]
  refine ⟨executed ▸ told.reacted, ?_, ?_, ?_, events ▸ List.prefix_refl _, told.complaints,
    told.earlier, told.failed, fun stopped => absurd stopped still,
    fun _ => ⟨going.ending, going.returned, events⟩⟩
  · rw [heard]
    exact told.answers
  · rw [heard]
    exact told.pending
  · rw [heard]
    exact told.inside

/-- A line was executed. -/
theorem Told.executed (told : s.Told sys reactions) (running : s.tool.phase ≠ .stopped)
    {line : Word} {reaction : Reaction} (reacts : Reacts sys line reaction) {t : Session A}
    (executed : t.tool.executed = s.tool.executed ++ [line])
    (console : t.console =
      ⟨s.console.out ++ reaction.lines, s.console.err ++ reaction.complaint⟩)
    (changes : t.changes = s.changes)
    (stopped : t.tool.phase = .stopped ↔ reaction.failure ≠ none)
    (ending : t.ending = reaction.failure.map .failed) :
    t.Told sys (reactions ++ [reaction]) := by
  have going := told.going running
  have heard : hear t.console.out =
      ⟨(hear s.console.out).answers ++ reaction.answer.toList, (hear s.console.out).events,
        reaction.begun, (hear s.console.out).inside⟩ := by
    rw [hear, console, List.foldl_append]
    exact hear_reaction _ reacts (told.going_pending going)
  have events : (hear t.console.out).events = t.changes.map (eventLine sys) := by
    rw [heard, changes]
    exact going.events
  refine ⟨?_, ?_, ?_, ?_, events ▸ List.prefix_refl _, ?_, ?_, ?_, ?_, ?_⟩
  · rw [executed]
    exact List.rel_append told.reacted (.cons reacts .nil)
  · rw [heard, told.answers, List.filterMap_append]
    cases answer : reaction.answer <;> simp [answer]
  · rw [heard, List.flatMap_append, going.pending]
    simp
  · rw [heard]
    exact told.inside
  · rw [console, told.going_complaints going, ending]
    cases reaction.failure <;> simp [Ending.message]
  · rw [List.dropLast_concat]
    exact going.returned
  · intro other mem f failed
    rcases List.mem_append.mp mem with old | new
    · rw [going.returned other old] at failed
      cases failed
    · rw [List.mem_singleton.mp new] at failed
      rw [ending, failed]
      rfl
  · intro left
    obtain ⟨f, failed⟩ := Option.ne_none_iff_exists'.mp (stopped.mp left)
    rw [ending, failed]
    simp
  · intro still
    have returned : reaction.failure = none := by
      by_contra failed
      exact still (stopped.mpr failed)
    refine ⟨by rw [ending, returned]; rfl, ?_, events⟩
    intro other mem
    rcases List.mem_append.mp mem with old | new
    · exact going.returned other old
    · rw [List.mem_singleton.mp new]
      exact returned

theorem advance_ends_executed (tool : State) (notExecuting : ∀ line, tool.phase ≠ .executing line) :
    (tool.advance .ends).executed = tool.executed := by
  cases phase : tool.phase with
  | executing line => exact absurd phase (notExecuting line)
  | polling | handling | reading | stopped => simp only [State.advance, phase]

theorem advance_ends_phase (tool : State) : (tool.advance .ends).phase = .stopped := by
  cases phase : tool.phase <;> simp only [State.advance, phase]

theorem getline_executed (tool : State) (begun : List UInt8) :
    (tool.getline begun).executed = tool.executed := by
  rw [State.getline]
  split_ifs <;> rfl

/-- **One step** tells what became of a line, relays changes, or tells nothing. -/
theorem Told.step (told : s.Told sys reactions) (input : Input A) :
    ∃ reactions', (Session.step sys s input).Told sys reactions' := by
  cases input with
  | write chunk =>
      refine ⟨reactions, told.moved ?_ ?_⟩
      all_goals
        rw [TestTool.step]
        split <;> rfl
  | close => exact ⟨reactions, told.moved rfl Iff.rfl⟩
  | event manager => exact ⟨reactions, told.moved rfl Iff.rfl⟩
  | goOn reply =>
      simp only [Session.step, Session.goOn]
      cases phase : s.tool.phase with
      | stopped => exact ⟨reactions, told⟩
      | polling =>
          have running : s.tool.phase ≠ .stopped := by simp [phase]
          cases failed : reply.pollError with
          | some error =>
              refine ⟨reactions, told.left running ?_ ?_ rfl [] ?_ ?_ ?_ rfl⟩
              · exact advance_ends_executed s.tool (by simp [phase])
              · exact advance_ends_phase s.tool
              · exact (List.append_nil _).symm
              · simp
              · simp [leave]
          | none =>
              refine ⟨reactions, told.moved ?_ ?_⟩
              all_goals
                simp only [State.advance, phase]
                split <;> simp [phase]
      | handling stdin fds =>
          have running : s.tool.phase ≠ .stopped := by simp [phase]
          obtain ⟨lines, r, prints, part, whole, silent⟩ := relays_handle sys fds reply.ready
          dsimp only
          rw [Prog.run_bind, prints s.console]
          cases r with
          | ok u =>
              cases whole rfl
              refine ⟨reactions, told.relayed running ?_ ?_ _⟩
              all_goals simp only [State.advance, phase, State.dataReady]
              split <;> simp
          | error f =>
              refine ⟨reactions, told.left running ?_ ?_ rfl lines rfl ?_ ?_ ?_⟩
              · exact advance_ends_executed s.tool (by simp [phase])
              · exact advance_ends_phase s.tool
              · intro line mem
                obtain ⟨change, -, rfl⟩ := List.mem_map.mp (part.subset mem)
                exact isEvent_eventLine sys change
              · have more := (List.prefix_append_right_inj (s.changes.map (eventLine sys))).mpr part
                rwa [← List.map_append] at more
              · exact congrArg (s.console.err ++ ·) (silent f rfl)
      | reading begun =>
          have running : s.tool.phase ≠ .stopped := by simp [phase]
          have executed : (s.tool.advance (.goesOn false)).executed = s.tool.executed := by
            simp only [State.advance, phase]
            exact getline_executed s.tool begun
          dsimp only
          by_cases failed : reply.getlineFails
          · rw [if_pos failed]
            refine ⟨reactions, told.left running ?_ ?_ rfl [] ?_ ?_ ?_ ?_⟩
            · exact advance_ends_executed s.tool (by simp [phase])
            · exact advance_ends_phase s.tool
            · exact (List.append_nil _).symm
            · simp
            · simp [leave]
            · exact (List.append_nil _).symm
          · rw [if_neg failed]
            by_cases stopped : (s.tool.advance (.goesOn false)).phase = .stopped
            · rw [if_pos stopped]
              refine ⟨reactions, told.left running executed stopped rfl [] ?_ ?_ ?_ ?_⟩
              · exact (List.append_nil _).symm
              · simp
              · simp
              · exact (List.append_nil _).symm
            · rw [if_neg stopped]
              exact ⟨reactions, told.moved executed (iff_of_false stopped running)⟩
      | executing line =>
          have running : s.tool.phase ≠ .stopped := by simp [phase]
          obtain ⟨d, reaction, dispatched, reacts, ran⟩ :=
            perform_reacts sys reply.env line reply.behind
          dsimp only
          rw [dispatched]
          dsimp only
          rw [ran]
          cases failed : reaction.failure with
          | none =>
              refine ⟨_, told.executed running reacts ?_ ?_ ?_ ?_ ?_⟩
              all_goals simp [Reaction.outcome, failed, after, State.advance, phase,
                (told.going running).ending]
          | some f =>
              refine ⟨_, told.executed running reacts ?_ ?_ ?_ ?_ ?_⟩
              all_goals simp [Reaction.outcome, failed, after, leave, State.advance, phase]

end Session

end Told

/-! ### Whole sessions -/

section Runs

variable {A B : Type} (sys : System A B)

theorem Session.after_tool (s : Session A) (o : Nlcpp.Outcome Failure Console Bool) :
    ∃ ops, (s.after o).tool = Run.final TestTool.step s.tool ops := by
  cases o with
  | returned watches c => exact ⟨[.advance (.goesOn watches)], rfl⟩
  | threw f c => exact ⟨[.advance .ends], rfl⟩
  | blocked c => exact ⟨[], rfl⟩

/-- A step of a session is a step of the loop, or the loop stays where it is. -/
theorem Session.tool_step (s : Session A) (input : Input A) :
    ∃ ops, (s.step sys input).tool = Run.final TestTool.step s.tool ops := by
  have ended (c : Console) (ending : Ending) :
      ∃ ops, (s.leave c ending).tool = Run.final TestTool.step s.tool ops :=
    ⟨[.advance .ends], rfl⟩
  cases input with
  | write chunk => exact ⟨[.write chunk], rfl⟩
  | close => exact ⟨[.close], rfl⟩
  | event manager => exact ⟨[.event manager], rfl⟩
  | goOn reply =>
      simp only [step, goOn]
      cases phase : s.tool.phase with
      | stopped => exact ⟨[], rfl⟩
      | polling =>
          cases reply.pollError with
          | some error => exact ended _ _
          | none => exact ⟨[.advance (.goesOn false)], rfl⟩
      | handling stdin fds =>
          exact after_tool { s with changes := s.changes ++ handed fds reply.ready } _
      | reading begun =>
          dsimp only
          split
          · exact ended _ _
          · exact ⟨[.advance (.goesOn false)], rfl⟩
      | executing line =>
          dsimp only
          cases (Line.ofGetline line reply.behind).dispatched sys.isspace with
          | none => exact ⟨[], rfl⟩
          | some d => exact s.after_tool _

/-- What holds in every state. -/
structure Session.Sound (s : Session A) : Prop where
  tool : s.tool.Sound
  told : ∃ reactions, s.Told sys reactions

theorem Session.Sound.step {s : Session A} (sound : s.Sound sys) (input : Input A) :
    (s.step sys input).Sound sys := by
  obtain ⟨reactions, told⟩ := sound.told
  refine ⟨?_, told.step input⟩
  obtain ⟨ops, runs⟩ := s.tool_step sys input
  rw [runs]
  exact sound_states ops sound.tool _ (Run.final_mem_states _ _)

theorem Session.sound_start : (start : Session A).Sound sys where
  tool := State.sound_start
  told := ⟨[], .nil, rfl, rfl, rfl, List.prefix_refl _, rfl, by simp, by simp,
    by simp [start, State.start], fun _ => ⟨rfl, by simp, rfl⟩⟩

/-- A command is sent, and `main` goes once around its loop. -/
example :
    let reply : Reply (Option CString) := ⟨none, false, fun _ => ⟨[], 0⟩, .fair, []⟩
    hear (Run.final (Session.step System.texts) Session.start
      (.write (ascii "link-add name a\n") :: List.replicate 5 (.goOn reply))).console.out =
        ⟨[(.linkAdd, [], ascii "link-add-done true")], [], [], []⟩ := by
  decide

end Runs

/-! ### Arguments instead of lines -/

section Arguments

variable {A B : Type} (sys : System A B) (env : Env A)

/-- `main` with arguments, and what it returns. -/
def mainArguments (name : Word) (args : List Word) : Tool ℤ :=
  match commands.find? fun cmd => cmd.name = name with
  | some cmd => do
    runCommand sys env cmd.action args
    return 0
  | none => do
    printError (ascii "Unknown command: '" ++ name ++ ascii "'\n")
    return 1

/-- What the tool does for its arguments it does for a line that is made of them, however they
are set apart; it returns 0 exactly for the name of a command. -/
theorem arguments_as_line {lead : Word} (blank : ∀ b ∈ lead, sys.isspace b = true ∧ b ≠ 0)
    (first : Spoken sys.isspace) (rest : List (Spoken sys.isspace)) (behind : Word) :
    ∃ d, (Line.ofGetline (lead ++ (first :: rest).flatMap Spoken.text) behind).dispatched
        sys.isspace = some d ∧
      (perform sys env d >>= fun _ => pure ()) =
        (mainArguments sys env first.word (rest.map Spoken.word) >>= fun _ => pure ()) ∧
      ∀ c code c', (mainArguments sys env first.word (rest.map Spoken.word)).run c =
        .returned code c' → (code = 0 ↔ first.word ∈ commands.map Command.name) := by
  obtain ⟨d, dispatched, does⟩ := Line.exists_dispatched sys.isspace
    (Line.ofGetline (lead ++ (first :: rest).flatMap Spoken.text) behind)
  obtain ⟨words, split, dispatch_eq⟩ := Line.does_iff.mp does
  have spoken := Line.words_spoken blank (first :: rest) behind
  cases split.unique spoken
  simp only [List.map_cons, List.head?_cons, List.tail_cons, dispatch] at dispatch_eq
  refine ⟨d, dispatched, ?_⟩
  cases found : commands.find? fun cmd => cmd.name = first.word with
  | some cmd =>
      obtain ⟨mem, named⟩ := find_eq_some_iff.mp found
      have isName : first.word ∈ commands.map Command.name := named ▸ List.mem_map_of_mem mem
      rw [found] at dispatch_eq
      subst dispatch_eq
      simp only [perform, mainArguments, found]
      refine ⟨?_, fun c code c' returned => ?_⟩
      · apply Prog.ext
        intro c
        simp [Outcome.next_next]
      · obtain ⟨u, c₁, -, same⟩ := Prog.returned_bind_iff.mp returned
        cases same
        simp [isName]
  | none =>
      have unnamed : first.word ∉ commands.map Command.name := by
        intro mem
        obtain ⟨cmd, mem, named⟩ := List.mem_map.mp mem
        exact absurd (List.find?_eq_none.mp found cmd mem) (by simp [named])
      rw [found] at dispatch_eq
      subst dispatch_eq
      simp only [perform, mainArguments, found]
      refine ⟨rfl, fun c code c' returned => ?_⟩
      cases returned
      simp [unnamed]

/-- The deletion of a link, as arguments and as a line. -/
theorem link_del_as_line :
    ∃ d, (Line.ofGetline (ascii " link-del\tname  lo\n") []).dispatched cSpace = some d ∧
      (perform System.texts .fair d >>= fun _ => pure ()) =
        (mainArguments System.texts .fair (ascii "link-del") [ascii "name", ascii "lo"] >>=
          fun _ => pure ()) ∧
      ∀ c code c', (mainArguments System.texts .fair (ascii "link-del")
          [ascii "name", ascii "lo"]).run c = .returned code c' →
        (code = 0 ↔ ascii "link-del" ∈ commands.map Command.name) :=
  @arguments_as_line _ _ System.texts .fair [32] (forall_mem_of_all (by decide))
    ⟨ascii "link-del", [9], by decide, forall_mem_of_all (by decide), by decide,
      forall_mem_of_all (by decide), by decide⟩
    [⟨ascii "name", [32, 32], by decide, forall_mem_of_all (by decide), by decide,
      forall_mem_of_all (by decide), by decide⟩,
      ⟨ascii "lo", [10], by decide, forall_mem_of_all (by decide), by decide,
        forall_mem_of_all (by decide), by decide⟩] []

end Arguments

/-! ### The manager of a watch -/

section Watch

open WatchState

variable {κ : Type} (callback : κ)

/-- What is done with the manager of a watch: `addressWatch` moves its cache object to the heap
and watches it there, and `dataReady` hands on these changes. -/
def watchOps (changes : List (ℕ × Nlcpp.Action)) : List (WatchOp κ) :=
  [.addressCache 0, .moveConstruct 0, .destroy 0, .watch 1 callback] ++
    changes.flatMap fun change => [.event 0 change.1 change.2, .resume]

/-- The manager of a watch between its changes, of which there were `n`. -/
structure Watching (n : ℕ) (s : WatchState κ) : Prop where
  vector : ∃ v, s.vectors = [some v] ∧ v.elems = [callback]
  caches : s.caches = [.destroyed, .holds 0]
  registrations : s.registrations = [0]
  loops : s.loops = []
  events : s.events = n
  references : s.references = (empty : WatchState κ).references

variable {callback}

/-- A change is handed to the callback, and nothing of it is left. -/
theorem Watching.change {n : ℕ} {s : WatchState κ} (watching : Watching callback n s)
    (growth : ℕ → ℕ) (change : ℕ × Nlcpp.Action) :
    let ops : List (WatchOp κ) := [.event 0 change.1 change.2, .resume]
    Run.Guarded (WatchState.step growth) WatchState.Careful s ops ∧
      Watching callback (n + 1) (Run.final (WatchState.step growth) s ops) ∧
      (Run.final (WatchState.step growth) s ops).notices =
        s.notices ++ [⟨n, callback, change.1, change.2⟩] := by
  obtain ⟨vectors, caches, registrations, loops, events, notices, references⟩ := s
  obtain ⟨⟨v, rfl, elems⟩, rfl, rfl, rfl, rfl, none_⟩ := watching
  have called : (⟨[some v], [.destroyed, .holds 0], [0], [], events, notices, references⟩ :
      WatchState κ).event 0 change.1 change.2 =
        ⟨[some v], [.destroyed, .holds 0], [0],
          [⟨0, ⟨v.buffer, 1, 1⟩, events, change.1, change.2⟩], events + 1,
          notices ++ [⟨events, callback, change.1, change.2⟩],
          Function.update references change.1 (references change.1 + 1)⟩ := by
    simp [event, changeCallback, WatchState.vector, loopHead, share, Growable.range, elems]
  have back : (⟨[some v], [.destroyed, .holds 0], [0],
      [⟨0, ⟨v.buffer, 1, 1⟩, events, change.1, change.2⟩], events + 1,
      notices ++ [⟨events, callback, change.1, change.2⟩],
      Function.update references change.1 (references change.1 + 1)⟩ : WatchState κ).resume =
        ⟨[some v], [.destroyed, .holds 0], [0], [], events + 1,
          notices ++ [⟨events, callback, change.1, change.2⟩], references⟩ := by
    simp [resume, WatchState.vector, loopHead, unshare, Growable.Holds]
  intro ops
  have whole : Run.final (WatchState.step growth) ⟨[some v], [.destroyed, .holds 0], [0], [],
      events, notices, references⟩ ops = ⟨[some v], [.destroyed, .holds 0], [0], [], events + 1,
        notices ++ [⟨events, callback, change.1, change.2⟩], references⟩ := by
    simp only [ops, Run.final, WatchState.step, called, back]
  rw [whole]
  refine ⟨⟨?_, trivial, trivial⟩, ⟨⟨v, rfl, elems⟩, rfl, rfl, rfl, rfl, none_⟩, rfl⟩
  rintro p registered
  exact ⟨1, by simpa [Owns] using registered⟩

theorem watching_changes (growth : ℕ → ℕ) (callback : κ) (changes : List (ℕ × Nlcpp.Action)) :
    Run.Guarded (WatchState.step growth) WatchState.Careful empty (watchOps callback changes) ∧
      Watching callback changes.length
        (Run.final (WatchState.step growth) empty (watchOps callback changes)) ∧
      (Run.final (WatchState.step growth) empty (watchOps callback changes)).notices =
        changes.zipIdx.map fun c => ⟨c.2, callback, c.1.1, c.1.2⟩ := by
  induction changes using List.reverseRecOn with
  | nil =>
      refine ⟨⟨trivial, trivial, ?_, ?_, trivial⟩, ?_, rfl⟩
      · rintro p - ⟨l, mem, -⟩
        exact absurd mem List.not_mem_nil
      · rintro p - ⟨l, mem, -⟩
        exact absurd mem List.not_mem_nil
      · exact ⟨⟨_, rfl, rfl⟩, rfl, rfl, rfl, rfl, rfl⟩
  | append_singleton changes change ih =>
      obtain ⟨careful, watching, notices⟩ := ih
      obtain ⟨careful', watching', notices'⟩ := watching.change growth change
      have whole : watchOps callback (changes ++ [change]) =
          watchOps callback changes ++ [.event 0 change.1 change.2, .resume] := by
        simp [watchOps]
      rw [whole, Run.guarded_append, Run.final_append]
      refine ⟨⟨careful, careful'⟩, ?_, ?_⟩
      · rw [List.length_append]
        exact watching'
      · rw [notices', notices, List.zipIdx_append, List.map_append]
        simp

/-- **The tool watches with care.** Whatever changes come, its operations on the manager of a
watch are careful, so no freed vector is read, and each change reaches the callback once, in
order, with the references of every object as they were before. -/
theorem tool_watches (growth : ℕ → ℕ) (callback : κ) (changes : List (ℕ × Nlcpp.Action)) :
    Run.Guarded (WatchState.step growth) WatchState.Careful empty (watchOps callback changes) ∧
      Run.Guarded (WatchState.step growth) ReadsSafely empty (watchOps callback changes) ∧
      (Run.final (WatchState.step growth) empty (watchOps callback changes)).notices =
        changes.zipIdx.map (fun c => ⟨c.2, callback, c.1.1, c.1.2⟩) ∧
      (Run.final (WatchState.step growth) empty (watchOps callback changes)).references =
        (empty : WatchState κ).references := by
  obtain ⟨careful, watching, notices⟩ := watching_changes growth callback changes
  refine ⟨careful, ?_, notices, watching.references⟩
  exact careful.imp (P := WatchState.Sound) (fun s op sound careful => sound.step careful)
    (fun s op sound careful => careful.readsSafely sound) sound_empty

end Watch

end TestTool

end Nlcpp
