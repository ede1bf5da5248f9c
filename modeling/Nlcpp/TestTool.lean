import Nlcpp.Lib.Lines
import Nlcpp.Lib.Run

/-!
The command loop of the test tool, with what lies between it and whoever writes to it.

Bytes go from the descriptor, which `poll` looks at, through the buffer of `stdin`, which
`getline` serves lines from. `served_iff_careful` says for every run when a loop that waits
in `poll` has executed the lines it was sent, and `served_iff_one_line` which writes it takes.
-/

namespace Nlcpp.TestTool

open Lines

/-! ### The loop -/

def newline : UInt8 := 10

/-- Where `main` is: in `poll`, before the descriptors that `poll` reported are handled, in
`getline` with what the line begins with, before a line is split and its command looked up
and executed, or at an end. -/
inductive Phase where
  | polling
  | handling (stdin : Bool) (fds : List Bool)
  | reading (begun : List UInt8)
  | executing (line : List UInt8)
  | stopped
deriving DecidableEq, Repr

/-- `descriptor` holds the bytes on descriptor 0 that are not read, and `managers` which of the
other descriptors in `pollFds` have something to read. What was written and which lines were
executed is kept for the record. -/
structure State where
  descriptor : List UInt8
  closed : Bool
  buffer : List UInt8
  managers : List Bool
  phase : Phase
  received : List UInt8
  executed : List (List UInt8)
deriving DecidableEq, Repr

/-- What comes of a call: the program ends (`exit`, an exception that nothing catches, an error
of `poll` or `getline`), or it goes on, after `address-watch` with one more descriptor. -/
inductive Outcome where
  | ends
  | goesOn (watches : Bool)
deriving DecidableEq, Repr

namespace State

variable (s : State)

def start : State := ⟨[], false, [], [], .polling, [], []⟩

/-- `pollFds[0].revents` would be set, by bytes or by a hangup. -/
def readable : Bool := s.descriptor ≠ [] || s.closed

/-- `poll` returns. -/
def Reported : Prop := s.readable ∨ true ∈ s.managers

instance : Decidable s.Reported := inferInstanceAs (Decidable (s.readable ∨ true ∈ s.managers))

/-- `managers[i - 1]->dataReady()` for the descriptors that were reported. -/
def dataReady (fds : List Bool) : State :=
  { s with managers := List.zipWith (fun here reported => here && !reported) s.managers fds }

/-- `getline(&line, &size, stdin)`, a step of it: a line is served from the buffer, or the
buffer is filled with all that the descriptor has, or waits for it to have something. At the
end of the stream what is left of it is a line. -/
def getline (begun : List UInt8) : State :=
  if newline ∈ s.buffer then
    { s with
      buffer := rest newline s.buffer
      phase := .executing (begun ++ first newline s.buffer) }
  else if s.descriptor ≠ [] then
    { s with
      buffer := s.descriptor
      descriptor := []
      phase := .reading (begun ++ s.buffer) }
  else if s.closed = false then { s with buffer := [], phase := .reading (begun ++ s.buffer) }
  else if begun ++ s.buffer = [] then { s with phase := .stopped }
  else { s with buffer := [], phase := .executing (begun ++ s.buffer) }

/-- The next thing that `main` does. -/
def advance : Outcome → State
  | .ends =>
    match s.phase with
    | .executing line => { s with executed := s.executed ++ [line], phase := .stopped }
    | _ => { s with phase := .stopped }
  | .goesOn watches =>
    match s.phase with
    | .polling =>
      if s.Reported then { s with phase := .handling s.readable s.managers } else s
    | .handling stdin fds =>
      { s.dataReady fds with phase := if stdin then .reading [] else .polling }
    | .reading begun => s.getline begun
    | .executing line =>
      { s with
        executed := s.executed ++ [line]
        managers := if watches then s.managers ++ [false] else s.managers
        phase := .polling }
    | .stopped => s

end State

/-- What happens: something is written to descriptor 0, its other end is closed, a manager's
descriptor gets something to read, or `main` goes on. -/
inductive Op where
  | write (chunk : List UInt8)
  | close
  | event (manager : ℕ)
  | advance (outcome : Outcome)
deriving DecidableEq, Repr

def step (s : State) : Op → State
  | .write chunk =>
    if s.closed then s
    else { s with descriptor := s.descriptor ++ chunk, received := s.received ++ chunk }
  | .close => { s with closed := true }
  | .event manager => { s with managers := s.managers.set manager true }
  | .advance outcome => s.advance outcome

namespace State

variable (s : State)

/-- The loop waits in `poll`; no byte is then unread on descriptor 0. -/
def Blocked : Prop := s.phase = .polling ∧ ¬s.Reported

instance : Decidable s.Blocked := inferInstanceAs (Decidable (_ ∧ _))

/-- A loop that waits in `poll` has executed the complete lines it was sent, in order. -/
def Served : Prop := s.Blocked → s.executed = complete newline s.received

instance : Decidable s.Served := inferInstanceAs (Decidable (_ → _))

end State

/-- The loop goes back to `poll` with no complete line in the buffer of `stdin`, unless there is
something for `poll` to report. -/
def Careful (s : State) : Op → Prop
  | .advance (.goesOn _) =>
    match s.phase with
    | .handling false fds => newline ∈ s.buffer → (s.dataReady fds).Reported
    | .executing _ => newline ∈ s.buffer → s.Reported
    | _ => True
  | _ => True

/-! ### What was sent and where it is -/

namespace State

/-- What `main` has of a line that it has not executed. -/
def current (s : State) : List UInt8 :=
  match s.phase with
  | .reading begun => begun
  | .executing line => line
  | _ => []

/-- What was taken from the buffer ends where a line ends, but for the line being read. -/
def Aligned (s : State) : Prop :=
  match s.phase with
  | .reading begun => newline ∉ begun
  | .executing line => IsLine newline line
  | _ => True

/-- No byte is lost, doubled or overtaken. -/
structure Flows (s : State) : Prop where
  flow : s.received = s.executed.flatten ++ (s.current ++ (s.buffer ++ s.descriptor))
  lines : ∀ l ∈ s.executed, IsLine newline l
  aligned : s.Aligned

/-- No complete line is left in the buffer while the loop waits in `poll`. -/
def Clean (s : State) : Prop := s.Blocked → newline ∉ s.buffer

/-- As long as the program runs and its input is open. -/
def Sound (s : State) : Prop := s.phase ≠ .stopped → s.closed = false → s.Flows

variable {s : State}

theorem sound_start : start.Sound := fun _ _ => ⟨rfl, by simp [start], trivial⟩

theorem Flows.getline (flows : s.Flows) {begun : List UInt8} (reading : s.phase = .reading begun)
    (stillOpen : s.closed = false) : (s.getline begun).Flows := by
  obtain ⟨flow, lines, aligned⟩ := flows
  simp only [current, reading] at flow
  simp only [Aligned, reading] at aligned
  by_cases here : newline ∈ s.buffer
  · rw [State.getline, if_pos here]
    refine ⟨?_, lines, isLine_append_first aligned s.buffer⟩
    have whole := first_append_rest here
    simp only [current, List.append_assoc]
    rw [← List.append_assoc (first newline s.buffer), whole]
    exact flow
  · have fresh : newline ∉ begun ++ s.buffer := by
      rw [List.mem_append, not_or]
      exact ⟨aligned, here⟩
    rw [State.getline, if_neg here]
    by_cases empty : s.descriptor = []
    · rw [if_neg (not_not.mpr empty), if_pos stillOpen]
      exact ⟨by simpa [current, empty] using flow, lines, fresh⟩
    · rw [if_pos empty]
      exact ⟨by simpa [current] using flow, lines, fresh⟩

theorem Sound.advance (sound : s.Sound) (outcome : Outcome) : (s.advance outcome).Sound := by
  cases outcome with
  | ends =>
      intro running
      cases phase : s.phase <;> simp [State.advance, phase] at running
  | goesOn watches =>
      cases phase : s.phase with
      | polling =>
          rw [State.advance, phase]
          dsimp only
          split
          · intro _ stillOpen
            obtain ⟨flow, lines, _⟩ := sound (by simp [phase]) stillOpen
            exact ⟨by simpa [current, phase] using flow, lines, trivial⟩
          · exact sound
      | handling stdin fds =>
          intro _ stillOpen
          simp only [State.advance, phase, dataReady] at stillOpen ⊢
          obtain ⟨flow, lines, _⟩ := sound (by simp [phase]) stillOpen
          cases stdin
          · exact ⟨by simpa [current, phase] using flow, lines, trivial⟩
          · exact ⟨by simpa [current, phase] using flow, lines, List.not_mem_nil⟩
      | reading begun =>
          have same : s.advance (.goesOn watches) = s.getline begun := by
            rw [State.advance, phase]
          rw [same]
          intro _ stillOpen
          have wasOpen : s.closed = false := by
            have kept : (s.getline begun).closed = s.closed := by
              rw [State.getline]
              split_ifs <;> rfl
            exact kept.symm.trans stillOpen
          exact (sound (by simp [phase]) wasOpen).getline phase wasOpen
      | executing line =>
          intro _ stillOpen
          simp only [State.advance, phase] at stillOpen ⊢
          obtain ⟨flow, lines, aligned⟩ := sound (by simp [phase]) stillOpen
          simp only [Aligned, phase] at aligned
          refine ⟨by simpa [current, phase] using flow, ?_, trivial⟩
          intro l kept
          rcases List.mem_append.mp kept with old | new
          · exact lines l old
          · rw [List.mem_singleton.mp new]
            exact aligned
      | stopped =>
          rw [State.advance, phase]
          exact sound

/-- **One step.** Nothing that happens loses, doubles or overtakes a byte. -/
theorem Sound.step (sound : s.Sound) (op : Op) : (step s op).Sound := by
  cases op with
  | write chunk =>
      rw [TestTool.step]
      split
      · exact sound
      · intro running stillOpen
        obtain ⟨flow, lines, aligned⟩ := sound running stillOpen
        have grown : s.received ++ chunk =
            s.executed.flatten ++ (s.current ++ (s.buffer ++ (s.descriptor ++ chunk))) := by
          simp [flow]
        exact ⟨grown, lines, aligned⟩
  | close =>
      intro _ stillOpen
      cases stillOpen
  | event manager =>
      intro running stillOpen
      obtain ⟨flow, lines, aligned⟩ := sound running stillOpen
      exact ⟨flow, lines, aligned⟩
  | advance outcome => exact sound.advance outcome

/-- A loop that waits in `poll` has served all lines but those in the buffer. -/
theorem Sound.served_iff (sound : s.Sound) : s.Served ↔ s.Clean := by
  refine forall_congr' fun blocked => ?_
  obtain ⟨polling, quiet⟩ := blocked
  have nothing : s.readable = false := by
    cases readable : s.readable with
    | false => rfl
    | true => exact absurd (.inl readable) quiet
  obtain ⟨empty, stillOpen⟩ : s.descriptor = [] ∧ s.closed = false := by
    simpa [readable] using nothing
  obtain ⟨flow, lines, _⟩ := sound (by simp [polling]) stillOpen
  have left : complete newline s.received = s.executed ++ complete newline s.buffer := by
    rw [flow, complete_flatten_append lines]
    simp [current, polling, empty]
  rw [left, ← complete_eq_nil]
  exact List.self_eq_append_right

/-! ### Going back to `poll` -/

theorem clean_of_not_polling (elsewhere : s.phase ≠ .polling) : s.Clean :=
  fun blocked => absurd blocked.1 elsewhere

/-- What happens outside of `main` can only give `poll` more to report. -/
theorem Clean.mono (clean : s.Clean) {t : State} (phase : t.phase = s.phase)
    (buffer : t.buffer = s.buffer) (reported : s.Reported → t.Reported) : t.Clean := by
  rintro ⟨polling, quiet⟩
  rw [buffer]
  exact clean ⟨phase.symm.trans polling, fun something => quiet (reported something)⟩

theorem getline_not_polling (s : State) (begun : List UInt8) :
    (s.getline begun).phase ≠ .polling := by
  rw [getline]
  split_ifs <;> simp

theorem clean_polling_iff (polling : s.phase = .polling) :
    s.Clean ↔ (newline ∈ s.buffer → s.Reported) := by
  rw [Clean, Blocked, and_iff_right polling]
  exact not_imp_not

theorem clean_advance (clean : s.Clean) (watches : Bool) :
    (s.advance (.goesOn watches)).Clean ↔ Careful s (.advance (.goesOn watches)) := by
  cases phase : s.phase with
  | polling =>
      simp only [Careful, phase, iff_true, advance]
      split
      · exact clean_of_not_polling (by simp)
      · exact clean
  | handling stdin fds =>
      cases stdin with
      | true =>
          simp only [Careful, phase, iff_true, advance]
          exact clean_of_not_polling (by simp)
      | false =>
          simp only [Careful, phase, advance]
          exact clean_polling_iff (by simp)
  | reading begun =>
      simp only [Careful, phase, iff_true, advance]
      exact clean_of_not_polling (getline_not_polling s begun)
  | executing line =>
      simp only [Careful, phase, advance]
      rw [clean_polling_iff (by simp)]
      refine imp_congr_right fun _ => ?_
      cases watches <;> simp [Reported, readable]
  | stopped =>
      simp only [Careful, phase, iff_true, advance]
      exact clean

/-- **One step.** It leaves no complete line in the buffer of a loop that waits in `poll`
exactly when it is careful. -/
theorem clean_step (clean : s.Clean) (op : Op) :
    (TestTool.step s op).Clean ↔ Careful s op := by
  cases op with
  | write chunk =>
      simp only [Careful, iff_true, TestTool.step]
      split
      · exact clean
      · refine clean.mono rfl rfl ?_
        rintro (readable | manager)
        · exact .inl (by simp_all [State.readable])
        · exact .inr manager
  | close =>
      simp only [Careful, iff_true, TestTool.step]
      exact clean.mono rfl rfl fun _ => .inl (by simp [readable])
  | event manager =>
      simp only [Careful, iff_true, TestTool.step]
      refine clean.mono rfl rfl ?_
      rintro (readable | here)
      · exact .inl readable
      · obtain ⟨i, inside, holds⟩ := List.mem_iff_getElem.mp here
        refine .inr (List.mem_iff_getElem.mpr ⟨i, by simpa using inside, ?_⟩)
        simp [List.getElem_set, holds]
  | advance outcome =>
      cases outcome with
      | ends =>
          simp only [Careful, iff_true, TestTool.step]
          refine clean_of_not_polling ?_
          cases phase : s.phase <;> simp [advance, phase]
      | goesOn watches => exact clean_advance clean watches

end State

/-! ### Runs -/

theorem sound_states {s : State} (ops : List Op) (sound : s.Sound) :
    ∀ t ∈ Run.states step s ops, t.Sound :=
  Run.forall_states (P := State.Sound) (fun _ op sound => State.Sound.step sound op) sound ops

/-- **Whatever is written, and whenever.** A loop that waits in `poll` has always executed the
lines it was sent exactly when it never goes back to wait there with a complete line in the
buffer. -/
theorem served_iff_careful (ops : List Op) :
    (∀ t ∈ Run.states step State.start ops, t.Served) ↔
      Run.Guarded step Careful State.start ops := by
  have start : State.start.Clean := fun _ => List.not_mem_nil
  have sound := sound_states ops State.sound_start
  have served_iff_clean : (∀ t ∈ Run.states step State.start ops, t.Served) ↔
      ∀ t ∈ Run.states step State.start ops, t.Clean :=
    forall₂_congr fun t passed => (sound t passed).served_iff
  rw [served_iff_clean]
  exact Run.forall_states_iff_guarded (P := State.Clean)
    (fun s op clean => State.clean_step clean op) start ops

/-! ### One line at a time -/

/-- `getline` finds at most one line end when it reads from the descriptor. -/
def Single (s : State) : Op → Prop
  | .advance (.goesOn _) =>
    match s.phase with
    | .reading _ => newline ∉ s.buffer → s.descriptor.count newline ≤ 1
    | _ => True
  | _ => True

/-- The loop waits, in `poll` or in `getline`. -/
def State.Waits (s : State) : Prop :=
  match s.phase with
  | .polling => ¬s.Reported
  | .reading _ => s.buffer = [] ∧ s.readable = false
  | _ => False

instance (s : State) : Decidable s.Waits :=
  match phase : s.phase with
  | .polling => decidable_of_iff (¬s.Reported) (by simp [State.Waits, phase])
  | .reading _ =>
    decidable_of_iff (s.buffer = [] ∧ s.readable = false) (by simp [State.Waits, phase])
  | .handling _ _ | .executing _ | .stopped => isFalse (by simp [State.Waits, phase])

/-- Each write finds the loop waiting, and nothing else happens. -/
def Paced (s : State) : Op → Prop
  | .write _ => s.Waits
  | .advance (.goesOn false) => True
  | _ => False

instance (s : State) : DecidablePred (Paced s)
  | .write _ => inferInstanceAs (Decidable s.Waits)
  | .advance (.goesOn false) => isTrue trivial
  | .close | .event _ | .advance .ends | .advance (.goesOn true) => isFalse id

/-- The operation writes at most one line end. -/
def Op.OneLine : Op → Prop
  | .write chunk => chunk.count newline ≤ 1
  | _ => True

instance : DecidablePred Op.OneLine
  | .write chunk => inferInstanceAs (Decidable (chunk.count newline ≤ 1))
  | .close | .event _ | .advance _ => isTrue trivial

namespace State

variable {s : State}

/-- The buffer has no complete line, but for the one that `getline` is about to serve. -/
def Tidy (s : State) : Prop :=
  match s.phase with
  | .reading _ => s.buffer.count newline ≤ 1
  | .stopped => True
  | _ => newline ∉ s.buffer

/-- In a paced run nothing is written while there is a line to serve or to execute. -/
structure Calm (s : State) : Prop where
  stillOpen : s.closed = false
  alone : s.managers = []
  served : s.descriptor ≠ [] → newline ∉ s.buffer
  executed : ∀ line, s.phase = .executing line → s.descriptor = []

theorem Tidy.clean (tidy : s.Tidy) : s.Clean := by
  rintro ⟨polling, _⟩
  simpa only [Tidy, polling] using tidy

theorem Tidy.getline {begun : List UInt8} (few : s.buffer.count newline ≤ 1)
    (single : newline ∉ s.buffer → s.descriptor.count newline ≤ 1) : (s.getline begun).Tidy := by
  rw [State.getline]
  split_ifs with here
  · have fewer := count_rest here
    refine List.count_eq_zero.mp ?_
    show (rest newline s.buffer).count newline = 0
    omega
  · exact single here
  · exact Nat.zero_le 1
  · trivial
  · exact List.not_mem_nil

theorem Tidy.step (tidy : s.Tidy) {op : Op} (single : Single s op) :
    (TestTool.step s op).Tidy := by
  cases op with
  | write chunk =>
      rw [TestTool.step]
      split <;> exact tidy
  | close => exact tidy
  | event manager => exact tidy
  | advance outcome =>
      cases outcome with
      | ends => cases phase : s.phase <;> simp [TestTool.step, advance, Tidy, phase]
      | goesOn watches =>
          cases phase : s.phase with
          | polling =>
              simp only [TestTool.step, advance, phase]
              simp only [Tidy, phase] at tidy
              split
              · exact tidy
              · simpa only [Tidy, phase] using tidy
          | handling stdin fds =>
              simp only [TestTool.step, advance, phase]
              simp only [Tidy, phase] at tidy
              cases stdin with
              | true =>
                  show s.buffer.count newline ≤ 1
                  rw [List.count_eq_zero_of_not_mem tidy]
                  exact Nat.zero_le 1
              | false => exact tidy
          | reading begun =>
              simp only [TestTool.step, advance, phase]
              simp only [Tidy, phase] at tidy
              simp only [Single, phase] at single
              exact Tidy.getline tidy single
          | executing line =>
              simp only [TestTool.step, advance, phase]
              simpa only [Tidy, phase] using tidy
          | stopped =>
              simp only [TestTool.step, advance, phase]
              exact tidy

end State

/-- Lines that `getline` reads one at a time are all executed. -/
theorem served_of_single {ops : List Op} (single : Run.Guarded step Single State.start ops) :
    ∀ t ∈ Run.states step State.start ops, t.Served := by
  have tidy : ∀ t ∈ Run.states step State.start ops, t.Tidy :=
    single.forall_states (P := State.Tidy) (fun s op tidy single => tidy.step single)
      List.not_mem_nil
  intro t passed
  exact (sound_states ops State.sound_start t passed).served_iff.mpr (tidy t passed).clean

/-! ### Writes that find the loop waiting -/

namespace State

variable {s : State}

theorem Waits.empty (waits : s.Waits) (clean : s.Clean) :
    s.descriptor = [] ∧ newline ∉ s.buffer ∧ ∀ line, s.phase ≠ .executing line := by
  cases phase : s.phase with
  | polling =>
      simp only [Waits, phase] at waits
      have quiet : s.readable ≠ true := fun readable => waits (.inl readable)
      refine ⟨?_, clean ⟨phase, waits⟩, by simp⟩
      by_contra something
      exact quiet (by simp [readable, something])
  | reading begun =>
      simp only [Waits, phase] at waits
      obtain ⟨nothing, quiet⟩ := waits
      refine ⟨?_, by simp [nothing], by simp⟩
      by_contra something
      simp [readable, something] at quiet
  | handling | executing | stopped => simp [Waits, phase] at waits

theorem Calm.write (calm : s.Calm) (clean : s.Clean) (waits : s.Waits) (chunk : List UInt8) :
    (TestTool.step s (.write chunk)).Calm := by
  obtain ⟨_, fresh, notExecuting⟩ := waits.empty clean
  rw [TestTool.step, if_neg (by simp [calm.stillOpen])]
  exact ⟨calm.stillOpen, calm.alone, fun _ => fresh,
    fun line executing => absurd executing (notExecuting line)⟩

theorem Calm.getline (calm : s.Calm) (begun : List UInt8) : (s.getline begun).Calm := by
  rw [State.getline]
  split_ifs with here more
  · refine ⟨calm.stillOpen, calm.alone, fun more => absurd here (calm.served more), ?_⟩
    rintro line -
    by_contra more
    exact calm.served more here
  · exact ⟨calm.stillOpen, calm.alone, fun more => absurd rfl more, by simp⟩
  · exact ⟨calm.stillOpen, calm.alone, fun _ => List.not_mem_nil, by simp⟩
  all_goals exact absurd calm.stillOpen ‹_›

theorem Calm.advance (calm : s.Calm) : (s.advance (.goesOn false)).Calm := by
  cases phase : s.phase with
  | polling =>
      simp only [State.advance, phase]
      split
      · exact ⟨calm.stillOpen, calm.alone, calm.served, by simp⟩
      · exact calm
  | handling stdin fds =>
      simp only [State.advance, phase]
      refine ⟨calm.stillOpen, by simp [dataReady, calm.alone], calm.served, ?_⟩
      cases stdin <;> simp
  | reading begun =>
      simp only [State.advance, phase]
      exact calm.getline begun
  | executing line =>
      simp only [State.advance, phase]
      exact ⟨calm.stillOpen, calm.alone, calm.served, by simp⟩
  | stopped =>
      simp only [State.advance, phase]
      exact calm

/-- The lines that were sent and not executed. -/
def ahead (s : State) : ℕ :=
  (match s.phase with | .executing _ => 1 | _ => 0) +
    s.buffer.count newline + s.descriptor.count newline

theorem ahead_of_waits (clean : s.Clean) (waits : s.Waits) : s.ahead = 0 := by
  obtain ⟨empty, fresh, notExecuting⟩ := waits.empty clean
  cases phase : s.phase with
  | executing line => exact absurd phase (notExecuting line)
  | polling | handling | reading | stopped =>
      simp [ahead, phase, empty, List.count_eq_zero_of_not_mem fresh]

theorem ahead_getline (calm : s.Calm) {begun : List UInt8} (reading : s.phase = .reading begun) :
    (s.getline begun).ahead = s.ahead := by
  rw [State.getline]
  split_ifs with here more
  · have fewer := count_rest here
    simp only [ahead, reading]
    omega
  · simp [ahead, reading, List.count_eq_zero_of_not_mem here]
  · have empty := not_not.mp more
    simp [ahead, reading, empty, List.count_eq_zero_of_not_mem here]
  all_goals exact absurd calm.stillOpen ‹_›

/-- Only executing a line brings the loop forward. -/
theorem ahead_advance (calm : s.Calm) (notExecuting : ∀ line, s.phase ≠ .executing line) :
    (s.advance (.goesOn false)).ahead = s.ahead := by
  cases phase : s.phase with
  | polling =>
      simp only [State.advance, phase]
      split
      · simp [ahead, phase]
      · rfl
  | handling stdin fds => cases stdin <;> simp [State.advance, dataReady, ahead, phase]
  | reading begun =>
      simp only [State.advance, phase]
      exact ahead_getline calm phase
  | executing line => exact absurd phase (notExecuting line)
  | stopped => simp only [State.advance, phase]

/-- Two lines are ahead of a loop that nothing will wake once it waits. -/
structure Doomed (s : State) : Prop where
  calm : s.Calm
  clean : s.Clean
  behind : 2 ≤ s.ahead

theorem Doomed.step (doomed : s.Doomed) {op : Op} (paced : Paced s op)
    (clean : (TestTool.step s op).Clean) : (TestTool.step s op).Doomed := by
  obtain ⟨calm, wasClean, behind⟩ := doomed
  cases op with
  | write chunk =>
      have none := ahead_of_waits wasClean paced
      omega
  | close => exact absurd paced id
  | event manager => exact absurd paced id
  | advance outcome =>
      match outcome, paced with
      | .goesOn false, _ =>
        refine ⟨calm.advance, clean, ?_⟩
        show 2 ≤ (s.advance (.goesOn false)).ahead
        by_cases executing : ∃ line, s.phase = .executing line
        · obtain ⟨line, executing⟩ := executing
          -- Back in `poll` nothing is on the descriptor, so the buffer would have to be clean.
          have empty := calm.executed line executing
          have fresh : newline ∉ s.buffer := by
            simp only [TestTool.step, State.advance, executing] at clean
            refine clean ⟨rfl, ?_⟩
            simp [Reported, readable, empty, calm.stillOpen, calm.alone]
          simp [ahead, executing, empty, List.count_eq_zero_of_not_mem fresh] at behind
        · rw [ahead_advance calm (not_exists.mp executing)]
          exact behind

/-- What holds in a paced run as long as no write has two line ends. -/
structure Orderly (s : State) : Prop where
  calm : s.Calm
  tidy : s.Tidy
  few : s.descriptor.count newline ≤ 1

theorem orderly_start : start.Orderly :=
  ⟨⟨rfl, rfl, fun _ => List.not_mem_nil, by simp [start]⟩, List.not_mem_nil, Nat.zero_le 1⟩

theorem Orderly.single (orderly : s.Orderly) (op : Op) : Single s op := by
  cases op with
  | advance outcome =>
      cases outcome with
      | ends => trivial
      | goesOn watches =>
          cases phase : s.phase <;> simp [Single, phase, orderly.few]
  | write | close | event => trivial

theorem descriptor_advance (s : State) (outcome : Outcome) :
    (s.advance outcome).descriptor = s.descriptor ∨ (s.advance outcome).descriptor = [] := by
  cases outcome with
  | ends => cases phase : s.phase <;> simp [advance, phase]
  | goesOn watches =>
      cases phase : s.phase with
      | reading begun =>
          simp only [advance, phase, getline]
          split_ifs <;> simp
      | polling =>
          simp only [advance, phase]
          split <;> exact .inl rfl
      | handling | executing | stopped => exact .inl (by simp [advance, phase, dataReady])

theorem Orderly.step (orderly : s.Orderly) {op : Op} (paced : Paced s op) (oneLine : op.OneLine) :
    (TestTool.step s op).Orderly := by
  have tidy := orderly.tidy.step (orderly.single op)
  cases op with
  | write chunk =>
      have clean := orderly.tidy.clean
      refine ⟨orderly.calm.write clean paced chunk, tidy, ?_⟩
      rw [TestTool.step, if_neg (by simp [orderly.calm.stillOpen])]
      rw [(paced.empty clean).1]
      exact oneLine
  | close => exact absurd paced id
  | event manager => exact absurd paced id
  | advance outcome =>
      match outcome, paced with
      | .goesOn false, _ =>
        refine ⟨orderly.calm.advance, tidy, ?_⟩
        show (s.advance (.goesOn false)).descriptor.count newline ≤ 1
        rcases descriptor_advance s (.goesOn false) with same | read
        · rw [same]
          exact orderly.few
        · rw [read]
          exact Nat.zero_le 1

/-- A write with two line ends puts the loop behind. -/
theorem Orderly.doomed (orderly : s.Orderly) {op : Op} (paced : Paced s op)
    (lines : ¬op.OneLine) : (TestTool.step s op).Doomed := by
  have clean := orderly.tidy.clean
  cases op with
  | write chunk =>
      have behind : 2 ≤ chunk.count newline := Nat.lt_of_not_le lines
      have none := ahead_of_waits clean paced
      refine ⟨orderly.calm.write clean paced chunk, (clean_step clean _).mpr trivial, ?_⟩
      rw [TestTool.step, if_neg (by simp [orderly.calm.stillOpen])]
      simp only [ahead, List.count_append] at none ⊢
      omega
  | close | event | advance => exact absurd trivial lines

end State

/-- **Chunks.** When each write finds the loop waiting and the loop is left to wait in the end,
all lines are executed in time exactly when no write has two line ends. -/
theorem served_iff_one_line {ops : List Op} (paced : Run.Guarded step Paced State.start ops)
    (waits : (Run.final step State.start ops).Waits) :
    (∀ t ∈ Run.states step State.start ops, t.Served) ↔ ∀ op ∈ ops, op.OneLine := by
  constructor
  · intro served
    have clean : ∀ t ∈ Run.states step State.start ops, t.Clean := fun t passed =>
      (sound_states ops State.sound_start t passed).served_iff.mp (served t passed)
    have stays : Run.Guarded step (fun s op => (step s op).Clean) State.start ops :=
      (Run.forall_states_iff_guarded (fun _ _ _ => Iff.rfl)
        (clean _ (Run.mem_states_start _ _)) ops).mp clean
    have free : ¬(Run.final step State.start ops).Doomed := by
      rintro ⟨-, clean, behind⟩
      rw [State.ahead_of_waits clean waits] at behind
      exact absurd behind (by decide)
    have good : Run.Guarded step (fun s op => Paced s op ∧ op.OneLine) State.start ops := by
      refine Run.Guarded.of_doomed (P := State.Orderly) ?_ ?_ ?_ State.orderly_start free
        (paced.and stays)
      · exact fun s op orderly good => orderly.step good.1 good.2
      · intro s op orderly bad
        by_cases paced : Paced s op
        · exact .inr (orderly.doomed paced fun oneLine => bad ⟨paced, oneLine⟩)
        · exact .inl fun safe => paced safe.1
      · exact fun s op doomed safe => doomed.step safe.1 safe.2
    exact ((Run.guarded_and_forall_mem _ _).mp good).2
  · intro oneLine
    have good := (Run.guarded_and_forall_mem _ _).mpr ⟨paced, oneLine⟩
    refine served_of_single (good.imp (P := State.Orderly) ?_ ?_ State.orderly_start)
    · exact fun s op orderly good => orderly.step good.1 good.2
    · exact fun s op orderly _ => orderly.single op

/-- **Commands.** A loop that waits in `poll` has always executed the lines it was sent exactly
when it never goes back to wait there with a complete line in the buffer; for writes that find
the loop waiting, exactly when none of them has two line ends. -/
theorem commands_executed_iff (ops : List Op) :
    ((∀ t ∈ Run.states step State.start ops, t.Served) ↔
      Run.Guarded step Careful State.start ops) ∧
    (Run.Guarded step Paced State.start ops → (Run.final step State.start ops).Waits →
      ((∀ t ∈ Run.states step State.start ops, t.Served) ↔ ∀ op ∈ ops, op.OneLine)) :=
  ⟨served_iff_careful ops, served_iff_one_line⟩

/-- `main` goes once around its loop, and then waits in `poll`. -/
def around : List Op := List.replicate 5 (.advance (.goesOn false))

/-- `a` and `b`, one line each, in two writes. -/
def apart : List Op := .write [97, 10] :: around ++ .write [98, 10] :: around

/-- The same in one. -/
def together : List Op := .write [97, 10, 98, 10] :: around

theorem apart_executed : ∀ t ∈ Run.states step State.start apart, t.Served :=
  ((commands_executed_iff apart).2 (by decide) (by decide)).mpr (by decide)

/-- The second of two lines that come together is not executed. -/
theorem second_line_waits :
    ¬∀ ops, ∀ t ∈ Run.states step State.start ops, t.Served := by
  intro always
  have served := always together _ (Run.final_mem_states _ _)
  revert served
  decide

end Nlcpp.TestTool
