import Nlcpp.Lib.Loop
import Nlcpp.Lib.Words
import Nlcpp.TestTool

/-!
How `main` of the test tool splits a line, and what it runs then.

The scan reads the memory that `getline` filled, up to the first NUL. It yields the words of
the line, whatever `isspace` counts as whitespace (`line_splits`); what lies behind the NUL,
such as the end of an earlier line, has no part in it (`does_ofGetline`).
-/

namespace Nlcpp.TestTool

open Words

/-! ### The line -/

/-- The memory from `line` on, with the NUL that ends the line. -/
structure Line where
  memory : List UInt8
  terminated : 0 ∈ memory

namespace Line

variable (line : Line)

/-- Where the terminator is. -/
def length : ℕ := line.memory.idxOf 0

/-- The characters of the line. -/
def chars : List UInt8 := line.memory.take line.length

/-- `string(last, cur)`. -/
def slice (last cur : ℕ) : List UInt8 := (line.memory.drop last).take (cur - last)

/-- The characters of a run. -/
def word (run : ℕ × ℕ) : List UInt8 := line.slice run.1 run.2

/-- What `getline` leaves in its buffer: the line, a NUL, and what was there before. -/
def ofGetline (got behind : List UInt8) : Line where
  memory := got ++ 0 :: behind
  terminated := List.mem_append_right _ List.mem_cons_self

end Line

/-! ### The scan -/

inductive Status where
  | running | broke | outside
deriving DecidableEq, Repr

/-- The variables of the loop; `outside` is its status once it has read what is not there. -/
structure Scan where
  cur : ℕ
  last : ℕ
  command : Option (List UInt8)
  args : List (List UInt8)
  status : Status
deriving DecidableEq, Repr

namespace Scan

/-- Before the first round. -/
def start : Scan := ⟨0, 0, none, [], .running⟩

/-- `command.emplace` for the first word, `args.emplace_back` for the others. -/
def emplace (s : Scan) (word : List UInt8) : Scan :=
  match s.command with
  | none => { s with command := some word }
  | some _ => { s with args := s.args ++ [word] }

/-- What a separator and the terminator have in common. -/
def separate (line : Line) (s : Scan) : Scan :=
  let s := if s.last < s.cur then s.emplace (line.slice s.last s.cur) else s
  { s with last := s.cur + 1 }

/-- One round of the loop, with `cur++` at its end. -/
def round (isspace : UInt8 → Bool) (line : Line) (s : Scan) : Scan :=
  match line.memory[s.cur]? with
  | none => { s with status := .outside }
  | some c =>
    if isspace c ∨ c = 0 then
      let s := s.separate line
      if c = 0 then { s with status := .broke } else { s with cur := s.cur + 1 }
    else { s with cur := s.cur + 1 }

def Running (s : Scan) : Prop := s.status = .running

instance : DecidablePred Running := fun s => inferInstanceAs (Decidable (s.status = .running))

/-- The loop ends, in this state. -/
def Yields (isspace : UInt8 → Bool) (line : Line) (s : Scan) : Prop :=
  Loop.Yields Running (round isspace line) start s

end Scan

/-! ### The command -/

/-- The functions that `commands` names. -/
inductive Action where
  | linkList | linkAdd | linkDel | addressList | addressAdd | addressDel | addressWatch
deriving DecidableEq, Repr

structure Command where
  name : List UInt8
  action : Action
deriving DecidableEq, Repr

def ascii (text : String) : List UInt8 := text.toList.map fun c => UInt8.ofNat c.toNat

def commands : List Command :=
  [⟨ascii "link-list", .linkList⟩,
    ⟨ascii "link-add", .linkAdd⟩,
    ⟨ascii "link-del", .linkDel⟩,
    ⟨ascii "address-list", .addressList⟩,
    ⟨ascii "address-add", .addressAdd⟩,
    ⟨ascii "address-del", .addressDel⟩,
    ⟨ascii "address-watch", .addressWatch⟩]

/-- What `main` does with a line: it goes on with the next one, it calls an action, or it
prints to `cerr`. -/
inductive Dispatch where
  | skipped
  | called (action : Action) (args : List (List UInt8))
  | unknown (message : List UInt8)
deriving DecidableEq, Repr

/-- What follows the scan. -/
def dispatch : Option (List UInt8) → List (List UInt8) → Dispatch
  | none, _ => .skipped
  | some command, args =>
    match commands.find? fun cmd => cmd.name = command with
    | some cmd => .called cmd.action args
    | none => .unknown (ascii "Unknown command: '" ++ command ++ ascii "'\n")

/-! ### Positions -/

section Positions

variable {isspace : UInt8 → Bool} {line : Line} {k : ℕ}

/-- A character of the line that is not whitespace is at this position. -/
def Line.Nonspace (isspace : UInt8 → Bool) (line : Line) (k : ℕ) : Prop :=
  ∃ c, line.chars[k]? = some c ∧ isspace c = false

theorem Line.terminator (line : Line) : line.memory[line.length]? = some 0 :=
  List.getElem?_idxOf line.terminated

/-- Before the terminator, what is read is a character of the line. -/
theorem Line.before (inside : k < line.length) :
    ∃ c, c ≠ 0 ∧ line.memory[k]? = some c ∧ line.chars[k]? = some c := by
  have bound : k < line.memory.length := inside.trans_le List.idxOf_le_length
  refine ⟨line.memory[k], ?_, List.getElem?_eq_getElem bound, ?_⟩
  · have other := List.not_of_lt_findIdx (p := (· == (0 : UInt8))) inside
    exact beq_eq_false_iff_ne.mp other
  · rw [Line.chars, List.getElem?_take_of_lt inside, List.getElem?_eq_getElem bound]

theorem Line.not_nonspace (from_end : line.length ≤ k) : ¬line.Nonspace isspace k := by
  rintro ⟨c, read, -⟩
  rw [Line.chars, List.getElem?_take_eq_none from_end] at read
  cases read

end Positions

/-! ### Rounds -/

namespace Scan

@[simp] theorem emplace_cur (s : Scan) (word : List UInt8) : (s.emplace word).cur = s.cur := by
  unfold emplace
  cases s.command <;> rfl

@[simp] theorem emplace_status (s : Scan) (word : List UInt8) :
    (s.emplace word).status = s.status := by
  unfold emplace
  cases s.command <;> rfl

/-- The words are emplaced in order. -/
theorem emplace_words {s : Scan} {words : List (List UInt8)} (command : s.command = words.head?)
    (args : s.args = words.tail) (word : List UInt8) :
    (s.emplace word).command = (words ++ [word]).head? ∧
      (s.emplace word).args = (words ++ [word]).tail := by
  cases words with
  | nil => simp [emplace, command, args]
  | cons first words => simp [emplace, command, args]

@[simp] theorem separate_last (line : Line) (s : Scan) :
    (s.separate line).last = s.cur + 1 := by
  by_cases word : s.last < s.cur <;> simp [separate, word]

@[simp] theorem separate_cur (line : Line) (s : Scan) : (s.separate line).cur = s.cur := by
  by_cases word : s.last < s.cur <;> simp [separate, word]

@[simp] theorem separate_status (line : Line) (s : Scan) :
    (s.separate line).status = s.status := by
  by_cases word : s.last < s.cur <;> simp [separate, word]

section Rounds

variable {isspace : UInt8 → Bool} {line : Line} {s : Scan}

theorem round_nonspace (here : line.Nonspace isspace s.cur) :
    s.round isspace line = { s with cur := s.cur + 1 } := by
  have inside : s.cur < line.length := Nat.lt_of_not_le fun late => Line.not_nonspace late here
  obtain ⟨c, notNul, read, char⟩ := Line.before inside
  obtain ⟨c', char', letter⟩ := here
  cases char.symm.trans char'
  have letter' : ¬(isspace c ∨ c = 0) := by
    rw [letter]
    simpa using notNul
  simp only [round, read, if_neg letter']

theorem round_space (inside : s.cur < line.length) (gap : ¬line.Nonspace isspace s.cur) :
    s.round isspace line = { s.separate line with cur := s.cur + 1 } := by
  obtain ⟨c, notNul, read, char⟩ := Line.before inside
  have space : isspace c = true := eq_true_of_ne_false fun letter => gap ⟨c, char, letter⟩
  simp only [round, read, if_pos (Or.inl space), if_neg notNul, separate_cur]

theorem round_terminator (here : s.cur = line.length) :
    s.round isspace line = { s.separate line with status := .broke } := by
  have read : line.memory[s.cur]? = some 0 := here ▸ line.terminator
  simp only [round, read, or_true, if_true]

end Rounds

/-! ### What has been found -/

/-- The positions before `next` have been looked at: the runs that are closed are the words,
the first of them in `command` and the others in `args`. -/
structure Found (isspace : UInt8 → Bool) (line : Line) (s : Scan) (next : ℕ)
    (runs : List (ℕ × ℕ)) : Prop where
  scanned : Scanned (line.Nonspace isspace) s.last next runs
  command : s.command = (runs.map line.word).head?
  args : s.args = (runs.map line.word).tail

/-- The loop is at a position of the line. -/
structure Going (isspace : UInt8 → Bool) (line : Line) (s : Scan) : Prop where
  running : s.status = .running
  le : s.cur ≤ line.length
  found : ∃ runs, s.Found isspace line s.cur runs

/-- The loop was left at the terminator. -/
structure Done (isspace : UInt8 → Bool) (line : Line) (s : Scan) : Prop where
  broke : s.status = .broke
  at_end : s.cur = line.length
  closed : s.last = s.cur + 1
  found : ∃ runs, s.Found isspace line (s.cur + 1) runs

section Found

variable {isspace : UInt8 → Bool} {line : Line} {s : Scan} {runs : List (ℕ × ℕ)}

theorem Found.inside (found : s.Found isspace line s.cur runs)
    (here : line.Nonspace isspace s.cur) :
    Found isspace line { s with cur := s.cur + 1 } (s.cur + 1) runs :=
  ⟨found.scanned.inside here, found.command, found.args⟩

/-- A separator closes the run that is open. -/
theorem Found.separate (found : s.Found isspace line s.cur runs)
    (gap : ¬line.Nonspace isspace s.cur) :
    ∃ runs', (s.separate line).Found isspace line (s.cur + 1) runs' := by
  have scanned := found.scanned.outside gap
  by_cases word : s.last < s.cur
  · rw [if_pos word] at scanned
    obtain ⟨command, args⟩ :=
      emplace_words found.command found.args (line.word (s.last, s.cur))
    refine ⟨runs ++ [(s.last, s.cur)], by rwa [separate_last], ?_, ?_⟩
    · rw [List.map_append, Scan.separate, if_pos word]
      exact command
    · rw [List.map_append, Scan.separate, if_pos word]
      exact args
  · rw [if_neg word] at scanned
    refine ⟨runs, by rwa [separate_last], ?_, ?_⟩
    · rw [Scan.separate, if_neg word]
      exact found.command
    · rw [Scan.separate, if_neg word]
      exact found.args

theorem start_going : Going isspace line start :=
  ⟨rfl, Nat.zero_le _, [], Scanned.start, rfl, rfl⟩

/-- **One round**: the loop moves on by one position, or it is left at the terminator with
the last run closed. -/
theorem Going.round (going : s.Going isspace line) :
    (s.round isspace line).Done isspace line ∨
      (s.round isspace line).Going isspace line ∧ (s.round isspace line).cur = s.cur + 1 := by
  obtain ⟨runs, found⟩ := going.found
  rcases Nat.lt_or_eq_of_le going.le with inside | at_end
  · by_cases here : line.Nonspace isspace s.cur
    · rw [round_nonspace here]
      exact .inr ⟨⟨going.running, inside, runs, found.inside here⟩, rfl⟩
    · obtain ⟨runs', found'⟩ := found.separate here
      rw [round_space inside here]
      refine .inr ⟨⟨?_, inside, runs', ?_⟩, rfl⟩
      · exact (separate_status line s).trans going.running
      · exact ⟨found'.scanned, found'.command, found'.args⟩
  · have gap : ¬line.Nonspace isspace s.cur := Line.not_nonspace at_end.ge
    obtain ⟨runs', found'⟩ := found.separate gap
    rw [round_terminator at_end]
    refine .inl ⟨rfl, (separate_cur line s).trans at_end, ?_, runs', ?_⟩
    · exact (separate_last line s).trans (congrArg (· + 1) (separate_cur line s).symm)
    · simp only [separate_cur]
      exact ⟨found'.scanned, found'.command, found'.args⟩

/-- What is left of the line, one more than that for the terminator. -/
def left (line : Line) (s : Scan) : ℕ := if s.Running then line.length + 1 - s.cur else 0

theorem round_preserved (at_s : s.Going isspace line ∨ s.Done isspace line)
    (running : s.Running) :
    (s.round isspace line).Going isspace line ∨ (s.round isspace line).Done isspace line := by
  rcases at_s with going | done
  · exact going.round.symm.imp_left And.left
  · cases done.broke.symm.trans running

theorem round_left (at_s : s.Going isspace line ∨ s.Done isspace line) (running : s.Running) :
    (s.round isspace line).left line < s.left line := by
  rcases at_s with going | done
  · have le := going.le
    rw [left, left, if_pos running]
    rcases going.round with done | ⟨going', next⟩
    · rw [if_neg (by rw [Running, done.broke]; decide)]
      omega
    · have running' : (s.round isspace line).Running := going'.running
      rw [if_pos running', next]
      omega
  · cases done.broke.symm.trans running

/-- **The loop ends**, at the terminator. -/
theorem yields_done (isspace : UInt8 → Bool) (line : Line) :
    ∃ s, Yields isspace line s ∧ s.Done isspace line := by
  have preserved (s : Scan) (at_s : s.Going isspace line ∨ s.Done isspace line)
      (running : s.Running) := round_preserved at_s running
  obtain ⟨s, yields⟩ := Loop.ends_of_measure (left line) preserved
    (fun s at_s running => round_left at_s running) (.inl start_going)
  obtain ⟨at_s, stopped⟩ := yields.invariant preserved (.inl start_going)
  exact ⟨s, yields, at_s.resolve_left fun going => stopped going.running⟩

/-- One round for each character, and one for the terminator. -/
theorem run_start (isspace : UInt8 → Bool) (line : Line) :
    ∃ s, Loop.run Running (round isspace line) (line.length + 1) start = some s :=
  Loop.run_of_measure (left line) (fun _ at_s running => round_preserved at_s running)
    (fun _ at_s running => round_left at_s running) (.inl start_going) (le_refl _)

/-- What the loop found are the runs of the whole line. -/
theorem Found.all (found : s.Found isspace line (s.cur + 1) runs) (done : s.Done isspace line) :
    AllRuns (line.Nonspace isspace) runs := by
  refine found.scanned.all done.closed fun k from_next => Line.not_nonspace ?_
  exact done.at_end.ge.trans (Nat.le_of_succ_le from_next)

end Found

end Scan

/-! ### Lines -/

section Lines

variable {isspace : UInt8 → Bool} {line : Line} {i j : ℕ}

/-- A run is a part of the line. -/
theorem Line.run_le (run : IsRun (line.Nonspace isspace) i j) : j ≤ line.length := by
  obtain ⟨k, rfl⟩ := Nat.exists_eq_add_one_of_ne_zero (Nat.ne_zero_of_lt run.less)
  have last : line.Nonspace isspace k :=
    run.within k (Nat.le_of_lt_succ run.less) (Nat.lt_succ_self k)
  exact Nat.lt_of_not_le fun late => Line.not_nonspace late last

/-- A word is made of characters of the line. -/
theorem Line.word_eq (run : IsRun (line.Nonspace isspace) i j) :
    line.word (i, j) = (line.chars.drop i).take (j - i) := by
  have le := Line.run_le run
  rw [Line.word, Line.slice, Line.chars, List.drop_take, List.take_take, min_eq_left]
  omega

theorem Line.word_ne_nil (run : IsRun (line.Nonspace isspace) i j) : line.word (i, j) ≠ [] := by
  have less := run.less
  have le : j ≤ line.memory.length := (Line.run_le run).trans List.idxOf_le_length
  apply List.ne_nil_of_length_pos
  rw [Line.word, Line.slice, List.length_take, List.length_drop]
  omega

/-- **A line is split into its words**: the loop ends at the terminator; the first of the
maximal runs of characters that are not whitespace is the command, the others are its
arguments, and none is empty. Without such a character there is no command and no action. -/
theorem line_splits (isspace : UInt8 → Bool) (line : Line) :
    ∃ s, Scan.Yields isspace line s ∧ s.status = .broke ∧ s.cur = line.length ∧
      (∃ runs, AllRuns (line.Nonspace isspace) runs ∧ (∀ run ∈ runs, line.word run ≠ []) ∧
        s.command = (runs.map line.word).head? ∧ s.args = (runs.map line.word).tail) ∧
      ((∀ c ∈ line.chars, isspace c = true) → s.command = none ∧
        dispatch s.command s.args = .skipped) := by
  obtain ⟨s, yields, done⟩ := Scan.yields_done isspace line
  obtain ⟨runs, found⟩ := done.found
  have all : AllRuns (line.Nonspace isspace) runs := found.all done
  refine ⟨s, yields, done.broke, done.at_end, ⟨runs, all, ?_, found.command, found.args⟩, ?_⟩
  · rintro ⟨i, j⟩ run
    exact Line.word_ne_nil ((all.mem_iff i j).mp run)
  · intro spaces
    have none_found : runs = [] := by
      refine List.eq_nil_iff_forall_not_mem.mpr ?_
      rintro ⟨i, j⟩ mem
      have run := (all.mem_iff i j).mp mem
      obtain ⟨c, char, letter⟩ := run.within i (le_refl i) run.less
      rw [spaces c (List.mem_of_getElem? char)] at letter
      cases letter
    have no_command : s.command = none := by
      rw [found.command, none_found]
      rfl
    exact ⟨no_command, by rw [no_command, dispatch]⟩

/-- Blanks at both ends and between the words, in the C locale. -/
example :
    (Loop.run Scan.Running (Scan.round (fun c => c = 32 || 9 ≤ c && c ≤ 13)
      (.ofGetline (ascii "  link-add  a\tb \n") [])) 18 Scan.start).map
        (fun s => dispatch s.command s.args) =
      some (.called .linkAdd [ascii "a", ascii "b"]) := by
  decide

/-! ### What a line does -/

/-- The words of a line, in order. -/
def Line.Words (isspace : UInt8 → Bool) (line : Line) (words : List (List UInt8)) : Prop :=
  ∃ runs, AllRuns (line.Nonspace isspace) runs ∧ runs.map line.word = words

/-- `main` does this with a line. -/
def Line.Does (isspace : UInt8 → Bool) (line : Line) (d : Dispatch) : Prop :=
  ∃ s, Scan.Yields isspace line s ∧ dispatch s.command s.args = d

/-- The same, as `main` computes it. -/
def Line.dispatched (isspace : UInt8 → Bool) (line : Line) : Option Dispatch :=
  (Loop.run Scan.Running (Scan.round isspace line) (line.length + 1) Scan.start).map fun s =>
    dispatch s.command s.args

theorem Line.exists_dispatched (isspace : UInt8 → Bool) (line : Line) :
    ∃ d, line.dispatched isspace = some d ∧ line.Does isspace d := by
  obtain ⟨s, reached⟩ := Scan.run_start isspace line
  exact ⟨_, by rw [dispatched, reached, Option.map_some], s, ⟨_, reached⟩, rfl⟩

theorem Line.Words.unique {words words' : List (List UInt8)} (split : line.Words isspace words)
    (split' : line.Words isspace words') : words = words' := by
  obtain ⟨runs, all, rfl⟩ := split
  obtain ⟨runs', all', rfl⟩ := split'
  rw [all.unique all']

/-- What a line does is decided by its words. -/
theorem Line.does_iff {d : Dispatch} :
    line.Does isspace d ↔
      ∃ words, line.Words isspace words ∧ dispatch words.head? words.tail = d := by
  obtain ⟨s, yields, done⟩ := Scan.yields_done isspace line
  obtain ⟨runs, found⟩ := done.found
  have split : line.Words isspace (runs.map line.word) := ⟨runs, found.all done, rfl⟩
  have same : dispatch s.command s.args =
      dispatch (runs.map line.word).head? (runs.map line.word).tail := by
    rw [found.command, found.args]
  constructor
  · rintro ⟨s', yields', rfl⟩
    rw [yields'.unique yields]
    exact ⟨_, split, same.symm⟩
  · rintro ⟨words, split', rfl⟩
    rw [split'.unique split]
    exact ⟨s, yields, same⟩

/-- Every command is found by its name. -/
theorem commands_found :
    ∀ cmd ∈ commands, commands.find? (fun other => other.name = cmd.name) = some cmd := by
  decide

theorem find_eq_some_iff {name : List UInt8} {cmd : Command} :
    commands.find? (fun other => other.name = name) = some cmd ↔
      cmd ∈ commands ∧ cmd.name = name := by
  constructor
  · intro found
    have named := List.find?_some found
    exact ⟨List.mem_of_find?_eq_some found, of_decide_eq_true named⟩
  · rintro ⟨mem, rfl⟩
    exact commands_found cmd mem

theorem dispatch_called_iff {name : List UInt8} {words args : List (List UInt8)}
    {action : Action} :
    dispatch (some name) words = .called action args ↔
      ⟨name, action⟩ ∈ commands ∧ words = args := by
  cases found : commands.find? fun cmd => cmd.name = name with
  | none =>
      have unnamed : ⟨name, action⟩ ∉ commands := fun mem =>
        absurd (List.find?_eq_none.mp found _ mem) (by simp)
      simp only [dispatch, found, reduceCtorEq, unnamed, false_and]
  | some cmd =>
      obtain ⟨mem, rfl⟩ := find_eq_some_iff.mp found
      have action_iff : cmd.action = action ↔ ⟨cmd.name, action⟩ ∈ commands := by
        constructor
        · rintro rfl
          exact mem
        · intro mem'
          have again := commands_found ⟨cmd.name, action⟩ mem'
          exact congrArg Command.action (Option.some.inj (found.symm.trans again))
      simp only [dispatch, found, Dispatch.called.injEq, action_iff]

/-- **An action is called exactly by its name and the arguments, as the words of a line.** -/
theorem Line.does_called_iff {action : Action} {args : List (List UInt8)} :
    line.Does isspace (.called action args) ↔
      ∃ name, line.Words isspace (name :: args) ∧ ⟨name, action⟩ ∈ commands := by
  rw [Line.does_iff]
  constructor
  · rintro ⟨words, split, called⟩
    cases words with
    | nil => cases called
    | cons name words =>
        obtain ⟨mem, rfl⟩ := dispatch_called_iff.mp called
        exact ⟨name, split, mem⟩
  · rintro ⟨name, split, mem⟩
    exact ⟨_, split, dispatch_called_iff.mpr ⟨mem, rfl⟩⟩

/-! ### What is behind the line -/

theorem Line.Words.congr {line' : Line} (same : line.chars = line'.chars)
    {words : List (List UInt8)} (split : line.Words isspace words) :
    line'.Words isspace words := by
  obtain ⟨runs, all, rfl⟩ := split
  have nonspace : line.Nonspace isspace = line'.Nonspace isspace := by
    funext k
    rw [Line.Nonspace, Line.Nonspace, same]
  have all' : AllRuns (line'.Nonspace isspace) runs := nonspace ▸ all
  refine ⟨runs, all', List.map_congr_left ?_⟩
  rintro ⟨i, j⟩ mem
  rw [Line.word_eq ((all.mem_iff i j).mp mem), Line.word_eq ((all'.mem_iff i j).mp mem), same]

theorem Line.chars_ofGetline (got behind behind' : List UInt8) :
    (ofGetline got behind).chars = (ofGetline got behind').chars := by
  have length_eq (behind : List UInt8) : (ofGetline got behind).length = got.idxOf 0 := by
    rw [length, ofGetline, List.idxOf_append]
    by_cases inside : 0 ∈ got
    · rw [if_pos inside]
    · rw [if_neg inside, List.idxOf_cons_self, List.idxOf_eq_length inside, Nat.zero_add]
  have chars_eq (behind : List UInt8) : (ofGetline got behind).chars = got.take (got.idxOf 0) := by
    rw [chars, length_eq, ofGetline, List.take_append_of_le_length List.idxOf_le_length]
  rw [chars_eq, chars_eq]

/-- **What an earlier line left in the buffer has no part in what a line does.** -/
theorem Line.does_ofGetline (got behind behind' : List UInt8) {d : Dispatch} :
    (ofGetline got behind).Does isspace d ↔ (ofGetline got behind').Does isspace d := by
  have same := chars_ofGetline got behind behind'
  rw [does_iff, does_iff]
  exact exists_congr fun words =>
    and_congr_left fun _ => ⟨Line.Words.congr same, Line.Words.congr same.symm⟩

end Lines

/-! ### What is written and what is read -/

/-- The words of a text, in order. -/
def WordsOf (isspace : UInt8 → Bool) (chars : List UInt8) (words : List (List UInt8)) : Prop :=
  ∃ runs, AllRuns (fun k => ∃ c, chars[k]? = some c ∧ isspace c = false) runs ∧
    runs.map (fun run => (chars.drop run.1).take (run.2 - run.1)) = words

/-- The bytes of a text that is given can be looked at one by one. -/
theorem forall_mem_of_all {word : List UInt8} {p : UInt8 → Prop} [DecidablePred p]
    (all : word.all (fun b => p b) = true) : ∀ b ∈ word, p b := by
  simpa using all

/-- A word, and the whitespace that sets it apart from what follows. -/
structure Spoken (isspace : UInt8 → Bool) where
  word : List UInt8
  gap : List UInt8
  some_ : word ≠ []
  nonspace : ∀ b ∈ word, isspace b = false
  apart : gap ≠ []
  space : ∀ b ∈ gap, isspace b = true
  noNul : 0 ∉ word ++ gap

def Spoken.text {isspace : UInt8 → Bool} (spoken : Spoken isspace) : List UInt8 :=
  spoken.word ++ spoken.gap

section Spoken

variable {isspace : UInt8 → Bool} {chars word : List UInt8} {words : List (List UInt8)} {c : UInt8}

theorem Line.words_iff {line : Line} :
    line.Words isspace words ↔ WordsOf isspace line.chars words := by
  have same {runs : List (ℕ × ℕ)} (all : AllRuns (line.Nonspace isspace) runs) :
      runs.map line.word =
        runs.map fun run => (line.chars.drop run.1).take (run.2 - run.1) := by
    refine List.map_congr_left ?_
    rintro ⟨i, j⟩ mem
    exact Line.word_eq ((all.mem_iff i j).mp mem)
  constructor
  · rintro ⟨runs, all, rfl⟩
    exact ⟨runs, all, (same all).symm⟩
  · rintro ⟨runs, all, rfl⟩
    exact ⟨runs, all, same all⟩

theorem wordsOf_nil : WordsOf isspace [] [] := ⟨[], .nil (by simp), rfl⟩

theorem WordsOf.space (rest : WordsOf isspace chars words) (space : isspace c = true) :
    WordsOf isspace (c :: chars) words := by
  obtain ⟨runs, all, rfl⟩ := rest
  refine ⟨runs.map (AllRuns.shift 0), .skip (by simp [space]) all, ?_⟩
  rw [List.map_map]
  refine List.map_congr_left fun run _ => ?_
  simp [AllRuns.shift]

theorem WordsOf.spaces {lead : List UInt8} (rest : WordsOf isspace chars words)
    (spaces : ∀ b ∈ lead, isspace b = true) : WordsOf isspace (lead ++ chars) words := by
  induction lead with
  | nil => exact rest
  | cons b lead ih =>
      obtain ⟨space, spaces⟩ := List.forall_mem_cons.mp spaces
      exact (ih spaces).space space

theorem WordsOf.cons (rest : WordsOf isspace chars words) (space : isspace c = true)
    (some_ : word ≠ []) (nonspace : ∀ b ∈ word, isspace b = false) :
    WordsOf isspace (word ++ c :: chars) (word :: words) := by
  obtain ⟨runs, all, rfl⟩ := rest
  have behind (k : ℕ) : (word ++ c :: chars)[k + (word.length + 1)]? = chars[k]? := by
    rw [List.getElem?_append_right (by omega), show k + (word.length + 1) - word.length = k + 1 by
      omega, List.getElem?_cons_succ]
  have inside : ∀ k < word.length, ∃ b, (word ++ c :: chars)[k]? = some b ∧ isspace b = false := by
    intro k less
    refine ⟨word[k], ?_, nonspace _ (List.getElem_mem less)⟩
    rw [List.getElem?_append_left less, List.getElem?_eq_getElem less]
  have gap : ¬∃ b, (word ++ c :: chars)[word.length]? = some b ∧ isspace b = false := by
    rw [List.getElem?_append_right (le_refl _), Nat.sub_self, List.getElem?_cons_zero]
    simp [space]
  refine ⟨(0, word.length) :: runs.map (AllRuns.shift word.length),
    .cons (List.length_pos_iff.mpr some_) inside gap ?_, ?_⟩
  · simpa only [behind] using all
  · rw [List.map_cons, List.map_map]
    congr 1
    · simp
    · refine List.map_congr_left fun run _ => ?_
      simp only [Function.comp, AllRuns.shift]
      rw [show run.2 + (word.length + 1) - (run.1 + (word.length + 1)) = run.2 - run.1 by omega,
        show run.1 + (word.length + 1) = word.length + (run.1 + 1) by omega,
        List.drop_length_add_append, List.drop_succ_cons]

/-- Words that are set apart are the words of the text. -/
theorem wordsOf_spoken (spoken : List (Spoken isspace)) :
    WordsOf isspace (spoken.flatMap Spoken.text) (spoken.map Spoken.word) := by
  induction spoken with
  | nil => exact wordsOf_nil
  | cons first spoken ih =>
      obtain ⟨c, gap, same⟩ := List.exists_cons_of_ne_nil first.apart
      have spaces := first.space
      rw [same, List.forall_mem_cons] at spaces
      have whole : (first :: spoken).flatMap Spoken.text =
          first.word ++ c :: (gap ++ spoken.flatMap Spoken.text) := by
        rw [List.flatMap_cons, Spoken.text, same]
        simp
      rw [whole, List.map_cons]
      exact (ih.spaces spaces.2).cons spaces.1 first.some_ first.nonspace

/-- A line without a NUL has all its characters. -/
theorem Line.chars_eq {got behind : List UInt8} (noNul : 0 ∉ got) :
    (ofGetline got behind).chars = got := by
  have length_eq : (ofGetline got behind).length = got.length := by
    rw [length, ofGetline, List.idxOf_append, if_neg noNul, List.idxOf_cons_self, Nat.zero_add]
  rw [chars, length_eq, ofGetline, List.take_left]

/-- **What is written is what is read**: a line has the words that it was made of, however they
are set apart. -/
theorem Line.words_spoken {lead : List UInt8} (blank : ∀ b ∈ lead, isspace b = true ∧ b ≠ 0)
    (spoken : List (Spoken isspace)) (behind : List UInt8) :
    (ofGetline (lead ++ spoken.flatMap Spoken.text) behind).Words isspace
      (spoken.map Spoken.word) := by
  have noNul : 0 ∉ lead ++ spoken.flatMap Spoken.text := by
    rw [List.mem_append, List.mem_flatMap, not_or]
    refine ⟨fun mem => (blank 0 mem).2 rfl, ?_⟩
    rintro ⟨word, -, mem⟩
    exact word.noNul mem
  rw [words_iff, chars_eq noNul]
  exact (wordsOf_spoken spoken).spaces fun b mem => (blank b mem).1

end Spoken

end Nlcpp.TestTool
