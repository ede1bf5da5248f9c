import Mathlib.Data.List.Count
import Mathlib.Data.List.TakeWhile

/-!
Streams that a separator cuts into lines.

A line ends at its only separator. `complete` lists the lines of a stream as far as they
are complete, `first` and `rest` take one off. `complete_flatten_append` is the rule for a
reader that has taken lines off in order: what it has left holds the lines still to come.
-/

namespace Nlcpp.Lines

universe u

variable {α : Type u} [DecidableEq α] (sep : α)

/-- It ends at its only separator. -/
def IsLine (line : List α) : Prop := ∃ body, line = body ++ [sep] ∧ sep ∉ body

/-- The lines that are complete, where `begun` is what their first begins with. -/
def completeFrom (begun : List α) : List α → List (List α)
  | [] => []
  | a :: as =>
    if a = sep then (begun ++ [a]) :: completeFrom [] as else completeFrom (begun ++ [a]) as

def complete (as : List α) : List (List α) := completeFrom sep [] as

/-- Up to the first separator, which is there. -/
def first (as : List α) : List α := as.takeWhile (· ≠ sep) ++ [sep]

/-- After the first separator. -/
def rest (as : List α) : List α := (as.dropWhile (· ≠ sep)).tail

variable {sep}

/-! ### Taking a line off -/

theorem not_mem_takeWhile (as : List α) : sep ∉ as.takeWhile (· ≠ sep) := by
  intro here
  have other := List.mem_takeWhile_imp here
  simp at other

theorem dropWhile_eq {as : List α} (here : sep ∈ as) :
    as.dropWhile (· ≠ sep) = sep :: rest sep as := by
  induction as with
  | nil => cases here
  | cons a as ih =>
      by_cases same : a = sep
      · simp [rest, same]
      · have later := (List.mem_cons.mp here).resolve_left (Ne.symm same)
        simpa [rest, same] using ih later

theorem first_append_rest {as : List α} (here : sep ∈ as) : first sep as ++ rest sep as = as := by
  rw [first, List.append_assoc, List.singleton_append, ← dropWhile_eq here,
    List.takeWhile_append_dropWhile]

theorem isLine_append_first {begun : List α} (fresh : sep ∉ begun) (as : List α) :
    IsLine sep (begun ++ first sep as) := by
  refine ⟨begun ++ as.takeWhile (· ≠ sep), by simp [first], ?_⟩
  rw [List.mem_append, not_or]
  exact ⟨fresh, not_mem_takeWhile as⟩

theorem IsLine.count_eq {line : List α} (isLine : IsLine sep line) : line.count sep = 1 := by
  obtain ⟨body, rfl, fresh⟩ := isLine
  simp [List.count_eq_zero_of_not_mem fresh]

theorem count_rest {as : List α} (here : sep ∈ as) :
    (rest sep as).count sep + 1 = as.count sep := by
  have line : (first sep as).count sep = 1 :=
    IsLine.count_eq (isLine_append_first List.not_mem_nil as)
  conv_rhs => rw [← first_append_rest here, List.count_append, line]
  exact Nat.add_comm _ _

/-! ### Complete lines -/

theorem completeFrom_append {body : List α} (fresh : sep ∉ body) (begun as : List α) :
    completeFrom sep begun (body ++ sep :: as) =
      (begun ++ body ++ [sep]) :: completeFrom sep [] as := by
  induction body generalizing begun with
  | nil => simp [completeFrom]
  | cons b body ih =>
      rw [List.mem_cons, not_or] at fresh
      obtain ⟨other, fresh⟩ := fresh
      simp [completeFrom, Ne.symm other, ih fresh]

theorem completeFrom_eq_nil {begun as : List α} : completeFrom sep begun as = [] ↔ sep ∉ as := by
  induction as generalizing begun with
  | nil => simp [completeFrom]
  | cons a as ih =>
      by_cases same : a = sep
      · simp [completeFrom, same]
      · simp [completeFrom, same, ih, Ne.symm same]

theorem complete_eq_nil {as : List α} : complete sep as = [] ↔ sep ∉ as := completeFrom_eq_nil

theorem complete_append {line : List α} (isLine : IsLine sep line) (as : List α) :
    complete sep (line ++ as) = line :: complete sep as := by
  obtain ⟨body, rfl, fresh⟩ := isLine
  have whole := completeFrom_append fresh [] as
  simpa [complete] using whole

/-- **Lines taken off in order.** -/
theorem complete_flatten_append {lines : List (List α)} (areLines : ∀ l ∈ lines, IsLine sep l)
    (as : List α) : complete sep (lines.flatten ++ as) = lines ++ complete sep as := by
  induction lines with
  | nil => rfl
  | cons l lines ih =>
      obtain ⟨isLine, areLines⟩ := List.forall_mem_cons.mp areLines
      rw [List.flatten_cons, List.append_assoc, complete_append isLine, ih areLines,
        List.cons_append]

end Nlcpp.Lines
