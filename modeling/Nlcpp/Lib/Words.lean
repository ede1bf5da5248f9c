import Mathlib.Data.List.Basic
import Mathlib.Order.Nat

/-!
The maximal runs of a property of positions, and a scan that finds them.

The scan looks at one position after the other and remembers where the run that is open
began. `Scanned` says what it has found so far; it is kept by a position inside a run
(`Scanned.inside`) and by one outside (`Scanned.outside`), which closes the run that is open.
-/

namespace Nlcpp.Words

/-- The positions from `i` up to `j` are a maximal run. -/
structure IsRun (P : ℕ → Prop) (i j : ℕ) : Prop where
  less : i < j
  within : ∀ k, i ≤ k → k < j → P k
  before : ∀ k, k + 1 = i → ¬P k
  behind : ¬P j

/-- These are the maximal runs, in their order. -/
structure AllRuns (P : ℕ → Prop) (runs : List (ℕ × ℕ)) : Prop where
  mem_iff : ∀ i j, (i, j) ∈ runs ↔ IsRun P i j
  ordered : runs.Pairwise fun run run' => run.2 < run'.1

/-- The positions before `next` have been looked at, those from `last` on are the run that is
open, and the others have been found. -/
structure Scanned (P : ℕ → Prop) (last next : ℕ) (runs : List (ℕ × ℕ)) : Prop where
  le : last ≤ next
  opened : ∀ k, last ≤ k → k < next → P k
  before : ∀ k, k + 1 = last → ¬P k
  found : ∀ i j, (i, j) ∈ runs ↔ IsRun P i j ∧ j < last
  ordered : runs.Pairwise fun run run' => run.2 < run'.1

variable {P : ℕ → Prop} {i j last next : ℕ} {runs : List (ℕ × ℕ)}

theorem AllRuns.nodup (all : AllRuns P runs) : runs.Nodup := by
  refine all.ordered.imp_of_mem ?_
  rintro ⟨i, j⟩ run' mem _ before rfl
  exact Nat.lt_asymm before ((all.mem_iff i j).mp mem).less

/-- There is one list of the maximal runs. -/
theorem AllRuns.unique {runs' : List (ℕ × ℕ)} (all : AllRuns P runs) (all' : AllRuns P runs') :
    runs = runs' := by
  have perm : runs.Perm runs' :=
    (List.perm_ext_iff_of_nodup all.nodup all'.nodup).mpr fun run =>
      (all.mem_iff run.1 run.2).trans (all'.mem_iff run.1 run.2).symm
  refine perm.eq_of_pairwise ?_ all.ordered all'.ordered
  rintro ⟨i, j⟩ ⟨i', j'⟩ mem mem' before after
  have less := ((all.mem_iff i j).mp mem).less
  have less' := ((all'.mem_iff i' j').mp mem').less
  simp only at before after
  omega

theorem Scanned.start : Scanned P 0 0 [] where
  le := le_refl 0
  opened k _ less := absurd less (Nat.not_lt_zero k)
  before k none := absurd none (Nat.succ_ne_zero k)
  found _ j := iff_of_false List.not_mem_nil fun run => Nat.not_lt_zero j run.2
  ordered := List.Pairwise.nil

/-- A run does not go over a position outside, whatever is beside that. -/
theorem IsRun.not_across (run : IsRun P i j) {k : ℕ} (out : ¬P k) : k < i ∨ j ≤ k := by
  rcases Nat.lt_or_ge k i with left | from_i
  · exact .inl left
  · exact .inr (Nat.le_of_not_lt fun inside => out (run.within k from_i inside))

namespace Scanned

variable (scanned : Scanned P last next runs)

include scanned

/-- A position inside: the open run goes on. -/
theorem inside (here : P next) : Scanned P last (next + 1) runs where
  le := scanned.le.trans (Nat.le_succ next)
  opened k from_last less := by
    rcases Nat.lt_succ_iff_lt_or_eq.mp less with earlier | rfl
    · exact scanned.opened k from_last earlier
    · exact here
  before := scanned.before
  found := scanned.found
  ordered := scanned.ordered

/-- A run that ends where the scan is, or later, began where the open one did, or later. -/
theorem last_le (run : IsRun P i j) (late : last ≤ j) : last ≤ i := by
  cases last with
  | zero => exact Nat.zero_le i
  | succ k =>
      rcases run.not_across (scanned.before k rfl) with left | right
      · exact left
      · exact absurd late (Nat.not_le_of_lt (Nat.lt_succ_of_le right))

/-- The run that is open is the only one that ends at a position outside. -/
theorem isRun_iff (out : ¬P next) (late : last ≤ j) (reached : j ≤ next) :
    IsRun P i j ↔ last < next ∧ (i, j) = (last, next) := by
  constructor
  · intro run
    have from_last := scanned.last_le run late
    have ends : j = next := by
      rcases Nat.lt_or_eq_of_le reached with less | eq
      · exact absurd (scanned.opened j late less) run.behind
      · exact eq
    have begins : i = last := by
      rcases Nat.lt_or_eq_of_le from_last with less | eq
      · obtain ⟨k, rfl⟩ := Nat.exists_eq_add_one_of_ne_zero (Nat.ne_zero_of_lt less)
        have open_k : P k := scanned.opened k (Nat.le_of_lt_succ less) (by have := run.less; omega)
        exact absurd open_k (run.before k rfl)
      · exact eq.symm
    subst ends begins
    exact ⟨run.less, rfl⟩
  · rintro ⟨less, eq⟩
    cases eq
    exact ⟨less, scanned.opened, scanned.before, out⟩

/-- A position outside: the run that is open, if one is, has been found. -/
theorem outside (out : ¬P next) : Scanned P (next + 1) (next + 1)
    (if last < next then runs ++ [(last, next)] else runs) where
  le := le_refl _
  opened k from_next less := absurd less (Nat.not_lt_of_le from_next)
  before k eq := Nat.succ.inj eq ▸ out
  found i j := by
    have runs_iff : IsRun P i j ∧ j < next + 1 ↔
        (i, j) ∈ runs ∨ last < next ∧ (i, j) = (last, next) := by
      rw [scanned.found]
      rcases Nat.lt_or_ge j last with early | late
      · have other : (i, j) ≠ (last, next) := by
          rintro ⟨rfl, rfl⟩
          exact Nat.not_le_of_lt early scanned.le
        have passed : j < next + 1 := Nat.lt_succ_of_le (early.le.trans scanned.le)
        simp only [early, passed, other, and_true, and_false, or_false]
      · rw [or_iff_right fun run => Nat.not_le_of_lt run.2 late]
        constructor
        · rintro ⟨run, reached⟩
          exact (scanned.isRun_iff out late (Nat.le_of_lt_succ reached)).mp run
        · intro closed
          have ends : j = next := congrArg Prod.snd closed.2
          exact ⟨(scanned.isRun_iff out late ends.le).mpr closed, Nat.lt_succ_of_le ends.le⟩
    rw [runs_iff]
    by_cases some_open : last < next
    · rw [if_pos some_open, List.mem_append, List.mem_singleton, and_iff_right some_open]
    · rw [if_neg some_open, or_iff_left fun closed => some_open closed.1]
  ordered := by
    by_cases some_open : last < next
    · rw [if_pos some_open, List.pairwise_append]
      refine ⟨scanned.ordered, List.pairwise_singleton .., ?_⟩
      rintro ⟨i, j⟩ earlier run here
      rw [List.mem_singleton.mp here]
      exact ((scanned.found i j).mp earlier).2
    · rw [if_neg some_open]
      exact scanned.ordered

/-- When no run is open and nothing is left inside, all runs have been found. -/
theorem all (closed : last = next) (rest : ∀ k, next ≤ k → ¬P k) : AllRuns P runs where
  mem_iff i j := by
    rw [scanned.found, and_iff_left_of_imp]
    intro run
    by_contra late
    have from_next : next ≤ i := closed ▸ scanned.last_le run (Nat.le_of_not_lt late)
    exact rest i from_next (run.within i (le_refl i) run.less)
  ordered := scanned.ordered

end Scanned

/-! ### Runs one after the other -/

namespace AllRuns

variable {n : ℕ}

/-- Nowhere is a run. -/
theorem nil (nowhere : ∀ k, ¬P k) : AllRuns P [] where
  mem_iff i _ := iff_of_false List.not_mem_nil fun run =>
    nowhere i (run.within i (le_refl i) run.less)
  ordered := List.Pairwise.nil

/-- The runs behind a position outside. -/
def shift (n : ℕ) (run : ℕ × ℕ) : ℕ × ℕ := (run.1 + (n + 1), run.2 + (n + 1))

theorem isRun_shift (gap : ¬P n) : IsRun P (i + (n + 1)) (j + (n + 1)) ↔
    IsRun (fun k => P (k + (n + 1))) i j := by
  constructor
  · intro run
    refine ⟨by have := run.less; omega, fun k from_i less => ?_, fun k next => ?_, run.behind⟩
    · exact run.within _ (by omega) (by omega)
    · exact run.before _ (by omega)
  · intro run
    refine ⟨by have := run.less; omega, fun k from_i less => ?_, fun k next => ?_, run.behind⟩
    · obtain ⟨k, rfl⟩ := Nat.exists_eq_add_of_le' (show n + 1 ≤ k by omega)
      exact run.within k (by omega) (by omega)
    · rcases Nat.lt_or_ge k (n + 1) with early | late
      · rwa [show k = n by omega]
      · obtain ⟨k, rfl⟩ := Nat.exists_eq_add_of_le' late
        exact run.before k (by omega)

/-- A run behind a position outside is one that is shifted. -/
theorem mem_map_shift {rest : List (ℕ × ℕ)} (gap : ¬P n)
    (all : AllRuns (fun k => P (k + (n + 1))) rest) :
    (i, j) ∈ rest.map (shift n) ↔ IsRun P i j ∧ n < i := by
  rw [List.mem_map]
  constructor
  · rintro ⟨⟨i', j'⟩, mem, same⟩
    cases same
    exact ⟨(isRun_shift gap).mpr ((all.mem_iff i' j').mp mem), by dsimp only; omega⟩
  · rintro ⟨run, late⟩
    have less := run.less
    obtain ⟨i, rfl⟩ := Nat.exists_eq_add_of_le' (show n + 1 ≤ i by omega)
    obtain ⟨j, rfl⟩ := Nat.exists_eq_add_of_le' (show n + 1 ≤ j by omega)
    exact ⟨(i, j), (all.mem_iff i j).mpr ((isRun_shift gap).mp run), rfl⟩

/-- Nothing but a position outside comes before the other runs. -/
theorem skip {rest : List (ℕ × ℕ)} (gap : ¬P 0) (all : AllRuns (fun k => P (k + 1)) rest) :
    AllRuns P (rest.map (shift 0)) where
  mem_iff i j := by
    rw [mem_map_shift gap all, and_iff_left_of_imp]
    intro run
    refine Nat.pos_of_ne_zero ?_
    rintro rfl
    exact gap (run.within 0 (le_refl 0) run.less)
  ordered := by
    rw [List.pairwise_map]
    exact all.ordered.imp fun before => Nat.add_lt_add_right before _

/-- A run and a position outside come before the other runs. -/
theorem cons {rest : List (ℕ × ℕ)} (some_ : 0 < n) (word : ∀ k < n, P k) (gap : ¬P n)
    (all : AllRuns (fun k => P (k + (n + 1))) rest) :
    AllRuns P ((0, n) :: rest.map (shift n)) where
  mem_iff i j := by
    rw [List.mem_cons, mem_map_shift gap all]
    constructor
    · rintro (same | ⟨run, -⟩)
      · cases same
        exact ⟨some_, fun k _ less => word k less, by omega, gap⟩
      · exact run
    · intro run
      rcases run.not_across gap with late | early
      · exact .inr ⟨run, late⟩
      · have less := run.less
        have begins : i = 0 := by
          by_contra later
          exact run.before (i - 1) (by omega) (word (i - 1) (by omega))
        have ends : j = n := by
          by_contra earlier
          exact run.behind (word j (by omega))
        exact .inl (by rw [begins, ends])
  ordered := by
    rw [List.pairwise_cons, List.pairwise_map]
    refine ⟨fun run mem => ?_, all.ordered.imp fun before => Nat.add_lt_add_right before _⟩
    obtain ⟨run', -, rfl⟩ := List.mem_map.mp mem
    simp only [shift]
    omega

end AllRuns

end Nlcpp.Words
