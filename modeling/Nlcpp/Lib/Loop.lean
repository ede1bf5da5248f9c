import Mathlib.Order.Nat

/-!
While loops that may never end.

`run` gives a loop some fuel, one unit for each round, and says `none` when the loop is
still going on at the end of it. What a loop yields does not depend on the fuel
(`Yields.unique`). A loop that keeps an invariant yields a state with that invariant
(`Yields.invariant`); a loop whose invariant implies its guard never ends
(`not_ends_of_invariant`).
-/

namespace Nlcpp.Loop

variable {σ : Type} (guard : σ → Prop) [DecidablePred guard] (body : σ → σ)

/-- `while (guard) body`, unless it is still running after `fuel` rounds. -/
def run : ℕ → σ → Option σ
  | 0, s => if guard s then none else some s
  | fuel + 1, s => if guard s then run fuel (body s) else some s

/-- The loop comes to an end in this state. -/
def Yields (s t : σ) : Prop := ∃ fuel, run guard body fuel s = some t

/-- The loop ends after finitely many rounds. -/
def Ends (s : σ) : Prop := ∃ t, Yields guard body s t

variable {guard body} {s t : σ}

theorem run_of_stop (stop : ¬guard s) (fuel : ℕ) : run guard body fuel s = some s := by
  cases fuel <;> exact if_neg stop

theorem run_succ_of_guard (go : guard s) (fuel : ℕ) :
    run guard body (fuel + 1) s = run guard body fuel (body s) :=
  if_pos go

/-- What is reached with some fuel is reached with more. -/
theorem run_add {fuel : ℕ} (reached : run guard body fuel s = some t) (more : ℕ) :
    run guard body (fuel + more) s = some t := by
  induction fuel generalizing s with
  | zero =>
      by_cases go : guard s
      · simp [run, go] at reached
      · rw [run_of_stop go] at reached
        rw [run_of_stop go, reached]
  | succ fuel ih =>
      by_cases go : guard s
      · rw [run_succ_of_guard go] at reached
        rw [Nat.add_right_comm, run_succ_of_guard go]
        exact ih reached
      · rw [run_of_stop go] at reached
        rw [run_of_stop go, reached]

/-- A loop yields at most one state. -/
theorem Yields.unique {t' : σ} (one : Yields guard body s t) (other : Yields guard body s t') :
    t = t' := by
  obtain ⟨fuel, reached⟩ := one
  obtain ⟨fuel', reached'⟩ := other
  have more := run_add reached fuel'
  rw [Nat.add_comm, run_add reached' fuel] at more
  exact (Option.some.inj more).symm

/-- An invariant holds where the loop ends, and the guard does not. -/
theorem Yields.invariant {I : σ → Prop} (preserved : ∀ s, I s → guard s → I (body s))
    (start : I s) (yields : Yields guard body s t) : I t ∧ ¬guard t := by
  obtain ⟨fuel, reached⟩ := yields
  induction fuel generalizing s with
  | zero =>
      by_cases go : guard s
      · simp [run, go] at reached
      · rw [run_of_stop go] at reached
        exact Option.some.inj reached ▸ ⟨start, go⟩
  | succ fuel ih =>
      by_cases go : guard s
      · rw [run_succ_of_guard go] at reached
        exact ih (preserved s start go) reached
      · rw [run_of_stop go] at reached
        exact Option.some.inj reached ▸ ⟨start, go⟩

/-- As many rounds as a measure that the loop uses up are enough. -/
theorem run_of_measure {I : σ → Prop} (measure : σ → ℕ)
    (preserved : ∀ s, I s → guard s → I (body s))
    (less : ∀ s, I s → guard s → measure (body s) < measure s) (start : I s) {fuel : ℕ}
    (enough : measure s ≤ fuel) : ∃ t, run guard body fuel s = some t := by
  induction fuel generalizing s with
  | zero =>
      have stop : ¬guard s := fun go =>
        absurd ((less s start go).trans_le enough) (Nat.not_lt_zero _)
      exact ⟨s, run_of_stop stop 0⟩
  | succ fuel ih =>
      by_cases go : guard s
      · obtain ⟨t, reached⟩ := ih (preserved s start go)
          (Nat.le_of_lt_succ ((less s start go).trans_le enough))
        exact ⟨t, (run_succ_of_guard go fuel).trans reached⟩
      · exact ⟨s, run_of_stop go _⟩

/-- A loop that uses up a measure ends. -/
theorem ends_of_measure {I : σ → Prop} (measure : σ → ℕ)
    (preserved : ∀ s, I s → guard s → I (body s))
    (less : ∀ s, I s → guard s → measure (body s) < measure s) (start : I s) :
    Ends guard body s := by
  obtain ⟨t, reached⟩ := run_of_measure measure preserved less start (le_refl _)
  exact ⟨t, measure s, reached⟩

/-- **A loop whose invariant implies its guard never ends.** -/
theorem not_ends_of_invariant {I : σ → Prop} (preserved : ∀ s, I s → I (body s))
    (goes : ∀ s, I s → guard s) (start : I s) : ¬Ends guard body s := by
  rintro ⟨t, yields⟩
  obtain ⟨kept, stopped⟩ := yields.invariant (fun s hs _ => preserved s hs) start
  exact stopped (goes t kept)

end Nlcpp.Loop
