import Mathlib.Logic.Basic

/-!
Runs of a deterministic step function.

A run is a list of operations. `states` lists every state a run passes through,
`Guarded` says that every operation of a run meets a condition in the state it
is taken from. The two meet in one rule: a condition that is exact for one step
(the state property survives the step exactly when the condition holds) is exact
for whole runs (`forall_states_iff_guarded`).
-/

namespace Nlcpp.Run

universe u v

variable {σ : Type u} {ω : Type v} (step : σ → ω → σ)

/-- The states a run passes through, its first state included. -/
def states (s : σ) : List ω → List σ
  | [] => [s]
  | op :: ops => s :: states (step s op) ops

/-- The state a run ends in. -/
def final (s : σ) : List ω → σ
  | [] => s
  | op :: ops => final (step s op) ops

/-- Every operation of the run meets `good` in the state it is taken from. -/
def Guarded (good : σ → ω → Prop) (s : σ) : List ω → Prop
  | [] => True
  | op :: ops => good s op ∧ Guarded good (step s op) ops

instance instDecidableGuarded {good : σ → ω → Prop} [∀ s op, Decidable (good s op)] :
    (s : σ) → (ops : List ω) → Decidable (Guarded step good s ops)
  | _, [] => instDecidableTrue
  | s, op :: ops =>
    @instDecidableAnd _ _ (inferInstanceAs (Decidable (good s op)))
      (instDecidableGuarded (step s op) ops)

variable {step}

theorem mem_states_start (s : σ) (ops : List ω) : s ∈ states step s ops := by
  cases ops <;> simp [states]

theorem final_mem_states (s : σ) (ops : List ω) : final step s ops ∈ states step s ops := by
  induction ops generalizing s with
  | nil => simp [final, states]
  | cons op ops ih => exact List.mem_cons_of_mem _ (ih (step s op))

theorem final_append (s : σ) (ops ops' : List ω) :
    final step s (ops ++ ops') = final step (final step s ops) ops' := by
  induction ops generalizing s with
  | nil => rfl
  | cons op ops ih => exact ih (step s op)

theorem guarded_append {good : σ → ω → Prop} (s : σ) (ops ops' : List ω) :
    Guarded step good s (ops ++ ops') ↔
      Guarded step good s ops ∧ Guarded step good (final step s ops) ops' := by
  induction ops generalizing s with
  | nil => simp [Guarded, final]
  | cons op ops ih => simp [Guarded, final, ih, and_assoc]

theorem guarded_iff {good good' : σ → ω → Prop} (same : ∀ s op, good s op ↔ good' s op) (s : σ)
    (ops : List ω) : Guarded step good s ops ↔ Guarded step good' s ops := by
  induction ops generalizing s with
  | nil => exact Iff.rfl
  | cons op ops ih => exact and_congr (same s op) (ih _)

/-- What the operations meet wherever they are taken can be told apart from the rest. -/
theorem guarded_and_forall_mem {good : σ → ω → Prop} {fine : ω → Prop} (s : σ) (ops : List ω) :
    Guarded step (fun s op => good s op ∧ fine op) s ops ↔
      Guarded step good s ops ∧ ∀ op ∈ ops, fine op := by
  induction ops generalizing s with
  | nil => simp [Guarded]
  | cons op ops ih => simp [Guarded, ih, and_assoc, and_left_comm]

/-! ### Invariants of a run -/

section Invariant

variable {P : σ → Prop} {good good' : σ → ω → Prop}

/-- A property that guarded steps preserve holds in every state of a guarded run. -/
theorem Guarded.forall_states (preserved : ∀ s op, P s → good s op → P (step s op))
    {s : σ} {ops : List ω} (start : P s) (guarded : Guarded step good s ops) :
    ∀ t ∈ states step s ops, P t := by
  induction ops generalizing s with
  | nil =>
      intro t ht
      rw [List.mem_singleton.mp ht]
      exact start
  | cons op ops ih =>
      intro t ht
      rcases List.mem_cons.mp ht with rfl | later
      · exact start
      · exact ih (preserved s op start guarded.1) guarded.2 t later

/-- A property that every step preserves holds in every state of any run. -/
theorem forall_states (preserved : ∀ s op, P s → P (step s op)) {s : σ} (start : P s)
    (ops : List ω) : ∀ t ∈ states step s ops, P t := by
  induction ops generalizing s with
  | nil =>
      intro t ht
      rw [List.mem_singleton.mp ht]
      exact start
  | cons op ops ih =>
      intro t ht
      rcases List.mem_cons.mp ht with rfl | later
      · exact start
      · exact ih (preserved s op start) t later

/-- A property that guarded steps preserve holds where a guarded run ends. -/
theorem Guarded.at_end (preserved : ∀ s op, P s → good s op → P (step s op))
    {s : σ} {ops : List ω} (start : P s) (guarded : Guarded step good s ops) :
    P (final step s ops) :=
  guarded.forall_states preserved start _ (final_mem_states s ops)

theorem Guarded.and {s : σ} {ops : List ω} (guarded : Guarded step good s ops)
    (guarded' : Guarded step good' s ops) :
    Guarded step (fun s op => good s op ∧ good' s op) s ops := by
  induction ops generalizing s with
  | nil => trivial
  | cons op ops ih => exact ⟨⟨guarded.1, guarded'.1⟩, ih guarded.2 guarded'.2⟩

/-- Under an invariant that steps meeting `good` preserve, a run guarded by
`good` is guarded by whatever `good` implies there. -/
theorem Guarded.imp (preserved : ∀ s op, P s → good s op → P (step s op))
    (implied : ∀ s op, P s → good s op → good' s op) {s : σ} {ops : List ω} (start : P s)
    (guarded : Guarded step good s ops) : Guarded step good' s ops := by
  induction ops generalizing s with
  | nil => trivial
  | cons op ops ih =>
      exact ⟨implied s op start guarded.1, ih (preserved s op start guarded.1) guarded.2⟩

/-- **Exact guards are exact for runs.** If one step from a `P`-state reaches a
`P`-state exactly when it meets `good`, then a run from a `P`-state stays in `P`
exactly when every one of its steps meets `good`. -/
theorem forall_states_iff_guarded (exact_step : ∀ s op, P s → (P (step s op) ↔ good s op))
    {s : σ} (start : P s) (ops : List ω) :
    (∀ t ∈ states step s ops, P t) ↔ Guarded step good s ops := by
  constructor
  · intro always
    induction ops generalizing s with
    | nil => trivial
    | cons op ops ih =>
        have next : P (step s op) :=
          always _ (List.mem_cons_of_mem _ (mem_states_start _ ops))
        exact ⟨(exact_step s op start).mp next,
          ih next fun t ht => always t (List.mem_cons_of_mem _ ht)⟩
  · exact fun guarded =>
      guarded.forall_states (fun s op hs hg => (exact_step s op hs).mpr hg) start

/-- **A debt is called in before the run is over.** If a step that is not `good` either
is not `safe` or incurs a debt, and no safe step pays a debt off, then a safe run that
ends without debts is good throughout. -/
theorem Guarded.of_doomed {safe : σ → ω → Prop} {Doomed : σ → Prop}
    (preserved : ∀ s op, P s → good s op → P (step s op))
    (incurs : ∀ s op, P s → ¬good s op → ¬safe s op ∨ Doomed (step s op))
    (stays : ∀ s op, Doomed s → safe s op → Doomed (step s op))
    {s : σ} {ops : List ω} (start : P s) (free : ¬Doomed (final step s ops))
    (guarded : Guarded step safe s ops) : Guarded step good s ops := by
  have carried {s : σ} {ops : List ω} (doomed : Doomed s) (guarded : Guarded step safe s ops) :
      Doomed (final step s ops) := by
    induction ops generalizing s with
    | nil => exact doomed
    | cons op ops ih => exact ih (stays s op doomed guarded.1) guarded.2
  induction ops generalizing s with
  | nil => trivial
  | cons op ops ih =>
      by_cases isGood : good s op
      · exact ⟨isGood, ih (preserved s op start isGood) free guarded.2⟩
      · rcases incurs s op start isGood with unsafeStep | doomed
        · exact absurd guarded.1 unsafeStep
        · exact absurd (carried doomed guarded.2) free

end Invariant

end Nlcpp.Run
