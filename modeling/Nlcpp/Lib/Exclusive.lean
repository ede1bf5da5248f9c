import Nlcpp.Lib.Run
import Mathlib.Data.List.Perm.Basic
import Mathlib.Data.List.Perm.Subperm
import Mathlib.Data.List.Count

/-!
Exclusive ownership.

A ledger lists the resources created so far and the resources accounted for:
one entry for every holder and one for every release. It balances when the two
lists are permutations of each other, that is, every resource has exactly one
holder or was released exactly once. Honest steps keep the balance. A step that
copies an entry, overwrites one or drops one breaks it, and no later step of
either sort mends it (`Broken.step`). So a run balances in the end exactly when all its
steps were honest (`balanced_final_iff`).

Dropping removes an entry and copying adds one, so the total says nothing. The
entries that are never dropped are called heavy; copying adds heavy ones, and their
number can only grow beyond what was created.
-/

namespace Nlcpp.Exclusive

universe u v

/-- Resources created, and resources held or released. -/
structure Ledger (ρ : Type) where
  created : List ρ
  accounted : List ρ

variable {ρ : Type} {heavy : ρ → Bool} {l l' : Ledger ρ}

/-- Every resource has one holder or one release, and none has more. -/
def Ledger.Balanced (l : Ledger ρ) : Prop := l.accounted.Perm l.created

/-- A step that keeps the balance: it creates resources and accounts for them, or
moves entries about. -/
inductive Honest (l l' : Ledger ρ) : Prop where
  | opens (new : List ρ) (distinct : new.Nodup) (fresh : ∀ r ∈ new, r ∉ l.created)
      (created : l'.created.Perm (l.created ++ new))
      (accounted : l'.accounted.Perm (l.accounted ++ new))
  | keeps (created : l'.created = l.created) (accounted : l'.accounted.Perm l.accounted)

/-- A step that breaks the balance. -/
inductive Dishonest (heavy : ρ → Bool) (l l' : Ledger ρ) : Prop where
  | copies (created : l'.created = l.created) (extra : List ρ)
      (known : ∀ r ∈ extra, r ∈ l.accounted) (some_heavy : ∃ r ∈ extra, heavy r = true)
      (accounted : l'.accounted.Perm (l.accounted ++ extra))
  | overwrites (created : l'.created = l.created) (rest old new : List ρ)
      (known : ∀ r ∈ new, r ∈ rest) (some_old : old ≠ [])
      (same_weight : old.countP heavy = new.countP heavy)
      (before : l.accounted.Perm (rest ++ old)) (after : l'.accounted.Perm (rest ++ new))
  | drops (created : l'.created = l.created) (r : ρ) (light : heavy r = false)
      (before : l.accounted.Perm (r :: l'.accounted))

/-- Some resource is accounted for by nobody, or there are more heavy entries than
heavy resources. -/
def Broken (heavy : ρ → Bool) (l : Ledger ρ) : Prop :=
  (∃ r ∈ l.created, r ∉ l.accounted) ∨ l.created.countP heavy < l.accounted.countP heavy

theorem Ledger.Balanced.not_broken (balanced : l.Balanced) : ¬Broken heavy l := by
  rintro (⟨r, created, missing⟩ | excess)
  · exact missing (balanced.mem_iff.mpr created)
  · rw [balanced.countP_eq] at excess
    exact Nat.lt_irrefl _ excess

theorem Honest.balanced (step : Honest l l') (balanced : l.Balanced) : l'.Balanced := by
  cases step with
  | opens new distinct fresh created accounted =>
      exact accounted.trans ((balanced.append_right new).trans created.symm)
  | keeps created accounted =>
      unfold Ledger.Balanced
      rw [created]
      exact accounted.trans balanced

theorem Honest.nodup (step : Honest l l') (nodup : l.created.Nodup) : l'.created.Nodup := by
  cases step with
  | opens new distinct fresh created accounted =>
      rw [created.nodup_iff]
      refine List.nodup_append.mpr ⟨nodup, distinct, ?_⟩
      rintro r old s isNew rfl
      exact fresh r isNew old
  | keeps created accounted => rwa [created]

theorem Dishonest.created_eq (step : Dishonest heavy l l') : l'.created = l.created := by
  cases step <;> assumption

/-- A dishonest step from a balanced ledger breaks it. -/
theorem Dishonest.broken (step : Dishonest heavy l l') (balanced : l.Balanced)
    (nodup : l.created.Nodup) : Broken heavy l' := by
  have once : l.accounted.Nodup := balanced.nodup_iff.mpr nodup
  cases step with
  | copies created extra known some_heavy accounted =>
      right
      obtain ⟨r, isExtra, isHeavy⟩ := some_heavy
      have added : 0 < extra.countP heavy := List.countP_pos_iff.mpr ⟨r, isExtra, isHeavy⟩
      rw [created, accounted.countP_eq, List.countP_append, balanced.countP_eq]
      omega
  | overwrites created rest old new known some_old same_weight before after =>
      left
      obtain ⟨r, isOld⟩ := List.exists_mem_of_ne_nil old some_old
      refine ⟨r, ?_, ?_⟩
      · rw [created]
        exact balanced.mem_iff.mp (before.mem_iff.mpr (List.mem_append_right _ isOld))
      · -- The overwritten entry was the only one of its resource.
        have gone : r ∉ rest := by
          intro isRest
          exact (List.nodup_append.mp (before.nodup_iff.mp once)).2.2 r isRest r isOld rfl
        intro still
        rcases List.mem_append.mp (after.mem_iff.mp still) with isRest | isNew
        · exact gone isRest
        · exact gone (known r isNew)
  | drops created r light before =>
      left
      refine ⟨r, ?_, (List.nodup_cons.mp (before.nodup_iff.mp once)).1⟩
      rw [created]
      exact balanced.mem_iff.mp (before.mem_iff.mpr (List.mem_cons_self ..))

/-- **What is broken stays broken.** -/
theorem Broken.step (broken : Broken heavy l) (step : Honest l l' ∨ Dishonest heavy l l') :
    Broken heavy l' := by
  rcases step with honest | dishonest
  · cases honest with
    | keeps created accounted =>
        unfold Broken at broken ⊢
        rw [created, accounted.countP_eq]
        simpa only [accounted.mem_iff] using broken
    | opens new distinct fresh created accounted =>
        rcases broken with ⟨r, isCreated, missing⟩ | excess
        · left
          refine ⟨r, created.mem_iff.mpr (List.mem_append_left _ isCreated), ?_⟩
          intro accountedFor
          rcases List.mem_append.mp (accounted.mem_iff.mp accountedFor) with old | isNew
          · exact missing old
          · exact fresh r isNew isCreated
        · right
          rw [created.countP_eq, accounted.countP_eq, List.countP_append, List.countP_append]
          omega
  · unfold Broken
    rw [dishonest.created_eq]
    cases dishonest with
    | copies created extra known some_heavy accounted =>
        rcases broken with ⟨r, isCreated, missing⟩ | excess
        · left
          refine ⟨r, isCreated, ?_⟩
          intro accountedFor
          rcases List.mem_append.mp (accounted.mem_iff.mp accountedFor) with old | isExtra
          · exact missing old
          · exact missing (known r isExtra)
        · right
          rw [accounted.countP_eq, List.countP_append]
          omega
    | overwrites created rest old new known some_old same_weight before after =>
        rcases broken with ⟨r, isCreated, missing⟩ | excess
        · left
          have gone : r ∉ rest := by
            intro isRest
            exact missing (before.mem_iff.mpr (List.mem_append_left _ isRest))
          refine ⟨r, isCreated, ?_⟩
          intro accountedFor
          rcases List.mem_append.mp (after.mem_iff.mp accountedFor) with isRest | isNew
          · exact gone isRest
          · exact gone (known r isNew)
        · right
          rw [before.countP_eq, List.countP_append] at excess
          rw [after.countP_eq, List.countP_append]
          omega
    | drops created r light before =>
        rcases broken with ⟨r', isCreated, missing⟩ | excess
        · left
          refine ⟨r', isCreated, ?_⟩
          intro accountedFor
          exact missing (before.mem_iff.mpr (List.mem_cons_of_mem _ accountedFor))
        · right
          rw [before.countP_eq, List.countP_cons, light] at excess
          simpa using excess

/-! ### Holders in a list of places -/

section Holders

variable {α : Type} (f : α → List ρ) {places : List α} {i j : ℕ} {a b : α}

/-- What the places hold, with the content of one place taken out. -/
theorem flatMap_set_perm (at_ : places[i]? = some a) (b : α) :
    ((places.set i b).flatMap f).Perm ((places.eraseIdx i).flatMap f ++ f b) := by
  induction places generalizing i with
  | nil => cases at_
  | cons p places ih =>
      cases i with
      | zero => exact List.perm_append_comm
      | succ i =>
          simp only [List.set_cons_succ, List.eraseIdx_cons_succ, List.flatMap_cons]
          rw [List.append_assoc]
          exact (ih (by simpa using at_)).append_left (f p)

theorem flatMap_perm (at_ : places[i]? = some a) :
    (places.flatMap f).Perm ((places.eraseIdx i).flatMap f ++ f a) := by
  have same : places.set i a = places := by
    obtain ⟨inside, here⟩ := List.getElem?_eq_some_iff.mp at_
    exact here ▸ List.set_getElem_self inside
  have taken := flatMap_set_perm f at_ a
  rwa [same] at taken

/-- What another place holds is still there. -/
theorem mem_eraseIdx_flatMap (at_ : places[j]? = some b) (other : j ≠ i) {r : ρ}
    (holds : r ∈ f b) : r ∈ (places.eraseIdx i).flatMap f :=
  List.mem_flatMap.mpr ⟨b, List.mem_eraseIdx_iff_getElem?.mpr ⟨j, other, at_⟩, holds⟩

end Holders

section Runs

variable {σ : Type u} {ω : Type v} {step : σ → ω → σ} {books : σ → Ledger ρ}
  {inv : σ → Prop} {good : σ → ω → Prop}

/-- A broken ledger is broken at the end of the run. -/
theorem Broken.final (preserved : ∀ s op, inv s → inv (step s op))
    (change : ∀ s op, inv s → Honest (books s) (books (step s op)) ∨
      Dishonest heavy (books s) (books (step s op)))
    {s : σ} (holds : inv s) (broken : Broken heavy (books s)) (ops : List ω) :
    Broken heavy (books (Run.final step s ops)) := by
  induction ops generalizing s with
  | nil => exact broken
  | cons op ops ih => exact ih (preserved s op holds) (broken.step (change s op holds))

/-- **A run ends in balance if and only if every step of it was honest**, when a
condition on the state before a step tells honest steps from dishonest ones. -/
theorem balanced_final_iff (preserved : ∀ s op, inv s → inv (step s op))
    (honest : ∀ s op, inv s → good s op → Honest (books s) (books (step s op)))
    (dishonest : ∀ s op, inv s → ¬good s op → Dishonest heavy (books s) (books (step s op)))
    {s : σ} (holds : inv s) (balanced : (books s).Balanced) (nodup : (books s).created.Nodup)
    (ops : List ω) :
    (books (Run.final step s ops)).Balanced ↔ Run.Guarded step good s ops := by
  have change : ∀ s op, inv s → Honest (books s) (books (step s op)) ∨
      Dishonest heavy (books s) (books (step s op)) := by
    intro s op holds
    by_cases isGood : good s op
    · exact .inl (honest s op holds isGood)
    · exact .inr (dishonest s op holds isGood)
  induction ops generalizing s with
  | nil => exact iff_of_true balanced trivial
  | cons op ops ih =>
      by_cases isGood : good s op
      · have first := honest s op holds isGood
        have later := ih (preserved s op holds) (first.balanced balanced) (first.nodup nodup)
        constructor
        · intro ends
          exact ⟨isGood, later.mp ends⟩
        · intro guarded
          exact later.mpr guarded.2
      · have broken := ((dishonest s op holds isGood).broken balanced nodup).final preserved change
          (preserved s op holds) ops
        constructor
        · intro ends
          exact absurd broken ends.not_broken
        · intro guarded
          exact absurd guarded.1 isGood

end Runs

end Nlcpp.Exclusive
