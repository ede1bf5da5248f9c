import Mathlib.Algebra.Group.Nat.Defs
import Mathlib.Data.List.Count
import Mathlib.Logic.Function.Basic

/-!
Counted references.

Objects are counted by whoever hands them out; references are held in a list of
places, each with one object or none, and by a world outside that is only known
by how many it holds of each object. `Balanced` says that the count of every
object is what is held of it. Each way of moving a reference (create, acquire,
release, hand over, adopt from outside) keeps the balance.
-/

namespace Nlcpp.Refcount

variable {ο : Type} [DecidableEq ο]

/-- The count of every object is the references held outside plus the places
that hold it. -/
def Balanced (count outside : ο → ℕ) (places : List (Option ο)) : Prop :=
  ∀ o, count o = outside o + places.count (some o)

variable {count outside : ο → ℕ} {places : List (Option ο)} {i j : ℕ} {o : ο}

/-! ### Counting -/

/-- Changing an entry of a list gives up what was there and adds what is put there. -/
theorem count_set_add {α : Type} [BEq α] [LawfulBEq α] [DecidableEq α] {entries : List α}
    {a b : α} (at_ : entries[i]? = some a) (c : α) :
    (entries.set i b).count c + (if a = c then 1 else 0) =
      entries.count c + (if b = c then 1 else 0) := by
  obtain ⟨inside, here⟩ := List.getElem?_eq_some_iff.mp at_
  rw [List.count_set inside, here]
  have held : a = c → 0 < entries.count c := by
    rintro rfl
    exact List.count_pos_iff.mpr (here ▸ List.getElem_mem inside)
  by_cases same : a = c
  · have := held same
    simp only [same, beq_self_eq_true, if_true, beq_iff_eq]
    split <;> omega
  · simp only [beq_iff_eq, same, if_false]
    split <;> omega

/-- Lists that have the same where either has something hold the same. -/
theorem count_of_same {others : List (Option ο)}
    (same : ∀ i : ℕ, places[i]?.join = others[i]?.join) (o : ο) :
    places.count (some o) = others.count (some o) := by
  have empty {l : List (Option ο)} (none : ∀ i : ℕ, l[i]?.join = none) : l.count (some o) = 0 := by
    rw [List.count_eq_zero]
    intro mem
    obtain ⟨i, here⟩ := List.mem_iff_getElem?.mp mem
    have nothing := none i
    rw [here] at nothing
    cases nothing
  induction places generalizing others with
  | nil => exact (empty fun i => (same i).symm).symm
  | cons p places ih =>
      cases others with
      | nil => exact empty same
      | cons q others =>
          have head : p = q := same 0
          subst head
          rw [List.count_cons, List.count_cons, ih fun i => same (i + 1)]

theorem update_add {M : Type} [AddZeroClass M] (f : ο → M) (o r : ο) (d : M) :
    Function.update f o (f o + d) r = f r + if o = r then d else 0 := by
  by_cases same : o = r
  · subst same
    simp
  · rw [Function.update_of_ne (Ne.symm same), if_neg same, add_zero]

theorem update_pred {f : ο → ℕ} (positive : 0 < f o) (r : ο) :
    Function.update f o (f o - 1) r + (if o = r then 1 else 0) = f r := by
  by_cases same : o = r
  · subst same
    simp only [Function.update_self, if_true]
    omega
  · rw [Function.update_of_ne (Ne.symm same), if_neg same, Nat.add_zero]

/-- An object in a place is counted. -/
theorem Balanced.counted (balanced : Balanced count outside places)
    (at_ : places[i]? = some (some o)) : count o ≠ 0 := by
  obtain ⟨inside, here⟩ := List.getElem?_eq_some_iff.mp at_
  have held : 0 < places.count (some o) :=
    List.count_pos_iff.mpr (here ▸ List.getElem_mem inside)
  rw [balanced o]
  omega

/-! ### References inside -/

/-- A new place holds nothing. -/
theorem Balanced.open_place (balanced : Balanced count outside places) :
    Balanced count outside (places ++ [none]) := by
  intro o
  rw [balanced o, List.count_append]
  simp

/-- An empty place acquires a reference, counted by one more. -/
theorem Balanced.acquire (balanced : Balanced count outside places)
    (empty : places[i]? = some none) :
    Balanced (Function.update count o (count o + 1)) outside (places.set i (some o)) := by
  intro r
  have filled := count_set_add (b := some o) empty (some r)
  have was := balanced r
  simp only [reduceCtorEq, if_false, Option.some.injEq] at filled
  rw [update_add count]
  omega

/-- A place gives its reference back, counted by one less. -/
theorem Balanced.release (balanced : Balanced count outside places)
    (at_ : places[i]? = some (some o)) :
    Balanced (Function.update count o (count o - 1)) outside (places.set i none) := by
  intro r
  have emptied := count_set_add (b := none) at_ (some r)
  have counted := update_pred (Nat.pos_of_ne_zero (balanced.counted at_)) r
  have was := balanced r
  simp only [reduceCtorEq, if_false, Option.some.injEq] at emptied
  omega

/-- An empty place takes over what another one holds. -/
theorem Balanced.hand_over (balanced : Balanced count outside places) {p : Option ο}
    (empty : places[i]? = some none) (at_ : places[j]? = some p) (distinct : i ≠ j) :
    Balanced count outside ((places.set i p).set j none) := by
  intro r
  have filled := count_set_add (b := p) empty (some r)
  have still : (places.set i p)[j]? = some p := (List.getElem?_set_ne distinct).trans at_
  have emptied := count_set_add (b := none) still (some r)
  have was := balanced r
  simp only [reduceCtorEq, if_false] at filled emptied
  omega

/-! ### References outside -/

/-- An empty place adopts a reference that was held outside. -/
theorem Balanced.adopt (balanced : Balanced count outside places)
    (empty : places[i]? = some none) (held : 0 < outside o) :
    Balanced count (Function.update outside o (outside o - 1)) (places.set i (some o)) := by
  intro r
  have filled := count_set_add (b := some o) empty (some r)
  have given := update_pred held r
  have was := balanced r
  simp only [reduceCtorEq, if_false, Option.some.injEq] at filled
  omega

theorem Balanced.acquire_outside (balanced : Balanced count outside places) :
    Balanced (Function.update count o (count o + 1)) (Function.update outside o (outside o + 1))
      places := by
  intro r
  have was := balanced r
  rw [update_add count, update_add outside]
  omega

theorem Balanced.release_outside (balanced : Balanced count outside places)
    (held : 0 < outside o) :
    Balanced (Function.update count o (count o - 1)) (Function.update outside o (outside o - 1))
      places := by
  intro r
  have was := balanced r
  have counted : 0 < count o := by
    rw [balanced o]
    omega
  have countedLess := update_pred counted r
  have given := update_pred held r
  omega

end Nlcpp.Refcount
