import Mathlib.Data.Set.Insert
import Mathlib.Data.List.Basic
import Mathlib.Data.Option.Basic
import Mathlib.Logic.Function.Basic

/-!
Places that point to objects.

A memory says where each place points to, if anywhere, and what the objects hold. `Apart A`
says that two places share an object only if both are in `A`. Each operation on places
(put a fresh object there, move pointers around, store a second pointer, write through one)
has a rule that says what it does to `Apart` and which places may see another content
afterwards (`Reaches`); the rules compose.
-/

namespace Nlcpp.Alias

/-- Where each place points to, and what the objects hold. Every pointer is to an object. -/
structure Memory (σ κ : Type) where
  slot : σ → Option ℕ
  heap : List κ
  inside : ∀ s p, slot s = some p → p < heap.length

namespace Memory

variable {σ κ : Type} (M : Memory σ κ)

/-- What a place points to. -/
def content (s : σ) : Option κ := (M.slot s).bind (M.heap[·]?)

/-- Two places share an object only if both are in `A`. -/
def Apart (A : Set σ) : Prop :=
  ∀ s t p, M.slot s = some p → M.slot t = some p → s = t ∨ s ∈ A ∧ t ∈ A

/-- No object is shared. -/
def Separated : Prop := ∀ s t p, M.slot s = some p → M.slot t = some p → s = t

def empty : Memory σ κ where
  slot _ := none
  heap := []
  inside _ _ h := by cases h

/-- Pointers move: a place gets the one of its origin, or none. -/
def relocate (origin : σ → Option σ) : Memory σ κ where
  slot t := (origin t).bind M.slot
  heap := M.heap
  inside t p h := by
    obtain ⟨s, -, there⟩ := Option.bind_eq_some_iff.mp h
    exact M.inside s p there

/-- Write through the pointer of a place. -/
def write (s : σ) (f : κ → κ) : Memory σ κ where
  slot := M.slot
  heap := (M.slot s).elim M.heap (M.heap.modify · f)
  inside u p h := by
    have inside := M.inside u p h
    cases M.slot s with
    | none => exact inside
    | some q => rwa [Option.elim_some, List.length_modify]

/-- Drop the pointers of some places. -/
def drop (gone : σ → Prop) [DecidablePred gone] : Memory σ κ :=
  M.relocate fun u => if gone u then none else some u

variable [DecidableEq σ]

/-- Drop the pointer of a place. -/
def clear (t : σ) : Memory σ κ := M.drop (· = t)

/-- A fresh object in a place. -/
def adopt (t : σ) (k : κ) : Memory σ κ where
  slot := Function.update M.slot t (some M.heap.length)
  heap := M.heap ++ [k]
  inside u p h := by
    rw [List.length_append, List.length_singleton]
    by_cases same : u = t
    · subst same
      rw [Function.update_self, Option.some.injEq] at h
      omega
    · rw [Function.update_of_ne same] at h
      exact Nat.lt_succ_of_lt (M.inside u p h)

/-- A fresh object, or nothing, in a place. -/
def place (t : σ) : Option κ → Memory σ κ
  | none => M.clear t
  | some k => M.adopt t k

/-- One place points where another does. -/
def share (t s : σ) : Memory σ κ where
  slot := Function.update M.slot t (M.slot s)
  heap := M.heap
  inside u p h := by
    by_cases same : u = t
    · subst same
      rw [Function.update_self] at h
      exact M.inside s p h
    · rw [Function.update_of_ne same] at h
      exact M.inside u p h

/-! ### Pointers -/

section Pointers

variable {M}

omit [DecidableEq σ] in
theorem slot_drop (gone : σ → Prop) [DecidablePred gone] (u : σ) :
    (M.drop gone).slot u = if gone u then none else M.slot u := by
  simp only [drop, relocate]
  split <;> rfl

theorem slot_adopt (t u : σ) (k : κ) :
    (M.adopt t k).slot u = if u = t then some M.heap.length else M.slot u :=
  Function.update_apply M.slot t _ u

theorem slot_share (t s u : σ) :
    (M.share t s).slot u = if u = t then M.slot s else M.slot u :=
  Function.update_apply M.slot t _ u

end Pointers

/-! ### Contents -/

section Content

variable {M} {s t u : σ} {f : κ → κ}

omit [DecidableEq σ]

theorem content_eq_none_iff : M.content s = none ↔ M.slot s = none := by
  unfold content
  cases here : M.slot s with
  | none => simp
  | some p => simpa using M.inside s p here

@[simp] theorem content_relocate (origin : σ → Option σ) :
    (M.relocate origin).content t = (origin t).bind M.content := by
  unfold content
  cases here : origin t <;> simp [relocate, here]

theorem content_drop (gone : σ → Prop) [DecidablePred gone] (u : σ) :
    (M.drop gone).content u = if gone u then none else M.content u := by
  rw [drop, content_relocate]
  split <;> rfl

/-- A write is seen only through pointers to the object written. -/
theorem content_write_of_ne (different : ∀ p, M.slot s = some p → M.slot u ≠ some p) :
    (M.write s f).content u = M.content u := by
  simp only [content, write]
  cases there : M.slot s with
  | none => rfl
  | some p =>
      cases here : M.slot u with
      | none => rfl
      | some q =>
          have apart : p ≠ q := by
            rintro rfl
            exact different p there here
          simpa using List.getElem?_modify_ne f M.heap apart

variable [DecidableEq σ]

theorem content_adopt (t u : σ) (k : κ) :
    (M.adopt t k).content u = if u = t then some k else M.content u := by
  by_cases same : u = t
  · subst same
    simp [content, adopt]
  · simp only [content, adopt, Function.update_of_ne same, if_neg same]
    cases here : M.slot u with
    | none => rfl
    | some p => simp [List.getElem?_append_left (M.inside u p here)]

theorem content_place (t u : σ) (k : Option κ) :
    (M.place t k).content u = if u = t then k else M.content u := by
  cases k with
  | none => exact content_drop (· = t) u
  | some k => exact content_adopt t u k

theorem content_share (t s u : σ) :
    (M.share t s).content u = if u = t then M.content s else M.content u := by
  by_cases same : u = t
  · subst same
    simp [content, share]
  · simp [content, share, same]

end Content

/-! ### What is shared -/

section Sharing

variable {M} {A B : Set σ} {s t : σ}

omit [DecidableEq σ]

theorem apart_empty_iff : M.Apart ∅ ↔ M.Separated := by
  simp [Apart, Separated]

theorem Apart.mono (sub : A ⊆ B) (apart : M.Apart A) : M.Apart B := fun s t p hs ht =>
  (apart s t p hs ht).imp_right fun both => ⟨sub both.1, sub both.2⟩

theorem separated_empty : (empty : Memory σ κ).Separated := by
  intro s t p hs
  cases hs

/-- Pointers that move to places of their own stay apart. -/
theorem Separated.relocate {origin : σ → Option σ}
    (injective : ∀ u w x, origin u = some x → origin w = some x → u = w)
    (separated : M.Separated) : (M.relocate origin).Separated := by
  intro u w p hu hw
  obtain ⟨x, fromX, atX⟩ := Option.bind_eq_some_iff.mp hu
  obtain ⟨y, fromY, atY⟩ := Option.bind_eq_some_iff.mp hw
  obtain rfl := separated x y p atX atY
  exact injective u w x fromX fromY

theorem Apart.drop (apart : M.Apart A) (gone : σ → Prop) [DecidablePred gone] :
    (M.drop gone).Apart A := by
  intro u w p hu hw
  rw [slot_drop] at hu hw
  split at hu
  · cases hu
  · split at hw
    · cases hw
    · exact apart u w p hu hw

/-- Nothing is shared any more once one of the two pointers is dropped. -/
theorem Apart.drop_one {gone : σ → Prop} [DecidablePred gone] (dropped : gone s)
    (apart : M.Apart {t, s}) : (M.drop gone).Separated := by
  intro u w p hu hw
  rw [slot_drop] at hu hw
  split at hu
  · cases hu
  · next uNe =>
      split at hw
      · cases hw
      · next wNe =>
          rcases apart u w p hu hw with same | ⟨inU, inW⟩
          · exact same
          · rw [Set.mem_insert_iff, Set.mem_singleton_iff] at inU inW
            rw [inU.resolve_right fun eq => uNe (eq ▸ dropped),
              inW.resolve_right fun eq => wNe (eq ▸ dropped)]

theorem Apart.write (apart : M.Apart A) (s : σ) (f : κ → κ) : (M.write s f).Apart A := apart

variable [DecidableEq σ]

theorem Apart.adopt (apart : M.Apart A) (t : σ) (k : κ) : (M.adopt t k).Apart A := by
  -- The object is fresh: no other place points to it.
  have fresh : ∀ u, M.slot u ≠ some M.heap.length := fun u there => (M.inside u _ there).ne rfl
  intro u w p hu hw
  rw [slot_adopt] at hu hw
  by_cases atU : u = t <;> by_cases atW : w = t
  · exact .inl (atU.trans atW.symm)
  · rw [if_pos atU] at hu
    rw [if_neg atW, ← hu] at hw
    exact absurd hw (fresh w)
  · rw [if_pos atW] at hw
    rw [if_neg atU, ← hw] at hu
    exact absurd hu (fresh u)
  · rw [if_neg atU] at hu
    rw [if_neg atW] at hw
    exact apart u w p hu hw

theorem Apart.place (apart : M.Apart A) (t : σ) (k : Option κ) : (M.place t k).Apart A := by
  cases k with
  | none => exact apart.drop (· = t)
  | some k => exact apart.adopt t k

/-- What a second pointer shares it shares with its origin. -/
theorem Separated.share (separated : M.Separated) (t s : σ) : (M.share t s).Apart {t, s} := by
  intro u w p hu hw
  rw [slot_share] at hu hw
  by_cases atU : u = t <;> by_cases atW : w = t
  · exact .inl (atU.trans atW.symm)
  · rw [if_pos atU] at hu
    rw [if_neg atW] at hw
    simp [atU, separated w s p hw hu]
  · rw [if_neg atU] at hu
    rw [if_pos atW] at hw
    simp [atW, separated u s p hu hw]
  · rw [if_neg atU] at hu
    rw [if_neg atW] at hw
    exact .inl (separated u w p hu hw)

/-- A second pointer is harmless only when there is nothing it points to. -/
theorem separated_share_iff (separated : M.Separated) (ne : t ≠ s) :
    (M.share t s).Separated ↔ M.content s = none := by
  rw [content_eq_none_iff]
  constructor
  · intro still
    by_contra something
    obtain ⟨p, here⟩ := Option.ne_none_iff_exists'.mp something
    refine ne (still t s p ?_ ?_)
    · rw [slot_share, if_pos rfl, here]
    · rw [slot_share, if_neg ne.symm, here]
  · intro nothing u w p hu hw
    rw [slot_share, nothing] at hu hw
    split at hu
    · cases hu
    · split at hw
      · cases hw
      · exact separated u w p hu hw

end Sharing

end Memory

/-! ### Steps that compose -/

/-- `N` is reached from `M` by something that only places in `T` can see: if what shares an
object in `M` is in `A`, what shares one in `N` is in `B`. -/
structure Reaches {σ κ : Type} (A B T : Set σ) (M N : Memory σ κ) : Prop where
  apart : M.Apart A → N.Apart B
  frame : M.Apart A → ∀ u ∉ T, N.content u = M.content u

namespace Reaches

variable {σ κ : Type} {A B C T U : Set σ} {M N O : Memory σ κ}

theorem refl (A T : Set σ) (M : Memory σ κ) : Reaches A A T M M :=
  ⟨id, fun _ _ _ => rfl⟩

theorem trans (first : Reaches A B T M N) (second : Reaches B C T N O) : Reaches A C T M O where
  apart h := second.apart (first.apart h)
  frame h u hu := (second.frame (first.apart h) u hu).trans (first.frame h u hu)

theorem mono (shared : B ⊆ C) (seen : T ⊆ U) (reaches : Reaches A B T M N) :
    Reaches A C U M N where
  apart h := (reaches.apart h).mono shared
  frame h u hu := reaches.frame h u fun inT => hu (seen inT)

theorem relocate {origin : σ → Option σ}
    (injective : ∀ u w x, origin u = some x → origin w = some x → u = w)
    (still : ∀ u ∉ T, origin u = some u) : Reaches ∅ ∅ T M (M.relocate origin) where
  apart h := Memory.apart_empty_iff.mpr ((Memory.apart_empty_iff.mp h).relocate injective)
  frame _ u hu := by
    rw [Memory.content_relocate, still u hu]
    rfl

theorem drop {gone : σ → Prop} [DecidablePred gone] (sub : ∀ t, gone t → t ∈ T) :
    Reaches A A T M (M.drop gone) where
  apart h := h.drop gone
  frame _ u hu := by rw [Memory.content_drop, if_neg fun isGone => hu (sub u isGone)]

theorem drop_one {gone : σ → Prop} [DecidablePred gone] {t s : σ} (dropped : gone s)
    (sub : ∀ t, gone t → t ∈ T) : Reaches {t, s} ∅ T M (M.drop gone) where
  apart h := Memory.apart_empty_iff.mpr (h.drop_one dropped)
  frame _ u hu := by rw [Memory.content_drop, if_neg fun isGone => hu (sub u isGone)]

/-- A write through a place in `T` is seen in `T` only, if what is shared is in `T`. -/
theorem write {s : σ} (mem : s ∈ T) (sub : A ⊆ T) (f : κ → κ) :
    Reaches A A T M (M.write s f) where
  apart h := h.write s f
  frame h u hu := by
    refine Memory.content_write_of_ne fun p there here => ?_
    rcases h s u p there here with rfl | ⟨-, inA⟩
    · exact hu mem
    · exact hu (sub inA)

variable [DecidableEq σ]

theorem place {t : σ} (mem : t ∈ T) (k : Option κ) : Reaches A A T M (M.place t k) where
  apart h := h.place t k
  frame _ u hu := by
    rw [Memory.content_place, if_neg]
    rintro rfl
    exact hu mem

theorem share {t s : σ} (mem : t ∈ T) : Reaches ∅ {t, s} T M (M.share t s) where
  apart h := (Memory.apart_empty_iff.mp h).share t s
  frame _ u hu := by
    rw [Memory.content_share, if_neg]
    rintro rfl
    exact hu mem

end Reaches

end Nlcpp.Alias
