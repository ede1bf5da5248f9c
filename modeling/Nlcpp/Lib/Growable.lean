import Mathlib.Data.Nat.Notation
import Mathlib.Data.List.Basic

/-!
Growable arrays whose buffer moves when they run out of room, and loops over them.

A loop keeps iterators into the buffer it started on. It may go on as long as the
array still has that buffer (`Growable.Holds`). Appending moves the buffer exactly
when there is no room left (`push_buffer_iff`), and a buffer left behind never comes
back (`buffer_le_push`).
-/

namespace Nlcpp

/-- The elements, the number of elements that fit, and which buffer holds them. -/
structure Growable (α : Type) where
  elems : List α
  capacity : ℕ
  buffer : ℕ
  fits : elems.length ≤ capacity
deriving DecidableEq, Repr

/-- The iterators of a loop: the buffer they point into, the next element and the
end. -/
structure Range where
  buffer : ℕ
  next : ℕ
  stop : ℕ
deriving DecidableEq, Repr

namespace Growable

variable {α : Type}

/-- No elements, and no buffer allocated for any. -/
def empty : Growable α := ⟨[], 0, 0, Nat.le_refl 0⟩

/-- There is room for another element. -/
def HasRoom (v : Growable α) : Prop := v.elems.length < v.capacity

instance (v : Growable α) : Decidable v.HasRoom :=
  inferInstanceAs (Decidable (v.elems.length < v.capacity))

/-- Append an element. Without room the elements move to a new buffer, whose capacity
`growth` chooses. -/
def push (growth : ℕ → ℕ) (v : Growable α) (a : α) : Growable α :=
  if room : v.HasRoom then
    { v with elems := v.elems ++ [a], fits := by rw [List.length_append]; exact room }
  else
    { elems := v.elems ++ [a]
      capacity := max (v.elems.length + 1) (growth v.capacity)
      buffer := v.buffer + 1
      fits := by rw [List.length_append]; exact Nat.le_max_left _ _ }

/-- The iterators of a loop that starts now. -/
def range (v : Growable α) : Range := ⟨v.buffer, 0, v.elems.length⟩

/-- The iterators point into the buffer that the array has. -/
def Holds (v : Growable α) (r : Range) : Prop := r.buffer = v.buffer

instance (v : Growable α) (r : Range) : Decidable (v.Holds r) :=
  inferInstanceAs (Decidable (r.buffer = v.buffer))

variable (growth : ℕ → ℕ) (v : Growable α) (a : α)

@[simp] theorem push_elems : (v.push growth a).elems = v.elems ++ [a] := by
  unfold push
  split <;> rfl

/-- Appending keeps the buffer exactly when there is room. -/
theorem push_buffer_iff : (v.push growth a).buffer = v.buffer ↔ v.HasRoom := by
  unfold push
  split
  · next room => exact iff_of_true rfl room
  · next room => exact iff_of_false (Nat.succ_ne_self _) room

/-- Buffers are used up in order. -/
theorem buffer_le_push : v.buffer ≤ (v.push growth a).buffer := by
  unfold push
  split
  · exact Nat.le_refl _
  · exact Nat.le_succ _

/-- Without room, every buffer so far is left behind. -/
theorem buffer_lt_push (full : ¬v.HasRoom) : v.buffer < (v.push growth a).buffer := by
  apply Nat.lt_of_le_of_ne (buffer_le_push growth v a)
  intro same
  exact full ((push_buffer_iff growth v a).mp same.symm)

end Growable

end Nlcpp
