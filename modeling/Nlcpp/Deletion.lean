import Mathlib.Data.List.Count
import Nlcpp.Exception

/-!
`RouteSocket::del(const RouteAddress &)` on the kernel's table of addresses.

One call sends one request, and a request deletes the first address that matches the
pattern. So each call that returns true leaves one match less (`countP_del`), and the call
deletes all matches exactly when there is at most one (`deletes_all_iff`).
-/

namespace Nlcpp.RouteSocket

variable {α : Type} (matched : α → Bool) (table : List α)

/-- `rtnl_addr_delete`: the first address that matches is deleted, if there is one. -/
def rtnl_addr_delete : ℤ × List α :=
  if table.any matched then (0, table.eraseP matched) else (-(NLE_NOADDR : ℤ), table)

/-- `RouteSocket::del(const RouteAddress &)`, with the table after it. -/
def del : Except Exception Bool × List α :=
  let (err, table) := rtnl_addr_delete matched table
  if err = -(NLE_NOADDR : ℤ) then (.ok false, table)
  else match Exception.throwCode "rtnl_addr_delete failed" err with
    | .ok () => (.ok true, table)
    | .error e => (.error e, table)

/-- What the documentation says of the call: all addresses matched are deleted and no
other, and the result says whether there were any. -/
structure DeletesAll : Prop where
  gone : (del matched table).1 = .ok true → ∀ a ∈ (del matched table).2, matched a = false
  others : ∀ a ∈ table, matched a = false → a ∈ (del matched table).2
  false_iff : (del matched table).1 = .ok false ↔ ∀ a ∈ table, matched a = false
  unchanged : (del matched table).1 = .ok false → (del matched table).2 = table
  again : (del matched table).1 = .ok true →
    (del matched (del matched table).2).1 = .ok false

variable {matched table}

/-- With a match, the first one is deleted. -/
theorem del_of_match {a : α} (mem : a ∈ table) (matches_a : matched a = true) :
    del matched table = (.ok true, table.eraseP matched) := by
  have found : table.any matched = true := List.any_eq_true.mpr ⟨a, mem, matches_a⟩
  simp [del, rtnl_addr_delete, found, NLE_NOADDR]

/-- Without one, nothing happens. -/
theorem del_of_none (none : ∀ a ∈ table, matched a = false) :
    del matched table = (.ok false, table) := by
  have missing : table.any matched = false := List.any_eq_false.mpr (by simpa using none)
  simp [del, rtnl_addr_delete, missing]

theorem exists_or_none (matched : α → Bool) (table : List α) :
    (∃ a ∈ table, matched a = true) ∨ ∀ a ∈ table, matched a = false := by
  by_cases found : ∃ a ∈ table, matched a = true
  · exact .inl found
  · exact .inr fun a mem => Bool.eq_false_iff.mpr fun here => found ⟨a, mem, here⟩

/-- The call returns false exactly when no address matches. -/
theorem del_false_iff :
    (del matched table).1 = .ok false ↔ ∀ a ∈ table, matched a = false := by
  rcases exists_or_none matched table with ⟨a, mem, here⟩ | none
  · rw [del_of_match mem here]
    constructor
    · intro same
      cases same
    · intro none
      rw [none a mem] at here
      cases here
  · rw [del_of_none none]
    exact ⟨fun _ => none, fun _ => rfl⟩

/-- A call that returns true leaves one match less. -/
theorem countP_del (deleted : (del matched table).1 = .ok true) :
    (del matched table).2.countP matched + 1 = table.countP matched := by
  rcases exists_or_none matched table with ⟨a, mem, here⟩ | none
  · obtain ⟨b, front, back, -, matched_b, rfl, erased⟩ := List.exists_of_eraseP mem here
    rw [del_of_match mem here, erased]
    simp [List.countP_append, matched_b]
    omega
  · rw [del_of_none none] at deleted
    cases deleted

theorem del_keeps {a : α} (mem : a ∈ table) (other : matched a = false) :
    a ∈ (del matched table).2 := by
  rcases exists_or_none matched table with ⟨b, mem_b, here⟩ | none
  · rw [del_of_match mem_b here]
    exact (List.mem_eraseP_of_neg (by simp [other])).mpr mem
  · rw [del_of_none none]
    exact mem

/-- **All matches are deleted** exactly when at most one address matches. -/
theorem deletes_all_iff (matched : α → Bool) (table : List α) :
    DeletesAll matched table ↔ table.countP matched ≤ 1 := by
  constructor
  · intro all
    rcases exists_or_none matched table with ⟨a, mem, here⟩ | none
    · have deleted : (del matched table).1 = .ok true := by rw [del_of_match mem here]
      have rest : (del matched table).2.countP matched = 0 :=
        List.countP_eq_zero.mpr fun b mem => by simp [all.gone deleted b mem]
      have one := countP_del deleted
      omega
    · rw [List.countP_eq_zero.mpr fun a mem => by simp [none a mem]]
      exact Nat.zero_le 1
  · intro few
    have gone (deleted : (del matched table).1 = .ok true) :
        ∀ a ∈ (del matched table).2, matched a = false := by
      have less := countP_del deleted
      have zero : (del matched table).2.countP matched = 0 := by omega
      exact fun a mem => Bool.eq_false_iff.mpr (List.countP_eq_zero.mp zero a mem)
    exact {
      gone
      others := fun _ => del_keeps
      false_iff := del_false_iff
      unchanged := fun nothing => by rw [del_of_none (del_false_iff.mp nothing)]
      again := fun deleted => del_false_iff.mpr (gone deleted) }

/-- Two addresses of interface 2 and a pattern for the interface: the call returns true, one
of them is left, and the second call returns true again. -/
theorem second_match_stays :
    del (fun a : ℕ × ℕ => a.1 = 2) [(2, 10), (2, 11), (3, 12)] = (.ok true, [(2, 11), (3, 12)]) ∧
      del (fun a : ℕ × ℕ => a.1 = 2) [(2, 11), (3, 12)] = (.ok true, [(3, 12)]) ∧
      ¬DeletesAll (fun a : ℕ × ℕ => a.1 = 2) [(2, 10), (2, 11), (3, 12)] := by
  refine ⟨rfl, rfl, fun all => ?_⟩
  have left := all.gone rfl (2, 11) (List.mem_cons_self)
  cases left

end Nlcpp.RouteSocket
