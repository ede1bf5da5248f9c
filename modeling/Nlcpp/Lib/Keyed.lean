import Mathlib.Data.List.Nodup

/-!
Tables of elements with a key each, as lists.

`keys` says which keys there are. A table whose keys are distinct stays so when an element
with a new key is added, when one is erased, and when one is replaced by another that has
its key or a new one; and the keys after it are those that one expects.
-/

namespace Nlcpp.Keyed

variable {α κ : Type} [DecidableEq κ] (key : α → κ)

def keys (table : List α) : List κ := table.map key

/-- No two elements have the same key. -/
def Distinct (table : List α) : Prop := (keys key table).Nodup

/-- The table without the first element that has this key. -/
def erase (k : κ) (table : List α) : List α := table.eraseP fun a => key a = k

/-- The table with this element in place of those that have the key. -/
def replace (k : κ) (b : α) (table : List α) : List α :=
  table.map fun a => if key a = k then b else a

variable {key} {table : List α} {k j : κ} {b : α}

omit [DecidableEq κ] in
theorem keys_append : keys key (table ++ [b]) = keys key table ++ [key b] :=
  List.map_append

theorem keys_erase : keys key (erase key k table) = (keys key table).erase k := by
  rw [keys, keys, erase, List.erase_eq_eraseP, List.eraseP_map]
  congr 2
  funext a
  rw [Function.comp_apply, Bool.beq_eq_decide_eq]
  exact decide_eq_decide.mpr ⟨Eq.symm, Eq.symm⟩

theorem keys_replace :
    keys key (replace key k b table) =
      (keys key table).map fun j => if j = k then key b else j := by
  rw [keys, keys, replace, List.map_map, List.map_map]
  refine List.map_congr_left fun a _ => ?_
  simp only [Function.comp_apply]
  split <;> rfl

omit [DecidableEq κ] in
theorem Distinct.append (distinct : Distinct key table) (fresh : key b ∉ keys key table) :
    Distinct key (table ++ [b]) := by
  rw [Distinct, keys_append]
  exact List.nodup_append.mpr ⟨distinct, List.nodup_singleton _, fun j mem j' mem' => by
    rw [List.mem_singleton.mp mem']
    rintro rfl
    exact fresh mem⟩

theorem Distinct.erase (distinct : Distinct key table) : Distinct key (erase key k table) := by
  rw [Distinct, keys_erase]
  exact List.Nodup.erase k distinct

theorem Distinct.mem_erase (distinct : Distinct key table) :
    j ∈ keys key (Keyed.erase key k table) ↔ j ≠ k ∧ j ∈ keys key table := by
  rw [keys_erase]
  exact List.Nodup.mem_erase_iff distinct

theorem length_erase (present : k ∈ keys key table) :
    (erase key k table).length + 1 = table.length := by
  have positive := List.length_pos_of_mem present
  have shorter := List.length_erase_of_mem present
  rw [← keys_erase, keys, keys, List.length_map, List.length_map] at shorter
  rw [keys, List.length_map] at positive
  omega

theorem mem_replace (present : k ∈ keys key table) :
    j ∈ keys key (replace key k b table) ↔ j = key b ∨ j ≠ k ∧ j ∈ keys key table := by
  rw [keys_replace, List.mem_map]
  constructor
  · rintro ⟨i, mem, same⟩
    by_cases here : i = k
    · rw [if_pos here] at same
      exact .inl same.symm
    · rw [if_neg here] at same
      exact .inr ⟨same ▸ here, same ▸ mem⟩
  · rintro (rfl | ⟨other, mem⟩)
    · exact ⟨k, present, if_pos rfl⟩
    · exact ⟨j, mem, if_neg other⟩

/-- An element may be replaced by one that has its key, or a key that is new. -/
theorem Distinct.replace (distinct : Distinct key table)
    (fits : key b = k ∨ key b ∉ keys key table) : Distinct key (replace key k b table) := by
  rw [Distinct, keys_replace]
  refine List.Nodup.map_on (fun i memI j memJ same => ?_) distinct
  by_cases hereI : i = k
  · by_cases hereJ : j = k
    · rw [hereI, hereJ]
    · rw [if_pos hereI, if_neg hereJ] at same
      rcases fits with own | fresh
      · exact absurd (same.symm.trans own) hereJ
      · exact absurd (same ▸ memJ) fresh
  · by_cases hereJ : j = k
    · rw [if_neg hereI, if_pos hereJ] at same
      rcases fits with own | fresh
      · exact absurd (same.trans own) hereI
      · exact absurd (same ▸ memI) fresh
    · rwa [if_neg hereI, if_neg hereJ] at same

end Nlcpp.Keyed
