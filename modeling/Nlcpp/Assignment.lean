import Nlcpp.Exception
import Nlcpp.Lib.Refcount

/-!
The copy assignments of `Address` and `NextHop`.

Both give up the object that is held before they ask libnl for a copy. `assign` is the
common body, over the pointer fields of any number of wrappers, which may share an object;
`all_or_nothing_iff` says when it is all or nothing.
-/

namespace Nlcpp.Assignment

/-- The objects of one raw type in a heap `H`: how often each is counted (0 when it is not
there), what it says, and libnl's functions that clone it and give up a reference. -/
structure Objects (H V : Type) where
  count : H → ℕ → ℕ
  value : H → ℕ → V
  /-- `nl_addr_clone`, `rtnl_route_nh_clone`: NULL when there is no memory. -/
  clone : ℕ → H → Option ℕ × H
  /-- `nl_addr_put`, `rtnl_route_nh_free`. -/
  put : ℕ → H → H
  clone_new : ∀ p h q h', clone p h = (some q, h') → count h q = 0 ∧
    count h' = Function.update (count h) q 1 ∧
      (count h p ≠ 0 → value h' q = value h p) ∧ ∀ r, count h r ≠ 0 → value h' r = value h r
  clone_failed : ∀ p h h', clone p h = (none, h') →
    count h' = count h ∧ ∀ r, count h r ≠ 0 → value h' r = value h r
  put_subtracts : ∀ p h, count h p ≠ 0 →
    count (put p h) = Function.update (count h) p (count h p - 1) ∧
      ∀ r, count (put p h) r ≠ 0 → value (put p h) r = value h r

/-- The heap, the pointer fields of all wrappers, and the references held elsewhere. -/
structure Store (H : Type) where
  heap : H
  fields : List (Option ℕ)
  outside : ℕ → ℕ

/-- How an assignment ends; `undefined` when libnl was given a NULL pointer to copy. -/
inductive End where
  | returned
  | threw (e : Thrown)
  | undefined
deriving DecidableEq, Repr

variable {H V : Type} (O : Objects H V)

namespace Store

variable (s : Store H)

/-- The pointer that a wrapper holds. -/
def field (i : ℕ) : Option ℕ := s.fields[i]?.join

/-- What a wrapper holds, when it holds an object that is there. -/
def held (i : ℕ) : Option V :=
  (s.field i).bind fun p => if O.count s.heap p = 0 then none else some (O.value s.heap p)

/-- Every object is counted as often as it is held. -/
def Sound : Prop := Refcount.Balanced (O.count s.heap) s.outside s.fields

/-- `put(field)`; what the field holds is not looked at again. -/
def put (i : ℕ) : Store H :=
  match s.field i with
  | some p => { s with heap := O.put p s.heap, fields := s.fields.set i none }
  | none => s

/-- `field = clone(raw)`. -/
def cloneInto (i raw : ℕ) : Store H :=
  { s with heap := (O.clone raw s.heap).2, fields := s.fields.set i (O.clone raw s.heap).1 }

end Store

/-- `operator=(const T &)`; the text is that of the exception, where there is one. -/
def assign (text : Option String) (s : Store H) (this other : ℕ) : End × Store H :=
  if this = other then (.returned, s)
  else
    match s.field other with
    | none => (.undefined, s.put O this)
    | some raw =>
      let s := (s.put O this).cloneInto O this raw
      match s.field this, text with
      | none, some text => (.threw (.runtimeError text), s)
      | _, _ => (.returned, s)

/-- `Address::operator=(const Address &)`. -/
def Address.assign : Store H → ℕ → ℕ → End × Store H := Assignment.assign O none

/-- `NextHop::operator=(const NextHop &)`; it tests for NULL where `nl_addr_put` does. -/
def NextHop.assign : Store H → ℕ → ℕ → End × Store H :=
  Assignment.assign O (some "Failed to clone route netlink nexthop")

/-- The assignment returned with an independent copy in `this`, or threw with `this` as
before; `other` is as before. -/
def AllOrNothing (s : Store H) (this other : ℕ) (result : End × Store H) : Prop :=
  (match result.1 with
    | .returned => ∃ q, result.2.field this = some q ∧ result.2.held O this = s.held O other ∧
        (this ≠ other → O.count result.2.heap q = 1 ∧ result.2.field other ≠ some q)
    | .threw _ => result.2.field this = s.field this ∧ result.2.held O this = s.held O this
    | .undefined => False) ∧
    result.2.field other = s.field other ∧ result.2.held O other = s.held O other

/-- There is memory for the copy, once what `this` holds has been given up. -/
def Clones (s : Store H) (this other : ℕ) : Prop :=
  ∃ raw, s.field other = some raw ∧ (O.clone raw (s.put O this).heap).1.isSome

/-! ### The two halves -/

namespace Store

variable {O} {s : Store H} {i j : ℕ}

theorem lt_of_field {p : ℕ} (here : s.field i = some p) : i < s.fields.length := by
  by_contra out
  rw [field, List.getElem?_eq_none (Nat.le_of_not_lt out)] at here
  cases here

theorem at_of_field {p : ℕ} (here : s.field i = some p) : s.fields[i]? = some (some p) := by
  have inside := lt_of_field here
  rw [field, List.getElem?_eq_getElem inside] at here
  rw [List.getElem?_eq_getElem inside]
  exact congrArg some here

theorem Sound.there (sound : s.Sound O) {p : ℕ} (here : s.field i = some p) :
    O.count s.heap p ≠ 0 :=
  Refcount.Balanced.counted sound (at_of_field here)

theorem Sound.held_eq (sound : s.Sound O) {p : ℕ} (here : s.field i = some p) :
    s.held O i = some (O.value s.heap p) := by
  rw [held, here, Option.bind_some, if_neg (sound.there here)]

theorem held_none (empty : s.field i = none) : s.held O i = none := by
  rw [held, empty, Option.bind_none]

theorem field_set_self (inside : i < s.fields.length) (p : Option ℕ) (heap : H) :
    ({ s with heap, fields := s.fields.set i p } : Store H).field i = p := by
  simp [field, inside]

theorem field_set_ne (other : i ≠ j) (p : Option ℕ) (heap : H) :
    ({ s with heap, fields := s.fields.set i p } : Store H).field j = s.field j := by
  rw [field, field, List.getElem?_set_ne other]

/-- What a field holds is still held when the objects that are counted have kept their
values. -/
theorem held_congr {t : Store H} (sound : s.Sound O) (sound' : t.Sound O)
    (same : t.field j = s.field j) (kept : ∀ r, O.count s.heap r ≠ 0 → O.count t.heap r ≠ 0 →
      O.value t.heap r = O.value s.heap r) : t.held O j = s.held O j := by
  cases here : s.field j with
  | none => rw [held_none here, held_none (same.trans here)]
  | some p =>
      have here' := same.trans here
      rw [sound.held_eq here, sound'.held_eq here',
        kept p (sound.there here) (sound'.there here')]

/-- What is left when a wrapper has given up its object. -/
structure Emptied (O : Objects H V) (s t : Store H) (i : ℕ) : Prop where
  sound : t.Sound O
  empty : t.field i = none
  inside : i < t.fields.length
  others : ∀ j, i ≠ j → t.field j = s.field j
  held : ∀ j, i ≠ j → t.held O j = s.held O j

theorem put_emptied (sound : s.Sound O) (inside : i < s.fields.length) :
    Emptied O s (s.put O i) i := by
  cases here : s.field i with
  | none =>
      rw [put, here]
      exact ⟨sound, here, inside, fun _ _ => rfl, fun _ _ => rfl⟩
  | some p =>
      obtain ⟨less, kept⟩ := O.put_subtracts p s.heap (sound.there here)
      have sound' : (s.put O i).Sound O := by
        rw [Sound, put, here]
        simp only [less]
        exact Refcount.Balanced.release sound (at_of_field here)
      have others (j : ℕ) (other : i ≠ j) : (s.put O i).field j = s.field j := by
        rw [put, here]
        exact field_set_ne other none _
      refine ⟨sound', ?_, ?_, others, fun j other => held_congr sound sound' (others j other) ?_⟩
      · rw [put, here]
        exact field_set_self inside none _
      · rw [put, here]
        simpa using inside
      · rw [put, here]
        exact fun r _ => kept r

/-- Without memory the field stays empty. -/
theorem Emptied.cloneInto_failed {t : Store H} (emptied : Emptied O s t i) {raw : ℕ}
    (failed : (O.clone raw t.heap).1 = none) : Emptied O s (t.cloneInto O i raw) i := by
  obtain ⟨same, kept⟩ := O.clone_failed raw t.heap (O.clone raw t.heap).2 (Prod.ext failed rfl)
  have nothing : t.fields.set i none = t.fields := by
    refine List.ext_getElem? fun k => ?_
    by_cases here : i = k
    · subst here
      have empty := emptied.empty
      rw [field, List.getElem?_eq_getElem emptied.inside] at empty
      rw [List.getElem?_set_self emptied.inside, List.getElem?_eq_getElem emptied.inside]
      exact congrArg some empty.symm
    · rw [List.getElem?_set_ne here]
  have sound : (t.cloneInto O i raw).Sound O := by
    rw [Sound, cloneInto, failed]
    simp only [same, nothing]
    exact emptied.sound
  have others (j : ℕ) (other : i ≠ j) : (t.cloneInto O i raw).field j = t.field j :=
    field_set_ne other _ _
  refine ⟨sound, ?_, by simpa [cloneInto] using emptied.inside,
    fun j other => (others j other).trans (emptied.others j other), fun j other => ?_⟩
  · rw [cloneInto, failed]
    exact field_set_self emptied.inside none _
  · rw [← emptied.held j other]
    exact held_congr emptied.sound sound (others j other) fun r there _ => kept r there

/-- A wrapper that has been given a copy of what another one holds. -/
structure Copied (O : Objects H V) (s t : Store H) (i j : ℕ) : Prop where
  sound : t.Sound O
  own : ∃ q, t.field i = some q ∧ O.count t.heap q = 1 ∧ t.field j ≠ some q
  held : t.held O i = s.held O j
  other_field : t.field j = s.field j
  other_held : t.held O j = s.held O j

/-- With memory the field holds a new object with the same value. -/
theorem Emptied.cloneInto_copied {t : Store H} (emptied : Emptied O s t i) (other : i ≠ j)
    {raw : ℕ} (here : s.field j = some raw) (cloned : (O.clone raw t.heap).1.isSome) :
    Copied O s (t.cloneInto O i raw) i j := by
  obtain ⟨q, new⟩ := Option.isSome_iff_exists.mp cloned
  obtain ⟨free, counted, copied, kept⟩ :=
    O.clone_new raw t.heap q (O.clone raw t.heap).2 (Prod.ext new rfl)
  have here' : t.field j = some raw := (emptied.others j other).trans here
  have there : O.count t.heap raw ≠ 0 := emptied.sound.there here'
  have empty : t.fields[i]? = some none := by
    have nothing := emptied.empty
    rw [field, List.getElem?_eq_getElem emptied.inside] at nothing
    rw [List.getElem?_eq_getElem emptied.inside]
    exact congrArg some nothing
  have sound' : (t.cloneInto O i raw).Sound O := by
    have acquired := Refcount.Balanced.acquire emptied.sound empty (o := q)
    rw [free, Nat.zero_add] at acquired
    rw [Sound, cloneInto, new]
    simp only [counted]
    exact acquired
  have field_i : (t.cloneInto O i raw).field i = some q := by
    rw [cloneInto, new]
    exact field_set_self emptied.inside (some q) _
  have field_j : (t.cloneInto O i raw).field j = t.field j := field_set_ne other _ _
  refine ⟨sound', ⟨q, field_i, ?_, ?_⟩, ?_, field_j.trans (emptied.others j other), ?_⟩
  · simp only [cloneInto, counted, Function.update_self]
  · -- The clone is a new object, and the other one was there before.
    rw [field_j, here']
    exact fun same => there (Option.some.inj same ▸ free)
  · rw [sound'.held_eq field_i, ← emptied.held j other, emptied.sound.held_eq here']
    exact congrArg some (copied there)
  · rw [← emptied.held j other]
    exact held_congr emptied.sound sound' field_j fun r there _ => kept r there

end Store

/-! ### When an assignment is all or nothing -/

section Assign

variable {O} {s : Store H} {this other : ℕ} (text : Option String)

theorem assign_self (s : Store H) (this : ℕ) : assign O text s this this = (.returned, s) :=
  if_pos rfl

theorem assign_empty (distinct : this ≠ other) (empty : s.field other = none) :
    assign O text s this other = (.undefined, s.put O this) := by
  rw [assign, if_neg distinct, empty]

/-- With memory, the assignment returns. -/
theorem assign_copies (distinct : this ≠ other) {raw q : ℕ} (here : s.field other = some raw)
    (filled : ((s.put O this).cloneInto O this raw).field this = some q) :
    assign O text s this other = (.returned, (s.put O this).cloneInto O this raw) := by
  rw [assign, if_neg distinct, here]
  simp only [filled]

/-- Without memory it returns or throws, depending on the class. -/
theorem assign_fails (distinct : this ≠ other) {raw : ℕ} (here : s.field other = some raw)
    (empty : ((s.put O this).cloneInto O this raw).field this = none) :
    assign O text s this other =
      (text.elim .returned fun text => .threw (.runtimeError text),
        (s.put O this).cloneInto O this raw) := by
  rw [assign, if_neg distinct, here]
  cases text <;> simp only [empty, Option.elim_none, Option.elim_some]

/-- **When an assignment is all or nothing**: the other wrapper is not empty; and it is the
same one, or there is memory for the copy, or the failure is reported and there was nothing
to lose. -/
theorem all_or_nothing_iff (sound : s.Sound O) (inside : this < s.fields.length) :
    AllOrNothing O s this other (assign O text s this other) ↔
      (s.field other).isSome ∧
        (this = other ∨ Clones O s this other ∨ text.isSome ∧ s.field this = none) := by
  by_cases distinct : this = other
  · subst distinct
    rw [assign_self]
    simp [AllOrNothing, Option.isSome_iff_exists]
  · cases here : s.field other with
    | none =>
        rw [assign_empty text distinct here]
        simp [AllOrNothing]
    | some raw =>
        have emptied := Store.put_emptied sound inside
        have clones : Clones O s this other ↔ (O.clone raw (s.put O this).heap).1.isSome := by
          simp [Clones, here]
        by_cases cloned : (O.clone raw (s.put O this).heap).1.isSome
        · have copied := emptied.cloneInto_copied distinct here cloned
          obtain ⟨q, own, once, apart⟩ := copied.own
          rw [assign_copies text distinct here own]
          simp only [Option.isSome_some, clones, cloned, true_or, or_true, and_self, iff_true]
          exact ⟨⟨q, own, copied.held, fun _ => ⟨once, apart⟩⟩, copied.other_field,
            copied.other_held⟩
        · have failed := emptied.cloneInto_failed (Option.not_isSome_iff_eq_none.mp cloned)
          have lost := Store.held_none (O := O) failed.empty
          rw [assign_fails text distinct here failed.empty]
          simp only [Option.isSome_some, clones, cloned, distinct, false_or, true_and]
          cases text with
          | none => simp [AllOrNothing, failed.empty]
          | some text =>
              have same := failed.others other distinct
              have kept := failed.held other distinct
              simp only [AllOrNothing, Option.elim_some, failed.empty, lost, same, kept,
                Option.isSome_some, and_true, true_and, Bool.false_eq_true, false_or]
              constructor
              · exact fun unchanged => unchanged.1.symm
              · exact fun nothing => ⟨nothing.symm, (Store.held_none nothing).symm⟩

end Assign

/-- **Copy assignment is all or nothing** for an `Address` exactly when the other one is not
empty and is the same object or can be cloned; for a `NextHop` also when the clone fails and
the object was empty before. -/
theorem copy_assignment_all_or_nothing_iff {s : Store H} (sound : s.Sound O) {this other : ℕ}
    (inside : this < s.fields.length) :
    (AllOrNothing O s this other (Address.assign O s this other) ↔
      (s.field other).isSome ∧ (this = other ∨ Clones O s this other)) ∧
    (AllOrNothing O s this other (NextHop.assign O s this other) ↔
      (s.field other).isSome ∧ (this = other ∨ Clones O s this other ∨ s.field this = none)) := by
  constructor
  · rw [Address.assign, all_or_nothing_iff none sound inside]
    simp
  · rw [NextHop.assign, all_or_nothing_iff (some _) sound inside]
    simp

/-! ### An implementation -/

/-- Objects in the order of their creation, each with its references and its value, and how
many more there is memory for. -/
structure Memory where
  cells : List (ℕ × ℕ)
  left : ℕ
deriving DecidableEq, Repr

namespace Memory

variable (h : Memory)

def count (p : ℕ) : ℕ := (h.cells[p]?.map Prod.fst).getD 0

def value (p : ℕ) : ℕ := (h.cells[p]?.map Prod.snd).getD 0

def clone (p : ℕ) : Option ℕ × Memory :=
  if h.left = 0 then (none, h)
  else (some h.cells.length, ⟨h.cells ++ [(1, h.value p)], h.left - 1⟩)

def put (p : ℕ) : Memory := { h with cells := h.cells.modify p fun cell => (cell.1 - 1, cell.2) }

theorem value_put (p r : ℕ) : (h.put p).value r = h.value r := by
  simp only [value, put, List.getElem?_modify]
  cases h.cells[r]? with
  | none => rfl
  | some cell => by_cases same : p = r <;> simp [same]

theorem count_put (p : ℕ) : (h.put p).count = Function.update h.count p (h.count p - 1) := by
  funext r
  simp only [count, put, List.getElem?_modify]
  by_cases same : p = r
  · subst same
    cases h.cells[p]? <;> simp
  · rw [Function.update_of_ne (Ne.symm same)]
    simp [same, count]

theorem append_count (cell : ℕ × ℕ) (left : ℕ) :
    (⟨h.cells ++ [cell], left⟩ : Memory).count =
      Function.update h.count h.cells.length cell.1 := by
  funext r
  by_cases same : r = h.cells.length
  · subst same
    simp [count]
  · rw [Function.update_of_ne same]
    rcases Nat.lt_or_gt_of_ne same with inside | past
    · simp [count, List.getElem?_append_left inside]
    · have out : h.cells.length ≤ r := Nat.le_of_lt past
      have nothing : (h.cells ++ [cell])[r]? = none := by
        rw [List.getElem?_eq_none]
        simp
        omega
      simp [count, nothing, List.getElem?_eq_none out]

/-- An object that is counted is a cell. -/
theorem lt_of_counted {r : ℕ} (counted : h.count r ≠ 0) : r < h.cells.length := by
  by_contra out
  rw [count, List.getElem?_eq_none (Nat.le_of_not_lt out)] at counted
  exact counted rfl

/-- The implementation of `Objects`. -/
def objects : Objects Memory ℕ where
  count := count
  value := value
  clone p h := h.clone p
  put p h := h.put p
  clone_new p h q h' new := by
    unfold clone at new
    split at new
    · cases new
    · cases new
      refine ⟨by simp [count], append_count h _ _, fun _ => by simp [value], fun r counted => ?_⟩
      simp [value, List.getElem?_append_left (h.lt_of_counted counted)]
  clone_failed p h h' failed := by
    unfold clone at failed
    split at failed
    · cases failed
      exact ⟨rfl, fun _ _ => rfl⟩
    · cases failed
  put_subtracts p h _ := ⟨h.count_put p, fun r _ => h.value_put p r⟩

end Memory

/-- Two wrappers that share an object, with memory for one more. -/
def shared : Store Memory := ⟨⟨[(2, 7)], 1⟩, [some 0, some 0], fun _ => 0⟩

theorem shared_copied :
    (AllOrNothing Memory.objects shared 0 1 (Address.assign Memory.objects shared 0 1) ↔
      (shared.field 1).isSome ∧ (0 = 1 ∨ Clones Memory.objects shared 0 1)) ∧
    (AllOrNothing Memory.objects shared 0 1 (NextHop.assign Memory.objects shared 0 1) ↔
      (shared.field 1).isSome ∧
        (0 = 1 ∨ Clones Memory.objects shared 0 1 ∨ shared.field 0 = none)) := by
  have sound : shared.Sound Memory.objects := by
    intro o
    cases o with
    | zero => rfl
    | succ o => simp [shared, Memory.objects, Memory.count]
  exact copy_assignment_all_or_nothing_iff Memory.objects sound (by decide)

/-- Two wrappers with an object each, and no memory. -/
def full : Store Memory := ⟨⟨[(1, 7), (1, 8)], 0⟩, [some 0, some 1], fun _ => 0⟩

/-- The address is lost and the assignment returns; the next hop is lost and it throws. -/
theorem old_object_lost :
    (Address.assign Memory.objects full 0 1).1 = .returned ∧
      (Address.assign Memory.objects full 0 1).2.field 0 = none ∧
      ¬AllOrNothing Memory.objects full 0 1 (Address.assign Memory.objects full 0 1) ∧
      (NextHop.assign Memory.objects full 0 1).1 =
        .threw (.runtimeError "Failed to clone route netlink nexthop") ∧
      (NextHop.assign Memory.objects full 0 1).2.field 0 = none ∧
      ¬AllOrNothing Memory.objects full 0 1 (NextHop.assign Memory.objects full 0 1) := by
  refine ⟨rfl, rfl, ?_, rfl, rfl, ?_⟩
  · rintro ⟨⟨q, held, -⟩, -⟩
    cases held
  · rintro ⟨⟨same, -⟩, -⟩
    cases same

end Nlcpp.Assignment
