import Nlcpp.Exception
import Nlcpp.Handles
import Nlcpp.Lib.Prog

/-!
Iterators over the caches of `RouteAddress`, `RouteLink` and `Route` objects.

An iterator is two wrappers, its object and its filter. Its members are written
statement by statement over the members of these wrappers; the list of a cache and
the matching of objects are libnl's.
-/

namespace Nlcpp

/-- The classes that `TypedCache` is instantiated with. -/
inductive CachedClass where
  | routeAddress | routeLink | route
deriving DecidableEq, Repr

def CachedClass.cls : CachedClass → WrapperClass
  | .routeAddress => .routeAddress
  | .routeLink => .routeLink
  | .route => .route

/-- What `T::T()` throws. -/
def CachedClass.allocationError : CachedClass → Thrown
  | .routeAddress => .runtimeError "Failed to allocate route netlink address"
  | .routeLink => .runtimeError "Failed to allocate route netlink link"
  | .route => .runtimeError "Failed to allocate route netlink route"

theorem CachedClass.sharing (T : CachedClass) : T.cls.members.sharing = some .guarded := by
  cases T <;> rfl

/-! ### The lists of libnl's caches -/

/-- What libnl reads from the objects of a cache. Nothing is promised where the object
is NULL. -/
structure CacheReads (H : Type) extends RefCounting H where
  nlCacheGetFirst : RawObject → H → Option RawObject
  nlCacheGetNext : Option RawObject → H → Option RawObject
  nlObjectMatchFilter : Option RawObject → Option RawObject → H → Bool

/-- Both heaps have the same in the objects that stay. -/
structure CacheReads.Same {H : Type} (L : CacheReads H) (h h' : H) : Prop where
  first : ∀ cache, L.count h cache ≠ 0 → L.count h' cache ≠ 0 →
    (∀ o, L.nlCacheGetFirst cache h = some o → L.count h' o ≠ 0) →
    L.nlCacheGetFirst cache h' = L.nlCacheGetFirst cache h
  next : ∀ p, L.count h p ≠ 0 → L.count h' p ≠ 0 →
    (∀ o, L.nlCacheGetNext (some p) h = some o → L.count h' o ≠ 0) →
    L.nlCacheGetNext (some p) h' = L.nlCacheGetNext (some p) h
  matched : ∀ o f, L.count h o ≠ 0 → L.count h' o ≠ 0 → L.count h f ≠ 0 → L.count h' f ≠ 0 →
    L.nlObjectMatchFilter (some o) (some f) h' = L.nlObjectMatchFilter (some o) (some f) h

/-- libnl's caches: counting changes nothing in the objects that stay, and a new object
used as a filter matches all objects of its type. -/
structure ObjectCache (H : Type) extends CacheReads H where
  get_same : ∀ o h, count h o ≠ 0 → toCacheReads.Same h (get o h)
  put_same : ∀ o h, count h o ≠ 0 → toCacheReads.Same h (put o h)
  alloc_same : ∀ c h, toCacheReads.Same h (alloc c h).2
  alloc_matches : ∀ c h f h', alloc c h = (some f, h') → ∀ o, o.cls = c → count h o ≠ 0 →
    nlObjectMatchFilter (some o) (some f) h' = true

/-- A heap with the lists of caches, and with an attribute of its objects: their kind. -/
structure CacheHeap extends Heap where
  head : RawObject → Option RawObject
  after : RawObject → Option RawObject
  kind : RawObject → Option ℕ

/-- A new object is of no kind. -/
def CacheHeap.new (c : WrapperClass) (h : CacheHeap) : RawObject × CacheHeap :=
  ((h.toHeap.new c).1,
    { h with
      toHeap := (h.toHeap.new c).2
      kind := Function.update h.kind (h.toHeap.new c).1 none })

/-- An object matches a filter of its kind, or of none. -/
def CacheReads.reference : CacheReads CacheHeap where
  count h := h.count
  alloc c h := ((h.new c).1, (h.new c).2)
  clone o h := ((h.new o.cls).1, (h.new o.cls).2)
  get o h := { h with toHeap := h.recount o (h.count o + 1) }
  put o h := { h with toHeap := h.recount o (h.count o - 1) }
  alloc_new c h o h' new := by
    cases new
    exact RefCounting.reference.alloc_new c h.toHeap _ _ rfl
  alloc_failed c h h' new := by cases new
  clone_new p h o h' new := by
    cases new
    exact RefCounting.reference.clone_new p h.toHeap _ _ rfl
  clone_failed p h h' new := by cases new
  get_adds o h there := RefCounting.reference.get_adds o h.toHeap there
  put_subtracts o h there := RefCounting.reference.put_subtracts o h.toHeap there
  nlCacheGetFirst cache h := h.head cache
  nlCacheGetNext obj h := obj.bind h.after
  nlObjectMatchFilter obj filter h :=
    let wanted := filter.bind h.kind
    wanted = none ∨ obj.bind h.kind = wanted

def ObjectCache.reference : ObjectCache CacheHeap where
  toCacheReads := .reference
  get_same o h there := ⟨fun _ _ _ _ => rfl, fun _ _ _ _ => rfl, fun _ _ _ _ _ _ => rfl⟩
  put_same o h there := ⟨fun _ _ _ _ => rfl, fun _ _ _ _ => rfl, fun _ _ _ _ _ _ => rfl⟩
  alloc_same c h := by
    refine ⟨fun _ _ _ _ => rfl, fun _ _ _ _ => rfl, ?_⟩
    intro o f was now wasFilter nowFilter
    have other {r : RawObject} (there : h.count r ≠ 0) : r ≠ (h.toHeap.new c).1 := by
      rintro rfl
      exact there (h.beyond _ (Nat.le_refl _))
    simp only [CacheReads.reference, CacheHeap.new, Option.bind_some,
      Function.update_of_ne (other was), Function.update_of_ne (other wasFilter)]
  alloc_matches c h f h' new o cls there := by
    cases new
    simp [CacheReads.reference, CacheHeap.new]

/-- A call of libnl with objects of a cache. -/
inductive CacheCall where
  | matchFilter (obj filter : Option RawObject)
  | getNext (obj : Option RawObject)
deriving DecidableEq, Repr

/-- No object it is given is NULL. -/
def CacheCall.NonNull : CacheCall → Prop
  | .matchFilter obj filter => obj ≠ none ∧ filter ≠ none
  | .getNext obj => obj ≠ none

/-! ### Iterators -/

/-- A `TypedCache<T>::Iterator`, by the numbers of its wrappers. -/
structure Iterator where
  obj : ℕ
  filter : ℕ
deriving DecidableEq, Repr

/-- What iterators work on: the wrappers, and the calls of libnl so far. -/
structure Walk (H : Type) where
  store : Store H
  calls : List CacheCall

namespace Walk

variable {H : Type} (L : ObjectCache H) (T : CachedClass)

/-- A call of libnl is made. -/
def called (w : Walk H) (call : CacheCall) : Walk H := { w with calls := w.calls ++ [call] }

/-- `field = T(raw, share_ownership_of_pointer)`. -/
def assignShared (w : Walk H) (field : ℕ) (raw : Option RawObject) : Walk H :=
  let temporary := w.store.wrappers.length
  let s := w.store.share L.toRefCounting T.cls raw
  let s := s.moveAssign L.toRefCounting field temporary
  { w with store := s.destroy L.toRefCounting temporary }

/-- `~Iterator`. -/
def destroy (w : Walk H) (it : Iterator) : Walk H :=
  { w with store := (w.store.destroy L.toRefCounting it.filter).destroy L.toRefCounting it.obj }

/-- `Iterator(nl_object * obj)`. -/
def iterator (obj : Option RawObject) (w : Walk H) : Outcome Thrown (Walk H) Iterator :=
  let it : Iterator := ⟨w.store.wrappers.length, w.store.wrappers.length + 1⟩
  let s := (w.store.share L.toRefCounting T.cls obj).allocate L.toRefCounting T.cls
  match s.clsOf it.filter with
  | some _ => .returned it { w with store := s }
  | none => .threw T.allocationError { w with store := s.destroy L.toRefCounting it.obj }

/-- The loop that both `operator++` have: on to the next object that matches. -/
def advance (filter : Option RawObject) : ℕ → Option RawObject → Walk H →
    Outcome Thrown (Walk H) (Option RawObject)
  | 0, _, w => .blocked w
  | fuel + 1, obj, w =>
    let next := L.nlCacheGetNext obj w.store.heap
    let w := w.called (.getNext obj)
    if next = none ∨ filter = none then .returned next w
    else
      let matched := L.nlObjectMatchFilter next filter w.store.heap
      let w := w.called (.matchFilter next filter)
      if matched then .returned next w else advance filter fuel next w

/-- `operator++()`. -/
def preIncrement (fuel : ℕ) (it : Iterator) (w : Walk H) : Outcome Thrown (Walk H) Unit :=
  (advance L (w.store.pointer it.filter) fuel (w.store.pointer it.obj) w).next fun next w =>
    .returned () (w.assignShared L T it.obj next)

/-- `operator++(int)`: the iterator moves to `tmp`, and its fields are made anew. -/
def postIncrement (fuel : ℕ) (it : Iterator) (w : Walk H) : Outcome Thrown (Walk H) Iterator :=
  let rawFilter := w.store.pointer it.filter
  (advance L rawFilter fuel (w.store.pointer it.obj) w).next fun next w =>
    let tmp : Iterator := ⟨w.store.wrappers.length, w.store.wrappers.length + 1⟩
    let w := { w with store := (w.store.moveConstruct it.obj).moveConstruct it.filter }
    let w := w.assignShared L T it.obj next
    .returned tmp (w.assignShared L T it.filter rawFilter)

/-- `Iterator(nl_object * obj, nl_object * filter)`. -/
def filteredIterator (fuel : ℕ) (obj filter : Option RawObject) (w : Walk H) :
    Outcome Thrown (Walk H) Iterator :=
  let it : Iterator := ⟨w.store.wrappers.length, w.store.wrappers.length + 1⟩
  let s := w.store.share L.toRefCounting T.cls obj
  let w := { w with store := s.share L.toRefCounting T.cls filter }
  let matched := L.nlObjectMatchFilter obj filter w.store.heap
  let w := w.called (.matchFilter obj filter)
  if matched then .returned it w
  else (preIncrement L T fuel it w).next fun _ w => .returned it w

/-- `operator==`. -/
def equal (w : Walk H) (it other : Iterator) : Prop :=
  w.store.pointer it.obj = w.store.pointer other.obj

instance (w : Walk H) (it other : Iterator) : Decidable (w.equal it other) :=
  inferInstanceAs (Decidable (w.store.pointer it.obj = w.store.pointer other.obj))

end Walk

/-- What can be iterated: a cache, or a cache with the wrapper of a `Filtered`. -/
inductive CacheRange where
  | whole (cache : RawObject)
  | filtered (cache : RawObject) (filter : ℕ)
deriving DecidableEq, Repr

namespace CacheRange

variable {H : Type} (L : ObjectCache H) (T : CachedClass)

/-- `TypedCache::begin` and `TypedCache::Filtered::begin`. -/
def begin (fuel : ℕ) (w : Walk H) : CacheRange → Outcome Thrown (Walk H) Iterator
  | .whole cache => w.iterator L T (L.nlCacheGetFirst cache w.store.heap)
  | .filtered cache filter =>
    w.filteredIterator L T fuel (L.nlCacheGetFirst cache w.store.heap) (w.store.pointer filter)

/-- `TypedCache::end` and `TypedCache::Filtered::end`. -/
def end_ (w : Walk H) (_range : CacheRange) : Outcome Thrown (Walk H) Iterator :=
  w.iterator L T none

end CacheRange

/-! ### What the members of the wrappers do -/

namespace Store

variable {H : Type} {R : RefCounting H} {s t : Store H} {i j : ℕ}

/-- The wrapper with this number, if it is live. -/
def wrapper (s : Store H) (i : ℕ) : Option Wrapper := s.wrappers[i]?.join

theorem clsOf_eq (s : Store H) (i : ℕ) : s.clsOf i = (s.wrapper i).map Wrapper.cls := rfl

theorem pointer_eq (s : Store H) (i : ℕ) : s.pointer i = Wrapper.held (s.wrapper i) := by
  unfold pointer places wrapper
  rw [List.getElem?_map]
  cases s.wrappers[i]? <;> rfl

theorem pointer_of_wrapper {w : Wrapper} (here : s.wrapper i = some w) :
    s.pointer i = w.pointer := by
  rw [pointer_eq, here]
  rfl

theorem clsOf_of_wrapper {w : Wrapper} (here : s.wrapper i = some w) :
    s.clsOf i = some w.cls := by
  rw [clsOf_eq, here]
  rfl

theorem live_of_wrapper {w : Wrapper} (here : s.wrapper i = some w) : s.Live i :=
  live_of_clsOf (clsOf_of_wrapper here)

theorem wrapper_of_le (beyond : s.wrappers.length ≤ i) : s.wrapper i = none := by
  rw [wrapper, List.getElem?_eq_none beyond]
  rfl

theorem lt_of_wrapper {w : Wrapper} (here : s.wrapper i = some w) : i < s.wrappers.length := by
  by_contra beyond
  rw [wrapper_of_le (Nat.not_lt.mp beyond)] at here
  cases here

/-- No wrapper has the next number. -/
theorem update_wrapper_length :
    Function.update s.wrapper s.wrappers.length none = s.wrapper :=
  Function.update_eq_self_iff.mpr (wrapper_of_le (Nat.le_refl _)).symm

@[simp] theorem wrapper_construct (c : WrapperClass) : (s.construct c).wrapper =
    Function.update s.wrapper s.wrappers.length (some ⟨c, none⟩) := by
  funext i
  by_cases same : i = s.wrappers.length
  · subst same
    simp [wrapper, construct]
  · rw [Function.update_of_ne same]
    rcases Nat.lt_or_gt_of_ne same with before | beyond
    · simp [wrapper, construct, List.getElem?_append_left before]
    · have after : (s.construct c).wrappers.length ≤ i := by
        rw [construct, List.length_append]
        exact beyond
      rw [wrapper_of_le (Nat.le_of_lt beyond), wrapper_of_le after]

@[simp] theorem wrapper_setPointer (i : ℕ) (p : Option RawObject) : (s.setPointer i p).wrapper =
    Function.update s.wrapper i ((s.wrapper i).map fun w => { w with pointer := p }) := by
  funext j
  by_cases same : j = i
  · subst same
    simp only [wrapper, setPointer, List.getElem?_modify_eq, Function.update_self]
    cases s.wrappers[j]? <;> rfl
  · rw [Function.update_of_ne same]
    simp only [wrapper, setPointer, List.getElem?_modify_ne _ _ (Ne.symm same)]

@[simp] theorem wrapper_gone (i : ℕ) :
    (s.gone i).wrapper = Function.update s.wrapper i none := by
  funext j
  by_cases same : j = i
  · subst same
    by_cases inside : j < s.wrappers.length
    · simp [wrapper, gone, List.getElem?_set_self inside]
    · rw [wrapper_of_le (by simpa [gone] using inside), Function.update_self]
  · rw [Function.update_of_ne same]
    simp only [wrapper, gone, List.getElem?_set_ne (Ne.symm same)]

@[simp] theorem wrapper_put (i : ℕ) : (s.put R i).wrapper = s.wrapper := by
  unfold Store.put
  split <;> rfl

@[simp] theorem wrapper_getIfSet (i : ℕ) : (s.getIfSet R i).wrapper = s.wrapper := by
  unfold Store.getIfSet Store.get
  split
  · split <;> rfl
  · rfl

/-- What a statement leaves: a sound store with these wrappers, `more` of them new, and
with the lists of before. -/
structure Leaves (L : ObjectCache H) (s t : Store H) (wrappers : ℕ → Option Wrapper)
    (more : ℕ) : Prop where
  sound : t.Sound L.toRefCounting
  wrapper : t.wrapper = wrappers
  length : t.wrappers.length = s.wrappers.length + more
  outside : t.outside = s.outside
  same : L.Same s.heap t.heap

/-- What a statement leaves that makes no new object. -/
structure Moves (L : ObjectCache H) (s t : Store H) (wrappers : ℕ → Option Wrapper)
    (more : ℕ) : Prop extends s.Leaves L t wrappers more where
  old : ∀ o, L.count t.heap o ≠ 0 → L.count s.heap o ≠ 0

variable {L : ObjectCache H} {c : WrapperClass} {p q : Option RawObject}

/-- One statement after the other. -/
theorem Moves.trans {u : Store H} {wrappers wrappers' : ℕ → Option Wrapper} {more more' : ℕ}
    (first : s.Moves L t wrappers more) (second : t.Moves L u wrappers' more') :
    s.Moves L u wrappers' (more + more') where
  sound := second.sound
  wrapper := second.wrapper
  length := by rw [second.length, first.length, Nat.add_assoc]
  outside := second.outside.trans first.outside
  same := by
    constructor
    · intro cache was now stays
      have then_ := first.same.first cache was (second.old _ now) fun o head =>
        second.old o (stays o head)
      rw [second.same.first cache (second.old _ now) now (then_.symm ▸ stays), then_]
    · intro o was now stays
      have then_ := first.same.next o was (second.old _ now) fun p next =>
        second.old p (stays p next)
      rw [second.same.next o (second.old _ now) now (then_.symm ▸ stays), then_]
    · intro o f was now wasFilter nowFilter
      rw [second.same.matched o f (second.old _ now) now (second.old _ nowFilter) nowFilter,
        first.same.matched o f was (second.old _ now) wasFilter (second.old _ nowFilter)]
  old := fun o now => first.old o (second.old o now)

theorem same_refl (L : ObjectCache H) (h : H) : L.Same h h :=
  ⟨fun _ _ _ _ => rfl, fun _ _ _ _ => rfl, fun _ _ _ _ _ _ => rfl⟩

theorem length_setPointer (i : ℕ) (p : Option RawObject) :
    (s.setPointer i p).wrappers.length = s.wrappers.length :=
  List.length_modify ..

theorem length_construct (c : WrapperClass) :
    (s.construct c).wrappers.length = s.wrappers.length + 1 :=
  List.length_append ..

/-- A wrapper shares an object that is there, or holds NULL. -/
theorem moves_share (sound : s.Sound L.toRefCounting) (sharing : c.members.sharing = some .guarded)
    (there : ∀ o, p = some o → s.Points L.toRefCounting c o) :
    s.Moves L (s.share L.toRefCounting c p)
      (Function.update s.wrapper s.wrappers.length (some ⟨c, p⟩)) 1 := by
  have legal : s.Legal L.toRefCounting (.share c p) :=
    ⟨⟨.guarded, sharing, fun _ => rfl⟩, there⟩
  have full := pointer_setPointer_self (p := p) (live_construct (s := s) c)
  have wrapper : ((s.construct c).setPointer s.wrappers.length p).wrapper =
      Function.update s.wrapper s.wrappers.length (some ⟨c, p⟩) := by
    simp
  have length : ((s.construct c).setPointer s.wrappers.length p).wrappers.length =
      s.wrappers.length + 1 :=
    (length_setPointer _ p).trans (length_construct c)
  have shared := sound.share legal
  unfold share at shared ⊢
  simp only [sharing, getIfSet, get, full] at shared ⊢
  cases p with
  | none => exact ⟨⟨shared, wrapper, length, rfl, same_refl L s.heap⟩, fun _ now => now⟩
  | some o =>
      have points := (there o rfl).2
      refine ⟨⟨shared, wrapper, length, rfl, L.get_same o s.heap points⟩, ?_⟩
      intro r now gone
      change L.count (L.get o s.heap) r ≠ 0 at now
      rw [L.get_adds o s.heap points, Function.update_apply] at now
      split at now
      · next same => exact points (same ▸ gone)
      · exact now gone

/-- The reference that a wrapper holds is put, if it holds any. -/
theorem same_put (sound : s.Sound L.toRefCounting) (live : s.Live i) :
    L.Same s.heap (s.put L.toRefCounting i).heap := by
  unfold put
  split
  · next o holds => exact L.put_same o s.heap (sound.there live holds)
  · exact same_refl L s.heap

/-- What is there after a reference was put was there before. -/
theorem old_put (sound : s.Sound R) (live : s.Live i) {r : RawObject}
    (now : R.count (s.put R i).heap r ≠ 0) : R.count s.heap r ≠ 0 := by
  unfold put at now
  split at now
  · next o holds =>
      have there := sound.there live holds
      change R.count (R.put o s.heap) r ≠ 0 at now
      rw [R.put_subtracts o s.heap there, Function.update_apply] at now
      split at now
      · next same => exact same ▸ there
      · exact now
  · exact now

theorem outside_put : (s.put R i).outside = s.outside := by
  unfold put
  split <;> rfl

theorem length_put : (s.put R i).wrappers.length = s.wrappers.length := by
  unfold put
  split <;> rfl

theorem moves_moveAssign (sound : s.Sound L.toRefCounting) (distinct : i ≠ j)
    (this : s.wrapper i = some ⟨c, p⟩) (other : s.wrapper j = some ⟨c, q⟩) :
    s.Moves L (s.moveAssign L.toRefCounting i j)
      (Function.update (Function.update s.wrapper i (some ⟨c, q⟩)) j (some ⟨c, none⟩)) 0 := by
  have moved := sound.moveAssign (i := i) (j := j)
    ⟨c, clsOf_of_wrapper this, clsOf_of_wrapper other⟩
  unfold moveAssign at moved ⊢
  rw [if_neg distinct] at moved ⊢
  refine ⟨⟨moved, ?_, ?_, outside_put, same_put sound (live_of_wrapper this)⟩,
    fun _ now => old_put sound (live_of_wrapper this) now⟩
  · simp [this, other, pointer_of_wrapper other, Function.update_of_ne distinct.symm]
  · rw [length_setPointer, length_setPointer, length_put, Nat.add_zero]

theorem moves_destroy (sound : s.Sound L.toRefCounting) {w : Wrapper}
    (here : s.wrapper i = some w) :
    s.Moves L (s.destroy L.toRefCounting i) (Function.update s.wrapper i none) 0 := by
  refine ⟨⟨sound.destroy ⟨w.cls, clsOf_of_wrapper here⟩, ?_, ?_, outside_put,
    same_put sound (live_of_wrapper here)⟩, fun _ now => old_put sound (live_of_wrapper here) now⟩
  · simp [destroy]
  · rw [destroy, gone, List.length_set, length_put, Nat.add_zero]

theorem moves_moveConstruct (sound : s.Sound L.toRefCounting)
    (other : s.wrapper j = some ⟨c, q⟩) :
    s.Moves L (s.moveConstruct j) (Function.update
      (Function.update s.wrapper s.wrappers.length (some ⟨c, q⟩)) j (some ⟨c, none⟩)) 1 := by
  have moved := sound.moveConstruct (j := j) ⟨c, clsOf_of_wrapper other⟩
  have distinct := Nat.ne_of_lt (lt_of_wrapper other)
  unfold moveConstruct at moved ⊢
  rw [clsOf_of_wrapper other, pointer_of_wrapper other] at moved ⊢
  refine ⟨⟨moved, ?_, ?_, rfl, same_refl L s.heap⟩, fun _ now => now⟩
  · simp [other, Function.update_of_ne distinct]
  · rw [length_setPointer, length_setPointer, length_construct]

/-- Allocation succeeds with a new object, or the constructor throws. -/
theorem leaves_allocate (sound : s.Sound L.toRefCounting) (c : WrapperClass) :
    (∃ f h, L.alloc c s.heap = (some f, h) ∧ (s.allocate L.toRefCounting c).heap = h ∧
      s.Leaves L (s.allocate L.toRefCounting c)
        (Function.update s.wrapper s.wrappers.length (some ⟨c, some f⟩)) 1) ∨
    (∃ h, L.alloc c s.heap = (none, h)) ∧
      s.Leaves L (s.allocate L.toRefCounting c) s.wrapper 1 := by
  have allocated := sound.allocate c
  have same := L.alloc_same c s.heap
  have length {s' : Store H} (wrappers : s'.wrappers = (s.construct c).wrappers)
      (p : Option RawObject) : (s'.setPointer s.wrappers.length p).wrappers.length =
        s.wrappers.length + 1 := by
    rw [length_setPointer, wrappers, length_construct]
  unfold allocate allocInto at allocated ⊢
  rcases result : L.alloc c (s.construct c).heap with ⟨_ | f, h⟩
  · right
    rw [show L.alloc c s.heap = _ from result] at same
    have full := pointer_setPointer_self (s := { s.construct c with heap := h }) (p := none)
      (live_construct (s := s) c)
    simp only [result, throwIfNull, full] at allocated ⊢
    refine ⟨⟨h, result⟩, allocated, ?_, ?_, rfl, same⟩
    · have made : ({ s.construct c with heap := h } : Store H).wrapper = (s.construct c).wrapper :=
        rfl
      rw [wrapper_gone, wrapper_setPointer, made, wrapper_construct]
      simp only [Function.update_idem]
      exact update_wrapper_length
    · rw [gone, List.length_set]
      exact length rfl none
  · left
    rw [show L.alloc c s.heap = _ from result] at same
    have full := pointer_setPointer_self (s := { s.construct c with heap := h }) (p := some f)
      (live_construct (s := s) c)
    simp only [result, throwIfNull, full] at allocated ⊢
    refine ⟨f, h, result, rfl, allocated, ?_, length rfl (some f), rfl, same⟩
    have made : ({ s.construct c with heap := h } : Store H).wrapper = (s.construct c).wrapper :=
      rfl
    rw [wrapper_setPointer, made, wrapper_construct]
    simp

/-! ### Lists and filters that stay -/

/-- The cache lists these objects, all of one class, and refers to each. -/
structure Listed (L : ObjectCache H) (T : CachedClass) (s : Store H) (cache : RawObject)
    (objects : List RawObject) : Prop where
  sound : s.Sound L.toRefCounting
  cache_held : 0 < s.outside cache
  held : ∀ o ∈ objects, o.cls = T.cls ∧ 0 < s.outside o
  first : L.nlCacheGetFirst cache s.heap = objects.head?
  next : ∀ before o after, objects = before ++ o :: after →
    L.nlCacheGetNext (some o) s.heap = after.head?

/-- The filter is there, and this is what libnl says of it and the objects. -/
structure Filters (L : ObjectCache H) (T : CachedClass) (s : Store H) (objects : List RawObject)
    (f : RawObject) (m : RawObject → Bool) : Prop where
  points : s.Points L.toRefCounting T.cls f
  matched : ∀ o ∈ objects, L.nlObjectMatchFilter (some o) (some f) s.heap = m o

variable {T : CachedClass} {cache : RawObject} {objects : List RawObject} {f : RawObject}
  {m : RawObject → Bool} {wrappers : ℕ → Option Wrapper} {more : ℕ}

theorem Sound.there_of_outside (sound : s.Sound R) {o : RawObject} (held : 0 < s.outside o) :
    R.count s.heap o ≠ 0 := by
  have := sound.balanced o
  omega

theorem Sound.there_of_wrapper (sound : s.Sound R) {w : Wrapper} (here : s.wrapper i = some w)
    {o : RawObject} (holds : w.pointer = some o) : R.count s.heap o ≠ 0 :=
  sound.there (live_of_wrapper here) ((pointer_of_wrapper here).trans holds)

theorem Listed.points (listed : s.Listed L T cache objects) {o : RawObject} (mem : o ∈ objects) :
    s.Points L.toRefCounting T.cls o :=
  ⟨(listed.held o mem).1, listed.sound.there_of_outside (listed.held o mem).2⟩

/-- What comes after an object in the list is determined. -/
theorem Listed.after_unique (listed : s.Listed L T cache objects)
    {before before' after after' : List RawObject} {o : RawObject}
    (split : objects = before ++ o :: after) (split' : objects = before' ++ o :: after') :
    after = after' := by
  have heads := (listed.next before o after split).symm.trans (listed.next before' o after' split')
  induction after generalizing before before' after' o with
  | nil => exact (List.head?_eq_none_iff.mp heads.symm).symm
  | cons p after ih =>
      obtain ⟨rest, rfl⟩ := List.head?_eq_some_iff.mp heads.symm
      have next : objects = (before ++ [o]) ++ p :: after := by simp [split]
      have next' : objects = (before' ++ [o]) ++ p :: rest := by simp [split']
      rw [ih next next' ((listed.next _ p after next).symm.trans (listed.next _ p rest next'))]

/-- A list whose last object has no next one lists no object twice. -/
theorem Listed.nodup_rest (listed : s.Listed L T cache objects) {before rest : List RawObject}
    (split : objects = before ++ rest) : rest.Nodup := by
  induction rest generalizing before with
  | nil => exact List.nodup_nil
  | cons o after ih =>
      have next : objects = (before ++ [o]) ++ after := by simp [split]
      refine List.nodup_cons.mpr ⟨?_, ih next⟩
      intro mem
      obtain ⟨between, after', again⟩ := List.append_of_mem mem
      have split' : objects = (before ++ o :: between) ++ o :: after' := by simp [split, again]
      have length := congrArg List.length ((listed.after_unique split split').symm.trans again)
      simp only [List.length_append, List.length_cons] at length
      omega

theorem Listed.nodup (listed : s.Listed L T cache objects) : objects.Nodup :=
  listed.nodup_rest (List.nil_append _).symm

theorem Listed.leaves (listed : s.Listed L T cache objects) (leaves : s.Leaves L t wrappers more) :
    t.Listed L T cache objects := by
  have there {o : RawObject} (held : 0 < s.outside o) : L.count t.heap o ≠ 0 :=
    leaves.sound.there_of_outside (leaves.outside ▸ held)
  refine ⟨leaves.sound, leaves.outside ▸ listed.cache_held, leaves.outside ▸ listed.held, ?_, ?_⟩
  · rw [leaves.same.first cache (listed.sound.there_of_outside listed.cache_held)
      (there listed.cache_held), listed.first]
    intro o head
    rw [listed.first] at head
    exact there (listed.held o (List.mem_of_head? head)).2
  · intro before o after split
    have next := listed.next before o after split
    have mem : o ∈ objects := by simp [split]
    rw [leaves.same.next o (listed.points mem).2 (there (listed.held o mem).2), next]
    intro r head
    rw [next] at head
    have later : r ∈ objects := by simp [split, List.mem_of_head? head]
    exact there (listed.held r later).2

theorem Filters.leaves (filters : s.Filters L T objects f m)
    (listed : s.Listed L T cache objects) (leaves : s.Leaves L t wrappers more)
    (now : L.count t.heap f ≠ 0) : t.Filters L T objects f m := by
  refine ⟨⟨filters.points.1, now⟩, ?_⟩
  intro o mem
  have there := leaves.sound.there_of_outside (leaves.outside ▸ (listed.held o mem).2)
  rw [leaves.same.matched o f (listed.points mem).2 there filters.points.2 now]
  exact filters.matched o mem

/-- A filter that a wrapper holds all along stays. -/
theorem Filters.held (filters : s.Filters L T objects f m) (listed : s.Listed L T cache objects)
    (leaves : s.Leaves L t wrappers more) (held : t.wrapper i = some ⟨c, some f⟩) :
    t.Filters L T objects f m :=
  filters.leaves listed leaves (leaves.sound.there_of_wrapper held rfl)

/-- The filters that wrappers held before are as they were. -/
def Keeps (L : ObjectCache H) (T : CachedClass) (s : Store H) (objects : List RawObject)
    (t : Store H) : Prop :=
  ∀ i c r m, s.wrapper i = some ⟨c, some r⟩ → s.Filters L T objects r m → t.Filters L T objects r m

end Store

/-! ### What the members of an iterator do -/

namespace Walk

variable {H : Type} {L : ObjectCache H} {T : CachedClass} {w : Walk H} {it : Iterator}
  {cache f : RawObject} {objects : List RawObject} {m : RawObject → Bool}
  {obj filter : Option RawObject} {fuel : ℕ}

/-- No call was given a NULL object. -/
def Clean (w : Walk H) : Prop := ∀ call ∈ w.calls, call.NonNull

theorem Clean.called {call : CacheCall} (clean : w.Clean) (nonNull : call.NonNull) :
    (w.called call).Clean := by
  intro c mem
  rcases List.mem_append.mp mem with old | new
  · exact clean c old
  · exact List.mem_singleton.mp new ▸ nonNull

theorem Clean.getNext (clean : w.Clean) (o : RawObject) :
    (w.called (.getNext (some o))).Clean :=
  clean.called (Option.some_ne_none o)

theorem Clean.matchFilter (clean : w.Clean) (o f : RawObject) :
    (w.called (.matchFilter (some o) (some f))).Clean :=
  clean.called ⟨Option.some_ne_none o, Option.some_ne_none f⟩

/-- The iterator is at this object, with this filter. -/
structure At (T : CachedClass) (w : Walk H) (it : Iterator) (obj filter : Option RawObject) :
    Prop where
  obj : w.store.wrapper it.obj = some ⟨T.cls, obj⟩
  filter : w.store.wrapper it.filter = some ⟨T.cls, filter⟩
  distinct : it.obj ≠ it.filter

theorem moves_assignShared (sound : w.store.Sound L.toRefCounting) {field : ℕ}
    {old raw : Option RawObject} (here : w.store.wrapper field = some ⟨T.cls, old⟩)
    (there : ∀ o, raw = some o → w.store.Points L.toRefCounting T.cls o) :
    w.store.Moves L (w.assignShared L T field raw).store
      (Function.update w.store.wrapper field (some ⟨T.cls, raw⟩)) 1 := by
  have distinct := Nat.ne_of_lt (Store.lt_of_wrapper here)
  have shared := Store.moves_share sound T.sharing there
  have here' := congrFun shared.wrapper field
  rw [Function.update_of_ne distinct, here] at here'
  have temporary := congrFun shared.wrapper w.store.wrappers.length
  rw [Function.update_self] at temporary
  have assigned := Store.moves_moveAssign shared.sound distinct here' temporary
  have emptied := congrFun assigned.wrapper w.store.wrappers.length
  rw [Function.update_self] at emptied
  have destroyed := Store.moves_destroy assigned.sound emptied
  have whole := (shared.trans assigned).trans destroyed
  rw [assigned.wrapper, shared.wrapper] at whole
  have wrappers : Function.update (Function.update (Function.update (Function.update
      w.store.wrapper w.store.wrappers.length (some ⟨T.cls, raw⟩)) field (some ⟨T.cls, raw⟩))
        w.store.wrappers.length (some ⟨T.cls, none⟩)) w.store.wrappers.length none =
      Function.update w.store.wrapper field (some ⟨T.cls, raw⟩) := by
    rw [Function.update_idem, Function.update_comm distinct.symm, Function.update_idem,
      Function.update_comm distinct, Store.update_wrapper_length]
  rwa [wrappers] at whole

theorem moves_destroy (sound : w.store.Sound L.toRefCounting) (at_ : w.At T it obj filter) :
    w.store.Moves L (w.destroy L it).store
      (Function.update (Function.update w.store.wrapper it.filter none) it.obj none) 0 := by
  have first := Store.moves_destroy sound at_.filter
  have here := congrFun first.wrapper it.obj
  rw [Function.update_of_ne at_.distinct, at_.obj] at here
  have whole := first.trans (Store.moves_destroy first.sound here)
  rwa [first.wrapper] at whole

/-- **The loop of the increments finds the next object that matches**, and calls libnl
with objects only. -/
theorem advance_listed (listed : w.store.Listed L T cache objects)
    (filters : w.store.Filters L T objects f m) (clean : w.Clean) {before after : List RawObject}
    {o : RawObject} (split : objects = before ++ o :: after) (enough : after.length < fuel) :
    ∃ calls, advance L (some f) fuel (some o) w = .returned (after.find? m) { w with calls } ∧
      Clean { w with calls } := by
  induction after generalizing w before o fuel with
  | nil =>
      obtain ⟨fuel, rfl⟩ := Nat.exists_eq_add_one_of_ne_zero (Nat.ne_zero_of_lt enough)
      have next := listed.next before o [] split
      refine ⟨_, ?_, clean.getNext o⟩
      simp [advance, next, called]
  | cons p after ih =>
      obtain ⟨fuel, rfl⟩ := Nat.exists_eq_add_one_of_ne_zero (Nat.ne_zero_of_lt enough)
      have next : L.nlCacheGetNext (some o) w.store.heap = some p :=
        listed.next before o (p :: after) split
      have mem : p ∈ objects := by simp [split]
      have matched := filters.matched p mem
      have cleanNext := (clean.getNext o).matchFilter p f
      cases verdict : m p with
      | true =>
          rw [verdict] at matched
          refine ⟨_, ?_, cleanNext⟩
          simp [advance, next, called, matched, verdict]
      | false =>
          rw [verdict] at matched
          have split' : objects = (before ++ [o]) ++ p :: after := by simp [split]
          obtain ⟨calls, found, cleanThen⟩ := ih (w := (w.called (.getNext (some o))).called
            (.matchFilter (some p) (some f))) listed filters cleanNext split'
            (Nat.lt_of_succ_lt_succ enough)
          refine ⟨calls, ?_, cleanThen⟩
          rw [List.find?_cons_of_neg (by simp [verdict])]
          simpa [advance, next, matched, called] using found

/-- Where the next object that matches is. -/
theorem points_find (listed : w.store.Listed L T cache objects) {before after : List RawObject}
    {o : RawObject} (split : objects = before ++ o :: after) {p : RawObject}
    (found : after.find? m = some p) : w.store.Points L.toRefCounting T.cls p := by
  have mem : p ∈ objects := by simp [split, List.mem_of_find?_eq_some found]
  exact listed.points mem

theorem preIncrement_listed (listed : w.store.Listed L T cache objects)
    (filters : w.store.Filters L T objects f m) (clean : w.Clean) {before after : List RawObject}
    {o : RawObject} (split : objects = before ++ o :: after) (enough : after.length < fuel)
    (at_ : w.At T it (some o) (some f)) :
    ∃ w', preIncrement L T fuel it w = .returned () w' ∧ w'.Clean ∧
      w.store.Moves L w'.store
        (Function.update w.store.wrapper it.obj (some ⟨T.cls, after.find? m⟩)) 1 := by
  obtain ⟨calls, found, cleanThen⟩ := advance_listed listed filters clean split enough
  refine ⟨assignShared L T { w with calls } it.obj (after.find? m), ?_, cleanThen, ?_⟩
  · simp only [preIncrement, Store.pointer_of_wrapper at_.obj, Store.pointer_of_wrapper at_.filter,
      found, Outcome.next_returned]
  · exact moves_assignShared (w := { w with calls }) listed.sound at_.obj
      fun p here => points_find listed split here

/-- What `Iterator tmp = move(*this)` leaves. -/
theorem moves_tmp {s : Store H} (sound : s.Sound L.toRefCounting)
    (obj_ : s.wrapper it.obj = some ⟨T.cls, obj⟩)
    (filter_ : s.wrapper it.filter = some ⟨T.cls, filter⟩) (distinct : it.obj ≠ it.filter) :
    s.Moves L ((s.moveConstruct it.obj).moveConstruct it.filter)
      (Function.update (Function.update (Function.update (Function.update s.wrapper
        s.wrappers.length (some ⟨T.cls, obj⟩)) (s.wrappers.length + 1) (some ⟨T.cls, filter⟩))
        it.obj (some ⟨T.cls, none⟩)) it.filter (some ⟨T.cls, none⟩)) 2 := by
  have first := Store.moves_moveConstruct (L := L) sound obj_
  have objLt := Store.lt_of_wrapper obj_
  have filterLt := Store.lt_of_wrapper filter_
  have here := congrFun first.wrapper it.filter
  rw [Function.update_of_ne distinct.symm, Function.update_of_ne (Nat.ne_of_lt filterLt),
    filter_] at here
  have whole := first.trans (Store.moves_moveConstruct first.sound here)
  have beyond : it.obj ≠ s.wrappers.length + 1 := by omega
  rwa [first.wrapper, first.length, Function.update_comm beyond] at whole

/-- What filling the fields of an iterator anew leaves, while `tmp` holds its filter. -/
theorem moves_refill (sound : w.store.Sound L.toRefCounting) {next : Option RawObject} {tmp : ℕ}
    (at_ : w.At T it none none) (other : tmp ≠ it.obj)
    (holds : w.store.wrapper tmp = some ⟨T.cls, some f⟩) (cls : f.cls = T.cls)
    (there : ∀ o, next = some o → w.store.Points L.toRefCounting T.cls o) :
    w.store.Moves L ((w.assignShared L T it.obj next).assignShared L T it.filter (some f)).store
      (Function.update (Function.update w.store.wrapper it.obj (some ⟨T.cls, next⟩)) it.filter
        (some ⟨T.cls, some f⟩)) 2 := by
  have assigned := moves_assignShared sound at_.obj there
  have filterThen := congrFun assigned.wrapper it.filter
  rw [Function.update_of_ne at_.distinct.symm, at_.filter] at filterThen
  have tmpThen := congrFun assigned.wrapper tmp
  rw [Function.update_of_ne other, holds] at tmpThen
  have points : ∀ r, some f = some r →
      (w.assignShared L T it.obj next).store.Points L.toRefCounting T.cls r :=
    fun r here => Option.some.inj here ▸ ⟨cls, assigned.sound.there_of_wrapper tmpThen rfl⟩
  have whole := assigned.trans (moves_assignShared assigned.sound filterThen points)
  rwa [assigned.wrapper] at whole

/-- Entries `a` and `b` are moved to two new ones and written again, `b` as it was. -/
theorem update_moved {α : Type} {g : ℕ → α} {a b n : ℕ} {x y z e : α} (aLt : a < n) (bLt : b < n)
    (distinct : a ≠ b) (here : g b = y) :
    Function.update (Function.update (Function.update (Function.update (Function.update
      (Function.update g n x) (n + 1) y) a e) b e) a z) b y =
    Function.update (Function.update (Function.update g a z) n x) (n + 1) y := by
  funext i
  simp only [Function.update_apply]
  grind

theorem postIncrement_listed (listed : w.store.Listed L T cache objects)
    (filters : w.store.Filters L T objects f m) (clean : w.Clean) {before after : List RawObject}
    {o : RawObject} (split : objects = before ++ o :: after) (enough : after.length < fuel)
    (at_ : w.At T it (some o) (some f)) :
    ∃ w', postIncrement L T fuel it w =
        .returned ⟨w.store.wrappers.length, w.store.wrappers.length + 1⟩ w' ∧ w'.Clean ∧
      w.store.Moves L w'.store (Function.update (Function.update
        (Function.update w.store.wrapper it.obj (some ⟨T.cls, after.find? m⟩))
        w.store.wrappers.length (some ⟨T.cls, some o⟩))
        (w.store.wrappers.length + 1) (some ⟨T.cls, some f⟩)) 4 := by
  obtain ⟨calls, found, cleanThen⟩ := advance_listed listed filters clean split enough
  have objLt := Store.lt_of_wrapper at_.obj
  have filterLt := Store.lt_of_wrapper at_.filter
  have moved := moves_tmp listed.sound at_.obj at_.filter at_.distinct
  obtain ⟨s, stored⟩ : ∃ s, (w.store.moveConstruct it.obj).moveConstruct it.filter = s := ⟨_, rfl⟩
  rw [stored] at moved
  have listedThen := listed.leaves moved.toLeaves
  have emptied : At T ⟨s, calls⟩ it none none := by
    refine ⟨(congrFun moved.wrapper it.obj).trans ?_, (congrFun moved.wrapper it.filter).trans ?_,
      at_.distinct⟩
    · rw [Function.update_of_ne at_.distinct, Function.update_self]
    · rw [Function.update_self]
  have tmpFilter : s.wrapper (w.store.wrappers.length + 1) = some ⟨T.cls, some f⟩ := by
    rw [moved.wrapper, Function.update_of_ne (by omega), Function.update_of_ne (by omega),
      Function.update_self]
  have points : ∀ p, after.find? m = some p → s.Points L.toRefCounting T.cls p :=
    fun p here => points_find (w := ⟨s, calls⟩) listedThen split here
  have refilled := moves_refill (w := ⟨s, calls⟩) listedThen.sound emptied (by omega) tmpFilter
    filters.points.1 points
  refine ⟨(assignShared L T ⟨s, calls⟩ it.obj (after.find? m)).assignShared L T it.filter (some f),
    ?_, cleanThen, ?_⟩
  · simp only [postIncrement, Store.pointer_of_wrapper at_.obj,
      Store.pointer_of_wrapper at_.filter, found, Outcome.next_returned, stored]
  · have whole := moved.trans refilled
    rw [moved.wrapper] at whole
    convert whole using 1
    exact (update_moved objLt filterLt at_.distinct at_.filter).symm

/-- libnl finds no memory for an object of the class. -/
def OutOfMemory (L : ObjectCache H) (T : CachedClass) : Prop := ∃ h, (L.alloc T.cls h).1 = none

/-- What the constructor of an unfiltered iterator leaves: its filter matches everything. -/
structure Constructed (L : ObjectCache H) (T : CachedClass) (w w' : Walk H) (obj : Option RawObject)
    (cache : RawObject) (objects : List RawObject) (f : RawObject) : Prop where
  wrapper : w'.store.wrapper = Function.update (Function.update w.store.wrapper
    w.store.wrappers.length (some ⟨T.cls, obj⟩)) (w.store.wrappers.length + 1)
    (some ⟨T.cls, some f⟩)
  length : w'.store.wrappers.length = w.store.wrappers.length + 2
  outside : w'.store.outside = w.store.outside
  listed : w'.store.Listed L T cache objects
  matchesAll : w'.store.Filters L T objects f fun _ => true
  calls : w'.calls = w.calls
  keeps : w.store.Keeps L T objects w'.store

/-- What a constructor leaves that throws. -/
structure Unwound (L : ObjectCache H) (T : CachedClass) (w w' : Walk H) (cache : RawObject)
    (objects : List RawObject) : Prop where
  wrapper : w'.store.wrapper = w.store.wrapper
  outside : w'.store.outside = w.store.outside
  listed : w'.store.Listed L T cache objects
  calls : w'.calls = w.calls
  keeps : w.store.Keeps L T objects w'.store

theorem iterator_listed (listed : w.store.Listed L T cache objects)
    (there : ∀ o, obj = some o → w.store.Points L.toRefCounting T.cls o) :
    (∃ f w', iterator L T obj w =
        .returned ⟨w.store.wrappers.length, w.store.wrappers.length + 1⟩ w' ∧
      Constructed L T w w' obj cache objects f) ∨
    ∃ w', iterator L T obj w = .threw T.allocationError w' ∧ OutOfMemory L T ∧
      Unwound L T w w' cache objects := by
  have shared := Store.moves_share listed.sound T.sharing there
  have listedThen := listed.leaves shared.toLeaves
  obtain ⟨s, stored⟩ : ∃ s, w.store.share L.toRefCounting T.cls obj = s := ⟨_, rfl⟩
  rw [stored] at shared listedThen
  rcases Store.leaves_allocate listedThen.sound T.cls with
    ⟨f, h, allocated, heap, leaves⟩ | ⟨⟨h, failed⟩, leaves⟩
  · left
    have wrapper := leaves.wrapper
    rw [shared.wrapper, shared.length] at wrapper
    have filter := congrFun wrapper (w.store.wrappers.length + 1)
    rw [Function.update_self] at filter
    have listedNow := listedThen.leaves leaves
    obtain ⟨cls, fresh, -⟩ := L.alloc_new _ _ _ _ allocated
    refine ⟨f, ⟨s.allocate L.toRefCounting T.cls, w.calls⟩, ?_, wrapper, ?_, ?_, listedNow, ?_, rfl,
      ?_⟩
    · simp only [iterator, stored, Store.clsOf_of_wrapper filter]
    · rw [leaves.length, shared.length]
    · rw [leaves.outside, shared.outside]
    · refine ⟨⟨cls, listedNow.sound.there_of_wrapper filter rfl⟩, ?_⟩
      intro o mem
      rw [heap]
      exact L.alloc_matches _ _ _ _ allocated o (listedThen.points mem).1 (listedThen.points mem).2
    · intro i c r m here filters
      have inside := Store.lt_of_wrapper here
      have then_ : s.wrapper i = some ⟨c, some r⟩ := by
        rw [shared.wrapper, Function.update_of_ne (Nat.ne_of_lt inside), here]
      have now : (s.allocate L.toRefCounting T.cls).wrapper i = some ⟨c, some r⟩ := by
        rw [leaves.wrapper, Function.update_of_ne (by rw [shared.length]; omega), then_]
      exact (filters.held listed shared.toLeaves then_).held listedThen leaves now
  · right
    have none_ : (s.allocate L.toRefCounting T.cls).clsOf (w.store.wrappers.length + 1) = none := by
      rw [Store.clsOf_eq, leaves.wrapper, Store.wrapper_of_le (Nat.le_of_eq shared.length)]
      rfl
    have obj_ : (s.allocate L.toRefCounting T.cls).wrapper w.store.wrappers.length =
        some ⟨T.cls, obj⟩ := by
      rw [leaves.wrapper, shared.wrapper, Function.update_self]
    have destroyed := Store.moves_destroy leaves.sound obj_
    have wrapper : ((s.allocate L.toRefCounting T.cls).destroy L.toRefCounting
        w.store.wrappers.length).wrapper = w.store.wrapper := by
      rw [destroyed.wrapper, leaves.wrapper, shared.wrapper, Function.update_idem,
        Store.update_wrapper_length]
    refine ⟨⟨(s.allocate L.toRefCounting T.cls).destroy L.toRefCounting w.store.wrappers.length,
      w.calls⟩, ?_, ⟨_, congrArg Prod.fst failed⟩, wrapper, ?_,
      (listedThen.leaves leaves).leaves destroyed.toLeaves, rfl, ?_⟩
    · simp only [iterator, stored, none_]
    · rw [destroyed.outside, leaves.outside, shared.outside]
    · intro i c r m here filters
      have inside := Store.lt_of_wrapper here
      have then_ : s.wrapper i = some ⟨c, some r⟩ := by
        rw [shared.wrapper, Function.update_of_ne (Nat.ne_of_lt inside), here]
      exact ((filters.held listed shared.toLeaves then_).held listedThen leaves
        (leaves.wrapper ▸ then_)).held (listedThen.leaves leaves) destroyed.toLeaves
        ((congrFun wrapper i).trans here)

theorem filteredIterator_listed (listed : w.store.Listed L T cache objects)
    (filters : w.store.Filters L T objects f m) (clean : w.Clean) {o : RawObject}
    {after : List RawObject} (split : objects = o :: after) (enough : after.length < fuel) {i : ℕ}
    {c : WrapperClass} (holds : w.store.wrapper i = some ⟨c, some f⟩) :
    ∃ w' more, filteredIterator L T fuel (some o) (some f) w =
        .returned ⟨w.store.wrappers.length, w.store.wrappers.length + 1⟩ w' ∧ w'.Clean ∧
      w.store.Moves L w'.store (Function.update (Function.update w.store.wrapper
        w.store.wrappers.length (some ⟨T.cls, objects.find? m⟩))
        (w.store.wrappers.length + 1) (some ⟨T.cls, some f⟩)) more := by
  have mem : o ∈ objects := by simp [split]
  have inside := Store.lt_of_wrapper holds
  have sharedObj := Store.moves_share (p := some o) listed.sound T.sharing
    fun r here => Option.some.inj here ▸ listed.points mem
  have held : (w.store.share L.toRefCounting T.cls (some o)).wrapper i = some ⟨c, some f⟩ := by
    rw [sharedObj.wrapper, Function.update_of_ne (Nat.ne_of_lt inside), holds]
  have both := sharedObj.trans (Store.moves_share (p := some f) sharedObj.sound T.sharing
    fun r here => Option.some.inj here ▸
      ⟨filters.points.1, sharedObj.sound.there_of_wrapper held rfl⟩)
  rw [sharedObj.wrapper, sharedObj.length] at both
  obtain ⟨s, stored⟩ : ∃ s, (w.store.share L.toRefCounting T.cls (some o)).share L.toRefCounting
    T.cls (some f) = s := ⟨_, rfl⟩
  rw [stored] at both
  have listedThen := listed.leaves both.toLeaves
  have filter := congrFun both.wrapper (w.store.wrappers.length + 1)
  rw [Function.update_self] at filter
  have filtersThen := filters.leaves listed both.toLeaves
    (listedThen.sound.there_of_wrapper filter rfl)
  have matched := filtersThen.matched o mem
  have cleanThen : Clean ⟨s, w.calls ++ [.matchFilter (some o) (some f)]⟩ :=
    clean.matchFilter o f
  cases verdict : m o with
  | true =>
      refine ⟨⟨s, w.calls ++ [.matchFilter (some o) (some f)]⟩, 1 + 1, ?_, cleanThen, ?_⟩
      · simp only [filteredIterator, stored, matched, verdict, if_true, called]
      · rw [split, List.find?_cons_of_pos verdict]
        exact both
  | false =>
      have at_ : At T ⟨s, w.calls ++ [.matchFilter (some o) (some f)]⟩
          ⟨w.store.wrappers.length, w.store.wrappers.length + 1⟩ (some o) (some f) := by
        refine ⟨?_, filter, Nat.ne_of_lt (Nat.lt_succ_self _)⟩
        rw [both.wrapper, Function.update_of_ne (Nat.ne_of_lt (Nat.lt_succ_self _)),
          Function.update_self]
      obtain ⟨w', stepped, cleanNow, moves⟩ := preIncrement_listed listedThen filtersThen cleanThen
        (split.trans (List.nil_append _).symm) enough at_
      refine ⟨w', 1 + 1 + 1, ?_, cleanNow, ?_⟩
      · simp only [filteredIterator, stored, matched, verdict, called, stepped,
          Outcome.next_returned, Bool.false_eq_true, if_false]
      · have whole := both.trans moves
        rw [both.wrapper, Function.update_comm (Nat.ne_of_gt (Nat.lt_succ_self _)),
          Function.update_idem] at whole
        rw [split, List.find?_cons_of_neg (by simp [verdict])]
        exact whole

end Walk

end Nlcpp
