import Nlcpp.Lib.Refcount
import Nlcpp.Lib.Run
import Mathlib.Data.Option.Basic

/-!
The wrapper classes around counted libnl objects: `Address`, `Cache`, `Message`,
`RouteAddress`, `RouteLink` and `Route`.

The classes have the same members, up to the few choices that `Members` lists;
each member is written once, statement by statement, over the raw pointer that
the wrapper holds. libnl's counting is a parameter.
-/

namespace Nlcpp

/-! ### Counted objects -/

/-- The wrapper classes, each with a raw type of its own. -/
inductive WrapperClass where
  | address | cache | message | routeAddress | routeLink | route
deriving DecidableEq, Repr

/-- A raw object: its type and its address. -/
structure RawObject where
  cls : WrapperClass
  address : ℕ
deriving DecidableEq, Repr

/-- libnl's counted objects in a heap `H`: the functions of each raw type that
allocate, clone, take and drop a reference. -/
structure RefCounting (H : Type) where
  /-- The reference count of an object, 0 when there is no such object. -/
  count : H → RawObject → ℕ
  /-- `nlmsg_alloc`, `rtnl_addr_alloc`, ..., `nl_addr_parse`: NULL when it fails. -/
  alloc : WrapperClass → H → Option RawObject × H
  /-- `nl_addr_clone`, `nl_cache_clone`: NULL when it fails. -/
  clone : RawObject → H → Option RawObject × H
  /-- `nl_addr_get`, `nl_cache_get`, `nlmsg_get`, `nl_object_get`, `rtnl_route_get`. -/
  get : RawObject → H → H
  /-- `nl_addr_put`, `nl_cache_put`, `nlmsg_free`, `rtnl_addr_put`, ... -/
  put : RawObject → H → H
  alloc_new : ∀ c h o h', alloc c h = (some o, h') →
    o.cls = c ∧ count h o = 0 ∧ count h' = Function.update (count h) o 1
  alloc_failed : ∀ c h h', alloc c h = (none, h') → count h' = count h
  clone_new : ∀ p h o h', clone p h = (some o, h') →
    o.cls = p.cls ∧ count h o = 0 ∧ count h' = Function.update (count h) o 1
  clone_failed : ∀ p h h', clone p h = (none, h') → count h' = count h
  get_adds : ∀ o h, count h o ≠ 0 → count (get o h) = Function.update (count h) o (count h o + 1)
  put_subtracts : ∀ o h, count h o ≠ 0 →
    count (put o h) = Function.update (count h) o (count h o - 1)

/-- How a class shares a raw pointer: with a test for NULL, or without. -/
inductive Sharing where
  | guarded | plain
deriving DecidableEq, Repr

/-- What copying a wrapper does: clone the object, or share it. -/
inductive Copying where
  | clones | shares
deriving DecidableEq, Repr

/-- The members a class has besides its moves and its destructor. -/
structure Members where
  allocates : Bool
  takes : Bool
  sharing : Option Sharing
  createsCopy : Bool
  copying : Option Copying
deriving DecidableEq, Repr

/-- `Address(const string &)`; `Address(nl_addr *)` creates a copy. -/
def Address.members : Members where
  allocates := true
  takes := true
  sharing := some .guarded
  createsCopy := true
  copying := some .clones

/-- `Cache(nl_cache *)` shares. -/
def Cache.members : Members where
  allocates := false
  takes := true
  sharing := some .plain
  createsCopy := true
  copying := some .shares

/-- `Message(nl_msg *)` shares; copying is not declared, so the declared move
members leave it deleted. -/
def Message.members : Members where
  allocates := true
  takes := false
  sharing := some .plain
  createsCopy := false
  copying := none

def RouteAddress.members : Members where
  allocates := true
  takes := true
  sharing := some .guarded
  createsCopy := false
  copying := none

def RouteLink.members : Members where
  allocates := true
  takes := true
  sharing := some .guarded
  createsCopy := false
  copying := none

def Route.members : Members where
  allocates := true
  takes := true
  sharing := some .guarded
  createsCopy := false
  copying := none

def WrapperClass.members : WrapperClass → Members
  | .address => Address.members
  | .cache => Cache.members
  | .message => Message.members
  | .routeAddress => RouteAddress.members
  | .routeLink => RouteLink.members
  | .route => Route.members

/-! ### Programs with wrappers -/

/-- A live wrapper: its class and the raw pointer it holds. -/
structure Wrapper where
  cls : WrapperClass
  pointer : Option RawObject
deriving DecidableEq, Repr

/-- libnl's heap, the wrappers made so far (`none` once destroyed), the references
that code outside the wrappers holds, and whether an object was touched that is
not there. -/
structure Store (H : Type) where
  heap : H
  wrappers : List (Option Wrapper)
  outside : RawObject → ℕ
  fault : Bool

/-- The raw pointer of a wrapper. -/
def Wrapper.held (w : Option Wrapper) : Option RawObject := w.bind Wrapper.pointer

namespace Store

variable {H : Type} (R : RefCounting H) (s : Store H)

/-- The raw pointers that live wrappers hold. -/
def places : List (Option RawObject) := s.wrappers.map Wrapper.held

/-- The raw pointer of wrapper `i`. -/
def pointer (i : ℕ) : Option RawObject := s.places[i]?.join

/-- The number of live wrappers that point to an object. -/
def pointingTo (o : RawObject) : ℕ := s.places.count (some o)

/-- `field = p`. -/
def setPointer (i : ℕ) (p : Option RawObject) : Store H :=
  { s with wrappers := s.wrappers.modify i (Option.map fun w => { w with pointer := p }) }

/-- A libnl function uses an object. -/
def touch (o : RawObject) : Store H :=
  { s with fault := s.fault || decide (R.count s.heap o = 0) }

/-- `put(field)`; NULL is ignored. -/
def put (i : ℕ) : Store H :=
  match s.pointer i with
  | some o => { s.touch R o with heap := R.put o s.heap }
  | none => s

/-- `get(field)` without a test for NULL. -/
def get (i : ℕ) : Store H :=
  match s.pointer i with
  | some o => { s.touch R o with heap := R.get o s.heap }
  | none => { s with fault := true }

/-- `if (field) get(field)`. -/
def getIfSet (i : ℕ) : Store H :=
  match s.pointer i with
  | some _ => s.get R i
  | none => s

/-- `field = alloc()`. -/
def allocInto (i : ℕ) (c : WrapperClass) : Store H :=
  { s with heap := (R.alloc c s.heap).2 }.setPointer i (R.alloc c s.heap).1

/-- `field = clone(raw)`. -/
def cloneInto (i : ℕ) (raw : Option RawObject) : Store H :=
  match raw with
  | some o => { s.touch R o with heap := (R.clone o s.heap).2 }.setPointer i (R.clone o s.heap).1
  | none => { s with fault := true }

/-- A new wrapper; its constructor is still to run. -/
def construct (c : WrapperClass) : Store H :=
  { s with wrappers := s.wrappers ++ [some { cls := c, pointer := none }] }

/-- The wrapper is gone. -/
def gone (i : ℕ) : Store H := { s with wrappers := s.wrappers.set i none }

/-- `if (!field) throw ...` in a constructor: the wrapper never comes to be. -/
def throwIfNull (i : ℕ) : Store H :=
  match s.pointer i with
  | some _ => s
  | none => s.gone i

end Store

/-- One operation on wrappers, or by code outside. -/
inductive WrapperOp where
  | allocate (c : WrapperClass)
  | take (c : WrapperClass) (raw : Option RawObject)
  | share (c : WrapperClass) (raw : Option RawObject)
  | createCopy (c : WrapperClass) (raw : Option RawObject)
  | copyConstruct (other : ℕ)
  | moveConstruct (other : ℕ)
  | copyAssign (this other : ℕ)
  | moveAssign (this other : ℕ)
  | destroy (this : ℕ)
  | outsideAlloc (c : WrapperClass)
  | outsideGet (o : RawObject)
  | outsidePut (o : RawObject)
deriving Repr

namespace Store

variable {H : Type} (R : RefCounting H)

/-- The class of a live wrapper. -/
def clsOf (s : Store H) (i : ℕ) : Option WrapperClass := s.wrappers[i]?.join.map Wrapper.cls

/-- `T::T()`. -/
def allocate (s : Store H) (c : WrapperClass) : Store H :=
  let i := s.wrappers.length
  ((s.construct c).allocInto R i c).throwIfNull i

/-- `T::T(raw, take_ownership_of_pointer)`: outside code gives its reference away. -/
def take (s : Store H) (c : WrapperClass) (raw : Option RawObject) : Store H :=
  let i := s.wrappers.length
  let s := (s.construct c).setPointer i raw
  match raw with
  | some o => { s with outside := Function.update s.outside o (s.outside o - 1) }
  | none => s

/-- `T::T(raw, share_ownership_of_pointer)`. -/
def share (s : Store H) (c : WrapperClass) (raw : Option RawObject) : Store H :=
  let i := s.wrappers.length
  let s := (s.construct c).setPointer i raw
  match c.members.sharing with
  | some .guarded => s.getIfSet R i
  | _ => s.get R i

/-- `T::T(raw, create_copy_from_pointer)`. -/
def createCopy (s : Store H) (c : WrapperClass) (raw : Option RawObject) : Store H :=
  let i := s.wrappers.length
  ((s.construct c).cloneInto R i raw).throwIfNull i

/-- `T::T(const T & other)`. -/
def copyConstruct (s : Store H) (other : ℕ) : Store H :=
  match s.clsOf other with
  | some c =>
    let i := s.wrappers.length
    match c.members.copying with
    | some .clones => ((s.construct c).cloneInto R i (s.pointer other)).throwIfNull i
    | _ => ((s.construct c).setPointer i (s.pointer other)).get R i
  | none => s

/-- `T::T(T && other)`. -/
def moveConstruct (s : Store H) (other : ℕ) : Store H :=
  match s.clsOf other with
  | some c =>
    let i := s.wrappers.length
    ((s.construct c).setPointer i (s.pointer other)).setPointer other none
  | none => s

/-- `T::operator=(const T & other)`. -/
def copyAssign (s : Store H) (this other : ℕ) : Store H :=
  if this = other then s
  else
    match (s.clsOf this).bind fun c => c.members.copying with
    | some .clones => (s.put R this).cloneInto R this (s.pointer other)
    | _ => ((s.put R this).setPointer this (s.pointer other)).get R this

/-- `T::operator=(T && other)`. -/
def moveAssign (s : Store H) (this other : ℕ) : Store H :=
  if this = other then s
  else ((s.put R this).setPointer this (s.pointer other)).setPointer other none

/-- `T::~T()`. -/
def destroy (s : Store H) (this : ℕ) : Store H := (s.put R this).gone this

/-- Code outside allocates, takes and drops references of its own. -/
def outsideAlloc (s : Store H) (c : WrapperClass) : Store H :=
  match R.alloc c s.heap with
  | (some o, heap) =>
    { s with heap, outside := Function.update s.outside o (s.outside o + 1) }
  | (none, heap) => { s with heap }

def outsideGet (s : Store H) (o : RawObject) : Store H :=
  { s.touch R o with
    heap := R.get o s.heap
    outside := Function.update s.outside o (s.outside o + 1) }

def outsidePut (s : Store H) (o : RawObject) : Store H :=
  { s.touch R o with
    heap := R.put o s.heap
    outside := Function.update s.outside o (s.outside o - 1) }

/-- One operation. -/
def step (s : Store H) : WrapperOp → Store H
  | .allocate c => s.allocate R c
  | .take c raw => s.take c raw
  | .share c raw => s.share R c raw
  | .createCopy c raw => s.createCopy R c raw
  | .copyConstruct other => s.copyConstruct R other
  | .moveConstruct other => s.moveConstruct other
  | .copyAssign this other => s.copyAssign R this other
  | .moveAssign this other => s.moveAssign R this other
  | .destroy this => s.destroy R this
  | .outsideAlloc c => s.outsideAlloc R c
  | .outsideGet o => s.outsideGet R o
  | .outsidePut o => s.outsidePut R o

/-- A raw pointer to an object that is there, of the raw type of the class. -/
def Points (s : Store H) (c : WrapperClass) (o : RawObject) : Prop :=
  o.cls = c ∧ R.count s.heap o ≠ 0

/-- What a program may do in a state: use the members its classes have, on live
wrappers of one class, with raw pointers to objects that are there (NULL where
the member allows it); take only references held outside; and not copy an empty
wrapper. -/
def Legal (s : Store H) : WrapperOp → Prop
  | .allocate c => c.members.allocates = true
  | .take c raw => c.members.takes = true ∧ ∀ o, raw = some o → o.cls = c ∧ 0 < s.outside o
  | .share c raw => (∃ guard, c.members.sharing = some guard ∧ (raw = none → guard = .guarded)) ∧
      ∀ o, raw = some o → s.Points R c o
  | .createCopy c raw => c.members.createsCopy = true ∧ ∃ o, raw = some o ∧ s.Points R c o
  | .copyConstruct other => ∃ c, s.clsOf other = some c ∧ c.members.copying.isSome ∧
      (s.pointer other).isSome
  | .moveConstruct other => ∃ c, s.clsOf other = some c
  | .copyAssign this other => ∃ c, s.clsOf this = some c ∧ s.clsOf other = some c ∧
      c.members.copying.isSome ∧ (this ≠ other → (s.pointer other).isSome)
  | .moveAssign this other => ∃ c, s.clsOf this = some c ∧ s.clsOf other = some c
  | .destroy this => ∃ c, s.clsOf this = some c
  | .outsideAlloc _ => True
  | .outsideGet o => R.count s.heap o ≠ 0
  | .outsidePut o => 0 < s.outside o

/-- The ledger of the wrappers: the count of each object is the references held
outside plus the live wrappers that point to it, and nothing was touched that is
not there. -/
structure Sound (s : Store H) : Prop where
  balanced : ∀ o, R.count s.heap o = s.outside o + s.pointingTo o
  unharmed : s.fault = false

end Store

/-! ### What each statement does to the ledger -/

namespace Store

variable {H : Type} {R : RefCounting H} {s : Store H} {i j : ℕ}

/-- Wrapper `i` is live. -/
def Live (s : Store H) (i : ℕ) : Prop := ∃ w, s.wrappers[i]? = some (some w)

theorem live_of_clsOf {c : WrapperClass} (cls : s.clsOf i = some c) : s.Live i := by
  unfold clsOf at cls
  cases here : s.wrappers[i]? with
  | none => simp [here] at cls
  | some w =>
      cases w with
      | none => simp [here] at cls
      | some w => exact ⟨w, here⟩

theorem place_of_live (live : s.Live i) : s.places[i]? = some (s.pointer i) := by
  obtain ⟨w, here⟩ := live
  simp [pointer, places, List.getElem?_map, here]

@[simp] theorem live_setPointer {p : Option RawObject} :
    (s.setPointer j p).Live i ↔ s.Live i := by
  unfold Live setPointer
  by_cases same : j = i
  · subst same
    simp only [List.getElem?_modify_eq]
    cases s.wrappers[j]? with
    | none => simp
    | some w => cases w <;> simp
  · simp [List.getElem?_modify_ne _ _ same]

theorem places_setPointer {p : Option RawObject} (live : s.Live i) :
    (s.setPointer i p).places = s.places.set i p := by
  obtain ⟨w, here⟩ := live
  apply List.ext_getElem?
  intro k
  simp only [places, setPointer, List.getElem?_map]
  by_cases same : i = k
  · subst same
    have inside : i < (s.wrappers.map Wrapper.held).length := by
      simpa using (List.getElem?_eq_some_iff.mp here).1
    rw [List.getElem?_modify_eq, here, List.getElem?_set_self inside]
    rfl
  · rw [List.getElem?_modify_ne _ _ same, List.getElem?_set_ne same, List.getElem?_map]

theorem setPointer_setPointer (p q : Option RawObject) :
    (s.setPointer i q).setPointer i p = s.setPointer i p := by
  simp only [setPointer]
  congr 1
  apply List.ext_getElem?
  intro k
  by_cases same : i = k
  · subst same
    simp only [List.getElem?_modify_eq]
    cases s.wrappers[i]? with
    | none => rfl
    | some w => cases w <;> rfl
  · simp [List.getElem?_modify_ne _ _ same]

theorem pointer_setPointer_self {p : Option RawObject} (live : s.Live i) :
    (s.setPointer i p).pointer i = p := by
  have inside : i < s.places.length := (List.getElem?_eq_some_iff.mp (place_of_live live)).1
  rw [pointer, places_setPointer live, List.getElem?_set_self inside]
  rfl

theorem pointer_setPointer_ne {p : Option RawObject} (live : s.Live i) (other : i ≠ j) :
    (s.setPointer i p).pointer j = s.pointer j := by
  rw [pointer, places_setPointer live, List.getElem?_set_ne other, pointer]

/-! A new wrapper is live and holds nothing. -/

theorem live_construct (c : WrapperClass) : (s.construct c).Live s.wrappers.length :=
  ⟨{ cls := c, pointer := none }, by simp [construct]⟩

theorem live_construct_of_live {c : WrapperClass} (live : s.Live i) : (s.construct c).Live i := by
  obtain ⟨w, here⟩ := live
  exact ⟨w, by simp [construct, List.getElem?_append_left (List.getElem?_eq_some_iff.mp here).1,
    here]⟩

theorem places_construct (c : WrapperClass) : (s.construct c).places = s.places ++ [none] := by
  simp [construct, places, Wrapper.held]

theorem pointer_construct_of_live {c : WrapperClass} (live : s.Live i) :
    (s.construct c).pointer i = s.pointer i := by
  have inside : i < s.places.length := (List.getElem?_eq_some_iff.mp (place_of_live live)).1
  rw [pointer, places_construct, List.getElem?_append_left inside, pointer]

theorem pointer_construct (c : WrapperClass) : (s.construct c).pointer s.wrappers.length = none := by
  simp [pointer, construct, places, Wrapper.held]

theorem live_lt_length (live : s.Live i) : i < s.wrappers.length := by
  obtain ⟨w, here⟩ := live
  exact (List.getElem?_eq_some_iff.mp here).1

/-! The ledger in terms of places. -/

theorem Sound.ledger (sound : s.Sound R) :
    Refcount.Balanced (R.count s.heap) s.outside s.places := sound.balanced

theorem Sound.of_ledger (ledger : Refcount.Balanced (R.count s.heap) s.outside s.places)
    (unharmed : s.fault = false) : s.Sound R := ⟨ledger, unharmed⟩

theorem Sound.construct (sound : s.Sound R) (c : WrapperClass) : (s.construct c).Sound R :=
  .of_ledger (by rw [places_construct]; exact sound.ledger.open_place) sound.unharmed

/-- What a live wrapper holds is there. -/
theorem Sound.there (sound : s.Sound R) (live : s.Live i) {o : RawObject}
    (holds : s.pointer i = some o) : R.count s.heap o ≠ 0 :=
  sound.ledger.counted ((place_of_live live).trans (congrArg some holds))

/-- Touching what is there does no harm. -/
theorem touch_there {o : RawObject} (there : R.count s.heap o ≠ 0) : s.touch R o = s := by
  simp [touch, there]

theorem place_of_empty (live : s.Live i) (empty : s.pointer i = none) :
    s.places[i]? = some none :=
  (place_of_live live).trans (congrArg some empty)

theorem set_place_of_empty (live : s.Live i) (empty : s.pointer i = none) :
    s.places.set i none = s.places := by
  obtain ⟨inside, here⟩ := List.getElem?_eq_some_iff.mp (place_of_empty live empty)
  exact (congrArg _ here.symm).trans (List.set_getElem_self inside)

/-- An empty wrapper goes without a trace. -/
theorem Sound.gone (sound : s.Sound R) (live : s.Live i) (empty : s.pointer i = none) :
    (s.gone i).Sound R := by
  refine .of_ledger ?_ sound.unharmed
  rw [Store.places, Store.gone, List.map_set]
  change Refcount.Balanced (R.count s.heap) s.outside (s.places.set i none)
  rw [set_place_of_empty live empty]
  exact sound.ledger

theorem Sound.throwIfNull (sound : s.Sound R) (live : s.Live i) : (s.throwIfNull i).Sound R := by
  unfold Store.throwIfNull
  cases holds : s.pointer i with
  | some o => exact sound
  | none => exact sound.gone live holds

/-- `put(field)`, after which the field no longer counts. -/
theorem Sound.put (sound : s.Sound R) (live : s.Live i) :
    ((s.put R i).setPointer i none).Sound R := by
  unfold Store.put
  cases holds : s.pointer i with
  | none =>
      refine .of_ledger ?_ sound.unharmed
      dsimp only
      rw [places_setPointer live, set_place_of_empty live holds]
      exact sound.ledger
  | some o =>
      have there := sound.there live holds
      simp only [touch_there there]
      refine .of_ledger ?_ sound.unharmed
      rw [places_setPointer (s := { s with heap := R.put o s.heap }) live]
      change Refcount.Balanced (R.count (R.put o s.heap)) s.outside (s.places.set i none)
      rw [R.put_subtracts o s.heap there]
      exact sound.ledger.release ((place_of_live live).trans (congrArg some holds))

/-- `field = raw; get(field)` on an empty wrapper. -/
theorem Sound.get (sound : s.Sound R) (live : s.Live i) (empty : s.pointer i = none)
    {o : RawObject} (there : R.count s.heap o ≠ 0) : ((s.setPointer i (some o)).get R i).Sound R := by
  unfold Store.get
  rw [pointer_setPointer_self live]
  dsimp only
  rw [touch_there (s := s.setPointer i (some o)) there]
  refine .of_ledger ?_ sound.unharmed
  change Refcount.Balanced (R.count (R.get o s.heap)) s.outside (s.setPointer i (some o)).places
  rw [places_setPointer live, R.get_adds o s.heap there]
  exact sound.ledger.acquire (place_of_empty live empty)

/-- A function of libnl that returns a new object or NULL fills an empty wrapper. -/
theorem Sound.fill (sound : s.Sound R) (live : s.Live i) (empty : s.pointer i = none)
    {result : Option RawObject × H}
    (new : ∀ o h, result = (some o, h) →
      R.count s.heap o = 0 ∧ R.count h = Function.update (R.count s.heap) o 1)
    (failed : ∀ h, result = (none, h) → R.count h = R.count s.heap) :
    ({ s with heap := result.2 }.setPointer i result.1).Sound R := by
  obtain ⟨p, h⟩ := result
  refine .of_ledger ?_ sound.unharmed
  rw [places_setPointer (s := { s with heap := h }) live]
  change Refcount.Balanced (R.count h) s.outside (s.places.set i p)
  cases p with
  | none =>
      rw [failed h rfl, set_place_of_empty live empty]
      exact sound.ledger
  | some o =>
      obtain ⟨fresh, counted⟩ := new o h rfl
      have acquired := sound.ledger.acquire (o := o) (place_of_empty live empty)
      rw [fresh] at acquired
      rw [counted]
      exact acquired

theorem Sound.allocInto (sound : s.Sound R) (live : s.Live i) (empty : s.pointer i = none)
    (c : WrapperClass) : (s.allocInto R i c).Sound R :=
  sound.fill live empty (fun o h new => (R.alloc_new c s.heap o h new).2)
    (R.alloc_failed c s.heap)

theorem Sound.cloneInto (sound : s.Sound R) (live : s.Live i) (empty : s.pointer i = none)
    {o : RawObject} (there : R.count s.heap o ≠ 0) : (s.cloneInto R i (some o)).Sound R := by
  simp only [Store.cloneInto, touch_there there]
  exact sound.fill live empty (fun p h new => (R.clone_new o s.heap p h new).2)
    (R.clone_failed o s.heap)

/-- `field = other.field; other.field = nullptr` on an empty wrapper. -/
theorem Sound.hand_over (sound : s.Sound R) (live : s.Live i) (empty : s.pointer i = none)
    (liveOther : s.Live j) (distinct : i ≠ j) :
    ((s.setPointer i (s.pointer j)).setPointer j none).Sound R := by
  refine .of_ledger ?_ sound.unharmed
  rw [places_setPointer (live_setPointer.mpr liveOther), places_setPointer live]
  exact sound.ledger.hand_over (place_of_empty live empty) (place_of_live liveOther) distinct

@[simp] theorem live_put : (s.put R i).Live j ↔ s.Live j := by
  unfold Store.put
  split <;> rfl

@[simp] theorem pointer_put : (s.put R i).pointer j = s.pointer j := by
  unfold Store.put
  split <;> rfl

/-- Cloning into a field overwrites what it held. -/
theorem cloneInto_setPointer {p : Option RawObject} (o : RawObject) :
    (s.setPointer i p).cloneInto R i (some o) = s.cloneInto R i (some o) :=
  setPointer_setPointer (s := { s.touch R o with heap := (R.clone o s.heap).2 }) _ p

/-! ### The members -/

theorem Sound.allocate (sound : s.Sound R) (c : WrapperClass) : (s.allocate R c).Sound R :=
  ((sound.construct c).allocInto (live_construct c) (pointer_construct c) c).throwIfNull
    (live_setPointer.mpr (live_construct c))

/-- A new wrapper around NULL. -/
theorem Sound.around_null (sound : s.Sound R) (c : WrapperClass) :
    ((s.construct c).setPointer s.wrappers.length none).Sound R := by
  refine .of_ledger ?_ sound.unharmed
  rw [places_setPointer (live_construct c),
    set_place_of_empty (live_construct c) (pointer_construct c)]
  exact (sound.construct c).ledger

theorem Sound.take (sound : s.Sound R) {c : WrapperClass} {raw : Option RawObject}
    (legal : s.Legal R (.take c raw)) : (s.take c raw).Sound R := by
  unfold Store.take
  cases raw with
  | none => exact sound.around_null c
  | some o =>
      refine .of_ledger ?_ sound.unharmed
      change Refcount.Balanced (R.count s.heap) _
        ((s.construct c).setPointer s.wrappers.length (some o)).places
      rw [places_setPointer (live_construct c)]
      exact (sound.construct c).ledger.adopt (place_of_empty (live_construct c)
        (pointer_construct c)) (legal.2 o rfl).2

theorem Sound.share (sound : s.Sound R) {c : WrapperClass} {raw : Option RawObject}
    (legal : s.Legal R (.share c raw)) : (s.share R c raw).Sound R := by
  obtain ⟨⟨guard, sharing, null⟩, points⟩ := legal
  unfold Store.share
  rw [sharing]
  cases raw with
  | none =>
      obtain rfl := null rfl
      simp only [getIfSet, pointer_setPointer_self (live_construct c)]
      exact sound.around_null c
  | some o =>
      have shared := (sound.construct c).get (live_construct c) (pointer_construct c)
        (points o rfl).2
      cases guard with
      | guarded =>
          simp only [getIfSet, pointer_setPointer_self (live_construct c)]
          exact shared
      | plain => exact shared

/-- A constructor that clones. -/
theorem Sound.construct_clone (sound : s.Sound R) (c : WrapperClass) {o : RawObject}
    (there : R.count s.heap o ≠ 0) :
    (((s.construct c).cloneInto R s.wrappers.length (some o)).throwIfNull
      s.wrappers.length).Sound R :=
  ((sound.construct c).cloneInto (live_construct c) (pointer_construct c) there).throwIfNull
    (live_setPointer.mpr (live_construct c))

theorem Sound.createCopy (sound : s.Sound R) {c : WrapperClass} {raw : Option RawObject}
    (legal : s.Legal R (.createCopy c raw)) : (s.createCopy R c raw).Sound R := by
  obtain ⟨-, o, rfl, -, there⟩ := legal
  exact sound.construct_clone c there

theorem Sound.copyConstruct (sound : s.Sound R) (legal : s.Legal R (.copyConstruct j)) :
    (s.copyConstruct R j).Sound R := by
  obtain ⟨c, cls, copies, full⟩ := legal
  obtain ⟨o, holds⟩ := Option.isSome_iff_exists.mp full
  obtain ⟨copying, copies⟩ := Option.isSome_iff_exists.mp copies
  have there := sound.there (live_of_clsOf cls) holds
  unfold Store.copyConstruct
  rw [cls, holds]
  dsimp only
  rw [copies]
  cases copying with
  | clones => exact sound.construct_clone c there
  | shares => exact (sound.construct c).get (live_construct c) (pointer_construct c) there

theorem Sound.moveConstruct (sound : s.Sound R) (legal : s.Legal R (.moveConstruct j)) :
    (s.moveConstruct j).Sound R := by
  obtain ⟨c, cls⟩ := legal
  have live := live_of_clsOf cls
  unfold Store.moveConstruct
  rw [cls, ← pointer_construct_of_live (c := c) live]
  exact (sound.construct c).hand_over (live_construct c) (pointer_construct c)
    (live_construct_of_live live) (Nat.ne_of_gt (live_lt_length live))

theorem Sound.copyAssign (sound : s.Sound R) (legal : s.Legal R (.copyAssign i j)) :
    (s.copyAssign R i j).Sound R := by
  obtain ⟨c, cls, clsOther, copies, full⟩ := legal
  unfold Store.copyAssign
  by_cases self : i = j
  · rw [if_pos self]
    exact sound
  · have live := live_of_clsOf cls
    obtain ⟨o, holds⟩ := Option.isSome_iff_exists.mp (full self)
    obtain ⟨copying, copies⟩ := Option.isSome_iff_exists.mp copies
    -- The reference of before is dropped; the other wrapper still holds its object.
    have dropped := sound.put live
    have liveThis : ((s.put R i).setPointer i none).Live i := live_setPointer.mpr (live_put.mpr live)
    have emptyThis := pointer_setPointer_self (s := s.put R i) (p := none) (live_put.mpr live)
    have there : R.count ((s.put R i).setPointer i none).heap o ≠ 0 := by
      refine dropped.there (i := j) ?_ ?_
      · exact live_setPointer.mpr (live_put.mpr (live_of_clsOf clsOther))
      · rw [pointer_setPointer_ne (live_put.mpr live) self, pointer_put, holds]
    rw [if_neg self, cls, holds, Option.bind_some, copies]
    cases copying with
    | clones =>
        have cloned := dropped.cloneInto liveThis emptyThis there
        rwa [cloneInto_setPointer] at cloned
    | shares =>
        have shared := dropped.get liveThis emptyThis there
        rwa [setPointer_setPointer] at shared

theorem Sound.moveAssign (sound : s.Sound R) (legal : s.Legal R (.moveAssign i j)) :
    (s.moveAssign R i j).Sound R := by
  obtain ⟨c, cls, clsOther⟩ := legal
  unfold Store.moveAssign
  by_cases self : i = j
  · rw [if_pos self]
    exact sound
  · have live := live_of_clsOf cls
    have moved := (sound.put live).hand_over (i := i) (j := j)
      (live_setPointer.mpr (live_put.mpr live))
      (pointer_setPointer_self (live_put.mpr live))
      (live_setPointer.mpr (live_put.mpr (live_of_clsOf clsOther))) self
    rw [pointer_setPointer_ne (live_put.mpr live) self, pointer_put, setPointer_setPointer] at moved
    rwa [if_neg self]

theorem Sound.destroy (sound : s.Sound R) (legal : s.Legal R (.destroy i)) :
    (s.destroy R i).Sound R := by
  obtain ⟨c, cls⟩ := legal
  have live : (s.put R i).Live i := live_put.mpr (live_of_clsOf cls)
  have dropped := sound.put (live_of_clsOf cls)
  have same : ((s.put R i).gone i).places = ((s.put R i).setPointer i none).places := by
    rw [places_setPointer live, Store.places, Store.gone, List.map_set]
    rfl
  exact .of_ledger (same ▸ dropped.ledger) dropped.unharmed

theorem Sound.outsideAlloc (sound : s.Sound R) (c : WrapperClass) :
    (s.outsideAlloc R c).Sound R := by
  unfold Store.outsideAlloc
  rcases result : R.alloc c s.heap with ⟨_ | o, heap⟩
  · refine .of_ledger ?_ sound.unharmed
    change Refcount.Balanced (R.count heap) s.outside s.places
    rw [R.alloc_failed c s.heap heap result]
    exact sound.ledger
  · obtain ⟨-, fresh, counted⟩ := R.alloc_new c s.heap o heap result
    refine .of_ledger ?_ sound.unharmed
    change Refcount.Balanced (R.count heap) (Function.update s.outside o (s.outside o + 1)) s.places
    have acquired := sound.ledger.acquire_outside (o := o)
    rw [fresh] at acquired
    rw [counted]
    exact acquired

theorem Sound.outsideGet (sound : s.Sound R) {o : RawObject} (there : R.count s.heap o ≠ 0) :
    (s.outsideGet R o).Sound R := by
  rw [Store.outsideGet, touch_there there]
  refine .of_ledger ?_ sound.unharmed
  change Refcount.Balanced (R.count (R.get o s.heap)) _ s.places
  rw [R.get_adds o s.heap there]
  exact sound.ledger.acquire_outside

theorem Sound.outsidePut (sound : s.Sound R) {o : RawObject} (held : 0 < s.outside o) :
    (s.outsidePut R o).Sound R := by
  have there : R.count s.heap o ≠ 0 := by
    have := sound.balanced o
    omega
  rw [Store.outsidePut, touch_there there]
  refine .of_ledger ?_ sound.unharmed
  change Refcount.Balanced (R.count (R.put o s.heap)) _ s.places
  rw [R.put_subtracts o s.heap there]
  exact sound.ledger.release_outside held

/-- Every legal operation keeps the ledger. -/
theorem Sound.step (sound : s.Sound R) {op : WrapperOp} (legal : s.Legal R op) :
    (s.step R op).Sound R := by
  cases op with
  | allocate c => exact sound.allocate c
  | take c raw => exact sound.take legal
  | share c raw => exact sound.share legal
  | createCopy c raw => exact sound.createCopy legal
  | copyConstruct other => exact sound.copyConstruct legal
  | moveConstruct other => exact sound.moveConstruct legal
  | copyAssign this other => exact sound.copyAssign legal
  | moveAssign this other => exact sound.moveAssign legal
  | destroy this => exact sound.destroy legal
  | outsideAlloc c => exact sound.outsideAlloc c
  | outsideGet o => exact sound.outsideGet legal
  | outsidePut o => exact sound.outsidePut legal

end Store

/-- **Reference ledger of the wrappers.** In every state of every legal program
that starts without wrappers, the count of each object is the references held
outside plus the live wrappers that point to it, and no operation has touched an
object that is not there. -/
theorem ledger_of_legal_program {H : Type} (R : RefCounting H) (heap : H)
    (outside : RawObject → ℕ) (start : ∀ o, R.count heap o = outside o) (ops : List WrapperOp)
    (legal : Run.Guarded (Store.step R) (Store.Legal R) ⟨heap, [], outside, false⟩ ops) :
    ∀ s ∈ Run.states (Store.step R) ⟨heap, [], outside, false⟩ ops, s.Sound R :=
  legal.forall_states (fun _ _ sound legal => sound.step legal) ⟨start, rfl⟩

/-- A heap that hands out ever new addresses. -/
structure Heap where
  count : RawObject → ℕ
  next : ℕ
  beyond : ∀ o, next ≤ o.address → count o = 0

namespace Heap

/-- A new object with one reference. -/
def new (c : WrapperClass) (h : Heap) : RawObject × Heap :=
  (⟨c, h.next⟩,
    { count := Function.update h.count ⟨c, h.next⟩ 1
      next := h.next + 1
      beyond := fun o far => by
        have other : o ≠ ⟨c, h.next⟩ := by
          rintro rfl
          exact absurd far (Nat.not_succ_le_self _)
        rw [Function.update_of_ne other]
        exact h.beyond o (by omega) })

/-- Change the count of an object that is there. -/
def recount (o : RawObject) (n : ℕ) (h : Heap) : Heap where
  count := if h.count o = 0 then h.count else Function.update h.count o n
  next := h.next
  beyond := fun p far => by
    have none := h.beyond p far
    split
    · exact none
    · next there =>
        rw [Function.update_of_ne]
        · exact none
        · rintro rfl
          exact there none

end Heap

/-- Reference counting in which allocation never fails. -/
def RefCounting.reference : RefCounting Heap where
  count := Heap.count
  alloc c h := ((h.new c).1, (h.new c).2)
  clone o h := ((h.new o.cls).1, (h.new o.cls).2)
  get o h := h.recount o (h.count o + 1)
  put o h := h.recount o (h.count o - 1)
  alloc_new c h o h' new := by
    cases new
    exact ⟨rfl, h.beyond _ (Nat.le_refl _), rfl⟩
  alloc_failed c h h' new := by cases new
  clone_new p h o h' new := by
    cases new
    exact ⟨rfl, h.beyond _ (Nat.le_refl _), rfl⟩
  clone_failed p h h' new := by cases new
  get_adds o h there := if_neg there
  put_subtracts o h there := if_neg there

/-- Two `Cache` wrappers of one object: one takes it over, the other is a copy;
they are assigned to each other and destroyed. -/
def twoCaches : List WrapperOp :=
  [.outsideAlloc .cache, .take .cache (some ⟨.cache, 0⟩), .copyConstruct 0, .copyAssign 0 1,
    .moveAssign 0 1, .destroy 0, .destroy 1]

theorem ledger_of_two_caches :
    (Run.final (Store.step .reference) ⟨⟨fun _ => 0, 0, fun _ _ => rfl⟩, [], fun _ => 0, false⟩
      twoCaches).Sound .reference :=
  ledger_of_legal_program .reference ⟨fun _ => 0, 0, fun _ _ => rfl⟩ (fun _ => 0) (fun _ => rfl)
    twoCaches
    ⟨trivial, ⟨rfl, fun _ same => by cases same; exact ⟨rfl, by decide⟩⟩,
      ⟨.cache, rfl, rfl, rfl⟩, ⟨.cache, rfl, rfl, rfl, fun _ => rfl⟩, ⟨.cache, rfl, rfl⟩,
      ⟨.cache, rfl⟩, ⟨.cache, rfl⟩, trivial⟩ _ (Run.final_mem_states _ _)

end Nlcpp
