import Nlcpp.Lib.Exclusive
import Mathlib.Data.Option.Basic

/-!
Exclusive resources: the `nl_sock` and `nl_cb` of a `Socket`, the
`nl_cache_mngr` of a `CacheManager`, and the vector of watch callbacks of a
`RouteAddressCache`.

`Socket` and `CacheManager` declare a destructor and no other special member, so
the compiler generates copy members for them, and what looks like a move is a
copy as well. `RouteAddressCache` declares none: its `unique_ptr` makes it movable
and not copyable. No destructor is virtual.
-/

namespace Nlcpp

inductive ResourceKind where
  | sock | callbacks | mngr | callbackVector
deriving DecidableEq, Repr

/-- A resource: its kind and a number that no other resource has. -/
structure Resource where
  kind : ResourceKind
  id : ℕ
deriving DecidableEq, Repr

/-- An object with the numbers of the resources that its fields name. A derived
class (`RouteSocket`, `GenericSocket`, `RouteCacheManager`) adds none. -/
inductive Owner where
  | socket (sock callbacks : ℕ)
  | cacheManager (mngr : ℕ)
  | routeAddressCache (callbacks : Option ℕ)
deriving DecidableEq, Repr

namespace Owner

/-- The resources that the fields name. -/
def resources : Owner → List Resource
  | .socket sock callbacks => [⟨.callbacks, callbacks⟩, ⟨.sock, sock⟩]
  | .cacheManager mngr => [⟨.mngr, mngr⟩]
  | .routeAddressCache callbacks => callbacks.toList.map (⟨.callbackVector, ·⟩)

/-- The class has copy members, generated by the compiler. -/
def copyable : Owner → Bool
  | .socket .. => true
  | .cacheManager _ => true
  | .routeAddressCache _ => false

/-- Both objects are of one class that has a generated copy assignment. -/
def copyAssignable : Owner → Owner → Bool
  | .socket .., .socket .. => true
  | .cacheManager _, .cacheManager _ => true
  | _, _ => false

end Owner

/-- A live object, and whether it is held behind a pointer to its base class. -/
structure Held where
  object : Owner
  byBase : Bool
deriving DecidableEq, Repr

/-- What the destructor that runs releases. Behind a pointer to `Cache`, that of
`RouteAddressCache` does not run. -/
def Held.released : Held → List Resource
  | ⟨.socket sock callbacks, _⟩ => [⟨.callbacks, callbacks⟩, ⟨.sock, sock⟩]
  | ⟨.cacheManager mngr, _⟩ => [⟨.mngr, mngr⟩]
  | ⟨.routeAddressCache callbacks, byBase⟩ =>
    if byBase then [] else callbacks.toList.map (⟨.callbackVector, ·⟩)

/-- All resources created, the releases made, and the objects (`none` once
destroyed). -/
structure Estate where
  created : List Resource
  released : List Resource
  objects : List (Option Held)
deriving DecidableEq, Repr

/-- How far `Socket::Socket` gets. -/
inductive SocketOutcome where
  | constructed | noSocket | notConnected | noCallbacks
deriving DecidableEq, Repr

/-- One operation on objects of the three classes. A constructor may throw. -/
inductive OwnerOp where
  | socket (outcome : SocketOutcome)
  | cacheManager (fails : Bool)
  | addressCache (this : ℕ) (fails : Bool)
  | copyConstruct (other : ℕ)
  | moveConstruct (other : ℕ)
  | copyAssign (this other : ℕ)
  | moveAssign (this other : ℕ)
  | holdByBase (this : ℕ)
  | destroy (this : ℕ)
deriving DecidableEq, Repr

namespace Estate

variable (s : Estate)

/-- The object with this number, when it is live. -/
def held (i : ℕ) : Option Held := s.objects[i]?.join

/-- A new object. -/
def push (o : Owner) : Estate := { s with objects := s.objects ++ [some ⟨o, false⟩] }

/-- Change an object. -/
def put (i : ℕ) (h : Option Held) : Estate := { s with objects := s.objects.set i h }

/-- The number of the next resource. -/
def next : ℕ := s.created.length

/-- Create resources. -/
def create (rs : List Resource) : Estate := { s with created := s.created ++ rs }

/-- Release resources. -/
def release (rs : List Resource) : Estate := { s with released := s.released ++ rs }

/-- A new object that owns the resources its fields name. -/
def construct (o : Owner) : Estate := (s.create o.resources).push o

/-- A resource that is released before the constructor throws. -/
def abandon (r : Resource) : Estate := (s.create [r]).release [r]

/-- `Socket::Socket`. -/
def constructSocket : SocketOutcome → Estate
  | .noSocket => s
  | .notConnected => s.abandon ⟨.sock, s.next⟩
  | .noCallbacks => s.abandon ⟨.sock, s.next⟩
  | .constructed => s.construct (.socket s.next (s.next + 1))

/-- `CacheManager::CacheManager`. -/
def constructCacheManager (fails : Bool) : Estate :=
  if fails then s else s.construct (.cacheManager s.next)

/-- `RouteCacheManager::addressCache`: the vector moves into the result, unless
`nl_cache_mngr_add` fails. -/
def addressCache (this : ℕ) (fails : Bool) : Estate :=
  match s.held this with
  | some ⟨.cacheManager _, false⟩ =>
    if fails then s.abandon ⟨.callbackVector, s.next⟩
    else s.construct (.routeAddressCache (some s.next))
  | _ => s

/-- `T(const T &)`: generated where the class has it. -/
def copyConstruct (other : ℕ) : Estate :=
  match s.held other with
  | some h => if h.object.copyable then s.push h.object else s
  | none => s

/-- `T(T &&)`: the generated one of `RouteAddressCache`; for the other classes a
copy. -/
def moveConstruct (other : ℕ) : Estate :=
  match s.held other with
  | some ⟨.routeAddressCache callbacks, false⟩ =>
    (s.put other (some ⟨.routeAddressCache none, false⟩)).push (.routeAddressCache callbacks)
  | _ => s.copyConstruct other

/-- `operator=(const T &)`: generated where the class has it. -/
def copyAssign (this other : ℕ) : Estate :=
  match s.held this, s.held other with
  | some h, some g =>
    if h.object.copyAssignable g.object then s.put this (some { h with object := g.object })
    else s
  | _, _ => s

/-- `operator=(T &&)`: the generated one of `RouteAddressCache`; for the other
classes a copy. -/
def moveAssign (this other : ℕ) : Estate :=
  match s.held this, s.held other with
  | some ⟨.routeAddressCache mine, false⟩, some ⟨.routeAddressCache callbacks, false⟩ =>
    if this = other then s
    else
      ((s.release (mine.toList.map (⟨.callbackVector, ·⟩))).put this
        (some ⟨.routeAddressCache callbacks, false⟩)).put other
          (some ⟨.routeAddressCache none, false⟩)
  | _, _ => s.copyAssign this other

/-- Keep the object behind a pointer to its base class from now on. -/
def holdByBase (this : ℕ) : Estate :=
  match s.held this with
  | some h => s.put this (some { h with byBase := true })
  | none => s

/-- The destructor of the type the object is held by. -/
def destroy (this : ℕ) : Estate :=
  match s.held this with
  | some h => (s.release h.released).put this none
  | none => s

/-- One operation. What the class definitions do not admit has no effect. -/
def step (s : Estate) : OwnerOp → Estate
  | .socket outcome => s.constructSocket outcome
  | .cacheManager fails => s.constructCacheManager fails
  | .addressCache this fails => s.addressCache this fails
  | .copyConstruct other => s.copyConstruct other
  | .moveConstruct other => s.moveConstruct other
  | .copyAssign this other => s.copyAssign this other
  | .moveAssign this other => s.moveAssign this other
  | .holdByBase this => s.holdByBase this
  | .destroy this => s.destroy this

/-- Nothing was created and no object made. -/
def empty : Estate := ⟨[], [], []⟩

/-- Every object was destroyed. -/
def Over : Prop := ∀ h ∈ s.objects, h = none

/-- Every resource was released exactly once. -/
def ReleasedOnce : Prop := s.released.Perm s.created

instance : Decidable s.Over := inferInstanceAs (Decidable (∀ h ∈ s.objects, h = none))

instance : Decidable s.ReleasedOnce := inferInstanceAs (Decidable (s.released.Perm s.created))

/-- The object can be copied. -/
def Copyable (i : ℕ) : Prop := ∃ h, s.held i = some h ∧ h.object.copyable = true

/-- The first object can be copy-assigned from the second. -/
def CopyAssignable (i j : ℕ) : Prop :=
  ∃ h g, s.held i = some h ∧ s.held j = some g ∧ h.object.copyAssignable g.object = true

/-- A `RouteAddressCache` that still has its vector is held by its base class. -/
def HidesVector (i : ℕ) : Prop :=
  ∃ callbacks, s.held i = some ⟨.routeAddressCache (some callbacks), true⟩

/-- What keeps ownership unique: no copy of a socket or manager is made (also not by
what looks like a move), none is assigned from another one, and no cache with its
vector is destroyed through its base class. -/
def Careful (s : Estate) : OwnerOp → Prop
  | .copyConstruct other => ¬s.Copyable other
  | .moveConstruct other => ¬s.Copyable other
  | .copyAssign this other => s.CopyAssignable this other → this = other
  | .moveAssign this other => s.CopyAssignable this other → this = other
  | .destroy this => ¬s.HidesVector this
  | _ => True

/-! ### The ledger of an estate -/

/-- What a place in the list of objects holds. -/
def holding : Option Held → List Resource
  | some h => h.object.resources
  | none => []

/-- An entry for every release and one for every field that names a resource. -/
def ledger : Exclusive.Ledger Resource where
  created := s.created
  accounted := s.released ++ s.objects.flatMap holding

/-- Sockets, callback sets and managers are never dropped. -/
def heavy (r : Resource) : Bool := r.kind != .callbackVector

/-- The numbers of resources are used up in order. -/
def Numbered : Prop := ∀ r ∈ s.created, r.id < s.next

variable {s} {i j : ℕ} {h : Held}

theorem place_of_held (held : s.held i = some h) : s.objects[i]? = some (some h) := by
  unfold Estate.held at held
  cases place : s.objects[i]? with
  | none => simp [place] at held
  | some x => simpa [place] using held

/-- What is accounted for besides the fields of object `i`. -/
def rest (s : Estate) (i : ℕ) : List Resource :=
  s.released ++ (s.objects.eraseIdx i).flatMap holding

theorem accounted_perm (held : s.held i = some h) :
    s.ledger.accounted.Perm (s.rest i ++ h.object.resources) := by
  rw [rest, List.append_assoc]
  exact (Exclusive.flatMap_perm holding (place_of_held held)).append_left s.released

theorem accounted_put (held : s.held i = some h) (x : Option Held) :
    (s.put i x).ledger.accounted.Perm (s.rest i ++ holding x) := by
  rw [rest, List.append_assoc]
  exact (Exclusive.flatMap_set_perm holding (place_of_held held) x).append_left s.released

theorem accounted_push (o : Owner) :
    (s.push o).ledger.accounted = s.ledger.accounted ++ o.resources := by
  simp [ledger, push, holding]

/-- Releasing adds the releases to what is accounted for. -/
theorem accounted_release (rs : List Resource) :
    (s.release rs).ledger.accounted.Perm (s.ledger.accounted ++ rs) := by
  simp only [ledger, release, List.append_assoc]
  exact List.perm_append_comm.append_left s.released

theorem rest_release (rs : List Resource) :
    ((s.release rs).rest i).Perm (s.rest i ++ rs) := by
  simp only [rest, release, List.append_assoc]
  exact List.perm_append_comm.append_left s.released

/-! ### What each operation does to the ledger -/

/-- A constructor that creates the resources its fields name. -/
theorem honest_construct (numbered : s.Numbered) (o : Owner) (distinct : o.resources.Nodup)
    (unused : ∀ r ∈ o.resources, s.next ≤ r.id) :
    Exclusive.Honest s.ledger (s.construct o).ledger := by
  refine .opens o.resources distinct ?_ (List.Perm.refl _) ?_
  · intro r isNew old
    exact absurd (numbered r old) (Nat.not_lt.mpr (unused r isNew))
  · rw [construct, accounted_push]
    exact List.Perm.refl _

/-- A constructor that throws has released what it created. -/
theorem honest_abandon (numbered : s.Numbered) (kind : ResourceKind) :
    Exclusive.Honest s.ledger (s.abandon ⟨kind, s.next⟩).ledger := by
  refine .opens [⟨kind, s.next⟩] (by simp) ?_ (List.Perm.refl _) ?_
  · intro r isNew old
    rw [List.mem_singleton.mp isNew] at old
    exact absurd (numbered _ old) (Nat.lt_irrefl _)
  · exact accounted_release (s := s.create [⟨kind, s.next⟩]) [⟨kind, s.next⟩]

theorem dishonest_copy (held : s.held i = some h) (copyable : h.object.copyable = true) :
    Exclusive.Dishonest heavy s.ledger (s.push h.object).ledger := by
  refine .copies rfl h.object.resources ?_ ?_ ?_
  · intro r holds
    exact (accounted_perm held).mem_iff.mpr (List.mem_append_right _ holds)
  · cases object : h.object with
    | socket sock callbacks => exact ⟨⟨.sock, sock⟩, by simp [Owner.resources], rfl⟩
    | cacheManager mngr => exact ⟨⟨.mngr, mngr⟩, by simp [Owner.resources], rfl⟩
    | routeAddressCache callbacks =>
        rw [object] at copyable
        cases copyable
  · rw [accounted_push]

/-- Assigning a socket or a manager from itself changes nothing. -/
theorem put_self (held : s.held i = some h) : s.put i (some h) = s := by
  obtain ⟨inside, here⟩ := List.getElem?_eq_some_iff.mp (place_of_held held)
  unfold put
  rw [← here, List.set_getElem_self]

/-- Objects that can be assigned name the same kinds of resources. -/
theorem weight_of_copyAssignable {o o' : Owner} (assignable : o.copyAssignable o' = true) :
    o.resources ≠ [] ∧ o.resources.countP heavy = o'.resources.countP heavy := by
  cases o with
  | socket sock callbacks =>
      cases o' with
      | socket sock' callbacks' => exact ⟨by simp [Owner.resources], rfl⟩
      | cacheManager mngr => cases assignable
      | routeAddressCache callbacks' => cases assignable
  | cacheManager mngr =>
      cases o' with
      | socket sock callbacks => cases assignable
      | cacheManager mngr' => exact ⟨by simp [Owner.resources], rfl⟩
      | routeAddressCache callbacks => cases assignable
  | routeAddressCache callbacks => cases o' <;> cases assignable

theorem dishonest_assign {g : Held} (held : s.held i = some h) (heldOther : s.held j = some g)
    (assignable : h.object.copyAssignable g.object = true) (other : i ≠ j) :
    Exclusive.Dishonest heavy s.ledger (s.put i (some { h with object := g.object })).ledger := by
  obtain ⟨some_old, same_weight⟩ := weight_of_copyAssignable assignable
  refine .overwrites rfl (s.rest i) h.object.resources g.object.resources ?_ some_old same_weight
    (accounted_perm held) (accounted_put held _)
  intro r holds
  exact List.mem_append_right _
    (Exclusive.mem_eraseIdx_flatMap holding (place_of_held heldOther) other.symm holds)

/-- The vector moves from one cache object into a new one. -/
theorem honest_moveConstruct {callbacks : Option ℕ}
    (held : s.held i = some ⟨.routeAddressCache callbacks, false⟩) :
    Exclusive.Honest s.ledger ((s.put i (some ⟨.routeAddressCache none, false⟩)).push
      (.routeAddressCache callbacks)).ledger := by
  refine .keeps rfl ?_
  rw [accounted_push]
  refine .trans ?_ (accounted_perm held).symm
  have emptied := accounted_put held (some ⟨.routeAddressCache none, false⟩)
  simp only [holding, Owner.resources, Option.toList_none, List.map_nil, List.append_nil] at emptied
  exact emptied.append_right _

theorem held_put_ne {x : Option Held} (other : i ≠ j) : (s.put i x).held j = s.held j := by
  simp only [Estate.held, put, List.getElem?_set_ne other]

/-- The assigned-to cache releases its vector and takes over the other one's. -/
theorem honest_moveAssign {mine callbacks : Option ℕ}
    (held : s.held i = some ⟨.routeAddressCache mine, false⟩)
    (heldOther : s.held j = some ⟨.routeAddressCache callbacks, false⟩) (other : i ≠ j) :
    Exclusive.Honest s.ledger (((s.release (mine.toList.map (⟨.callbackVector, ·⟩))).put i
      (some ⟨.routeAddressCache callbacks, false⟩)).put j
        (some ⟨.routeAddressCache none, false⟩)).ledger := by
  refine .keeps rfl ?_
  have released := accounted_release (s := s) (mine.toList.map (⟨.callbackVector, ·⟩))
  generalize taken : s.release (mine.toList.map (⟨.callbackVector, ·⟩)) = t at released ⊢
  have heldT : t.held i = some ⟨.routeAddressCache mine, false⟩ := by rw [← taken]; exact held
  have heldOtherT : (t.put i (some ⟨.routeAddressCache callbacks, false⟩)).held j =
      some ⟨.routeAddressCache callbacks, false⟩ := by
    rw [held_put_ne other, ← taken]
    exact heldOther
  -- Both the old and the new owner of the other vector are taken out of the account.
  have filled := accounted_put heldT (some ⟨.routeAddressCache callbacks, false⟩)
  have emptied := accounted_put heldOtherT (some ⟨.routeAddressCache none, false⟩)
  have owned := accounted_perm heldOtherT
  have before := accounted_perm heldT
  simp only [holding, Owner.resources, Option.toList_none, List.map_nil, List.append_nil]
    at filled emptied owned before
  have same := (List.perm_append_right_iff _).mp (owned.symm.trans filled)
  refine emptied.trans (same.trans ?_)
  exact (List.perm_append_right_iff _).mp (before.symm.trans released)

theorem honest_holdByBase (held : s.held i = some h) :
    Exclusive.Honest s.ledger (s.put i (some { h with byBase := true })).ledger :=
  .keeps rfl ((accounted_put held _).trans (accounted_perm held).symm)

/-- A destructor that releases what the fields name. -/
theorem honest_destroy (held : s.held i = some h) (all : h.released = h.object.resources) :
    Exclusive.Honest s.ledger ((s.release h.released).put i none).ledger := by
  refine .keeps rfl ?_
  have gone := accounted_put (s := s.release h.released) held none
  simp only [holding, List.append_nil] at gone
  refine gone.trans ((rest_release h.released).trans ?_)
  rw [all]
  exact (accounted_perm held).symm

theorem dishonest_destroy {callbacks : ℕ}
    (held : s.held i = some ⟨.routeAddressCache (some callbacks), true⟩) :
    Exclusive.Dishonest heavy s.ledger ((s.release []).put i none).ledger := by
  refine .drops rfl ⟨.callbackVector, callbacks⟩ rfl ?_
  have gone := accounted_put (s := s.release []) held none
  simp only [holding, List.append_nil] at gone
  refine (accounted_perm held).trans ?_
  refine List.perm_append_comm.trans ((List.Perm.cons _ ?_))
  refine .trans ?_ gone.symm
  simpa using (rest_release (s := s) (i := i) []).symm

/-! ### Which operations are honest -/

theorem copyConstruct_cases (s : Estate) (i : ℕ) :
    (¬s.Copyable i ∧ s.copyConstruct i = s) ∨
    ∃ h, s.held i = some h ∧ h.object.copyable = true ∧ s.copyConstruct i = s.push h.object := by
  unfold copyConstruct
  cases held : s.held i with
  | none => exact .inl ⟨by simp [Copyable, held], rfl⟩
  | some h =>
      cases copyable : h.object.copyable with
      | true => exact .inr ⟨h, rfl, copyable, by simp [copyable]⟩
      | false => exact .inl ⟨by simp [Copyable, held, copyable], by simp [copyable]⟩

theorem copyAssign_cases (s : Estate) (i j : ℕ) :
    (¬s.CopyAssignable i j ∧ s.copyAssign i j = s) ∨
    ∃ h g, s.held i = some h ∧ s.held j = some g ∧ h.object.copyAssignable g.object = true ∧
      s.copyAssign i j = s.put i (some { h with object := g.object }) := by
  unfold copyAssign
  cases held : s.held i with
  | none => exact .inl ⟨by simp [CopyAssignable, held], rfl⟩
  | some h =>
      cases heldOther : s.held j with
      | none => exact .inl ⟨by simp [CopyAssignable, heldOther], rfl⟩
      | some g =>
          cases assignable : h.object.copyAssignable g.object with
          | true => exact .inr ⟨h, g, rfl, rfl, assignable, by simp [assignable]⟩
          | false =>
              exact .inl ⟨by simp [CopyAssignable, held, heldOther, assignable],
                by simp [assignable]⟩

/-- A move is the generated one of a cache object, or a copy. -/
theorem moveConstruct_cases (s : Estate) (i : ℕ) :
    (∃ callbacks, s.held i = some ⟨.routeAddressCache callbacks, false⟩ ∧
      s.moveConstruct i = (s.put i (some ⟨.routeAddressCache none, false⟩)).push
        (.routeAddressCache callbacks)) ∨
    s.moveConstruct i = s.copyConstruct i := by
  unfold moveConstruct
  split
  · next callbacks held => exact .inl ⟨callbacks, held, rfl⟩
  · exact .inr rfl

theorem moveAssign_cases (s : Estate) (i j : ℕ) :
    (∃ mine callbacks, s.held i = some ⟨.routeAddressCache mine, false⟩ ∧
      s.held j = some ⟨.routeAddressCache callbacks, false⟩ ∧
      s.moveAssign i j =
        if i = j then s
        else ((s.release (mine.toList.map (⟨.callbackVector, ·⟩))).put i
          (some ⟨.routeAddressCache callbacks, false⟩)).put j
            (some ⟨.routeAddressCache none, false⟩)) ∨
    s.moveAssign i j = s.copyAssign i j := by
  unfold moveAssign
  split
  · next mine callbacks held heldOther => exact .inl ⟨mine, callbacks, held, heldOther, rfl⟩
  · exact .inr rfl

theorem honest_refl (s : Estate) : Exclusive.Honest s.ledger s.ledger :=
  .keeps rfl (List.Perm.refl _)

theorem honest_copyConstruct (careful : ¬s.Copyable i) :
    Exclusive.Honest s.ledger (s.copyConstruct i).ledger := by
  rcases copyConstruct_cases s i with ⟨-, same⟩ | ⟨h, held, copyable, -⟩
  · rw [same]
    exact honest_refl s
  · exact absurd ⟨h, held, copyable⟩ careful

theorem honest_copyAssign (careful : s.CopyAssignable i j → i = j) :
    Exclusive.Honest s.ledger (s.copyAssign i j).ledger := by
  rcases copyAssign_cases s i j with ⟨-, same⟩ | ⟨h, g, held, heldOther, assignable, result⟩
  · rw [same]
    exact honest_refl s
  · obtain rfl := careful ⟨h, g, held, heldOther, assignable⟩
    rw [held] at heldOther
    cases heldOther
    rw [result, put_self held]
    exact honest_refl s

theorem honest_constructSocket (numbered : s.Numbered) (outcome : SocketOutcome) :
    Exclusive.Honest s.ledger (s.constructSocket outcome).ledger := by
  cases outcome with
  | constructed =>
      apply honest_construct numbered (.socket s.next (s.next + 1)) <;> simp [Owner.resources]
  | noSocket => exact honest_refl s
  | notConnected => exact honest_abandon numbered .sock
  | noCallbacks => exact honest_abandon numbered .sock

theorem honest_constructCacheManager (numbered : s.Numbered) (fails : Bool) :
    Exclusive.Honest s.ledger (s.constructCacheManager fails).ledger := by
  cases fails with
  | true => exact honest_refl s
  | false => apply honest_construct numbered (.cacheManager s.next) <;> simp [Owner.resources]

theorem honest_addressCache (numbered : s.Numbered) (this : ℕ) (fails : Bool) :
    Exclusive.Honest s.ledger (s.addressCache this fails).ledger := by
  unfold addressCache
  split
  · cases fails with
    | true => exact honest_abandon numbered .callbackVector
    | false =>
        apply honest_construct numbered (.routeAddressCache (some s.next)) <;>
          simp [Owner.resources]
  · exact honest_refl s

theorem honest_moveAssign_step (careful : s.CopyAssignable i j → i = j) :
    Exclusive.Honest s.ledger (s.moveAssign i j).ledger := by
  rcases moveAssign_cases s i j with ⟨mine, callbacks, held, heldOther, result⟩ | result
  · rw [result]
    by_cases self : i = j
    · rw [if_pos self]
      exact honest_refl s
    · rw [if_neg self]
      exact honest_moveAssign held heldOther self
  · rw [result]
    exact honest_copyAssign careful

/-- Unless it hides a vector, an object is destroyed with all that its fields name. -/
theorem released_of_careful (held : s.held i = some h) (careful : ¬s.HidesVector i) :
    h.released = h.object.resources := by
  obtain ⟨object, byBase⟩ := h
  cases object with
  | socket sock callbacks => rfl
  | cacheManager mngr => rfl
  | routeAddressCache callbacks =>
      cases callbacks with
      | none => cases byBase <;> rfl
      | some callbacks =>
          cases byBase with
          | false => rfl
          | true => exact absurd ⟨callbacks, held⟩ careful

/-- Every careful operation keeps the ledger's balance. -/
theorem honest_step (numbered : s.Numbered) (op : OwnerOp) (careful : s.Careful op) :
    Exclusive.Honest s.ledger (s.step op).ledger := by
  cases op with
  | socket outcome => exact honest_constructSocket numbered outcome
  | cacheManager fails => exact honest_constructCacheManager numbered fails
  | addressCache this fails => exact honest_addressCache numbered this fails
  | copyConstruct other => exact honest_copyConstruct careful
  | moveConstruct other =>
      simp only [step]
      rcases moveConstruct_cases s other with ⟨callbacks, held, result⟩ | result
      · rw [result]
        exact honest_moveConstruct held
      · rw [result]
        exact honest_copyConstruct careful
  | copyAssign this other => exact honest_copyAssign careful
  | moveAssign this other => exact honest_moveAssign_step careful
  | holdByBase this =>
      simp only [step, holdByBase]
      cases held : s.held this with
      | none => exact honest_refl s
      | some h => exact honest_holdByBase held
  | destroy this =>
      simp only [step, destroy]
      cases held : s.held this with
      | none => exact honest_refl s
      | some h => exact honest_destroy held (released_of_careful held careful)

theorem dishonest_copyConstruct (copyable : s.Copyable i) :
    Exclusive.Dishonest heavy s.ledger (s.copyConstruct i).ledger := by
  rcases copyConstruct_cases s i with ⟨careful, -⟩ | ⟨h, held, copyable, result⟩
  · exact absurd copyable careful
  · rw [result]
    exact dishonest_copy held copyable

theorem dishonest_copyAssign (assignable : s.CopyAssignable i j) (other : i ≠ j) :
    Exclusive.Dishonest heavy s.ledger (s.copyAssign i j).ledger := by
  rcases copyAssign_cases s i j with ⟨careful, -⟩ | ⟨h, g, held, heldOther, assignable, result⟩
  · exact absurd assignable careful
  · rw [result]
    exact dishonest_assign held heldOther assignable other

/-- Every other operation breaks it. -/
theorem dishonest_step (op : OwnerOp) (careless : ¬s.Careful op) :
    Exclusive.Dishonest heavy s.ledger (s.step op).ledger := by
  cases op with
  | socket outcome => exact absurd trivial careless
  | cacheManager fails => exact absurd trivial careless
  | addressCache this fails => exact absurd trivial careless
  | holdByBase this => exact absurd trivial careless
  | copyConstruct other => exact dishonest_copyConstruct (not_not.mp careless)
  | moveConstruct other =>
      have copyable : s.Copyable other := not_not.mp careless
      simp only [step]
      rcases moveConstruct_cases s other with ⟨callbacks, held, -⟩ | result
      · obtain ⟨h, held', copyable⟩ := copyable
        rw [held] at held'
        cases held'
        cases copyable
      · rw [result]
        exact dishonest_copyConstruct copyable
  | copyAssign this other =>
      obtain ⟨assignable, distinct⟩ := Classical.not_imp.mp careless
      exact dishonest_copyAssign assignable distinct
  | moveAssign this other =>
      obtain ⟨assignable, distinct⟩ := Classical.not_imp.mp careless
      simp only [step]
      rcases moveAssign_cases s this other with ⟨mine, callbacks, held, -, -⟩ | result
      · obtain ⟨h, g, held', -, assignable⟩ := assignable
        rw [held] at held'
        cases held'
        cases object : g.object <;> simp [Owner.copyAssignable] at assignable
      · rw [result]
        exact dishonest_copyAssign assignable distinct
  | destroy this =>
      obtain ⟨callbacks, held⟩ := not_not.mp careless
      simp only [step, destroy, held]
      exact dishonest_destroy held

/-- An operation that creates nothing uses up no number. -/
theorem Numbered.of_created_eq {t : Estate} (numbered : s.Numbered)
    (same : t.created = s.created) : t.Numbered := by
  intro r created
  rw [same] at created
  rw [next, same]
  exact numbered r created

theorem Numbered.construct (numbered : s.Numbered) (o : Owner)
    (used : ∀ r ∈ o.resources, r.id < s.next + o.resources.length) :
    (s.construct o).Numbered := by
  intro r created
  have more : (s.construct o).next = s.next + o.resources.length := List.length_append
  rw [more]
  rcases List.mem_append.mp created with old | new
  · exact Nat.lt_add_right _ (numbered r old)
  · exact used r new

theorem Numbered.abandon (numbered : s.Numbered) (kind : ResourceKind) :
    (s.abandon ⟨kind, s.next⟩).Numbered := by
  intro r created
  have more : (s.abandon ⟨kind, s.next⟩).next = s.next + 1 := List.length_append
  rw [more]
  rcases List.mem_append.mp created with old | new
  · exact Nat.lt_add_right _ (numbered r old)
  · rw [List.mem_singleton.mp new]
    exact Nat.lt_succ_self _

theorem created_copyConstruct (s : Estate) (i : ℕ) :
    (s.copyConstruct i).created = s.created := by
  rcases copyConstruct_cases s i with ⟨-, same⟩ | ⟨h, -, -, result⟩
  · rw [same]
  · rw [result]
    rfl

theorem created_copyAssign (s : Estate) (i j : ℕ) : (s.copyAssign i j).created = s.created := by
  rcases copyAssign_cases s i j with ⟨-, same⟩ | ⟨h, g, -, -, -, result⟩
  · rw [same]
  · rw [result]
    rfl

/-- Every operation uses up numbers in order. -/
theorem numbered_step (s : Estate) (op : OwnerOp) (numbered : s.Numbered) :
    (s.step op).Numbered := by
  cases op with
  | socket outcome =>
      cases outcome with
      | constructed =>
          exact numbered.construct (.socket s.next (s.next + 1)) (by simp [Owner.resources])
      | noSocket => exact numbered
      | notConnected => exact numbered.abandon .sock
      | noCallbacks => exact numbered.abandon .sock
  | cacheManager fails =>
      cases fails with
      | true => exact numbered
      | false => exact numbered.construct (.cacheManager s.next) (by simp [Owner.resources])
  | addressCache this fails =>
      simp only [step, addressCache]
      split
      · cases fails with
        | true => exact numbered.abandon .callbackVector
        | false =>
            exact numbered.construct (.routeAddressCache (some s.next)) (by simp [Owner.resources])
      · exact numbered
  | copyConstruct other => exact numbered.of_created_eq (created_copyConstruct s other)
  | moveConstruct other =>
      refine numbered.of_created_eq ?_
      simp only [step]
      rcases moveConstruct_cases s other with ⟨callbacks, -, result⟩ | result
      · rw [result]
        rfl
      · rw [result]
        exact created_copyConstruct s other
  | copyAssign this other => exact numbered.of_created_eq (created_copyAssign s this other)
  | moveAssign this other =>
      refine numbered.of_created_eq ?_
      simp only [step]
      rcases moveAssign_cases s this other with ⟨mine, callbacks, -, -, result⟩ | result
      · rw [result]
        by_cases self : this = other
        · rw [if_pos self]
        · rw [if_neg self]
          rfl
      · rw [result]
        exact created_copyAssign s this other
  | holdByBase this =>
      refine numbered.of_created_eq ?_
      simp only [step, holdByBase]
      cases s.held this <;> rfl
  | destroy this =>
      refine numbered.of_created_eq ?_
      simp only [step, destroy]
      cases s.held this <;> rfl

/-! ### Whole programs -/

/-- With no object left, a balanced ledger says that the releases are the creations. -/
theorem Over.balanced_iff (ends : s.Over) : s.ledger.Balanced ↔ s.ReleasedOnce := by
  have nothing : s.objects.flatMap holding = [] := by
    refine List.flatMap_eq_nil_iff.mpr ?_
    intro place mem
    rw [ends place mem]
    rfl
  simp only [Exclusive.Ledger.Balanced, ReleasedOnce, ledger, nothing, List.append_nil]

/-- **Once all objects of a program are destroyed, every resource was released exactly
once if and only if every operation was careful.** -/
theorem released_once_iff_careful (ops : List OwnerOp) (ends : (Run.final step empty ops).Over) :
    (Run.final step empty ops).ReleasedOnce ↔ Run.Guarded step Careful empty ops := by
  have start : Numbered empty := by
    intro r created
    cases created
  rw [← ends.balanced_iff]
  exact Exclusive.balanced_final_iff numbered_step
    (fun s op numbered careful => honest_step numbered op careful)
    (fun s op _ careless => dishonest_step op careless) start (List.Perm.refl _) List.nodup_nil ops

/-- A socket, and a cache object that is moved before its manager is kept behind a
base pointer. -/
theorem released_once_of_careful_program :
    let program := [.socket .constructed, .cacheManager false, .addressCache 1 false,
      .moveConstruct 2, .holdByBase 1, .destroy 2, .destroy 3, .destroy 1, .destroy 0]
    (Run.final step empty program).ReleasedOnce ∧ Run.Guarded step Careful empty program :=
  ⟨by decide, (released_once_iff_careful _ (by decide)).mp (by decide)⟩

/-- A copied socket is released twice, and a cache kept the way `addressWatch` keeps it
never releases its vector. -/
theorem copied_socket_and_hidden_vector :
    (let s := Run.final step empty
      [.socket .constructed, .copyConstruct 0, .destroy 1, .destroy 0]
    s.Over ∧ ¬s.ReleasedOnce ∧ s.released.count ⟨.sock, 0⟩ = 2) ∧
    let s := Run.final step empty [.cacheManager false, .addressCache 0 false, .moveConstruct 1,
      .destroy 1, .holdByBase 0, .holdByBase 2, .destroy 2, .destroy 0]
    s.Over ∧ ¬s.ReleasedOnce ∧ s.released.count ⟨.callbackVector, 1⟩ = 0 := by
  decide

end Estate

end Nlcpp
