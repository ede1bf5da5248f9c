import Nlcpp.Exception
import Nlcpp.Lib.Growable
import Nlcpp.Lib.Refcount
import Nlcpp.Lib.Run
import Mathlib.Data.List.Basic
import Mathlib.Logic.Function.Basic

/-!
Watching a cache: `RouteCacheManager::addressCache` hands libnl a raw pointer to the
vector of callbacks that the returned `RouteAddressCache` owns. The vector is reached
from two sides, through the object that owns it (`watch`, moves, destruction) and
through that pointer (the change callback), and nothing takes the pointer back when
the object goes.

The change callback loops over the vector while it runs the user's callbacks, which
may do anything the owner may, including a `poll` that runs the change callback
again. The loops in progress form a stack.
-/

namespace Nlcpp

/-- `nl::Action`: an enumeration over `int`, to which libnl's number is cast. -/
structure Action where
  value : ℤ
deriving DecidableEq, Repr

def Action.new : Action := ⟨1⟩

/-- A `RouteAddressCache`, by what its `callbacks` field points to. -/
inductive CacheHandle where
  | holds (callbacks : ℕ)
  | movedFrom
  | destroyed
deriving DecidableEq, Repr

/-- A run of the change callback: the vector it reads, its iterators, and the event
it hands on. -/
structure Loop where
  callbacks : ℕ
  range : Range
  event : ℕ
  addr : ℕ
  action : Action
deriving DecidableEq, Repr

/-- One call of a watch callback. -/
structure Notice (κ : Type) where
  event : ℕ
  callback : κ
  addr : ℕ
  action : Action
deriving DecidableEq, Repr

/-- A living manager, the cache objects made from it and their vectors (`none` once
freed). `registrations` are the pointers that libnl keeps, `loops` the runs of the
change callback, innermost first; `references` are those that the change callback has taken
of an object, less those that it has given back. -/
structure WatchState (κ : Type) where
  vectors : List (Option (Growable κ))
  caches : List CacheHandle
  registrations : List ℕ
  loops : List Loop
  events : ℕ
  notices : List (Notice κ)
  references : ℕ → ℤ

/-- What can happen around a living manager. `event` is a change that `poll` or
`dataReady` dispatches to a registration, `resume` the return of the innermost watch
callback. -/
inductive WatchOp (κ : Type) where
  | addressCache (err : ℤ)
  | moveConstruct (other : ℕ)
  | moveAssign (this other : ℕ)
  | watch (this : ℕ) (callback : κ)
  | destroy (this : ℕ)
  | event (registration addr : ℕ) (action : Action)
  | resume
deriving DecidableEq, Repr

namespace WatchState

variable {κ : Type} (s : WatchState κ)

/-- A manager without caches. -/
def empty : WatchState κ := ⟨[], [], [], [], 0, [], fun _ => 0⟩

/-- The vector behind a pointer, while it is alive. -/
def vector (p : ℕ) : Option (Growable κ) := s.vectors[p]?.join

/-- `RouteCacheManager::addressCache`. When `nl_cache_mngr_add` fails, the vector is
freed as the exception leaves the function. -/
def addressCache (err : ℤ) : WatchState κ :=
  match Exception.throwCode "nl_cache_mngr_add failed" err with
  | .ok () =>
    { s with
      vectors := s.vectors ++ [some .empty]
      caches := s.caches ++ [.holds s.vectors.length]
      registrations := s.registrations ++ [s.vectors.length] }
  | .error _ => { s with vectors := s.vectors ++ [none] }

/-- The destructor of the `callbacks` field. -/
def free : CacheHandle → WatchState κ
  | .holds p => { s with vectors := s.vectors.set p none }
  | _ => s

/-- `RouteAddressCache(RouteAddressCache &&)`. -/
def moveConstruct (other : ℕ) : WatchState κ :=
  match s.caches[other]? with
  | some (.holds p) => { s with caches := s.caches.set other .movedFrom ++ [.holds p] }
  | some .movedFrom => { s with caches := s.caches ++ [.movedFrom] }
  | _ => s

/-- `operator=(RouteAddressCache &&)`: the vector of the assigned-to object is freed. -/
def moveAssign (this other : ℕ) : WatchState κ :=
  match s.caches[this]?, s.caches[other]? with
  | some mine, some theirs =>
    if this = other ∨ mine = .destroyed ∨ theirs = .destroyed then s
    else { s.free mine with caches := (s.caches.set this theirs).set other .movedFrom }
  | _, _ => s

/-- `RouteAddressCache::watch`, on an object that has its vector. -/
def watch (growth : ℕ → ℕ) (this : ℕ) (callback : κ) : WatchState κ :=
  match s.caches[this]? with
  | some (.holds p) =>
    match s.vector p with
    | some v => { s with vectors := s.vectors.set p (some (v.push growth callback)) }
    | none => s
  | _ => s

/-- `~RouteAddressCache`. -/
def destroy (this : ℕ) : WatchState κ :=
  match s.caches[this]? with
  | some mine => { s.free mine with caches := s.caches.set this .destroyed }
  | none => s

/-- `RouteAddress` with `share_ownership_of_pointer`. -/
def share (addr : ℕ) : WatchState κ :=
  { s with references := Function.update s.references addr (s.references addr + 1) }

/-- `~RouteAddress`. -/
def unshare (addr : ℕ) : WatchState κ :=
  { s with references := Function.update s.references addr (s.references addr - 1) }

/-- The head of the loop in the change callback: the next callback is called, or the
change callback returns. -/
def loopHead (v : Growable κ) (l : Loop) : WatchState κ :=
  if l.range.next < l.range.stop then
    match v.elems[l.range.next]? with
    | some callback =>
      { s with
        loops := { l with range := { l.range with next := l.range.next + 1 } } :: s.loops
        notices := s.notices ++ [⟨l.event, callback, l.addr, l.action⟩] }
    | none => s
  else s.unshare l.addr

/-- The change callback. Its loop starts by reading the vector through the pointer
that was registered; nothing is promised once the vector is freed. -/
def changeCallback (vcallbacks obj : ℕ) (action : Action) : WatchState κ :=
  match s.vector vcallbacks with
  | some v =>
    ({ s with events := s.events + 1 }.share obj).loopHead v
      ⟨vcallbacks, v.range, s.events, obj, action⟩
  | none => { s with events := s.events + 1 }

/-- `poll` or `dataReady` dispatches a change to one registration. -/
def event (registration obj : ℕ) (action : Action) : WatchState κ :=
  match s.registrations[registration]? with
  | some vcallbacks => s.changeCallback vcallbacks obj action
  | none => s

/-- The vector that a loop reads is alive and has the buffer the loop started on. -/
def Intact (l : Loop) : Prop := ∃ v ∈ s.vector l.callbacks, v.Holds l.range

instance (l : Loop) : Decidable (s.Intact l) :=
  inferInstanceAs (Decidable (∃ v ∈ s.vector l.callbacks, v.Holds l.range))

/-- The innermost watch callback returns and the loop goes on. Nothing is promised
when its iterators are no longer valid. -/
def resume : WatchState κ :=
  match s.loops with
  | [] => s
  | l :: outer =>
    match s.vector l.callbacks with
    | some v => if v.Holds l.range then { s with loops := outer }.loopHead v l
                else { s with loops := outer }
    | none => { s with loops := outer }

/-- One step of a run. -/
def step (growth : ℕ → ℕ) (s : WatchState κ) : WatchOp κ → WatchState κ
  | .addressCache err => s.addressCache err
  | .moveConstruct other => s.moveConstruct other
  | .moveAssign this other => s.moveAssign this other
  | .watch this callback => s.watch growth this callback
  | .destroy this => s.destroy this
  | .event registration addr action => s.event registration addr action
  | .resume => s.resume

/-- A loop that starts reads a live vector. A loop that goes on reads the vector it
started on, alive and in the same buffer. -/
def ReadsSafely (s : WatchState κ) : WatchOp κ → Prop
  | .event registration .. => ∀ p ∈ s.registrations[registration]?, (s.vector p).isSome
  | .resume => ∀ l ∈ s.loops.head?, s.Intact l
  | _ => True

instance : (op : WatchOp κ) → Decidable (s.ReadsSafely op)
  | .event registration .. =>
    inferInstanceAs (Decidable (∀ p ∈ s.registrations[registration]?, (s.vector p).isSome))
  | .resume => inferInstanceAs (Decidable (∀ l ∈ s.loops.head?, s.Intact l))
  | .addressCache _ => instDecidableTrue
  | .moveConstruct _ => instDecidableTrue
  | .moveAssign _ _ => instDecidableTrue
  | .watch _ _ => instDecidableTrue
  | .destroy _ => instDecidableTrue

/-- Some loop over this vector is in progress. -/
def Running (p : ℕ) : Prop := ∃ l ∈ s.loops, l.callbacks = p

/-- The object with this number holds this vector. -/
def Owns (this p : ℕ) : Prop := s.caches[this]? = some (.holds p)

/-- The object with this number exists. -/
def Exists (this : ℕ) : Prop := ∃ h, s.caches[this]? = some h ∧ h ≠ .destroyed

/-- What keeps the reads safe. No event comes for a cache object that is gone, with all
objects it was moved to; an object is not destroyed, or assigned over, while a loop
runs over its callbacks; and it is not watched then unless there is room for one more
callback. -/
def Careful (s : WatchState κ) : WatchOp κ → Prop
  | .event registration .. =>
    ∀ p ∈ s.registrations[registration]?, ∃ this, s.Owns this p
  | .watch this _ => ∀ p, s.Owns this p → s.Running p →
      ∀ v, s.vector p = some v → v.HasRoom
  | .moveAssign this other => this ≠ other → s.Exists other →
      ∀ p, s.Owns this p → ¬s.Running p
  | .destroy this => ∀ p, s.Owns this p → ¬s.Running p
  | _ => True

/-! ### The vectors of a run -/

section Vectors

variable {s} {p q : ℕ} {v : Growable κ} {x : Option (Growable κ)}

theorem lt_of_vector (alive : s.vector p = some v) : p < s.vectors.length := by
  by_contra outside
  unfold vector at alive
  rw [List.getElem?_eq_none (Nat.not_lt.mp outside)] at alive
  cases alive

theorem vector_append (x : Option (Growable κ)) (q : ℕ) :
    (s.vectors ++ [x])[q]?.join = if q = s.vectors.length then x else s.vector q := by
  split
  · next new => simp [new]
  · next other =>
      rcases Nat.lt_or_gt_of_ne other with old | beyond
      · rw [List.getElem?_append_left old]
        rfl
      · have outside : (s.vectors ++ [x]).length ≤ q := by
          rw [List.length_append]
          exact beyond
        rw [vector, List.getElem?_eq_none outside, List.getElem?_eq_none (Nat.le_of_lt beyond)]

theorem vector_length : s.vector s.vectors.length = none := by
  simp [vector]

theorem vector_set_self (alive : s.vector p = some v) : (s.vectors.set p x)[p]?.join = x := by
  simp [List.getElem?_set_self (lt_of_vector alive)]

theorem vector_set_ne (other : p ≠ q) : (s.vectors.set p x)[q]?.join = s.vector q := by
  simp [List.getElem?_set_ne other, vector]

theorem vector_set_none (p q : ℕ) :
    (s.vectors.set p none)[q]?.join = if p = q then none else s.vector q := by
  split
  · next same =>
      subst same
      by_cases inside : p < s.vectors.length
      · simp [List.getElem?_set_self inside]
      · simp [Nat.not_lt.mp inside]
  · next other => exact vector_set_ne other

end Vectors

/-! ### What a step does -/

/-- The operation frees this vector. -/
def Frees (s : WatchState κ) (p : ℕ) : WatchOp κ → Prop
  | .destroy this => s.Owns this p
  | .moveAssign this other => this ≠ other ∧ s.Exists other ∧ s.Owns this p
  | _ => False

/-- The operation runs the change callback. -/
def Dispatches : WatchOp κ → Prop
  | .event .. => True
  | .resume => True
  | _ => False

/-- The operation appends this callback to this vector. -/
def Appends (s : WatchState κ) (p : ℕ) (callback : κ) : WatchOp κ → Prop
  | .watch this new => s.Owns this p ∧ new = callback
  | _ => False

section Steps

variable {s} {p : ℕ} {v w : Growable κ} {l : Loop} (growth : ℕ → ℕ)

@[simp] theorem loopHead_vectors (v : Growable κ) (l : Loop) :
    (s.loopHead v l).vectors = s.vectors := by
  unfold loopHead
  split
  · split <;> rfl
  · rfl

@[simp] theorem loopHead_caches (v : Growable κ) (l : Loop) :
    (s.loopHead v l).caches = s.caches := by
  unfold loopHead
  split
  · split <;> rfl
  · rfl

/-- The loop is over, or it goes on from its next callback. -/
theorem loopHead_loops (v : Growable κ) (l : Loop) :
    (s.loopHead v l).loops = s.loops ∨
    (s.loopHead v l).loops =
      { l with range := { l.range with next := l.range.next + 1 } } :: s.loops := by
  unfold loopHead
  split
  · split
    · exact .inr rfl
    · exact .inl rfl
  · exact .inl rfl

@[simp] theorem changeCallback_vectors (p addr : ℕ) (action : Action) :
    (s.changeCallback p addr action).vectors = s.vectors := by
  unfold changeCallback
  split <;> simp [share]

@[simp] theorem changeCallback_caches (p addr : ℕ) (action : Action) :
    (s.changeCallback p addr action).caches = s.caches := by
  unfold changeCallback
  split <;> simp [share]

@[simp] theorem event_vectors (r addr : ℕ) (action : Action) :
    (s.event r addr action).vectors = s.vectors := by
  unfold event
  split <;> simp

@[simp] theorem event_caches (r addr : ℕ) (action : Action) :
    (s.event r addr action).caches = s.caches := by
  unfold event
  split <;> simp

@[simp] theorem resume_vectors : s.resume.vectors = s.vectors := by
  unfold resume
  split
  · rfl
  · split
    · split <;> simp
    · rfl

@[simp] theorem resume_caches : s.resume.caches = s.caches := by
  unfold resume
  split
  · rfl
  · split
    · split <;> simp
    · rfl

/-- What runs no change callback works on the cache objects and their vectors alone. -/
theorem quiet_step (op : WatchOp κ) (quiet : ¬Dispatches op) :
    ∃ vectors caches registrations, s.step growth op = { s with vectors, caches, registrations } := by
  cases op with
  | event r addr action => exact absurd trivial quiet
  | resume => exact absurd trivial quiet
  | addressCache err =>
      simp only [step, addressCache]
      split <;> exact ⟨_, _, _, rfl⟩
  | moveConstruct other =>
      simp only [step, moveConstruct]
      split <;> exact ⟨_, _, _, rfl⟩
  | moveAssign this other =>
      simp only [step, moveAssign]
      split
      · split
        · exact ⟨_, _, _, rfl⟩
        · next mine _ _ _ _ => cases mine <;> exact ⟨_, _, _, rfl⟩
      · exact ⟨_, _, _, rfl⟩
  | watch this callback =>
      simp only [step, watch]
      split
      · split <;> exact ⟨_, _, _, rfl⟩
      · exact ⟨_, _, _, rfl⟩
  | destroy this =>
      simp only [step, destroy]
      split
      · next mine _ => cases mine <;> exact ⟨_, _, _, rfl⟩
      · exact ⟨_, _, _, rfl⟩

/-- Only the change callback changes the loops in progress. -/
theorem loops_step (op : WatchOp κ) (quiet : ¬Dispatches op) :
    (s.step growth op).loops = s.loops := by
  obtain ⟨vectors, caches, registrations, stepped⟩ := quiet_step (s := s) growth op quiet
  rw [stepped]

theorem free_vector (h : CacheHandle) (q : ℕ) :
    (s.free h).vectors[q]?.join = if h = .holds q then none else s.vector q := by
  cases h with
  | holds p => simpa [free] using vector_set_none (s := s) p q
  | movedFrom => rfl
  | destroyed => rfl

theorem addressCache_vector (err : ℤ) (known : p < s.vectors.length) :
    (s.addressCache err).vector p = s.vector p := by
  unfold addressCache
  split <;> exact (vector_append _ p).trans (if_neg (Nat.ne_of_lt known))

theorem moveConstruct_vectors (other : ℕ) : (s.moveConstruct other).vectors = s.vectors := by
  unfold moveConstruct
  split <;> rfl

theorem moveAssign_vector (this other p : ℕ) :
    (s.moveAssign this other).vector p = s.vector p ∨
    (s.moveAssign this other).vector p = none ∧ s.Frees p (.moveAssign this other) := by
  unfold moveAssign
  split
  · next mine theirs atThis atOther =>
      split
      · exact .inl rfl
      · next effective =>
          obtain ⟨distinct, -, present⟩ := by simpa only [not_or] using effective
          have freed := free_vector (s := s) mine p
          by_cases owner : mine = .holds p
          · rw [if_pos owner] at freed
            rw [owner] at atThis
            exact .inr ⟨freed, distinct, ⟨theirs, atOther, present⟩, atThis⟩
          · rw [if_neg owner] at freed
            exact .inl freed
  · exact .inl rfl

theorem destroy_vector (this p : ℕ) :
    (s.destroy this).vector p = s.vector p ∨
    (s.destroy this).vector p = none ∧ s.Frees p (.destroy this) := by
  unfold destroy
  split
  · next mine atThis =>
      have freed := free_vector (s := s) mine p
      by_cases owner : mine = .holds p
      · rw [if_pos owner] at freed
        rw [owner] at atThis
        exact .inr ⟨freed, atThis⟩
      · rw [if_neg owner] at freed
        exact .inl freed
  · exact .inl rfl

theorem watch_vector (this p : ℕ) (callback : κ) :
    (s.watch growth this callback).vector p = s.vector p ∨
    ∃ v, s.vector p = some v ∧
      (s.watch growth this callback).vector p = some (v.push growth callback) ∧
      s.Owns this p := by
  unfold watch
  split
  · next q atThis =>
      split
      · next v alive =>
          by_cases same : q = p
          · subst same
            exact .inr ⟨v, alive, vector_set_self alive, atThis⟩
          · exact .inl (vector_set_ne same)
      · exact .inl rfl
  · exact .inl rfl

/-- **What a step does to a vector**: nothing, it frees it, or it appends to it. -/
theorem vector_step (op : WatchOp κ) (known : p < s.vectors.length) :
    (s.step growth op).vector p = s.vector p ∨
    ((s.step growth op).vector p = none ∧ s.Frees p op) ∨
    ∃ v callback, s.vector p = some v ∧
      (s.step growth op).vector p = some (v.push growth callback) ∧ s.Appends p callback op := by
  cases op with
  | event r addr action => exact .inl (by simp [step, vector])
  | resume => exact .inl (by simp [step, vector])
  | addressCache err => exact .inl (addressCache_vector err known)
  | moveConstruct other => exact .inl (by simp [step, vector, moveConstruct_vectors])
  | moveAssign this other =>
      rcases moveAssign_vector this other p with same | freed
      · exact .inl same
      · exact .inr (.inl freed)
  | watch this callback =>
      rcases watch_vector growth this p callback with same | ⟨v, alive, appended, owns⟩
      · exact .inl same
      · exact .inr (.inr ⟨v, callback, alive, appended, owns, rfl⟩)
  | destroy this =>
      rcases destroy_vector this p with same | freed
      · exact .inl same
      · exact .inr (.inl freed)

theorem free_length (h : CacheHandle) : (s.free h).vectors.length = s.vectors.length := by
  cases h <;> simp [free]

/-- Pointers are used up in order. -/
theorem length_step (op : WatchOp κ) :
    s.vectors.length ≤ (s.step growth op).vectors.length := by
  cases op with
  | event r addr action => simp [step]
  | resume => simp [step]
  | addressCache err =>
      simp only [step, addressCache]
      split <;> simp
  | moveConstruct other =>
      simp only [step, moveConstruct]
      split <;> exact Nat.le_refl _
  | moveAssign this other =>
      simp only [step, moveAssign]
      split
      · split
        · exact Nat.le_refl _
        · exact Nat.le_of_eq (free_length _).symm
      · exact Nat.le_refl _
  | watch this callback =>
      simp only [step, watch]
      split
      · split <;> simp
      · exact Nat.le_refl _
  | destroy this =>
      simp only [step, destroy]
      split
      · exact Nat.le_of_eq (free_length _).symm
      · exact Nat.le_refl _

end Steps

/-! ### One owner for every live vector -/

/-- Every live vector has one owner, and no object holds a freed one. -/
def Owned : Prop :=
  ∀ p, s.caches.count (.holds p) = (s.vector p).isSome.toNat

section Owned

variable {s} {p : ℕ}

/-- A live vector is one that some object holds. -/
theorem Owned.alive_iff (owned : s.Owned) : (s.vector p).isSome ↔ ∃ this, s.Owns this p := by
  have count := owned p
  have held : 0 < s.caches.count (.holds p) ↔ ∃ this, s.Owns this p :=
    List.count_pos_iff.trans List.mem_iff_getElem?
  rw [← held, count]
  cases (s.vector p).isSome <;> simp

theorem Owned.of_eq (owned : s.Owned) {t : WatchState κ} (vectors : t.vectors = s.vectors)
    (caches : t.caches = s.caches) : t.Owned := by
  intro q
  rw [caches, vector, vectors]
  exact owned q

/-- Taking a handle away frees its vector. -/
theorem Owned.free (owned : s.Owned) {handles : List CacheHandle} {h : CacheHandle}
    (fewer : ∀ q, handles.count (.holds q) + (if h = .holds q then 1 else 0) =
      s.caches.count (.holds q)) :
    Owned { s.free h with caches := handles } := by
  intro q
  have count := owned q
  have taken := fewer q
  have freed : ({ s.free h with caches := handles } : WatchState κ).vector q =
      if h = .holds q then none else s.vector q := free_vector h q
  rw [freed]
  by_cases owner : h = .holds q
  · have most := Bool.toNat_le (s.vector q).isSome
    simp only [if_pos owner] at taken ⊢
    simp only [Option.isSome_none, Bool.toNat_false]
    omega
  · simp only [if_neg owner] at taken ⊢
    omega

theorem Owned.addressCache (owned : s.Owned) (err : ℤ) : (s.addressCache err).Owned := by
  have unheld := owned s.vectors.length
  simp only [vector_length, Option.isSome_none, Bool.toNat_false] at unheld
  unfold WatchState.addressCache
  split
  · intro q
    have count := owned q
    simp only [vector, vector_append, List.count_append]
    by_cases new : q = s.vectors.length
    · subst new
      simpa using unheld
    · simpa [new, Ne.symm new, vector] using count
  · intro q
    have count := owned q
    simp only [vector, vector_append]
    by_cases new : q = s.vectors.length
    · subst new
      simpa using unheld
    · simpa [new, vector] using count

/-- The vector has a new owner, and the old one none. -/
theorem Owned.moveConstruct (owned : s.Owned) (other : ℕ) : (s.moveConstruct other).Owned := by
  unfold WatchState.moveConstruct
  split
  · next p place =>
      intro q
      have moved := Refcount.count_set_add (b := .movedFrom) place (.holds q)
      have count := owned q
      simp only [reduceCtorEq, if_false, Nat.add_zero] at moved
      simp only [List.count_append, List.count_singleton, beq_iff_eq]
      rw [moved]
      exact count
  · intro q
    rw [List.count_append]
    exact owned q
  · exact owned

theorem Owned.moveAssign (owned : s.Owned) (this other : ℕ) :
    (s.moveAssign this other).Owned := by
  unfold WatchState.moveAssign
  split
  · next mine theirs atThis atOther =>
      split
      · exact owned
      · next effective =>
          apply owned.free
          intro q
          have distinct : this ≠ other := fun same => effective (.inl same)
          have atOther' : (s.caches.set this theirs)[other]? = some theirs := by
            rw [List.getElem?_set_ne distinct]
            exact atOther
          have filled := Refcount.count_set_add (b := theirs) atThis (.holds q)
          have emptied := Refcount.count_set_add (b := .movedFrom) atOther' (.holds q)
          simp only [reduceCtorEq, if_false, Nat.add_zero] at emptied
          omega
  · exact owned

theorem Owned.watch (owned : s.Owned) (growth : ℕ → ℕ) (this : ℕ) (callback : κ) :
    (s.watch growth this callback).Owned := by
  unfold WatchState.watch
  split
  · next p _ =>
      split
      · next v alive =>
          intro q
          have count := owned q
          by_cases same : p = q
          · subst same
            simp only [alive, Option.isSome_some, Bool.toNat_true] at count
            simpa [vector, vector_set_self alive] using count
          · simpa [vector, vector_set_ne same] using count
      · exact owned
  · exact owned

theorem Owned.destroy (owned : s.Owned) (this : ℕ) : (s.destroy this).Owned := by
  unfold WatchState.destroy
  split
  · next mine atThis =>
      apply owned.free
      intro q
      simpa using Refcount.count_set_add (b := .destroyed) atThis (.holds q)
  · exact owned

theorem owned_step (growth : ℕ → ℕ) (op : WatchOp κ) (owned : s.Owned) :
    (s.step growth op).Owned := by
  cases op with
  | event r addr action => exact owned.of_eq (event_vectors ..) (event_caches ..)
  | resume => exact owned.of_eq resume_vectors resume_caches
  | addressCache err => exact owned.addressCache err
  | moveConstruct other => exact owned.moveConstruct other
  | moveAssign this other => exact owned.moveAssign this other
  | watch this callback => exact owned.watch growth this callback
  | destroy this => exact owned.destroy this

end Owned

/-! ### Careful steps read safely -/

/-- Every live vector has one owner, and every loop in progress may go on. -/
structure Sound (s : WatchState κ) : Prop where
  owned : s.Owned
  intact : ∀ l ∈ s.loops, s.Intact l

/-- The vector of a loop was freed, or has moved on to a later buffer. -/
def Stale (s : WatchState κ) (l : Loop) : Prop :=
  l.callbacks < s.vectors.length ∧ ∀ v, s.vector l.callbacks = some v → l.range.buffer < v.buffer

/-- A loop in progress will read what is no longer there. -/
def Doomed (s : WatchState κ) : Prop := ∃ l ∈ s.loops, s.Stale l

section Careful

variable {s} {l : Loop} {growth : ℕ → ℕ} {op : WatchOp κ}

theorem Intact.not_stale (intact : s.Intact l) : ¬s.Stale l := by
  obtain ⟨v, alive, same⟩ := intact
  intro stale
  exact absurd same (Nat.ne_of_lt (stale.2 v alive))

/-- Where a loop stands makes no difference. -/
theorem Intact.advance (intact : s.Intact l) (n : ℕ) :
    s.Intact { l with range := { l.range with next := n } } := intact

theorem Intact.of_vectors {t : WatchState κ} (intact : s.Intact l)
    (vectors : t.vectors = s.vectors) : t.Intact l := by
  obtain ⟨v, alive, same⟩ := intact
  exact ⟨v, by rw [vector, vectors]; exact alive, same⟩

/-- What a careful operation frees, no loop reads. -/
theorem Careful.not_running {p : ℕ} (careful : s.Careful op) (frees : s.Frees p op) :
    ¬s.Running p := by
  cases op with
  | destroy this => exact careful p frees
  | moveAssign this other => exact careful frees.1 frees.2.1 p frees.2.2
  | addressCache err => cases frees
  | moveConstruct other => cases frees
  | watch this callback => cases frees
  | event r addr action => cases frees
  | resume => cases frees

/-- A careful step leaves the loops in progress their vectors and buffers. -/
theorem Intact.step (intact : s.Intact l) (running : l ∈ s.loops) (careful : s.Careful op) :
    (s.step growth op).Intact l := by
  obtain ⟨v, alive, same⟩ := intact
  have isRunning : s.Running l.callbacks := ⟨l, running, rfl⟩
  rcases vector_step growth op (lt_of_vector alive) with
    kept | ⟨-, frees⟩ | ⟨w, callback, aliveW, appended, appends⟩
  · exact ⟨v, kept.trans alive, same⟩
  · exact absurd isRunning (careful.not_running frees)
  · cases op with
    | watch this new =>
        rw [alive] at aliveW
        cases aliveW
        have room := careful _ appends.1 isRunning v alive
        exact ⟨_, appended, same.trans ((v.push_buffer_iff growth callback).mpr room).symm⟩
    | addressCache err => cases appends
    | moveConstruct other => cases appends
    | moveAssign this other => cases appends
    | destroy this => cases appends
    | event r addr action => cases appends
    | resume => cases appends

theorem Careful.readsSafely (sound : s.Sound) (careful : s.Careful op) : s.ReadsSafely op := by
  cases op with
  | event r addr action =>
      intro p registered
      exact sound.owned.alive_iff.mpr (careful p registered)
  | resume =>
      intro l innermost
      exact sound.intact l (List.mem_of_mem_head? innermost)
  | addressCache err => trivial
  | moveConstruct other => trivial
  | moveAssign this other => trivial
  | watch this callback => trivial
  | destroy this => trivial

/-- The loops after the head of a loop: the others, and the one that went on. -/
theorem intact_loopHead {v : Growable κ} (others : ∀ k ∈ s.loops, s.Intact k)
    (intact : s.Intact l) : ∀ k ∈ (s.loopHead v l).loops, (s.loopHead v l).Intact k := by
  intro k mem
  have inBefore : s.Intact k := by
    rcases loopHead_loops (s := s) v l with same | more
    · rw [same] at mem
      exact others k mem
    · rw [more] at mem
      rcases List.mem_cons.mp mem with rfl | old
      · exact intact.advance _
      · exact others k old
  exact inBefore.of_vectors (loopHead_vectors v l)

theorem intact_event (sound : s.Sound) (r addr : ℕ) (action : Action) :
    ∀ k ∈ (s.event r addr action).loops, (s.event r addr action).Intact k := by
  unfold event
  split
  · next p registered =>
      unfold changeCallback
      split
      · next v alive => exact intact_loopHead sound.intact ⟨v, alive, rfl⟩
      · exact sound.intact
  · exact sound.intact

theorem intact_resume (sound : s.Sound) : ∀ k ∈ s.resume.loops, s.resume.Intact k := by
  have intact := sound.intact
  unfold resume
  split
  · exact intact
  · next l outer loops =>
      rw [loops] at intact
      have outer_intact : ∀ k ∈ outer, s.Intact k := by
        intro k mem
        exact intact k (List.mem_cons_of_mem _ mem)
      split
      · split
        · exact intact_loopHead (s := { s with loops := outer }) outer_intact
            (intact l (List.mem_cons_self ..))
        · exact outer_intact
      · exact outer_intact

theorem Sound.step (sound : s.Sound) (careful : s.Careful op) : (s.step growth op).Sound := by
  refine ⟨owned_step growth op sound.owned, ?_⟩
  by_cases dispatches : Dispatches op
  · match op, dispatches with
    | .event r addr action, _ => exact intact_event sound r addr action
    | .resume, _ => exact intact_resume sound
  · intro k mem
    rw [loops_step growth op dispatches] at mem
    exact (sound.intact k mem).step mem careful

/-! ### A careless step is found out -/

/-- A stale loop stays stale. -/
theorem Stale.step (stale : s.Stale l) : (s.step growth op).Stale l := by
  refine ⟨Nat.lt_of_lt_of_le stale.1 (length_step growth op), ?_⟩
  intro v alive
  rcases vector_step growth op stale.1 with
    kept | ⟨freed, -⟩ | ⟨w, callback, aliveW, appended, -⟩
  · exact stale.2 v (kept.symm.trans alive)
  · rw [freed] at alive
    cases alive
  · rw [appended] at alive
    cases alive
    exact Nat.lt_of_lt_of_le (stale.2 w aliveW) (w.buffer_le_push growth callback)

theorem mem_loopHead (mem : l ∈ s.loops) (v : Growable κ) (top : Loop) :
    l ∈ (s.loopHead v top).loops := by
  rcases loopHead_loops (s := s) v top with same | more
  · rw [same]
    exact mem
  · rw [more]
    exact List.mem_cons_of_mem _ mem

/-- An event comes on top of the loops in progress. -/
theorem mem_loops_event (mem : l ∈ s.loops) (r addr : ℕ) (action : Action) :
    l ∈ (s.event r addr action).loops := by
  unfold event
  split
  · unfold changeCallback
    split
    · exact mem_loopHead (s := { s with events := s.events + 1 }.share addr) mem _ _
    · exact mem
  · exact mem

/-- A return goes on with the innermost loop only. -/
theorem mem_loops_resume {top : Loop} {outer : List Loop} (loops : s.loops = top :: outer)
    (mem : l ∈ outer) : l ∈ s.resume.loops := by
  unfold resume
  rw [loops]
  dsimp only
  split
  · next v _ =>
      split
      · exact mem_loopHead (s := { s with loops := outer }) mem v top
      · exact mem
  · exact mem

/-- No safe step gets rid of a stale loop. -/
theorem Doomed.step (doomed : s.Doomed) (safe : s.ReadsSafely op) : (s.step growth op).Doomed := by
  obtain ⟨l, mem, stale⟩ := doomed
  suffices stays : l ∈ (s.step growth op).loops from ⟨l, stays, stale.step⟩
  by_cases dispatches : Dispatches op
  · match op, dispatches with
    | .event r addr action, _ => exact mem_loops_event mem r addr action
    | .resume, _ =>
        cases loops : s.loops with
        | nil =>
            rw [loops] at mem
            cases mem
        | cons top outer =>
            rw [loops] at mem
            rcases List.mem_cons.mp mem with rfl | isOuter
            · exact absurd stale (safe l (by rw [loops]; rfl)).not_stale
            · exact mem_loops_resume loops isOuter
  · rw [loops_step growth op dispatches]
    exact mem

/-- An operation that is not careful reads what is gone, or leaves a loop behind that
will. -/
theorem Sound.doomed_of_careless (sound : s.Sound) (careless : ¬s.Careful op) :
    ¬s.ReadsSafely op ∨ (s.step growth op).Doomed := by
  have freed {p : ℕ} (dead : (s.step growth op).vector p = none) (running : s.Running p)
      (quiet : ¬Dispatches op) : (s.step growth op).Doomed := by
    obtain ⟨l, mem, rfl⟩ := running
    obtain ⟨v, alive, -⟩ := sound.intact l mem
    refine ⟨l, (loops_step growth op quiet).symm ▸ mem, ?_, ?_⟩
    · exact Nat.lt_of_lt_of_le (lt_of_vector alive) (length_step growth op)
    · intro w aliveW
      rw [dead] at aliveW
      cases aliveW
  cases op with
  | event r addr action =>
      left
      intro safe
      apply careless
      intro p registered
      exact sound.owned.alive_iff.mp (safe p registered)
  | watch this callback =>
      right
      simp only [Careful, Classical.not_forall] at careless
      obtain ⟨p, owns, ⟨l, mem, rfl⟩, v, alive, full⟩ := careless
      obtain ⟨w, aliveW, same⟩ := sound.intact l mem
      rw [alive] at aliveW
      cases aliveW
      have grown : (s.step growth (.watch this callback)).vector l.callbacks =
          some (v.push growth callback) := by
        have place : s.caches[this]? = some (.holds l.callbacks) := owns
        simp only [WatchState.step, WatchState.watch, place, alive]
        exact vector_set_self alive
      refine ⟨l, (loops_step growth (.watch this callback) id).symm ▸ mem, ?_, ?_⟩
      · exact Nat.lt_of_lt_of_le (lt_of_vector alive) (length_step growth _)
      · intro u aliveU
        rw [grown] at aliveU
        cases aliveU
        rw [same]
        exact v.buffer_lt_push growth callback full
  | moveAssign this other =>
      right
      simp only [Careful, Classical.not_forall, not_not] at careless
      obtain ⟨distinct, ⟨theirs, atOther, present⟩, p, owns, running⟩ := careless
      refine freed ?_ running id
      have place : s.caches[this]? = some (.holds p) := owns
      simp only [WatchState.step, WatchState.moveAssign, place, atOther, distinct, present,
        reduceCtorEq, or_self, if_false]
      exact (free_vector (.holds p) p).trans (if_pos rfl)
  | destroy this =>
      right
      simp only [Careful, Classical.not_forall, not_not] at careless
      obtain ⟨p, owns, running⟩ := careless
      refine freed ?_ running id
      have place : s.caches[this]? = some (.holds p) := owns
      simp only [WatchState.step, WatchState.destroy, place]
      exact (free_vector (.holds p) p).trans (if_pos rfl)
  | addressCache err => exact absurd trivial careless
  | moveConstruct other => exact absurd trivial careless
  | resume => exact absurd trivial careless

theorem sound_empty : (empty : WatchState κ).Sound where
  owned := fun _ => rfl
  intact := by
    intro l mem
    cases mem

variable (growth) in
/-- **Careful runs read safely, and nothing less than care does**: once every loop of a
run has come to its end, all its reads were safe if and only if all its operations were
careful. -/
theorem reads_safely_iff_careful (ops : List (WatchOp κ)) :
    (Run.Guarded (step growth) Careful empty ops →
      Run.Guarded (step growth) ReadsSafely empty ops) ∧
    ((Run.final (step growth) empty ops).loops = [] →
      (Run.Guarded (step growth) ReadsSafely empty ops ↔
        Run.Guarded (step growth) Careful empty ops)) := by
  have suffices_care : Run.Guarded (step growth) Careful empty ops →
      Run.Guarded (step growth) ReadsSafely empty ops :=
    Run.Guarded.imp (fun s op sound careful => Sound.step sound careful)
      (fun s op sound careful => careful.readsSafely sound) sound_empty
  refine ⟨suffices_care, fun finished => ⟨?_, suffices_care⟩⟩
  apply Run.Guarded.of_doomed (fun s op sound careful => Sound.step sound careful)
    (fun s op sound careless => sound.doomed_of_careless careless)
    (fun s op doomed safe => doomed.step safe) sound_empty
  rintro ⟨l, mem, -⟩
  rw [finished] at mem
  cases mem

/-- A cache object that is moved, and watched from a callback while there is room. -/
theorem reads_safely_with_room :
    let run : List (WatchOp ℕ) := [.addressCache 0, .watch 0 1, .watch 0 2, .watch 0 3,
      .moveConstruct 0, .event 0 7 .new, .watch 1 4, .resume, .resume, .resume, .destroy 1]
    Run.Guarded (step (2 * ·)) ReadsSafely empty run ∧
      Run.Guarded (step (2 * ·)) Careful empty run :=
  ⟨by decide, ((reads_safely_iff_careful (2 * ·) _).2 (by decide)).mp (by decide)⟩

/-- A cache object is destroyed while its manager goes on dispatching, and a callback
registers another one when there is no room for it. -/
theorem freed_and_moved_vectors_read :
    ¬Run.Guarded (step (2 * ·)) ReadsSafely (empty : WatchState ℕ)
      [.addressCache 0, .watch 0 1, .destroy 0, .event 0 7 .new] ∧
    ¬Run.Guarded (step (2 * ·)) ReadsSafely (empty : WatchState ℕ)
      [.addressCache 0, .watch 0 1, .watch 0 2, .event 0 7 .new, .watch 0 3, .resume] := by
  decide

end Careful

end WatchState

end Nlcpp
