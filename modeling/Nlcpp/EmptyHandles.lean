import Mathlib.Data.Option.Basic
import Mathlib.Order.Nat
import Nlcpp.Lib.Run

/-!
Which libnl calls the handle classes make, and which of them are given NULL.

A handle may be empty: it was moved from, taken from, or built around NULL. Every member is
written as the calls it makes and what it does to the pointers. `step_exact` says when one
operation gives no NULL to a function that follows the pointer, `harmless_iff_careful` when
a whole program gives none, and `ordinary_harmless` which programs need not look.
-/

namespace Nlcpp.EmptyHandles

/-! ### Handles and calls -/

/-- The classes that wrap a libnl object. -/
inductive Cls where
  | address | routeAddress | routeLink | nextHop | route | cache | message
deriving DecidableEq, Repr

/-- libnl's functions, as far as it matters what they do with NULL: the accessors of a field
are one of them, and so are the functions that put or free. -/
inductive Fn where
  | nl_addr_clone | nl_cache_clone | rtnl_route_nh_clone
  | nl_addr_get | nl_cache_get | nl_object_get | rtnl_route_get | nlmsg_get
  | accessor
  | nl_addr2str
  | put
deriving DecidableEq, Repr

/-- The functions that do not follow the pointer when it is NULL. -/
@[simp] def Fn.Tolerant (fn : Fn) : Prop := fn = .put ∨ fn = .nl_addr2str

instance : DecidablePred Fn.Tolerant := fun fn =>
  inferInstanceAs (Decidable (fn = .put ∨ fn = .nl_addr2str))

/-- A call with the pointer it is given. -/
structure Call where
  fn : Fn
  pointer : Option ℕ
deriving DecidableEq, Repr

/-- No NULL for a function that follows it. -/
def Call.Harmless (c : Call) : Prop := c.pointer = none → c.fn.Tolerant

instance : DecidablePred Call.Harmless := fun c =>
  inferInstanceAs (Decidable (c.pointer = none → c.fn.Tolerant))

/-- The addresses of a `RouteAddress`. -/
inductive RouteAddressField where
  | localAddr | peer | broadcast | multicast | anycast
deriving DecidableEq, Repr

/-- The fields that hold an address, or NULL while they are not set. -/
inductive AddrField where
  | ofAddress (field : RouteAddressField)
  | gateway
  | dst
deriving DecidableEq, Repr

/-- The class whose getter it is. -/
def AddrField.owner : AddrField → Cls
  | ofAddress _ => .routeAddress
  | gateway => .nextHop
  | dst => .route

/-- The getter looks whether the field is set; `Route::dst` does not. -/
def AddrField.Tested (field : AddrField) : Prop := field ≠ .dst

instance : DecidablePred AddrField.Tested := fun field =>
  inferInstanceAs (Decidable (field ≠ .dst))

/-- An object of libnl: its address fields and, in a route, its next hops. -/
structure Raw where
  addrs : AddrField → Option ℕ
  hops : List ℕ

def Raw.new : Raw := ⟨fun _ => none, []⟩

def Raw.setAddr (raw : Raw) (field : AddrField) (p : Option ℕ) : Raw :=
  { raw with addrs := Function.update raw.addrs field p }

def Raw.addHop (raw : Raw) (p : ℕ) : Raw := { raw with hops := raw.hops ++ [p] }

/-- A live handle: its class, its pointer, and whether it was moved from or taken from, and
not assigned to since. -/
structure Handle where
  cls : Cls
  pointer : Option ℕ
  gone : Bool
deriving DecidableEq, Repr

/-- libnl's objects, the handles made so far (`none` once destroyed), and the calls made. -/
structure State where
  raws : List Raw
  handles : List (Option Handle)
  calls : List Call

/-! ### Statements -/

namespace State

variable (s : State)

/-- The handle with this number, when it is live. -/
def handle (i : ℕ) : Option Handle := s.handles[i]?.join

/-- A live handle of a class. -/
def handleOf (c : Cls) (i : ℕ) : Option Handle := (s.handle i).filter fun h => h.cls = c

/-- Two live handles, each of its class. -/
def pair (c : Cls) (i : ℕ) (c' : Cls) (j : ℕ) : Option (Handle × Handle) :=
  (s.handleOf c i).bind fun h => (s.handleOf c' j).map fun h' => (h, h')

/-- Call a function of libnl. -/
def call (fn : Fn) (p : Option ℕ) : State := { s with calls := s.calls ++ [⟨fn, p⟩] }

/-- Call a function of libnl with each of these objects. -/
def callEach (fn : Fn) (ps : List ℕ) : State :=
  { s with calls := s.calls ++ ps.map fun p => ⟨fn, some p⟩ }

/-- A new object. -/
def allocate (raw : Raw) : State := { s with raws := s.raws ++ [raw] }

/-- The object behind a pointer. -/
def raw (p : Option ℕ) : Raw := (p.bind fun p => s.raws[p]?).getD Raw.new

/-- A new handle. -/
def push (c : Cls) (p : Option ℕ) : State :=
  { s with handles := s.handles ++ [some ⟨c, p, false⟩] }

/-- Change a handle. -/
def set (i : ℕ) (h : Option Handle) : State := { s with handles := s.handles.set i h }

/-- Change an object. -/
def modify (p : Option ℕ) (f : Raw → Raw) : State :=
  p.elim s fun p => { s with raws := s.raws.modify p f }

/-- A handle of a new object, unless there is no memory for it: then its constructor throws. -/
def construct (c : Cls) (raw : Raw) (ok : Bool) : State :=
  if ok then (s.allocate raw).push c (some s.raws.length) else s

end State

/-! ### What the classes have -/

/-- How a class copies: it clones the object, or it shares it. -/
inductive Copying where
  | clones (fn : Fn)
  | shares (fn : Fn)
deriving DecidableEq, Repr

/-- `T(const T &)` and `operator=(const T &)`. -/
def Cls.copying : Cls → Option Copying
  | address => some (.clones .nl_addr_clone)
  | nextHop => some (.clones .rtnl_route_nh_clone)
  | cache => some (.shares .nl_cache_get)
  | _ => none

/-- `T(raw, create_copy_from_pointer)`. -/
def Cls.rawCopying : Cls → Option Fn
  | address => some .nl_addr_clone
  | nextHop => some .rtnl_route_nh_clone
  | cache => some .nl_cache_clone
  | _ => none

/-- `T(raw, share_ownership_of_pointer)` and `Message(nl_msg *)`: the function that takes the
reference, and whether NULL is tested for. -/
def Cls.sharing : Cls → Option (Fn × Bool)
  | address => some (.nl_addr_get, true)
  | routeAddress => some (.nl_object_get, true)
  | routeLink => some (.nl_object_get, true)
  | route => some (.rtnl_route_get, true)
  | cache => some (.nl_cache_get, false)
  | message => some (.nlmsg_get, false)
  | nextHop => none

/-- `T(raw, take_ownership_of_pointer)`. -/
def Cls.takes (c : Cls) : Bool := c ≠ .message

/-- `T()`, or `Address(const string &)`. -/
def Cls.allocates (c : Cls) : Bool := c ≠ .cache

/-! ### The members -/

namespace State

variable (s : State)

/-- What the destructor of a class calls; `NextHop` tests for NULL itself. -/
def release (h : Handle) : State :=
  if h.cls = .nextHop ∧ h.pointer = none then s else s.call .put h.pointer

/-- `T()`. -/
def create (c : Cls) (ok : Bool) : State :=
  if c.allocates then s.construct c Raw.new ok else s

/-- A clone of what is behind a pointer, in a new handle. NULL has none. -/
def cloned (fn : Fn) (c : Cls) (p : Option ℕ) (ok : Bool) : State :=
  (s.call fn p).construct c (s.raw p) (ok && p.isSome)

/-- `T(raw, create_copy_from_pointer)`. -/
def copyRaw (c : Cls) (raw : Option ℕ) (ok : Bool) : State :=
  c.rawCopying.elim s fun fn => s.cloned fn c raw ok

/-- `T(raw, take_ownership_of_pointer)`. -/
def takeRaw (c : Cls) (raw : Option ℕ) : State := if c.takes then s.push c raw else s

/-- `T(raw, share_ownership_of_pointer)`. -/
def shareRaw (c : Cls) (raw : Option ℕ) : State :=
  c.sharing.elim s fun (fn, tested) =>
    (if tested && raw.isNone then s else s.call fn raw).push c raw

/-- `T(const T &)`. -/
def copyConstruct (other : ℕ) (ok : Bool) : State :=
  (s.handle other).elim s fun h =>
    match h.cls.copying with
    | none => s
    | some (.clones fn) => s.cloned fn h.cls h.pointer ok
    | some (.shares fn) => (s.call fn h.pointer).push h.cls h.pointer

/-- `T(T &&)`. -/
def moveConstruct (other : ℕ) : State :=
  (s.handle other).elim s fun h =>
    (s.push h.cls h.pointer).set other (some ⟨h.cls, none, true⟩)

/-- `operator=(const T &)`. -/
def copyAssign (this other : ℕ) (ok : Bool) : State :=
  if this = other then s
  else
    (s.handle this).elim s fun h => (s.handleOf h.cls other).elim s fun h' =>
      match h.cls.copying with
      | none => s
      | some (.clones fn) =>
        let t := (s.release h).call fn h'.pointer
        if ok && h'.pointer.isSome then
          (t.allocate (s.raw h'.pointer)).set this (some ⟨h.cls, some s.raws.length, false⟩)
        else t.set this (some ⟨h.cls, none, false⟩)
      | some (.shares fn) =>
        ((s.release h).call fn h'.pointer).set this (some ⟨h.cls, h'.pointer, false⟩)

/-- `operator=(T &&)`. -/
def moveAssign (this other : ℕ) : State :=
  if this = other then s
  else
    (s.handle this).elim s fun h => (s.handleOf h.cls other).elim s fun h' =>
      ((s.release h).set this (some ⟨h.cls, h'.pointer, false⟩)).set other
        (some ⟨h.cls, none, true⟩)

/-- `~T()`. -/
def destroy (this : ℕ) : State := (s.handle this).elim s fun h => (s.release h).set this none

/-- `NextHop::take`. -/
def take (this : ℕ) : State :=
  (s.handleOf .nextHop this).elim s fun h => s.set this (some ⟨h.cls, none, true⟩)

/-- A getter or setter of plain data, or a function that walks a cache or puts plain data into
a message. Those that call libnl more than once pass it the same pointer. -/
def access (this : ℕ) : State := (s.handle this).elim s fun h => s.call .accessor h.pointer

/-- `Address::operator string`. -/
def toText (this : ℕ) : State :=
  (s.handleOf .address this).elim s fun h => s.call .nl_addr2str h.pointer

/-- `RouteAddress::local()` and the others, `NextHop::gateway()` and `Route::dst()`. -/
def getAddr (field : AddrField) (this : ℕ) (ok : Bool) : State :=
  (s.handleOf field.owner this).elim s fun h =>
    let t := s.call .accessor h.pointer
    let ptr := (s.raw h.pointer).addrs field
    if field.Tested ∧ ptr = none then t else t.cloned .nl_addr_clone .address ptr ok

/-- `RouteAddress::local(nullopt)` and the others. -/
def clearAddr (field : RouteAddressField) (this : ℕ) : State :=
  (s.handleOf .routeAddress this).elim s fun h =>
    (s.call .accessor h.pointer).modify h.pointer fun raw => raw.setAddr (.ofAddress field) none

/-- `RouteAddress::local(const Address &)` and the others: a copy of the address is made, set
and given up again. -/
def setAddr (field : RouteAddressField) (this arg : ℕ) (copied accepted : Bool) : State :=
  (s.pair .routeAddress this .address arg).elim s fun (h, h') =>
    let t := s.call .nl_addr_clone h'.pointer
    let copy := s.raws.length
    if copied && h'.pointer.isSome then
      (((t.allocate Raw.new).call .accessor h.pointer).modify h.pointer fun raw =>
        if accepted then raw.setAddr (.ofAddress field) (some copy) else raw).call .put (some copy)
    else t

/-- The body of `NextHop::gateway(optional<Address>)` for a parameter that holds `addr`; at
its end the parameter is given up. -/
def gatewayBody (h : Handle) (addr : Option ℕ) (cloned : Bool) : State :=
  let t := s.call .nl_addr_clone addr
  let clone := if cloned && addr.isSome then some s.raws.length else none
  (((((if clone.isSome then t.allocate Raw.new else t).call .accessor h.pointer).modify h.pointer
    fun raw => raw.setAddr .gateway clone).call .put clone).call .put addr)

/-- `gateway(nullopt)`. -/
def clearGateway (this : ℕ) : State :=
  (s.handleOf .nextHop this).elim s fun h =>
    ((s.call .accessor h.pointer).modify h.pointer fun raw => raw.setAddr .gateway none).call
      .put none

/-- `gateway(addr)`: the parameter is a copy. -/
def setGateway (this arg : ℕ) (copied cloned : Bool) : State :=
  (s.pair .nextHop this .address arg).elim s fun (h, h') =>
    let t := s.call .nl_addr_clone h'.pointer
    if copied && h'.pointer.isSome then
      (t.allocate Raw.new).gatewayBody h (some s.raws.length) cloned
    else t

/-- `gateway(move(addr))`: the parameter is what `addr` was. -/
def setGatewayMoved (this arg : ℕ) (cloned : Bool) : State :=
  (s.pair .nextHop this .address arg).elim s fun (h, h') =>
    (s.set arg (some ⟨.address, none, true⟩)).gatewayBody h h'.pointer cloned

/-- `Route::dst(Address &&)`; the address stays where it is. -/
def setDst (this arg : ℕ) (accepted : Bool) : State :=
  (s.pair .route this .address arg).elim s fun (h, h') =>
    (((s.call .accessor h.pointer).call .accessor h'.pointer).modify h.pointer fun raw =>
      if accepted then raw.setAddr .dst h'.pointer else raw).set arg
        (some ⟨.address, h'.pointer, true⟩)

/-- The body of `Route::add(NextHop &&)`. -/
def addBody (h : Handle) (hop : Option ℕ) : State :=
  ((s.call .accessor h.pointer).call .accessor hop).modify h.pointer fun raw =>
    hop.elim raw raw.addHop

/-- `Route::add(const NextHop &)`. -/
def addHop (this hop : ℕ) (ok : Bool) : State :=
  (s.pair .route this .nextHop hop).elim s fun (h, h') =>
    let t := s.call .rtnl_route_nh_clone h'.pointer
    if ok && h'.pointer.isSome then
      (t.allocate (s.raw h'.pointer)).addBody h (some s.raws.length)
    else t

/-- `Route::add(NextHop &&)`. -/
def addHopMoved (this hop : ℕ) : State :=
  (s.pair .route this .nextHop hop).elim s fun (h, h') =>
    (s.set hop (some ⟨.nextHop, none, true⟩)).addBody h h'.pointer

/-- `Route::nexthops`, with memory for so many hops. When one cannot be cloned, those in the
vector are freed with it. -/
def nexthops (this memory : ℕ) : State :=
  (s.handleOf .route this).elim s fun h =>
    let t := (s.call .accessor h.pointer).call .accessor h.pointer
    let hops := (s.raw h.pointer).hops
    if hops.length ≤ memory then
      hops.foldl (fun t hop => t.cloned .rtnl_route_nh_clone .nextHop (some hop) true) t
    else
      (t.callEach .rtnl_route_nh_clone (hops.take (memory + 1))).callEach .put
        (List.range' s.raws.length memory)

/-- `Message::put(int, const Address &)` and `Message::put(int, const Message &)`. -/
def putOther (c : Cls) (this arg : ℕ) : State :=
  (s.pair .message this c arg).elim s fun (h, h') =>
    (s.call .accessor h.pointer).call .accessor h'.pointer

end State

/-- An operation; the flags say whether libnl has memory for what it allocates or clones, and
accepts what is set. -/
inductive Op where
  | create (c : Cls) (ok : Bool)
  | copyRaw (c : Cls) (raw : Option ℕ) (ok : Bool)
  | takeRaw (c : Cls) (raw : Option ℕ)
  | shareRaw (c : Cls) (raw : Option ℕ)
  | copyConstruct (other : ℕ) (ok : Bool)
  | moveConstruct (other : ℕ)
  | copyAssign (this other : ℕ) (ok : Bool)
  | moveAssign (this other : ℕ)
  | destroy (this : ℕ)
  | take (this : ℕ)
  | access (this : ℕ)
  | toText (this : ℕ)
  | getAddr (field : AddrField) (this : ℕ) (ok : Bool)
  | clearAddr (field : RouteAddressField) (this : ℕ)
  | setAddr (field : RouteAddressField) (this arg : ℕ) (copied accepted : Bool)
  | clearGateway (this : ℕ)
  | setGateway (this arg : ℕ) (copied cloned : Bool)
  | setGatewayMoved (this arg : ℕ) (cloned : Bool)
  | setDst (this arg : ℕ) (accepted : Bool)
  | addHop (this hop : ℕ) (ok : Bool)
  | addHopMoved (this hop : ℕ)
  | nexthops (this memory : ℕ)
  | putAddress (this arg : ℕ)
  | putNested (this arg : ℕ)
deriving DecidableEq, Repr

def step (s : State) : Op → State
  | .create c ok => s.create c ok
  | .copyRaw c raw ok => s.copyRaw c raw ok
  | .takeRaw c raw => s.takeRaw c raw
  | .shareRaw c raw => s.shareRaw c raw
  | .copyConstruct other ok => s.copyConstruct other ok
  | .moveConstruct other => s.moveConstruct other
  | .copyAssign this other ok => s.copyAssign this other ok
  | .moveAssign this other => s.moveAssign this other
  | .destroy this => s.destroy this
  | .take this => s.take this
  | .access this => s.access this
  | .toText this => s.toText this
  | .getAddr field this ok => s.getAddr field this ok
  | .clearAddr field this => s.clearAddr field this
  | .setAddr field this arg copied accepted => s.setAddr field this arg copied accepted
  | .clearGateway this => s.clearGateway this
  | .setGateway this arg copied cloned => s.setGateway this arg copied cloned
  | .setGatewayMoved this arg cloned => s.setGatewayMoved this arg cloned
  | .setDst this arg accepted => s.setDst this arg accepted
  | .addHop this hop ok => s.addHop this hop ok
  | .addHopMoved this hop => s.addHopMoved this hop
  | .nexthops this memory => s.nexthops this memory
  | .putAddress this arg => s.putOther .address this arg
  | .putNested this arg => s.putOther .message this arg

/-- The object whose getter or setter it is. -/
def Op.receiver : Op → Option ℕ
  | .access this | .toText this | .getAddr _ this _ | .clearAddr _ this
  | .setAddr _ this _ _ _ | .clearGateway this | .setGateway this _ _ _
  | .setGatewayMoved this _ _ | .setDst this _ _ | .addHop this _ _ | .addHopMoved this _
  | .nexthops this _ | .putAddress this _ | .putNested this _ => some this
  | _ => none

/-- No getter or setter of an object that was moved from or taken from. -/
def Allowed (s : State) (op : Op) : Prop :=
  ∀ i ∈ op.receiver, ∀ h ∈ s.handle i, h.gone = false

instance (s : State) (op : Op) : Decidable (Allowed s op) :=
  inferInstanceAs (Decidable (∀ i ∈ op.receiver, ∀ h ∈ s.handle i, h.gone = false))

/-- Before anything: objects of libnl with whatever they hold. -/
def State.start (raws : List Raw) : State := ⟨raws, [], []⟩

def State.Harmless (s : State) : Prop := ∀ c ∈ s.calls, c.Harmless

instance (s : State) : Decidable s.Harmless :=
  inferInstanceAs (Decidable (∀ c ∈ s.calls, c.Harmless))

/-- An object that is not empty, if it is one of that class. -/
def State.Full (s : State) (c : Cls) (i : ℕ) : Prop := ∀ h ∈ s.handleOf c i, h.pointer.isSome

/-- The same of an argument, and of the receiver when it comes to that. -/
def State.BothFull (s : State) (c : Cls) (i : ℕ) (c' : Cls) (j : ℕ) (reached : Bool) : Prop :=
  ∀ p ∈ s.pair c i c' j, p.2.pointer.isSome ∧ (reached → p.1.pointer.isSome)

/-- What keeps NULL away from the functions that follow it. -/
def Careful (s : State) : Op → Prop
  | .create _ _ | .takeRaw _ _ | .moveConstruct _ | .moveAssign _ _ | .destroy _ | .take _
  | .toText _ => True
  | .copyRaw c raw _ => c.rawCopying.isSome → raw.isSome
  | .shareRaw c raw => ∀ fn, c.sharing = some (fn, false) → raw.isSome
  | .copyConstruct other _ => ∀ h ∈ s.handle other, h.cls.copying.isSome → h.pointer.isSome
  | .copyAssign this other _ => this ≠ other → ∀ h ∈ s.handle this,
      ∀ h' ∈ s.handleOf h.cls other, h.cls.copying.isSome → h'.pointer.isSome
  | .access this => ∀ h ∈ s.handle this, h.pointer.isSome
  | .getAddr field this _ => ∀ h ∈ s.handleOf field.owner this,
      h.pointer.isSome ∧ (¬field.Tested → ((s.raw h.pointer).addrs field).isSome)
  | .clearAddr _ this => s.Full .routeAddress this
  | .clearGateway this => s.Full .nextHop this
  | .nexthops this _ => s.Full .route this
  | .setAddr _ this arg copied _ => s.BothFull .routeAddress this .address arg copied
  | .setGateway this arg copied _ => s.BothFull .nextHop this .address arg copied
  | .setGatewayMoved this arg _ => s.BothFull .nextHop this .address arg true
  | .setDst this arg _ => s.BothFull .route this .address arg true
  | .addHop this hop ok => s.BothFull .route this .nextHop hop ok
  | .addHopMoved this hop => s.BothFull .route this .nextHop hop true
  | .putAddress this arg => s.BothFull .message this .address arg true
  | .putNested this arg => s.BothFull .message this .message arg true

/-! ### One operation -/

@[simp] theorem Call.harmless_iff {fn : Fn} (follows : ¬fn.Tolerant) (p : Option ℕ) :
    Call.Harmless ⟨fn, p⟩ ↔ p.isSome := by
  cases p with
  | none => simpa [Call.Harmless] using follows
  | some p => simp [Call.Harmless]

@[simp] theorem Call.put_harmless (p : Option ℕ) : Call.Harmless ⟨.put, p⟩ :=
  fun _ => .inl rfl

@[simp] theorem Call.nl_addr2str_harmless (p : Option ℕ) : Call.Harmless ⟨.nl_addr2str, p⟩ :=
  fun _ => .inr rfl

namespace State

variable {s : State}

@[simp] theorem harmless_call (fn : Fn) (p : Option ℕ) :
    (s.call fn p).Harmless ↔ s.Harmless ∧ Call.Harmless ⟨fn, p⟩ := by
  simp [Harmless, call, or_imp, forall_and]

@[simp] theorem harmless_callEach (fn : Fn) (ps : List ℕ) :
    (s.callEach fn ps).Harmless ↔ s.Harmless := by
  simp [Harmless, callEach, Call.Harmless, or_imp, forall_and]

@[simp] theorem harmless_set (i : ℕ) (h : Option Handle) :
    (s.set i h).Harmless ↔ s.Harmless := Iff.rfl

@[simp] theorem harmless_allocate (raw : Raw) : (s.allocate raw).Harmless ↔ s.Harmless := Iff.rfl

@[simp] theorem harmless_push (c : Cls) (p : Option ℕ) :
    (s.push c p).Harmless ↔ s.Harmless := Iff.rfl

@[simp] theorem harmless_modify (p : Option ℕ) (f : Raw → Raw) :
    (s.modify p f).Harmless ↔ s.Harmless := by
  cases p <;> exact Iff.rfl

@[simp] theorem harmless_construct (c : Cls) (raw : Raw) (ok : Bool) :
    (s.construct c raw ok).Harmless ↔ s.Harmless := by
  cases ok <;> exact Iff.rfl

@[simp] theorem harmless_release (h : Handle) : (s.release h).Harmless ↔ s.Harmless := by
  by_cases skipped : h.cls = .nextHop ∧ h.pointer = none
  · rw [release, if_pos skipped]
  · rw [release, if_neg skipped, harmless_call]
    exact and_iff_left (Call.put_harmless _)

@[simp] theorem harmless_cloned (fn : Fn) (c : Cls) (p : Option ℕ) (ok : Bool) :
    (s.cloned fn c p ok).Harmless ↔ s.Harmless ∧ Call.Harmless ⟨fn, p⟩ := by
  simp [cloned]

/-! Each member follows a pointer exactly where `Careful` wants it not to be NULL. -/

variable (s)

theorem copyRaw_exact (c : Cls) (raw : Option ℕ) (ok : Bool) :
    (s.copyRaw c raw ok).Harmless ↔ s.Harmless ∧ (c.rawCopying.isSome → raw.isSome) := by
  cases c <;> simp [copyRaw, Cls.rawCopying]

theorem shareRaw_exact (c : Cls) (raw : Option ℕ) :
    (s.shareRaw c raw).Harmless ↔
      s.Harmless ∧ ∀ fn, c.sharing = some (fn, false) → raw.isSome := by
  cases c <;> cases raw <;> simp [shareRaw, Cls.sharing]

theorem copyConstruct_exact (other : ℕ) (ok : Bool) :
    (s.copyConstruct other ok).Harmless ↔
      s.Harmless ∧ ∀ h ∈ s.handle other, h.cls.copying.isSome → h.pointer.isSome := by
  cases found : s.handle other with
  | none => simp [copyConstruct, found]
  | some h =>
      obtain ⟨c, p, gone⟩ := h
      cases c <;> simp [copyConstruct, found, Cls.copying]

theorem moveConstruct_exact (other : ℕ) : (s.moveConstruct other).Harmless ↔ s.Harmless := by
  cases found : s.handle other <;> simp [moveConstruct, found]

theorem copyAssign_exact (this other : ℕ) (ok : Bool) :
    (s.copyAssign this other ok).Harmless ↔
      s.Harmless ∧ (this ≠ other → ∀ h ∈ s.handle this,
        ∀ h' ∈ s.handleOf h.cls other, h.cls.copying.isSome → h'.pointer.isSome) := by
  by_cases same : this = other
  · simp [copyAssign, same]
  · cases found : s.handle this with
    | none => simp [copyAssign, same, found]
    | some h =>
        cases found' : s.handleOf h.cls other with
        | none => simp [copyAssign, same, found, found']
        | some h' =>
            obtain ⟨c, p, gone⟩ := h
            cases c <;> cases ok <;> cases full : h'.pointer <;>
              simp [copyAssign, same, found, found', full, Cls.copying]

theorem moveAssign_exact (this other : ℕ) :
    (s.moveAssign this other).Harmless ↔ s.Harmless := by
  by_cases same : this = other
  · simp [moveAssign, same]
  · cases found : s.handle this with
    | none => simp [moveAssign, same, found]
    | some h => cases found' : s.handleOf h.cls other <;> simp [moveAssign, same, found, found']

theorem getAddr_exact (field : AddrField) (this : ℕ) (ok : Bool) :
    (s.getAddr field this ok).Harmless ↔
      s.Harmless ∧ ∀ h ∈ s.handleOf field.owner this,
        h.pointer.isSome ∧ (¬field.Tested → ((s.raw h.pointer).addrs field).isSome) := by
  cases found : s.handleOf field.owner this with
  | none => simp [getAddr, found]
  | some h =>
      by_cases tested : field.Tested <;> cases ptr : (s.raw h.pointer).addrs field <;>
        simp [getAddr, found, tested, ptr]

theorem setAddr_exact (field : RouteAddressField) (this arg : ℕ) (copied accepted : Bool) :
    (s.setAddr field this arg copied accepted).Harmless ↔
      s.Harmless ∧ s.BothFull .routeAddress this .address arg copied := by
  cases found : s.pair .routeAddress this .address arg with
  | none => simp [setAddr, found, BothFull]
  | some p =>
      obtain ⟨h, h'⟩ := p
      cases copied <;> cases full : h'.pointer <;>
        simp [setAddr, found, full, BothFull]

theorem gatewayBody_exact (h : Handle) (addr : Option ℕ) (cloned : Bool) :
    (s.gatewayBody h addr cloned).Harmless ↔
      s.Harmless ∧ addr.isSome ∧ h.pointer.isSome := by
  cases cloned <;> cases addr <;> simp [gatewayBody]

theorem setGateway_exact (this arg : ℕ) (copied cloned : Bool) :
    (s.setGateway this arg copied cloned).Harmless ↔
      s.Harmless ∧ s.BothFull .nextHop this .address arg copied := by
  cases found : s.pair .nextHop this .address arg with
  | none => simp [setGateway, found, BothFull]
  | some p =>
      obtain ⟨h, h'⟩ := p
      cases copied <;> cases full : h'.pointer <;>
        simp [setGateway, found, full, BothFull, gatewayBody_exact]

theorem setGatewayMoved_exact (this arg : ℕ) (cloned : Bool) :
    (s.setGatewayMoved this arg cloned).Harmless ↔
      s.Harmless ∧ s.BothFull .nextHop this .address arg true := by
  cases found : s.pair .nextHop this .address arg <;>
    simp [setGatewayMoved, found, BothFull, gatewayBody_exact]

theorem setDst_exact (this arg : ℕ) (accepted : Bool) :
    (s.setDst this arg accepted).Harmless ↔
      s.Harmless ∧ s.BothFull .route this .address arg true := by
  cases found : s.pair .route this .address arg with
  | none => simp [setDst, found, BothFull]
  | some p =>
      simp [setDst, found, BothFull, and_assoc, and_comm, and_left_comm]

theorem addBody_exact (h : Handle) (hop : Option ℕ) :
    (s.addBody h hop).Harmless ↔ s.Harmless ∧ hop.isSome ∧ h.pointer.isSome := by
  simp [addBody, and_assoc, and_comm]

theorem addHop_exact (this hop : ℕ) (ok : Bool) :
    (s.addHop this hop ok).Harmless ↔ s.Harmless ∧ s.BothFull .route this .nextHop hop ok := by
  cases found : s.pair .route this .nextHop hop with
  | none => simp [addHop, found, BothFull]
  | some p =>
      obtain ⟨h, h'⟩ := p
      cases ok <;> cases full : h'.pointer <;>
        simp [addHop, found, full, BothFull, addBody_exact]

theorem addHopMoved_exact (this hop : ℕ) :
    (s.addHopMoved this hop).Harmless ↔
      s.Harmless ∧ s.BothFull .route this .nextHop hop true := by
  cases found : s.pair .route this .nextHop hop <;>
    simp [addHopMoved, found, BothFull, addBody_exact]

/-- The hops of a route are never NULL. -/
theorem harmless_foldl_cloned (fn : Fn) (c : Cls) (hops : List ℕ) :
    (hops.foldl (fun t hop => t.cloned fn c (some hop) true) s).Harmless ↔ s.Harmless := by
  induction hops generalizing s with
  | nil => exact Iff.rfl
  | cons hop hops ih => simp [ih, Call.Harmless]

theorem nexthops_exact (this memory : ℕ) :
    (s.nexthops this memory).Harmless ↔ s.Harmless ∧ s.Full .route this := by
  cases found : s.handleOf .route this with
  | none => simp [nexthops, found, Full]
  | some h =>
      by_cases enough : (s.raw h.pointer).hops.length ≤ memory <;>
        simp [nexthops, found, enough, Full, harmless_foldl_cloned]

theorem putOther_exact (c : Cls) (this arg : ℕ) :
    (s.putOther c this arg).Harmless ↔ s.Harmless ∧ s.BothFull .message this c arg true := by
  cases found : s.pair .message this c arg with
  | none => simp [putOther, found, BothFull]
  | some p =>
      simp [putOther, found, BothFull, and_assoc, and_comm, and_left_comm]

end State

/-- **One operation.** It gives no function the NULL that it would follow exactly when it is
careful. -/
theorem step_exact (s : State) (op : Op) :
    (step s op).Harmless ↔ s.Harmless ∧ Careful s op := by
  cases op with
  | create c ok =>
      cases allocates : c.allocates <;> simp [step, State.create, Careful, allocates]
  | copyRaw c raw ok => exact s.copyRaw_exact c raw ok
  | takeRaw c raw => cases takes : c.takes <;> simp [step, State.takeRaw, Careful, takes]
  | shareRaw c raw => exact s.shareRaw_exact c raw
  | copyConstruct other ok => exact s.copyConstruct_exact other ok
  | moveConstruct other => simp [step, Careful, State.moveConstruct_exact]
  | copyAssign this other ok => exact s.copyAssign_exact this other ok
  | moveAssign this other => simp [step, Careful, State.moveAssign_exact]
  | destroy this => cases found : s.handle this <;> simp [step, State.destroy, Careful, found]
  | take this =>
      cases found : s.handleOf .nextHop this <;> simp [step, State.take, Careful, found]
  | access this =>
      cases found : s.handle this <;>
        simp [step, State.access, Careful, found]
  | toText this =>
      cases found : s.handleOf .address this <;> simp [step, State.toText, Careful, found]
  | getAddr field this ok => exact s.getAddr_exact field this ok
  | clearAddr field this =>
      cases found : s.handleOf .routeAddress this <;>
        simp [step, State.clearAddr, Careful, State.Full, found]
  | setAddr field this arg copied accepted => exact s.setAddr_exact field this arg copied accepted
  | clearGateway this =>
      cases found : s.handleOf .nextHop this <;>
        simp [step, State.clearGateway, Careful, State.Full, found]
  | setGateway this arg copied cloned => exact s.setGateway_exact this arg copied cloned
  | setGatewayMoved this arg cloned => exact s.setGatewayMoved_exact this arg cloned
  | setDst this arg accepted => exact s.setDst_exact this arg accepted
  | addHop this hop ok => exact s.addHop_exact this hop ok
  | addHopMoved this hop => exact s.addHopMoved_exact this hop
  | nexthops this memory => exact s.nexthops_exact this memory
  | putAddress this arg => exact s.putOther_exact .address this arg
  | putNested this arg => exact s.putOther_exact .message this arg

/-! ### Programs -/

/-- **NULL is followed exactly where care is missing.** In the states of a program no
function was given a NULL that it follows just when every operation was careful. -/
theorem harmless_iff_careful (raws : List Raw) (ops : List Op) :
    (∀ t ∈ Run.states step (State.start raws) ops, t.Harmless) ↔
      Run.Guarded step Careful (State.start raws) ops := by
  refine Run.forall_states_iff_guarded (fun s op harmless => ?_) ?_ ops
  · rw [step_exact]
    exact and_iff_right harmless
  · intro c called
    cases called

/-- Two programs that use no getter or setter of an object moved from or taken from: one asks
a new route for its destination, the other copies an address that was moved from. -/
theorem unset_and_moved_from_followed :
    (Run.Guarded step Allowed (State.start []) [.create .route true, .getAddr .dst 0 true] ∧
      ¬(Run.final step (State.start []) [.create .route true, .getAddr .dst 0 true]).Harmless) ∧
    (Run.Guarded step Allowed (State.start [])
        [.create .address true, .moveConstruct 0, .copyConstruct 0 true] ∧
      ¬(Run.final step (State.start [])
        [.create .address true, .moveConstruct 0, .copyConstruct 0 true]).Harmless) := by
  decide

/-! ### Ordinary programs

In a program that hands out no NULL, uses nothing it has moved from, asks no route for a
destination that is not set and does not run out of memory in an assignment, only what was
moved from or taken from is empty. -/

namespace State

variable (s : State)

/-- What is empty was moved from or taken from. -/
def Settled : Prop := ∀ h, some h ∈ s.handles → h.pointer = none → h.gone = true

/-- Not moved from or taken from. -/
def Present (i : ℕ) : Prop := ∀ h ∈ s.handle i, h.gone = false

end State

def Ordinary (s : State) : Op → Prop
  | .copyRaw _ raw _ | .takeRaw _ raw | .shareRaw _ raw => raw.isSome
  | .copyConstruct other _ | .moveConstruct other | .moveAssign _ other => s.Present other
  | .copyAssign _ other ok => ok ∧ s.Present other
  | .getAddr field this _ => ∀ h ∈ s.handleOf field.owner this,
      ¬field.Tested → ((s.raw h.pointer).addrs field).isSome
  | .setAddr _ _ arg _ _ | .setGateway _ arg _ _ | .setGatewayMoved _ arg _ | .setDst _ arg _
  | .addHop _ arg _ | .addHopMoved _ arg | .putAddress _ arg | .putNested _ arg => s.Present arg
  | _ => True

namespace State

variable {s : State}

theorem mem_handles {i : ℕ} {h : Handle} (found : s.handle i = some h) : some h ∈ s.handles := by
  obtain ⟨entry, here, held⟩ := Option.bind_eq_some_iff.mp found
  rw [id_eq] at held
  exact held ▸ List.mem_of_getElem? here

theorem handle_of_handleOf {c : Cls} {i : ℕ} {h : Handle} (found : s.handleOf c i = some h) :
    s.handle i = some h := (Option.filter_eq_some_iff.mp found).1

theorem of_pair {c c' : Cls} {i j : ℕ} {p : Handle × Handle} (found : s.pair c i c' j = some p) :
    s.handleOf c i = some p.1 ∧ s.handleOf c' j = some p.2 := by
  obtain ⟨h, here, rest⟩ := Option.bind_eq_some_iff.mp found
  obtain ⟨h', there, rfl⟩ := Option.map_eq_some_iff.mp rest
  exact ⟨here, there⟩

/-- An object that was not moved from is not empty. -/
theorem Settled.full (settled : s.Settled) {i : ℕ} (present : s.Present i) {h : Handle}
    (found : s.handle i = some h) : h.pointer.isSome := by
  cases empty : h.pointer with
  | some p => rfl
  | none =>
      have gone := settled h (mem_handles found) empty
      rw [present h found] at gone
      cases gone

theorem Settled.bothFull (settled : s.Settled) {c c' : Cls} {i j : ℕ} (present : s.Present i)
    (present' : s.Present j) (reached : Bool) : s.BothFull c i c' j reached := by
  intro p found
  obtain ⟨here, there⟩ := of_pair found
  exact ⟨settled.full present' (handle_of_handleOf there),
    fun _ => settled.full present (handle_of_handleOf here)⟩

theorem Settled.set (settled : s.Settled) (i : ℕ) {entry : Option Handle}
    (fine : ∀ h ∈ entry, h.pointer = none → h.gone = true) : (s.set i entry).Settled := by
  intro h kept empty
  rcases List.mem_or_eq_of_mem_set kept with old | new
  · exact settled h old empty
  · exact fine h new.symm empty

theorem Settled.push (settled : s.Settled) (c : Cls) {p : Option ℕ} (full : p.isSome) :
    (s.push c p).Settled := by
  intro h kept empty
  rcases List.mem_append.mp kept with old | new
  · exact settled h old empty
  · cases Option.some.inj (List.mem_singleton.mp new)
    have null : p = none := empty
    rw [null] at full
    cases full

theorem Settled.call (settled : s.Settled) (fn : Fn) (p : Option ℕ) : (s.call fn p).Settled :=
  settled

theorem Settled.modify (settled : s.Settled) (p : Option ℕ) (f : Raw → Raw) :
    (s.modify p f).Settled := by
  cases p <;> exact settled

theorem Settled.release (settled : s.Settled) (h : Handle) : (s.release h).Settled := by
  by_cases skipped : h.cls = .nextHop ∧ h.pointer = none
  · rw [State.release, if_pos skipped]
    exact settled
  · rw [State.release, if_neg skipped]
    exact settled

theorem Settled.construct (settled : s.Settled) (c : Cls) (raw : Raw) (ok : Bool) :
    (s.construct c raw ok).Settled := by
  cases ok with
  | false => exact settled
  | true => exact Settled.push (s := s.allocate raw) settled c rfl

theorem Settled.cloned (settled : s.Settled) (fn : Fn) (c : Cls) (p : Option ℕ) (ok : Bool) :
    (s.cloned fn c p ok).Settled :=
  Settled.construct (s := s.call fn p) settled c _ _

theorem Settled.foldl_cloned (settled : s.Settled) (fn : Fn) (c : Cls) (hops : List ℕ) :
    (hops.foldl (fun t hop => t.cloned fn c (some hop) true) s).Settled := by
  induction hops generalizing s with
  | nil => exact settled
  | cons hop hops ih => exact ih (settled.cloned fn c (some hop) true)

theorem Settled.gatewayBody (settled : s.Settled) (h : Handle) (addr : Option ℕ) (cloned : Bool) :
    (s.gatewayBody h addr cloned).Settled := by
  cases cloned <;> cases addr <;> exact Settled.modify (by exact settled) _ _

theorem Settled.addBody (settled : s.Settled) (h : Handle) (hop : Option ℕ) :
    (s.addBody h hop).Settled :=
  Settled.modify (s := (s.call .accessor h.pointer).call .accessor hop) settled _ _

theorem Settled.elim (settled : s.Settled) {α : Type} {found : Option α} {f : α → State}
    (there : ∀ a, found = some a → (f a).Settled) : (found.elim s f).Settled := by
  cases found with
  | none => exact settled
  | some a => exact there a rfl

theorem Settled.copyConstruct (settled : s.Settled) {other : ℕ} (present : s.Present other)
    (ok : Bool) : (s.copyConstruct other ok).Settled := by
  refine settled.elim fun h found => ?_
  cases h.cls.copying with
  | none => exact settled
  | some copying =>
      cases copying with
      | clones fn => exact settled.cloned fn h.cls h.pointer ok
      | shares fn => exact (settled.call fn h.pointer).push h.cls (settled.full present found)

/-- What is not empty may be stored anywhere. -/
theorem Settled.set_full (settled : s.Settled) (i : ℕ) (c : Cls) {p : Option ℕ}
    (full : p.isSome) : (s.set i (some ⟨c, p, false⟩)).Settled := by
  refine settled.set i ?_
  rintro _ ⟨⟩ empty
  have null : p = none := empty
  rw [null] at full
  cases full

theorem Settled.copyAssign (settled : s.Settled) (this : ℕ) {other : ℕ}
    (present : s.Present other) : (s.copyAssign this other true).Settled := by
  rw [State.copyAssign]
  split
  · exact settled
  refine settled.elim fun h _ => settled.elim fun h' found => ?_
  have full := settled.full present (handle_of_handleOf found)
  have released := settled.release h
  cases h.cls.copying with
  | none => exact settled
  | some copying =>
      cases copying with
      | clones fn =>
          simp only [Bool.true_and, full, if_true]
          refine State.Settled.set_full ?_ this h.cls rfl
          exact released
      | shares fn => exact (released.call fn h'.pointer).set_full this h.cls full

theorem Settled.moveAssign (settled : s.Settled) (this : ℕ) {other : ℕ}
    (present : s.Present other) : (s.moveAssign this other).Settled := by
  rw [State.moveAssign]
  split
  · exact settled
  refine settled.elim fun h _ => settled.elim fun h' found => ?_
  have full := settled.full present (handle_of_handleOf found)
  exact ((settled.release h).set_full this h.cls full).set other (by simp)

end State

/-- An ordinary operation keeps NULL away from the functions that follow it. -/
theorem careful_of_ordinary {s : State} (settled : s.Settled) {op : Op} (allowed : Allowed s op)
    (ordinary : Ordinary s op) : Careful s op := by
  have receiver {i : ℕ} (here : op.receiver = some i) : s.Present i := allowed i here
  cases op with
  | create | takeRaw | moveConstruct | moveAssign | destroy | take | toText => trivial
  | copyRaw c raw ok => exact fun _ => ordinary
  | shareRaw c raw => exact fun _ _ => ordinary
  | copyConstruct other ok => exact fun h found _ => settled.full ordinary found
  | copyAssign this other ok =>
      exact fun _ h _ h' found _ => settled.full ordinary.2 (State.handle_of_handleOf found)
  | access this => exact fun h found => settled.full (receiver rfl) found
  | getAddr field this ok =>
      intro h found
      have full := settled.full (receiver rfl) (State.handle_of_handleOf found)
      exact ⟨full, ordinary h found⟩
  | clearAddr field this =>
      exact fun h found => settled.full (receiver rfl) (State.handle_of_handleOf found)
  | clearGateway this =>
      exact fun h found => settled.full (receiver rfl) (State.handle_of_handleOf found)
  | nexthops this memory =>
      exact fun h found => settled.full (receiver rfl) (State.handle_of_handleOf found)
  | setAddr | setGateway | setGatewayMoved | setDst | addHop | addHopMoved | putAddress
  | putNested => exact settled.bothFull (receiver rfl) ordinary _

/-- An ordinary operation empties only what it moves from or takes from. -/
theorem settled_step {s : State} (settled : s.Settled) {op : Op} (ordinary : Ordinary s op) :
    (step s op).Settled := by
  cases op with
  | create c ok =>
      rw [step, State.create]
      split
      · exact settled.construct c Raw.new ok
      · exact settled
  | copyRaw c raw ok => exact settled.elim fun fn _ => settled.cloned fn c raw ok
  | takeRaw c raw =>
      rw [step, State.takeRaw]
      split
      · exact settled.push c ordinary
      · exact settled
  | shareRaw c raw =>
      refine settled.elim fun sharing _ => State.Settled.push ?_ c ordinary
      split <;> exact settled
  | copyConstruct other ok => exact settled.copyConstruct ordinary ok
  | moveConstruct other =>
      refine settled.elim fun h found => ?_
      exact (settled.push h.cls (settled.full ordinary found)).set other (by simp)
  | copyAssign this other ok =>
      obtain ⟨rfl, present⟩ := ordinary
      exact settled.copyAssign this present
  | moveAssign this other => exact settled.moveAssign this ordinary
  | destroy this => exact settled.elim fun h _ => (settled.release h).set this (by simp)
  | take this => exact settled.elim fun h _ => settled.set this (by simp)
  | access this => exact settled.elim fun h _ => settled.call .accessor h.pointer
  | toText this => exact settled.elim fun h _ => settled.call .nl_addr2str h.pointer
  | getAddr field this ok =>
      refine settled.elim fun h _ => ?_
      dsimp only
      split
      · exact settled
      · exact (settled.call .accessor h.pointer).cloned _ _ _ ok
  | clearAddr field this =>
      exact settled.elim fun h _ => (settled.call .accessor h.pointer).modify _ _
  | setAddr field this arg copied accepted =>
      refine settled.elim fun p _ => ?_
      dsimp only
      split
      · refine State.Settled.call (State.Settled.modify ?_ _ _) _ _
        exact settled
      · exact settled
  | clearGateway this =>
      exact settled.elim fun h _ => ((settled.call .accessor h.pointer).modify _ _).call _ _
  | setGateway this arg copied cloned =>
      refine settled.elim fun p _ => ?_
      dsimp only
      split
      · exact State.Settled.gatewayBody (by exact settled) _ _ _
      · exact settled
  | setGatewayMoved this arg cloned =>
      exact settled.elim fun p _ => (settled.set arg (by simp)).gatewayBody _ _ cloned
  | setDst this arg accepted =>
      refine settled.elim fun p _ => State.Settled.set (State.Settled.modify ?_ _ _) arg (by simp)
      exact settled
  | addHop this hop ok =>
      refine settled.elim fun p _ => ?_
      dsimp only
      split
      · exact State.Settled.addBody (by exact settled) _ _
      · exact settled
  | addHopMoved this hop =>
      exact settled.elim fun p _ => (settled.set hop (by simp)).addBody _ _
  | nexthops this memory =>
      refine settled.elim fun h _ => ?_
      dsimp only
      split
      · exact ((settled.call .accessor h.pointer).call .accessor h.pointer).foldl_cloned _ _ _
      · exact settled
  | putAddress this arg => exact settled.elim fun _ _ => settled
  | putNested this arg => exact settled.elim fun _ _ => settled

/-- **Ordinary programs.** They give no function a NULL that it follows, and what is empty in
them was moved from or taken from. -/
theorem ordinary_harmless {raws : List Raw} {ops : List Op}
    (allowed : Run.Guarded step Allowed (State.start raws) ops)
    (ordinary : Run.Guarded step Ordinary (State.start raws) ops) :
    ∀ t ∈ Run.states step (State.start raws) ops, t.Harmless ∧ t.Settled := by
  have start : (State.start raws).Harmless ∧ (State.start raws).Settled :=
    ⟨by simp [State.Harmless, State.start], by simp [State.Settled, State.start]⟩
  refine Run.Guarded.forall_states ?_ start (allowed.and ordinary)
  rintro s op ⟨harmless, settled⟩ ⟨may, does⟩
  have careful := careful_of_ordinary settled may does
  exact ⟨(step_exact s op).mpr ⟨harmless, careful⟩, settled_step settled does⟩

end Nlcpp.EmptyHandles
