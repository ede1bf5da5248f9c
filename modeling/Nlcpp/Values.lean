import Nlcpp.Lib.Alias
import Nlcpp.Lib.Run
import Mathlib.Data.Int.Notation

/-!
Value objects: which of them share an `nl_addr`.

`Address`, `RouteAddress`, `NextHop` and `Route` look like values: changing one is not
supposed to change another. Each setter and getter decides on its own whether to clone an
`nl_addr`, to hand over the pointer, or to store a second one. The model tracks every place
that points to an `nl_addr`; `step_changes` says that all operations keep these apart, and
that only `Route::dst` called with a named `Address` does not.
-/

namespace Nlcpp.Values

open Nlcpp.Alias

/-! ### Objects and their pointers -/

/-- An `nl_addr`. -/
structure NlAddr where
  family : ℤ
  binary : List UInt8
  prefixlen : ℕ
deriving DecidableEq, Repr

/-- The name of an object: a variable of the program, the parameter of a function, or the
temporary of an expression. -/
inductive Name where
  | var (n : ℕ) | param | temporary
deriving DecidableEq, Repr

inductive Object where
  | address (v : Name)
  | routeAddress (v : ℕ)
  | nextHop (v : Name)
  | route (v : ℕ)
deriving DecidableEq, Repr

/-- The address fields of an `rtnl_addr`. -/
inductive AddressField where
  | local_ | peer | broadcast | multicast | anycast
deriving DecidableEq, Repr

/-- Where an object keeps a pointer to an `nl_addr`: the `Address` itself, a field of a
`RouteAddress`, the gateway of a `NextHop`, the destination or the gateway of a hop of a
`Route`. -/
inductive Part where
  | self
  | field (f : AddressField)
  | gateway
  | dst
  | hop (n : ℕ)
deriving DecidableEq, Repr

structure Slot where
  owner : Object
  part : Part
deriving DecidableEq, Repr

/-- What an `rtnl_addr`, `rtnl_nexthop` or `rtnl_route` holds besides its addresses: its
other fields, and those of the hops of a route. -/
structure Own (ρ : Type) where
  fields : ρ
  hops : List ρ
deriving Repr

/-- The `nl_addr` objects with the pointers to them, and the objects with a pointer to a
libnl object that is not null. (An `Address` has no more than its `nl_addr`.) -/
structure Objects (ρ : Type) where
  memory : Memory Slot NlAddr
  own : Object → Option (Own ρ)

/-- What setting an address of an `rtnl_addr` comes to: the result, the other fields, and
the prefix length that is then given to the addresses. -/
structure AddressSet (ρ : Type) where
  err : ℤ
  fields : ρ
  prefixlen : Option ℕ

/-- What libnl does to the values of the fields; what it does to the pointers is below. -/
structure FieldSetters (ρ : Type) where
  alloc : ρ
  nlAddrParse : List UInt8 → ℤ → Except ℤ NlAddr
  rtnlAddrSet : AddressField → Option NlAddr → ρ → AddressSet ρ
  rtnlAddrSetFamily : ℤ → ρ → ρ
  rtnlAddrSetPrefixlen : ℕ → ρ → ρ
  rtnlRouteSetFamily : UInt8 → ρ → ρ
  rtnlRouteSetDst : NlAddr → ρ → ℤ × ρ

variable {ρ : Type} (L : FieldSetters ρ)

namespace Objects

variable (s : Objects ρ)

/-- Before the first statement there are none. -/
def start : Objects ρ := ⟨.empty, fun _ => none⟩

/-- The address in a place. -/
def content (t : Slot) : Option NlAddr := s.memory.content t

/-- All that the getters of an object return. -/
def getters (o : Object) : Option (Own ρ) × (Part → Option NlAddr) :=
  (s.own o, fun part => s.content ⟨o, part⟩)

/-- The operation on the pointers. -/
def onMemory (f : Memory Slot NlAddr → Memory Slot NlAddr) : Objects ρ :=
  { s with memory := f s.memory }

def setOwn (o : Object) (own : Option (Own ρ)) : Objects ρ :=
  { s with own := Function.update s.own o own }

@[simp] theorem setOwn_memory (o : Object) (own : Option (Own ρ)) :
    (s.setOwn o own).memory = s.memory := rfl

/-- `nl_addr_clone` of what is in a place, into another. -/
def cloneInto (this other : Slot) (fails : Bool) : Objects ρ :=
  s.onMemory (·.place this (if fails then none else s.content other))

/-- The destructor. -/
def destroy (o : Object) : Objects ρ :=
  (s.onMemory (·.drop (·.owner = o))).setOwn o none

/-- The default constructor of a class; `fields` are those of a new libnl object. -/
def construct (this : Object) (fields : ρ) (fails : Bool) : Objects ρ :=
  (s.destroy this).setOwn this (if fails then none else some ⟨fields, []⟩)

/-- What is in a place after `this` has taken the pointers of `other`. -/
def taken (this other : Object) (t : Slot) : Option Slot :=
  if t.owner = this then some ⟨other, t.part⟩
  else if t.owner = other then none
  else some t

/-- The move constructor and the move assignment of each class. -/
def move (this other : Object) : Objects ρ :=
  if this = other then s
  else
    ((s.onMemory (·.relocate (taken this other))).setOwn this (s.own other)).setOwn other
      none

end Objects

/-! ### `Address` -/

namespace Address

/-- `Address(const string &, int)`; `Address(const string &)` is that with `AF_UNSPEC`. -/
def parse (this : Name) (str : List UInt8) (family : ℤ) (s : Objects ρ) : Objects ρ :=
  s.onMemory (·.place ⟨.address this, .self⟩ (L.nlAddrParse str family).toOption)

/-- `Address(const Address &)` and `operator=(const Address &)`. When the clone fails there is
no address: the constructor throws, the assignment does not look. -/
def copy (this other : Name) (fails : Bool) (s : Objects ρ) : Objects ρ :=
  if this = other then s else s.cloneInto ⟨.address this, .self⟩ ⟨.address other, .self⟩ fails

/-- `Address(Address &&)` and `operator=(Address &&)`. -/
def move (this other : Name) (s : Objects ρ) : Objects ρ :=
  s.move (.address this) (.address other)

/-- `family(int)`. -/
def family (this : ℕ) (family : ℤ) (s : Objects ρ) : Objects ρ :=
  s.onMemory (·.write ⟨.address (.var this), .self⟩ ({ · with family := family }))

/-- `prefixlen(unsigned)`. -/
def prefixlen (this : ℕ) (n : ℕ) (s : Objects ρ) : Objects ρ :=
  s.onMemory (·.write ⟨.address (.var this), .self⟩ ({ · with prefixlen := n }))

end Address

/-! ### `RouteAddress` -/

namespace RouteAddress

/-- `RouteAddress()`. -/
def construct (this : ℕ) (fails : Bool) (s : Objects ρ) : Objects ρ :=
  s.construct (.routeAddress this) L.alloc fails

/-- `RouteAddress(RouteAddress &&)` and `operator=(RouteAddress &&)`. -/
def move (this other : ℕ) (s : Objects ρ) : Objects ρ :=
  s.move (.routeAddress this) (.routeAddress other)

/-- The prefix length of an `rtnl_addr` is written to its peer address, or else to its
local one. -/
def writePrefixlen (this : ℕ) (n : ℕ) (s : Objects ρ) : Objects ρ :=
  let part : Part :=
    if (s.content ⟨.routeAddress this, .field .peer⟩).isSome then .field .peer
    else .field .local_
  s.onMemory (·.write ⟨.routeAddress this, part⟩ ({ · with prefixlen := n }))

/-- `prefixlen(unsigned)`. -/
def prefixlen (this : ℕ) (n : ℕ) (s : Objects ρ) : Objects ρ :=
  match s.own (.routeAddress this) with
  | none => s
  | some own =>
    let fields := L.rtnlAddrSetPrefixlen n own.fields
    writePrefixlen this n (s.setOwn (.routeAddress this) (some { own with fields := fields }))

/-- `family(int)`. -/
def family (this : ℕ) (family : ℤ) (s : Objects ρ) : Objects ρ :=
  s.setOwn (.routeAddress this)
    ((s.own (.routeAddress this)).map fun own =>
      { own with fields := L.rtnlAddrSetFamily family own.fields })

/-- Store the pointer that is in a place (`none`: a null pointer). -/
def storePointer (f : AddressField) (this : ℕ) (place : Option Slot) (s : Objects ρ) :
    Objects ρ :=
  match place with
  | none => s.onMemory (·.place ⟨.routeAddress this, .field f⟩ none)
  | some t => s.onMemory (·.share ⟨.routeAddress this, .field f⟩ t)

/-- `rtnl_addr_set_local` and its siblings: on success the pointer is stored, and a prefix
length may be written. -/
def rtnlAddrSet (f : AddressField) (this : ℕ) (place : Option Slot) (s : Objects ρ) :
    Objects ρ :=
  match s.own (.routeAddress this) with
  | none => s
  | some own =>
    let answer := L.rtnlAddrSet f (place.bind s.content) own.fields
    let s := s.setOwn (.routeAddress this) (some { own with fields := answer.fields })
    if answer.err = 0 then
      let s := storePointer f this place s
      match answer.prefixlen with
      | none => s
      | some n => writePrefixlen this n s
    else s

/-- The setter of an address field: it stores the pointer of a temporary copy. A copy that
fails throws before anything is set. -/
def setAddress (f : AddressField) (this : ℕ) (laddr : Option ℕ) (fails : Bool)
    (s : Objects ρ) : Objects ρ :=
  match laddr with
  | none => rtnlAddrSet L f this none s
  | some v =>
    let copied := Address.copy .temporary (.var v) fails s
    let s :=
      if (copied.content ⟨.address .temporary, .self⟩).isSome then
        rtnlAddrSet L f this (some ⟨.address .temporary, .self⟩) copied
      else copied
    s.destroy (.address .temporary)

/-- `local(const Address &)` and `local(const optional<Address> &)`. -/
def setLocal := setAddress L .local_

/-- `peer(const Address &)` and `peer(const optional<Address> &)`. -/
def setPeer := setAddress L .peer

/-- `broadcast(const Address &)` and `broadcast(const optional<Address> &)`. -/
def setBroadcast := setAddress L .broadcast

/-- `multicast(const Address &)` and `multicast(const optional<Address> &)`. -/
def setMulticast := setAddress L .multicast

/-- `anycast(const Address &)` and `anycast(const optional<Address> &)`. -/
def setAnycast := setAddress L .anycast

/-- The setter of a field. -/
def set (f : AddressField) : ℕ → Option ℕ → Bool → Objects ρ → Objects ρ :=
  match f with
  | .local_ => setLocal L
  | .peer => setPeer L
  | .broadcast => setBroadcast L
  | .multicast => setMulticast L
  | .anycast => setAnycast L

/-- The getter of an address field, its result in `target`. -/
def getAddress (f : AddressField) (this : ℕ) (target : Name) (fails : Bool) (s : Objects ρ) :
    Objects ρ :=
  s.cloneInto ⟨.address target, .self⟩ ⟨.routeAddress this, .field f⟩ fails

/-- `local()`. -/
def getLocal := getAddress (ρ := ρ) .local_

/-- `peer()`. -/
def getPeer := getAddress (ρ := ρ) .peer

/-- `broadcast()`. -/
def getBroadcast := getAddress (ρ := ρ) .broadcast

/-- `multicast()`. -/
def getMulticast := getAddress (ρ := ρ) .multicast

/-- `anycast()`. -/
def getAnycast := getAddress (ρ := ρ) .anycast

/-- The getter of a field. -/
def get (f : AddressField) : ℕ → Name → Bool → Objects ρ → Objects ρ :=
  match f with
  | .local_ => getLocal
  | .peer => getPeer
  | .broadcast => getBroadcast
  | .multicast => getMulticast
  | .anycast => getAnycast

end RouteAddress

/-! ### `NextHop` -/

namespace NextHop

/-- `NextHop()`. -/
def construct (this : ℕ) (fails : Bool) (s : Objects ρ) : Objects ρ :=
  s.construct (.nextHop (.var this)) L.alloc fails

/-- `rtnl_route_nh_clone` of a hop with these fields and this gateway. -/
def clone (this : Name) (fields : ρ) (gateway : Slot) (fails : Bool) (s : Objects ρ) :
    Objects ρ :=
  (s.cloneInto ⟨.nextHop this, .gateway⟩ gateway fails).setOwn (.nextHop this)
    (if fails then none else some ⟨fields, []⟩)

/-- `NextHop(const NextHop &)` and `operator=(const NextHop &)`. -/
def copy (this other : Name) (fails : Bool) (s : Objects ρ) : Objects ρ :=
  if this = other then s
  else
    match s.own (.nextHop other) with
    | none => s
    | some own => clone this own.fields ⟨.nextHop other, .gateway⟩ fails s

/-- `NextHop(NextHop &&)` and `operator=(NextHop &&)`. -/
def move (this other : Name) (s : Objects ρ) : Objects ρ :=
  s.move (.nextHop this) (.nextHop other)

/-- What the parameter of `gateway` is made from. -/
inductive Argument where
  | nullopt
  | copied (v : ℕ)
  | moved (v : ℕ)
deriving DecidableEq, Repr

/-- The parameter is a copy. -/
def Argument.isCopied : Argument → Bool
  | .copied _ => true
  | _ => false

/-- The parameter of `gateway`, an `optional<Address>` passed by value. -/
def pass (argument : Argument) (fails : Bool) (s : Objects ρ) : Objects ρ :=
  match argument with
  | .nullopt => s
  | .copied v => Address.copy .param (.var v) fails s
  | .moved v => Address.move .param (.var v) s

/-- `gateway(optional<Address>)`: the gateway is a clone of the parameter, or none when
there is no parameter or when the clone fails. A parameter that cannot be copied throws. -/
def gateway (this : ℕ) (argument : Argument) (copyFails cloneFails : Bool) (s : Objects ρ) :
    Objects ρ :=
  match s.own (.nextHop (.var this)) with
  | none => s
  | some _ =>
    let passed := pass argument copyFails s
    if argument.isCopied ∧ passed.content ⟨.address .param, .self⟩ = none then passed
    else
      let s := passed.cloneInto ⟨.address .temporary, .self⟩ ⟨.address .param, .self⟩ cloneFails
      let s :=
        s.onMemory (·.share ⟨.nextHop (.var this), .gateway⟩ ⟨.address .temporary, .self⟩)
      (s.destroy (.address .temporary)).destroy (.address .param)

/-- `gateway()`, its result in `target`. -/
def getGateway (this : ℕ) (target : Name) (fails : Bool) (s : Objects ρ) : Objects ρ :=
  s.cloneInto ⟨.address target, .self⟩ ⟨.nextHop (.var this), .gateway⟩ fails

end NextHop

/-! ### `Route` -/

namespace Route

/-- `Route()`. -/
def construct (this : ℕ) (fails : Bool) (s : Objects ρ) : Objects ρ :=
  s.construct (.route this) L.alloc fails

/-- `Route(Route &&)` and `operator=(Route &&)`. -/
def move (this other : ℕ) (s : Objects ρ) : Objects ρ := s.move (.route this) (.route other)

/-- `family(uint8_t)`. -/
def family (this : ℕ) (family : UInt8) (s : Objects ρ) : Objects ρ :=
  s.setOwn (.route this)
    ((s.own (.route this)).map fun own =>
      { own with fields := L.rtnlRouteSetFamily family own.fields })

/-- `dst(Address &&)`: on success the pointer of the argument is stored, and the argument
keeps it. -/
def dst (this : ℕ) (addr : Name) (s : Objects ρ) : Objects ρ :=
  match s.own (.route this), s.content ⟨.address addr, .self⟩ with
  | some own, some k =>
    let (err, fields) := L.rtnlRouteSetDst k own.fields
    let s := s.setOwn (.route this) (some { own with fields := fields })
    if err = 0 then s.onMemory (·.share ⟨.route this, .dst⟩ ⟨.address addr, .self⟩) else s
  | _, _ => s

/-- `dst()`, its result in `target`. -/
def getDst (this : ℕ) (target : Name) (fails : Bool) (s : Objects ρ) : Objects ρ :=
  s.cloneInto ⟨.address target, .self⟩ ⟨.route this, .dst⟩ fails

/-- What is in a place after the `n`-th hop of a route has taken the gateway of a hop. -/
def added (this : ℕ) (nexthop : Name) (n : ℕ) (t : Slot) : Option Slot :=
  if t = ⟨.route this, .hop n⟩ then some ⟨.nextHop nexthop, .gateway⟩
  else if t.owner = .nextHop nexthop then none
  else some t

/-- `add(NextHop &&)`. -/
def addMoved (this : ℕ) (nexthop : Name) (s : Objects ρ) : Objects ρ :=
  match s.own (.route this), s.own (.nextHop nexthop) with
  | some own, some hop =>
    ((s.onMemory (·.relocate (added this nexthop own.hops.length))).setOwn (.nextHop nexthop)
      none).setOwn (.route this) (some { own with hops := own.hops ++ [hop.fields] })
  | _, _ => s

/-- `add(const NextHop &)`. -/
def addCopied (this : ℕ) (nexthop : ℕ) (fails : Bool) (s : Objects ρ) : Objects ρ :=
  (addMoved this .temporary (NextHop.copy .temporary (.var nexthop) fails s)).destroy
    (.nextHop .temporary)

/-- `nexthops()`: the elements of the result, in `target`. -/
def nexthops (this : ℕ) (target : List ℕ) (fails : Bool) (s : Objects ρ) : Objects ρ :=
  match s.own (.route this) with
  | none => s
  | some own =>
    if fails then s
    else
      (target.zip own.hops).zipIdx.foldl
        (fun s ((v, fields), n) => NextHop.clone (.var v) fields ⟨.route this, .hop n⟩ false s) s

end Route

/-! ### Programs -/

/-- An expression that makes an `Address`: a string, another `Address`, or a getter. -/
inductive AddressExpr where
  | parsed (str : List UInt8) (family : ℤ)
  | copied (v : ℕ)
  | field (f : AddressField) (r : ℕ)
  | gateway (h : ℕ)
  | dst (r : ℕ)
deriving DecidableEq, Repr

/-- Its value, in `target`. -/
def AddressExpr.eval (target : Name) (fails : Bool) (s : Objects ρ) : AddressExpr → Objects ρ
  | .parsed str family => Address.parse L target str family s
  | .copied v => Address.copy target (.var v) fails s
  | .field f r => RouteAddress.get f r target fails s
  | .gateway h => NextHop.getGateway h target fails s
  | .dst r => Route.getDst r target fails s

/-- A statement of a program. `setOther` is any setter that has nothing to do with addresses
(a label, an interface index, a weight). -/
inductive Stmt (ρ : Type) where
  | address (this : ℕ) (value : AddressExpr) (fails : Bool)
  | moveAddress (this other : ℕ)
  | addressFamily (this : ℕ) (family : ℤ)
  | addressPrefixlen (this n : ℕ)
  | routeAddress (this : ℕ) (fails : Bool)
  | moveRouteAddress (this other : ℕ)
  | setField (f : AddressField) (this : ℕ) (laddr : Option ℕ) (fails : Bool)
  | routeAddressFamily (this : ℕ) (family : ℤ)
  | routeAddressPrefixlen (this n : ℕ)
  | nextHop (this : ℕ) (fails : Bool)
  | copyNextHop (this other : ℕ) (fails : Bool)
  | moveNextHop (this other : ℕ)
  | setGateway (this : ℕ) (argument : NextHop.Argument) (copyFails cloneFails : Bool)
  | route (this : ℕ) (fails : Bool)
  | moveRoute (this other : ℕ)
  | setDst (this addr : ℕ)
  | setDstTemporary (this : ℕ) (value : AddressExpr) (fails : Bool)
  | routeFamily (this : ℕ) (family : UInt8)
  | addCopied (this nexthop : ℕ) (fails : Bool)
  | addMoved (this nexthop : ℕ)
  | nexthops (this : ℕ) (target : List ℕ) (fails : Bool)
  | setOther (this : Object) (set : ρ → ρ)
  | destroy (this : Object)

/-- One statement. -/
def step (s : Objects ρ) : Stmt ρ → Objects ρ
  | .address this value fails => value.eval L (.var this) fails s
  | .moveAddress this other => Address.move (.var this) (.var other) s
  | .addressFamily this f => Address.family this f s
  | .addressPrefixlen this n => Address.prefixlen this n s
  | .routeAddress this fails => RouteAddress.construct L this fails s
  | .moveRouteAddress this other => RouteAddress.move this other s
  | .setField f this laddr fails => RouteAddress.set L f this laddr fails s
  | .routeAddressFamily this f => RouteAddress.family L this f s
  | .routeAddressPrefixlen this n => RouteAddress.prefixlen L this n s
  | .nextHop this fails => NextHop.construct L this fails s
  | .copyNextHop this other fails => NextHop.copy (.var this) (.var other) fails s
  | .moveNextHop this other => NextHop.move (.var this) (.var other) s
  | .setGateway this argument copyFails cloneFails =>
    NextHop.gateway this argument copyFails cloneFails s
  | .route this fails => Route.construct L this fails s
  | .moveRoute this other => Route.move this other s
  | .setDst this addr => Route.dst L this (.var addr) s
  | .setDstTemporary this value fails =>
    (Route.dst L this .temporary (value.eval L .temporary fails s)).destroy (.address .temporary)
  | .routeFamily this f => Route.family L this f s
  | .addCopied this nexthop fails => Route.addCopied this nexthop fails s
  | .addMoved this nexthop => Route.addMoved this (.var nexthop) s
  | .nexthops this target fails => Route.nexthops this target fails s
  | .setOther this set =>
    s.setOwn this ((s.own this).map fun own => { own with fields := set own.fields })
  | .destroy this => s.destroy this

/-- The objects that a statement is meant to change: the one it is called on, and those it
moves from. -/
def Stmt.changed : Stmt ρ → List Object
  | .address this _ _ => [.address (.var this)]
  | .moveAddress this other => [.address (.var this), .address (.var other)]
  | .addressFamily this _ => [.address (.var this)]
  | .addressPrefixlen this _ => [.address (.var this)]
  | .routeAddress this _ => [.routeAddress this]
  | .moveRouteAddress this other => [.routeAddress this, .routeAddress other]
  | .setField _ this _ _ => [.routeAddress this]
  | .routeAddressFamily this _ => [.routeAddress this]
  | .routeAddressPrefixlen this _ => [.routeAddress this]
  | .nextHop this _ => [.nextHop (.var this)]
  | .copyNextHop this _ _ => [.nextHop (.var this)]
  | .moveNextHop this other => [.nextHop (.var this), .nextHop (.var other)]
  | .setGateway this (.moved v) _ _ => [.nextHop (.var this), .address (.var v)]
  | .setGateway this _ _ _ => [.nextHop (.var this)]
  | .route this _ => [.route this]
  | .moveRoute this other => [.route this, .route other]
  | .setDst this _ => [.route this]
  | .setDstTemporary this _ _ => [.route this]
  | .routeFamily this _ => [.route this]
  | .addCopied this _ _ => [.route this]
  | .addMoved this nexthop => [.route this, .nextHop (.var nexthop)]
  | .nexthops _ target _ => target.map fun v => .nextHop (.var v)
  | .setOther this _ => [this]
  | .destroy this => [this]

/-- The objects without a name of their own; they live no longer than a statement. -/
def unnamed : List Object := [.address .param, .address .temporary, .nextHop .temporary]

/-- The getters of every object that the statement is not meant to change return what they
returned before. -/
def Isolated (s : Objects ρ) (stmt : Stmt ρ) : Prop :=
  ∀ o ∉ stmt.changed ++ unnamed, (step L s stmt).getters o = s.getters o

/-- A named `Address` is given to `Route::dst` only where it is empty or libnl refuses it. -/
def Unshared (s : Objects ρ) : Stmt ρ → Prop
  | .setDst this addr =>
    ∀ own k, s.own (.route this) = some own → s.content ⟨.address (.var addr), .self⟩ = some k →
      (L.rtnlRouteSetDst k own.fields).1 ≠ 0
  | _ => True

/-! ### What an operation changes -/

/-- The places of some objects. -/
def placesOf (T : Set Object) : Set Slot := {t | t.owner ∈ T}

/-- `s'` is reached from `s` by something that only objects in `T` can see; what is shared
before is in `A`, and in `B` afterwards. -/
structure Changes (A B : Set Slot) (T : Set Object) (s s' : Objects ρ) : Prop where
  memory : Reaches A B (placesOf T) s.memory s'.memory
  own : ∀ o ∉ T, s'.own o = s.own o

namespace Changes

variable {A B C : Set Slot} {T U : Set Object} {s s' s'' : Objects ρ} {o this other : Object}

theorem refl (A : Set Slot) (T : Set Object) (s : Objects ρ) : Changes A A T s s :=
  ⟨.refl A _ _, fun _ _ => rfl⟩

theorem trans (first : Changes A B T s s') (second : Changes B C T s' s'') :
    Changes A C T s s'' :=
  ⟨first.memory.trans second.memory, fun o ho => (second.own o ho).trans (first.own o ho)⟩

theorem mono (shared : B ⊆ C) (seen : T ⊆ U) (changes : Changes A B T s s') :
    Changes A C U s s' :=
  ⟨changes.memory.mono shared fun _ mem => seen mem, fun o ho =>
    changes.own o fun mem => ho (seen mem)⟩

/-- An object that nothing is done to looks as before. -/
theorem getters_eq (changes : Changes ∅ B T s s') (separated : s.memory.Separated)
    (untouched : o ∉ T) : s'.getters o = s.getters o := by
  refine Prod.ext (changes.own o untouched) (funext fun part => ?_)
  exact changes.memory.frame (Memory.apart_empty_iff.mpr separated) ⟨o, part⟩ untouched

theorem onMemory {f : Memory Slot NlAddr → Memory Slot NlAddr}
    (reaches : Reaches A B (placesOf T) s.memory (f s.memory)) :
    Changes A B T s (s.onMemory f) :=
  ⟨reaches, fun _ _ => rfl⟩

theorem setOwn (mem : o ∈ T) (own : Option (Own ρ)) : Changes A A T s (s.setOwn o own) := by
  refine ⟨.refl A _ _, fun u hu => Function.update_of_ne ?_ _ _⟩
  rintro rfl
  exact hu mem

theorem place {t : Slot} (mem : t.owner ∈ T) (k : Option NlAddr) :
    Changes A A T s (s.onMemory (·.place t k)) :=
  onMemory (.place (show t ∈ placesOf T from mem) k)

theorem cloneInto {t u : Slot} (mem : t.owner ∈ T) (fails : Bool) :
    Changes A A T s (s.cloneInto t u fails) :=
  place mem _

theorem share {t u : Slot} (mem : t.owner ∈ T) :
    Changes ∅ {t, u} T s (s.onMemory (·.share t u)) :=
  onMemory (.share (show t ∈ placesOf T from mem))

theorem write {t : Slot} (mem : t.owner ∈ T) (sub : A ⊆ placesOf T) (f : NlAddr → NlAddr) :
    Changes A A T s (s.onMemory (·.write t f)) :=
  onMemory (.write (show t ∈ placesOf T from mem) sub f)

theorem destroy (mem : o ∈ T) : Changes A A T s (s.destroy o) := by
  refine trans (onMemory (.drop ?_)) (setOwn mem none)
  rintro t rfl
  exact mem

/-- Destroying the object that a pointer was shared with leaves nothing shared. -/
theorem destroy_shared {t u : Slot} (mem : u.owner ∈ T) :
    Changes {t, u} ∅ T s (s.destroy u.owner) := by
  refine trans (onMemory (.drop_one ?_ ?_)) (setOwn mem none)
  · exact rfl
  · intro w owned
    exact (congrArg (· ∈ T) owned).mpr mem

theorem construct (mem : o ∈ T) (fields : ρ) (fails : Bool) :
    Changes A A T s (s.construct o fields fails) :=
  (destroy mem).trans (setOwn mem _)

theorem move (memThis : this ∈ T) (memOther : other ∈ T) :
    Changes ∅ ∅ T s (s.move this other) := by
  unfold Objects.move
  split
  · exact refl ∅ T s
  · next ne =>
      refine (onMemory (.relocate ?_ ?_)).trans ((setOwn memThis _).trans (setOwn memOther _))
      · rintro ⟨u, part⟩ ⟨w, part'⟩ x hu hw
        simp only [Objects.taken] at hu hw
        grind
      · intro t ht
        simp only [Objects.taken]
        rw [if_neg, if_neg]
        · rintro rfl
          exact ht memOther
        · rintro rfl
          exact ht memThis

end Changes

/-! ### The operations -/

section Operations

variable {A : Set Slot} {T : Set Object} {s : Objects ρ}

theorem Address.copy_changes {this : Name} (mem : .address this ∈ T) (other : Name)
    (fails : Bool) : Changes A A T s (Address.copy this other fails s) := by
  unfold Address.copy
  split
  · exact .refl A T s
  · exact .cloneInto mem fails

theorem RouteAddress.writePrefixlen_changes {this : ℕ} (mem : .routeAddress this ∈ T)
    (sub : A ⊆ placesOf T) (n : ℕ) :
    Changes A A T s (RouteAddress.writePrefixlen this n s) := by
  refine .write ?_ sub _
  exact mem

theorem RouteAddress.prefixlen_changes {this : ℕ} (mem : .routeAddress this ∈ T) (n : ℕ) :
    Changes ∅ ∅ T s (RouteAddress.prefixlen L this n s) := by
  unfold RouteAddress.prefixlen
  split
  · exact .refl ∅ T s
  · exact (Changes.setOwn mem _).trans (writePrefixlen_changes mem (Set.empty_subset _) n)

/-- `rtnl_addr_set_*` shares at most what storing the pointer shares. -/
theorem RouteAddress.rtnlAddrSet_changes {B : Set Slot} {this : ℕ} {f : AddressField}
    {place : Option Slot} (mem : .routeAddress this ∈ T) (sub : B ⊆ placesOf T)
    (stored : ∀ s : Objects ρ, Changes ∅ B T s (RouteAddress.storePointer f this place s)) :
    Changes ∅ B T s (RouteAddress.rtnlAddrSet L f this place s) := by
  unfold RouteAddress.rtnlAddrSet
  cases s.own (.routeAddress this) with
  | none => exact (Changes.refl ∅ T s).mono (Set.empty_subset B) (subset_refl T)
  | some own =>
      have set := Changes.setOwn (A := ∅) (s := s) mem
        (some { own with fields := (L.rtnlAddrSet f (place.bind s.content) own.fields).fields })
      dsimp only
      split
      · have stored := set.trans (stored _)
        split
        · exact stored
        · exact stored.trans (writePrefixlen_changes mem sub _)
      · exact set.mono (Set.empty_subset B) (subset_refl T)

/-- **A setter of an address field stores a copy.** -/
theorem RouteAddress.setAddress_changes {this : ℕ} (mem : .routeAddress this ∈ T)
    (temporary : .address .temporary ∈ T) (f : AddressField) (laddr : Option ℕ) (fails : Bool) :
    Changes ∅ ∅ T s (RouteAddress.setAddress L f this laddr fails s) := by
  cases laddr with
  | none => exact rtnlAddrSet_changes L mem (Set.empty_subset _) fun s => .place mem none
  | some v =>
      have copied := Address.copy_changes (A := ∅) (s := s) temporary (.var v) fails
      have sub : {⟨.routeAddress this, .field f⟩, ⟨.address .temporary, .self⟩} ⊆ placesOf T := by
        rintro t (rfl | rfl)
        · exact mem
        · exact temporary
      simp only [RouteAddress.setAddress]
      split
      · exact copied.trans ((rtnlAddrSet_changes L mem sub fun s => .share mem).trans
          (.destroy_shared (u := ⟨.address .temporary, .self⟩) temporary))
      · exact copied.trans (.destroy temporary)

theorem RouteAddress.set_eq (f : AddressField) :
    RouteAddress.set L f = RouteAddress.setAddress L f := by
  cases f <;> rfl

theorem RouteAddress.get_eq (f : AddressField) :
    RouteAddress.get (ρ := ρ) f = RouteAddress.getAddress f := by
  cases f <;> rfl

theorem NextHop.clone_changes {this : Name} (mem : .nextHop this ∈ T) (fields : ρ)
    (gateway : Slot) (fails : Bool) :
    Changes A A T s (NextHop.clone this fields gateway fails s) :=
  (Changes.cloneInto mem fails).trans (.setOwn mem _)

theorem NextHop.copy_changes {this : Name} (mem : .nextHop this ∈ T) (other : Name)
    (fails : Bool) : Changes A A T s (NextHop.copy this other fails s) := by
  unfold NextHop.copy
  split
  · exact .refl A T s
  · split
    · exact .refl A T s
    · exact clone_changes mem _ _ fails

theorem NextHop.pass_changes {argument : NextHop.Argument} (param : .address .param ∈ T)
    (memMoved : ∀ v, argument = .moved v → .address (.var v) ∈ T) (fails : Bool) :
    Changes ∅ ∅ T s (NextHop.pass argument fails s) := by
  cases argument with
  | nullopt => exact .refl ∅ T s
  | copied v => exact Address.copy_changes param _ fails
  | moved v => exact .move param (memMoved v rfl)

/-- **`NextHop::gateway` stores a copy** of its parameter. -/
theorem NextHop.gateway_changes {this : ℕ} {argument : NextHop.Argument}
    (mem : .nextHop (.var this) ∈ T) (param : .address .param ∈ T)
    (temporary : .address .temporary ∈ T)
    (memMoved : ∀ v, argument = .moved v → .address (.var v) ∈ T) (copyFails cloneFails : Bool) :
    Changes ∅ ∅ T s (NextHop.gateway this argument copyFails cloneFails s) := by
  unfold NextHop.gateway
  have passed := pass_changes (s := s) param memMoved copyFails
  split
  · exact .refl ∅ T s
  · dsimp only
    split
    · exact passed
    · exact passed.trans (.trans (.cloneInto temporary cloneFails) (.trans (.share mem)
        (.trans (.destroy_shared (u := ⟨.address .temporary, .self⟩) temporary)
          (.destroy param))))

/-- **`Route::dst` stores the pointer it is given.** -/
theorem Route.dst_changes {this : ℕ} (mem : .route this ∈ T) (addr : Name) :
    Changes ∅ {⟨.route this, .dst⟩, ⟨.address addr, .self⟩} T s (Route.dst L this addr s) := by
  unfold Route.dst
  split
  · dsimp only
    split
    · exact (Changes.setOwn mem _).trans (.share mem)
    · exact (Changes.setOwn mem _).mono (Set.empty_subset _) (subset_refl T)
  · exact (Changes.refl ∅ T s).mono (Set.empty_subset _) (subset_refl T)

theorem Route.addMoved_changes {this : ℕ} {nexthop : Name} (mem : .route this ∈ T)
    (memHop : .nextHop nexthop ∈ T) :
    Changes ∅ ∅ T s (Route.addMoved this nexthop s) := by
  unfold Route.addMoved
  split
  · refine (Changes.onMemory (.relocate ?_ ?_)).trans
      ((Changes.setOwn memHop _).trans (.setOwn mem _))
    · intro u w x hu hw
      simp only [Route.added] at hu hw
      grind
    · intro t ht
      simp only [Route.added]
      rw [if_neg, if_neg]
      · intro owned
        exact ht ((congrArg (· ∈ T) owned).mpr memHop)
      · rintro rfl
        exact ht mem
  · exact .refl ∅ T s

/-- **`Route::nexthops` returns copies.** -/
theorem Route.nexthops_changes {this : ℕ} {target : List ℕ}
    (mem : ∀ v ∈ target, .nextHop (.var v) ∈ T) (fails : Bool) :
    Changes ∅ ∅ T s (Route.nexthops this target fails s) := by
  unfold Route.nexthops
  split
  · exact .refl ∅ T s
  · next own there =>
      split
      · exact .refl ∅ T s
      · -- One element after the other.
        have each : ∀ (hops : List ((ℕ × ρ) × ℕ)) (s : Objects ρ),
            (∀ h ∈ hops, .nextHop (.var h.1.1) ∈ T) →
              Changes ∅ ∅ T s (hops.foldl
                (fun s ((v, fields), n) =>
                  NextHop.clone (.var v) fields ⟨.route this, .hop n⟩ false s) s) := by
          intro hops
          induction hops with
          | nil => exact fun s _ => .refl ∅ T s
          | cons h hops ih =>
              intro s mem
              exact (NextHop.clone_changes (mem h List.mem_cons_self) _ _ false).trans
                (ih _ fun h' later => mem h' (List.mem_cons_of_mem h later))
        refine each _ s fun h inZip => mem h.1.1 ?_
        have inPairs := List.fst_mem_of_mem_zipIdx inZip
        exact (List.of_mem_zip inPairs).1

theorem AddressExpr.eval_changes {target : Name} (mem : .address target ∈ T) (fails : Bool)
    (value : AddressExpr) : Changes A A T s (value.eval L target fails s) := by
  cases value with
  | parsed str family => exact .place mem _
  | copied v => exact Address.copy_changes mem _ fails
  | field f r =>
      rw [AddressExpr.eval, RouteAddress.get_eq]
      exact .cloneInto mem fails
  | gateway h => exact .cloneInto mem fails
  | dst r => exact .cloneInto mem fails

end Operations

/-! ### Programs that share nothing -/

section Programs

variable {s : Objects ρ}

/-- What a statement may change. -/
def Stmt.scope (stmt : Stmt ρ) : Set Object := {o | o ∈ stmt.changed ++ unnamed}

/-- **Every statement keeps the objects apart**, except for `Route::dst` of a named
`Address`. -/
theorem step_changes {stmt : Stmt ρ} (other : ∀ r v, stmt ≠ .setDst r v) :
    Changes ∅ ∅ stmt.scope s (step L s stmt) := by
  have changed : ∀ o ∈ stmt.changed, o ∈ stmt.scope := fun o mem => List.mem_append_left _ mem
  have unnamed : ∀ o ∈ unnamed, o ∈ stmt.scope := fun o mem => List.mem_append_right _ mem
  have param : .address .param ∈ stmt.scope := unnamed _ (by decide)
  have temporary : .address .temporary ∈ stmt.scope := unnamed _ (by decide)
  cases stmt with
  | address this value fails =>
      exact AddressExpr.eval_changes L (changed _ (.head _)) fails value
  | moveAddress this other => exact .move (changed _ (.head _)) (changed _ (.tail _ (.head _)))
  | addressFamily this family =>
      exact .write (changed _ (.head _)) (Set.empty_subset _) _
  | addressPrefixlen this n =>
      exact .write (changed _ (.head _)) (Set.empty_subset _) _
  | routeAddress this fails => exact .construct (changed _ (.head _)) _ fails
  | moveRouteAddress this other => exact .move (changed _ (.head _)) (changed _ (.tail _ (.head _)))
  | setField f this laddr fails =>
      rw [step, RouteAddress.set_eq]
      exact RouteAddress.setAddress_changes L (changed _ (.head _)) temporary f laddr fails
  | routeAddressFamily this family => exact .setOwn (changed _ (.head _)) _
  | routeAddressPrefixlen this n =>
      exact RouteAddress.prefixlen_changes L (changed _ (.head _)) n
  | nextHop this fails => exact .construct (changed _ (.head _)) _ fails
  | copyNextHop this other fails =>
      exact NextHop.copy_changes (changed _ (.head _)) _ fails
  | moveNextHop this other => exact .move (changed _ (.head _)) (changed _ (.tail _ (.head _)))
  | setGateway this argument copyFails cloneFails =>
      refine NextHop.gateway_changes (changed _ ?_) param temporary ?_ copyFails cloneFails
      · cases argument <;> exact List.mem_cons_self
      · rintro v rfl
        exact changed _ (.tail _ (.head _))
  | route this fails => exact .construct (changed _ (.head _)) _ fails
  | moveRoute this other => exact .move (changed _ (.head _)) (changed _ (.tail _ (.head _)))
  | setDst this addr => exact absurd rfl (other this addr)
  | setDstTemporary this value fails =>
      exact (AddressExpr.eval_changes L temporary fails value).trans
        ((Route.dst_changes L (changed _ (.head _)) .temporary).trans
          (.destroy_shared (u := ⟨.address .temporary, .self⟩) temporary))
  | routeFamily this family => exact .setOwn (changed _ (.head _)) _
  | addCopied this nexthop fails =>
      have hop : .nextHop .temporary ∈ (Stmt.addCopied this nexthop fails : Stmt ρ).scope :=
        unnamed _ (by decide)
      exact (NextHop.copy_changes hop _ fails).trans
        ((Route.addMoved_changes (changed _ (.head _)) hop).trans (.destroy hop))
  | addMoved this nexthop =>
      exact Route.addMoved_changes (changed _ (.head _)) (changed _ (.tail _ (.head _)))
  | nexthops this target fails =>
      exact Route.nexthops_changes (fun v mem => changed _ (List.mem_map_of_mem mem)) fails
  | setOther this set => exact .setOwn (changed _ (.head _)) _
  | destroy this => exact .destroy (changed _ (.head _))

/-- `Route::dst` of a named `Address` shares it exactly when it succeeds. -/
theorem dst_separated_iff (separated : s.memory.Separated) (this addr : ℕ) :
    (Route.dst L this (.var addr) s).memory.Separated ↔ Unshared L s (.setDst this addr) := by
  unfold Route.dst
  simp only [Unshared]
  cases there : s.own (.route this) with
  | none => simpa using separated
  | some own =>
      cases here : s.content ⟨.address (.var addr), .self⟩ with
      | none => simpa using separated
      | some k =>
          by_cases taken : (L.rtnlRouteSetDst k own.fields).1 = 0
          · simp only [taken, if_true]
            refine (Memory.separated_share_iff separated ?_).trans ?_
            · simp
            · show s.content _ = none ↔ _
              rw [here]
              simp [taken]
          · simpa [taken] using separated

theorem step_separated_iff (separated : s.memory.Separated) (stmt : Stmt ρ) :
    (step L s stmt).memory.Separated ↔ Unshared L s stmt := by
  by_cases isDst : ∃ r v, stmt = .setDst r v
  · obtain ⟨r, v, rfl⟩ := isDst
    exact dst_separated_iff L separated r v
  · have other : ∀ r v, stmt ≠ .setDst r v := fun r v eq => isDst ⟨r, v, eq⟩
    have kept : (step L s stmt).memory.Separated :=
      Memory.apart_empty_iff.mp
        ((step_changes L other).memory.apart (Memory.apart_empty_iff.mpr separated))
    have unshared : Unshared L s stmt := by
      cases stmt with
      | setDst r v => exact absurd rfl (other r v)
      | _ => trivial
    exact iff_of_true kept unshared

/-- A statement changes no other object, as long as nothing is shared before it. -/
theorem step_isolated (separated : s.memory.Separated) (stmt : Stmt ρ) : Isolated L s stmt := by
  intro o untouched
  by_cases isDst : ∃ r v, stmt = .setDst r v
  · obtain ⟨r, v, rfl⟩ := isDst
    exact (Route.dst_changes L (List.mem_append_left _ List.mem_cons_self) (.var v)).getters_eq
      (T := (Stmt.setDst r v : Stmt ρ).scope) separated untouched
  · exact (step_changes L fun r v eq => isDst ⟨r, v, eq⟩).getters_eq separated untouched

/-- **No hidden sharing**: in every state of a program no `nl_addr` is reachable from two
places, and no statement changes what the getters of another object return, exactly when
no statement gives a named `Address` to `Route::dst` (unless that is empty, or refused). -/
theorem nothing_shared_iff (stmts : List (Stmt ρ)) :
    ((∀ t ∈ Run.states (step L) .start stmts, t.memory.Separated) ∧
        Run.Guarded (step L) (Isolated L) .start stmts) ↔
      Run.Guarded (step L) (Unshared L) .start stmts := by
  have start : (Objects.start : Objects ρ).memory.Separated := Memory.separated_empty
  have exact_step : ∀ (s : Objects ρ) (stmt : Stmt ρ), s.memory.Separated →
      ((step L s stmt).memory.Separated ↔ Unshared L s stmt) :=
    fun s stmt separated => step_separated_iff L separated stmt
  have unshared_iff := Run.forall_states_iff_guarded exact_step start stmts
  constructor
  · exact fun both => unshared_iff.mp both.1
  · intro unshared
    have preserved : ∀ (s : Objects ρ) (stmt : Stmt ρ), s.memory.Separated →
        Unshared L s stmt → (step L s stmt).memory.Separated :=
      fun s stmt separated => (exact_step s stmt separated).mpr
    exact ⟨unshared_iff.mpr unshared,
      unshared.imp preserved (fun s stmt separated _ => step_isolated L separated stmt) start⟩

end Programs

/-! ### An implementation -/

def NLE_AF_MISMATCH : ℤ := 15

/-- The text `10.0.0.1`, and the address that libnl parses it to. -/
def tenText : List UInt8 := [49, 48, 46, 48, 46, 48, 46, 49]
def ten : NlAddr := ⟨2, [10, 0, 0, 1], 32⟩

/-- An object keeps the family it is given first, and takes addresses of that family only. -/
def takeFamily (k : NlAddr) (family : Option ℤ) : ℤ × Option ℤ :=
  if family.all (· = k.family) then (0, some k.family) else (-NLE_AF_MISMATCH, family)

/-- libnl, for programs that know one address; the other fields come down to the family. -/
def FieldSetters.reference : FieldSetters (Option ℤ) where
  alloc := none
  nlAddrParse str _ := if str = tenText then .ok ten else .error (-19)
  rtnlAddrSet _ addr family :=
    match addr with
    | none => ⟨0, family, none⟩
    | some k => ⟨(takeFamily k family).1, (takeFamily k family).2, none⟩
  rtnlAddrSetFamily family _ := some family
  rtnlAddrSetPrefixlen _ family := family
  rtnlRouteSetFamily family _ := some family.toNat
  rtnlRouteSetDst := takeFamily

/-- `Address a("10.0.0.1"); Route r; r.dst(std::move(a));` -/
def movedIntoDst : List (Stmt (Option ℤ)) :=
  [.address 0 (.parsed tenText 0) false, .route 0 false, .setDst 0 0]

/-- After that, `a.prefixlen(8)` changes what `r.dst()` returns. -/
theorem dst_shared :
    let after := Run.final (step .reference) .start movedIntoDst
    after.content ⟨.route 0, .dst⟩ = some ten ∧
      (step .reference after (.addressPrefixlen 0 8)).content ⟨.route 0, .dst⟩ =
        some { ten with prefixlen := 8 } ∧
      ¬((∀ t ∈ Run.states (step .reference) .start (movedIntoDst ++ [.addressPrefixlen 0 8]),
          t.memory.Separated) ∧
        Run.Guarded (step .reference) (Isolated .reference) .start
          (movedIntoDst ++ [.addressPrefixlen 0 8])) := by
  refine ⟨by decide, by decide, fun both => ?_⟩
  have separated := both.1 _ (Run.final_mem_states _ _)
  have same : (⟨.route 0, .dst⟩ : Slot) = ⟨.address (.var 0), .self⟩ :=
    separated _ _ 0 (by decide) (by decide)
  cases same

end Nlcpp.Values
