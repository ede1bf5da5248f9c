import Nlcpp.Values

/-!
Programs over values.

`Values.step` works on pointers. Here is what the same statements are meant to do: an
`Address` is a value, a `RouteAddress` is a record with an address in some of its fields, a
`Route` has a list of hops, and nothing but the variables that a statement names is read or
written. `step_getters` says that one statement over pointers is one statement over values
as long as nothing is shared before it; `valued_iff` says for which programs the getters
never tell the difference.
-/

namespace Nlcpp.Values

open Nlcpp.Alias

variable {ρ : Type} (L : FieldSetters ρ)

/-! ### Values -/

/-- What the getters of an object return. -/
abbrev Getters (ρ : Type) := Option (Own ρ) × (Part → Option NlAddr)

/-- Those of an object that has no libnl object. -/
def Getters.nothing : Getters ρ := (none, fun _ => none)

/-- The address in one part is another one. -/
def Getters.set (g : Getters ρ) (part : Part) (k : Option NlAddr) : Getters ρ :=
  (g.1, Function.update g.2 part k)

namespace Address

/-- An `Address` has nothing but its `nl_addr`. -/
def getters (k : Option NlAddr) : Getters ρ := (none, fun part => if part = .self then k else none)

end Address

namespace RouteAddress

structure Value (ρ : Type) where
  fields : ρ
  address : AddressField → Option NlAddr

def Value.getters : Option (Value ρ) → Getters ρ
  | none => .nothing
  | some r =>
    (some ⟨r.fields, []⟩, fun part =>
      match part with
      | .field f => r.address f
      | _ => none)

namespace Value

variable (r : Value ρ)

def setAddress (f : AddressField) (k : Option NlAddr) : Value ρ :=
  { r with address := Function.update r.address f k }

/-- The prefix length is that of the peer address, or else of the local one. -/
def writePrefixlen (n : ℕ) : Value ρ :=
  let f : AddressField := if (r.address .peer).isSome then .peer else .local_
  r.setAddress f ((r.address f).map ({ · with prefixlen := n }))

/-- `prefixlen(unsigned)`. -/
def prefixlen (n : ℕ) : Value ρ :=
  writePrefixlen { r with fields := L.rtnlAddrSetPrefixlen n r.fields } n

/-- The setter of an address field. -/
def set (f : AddressField) (k : Option NlAddr) : Value ρ :=
  let answer := L.rtnlAddrSet f k r.fields
  let r := { r with fields := answer.fields }
  if answer.err = 0 then
    let r := r.setAddress f k
    match answer.prefixlen with
    | none => r
    | some n => r.writePrefixlen n
  else r

end Value

end RouteAddress

namespace NextHop

structure Value (ρ : Type) where
  fields : ρ
  gateway : Option NlAddr

def Value.getters : Option (Value ρ) → Getters ρ
  | none => .nothing
  | some h =>
    (some ⟨h.fields, []⟩, fun part =>
      match part with
      | .gateway => h.gateway
      | _ => none)

end NextHop

namespace Route

structure Value (ρ : Type) where
  fields : ρ
  dst : Option NlAddr
  hops : List (NextHop.Value ρ)

def Value.getters : Option (Value ρ) → Getters ρ
  | none => .nothing
  | some r =>
    (some ⟨r.fields, r.hops.map (·.fields)⟩, fun part =>
      match part with
      | .dst => r.dst
      | .hop n => r.hops[n]?.bind (·.gateway)
      | _ => none)

/-- `dst(Address &&)`. -/
def Value.setDst (k : NlAddr) (r : Value ρ) : Value ρ :=
  let (err, fields) := L.rtnlRouteSetDst k r.fields
  { r with fields := fields, dst := if err = 0 then some k else r.dst }

end Route

/-- The variables of a program. One that was moved from, or that could not be made, has no
value. -/
structure Variables (ρ : Type) where
  address : ℕ → Option NlAddr
  routeAddress : ℕ → Option (RouteAddress.Value ρ)
  nextHop : ℕ → Option (NextHop.Value ρ)
  route : ℕ → Option (Route.Value ρ)

namespace Variables

variable (V : Variables ρ)

/-- Before the first statement there are none. -/
def start : Variables ρ := ⟨fun _ => none, fun _ => none, fun _ => none, fun _ => none⟩

def setAddress (v : ℕ) (k : Option NlAddr) : Variables ρ :=
  { V with address := Function.update V.address v k }

def setRouteAddress (v : ℕ) (r : Option (RouteAddress.Value ρ)) : Variables ρ :=
  { V with routeAddress := Function.update V.routeAddress v r }

def setNextHop (v : ℕ) (h : Option (NextHop.Value ρ)) : Variables ρ :=
  { V with nextHop := Function.update V.nextHop v h }

def setRoute (v : ℕ) (r : Option (Route.Value ρ)) : Variables ρ :=
  { V with route := Function.update V.route v r }

/-- What the getters of an object return. The objects without a name are gone after each
statement. -/
def getters : Object → Getters ρ
  | .address (.var v) => Address.getters (V.address v)
  | .routeAddress v => RouteAddress.Value.getters (V.routeAddress v)
  | .nextHop (.var v) => NextHop.Value.getters (V.nextHop v)
  | .route v => Route.Value.getters (V.route v)
  | .address _ | .nextHop _ => .nothing

end Variables

/-! ### What statements are meant to do -/

/-- The value of an expression that makes an `Address`; `none` when the copy fails. -/
def AddressExpr.value (V : Variables ρ) (fails : Bool) : AddressExpr → Option NlAddr
  | .parsed str family => (L.nlAddrParse str family).toOption
  | .copied v => if fails then none else V.address v
  | .field f r => if fails then none else (V.routeAddress r).bind (·.address f)
  | .gateway h => if fails then none else (V.nextHop h).bind (·.gateway)
  | .dst r => if fails then none else (V.route r).bind (·.dst)

namespace Variables

/-- `Route::dst`, with the address that the argument holds. -/
def setDst (V : Variables ρ) (this : ℕ) (k : Option NlAddr) : Variables ρ :=
  match V.route this, k with
  | some r, some k => V.setRoute this (some (r.setDst L k))
  | _, _ => V

/-- `Route::add`, with the hop that the argument holds. -/
def add (V : Variables ρ) (this : ℕ) (hop : Option (NextHop.Value ρ)) : Variables ρ :=
  match V.route this, hop with
  | some r, some hop => V.setRoute this (some { r with hops := r.hops ++ [hop] })
  | _, _ => V

/-- One statement. -/
def step (V : Variables ρ) : Stmt ρ → Variables ρ
  | .address this value fails =>
    if value = .copied this then V else V.setAddress this (value.value L V fails)
  | .moveAddress this other =>
    if this = other then V else (V.setAddress this (V.address other)).setAddress other none
  | .addressFamily this f => V.setAddress this ((V.address this).map ({ · with family := f }))
  | .addressPrefixlen this n =>
    V.setAddress this ((V.address this).map ({ · with prefixlen := n }))
  | .routeAddress this fails =>
    V.setRouteAddress this (if fails then none else some ⟨L.alloc, fun _ => none⟩)
  | .moveRouteAddress this other =>
    if this = other then V
    else (V.setRouteAddress this (V.routeAddress other)).setRouteAddress other none
  | .setField f this laddr fails =>
    match laddr with
    | none => V.setRouteAddress this ((V.routeAddress this).map (·.set L f none))
    | some v =>
      match (AddressExpr.copied v).value L V fails with
      | none => V
      | some k => V.setRouteAddress this ((V.routeAddress this).map (·.set L f (some k)))
  | .routeAddressFamily this f =>
    V.setRouteAddress this
      ((V.routeAddress this).map fun r => { r with fields := L.rtnlAddrSetFamily f r.fields })
  | .routeAddressPrefixlen this n =>
    V.setRouteAddress this ((V.routeAddress this).map (·.prefixlen L n))
  | .nextHop this fails => V.setNextHop this (if fails then none else some ⟨L.alloc, none⟩)
  | .copyNextHop this other fails =>
    if this = other then V
    else
      match V.nextHop other with
      | none => V
      | some hop => V.setNextHop this (if fails then none else some hop)
  | .moveNextHop this other =>
    if this = other then V else (V.setNextHop this (V.nextHop other)).setNextHop other none
  | .setGateway this argument copyFails cloneFails =>
    match V.nextHop this with
    | none => V
    | some hop =>
      match argument with
      | .nullopt => V.setNextHop this (some { hop with gateway := none })
      | .copied v =>
        match (AddressExpr.copied v).value L V copyFails with
        | none => V
        | some k =>
          V.setNextHop this (some { hop with gateway := if cloneFails then none else some k })
      | .moved v =>
        (V.setNextHop this
          (some { hop with gateway := if cloneFails then none else V.address v })).setAddress v none
  | .route this fails => V.setRoute this (if fails then none else some ⟨L.alloc, none, []⟩)
  | .moveRoute this other =>
    if this = other then V else (V.setRoute this (V.route other)).setRoute other none
  | .setDst this addr => V.setDst L this (V.address addr)
  | .setDstTemporary this value fails => V.setDst L this (value.value L V fails)
  | .routeFamily this f =>
    V.setRoute this
      ((V.route this).map fun r => { r with fields := L.rtnlRouteSetFamily f r.fields })
  | .addCopied this nexthop fails =>
    V.add this (if fails then none else V.nextHop nexthop)
  | .addMoved this nexthop =>
    match V.route this with
    | none => V
    | some _ => (V.add this (V.nextHop nexthop)).setNextHop nexthop none
  | .nexthops this target fails =>
    match V.route this with
    | none => V
    | some r =>
      if fails then V
      else (target.zip r.hops).foldl (fun V copied => V.setNextHop copied.1 (some copied.2)) V
  | .setOther this set =>
    match this with
    | .routeAddress v =>
      V.setRouteAddress v ((V.routeAddress v).map fun r => { r with fields := set r.fields })
    | .nextHop (.var v) =>
      V.setNextHop v ((V.nextHop v).map fun h => { h with fields := set h.fields })
    | .route v => V.setRoute v ((V.route v).map fun r => { r with fields := set r.fields })
    | .address _ | .nextHop _ => V
  | .destroy this =>
    match this with
    | .address (.var v) => V.setAddress v none
    | .routeAddress v => V.setRouteAddress v none
    | .nextHop (.var v) => V.setNextHop v none
    | .route v => V.setRoute v none
    | .address _ | .nextHop _ => V

end Variables

/-! ### Getters after an operation on pointers -/

section Pointers

open Objects

variable {s : Objects ρ} {o this other : Object} {t u : Slot}

end Pointers

/-! ### Getters after an operation on values -/

section Values

variable (V : Variables ρ)

end Values

/-! ### One statement -/

section Statements

variable {s : Objects ρ} {V : Variables ρ}

end Statements

/-! ### Programs -/

section Programs

variable {s : Objects ρ} {V : Variables ρ}

end Programs

end Nlcpp.Values
