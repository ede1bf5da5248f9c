import Nlcpp.Message
import Nlcpp.Lib.Run

/-!
Setters of the routing classes that drop a result.

`RouteAddress::label`, `RouteLink::name`, `RouteLink::type` and `Route::family` call libnl
and return, whatever libnl said. A call is faithful when the getter returns the value
afterwards, or when it throws and changes nothing; `setters_loud_iff` says for which values and
in which states each of them is.
-/

namespace Nlcpp

/-! ### libnl's setters -/

/-- A C string. -/
abbrev CString := { s : List UInt8 // 0 ∉ s }

/-- A C string in a field of `IFNAMSIZ` bytes. -/
abbrev ShortString := { s : List UInt8 // 0 ∉ s ∧ s.length ≤ 15 }

/-- `std::string::c_str`. -/
def c_str (value : List UInt8) : CString := ⟨cStr value, not_mem_cStr value⟩

def NLE_RANGE : ℤ := 8
def NLE_AF_NOSUPPORT : ℤ := 11

/-- `AF_INET`, `AF_INET6`, `AF_DECnet` and `AF_MPLS`. -/
def routeFamilies : List UInt8 := [2, 10, 12, 28]

/-- What the setters do to the field they set: the field before, the value, and the result
with the field after. -/
structure Rtnl where
  rtnlAddrSetLabel : Option ShortString → CString → ℤ × Option ShortString
  rtnlLinkSetName : Option ShortString → CString → Option ShortString
  rtnlLinkSetType : Option CString → CString → ℤ × Option CString
  rtnlRouteSetFamily : UInt8 → UInt8 → ℤ × UInt8
  label_set : ∀ old l (short : l.val.length ≤ 15),
    rtnlAddrSetLabel old l = (0, some ⟨l.val, l.property, short⟩)
  label_long : ∀ old l, 15 < l.val.length → rtnlAddrSetLabel old l = (-NLE_RANGE, old)
  /-- A longer name is cut. -/
  name_set : ∀ old n, (rtnlLinkSetName old n).map Subtype.val = some (n.val.take 15)
  type_code : ∀ old t, (rtnlLinkSetType old t).1 ≤ 0
  type_set : ∀ old t, (rtnlLinkSetType old t).1 = 0 → (rtnlLinkSetType old t).2 = some t
  family_set : ∀ old f, f ∈ routeFamilies → rtnlRouteSetFamily old f = (0, f)
  family_unknown : ∀ old f, f ∉ routeFamilies → rtnlRouteSetFamily old f = (-NLE_AF_NOSUPPORT, old)

variable (R : Rtnl) {ρ : Type}

/-- A call sets exactly the value, or it throws and all getters are as before. -/
def Faithful {σ β : Type} (get : σ → β) (value : β) (s : σ)
    (result : Except Exception Unit × σ) : Prop :=
  match result.1 with
  | .ok _ => get result.2 = value
  | .error _ => result.2 = s

/-! ### `RouteAddress` -/

namespace RouteAddress

/-- What the getters of a `RouteAddress` return: the label, and the others. -/
structure Fields (ρ : Type) where
  label : Option ShortString
  others : ρ

/-- `label()`. -/
def getLabel (a : Fields ρ) : Option (List UInt8) := a.label.map Subtype.val

/-- `label(const string &)`. -/
def label (value : List UInt8) (a : Fields ρ) : Except Exception Unit × Fields ρ :=
  (.ok (), { a with label := (R.rtnlAddrSetLabel a.label (c_str value)).2 })

/-- A call of a setter; the others do whatever they do to the other fields. -/
inductive Call (ρ : Type) where
  | label (value : List UInt8)
  | other (set : ρ → ρ)

def step (a : Fields ρ) : Call ρ → Fields ρ
  | .label value => (label R value a).2
  | .other set => { a with others := set a.others }

/-- The call does not fail silently. -/
def Loud (a : Fields ρ) : Call ρ → Prop
  | .label value => Faithful getLabel (some value) a (label R value a)
  | .other _ => True

/-- A label that libnl takes whole. -/
def Taken (_ : Fields ρ) : Call ρ → Prop
  | .label value => 0 ∉ value ∧ value.length ≤ 15
  | .other _ => True

end RouteAddress

/-! ### `RouteLink` -/

namespace RouteLink

/-- What the getters of a `RouteLink` return: name, type, and the others. -/
structure Fields (ρ : Type) where
  name : Option ShortString
  type : Option CString
  others : ρ

/-- `name()`. -/
def getName (l : Fields ρ) : Option (List UInt8) := l.name.map Subtype.val

/-- `name(const string &)`. -/
def name (value : List UInt8) (l : Fields ρ) : Except Exception Unit × Fields ρ :=
  (.ok (), { l with name := R.rtnlLinkSetName l.name (c_str value) })

/-- `type()`. -/
def getType (l : Fields ρ) : Option (List UInt8) := l.type.map Subtype.val

/-- `type(const string &)`. -/
def type (value : List UInt8) (l : Fields ρ) : Except Exception Unit × Fields ρ :=
  (.ok (), { l with type := (R.rtnlLinkSetType l.type (c_str value)).2 })

/-- A call of a setter; the others do whatever they do to the other fields. -/
inductive Call (ρ : Type) where
  | name (value : List UInt8)
  | type (value : List UInt8)
  | other (set : ρ → ρ)

def step (l : Fields ρ) : Call ρ → Fields ρ
  | .name value => (name R value l).2
  | .type value => (type R value l).2
  | .other set => { l with others := set l.others }

/-- The call does not fail silently. -/
def Loud (l : Fields ρ) : Call ρ → Prop
  | .name value => Faithful getName (some value) l (name R value l)
  | .type value => Faithful getType (some value) l (type R value l)
  | .other _ => True

/-- A name that libnl takes whole, and a type that libnl sets (or that is there after
libnl failed to set it). -/
def Taken (l : Fields ρ) : Call ρ → Prop
  | .name value => 0 ∉ value ∧ value.length ≤ 15
  | .type value =>
    ((R.rtnlLinkSetType l.type (c_str value)).1 = 0 ∧ 0 ∉ value) ∨
      ((R.rtnlLinkSetType l.type (c_str value)).1 < 0 ∧
        (R.rtnlLinkSetType l.type (c_str value)).2.map Subtype.val = some value)
  | .other _ => True

end RouteLink

/-! ### `Route` -/

namespace Route

/-- What the getters of a `Route` return: the family, and the others. -/
structure Fields (ρ : Type) where
  family : UInt8
  others : ρ

/-- `family(uint8_t)`. -/
def family (value : UInt8) (r : Fields ρ) : Except Exception Unit × Fields ρ :=
  (.ok (), { r with family := (R.rtnlRouteSetFamily r.family value).2 })

/-- A call of a setter; the others may change the family too, as `dst` does. -/
inductive Call (ρ : Type) where
  | family (value : UInt8)
  | other (set : Fields ρ → Fields ρ)

def step (r : Fields ρ) : Call ρ → Fields ρ
  | .family value => (family R value r).2
  | .other set => set r

/-- The call does not fail silently. -/
def Loud (r : Fields ρ) : Call ρ → Prop
  | .family value => Faithful Fields.family value r (family R value r)
  | .other _ => True

/-- A family that libnl takes, or that the route has anyway. -/
def Taken (r : Fields ρ) : Call ρ → Prop
  | .family value => value ∈ routeFamilies ∨ r.family = value
  | .other _ => True

end Route

/-! ### When a call is faithful -/

theorem c_str_eq_iff {value : List UInt8} : (c_str value).val = value ↔ 0 ∉ value := cStr_eq_iff

/-- The first 15 bytes of a C string are a value when it has no more and no NUL. -/
theorem take_c_str_iff {value : List UInt8} :
    (c_str value).val.take 15 = value ↔ 0 ∉ value ∧ value.length ≤ 15 := by
  constructor
  · intro same
    constructor
    · intro zero
      rw [← same] at zero
      exact (c_str value).property (List.mem_of_mem_take zero)
    · rw [← same, List.length_take]
      exact Nat.min_le_left _ _
  · rintro ⟨noNul, short⟩
    rw [c_str_eq_iff.mpr noNul, List.take_of_length_le short]

section Calls

variable (ρ)

theorem RouteAddress.loud_iff (a : RouteAddress.Fields ρ) (call : RouteAddress.Call ρ) :
    RouteAddress.Loud R a call ↔ RouteAddress.Taken a call := by
  cases call with
  | other set => exact Iff.rfl
  | label value =>
      simp only [RouteAddress.Loud, RouteAddress.Taken, Faithful, RouteAddress.label,
        RouteAddress.getLabel]
      by_cases short : (c_str value).val.length ≤ 15
      · rw [R.label_set _ _ short, ← take_c_str_iff, List.take_of_length_le short]
        simp
      · -- The label of before is no C string of more than 15 bytes.
        rw [R.label_long _ _ (Nat.lt_of_not_le short)]
        constructor
        · intro same
          obtain ⟨old, -, rfl⟩ := Option.map_eq_some_iff.mp same
          rw [c_str_eq_iff.mpr old.property.1] at short
          exact absurd old.property.2 short
        · rintro ⟨noNul, few⟩
          rw [c_str_eq_iff.mpr noNul] at short
          exact absurd few short

theorem RouteLink.loud_iff (l : RouteLink.Fields ρ) (call : RouteLink.Call ρ) :
    RouteLink.Loud R l call ↔ RouteLink.Taken R l call := by
  cases call with
  | other set => exact Iff.rfl
  | name value =>
      simp only [RouteLink.Loud, RouteLink.Taken, Faithful, RouteLink.name, RouteLink.getName,
        R.name_set, Option.some.injEq]
      exact take_c_str_iff
  | type value =>
      simp only [RouteLink.Loud, RouteLink.Taken, Faithful, RouteLink.type, RouteLink.getType]
      rcases lt_or_eq_of_le (R.type_code l.type (c_str value)) with failed | set
      · simp [failed, failed.ne]
      · rw [R.type_set _ _ set]
        simp [set, c_str_eq_iff]

theorem Route.loud_iff (r : Route.Fields ρ) (call : Route.Call ρ) :
    Route.Loud R r call ↔ Route.Taken r call := by
  cases call with
  | other set => exact Iff.rfl
  | family value =>
      simp only [Route.Loud, Route.Taken, Faithful, Route.family]
      by_cases known : value ∈ routeFamilies
      · rw [R.family_set _ _ known]
        simp [known]
      · rw [R.family_unknown _ _ known]
        simp [known]

end Calls

/-- **No call of a run fails silently** exactly when libnl takes every value of it: short
labels and names, types that libnl can set, families it supports, and no string with a NUL.
(A family that the route has already is as good.) -/
theorem setters_loud_iff (R : Rtnl) (ρ : Type) :
    (∀ (a : RouteAddress.Fields ρ) calls,
      Run.Guarded (RouteAddress.step R) (RouteAddress.Loud R) a calls ↔
        Run.Guarded (RouteAddress.step R) RouteAddress.Taken a calls) ∧
    (∀ (l : RouteLink.Fields ρ) calls,
      Run.Guarded (RouteLink.step R) (RouteLink.Loud R) l calls ↔
        Run.Guarded (RouteLink.step R) (RouteLink.Taken R) l calls) ∧
    ∀ (r : Route.Fields ρ) calls,
      Run.Guarded (Route.step R) (Route.Loud R) r calls ↔
        Run.Guarded (Route.step R) Route.Taken r calls :=
  ⟨Run.guarded_iff (RouteAddress.loud_iff R ρ), Run.guarded_iff (RouteLink.loud_iff R ρ),
    Run.guarded_iff (Route.loud_iff R ρ)⟩

/-! ### An implementation -/

/-- libnl's setters; setting a type fails for the types in `broken`. -/
def Rtnl.reference (broken : List (List UInt8)) : Rtnl where
  rtnlAddrSetLabel old l :=
    if short : l.val.length ≤ 15 then (0, some ⟨l.val, l.property, short⟩) else (-NLE_RANGE, old)
  rtnlLinkSetName _ n :=
    some ⟨n.val.take 15, fun zero => n.property (List.mem_of_mem_take zero),
      List.length_take_le 15 n.val⟩
  rtnlLinkSetType _ t := if t.val ∈ broken then (-5, none) else (0, some t)
  rtnlRouteSetFamily old f := if f ∈ routeFamilies then (0, f) else (-NLE_AF_NOSUPPORT, old)
  label_set _ _ short := dif_pos short
  label_long _ _ long := dif_neg (Nat.not_le.mpr long)
  name_set _ _ := rfl
  type_code _ t := by
    split
    · decide
    · exact le_refl 0
  type_set _ t := by
    split
    · intro ok
      cases ok
    · exact fun _ => rfl
  family_set _ _ known := if_pos known
  family_unknown _ _ unknown := if_neg unknown

/-- A label and a name of 16 bytes, a type whose allocation fails, and `AF_UNIX`: every call
returns, and no getter returns the value. -/
theorem setters_silent :
    ¬RouteAddress.Loud (.reference [[118]]) (⟨none, ()⟩ : RouteAddress.Fields Unit)
        (.label (List.replicate 16 97)) ∧
      ¬RouteLink.Loud (.reference [[118]]) (⟨none, none, ()⟩ : RouteLink.Fields Unit)
        (.name (List.replicate 16 97)) ∧
      ¬RouteLink.Loud (.reference [[118]]) (⟨none, none, ()⟩ : RouteLink.Fields Unit)
        (.type [118]) ∧
      ¬Route.Loud (.reference [[118]]) (⟨0, ()⟩ : Route.Fields Unit) (.family 1) := by
  refine ⟨fun loud => ?_, fun loud => ?_, fun loud => ?_, fun loud => ?_⟩
  · exact absurd (show (none : Option (List UInt8)) = some (List.replicate 16 97) from loud)
      (by decide)
  · exact absurd (show some (List.replicate 15 97) = some (List.replicate 16 (97 : UInt8)) from loud)
      (by decide)
  · exact absurd (show (none : Option (List UInt8)) = some [118] from loud) (by decide)
  · exact absurd (show (0 : UInt8) = 1 from loud) (by decide)

end Nlcpp
