import Nlcpp.Attributes
import Nlcpp.Ctrl

/-!
What `parseGenericFamily` reads from a reply.

`outline` says which payloads it reads, from the sequence of the attributes alone;
`parseGenericFamily_outline` that the parser reads exactly these. `familyOf` is the family
that the attributes describe, and `parse_familyOf` that the parser returns it when strings
are terminated and numbers have four bytes. What a family depends on where they have not
is `parse_determined_iff`.
-/

namespace Nlcpp.Ctrl

open Tlv

/-! ### Replies as sequences of attributes -/

/-- An element of `CTRL_ATTR_MCAST_GROUPS`. -/
abbrev Group := Nest Plain.attr

def Group.attr : Group → Attr := Nest.attr

/-- A top-level attribute: the nested multicast groups, or any other. -/
inductive FamilyAttr where
  | plain (p : Plain) (other : p.attr.kind ≠ CTRL_ATTR_MCAST_GROUPS)
  | groups (g : Nest Group.attr) (mcast : g.attr.kind = CTRL_ATTR_MCAST_GROUPS)

namespace FamilyAttr

def attr : FamilyAttr → Attr
  | plain p _ => p.attr
  | groups g _ => g.attr

def kind (a : FamilyAttr) : ℕ := a.attr.kind

/-- The payload of an attribute without nested ones. -/
def bytes : FamilyAttr → List UInt8
  | plain p _ => p.bytes
  | groups _ _ => []

/-- The nested elements. -/
def entries : FamilyAttr → List Group
  | plain _ _ => []
  | groups g _ => g.inner

theorem payload_of_kind {a : FamilyAttr} (other : a.kind ≠ CTRL_ATTR_MCAST_GROUPS) :
    a.attr.payload = a.bytes.map some := by
  cases a with
  | plain p _ => rfl
  | groups g mcast => exact absurd mcast other

theorem payload_of_groups {a : FamilyAttr} (mcast : a.kind = CTRL_ATTR_MCAST_GROUPS) :
    ∃ short, a.attr.payload = layout short (a.entries.map Group.attr) := by
  cases a with
  | plain p other => exact absurd mcast other
  | groups g _ => exact ⟨g.short, rfl⟩

end FamilyAttr

/-! ### The payloads that are read -/

/-- The payloads that the parser reads. -/
structure Outline where
  name : Option AttrRef
  id : Option AttrRef
  groups : List (AttrRef × AttrRef)

/-- Name and id of a nested element that has both. -/
def outlineGroup (e : ℕ × Group) : Option (AttrRef × AttrRef) :=
  match lastPlaced Plain.attr CTRL_ATTR_MCAST_GRP_NAME e.1 e.2.inner,
    lastPlaced Plain.attr CTRL_ATTR_MCAST_GRP_ID e.1 e.2.inner with
  | some name, some id => some (.of Plain.attr name, .of Plain.attr id)
  | _, _ => none

def outline (attrs : List FamilyAttr) : Outline where
  name := (lastPlaced FamilyAttr.attr CTRL_ATTR_FAMILY_NAME 0 attrs).map (.of FamilyAttr.attr)
  id := (lastPlaced FamilyAttr.attr CTRL_ATTR_FAMILY_ID 0 attrs).map (.of FamilyAttr.attr)
  groups := match lastPlaced FamilyAttr.attr CTRL_ATTR_MCAST_GROUPS 0 attrs with
    | some e => (placed Group.attr e.1 e.2.entries).filterMap outlineGroup
    | none => []

namespace Outline

/-- The payloads read as strings. -/
def strings (o : Outline) : List AttrRef := o.name.toList ++ o.groups.map Prod.fst

/-- The payloads read as numbers. -/
def numbers (o : Outline) : List AttrRef := o.id.toList ++ o.groups.map Prod.snd

def group (string : AttrRef → List UInt8) (number : AttrRef → UInt32)
    (reads : AttrRef × AttrRef) : MulticastGroup where
  name := string reads.1
  id := (number reads.2).toInt32

/-- The family that results from reading these payloads. -/
def family (string : AttrRef → List UInt8) (number : AttrRef → UInt32) (o : Outline)
    (initial : GenericFamily) : GenericFamily where
  name := o.name.elim initial.name string
  id := o.id.elim initial.id fun attr => (number attr).toInt32
  multicastGroups := initial.multicastGroups ++ o.groups.map (group string number)

end Outline

/-! ### The parser reads the outline -/

section Parse

variable {N : Nla} (documented : N.Documented) {attrs : List FamilyAttr} {message : Reply}

include documented

/-- One nested element adds its name and id when it has both. -/
theorem parseMulticastGroup_outline {memory : List UInt8} {e : ℕ × Group}
    (fills : Fills (Group.attr e.2).payload (memory.drop e.1)) (result : GenericFamily) :
    parseMulticastGroup N memory result (.of Group.attr e) =
      { result with multicastGroups := result.multicastGroups ++
          ((outlineGroup e).map
            (Outline.group (N.nlaGetString memory) (N.nlaGetU32 memory))).toList } := by
  have inner : Fills (layout e.2.short (e.2.inner.map Plain.attr)) (memory.drop e.1) := fills
  have parsed (type : ℕ) (positive : 0 < type) (known : type ≤ CTRL_ATTR_MCAST_GRP_MAX) :=
    (documented.parse_as inner CTRL_ATTR_MCAST_GRP_MAX positive).trans (if_pos known)
  have place : AttrRef.of Group.attr e =
      ⟨e.1, (layout e.2.short (e.2.inner.map Plain.attr)).length⟩ := rfl
  simp only [parseMulticastGroup, place, parsed CTRL_ATTR_MCAST_GRP_NAME (by decide) (by decide),
    parsed CTRL_ATTR_MCAST_GRP_ID (by decide) (by decide), outlineGroup]
  cases lastPlaced Plain.attr CTRL_ATTR_MCAST_GRP_NAME e.1 e.2.inner with
  | none => simp
  | some found =>
      cases lastPlaced Plain.attr CTRL_ATTR_MCAST_GRP_ID e.1 e.2.inner with
      | none => simp
      | some found' => rfl

/-- The loop over the nested elements: consecutive elements do not mix. -/
theorem foldl_parseMulticastGroup {memory : List UInt8} {entries : List (ℕ × Group)}
    (fills : ∀ e ∈ entries, Fills (Group.attr e.2).payload (memory.drop e.1))
    (result : GenericFamily) :
    (entries.map (AttrRef.of Group.attr)).foldl (parseMulticastGroup N memory) result =
      { result with multicastGroups := result.multicastGroups ++
          ((entries.filterMap outlineGroup).map
            (Outline.group (N.nlaGetString memory) (N.nlaGetU32 memory))) } := by
  induction entries generalizing result with
  | nil => simp
  | cons e entries ih =>
      rw [List.map_cons, List.foldl_cons,
        parseMulticastGroup_outline documented (fills e List.mem_cons_self),
        ih fun e' mem => fills e' (List.mem_cons_of_mem _ mem)]
      cases read : outlineGroup e with
      | none => simp [read]
      | some reads => simp [read]

/-- **The parser reads the outline**: which payloads it reads depends on the sequence of
the attributes alone. -/
theorem parseGenericFamily_outline (carries : Carries FamilyAttr.attr attrs message)
    (initial : GenericFamily) :
    parseGenericFamily N initial message =
      (outline attrs).family (N.nlaGetString message.memory) (N.nlaGetU32 message.memory)
        initial := by
  have fills := carries.fills_start
  have parsed (type : ℕ) (positive : 0 < type) (known : type ≤ CTRL_ATTR_MAX) :=
    (documented.parse_reply carries CTRL_ATTR_MAX positive).trans (if_pos known)
  simp only [parseGenericFamily, parsed CTRL_ATTR_FAMILY_NAME (by decide) (by decide),
    parsed CTRL_ATTR_FAMILY_ID (by decide) (by decide),
    parsed CTRL_ATTR_MCAST_GROUPS (by decide) (by decide), outline, Outline.family]
  cases last : lastPlaced FamilyAttr.attr CTRL_ATTR_MCAST_GROUPS 0 attrs with
  | none =>
      cases lastPlaced FamilyAttr.attr CTRL_ATTR_FAMILY_NAME 0 attrs <;>
        cases lastPlaced FamilyAttr.attr CTRL_ATTR_FAMILY_ID 0 attrs <;> simp
  | some e =>
      obtain ⟨mem, mcast⟩ := lastOf_mem last
      obtain ⟨inner, payload⟩ := e.2.payload_of_groups mcast
      have nest := fills.placed mem
      rw [payload] at nest
      have nested : N.nlaNested message.memory (.of FamilyAttr.attr e) =
          (placed Group.attr e.1 e.2.entries).map (.of Group.attr) :=
        documented.nested_as nest (congrArg List.length payload)
      simp only [Option.map_some, nested]
      rw [foldl_parseMulticastGroup documented fun e' mem' => nest.placed mem']
      cases lastPlaced FamilyAttr.attr CTRL_ATTR_FAMILY_NAME 0 attrs <;>
        cases lastPlaced FamilyAttr.attr CTRL_ATTR_FAMILY_ID 0 attrs <;> rfl

end Parse

/-! ### The family that the attributes describe -/

/-- The multicast group of a nested element that has both a name and an id. -/
def groupOf (g : Group) : Option MulticastGroup :=
  match lastOf (fun p => (Plain.attr p).kind) CTRL_ATTR_MCAST_GRP_NAME g.inner,
    lastOf (fun p => (Plain.attr p).kind) CTRL_ATTR_MCAST_GRP_ID g.inner with
  | some name, some id =>
    some { name := cStr name.bytes, id := (UInt32.ofNat (ofHost id.bytes)).toInt32 }
  | _, _ => none

/-- The last name, the last id, and the groups of the last `CTRL_ATTR_MCAST_GROUPS`. -/
def familyOf (initial : GenericFamily) (attrs : List FamilyAttr) : GenericFamily where
  name := (lastOf FamilyAttr.kind CTRL_ATTR_FAMILY_NAME attrs).elim initial.name
    fun a => cStr a.bytes
  id := (lastOf FamilyAttr.kind CTRL_ATTR_FAMILY_ID attrs).elim initial.id
    fun a => (UInt32.ofNat (ofHost a.bytes)).toInt32
  multicastGroups := initial.multicastGroups ++
    (lastOf FamilyAttr.kind CTRL_ATTR_MCAST_GROUPS attrs).elim []
      fun a => a.entries.filterMap groupOf

/-- Strings are terminated and numbers have four bytes. -/
structure Typed (attrs : List FamilyAttr) : Prop where
  name : ∀ a ∈ attrs, a.kind = CTRL_ATTR_FAMILY_NAME → 0 ∈ a.bytes
  id : ∀ a ∈ attrs, a.kind = CTRL_ATTR_FAMILY_ID → a.bytes.length = 4
  groupName : ∀ a ∈ attrs, ∀ g ∈ a.entries, ∀ p ∈ g.inner,
    (Plain.attr p).kind = CTRL_ATTR_MCAST_GRP_NAME → 0 ∈ p.bytes
  groupId : ∀ a ∈ attrs, ∀ g ∈ a.entries, ∀ p ∈ g.inner,
    (Plain.attr p).kind = CTRL_ATTR_MCAST_GRP_ID → p.bytes.length = 4

theorem cStr_append {bytes : List UInt8} (nul : 0 ∈ bytes) (rest : List UInt8) :
    cStr (bytes ++ rest) = cStr bytes := by
  induction bytes with
  | nil => cases nul
  | cons b bytes ih =>
      by_cases zero : b = 0
      · simp [cStr, zero]
      · have later : 0 ∈ bytes := (List.mem_cons.mp nul).resolve_left (Ne.symm zero)
        simpa [cStr, zero] using ih later

theorem lastOf_kind (type : ℕ) (attrs : List FamilyAttr) :
    lastOf FamilyAttr.kind type attrs =
      (lastPlaced FamilyAttr.attr type 0 attrs).map Prod.snd :=
  lastOf_eq FamilyAttr.attr 0 type attrs

section Described

variable {N : Nla} (documented : N.Documented) {memory : List UInt8} {a : AttrRef}
  {bytes : List UInt8}

include documented

theorem getString_payload (fills : Fills (bytes.map some) (memory.drop a.payload))
    (nul : 0 ∈ bytes) : N.nlaGetString memory a = cStr bytes := by
  obtain ⟨rest, same⟩ := fills.known List.prefix_rfl
  have inMemory : 0 ∈ memory.drop a.payload := by
    rw [← same]
    exact List.mem_append_left _ nul
  rw [documented.getString inMemory, ← same, cStr_append nul]

theorem getU32_payload (fills : Fills (bytes.map some) (memory.drop a.payload))
    (four : bytes.length = 4) : N.nlaGetU32 memory a = UInt32.ofNat (ofHost bytes) :=
  documented.getU32 four (fills.known List.prefix_rfl)

/-- Reading the outline of a nested element gives its group. -/
theorem outlineGroup_groupOf {e : ℕ × Group}
    (fills : Fills (Group.attr e.2).payload (memory.drop e.1))
    (name : ∀ p ∈ e.2.inner, (Plain.attr p).kind = CTRL_ATTR_MCAST_GRP_NAME → 0 ∈ p.bytes)
    (id : ∀ p ∈ e.2.inner, (Plain.attr p).kind = CTRL_ATTR_MCAST_GRP_ID → p.bytes.length = 4) :
    (outlineGroup e).map (Outline.group (N.nlaGetString memory) (N.nlaGetU32 memory)) =
      groupOf e.2 := by
  have inner : Fills (layout e.2.short (e.2.inner.map Plain.attr)) (memory.drop e.1) := fills
  simp only [groupOf, outlineGroup, lastOf_eq Plain.attr e.1]
  cases named : lastPlaced Plain.attr CTRL_ATTR_MCAST_GRP_NAME e.1 e.2.inner with
  | none => rfl
  | some n =>
      cases numbered : lastPlaced Plain.attr CTRL_ATTR_MCAST_GRP_ID e.1 e.2.inner with
      | none => rfl
      | some i =>
          obtain ⟨memName, kindName⟩ := lastOf_mem named
          obtain ⟨memId, kindId⟩ := lastOf_mem numbered
          have string := getString_payload (a := .of Plain.attr n) documented (inner.placed memName)
            (name n.2 (mem_of_placed memName) kindName)
          have number := getU32_payload (a := .of Plain.attr i) documented (inner.placed memId)
            (id i.2 (mem_of_placed memId) kindId)
          simp only [Option.map_some, Outline.group, string, number]

variable {attrs : List FamilyAttr} {message : Reply}
  (carries : Carries FamilyAttr.attr attrs message)

include carries

omit documented in
/-- The payload of a top-level attribute without nested ones is in the memory where it is
placed. -/
theorem payload_placed {type : ℕ} {e : ℕ × FamilyAttr}
    (last : lastPlaced FamilyAttr.attr type 0 attrs = some e)
    (other : type ≠ CTRL_ATTR_MCAST_GROUPS) :
    Fills (e.2.bytes.map some) (message.memory.drop e.1) := by
  have fills := carries.fills_start
  obtain ⟨mem, kind⟩ := lastOf_mem last
  rw [← FamilyAttr.payload_of_kind (by rwa [FamilyAttr.kind, kind])]
  exact fills.placed mem

theorem outline_name (typed : Typed attrs) (initial : GenericFamily) :
    (outline attrs).name.elim initial.name (N.nlaGetString message.memory) =
      (familyOf initial attrs).name := by
  simp only [familyOf, lastOf_kind]
  cases last : lastPlaced FamilyAttr.attr CTRL_ATTR_FAMILY_NAME 0 attrs with
  | none => simp [outline, last]
  | some e =>
      obtain ⟨mem, kind⟩ := lastOf_mem last
      have string := getString_payload (a := .of FamilyAttr.attr e) documented
        (payload_placed carries last (by decide)) (typed.name e.2 (mem_of_placed mem) kind)
      simp [outline, last, string]

theorem outline_id (typed : Typed attrs) (initial : GenericFamily) :
    ((outline attrs).id.elim initial.id fun attr => (N.nlaGetU32 message.memory attr).toInt32) =
      (familyOf initial attrs).id := by
  simp only [familyOf, lastOf_kind]
  cases last : lastPlaced FamilyAttr.attr CTRL_ATTR_FAMILY_ID 0 attrs with
  | none => simp [outline, last]
  | some e =>
      obtain ⟨mem, kind⟩ := lastOf_mem last
      have number := getU32_payload (a := .of FamilyAttr.attr e) documented
        (payload_placed carries last (by decide)) (typed.id e.2 (mem_of_placed mem) kind)
      simp [outline, last, number]

theorem outline_groups (typed : Typed attrs) :
    (outline attrs).groups.map
        (Outline.group (N.nlaGetString message.memory) (N.nlaGetU32 message.memory)) =
      (lastOf FamilyAttr.kind CTRL_ATTR_MCAST_GROUPS attrs).elim []
        fun a => a.entries.filterMap groupOf := by
  have fills := carries.fills_start
  rw [lastOf_kind]
  cases last : lastPlaced FamilyAttr.attr CTRL_ATTR_MCAST_GROUPS 0 attrs with
  | none => simp [outline, last]
  | some e =>
      obtain ⟨mem, mcast⟩ := lastOf_mem last
      have inside := mem_of_placed mem
      obtain ⟨short, nest⟩ := e.2.payload_of_groups mcast
      have inner : Fills (layout short (e.2.entries.map Group.attr))
          (message.memory.drop e.1) := by
        rw [← nest]
        exact fills.placed mem
      -- Every element on its own, in order.
      have each : ∀ g ∈ placed Group.attr e.1 e.2.entries,
          (outlineGroup g).map
            (Outline.group (N.nlaGetString message.memory) (N.nlaGetU32 message.memory)) =
            groupOf g.2 := fun g memG =>
        outlineGroup_groupOf documented (inner.placed memG)
          (typed.groupName e.2 inside g.2 (mem_of_placed memG))
          (typed.groupId e.2 inside g.2 (mem_of_placed memG))
      simp only [outline, last, Option.map_some, Option.elim_some]
      calc ((placed Group.attr e.1 e.2.entries).filterMap outlineGroup).map
            (Outline.group (N.nlaGetString message.memory) (N.nlaGetU32 message.memory))
          = (placed Group.attr e.1 e.2.entries).filterMap fun g => groupOf g.2 := by
            rw [List.map_filterMap, List.filterMap_congr each]
        _ = ((placed Group.attr e.1 e.2.entries).map Prod.snd).filterMap groupOf :=
            (List.filterMap_map (f := Prod.snd) (g := groupOf)).symm
        _ = e.2.entries.filterMap groupOf := by rw [placed_map_snd]

end Described

/-- **Multicast groups are extracted exactly**: the parser returns the family that the
attributes describe. -/
theorem parse_familyOf {N : Nla} (documented : N.Documented) {attrs : List FamilyAttr}
    (typed : Typed attrs) {message : Reply} (carries : Carries FamilyAttr.attr attrs message)
    (initial : GenericFamily) : parseGenericFamily N initial message = familyOf initial attrs := by
  rw [parseGenericFamily_outline documented carries, Outline.family,
    outline_name documented carries typed, outline_id documented carries typed,
    outline_groups documented carries typed]
  rfl

/-- The attributes of a reply with a name, and with groups of which one has no id. -/
def withGroups : List FamilyAttr :=
  [.plain ⟨2, [110, 108, 0], by decide⟩ (by decide),
    .groups ⟨7, [⟨1, [⟨1, [97, 0], by decide⟩, ⟨2, [5, 0, 0, 0], by decide⟩], 0, by decide⟩,
      ⟨2, [⟨1, [98, 0], by decide⟩], 2, by decide⟩], 0, by decide⟩ (by decide)]

theorem parse_withGroups :
    parseGenericFamily Nla.reference {}
        ⟨1, 2, fill 0 (layout 0 (withGroups.map FamilyAttr.attr)), []⟩ =
      { name := [110, 108], id := 0, multicastGroups := [{ name := [97], id := 5 }] } := by
  have typed : Typed withGroups := by
    constructor <;> decide
  have carries : Carries FamilyAttr.attr withGroups
      ⟨1, 2, fill 0 (layout 0 (withGroups.map FamilyAttr.attr)), []⟩ :=
    ⟨0, by decide, fill_length _ _, fills_fill _ _⟩
  exact parse_familyOf Nla.reference_documented typed carries {}

/-! ### What the family depends on -/

/-- The parser's reads of multicast groups are in nested elements of one attribute. -/
theorem mem_outline_groups {attrs : List FamilyAttr} {reads : AttrRef × AttrRef}
    (mem : reads ∈ (outline attrs).groups) :
    ∃ e, lastPlaced FamilyAttr.attr CTRL_ATTR_MCAST_GROUPS 0 attrs = some e ∧
      ∃ g ∈ placed Group.attr e.1 e.2.entries, ∃ name id,
        lastPlaced Plain.attr CTRL_ATTR_MCAST_GRP_NAME g.1 g.2.inner = some name ∧
        lastPlaced Plain.attr CTRL_ATTR_MCAST_GRP_ID g.1 g.2.inner = some id ∧
        reads = (.of Plain.attr name, .of Plain.attr id) := by
  simp only [outline] at mem
  cases last : lastPlaced FamilyAttr.attr CTRL_ATTR_MCAST_GROUPS 0 attrs with
  | none =>
      rw [last] at mem
      cases mem
  | some e =>
      rw [last] at mem
      obtain ⟨g, inside, read⟩ := List.mem_filterMap.mp mem
      refine ⟨e, rfl, g, inside, ?_⟩
      simp only [outlineGroup] at read
      split at read
      · next name id named numbered =>
          cases read
          exact ⟨name, id, named, numbered, rfl⟩
      · cases read

/-- What the parser reads starts inside the stream. -/
theorem outline_inside {attrs : List FamilyAttr} {a : AttrRef}
    (mem : a ∈ (outline attrs).strings ∨ a ∈ (outline attrs).numbers) :
    a.payload ≤ (layout 3 (attrs.map FamilyAttr.attr)).length := by
  have top {type : ℕ}
      (mem : a ∈ ((lastPlaced FamilyAttr.attr type 0 attrs).map (.of FamilyAttr.attr)).toList) :
      a.payload ≤ (layout 3 (attrs.map FamilyAttr.attr)).length := by
    obtain ⟨e, last, rfl⟩ := Option.map_eq_some_iff.mp (Option.mem_toList.mp mem)
    have bound := placed_le 3 (lastOf_mem last).1
    simp only [AttrRef.of]
    omega
  have grouped {reads : AttrRef × AttrRef} (mem : reads ∈ (outline attrs).groups) :
      reads.1.payload ≤ (layout 3 (attrs.map FamilyAttr.attr)).length ∧
        reads.2.payload ≤ (layout 3 (attrs.map FamilyAttr.attr)).length := by
    obtain ⟨e, last, g, inside, name, id, named, numbered, rfl⟩ := mem_outline_groups mem
    obtain ⟨short, payload⟩ := e.2.payload_of_groups (lastOf_mem last).2
    have outer := placed_le 3 (lastOf_mem last).1
    have middle := placed_le short inside
    have first := placed_le g.2.short (lastOf_mem named).1
    have second := placed_le g.2.short (lastOf_mem numbered).1
    have inner : (layout g.2.short (g.2.inner.map Plain.attr)).length =
        (Group.attr g.2).payload.length := rfl
    rw [payload] at outer
    simp only [AttrRef.of]
    omega
  rcases mem with mem | mem
  · rcases List.mem_append.mp mem with mem | mem
    · exact top mem
    · obtain ⟨reads, inside, rfl⟩ := List.mem_map.mp mem
      exact (grouped inside).1
  · rcases List.mem_append.mp mem with mem | mem
    · exact top mem
    · obtain ⟨reads, inside, rfl⟩ := List.mem_map.mp mem
      exact (grouped inside).2

theorem toInt32_inj {a b : UInt32} : a.toInt32 = b.toInt32 ↔ a = b :=
  ⟨fun same => congrArg Int32.toUInt32 same, congrArg UInt32.toInt32⟩

/-- Two ways of reading give the same family exactly when they agree where the outline
reads. -/
theorem Outline.family_eq_iff {string string' : AttrRef → List UInt8}
    {number number' : AttrRef → UInt32} (o : Outline) (initial : GenericFamily) :
    o.family string number initial = o.family string' number' initial ↔
      (∀ a ∈ o.strings, string a = string' a) ∧ ∀ a ∈ o.numbers, number a = number' a := by
  have groups : o.groups.map (group string number) = o.groups.map (group string' number') ↔
      (∀ reads ∈ o.groups, string reads.1 = string' reads.1) ∧
        ∀ reads ∈ o.groups, number reads.2 = number' reads.2 := by
    simp only [List.map_inj_left, group, MulticastGroup.mk.injEq, toInt32_inj]
    constructor
    · exact fun same => ⟨fun reads mem => (same reads mem).1, fun reads mem => (same reads mem).2⟩
    · exact fun same reads mem => ⟨same.1 reads mem, same.2 reads mem⟩
  have name : o.name.elim initial.name string = o.name.elim initial.name string' ↔
      ∀ a ∈ o.name.toList, string a = string' a := by
    cases o.name <;> simp
  have id : (o.id.elim initial.id fun a => (number a).toInt32) =
      (o.id.elim initial.id fun a => (number' a).toInt32) ↔
      ∀ a ∈ o.id.toList, number a = number' a := by
    cases o.id <;> simp [toInt32_inj]
  simp only [family, GenericFamily.mk.injEq, List.append_cancel_left_eq, groups, name, id]
  constructor
  · rintro ⟨named, numbered, strings, numbers⟩
    exact ⟨List.forall_mem_append.mpr ⟨named, List.forall_mem_map.mpr strings⟩,
      List.forall_mem_append.mpr ⟨numbered, List.forall_mem_map.mpr numbers⟩⟩
  · rintro ⟨strings, numbers⟩
    obtain ⟨named, strings⟩ := List.forall_mem_append.mp strings
    obtain ⟨numbered, numbers⟩ := List.forall_mem_append.mp numbers
    exact ⟨named, numbered, List.forall_mem_map.mp strings, List.forall_mem_map.mp numbers⟩

/-- Every read of the parser is answered by the attributes: a string by bytes up to a NUL,
a number by four bytes, with no padding and no end of the stream before them. -/
def Settled (attrs : List FamilyAttr) : Prop :=
  (∀ a ∈ (outline attrs).strings,
    Terminated ((layout 3 (attrs.map FamilyAttr.attr)).drop a.payload)) ∧
  ∀ a ∈ (outline attrs).numbers, Wide 4 ((layout 3 (attrs.map FamilyAttr.attr)).drop a.payload)

/-- A reply that carries these attributes, with the same byte wherever nothing is said. -/
def replyWith (b : UInt8) (attrs : List FamilyAttr) : Reply where
  cmd := 0
  version := 0
  attrs := fill b (layout 3 (attrs.map FamilyAttr.attr))
  beyond := closing b

theorem carries_replyWith (b : UInt8) (attrs : List FamilyAttr) :
    Carries FamilyAttr.attr attrs (replyWith b attrs) :=
  ⟨3, le_refl 3, fill_length _ _, fills_fill _ _⟩

theorem replyWith_drop {b : UInt8} {attrs : List FamilyAttr} {n : ℕ}
    (inside : n ≤ (layout 3 (attrs.map FamilyAttr.attr)).length) :
    (replyWith b attrs).memory.drop n =
      fill b ((layout 3 (attrs.map FamilyAttr.attr)).drop n) ++ closing b := by
  simp only [Reply.memory, replyWith]
  rw [List.drop_append_of_le_length (by rwa [fill_length]), fill_drop]

section Determined

variable {N : Nla} (documented : N.Documented) {attrs : List FamilyAttr}
  {cells : List Cell} {a : AttrRef}

include documented

/-- A string among known bytes is the same in every memory. -/
theorem getString_settled (terminated : Terminated (cells.drop a.payload)) :
    ∃ s, ∀ memory, Fills cells memory → N.nlaGetString memory a = s := by
  obtain ⟨s, noNul, known⟩ := terminated
  refine ⟨s, fun memory fills => ?_⟩
  obtain ⟨same, nul⟩ := (fills.drop a.payload).upToNul noNul known
  rw [documented.getString nul]
  exact same

/-- A number of four known bytes is the same in every memory. -/
theorem getU32_settled (wide : Wide 4 (cells.drop a.payload)) :
    ∃ n, ∀ memory, Fills cells memory → N.nlaGetU32 memory a = n := by
  obtain ⟨bytes, four, known⟩ := wide
  exact ⟨_, fun memory fills => documented.getU32 four ((fills.drop a.payload).known known)⟩

theorem terminated_of_same (inside : a.payload ≤ (layout 3 (attrs.map FamilyAttr.attr)).length)
    (same : N.nlaGetString (replyWith 0 attrs).memory a =
      N.nlaGetString (replyWith 1 attrs).memory a) :
    Terminated ((layout 3 (attrs.map FamilyAttr.attr)).drop a.payload) := by
  have read (b : UInt8) : N.nlaGetString (replyWith b attrs).memory a =
      upToNul (fill b ((layout 3 (attrs.map FamilyAttr.attr)).drop a.payload) ++ closing b) := by
    have nul : 0 ∈ (replyWith b attrs).memory.drop a.payload := by
      rw [replyWith_drop inside]
      exact List.mem_append_right _ (by simp [closing])
    rw [documented.getString nul, replyWith_drop inside]
    rfl
  rw [read, read] at same
  by_contra open_
  exact upToNul_differs open_ same

theorem wide_of_same (inside : a.payload ≤ (layout 3 (attrs.map FamilyAttr.attr)).length)
    (same : N.nlaGetU32 (replyWith 0 attrs).memory a =
      N.nlaGetU32 (replyWith 1 attrs).memory a) :
    Wide 4 ((layout 3 (attrs.map FamilyAttr.attr)).drop a.payload) := by
  have four (b : UInt8) :
      ((fill b ((layout 3 (attrs.map FamilyAttr.attr)).drop a.payload) ++ closing b).take 4).length
        = 4 := by
    simp [closing]
  have read (b : UInt8) : N.nlaGetU32 (replyWith b attrs).memory a = UInt32.ofNat (ofHost
      ((fill b ((layout 3 (attrs.map FamilyAttr.attr)).drop a.payload) ++ closing b).take 4)) := by
    apply documented.getU32 (four b)
    rw [replyWith_drop inside]
    exact List.take_prefix _ _
  rw [read, read] at same
  by_contra open_
  exact take_differs (le_refl 4) open_ (ofHost_injective_four (four 0) (four 1) same)

/-- Where every read is settled, all replies that carry the attributes give one family. -/
theorem Settled.same (settled : Settled attrs) {message message' : Reply}
    (carries : Carries FamilyAttr.attr attrs message)
    (carries' : Carries FamilyAttr.attr attrs message')
    (initial : GenericFamily) :
    parseGenericFamily N initial message = parseGenericFamily N initial message' := by
  rw [parseGenericFamily_outline documented carries, parseGenericFamily_outline documented carries',
    Outline.family_eq_iff]
  constructor
  · intro a mem
    obtain ⟨s, same⟩ := getString_settled documented (settled.1 a mem)
    rw [same _ carries.fills, same _ carries'.fills]
  · intro a mem
    obtain ⟨n, same⟩ := getU32_settled documented (settled.2 a mem)
    rw [same _ carries.fills, same _ carries'.fills]

omit documented in
/-- The last attribute of a type is read where it is placed. -/
theorem lastPlaced_of_lastOf {type : ℕ} {a : FamilyAttr}
    (last : lastOf FamilyAttr.kind type attrs = some a) :
    ∃ place, lastPlaced FamilyAttr.attr type 0 attrs = some (place, a) := by
  rw [lastOf_kind] at last
  obtain ⟨e, found, rfl⟩ := Option.map_eq_some_iff.mp last
  exact ⟨e.1, found⟩

omit documented in
/-- Two bytes of id are followed by two bytes of padding, or by nothing. -/
theorem not_settled_of_two_bytes {a : FamilyAttr}
    (last : lastOf FamilyAttr.kind CTRL_ATTR_FAMILY_ID attrs = some a)
    (two : a.bytes.length = 2) : ¬Settled attrs := by
  intro settled
  obtain ⟨place, placed⟩ := lastPlaced_of_lastOf last
  have payload : a.attr.payload = a.bytes.map some :=
    FamilyAttr.payload_of_kind (by rw [(lastOf_mem last).2]; decide)
  have length : a.attr.payload.length = 2 := by rw [payload, List.length_map, two]
  obtain ⟨offset, rest, start, here, after⟩ := after_placed (lastOf_mem placed).1
  have wide := settled.2 (.of FamilyAttr.attr (place, a))
    (by simp [Outline.numbers, outline, placed])
  rw [Nat.zero_add] at start
  rw [show (AttrRef.of FamilyAttr.attr (place, a)).payload = offset from start, here] at wide
  exact not_wide_of_padded (by rw [length]; decide) (by rw [Attr.size, length]; decide) after wide

end Determined

/-- **A parsed family depends only on the attributes** exactly when every read is answered
by them. An id of two bytes is not. -/
theorem parse_determined_iff {N : Nla} (documented : N.Documented) (attrs : List FamilyAttr)
    (initial : GenericFamily) :
    ((∀ message message', Carries FamilyAttr.attr attrs message →
        Carries FamilyAttr.attr attrs message' →
        parseGenericFamily N initial message = parseGenericFamily N initial message') ∧
      ∀ message a, Carries FamilyAttr.attr attrs message →
        lastOf FamilyAttr.kind CTRL_ATTR_FAMILY_ID attrs = some a → a.bytes.length = 2 →
          (parseGenericFamily N initial message).id = Int32.ofNat (ofHost a.bytes)) ↔
      Settled attrs := by
  constructor
  · rintro ⟨same, -⟩
    have both := same _ _ (carries_replyWith 0 attrs) (carries_replyWith 1 attrs)
    rw [parseGenericFamily_outline documented (carries_replyWith 0 attrs),
      parseGenericFamily_outline documented (carries_replyWith 1 attrs),
      Outline.family_eq_iff] at both
    exact ⟨fun a mem => terminated_of_same documented (outline_inside (.inl mem)) (both.1 a mem),
      fun a mem => wide_of_same documented (outline_inside (.inr mem)) (both.2 a mem)⟩
  · intro settled
    exact ⟨fun message message' carries carries' =>
        settled.same documented carries carries' initial,
      fun message a _ last two => absurd settled (not_settled_of_two_bytes last two)⟩

/-- The attributes of a reply with a name and an id of four bytes. -/
def namedFour : List FamilyAttr :=
  [.plain ⟨2, [110, 108, 0], by decide⟩ (by decide),
    .plain ⟨1, [16, 0, 0, 0], by decide⟩ (by decide)]

theorem namedFour_determined :
    (∀ message message', Carries FamilyAttr.attr namedFour message →
        Carries FamilyAttr.attr namedFour message' →
        parseGenericFamily Nla.reference {} message =
          parseGenericFamily Nla.reference {} message') ∧
      ∀ message a, Carries FamilyAttr.attr namedFour message →
        lastOf FamilyAttr.kind CTRL_ATTR_FAMILY_ID namedFour = some a → a.bytes.length = 2 →
          (parseGenericFamily Nla.reference {} message).id = Int32.ofNat (ofHost a.bytes) := by
  apply (parse_determined_iff Nla.reference_documented namedFour {}).mpr
  constructor
  · intro a mem
    have strings : (outline namedFour).strings = [⟨4, 3⟩] := rfl
    rw [strings, List.mem_singleton] at mem
    subst mem
    exact ⟨[110, 108], by decide, by decide⟩
  · intro a mem
    have numbers : (outline namedFour).numbers = [⟨12, 4⟩] := rfl
    rw [numbers, List.mem_singleton] at mem
    subst mem
    exact ⟨[16, 0, 0, 0], rfl, by decide⟩

/-- The attributes of a reply with the kernel's id of two bytes. -/
def idOfTwo : List FamilyAttr := [.plain ⟨1, [16, 0], by decide⟩ (by decide)]

/-- Padding becomes part of the id. -/
theorem padding_in_id :
    Nla.reference.Documented ∧
      Carries FamilyAttr.attr idOfTwo ⟨1, 2, [6, 0, 1, 0, 16, 0, 0, 0], []⟩ ∧
      Carries FamilyAttr.attr idOfTwo ⟨1, 2, [6, 0, 1, 0, 16, 0, 1, 0], []⟩ ∧
      (parseGenericFamily Nla.reference {} ⟨1, 2, [6, 0, 1, 0, 16, 0, 0, 0], []⟩).id = 16 ∧
      (parseGenericFamily Nla.reference {} ⟨1, 2, [6, 0, 1, 0, 16, 0, 1, 0], []⟩).id = 65552 :=
  ⟨Nla.reference_documented, ⟨0, by decide, by decide, by decide⟩,
    ⟨0, by decide, by decide, by decide⟩, by decide, by decide⟩

end Nlcpp.Ctrl
