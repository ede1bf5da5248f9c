import Nlcpp.Configuration
import Nlcpp.Written

/-!
From puts to records: what is described with the `put` members is what the parsers of this
library return.

`Puts.family` and `Puts.interface` say what a sequence of calls describes, from the calls
alone: the last value that is given for each field. `parse_described` and
`parse_interface_described` say that this is what is read from a reply with the message's
attributes, whatever else was put and in whatever order.
-/

namespace Nlcpp.Encoding

open Tlv

/-- What a call puts. -/
inductive Value where
  | flat (call : Flat)
  | nested (inner : Puts)

/-- The calls on the message itself, in order. -/
def Puts.calls : Puts → List (ℕ × Value)
  | done => []
  | flat type call next => (type.number, .flat call) :: next.calls
  | nested type inner next => (type.number, .nested inner) :: next.calls

/-- What the last call of a type puts. -/
def Puts.last (type : ℕ) (puts : Puts) : Option Value :=
  (lastOf Prod.fst type puts.calls).map Prod.snd

/-- The text of a string that is not longer than an `int` says. -/
def Value.text? : Value → Option (List UInt8)
  | .flat (.string value) => if (cStr value).length < 0x7fffffff then some (cStr value) else none
  | _ => none

/-- A number of four bytes. -/
def Value.number? : Value → Option UInt32
  | .flat (.u32 value) => some value
  | .flat (.s32 value) => some value.toUInt32
  | _ => none

/-- The payload of an attribute holds this value. -/
def Value.Payload (bytes : List UInt8) : Value → Prop
  | .flat call => bytes = call.data.take call.length.toNat
  | .nested inner => ∃ own, Framed own bytes ∧ inner.Writes own

/-- The attribute is the one of this call. -/
def Wrote (call : ℕ × Value) (p : Plain) : Prop :=
  p.attr.kind = call.1 ∧ call.2.Payload p.bytes

theorem Puts.Writes.calls {puts : Puts} {written : List Plain} (writes : puts.Writes written) :
    List.Forall₂ Wrote puts.calls written := by
  induction writes with
  | done => exact .nil
  | flat kind bytes _ ih => exact .cons ⟨kind, bytes⟩ ih
  | nested kind framed inside _ _ ih => exact .cons ⟨kind, _, framed, inside⟩ ih

theorem Value.payload_text {value : Value} {bytes text : List UInt8} (payload : value.Payload bytes)
    (given : value.text? = some text) : 0 ∈ bytes ∧ cStr bytes = text := by
  cases value with
  | nested inner => cases given
  | flat call =>
      cases call with
      | string value =>
          simp only [text?, Option.ite_none_right_eq_some, Option.some.injEq] at given
          obtain ⟨short, rfl⟩ := given
          have length : toInt ((cStr value).length + 1) = (cStr value ++ [0]).length := by
            rw [List.length_append, List.length_singleton]
            unfold toInt
            rw [if_pos (by omega)]
            omega
          have whole : bytes = cStr value ++ [0] := by
            refine Eq.trans payload ?_
            simp only [Flat.data, Flat.length, length, Int.toNat_natCast, List.take_length]
          rw [whole]
          exact ⟨by simp, upToNul_append (not_mem_cStr value)⟩
      | _ => cases given

theorem Value.payload_number {value : Value} {bytes : List UInt8} {number : UInt32}
    (payload : value.Payload bytes) (given : value.number? = some number) :
    bytes.length = 4 ∧ UInt32.ofNat (ofHost bytes) = number := by
  have whole : bytes = hostBytes 4 number.toNat := by
    cases value with
    | nested inner => cases given
    | flat call =>
        cases call with
        | u32 value =>
            cases given
            exact payload.trans (Flat.take_hostBytes 4 _)
        | s32 value =>
            cases given
            exact payload.trans (Flat.take_hostBytes 4 _)
        | _ => cases given
  rw [whole, Flat.hostBytes_length, Flat.ofHost_hostBytes 4 number.toNat_lt, UInt32.ofNat_toNat]
  exact ⟨rfl, rfl⟩

section Last

variable {α γ : Type} {R : ℕ × Value → α → Prop} {type : ℕ} {calls : List (ℕ × Value)}
  {xs : List α}

theorem exists_call (related : List.Forall₂ R calls xs) {x : α} (mem : x ∈ xs) :
    ∃ call ∈ calls, R call x := by
  induction related with
  | nil => cases mem
  | cons here _ ih =>
      rcases List.mem_cons.mp mem with rfl | later
      · exact ⟨_, List.mem_cons_self, here⟩
      · obtain ⟨call, inside, related⟩ := ih later
        exact ⟨call, List.mem_cons_of_mem _ inside, related⟩

/-- Where what is written holds the values of the calls, the last value that is given for a
type is the one that is read. -/
theorem last_read {β : Type} (kind : α → ℕ) (content : α → γ) (Holds : γ → Value → Prop)
    (value? : Value → Option β) {read : γ → β} {Good : γ → Prop}
    (sound : ∀ {value content b}, Holds content value → value? value = some b →
      Good content ∧ read content = b)
    (same : ∀ call x, R call x → call.1 = kind x)
    (holds : ∀ call x, R call x → kind x = type → Holds (content x) call.2)
    (form : ∀ call ∈ calls, call.1 = type → (value? call.2).isSome)
    (related : List.Forall₂ R calls xs) :
    ((lastOf Prod.fst type calls).map Prod.snd).bind value? =
        (lastOf kind type xs).map (fun x => read (content x)) ∧
      ∀ x ∈ xs, kind x = type → Good (content x) := by
  have both := (List.forall₂_and_left _ _).mpr ⟨form, related⟩
  have reads {call : ℕ × Value} {x : α} (form : call.1 = type → (value? call.2).isSome)
      (here : R call x) (this : kind x = type) :
      Good (content x) ∧ value? call.2 = some (read (content x)) := by
    obtain ⟨b, given⟩ := Option.isSome_iff_exists.mp (form ((same _ _ here).trans this))
    obtain ⟨good, read⟩ := sound (holds _ _ here this) given
    exact ⟨good, by rw [given, read]⟩
  constructor
  · have last := lastOf_rel type (fun call x here => same call x here.2) both
    cases found : lastOf kind type xs with
    | none =>
        rw [found] at last
        cases found' : lastOf Prod.fst type calls with
        | none => rfl
        | some call =>
            rw [found'] at last
            cases last
    | some x =>
        rw [found] at last
        cases found' : lastOf Prod.fst type calls with
        | none =>
            rw [found'] at last
            cases last
        | some call =>
            rw [found'] at last
            obtain ⟨form, here⟩ : _ ∧ R call x := by cases last; assumption
            exact (reads form here (lastOf_mem found).2).2
  · intro x mem this
    obtain ⟨call, -, form, here⟩ := exists_call both mem
    exact (reads form here this).1

end Last

/-- A stream of attributes inside of an attribute. -/
theorem Framed.covers {own : List Plain} {p : Plain} (framed : Framed own p.bytes) :
    ∃ g : Nest Plain.attr, g.inner = own ∧ Covers g.attr p := by
  obtain ⟨length, fills⟩ := framed
  exact ⟨⟨p.type, own, 0, length ▸ p.fits⟩, rfl, rfl, length.symm, fills⟩

/-- Each attribute as something that covers it. -/
theorem exists_covers {α : Type} {attr : α → Attr} {R : ℕ × Value → α → Prop}
    {calls : List (ℕ × Value)} {written : List Plain}
    (each : ∀ call ∈ calls, ∀ p, Wrote call p → ∃ x, R call x ∧ Covers (attr x) p)
    (wrote : List.Forall₂ Wrote calls written) :
    ∃ xs, List.Forall₂ R calls xs ∧ List.Forall₂ (fun x p => Covers (attr x) p) xs written := by
  induction wrote with
  | nil => exact ⟨[], .nil, .nil⟩
  | cons here later ih =>
      obtain ⟨x, related, covers⟩ := each _ List.mem_cons_self _ here
      obtain ⟨xs, others, covered⟩ := ih fun call mem => each call (List.mem_cons_of_mem _ mem)
      exact ⟨x :: xs, .cons related others, .cons covers covered⟩

/-- A reply with the attributes of a message carries whatever covers them. -/
theorem carries_of_covers {α : Type} {attr : α → Attr} {xs : List α} {written : List Plain}
    {message : Reply} (framed : Framed written message.attrs)
    (covers : List.Forall₂ (fun x p => Covers (attr x) p) xs written) :
    Carries attr xs message := by
  obtain ⟨length, fills⟩ := layout_covers 0 covers
  exact ⟨0, Nat.zero_le 3, framed.1.trans length.symm, fills _ framed.2⟩

end Nlcpp.Encoding

/-! ### Families -/

namespace Nlcpp.Encoding

open Ctrl Tlv

/-- The group that these calls describe. -/
def Puts.group (puts : Puts) : Option MulticastGroup :=
  match (puts.last CTRL_ATTR_MCAST_GRP_NAME).bind Value.text?,
    (puts.last CTRL_ATTR_MCAST_GRP_ID).bind Value.number? with
  | some name, some id => some { name, id := id.toInt32 }
  | _, _ => none

def Value.group : Value → Option MulticastGroup
  | .nested inner => inner.group
  | .flat _ => none

def Value.groups : Value → List MulticastGroup
  | .nested inner => inner.calls.filterMap fun call => call.2.group
  | .flat _ => []

/-- The family that these calls describe: the last value given for each field. -/
def Puts.family (puts : Puts) : GenericFamily where
  name := ((puts.last CTRL_ATTR_FAMILY_NAME).bind Value.text?).getD []
  id := ((puts.last CTRL_ATTR_FAMILY_ID).bind Value.number?).elim 0 UInt32.toInt32
  multicastGroups := ((puts.last CTRL_ATTR_MCAST_GROUPS).map Value.groups).getD []

/-- A name is a string, and an id a number of four bytes. -/
structure Puts.GroupForm (puts : Puts) : Prop where
  name : ∀ call ∈ puts.calls, call.1 = CTRL_ATTR_MCAST_GRP_NAME → call.2.text?.isSome
  id : ∀ call ∈ puts.calls, call.1 = CTRL_ATTR_MCAST_GRP_ID → call.2.number?.isSome

/-- Every element is a nested message with a group. -/
def Value.GroupsForm (value : Value) : Prop :=
  ∃ inner, value = .nested inner ∧
    ∀ call ∈ inner.calls, ∃ group, call.2 = .nested group ∧ group.GroupForm

/-- Every field is put in the form that the parser expects. -/
structure Puts.FamilyForm (puts : Puts) : Prop where
  name : ∀ call ∈ puts.calls, call.1 = CTRL_ATTR_FAMILY_NAME → call.2.text?.isSome
  id : ∀ call ∈ puts.calls, call.1 = CTRL_ATTR_FAMILY_ID → call.2.number?.isSome
  groups : ∀ call ∈ puts.calls, call.1 = CTRL_ATTR_MCAST_GROUPS → call.2.GroupsForm

theorem Puts.Writes.groupOf {puts : Puts} {g : Group} (writes : puts.Writes g.inner)
    (form : puts.GroupForm) :
    groupOf g = puts.group ∧
      (∀ p ∈ g.inner, (Plain.attr p).kind = CTRL_ATTR_MCAST_GRP_NAME → 0 ∈ p.bytes) ∧
      ∀ p ∈ g.inner, (Plain.attr p).kind = CTRL_ATTR_MCAST_GRP_ID → p.bytes.length = 4 := by
  have same (call : ℕ × Value) (p : Plain) (wrote : Wrote call p) :
      call.1 = (Plain.attr p).kind := wrote.1.symm
  obtain ⟨name, terminated⟩ := last_read (fun p => (Plain.attr p).kind) Plain.bytes Value.Payload
    Value.text? Value.payload_text same (fun _ _ wrote _ => wrote.2) form.name writes.calls
  obtain ⟨id, four⟩ := last_read (fun p => (Plain.attr p).kind) Plain.bytes Value.Payload
    Value.number? Value.payload_number same (fun _ _ wrote _ => wrote.2) form.id writes.calls
  refine ⟨?_, terminated, four⟩
  simp only [Ctrl.groupOf, Puts.group, Puts.last, name, id]
  cases lastOf (fun p => (Plain.attr p).kind) CTRL_ATTR_MCAST_GRP_NAME g.inner with
  | none => rfl
  | some name =>
      cases lastOf (fun p => (Plain.attr p).kind) CTRL_ATTR_MCAST_GRP_ID g.inner with
      | none => rfl
      | some id => rfl

/-- A group that is written as its calls describe it. -/
structure TellsGroup (call : ℕ × Value) (g : Group) : Prop where
  group : Ctrl.groupOf g = call.2.group
  name : ∀ p ∈ g.inner, (Plain.attr p).kind = CTRL_ATTR_MCAST_GRP_NAME → 0 ∈ p.bytes
  id : ∀ p ∈ g.inner, (Plain.attr p).kind = CTRL_ATTR_MCAST_GRP_ID → p.bytes.length = 4

theorem filterMap_groupOf {calls : List (ℕ × Value)} {groups : List Group}
    (tell : List.Forall₂ TellsGroup calls groups) :
    groups.filterMap Ctrl.groupOf = calls.filterMap fun call => call.2.group := by
  induction tell with
  | nil => rfl
  | cons here _ ih => rw [List.filterMap_cons, List.filterMap_cons, here.group, ih]

/-- The elements of a list of groups, as they are written. -/
theorem Value.GroupsForm.covers {value : Value} {p : Plain} (form : value.GroupsForm)
    (payload : value.Payload p.bytes) :
    ∃ groups : Nest Group.attr, Covers groups.attr p ∧
      groups.inner.filterMap Ctrl.groupOf = value.groups ∧
      ∀ g ∈ groups.inner, ∃ call, TellsGroup call g := by
  obtain ⟨inner, rfl, forms⟩ := form
  obtain ⟨own, framed, writes⟩ := payload
  have each : ∀ call ∈ inner.calls, ∀ q, Wrote call q →
      ∃ g, TellsGroup call g ∧ Covers (Group.attr g) q := by
    rintro call mem q ⟨-, holds⟩
    obtain ⟨puts, nested, form⟩ := forms call mem
    rw [nested] at holds
    obtain ⟨plains, framedGroup, writesGroup⟩ := holds
    obtain ⟨g, same, covers⟩ := framedGroup.covers
    obtain ⟨group, name, id⟩ := Puts.Writes.groupOf (g := g) (same ▸ writesGroup) form
    exact ⟨g, ⟨by rw [group, nested]; rfl, name, id⟩, covers⟩
  obtain ⟨groups, tell, covered⟩ := exists_covers each writes.calls
  obtain ⟨length, fills⟩ := layout_covers 0 covered
  have whole : (layout 0 (groups.map Group.attr)).length = p.bytes.length :=
    length.trans framed.1.symm
  refine ⟨⟨p.type, groups, 0, whole ▸ p.fits⟩, ⟨rfl, whole, fills _ framed.2⟩,
    filterMap_groupOf tell, fun g mem => ?_⟩
  obtain ⟨call, -, tells⟩ := exists_call tell mem
  exact ⟨call, tells⟩

/-- A top-level attribute that is written as its call says. -/
structure Tells (call : ℕ × Value) (a : FamilyAttr) : Prop where
  kind : call.1 = a.kind
  payload : a.kind ≠ CTRL_ATTR_MCAST_GROUPS → call.2.Payload a.bytes
  groups : a.kind = CTRL_ATTR_MCAST_GROUPS → a.entries.filterMap Ctrl.groupOf = call.2.groups
  entries : ∀ g ∈ a.entries, ∃ call, TellsGroup call g

theorem Puts.FamilyForm.covers {puts : Puts} {written : List Plain} (form : puts.FamilyForm)
    (writes : puts.Writes written) :
    ∃ attrs, List.Forall₂ Tells puts.calls attrs ∧
      List.Forall₂ (fun a p => Covers (FamilyAttr.attr a) p) attrs written := by
  refine exists_covers (fun call mem p wrote => ?_) writes.calls
  obtain ⟨kind, payload⟩ := wrote
  by_cases mcast : call.1 = CTRL_ATTR_MCAST_GROUPS
  · obtain ⟨groups, covers, same, each⟩ := (form.groups call mem mcast).covers payload
    have type : groups.attr.kind = call.1 := by rw [← kind, Attr.kind, Attr.kind, covers.type]; rfl
    exact ⟨.groups groups (type.trans mcast),
      ⟨type.symm, fun other => absurd (type.trans mcast) other, fun _ => same, each⟩, covers⟩
  · have other : p.attr.kind ≠ CTRL_ATTR_MCAST_GROUPS := kind ▸ mcast
    refine ⟨.plain p other, ⟨kind.symm, fun _ => payload, fun mcast => absurd mcast other, ?_⟩,
      rfl, List.length_map _, fills_some _⟩
    intro g mem
    cases mem

theorem Puts.FamilyForm.familyOf {puts : Puts} (form : puts.FamilyForm) {attrs : List FamilyAttr}
    (tell : List.Forall₂ Tells puts.calls attrs) :
    Ctrl.familyOf {} attrs = puts.family ∧ Typed attrs := by
  have same (call : ℕ × Value) (a : FamilyAttr) (tells : Tells call a) : call.1 = a.kind :=
    tells.kind
  obtain ⟨name, terminated⟩ := last_read FamilyAttr.kind FamilyAttr.bytes Value.Payload Value.text?
    Value.payload_text same (fun _ _ tells this => tells.payload (this ▸ by decide)) form.name tell
  obtain ⟨id, four⟩ := last_read FamilyAttr.kind FamilyAttr.bytes Value.Payload Value.number?
    Value.payload_number same (fun _ _ tells this => tells.payload (this ▸ by decide)) form.id tell
  have written {value : Value} {entries : List Group} {groups : List MulticastGroup}
      (holds : entries.filterMap Ctrl.groupOf = value.groups)
      (given : some value.groups = some groups) :
      True ∧ entries.filterMap Ctrl.groupOf = groups :=
    ⟨trivial, holds.trans (Option.some.inj given)⟩
  have groups := (last_read FamilyAttr.kind FamilyAttr.entries
    (fun entries value => entries.filterMap Ctrl.groupOf = value.groups)
    (fun value => some value.groups) written same (fun _ _ tells this => tells.groups this)
    (fun _ _ _ => rfl) tell).1
  constructor
  · rw [← Function.comp_def, ← Option.map_eq_bind] at groups
    simp only [Ctrl.familyOf, Puts.family, Puts.last, name, id, groups, List.nil_append]
    congr 1
    · cases lastOf FamilyAttr.kind CTRL_ATTR_FAMILY_NAME attrs <;> rfl
    · cases lastOf FamilyAttr.kind CTRL_ATTR_FAMILY_ID attrs <;> rfl
    · cases lastOf FamilyAttr.kind CTRL_ATTR_MCAST_GROUPS attrs <;> rfl
  · have tellsGroup {a : FamilyAttr} (mem : a ∈ attrs) :
        ∀ g ∈ a.entries, ∃ call, TellsGroup call g := by
      obtain ⟨call, -, tells⟩ := exists_call tell mem
      exact tells.entries
    refine ⟨terminated, four, fun a mem g inside => ?_, fun a mem g inside => ?_⟩
    · obtain ⟨call, tells⟩ := tellsGroup mem g inside
      exact tells.name
    · obtain ⟨call, tells⟩ := tellsGroup mem g inside
      exact tells.id

end Nlcpp.Encoding

namespace Nlcpp.Ctrl

open Tlv Encoding

/-- **A family is read as it was described**: whatever else was put, in whatever order and
however often, the name and the id are the last ones that were given, and the groups those
of the last list, in order, each with a name and an id. -/
theorem parse_described {N : Nla} (documented : N.Documented) {capacity : ℕ}
    (appends : Appends N capacity) {puts : Puts} (returns : puts.Returns N newMessage)
    (form : puts.FamilyForm) {message : Reply}
    (sent : message.attrs = (puts.build N newMessage).attrs) :
    parseGenericFamily N {} message = puts.family := by
  obtain ⟨written, writes, framed⟩ := writes_of_returns appends puts framed_nil returns
  rw [List.nil_append, ← sent] at framed
  obtain ⟨attrs, tell, covers⟩ := form.covers writes
  have carries := carries_of_covers framed covers
  obtain ⟨same, typed⟩ := form.familyOf tell
  rw [parseGenericFamily_outline documented carries, Outline.family,
    outline_name documented carries typed, outline_id documented carries typed,
    outline_groups documented carries typed, ← same]
  rfl

end Nlcpp.Ctrl

/-! ### Interfaces -/

namespace Nlcpp.Encoding

open Nl80211 Tlv

/-- A hardware address: six bytes, whatever member puts them. -/
def Value.mac? : Value → Option (Vector UInt8 6)
  | .flat (.bytes value) | .flat (.vector value) | .flat (.subrange value)
  | .flat (.address value) =>
    if six : value.length = 6 then some ⟨value.toArray, by simpa using six⟩ else none
  | _ => none

/-- A flag of one byte. -/
def Value.flag? : Value → Option Bool
  | .flat (.u8 value) => some (value != 0)
  | _ => none

/-- The configuration that these calls describe: the last value given for each field. -/
def Puts.interface (puts : Puts) : InterfaceConfiguration where
  ifindex := ((puts.last NL80211_ATTR_IFINDEX).bind Value.number?).getD 0
  wiphy := ((puts.last NL80211_ATTR_WIPHY).bind Value.number?).getD 0
  iftype := ((puts.last NL80211_ATTR_IFTYPE).bind Value.number?).elim 0 UInt32.toInt32
  mac := ((puts.last NL80211_ATTR_MAC).bind Value.mac?).getD (Vector.replicate 6 0)
  use4addr := ((puts.last NL80211_ATTR_4ADDR).bind Value.flag?).getD false

/-- Every field is put in the form that the parser expects. -/
structure Puts.InterfaceForm (puts : Puts) : Prop where
  ifindex : ∀ call ∈ puts.calls, call.1 = NL80211_ATTR_IFINDEX → call.2.number?.isSome
  wiphy : ∀ call ∈ puts.calls, call.1 = NL80211_ATTR_WIPHY → call.2.number?.isSome
  iftype : ∀ call ∈ puts.calls, call.1 = NL80211_ATTR_IFTYPE → call.2.number?.isSome
  mac : ∀ call ∈ puts.calls, call.1 = NL80211_ATTR_MAC → call.2.mac?.isSome
  use4addr : ∀ call ∈ puts.calls, call.1 = NL80211_ATTR_4ADDR → call.2.flag?.isSome

theorem Value.payload_mac {value : Value} {bytes : List UInt8} {mac : Vector UInt8 6}
    (payload : value.Payload bytes) (given : value.mac? = some mac) : bytes = mac.toList := by
  have whole {data : List UInt8} (six : data.length = 6)
      (read : bytes = data.take (toInt data.length).toNat)
      (same : (⟨data.toArray, by simpa using six⟩ : Vector UInt8 6) = mac) :
      bytes = mac.toList := by
    rw [six] at read
    rw [read, ← same]
    exact List.take_of_length_le (by rw [six]; decide)
  cases value with
  | nested inner => cases given
  | flat call =>
      cases call with
      | bytes data | vector data | subrange data | address data =>
          simp only [mac?, Option.dite_none_right_eq_some, Option.some.injEq] at given
          obtain ⟨six, same⟩ := given
          exact whole six payload same
      | _ => cases given

theorem Value.payload_flag {value : Value} {bytes : List UInt8} {flag : Bool}
    (payload : value.Payload bytes) (given : value.flag? = some flag) :
    ∃ b, bytes = [b] ∧ (b != 0) = flag := by
  cases value with
  | nested inner => cases given
  | flat call =>
      cases call with
      | u8 value =>
          cases given
          refine ⟨value, payload.trans ?_, rfl⟩
          simp [Flat.data, Flat.length, hostBytes]
      | _ => cases given

end Nlcpp.Encoding

namespace Nlcpp.Nl80211

open Tlv Encoding

section Parser

variable {N : Nla} (documented : N.Documented) {attrMax : ℕ} {message : Reply}
  {attrs : List Plain} {calls : List (ℕ × Value)}

include documented in
/-- What an accessor reads for a type is the value of its last call, when it reads the value of
any call right. -/
theorem read_last {β : Type} {type : ℕ} {value? : Value → Option β} {accessor : AttrRef → β}
    (reads : ∀ {value attr bytes b}, value.Payload bytes → value? value = some b →
      Fills (bytes.map some) (message.memory.drop attr.payload) → accessor attr = b)
    (positive : 0 < type) (indexable : type ≤ attrMax) (carries : Carries Plain.attr attrs message)
    (wrote : List.Forall₂ Wrote calls attrs)
    (form : ∀ call ∈ calls, call.1 = type → (value? call.2).isSome) :
    (N.nlaParse attrMax message.memory 0 message.attrs.length type).map accessor =
      ((lastOf Prod.fst type calls).map Prod.snd).bind value? := by
  have both := (List.forall₂_and_left _ _).mpr ⟨form, wrote⟩
  have last : Option.Rel _ (lastOf Prod.fst type calls)
      (lastOf (fun p => (Plain.attr p).kind) type attrs) :=
    lastOf_rel type (fun call p here => here.2.1.symm) both
  rw [lastOf_eq Plain.attr 0] at last
  rw [documented.parse_reply carries attrMax positive, if_pos indexable]
  cases found : lastPlaced Plain.attr type 0 attrs with
  | none =>
      rw [found] at last
      cases given : lastOf Prod.fst type calls with
      | none => rfl
      | some call =>
          rw [given] at last
          cases last
  | some e =>
      rw [found] at last
      cases given : lastOf Prod.fst type calls with
      | none =>
          rw [given] at last
          cases last
      | some call =>
          rw [given] at last
          obtain ⟨form, kind, payload⟩ : _ ∧ Wrote call e.2 := by cases last; assumption
          obtain ⟨mem, this⟩ := lastOf_mem found
          obtain ⟨b, value⟩ := Option.isSome_iff_exists.mp (form (kind.symm.trans this))
          have read : accessor (.of Plain.attr e) = b :=
            reads payload value (carries.fills_start.placed mem)
          simp only [Option.map_some, Option.bind_some, value, read]

/-- A field of the parser is set to what was read, or left. -/
theorem field_elim {β : Type} {found : Option AttrRef} {accessor : AttrRef → β} {read : Option β}
    (set : β → InterfaceConfiguration) (otherwise : InterfaceConfiguration) :
    found.map accessor = read →
    (match found with
      | some attr => set (accessor attr)
      | none => otherwise) = read.elim otherwise set := by
  rintro rfl
  cases found <;> rfl

end Parser

/-- **An interface is read as it was described**: each field has the last value that was given
for it, and zero when none was. -/
theorem parse_interface_described {N : Nla} (documented : N.Documented) {capacity : ℕ}
    (appends : Appends N capacity) {attrMax : ℕ} (indexable : NL80211_ATTR_4ADDR ≤ attrMax)
    {puts : Puts} (returns : puts.Returns N newMessage) (form : puts.InterfaceForm)
    {message : Reply} (sent : message.attrs = (puts.build N newMessage).attrs) :
    parseInterfaceConfiguration N attrMax {} message = puts.interface := by
  obtain ⟨written, writes, framed⟩ := writes_of_returns appends puts framed_nil returns
  rw [List.nil_append, ← sent] at framed
  have carries : Carries Plain.attr written message := ⟨0, Nat.zero_le 3, framed.1, framed.2⟩
  have number {value : Value} {attr : AttrRef} {bytes : List UInt8} {b : UInt32}
      (payload : value.Payload bytes) (given : value.number? = some b)
      (fills : Fills (bytes.map some) (message.memory.drop attr.payload)) :
      N.nlaGetU32 message.memory attr = b := by
    obtain ⟨four, read⟩ := Value.payload_number payload given
    rw [Ctrl.getU32_payload documented fills four, read]
  have flag {value : Value} {attr : AttrRef} {bytes : List UInt8} {b : Bool}
      (payload : value.Payload bytes) (given : value.flag? = some b)
      (fills : Fills (bytes.map some) (message.memory.drop attr.payload)) :
      (N.nlaGetU8 message.memory attr != 0) = b := by
    obtain ⟨byte, single, same⟩ := Value.payload_flag payload given
    rw [getU8_single documented fills single, same]
  have below {type : ℕ} (le : type ≤ NL80211_ATTR_4ADDR) : type ≤ attrMax := le.trans indexable
  unfold parseInterfaceConfiguration
  extract_lets memory tb_msg withIfindex withWiphy withIftype withMac
  have ifindex : withIfindex = _ := field_elim
    (fun value => { ifindex := value : InterfaceConfiguration }) {}
    (read_last documented number (by decide) (below (by decide)) carries writes.calls form.ifindex)
  have wiphy : withWiphy = _ := field_elim (fun value => { withIfindex with wiphy := value })
    withIfindex
    (read_last documented number (by decide) (below (by decide)) carries writes.calls form.wiphy)
  have iftype : withIftype = _ := field_elim
    (fun value : UInt32 => { withWiphy with iftype := value.toInt32 }) withWiphy
    (read_last documented number (by decide) (below (by decide)) carries writes.calls form.iftype)
  have mac : withMac = _ := field_elim (fun value => { withIftype with mac := value }) withIftype
    (read_last documented
      (fun payload given fills => copyMac_toList fills (Value.payload_mac payload given))
      (by decide) (below (by decide)) carries writes.calls form.mac)
  refine (field_elim (fun value => { withMac with use4addr := value }) withMac
    (read_last documented flag (by decide) indexable carries writes.calls
      form.use4addr)).trans ?_
  rw [mac, iftype, wiphy, ifindex]
  unfold Puts.interface Puts.last
  cases ((lastOf Prod.fst NL80211_ATTR_IFINDEX puts.calls).map Prod.snd).bind Value.number? <;>
    cases ((lastOf Prod.fst NL80211_ATTR_WIPHY puts.calls).map Prod.snd).bind Value.number? <;>
    cases ((lastOf Prod.fst NL80211_ATTR_IFTYPE puts.calls).map Prod.snd).bind Value.number? <;>
    cases ((lastOf Prod.fst NL80211_ATTR_MAC puts.calls).map Prod.snd).bind Value.mac? <;>
    cases ((lastOf Prod.fst NL80211_ATTR_4ADDR puts.calls).map Prod.snd).bind Value.flag? <;> rfl

end Nlcpp.Nl80211

/-! ### The calls that describe a record -/

namespace Nlcpp.Encoding

open Ctrl Nl80211

/-- A name that a string attribute can hold. -/
def Spelled (name : List UInt8) : Prop := 0 ∉ name ∧ name.length < 0x7fffffff

instance : DecidablePred Spelled := fun name =>
  inferInstanceAs (Decidable (0 ∉ name ∧ name.length < 0x7fffffff))

/-- The calls that describe a group. -/
def groupPuts (group : MulticastGroup) : Puts :=
  .flat ⟨CTRL_ATTR_MCAST_GRP_NAME, by decide, by decide⟩ (.string group.name) <|
    .flat ⟨CTRL_ATTR_MCAST_GRP_ID, by decide, by decide⟩ (.u32 group.id.toUInt32) .done

/-- One nested message for each group. -/
def groupsPuts (element : AttrType) : List MulticastGroup → Puts
  | [] => .done
  | group :: groups => .nested element (groupPuts group) (groupsPuts element groups)

/-- The calls that describe a family; `element` is the type of the elements of its groups. -/
def familyPuts (element : AttrType) (family : GenericFamily) : Puts :=
  .flat ⟨CTRL_ATTR_FAMILY_NAME, by decide, by decide⟩ (.string family.name) <|
    .flat ⟨CTRL_ATTR_FAMILY_ID, by decide, by decide⟩ (.u32 family.id.toUInt32) <|
      .nested ⟨CTRL_ATTR_MCAST_GROUPS, by decide, by decide⟩
        (groupsPuts element family.multicastGroups) .done

/-- The calls that describe an interface. -/
def interfacePuts (interface : InterfaceConfiguration) : Puts :=
  .flat ⟨NL80211_ATTR_IFINDEX, by decide, by decide⟩ (.u32 interface.ifindex) <|
    .flat ⟨NL80211_ATTR_WIPHY, by decide, by decide⟩ (.u32 interface.wiphy) <|
      .flat ⟨NL80211_ATTR_IFTYPE, by decide, by decide⟩ (.u32 interface.iftype.toUInt32) <|
        .flat ⟨NL80211_ATTR_MAC, by decide, by decide⟩ (.vector interface.mac.toList) <|
          .flat ⟨NL80211_ATTR_4ADDR, by decide, by decide⟩
            (.u8 (if interface.use4addr then 1 else 0)) .done

/-- Every name of the family can be put. -/
structure Nameable (family : GenericFamily) : Prop where
  name : Spelled family.name
  groups : ∀ group ∈ family.multicastGroups, Spelled group.name

theorem text_spelled {name : List UInt8} (spelled : Spelled name) :
    (Value.flat (.string name)).text? = some name := by
  rw [Value.text?, cStr_eq_iff.mpr spelled.1, if_pos spelled.2]

theorem length_spelled {name : List UInt8} (spelled : Spelled name) :
    0 ≤ (Flat.string name).length := by
  have few := spelled.2
  rw [Flat.length, cStr_eq_iff.mpr spelled.1]
  unfold toInt
  split <;> omega

theorem groupPuts_group {group : MulticastGroup} (spelled : Spelled group.name) :
    (groupPuts group).group = some group ∧ (groupPuts group).GroupForm ∧
      (groupPuts group).Lengths := by
  have text := text_spelled spelled
  refine ⟨?_, ⟨?_, ?_⟩, length_spelled spelled, Int.zero_le_ofNat 4, trivial⟩
  · have name : (groupPuts group).last CTRL_ATTR_MCAST_GRP_NAME =
        some (.flat (.string group.name)) := rfl
    have id : (groupPuts group).last CTRL_ATTR_MCAST_GRP_ID =
        some (.flat (.u32 group.id.toUInt32)) := rfl
    rw [Puts.group, name, id, Option.bind_some, text]
    rfl
  all_goals
    simp [groupPuts, Puts.calls, CTRL_ATTR_MCAST_GRP_NAME, CTRL_ATTR_MCAST_GRP_ID, text,
      Value.number?]

theorem groupsPuts_calls (element : AttrType) (groups : List MulticastGroup) :
    (groupsPuts element groups).calls =
      groups.map fun group => (element.number, .nested (groupPuts group)) := by
  induction groups with
  | nil => rfl
  | cons group groups ih => rw [groupsPuts, Puts.calls, ih, List.map_cons]

theorem groupsPuts_groups (element : AttrType) {groups : List MulticastGroup}
    (spelled : ∀ group ∈ groups, Spelled group.name) :
    (Value.nested (groupsPuts element groups)).groups = groups ∧
      (Value.nested (groupsPuts element groups)).GroupsForm ∧
      (groupsPuts element groups).Lengths := by
  refine ⟨?_, ⟨_, rfl, ?_⟩, ?_⟩
  · have each : ∀ group ∈ groups,
        (Value.nested (groupPuts group)).group = some group := fun group mem =>
      (groupPuts_group (spelled group mem)).1
    rw [Value.groups, groupsPuts_calls, List.filterMap_map]
    exact (List.filterMap_congr each).trans (List.filterMap_some)
  · rw [groupsPuts_calls]
    intro call mem
    obtain ⟨group, inside, rfl⟩ := List.mem_map.mp mem
    exact ⟨_, rfl, (groupPuts_group (spelled group inside)).2.1⟩
  · induction groups with
    | nil => trivial
    | cons group groups ih =>
        obtain ⟨first, others⟩ := List.forall_mem_cons.mp spelled
        exact ⟨(groupPuts_group first).2.2, ih others⟩

theorem familyPuts_family (element : AttrType) {family : GenericFamily}
    (nameable : Nameable family) :
    (familyPuts element family).family = family ∧ (familyPuts element family).FamilyForm ∧
      (familyPuts element family).Lengths := by
  have text := text_spelled nameable.name
  obtain ⟨groups, form, lengths⟩ := groupsPuts_groups element nameable.groups
  refine ⟨?_, ⟨?_, ?_, ?_⟩, length_spelled nameable.name, Int.zero_le_ofNat 4, lengths, trivial⟩
  · have name : (familyPuts element family).last CTRL_ATTR_FAMILY_NAME =
        some (.flat (.string family.name)) := rfl
    have id : (familyPuts element family).last CTRL_ATTR_FAMILY_ID =
        some (.flat (.u32 family.id.toUInt32)) := rfl
    have list : (familyPuts element family).last CTRL_ATTR_MCAST_GROUPS =
        some (.nested (groupsPuts element family.multicastGroups)) := rfl
    rw [Puts.family, name, id, list, Option.bind_some, text, Option.map_some, groups]
    rfl
  all_goals
    simp [familyPuts, Puts.calls, CTRL_ATTR_FAMILY_NAME, CTRL_ATTR_FAMILY_ID,
      CTRL_ATTR_MCAST_GROUPS, text, form, Value.number?]

theorem interfacePuts_interface (interface : InterfaceConfiguration) :
    (interfacePuts interface).interface = interface ∧ (interfacePuts interface).InterfaceForm ∧
      (interfacePuts interface).Lengths := by
  have six : toInt 6 = 6 := rfl
  have mac : (Value.flat (.vector interface.mac.toList)).mac? = some interface.mac := by
    rw [Value.mac?, dif_pos Vector.length_toList]
    rfl
  have flag : (Value.flat (.u8 (if interface.use4addr then 1 else 0))).flag? =
      some interface.use4addr := by
    cases interface.use4addr <;> rfl
  refine ⟨?_, ?_, ?_⟩
  · have address : (interfacePuts interface).last NL80211_ATTR_MAC =
        some (.flat (.vector interface.mac.toList)) := rfl
    have byte : (interfacePuts interface).last NL80211_ATTR_4ADDR =
        some (.flat (.u8 (if interface.use4addr then 1 else 0))) := rfl
    rw [Puts.interface, address, byte, Option.bind_some, Option.bind_some, mac, flag]
    rfl
  · constructor <;>
      simp [interfacePuts, Puts.calls, NL80211_ATTR_IFINDEX, NL80211_ATTR_WIPHY,
        NL80211_ATTR_IFTYPE, NL80211_ATTR_MAC, NL80211_ATTR_4ADDR, Value.number?, mac, flag]
  · simp [interfacePuts, Puts.Lengths, Flat.length, six]

end Nlcpp.Encoding

/-! ### Requests -/

namespace Nlcpp

open Encoding

/-- The reply has the attributes of a message that was put together by these calls. -/
structure Describes (N : Nla) (form : Puts → Prop) (reply : Reply) (puts : Puts) : Prop where
  returns : puts.Returns N newMessage
  form : form puts
  sent : reply.attrs = (puts.build N newMessage).attrs

/-- Each reply is parsed as what it was made of. -/
theorem map_parse {α β : Type} {Sent : Reply → α → Prop} {parse : Reply → β} {record : α → β}
    {replies : List Reply} {described : List α}
    (read : ∀ d ∈ described, ∀ reply, Sent reply d → parse reply = record d)
    (sent : List.Forall₂ Sent replies described) :
    replies.map parse = described.map record := by
  induction sent with
  | nil => rfl
  | cons here _ ih =>
      obtain ⟨first, others⟩ := List.forall_mem_cons.mp read
      rw [List.map_cons, List.map_cons, first _ here, ih others]

section Requests

variable {L : Libnl Reply} {N : Nla} {conduct : Conduct Reply} {w : World Reply}
  {a : Answer Reply w.nl.seqNext} {attrMax : ℕ} {family : ℤ} {lambda : Closure}

section Returns

variable (arrived : w.nl.incoming = a.queue) (suits : a.Suits w)

include arrived suits

/-- A request whose answer suits the socket returns what is made of the replies in it. -/
theorem comeBack_answered {α : Type} {message : Message} (result : List Reply → α) :
    ∃ w', (exchangeOf (conduct.sparing lambda) w (some lambda)).comeBack L message w (some lambda)
        (fun passed => result (passed.filterMap NlMsg.payload?)) =
      .returned (result (a.delivered.filterMap NlMsg.payload?)) w' := by
  obtain ⟨q, ended, passed⟩ := (exchange_taken_iff a w).mpr suits
  rw [comeBack_returned_iff, exchangeOf, Conduct.fails_calm (conduct.sparing_silent lambda),
    arrived]
  exact ⟨q, a.after, ended, by rw [passed, payloads_answer]⟩

theorem getFamilies_answered :
    ∃ w', (Ctrl.getFamilies L N conduct.call lambda).run w =
      .returned ((a.delivered.filterMap NlMsg.payload?).map (Ctrl.parseGenericFamily N {})) w' := by
  rw [getFamilies_exchange]
  exact comeBack_answered arrived suits (List.map (Ctrl.parseGenericFamily N {}))

theorem getFamily_answered {name : List UInt8}
    (put : (putString N Ctrl.askFamily Ctrl.CTRL_ATTR_FAMILY_NAME name).1 = .ok ()) :
    ∃ w', (Ctrl.getFamily L N conduct.call name lambda).run w =
      .returned (((a.delivered.filterMap NlMsg.payload?).map
        (Ctrl.parseGenericFamily N {})).getLast?) w' := by
  rw [getFamily_exchange L conduct w put, List.getLast?_map]
  exact comeBack_answered arrived suits fun replies =>
    replies.getLast?.map (Ctrl.parseGenericFamily N {})

theorem getInterfaces_answered :
    ∃ w', (Nl80211.getInterfaces L N conduct.call attrMax family lambda).run w =
      .returned ((a.delivered.filterMap NlMsg.payload?).map
        (Nl80211.parseInterfaceConfiguration N attrMax {})) w' := by
  rw [getInterfaces_exchange]
  exact comeBack_answered arrived suits
    (List.map (Nl80211.parseInterfaceConfiguration N attrMax {}))

theorem getInterface_answered {ifindex : UInt32}
    (put : (put_u32 N (Nl80211.askInterface family) Nl80211.NL80211_ATTR_IFINDEX ifindex).1 =
      .ok ()) :
    ∃ w', (Nl80211.getInterface L N conduct.call attrMax family ifindex lambda).run w =
      .returned (((a.delivered.filterMap NlMsg.payload?).map
        (Nl80211.parseInterfaceConfiguration N attrMax {})).getLast?) w' := by
  rw [getInterface_exchange L conduct w attrMax family lambda put, List.getLast?_map]
  exact comeBack_answered arrived suits fun replies =>
    replies.getLast?.map (Nl80211.parseInterfaceConfiguration N attrMax {})

end Returns

end Requests

/-- **A request returns what the other side described**, when the answer suits the socket:
record by record and in order for a dump, and the last one for a single request, whose name or
index can be put. -/
theorem requests_described {N : Nla} (documented : N.Documented) {capacity : ℕ}
    (appends : Appends N capacity) {attrMax : ℕ} (indexable : Nl80211.NL80211_ATTR_4ADDR ≤ attrMax)
    (L : Libnl Reply) (conduct : Conduct Reply) (w : World Reply) (a : Answer Reply w.nl.seqNext)
    (arrived : w.nl.incoming = a.queue) (suits : a.Suits w) (family : ℤ) (lambda : Closure)
    (described : List Puts) :
    (List.Forall₂ (Describes N Puts.FamilyForm) (a.delivered.filterMap NlMsg.payload?) described →
      (∃ w', (Ctrl.getFamilies L N conduct.call lambda).run w =
        .returned (described.map Puts.family) w') ∧
      ∀ name, (putString N Ctrl.askFamily Ctrl.CTRL_ATTR_FAMILY_NAME name).1 = .ok () →
        ∃ w', (Ctrl.getFamily L N conduct.call name lambda).run w =
          .returned (described.map Puts.family).getLast? w') ∧
    (List.Forall₂ (Describes N Puts.InterfaceForm) (a.delivered.filterMap NlMsg.payload?)
        described →
      (∃ w', (Nl80211.getInterfaces L N conduct.call attrMax family lambda).run w =
        .returned (described.map Puts.interface) w') ∧
      ∀ ifindex, (put_u32 N (Nl80211.askInterface family) Nl80211.NL80211_ATTR_IFINDEX ifindex).1 =
          .ok () →
        ∃ w', (Nl80211.getInterface L N conduct.call attrMax family ifindex lambda).run w =
          .returned (described.map Puts.interface).getLast? w') := by
  constructor
  · intro describes
    rw [← map_parse (fun _ _ _ d =>
      Ctrl.parse_described documented appends d.returns d.form d.sent) describes]
    exact ⟨getFamilies_answered arrived suits,
      fun _ put => getFamily_answered arrived suits put⟩
  · intro describes
    rw [← map_parse (fun _ _ _ d =>
      Nl80211.parse_interface_described documented appends indexable d.returns d.form d.sent)
      describes]
    exact ⟨getInterfaces_answered arrived suits,
      fun _ put => getInterface_answered arrived suits put⟩

/-- A reply with the attributes of a message that was put together by these calls. -/
def replyOf (puts : Puts) : Reply :=
  { cmd := 1, version := 2, attrs := (puts.build Nla.reference newMessage).attrs, beyond := [] }

/-- The answer to request 7 with these replies. -/
def answerSeven (replies : List Reply) : Answer Reply 7 where
  before := []
  data := replies.map fun reply => { NlMsg.of 7 (.data reply) with multi := true }
  terminal := .of 7 .done
  tail := []
  after := []
  precedes := by simp
  own := by
    intro m mem
    rcases List.mem_append.mp mem with reply | last
    · obtain ⟨reply, -, rfl⟩ := List.mem_map.mp reply
      rfl
    · rw [List.mem_singleton.mp last]
      rfl
  isData := by simp [NlMsg.of, NlMsg.isData]
  isTerminal := rfl

/-- A family with two groups, and one without. -/
def twoFamilies : List GenericFamily :=
  [{ name := [110, 108], id := 28, multicastGroups := [⟨[97], 5⟩, ⟨[98], -1⟩] }, ⟨[120], 29, []⟩]

def twoFamilyPuts : List Puts := twoFamilies.map (familyPuts ⟨4, by decide, by decide⟩)

theorem twoFamilies_fit : ∀ f ∈ twoFamilies,
    Nameable f ∧ (familyPuts ⟨4, by decide, by decide⟩ f).size ≤ 4076 := by
  refine List.forall_mem_cons.mpr ⟨⟨⟨by decide, by decide⟩, by decide⟩,
    List.forall_mem_cons.mpr ⟨⟨⟨by decide, by decide⟩, by decide⟩, List.forall_mem_nil _⟩⟩

theorem twoFamilies_requested :
    ∃ w', (Ctrl.getFamily (.reference Reply) .reference Conduct.quiet.call [120] 2).run
        ((World.opened Reply 7 0).arrive (answerSeven (twoFamilyPuts.map replyOf)).queue) =
      .returned (some ⟨[120], 29, []⟩) w' := by
  have describes : List.Forall₂ (Describes .reference Puts.FamilyForm)
      (twoFamilyPuts.map replyOf) twoFamilyPuts := by
    rw [List.forall₂_map_left_iff, List.forall₂_same]
    intro puts mem
    obtain ⟨family, inside, rfl⟩ := List.mem_map.mp mem
    obtain ⟨nameable, fits⟩ := twoFamilies_fit family inside
    obtain ⟨-, form, lengths⟩ := familyPuts_family ⟨4, by decide, by decide⟩ nameable
    exact ⟨returns_of_fits reference_appends lengths fits, form, rfl⟩
  exact ((requests_described Nla.reference_documented reference_appends
    (by decide : Nl80211.NL80211_ATTR_4ADDR ≤ 330) (.reference Reply) .quiet
    ((World.opened Reply 7 0).arrive (answerSeven (twoFamilyPuts.map replyOf)).queue)
    (answerSeven (twoFamilyPuts.map replyOf)) rfl rfl 28 2 twoFamilyPuts).1 describes).2 _ rfl

/-- **Families and interfaces survive the way**: what is put together from records, as far as
it fits into a message, is returned as these records, in order, when the answer suits the
socket. -/
theorem dumps_round_trip {N : Nla} (documented : N.Documented) {capacity : ℕ}
    (appends : Appends N capacity) {attrMax : ℕ} (indexable : Nl80211.NL80211_ATTR_4ADDR ≤ attrMax)
    (L : Libnl Reply) (conduct : Conduct Reply) (w : World Reply) (a : Answer Reply w.nl.seqNext)
    (arrived : w.nl.incoming = a.queue) (suits : a.Suits w) (family : ℤ) (lambda : Closure) :
    (∀ (element : AttrType) (families : List GenericFamily),
      (∀ f ∈ families, Nameable f ∧ (familyPuts element f).size ≤ capacity) →
      List.Forall₂ (fun reply f => reply.attrs = ((familyPuts element f).build N newMessage).attrs)
        (a.delivered.filterMap NlMsg.payload?) families →
      ∃ w', (Ctrl.getFamilies L N conduct.call lambda).run w = .returned families w') ∧
    ∀ interfaces : List InterfaceConfiguration,
      (∀ i ∈ interfaces, (interfacePuts i).size ≤ capacity) →
      List.Forall₂ (fun reply i => reply.attrs = ((interfacePuts i).build N newMessage).attrs)
        (a.delivered.filterMap NlMsg.payload?) interfaces →
      ∃ w', (Nl80211.getInterfaces L N conduct.call attrMax family lambda).run w =
        .returned interfaces w' := by
  constructor
  · intro element families fit sent
    have read : ∀ f ∈ families, ∀ reply : Reply,
        reply.attrs = ((familyPuts element f).build N newMessage).attrs →
          Ctrl.parseGenericFamily N {} reply = f := by
      intro f mem reply same
      obtain ⟨nameable, fits⟩ := fit f mem
      obtain ⟨told, form, lengths⟩ := familyPuts_family element nameable
      exact (Ctrl.parse_described documented appends (returns_of_fits appends lengths fits) form
        same).trans told
    rw [← (map_parse read sent).trans (List.map_id' families)]
    exact getFamilies_answered arrived suits
  · intro interfaces fit sent
    have read : ∀ i ∈ interfaces, ∀ reply : Reply,
        reply.attrs = ((interfacePuts i).build N newMessage).attrs →
          Nl80211.parseInterfaceConfiguration N attrMax {} reply = i := by
      intro i mem reply same
      obtain ⟨told, form, lengths⟩ := interfacePuts_interface i
      exact (Nl80211.parse_interface_described documented appends indexable
        (returns_of_fits appends lengths (fit i mem)) form same).trans told
    rw [← (map_parse read sent).trans (List.map_id' interfaces)]
    exact getInterfaces_answered arrived suits

theorem twoFamilies_return :
    ∃ w', (Ctrl.getFamilies (.reference Reply) .reference Conduct.quiet.call 2).run
        ((World.opened Reply 7 0).arrive (answerSeven (twoFamilyPuts.map replyOf)).queue) =
      .returned twoFamilies w' :=
  (dumps_round_trip Nla.reference_documented reference_appends
    (by decide : Nl80211.NL80211_ATTR_4ADDR ≤ 330) (.reference Reply) .quiet
    ((World.opened Reply 7 0).arrive (answerSeven (twoFamilyPuts.map replyOf)).queue)
    (answerSeven (twoFamilyPuts.map replyOf)) rfl rfl 28 2).1 _ twoFamilies twoFamilies_fit
    (.cons rfl (.cons rfl .nil))

end Nlcpp
