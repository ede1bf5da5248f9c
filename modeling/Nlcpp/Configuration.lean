import Nlcpp.Delivery
import Nlcpp.Encoding
import Nlcpp.Family

/-!
Which configuration `parseInterfaceConfiguration` builds.

`Encodes` says that a list of attributes holds the present fields of a configuration, each
in the format of its attribute, among any others. `parse_overlay` is the round trip: the
present fields are set and the others are left. The records of `getInterface` and
`getInterfaces` start from zero, so they hold what their own reply encodes
(`interfaces_decoded`).
-/

namespace Nlcpp.Nl80211

open Tlv Encoding

/-- The fields of a configuration. -/
inductive Field where
  | ifindex
  | wiphy
  | iftype
  | mac
  | use4addr
deriving DecidableEq, Repr

namespace Field

/-- The attribute of the field. -/
def type : Field → ℕ
  | ifindex => NL80211_ATTR_IFINDEX
  | wiphy => NL80211_ATTR_WIPHY
  | iftype => NL80211_ATTR_IFTYPE
  | mac => NL80211_ATTR_MAC
  | use4addr => NL80211_ATTR_4ADDR

theorem type_positive (field : Field) : 0 < field.type := by
  cases field <;> decide

theorem type_le (field : Field) : field.type ≤ NL80211_ATTR_4ADDR := by
  cases field <;> decide

/-- The payload holds the field's value in the format of its attribute. -/
def Conforms (config : InterfaceConfiguration) (bytes : List UInt8) : Field → Prop
  | ifindex => bytes = hostBytes 4 config.ifindex.toNat
  | wiphy => bytes = hostBytes 4 config.wiphy.toNat
  | iftype => bytes = hostBytes 4 config.iftype.toUInt32.toNat
  | mac => bytes = config.mac.toList
  | use4addr => ∃ b, bytes = [b] ∧ (b != 0) = config.use4addr

end Field

/-- The attributes hold exactly the present fields, whatever else they hold. -/
structure Encodes (config : InterfaceConfiguration) (present : Field → Bool)
    (attrs : List Plain) : Prop where
  present_iff : ∀ field : Field, present field = true ↔ ∃ p ∈ attrs, p.attr.kind = field.type
  conforms : ∀ field : Field, ∀ p ∈ attrs, p.attr.kind = field.type →
    field.Conforms config p.bytes

/-- The present fields of a configuration, the others as they were. -/
def overlay (present : Field → Bool) (config initial : InterfaceConfiguration) :
    InterfaceConfiguration where
  ifindex := if present .ifindex then config.ifindex else initial.ifindex
  wiphy := if present .wiphy then config.wiphy else initial.wiphy
  iftype := if present .iftype then config.iftype else initial.iftype
  mac := if present .mac then config.mac else initial.mac
  use4addr := if present .use4addr then config.use4addr else initial.use4addr

section Parser

variable {N : Nla} (documented : N.Documented) {memory : List UInt8} {attr : AttrRef}
  {bytes : List UInt8} (fills : Fills (bytes.map some) (memory.drop attr.payload))

include fills

include documented in
/-- A 32-bit number is read back from its four bytes. -/
theorem getU32_hostBytes {value : UInt32} (four : bytes = hostBytes 4 value.toNat) :
    N.nlaGetU32 memory attr = value := by
  subst four
  rw [Ctrl.getU32_payload documented fills (Flat.hostBytes_length 4 _),
    Flat.ofHost_hostBytes 4 value.toNat_lt, UInt32.ofNat_toNat]

theorem copyMac_toList {mac : Vector UInt8 6} (six : bytes = mac.toList) :
    copyMac memory attr = mac := by
  subst six
  have here := fills.known List.prefix_rfl
  ext i inside
  rw [copyMac, Vector.getElem_ofFn, Reference.getD_of_prefix here (by simpa using inside)]
  simp

include documented in
theorem getU8_single {b : UInt8} (single : bytes = [b]) : N.nlaGetU8 memory attr = b := by
  subst single
  exact documented.getU8 (fills.known List.prefix_rfl)

omit fills

variable {config : InterfaceConfiguration} {present : Field → Bool} {attrs : List Plain}
  {message : Reply} {attrMax : ℕ}

include documented in
/-- What the parser finds for a field: a conforming payload, or nothing. -/
theorem parse_field (indexable : NL80211_ATTR_4ADDR ≤ attrMax)
    (carries : Carries Plain.attr attrs message) (encodes : Encodes config present attrs)
    (field : Field) :
    (present field = true ∧ ∃ attr bytes,
        N.nlaParse attrMax message.memory 0 message.attrs.length field.type = some attr ∧
        field.Conforms config bytes ∧
        Fills (bytes.map some) (message.memory.drop attr.payload)) ∨
      present field = false ∧
        N.nlaParse attrMax message.memory 0 message.attrs.length field.type = none := by
  have parsed := documented.parse_reply carries attrMax field.type_positive
  rw [if_pos (field.type_le.trans indexable)] at parsed
  rw [parsed]
  cases last : lastPlaced Plain.attr field.type 0 attrs with
  | none =>
      refine .inr ⟨Bool.eq_false_iff.mpr fun here => ?_, rfl⟩
      obtain ⟨p, mem, kind⟩ := (encodes.present_iff field).mp here
      have absent : lastOf (fun p => (Plain.attr p).kind) field.type attrs = none := by
        rw [lastOf_eq Plain.attr 0, last, Option.map_none]
      have other := List.find?_eq_none.mp absent p (List.mem_reverse.mpr mem)
      exact other (decide_eq_true kind)
  | some e =>
      obtain ⟨mem, kind⟩ := lastOf_mem last
      have inside := mem_of_placed mem
      exact .inl ⟨(encodes.present_iff field).mpr ⟨e.2, inside, kind⟩, .of Plain.attr e, e.2.bytes,
        rfl, encodes.conforms field e.2 inside kind, carries.fills_start.placed mem⟩

include documented in
/-- The value that is read for a field, when the accessor reads conforming payloads right. -/
theorem read_field {β : Type} {accessor : AttrRef → β} {value : β} (field : Field)
    (reads : ∀ {attr bytes}, field.Conforms config bytes →
      Fills (bytes.map some) (message.memory.drop attr.payload) → accessor attr = value)
    (indexable : NL80211_ATTR_4ADDR ≤ attrMax) (carries : Carries Plain.attr attrs message)
    (encodes : Encodes config present attrs) :
    (N.nlaParse attrMax message.memory 0 message.attrs.length field.type).map accessor =
      if present field then some value else none := by
  rcases parse_field documented indexable carries encodes field with
    ⟨here, attr, bytes, found, conforms, fills⟩ | ⟨absent, nothing⟩
  · rw [found, here, if_pos rfl, Option.map_some, reads conforms fills]
  · rw [nothing, absent, if_neg Bool.false_ne_true, Option.map_none]

/-- A field of the parser sets what was read, or leaves the configuration. -/
theorem field_set {β : Type} {found : Option AttrRef} {accessor : AttrRef → β} {here : Bool}
    {value : β} (set : β → InterfaceConfiguration) (otherwise : InterfaceConfiguration) :
    (found.map accessor = if here then some value else none) →
    (match found with
      | some attr => set (accessor attr)
      | none => otherwise) = if here then set value else otherwise := by
  intro read
  cases found with
  | none => cases here <;> simp at read ⊢
  | some attr => cases here <;> simp at read ⊢; rw [read]

include documented in
/-- **Decoding undoes encoding**: the present fields are set, the others are left. -/
theorem parse_overlay (indexable : NL80211_ATTR_4ADDR ≤ attrMax)
    (carries : Carries Plain.attr attrs message) (encodes : Encodes config present attrs)
    (initial : InterfaceConfiguration) :
    parseInterfaceConfiguration N attrMax initial message = overlay present config initial := by
  unfold parseInterfaceConfiguration
  extract_lets memory tb_msg withIfindex withWiphy withIftype withMac
  have ifindex : withIfindex = if present .ifindex
      then { initial with ifindex := config.ifindex } else initial :=
    field_set (fun value => { initial with ifindex := value }) initial
      (read_field documented .ifindex (fun four fills => getU32_hostBytes documented fills four)
        indexable carries encodes)
  have wiphy : withWiphy = if present .wiphy
      then { withIfindex with wiphy := config.wiphy } else withIfindex :=
    field_set (fun value => { withIfindex with wiphy := value }) withIfindex
      (read_field documented .wiphy (fun four fills => getU32_hostBytes documented fills four)
        indexable carries encodes)
  have iftype : withIftype = if present .iftype
      then { withWiphy with iftype := config.iftype.toUInt32.toInt32 } else withWiphy :=
    field_set (fun value : UInt32 => { withWiphy with iftype := value.toInt32 }) withWiphy
      (read_field documented .iftype (fun four fills => getU32_hostBytes documented fills four)
        indexable carries encodes)
  have mac : withMac = if present .mac then { withIftype with mac := config.mac } else withIftype :=
    field_set (fun value => { withIftype with mac := value }) withIftype
      (read_field documented .mac (fun six fills => copyMac_toList fills six)
        indexable carries encodes)
  have flag {attr : AttrRef} {bytes : List UInt8} (conforms : Field.use4addr.Conforms config bytes)
      (fills : Fills (bytes.map some) (message.memory.drop attr.payload)) :
      (N.nlaGetU8 message.memory attr != 0) = config.use4addr := by
    obtain ⟨b, single, value⟩ := conforms
    rw [getU8_single documented fills single, value]
  refine (field_set (fun value => { withMac with use4addr := value }) withMac
    (read_field documented .use4addr flag indexable carries encodes)).trans ?_
  rw [mac, iftype, wiphy, ifindex, overlay, Int32.toInt32_toUInt32]
  cases present .ifindex <;> cases present .wiphy <;> cases present .iftype <;>
    cases present .mac <;> cases present .use4addr <;> rfl

end Parser

/-! ### The records of a request -/

/-- The record holds what the reply encodes, and zero in the other fields. -/
def Holds (reply : Reply) (record : InterfaceConfiguration) : Prop :=
  ∀ (config : InterfaceConfiguration) (present : Field → Bool) (attrs : List Plain),
    Carries Plain.attr attrs reply → Encodes config present attrs →
      record = overlay present config {}

section Requests

variable {L : Libnl Reply} {N : Nla} {conduct : Conduct Reply} {w : World Reply}
  {attrMax : ℕ} {family : ℤ} {lambda : Closure}

/-- `getInterfaces` keeps the records of all replies. -/
theorem getInterfaces_returned_iff {records : List InterfaceConfiguration} :
    (∃ w', (getInterfaces L N conduct.call attrMax family lambda).run w =
        .returned records w') ↔
      ∃ p rest, exchangeOf (conduct.sparing lambda) w (some lambda) = .ended p rest ∧
        (p.passed.filterMap NlMsg.payload?).map (parseInterfaceConfiguration N attrMax {}) =
          records := by
  rw [getInterfaces_exchange]
  exact comeBack_returned_iff

/-- `getInterface` keeps the record of the last reply. -/
theorem getInterface_returned_iff {ifindex : UInt32} {record : Option InterfaceConfiguration} :
    (∃ w', (getInterface L N conduct.call attrMax family ifindex lambda).run w =
        .returned record w') ↔
      (put_u32 N (askInterface family) NL80211_ATTR_IFINDEX ifindex).1 = .ok () ∧
        ∃ p rest, exchangeOf (conduct.sparing lambda) w (some lambda) = .ended p rest ∧
          (p.passed.filterMap NlMsg.payload?).getLast?.map
            (parseInterfaceConfiguration N attrMax {}) = record := by
  cases put : (put_u32 N (askInterface family) NL80211_ATTR_IFINDEX ifindex).1 with
  | error e =>
      rw [getInterface_refused L conduct w attrMax family lambda put]
      simp
  | ok u =>
      rw [getInterface_exchange L conduct w attrMax family lambda put]
      exact comeBack_returned_iff.trans (iff_and_self.mpr fun _ => rfl)

end Requests

/-- **Decoding undoes encoding in every exchange**: `getInterfaces` returns exactly when its
exchange ends, and `getInterface` when the index can be put besides. Each record of the one and
the record of the other hold what their own reply encodes, whatever came before it. -/
theorem interfaces_decoded {N : Nla} (documented : N.Documented) {attrMax : ℕ}
    (indexable : NL80211_ATTR_4ADDR ≤ attrMax) (L : Libnl Reply) (conduct : Conduct Reply)
    (w : World Reply) (family : ℤ) (lambda : Closure) :
    (∀ p rest, exchangeOf (conduct.sparing lambda) w (some lambda) = .ended p rest →
      (∃ records w', (getInterfaces L N conduct.call attrMax family lambda).run w =
          .returned records w' ∧
        List.Forall₂ Holds (p.passed.filterMap NlMsg.payload?) records) ∧
      ∀ ifindex, (put_u32 N (askInterface family) NL80211_ATTR_IFINDEX ifindex).1 = .ok () →
        ∃ record w', (getInterface L N conduct.call attrMax family ifindex lambda).run w =
            .returned record w' ∧
          Option.Rel Holds (p.passed.filterMap NlMsg.payload?).getLast? record) ∧
    (∀ records w', (getInterfaces L N conduct.call attrMax family lambda).run w =
        .returned records w' →
      ∃ p rest, exchangeOf (conduct.sparing lambda) w (some lambda) = .ended p rest) ∧
    ∀ ifindex record w', (getInterface L N conduct.call attrMax family ifindex lambda).run w =
        .returned record w' →
      (put_u32 N (askInterface family) NL80211_ATTR_IFINDEX ifindex).1 = .ok () ∧
        ∃ p rest, exchangeOf (conduct.sparing lambda) w (some lambda) = .ended p rest := by
  have holds (reply : Reply) : Holds reply (parseInterfaceConfiguration N attrMax {} reply) :=
    fun config present attrs carries encodes =>
      parse_overlay documented indexable carries encodes {}
  refine ⟨fun p rest ended => ⟨?_, fun ifindex put => ?_⟩, ?_, ?_⟩
  · obtain ⟨w', returned⟩ := getInterfaces_returned_iff.mpr ⟨p, rest, ended, rfl⟩
    refine ⟨_, w', returned, ?_⟩
    rw [List.forall₂_map_right_iff, List.forall₂_same]
    exact fun reply _ => holds reply
  · obtain ⟨w', returned⟩ := getInterface_returned_iff.mpr ⟨put, p, rest, ended, rfl⟩
    refine ⟨_, w', returned, ?_⟩
    cases (p.passed.filterMap NlMsg.payload?).getLast? with
    | none => exact .none
    | some reply => exact .some (holds reply)
  · intro records w' returned
    obtain ⟨p, rest, ended, -⟩ := getInterfaces_returned_iff.mp ⟨w', returned⟩
    exact ⟨p, rest, ended⟩
  · intro ifindex record w' returned
    obtain ⟨put, p, rest, ended, -⟩ := getInterface_returned_iff.mp ⟨w', returned⟩
    exact ⟨put, p, rest, ended⟩

/-- An index and a flag behind an attribute that the library does not know. -/
def indexAndFlag : Reply :=
  ⟨5, 0, [5, 0, 200, 1, 9, 0, 0, 0, 5, 0, 83, 0, 1, 0, 0, 0, 8, 0, 3, 0, 7, 0, 0, 0], []⟩

/-- A number alone. -/
def numberAlone : Reply := ⟨5, 0, [8, 0, 1, 0, 2, 0, 0, 0], []⟩

def twoReplies : List (Incoming Reply) :=
  [.datagram [.of 5 (.data indexAndFlag), .of 5 (.data numberAlone), .of 5 .done]]

theorem holds_indexAndFlag {record : InterfaceConfiguration} (holds : Holds indexAndFlag record) :
    record = { ifindex := 7, use4addr := true } := by
  refine holds { ifindex := 7, use4addr := true }
    (fun field => field = .ifindex ∨ field = .use4addr)
    [⟨456, [9], by decide⟩, ⟨83, [1], by decide⟩, ⟨3, [7, 0, 0, 0], by decide⟩]
    ⟨0, by decide, by decide, by decide⟩ ⟨fun field => ?_, fun field => ?_⟩
  · cases field <;> decide
  · cases field with
    | use4addr => simpa [Field.Conforms, Field.type] using by decide
    | _ => unfold Field.Conforms; decide

theorem holds_numberAlone {record : InterfaceConfiguration} (holds : Holds numberAlone record) :
    record = { wiphy := 2 } := by
  refine holds { wiphy := 2 } (fun field => field = .wiphy) [⟨1, [2, 0, 0, 0], by decide⟩]
    ⟨0, by decide, by decide, by decide⟩ ⟨fun field => ?_, fun field => ?_⟩
  · cases field <;> decide
  · cases field with
    | use4addr => simpa [Field.Conforms, Field.type] using by decide
    | _ => unfold Field.Conforms; decide

/-- A dump with two replies, and the same answer to a request for one. -/
theorem twoReplies_decoded :
    (∃ w', (getInterfaces (.reference Reply) .reference Conduct.quiet.call 330 9 1).run
        ((World.opened Reply 5 0).arrive twoReplies) =
      .returned [{ ifindex := 7, use4addr := true }, { wiphy := 2 }] w') ∧
    ∃ w', (getInterface (.reference Reply) .reference Conduct.quiet.call 330 9 7 1).run
        ((World.opened Reply 5 0).arrive twoReplies) =
      .returned (some { wiphy := 2 }) w' := by
  obtain ⟨⟨records, w', returned, all⟩, one⟩ :=
    (interfaces_decoded Nla.reference_documented (by decide : NL80211_ATTR_4ADDR ≤ 330)
      (.reference Reply) Conduct.quiet ((World.opened Reply 5 0).arrive twoReplies) 9 1).1 _ _ rfl
  obtain ⟨record, w'', returned', last⟩ := one 7 rfl
  refine ⟨⟨w', ?_⟩, w'', ?_⟩
  · cases all with
    | cons first others =>
        cases others with
        | cons second none =>
            cases none
            rw [returned, holds_indexAndFlag first, holds_numberAlone second]
  · cases last with
    | some last => rw [returned', holds_numberAlone last]

end Nlcpp.Nl80211
