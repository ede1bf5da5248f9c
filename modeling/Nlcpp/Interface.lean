import Nlcpp.Attributes
import Nlcpp.Ctrl

/-!
Which bytes `parseInterfaceConfiguration` reads.

`parseReads` is the parser with a record of every byte it reads (`parseReads_run` says that
the record is all it adds). A read starts at a payload and has the width of the accessor:
it stays inside when the payload is at least as long (`reads_inside_iff`).
-/

namespace Nlcpp.Nl80211

open Tlv

/-- A byte that was read for an attribute. -/
structure Access where
  attr : AttrRef
  address : ℕ
deriving DecidableEq, Repr

/-- The byte is one of the attribute's payload. -/
def Access.Inside (a : Access) : Prop :=
  a.attr.payload ≤ a.address ∧ a.address < a.attr.payload + a.attr.len

/-- Programs with a record of the bytes they read. -/
abbrev Reads := StateM (List Access)

/-- The `width` bytes from the payload's start. -/
def bytesOf (width : ℕ) (attr : AttrRef) : List Access :=
  (List.range' attr.payload width).map (⟨attr, ·⟩)

/-- An accessor that reads `width` bytes from the payload's start. -/
def reading {α : Type} (width : ℕ) (accessor : AttrRef → α) (attr : AttrRef) : Reads α :=
  modifyGet fun log => (accessor attr, log ++ bytesOf width attr)

def ETH_ALEN : ℕ := 6

section Parser

variable (N : Nla) (attrMax : ℕ) (interface : InterfaceConfiguration) (message : Reply)

/-- `parseInterfaceConfiguration` with a record of what it reads. -/
def parseReads : Reads InterfaceConfiguration := do
  let memory := message.memory
  let tb_msg := N.nlaParse attrMax memory 0 message.attrs.length
  let interface ← match tb_msg NL80211_ATTR_IFINDEX with
    | some attr => pure { interface with ifindex := ← reading 4 (N.nlaGetU32 memory) attr }
    | none => pure interface
  let interface ← match tb_msg NL80211_ATTR_WIPHY with
    | some attr => pure { interface with wiphy := ← reading 4 (N.nlaGetU32 memory) attr }
    | none => pure interface
  let interface ← match tb_msg NL80211_ATTR_IFTYPE with
    | some attr => pure { interface with iftype := (← reading 4 (N.nlaGetU32 memory) attr).toInt32 }
    | none => pure interface
  let interface ← match tb_msg NL80211_ATTR_MAC with
    | some attr => pure { interface with mac := ← reading ETH_ALEN (copyMac memory) attr }
    | none => pure interface
  match tb_msg NL80211_ATTR_4ADDR with
  | some attr => pure { interface with use4addr := (← reading 1 (N.nlaGetU8 memory) attr) != 0 }
  | none => pure interface

/-- What an accessor of this width reads of an attribute that may be there. -/
def readsOf (field : ℕ × ℕ) : List Access :=
  (N.nlaParse attrMax message.memory 0 message.attrs.length field.1).elim [] (bytesOf field.2)

/-- The attributes of the parser with the widths of its accessors. -/
def fields : List (ℕ × ℕ) :=
  [(NL80211_ATTR_IFINDEX, 4), (NL80211_ATTR_WIPHY, 4), (NL80211_ATTR_IFTYPE, 4),
    (NL80211_ATTR_MAC, ETH_ALEN), (NL80211_ATTR_4ADDR, 1)]

/-- A field that may be there: its bytes are added to the record, and the rest goes on
with its value. -/
theorem field_run {α β : Type} (width : ℕ) (accessor : AttrRef → α)
    (set : α → InterfaceConfiguration) (otherwise : InterfaceConfiguration)
    (rest : InterfaceConfiguration → Reads β) (field : Option AttrRef) (log : List Access) :
    (match field with
      | some attr => do
        let value ← reading width accessor attr
        let interface ← pure (set value)
        rest interface
      | none => do
        let interface ← pure otherwise
        rest interface : Reads β).run log =
      (rest (match field with
        | some attr => set (accessor attr)
        | none => otherwise)).run (log ++ field.elim [] (bytesOf width)) := by
  cases field with
  | none => simp
  | some attr => rfl

/-- **The record is all that is added**, and it has the bytes of all fields. -/
theorem parseReads_run (log : List Access) :
    (parseReads N attrMax interface message).run log =
      (parseInterfaceConfiguration N attrMax interface message,
        log ++ fields.flatMap (readsOf N attrMax message)) := by
  simp only [parseReads, parseInterfaceConfiguration, fields, List.flatMap_cons, List.flatMap_nil,
    readsOf]
  generalize N.nlaParse attrMax message.memory 0 message.attrs.length = tb_msg
  rw [field_run, field_run, field_run, field_run]
  cases tb_msg NL80211_ATTR_4ADDR with
  | none =>
      simp only [Option.elim_none, List.append_nil, List.append_assoc]
      rfl
  | some attr =>
      refine congrArg (Prod.mk _) ?_
      simp only [Option.elim_some, List.append_nil, List.append_assoc]

end Parser

instance : DecidablePred Access.Inside := fun a =>
  inferInstanceAs (Decidable (a.attr.payload ≤ a.address ∧ a.address < a.attr.payload + a.attr.len))

/-- The bytes from a payload's start are all inside when the payload is that long. -/
theorem bytesOf_inside_iff (width : ℕ) (attr : AttrRef) :
    (∀ access ∈ bytesOf width attr, access.Inside) ↔ width ≤ attr.len := by
  simp only [bytesOf, List.forall_mem_map, List.mem_range'_1, Access.Inside]
  constructor
  · intro inside
    by_contra longer
    have last := inside (attr.payload + attr.len) (by omega)
    omega
  · intro enough address here
    omega

/-- The last attribute of each type that is read is as long as its accessor is wide. -/
def LongEnough (attrMax : ℕ) (attrs : List Plain) : Prop :=
  ∀ field ∈ fields, field.1 ≤ attrMax →
    ∀ p, lastOf (fun p => (Plain.attr p).kind) field.1 attrs = some p → field.2 ≤ p.bytes.length

instance (attrMax : ℕ) (attrs : List Plain) : Decidable (LongEnough attrMax attrs) :=
  decidable_of_iff (∀ field ∈ fields, field.1 ≤ attrMax →
      (lastOf (fun p => (Plain.attr p).kind) field.1 attrs).all
        fun p => field.2 ≤ p.bytes.length) <| by
    simp [LongEnough, Option.all_eq_true]

/-- **Parsing stays inside each attribute** exactly when no attribute that it reads is too
short for its accessor. -/
theorem reads_inside_iff {N : Nla} (documented : N.Documented) (attrMax : ℕ)
    (interface : InterfaceConfiguration) {attrs : List Plain} {message : Reply}
    (carries : Carries Plain.attr attrs message) :
    (∀ access ∈ ((parseReads N attrMax interface message).run []).2, access.Inside) ↔
      LongEnough attrMax attrs := by
  have positive : ∀ field ∈ fields, 0 < field.1 := by decide
  rw [parseReads_run, List.nil_append, List.forall_mem_flatMap]
  refine forall₂_congr fun field mem => ?_
  rw [readsOf, documented.parse_reply carries attrMax (positive field mem), lastOf_eq Plain.attr 0]
  by_cases known : field.1 ≤ attrMax
  · rw [if_pos known]
    cases lastPlaced Plain.attr field.1 0 attrs with
    | none => simp
    | some e => simp [bytesOf_inside_iff, AttrRef.of, Plain.attr, known]
  · simp [known]

/-- An index of four bytes and a flag of one. -/
theorem index_and_flag_inside :
    LongEnough 330 [⟨3, [7, 0, 0, 0], by decide⟩, ⟨83, [1], by decide⟩] ∧
      ∀ access ∈ ((parseReads Nla.reference 330 {}
        ⟨5, 0, [8, 0, 3, 0, 7, 0, 0, 0, 5, 0, 83, 0, 1, 0, 0, 0], []⟩).run []).2, access.Inside := by
  have carries : Carries Plain.attr
      [⟨3, [7, 0, 0, 0], by decide⟩, ⟨83, [1], by decide⟩]
      ⟨5, 0, [8, 0, 3, 0, 7, 0, 0, 0, 5, 0, 83, 0, 1, 0, 0, 0], []⟩ :=
    ⟨0, by decide, by decide, by decide⟩
  have longEnough : LongEnough 330 [⟨3, [7, 0, 0, 0], by decide⟩, ⟨83, [1], by decide⟩] := by decide
  exact ⟨longEnough, (reads_inside_iff Nla.reference_documented 330 {} carries).mpr longEnough⟩

/-- A hardware address of two bytes: the next attribute becomes part of the address. -/
theorem mac_of_neighbours :
    Carries Plain.attr [⟨6, [1, 2], by decide⟩, ⟨4, [9, 9, 9, 9], by decide⟩]
        ⟨5, 0, [6, 0, 6, 0, 1, 2, 0, 0, 8, 0, 4, 0, 9, 9, 9, 9], []⟩ ∧
      (parseInterfaceConfiguration Nla.reference 330 {}
        ⟨5, 0, [6, 0, 6, 0, 1, 2, 0, 0, 8, 0, 4, 0, 9, 9, 9, 9], []⟩).mac.toList =
        [1, 2, 0, 0, 8, 0] ∧
      ¬∀ access ∈ ((parseReads Nla.reference 330 {}
        ⟨5, 0, [6, 0, 6, 0, 1, 2, 0, 0, 8, 0, 4, 0, 9, 9, 9, 9], []⟩).run []).2, access.Inside :=
  ⟨⟨0, by decide, by decide, by decide⟩, by decide, by decide⟩

end Nlcpp.Nl80211
