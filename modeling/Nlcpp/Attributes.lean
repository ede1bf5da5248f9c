import Nlcpp.Reference
import Nlcpp.Lib.Tlv

/-!
What libnl's attribute functions do, as far as the documentation says.

`Nla.Documented` collects it: `nla_parse` without a policy keeps the last attribute of
each type up to the maximum and looks neither at lengths nor at terminators, and
`nla_get_u32` and the like read from a payload's start, whatever the payload's length.
`Nla.reference` is an implementation.
-/

namespace Nlcpp

open Tlv

/-- The attribute of a placed payload. -/
def AttrRef.of {α : Type} (attr : α → Attr) (e : ℕ × α) : AttrRef :=
  ⟨e.1, (attr e.2).payload.length⟩

/-- The number in host byte order (little endian). -/
def ofHost (bytes : List UInt8) : ℕ := bytes.foldr (fun b n => b.toNat + 256 * n) 0

/-- The documented behaviour of the attribute functions. -/
structure Nla.Documented (N : Nla) : Prop where
  parse : ∀ {memory : List UInt8} {start short : ℕ} {attrs : List Attr},
    Fills (layout short attrs) (memory.drop start) → ∀ maxtype type, 0 < type →
      N.nlaParse maxtype memory start (layout short attrs).length type =
        if type ≤ maxtype then
          (lastOf (fun e => e.2.kind) type (placed id start attrs)).map (AttrRef.of id)
        else none
  nested : ∀ {memory : List UInt8} {short : ℕ} {attrs : List Attr} {attr : AttrRef},
    Fills (layout short attrs) (memory.drop attr.payload) →
      attr.len = (layout short attrs).length →
        N.nlaNested memory attr = (placed id attr.payload attrs).map (AttrRef.of id)
  getU8 : ∀ {memory : List UInt8} {attr : AttrRef} {b : UInt8},
    [b] <+: memory.drop attr.payload → N.nlaGetU8 memory attr = b
  getU32 : ∀ {memory : List UInt8} {attr : AttrRef} {bytes : List UInt8}, bytes.length = 4 →
    bytes <+: memory.drop attr.payload → N.nlaGetU32 memory attr = UInt32.ofNat (ofHost bytes)
  getString : ∀ {memory : List UInt8} {attr : AttrRef},
    0 ∈ memory.drop attr.payload → N.nlaGetString memory attr = cStr (memory.drop attr.payload)

/-- The reply carries these attributes, with any padding, with or without the padding at
the end of the stream, and with any bytes after it. -/
def Carries {α : Type} (attr : α → Attr) (xs : List α) (message : Reply) : Prop :=
  ∃ short ≤ 3, message.attrs.length = (layout short (xs.map attr)).length ∧
    Fills (layout short (xs.map attr)) message.attrs

theorem Carries.fills {α : Type} {attr : α → Attr} {xs : List α} {message : Reply}
    (carries : Carries attr xs message) : Fills (layout 3 (xs.map attr)) message.memory := by
  obtain ⟨short, few, _, fills⟩ := carries
  obtain ⟨rest, whole⟩ := layout_prefix (xs.map attr) few
  rw [← whole, fills_append] at fills
  exact fills.1.append message.beyond

theorem Carries.fills_start {α : Type} {attr : α → Attr} {xs : List α} {message : Reply}
    (carries : Carries attr xs message) :
    Fills (layout 3 (xs.map attr)) (message.memory.drop 0) :=
  carries.fills

/-! ### Streams of anything that is laid out as an attribute -/

namespace Nla.Documented

variable {N : Nla} (documented : N.Documented) {α : Type} {attr : α → Attr} {xs : List α}
  {memory : List UInt8} {start short : ℕ}

include documented

theorem parse_as (fills : Fills (layout short (xs.map attr)) (memory.drop start))
    (maxtype : ℕ) {type : ℕ} (positive : 0 < type) :
    N.nlaParse maxtype memory start (layout short (xs.map attr)).length type =
      if type ≤ maxtype then (lastPlaced attr type start xs).map (AttrRef.of attr) else none := by
  rw [documented.parse fills maxtype type positive, placed_map, lastOf_map, Option.map_map]
  rfl

/-- Parsing a reply finds the last attribute of each type. -/
theorem parse_reply {message : Reply} (carries : Carries attr xs message) (maxtype : ℕ)
    {type : ℕ} (positive : 0 < type) :
    N.nlaParse maxtype message.memory 0 message.attrs.length type =
      if type ≤ maxtype then (lastPlaced attr type 0 xs).map (AttrRef.of attr) else none := by
  obtain ⟨short, -, length, stream⟩ := carries
  have fills : Fills (layout short (xs.map attr)) (message.memory.drop 0) :=
    stream.append message.beyond
  rw [length]
  exact documented.parse_as fills maxtype positive

theorem nested_as {place : AttrRef}
    (fills : Fills (layout short (xs.map attr)) (memory.drop place.payload))
    (length : place.len = (layout short (xs.map attr)).length) :
    N.nlaNested memory place = (placed attr place.payload xs).map (AttrRef.of attr) := by
  rw [documented.nested fills length, placed_map, List.map_map]
  rfl

end Nla.Documented

/-! ### Numbers -/

theorem ofHost_lt (bytes : List UInt8) : ofHost bytes < 256 ^ bytes.length := by
  induction bytes with
  | nil => exact Nat.one_pos
  | cons b bytes ih =>
      have byte := b.toNat_lt
      simp only [ofHost, List.foldr_cons, List.length_cons, pow_succ] at ih ⊢
      omega

/-- Numbers of the same width differ when their bytes do. -/
theorem ofHost_injective {bytes bytes' : List UInt8} (width : bytes.length = bytes'.length)
    (same : ofHost bytes = ofHost bytes') : bytes = bytes' := by
  induction bytes generalizing bytes' with
  | nil => exact (List.length_eq_zero_iff.mp width.symm).symm
  | cons b bytes ih =>
      cases bytes' with
      | nil => cases width
      | cons b' bytes' =>
          have low := b.toNat_lt
          have low' := b'.toNat_lt
          simp only [ofHost, List.foldr_cons] at same ih
          rw [ih (Nat.succ.inj width) (by omega),
            UInt8.toNat_inj.mp (by omega : b.toNat = b'.toNat)]

theorem ofHost_injective_four {bytes bytes' : List UInt8} (four : bytes.length = 4)
    (four' : bytes'.length = 4)
    (same : UInt32.ofNat (ofHost bytes) = UInt32.ofNat (ofHost bytes')) : bytes = bytes' := by
  have bound := ofHost_lt bytes
  have bound' := ofHost_lt bytes'
  rw [four] at bound
  rw [four'] at bound'
  apply ofHost_injective (four.trans four'.symm)
  have value := congrArg UInt32.toNat same
  rwa [UInt32.toNat_ofNat_of_lt' bound, UInt32.toNat_ofNat_of_lt' bound'] at value

/-! ### The implementation -/

namespace Reference

theorem getD_of_prefix {memory bytes : List UInt8} {start : ℕ}
    (here : bytes <+: memory.drop start) {i : ℕ} (inside : i < bytes.length) :
    memory.getD (start + i) 0 = bytes[i] := by
  obtain ⟨rest, same⟩ := here
  have read : (memory.drop start)[i]? = some bytes[i] := by
    rw [← same, List.getElem?_append_left inside, List.getElem?_eq_getElem inside]
  rw [List.getElem?_drop] at read
  rw [List.getD_eq_getElem?_getD, read]
  rfl

theorem elements_nothing (memory : List UInt8) (fuel start : ℕ) :
    elements memory fuel start 0 = [] := by
  cases fuel with
  | zero => rfl
  | succ fuel => rfl

/-- The implementation finds the attributes of a stream where they are. -/
theorem elements_layout {memory : List UInt8} {start short : ℕ} {attrs : List Attr}
    (fills : Fills (layout short attrs) (memory.drop start)) {fuel : ℕ}
    (enough : attrs.length ≤ fuel) :
    elements memory fuel start (layout short attrs).length =
      (placed id start attrs).map fun e => (e.2.kind, AttrRef.of id e) := by
  induction attrs generalizing start fuel with
  | nil => exact elements_nothing memory fuel start
  | cons a rest ih =>
      obtain ⟨fuel, rfl⟩ := Nat.exists_eq_add_of_le' (le_trans (Nat.le_add_left 1 _) enough)
      have header : a.header <+: memory.drop start := by
        apply fills.known
        simp only [Known, layout, Attr.cells, List.append_assoc]
        exact List.prefix_append _ _
      have byte (i : ℕ) (inside : i < 4) : memory.getD (start + i) 0 = a.header[i] :=
        getD_of_prefix header inside
      have fits := a.fits
      have size : (memory.getD (start + 0) 0).toNat + 256 * (memory.getD (start + 1) 0).toNat =
          a.size := by
        rw [byte 0 (by decide), byte 1 (by decide)]
        simp only [Attr.header, List.getElem_cons_zero, List.getElem_cons_succ,
          UInt8.toNat_ofNat', Attr.size]
        omega
      have kind : ((memory.getD (start + 2) 0).toNat + 256 * (memory.getD (start + 3) 0).toNat) %
          0x4000 = a.kind := by
        have bound := a.type.toNat_lt
        rw [byte 2 (by decide), byte 3 (by decide)]
        simp only [Attr.header, List.getElem_cons_zero, List.getElem_cons_succ,
          UInt8.toNat_ofNat', Attr.kind]
        omega
      have four : 4 ≤ a.size := Nat.le_add_left 4 _
      have room : a.size ≤ (layout short (a :: rest)).length := by
        rw [layout, List.length_append, Attr.cells_length]
        omega
      have later : elements memory fuel (start + (a.size + 3) / 4 * 4)
          ((layout short (a :: rest)).length - (a.size + 3) / 4 * 4) =
          (placed id (start + a.size + padding a.size) rest).map
            fun e => (e.2.kind, AttrRef.of id e) := by
        have step : (a.size + 3) / 4 * 4 = a.size + padding a.size := by
          unfold padding
          omega
        rw [step, layout, List.length_append, Attr.cells_length, ← Nat.add_assoc]
        by_cases last : rest = []
        · subst last
          rw [if_pos rfl]
          have past : a.size + (padding a.size - short) + (layout short []).length -
              (a.size + padding a.size) = 0 := by
            simp only [layout, List.length_nil]
            omega
          rw [past]
          exact elements_nothing memory fuel _
        · rw [if_neg last, Nat.add_sub_cancel_left]
          refine ih ?_ (Nat.le_of_succ_le_succ enough)
          rw [layout, if_neg last, fills_append, Attr.cells_length, List.drop_drop] at fills
          rw [Nat.add_assoc]
          exact fills.2
      rw [elements]
      simp only [size, kind, four, room, true_and, le_trans four room, if_true, later, placed,
        List.map_cons]
      rfl

/-- A part above `k` bits and a part below them. -/
theorem or_high {low high k : ℕ} (below : low < 2 ^ k) :
    low ||| high * 2 ^ k = high * 2 ^ k + low := by
  rw [Nat.or_comm, ← Nat.shiftLeft_eq, Nat.shiftLeft_add_eq_or_of_lt below]

/-- Four bytes, one above the other. -/
theorem bytes_or (a b c d : UInt8) :
    (a.toUInt32 ||| b.toUInt32 <<< 8 ||| c.toUInt32 <<< 16 ||| d.toUInt32 <<< 24) =
      UInt32.ofNat (ofHost [a, b, c, d]) := by
  have ha := a.toNat_lt
  have hb := b.toNat_lt
  have hc := c.toNat_lt
  have hd := d.toNat_lt
  have second : (b.toUInt32 <<< 8).toNat = b.toNat * 2 ^ 8 := by
    simp [UInt32.toNat_shiftLeft, Nat.shiftLeft_eq]
    omega
  have third : (c.toUInt32 <<< 16).toNat = c.toNat * 2 ^ 16 := by
    simp [UInt32.toNat_shiftLeft, Nat.shiftLeft_eq]
    omega
  have fourth : (d.toUInt32 <<< 24).toNat = d.toNat * 2 ^ 24 := by
    simp [UInt32.toNat_shiftLeft, Nat.shiftLeft_eq]
    omega
  have all : ofHost [a, b, c, d] < 2 ^ 32 := by
    simp only [ofHost, List.foldr_cons, List.foldr_nil]
    omega
  apply UInt32.toNat_inj.mp
  rw [UInt32.toNat_ofNat_of_lt' all]
  simp only [UInt32.toNat_or, second, third, fourth, UInt8.toNat_toUInt32, ofHost,
    List.foldr_cons, List.foldr_nil]
  rw [or_high ha, or_high (by omega : b.toNat * 2 ^ 8 + a.toNat < 2 ^ 16),
    or_high (by omega : c.toNat * 2 ^ 16 + (b.toNat * 2 ^ 8 + a.toNat) < 2 ^ 24)]
  omega

end Reference

theorem Nla.reference_documented : Nla.reference.Documented where
  parse fills maxtype type _ := by
    simp only [Nla.reference]
    split
    · rw [Reference.elements_layout fills (length_le_layout _ _), ← List.map_reverse,
        List.find?_map, Option.map_map]
      rfl
    · rfl
  nested fills length := by
    simp only [Nla.reference]
    rw [length, Reference.elements_layout fills (length_le_layout _ _), List.map_map]
    rfl
  getU8 here := Reference.getD_of_prefix here Nat.one_pos
  getU32 := by
    intro memory attr bytes four here
    obtain ⟨a, b, c, d, rfl⟩ := List.length_eq_four.mp four
    simp only [Nla.reference]
    rw [Reference.getD_of_prefix here (by decide : 0 < 4),
      Reference.getD_of_prefix here (by decide : 1 < 4),
      Reference.getD_of_prefix here (by decide : 2 < 4),
      Reference.getD_of_prefix here (by decide : 3 < 4)]
    exact Reference.bytes_or a b c d
  getString _ := rfl

end Nlcpp
