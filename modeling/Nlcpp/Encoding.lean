import Nlcpp.Attributes

/-!
What is read back of what the `put` members of `Message` were given.

`ReadBack` says what a message should read back as: the attributes of the calls that
returned, each with the value that was given. A length that does not fit an `int` and a
string with a NUL are cut; `readBack_iff` says that nothing else is lost.
-/

namespace Nlcpp.Encoding

open Tlv

variable (N : Nla)

/-! ### Sequences of calls -/

/-- The attribute types of the format. -/
structure AttrType where
  number : ℕ
  positive : 0 < number
  small : number < 2 ^ 14

/-- A call with a value. -/
inductive Flat where
  | bytes (value : List UInt8)
  | vector (value : List UInt8)
  | subrange (value : List UInt8)
  | address (address : List UInt8)
  | s8 (value : Int8)
  | u8 (value : UInt8)
  | s16 (value : Int16)
  | u16 (value : UInt16)
  | s32 (value : Int32)
  | u32 (value : UInt32)
  | s64 (value : Int64)
  | u64 (value : UInt64)
  | string (value : List UInt8)

/-- The call on a message. -/
def Flat.put (m : Message) (type : AttrType) : Flat → Except Exception Unit × Message
  | bytes value => putBytes N m type.number value
  | vector value => putVector N m type.number value
  | subrange value => putSubrange N m type.number value
  | address value => putAddress N m type.number value
  | s8 value => put_s8 N m type.number value
  | u8 value => put_u8 N m type.number value
  | s16 value => put_s16 N m type.number value
  | u16 value => put_u16 N m type.number value
  | s32 value => put_s32 N m type.number value
  | u32 value => put_u32 N m type.number value
  | s64 value => put_s64 N m type.number value
  | u64 value => put_u64 N m type.number value
  | string value => putString N m type.number value

/-- A sequence of calls, each followed by the next ones. The value of a nested one is a new
message with a sequence of its own. -/
inductive Puts where
  | done
  | flat (type : AttrType) (call : Flat) (next : Puts)
  | nested (type : AttrType) (inner next : Puts)

/-- The message after these calls. -/
def Puts.build (m : Message) : Puts → Message
  | done => m
  | flat type call next => next.build (call.put N m type).2
  | nested type inner next => next.build (putNested N m type.number (inner.build newMessage)).2

/-! ### Reading back -/

/-- The attributes that `nla_for_each_attr` visits, with type and payload. -/
def attributes (stream : List UInt8) : List (ℕ × List UInt8) :=
  (Reference.elements stream stream.length 0 stream.length).map fun a =>
    (a.1, (stream.drop a.2.payload).take a.2.len)

/-- The payload is the whole value given. -/
def Flat.Given (payload : List UInt8) : Flat → Prop
  | bytes value | vector value | subrange value | address value => payload = value
  | s8 value => payload.length = 1 ∧ (UInt8.ofNat (ofHost payload)).toInt8 = value
  | u8 value => payload.length = 1 ∧ UInt8.ofNat (ofHost payload) = value
  | s16 value => payload.length = 2 ∧ (UInt16.ofNat (ofHost payload)).toInt16 = value
  | u16 value => payload.length = 2 ∧ UInt16.ofNat (ofHost payload) = value
  | s32 value => payload.length = 4 ∧ (UInt32.ofNat (ofHost payload)).toInt32 = value
  | u32 value => payload.length = 4 ∧ UInt32.ofNat (ofHost payload) = value
  | s64 value => payload.length = 8 ∧ (UInt64.ofNat (ofHost payload)).toInt64 = value
  | u64 value => payload.length = 8 ∧ UInt64.ofNat (ofHost payload) = value
  | string value => payload = value ++ [0]

/-- These are the attributes of the calls that return, in their order. -/
def Puts.ReadBack (m : Message) : Puts → List (ℕ × List UInt8) → Prop
  | done, attrs => attrs = []
  | flat type call next, attrs =>
    match call.put N m type with
    | (.ok _, m') => ∃ payload rest, attrs = (type.number, payload) :: rest ∧
        call.Given payload ∧ next.ReadBack m' rest
    | (.error _, m') => next.ReadBack m' attrs
  | nested type inner next, attrs =>
    match putNested N m type.number (inner.build N newMessage) with
    | (.ok _, m') => ∃ payload rest, attrs = (type.number, payload) :: rest ∧
        inner.ReadBack newMessage (attributes payload) ∧ next.ReadBack m' rest
    | (.error _, m') => next.ReadBack m' attrs

/-- A call that throws leaves the message as it is. -/
def Puts.Untouched (m : Message) : Puts → Prop
  | done => True
  | flat type call next =>
    (∀ e, (call.put N m type).1 = .error e → (call.put N m type).2 = m) ∧
      next.Untouched (call.put N m type).2
  | nested type inner next =>
    inner.Untouched newMessage ∧
      (∀ e, (putNested N m type.number (inner.build N newMessage)).1 = .error e →
        (putNested N m type.number (inner.build N newMessage)).2 = m) ∧
      next.Untouched (putNested N m type.number (inner.build N newMessage)).2

/-! ### What `nla_put` does -/

/-- There is room for an attribute with a payload of `len` bytes. -/
def Fits (capacity : ℕ) (m : Message) (len : ℕ) : Prop :=
  m.attrs.length + (len + 4 + padding (len + 4)) ≤ capacity

/-- `nla_put` appends an attribute when there is room for it, and fails without effect
otherwise. The room is that of a page, less than the largest length of an attribute. -/
structure Appends (capacity : ℕ) : Prop where
  small : capacity < 2 ^ 16
  appends : ∀ m (type : AttrType) data, Fits capacity m data.length →
    (N.nlaPut m type.number data).1 = 0 ∧ ∃ p : Plain, p.type = UInt16.ofNat type.number ∧
      p.bytes = data ∧ ∃ pad : List UInt8, pad.length = padding p.attr.size ∧
        (N.nlaPut m type.number data).2.attrs = m.attrs ++ (p.attr.header ++ p.bytes ++ pad)
  refuses : ∀ m (type : AttrType) data, ¬Fits capacity m data.length →
    (N.nlaPut m type.number data).1 < 0 ∧ (N.nlaPut m type.number data).2 = m

/-- A length is accepted: it is not negative, and there is room. -/
def Accepts (capacity : ℕ) (m : Message) (len : ℤ) : Prop :=
  0 ≤ len ∧ Fits capacity m len.toNat

/-! ### Streams of whole attributes -/

/-- The stream of these attributes, padded to its end. -/
def Framed (written : List Plain) (stream : List UInt8) : Prop :=
  stream.length = (layout 0 (written.map Plain.attr)).length ∧
    Fills (layout 0 (written.map Plain.attr)) stream

/-- Type and payload. -/
def entry (p : Plain) : ℕ × List UInt8 := (p.attr.kind, p.bytes)

theorem framed_nil : Framed [] [] := ⟨rfl, trivial⟩

/-- What is read of a stream of attributes is these attributes. -/
theorem Framed.attributes {written : List Plain} {stream : List UInt8}
    (framed : Framed written stream) : attributes stream = written.map entry := by
  obtain ⟨length, fills⟩ := framed
  have enough : (written.map Plain.attr).length ≤ stream.length := by
    rw [length]
    exact length_le_layout _ _
  have whole : Fills (layout 0 (written.map Plain.attr)) (stream.drop 0) := fills
  have found := Reference.elements_layout whole enough
  rw [← length, placed_map, List.map_map] at found
  have each : ∀ e ∈ placed Plain.attr 0 written,
      (e.2.attr.kind, (stream.drop e.1).take e.2.attr.payload.length) = entry e.2 := by
    intro e mem
    have bytes := (whole.placed mem).take List.prefix_rfl
    rw [show e.2.attr.payload = e.2.bytes.map some from rfl, List.length_map, bytes]
    rfl
  calc Encoding.attributes stream
      = (placed Plain.attr 0 written).map fun e =>
          (e.2.attr.kind, (stream.drop e.1).take e.2.attr.payload.length) := by
        rw [Encoding.attributes, found, List.map_map]
        rfl
    _ = (placed Plain.attr 0 written).map (entry ∘ Prod.snd) := List.map_congr_left each
    _ = written.map entry := by rw [← List.map_map, placed_map_snd]

theorem Framed.append {written : List Plain} {stream pad : List UInt8}
    (framed : Framed written stream) (p : Plain) (length : pad.length = padding p.attr.size) :
    Framed (written ++ [p]) (stream ++ (p.attr.header ++ p.bytes ++ pad)) := by
  obtain ⟨whole, fills⟩ := framed
  have same : layout 0 ((written ++ [p]).map Plain.attr) =
      layout 0 (written.map Plain.attr) ++ p.attr.cells (padding p.attr.size) := by
    rw [List.map_append]
    exact layout_append _ _
  constructor
  · rw [same]
    simp only [List.length_append, whole, length, Attr.cells, List.length_map,
      List.length_replicate, Plain.attr]
  · rw [same, Attr.cells, ← length]
    have header : Fills (p.attr.header.map some) p.attr.header := fills_some _
    have payload : Fills (p.bytes.map some) p.bytes := fills_some _
    have padded : Fills (List.replicate pad.length none) pad := fills_replicate _
    exact fills.concat whole.symm
      ((header.concat (List.length_map _) payload).concat (by simp) padded)

/-! ### One call -/

section Call

variable {N} {capacity : ℕ} (appends : Appends N capacity) {m : Message} {written : List Plain}

theorem toInt_le (size : ℕ) : toInt size ≤ size := by
  unfold toInt
  split
  · omega
  · omega

include appends

/-- A call with an accepted length returns. -/
theorem putWith_returns (function : String) (type : AttrType) {len : ℤ} {data : List UInt8}
    (inside : len ≤ data.length) (accepts : Accepts capacity m len) :
    putWith N function m type.number len data =
        (.ok (), (N.nlaPut m type.number (data.take len.toNat)).2) ∧
      Fits capacity m (data.take len.toNat).length := by
  obtain ⟨positive, fits⟩ := accepts
  have length : (data.take len.toNat).length = len.toNat := by
    rw [List.length_take]
    omega
  rw [← length] at fits
  have put : nla_put N m type.number len data = N.nlaPut m type.number (data.take len.toNat) :=
    if_neg (Int.not_lt.mpr positive)
  rw [putWith, put, (appends.appends m type _ fits).1, Exception.throwCode_zero]
  exact ⟨rfl, fits⟩

/-- A call with an accepted length returns, and its bytes are appended as an attribute. -/
theorem putWith_accepted (framed : Framed written m.attrs) (function : String) (type : AttrType)
    {len : ℤ} {data : List UInt8} (inside : len ≤ data.length) (accepts : Accepts capacity m len) :
    ∃ m' p, putWith N function m type.number len data = (.ok (), m') ∧
      entry p = (type.number, data.take len.toNat) ∧ Framed (written ++ [p]) m'.attrs := by
  obtain ⟨returned, fits⟩ := putWith_returns appends function type inside accepts
  obtain ⟨-, p, kind, bytes, pad, padded, stream⟩ := appends.appends m type _ fits
  refine ⟨_, p, returned, ?_, ?_⟩
  · have small := type.small
    rw [entry, bytes, Attr.kind, Plain.attr, kind, UInt16.toNat_ofNat', Nat.mod_eq_of_lt,
      Nat.mod_eq_of_lt]
    all_goals omega
  · rw [stream]
    exact framed.append p padded

/-- A call with any other length throws and changes nothing. -/
theorem putWith_refused (function : String) (type : AttrType) {len : ℤ} {data : List UInt8}
    (inside : len ≤ data.length) (refused : ¬Accepts capacity m len) :
    ∃ e, putWith N function m type.number len data = (.error e, m) := by
  by_cases negative : len < 0
  · have put : nla_put N m type.number len data = (-NLE_NOMEM, m) := if_pos negative
    obtain ⟨e, thrown, -⟩ := Exception.throwCode_ne_zero function (by decide : -NLE_NOMEM ≠ 0)
    exact ⟨e, by rw [putWith, put, thrown]⟩
  · have length : (data.take len.toNat).length = len.toNat := by
      rw [List.length_take]
      omega
    have full : ¬Fits capacity m (data.take len.toNat).length := by
      rw [length]
      exact fun fits => refused ⟨Int.not_lt.mp negative, fits⟩
    obtain ⟨code, same⟩ := appends.refuses m type _ full
    have put : nla_put N m type.number len data = N.nlaPut m type.number (data.take len.toNat) :=
      if_neg negative
    obtain ⟨e, thrown, -⟩ := Exception.throwCode_ne_zero function (Int.ne_of_lt code)
    exact ⟨e, by rw [putWith, put, thrown, same]⟩

end Call

/-! ### What the members hand to `nla_put` -/

namespace Flat

/-- The name in the exception. -/
def function : Flat → String
  | s8 _ => "put_s8"
  | u8 _ => "put_u8"
  | s16 _ => "put_s16"
  | u16 _ => "put_u16"
  | s32 _ => "put_s32"
  | u32 _ => "put_u32"
  | s64 _ => "put_s64"
  | u64 _ => "put_u64"
  | _ => "put"

def length : Flat → ℤ
  | bytes value | vector value | subrange value | address value => toInt value.length
  | s8 _ | u8 _ => 1
  | s16 _ | u16 _ => 2
  | s32 _ | u32 _ => 4
  | s64 _ | u64 _ => 8
  | string value => toInt ((cStr value).length + 1)

def data : Flat → List UInt8
  | bytes value | vector value | subrange value | address value => value
  | s8 value => hostBytes 1 value.toUInt8.toNat
  | u8 value => hostBytes 1 value.toNat
  | s16 value => hostBytes 2 value.toUInt16.toNat
  | u16 value => hostBytes 2 value.toNat
  | s32 value => hostBytes 4 value.toUInt32.toNat
  | u32 value => hostBytes 4 value.toNat
  | s64 value => hostBytes 8 value.toUInt64.toNat
  | u64 value => hostBytes 8 value.toNat
  | string value => cStr value ++ [0]

/-- The length that `nla_put` gets is that of the value, and a string ends where its first
NUL is. -/
def Whole : Flat → Prop
  | bytes value | vector value | subrange value | address value => toInt value.length = value.length
  | string value => 0 ∉ value ∧ toInt (value.length + 1) = value.length + 1
  | _ => True

theorem put_eq (m : Message) (type : AttrType) (call : Flat) :
    call.put N m type = putWith N call.function m type.number call.length call.data := by
  cases call <;> rfl

theorem hostBytes_length (width value : ℕ) : (hostBytes width value).length = width := by
  induction width generalizing value with
  | zero => rfl
  | succ width ih => rw [hostBytes, List.length_cons, ih]

/-- The bytes of a number in memory are read back as the number. -/
theorem ofHost_hostBytes (width : ℕ) {value : ℕ} (small : value < 256 ^ width) :
    ofHost (hostBytes width value) = value := by
  induction width generalizing value with
  | zero =>
      rw [pow_zero] at small
      rw [Nat.lt_one_iff.mp small]
      rfl
  | succ width ih =>
      have rest := ih (Nat.div_lt_of_lt_mul (by rwa [pow_succ'] at small))
      simp only [ofHost] at rest
      rw [hostBytes, ofHost, List.foldr_cons, rest, UInt8.toNat_ofNat']
      omega

theorem length_le (call : Flat) : call.length ≤ call.data.length := by
  cases call with
  | bytes value | vector value | subrange value | address value => exact toInt_le _
  | string value =>
      simp only [length, data, List.length_append]
      exact toInt_le _
  | s8 value | u8 value | s16 value | u16 value | s32 value | u32 value | s64 value | u64 value =>
      simp [length, data, hostBytes_length]

theorem take_iff {value : List UInt8} (positive : 0 ≤ toInt value.length) :
    value.take (toInt value.length).toNat = value ↔ toInt value.length = value.length := by
  rw [List.take_eq_self_iff]
  have bound := toInt_le value.length
  omega

theorem string_iff {value : List UInt8} (positive : 0 ≤ toInt ((cStr value).length + 1)) :
    (cStr value ++ [0]).take (toInt ((cStr value).length + 1)).toNat = value ++ [0] ↔
      0 ∉ value ∧ toInt (value.length + 1) = value.length + 1 := by
  have shorter : (cStr value).length ≤ value.length := (List.takeWhile_prefix _).length_le
  have bound := toInt_le ((cStr value).length + 1)
  constructor
  · intro same
    have lengths := congrArg List.length same
    simp only [List.length_take, List.length_append, List.length_singleton] at lengths
    have all : (cStr value).length = value.length := by omega
    have whole : cStr value = value := (List.takeWhile_prefix _).eq_of_length all
    refine ⟨cStr_eq_iff.mp whole, ?_⟩
    rw [all] at lengths bound positive
    omega
  · rintro ⟨noNul, exact_⟩
    rw [cStr_eq_iff.mpr noNul, exact_]
    exact List.take_of_length_le (by simp)

theorem take_hostBytes (width value : ℕ) :
    (hostBytes width value).take width = hostBytes width value :=
  List.take_of_length_le (le_of_eq (hostBytes_length width value))

/-- A payload that arrives is the value given exactly when the call is whole. -/
theorem given_iff {call : Flat} (positive : 0 ≤ call.length) :
    call.Given (call.data.take call.length.toNat) ↔ call.Whole := by
  cases call with
  | bytes value | vector value | subrange value | address value => exact take_iff positive
  | string value => exact string_iff positive
  | s8 value =>
      simp [Given, data, length, Whole, take_hostBytes, hostBytes_length,
        ofHost_hostBytes 1 value.toUInt8.toNat_lt]
  | u8 value =>
      simp [Given, data, length, Whole, take_hostBytes, hostBytes_length,
        ofHost_hostBytes 1 value.toNat_lt]
  | s16 value =>
      simp [Given, data, length, Whole, take_hostBytes, hostBytes_length,
        ofHost_hostBytes 2 value.toUInt16.toNat_lt]
  | u16 value =>
      simp [Given, data, length, Whole, take_hostBytes, hostBytes_length,
        ofHost_hostBytes 2 value.toNat_lt]
  | s32 value =>
      simp [Given, data, length, Whole, take_hostBytes, hostBytes_length,
        ofHost_hostBytes 4 value.toUInt32.toNat_lt]
  | u32 value =>
      simp [Given, data, length, Whole, take_hostBytes, hostBytes_length,
        ofHost_hostBytes 4 value.toNat_lt]
  | s64 value =>
      simp [Given, data, length, Whole, take_hostBytes, hostBytes_length,
        ofHost_hostBytes 8 value.toUInt64.toNat_lt]
  | u64 value =>
      simp [Given, data, length, Whole, take_hostBytes, hostBytes_length,
        ofHost_hostBytes 8 value.toNat_lt]

end Flat

/-! ### Sequences -/

/-- Every call is whole or refused in the message it is made on, and so are the calls of a
nested message that is put. -/
def Puts.Whole (capacity : ℕ) (m : Message) : Puts → Prop
  | done => True
  | flat type call next =>
    (call.Whole ∨ ¬Accepts capacity m call.length) ∧ next.Whole capacity (call.put N m type).2
  | nested type inner next =>
    (inner.Whole capacity newMessage ∨
      ¬Accepts capacity m (inner.build N newMessage).attrs.length) ∧
    next.Whole capacity (putNested N m type.number (inner.build N newMessage)).2

section Sequence

omit N in
theorem exists_head_iff {α β : Type} {a : α} {b : β} {rest : List (α × β)} {P : β → Prop}
    {Q : List (α × β) → Prop} :
    (∃ b' rest', (a, b) :: rest = (a, b') :: rest' ∧ P b' ∧ Q rest') ↔ P b ∧ Q rest := by
  constructor
  · rintro ⟨b', rest', same, head, tail⟩
    cases same
    exact ⟨head, tail⟩
  · exact fun both => ⟨b, rest, rfl, both⟩

variable {N} {capacity : ℕ} (appends : Appends N capacity)

include appends

/-- What a sequence adds to a stream, and when this is what it should read back as. -/
theorem readBack_added (puts : Puts) {m : Message} {written : List Plain}
    (framed : Framed written m.attrs) :
    ∃ more, Framed (written ++ more) (puts.build N m).attrs ∧
      (puts.ReadBack N m (more.map entry) ↔ puts.Whole N capacity m) := by
  induction puts generalizing m written with
  | done => exact ⟨[], by rwa [List.append_nil], by simp [Puts.ReadBack, Puts.Whole]⟩
  | flat type call next ih =>
      have put := call.put_eq N m type
      by_cases accepts : Accepts capacity m call.length
      · obtain ⟨m', p, returned, read, framed'⟩ :=
          putWith_accepted appends framed call.function type call.length_le accepts
        rw [returned] at put
        obtain ⟨more, whole, rest⟩ := ih framed'
        refine ⟨p :: more, ?_, ?_⟩
        · rw [Puts.build, put]
          rwa [List.append_assoc] at whole
        · simp only [Puts.ReadBack, Puts.Whole, put, List.map_cons, read, exists_head_iff, rest,
            Flat.given_iff accepts.1, accepts, not_true_eq_false, or_false]
      · obtain ⟨e, refused⟩ :=
          putWith_refused appends call.function type call.length_le accepts
        rw [refused] at put
        obtain ⟨more, whole, rest⟩ := ih framed
        refine ⟨more, ?_, ?_⟩
        · rwa [Puts.build, put]
        · simp only [Puts.ReadBack, Puts.Whole, put, rest, accepts, not_false_eq_true, or_true,
            true_and]
  | nested type inner next ihInner ih =>
      obtain ⟨own, framedInner, innerRead⟩ := ihInner (m := newMessage) framed_nil
      rw [List.nil_append] at framedInner
      have put : putNested N m type.number (inner.build N newMessage) =
          putWith N "put" m type.number (inner.build N newMessage).attrs.length
            (inner.build N newMessage).attrs := rfl
      by_cases accepts : Accepts capacity m (inner.build N newMessage).attrs.length
      · obtain ⟨m', p, returned, read, framed'⟩ :=
          putWith_accepted appends framed "put" type (le_refl _) accepts
        rw [Int.toNat_natCast, List.take_length] at read
        rw [returned] at put
        obtain ⟨more, whole, rest⟩ := ih framed'
        refine ⟨p :: more, ?_, ?_⟩
        · rw [Puts.build, put]
          rwa [List.append_assoc] at whole
        · simp only [Puts.ReadBack, Puts.Whole, put, List.map_cons, read, exists_head_iff, rest,
            framedInner.attributes, innerRead, accepts, not_true_eq_false, or_false]
      · obtain ⟨e, refused⟩ := putWith_refused appends "put" type (le_refl _) accepts
        rw [refused] at put
        obtain ⟨more, whole, rest⟩ := ih framed
        refine ⟨more, ?_, ?_⟩
        · rwa [Puts.build, put]
        · simp only [Puts.ReadBack, Puts.Whole, put, rest, accepts, not_false_eq_true, or_true,
            true_and]

/-- A call that throws leaves the message as it is. -/
theorem untouched (puts : Puts) (m : Message) : puts.Untouched N m := by
  have refused (function : String) {type : AttrType} {m : Message} {len : ℤ} {data : List UInt8}
      (inside : len ≤ data.length) (e : Exception)
      (thrown : (putWith N function m type.number len data).1 = .error e) :
      (putWith N function m type.number len data).2 = m := by
    by_cases accepts : Accepts capacity m len
    · rw [(putWith_returns appends function type inside accepts).1] at thrown
      cases thrown
    · obtain ⟨e', same⟩ := putWith_refused appends function type inside accepts
      rw [same]
  induction puts generalizing m with
  | done => trivial
  | flat type call next ih =>
      refine ⟨fun e thrown => ?_, ih _⟩
      rw [call.put_eq] at thrown ⊢
      exact refused call.function call.length_le e thrown
  | nested type inner next ihInner ih =>
      exact ⟨ihInner _, fun e thrown => refused "put" (le_refl _) e thrown, ih _⟩

end Sequence

/-- **Attributes put are the attributes read** exactly when every call is whole or refused:
no length that changes as an `int` is accepted, and no string with a NUL. -/
theorem readBack_iff {N : Nla} {capacity : ℕ} (appends : Appends N capacity) (puts : Puts) :
    (puts.ReadBack N newMessage (attributes (puts.build N newMessage).attrs) ∧
      puts.Untouched N newMessage) ↔ puts.Whole N capacity newMessage := by
  obtain ⟨more, framed, read⟩ := readBack_added appends puts (m := newMessage) framed_nil
  rw [List.nil_append] at framed
  rw [framed.attributes, read]
  exact and_iff_left (untouched appends puts newMessage)

/-! ### The implementation -/

theorem attrBytes_length (type : ℤ) (data : List UInt8) :
    (Reference.attrBytes type data).length = data.length + 4 + padding (data.length + 4) := by
  simp [Reference.attrBytes, padding]
  omega

theorem reference_appends : Appends Nla.reference 4076 where
  small := by decide
  appends := by
    intro m type data fits
    have room : (m.attrs ++ Reference.attrBytes type.number data).length + 20 ≤ 4096 := by
      rw [List.length_append, attrBytes_length]
      unfold Fits at fits
      omega
    have bound : data.length + 4 < 2 ^ 16 := by
      unfold Fits at fits
      omega
    have put : Nla.reference.nlaPut m type.number data =
        (0, { m with attrs := m.attrs ++ Reference.attrBytes type.number data }) := if_pos room
    refine ⟨by rw [put], ⟨UInt16.ofNat type.number, data, bound⟩, rfl, rfl,
      List.replicate (padding (data.length + 4)) 0, ?_, ?_⟩
    · simp [Attr.size, Plain.attr]
    · rw [put]
      have number : (UInt16.ofNat type.number).toNat = type.number :=
        UInt16.toNat_ofNat_of_lt' (lt_trans type.small (by decide))
      simp [Reference.attrBytes, Attr.header, Attr.size, Plain.attr, number, padding]
  refuses := by
    intro m type data full
    have noRoom : ¬(m.attrs ++ Reference.attrBytes type.number data).length + 20 ≤ 4096 := by
      rw [List.length_append, attrBytes_length]
      unfold Fits at full
      omega
    have put : Nla.reference.nlaPut m type.number data = (-5, m) := if_neg noRoom
    rw [put]
    exact ⟨(by decide : (-5 : ℤ) < 0), rfl⟩

/-- A message with a number, a string and a nested message. -/
def letter : Puts :=
  .flat ⟨1, by decide, by decide⟩ (.s16 (-2)) <|
    .nested ⟨2, by decide, by decide⟩ (.flat ⟨3, by decide, by decide⟩ (.string [97, 98]) .done)
      .done

theorem letter_readBack :
    letter.ReadBack Nla.reference newMessage
        (attributes (letter.build Nla.reference newMessage).attrs) ∧
      letter.Untouched Nla.reference newMessage := by
  apply (readBack_iff reference_appends letter).mpr
  exact ⟨.inl trivial, .inl ⟨.inl ⟨by decide, by decide⟩, trivial⟩, trivial⟩

/-- The rest of a string after a NUL is lost. -/
theorem nul_cuts_string :
    ¬(Puts.flat ⟨1, by decide, by decide⟩ (.string [97, 0, 98]) .done).ReadBack Nla.reference
      newMessage (attributes ((Puts.flat ⟨1, by decide, by decide⟩ (.string [97, 0, 98]) .done).build
        Nla.reference newMessage).attrs) := by
  have read : attributes ((Puts.flat ⟨1, by decide, by decide⟩ (.string [97, 0, 98]) .done).build
      Nla.reference newMessage).attrs = [(1, [97, 0])] := by decide
  rw [read]
  rintro ⟨payload, rest, same, given, -⟩
  cases same
  exact absurd given (by decide : ([97, 0] : List UInt8) ≠ [97, 0, 98] ++ [0])

end Nlcpp.Encoding
