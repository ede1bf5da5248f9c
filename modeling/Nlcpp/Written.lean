import Nlcpp.Encoding

/-!
What a sequence of puts has written when every call returned.

Whether it has is a matter of size (`returns_iff`): all calls return exactly when the
attributes fit into a message, with their headers and their padding, and those that are
nested count with all that is around them. `Writes` says which attributes these are; a
message that was put into another one is in it as a stream of its own.
-/

namespace Nlcpp.Encoding

open Tlv

/-- Every call returns, and so do those that build a nested message. -/
def Puts.Returns (N : Nla) (m : Message) : Puts → Prop
  | done => True
  | flat type call next =>
    (call.put N m type).1 = .ok () ∧ next.Returns N (call.put N m type).2
  | nested type inner next =>
    inner.Returns N newMessage ∧
      (putNested N m type.number (inner.build N newMessage)).1 = .ok () ∧
      next.Returns N (putNested N m type.number (inner.build N newMessage)).2

/-! ### When every call returns -/

/-- The bytes of an attribute with a payload of `len` bytes. -/
def room (len : ℕ) : ℕ := len + 4 + padding (len + 4)

/-- The bytes of the attributes of all calls. -/
def Puts.size : Puts → ℕ
  | done => 0
  | flat _ call next => room call.length.toNat + next.size
  | nested _ inner next => room inner.size + next.size

/-- No length is negative as an `int`. -/
def Puts.Lengths : Puts → Prop
  | done => True
  | flat _ call next => 0 ≤ call.length ∧ next.Lengths
  | nested _ inner next => inner.Lengths ∧ next.Lengths

section Size

variable {N : Nla} {capacity : ℕ} (appends : Appends N capacity) {m : Message}

include appends

theorem putWith_ok_iff (function : String) (type : AttrType) {len : ℤ} {data : List UInt8}
    (inside : len ≤ data.length) :
    (putWith N function m type.number len data).1 = .ok () ↔ Accepts capacity m len := by
  by_cases accepts : Accepts capacity m len
  · rw [(putWith_returns appends function type inside accepts).1]
    exact iff_of_true rfl accepts
  · obtain ⟨e, refused⟩ := putWith_refused appends function type inside accepts
    rw [refused]
    exact iff_of_false (fun returned => by cases returned) accepts

/-- A call that returns makes the message longer by its attribute. -/
theorem putWith_length (function : String) (type : AttrType) {len : ℤ} {data : List UInt8}
    (inside : len ≤ data.length) (accepts : Accepts capacity m len) :
    (putWith N function m type.number len data).2.attrs.length =
      m.attrs.length + room len.toNat := by
  obtain ⟨returned, fits⟩ := putWith_returns appends function type inside accepts
  obtain ⟨-, p, -, bytes, pad, padded, stream⟩ := appends.appends m type _ fits
  have length : (data.take len.toNat).length = len.toNat := by
    have positive := accepts.1
    rw [List.length_take]
    omega
  have size : p.attr.size = len.toNat + 4 := by
    rw [Attr.size, Plain.attr, List.length_map, bytes, length]
  rw [returned, stream, List.length_append, List.length_append, List.length_append, bytes, length,
    padded, size, room]
  simp only [Attr.header, List.length_cons, List.length_nil]
  omega

theorem returns_step (function : String) (type : AttrType) {len : ℤ} {data : List UInt8}
    (inside : len ≤ data.length) {more : ℕ} {rest lengths : Prop}
    (next : Accepts capacity m len →
      (rest ↔ lengths ∧ (putWith N function m type.number len data).2.attrs.length + more ≤
        capacity)) :
    (putWith N function m type.number len data).1 = .ok () ∧ rest ↔
      (0 ≤ len ∧ lengths) ∧ m.attrs.length + (room len.toNat + more) ≤ capacity := by
  rw [putWith_ok_iff appends function type inside]
  constructor
  · rintro ⟨accepts, ok⟩
    have length := putWith_length appends function type inside accepts
    obtain ⟨later, fits⟩ := (next accepts).mp ok
    rw [length] at fits
    exact ⟨⟨accepts.1, later⟩, by omega⟩
  · rintro ⟨⟨positive, later⟩, fits⟩
    have accepts : Accepts capacity m len := by
      refine ⟨positive, ?_⟩
      unfold Fits
      unfold room at fits
      omega
    have length := putWith_length appends function type inside accepts
    refine ⟨accepts, (next accepts).mpr ⟨later, ?_⟩⟩
    rw [length]
    omega

/-- The calls after others, in a message that has room for more. -/
theorem returns_from (puts : Puts) (within : m.attrs.length ≤ capacity) :
    (puts.Returns N m ↔ puts.Lengths ∧ m.attrs.length + puts.size ≤ capacity) ∧
      (puts.Returns N m → (puts.build N m).attrs.length = m.attrs.length + puts.size) := by
  induction puts generalizing m with
  | done => exact ⟨⟨fun _ => ⟨trivial, within⟩, fun _ => trivial⟩, fun _ => rfl⟩
  | flat type call next ih =>
      have after (accepts : Accepts capacity m call.length) :=
        putWith_length appends call.function type call.length_le accepts
      have room_le (accepts : Accepts capacity m call.length) :
          m.attrs.length + room call.length.toNat ≤ capacity := accepts.2
      simp only [Puts.Returns, Puts.Lengths, Puts.size, Puts.build, call.put_eq]
      constructor
      · apply returns_step appends call.function type call.length_le
        intro accepts
        exact (ih (by rw [after accepts]; exact room_le accepts)).1
      · rintro ⟨returned, rest⟩
        have accepts := (putWith_ok_iff appends call.function type call.length_le).mp returned
        rw [(ih (by rw [after accepts]; exact room_le accepts)).2 rest, after accepts,
          Nat.add_assoc]
  | nested type inner next ihInner ih =>
      obtain ⟨innerReturns, innerLength⟩ := ihInner (m := newMessage) (Nat.zero_le capacity)
      rw [show newMessage.attrs.length = 0 from rfl, Nat.zero_add] at innerReturns innerLength
      have put : putNested N m type.number (inner.build N newMessage) =
          putWith N "put" m type.number (inner.build N newMessage).attrs.length
            (inner.build N newMessage).attrs := rfl
      have after (accepts : Accepts capacity m (inner.build N newMessage).attrs.length) :=
        putWith_length appends "put" type (le_refl _) accepts
      have within' (accepts : Accepts capacity m (inner.build N newMessage).attrs.length) :
          (putWith N "put" m type.number (inner.build N newMessage).attrs.length
            (inner.build N newMessage).attrs).2.attrs.length ≤ capacity := by
        rw [after accepts]
        exact accepts.2
      simp only [Puts.Returns, Puts.Lengths, Puts.size, Puts.build, put]
      constructor
      · rw [returns_step appends "put" type (le_refl _) fun accepts => (ih (within' accepts)).1,
          Int.toNat_natCast, innerReturns]
        constructor
        · rintro ⟨inside, ⟨-, later⟩, fits⟩
          rw [innerLength (innerReturns.mpr inside)] at fits
          exact ⟨⟨inside.1, later⟩, fits⟩
        · rintro ⟨⟨lengths, later⟩, fits⟩
          have inside : inner.Lengths ∧ inner.size ≤ capacity := by
            refine ⟨lengths, ?_⟩
            unfold room at fits
            omega
          rw [innerLength (innerReturns.mpr inside)]
          exact ⟨inside, ⟨Int.natCast_nonneg _, later⟩, fits⟩
      · rintro ⟨returned, ok, rest⟩
        have accepts := (putWith_ok_iff appends "put" type (le_refl _)).mp ok
        rw [(ih (within' accepts)).2 rest, after accepts, Int.toNat_natCast, innerLength returned,
          Nat.add_assoc]

theorem returns_of_fits {puts : Puts} (lengths : puts.Lengths) (fits : puts.size ≤ capacity) :
    puts.Returns N newMessage := by
  apply (returns_from appends puts (m := newMessage) (Nat.zero_le capacity)).1.mpr
  exact ⟨lengths, (Nat.zero_add puts.size).symm ▸ fits⟩

end Size

/-- **A sequence of puts goes through exactly when it fits**: no length is negative as an
`int`, and the attributes with their headers and padding are not more than there is room
for. The message then has just these bytes. -/
theorem returns_iff {N : Nla} {capacity : ℕ} (appends : Appends N capacity) (puts : Puts) :
    (puts.Returns N newMessage ↔ puts.Lengths ∧ puts.size ≤ capacity) ∧
      (puts.Returns N newMessage → (puts.build N newMessage).attrs.length = puts.size) := by
  have from_ := returns_from appends puts (m := newMessage) (Nat.zero_le capacity)
  rwa [show newMessage.attrs.length = 0 from rfl, Nat.zero_add] at from_

theorem letter_returns : letter.Returns Nla.reference newMessage :=
  (returns_iff reference_appends letter).1.mpr
    ⟨⟨by decide, ⟨by decide, trivial⟩, trivial⟩, by decide⟩

/-! ### What has been written -/

/-- The attributes of these calls. -/
inductive Puts.Writes : Puts → List Plain → Prop
  | done : Writes .done []
  | flat {type : AttrType} {call : Flat} {next : Puts} {p : Plain} {rest : List Plain}
      (kind : p.attr.kind = type.number) (bytes : p.bytes = call.data.take call.length.toNat)
      (later : Writes next rest) : Writes (.flat type call next) (p :: rest)
  | nested {type : AttrType} {inner next : Puts} {p : Plain} {own rest : List Plain}
      (kind : p.attr.kind = type.number) (framed : Framed own p.bytes) (inside : Writes inner own)
      (later : Writes next rest) : Writes (.nested type inner next) (p :: rest)

theorem writes_of_returns {N : Nla} {capacity : ℕ} (appends : Appends N capacity) (puts : Puts)
    {m : Message} {written : List Plain} (framed : Framed written m.attrs)
    (returns : puts.Returns N m) :
    ∃ more, puts.Writes more ∧ Framed (written ++ more) (puts.build N m).attrs := by
  induction puts generalizing m written with
  | done => exact ⟨[], .done, by rwa [List.append_nil]⟩
  | flat type call next ih =>
      obtain ⟨ok, rest⟩ := returns
      have put := call.put_eq N m type
      rw [put] at ok
      have accepts := (putWith_ok_iff appends call.function type call.length_le).mp ok
      obtain ⟨m', p, returned, read, framed'⟩ :=
        putWith_accepted appends framed call.function type call.length_le accepts
      rw [returned] at put
      rw [put] at rest
      obtain ⟨more, writes, whole⟩ := ih framed' rest
      refine ⟨p :: more, .flat (congrArg Prod.fst read) (congrArg Prod.snd read) writes, ?_⟩
      rw [Puts.build, put]
      rwa [List.append_assoc] at whole
  | nested type inner next ihInner ih =>
      obtain ⟨inside, ok, rest⟩ := returns
      have put : putNested N m type.number (inner.build N newMessage) =
          putWith N "put" m type.number (inner.build N newMessage).attrs.length
            (inner.build N newMessage).attrs := rfl
      rw [put] at ok
      have accepts := (putWith_ok_iff appends "put" type (le_refl _)).mp ok
      obtain ⟨m', p, returned, read, framed'⟩ :=
        putWith_accepted appends framed "put" type (le_refl _) accepts
      rw [Int.toNat_natCast, List.take_length] at read
      obtain ⟨own, writesOwn, framedOwn⟩ := ihInner framed_nil inside
      rw [List.nil_append] at framedOwn
      have bytes : p.bytes = (inner.build N newMessage).attrs := congrArg Prod.snd read
      rw [returned] at put
      rw [put] at rest
      obtain ⟨more, writes, whole⟩ := ih framed' rest
      refine ⟨p :: more, .nested (congrArg Prod.fst read) (bytes ▸ framedOwn) writesOwn writes, ?_⟩
      rw [Puts.build, put]
      rwa [List.append_assoc] at whole

end Nlcpp.Encoding
