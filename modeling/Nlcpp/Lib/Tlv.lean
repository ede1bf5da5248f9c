import Mathlib.Data.List.Forall2

/-!
Streams of attributes: a header with length and type, a payload, and padding to a
multiple of four.

What a stream says is described by a pattern of bytes that are known and bytes that are
left open (`layout`): padding is open, and so is the padding inside a payload that is a
stream itself (`Nest`). A memory that fills the pattern has the known bytes. `placed` says
where the payloads are, which depends on nothing left open; `Terminated` and `Wide` say
that a string or a number is read from known bytes only, and `upToNul_differs` and
`take_differs` that it is not determined otherwise.
-/

namespace Nlcpp.Tlv

/-- A byte that is known, or left open. -/
abbrev Cell := Option UInt8

/-- An attribute: its type with the flags in the upper two bits, and its payload. -/
structure Attr where
  type : UInt16
  payload : List Cell
  fits : payload.length + 4 < 0x10000
deriving DecidableEq, Repr

/-- The type without the flags. -/
def Attr.kind (a : Attr) : ℕ := a.type.toNat % 0x4000

/-- The length that the header says. -/
def Attr.size (a : Attr) : ℕ := a.payload.length + 4

/-- The padding after `n` bytes. -/
def padding (n : ℕ) : ℕ := (n + 3) / 4 * 4 - n

/-- The header: length and type in host byte order (little endian). -/
def Attr.header (a : Attr) : List UInt8 :=
  [UInt8.ofNat a.size, UInt8.ofNat (a.size / 256), UInt8.ofNat a.type.toNat,
    UInt8.ofNat (a.type.toNat / 256)]

/-- Header, payload and `pad` bytes of padding. -/
def Attr.cells (a : Attr) (pad : ℕ) : List Cell :=
  a.header.map some ++ a.payload ++ List.replicate pad none

/-- The stream of these attributes. The last one lacks `short` bytes of its padding. -/
def layout (short : ℕ) : List Attr → List Cell
  | [] => []
  | a :: rest =>
    a.cells (if rest = [] then padding a.size - short else padding a.size) ++ layout short rest

/-- Where the payloads of these attributes are, in a stream that starts at `start`. -/
def placed {α : Type} (attr : α → Attr) (start : ℕ) : List α → List (ℕ × α)
  | [] => []
  | x :: rest =>
    (start + 4, x) :: placed attr (start + (attr x).size + padding (attr x).size) rest

/-- The last of these with this type. -/
def lastOf {α : Type} (kind : α → ℕ) (type : ℕ) (xs : List α) : Option α :=
  xs.reverse.find? fun x => kind x = type

/-- The last attribute of a type, with its place. -/
def lastPlaced {α : Type} (attr : α → Attr) (type start : ℕ) (xs : List α) : Option (ℕ × α) :=
  lastOf (fun e => (attr e.2).kind) type (placed attr start xs)

/-- An attribute with a payload of known bytes. -/
structure Plain where
  type : UInt16
  bytes : List UInt8
  fits : bytes.length + 4 < 0x10000
deriving DecidableEq, Repr

def Plain.attr (p : Plain) : Attr where
  type := p.type
  payload := p.bytes.map some
  fits := by
    rw [List.length_map]
    exact p.fits

/-- An attribute with a stream of attributes as its payload. -/
structure Nest {α : Type} (attr : α → Attr) where
  type : UInt16
  inner : List α
  short : ℕ
  fits : (layout short (inner.map attr)).length + 4 < 0x10000

def Nest.attr {α : Type} {attr : α → Attr} (n : Nest attr) : Attr where
  type := n.type
  payload := layout n.short (n.inner.map attr)
  fits := n.fits

/-- The memory is at least as long as the pattern, and has its known bytes. -/
def Fills : List Cell → List UInt8 → Prop
  | [], _ => True
  | _ :: _, [] => False
  | c :: cells, b :: memory => (c = none ∨ c = some b) ∧ Fills cells memory

/-- The pattern starts with these known bytes. -/
def Known (bytes : List UInt8) (cells : List Cell) : Prop := bytes.map some <+: cells

/-- The bytes of a plain attribute are as the payload of this one says. -/
structure Covers (a : Attr) (p : Plain) : Prop where
  type : a.type = p.type
  length : a.payload.length = p.bytes.length
  fills : Fills a.payload p.bytes

instance (bytes : List UInt8) (cells : List Cell) : Decidable (Known bytes cells) :=
  inferInstanceAs (Decidable (bytes.map some <+: cells))

/-! ### Patterns and memories -/

section Fills

variable {cells cells' : List Cell} {memory : List UInt8}

instance decidableFills : (cells : List Cell) → (memory : List UInt8) →
    Decidable (Fills cells memory)
  | [], _ => instDecidableTrue
  | _ :: _, [] => instDecidableFalse
  | c :: cells, b :: memory =>
    @instDecidableAnd _ _ (inferInstanceAs (Decidable (c = none ∨ c = some b)))
      (decidableFills cells memory)

theorem fills_append :
    Fills (cells ++ cells') memory ↔
      Fills cells memory ∧ Fills cells' (memory.drop cells.length) := by
  induction cells generalizing memory with
  | nil => simp [Fills]
  | cons c cells ih =>
      cases memory with
      | nil => simp [Fills]
      | cons b memory => simp [Fills, ih, and_assoc]

theorem Fills.append (fills : Fills cells memory) (more : List UInt8) :
    Fills cells (memory ++ more) := by
  induction cells generalizing memory with
  | nil => trivial
  | cons c cells ih =>
      cases memory with
      | nil => exact fills.elim
      | cons b memory => exact ⟨fills.1, ih fills.2⟩

theorem Fills.concat (fills : Fills cells memory) (whole : cells.length = memory.length)
    {memory' : List UInt8} (fills' : Fills cells' memory') :
    Fills (cells ++ cells') (memory ++ memory') := by
  refine fills_append.mpr ⟨fills.append memory', ?_⟩
  rwa [whole, List.drop_left]

theorem Fills.drop (fills : Fills cells memory) (n : ℕ) :
    Fills (cells.drop n) (memory.drop n) := by
  induction n generalizing cells memory with
  | zero => exact fills
  | succ n ih =>
      cases cells with
      | nil => trivial
      | cons c cells =>
          cases memory with
          | nil => exact fills.elim
          | cons b memory => exact ih fills.2

/-- What is known of the pattern is in the memory. -/
theorem Fills.known (fills : Fills cells memory) {bytes : List UInt8}
    (known : Known bytes cells) : bytes <+: memory := by
  induction bytes generalizing cells memory with
  | nil => exact List.nil_prefix
  | cons b bytes ih =>
      obtain ⟨rest, rfl⟩ := known
      cases memory with
      | nil => exact fills.elim
      | cons b' memory =>
          obtain ⟨first, later⟩ := fills
          rcases first with none | same
          · cases none
          · cases same
            exact List.cons_prefix_cons.mpr ⟨rfl, ih later ⟨rest, rfl⟩⟩

/-- The pattern with one byte for all that is open. -/
def fill (b : UInt8) (cells : List Cell) : List UInt8 := cells.map fun c => c.getD b

theorem fills_fill (b : UInt8) (cells : List Cell) : Fills cells (fill b cells) := by
  induction cells with
  | nil => trivial
  | cons c cells ih =>
      refine ⟨?_, ih⟩
      cases c with
      | none => exact .inl rfl
      | some k => exact .inr rfl

@[simp] theorem fill_length (b : UInt8) (cells : List Cell) :
    (fill b cells).length = cells.length :=
  List.length_map ..

theorem fills_some (bytes : List UInt8) : Fills (bytes.map some) bytes := by
  induction bytes with
  | nil => trivial
  | cons b bytes ih => exact ⟨.inr rfl, ih⟩

theorem fills_replicate (bytes : List UInt8) : Fills (List.replicate bytes.length none) bytes := by
  induction bytes with
  | nil => trivial
  | cons b bytes ih => exact ⟨.inl rfl, ih⟩

/-- What is known of the bytes is known of the memory that has them. -/
theorem Fills.through {bytes : List UInt8} (fills : Fills cells bytes)
    (here : Fills (bytes.map some) memory) : Fills cells memory := by
  induction cells generalizing bytes memory with
  | nil => trivial
  | cons c cells ih =>
      cases bytes with
      | nil => exact fills.elim
      | cons b bytes =>
          cases memory with
          | nil => exact here.elim
          | cons b' memory =>
              have same : b = b' := by simpa using here.1
              exact ⟨same ▸ fills.1, ih fills.2 here.2⟩

theorem fill_drop (b : UInt8) (cells : List Cell) (n : ℕ) :
    (fill b cells).drop n = fill b (cells.drop n) :=
  List.map_drop.symm

end Fills

/-! ### Places -/

section Places

variable {start short : ℕ} {attrs : List Attr}

theorem Attr.cells_length (a : Attr) (pad : ℕ) : (a.cells pad).length = a.size + pad := by
  simp [Attr.cells, Attr.header, Attr.size]
  omega

theorem layout_append (attrs : List Attr) (a : Attr) :
    layout 0 (attrs ++ [a]) = layout 0 attrs ++ a.cells (padding a.size) := by
  induction attrs with
  | nil => simp [layout]
  | cons a' rest ih => simp [layout, ih]

theorem length_le_layout (short : ℕ) (attrs : List Attr) :
    attrs.length ≤ (layout short attrs).length := by
  induction attrs with
  | nil => exact Nat.zero_le _
  | cons a rest ih =>
      rw [layout, List.length_append, Attr.cells_length, List.length_cons, Attr.size]
      omega

theorem padding_le (n : ℕ) : padding n ≤ 3 := by
  unfold padding
  omega

section Last

variable {α β : Type} {kind : α → ℕ} {type : ℕ}

theorem lastOf_mem {xs : List α} {x : α} (last : lastOf kind type xs = some x) :
    x ∈ xs ∧ kind x = type :=
  ⟨List.mem_reverse.mp (List.mem_of_find?_eq_some last), by simpa using List.find?_some last⟩

theorem lastOf_map (kind : α → ℕ) (f : β → α) (xs : List β) :
    lastOf kind type (xs.map f) = (lastOf (fun x => kind (f x)) type xs).map f := by
  simp only [lastOf, ← List.map_reverse, List.find?_map]
  rfl

end Last

section Placed

variable {α : Type} {attr : α → Attr}

theorem placed_map_snd (start : ℕ) (xs : List α) : (placed attr start xs).map Prod.snd = xs := by
  induction xs generalizing start with
  | nil => rfl
  | cons x rest ih => exact congrArg (x :: ·) (ih _)

theorem mem_of_placed {start : ℕ} {xs : List α} {e : ℕ × α} (mem : e ∈ placed attr start xs) :
    e.2 ∈ xs := by
  have inside := List.mem_map_of_mem (f := Prod.snd) mem
  rwa [placed_map_snd] at inside

/-- The places of the attributes are those of what they are attributes of. -/
theorem placed_map (start : ℕ) (xs : List α) :
    placed id start (xs.map attr) = (placed attr start xs).map fun e => (e.1, attr e.2) := by
  induction xs generalizing start with
  | nil => rfl
  | cons x rest ih => exact congrArg ((start + 4, attr x) :: ·) (ih _)

/-- The last ones of two lists with the same kinds belong together. -/
theorem lastOf_rel {α β : Type} {kind : α → ℕ} {kind' : β → ℕ} {R : α → β → Prop} (type : ℕ)
    (same : ∀ x y, R x y → kind x = kind' y) {xs : List α} {ys : List β}
    (related : List.Forall₂ R xs ys) :
    Option.Rel R (lastOf kind type xs) (lastOf kind' type ys) := by
  have backwards := List.forall₂_reverse_iff.mpr related
  unfold lastOf
  generalize xs.reverse = xs, ys.reverse = ys at backwards
  induction backwards with
  | nil => exact .none
  | @cons x y xs ys here later ih =>
      rw [List.find?_cons, List.find?_cons, same x y here]
      cases decide (kind' y = type) with
      | true => exact .some here
      | false => exact ih

/-- The last one is the same with and without its place. -/
theorem lastOf_eq (attr : α → Attr) (start type : ℕ) (xs : List α) :
    lastOf (fun x => (attr x).kind) type xs = (lastPlaced attr type start xs).map Prod.snd := by
  rw [lastPlaced, ← lastOf_map (fun x => (attr x).kind), placed_map_snd]

/-- A placed payload is in the stream at its place. -/
theorem mem_placed (short : ℕ) {xs : List α} {e : ℕ × α} (mem : e ∈ placed attr start xs) :
    ∃ offset, e.1 = start + offset ∧
      (attr e.2).payload <+: (layout short (xs.map attr)).drop offset ∧
      offset + (attr e.2).payload.length ≤ (layout short (xs.map attr)).length := by
  induction xs generalizing start with
  | nil => cases mem
  | cons x rest ih =>
      rcases List.mem_cons.mp mem with rfl | later
      · have four : 4 = ((attr x).header.map some).length := rfl
        refine ⟨4, rfl, ?_, ?_⟩
        · simp only [List.map_cons, layout, Attr.cells, List.append_assoc]
          rw [four, List.drop_left]
          exact List.prefix_append _ _
        · simp only [List.map_cons, layout, List.length_append, Attr.cells_length, Attr.size]
          omega
      · have notLast : rest.map attr ≠ [] := by
          intro none
          rw [List.map_eq_nil_iff.mp none] at later
          cases later
        obtain ⟨offset, place, here, within⟩ := ih later
        refine ⟨(attr x).size + padding (attr x).size + offset, ?_, ?_, ?_⟩
        · rw [place]
          omega
        · rwa [List.map_cons, layout, if_neg notLast, ← List.drop_drop,
            List.drop_left' (Attr.cells_length _ _)]
        · rw [List.map_cons, layout, if_neg notLast, List.length_append, Attr.cells_length]
          omega

theorem placed_le (short : ℕ) {xs : List α} {e : ℕ × α} (mem : e ∈ placed attr start xs) :
    e.1 + (attr e.2).payload.length ≤ start + (layout short (xs.map attr)).length := by
  obtain ⟨offset, place, -, within⟩ := mem_placed short mem
  omega

/-- What fills a stream fills each payload at its place. -/
theorem Fills.placed {memory : List UInt8} {xs : List α} {e : ℕ × α}
    (fills : Fills (layout short (xs.map attr)) (memory.drop start))
    (mem : e ∈ Tlv.placed attr start xs) : Fills (attr e.2).payload (memory.drop e.1) := by
  obtain ⟨offset, place, ⟨rest, here⟩, within⟩ := mem_placed short mem
  rw [← List.take_append_drop offset (layout short (xs.map attr)), ← here, fills_append,
    fills_append, List.length_take_of_le (Nat.le_trans (Nat.le_add_right _ _) within),
    List.drop_drop, ← place] at fills
  exact fills.2.1

/-- What follows a placed payload: its padding, or the end of the stream. -/
theorem after_placed {xs : List α} {e : ℕ × α} (mem : e ∈ Tlv.placed attr start xs) :
    ∃ offset rest, e.1 = start + offset ∧
      (layout 3 (xs.map attr)).drop offset = (attr e.2).payload ++ rest ∧
      (rest = [] ∨ ∃ more, rest = List.replicate (padding (attr e.2).size) none ++ more) := by
  induction xs generalizing start with
  | nil => cases mem
  | cons x rest ih =>
      rcases List.mem_cons.mp mem with rfl | later
      · have four : 4 = ((attr x).header.map some).length := rfl
        by_cases last : rest.map attr = []
        · have cut : padding (attr x).size - 3 = 0 := Nat.sub_eq_zero_of_le (padding_le _)
          refine ⟨4, [], rfl, ?_, .inl rfl⟩
          rw [List.map_cons, last, layout, if_pos rfl, cut]
          simp only [Attr.cells, layout, List.replicate_zero, List.append_nil]
          rw [four, List.drop_left]
        · refine ⟨4, List.replicate (padding (attr x).size) none ++ layout 3 (rest.map attr), rfl,
            ?_, .inr ⟨_, rfl⟩⟩
          rw [List.map_cons, layout, if_neg last]
          simp only [Attr.cells, List.append_assoc]
          rw [four, List.drop_left]
      · have notLast : rest.map attr ≠ [] := by
          intro none
          rw [List.map_eq_nil_iff.mp none] at later
          cases later
        obtain ⟨offset, after, place, here, then_⟩ := ih later
        refine ⟨(attr x).size + padding (attr x).size + offset, after, ?_, ?_, then_⟩
        · rw [place]
          omega
        · rwa [List.map_cons, layout, if_neg notLast, ← List.drop_drop,
            List.drop_left' (Attr.cells_length _ _)]

end Placed

section Covers

variable {α : Type} {attr : α → Attr} {xs : List α} {plains : List Plain}

/-- The cells of a plain attribute say at least what those of the other one say. -/
theorem Covers.cells {a : Attr} {p : Plain} (covers : Covers a p) {pad : ℕ} {memory : List UInt8}
    (fills : Fills (p.attr.cells pad) memory) : Fills (a.cells pad) memory := by
  have size : a.size = p.attr.size := by
    rw [Attr.size, Attr.size, covers.length, Plain.attr, List.length_map]
  have header : a.header = p.attr.header := by
    rw [Attr.header, Attr.header, size, covers.type, Plain.attr]
  have payload : a.payload.length = p.attr.payload.length := by
    rw [covers.length, Plain.attr, List.length_map]
  simp only [Attr.cells, header, fills_append, List.length_append, payload] at fills ⊢
  exact ⟨⟨fills.1.1, covers.fills.through fills.1.2⟩, fills.2⟩

/-- **A stream of plain attributes is a stream of what they cover.** -/
theorem layout_covers (short : ℕ)
    (covers : List.Forall₂ (fun x p => Covers (attr x) p) xs plains) :
    (layout short (xs.map attr)).length = (layout short (plains.map Plain.attr)).length ∧
      ∀ memory, Fills (layout short (plains.map Plain.attr)) memory →
        Fills (layout short (xs.map attr)) memory := by
  induction covers with
  | nil => exact ⟨rfl, fun _ fills => fills⟩
  | @cons x p xs plains covers later ih =>
      have last : xs.map attr = [] ↔ plains.map Plain.attr = [] := by
        rw [List.map_eq_nil_iff, List.map_eq_nil_iff, ← List.length_eq_zero_iff,
          later.length_eq, List.length_eq_zero_iff]
      have size : (attr x).size = p.attr.size := by
        rw [Attr.size, Attr.size, covers.length, Plain.attr, List.length_map]
      simp only [List.map_cons, layout, last, size]
      constructor
      · rw [List.length_append, List.length_append, Attr.cells_length, Attr.cells_length, size,
          ih.1]
      · intro memory fills
        rw [fills_append] at fills ⊢
        refine ⟨covers.cells fills.1, ih.2 _ ?_⟩
        rw [Attr.cells_length, size, ← Attr.cells_length]
        exact fills.2

end Covers

/-- Without the padding at its end, a stream is the start of itself with it. -/
theorem layout_prefix (attrs : List Attr) (few : short ≤ 3) :
    layout 3 attrs <+: layout short attrs := by
  induction attrs with
  | nil => exact List.prefix_rfl
  | cons a rest ih =>
      by_cases last : rest = []
      · subst last
        have less : padding a.size - 3 ≤ padding a.size - short := by omega
        simp only [layout, if_true, List.append_nil, Attr.cells, List.append_assoc,
          List.prefix_append_right_inj]
        obtain ⟨more, same⟩ := Nat.exists_eq_add_of_le less
        rw [same, List.replicate_add]
        exact List.prefix_append _ _
      · rw [layout, layout, if_neg last, if_neg last]
        exact (List.prefix_append_right_inj _).mpr ih

end Places

/-! ### Reads -/

/-- A string that starts here meets a NUL among known bytes. -/
def Terminated (cells : List Cell) : Prop := ∃ s, 0 ∉ s ∧ Known (s ++ [0]) cells

/-- `n` known bytes start here. -/
def Wide (n : ℕ) (cells : List Cell) : Prop := ∃ bytes, bytes.length = n ∧ Known bytes cells

/-- Up to the first NUL. -/
def upToNul (bytes : List UInt8) : List UInt8 := bytes.takeWhile fun b => b ≠ 0

/-- What follows a stream where nothing is known of it. -/
def closing (b : UInt8) : List UInt8 := [b, b, b, b, 0]

section Reads

variable {cells : List Cell} {memory : List UInt8} {n : ℕ}

theorem upToNul_append {s rest : List UInt8} (noNul : 0 ∉ s) :
    upToNul (s ++ 0 :: rest) = s := by
  have other : ∀ b ∈ s, b ≠ 0 := by
    rintro b mem rfl
    exact noNul mem
  rw [upToNul, List.takeWhile_append_of_pos (by simpa using other),
    List.takeWhile_cons_of_neg (by simp), List.append_nil]

/-- A terminated string is read from known bytes. -/
theorem Fills.upToNul (fills : Fills cells memory) {s : List UInt8} (noNul : 0 ∉ s)
    (known : Known (s ++ [0]) cells) : Tlv.upToNul memory = s ∧ 0 ∈ memory := by
  obtain ⟨rest, rfl⟩ := fills.known known
  constructor
  · rw [List.append_assoc]
    exact upToNul_append noNul
  · simp

theorem Fills.take (fills : Fills cells memory) {bytes : List UInt8} (known : Known bytes cells) :
    memory.take bytes.length = bytes := by
  obtain ⟨rest, rfl⟩ := fills.known known
  exact List.take_left

theorem wide_cons {c : Cell} (wide : Wide n cells) {b : UInt8} (same : c = some b) :
    Wide (n + 1) (c :: cells) := by
  obtain ⟨bytes, length, rest, rfl⟩ := wide
  exact ⟨b :: bytes, by rw [List.length_cons, length], rest, by rw [same]; rfl⟩

theorem terminated_cons {c : Cell} (terminated : Terminated cells) {b : UInt8} (same : c = some b)
    (other : b ≠ 0) : Terminated (c :: cells) := by
  obtain ⟨s, noNul, rest, rfl⟩ := terminated
  refine ⟨b :: s, ?_, rest, by rw [same]; rfl⟩
  rw [List.mem_cons]
  rintro (zero | mem)
  · exact other zero.symm
  · exact noNul mem

/-- **A string that runs into open bytes is different** when they are. -/
theorem upToNul_differs (open_ : ¬Terminated cells) :
    upToNul (fill 0 cells ++ closing 0) ≠ upToNul (fill 1 cells ++ closing 1) := by
  induction cells with
  | nil => decide
  | cons c cells ih =>
      cases c with
      | none => exact (List.cons_ne_nil _ _).symm
      | some b =>
          by_cases zero : b = 0
          · subst zero
            exact absurd ⟨[], List.not_mem_nil, cells, rfl⟩ open_
          · have rest := ih fun terminated => open_ (terminated_cons terminated rfl zero)
            intro same
            apply rest
            simp only [upToNul, fill, List.map_cons, Option.getD_some, List.cons_append] at same
            rw [List.takeWhile_cons_of_pos (by simpa using zero),
              List.takeWhile_cons_of_pos (by simpa using zero)] at same
            exact List.tail_eq_of_cons_eq same

/-- A number that reaches into open bytes is different when they are. -/
theorem take_differs (few : n ≤ 4) (open_ : ¬Wide n cells) :
    (fill 0 cells ++ closing 0).take n ≠ (fill 1 cells ++ closing 1).take n := by
  induction cells generalizing n with
  | nil =>
      cases n with
      | zero => exact absurd ⟨[], rfl, [], rfl⟩ open_
      | succ n =>
          intro same
          cases List.head_eq_of_cons_eq same
  | cons c cells ih =>
      cases n with
      | zero => exact absurd ⟨[], rfl, c :: cells, rfl⟩ open_
      | succ n =>
          intro same
          have heads := List.head_eq_of_cons_eq same
          have tails := List.tail_eq_of_cons_eq same
          cases c with
          | none => cases heads
          | some b =>
              exact ih (Nat.le_of_succ_le few) (fun wide => open_ (wide_cons wide rfl)) tails

/-- A number wider than a payload with padding reaches into the padding. -/
theorem not_wide_of_padded {payload rest : List Cell} {pad : ℕ} (narrow : payload.length < n)
    (padded : pad ≠ 0) (after : rest = [] ∨ ∃ more, rest = List.replicate pad none ++ more) :
    ¬Wide n (payload ++ rest) := by
  rintro ⟨bytes, length, known⟩
  have inside : payload.length < (bytes.map some).length := by rwa [List.length_map, length]
  have cell := List.IsPrefix.getElem known inside
  rw [List.getElem_map, List.getElem_append_right (Nat.le_refl _)] at cell
  rcases after with rfl | ⟨more, rfl⟩
  · have short := known.length_le
    rw [List.append_nil] at short
    omega
  · obtain ⟨pad, rfl⟩ := Nat.exists_eq_succ_of_ne_zero padded
    simp [List.replicate_succ] at cell

end Reads

end Nlcpp.Tlv
