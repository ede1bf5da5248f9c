import Mathlib.Data.Nat.Digits.Defs
import Mathlib.Data.List.TakeWhile

/-!
Decimal numbers in texts.

`signed` writes an integer, `read` reads the one that a text begins with: blanks, a sign and
the digits up to the first byte that is none. `read_eq_some_iff` says which texts begin with
a number, and `read_signed` that what was written is read, whatever follows it.
-/

namespace Nlcpp.Numeral

def plus : UInt8 := 43
def minus : UInt8 := 45

/-- The byte of a digit. -/
def digit (d : ℕ) : UInt8 := UInt8.ofNat (48 + d)

def IsDigit (b : UInt8) : Prop := 48 ≤ b.toNat ∧ b.toNat ≤ 57

instance : DecidablePred IsDigit := fun _ => inferInstanceAs (Decidable (_ ∧ _))

/-- The value of digits, the highest first. -/
def value (digits : List UInt8) : ℕ := digits.foldl (fun n b => 10 * n + (b.toNat - 48)) 0

/-- The digits of a number, the highest first. -/
def numeral (n : ℕ) : List UInt8 :=
  if n = 0 then [digit 0] else ((Nat.digits 10 n).map digit).reverse

/-- An integer, with a sign when it is negative. -/
def signed (n : ℤ) : List UInt8 := if n < 0 then minus :: numeral n.natAbs else numeral n.natAbs

/-! ### Reading -/

/-- Take a sign off. -/
def unsign : List UInt8 → Bool × List UInt8
  | [] => (false, [])
  | b :: rest =>
    if b = minus then (true, rest) else if b = plus then (false, rest) else (false, b :: rest)

def applySign (negative : Bool) (n : ℕ) : ℤ := if negative then -n else n

/-- The number that a text begins with. -/
def read (isspace : UInt8 → Bool) (text : List UInt8) : Option ℤ :=
  let (negative, text) := unsign (text.dropWhile isspace)
  let digits := text.takeWhile (IsDigit ·)
  if digits = [] then none else some (applySign negative (value digits))

/-- No blank is part of a number. -/
def Apart (isspace : UInt8 → Bool) : Prop :=
  ∀ b, isspace b = true → ¬IsDigit b ∧ b ≠ minus ∧ b ≠ plus

/-- The ways to write a sign. -/
inductive Sign where
  | none | plus | minus
deriving DecidableEq, Repr

def Sign.bytes : Sign → List UInt8
  | none => []
  | plus => [Numeral.plus]
  | minus => [Numeral.minus]

def Sign.negative (sign : Sign) : Bool := sign = .minus

/-- The text begins with this number. -/
def Begins (isspace : UInt8 → Bool) (text : List UInt8) (n : ℤ) : Prop :=
  ∃ (blanks : List UInt8) (sign : Sign) (digits rest : List UInt8),
    text = blanks ++ (sign.bytes ++ (digits ++ rest)) ∧ (∀ b ∈ blanks, isspace b = true) ∧
      digits ≠ [] ∧ (∀ b ∈ digits, IsDigit b) ∧ (∀ b ∈ rest.head?, ¬IsDigit b) ∧
      n = applySign sign.negative (value digits)

/-! ### Digits -/

theorem isDigit_digit {d : ℕ} (small : d < 10) : IsDigit (digit d) := by
  rw [IsDigit, digit, UInt8.toNat_ofNat']
  omega

theorem numeral_isDigit (n : ℕ) : ∀ b ∈ numeral n, IsDigit b := by
  unfold numeral
  split
  · simp [isDigit_digit]
  · intro b mem
    obtain ⟨d, inside, rfl⟩ := List.mem_map.mp (List.mem_reverse.mp mem)
    exact isDigit_digit (Nat.digits_lt_base (by decide) inside)

theorem numeral_ne_nil (n : ℕ) : numeral n ≠ [] := by
  unfold numeral
  split
  · simp
  · next nonzero => simpa [Nat.digits_ne_nil_iff_ne_zero] using nonzero

theorem value_eq_ofDigits (digits : List UInt8) :
    value digits = Nat.ofDigits 10 (digits.reverse.map fun b => b.toNat - 48) := by
  rw [Nat.ofDigits_eq_foldr, List.map_reverse, List.foldr_reverse, List.foldl_map, value]
  congr 1
  funext n b
  simp [Nat.add_comm]

/-- The digits of a number have its value. -/
theorem value_numeral (n : ℕ) : value (numeral n) = n := by
  unfold numeral
  split
  · next zero => rw [zero]; decide
  · have back : ∀ d ∈ Nat.digits 10 n, (digit d).toNat - 48 = d := by
      intro d mem
      have small := Nat.digits_lt_base (by decide : 1 < 10) mem
      rw [digit, UInt8.toNat_ofNat']
      omega
    have same : (Nat.digits 10 n).map ((fun b : UInt8 => b.toNat - 48) ∘ digit) =
        Nat.digits 10 n := (List.map_congr_left back).trans (List.map_id' _)
    rw [value_eq_ofDigits, List.reverse_reverse, List.map_map, same, Nat.ofDigits_digits]

/-- A number consists of digits, after a sign. -/
theorem mem_signed {n : ℤ} {b : UInt8} (mem : b ∈ signed n) : IsDigit b ∨ b = minus := by
  unfold signed at mem
  split at mem
  · rcases List.mem_cons.mp mem with sign | mem
    · exact .inr sign
    · exact .inl (numeral_isDigit _ b mem)
  · exact .inl (numeral_isDigit _ b mem)

/-! ### What is read -/

theorem not_isDigit_minus : ¬IsDigit minus := by decide

theorem not_isDigit_plus : ¬IsDigit plus := by decide

theorem takeWhile_digits {digits rest : List UInt8} (every : ∀ b ∈ digits, IsDigit b)
    (stop : ∀ b ∈ rest.head?, ¬IsDigit b) :
    (digits ++ rest).takeWhile (IsDigit ·) = digits := by
  rw [List.takeWhile_append_of_pos (by simpa using every)]
  have nothing : rest.takeWhile (IsDigit ·) = [] := by
    cases rest with
    | nil => rfl
    | cons b rest => simpa using stop b rfl
  rw [nothing, List.append_nil]

theorem dropWhile_blanks {isspace : UInt8 → Bool} {blanks text : List UInt8}
    (every : ∀ b ∈ blanks, isspace b = true) (stop : ∀ b ∈ text.head?, isspace b = false) :
    (blanks ++ text).dropWhile isspace = text := by
  rw [List.dropWhile_append_of_pos every]
  cases text with
  | nil => rfl
  | cons b text => rw [List.dropWhile_cons_of_neg (by simp [stop b rfl])]

/-- A sign is taken off from what does not begin with another one. -/
theorem unsign_bytes (sign : Sign) {text : List UInt8}
    (digit : ∃ b ∈ text.head?, IsDigit b) :
    unsign (sign.bytes ++ text) = (sign.negative, text) := by
  cases sign with
  | minus => rfl
  | plus => rfl
  | none =>
      obtain ⟨b, first, isDigit⟩ := digit
      obtain ⟨rest, rfl⟩ := List.head?_eq_some_iff.mp first
      have notMinus : b ≠ minus := fun same => not_isDigit_minus (same ▸ isDigit)
      have notPlus : b ≠ plus := fun same => not_isDigit_plus (same ▸ isDigit)
      simp [Sign.bytes, Sign.negative, unsign, notMinus, notPlus]

/-- Every text is one with its sign taken off. -/
theorem exists_sign (text : List UInt8) :
    ∃ sign : Sign, text = sign.bytes ++ (unsign text).2 ∧ (unsign text).1 = sign.negative := by
  cases text with
  | nil => exact ⟨.none, rfl, rfl⟩
  | cons b rest =>
      by_cases isMinus : b = minus
      · subst isMinus
        exact ⟨.minus, rfl, rfl⟩
      · by_cases isPlus : b = plus
        · subst isPlus
          exact ⟨.plus, rfl, rfl⟩
        · exact ⟨.none, by simp [unsign, isMinus, isPlus, Sign.bytes],
            by simp [unsign, isMinus, isPlus, Sign.negative]⟩

/-- **A number is read exactly where the text begins with it.** -/
theorem read_eq_some_iff {isspace : UInt8 → Bool} (apart : Apart isspace) {text : List UInt8}
    {n : ℤ} : read isspace text = some n ↔ Begins isspace text n := by
  constructor
  · intro same
    obtain ⟨sign, whole, negative⟩ := exists_sign (text.dropWhile isspace)
    simp only [read, negative] at same
    split at same
    · cases same
    · next some_ =>
        cases same
        refine ⟨text.takeWhile isspace, sign, _, (unsign (text.dropWhile isspace)).2.dropWhile
          (IsDigit ·), ?_, fun b => List.mem_takeWhile_imp, some_, ?_, ?_, rfl⟩
        · rw [List.takeWhile_append_dropWhile, ← whole, List.takeWhile_append_dropWhile]
        · intro b mem
          simpa using List.mem_takeWhile_imp mem
        · intro b first
          have stop := List.head?_dropWhile_not (IsDigit ·) (unsign (text.dropWhile isspace)).2
          rw [Option.mem_def.mp first] at stop
          simpa using stop
  · rintro ⟨blanks, sign, digits, rest, rfl, spaces, some_, every, stop, rfl⟩
    obtain ⟨d, digits, rfl⟩ := List.exists_cons_of_ne_nil some_
    have first : IsDigit d := every d List.mem_cons_self
    have noSpace {b : UInt8} (part : IsDigit b ∨ b = minus ∨ b = plus) : isspace b = false := by
      refine eq_false_of_ne_true fun space => ?_
      obtain ⟨notDigit, notMinus, notPlus⟩ := apart b space
      rcases part with digit | same | same
      · exact notDigit digit
      · exact notMinus same
      · exact notPlus same
    have begins : ∀ b ∈ (sign.bytes ++ (d :: digits ++ rest)).head?, isspace b = false := by
      intro b here
      apply noSpace
      cases sign with
      | none => exact .inl (Option.some.inj here ▸ first)
      | plus => exact .inr (.inr (Option.some.inj here).symm)
      | minus => exact .inr (.inl (Option.some.inj here).symm)
    have signed : unsign (sign.bytes ++ (d :: digits ++ rest)) =
        (sign.negative, d :: digits ++ rest) := unsign_bytes sign ⟨d, rfl, first⟩
    simp only [read, dropWhile_blanks spaces begins, signed, takeWhile_digits every stop]
    rw [if_neg some_]

/-- **What was written is read**, whatever follows that is not a digit. -/
theorem read_signed {isspace : UInt8 → Bool} (apart : Apart isspace) (n : ℤ) {rest : List UInt8}
    (stop : ∀ b ∈ rest.head?, ¬IsDigit b) : read isspace (signed n ++ rest) = some n := by
  rw [read_eq_some_iff apart, signed]
  by_cases negative : n < 0
  · rw [if_pos negative]
    refine ⟨[], .minus, numeral n.natAbs, rest, rfl, by simp, numeral_ne_nil _,
      numeral_isDigit _, stop, ?_⟩
    rw [value_numeral]
    simp only [applySign, Sign.negative, decide_true, if_true]
    omega
  · rw [if_neg negative]
    refine ⟨[], .none, numeral n.natAbs, rest, rfl, by simp, numeral_ne_nil _,
      numeral_isDigit _, stop, ?_⟩
    rw [value_numeral]
    simp only [applySign, Sign.negative, reduceCtorEq, decide_false, Bool.false_eq_true, if_false]
    omega

end Nlcpp.Numeral
