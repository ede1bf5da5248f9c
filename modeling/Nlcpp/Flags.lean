import Mathlib.Data.Nat.Bitwise
import Nlcpp.Lib.Loop

/-!
`GenericFlags`: joining flags, and splitting a value into its bits.

Both conversions scan the bits from the lowest one. The scan compares the shifted bit with
the value, so it ends exactly for values below 2^31 (`scan_ends_iff`): above, the bit is
shifted out and zero goes on for ever. Where it ends it yields `bitsOf`, and joining and
splitting are inverse.
-/

namespace Nlcpp

/-- What a class provides to print its flags: the text that is left in a buffer of a
size. -/
structure FlagNames where
  flags2str : Int32 → ℕ → List UInt8

structure GenericFlags where
  value : UInt32
deriving DecidableEq, Repr

namespace GenericFlags

/-- `GenericFlags(std::initializer_list<GenericFlags>)`. -/
def ofList (list : List GenericFlags) : GenericFlags :=
  ⟨list.foldl (fun value f => value ||| f.value) 0⟩

/-- `operator|(GenericFlags)`. -/
def or (flags other : GenericFlags) : GenericFlags := ⟨flags.value ||| other.value⟩

/-- `operator~`. -/
def not (flags : GenericFlags) : GenericFlags := ⟨~~~flags.value⟩

/-! ### The scan -/

/-- The variables of the loops. -/
structure Scan (α : Type) where
  f : UInt32
  result : List α
deriving DecidableEq, Repr

section Scan

variable {α : Type} (flags : GenericFlags) (push : UInt32 → α)

/-- `f <= value`. -/
def Scan.Goes (s : Scan α) : Prop := s.f ≤ flags.value

instance : DecidablePred (Scan.Goes (α := α) flags) := fun s =>
  inferInstanceAs (Decidable (s.f ≤ flags.value))

/-- One round, with `f <<= 1` at its end. -/
def Scan.round (s : Scan α) : Scan α where
  f := s.f <<< 1
  result := if flags.value &&& s.f ≠ 0 then s.result ++ [push s.f] else s.result

/-- `unsigned int f = 1`, before the first round. -/
def Scan.start : Scan α := ⟨1, []⟩

/-- The loop of the conversions, unless it is still running after `fuel` rounds. -/
def scan (fuel : ℕ) : Option (List α) :=
  (Loop.run (Scan.Goes flags) (Scan.round flags push) fuel Scan.start).map Scan.result

end Scan

/-- `operator vector<unsigned int>`. -/
def toVectorUnsigned (flags : GenericFlags) : ℕ → Option (List UInt32) := flags.scan id

/-- `operator vector<string>`: each bit is printed into `char buf[256]`. -/
def toVectorString (T : FlagNames) (flags : GenericFlags) : ℕ → Option (List (List UInt8)) :=
  flags.scan fun f => T.flags2str f.toInt32 256

/-! ### Bits -/

/-- The bit at a position, zero from position 32 on. -/
def bit (i : ℕ) : UInt32 := UInt32.ofNat (2 ^ i)

theorem bit_toNat {i : ℕ} (inside : i < 32) : (bit i).toNat = 2 ^ i := by
  rw [bit, UInt32.toNat_ofNat']
  exact Nat.mod_eq_of_lt (Nat.pow_lt_pow_right (by decide) inside)

theorem bit_shift (i : ℕ) : bit i <<< 1 = bit (i + 1) := by
  apply UInt32.toNat_inj.mp
  rw [UInt32.toNat_shiftLeft, bit, bit, UInt32.toNat_ofNat', UInt32.toNat_ofNat',
    Nat.shiftLeft_eq, pow_succ]
  exact Nat.mod_mul_mod (2 ^ i) 2 (2 ^ 32)

/-- No shifted bit is above the highest one. -/
theorem bit_le (i : ℕ) : (bit i).toNat ≤ 0x80000000 := by
  rcases Nat.lt_or_ge i 32 with inside | out
  · rw [bit_toNat inside]
    exact Nat.pow_le_pow_right (n := 2) (by decide) (by omega : i ≤ 31)
  · rw [bit, UInt32.toNat_ofNat', Nat.mod_eq_zero_of_dvd (Nat.pow_dvd_pow 2 out)]
    exact Nat.zero_le _

theorem and_bit_ne_zero {i : ℕ} (inside : i < 32) (value : UInt32) :
    value &&& bit i ≠ 0 ↔ value.toNat.testBit i = true := by
  have masked : (value &&& bit i).toNat = (value.toNat.testBit i).toNat * 2 ^ i := by
    rw [UInt32.toNat_and, bit_toNat inside, Nat.and_two_pow]
  rw [ne_eq, ← UInt32.toNat_inj, masked]
  cases value.toNat.testBit i <;> simp

/-- The bits of a value below a position, the lowest first. -/
def bitsBelow (n : ℕ) (value : UInt32) : List UInt32 :=
  ((List.range n).filter value.toNat.testBit).map bit

/-- All bits of a value, the lowest first. -/
def bitsOf (value : UInt32) : List UInt32 := bitsBelow 32 value

theorem bitsBelow_succ (n : ℕ) (value : UInt32) :
    bitsBelow (n + 1) value =
      if value.toNat.testBit n then bitsBelow n value ++ [bit n] else bitsBelow n value := by
  rw [bitsBelow, List.range_succ, List.filter_append, List.map_append]
  cases set : value.toNat.testBit n <;> simp [bitsBelow, set]

/-- Above its highest bit, a value has no others. -/
theorem bitsBelow_of_lt {n : ℕ} {value : UInt32} (less : value.toNat < 2 ^ n) (more : ℕ) :
    bitsBelow (n + more) value = bitsBelow n value := by
  induction more with
  | zero => rfl
  | succ more ih =>
      have above : value.toNat < 2 ^ (n + more) :=
        less.trans_le (Nat.pow_le_pow_right (by decide) (Nat.le_add_right n more))
      rw [← Nat.add_assoc, bitsBelow_succ, Nat.testBit_lt_two_pow above, ih]
      rfl

theorem mem_bitsOf {value f : UInt32} :
    f ∈ bitsOf value ↔ (∃ i < 32, f = bit i) ∧ value &&& f ≠ 0 := by
  simp only [bitsOf, bitsBelow, List.mem_map, List.mem_filter, List.mem_range]
  constructor
  · rintro ⟨i, ⟨inside, set⟩, rfl⟩
    exact ⟨⟨i, inside, rfl⟩, (and_bit_ne_zero inside value).mpr set⟩
  · rintro ⟨⟨i, inside, rfl⟩, set⟩
    exact ⟨i, ⟨inside, (and_bit_ne_zero inside value).mp set⟩, rfl⟩

theorem bit_lt {i j : ℕ} (less : i < j) (inside : j < 32) : bit i < bit j := by
  rw [UInt32.lt_iff_toNat_lt, bit_toNat (less.trans inside), bit_toNat inside]
  exact Nat.pow_lt_pow_right (by decide) less

theorem bitsOf_increasing (value : UInt32) : (bitsOf value).Pairwise (· < ·) := by
  have positions := List.pairwise_lt_range (n := 32) |>.filter value.toNat.testBit
  refine List.pairwise_map.mpr (positions.imp_of_mem fun _ mem' less => bit_lt less ?_)
  exact List.mem_range.mp (List.mem_filter.mp mem').1

/-! ### Where the scan ends -/

section Ends

variable {α : Type} (flags : GenericFlags) (push : UInt32 → α)

/-- The shifted bit is at a position, and the bits below it have been pushed. -/
def Scan.At (i : ℕ) (s : Scan α) : Prop :=
  s = ⟨bit i, (bitsBelow i flags.value).map push⟩

variable {flags push}

/-- A round moves on by one position. -/
theorem Scan.At.round {i : ℕ} {s : Scan α} (at_i : s.At flags push i) (inside : i < 32) :
    (s.round flags push).At flags push (i + 1) := by
  subst at_i
  rw [Scan.At, Scan.round, bit_shift, bitsBelow_succ]
  by_cases set : flags.value &&& bit i ≠ 0
  · rw [if_pos set, if_pos ((and_bit_ne_zero inside flags.value).mp set), List.map_append]
    rfl
  · rw [if_neg set, if_neg (mt (and_bit_ne_zero inside flags.value).mpr set)]

/-- While a round is to come, the position is below that of the highest bit. -/
theorem Scan.At.inside {i : ℕ} {s : Scan α} (at_i : s.At flags push i) (low : i < 32)
    (small : flags.value < 0x80000000) (goes : s.Goes flags) : i < 31 := by
  subst at_i
  have below := UInt32.le_iff_toNat_le.mp goes
  have small' := UInt32.lt_iff_toNat_lt.mp small
  rw [bit_toNat low] at below
  exact (Nat.pow_lt_pow_iff_right (a := 2) (by decide)).mp (below.trans_lt small')

/-- The scan of a small value, at a position that still is one of a bit. -/
def Scan.Inside (flags : GenericFlags) (push : UInt32 → α) (s : Scan α) : Prop :=
  ∃ i < 32, s.At flags push i

theorem Scan.Inside.round (small : flags.value < 0x80000000) {s : Scan α}
    (inside : s.Inside flags push) (goes : s.Goes flags) :
    (s.round flags push).Inside flags push := by
  obtain ⟨i, low, at_i⟩ := inside
  have := at_i.inside low small goes
  exact ⟨i + 1, by omega, at_i.round low⟩

/-- What is left to scan: the shifted bit grows up to the value. -/
theorem Scan.Inside.less (small : flags.value < 0x80000000) {s : Scan α}
    (inside : s.Inside flags push) (goes : s.Goes flags) :
    flags.value.toNat + 1 - (s.round flags push).f.toNat < flags.value.toNat + 1 - s.f.toNat := by
  obtain ⟨i, low, rfl⟩ := inside
  have next : i < 31 := Scan.At.inside rfl low small goes
  have below := UInt32.le_iff_toNat_le.mp goes
  have more : (bit (i + 1)).toNat = (bit i).toNat * 2 := by
    rw [bit_toNat low, bit_toNat (by omega), pow_succ]
  have positive : 0 < (bit i).toNat := by
    rw [bit_toNat low]
    exact Nat.two_pow_pos i
  simp only [Scan.round, bit_shift, more]
  simp only at below
  omega

/-- The scan of a small value ends, with all of its bits. -/
theorem scan_yields (flags : GenericFlags) (push : UInt32 → α) (small : flags.value < 0x80000000) :
    ∃ s, Loop.Yields (Scan.Goes flags) (Scan.round flags push) Scan.start s ∧
      s.result = (bitsOf flags.value).map push := by
  have start : Scan.start.Inside flags push := ⟨0, by decide, rfl⟩
  obtain ⟨s, yields⟩ := Loop.ends_of_measure (I := Scan.Inside flags push)
    (fun s => flags.value.toNat + 1 - s.f.toNat) (fun _ => Scan.Inside.round small)
    (fun _ => Scan.Inside.less small) start
  obtain ⟨⟨i, low, rfl⟩, stopped⟩ := yields.invariant (fun _ => Scan.Inside.round small) start
  refine ⟨_, yields, congrArg (List.map push) ?_⟩
  have above : flags.value.toNat < 2 ^ i := by
    rw [← bit_toNat low]
    exact Nat.lt_of_not_le fun below => stopped (UInt32.le_iff_toNat_le.mpr below)
  obtain ⟨more, total⟩ := Nat.exists_eq_add_of_lt low
  rw [bitsOf, total, Nat.add_assoc, bitsBelow_of_lt above]

/-- The scan of a large value never ends: the bit is never above the value. -/
theorem scan_not_ends (flags : GenericFlags) (push : UInt32 → α)
    (large : 0x80000000 ≤ flags.value) :
    ¬Loop.Ends (Scan.Goes flags) (Scan.round flags push) Scan.start := by
  refine Loop.not_ends_of_invariant (I := fun s => ∃ i, s.f = bit i) ?_ ?_ ⟨0, rfl⟩
  · rintro s ⟨i, at_i⟩
    exact ⟨i + 1, by rw [Scan.round, at_i, bit_shift]⟩
  · rintro s ⟨i, at_i⟩
    rw [Scan.Goes, at_i, UInt32.le_iff_toNat_le]
    exact (bit_le i).trans (UInt32.le_iff_toNat_le.mp large)

/-- A conversion returns a list exactly when its loop yields it. -/
theorem scan_eq_some_iff {flags : GenericFlags} {push : UInt32 → α} {result : List α} :
    (∃ fuel, flags.scan push fuel = some result) ↔
      ∃ s, Loop.Yields (Scan.Goes flags) (Scan.round flags push) Scan.start s ∧
        s.result = result := by
  simp only [scan, Option.map_eq_some_iff, Loop.Yields]
  constructor
  · rintro ⟨fuel, s, reached, rfl⟩
    exact ⟨s, ⟨fuel, reached⟩, rfl⟩
  · rintro ⟨s, ⟨fuel, reached⟩, rfl⟩
    exact ⟨fuel, s, reached, rfl⟩

/-- **What the scan of a small value returns**: its bits, the lowest first. -/
theorem scan_returns_iff (small : flags.value < 0x80000000) {result : List α} :
    (∃ fuel, flags.scan push fuel = some result) ↔ result = (bitsOf flags.value).map push := by
  obtain ⟨s, yields, bits⟩ := scan_yields flags push small
  rw [scan_eq_some_iff]
  constructor
  · rintro ⟨s', yields', rfl⟩
    rw [yields'.unique yields, bits]
  · rintro rfl
    exact ⟨s, yields, bits⟩

/-- **A scan ends exactly below 2^31.** -/
theorem scan_ends_iff :
    (∃ fuel, (flags.scan push fuel).isSome) ↔ flags.value < 0x80000000 := by
  constructor
  · rintro ⟨fuel, ended⟩
    by_contra large
    obtain ⟨result, returned⟩ := Option.isSome_iff_exists.mp ended
    obtain ⟨s, yields, -⟩ := scan_eq_some_iff.mp ⟨fuel, returned⟩
    exact scan_not_ends flags push (UInt32.not_lt.mp large) ⟨s, yields⟩
  · intro small
    obtain ⟨fuel, returned⟩ : ∃ fuel, flags.scan push fuel = some _ :=
      (scan_returns_iff small).mpr rfl
    exact ⟨fuel, Option.isSome_iff_exists.mpr ⟨_, returned⟩⟩

end Ends

/-- **Splitting ends exactly below 2^31**, into numbers and into names. -/
theorem splitting_ends_iff (T : FlagNames) (flags : GenericFlags) :
    ((∃ fuel, (flags.toVectorUnsigned fuel).isSome) ↔ flags.value < 0x80000000) ∧
      ((∃ fuel, (flags.toVectorString T fuel).isSome) ↔ flags.value < 0x80000000) :=
  ⟨scan_ends_iff, scan_ends_iff⟩

/-- The complement of no flags: neither loop ends. -/
theorem complement_never_split :
    (¬∃ fuel, ((not ⟨0⟩).toVectorUnsigned fuel).isSome) ∧
      ¬∃ fuel, ((not ⟨0⟩).toVectorString ⟨fun _ _ => []⟩ fuel).isSome := by
  have large : ¬(not ⟨0⟩).value < 0x80000000 := by decide
  exact ⟨mt scan_ends_iff.mp large, mt scan_ends_iff.mp large⟩

/-- A complement splits when the highest bit was set. -/
theorem not_small_iff (flags : GenericFlags) :
    flags.not.value < 0x80000000 ↔ 0x80000000 ≤ flags.value := by
  rw [UInt32.lt_iff_toNat_lt, UInt32.le_iff_toNat_le, not, UInt32.toNat_not]
  have := flags.value.toNat_lt
  change UInt32.size - 1 - flags.value.toNat < 2147483648 ↔ 2147483648 ≤ flags.value.toNat
  simp only [UInt32.size]
  omega

/-- A union splits when both sides do. -/
theorem or_small_iff (flags other : GenericFlags) :
    (flags.or other).value < 0x80000000 ↔
      flags.value < 0x80000000 ∧ other.value < 0x80000000 := by
  rw [UInt32.lt_iff_toNat_lt, UInt32.lt_iff_toNat_lt, UInt32.lt_iff_toNat_lt, or, UInt32.toNat_or]
  change _ ||| _ < 2 ^ 31 ↔ _ < 2 ^ 31 ∧ _ < 2 ^ 31
  constructor
  · exact fun both => ⟨Nat.left_le_or.trans_lt both, Nat.right_le_or.trans_lt both⟩
  · exact fun ⟨left, right⟩ => Nat.or_lt_two_pow left right

/-! ### Joining -/

theorem foldl_or_testBit (list : List GenericFlags) (value : UInt32) (i : ℕ) :
    (list.foldl (fun value f => value ||| f.value) value).toNat.testBit i = true ↔
      value.toNat.testBit i = true ∨ ∃ f ∈ list, f.value.toNat.testBit i = true := by
  induction list generalizing value with
  | nil => simp
  | cons f list ih => simp [ih, or_assoc]

/-- A bit of the joined value is a bit of an element. -/
theorem ofList_and_ne_zero (list : List GenericFlags) {f : UInt32} (isBit : ∃ i < 32, f = bit i) :
    (ofList list).value &&& f ≠ 0 ↔ ∃ e ∈ list, e.value &&& f ≠ 0 := by
  obtain ⟨i, inside, rfl⟩ := isBit
  simp only [and_bit_ne_zero inside, ofList, foldl_or_testBit]
  simp

/-- A value is known by its bits. -/
theorem eq_of_bits (value value' : UInt32) (same : ∀ i < 32,
    value &&& bit i ≠ 0 ↔ value' &&& bit i ≠ 0) : value = value' := by
  apply UInt32.toNat_inj.mp
  refine Nat.eq_of_testBit_eq fun i => ?_
  rcases Nat.lt_or_ge i 32 with inside | out
  · have set := same i inside
    rw [and_bit_ne_zero inside, and_bit_ne_zero inside] at set
    exact Bool.eq_iff_iff.mpr set
  · have high (value : UInt32) : value.toNat.testBit i = false :=
      Nat.testBit_lt_two_pow (value.toNat_lt.trans_le (Nat.pow_le_pow_right (by decide) out))
    rw [high, high]

theorem bit_and_bit {i j : ℕ} (inside : i < 32) (inside' : j < 32) :
    bit j &&& bit i ≠ 0 ↔ j = i := by
  rw [and_bit_ne_zero inside, bit_toNat inside', Nat.testBit_two_pow, decide_eq_true_eq]

/-- The bits of a value, joined, are the value. -/
theorem ofList_bitsOf (flags : GenericFlags) :
    ofList ((bitsOf flags.value).map GenericFlags.mk) = flags := by
  refine congrArg GenericFlags.mk (eq_of_bits (ofList _).value flags.value fun i inside => ?_)
  rw [ofList_and_ne_zero _ ⟨i, inside, rfl⟩]
  constructor
  · rintro ⟨e, mem, overlaps⟩
    obtain ⟨f, among, rfl⟩ := List.mem_map.mp mem
    obtain ⟨⟨j, inside', rfl⟩, set⟩ := mem_bitsOf.mp among
    exact (bit_and_bit inside inside').mp overlaps ▸ set
  · intro set
    exact ⟨⟨bit i⟩, List.mem_map_of_mem (mem_bitsOf.mpr ⟨⟨i, inside, rfl⟩, set⟩),
      (bit_and_bit inside inside).mpr rfl⟩

theorem foldl_or_small {list : List GenericFlags} (small : ∀ f ∈ list, f.value < 0x80000000)
    {value : UInt32} (start : value < 0x80000000) :
    list.foldl (fun value f => value ||| f.value) value < 0x80000000 := by
  induction list generalizing value with
  | nil => exact start
  | cons f list ih =>
      have joined := (or_small_iff ⟨value⟩ f).mpr ⟨start, small f List.mem_cons_self⟩
      exact ih (fun e mem => small e (List.mem_cons_of_mem _ mem)) joined

/-- A conversion returns this, and nothing else. -/
def Returns {β : Type} (conversion : ℕ → Option β) (b : β) : Prop :=
  ∀ result, (∃ fuel, conversion fuel = some result) ↔ result = b

/-- **Splitting and joining are inverse**: a value below 2^31 splits into its bits, which
join to it; a list of such values joins to one that splits into the bits of its elements. -/
theorem splitting_and_joining (T : FlagNames) {flags : GenericFlags}
    (small : flags.value < 0x80000000) {list : List GenericFlags}
    (each_small : ∀ f ∈ list, f.value < 0x80000000) :
    (∃ bits, Returns flags.toVectorUnsigned bits ∧
      Returns (flags.toVectorString T) (bits.map fun f => T.flags2str f.toInt32 256) ∧
      bits.Pairwise (· < ·) ∧
      (∀ f, f ∈ bits ↔ (∃ i < 32, f = bit i) ∧ flags.value &&& f ≠ 0) ∧
      ofList (bits.map GenericFlags.mk) = flags) ∧
    ∃ bits, Returns (ofList list).toVectorUnsigned bits ∧ bits.Pairwise (· < ·) ∧
      ∀ f, f ∈ bits ↔ (∃ i < 32, f = bit i) ∧ ∃ e ∈ list, e.value &&& f ≠ 0 := by
  have numbers {flags : GenericFlags} (small : flags.value < 0x80000000) :
      Returns flags.toVectorUnsigned (bitsOf flags.value) := fun result =>
    (scan_returns_iff small).trans (by rw [List.map_id])
  have joined_small : (ofList list).value < 0x80000000 := foldl_or_small each_small (by decide)
  refine ⟨⟨bitsOf flags.value, numbers small, fun _ => scan_returns_iff small,
    bitsOf_increasing _, fun _ => mem_bitsOf, ofList_bitsOf flags⟩,
    bitsOf (ofList list).value, numbers joined_small, bitsOf_increasing _, fun f => ?_⟩
  rw [mem_bitsOf]
  exact and_congr_right fun isBit => ofList_and_ne_zero list isBit

/-- Two flags with distant bits, and a list with overlaps and a repetition. -/
theorem splitting_and_joining_overlaps :
    (∃ bits, Returns (toVectorUnsigned ⟨0x41000⟩) bits ∧
      Returns (toVectorString ⟨fun f _ => [f.toInt.toNat.toUInt8]⟩ ⟨0x41000⟩)
        (bits.map fun f => [f.toInt32.toInt.toNat.toUInt8]) ∧
      bits.Pairwise (· < ·) ∧
      (∀ f, f ∈ bits ↔ (∃ i < 32, f = bit i) ∧ (0x41000 : UInt32) &&& f ≠ 0) ∧
      ofList (bits.map GenericFlags.mk) = ⟨0x41000⟩) ∧
    ∃ bits, Returns (ofList [⟨0x42⟩, ⟨3⟩, ⟨0x42⟩]).toVectorUnsigned bits ∧
      bits.Pairwise (· < ·) ∧
      ∀ f, f ∈ bits ↔ (∃ i < 32, f = bit i) ∧
        ∃ e ∈ [GenericFlags.mk 0x42, ⟨3⟩, ⟨0x42⟩], e.value &&& f ≠ 0 :=
  splitting_and_joining _ (by decide) (by decide)

end GenericFlags

end Nlcpp
