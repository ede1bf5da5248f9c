import Nlcpp.Setters

/-!
The lifetimes of a `RouteAddress`.

Both are fields of one record that libnl adds to the address with the first call of either
setter. A setter takes a signed 64-bit count and libnl's field has 32 bits, of which one
value means that the lifetime has no end. `lifetimes_independent_iff` says for which
addresses and values every call of a sequence sets its own lifetime and no other.
-/

namespace Nlcpp.RouteAddress

/-- The cacheinfo record of an address: whether it is there, and its lifetimes, which are
zero until it is. -/
structure CacheInfo where
  present : Bool
  valid : UInt32
  prefered : UInt32
  zeroed : present = false → valid = 0 ∧ prefered = 0
deriving DecidableEq

namespace CacheInfo

/-- `rtnl_addr_get_valid_lifetime`. -/
def getValid (a : CacheInfo) : UInt32 := if a.present then a.valid else 0xFFFFFFFF

/-- `rtnl_addr_get_preferred_lifetime`. -/
def getPreferred (a : CacheInfo) : UInt32 := if a.present then a.prefered else 0xFFFFFFFF

/-- `rtnl_addr_set_valid_lifetime`. -/
def setValid (lifetime : UInt32) (a : CacheInfo) : CacheInfo where
  present := true
  valid := lifetime
  prefered := a.prefered
  zeroed := Bool.noConfusion

/-- `rtnl_addr_set_preferred_lifetime`. -/
def setPreferred (lifetime : UInt32) (a : CacheInfo) : CacheInfo where
  present := true
  valid := a.valid
  prefered := lifetime
  zeroed := fun absent => Bool.noConfusion absent

end CacheInfo

/-- `if (sec == 0xFFFFFFFF) return nullopt; return chrono::seconds { sec };` -/
def seconds (sec : UInt32) : Option Int64 :=
  if sec = 0xFFFFFFFF then none else some sec.toUInt64.toInt64

/-- The conversion of `value.count()` to `uint32_t`. -/
def toLifetime (value : Int64) : UInt32 := value.toUInt64.toUInt32

/-- `validLifetime()`. -/
def getValidLifetime (a : CacheInfo) : Option Int64 := seconds a.getValid

/-- `preferredLifetime()`. -/
def getPreferredLifetime (a : CacheInfo) : Option Int64 := seconds a.getPreferred

/-- `validLifetime(chrono::seconds)`. -/
def validLifetime (value : Int64) (a : CacheInfo) : Except Exception Unit × CacheInfo :=
  (.ok (), a.setValid (toLifetime value))

/-- `preferredLifetime(chrono::seconds)`. -/
def preferredLifetime (value : Int64) (a : CacheInfo) : Except Exception Unit × CacheInfo :=
  (.ok (), a.setPreferred (toLifetime value))

/-- A call of one of the setters. -/
inductive SetLifetime where
  | valid (value : Int64)
  | preferred (value : Int64)
deriving DecidableEq

namespace SetLifetime

def value : SetLifetime → Int64
  | valid value => value
  | preferred value => value

def call (a : CacheInfo) : SetLifetime → Except Exception Unit × CacheInfo
  | valid value => validLifetime value a
  | preferred value => preferredLifetime value a

/-- The getter of the lifetime that the call sets. -/
def own : SetLifetime → CacheInfo → Option Int64
  | valid _ => getValidLifetime
  | preferred _ => getPreferredLifetime

/-- The getter of the other one. -/
def other : SetLifetime → CacheInfo → Option Int64
  | valid _ => getPreferredLifetime
  | preferred _ => getValidLifetime

/-- The field that the call does not set. -/
def kept (a : CacheInfo) : SetLifetime → UInt32
  | valid _ => a.prefered
  | preferred _ => a.valid

/-- The address after the call. -/
def step (a : CacheInfo) (c : SetLifetime) : CacheInfo := (c.call a).2

/-- The call throws without effect or sets its own lifetime, and leaves the other one. -/
def Independent (a : CacheInfo) (c : SetLifetime) : Prop :=
  Faithful c.own (some c.value) a (c.call a) ∧ c.other (step a c) = c.other a

/-- The value is one of the field's other than the one without end. -/
def InRange (c : SetLifetime) : Prop := 0 ≤ c.value ∧ c.value < 0xFFFFFFFF

instance (c : SetLifetime) : Decidable c.InRange :=
  inferInstanceAs (Decidable (0 ≤ c.value ∧ c.value < 0xFFFFFFFF))

end SetLifetime

open SetLifetime

/-! ### One call -/

/-- The getter's conversion keeps the number. -/
theorem toInt_widened (sec : UInt32) : sec.toUInt64.toInt64.toInt = sec.toNat := by
  have widened : sec.toUInt64 = UInt64.ofNat sec.toNat := by simp
  rw [widened, UInt64.toInt64_ofNat']
  exact Int64.toInt_ofNat_of_lt (sec.toNat_lt.trans (by decide))

/-- The setter's conversion keeps a number that fits the field. -/
theorem toNat_toLifetime {value : Int64} (inRange : 0 ≤ value ∧ value < 0xFFFFFFFF) :
    ((toLifetime value).toNat : ℤ) = value.toInt := by
  have nonneg := Int64.le_iff_toInt_le.mp inRange.1
  have small := Int64.lt_iff_toInt_lt.mp inRange.2
  have zero : (0 : Int64).toInt = 0 := rfl
  have last : (0xFFFFFFFF : Int64).toInt = 0xFFFFFFFF := rfl
  have number : (value.toNatClampNeg : ℤ) = value.toInt :=
    Int64.cast_toNatClampNeg value inRange.1
  rw [toLifetime, UInt64.toNat_toUInt32, Int64.toNat_toUInt64_of_le inRange.1]
  omega

/-- The field gives the value back exactly when the value is in range. -/
theorem seconds_toLifetime_iff (value : Int64) :
    seconds (toLifetime value) = some value ↔ 0 ≤ value ∧ value < 0xFFFFFFFF := by
  constructor
  · intro same
    rw [seconds] at same
    split at same
    · cases same
    · next finite =>
        have kept := congrArg Int64.toInt (Option.some.inj same)
        rw [toInt_widened] at kept
        have small := (toLifetime value).toNat_lt
        have other : (toLifetime value).toNat ≠ 0xFFFFFFFF := fun last =>
          finite (UInt32.toNat_inj.mp last)
        have zero : (0 : Int64).toInt = 0 := rfl
        have last : (0xFFFFFFFF : Int64).toInt = 0xFFFFFFFF := rfl
        rw [Int64.le_iff_toInt_le, Int64.lt_iff_toInt_lt]
        omega
  · intro inRange
    have number := toNat_toLifetime inRange
    have small := Int64.lt_iff_toInt_lt.mp inRange.2
    have last : (0xFFFFFFFF : Int64).toInt = 0xFFFFFFFF := rfl
    have finite : toLifetime value ≠ 0xFFFFFFFF := by
      intro infinite
      rw [infinite] at number
      change (0xFFFFFFFF : ℤ) = _ at number
      omega
    rw [seconds, if_neg finite, Option.some.injEq, ← Int64.toInt_inj, toInt_widened, number]

theorem own_step (a : CacheInfo) (c : SetLifetime) :
    c.own (SetLifetime.step a c) = seconds (toLifetime c.value) := by
  cases c <;> rfl

theorem other_step (a : CacheInfo) (c : SetLifetime) :
    c.other (SetLifetime.step a c) = seconds (c.kept a) := by
  cases c <;> rfl

theorem other_before (a : CacheInfo) (c : SetLifetime) :
    c.other a = seconds (if a.present then c.kept a else 0xFFFFFFFF) := by
  cases c <;> rfl

theorem faithful_iff_own (a : CacheInfo) (c : SetLifetime) :
    Faithful c.own (some c.value) a (c.call a) ↔
      c.own (SetLifetime.step a c) = some c.value := by
  cases c <;> exact Iff.rfl

theorem kept_of_absent {a : CacheInfo} (absent : a.present = false) (c : SetLifetime) :
    c.kept a = 0 := by
  obtain ⟨noValid, noPreferred⟩ := a.zeroed absent
  cases c with
  | valid value => exact noPreferred
  | preferred value => exact noValid

/-- **When a call is independent**: its value is in range, and the record is there already,
for otherwise the other lifetime becomes zero. -/
theorem independent_iff (a : CacheInfo) (c : SetLifetime) :
    c.Independent a ↔ a.present = true ∧ c.InRange := by
  rw [Independent, faithful_iff_own, own_step, seconds_toLifetime_iff, other_step, other_before,
    and_comm]
  refine and_congr_left fun _ => ?_
  cases present : a.present with
  | true => simp
  | false => simp [kept_of_absent present, seconds]

/-! ### Sequences of calls -/

theorem present_step (a : CacheInfo) (c : SetLifetime) :
    (SetLifetime.step a c).present = true := by
  cases c <;> rfl

/-- **The lifetimes are independent** throughout a sequence of calls exactly when all of its
values are in range and the address has a cacheinfo record at the beginning. -/
theorem lifetimes_independent_iff (a : CacheInfo) (calls : List SetLifetime) :
    Run.Guarded SetLifetime.step (fun a c => c.Independent a) a calls ↔
      ∀ c ∈ calls, a.present = true ∧ c.InRange := by
  induction calls generalizing a with
  | nil => simp [Run.Guarded]
  | cons c calls ih =>
      rw [Run.Guarded, independent_iff, ih, List.forall_mem_cons]
      simp only [present_step, true_and]
      constructor
      · rintro ⟨first, later⟩
        exact ⟨first, fun c' mem => ⟨first.1, later c' mem⟩⟩
      · rintro ⟨first, later⟩
        exact ⟨first, fun c' mem => (later c' mem).2⟩

/-- A new address. -/
def CacheInfo.unset : CacheInfo := ⟨false, 0, 0, fun _ => ⟨rfl, rfl⟩⟩

/-- The first preferred lifetime of an address ends its valid lifetime, and the values -1,
2^32 - 1 and 2^32 read back as none, as none and as zero. -/
theorem lifetimes_interfere :
    getValidLifetime .unset = none ∧
      getValidLifetime (preferredLifetime 60 .unset).2 = some 0 ∧
      ¬(preferred 60).Independent .unset ∧
      getValidLifetime (validLifetime (-1) .unset).2 = none ∧
      getValidLifetime (validLifetime 0xFFFFFFFF .unset).2 = none ∧
      getValidLifetime (validLifetime 0x100000000 .unset).2 = some 0 := by
  refine ⟨rfl, rfl, fun independent => ?_, rfl, rfl, rfl⟩
  have kept : getValidLifetime (preferredLifetime 60 .unset).2 = none := independent.2
  cases kept

end Nlcpp.RouteAddress
