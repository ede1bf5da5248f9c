import Mathlib.Data.Int.Notation
import Mathlib.Data.Nat.Notation

/-!
Errors: libnl's error numbers, `nl::Exception` and what else the wrappers throw.
-/

namespace Nlcpp

/-! ### libnl error numbers -/

def NLE_SUCCESS : ℕ := 0
def NLE_NOATTR : ℕ := 13
def NLE_MISSING_ATTR : ℕ := 14
def NLE_SEQ_MISMATCH : ℕ := 16
def NLE_NOADDR : ℕ := 19
def NLE_DUMP_INTR : ℕ := 33

/-- The errno value `EPROTO`. -/
def EPROTO : ℕ := 71

/-! ### `nl::Exception` -/

/-- `nl::Exception` and the classes derived from it. -/
inductive ExceptionClass where
  | exception | attributeNotAvailable | missingAttribute | noAddress
deriving DecidableEq, Repr

/-- An exception object: its class, the text given by the thrower, its code. -/
structure Exception where
  cls : ExceptionClass
  text : String
  error : ℤ
deriving DecidableEq, Repr

/-- `Exception::code`. -/
def Exception.code (e : Exception) : ℤ := e.error

/-- `Exception::what`; `geterror` is libnl's `nl_geterror`. -/
def Exception.what (geterror : ℤ → String) (e : Exception) : String :=
  e.text ++ ": " ++ geterror e.error

/-- `Exception::throwCode`. -/
def Exception.throwCode (text : String) (code : ℤ) : Except Exception Unit :=
  let code := code.natAbs
  if code = NLE_SUCCESS then .ok ()
  else if code = NLE_NOATTR then .error ⟨.attributeNotAvailable, text, NLE_NOATTR⟩
  else if code = NLE_MISSING_ATTR then .error ⟨.missingAttribute, text, NLE_MISSING_ATTR⟩
  else if code = NLE_NOADDR then .error ⟨.noAddress, text, NLE_NOADDR⟩
  else .error ⟨.exception, text, code⟩

@[simp] theorem Exception.throwCode_zero (text : String) :
    Exception.throwCode text 0 = .ok () := rfl

/-- A code other than 0 is thrown, whatever its sign, and the exception carries
its magnitude. -/
theorem Exception.throwCode_ne_zero (text : String) {code : ℤ} (h : code ≠ 0) :
    ∃ e, Exception.throwCode text code = .error e ∧ e.text = text ∧ e.code = code.natAbs := by
  have hn : code.natAbs ≠ NLE_SUCCESS := by
    simpa [NLE_SUCCESS] using h
  unfold Exception.throwCode
  simp only [if_neg hn]
  split
  · next eq => exact ⟨_, rfl, rfl, by simp [Exception.code, eq]⟩
  · split
    · next eq => exact ⟨_, rfl, rfl, by simp [Exception.code, eq]⟩
    · split
      · next eq => exact ⟨_, rfl, rfl, by simp [Exception.code, eq]⟩
      · exact ⟨_, rfl, rfl, rfl⟩

/-- What can be in flight when a call ends by an exception: one of the classes
above, a `std::runtime_error`, or something a callback of the user throws. -/
inductive Thrown where
  | nl (e : Exception)
  | runtimeError (what : String)
  | user (tag : ℕ)
deriving DecidableEq, Repr

end Nlcpp
