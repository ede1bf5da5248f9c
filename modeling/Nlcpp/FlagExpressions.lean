import Nlcpp.Flags
import Nlcpp.Lib.Expr

/-!
Expressions with `GenericFlags`: the operators of the class, and what an expression built
from them does to its variables.

`operator&=` and `operator|=` return a copy of the object they change. As the target of a
further assignment that copy is a temporary, and what the outer assignment does to it is
lost: an expression means what it does with its chains of assignments taken apart
(`outcome_eq_unchain`). So it means the same as over plain variables where every chain keeps
what its innermost assignment gave (`means_iff`).
-/

namespace Nlcpp.GenericFlags

open Expression

/-! ### The operators of the class -/

/-- `GenericFlags(unsigned int)`. -/
def ofUnsigned (value : UInt32) : GenericFlags := ⟨value⟩

/-- `operator&(GenericFlags)`. -/
def and (flags other : GenericFlags) : GenericFlags := ⟨flags.value &&& other.value⟩

/-- `operator&(unsigned int)`. -/
def andUnsigned (flags : GenericFlags) (other : UInt32) : GenericFlags := ⟨flags.value &&& other⟩

/-- `operator|(unsigned int)`. -/
def orUnsigned (flags : GenericFlags) (other : UInt32) : GenericFlags := ⟨flags.value ||| other⟩

/-- `operator^(GenericFlags)`. -/
def xor (flags other : GenericFlags) : GenericFlags := ⟨flags.value ^^^ other.value⟩

/-- `operator^(unsigned int)`. -/
def xorUnsigned (flags : GenericFlags) (other : UInt32) : GenericFlags := ⟨flags.value ^^^ other⟩

/-- What a compound assignment leaves in the object, and the copy of it that is returned. -/
structure Assigned where
  object : GenericFlags
  returned : GenericFlags

/-- `operator&=(GenericFlags)`. -/
def andAssign (flags other : GenericFlags) : Assigned :=
  let object : GenericFlags := ⟨flags.value &&& other.value⟩
  ⟨object, object⟩

/-- `operator&=(unsigned int)`. -/
def andAssignUnsigned (flags : GenericFlags) (other : UInt32) : Assigned :=
  let object : GenericFlags := ⟨flags.value &&& other⟩
  ⟨object, object⟩

/-- `operator|=(GenericFlags)`. -/
def orAssign (flags other : GenericFlags) : Assigned :=
  let object : GenericFlags := ⟨flags.value ||| other.value⟩
  ⟨object, object⟩

/-- `operator|=(unsigned int)`. -/
def orAssignUnsigned (flags : GenericFlags) (other : UInt32) : Assigned :=
  let object : GenericFlags := ⟨flags.value ||| other⟩
  ⟨object, object⟩

/-! ### Operators on plain numbers -/

/-- `~`, and the conversion to flags, which leaves a number as it is. -/
inductive UnOp where
  | not | convert
deriving DecidableEq, Repr

/-- `&`, `|` and `^`. -/
inductive BinOp where
  | and | or | xor
deriving DecidableEq, Repr

/-- `&=` and `|=`. -/
inductive AssignOp where
  | and | or
deriving DecidableEq, Repr

def UnOp.plain : UnOp → UInt32 → UInt32
  | .not, v => ~~~v
  | .convert, v => v

def BinOp.plain : BinOp → UInt32 → UInt32 → UInt32
  | .and, v, w => v &&& w
  | .or, v, w => v ||| w
  | .xor, v, w => v ^^^ w

def AssignOp.underlying : AssignOp → BinOp
  | .and => .and
  | .or => .or

/-- The operators over `unsigned int`. -/
def plain : Operators UInt32 UnOp BinOp AssignOp where
  un := UnOp.plain
  bin := BinOp.plain
  underlying := AssignOp.underlying

/-! ### Calls -/

/-- What a parameter is given: flags are copied, and a number is one of `unsigned int`. -/
inductive Argument where
  | flags (f : GenericFlags)
  | number (v : UInt32)

/-- `operator unsigned int` of flags. -/
def Argument.unsigned : Argument → UInt32
  | .flags f => f.value
  | .number v => v

def UnOp.call : UnOp → Argument → Argument
  | .not, .flags f => .flags f.not
  | .not, .number v => .number (~~~v)
  | .convert, .flags f => .flags f
  | .convert, .number v => .flags (ofUnsigned v)

/-- The overload for the operands; a number on the left takes the built-in operator, for
which flags on the right are converted. -/
def BinOp.call : BinOp → Argument → Argument → Argument
  | .and, .flags f, .flags g => .flags (f.and g)
  | .and, .flags f, .number v => .flags (f.andUnsigned v)
  | .or, .flags f, .flags g => .flags (f.or g)
  | .or, .flags f, .number v => .flags (f.orUnsigned v)
  | .xor, .flags f, .flags g => .flags (f.xor g)
  | .xor, .flags f, .number v => .flags (f.xorUnsigned v)
  | op, .number v, right => .number (op.plain v right.unsigned)

def AssignOp.call : AssignOp → GenericFlags → Argument → Assigned
  | .and, f, .flags g => f.andAssign g
  | .and, f, .number v => f.andAssignUnsigned v
  | .or, f, .flags g => f.orAssign g
  | .or, f, .number v => f.orAssignUnsigned v

theorem UnOp.call_unsigned (op : UnOp) (argument : Argument) :
    (op.call argument).unsigned = op.plain argument.unsigned := by
  cases op <;> cases argument <;> rfl

theorem BinOp.call_unsigned (op : BinOp) (left right : Argument) :
    (op.call left right).unsigned = op.plain left.unsigned right.unsigned := by
  cases op <;> cases left <;> cases right <;> rfl

theorem AssignOp.call_value (op : AssignOp) (f : GenericFlags) (argument : Argument) :
    (op.call f argument).object.value = op.underlying.plain f.value argument.unsigned := by
  cases op <;> cases argument <;> rfl

theorem AssignOp.call_returned (op : AssignOp) (f : GenericFlags) (argument : Argument) :
    (op.call f argument).returned = (op.call f argument).object := by
  cases op <;> cases argument <;> rfl

/-! ### Expressions -/

/-- Expressions over flags and constants, as they stand in a program. -/
abbrev FlagExpr (c : Category) := Expr UInt32 UnOp BinOp AssignOp c

/-- What an expression denotes: a variable, a temporary object or a number. A number is
never what stands for an lvalue. -/
inductive Operand : Category → Type where
  | object {c : Category} (x : ℕ) : Operand c
  | temporary {c : Category} (f : GenericFlags) : Operand c
  | number (v : UInt32) : Operand .prvalue

namespace Operand

def read : Operand .lvalue → Operand .prvalue
  | object x => object x
  | temporary f => temporary f

/-- The copy that a parameter is given. -/
def load {c : Category} (ρ : ℕ → GenericFlags) : Operand c → Argument
  | object x => .flags (ρ x)
  | temporary f => .flags f
  | number v => .number v

def ofArgument : Argument → Operand .prvalue
  | .flags f => temporary f
  | .number v => number v

theorem temporary_unsigned {c : Category} (ρ : ℕ → GenericFlags) (f : GenericFlags) :
    ((temporary f : Operand c).load ρ).unsigned = f.value := rfl

theorem load_ofArgument (ρ : ℕ → GenericFlags) (argument : Argument) :
    (ofArgument argument).load ρ = argument := by
  cases argument <;> rfl

theorem load_read (ρ : ℕ → GenericFlags) (operand : Operand .lvalue) :
    operand.read.load ρ = operand.load ρ := by
  cases operand <;> rfl

theorem of_read_object {operand : Operand .lvalue} {x : ℕ} (denotes : operand.read = object x) :
    operand = object x := by
  cases operand with
  | object y =>
      cases denotes
      rfl
  | temporary f => cases denotes

theorem ofArgument_ne_object (argument : Argument) (x : ℕ) : ofArgument argument ≠ object x := by
  intro denotes
  cases argument <;> cases denotes

end Operand

/-- What an expression denotes, and the variables after it. The operand a member is called
on is looked at in the call, its parameter is copied from the other one before. -/
def run : {c : Category} → FlagExpr c → (ℕ → GenericFlags) → Operand c × (ℕ → GenericFlags)
  | _, .var x, ρ => (.object x, ρ)
  | _, .assign op target e, ρ =>
    let right := run e ρ
    let left := run target right.2
    let argument := right.1.load right.2
    match left.1 with
    | .object x =>
      let result := op.call (left.2 x) argument
      (.temporary result.returned, Function.update left.2 x result.object)
    | .temporary f => (.temporary (op.call f argument).returned, left.2)
  | _, .read e, ρ => ((run e ρ).1.read, (run e ρ).2)
  | _, .const v, ρ => (.number v, ρ)
  | _, .un op e, ρ =>
    let inner := run e ρ
    (.ofArgument (op.call (inner.1.load inner.2)), inner.2)
  | _, .bin op .left l r, ρ =>
    let left := run l ρ
    let right := run r left.2
    (.ofArgument (op.call (left.1.load right.2) (right.1.load right.2)), right.2)
  | _, .bin op .right l r, ρ =>
    let right := run r ρ
    let left := run l right.2
    (.ofArgument (op.call (left.1.load left.2) (right.1.load right.2)), left.2)

/-- The numbers that the variables hold. -/
def values (ρ : ℕ → GenericFlags) : ℕ → UInt32 := GenericFlags.value ∘ ρ

/-- The value of an expression and the values of the variables after it. -/
def outcome {c : Category} (e : FlagExpr c) (ρ : ℕ → GenericFlags) : UInt32 × (ℕ → UInt32) :=
  (((run e ρ).1.load (run e ρ).2).unsigned, values (run e ρ).2)

/-- The expression means what it does over plain variables. The language leaves the plain
expression undefined where one operand assigns to what the other one mentions; then it means
nothing that could be kept. -/
def Means (e : FlagExpr .prvalue) (ρ : ℕ → GenericFlags) : Prop :=
  e.Sequenced → outcome e ρ = e.eval plain (values ρ)

/-! ### Targets -/

section Targets

variable {op : AssignOp} {target : FlagExpr .lvalue} {e : FlagExpr .prvalue}
  {ρ : ℕ → GenericFlags}

/-- An assignment to a variable changes it. -/
theorem run_assign_var (x : ℕ) :
    let argument := (run e ρ).1.load (run e ρ).2
    run (.assign op (.var x) e) ρ =
      (.temporary (op.call ((run e ρ).2 x) argument).returned,
        Function.update (run e ρ).2 x (op.call ((run e ρ).2 x) argument).object) := by
  simp only [run]

/-- An assignment to a temporary changes no variable. -/
theorem run_assign_temporary {f : GenericFlags}
    (denotes : (run target (run e ρ).2).1 = .temporary f) :
    run (.assign op target e) ρ =
      (.temporary (op.call f ((run e ρ).1.load (run e ρ).2)).returned,
        (run target (run e ρ).2).2) := by
  simp only [run, denotes]

/-- An assignment denotes a temporary. -/
theorem run_assign (op : AssignOp) (target : FlagExpr .lvalue) (e : FlagExpr .prvalue)
    (ρ : ℕ → GenericFlags) : ∃ f, (run (.assign op target e) ρ).1 = .temporary f := by
  cases denotes : (run target (run e ρ).2).1 with
  | object x =>
      simp only [run, denotes]
      exact ⟨_, rfl⟩
  | temporary f =>
      simp only [run, denotes]
      exact ⟨_, rfl⟩

end Targets

/-! ### What an expression leaves alone -/

/-- Only what is assigned to changes. -/
theorem run_frame {c : Category} (e : FlagExpr c) (ρ : ℕ → GenericFlags) {x : ℕ}
    (apart : x ∉ e.assigned) : (run e ρ).2 x = ρ x := by
  induction e generalizing ρ with
  | var y => rfl
  | assign op target e ihTarget ihE =>
      simp only [Expr.assigned, List.cons_append, List.mem_cons, List.mem_append, not_or] at apart
      obtain ⟨other, notTarget, notE⟩ := apart
      cases target with
      | var y =>
          rw [Expr.place] at other
          rw [run_assign_var]
          exact (Function.update_of_ne other ..).trans (ihE ρ notE)
      | assign op' target e' =>
          obtain ⟨f, denotes⟩ := run_assign op' target e' (run e ρ).2
          rw [run_assign_temporary denotes]
          exact (ihTarget _ notTarget).trans (ihE ρ notE)
  | read e ih => exact ih ρ apart
  | const v => rfl
  | un op e ih => exact ih ρ apart
  | bin op first l r ihL ihR =>
      simp only [Expr.assigned, List.mem_append, not_or] at apart
      obtain ⟨notL, notR⟩ := apart
      cases first with
      | left => exact (ihR _ notR).trans (ihL ρ notL)
      | right => exact (ihL _ notL).trans (ihR ρ notR)

/-- An expression that denotes a variable mentions it. -/
theorem run_object {c : Category} (e : FlagExpr c) {ρ : ℕ → GenericFlags} {x : ℕ}
    (denotes : (run e ρ).1 = .object x) : x ∈ e.mentioned := by
  induction e with
  | var y =>
      cases denotes
      exact List.mem_singleton_self x
  | assign op target e =>
      obtain ⟨f, temporary⟩ := run_assign op target e ρ
      cases temporary.symm.trans denotes
  | read e ih => exact ih (Operand.of_read_object denotes)
  | const v => cases denotes
  | un op e => exact absurd denotes (Operand.ofArgument_ne_object _ x)
  | bin op first l r =>
      cases first with
      | left => exact absurd denotes (Operand.ofArgument_ne_object _ x)
      | right => exact absurd denotes (Operand.ofArgument_ne_object _ x)

/-- What an expression denotes is the same while nothing it mentions changes. -/
theorem load_stable {c : Category} (e : FlagExpr c) {ρ ρ' : ℕ → GenericFlags}
    (same : ∀ x ∈ e.mentioned, ρ' x = (run e ρ).2 x) :
    (run e ρ).1.load ρ' = (run e ρ).1.load (run e ρ).2 := by
  cases operand : (run e ρ).1 with
  | object x => exact congrArg Argument.flags (same x (run_object e operand))
  | temporary f => rfl
  | number v => rfl

/-! ### What an expression means -/

theorem values_update (ρ : ℕ → GenericFlags) (x : ℕ) (f : GenericFlags) :
    values (Function.update ρ x f) = Function.update (values ρ) x f.value :=
  Function.comp_update ..

/-- **An expression means what it does with its chains of assignments taken apart.** -/
theorem outcome_eq_unchain {c : Category} (e : FlagExpr c) (sequenced : e.Sequenced)
    (ρ : ℕ → GenericFlags) : outcome e ρ = (e.unchain plain).eval plain (values ρ) := by
  induction e generalizing ρ with
  | var x => rfl
  | assign op target e ihTarget ihE =>
      obtain ⟨sequencedTarget, sequencedE⟩ := sequenced
      have right := ihE sequencedE ρ
      cases target with
      | var x =>
          rw [outcome, run_assign_var, values_update]
          simp only [Expr.unchain, Expr.eval, Expr.place, ← right, Operand.temporary_unsigned,
            AssignOp.call_returned, AssignOp.call_value]
          rfl
      | assign op' target e' =>
          have left := ihTarget sequencedTarget (run e ρ).2
          obtain ⟨f, denotes⟩ := run_assign op' target e' (run e ρ).2
          rw [outcome, denotes, Operand.temporary_unsigned] at left
          rw [outcome, run_assign_temporary denotes]
          simp only [Expr.unchain, Expr.eval, ← right, outcome, ← left,
            Operand.temporary_unsigned, AssignOp.call_returned, AssignOp.call_value]
          rfl
  | read e ih =>
      have inside := ih sequenced ρ
      simp only [outcome, run, Operand.load_read]
      exact inside
  | const v => rfl
  | un op e ih =>
      have inside := ih sequenced ρ
      simp only [Expr.unchain, Expr.eval, ← inside, outcome, run, Operand.load_ofArgument,
        UnOp.call_unsigned]
      rfl
  | bin op first l r ihL ihR =>
      obtain ⟨sequencedL, sequencedR, leftApart, rightApart⟩ := sequenced
      cases first with
      | left =>
          have left := ihL sequencedL ρ
          have right := ihR sequencedR (run l ρ).2
          have stable : (run l ρ).1.load (run r (run l ρ).2).2 = (run l ρ).1.load (run l ρ).2 :=
            load_stable l fun x here => run_frame r _ fun assigned => rightApart x assigned here
          simp only [outcome] at left right
          simp only [Expr.unchain, Expr.eval, ← left, ← right, outcome, run, stable,
            Operand.load_ofArgument, BinOp.call_unsigned]
          rfl
      | right =>
          have right := ihR sequencedR ρ
          have left := ihL sequencedL (run r ρ).2
          simp only [outcome] at left right
          simp only [Expr.unchain, Expr.eval, ← left, ← right, outcome, run,
            Operand.load_ofArgument, BinOp.call_unsigned]
          rfl

/-- Without an assignment to an assignment, nothing is lost. -/
theorem means_of_no_chain (e : FlagExpr .prvalue) (single : e.chained = [])
    (ρ : ℕ → GenericFlags) : Means e ρ := fun sequenced => by
  rw [outcome_eq_unchain e sequenced ρ]
  exact Expr.eval_unchain e (Expr.keeps_of_no_chain e single (values ρ))

/-- **Where an expression means what it does over plain variables**: exactly where its
chains of assignments, taken apart, change nothing there; so wherever every chain keeps what
its innermost assignment gave, and, when no target looks at a chain, nowhere else. -/
theorem means_iff (e : FlagExpr .prvalue) (ρ : ℕ → GenericFlags) :
    (Means e ρ ↔
      (e.Sequenced → (e.unchain plain).eval plain (values ρ) = e.eval plain (values ρ))) ∧
    (e.Keeps plain (values ρ) → Means e ρ) ∧
    (e.Sequenced → e.Apart → (Means e ρ ↔ e.Keeps plain (values ρ))) := by
  have means : Means e ρ ↔
      (e.Sequenced → (e.unchain plain).eval plain (values ρ) = e.eval plain (values ρ)) :=
    forall_congr' fun sequenced => by rw [outcome_eq_unchain e sequenced ρ]
  refine ⟨means, fun keeps => means.mpr fun _ => Expr.eval_unchain e keeps, ?_⟩
  intro sequenced apart
  exact means.trans ((forall_prop_of_true sequenced).trans
    (Expr.unchain_iff_keeps e sequenced apart (values ρ)))

/-- `(f |= 1u) |= 2u` on empty flags: the second bit only reaches the copy. -/
theorem chained_or_loses :
    let e : FlagExpr .prvalue := .read (.assign .or (.assign .or (.var 0) (.const 1)) (.const 2))
    let ρ : ℕ → GenericFlags := fun _ => ⟨0⟩
    e.Sequenced ∧ (outcome e ρ).1 = 3 ∧ (outcome e ρ).2 0 = 1 ∧
      (e.eval plain (values ρ)).1 = 3 ∧ (e.eval plain (values ρ)).2 0 = 3 ∧ ¬Means e ρ := by
  intro e ρ
  have sequenced : e.Sequenced := ⟨⟨trivial, trivial⟩, trivial⟩
  have kept : (outcome e ρ).2 0 = 1 := by decide
  have due : e.eval plain (values ρ) = (3, Function.update (values ρ) 0 3) := by
    have three : plain.bin (plain.underlying .or)
        (plain.bin (plain.underlying .or) (values ρ 0) 1) 2 = 3 := by decide
    simp only [e, Expr.eval, Expr.place, Function.update_self, Function.update_idem, three]
  refine ⟨sequenced, by decide, kept, by rw [due], by rw [due]; rfl, fun means => ?_⟩
  rw [means sequenced, due] at kept
  exact absurd kept (by decide)

end Nlcpp.GenericFlags
