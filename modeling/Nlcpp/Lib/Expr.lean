import Mathlib.Logic.Function.Basic
import Mathlib.Order.Nat

/-!
Expressions with side effects: variables, operators, and compound assignments whose result
may be the target of the next one.

Values, operators and their meaning are parameters. The order in which the operands of a
binary operator are evaluated is part of the expression; an assignment evaluates its right
side first. `unchain` puts the underlying operator in place of every assignment whose target
is an assignment, so that only the innermost one of a chain changes the variable. An
expression in which every chain keeps what its innermost assignment gave the variable is not
changed by that (`eval_unchain`), and no other is where nothing looks at the variable of a
chain again (`unchain_iff_keeps`).
-/

namespace Nlcpp.Expression

/-- An lvalue names a variable, a prvalue has a value only. -/
inductive Category where
  | lvalue | prvalue
deriving DecidableEq, Repr

/-- The operand that is evaluated first. -/
inductive Side where
  | left | right
deriving DecidableEq, Repr

/-- Expressions over values `V`, with unary and binary operators and compound assignments. -/
inductive Expr (V U B A : Type) : Category → Type where
  | var (x : ℕ) : Expr V U B A .lvalue
  | assign (op : A) (target : Expr V U B A .lvalue) (e : Expr V U B A .prvalue) :
      Expr V U B A .lvalue
  | read (e : Expr V U B A .lvalue) : Expr V U B A .prvalue
  | const (v : V) : Expr V U B A .prvalue
  | un (op : U) (e : Expr V U B A .prvalue) : Expr V U B A .prvalue
  | bin (op : B) (first : Side) (l r : Expr V U B A .prvalue) : Expr V U B A .prvalue

/-- What the operators do; a compound assignment has an underlying binary operator. -/
structure Operators (V U B A : Type) where
  un : U → V → V
  bin : B → V → V → V
  underlying : A → B

namespace Expr

variable {V U B A : Type} {c : Category}

/-! ### Meaning -/

/-- The variable that an lvalue names. -/
def place : Expr V U B A .lvalue → ℕ
  | var x => x
  | assign _ target _ => target.place

section Eval

variable (O : Operators V U B A)

/-- The value of an expression and the variables after it; the value of an lvalue is what
its variable holds then. -/
def eval : {c : Category} → Expr V U B A c → (ℕ → V) → V × (ℕ → V)
  | _, var x, s => (s x, s)
  | _, assign op target e, s =>
    let right := e.eval s
    let left := target.eval right.2
    let v := O.bin (O.underlying op) (left.2 target.place) right.1
    (v, Function.update left.2 target.place v)
  | _, read e, s => e.eval s
  | _, const v, s => (v, s)
  | _, un op e, s => (O.un op (e.eval s).1, (e.eval s).2)
  | _, bin op .left l r, s =>
    let left := l.eval s
    let right := r.eval left.2
    (O.bin op left.1 right.1, right.2)
  | _, bin op .right l r, s =>
    let right := r.eval s
    let left := l.eval right.2
    (O.bin op left.1 right.1, left.2)

/-- The expression with a binary operator in place of every assignment whose target is an
assignment. -/
def unchain : {c : Category} → Expr V U B A c → Expr V U B A .prvalue
  | _, var x => read (var x)
  | _, assign op (var x) e => read (assign op (var x) e.unchain)
  | _, assign op (assign op' target e') e =>
    bin (O.underlying op) .right (assign op' target e').unchain e.unchain
  | _, read e => e.unchain
  | _, const v => const v
  | _, un op e => un op e.unchain
  | _, bin op first l r => bin op first l.unchain r.unchain

/-- What the innermost assignment of a chain gives its variable. -/
def innermost : Expr V U B A .lvalue → (ℕ → V) → V
  | var x, s => s x
  | assign op (var x) e, s => ((assign op (var x) e).eval O s).1
  | assign _ (assign op' target e') e, s =>
    (assign op' target e').innermost (e.eval O s).2

/-- Every chain of assignments in it leaves its variable as the innermost one made it. -/
def Keeps : {c : Category} → Expr V U B A c → (ℕ → V) → Prop
  | _, var _, _ => True
  | _, assign _ target e, s => e.Keeps s ∧ target.Keeps (e.eval O s).2
  | _, read e, s => e.Keeps s ∧ (e.eval O s).1 = e.innermost O s
  | _, const _, _ => True
  | _, un _ e, s => e.Keeps s
  | _, bin _ .left l r, s => l.Keeps s ∧ r.Keeps (l.eval O s).2
  | _, bin _ .right l r, s => r.Keeps s ∧ l.Keeps (r.eval O s).2

end Eval

/-! ### Occurrences -/

/-- The variables that occur. -/
def mentioned : {c : Category} → Expr V U B A c → List ℕ
  | _, var x => [x]
  | _, assign _ target e => target.mentioned ++ e.mentioned
  | _, read e => e.mentioned
  | _, const _ => []
  | _, un _ e => e.mentioned
  | _, bin _ _ l r => l.mentioned ++ r.mentioned

/-- The variables that are assigned to. -/
def assigned : {c : Category} → Expr V U B A c → List ℕ
  | _, var _ => []
  | _, assign _ target e => target.place :: target.assigned ++ e.assigned
  | _, read e => e.assigned
  | _, const _ => []
  | _, un _ e => e.assigned
  | _, bin _ _ l r => l.assigned ++ r.assigned

/-- The variable of an assignment to an assignment. -/
def links : Expr V U B A .lvalue → List ℕ
  | var _ => []
  | assign _ (var _) _ => []
  | assign _ (assign _ target _) _ => [target.place]

/-- The variables of the chains of assignments in it; a chain ends where it is read. -/
def chained : {c : Category} → Expr V U B A c → List ℕ
  | _, var _ => []
  | _, assign _ target e => target.chained ++ e.chained
  | _, read e => e.links ++ e.chained
  | _, const _ => []
  | _, un _ e => e.chained
  | _, bin _ _ l r => l.chained ++ r.chained

/-- No operand of a binary operator assigns to a variable that the other one mentions: the
operands may be evaluated in any order. -/
def Sequenced : {c : Category} → Expr V U B A c → Prop
  | _, var _ => True
  | _, assign _ target e => target.Sequenced ∧ e.Sequenced
  | _, read e => e.Sequenced
  | _, const _ => True
  | _, un _ e => e.Sequenced
  | _, bin _ _ l r => l.Sequenced ∧ r.Sequenced ∧
      (∀ x ∈ l.assigned, x ∉ r.mentioned) ∧ ∀ x ∈ r.assigned, x ∉ l.mentioned

/-- No target mentions the variable of a chain in the right side of its assignment. -/
def Apart : {c : Category} → Expr V U B A c → Prop
  | _, var _ => True
  | _, assign _ target e => target.Apart ∧ e.Apart ∧ ∀ x ∈ e.chained, x ∉ target.mentioned
  | _, read e => e.Apart
  | _, const _ => True
  | _, un _ e => e.Apart
  | _, bin _ _ l r => l.Apart ∧ r.Apart

/-! ### What an expression leaves alone -/

theorem place_mentioned (e : Expr V U B A .lvalue) : e.place ∈ e.mentioned := by
  match e with
  | var x => simp only [place, mentioned, List.mem_singleton]
  | assign op target e =>
      simp only [place, mentioned]
      exact List.mem_append_left _ (place_mentioned target)

theorem assigned_mentioned (e : Expr V U B A c) {x : ℕ} (here : x ∈ e.assigned) :
    x ∈ e.mentioned := by
  induction e with
  | var y => cases here
  | assign op target e ihTarget ihE =>
      rcases List.mem_append.mp here with inTarget | inE
      · rcases List.mem_cons.mp inTarget with rfl | inTarget
        · exact List.mem_append_left _ (place_mentioned target)
        · exact List.mem_append_left _ (ihTarget inTarget)
      · exact List.mem_append_right _ (ihE inE)
  | read e ih => exact ih here
  | const v => cases here
  | un op e ih => exact ih here
  | bin op first l r ihL ihR =>
      rcases List.mem_append.mp here with inL | inR
      · exact List.mem_append_left _ (ihL inL)
      · exact List.mem_append_right _ (ihR inR)

theorem links_assigned (e : Expr V U B A .lvalue) {x : ℕ} (here : x ∈ e.links) :
    x ∈ e.assigned := by
  cases e with
  | var y => cases here
  | assign op target e =>
      cases target with
      | var y => cases here
      | assign op' target e' =>
          rw [List.mem_singleton.mp here]
          simp [assigned, place]

theorem chained_assigned (e : Expr V U B A c) {x : ℕ} (here : x ∈ e.chained) :
    x ∈ e.assigned := by
  induction e with
  | var y => cases here
  | assign op target e ihTarget ihE =>
      rcases List.mem_append.mp here with inTarget | inE
      · exact List.mem_append_left _ (List.mem_cons_of_mem _ (ihTarget inTarget))
      · exact List.mem_append_right _ (ihE inE)
  | read e ih =>
      rcases List.mem_append.mp here with link | inside
      · exact links_assigned e link
      · exact ih inside
  | const v => cases here
  | un op e ih => exact ih here
  | bin op first l r ihL ihR =>
      rcases List.mem_append.mp here with inL | inR
      · exact List.mem_append_left _ (ihL inL)
      · exact List.mem_append_right _ (ihR inR)

section Frame

variable (O : Operators V U B A)

/-- Only what is assigned to changes. -/
theorem eval_frame (e : Expr V U B A c) (s : ℕ → V) {x : ℕ} (apart : x ∉ e.assigned) :
    (e.eval O s).2 x = s x := by
  induction e generalizing s with
  | var y => rfl
  | assign op target e ihTarget ihE =>
      simp only [assigned, List.cons_append, List.mem_cons, List.mem_append, not_or] at apart
      obtain ⟨other, notTarget, notE⟩ := apart
      simp only [eval]
      rw [Function.update_of_ne other, ihTarget _ notTarget, ihE _ notE]
  | read e ih => exact ih s apart
  | const v => rfl
  | un op e ih => exact ih s apart
  | bin op first l r ihL ihR =>
      simp only [assigned, List.mem_append, not_or] at apart
      obtain ⟨notL, notR⟩ := apart
      cases first with
      | left => exact (ihR _ notR).trans (ihL _ notL)
      | right => exact (ihL _ notL).trans (ihR _ notR)

theorem assigned_unchain (e : Expr V U B A c) {x : ℕ} (here : x ∈ (e.unchain O).assigned) :
    x ∈ e.assigned := by
  induction e with
  | var y => cases here
  | assign op target e ihTarget ihE =>
      cases target with
      | var y =>
          simp only [unchain, assigned, List.cons_append, List.nil_append, List.mem_cons] at here ⊢
          exact here.imp_right ihE
      | assign op' target e' =>
          rcases List.mem_append.mp here with inTarget | inE
          · exact List.mem_append_left _ (List.mem_cons_of_mem _ (ihTarget inTarget))
          · exact List.mem_append_right _ (ihE inE)
  | read e ih => exact ih here
  | const v => cases here
  | un op e ih => exact ih here
  | bin op first l r ihL ihR =>
      rcases List.mem_append.mp here with inL | inR
      · exact List.mem_append_left _ (ihL inL)
      · exact List.mem_append_right _ (ihR inR)

end Frame

/-! ### Values and places -/

section Value

variable (O : Operators V U B A)

/-- The value of an lvalue is what its variable holds. -/
theorem eval_value (e : Expr V U B A .lvalue) (s : ℕ → V) :
    (e.eval O s).2 e.place = (e.eval O s).1 := by
  match e with
  | var x => simp only [eval, place]
  | assign op target e => simp only [eval, place, Function.update_self]

/-- Without a link, the innermost assignment is the only one. -/
theorem innermost_of_not_link {e : Expr V U B A .lvalue} (single : e.place ∉ e.links)
    (s : ℕ → V) : e.innermost O s = (e.eval O s).1 := by
  match e with
  | var x => simp only [innermost, eval]
  | assign op (var x) e => simp only [innermost]
  | assign op (assign op' target e') e =>
      simp only [links, place, List.mem_singleton, not_true_eq_false] at single

theorem eq_place_of_link {e : Expr V U B A .lvalue} {x : ℕ} (here : x ∈ e.links) : x = e.place := by
  match e with
  | var y => cases here
  | assign op (var y) e => cases here
  | assign op (assign op' target e') e =>
      simp only [place]
      exact List.mem_singleton.mp here

/-- No chain inside an lvalue is on its own variable. -/
theorem Apart.place {e : Expr V U B A .lvalue} (apart : e.Apart) : e.place ∉ e.chained := by
  match e with
  | var x => exact List.not_mem_nil
  | assign op target e =>
      obtain ⟨apartTarget, -, notE⟩ := apart
      intro here
      simp only [Expr.place] at here
      rcases List.mem_append.mp here with inTarget | inE
      · exact Apart.place apartTarget inTarget
      · exact notE _ inE (place_mentioned target)

/-- What an expression gives when only the innermost assignment of its own chain changes the
variable. -/
def kept : {c : Category} → Expr V U B A c → (ℕ → V) → V × (ℕ → V)
  | .lvalue, e, s =>
    ((e.eval O s).1, Function.update (e.eval O s).2 e.place (e.innermost O s))
  | .prvalue, e, s => e.eval O s

end Value

/-! ### Chains taken apart -/

section Unchain

variable {O : Operators V U B A}

/-- An assignment to an assignment is the operator applied to what the inner one gives. -/
theorem eval_chain (op op' : A) (target : Expr V U B A .lvalue) (e' e : Expr V U B A .prvalue)
    (s : ℕ → V) :
    let inner := (assign op' target e').kept O (e.eval O s).2
    (assign op (assign op' target e') e).kept O s =
      (O.bin (O.underlying op) inner.1 (e.eval O s).1, inner.2) := by
  have held := eval_value O (assign op' target e') (e.eval O s).2
  have spot : (assign op (assign op' target e') e).place = (assign op' target e').place := by
    rw [place]
  rw [kept, kept, spot, innermost]
  generalize assign op' target e' = inner at held
  simp only [eval, held, Function.update_idem]

/-- **Where every chain keeps what its innermost assignment gave**, taking the chains apart
changes nothing. -/
theorem eval_unchain (e : Expr V U B A c) {s : ℕ → V} (keeps : e.Keeps O s) :
    (e.unchain O).eval O s = e.kept O s := by
  induction e generalizing s with
  | var x => simp only [unchain, eval, kept, innermost, place, Function.update_eq_self]
  | assign op target e ihTarget ihE =>
      obtain ⟨keepsE, keepsTarget⟩ := keeps
      have right : (e.unchain O).eval O s = e.eval O s := ihE keepsE
      have left := ihTarget keepsTarget
      cases target with
      | var x =>
          simp only [unchain, eval, kept, innermost, place, right, Function.update_idem]
      | assign op' target e' =>
          simp only [unchain, eval, right, left]
          exact (eval_chain op op' target e' e s).symm
  | read e ih =>
      obtain ⟨keepsE, same⟩ := keeps
      have inside : (e.unchain O).eval O s = e.kept O s := ih keepsE
      rw [unchain, inside, kept, ← same, ← eval_value, Function.update_eq_self]
      exact Prod.ext (eval_value O e s) rfl
  | const v => rfl
  | un op e ih =>
      have inside : (e.unchain O).eval O s = e.eval O s := ih keeps
      simp only [unchain, eval, kept, inside]
  | bin op first l r ihL ihR =>
      cases first with
      | left =>
          have left : (l.unchain O).eval O s = l.eval O s := ihL keeps.1
          have right : (r.unchain O).eval O (l.eval O s).2 = r.eval O (l.eval O s).2 :=
            ihR keeps.2
          simp only [unchain, eval, kept, left, right]
      | right =>
          have right : (r.unchain O).eval O s = r.eval O s := ihR keeps.1
          have left : (l.unchain O).eval O (r.eval O s).2 = l.eval O (r.eval O s).2 :=
            ihL keeps.2
          simp only [unchain, eval, kept, left, right]

/-- Without a chain there is nothing to keep. -/
theorem keeps_of_no_chain (e : Expr V U B A c) (single : e.chained = []) (s : ℕ → V) :
    e.Keeps O s := by
  induction e generalizing s with
  | var x => exact trivial
  | assign op target e ihTarget ihE =>
      obtain ⟨singleTarget, singleE⟩ := List.append_eq_nil_iff.mp single
      exact ⟨ihE singleE s, ihTarget singleTarget _⟩
  | read e ih =>
      obtain ⟨noLink, singleE⟩ := List.append_eq_nil_iff.mp single
      have notLink : e.place ∉ e.links := by
        rw [noLink]
        exact List.not_mem_nil
      exact ⟨ih singleE s, (innermost_of_not_link O notLink s).symm⟩
  | const v => exact trivial
  | un op e ih => exact ih single s
  | bin op first l r ihL ihR =>
      obtain ⟨singleL, singleR⟩ := List.append_eq_nil_iff.mp single
      cases first with
      | left => exact ⟨ihL singleL s, ihR singleR _⟩
      | right => exact ⟨ihR singleR s, ihL singleL _⟩

end Unchain

/-! ### Chains that lose an assignment -/

section Follows

variable {O : Operators V U B A}

theorem unchain_frame (e : Expr V U B A c) (s : ℕ → V) {x : ℕ} (apart : x ∉ e.mentioned) :
    ((e.unchain O).eval O s).2 x = s x :=
  eval_frame O _ s fun here => apart (assigned_mentioned e (assigned_unchain O e here))

theorem kept_frame (e : Expr V U B A c) (s : ℕ → V) {x : ℕ} (apart : x ∉ e.mentioned) :
    (e.kept O s).2 x = s x := by
  have same := eval_frame O e s fun here => apart (assigned_mentioned e here)
  match c, e with
  | .lvalue, e =>
      have other : x ≠ e.place := fun here => apart (here ▸ place_mentioned e)
      rw [kept]
      exact (Function.update_of_ne other ..).trans same
  | .prvalue, e => exact same

/-- The expression with its chains taken apart, from variables that agree on what is
mentioned: it gives the same value, it differs only in variables of chains, and in none
exactly when every chain keeps what its innermost assignment gave. -/
structure Follows (O : Operators V U B A) (e : Expr V U B A c) (s s' : ℕ → V) : Prop where
  value : ((e.unchain O).eval O s').1 = (e.eval O s).1
  others : ∀ x, x ∉ e.chained → s' x = s x →
    ((e.unchain O).eval O s').2 x = (e.kept O s).2 x
  keeps : (∀ x ∈ e.chained, ((e.unchain O).eval O s').2 x = (e.kept O s).2 x) ↔ e.Keeps O s

/-- The same of two expressions, one after the other. -/
structure FollowsThen (O : Operators V U B A) (f : Expr V U B A .prvalue) (g : Expr V U B A c)
    (s s' : ℕ → V) : Prop where
  first : Follows O f s s'
  second : Follows O g (f.eval O s).2 ((f.unchain O).eval O s').2
  apart : ∀ x ∈ f.chained, x ∉ g.mentioned

section Then

variable {f : Expr V U B A .prvalue} {g : Expr V U B A c} {s s' : ℕ → V}

/-- What the second one mentions is the same after the first. -/
theorem Follows.agree (first : Follows O f s s') (apart : ∀ x ∈ f.chained, x ∉ g.mentioned)
    (same : ∀ x ∈ g.mentioned, s' x = s x) :
    ∀ x ∈ g.mentioned, ((f.unchain O).eval O s').2 x = (f.eval O s).2 x :=
  fun x here => first.others x (fun chain => apart x chain here) (same x here)

theorem FollowsThen.others (both : FollowsThen O f g s s') {x : ℕ} (notF : x ∉ f.chained)
    (notG : x ∉ g.chained) (same : s' x = s x) :
    ((g.unchain O).eval O ((f.unchain O).eval O s').2).2 x = (g.kept O (f.eval O s).2).2 x :=
  both.second.others x notG (both.first.others x notF same)

/-- The second one leaves the variables of the first one's chains as they are. -/
theorem FollowsThen.keeps (both : FollowsThen O f g s s') :
    (∀ x ∈ f.chained ++ g.chained,
      ((g.unchain O).eval O ((f.unchain O).eval O s').2).2 x = (g.kept O (f.eval O s).2).2 x) ↔
      f.Keeps O s ∧ g.Keeps O (f.eval O s).2 := by
  rw [List.forall_mem_append, both.second.keeps, ← both.first.keeps]
  refine and_congr_left fun _ => forall₂_congr fun x here => ?_
  rw [unchain_frame g _ (both.apart x here), kept_frame g _ (both.apart x here)]
  rfl

end Then

theorem follows_var (x : ℕ) {s s' : ℕ → V} (same : s' x = s x) :
    Follows O (var x : Expr V U B A .lvalue) s s' where
  value := same
  others y _ same := by
    simp only [unchain, eval, kept, innermost, place, Function.update_eq_self]
    exact same
  keeps := iff_of_true (fun _ here => absurd here List.not_mem_nil) trivial

/-- The innermost assignment of a chain. -/
theorem FollowsThen.assign_var {op : A} {x : ℕ} {e : Expr V U B A .prvalue} {s s' : ℕ → V}
    (both : FollowsThen O e (var x) s s') : Follows O (assign op (var x) e) s s' := by
  have right := both.first.value
  have left : ((e.unchain O).eval O s').2 x = (e.eval O s).2 x := both.second.value
  have kept_eq : ((assign op (var x) e).kept O s).2 = ((assign op (var x) e).eval O s).2 := by
    simp only [kept, eval, innermost, place, Function.update_idem]
  refine ⟨?_, ?_, ?_⟩
  · simp only [unchain, eval, place, right, left]
  · intro y notChained same
    rw [kept_eq]
    simp only [unchain, eval, place, right, left]
    rcases eq_or_ne y x with rfl | other
    · rw [Function.update_self, Function.update_self]
    · rw [Function.update_of_ne other, Function.update_of_ne other]
      exact both.first.others y notChained same
  · rw [kept_eq]
    have outside {y : ℕ} (here : y ∈ e.chained) : y ≠ x := fun eq =>
      both.apart y here (eq ▸ List.mem_singleton_self y)
    simp only [unchain, eval, place, right, left]
    refine Iff.trans (forall₂_congr fun y here => ?_)
      (both.first.keeps.trans (and_iff_left trivial).symm)
    rw [Function.update_of_ne (outside here), Function.update_of_ne (outside here)]
    rfl

/-- The outer assignment of a chain. -/
theorem FollowsThen.assign_assign {op op' : A} {target : Expr V U B A .lvalue}
    {e' e : Expr V U B A .prvalue} {s s' : ℕ → V}
    (both : FollowsThen O e (assign op' target e') s s') :
    Follows O (assign op (assign op' target e') e) s s' := by
  have chain := eval_chain (O := O) op op' target e' e s
  have value := congrArg Prod.fst chain
  have left := congrArg Prod.snd chain
  refine ⟨?_, ?_, ?_⟩
  · simp only [unchain, eval, both.first.value, both.second.value]
    exact value.symm
  · intro x notChained same
    rw [left]
    exact both.others (fun here => notChained (List.mem_append_right _ here))
      (fun here => notChained (List.mem_append_left _ here)) same
  · rw [left]
    refine Iff.trans ?_ both.keeps
    rw [chained, List.forall_mem_append, List.forall_mem_append, and_comm]
    rfl

/-- An lvalue that is read: what its own chain loses is lost then. -/
theorem Follows.read {e : Expr V U B A .lvalue} {s s' : ℕ → V} (inside : Follows O e s s')
    (apart : e.Apart) (same : s' e.place = s e.place) : Follows O (read e) s s' := by
  have elsewhere {x : ℕ} (other : x ≠ e.place) : (e.kept O s).2 x = (e.eval O s).2 x :=
    Function.update_of_ne other ..
  have own : ((e.unchain O).eval O s').2 e.place = e.innermost O s :=
    (inside.others e.place apart.place same).trans (Function.update_self ..)
  refine ⟨inside.value, ?_, ?_⟩
  · intro x notChained same'
    rw [chained, List.mem_append, not_or] at notChained
    rcases eq_or_ne x e.place with rfl | other
    · refine own.trans ?_
      rw [innermost_of_not_link O notChained.1, ← eval_value]
      rfl
    · exact (inside.others x notChained.2 same').trans (elsewhere other)
  · have link : (∀ x ∈ e.links, ((e.unchain O).eval O s').2 x = (e.eval O s).2 x) ↔
        (e.eval O s).1 = e.innermost O s := by
      by_cases here : e.place ∈ e.links
      · constructor
        · intro all
          rw [← own, all _ here, eval_value]
        · intro kept x link
          rw [eq_place_of_link link, own, eval_value, kept]
      · refine iff_of_true (fun x link => ?_) (innermost_of_not_link O here s).symm
        exact absurd (eq_place_of_link link ▸ link) here
    have chains : (∀ x ∈ e.chained, ((e.unchain O).eval O s').2 x = (e.eval O s).2 x) ↔
        e.Keeps O s := by
      rw [← inside.keeps]
      refine forall₂_congr fun x here => ?_
      rw [elsewhere fun eq => apart.place (eq ▸ here)]
    rw [chained, List.forall_mem_append, and_comm]
    exact and_congr chains link

theorem FollowsThen.bin_left {op : B} {l r : Expr V U B A .prvalue} {s s' : ℕ → V}
    (both : FollowsThen O l r s s') : Follows O (bin op .left l r) s s' := by
  refine ⟨?_, ?_, both.keeps⟩
  · simp only [unchain, eval, both.first.value, both.second.value]
  · intro x notChained same
    rw [chained, List.mem_append, not_or] at notChained
    exact both.others notChained.1 notChained.2 same

theorem FollowsThen.bin_right {op : B} {l r : Expr V U B A .prvalue} {s s' : ℕ → V}
    (both : FollowsThen O r l s s') : Follows O (bin op .right l r) s s' := by
  refine ⟨?_, ?_, ?_⟩
  · simp only [unchain, eval, both.first.value, both.second.value]
  · intro x notChained same
    rw [chained, List.mem_append, not_or] at notChained
    exact both.others notChained.2 notChained.1 same
  · refine Iff.trans ?_ both.keeps
    rw [chained, List.forall_mem_append, List.forall_mem_append, and_comm]
    rfl

/-- An expression whose operands are apart is followed, from the leaves on. -/
theorem follows (e : Expr V U B A c) (sequenced : e.Sequenced) (apart : e.Apart) {s s' : ℕ → V}
    (same : ∀ x ∈ e.mentioned, s' x = s x) : Follows O e s s' := by
  induction e generalizing s s' with
  | var x => exact follows_var x (same x (List.mem_singleton_self x))
  | assign op target e ihTarget ihE =>
      obtain ⟨sequencedTarget, sequencedE⟩ := sequenced
      obtain ⟨apartTarget, apartE, notMentioned⟩ := apart
      obtain ⟨sameTarget, sameE⟩ := List.forall_mem_append.mp same
      have right : Follows O e s s' := ihE sequencedE apartE sameE
      have left := ihTarget sequencedTarget apartTarget (right.agree notMentioned sameTarget)
      have both : FollowsThen O e target s s' := ⟨right, left, notMentioned⟩
      cases target with
      | var x => exact both.assign_var
      | assign op' target e' => exact both.assign_assign
  | read e ih => exact (ih sequenced apart same).read apart (same _ (place_mentioned e))
  | const v =>
      have none_chained : ∀ x ∈ ([] : List ℕ), s' x = s x := fun _ here =>
        absurd here List.not_mem_nil
      exact ⟨rfl, fun _ _ same => same, iff_of_true none_chained trivial⟩
  | un op e ih =>
      have inside : Follows O e s s' := ih sequenced apart same
      exact ⟨congrArg (O.un op) inside.value, inside.others, inside.keeps⟩
  | bin op first l r ihL ihR =>
      obtain ⟨sequencedL, sequencedR, leftApart, rightApart⟩ := sequenced
      obtain ⟨apartL, apartR⟩ := apart
      obtain ⟨sameL, sameR⟩ := List.forall_mem_append.mp same
      cases first with
      | left =>
          have left : Follows O l s s' := ihL sequencedL apartL sameL
          have notMentioned : ∀ x ∈ l.chained, x ∉ r.mentioned := fun x here =>
            leftApart x (chained_assigned l here)
          have right : Follows O r _ _ := ihR sequencedR apartR (left.agree notMentioned sameR)
          exact (FollowsThen.mk left right notMentioned).bin_left
      | right =>
          have right : Follows O r s s' := ihR sequencedR apartR sameR
          have notMentioned : ∀ x ∈ r.chained, x ∉ l.mentioned := fun x here =>
            rightApart x (chained_assigned r here)
          have left : Follows O l _ _ := ihL sequencedL apartL (right.agree notMentioned sameL)
          exact (FollowsThen.mk right left notMentioned).bin_right

/-- **Taking the chains apart changes something exactly where one loses an assignment**, in
an expression whose operands are apart and in which no target looks at a chain. -/
theorem unchain_iff_keeps (e : Expr V U B A .prvalue) (sequenced : e.Sequenced)
    (apart : e.Apart) (s : ℕ → V) : (e.unchain O).eval O s = e.eval O s ↔ e.Keeps O s := by
  constructor
  · intro same
    refine (follows e sequenced apart fun _ _ => rfl).keeps.mp fun x _ => ?_
    rw [same]
    rfl
  · exact eval_unchain e

end Follows

end Expr

end Nlcpp.Expression
