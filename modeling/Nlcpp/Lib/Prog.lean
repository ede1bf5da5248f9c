import Mathlib.Order.Basic
import Mathlib.Data.Nat.Basic

/-!
Programs over a state that only moves on.

A program either returns a value, throws an error, or never comes back: it waits
for something that the state will not provide (`Outcome.blocked`). The state type
carries a preorder, read "`s' ≤ s`: `s'` can come after `s`", and a program
carries the proof that it only moves along it. A loop over a measure that its
body uses up is then a program that satisfies the unfolding equation of a while
loop (`whileDo_run`), so that no fuel appears in what is proved about it.
-/

namespace Nlcpp

/-- How a program ends, with the state it leaves. -/
inductive Outcome (ε σ α : Type) where
  | returned (value : α) (state : σ)
  | threw (error : ε) (state : σ)
  | blocked (state : σ)

namespace Outcome

variable {ε σ α β : Type}

/-- The state a program leaves, however it ends. -/
def state : Outcome ε σ α → σ
  | .returned _ s => s
  | .threw _ s => s
  | .blocked s => s

@[simp] theorem state_returned (a : α) (s : σ) :
    (returned a s : Outcome ε σ α).state = s := rfl

@[simp] theorem state_threw (e : ε) (s : σ) : (threw e s : Outcome ε σ α).state = s := rfl

@[simp] theorem state_blocked (s : σ) : (blocked s : Outcome ε σ α).state = s := rfl

/-- Go on with the value and the state of a program that returned. -/
def next (o : Outcome ε σ α) (k : α → σ → Outcome ε σ β) : Outcome ε σ β :=
  match o with
  | .returned a s => k a s
  | .threw e s => .threw e s
  | .blocked s => .blocked s

@[simp] theorem next_returned (a : α) (s : σ) (k : α → σ → Outcome ε σ β) :
    (returned a s : Outcome ε σ α).next k = k a s := rfl

@[simp] theorem next_threw (e : ε) (s : σ) (k : α → σ → Outcome ε σ β) :
    (threw e s : Outcome ε σ α).next k = .threw e s := rfl

@[simp] theorem next_blocked (s : σ) (k : α → σ → Outcome ε σ β) :
    (blocked s : Outcome ε σ α).next k = .blocked s := rfl

theorem next_next {γ : Type} (o : Outcome ε σ α) (k : α → σ → Outcome ε σ β)
    (l : β → σ → Outcome ε σ γ) : (o.next k).next l = o.next fun a s => (k a s).next l := by
  cases o <;> rfl

/-- The program came back with a value. -/
def isReturned : Outcome ε σ α → Bool
  | .returned .. => true
  | _ => false

theorem next_congr {o : Outcome ε σ α} {k l : α → σ → Outcome ε σ β}
    (h : ∀ a s, o = .returned a s → k a s = l a s) : o.next k = o.next l := by
  cases o with
  | returned a s => exact h a s rfl
  | threw e s => rfl
  | blocked s => rfl

end Outcome

/-- A program: what it does from each state, and that it only moves on. -/
structure Prog (ε σ : Type) [Preorder σ] (α : Type) where
  run : σ → Outcome ε σ α
  later : ∀ s, (run s).state ≤ s

namespace Prog

variable {ε σ α β γ : Type} [Preorder σ]

@[ext] theorem ext {p q : Prog ε σ α} (h : ∀ s, p.run s = q.run s) : p = q := by
  cases p
  cases q
  congr
  exact funext h

theorem later_of_returned {p : Prog ε σ α} {s s' : σ} {a : α}
    (h : p.run s = .returned a s') : s' ≤ s := by
  simpa [h] using p.later s

/-! ### The monad -/

def ret (a : α) : Prog ε σ α where
  run s := .returned a s
  later s := le_refl s

def andThen (p : Prog ε σ α) (f : α → Prog ε σ β) : Prog ε σ β where
  run s := (p.run s).next fun a s' => (f a).run s'
  later s := by
    have first := p.later s
    cases h : p.run s with
    | returned a s' =>
        rw [h] at first
        exact le_trans ((f a).later s') first
    | threw e s' =>
        rw [h] at first
        exact first
    | blocked s' =>
        rw [h] at first
        exact first

instance : Monad (Prog ε σ) where
  pure := ret
  bind := andThen

@[simp] theorem run_pure (a : α) (s : σ) :
    (pure a : Prog ε σ α).run s = .returned a s := rfl

@[simp] theorem run_bind (p : Prog ε σ α) (f : α → Prog ε σ β) (s : σ) :
    (p >>= f).run s = (p.run s).next fun a s' => (f a).run s' := rfl

@[simp] theorem run_map (p : Prog ε σ α) (f : α → β) (s : σ) :
    (f <$> p).run s = (p.run s).next fun a s' => .returned (f a) s' := rfl

/-- A sequence that returned: its first part did, and the rest from there. -/
theorem returned_bind_iff {p : Prog ε σ α} {f : α → Prog ε σ β} {s t : σ} {b : β} :
    (p >>= f).run s = .returned b t ↔
      ∃ a u, p.run s = .returned a u ∧ (f a).run u = .returned b t := by
  rw [run_bind]
  cases p.run s with
  | returned a u =>
      constructor
      · exact fun rest => ⟨a, u, rfl, rest⟩
      · rintro ⟨a', u', same, rest⟩
        cases same
        exact rest
  | threw e u => simp
  | blocked u => simp

/-! ### Primitive programs -/

/-- Throw an error. -/
def throw (e : ε) : Prog ε σ α where
  run s := .threw e s
  later s := le_refl s

/-- Never come back. -/
def block : Prog ε σ α where
  run s := .blocked s
  later s := le_refl s

/-- Read the state. -/
def get : Prog ε σ σ where
  run s := .returned s s
  later s := le_refl s

/-- Change the state, moving on. -/
def modify (f : σ → σ) (moves : ∀ s, f s ≤ s) : Prog ε σ Unit where
  run s := .returned () (f s)
  later s := moves s

@[simp] theorem run_throw (e : ε) (s : σ) : (throw e : Prog ε σ α).run s = .threw e s := rfl

@[simp] theorem run_block (s : σ) : (block : Prog ε σ α).run s = .blocked s := rfl

@[simp] theorem run_get (s : σ) : (get : Prog ε σ σ).run s = .returned s s := rfl

@[simp] theorem run_modify (f : σ → σ) (moves : ∀ s, f s ≤ s) (s : σ) :
    (modify f moves : Prog ε σ Unit).run s = .returned () (f s) := rfl

/-! ### While loops -/

/-- At most `n` rounds of a while loop. -/
def rounds (cond : σ → Bool) (body : Prog ε σ Unit) : Nat → Prog ε σ Unit
  | 0 => block
  | n + 1 => get >>= fun s => if cond s then body >>= fun _ => rounds cond body n else pure ()

theorem rounds_succ_run (cond : σ → Bool) (body : Prog ε σ Unit) (n : Nat) (s : σ) :
    (rounds cond body (n + 1)).run s =
      if cond s then (body.run s).next fun _ s' => (rounds cond body n).run s'
      else .returned () s := by
  simp only [rounds, run_bind, run_get, Outcome.next_returned]
  split <;> rfl

/-- While `cond` holds, run `body`. The measure bounds the number of rounds. -/
def whileDo (size : σ → Nat) (cond : σ → Bool) (body : Prog ε σ Unit) : Prog ε σ Unit where
  run s := (rounds cond body (size s + 1)).run s
  later s := (rounds cond body (size s + 1)).later s

section Loop

variable {size : σ → Nat} {cond : σ → Bool} {body : Prog ε σ Unit}

/-- Any two bounds above the measure give the same loop. -/
theorem rounds_enough
    (uses : ∀ s s', body.run s = .returned () s' → size s' < size s)
    {m n : Nat} {s : σ} (hm : size s < m) (hn : size s < n) :
    (rounds cond body m).run s = (rounds cond body n).run s := by
  induction m generalizing n s with
  | zero => omega
  | succ m ih =>
      obtain ⟨n, rfl⟩ : ∃ k, n = k + 1 := ⟨n - 1, by omega⟩
      rw [rounds_succ_run, rounds_succ_run]
      by_cases hc : cond s = true
      · simp only [hc, if_true]
        apply Outcome.next_congr
        intro _ s' hs'
        have := uses s s' hs'
        exact ih (by omega) (by omega)
      · simp [hc]

/-- **A loop whose body uses up the measure is a while loop.** -/
theorem whileDo_run (uses : ∀ s s', body.run s = .returned () s' → size s' < size s) (s : σ) :
    (whileDo size cond body).run s =
      if cond s then (body.run s).next fun _ s' => (whileDo size cond body).run s'
      else .returned () s := by
  rw [whileDo, rounds_succ_run]
  by_cases hc : cond s = true
  · simp only [hc, if_true]
    apply Outcome.next_congr
    intro _ s' hs'
    exact rounds_enough uses (uses s s' hs') (Nat.lt_succ_self _)
  · simp [hc]

end Loop

/-! ### Programs that call each other -/

section Fix

variable {ι : Type} {size : σ → Nat} {F : (ι → Prog ε σ α) → ι → Prog ε σ α}

/-- Two families of programs do the same from every state below a size. -/
def AgreeBelow (size : σ → Nat) (n : Nat) (p q : ι → Prog ε σ α) : Prop :=
  ∀ i s, size s < n → (p i).run s = (q i).run s

/-- The family that `F` defines in terms of itself, to a depth of `n` calls. -/
def depth (F : (ι → Prog ε σ α) → ι → Prog ε σ α) : Nat → ι → Prog ε σ α
  | 0 => fun _ => block
  | n + 1 => F (depth F n)

/-- The family that `F` defines in terms of itself. The measure bounds the depth. -/
def fix (size : σ → Nat) (F : (ι → Prog ε σ α) → ι → Prog ε σ α) : ι → Prog ε σ α := fun i =>
  { run := fun s => (depth F (size s + 1) i).run s
    later := fun s => (depth F (size s + 1) i).later s }

/-- Any two depths above the measure give the same family. -/
theorem depth_agree
    (contracts : ∀ n p q, AgreeBelow size n p q → AgreeBelow size (n + 1) (F p) (F q))
    {m n : Nat} (enough : m ≤ n) : AgreeBelow size m (depth F m) (depth F n) := by
  induction m generalizing n with
  | zero =>
      intro i s below
      exact absurd below (Nat.not_lt_zero _)
  | succ m ih =>
      obtain ⟨n, rfl⟩ : ∃ k, n = k + 1 := ⟨n - 1, by omega⟩
      exact contracts m _ _ (ih (by omega))

/-- **A family that calls itself only from smaller states satisfies its equation.** -/
theorem fix_eq
    (contracts : ∀ n p q, AgreeBelow size n p q → AgreeBelow size (n + 1) (F p) (F q)) :
    fix size F = F (fix size F) := by
  have agrees (n : Nat) : AgreeBelow size n (depth F n) (fix size F) := by
    intro i s below
    exact (depth_agree contracts below i s (Nat.lt_succ_self _)).symm
  funext i
  apply Prog.ext
  intro s
  exact contracts (size s) _ _ (agrees (size s)) i s (Nat.lt_succ_self _)

end Fix

/-! ### What all parts of a program keep -/

section Keeps

/-- A relation between two states, told whether what happened between them returned, that
holds where nothing happened and where one thing happened after the other. -/
structure Composes (R : Bool → σ → σ → Prop) : Prop where
  refl : ∀ returned s, R returned s s
  trans : ∀ {returned s t u}, R true s t → R returned t u → R returned s u

/-- From each of these states, the program leaves one in this relation to it. -/
def Keeps (R : Bool → σ → σ → Prop) (I : σ → Prop) (p : Prog ε σ α) : Prop :=
  ∀ s, I s → R (p.run s).isReturned s (p.run s).state

variable {R : Bool → σ → σ → Prop} {I : σ → Prop} (composes : Composes R)
  (closed : ∀ {s t}, I s → t ≤ s → I t)

include composes

theorem keeps_pure (a : α) : Keeps R I (pure a : Prog ε σ α) := fun s _ => composes.refl true s

theorem keeps_throw (e : ε) : Keeps R I (throw e : Prog ε σ α) := fun s _ => composes.refl false s

theorem keeps_get : Keeps R I (get : Prog ε σ σ) := fun s _ => composes.refl true s

include closed

theorem Keeps.bind {p : Prog ε σ α} {f : α → Prog ε σ β} (first : Keeps R I p)
    (rest : ∀ a, Keeps R I (f a)) : Keeps R I (p >>= f) := by
  intro s inside
  have before := first s inside
  have later := p.later s
  rw [run_bind]
  cases ran : p.run s with
  | returned a t =>
      rw [ran] at before later
      exact composes.trans before (rest a t (closed inside later))
  | threw e t =>
      rw [ran] at before
      exact before
  | blocked t =>
      rw [ran] at before
      exact before

/-- What every round of a loop keeps, the loop keeps. -/
theorem Keeps.whileDo {size : σ → Nat} {cond : σ → Bool} {body : Prog ε σ Unit}
    (each : Keeps R I body) : Keeps R I (whileDo size cond body) := by
  have bounded (n : Nat) : Keeps R I (rounds cond body n) := by
    induction n with
    | zero => exact fun s _ => composes.refl false s
    | succ n ih =>
        refine Keeps.bind composes closed (keeps_get composes) fun s => ?_
        by_cases goes : cond s = true
        · rw [if_pos goes]
          exact Keeps.bind composes closed each fun _ => ih
        · rw [if_neg goes]
          exact keeps_pure composes ()
  exact fun s inside => bounded (size s + 1) s inside

end Keeps

end Prog

end Nlcpp
