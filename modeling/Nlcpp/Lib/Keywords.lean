import Mathlib.Data.List.Induction
import Mathlib.Logic.Function.Basic

/-!
Lists of words in which a keyword takes the word after it.

`split` reads such a list from the left. A keyword that is the last word takes nothing and
stands alone. There is one way to read a list (`split_iff`), and a loop over the words that
treats a keyword with its value at once is a loop over what they were read as
(`loop_eq_foldlM`); it ends early at the first thing that fails (`foldlM_error_iff`).
-/

namespace Nlcpp.Keywords

universe u v w

/-- Keywords with their spelling. -/
structure Keys (κ α : Type u) where
  spell : κ → α
  find : α → Option κ
  find_iff : ∀ {word key}, find word = some key ↔ spell key = word

/-- The keywords of a list that has them all. -/
def Keys.ofList {κ α : Type u} [DecidableEq α] (spell : κ → α) (all : List κ)
    (complete : ∀ key, key ∈ all) (injective : Function.Injective spell) : Keys κ α where
  spell := spell
  find word := all.find? fun key => spell key = word
  find_iff := by
    intro word key
    constructor
    · intro found
      have spelled := List.find?_some found
      exact of_decide_eq_true spelled
    · rintro rfl
      cases found : all.find? fun other => spell other = spell key with
      | none => exact absurd (List.find?_eq_none.mp found key (complete key)) (by simp)
      | some other =>
          have spelled := List.find?_some found
          rw [injective (of_decide_eq_true spelled)]

/-- A keyword with its value, or a word that stands alone. -/
inductive Arg (κ α : Type u) where
  | pair (key : κ) (value : α)
  | single (word : α)
deriving DecidableEq, Repr

section Reading

variable {κ α : Type u} (K : Keys κ α)

def Arg.words : Arg κ α → List α
  | pair key value => [K.spell key, value]
  | single word => [word]

/-- Read a list of words from the left. -/
def split : List α → List (Arg κ α)
  | [] => []
  | [word] => [.single word]
  | word :: value :: rest =>
    match K.find word with
    | some key => .pair key value :: split rest
    | none => .single word :: split (value :: rest)

/-- A keyword without a value is the last word. -/
def Proper : List (Arg κ α) → Prop
  | [] => True
  | .pair _ _ :: rest => Proper rest
  | .single word :: rest => (K.find word = none ∨ rest = []) ∧ Proper rest

variable {K}

theorem Keys.find_spell (key : κ) : K.find (K.spell key) = some key := K.find_iff.mpr rfl

theorem Keys.find_eq_none {word : α} : K.find word = none ↔ ∀ key, K.spell key ≠ word := by
  constructor
  · rintro none key rfl
    rw [K.find_spell] at none
    cases none
  · intro other
    cases found : K.find word with
    | none => rfl
    | some key => exact absurd (K.find_iff.mp found) (other key)

theorem split_pair (key : κ) (value : α) (rest : List α) :
    split K (K.spell key :: value :: rest) = .pair key value :: split K rest := by
  rw [split, K.find_spell]

theorem split_single {word : α} {rest : List α} (alone : K.find word = none ∨ rest = []) :
    split K (word :: rest) = .single word :: split K rest := by
  cases rest with
  | nil => rfl
  | cons value rest => rw [split, alone.resolve_right (List.cons_ne_nil _ _)]

/-- Pairs are read one by one. -/
theorem split_append {args : List (Arg κ α)}
    (pairs : ∀ arg ∈ args, ∃ key value, arg = .pair key value) (rest : List α) :
    split K (args.flatMap (Arg.words K) ++ rest) = args ++ split K rest := by
  induction args with
  | nil => rfl
  | cons arg args ih =>
      obtain ⟨⟨key, value, rfl⟩, others⟩ := List.forall_mem_cons.mp pairs
      exact (split_pair key value _).trans (congrArg _ (ih others))

/-- A list of words is empty, begins with a keyword and its value, or with a word alone. -/
theorem words_cases {P : List α → Prop} (nil : P [])
    (pair : ∀ key value rest, P rest → P (K.spell key :: value :: rest))
    (single : ∀ word rest, K.find word = none ∨ rest = [] → P rest → P (word :: rest)) :
    ∀ words, P words
  | [] => nil
  | [word] => single word [] (.inr rfl) nil
  | word :: value :: rest =>
    match found : K.find word with
    | some key => by
        rw [← K.find_iff.mp found]
        exact pair key value rest (words_cases nil pair single rest)
    | none => single word _ (.inl found) (words_cases nil pair single (value :: rest))

theorem words_split (words : List α) : (split K words).flatMap (Arg.words K) = words := by
  induction words using words_cases (K := K) with
  | nil => rfl
  | pair key value rest ih =>
      rw [split_pair, List.flatMap_cons, ih]
      rfl
  | single word rest alone ih =>
      rw [split_single alone, List.flatMap_cons, ih]
      rfl

theorem proper_split (words : List α) : Proper K (split K words) := by
  induction words using words_cases (K := K) with
  | nil => trivial
  | pair key value rest ih =>
      rw [split_pair]
      exact ih
  | single word rest alone ih =>
      rw [split_single alone]
      refine ⟨alone.imp_right ?_, ih⟩
      rintro rfl
      rfl

theorem split_words {args : List (Arg κ α)} (proper : Proper K args) :
    split K (args.flatMap (Arg.words K)) = args := by
  induction args with
  | nil => rfl
  | cons arg args ih =>
      cases arg with
      | pair key value => exact (split_pair key value _).trans (congrArg _ (ih proper))
      | single word =>
          obtain ⟨alone, proper⟩ := proper
          have alone' : K.find word = none ∨ args.flatMap (Arg.words K) = [] := by
            refine alone.imp_right ?_
            rintro rfl
            rfl
          exact (split_single alone').trans (congrArg _ (ih proper))

/-- **There is one way to read a list of words.** -/
theorem split_iff {words : List α} {args : List (Arg κ α)} :
    split K words = args ↔ args.flatMap (Arg.words K) = words ∧ Proper K args := by
  constructor
  · rintro rfl
    exact ⟨words_split words, proper_split words⟩
  · rintro ⟨rfl, proper⟩
    exact split_words proper

/-- A word that stands alone is no keyword, or the last word. -/
theorem Proper.alone {before after : List (Arg κ α)} {word : α}
    (proper : Proper K (before ++ .single word :: after)) : K.find word = none ∨ after = [] := by
  induction before with
  | nil => exact proper.1
  | cons arg before ih =>
      cases arg with
      | pair key value => exact ih proper
      | single word' => exact ih proper.2

end Reading

/-! ### Loops -/

section Loop

variable {κ α : Type u} {K : Keys κ α} {σ : Type v} {ε : Type w} {f : σ → List α → Except ε σ}
  {effect : σ → Arg κ α → Except ε σ}

/-- **A loop over words is a loop over what they are read as.** -/
theorem loop_eq_foldlM (nil : ∀ s, f s [] = .ok s)
    (pair : ∀ s key value rest,
      f s (K.spell key :: value :: rest) = (effect s (.pair key value)).bind fun s' => f s' rest)
    (single : ∀ s word rest, K.find word = none ∨ rest = [] →
      f s (word :: rest) = (effect s (.single word)).bind fun s' => f s' rest)
    (s : σ) (words : List α) : f s words = (split K words).foldlM effect s := by
  induction words using words_cases (K := K) generalizing s with
  | nil => exact nil s
  | pair key value rest ih =>
      rw [pair, split_pair, List.foldlM_cons]
      exact congrArg _ (funext ih)
  | single word rest alone ih =>
      rw [single s word rest alone, split_single alone, List.foldlM_cons]
      exact congrArg _ (funext ih)

/-- **The first thing that fails ends the loop.** -/
theorem foldlM_error_iff {args : List (Arg κ α)} {s : σ} {e : ε} :
    args.foldlM effect s = .error e ↔ ∃ before arg after s', args = before ++ arg :: after ∧
      before.foldlM effect s = .ok s' ∧ effect s' arg = .error e := by
  induction args generalizing s with
  | nil =>
      constructor
      · intro failed
        cases failed
      · rintro ⟨before, arg, after, s', whole, -⟩
        exact absurd whole.symm (List.append_ne_nil_of_right_ne_nil _ (List.cons_ne_nil _ _))
  | cons first args ih =>
      rw [List.foldlM_cons]
      cases result : effect s first with
      | error e' =>
          constructor
          · intro failed
            cases failed
            exact ⟨[], first, args, s, rfl, rfl, result⟩
          · rintro ⟨before, arg, after, s', whole, fine, failed⟩
            cases before with
            | nil =>
                cases whole
                cases fine
                rw [result] at failed
                cases failed
                rfl
            | cons first' before =>
                cases whole
                rw [List.foldlM_cons, result] at fine
                cases fine
      | ok s₁ =>
          change args.foldlM effect s₁ = .error e ↔ _
          rw [ih]
          constructor
          · rintro ⟨before, arg, after, s', rfl, fine, failed⟩
            refine ⟨first :: before, arg, after, s', rfl, ?_, failed⟩
            rw [List.foldlM_cons, result]
            exact fine
          · rintro ⟨before, arg, after, s', whole, fine, failed⟩
            cases before with
            | nil =>
                cases whole
                cases fine
                rw [result] at failed
                cases failed
            | cons first' before =>
                cases whole
                rw [List.foldlM_cons, result] at fine
                exact ⟨before, arg, after, s', rfl, fine, failed⟩

/-- What loops that go through are made of. -/
theorem foldlM_ok_iff {ι : Type u} {arg : ι → Arg κ α} {apply : σ → ι → σ}
    (performs : ∀ s a s', effect s a = .ok s' ↔ ∃ i, arg i = a ∧ apply s i = s')
    {args : List (Arg κ α)} {s s' : σ} :
    args.foldlM effect s = .ok s' ↔
      ∃ items : List ι, items.map arg = args ∧ items.foldl apply s = s' := by
  induction args generalizing s with
  | nil =>
      constructor
      · intro fine
        cases fine
        exact ⟨[], rfl, rfl⟩
      · rintro ⟨items, none, rfl⟩
        rw [List.map_eq_nil_iff.mp none]
        rfl
  | cons a args ih =>
      rw [List.foldlM_cons]
      constructor
      · intro fine
        cases result : effect s a with
        | error e =>
            rw [result] at fine
            cases fine
        | ok s₁ =>
            rw [result] at fine
            obtain ⟨i, rfl, rfl⟩ := (performs s a s₁).mp result
            obtain ⟨items, rfl, rfl⟩ := ih.mp fine
            exact ⟨i :: items, rfl, rfl⟩
      · rintro ⟨items, whole, rfl⟩
        cases items with
        | nil => cases whole
        | cons i items =>
            cases whole
            rw [(performs s (arg i) _).mpr ⟨i, rfl, rfl⟩]
            exact ih.mpr ⟨items, rfl, rfl⟩

/-- **The last one stays**, where each thing sets a field or leaves it as it is. -/
theorem foldl_last {ι : Type u} {β : Type w} {apply : σ → ι → σ} {get : σ → Option β}
    {set : ι → Option β} (sets : ∀ s i, get (apply s i) = (set i).or (get s)) (items : List ι)
    (s : σ) : get (items.foldl apply s) = (items.filterMap set).getLast?.or (get s) := by
  induction items using List.reverseRecOn with
  | nil => simp
  | append_singleton items i ih =>
      rw [List.foldl_append, List.foldl_cons, List.foldl_nil, sets, ih, List.filterMap_append]
      cases value : set i <;> simp [value]

end Loop

end Nlcpp.Keywords
