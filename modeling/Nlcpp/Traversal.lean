import Nlcpp.Iterator
import Mathlib.Data.List.TakeWhile

/-!
Traversals of a cache: from `begin()` to `end()`, with `++it` or `it++` at each step.

`traverse_filtered` and `traverse_whole` say what a traversal visits and that all
references are given back; `traverse_clean_iff` says when libnl gets a NULL object.
-/

namespace Nlcpp

/-- How the iterator is incremented, and whether the iterator that `it++` returns is
kept to the end of the traversal. -/
inductive Increment where
  | pre
  | post (keep : Bool)
deriving DecidableEq, Repr

/-- One step of a traversal: the object that the iterator was at, the filter it has
after the increment, and the object and filter of what `it++` returned. -/
structure Visit where
  object : Option RawObject
  filter : Option RawObject
  returned : Option (Option RawObject × Option RawObject)
deriving DecidableEq, Repr

namespace Walk

variable {H : Type} (L : ObjectCache H) (T : CachedClass)

def destroyAll (w : Walk H) (its : List Iterator) : Walk H := its.foldl (destroy L) w

/-- `while (it != last)`, with an increment in every round. -/
def visitAll (fuel : ℕ) : ℕ → (ℕ → Increment) → Iterator → Iterator → List Iterator → Walk H →
    Outcome Thrown (Walk H) (List Visit)
  | 0, _, _, _, _, w => .blocked w
  | rounds + 1, choices, it, last, kept, w =>
    if w.equal it last then .returned [] (w.destroyAll L (it :: last :: kept))
    else
      let object := w.store.pointer it.obj
      let later := fun i => choices (i + 1)
      match choices 0 with
      | .pre =>
        (preIncrement L T fuel it w).next fun _ w =>
          let visit : Visit := ⟨object, w.store.pointer it.filter, none⟩
          (visitAll fuel rounds later it last kept w).next fun visits w =>
            .returned (visit :: visits) w
      | .post keep =>
        (postIncrement L T fuel it w).next fun tmp w =>
          let visit : Visit := ⟨object, w.store.pointer it.filter,
            some (w.store.pointer tmp.obj, w.store.pointer tmp.filter)⟩
          (if keep then visitAll fuel rounds later it last (tmp :: kept) w
            else visitAll fuel rounds later it last kept (w.destroy L tmp)).next fun visits w =>
              .returned (visit :: visits) w

end Walk

/-- From `begin()` to `end()`. -/
def CacheRange.traverse {H : Type} (L : ObjectCache H) (T : CachedClass) (fuel : ℕ)
    (choices : ℕ → Increment) (range : CacheRange) (w : Walk H) :
    Outcome Thrown (Walk H) (List Visit) :=
  (range.begin L T fuel w).next fun it w =>
    match range.end_ L T w with
    | .returned last w => w.visitAll L T fuel fuel choices it last []
    | .threw e w => .threw e (w.destroy L it)
    | .blocked w => .blocked w

/-- The visits that these objects and increments should give. -/
def visits (choices : ℕ → Increment) (f : RawObject) : List RawObject → List Visit
  | [] => []
  | o :: objects =>
    let returned := match choices 0 with
      | .pre => none
      | .post _ => some (some o, some f)
    ⟨some o, some f, returned⟩ :: visits (fun i => choices (i + 1)) f objects

theorem objects_visits (choices : ℕ → Increment) (f : RawObject) (objects : List RawObject) :
    (visits choices f objects).filterMap Visit.object = objects := by
  induction objects generalizing choices with
  | nil => rfl
  | cons o objects ih => simp [visits, ih]

/-! ### The wrappers of a traversal -/

/-- The wrappers that these iterators are made of. -/
def Iterator.fields (its : List Iterator) : List ℕ := its.flatMap fun it => [it.obj, it.filter]

@[simp] theorem Iterator.fields_cons (it : Iterator) (its : List Iterator) :
    fields (it :: its) = it.obj :: it.filter :: fields its := rfl

open Iterator (fields)

namespace Store

variable {H : Type} {T : CachedClass} {base s t : Store H} {its : List Iterator} {it : Iterator}
  {i : ℕ}

/-- Besides the wrappers of before, just these iterators are live. -/
structure Ours (T : CachedClass) (base s : Store H) (its : List Iterator) : Prop where
  old : ∀ i < base.wrappers.length, s.wrapper i = base.wrapper i
  live : ∀ i, base.wrappers.length ≤ i → s.wrapper i ≠ none → i ∈ fields its
  each : ∀ i ∈ fields its, base.wrappers.length ≤ i ∧ ∃ p, s.wrapper i = some ⟨T.cls, p⟩
  nodup : (fields its).Nodup
  longer : base.wrappers.length ≤ s.wrappers.length

theorem ours_self (T : CachedClass) (s : Store H) : Ours T s s [] where
  old := fun _ _ => rfl
  live := by
    intro i beyond live
    exact absurd (wrapper_of_le beyond) live
  each := by
    intro i mem
    cases mem
  nodup := List.nodup_nil
  longer := Nat.le_refl _

/-- Without iterators, the wrappers are those of before. -/
theorem Ours.wrapper (ours : Ours T base s []) : s.wrapper = base.wrapper := by
  funext i
  rcases Nat.lt_or_ge i base.wrappers.length with inside | beyond
  · exact ours.old i inside
  · rw [wrapper_of_le beyond]
    by_contra live
    cases ours.live i beyond live

theorem Ours.perm {its' : List Iterator} (ours : Ours T base s its) (perm : its.Perm its') :
    Ours T base s its' := by
  have fields_perm : (fields its).Perm (fields its') := perm.flatMap_right _
  exact ⟨ours.old, fun i beyond live => fields_perm.mem_iff.mp (ours.live i beyond live),
    fun i mem => ours.each i (fields_perm.mem_iff.mpr mem), fields_perm.nodup_iff.mp ours.nodup,
    ours.longer⟩

theorem Ours.insert_third {a b : Iterator} (ours : Ours T base s (it :: a :: b :: its)) :
    Ours T base s (a :: b :: it :: its) :=
  ours.perm ((List.Perm.swap ..).trans ((List.Perm.swap ..).cons a))

theorem Ours.take_third {a b : Iterator} (ours : Ours T base s (a :: b :: it :: its)) :
    Ours T base s (it :: a :: b :: its) :=
  ours.perm (((List.Perm.swap ..).cons a).trans (List.Perm.swap ..))

/-- A field is written. -/
theorem Ours.write (ours : Ours T base s its) (mem : i ∈ fields its) {p : Option RawObject}
    (wrapper : t.wrapper = Function.update s.wrapper i (some ⟨T.cls, p⟩))
    (longer : s.wrappers.length ≤ t.wrappers.length) : Ours T base t its := by
  have beyond := (ours.each i mem).1
  refine ⟨?_, ?_, ?_, ours.nodup, Nat.le_trans ours.longer longer⟩
  · intro k inside
    rw [wrapper, Function.update_of_ne (by omega)]
    exact ours.old k inside
  · intro k outside live
    rw [wrapper] at live
    by_cases same : k = i
    · exact same ▸ mem
    · rw [Function.update_of_ne same] at live
      exact ours.live k outside live
  · intro k here
    refine ⟨(ours.each k here).1, ?_⟩
    rw [wrapper]
    by_cases same : k = i
    · subst same
      exact ⟨p, Function.update_self ..⟩
    · rw [Function.update_of_ne same]
      exact (ours.each k here).2

/-- An iterator comes to be. -/
theorem Ours.construct (ours : Ours T base s its) {p q : Option RawObject}
    (wrapper : t.wrapper = Function.update (Function.update s.wrapper s.wrappers.length
      (some ⟨T.cls, p⟩)) (s.wrappers.length + 1) (some ⟨T.cls, q⟩))
    (longer : s.wrappers.length ≤ t.wrappers.length) :
    Ours T base t (⟨s.wrappers.length, s.wrappers.length + 1⟩ :: its) := by
  have known : ∀ k ∈ fields its, k < s.wrappers.length := by
    intro k mem
    obtain ⟨-, p, here⟩ := ours.each k mem
    exact lt_of_wrapper here
  have apart : ∀ k < s.wrappers.length, t.wrapper k = s.wrapper k := by
    intro k inside
    rw [wrapper, Function.update_of_ne (by omega), Function.update_of_ne (by omega)]
  refine ⟨?_, ?_, ?_, ?_, Nat.le_trans ours.longer longer⟩
  · intro k inside
    rw [apart k (Nat.lt_of_lt_of_le inside ours.longer)]
    exact ours.old k inside
  · intro k outside live
    rw [Iterator.fields_cons, List.mem_cons, List.mem_cons]
    by_cases first : k = s.wrappers.length
    · exact .inl first
    · by_cases second : k = s.wrappers.length + 1
      · exact .inr (.inl second)
      · rw [wrapper, Function.update_of_ne second, Function.update_of_ne first] at live
        exact .inr (.inr (ours.live k outside live))
  · intro k mem
    rw [Iterator.fields_cons, List.mem_cons, List.mem_cons] at mem
    rcases mem with rfl | rfl | mem
    · refine ⟨ours.longer, p, ?_⟩
      rw [wrapper]
      exact (Function.update_of_ne (Nat.ne_of_lt (Nat.lt_succ_self _)) ..).trans
        (Function.update_self ..)
    · refine ⟨Nat.le_succ_of_le ours.longer, q, ?_⟩
      rw [wrapper, Function.update_self]
    · rw [apart k (known k mem)]
      exact ours.each k mem
  · rw [Iterator.fields_cons, List.nodup_cons, List.nodup_cons, List.mem_cons]
    refine ⟨?_, ?_, ours.nodup⟩
    · rintro (same | mem)
      · exact absurd same (Nat.ne_of_lt (Nat.lt_succ_self _))
      · exact absurd (known _ mem) (Nat.lt_irrefl _)
    · intro mem
      exact absurd (known _ mem) (Nat.not_lt.mpr (Nat.le_succ _))

/-- An iterator is destroyed. -/
theorem Ours.destroy (ours : Ours T base s (it :: its))
    (wrapper : t.wrapper = Function.update (Function.update s.wrapper it.filter none) it.obj none)
    (longer : s.wrappers.length ≤ t.wrappers.length) : Ours T base t its := by
  have nodup := ours.nodup
  rw [Iterator.fields_cons, List.nodup_cons, List.nodup_cons, List.mem_cons] at nodup
  obtain ⟨objApart, filterApart, nodup⟩ := nodup
  have objBeyond := (ours.each it.obj (by simp)).1
  have filterBeyond := (ours.each it.filter (by simp)).1
  refine ⟨?_, ?_, ?_, nodup, Nat.le_trans ours.longer longer⟩
  · intro k inside
    rw [wrapper, Function.update_of_ne (by omega), Function.update_of_ne (by omega)]
    exact ours.old k inside
  · intro k outside live
    rw [wrapper, Function.update_apply, Function.update_apply] at live
    split at live
    · exact absurd rfl live
    · next notObj =>
        split at live
        · exact absurd rfl live
        · next notFilter =>
            have mem := ours.live k outside live
            rw [Iterator.fields_cons, List.mem_cons, List.mem_cons] at mem
            exact (mem.resolve_left notObj).resolve_left notFilter
  · intro k mem
    have notObj : k ≠ it.obj := fun same => objApart (.inr (same ▸ mem))
    have notFilter : k ≠ it.filter := fun same => filterApart (same ▸ mem)
    rw [wrapper, Function.update_of_ne notObj, Function.update_of_ne notFilter]
    exact ours.each k (by simp [mem])

end Store

/-! ### What a traversal visits -/

namespace Walk

variable {H : Type} {L : ObjectCache H} {T : CachedClass} {w : Walk H} {it last : Iterator}
  {cache f : RawObject} {objects : List RawObject} {m : RawObject → Bool} {fuel : ℕ}
  {base : Store H}

/-- All iterators are destroyed, and their wrappers are gone. -/
theorem moves_destroyAll (sound : w.store.Sound L.toRefCounting) {its : List Iterator}
    (ours : Store.Ours T base w.store its) :
    w.store.Moves L (w.destroyAll L its).store base.wrapper 0 ∧
      (w.destroyAll L its).calls = w.calls := by
  induction its generalizing w with
  | nil =>
      exact ⟨⟨⟨sound, ours.wrapper, rfl, rfl, Store.same_refl L _⟩, fun _ now => now⟩, rfl⟩
  | cons it its ih =>
      obtain ⟨p, obj⟩ := (ours.each it.obj (by simp)).2
      obtain ⟨q, filter⟩ := (ours.each it.filter (by simp)).2
      have distinct : it.obj ≠ it.filter := by
        have nodup := ours.nodup
        rw [Iterator.fields_cons, List.nodup_cons, List.mem_cons, not_or] at nodup
        exact nodup.1.1
      have destroyed := moves_destroy sound ⟨obj, filter, distinct⟩
      have ours' := ours.destroy destroyed.wrapper (Nat.le_of_eq destroyed.length.symm)
      obtain ⟨moves, calls⟩ := ih destroyed.sound ours'
      exact ⟨destroyed.trans moves, calls⟩

/-- What comes before the first match does not match. -/
theorem filter_dropWhile_not (m : RawObject → Bool) (after : List RawObject) :
    (after.dropWhile fun o => !m o).filter m = after.filter m := by
  induction after with
  | nil => rfl
  | cons o after ih =>
      cases verdict : m o with
      | true => rw [List.dropWhile_cons_of_neg (by simp [verdict])]
      | false =>
          rw [List.dropWhile_cons_of_pos (by simp [verdict]),
            List.filter_cons_of_neg (by simp [verdict]), ih]

/-- Iterators after `it++`: `tmp` has come to be, at the object left behind. -/
theorem ours_post {w₁ : Walk H} {its : List Iterator} {obj next : Option RawObject} {more : ℕ}
    (ours : Store.Ours T base w.store its) (mem : it.obj ∈ fields its)
    (here : w.store.wrapper it.obj = some ⟨T.cls, obj⟩) {p q : Option RawObject}
    (moves : w.store.Moves L w₁.store (Function.update (Function.update
      (Function.update w.store.wrapper it.obj (some ⟨T.cls, next⟩))
      w.store.wrappers.length (some ⟨T.cls, p⟩))
      (w.store.wrappers.length + 1) (some ⟨T.cls, q⟩)) more) :
    Store.Ours T base w₁.store
      (⟨w.store.wrappers.length, w.store.wrappers.length + 1⟩ :: its) := by
  have written : (w.store.setPointer it.obj next).wrapper =
      Function.update w.store.wrapper it.obj (some ⟨T.cls, next⟩) := by
    rw [Store.wrapper_setPointer, here]
    rfl
  have length := Store.length_setPointer (s := w.store) it.obj next
  have constructed := (ours.write mem written (Nat.le_of_eq length.symm)).construct
    (t := w₁.store) (p := p) (q := q) (by rw [moves.wrapper, written, length])
    (by rw [length, moves.length]; exact Nat.le_add_right ..)
  rwa [length] at constructed

/-- A traversal in progress: the iterator is at the first of these objects, which matches,
or at the end. -/
structure Position (L : ObjectCache H) (T : CachedClass) (base : Store H) (cache f : RawObject)
    (objects : List RawObject) (m : RawObject → Bool) (it last : Iterator) (w : Walk H)
    (kept : List Iterator) (rest : List RawObject) : Prop where
  split : ∃ before, objects = before ++ rest
  head : ∀ o ∈ rest.head?, m o = true
  here : w.At T it rest.head? (some f)
  ended : ∃ q, w.At T last none q
  ours : Store.Ours T base w.store (it :: last :: kept)
  listed : w.store.Listed L T cache objects
  filters : w.store.Filters L T objects f m
  clean : w.Clean

section Position

variable {kept kept' : List Iterator} {rest after : List RawObject} {o : RawObject} {w₁ : Walk H}
  {wrappers : ℕ → Option Wrapper} {more : ℕ}

theorem Position.apart (position : Position L T base cache f objects m it last w kept rest) :
    last.obj ≠ it.obj ∧ last.filter ≠ it.obj := by
  have nodup := position.ours.nodup
  simp only [Iterator.fields_cons, List.nodup_cons, List.mem_cons, not_or] at nodup
  exact ⟨Ne.symm nodup.1.2.1, Ne.symm nodup.1.2.2.1⟩

/-- The traversal goes on with the rest from the next match. -/
theorem Position.goesOn
    (position : Position L T base cache f objects m it last w kept (o :: after))
    (moves : w.store.Moves L w₁.store wrappers more) (clean : w₁.Clean)
    (ours : Store.Ours T base w₁.store (it :: last :: kept'))
    (obj : w₁.store.wrapper it.obj = some ⟨T.cls, after.find? m⟩)
    (filter : w₁.store.wrapper it.filter = some ⟨T.cls, some f⟩)
    (ended : ∃ q, w₁.At T last none q) :
    Position L T base cache f objects m it last w₁ kept' (after.dropWhile fun o => !m o) where
  split := by
    obtain ⟨before, split⟩ := position.split
    refine ⟨before ++ o :: after.takeWhile fun o => !m o, ?_⟩
    rw [split, List.append_assoc, List.cons_append, List.takeWhile_append_dropWhile]
  head := by
    intro p first
    rw [Option.mem_def, ← List.find?_eq_head?_dropWhile_not] at first
    exact List.find?_some first
  here := by
    rw [← List.find?_eq_head?_dropWhile_not]
    exact ⟨obj, filter, position.here.distinct⟩
  ended := ended
  ours := ours
  listed := position.listed.leaves moves.toLeaves
  filters := position.filters.leaves position.listed moves.toLeaves
    (moves.sound.there_of_wrapper filter rfl)
  clean := clean

/-- `++it`. -/
theorem Position.pre (position : Position L T base cache f objects m it last w kept (o :: after))
    (enough : objects.length < fuel) :
    ∃ w₁ wrappers more, preIncrement L T fuel it w = .returned () w₁ ∧
      w.store.Moves L w₁.store wrappers more ∧
      Position L T base cache f objects m it last w₁ kept (after.dropWhile fun o => !m o) := by
  obtain ⟨before, split⟩ := position.split
  obtain ⟨q, ended⟩ := position.ended
  have after_lt : after.length < fuel := by
    simp only [split, List.length_append, List.length_cons] at enough
    omega
  obtain ⟨w₁, stepped, clean, moves⟩ := preIncrement_listed position.listed position.filters
    position.clean split after_lt position.here
  have stays {i : ℕ} (other : i ≠ it.obj) : w₁.store.wrapper i = w.store.wrapper i := by
    rw [moves.wrapper, Function.update_of_ne other]
  refine ⟨w₁, _, 1, stepped, moves, position.goesOn moves clean ?_ ?_ ?_ ⟨q, ?_, ?_, ended.distinct⟩⟩
  · exact position.ours.write (by simp) moves.wrapper (moves.length ▸ Nat.le_add_right ..)
  · rw [moves.wrapper, Function.update_self]
  · exact (stays position.here.distinct.symm).trans position.here.filter
  · exact (stays position.apart.1).trans ended.obj
  · exact (stays position.apart.2).trans ended.filter

/-- `it++`: what it returns is kept. -/
theorem Position.post (position : Position L T base cache f objects m it last w kept (o :: after))
    (enough : objects.length < fuel) :
    ∃ tmp w₁ wrappers more, postIncrement L T fuel it w = .returned tmp w₁ ∧
      w.store.Moves L w₁.store wrappers more ∧ w₁.At T tmp (some o) (some f) ∧
      Position L T base cache f objects m it last w₁ (tmp :: kept)
        (after.dropWhile fun o => !m o) := by
  obtain ⟨before, split⟩ := position.split
  obtain ⟨q, ended⟩ := position.ended
  have after_lt : after.length < fuel := by
    simp only [split, List.length_append, List.length_cons] at enough
    omega
  obtain ⟨w₁, stepped, clean, moves⟩ := postIncrement_listed position.listed position.filters
    position.clean split after_lt position.here
  have next := Nat.lt_succ_self w.store.wrappers.length
  have stays {i : ℕ} {v : Wrapper} (here : w.store.wrapper i = some v) (other : i ≠ it.obj) :
      w₁.store.wrapper i = some v := by
    have inside := Store.lt_of_wrapper here
    rw [moves.wrapper, Function.update_of_ne (by omega), Function.update_of_ne (by omega),
      Function.update_of_ne other, here]
  refine ⟨_, w₁, _, 4, stepped, moves, ⟨?_, ?_, Nat.ne_of_lt next⟩, position.goesOn moves clean
    ?_ ?_ ?_ ⟨q, stays ended.obj position.apart.1, stays ended.filter position.apart.2,
      ended.distinct⟩⟩
  · rw [moves.wrapper, Function.update_of_ne (Nat.ne_of_lt next), Function.update_self]
  · rw [moves.wrapper, Function.update_self]
  · have ours := ours_post position.ours (by simp) position.here.obj moves
    exact ours.insert_third
  · have inside := Store.lt_of_wrapper position.here.obj
    rw [moves.wrapper, Function.update_of_ne (by omega), Function.update_of_ne (by omega),
      Function.update_self]
  · exact stays position.here.filter position.here.distinct.symm

/-- What `it++` returned is destroyed. -/
theorem Position.drop {tmp : Iterator} {obj filter : Option RawObject}
    (position : Position L T base cache f objects m it last w (tmp :: kept) rest)
    (at_ : w.At T tmp obj filter) :
    ∃ wrappers more, w.store.Moves L (w.destroy L tmp).store wrappers more ∧
      Position L T base cache f objects m it last (w.destroy L tmp) kept rest := by
  have moves := moves_destroy position.listed.sound at_
  have ours : Store.Ours T base w.store (tmp :: it :: last :: kept) :=
    position.ours.take_third
  obtain ⟨q, ended⟩ := position.ended
  have stays {i : ℕ} (mem : i ∈ fields (it :: last :: kept)) :
      (w.destroy L tmp).store.wrapper i = w.store.wrapper i := by
    have apart := ours.nodup
    rw [Iterator.fields_cons, List.nodup_cons, List.nodup_cons, List.mem_cons, not_or] at apart
    have notObj : i ≠ tmp.obj := fun same => apart.1.2 (same ▸ mem)
    have notFilter : i ≠ tmp.filter := fun same => apart.2.1 (same ▸ mem)
    rw [moves.wrapper, Function.update_of_ne notObj, Function.update_of_ne notFilter]
  have filter : (w.destroy L tmp).store.wrapper it.filter = some ⟨T.cls, some f⟩ :=
    (stays (by simp)).trans position.here.filter
  exact ⟨_, 0, moves, {
    split := position.split
    head := position.head
    here := ⟨(stays (by simp)).trans position.here.obj, filter, position.here.distinct⟩
    ended := ⟨q, (stays (by simp)).trans ended.obj, (stays (by simp)).trans ended.filter,
      ended.distinct⟩
    ours := ours.destroy moves.wrapper (Nat.le_of_eq moves.length.symm)
    listed := position.listed.leaves moves.toLeaves
    filters := position.filters.leaves position.listed moves.toLeaves
      (moves.sound.there_of_wrapper filter rfl)
    clean := position.clean }⟩

end Position

/-- **A traversal visits the matches that are left**, in order, and gives all references
back. -/
theorem visitAll_listed {rounds : ℕ} (choices : ℕ → Increment) {kept : List Iterator}
    {rest : List RawObject}
    (position : Position L T base cache f objects m it last w kept rest)
    (enough : objects.length < fuel) (rounds_ : rest.length < rounds) :
    ∃ w' more, visitAll L T fuel rounds choices it last kept w =
        .returned (visits choices f (rest.filter m)) w' ∧ w'.Clean ∧
      w.store.Moves L w'.store base.wrapper more := by
  induction rounds generalizing w rest choices kept with
  | zero => exact absurd rounds_ (Nat.not_lt_zero _)
  | succ rounds ih =>
      obtain ⟨q, ended⟩ := position.ended
      cases rest with
      | nil =>
          have equal : w.equal it last :=
            (Store.pointer_of_wrapper position.here.obj).trans
              (Store.pointer_of_wrapper ended.obj).symm
          obtain ⟨moves, calls⟩ := moves_destroyAll position.listed.sound position.ours
          refine ⟨w.destroyAll L (it :: last :: kept), 0, ?_, ?_, moves⟩
          · simp only [visitAll, if_pos equal]
            rfl
          · rw [Clean, calls]
            exact position.clean
      | cons o after =>
          have unequal : ¬w.equal it last := by
            rw [equal, Store.pointer_of_wrapper position.here.obj,
              Store.pointer_of_wrapper ended.obj]
            exact Option.some_ne_none o
          have shorter : (after.dropWhile fun o => !m o).length < rounds :=
            Nat.lt_of_le_of_lt (List.length_dropWhile_le ..) (Nat.lt_of_succ_lt_succ rounds_)
          rw [List.filter_cons_of_pos (position.head o rfl), ← filter_dropWhile_not]
          cases choice : choices 0 with
          | pre =>
              obtain ⟨w₁, _, _, stepped, moves, position₁⟩ := position.pre enough
              obtain ⟨w', more, visited, clean, moves'⟩ :=
                ih (fun i => choices (i + 1)) position₁ shorter
              refine ⟨w', _, ?_, clean, moves.trans moves'⟩
              simp only [visitAll, if_neg unequal, choice, stepped, Outcome.next_returned, visited,
                visits, Store.pointer_of_wrapper position.here.obj,
                Store.pointer_of_wrapper position₁.here.filter, List.head?_cons]
          | post keep =>
              obtain ⟨tmp, w₁, _, _, stepped, moves, tmpAt, position₁⟩ := position.post enough
              cases keep with
              | true =>
                  obtain ⟨w', more, visited, clean, moves'⟩ :=
                    ih (fun i => choices (i + 1)) position₁ shorter
                  refine ⟨w', _, ?_, clean, moves.trans moves'⟩
                  simp only [visitAll, if_neg unequal, choice, stepped, Outcome.next_returned,
                    visited, visits, Store.pointer_of_wrapper position.here.obj,
                    Store.pointer_of_wrapper position₁.here.filter,
                    Store.pointer_of_wrapper tmpAt.obj, Store.pointer_of_wrapper tmpAt.filter,
                    List.head?_cons, if_true]
              | false =>
                  obtain ⟨_, _, dropped, position₂⟩ := position₁.drop tmpAt
                  obtain ⟨w', more, visited, clean, moves'⟩ :=
                    ih (fun i => choices (i + 1)) position₂ shorter
                  refine ⟨w', _, ?_, clean, (moves.trans dropped).trans moves'⟩
                  simp only [visitAll, if_neg unequal, choice, stepped, Outcome.next_returned,
                    visited, visits, Store.pointer_of_wrapper position.here.obj,
                    Store.pointer_of_wrapper position₁.here.filter,
                    Store.pointer_of_wrapper tmpAt.obj, Store.pointer_of_wrapper tmpAt.filter,
                    List.head?_cons, Bool.false_eq_true, if_false]

end Walk

/-! ### From begin to end -/

namespace CacheRange

variable {H : Type} {L : ObjectCache H} {T : CachedClass} {s : Store H} {cache f : RawObject}
  {objects : List RawObject} {m : RawObject → Bool} {fuel : ℕ}

/-- What a traversal leaves. -/
structure Restored (L : ObjectCache H) (T : CachedClass) (s : Store H) (cache : RawObject)
    (objects : List RawObject) (t : Store H) : Prop where
  listed : t.Listed L T cache objects
  wrapper : t.wrapper = s.wrapper
  count : ∀ o, L.count t.heap o = L.count s.heap o
  keeps : s.Keeps L T objects t

/-- The traversal returns these visits and leaves all as it was, or an allocation fails. -/
def Visits (L : ObjectCache H) (T : CachedClass) (s : Store H) (cache : RawObject)
    (objects : List RawObject) (expected : List Visit → Prop) :
    Outcome Thrown (Walk H) (List Visit) → Prop
  | .returned visits w => expected visits ∧ w.Clean ∧ Restored L T s cache objects w.store
  | .threw _ w => Walk.OutOfMemory L T ∧ w.Clean ∧ Restored L T s cache objects w.store
  | .blocked _ => False

theorem Visits.imp {P Q : List Visit → Prop} {o : Outcome Thrown (Walk H) (List Visit)}
    (visits : Visits L T s cache objects P o) (implied : ∀ v, P v → Q v) :
    Visits L T s cache objects Q o := by
  cases o with
  | returned v w => exact ⟨implied v visits.1, visits.2⟩
  | threw e w => exact visits
  | blocked w => exact visits

/-- With the wrappers and the references outside of before, so are the counts. -/
theorem restored {t : Store H} (sound : s.Sound L.toRefCounting)
    (listed : t.Listed L T cache objects) (wrapper : t.wrapper = s.wrapper)
    (outside : t.outside = s.outside) (keeps : s.Keeps L T objects t) :
    Restored L T s cache objects t := by
  refine ⟨listed, wrapper, ?_, keeps⟩
  intro o
  rw [listed.sound.balanced o, sound.balanced o, outside]
  congr 1
  apply Refcount.count_of_same
  intro i
  have here := congrArg Wrapper.held (congrFun wrapper i)
  rwa [← Store.pointer_eq, ← Store.pointer_eq] at here

/-- What `begin()` leaves: its iterator is at the first match, `rest` are the objects from
there. -/
structure Begun (L : ObjectCache H) (T : CachedClass) (s : Store H) (cache f : RawObject)
    (objects rest : List RawObject) (m : RawObject → Bool) (w : Walk H) : Prop where
  split : ∃ before, objects = before ++ rest
  head : ∀ o ∈ rest.head?, m o = true
  wrapper : w.store.wrapper = Function.update (Function.update s.wrapper
    s.wrappers.length (some ⟨T.cls, rest.head?⟩)) (s.wrappers.length + 1) (some ⟨T.cls, some f⟩)
  length : s.wrappers.length ≤ w.store.wrappers.length
  outside : w.store.outside = s.outside
  listed : w.store.Listed L T cache objects
  filters : w.store.Filters L T objects f m
  keeps : s.Keeps L T objects w.store
  clean : w.Clean

theorem Begun.at_ {rest : List RawObject} {w : Walk H}
    (begun : Begun L T s cache f objects rest m w) :
    w.At T ⟨s.wrappers.length, s.wrappers.length + 1⟩ rest.head? (some f) := by
  have next := Nat.lt_succ_self s.wrappers.length
  refine ⟨?_, ?_, Nat.ne_of_lt next⟩
  · rw [begun.wrapper, Function.update_of_ne (Nat.ne_of_lt next), Function.update_self]
  · rw [begun.wrapper, Function.update_self]

theorem Begun.position {rest : List RawObject} {w w' : Walk H} {r : RawObject}
    (begun : Begun L T s cache f objects rest m w)
    (ended : w.Constructed L T w' none cache objects r) :
    w'.Position L T s cache f objects m ⟨s.wrappers.length, s.wrappers.length + 1⟩
      ⟨w.store.wrappers.length, w.store.wrappers.length + 1⟩ [] rest := by
  have at_ := begun.at_
  have stays {i : ℕ} {v : Wrapper} (here : w.store.wrapper i = some v) :
      w'.store.wrapper i = some v := by
    have inside := Store.lt_of_wrapper here
    rw [ended.wrapper, Function.update_of_ne (by omega), Function.update_of_ne (by omega), here]
  have next := Nat.lt_succ_self w.store.wrappers.length
  have both := ((Store.ours_self T s).construct begun.wrapper begun.length).construct ended.wrapper
    (ended.length ▸ Nat.le_add_right ..)
  exact {
    split := begun.split
    head := begun.head
    here := ⟨stays at_.obj, stays at_.filter, at_.distinct⟩
    ended := by
      refine ⟨some r, ?_, ?_, Nat.ne_of_lt next⟩
      · rw [ended.wrapper, Function.update_of_ne (Nat.ne_of_lt next), Function.update_self]
      · rw [ended.wrapper, Function.update_self]
    ours := both.perm (List.Perm.swap ..)
    listed := ended.listed
    filters := ended.keeps _ _ f m at_.filter begun.filters
    clean := by
      rw [Walk.Clean, ended.calls]
      exact begun.clean }

/-- Once `begin()` has returned, the traversal visits the matches from there. -/
theorem visits_of_begun (range : CacheRange) {rest : List RawObject} {w : Walk H}
    (listed : s.Listed L T cache objects)
    (begins : range.begin L T fuel ⟨s, []⟩ =
      .returned ⟨s.wrappers.length, s.wrappers.length + 1⟩ w)
    (begun : Begun L T s cache f objects rest m w) (enough : objects.length < fuel)
    (choices : ℕ → Increment) :
    Visits L T s cache objects (· = visits choices f (rest.filter m))
      (range.traverse L T fuel choices ⟨s, []⟩) := by
  have known {i : ℕ} {v : Wrapper} (here : s.wrapper i = some v) :
      w.store.wrapper i = some v := by
    have inside := Store.lt_of_wrapper here
    rw [begun.wrapper, Function.update_of_ne (by omega), Function.update_of_ne (by omega), here]
  simp only [traverse, begins, Outcome.next_returned, end_]
  have nowhere : ∀ o, none = some o → w.store.Points L.toRefCounting T.cls o :=
    fun o here => by cases here
  rcases Walk.iterator_listed begun.listed nowhere with
    ⟨r, w', made, constructed⟩ | ⟨w', threw, failed, unwound⟩
  · have position := begun.position constructed
    have shorter : rest.length < fuel := by
      obtain ⟨before, split⟩ := begun.split
      rw [split, List.length_append] at enough
      omega
    obtain ⟨w'', more, visited, clean, moves⟩ :=
      Walk.visitAll_listed choices position enough shorter
    simp only [made, visited]
    refine ⟨rfl, clean, restored listed.sound (constructed.listed.leaves moves.toLeaves)
      moves.wrapper (moves.outside.trans (constructed.outside.trans begun.outside)) ?_⟩
    intro i c r m here filters
    exact (constructed.keeps i c r m (known here) (begun.keeps i c r m here filters)).held
      constructed.listed moves.toLeaves ((congrFun moves.wrapper i).trans here)
  · have at_ : w'.At T ⟨s.wrappers.length, s.wrappers.length + 1⟩ rest.head? (some f) :=
      ⟨(congrFun unwound.wrapper _).trans begun.at_.obj,
        (congrFun unwound.wrapper _).trans begun.at_.filter, begun.at_.distinct⟩
    have moves := Walk.moves_destroy unwound.listed.sound at_
    have wrapper : (w'.destroy L ⟨s.wrappers.length, s.wrappers.length + 1⟩).store.wrapper =
        s.wrapper := by
      have next := Nat.ne_of_lt (Nat.lt_succ_self s.wrappers.length)
      rw [moves.wrapper, unwound.wrapper, begun.wrapper, Function.update_idem,
        Function.update_comm next, Function.update_idem, Function.update_comm next.symm,
        Store.update_wrapper_length, Function.update_eq_self_iff]
      exact (Store.wrapper_of_le (Nat.le_succ _)).symm
    simp only [threw]
    refine ⟨failed, ?_, restored listed.sound (unwound.listed.leaves moves.toLeaves) wrapper
      (moves.outside.trans (unwound.outside.trans begun.outside)) ?_⟩
    · intro call mem
      rw [show (w'.destroy L _).calls = w.calls from unwound.calls] at mem
      exact begun.clean call mem
    · intro i c r m here filters
      exact (unwound.keeps i c r m (known here) (begun.keeps i c r m here filters)).held
        unwound.listed moves.toLeaves ((congrFun wrapper i).trans here)

/-- **Filtered iteration is filtering the list.** -/
theorem traverse_filtered (listed : s.Listed L T cache objects)
    (filters : s.Filters L T objects f m) {i : ℕ} (holds : s.wrapper i = some ⟨T.cls, some f⟩)
    (nonempty : objects ≠ []) (enough : objects.length < fuel) (choices : ℕ → Increment) :
    Visits L T s cache objects (· = visits choices f (objects.filter m))
      ((filtered cache i).traverse L T fuel choices ⟨s, []⟩) := by
  obtain ⟨o, after, split⟩ := List.exists_cons_of_ne_nil nonempty
  have clean : Walk.Clean (⟨s, []⟩ : Walk H) := by
    intro call mem
    cases mem
  have shorter : after.length < fuel := by
    rw [split, List.length_cons] at enough
    omega
  obtain ⟨w, more, begins, cleanThen, moves⟩ :=
    Walk.filteredIterator_listed (w := ⟨s, []⟩) listed filters clean split shorter holds
  dsimp only at begins moves
  have next := Nat.lt_succ_self s.wrappers.length
  have filter := congrFun moves.wrapper (s.wrappers.length + 1)
  rw [Function.update_self] at filter
  have begun : Begun L T s cache f objects (objects.dropWhile fun o => !m o) m w := {
    split := ⟨objects.takeWhile fun o => !m o, (List.takeWhile_append_dropWhile ..).symm⟩
    head := by
      intro p first
      rw [Option.mem_def, ← List.find?_eq_head?_dropWhile_not] at first
      exact List.find?_some first
    wrapper := by
      rw [← List.find?_eq_head?_dropWhile_not]
      exact moves.wrapper
    length := moves.length ▸ Nat.le_add_right ..
    outside := moves.outside
    listed := listed.leaves moves.toLeaves
    filters := filters.held listed moves.toLeaves filter
    keeps := by
      intro j c r m' here filters'
      have inside := Store.lt_of_wrapper here
      refine filters'.held (i := j) (c := c) listed moves.toLeaves ?_
      rw [moves.wrapper, Function.update_of_ne (by omega), Function.update_of_ne (by omega)]
      exact here
    clean := cleanThen }
  have whole := visits_of_begun (filtered cache i) listed ?_ begun enough choices
  · rwa [Walk.filter_dropWhile_not] at whole
  · rw [← begins, begin, listed.first, split, List.head?_cons, Store.pointer_of_wrapper holds]

/-- **Unfiltered iteration visits the whole list.** -/
theorem traverse_whole (listed : s.Listed L T cache objects) (enough : objects.length < fuel)
    (choices : ℕ → Increment) :
    Visits L T s cache objects (fun v => ∃ f, v = visits choices f objects)
      ((whole cache).traverse L T fuel choices ⟨s, []⟩) := by
  have clean : Walk.Clean (⟨s, []⟩ : Walk H) := by
    intro call mem
    cases mem
  have points : ∀ o, objects.head? = some o → s.Points L.toRefCounting T.cls o :=
    fun o here => listed.points (List.mem_of_head? here)
  rcases Walk.iterator_listed (w := ⟨s, []⟩) listed points with
    ⟨f, w, begins, made⟩ | ⟨w, threw, failed, unwound⟩
  · have begun : Begun L T s cache f objects objects (fun _ => true) w := {
      split := ⟨[], rfl⟩
      head := fun _ _ => rfl
      wrapper := made.wrapper
      length := made.length ▸ Nat.le_add_right ..
      outside := made.outside
      listed := made.listed
      filters := made.matchesAll
      keeps := made.keeps
      clean := by
        rw [Walk.Clean, made.calls]
        exact clean }
    have visited := visits_of_begun (whole cache) listed ?_ begun enough choices
    · rw [List.filter_eq_self.mpr fun _ _ => rfl] at visited
      exact visited.imp fun v same => ⟨f, same⟩
    · rw [← begins, begin, listed.first]
  · simp only [traverse, begin, listed.first, threw, Outcome.next_threw]
    refine ⟨failed, ?_, restored listed.sound unwound.listed unwound.wrapper unwound.outside
      unwound.keeps⟩
    rw [Walk.Clean, unwound.calls]
    exact clean

/-- **Iteration equals filtering**, for filtered and unfiltered ranges, whatever the
increments. A second traversal of the same range gives the same, and all references
are given back each time. -/
theorem iteration_filters (listed : s.Listed L T cache objects) {i : ℕ}
    (holds : s.wrapper i = some ⟨T.cls, some f⟩) (typed : f.cls = T.cls) (nonempty : objects ≠ [])
    (enough : objects.length < fuel) (choices choices' : ℕ → Increment) :
    let expected := objects.filter fun o => L.nlObjectMatchFilter (some o) (some f) s.heap
    expected.Nodup ∧ objects.Nodup ∧
    Visits L T s cache objects (· = visits choices f expected)
      ((filtered cache i).traverse L T fuel choices ⟨s, []⟩) ∧
    (∀ v w, (filtered cache i).traverse L T fuel choices ⟨s, []⟩ = .returned v w →
      Visits L T w.store cache objects (· = visits choices' f expected)
        ((filtered cache i).traverse L T fuel choices' ⟨w.store, []⟩)) ∧
    Visits L T s cache objects (fun v => ∃ f, v = visits choices f objects)
      ((whole cache).traverse L T fuel choices ⟨s, []⟩) := by
  have nodup := listed.nodup
  have filters : s.Filters L T objects f
      fun o => L.nlObjectMatchFilter (some o) (some f) s.heap :=
    ⟨⟨typed, listed.sound.there_of_wrapper holds rfl⟩, fun _ _ => rfl⟩
  have first := traverse_filtered listed filters holds nonempty enough choices
  refine ⟨nodup.filter _, nodup, first, ?_, traverse_whole listed enough choices⟩
  intro v w returned
  rw [returned] at first
  obtain ⟨-, -, restored⟩ := first
  exact traverse_filtered restored.listed (restored.keeps i T.cls f _ holds filters)
    ((congrFun restored.wrapper i).trans holds) nonempty enough choices'

/-- A link with this address. -/
def link (address : Fin 8) : RawObject := ⟨.routeLink, address⟩

theorem link_injective : Function.Injective link := by
  intro a b same
  exact Fin.ext (congrArg RawObject.address same)

/-- The references that a manager holds of its cache of these links. -/
def managerHolds (links : List (Fin 8)) (o : RawObject) : ℕ :=
  if o ∈ ⟨.cache, 0⟩ :: links.map link then 1 else 0

/-- A cache that lists these links, and the wrapper of a filter for links of kind 1: those
with an odd address are. -/
def linkStore (links : List (Fin 8)) : Store CacheHeap where
  heap := {
    count := fun o => managerHolds links o + [some (link 7)].count (some o)
    next := 8
    beyond := by
      intro o far
      have unknown : o ∉ ⟨.cache, 0⟩ :: links.map link := by
        intro mem
        rcases List.mem_cons.mp mem with rfl | mem
        · exact absurd far (by decide)
        · obtain ⟨a, -, rfl⟩ := List.mem_map.mp mem
          exact absurd far (Nat.not_le.mpr a.isLt)
      have other : some (link 7) ≠ some o := by
        rintro ⟨⟩
        exact absurd far (by decide)
      rw [managerHolds, if_neg unknown, List.count_cons_of_ne other, List.count_nil]
    head := fun _ => (links.map link).head?
    after := fun o => ((links.map link).dropWhile fun p => p ≠ o).tail.head?
    kind := fun o => some (o.address % 2) }
  wrappers := [some ⟨.routeLink, some (link 7)⟩]
  outside := managerHolds links
  fault := false

theorem dropWhile_ne {l before after : List RawObject} {o : RawObject} (nodup : l.Nodup)
    (split : l = before ++ o :: after) : (l.dropWhile fun p => p ≠ o) = o :: after := by
  subst split
  have apart : ∀ p ∈ before, p ≠ o := by
    intro p mem same
    exact (List.nodup_append.mp nodup).2.2 p mem o (List.mem_cons_self ..) same
  rw [List.dropWhile_append_of_pos (by simpa using apart), List.dropWhile_cons_of_neg (by simp)]

theorem linkStore_listed {links : List (Fin 8)} (nodup : links.Nodup) :
    (linkStore links).Listed .reference .routeLink ⟨.cache, 0⟩ (links.map link) where
  sound := ⟨fun _ => rfl, rfl⟩
  cache_held := by simp [linkStore, managerHolds]
  held := by
    intro o mem
    obtain ⟨a, known, rfl⟩ := List.mem_map.mp mem
    refine ⟨rfl, ?_⟩
    simp only [linkStore, managerHolds, if_pos (List.mem_cons_of_mem _ mem), Nat.lt_one_iff]
  first := rfl
  next := by
    intro before o after split
    have distinct : (links.map link).Nodup :=
      List.Pairwise.map link (fun _ _ other same => other (link_injective same)) nodup
    exact congrArg (fun l => l.tail.head?) (dropWhile_ne distinct split)

/-- Four links, the second and the last of the kind wanted; `it++` is used once. -/
theorem iteration_filters_links :
    Visits .reference .routeLink (linkStore [2, 3, 4, 5]) ⟨.cache, 0⟩ ([2, 3, 4, 5].map link)
      (· = [⟨some (link 3), some (link 7), none⟩,
        ⟨some (link 5), some (link 7), some (some (link 5), some (link 7))⟩])
      ((filtered ⟨.cache, 0⟩ 0).traverse .reference .routeLink 5
        (fun i => if i = 0 then .pre else .post true) ⟨linkStore [2, 3, 4, 5], []⟩) := by
  have listed := linkStore_listed (show [2, 3, 4, 5].Nodup by decide)
  have enough : ([2, 3, 4, 5].map link).length < 5 := by decide
  have visited := (iteration_filters listed (i := 0) (f := link 7) rfl rfl (by decide) enough
    (fun i => if i = 0 then .pre else .post true) fun _ => .pre).2.2.1
  refine visited.imp ?_
  intro v same
  rw [same]
  rfl

end CacheRange

/-! ### NULL objects -/

namespace Walk

variable {H : Type} {L : ObjectCache H} {T : CachedClass} {w : Walk H} {α β : Type}

/-- The calls made before are not forgotten. -/
def Recalls (w : Walk H) (o : Outcome Thrown (Walk H) α) : Prop := w.calls ⊆ o.state.calls

theorem Recalls.next {o : Outcome Thrown (Walk H) α} (first : w.Recalls o)
    {k : α → Walk H → Outcome Thrown (Walk H) β}
    (rest : ∀ (a : α) (w : Walk H), w.Recalls (k a w)) :
    w.Recalls (o.next k) := by
  cases o with
  | returned a w' => exact fun call mem => rest a w' (first mem)
  | threw e w' => exact first
  | blocked w' => exact first

theorem recalls_returned (a : α) (w : Walk H) : w.Recalls (.returned a w) := fun _ mem => mem

theorem Recalls.called {o : Outcome Thrown (Walk H) α} {call : CacheCall}
    (recalls : (w.called call).Recalls o) : w.Recalls o :=
  fun _ mem => recalls (List.mem_append_left _ mem)

theorem recalls_advance (filter : Option RawObject) (fuel : ℕ) (obj : Option RawObject)
    (w : Walk H) : w.Recalls (advance L filter fuel obj w) := by
  induction fuel generalizing obj w with
  | zero => exact fun _ mem => mem
  | succ fuel ih =>
      unfold advance
      refine Recalls.called (?_ : (w.called (.getNext obj)).Recalls _)
      dsimp only
      split
      · exact fun _ mem => mem
      · apply Recalls.called
        split
        · exact fun _ mem => mem
        · exact ih _ _

theorem recalls_preIncrement (fuel : ℕ) (it : Iterator) (w : Walk H) :
    w.Recalls (preIncrement L T fuel it w) :=
  (recalls_advance ..).next fun _ _ _ mem => mem

theorem recalls_postIncrement (fuel : ℕ) (it : Iterator) (w : Walk H) :
    w.Recalls (postIncrement L T fuel it w) :=
  (recalls_advance ..).next fun _ _ _ mem => mem

/-- The constructor matches its object against its filter, whatever they are. -/
theorem called_filteredIterator (fuel : ℕ) (obj filter : Option RawObject) (w : Walk H) :
    .matchFilter obj filter ∈ (filteredIterator L T fuel obj filter w).state.calls := by
  unfold filteredIterator
  dsimp only
  split
  · exact List.mem_append_right _ (List.mem_singleton_self _)
  · exact ((recalls_preIncrement ..).next fun _ w => recalls_returned _ w)
      (List.mem_append_right _ (List.mem_singleton_self _))

theorem recalls_iterator (obj : Option RawObject) (w : Walk H) :
    w.Recalls (iterator L T obj w) := by
  unfold iterator
  dsimp only
  split <;> exact fun _ mem => mem

theorem calls_destroyAll (its : List Iterator) (w : Walk H) :
    (w.destroyAll L its).calls = w.calls := by
  induction its generalizing w with
  | nil => rfl
  | cons it its ih => exact ih (w.destroy L it)

theorem recalls_visitAll (fuel rounds : ℕ) (choices : ℕ → Increment) (it last : Iterator)
    (kept : List Iterator) (w : Walk H) :
    w.Recalls (visitAll L T fuel rounds choices it last kept w) := by
  induction rounds generalizing choices kept w with
  | zero => exact fun _ mem => mem
  | succ rounds ih =>
      unfold visitAll
      split
      · intro call mem
        rw [Outcome.state_returned, calls_destroyAll]
        exact mem
      · dsimp only
        split
        · refine (recalls_preIncrement ..).next fun _ w => ?_
          exact (ih ..).next fun _ _ => recalls_returned ..
        · refine (recalls_postIncrement ..).next fun tmp w => ?_
          split
          · exact (ih ..).next fun _ _ => recalls_returned ..
          · refine Recalls.next ?_ fun _ _ => recalls_returned ..
            exact ih _ _ (w.destroy L tmp)

end Walk

namespace CacheRange

variable {H : Type} {L : ObjectCache H} {T : CachedClass} {s : Store H} {cache : RawObject}
  {objects : List RawObject} {fuel : ℕ}

/-- The calls that `begin()` makes are part of those of the traversal. -/
theorem recalls_traverse (range : CacheRange) (choices : ℕ → Increment) (w : Walk H) {call : CacheCall}
    (mem : call ∈ (range.begin L T fuel w).state.calls) :
    call ∈ (range.traverse L T fuel choices w).state.calls := by
  unfold traverse
  cases begins : range.begin L T fuel w with
  | returned it w' =>
      rw [begins] at mem
      have ended := Walk.recalls_iterator (L := L) (T := T) none w' mem
      simp only [Outcome.next_returned, end_]
      split
      · next last w'' made =>
          rw [made] at ended
          exact Walk.recalls_visitAll fuel fuel choices it last [] w'' ended
      · next threw =>
          rw [threw] at ended
          exact ended
      · next blocked =>
          rw [blocked] at ended
          exact ended
  | threw e w' =>
      rw [begins] at mem
      exact mem
  | blocked w' =>
      rw [begins] at mem
      exact mem

/-- **When libnl is handed a NULL object**: a filtered range does so when its cache is empty,
or its filter is; an unfiltered range never does. -/
theorem traverse_clean_iff (listed : s.Listed L T cache objects) {i : ℕ}
    (filter : Option RawObject) (holds : s.wrapper i = some ⟨T.cls, filter⟩)
    (typed : ∀ f, filter = some f → f.cls = T.cls) (enough : objects.length < fuel)
    (choices : ℕ → Increment) :
    (((filtered cache i).traverse L T fuel choices ⟨s, []⟩).state.Clean ↔
      objects ≠ [] ∧ filter ≠ none) ∧
    ((whole cache).traverse L T fuel choices ⟨s, []⟩).state.Clean ∧
    (objects = [] → Visits L T s cache [] (· = [])
      ((whole cache).traverse L T fuel choices ⟨s, []⟩)) := by
  have clean_of {P : List Visit → Prop} {o : Outcome Thrown (Walk H) (List Visit)}
      (visits : Visits L T s cache objects P o) : o.state.Clean := by
    cases o with
    | returned v w => exact visits.2.1
    | threw e w => exact visits.2.1
    | blocked w => exact visits.elim
  have visited := traverse_whole listed enough choices
  refine ⟨⟨?_, ?_⟩, clean_of visited, ?_⟩
  · -- `begin()` matches the first object of the list against the filter, whatever they are.
    intro clean
    have matched : CacheCall.matchFilter objects.head? filter ∈
        ((filtered cache i).begin L T fuel ⟨s, []⟩).state.calls := by
      simp only [begin, listed.first, Store.pointer_of_wrapper holds]
      exact Walk.called_filteredIterator ..
    have nonNull := clean _ (recalls_traverse (filtered cache i) choices ⟨s, []⟩ matched)
    exact ⟨fun none => nonNull.1 (none ▸ rfl), nonNull.2⟩
  · rintro ⟨nonempty, full⟩
    obtain ⟨f, rfl⟩ := Option.ne_none_iff_exists'.mp full
    have filters : s.Filters L T objects f
        fun o => L.nlObjectMatchFilter (some o) (some f) s.heap :=
      ⟨⟨typed f rfl, listed.sound.there_of_wrapper holds rfl⟩, fun _ _ => rfl⟩
    exact clean_of (traverse_filtered listed filters holds nonempty enough choices)
  · rintro rfl
    exact visited.imp fun v ⟨f, same⟩ => same

/-- An empty cache: `begin()` hands NULL to `nl_object_match_filter`. -/
theorem null_matched :
    .matchFilter none (some (link 7)) ∈ ((filtered ⟨.cache, 0⟩ 0).traverse .reference .routeLink 5
      (fun _ => .pre) ⟨linkStore [], []⟩).state.calls ∧
    ¬((filtered ⟨.cache, 0⟩ 0).traverse .reference .routeLink 5
      (fun _ => .pre) ⟨linkStore [], []⟩).state.Clean := by
  have matched : .matchFilter none (some (link 7)) ∈ ((filtered ⟨.cache, 0⟩ 0).traverse .reference
      .routeLink 5 (fun _ => .pre) ⟨linkStore [], []⟩).state.calls :=
    recalls_traverse _ _ _ (Walk.called_filteredIterator (L := .reference) (T := .routeLink) 5 none
      (some (link 7)) ⟨linkStore [], []⟩)
  exact ⟨matched, fun clean => (clean _ matched).1 rfl⟩

/-- One link in the cache. -/
theorem one_link_clean :
    ((filtered ⟨.cache, 0⟩ 0).traverse .reference .routeLink 5 (fun _ => .pre)
      ⟨linkStore [2], []⟩).state.Clean :=
  (traverse_clean_iff (linkStore_listed (show [2].Nodup by decide)) (i := 0)
    (some (link 7)) rfl (fun f same => by cases same; rfl) (by decide)
    fun _ => .pre).1.mpr (by decide)

end CacheRange

end Nlcpp
