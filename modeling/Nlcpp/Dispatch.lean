import Nlcpp.Watch
import Mathlib.Algebra.Group.Int.Defs

/-!
What a watched cache delivers.

A cache object may be moved from one place to the next; its vector stays where it is,
so the pointer that libnl was given at registration still denotes the vector that
`watch` appends to. `registered` collects what a run appends, `delivered_exactly` says
that every event is handed to just these callbacks, in the order of registration.
-/

namespace Nlcpp

/-- The loop after its next callback was called. -/
def Loop.advance (l : Loop) : Loop := { l with range := { l.range with next := l.range.next + 1 } }

namespace WatchState

variable {κ : Type}

/-! ### What is registered, what is delivered -/

/-- The callbacks that an operation registers with the cache that has this vector,
through whatever object owns it at the moment. -/
def registers (s : WatchState κ) (p : ℕ) : WatchOp κ → List κ
  | .watch this callback => if s.caches[this]? = some (.holds p) then [callback] else []
  | _ => []

/-- The callbacks that a run registers with the cache that has this vector, in order. -/
def registered (growth : ℕ → ℕ) (p : ℕ) : WatchState κ → List (WatchOp κ) → List κ
  | _, [] => []
  | s, op :: ops => s.registers p op ++ registered growth p (s.step growth op) ops

/-- The calls of callbacks that an event caused. -/
def delivered (s : WatchState κ) (e : ℕ) : List (Notice κ) := s.notices.filter (·.event = e)

/-- The change callback that hands on this event has not returned. -/
def InProgress (s : WatchState κ) (e : ℕ) : Prop := ∃ l ∈ s.loops, l.event = e

instance (s : WatchState κ) (e : ℕ) : Decidable (s.InProgress e) :=
  inferInstanceAs (Decidable (∃ l ∈ s.loops, l.event = e))

/-- The cache that has this vector stays alive, and none of its callbacks watches it. -/
def Kept (p : ℕ) (s : WatchState κ) (op : WatchOp κ) : Prop :=
  ¬s.Frees p op ∧ ∀ callback, s.Appends p callback op → ¬s.Running p

instance (s : WatchState κ) (this p : ℕ) : Decidable (s.Owns this p) :=
  inferInstanceAs (Decidable (s.caches[this]? = some (.holds p)))

instance (s : WatchState κ) (p : ℕ) : Decidable (s.Running p) :=
  inferInstanceAs (Decidable (∃ l ∈ s.loops, l.callbacks = p))

instance (s : WatchState κ) (this : ℕ) : Decidable (s.Exists this) :=
  inferInstanceAs (Decidable (∃ h ∈ s.caches[this]?, h ≠ .destroyed))

instance (p : ℕ) (s : WatchState κ) : (op : WatchOp κ) → Decidable (s.Kept p op)
  | .watch this callback =>
    decidable_of_iff (s.Owns this p → ¬s.Running p)
      ⟨fun idle => ⟨id, fun _ appends => idle appends.1⟩, fun kept owns => kept.2 callback ⟨owns, rfl⟩⟩
  | .moveAssign this other =>
    decidable_of_iff (¬(this ≠ other ∧ s.Exists other ∧ s.Owns this p))
      ⟨fun keeps => ⟨keeps, fun _ => False.elim⟩, And.left⟩
  | .destroy this =>
    decidable_of_iff (¬s.Owns this p) ⟨fun keeps => ⟨keeps, fun _ => False.elim⟩, And.left⟩
  | .addressCache _ => isTrue ⟨id, fun _ => False.elim⟩
  | .moveConstruct _ => isTrue ⟨id, fun _ => False.elim⟩
  | .event .. => isTrue ⟨id, fun _ => False.elim⟩
  | .resume => isTrue ⟨id, fun _ => False.elim⟩

/-- The change callbacks of other caches read what is there. -/
def ReadsElsewhere (p : ℕ) (s : WatchState κ) : WatchOp κ → Prop
  | .event registration .. =>
    ∀ q ∈ s.registrations[registration]?, q ≠ p → (s.vector q).isSome
  | .resume => ∀ l ∈ s.loops.head?, l.callbacks ≠ p → s.Intact l
  | _ => True

instance (p : ℕ) (s : WatchState κ) : (op : WatchOp κ) → Decidable (s.ReadsElsewhere p op)
  | .event registration .. =>
    inferInstanceAs (Decidable (∀ q ∈ s.registrations[registration]?, q ≠ p →
      (s.vector q).isSome))
  | .resume => inferInstanceAs (Decidable (∀ l ∈ s.loops.head?, l.callbacks ≠ p → s.Intact l))
  | .addressCache _ => instDecidableTrue
  | .moveConstruct _ => instDecidableTrue
  | .moveAssign _ _ => instDecidableTrue
  | .watch _ _ => instDecidableTrue
  | .destroy _ => instDecidableTrue

/-! ### The vector holds what was registered -/

section Records

variable {s : WatchState κ} {p : ℕ} {growth : ℕ → ℕ}

/-- These callbacks are what the vector holds. A pointer that libnl was given denotes a
living vector. -/
structure Records (s : WatchState κ) (p : ℕ) (callbacks : List κ) : Prop where
  owned : s.Owned
  content : ∀ v, s.vector p = some v → v.elems = callbacks
  unmade : s.vectors.length ≤ p → callbacks = []
  alive : p ∈ s.registrations → (s.vector p).isSome

theorem vector_of_le (beyond : s.vectors.length ≤ p) : s.vector p = none := by
  rw [vector, List.getElem?_eq_none beyond]
  rfl

variable (growth) in
/-- Only `addressCache` makes a vector, and gives libnl a pointer. -/
theorem made_step (op : WatchOp κ) :
    ((s.step growth op).vectors.length = s.vectors.length ∧
      (s.step growth op).registrations = s.registrations) ∨
    ∃ err, op = .addressCache err := by
  have free_registrations (h : CacheHandle) : (s.free h).registrations = s.registrations := by
    cases h <;> rfl
  have loopHead_registrations (t : WatchState κ) (v : Growable κ) (l : Loop) :
      (t.loopHead v l).registrations = t.registrations := by
    unfold loopHead
    split
    · split <;> rfl
    · rfl
  cases op with
  | addressCache err => exact .inr ⟨err, rfl⟩
  | moveConstruct other =>
      refine .inl ⟨congrArg List.length (moveConstruct_vectors other), ?_⟩
      simp only [step, moveConstruct]
      split <;> rfl
  | moveAssign this other =>
      left
      simp only [step, moveAssign]
      split
      · split
        · exact ⟨rfl, rfl⟩
        · exact ⟨free_length _, free_registrations _⟩
      · exact ⟨rfl, rfl⟩
  | watch this callback =>
      left
      simp only [step, watch]
      split
      · split
        · exact ⟨List.length_set, rfl⟩
        · exact ⟨rfl, rfl⟩
      · exact ⟨rfl, rfl⟩
  | destroy this =>
      left
      simp only [step, destroy]
      split
      · exact ⟨free_length _, free_registrations _⟩
      · exact ⟨rfl, rfl⟩
  | event r addr action =>
      refine .inl ⟨congrArg List.length (event_vectors r addr action), ?_⟩
      simp only [step, event]
      split
      · unfold changeCallback
        split
        · exact loopHead_registrations ..
        · rfl
      · rfl
  | resume =>
      refine .inl ⟨congrArg List.length resume_vectors, ?_⟩
      simp only [step, resume]
      split
      · rfl
      · split
        · split
          · exact loopHead_registrations ..
          · rfl
        · rfl

theorem registers_of_appends {callback : κ} {op : WatchOp κ} (appends : s.Appends p callback op) :
    s.registers p op = [callback] := by
  cases op with
  | watch this new =>
      obtain ⟨owns, rfl⟩ := appends
      exact if_pos owns
  | addressCache err => cases appends
  | moveConstruct other => cases appends
  | moveAssign this other => cases appends
  | destroy this => cases appends
  | event r addr action => cases appends
  | resume => cases appends

/-- Only `watch`, on the object that owns the vector, registers anything. -/
theorem registers_cases (op : WatchOp κ) : s.registers p op = [] ∨
    ∃ this callback, op = .watch this callback ∧ s.Owns this p := by
  cases op with
  | watch this callback =>
      by_cases owns : s.Owns this p
      · exact .inr ⟨this, callback, rfl, owns⟩
      · exact .inl (if_neg owns)
  | addressCache err => exact .inl rfl
  | moveConstruct other => exact .inl rfl
  | moveAssign this other => exact .inl rfl
  | destroy this => exact .inl rfl
  | event r addr action => exact .inl rfl
  | resume => exact .inl rfl

/-- A vector that a step leaves as it is has nothing registered. -/
theorem registers_of_same {op : WatchOp κ} {v : Growable κ} (alive : s.vector p = some v)
    (same : (s.step growth op).vector p = some v) : s.registers p op = [] := by
  rcases registers_cases (s := s) (p := p) op with none | ⟨this, callback, rfl, owns⟩
  · exact none
  · have place : s.caches[this]? = some (.holds p) := owns
    have grown : (s.step growth (.watch this callback)).vector p =
        some (v.push growth callback) := by
      simp only [WatchState.step, watch, place, alive]
      exact vector_set_self alive
    have longer := congrArg List.length
      (congrArg Growable.elems (Option.some.inj (same.symm.trans grown)))
    simp at longer

/-- What a step does to a vector that is kept. -/
theorem Records.step_made {callbacks : List κ} (records : s.Records p callbacks) {op : WatchOp κ}
    (kept : s.Kept p op) (made : p < s.vectors.length) :
    (s.step growth op).Records p (callbacks ++ s.registers p op) where
  owned := owned_step growth op records.owned
  content := by
    intro v alive
    rcases vector_step growth op made with same | ⟨-, frees⟩ | ⟨w, callback, was, now, appends⟩
    · have before : s.vector p = some v := same.symm.trans alive
      rw [registers_of_same before alive, List.append_nil]
      exact records.content v before
    · exact absurd frees kept.1
    · rw [now] at alive
      cases alive
      rw [registers_of_appends appends, Growable.push_elems, records.content w was]
  unmade := by
    intro beyond
    exact absurd (Nat.lt_of_lt_of_le made (length_step growth op)) (Nat.not_lt.mpr beyond)
  alive := by
    intro registered
    have before : p ∈ s.registrations := by
      rcases made_step (s := s) growth op with ⟨-, same⟩ | ⟨err, rfl⟩
      · exact same ▸ registered
      · simp only [WatchState.step, addressCache] at registered
        split at registered
        · rcases List.mem_append.mp registered with old | new
          · exact old
          · exact absurd (List.mem_singleton.mp new) (Nat.ne_of_lt made)
        · exact registered
    rcases vector_step growth op made with same | ⟨-, frees⟩ | ⟨w, callback, -, now, -⟩
    · rw [same]
      exact records.alive before
    · exact absurd frees kept.1
    · rw [now]
      rfl

/-- The vector that `addressCache` makes is empty. -/
theorem addressCache_made (err : ℤ) (beyond : s.vectors.length ≤ p) {v : Growable κ}
    (alive : (s.addressCache err).vector p = some v) : v.elems = [] := by
  unfold addressCache at alive
  split at alive
  · rw [vector, vector_append] at alive
    split at alive
    · cases alive
      rfl
    · rw [vector_of_le beyond] at alive
      cases alive
  · rw [vector, vector_append, vector_of_le beyond, ite_self] at alive
    cases alive

theorem addressCache_alive (err : ℤ) (registered : p ∈ (s.addressCache err).registrations) :
    p ∈ s.registrations ∨ ((s.addressCache err).vector p).isSome := by
  unfold addressCache at registered ⊢
  split at registered
  · rcases List.mem_append.mp registered with old | new
    · exact .inl old
    · right
      rw [vector, vector_append, if_pos (List.mem_singleton.mp new)]
      rfl
  · exact .inl registered

/-- A vector that is still to be made has nothing registered. -/
theorem Records.step_unmade {callbacks : List κ} (records : s.Records p callbacks)
    (op : WatchOp κ) (beyond : s.vectors.length ≤ p) :
    (s.step growth op).Records p (callbacks ++ s.registers p op) := by
  have dead : s.vector p = none := vector_of_le beyond
  have unregistered : s.registers p op = [] := by
    rcases registers_cases (s := s) (p := p) op with none | ⟨this, callback, -, owns⟩
    · exact none
    · have alive := records.owned.alive_iff.mpr ⟨this, owns⟩
      rw [dead] at alive
      cases alive
  have unlisted : p ∉ s.registrations := by
    intro registered
    have alive := records.alive registered
    rw [dead] at alive
    cases alive
  rw [records.unmade beyond, unregistered, List.append_nil]
  rcases made_step (s := s) growth op with ⟨length, registrations⟩ | ⟨err, rfl⟩
  · have still : (s.step growth op).vector p = none := vector_of_le (length.symm ▸ beyond)
    refine ⟨owned_step growth op records.owned, ?_, fun _ => rfl, ?_⟩
    · intro v alive
      rw [still] at alive
      cases alive
    · intro registered
      exact absurd (registrations ▸ registered) unlisted
  · refine ⟨owned_step growth _ records.owned, ?_, fun _ => rfl, ?_⟩
    · intro v alive
      exact addressCache_made err beyond alive
    · intro registered
      exact (addressCache_alive err registered).resolve_left unlisted

variable (growth) in
/-- A step appends to the vector what it registers. -/
theorem Records.step {callbacks : List κ} (records : s.Records p callbacks) {op : WatchOp κ}
    (kept : s.Kept p op) : (s.step growth op).Records p (callbacks ++ s.registers p op) := by
  rcases Nat.lt_or_ge p s.vectors.length with made | beyond
  · exact records.step_made kept made
  · exact records.step_unmade op beyond

/-- **The vector of a cache that stays alive holds what was registered with it**, wherever
the cache object was moved. -/
theorem Records.run {callbacks : List κ} (records : s.Records p callbacks)
    {ops : List (WatchOp κ)} (kept : Run.Guarded (WatchState.step growth) (Kept p) s ops) :
    (Run.final (WatchState.step growth) s ops).Records p
      (callbacks ++ registered growth p s ops) := by
  induction ops generalizing s callbacks with
  | nil => simpa [registered, Run.final] using records
  | cons op ops ih =>
      have later := ih (records.step growth kept.1) kept.2
      rwa [List.append_assoc] at later

theorem records_empty : (empty : WatchState κ).Records p [] where
  owned := sound_empty.owned
  content := by
    intro v alive
    cases alive
  unmade := fun _ => rfl
  alive := by
    intro registered
    cases registered

end Records

/-! ### The loops in progress -/

section Loops

variable {s : WatchState κ} {p e : ℕ} {growth : ℕ → ℕ}

/-- At the head of a loop: the next callback is called, or the loop is over. -/
theorem loopHead_cases (v : Growable κ) (l : Loop) :
    (∃ callback, l.range.next < l.range.stop ∧ v.elems[l.range.next]? = some callback ∧
      s.loopHead v l = { s with
        loops := l.advance :: s.loops
        notices := s.notices ++ [⟨l.event, callback, l.addr, l.action⟩] }) ∨
    (l.range.next < l.range.stop ∧ v.elems[l.range.next]? = none ∧ s.loopHead v l = s) ∨
    (l.range.stop ≤ l.range.next ∧ s.loopHead v l = s.unshare l.addr) := by
  unfold loopHead
  split
  · next more =>
      cases elem : v.elems[l.range.next]? with
      | some callback => exact .inl ⟨callback, more, rfl, rfl⟩
      | none => exact .inr (.inl ⟨more, rfl, rfl⟩)
  · next finished => exact .inr (.inr ⟨Nat.not_lt.mp finished, rfl⟩)

/-- A step leaves the loops and the calls of callbacks as they are. -/
structure Rests (s t : WatchState κ) : Prop where
  loops : t.loops = s.loops
  notices : t.notices = s.notices
  events : t.events = s.events

/-- An event comes: its loop is put on top, or is over at once. -/
structure Comes (s t : WatchState κ) (l : Loop) (more : List (Notice κ)) : Prop where
  number : l.event = s.events
  loops : t.loops = s.loops ∨ t.loops = l :: s.loops ∧
    ∃ v, t.vector l.callbacks = some v ∧ v.Holds l.range ∧ l.range.stop = v.elems.length
  notices : t.notices = s.notices ++ more
  its : ∀ n ∈ more, n.event = l.event
  events : t.events = s.events + 1

/-- The innermost loop goes on, or is over. -/
structure GoesOn (s t : WatchState κ) (l : Loop) (outer : List Loop) (more : List (Notice κ)) :
    Prop where
  top : s.loops = l :: outer
  loops : t.loops = outer ∨ t.loops = l.advance :: outer
  notices : t.notices = s.notices ++ more
  its : ∀ n ∈ more, n.event = l.event
  events : t.events = s.events

theorem loopHead_runs (v : Growable κ) (l : Loop) : ∃ more : List (Notice κ),
    ((s.loopHead v l).loops = s.loops ∨ (s.loopHead v l).loops = l.advance :: s.loops) ∧
    (s.loopHead v l).notices = s.notices ++ more ∧ (∀ n ∈ more, n.event = l.event) ∧
    (s.loopHead v l).events = s.events := by
  rcases loopHead_cases (s := s) v l with ⟨callback, -, -, called⟩ | ⟨-, -, stuck⟩ | ⟨-, finished⟩
  · rw [called]
    exact ⟨[⟨l.event, callback, l.addr, l.action⟩], .inr rfl, rfl, by simp, rfl⟩
  · rw [stuck]
    exact ⟨[], .inl rfl, by simp, by simp, rfl⟩
  · rw [finished]
    exact ⟨[], .inl rfl, by simp [unshare], by simp, rfl⟩

theorem comes_event (r addr : ℕ) (action : Action) :
    s.Rests (s.event r addr action) ∨ ∃ l more, s.Comes (s.event r addr action) l more := by
  unfold event
  split
  · next q registered =>
      right
      unfold changeCallback
      split
      · next v alive =>
          obtain ⟨more, loops, notices, its, events⟩ :=
            loopHead_runs (s := { s with events := s.events + 1 }.share addr) v
              ⟨q, v.range, s.events, addr, action⟩
          refine ⟨(⟨q, v.range, s.events, addr, action⟩ : Loop).advance, more, rfl, ?_, notices,
            its, events⟩
          rcases loops with same | pushed
          · exact .inl same
          · refine .inr ⟨pushed, v, ?_, rfl, rfl⟩
            rw [vector, loopHead_vectors]
            exact alive
      · exact ⟨⟨q, ⟨0, 0, 0⟩, s.events, addr, action⟩, [], rfl, .inl rfl, by simp, by simp, rfl⟩
  · exact .inl ⟨rfl, rfl, rfl⟩

theorem goesOn_resume : s.Rests s.resume ∨ ∃ l outer more, s.GoesOn s.resume l outer more := by
  unfold resume
  split
  · exact .inl ⟨rfl, rfl, rfl⟩
  · next l outer top =>
      right
      split
      · next v alive =>
          split
          · obtain ⟨more, loops, notices, its, events⟩ :=
              loopHead_runs (s := { s with loops := outer }) v l
            exact ⟨l, outer, more, top, loops, notices, its, events⟩
          · exact ⟨l, outer, [], top, .inl rfl, by simp, by simp, rfl⟩
      · exact ⟨l, outer, [], top, .inl rfl, by simp, by simp, rfl⟩

theorem rests_step (op : WatchOp κ) (quiet : ¬Dispatches op) : s.Rests (s.step growth op) := by
  obtain ⟨vectors, caches, registrations, stepped⟩ := quiet_step (s := s) growth op quiet
  rw [stepped]
  exact ⟨rfl, rfl, rfl⟩

variable (growth) in
/-- What a step does to the loops and the calls of callbacks. -/
theorem runs_step (op : WatchOp κ) : s.Rests (s.step growth op) ∨
    (∃ l more, s.Comes (s.step growth op) l more) ∨
    ∃ l outer more, s.GoesOn (s.step growth op) l outer more := by
  by_cases dispatches : Dispatches op
  · match op, dispatches with
    | .event r addr action, _ =>
        rcases comes_event (s := s) r addr action with rests | comes
        · exact .inl rests
        · exact .inr (.inl comes)
    | .resume, _ =>
        rcases goesOn_resume (s := s) with rests | goesOn
        · exact .inl rests
        · exact .inr (.inr goesOn)
  · exact .inl (rests_step op dispatches)

/-- Loops and calls carry the numbers of events that have come. -/
structure Numbered (s : WatchState κ) : Prop where
  loops : ∀ l ∈ s.loops, l.event < s.events
  notices : ∀ n ∈ s.notices, n.event < s.events

variable (growth) in
theorem Numbered.step (numbered : s.Numbered) (op : WatchOp κ) : (s.step growth op).Numbered := by
  have appended {k : ℕ} {more : List (Notice κ)} (its : ∀ n ∈ more, n.event = k)
      (less : s.events ≤ (s.step growth op).events) (known : k < (s.step growth op).events) :
      ∀ n ∈ s.notices ++ more, n.event < (s.step growth op).events := by
    intro n mem
    rcases List.mem_append.mp mem with old | new
    · exact Nat.lt_of_lt_of_le (numbered.notices n old) less
    · exact its n new ▸ known
  rcases runs_step (s := s) growth op with
    ⟨loops, notices, events⟩ | ⟨new, more, number, loops, notices, its, events⟩ |
      ⟨top, outer, more, atTop, loops, notices, its, events⟩
  · constructor
    · rw [loops, events]
      exact numbered.loops
    · rw [notices, events]
      exact numbered.notices
  · have less : s.events ≤ (s.step growth op).events := events ▸ Nat.le_succ _
    have known : new.event < (s.step growth op).events := by
      rw [number, events]
      exact Nat.lt_succ_self _
    constructor
    · intro l mem
      rcases loops with same | ⟨pushed, -⟩
      · exact Nat.lt_of_lt_of_le (numbered.loops l (same ▸ mem)) less
      · rw [pushed] at mem
        rcases List.mem_cons.mp mem with rfl | old
        · exact known
        · exact Nat.lt_of_lt_of_le (numbered.loops l old) less
    · rw [notices]
      exact appended its less known
  · have inLoops : ∀ l ∈ top :: outer, l.event < (s.step growth op).events := by
      rw [← atTop, events]
      exact numbered.loops
    have known := inLoops top (List.mem_cons_self ..)
    constructor
    · intro l mem
      rcases loops with popped | advanced
      · exact inLoops l (List.mem_cons_of_mem _ (popped ▸ mem))
      · rw [advanced] at mem
        rcases List.mem_cons.mp mem with rfl | old
        · exact known
        · exact inLoops l (List.mem_cons_of_mem _ old)
    · rw [notices]
      exact appended its (Nat.le_of_eq events.symm) known

theorem Numbered.run (numbered : s.Numbered) (ops : List (WatchOp κ)) :
    (Run.final (WatchState.step growth) s ops).Numbered :=
  Run.forall_states (fun _ op numbered => numbered.step growth op) numbered ops _
    (Run.final_mem_states s ops)

theorem numbered_empty : (empty : WatchState κ).Numbered where
  loops := by
    intro l mem
    cases mem
  notices := by
    intro n mem
    cases mem

variable (growth) in
theorem events_step (known : e < s.events) (op : WatchOp κ) : e < (s.step growth op).events := by
  rcases runs_step (s := s) growth op with
    rests | ⟨l, more, comes⟩ | ⟨l, outer, more, goesOn⟩
  · exact rests.events ▸ known
  · exact comes.events ▸ Nat.lt_succ_of_lt known
  · exact goesOn.events ▸ known

variable (growth) in
theorem events_run (known : e < s.events) (ops : List (WatchOp κ)) :
    e < (Run.final (WatchState.step growth) s ops).events :=
  Run.forall_states (P := fun s => e < s.events) (fun _ op known => events_step growth known op)
    known ops _ (Run.final_mem_states s ops)

theorem event_events {r : ℕ} (registered : s.registrations[r]? = some p) (addr : ℕ)
    (action : Action) : (s.event r addr action).events = s.events + 1 := by
  simp only [event, registered, changeCallback]
  split
  · next v alive =>
      obtain ⟨more, -, -, -, events⟩ :=
        loopHead_runs (s := { s with events := s.events + 1 }.share addr) v
          ⟨p, v.range, s.events, addr, action⟩
      exact events
  · rfl

/-- The end of a loop is an element of its vector, or the end of the vector. -/
def Bounded (s : WatchState κ) : Prop :=
  ∀ l ∈ s.loops, l.callbacks < s.vectors.length ∧
    ∀ v, s.vector l.callbacks = some v → l.range.stop ≤ v.elems.length

theorem Bounded.step (bounded : s.Bounded) (op : WatchOp κ) : (s.step growth op).Bounded := by
  have kept : ∀ l ∈ s.loops, l.callbacks < (s.step growth op).vectors.length ∧
      ∀ v, (s.step growth op).vector l.callbacks = some v → l.range.stop ≤ v.elems.length := by
    intro l mem
    obtain ⟨made, short⟩ := bounded l mem
    refine ⟨Nat.lt_of_lt_of_le made (length_step growth op), ?_⟩
    intro v alive
    rcases vector_step growth op made with same | ⟨freed, -⟩ | ⟨w, callback, was, now, -⟩
    · exact short v (same.symm.trans alive)
    · rw [freed] at alive
      cases alive
    · rw [now] at alive
      cases alive
      rw [Growable.push_elems, List.length_append]
      exact Nat.le_add_right_of_le (short w was)
  by_cases dispatches : Dispatches op
  · match op, dispatches with
    | .event r addr action, _ =>
        intro l mem
        rcases comes_event (s := s) r addr action with ⟨same, -, -⟩ | ⟨new, more, comes⟩
        · exact kept l (same ▸ mem)
        · rcases comes.loops with same | ⟨pushed, v, alive, -, stop⟩
          · exact kept l (same ▸ mem)
          · rw [show (s.step growth (.event r addr action)).loops = _ from pushed] at mem
            rcases List.mem_cons.mp mem with rfl | old
            · refine ⟨lt_of_vector alive, fun w aliveW => ?_⟩
              have same : v = w := Option.some.inj (alive.symm.trans aliveW)
              exact Nat.le_of_eq (stop.trans (congrArg (fun v => v.elems.length) same))
            · exact kept l old
    | .resume, _ =>
        intro l mem
        rcases goesOn_resume (s := s) with ⟨loops, -, -⟩ | ⟨top, outer, more, onTop, loops, -, -, -⟩
        · exact kept l (loops ▸ mem)
        · have inLoops : ∀ k ∈ top :: outer, k ∈ s.loops := by
            rw [onTop]
            exact fun k mem => mem
          rcases loops with popped | advanced
          · exact kept l (inLoops l (List.mem_cons_of_mem _ (popped ▸ mem)))
          · rw [show (s.step growth .resume).loops = _ from advanced] at mem
            rcases List.mem_cons.mp mem with rfl | old
            · exact kept top (inLoops top (List.mem_cons_self ..))
            · exact kept l (inLoops l (List.mem_cons_of_mem _ old))
  · intro l mem
    exact kept l ((loops_step growth op dispatches) ▸ mem)

/-- The references that the change callbacks in progress hold of each object. -/
def Counted (s : WatchState κ) : Prop :=
  ∀ a, s.references a = s.loops.countP (·.addr = a)

theorem Counted.step (counted : s.Counted) (bounded : s.Bounded) {op : WatchOp κ}
    (safe : s.ReadsSafely op) : (s.step growth op).Counted := by
  have shared (a addr : ℕ) : Function.update s.references addr (s.references addr + 1) a =
      (s.loops.countP (·.addr = a) + if addr = a then 1 else 0 : ℕ) := by
    rw [Refcount.update_add, counted a]
    split_ifs <;> rfl
  by_cases dispatches : Dispatches op
  · match op, dispatches with
    | .event r addr action, _ =>
        simp only [WatchState.step, event]
        split
        · next q registered =>
            obtain ⟨v, alive⟩ := Option.isSome_iff_exists.mp (safe q registered)
            simp only [changeCallback, alive]
            rcases loopHead_cases (s := { s with events := s.events + 1 }.share addr) v
                ⟨q, v.range, s.events, addr, action⟩ with
              ⟨callback, -, -, called⟩ | ⟨more, none, -⟩ | ⟨-, finished⟩
            · rw [called]
              intro a
              simp only [share, List.countP_cons, Loop.advance, decide_eq_true_eq]
              exact shared a addr
            · exact absurd more (Nat.not_lt.mpr (List.getElem?_eq_none_iff.mp none))
            · rw [finished]
              intro a
              simp only [unshare, share, Function.update_self, Function.update_idem,
                add_sub_cancel_right, Function.update_eq_self]
              exact counted a
        · exact counted
    | .resume, _ =>
        simp only [WatchState.step, resume]
        split
        · exact counted
        · next l outer top =>
            obtain ⟨v, alive, holds⟩ := safe l (by rw [top]; rfl)
            have alive : s.vector l.callbacks = some v := alive
            simp only [alive, if_pos holds]
            rcases loopHead_cases (s := { s with loops := outer }) v l with
              ⟨callback, -, -, called⟩ | ⟨more, none, -⟩ | ⟨-, finished⟩
            · rw [called]
              intro a
              have was := counted a
              rw [top, List.countP_cons] at was
              simpa only [Loop.advance, List.countP_cons] using was
            · have short := (bounded l (top ▸ List.mem_cons_self ..)).2 v alive
              have last := List.getElem?_eq_none_iff.mp none
              exact absurd more (Nat.not_lt.mpr (Nat.le_trans short last))
            · rw [finished]
              intro a
              have was := counted a
              have returned := Refcount.update_add s.references l.addr a (-1)
              rw [top, List.countP_cons] at was
              simp only [decide_eq_true_eq] at was
              simp only [unshare, sub_eq_add_neg]
              rw [returned, was]
              split_ifs <;> omega
  · obtain ⟨vectors, caches, registrations, stepped⟩ := quiet_step (s := s) growth op dispatches
    rw [stepped]
    exact counted

/-- The loops over this vector may go on. -/
def Steady (p : ℕ) (s : WatchState κ) : Prop := ∀ l ∈ s.loops, l.callbacks = p → s.Intact l

/-- Nothing happens to the vector of a cache that is kept while a loop over it runs. -/
theorem Kept.intact_step {op : WatchOp κ} (kept : s.Kept p op) {l : Loop} (mem : l ∈ s.loops)
    (finished : l.callbacks = p) (intact : s.Intact l) : (s.step growth op).Intact l := by
  subst finished
  obtain ⟨v, alive, holds⟩ := intact
  rcases vector_step growth op (lt_of_vector alive) with
    same | ⟨-, frees⟩ | ⟨w, callback, -, -, appends⟩
  · exact ⟨v, same.trans alive, holds⟩
  · exact absurd frees kept.1
  · exact absurd ⟨l, mem, rfl⟩ (kept.2 callback appends)

theorem Steady.step (steady : s.Steady p) {op : WatchOp κ} (kept : s.Kept p op) :
    (s.step growth op).Steady p := by
  have before : ∀ l ∈ s.loops, l.callbacks = p → (s.step growth op).Intact l :=
    fun l mem finished => kept.intact_step mem finished (steady l mem finished)
  intro l mem finished
  rcases runs_step (s := s) growth op with
    ⟨loops, -, -⟩ | ⟨new, more, comes⟩ | ⟨top, outer, more, onTop, loops, -, -, -⟩
  · exact before l (loops ▸ mem) finished
  · rcases comes.loops with same | ⟨pushed, v, alive, holds, -⟩
    · exact before l (same ▸ mem) finished
    · rw [pushed] at mem
      rcases List.mem_cons.mp mem with rfl | old
      · exact ⟨v, alive, holds⟩
      · exact before l old finished
  · have inLoops : ∀ k ∈ top :: outer, k ∈ s.loops := by
      rw [onTop]
      exact fun k mem => mem
    rcases loops with popped | advanced
    · exact before l (inLoops l (List.mem_cons_of_mem _ (popped ▸ mem))) finished
    · rw [advanced] at mem
      rcases List.mem_cons.mp mem with rfl | old
      · exact (before top (inLoops top (List.mem_cons_self ..)) finished).advance _
      · exact before l (inLoops l (List.mem_cons_of_mem _ old)) finished

/-- A cache that is kept is read safely. -/
theorem Steady.readsSafely (steady : s.Steady p) {callbacks : List κ}
    (records : s.Records p callbacks) {op : WatchOp κ} (elsewhere : s.ReadsElsewhere p op) :
    s.ReadsSafely op := by
  cases op with
  | event r addr action =>
      intro q registered
      by_cases same : q = p
      · subst same
        exact records.alive (List.mem_of_getElem? registered)
      · exact elsewhere q registered same
  | resume =>
      intro l innermost
      by_cases finished : l.callbacks = p
      · exact steady l (List.mem_of_mem_head? innermost) finished
      · exact elsewhere l innermost finished
  | addressCache err => trivial
  | moveConstruct other => trivial
  | moveAssign this other => trivial
  | watch this callback => trivial
  | destroy this => trivial

end Loops

/-! ### One event -/

section Event

variable {s t : WatchState κ} {p e addr : ℕ} {action : Action} {callbacks : List κ}
  {growth : ℕ → ℕ} {outside : List Loop}

/-- The calls due for an event: each of these callbacks, with its object and action. -/
def due (e : ℕ) (callbacks : List κ) (addr : ℕ) (action : Action) : List (Notice κ) :=
  callbacks.map fun callback => ⟨e, callback, addr, action⟩

/-- The event is being handed on: some of the calls due were made, and its loop, on top
of the loops from outside, will make the others. -/
structure Midway (t : WatchState κ) (p e addr : ℕ) (action : Action) (callbacks : List κ)
    (outside inner : List Loop) (l : Loop) : Prop where
  loops : t.loops = inner ++ l :: outside
  later : ∀ k ∈ inner, e < k.event
  loop : l.callbacks = p ∧ l.event = e ∧ l.addr = addr ∧ l.action = action
  stop : l.range.stop = callbacks.length
  within : l.range.next ≤ callbacks.length
  reads : ∃ v, t.vector p = some v ∧ v.Holds l.range ∧ v.elems = callbacks
  made : t.delivered e = (due e callbacks addr action).take l.range.next

/-- All calls due were made, and the change callback has returned. -/
structure Over (t : WatchState κ) (e addr : ℕ) (action : Action) (callbacks : List κ) : Prop where
  idle : ¬t.InProgress e
  made : t.delivered e = due e callbacks addr action

theorem delivered_append {more : List (Notice κ)} (notices : t.notices = s.notices ++ more) (e : ℕ) :
    t.delivered e = s.delivered e ++ more.filter (·.event = e) := by
  rw [delivered, notices, List.filter_append]
  rfl

theorem filter_of_other {more : List (Notice κ)} {k : ℕ} (its : ∀ n ∈ more, n.event = k)
    (other : k ≠ e) : more.filter (·.event = e) = [] := by
  apply List.filter_eq_nil_iff.mpr
  intro n mem
  simpa [its n mem] using other

/-- What happens later does not touch an event that is over. -/
theorem Over.step (finished : t.Over e addr action callbacks) (old : e < t.events) (op : WatchOp κ) :
    (t.step growth op).Over e addr action callbacks := by
  have idle := finished.idle
  rcases runs_step (s := t) growth op with
    ⟨loops, notices, -⟩ | ⟨new, more, number, loops, notices, its, -⟩ |
      ⟨top, outer, more, atTop, loops, notices, its, -⟩
  · constructor
    · rw [InProgress, loops]
      exact idle
    · rw [delivered, notices]
      exact finished.made
  · have other : new.event ≠ e := number ▸ (Nat.ne_of_lt old).symm
    constructor
    · rintro ⟨l, mem, same⟩
      rcases loops with kept | ⟨pushed, -⟩
      · exact idle ⟨l, kept ▸ mem, same⟩
      · rw [pushed] at mem
        rcases List.mem_cons.mp mem with rfl | before
        · exact other same
        · exact idle ⟨l, before, same⟩
    · rw [delivered_append notices, filter_of_other its other, List.append_nil]
      exact finished.made
  · have topMem : top ∈ t.loops := atTop ▸ List.mem_cons_self ..
    have other : top.event ≠ e := fun same => idle ⟨top, topMem, same⟩
    constructor
    · rintro ⟨l, mem, same⟩
      rcases loops with popped | advanced
      · exact idle ⟨l, atTop ▸ List.mem_cons_of_mem _ (popped ▸ mem), same⟩
      · rw [advanced] at mem
        rcases List.mem_cons.mp mem with rfl | before
        · exact other same
        · exact idle ⟨l, atTop ▸ List.mem_cons_of_mem _ before, same⟩
    · rw [delivered_append notices, filter_of_other its other, List.append_nil]
      exact finished.made

/-- At the head of the event's own loop: the next call due is made, or the loop is over. -/
theorem midway_loopHead {v : Growable κ} {l : Loop} (loops : t.loops = outside)
    (older : ∀ k ∈ outside, k.event < e)
    (loop : l.callbacks = p ∧ l.event = e ∧ l.addr = addr ∧ l.action = action)
    (stop : l.range.stop = callbacks.length)
    (alive : t.vector p = some v) (holds : v.Holds l.range) (elems : v.elems = callbacks)
    (made : t.delivered e = (due e callbacks addr action).take l.range.next) :
    (t.loopHead v l).Midway p e addr action callbacks outside [] l.advance ∨
      (t.loopHead v l).Over e addr action callbacks ∧ (t.loopHead v l).loops = outside := by
  obtain ⟨rfl, rfl, rfl, rfl⟩ := loop
  rcases loopHead_cases (s := t) v l with
    ⟨callback, more, elem, called⟩ | ⟨more, none, -⟩ | ⟨done, finished⟩
  · left
    rw [elems] at elem
    rw [called]
    refine ⟨congrArg (l.advance :: ·) loops, by simp, ⟨rfl, rfl, rfl, rfl⟩, stop, ?_,
      ⟨v, alive, holds, elems⟩, ?_⟩
    · exact stop ▸ more
    · have next : (due l.event callbacks l.addr l.action)[l.range.next]? =
          some ⟨l.event, callback, l.addr, l.action⟩ := by
        rw [due, List.getElem?_map, elem]
        rfl
      rw [delivered_append rfl, made]
      simp [Loop.advance, List.take_add_one, next]
  · rw [elems, List.getElem?_eq_none_iff, ← stop] at none
    exact absurd more (Nat.not_lt.mpr none)
  · right
    have all : (due l.event callbacks l.addr l.action).length ≤ l.range.next := by
      rw [due, List.length_map, ← stop]
      exact done
    rw [finished]
    refine ⟨⟨?_, ?_⟩, loops⟩
    · rintro ⟨k, mem, same⟩
      exact absurd same (Nat.ne_of_lt (older k (loops ▸ mem)))
    · rw [List.take_of_length_le all] at made
      exact made

variable (growth) in
/-- Nothing happens to the vector of a loop in progress. -/
theorem Midway.reads_step {inner : List Loop} {l : Loop}
    (midway : t.Midway p e addr action callbacks outside inner l) {op : WatchOp κ}
    (kept : t.Kept p op) :
    ∃ v, (t.step growth op).vector p = some v ∧ v.Holds l.range ∧ v.elems = callbacks := by
  obtain ⟨v, alive, holds, elems⟩ := midway.reads
  have running : t.Running p := by
    refine ⟨l, ?_, midway.loop.1⟩
    rw [midway.loops]
    exact List.mem_append_right _ (List.mem_cons_self ..)
  rcases vector_step growth op (lt_of_vector alive) with
    same | ⟨-, frees⟩ | ⟨w, callback, -, -, appends⟩
  · exact ⟨v, same.trans alive, holds, elems⟩
  · exact absurd frees kept.1
  · exact absurd running (kept.2 callback appends)

theorem Midway.inProgress {inner : List Loop} {l : Loop}
    (midway : t.Midway p e addr action callbacks outside inner l) : t.InProgress e := by
  refine ⟨l, ?_, midway.loop.2.1⟩
  rw [midway.loops]
  exact List.mem_append_right _ (List.mem_cons_self ..)

/-- Where the loops on top of it change only, an event stays on its way. -/
theorem Midway.of_inner {u : WatchState κ} {inner inner' : List Loop} {l : Loop}
    (midway : t.Midway p e addr action callbacks outside inner l)
    (loops : u.loops = inner' ++ l :: outside) (later : ∀ k ∈ inner', e < k.event)
    (reads : ∃ v, u.vector p = some v ∧ v.Holds l.range ∧ v.elems = callbacks)
    (made : u.delivered e = t.delivered e) :
    u.Midway p e addr action callbacks outside inner' l :=
  ⟨loops, later, midway.loop, midway.stop, midway.within, reads, made.trans midway.made⟩

theorem Midway.rests {u : WatchState κ} {inner : List Loop} {l : Loop}
    (midway : t.Midway p e addr action callbacks outside inner l) (rests : t.Rests u)
    (reads : ∃ v, u.vector p = some v ∧ v.Holds l.range ∧ v.elems = callbacks) :
    u.Midway p e addr action callbacks outside inner l := by
  apply midway.of_inner (rests.loops.trans midway.loops) midway.later reads
  rw [delivered, rests.notices]
  rfl

/-- A later event comes on top. -/
theorem Midway.comes {u : WatchState κ} {inner : List Loop} {l new : Loop} {more : List (Notice κ)}
    (midway : t.Midway p e addr action callbacks outside inner l) (old : e < t.events)
    (comes : t.Comes u new more)
    (reads : ∃ v, u.vector p = some v ∧ v.Holds l.range ∧ v.elems = callbacks) :
    ∃ inner', u.Midway p e addr action callbacks outside inner' l := by
  have other : new.event ≠ e := comes.number ▸ (Nat.ne_of_lt old).symm
  have made : u.delivered e = t.delivered e := by
    rw [delivered_append comes.notices, filter_of_other comes.its other, List.append_nil]
  rcases comes.loops with kept | ⟨pushed, -⟩
  · exact ⟨inner, midway.of_inner (kept.trans midway.loops) midway.later reads made⟩
  · refine ⟨new :: inner, midway.of_inner ?_ ?_ reads made⟩
    · rw [pushed, midway.loops]
      rfl
    · intro k mem
      rcases List.mem_cons.mp mem with rfl | before
      · exact comes.number ▸ old
      · exact midway.later k before

/-- The event's own loop goes on. -/
theorem Midway.resume_own {l : Loop}
    (midway : t.Midway p e addr action callbacks outside [] l)
    (older : ∀ k ∈ outside, k.event < e) :
    t.resume.Midway p e addr action callbacks outside [] l.advance ∨
      t.resume.Over e addr action callbacks ∧ t.resume.loops = outside := by
  obtain ⟨v, alive, holds, elems⟩ := midway.reads
  have top : t.loops = l :: outside := midway.loops
  have resumed : t.resume = { t with loops := outside }.loopHead v l := by
    unfold resume
    rw [top]
    simp only [midway.loop.1, alive, if_pos holds]
  rw [resumed]
  exact midway_loopHead (t := { t with loops := outside }) rfl older midway.loop midway.stop
    alive holds elems midway.made

/-- The innermost loop, one of a later event, goes on. -/
theorem Midway.resume_later {top : Loop} {inner : List Loop} {l : Loop}
    (midway : t.Midway p e addr action callbacks outside (top :: inner) l)
    (reads : ∃ v, t.resume.vector p = some v ∧ v.Holds l.range ∧ v.elems = callbacks) :
    ∃ inner', t.resume.Midway p e addr action callbacks outside inner' l := by
  rcases goesOn_resume (s := t) with still | ⟨k, outer, more, onTop, loops, notices, its, -⟩
  · exact ⟨top :: inner, midway.rests still reads⟩
  · have same : top :: (inner ++ l :: outside) = k :: outer := midway.loops.symm.trans onTop
    cases same
    have later := List.forall_mem_cons.mp midway.later
    have other : top.event ≠ e := Nat.ne_of_gt later.1
    have made : t.resume.delivered e = t.delivered e := by
      rw [delivered_append notices, filter_of_other its other, List.append_nil]
    rcases loops with popped | advanced
    · exact ⟨inner, midway.of_inner popped later.2 reads made⟩
    · refine ⟨top.advance :: inner, midway.of_inner advanced ?_ reads made⟩
      exact List.forall_mem_cons.mpr later

variable (growth) in
/-- **One step of a dispatch**: the event stays on its way, its next call is made, or it
is over and the loops are those from outside. -/
theorem Midway.step {inner : List Loop} {l : Loop}
    (midway : t.Midway p e addr action callbacks outside inner l)
    (older : ∀ k ∈ outside, k.event < e) (old : e < t.events) {op : WatchOp κ}
    (kept : t.Kept p op) :
    (∃ inner' l', (t.step growth op).Midway p e addr action callbacks outside inner' l') ∨
      (t.step growth op).Over e addr action callbacks ∧ (t.step growth op).loops = outside := by
  have reads := midway.reads_step growth kept
  by_cases dispatches : Dispatches op
  · match op, dispatches with
    | .event r addr' action', _ =>
        left
        rcases comes_event (s := t) r addr' action' with still | ⟨new, more, came⟩
        · exact ⟨inner, l, midway.rests still reads⟩
        · obtain ⟨inner', after⟩ := midway.comes old came reads
          exact ⟨inner', l, after⟩
    | .resume, _ =>
        cases inner with
        | nil => exact (midway.resume_own older).imp (fun more => ⟨[], l.advance, more⟩) id
        | cons top inner =>
            obtain ⟨inner', after⟩ := midway.resume_later reads
            exact .inl ⟨inner', l, after⟩
  · exact .inl ⟨inner, l, midway.rests (rests_step op dispatches) reads⟩

/-- An event comes to a cache that is kept. -/
theorem Records.event (records : s.Records p callbacks) (numbered : s.Numbered) {r : ℕ}
    (registered : s.registrations[r]? = some p) (addr : ℕ) (action : Action) :
    (∃ l, (s.event r addr action).Midway p s.events addr action callbacks s.loops [] l) ∨
      (s.event r addr action).Over s.events addr action callbacks ∧
        (s.event r addr action).loops = s.loops := by
  obtain ⟨v, alive⟩ := Option.isSome_iff_exists.mp (records.alive (List.mem_of_getElem? registered))
  have elems := records.content v alive
  have unmade : s.delivered s.events = [] := by
    apply List.filter_eq_nil_iff.mpr
    intro n mem
    simpa using Nat.ne_of_lt (numbered.notices n mem)
  have called : s.event r addr action =
      ({ s with events := s.events + 1 }.share addr).loopHead v
        ⟨p, v.range, s.events, addr, action⟩ := by
    simp only [WatchState.event, registered, changeCallback, alive]
  rw [called]
  rcases midway_loopHead (t := { s with events := s.events + 1 }.share addr) (v := v)
    (l := ⟨p, v.range, s.events, addr, action⟩) (rfl : _ = s.loops) numbered.loops
    ⟨rfl, rfl, rfl, rfl⟩ (congrArg List.length elems) alive rfl elems unmade with midway | finished
  · exact .inl ⟨_, midway⟩
  · exact .inr finished

/-- **The dispatch of an event, whatever happens meanwhile**: the event is on its way or
it is over. -/
theorem handled_run {ops : List (WatchOp κ)}
    (came : (∃ inner l, t.Midway p e addr action callbacks outside inner l) ∨
      t.Over e addr action callbacks)
    (older : ∀ k ∈ outside, k.event < e) (numbered : t.Numbered) (old : e < t.events)
    (kept : Run.Guarded (step growth) (Kept p) t ops) :
    (∃ inner l, (Run.final (step growth) t ops).Midway p e addr action callbacks outside inner l) ∨
      (Run.final (step growth) t ops).Over e addr action callbacks := by
  induction ops generalizing t with
  | nil => exact came
  | cons op ops ih =>
      have numbered' := numbered.step growth op
      have old' := events_step growth old op
      rcases came with ⟨inner, l, midway⟩ | finished
      · rcases midway.step growth older old kept.1 with more | ⟨finished, -⟩
        · exact ih (.inl more) numbered' old' kept.2
        · exact ih (.inr finished) numbered' old' kept.2
      · exact ih (.inr (finished.step old op)) numbered' old' kept.2

end Event

/-! ### Every event is handed on -/

section Delivery

variable {s t : WatchState κ} {p e : ℕ} {growth : ℕ → ℕ}

/-- The heads of loops still to be passed. -/
def remaining (s : WatchState κ) : ℕ :=
  s.loops.foldr (fun l rest => l.range.stop - l.range.next + 1 + rest) 0

theorem remaining_resume (running : s.loops ≠ []) : s.resume.remaining < s.remaining := by
  obtain ⟨l, outer, top⟩ := List.exists_cons_of_ne_nil running
  have popped {u : WatchState κ} (loops : u.loops = outer) : u.remaining < s.remaining := by
    simp only [remaining, loops, top, List.foldr_cons]
    omega
  unfold resume
  simp only [top]
  split
  · next v alive =>
      split
      · rcases loopHead_cases (s := { s with loops := outer }) v l with
          ⟨callback, more, -, called⟩ | ⟨-, -, stuck⟩ | ⟨-, finished⟩
        · rw [called]
          simp only [remaining, top, Loop.advance, List.foldr_cons]
          omega
        · exact popped (congrArg loops stuck)
        · exact popped (congrArg loops finished)
      · exact popped rfl
  · exact popped rfl

/-- Once all callbacks have returned, no loop is left. -/
theorem loops_drain (growth : ℕ → ℕ) (s : WatchState κ) :
    ∃ k, (Run.final (step growth) s (List.replicate k .resume)).loops = [] := by
  induction left : s.remaining using Nat.strongRecOn generalizing s with
  | ind n ih =>
      by_cases running : s.loops = []
      · exact ⟨0, running⟩
      · subst left
        obtain ⟨k, drained⟩ := ih _ (remaining_resume running) s.resume rfl
        exact ⟨k + 1, drained⟩

/-- The return of a callback touches no vector. -/
theorem kept_resumes (p : ℕ) (s : WatchState κ) (k : ℕ) :
    Run.Guarded (step growth) (Kept p) s (List.replicate k .resume) := by
  induction k generalizing s with
  | zero => trivial
  | succ k ih => exact ⟨⟨id, fun _ => False.elim⟩, ih s.resume⟩

/-- What the references held by the change callback rest on. -/
structure Accounted (p : ℕ) (s : WatchState κ) : Prop where
  records : ∃ callbacks, s.Records p callbacks
  steady : s.Steady p
  bounded : s.Bounded
  counted : s.Counted

theorem Accounted.step (accounted : s.Accounted p) {op : WatchOp κ} (kept : s.Kept p op)
    (elsewhere : s.ReadsElsewhere p op) : (s.step growth op).Accounted p := by
  obtain ⟨callbacks, records⟩ := accounted.records
  have safe := accounted.steady.readsSafely records elsewhere
  exact ⟨⟨_, records.step growth kept⟩, accounted.steady.step kept, accounted.bounded.step op,
    accounted.counted.step accounted.bounded safe⟩

theorem accounted_empty (p : ℕ) : (empty : WatchState κ).Accounted p where
  records := ⟨[], records_empty⟩
  steady := by
    intro l mem
    cases mem
  bounded := by
    intro l mem
    cases mem
  counted := fun _ => rfl

/-- At the return of its change callback, the loops are those from before the event. -/
theorem loops_of_return {addr : ℕ} {action : Action} {callbacks : List κ} {outside : List Loop}
    {ops : List (WatchOp κ)}
    (came : (∃ l, t.Midway p e addr action callbacks outside [] l) ∨
      t.Over e addr action callbacks ∧ t.loops = outside)
    (older : ∀ k ∈ outside, k.event < e) (numbered : t.Numbered) (old : e < t.events)
    (kept : Run.Guarded (step growth) (Kept p) t ops)
    (finished : ¬(Run.final (step growth) t ops).InProgress e)
    (returns : ∀ during op, ops = during ++ [op] →
      (Run.final (step growth) t during).InProgress e) :
    (Run.final (step growth) t ops).loops = outside := by
  rcases List.eq_nil_or_concat ops with rfl | ⟨during, op, whole⟩
  · rcases came with ⟨l, midway⟩ | ⟨-, loops⟩
    · exact absurd midway.inProgress finished
    · exact loops
  · rw [List.concat_eq_append] at whole
    subst whole
    have before := returns during op rfl
    obtain ⟨keptDuring, keptLast⟩ := (Run.guarded_append t during [op]).mp kept
    have oldThen := events_run growth old during
    have numberedThen : (Run.final (step growth) t during).Numbered := numbered.run during
    rcases handled_run (came.imp (fun ⟨l, midway⟩ => ⟨[], l, midway⟩) And.left) older numbered
      old keptDuring with ⟨inner, l', midway⟩ | idle
    · rw [Run.final_append] at finished ⊢
      rcases midway.step growth older oldThen keptLast.1 with
        ⟨inner', l'', more⟩ | ⟨-, loops⟩
      · exact absurd more.inProgress finished
      · exact loops
    · exact absurd before idle.idle

/-- **Every event is delivered exactly**, to the callbacks registered before it, in their
order, with its object and action. A change callback holds one reference of its object while it
runs, so that the references of all objects are those from before the event when it returns; and
it does return when the callbacks do. -/
theorem delivered_exactly (growth : ℕ → ℕ) {p r : ℕ} (addr : ℕ) (action : Action)
    {before after : List (WatchOp κ)}
    (registration : (Run.final (step growth) empty before).registrations[r]? = some p)
    (kept : Run.Guarded (step growth) (Kept p) empty (before ++ .event r addr action :: after)) :
    let s := Run.final (step growth) empty before
    let run := Run.final (step growth) (s.event r addr action)
    let calls := due s.events (registered growth p empty before) addr action
    (run after).delivered s.events <+: calls ∧
    (¬(run after).InProgress s.events → (run after).delivered s.events = calls) ∧
    (Run.Guarded (step growth) (ReadsElsewhere p) empty
        (before ++ .event r addr action :: after) →
      (run after).Counted ∧
      (¬(run after).InProgress s.events →
        (∀ during op, after = during ++ [op] → (run during).InProgress s.events) →
        (run after).references = s.references)) ∧
    ∃ k, ¬(run (after ++ List.replicate k .resume)).InProgress s.events ∧
      (run (after ++ List.replicate k .resume)).delivered s.events = calls := by
  intro s run calls
  obtain ⟨keptBefore, -, keptAfter⟩ := (Run.guarded_append empty before _).mp kept
  have records : s.Records p (registered growth p empty before) := records_empty.run keptBefore
  have numbered : s.Numbered := numbered_empty.run before
  have numberedThen : (s.event r addr action).Numbered :=
    numbered.step growth (.event r addr action)
  have old : s.events < (s.event r addr action).events := by
    rw [event_events registration addr action]
    exact Nat.lt_succ_self _
  have came := records.event numbered registration addr action
  have handled {ops : List (WatchOp κ)}
      (keptOps : Run.Guarded (step growth) (Kept p) (s.event r addr action) ops) :
      (∃ inner l, (run ops).Midway p s.events addr action (registered growth p empty before)
          s.loops inner l) ∨
        (run ops).Over s.events addr action (registered growth p empty before) := by
    exact handled_run (came.imp (fun ⟨l, midway⟩ => ⟨[], l, midway⟩) And.left) numbered.loops
      numberedThen old keptOps
  have complete {ops : List (WatchOp κ)}
      (keptOps : Run.Guarded (step growth) (Kept p) (s.event r addr action) ops)
      (idle : ¬(run ops).InProgress s.events) : (run ops).delivered s.events = calls := by
    rcases handled keptOps with ⟨inner, l, midway⟩ | finished
    · exact absurd midway.inProgress idle
    · exact finished.made
  refine ⟨?_, complete keptAfter, ?_, ?_⟩
  · rcases handled keptAfter with ⟨inner, l, midway⟩ | finished
    · rw [midway.made]
      exact List.take_prefix _ _
    · exact finished.made ▸ List.prefix_refl _
  · intro elsewhere
    have both := kept.and elsewhere
    have accounted : Accounted p (run after) := by
      have whole := both.at_end (P := Accounted p)
        (fun s op accounted good => accounted.step good.1 good.2) (accounted_empty p)
      rwa [Run.final_append] at whole
    refine ⟨accounted.counted, fun idle returns => ?_⟩
    have start : Accounted p s :=
      ((Run.guarded_append empty before _).mp both).1.at_end (P := Accounted p)
        (fun s op accounted good => accounted.step good.1 good.2) (accounted_empty p)
    have loops : (run after).loops = s.loops :=
      loops_of_return came numbered.loops numberedThen old keptAfter idle returns
    funext a
    rw [accounted.counted a, start.counted a, loops]
  · obtain ⟨k, drained⟩ := loops_drain growth (run after)
    have idle : ¬(run (after ++ List.replicate k .resume)).InProgress s.events := by
      rintro ⟨l, mem, -⟩
      rw [show run (after ++ List.replicate k .resume) = _ from Run.final_append ..] at mem
      exact absurd mem (drained ▸ List.not_mem_nil)
    have keptAll := (Run.guarded_append _ after _).mpr ⟨keptAfter, kept_resumes p _ k⟩
    exact ⟨k, idle, complete keptAll idle⟩

/-- A cache is moved twice; it is watched again once its callbacks have returned, and by then
no reference is left. -/
theorem delivered_to_earlier_callbacks :
    let before : List (WatchOp ℕ) := [.addressCache 0, .watch 0 1, .moveConstruct 0, .watch 1 2]
    let after : List (WatchOp ℕ) := [.moveConstruct 1, .resume, .resume]
    let s := Run.final (step (2 * ·)) empty before
    let run := Run.final (step (2 * ·)) (s.event 0 7 .new)
    (run (after ++ [.watch 2 3])).delivered 0 = [⟨0, 1, 7, .new⟩, ⟨0, 2, 7, .new⟩] ∧
      (run after).references = s.references := by
  intro before after s run
  have kept : Run.Guarded (step (2 * ·)) (Kept 0) empty (before ++ .event 0 7 .new :: after) := by
    decide
  have keptThen : Run.Guarded (step (2 * ·)) (Kept 0) empty
      (before ++ .event 0 7 .new :: (after ++ [.watch 2 3])) := by
    decide
  have elsewhere : Run.Guarded (step (2 * ·)) (ReadsElsewhere 0) empty
      (before ++ .event 0 7 .new :: after) := by
    decide
  refine ⟨(delivered_exactly (2 * ·) (r := 0) 7 .new rfl keptThen).2.1 (by decide), ?_⟩
  refine ((delivered_exactly (2 * ·) (r := 0) 7 .new rfl kept).2.2.1 elsewhere).2 (by decide) ?_
  intro during op same
  obtain ⟨rfl, -⟩ : [.moveConstruct 1, .resume] = during ∧ [.resume] = [op] :=
    List.append_inj' same rfl
  decide

end Delivery

end WatchState

end Nlcpp
