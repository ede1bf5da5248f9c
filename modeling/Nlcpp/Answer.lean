import Nlcpp.Exchange

/-!
What an exchange does to a queue, whoever listens.

Three facts about `exchange`: the messages dispatched only grow; function
objects that throw cut it off where the first of them throws, and change nothing
otherwise; and, under the sequence check, the first message dispatched carries
the expected number, so that a queue with the whole answer to one request is
taken exactly up to its terminal message.
-/

namespace Nlcpp

variable {π : Type}

/-- No function object throws. -/
abbrev calm : List (NlMsg π) → Option Thrown := fun _ => none

namespace Ending

/-- The progress an exchange has made when it ends. -/
def progress : Ending π → Progress π
  | .ended p _ => p
  | .thrown _ p _ => p
  | .starved p => p

@[simp] theorem progress_ended (p : Progress π) (rest : List (Incoming π)) :
    (ended p rest).progress = p := rfl

@[simp] theorem progress_thrown (e : Thrown) (p : Progress π) (rest : List (Incoming π)) :
    (thrown e p rest).progress = p := rfl

@[simp] theorem progress_starved (p : Progress π) : (starved p : Ending π).progress = p := rfl

end Ending

/-! ### Messages dispatched only grow -/

section Growth

variable (strict : Bool) (fails : List (NlMsg π) → Option Thrown)

theorem Progress.passed_prefix_pass (p : Progress π) (m : NlMsg π) :
    p.passed <+: (p.pass m).passed :=
  List.prefix_append _ _

theorem walk_grows (multi intr : Bool) (ms : List (NlMsg π)) (p : Progress π) :
    p.passed <+: (walk strict fails multi intr ms p).1.passed := by
  induction ms generalizing multi intr p with
  | nil => exact List.prefix_refl _
  | cons m ms ih =>
      have first := p.passed_prefix_pass m
      unfold walk
      split
      · exact List.prefix_refl _
      · split
        · split
          · exact first
          · exact first.trans (ih _ _ _)
        · exact first.trans (ih _ _ _)
        · exact first

theorem exchange_grows (multi intr : Bool) (queue : List (Incoming π)) (p : Progress π) :
    p.passed <+: (exchange strict fails multi intr queue p).progress.passed := by
  induction queue generalizing multi intr p with
  | nil => exact List.prefix_refl _
  | cons event rest ih =>
      cases event with
      | failure code =>
          rw [exchange_failure]
          split
          · exact ih _ _ _
          · exact List.prefix_refl _
      | datagram ms =>
          have first := walk_grows strict fails multi intr ms p
          rw [exchange_datagram]
          revert first
          rcases walk strict fails multi intr ms p with ⟨q, i | i | e⟩
          · exact fun first => first.trans (ih _ _ _)
          · intro first
            dsimp only
            split
            · exact first.trans (ih _ _ (q.reported i))
            · exact first
          · exact fun first => first

theorem walk_prefix_exchange (multi intr : Bool) (ms : List (NlMsg π)) (rest : List (Incoming π))
    (p : Progress π) : (walk strict fails multi intr ms p).1.passed <+:
      (exchange strict fails multi intr (.datagram ms :: rest) p).progress.passed := by
  rw [exchange_datagram]
  rcases walk strict fails multi intr ms p with ⟨q, i | i | e⟩
  · exact exchange_grows _ _ _ _ _ _
  · dsimp only
    split
    · exact exchange_grows _ _ _ _ _ (q.reported i)
    · exact List.prefix_refl _
  · exact List.prefix_refl _

/-- An accepted message is dispatched before anything else. -/
theorem walk_accepts {p : Progress π} {m : NlMsg π} (accepted : strict = true → m.seq = p.expect)
    (multi intr : Bool) (ms : List (NlMsg π)) :
    (p.pass m).passed <+: (walk strict fails multi intr (m :: ms) p).1.passed := by
  rw [walk, if_neg fun ⟨checked, other⟩ => other (accepted checked)]
  cases m.body with
  | data payload =>
      dsimp only
      split
      · exact List.prefix_refl _
      · exact walk_grows _ _ _ _ _ _
  | done => exact walk_grows _ _ _ _ _ _
  | error code => exact List.prefix_refl _

end Growth

/-! ### Throwing cuts an exchange off -/

/-- Between `base` and `passed`, the dispatch of some data message throws. -/
def Trips (fails : List (NlMsg π) → Option Thrown) (base passed : List (NlMsg π)) : Prop :=
  ∃ d m, base <+: d ∧ d ++ [m] <+: passed ∧ m.isData = true ∧ (fails (d ++ [m])).isSome

theorem Trips.mono {fails : List (NlMsg π) → Option Thrown}
    {base base' passed passed' : List (NlMsg π)}
    (trips : Trips fails base' passed) (earlier : base <+: base') (later : passed <+: passed') :
    Trips fails base passed' := by
  obtain ⟨d, m, from_, upTo, data, throws⟩ := trips
  exact ⟨d, m, earlier.trans from_, upTo.trans later, data, throws⟩

theorem not_trips_self {fails : List (NlMsg π) → Option Thrown} {base : List (NlMsg π)} :
    ¬Trips fails base base := by
  rintro ⟨d, m, from_, upTo, -⟩
  have := from_.length_le
  have := upTo.length_le
  simp only [List.length_append, List.length_singleton] at this
  omega

theorem trips_trans {fails : List (NlMsg π) → Option Thrown} {base mid passed : List (NlMsg π)}
    (first : base <+: mid) (then_ : mid <+: passed) :
    Trips fails base passed ↔ Trips fails base mid ∨ Trips fails mid passed := by
  constructor
  · rintro ⟨d, m, from_, upTo, data, throws⟩
    by_cases within : d.length < mid.length
    · have reaches := List.prefix_of_prefix_length_le upTo then_
        (by simpa using Nat.succ_le_of_lt within)
      exact .inl ⟨d, m, from_, reaches, data, throws⟩
    · have beyond : mid <+: d := List.prefix_of_prefix_length_le then_
        (.trans (List.prefix_append _ _) upTo) (by omega)
      exact .inr ⟨d, m, beyond, upTo, data, throws⟩
  · rintro (trips | trips)
    · exact trips.mono (List.prefix_refl _) then_
    · exact trips.mono first (List.prefix_refl _)

theorem trips_one {fails : List (NlMsg π) → Option Thrown} {base : List (NlMsg π)}
    {m : NlMsg π} :
    Trips fails base (base ++ [m]) ↔ m.isData = true ∧ (fails (base ++ [m])).isSome := by
  constructor
  · rintro ⟨d, n, from_, upTo, data, throws⟩
    have := from_.length_le
    have same : d ++ [n] = base ++ [m] := upTo.eq_of_length_le (by simpa using this)
    obtain ⟨rfl, rfl⟩ : d = base ∧ n = m := by simpa using same
    exact ⟨data, throws⟩
  · exact fun ⟨data, throws⟩ => ⟨base, m, List.prefix_refl _, List.prefix_refl _, data, throws⟩

/-- What tripping on the way to `passed` means when `m` is dispatched first. -/
theorem trips_pass {fails : List (NlMsg π) → Option Thrown} {p : Progress π} {m : NlMsg π}
    {passed : List (NlMsg π)} (grown : (p.pass m).passed <+: passed) :
    Trips fails p.passed passed ↔
      (m.isData = true ∧ (fails (p.pass m).passed).isSome) ∨
        Trips fails (p.pass m).passed passed := by
  rw [trips_trans (p.passed_prefix_pass m) grown]
  exact or_congr trips_one Iff.rfl

section Throwing

variable (strict : Bool) (fails : List (NlMsg π) → Option Thrown)

/-- Working off a datagram: as without throwing when nothing trips, and cut off
by an exception otherwise. -/
theorem walk_trips (multi intr : Bool) (ms : List (NlMsg π)) (p : Progress π) :
    (¬Trips fails p.passed (walk strict calm multi intr ms p).1.passed ∧
      walk strict fails multi intr ms p = walk strict calm multi intr ms p) ∨
    (Trips fails p.passed (walk strict calm multi intr ms p).1.passed ∧
      ∃ q e, walk strict fails multi intr ms p = (q, .thrown e)) := by
  induction ms generalizing multi intr p with
  | nil => exact .inl ⟨not_trips_self, rfl⟩
  | cons m ms ih =>
      unfold walk
      by_cases refused : strict = true ∧ m.seq ≠ p.expect
      · rw [if_pos refused, if_pos refused]
        exact .inl ⟨not_trips_self, rfl⟩
      · rw [if_neg refused, if_neg refused]
        cases body : m.body with
        | data payload =>
            dsimp only
            rw [trips_pass (walk_grows _ _ _ _ ms (p.pass m)), NlMsg.isData_of_body_data body]
            cases throws : fails (p.pass m).passed with
            | some e => exact .inr ⟨.inl ⟨rfl, rfl⟩, _, e, rfl⟩
            | none => simpa using ih (multi || m.multi) (intr || m.dumpIntr) (p.pass m)
        | done =>
            dsimp only
            rw [trips_pass (walk_grows _ _ _ _ ms (p.pass m)), NlMsg.isData_of_body_done body]
            simpa using ih false (intr || m.dumpIntr) (p.pass m)
        | error code =>
            dsimp only
            rw [trips_pass (List.prefix_refl _), NlMsg.isData_of_body_error body]
            exact .inl ⟨by simpa using not_trips_self, rfl⟩

/-- **Throwing function objects change an exchange exactly when one of them
throws on a message that the exchange without them dispatches**, and then it
ends by an exception. -/
theorem exchange_trips (multi intr : Bool) (queue : List (Incoming π)) (p : Progress π) :
    (¬Trips fails p.passed (exchange strict calm multi intr queue p).progress.passed ∧
      exchange strict fails multi intr queue p = exchange strict calm multi intr queue p) ∨
    (Trips fails p.passed (exchange strict calm multi intr queue p).progress.passed ∧
      ∃ e q rest, exchange strict fails multi intr queue p = .thrown e q rest) := by
  induction queue generalizing multi intr p with
  | nil => exact .inl ⟨not_trips_self, rfl⟩
  | cons event rest ih =>
      cases event with
      | failure code =>
          simp only [exchange_failure]
          split
          · exact ih _ _ p
          · exact .inl ⟨not_trips_self, rfl⟩
      | datagram ms =>
          simp only [exchange_datagram]
          have first := walk_grows strict calm multi intr ms p
          have worked := walk_trips strict fails multi intr ms p
          rcases calmly : walk strict calm multi intr ms p with ⟨q, leave⟩
          rw [calmly] at first worked
          -- What the exchange does after the datagram, when it reads on from `q`.
          have onward : ∀ (mu i : Bool) (q' : Progress π), q'.passed = q.passed →
              ¬Trips fails p.passed q.passed →
              (¬Trips fails p.passed (exchange strict calm mu i rest q').progress.passed ∧
                exchange strict fails mu i rest q' = exchange strict calm mu i rest q') ∨
              (Trips fails p.passed (exchange strict calm mu i rest q').progress.passed ∧
                ∃ e r tail, exchange strict fails mu i rest q' = .thrown e r tail) := by
            intro mu i q' same smooth
            have grows := exchange_grows strict calm mu i rest q'
            rw [same] at grows
            rw [trips_trans first grows]
            simp only [smooth, false_or]
            rw [← same]
            exact ih mu i q'
          rcases worked with ⟨smooth, agree⟩ | ⟨trips, r, e, thrown⟩
          · rw [agree]
            rcases leave with i | i | e
            · exact onward true i q rfl smooth
            · dsimp only
              split
              · exact onward false false (q.reported i) rfl smooth
              · exact .inl ⟨smooth, rfl⟩
            · exact .inl ⟨smooth, rfl⟩
          · rw [thrown]
            refine .inr ⟨?_, e, r, rest, rfl⟩
            rcases leave with i | i | e
            · exact trips.mono (List.prefix_refl _) (exchange_grows _ _ true i rest q)
            · dsimp only
              split
              · exact trips.mono (List.prefix_refl _)
                  (exchange_grows _ _ false false rest (q.reported i))
              · exact trips
            · exact trips

/-- Function objects that do not throw let no exception out of a datagram. -/
theorem walk_calm (multi intr : Bool) (ms : List (NlMsg π)) (p : Progress π) (e : Thrown) :
    (walk strict calm multi intr ms p).2 ≠ .thrown e := by
  induction ms generalizing multi intr p with
  | nil =>
      unfold walk
      split <;> simp
  | cons m ms ih =>
      unfold walk
      split
      · simp
      · split
        · exact ih _ _ _
        · exact ih _ _ _
        · simp

theorem exchange_calm (multi intr : Bool) (queue : List (Incoming π)) (p : Progress π) (e : Thrown)
    (q : Progress π) (rest : List (Incoming π)) :
    exchange strict calm multi intr queue p ≠ .thrown e q rest := by
  induction queue generalizing multi intr p with
  | nil => exact nofun
  | cons event tail ih =>
      cases event with
      | failure code =>
          rw [exchange_failure]
          split
          · exact ih _ _ p
          · exact nofun
      | datagram ms =>
          have unharmed := walk_calm strict multi intr ms p
          rw [exchange_datagram]
          revert unharmed
          rcases walk strict calm multi intr ms p with ⟨q', i | i | e'⟩
          · exact fun _ => ih _ _ q'
          · intro _
            dsimp only
            split
            · exact ih _ _ (q'.reported i)
            · exact nofun
          · exact fun unharmed => absurd rfl (unharmed e')

end Throwing

/-! ### The first message dispatched -/

section First

variable (fails : List (NlMsg π) → Option Thrown)

/-- Nothing was dispatched, or first a message with the expected number. -/
def FirstExpected (p : Progress π) (passed : List (NlMsg π)) : Prop :=
  passed = p.passed ∨ ∃ m more, passed = p.passed ++ m :: more ∧ m.seq = p.expect

theorem FirstExpected.grow {p : Progress π} {passed later : List (NlMsg π)} {m : NlMsg π}
    {more : List (NlMsg π)} (first : passed = p.passed ++ m :: more) (own : m.seq = p.expect)
    (grows : passed <+: later) : FirstExpected p later := by
  obtain ⟨tail, rfl⟩ := grows
  exact .inr ⟨m, more ++ tail, by simp [first], own⟩

theorem walk_first (multi intr : Bool) (ms : List (NlMsg π)) (p : Progress π) :
    (walk true fails multi intr ms p).1 = p ∨
      ∃ m more, (walk true fails multi intr ms p).1.passed = p.passed ++ m :: more ∧
        m.seq = p.expect := by
  cases ms with
  | nil => exact .inl rfl
  | cons m ms =>
      by_cases own : m.seq = p.expect
      · -- The message is accepted, so all that follows comes after it.
        have first := walk_accepts true fails (fun _ => own) multi intr ms
        obtain ⟨more, grown⟩ := first
        exact .inr ⟨m, more, by rw [← grown]; simp [Progress.pass], own⟩
      · refine .inl ?_
        unfold walk
        rw [if_pos ⟨rfl, own⟩]

/-- **Under the sequence check, the first message that an exchange dispatches
carries the number expected at its start.** -/
theorem exchange_first (multi intr : Bool) (queue : List (Incoming π)) (p : Progress π) :
    FirstExpected p (exchange true fails multi intr queue p).progress.passed := by
  induction queue generalizing multi intr p with
  | nil => exact .inl rfl
  | cons event rest ih =>
      cases event with
      | failure code =>
          rw [exchange_failure]
          split
          · exact ih _ _ p
          · exact .inl rfl
      | datagram ms =>
          have worked := walk_first fails multi intr ms p
          rw [exchange_datagram]
          revert worked
          rcases walk true fails multi intr ms p with ⟨q, i | i | e⟩
          · rintro (rfl | ⟨m, more, first, own⟩)
            · exact ih _ _ q
            · exact .grow first own (exchange_grows _ _ true i rest q)
          · dsimp only
            split
            · rintro (rfl | ⟨m, more, first, own⟩)
              · exact ih _ _ (q.reported i)
              · exact .grow first own (exchange_grows _ _ false false rest (q.reported i))
            · rintro (rfl | ⟨m, more, first, own⟩)
              · exact .inl rfl
              · exact .inr ⟨m, more, first, own⟩
          · rintro (rfl | ⟨m, more, first, own⟩)
            · exact .inl rfl
            · exact .inr ⟨m, more, first, own⟩

end First

/-! ### The answer to one request -/

/-- The messages of request `n` in a receive event. -/
def ownOf (n : UInt32) : Incoming π → List (NlMsg π)
  | .datagram ms => ms.filter fun m => m.seq = n
  | .failure _ => []

theorem seq_of_ownOf {n : UInt32} {event : Incoming π} {m : NlMsg π} (mem : m ∈ ownOf n event) :
    m.seq = n := by
  cases event with
  | failure code => cases mem
  | datagram ms => simpa using (List.mem_filter.mp mem).2

/-- No message of the event carries another number. -/
def Unmixed (n : UInt32) : Incoming π → Prop
  | .datagram ms => ∀ m ∈ ms, m.seq = n
  | .failure _ => True

/-- What may lie in the queue before the datagram with the terminal message of
request `n`: its own data messages, stale messages, and failed reads. -/
def Precedes (n : UInt32) : Incoming π → Prop
  | .datagram ms => (∀ m ∈ ms, m.seq = n ∧ m.isData = true) ∨ ∀ m ∈ ms, m.seq ≠ n
  | .failure _ => True

/-- A queue that holds the answer to request `n`. What comes after the datagram
with the terminal message is arbitrary. -/
structure Answer (π : Type) (n : UInt32) where
  before : List (Incoming π)
  data : List (NlMsg π)
  terminal : NlMsg π
  tail : List (NlMsg π)
  after : List (Incoming π)
  precedes : ∀ event ∈ before, Precedes n event
  own : ∀ m ∈ data ++ terminal :: tail, m.seq = n
  isData : ∀ m ∈ data, m.isData = true
  isTerminal : terminal.isTerminal = true

namespace Answer

variable {n : UInt32} (a : Answer π n)

/-- The queue itself. -/
def queue : List (Incoming π) :=
  a.before ++ .datagram (a.data ++ a.terminal :: a.tail) :: a.after

/-- The data messages of the request that precede the terminal message. -/
def delivered : List (NlMsg π) := a.before.flatMap (ownOf n) ++ a.data

/-- Nothing in the queue needs the sequence check: no stale message comes first,
and nothing shares the datagram with a DONE that it would run on into. -/
structure Clean : Prop where
  unmixed : ∀ event ∈ a.before, Unmixed n event
  last : a.terminal.body = .done → a.tail = []

theorem delivered_own (m : NlMsg π) (mem : m ∈ a.delivered) : m.seq = n ∧ m.isData = true := by
  rcases List.mem_append.mp mem with early | inLast
  · obtain ⟨event, inBefore, ofEvent⟩ := List.mem_flatMap.mp early
    cases event with
    | failure code => cases ofEvent
    | datagram ms =>
        obtain ⟨inMs, seq⟩ := List.mem_filter.mp ofEvent
        have seq : m.seq = n := by simpa using seq
        rcases a.precedes _ inBefore with ownData | stale
        · exact ownData m inMs
        · exact absurd seq (stale m inMs)
  · exact ⟨a.own m (List.mem_append_left _ inLast), a.isData m inLast⟩

end Answer

/-- Dispatch data messages. -/
def Progress.hear (p : Progress π) (ms : List (NlMsg π)) : Progress π :=
  { p with passed := p.passed ++ ms }

theorem Progress.hear_nil (p : Progress π) : p.hear [] = p := by
  simp [Progress.hear]

theorem Progress.hear_hear (p : Progress π) (ms ns : List (NlMsg π)) :
    (p.hear ms).hear ns = p.hear (ms ++ ns) := by
  simp [Progress.hear]

theorem NlMsg.body_of_isData {m : NlMsg π} (data : m.isData = true) :
    ∃ payload, m.body = .data payload := by
  cases body : m.body with
  | data payload => exact ⟨payload, rfl⟩
  | done => simp [NlMsg.isData, body] at data
  | error code => simp [NlMsg.isData, body] at data

theorem Progress.pass_data {m : NlMsg π} (data : m.isData = true) (p : Progress π) :
    p.pass m = p.hear [m] := by
  obtain ⟨payload, body⟩ := NlMsg.body_of_isData data
  simp [Progress.pass, Progress.hear, Progress.statusAfter, NlMsg.isTerminal, body, data]

/-- A terminal message ends the wait. -/
theorem Progress.statusAfter_terminal {m : NlMsg π} (terminal : m.isTerminal = true) (s : ℤ) :
    ¬Progress.statusAfter m.body s > 0 := by
  cases body : m.body with
  | data payload => simp [NlMsg.isTerminal, NlMsg.isData, body] at terminal
  | done => simp [Progress.statusAfter]
  | error code =>
      exact Int.not_lt.mpr (Socket.errorStatus_le_zero code)

section InStep

variable {strict : Bool} {n : UInt32} {p : Progress π}

variable (strict) in
/-- Data messages that the sequence check lets pass are dispatched one after the
other. -/
theorem walk_hear {data : List (NlMsg π)} (isData : ∀ m ∈ data, m.isData = true)
    (accepted : strict = true → ∀ m ∈ data, m.seq = p.expect) (ms : List (NlMsg π))
    (multi intr : Bool) :
    ∃ multi' intr', walk strict calm multi intr (data ++ ms) p =
      walk strict calm multi' intr' ms (p.hear data) := by
  induction data generalizing multi intr p with
  | nil => exact ⟨multi, intr, by rw [List.nil_append, p.hear_nil]⟩
  | cons m data ih =>
      obtain ⟨mData, isData⟩ := List.forall_mem_cons.mp isData
      obtain ⟨payload, body⟩ := NlMsg.body_of_isData mData
      obtain ⟨multi', intr', further⟩ := ih (p := p.hear [m]) isData
        (fun checked => (List.forall_mem_cons.mp (accepted checked)).2)
        (multi || m.multi) (intr || m.dumpIntr)
      refine ⟨multi', intr', ?_⟩
      have passes : ¬(strict = true ∧ m.seq ≠ p.expect) :=
        fun ⟨checked, other⟩ => other (accepted checked m (List.mem_cons_self ..))
      rw [List.cons_append, walk, if_neg passes, body]
      simp only [p.pass_data mData, further, Progress.hear_hear, List.singleton_append]

/-- At its end a datagram is left without an exception. -/
theorem walk_nil (multi intr : Bool) : ∃ i, walk strict calm multi intr [] p = (p, .readOn i) ∨
    walk strict calm multi intr [] p = (p, .back i) := by
  cases multi
  · exact ⟨intr, .inr rfl⟩
  · exact ⟨intr, .inl rfl⟩

/-- Messages with other numbers are not dispatched. -/
theorem walk_stale {ms : List (NlMsg π)} (stale : ∀ m ∈ ms, m.seq ≠ p.expect)
    (multi intr : Bool) : ∃ i, walk true calm multi intr ms p = (p, .readOn i) ∨
      walk true calm multi intr ms p = (p, .back i) := by
  cases ms with
  | nil => exact walk_nil multi intr
  | cons m ms =>
      refine ⟨intr, .inr ?_⟩
      rw [walk, if_pos ⟨rfl, stale m (List.mem_cons_self ..)⟩]

/-- The terminal message ends the work on its datagram: under the sequence check
whatever follows a DONE carries a number that is no longer expected. -/
theorem walk_terminal {t : NlMsg π} (terminal : t.isTerminal = true) (seq : t.seq = n)
    {tail : List (NlMsg π)} (own : ∀ m ∈ tail, m.seq = n)
    (expects : strict = true → p.expect = n) (last : strict = false → t.body = .done → tail = [])
    (multi intr : Bool) : ∃ i, walk strict calm multi intr (t :: tail) p = (p.pass t, .back i) := by
  have passes : ¬(strict = true ∧ t.seq ≠ p.expect) :=
    fun ⟨checked, other⟩ => other (seq.trans (expects checked).symm)
  rw [walk, if_neg passes]
  cases body : t.body with
  | data payload => simp [NlMsg.isTerminal, NlMsg.isData, body] at terminal
  | error code => exact ⟨_, rfl⟩
  | done =>
      cases tail with
      | nil => exact ⟨_, rfl⟩
      | cons m tail =>
          have checked : strict = true := by
            by_contra unchecked
            cases last (by simpa using unchecked) body
          refine ⟨intr || t.dumpIntr, ?_⟩
          dsimp only
          rw [walk, if_pos]
          refine ⟨checked, ?_⟩
          rw [own m (List.mem_cons_self ..)]
          simp only [Progress.pass, terminal, expects checked, if_true]
          exact fun same => by simp at same

variable (strict) in
/-- A datagram that precedes the terminal message adds its own messages, and the
wait goes on. -/
theorem walk_precedes {ms : List (NlMsg π)} (precedes : Precedes n (.datagram ms))
    (expects : strict = true → p.expect = n) (unmixed : strict = false → Unmixed n (.datagram ms))
    (multi intr : Bool) : ∃ i,
      walk strict calm multi intr ms p = (p.hear (ownOf n (.datagram ms)), .readOn i) ∨
      walk strict calm multi intr ms p = (p.hear (ownOf n (.datagram ms)), .back i) := by
  rcases precedes with ownData | stale
  · obtain ⟨multi', intr', heard⟩ := walk_hear strict (fun m mem => (ownData m mem).2)
      (fun checked m mem => (ownData m mem).1.trans (expects checked).symm) [] multi intr
    have all : ownOf n (.datagram ms) = ms :=
      List.filter_eq_self.mpr fun m mem => by simpa using (ownData m mem).1
    rw [List.append_nil] at heard
    rw [heard, all]
    exact walk_nil multi' intr'
  · have none : ownOf n (.datagram ms) = [] :=
      List.filter_eq_nil_iff.mpr fun m mem => by simpa using stale m mem
    rw [none, p.hear_nil]
    cases strict with
    | true => exact walk_stale (expects rfl ▸ stale) multi intr
    | false =>
        -- Without the check there are no stale messages, so the datagram is empty.
        obtain rfl : ms = [] :=
          List.eq_nil_iff_forall_not_mem.mpr fun m mem => stale m mem (unmixed rfl m mem)
        exact walk_nil multi intr

end InStep

/-- **An exchange in step takes exactly its answer**: it dispatches the own data
messages up to the terminal message and that message, nothing else, and leaves
the queue behind the terminal message's datagram. -/
theorem exchange_answer {strict : Bool} {n : UInt32} (a : Answer π n) (multi intr : Bool)
    {p : Progress π} (expects : strict = true → p.expect = n) (clean : strict = false → a.Clean)
    (waiting : p.status > 0) :
    ∃ q, exchange strict calm multi intr a.queue p = .ended q a.after ∧
      q.expect = p.expect + 1 ∧ q.passed = p.passed ++ (a.delivered ++ [a.terminal]) ∧
      q.status = Progress.statusAfter a.terminal.body p.status := by
  obtain ⟨before, data, terminal, tail, after, precedes, own, isData, isTerminal⟩ := a
  have last : strict = false → terminal.body = .done → tail = [] := fun off => (clean off).last
  have unmixed : strict = false → ∀ event ∈ before, Unmixed n event :=
    fun off => (clean off).unmixed
  clear clean
  simp only [Answer.queue, Answer.delivered]
  induction before generalizing multi intr p with
  | nil =>
      obtain ⟨multi', intr', heard⟩ := walk_hear strict isData
        (fun checked m mem => (own m (List.mem_append_left _ mem)).trans (expects checked).symm)
        (terminal :: tail) multi intr
      have ownTail : ∀ m ∈ tail, m.seq = n := fun m mem => own m (by simp [mem])
      obtain ⟨i, stops⟩ := walk_terminal (p := p.hear data) isTerminal
        (own terminal (by simp)) ownTail expects last multi' intr'
      have done : ¬((p.hear data).pass terminal).status > 0 :=
        Progress.statusAfter_terminal isTerminal _
      refine ⟨((p.hear data).pass terminal).reported i, ?_, ?_, ?_, rfl⟩
      · rw [List.nil_append, exchange_datagram, heard, stops]
        exact if_neg done
      · simp [Progress.reported, Progress.pass, Progress.hear, isTerminal]
      · simp [Progress.reported, Progress.pass, Progress.hear]
  | cons event before ih =>
      obtain ⟨first, others⟩ := List.forall_mem_cons.mp precedes
      have later := fun off => (List.forall_mem_cons.mp (unmixed off)).2
      cases event with
      | failure code =>
          rw [List.cons_append, exchange_failure, if_pos waiting]
          exact ih false false expects waiting others later
      | datagram ms =>
          obtain ⟨i, on | back⟩ := walk_precedes strict first expects
            (fun off => (List.forall_mem_cons.mp (unmixed off)).1) multi intr
          · rw [List.cons_append, exchange_datagram, on]
            obtain ⟨q, ends, expect, passed, status⟩ := ih true i
              (p := p.hear (ownOf n (.datagram ms))) expects waiting others later
            exact ⟨q, ends, expect, by simpa [Progress.hear] using passed, status⟩
          · rw [List.cons_append, exchange_datagram, back]
            dsimp only
            rw [if_pos (show (p.hear (ownOf n (.datagram ms))).status > 0 from waiting)]
            obtain ⟨q, ends, expect, passed, status⟩ := ih false false
              (p := (p.hear (ownOf n (.datagram ms))).reported i) expects waiting others later
            exact ⟨q, ends, expect,
              by simpa [Progress.hear, Progress.reported] using passed, status⟩

/-- With function objects that may throw, an exchange in step takes its answer,
unless one of them throws on the way. -/
theorem exchange_answer_trips (strict : Bool) (fails : List (NlMsg π) → Option Thrown)
    {n : UInt32} (a : Answer π n) {p : Progress π} (expects : strict = true → p.expect = n)
    (clean : strict = false → a.Clean) (waiting : p.status > 0) :
    (¬Trips fails p.passed (p.passed ++ (a.delivered ++ [a.terminal])) ∧
      ∃ q, exchange strict fails false false a.queue p = .ended q a.after ∧
        q.expect = p.expect + 1 ∧ q.passed = p.passed ++ (a.delivered ++ [a.terminal])) ∨
    (Trips fails p.passed (p.passed ++ (a.delivered ++ [a.terminal])) ∧
      ∃ e q rest, exchange strict fails false false a.queue p = .thrown e q rest) := by
  obtain ⟨q, ends, expect, passed, -⟩ := exchange_answer a false false expects clean waiting
  have split := exchange_trips strict fails false false a.queue p
  rw [ends, Ending.progress_ended, passed] at split
  exact split.imp_left fun ⟨smooth, same⟩ => ⟨smooth, q, same, expect, passed⟩

namespace Answer

/-- No message of the event carries the number. -/
def Stale (n : UInt32) : Incoming π → Prop
  | .datagram ms => ∀ m ∈ ms, m.seq ≠ n
  | .failure _ => True

variable {n : UInt32}

theorem Stale.precedes {event : Incoming π} (stale : Stale n event) : Precedes n event := by
  cases event with
  | datagram ms => exact .inr stale
  | failure code => trivial

theorem Stale.ownOf {event : Incoming π} (stale : Stale n event) : ownOf n event = [] := by
  cases event with
  | datagram ms => exact List.filter_eq_nil_iff.mpr fun m mem => by simpa using stale m mem
  | failure code => rfl

/-- The answer behind what an earlier one left in the queue. -/
def behind (a : Answer π n) {left : List (Incoming π)} (stale : ∀ event ∈ left, Stale n event) :
    Answer π n :=
  { a with
    before := left ++ a.before
    precedes := fun event mem => (List.mem_append.mp mem).elim
      (fun inLeft => (stale event inLeft).precedes) (a.precedes event) }

variable {left : List (Incoming π)} (stale : ∀ event ∈ left, Stale n event) (a : Answer π n)

theorem behind_queue : (a.behind stale).queue = left ++ a.queue := by
  simp [queue, behind]

@[simp] theorem behind_terminal : (a.behind stale).terminal = a.terminal := rfl

@[simp] theorem behind_after : (a.behind stale).after = a.after := rfl

@[simp] theorem behind_delivered : (a.behind stale).delivered = a.delivered := by
  have none : left.flatMap (Nlcpp.ownOf n) = [] :=
    List.flatMap_eq_nil_iff.mpr fun event mem => (stale event mem).ownOf
  simp [delivered, behind, none]

end Answer

end Nlcpp
