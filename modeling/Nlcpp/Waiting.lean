import Nlcpp.Answer
import Nlcpp.Ctrl
import Nlcpp.Reference

/-!
What `sendMessageSync` waits for.

The receive loop ends when a callback has written its status and for no other reason: the
results of `nl_send_auto` and `nl_recvmsgs` are not looked at. Arrivals without end are a
function from `ℕ`; a call stops on them when it comes back on finitely many. It does when
a terminal message is dispatched in time (`stops_on_failure_iff`), and once every further
read fails it is too late for that (`FailsFrom.never`).
-/

namespace Nlcpp

variable {π α : Type}

/-- The first `n` of these events have arrived. -/
def World.fed (events : ℕ → Incoming π) (n : ℕ) (w : World π) : World π :=
  w.arrive ((List.range n).map events)

/-- The program comes back after finitely many events. -/
def Stops (program : SockProg π α) (events : ℕ → Incoming π) (w : World π) : Prop :=
  ∃ n, ∀ v, program.run (w.fed events n) ≠ .blocked v

/-- `nl_send_auto` reports an error. -/
def Unsent (L : Libnl π) (message : Message) (events : ℕ → Incoming π) (w : World π) : Prop :=
  ∀ n, (L.nlSendAuto message (w.fed events n).nl).1 < 0

/-- From event `k` on, the program waits for an answer, and every further call of
`nl_recvmsgs` returns the same error and does nothing else. -/
def FailsFrom (L : Libnl π) (call : Caller π) (program : SockProg π α) (events : ℕ → Incoming π)
    (w : World π) (k : ℕ) : Prop :=
  ∃ code < 0, ∀ n ≥ k, ∀ v, program.run (w.fed events n) = .blocked v →
    v.socket.callStatus > 0 ∧
      (Socket.nlRecvmsgs L call).run { v with nl := { v.nl with incoming := [events n] } } =
        .returned code v

/-- A terminal message was dispatched, or a function object threw. -/
def Ending.Answered : Ending π → Prop
  | .ended p _ => ∃ m ∈ p.passed, m.isTerminal = true
  | .thrown .. => True
  | .starved _ => False

/-- The first `n` events answer the request. -/
def AnsweredBy (conduct : Conduct π) (callback : Option Closure) (events : ℕ → Incoming π)
    (w : World π) (n : ℕ) : Prop :=
  (exchangeOf conduct (w.fed events n) callback).Answered

/-- A local failure stops the program. -/
def StopsOnFailure (L : Libnl π) (call : Caller π) (message : Message) (program : SockProg π α)
    (events : ℕ → Incoming π) (w : World π) : Prop :=
  (Unsent L message events w ∨ ∃ k, FailsFrom L call program events w k) → Stops program events w

/-- A request that was not sent is answered all the same, and one whose answer can no longer
be received has been answered before. -/
def AnsweredInTime (L : Libnl π) (conduct : Conduct π) (message : Message)
    (program : SockProg π α) (callback : Option Closure) (events : ℕ → Incoming π)
    (w : World π) : Prop :=
  (Unsent L message events w → ∃ n, AnsweredBy conduct callback events w n) ∧
    ∀ k, FailsFrom L conduct.call program events w k → AnsweredBy conduct callback events w k

/-! ### More events -/

section Exchange

variable (strict : Bool) (fails : List (NlMsg π) → Option Thrown)

/-- An exchange that is over stays as it is when more arrives, and one that waits goes on. -/
theorem exchange_append (multi intr : Bool) (queue : List (Incoming π)) (p : Progress π) :
    match exchange strict fails multi intr queue p with
    | .ended q rest => ∀ more,
        exchange strict fails multi intr (queue ++ more) p = .ended q (rest ++ more)
    | .thrown e q rest => ∀ more,
        exchange strict fails multi intr (queue ++ more) p = .thrown e q (rest ++ more)
    | .starved q => ∃ multi' intr', ∀ more,
        exchange strict fails multi intr (queue ++ more) p =
          exchange strict fails multi' intr' more q := by
  induction queue generalizing multi intr p with
  | nil => exact ⟨multi, intr, fun _ => rfl⟩
  | cons event queue ih =>
      cases event with
      | failure code =>
          simp only [List.cons_append, exchange_failure]
          split_ifs with waiting
          · exact ih false false p
          · exact fun _ => rfl
      | datagram ms =>
          simp only [List.cons_append, exchange_datagram]
          rcases walk strict fails multi intr ms p with ⟨q, i | i | e⟩
          · exact ih true i q
          · dsimp only
            split_ifs with waiting
            · exact ih false false (q.reported i)
            · exact fun _ => rfl
          · exact fun _ => rfl

/-- The status is positive until a terminal message is dispatched. -/
def Progress.Open (p : Progress π) : Prop := p.status > 0 ∨ ∃ m ∈ p.passed, m.isTerminal = true

theorem Progress.Open.pass {p : Progress π} (open_ : p.Open) (m : NlMsg π) : (p.pass m).Open := by
  by_cases terminal : m.isTerminal = true
  · exact .inr ⟨m, by simp [Progress.pass], terminal⟩
  · rcases open_ with waiting | ⟨m', mem, terminal'⟩
    · have data : m.isData = true := by simpa [NlMsg.isTerminal] using terminal
      rw [Progress.pass_data data]
      exact .inl waiting
    · exact .inr ⟨m', List.mem_append_left _ mem, terminal'⟩

theorem walk_open (multi intr : Bool) (ms : List (NlMsg π)) {p : Progress π} (open_ : p.Open) :
    (walk strict fails multi intr ms p).1.Open := by
  induction ms generalizing multi intr p with
  | nil => exact open_
  | cons m ms ih =>
      unfold walk
      split
      · exact open_
      · split
        · split
          · exact open_.pass m
          · exact ih _ _ (open_.pass m)
        · exact ih _ _ (open_.pass m)
        · exact open_.pass m

/-- An exchange that ends has dispatched a terminal message. -/
theorem exchange_answered (multi intr : Bool) (queue : List (Incoming π)) {p : Progress π}
    (open_ : p.Open) {q : Progress π} {rest : List (Incoming π)}
    (ended : exchange strict fails multi intr queue p = .ended q rest) :
    ∃ m ∈ q.passed, m.isTerminal = true := by
  induction queue generalizing multi intr p with
  | nil => cases ended
  | cons event queue ih =>
      cases event with
      | failure code =>
          rw [exchange_failure] at ended
          split_ifs at ended with waiting
          · exact ih _ _ open_ ended
          · cases ended
            exact open_.resolve_left waiting
      | datagram ms =>
          have later := walk_open strict fails multi intr ms open_
          rw [exchange_datagram] at ended
          revert ended later
          rcases walk strict fails multi intr ms p with ⟨q', i | i | e⟩
          · exact fun ended later => ih _ _ later ended
          · intro ended later
            dsimp only at ended
            split_ifs at ended with waiting
            · exact ih _ _ (p := q'.reported i) later ended
            · cases ended
              exact later.resolve_left waiting
          · intro ended
            cases ended

end Exchange

/-! ### Failures that stay -/

section Failing

variable {L : Libnl π} {conduct : Conduct π} {w : World π}

/-- In an exchange that waits, a call that fails and does nothing uses up one event, and the
exchange waits on. -/
theorem exchange_stuck {q : Progress π} {event : Incoming π} (waiting : q.status > 0) {code : ℤ}
    (negative : code < 0)
    (stuck : (Socket.nlRecvmsgs L conduct.call).run (q.world w [event]) =
      .returned code (q.world w []))
    (multi intr : Bool) :
    ∃ q', exchange (!w.socket.acceptAll) (conduct.fails w.trace w.socket.validCallback) multi intr
      [event] q = .starved q' := by
  rw [Socket.nlRecvmsgs_run] at stuck
  change (readThen (L.parse (Socket.callbacks conduct.call w.socket.acceptAll) false false)).run
    (q.world w [event]) = _ at stuck
  cases event with
  | failure c => exact ⟨q, by rw [exchange_failure, if_pos waiting, exchange_nil]⟩
  | datagram ms =>
      rw [read_datagram] at stuck
      cases ms with
      | nil =>
          -- An empty datagram is not an error.
          rw [L.parse_end] at stuck
          cases stuck
          exact absurd negative (by decide)
      | cons m ms =>
          by_cases refused : (!w.socket.acceptAll) = true ∧ m.seq ≠ q.expect
          · refine ⟨q.reported intr, ?_⟩
            rw [exchange_datagram, walk, if_pos refused]
            dsimp only
            rw [if_pos waiting, exchange_nil]
          · -- An accepted message is dispatched, so the call does something.
            have accepted : (!w.socket.acceptAll) = true → m.seq = q.expect := by
              intro checked
              by_contra other
              exact refused ⟨checked, other⟩
            have dispatched := walk_accepts (!w.socket.acceptAll)
              (conduct.fails w.trace w.socket.validCallback) accepted false false ms
            have worked := parse_walk L conduct w false false (m :: ms) q []
            revert dispatched worked
            rcases walk (!w.socket.acceptAll) (conduct.fails w.trace w.socket.validCallback) false
              false (m :: ms) q with ⟨q', i | i | e⟩
            · intro _ worked
              rw [worked, readThen_nil rfl] at stuck
              cases stuck
            · rintro dispatched ⟨code', worked⟩
              rw [worked] at stuck
              have same := congrArg World.nl (Outcome.returned.inj stuck).2
              have passed : q'.passed = q.passed :=
                List.append_cancel_left (congrArg NlSock.dispatched same)
              have longer := dispatched.length_le
              simp only [Progress.pass, passed, List.length_append, List.length_singleton] at longer
              omega
            · intro _ worked
              rw [worked] at stuck
              cases stuck

end Failing

/-! ### What a call waits for -/

section Waits

variable {L : Libnl π} {conduct : Conduct π} {message : Message} {callback : Option Closure}
  {events : ℕ → Incoming π} {w : World π}

theorem fed_succ (n : ℕ) : (w.fed events (n + 1)).nl.incoming =
    (w.fed events n).nl.incoming ++ [events n] := by
  simp [World.fed, World.arrive, List.range_succ]

/-- One more event: an exchange that is over stays as it is, one that waits goes on with it. -/
theorem exchangeOf_fed_succ (conduct : Conduct π) (callback : Option Closure)
    (events : ℕ → Incoming π) (w : World π) (n : ℕ) :
    match exchangeOf conduct (w.fed events n) callback with
    | .ended q rest =>
        exchangeOf conduct (w.fed events (n + 1)) callback = .ended q (rest ++ [events n])
    | .thrown e q rest =>
        exchangeOf conduct (w.fed events (n + 1)) callback = .thrown e q (rest ++ [events n])
    | .starved q => ∃ multi intr, exchangeOf conduct (w.fed events (n + 1)) callback =
        exchange (!w.socket.acceptAll) (conduct.fails w.trace callback) multi intr [events n] q := by
  have more : exchangeOf conduct (w.fed events (n + 1)) callback =
      exchange (!w.socket.acceptAll) (conduct.fails w.trace callback) false false
        ((w.fed events n).nl.incoming ++ [events n]) (.start w.nl.seqExpect) := by
    rw [← fed_succ]
    rfl
  have now : exchangeOf conduct (w.fed events n) callback =
      exchange (!w.socket.acceptAll) (conduct.fails w.trace callback) false false
        (w.fed events n).nl.incoming (.start w.nl.seqExpect) := rfl
  have appended := exchange_append (!w.socket.acceptAll) (conduct.fails w.trace callback) false
    false (w.fed events n).nl.incoming (.start w.nl.seqExpect)
  rw [more, now]
  revert appended
  cases exchange (!w.socket.acceptAll) (conduct.fails w.trace callback) false false
      (w.fed events n).nl.incoming (.start w.nl.seqExpect) with
  | ended q rest => exact fun appended => appended _
  | thrown e q rest => exact fun appended => appended _
  | starved q =>
      rintro ⟨multi, intr, appended⟩
      exact ⟨multi, intr, appended _⟩

theorem answeredBy_iff {n : ℕ} : AnsweredBy conduct callback events w n ↔
    ∀ q, exchangeOf conduct (w.fed events n) callback ≠ .starved q := by
  unfold AnsweredBy
  cases ending : exchangeOf conduct (w.fed events n) callback with
  | ended p rest =>
      have start : (Progress.start w.nl.seqExpect : Progress π).Open := .inl Int.one_pos
      simpa [Ending.Answered] using exchange_answered _ _ _ _ _ start ending
  | thrown e p rest => simp [Ending.Answered]
  | starved q => simp [Ending.Answered]

/-- The program is the exchange with this callback. -/
def Exchanges (L : Libnl π) (conduct : Conduct π) (message : Message) (callback : Option Closure)
    (program : SockProg π α) (events : ℕ → Incoming π) (w : World π) : Prop :=
  ∀ n, ∃ result : List (NlMsg π) → α, program.run (w.fed events n) =
    (exchangeOf conduct (w.fed events n) callback).comeBack L message (w.fed events n) callback
      result

variable {program : SockProg π α}

theorem Exchanges.blocked (exchanges : Exchanges L conduct message callback program events w)
    {n : ℕ} {q : Progress π} (starved : exchangeOf conduct (w.fed events n) callback = .starved q) :
    program.run (w.fed events n) =
      .blocked (q.world ((w.fed events n).during L message callback) []) := by
  obtain ⟨result, refined⟩ := exchanges n
  rw [refined, starved]
  rfl

/-- A program stops exactly when its request is answered. -/
theorem Exchanges.stops_iff (exchanges : Exchanges L conduct message callback program events w) :
    Stops program events w ↔ ∃ n, AnsweredBy conduct callback events w n := by
  refine exists_congr fun n => ?_
  rw [answeredBy_iff]
  obtain ⟨result, refined⟩ := exchanges n
  rw [refined]
  cases exchangeOf conduct (w.fed events n) callback with
  | ended p rest => simp [Ending.comeBack]
  | thrown e p rest => simp [Ending.comeBack]
  | starved q => simp [Ending.comeBack]

/-- **Once every read fails it is too late**: a request that is not answered by then is never
answered. -/
theorem FailsFrom.never (exchanges : Exchanges L conduct message callback program events w) {k : ℕ}
    (failing : FailsFrom L conduct.call program events w k)
    (unanswered : ¬AnsweredBy conduct callback events w k) {n : ℕ} (later : k ≤ n) :
    ¬AnsweredBy conduct callback events w n := by
  obtain ⟨code, negative, stuck⟩ := failing
  induction n, later using Nat.le_induction with
  | base => exact unanswered
  | succ n later ih =>
      simp only [answeredBy_iff, ne_eq, not_forall, not_not] at ih ⊢
      obtain ⟨q, starved⟩ := ih
      obtain ⟨waiting, call⟩ := stuck n later _ (exchanges.blocked starved)
      have goesOn := exchangeOf_fed_succ conduct callback events w n
      rw [starved] at goesOn
      obtain ⟨multi, intr, goesOn⟩ := goesOn
      rw [goesOn]
      exact exchange_stuck waiting negative call multi intr

theorem AnsweredBy.later {n : ℕ} (answered : AnsweredBy conduct callback events w n) {m : ℕ}
    (later : n ≤ m) : AnsweredBy conduct callback events w m := by
  induction m, later using Nat.le_induction with
  | base => exact answered
  | succ m later ih =>
      rw [answeredBy_iff] at ih ⊢
      intro q starved
      have kept := exchangeOf_fed_succ conduct callback events w m
      cases ending : exchangeOf conduct (w.fed events m) callback with
      | starved q' => exact ih q' ending
      | ended p rest =>
          rw [ending, starved] at kept
          cases kept
      | thrown e p rest =>
          rw [ending, starved] at kept
          cases kept

theorem Exchanges.stopsOnFailure_iff
    (exchanges : Exchanges L conduct message callback program events w) :
    StopsOnFailure L conduct.call message program events w ↔
      AnsweredInTime L conduct message program callback events w := by
  constructor
  · intro stops
    refine ⟨fun unsent => exchanges.stops_iff.mp (stops (.inl unsent)), fun k failing => ?_⟩
    by_contra unanswered
    obtain ⟨n, answered⟩ := exchanges.stops_iff.mp (stops (.inr ⟨k, failing⟩))
    rcases Nat.le_total n k with earlier | later
    · exact unanswered (answered.later earlier)
    · exact failing.never exchanges unanswered later answered
  · rintro ⟨unsent, failing⟩ (sent | ⟨k, fails⟩)
    · exact exchanges.stops_iff.mpr (unsent sent)
    · exact exchanges.stops_iff.mpr ⟨k, failing k fails⟩

end Waits

theorem sendMessageSync_exchanges (L : Libnl π) (conduct : Conduct π) (message : Message)
    (events : ℕ → Incoming π) (w : World π) :
    Exchanges L conduct message w.socket.validCallback
      (Socket.sendMessageSync L conduct.call message) events w :=
  fun n => ⟨_, sendMessageSync_exchange L conduct message (w.fed events n)⟩

theorem sendMessageSyncWith_exchanges (L : Libnl π) (conduct : Conduct π) (message : Message)
    (callback : Option Closure) (events : ℕ → Incoming π) (w : World π) :
    Exchanges L conduct message callback
      (Socket.sendMessageSyncWith L conduct.call message callback) events w :=
  fun n => ⟨_, sendMessageSyncWith_exchange L conduct message (w.fed events n) callback⟩

/-- **A local failure stops a request** exactly when the request is answered all the same: at
some time when it was not sent, and before the failure when nothing can be received. -/
theorem stops_on_failure_iff (L : Libnl π) (conduct : Conduct π) (message : Message)
    (callback : Option Closure) (events : ℕ → Incoming π) (w : World π) :
    (StopsOnFailure L conduct.call message (Socket.sendMessageSync L conduct.call message) events
        w ↔
      AnsweredInTime L conduct message (Socket.sendMessageSync L conduct.call message)
        w.socket.validCallback events w) ∧
    (StopsOnFailure L conduct.call message
        (Socket.sendMessageSyncWith L conduct.call message callback) events w ↔
      AnsweredInTime L conduct message
        (Socket.sendMessageSyncWith L conduct.call message callback) callback events w) :=
  ⟨(sendMessageSync_exchanges L conduct message events w).stopsOnFailure_iff,
    (sendMessageSyncWith_exchanges L conduct message callback events w).stopsOnFailure_iff⟩

/-! ### A socket that fails -/

/-- A libnl that cannot send. -/
def Libnl.mute (π : Type) : Libnl π :=
  { Libnl.reference π with
    nlSendAuto := fun m s => (-4, ((Libnl.reference π).nlSendAuto m s).2)
    send_fresh := (Libnl.reference π).send_fresh
    send_numbered := (Libnl.reference π).send_numbered }

theorem exchange_failures (strict : Bool) (fails : List (NlMsg π) → Option Thrown)
    (code : ℕ) {queue : List (Incoming π)} (failing : ∀ event ∈ queue, event = .failure code)
    {p : Progress π} (waiting : p.status > 0) (multi intr : Bool) :
    exchange strict fails multi intr queue p = .starved p := by
  induction queue generalizing multi intr with
  | nil => rfl
  | cons event queue ih =>
      obtain ⟨first, rest⟩ := List.forall_mem_cons.mp failing
      rw [first, exchange_failure, if_pos waiting]
      exact ih rest false false

/-- A request that cannot be sent, on a socket that cannot be read. -/
theorem failures_wait_forever :
    Unsent (.mute Unit) Ctrl.dumpFamilies (fun _ => .failure 4) (World.opened Unit 5 0) ∧
      FailsFrom (.mute Unit) Conduct.quiet.call
        (Socket.sendMessageSync (.mute Unit) Conduct.quiet.call Ctrl.dumpFamilies)
        (fun _ => .failure 4) (World.opened Unit 5 0) 0 ∧
      ¬Stops (Socket.sendMessageSync (.mute Unit) Conduct.quiet.call Ctrl.dumpFamilies)
        (fun _ => .failure 4) (World.opened Unit 5 0) := by
  have exchanges := sendMessageSync_exchanges (.mute Unit) .quiet Ctrl.dumpFamilies
    (fun _ => .failure 4) (World.opened Unit 5 0)
  have starved (n : ℕ) : exchangeOf .quiet ((World.opened Unit 5 0).fed (fun _ => .failure 4) n)
      (World.opened Unit 5 0).socket.validCallback = .starved (.start 5) := by
    refine exchange_failures _ _ 4 ?_ Int.one_pos false false
    simp [World.fed, World.arrive, World.opened]
  refine ⟨fun _ => (by decide : (-4 : ℤ) < 0), ⟨-4, by decide, fun n _ v waiting => ?_⟩, ?_⟩
  · rw [exchanges.blocked (starved n)] at waiting
    cases waiting
    refine ⟨Int.one_pos, ?_⟩
    rw [Socket.nlRecvmsgs_run]
    exact readThen_failure rfl
  · rw [exchanges.stops_iff]
    rintro ⟨n, answered⟩
    exact answeredBy_iff.mp answered _ (starved n)

end Nlcpp
