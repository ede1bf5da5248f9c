import Nlcpp.Ctrl
import Nlcpp.Reference

/-!
Who is handed which message.

`exact_delivery_iff` is about a request whose whole answer lies in the queue;
`separated_iff` about requests on a socket that also receives multicast events.
-/

namespace Nlcpp

/-! ### The answer is taken exactly -/

section Taken

variable {π : Type} {n : UInt32}

theorem mem_of_pass_first {p : Progress π} {m : NlMsg π} {ms : List (NlMsg π)}
    (first : (p.pass m).passed <+: p.passed ++ ms) : m ∈ ms :=
  ((List.prefix_append_right_inj p.passed).mp first).subset (List.mem_singleton_self m)

/-- Without the sequence check, the first message in the queue is among those taken. -/
theorem first_taken {multi intr : Bool} {p : Progress π} {m : NlMsg π} {ms : List (NlMsg π)}
    {rest : List (Incoming π)} {took : List (NlMsg π)}
    (taken : (exchange false calm multi intr (.datagram (m :: ms) :: rest) p).progress.passed =
      p.passed ++ took) : m ∈ took := by
  have reached := (walk_accepts false calm (p := p) (m := m) (fun checked => by cases checked)
    multi intr ms).trans (walk_prefix_exchange false calm multi intr (m :: ms) rest p)
  rw [taken] at reached
  exact mem_of_pass_first reached

/-- Without the sequence check, an exchange that dispatches its answer and
nothing else had a clean queue. -/
theorem clean_of_taken (a : Answer π n) (multi intr : Bool) {p : Progress π}
    (waiting : p.status > 0)
    (taken : (exchange false calm multi intr a.queue p).progress.passed =
      p.passed ++ (a.delivered ++ [a.terminal])) : a.Clean := by
  obtain ⟨before, data, terminal, tail, after, precedes, own, isData, isTerminal⟩ := a
  simp only [Answer.queue, Answer.delivered] at taken
  suffices (∀ event ∈ before, Unmixed n event) ∧ (terminal.body = .done → tail = []) from
    ⟨this.1, this.2⟩
  induction before generalizing multi intr p with
  | nil =>
      constructor
      · simp
      intro body
      cases tail with
      | nil => rfl
      | cons m tail =>
          -- DONE goes on with the datagram, and nothing keeps `m` out.
          obtain ⟨multi', intr', heard⟩ := walk_hear false (p := p) isData
            (fun checked => by cases checked) (terminal :: m :: tail) multi intr
          have reached := walk_prefix_exchange false calm multi intr
            (data ++ terminal :: m :: tail) after p
          rw [heard, walk, if_neg (by simp), body] at reached
          have ran := (walk_accepts false calm
            (p := (p.hear data).pass terminal) (fun checked => by cases checked) false
            (intr' || terminal.dumpIntr) tail).trans reached
          have := ran.length_le
          rw [List.nil_append] at taken
          rw [taken] at this
          simp [Progress.pass, Progress.hear] at this
  | cons event before ih =>
      obtain ⟨first, others⟩ := List.forall_mem_cons.mp precedes
      cases event with
      | failure code =>
          rw [List.cons_append, exchange_failure, if_pos waiting] at taken
          obtain ⟨unmixed, last⟩ := ih false false waiting others taken
          exact ⟨List.forall_mem_cons.mpr ⟨trivial, unmixed⟩, last⟩
      | datagram ms =>
          have unmixed : Unmixed n (.datagram ms) := by
            rcases first with ownData | stale
            · exact fun m mem => (ownData m mem).1
            · cases ms with
              | nil => exact fun m mem => absurd mem List.not_mem_nil
              | cons m ms =>
                  -- The stale message is dispatched first, but only own messages are.
                  refine absurd ?_ (stale m (List.mem_cons_self ..))
                  rcases List.mem_append.mp (first_taken taken) with mem | mem
                  · rcases List.mem_append.mp mem with mem | mem
                    · obtain ⟨event, -, ofEvent⟩ := List.mem_flatMap.mp mem
                      exact seq_of_ownOf ofEvent
                    · exact own m (List.mem_append_left _ mem)
                  · exact own m (by simp [List.mem_singleton.mp mem])
          obtain ⟨i, on | back⟩ := walk_precedes false (p := p) first
            (fun checked => by cases checked) (fun _ => unmixed) multi intr
          · rw [List.cons_append, exchange_datagram, on] at taken
            obtain ⟨rest, last⟩ := ih true i (p := p.hear (ownOf n (.datagram ms))) waiting others
              (by simpa [Progress.hear] using taken)
            exact ⟨List.forall_mem_cons.mpr ⟨unmixed, rest⟩, last⟩
          · rw [List.cons_append, exchange_datagram, back] at taken
            dsimp only at taken
            rw [if_pos (show (p.hear (ownOf n (.datagram ms))).status > 0 from waiting)] at taken
            obtain ⟨rest, last⟩ := ih false false
              (p := (p.hear (ownOf n (.datagram ms))).reported i) waiting others
              (by simpa [Progress.hear, Progress.reported] using taken)
            exact ⟨List.forall_mem_cons.mpr ⟨unmixed, rest⟩, last⟩

/-- The queue suits the socket: with the sequence check the request's number is
the expected one, without it the queue is clean. -/
def Answer.Suits (a : Answer π n) (w : World π) : Prop :=
  if w.socket.acceptAll then a.Clean else w.nl.seqExpect = n

/-- **A call takes exactly its answer if and only if the queue suits the socket.** -/
theorem exchange_taken_iff (a : Answer π n) (w : World π) :
    (∃ q, exchange (!w.socket.acceptAll) calm false false a.queue (.start w.nl.seqExpect) =
        .ended q a.after ∧ q.passed = a.delivered ++ [a.terminal]) ↔ a.Suits w := by
  unfold Answer.Suits
  constructor
  · rintro ⟨q, ends, passed⟩
    cases checked : w.socket.acceptAll with
    | true =>
        rw [checked] at ends
        refine clean_of_taken a false false (p := .start w.nl.seqExpect) Int.one_pos ?_
        exact (congrArg (fun e => e.progress.passed) ends).trans passed
    | false =>
        rw [checked] at ends
        -- The first message dispatched is one of the request's, and it was expected.
        have first := exchange_first calm false false a.queue (.start w.nl.seqExpect)
        rw [show exchange true calm false false a.queue (.start w.nl.seqExpect) = _ from ends,
          Ending.progress_ended, passed] at first
        have ownAll : ∀ m ∈ a.delivered ++ [a.terminal], m.seq = n := by
          intro m mem
          rcases List.mem_append.mp mem with mem | mem
          · exact (a.delivered_own m mem).1
          · exact a.own m (by simp [List.mem_singleton.mp mem])
        rcases first with nothing | ⟨m, more, taken, expected⟩
        · simp [Progress.start] at nothing
        · rw [taken] at ownAll
          exact expected.symm.trans (ownAll m (by simp))
  · intro suits
    have expects : (!w.socket.acceptAll) = true → w.nl.seqExpect = n := by
      intro checked
      rwa [if_neg (by simpa using checked)] at suits
    have clean : (!w.socket.acceptAll) = false → a.Clean := by
      intro off
      rwa [if_pos (by simpa using off)] at suits
    obtain ⟨q, ends, -, passed, -⟩ := exchange_answer a false false
      (p := .start w.nl.seqExpect) expects clean Int.one_pos
    exact ⟨q, ends, by simpa [Progress.start] using passed⟩

end Taken

/-! ### Exact delivery -/

section Exact

variable {π α : Type} {n : UInt32}

/-- A call that started in `w` returned a right value; it handed the answer's
data messages to `listener` and no other message to anybody, dispatched the
answer up to its terminal message, received nothing beyond that message's
datagram, and left the handler as it was. -/
def DeliversExactly (a : Answer π n) (listener : Closure) (w : World π) (right : α → Prop) :
    Outcome Thrown (World π) α → Prop
  | .returned r w' => right r ∧
      w'.trace = w.trace ++ a.delivered.map (.handed listener) ∧
      w'.nl.dispatched = w.nl.dispatched ++ (a.delivered ++ [a.terminal]) ∧
      w'.nl.incoming = a.after ∧
      w'.socket.validCallback = w.socket.validCallback
  | .threw .. => False
  | .blocked .. => False

theorem comeBack_delivers_iff (L : Libnl π) (message : Message) (w : World π) (a : Answer π n)
    (listener : Closure) {right : α → Prop} {result : List (NlMsg π) → α}
    (sound : right (result (a.delivered ++ [a.terminal]))) (ending : Ending π) :
    DeliversExactly a listener w right (ending.comeBack L message w (some listener) result) ↔
      ∃ q, ending = .ended q a.after ∧ q.passed = a.delivered ++ [a.terminal] := by
  have handed : handedTo (some listener) (a.delivered ++ [a.terminal]) =
      a.delivered.map (.handed listener) := by
    have allData : a.delivered.filter NlMsg.isData = a.delivered :=
      List.filter_eq_self.mpr fun m mem => (a.delivered_own m mem).2
    rw [handedTo_append, handedTo_terminal (by simpa [NlMsg.isTerminal] using a.isTerminal)]
    simp [handedTo, allData]
  cases ending with
  | thrown e p rest => simp [Ending.comeBack, DeliversExactly]
  | starved p => simp [Ending.comeBack, DeliversExactly]
  | ended p rest =>
      constructor
      · rintro ⟨-, -, dispatched, incoming, -⟩
        refine ⟨p, by rw [← incoming]; rfl, ?_⟩
        simpa [Progress.world] using dispatched
      · rintro ⟨q, ends, passed⟩
        cases ends
        refine ⟨by rw [passed]; exact sound, ?_, ?_, rfl, rfl⟩
        · simp only [Progress.world, World.during, passed, handed]
        · simp [Progress.world, passed]

/-- The replies in an answer: the payloads of its data messages up to the
terminal message. -/
theorem payloads_answer (a : Answer π n) :
    (a.delivered ++ [a.terminal]).filterMap NlMsg.payload? =
      a.delivered.filterMap NlMsg.payload? := by
  have terminal := a.isTerminal
  rw [List.filterMap_append]
  cases body : a.terminal.body with
  | data p => simp [NlMsg.isTerminal, NlMsg.isData, body] at terminal
  | done => simp [NlMsg.payload?, body]
  | error e => simp [NlMsg.payload?, body]

end Exact

/-- **Delivery is exact if and only if the answer suits the socket.** This holds
of a request with a callback that does not throw, and of the two dumps, which
return one entry for each message delivered, in order. -/
theorem exact_delivery_iff (L : Libnl Reply) (N : Nla) (conduct : Conduct Reply)
    (w : World Reply) (a : Answer Reply w.nl.seqNext) (message : Message)
    (callback lambda : Closure) (attrMax : ℕ) (family : ℤ) (fresh : message.seq = 0)
    (silent : ∀ trace m, conduct trace callback m = none) (arrived : w.nl.incoming = a.queue) :
    (DeliversExactly a callback w (fun sent => sent.seq = w.nl.seqNext)
        ((GenericSocket.sendMessageSync L conduct.call message callback).run w) ↔ a.Suits w) ∧
    (DeliversExactly a lambda w
        (· = (a.delivered.filterMap NlMsg.payload?).map (Ctrl.parseGenericFamily N {}))
        ((Ctrl.getFamilies L N conduct.call lambda).run w) ↔ a.Suits w) ∧
    (DeliversExactly a lambda w
        (· = (a.delivered.filterMap NlMsg.payload?).map
          (Nl80211.parseInterfaceConfiguration N attrMax {}))
        ((Nl80211.getInterfaces L N conduct.call attrMax family lambda).run w) ↔ a.Suits w) := by
  have lambdaSilent := conduct.sparing_silent lambda
  refine ⟨?_, ?_, ?_⟩
  · rw [GenericSocket.sendMessageSync, sendMessageSyncWith_exchange,
      comeBack_delivers_iff L message w a callback (L.send_fresh message w.nl fresh).1,
      exchangeOf, Conduct.fails_calm silent, arrived, exchange_taken_iff]
  · rw [getFamilies_exchange,
      comeBack_delivers_iff L _ w a lambda (by rw [payloads_answer]),
      exchangeOf, Conduct.fails_calm lambdaSilent, arrived, exchange_taken_iff]
  · rw [getInterfaces_exchange,
      comeBack_delivers_iff L _ w a lambda (by rw [payloads_answer]),
      exchangeOf, Conduct.fails_calm lambdaSilent, arrived, exchange_taken_iff]

/-- A message of request `n` with the given body. -/
def NlMsg.of (n : UInt32) (body : Body Reply) : NlMsg Reply :=
  { seq := n, multi := false, dumpIntr := false, body }

/-- A family reply that names the family. -/
def namedReply (name : List UInt8) : Reply :=
  { cmd := 1, version := 2, attrs := Reference.attrBytes 2 (name ++ [0]), beyond := [] }

/-- The answer to request 5: a stale message and a failed read, two replies, a
DONE with something behind it, and another datagram. -/
def dumpFive : Answer Reply 5 where
  before := [.datagram [.of 4 (.data (namedReply [120]))], .failure 7,
    .datagram [{ NlMsg.of 5 (.data (namedReply [97])) with multi := true }]]
  data := [{ NlMsg.of 5 (.data (namedReply [98])) with multi := true }]
  terminal := .of 5 .done
  tail := [.of 5 (.data (namedReply [121]))]
  after := [.datagram [.of 6 .done]]
  precedes := by simp [Precedes, NlMsg.of, NlMsg.isData]
  own := by decide
  isData := by decide
  isTerminal := rfl

theorem exact_delivery_on_new_socket :
    DeliversExactly dumpFive 2 ((World.opened Reply 5 0).arrive dumpFive.queue)
      (· = (dumpFive.delivered.filterMap NlMsg.payload?).map
        (Ctrl.parseGenericFamily .reference {}))
      ((Ctrl.getFamilies (.reference Reply) .reference Conduct.quiet.call 2).run
        ((World.opened Reply 5 0).arrive dumpFive.queue)) :=
  (exact_delivery_iff (.reference Reply) .reference .quiet
    ((World.opened Reply 5 0).arrive dumpFive.queue) dumpFive Ctrl.dumpFamilies 1 2 300 28 rfl
    (fun _ _ => rfl) rfl).2.1.mpr rfl

/-- Nothing but the ACK to request `n`. -/
def ack (n : UInt32) : Answer Reply n where
  before := []
  data := []
  terminal := .of n (.error 0)
  tail := []
  after := []
  precedes := by simp
  own := by simp [NlMsg.of]
  isData := by simp
  isTerminal := rfl

/-- On a new socket that has exchanged a message with the explicit number 5, a
fresh request is sent with number 5 again, and its ACK is not taken. -/
theorem explicit_number_blocks_next_delivery :
    ∃ w : World Reply,
      (GenericSocket.sendMessageSync (.reference Reply) Conduct.quiet.call
          { Ctrl.dumpFamilies with seq := 5 } 1).run
            ((World.opened Reply 5 0).arrive (ack 5).queue) =
        .returned { Ctrl.dumpFamilies with seq := 5 } w ∧
      (w.arrive (ack 5).queue).nl.incoming = (ack 5).queue ∧
      (w.arrive (ack 5).queue).nl.groups = ∅ ∧ w.nl.seqNext = 5 ∧
      ¬DeliversExactly (ack 5) 2 (w.arrive (ack 5).queue) (fun _ => True)
        ((GenericSocket.sendMessageSync (.reference Reply) Conduct.quiet.call
          Ctrl.dumpFamilies 2).run (w.arrive (ack 5).queue)) :=
  ⟨_, rfl, rfl, rfl, rfl, fun delivered => delivered⟩

/-! ### Requests and events -/

section Separate

variable {α : Type}

/-- The data messages dispatched between two states. -/
def World.dataSince (w w' : World Reply) : List (NlMsg Reply) :=
  (w'.nl.dispatched.drop w.nl.dispatched.length).filter NlMsg.isData

/-- A call with number `n` that started in `w` kept replies and events apart:
each data message dispatched was handed to `listener` if it carries the number,
and to the handler installed before otherwise; and a result is right for the
call's own replies. -/
structure Separated (n : UInt32) (listener : Closure) (w : World Reply)
    (right : List Reply → α → Prop) (o : Outcome Thrown (World Reply) α) : Prop where
  routed : o.state.trace = w.trace ++ (w.dataSince o.state).filterMap fun m =>
    (if m.seq = n then some listener else w.socket.validCallback).map fun target =>
      .handed target m
  result : ∀ r w', o = .returned r w' →
    right (((w.dataSince w').filter fun m => m.seq = n).filterMap NlMsg.payload?) r

/-- The data messages of `passed` all carry the number `n`. -/
def AllOwn (n : UInt32) (passed : List (NlMsg Reply)) : Prop :=
  ∀ m ∈ passed, m.isData = true → m.seq = n

instance (n : UInt32) (passed : List (NlMsg Reply)) : Decidable (AllOwn n passed) :=
  inferInstanceAs (Decidable (∀ m ∈ passed, m.isData = true → m.seq = n))

theorem filterMap_payload_isData (passed : List (NlMsg Reply)) :
    (passed.filter NlMsg.isData).filterMap NlMsg.payload? = passed.filterMap NlMsg.payload? := by
  rw [List.filterMap_filter]
  congr 1
  funext m
  cases body : m.body <;> simp [NlMsg.isData, NlMsg.payload?, body]

theorem comeBack_separated_iff (L : Libnl Reply) (message : Message) (w : World Reply)
    {n : UInt32} {listener handler : Closure}
    (installed : w.socket.validCallback = some handler) (other : listener ≠ handler)
    (right : List Reply → α → Prop) (result : List (NlMsg Reply) → α)
    (sound : ∀ passed, right (passed.filterMap NlMsg.payload?) (result passed))
    (ending : Ending Reply) :
    Separated n listener w right (ending.comeBack L message w (some listener) result) ↔
      AllOwn n ending.progress.passed := by
  -- Whatever the ending, the messages it passed were dispatched and handed to the listener.
  have reached : (ending.comeBack L message w (some listener) result).state.nl.dispatched =
        w.nl.dispatched ++ ending.progress.passed ∧
      (ending.comeBack L message w (some listener) result).state.trace =
        w.trace ++ handedTo (some listener) ending.progress.passed := by
    cases ending <;> exact ⟨by simp [Ending.comeBack, Progress.world], rfl⟩
  have since : w.dataSince (ending.comeBack L message w (some listener) result).state =
      ending.progress.passed.filter NlMsg.isData := by
    rw [World.dataSince, reached.1, List.drop_left]
  have toEither : (fun m : NlMsg Reply =>
      (if m.seq = n then some listener else w.socket.validCallback).map fun target =>
        Event.handed target m) =
      some ∘ fun m => .handed (if m.seq = n then listener else handler) m := by
    funext m
    rw [installed]
    by_cases own : m.seq = n <;> simp [own]
  have routed : (handedTo (some listener) ending.progress.passed =
      (ending.progress.passed.filter NlMsg.isData).filterMap fun m =>
        (if m.seq = n then some listener else w.socket.validCallback).map fun target =>
          Event.handed target m) ↔ AllOwn n ending.progress.passed := by
    rw [toEither, List.filterMap_eq_map]
    simp only [handedTo, List.map_inj_left, List.mem_filter, and_imp, AllOwn, Event.handed.injEq,
      and_true]
    apply forall₃_congr
    intro m _ _
    by_cases own : m.seq = n
    · simp [own]
    · simp [own, other]
  constructor
  · rintro ⟨route, -⟩
    rw [since, reached.2] at route
    exact routed.mp (List.append_cancel_left route)
  · intro allOwn
    constructor
    · rw [since, reached.2, routed.mpr allOwn]
    intro r w' back
    have all : (ending.progress.passed.filter NlMsg.isData).filter (fun m => m.seq = n) =
        ending.progress.passed.filter NlMsg.isData := by
      apply List.filter_eq_self.mpr
      intro m mem
      obtain ⟨passed, data⟩ := List.mem_filter.mp mem
      simpa using allOwn m passed data
    rw [back, Outcome.state_returned] at since
    rw [since, all, filterMap_payload_isData]
    cases ending with
    | ended p rest =>
        obtain ⟨rfl, -⟩ : result p.passed = r ∧ _ := by simpa [Ending.comeBack] using back
        exact sound p.passed
    | thrown e p rest => cases back
    | starved p => cases back

end Separate

/-- **Replies and events stay apart if and only if no event is dispatched during
the request**: all data messages that the exchange takes from the queue carry
the request's number. `getFamily` sends nothing when the name cannot be put. -/
theorem separated_iff (L : Libnl Reply) (N : Nla) (conduct : Conduct Reply) (w : World Reply)
    (handler callback lambda : Closure) (message : Message) (name : List UInt8)
    (installed : w.socket.validCallback = some handler) (other : callback ≠ handler)
    (inner : lambda ≠ handler) :
    (Separated (L.nlSendAuto message w.nl).2.1.seq callback w (fun _ _ => True)
        ((GenericSocket.sendMessageSync L conduct.call message callback).run w) ↔
      AllOwn (L.nlSendAuto message w.nl).2.1.seq
        (exchangeOf conduct w (some callback)).progress.passed) ∧
    (Separated w.nl.seqNext lambda w
        (fun own family => family = own.getLast?.map (Ctrl.parseGenericFamily N {}))
        ((Ctrl.getFamily L N conduct.call name lambda).run w) ↔
      ((Encoding.putString N Ctrl.askFamily Ctrl.CTRL_ATTR_FAMILY_NAME name).1 = .ok () →
        AllOwn w.nl.seqNext
          (exchangeOf (conduct.sparing lambda) w (some lambda)).progress.passed)) ∧
    (Separated w.nl.seqNext lambda w
        (fun own families => families = own.map (Ctrl.parseGenericFamily N {}))
        ((Ctrl.getFamilies L N conduct.call lambda).run w) ↔
      AllOwn w.nl.seqNext
        (exchangeOf (conduct.sparing lambda) w (some lambda)).progress.passed) := by
  refine ⟨?_, ?_, ?_⟩
  · rw [GenericSocket.sendMessageSync, sendMessageSyncWith_exchange]
    exact comeBack_separated_iff L message w installed other _ _ (fun _ => trivial) _
  · cases put : (Encoding.putString N Ctrl.askFamily Ctrl.CTRL_ATTR_FAMILY_NAME name).1 with
    | ok u =>
        rw [getFamily_exchange L conduct w put]
        refine (comeBack_separated_iff L _ w installed inner _ _ ?_ _).trans ?_
        · intro _
          rfl
        · constructor
          · intro allOwn _
            exact allOwn
          · intro allOwn
            exact allOwn rfl
    | error e =>
        rw [getFamily_refused L conduct w put]
        constructor
        · intro _ ok
          cases ok
        · intro _
          constructor
          · simp [World.dataSince]
          · intro r w' back
            cases back
  · rw [getFamilies_exchange]
    refine comeBack_separated_iff L _ w installed inner _ _ ?_ _
    exact fun _ => rfl

/-- A socket that has joined group 3, with handler 9 installed. -/
def listening (queue : List (Incoming Reply)) : World Reply :=
  ((do
    Socket.addMembership (.reference Reply) 3 0
    GenericSocket.onValidMessage 9).run ((World.opened Reply 5 0).arrive queue)).state

/-- An event, then the ACK to request 5. -/
def eventThenAck : List (Incoming Reply) :=
  [.datagram [.of 0 (.data (namedReply [101]))], .datagram [.of 5 (.error 0)]]

/-- Two replies and the ACK to request 5, then an event. -/
def repliesThenEvent : List (Incoming Reply) :=
  [.datagram [.of 5 (.data (namedReply [102])), .of 5 (.data (namedReply [103]))],
    .datagram [.of 5 (.error 0)], .datagram [.of 0 (.data (namedReply [101]))]]

theorem separated_from_later_event :
    Separated 5 1 (listening repliesThenEvent) (fun _ _ => True)
        ((GenericSocket.sendMessageSync (.reference Reply) Conduct.quiet.call
          Ctrl.dumpFamilies 1).run (listening repliesThenEvent)) ∧
      Separated 5 2 (listening repliesThenEvent)
        (fun own family => family = own.getLast?.map (Ctrl.parseGenericFamily .reference {}))
        ((Ctrl.getFamily (.reference Reply) .reference Conduct.quiet.call [110] 2).run
          (listening repliesThenEvent)) ∧
      Separated 5 2 (listening repliesThenEvent)
        (fun own families => families = own.map (Ctrl.parseGenericFamily .reference {}))
        ((Ctrl.getFamilies (.reference Reply) .reference Conduct.quiet.call 2).run
          (listening repliesThenEvent)) := by
  obtain ⟨sent, one, all⟩ := separated_iff (.reference Reply) .reference .quiet
    (listening repliesThenEvent) 9 1 2 Ctrl.dumpFamilies [110] rfl (by decide) (by decide)
  exact ⟨sent.mpr (by decide), one.mpr fun _ => by decide, all.mpr (by decide)⟩

/-- The event is handed to the request's callback, and `getFamily` returns it. -/
theorem event_taken_for_reply :
    ¬Separated 5 1 (listening eventThenAck) (fun _ _ => True)
        ((GenericSocket.sendMessageSync (.reference Reply) Conduct.quiet.call
          Ctrl.dumpFamilies 1).run (listening eventThenAck)) ∧
      ∃ w', (Ctrl.getFamily (.reference Reply) .reference Conduct.quiet.call [110] 2).run
        (listening eventThenAck) = .returned (some { name := [101] }) w' :=
  ⟨fun separated => absurd separated.routed (by decide), _, rfl⟩

end Nlcpp
