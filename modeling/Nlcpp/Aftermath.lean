import Nlcpp.Delivery

/-!
What a call leaves behind: the handler slot, and the report of a failure.

`sendMessageSync(message, callback)` puts the handler of before back with a
second swap after the exchange, so an exception out of the exchange skips it.
The status that a kernel error leaves is looked at by nobody.
-/

namespace Nlcpp

variable {π α : Type}

/-! ### The handler slot -/

/-- When the call ends, by returning or by throwing, the slot holds the handler
of before. -/
def Restored (w : World π) : Outcome Thrown (World π) α → Prop
  | .returned _ w' => w'.socket.validCallback = w.socket.validCallback
  | .threw _ w' => w'.socket.validCallback = w.socket.validCallback
  | .blocked _ => True

/-- A call that returns has put the handler of before back, whatever its
callback did to the socket. -/
theorem returned_restores (L : Libnl π) (call : Caller π) (message : Message)
    (callback : Option Closure) (w : World π) {sent : Message} {w' : World π}
    (back : (Socket.sendMessageSyncWith L call message callback).run w = .returned sent w') :
    w'.socket.validCallback = w.socket.validCallback := by
  rw [Socket.sendMessageSyncWith_run] at back
  cases inner : (Socket.sendMessageSync L call message).run
      { w with socket := { w.socket with validCallback := callback } } with
  | returned sent' v =>
      rw [inner] at back
      cases back
      rfl
  | threw e v =>
      rw [inner] at back
      cases back
  | blocked v =>
      rw [inner] at back
      cases back

/-- An exchange that comes back by an exception leaves the request's own
callback in the slot. -/
theorem comeBack_restored_iff (L : Libnl π) (message : Message) (w : World π)
    (callback : Option Closure) (result : List (NlMsg π) → α) (ending : Ending π) :
    Restored w (ending.comeBack L message w callback result) ↔
      (∃ e p rest, ending = .thrown e p rest) → w.socket.validCallback = callback := by
  cases ending with
  | ended p rest => simp [Ending.comeBack, Restored]
  | starved p => simp [Ending.comeBack, Restored]
  | thrown e p rest =>
      simp only [Ending.comeBack, Restored, Progress.world, World.during, Ending.thrown.injEq,
        exists_and_left, exists_eq', and_true, forall_const]
      exact eq_comm

/-- An exchange ends by an exception exactly when a function object throws on a
data message that the exchange would dispatch if none of them threw. -/
theorem exchangeOf_thrown_iff (conduct : Conduct π) (w : World π) (callback : Option Closure) :
    (∃ e p rest, exchangeOf conduct w callback = .thrown e p rest) ↔
      Trips (conduct.fails w.trace callback) []
        (exchangeOf .quiet w callback).progress.passed := by
  have quiet : (Conduct.quiet (π := π)).fails w.trace callback = calm := by
    funext passed
    unfold Conduct.fails
    split <;> rfl
  unfold exchangeOf
  rw [quiet]
  rcases exchange_trips (!w.socket.acceptAll) (conduct.fails w.trace callback) false false
    w.nl.incoming (.start w.nl.seqExpect) with ⟨smooth, same⟩ | ⟨trips, e, q, rest, thrown⟩
  · rw [same]
    constructor
    · rintro ⟨e, q, rest, thrown⟩
      exact (exchange_calm _ _ _ _ _ _ _ _ thrown).elim
    · intro trips
      exact absurd trips smooth
  · constructor
    · intro _
      exact trips
    · intro _
      exact ⟨e, q, rest, thrown⟩

/-- **The handler survives a request if and only if the request's callback throws
on no data message** that the exchange dispatches as long as nothing is thrown
(or the callback is the handler). The library's own requests, whose lambdas do
not throw, always put it back. -/
theorem handler_restored_iff (L : Libnl π) (conduct : Conduct π) (w : World π)
    (message : Message) (callback : Option Closure) :
    (Restored w ((Socket.sendMessageSyncWith L conduct.call message callback).run w) ↔
      (Trips (conduct.fails w.trace callback) []
        (exchangeOf .quiet w callback).progress.passed → w.socket.validCallback = callback)) ∧
    ∀ (lambda : Closure) (body : α → π → α) (result : α), Restored w
      ((GenericSocket.sendMessageSyncLocal L conduct.call message lambda body result).run w) := by
  constructor
  · rw [sendMessageSyncWith_exchange, comeBack_restored_iff, exchangeOf_thrown_iff]
  · intro lambda body result
    rw [sendMessageSyncLocal_exchange, comeBack_restored_iff, exchangeOf_thrown_iff,
      Conduct.fails_calm (conduct.sparing_silent lambda)]
    rintro ⟨d, m, -, -, -, throws⟩
    cases throws

/-- Callback 1 throws on what it is called with. -/
def throwing : Conduct Reply := fun _ closure _ => if closure = 1 then some (.user 0) else none

/-- Handler 9 is installed, the callback of the request throws on its first
reply, and the next message received is handed to that callback. -/
theorem throwing_callback_stays_installed :
    ∃ w, (GenericSocket.sendMessageSync (.reference Reply) throwing.call Ctrl.dumpFamilies 1).run
        (((GenericSocket.onValidMessage 9).run
          ((World.opened Reply 5 0).arrive [.datagram [.of 5 (.data (namedReply []))]])).state) =
        .threw (.user 0) w ∧
      w.socket.validCallback = some 1 ∧
      ((Socket.receiveMessages (.reference Reply) throwing.call).run
        (w.arrive [.datagram [.of 5 (.data (namedReply []))]])).state.trace =
          [.handed 1 (.of 5 (.data (namedReply []))), .handed 1 (.of 5 (.data (namedReply [])))] :=
  ⟨_, rfl, rfl, rfl⟩

/-! ### The report of a failure -/

/-- The exchange came to an end and failed: the kernel answered with an error, or
a dump was reported as interrupted. -/
def Ending.Failed : Ending π → Prop
  | .ended p _ => p.status < 0 ∨ p.interrupted = true
  | .thrown .. => False
  | .starved _ => False

instance : (ending : Ending π) → Decidable ending.Failed
  | .ended p _ => inferInstanceAs (Decidable (p.status < 0 ∨ p.interrupted = true))
  | .thrown .. => .isFalse nofun
  | .starved _ => .isFalse nofun

/-- The call tells how its exchange ended: it throws when the exchange failed,
and returns when it ended well. -/
def Reports (ending : Ending π) (o : Outcome Thrown (World π) α) : Prop :=
  match ending with
  | .ended _ _ => (ending.Failed → ∃ e w', o = .threw e w') ∧
      (¬ending.Failed → ∃ r w', o = .returned r w')
  | .thrown .. => True
  | .starved _ => True

/-- A call that comes back whenever its exchange does reports it only when there
is nothing to report. -/
theorem reports_iff {ending : Ending π} {o : Outcome Thrown (World π) α}
    (back : ∀ p rest, ending = .ended p rest → ∃ r w', o = .returned r w') :
    Reports ending o ↔ ¬ending.Failed := by
  cases ending with
  | thrown e p rest => simp [Reports, Ending.Failed]
  | starved p => simp [Reports, Ending.Failed]
  | ended p rest =>
      obtain ⟨r, w', rfl⟩ := back p rest rfl
      simp [Reports]

theorem comeBack_returns (L : Libnl π) (message : Message) (w : World π)
    (callback : Option Closure) (result : List (NlMsg π) → α) {ending : Ending π}
    (p : Progress π) (rest : List (Incoming π)) (ended : ending = .ended p rest) :
    ∃ r w', ending.comeBack L message w callback result = .returned r w' := by
  cases ended
  exact ⟨_, _, rfl⟩

/-- **A request reports the end of its exchange if and only if the exchange does
not fail.** -/
theorem failure_reported_iff (L : Libnl Reply) (N : Nla) (conduct : Conduct Reply)
    (w : World Reply) (message : Message) (callback : Option Closure) (lambda : Closure)
    (attrMax : ℕ) (family : ℤ) :
    (Reports (exchangeOf conduct w w.socket.validCallback)
        ((Socket.sendMessageSync L conduct.call message).run w) ↔
      ¬(exchangeOf conduct w w.socket.validCallback).Failed) ∧
    (Reports (exchangeOf conduct w callback)
        ((Socket.sendMessageSyncWith L conduct.call message callback).run w) ↔
      ¬(exchangeOf conduct w callback).Failed) ∧
    (Reports (exchangeOf (conduct.sparing lambda) w (some lambda))
        ((Ctrl.getFamilies L N conduct.call lambda).run w) ↔
      ¬(exchangeOf (conduct.sparing lambda) w (some lambda)).Failed) ∧
    (Reports (exchangeOf (conduct.sparing lambda) w (some lambda))
        ((Nl80211.getInterfaces L N conduct.call attrMax family lambda).run w) ↔
      ¬(exchangeOf (conduct.sparing lambda) w (some lambda)).Failed) := by
  refine ⟨reports_iff ?_, reports_iff ?_, reports_iff ?_, reports_iff ?_⟩
  · rw [sendMessageSync_exchange]
    exact comeBack_returns L message w w.socket.validCallback _
  · rw [sendMessageSyncWith_exchange]
    exact comeBack_returns L message w callback _
  · rw [getFamilies_exchange]
    exact comeBack_returns L _ w (some lambda) _
  · rw [getInterfaces_exchange]
    exact comeBack_returns L _ w (some lambda) _

/-- A reply to request 5 with the given flag for an interrupted dump. -/
def dumpReply (dumpIntr : Bool) : NlMsg Reply :=
  { seq := 5, multi := true, dumpIntr, body := .data (namedReply [97]) }

/-- A family dump that the kernel breaks off with an error, one that it reports as
interrupted, and a complete one with the same reply: `getFamilies` returns the
same families. -/
theorem failed_dump_returned :
    (exchangeOf .quiet ((World.opened Reply 5 0).arrive
        [.datagram [dumpReply false, .of 5 (.error (-1))]]) (some 1)).Failed ∧
      (exchangeOf .quiet ((World.opened Reply 5 0).arrive
        [.datagram [dumpReply true, .of 5 .done]]) (some 1)).Failed ∧
      ∀ queue ∈ [[.datagram [dumpReply false, .of 5 (.error (-1))]],
          [.datagram [dumpReply true, .of 5 .done]],
          [.datagram [dumpReply false, .of 5 .done]]],
        ∃ w', (Ctrl.getFamilies (.reference Reply) .reference Conduct.quiet.call 1).run
          ((World.opened Reply 5 0).arrive queue) = .returned [{ name := [97] }] w' := by
  refine ⟨by decide, by decide, ?_⟩
  simp only [List.mem_cons, List.not_mem_nil, or_false, forall_eq_or_imp, forall_eq]
  exact ⟨⟨_, rfl⟩, ⟨_, rfl⟩, ⟨_, rfl⟩⟩

end Nlcpp
