import Nlcpp.World

/-!
The part of libnl that the socket classes rest on.

libnl is not part of the repository, so it enters as a parameter: `Libnl` holds
the functions the classes call and, as its laws, what libnl documents of them.
`nlRecvmsgs` reads a datagram and works it off message by message (`parse`):
sequence check, then the callback of the message's type, whose return code says
whether to go on; at the end of a datagram it reads the next one while a
multipart message is incomplete. `Libnl.reference` is one implementation, so the
laws are consistent and the model can be run.
-/

namespace Nlcpp

variable {π : Type}

/-! ### Callback sets -/

/-- Return codes of callbacks: `NL_OK`, `NL_SKIP`, `NL_STOP`. -/
inductive NlCode where
  | ok | skip | stop
deriving DecidableEq, Repr

/-- After a callback: go on with the datagram, or leave `nl_recvmsgs`. -/
def NlCode.resume {α : Type} (c : NlCode) (rest halt : α) : α :=
  match c with
  | .ok | .skip => rest
  | .stop => halt

@[simp] theorem NlCode.resume_skip {α : Type} (rest halt : α) :
    NlCode.skip.resume rest halt = rest := rfl

@[simp] theorem NlCode.resume_stop {α : Type} (rest halt : α) :
    NlCode.stop.resume rest halt = halt := rfl

/-- `nl_cb`: the callbacks of the kinds that the classes set. -/
structure CallbackSet (π : Type) where
  seqCheck : Option (NlMsg π → SockProg π NlCode)
  valid : NlMsg π → SockProg π NlCode
  finish : NlMsg π → SockProg π NlCode
  ack : NlMsg π → SockProg π NlCode
  err : ℤ → SockProg π NlCode

/-- The sequence check lets the message pass: without a SEQ_CHECK callback it
must carry the expected number, otherwise the callback must return `NL_OK`. -/
def CallbackSet.Accepts (cb : CallbackSet π) (m : NlMsg π) (w : World π) : Prop :=
  match cb.seqCheck with
  | none => m.seq = w.nl.seqExpect
  | some f => (f m).run w = .returned .ok w

/-- The callback of a message's type. -/
def CallbackSet.of (cb : CallbackSet π) (m : NlMsg π) : SockProg π NlCode :=
  match m.body with
  | .data _ => cb.valid m
  | .done => cb.finish m
  | .error code => if code = 0 then cb.ack m else cb.err code

/-- A multipart message is incomplete after this message. -/
def NlMsg.leavesOpen (m : NlMsg π) (multipart : Bool) : Bool :=
  match m.body with
  | .done => false
  | _ => multipart || m.multi

/-- libnl's own bookkeeping for a message that passed the sequence check: the
expected number moves on with every terminal message. -/
def World.dispatch (m : NlMsg π) (w : World π) : World π :=
  { w with nl := { w.nl with
      seqExpect := if m.isTerminal then w.nl.seqExpect + 1 else w.nl.seqExpect
      dispatched := w.nl.dispatched ++ [m] } }

@[simp] theorem World.dispatch_incoming (m : NlMsg π) (w : World π) :
    (w.dispatch m).nl.incoming = w.nl.incoming := rfl

/-- What `nl_recvmsgs` returns when it leaves with `code`: a dump that was
interrupted is reported before anything else. -/
def report (interrupted : Bool) (code : ℤ) : ℤ :=
  if interrupted then -(NLE_DUMP_INTR : ℤ) else code

/-- One `nl_recv` on a blocking socket: wait for the next receive event, give up
on a failed read, work off a datagram. -/
def readThen (parse : List (NlMsg π) → SockProg π ℤ) : SockProg π ℤ where
  run w :=
    match w.nl.incoming with
    | [] => .blocked w
    | .failure code :: rest => .returned (-(code : ℤ)) { w with nl := { w.nl with incoming := rest } }
    | .datagram msgs :: rest => (parse msgs).run { w with nl := { w.nl with incoming := rest } }
  later w := by
    split
    · exact le_refl w
    · next rest hin => exact World.le_iff.mpr (hin ▸ List.suffix_cons _ rest)
    · next rest hin =>
        refine le_trans (Prog.later _ _) ?_
        exact World.le_iff.mpr (hin ▸ List.suffix_cons _ rest)

section Read

variable {parse : List (NlMsg π) → SockProg π ℤ} {w : World π}

theorem readThen_nil (h : w.nl.incoming = []) : (readThen parse).run w = .blocked w := by
  simp [readThen, h]

theorem readThen_failure {code : ℕ} {rest : List (Incoming π)}
    (h : w.nl.incoming = .failure code :: rest) :
    (readThen parse).run w =
      .returned (-(code : ℤ)) { w with nl := { w.nl with incoming := rest } } := by
  simp [readThen, h]

theorem readThen_datagram {msgs : List (NlMsg π)} {rest : List (Incoming π)}
    (h : w.nl.incoming = .datagram msgs :: rest) :
    (readThen parse).run w = (parse msgs).run { w with nl := { w.nl with incoming := rest } } := by
  simp [readThen, h]

/-- Reading on depends on what is done with fewer events left. -/
theorem readThen_congr {parse' : List (NlMsg π) → SockProg π ℤ}
    (same : ∀ msgs (w' : World π), w'.nl.incoming.length < w.nl.incoming.length →
      (parse msgs).run w' = (parse' msgs).run w') :
    (readThen parse).run w = (readThen parse').run w := by
  rcases hin : w.nl.incoming with _ | ⟨msgs | code, rest⟩
  · rw [readThen_nil hin, readThen_nil hin]
  · rw [readThen_datagram hin, readThen_datagram hin]
    exact same msgs _ (by simp [hin])
  · rw [readThen_failure hin, readThen_failure hin]

/-- A read that comes back has used up a receive event. -/
theorem readThen_uses {w' : World π} {a : ℤ} (h : (readThen parse).run w = .returned a w') :
    w'.nl.incoming.length < w.nl.incoming.length := by
  rcases hin : w.nl.incoming with _ | ⟨msgs | code, rest⟩
  · rw [readThen_nil hin] at h
    cases h
  · rw [readThen_datagram hin] at h
    have := World.pending_le (Prog.later_of_returned h)
    simp only at this
    simp only [List.length_cons]
    omega
  · rw [readThen_failure hin] at h
    cases h
    simp

end Read

/-! ### libnl as a parameter -/

/-- The functions of libnl that the socket classes call, with their documented
behaviour. -/
structure Libnl (π : Type) where
  /-- `nl_send_auto`: the result, the message as completed, the socket after it. -/
  nlSendAuto : Message → NlSock π → ℤ × Message × NlSock π
  /-- `nl_recvmsgs`. -/
  nlRecvmsgs : CallbackSet π → SockProg π ℤ
  /-- What `nl_recvmsgs` does with the rest of a datagram; the flags say whether
  a multipart message is incomplete and whether a dump was interrupted. -/
  parse : CallbackSet π → (multipart interrupted : Bool) → List (NlMsg π) → SockProg π ℤ
  /-- `nl_syserr2nlerr`. -/
  nlSyserr2nlerr : ℤ → ℕ
  /-- The socket after `nl_socket_add_membership(group)` returned `err`. -/
  nlSocketAddMembership : (group err : ℤ) → NlSock π → NlSock π
  /-- The socket after `nl_socket_drop_membership(group)` returned `err`. -/
  nlSocketDropMembership : (group err : ℤ) → NlSock π → NlSock π
  /-- A message without a number gets the next one, whether or not it can then
  be sent. -/
  send_fresh : ∀ m s, m.seq = 0 → (nlSendAuto m s).2.1.seq = s.seqNext ∧
    (nlSendAuto m s).2.2 = { s with seqNext := s.seqNext + 1 }
  /-- A message with a number keeps it. -/
  send_numbered : ∀ m s, m.seq ≠ 0 → (nlSendAuto m s).2.1.seq = m.seq ∧ (nlSendAuto m s).2.2 = s
  recvmsgs_reads : ∀ cb, nlRecvmsgs cb = readThen (parse cb false false)
  /-- A message with an unexpected number ends the call with an error. -/
  parse_refused : ∀ cb mu i m ms (w : World π), cb.seqCheck = none → m.seq ≠ w.nl.seqExpect →
    (parse cb mu i (m :: ms)).run w = .returned (report i (-(NLE_SEQ_MISMATCH : ℤ))) w
  parse_valid : ∀ cb mu i m ms (w : World π) p, cb.Accepts m w → m.body = .data p →
    (parse cb mu i (m :: ms)).run w = ((cb.valid m).run (w.dispatch m)).next fun c w' =>
      (c.resume (parse cb (mu || m.multi) (i || m.dumpIntr) ms)
        (pure (report (i || m.dumpIntr) 0))).run w'
  /-- DONE completes a multipart message. -/
  parse_finish : ∀ cb mu i m ms (w : World π), cb.Accepts m w → m.body = .done →
    (parse cb mu i (m :: ms)).run w = ((cb.finish m).run (w.dispatch m)).next fun c w' =>
      (c.resume (parse cb false (i || m.dumpIntr) ms)
        (pure (report (i || m.dumpIntr) 0))).run w'
  parse_ack : ∀ cb mu i m ms (w : World π), cb.Accepts m w → m.body = .error 0 →
    (parse cb mu i (m :: ms)).run w = ((cb.ack m).run (w.dispatch m)).next fun c w' =>
      (c.resume (parse cb (mu || m.multi) (i || m.dumpIntr) ms)
        (pure (report (i || m.dumpIntr) 0))).run w'
  /-- An error the kernel reports goes to the error callback; when that stops,
  the call returns the error. -/
  parse_error : ∀ cb mu i m ms (w : World π) e, cb.Accepts m w → m.body = .error e → e ≠ 0 →
    (parse cb mu i (m :: ms)).run w = ((cb.err e).run (w.dispatch m)).next fun c w' =>
      (c.resume (parse cb (mu || m.multi) (i || m.dumpIntr) ms)
        (pure (report (i || m.dumpIntr) (-(nlSyserr2nlerr e : ℤ))))).run w'
  parse_end : ∀ cb i, parse cb false i [] = pure (report i 0)
  parse_end_multipart : ∀ cb i, parse cb true i [] = readThen (parse cb true i)
  syserr_pos : ∀ e, e ≠ 0 → 0 < nlSyserr2nlerr e
  /-- Joining succeeds with 0; group 0 stands for no group. -/
  join_ok : ∀ group s, nlSocketAddMembership group 0 s =
    { s with groups := if group = 0 then s.groups else insert group s.groups }
  join_failed : ∀ group err s, err ≠ 0 → nlSocketAddMembership group err s = s
  leave_ok : ∀ group s, nlSocketDropMembership group 0 s =
    { s with groups := s.groups.erase group }
  leave_failed : ∀ group err s, err ≠ 0 → nlSocketDropMembership group err s = s

namespace Libnl

variable (L : Libnl π)

/-- What a call of `nl_recvmsgs` returns that is left at this message. -/
def exitCode (m : NlMsg π) : ℤ :=
  match m.body with
  | .error code => if code = 0 then 0 else -(L.nlSyserr2nlerr code : ℤ)
  | _ => 0

/-- A message that passed the sequence check goes to the callback of its type. -/
theorem parse_accepted {cb : CallbackSet π} {m : NlMsg π} {w : World π} (accepted : cb.Accepts m w)
    (multipart interrupted : Bool) (ms : List (NlMsg π)) :
    (L.parse cb multipart interrupted (m :: ms)).run w =
      ((cb.of m).run (w.dispatch m)).next fun c w' =>
        (c.resume (L.parse cb (m.leavesOpen multipart) (interrupted || m.dumpIntr) ms)
          (pure (report (interrupted || m.dumpIntr) (L.exitCode m)))).run w' := by
  unfold CallbackSet.of NlMsg.leavesOpen exitCode
  cases body : m.body with
  | data p => exact L.parse_valid cb multipart interrupted m ms w p accepted body
  | done => exact L.parse_finish cb multipart interrupted m ms w accepted body
  | error code =>
      by_cases ack : code = 0
      · simp only [if_pos ack]
        exact L.parse_ack cb multipart interrupted m ms w accepted (ack ▸ body)
      · simp only [if_neg ack]
        exact L.parse_error cb multipart interrupted m ms w code accepted body ack

theorem sendAuto_incoming (m : Message) (s : NlSock π) :
    (L.nlSendAuto m s).2.2.incoming = s.incoming := by
  by_cases h : m.seq = 0
  · rw [(L.send_fresh m s h).2]
  · rw [(L.send_numbered m s h).2]

/-- Sending moves the next number and nothing else. -/
theorem sendAuto_sock (m : Message) (s : NlSock π) :
    (L.nlSendAuto m s).2.2 = { s with seqNext := (L.nlSendAuto m s).2.2.seqNext } := by
  by_cases h : m.seq = 0
  · rw [(L.send_fresh m s h).2]
  · rw [(L.send_numbered m s h).2]

theorem joined_incoming (group err : ℤ) (s : NlSock π) :
    (L.nlSocketAddMembership group err s).incoming = s.incoming := by
  by_cases h : err = 0
  · rw [h, L.join_ok]
  · rw [L.join_failed _ _ _ h]

theorem left_incoming (group err : ℤ) (s : NlSock π) :
    (L.nlSocketDropMembership group err s).incoming = s.incoming := by
  by_cases h : err = 0
  · rw [h, L.leave_ok]
  · rw [L.leave_failed _ _ _ h]

end Libnl

end Nlcpp
