import Nlcpp.Message

/-!
Implementations of the libnl interface.

`Libnl.reference` reads and dispatches as documented. It satisfies every law of
`Libnl`, so those are consistent, and it is executable, so the classes built on
libnl can be run. The number of datagrams one call can read is bounded by the
number of receive events left; `parseN_enough` says that the bound never shows.
`Nla.reference` reads and writes attributes in libnl's wire format.
-/

namespace Nlcpp.Reference

variable {π : Type}

/-- The sequence check: `none` when libnl itself refuses the message. -/
def check (cb : CallbackSet π) (m : NlMsg π) : SockProg π (Option NlCode) :=
  match cb.seqCheck with
  | none => Prog.get >>= fun w => pure (if m.seq = w.nl.seqExpect then some .ok else none)
  | some f => some <$> f m

/-- Hand a message that passed the sequence check to the callback of its type
and go on with `rest` as the callback says. -/
def deliver (cb : CallbackSet π) (syserr : ℤ → ℕ) (rest : Bool → SockProg π ℤ)
    (multi intr : Bool) (m : NlMsg π) : SockProg π ℤ :=
  Prog.modify (World.dispatch m) (fun _ => World.le_of_incoming_eq rfl) >>= fun _ =>
    match m.body with
    | .data _ => cb.valid m >>= fun c => c.resume (rest multi) (pure (report intr 0))
    | .done => cb.finish m >>= fun c => c.resume (rest false) (pure (report intr 0))
    | .error e =>
      if e = 0 then cb.ack m >>= fun c => c.resume (rest multi) (pure (report intr 0))
      else cb.err e >>= fun c =>
        c.resume (rest multi) (pure (report intr (-(syserr e : ℤ))))

/-- Work off a datagram; `more` reads on when a multipart message is incomplete. -/
def parseWith (cb : CallbackSet π) (syserr : ℤ → ℕ) (more : Bool → SockProg π ℤ) :
    Bool → Bool → List (NlMsg π) → SockProg π ℤ
  | multi, intr, [] => if multi then more intr else pure (report intr 0)
  | multi, intr, m :: ms =>
    check cb m >>= fun
      | none => pure (report intr (-(NLE_SEQ_MISMATCH : ℤ)))
      | some .ok =>
        deliver cb syserr
          (fun multi' => parseWith cb syserr more multi' (intr || m.dumpIntr) ms)
          (multi || m.multi) (intr || m.dumpIntr) m
      | some .skip => parseWith cb syserr more multi intr ms
      | some .stop => pure (report intr 0)

/-- Work off a datagram and read at most `n` more. -/
def parseN (cb : CallbackSet π) (syserr : ℤ → ℕ) : ℕ → Bool → Bool → List (NlMsg π) → SockProg π ℤ
  | 0 => parseWith cb syserr fun _ => Prog.block
  | n + 1 => parseWith cb syserr fun intr => readThen (parseN cb syserr n true intr)

/-- Two ways of reading on that agree on what is still to come work off a
datagram alike. -/
theorem parseWith_congr {cb : CallbackSet π} {syserr : ℤ → ℕ}
    {more₁ more₂ : Bool → SockProg π ℤ} {w : World π}
    (agree : ∀ intr, ∀ w' ≤ w, (more₁ intr).run w' = (more₂ intr).run w')
    (multi intr : Bool) (ms : List (NlMsg π)) :
    (parseWith cb syserr more₁ multi intr ms).run w =
      (parseWith cb syserr more₂ multi intr ms).run w := by
  induction ms generalizing multi intr w with
  | nil =>
      cases multi with
      | false => rfl
      | true => exact agree intr w (le_refl w)
  | cons m ms ih =>
      have tail : ∀ multi intr, ∀ w' ≤ w, (parseWith cb syserr more₁ multi intr ms).run w' =
          (parseWith cb syserr more₂ multi intr ms).run w' := fun multi intr w' hw' =>
        ih (fun i v hv => agree i v (le_trans hv hw')) multi intr
      simp only [parseWith, Prog.run_bind]
      apply Outcome.next_congr
      intro c w₁ hc
      have hw₁ : w₁ ≤ w := Prog.later_of_returned hc
      cases c with
      | none => rfl
      | some code =>
          cases code with
          | stop => rfl
          | skip => exact tail _ _ w₁ hw₁
          | ok =>
              simp only [deliver, Prog.run_bind, Prog.run_modify, Outcome.next_returned]
              have hd : World.dispatch m w₁ ≤ w := le_trans (World.le_of_incoming_eq rfl) hw₁
              have called : ∀ (p : SockProg π NlCode) (i : ℤ) multi' intr',
                  (p.run (w₁.dispatch m)).next (fun c w₂ => (c.resume
                    (parseWith cb syserr more₁ multi' intr' ms) (pure i)).run w₂) =
                  (p.run (w₁.dispatch m)).next (fun c w₂ => (c.resume
                    (parseWith cb syserr more₂ multi' intr' ms) (pure i)).run w₂) := by
                intro p i multi' intr'
                apply Outcome.next_congr
                intro c w₂ h₂
                have hw₂ : w₂ ≤ w := le_trans (Prog.later_of_returned h₂) hd
                cases c with
                | stop => rfl
                | ok => exact tail multi' intr' w₂ hw₂
                | skip => exact tail multi' intr' w₂ hw₂
              split
              · exact called _ _ _ _
              · exact called _ _ _ _
              · split
                · exact called _ _ _ _
                · exact called _ _ _ _

/-- Any two bounds that cover the events left give the same result. -/
theorem parseN_enough {cb : CallbackSet π} {syserr : ℤ → ℕ} {m n : ℕ} {w : World π}
    (hm : w.nl.incoming.length ≤ m) (hn : w.nl.incoming.length ≤ n)
    (multi intr : Bool) (ms : List (NlMsg π)) :
    (parseN cb syserr m multi intr ms).run w = (parseN cb syserr n multi intr ms).run w := by
  -- With no event left, reading on blocks under either bound.
  have dry : ∀ {w' : World π} {k : ℕ} {intr : Bool}, w'.nl.incoming.length ≤ 0 →
      (readThen (parseN cb syserr k true intr)).run w' = .blocked w' := fun h =>
    readThen_nil (List.eq_nil_of_length_eq_zero (Nat.le_zero.mp h))
  induction m generalizing n w multi intr ms with
  | zero =>
      cases n with
      | zero => rfl
      | succ n =>
          refine parseWith_congr (fun intr w' hw' => ?_) multi intr ms
          rw [dry (le_trans (World.pending_le hw') hm)]
          rfl
  | succ m ih =>
      cases n with
      | zero =>
          refine parseWith_congr (fun intr w' hw' => ?_) multi intr ms
          rw [dry (le_trans (World.pending_le hw') hn)]
          rfl
      | succ n =>
          refine parseWith_congr (fun intr w' hw' => ?_) multi intr ms
          have pending := World.pending_le hw'
          refine readThen_congr fun msgs w'' fewer => ?_
          exact ih (by omega) (by omega) true intr msgs

/-- Work off a datagram, reading on as long as there is something to read. -/
def parse (cb : CallbackSet π) (multi intr : Bool) (ms : List (NlMsg π)) : SockProg π ℤ where
  run w := (parseN cb Int.natAbs w.nl.incoming.length multi intr ms).run w
  later w := (parseN cb Int.natAbs w.nl.incoming.length multi intr ms).later w

theorem parse_run_of_le {cb : CallbackSet π} {w : World π} {n : ℕ}
    (h : w.nl.incoming.length ≤ n) (multi intr : Bool) (ms : List (NlMsg π)) :
    (parseN cb Int.natAbs n multi intr ms).run w = (parse cb multi intr ms).run w :=
  parseN_enough h (le_refl _) multi intr ms

theorem parse_nil_multi (cb : CallbackSet π) (intr : Bool) :
    parse cb true intr [] = readThen (parse cb true intr) := by
  ext w
  rcases hin : w.nl.incoming with _ | ⟨msgs | code, rest⟩
  · rw [readThen_nil hin]
    simp [parse, hin, parseN, parseWith]
  · rw [readThen_datagram hin]
    simp only [parse, hin, List.length_cons, parseN, parseWith, if_true]
    rw [readThen_datagram hin]
  · rw [readThen_failure hin]
    simp only [parse, hin, List.length_cons, parseN, parseWith, if_true]
    rw [readThen_failure hin]

/-- The first message of a datagram, under a bound that covers what is left. -/
theorem parse_cons_run (cb : CallbackSet π) (multi intr : Bool) (m : NlMsg π)
    (ms : List (NlMsg π)) (w : World π) :
    (parse cb multi intr (m :: ms)).run w = ((check cb m).run w).next fun c w' =>
      match c with
      | none => .returned (report intr (-(NLE_SEQ_MISMATCH : ℤ))) w'
      | some .ok =>
        (deliver cb Int.natAbs
          (fun multi' => parseN cb Int.natAbs w.nl.incoming.length multi' (intr || m.dumpIntr) ms)
          (multi || m.multi) (intr || m.dumpIntr) m).run w'
      | some .skip => (parseN cb Int.natAbs w.nl.incoming.length multi intr ms).run w'
      | some .stop => .returned (report intr 0) w' := by
  simp only [parse]
  cases w.nl.incoming.length <;>
  · simp only [parseN, parseWith, Prog.run_bind]
    apply Outcome.next_congr
    intro c w' _
    cases c with
    | none => rfl
    | some code => cases code <;> rfl

theorem check_run_of_accepts {cb : CallbackSet π} {m : NlMsg π} {w : World π}
    (h : cb.Accepts m w) : (check cb m).run w = .returned (some .ok) w := by
  unfold CallbackSet.Accepts at h
  unfold check
  cases hc : cb.seqCheck with
  | none =>
      rw [hc] at h
      simp [h]
  | some f =>
      rw [hc] at h
      simp [h]

/-- An accepted message is booked and handed to the callback of its type. -/
theorem parse_cons_accepted {cb : CallbackSet π} {m : NlMsg π} {w : World π}
    (accepted : cb.Accepts m w) (multi intr : Bool) (ms : List (NlMsg π)) :
    (parse cb multi intr (m :: ms)).run w =
      (deliver cb Int.natAbs
        (fun multi' => parseN cb Int.natAbs w.nl.incoming.length multi' (intr || m.dumpIntr) ms)
        (multi || m.multi) (intr || m.dumpIntr) m).run w := by
  rw [parse_cons_run, check_run_of_accepts accepted]
  rfl

/-- After a callback, the rest of the datagram is worked off by `parse`. -/
theorem resume_run {cb : CallbackSet π} {p : SockProg π NlCode} {w v : World π} (hv : v ≤ w)
    (multi intr : Bool) (ms : List (NlMsg π)) (halt : SockProg π ℤ) :
    ((p.run v).next fun c w' =>
        (c.resume (parseN cb Int.natAbs w.nl.incoming.length multi intr ms) halt).run w') =
      (p.run v).next fun c w' => (c.resume (parse cb multi intr ms) halt).run w' := by
  apply Outcome.next_congr
  intro c w' hw'
  have pending := World.pending_le (le_trans (Prog.later_of_returned hw') hv)
  cases c with
  | ok => exact parse_run_of_le pending multi intr ms
  | skip => exact parse_run_of_le pending multi intr ms
  | stop => rfl

end Nlcpp.Reference

namespace Nlcpp

/-- The documented libnl, as a program. A request is always sent; an error of the
kernel keeps its number. -/
def Libnl.reference (π : Type) : Libnl π where
  nlSendAuto m s :=
    if m.seq = 0 then (0, { m with seq := s.seqNext }, { s with seqNext := s.seqNext + 1 })
    else (0, m, s)
  nlRecvmsgs cb := readThen (Reference.parse cb false false)
  parse := Reference.parse
  nlSyserr2nlerr := Int.natAbs
  nlSocketAddMembership group err s :=
    if err = 0 then { s with groups := if group = 0 then s.groups else insert group s.groups }
    else s
  nlSocketDropMembership group err s :=
    if err = 0 then { s with groups := s.groups.erase group } else s
  send_fresh m s h := by simp [h]
  send_numbered m s h := by simp [h]
  recvmsgs_reads _ := rfl
  parse_refused cb mu i m ms w unchecked unexpected := by
    rw [Reference.parse_cons_run]
    simp [Reference.check, unchecked, unexpected]
  parse_valid cb mu i m ms w p accepted body := by
    rw [Reference.parse_cons_accepted accepted]
    simp only [Reference.deliver, body, Prog.run_bind, Prog.run_modify, Outcome.next_returned]
    exact Reference.resume_run (World.le_of_incoming_eq rfl) ..
  parse_finish cb mu i m ms w accepted body := by
    rw [Reference.parse_cons_accepted accepted]
    simp only [Reference.deliver, body, Prog.run_bind, Prog.run_modify, Outcome.next_returned]
    exact Reference.resume_run (World.le_of_incoming_eq rfl) ..
  parse_ack cb mu i m ms w accepted body := by
    rw [Reference.parse_cons_accepted accepted]
    simp only [Reference.deliver, body, Prog.run_bind, Prog.run_modify, Outcome.next_returned,
      if_true]
    exact Reference.resume_run (World.le_of_incoming_eq rfl) ..
  parse_error cb mu i m ms w e accepted body nonzero := by
    rw [Reference.parse_cons_accepted accepted]
    simp only [Reference.deliver, body, Prog.run_bind, Prog.run_modify, Outcome.next_returned,
      if_neg nonzero]
    exact Reference.resume_run (World.le_of_incoming_eq rfl) ..
  parse_end cb i := by
    ext w
    simp only [Reference.parse]
    cases w.nl.incoming.length <;> rfl
  parse_end_multipart := Reference.parse_nil_multi
  syserr_pos e h := Int.natAbs_pos.mpr h
  join_ok group s := by simp
  join_failed group err s h := by simp [h]
  leave_ok group s := by simp
  leave_failed group err s h := by simp [h]

end Nlcpp

/-! ### Attributes -/

namespace Nlcpp

namespace Reference

/-- The attributes of a stream with their types: a header of length and type,
the payload, and padding to a multiple of four. -/
def elements (memory : List UInt8) : (fuel start len : ℕ) → List (ℕ × AttrRef)
  | 0, _, _ => []
  | fuel + 1, start, len =>
    let byte (i : ℕ) : ℕ := (memory.getD (start + i) 0).toNat
    let size := byte 0 + 256 * byte 1
    if 4 ≤ len ∧ 4 ≤ size ∧ size ≤ len then
      let step := (size + 3) / 4 * 4
      ((byte 2 + 256 * byte 3) % 0x4000, ⟨start + 4, size - 4⟩) ::
        elements memory fuel (start + step) (len - step)
    else []

/-- An attribute as `nla_put` lays it out. -/
def attrBytes (type : ℤ) (data : List UInt8) : List UInt8 :=
  let size := data.length + 4
  [UInt8.ofNat size, UInt8.ofNat (size / 256), UInt8.ofNat type.toNat,
    UInt8.ofNat (type.toNat / 256)] ++ data ++ List.replicate ((size + 3) / 4 * 4 - size) 0

end Reference

/-- libnl's attribute functions on messages of at most one page. -/
def Nla.reference : Nla where
  nlaParse maxtype memory start len type :=
    if type ≤ maxtype then
      ((Reference.elements memory len start len).reverse.find? fun a => a.1 = type).map (·.2)
    else none
  nlaNested memory attr :=
    (Reference.elements memory attr.len attr.payload attr.len).map (·.2)
  nlaGetU8 memory attr := memory.getD attr.payload 0
  nlaGetU32 memory attr :=
    let byte (i : ℕ) : UInt32 := (memory.getD (attr.payload + i) 0).toUInt32
    byte 0 ||| byte 1 <<< 8 ||| byte 2 <<< 16 ||| byte 3 <<< 24
  nlaGetString memory attr := cStr (memory.drop attr.payload)
  nlaPut m type data :=
    let attrs := m.attrs ++ Reference.attrBytes type data
    if attrs.length + 20 ≤ 4096 then (0, { m with attrs }) else (-5, m)
  put_keeps m type data := by
    dsimp only
    split <;> rfl

end Nlcpp
