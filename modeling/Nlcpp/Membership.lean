import Nlcpp.Reference
import Nlcpp.Lib.Run

/-!
Sequence checking and group membership.

`addMembership` turns the sequence check off before it asks libnl to join, and
nothing turns it on again.
-/

namespace Nlcpp

variable {π : Type}

/-- A call of `addMembership` or `dropMembership`, with what libnl returns to it. -/
inductive MembershipCall where
  | addMembership (group err : ℤ)
  | dropMembership (group err : ℤ)
deriving DecidableEq, Repr

namespace MembershipCall

variable (L : Libnl π)

/-- The call as a program. -/
def prog : MembershipCall → SockProg π Unit
  | .addMembership group err => Socket.addMembership L group err
  | .dropMembership group err => Socket.dropMembership L group err

/-- The socket after the call, whether it returned or threw. -/
def step (w : World π) (op : MembershipCall) : World π := ((op.prog L).run w).state

/-- A state change followed by `throwCode` leaves the changed state. -/
theorem check_state (w : World π) (r : Except Exception Unit) :
    ((SockProg.check r).run w).state = w := by
  cases r <;> rfl

theorem step_addMembership (w : World π) (group err : ℤ) :
    step L w (.addMembership group err) =
      { w with
        nl := L.nlSocketAddMembership group err w.nl
        socket := { w.socket with acceptAll := true } } := by
  simp only [step, prog, Socket.addMembership, Prog.run_bind, SockProg.run_setSocket,
    Outcome.next_returned, Prog.run_modify]
  exact check_state _ _

theorem step_dropMembership (w : World π) (group err : ℤ) :
    step L w (.dropMembership group err) =
      { w with nl := L.nlSocketDropMembership group err w.nl } := by
  simp only [step, prog, Socket.dropMembership, Prog.run_bind, Outcome.next_returned,
    Prog.run_modify]
  exact check_state _ _

end MembershipCall

/-- The accept-everything SEQ_CHECK callback is installed exactly while the
socket is a member of some group. -/
def AcceptsAllWhileMember (w : World π) : Prop :=
  w.socket.acceptAll = true ↔ w.nl.groups ≠ ∅

/-- The calls that keep it so: a join that succeeds, or that comes on top of
other memberships, and a leave that is not the last one. -/
def MembershipCall.Harmless (w : World π) : MembershipCall → Prop
  | .addMembership group err => w.nl.groups ≠ ∅ ∨ (err = 0 ∧ group ≠ 0)
  | .dropMembership group err => err = 0 → w.nl.groups ≠ {group}

/-- One call keeps the check tied to membership exactly when it is harmless. -/
theorem acceptsAllWhileMember_step_iff (L : Libnl π) (w : World π) (op : MembershipCall)
    (tied : AcceptsAllWhileMember w) :
    AcceptsAllWhileMember (op.step L w) ↔ op.Harmless w := by
  cases op with
  | addMembership group err =>
      rw [MembershipCall.step_addMembership]
      simp only [AcceptsAllWhileMember, MembershipCall.Harmless, true_iff]
      by_cases ok : err = 0
      · subst ok
        rw [L.join_ok]
        by_cases none : group = 0
        · simp [none]
        · simp [none]
      · rw [L.join_failed group err w.nl ok]
        simp [ok]
  | dropMembership group err =>
      rw [MembershipCall.step_dropMembership]
      simp only [AcceptsAllWhileMember, MembershipCall.Harmless] at tied ⊢
      by_cases ok : err = 0
      · subst ok
        rw [L.leave_ok, tied]
        dsimp only
        rw [imp_iff_right rfl, not_iff_not, Finset.erase_eq_empty_iff]
        constructor
        · rintro same only
          rw [only] at same
          simp at same
        · intro more
          simp [more]
      · rw [L.leave_failed group err w.nl ok]
        simpa [ok] using tied

/-- **Sequence checking is off only while it has to be, in every state of a run
of joins and leaves, if and only if every call of the run is harmless** in the
state it is made from. -/
theorem acceptsAllWhileMember_iff_harmless (L : Libnl π) (seq : UInt32) (callStatus : ℤ)
    (calls : List MembershipCall) :
    (∀ w ∈ Run.states (fun w op => op.step L w) (World.opened π seq callStatus) calls,
        AcceptsAllWhileMember w) ↔
      Run.Guarded (fun w op => op.step L w) (fun w op => op.Harmless w)
        (World.opened π seq callStatus) calls :=
  Run.forall_states_iff_guarded (fun w op => acceptsAllWhileMember_step_iff L w op)
    (by simp [AcceptsAllWhileMember, World.opened, Socket.opened]) calls

/-- A join that fails, and leaving the only group joined, both leave a socket
without memberships and without sequence check. -/
theorem check_lost :
    (¬∀ w ∈ Run.states (fun w op => MembershipCall.step (.reference Reply) w op)
        (World.opened Reply 5 0) [.addMembership 3 (-6)], AcceptsAllWhileMember w) ∧
      ¬∀ w ∈ Run.states (fun w op => MembershipCall.step (.reference Reply) w op)
        (World.opened Reply 5 0) [.addMembership 3 0, .dropMembership 3 0],
          AcceptsAllWhileMember w := by
  constructor
  · intro always
    exact absurd ((always _ (Run.final_mem_states _ _)).mp (by decide)) (by decide)
  · intro always
    exact absurd ((always _ (Run.final_mem_states _ _)).mp (by decide)) (by decide)

end Nlcpp
