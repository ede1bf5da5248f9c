import Mathlib.Data.List.Count
import Mathlib.Tactic.Ring
import Nlcpp.Exception

/-!
The references that `Socket::Socket` acquires and what becomes of them.

`Heap` lists the references to callback sets and sockets that were acquired and those that
were released. Every path through the constructor and the destructor releases all that it
acquired but one: the reference that `nl_cb_alloc(NL_CB_VERBOSE)` returns is passed to
`nl_socket_alloc_cb`, which takes its own (`outstanding_life`).
-/

namespace Nlcpp.Construction

/-- An object of libnl that counts its references. -/
inductive Obj where
  | cb (id : ℕ)
  | sock (id : ℕ)
deriving DecidableEq, Repr

/-- The references acquired and released so far, one entry for each, and the number of the
next object. -/
structure Heap where
  next : ℕ
  acquired : List Obj
  released : List Obj
deriving DecidableEq, Repr

namespace Heap

/-- The references to an object that were acquired and not released. -/
def outstanding (h : Heap) (o : Obj) : ℤ := (h.acquired.count o : ℤ) - h.released.count o

def acquire (o : Obj) (h : Heap) : Heap := { h with acquired := h.acquired ++ [o] }

def release (o : Obj) (h : Heap) : Heap := { h with released := h.released ++ [o] }

def fresh (h : Heap) : Heap := { h with next := h.next + 1 }

theorem outstanding_acquire (h : Heap) (o r : Obj) :
    (h.acquire o).outstanding r = h.outstanding r + if o = r then 1 else 0 := by
  simp only [outstanding, acquire, List.count_append, List.count_singleton, beq_iff_eq]
  split <;> push_cast <;> omega

theorem outstanding_release (h : Heap) (o r : Obj) :
    (h.release o).outstanding r = h.outstanding r - if o = r then 1 else 0 := by
  simp only [outstanding, release, List.count_append, List.count_singleton, beq_iff_eq]
  split <;> push_cast <;> omega

theorem outstanding_fresh (h : Heap) (r : Obj) : h.fresh.outstanding r = h.outstanding r := rfl

end Heap

/-- `nl_sock`: which one it is, and its callback set. -/
structure Sock where
  id : ℕ
  s_cb : ℕ
deriving DecidableEq, Repr

/-! ### libnl -/

/-- A new callback set; the caller owns the reference. -/
def nl_cb_new (h : Heap) : ℕ × Heap := (h.next, (h.acquire (.cb h.next)).fresh)

/-- `nl_cb_alloc`. -/
def nl_cb_alloc (succeeds : Bool) (h : Heap) : Option ℕ × Heap :=
  if succeeds then (some (nl_cb_new h).1, (nl_cb_new h).2) else (none, h)

/-- `nl_cb_put`. -/
def nl_cb_put (cb : ℕ) (h : Heap) : Heap := h.release (.cb cb)

/-- `nl_socket_alloc_cb`: the socket takes a reference of its own to the callback set. -/
def nl_socket_alloc_cb (succeeds : Bool) (cb : ℕ) (h : Heap) : Option Sock × Heap :=
  if succeeds then (some ⟨h.next, cb⟩, ((h.acquire (.sock h.next)).acquire (.cb cb)).fresh)
  else (none, h)

/-- `nl_socket_free`. -/
def nl_socket_free (sock : Sock) (h : Heap) : Heap :=
  (h.release (.cb sock.s_cb)).release (.sock sock.id)

/-! ### `Socket` -/

/-- The members that hold references. -/
structure Members where
  sock : Sock
  callbacks : ℕ
deriving DecidableEq, Repr

/-- Which steps of the constructor succeed, those included that it does not reach. -/
structure Steps where
  allocated : Bool
  connected : Bool
  callbacks : Bool
deriving DecidableEq, Repr

/-- `Socket::Socket`; its first `nl_cb_alloc` is taken to succeed. -/
def construct (steps : Steps) (h : Heap) : Except Thrown Members × Heap :=
  let (verbose, h) := nl_cb_new h
  match nl_socket_alloc_cb steps.allocated verbose h with
  | (none, h) => (.error (.runtimeError "Failed to allocate netlink socket"), h)
  | (some sock, h) =>
    if steps.connected then
      match nl_cb_alloc steps.callbacks h with
      | (none, h) =>
        (.error (.runtimeError "Failed to allocate callback set"), nl_socket_free sock h)
      | (some callbacks, h) => (.ok ⟨sock, callbacks⟩, h)
    else (.error (.runtimeError "Failed to connect netlink socket"), nl_socket_free sock h)

/-- `Socket::~Socket`. -/
def destruct (s : Members) (h : Heap) : Heap := nl_socket_free s.sock (nl_cb_put s.callbacks h)

/-- A socket is constructed and, when that succeeded, destroyed. -/
def life (steps : Steps) (h : Heap) : Heap :=
  match construct steps h with
  | (.ok s, h) => destruct s h
  | (.error _, h) => h

/-- Every reference acquired in between was released. -/
def Balanced (before after : Heap) : Prop := ∀ o, after.outstanding o = before.outstanding o

/-! ### What is left -/

theorem outstanding_cb_new (h : Heap) (o : Obj) :
    (nl_cb_new h).2.outstanding o = h.outstanding o + if .cb h.next = o then 1 else 0 :=
  h.outstanding_acquire (.cb h.next) o

theorem outstanding_cb_put (cb : ℕ) (h : Heap) (o : Obj) :
    (nl_cb_put cb h).outstanding o = h.outstanding o - if .cb cb = o then 1 else 0 :=
  h.outstanding_release (.cb cb) o

/-- A callback set that is put again. -/
theorem outstanding_cb_new_put (h : Heap) (o : Obj) :
    (nl_cb_put (nl_cb_new h).1 (nl_cb_new h).2).outstanding o = h.outstanding o := by
  rw [outstanding_cb_put, outstanding_cb_new]
  exact add_sub_cancel_right _ _

/-- Freeing a socket gives back what its allocation acquired. -/
theorem outstanding_socket_free {h h' : Heap} {cb : ℕ} {sock : Sock}
    (allocated : nl_socket_alloc_cb true cb h = (some sock, h')) (after : Heap) (o : Obj) :
    (nl_socket_free sock after).outstanding o =
      after.outstanding o - (h'.outstanding o - h.outstanding o) := by
  simp only [nl_socket_alloc_cb, if_true, Prod.mk.injEq, Option.some.injEq] at allocated
  obtain ⟨rfl, rfl⟩ := allocated
  rw [nl_socket_free, Heap.outstanding_release, Heap.outstanding_release,
    Heap.outstanding_fresh, Heap.outstanding_acquire, Heap.outstanding_acquire]
  ring

/-- **One reference stays**, whichever steps succeed, and all others are released. -/
theorem outstanding_life (steps : Steps) (h : Heap) (o : Obj) :
    (life steps h).outstanding o = h.outstanding o + if .cb h.next = o then 1 else 0 := by
  rw [← outstanding_cb_new]
  obtain ⟨allocated, connected, callbacks⟩ := steps
  cases allocated with
  | false => rfl
  | true =>
      obtain ⟨sock, h', alloc⟩ : ∃ sock h',
          nl_socket_alloc_cb true (nl_cb_new h).1 (nl_cb_new h).2 = (some sock, h') := ⟨_, _, rfl⟩
      have freed := outstanding_socket_free alloc
      cases connected with
      | false =>
          have path : life ⟨true, false, callbacks⟩ h = nl_socket_free sock h' := by
            simp only [life, construct, alloc, Bool.false_eq_true, if_false]
          rw [path, freed]
          ring
      | true =>
          cases callbacks with
          | false =>
              have path : life ⟨true, true, false⟩ h = nl_socket_free sock h' := by
                simp only [life, construct, alloc, nl_cb_alloc, Bool.false_eq_true, if_true,
                  if_false]
              rw [path, freed]
              ring
          | true =>
              have path : life ⟨true, true, true⟩ h = nl_socket_free sock
                  (nl_cb_put (nl_cb_new h').1 (nl_cb_new h').2) := by
                simp only [life, construct, alloc, nl_cb_alloc, if_true, destruct]
              rw [path, freed, outstanding_cb_new_put]
              ring

/-- **No socket balances its references**: exactly the reference that the constructor's
first `nl_cb_alloc` returned is never released. -/
theorem never_balanced (steps : Steps) (h : Heap) :
    ¬Balanced h (life steps h) ∧
      ∀ o, (life steps h).outstanding o = h.outstanding o + if .cb h.next = o then 1 else 0 := by
  refine ⟨fun balanced => ?_, outstanding_life steps h⟩
  have one := outstanding_life steps h (.cb h.next)
  rw [balanced, if_pos rfl] at one
  omega

/-- Sockets that live one after the other. -/
def lives : List Steps → Heap → Heap
  | [], h => h
  | steps :: later, h => lives later (life steps h)

/-- The references to any objects that were not released. -/
def Heap.unreleased (h : Heap) : ℤ := (h.acquired.length : ℤ) - h.released.length

theorem unreleased_life (steps : Steps) (h : Heap) :
    (life steps h).unreleased = h.unreleased + 1 := by
  obtain ⟨allocated, connected, callbacks⟩ := steps
  cases allocated <;> cases connected <;> cases callbacks <;>
    simp [life, construct, destruct, nl_cb_new, nl_cb_alloc, nl_cb_put, nl_socket_alloc_cb,
      nl_socket_free, Heap.unreleased, Heap.acquire, Heap.release, Heap.fresh] <;>
    ring

/-- Each socket leaves one reference behind. -/
theorem unreleased_lives (sockets : List Steps) (h : Heap) :
    (lives sockets h).unreleased = h.unreleased + sockets.length := by
  induction sockets generalizing h with
  | nil => simp [lives]
  | cons steps later ih =>
      rw [lives, ih, unreleased_life, List.length_cons]
      push_cast
      ring

/-- A socket without any failure. -/
theorem reference_leaks :
    (life ⟨true, true, true⟩ ⟨0, [], []⟩).outstanding (.cb 0) = 1 ∧
      ¬Balanced ⟨0, [], []⟩ (life ⟨true, true, true⟩ ⟨0, [], []⟩) := by
  refine ⟨rfl, fun balanced => ?_⟩
  have one := balanced (.cb 0)
  cases one

end Nlcpp.Construction
