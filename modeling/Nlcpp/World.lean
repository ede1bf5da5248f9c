import Nlcpp.Lib.Prog
import Nlcpp.Exception
import Mathlib.Data.List.Infix
import Mathlib.Data.Finset.Basic

/-!
The state the socket classes work on: libnl's `nl_sock`, the members of
`nl::Socket`, and the calls of `std::function` objects made so far.

Messages are generic in the payload of data messages. Arrivals at a socket are
one list of receive events, oldest first: what each `nl_recv` finds. Programs
over this state only consume arrivals, which is the order of `World`.
-/

namespace Nlcpp

variable {π : Type}

/-! ### Messages -/

/-- The part of a received message that decides how libnl dispatches it. An ACK
is an `NLMSG_ERROR` message with code 0. -/
inductive Body (π : Type) where
  | data (payload : π)
  | done
  | error (code : ℤ)
deriving DecidableEq, Repr

/-- A received message: `nlmsg_seq`, the flags `NLM_F_MULTI` and
`NLM_F_DUMP_INTR`, and its body. -/
structure NlMsg (π : Type) where
  seq : UInt32
  multi : Bool
  dumpIntr : Bool
  body : Body π
deriving DecidableEq, Repr

/-- A data message: one that libnl hands to the VALID callback. -/
def NlMsg.isData (m : NlMsg π) : Bool :=
  match m.body with
  | .data _ => true
  | _ => false

/-- A terminal message: DONE, ACK or ERROR. -/
def NlMsg.isTerminal (m : NlMsg π) : Bool := !m.isData

/-- A message under construction: the header fields and the attribute stream. -/
structure Message where
  port : UInt32
  seq : UInt32
  family : ℤ
  hdrlen : ℤ
  flags : ℤ
  cmd : UInt8
  version : UInt8
  attrs : List UInt8
deriving DecidableEq, Repr

/-! ### The socket and its surroundings -/

/-- One receive event: a datagram of messages, or a failed read that makes
`nl_recv` return `-code`. -/
inductive Incoming (π : Type) where
  | datagram (msgs : List (NlMsg π))
  | failure (code : ℕ)
deriving DecidableEq, Repr

/-- `nl_sock`: the next and the expected sequence number, what is still to be
received, the messages dispatched to a callback so far, and the groups joined. -/
structure NlSock (π : Type) where
  seqNext : UInt32
  seqExpect : UInt32
  incoming : List (Incoming π)
  dispatched : List (NlMsg π)
  groups : Finset ℤ
deriving DecidableEq

/-- The identity of a `std::function` object. -/
abbrev Closure := ℕ

/-- The members of `nl::Socket` besides `sock`. Of the callback set `callbacks`
only the presence of the accept-everything SEQ_CHECK callback changes. -/
structure Socket where
  acceptAll : Bool
  callStatus : ℤ
  validCallback : Option Closure
deriving DecidableEq

/-- What the client code sees: a function object called with a message; and of what
its function objects do with the socket, a request sent (its callback and its
number), a `sendMessageSync` coming back (and whether a terminal message with that
number had been dispatched by then), a handler installed. -/
inductive Event (π : Type) where
  | handed (closure : Closure) (msg : NlMsg π)
  | requested (closure : Closure) (seq : UInt32)
  | returned (closure : Closure) (seq : UInt32) (answered : Bool)
  | installed (closure : Closure)
deriving DecidableEq, Repr

/-- One socket object with its `nl_sock` and the client's history. -/
structure World (π : Type) where
  nl : NlSock π
  socket : Socket
  trace : List (Event π)
deriving DecidableEq

/-- `w' ≤ w`: between `w` and `w'` arrivals were only consumed. -/
instance : Preorder (World π) where
  le w' w := w'.nl.incoming <:+ w.nl.incoming
  le_refl w := List.suffix_refl _
  le_trans _ _ _ h₁ h₂ := h₁.trans h₂

theorem World.le_iff {w' w : World π} : w' ≤ w ↔ w'.nl.incoming <:+ w.nl.incoming := Iff.rfl

theorem World.le_of_incoming_eq {w' w : World π} (h : w'.nl.incoming = w.nl.incoming) :
    w' ≤ w := by
  rw [World.le_iff, h]

theorem World.pending_le {w' w : World π} (h : w' ≤ w) :
    w'.nl.incoming.length ≤ w.nl.incoming.length :=
  (World.le_iff.mp h).length_le

/-- Programs of the socket classes. -/
abbrev SockProg (π : Type) := Prog Thrown (World π)

/-- Calling a `std::function<void(Message)>` object with a message. -/
abbrev Caller (π : Type) := Closure → NlMsg π → SockProg π Unit

namespace SockProg

/-- Change the members of the `Socket` object. -/
def setSocket (f : Socket → Socket) : SockProg π Unit :=
  .modify (fun w => { w with socket := f w.socket }) fun _ => World.le_of_incoming_eq rfl

/-- Record an event of the client. -/
def log (e : Event π) : SockProg π Unit :=
  .modify (fun w => { w with trace := w.trace ++ [e] }) fun _ => World.le_of_incoming_eq rfl

/-- Throw what an `Exception::throwCode` throws. -/
def check (r : Except Exception Unit) : SockProg π Unit :=
  match r with
  | .ok () => pure ()
  | .error e => .throw (.nl e)

@[simp] theorem run_setSocket (f : Socket → Socket) (w : World π) :
    (setSocket f).run w = .returned () { w with socket := f w.socket } := rfl

@[simp] theorem run_log (e : Event π) (w : World π) :
    (log e).run w = .returned () { w with trace := w.trace ++ [e] } := rfl

@[simp] theorem check_ok : (check (.ok ()) : SockProg π Unit) = pure () := rfl

@[simp] theorem check_error (e : Exception) :
    (check (.error e) : SockProg π Unit) = .throw (.nl e) := rfl

end SockProg

end Nlcpp
