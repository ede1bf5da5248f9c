import Nlcpp.Answer
import Mathlib.Data.List.TakeWhile
import Mathlib.Data.Vector.Basic

/-!
Netlink messages and their attributes.

A data message carries a generic netlink header, an attribute stream, and
whatever bytes follow it in memory: `nla_get_u32` and the like read from a
payload's start without looking at its length. The attribute functions are
libnl's, so they enter as a parameter, `Nla`. Every `put` member of `Message` is
`nla_put` with a length that is an `int`, applied to the member's own bytes
(`Encoding.putWith`).
-/

namespace Nlcpp

/-- The payload of a received generic netlink message. -/
structure Reply where
  cmd : UInt8
  version : UInt8
  attrs : List UInt8
  beyond : List UInt8
deriving DecidableEq, Repr

/-- The memory from the first attribute on. -/
def Reply.memory (reply : Reply) : List UInt8 := reply.attrs ++ reply.beyond

/-- An attribute in a memory: where its payload starts and how long it is. -/
structure AttrRef where
  payload : ℕ
  len : ℕ
deriving DecidableEq, Repr

/-- libnl's attribute functions. -/
structure Nla where
  /-- `nla_parse` without a policy, on `len` bytes from `start`. -/
  nlaParse : (maxtype : ℕ) → (memory : List UInt8) → (start len : ℕ) → ℕ → Option AttrRef
  /-- The elements that `nla_for_each_nested` visits. -/
  nlaNested : (memory : List UInt8) → AttrRef → List AttrRef
  nlaGetU8 : (memory : List UInt8) → AttrRef → UInt8
  nlaGetU32 : (memory : List UInt8) → AttrRef → UInt32
  /-- The bytes of `nla_get_string` up to the first NUL. -/
  nlaGetString : (memory : List UInt8) → AttrRef → List UInt8
  /-- `nla_put`: the result and the message after it. -/
  nlaPut : Message → (type : ℤ) → (data : List UInt8) → ℤ × Message
  /-- Only the attribute stream changes. -/
  put_keeps : ∀ m type data, (nlaPut m type data).2 = { m with attrs := (nlaPut m type data).2.attrs }

/-- `std::string::c_str` as C code sees it: up to the first NUL. -/
def cStr (value : List UInt8) : List UInt8 := value.takeWhile (· ≠ 0)

theorem not_mem_cStr (value : List UInt8) : 0 ∉ cStr value := by
  intro zero
  simpa using List.mem_takeWhile_imp zero

theorem cStr_eq_iff {value : List UInt8} : cStr value = value ↔ 0 ∉ value := by
  rw [cStr, List.takeWhile_eq_self_iff]
  constructor
  · intro every zero
    simpa using every 0 zero
  · intro noNul b mem
    rw [decide_eq_true_eq]
    rintro rfl
    exact noNul mem

namespace Encoding

variable (N : Nla)

/-! ### The members -/

/-- `Message::Message()`: a message without attributes. -/
def newMessage : Message :=
  { port := 0, seq := 0, family := 0, hdrlen := 0, flags := 0, cmd := 0, version := 0, attrs := [] }

def NLE_NOMEM : ℤ := 5

/-- The conversion of a `size_t` to `int`: the lower 32 bits, in two's complement. -/
def toInt (size : ℕ) : ℤ :=
  if size % 0x100000000 < 0x80000000 then ((size % 0x100000000 : ℕ) : ℤ)
  else ((size % 0x100000000 : ℕ) : ℤ) - 0x100000000

/-- `nla_put` with the length it is given: a negative one is refused, otherwise so many bytes
are taken from the pointer. -/
def nla_put (m : Message) (attrtype len : ℤ) (data : List UInt8) : ℤ × Message :=
  if len < 0 then (-NLE_NOMEM, m) else N.nlaPut m attrtype (data.take len.toNat)

/-- The shape of every member: `nla_put`, then `throwCode(__FUNCTION__, err)`. -/
def putWith (function : String) (m : Message) (attrtype len : ℤ) (data : List UInt8) :
    Except Exception Unit × Message :=
  (Exception.throwCode function (nla_put N m attrtype len data).1,
    (nla_put N m attrtype len data).2)

/-- The bytes of a number in memory: `width` of them, in host byte order (little endian). -/
def hostBytes : (width value : ℕ) → List UInt8
  | 0, _ => []
  | width + 1, value => UInt8.ofNat value :: hostBytes width (value / 256)

section Members

variable (m : Message) (attrtype : ℤ)

/-- `put(int, size_t, const void *)`. -/
def putBytes (value : List UInt8) : Except Exception Unit × Message :=
  putWith N "put" m attrtype (toInt value.length) value

/-- `put(int, const vector<uint8_t> &)`. -/
def putVector (value : List UInt8) : Except Exception Unit × Message :=
  putWith N "put" m attrtype (toInt value.length) value

/-- `put(int, const std::ranges::subrange<const uint8_t *> &)`. -/
def putSubrange (value : List UInt8) : Except Exception Unit × Message :=
  putWith N "put" m attrtype (toInt value.length) value

/-- `put(int, const Address &)`, for an address with this binary representation. -/
def putAddress (address : List UInt8) : Except Exception Unit × Message :=
  putWith N "put" m attrtype (toInt address.length) address

def put_s8 (value : Int8) : Except Exception Unit × Message :=
  putWith N "put_s8" m attrtype 1 (hostBytes 1 value.toUInt8.toNat)

def put_u8 (value : UInt8) : Except Exception Unit × Message :=
  putWith N "put_u8" m attrtype 1 (hostBytes 1 value.toNat)

def put_s16 (value : Int16) : Except Exception Unit × Message :=
  putWith N "put_s16" m attrtype 2 (hostBytes 2 value.toUInt16.toNat)

def put_u16 (value : UInt16) : Except Exception Unit × Message :=
  putWith N "put_u16" m attrtype 2 (hostBytes 2 value.toNat)

def put_s32 (value : Int32) : Except Exception Unit × Message :=
  putWith N "put_s32" m attrtype 4 (hostBytes 4 value.toUInt32.toNat)

def put_u32 (value : UInt32) : Except Exception Unit × Message :=
  putWith N "put_u32" m attrtype 4 (hostBytes 4 value.toNat)

def put_s64 (value : Int64) : Except Exception Unit × Message :=
  putWith N "put_s64" m attrtype 8 (hostBytes 8 value.toUInt64.toNat)

def put_u64 (value : UInt64) : Except Exception Unit × Message :=
  putWith N "put_u64" m attrtype 8 (hostBytes 8 value.toNat)

/-- `put(int, const string &)`: `nla_put_string` takes the length from `strlen`. -/
def putString (value : List UInt8) : Except Exception Unit × Message :=
  putWith N "put" m attrtype (toInt ((cStr value).length + 1)) (cStr value ++ [0])

/-- `put(int, const Message &)`: the data of the nested message. -/
def putNested (nested : Message) : Except Exception Unit × Message :=
  putWith N "put" m attrtype nested.attrs.length nested.attrs

end Members

end Encoding

/-- `GenericNetlinkMessage::GenericNetlinkMessage`: what `genlmsg_put` fills in. -/
def GenericNetlinkMessage (port seq : UInt32) (family hdrlen flags : ℤ) (cmd version : UInt8) :
    Message :=
  { port, seq, family, hdrlen, flags, cmd, version, attrs := [] }

/-- `NLM_F_DUMP`. -/
def NLM_F_DUMP : ℤ := 0x300

/-! ### Requests with a lambda of the library -/

variable {π : Type}

/-- A `put` of a request: the message after it, or what it throws. -/
def SockProg.attempt (put : Except Exception Unit × Message) : SockProg π Message :=
  match put with
  | (.ok _, m) => pure m
  | (.error e, _) => .throw (.nl e)

theorem SockProg.attempt_ok {put : Except Exception Unit × Message} (ok : put.1 = .ok ()) :
    (SockProg.attempt put : SockProg π Message) = pure put.2 := by
  obtain ⟨r, m⟩ := put
  cases ok
  rfl

theorem SockProg.attempt_error {put : Except Exception Unit × Message} {e : Exception}
    (error : put.1 = .error e) :
    (SockProg.attempt put : SockProg π Message) = .throw (.nl e) := by
  obtain ⟨r, m⟩ := put
  cases error
  rfl

/-- The client's function objects, and a lambda of the library that does not
throw and leaves the socket alone. -/
def Caller.withLambda (call : Caller π) (lambda : Closure) : Caller π := fun closure msg =>
  if closure = lambda then SockProg.log (.handed closure msg) else call closure msg

/-- The payload of a data message. -/
def NlMsg.payload? (m : NlMsg π) : Option π :=
  match m.body with
  | .data p => some p
  | _ => none

/-- What a history says was handed to a function object. -/
def handedOver (closure : Closure) (trace : List (Event π)) : List π :=
  trace.filterMap fun
    | .handed c m => if c = closure then m.payload? else none
    | _ => none

namespace GenericSocket

variable {α : Type}

/-- `sendMessageSync(message, [&](GenericNetlinkMessage reply) { ... })` for a
lambda that works on one local variable: `body` is what it does to it. -/
def sendMessageSyncLocal (L : Libnl π) (call : Caller π) (message : Message) (lambda : Closure)
    (body : α → π → α) (result : α) : SockProg π α := do
  let before ← Prog.get
  let _ ← GenericSocket.sendMessageSync L (call.withLambda lambda) message lambda
  let after ← Prog.get
  return (handedOver lambda (after.trace.drop before.trace.length)).foldl body result

end GenericSocket

namespace Conduct

/-- The conduct of the client's function objects, with a lambda that does not throw. -/
def sparing (conduct : Conduct π) (lambda : Closure) : Conduct π := fun trace closure msg =>
  if closure = lambda then none else conduct trace closure msg

theorem withLambda_call (conduct : Conduct π) (lambda : Closure) :
    Caller.withLambda conduct.call lambda = (conduct.sparing lambda).call := by
  funext closure msg
  apply Prog.ext
  intro w
  by_cases same : closure = lambda
  · simp [Caller.withLambda, Conduct.call_run, sparing, same]
  · simp [Caller.withLambda, Conduct.call_run, sparing, same]

/-- An exchange that only calls a function object that never throws is calm. -/
theorem fails_calm {conduct : Conduct π} {closure : Closure}
    (silent : ∀ trace m, conduct trace closure m = none) (trace : List (Event π)) :
    conduct.fails trace (some closure) = calm := by
  funext passed
  unfold Conduct.fails
  split
  · next target msg same _ =>
      cases same
      exact silent _ _
  · rfl

theorem sparing_silent (conduct : Conduct π) (lambda : Closure) (trace : List (Event π))
    (m : NlMsg π) : conduct.sparing lambda trace lambda m = none :=
  if_pos rfl

end Conduct

/-- The lambda of an exchange is handed the payloads of the data messages. -/
theorem handedOver_handedTo (closure : Closure) (passed : List (NlMsg π)) :
    handedOver closure (handedTo (some closure) passed) = passed.filterMap NlMsg.payload? := by
  induction passed with
  | nil => rfl
  | cons m passed ih =>
      rw [List.filterMap_cons, ← ih]
      unfold NlMsg.payload? handedTo handedOver
      cases body : m.body with
      | data p => simp [NlMsg.isData, body, NlMsg.payload?]
      | done => simp [NlMsg.isData, body]
      | error e => simp [NlMsg.isData, body]

/-- **A request with a lambda refines the exchange**, and its result is the
lambda's work on the data messages dispatched, in order. -/
theorem sendMessageSyncLocal_exchange {α : Type} (L : Libnl π) (conduct : Conduct π)
    (message : Message) (lambda : Closure) (body : α → π → α) (result : α) (w : World π) :
    (GenericSocket.sendMessageSyncLocal L conduct.call message lambda body result).run w =
      (exchangeOf (conduct.sparing lambda) w (some lambda)).comeBack L message w (some lambda)
        fun passed => (passed.filterMap NlMsg.payload?).foldl body result := by
  simp only [GenericSocket.sendMessageSyncLocal, GenericSocket.sendMessageSync,
    Conduct.withLambda_call, Prog.run_bind, Prog.run_get, Outcome.next_returned, Prog.run_pure,
    sendMessageSyncWith_exchange]
  cases exchangeOf (conduct.sparing lambda) w (some lambda) with
  | ended p rest =>
      simp only [Ending.comeBack, Outcome.next_returned, Progress.world,
        World.during, List.drop_left, handedOver_handedTo]
  | thrown e p rest => rfl
  | starved p => rfl

end Nlcpp
