import Nlcpp.Message

/-!
`GenericSocket::Ctrl` and `GenericSocket::Nl80211`: requests whose replies are
parsed into records.
-/

namespace Nlcpp

open Encoding

variable (L : Libnl Reply) (N : Nla) (call : Caller Reply)

/-! ### The generic netlink controller -/

structure MulticastGroup where
  name : List UInt8 := []
  id : Int32 := 0
deriving DecidableEq, Repr

structure GenericFamily where
  name : List UInt8 := []
  id : Int32 := 0
  multicastGroups : List MulticastGroup := []
deriving DecidableEq, Repr

namespace Ctrl

def GENL_ID_CTRL : ℤ := 16
def CTRL_CMD_GETFAMILY : UInt8 := 3
def CTRL_ATTR_FAMILY_ID : ℕ := 1
def CTRL_ATTR_FAMILY_NAME : ℕ := 2
def CTRL_ATTR_MCAST_GROUPS : ℕ := 7
def CTRL_ATTR_MAX : ℕ := 10
def CTRL_ATTR_MCAST_GRP_NAME : ℕ := 1
def CTRL_ATTR_MCAST_GRP_ID : ℕ := 2
def CTRL_ATTR_MCAST_GRP_MAX : ℕ := 2

def familyId : ℤ := GENL_ID_CTRL

/-- The body of the loop over the nested multicast groups. -/
def parseMulticastGroup (memory : List UInt8) (result : GenericFamily) (mcgrp : AttrRef) :
    GenericFamily :=
  let tb_mcgrp := N.nlaParse CTRL_ATTR_MCAST_GRP_MAX memory mcgrp.payload mcgrp.len
  match tb_mcgrp CTRL_ATTR_MCAST_GRP_NAME, tb_mcgrp CTRL_ATTR_MCAST_GRP_ID with
  | some name, some id =>
    { result with multicastGroups := result.multicastGroups ++
        [{ name := N.nlaGetString memory name, id := (N.nlaGetU32 memory id).toInt32 }] }
  | _, _ => result

def parseGenericFamily (result : GenericFamily) (message : Reply) : GenericFamily :=
  let memory := message.memory
  let tb_msg := N.nlaParse CTRL_ATTR_MAX memory 0 message.attrs.length
  let result := match tb_msg CTRL_ATTR_FAMILY_NAME with
    | some attr => { result with name := N.nlaGetString memory attr }
    | none => result
  let result := match tb_msg CTRL_ATTR_FAMILY_ID with
    | some attr => { result with id := (N.nlaGetU32 memory attr).toInt32 }
    | none => result
  match tb_msg CTRL_ATTR_MCAST_GROUPS with
  | some attr => (N.nlaNested memory attr).foldl (parseMulticastGroup N memory) result
  | none => result

/-- The request of `Ctrl::getFamily` before the name is put. -/
def askFamily : Message := GenericNetlinkMessage 0 0 familyId 0 0 CTRL_CMD_GETFAMILY 0

/-- `Ctrl::getFamily`; `lambda` is the identity of its callback. -/
def getFamily (name : List UInt8) (lambda : Closure) : SockProg Reply (Option GenericFamily) := do
  let msg ← SockProg.attempt (putString N askFamily CTRL_ATTR_FAMILY_NAME name)
  GenericSocket.sendMessageSyncLocal L call msg lambda
    (fun _ reply => some (parseGenericFamily N {} reply)) none

/-- The request of `Ctrl::getFamilies`. -/
def dumpFamilies : Message :=
  GenericNetlinkMessage 0 0 familyId 0 NLM_F_DUMP CTRL_CMD_GETFAMILY 0

/-- `Ctrl::getFamilies`; `lambda` is the identity of its callback. -/
def getFamilies (lambda : Closure) : SockProg Reply (List GenericFamily) :=
  GenericSocket.sendMessageSyncLocal L call dumpFamilies lambda
    (fun result reply => result ++ [parseGenericFamily N {} reply]) []

end Ctrl

/-! ### The nl80211 family -/

/-- `nl80211::InterfaceConfiguration`. The enumeration `InterfaceType` has a
fixed underlying type, and the parser casts any value into it. -/
structure InterfaceConfiguration where
  ifindex : UInt32 := 0
  wiphy : UInt32 := 0
  iftype : Int32 := 0
  mac : Vector UInt8 6 := Vector.replicate 6 0
  use4addr : Bool := false
deriving DecidableEq

namespace Nl80211

def NL80211_CMD_GET_INTERFACE : UInt8 := 5
def NL80211_ATTR_WIPHY : ℕ := 1
def NL80211_ATTR_IFINDEX : ℕ := 3
def NL80211_ATTR_IFTYPE : ℕ := 5
def NL80211_ATTR_MAC : ℕ := 6
def NL80211_ATTR_4ADDR : ℕ := 83

/-- `memcpy(mac.data(), nla_data(attr), ETH_ALEN)`: six bytes from the start of
the payload, whatever its length. -/
def copyMac (memory : List UInt8) (attr : AttrRef) : Vector UInt8 6 :=
  Vector.ofFn fun i => memory.getD (attr.payload + i) 0

/-- `parseInterfaceConfiguration`; `attrMax` is the `NL80211_ATTR_MAX` of the
kernel headers. -/
def parseInterfaceConfiguration (attrMax : ℕ) (interface : InterfaceConfiguration)
    (message : Reply) : InterfaceConfiguration :=
  let memory := message.memory
  let tb_msg := N.nlaParse attrMax memory 0 message.attrs.length
  let interface := match tb_msg NL80211_ATTR_IFINDEX with
    | some attr => { interface with ifindex := N.nlaGetU32 memory attr }
    | none => interface
  let interface := match tb_msg NL80211_ATTR_WIPHY with
    | some attr => { interface with wiphy := N.nlaGetU32 memory attr }
    | none => interface
  let interface := match tb_msg NL80211_ATTR_IFTYPE with
    | some attr => { interface with iftype := (N.nlaGetU32 memory attr).toInt32 }
    | none => interface
  let interface := match tb_msg NL80211_ATTR_MAC with
    | some attr => { interface with mac := copyMac memory attr }
    | none => interface
  match tb_msg NL80211_ATTR_4ADDR with
  | some attr => { interface with use4addr := N.nlaGetU8 memory attr != 0 }
  | none => interface

/-- The request of `Nl80211::getInterface` before the index is put. -/
def askInterface (family : ℤ) : Message :=
  GenericNetlinkMessage 0 0 family 0 0 NL80211_CMD_GET_INTERFACE 0

/-- `Nl80211::getInterface`; `lambda` is the identity of its callback. -/
def getInterface (attrMax : ℕ) (family : ℤ) (ifindex : UInt32) (lambda : Closure) :
    SockProg Reply (Option InterfaceConfiguration) := do
  let msg ← SockProg.attempt (put_u32 N (askInterface family) NL80211_ATTR_IFINDEX ifindex)
  GenericSocket.sendMessageSyncLocal L call msg lambda
    (fun _ reply => some (parseInterfaceConfiguration N attrMax {} reply)) none

/-- The request of `Nl80211::getInterfaces`. -/
def dumpInterfaces (family : ℤ) : Message :=
  GenericNetlinkMessage 0 0 family 0 NLM_F_DUMP NL80211_CMD_GET_INTERFACE 0

/-- `Nl80211::getInterfaces`; `lambda` is the identity of its callback. -/
def getInterfaces (attrMax : ℕ) (family : ℤ) (lambda : Closure) :
    SockProg Reply (List InterfaceConfiguration) :=
  GenericSocket.sendMessageSyncLocal L call (dumpInterfaces family) lambda
    (fun result reply => result ++ [parseInterfaceConfiguration N attrMax {} reply]) []

end Nl80211

/-! ### What the lambdas leave -/

/-- `emplace_back` once for each reply. -/
theorem foldl_emplace_back {α : Type} (parse : Reply → α) (replies : List Reply)
    (result : List α) :
    replies.foldl (fun result reply => result ++ [parse reply]) result =
      result ++ replies.map parse := by
  induction replies generalizing result with
  | nil => simp
  | cons reply replies ih => simp [ih]

/-- Assigned once for each reply, the last one stays. -/
theorem foldl_assign {α : Type} (parse : Reply → α) (replies : List Reply) (result : Option α) :
    replies.foldl (fun _ reply => some (parse reply)) result =
      (replies.getLast?.map parse).or result := by
  induction replies using List.reverseRecOn with
  | nil => simp
  | append_singleton replies reply ih => simp

section Results

variable {N} (conduct : Conduct Reply) (w : World Reply)

/-- The families of a dump are its replies, parsed one by one. -/
theorem getFamilies_exchange (lambda : Closure) :
    (Ctrl.getFamilies L N conduct.call lambda).run w =
      (exchangeOf (conduct.sparing lambda) w (some lambda)).comeBack L Ctrl.dumpFamilies w
        (some lambda)
        fun passed => (passed.filterMap NlMsg.payload?).map (Ctrl.parseGenericFamily N {}) := by
  rw [Ctrl.getFamilies, sendMessageSyncLocal_exchange]
  simp only [foldl_emplace_back, List.nil_append]

theorem getInterfaces_exchange (attrMax : ℕ) (family : ℤ) (lambda : Closure) :
    (Nl80211.getInterfaces L N conduct.call attrMax family lambda).run w =
      (exchangeOf (conduct.sparing lambda) w (some lambda)).comeBack L
        (Nl80211.dumpInterfaces family) w (some lambda)
        fun passed => (passed.filterMap NlMsg.payload?).map
          (Nl80211.parseInterfaceConfiguration N attrMax {}) := by
  rw [Nl80211.getInterfaces, sendMessageSyncLocal_exchange]
  simp only [foldl_emplace_back, List.nil_append]

/-- `getFamily` keeps the last reply. -/
theorem getFamily_exchange {name : List UInt8}
    (put : (putString N Ctrl.askFamily Ctrl.CTRL_ATTR_FAMILY_NAME name).1 = .ok ())
    (lambda : Closure) :
    (Ctrl.getFamily L N conduct.call name lambda).run w =
      (exchangeOf (conduct.sparing lambda) w (some lambda)).comeBack L
        (putString N Ctrl.askFamily Ctrl.CTRL_ATTR_FAMILY_NAME name).2 w (some lambda)
        fun passed => (passed.filterMap NlMsg.payload?).getLast?.map
          (Ctrl.parseGenericFamily N {}) := by
  rw [Ctrl.getFamily, SockProg.attempt_ok put]
  refine (sendMessageSyncLocal_exchange L conduct _ lambda _ none w).trans ?_
  simp only [foldl_assign, Option.or_none]

/-- A name that does not fit into the message: nothing is sent. -/
theorem getFamily_refused {name : List UInt8} {e : Exception}
    (put : (putString N Ctrl.askFamily Ctrl.CTRL_ATTR_FAMILY_NAME name).1 = .error e)
    (lambda : Closure) :
    (Ctrl.getFamily L N conduct.call name lambda).run w = .threw (.nl e) w := by
  rw [Ctrl.getFamily, SockProg.attempt_error put]
  rfl

section Interface

variable (attrMax : ℕ) (family : ℤ) {ifindex : UInt32} (lambda : Closure)

/-- `getInterface` keeps the last reply. -/
theorem getInterface_exchange
    (put : (put_u32 N (Nl80211.askInterface family) Nl80211.NL80211_ATTR_IFINDEX ifindex).1 =
      .ok ()) :
    (Nl80211.getInterface L N conduct.call attrMax family ifindex lambda).run w =
      (exchangeOf (conduct.sparing lambda) w (some lambda)).comeBack L
        (put_u32 N (Nl80211.askInterface family) Nl80211.NL80211_ATTR_IFINDEX ifindex).2 w
        (some lambda)
        fun passed => (passed.filterMap NlMsg.payload?).getLast?.map
          (Nl80211.parseInterfaceConfiguration N attrMax {}) := by
  rw [Nl80211.getInterface, SockProg.attempt_ok put]
  refine (sendMessageSyncLocal_exchange L conduct _ lambda _ none w).trans ?_
  simp only [foldl_assign, Option.or_none]

/-- An index that does not fit into the message. -/
theorem getInterface_refused {e : Exception}
    (put : (put_u32 N (Nl80211.askInterface family) Nl80211.NL80211_ATTR_IFINDEX ifindex).1 =
      .error e) :
    (Nl80211.getInterface L N conduct.call attrMax family ifindex lambda).run w =
      .threw (.nl e) w := by
  rw [Nl80211.getInterface, SockProg.attempt_error put]
  rfl

end Interface

end Results

end Nlcpp
