import Nlcpp.Arguments
import Nlcpp.Lib.Prog
import Nlcpp.Requests
import Nlcpp.Traversal

/-!
The commands of the test tool, and what they print.

A command prints items and then one line that says that it is done; when it ends before its
end, the items so far are all it has printed (`runCommand_answers`). Whatever the command and its
arguments, the first word of a line says which command the line belongs to and whether it is
an item.
-/

namespace Nlcpp.TestTool

/-! ### The console -/

/-- The lines on `cout`, and the texts on `cerr`. -/
structure Console where
  out : List Word
  err : List Word
deriving DecidableEq, Repr

/-- Output is only added. -/
instance : Preorder Console where
  le c c' := c'.out <+: c.out ∧ c'.err <+: c.err
  le_refl c := ⟨List.prefix_refl _, List.prefix_refl _⟩
  le_trans _ _ _ before after := ⟨after.1.trans before.1, after.2.trans before.2⟩

abbrev Tool := Prog Failure Console

/-- `printLine`. -/
def printLine (line : Word) : Tool Unit :=
  .modify (fun c => { c with out := c.out ++ [line] }) fun _ =>
    ⟨List.prefix_append _ _, List.prefix_refl _⟩

/-- `cerr << message`. -/
def printError (message : Word) : Tool Unit :=
  .modify (fun c => { c with err := c.err ++ [message] }) fun _ =>
    ⟨List.prefix_refl _, List.prefix_append _ _⟩

/-- What ends a function ends the command; a message is printed first. -/
def Tool.lift {α : Type} : Except Failure α → Tool α
  | .ok a => pure a
  | .error (.exits message) => do
    printError message
    Prog.throw (.exits message)
  | .error f => Prog.throw f

/-! ### What is outside -/

/-- The libraries, as far as the commands use them. -/
structure System (A B : Type) where
  isspace : UInt8 → Bool
  R : Rtnl
  S : AddressCalls A B
  /-- A new `rtnl_addr`. -/
  rtnlAddr : A
  rtnlAddrGetLocal : A → Option B
  rtnlAddrGetPeer : A → Option B
  rtnlAddrGetBroadcast : A → Option B
  rtnlAddrGetMulticast : A → Option B
  rtnlAddrGetAnycast : A → Option B
  rtnlAddrGetPrefixlen : A → UInt32
  /-- `nl_addr2str` into the buffer of `Address::operator string`. -/
  nlAddr2str : B → CString
  /-- `nl_object_match_filter`. -/
  linkMatches : (filter object : Link) → Bool
  addressMatches : (filter object : A) → Bool

/-- What is answered while a command runs: allocations, the caches that a manager provides, a
socket, and the requests that are sent. -/
structure Env (A : Type) where
  nlCacheMngrAlloc : ℤ
  linkCache : ℤ × List Link
  addressCache : ℤ × List A
  /-- The command's own object is allocated. -/
  allocated : Bool
  /-- The filter of the iterator of `end()` is. -/
  endAllocated : Bool
  socket : Except String Unit
  rtnlLinkAdd : Link → ℤ
  rtnlLinkDelete : Link → ℤ
  rtnlAddrAdd : A → ℤ
  rtnlAddrDelete : A → ℤ

/-! ### The steps of the commands -/

section Commands

variable {A B : Type} (sys : System A B) (env : Env A)

/-- What a function of the library throws. -/
def throwing {α : Type} (r : Except Exception α) : Tool α :=
  Tool.lift (r.mapError fun e => .threw (.nl e))

/-- `RouteCacheManager()`. -/
def routeCacheManager : Tool Unit :=
  throwing (Exception.throwCode "nl_cache_mngr_alloc failed" env.nlCacheMngrAlloc)

/-- A cache, for the result of `nl_cache_mngr_add` and what it lists. -/
def nlCacheMngrAdd {α : Type} (added : ℤ × List α) : Tool (List α) := do
  throwing (Exception.throwCode "nl_cache_mngr_add failed" added.1)
  return added.2

/-- `RouteCacheManager::linkCache()`. -/
def linkCache : Tool (List Link) := nlCacheMngrAdd env.linkCache

/-- `RouteCacheManager::addressCache()`. -/
def addressCache : Tool (List A) := nlCacheMngrAdd env.addressCache

def allocate {α : Type} (what : String) (allocated : Bool) (object : α) : Tool α :=
  if allocated then pure object else Prog.throw (.threw (.runtimeError what))

/-- `RouteLink()`. -/
def routeLink : Tool Link :=
  allocate "Failed to allocate route netlink link" env.allocated ⟨none, none, none⟩

/-- `RouteAddress()`. -/
def routeAddress : Tool A :=
  allocate "Failed to allocate route netlink address" env.allocated sys.rtnlAddr

/-- `RouteSocket()`. -/
def routeSocket : Tool Unit :=
  Tool.lift (env.socket.mapError fun what => .threw (.runtimeError what))

/-- The objects that a loop over `cache.filter(filter)` goes through. `begin()` follows a null
pointer when the cache is empty, and `end()` allocates a filter. -/
def filtered {α : Type} (what : String) (cache : List α) (matched : α → Bool) :
    Tool (List α) :=
  if cache.isEmpty then Prog.throw .crashes
  else allocate what env.endAllocated (cache.filter matched)

/-! ### Commands for links -/

/-- What the body of the loop prints. -/
def linkItem (link : Link) : Word :=
  ascii "link-list-item " ++ Numeral.signed link.ifindex.toInt ++
    match RouteLink.getName link with
    | some name => ascii " " ++ name
    | none => []

def linkList (args : List Word) : Tool Unit := do
  routeCacheManager env
  let rcache ← linkCache env
  let filter ← routeLink env
  let filter ← Tool.lift (parseLinkArgs sys.R sys.isspace filter args)
  let links ← filtered env "Failed to allocate route netlink link" rcache
    (sys.linkMatches filter)
  links.forM fun link => printLine (linkItem link)
  printLine (ascii "link-list-done")

/-- `res ? "true" : "false"`. -/
def showBool (res : Bool) : Word := if res then ascii "true" else ascii "false"

def linkAdd (args : List Word) : Tool Unit := do
  let link ← routeLink env
  let link ← Tool.lift (parseLinkArgs sys.R sys.isspace link args)
  routeSocket env
  let res ← throwing (RouteSocket.addLink (env.rtnlLinkAdd link))
  printLine (ascii "link-add-done " ++ showBool res)

def linkDel (args : List Word) : Tool Unit := do
  let link ← routeLink env
  let link ← Tool.lift (parseLinkArgs sys.R sys.isspace link args)
  routeSocket env
  let res ← throwing (RouteSocket.delLink (env.rtnlLinkDelete link))
  printLine (ascii "link-del-done " ++ showBool res)

/-! ### Commands for addresses -/

/-- `RouteAddress::local()` and the others: a copy of the address, if there is one. -/
def getAddr (addr : Option B) : Tool (Option B) :=
  match addr with
  | none => pure none
  | some addr =>
    match sys.S.nlAddrClone addr with
    | some copy => pure (some copy)
    | none => Prog.throw (.threw (.runtimeError "Failed to copy address"))

/-- `showAddress`. -/
def showAddress (addr : Option B) : Word :=
  match addr with
  | some addr => (sys.nlAddr2str addr).val
  | none => ascii "none"

/-- What is added for a field. -/
def showField (addr : A) (field : Word) : Tool Word :=
  let shown (addr : Option B) : Tool Word := do
    return ascii " " ++ showAddress sys (← getAddr sys addr)
  if field = ascii "local" then shown (sys.rtnlAddrGetLocal addr)
  else if field = ascii "peer" then shown (sys.rtnlAddrGetPeer addr)
  else if field = ascii "broadcast" then shown (sys.rtnlAddrGetBroadcast addr)
  else if field = ascii "multicast" then shown (sys.rtnlAddrGetMulticast addr)
  else if field = ascii "anycast" then shown (sys.rtnlAddrGetAnycast addr)
  else if field = ascii "prefixlen" then
    pure (ascii " " ++ Numeral.numeral (sys.rtnlAddrGetPrefixlen addr).toNat)
  else pure []

/-- The loop over the fields. -/
def addressItem (fields : List Word) (addr : A) : Tool Word :=
  fields.foldlM (fun ss field => do return ss ++ (← showField sys addr field))
    (ascii "address-list-item")

/-- `parseAddressArgs(mngr.linkCache(), addr, args)`. -/
def parseArguments (addr : A) (args : List Word) : Tool (A × List Word) := do
  let links ← linkCache env
  Tool.lift (parseAddressArgs sys.S sys.isspace links addr [] args)

def addressList (args : List Word) : Tool Unit := do
  routeCacheManager env
  let rcache ← addressCache env
  let filter ← routeAddress sys env
  let (filter, fields) ← parseArguments sys env filter args
  let fields := if fields.isEmpty then [ascii "local"] else fields
  let addresses ← filtered env "Failed to allocate route netlink address" rcache
    (sys.addressMatches filter)
  addresses.forM fun addr => do printLine (← addressItem sys fields addr)
  printLine (ascii "address-list-done")

def addressAdd (args : List Word) : Tool Unit := do
  routeCacheManager env
  let _ ← addressCache env
  let addr ← routeAddress sys env
  let (addr, _) ← parseArguments sys env addr args
  routeSocket env
  let res ← throwing (RouteSocket.addAddress (env.rtnlAddrAdd addr))
  printLine (ascii "address-add-done " ++ showBool res)

def addressDel (args : List Word) : Tool Unit := do
  routeCacheManager env
  let _ ← addressCache env
  let addr ← routeAddress sys env
  let (addr, _) ← parseArguments sys env addr args
  routeSocket env
  let res ← throwing (RouteSocket.delAddress (env.rtnlAddrDelete addr))
  printLine (ascii "address-del-done " ++ showBool res)

/-- The arguments are not looked at. -/
def addressWatch (_args : List Word) : Tool Unit := do
  routeCacheManager env
  let _ ← addressCache env
  printLine (ascii "address-watch-done")

/-- The function of `commands`. -/
def runCommand : Action → List Word → Tool Unit
  | .linkList => linkList sys env
  | .linkAdd => linkAdd sys env
  | .linkDel => linkDel sys env
  | .addressList => addressList sys env
  | .addressAdd => addressAdd sys env
  | .addressDel => addressDel sys env
  | .addressWatch => addressWatch env

end Commands

/-! ### What belongs to a command -/

def Action.name : Action → Word
  | linkList => ascii "link-list"
  | linkAdd => ascii "link-add"
  | linkDel => ascii "link-del"
  | addressList => ascii "address-list"
  | addressAdd => ascii "address-add"
  | addressDel => ascii "address-del"
  | addressWatch => ascii "address-watch"

/-- The line up to its first blank. -/
def firstWord (line : Word) : Word := line.takeWhile (· ≠ 32)

/-- The line is an item of this command. -/
def IsItem (action : Action) (line : Word) : Prop :=
  firstWord line = action.name ++ ascii "-item"

/-- The line says that this command is done. -/
def IsDone (action : Action) (line : Word) : Prop :=
  firstWord line = action.name ++ ascii "-done"

/-- Items and a last line when the command returned, and items otherwise. -/
def IsAnswer (action : Action) (lines : List Word) : Except Failure Unit → Prop
  | .ok _ => ∃ items done, lines = items ++ [done] ∧ (∀ line ∈ items, IsItem action line) ∧
      IsDone action done
  | .error _ => ∀ line ∈ lines, IsItem action line

/-! ### What was printed before -/

/-- What a failure has on `cerr`. -/
def Failure.message : Failure → List Word
  | exits message => [message]
  | _ => []

section Prints

variable {α β : Type}

/-- A program prints these lines and ends like this, whatever has been printed before. -/
def Prints (p : Tool α) (lines : List Word) (r : Except Failure α) : Prop :=
  ∀ c, p.run c = match r with
    | .ok a => .returned a { c with out := c.out ++ lines }
    | .error f => .threw f ⟨c.out ++ lines, c.err ++ f.message⟩

/-- It ends, and prints no line. -/
def Quiet (p : Tool α) : Prop := ∃ r, Prints p [] r

/-- It prints an answer and ends. -/
def Answers (action : Action) (p : Tool Unit) : Prop :=
  ∃ lines r, Prints p lines r ∧ IsAnswer action lines r

theorem Prints.bind {p : Tool α} {k : α → Tool β} {lines more : List Word} {a : α}
    {r : Except Failure β} (first : Prints p lines (.ok a)) (later : Prints (k a) more r) :
    Prints (p >>= k) (lines ++ more) r := by
  intro c
  rw [Prog.run_bind, first c]
  refine (later _).trans ?_
  cases r <;> simp

theorem Prints.bind_error {p : Tool α} {lines : List Word} {f : Failure}
    (first : Prints p lines (.error f)) (k : α → Tool β) : Prints (p >>= k) lines (.error f) := by
  intro c
  rw [Prog.run_bind, first c, Outcome.next_threw]

theorem Quiet.bind {p : Tool α} {k : α → Tool β} (first : Quiet p) (later : ∀ a, Quiet (k a)) :
    Quiet (p >>= k) := by
  obtain ⟨r, prints⟩ := first
  cases r with
  | ok a =>
      obtain ⟨r, prints'⟩ := later a
      exact ⟨r, prints.bind prints'⟩
  | error f => exact ⟨.error f, prints.bind_error k⟩

theorem prints_printLine (line : Word) : Prints (printLine line) [line] (.ok ()) :=
  fun _ => rfl

theorem run_forM_cons (body : α → Tool PUnit) (a : α) (as : List α) (c : Console) :
    ((a :: as).forM body).run c = ((body a).run c).next fun _ c' => (as.forM body).run c' := rfl

theorem prints_pure (a : α) : Prints (pure a : Tool α) [] (.ok a) := fun c => by simp

theorem quiet_pure (a : α) : Quiet (pure a : Tool α) := ⟨.ok a, prints_pure a⟩

theorem quiet_foldlM {body : β → α → Tool β} (each : ∀ b a, Quiet (body b a)) (as : List α)
    (b : β) : Quiet (as.foldlM body b) := by
  induction as generalizing b with
  | nil => exact quiet_pure b
  | cons a as ih =>
      rw [List.foldlM_cons]
      exact (each b a).bind ih

end Prints

/-! ### Steps that print nothing -/

section Quiet

variable {α : Type}

theorem prints_lift (r : Except Failure α) : Prints (Tool.lift r) [] r := by
  intro c
  cases r with
  | ok a => simp [Tool.lift]
  | error f => cases f <;> simp [Tool.lift, printError, Failure.message]

theorem quiet_lift (r : Except Failure α) : Quiet (Tool.lift r) := ⟨r, prints_lift r⟩

theorem quiet_throwing (r : Except Exception α) : Quiet (throwing r) := quiet_lift _

theorem quiet_allocate (what : String) (allocated : Bool) (object : α) :
    Quiet (allocate what allocated object) := by
  cases allocated with
  | true => exact quiet_pure object
  | false => exact quiet_lift (.error (.threw (.runtimeError what)))

variable {A B : Type} (sys : System A B) (env : Env A)

theorem quiet_routeCacheManager : Quiet (routeCacheManager env) := quiet_throwing _

theorem quiet_nlCacheMngrAdd (added : ℤ × List α) : Quiet (nlCacheMngrAdd added) :=
  (quiet_throwing _).bind fun _ => quiet_pure _

theorem quiet_filtered (what : String) (cache : List α) (matched : α → Bool) :
    Quiet (filtered env what cache matched) := by
  unfold filtered
  split
  · exact quiet_lift (.error .crashes)
  · exact quiet_allocate _ _ _

theorem quiet_parseArguments (addr : A) (args : List Word) :
    Quiet (parseArguments sys env addr args) :=
  (quiet_nlCacheMngrAdd _).bind fun _ => quiet_lift _

/-- Copying an address prints nothing, also when it fails. -/
theorem prints_getAddr (addr : Option B) :
    ∃ r, Prints (getAddr sys addr) [] r ∧ ∀ f, r = .error f → f.message = [] := by
  cases addr with
  | none => exact ⟨_, prints_pure _, by simp⟩
  | some addr =>
      simp only [getAddr]
      cases sys.S.nlAddrClone addr with
      | some copy => exact ⟨_, prints_pure _, by simp⟩
      | none =>
          refine ⟨_, prints_lift (.error (.threw (.runtimeError "Failed to copy address"))), ?_⟩
          intro f threw
          cases threw
          rfl

theorem quiet_getAddr (addr : Option B) : Quiet (getAddr sys addr) := by
  obtain ⟨r, prints, -⟩ := prints_getAddr sys addr
  exact ⟨r, prints⟩

theorem quiet_showField (addr : A) (field : Word) : Quiet (showField sys addr field) := by
  have shown (a : Option B) :
      Quiet (do return ascii " " ++ showAddress sys (← getAddr sys a) : Tool Word) :=
    (quiet_getAddr sys a).bind fun _ => quiet_pure _
  unfold showField
  split_ifs
  all_goals first | exact shown _ | exact quiet_pure _

theorem quiet_addressItem (fields : List Word) (addr : A) :
    Quiet (addressItem sys fields addr) :=
  quiet_foldlM (fun _ field => (quiet_showField sys addr field).bind fun _ => quiet_pure _)
    fields _

end Quiet

/-! ### Answers -/

section Answers

variable {action : Action} {α : Type} {line done : Word}

theorem answers_printLine (isDone : IsDone action done) : Answers action (printLine done) :=
  ⟨[done], .ok (), prints_printLine done, [], done, rfl, by simp, isDone⟩

theorem Quiet.answers {p : Tool α} {k : α → Tool Unit} (quiet : Quiet p)
    (answers : ∀ a, Answers action (k a)) : Answers action (p >>= k) := by
  obtain ⟨r, prints⟩ := quiet
  cases r with
  | ok a =>
      obtain ⟨lines, r, prints', isAnswer⟩ := answers a
      exact ⟨lines, r, prints.bind prints', isAnswer⟩
  | error f => exact ⟨[], .error f, prints.bind_error k, by simp [IsAnswer]⟩

/-- An item before the others. -/
theorem IsAnswer.cons {lines : List Word} {r : Except Failure Unit} (isItem : IsItem action line)
    (isAnswer : IsAnswer action lines r) : IsAnswer action (line :: lines) r := by
  cases r with
  | ok u =>
      obtain ⟨items, done, rfl, areItems, isDone⟩ := isAnswer
      exact ⟨line :: items, done, rfl, List.forall_mem_cons.mpr ⟨isItem, areItems⟩, isDone⟩
  | error f => exact List.forall_mem_cons.mpr ⟨isItem, isAnswer⟩

/-- A loop that prints an item for each of its objects, and the line after it. -/
theorem answers_items {item : α → Tool Word} (quiet : ∀ x, Quiet (item x))
    (isItem : ∀ x line, Prints (item x) [] (.ok line) → IsItem action line)
    (isDone : IsDone action done) (xs : List α) :
    Answers action (do
      xs.forM fun x => do printLine (← item x)
      printLine done) := by
  induction xs with
  | nil => exact answers_printLine isDone
  | cons x xs ih =>
      have unrolled : (do
          (x :: xs).forM fun x => do printLine (← item x)
          printLine done : Tool Unit) =
            (item x >>= fun line => printLine line >>= fun _ =>
              (do
                xs.forM fun x => do printLine (← item x)
                printLine done : Tool Unit)) := by
        apply Prog.ext
        intro c
        rw [Prog.run_bind, run_forM_cons, Prog.run_bind, Prog.run_bind, Outcome.next_next,
          Outcome.next_next]
        rfl
      rw [unrolled]
      obtain ⟨r, prints⟩ := quiet x
      cases r with
      | ok line =>
          obtain ⟨lines, r, prints', isAnswer⟩ := ih
          exact ⟨_, r, prints.bind ((prints_printLine line).bind prints'),
            isAnswer.cons (isItem x line prints)⟩
      | error f => exact ⟨[], .error f, prints.bind_error _, by simp [IsAnswer]⟩

/-! ### The commands -/

/-- The text after the first word is empty, or begins with a blank. -/
def Follows (text : Word) : Prop := text = [] ∨ text.head? = some 32

theorem firstWord_follows {word text : Word} (noBlank : 32 ∉ word) (follows : Follows text) :
    firstWord (word ++ text) = word := by
  have every : ∀ b ∈ word, decide (b ≠ 32) = true := by
    intro b mem
    refine decide_eq_true ?_
    rintro rfl
    exact noBlank mem
  have nothing : text.takeWhile (· ≠ 32) = [] := by
    rcases follows with rfl | blank
    · rfl
    · obtain ⟨rest, rfl⟩ := List.head?_eq_some_iff.mp blank
      simp
  rw [firstWord, List.takeWhile_append_of_pos every, nothing, List.append_nil]

end Answers

section Returned

variable {α : Type}

theorem lift_returned_iff {r : Except Failure α} {a : α} {c c' : Console} :
    (Tool.lift r).run c = .returned a c' ↔ r = .ok a ∧ c = c' := by
  cases r with
  | ok b =>
      constructor
      · intro returned
        cases returned
        exact ⟨rfl, rfl⟩
      · rintro ⟨same, rfl⟩
        cases same
        rfl
  | error f => cases f <;> simp [Tool.lift, printError]

theorem throwing_returned_iff {r : Except Exception α} {a : α} {c c' : Console} :
    (throwing r).run c = .returned a c' ↔ r = .ok a ∧ c = c' := by
  rw [throwing, lift_returned_iff]
  cases r <;> simp [Except.mapError]

theorem allocate_returned_iff {what : String} {allocated : Bool} {object a : α} {c c' : Console} :
    (allocate what allocated object).run c = .returned a c' ↔
      allocated = true ∧ object = a ∧ c = c' := by
  cases allocated <;> simp [allocate]

theorem throwCode_ok_iff {function : String} {code : ℤ} {u : Unit} :
    Exception.throwCode function code = .ok u ↔ code = 0 := by
  by_cases zero : code = 0
  · simp [zero]
  · obtain ⟨e, thrown, -⟩ := Exception.throwCode_ne_zero function zero
    simp [thrown, zero]

variable {A B : Type} {sys : System A B} {env : Env A}

theorem routeCacheManager_returned_iff {u : Unit} {c c' : Console} :
    (routeCacheManager env).run c = .returned u c' ↔ env.nlCacheMngrAlloc = 0 ∧ c = c' := by
  rw [routeCacheManager, throwing_returned_iff, throwCode_ok_iff]

theorem nlCacheMngrAdd_returned_iff {added : ℤ × List α} {objects : List α} {c c' : Console} :
    (nlCacheMngrAdd added).run c = .returned objects c' ↔ added = (0, objects) ∧ c = c' := by
  obtain ⟨code, listed⟩ := added
  simp only [nlCacheMngrAdd, Prog.returned_bind_iff, throwing_returned_iff, throwCode_ok_iff,
    Prog.run_pure, Outcome.returned.injEq, Prod.mk.injEq]
  constructor
  · rintro ⟨-, u, ⟨zero, rfl⟩, same, rfl⟩
    exact ⟨⟨zero, same⟩, rfl⟩
  · rintro ⟨⟨zero, same⟩, rfl⟩
    exact ⟨(), c, ⟨zero, rfl⟩, same, rfl⟩

theorem filtered_returned_iff {what : String} {cache objects : List α} {matched : α → Bool}
    {c c' : Console} :
    (filtered env what cache matched).run c = .returned objects c' ↔
      cache ≠ [] ∧ env.endAllocated = true ∧ cache.filter matched = objects ∧ c = c' := by
  cases cache with
  | nil => simp [filtered]
  | cons x cache => simp [filtered, allocate_returned_iff]

theorem run_printLine (line : Word) (c : Console) :
    (printLine line).run c = .returned () { c with out := c.out ++ [line] } := rfl

theorem run_printLines (line : α → Word) (xs : List α) (c : Console) :
    (xs.forM fun x => printLine (line x)).run c =
      .returned () { c with out := c.out ++ xs.map line } := by
  induction xs generalizing c with
  | nil => simp [List.forM]
  | cons x xs ih =>
      rw [run_forM_cons]
      refine (ih { c with out := c.out ++ [line x] }).trans ?_
      simp

/-- The loop goes through what the iterators of the cache visit. -/
theorem filtered_traversed {H : Type} {L : ObjectCache H} {T : CachedClass} {s : Store H}
    {cache f : RawObject} {objects : List RawObject} {m : RawObject → Bool} {fuel i : ℕ}
    (listed : s.Listed L T cache objects) (filters : s.Filters L T objects f m)
    (holds : s.wrapper i = some ⟨T.cls, some f⟩) (nonempty : objects ≠ [])
    (enough : objects.length < fuel) (choices : ℕ → Increment) {visited : List Visit} {w : Walk H}
    (returned : (CacheRange.filtered cache i).traverse L T fuel choices ⟨s, []⟩ =
      .returned visited w)
    {view : RawObject → α} {matched : α → Bool} (agrees : ∀ o ∈ objects, matched (view o) = m o)
    (endAllocated : env.endAllocated = true) (what : String) (c : Console) :
    (filtered env what (objects.map view) matched).run c =
      .returned ((visited.filterMap Visit.object).map view) c := by
  have visits := CacheRange.traverse_filtered listed filters holds nonempty enough choices
  rw [returned] at visits
  rw [visits.1, objects_visits, filtered_returned_iff]
  refine ⟨by simpa using nonempty, endAllocated, ?_, rfl⟩
  rw [List.filter_map]
  refine congrArg (List.map view) (List.filter_congr fun o mem => ?_)
  rw [Function.comp, agrees o mem]

end Returned

/-! ### Listing links -/

section Links

variable {A B : Type} (sys : System A B) (env : Env A)

/-- **`link-list`** comes to its end exactly when everything is there, the arguments are taken
and the cache is not empty; it has then printed an item for each link of the cache that matches,
in the order of the cache. -/
theorem linkList_returned_iff (args : List Word) (c c' : Console) :
    (linkList sys env args).run c = .returned () c' ↔
      env.nlCacheMngrAlloc = 0 ∧ env.linkCache.1 = 0 ∧ env.allocated = true ∧
        env.endAllocated = true ∧ env.linkCache.2 ≠ [] ∧
        ∃ filter, parseLinkArgs sys.R sys.isspace ⟨none, none, none⟩ args = .ok filter ∧
          c' = { c with out := c.out ++
            (env.linkCache.2.filter (sys.linkMatches filter)).map linkItem ++
              [ascii "link-list-done"] } := by
  simp only [linkList, Prog.returned_bind_iff, routeCacheManager_returned_iff, linkCache,
    nlCacheMngrAdd_returned_iff, routeLink, allocate_returned_iff, lift_returned_iff,
    filtered_returned_iff, run_printLines, run_printLine, Outcome.returned.injEq]
  constructor
  · rintro ⟨-, _, ⟨manager, rfl⟩, links, _, ⟨cache, rfl⟩, _, _, ⟨allocated, rfl, rfl⟩, filter, _,
      ⟨parsed, rfl⟩, _, _, ⟨nonempty, endAllocated, rfl, rfl⟩, -, _, ⟨-, rfl⟩, -, rfl⟩
    rw [cache]
    exact ⟨manager, rfl, allocated, endAllocated, nonempty, filter, parsed, rfl⟩
  · rintro ⟨manager, cache, allocated, endAllocated, nonempty, filter, parsed, rfl⟩
    exact ⟨(), c, ⟨manager, rfl⟩, _, c, ⟨Prod.ext cache rfl, rfl⟩, _, c, ⟨allocated, rfl, rfl⟩,
      filter, c, ⟨parsed, rfl⟩, _, c, ⟨nonempty, endAllocated, rfl, rfl⟩, (), _, ⟨trivial, rfl⟩,
      trivial, rfl⟩

/-- What the tool relies on: `isspace` as in the C locale, as far as it goes. -/
structure PlainSpace (isspace : UInt8 → Bool) : Prop where
  numbers : Numeral.Apart isspace
  blank : isspace 32 = true
  newline : isspace newline = true
  letters : ∀ b : UInt8, 97 ≤ b.toNat ∧ b.toNat ≤ 122 → isspace b = false

/-- `isspace` in the C locale. -/
def cSpace (c : UInt8) : Bool := c = 32 || 9 ≤ c && c ≤ 13

theorem cSpace_plain : PlainSpace cSpace where
  numbers b space := by
    have small : b.toNat = 32 ∨ b.toNat ≤ 13 := by
      simp only [cSpace, Bool.or_eq_true, Bool.and_eq_true, decide_eq_true_eq,
        UInt8.le_iff_toNat_le] at space
      rcases space with rfl | ⟨-, le⟩
      · exact .inl rfl
      · exact .inr le
    refine ⟨?_, ?_, ?_⟩
    · rintro ⟨low, -⟩
      omega
    · rintro rfl
      exact absurd small (by decide)
    · rintro rfl
      exact absurd small (by decide)
  blank := by decide
  newline := by decide
  letters b letter := by
    refine eq_false_of_ne_true fun space => ?_
    simp only [cSpace, Bool.or_eq_true, Bool.and_eq_true, decide_eq_true_eq,
      UInt8.le_iff_toNat_le] at space
    rcases space with rfl | ⟨-, le⟩
    · exact absurd letter (by decide)
    · have high : b.toNat ≤ 13 := le
      omega

/-- A system whose addresses are texts. -/
def System.texts : System (Option CString) CString where
  isspace := cSpace
  R := .reference []
  S := {
    nlAddrParse := fun str => (0, str)
    nlAddrClone := some
    rtnlAddrSetFamily := fun addr _ => addr
    rtnlAddrSetIfindex := fun addr _ => addr
    rtnlAddrSetPrefixlen := fun addr _ => addr
    rtnlAddrSetLocal := fun _ laddr => (0, some laddr) }
  rtnlAddr := none
  rtnlAddrGetLocal := id
  rtnlAddrGetPeer := fun _ => none
  rtnlAddrGetBroadcast := fun _ => none
  rtnlAddrGetMulticast := fun _ => none
  rtnlAddrGetAnycast := fun _ => none
  rtnlAddrGetPrefixlen := fun _ => 0
  nlAddr2str := id
  linkMatches filter link := filter.name = none || filter.name = link.name
  addressMatches filter addr := filter = none || filter = addr

/-- Nothing is there, and nothing fails. -/
def Env.fair {A : Type} : Env A where
  nlCacheMngrAlloc := 0
  linkCache := (0, [])
  addressCache := (0, [])
  allocated := true
  endAllocated := true
  socket := .ok ()
  rtnlLinkAdd _ := 0
  rtnlLinkDelete _ := 0
  rtnlAddrAdd _ := 0
  rtnlAddrDelete _ := 0

section Items

variable {sys}

theorem PlainSpace.signed (plain : PlainSpace sys.isspace) (n : ℤ) :
    ∀ b ∈ Numeral.signed n, sys.isspace b = false := by
  intro b mem
  refine eq_false_of_ne_true fun space => ?_
  obtain ⟨notDigit, notMinus, -⟩ := plain.numbers b space
  rcases Numeral.mem_signed mem with digit | same
  · exact notDigit digit
  · exact notMinus same

theorem signed_ne_nil (n : ℤ) : Numeral.signed n ≠ [] := by
  unfold Numeral.signed
  split
  · simp
  · exact Numeral.numeral_ne_nil _

theorem zero_not_mem_signed (n : ℤ) : 0 ∉ Numeral.signed n := by
  intro mem
  rcases Numeral.mem_signed mem with digit | same
  · exact absurd digit (by decide)
  · cases same

/-- **An item names its link**: it is read as three words, of which the last two, given back as
arguments, make a filter with the index and the name of the link. -/
theorem linkItem_read_back (plain : PlainSpace sys.isspace) {link : Link} {name : Word}
    (named : RouteLink.getName link = some name) (some_ : name ≠ [])
    (nonspace : ∀ b ∈ name, sys.isspace b = false) :
    ∃ index, WordsOf sys.isspace (linkItem link ++ [newline])
        [ascii "link-list-item", index, name] ∧
      ∃ filter, parseLinkArgs sys.R sys.isspace ⟨none, none, none⟩
          [ascii "ifindex", index, ascii "name", name] = .ok filter ∧
        filter.ifindex = link.ifindex ∧ RouteLink.getName filter = some name ∧
        filter.type = none := by
  obtain ⟨short, held, rfl⟩ := Option.map_eq_some_iff.mp named
  obtain ⟨noNul, fits⟩ := short.property
  refine ⟨Numeral.signed link.ifindex.toInt, ?_, ?_⟩
  · have chars : ∀ b ∈ ascii "link-list-item",
        (97 ≤ b.toNat ∧ b.toNat ≤ 122) ∨ b = Numeral.minus := forall_mem_of_all (by decide)
    have tag : ∀ b ∈ ascii "link-list-item", sys.isspace b = false := by
      intro b mem
      rcases chars b mem with letter | rfl
      · exact plain.letters b letter
      · exact eq_false_of_ne_true fun space => (plain.numbers _ space).2.1 rfl
    let spoken : List (Spoken sys.isspace) := [
      ⟨ascii "link-list-item", [32], by decide, tag, by simp, by simp [plain.blank], by decide⟩,
      ⟨Numeral.signed link.ifindex.toInt, [32], signed_ne_nil _, plain.signed _, by simp,
        by simp [plain.blank], by simp [zero_not_mem_signed]⟩,
      ⟨short.val, [newline], some_, nonspace, by simp, by simp [plain.newline],
        by simp [noNul, newline]⟩]
    have whole : linkItem link ++ [newline] = spoken.flatMap Spoken.text := by
      simp [spoken, Spoken.text, linkItem, named, ascii]
    rw [whole]
    exact wordsOf_spoken spoken
  · have read : stoi sys.isspace (Numeral.signed link.ifindex.toInt) = .ok link.ifindex := by
      have signed : stoi sys.isspace (Numeral.signed link.ifindex.toInt ++ []) =
          .ok link.ifindex := stoi_signed plain.numbers link.ifindex (by simp)
      rwa [List.append_nil] at signed
    let indexed : Link := Link.setIfindex link.ifindex ⟨none, none, none⟩
    refine ⟨(RouteLink.name sys.R short.val indexed).2, ?_, rfl, ?_, rfl⟩
    · simp only [parseLinkArgs, read]
      rfl
    · have set := sys.R.name_set none (c_str short.val)
      have whole : (c_str short.val).val = short.val := c_str_eq_iff.mpr noNul
      rw [whole, List.take_of_length_le fits] at set
      exact set

/-- The item of the loopback device. -/
theorem linkItem_lo_read_back :
    ∃ index, WordsOf cSpace (ascii "link-list-item 1 lo\n")
        [ascii "link-list-item", index, ascii "lo"] ∧
      ∃ filter, parseLinkArgs (.reference []) cSpace ⟨none, none, none⟩
          [ascii "ifindex", index, ascii "name", ascii "lo"] = .ok filter ∧
        filter.ifindex = 1 ∧ RouteLink.getName filter = some (ascii "lo") ∧ filter.type = none :=
  @linkItem_read_back _ _ System.texts cSpace_plain
    ⟨some ⟨ascii "lo", by decide⟩, none, some 1⟩ (ascii "lo") rfl (by decide)
    (forall_mem_of_all (by decide))

end Items

end Links

/-! ### Listing addresses -/

section Addresses

variable {A B : Type} (sys : System A B) (env : Env A)

/-- The getter of a field. -/
def getterOf (field : Word) : Option (A → Option B) :=
  if field = ascii "local" then some sys.rtnlAddrGetLocal
  else if field = ascii "peer" then some sys.rtnlAddrGetPeer
  else if field = ascii "broadcast" then some sys.rtnlAddrGetBroadcast
  else if field = ascii "multicast" then some sys.rtnlAddrGetMulticast
  else if field = ascii "anycast" then some sys.rtnlAddrGetAnycast
  else none

/-- The text that a field adds: an address or `none`, the prefix length, or nothing for what is
no field. -/
def fieldText (addr : A) (field : Word) : Word :=
  match getterOf sys field with
  | some get => ascii " " ++ showAddress sys ((get addr).bind sys.S.nlAddrClone)
  | none =>
    if field = ascii "prefixlen" then
      ascii " " ++ Numeral.numeral (sys.rtnlAddrGetPrefixlen addr).toNat
    else []

/-- The line for an address: what its fields show, in the order of the fields. -/
def addressLine (fields : List Word) (addr : A) : Word :=
  ascii "address-list-item" ++ fields.flatMap (fieldText sys addr)

/-- What the fields show can be copied. -/
def Copied (addr : A) (field : Word) : Prop :=
  ∀ get, getterOf sys field = some get → ∀ b, get addr = some b → (sys.S.nlAddrClone b).isSome

variable {sys} {addr : A} {field : Word}

theorem follows_fieldText (addr : A) (field : Word) : Follows (fieldText sys addr field) := by
  unfold fieldText
  cases getterOf sys field with
  | some get => exact .inr rfl
  | none =>
      dsimp only
      split
      · exact .inr rfl
      · exact .inl rfl

theorem showField_eq (addr : A) (field : Word) :
    showField sys addr field =
      match getterOf sys field with
      | some get => do return ascii " " ++ showAddress sys (← getAddr sys (get addr))
      | none => pure (fieldText sys addr field) := by
  unfold showField fieldText getterOf
  split_ifs <;> rfl

theorem getAddr_returned_iff {addr got : Option B} {c c' : Console} :
    (getAddr sys addr).run c = .returned got c' ↔
      (∀ b, addr = some b → (sys.S.nlAddrClone b).isSome) ∧
        addr.bind sys.S.nlAddrClone = got ∧ c = c' := by
  cases addr with
  | none => simp [getAddr]
  | some b => cases copied : sys.S.nlAddrClone b <;> simp [getAddr, copied]

theorem showField_returned_iff {shown : Word} {c c' : Console} :
    (showField sys addr field).run c = .returned shown c' ↔
      Copied sys addr field ∧ fieldText sys addr field = shown ∧ c = c' := by
  rw [showField_eq]
  cases getter : getterOf sys field with
  | none => simp [Copied, getter]
  | some get =>
      simp only [Prog.returned_bind_iff, getAddr_returned_iff, Prog.run_pure,
        Outcome.returned.injEq, Copied, getter, Option.some.injEq, forall_eq', fieldText]
      constructor
      · rintro ⟨_, _, ⟨copied, rfl, rfl⟩, rfl, rfl⟩
        exact ⟨copied, rfl, rfl⟩
      · rintro ⟨copied, rfl, rfl⟩
        exact ⟨_, c, ⟨copied, rfl, rfl⟩, rfl, rfl⟩

theorem addressItem_returned_iff {fields : List Word} {item : Word} {c c' : Console} :
    (addressItem sys fields addr).run c = .returned item c' ↔
      (∀ field ∈ fields, Copied sys addr field) ∧ addressLine sys fields addr = item ∧ c = c' := by
  have each (ss : Word) : (fields.foldlM (fun ss field => do
      return ss ++ (← showField sys addr field) : Word → Word → Tool Word) ss).run c =
        .returned item c' ↔ (∀ field ∈ fields, Copied sys addr field) ∧
          ss ++ fields.flatMap (fieldText sys addr) = item ∧ c = c' := by
    induction fields generalizing ss with
    | nil => simp
    | cons field fields ih =>
        simp only [List.foldlM_cons, Prog.returned_bind_iff, showField_returned_iff,
          Prog.run_pure, Outcome.returned.injEq, List.forall_mem_cons, List.flatMap_cons]
        constructor
        · rintro ⟨_, _, ⟨_, _, ⟨copied, rfl, rfl⟩, rfl, rfl⟩, rest⟩
          obtain ⟨others, whole, same⟩ := (ih _).mp rest
          exact ⟨⟨copied, others⟩, by rw [← whole, List.append_assoc], same⟩
        · rintro ⟨⟨copied, others⟩, whole, rfl⟩
          refine ⟨_, c, ⟨_, c, ⟨copied, rfl, rfl⟩, rfl, rfl⟩, (ih _).mpr ⟨others, ?_, rfl⟩⟩
          rw [← whole, List.append_assoc]
  exact each _

/-- The loop over the addresses comes to its end when everything that it shows can be copied. -/
theorem printItems_returned_iff {fields : List Word} {addresses : List A} {u : PUnit}
    {c c' : Console} :
    (addresses.forM fun addr => do printLine (← addressItem sys fields addr)).run c =
        .returned u c' ↔
      (∀ addr ∈ addresses, ∀ field ∈ fields, Copied sys addr field) ∧
        { c with out := c.out ++ addresses.map (addressLine sys fields) } = c' := by
  induction addresses generalizing c with
  | nil => simp [List.forM]
  | cons addr addresses ih =>
      have first : ((addr :: addresses).forM fun addr => do
          printLine (← addressItem sys fields addr) : Tool Unit) = ((do
            let item ← addressItem sys fields addr
            printLine item) >>= fun _ => addresses.forM fun addr => do
              printLine (← addressItem sys fields addr)) := rfl
      simp only [first, Prog.returned_bind_iff, addressItem_returned_iff, run_printLine,
        Outcome.returned.injEq, List.forall_mem_cons, List.map_cons]
      constructor
      · rintro ⟨-, _, ⟨_, _, ⟨copied, rfl, rfl⟩, -, rfl⟩, rest⟩
        obtain ⟨others, whole⟩ := ih.mp rest
        exact ⟨⟨copied, others⟩, by rw [← whole]; simp⟩
      · rintro ⟨⟨copied, others⟩, whole⟩
        refine ⟨(), _, ⟨_, c, ⟨copied, rfl, rfl⟩, trivial, rfl⟩, ih.mpr ⟨others, ?_⟩⟩
        rw [← whole]
        simp

/-- The fields that are shown. -/
def shownFields (fields : List Word) : List Word :=
  if fields.isEmpty then [ascii "local"] else fields

/-- **`address-list`** comes to its end exactly when everything is there, the arguments are
taken, the cache is not empty and what is shown can be copied; it has then printed an item for
each address of the cache that matches, in the order of the cache, with what its fields show in
the order in which they were given. -/
theorem addressList_returned_iff (sys : System A B) (env : Env A) (args : List Word)
    (c c' : Console) :
    (addressList sys env args).run c = .returned () c' ↔
      env.nlCacheMngrAlloc = 0 ∧ env.addressCache.1 = 0 ∧ env.linkCache.1 = 0 ∧
        env.allocated = true ∧ env.endAllocated = true ∧ env.addressCache.2 ≠ [] ∧
        ∃ filter fields, parseAddressArgs sys.S sys.isspace env.linkCache.2 sys.rtnlAddr [] args =
            .ok (filter, fields) ∧
          let listed := env.addressCache.2.filter (sys.addressMatches filter)
          (∀ addr ∈ listed, ∀ field ∈ shownFields fields, Copied sys addr field) ∧
            c' = { c with out := c.out ++ listed.map (addressLine sys (shownFields fields)) ++
              [ascii "address-list-done"] } := by
  simp only [addressList, Prog.returned_bind_iff, routeCacheManager_returned_iff, addressCache,
    linkCache, nlCacheMngrAdd_returned_iff, routeAddress, allocate_returned_iff, parseArguments,
    lift_returned_iff, filtered_returned_iff, printItems_returned_iff, run_printLine,
    Outcome.returned.injEq]
  constructor
  · rintro ⟨-, _, ⟨manager, rfl⟩, addresses, _, ⟨cache, rfl⟩, _, _, ⟨allocated, rfl, rfl⟩,
      ⟨filter, fields⟩, _, ⟨links, _, ⟨linked, rfl⟩, parsed, rfl⟩, _, _,
      ⟨nonempty, endAllocated, rfl, rfl⟩, -, _, ⟨copied, rfl⟩, -, rfl⟩
    rw [cache, linked]
    exact ⟨manager, rfl, rfl, allocated, endAllocated, nonempty, filter, fields, parsed, copied,
      rfl⟩
  · rintro ⟨manager, cache, linked, allocated, endAllocated, nonempty, filter, fields, parsed,
      copied, rfl⟩
    exact ⟨(), c, ⟨manager, rfl⟩, _, c, ⟨Prod.ext cache rfl, rfl⟩, _, c, ⟨allocated, rfl, rfl⟩,
      (filter, fields), c, ⟨_, c, ⟨Prod.ext linked rfl, rfl⟩, parsed, rfl⟩, _, c,
      ⟨nonempty, endAllocated, rfl, rfl⟩, (), _, ⟨copied, rfl⟩, trivial, rfl⟩

end Addresses

/-! ### Every command answers -/

section Answers

variable {A B : Type} (sys : System A B) (env : Env A)

/-- A line that begins with a word, and goes on with a blank if it goes on. -/
theorem firstWord_of {line : Word} (word text : Word) (same : line = word ++ text)
    (noBlank : 32 ∉ word) (follows : Follows text) : firstWord line = word :=
  same ▸ firstWord_follows noBlank follows

theorem isItem_linkItem (link : Link) : IsItem .linkList (linkItem link) :=
  firstWord_of (ascii "link-list-item") _ rfl (by decide) (.inr rfl)

theorem isItem_addressLine (fields : List Word) (addr : A) :
    IsItem .addressList (addressLine sys fields addr) := by
  refine firstWord_of (ascii "address-list-item") _ rfl (by decide) ?_
  induction fields with
  | nil => exact .inl rfl
  | cons field fields ih =>
      have follows : Follows (fieldText sys addr field) := follows_fieldText addr field
      rcases follows with nothing | blank
      · rw [List.flatMap_cons, nothing]
        exact ih
      · obtain ⟨rest, begins⟩ := List.head?_eq_some_iff.mp blank
        rw [List.flatMap_cons, begins]
        exact .inr rfl

/-- The line that says what became of a request. -/
theorem answers_request {action : Action} {p : Tool Bool} (quiet : Quiet p) {done : Word}
    (isDone : done = action.name ++ ascii "-done ") :
    Answers action (p >>= fun res => printLine (done ++ showBool res)) := by
  refine quiet.answers fun res => answers_printLine ?_
  refine firstWord_of (action.name ++ ascii "-done") (32 :: showBool res) ?_ ?_ (.inr rfl)
  · rw [isDone]
    simp [ascii]
  · cases action <;> decide

/-- **Every command answers**, whatever has been printed before: with items and one last line
when it returns, and with items only when it does not. -/
theorem runCommand_answers (action : Action) (args : List Word) :
    Answers action (runCommand sys env action args) := by
  cases action with
  | linkList =>
      refine (quiet_routeCacheManager env).answers fun _ => ?_
      refine (quiet_nlCacheMngrAdd _).answers fun links => ?_
      refine (quiet_allocate _ _ _).answers fun _ => ?_
      refine (quiet_lift _).answers fun _ => ?_
      refine (quiet_filtered env _ _ _).answers fun listed => ?_
      have isDone : IsDone .linkList (ascii "link-list-done") := by
        unfold IsDone
        decide
      refine answers_items (fun link => quiet_pure (linkItem link)) ?_ isDone listed
      intro link line prints
      cases prints ⟨[], []⟩
      exact isItem_linkItem link
  | linkAdd | linkDel =>
      refine (quiet_allocate _ _ _).answers fun _ => ?_
      refine (quiet_lift _).answers fun _ => ?_
      refine (quiet_lift _).answers fun _ => ?_
      exact answers_request (quiet_throwing _) rfl
  | addressList =>
      refine (quiet_routeCacheManager env).answers fun _ => ?_
      refine (quiet_nlCacheMngrAdd _).answers fun addresses => ?_
      refine (quiet_allocate _ _ _).answers fun _ => ?_
      refine (quiet_parseArguments sys env _ _).answers fun _ => ?_
      refine (quiet_filtered env _ _ _).answers fun listed => ?_
      have isDone : IsDone .addressList (ascii "address-list-done") := by
        unfold IsDone
        decide
      refine answers_items (fun addr => quiet_addressItem sys _ addr) ?_ isDone listed
      intro addr line prints
      obtain ⟨-, rfl, -⟩ := addressItem_returned_iff.mp (prints ⟨[], []⟩)
      exact isItem_addressLine sys _ addr
  | addressAdd | addressDel =>
      refine (quiet_routeCacheManager env).answers fun _ => ?_
      refine (quiet_nlCacheMngrAdd _).answers fun _ => ?_
      refine (quiet_allocate _ _ _).answers fun _ => ?_
      refine (quiet_parseArguments sys env _ _).answers fun _ => ?_
      refine (quiet_lift _).answers fun _ => ?_
      exact answers_request (quiet_throwing _) rfl
  | addressWatch =>
      refine (quiet_routeCacheManager env).answers fun _ => ?_
      refine (quiet_nlCacheMngrAdd _).answers fun _ => ?_
      refine answers_printLine ?_
      unfold IsDone
      decide

end Answers

end Nlcpp.TestTool
