import Nlcpp.CommandLine
import Nlcpp.Lib.Keywords
import Nlcpp.Lib.Numeral
import Nlcpp.Setters

/-!
The arguments of the test tool's commands.

`parseLinkArgs` and `parseAddressArgs` go through the words of a command. A keyword takes the
word after it, and there is one way to read the words so (`Keywords.split_iff`). What a parser
does is what the things that were read do, one after the other, up to the first that fails:
`parse_link_iff` and `parse_address_iff` say which words are taken, what comes of them, and
which word ends the program otherwise.
-/

namespace Nlcpp.TestTool

open Keywords

abbrev Word := List UInt8

/-- How a command ends before its end. -/
inductive Failure where
  /-- A message to `cerr`, and `exit(1)`. -/
  | exits (message : Word)
  /-- `stoi` throws. -/
  | invalidArgument
  | outOfRange
  | threw (e : Thrown)
  /-- libnl is handed a null pointer that it follows. -/
  | crashes
deriving DecidableEq, Repr

/-! ### Numbers -/

section Numbers

variable (isspace : UInt8 → Bool)

/-- `stoi`. -/
def stoi (str : Word) : Except Failure Int32 :=
  match Numeral.read isspace (cStr str) with
  | none => .error .invalidArgument
  | some n =>
    if -0x80000000 ≤ n ∧ n < 0x80000000 then .ok (Int32.ofInt n) else .error .outOfRange

end Numbers

/-! ### Links -/

/-- A `RouteLink`, with its interface index. -/
abbrev Link := RouteLink.Fields (Option Int32)

/-- `RouteLink::ifindex()`. -/
def Link.ifindex (link : Link) : Int32 := link.others.getD 0

/-- `RouteLink::ifindex(int)`. -/
def Link.setIfindex (index : Int32) (link : Link) : Link := { link with others := some index }

def unexpectedLinkArgument (arg : Word) : Failure :=
  .exits (ascii "unexpected link argument: " ++ arg ++ ascii "\n")

/-- `parseLinkArgs`. -/
def parseLinkArgs (R : Rtnl) (isspace : UInt8 → Bool) (link : Link) :
    List Word → Except Failure Link
  | [] => .ok link
  | [arg] => .error (unexpectedLinkArgument arg)
  | arg :: value :: rest =>
    if arg = ascii "name" then parseLinkArgs R isspace (RouteLink.name R value link).2 rest
    else if arg = ascii "ifindex" then
      match stoi isspace value with
      | .error f => .error f
      | .ok index => parseLinkArgs R isspace (link.setIfindex index) rest
    else if arg = ascii "type" then parseLinkArgs R isspace (RouteLink.type R value link).2 rest
    else .error (unexpectedLinkArgument arg)

/-- `rtnl_link_get_by_name`: the name of a link without one is empty. -/
def getByName (links : List Link) (name : Word) : Option Link :=
  links.find? fun link => (RouteLink.getName link).getD [] = cStr name

/-! ### Addresses -/

/-- What libnl does with the `RouteAddress` and `Address` objects of the tool. -/
structure AddressCalls (A B : Type) where
  /-- `nl_addr_parse(str, AF_UNSPEC, &addr)`. -/
  nlAddrParse : CString → ℤ × B
  nlAddrClone : B → Option B
  rtnlAddrSetFamily : A → ℤ → A
  rtnlAddrSetIfindex : A → Int32 → A
  rtnlAddrSetPrefixlen : A → Int32 → A
  rtnlAddrSetLocal : A → B → ℤ × A

def AF_INET : ℤ := 2
def AF_INET6 : ℤ := 10

/-- The bytes of a text in the message of an exception. -/
def text (bytes : Word) : String := String.ofList (bytes.map fun b => Char.ofNat b.toNat)

section Addresses

variable {A B : Type} (S : AddressCalls A B)

def attempt (r : Except Exception Unit) : Except Failure Unit :=
  r.mapError fun e => .threw (.nl e)

/-- `Address::Address(const string &)`. -/
def parseAddress (str : Word) : Except Failure B := do
  let (err, addr) := S.nlAddrParse (c_str str)
  attempt (Exception.throwCode ("Failed to parse address \"" ++ text str ++ "\": ") err)
  return addr

/-- `RouteAddress::local(const Address &)`. -/
def setLocal (addr : A) (laddr : B) : Except Failure A := do
  let copy ← match S.nlAddrClone laddr with
    | some copy => pure copy
    | none => .error (.threw (.runtimeError "Failed to copy address"))
  let (err, addr) := S.rtnlAddrSetLocal addr copy
  attempt (Exception.throwCode "failed to set local address" err)
  return addr

/-- The value of `fields`: nothing for an empty text. -/
def splitFields (value : Word) : List Word := if value = [] then [] else value.splitOn 44

/-- The branch of `family`. -/
def setFamily (addr : A) (family : Word) : A :=
  if family = ascii "inet" then S.rtnlAddrSetFamily addr AF_INET
  else if family = ascii "inet6" then S.rtnlAddrSetFamily addr AF_INET6
  else addr

/-- The branch of a word that is none of the keywords. -/
def addLocal (addr : A) (arg : Word) : Except Failure A := do
  setLocal S addr (← parseAddress S arg)

/-- `parseAddressArgs`, with the address that it works on and the fields so far. -/
def parseAddressArgs (isspace : UInt8 → Bool) (linkCache : List Link) (addr : A)
    (fields : List Word) : List Word → Except Failure (A × List Word)
  | [] => .ok (addr, fields)
  | [arg] =>
    match addLocal S addr arg with
    | .error f => .error f
    | .ok addr => .ok (addr, fields)
  | arg :: value :: rest =>
    if arg = ascii "family" then
      parseAddressArgs isspace linkCache (setFamily S addr value) fields rest
    else if arg = ascii "dev" then
      match getByName linkCache value with
      | none => .error .crashes
      | some link => parseAddressArgs isspace linkCache
          (S.rtnlAddrSetIfindex addr link.ifindex) fields rest
    else if arg = ascii "prefixlen" then
      match stoi isspace value with
      | .error f => .error f
      | .ok n => parseAddressArgs isspace linkCache (S.rtnlAddrSetPrefixlen addr n) fields rest
    else if arg = ascii "fields" then
      parseAddressArgs isspace linkCache addr (fields ++ splitFields value) rest
    else
      match addLocal S addr arg with
      | .error f => .error f
      | .ok addr => parseAddressArgs isspace linkCache addr fields (value :: rest)

end Addresses

/-! ### What `stoi` takes -/

section Stoi

variable {isspace : UInt8 → Bool} (apart : Numeral.Apart isspace) {str : Word}

include apart

theorem stoi_ok_iff {n : Int32} :
    stoi isspace str = .ok n ↔ Numeral.Begins isspace (cStr str) n.toInt := by
  rw [← Numeral.read_eq_some_iff apart, stoi]
  cases begins : Numeral.read isspace (cStr str) with
  | none => simp
  | some m =>
      have low := n.le_toInt
      have high := n.toInt_lt
      simp only [Option.some.injEq]
      by_cases inside : -0x80000000 ≤ m ∧ m < 0x80000000
      · rw [if_pos inside, Except.ok.injEq]
        constructor
        · rintro rfl
          exact (Int32.toInt_ofInt_of_le inside.1 inside.2).symm
        · rintro rfl
          exact Int32.ofInt_toInt n
      · rw [if_neg inside]
        constructor
        · intro same
          cases same
        · rintro rfl
          exact absurd ⟨low, high⟩ inside

/-- `stoi` reads what `<<` prints. -/
theorem stoi_signed (n : Int32) {rest : Word}
    (stop : ∀ b ∈ rest.head?, ¬Numeral.IsDigit b) :
    stoi isspace (Numeral.signed n.toInt ++ rest) = .ok n := by
  have noNul : ∀ b ∈ Numeral.signed n.toInt, decide (b ≠ 0) = true := by
    intro b mem
    rcases Numeral.mem_signed mem with digit | rfl
    · refine decide_eq_true ?_
      rintro rfl
      exact absurd digit (by decide)
    · rfl
  have cut : cStr (Numeral.signed n.toInt ++ rest) = Numeral.signed n.toInt ++ cStr rest :=
    List.takeWhile_append_of_pos noNul
  have stop' : ∀ b ∈ (cStr rest).head?, ¬Numeral.IsDigit b := by
    intro b first
    apply stop b
    cases rest with
    | nil => cases first
    | cons c rest =>
        by_cases nul : c = 0
        · simp [cStr, nul] at first
        · simpa [cStr, nul] using first
  rw [stoi_ok_iff apart, ← Numeral.read_eq_some_iff apart, cut]
  exact Numeral.read_signed apart _ stop'

end Stoi

/-! ### What link arguments are read as -/

inductive LinkKey where
  | name | ifindex | type
deriving DecidableEq, Repr

def LinkKey.spell : LinkKey → Word
  | name => ascii "name"
  | ifindex => ascii "ifindex"
  | type => ascii "type"

def linkKeys : Keys LinkKey Word :=
  .ofList LinkKey.spell [.name, .ifindex, .type] (fun key => by cases key <;> decide) <| by
    intro key key' same
    cases key <;> cases key' <;> first | rfl | exact absurd same (by decide)

/-- What is done with one thing that was read. -/
def linkEffect (R : Rtnl) (isspace : UInt8 → Bool) (link : Link) :
    Arg LinkKey Word → Except Failure Link
  | .pair .name value => .ok (RouteLink.name R value link).2
  | .pair .ifindex value => (stoi isspace value).map fun index => link.setIfindex index
  | .pair .type value => .ok (RouteLink.type R value link).2
  | .single word => .error (unexpectedLinkArgument word)

/-- A keyword with a value that is taken. -/
inductive LinkArg (isspace : UInt8 → Bool) where
  | name (value : Word)
  | ifindex (value : Word) (index : Int32) (reads : stoi isspace value = .ok index)
  | type (value : Word)

namespace LinkArg

variable {isspace : UInt8 → Bool}

def arg : LinkArg isspace → Arg LinkKey Word
  | name value => .pair .name value
  | ifindex value _ _ => .pair .ifindex value
  | type value => .pair .type value

def words (item : LinkArg isspace) : List Word := item.arg.words linkKeys

/-- The setter that is called. -/
def apply (R : Rtnl) (link : Link) : LinkArg isspace → Link
  | name value => (RouteLink.name R value link).2
  | ifindex _ index _ => link.setIfindex index
  | type value => (RouteLink.type R value link).2

def name? : LinkArg isspace → Option Word
  | name value => some value
  | _ => none

def ifindex? : LinkArg isspace → Option Int32
  | ifindex _ index _ => some index
  | _ => none

end LinkArg

/-- The words begin with one that ends the program. -/
inductive LinkOffence (isspace : UInt8 → Bool) : List Word → Failure → Prop where
  | unexpected {word rest} : linkKeys.find word = none ∨ rest = [] →
      LinkOffence isspace (word :: rest) (unexpectedLinkArgument word)
  | number {value rest f} : stoi isspace value = .error f →
      LinkOffence isspace (ascii "ifindex" :: value :: rest) f

section Links

variable {R : Rtnl} {isspace : UInt8 → Bool} {link : Link}

theorem parseLinkArgs_eq (args : List Word) :
    parseLinkArgs R isspace link args =
      (split linkKeys args).foldlM (linkEffect R isspace) link := by
  apply loop_eq_foldlM
  · intro link
    rfl
  · intro link key value rest
    cases key with
    | name => rfl
    | type => rfl
    | ifindex =>
        change parseLinkArgs R isspace link (ascii "ifindex" :: value :: rest) = _
        rw [parseLinkArgs, if_neg (by decide), if_pos rfl, linkEffect]
        cases stoi isspace value with
        | error f => rfl
        | ok index => rfl
  · intro link word rest alone
    cases rest with
    | nil => rfl
    | cons value rest =>
        have unknown := linkKeys.find_eq_none.mp (alone.resolve_right (List.cons_ne_nil _ _))
        have other (key : LinkKey) : word ≠ key.spell := Ne.symm (unknown key)
        have notName : word ≠ ascii "name" := other .name
        have notIfindex : word ≠ ascii "ifindex" := other .ifindex
        have notType : word ≠ ascii "type" := other .type
        rw [parseLinkArgs, if_neg notName, if_neg notIfindex, if_neg notType]
        rfl

theorem linkEffect_ok_iff (link : Link) (arg : Arg LinkKey Word) (link' : Link) :
    linkEffect R isspace link arg = .ok link' ↔
      ∃ item : LinkArg isspace, item.arg = arg ∧ item.apply R link = link' := by
  constructor
  · intro taken
    match arg with
    | .single word => cases taken
    | .pair .name value =>
        cases taken
        exact ⟨.name value, rfl, rfl⟩
    | .pair .type value =>
        cases taken
        exact ⟨.type value, rfl, rfl⟩
    | .pair .ifindex value =>
        rw [linkEffect] at taken
        cases reads : stoi isspace value with
        | error f =>
            rw [reads] at taken
            cases taken
        | ok index =>
            rw [reads] at taken
            cases taken
            exact ⟨.ifindex value index reads, rfl, rfl⟩
  · rintro ⟨item, rfl, rfl⟩
    cases item with
    | name value => rfl
    | type value => rfl
    | ifindex value index reads =>
        simp only [LinkArg.arg, linkEffect, reads]
        rfl

theorem linkEffect_error_iff {arg : Arg LinkKey Word} {f : Failure} :
    linkEffect R isspace link arg = .error f ↔
      (∃ word, arg = .single word ∧ f = unexpectedLinkArgument word) ∨
        ∃ value, arg = .pair .ifindex value ∧ stoi isspace value = .error f := by
  match arg with
  | .single word => simp [linkEffect, eq_comm]
  | .pair .name value => simp [linkEffect]
  | .pair .type value => simp [linkEffect]
  | .pair .ifindex value =>
      rw [linkEffect]
      cases reads : stoi isspace value with
      | error f' => simp [Except.map, reads]
      | ok index => simp [Except.map, reads]

/-- **Link arguments are taken** exactly when they are keywords with values that are taken,
and each of them sets the link. Otherwise the first word that is not taken ends the program. -/
theorem parse_link_iff (R : Rtnl) (isspace : UInt8 → Bool) (link : Link) (args : List Word) :
    (∀ link', parseLinkArgs R isspace link args = .ok link' ↔
      ∃ items : List (LinkArg isspace), items.flatMap LinkArg.words = args ∧
        items.foldl (LinkArg.apply R) link = link') ∧
    ∀ f, parseLinkArgs R isspace link args = .error f ↔
      ∃ (items : List (LinkArg isspace)) (rest : List Word),
        items.flatMap LinkArg.words ++ rest = args ∧ LinkOffence isspace rest f := by
  have pairs (items : List (LinkArg isspace)) :
      ∀ arg ∈ items.map LinkArg.arg, ∃ key value, arg = .pair key value := by
    refine List.forall_mem_map.mpr fun item _ => ?_
    cases item with
    | name value => exact ⟨_, _, rfl⟩
    | ifindex value index reads => exact ⟨_, _, rfl⟩
    | type value => exact ⟨_, _, rfl⟩
  have words (items : List (LinkArg isspace)) :
      (items.map LinkArg.arg).flatMap (Arg.words linkKeys) = items.flatMap LinkArg.words := by
    rw [List.flatMap_map]
    rfl
  have split_items (items : List (LinkArg isspace)) (rest : List Word) :
      split linkKeys (items.flatMap LinkArg.words ++ rest) =
        items.map LinkArg.arg ++ split linkKeys rest := by
    rw [← words, split_append (pairs items)]
  rw [parseLinkArgs_eq]
  constructor
  · intro link'
    rw [foldlM_ok_iff linkEffect_ok_iff]
    refine exists_congr fun items => and_congr_left fun _ => ?_
    constructor
    · intro read
      rw [← words, read, words_split]
    · rintro rfl
      have read := split_items items []
      have none_left : split linkKeys [] = [] := rfl
      rw [none_left, List.append_nil, List.append_nil] at read
      exact read.symm
  · intro f
    rw [foldlM_error_iff]
    constructor
    · rintro ⟨before, arg, after, link', read, fine, failed⟩
      obtain ⟨items, rfl, -⟩ := (foldlM_ok_iff linkEffect_ok_iff).mp fine
      obtain ⟨whole, proper⟩ := split_iff.mp read
      refine ⟨items, (arg :: after).flatMap (Arg.words linkKeys), ?_, ?_⟩
      · rw [← words, ← List.flatMap_append, whole]
      · rcases linkEffect_error_iff.mp failed with ⟨word, rfl, rfl⟩ | ⟨value, rfl, reads⟩
        · refine .unexpected (proper.alone.imp_right ?_)
          rintro rfl
          rfl
        · exact .number reads
    · rintro ⟨items, rest, rfl, offence⟩
      have fine : (items.map LinkArg.arg).foldlM (linkEffect R isspace) link =
          .ok (items.foldl (LinkArg.apply R) link) :=
        (foldlM_ok_iff linkEffect_ok_iff).mpr ⟨items, rfl, rfl⟩
      cases offence with
      | @unexpected word rest alone =>
          exact ⟨_, .single word, split linkKeys rest, _, by rw [split_items, split_single alone],
            fine, linkEffect_error_iff.mpr (.inl ⟨word, rfl, rfl⟩)⟩
      | @number value rest f reads =>
          exact ⟨_, .pair .ifindex value, split linkKeys rest, _,
            by rw [split_items]; exact congrArg _ (split_pair LinkKey.ifindex value rest),
            fine, linkEffect_error_iff.mpr (.inr ⟨value, rfl, reads⟩)⟩

/-- **The last name and the last index count**, whatever stands between them: of the name its
first 15 bytes. -/
theorem link_last (R : Rtnl) {isspace : UInt8 → Bool} (items : List (LinkArg isspace))
    (link : Link) :
    RouteLink.getName (items.foldl (LinkArg.apply R) link) =
        ((items.filterMap LinkArg.name?).getLast?.map fun name => (cStr name).take 15).or
          (RouteLink.getName link) ∧
      (items.foldl (LinkArg.apply R) link).others =
        (items.filterMap LinkArg.ifindex?).getLast?.or link.others := by
  constructor
  · have sets (link : Link) (item : LinkArg isspace) :
        RouteLink.getName (item.apply R link) =
          (item.name?.map fun name => (cStr name).take 15).or (RouteLink.getName link) := by
      cases item with
      | name value => exact R.name_set link.name (c_str value)
      | ifindex value index reads => rfl
      | type value => rfl
    rw [foldl_last sets, ← List.getLast?_map, List.map_filterMap]
  · have sets (link : Link) (item : LinkArg isspace) :
        (item.apply R link).others = item.ifindex?.or link.others := by
      cases item <;> rfl
    exact foldl_last sets items link

end Links

/-! ### What address arguments are read as -/

inductive AddressKey where
  | family | dev | prefixlen | fields
deriving DecidableEq, Repr

def AddressKey.spell : AddressKey → Word
  | family => ascii "family"
  | dev => ascii "dev"
  | prefixlen => ascii "prefixlen"
  | fields => ascii "fields"

def addressKeys : Keys AddressKey Word :=
  .ofList AddressKey.spell [.family, .dev, .prefixlen, .fields]
    (fun key => by cases key <;> decide) <| by
      intro key key' same
      cases key <;> cases key' <;> first | rfl | exact absurd same (by decide)

section Addresses

variable {A B : Type} (S : AddressCalls A B) (isspace : UInt8 → Bool) (linkCache : List Link)

/-- What is done to the address with one thing that was read. -/
def addressEffect (addr : A) : Arg AddressKey Word → Except Failure A
  | .pair .family value => .ok (setFamily S addr value)
  | .pair .dev value =>
    match getByName linkCache value with
    | none => .error .crashes
    | some link => .ok (S.rtnlAddrSetIfindex addr link.ifindex)
  | .pair .prefixlen value => (stoi isspace value).map (S.rtnlAddrSetPrefixlen addr)
  | .pair .fields _ => .ok addr
  | .single word => addLocal S addr word

/-- The fields of one thing that was read. -/
def fieldsOf : Arg AddressKey Word → List Word
  | .pair .fields value => splitFields value
  | _ => []

/-- Both together. -/
def addressStep (s : A × List Word) (arg : Arg AddressKey Word) : Except Failure (A × List Word) :=
  (addressEffect S isspace linkCache s.1 arg).map fun addr => (addr, s.2 ++ fieldsOf arg)

variable {S isspace linkCache} {addr : A} {fields : List Word}

theorem parseAddressArgs_step (s : A × List Word) (args : List Word) :
    parseAddressArgs S isspace linkCache s.1 s.2 args =
      (split addressKeys args).foldlM (addressStep S isspace linkCache) s := by
  refine loop_eq_foldlM (f := fun s args => parseAddressArgs S isspace linkCache s.1 s.2 args)
    ?_ ?_ ?_ s args
  · intro s
    rfl
  · intro s key value rest
    cases key with
    | family =>
        change parseAddressArgs S isspace linkCache s.1 s.2 (ascii "family" :: value :: rest) = _
        rw [parseAddressArgs, if_pos rfl]
        simp [addressStep, addressEffect, fieldsOf, Except.map, Except.bind]
    | dev =>
        change parseAddressArgs S isspace linkCache s.1 s.2 (ascii "dev" :: value :: rest) = _
        rw [parseAddressArgs, if_neg (by decide), if_pos rfl]
        cases found : getByName linkCache value <;>
          simp [addressStep, addressEffect, found, fieldsOf, Except.map, Except.bind]
    | prefixlen =>
        change parseAddressArgs S isspace linkCache s.1 s.2 (ascii "prefixlen" :: value :: rest) = _
        rw [parseAddressArgs, if_neg (by decide), if_neg (by decide), if_pos rfl]
        cases reads : stoi isspace value <;>
          simp [addressStep, addressEffect, reads, fieldsOf, Except.map, Except.bind]
    | fields =>
        change parseAddressArgs S isspace linkCache s.1 s.2 (ascii "fields" :: value :: rest) = _
        rw [parseAddressArgs, if_neg (by decide), if_neg (by decide), if_neg (by decide),
          if_pos rfl]
        rfl
  · intro s word rest alone
    have step : parseAddressArgs S isspace linkCache s.1 s.2 (word :: rest) =
        (addLocal S s.1 word).bind fun addr =>
          parseAddressArgs S isspace linkCache addr s.2 rest := by
      cases rest with
      | nil =>
          rw [parseAddressArgs]
          cases addLocal S s.1 word <;> rfl
      | cons value rest =>
          have unknown := addressKeys.find_eq_none.mp (alone.resolve_right (List.cons_ne_nil _ _))
          have other (key : AddressKey) : word ≠ key.spell := Ne.symm (unknown key)
          have notFamily : word ≠ ascii "family" := other .family
          have notDev : word ≠ ascii "dev" := other .dev
          have notPrefixlen : word ≠ ascii "prefixlen" := other .prefixlen
          have notFields : word ≠ ascii "fields" := other .fields
          rw [parseAddressArgs, if_neg notFamily, if_neg notDev, if_neg notPrefixlen,
            if_neg notFields]
          cases addLocal S s.1 word <;> rfl
    simp only [step, addressStep, addressEffect, fieldsOf, List.append_nil]
    cases addLocal S s.1 word <;> rfl

/-- The fields do not depend on the address. -/
theorem foldlM_addressStep (parsed : List (Arg AddressKey Word)) :
    parsed.foldlM (addressStep S isspace linkCache) (addr, fields) =
      (parsed.foldlM (addressEffect S isspace linkCache) addr).map fun addr' =>
        (addr', fields ++ parsed.flatMap fieldsOf) := by
  induction parsed generalizing addr fields with
  | nil => simp [Except.map, pure, Except.pure]
  | cons arg parsed ih =>
      rw [List.foldlM_cons, List.foldlM_cons, addressStep]
      cases addressEffect S isspace linkCache addr arg with
      | error f => rfl
      | ok addr₁ =>
          refine (@ih addr₁ (fields ++ fieldsOf arg)).trans ?_
          rw [List.append_assoc, ← List.flatMap_cons]
          rfl

/-- What ends the program at one thing that was read. -/
inductive AddressOffence (S : AddressCalls A B) (isspace : UInt8 → Bool) (linkCache : List Link)
    (addr : A) : Arg AddressKey Word → Failure → Prop where
  /-- No link has this name. -/
  | dev {value} : getByName linkCache value = none →
      AddressOffence S isspace linkCache addr (.pair .dev value) .crashes
  | prefixlen {value f} : stoi isspace value = .error f →
      AddressOffence S isspace linkCache addr (.pair .prefixlen value) f
  | address {word f} : addLocal S addr word = .error f →
      AddressOffence S isspace linkCache addr (.single word) f

theorem addressEffect_error_iff {arg : Arg AddressKey Word} {f : Failure} :
    addressEffect S isspace linkCache addr arg = .error f ↔
      AddressOffence S isspace linkCache addr arg f := by
  constructor
  · intro failed
    match arg with
    | .single word => exact .address failed
    | .pair .family value => cases failed
    | .pair .fields value => cases failed
    | .pair .dev value =>
        rw [addressEffect] at failed
        cases found : getByName linkCache value with
        | none =>
            rw [found] at failed
            cases failed
            exact .dev found
        | some link =>
            rw [found] at failed
            cases failed
    | .pair .prefixlen value =>
        rw [addressEffect] at failed
        cases reads : stoi isspace value with
        | error f' =>
            rw [reads] at failed
            cases failed
            exact .prefixlen reads
        | ok n =>
            rw [reads] at failed
            cases failed
  · intro offence
    cases offence with
    | dev unknown => simp only [addressEffect, unknown]
    | prefixlen reads => rw [addressEffect, reads]; rfl
    | address failed => exact failed

/-- The words are read as these keywords with values and words alone. -/
def ReadAs (args : List Word) (parsed : List (Arg AddressKey Word)) : Prop :=
  parsed.flatMap (Arg.words addressKeys) = args ∧ Proper addressKeys parsed

/-- **Address arguments.** There is one way to read them. They are taken when everything read
is done to the address, one after the other, and the fields are those of all `fields`.
Otherwise the first thing that fails ends the program: a device that no link has the name of,
a number that is none, an address that cannot be parsed or set. -/
theorem parse_address_iff (S : AddressCalls A B) (isspace : UInt8 → Bool) (linkCache : List Link)
    (addr : A) (args : List Word) :
    ∃ parsed, ReadAs args parsed ∧ (∀ parsed', ReadAs args parsed' → parsed' = parsed) ∧
      (∀ addr' fields', parseAddressArgs S isspace linkCache addr [] args = .ok (addr', fields') ↔
        parsed.foldlM (addressEffect S isspace linkCache) addr = .ok addr' ∧
          fields' = parsed.flatMap fieldsOf) ∧
      ∀ f, parseAddressArgs S isspace linkCache addr [] args = .error f ↔
        ∃ before arg after addr', parsed = before ++ arg :: after ∧
          before.foldlM (addressEffect S isspace linkCache) addr = .ok addr' ∧
          AddressOffence S isspace linkCache addr' arg f := by
  refine ⟨split addressKeys args, split_iff.mp rfl, fun parsed' reading => ?_, ?_, ?_⟩
  · exact (split_iff.mpr reading).symm
  · intro addr' fields'
    rw [parseAddressArgs_step (addr, []), foldlM_addressStep]
    cases (split addressKeys args).foldlM (addressEffect S isspace linkCache) addr with
    | error f => simp [Except.map]
    | ok addr₁ => simp [Except.map, eq_comm]
  · intro f
    have failed_iff : parseAddressArgs S isspace linkCache addr [] args = .error f ↔
        (split addressKeys args).foldlM (addressEffect S isspace linkCache) addr = .error f := by
      rw [parseAddressArgs_step (addr, []), foldlM_addressStep]
      cases (split addressKeys args).foldlM (addressEffect S isspace linkCache) addr with
      | error f' => simp [Except.map]
      | ok addr₁ => simp [Except.map]
    rw [failed_iff, foldlM_error_iff]
    simp only [addressEffect_error_iff]

end Addresses

end Nlcpp.TestTool
