import Nlcpp.Lib.Keyed
import Nlcpp.Requests

/-!
What the answers of `RouteSocket` tell about a table of the kernel.

A table holds the addresses, the links or the routes, each with a key. `Asked` says which
codes libnl returns for a request, and what is in the table after it. A client that is alone
with the table knows from the answers of its own requests what is in it: `answers_tell`.
-/

namespace Nlcpp.RouteSocket

open Keyed

/-- What the members `add` and `del` are overloaded for. -/
inductive Kind where
  | address
  | link
  | route
deriving DecidableEq, Repr

/-- The code of a deletion that finds nothing. -/
def Kind.nothing : Kind → ℕ
  | address => NLE_NOADDR
  | link => NLE_NODEV
  | route => NLE_OBJ_NOTFOUND

/-- A request; what is deleted or changed is given by its key. -/
inductive Request (α κ : Type) where
  | add (a : α)
  | del (k : κ)
  | change (k : κ) (a : α)

variable {α κ : Type}

namespace Request

/-- The member of the request, for the result of libnl's function. -/
def member (kind : Kind) (request : Request α κ) (err : ℤ) : Except Exception Bool :=
  match request, kind with
  | add _, .address => addAddress err
  | add _, .link => addLink err
  | add _, .route => addRoute err
  | del _, .address => delAddress err
  | del _, .link => delLink err
  | del _, .route => delRoute err
  | change _ _, _ => changeLink err

/-- The code that says that there was nothing to do. A change has none. -/
def nothing (kind : Kind) : Request α κ → Option ℕ
  | add _ => some NLE_EXIST
  | del _ => some kind.nothing
  | change _ _ => none

variable [DecidableEq κ] (key : α → κ)

/-- What is known of a key after a request that came back. -/
def tells (k : κ) : Request α κ → Option Bool
  | add a => if key a = k then some true else none
  | del j => if j = k then some false else none
  | change j a => if key a = k then some true else if j = k then some false else none

/-- The answer of a request that comes back, by what is known before it. -/
def expected (present : κ → Bool) : Request α κ → Bool
  | add a => !present (key a)
  | del k => present k
  | change k _ => present k

end Request

section Tables

variable [DecidableEq κ] (kind : Kind) (key : α → κ)

/-- What libnl returns for a request, and the table after it. Only links can be changed. -/
inductive Asked (table : List α) : Request α κ → ℤ → List α → Prop
  | added {a : α} (fresh : key a ∉ keys key table) : Asked table (.add a) 0 (table ++ [a])
  | present {a : α} (here : key a ∈ keys key table) :
      Asked table (.add a) (-(NLE_EXIST : ℤ)) table
  | deleted {k : κ} (here : k ∈ keys key table) : Asked table (.del k) 0 (erase key k table)
  | missing {k : κ} (none : k ∉ keys key table) :
      Asked table (.del k) (-(kind.nothing : ℤ)) table
  | changed {k : κ} {a : α} (link : kind = .link) (here : k ∈ keys key table)
      (fits : key a = k ∨ key a ∉ keys key table) :
      Asked table (.change k a) 0 (replace key k a table)
  | refused {request : Request α κ} {err : ℤ} (failed : err ≠ 0)
      (other : ∀ n ∈ request.nothing kind, err ≠ -(n : ℤ)) : Asked table request err table

/-- Requests one after the other, with the codes that libnl returns. -/
inductive AskedAll : List α → List (Request α κ × ℤ) → List α → Prop
  | nil {table : List α} : AskedAll table [] table
  | cons {table after last : List α} {request : Request α κ} {err : ℤ}
      {later : List (Request α κ × ℤ)} (first : Asked kind key table request err after)
      (rest : AskedAll after later last) : AskedAll table ((request, err) :: later) last

/-- What a client notes about a key that sees the answers. -/
def note (k : κ) (present : Bool) (entry : Request α κ × ℤ) : Bool :=
  match entry.1.member kind entry.2 with
  | .ok _ => (entry.1.tells key k).getD present
  | .error _ => present

omit [DecidableEq κ] in
/-- An object was added. -/
def gained (entry : Request α κ × ℤ) : Bool :=
  match entry.1, entry.1.member kind entry.2 with
  | .add _, .ok true => true
  | _, _ => false

omit [DecidableEq κ] in
/-- An object was deleted. -/
def lost (entry : Request α κ × ℤ) : Bool :=
  match entry.1, entry.1.member kind entry.2 with
  | .del _, .ok true => true
  | _, _ => false

end Tables

/-! ### The answers -/

section Answers

variable {kind : Kind} {request : Request α κ} {err : ℤ}

/-- Where there may be nothing to do, a member is of the shape of `answer`. -/
theorem member_answer {n : ℕ} (code : request.nothing kind = some n) :
    n ≠ 0 ∧ ∃ function, ∀ err, request.member kind err = answer function n err := by
  cases request with
  | add a =>
      cases code
      cases kind <;> exact ⟨by decide, _, fun _ => rfl⟩
  | del k =>
      cases code
      cases kind <;> exact ⟨by decide, _, fun _ => rfl⟩
  | change k a => cases code

theorem member_zero (kind : Kind) (request : Request α κ) : request.member kind 0 = .ok true := by
  cases code : request.nothing kind with
  | none =>
      cases request with
      | change k a => rfl
      | _ => cases code
  | some n =>
      obtain ⟨positive, function, member⟩ := member_answer code
      rw [member, answer, if_neg (by omega), Exception.throwCode_zero]
      rfl

theorem member_nothing {n : ℕ} (code : request.nothing kind = some n) :
    request.member kind (-(n : ℤ)) = .ok false := by
  obtain ⟨-, function, member⟩ := member_answer code
  rw [member, answer, if_pos rfl]

theorem member_refused (failed : err ≠ 0) (other : ∀ n ∈ request.nothing kind, err ≠ -(n : ℤ)) :
    ∃ e, request.member kind err = .error e := by
  cases code : request.nothing kind with
  | none =>
      cases request with
      | change k a =>
          obtain ⟨e, thrown, -⟩ := Exception.throwCode_ne_zero "rtnl_link_change failed" failed
          exact ⟨e, by rw [Request.member, changeLink, thrown]; rfl⟩
      | _ => cases code
  | some n =>
      obtain ⟨-, function, member⟩ := member_answer code
      obtain ⟨e, thrown, -⟩ := Exception.throwCode_ne_zero (function ++ " failed") failed
      exact ⟨e, by rw [member, answer, if_neg (other n code), thrown]; rfl⟩

end Answers

/-! ### One request -/

section Step

variable [DecidableEq κ] {kind : Kind} {key : α → κ} {table after : List α}
  {request : Request α κ} {err : ℤ}

theorem note_ok {b : Bool} (answered : request.member kind err = .ok b) (k : κ) (present : Bool) :
    note kind key k present (request, err) = (request.tells key k).getD present := by
  simp only [note, answered]

theorem Asked.distinct (asked : Asked kind key table request err after)
    (distinct : Distinct key table) : Distinct key after := by
  cases asked with
  | added fresh => exact distinct.append fresh
  | deleted here => exact distinct.erase
  | changed link here fits => exact distinct.replace fits
  | present here | missing none | refused failed other => exact distinct

/-- The note of a key is right after a request when it was right before. -/
theorem Asked.noted (asked : Asked kind key table request err after)
    (distinct : Distinct key table) (k : κ) :
    note kind key k (decide (k ∈ keys key table)) (request, err) = decide (k ∈ keys key after) := by
  cases asked with
  | @added a fresh =>
      rw [note_ok (member_zero kind _), Request.tells, keys_append]
      by_cases own : key a = k
      · simp [own]
      · simp [own, Ne.symm own]
  | @present a here =>
      rw [note_ok (member_nothing rfl), Request.tells]
      by_cases own : key a = k
      · subst own
        simp [here]
      · simp [own]
  | @deleted j here =>
      rw [note_ok (member_zero kind _), Request.tells]
      simp only [distinct.mem_erase]
      by_cases own : j = k
      · simp [own]
      · simp [own, Ne.symm own]
  | @missing j none =>
      rw [note_ok (member_nothing rfl), Request.tells]
      by_cases own : j = k
      · subst own
        simp [none]
      · simp [own]
  | @changed j a link here fits =>
      rw [note_ok (member_zero kind _), Request.tells]
      simp only [mem_replace here]
      by_cases named : key a = k
      · simp [named]
      · by_cases own : j = k
        · simp [named, Ne.symm named, own]
        · simp [named, Ne.symm named, own, Ne.symm own]
  | refused failed other =>
      obtain ⟨e, thrown⟩ := member_refused failed other
      simp only [note, thrown]

/-- An answer says what was in the table. -/
theorem Asked.expected (asked : Asked kind key table request err after) {b : Bool}
    (answered : request.member kind err = .ok b) :
    request.expected key (fun k => decide (k ∈ keys key table)) = b := by
  cases asked with
  | added fresh =>
      rw [member_zero] at answered
      cases answered
      simp [Request.expected, fresh]
  | present here =>
      rw [member_nothing rfl] at answered
      cases answered
      simp [Request.expected, here]
  | deleted here =>
      rw [member_zero] at answered
      cases answered
      simp [Request.expected, here]
  | missing none =>
      rw [member_nothing rfl] at answered
      cases answered
      simp [Request.expected, none]
  | changed link here fits =>
      rw [member_zero] at answered
      cases answered
      simp [Request.expected, here]
  | refused failed other =>
      obtain ⟨e, thrown⟩ := member_refused failed other
      rw [thrown] at answered
      cases answered

/-- The table grows and shrinks by the requests that came back with true. -/
theorem Asked.size (asked : Asked kind key table request err after) :
    after.length + (lost kind (request, err)).toNat =
      table.length + (gained kind (request, err)).toNat := by
  cases asked with
  | added fresh => simp [lost, gained, member_zero]
  | @present a here =>
      have answered : (Request.add a : Request α κ).member kind _ = .ok false := member_nothing rfl
      simp only [lost, gained, answered]
  | deleted here =>
      simp only [lost, gained, member_zero]
      exact length_erase here
  | @missing k none =>
      have answered : (Request.del k : Request α κ).member kind _ = .ok false := member_nothing rfl
      simp only [lost, gained, answered]
  | changed link here fits => simp [lost, gained, replace]
  | refused failed other =>
      obtain ⟨e, thrown⟩ := member_refused failed other
      cases request <;> simp only [lost, gained, thrown]

/-- Without the answer true, nothing has happened. -/
theorem Asked.unchanged (asked : Asked kind key table request err after)
    (nothing : request.member kind err ≠ .ok true) : after = table := by
  cases asked with
  | added fresh => exact absurd (member_zero kind _) nothing
  | deleted here => exact absurd (member_zero kind _) nothing
  | changed link here fits => exact absurd (member_zero kind _) nothing
  | present here | missing none | refused failed other => rfl

/-- `rtnl_addr_delete` with a pattern that is a key is such a request, and the member answers it
as `del`. -/
theorem del_asked (key : α → κ) (k : κ) (table : List α) :
    ∃ err, Asked .address key table (.del k) err (del (fun a => key a = k) table).2 ∧
      (del (fun a => key a = k) table).1 = (Request.del k : Request α κ).member .address err := by
  by_cases here : k ∈ keys key table
  · obtain ⟨a, mem, same⟩ := List.mem_map.mp here
    rw [del_of_match mem (decide_eq_true same)]
    exact ⟨0, .deleted here, (member_zero .address _).symm⟩
  · have none : ∀ a ∈ table, decide (key a = k) = false := fun a mem =>
      decide_eq_false fun same => here (List.mem_map.mpr ⟨a, mem, same⟩)
    rw [del_of_none none]
    exact ⟨_, .missing here, (member_nothing rfl).symm⟩

end Step

/-! ### Requests one after the other -/

section Run

variable [DecidableEq κ] {kind : Kind} {key : α → κ} {table after : List α}
  {log : List (Request α κ × ℤ)}

/-- The part of a run that comes before one of its requests, and the request. -/
theorem AskedAll.split {before later : List (Request α κ × ℤ)} {entry : Request α κ × ℤ}
    (asked : AskedAll kind key table (before ++ entry :: later) after) :
    ∃ here there, AskedAll kind key table before here ∧
      Asked kind key here entry.1 entry.2 there := by
  induction before generalizing table with
  | nil =>
      cases asked with
      | cons first rest => exact ⟨table, _, .nil, first⟩
  | cons other before ih =>
      cases asked with
      | cons first rest =>
          obtain ⟨here, there, asked, request⟩ := ih rest
          exact ⟨here, there, .cons first asked, request⟩

theorem AskedAll.distinct (asked : AskedAll kind key table log after)
    (distinct : Distinct key table) : Distinct key after := by
  induction asked with
  | nil => exact distinct
  | cons first _ ih => exact ih (first.distinct distinct)

/-- The notes of a client are right after all requests. -/
theorem AskedAll.noted (asked : AskedAll kind key table log after)
    (distinct : Distinct key table) (k : κ) :
    log.foldl (note kind key k) (decide (k ∈ keys key table)) = decide (k ∈ keys key after) := by
  induction asked with
  | nil => rfl
  | cons first _ ih =>
      rw [List.foldl_cons, first.noted distinct, ih (first.distinct distinct)]

theorem AskedAll.size (asked : AskedAll kind key table log after) :
    after.length + log.countP (lost kind) = table.length + log.countP (gained kind) := by
  induction asked with
  | nil => rfl
  | @cons table mid last request err later first _ ih =>
      have step := first.size
      rw [List.countP_cons, List.countP_cons]
      cases gone : lost kind (request, err) with
      | true =>
          cases come : gained kind (request, err) <;> simp [gone, come] at step ⊢ <;> omega
      | false =>
          cases come : gained kind (request, err) <;> simp [gone, come] at step ⊢ <;> omega

theorem AskedAll.unchanged (asked : AskedAll kind key table log after)
    (nothing : ∀ entry ∈ log, entry.1.member kind entry.2 ≠ .ok true) : after = table := by
  induction asked with
  | nil => rfl
  | cons first _ ih =>
      obtain ⟨here, later⟩ := List.forall_mem_cons.mp nothing
      rw [ih later, first.unchanged here]

end Run

/-- **The answers tell what is in the table.** Whatever is requested in whatever order, and
whatever is refused: the keys stay distinct; the notes of a client that only sees the answers
are right after all requests; each answer is the one to be expected from the notes before it;
the table has grown by the additions that came back with true less such deletions, and is
unchanged when nothing came back with true. -/
theorem answers_tell [DecidableEq κ] {kind : Kind} {key : α → κ} {table after : List α}
    {log : List (Request α κ × ℤ)} (asked : AskedAll kind key table log after)
    (distinct : Distinct key table) :
    Distinct key after ∧
    (∀ k, log.foldl (note kind key k) (decide (k ∈ keys key table)) =
      decide (k ∈ keys key after)) ∧
    (∀ before entry later, log = before ++ entry :: later →
      ∀ b, entry.1.member kind entry.2 = .ok b →
        entry.1.expected key
          (fun k => before.foldl (note kind key k) (decide (k ∈ keys key table))) = b) ∧
    after.length + log.countP (lost kind) = table.length + log.countP (gained kind) ∧
    ((∀ entry ∈ log, entry.1.member kind entry.2 ≠ .ok true) → after = table) := by
  refine ⟨asked.distinct distinct, asked.noted distinct, ?_, asked.size, asked.unchanged⟩
  rintro before entry later rfl b answered
  obtain ⟨here, there, first, request⟩ := asked.split
  simp only [first.noted distinct]
  exact request.expected answered

/-- A link is added twice and deleted twice; what is known of `1` is right. -/
theorem added_and_deleted_twice :
    let log : List (Request ℕ ℕ × ℤ) := [(.add 1, 0), (.add 1, -6), (.del 1, 0), (.del 1, -31)]
    log.map (fun entry => entry.1.member .link entry.2) =
        [.ok true, .ok false, .ok true, .ok false] ∧
      log.foldl (note .link id 1) false = decide (1 ∈ keys id [7]) := by
  have asked : AskedAll .link id [7]
      [(.add 1, 0), (.add 1, -6), (.del 1, 0), (.del 1, -31)] [7] :=
    .cons (.added (by decide)) (.cons (.present (by decide)) (.cons (.deleted (by decide))
      (.cons (.missing (by decide)) .nil)))
  exact ⟨by decide, (answers_tell asked (by decide : ([7] : List ℕ).Nodup)).2.1 1⟩

end Nlcpp.RouteSocket
