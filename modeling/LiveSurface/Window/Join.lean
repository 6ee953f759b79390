import LiveSurface.Journal.Store
import LiveSurface.Library.Except
import Mathlib.Data.List.Sort
import Mathlib.Logic.Function.Basic

/-!
# The bounded join

The join takes a complete recorded window: the events of the parser hooks, the
candidates read from request headers, the authority's ledger and the counters of
the hooks.  It checks the window as a whole and then matches every completed
observation to the ledger by path and nonce.

The numbers of an event are integers, as they are decoded; a path or a nonce that
is there is a text.  Only a matched ledger record without {lit}`attempt` raises.

Main results:

- Theorem {lit}`join_refused`: a window that is not accepted names nobody.
- Theorem {lit}`matchRow_revealing`: a row that names anything was matched by the only
  ledger record of a key that no other observation has.
- Theorem {lit}`join_congr`: ledger records of other keys do not change a row.
-/

namespace LiveSurface
namespace Window

open Collector

/-! ## Inputs -/

/-- An event of the initialization, parser or cleanup hook. -/
structure Lifetime where
  sequence : Int
  run : Int
  kind : Int
  lifetime : Int
  attempt : Int
  value : Int
  flags : Int
  failures : Int
deriving DecidableEq

/-- A candidate read from the headers of a request. -/
structure Candidate where
  sequence : Int
  run : Int
  lifetime : Int
  attempt : Int
  flags : Int
  failures : Int
  path : Option String
  nonce : Option String
deriving DecidableEq

/-- A record of the authority. -/
structure LedgerRow where
  path : Option String
  nonce : Option String
  attempt : Option Scalar
  actor : Option Scalar
  authEvidence : Option Scalar
  accepted : Option Scalar
  operation : Option Scalar
  originator : Option Scalar
  parent : Option Scalar
deriving DecidableEq

/-- Whether a value counts as true. -/
def truthy : Option Scalar → Bool
  | none => false
  | some (.int n) => n ≠ 0
  | some (.bool b) => b
  | some (.float m _) => m ≠ some 0
  | some (.str s) => s ≠ ""
  | some (.other text) => text ∉ ["null", "[]", "{}"]

/-! ## Rows -/

inductive RowStatus
  | unknown
  | rejected
  | attributed
deriving DecidableEq

/-- A row of the result.  The last three keys may be missing. -/
structure Row where
  observationSequence : Int
  lifetime : Int
  attempt : Int
  status : RowStatus
  reason : Option String
  actor : Option Scalar
  operation : Option Scalar
  authorityAttempt : Option Scalar
  originator : Option (Option Scalar)
  parent : Option (Option Scalar)
deriving DecidableEq

/-- The row of an observation before it is matched. -/
def Row.unmatched (e : Lifetime) : Row where
  observationSequence := e.sequence
  lifetime := e.lifetime
  attempt := e.attempt
  status := .unknown
  reason := none
  actor := none
  operation := none
  authorityAttempt := none
  originator := none
  parent := none

/-- A row that says who acted, or anything the authority said of it. -/
def Row.Reveals (row : Row) : Prop :=
  row.status ≠ .unknown ∨ row.actor ≠ none ∨ row.operation ≠ none ∨
    row.authorityAttempt ≠ none ∨ row.originator ≠ none ∨ row.parent ≠ none

instance (row : Row) : Decidable row.Reveals := inferInstanceAs (Decidable (_ ∨ _))

/-! ## Accepting a window -/

/-- The observations that completed. -/
def completed (lifetimes : List Lifetime) : List Lifetime :=
  lifetimes.filter fun e => e.kind = 2 ∧ e.value = 0

/-- What the lifetimes seen so far have done. -/
structure Walk where
  born : List Int
  ended : List Int
  attempts : Int → Int
  pending : Int → Bool

/-- No lifetime was seen. -/
def Walk.empty : Walk where
  born := []
  ended := []
  attempts _ := 0
  pending _ := false

/-- One event of the walk over the lifetimes; {lit}`none` when an assertion fails. -/
def Walk.step (w : Walk) (e : Lifetime) : Option Walk :=
  let life := e.lifetime
  if e.kind = 1 then
    if e.flags = 0 ∧ 0 < life ∧ life ∉ w.born ∧ (e.value = 0 ∨ e.value ∈ w.ended) then
      some { w with born := life :: w.born }
    else none
  else if e.flags = 32 then
    if life = 0 ∧ e.attempt = 0 then some w else none
  else if e.kind = 2 then
    if e.flags = 0 ∧ life ∈ w.born ∧ life ∉ w.ended ∧ (e.value = 0 ∨ e.value = 17) then
      let attempts := if w.pending life then w.attempts
        else Function.update w.attempts life (w.attempts life + 1)
      if e.attempt = attempts life then
        some { w with attempts, pending := Function.update w.pending life (e.value = 17) }
      else none
    else none
  else
    if e.kind = 3 ∧ life ∈ w.born ∧ life ∉ w.ended ∧
        e.flags = (if w.pending life then 256 else 0) ∧ e.attempt = w.attempts life then
      some { w with ended := life :: w.ended }
    else none

/-- An event of a lifetime whose birth was not seen. -/
theorem Walk.step_unborn (w : Walk) {e : Lifetime} (hkind : e.kind ≠ 1) (hflags : e.flags = 32)
    (hlife : e.lifetime = 0) (hattempt : e.attempt = 0) : w.step e = some w := by
  rw [Walk.step, if_neg hkind, if_pos hflags, if_pos ⟨hlife, hattempt⟩]

/-- A birth. -/
theorem Walk.step_birth (w : Walk) {e : Lifetime} (hkind : e.kind = 1) (hflags : e.flags = 0)
    (hpos : 0 < e.lifetime) (hnew : e.lifetime ∉ w.born)
    (hlast : e.value = 0 ∨ e.value ∈ w.ended) :
    w.step e = some { w with born := e.lifetime :: w.born } := by
  rw [Walk.step, if_pos hkind, if_pos ⟨hflags, hpos, hnew, hlast⟩]

/-- The exit of a parse in a lifetime that lives. -/
theorem Walk.step_parse (w : Walk) {e : Lifetime} (hkind : e.kind = 2) (hflags : e.flags = 0)
    (hborn : e.lifetime ∈ w.born) (hlive : e.lifetime ∉ w.ended)
    (hvalue : e.value = 0 ∨ e.value = 17)
    (hattempt : e.attempt = w.attempts e.lifetime + if w.pending e.lifetime then 0 else 1) :
    w.step e = some { w with
      attempts := Function.update w.attempts e.lifetime e.attempt
      pending := Function.update w.pending e.lifetime (e.value = 17) } := by
  have hkind' : ¬e.kind = 1 := by omega
  have hflags' : ¬e.flags = 32 := by omega
  have hattempts : (if w.pending e.lifetime then w.attempts
      else Function.update w.attempts e.lifetime (w.attempts e.lifetime + 1)) =
        Function.update w.attempts e.lifetime e.attempt := by
    rw [hattempt]
    split_ifs
    · rw [Int.add_zero, Function.update_eq_self]
    · rfl
  rw [Walk.step, if_neg hkind', if_neg hflags', if_pos hkind,
    if_pos ⟨hflags, hborn, hlive, hvalue⟩]
  simp only [hattempts, Function.update_self, if_true]

/-- The end of a lifetime. -/
theorem Walk.step_end (w : Walk) {e : Lifetime} (hkind : e.kind = 3)
    (hborn : e.lifetime ∈ w.born) (hlive : e.lifetime ∉ w.ended)
    (hflags : e.flags = if w.pending e.lifetime then 256 else 0)
    (hattempt : e.attempt = w.attempts e.lifetime) :
    w.step e = some { w with ended := e.lifetime :: w.ended } := by
  have hkind' : ¬e.kind = 1 := by omega
  have hkind'' : ¬e.kind = 2 := by omega
  have hflags' : ¬e.flags = 32 := by
    rw [hflags]
    split_ifs <;> decide
  rw [Walk.step, if_neg hkind', if_neg hflags', if_neg hkind'',
    if_pos ⟨hkind, hborn, hlive, hflags, hattempt⟩]

/-- The walk over all lifetimes. -/
def Walk.run (w : Walk) : List Lifetime → Option Walk
  | [] => some w
  | e :: rest => (w.step e).bind fun w => w.run rest

/-- What the stream check reads of an event. -/
structure Head where
  sequence : Int
  run : Int
  failures : Int
deriving DecidableEq

/-- The events of both lists in the order of their sequence numbers. -/
def stream (lifetimes : List Lifetime) (candidates : List Candidate) : List Head :=
  (lifetimes.map (fun e => Head.mk e.sequence e.run e.failures) ++
    candidates.map fun e => Head.mk e.sequence e.run e.failures).insertionSort
      fun a b => a.sequence ≤ b.sequence

/-- The counts the accounting has to agree with. -/
def expectedCounts (lifetimes : List Lifetime) (candidates : List Candidate) :
    List (String × Int) :=
  [("init", lifetimes.countP fun e => e.kind = 1), ("parse", lifetimes.countP fun e => e.kind = 2),
    ("fini", lifetimes.countP fun e => e.kind = 3), ("candidate", candidates.length),
    ("drops", 0), ("errors", 0), ("selections", 0)]

/-- The checks of the whole window. -/
structure Accepted (lifetimes : List Lifetime) (candidates : List Candidate)
    (ledger : List LedgerRow) (accounting : Object) : Prop where
  numbered : (stream lifetimes candidates).map Head.sequence =
    (List.range (stream lifetimes candidates).length).map fun i => (i : Int) + 1
  run : ∃ first rest, stream lifetimes candidates = first :: rest ∧ 0 < first.run ∧
    ∀ e ∈ rest, e.run = first.run
  lossless : ∀ e ∈ stream lifetimes candidates, e.failures = 0
  counted : ∀ entry ∈ expectedCounts lifetimes candidates,
    Object.get? accounting entry.1 = some (.int entry.2)
  ledger : ledger.length = (completed lifetimes).length
  walked : ∃ w, Walk.empty.run lifetimes = some w ∧ (∀ life ∈ w.born, life ∈ w.ended) ∧
    ∀ life ∈ w.ended, life ∈ w.born

/-- The assertions of {lit}`join`. -/
def accepts (lifetimes : List Lifetime) (candidates : List Candidate) (ledger : List LedgerRow)
    (accounting : Object) : Bool :=
  let stream := stream lifetimes candidates
  decide (stream.map Head.sequence = (List.range stream.length).map fun i => (i : Int) + 1) &&
    (match stream with
      | [] => false
      | first :: rest => decide (0 < first.run) && rest.all fun e => e.run = first.run) &&
    (stream.all fun e => e.failures = 0) &&
    ((expectedCounts lifetimes candidates).all fun entry =>
      Object.get? accounting entry.1 = some (.int entry.2)) &&
    decide (ledger.length = (completed lifetimes).length) &&
    (match Walk.empty.run lifetimes with
      | none => false
      | some w => (w.born.all fun life => life ∈ w.ended) && w.ended.all fun life => life ∈ w.born)

/-- The assertions are the checks. -/
theorem accepts_iff {lifetimes : List Lifetime} {candidates : List Candidate}
    {ledger : List LedgerRow} {accounting : Object} :
    accepts lifetimes candidates ledger accounting = true ↔
      Accepted lifetimes candidates ledger accounting := by
  simp only [accepts, Bool.and_eq_true, decide_eq_true_eq, List.all_eq_true]
  constructor
  · rintro ⟨⟨⟨⟨⟨hnumbered, hrun⟩, hlossless⟩, hcounted⟩, hledger⟩, hwalked⟩
    refine ⟨hnumbered, ?_, hlossless, hcounted, hledger, ?_⟩
    · split at hrun
      · contradiction
      · rename_i first rest hstream
        simp only [Bool.and_eq_true, decide_eq_true_eq, List.all_eq_true] at hrun
        exact ⟨first, rest, hstream, hrun.1, hrun.2⟩
    · split at hwalked
      · contradiction
      · rename_i w hw
        simp only [Bool.and_eq_true, decide_eq_true_eq, List.all_eq_true] at hwalked
        exact ⟨w, hw, hwalked.1, hwalked.2⟩
  · intro h
    refine ⟨⟨⟨⟨⟨h.numbered, ?_⟩, h.lossless⟩, h.counted⟩, h.ledger⟩, ?_⟩
    · obtain ⟨first, rest, hstream, hpositive, hsame⟩ := h.run
      rw [hstream]
      simpa using ⟨hpositive, hsame⟩
    · obtain ⟨w, hw, hborn, hended⟩ := h.walked
      rw [hw]
      simpa using ⟨hborn, hended⟩

/-! ## Matching -/

/-- A hexadecimal digit. -/
def hexadecimal (x : Char) : Bool := "0123456789abcdefABCDEF".toList.contains x

/-- The path and the nonce of a completed observation, if exactly one candidate of its
interval is terminal and they are well formed. -/
def candidateKey (candidates : List Candidate) (e : Lifetime) : Option (String × String) :=
  let group := if e.lifetime ≠ 0 then
    candidates.filter fun c => c.lifetime = e.lifetime ∧ c.attempt = e.attempt else []
  match group.filter fun c => c.flags = 1 with
  | [c] =>
      if (∀ d ∈ group, d.flags = 0 ∨ d.flags = 1) ∧ ∀ d ∈ group, d.sequence < e.sequence then
        match c.path, c.nonce with
        | some path, some nonce =>
            if path ∈ ["/mcp", "/a2a", "/delegate"] ∧ nonce.length = 32 ∧
                nonce.toList.all hexadecimal then
              some (path, nonce)
            else none
        | _, _ => none
      else none
  | _ => none

/-- {lit}`values`: the keys of the completed observations. -/
def keys (lifetimes : List Lifetime) (candidates : List Candidate) :
    List (Option (String × String)) :=
  (completed lifetimes).map (candidateKey candidates)

/-- A ledger record of a key. -/
def LedgerRow.Names (r : LedgerRow) (key : String × String) : Prop :=
  r.path = some key.1 ∧ r.nonce = some key.2

instance (r : LedgerRow) (key : String × String) : Decidable (r.Names key) :=
  inferInstanceAs (Decidable (_ ∧ _))

/-- {lit}`authority[key]`. -/
def authority (ledger : List LedgerRow) (key : String × String) : List LedgerRow :=
  ledger.filter fun r => r.Names key

/-- A row that was matched by a ledger record. -/
def matchedRow (row : Row) (matched : LedgerRow) : Except String Row :=
  match matched.attempt with
  | none => .error "attempt"
  | some attempt =>
      let row := { row with authorityAttempt := some attempt }
      .ok (if truthy matched.actor = false ∨ truthy matched.authEvidence = false then
        { row with reason := some "no_authentication_evidence" }
      else if matched.accepted = some (.bool false) then
        { row with
          status := .rejected
          reason := some "authority_rejected"
          actor := matched.actor }
      else if matched.accepted = some (.bool true) ∧ truthy matched.operation = true then
        { row with
          status := .attributed
          reason := some "unique_authenticated_fixture_attempt"
          actor := matched.actor
          operation := matched.operation
          originator := some matched.originator
          parent := some matched.parent }
      else { row with reason := some "incomplete_authority_record" })

/-- The row of a completed observation. -/
def matchRow (keys : List (Option (String × String))) (candidates : List Candidate)
    (ledger : List LedgerRow) (e : Lifetime) : Except String Row :=
  let row := Row.unmatched e
  if e.lifetime = 0 then .ok { row with reason := some "missing_parser_initialization" }
  else
    match candidateKey candidates e with
    | none => .ok { row with reason := some "unavailable_candidate" }
    | some key =>
        match authority ledger key with
        | [] =>
            .ok { row with
              reason := some (if keys.count (some key) ≠ 1 then "ambiguous_candidate"
                else "missing_ledger_match") }
        | [matched] =>
            if keys.count (some key) ≠ 1 then
              .ok { row with reason := some "ambiguous_candidate" }
            else matchedRow row matched
        | _ => .ok { row with reason := some "ambiguous_candidate" }

/-- {lit}`correlation_join.join`. -/
def join (lifetimes : List Lifetime) (candidates : List Candidate) (ledger : List LedgerRow)
    (accounting : Object) : Except String (List Row) :=
  if accepts lifetimes candidates ledger accounting then
    (completed lifetimes).mapM (matchRow (keys lifetimes candidates) candidates ledger)
  else
    .ok ((completed lifetimes).map fun e =>
      { Row.unmatched e with reason := some "incomplete_or_invalid_window" })

/-! ## What a row reveals -/

/-- The one element a predicate holds of, with its place. -/
theorem unique_index {α : Type} {p : α → Bool} {l : List α} (h : (l.filter p).length = 1) :
    ∃ (k : Nat) (a : α), l.filter p = [a] ∧ l[k]? = some a ∧
      ∀ (k' : Nat) (b : α), l[k']? = some b → p b = true → k' = k := by
  obtain ⟨a, ha⟩ := List.length_eq_one_iff.mp h
  obtain ⟨before, after, rfl, hbefore, -, hafter⟩ := List.filter_eq_cons_iff.mp ha
  refine ⟨before.length, a, ha, by simp, ?_⟩
  intro k' b hb hpb
  rcases Nat.lt_trichotomy k' before.length with hlt | heq | hgt
  · rw [List.getElem?_append_left hlt] at hb
    exact absurd hpb (hbefore b (List.mem_of_getElem? hb))
  · exact heq
  · rw [List.getElem?_append_right hgt.le] at hb
    obtain ⟨i, hi⟩ : ∃ i, k' - before.length = i + 1 := ⟨k' - before.length - 1, by omega⟩
    rw [hi, List.getElem?_cons_succ] at hb
    exact absurd hpb (List.filter_eq_nil_iff.mp hafter b (List.mem_of_getElem? hb))

section Rows

variable {lifetimes : List Lifetime} {candidates : List Candidate} {ledger : List LedgerRow}
  {accounting : Object}

/-- A row that was not matched reveals nothing, whatever its reason. -/
theorem not_reveals_unmatched (e : Lifetime) (reason : Option String) :
    ¬({ Row.unmatched e with reason } : Row).Reveals := by
  simp [Row.Reveals, Row.unmatched]

/-- What a matched row takes over from its ledger record. -/
structure Taken (row : Row) (matched : LedgerRow) : Prop where
  attempt : row.authorityAttempt = matched.attempt
  actor : row.actor = none ∨ row.actor = matched.actor
  operation : row.operation = none ∨ row.operation = matched.operation
  originator : row.originator = none ∨ row.originator = some matched.originator
  parent : row.parent = none ∨ row.parent = some matched.parent

theorem matchedRow_taken {row : Row} {e : Lifetime} {matched : LedgerRow}
    (h : matchedRow (.unmatched e) matched = .ok row) : Taken row matched := by
  unfold matchedRow at h
  split at h
  · contradiction
  · rename_i attempt hattempt
    simp only [Except.ok.injEq] at h
    subst h
    split
    · exact ⟨hattempt.symm, .inl rfl, .inl rfl, .inl rfl, .inl rfl⟩
    · split
      · exact ⟨hattempt.symm, .inr rfl, .inl rfl, .inl rfl, .inl rfl⟩
      · split
        · exact ⟨hattempt.symm, .inr rfl, .inr rfl, .inr rfl, .inr rfl⟩
        · exact ⟨hattempt.symm, .inl rfl, .inl rfl, .inl rfl, .inl rfl⟩

/-- A row that reveals anything was matched by the only ledger record of its key, which
is the key of no other observation. -/
theorem matchRow_revealing {keys : List (Option (String × String))} {e : Lifetime} {row : Row}
    (h : matchRow keys candidates ledger e = .ok row) (hreveals : row.Reveals) :
    ∃ key matched, candidateKey candidates e = some key ∧ keys.count (some key) = 1 ∧
      authority ledger key = [matched] ∧ Taken row matched := by
  have hhidden : ∀ reason, .ok { Row.unmatched e with reason } = Except.ok (ε := String) row →
      False := by
    intro reason heq
    rw [← Except.ok.inj heq] at hreveals
    exact not_reveals_unmatched e reason hreveals
  unfold matchRow at h
  simp only at h
  split at h
  · exact (hhidden _ h).elim
  · split at h
    · exact (hhidden _ h).elim
    · rename_i key hkey
      split at h
      · exact (hhidden _ h).elim
      · rename_i matched hmatched
        split at h
        · exact (hhidden _ h).elim
        · rename_i hcount
          exact ⟨key, matched, hkey, not_not.mp hcount, hmatched, matchedRow_taken h⟩
      · exact (hhidden _ h).elim

/-- A window that is not accepted names nobody. -/
theorem join_refused {rows : List Row} (h : join lifetimes candidates ledger accounting = .ok rows)
    (hrefused : ¬Accepted lifetimes candidates ledger accounting) :
    ∀ row ∈ rows, ¬row.Reveals := by
  rw [join, if_neg (by rwa [accepts_iff])] at h
  cases h
  intro row hrow
  obtain ⟨e, -, rfl⟩ := List.mem_map.mp hrow
  exact not_reveals_unmatched e _

/-- A row of an accepted window, by the observation it is about. -/
theorem join_row {rows : List Row} {i : Nat} {row : Row}
    (h : join lifetimes candidates ledger accounting = .ok rows) (hrow : rows[i]? = some row)
    (haccepted : Accepted lifetimes candidates ledger accounting) :
    ∃ e, (completed lifetimes)[i]? = some e ∧
      matchRow (keys lifetimes candidates) candidates ledger e = .ok row := by
  rw [join, if_pos (accepts_iff.mpr haccepted)] at h
  exact exists_of_mapM_getElem? h hrow

/-- The join looks at the ledger through its length and the records of the keys only. -/
theorem join_congr {ledger' : List LedgerRow} (hlength : ledger.length = ledger'.length)
    (hsame : ∀ key, some key ∈ keys lifetimes candidates →
      authority ledger key = authority ledger' key) :
    join lifetimes candidates ledger accounting = join lifetimes candidates ledger' accounting := by
  have haccepts : accepts lifetimes candidates ledger accounting =
      accepts lifetimes candidates ledger' accounting := by
    simp only [accepts, hlength]
  unfold join
  rw [haccepts]
  split
  · apply mapM_congr
    intro e he
    unfold matchRow
    cases hkey : candidateKey candidates e with
    | none => rfl
    | some key =>
        have hmem : some key ∈ keys lifetimes candidates := by
          rw [← hkey]
          exact List.mem_map_of_mem he
        simp only [hsame key hmem]
  · rfl

end Rows

end Window
end LiveSurface
