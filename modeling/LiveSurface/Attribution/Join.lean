import LiveSurface.Window.Join
import Mathlib.Data.List.Dedup
import Mathlib.Data.List.Perm.Basic

/-!
# The attribution join

The join matches every observation of a window to the ledger of the authority by a path and a
nonce.  It names nobody where the window is not accounted for, and nobody where a path and a nonce
do not belong to exactly one observation and one ledger row.

A missing key and a value of {lit}`None` are kept apart here; the source reads both with
{lit}`get`, and takes them for the same.

Main results:

- Theorem {lit}`windowError_perm`: the order of a window does not decide whether it is refused.
- Theorem {lit}`joinRow_cases`: all that can become of an observation.
- Theorem {lit}`join_conservative`: who is named, from which ledger row, in any order.
-/

namespace LiveSurface
namespace Attribution

open Collector
open Window (truthy)

/-! ## The source -/

/-- {lit}`candidate`: a path and a nonce that may be matched. -/
def candidate (row : Object) : Option (String × String) :=
  match row.get? "path", row.get? "nonce" with
  | some (.str path), some (.str nonce) =>
      if path.toList.head? = some '/' ∧ nonce ≠ "" then some (path, nonce) else none
  | _, _ => none

/-- The identity of a request, where it is valid. -/
def identity (event : Object) : Option (String × Int) :=
  match event.get? "process_session", event.get? "request_seq" with
  | some (.str session), some (.int sequence) =>
      if session ≠ "" ∧ 1 ≤ sequence then some (session, sequence) else none
  | _, _ => none

/-- The counts the accounting has to agree with. -/
def expectedCounts (observations : Nat) : List (String × Int) :=
  [("requests", observations), ("fired", observations), ("events", observations),
    ("ledger_attempts", observations), ("drops", 0), ("errors", 0)]

/-- {lit}`window_error`. -/
def windowError (observations ledger : List Object) (accounting : Object) (validated : Scalar) :
    Option String :=
  if validated ≠ .bool true then some "unvalidated_request_scope"
  else if ledger.length ≠ observations.length ∨
      ∃ item ∈ expectedCounts observations.length,
        accounting.get? item.1 ≠ some (.int item.2) then
    some "incomplete_or_lossy_window"
  else
    match observations.mapM identity with
    | none => some "invalid_request_identity"
    | some identities =>
        if identities.dedup.length ≠ identities.length then some "duplicate_request_identity"
        else none

inductive RowStatus
  | unknown
  | rejected
  | attributed
deriving DecidableEq

/-- What a row takes over from its ledger row. -/
structure Claimed where
  attempt : Option Scalar
  claimedActor : Option Scalar
  accepted : Bool
  authorityReason : Option Scalar
deriving DecidableEq

/-- A row of the result; the last two groups of keys may be missing. -/
structure ResultRow where
  processSession : Option Scalar
  requestSeq : Option Scalar
  configInstance : Option Scalar
  configRevision : Option Scalar
  status : RowStatus
  reason : Option String
  authenticatedActor : Option Scalar
  operation : Option Scalar
  originator : Option Scalar
  parent : Option Scalar
  claimed : Option Claimed
  authEvidence : Option Scalar
deriving DecidableEq

/-- The row of an observation before it is matched. -/
def ResultRow.unknown (event : Object) (reason : Option String) : ResultRow where
  processSession := event.get? "process_session"
  requestSeq := event.get? "request_seq"
  configInstance := event.get? "config_instance"
  configRevision := event.get? "config_revision"
  status := .unknown
  reason := reason
  authenticatedActor := none
  operation := none
  originator := none
  parent := none
  claimed := none
  authEvidence := none

/-- {lit}`authority.get("accepted") is True`. -/
def accepted (authority : Object) : Bool := authority.get? "accepted" = some (.bool true)

/-- What the only matching ledger row says of an observation. -/
def authorised (row : ResultRow) (authority : Object) : ResultRow :=
  let row := { row with
    claimed := some {
      attempt := authority.get? "attempt"
      claimedActor := authority.get? "claimed_actor"
      accepted := accepted authority
      authorityReason := authority.get? "reason" } }
  if accepted authority = true ∧ truthy (authority.get? "operation") = false then
    { row with reason := some "incomplete_authority_record" }
  else if truthy (authority.get? "actor") = false ∨
      truthy (authority.get? "auth_evidence") = false then
    { row with reason := some "no_authentication_evidence" }
  else
    let row := { row with
      authenticatedActor := authority.get? "actor"
      authEvidence := authority.get? "auth_evidence"
      status := .rejected
      reason := some "authority_rejected" }
    if accepted authority = true ∧ truthy (authority.get? "operation") = true then
      { row with
        status := .attributed
        reason := some "unique_authenticated_attempt"
        operation := authority.get? "operation"
        originator := authority.get? "originator"
        parent := authority.get? "parent" }
    else row

/-- {lit}`attempts`: the ledger rows of a candidate. -/
def attempts (ledger : List Object) (key : Option (String × String)) : List Object :=
  ledger.filter fun row => candidate row = key

/-- {lit}`observed`: how many observations have a candidate. -/
def observed (observations : List Object) (key : Option (String × String)) : Nat :=
  observations.countP fun row => candidate row = key

/-- One observation in the loop of {lit}`join`. -/
def joinRow (error : Option String) (observations ledger : List Object) (event : Object) :
    ResultRow :=
  let row := ResultRow.unknown event error
  if error ≠ none then row
  else if candidate event = none then { row with reason := some "missing_candidate" }
  else if observed observations (candidate event) ≠ 1 ∨
      (attempts ledger (candidate event)).length > 1 then
    { row with reason := some "ambiguous_candidate" }
  else
    match attempts ledger (candidate event) with
    | [] => { row with reason := some "missing_ledger_match" }
    | authority :: _ => authorised row authority

/-- {lit}`join`. -/
def join (observations ledger : List Object) (accounting : Object) (validated : Scalar) :
    List ResultRow :=
  observations.map
    (joinRow (windowError observations ledger accounting validated) observations ledger)

/-! ## The order of a window -/

section Order

variable {observations observations' ledger ledger' : List Object}

theorem mapM_cons_eq_some {α β : Type} {f : α → Option β} {x : α} {xs : List α} {ys : List β} :
    (x :: xs).mapM f = some ys ↔ ∃ y zs, f x = some y ∧ xs.mapM f = some zs ∧ y :: zs = ys := by
  rw [List.mapM_cons]
  simp only [Option.bind_eq_bind, Option.bind_eq_some_iff, Option.pure_def, Option.some.injEq]
  constructor
  · rintro ⟨y, hy, zs, hzs, h⟩
    exact ⟨y, zs, hy, hzs, h⟩
  · rintro ⟨y, zs, hy, hzs, h⟩
    exact ⟨y, hy, zs, hzs, h⟩

/-- Values that are looked up come in the order of the elements. -/
theorem mapM_perm {α β : Type} {f : α → Option β} {xs xs' : List α} (h : xs.Perm xs')
    {ys : List β} (hys : xs.mapM f = some ys) : ∃ ys', xs'.mapM f = some ys' ∧ ys.Perm ys' := by
  induction h generalizing ys with
  | nil => exact ⟨ys, hys, List.Perm.refl ys⟩
  | cons x _ ih =>
      obtain ⟨y, zs, hy, hzs, rfl⟩ := mapM_cons_eq_some.mp hys
      obtain ⟨zs', hzs', hperm⟩ := ih hzs
      exact ⟨y :: zs', mapM_cons_eq_some.mpr ⟨y, zs', hy, hzs', rfl⟩, hperm.cons y⟩
  | swap x x' xs =>
      obtain ⟨y', _, hy', htail, rfl⟩ := mapM_cons_eq_some.mp hys
      obtain ⟨y, zs, hy, hzs, rfl⟩ := mapM_cons_eq_some.mp htail
      exact ⟨y :: y' :: zs, mapM_cons_eq_some.mpr ⟨y, y' :: zs, hy,
        mapM_cons_eq_some.mpr ⟨y', zs, hy', hzs, rfl⟩, rfl⟩, List.Perm.swap y y' zs⟩
  | trans _ _ ih ih' =>
      obtain ⟨zs, hzs, hperm⟩ := ih hys
      obtain ⟨ys', hys', hperm'⟩ := ih' hzs
      exact ⟨ys', hys', hperm.trans hperm'⟩

/-- The order of a window does not decide whether it is refused. -/
theorem windowError_perm {accounting : Object} {validated : Scalar}
    (hobs : observations.Perm observations') (hledger : ledger.Perm ledger') :
    windowError observations' ledger' accounting validated =
      windowError observations ledger accounting validated := by
  unfold windowError
  rw [hledger.length_eq, hobs.length_eq]
  cases hids : observations.mapM identity with
  | none =>
      have hids' : observations'.mapM identity = none := by
        rw [Option.eq_none_iff_forall_ne_some]
        intro ids' hids'
        obtain ⟨ids, hsome, -⟩ := mapM_perm hobs.symm hids'
        exact nomatch hids.symm.trans hsome
      rw [hids']
  | some ids =>
      obtain ⟨ids', hids', hperm⟩ := mapM_perm hobs hids
      simp only [hids', hperm.dedup.length_eq, hperm.length_eq]

theorem attempts_perm (hledger : ledger.Perm ledger') (key : Option (String × String)) :
    (attempts ledger key).Perm (attempts ledger' key) := hledger.filter _

theorem observed_perm (hobs : observations.Perm observations') (key : Option (String × String)) :
    observed observations' key = observed observations key := (hobs.countP_eq _).symm

/-- The order of a window does not decide what becomes of an observation. -/
theorem joinRow_perm {error : Option String} {event : Object}
    (hobs : observations.Perm observations') (hledger : ledger.Perm ledger') :
    joinRow error observations' ledger' event = joinRow error observations ledger event := by
  have hattempts := attempts_perm hledger (candidate event)
  unfold joinRow
  rw [observed_perm hobs, ← hattempts.length_eq]
  by_cases hmany : (attempts ledger (candidate event)).length > 1
  · simp only [hmany, or_true, if_true]
  · have hsame : attempts ledger' (candidate event) = attempts ledger (candidate event) := by
      cases hold : attempts ledger (candidate event) with
      | nil =>
          rw [hold] at hattempts
          exact hattempts.nil_eq.symm
      | cons authority rest =>
          rw [hold, List.length_cons] at hmany
          obtain rfl : rest = [] := List.length_eq_zero_iff.mp (by omega)
          rw [hold] at hattempts
          exact hattempts.singleton_eq.symm
    rw [hsame]

end Order

/-! ## What becomes of an observation -/

/-- The row names nobody. -/
structure Silent (row : ResultRow) : Prop where
  status : row.status = .unknown
  actor : row.authenticatedActor = none
  operation : row.operation = none
  originator : row.originator = none
  parent : row.parent = none

/-- A ledger row that names its actor, with evidence. -/
def Evident (authority : Object) : Prop :=
  truthy (authority.get? "actor") = true ∧ truthy (authority.get? "auth_evidence") = true

/-- A ledger row of an operation that was accepted. -/
def AcceptedOperation (authority : Object) : Prop :=
  accepted authority = true ∧ truthy (authority.get? "operation") = true

/-- The row names the actor of a ledger row, and its operation where it was accepted. -/
structure Named (row : ResultRow) (authority : Object) : Prop where
  evident : Evident authority
  actor : row.authenticatedActor = authority.get? "actor"
  evidence : row.authEvidence = authority.get? "auth_evidence"
  status : row.status ≠ .unknown
  attributed : row.status = .attributed → AcceptedOperation authority ∧
    row.operation = authority.get? "operation" ∧
    row.originator = authority.get? "originator" ∧ row.parent = authority.get? "parent"
  rejected : row.status = .rejected →
    row.operation = none ∧ row.originator = none ∧ row.parent = none

theorem silent_unknown (event : Object) (reason : Option String) :
    Silent (ResultRow.unknown event reason) := ⟨rfl, rfl, rfl, rfl, rfl⟩

theorem authorised_cases {row : ResultRow} (h : Silent row) (authority : Object) :
    Silent (authorised row authority) ∨ Named (authorised row authority) authority := by
  unfold authorised
  by_cases hincomplete : accepted authority = true ∧
      truthy (authority.get? "operation") = false
  · rw [if_pos hincomplete]
    exact Or.inl ⟨h.status, h.actor, h.operation, h.originator, h.parent⟩
  rw [if_neg hincomplete]
  by_cases hevidence : truthy (authority.get? "actor") = false ∨
      truthy (authority.get? "auth_evidence") = false
  · rw [if_pos hevidence]
    exact Or.inl ⟨h.status, h.actor, h.operation, h.originator, h.parent⟩
  rw [if_neg hevidence]
  rw [not_or, Bool.not_eq_false, Bool.not_eq_false] at hevidence
  by_cases hoperation : accepted authority = true ∧
      truthy (authority.get? "operation") = true
  · rw [if_pos hoperation]
    exact Or.inr ⟨hevidence, rfl, rfl, fun hs => (nomatch hs),
      fun _ => ⟨hoperation, rfl, rfl, rfl⟩, fun hs => (nomatch hs)⟩
  · rw [if_neg hoperation]
    exact Or.inr ⟨hevidence, rfl, rfl, fun hs => (nomatch hs), fun hs => (nomatch hs),
      fun _ => ⟨h.operation, h.originator, h.parent⟩⟩

/-- The path and the nonce of an observation belong to it and to one ledger row alone. -/
structure Matched (observations ledger : List Object) (event authority : Object) : Prop where
  candidate : candidate event ≠ none
  observed : observed observations (Attribution.candidate event) = 1
  attempts : attempts ledger (Attribution.candidate event) = [authority]

/-- All that can become of an observation. -/
theorem joinRow_cases {error : Option String} {observations ledger : List Object}
    {event : Object} :
    (Silent (joinRow error observations ledger event) ∧
        (joinRow error observations ledger event).claimed = none) ∨
      (error = none ∧ ∃ authority, Matched observations ledger event authority ∧
        joinRow error observations ledger event =
          authorised (ResultRow.unknown event none) authority) := by
  unfold joinRow
  by_cases herror : error ≠ none
  · rw [if_pos herror]
    exact Or.inl ⟨silent_unknown event error, rfl⟩
  rw [if_neg herror]
  by_cases hcandidate : candidate event = none
  · rw [if_pos hcandidate]
    exact Or.inl ⟨⟨rfl, rfl, rfl, rfl, rfl⟩, rfl⟩
  rw [if_neg hcandidate]
  by_cases hambiguous : observed observations (candidate event) ≠ 1 ∨
      (attempts ledger (candidate event)).length > 1
  · rw [if_pos hambiguous]
    exact Or.inl ⟨⟨rfl, rfl, rfl, rfl, rfl⟩, rfl⟩
  rw [if_neg hambiguous]
  rw [not_or, not_not] at hambiguous
  cases hattempts : attempts ledger (candidate event) with
  | nil => exact Or.inl ⟨⟨rfl, rfl, rfl, rfl, rfl⟩, rfl⟩
  | cons authority rest =>
      rw [hattempts, List.length_cons] at hambiguous
      obtain rfl : rest = [] := List.length_eq_zero_iff.mp (by omega)
      rw [not_not] at herror
      subst herror
      exact Or.inr ⟨rfl, authority, ⟨hcandidate, hambiguous.1, hattempts⟩, rfl⟩

/-! ## The join -/

/-- A ledger row serves an observation: they have the candidate in common, and the row of the
observation carries what the ledger row claims. -/
structure Serves (observations ledger : List Object) (rows : List ResultRow) (k i : Nat) :
    Prop where
  shared : ∃ event authority, observations[i]? = some event ∧ ledger[k]? = some authority ∧
    candidate event = candidate authority
  claimed : ∃ row, rows[i]? = some row ∧ row.claimed ≠ none

/-- There is one position for what occurs once. -/
theorem index_unique {α : Type} {p : α → Bool} {xs : List α} (h : xs.countP p ≤ 1) {i j : Nat}
    {a b : α} (ha : xs[i]? = some a) (hb : xs[j]? = some b) (hpa : p a = true)
    (hpb : p b = true) : i = j := by
  induction xs generalizing i j with
  | nil => exact nomatch ha
  | cons x xs ih =>
      rw [List.countP_cons] at h
      have hpos : ∀ k c, xs[k]? = some c → p c = true → 0 < xs.countP p := fun k c hc hpc =>
        List.countP_pos_iff.mpr ⟨c, List.mem_of_getElem? hc, hpc⟩
      cases i with
      | zero =>
          cases j with
          | zero => rfl
          | succ j =>
              rw [List.getElem?_cons_zero] at ha
              obtain rfl := Option.some.inj ha
              have hrest := hpos j b hb hpb
              rw [if_pos hpa] at h
              omega
      | succ i =>
          cases j with
          | zero =>
              rw [List.getElem?_cons_zero] at hb
              obtain rfl := Option.some.inj hb
              have hrest := hpos i a ha hpa
              rw [if_pos hpb] at h
              omega
          | succ j => rw [ih (by omega) ha hb]

section Results

variable {observations ledger : List Object} {accounting : Object} {validated : Scalar}

theorem getElem?_join {i : Nat} {row : ResultRow}
    (h : (join observations ledger accounting validated)[i]? = some row) :
    ∃ event, observations[i]? = some event ∧
      row = joinRow (windowError observations ledger accounting validated) observations ledger
        event := by
  rw [join, List.getElem?_map] at h
  obtain ⟨event, hevent, rfl⟩ := Option.map_eq_some_iff.mp h
  exact ⟨event, hevent, rfl⟩

/-- An observation that is served was matched. -/
theorem Serves.matched {k i : Nat}
    (h : Serves observations ledger (join observations ledger accounting validated) k i) :
    ∃ event authority, observations[i]? = some event ∧ ledger[k]? = some authority ∧
      candidate event = candidate authority ∧ Matched observations ledger event authority := by
  obtain ⟨event, authority, hevent, hauthority, hshared⟩ := h.shared
  obtain ⟨row, hrow, hclaimed⟩ := h.claimed
  obtain ⟨event', hevent', rfl⟩ := getElem?_join hrow
  obtain rfl := Option.some.inj (hevent.symm.trans hevent')
  rcases @joinRow_cases (windowError observations ledger accounting validated) _ _ event with
    ⟨-, hnone⟩ | ⟨-, only, hmatched, -⟩
  · exact absurd hnone hclaimed
  · have hmem : authority ∈ attempts ledger (candidate event) :=
      List.mem_filter.mpr ⟨List.mem_of_getElem? hauthority, decide_eq_true hshared.symm⟩
    rw [hmatched.attempts, List.mem_singleton] at hmem
    subst hmem
    exact ⟨event, authority, hevent, hauthority, hshared, hmatched⟩

/-- No ledger row serves two observations. -/
theorem serves_observation {k i j : Nat}
    (hi : Serves observations ledger (join observations ledger accounting validated) k i)
    (hj : Serves observations ledger (join observations ledger accounting validated) k j) :
    i = j := by
  obtain ⟨event, authority, hevent, hauthority, hshared, hmatched⟩ := hi.matched
  obtain ⟨event', authority', hevent', hauthority', hshared', -⟩ := hj.matched
  obtain rfl := Option.some.inj (hauthority.symm.trans hauthority')
  exact index_unique (Nat.le_of_eq hmatched.observed) hevent hevent' (decide_eq_true rfl)
    (decide_eq_true (hshared'.trans hshared.symm))

/-- No observation is served by two ledger rows. -/
theorem serves_ledger {k l i : Nat}
    (hk : Serves observations ledger (join observations ledger accounting validated) k i)
    (hl : Serves observations ledger (join observations ledger accounting validated) l i) :
    k = l := by
  obtain ⟨event, authority, hevent, hauthority, hshared, hmatched⟩ := hk.matched
  obtain ⟨event', authority', hevent', hauthority', hshared', -⟩ := hl.matched
  obtain rfl := Option.some.inj (hevent.symm.trans hevent')
  have hone : ledger.countP (fun row => candidate row = candidate event) ≤ 1 := by
    rw [List.countP_eq_length_filter, ← attempts, hmatched.attempts, List.length_singleton]
  exact index_unique hone hauthority hauthority' (decide_eq_true hshared.symm)
    (decide_eq_true hshared'.symm)

/-- A refused window names nobody. -/
theorem join_refused (h : windowError observations ledger accounting validated ≠ none) :
    ∀ row ∈ join observations ledger accounting validated, Silent row := by
  intro row hrow
  obtain ⟨event, -, rfl⟩ := List.mem_map.mp hrow
  rcases @joinRow_cases (windowError observations ledger accounting validated) _ _ event with
    ⟨hsilent, -⟩ | ⟨hnone, -⟩
  · exact hsilent
  · exact absurd hnone h

/-- A row that is not silent names the actor of the one ledger row of its candidate. -/
theorem join_named {i : Nat} {event : Object} {row : ResultRow}
    (hevent : observations[i]? = some event)
    (hrow : (join observations ledger accounting validated)[i]? = some row) :
    Silent row ∨ ∃ authority, Matched observations ledger event authority ∧ Named row authority := by
  obtain ⟨event', hevent', rfl⟩ := getElem?_join hrow
  obtain rfl := Option.some.inj (hevent.symm.trans hevent')
  rcases @joinRow_cases (windowError observations ledger accounting validated) _ _ event with
    ⟨hsilent, -⟩ | ⟨-, authority, hmatched, heq⟩
  · exact Or.inl hsilent
  · rw [heq]
    rcases authorised_cases (silent_unknown event none) authority with hsilent | hnamed
    · exact Or.inl hsilent
    · exact Or.inr ⟨authority, hmatched, hnamed⟩

end Results

/-- Attribution is conservative and does not depend on the order of the window. -/
theorem join_conservative (observations ledger : List Object) (accounting : Object)
    (validated : Scalar) :
    (windowError observations ledger accounting validated ≠ none →
      ∀ row ∈ join observations ledger accounting validated, Silent row) ∧
    (∀ (i : Nat) event row, observations[i]? = some event →
      (join observations ledger accounting validated)[i]? = some row →
        Silent row ∨
          ∃ authority, Matched observations ledger event authority ∧ Named row authority) ∧
    (∀ k i j, Serves observations ledger (join observations ledger accounting validated) k i →
      Serves observations ledger (join observations ledger accounting validated) k j → i = j) ∧
    (∀ k l i, Serves observations ledger (join observations ledger accounting validated) k i →
      Serves observations ledger (join observations ledger accounting validated) l i → k = l) ∧
    ∃ f : Object → ResultRow, ∀ observations' ledger', observations.Perm observations' →
      ledger.Perm ledger' →
        join observations' ledger' accounting validated = observations'.map f := by
  refine ⟨join_refused, fun _ _ _ => join_named, fun _ _ _ => serves_observation,
    fun _ _ _ => serves_ledger,
    joinRow (windowError observations ledger accounting validated) observations ledger, ?_⟩
  intro observations' ledger' hobs hledger
  rw [join, windowError_perm hobs hledger]
  exact List.map_congr_left fun event _ => joinRow_perm hobs hledger

end Attribution
end LiveSurface
