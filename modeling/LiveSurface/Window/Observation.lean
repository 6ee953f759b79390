import LiveSurface.Window.Join
import LiveSurface.Library.Machine
import LiveSurface.Library.Dict
import Mathlib.Data.Int.Bitwise

/-!
# The observation window

A window is opened with the run and the identities of the four programs, is told
of every gap, and is sealed once.  A match is a join whose rows are stripped when
anything is known against the window.  The reason that is known first is kept, and
whether there is one is asked by its truth value: an empty text is kept and does
not count.

The machine runs the operations of one window in any order.  Beside the window it
records how it was constructed and what was done to it.

Main results:

- Theorem {lit}`Sealed.step`: what a window without a reason says of its history.
- Theorem {lit}`window_reveals_qualified`: while no empty reason comes first, only a
  qualified window names anybody, each by a ledger record of its own; and the
  ledger records of other keys never matter.
- Theorem {lit}`empty_reason_reveals`: an empty reason leaves a window open.
-/

namespace LiveSurface
namespace Window

open Collector

/-! ## The window -/

section

variable {ι : Type} [DecidableEq ι]

/-- {lit}`dict` equality: the same values under the same keys, in any order. -/
def SameItems (a b : Dict String ι) : Prop :=
  a.size = b.size ∧ ∀ entry ∈ a.entries, b.get? entry.1 = some entry.2

instance (a b : Dict String ι) : Decidable (SameItems a b) := inferInstanceAs (Decidable (_ ∧ _))

/-- How a window is constructed. -/
structure Construction (ι : Type) where
  run : Scalar
  instances : Dict String ι
  fresh : Bool

/-- An {lit}`ObservationWindow`. -/
structure ObservationWindow (ι : Type) where
  run : Scalar
  instances : Dict String ι
  reason : Option String
  changes : List (Option String)
  closed : Bool

/-- {lit}`invalidate`: the first reason that is not {lit}`None` is kept. -/
def ObservationWindow.invalidate (w : ObservationWindow ι) (reason : Option String) :
    ObservationWindow ι :=
  { w with
    changes := w.changes ++ [reason]
    reason := if w.reason = none then reason else w.reason }

/-- The names of the four programs. -/
def programNames : List String := ["init", "parse", "fini", "candidate"]

/-- What the constructor asks of its arguments. -/
structure Construction.Fresh (falsy : ι → Bool) (args : Construction ι) : Prop where
  fresh : args.fresh = true
  run : ∃ n : Int, args.run = .int n ∧ 0 < n
  names : ∀ name, name ∈ args.instances.entries.map Prod.fst ↔ name ∈ programNames
  identities : ∀ entry ∈ args.instances.entries, falsy entry.2 = false

/-- The test of the constructor. -/
def Construction.isFresh (falsy : ι → Bool) (args : Construction ι) : Bool :=
  args.fresh &&
    (match args.run with
      | .int n => decide (0 < n)
      | _ => false) &&
    (args.instances.entries.all fun entry => entry.1 ∈ programNames) &&
    (programNames.all fun name => name ∈ args.instances.entries.map Prod.fst) &&
    args.instances.entries.all fun entry => !falsy entry.2

omit [DecidableEq ι] in
theorem Construction.isFresh_iff {falsy : ι → Bool} {args : Construction ι} :
    args.isFresh falsy = true ↔ args.Fresh falsy := by
  simp only [isFresh, Bool.and_eq_true, List.all_eq_true, decide_eq_true_eq,
    Bool.not_eq_true']
  constructor
  · rintro ⟨⟨⟨⟨hfresh, hrun⟩, honly⟩, hall⟩, hidentities⟩
    refine ⟨hfresh, ?_, fun name => ⟨?_, hall name⟩, hidentities⟩
    · split at hrun
      · rename_i n hn
        exact ⟨n, hn, by simpa using hrun⟩
      · contradiction
    · intro hname
      obtain ⟨entry, hentry, rfl⟩ := List.mem_map.mp hname
      exact honly entry hentry
  · intro h
    obtain ⟨n, hn, hpositive⟩ := h.run
    refine ⟨⟨⟨⟨h.fresh, ?_⟩, ?_⟩, fun name hname => (h.names name).mpr hname⟩, h.identities⟩
    · rw [hn]
      simpa using hpositive
    · exact fun entry hentry => (h.names entry.1).mp (List.mem_map_of_mem hentry)

/-- The constructor. -/
def ObservationWindow.new (falsy : ι → Bool) (args : Construction ι) : ObservationWindow ι :=
  let w : ObservationWindow ι := {
    run := args.run
    instances := args.instances
    reason := none
    changes := []
    closed := false }
  if args.isFresh falsy then w else w.invalidate (some "missing_fresh_window_evidence")

/-- {lit}`close`. -/
def ObservationWindow.close (w : ObservationWindow ι) (instances : Dict String ι) :
    ObservationWindow ι :=
  let w := if w.closed ∨ ¬SameItems instances w.instances then
    w.invalidate (some "changed_window_identity") else w
  { w with closed := true }

/-- What a match is given. -/
structure Inputs where
  lifetimes : List Lifetime
  candidates : List Candidate
  ledger : List LedgerRow
  accounting : Object

/-- Every event carries a run. -/
def Inputs.Carries (x : Inputs) (run : Scalar) : Prop :=
  (∀ e ∈ x.lifetimes, run.equals e.run = true) ∧ ∀ e ∈ x.candidates, run.equals e.run = true

/-- An event says that a tracking table was full. -/
def Inputs.Full (x : Inputs) : Prop :=
  (∃ e ∈ x.lifetimes, e.kind = 1 ∧ Int.land e.flags 4 ≠ 0) ∨
    ∃ e ∈ x.candidates, Int.land e.flags 256 ≠ 0

instance (x : Inputs) (run : Scalar) : Decidable (x.Carries run) :=
  inferInstanceAs (Decidable (_ ∧ _))

instance (x : Inputs) : Decidable x.Full := inferInstanceAs (Decidable (_ ∨ _))

/-- What a match finds against the window before it joins. -/
def ObservationWindow.noted (w : ObservationWindow ι) (x : Inputs) : ObservationWindow ι :=
  let w := if x.Carries w.run then w else w.invalidate (some "changed_run_token")
  if x.Full then w.invalidate (some "tracking_capacity") else w

/-- {lit}`self.reason or (None if self.closed else "window_not_closed")`, when it is true. -/
def ObservationWindow.refusal (w : ObservationWindow ι) : Option String :=
  match w.reason.filter fun reason => reason ≠ "" with
  | some reason => some reason
  | none => if w.closed then none else some "window_not_closed"

/-- A row that is refused. -/
def Row.stripped (reason : String) (row : Row) : Row :=
  { row with
    status := .unknown
    reason := some reason
    actor := none
    operation := none
    authorityAttempt := none
    originator := none
    parent := none }

/-- {lit}`match`: the rows, or the error of the join, and the window afterwards. -/
def ObservationWindow.match (w : ObservationWindow ι) (x : Inputs) :
    Except String (List Row) × ObservationWindow ι :=
  let w := w.noted x
  ((join x.lifetimes x.candidates x.ledger x.accounting).map fun rows =>
    match w.refusal with
    | some reason => rows.map (Row.stripped reason)
    | none => rows, w)

/-! ## Runs -/

/-- An operation on a window. -/
inductive WindowOp (ι : Type)
  | invalidate (reason : Option String)
  | close (instances : Dict String ι)
  | match (x : Inputs)

/-- A window, how it was constructed, and what was done to it, oldest first. -/
structure Trace (ι : Type) where
  args : Construction ι
  ops : List (WindowOp ι)
  window : ObservationWindow ι

/-- The window after an operation. -/
def ObservationWindow.apply (w : ObservationWindow ι) : WindowOp ι → ObservationWindow ι
  | .invalidate reason => w.invalidate reason
  | .close instances => w.close instances
  | .match x => (w.match x).2

/-- All operations on one window, in any order. -/
def windowMachine (falsy : ι → Bool) : Machine (Trace ι) (WindowOp ι) where
  init s := s.ops = [] ∧ s.window = .new falsy s.args
  next s op := some { s with ops := s.ops ++ [op], window := s.window.apply op }

/-- The first reason that is given to a window is not empty. -/
def FirstReason (s : Trace ι) : WindowOp ι → Prop
  | .invalidate reason => s.window.reason ≠ none ∨ (reason ≠ none ∧ reason ≠ some "")
  | _ => True

/-- The identities a window was closed with, each time. -/
def closes (ops : List (WindowOp ι)) : List (Dict String ι) :=
  ops.filterMap fun
    | .close instances => some instances
    | _ => none

/-- What a window without a reason says of its history; an empty reason is never the
first. -/
structure Sealed (falsy : ι → Bool) (s : Trace ι) : Prop where
  run : s.window.run = s.args.run
  instances : s.window.instances = s.args.instances
  nonempty : s.window.reason ≠ some ""
  fresh : s.window.reason = none → s.args.Fresh falsy
  unchanged : s.window.reason = none → s.window.changes = []
  reported : s.window.reason = none → ∀ reason, .invalidate reason ∉ s.ops
  unsealed : s.window.reason = none → s.window.closed = false → closes s.ops = []
  closed : s.window.reason = none → s.window.closed = true →
    ∃ instances, closes s.ops = [instances] ∧ SameItems instances s.args.instances

/-- An invalidation with a reason leaves one. -/
theorem invalidate_reason (w : ObservationWindow ι) (text : String) :
    (w.invalidate (some text)).reason = some (w.reason.getD text) := by
  unfold ObservationWindow.invalidate
  cases h : w.reason <;> simp [h]

/-- A match notes everything against the window, or nothing is against it. -/
theorem noted_cases (w : ObservationWindow ι) (x : Inputs) :
    (w.noted x = w ∧ x.Carries w.run ∧ ¬x.Full) ∨
      ∃ text changes, text ≠ "" ∧ w.noted x =
        { w with changes := changes, reason := some (w.reason.getD text) } := by
  unfold ObservationWindow.noted
  by_cases hcarries : x.Carries w.run
  · by_cases hfull : x.Full
    · refine .inr ⟨"tracking_capacity", w.changes ++ [some "tracking_capacity"], by decide, ?_⟩
      simp only [if_pos hcarries, if_pos hfull]
      rw [← invalidate_reason w]
      rfl
    · simp only [if_pos hcarries, if_neg hfull]
      exact .inl ⟨trivial, hcarries, hfull⟩
  · by_cases hfull : x.Full
    · refine .inr ⟨"changed_run_token",
        w.changes ++ [some "changed_run_token"] ++ [some "tracking_capacity"], by decide, ?_⟩
      simp only [if_neg hcarries, if_pos hfull]
      cases h : w.reason <;> simp [ObservationWindow.invalidate, h]
    · refine .inr ⟨"changed_run_token", w.changes ++ [some "changed_run_token"], by decide, ?_⟩
      simp only [if_neg hcarries, if_neg hfull]
      rw [← invalidate_reason w]
      rfl

omit [DecidableEq ι] in
theorem closes_append (ops : List (WindowOp ι)) (op : WindowOp ι) :
    closes (ops ++ [op]) = closes ops ++ closes [op] := by
  simp [closes]

/-- A new window is fresh, or has a reason. -/
theorem Sealed.new {falsy : ι → Bool} {s : Trace ι} (hops : s.ops = [])
    (hwindow : s.window = .new falsy s.args) : Sealed falsy s := by
  unfold ObservationWindow.new at hwindow
  simp only at hwindow
  split at hwindow
  · rename_i hfresh
    refine ⟨?_, ?_, ?_, ?_, ?_, ?_, ?_, ?_⟩ <;> simp [hwindow, hops, closes]
    exact Construction.isFresh_iff.mp hfresh
  · refine ⟨?_, ?_, ?_, ?_, ?_, ?_, ?_, ?_⟩ <;>
      simp [hwindow, ObservationWindow.invalidate]

/-- A window that has a reason that is not empty, whatever else happened to it. -/
theorem Sealed.refused {falsy : ι → Bool} {s : Trace ι} (text : String) (htext : text ≠ "")
    (hreason : s.window.reason = some text) (hrun : s.window.run = s.args.run)
    (hinstances : s.window.instances = s.args.instances) : Sealed falsy s := by
  refine ⟨hrun, hinstances, ?_, ?_, ?_, ?_, ?_, ?_⟩ <;> simp [hreason, htext]

/-- One operation keeps what a window says of its history. -/
theorem Sealed.step {falsy : ι → Bool} {s : Trace ι} (h : Sealed falsy s) (op : WindowOp ι)
    (hok : FirstReason s op) :
    Sealed falsy { s with ops := s.ops ++ [op], window := s.window.apply op } := by
  -- the reason there is after an invalidation
  have hreason : ∀ text, text ≠ "" → s.window.reason.getD text ≠ "" := by
    intro text htext
    cases hold : s.window.reason with
    | none => exact htext
    | some old =>
        rintro rfl
        exact h.nonempty hold
  cases op with
  | invalidate reason =>
      cases hold : s.window.reason with
      | some old =>
          refine .refused old ?_ ?_ h.run h.instances
          · rintro rfl
            exact h.nonempty hold
          · simp [ObservationWindow.apply, ObservationWindow.invalidate, hold]
      | none =>
          obtain ⟨hsome, hne⟩ := hok.resolve_left (by simp [hold])
          obtain ⟨text, rfl⟩ := Option.ne_none_iff_exists'.mp hsome
          refine .refused text ?_ ?_ h.run h.instances
          · rintro rfl
            exact hne rfl
          · simp [ObservationWindow.apply, ObservationWindow.invalidate, hold]
  | close instances =>
      by_cases hbad : s.window.closed ∨ ¬SameItems instances s.window.instances
      · refine .refused (s.window.reason.getD "changed_window_identity") (hreason _ (by decide))
          ?_ ?_ ?_
        · simp only [ObservationWindow.apply, ObservationWindow.close, if_pos hbad]
          exact invalidate_reason _ _
        · simp only [ObservationWindow.apply, ObservationWindow.close, if_pos hbad]
          exact h.run
        · simp only [ObservationWindow.apply, ObservationWindow.close, if_pos hbad]
          exact h.instances
      · have hsame : SameItems instances s.window.instances := by
          by_contra hne
          exact hbad (.inr hne)
        have hwindow : s.window.apply (.close instances) = { s.window with closed := true } := by
          simp only [ObservationWindow.apply, ObservationWindow.close, if_neg hbad]
        rw [hwindow]
        refine ⟨h.run, h.instances, h.nonempty, h.fresh, h.unchanged, ?_, ?_, ?_⟩
        · intro hnone reason hmem
          rw [List.mem_append, List.mem_singleton] at hmem
          rcases hmem with hmem | hmem
          · exact h.reported hnone reason hmem
          · contradiction
        · intro _ hopen
          contradiction
        · intro hnone _
          refine ⟨instances, ?_, h.instances ▸ hsame⟩
          rw [closes_append, h.unsealed hnone (by simpa using mt .inl hbad)]
          rfl
  | «match» x =>
      rcases noted_cases s.window x with ⟨hsame, -, -⟩ | ⟨text, changes, htext, hnoted⟩
      · have hwindow : s.window.apply (.match x) = s.window := hsame
        rw [hwindow]
        refine ⟨h.run, h.instances, h.nonempty, h.fresh, h.unchanged, ?_, ?_, ?_⟩
        · intro hnone reason hmem
          rw [List.mem_append, List.mem_singleton] at hmem
          rcases hmem with hmem | hmem
          · exact h.reported hnone reason hmem
          · contradiction
        · intro hnone hopen
          rw [closes_append, h.unsealed hnone hopen]
          rfl
        · intro hnone hclosed
          rw [closes_append]
          obtain ⟨instances, hcloses, hidentical⟩ := h.closed hnone hclosed
          exact ⟨instances, by rw [hcloses]; rfl, hidentical⟩
      · have hwindow : s.window.apply (.match x) =
            { s.window with changes := changes, reason := some (s.window.reason.getD text) } := hnoted
        rw [hwindow]
        exact .refused _ (hreason text htext) rfl h.run h.instances

/-- Every run whose first reason is not empty keeps it. -/
theorem sealed_of_reachable {falsy : ι → Bool} :
    ∀ s, (windowMachine falsy).ReachableWhen FirstReason s → Sealed falsy s := by
  apply Machine.ReachableWhen.invariant
  · exact fun s hs => .new hs.1 hs.2
  · intro s op t _ h hok hnext
    cases hnext
    exact h.step op hok

/-! ## Identities -/

/-- A window that may name somebody for some inputs: it was opened fresh, closed once
with the same identities, never invalidated, also not by the match itself; every event
carries its run, and the join accepts the inputs. -/
structure Qualified (falsy : ι → Bool) (s : Trace ι) (x : Inputs) : Prop where
  fresh : s.args.Fresh falsy
  closed : ∃ instances, closes s.ops = [instances] ∧ SameItems instances s.args.instances
  reported : ∀ reason, .invalidate reason ∉ s.ops
  unchanged : (s.window.match x).2.changes = []
  carries : x.Carries s.args.run
  accepted : Accepted x.lifetimes x.candidates x.ledger x.accounting

/-- The row of an observation was matched by a ledger record: by the only one of its key,
which is the key of no other observation. -/
structure Serves (x : Inputs) (i : Nat) (row : Row) (k : Nat) (matched : LedgerRow)
    (key : String × String) : Prop where
  placed : (keys x.lifetimes x.candidates)[i]? = some (some key)
  record : x.ledger[k]? = some matched
  names : matched.Names key
  taken : Taken row matched
  only : ∀ k' other, x.ledger[k']? = some other → other.Names key → k' = k
  alone : ∀ j, (keys x.lifetimes x.candidates)[j]? = some (some key) → j = i

/-- No ledger record serves two rows. -/
theorem Serves.injective {x : Inputs} {i j k : Nat} {row row' : Row} {matched matched' : LedgerRow}
    {key key' : String × String} (h : Serves x i row k matched key)
    (h' : Serves x j row' k matched' key') : i = j := by
  have hrecord : matched = matched' := Option.some.inj (h.record.symm.trans h'.record)
  have hkey : key = key' := by
    have hnames := h.names
    rw [hrecord] at hnames
    have hpath := Option.some.inj (hnames.1.symm.trans h'.names.1)
    have hnonce := Option.some.inj (hnames.2.symm.trans h'.names.2)
    exact Prod.ext hpath hnonce
  exact h'.alone i (hkey ▸ h.placed)

omit [DecidableEq ι] in
/-- A reason that is not empty is a refusal. -/
theorem refusal_of_reason {w : ObservationWindow ι} {text : String} (h : w.reason = some text)
    (hne : text ≠ "") : w.refusal = some text := by
  have hfilter : (w.reason.filter fun reason => reason ≠ "") = some text := by
    rw [h, Option.filter_some, if_pos (by simpa using hne)]
  rw [ObservationWindow.refusal, hfilter]

omit [DecidableEq ι] in
theorem refusal_of_none {w : ObservationWindow ι} (h : w.reason = none) :
    w.refusal = if w.closed then none else some "window_not_closed" := by
  rw [ObservationWindow.refusal, h]
  rfl

omit [DecidableEq ι] in
theorem not_reveals_stripped (reason : String) (row : Row) : ¬(row.stripped reason).Reveals := by
  simp [Row.Reveals, Row.stripped]

/-- Rows that reveal anything are the rows of the join, and nothing is known against the
window. -/
theorem match_revealing {falsy : ι → Bool} {s : Trace ι} {x : Inputs} {rows : List Row}
    (hsealed : Sealed falsy s) (h : (s.window.match x).1 = .ok rows)
    (hreveals : ∃ row ∈ rows, row.Reveals) :
    join x.lifetimes x.candidates x.ledger x.accounting = .ok rows ∧ Qualified falsy s x := by
  unfold ObservationWindow.match at h
  simp only at h
  cases hjoin : join x.lifetimes x.candidates x.ledger x.accounting with
  | error e =>
      rw [hjoin] at h
      contradiction
  | ok joined =>
      simp only [hjoin, Except.map, Except.ok.injEq] at h
      obtain ⟨row, hrow, hrowReveals⟩ := hreveals
      cases hrefusal : (s.window.noted x).refusal with
      | some reason =>
          rw [hrefusal] at h
          subst h
          obtain ⟨original, -, rfl⟩ := List.mem_map.mp hrow
          exact (not_reveals_stripped reason original hrowReveals).elim
      | none =>
          rw [hrefusal] at h
          subst h
          refine ⟨rfl, ?_⟩
          have haccepted : Accepted x.lifetimes x.candidates x.ledger x.accounting := by
            by_contra hrefused
            exact join_refused hjoin hrefused row hrow hrowReveals
          rcases noted_cases s.window x with ⟨hsame, hcarries, -⟩ | ⟨text, changes, htext, hnoted⟩
          · rw [hsame] at hrefusal
            have hnone : s.window.reason = none := by
              cases hold : s.window.reason with
              | none => rfl
              | some old =>
                  have hne : old ≠ "" := by
                    rintro rfl
                    exact hsealed.nonempty hold
                  rw [refusal_of_reason hold hne] at hrefusal
                  contradiction
            have hclosed : s.window.closed = true := by
              simpa [refusal_of_none hnone] using hrefusal
            refine ⟨hsealed.fresh hnone, hsealed.closed hnone hclosed, hsealed.reported hnone, ?_, ?_,
              haccepted⟩
            · simp only [ObservationWindow.match, hsame]
              exact hsealed.unchanged hnone
            · rw [← hsealed.run]
              exact hcarries
          · have hne : s.window.reason.getD text ≠ "" := by
              cases hold : s.window.reason with
              | none => exact htext
              | some old =>
                  rintro rfl
                  exact hsealed.nonempty hold
            rw [hnoted, refusal_of_reason rfl hne] at hrefusal
            contradiction

/-- While the first reason that a window is given is not empty, after any operations in
any order, for any inputs:

- a match that reveals anything of an observation is the match of a qualified window;
- each such row was matched by the only ledger record of its path and nonce, which no
  other completed observation has, and no ledger record serves two rows;
- ledger records whose path and nonce are those of no valid candidate make no
  difference, if there are as many of them. -/
theorem window_reveals_qualified (falsy : ι → Bool) (s : Trace ι)
    (hs : (windowMachine falsy).ReachableWhen FirstReason s) (x : Inputs) :
    (∀ rows, (s.window.match x).1 = .ok rows →
      (∀ row ∈ rows, row.Reveals → Qualified falsy s x) ∧
      (∀ i row, rows[i]? = some row → row.Reveals →
        ∃ k matched key, Serves x i row k matched key) ∧
      ∀ i j k row row' matched matched' key key', Serves x i row k matched key →
        Serves x j row' k matched' key' → i = j) ∧
    ∀ ledger, ledger.length = x.ledger.length →
      (∀ key, some key ∈ keys x.lifetimes x.candidates →
        authority ledger key = authority x.ledger key) →
      s.window.match { x with ledger } = s.window.match x := by
  have hsealed := sealed_of_reachable s hs
  refine ⟨?_, ?_⟩
  · intro rows hrows
    refine ⟨?_, ?_, fun i j k row row' matched matched' key key' h h' => h.injective h'⟩
    · intro row hrow hreveals
      exact (match_revealing hsealed hrows ⟨row, hrow, hreveals⟩).2
    · intro i row hrow hreveals
      obtain ⟨hjoin, hqualified⟩ :=
        match_revealing hsealed hrows ⟨row, List.mem_of_getElem? hrow, hreveals⟩
      obtain ⟨e, he, hmatch⟩ := join_row hjoin hrow hqualified.accepted
      obtain ⟨key, matched, hkey, hcount, hauthority, htaken⟩ := matchRow_revealing hmatch hreveals
      have hindex : (keys x.lifetimes x.candidates)[i]? = some (some key) := by
        rw [keys, List.getElem?_map, he, Option.map_some, hkey]
      obtain ⟨k, other, hother, hrecord, honly⟩ :=
        unique_index (l := x.ledger) (by rw [← authority, hauthority]; rfl)
      rw [← authority, hauthority] at hother
      cases hother
      obtain ⟨j, _, -, -, halone⟩ := unique_index (l := keys x.lifetimes x.candidates)
        (p := fun a => a == some key) (by rw [← List.countP_eq_length_filter]; exact hcount)
      refine ⟨k, matched, key, hindex, hrecord, ?_, htaken, ?_, ?_⟩
      · have hmem : matched ∈ authority x.ledger key := by
          rw [hauthority]
          exact List.mem_singleton_self matched
        simpa [authority] using (List.mem_filter.mp hmem).2
      · exact fun k' r hr hnames => honly k' r hr (by simpa using hnames)
      · intro j' hj'
        rw [halone j' _ hj' (by simp), halone i _ hindex (by simp)]
  · intro ledger hlength hsame
    unfold ObservationWindow.match
    have hnoted : s.window.noted { x with ledger } = s.window.noted x := rfl
    simp only [hnoted]
    rw [join_congr hlength hsame]

end

/-! ## A sample window -/

/-- The identities of the sample. -/
def sampleInstances : Dict String String where
  entries := [("init", "1"), ("parse", "2"), ("fini", "3"), ("candidate", "4")]
  nodup := by decide

/-- A parser hook's event of lifetime 1. -/
def sampleLifetime (sequence kind attempt : Int) : Lifetime where
  sequence := sequence
  run := 101
  kind := kind
  lifetime := 1
  attempt := attempt
  value := 0
  flags := 0
  failures := 0

/-- One request: an initialization, a candidate, a completed parse and a cleanup, and an
accepted record of the authority. -/
def sampleInputs : Inputs where
  lifetimes := [sampleLifetime 1 1 0, sampleLifetime 3 2 1, sampleLifetime 4 3 1]
  candidates := [{
    sequence := 2
    run := 101
    lifetime := 1
    attempt := 1
    flags := 1
    failures := 0
    path := some "/mcp"
    nonce := some "aaaaaaaaaaaaaaaaaaaaaaaaaaaaaaaa" }]
  ledger := [{
    path := some "/mcp"
    nonce := some "aaaaaaaaaaaaaaaaaaaaaaaaaaaaaaaa"
    attempt := some (.str "a")
    actor := some (.str "agent-A")
    authEvidence := some (.str "synthetic-test")
    accepted := some (.bool true)
    operation := some (.str "op-a")
    originator := none
    parent := none }]
  accounting := [("init", .int 1), ("parse", .int 1), ("fini", .int 1), ("candidate", .int 1),
    ("drops", .int 0), ("errors", .int 0), ("selections", .int 0)]

/-- A new window of the sample. -/
def sampleWindow : Trace String :=
  let args : Construction String := { run := .int 101, instances := sampleInstances, fresh := true }
  { args, ops := [], window := .new (fun text => text = "") args }

/-- The sample window after some operations. -/
def sampleTrace (ops : List (WindowOp String)) : Trace String :=
  ((windowMachine fun text => text = "").run sampleWindow ops).getD sampleWindow

/-- Whether the rows of a match name an actor. -/
def namesActor (result : Except String (List Row)) : Bool :=
  result.toOption.any fun rows => rows.any fun row => row.actor ≠ none

/-- The sample window, closed and never invalidated, names the actor of its one row, who
comes from its one ledger record. -/
theorem window_reveals_qualified_sample :
    namesActor ((sampleTrace [.close sampleInstances]).window.match sampleInputs).1 = true ∧
      Qualified (fun text => text = "") (sampleTrace [.close sampleInstances]) sampleInputs := by
  have hreached : (windowMachine fun text => text = "").ReachableWhen FirstReason
      (sampleTrace [.close sampleInstances]) :=
    .step (s := sampleWindow) (a := .close sampleInstances) (.start ⟨rfl, rfl⟩) trivial rfl
  have hnamed : namesActor ((sampleTrace [.close sampleInstances]).window.match sampleInputs).1 =
      true := by
    decide +kernel
  refine ⟨hnamed, ?_⟩
  have h := (window_reveals_qualified _ _ hreached sampleInputs).1
  cases hrows : ((sampleTrace [.close sampleInstances]).window.match sampleInputs).1 with
  | error e =>
      rw [hrows] at hnamed
      contradiction
  | ok rows =>
      rw [hrows] at hnamed
      obtain ⟨row, hrow, hactor⟩ := List.any_eq_true.mp hnamed
      exact (h rows hrows).1 row hrow (.inr (.inl (by simpa using hactor)))

/-- A window that was invalidated with an empty reason, and then closed, names the actor. -/
theorem empty_reason_reveals :
    (windowMachine fun text => text = "").Reachable
      (sampleTrace [.invalidate (some ""), .close sampleInstances]) ∧
    (sampleTrace [.invalidate (some ""), .close sampleInstances]).window.changes = [some ""] ∧
    namesActor ((sampleTrace [.invalidate (some ""), .close sampleInstances]).window.match
      sampleInputs).1 = true :=
  ⟨.step (s := sampleTrace [.invalidate (some "")]) (a := .close sampleInstances)
      (.step (s := sampleWindow) (a := .invalidate (some "")) (.start ⟨rfl, rfl⟩) trivial rfl)
      trivial rfl,
    by decide +kernel, by decide +kernel⟩

end Window
end LiveSurface
