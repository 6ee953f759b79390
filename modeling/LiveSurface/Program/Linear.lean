import LiveSurface.Program.Exclusion

/-!
# A dispatch is one look at the tables

A dispatcher walks the tables access by access while the control thread goes on.
Nothing it walks over changes before it leaves the gate.  So what it ran, and what
it answers, is what the sequential dispatcher runs and answers on the tables as
they are when it leaves, for VMs that return the same verdicts.

Main results:

- Theorem {lit}`Dispatch.Walked.next`: one access of the walk moves one entry from
  what is pending to what has been run.
- Theorem {lit}`Dispatch.Walked.same`: the walk of one dispatcher is not disturbed
  by the others.
- Theorem {lit}`dispatch_linearizable`: at its decrement, a dispatcher has done what
  {lit}`lsProgramDispatch` does.
-/

namespace LiveSurface
namespace Program

open StoreProgram

variable {m m' : Manager} {site : Nat}

/-! ## What is pending -/

/-- The linked entries of a program from entry {lit}`i` on. -/
def entriesFrom (m : Manager) (site id i : Nat) : List (Nat × Nat) :=
  ((List.range' i ((m.programs id).count - i)).filter fun e =>
    (m.programs id).sites e = some site).map fun e => (id, e)

/-- The entries to run from program {lit}`id` on. -/
def programsFrom (m : Manager) (site id : Nat) : List (Nat × Nat) :=
  (List.range' id (lsProgramMax - id)).flatMap (programEntries m site)

theorem entriesFrom_of_ge {id i : Nat} (h : (m.programs id).count ≤ i) :
    entriesFrom m site id i = [] := by
  simp [entriesFrom, Nat.sub_eq_zero_of_le h]

theorem entriesFrom_of_lt {id i : Nat} (h : i < (m.programs id).count) :
    entriesFrom m site id i =
      if (m.programs id).sites i = some site then (id, i) :: entriesFrom m site id (i + 1)
      else entriesFrom m site id (i + 1) := by
  have hcount : (m.programs id).count - i = (m.programs id).count - (i + 1) + 1 := by omega
  unfold entriesFrom
  rw [hcount, List.range'_succ, List.filter_cons]
  by_cases hsite : (m.programs id).sites i = some site
  · simp [hsite]
  · simp [hsite]

theorem programEntries_eq_entriesFrom {id : Nat} (hinstance : (m.programs id).instanceId ≠ 0)
    (hmode : (m.programs id).mode ≠ lsModeDisable) :
    programEntries m site id = entriesFrom m site id 0 := by
  unfold programEntries entriesFrom
  rw [if_neg (not_or.mpr ⟨hinstance, hmode⟩), Nat.sub_zero, List.range_eq_range']

theorem programsFrom_of_ge {id : Nat} (h : lsProgramMax ≤ id) :
    programsFrom m site id = [] := by
  simp [programsFrom, Nat.sub_eq_zero_of_le h]

theorem programsFrom_of_lt {id : Nat} (h : id < lsProgramMax) :
    programsFrom m site id = programEntries m site id ++ programsFrom m site (id + 1) := by
  have hcount : lsProgramMax - id = lsProgramMax - (id + 1) + 1 := by omega
  unfold programsFrom
  rw [hcount, List.range'_succ, List.flatMap_cons]

theorem dispatchEntries_eq_programsFrom (m : Manager) (site : Nat) :
    dispatchEntries m site = programsFrom m site 0 := by
  unfold dispatchEntries programsFrom
  rw [Nat.sub_zero, List.range_eq_range']

/-- The entries that a dispatcher at this access has still to run. -/
def Work.pending (m : Manager) (site : Nat) : Work → List (Nat × Nat)
  | .loadOwned => dispatchEntries m site
  | .loadReturnIp => dispatchEntries m site
  | .loadInstance id => programsFrom m site id
  | .loadMode id => programEntries m site id ++ programsFrom m site (id + 1)
  | .loadCount id i => entriesFrom m site id i ++ programsFrom m site (id + 1)
  | .loadSite id i => entriesFrom m site id i ++ programsFrom m site (id + 1)
  | .mapEnter id i => (id, i) :: (entriesFrom m site id (i + 1) ++ programsFrom m site (id + 1))
  | .loadSlotMode id i =>
      (id, i) :: (entriesFrom m site id (i + 1) ++ programsFrom m site (id + 1))
  | .loadSlotVm id i _ =>
      (id, i) :: (entriesFrom m site id (i + 1) ++ programsFrom m site (id + 1))
  | .loadSlotArmed id i _ _ =>
      (id, i) :: (entriesFrom m site id (i + 1) ++ programsFrom m site (id + 1))
  | .running id i _ =>
      (id, i) :: (entriesFrom m site id (i + 1) ++ programsFrom m site (id + 1))
  | .loadSafeValue id i =>
      (id, i) :: (entriesFrom m site id (i + 1) ++ programsFrom m site (id + 1))

/-! ## What has been run -/

/-- The result after some verdicts, the last safe return winning. -/
def outcome (safeValue : UInt64) (runs : List (Nat × Nat × LsVerdict)) : LsTrampResult :=
  runs.foldl (fun out r =>
    if r.2.2 = .safeReturn then { verdict := .safeReturn, safeValue := safeValue } else out)
    fallthroughResult

theorem outcome_append (safeValue : UInt64) (runs : List (Nat × Nat × LsVerdict))
    (r : Nat × Nat × LsVerdict) :
    outcome safeValue (runs ++ [r]) =
      if r.2.2 = .safeReturn then { verdict := .safeReturn, safeValue := safeValue }
      else outcome safeValue runs := by
  unfold outcome
  rw [List.foldl_append]
  rfl

/-- A dispatcher has run the first of the entries and has the others pending. -/
structure Dispatch.Walked (m : Manager) (d : Dispatch) (pending : List (Nat × Nat)) : Prop where
  inRange : d.call.slot < lsProgramSites
  visited : d.runs.map (fun r => (r.1, r.2.1)) ++ pending = dispatchEntries m d.call.slot
  out : d.out = outcome (m.sites d.call.slot).safeValue d.runs

/-- The dispatcher has run nothing. -/
structure Dispatch.Fresh (d : Dispatch) : Prop where
  inRange : d.call.slot < lsProgramSites
  runs : d.runs = []
  out : d.out = fallthroughResult

/-- The dispatcher was let into the loops. -/
structure Dispatch.LetIn (m : Manager) (d : Dispatch) : Prop where
  owned : d.owned = true
  input : d.call.input.isSome = true
  admitted : Admitted d.call.thread m d.call.slot d.call.returnIp

/-- What the checks before an access have established. -/
def Work.Passed (m : Manager) (d : Dispatch) : Work → Prop
  | .loadOwned => d.Fresh
  | .loadReturnIp => d.Fresh ∧ d.owned = true ∧ (m.sites d.call.slot).owned = true
  | _ => d.LetIn m

/-- A dispatcher that is about to leave: turned away, or at the end of the walk. -/
def Dispatch.Leaves (m : Manager) (d : Dispatch) : Prop :=
  (d.Fresh ∧ d.owned = (m.sites d.call.slot).owned ∧
      ¬ (d.call.input.isSome = true ∧ Admitted d.call.thread m d.call.slot d.call.returnIp)) ∨
    d.LetIn m ∧ d.Walked m []

/-- How far a dispatcher has come. -/
def Dispatch.Stands (m : Manager) (d : Dispatch) : Prop :=
  match d.pc with
  | .fetchAdd => d.Fresh
  | .loadWriter => d.Fresh
  | .refused => True
  | .work w => d.Walked m (w.pending m d.call.slot) ∧ w.Passed m d
  | .fetchSub => d.Leaves m
  | .returned _ => True
  | .legacy => True

variable {d : Dispatch} {id i : Nat} {rest : List (Nat × Nat)}

theorem Dispatch.Fresh.walked (h : d.Fresh) (m : Manager) :
    d.Walked m (dispatchEntries m d.call.slot) := by
  refine ⟨h.inRange, ?_, ?_⟩
  · rw [h.runs, List.map_nil, List.nil_append]
  · rw [h.runs, h.out]
    rfl

/-- {lit}`ls_vm_run` returns without a safe return. -/
theorem Dispatch.Walked.ran (h : d.Walked m ((id, i) :: rest)) {verdict : LsVerdict}
    (hverdict : verdict ≠ .safeReturn) : (d.ran id i verdict).Walked m rest := by
  refine ⟨h.inRange, ?_, ?_⟩
  · show (d.runs ++ [(id, i, verdict)]).map (fun r => (r.1, r.2.1)) ++ rest = _
    rw [List.map_append, List.append_assoc]
    exact h.visited
  · show d.out = outcome _ (d.runs ++ [(id, i, verdict)])
    rw [outcome_append, if_neg hverdict]
    exact h.out

/-- A safe return is recorded with the site's value. -/
theorem Dispatch.Walked.ranSafe (h : d.Walked m ((id, i) :: rest)) :
    ({ d with out := { verdict := .safeReturn,
                       safeValue := (m.sites d.call.slot).safeValue } }.ran
      id i .safeReturn).Walked m rest := by
  refine ⟨h.inRange, ?_, ?_⟩
  · show (d.runs ++ [(id, i, LsVerdict.safeReturn)]).map (fun r => (r.1, r.2.1)) ++ rest = _
    rw [List.map_append, List.append_assoc]
    exact h.visited
  · show _ = outcome _ (d.runs ++ [(id, i, LsVerdict.safeReturn)])
    rw [outcome_append, if_pos rfl]
    rfl

/-- The same entries are pending at another access. -/
theorem Dispatch.stands_of_work {w : Work} (hpc : d.pc = .work w)
    (hwalked : d.Walked m (w.pending m d.call.slot)) (hpassed : w.Passed m d) :
    d.Stands m := by
  unfold Dispatch.Stands
  rw [hpc]
  exact ⟨hwalked, hpassed⟩

theorem Dispatch.stands_of_leaves (hpc : d.pc = .fetchSub) (h : d.Leaves m) : d.Stands m := by
  unfold Dispatch.Stands
  rw [hpc]
  exact h

/-! ## One access of the walk -/

/-- Everything but the position is as it was. -/
theorem Dispatch.Walked.at (h : d.Walked m rest) (pc : Pc) :
    Dispatch.Walked m { d with pc := pc } rest :=
  ⟨h.inRange, h.visited, h.out⟩

theorem Dispatch.LetIn.at (h : d.LetIn m) (pc : Pc) : Dispatch.LetIn m { d with pc := pc } :=
  ⟨h.owned, h.input, h.admitted⟩

theorem Dispatch.Walked.next {w : Work} (h : d.Walked m (w.pending m d.call.slot))
    (hpassed : w.Passed m d) (hreads : w.Reads m d.call.slot) (answer : Answer) :
    (w.next m answer d).Stands m := by
  unfold Work.next
  cases w with
  | loadOwned =>
      have hfresh : d.Fresh := hpassed
      dsimp only
      split
      · rename_i howned
        exact Dispatch.stands_of_work rfl ⟨h.inRange, h.visited, h.out⟩
          ⟨⟨hfresh.inRange, hfresh.runs, hfresh.out⟩, rfl, howned⟩
      · rename_i howned
        apply Dispatch.stands_of_leaves rfl
        left
        refine ⟨⟨hfresh.inRange, hfresh.runs, hfresh.out⟩, by simpa using howned, ?_⟩
        intro hlet
        exact howned hlet.2.1
  | loadReturnIp =>
      obtain ⟨hfresh, howned, hsite⟩ := hpassed
      dsimp only
      split
      · rename_i hchecks
        refine Dispatch.stands_of_work rfl ?_ ?_
        · show Dispatch.Walked m _ (programsFrom m _ 0)
          rw [← dispatchEntries_eq_programsFrom]
          exact h.at _
        · exact ⟨howned, hchecks.2.1, hsite, hchecks.1, hchecks.2.2⟩
      · rename_i hchecks
        apply Dispatch.stands_of_leaves rfl
        left
        refine ⟨⟨hfresh.inRange, hfresh.runs, hfresh.out⟩, howned.trans hsite.symm, ?_⟩
        intro hlet
        exact hchecks ⟨hlet.2.2.1, hlet.1, hlet.2.2.2⟩
  | loadInstance id =>
      have hlet : d.LetIn m := hpassed
      dsimp only
      split
      · rename_i hge
        have hdone : programsFrom m d.call.slot id = [] := programsFrom_of_ge hge
        apply Dispatch.stands_of_leaves rfl
        right
        refine ⟨hlet.at _, ?_⟩
        rw [Work.pending, hdone] at h
        exact h.at _
      · rename_i hlt
        have hsplit : programsFrom m d.call.slot id =
            programEntries m d.call.slot id ++ programsFrom m d.call.slot (id + 1) :=
          programsFrom_of_lt (by omega)
        rw [Work.pending, hsplit] at h
        split
        · rename_i hzero
          have hskip : programEntries m d.call.slot id = [] := by
            unfold programEntries
            rw [if_pos (.inl hzero)]
          rw [hskip, List.nil_append] at h
          exact Dispatch.stands_of_work rfl (h.at _) (hlet.at _)
        · exact Dispatch.stands_of_work rfl (h.at _) (hlet.at _)
  | loadMode id =>
      have hlet : d.LetIn m := hpassed
      rw [Work.pending] at h
      dsimp only
      split
      · rename_i hmode
        have hskip : programEntries m d.call.slot id = [] := by
          unfold programEntries
          rw [if_pos (.inr hmode)]
        rw [hskip, List.nil_append] at h
        exact Dispatch.stands_of_work rfl (h.at _) (hlet.at _)
      · rename_i hmode
        rw [programEntries_eq_entriesFrom hreads hmode] at h
        exact Dispatch.stands_of_work rfl (h.at _) (hlet.at _)
  | loadCount id i =>
      have hlet : d.LetIn m := hpassed
      rw [Work.pending] at h
      dsimp only
      split
      · exact Dispatch.stands_of_work rfl (h.at _) (hlet.at _)
      · rename_i hge
        rw [entriesFrom_of_ge (by omega), List.nil_append] at h
        exact Dispatch.stands_of_work rfl (h.at _) (hlet.at _)
  | loadSite id i =>
      have hlet : d.LetIn m := hpassed
      rw [Work.pending, entriesFrom_of_lt hreads.2] at h
      dsimp only
      split
      · rename_i hsite
        rw [if_pos hsite] at h
        exact Dispatch.stands_of_work rfl (h.at _) (hlet.at _)
      · rename_i hsite
        rw [if_neg hsite] at h
        exact Dispatch.stands_of_work rfl (h.at _) (hlet.at _)
  | mapEnter id i =>
      have hlet : d.LetIn m := hpassed
      dsimp only
      split
      · exact Dispatch.stands_of_work rfl (h.at _) (hlet.at _)
      · exact Dispatch.stands_of_work rfl (Dispatch.Walked.ran h (by simp))
          ⟨hlet.owned, hlet.input, hlet.admitted⟩
  | loadSlotMode id i =>
      exact Dispatch.stands_of_work rfl (h.at _) (Dispatch.LetIn.at hpassed _)
  | loadSlotVm id i mode =>
      exact Dispatch.stands_of_work rfl (h.at _) (Dispatch.LetIn.at hpassed _)
  | loadSlotArmed id i mode vm =>
      have hlet : d.LetIn m := hpassed
      have hran : (d.ran id i .fallthrough).Stands m :=
        Dispatch.stands_of_work rfl (Dispatch.Walked.ran h (by simp))
          ⟨hlet.owned, hlet.input, hlet.admitted⟩
      cases vm with
      | none => exact hran
      | some v =>
          dsimp only
          split
          · exact Dispatch.stands_of_work rfl (h.at _) (hlet.at _)
          · exact hran
  | running id i v =>
      have hlet : d.LetIn m := hpassed
      dsimp only
      split
      · exact Dispatch.stands_of_work rfl (h.at _) (hlet.at _)
      · rename_i hverdict
        exact Dispatch.stands_of_work rfl (Dispatch.Walked.ran h hverdict)
          ⟨hlet.owned, hlet.input, hlet.admitted⟩
  | loadSafeValue id i =>
      have hlet : d.LetIn m := hpassed
      exact Dispatch.stands_of_work rfl (Dispatch.Walked.ranSafe h)
        ⟨hlet.owned, hlet.input, hlet.admitted⟩

/-! ## Beside the others -/

theorem programEntries_same (hsame : SameAccounts m m') (site id : Nat) :
    programEntries m' site id = programEntries m site id := by
  by_cases hinstance : (m.programs id).instanceId = 0
  · have hnone : programEntries m site id = [] := by
      unfold programEntries
      rw [if_pos (.inl hinstance)]
    rw [hnone, List.eq_nil_iff_forall_not_mem]
    intro x hx
    obtain ⟨_, hlinked, _⟩ := mem_programEntries.mp hx
    exact ((hsame.links id x.2 site).mp hlinked).1 hinstance
  · unfold programEntries
    rw [(hsame.published id hinstance).1]

theorem programsFrom_same (hsame : SameAccounts m m') (site id : Nat) :
    programsFrom m' site id = programsFrom m site id := by
  unfold programsFrom
  apply congrArg (List.flatMap · (List.range' id (lsProgramMax - id)))
  ext id' : 1
  exact programEntries_same hsame site id'

theorem entriesFrom_same (hsame : SameAccounts m m')
    (hinstance : (m.programs id).instanceId ≠ 0) (site i : Nat) :
    entriesFrom m' site id i = entriesFrom m site id i := by
  unfold entriesFrom
  rw [(hsame.published id hinstance).1]

theorem dispatchEntries_same (hsame : SameAccounts m m') (site : Nat) :
    dispatchEntries m' site = dispatchEntries m site := by
  rw [dispatchEntries_eq_programsFrom, dispatchEntries_eq_programsFrom,
    programsFrom_same hsame]

theorem Work.pending_same {w : Work} (hreads : w.Reads m site) (hsame : SameAccounts m m') :
    w.pending m' site = w.pending m site := by
  cases w with
  | loadOwned => exact dispatchEntries_same hsame site
  | loadReturnIp => exact dispatchEntries_same hsame site
  | loadInstance id => exact programsFrom_same hsame site id
  | loadMode id => simp only [Work.pending, programEntries_same hsame, programsFrom_same hsame]
  | loadCount id i =>
      simp only [Work.pending, entriesFrom_same hsame hreads, programsFrom_same hsame]
  | loadSite id i =>
      simp only [Work.pending, entriesFrom_same hsame hreads.1, programsFrom_same hsame]
  | mapEnter id i =>
      simp only [Work.pending, entriesFrom_same hsame hreads.1, programsFrom_same hsame]
  | loadSlotMode id i =>
      simp only [Work.pending, entriesFrom_same hsame hreads.1, programsFrom_same hsame]
  | loadSlotVm id i mode =>
      simp only [Work.pending, entriesFrom_same hsame hreads.1, programsFrom_same hsame]
  | loadSlotArmed id i mode vm =>
      simp only [Work.pending, entriesFrom_same hsame hreads.1.1, programsFrom_same hsame]
  | running id i v =>
      simp only [Work.pending, entriesFrom_same hsame hreads.1.1, programsFrom_same hsame]
  | loadSafeValue id i =>
      simp only [Work.pending, entriesFrom_same hsame hreads, programsFrom_same hsame]

theorem admitted_same (hsame : SameAccounts m m') (t : DispatchThread) (returnIp : UInt64) :
    Admitted t m' site returnIp ↔ Admitted t m site returnIp := by
  unfold Admitted
  rw [hsame.sites]

theorem Dispatch.Walked.same (h : d.Walked m rest) (hsame : SameAccounts m m') :
    d.Walked m' rest := by
  refine ⟨h.inRange, ?_, ?_⟩
  · rw [dispatchEntries_same hsame]
    exact h.visited
  · rw [hsame.sites]
    exact h.out

theorem Dispatch.LetIn.same (h : d.LetIn m) (hsame : SameAccounts m m') : d.LetIn m' :=
  ⟨h.owned, h.input, (admitted_same hsame _ _).mpr h.admitted⟩

theorem Work.Passed.same {w : Work} (h : w.Passed m d) (hsame : SameAccounts m m') :
    w.Passed m' d := by
  cases w with
  | loadOwned => exact h
  | loadReturnIp =>
      refine ⟨h.1, h.2.1, ?_⟩
      rw [hsame.sites]
      exact h.2.2
  | loadInstance | loadMode | loadCount | loadSite | mapEnter | loadSlotMode | loadSlotVm
  | loadSlotArmed | running | loadSafeValue => exact Dispatch.LetIn.same h hsame

/-- Nothing published changes: the dispatcher stands where it stood. -/
theorem Dispatch.Stands.same (h : d.Stands m) (hreads : d.Reads m) (hsame : SameAccounts m m') :
    d.Stands m' := by
  unfold Dispatch.Stands at h ⊢
  cases hpc : d.pc with
  | fetchAdd => simpa [hpc] using h
  | loadWriter => simpa [hpc] using h
  | refused => trivial
  | work w =>
      simp only [hpc] at h ⊢
      rw [Work.pending_same (hreads w hpc) hsame]
      exact ⟨h.1.same hsame, h.2.same hsame⟩
  | fetchSub =>
      simp only [hpc] at h ⊢
      rcases h with ⟨hfresh, howned, hnot⟩ | ⟨hlet, hwalked⟩
      · left
        rw [admitted_same hsame, hsame.sites]
        exact ⟨hfresh, howned, hnot⟩
      · exact .inr ⟨hlet.same hsame, hwalked.same hsame⟩
  | returned ret => trivial
  | legacy => trivial

/-- Before the gate a dispatcher knows nothing of the tables. -/
theorem Dispatch.Stands.outside (h : d.Stands m) (hnot : ¬ d.Inside) (m' : Manager) :
    d.Stands m' := by
  unfold Dispatch.Stands at h ⊢
  cases hpc : d.pc with
  | fetchAdd => simpa [hpc] using h
  | loadWriter => simpa [hpc] using h
  | refused => trivial
  | work w => exact absurd (.inl ⟨w, hpc⟩) hnot
  | fetchSub => exact absurd (.inr hpc) hnot
  | returned ret => trivial
  | legacy => trivial

/-! ## Every run -/

variable {T : Type} [DecidableEq T] {s s' : State T}

theorem stands_lsTrampDispatchAt (m : Manager) (c : Call) : (lsTrampDispatchAt c).Stands m := by
  by_cases hip : c.returnIp = 0
  · simp [Dispatch.Stands, lsTrampDispatchAt, hip]
  · by_cases hslot : c.slot ≥ lsProgramSites
    · simp [Dispatch.Stands, lsTrampDispatchAt, hip, hslot]
    · have hpc : (lsTrampDispatchAt c).pc = .fetchAdd := by
        simp [lsTrampDispatchAt, hip, hslot]
      unfold Dispatch.Stands
      rw [hpc]
      exact ⟨Nat.not_le.mp hslot, rfl, rfl⟩

omit [DecidableEq T] in
theorem Dispatch.Stands.own {e : Dispatch} {answer : Answer} (hd : d.Stands s.manager)
    (hreads : d.Reads s.manager) (hstep : OwnStep s answer d e) : e.Stands s.manager := by
  unfold Dispatch.Stands at hd
  cases hstep with
  | fetchAdd h =>
      rw [h] at hd
      exact ⟨hd.inRange, hd.runs, hd.out⟩
  | refused h hwriter => trivial
  | admitted h hwriter =>
      rw [h] at hd
      have hfresh : d.Fresh := hd
      exact Dispatch.stands_of_work rfl ((hfresh.walked _).at _)
        ⟨hfresh.inRange, hfresh.runs, hfresh.out⟩
  | busy h => trivial
  | work h =>
      rw [h] at hd
      exact hd.1.next hd.2 (hreads _ h) answer
  | fetchSub h => trivial
  | legacy h => trivial

theorem stands_of_reachable : ∀ s, (gateMachine T).Reachable s →
    ∀ t d, s.dispatchers t = some d → d.Stands s.manager := by
  apply Machine.Reachable.invariant
  · intro s hs t d hd
    obtain ⟨_, _, _, _, hdispatchers, _⟩ := hs
    rw [hdispatchers t] at hd
    contradiction
  · intro s a s' hs h hnext
    have hsteady := steady_of_reachable s hs
    apply dispatchers_next (P := fun m d => d.Stands m) hnext
    · intro t d hd
      by_cases hinside : d.Inside
      · exact (h t d hd).same (hsteady.reads t d hd) (hsteady.unchanged hs hnext hd hinside)
      · exact (h t d hd).outside hinside _
    · intro c
      exact stands_lsTrampDispatchAt _ c
    · intro t answer d e _ hd hstep
      exact (h t d hd).own (hsteady.reads t d hd) hstep

/-! ## The sequential dispatcher -/

/-- A VM that returns given verdicts, one after the other. -/
def replay : VmRun (List LsVerdict) := fun verdicts _ _ =>
  (verdicts.headD .fallthrough, verdicts.tail)

/-- The loops of the sequential dispatcher over entries whose verdicts are
given. -/
theorem foldl_runEntry_replay (m : Manager) (site : Nat) (ctx : LsCtxGeneric)
    (runs : List (Nat × Nat × LsVerdict)) :
    ∀ x : Dispatching (List LsVerdict), x.world = runs.map (fun r => r.2.2) →
      let y := (runs.map fun r => (r.1, r.2.1)).foldl (runEntry replay m site ctx) x
      y.out = runs.foldl (fun out r => if r.2.2 = .safeReturn then
          { verdict := .safeReturn, safeValue := (m.sites site).safeValue } else out) x.out ∧
        y.runs.map (fun r => (r.id, r.entry, r.verdict)) =
          x.runs.map (fun r => (r.id, r.entry, r.verdict)) ++ runs := by
  induction runs with
  | nil =>
      intro x _
      simp
  | cons r rest ih =>
      intro x hworld
      have hrest := ih (runEntry replay m site ctx x (r.1, r.2.1))
        (by simp [runEntry, replay, hworld])
      obtain ⟨hout, hruns⟩ := hrest
      simp only [List.map_cons, List.foldl_cons]
      refine ⟨?_, ?_⟩
      · rw [hout]
        simp [runEntry, replay, hworld]
      · rw [hruns]
        simp [runEntry, replay, hworld]

/-- At its decrement, a dispatcher that passed the gate has run and answers what
the sequential dispatcher runs and answers on the tables as they are then, for
VMs that return the same verdicts. -/
theorem dispatch_linearizable (s : State T) (hs : (gateMachine T).Reachable s) {t : T}
    {d : Dispatch} (hd : s.dispatchers t = some d) (hpc : d.pc = .fetchSub) :
    let r := lsProgramDispatch replay false d.call.thread s.manager d.call.slot
      d.call.returnIp d.call.input (d.runs.map fun r => r.2.2)
    r.ret = d.owned ∧ r.out = some d.out ∧
      r.runs.map (fun r => (r.id, r.entry, r.verdict)) = d.runs := by
  have hstands := stands_of_reachable s hs t d hd
  unfold Dispatch.Stands at hstands
  rw [hpc] at hstands
  unfold lsProgramDispatch
  rcases hstands with ⟨hfresh, howned, hnot⟩ | ⟨hlet, hwalked⟩
  · rw [if_neg (Nat.not_le.mpr hfresh.inRange)]
    cases hinput : d.call.input with
    | none => simp [howned, hfresh.runs, hfresh.out]
    | some ctx =>
        have hrefused : ¬ Admitted d.call.thread s.manager d.call.slot d.call.returnIp := by
          intro hadmitted
          exact hnot ⟨by simp [hinput], hadmitted⟩
        simp [hrefused, howned, hfresh.runs, hfresh.out]
  · rw [if_neg (Nat.not_le.mpr hwalked.inRange)]
    cases hinput : d.call.input with
    | none =>
        have hsome := hlet.input
        simp [hinput] at hsome
    | some ctx =>
        have hvisited := hwalked.visited
        rw [List.append_nil] at hvisited
        have hloop := foldl_runEntry_replay s.manager d.call.slot ctx d.runs
          { out := fallthroughResult, runs := [], world := d.runs.map fun r => r.2.2 } rfl
        rw [hvisited] at hloop
        simp only [Bool.false_eq_true, if_false, if_pos hlet.admitted]
        refine ⟨hlet.admitted.1.trans hlet.owned.symm, ?_, ?_⟩
        · rw [hloop.1, hwalked.out]
          rfl
        · simpa using hloop.2

/-- The program that was running has answered, and its dispatcher is at its decrement. -/
def answeredState : State Unit :=
  ((gateMachine Unit).run runningState (List.replicate 11 (.dispatch () sampleAnswer))).getD
    runningState

theorem dispatch_linearizable_answeredState :
    let r := lsProgramDispatch replay false idleThread answeredState.manager 0 4105 (some zeroCtx)
      [.safeReturn]
    r.ret = true ∧ r.out = some { verdict := .safeReturn, safeValue := 7 } ∧
      r.runs.map (fun r => (r.id, r.entry, r.verdict)) = [(0, 0, .safeReturn)] :=
  dispatch_linearizable answeredState (t := ())
    (d := { runningDispatch with
      out := { verdict := .safeReturn, safeValue := 7 }
      runs := [(0, 0, .safeReturn)]
      pc := .fetchSub })
    (Machine.reachable_run_getD reachable_runningState (by decide +kernel)) (by decide +kernel) rfl

end Program
end LiveSurface
