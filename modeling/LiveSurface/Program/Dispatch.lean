import LiveSurface.Program.Accounting

/-!
# Dispatch and isolation

A patched function entry reaches the manager with the site of its trampoline and
the address it will return to.  The dispatcher runs every enabled entry linked to
that site, each on its own copy of the context, and answers whether the function
body is to be skipped.

The VM is a parameter: a run takes a slot and a context and gives a verdict, and
may change whatever else it likes, but not the manager's tables.

Main results:

- Theorems {lit}`pairwise_dispatchEntries` and {lit}`mem_dispatchEntries`: the
  entries a dispatch visits, in which order.
- Theorem {lit}`lsProgramDispatch_admitted`: what an admitted dispatch runs and
  answers.
- Theorem {lit}`Sound.sites_kept`: no operation redescribes a site in use.
- Theorem {lit}`programs_isolated`: no operation on one program can be seen by
  another, in the tables or in what a dispatch runs.
-/

namespace LiveSurface
namespace Program

open Config StoreProgram

/-! ## The dispatcher -/

inductive LsVerdict
  | fallthrough
  | safeReturn
deriving DecidableEq

structure LsCtxGeneric where
  arg : Vector UInt64 5
  reserved : Vector UInt64 7
deriving DecidableEq

structure LsTrampResult where
  verdict : LsVerdict
  safeValue : UInt64
deriving DecidableEq

/-- One call of {lit}`ls_vm_run` from the dispatcher. -/
structure EntryRun where
  id : Nat
  entry : Nat
  /-- The context as the program receives it. -/
  ctx : LsCtxGeneric
  verdict : LsVerdict
deriving DecidableEq

/-- {lit}`ls_vm_run` on a slot and a context of its own, in a world of maps,
counters and everything else a program can reach. -/
abbrev VmRun (W : Type) := W → Nat → LsCtxGeneric → LsVerdict × W

/-- The thread-local state a dispatch checks. -/
structure DispatchThread where
  /-- {lit}`g_ls_namespace` is set. -/
  inNamespace : Bool
  /-- {lit}`g_ls_cur_slot` names a slot. -/
  running : Bool
deriving DecidableEq

structure Dispatched (W : Type) where
  ret : Bool
  /-- {lit}`none` when the result was not written. -/
  out : Option LsTrampResult
  runs : List EntryRun
  world : W

/-- The entries of one program that a dispatch at a site runs. -/
def programEntries (m : Manager) (site id : Nat) : List (Nat × Nat) :=
  if (m.programs id).instanceId = 0 ∨ (m.programs id).mode = lsModeDisable then []
  else ((List.range (m.programs id).count).filter fun e =>
    (m.programs id).sites e = some site).map fun e => (id, e)

/-- The two loops of the dispatcher, as the pairs at which they run a VM. -/
def dispatchEntries (m : Manager) (site : Nat) : List (Nat × Nat) :=
  (List.range lsProgramMax).flatMap (programEntries m site)

/-- What the loops carry. -/
structure Dispatching (W : Type) where
  out : LsTrampResult
  runs : List EntryRun
  world : W

variable {W : Type}

/-- One round: a fresh copy of the input, one run, and its verdict. -/
def runEntry (vmRun : VmRun W) (m : Manager) (site : Nat) (input : LsCtxGeneric)
    (d : Dispatching W) (x : Nat × Nat) : Dispatching W :=
  let answer := vmRun d.world (lsProgramSlot x.1 x.2) input
  { out := if answer.1 = .safeReturn then
        { verdict := .safeReturn, safeValue := (m.sites site).safeValue }
      else d.out
    runs := d.runs ++ [{ id := x.1, entry := x.2, ctx := input, verdict := answer.1 }]
    world := answer.2 }

/-- The dispatcher's own check, past the gate. -/
def Admitted (t : DispatchThread) (m : Manager) (site : Nat) (returnIp : UInt64) : Prop :=
  (m.sites site).owned = true ∧ returnIp = (m.sites site).returnIp ∧
    t.inNamespace = false ∧ t.running = false

instance (t : DispatchThread) (m : Manager) (site : Nat) (returnIp : UInt64) :
    Decidable (Admitted t m site returnIp) :=
  inferInstanceAs (Decidable (_ ∧ _ ∧ _ ∧ _))

def fallthroughResult : LsTrampResult where
  verdict := .fallthrough
  safeValue := 0

/-- {lit}`ls_program_dispatch`; {lit}`busy` is whether the writer was seen. -/
def lsProgramDispatch (vmRun : VmRun W) (busy : Bool) (t : DispatchThread) (m : Manager)
    (site : Nat) (returnIp : UInt64) (input : Option LsCtxGeneric) (w : W) : Dispatched W :=
  if site ≥ lsProgramSites then { ret := false, out := none, runs := [], world := w }
  else if busy then { ret := true, out := some fallthroughResult, runs := [], world := w }
  else
    match input with
    | none =>
        { ret := (m.sites site).owned, out := some fallthroughResult, runs := [], world := w }
    | some ctx =>
        if Admitted t m site returnIp then
          let d := (dispatchEntries m site).foldl (runEntry vmRun m site ctx)
            { out := fallthroughResult, runs := [], world := w }
          { ret := (m.sites site).owned, out := some d.out, runs := d.runs, world := d.world }
        else
          { ret := (m.sites site).owned, out := some fallthroughResult, runs := [], world := w }

/-! ## Order -/

/-- Programs in index order, and entries in index order within a program. -/
def Before (x y : Nat × Nat) : Prop := x.1 < y.1 ∨ (x.1 = y.1 ∧ x.2 < y.2)

variable {m : Manager} {site : Nat}

theorem mem_programEntries {id : Nat} {x : Nat × Nat} :
    x ∈ programEntries m site id ↔
      x.1 = id ∧ Linked m id x.2 site ∧ (m.programs id).mode ≠ lsModeDisable := by
  unfold programEntries Linked
  split
  · rename_i hskip
    simp only [List.not_mem_nil, false_iff]
    intro h
    rcases hskip with hzero | hmode
    · exact h.2.1.1 hzero
    · exact h.2.2 hmode
  · rename_i hrun
    rw [not_or] at hrun
    rw [List.mem_map]
    constructor
    · intro h
      obtain ⟨e, he, rfl⟩ := h
      simp only [List.mem_filter, List.mem_range, decide_eq_true_eq] at he
      exact ⟨rfl, ⟨hrun.1, he⟩, hrun.2⟩
    · intro h
      refine ⟨x.2, ?_, ?_⟩
      · simp only [List.mem_filter, List.mem_range, decide_eq_true_eq]
        exact h.2.1.2
      · rw [← h.1]

theorem mem_dispatchEntries (h : Sound m) {id e : Nat} :
    (id, e) ∈ dispatchEntries m site ↔
      Linked m id e site ∧ (m.programs id).mode ≠ lsModeDisable := by
  unfold dispatchEntries
  rw [List.mem_flatMap]
  constructor
  · intro hmem
    obtain ⟨id', _, hx⟩ := hmem
    obtain ⟨rfl, hlinked, hmode⟩ := mem_programEntries.mp hx
    exact ⟨hlinked, hmode⟩
  · intro hlinked
    refine ⟨id, ?_, mem_programEntries.mpr ⟨rfl, hlinked⟩⟩
    rw [List.mem_range]
    by_contra hge
    exact hlinked.1.1 ((h.accounts.programs id).outside (by omega))

theorem pairwise_programEntries (id : Nat) : (programEntries m site id).Pairwise Before := by
  unfold programEntries
  split
  · exact List.Pairwise.nil
  · apply List.Pairwise.map (R := fun e e' : Nat => e < e')
    · intro e e' hlt
      exact .inr ⟨rfl, hlt⟩
    · exact List.Pairwise.filter _ (List.pairwise_lt_range)

theorem pairwise_dispatchEntries (m : Manager) (site : Nat) :
    (dispatchEntries m site).Pairwise Before := by
  unfold dispatchEntries
  rw [List.pairwise_flatMap]
  constructor
  · intro id _
    exact pairwise_programEntries id
  · apply List.pairwise_lt_range.imp
    intro id id' hlt x hx y hy
    left
    rw [(mem_programEntries.mp hx).1, (mem_programEntries.mp hy).1]
    exact hlt

/-! ## Verdicts -/

/-- What the loops have run, and what they answer so far. -/
structure Composed (m : Manager) (site : Nat) (input : LsCtxGeneric) (visited : List (Nat × Nat))
    (d : Dispatching W) : Prop where
  runs : d.runs.map (fun r => (r.id, r.entry)) = visited
  inputs : ∀ r ∈ d.runs, r.ctx = input
  verdict : d.out.verdict = .safeReturn ↔ ∃ r ∈ d.runs, r.verdict = .safeReturn
  safeValue : d.out.safeValue =
    if d.out.verdict = .safeReturn then (m.sites site).safeValue else 0

theorem Composed.runEntry {input : LsCtxGeneric} {visited : List (Nat × Nat)}
    {d : Dispatching W} (h : Composed m site input visited d) (vmRun : VmRun W)
    (x : Nat × Nat) :
    Composed m site input (visited ++ [x]) (runEntry vmRun m site input d x) := by
  unfold Program.runEntry
  generalize vmRun d.world (lsProgramSlot x.1 x.2) input = answer
  constructor
  · simp [h.runs]
  · intro r hr
    rcases List.mem_append.mp hr with hold | hnew
    · exact h.inputs r hold
    · rw [List.mem_singleton] at hnew
      rw [hnew]
  · by_cases hsafe : answer.1 = .safeReturn
    · simp [hsafe]
    · simp only [hsafe, if_false, List.mem_append, List.mem_singleton]
      rw [h.verdict]
      constructor
      · intro hold
        obtain ⟨r, hr, hverdict⟩ := hold
        exact ⟨r, .inl hr, hverdict⟩
      · intro hnew
        obtain ⟨r, hr | rfl, hverdict⟩ := hnew
        · exact ⟨r, hr, hverdict⟩
        · exact absurd hverdict hsafe
  · by_cases hsafe : answer.1 = .safeReturn
    · simp [hsafe]
    · simpa [hsafe] using h.safeValue

theorem Composed.foldl {input : LsCtxGeneric} (vmRun : VmRun W) (todo : List (Nat × Nat)) :
    ∀ {visited : List (Nat × Nat)} {d : Dispatching W}, Composed m site input visited d →
      Composed m site input (visited ++ todo)
        (todo.foldl (Program.runEntry vmRun m site input) d) := by
  induction todo with
  | nil =>
      intro visited d h
      rw [List.append_nil]
      exact h
  | cons x rest ih =>
      intro visited d h
      have hrest := ih (h.runEntry vmRun x)
      rw [List.append_assoc] at hrest
      exact hrest

theorem composed_start (m : Manager) (site : Nat) (input : LsCtxGeneric) (w : W) :
    Composed m site input [] { out := fallthroughResult, runs := [], world := w } := by
  refine ⟨rfl, ?_, ?_, rfl⟩
  · intro r hr
    contradiction
  · simp [fallthroughResult]

/-- The pairs a dispatch runs, in order: all of them if it is admitted, else
none. -/
def visitedEntries (busy : Bool) (t : DispatchThread) (m : Manager) (site : Nat)
    (returnIp : UInt64) (input : Option LsCtxGeneric) : List (Nat × Nat) :=
  if site < lsProgramSites ∧ busy = false ∧ input.isSome ∧ Admitted t m site returnIp then
    dispatchEntries m site
  else []

/-- Any dispatch: which pairs it runs, on what, and with which answer. -/
theorem lsProgramDispatch_runs (vmRun : VmRun W) (busy : Bool) (t : DispatchThread)
    (m : Manager) (site : Nat) (returnIp : UInt64) (input : Option LsCtxGeneric) (w : W) :
    let d := lsProgramDispatch vmRun busy t m site returnIp input w
    d.runs.map (fun r => (r.id, r.entry)) = visitedEntries busy t m site returnIp input ∧
      (∀ r ∈ d.runs, some r.ctx = input) ∧
      (site < lsProgramSites → ∃ out, d.out = some out ∧
        (out.verdict = .safeReturn ↔ ∃ r ∈ d.runs, r.verdict = .safeReturn) ∧
        out.safeValue = if out.verdict = .safeReturn then (m.sites site).safeValue else 0) := by
  have hempty : ∃ out, some fallthroughResult = some out ∧
      (out.verdict = .safeReturn ↔ ∃ r ∈ ([] : List EntryRun), r.verdict = .safeReturn) ∧
      out.safeValue = if out.verdict = .safeReturn then (m.sites site).safeValue else 0 :=
    ⟨fallthroughResult, rfl, by simp [fallthroughResult], rfl⟩
  have hnone : ∀ r ∈ ([] : List EntryRun), some r.ctx = input := by
    intro r hr
    contradiction
  unfold lsProgramDispatch visitedEntries
  by_cases hsite : site ≥ lsProgramSites
  · have hnot : ¬ site < lsProgramSites := by omega
    simp only [if_pos hsite, hnot, false_and, if_false]
    exact ⟨rfl, hnone, fun h => absurd h id⟩
  · have hlt : site < lsProgramSites := by omega
    rw [if_neg hsite]
    cases busy with
    | true => exact ⟨by simp, hnone, fun _ => hempty⟩
    | false =>
        cases input with
        | none => exact ⟨by simp, hnone, fun _ => hempty⟩
        | some ctx =>
            by_cases hadmitted : Admitted t m site returnIp
            · have hcomposed := (composed_start m site ctx w).foldl vmRun
                (dispatchEntries m site)
              simp only [hadmitted, if_true, hlt, Option.isSome_some, and_self,
                Bool.false_eq_true, if_false]
              refine ⟨hcomposed.runs, ?_, ?_⟩
              · intro r hr
                rw [hcomposed.inputs r hr]
              · intro _
                exact ⟨_, rfl, hcomposed.verdict, hcomposed.safeValue⟩
            · simp only [hadmitted, if_false, Bool.false_eq_true, and_false]
              exact ⟨rfl, hnone, fun _ => hempty⟩

/-- A dispatch that is turned away runs nothing and selects nothing. -/
theorem lsProgramDispatch_refused (vmRun : VmRun W) {busy : Bool} {t : DispatchThread}
    {returnIp : UInt64} {input : Option LsCtxGeneric}
    (hnot : busy = true ∨ input = none ∨ ¬ Admitted t m site returnIp) (w : W) :
    (lsProgramDispatch vmRun busy t m site returnIp input w).runs = [] ∧
      ∀ out, (lsProgramDispatch vmRun busy t m site returnIp input w).out = some out →
        out = fallthroughResult := by
  have hwritten : ∀ out, some fallthroughResult = some out → out = fallthroughResult := by
    intro out hout
    exact (Option.some.inj hout).symm
  unfold lsProgramDispatch
  by_cases hsite : site ≥ lsProgramSites
  · rw [if_pos hsite]
    refine ⟨rfl, ?_⟩
    intro out hout
    contradiction
  · rw [if_neg hsite]
    cases busy with
    | true => exact ⟨rfl, hwritten⟩
    | false =>
        cases input with
        | none => exact ⟨rfl, hwritten⟩
        | some ctx =>
            have hadmitted : ¬ Admitted t m site returnIp := by
              simpa using hnot
            simp only [hadmitted, if_false, Bool.false_eq_true, true_and]
            exact hwritten

/-! ## Sites in use -/

/-- The callback of an operation that patches text. -/
def Op.patch : Op → Patch
  | .attach _ _ _ patch => givenPatch patch
  | .detach _ _ _ patch => givenPatch patch
  | .revoke _ _ patch => givenPatch patch
  | _ => fun _ _ _ => false

/-- A site is described as before, or it was free and text has been patched for it. -/
def Described (op : Op) (j : Nat) (m m' : Manager) : Prop :=
  SameSite (m.sites j) (m'.sites j) ∨
    (m.sites j).users = 0 ∧ op.patch (m'.sites j).address j true = true

theorem Sound.locked_sites {op : Op} {plan : LoadPlan} (h : Sound m) (hready : op.Ready plan m)
    (j : Nat) : Described op j m ((op.locked plan).final m) := by
  cases op with
  | load id r =>
      refine .inl ?_
      show SameSite _ (((lsProgramLoadPublish id r plan.instanceId).final m).sites j)
      rcases lsProgramLoadPublish_cases m id r plan.instanceId with ⟨_, hfinal⟩ | ⟨_, hfinal⟩
      · rw [hfinal]
        exact SameSite.refl _
      · rw [hfinal]
        exact SameSite.refl _
  | attach id instanceId entry patch =>
      rcases lsProgramAttachLocked_cases h.accounts (givenPatch patch) with
        ⟨_, hfinal⟩ | ⟨i, s, text, _, hsite, _, hfinal⟩
      · refine .inl ?_
        change SameSite _ (((lsProgramAttachLocked id entry (givenPatch patch)).final m).sites j)
        rw [hfinal]
        exact SameSite.refl _
      · unfold Described
        change SameSite _ (((lsProgramAttachLocked id entry (givenPatch patch)).final m).sites j) ∨
          _ ∧ givenPatch patch
            (((lsProgramAttachLocked id entry (givenPatch patch)).final m).sites j).address j
            true = true
        rw [hfinal]
        by_cases hji : j = i
        · subst hji
          rcases hsite with ⟨hpos, rfl⟩ | ⟨hzero, hpatch, _⟩
          · refine .inl ?_
            simp [linkedState, SameSite, hpos.ne']
          · refine .inr ⟨hzero, ?_⟩
            simpa [linkedState] using hpatch
        · refine .inl ?_
          simp [linkedState, hji, SameSite]
  | detach id instanceId entry patch =>
      exact .inl ((detachRound_detachLocked m id entry (givenPatch patch)).sites j)
  | mode id instanceId value =>
      refine .inl ?_
      show SameSite _ (((lsProgramModeLocked id value).final m).sites j)
      unfold lsProgramModeLocked
      rw [final_bind, final_pure, (remoded_setMode m id value).sites]
      exact SameSite.refl _
  | revoke id instanceId patch =>
      exact .inl (h.revokeLocked_sites hready (givenPatch patch) j)

/-- What a whole operation makes of a site. -/
theorem Sound.sites_described (h : Sound m) (gate : Bool) (op : Op) (j : Nat) :
    Described op j m ((op.run gate).final m) := by
  obtain ⟨hbefore, hsame, hready⟩ := h.before op
  rcases run_cases m gate op with ⟨_, _, hfinal⟩ | ⟨plan, hplan, hcases⟩
  · rw [hfinal]
    refine .inl ?_
    rw [hsame.sites]
    exact SameSite.refl _
  · have hplanReady := hready plan hplan
    have hlocked := hbefore.locked_sites hplanReady j
    unfold Described at hlocked ⊢
    rw [hsame.sites] at hlocked
    rcases hcases with ⟨hasks, _, hresult, hends⟩ | ⟨_, _, hfinal⟩
    · rcases hends with ⟨_, hfinal⟩ | ⟨hfailed, hfinal⟩
      · rw [hfinal]
        exact hlocked
      · have hundo := hplanReady.undoable.locked_failed hbefore (hresult.trans hfailed)
        rw [hfinal, ((hbefore.locked hplanReady hasks).after hundo).2.sites]
        exact hlocked
    · rw [hfinal, (hbefore.after hplanReady.undoable).2.sites, hsame.sites]
      exact .inl (SameSite.refl _)

/-- No operation describes a site in use anew. -/
theorem Sound.sites_kept (h : Sound m) (gate : Bool) (op : Op) {j : Nat}
    (hj : 0 < (m.sites j).users) :
    SameSite (m.sites j) (((op.run gate).final m).sites j) := by
  rcases h.sites_described gate op j with hsame | ⟨hzero, _⟩
  · exact hsame
  · omega

/-! ## Isolation -/

/-- What a dispatch runs of one program: the entries, with their contexts. -/
def runsOf (b : Nat) (d : Dispatched W) : List (Nat × LsCtxGeneric) :=
  (d.runs.filter fun r => r.id = b).map fun r => (r.entry, r.ctx)

theorem filter_visitedEntries (busy : Bool) (t : DispatchThread) (m : Manager) (site : Nat)
    (returnIp : UInt64) (input : Option LsCtxGeneric) (p : Nat × Nat → Bool) :
    (visitedEntries busy t m site returnIp input).filter p =
      if site < lsProgramSites ∧ busy = false ∧ input.isSome ∧ Admitted t m site returnIp then
        (dispatchEntries m site).filter p
      else [] := by
  unfold visitedEntries
  split <;> rfl

/-- The runs of one program, from the pairs that were visited. -/
theorem runsOf_eq (vmRun : VmRun W) (busy : Bool) (t : DispatchThread) (m : Manager)
    (site : Nat) (returnIp : UInt64) (input : Option LsCtxGeneric) (w : W) (b : Nat) :
    (runsOf b (lsProgramDispatch vmRun busy t m site returnIp input w)).map
        (fun x => (x.1, some x.2)) =
      ((visitedEntries busy t m site returnIp input).filter fun x => x.1 = b).map
        fun x => (x.2, input) := by
  obtain ⟨hpairs, hinputs, _⟩ := lsProgramDispatch_runs vmRun busy t m site returnIp input w
  rw [← hpairs, List.filter_map, List.map_map, runsOf, List.map_map]
  apply List.map_congr_left
  intro r hr
  have hctx := hinputs r (List.mem_of_mem_filter hr)
  simp [Function.comp, hctx]

theorem filter_programEntries_of_ne {id b : Nat} (hne : id ≠ b) :
    ((programEntries m site id).filter fun x => x.1 = b) = [] := by
  rw [List.filter_eq_nil_iff]
  intro x hx
  rw [(mem_programEntries.mp hx).1]
  simpa using hne

/-- The pairs of a program depend on its own record only. -/
theorem filter_dispatchEntries_congr {m m' : Manager} {b : Nat}
    (hprogram : m'.programs b = m.programs b) (site : Nat) :
    ((dispatchEntries m' site).filter fun x => x.1 = b) =
      (dispatchEntries m site).filter fun x => x.1 = b := by
  unfold dispatchEntries
  rw [List.filter_flatMap, List.filter_flatMap]
  apply congrArg (List.flatMap · (List.range lsProgramMax))
  ext id : 1
  by_cases hid : id = b
  · subst hid
    unfold programEntries
    rw [hprogram]
  · rw [filter_programEntries_of_ne hid, filter_programEntries_of_ne hid]

/-- An operation on one program does not change what a dispatch runs of
another. -/
theorem Sound.runsOf_run (h : Sound m) (gate : Bool) (op : Op) {b : Nat} (hb : b ≠ op.id)
    (vmRun : VmRun W) (busy : Bool) (t : DispatchThread) (site : Nat) (returnIp : UInt64)
    (input : Option LsCtxGeneric) (w : W) :
    runsOf b (lsProgramDispatch vmRun busy t ((op.run gate).final m) site returnIp input w) =
      runsOf b (lsProgramDispatch vmRun busy t m site returnIp input w) := by
  have hprogram := (apart_run gate op (h.accounts.small op.id)).programs b hb
  have hfilter := filter_dispatchEntries_congr hprogram site
  have hinjective : Function.Injective fun x : Nat × LsCtxGeneric => (x.1, some x.2) := by
    intro x y hxy
    simp only [Prod.mk.injEq, Option.some.injEq] at hxy
    exact Prod.ext hxy.1 hxy.2
  apply List.map_injective_iff.mpr hinjective
  rw [runsOf_eq, runsOf_eq]
  apply congrArg
  rw [filter_visitedEntries, filter_visitedEntries, hfilter]
  cases hlist : (dispatchEntries m site).filter fun x => x.1 = b with
  | nil => rw [ite_self, ite_self]
  | cons x rest =>
      -- the program is linked to the site, which is therefore described as before
      have hx : x ∈ (dispatchEntries m site).filter fun x => x.1 = b := by
        rw [hlist]
        exact List.mem_cons_self
      have hlinked := ((mem_dispatchEntries h).mp (List.mem_of_mem_filter hx)).1
      obtain ⟨_, hip, _, howned, _⟩ := h.sites_kept gate op (h.accounts.users_pos hlinked)
      have hadmitted : Admitted t ((op.run gate).final m) site returnIp ↔
          Admitted t m site returnIp := by
        unfold Admitted
        rw [hip, howned]
      simp only [hadmitted]

/-- Whatever operation is made on one program, in any reachable state: the
record, the slots and the configuration of every other program are unchanged, and
so is what any dispatch runs of it.  An admitted dispatch runs every enabled
linked entry once, in order of program and entry, on the input as given, and
selects the safe return exactly when one of the runs did, with the site's value;
a dispatch that is not admitted runs nothing and selects nothing. -/
theorem programs_isolated (m : Manager) (hm : programMachine.Reachable m) (vmRun : VmRun W) :
    (∀ gate op b, b ≠ Op.id op →
      (((Op.run gate op).final m).programs b = m.programs b ∧
        (∀ e < lsProgramEntries, ((Op.run gate op).final m).slots (lsProgramSlot b e) =
          m.slots (lsProgramSlot b e)) ∧
        ((Op.run gate op).final m).config.slots (configSlot b) =
          m.config.slots (configSlot b)) ∧
      ∀ busy t site returnIp input w,
        runsOf b (lsProgramDispatch vmRun busy t ((Op.run gate op).final m) site returnIp
          input w) =
        runsOf b (lsProgramDispatch vmRun busy t m site returnIp input w)) ∧
    (∀ t site returnIp ctx w, site < lsProgramSites → Admitted t m site returnIp →
      let d := lsProgramDispatch vmRun false t m site returnIp (some ctx) w
      (d.runs.map fun r => (r.id, r.entry)).Pairwise Before ∧
        (∀ id e, (id, e) ∈ (d.runs.map fun r => (r.id, r.entry)) ↔
          Linked m id e site ∧ (m.programs id).mode ≠ lsModeDisable) ∧
        (∀ r ∈ d.runs, r.ctx = ctx) ∧
        ∃ out, d.out = some out ∧
          (out.verdict = .safeReturn ↔ ∃ r ∈ d.runs, r.verdict = .safeReturn) ∧
          out.safeValue = if out.verdict = .safeReturn then (m.sites site).safeValue else 0) ∧
    ∀ busy t site returnIp input w,
      (busy = true ∨ input = none ∨ ¬ Admitted t m site returnIp) →
      let d := lsProgramDispatch vmRun busy t m site returnIp input w
      d.runs = [] ∧ ∀ out, d.out = some out → out = fallthroughResult := by
  have h := sound_of_reachable m hm
  refine ⟨?_, ?_, ?_⟩
  · intro gate op b hb
    have hapart := apart_run gate op (h.accounts.small op.id)
    refine ⟨⟨hapart.programs b hb, hapart.slots b hb, hapart.config b hb⟩, ?_⟩
    intro busy t site returnIp input w
    exact h.runsOf_run gate op hb vmRun busy t site returnIp input w
  · intro t site returnIp ctx w hsite hadmitted
    obtain ⟨hpairs, hinputs, hout⟩ :=
      lsProgramDispatch_runs vmRun false t m site returnIp (some ctx) w
    have hvisited : visitedEntries false t m site returnIp (some ctx) =
        dispatchEntries m site := by
      unfold visitedEntries
      rw [if_pos ⟨hsite, rfl, rfl, hadmitted⟩]
    rw [hvisited] at hpairs
    refine ⟨?_, ?_, ?_, hout hsite⟩
    · rw [hpairs]
      exact pairwise_dispatchEntries m site
    · intro id e
      rw [hpairs]
      exact mem_dispatchEntries h
    · intro r hr
      exact Option.some.inj (hinputs r hr)
  · intro busy t site returnIp input w hnot
    exact lsProgramDispatch_refused vmRun hnot w

/-- A program that always selects the safe return. -/
def shieldRun : VmRun Unit := fun w _ _ => (.safeReturn, w)

def idleThread : DispatchThread where
  inNamespace := false
  running := false

def zeroCtx : LsCtxGeneric where
  arg := Vector.replicate 5 0
  reserved := Vector.replicate 7 0

/-- The first of the two programs at the site is revoked; the second is still
run by the same call, and selects the safe return. -/
theorem programs_isolated_sharedManager :
    ((lsProgramRevoke true 0 (sampleInstance 1 0) (some acceptingPatch)).final
        sharedManager).programs 1 = sharedManager.programs 1 ∧
      (1, 0) ∈ ((lsProgramDispatch shieldRun false idleThread sharedManager 0 4105
        (some zeroCtx) ()).runs.map fun r => (r.id, r.entry)) := by
  have hisolated := programs_isolated sharedManager reachable_sharedManager shieldRun
  have hadmitted : Admitted idleThread sharedManager 0 4105 := by decide +kernel
  have hruns := (hisolated.2.1 idleThread 0 4105 zeroCtx () (by decide) hadmitted).2.1 1 0
  constructor
  · exact (hisolated.1 true (.revoke 0 (sampleInstance 1 0) (some acceptingPatch)) 1
      (by decide)).1.1
  · apply hruns.mpr
    decide +kernel

/-- A late call from another function runs nothing, although an enabled program
is attached to the site. -/
theorem stale_dispatch_runs_nothing :
    programMachine.Reachable sharedManager ∧ Linked sharedManager 1 0 0 ∧
      (sharedManager.programs 1).mode ≠ lsModeDisable ∧
      (lsProgramDispatch shieldRun false idleThread sharedManager 0 123
        (some zeroCtx) ()).runs = [] :=
  ⟨reachable_sharedManager, by decide +kernel, by decide +kernel, by decide +kernel⟩

end Program
end LiveSurface
