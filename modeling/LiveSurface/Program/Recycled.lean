import LiveSurface.Program.Legacy
import LiveSurface.Program.Linear
import LiveSurface.Program.Outside
import LiveSurface.Program.Whole
import LiveSurface.Target.File

/-!
# Late dispatches

A site index is used again for another function once nobody uses it, while threads may still be on
their way from the old function's call into the trampoline.  The dispatcher tells them apart by the
address that the call returns to.

Main results:

- Theorem {lit}`Aims.run`: every site in use returns behind the call at an entry of its address.
- Theorem {lit}`Dispatch.Calls.aimed`: what a dispatcher calls is linked to the function it came
  from.
- Theorem {lit}`late_dispatch`: what a dispatch runs, and what it answers, however late it comes.
-/

namespace LiveSurface
namespace Program

open Config StoreProgram

variable {m m' : Manager} {Q : LsProgramEntry → Prop}

/-! ## Sites and the entries they were taken for -/

/-- A call at an entry returns to an address. -/
def LsProgramEntry.Returns (e : LsProgramEntry) (returnIp : UInt64) : Prop :=
  e.address + e.pad + 5 = returnIp

/-- A site in use was described by an entry with the property. -/
def Aimed (Q : LsProgramEntry → Prop) (m : Manager) : Prop :=
  ∀ i, 0 < (m.sites i).users →
    ∃ e, Q e ∧ e.address = (m.sites i).address ∧ e.Returns (m.sites i).returnIp

/-- All that whole operations keep. -/
structure Aims (Q : LsProgramEntry → Prop) (m : Manager) : Prop where
  sound : Sound m
  held : ∀ id, HeldOf Q m id
  sites : Aimed Q m

theorem aims_initial (session : UInt64) : Aims Q (.initial session) := by
  refine ⟨sound_initial session, held_initial session, ?_⟩
  intro i hi
  exact absurd hi (Nat.lt_irrefl 0)

theorem Aimed.same (h : Aimed Q m) (hsites : ∀ i, SameSite (m.sites i) (m'.sites i)) :
    Aimed Q m' := by
  intro i hi
  obtain ⟨haddress, hip, -, -, hunused⟩ := hsites i
  have hpos : 0 < (m.sites i).users := by
    by_contra hzero
    exact hi.ne' (hunused (by omega))
  obtain ⟨e, hQ, he, hreturns⟩ := h i hpos
  exact ⟨e, hQ, by rw [he, haddress], by rw [hip]; exact hreturns⟩

/-- A site is taken for an entry of the program that is linked to it. -/
theorem Aims.attachLocked (h : Aims Q m) {id entry : Nat} (hentry : entry < (m.programs id).count)
    (patch : Patch) : Aimed Q ((lsProgramAttachLocked id entry patch).final m) := by
  rcases lsProgramAttachLocked_cases h.sound.accounts patch with
    ⟨_, hfinal⟩ | ⟨i, site, text, _, hsite, _, hfinal⟩
  · rw [hfinal]
    exact h.sites
  · rw [hfinal]
    intro j hj
    by_cases hji : j = i
    · subst hji
      rcases hsite with ⟨hpos, rfl⟩ | ⟨_, _, rfl⟩
      · simpa [linkedState] using h.sites j hpos
      · refine ⟨(m.programs id).entries entry, h.held id entry hentry, ?_, ?_⟩
        · simp [linkedState, claimedSite]
        · simp [linkedState, claimedSite, LsProgramEntry.Returns]
    · simp only [linkedState, Function.update_of_ne hji] at hj ⊢
      exact h.sites j hj

/-- A whole operation describes a site anew only when it links an entry. -/
theorem Aims.sites_run (h : Aims Q m) (gate : Bool) (op : Op) :
    Aimed Q ((op.run gate).final m) := by
  cases op with
  | load id r =>
      refine h.sites.same fun i => ?_
      rcases h.sound.sites_described gate (.load id r) i with hsame | ⟨_, hpatch⟩
      · exact hsame
      · contradiction
  | attach id instanceId entry patch =>
      rw [final_run_attach]
      split
      · exact h.sites
      · rename_i hgo
        rw [Bool.or_eq_true, not_or, Bool.not_eq_true] at hgo
        exact h.attachLocked (attachRefused_eq_false hgo.1).2.1 _
  | detach id instanceId entry patch =>
      rw [final_run_detach]
      split
      · exact h.sites
      · exact h.sites.same (detachRound_detachLocked m id entry _).sites
  | mode id instanceId mode =>
      rw [final_run_mode]
      split
      · exact h.sites
      · refine h.sites.same fun i => ?_
        rw [(remoded_setMode m id mode).sites]
        exact SameSite.refl _
  | revoke id instanceId patch =>
      rw [final_run_revoke, ← final_lsProgramRevokeLocked]
      split
      · exact h.sites
      · rename_i hgo
        rw [Bool.or_eq_true, not_or, Bool.not_eq_true] at hgo
        exact h.sites.same (h.sound.revokeLocked_sites (revokeRefused_eq_false hgo.1) _)

theorem Aims.run (h : Aims Q m) (gate : Bool) {op : Op} (hbrings : op.Brings Q) :
    Aims Q ((op.run gate).final m) :=
  ⟨h.sound.run gate op, HeldOf.run h.held h.sound gate hbrings, h.sites_run gate op⟩

theorem kept_aims : Kept (Op.Brings Q) (Aims Q) :=
  ⟨fun _ h => h.sound, fun _ gate _ hbrings h => h.run gate hbrings⟩

/-! ## What links say -/

/-- An entry that is linked has the property, and so has the one its site was taken for; both are
of the address of the site. -/
def LinksAimed (Q : LsProgramEntry → Prop) (m : Manager) : Prop :=
  ∀ id i site, Linked m id i site → Q ((m.programs id).entries i) ∧
    ((m.programs id).entries i).address = (m.sites site).address ∧
      ∃ e, Q e ∧ e.address = (m.sites site).address ∧ e.Returns (m.sites site).returnIp

theorem Aims.links (h : Aims Q m) : LinksAimed Q m := by
  intro id i site hlinked
  refine ⟨h.held id i hlinked.2.1, ?_, h.sites site (h.sound.accounts.users_pos hlinked)⟩
  exact ((h.sound.accounts.programs id).agrees i site hlinked).1

theorem accountable_linksAimed : Accountable (LinksAimed Q) := by
  intro m m' hsame
  constructor
  · intro h id i site hlinked
    have hold := (hsame.links id i site).mp hlinked
    rw [(hsame.published id hold.1).1, hsame.sites]
    exact h id i site hold
  · intro h id i site hlinked
    have hnew := h id i site ((hsame.links id i site).mpr hlinked)
    rw [(hsame.published id hlinked.1).1, hsame.sites] at hnew
    exact hnew

/-! ## What a dispatcher calls -/

/-- The entry whose VM is being called. -/
def Work.entry : Work → Option (Nat × Nat)
  | .mapEnter id i => some (id, i)
  | .loadSlotMode id i => some (id, i)
  | .loadSlotVm id i _ => some (id, i)
  | .loadSlotArmed id i _ _ => some (id, i)
  | .running id i _ => some (id, i)
  | _ => none

/-- {lit}`ls_vm_run` has returned for an entry, or is being called for it. -/
def Dispatch.Calls (d : Dispatch) (id i : Nat) : Prop :=
  (∃ verdict, (id, i, verdict) ∈ d.runs) ∨ ∃ w, d.pc = .work w ∧ w.entry = some (id, i)

variable {d : Dispatch} {id i : Nat}

theorem Dispatch.Fresh.calls_nothing (h : d.Fresh) {verdict : LsVerdict} :
    (id, i, verdict) ∉ d.runs := by
  rw [h.runs]
  exact List.not_mem_nil

/-- A dispatcher that calls something has been let in. -/
theorem Dispatch.Calls.letIn (hcalls : d.Calls id i) (hinside : d.Inside) (h : d.Stands m) :
    d.LetIn m := by
  unfold Dispatch.Stands at h
  rcases hinside with ⟨w, hpc⟩ | hpc
  · rw [hpc] at h
    obtain ⟨-, hpassed⟩ := h
    rcases hcalls with ⟨verdict, hran⟩ | ⟨w', hpc', hentry⟩
    · cases w with
      | loadOwned => exact absurd hran (Dispatch.Fresh.calls_nothing hpassed)
      | loadReturnIp => exact absurd hran (Dispatch.Fresh.calls_nothing hpassed.1)
      | loadInstance | loadMode | loadCount | loadSite | mapEnter | loadSlotMode | loadSlotVm
      | loadSlotArmed | running | loadSafeValue => exact hpassed
    · rw [hpc, Pc.work.injEq] at hpc'
      subst hpc'
      cases w with
      | mapEnter | loadSlotMode | loadSlotVm | loadSlotArmed | running => exact hpassed
      | loadOwned | loadReturnIp | loadInstance | loadMode | loadCount | loadSite
      | loadSafeValue => contradiction
  · rw [hpc] at h
    rcases h with ⟨hfresh, -⟩ | ⟨hlet, -⟩
    · rcases hcalls with ⟨verdict, hran⟩ | ⟨w, hpc', -⟩
      · exact absurd hran hfresh.calls_nothing
      · rw [hpc] at hpc'
        contradiction
    · exact hlet

/-- What a dispatcher inside calls, or has called, is linked to its site as the tables are. -/
theorem Dispatch.Calls.linked (hcalls : d.Calls id i) (hinside : d.Inside) (h : d.Stands m)
    (hreads : d.Reads m) (hsound : Sound m) : Linked m id i d.call.slot := by
  have hran : ∀ verdict, (id, i, verdict) ∈ d.runs → ∀ rest, d.Walked m rest →
      Linked m id i d.call.slot := by
    intro verdict hmem rest hwalked
    have hvisited : (id, i) ∈ dispatchEntries m d.call.slot := by
      rw [← hwalked.visited]
      exact List.mem_append_left rest (List.mem_map.mpr ⟨_, hmem, rfl⟩)
    exact ((mem_dispatchEntries hsound).mp hvisited).1
  unfold Dispatch.Stands at h
  rcases hcalls with ⟨verdict, hmem⟩ | ⟨w, hpc, hentry⟩
  · rcases hinside with ⟨w, hpc⟩ | hpc
    · rw [hpc] at h
      exact hran verdict hmem _ h.1
    · rw [hpc] at h
      rcases h with ⟨hfresh, -⟩ | ⟨-, hwalked⟩
      · exact absurd hmem hfresh.calls_nothing
      · exact hran verdict hmem _ hwalked
  · have hw := hreads w hpc
    cases w with
    | mapEnter | loadSlotMode | loadSlotVm =>
        obtain ⟨rfl, rfl⟩ := Prod.mk.inj (Option.some.inj hentry)
        exact hw
    | loadSlotArmed | running =>
        obtain ⟨rfl, rfl⟩ := Prod.mk.inj (Option.some.inj hentry)
        exact hw.1
    | loadOwned | loadReturnIp | loadInstance | loadMode | loadCount | loadSite
    | loadSafeValue => contradiction

/-- A dispatcher inside that has called nothing has no verdict but the first. -/
theorem Dispatch.out_of_runs_nil (hinside : d.Inside) (h : d.Stands m) (hruns : d.runs = []) :
    d.out = fallthroughResult := by
  have hwalked : ∀ rest, d.Walked m rest → d.out = fallthroughResult := by
    intro rest hwalked
    rw [hwalked.out, hruns]
    rfl
  unfold Dispatch.Stands at h
  rcases hinside with ⟨w, hpc⟩ | hpc
  · rw [hpc] at h
    exact hwalked _ h.1
  · rw [hpc] at h
    rcases h with ⟨hfresh, -⟩ | ⟨-, hdone⟩
    · exact hfresh.out
    · exact hwalked _ hdone

/-! ## Runs -/

section Runs

variable {T : Type} [DecidableEq T] {s s' : State T} {t : T}

/-- Outside the gate every link is aimed, when the loads bring nothing else. -/
theorem linksAimed_of_reachable (hs : (gateMachine T).ReachableWhen (Begins (Op.Brings Q)) s)
    (hnot : ¬s.control.Holding) : LinksAimed Q s.manager :=
  (followsIn_of_reachable kept_aims aims_initial s hs).settled kept_aims accountable_linksAimed
    (fun _ h => h.links) (steady_of_reachable s (.when hs)).control hnot

/-- An entry that a dispatcher calls is linked to the function the dispatcher came from. -/
theorem Dispatch.Calls.aimed (hs : (gateMachine T).ReachableWhen (Begins (Op.Brings Q)) s)
    (hd : s.dispatchers t = some d) (hinside : d.Inside) (hcalls : d.Calls id i) :
    Linked s.manager id i d.call.slot ∧ Q ((s.manager.programs id).entries i) ∧
      ((s.manager.programs id).entries i).address = (s.manager.sites d.call.slot).address ∧
        ∃ e, Q e ∧ e.address = (s.manager.sites d.call.slot).address ∧
          e.Returns d.call.returnIp := by
  have hsteady := steady_of_reachable s (.when hs)
  have hstands := stands_of_reachable s (.when hs) t d hd
  have hnot := not_holding_of_inside (.when hs) hd hinside
  have hlinked := hcalls.linked hinside hstands (hsteady.reads t d hd)
    (hsteady.control.sound hnot)
  have hadmitted := (hcalls.letIn hinside hstands).admitted
  rw [hadmitted.2.1]
  exact ⟨hlinked, linksAimed_of_reachable hs hnot id i d.call.slot hlinked⟩

/-- A site was owned at some time of the run. -/
def EverOwned (s : State T) (site : Nat) : Prop :=
  ∃ s₀ schedule, (gateMachine T).Reachable s₀ ∧ (s₀.manager.sites site).owned = true ∧
    (gateMachine T).run s₀ schedule = some s

theorem EverOwned.owned {site : Nat} (h : EverOwned s site) :
    (s.manager.sites site).owned = true := by
  obtain ⟨s₀, schedule, hs₀, howned, hrun⟩ := h
  exact Machine.run_keeps (P := fun s : State T => (s.manager.sites site).owned = true)
    (fun _ _ _ hs howned hnext => owned_next (steady_of_reachable _ hs) hnext site howned)
    hs₀ howned hrun

/-- A dispatcher leaves the gate with the ownership its site has. -/
theorem Dispatch.Stands.leaves_owned (h : d.Stands m) (hpc : d.pc = .fetchSub) :
    d.owned = (m.sites d.call.slot).owned := by
  unfold Dispatch.Stands at h
  rw [hpc] at h
  rcases h with ⟨-, howned, -⟩ | ⟨hlet, -⟩
  · exact howned
  · rw [hlet.owned, hlet.admitted.1]

/-- What a dispatcher answers that was turned away, or has come to its end. -/
theorem answers_true (hs : (gateMachine T).Reachable s) (hd : s.dispatchers t = some d)
    (hpc : d.pc = .refused ∨ d.pc = .fetchSub ∧ EverOwned s d.call.slot) (answer : Answer) :
    (dispatchNext s t answer d).dispatchers t = some { d with pc := .returned true } := by
  unfold dispatchNext
  rcases hpc with hpc | ⟨hpc, hever⟩
  · rw [hpc]
    exact Function.update_self _ _ _
  · have howned := (stands_of_reachable s hs t d hd).leaves_owned hpc
    rw [hever.owned] at howned
    rw [hpc, ← howned]
    exact Function.update_self _ _ _

end Runs

/-! ## Entries from signed objects -/

/-- A load brings the entries that were read from its object and checked against the executing
file. -/
def Op.LoadsFrom (file : Buffer) : Op → Prop
  | .load _ r => ∃ elf build out, r.elf = some elf ∧
      Target.lsTargetProgramEntries elf build (Target.lsTargetCheckFile file) =
        Checked.answer (some out) ∧
      r.count = out.length ∧ ∀ e < r.count, r.entries.getD (fun _ => .zero) e = out.getD e .zero
  | _ => True

/-- An entry that passes the checks of a load, and of the executing file. -/
def CheckedEntry (file : Buffer) (e : LsProgramEntry) : Prop :=
  entryValid e = true ∧ Target.EntryIn file e

theorem Op.LoadsFrom.brings {file : Buffer} {op : Op} (h : op.LoadsFrom file) :
    op.Brings (CheckedEntry file) := by
  cases op with
  | load id r =>
      obtain ⟨elf, build, out, -, hentries, hcount, hr⟩ := h
      intro e he hvalid
      refine ⟨hvalid, ?_⟩
      rw [hr e he]
      have hlt : e < out.length := hcount ▸ he
      rw [List.getD_eq_getElem out _ hlt]
      exact Target.entries_checked hentries _ (List.getElem_mem hlt)
  | attach | detach | mode | revoke => trivial

theorem brings_entryValid (op : Op) : op.Brings fun e => entryValid e = true := by
  cases op with
  | load id r => exact fun _ _ hvalid => hvalid
  | attach | detach | mode | revoke => trivial

/-- The address behind the call at a valid entry does not wrap around. -/
theorem LsProgramEntry.Returns.toNat {e : LsProgramEntry} {returnIp : UInt64}
    (h : e.Returns returnIp) (hvalid : entryValid e = true) :
    (e.pad = 0 ∨ e.pad = 4) ∧ e.address.toNat + e.pad.toNat + 5 = returnIp.toNat := by
  simp only [entryValid, Bool.and_eq_true, Bool.or_eq_true, beq_iff_eq, Bool.not_eq_true',
    decide_eq_false_iff_not, Nat.not_lt] at hvalid
  obtain ⟨⟨-, hpad⟩, hroom⟩ := hvalid
  refine ⟨hpad, ?_⟩
  have hsmall : e.pad.toNat ≤ 4 := by
    rcases hpad with hpad | hpad <;> rw [hpad] <;> decide
  rw [uint64Max] at hroom
  rw [← h, UInt64.toNat_add, UInt64.toNat_add]
  have hfive : (5 : UInt64).toNat = 5 := rfl
  omega

/-! ## However late -/

/-- An entry is linked to the site of a dispatch, and the call behind a pad at its function returns
to where the dispatch does. -/
def CalledFrom (m : Manager) (c : Call) (id i : Nat) (pad : UInt64) : Prop :=
  Linked m id i c.slot ∧
    ((m.programs id).entries i).address.toNat + pad.toNat + 5 = c.returnIp.toNat

/-- A dispatch that has run nothing. -/
def Dispatch.Silent (d : Dispatch) : Prop :=
  (∀ id i, ¬d.Calls id i) ∧ d.out = fallthroughResult

theorem silent_of_calls {T : Type} [DecidableEq T] {s : State T} {t : T} {d : Dispatch}
    (hs : (gateMachine T).Reachable s) (hd : s.dispatchers t = some d) (hinside : d.Inside)
    (hcalls : ∀ id i, ¬d.Calls id i) : d.Silent := by
  refine ⟨hcalls, d.out_of_runs_nil hinside (stands_of_reachable s hs t d hd) ?_⟩
  refine List.eq_nil_iff_forall_not_mem.mpr fun run hrun => ?_
  exact hcalls run.1 run.2.1 (.inl ⟨run.2.2, hrun⟩)

/-- Whatever the loads bring, the address is that of the function, and the pad one of the two. -/
theorem Dispatch.Calls.calledFrom {T : Type} [DecidableEq T] {s : State T} {t : T} {d : Dispatch}
    {id i : Nat} (hs : (gateMachine T).Reachable s) (hd : s.dispatchers t = some d)
    (hinside : d.Inside) (hcalls : d.Calls id i) :
    ∃ pad, (pad = 0 ∨ pad = 4) ∧ CalledFrom s.manager d.call id i pad := by
  have hbegins : (gateMachine T).ReachableWhen
      (Begins (Op.Brings fun e => entryValid e = true)) s := by
    refine hs.mono fun s a _ => ?_
    cases a with
    | begin op => exact brings_entryValid op
    | control | call | dispatch => trivial
  obtain ⟨hlinked, -, hown, e, hvalid, he, hreturns⟩ := hcalls.aimed hbegins hd hinside
  obtain ⟨hpad, hsum⟩ := hreturns.toNat hvalid
  exact ⟨e.pad, hpad, hlinked, by rw [hown, ← he, hsum]⟩

/-- When the loads bring what was checked against the executing file, the pad is the entry's. -/
theorem Dispatch.Calls.calledFrom_own {T : Type} [DecidableEq T] {s : State T} {t : T}
    {d : Dispatch} {id i : Nat} {file : Buffer} (hfile : Target.SegmentsApart file)
    (hs : (gateMachine T).ReachableWhen (Begins (Op.LoadsFrom file)) s)
    (hd : s.dispatchers t = some d) (hinside : d.Inside) (hcalls : d.Calls id i) :
    CalledFrom s.manager d.call id i ((s.manager.programs id).entries i).pad := by
  have hbegins : (gateMachine T).ReachableWhen (Begins (Op.Brings (CheckedEntry file))) s := by
    refine hs.mono fun s a ha => ?_
    cases a with
    | begin op => exact Op.LoadsFrom.brings ha
    | control | call | dispatch => trivial
  obtain ⟨hlinked, hown, haddress, e, he, hsame, hreturns⟩ := hcalls.aimed hbegins hd hinside
  -- the entry of the site and the linked one are of one address in the file
  have hpad := hown.2.pad hfile he.2 (haddress.trans hsame.symm)
  refine ⟨hlinked, ?_⟩
  rw [haddress, ← hsame, hpad]
  exact (hreturns.toNat he.1).2

/-- A dispatcher that has passed the gate calls an entry only if it is linked, as the tables are
then, to the function that the call came from, and nothing where no such entry is linked.  The pad
before the call is the entry's own when the loads bring what was checked against the executing
file.  And the dispatch keeps the call from the trampoline's own slot if its site was owned at any
time before. -/
theorem late_dispatch {T : Type} [DecidableEq T] (s : State T) (hs : (gateMachine T).Reachable s)
    {t : T} {d : Dispatch} (hd : s.dispatchers t = some d) :
    (d.Inside →
        (∀ id i, d.Calls id i →
          ∃ pad, (pad = 0 ∨ pad = 4) ∧ CalledFrom s.manager d.call id i pad) ∧
        ((∀ id i pad, pad = 0 ∨ pad = 4 → ¬CalledFrom s.manager d.call id i pad) → d.Silent)) ∧
      (∀ file, Target.SegmentsApart file →
        (gateMachine T).ReachableWhen (Begins (Op.LoadsFrom file)) s → d.Inside →
          (∀ id i, d.Calls id i →
            CalledFrom s.manager d.call id i ((s.manager.programs id).entries i).pad) ∧
          ((∀ id i, ¬CalledFrom s.manager d.call id i ((s.manager.programs id).entries i).pad) →
            d.Silent)) ∧
      (d.pc = .refused ∨ d.pc = .fetchSub ∧ EverOwned s d.call.slot → ∀ answer s',
        (gateMachine T).next s (.dispatch t answer) = some s' →
          s'.dispatchers t = some { d with pc := .returned true }) := by
  refine ⟨?_, ?_, ?_⟩
  · intro hinside
    refine ⟨fun id i hcalls => hcalls.calledFrom hs hd hinside, fun hnone => ?_⟩
    refine silent_of_calls hs hd hinside fun id i hcalls => ?_
    obtain ⟨pad, hpad, hfrom⟩ := hcalls.calledFrom hs hd hinside
    exact hnone id i pad hpad hfrom
  · intro file hfile hloads hinside
    refine ⟨fun id i hcalls => hcalls.calledFrom_own hfile hloads hd hinside, fun hnone => ?_⟩
    refine silent_of_calls hs hd hinside fun id i hcalls => ?_
    exact hnone id i (hcalls.calledFrom_own hfile hloads hd hinside)
  · intro hpc answer s' hnext
    have hs' : s' = dispatchNext s t answer d := by
      simp only [gateMachine, hd, Option.some.injEq] at hnext
      exact hnext.symm
    rw [hs']
    exact answers_true hs hd hpc answer

/-! ## A site used again -/

/-- A file of one executable segment at 4096, with two functions that begin with
{lit}`endbr64`. -/
def twoFunctions : Buffer :=
  [127, 69, 76, 70, 2, 1, 1] ++ List.replicate 9 0 ++ littleEndian 2 2 ++ littleEndian 2 62 ++
    littleEndian 4 1 ++ littleEndian 8 0 ++ littleEndian 8 64 ++ List.replicate 14 0 ++
    littleEndian 2 56 ++ littleEndian 2 1 ++ List.replicate 6 0 ++
    littleEndian 4 1 ++ littleEndian 4 5 ++ littleEndian 8 120 ++ littleEndian 8 4096 ++
    littleEndian 8 4096 ++ littleEndian 8 25 ++ littleEndian 8 25 ++ littleEndian 8 4096 ++
    Target.padBytes ++ List.replicate 7 0xcc ++ Target.padBytes

theorem segmentsApart_twoFunctions : Target.SegmentsApart twoFunctions := by
  intro i hi j hj address _ _
  have hphnum : (Target.execHeader twoFunctions).phnum = 1 := by rfl
  omega

/-- A signed program for the function at an address. -/
def signedProgram (address : Nat) : Buffer :=
  Target.singleObject Target.shtStrtab Target.shtProgbits address

def signedEntry (address : Nat) : LsProgramEntry where
  sectionName := fentryBytes ++ 102 :: List.replicate 72 0
  address := UInt64.ofNat address
  pad := 4

def signedLoad (address : Nat) : LoadRequest where
  elf := some (signedProgram address)
  entries := some fun _ => signedEntry address
  count := 1
  sha := some []
  ceiling := lsModeEnforce
  prepare _ := .ready 7 []

theorem loadsFrom_signedLoad {address : Nat}
    (h : Target.lsTargetProgramEntries (signedProgram address) (some Target.buildName)
      (Target.lsTargetCheckFile twoFunctions) = Checked.answer (some [signedEntry address]))
    (id : Nat) : (Op.load id (signedLoad address)).LoadsFrom twoFunctions := by
  refine ⟨signedProgram address, some Target.buildName, [signedEntry address], rfl, h, rfl, ?_⟩
  intro e he
  obtain rfl : e = 0 := Nat.lt_one_iff.mp he
  rfl

/-- The site is taken for the first function, and a call from there sets out. -/
def firstUse : List (Action Bool) :=
  .begin (.load 0 (signedLoad 4096)) :: List.replicate 19 .control ++
    (.begin (.attach 0 (sampleInstance 1 0) 0 (some acceptingPatch)) ::
      List.replicate 11 .control) ++
    [.call true sampleCall]

/-- The call from the second function. -/
def secondCall : Call := { sampleCall with returnIp := 4121 }

/-- The site is left, and taken for the second function; a call from there is running, and the
first one comes to its end. -/
def secondUse : List (Action Bool) :=
  .begin (.detach 0 (sampleInstance 1 0) 0 (some acceptingPatch)) :: List.replicate 7 .control ++
    (.begin (.load 1 (signedLoad 4112)) :: List.replicate 19 .control) ++
    (.begin (.attach 1 (sampleInstance 2 1) 0 (some acceptingPatch)) ::
      List.replicate 11 .control) ++
    (.begin (.mode 1 (sampleInstance 2 1) lsModeEnforce) :: List.replicate 6 .control) ++
    (.call false secondCall :: List.replicate 14 (.dispatch false sampleAnswer)) ++
    List.replicate 4 (.dispatch true sampleAnswer)

def restingState : State Bool where
  writer := false
  readers := 0
  manager := .initial 1
  control := .idle
  dispatchers _ := none
  finished := []

def firstState : State Bool := ((gateMachine Bool).run restingState firstUse).getD restingState

def recycledState : State Bool := ((gateMachine Bool).run firstState secondUse).getD firstState

def staleDispatch : Dispatch where
  call := sampleCall
  owned := true
  out := fallthroughResult
  runs := []
  pc := .fetchSub

def freshDispatch : Dispatch where
  call := secondCall
  owned := true
  out := fallthroughResult
  runs := []
  pc := .work (.running 1 0 1)

theorem begins_signedLoads : ∀ a ∈ firstUse ++ secondUse, ∀ s,
    Begins (Op.LoadsFrom twoFunctions) s a := by
  intro a ha s
  simp only [firstUse, secondUse, List.mem_append, List.mem_cons, List.mem_replicate,
    List.not_mem_nil, or_false] at ha
  have hcontrol : ∀ n : Nat, n ≠ 0 ∧ a = .control → Begins (Op.LoadsFrom twoFunctions) s a := by
    rintro n ⟨-, rfl⟩
    trivial
  rcases ha with
    ((((rfl | h) | (rfl | h)) | rfl) | ((((((rfl | h) | (rfl | h)) | (rfl | h)) | (rfl | h)) |
      (rfl | h)) | h))
  · exact loadsFrom_signedLoad (by decide +kernel) 0
  · exact hcontrol _ h
  · trivial
  · exact hcontrol _ h
  · trivial
  · trivial
  · exact hcontrol _ h
  · exact loadsFrom_signedLoad (by decide +kernel) 1
  · exact hcontrol _ h
  · trivial
  · exact hcontrol _ h
  · trivial
  · exact hcontrol _ h
  · trivial
  · rw [h.2]
    trivial
  · rw [h.2]
    trivial

theorem run_firstUse : (gateMachine Bool).run restingState firstUse = some firstState := by
  have hrun : ((gateMachine Bool).run restingState firstUse).isSome = true := by decide +kernel
  obtain ⟨s, hs⟩ := Option.isSome_iff_exists.mp hrun
  rw [firstState, hs, Option.getD_some]

theorem run_secondUse : (gateMachine Bool).run firstState secondUse = some recycledState := by
  have hrun : ((gateMachine Bool).run firstState secondUse).isSome = true := by decide +kernel
  obtain ⟨s, hs⟩ := Option.isSome_iff_exists.mp hrun
  rw [recycledState, hs, Option.getD_some]

theorem reachable_restingState {ok : State Bool → Action Bool → Prop} :
    (gateMachine Bool).ReachableWhen ok restingState :=
  .start ⟨rfl, rfl, ⟨1, rfl⟩, rfl, fun _ => rfl, rfl⟩

theorem reachable_firstState :
    (gateMachine Bool).ReachableWhen (Begins (Op.LoadsFrom twoFunctions)) firstState :=
  Machine.reachableWhen_of_labels
    (fun a ha => begins_signedLoads a (List.mem_append_left secondUse ha))
    reachable_restingState run_firstUse

theorem reachable_recycledState :
    (gateMachine Bool).ReachableWhen (Begins (Op.LoadsFrom twoFunctions)) recycledState :=
  Machine.reachableWhen_of_labels
    (fun a ha => begins_signedLoads a (List.mem_append_right firstUse ha))
    reachable_firstState run_secondUse

theorem sound_of_phase {T : Type} [DecidableEq T] {s : State T} (hs : (gateMachine T).Reachable s)
    (h : s.control.phase = .away) : Sound s.manager := by
  refine (steady_of_reachable s hs).control.sound ?_
  rintro ⟨op, plan, ok, todo, hcontrol⟩
  rw [hcontrol] at h
  contradiction

/-- The program of the second function runs for the call from there, and nothing runs for the call
from the first, which is answered all the same. -/
theorem late_dispatch_recycledState :
    CalledFrom recycledState.manager secondCall 1 0 4 ∧ staleDispatch.Silent ∧
      ∀ answer s', (gateMachine Bool).next recycledState (.dispatch true answer) = some s' →
        s'.dispatchers true = some { staleDispatch with pc := .returned true } := by
  have hs := reachable_recycledState
  have hfresh : recycledState.dispatchers false = some freshDispatch := by decide +kernel
  have hstale : recycledState.dispatchers true = some staleDispatch := by decide +kernel
  have hapart := segmentsApart_twoFunctions
  refine ⟨?_, ?_, ?_⟩
  · have hpad : ((recycledState.manager.programs 1).entries 0).pad = 4 := by decide +kernel
    rw [← hpad]
    exact ((late_dispatch recycledState (.when hs) hfresh).2.1 twoFunctions hapart hs
      (.inl ⟨_, rfl⟩)).1 1 0 (.inr ⟨_, rfl, rfl⟩)
  · refine ((late_dispatch recycledState (.when hs) hstale).2.1 twoFunctions hapart hs
      (.inr rfl)).2 ?_
    rintro id i hfrom
    have hidle : recycledState.control.phase = .away := by decide +kernel
    have hsound := sound_of_phase (.when hs) hidle
    -- the site has one user, so nothing but the second entry is linked
    have husers : (recycledState.manager.sites 0).users = 1 := by decide +kernel
    have hsecond : Linked recycledState.manager 1 0 0 := by decide +kernel
    have hsum : ((recycledState.manager.programs 1).entries 0).address.toNat +
        ((recycledState.manager.programs 1).entries 0).pad.toNat + 5 ≠ 4105 := by decide +kernel
    rw [hsound.accounts.sites.users 0] at husers
    obtain ⟨x, hx⟩ := Finset.card_eq_one.mp husers
    have hmine := hsound.accounts.mem_links.mpr hfrom.1
    have hits := hsound.accounts.mem_links.mpr hsecond
    change (id, i) ∈ links recycledState.manager 0 at hmine
    rw [hx, Finset.mem_singleton] at hmine hits
    obtain ⟨rfl, rfl⟩ := Prod.mk.inj (hmine.trans hits.symm)
    exact hsum hfrom.2
  · intro answer s' hnext
    refine (late_dispatch recycledState (.when hs) hstale).2.2 (.inr ⟨rfl, ?_⟩) answer s' hnext
    exact ⟨firstState, secondUse, .when reachable_firstState, by decide +kernel, run_secondUse⟩

end Program
end LiveSurface
