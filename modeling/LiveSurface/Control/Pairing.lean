import LiveSurface.Config.Register
import LiveSurface.Control.Request

/-!
# Slots, targets and text

What a legacy slot runs is written by one request, what it was signed for is kept beside
the slots, the text is patched by a third, and the program manager patches the same text
for its sites.  Between two requests these tables agree: a slot that holds a program is
paired with the admission of that program, a slot that is attached with the text of its
function, and no site has an attached slot's index or address.

For every request there is one lemma that it keeps the agreement.

Main results:

- Theorem {lit}`ServerOk.serve`: a request keeps the agreement, refused or not.
- Theorem {lit}`serverMachine_ok`: the agreement in every state between requests.
-/

namespace LiveSurface
namespace Control

open Config StoreProgram Vm

/-! ## The agreement -/

/-- A slot, what is kept beside it, and the admission of its program. -/
structure AdmittedAs (build : List UInt8) (slot : LsSlot) (row : SignedTarget) (a : Admission) :
    Prop where
  valid : row.valid = true
  target : row.target = a.target
  hook : row.hook = a.binding.hook
  ceiling : row.ceiling = a.binding.modeCeiling
  terminated : row.hook.contains 0 = true
  wellFormed : ∃ sectionName, row.target.wellFormed sectionName build = true
  mode : slot.mode ≤ row.ceiling
  isExit : slot.isExit = (row.target.isExit == 1)
  isSnapshot : slot.isSnapshot = (row.target.magic == lsTargetSnapshotMagic)

structure Paired (s : Server) (k : Nat) : Prop where
  valid : (s.targets k).valid = true → k < lsLegacySlots ∧ (s.table.slots k).armed = true
  admitted : (s.table.slots k).armed = true → ∃ vm a, (s.table.slots k).vm = some vm ∧
    s.admitted vm = some a ∧ AdmittedAs s.buildId (s.table.slots k) (s.targets k) a

/-- The patch of an attached slot is the one its program is signed for. -/
structure PatchFor (k : Nat) (row : SignedTarget) (p : LegacyPatch) : Prop where
  slot : p.slot = k
  target : p.target = row.target
  hook : Program.cString p.hook = Program.cString row.hook
  isExit : p.isExit = (row.target.isExit == 1)

structure Attached (s : Server) (k : Nat) : Prop where
  valid : (s.targets k).valid = true
  patch : ∃ p, s.text (s.targets k).target.entry = some p ∧ PatchFor k (s.targets k) p
  site : (s.manager.sites k).owned = false
  address : ∀ i, (s.manager.sites i).owned = true →
    (s.manager.sites i).address ≠ (s.targets k).target.entry

/-- No configuration of a legacy slot is in the middle of a write. -/
def Steady (c : LsConfigStore) : Prop :=
  ∀ k < Program.lsProgramConfigBase, (c.slots k).sequence % 2 = 0

structure ServerOk (s : Server) : Prop where
  sound : Program.Sound s.manager
  vacant : Program.Vacant s.manager
  entered : Program.Entered s.manager
  slots : s.table.Ok
  steady : Steady s.config
  paired : ∀ k, Paired s k
  attached : ∀ k, (s.targets k).attached = true → Attached s k
  patched : ∀ address p, s.text address = some p →
    (s.targets p.slot).attached = true ∧ (s.targets p.slot).target.entry = address
  reserved : ∀ i, (s.manager.sites i).owned = true → i < Program.lsProgramSites

theorem serverOk_initial (session : UInt64) (buildId : List UInt8) :
    ServerOk (.initial session buildId) := by
  constructor
  · exact Program.sound_initial session
  · exact Program.vacant_initial session
  · exact Program.entered_initial session
  · exact SlotTable.initial_ok
  · intro k _
    rfl
  · intro k
    exact ⟨nofun, nofun⟩
  · intro k h
    contradiction
  · intro address p h
    contradiction
  · intro i h
    contradiction

variable {s : Server}

/-! ## Requests that write one table -/

/-- A slot that goes on holding what it held, in its mode or one below a bound. -/
structure Continues (bound : Nat) (old new : LsSlot) : Prop where
  armed : new.armed = old.armed
  kept : old.armed = true → new.vm = old.vm ∧ new.isExit = old.isExit ∧
    new.isSnapshot = old.isSnapshot ∧ (new.mode = old.mode ∨ new.mode ≤ bound)

theorem Continues.refl (bound : Nat) (s : LsSlot) : Continues bound s s :=
  ⟨rfl, fun _ => ⟨rfl, rfl, rfl, .inl rfl⟩⟩

theorem Continues.abandoned {old new : LsSlot} (h : Abandoned old new) (bound : Nat) :
    Continues bound old new := by
  refine ⟨h.armed, ?_⟩
  intro harmed
  rcases h.unused with rfl | hempty
  · exact ⟨rfl, rfl, rfl, .inl rfl⟩
  · rw [harmed] at hempty
    contradiction

theorem clampedMode_le (s : LsSlot) (mode : Nat) : clampedMode s mode ≤ mode := by
  unfold clampedMode
  split
  · exact Nat.zero_le _
  · exact Nat.le_refl _

theorem Continues.withMode (s : LsSlot) {bound mode : Nat} (hmode : mode ≤ bound) :
    Continues bound s (s.withMode mode) :=
  ⟨rfl, fun _ => ⟨rfl, rfl, rfl, .inr ((clampedMode_le s mode).trans hmode)⟩⟩

/-- One slot of the table goes on, the others are as they were. -/
theorem continues_update (bound : Nat → Nat) {t t' : SlotTable} {k : Nat} {new : LsSlot}
    (hslots : t'.slots = Function.update t.slots k new)
    (hk : Continues (bound k) (t.slots k) new) (j : Nat) :
    Continues (bound j) (t.slots j) (t'.slots j) := by
  rw [hslots]
  by_cases hj : j = k
  · subst hj
    rw [Function.update_self]
    exact hk
  · rw [Function.update_of_ne hj]
    exact .refl _ _

/-- A slot that goes on stays paired. -/
theorem Paired.continues {s' : Server} {k : Nat} (h : Paired s k)
    (hbuild : s'.buildId = s.buildId) (hrow : s'.targets k = s.targets k)
    (hslot : Continues (s.targets k).ceiling (s.table.slots k) (s'.table.slots k))
    (hadmissions : ∀ vm, (s.table.slots k).armed = true → (s.table.slots k).vm = some vm →
      s'.admitted vm = s.admitted vm) : Paired s' k := by
  obtain ⟨harmed, hkept⟩ := hslot
  refine ⟨?_, ?_⟩
  · intro hvalid
    rw [hrow] at hvalid
    obtain ⟨hlt, hold⟩ := h.valid hvalid
    exact ⟨hlt, harmed.trans hold⟩
  · intro hnew
    have hold : (s.table.slots k).armed = true := harmed.symm.trans hnew
    obtain ⟨hvm, hexit, hsnapshot, hmode⟩ := hkept hold
    obtain ⟨vm, a, hholds, hadmitted, has⟩ := h.admitted hold
    refine ⟨vm, a, hvm.trans hholds, (hadmissions vm hold hholds).trans hadmitted, ?_⟩
    rw [hrow, hbuild]
    refine ⟨has.valid, has.target, has.hook, has.ceiling, has.terminated, has.wellFormed, ?_,
      hexit.trans has.isExit, hsnapshot.trans has.isSnapshot⟩
    rcases hmode with hsame | hle
    · rw [hsame]
      exact has.mode
    · exact hle

/-- Patching or restoring its text leaves a slot paired. -/
theorem Paired.reattached {s' : Server} {k : Nat} {attached : Bool} (h : Paired s k)
    (hrow : s'.targets k = { s.targets k with attached := attached })
    (hbuild : s'.buildId = s.buildId) (hslot : s'.table.slots k = s.table.slots k)
    (hadmissions : s'.admitted = s.admitted) : Paired s' k := by
  refine ⟨?_, ?_⟩
  · intro hvalid
    rw [hrow] at hvalid
    rw [hslot]
    exact h.valid hvalid
  · intro harmed
    rw [hslot] at harmed
    obtain ⟨vm, a, hvm, hadmitted, has⟩ := h.admitted harmed
    rw [hslot, hadmissions, hrow, hbuild]
    exact ⟨vm, a, hvm, hadmitted, has.valid, has.target, has.hook, has.ceiling, has.terminated,
      has.wellFormed, has.mode, has.isExit, has.isSnapshot⟩

/-- An attached slot stays attached as long as its row, the text and the sites do. -/
theorem Attached.congr {s' : Server} {k : Nat} (h : Attached s k)
    (hrow : s'.targets k = s.targets k)
    (htext : s'.text (s.targets k).target.entry = s.text (s.targets k).target.entry)
    (hsites : s'.manager.sites = s.manager.sites) : Attached s' k := by
  refine ⟨?_, ?_, ?_, ?_⟩
  · rw [hrow]
    exact h.valid
  · rw [hrow, htext]
    exact h.patch
  · rw [hsites]
    exact h.site
  · rw [hrow, hsites]
    exact h.address

theorem ServerOk.withTable (h : ServerOk s) {t : SlotTable} (ht : t.Ok)
    (hslots : ∀ k, Continues (s.targets k).ceiling (s.table.slots k) (t.slots k)) :
    ServerOk { s with table := t } := by
  refine ⟨h.sound, h.vacant, h.entered, ht, h.steady, ?_, ?_, h.patched, h.reserved⟩
  · intro k
    exact (h.paired k).continues rfl rfl (hslots k) fun _ _ _ => rfl
  · intro k hk
    exact (h.attached k hk).congr rfl rfl rfl

theorem ServerOk.withConfig (h : ServerOk s) {c : LsConfigStore} (hc : Steady c) :
    ServerOk (s.withConfig c) := by
  refine ⟨h.sound.withConfig c, h.vacant, h.entered, h.slots, hc, ?_, ?_, h.patched, h.reserved⟩
  · intro k
    exact (h.paired k).continues rfl rfl (.refl _ _) fun _ _ _ => rfl
  · intro k hk
    exact (h.attached k hk).congr rfl rfl rfl

/-- Setting a mode that the slot's ceiling allows. -/
theorem ServerOk.setSlotMode (h : ServerOk s) {slot mode : Nat}
    (hmode : mode ≤ (s.targets slot).ceiling) :
    ServerOk { s with table := (lsVmSetMode slot mode).final s.table } := by
  apply h.withTable (h.slots.setMode slot mode)
  intro k
  rw [final_lsVmSetMode]
  split
  · exact .refl _ _
  · exact continues_update (fun k => (s.targets k).ceiling) rfl (.withMode _ hmode) k

theorem ServerOk.setMode (h : ServerOk s) (epoch mode : Nat) :
    ServerOk (s.setMode epoch mode).2 := by
  unfold Server.setMode
  split
  · exact h
  · split
    · exact h
    · rename_i hadmitted
      apply h.setSlotMode
      by_cases hdisable : mode = lsModeDisable
      · rw [hdisable]
        exact Nat.zero_le _
      · simp only [not_and, not_or, not_lt] at hadmitted
        exact (hadmitted hdisable).2.2

/-! ## The configuration -/

/-- A completed write leaves its slot steady. -/
theorem Steady.write {c : LsConfigStore} (hc : Steady c) {k : Nat} {image : LsConfigImage}
    {slot : LsConfigSlot} (hwrite : lsConfigWrite (c.slots k) image = some slot)
    {slot' : LsConfigSlot} (hsequence : slot'.sequence = slot.sequence) :
    Steady (c.setSlot k slot') := by
  intro j hj
  by_cases hjk : j = k
  · subst hjk
    unfold lsConfigWrite at hwrite
    obtain ⟨_, hs⟩ := Option.ite_none_left_eq_some.mp hwrite
    obtain rfl := Option.some.inj hs
    rw [LsConfigStore.setSlot_same, hsequence]
    have heven := hc j hj
    change ((c.slots j).sequence + 2) % 2 = 0
    omega
  · rw [LsConfigStore.setSlot_other c slot' hjk]
    exact hc j hj

theorem Steady.newInstance {c : LsConfigStore} (hc : Steady c) (slot : Nat) :
    Steady (lsConfigNewInstance c slot).2 := by
  intro j hj
  rw [Program.lsConfigNewInstance_slots]
  exact hc j hj

theorem Steady.bind {c : LsConfigStore} (hc : Steady c) (slot : Nat) (instanceId : UInt64)
    (sha : List UInt8) : Steady (lsConfigBind c slot instanceId sha).2 := by
  unfold lsConfigBind
  split
  · exact hc
  · split
    · exact hc
    · rename_i dst hwrite
      exact hc.write hwrite rfl

theorem Steady.revoke {c : LsConfigStore} (hc : Steady c) (slot : Nat) :
    Steady (lsConfigRevoke c slot).2 := by
  unfold lsConfigRevoke
  split
  · exact hc
  · split
    · exact hc
    · rename_i dst hwrite
      exact hc.write hwrite rfl

theorem Steady.publish {c : LsConfigStore} (hc : Steady c) (slot : Nat)
    (body : Option (List UInt8)) : Steady (lsConfigPublish c slot body).2 := by
  unfold lsConfigPublish
  split
  · exact hc
  · split
    · exact hc
    · rename_i dst hwrite
      exact hc.write hwrite rfl

theorem ServerOk.publishConfig (h : ServerOk s) (slot : Nat) (body : Option (List UInt8)) :
    ServerOk (s.publishConfig slot body).2 := by
  unfold Server.publishConfig
  split
  · exact h
  · exact h.withConfig (h.steady.publish slot body)

/-- Another registry. -/
theorem ServerOk.withRegistry (h : ServerOk s) (g : Map.Registry) :
    ServerOk { s with table := { s.table with registry := g } } := by
  have ht : SlotTable.Ok { s.table with registry := g } := h.slots
  apply h.withTable ht
  intro k
  exact .refl _ _

theorem ServerOk.revoke (h : ServerOk s) (epoch : Nat) (readers : Bool) :
    ServerOk (s.revoke epoch readers).2 := by
  unfold Server.revoke
  split
  · exact h
  · have hdisabled : ServerOk { s with table := (lsVmSetMode epoch lsModeDisable).final s.table } :=
      h.setSlotMode (Nat.zero_le _)
    have hwithdrawn := hdisabled.withConfig (hdisabled.steady.revoke epoch)
    dsimp only
    split
    · exact hwithdrawn
    · exact hwithdrawn.withRegistry _

/-! ## BENCH -/

theorem final_lsVmBenchProgram (o : Object) (measured : Bool) (t : SlotTable) :
    ((lsVmBenchProgram o measured).final t).slots = t.slots ∧
      t.nextVm ≤ ((lsVmBenchProgram o measured).final t).nextVm := by
  unfold lsVmBenchProgram
  simp only [final_ite, final_bind, final_write, final_pure, store_created, store_loadError]
  split
  · split
    · split
      · obtain ⟨hslots, _, hnext⟩ := relocateAll_sameSlots 0 o.references
          { t with loadError := false, nextVm := t.nextVm + 1 }
        exact ⟨hslots, (Nat.le_succ _).trans hnext.ge⟩
      · exact ⟨rfl, Nat.le_succ _⟩
    · exact ⟨rfl, Nat.le_succ _⟩
  · exact ⟨rfl, Nat.le_refl _⟩

theorem ServerOk.bench (h : ServerOk s) (o : Object) (measured : Bool) :
    ServerOk { s with table := (lsVmBenchProgram o measured).final s.table } := by
  obtain ⟨hslots, hnext⟩ := final_lsVmBenchProgram o measured s.table
  apply h.withTable
  · intro k
    rw [hslots]
    exact (h.slots k).mono hnext
  · intro k
    rw [hslots]
    exact .refl _ _

/-! ## LOAD -/

/-- What a load that has passed its checks is known to satisfy. -/
structure Checked (s : Server) (r : Load) (target : LsTarget) : Prop where
  terminated : r.binding.hook.contains 0 = true
  mode : r.mode ≤ r.binding.modeCeiling
  wellFormed : target.wellFormed r.object.sectionName s.buildId = true
  attached : (s.targets r.epoch).mismatches r target = false

theorem checkLoad_checked {r : Load} {target : LsTarget} (h : s.checkLoad r = some target) :
    Checked s r target := by
  unfold Server.checkLoad at h
  obtain ⟨_, hfilter⟩ := Option.ite_none_left_eq_some.mp h
  obtain ⟨hcontract, hadmitted⟩ := Option.filter_eq_some_iff.mp hfilter
  unfold Server.contract at hcontract
  obtain ⟨hsigned, hparsed⟩ := Option.ite_none_left_eq_some.mp hcontract
  obtain ⟨hrecord, _⟩ := Option.filter_eq_some_iff.mp hparsed
  obtain ⟨_, hwellFormed⟩ := Option.filter_eq_some_iff.mp hrecord
  simp only [not_or, not_lt, Bool.not_eq_true', Bool.not_eq_false] at hsigned
  simp only [Bool.and_eq_true, Bool.not_eq_true'] at hadmitted
  exact ⟨hsigned.2.1, hsigned.2.2.2, hwellFormed, hadmitted.2⟩

theorem LsTarget.wellFormed_entry {target : LsTarget} {sectionName build : List UInt8}
    (h : target.wellFormed sectionName build = true) : target.entry ≠ 0 := by
  simp only [LsTarget.wellFormed, Bool.and_eq_true, bne_iff_ne] at h
  exact h.1.1.1.1.2

/-- The kind in the record is the kind of the section. -/
theorem LsTarget.wellFormed_kind {target : LsTarget} {sectionName build : List UInt8}
    (h : target.wellFormed sectionName build = true) :
    isExitSection sectionName = (target.isExit == 1) ∧
      isSnapshotSection sectionName = (target.magic == lsTargetSnapshotMagic) := by
  simp only [LsTarget.wellFormed, Bool.and_eq_true, beq_iff_eq] at h
  obtain ⟨⟨⟨⟨⟨⟨⟨hmagic, _⟩, _⟩, _⟩, _⟩, hexit⟩, _⟩, _⟩ := h
  rw [hexit, hmagic]
  constructor
  · cases isExitSection sectionName with
    | false => rfl
    | true => rfl
  · cases isSnapshotSection sectionName with
    | false => rfl
    | true => rfl

/-- A load over an attached slot is signed for what was patched. -/
theorem Checked.same {r : Load} {target : LsTarget} (h : Checked s r target)
    (hattached : (s.targets r.epoch).attached = true) :
    target = (s.targets r.epoch).target ∧
      Program.cString r.binding.hook = Program.cString (s.targets r.epoch).hook := by
  have hsame := h.attached
  simp only [SignedTarget.mismatches, hattached, Bool.true_and, Bool.or_eq_false_iff,
    bne_eq_false_iff_eq] at hsame
  exact hsame

/-- A load puts its program into its slot, in a new VM, and lets the others go on. -/
structure Takes (t t' : SlotTable) (k : Nat) (o : Object) (mode : Nat) : Prop where
  slot : k < lsLegacySlots
  armed : (t'.slots k).armed = true
  vm : (t'.slots k).vm = some t.nextVm
  mode : (t'.slots k).mode = mode
  isExit : (t'.slots k).isExit = o.isExit
  isSnapshot : (t'.slots k).isSnapshot = o.isSnapshot
  others : ∀ j, j ≠ k → ∀ bound, Continues bound (t.slots j) (t'.slots j)

theorem lsVmReload_takes {slot mode : Nat} {o : Object} {loading : UInt64} {t : SlotTable}
    (h : (lsVmReload slot o loading mode).result t = true) :
    Takes t ((lsVmReload slot o loading mode).final t) slot o mode := by
  rcases lsVmReload_cases slot o loading mode t with
    ⟨hrefused, _⟩ | ⟨_, hslot, _, _, _, staged, hspare, ⟨rfl, hslots⟩ | ⟨hne, hslots⟩⟩
  · rw [h] at hrefused
    contradiction
  · constructor
    · exact hslot
    · simp [hslots, LsSlot.prepared, LsSlot.withVm]
    · simp [hslots, LsSlot.prepared, LsSlot.withVm]
    · simp [hslots, LsSlot.prepared, LsSlot.withVm]
    · simp [hslots, LsSlot.prepared, LsSlot.withVm, LsSlot.recorded, LsSlot.ofKind]
    · simp [hslots, LsSlot.prepared, LsSlot.withVm, LsSlot.recorded, LsSlot.ofKind]
    · intro j hj bound
      rw [hslots, Function.update_of_ne hj]
      exact .refl _ _
  · have hother : slot ≠ staged := Ne.symm hne
    constructor
    · exact hslot
    · simp [hslots, hother, LsSlot.published]
    · simp [hslots, hother, LsSlot.published, LsSlot.prepared, LsSlot.withVm]
    · simp [hslots, hother, LsSlot.published]
    · simp [hslots, hother, LsSlot.published, LsSlot.prepared, LsSlot.withVm, LsSlot.recorded,
        LsSlot.ofKind]
    · simp [hslots, hother, LsSlot.published, LsSlot.prepared, LsSlot.withVm, LsSlot.recorded,
        LsSlot.ofKind]
    · intro j hj bound
      rw [hslots]
      by_cases hjs : j = staged
      · -- the staging slot held no program before, and holds none again
        subst hjs
        have hempty := (spareSlot_cases hspare).2
        rw [Function.update_self]
        refine ⟨hempty.symm, ?_⟩
        intro harmed
        rw [hempty] at harmed
        contradiction
      · rw [Function.update_of_ne hjs, Function.update_of_ne hj]
        exact .refl _ _

/-- A slot of the table is as it was, or it was empty and is again. -/
theorem lsVmReload_refused {slot mode : Nat} {o : Object} {loading : UInt64} {t : SlotTable}
    (h : (lsVmReload slot o loading mode).result t = false) (k : Nat) :
    Abandoned (t.slots k) (((lsVmReload slot o loading mode).final t).slots k) := by
  rcases lsVmReload_cases slot o loading mode t with ⟨_, j, s, hs, hslots, _⟩ | ⟨haccepted, _⟩
  · rw [hslots]
    by_cases hk : k = j
    · subst hk
      rw [Function.update_self]
      exact hs
    · rw [Function.update_of_ne hk]
      exact .refl _
  · rw [h] at haccepted
    contradiction

/-- The server once a load is through. -/
def Server.loaded (s : Server) (r : Load) (target : LsTarget) (t : SlotTable)
    (c : LsConfigStore) : Server :=
  { s.withConfig c with
    table := t
    targets := Function.update s.targets r.epoch ((s.targets r.epoch).signed r target)
    admitted := Function.update s.admitted s.table.nextVm
      (some { binding := r.binding, target := target }) }

theorem ServerOk.loaded (h : ServerOk s) {r : Load} {target : LsTarget}
    (hchecked : Checked s r target) {t : SlotTable} (ht : t.Ok)
    (htakes : Takes s.table t r.epoch r.object r.mode) {c : LsConfigStore} (hc : Steady c) :
    ServerOk (s.loaded r target t c) := by
  obtain ⟨hexit, hsnapshot⟩ := LsTarget.wellFormed_kind hchecked.wellFormed
  have hrow : (s.loaded r target t c).targets r.epoch = (s.targets r.epoch).signed r target :=
    Function.update_self ..
  have hother : ∀ k, k ≠ r.epoch → (s.loaded r target t c).targets k = s.targets k :=
    fun k hk => Function.update_of_ne hk ..
  refine ⟨h.sound.withConfig c, h.vacant, h.entered, ht, hc, ?_, ?_, ?_, h.reserved⟩
  · intro k
    by_cases hk : k = r.epoch
    · subst hk
      refine ⟨fun _ => ⟨htakes.slot, htakes.armed⟩, ?_⟩
      intro _
      refine ⟨s.table.nextVm, _, htakes.vm, Function.update_self .., ?_⟩
      rw [hrow]
      constructor
      · rfl
      · rfl
      · rfl
      · rfl
      · exact hchecked.terminated
      · exact ⟨_, hchecked.wellFormed⟩
      · exact htakes.mode.trans_le hchecked.mode
      · exact htakes.isExit.trans hexit
      · exact htakes.isSnapshot.trans hsnapshot
    · refine (h.paired k).continues rfl (hother k hk) (htakes.others k hk _) ?_
      -- the VM of the other slot is older than the new one
      intro vm harmed hvm
      obtain ⟨vm', hvm', hlt, _⟩ := (h.slots k).live harmed
      obtain rfl : vm = vm' := Option.some.inj (hvm.symm.trans hvm')
      exact Function.update_of_ne hlt.ne ..
  · intro k hk
    by_cases hke : k = r.epoch
    · subst hke
      rw [hrow] at hk
      obtain ⟨htarget, hhook⟩ := hchecked.same hk
      have hattached := h.attached r.epoch hk
      obtain ⟨p, htext, hp⟩ := hattached.patch
      refine ⟨?_, ?_, ?_, ?_⟩
      · rw [hrow]
        rfl
      · rw [hrow]
        change ∃ p, s.text target.entry = some p ∧ _
        rw [htarget]
        exact ⟨p, htext, hp.slot, hp.target, hp.hook.trans hhook.symm, hp.isExit⟩
      · exact hattached.site
      · rw [hrow]
        change ∀ i, _ → _ ≠ target.entry
        rw [htarget]
        exact hattached.address
    · rw [hother k hke] at hk
      exact (h.attached k hk).congr (hother k hke) rfl rfl
  · intro address p hp
    obtain ⟨hattached, hentry⟩ := h.patched address p hp
    by_cases hslot : p.slot = r.epoch
    · rw [hslot] at hattached hentry ⊢
      rw [hrow]
      refine ⟨hattached, ?_⟩
      change target.entry = address
      rw [(hchecked.same hattached).1]
      exact hentry
    · rw [hother p.slot hslot]
      exact ⟨hattached, hentry⟩

/-- The configuration of a slot can always be bound to a fresh instance. -/
theorem lsConfigBind_fresh {c : LsConfigStore} (hc : Steady c) {slot : Nat}
    (hlegacy : slot < Program.lsProgramConfigBase) (hset : (lsConfigNewInstance c slot).1 ≠ 0)
    (hsequence : (c.slots slot).sequence ≤ uint64Max - 2) (sha : List UInt8) :
    (lsConfigBind (lsConfigNewInstance c slot).2 slot (lsConfigNewInstance c slot).1 sha).1 =
      true := by
  have hwritable : Writable (c.slots slot) := ⟨hc slot hlegacy, hsequence⟩
  unfold lsConfigBind
  rw [bindAllowed_newInstance hset, Program.lsConfigNewInstance_slots,
    lsConfigWrite_of_writable hwritable]
  rfl

/-- The slot has no instance left to give, or its configuration cannot be written again. -/
def Server.exhausted (s : Server) (slot : Nat) : Prop :=
  (lsConfigNewInstance s.config slot).1 = 0 ∨ (s.config.slots slot).sequence > uint64Max - 2

/-- The load of the program itself. -/
def Server.vmReload (s : Server) (r : Load) : Vm.Ctl Bool :=
  lsVmReload r.epoch r.object (lsConfigNewInstance s.config r.epoch).1 r.mode

/-- How a load that has passed its checks ends.  Once the program is in its slot the
binding of the configuration cannot fail. -/
theorem ServerOk.reload_cases (h : ServerOk s) (r : Load) (target : LsTarget) :
    s.exhausted r.epoch ∧
      s.reload r target = (false, s.withConfig (lsConfigNewInstance s.config r.epoch).2) ∨
    ¬ s.exhausted r.epoch ∧
      ((s.vmReload r).result s.table = false ∧ s.reload r target =
        (false, { s.withConfig (lsConfigNewInstance s.config r.epoch).2 with
          table := (s.vmReload r).final s.table }) ∨
      (s.vmReload r).result s.table = true ∧ ∃ c, Steady c ∧ s.reload r target =
        (true, s.loaded r target ((s.vmReload r).final s.table) c)) := by
  unfold Server.reload
  by_cases hinstance : s.exhausted r.epoch
  · exact .inl ⟨hinstance, if_pos hinstance⟩
  · refine .inr ⟨hinstance, ?_⟩
    have hset := hinstance
    unfold Server.exhausted at hset
    rw [if_neg hset]
    rw [not_or, not_lt] at hset
    change (s.vmReload r).result s.table = false ∧
        (if (s.vmReload r).result s.table = true then _ else _) = _ ∨
      (s.vmReload r).result s.table = true ∧ ∃ c, Steady c ∧
        (if (s.vmReload r).result s.table = true then _ else _) = _
    cases hresult : (s.vmReload r).result s.table with
    | false => exact .inl ⟨rfl, rfl⟩
    | true =>
        have hlegacy : r.epoch < Program.lsProgramConfigBase :=
          (lsVmReload_takes hresult).slot.trans_le (by decide)
        have hbound := lsConfigBind_fresh h.steady hlegacy hset.1 hset.2 r.binding.progSha256
        have hsteady := (h.steady.newInstance r.epoch).bind r.epoch
          (lsConfigNewInstance s.config r.epoch).1 r.binding.progSha256
        refine .inr ⟨rfl, _, hsteady, ?_⟩
        rw [if_pos rfl, Server.bind]
        exact if_pos hbound

theorem ServerOk.load (h : ServerOk s) (r : Load) : ServerOk (s.load r).2 := by
  unfold Server.load
  cases hcheck : s.checkLoad r with
  | none => exact h
  | some target =>
      have hfresh := h.withConfig (h.steady.newInstance r.epoch)
      have ht := h.slots.reload r.epoch r.object (lsConfigNewInstance s.config r.epoch).1 r.mode
      dsimp only
      rcases h.reload_cases r target with
        ⟨_, hrefused⟩ | ⟨_, ⟨hresult, hrefused⟩ | ⟨hresult, c, hc, hloaded⟩⟩
      · rw [hrefused]
        exact hfresh
      · rw [hrefused]
        apply hfresh.withTable ht
        intro k
        exact .abandoned (lsVmReload_refused hresult k) _
      · rw [hloaded]
        exact h.loaded (checkLoad_checked hcheck) ht (lsVmReload_takes hresult) hc

/-! ## ARM and DISARM -/

theorem attach_attached (s : Server) (slot : Nat) (isExit : Bool) (k : Nat) :
    ((s.attach slot isExit).targets k).attached =
      if k = slot then true else (s.targets k).attached := by
  change (Function.update s.targets slot _ k).attached = _
  by_cases hk : k = slot
  · rw [hk, Function.update_self, if_pos rfl]
  · rw [Function.update_of_ne hk, if_neg hk]

theorem detach_attached (s : Server) (slot k : Nat) :
    ((s.detach slot).targets k).attached =
      if k = slot then false else (s.targets k).attached := by
  change (Function.update s.targets slot _ k).attached = _
  by_cases hk : k = slot
  · rw [hk, Function.update_self, if_pos rfl]
  · rw [Function.update_of_ne hk, if_neg hk]

theorem detach_text (s : Server) (slot : Nat) (address : UInt64) :
    (s.detach slot).text address =
      if address = (s.targets slot).target.entry then none else s.text address :=
  Function.update_apply ..

theorem lsProgramSiteOwned_eq_false {m : Program.Manager} {site : Nat} {address : UInt64}
    (h : lsProgramSiteOwned m site address = false) {i : Nat} (hi : i < Program.lsProgramSites)
    (howned : (m.sites i).owned = true) :
    site ≠ i ∧ (address ≠ 0 → (m.sites i).address ≠ address) := by
  unfold lsProgramSiteOwned at h
  have hnot := List.any_eq_false.mp h i (List.mem_range.mpr hi)
  simp only [howned, Bool.true_and, Bool.or_eq_true, beq_iff_eq, Bool.and_eq_true, bne_iff_ne,
    not_or, not_and] at hnot
  exact hnot

/-- What a request to patch text is known to satisfy once it gets to the text. -/
structure Armable (s : Server) (slot : Nat) (isExit : Bool) : Prop where
  valid : (s.targets slot).valid = true
  unowned : lsProgramSiteOwned s.manager slot (s.targets slot).target.entry = false
  detached : (s.targets slot).attached = false
  isExit : isExit = (s.table.slots slot).isExit
  pad : s.isPad (s.targets slot).target.entry = true

/-- How a request to patch text ends. -/
theorem ServerOk.arm_cases (h : ServerOk s) (slot : Nat) (hook : List UInt8) (swapped : Bool) :
    s.arm slot hook swapped = (false, s) ∨
      ∃ isExit, Armable s slot isExit ∧ s.arm slot hook swapped = (true, s.attach slot isExit) := by
  unfold Server.arm
  dsimp only
  split
  · exact .inl rfl
  split
  · exact .inl rfl
  split
  · exact .inl rfl
  split
  · exact .inl rfl
  rename_i hsigned hunowned _ hdetached
  have hvalid : (s.targets slot).valid = true := by
    simpa using (not_or.mp hsigned).2
  have hlegacy : slot < lsLegacySlots := ((h.paired slot).valid hvalid).1
  have hstats : s.lsVmStats slot = some {
      armed := (s.table.slots slot).armed
      isExit := (s.table.slots slot).isExit
      mode := (s.table.slots slot).mode } := by
    have hrange : ¬ slot ≥ lsMaxSlots := Nat.not_le.mpr (hlegacy.trans (by decide))
    rw [Server.lsVmStats, if_neg hrange, if_pos hlegacy]
  rw [hstats]
  dsimp only
  split
  · exact .inl rfl
  split
  · rename_i hlive
    refine .inr ⟨_, ⟨hvalid, ?_, ?_, rfl, ?_⟩, rfl⟩
    · exact Bool.eq_false_iff.mpr hunowned
    · exact Bool.eq_false_iff.mpr hdetached
    · simp only [Server.lsArmLive, Bool.and_eq_true] at hlive
      exact hlive.1.1
  · exact .inl rfl

theorem ServerOk.attach (h : ServerOk s) {slot : Nat} {isExit : Bool}
    (harm : Armable s slot isExit) : ServerOk (s.attach slot isExit) := by
  obtain ⟨hlegacy, harmed⟩ := (h.paired slot).valid harm.valid
  obtain ⟨_, _, _, _, has⟩ := (h.paired slot).admitted harmed
  have hnone : s.text (s.targets slot).target.entry = none := by
    have hpad := harm.pad
    simp only [Server.isPad, Bool.and_eq_true, Option.isNone_iff_eq_none] at hpad
    exact hpad.1
  have hrow : (s.attach slot isExit).targets slot = { s.targets slot with attached := true } :=
    Function.update_self ..
  have hother : ∀ k, k ≠ slot → (s.attach slot isExit).targets k = s.targets k :=
    fun k hk => Function.update_of_ne hk ..
  have howned : ∀ i, (s.manager.sites i).owned = true → slot ≠ i ∧
      (s.manager.sites i).address ≠ (s.targets slot).target.entry := by
    intro i hi
    obtain ⟨hindex, haddress⟩ := lsProgramSiteOwned_eq_false harm.unowned (h.reserved i hi) hi
    obtain ⟨_, hwellFormed⟩ := has.wellFormed
    exact ⟨hindex, haddress (LsTarget.wellFormed_entry hwellFormed)⟩
  refine ⟨h.sound, h.vacant, h.entered, h.slots, h.steady, ?_, ?_, ?_, h.reserved⟩
  · intro k
    by_cases hk : k = slot
    · subst hk
      exact (h.paired k).reattached hrow rfl rfl rfl
    · exact (h.paired k).continues rfl (hother k hk) (.refl _ _) fun _ _ _ => rfl
  · intro k hk
    by_cases hks : k = slot
    · subst hks
      refine ⟨?_, ?_, ?_, ?_⟩
      · rw [hrow]
        exact harm.valid
      · rw [hrow]
        refine ⟨_, Function.update_self .., rfl, rfl, rfl, ?_⟩
        exact harm.isExit.trans has.isExit
      · by_contra hsite
        rw [Bool.not_eq_false] at hsite
        exact (howned k hsite).1 rfl
      · rw [hrow]
        intro i hi
        exact (howned i hi).2
    · rw [hother k hks] at hk
      have hattached := h.attached k hk
      refine hattached.congr (hother k hks) ?_ rfl
      -- the text of the other slot is patched, this slot's is not
      obtain ⟨p, htext, _⟩ := hattached.patch
      have hentry : (s.targets k).target.entry ≠ (s.targets slot).target.entry := by
        intro heq
        rw [heq, hnone] at htext
        contradiction
      exact Function.update_of_ne hentry ..
  · intro address p hp
    by_cases haddress : address = (s.targets slot).target.entry
    · subst haddress
      have hpatch : (s.attach slot isExit).text (s.targets slot).target.entry = some _ :=
        Function.update_self ..
      obtain rfl := Option.some.inj (hpatch.symm.trans hp)
      rw [hrow]
      exact ⟨rfl, rfl⟩
    · have hold : s.text address = some p := by
        rw [← hp]
        exact (Function.update_of_ne haddress ..).symm
      obtain ⟨hattached, hentry⟩ := h.patched address p hold
      have hslot : p.slot ≠ slot := by
        intro heq
        rw [heq, harm.detached] at hattached
        contradiction
      rw [hother p.slot hslot]
      exact ⟨hattached, hentry⟩

theorem ServerOk.arm (h : ServerOk s) (slot : Nat) (hook : List UInt8) (swapped : Bool) :
    ServerOk (s.arm slot hook swapped).2 := by
  rcases h.arm_cases slot hook swapped with hrefused | ⟨isExit, harm, hattached⟩
  · rw [hrefused]
    exact h
  · rw [hattached]
    exact h.attach harm

/-- Two attached slots have different functions. -/
theorem ServerOk.attached_apart (h : ServerOk s) {j k : Nat} (hj : (s.targets j).attached = true)
    (hk : (s.targets k).attached = true)
    (hentry : (s.targets j).target.entry = (s.targets k).target.entry) : j = k := by
  obtain ⟨p, htext, hp⟩ := (h.attached j hj).patch
  obtain ⟨q, htext', hq⟩ := (h.attached k hk).patch
  rw [hentry, htext'] at htext
  rw [← hp.slot, ← hq.slot, Option.some.inj htext]

/-- How a request to restore text ends. -/
theorem disarm_cases (s : Server) (epoch : Nat) (hook : List UInt8) (swapped : Bool) :
    s.disarm epoch hook swapped = (false, s) ∨
      ∃ slot, (s.targets slot).attached = true ∧
        s.disarm epoch hook swapped = (true, s.detach slot) := by
  unfold Server.disarm
  split
  · exact .inl rfl
  · rename_i slot hfound
    split
    · have hnamed := List.find?_some hfound
      simp only [SignedTarget.named, Bool.and_eq_true] at hnamed
      exact .inr ⟨slot, hnamed.1, rfl⟩
    · exact .inl rfl

theorem ServerOk.detach (h : ServerOk s) {slot : Nat} (hattached : (s.targets slot).attached = true) :
    ServerOk (s.detach slot) := by
  have hrow : (s.detach slot).targets slot = { s.targets slot with attached := false } :=
    Function.update_self ..
  have hother : ∀ k, k ≠ slot → (s.detach slot).targets k = s.targets k :=
    fun k hk => Function.update_of_ne hk ..
  refine ⟨h.sound, h.vacant, h.entered, h.slots, h.steady, ?_, ?_, ?_, h.reserved⟩
  · intro k
    by_cases hk : k = slot
    · subst hk
      exact (h.paired k).reattached hrow rfl rfl rfl
    · exact (h.paired k).continues rfl (hother k hk) (.refl _ _) fun _ _ _ => rfl
  · intro k hk
    have hks : k ≠ slot := by
      rintro rfl
      rw [hrow] at hk
      contradiction
    rw [hother k hks] at hk
    refine (h.attached k hk).congr (hother k hks) ?_ rfl
    have hentry : (s.targets k).target.entry ≠ (s.targets slot).target.entry :=
      fun heq => hks (h.attached_apart hk hattached heq)
    exact Function.update_of_ne hentry ..
  · intro address p hp
    have haddress : address ≠ (s.targets slot).target.entry := by
      rintro rfl
      have hnone : (s.detach slot).text (s.targets slot).target.entry = none :=
        Function.update_self ..
      rw [hnone] at hp
      contradiction
    have hold : s.text address = some p := by
      rw [← hp]
      exact (Function.update_of_ne haddress ..).symm
    obtain ⟨hp', hentry⟩ := h.patched address p hold
    have hslot : p.slot ≠ slot := by
      rintro heq
      rw [heq] at hentry
      exact haddress hentry.symm
    rw [hother p.slot hslot]
    exact ⟨hp', hentry⟩

theorem ServerOk.disarm (h : ServerOk s) (epoch : Nat) (hook : List UInt8) (swapped : Bool) :
    ServerOk (s.disarm epoch hook swapped).2 := by
  rcases disarm_cases s epoch hook swapped with hrefused | ⟨slot, hattached, hdetached⟩
  · rw [hrefused]
    exact h
  · rw [hdetached]
    exact h.detach hattached

/-! ## Requests to the manager -/

/-- The callback patches only what no legacy slot has. -/
theorem lsProgramPatch_eq_true {swap : Program.Patch} {address : UInt64} {site : Nat}
    {install : Bool} (h : s.lsProgramPatch swap address site install = true) :
    site < Program.lsProgramSites ∧
      (∀ k < shieldMaxShields, (s.targets k).attached = true →
        k ≠ site ∧ (s.targets k).target.entry ≠ address) ∧
      (install = true → s.isPad address = true) := by
  unfold Server.lsProgramPatch at h
  by_cases hsite : site ≥ Program.lsProgramSites
  · rw [if_pos hsite] at h
    contradiction
  rw [if_neg hsite] at h
  cases hconflict : (List.range shieldMaxShields).any
      fun i => (s.targets i).conflicts i address site with
  | true =>
      rw [hconflict] at h
      contradiction
  | false =>
      rw [hconflict] at h
      refine ⟨Nat.lt_of_not_le hsite, ?_, ?_⟩
      · intro k hk hattached
        have hfree := List.any_eq_false.mp hconflict k (List.mem_range.mpr hk)
        simp only [SignedTarget.conflicts, hattached, Bool.true_and, Bool.or_eq_true, beq_iff_eq,
          not_or] at hfree
        exact hfree
      · intro hinstall
        simp only [hinstall, if_true, Bool.false_eq_true, if_false, Server.lsArmLive,
          Bool.and_eq_true] at h
        exact h.1.1

theorem op_patch {r : ProgramRequest} {patch : Program.Patch} {address : UInt64} {site : Nat}
    {install : Bool} (h : (r.op patch).patch address site install = true) :
    patch address site install = true := by
  cases r with
  | load id r => contradiction
  | attach id instanceId entry => exact h
  | detach id instanceId entry => exact h
  | mode id instanceId value => contradiction
  | revoke id instanceId => exact h

/-- A site is described as before, or it is one the callback has patched for. -/
theorem ServerOk.program_sites (h : ServerOk s) (gate : Bool) (r : ProgramRequest)
    (swap : Program.Patch) (i : Nat) :
    Program.SameSite (s.manager.sites i) ((s.program gate r swap).2.manager.sites i) ∨
      s.lsProgramPatch swap ((s.program gate r swap).2.manager.sites i).address i true = true := by
  rcases h.sound.sites_described gate (r.op (s.lsProgramPatch swap)) i with hsame | ⟨_, hpatch⟩
  · exact .inl hsame
  · exact .inr (op_patch hpatch)

theorem ServerOk.program (h : ServerOk s) (gate : Bool) (r : ProgramRequest)
    (swap : Program.Patch) : ServerOk (s.program gate r swap).2 := by
  refine ⟨h.sound.run gate _, h.vacant.run h.sound gate _, h.entered.run h.sound gate _, h.slots,
    ?_, ?_, ?_, h.patched, ?_⟩
  · intro k hk
    change ((((r.op (s.lsProgramPatch swap)).run gate).final s.manager).config.slots k).sequence
      % 2 = 0
    rw [Program.run_legacyConfig gate _ hk]
    exact h.steady k hk
  · intro k
    exact (h.paired k).continues rfl rfl (.refl _ _) fun _ _ _ => rfl
  · intro k hk
    have hattached := h.attached k hk
    have hlt : k < shieldMaxShields :=
      ((h.paired k).valid hattached.valid).1.trans (by decide)
    refine ⟨hattached.valid, hattached.patch, ?_, ?_⟩
    · rcases h.program_sites gate r swap k with hsame | hpatch
      · rw [hsame.2.2.2.1]
        exact hattached.site
      · obtain ⟨_, hfree, _⟩ := lsProgramPatch_eq_true hpatch
        exact absurd rfl (hfree k hlt hk).1
    · intro i howned
      rcases h.program_sites gate r swap i with hsame | hpatch
      · rw [hsame.1]
        exact hattached.address i (hsame.2.2.2.1.symm.trans howned)
      · obtain ⟨_, hfree, _⟩ := lsProgramPatch_eq_true hpatch
        exact (hfree k hlt hk).2.symm
  · intro i howned
    rcases h.program_sites gate r swap i with hsame | hpatch
    · exact h.reserved i (hsame.2.2.2.1.symm.trans howned)
    · exact (lsProgramPatch_eq_true hpatch).1

/-! ## Every request -/

theorem ServerOk.serve (h : ServerOk s) (r : Request) : ServerOk (s.serve r).2 := by
  cases r with
  | load r => exact h.load r
  | setMode epoch mode => exact h.setMode epoch mode
  | revoke epoch readers => exact h.revoke epoch readers
  | arm slot hook swapped => exact h.arm slot hook swapped
  | disarm epoch hook swapped => exact h.disarm epoch hook swapped
  | config slot body => exact h.publishConfig slot body
  | bench o measured => exact h.bench o measured
  | program gate r swap => exact h.program gate r swap

theorem serverMachine_ok : ∀ s, serverMachine.Reachable s → ServerOk s := by
  apply Machine.Reachable.invariant
  · rintro s ⟨session, buildId, rfl⟩
    exact serverOk_initial session buildId
  · intro s r s' _ hok hnext
    obtain rfl := Option.some.inj hnext
    exact hok.serve r

end Control
end LiveSurface
