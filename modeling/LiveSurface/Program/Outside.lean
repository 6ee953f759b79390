import LiveSurface.Program.Dispatch

/-!
# The manager from outside

The legacy slots share the configuration store and the text with the program manager,
and one claim about modes is made of both.  This module says what the rest of the
process may rely on: which configuration slots an operation leaves alone, in which
mode the slots are that hold no entry, and which programs the manager admits.

Main results:

- Theorem {lit}`run_legacyConfig`: no operation touches a legacy configuration slot.
- Theorem {lit}`Vacant.run`: slots without an entry stay in DISABLE.
- Theorem {lit}`Entered.run`: every entry of a published program has passed the checks
  of its load.
- Theorem {lit}`Sound.failed_modes`: an operation that fails changes no slot's mode, a
  stopped revocation apart.
-/

namespace LiveSurface
namespace Program

open Config StoreProgram

variable {m m' : Manager} {id entry : Nat}

/-! ## Tame stores -/

/-- A store that at most disables a slot, and leaves the configuration of legacy slots
alone. -/
def Store.Tame : Store → Prop
  | .slot _ f => ∀ s, (f s).mode = s.mode ∨ (f s).mode = lsModeDisable
  | .config f => ∀ c k, k < lsProgramConfigBase → (f c).slots k = c.slots k
  | _ => True

/-- Programs that make only tame stores. -/
abbrev TameCtl {α : Type} (p : Ctl α) : Prop := Emits (fun _ => True) Store.Tame p

theorem legacy_ne_configSlot {k : Nat} (hk : k < lsProgramConfigBase) : k ≠ configSlot id := by
  unfold configSlot
  omega

theorem tame_slot {k : Nat} {f : LsSlot → LsSlot}
    (hf : ∀ s, (f s).mode = s.mode ∨ (f s).mode = lsModeDisable) :
    TameCtl (write (.slot k f) : Ctl Unit) :=
  emits_write hf

theorem tame_program (id : Nat) (f : LsOwnedProgram → LsOwnedProgram) :
    TameCtl (write (.program id f) : Ctl Unit) :=
  emits_write (Q := Store.Tame) (i := .program id f) trivial

theorem tame_site (i : Nat) (f : LsSite → LsSite) : TameCtl (write (.site i f) : Ctl Unit) :=
  emits_write (Q := Store.Tame) (i := .site i f) trivial

theorem tame_clearSlot : TameCtl (clearSlot id entry) := by
  unfold clearSlot
  apply Emits.andThen
  · apply tame_slot
    intro s
    exact .inr rfl
  · intro _
    apply tame_slot
    intro s
    exact .inl rfl

theorem tame_created (k : Nat) : TameCtl (write (.created k) : Ctl Unit) :=
  emits_write (Q := Store.Tame) (i := .created k) trivial

theorem tame_destroyed (k : Nat) : TameCtl (write (.destroyed k) : Ctl Unit) :=
  emits_write (Q := Store.Tame) (i := .destroyed k) trivial

theorem tame_patched (address : UInt64) (site : Option Nat) :
    TameCtl (write (.patched address site) : Ctl Unit) :=
  emits_write (Q := Store.Tame) (i := .patched address site) trivial

theorem tame_config {f : LsConfigStore → LsConfigStore}
    (hf : ∀ c k, k < lsProgramConfigBase → (f c).slots k = c.slots k) :
    TameCtl (write (.config f) : Ctl Unit) :=
  emits_write hf

theorem tame_recordShapes (shapes : List (List UInt8 × Map.LsMapDef)) :
    TameCtl (recordShapes id shapes) := tame_program id _

theorem tame_lsVmPrepareSlot (outcome : Prepared) :
    TameCtl (lsVmPrepareSlot id entry outcome) := by
  cases outcome with
  | refused => exact emits_pure false
  | failed safeValue shapes =>
      unfold lsVmPrepareSlot
      refine Emits.andThen (tame_slot ?_) fun _ => Emits.andThen (tame_recordShapes shapes)
        fun _ => emits_pure false
      exact fun _ => .inl rfl
  | ready safeValue shapes =>
      unfold lsVmPrepareSlot
      refine Emits.andThen (tame_slot ?_) fun _ => Emits.andThen (tame_recordShapes shapes)
        fun _ => Emits.andThen (tame_created _) fun _ => Emits.andThen (tame_slot ?_)
        fun _ => Emits.andThen (tame_slot ?_) fun _ => emits_pure true
      · exact fun _ => .inl rfl
      · exact fun _ => .inr rfl
      · exact fun _ => .inl rfl

theorem tame_prepareEntry (r : LoadRequest) : TameCtl (prepareEntry id r entry) := by
  unfold prepareEntry
  apply tame_clearSlot.andThen
  intro _
  apply (tame_lsVmPrepareSlot _).andThen
  intro _
  apply emits_ite
  · intro _
    exact Emits.andThen (tame_program id _) fun _ => Emits.andThen (tame_program id _)
      fun _ => emits_pure true
  · intro _
    exact emits_pure false

theorem tame_prepareEntries (r : LoadRequest) :
    ∀ left made, TameCtl (prepareEntries id r left made) := by
  intro left
  induction left with
  | zero =>
      intro made
      exact emits_pure made
  | succ left ih =>
      intro made
      unfold prepareEntries
      apply (tame_prepareEntry r).andThen
      intro _
      apply emits_ite
      · intro _
        exact ih (made + 1)
      · intro _
        exact emits_pure made

theorem tame_lsProgramLoadPrepare (r : LoadRequest) : TameCtl (lsProgramLoadPrepare id r) := by
  have hopen : TameCtl (openBank id) := by
    unfold openBank
    refine Emits.andThen (tame_config ?_) fun _ => tame_program id _
    intro c k _
    rw [lsConfigNewInstance_slots]
  unfold lsProgramLoadPrepare
  apply emits_read
  intro m _
  apply emits_ite
  · intro _
    exact emits_pure none
  · intro _
    apply emits_ite
    · intro _
      exact emits_pure none
    · intro _
      exact hopen.andThen fun _ => (tame_prepareEntries r r.count 0).andThen fun _ => emits_pure _

theorem tame_destroySlots (count : Nat) : TameCtl (forEach (destroySlot id) (List.range count)) := by
  apply emits_forEach
  · intro _ _ _ _
    trivial
  · intro e _
    unfold destroySlot
    refine Emits.andThen (tame_destroyed _) fun _ => tame_slot ?_
    exact fun _ => .inr rfl

theorem tame_lsProgramLoadPublish (r : LoadRequest) (instanceId : UInt64) :
    TameCtl (lsProgramLoadPublish id r instanceId) := by
  unfold lsProgramLoadPublish
  apply emits_read
  intro m _
  apply emits_ite
  · intro _
    refine Emits.andThen (tame_config ?_) fun _ => Emits.andThen (tame_program id _) fun _ =>
      Emits.andThen (tame_program id _) fun _ => Emits.andThen (tame_program id _) fun _ =>
      emits_pure true
    intro c k hk
    exact lsConfigBind_other _ _ (legacy_ne_configSlot hk)
  · intro _
    exact emits_pure false

theorem tame_link (site : Nat) : TameCtl (link id entry site) :=
  Emits.andThen (tame_program id _) fun _ => tame_site site _

theorem tame_lsProgramAttachLocked (patch : Patch) :
    TameCtl (lsProgramAttachLocked id entry patch) := by
  unfold lsProgramAttachLocked
  apply emits_read
  intro m _
  dsimp only
  split
  · apply emits_ite
    · intro _
      exact emits_pure false
    · intro _
      exact (tame_link _).andThen fun _ => emits_pure true
  · split
    · exact emits_pure false
    · unfold claimSite
      refine Emits.andThen ?_ fun _ => (tame_link _).andThen fun _ => emits_pure true
      exact Emits.andThen (tame_patched _ _) fun _ => Emits.andThen (tame_site _ _) fun _ =>
        Emits.andThen (tame_site _ _) fun _ => Emits.andThen (tame_site _ _) fun _ =>
        tame_site _ _

theorem tame_lsProgramDetachLocked (patch : Patch) :
    TameCtl (lsProgramDetachLocked id entry patch) := by
  have hunlink : ∀ site, TameCtl (unlink id entry site) := by
    intro site
    exact Emits.andThen (tame_site site _) fun _ => tame_program id _
  unfold lsProgramDetachLocked
  apply emits_read
  intro m _
  split
  · exact emits_pure false
  · apply emits_ite
    · intro _
      apply emits_ite
      · intro _
        exact Emits.andThen (tame_patched _ _) fun _ => (hunlink _).andThen fun _ =>
          emits_pure true
      · intro _
        exact emits_pure false
    · intro _
      exact (hunlink _).andThen fun _ => emits_pure true

theorem tame_releaseProgram : TameCtl (releaseProgram id) := by
  unfold releaseProgram
  apply emits_read
  intro m _
  apply emits_ite
  · intro _
    refine Emits.andThen (tame_config ?_) fun _ => (tame_destroySlots _).andThen fun _ =>
      Emits.andThen (tame_program id _) fun _ => Emits.andThen (tame_program id _) fun _ =>
      emits_pure true
    intro c k hk
    exact lsConfigRevoke_other (legacy_ne_configSlot hk)
  · intro _
    exact emits_pure false

/-- What a revocation does once its program is disabled. -/
def revokeRest (id : Nat) (patch : Patch) : Ctl Bool := do
  let m ← read
  if ← whileOk (detachLinked id patch) (List.range (m.programs id).count) then
    releaseProgram id
  else pure false

theorem tame_revokeRest (patch : Patch) : TameCtl (revokeRest id patch) := by
  unfold revokeRest
  apply emits_read
  intro m _
  apply Emits.andThen
  · apply emits_whileOk
    · intro _ _ _ _
      trivial
    · intro e _
      unfold detachLinked
      apply emits_read
      intro m _
      apply emits_ite
      · intro _
        exact tame_lsProgramDetachLocked patch
      · intro _
        exact emits_pure true
  · intro _
    apply emits_ite
    · intro _
      exact tame_releaseProgram
    · intro _
      exact emits_pure false

theorem tame_lsProgramLoad (gate : Bool) (r : LoadRequest) :
    TameCtl (lsProgramLoad gate id r) := by
  have hrollback : ∀ made, TameCtl (do lsProgramLoadRollback id made; pure false : Ctl Bool) := by
    intro made
    exact (tame_destroySlots made).andThen fun _ => emits_pure false
  unfold lsProgramLoad
  apply (tame_lsProgramLoadPrepare r).andThen
  intro plan
  cases plan with
  | none => exact emits_pure false
  | some plan =>
      apply emits_ite
      · intro _
        apply (tame_lsProgramLoadPublish r _).andThen
        intro ok
        apply emits_ite
        · intro _
          exact emits_pure true
        · intro _
          exact hrollback _
      · intro _
        exact hrollback _

/-! ## What tame stores keep -/

/-- A slot that is disabled stays disabled. -/
theorem TameCtl.disabled {α : Type} {p : Ctl α} (hp : TameCtl p) {k : Nat}
    (hk : (m.slots k).mode = lsModeDisable) : ((p.final m).slots k).mode = lsModeDisable := by
  have hkeeps : Keeps (fun s : Manager => (s.slots k).mode = lsModeDisable) Store.Tame := by
    intro s st hst hs
    cases st with
    | slot j f =>
        by_cases hj : k = j
        · subst hj
          rcases hst (s.slots k) with hsame | hdisabled
          · simpa [hsame] using hs
          · simpa using hdisabled
        · simpa [hj] using hs
    | created j =>
        by_cases hj : k = j
        · subst hj
          simpa using hs
        · simpa [hj] using hs
    | program id f => exact hs
    | site i f => exact hs
    | config f => exact hs
    | patched address site => exact hs
    | destroyed j => exact hs
  exact hkeeps.storeAll (hp m trivial) hk

theorem TameCtl.legacyConfig {α : Type} {p : Ctl α} (hp : TameCtl p) {k : Nat}
    (hk : k < lsProgramConfigBase) : (p.final m).config.slots k = m.config.slots k := by
  have hkeeps : Keeps (fun s : Manager => s.config.slots k = m.config.slots k) Store.Tame := by
    intro s st hst hs
    cases st with
    | config f => exact (hst s.config k hk).trans hs
    | slot j f => exact hs
    | program id f => exact hs
    | site i f => exact hs
    | patched address site => exact hs
    | created j => exact hs
    | destroyed j => exact hs
  exact hkeeps.storeAll (hp m trivial) rfl

/-! ## Operations that check first -/

theorem final_checked (gate : Bool) (refused : Manager → Bool) (locked : Ctl Bool) :
    (read >>= fun m => underGate gate (refused m) locked).final m =
      if refused m || !gate then m else locked.final m := by
  rw [final_read_bind]
  unfold underGate
  rw [final_ite, final_pure]

theorem tame_checked (gate : Bool) (refused : Manager → Bool) {locked : Ctl Bool}
    (hlocked : TameCtl locked) :
    TameCtl (read >>= fun m => underGate gate (refused m) locked) := by
  apply emits_read
  intro m _
  unfold underGate
  apply emits_ite
  · intro _
    exact emits_pure false
  · intro _
    exact hlocked

/-- Every operation but the two that set modes is tame. -/
theorem tame_run (gate : Bool) (op : Op) (hmode : ∀ id instanceId mode, op ≠ .mode id instanceId mode)
    (hrevoke : ∀ id instanceId patch, op ≠ .revoke id instanceId patch) :
    TameCtl (op.run gate) := by
  cases op with
  | load id r => exact tame_lsProgramLoad gate r
  | attach id instanceId entry patch => exact tame_checked gate _ (tame_lsProgramAttachLocked _)
  | detach id instanceId entry patch => exact tame_checked gate _ (tame_lsProgramDetachLocked _)
  | mode id instanceId mode => exact absurd rfl (hmode id instanceId mode)
  | revoke id instanceId patch => exact absurd rfl (hrevoke id instanceId patch)

theorem final_run_mode (gate : Bool) (instanceId : UInt64) (mode : Nat) :
    (Op.run gate (.mode id instanceId mode)).final m =
      if modeRefused m id instanceId mode || !gate then m else (setMode id mode).final m := by
  change final (read >>= fun m => underGate gate (modeRefused m id instanceId mode)
    (lsProgramModeLocked id mode)) m = _
  rw [final_checked, lsProgramModeLocked, final_bind, final_pure]

theorem final_lsProgramRevokeLocked (patch : Patch) :
    (lsProgramRevokeLocked id patch).final m =
      (revokeRest id patch).final ((setMode id lsModeDisable).final m) := by
  rw [lsProgramRevokeLocked, final_bind]
  rfl

theorem final_run_revoke (gate : Bool) (instanceId : UInt64) (patch : Option Patch) :
    (Op.run gate (.revoke id instanceId patch)).final m =
      if revokeRefused m id instanceId patch || !gate then m
      else (revokeRest id (givenPatch patch)).final ((setMode id lsModeDisable).final m) := by
  change final (read >>= fun m => underGate gate (revokeRefused m id instanceId patch)
    (lsProgramRevokeLocked id (givenPatch patch))) m = _
  rw [final_checked, final_lsProgramRevokeLocked]

/-- No operation touches the configuration of a legacy slot. -/
theorem run_legacyConfig (gate : Bool) (op : Op) {k : Nat} (hk : k < lsProgramConfigBase) :
    ((op.run gate).final m).config.slots k = m.config.slots k := by
  cases op with
  | load id r => exact (tame_run gate (.load id r) nofun nofun).legacyConfig hk
  | attach id instanceId entry patch =>
      exact (tame_run gate (.attach id instanceId entry patch) nofun nofun).legacyConfig hk
  | detach id instanceId entry patch =>
      exact (tame_run gate (.detach id instanceId entry patch) nofun nofun).legacyConfig hk
  | mode id instanceId mode =>
      rw [final_run_mode]
      split
      · rfl
      · rw [(remoded_setMode m id mode).config]
  | revoke id instanceId patch =>
      rw [final_run_revoke]
      split
      · rfl
      · rw [(tame_revokeRest (givenPatch patch)).legacyConfig hk,
          (remoded_setMode m id lsModeDisable).config]

/-! ## Slots without an entry -/

/-- The slots of a program that hold none of its entries are disabled. -/
def VacantOf (m : Manager) (id : Nat) : Prop :=
  ∀ e < lsProgramEntries, (m.programs id).count ≤ e →
    (m.slots (lsProgramSlot id e)).mode = lsModeDisable

def Vacant (m : Manager) : Prop := ∀ id, VacantOf m id

theorem vacant_initial (session : UInt64) : Vacant (.initial session) := fun _ _ _ _ => rfl

/-- Setting the modes of a program leaves every other slot. -/
theorem setMode_slots (m : Manager) (mode : Nat) {k : Nat}
    (hk : ∀ e < (m.programs id).count, k ≠ lsProgramSlot id e) :
    ((setMode id mode).final m).slots k = m.slots k := by
  rw [final_setMode, final_setSlotModes]
  dsimp only
  rw [if_neg]
  intro hmem
  obtain ⟨e, he, rfl⟩ := List.mem_map.mp hmem
  exact hk e (List.mem_range.mp he) rfl

theorem setMode_vacant (m : Manager) (mode : Nat) {e : Nat} (he : e < lsProgramEntries)
    (hbounded : (m.programs id).count ≤ lsProgramEntries) (hcount : (m.programs id).count ≤ e) :
    ((setMode id mode).final m).slots (lsProgramSlot id e) = m.slots (lsProgramSlot id e) := by
  apply setMode_slots
  intro e' he' heq
  obtain ⟨_, rfl⟩ := lsProgramSlot_inj he (lt_of_lt_of_le he' hbounded) heq
  omega

/-- Disabling a program disables all its slots. -/
theorem VacantOf.disable (hv : VacantOf m id) (hbounded : (m.programs id).count ≤ lsProgramEntries)
    {e : Nat} (he : e < lsProgramEntries) :
    (((setMode id lsModeDisable).final m).slots (lsProgramSlot id e)).mode = lsModeDisable := by
  by_cases hcount : e < (m.programs id).count
  · exact (remoded_setMode m id lsModeDisable).modes e hcount
  · have hle := Nat.le_of_not_lt hcount
    rw [setMode_vacant m lsModeDisable he hbounded hle]
    exact hv e he hle

/-- A load into a program that is published is refused. -/
theorem run_load_published (gate : Bool) (r : LoadRequest)
    (hpublished : (m.programs id).instanceId ≠ 0) :
    (Op.run gate (.load id r)).final m = m := by
  change (lsProgramLoad gate id r).final m = m
  rcases lsProgramLoadPrepare_cases m id r with ⟨hnone, hfinal⟩ | ⟨hnot, _⟩
  · unfold lsProgramLoad
    rw [final_bind, hnone, hfinal]
    rfl
  · exact absurd (unpublished_of_not_loadRefused hnot).2 hpublished

/-- A program that is not published has only disabled slots, whatever else is done to
it than setting its mode. -/
theorem VacantOf.unpublished (hv : VacantOf m id) (h : Sound m)
    (hzero : (m.programs id).instanceId = 0) {e : Nat} (he : e < lsProgramEntries) :
    (m.slots (lsProgramSlot id e)).mode = lsModeDisable := by
  apply hv e he
  rw [((h.accounts.programs id).idle hzero).1]
  exact Nat.zero_le e

theorem final_run_attach (gate : Bool) (instanceId : UInt64) (patch : Option Patch) :
    (Op.run gate (.attach id instanceId entry patch)).final m =
      if attachRefused m id instanceId entry patch || !gate then m
      else (lsProgramAttachLocked id entry (givenPatch patch)).final m := by
  change final (read >>= fun m => underGate gate (attachRefused m id instanceId entry patch)
    (lsProgramAttachLocked id entry (givenPatch patch))) m = _
  rw [final_checked]

theorem final_run_detach (gate : Bool) (instanceId : UInt64) (patch : Option Patch) :
    (Op.run gate (.detach id instanceId entry patch)).final m =
      if detachRefused m id instanceId entry patch || !gate then m
      else (lsProgramDetachLocked id entry (givenPatch patch)).final m := by
  change final (read >>= fun m => underGate gate (detachRefused m id instanceId entry patch)
    (lsProgramDetachLocked id entry (givenPatch patch))) m = _
  rw [final_checked]

/-- A detach that succeeds takes one link away. -/
theorem Sound.run_detach (h : Sound m) {gate : Bool} {instanceId : UInt64} {patch : Option Patch}
    (hok : (Op.run gate (.detach id instanceId entry patch)).result m = true) :
    ∃ i text, Linked m id entry i ∧
      (Op.run gate (.detach id instanceId entry patch)).final m =
        unlinkedState m id entry i text := by
  have hsame := (checkFirst_cases m fun m => detachRefused m id instanceId entry patch).1
  rcases run_cases m gate (.detach id instanceId entry patch) with
    ⟨hfailed, _⟩ | ⟨plan, hplan, ⟨_, _, hlocked, ⟨_, hfinal⟩ | ⟨hfailed, _⟩⟩ | ⟨_, hfailed, _⟩⟩
  · rw [hok] at hfailed
    contradiction
  · have hready := (h.before _).2.2 plan hplan
    change (Op.detach id instanceId entry patch).before.final m = m at hsame
    rw [hsame] at hready hlocked hfinal
    change (lsProgramDetachLocked id entry (givenPatch patch)).result m = _ at hlocked
    change _ = (lsProgramDetachLocked id entry (givenPatch patch)).final m at hfinal
    rcases lsProgramDetachLocked_cases m id entry (givenPatch patch) with
      ⟨hresult, _⟩ | ⟨i, text, hlink, _, _, hends⟩
    · rw [hresult, hok] at hlocked
      contradiction
    · exact ⟨i, text, ⟨hready.1, hready.2, hlink⟩, hfinal.trans hends⟩
  · rw [hok] at hfailed
    contradiction
  · rw [hok] at hfailed
    contradiction

/-- Linking and unlinking leave the entries of the program and the modes of all slots. -/
theorem attachLocked_entries (h : Sound m) (id entry : Nat) (patch : Patch) :
    (((lsProgramAttachLocked id entry patch).final m).programs id).count = (m.programs id).count ∧
      (((lsProgramAttachLocked id entry patch).final m).programs id).entries =
        (m.programs id).entries ∧
      ((lsProgramAttachLocked id entry patch).final m).slots = m.slots := by
  rcases lsProgramAttachLocked_cases h.accounts patch with
    ⟨_, hfinal⟩ | ⟨i, s, text, _, _, _, hfinal⟩
  · rw [hfinal]
    exact ⟨rfl, rfl, rfl⟩
  · rw [hfinal]
    simp [linkedState]

theorem detachLocked_entries (m : Manager) (id entry : Nat) (patch : Patch) :
    (((lsProgramDetachLocked id entry patch).final m).programs id).count = (m.programs id).count ∧
      (((lsProgramDetachLocked id entry patch).final m).programs id).entries =
        (m.programs id).entries ∧
      ((lsProgramDetachLocked id entry patch).final m).slots = m.slots := by
  rcases lsProgramDetachLocked_cases m id entry patch with
    ⟨_, hfinal⟩ | ⟨i, text, _, _, _, hfinal⟩
  · rw [hfinal]
    exact ⟨rfl, rfl, rfl⟩
  · rw [hfinal]
    simp [unlinkedState]

/-- What an operation leaves of the slots of its own program. -/
theorem VacantOf.run {op : Op} (hv : VacantOf m op.id) (h : Sound m) (gate : Bool) :
    VacantOf ((op.run gate).final m) op.id := by
  have hbounded : ∀ id, (m.programs id).count ≤ lsProgramEntries := fun id => h.accounts.small id
  cases op with
  | load id r =>
      by_cases hzero : (m.programs id).instanceId = 0
      · intro e he _
        exact (tame_run gate (.load id r) nofun nofun).disabled (hv.unpublished h hzero he)
      · rw [run_load_published gate r hzero]
        exact hv
  | attach id instanceId entry patch =>
      rw [final_run_attach]
      split
      · exact hv
      · obtain ⟨hcount, _, hslots⟩ := attachLocked_entries h id entry (givenPatch patch)
        intro e he hle
        rw [Op.id, hcount] at hle
        rw [hslots]
        exact hv e he hle
  | detach id instanceId entry patch =>
      rw [final_run_detach]
      split
      · exact hv
      · obtain ⟨hcount, _, hslots⟩ := detachLocked_entries m id entry (givenPatch patch)
        intro e he hle
        rw [Op.id, hcount] at hle
        rw [hslots]
        exact hv e he hle
  | mode id instanceId mode =>
      rw [final_run_mode]
      split
      · exact hv
      · intro e he hle
        rw [Op.id, (remoded_setMode m id mode).program, Function.update_self] at hle
        rw [Op.id, setMode_vacant m mode he (hbounded id) hle]
        exact hv e he hle
  | revoke id instanceId patch =>
      rw [final_run_revoke]
      split
      · exact hv
      · intro e he _
        exact (tame_revokeRest (givenPatch patch)).disabled (hv.disable (hbounded id) he)

theorem Vacant.run (hv : Vacant m) (h : Sound m) (gate : Bool) (op : Op) :
    Vacant ((op.run gate).final m) := by
  intro b
  by_cases hb : b = op.id
  · rw [hb]
    exact (hv op.id).run h gate
  · have hapart := apart_run gate op (h.accounts.small op.id)
    intro e he hle
    rw [hapart.programs b hb] at hle
    rw [hapart.slots b hb e he]
    exact hv b e he hle

/-! ## Modes after a failure -/

/-- An operation that fails changes no slot's mode, a stopped revocation apart. -/
theorem Sound.failed_modes (h : Sound m) (hv : Vacant m) {gate : Bool} {op : Op}
    (hfailed : (op.run gate).result m = false) (hmidway : ¬ op.StoppedMidway gate m) {e : Nat}
    (he : e < lsProgramEntries) :
    (((op.run gate).final m).slots (lsProgramSlot id e)).mode =
      (m.slots (lsProgramSlot id e)).mode := by
  have hsame := h.failed hfailed hmidway
  by_cases hzero : (m.programs id).instanceId = 0
  · have hdisabled := (hv id).unpublished h hzero he
    rw [hdisabled]
    cases op with
    | load a r => exact (tame_run gate (.load a r) nofun nofun).disabled hdisabled
    | attach a instanceId entry patch =>
        exact (tame_run gate (.attach a instanceId entry patch) nofun nofun).disabled hdisabled
    | detach a instanceId entry patch =>
        exact (tame_run gate (.detach a instanceId entry patch) nofun nofun).disabled hdisabled
    | mode a instanceId mode =>
        rw [final_run_mode]
        split
        · exact hdisabled
        · rename_i hadmitted
          -- once admitted, setting a mode cannot fail
          have hok : (Op.run gate (.mode a instanceId mode)).result m = true := by
            change result (read >>= fun m => underGate gate (modeRefused m a instanceId mode)
              (lsProgramModeLocked a mode)) m = true
            rw [result_read_bind]
            unfold underGate
            rw [if_neg hadmitted]
            rfl
          rw [hfailed] at hok
          contradiction
    | revoke a instanceId patch =>
        rw [final_run_revoke]
        split
        · exact hdisabled
        · rename_i hadmitted
          simp only [Bool.or_eq_true, Bool.not_eq_true', not_or, Bool.not_eq_true,
            Bool.not_eq_false] at hadmitted
          exact absurd hadmitted hmidway
  · rw [(hsame.published id hzero).2 e he]

/-- A revocation that is past its checks leaves its program's slots disabled, stopped or
not, and no other program's slots. -/
theorem Sound.midway_modes (h : Sound m) (hv : Vacant m) {gate : Bool} {op : Op}
    (hmidway : op.StoppedMidway gate m) {e : Nat} (he : e < lsProgramEntries) :
    (((op.run gate).final m).slots (lsProgramSlot op.id e)).mode = lsModeDisable ∧
      ∀ id, id ≠ op.id → ((op.run gate).final m).slots (lsProgramSlot id e) =
        m.slots (lsProgramSlot id e) := by
  have hapart := apart_run gate op (h.accounts.small op.id)
  refine ⟨?_, fun id hid => hapart.slots id hid e he⟩
  cases op with
  | revoke a instanceId patch =>
      obtain ⟨hrefused, hgate⟩ := hmidway
      have hdisabled := (hv a).disable (h.accounts.small a) he
      change (((Op.run gate (.revoke a instanceId patch)).final m).slots
        (lsProgramSlot a e)).mode = lsModeDisable
      rw [final_run_revoke, hrefused, hgate, if_neg (by decide)]
      exact (tame_revokeRest (givenPatch patch)).disabled hdisabled
  | load a r => exact hmidway.elim
  | attach a instanceId entry patch => exact hmidway.elim
  | detach a instanceId entry patch => exact hmidway.elim
  | mode a instanceId mode => exact hmidway.elim

/-! ## What a program holds -/

/-- The entries of a program have a property. -/
def HeldOf (Q : LsProgramEntry → Prop) (m : Manager) (id : Nat) : Prop :=
  ∀ e < (m.programs id).count, Q ((m.programs id).entries e)

/-- The entries that an operation brings and that pass the checks of a load have a property. -/
def Op.Brings (Q : LsProgramEntry → Prop) : Op → Prop
  | .load _ r => ∀ e < r.count, entryValid (r.entries.getD (fun _ => .zero) e) = true →
      Q (r.entries.getD (fun _ => .zero) e)
  | _ => True

/-- The entries of a program have passed the checks of a load. -/
def EnteredOf (m : Manager) (id : Nat) : Prop :=
  ∀ e < (m.programs id).count, entryValid ((m.programs id).entries e) = true

def Entered (m : Manager) : Prop := ∀ id, EnteredOf m id

variable {Q : LsProgramEntry → Prop}

theorem held_initial (session : UInt64) (id : Nat) : HeldOf Q (.initial session) id := by
  intro e he
  exact absurd he (Nat.not_lt_zero e)

theorem HeldOf.congr (h : HeldOf Q m id)
    (hcount : (m'.programs id).count ≤ (m.programs id).count)
    (hentries : (m'.programs id).entries = (m.programs id).entries) : HeldOf Q m' id := by
  intro e he
  rw [hentries]
  exact h e (lt_of_lt_of_le he hcount)

/-- A round that succeeds records its entry and leaves the others. -/
theorem prepareEntry_entries {r : LoadRequest}
    (hok : (prepareEntry id r entry).result m = true) :
    (((prepareEntry id r entry).final m).programs id).entries =
      Function.update (m.programs id).entries entry
        (r.entries.getD (fun _ => .zero) entry) := by
  unfold prepareEntry at hok ⊢
  cases houtcome : r.prepare entry with
  | refused => simp [houtcome, lsVmPrepareSlot] at hok
  | failed safeValue shapes => simp [houtcome, lsVmPrepareSlot] at hok
  | ready safeValue shapes => simp [lsVmPrepareSlot, clearSlot, recordShapes]

/-- A loop that came to its end has recorded every entry. -/
theorem prepareEntries_entries (r : LoadRequest) :
    ∀ left made (m : Manager),
      (∀ e < made, (m.programs id).entries e = r.entries.getD (fun _ => .zero) e) →
      (prepareEntries id r left made).result m = made + left →
      ∀ e < made + left, (((prepareEntries id r left made).final m).programs id).entries e =
        r.entries.getD (fun _ => .zero) e := by
  intro left
  induction left with
  | zero =>
      intro made m hmade _ e he
      exact hmade e he
  | succ left ih =>
      intro made m hmade hresult
      unfold prepareEntries at hresult ⊢
      rw [result_bind, result_ite] at hresult
      rw [final_bind, final_ite]
      split at hresult
      · rename_i hok
        rw [if_pos hok]
        have hall : ∀ e < made + 1, (((prepareEntry id r made).final m).programs id).entries e =
            r.entries.getD (fun _ => .zero) e := by
          intro e he
          rw [prepareEntry_entries hok]
          by_cases heq : e = made
          · rw [heq, Function.update_self]
          · rw [Function.update_of_ne heq]
            exact hmade e (by omega)
        have hrest := ih (made + 1) _ hall (by omega)
        intro e he
        exact hrest e (by omega)
      · rw [result_pure] at hresult
        omega

theorem HeldOf.of_quiet (h : Sound m) (hzero : (m.programs id).instanceId = 0)
    (hquiet : Quiet id m m') : HeldOf Q m' id := by
  intro e he
  rw [hquiet.count, ((h.accounts.programs id).idle hzero).1] at he
  exact absurd he (Nat.not_lt_zero e)

/-- A load that is published has recorded entries that pass its checks. -/
theorem lsProgramLoadPrepare_entries {r : LoadRequest} {plan : LoadPlan}
    (hbrings : (Op.load id r).Brings Q) (hplan : (lsProgramLoadPrepare id r).result m = some plan)
    (hmade : plan.made = r.count) :
    ∀ e < r.count, Q ((((lsProgramLoadPrepare id r).final m).programs id).entries e) := by
  rcases lsProgramLoadPrepare_cases m id r with ⟨hnone, _⟩ | ⟨hnot, _, hsome, hfinal⟩
  · rw [hplan] at hnone
    contradiction
  · rw [hplan, Option.some.injEq] at hsome
    have hresult : (prepareEntries id r r.count 0).result ((openBank id).final m) =
        0 + r.count := by
      rw [Nat.zero_add]
      exact (congrArg LoadPlan.made hsome).symm.trans hmade
    have hentries := prepareEntries_entries r r.count 0 ((openBank id).final m)
      (fun e he => absurd he (Nat.not_lt_zero e)) hresult
    have hvalid : entriesValid (r.entries.getD fun _ => .zero) r.count = true := by
      simp only [loadRefused, Bool.or_eq_true, not_or, Bool.not_eq_true', Bool.not_eq_false]
        at hnot
      exact hnot.2
    intro e he
    rw [hfinal, hentries e (by omega)]
    have hentry := List.all_eq_true.mp hvalid e (List.mem_range.mpr he)
    rw [Bool.and_eq_true] at hentry
    exact hbrings e he hentry.1

theorem HeldOf.load (hv : HeldOf Q m id) (h : Sound m) (gate : Bool) {r : LoadRequest}
    (hbrings : (Op.load id r).Brings Q) : HeldOf Q ((Op.run gate (.load id r)).final m) id := by
  by_cases hzero : (m.programs id).instanceId = 0
  · obtain ⟨hsound, hquiet⟩ := h.quiet (@emits_lsProgramLoadPrepare id r) hzero
    have hzero' := hquiet.instanceId.trans hzero
    rcases run_cases m gate (.load id r) with ⟨_, _, hfinal⟩ | ⟨plan, hplan, hcases⟩
    · rw [hfinal]
      exact .of_quiet h hzero hquiet
    · obtain ⟨_, _, _, hmade, hcount⟩ := lsProgramLoadPrepare_result hplan
      have hundone : HeldOf Q ((Op.after (.load id r) plan).final
          ((lsProgramLoadPrepare id r).final m)) id :=
        .of_quiet hsound hzero'
          (hsound.quiet (emits_lsProgramLoadRollback (hmade.trans hcount)) hzero').2
      rcases hcases with ⟨hasks, _, hresult, ⟨hok, hfinal⟩ | ⟨hfailed, hfinal⟩⟩ | ⟨_, _, hfinal⟩
      · rw [hfinal]
        change HeldOf Q ((lsProgramLoadPublish id r plan.instanceId).final
          ((lsProgramLoadPrepare id r).final m)) id
        have hentries := lsProgramLoadPrepare_entries hbrings hplan (by simpa [Op.asks] using hasks)
        rcases lsProgramLoadPublish_cases ((lsProgramLoadPrepare id r).final m) id r
            plan.instanceId with ⟨_, hpublish⟩ | ⟨_, hpublish⟩
        · rw [hpublish]
          exact .of_quiet h hzero hquiet
        · rw [hpublish]
          intro e he
          simp only [Function.update_self] at he ⊢
          exact hentries e he
      · have hlocked : (Op.locked (.load id r) plan).final ((Op.before (.load id r)).final m) =
            (Op.before (.load id r)).final m :=
          hsound.locked_failed (hresult.trans hfailed) (by simp)
        rw [hfinal, hlocked]
        exact hundone
      · rw [hfinal]
        exact hundone
  · rw [run_load_published gate r hzero]
    exact hv

/-- A revocation forgets its program or leaves its entries. -/
theorem revokeRest_entries (m : Manager) (id : Nat) (patch : Patch) :
    (((revokeRest id patch).final m).programs id).count ≤ (m.programs id).count ∧
      (((revokeRest id patch).final m).programs id).entries = (m.programs id).entries := by
  have hkept : ∀ s : Manager, s = (whileOk (detachLinked id patch)
      (List.range (m.programs id).count)).final m →
      (s.programs id).count = (m.programs id).count ∧
        (s.programs id).entries = (m.programs id).entries := by
    rintro s rfl
    apply whileOk_invariant (P := fun s : Manager =>
      (s.programs id).count = (m.programs id).count ∧
        (s.programs id).entries = (m.programs id).entries)
    · intro e _ s hs
      unfold detachLinked
      rw [final_read_bind, final_ite]
      split
      · obtain ⟨hcount, hentries, _⟩ := detachLocked_entries s id e patch
        exact ⟨hcount.trans hs.1, hentries.trans hs.2⟩
      · exact hs
    · exact ⟨rfl, rfl⟩
  obtain ⟨hcount, hentries⟩ := hkept _ rfl
  unfold revokeRest
  rw [final_read_bind, final_bind, final_ite]
  split
  · rcases releaseProgram_cases ((whileOk (detachLinked id patch)
        (List.range (m.programs id).count)).final m) id with ⟨_, hfinal⟩ | ⟨_, hprograms, _, _⟩
    · rw [hfinal]
      exact ⟨hcount.le, hentries⟩
    · rw [hprograms, Function.update_self]
      exact ⟨Nat.zero_le _, hentries⟩
  · exact ⟨hcount.le, hentries⟩

theorem setMode_entries (m : Manager) (id mode : Nat) :
    (((setMode id mode).final m).programs id).count = (m.programs id).count ∧
      (((setMode id mode).final m).programs id).entries = (m.programs id).entries := by
  rw [(remoded_setMode m id mode).program, Function.update_self]
  exact ⟨rfl, rfl⟩

/-- A whole operation brings entries of its load, or none. -/
theorem HeldOf.run (hv : ∀ id, HeldOf Q m id) (h : Sound m) (gate : Bool) {op : Op}
    (hbrings : op.Brings Q) (b : Nat) : HeldOf Q ((op.run gate).final m) b := by
  by_cases hb : b = op.id
  · rw [hb]
    cases op with
    | load id r => exact (hv id).load h gate hbrings
    | attach id instanceId entry patch =>
        change HeldOf Q _ id
        rw [final_run_attach]
        split
        · exact hv id
        · obtain ⟨hcount, hentries, _⟩ := attachLocked_entries h id entry (givenPatch patch)
          exact (hv id).congr hcount.le hentries
    | detach id instanceId entry patch =>
        change HeldOf Q _ id
        rw [final_run_detach]
        split
        · exact hv id
        · obtain ⟨hcount, hentries, _⟩ := detachLocked_entries m id entry (givenPatch patch)
          exact (hv id).congr hcount.le hentries
    | mode id instanceId mode =>
        change HeldOf Q _ id
        rw [final_run_mode]
        split
        · exact hv id
        · obtain ⟨hcount, hentries⟩ := setMode_entries m id mode
          exact (hv id).congr hcount.le hentries
    | revoke id instanceId patch =>
        change HeldOf Q _ id
        rw [final_run_revoke]
        split
        · exact hv id
        · obtain ⟨hcount, hentries⟩ := setMode_entries m id lsModeDisable
          obtain ⟨hcount', hentries'⟩ := revokeRest_entries
            ((setMode id lsModeDisable).final m) id (givenPatch patch)
          exact (hv id).congr (hcount'.trans hcount.le) (hentries'.trans hentries)
  · have hapart := apart_run gate op (h.accounts.small op.id)
    intro e he
    rw [hapart.programs b hb] at he ⊢
    exact hv b e he

theorem entered_initial (session : UInt64) : Entered (.initial session) :=
  fun id => held_initial (Q := fun e => entryValid e = true) session id

theorem Entered.run (hv : Entered m) (h : Sound m) (gate : Bool) (op : Op) :
    Entered ((op.run gate).final m) := by
  refine fun b => HeldOf.run (Q := fun e => entryValid e = true) hv h gate ?_ b
  cases op with
  | load id r => exact fun _ _ hvalid => hvalid
  | attach | detach | mode | revoke => trivial

/-! ## Another configuration -/

theorem Accounts.withConfig (h : Accounts m) (c : LsConfigStore) :
    Accounts { m with config := c } := by
  constructor
  · intro id
    have hok := h.programs id
    exact ⟨hok.outside, hok.idle, hok.bounded, hok.modes, hok.ceiling, hok.agrees⟩
  · exact ⟨h.sites.users, h.sites.inRange, h.sites.apart, h.sites.text, h.sites.owned⟩

/-- The legacy path writes the configuration store, on which nothing else depends. -/
theorem Sound.withConfig (h : Sound m) (c : LsConfigStore) : Sound { m with config := c } := by
  refine ⟨h.accounts.withConfig c, ?_⟩
  exact ⟨⟨h.vms.table.created, h.vms.table.apart, h.vms.table.freed⟩, h.vms.all⟩

end Program
end LiveSurface
