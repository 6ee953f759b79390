import LiveSurface.Control.Ceiling
import LiveSurface.Map.Storage

/-!
# Loads that are refused

A load prepares its program where the data path does not look, and everything that can fail
happens there.  A load that is refused leaves the slots that hold programs, the images of
the configuration and the targets as they were.

Two things it may leave behind.  uBPF relocates the references of an object to its maps
before it reports that the object cannot be loaded, and relocation enters the maps into the
shared registry; nothing takes the entries out again.  And a load takes the number of its
instance before the program is prepared.

Main results:

- Theorem {lit}`ServerOk.registry_unchanged_iff`: a refused load leaves the registry exactly
  when it has not come to uBPF or has no new map.
- Theorem {lit}`refused_load_unseen`: when a refused load cannot be seen by a later one.
-/

namespace LiveSurface
namespace Control

open Config StoreProgram Vm

variable {s s' : Server} {r : Load}

/-! ## What a refused load leaves -/

/-- How a load can be refused. -/
theorem ServerOk.load_refused (h : ServerOk s) (hrefused : (s.load r).1 = false) :
    s.checkLoad r = none ∧ (s.load r).2 = s ∨
    (s.checkLoad r).isSome = true ∧ s.exhausted r.epoch ∧
      (s.load r).2 = s.withConfig (lsConfigNewInstance s.config r.epoch).2 ∨
    (s.checkLoad r).isSome = true ∧ ¬ s.exhausted r.epoch ∧
      (s.vmReload r).result s.table = false ∧
      (s.load r).2 = { s.withConfig (lsConfigNewInstance s.config r.epoch).2 with
        table := (s.vmReload r).final s.table } := by
  unfold Server.load at hrefused ⊢
  cases hcheck : s.checkLoad r with
  | none => exact .inl ⟨rfl, rfl⟩
  | some target =>
      rw [hcheck] at hrefused
      dsimp only at hrefused ⊢
      rcases h.reload_cases r target with
        ⟨hexhausted, hends⟩ | ⟨hleft, ⟨hresult, hends⟩ | ⟨_, _, _, hends⟩⟩
      · rw [hends]
        exact .inr (.inl ⟨rfl, hexhausted, rfl⟩)
      · rw [hends]
        exact .inr (.inr ⟨rfl, hleft, hresult, rfl⟩)
      · rw [hends] at hrefused
        contradiction

/-- Everything but the registry and the number of the next instance. -/
structure Unaffected (s s' : Server) : Prop where
  slots : ∀ k, Abandoned (s.table.slots k) (s'.table.slots k)
  ready : s'.table.ready = s.table.ready
  config : s'.config.slots = s.config.slots
  targets : s'.targets = s.targets
  buildId : s'.buildId = s.buildId

theorem lsVmReload_ready (slot : Nat) (o : Object) (loading : UInt64) (mode : Nat)
    (t : SlotTable) : ((lsVmReload slot o loading mode).final t).ready = t.ready := by
  rcases lsVmReload_cases slot o loading mode t with
    ⟨_, _, _, _, _, hready, _⟩ | ⟨_, _, _, hready, _⟩
  · exact hready
  · exact hready

theorem ServerOk.load_unaffected (h : ServerOk s) (hrefused : (s.load r).1 = false) :
    Unaffected s (s.load r).2 := by
  have hslots := Program.lsConfigNewInstance_slots s.config r.epoch
  rcases h.load_refused hrefused with
    ⟨_, hends⟩ | ⟨_, _, hends⟩ | ⟨_, _, hresult, hends⟩
  · rw [hends]
    exact ⟨fun _ => .refl _, rfl, rfl, rfl, rfl⟩
  · rw [hends]
    exact ⟨fun _ => .refl _, rfl, hslots, rfl, rfl⟩
  · rw [hends]
    exact ⟨lsVmReload_refused hresult, lsVmReload_ready .., hslots, rfl, rfl⟩

theorem Unaffected.armed (h : Unaffected s s') {k : Nat} (hk : (s.table.slots k).armed = true) :
    s'.table.slots k = s.table.slots k := by
  rcases (h.slots k).unused with hsame | hempty
  · exact hsame
  · rw [hk] at hempty
    contradiction

theorem Unaffected.spareSlot (h : Unaffected s s') : spareSlot s'.table = spareSlot s.table := by
  unfold Vm.spareSlot
  congr 1
  funext k
  rw [(h.slots k).armed]

theorem Unaffected.checkLoad (h : Unaffected s s') (r : Load) : s'.checkLoad r = s.checkLoad r := by
  unfold Server.checkLoad Server.contract
  rw [h.targets, h.buildId]

/-! ## The registry -/

/-- The object of the load comes to uBPF. -/
def Server.Consults (s : Server) (r : Load) : Prop :=
  (s.checkLoad r).isSome = true ∧ ¬ s.exhausted r.epoch ∧ s.table.ready = true ∧
    (spareSlot s.table).isSome = true ∧
    r.object.reaches (lsConfigNewInstance s.config r.epoch).1 r.mode = true ∧
    r.object.consulted = true

/-- The load comes to uBPF with a map that the registry does not have. -/
def Server.EntersMap (s : Server) (r : Load) : Prop :=
  s.Consults r ∧ ∃ x ∈ r.object.references, s.table.registry.Enters x

theorem checkLoad_epoch (hcheck : (s.checkLoad r).isSome = true) : r.epoch < lsLegacySlots := by
  unfold Server.checkLoad at hcheck
  by_contra hge
  rw [if_pos (.inl (Nat.le_of_not_lt hge))] at hcheck
  contradiction

theorem ServerOk.registry_unchanged_iff (h : ServerOk s) (hrefused : (s.load r).1 = false) :
    (s.load r).2.table.registry = s.table.registry ↔ ¬ s.EntersMap r := by
  unfold Server.EntersMap Server.Consults
  rcases h.load_refused hrefused with
    ⟨hcheck, hends⟩ | ⟨_, hexhausted, hends⟩ | ⟨hcheck, hleft, _, hends⟩
  · rw [hends, hcheck]
    simp
  · rw [hends]
    simp [hexhausted, Server.withConfig]
  · have hregistry := lsVmReload_registry r.epoch r.object (lsConfigNewInstance s.config r.epoch).1
      r.mode s.table
    rw [hends]
    change ((s.vmReload r).final s.table).registry = _ ↔ _
    unfold Server.vmReload
    rw [hregistry]
    split
    · rename_i hconsults
      simp only [Bool.and_eq_true, decide_eq_true_eq] at hconsults
      obtain ⟨⟨⟨_, hready⟩, hspare⟩, hreaches, hconsulted⟩ := hconsults
      rw [relocatedRegistry_eq_iff]
      simp [hcheck, hleft, hready, hspare, hreaches, hconsulted]
    · rename_i hconsults
      simp only [true_iff]
      rintro ⟨⟨_, _, hready, hspare, hreaches, hconsulted⟩, _⟩
      apply hconsults
      simp [checkLoad_epoch hcheck, hready, hspare, hreaches, hconsulted]

/-! ## Later loads -/

theorem ServerOk.load_accepted_iff (h : ServerOk s) (r : Load) :
    (s.load r).1 = true ↔ (s.checkLoad r).isSome = true ∧ ¬ s.exhausted r.epoch ∧
      accepted s.table r.epoch r.object (lsConfigNewInstance s.config r.epoch).1 r.mode = true := by
  rw [← lsVmReload_result]
  change _ ↔ _ ∧ _ ∧ (s.vmReload r).result s.table = true
  unfold Server.load
  cases s.checkLoad r with
  | none => simp
  | some target =>
      dsimp only
      rcases h.reload_cases r target with
        ⟨hexhausted, hends⟩ | ⟨hleft, ⟨hresult, hends⟩ | ⟨hresult, _, _, hends⟩⟩
      · simp [hends, hexhausted]
      · simp [hends, hleft, hresult]
      · simp [hends, hleft, hresult]

theorem reaches_instance {o : Object} {loading loading' : UInt64} {mode : Nat} (h : loading ≠ 0)
    (h' : loading' ≠ 0) : o.reaches loading mode = o.reaches loading' mode := by
  unfold Object.reaches
  rw [beq_eq_false_iff_ne.mpr h, beq_eq_false_iff_ne.mpr h']

theorem builds_instance {o : Object} {g : Map.Registry} {loading loading' : UInt64}
    (h : isHandle loading = isHandle loading') : o.builds g loading = o.builds g loading' := by
  unfold Object.builds
  rw [referencesAccepted_handle h]

/-- A fresh instance carries the bit of a handle. -/
theorem isHandle_newInstance {c : LsConfigStore} {slot : Nat}
    (hset : (lsConfigNewInstance c slot).1 ≠ 0) : isHandle (lsConfigNewInstance c slot).1 = true := by
  have hallowed := bindAllowed_newInstance hset
  simp only [bindAllowed, Bool.and_eq_true] at hallowed
  exact hallowed.1.2

theorem Unaffected.exhausted (h : Unaffected s s') {slot : Nat} (hslot : slot < lsConfigSlots)
    (hnext : (lsConfigHandleBit >>> 6) - 1 ≤ s'.config.nextInstance ↔
      (lsConfigHandleBit >>> 6) - 1 ≤ s.config.nextInstance) :
    s'.exhausted slot ↔ s.exhausted slot := by
  unfold Server.exhausted
  rw [lsConfigNewInstance_eq_zero_iff hslot, lsConfigNewInstance_eq_zero_iff hslot, hnext, h.config]

/-- With the same registry, and numbers for instances left or none left in both, a load is
accepted in both or in none. -/
theorem Unaffected.load (h : Unaffected s s') (hs : ServerOk s) (hs' : ServerOk s')
    (hregistry : s'.table.registry = s.table.registry)
    (hnext : (lsConfigHandleBit >>> 6) - 1 ≤ s'.config.nextInstance ↔
      (lsConfigHandleBit >>> 6) - 1 ≤ s.config.nextInstance) (r : Load) :
    (s'.load r).1 = (s.load r).1 := by
  rw [Bool.eq_iff_iff, hs'.load_accepted_iff, hs.load_accepted_iff, h.checkLoad]
  apply and_congr_right
  intro hcheck
  have hslot : r.epoch < lsConfigSlots := (checkLoad_epoch hcheck).trans (by decide)
  have hexhausted := h.exhausted hslot hnext
  rw [hexhausted]
  apply and_congr_right
  intro hleft
  have hset := (not_or.mp hleft).1
  have hset' := (not_or.mp (hexhausted.not.mpr hleft)).1
  have hhandle := (isHandle_newInstance hset').trans (isHandle_newInstance hset).symm
  unfold accepted
  rw [h.ready, h.spareSlot, hregistry, reaches_instance hset' hset, builds_instance hhandle]

/-- The load takes the last number of an instance. -/
def Server.TakesLast (s : Server) (r : Load) : Prop :=
  (s.checkLoad r).isSome = true ∧ s.config.nextInstance + 1 = (lsConfigHandleBit >>> 6) - 1

/-- A slot is empty, and the configuration of some slot can be written again. -/
def Server.HasRoom (s : Server) : Prop :=
  s.table.ready = true ∧ (spareSlot s.table).isSome = true ∧
    ∃ k < lsLegacySlots, (s.config.slots k).sequence ≤ uint64Max - 2

theorem ServerOk.load_nextInstance (h : ServerOk s) (hrefused : (s.load r).1 = false) :
    (s.load r).2.config.nextInstance =
      if (s.checkLoad r).isSome = true ∧
          ¬ (lsConfigHandleBit >>> 6) - 1 ≤ s.config.nextInstance then s.config.nextInstance + 1
      else s.config.nextInstance := by
  have hfresh : (s.checkLoad r).isSome = true →
      (lsConfigNewInstance s.config r.epoch).2.nextInstance =
        if (lsConfigHandleBit >>> 6) - 1 ≤ s.config.nextInstance then s.config.nextInstance
        else s.config.nextInstance + 1 := by
    intro hcheck
    exact lsConfigNewInstance_nextInstance ((checkLoad_epoch hcheck).trans (by decide))
  rcases h.load_refused hrefused with
    ⟨hcheck, hends⟩ | ⟨hcheck, _, hends⟩ | ⟨hcheck, _, _, hends⟩
  · rw [hends, hcheck]
    simp
  · rw [hends]
    change (lsConfigNewInstance s.config r.epoch).2.nextInstance = _
    simp only [hfresh hcheck, hcheck, true_and, ite_not]
  · rw [hends]
    change (lsConfigNewInstance s.config r.epoch).2.nextInstance = _
    simp only [hfresh hcheck, hcheck, true_and, ite_not]

/-! ## A load that is accepted -/

/-- A load of a program without maps, signed for a target. -/
def bareLoad (epoch : Nat) (sectionName hook : List UInt8) (target : LsTarget) : Load where
  epoch := epoch
  mode := lsModeDisable
  binding := { hook := hook, modeCeiling := lsModeDisable, progSha256 := [] }
  object := { plainObject 0 with sectionName := sectionName }
  record := some target
  authorized := true
  inFile := true

theorem checkLoad_bareLoad {epoch : Nat} {sectionName hook : List UInt8} {target : LsTarget}
    (hepoch : epoch < lsLegacySlots) (hhook : hook.contains 0 = true)
    (htarget : target.wellFormed sectionName s.buildId = true)
    (hattached : (s.targets epoch).attached = true → target = (s.targets epoch).target ∧
      hook = (s.targets epoch).hook) :
    s.checkLoad (bareLoad epoch sectionName hook target) = some target := by
  have hshields : ¬ epoch ≥ shieldMaxShields := Nat.not_le.mpr (hepoch.trans (by decide))
  have hmem : (0 : UInt8) ∈ hook := List.contains_iff_mem.mp hhook
  have hcontract : s.contract (bareLoad epoch sectionName hook target) = some target := by
    simp [Server.contract, bareLoad, lsTargetParse, hshields, hmem, htarget, lsModeDisable]
  have hsnapshot : snapshotRefused (bareLoad epoch sectionName hook target) target = false := by
    simp [snapshotRefused, bareLoad, lsModeDisable]
  have hsame : (s.targets epoch).mismatches (bareLoad epoch sectionName hook target) target =
      false := by
    unfold SignedTarget.mismatches
    cases hrow : (s.targets epoch).attached with
    | false => rfl
    | true =>
        obtain ⟨htarget', hhook'⟩ := hattached hrow
        simp [bareLoad, htarget', hhook']
  have hpass : ¬ ((bareLoad epoch sectionName hook target).epoch ≥ lsLegacySlots ∨
      (!(bareLoad epoch sectionName hook target).authorized) = true) := by
    rintro (hge | hunsigned)
    · exact Nat.not_le.mpr hepoch hge
    · contradiction
  unfold Server.checkLoad
  rw [if_neg hpass, hcontract]
  refine Option.filter_eq_some_iff.mpr ⟨rfl, ?_⟩
  rw [hsnapshot]
  change (true && !(s.targets epoch).mismatches _ target) = true
  rw [hsame]
  rfl

/-- As long as there is room and a number for an instance, some load is accepted. -/
theorem ServerOk.exists_accepted (h : ServerOk s) (hroom : s.HasRoom)
    (hnext : s.config.nextInstance < (lsConfigHandleBit >>> 6) - 1) : ∃ r, (s.load r).1 = true := by
  obtain ⟨hready, hspare, k, hk, hsequence⟩ := hroom
  have hslot : k < lsConfigSlots := hk.trans (by decide)
  have hset : (lsConfigNewInstance s.config k).1 ≠ 0 :=
    (lsConfigNewInstance_eq_zero_iff hslot).not.mpr (Nat.not_le.mpr hnext)
  have haccepted : ∀ sectionName hook target,
      s.checkLoad (bareLoad k sectionName hook target) = some target →
      (s.load (bareLoad k sectionName hook target)).1 = true := by
    intro sectionName hook target hcheck
    apply (h.load_accepted_iff _).mpr
    refine ⟨by rw [hcheck]; rfl, not_or.mpr ⟨hset, Nat.not_lt.mpr hsequence⟩, ?_⟩
    simp [accepted, bareLoad, hk, hready, hspare, Object.reaches, plainObject, hset, Object.builds,
      Object.consulted, referencesAccepted, lsModeDisable, lsModeMonitor]
  by_cases hvalid : (s.targets k).valid = true
  · -- load once more what the slot was loaded with
    obtain ⟨_, harmed⟩ := (h.paired k).valid hvalid
    obtain ⟨_, _, _, _, has⟩ := (h.paired k).admitted harmed
    obtain ⟨sectionName, hwellFormed⟩ := has.wellFormed
    exact ⟨_, haccepted _ _ _ (checkLoad_bareLoad hk has.terminated hwellFormed
      fun _ => ⟨rfl, rfl⟩)⟩
  · have hwellFormed : LsTarget.wellFormed { plainTarget 1 with buildId := s.buildId }
        (plainObject 0).sectionName s.buildId = true := by
      simp only [LsTarget.wellFormed, beq_self_eq_true]
      rfl
    refine ⟨_, haccepted _ [0] _ (checkLoad_bareLoad hk rfl hwellFormed ?_)⟩
    intro hattached
    exact absurd (h.attached k hattached).valid hvalid

/-- A load is accepted only where there is room. -/
theorem ServerOk.room_of_accepted (h : ServerOk s) (haccepted : (s.load r).1 = true) :
    s.HasRoom := by
  obtain ⟨_, hleft, htable⟩ := (h.load_accepted_iff r).mp haccepted
  simp only [accepted, Bool.and_eq_true, decide_eq_true_eq] at htable
  obtain ⟨⟨⟨hslot, hready⟩, hspare⟩, _⟩ := htable
  exact ⟨hready, hspare, r.epoch, hslot, Nat.le_of_not_lt (not_or.mp hleft).2⟩

theorem Unaffected.hasRoom (h : Unaffected s s') (hroom : s'.HasRoom) : s.HasRoom := by
  obtain ⟨hready, hspare, k, hk, hsequence⟩ := hroom
  rw [h.ready] at hready
  rw [h.spareSlot] at hspare
  rw [h.config] at hsequence
  exact ⟨hready, hspare, k, hk, hsequence⟩

/-! ## Every refusal -/

/-- Nothing a later load or a running program can see has changed. -/
structure Unseen (s s' : Server) : Prop where
  slots : ∀ k, (s.table.slots k).armed = true → s'.table.slots k = s.table.slots k
  armed : ∀ k, (s'.table.slots k).armed = (s.table.slots k).armed
  config : s'.config.slots = s.config.slots
  targets : s'.targets = s.targets
  registry : s'.table.registry = s.table.registry

theorem Unaffected.unseen (h : Unaffected s s')
    (hregistry : s'.table.registry = s.table.registry) : Unseen s s' := by
  refine ⟨?_, ?_, h.config, h.targets, hregistry⟩
  · intro k hk
    exact h.armed hk
  · intro k
    exact (h.slots k).armed

/-- Later loads are answered as before, unless the refused load has taken the last number
of an instance from one that could still be accepted. -/
theorem ServerOk.later_loads (h : ServerOk s) (hrefused : (s.load r).1 = false)
    (hregistry : (s.load r).2.table.registry = s.table.registry)
    (hlast : ¬ (s.TakesLast r ∧ s.HasRoom)) (r' : Load) :
    ((s.load r).2.load r').1 = (s.load r').1 := by
  have hunaffected := h.load_unaffected hrefused
  by_cases htakes : s.TakesLast r
  · -- there is no room, before and after
    have hfull : ¬ s.HasRoom := fun hroom => hlast ⟨htakes, hroom⟩
    have hno : (s.load r').1 = false :=
      Bool.eq_false_iff.mpr fun haccepted => hfull (h.room_of_accepted haccepted)
    have hno' : ((s.load r).2.load r').1 = false :=
      Bool.eq_false_iff.mpr fun haccepted =>
        hfull (hunaffected.hasRoom ((h.load r).room_of_accepted haccepted))
    rw [hno, hno']
  · apply hunaffected.load h (h.load r) hregistry
    rw [h.load_nextInstance hrefused]
    split
    · rename_i htaken
      have hne : s.config.nextInstance + 1 ≠ (lsConfigHandleBit >>> 6) - 1 :=
        fun heq => htakes ⟨htaken.1, heq⟩
      omega
    · exact Iff.rfl

theorem ServerOk.later_load_refused (h : ServerOk s) (hrefused : (s.load r).1 = false)
    (htakes : s.TakesLast r) (r' : Load) : ((s.load r).2.load r').1 = false := by
  apply Bool.eq_false_iff.mpr
  intro haccepted
  obtain ⟨hcheck, hleft, _⟩ := ((h.load r).load_accepted_iff r').mp haccepted
  have hslot : r'.epoch < lsConfigSlots := (checkLoad_epoch hcheck).trans (by decide)
  have hset := (lsConfigNewInstance_eq_zero_iff hslot).not.mp (not_or.mp hleft).1
  have hnext := h.load_nextInstance hrefused
  have hlast := htakes.2
  rw [if_pos ⟨htakes.1, by omega⟩] at hnext
  omega

/-- A load of an object with these references; {lit}`jit` tells how its JIT ends. -/
def mapLoad (references : List Map.Relocation) (jit : Option Bool) : Load :=
  { plainLoad 0 4096 2 2 with
    object := { plainObject 5 with references := references, jit := jit } }

end Control
end LiveSurface
