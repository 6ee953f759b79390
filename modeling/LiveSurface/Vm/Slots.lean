import LiveSurface.Library.Machine
import LiveSurface.Library.StoreProgram
import LiveSurface.Map.Registry

/-!
# Legacy VM slots

Twelve slots hold programs that are loaded one at a time.  A load prepares its
program in a spare slot and then publishes it over the slot it is meant for, field
by field, in an order that the callers of the slot rely on.

Like the operations of the program manager, these functions emit single stores.
What the code cannot decide itself is part of the object that is loaded: whether
uBPF accepts it, which maps it refers to, how the JIT ends.  A store of a slot
computes its value when it is made, from the table as it then is.

VMs are numbered in the order of their creation; the code a VM is compiled to has
the VM's number.

Main results:

- Theorem {lit}`lsVmPrepareSlot_cases`: what the preparation of a slot leaves.
- Theorem {lit}`lsVmReload_cases`: what a load leaves.
- Theorem {lit}`slotMachine_ok`: what holds of the table between operations.
-/

namespace LiveSurface
namespace Vm

open StoreProgram Config

/-! ## The table -/

def lsLegacySlots : Nat := 12
def lsModeDisable : Nat := 0
def lsModeMonitor : Nat := 1
def lsModeEnforce : Nat := 2

structure LsSnapshotId where
  instanceId : UInt64
  epoch : UInt64
deriving DecidableEq

/-- A legacy slot.  Its counters and samples are left out. -/
structure LsSlot where
  vm : Option Nat
  jitFn : Option Nat
  mode : Nat
  armed : Bool
  isExit : Bool
  isSnapshot : Bool
  snapshotId : LsSnapshotId
  safeValue : UInt64
  gen : Nat
deriving DecidableEq

def LsSlot.zero : LsSlot where
  vm := none
  jitFn := none
  mode := lsModeDisable
  armed := false
  isExit := false
  isSnapshot := false
  snapshotId := { instanceId := 0, epoch := 0 }
  safeValue := 0
  gen := 0

/-- The slots, the shared registry of maps, and the next VM. -/
structure SlotTable where
  ready : Bool
  slots : Nat → LsSlot
  registry : Map.Registry
  loadError : Bool
  nextVm : Nat

def SlotTable.initial : SlotTable where
  ready := true
  slots _ := .zero
  registry := .zero
  loadError := false
  nextVm := 0

def SlotTable.withSlot (t : SlotTable) (k : Nat) (s : LsSlot) : SlotTable :=
  { t with slots := Function.update t.slots k s }

@[simp]
theorem withSlot_slots (t : SlotTable) (k : Nat) (s : LsSlot) :
    (t.withSlot k s).slots = Function.update t.slots k s := rfl

@[simp]
theorem withSlot_ready (t : SlotTable) (k : Nat) (s : LsSlot) :
    (t.withSlot k s).ready = t.ready := rfl

@[simp]
theorem withSlot_registry (t : SlotTable) (k : Nat) (s : LsSlot) :
    (t.withSlot k s).registry = t.registry := rfl

@[simp]
theorem withSlot_nextVm (t : SlotTable) (k : Nat) (s : LsSlot) :
    (t.withSlot k s).nextVm = t.nextVm := rfl

@[simp]
theorem withSlot_withSlot (t : SlotTable) (k : Nat) (s s' : LsSlot) :
    (t.withSlot k s).withSlot k s' = t.withSlot k s' := by
  simp [SlotTable.withSlot]

inductive SlotStore
  | slot (k : Nat) (f : (Nat → LsSlot) → LsSlot)
  | registry (g : Map.Registry)
  | loadError (value : Bool)
  /-- {lit}`ubpf_create`. -/
  | created

def SlotTable.store (t : SlotTable) : SlotStore → SlotTable
  | .slot k f => t.withSlot k (f t.slots)
  | .registry g => { t with registry := g }
  | .loadError value => { t with loadError := value }
  | .created => { t with nextVm := t.nextVm + 1 }

instance : Stores SlotTable SlotStore where
  store := SlotTable.store

@[simp]
theorem store_slot (t : SlotTable) (k : Nat) (f : (Nat → LsSlot) → LsSlot) :
    Stores.store t (.slot k f) = t.withSlot k (f t.slots) := rfl

@[simp]
theorem store_registry (t : SlotTable) (g : Map.Registry) :
    Stores.store t (.registry g) = { t with registry := g } := rfl

@[simp]
theorem store_loadError (t : SlotTable) (value : Bool) :
    Stores.store t (.loadError value) = { t with loadError := value } := rfl

@[simp]
theorem store_created (t : SlotTable) :
    Stores.store t .created = { t with nextVm := t.nextVm + 1 } := rfl

abbrev Ctl := StoreProgram SlotTable SlotStore

/-- A store to one slot that looks at nothing else. -/
def storeTo (k : Nat) (f : LsSlot → LsSlot) : Ctl Unit := write (.slot k fun slots => f (slots k))

@[simp]
theorem final_storeTo (k : Nat) (f : LsSlot → LsSlot) (t : SlotTable) :
    (storeTo k f).final t = t.withSlot k (f (t.slots k)) := rfl

/-! ## Preparing a slot -/

/-- What a load finds in the object it is given, and how the fallible steps of its
preparation end. -/
structure Object where
  sectionName : List UInt8
  /-- {lit}`ls_symbol_is_in_section`. -/
  symbolInSection : Bool
  /-- The configured safe value. -/
  safeValue : UInt64
  created : Bool
  stackRegistered : Bool
  glueInstalled : Bool
  /-- CO-RE relocation succeeds or is not needed. -/
  relocated : Bool
  /-- The map references of the object, in the order uBPF relocates them. -/
  references : List Map.Relocation
  /-- {lit}`ubpf_load_elf_ex` accepts the object. -/
  loaded : Bool
  /-- How the JIT ends, where it is configured. -/
  jit : Option Bool

/-- The bytes of {lit}`fexit/`. -/
def fexitBytes : List UInt8 := [102, 101, 120, 105, 116, 47]

/-- The bytes of {lit}`fexit/snapshot/`. -/
def snapshotBytes : List UInt8 :=
  [102, 101, 120, 105, 116, 47, 115, 110, 97, 112, 115, 104, 111, 116, 47]

def Object.isExit (o : Object) : Bool := fexitBytes.isPrefixOf o.sectionName

def Object.isSnapshot (o : Object) : Bool := snapshotBytes.isPrefixOf o.sectionName

/-- One call of the relocation callback. -/
def relocate (loading : UInt64) (r : Map.Relocation) : Ctl Unit := do
  let t ← read
  let answer := Map.lsMapReloc t.registry { r with handle := loading }
  write (.registry answer.registry)
  write (.loadError (t.loadError || answer.refused))

/-- Everything between the creation of a VM and its going into the slot. -/
def buildVm (o : Object) (loading : UInt64) : Ctl Bool :=
  if o.stackRegistered then do
    write (.loadError false)
    if o.glueInstalled && o.relocated then do
      forEach (relocate loading) o.references
      let t ← read
      pure (o.loaded && !t.loadError && o.jit != some false)
    else pure false
  else pure false

/-- The kind of a program comes from its section. -/
def recordKind (slot : Nat) (o : Object) (loading : UInt64) : Ctl Unit := do
  storeTo slot fun s => { s with isExit := o.isExit }
  storeTo slot fun s => { s with isSnapshot := o.isSnapshot }
  storeTo slot fun s => { s with snapshotId := { s.snapshotId with instanceId := loading } }
  storeTo slot fun s => { s with snapshotId := { s.snapshotId with epoch := 1 } }

/-- The VM goes into its slot. -/
def goLive (slot : Nat) (o : Object) (vm mode : Nat) : Ctl Unit := do
  storeTo slot fun s => { s with jitFn := if o.jit.isSome then some vm else s.jitFn }
  storeTo slot fun s => { s with vm := some vm }
  storeTo slot fun s => { s with mode := mode }
  storeTo slot fun s => { s with armed := true }

/-- The VM is destroyed again. -/
def giveUp (slot : Nat) : Ctl Unit := do
  storeTo slot fun s => { s with jitFn := none }
  storeTo slot fun s => { s with vm := none }

def prepareRefused (t : SlotTable) (slot : Nat) (o : Object) : Bool :=
  !t.ready || (t.slots slot).armed || !o.symbolInSection

/-- Create a VM, build it and put it into its slot. -/
def installVm (slot : Nat) (o : Object) (loading : UInt64) (mode : Nat) : Ctl Bool := do
  let t ← read
  if o.created then
    write .created
    if ← buildVm o loading then
      goLive slot o t.nextVm mode
      pure true
    else
      giveUp slot
      pure false
  else pure false

/-- Prepare a program in a slot. -/
def lsVmPrepareSlot (slot : Nat) (o : Object) (loading : UInt64) (mode : Nat) : Ctl Bool := do
  let t ← read
  if prepareRefused t slot o then pure false
  else
    recordKind slot o loading
    if o.isSnapshot && (loading == 0 || decide (mode > lsModeMonitor)) then pure false
    else
      storeTo slot fun s => { s with safeValue := o.safeValue }
      installVm slot o loading mode

/-- The first slot that holds no program. -/
def spareSlot (t : SlotTable) : Option Nat :=
  (List.range lsLegacySlots).find? fun slot => (t.slots slot).armed == false

/-- Prepare a program in a spare slot; the slot it used. -/
def lsVmArm (o : Object) (loading : UInt64) (mode : Nat) : Ctl (Option Nat) := do
  let t ← read
  match spareSlot t with
  | none => pure none
  | some slot =>
      if ← lsVmPrepareSlot slot o loading mode then pure (some slot)
      else pure none

/-! ## Publishing -/

/-- Publish the staged program over a live slot, and give the staging slot back.
The mode of the staging slot stays. -/
def publish (slot staged mode : Nat) : Ctl Unit := do
  storeTo slot fun s => { s with mode := lsModeDisable }
  storeTo slot fun s => { s with jitFn := none }
  write (.slot slot fun slots => { slots slot with vm := (slots staged).vm })
  write (.slot slot fun slots => { slots slot with jitFn := (slots staged).jitFn })
  storeTo slot fun s => { s with armed := true }
  write (.slot slot fun slots => { slots slot with isExit := (slots staged).isExit })
  write (.slot slot fun slots => { slots slot with isSnapshot := (slots staged).isSnapshot })
  write (.slot slot fun slots => { slots slot with snapshotId := (slots staged).snapshotId })
  storeTo slot fun s => { s with mode := mode }
  write (.slot slot fun slots => { slots slot with safeValue := (slots staged).safeValue })
  storeTo slot fun s => { s with gen := s.gen + 1 }
  storeTo staged fun s => { s with armed := false }
  storeTo staged fun s => { s with vm := none }
  storeTo staged fun s => { s with jitFn := none }

/-- Load a program into a slot; {lit}`false` is a refusal. -/
def lsVmReload (slot : Nat) (o : Object) (loading : UInt64) (mode : Nat) : Ctl Bool := do
  let t ← read
  if slot ≥ lsLegacySlots ∨ t.ready = false then pure false
  else
    match ← lsVmArm o loading mode with
    | none => pure false
    | some staged =>
        if staged = slot then pure true
        else
          publish slot staged mode
          pure true

/-- A snapshot program is only ever observing, and a change of mode ends the
calls that are under way. -/
def clampedMode (s : LsSlot) (mode : Nat) : Nat :=
  if s.isSnapshot ∧ mode > lsModeMonitor then lsModeDisable else mode

def lsVmSetMode (slot mode : Nat) : Ctl Unit := do
  let t ← read
  if slot ≥ lsLegacySlots then pure ()
  else
    if (t.slots slot).isSnapshot ∧ (t.slots slot).snapshotId.epoch ≠ UInt64.ofNat uint64Max then
      storeTo slot fun s =>
        { s with snapshotId := { s.snapshotId with epoch := (t.slots slot).snapshotId.epoch + 1 } }
    else pure ()
    storeTo slot fun s => { s with mode := clampedMode (t.slots slot) mode }

/-! ## What a preparation leaves -/

/-- The registry after every reference of an object has been relocated. -/
def relocatedRegistry (loading : UInt64) (g : Map.Registry) (references : List Map.Relocation) :
    Map.Registry :=
  references.foldl (fun g r => (Map.lsMapReloc g { r with handle := loading }).registry) g

/-- The object is handed to uBPF. -/
def Object.consulted (o : Object) : Bool := o.stackRegistered && (o.glueInstalled && o.relocated)

/-- Two tables with the same slots. -/
def SameSlots (t t' : SlotTable) : Prop :=
  t'.slots = t.slots ∧ t'.ready = t.ready ∧ t'.nextVm = t.nextVm

@[simp]
theorem final_relocate (loading : UInt64) (r : Map.Relocation) (t : SlotTable) :
    (relocate loading r).final t =
      { t with
        registry := (Map.lsMapReloc t.registry { r with handle := loading }).registry
        loadError := t.loadError ||
          (Map.lsMapReloc t.registry { r with handle := loading }).refused } := rfl

theorem relocateAll_registry (loading : UInt64) (references : List Map.Relocation) :
    ∀ t : SlotTable, ((forEach (relocate loading) references).final t).registry =
      relocatedRegistry loading t.registry references := by
  induction references with
  | nil =>
      intro t
      rfl
  | cons r rest ih =>
      intro t
      rw [final_forEach_cons, ih]
      rfl

theorem relocateAll_sameSlots (loading : UInt64) (references : List Map.Relocation)
    (t : SlotTable) : SameSlots t ((forEach (relocate loading) references).final t) := by
  apply forEach_invariant (P := SameSlots t)
  · intro r _ t' h
    exact h
  · exact ⟨rfl, rfl, rfl⟩

theorem buildVm_sameSlots (o : Object) (loading : UInt64) (t : SlotTable) :
    SameSlots t ((buildVm o loading).final t) := by
  unfold buildVm
  simp only [final_ite, final_bind, final_write, final_pure, store_loadError]
  split
  · split
    · exact relocateAll_sameSlots loading o.references { t with loadError := false }
    · exact ⟨rfl, rfl, rfl⟩
  · exact ⟨rfl, rfl, rfl⟩

/-- The registry changes as soon as the object is handed to uBPF, whatever becomes
of it there. -/
theorem buildVm_registry (o : Object) (loading : UInt64) (t : SlotTable) :
    ((buildVm o loading).final t).registry =
      if o.consulted then relocatedRegistry loading t.registry o.references else t.registry := by
  unfold buildVm Object.consulted
  simp only [final_ite, final_bind, final_write, final_pure, store_loadError]
  cases o.stackRegistered with
  | false => rfl
  | true =>
      cases hglue : o.glueInstalled && o.relocated with
      | false => rfl
      | true => exact relocateAll_registry loading o.references { t with loadError := false }

/-- A store to what all slots share. -/
def SlotStore.IsShared : SlotStore → Prop
  | .slot .. => False
  | _ => True

theorem relocate_shared (loading : UInt64) (r : Map.Relocation) :
    Emits (fun _ => True) SlotStore.IsShared (relocate loading r) := by
  apply emits_read
  intro t _
  refine Emits.andThen (emits_write ?_) fun _ => emits_write ?_
  · exact trivial
  · exact trivial

theorem buildVm_shared (o : Object) (loading : UInt64) :
    Emits (fun _ => True) SlotStore.IsShared (buildVm o loading) := by
  unfold buildVm
  apply emits_ite
  · intro _
    refine Emits.andThen (emits_write ?_) ?_
    · exact trivial
    · intro _
      apply emits_ite
      · intro _
        have hall : Emits (fun _ => True) SlotStore.IsShared
            (forEach (relocate loading) o.references) := by
          apply emits_forEach
          · intro _ _ _ _
            trivial
          · intro r _
            exact relocate_shared loading r
        apply hall.andThen
        intro _
        exact emits_read fun _ _ => emits_pure _
      · intro _
        exact emits_pure _
  · intro _
    exact emits_pure _

/-- A slot whose kind has been recorded. -/
def LsSlot.ofKind (s : LsSlot) (o : Object) (loading : UInt64) : LsSlot :=
  { s with
    isExit := o.isExit
    isSnapshot := o.isSnapshot
    snapshotId := { instanceId := loading, epoch := 1 } }

/-- A slot whose kind and safe value have been recorded. -/
def LsSlot.recorded (s : LsSlot) (o : Object) (loading : UInt64) : LsSlot :=
  { s.ofKind o loading with safeValue := o.safeValue }

/-- A slot that holds a VM. -/
def LsSlot.withVm (s : LsSlot) (o : Object) (vm mode : Nat) : LsSlot :=
  { s with
    jitFn := if o.jit.isSome then some vm else s.jitFn
    vm := some vm
    mode := mode
    armed := true }

/-- A slot whose VM is gone. -/
def LsSlot.withoutVm (s : LsSlot) : LsSlot := { s with jitFn := none, vm := none }

/-- A slot that holds the program that was prepared in it. -/
def LsSlot.prepared (s : LsSlot) (o : Object) (loading : UInt64) (vm mode : Nat) : LsSlot :=
  (s.recorded o loading).withVm o vm mode

/-- What a preparation that failed may have done to its slot. -/
structure Abandoned (s s' : LsSlot) : Prop where
  armed : s'.armed = s.armed
  unused : s' = s ∨ s.armed = false
  mode : s'.mode = s.mode
  gen : s'.gen = s.gen
  code : s'.vm = s.vm ∧ s'.jitFn = s.jitFn ∨ s'.vm = none ∧ s'.jitFn = none

theorem Abandoned.refl (s : LsSlot) : Abandoned s s :=
  ⟨rfl, .inl rfl, rfl, rfl, .inl ⟨rfl, rfl⟩⟩

@[simp]
theorem final_recordKind (slot : Nat) (o : Object) (loading : UInt64) (t : SlotTable) :
    (recordKind slot o loading).final t =
      t.withSlot slot ((t.slots slot).ofKind o loading) := by
  simp [recordKind, LsSlot.ofKind]

@[simp]
theorem final_goLive (slot : Nat) (o : Object) (vm mode : Nat) (t : SlotTable) :
    (goLive slot o vm mode).final t = t.withSlot slot ((t.slots slot).withVm o vm mode) := by
  simp [goLive, LsSlot.withVm]

@[simp]
theorem final_giveUp (slot : Nat) (t : SlotTable) :
    (giveUp slot).final t = t.withSlot slot (t.slots slot).withoutVm := by
  simp [giveUp, LsSlot.withoutVm]

/-- How the creation of a VM in a slot ends. -/
theorem installVm_cases (slot : Nat) (o : Object) (loading : UInt64) (mode : Nat)
    (t : SlotTable) :
    ((installVm slot o loading mode).result t = true ∧
      ((installVm slot o loading mode).final t).slots =
        Function.update t.slots slot ((t.slots slot).withVm o t.nextVm mode) ∧
      ((installVm slot o loading mode).final t).ready = t.ready ∧
      ((installVm slot o loading mode).final t).nextVm = t.nextVm + 1) ∨
    ((installVm slot o loading mode).result t = false ∧
      ∃ s, (s = t.slots slot ∨ s = (t.slots slot).withoutVm) ∧
        ((installVm slot o loading mode).final t).slots = Function.update t.slots slot s ∧
        ((installVm slot o loading mode).final t).ready = t.ready ∧
        t.nextVm ≤ ((installVm slot o loading mode).final t).nextVm) := by
  unfold installVm
  rw [final_read_bind, result_read_bind]
  by_cases hcreated : o.created = true
  · rw [if_pos hcreated, final_bind, result_bind, final_write, store_created, final_bind,
      result_bind]
    obtain ⟨hslots, hready, hnext⟩ := buildVm_sameSlots o loading { t with nextVm := t.nextVm + 1 }
    by_cases hbuilt : (buildVm o loading).result { t with nextVm := t.nextVm + 1 } = true
    · rw [if_pos hbuilt, final_bind, result_bind, final_goLive, final_pure, withSlot_slots, hslots]
      exact .inl ⟨rfl, rfl, hready, hnext⟩
    · rw [if_neg hbuilt, final_bind, result_bind, final_giveUp, final_pure, withSlot_slots, hslots]
      exact .inr ⟨rfl, _, .inr rfl, rfl, hready, (Nat.le_succ _).trans hnext.ge⟩
  · rw [if_neg hcreated]
    exact .inr ⟨rfl, _, .inl rfl, (Function.update_eq_self slot t.slots).symm, rfl, le_refl _⟩

/-- How the preparation of a slot ends.  Nothing but the slot itself, the registry
and the number of VMs can change, and a slot that holds a program does not. -/
theorem lsVmPrepareSlot_cases (slot : Nat) (o : Object) (loading : UInt64) (mode : Nat)
    (t : SlotTable) :
    ((lsVmPrepareSlot slot o loading mode).result t = true ∧ (t.slots slot).armed = false ∧
      (o.isSnapshot = true → mode ≤ lsModeMonitor) ∧
      ((lsVmPrepareSlot slot o loading mode).final t).slots =
        Function.update t.slots slot ((t.slots slot).prepared o loading t.nextVm mode) ∧
      ((lsVmPrepareSlot slot o loading mode).final t).ready = t.ready ∧
      ((lsVmPrepareSlot slot o loading mode).final t).nextVm = t.nextVm + 1) ∨
    ((lsVmPrepareSlot slot o loading mode).result t = false ∧
      ∃ s, Abandoned (t.slots slot) s ∧
        ((lsVmPrepareSlot slot o loading mode).final t).slots = Function.update t.slots slot s ∧
        ((lsVmPrepareSlot slot o loading mode).final t).ready = t.ready ∧
        t.nextVm ≤ ((lsVmPrepareSlot slot o loading mode).final t).nextVm) := by
  unfold lsVmPrepareSlot
  rw [final_read_bind, result_read_bind]
  by_cases hrefused : prepareRefused t slot o = true
  · rw [if_pos hrefused]
    exact .inr ⟨rfl, t.slots slot, .refl _, (Function.update_eq_self slot t.slots).symm,
      rfl, le_refl _⟩
  · rw [if_neg hrefused]
    have harmed : (t.slots slot).armed = false := by
      simp only [prepareRefused, Bool.or_eq_true, not_or, Bool.not_eq_true] at hrefused
      exact hrefused.1.2
    rw [final_bind, result_bind, final_recordKind]
    by_cases hsnapshot : (o.isSnapshot && (loading == 0 || decide (mode > lsModeMonitor))) = true
    · rw [if_pos hsnapshot]
      refine .inr ⟨rfl, (t.slots slot).ofKind o loading, ?_, rfl, rfl, le_refl _⟩
      exact ⟨rfl, .inr harmed, rfl, rfl, .inl ⟨rfl, rfl⟩⟩
    · rw [if_neg hsnapshot, final_bind, result_bind, final_storeTo]
      have hmode : o.isSnapshot = true → mode ≤ lsModeMonitor := by
        intro hkind
        simp only [hkind, Bool.true_and, Bool.or_eq_true, decide_eq_true_eq, not_or] at hsnapshot
        exact Nat.le_of_not_lt hsnapshot.2
      have hcases := installVm_cases slot o loading mode
        (t.withSlot slot ((t.slots slot).recorded o loading))
      simp only [withSlot_slots, withSlot_ready, withSlot_nextVm, withSlot_withSlot,
        Function.update_self, Function.update_idem] at hcases ⊢
      rcases hcases with ⟨hresult, hslots, hready, hnext⟩ | ⟨hresult, s, hs, hslots, hready, hnext⟩
      · exact .inl ⟨hresult, harmed, hmode, hslots, hready, hnext⟩
      · refine .inr ⟨hresult, s, ?_, hslots, hready, hnext⟩
        rcases hs with rfl | rfl
        · exact ⟨rfl, .inr harmed, rfl, rfl, .inl ⟨rfl, rfl⟩⟩
        · exact ⟨rfl, .inr harmed, rfl, rfl, .inr ⟨rfl, rfl⟩⟩

/-! ## What a load leaves -/

theorem spareSlot_cases {t : SlotTable} {slot : Nat} (h : spareSlot t = some slot) :
    slot < lsLegacySlots ∧ (t.slots slot).armed = false := by
  constructor
  · exact List.mem_range.mp (List.mem_of_find?_eq_some h)
  · simpa using List.find?_some h

/-- A live slot over which another slot's program has been published. -/
def LsSlot.published (live staged : LsSlot) (mode : Nat) : LsSlot where
  vm := staged.vm
  jitFn := staged.jitFn
  mode := mode
  armed := true
  isExit := staged.isExit
  isSnapshot := staged.isSnapshot
  snapshotId := staged.snapshotId
  safeValue := staged.safeValue
  gen := live.gen + 1

/-- A staging slot that has been given back. -/
def LsSlot.givenBack (s : LsSlot) : LsSlot := { s with armed := false, vm := none, jitFn := none }

theorem final_publish {slot staged : Nat} (hne : staged ≠ slot) (mode : Nat) (t : SlotTable) :
    (publish slot staged mode).final t =
      (t.withSlot slot ((t.slots slot).published (t.slots staged) mode)).withSlot staged
        (t.slots staged).givenBack := by
  simp [publish, LsSlot.published, LsSlot.givenBack, hne]

/-- How a load ends: it is refused, its program is now in the slot, which held
none, or its program has been staged elsewhere and published. -/
theorem lsVmReload_cases (slot : Nat) (o : Object) (loading : UInt64) (mode : Nat)
    (t : SlotTable) :
    ((lsVmReload slot o loading mode).result t = false ∧
      ∃ k s, Abandoned (t.slots k) s ∧
        ((lsVmReload slot o loading mode).final t).slots = Function.update t.slots k s ∧
        ((lsVmReload slot o loading mode).final t).ready = t.ready ∧
        t.nextVm ≤ ((lsVmReload slot o loading mode).final t).nextVm) ∨
    ((lsVmReload slot o loading mode).result t = true ∧ slot < lsLegacySlots ∧
      (o.isSnapshot = true → mode ≤ lsModeMonitor) ∧
      ((lsVmReload slot o loading mode).final t).ready = t.ready ∧
      ((lsVmReload slot o loading mode).final t).nextVm = t.nextVm + 1 ∧
      ∃ staged, spareSlot t = some staged ∧
        (staged = slot ∧ ((lsVmReload slot o loading mode).final t).slots =
          Function.update t.slots slot ((t.slots slot).prepared o loading t.nextVm mode) ∨
        staged ≠ slot ∧ ((lsVmReload slot o loading mode).final t).slots =
          Function.update (Function.update t.slots slot ((t.slots slot).published
            ((t.slots staged).prepared o loading t.nextVm mode) mode)) staged
            ((t.slots staged).prepared o loading t.nextVm mode).givenBack)) := by
  have hsame : ∃ k s, Abandoned (t.slots k) s ∧ t.slots = Function.update t.slots k s ∧
      t.ready = t.ready ∧ t.nextVm ≤ t.nextVm :=
    ⟨slot, _, .refl _, (Function.update_eq_self slot t.slots).symm, rfl, le_refl _⟩
  unfold lsVmReload
  rw [final_read_bind, result_read_bind]
  by_cases hrange : slot ≥ lsLegacySlots ∨ t.ready = false
  · rw [if_pos hrange]
    exact .inl ⟨rfl, hsame⟩
  · rw [if_neg hrange, final_bind, result_bind]
    unfold lsVmArm
    rw [final_read_bind, result_read_bind]
    cases hspare : spareSlot t with
    | none => exact .inl ⟨rfl, hsame⟩
    | some staged =>
        simp only [final_bind, result_bind, final_ite, result_ite]
        rcases lsVmPrepareSlot_cases staged o loading mode t with
          ⟨hresult, harmed, hmode, hslots, hready, hnext⟩ | ⟨hresult, s, hs, hslots, hready, hnext⟩
        · have hslot : slot < lsLegacySlots := by
            by_contra hge
            exact hrange (.inl (Nat.le_of_not_lt hge))
          rw [hresult]
          simp only [if_true, final_pure, result_pure]
          refine .inr ?_
          by_cases hne : staged = slot
          · simp only [if_pos hne, final_pure, result_pure]
            exact ⟨trivial, hslot, hmode, hready, hnext, staged, rfl, .inl ⟨hne, hne ▸ hslots⟩⟩
          · have hpublished := final_publish hne mode ((lsVmPrepareSlot staged o loading mode).final t)
            simp only [if_neg hne, final_bind, result_bind, final_pure, result_pure, hpublished,
              withSlot_slots, withSlot_ready, withSlot_nextVm, hslots, Function.update_self,
              Function.update_of_ne (Ne.symm hne)]
            refine ⟨trivial, hslot, hmode, hready, hnext, staged, rfl, .inr ⟨hne, ?_⟩⟩
            rw [Function.update_comm (Ne.symm hne), Function.update_idem,
              Function.update_comm hne]
        · rw [hresult]
          exact .inl ⟨rfl, staged, s, hs, hslots, hready, hnext⟩

/-- A slot whose mode has been set. -/
def LsSlot.withMode (s : LsSlot) (mode : Nat) : LsSlot :=
  { s with
    mode := clampedMode s mode
    snapshotId :=
      if s.isSnapshot ∧ s.snapshotId.epoch ≠ UInt64.ofNat uint64Max then
        { s.snapshotId with epoch := s.snapshotId.epoch + 1 }
      else s.snapshotId }

theorem final_lsVmSetMode (slot mode : Nat) (t : SlotTable) :
    (lsVmSetMode slot mode).final t =
      if slot ≥ lsLegacySlots then t else t.withSlot slot ((t.slots slot).withMode mode) := by
  unfold lsVmSetMode LsSlot.withMode
  rw [final_read_bind, final_ite, final_pure]
  split
  · rfl
  · split
    · simp [clampedMode]
    · simp [clampedMode]

/-! ## Which loads are accepted -/

/-- No reference of the object is refused. -/
def referencesAccepted (loading : UInt64) : Map.Registry → List Map.Relocation → Bool
  | _, [] => true
  | g, r :: rest =>
      !(Map.lsMapReloc g { r with handle := loading }).refused &&
        referencesAccepted loading (Map.lsMapReloc g { r with handle := loading }).registry rest

/-- The object can be built into a VM. -/
def Object.builds (o : Object) (g : Map.Registry) (loading : UInt64) : Bool :=
  o.consulted && (o.loaded && referencesAccepted loading g o.references && o.jit != some false)

/-- The object is handed to uBPF. -/
def Object.reaches (o : Object) (loading : UInt64) (mode : Nat) : Bool :=
  o.symbolInSection &&
    (!(o.isSnapshot && (loading == 0 || decide (mode > lsModeMonitor))) && o.created)

/-- A load of this object into this slot is accepted. -/
def accepted (t : SlotTable) (slot : Nat) (o : Object) (loading : UInt64) (mode : Nat) : Bool :=
  decide (slot < lsLegacySlots) && t.ready && (spareSlot t).isSome &&
    (o.reaches loading mode && o.builds t.registry loading)

theorem relocateAll_loadError (loading : UInt64) (references : List Map.Relocation) :
    ∀ t : SlotTable, ((forEach (relocate loading) references).final t).loadError =
      (t.loadError || !referencesAccepted loading t.registry references) := by
  induction references with
  | nil =>
      intro t
      simp [referencesAccepted]
  | cons r rest ih =>
      intro t
      rw [final_forEach_cons, ih, final_relocate]
      simp [referencesAccepted, Bool.or_assoc, Bool.not_and]

theorem buildVm_result (o : Object) (loading : UInt64) (t : SlotTable) :
    (buildVm o loading).result t = o.builds t.registry loading := by
  unfold buildVm Object.builds Object.consulted
  cases hstack : o.stackRegistered with
  | false => simp
  | true =>
      cases hglue : o.glueInstalled && o.relocated with
      | false => simp
      | true =>
          simp [relocateAll_loadError]

theorem installVm_result (slot : Nat) (o : Object) (loading : UInt64) (mode : Nat)
    (t : SlotTable) :
    (installVm slot o loading mode).result t = (o.created && o.builds t.registry loading) := by
  unfold installVm
  rw [result_read_bind]
  cases o.created with
  | false => rfl
  | true =>
      have hbuilt := buildVm_result o loading { t with nextVm := t.nextVm + 1 }
      rw [if_pos rfl, Bool.true_and, result_bind, final_write, store_created, result_bind, hbuilt,
        result_ite, result_bind, result_bind, result_pure, result_pure]
      cases o.builds t.registry loading with
      | false => rfl
      | true => rfl

theorem lsVmPrepareSlot_result (slot : Nat) (o : Object) (loading : UInt64) (mode : Nat)
    (t : SlotTable) :
    (lsVmPrepareSlot slot o loading mode).result t =
      (t.ready && !(t.slots slot).armed &&
        (o.reaches loading mode && o.builds t.registry loading)) := by
  unfold lsVmPrepareSlot
  rw [result_read_bind]
  by_cases hrefused : prepareRefused t slot o = true
  · rw [if_pos hrefused, result_pure]
    simp only [prepareRefused, Bool.or_eq_true, Bool.not_eq_true'] at hrefused
    rcases hrefused with (hready | harmed) | hsymbol
    · rw [hready, Bool.false_and, Bool.false_and]
    · rw [harmed, Bool.not_true, Bool.and_false, Bool.false_and]
    · rw [Object.reaches, hsymbol, Bool.false_and, Bool.false_and, Bool.and_false]
  · rw [if_neg hrefused, result_bind, final_recordKind, result_ite, result_pure, result_bind,
      final_storeTo, installVm_result, withSlot_registry, withSlot_registry, Object.reaches]
    simp only [prepareRefused, Bool.or_eq_true, Bool.not_eq_true', not_or, Bool.not_eq_false,
      Bool.not_eq_true] at hrefused
    obtain ⟨⟨hready, harmed⟩, hsymbol⟩ := hrefused
    rw [hready, harmed, hsymbol]
    cases o.isSnapshot && (loading == 0 || decide (mode > lsModeMonitor)) with
    | true => simp
    | false => simp

theorem lsVmReload_result (slot : Nat) (o : Object) (loading : UInt64) (mode : Nat)
    (t : SlotTable) :
    (lsVmReload slot o loading mode).result t = accepted t slot o loading mode := by
  unfold lsVmReload accepted
  rw [result_read_bind]
  by_cases hrange : slot ≥ lsLegacySlots ∨ t.ready = false
  · rw [if_pos hrange]
    rcases hrange with hslot | hready
    · simp [Nat.not_lt.mpr hslot]
    · simp [hready]
  · rw [if_neg hrange, result_bind]
    obtain ⟨hslot, hready⟩ := not_or.mp hrange
    unfold lsVmArm
    rw [final_read_bind, result_read_bind]
    cases hspare : spareSlot t with
    | none => simp
    | some staged =>
        simp only [result_bind, final_bind, result_ite, final_ite, lsVmPrepareSlot_result,
          (spareSlot_cases hspare).2, Option.isSome_some, Nat.lt_of_not_le hslot, decide_true]
        cases o.reaches loading mode && o.builds t.registry loading with
        | false => simp
        | true =>
            simp only [hready]
            by_cases hne : staged = slot
            · simp [hne]
            · simp [hne]

/-! ## What a load leaves of the registry -/

theorem relocatedRegistry_count (loading : UInt64) (references : List Map.Relocation) :
    ∀ g : Map.Registry, g.count ≤ (relocatedRegistry loading g references).count := by
  induction references with
  | nil =>
      intro g
      exact Nat.le_refl _
  | cons r rest ih =>
      intro g
      refine Nat.le_trans ?_ (ih (Map.lsMapReloc g { r with handle := loading }).registry)
      rcases Map.lsMapReloc_registry g { r with handle := loading } with ⟨hsame, _⟩ | ⟨hcount, _⟩
      · rw [hsame]
      · omega

/-- The registry is the same exactly when no reference makes a new entry in it. -/
theorem relocatedRegistry_eq_iff (loading : UInt64) (references : List Map.Relocation)
    (g : Map.Registry) :
    relocatedRegistry loading g references = g ↔ ∀ r ∈ references, ¬ g.Enters r := by
  induction references with
  | nil => simp [relocatedRegistry]
  | cons r rest ih =>
      rw [List.forall_mem_cons]
      change relocatedRegistry loading (Map.lsMapReloc g { r with handle := loading }).registry rest =
        g ↔ _
      rcases Map.lsMapReloc_registry g { r with handle := loading } with
        ⟨hsame, hnot⟩ | ⟨hcount, henters⟩
      · rw [hsame, ih]
        exact (and_iff_right hnot).symm
      · -- the registry has grown, and does not shrink again
        constructor
        · intro heq
          have hle := relocatedRegistry_count loading rest
            (Map.lsMapReloc g { r with handle := loading }).registry
          rw [heq] at hle
          omega
        · rintro ⟨hnot, _⟩
          exact absurd henters hnot

/-- The references of an object are accepted whatever the handle is. -/
theorem referencesAccepted_handle {loading loading' : UInt64}
    (h : isHandle loading = isHandle loading') (references : List Map.Relocation) :
    ∀ g : Map.Registry, referencesAccepted loading g references =
      referencesAccepted loading' g references := by
  induction references with
  | nil =>
      intro g
      rfl
  | cons r rest ih =>
      intro g
      obtain ⟨hregistry, hrefused⟩ := Map.lsMapReloc_handle g r h
      rw [referencesAccepted, referencesAccepted, hregistry, hrefused, ih]

theorem installVm_registry (slot : Nat) (o : Object) (loading : UInt64) (mode : Nat)
    (t : SlotTable) :
    ((installVm slot o loading mode).final t).registry =
      if o.created && o.consulted then relocatedRegistry loading t.registry o.references
      else t.registry := by
  unfold installVm
  rw [final_read_bind]
  cases o.created with
  | false => rfl
  | true =>
      have hbuilt := buildVm_registry o loading { t with nextVm := t.nextVm + 1 }
      rw [if_pos rfl, Bool.true_and, final_bind, final_write, store_created, final_bind, final_ite,
        final_bind, final_bind, final_pure, final_pure, final_goLive, final_giveUp]
      split
      · exact hbuilt
      · exact hbuilt

/-- The object is handed to uBPF as soon as a slot is free for it. -/
theorem lsVmPrepareSlot_registry {slot : Nat} {t : SlotTable} (hready : t.ready = true)
    (hspare : (t.slots slot).armed = false) (o : Object) (loading : UInt64) (mode : Nat) :
    ((lsVmPrepareSlot slot o loading mode).final t).registry =
      if o.reaches loading mode && o.consulted then
        relocatedRegistry loading t.registry o.references
      else t.registry := by
  unfold lsVmPrepareSlot prepareRefused Object.reaches
  rw [final_read_bind, hready, hspare]
  cases o.symbolInSection with
  | false => rfl
  | true =>
      cases o.isSnapshot && (loading == 0 || decide (mode > lsModeMonitor)) with
      | true =>
          simp only [Bool.not_true, Bool.or_self, Bool.false_eq_true, if_false, if_true, final_bind,
            final_recordKind, final_pure, Bool.false_and, Bool.and_false]
          rfl
      | false =>
          simp only [Bool.not_true, Bool.or_self, Bool.false_eq_true, if_false, final_bind,
            final_recordKind, final_storeTo, installVm_registry, withSlot_registry, Bool.not_false,
            Bool.true_and]

theorem lsVmReload_registry (slot : Nat) (o : Object) (loading : UInt64) (mode : Nat)
    (t : SlotTable) :
    ((lsVmReload slot o loading mode).final t).registry =
      if decide (slot < lsLegacySlots) && t.ready && (spareSlot t).isSome &&
          (o.reaches loading mode && o.consulted) then
        relocatedRegistry loading t.registry o.references
      else t.registry := by
  unfold lsVmReload
  rw [final_read_bind]
  by_cases hrange : slot ≥ lsLegacySlots ∨ t.ready = false
  · rw [if_pos hrange]
    rcases hrange with hslot | hready
    · simp [Nat.not_lt.mpr hslot]
    · simp [hready]
  · rw [if_neg hrange, final_bind]
    obtain ⟨hslot, hready⟩ := not_or.mp hrange
    rw [Bool.not_eq_false] at hready
    unfold lsVmArm
    rw [final_read_bind, result_read_bind]
    cases hspare : spareSlot t with
    | none => simp
    | some staged =>
        have hregistry := lsVmPrepareSlot_registry hready (spareSlot_cases hspare).2 o loading mode
        simp only [final_bind, result_bind, final_ite, result_ite, final_pure, result_pure, ite_self,
          Nat.lt_of_not_le hslot, decide_true, hready, Option.isSome_some, Bool.true_and]
        rw [← hregistry]
        cases (lsVmPrepareSlot staged o loading mode).result t with
        | false => rfl
        | true =>
            by_cases hne : staged = slot
            · simp [hne]
            · simp [hne, final_publish hne]

/-! ## The table between operations -/

/-- A slot that holds a program has its VM, and compiled code only of that VM; an
empty slot has neither.  A snapshot program is not in ENFORCE. -/
structure LsSlot.Ok (nextVm : Nat) (s : LsSlot) : Prop where
  live : s.armed = true → ∃ vm, s.vm = some vm ∧ vm < nextVm ∧
    (s.jitFn = none ∨ s.jitFn = some vm)
  spare : s.armed = false → s.vm = none ∧ s.jitFn = none
  observing : s.armed = true → s.isSnapshot = true → s.mode ≤ lsModeMonitor

def SlotTable.Ok (t : SlotTable) : Prop := ∀ k, (t.slots k).Ok t.nextVm

theorem LsSlot.Ok.mono {n n' : Nat} (hn : n ≤ n') {s : LsSlot} (h : s.Ok n) : s.Ok n' := by
  refine ⟨?_, h.spare, h.observing⟩
  intro harmed
  obtain ⟨vm, hvm, hlt, hjit⟩ := h.live harmed
  exact ⟨vm, hvm, hlt.trans_le hn, hjit⟩

theorem LsSlot.Ok.abandoned {n : Nat} {s s' : LsSlot} (h : s.Ok n) (hs : Abandoned s s') :
    s'.Ok n := by
  rcases hs.unused with rfl | hempty
  · exact h
  · have hempty' : s'.armed = false := hs.armed.trans hempty
    refine ⟨?_, ?_, ?_⟩
    · intro harmed
      rw [hempty'] at harmed
      contradiction
    · intro _
      obtain ⟨hvm, hjit⟩ := h.spare hempty
      rcases hs.code with ⟨hvm', hjit'⟩ | hnone
      · exact ⟨hvm'.trans hvm, hjit'.trans hjit⟩
      · exact hnone
    · intro harmed
      rw [hempty'] at harmed
      contradiction

theorem LsSlot.Ok.prepared {n mode : Nat} {s : LsSlot} {o : Object} {loading : UInt64} (h : s.Ok n)
    (hempty : s.armed = false) (hmode : o.isSnapshot = true → mode ≤ lsModeMonitor) :
    (s.prepared o loading n mode).Ok (n + 1) := by
  refine ⟨?_, ?_, ?_⟩
  · intro _
    refine ⟨n, rfl, Nat.lt_succ_self n, ?_⟩
    change (if o.jit.isSome then some n else s.jitFn) = none ∨
      (if o.jit.isSome then some n else s.jitFn) = some n
    split
    · exact .inr rfl
    · exact .inl (h.spare hempty).2
  · intro harmed
    contradiction
  · intro _ hkind
    exact hmode hkind

theorem LsSlot.Ok.published {n mode : Nat} {staged : LsSlot} (live : LsSlot) (h : staged.Ok n)
    (harmed : staged.armed = true) (hmode : staged.isSnapshot = true → mode ≤ lsModeMonitor) :
    (live.published staged mode).Ok n := by
  refine ⟨?_, ?_, ?_⟩
  · intro _
    exact h.live harmed
  · intro hempty
    contradiction
  · intro _ hkind
    exact hmode hkind

theorem LsSlot.Ok.givenBack (n : Nat) (s : LsSlot) : s.givenBack.Ok n := by
  refine ⟨?_, ?_, ?_⟩
  · intro harmed
    contradiction
  · intro _
    exact ⟨rfl, rfl⟩
  · intro harmed
    contradiction

/-- One slot has changed, and VMs may have been created. -/
theorem SlotTable.Ok.update {t t' : SlotTable} (h : t.Ok) {k : Nat} {s : LsSlot}
    (hslots : t'.slots = Function.update t.slots k s) (hs : s.Ok t'.nextVm)
    (hnext : t.nextVm ≤ t'.nextVm) : t'.Ok := by
  intro j
  rw [hslots]
  by_cases hj : j = k
  · subst hj
    rw [Function.update_self]
    exact hs
  · rw [Function.update_of_ne hj]
    exact (h j).mono hnext

theorem SlotTable.Ok.prepareSlot {t : SlotTable} (h : t.Ok) (slot : Nat) (o : Object)
    (loading : UInt64) (mode : Nat) : ((lsVmPrepareSlot slot o loading mode).final t).Ok := by
  rcases lsVmPrepareSlot_cases slot o loading mode t with
    ⟨_, hempty, hmode, hslots, _, hnext⟩ | ⟨_, s, hs, hslots, _, hnext⟩
  · apply h.update hslots
    · rw [hnext]
      exact (h slot).prepared hempty hmode
    · exact hnext ▸ Nat.le_succ _
  · exact h.update hslots (((h slot).abandoned hs).mono hnext) hnext

theorem SlotTable.Ok.arm {t : SlotTable} (h : t.Ok) (o : Object) (loading : UInt64)
    (mode : Nat) : ((lsVmArm o loading mode).final t).Ok := by
  unfold lsVmArm
  rw [final_read_bind]
  cases spareSlot t with
  | none => exact h
  | some slot =>
      simp only [final_bind, final_ite, final_pure, ite_self]
      exact h.prepareSlot slot o loading mode

theorem SlotTable.Ok.reload {t : SlotTable} (h : t.Ok) (slot : Nat) (o : Object)
    (loading : UInt64) (mode : Nat) : ((lsVmReload slot o loading mode).final t).Ok := by
  rcases lsVmReload_cases slot o loading mode t with
    ⟨_, k, s, hs, hslots, _, hnext⟩ |
    ⟨_, _, hmode, _, hnext, staged, hspare, ⟨rfl, hslots⟩ | ⟨hne, hslots⟩⟩
  · exact h.update hslots (((h k).abandoned hs).mono hnext) hnext
  · apply h.update hslots
    · rw [hnext]
      exact (h staged).prepared (spareSlot_cases hspare).2 hmode
    · exact hnext ▸ Nat.le_succ _
  · have hprepared : ((t.slots staged).prepared o loading t.nextVm mode).Ok (t.nextVm + 1) :=
      (h staged).prepared (spareSlot_cases hspare).2 hmode
    intro j
    rw [hslots, hnext]
    by_cases hj : j = staged
    · subst hj
      rw [Function.update_self]
      exact .givenBack _ _
    · rw [Function.update_of_ne hj]
      by_cases hj' : j = slot
      · subst hj'
        rw [Function.update_self]
        exact hprepared.published _ rfl hmode
      · rw [Function.update_of_ne hj']
        exact (h j).mono (Nat.le_succ _)

theorem LsSlot.Ok.withMode {n : Nat} {s : LsSlot} (h : s.Ok n) (mode : Nat) :
    (s.withMode mode).Ok n := by
  refine ⟨h.live, h.spare, ?_⟩
  intro _ hkind
  change clampedMode s mode ≤ lsModeMonitor
  unfold clampedMode
  split
  · exact Nat.zero_le _
  · rename_i hclamp
    exact Nat.le_of_not_lt fun hmode => hclamp ⟨hkind, hmode⟩

theorem SlotTable.Ok.setMode {t : SlotTable} (h : t.Ok) (slot mode : Nat) :
    ((lsVmSetMode slot mode).final t).Ok := by
  rw [final_lsVmSetMode]
  split
  · exact h
  · exact h.update rfl ((h slot).withMode mode) (le_refl _)

/-- An operation on the table. -/
inductive SlotOp
  | arm (o : Object) (loading : UInt64) (mode : Nat)
  | reload (slot : Nat) (o : Object) (loading : UInt64) (mode : Nat)
  | setMode (slot mode : Nat)

/-- Operations, each completed before the next one starts. -/
def slotMachine : Machine SlotTable SlotOp where
  init t := t = .initial
  next t
    | .arm o loading mode => some ((lsVmArm o loading mode).final t)
    | .reload slot o loading mode => some ((lsVmReload slot o loading mode).final t)
    | .setMode slot mode => some ((lsVmSetMode slot mode).final t)

theorem SlotTable.initial_ok : SlotTable.initial.Ok := by
  intro k
  refine ⟨?_, ?_, ?_⟩
  · intro harmed
    contradiction
  · intro _
    exact ⟨rfl, rfl⟩
  · intro harmed
    contradiction

theorem slotMachine_ok : ∀ t, slotMachine.Reachable t → t.Ok := by
  apply Machine.Reachable.invariant
  · intro t ht
    rw [ht]
    exact SlotTable.initial_ok
  · intro t op t' _ hok hnext
    cases op with
    | arm o loading mode =>
        obtain rfl := Option.some.inj hnext
        exact hok.arm o loading mode
    | reload slot o loading mode =>
        obtain rfl := Option.some.inj hnext
        exact hok.reload slot o loading mode
    | setMode slot mode =>
        obtain rfl := Option.some.inj hnext
        exact hok.setMode slot mode

end Vm
end LiveSurface
