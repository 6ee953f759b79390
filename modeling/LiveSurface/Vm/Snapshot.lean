import LiveSurface.Config.Register
import LiveSurface.Fexit.ShadowStack
import LiveSurface.Vm.Slots

/-!
# Snapshot programs

A snapshot program runs twice for one call of its function: at the entry, where it may keep four
words for the frame, and at the return, where it gets them back.  The two runs are tied by an
identity: the instance that the program was loaded as and an epoch that every change of its
slot's mode moves on.  Between the two any other calls may begin and end, and programs may be
loaded and their modes set.

Every entry and every return of a snapshot frame is kept in a log, with the VM that the slot
held and the number of changes that the slot has had: the loads that were accepted, and the modes
that were set.

Main results:

- Theorem {lit}`EntryOk.reload` and theorem {lit}`EntryOk.setMode`: an identity that is still
  admitted was taken from the program that the slot holds, and its slot has not changed since.
- Theorem {lit}`return_follows_entry`: what ties a return to the entry of its frame.
-/

namespace LiveSurface
namespace Vm

open StoreProgram Config Fexit

/-! ## Running a snapshot program -/

/-- {lit}`LS_MAX_SLOTS`: twelve legacy slots and twelve entries for each of eight programs. -/
def lsMaxSlots : Nat := lsLegacySlots + 8 * 12

/-- What one execution meets: a stack for the program, whether the maps admit the call, and the
state that the program leaves, unless it faults. -/
structure SnapshotRun where
  stackReady : Bool
  admitted : Bool
  left : SnapshotCtx → Option (Vector Word 4)

/-- {lit}`ls_vm_run` starts the program of the slot for an identity. -/
def LsSlot.Admits (s : LsSlot) (id : SnapshotId) : Prop :=
  s.armed = true ∧ s.vm ≠ none ∧ s.mode ≠ lsModeDisable ∧ s.isSnapshot = true ∧ id.inst ≠ 0 ∧
    id.epoch ≠ UInt64.ofNat uint64Max ∧ id.inst = s.snapshotId.instanceId ∧
    id.epoch = s.snapshotId.epoch

instance (s : LsSlot) (id : SnapshotId) : Decidable (s.Admits id) :=
  inferInstanceAs (Decidable (_ ∧ _))

/-- The slot has a number in the table. -/
def InTable (slot : Int) : Prop := 0 ≤ slot ∧ slot < lsMaxSlots

instance (slot : Int) : Decidable (InTable slot) := inferInstanceAs (Decidable (_ ∧ _))

/-- {lit}`ls_vm_snapshot_identity`. -/
def lsVmSnapshotIdentity (t : SlotTable) (slot : Int) : Option SnapshotId :=
  if InTable slot ∧ (t.slots slot.toNat).isSnapshot = true then
    some ⟨(t.slots slot.toNat).snapshotId.instanceId, (t.slots slot.toNat).snapshotId.epoch⟩
  else none

/-- {lit}`ls_vm_snapshot_call`, without its counters: the state after a run that completed. -/
def lsVmSnapshotCall (t : SlotTable) (ex : SnapshotRun) (slot : Int) (id : SnapshotId)
    (ctx : SnapshotCtx) : Option (Vector Word 4) :=
  if InTable slot ∧ ex.stackReady = true ∧ ex.admitted = true ∧ (t.slots slot.toNat).Admits id then
    ex.left ctx
  else none

/-- The counter of a slot after a call that may have completed. -/
def countError (errors : Nat → UInt64) (slot : Int) (completed : Bool) : Nat → UInt64 :=
  if completed then errors
  else Function.update errors slot.toNat (errors slot.toNat + 1)

theorem countError_self (errors : Nat → UInt64) (slot : Int) (completed : Bool) :
    countError errors slot completed slot.toNat =
      if completed then errors slot.toNat else errors slot.toNat + 1 := by
  unfold countError
  split
  · rfl
  · exact Function.update_self _ _ _

/-! ## The machine -/

/-- The entry of a snapshot frame. -/
structure EntryRecord where
  frame : Frame
  vm : Option Nat
  changes : Nat
  /-- The state that the entry left, if it completed. -/
  left : Option (Vector Word 4)

/-- The return of a snapshot frame. -/
structure ReturnRecord where
  progSlot : Int
  identity : SnapshotId
  ctx : SnapshotCtx
  vm : Option Nat
  changes : Nat
  completed : Bool
  /-- The address that {lit}`ls_fexit_leave` answers. -/
  address : Word
  errorsBefore : UInt64
  errorsAfter : UInt64

/-- The slots, the tokens, the shadow stack and the return slots of one thread, with the loads and
mode changes of every slot and the two logs. -/
structure Snapshots where
  table : SlotTable
  store : LsConfigStore
  fx : Fexit.State
  mem : Stack
  entryErrors : Nat → UInt64
  returnErrors : Nat → UInt64
  changes : Nat → Nat
  entries : List EntryRecord
  returns : List ReturnRecord

/-- One call, executed whole. -/
inductive SnapshotAct
  | enter (progSlot : Int) (slot : Word) (args : Vector Word 6) (ex : SnapshotRun)
  | leave (cur retval : Word) (ex : SnapshotRun)
  /-- A load, by the loader with a new token or without one. -/
  | reload (slot : Nat) (o : Object) (mode : Nat) (token : Bool)
  | setMode (slot mode : Nat)

/-- What the VM answers at an entry. -/
def SlotTable.atEntry (t : SlotTable) (ex : SnapshotRun) (progSlot : Int) : VmAtEntry where
  identity := lsVmSnapshotIdentity t progSlot
  call := lsVmSnapshotCall t ex progSlot

/-- The record of an entry. -/
def Snapshots.entryRecord (s : Snapshots) (progSlot : Int) (slot : Word) (args : Vector Word 6)
    (ex : SnapshotRun) : EntryRecord where
  frame := enterFrame s.fx s.mem progSlot slot args (s.table.atEntry ex progSlot)
  vm := (s.table.slots progSlot.toNat).vm
  changes := s.changes progSlot.toNat
  left := capturedState (s.table.atEntry ex progSlot) args (s.fx.seq + 1)

/-- {lit}`ls_fexit_enter`. -/
def Snapshots.enter (stub : Word) (s : Snapshots) (progSlot : Int) (slot : Word)
    (args : Vector Word 6) (ex : SnapshotRun) : Snapshots :=
  let r := lsFexitEnter stub s.fx s.mem progSlot slot args (s.table.atEntry ex progSlot)
  let e := s.entryRecord progSlot slot args ex
  if s.fx.HasRoom ∧ e.frame.snapshot.isSome then
    { s with
      fx := r.1
      mem := r.2
      entryErrors := countError s.entryErrors progSlot e.left.isSome
      entries := e :: s.entries }
  else { s with fx := r.1, mem := r.2 }

/-- The record of a return. -/
def Snapshots.returnRecord (s : Snapshots) (progSlot : Int) (id : SnapshotId) (ctx : SnapshotCtx)
    (address : Word) (ex : SnapshotRun) : ReturnRecord :=
  let completed := (lsVmSnapshotCall s.table ex progSlot id ctx).isSome
  { progSlot
    identity := id
    ctx
    vm := (s.table.slots progSlot.toNat).vm
    changes := s.changes progSlot.toNat
    completed
    address
    errorsBefore := s.returnErrors progSlot.toNat
    errorsAfter := countError s.returnErrors progSlot completed progSlot.toNat }

/-- {lit}`ls_fexit_leave`. -/
def Snapshots.leave (s : Snapshots) (cur retval : Word) (ex : SnapshotRun) : Snapshots :=
  let l := lsFexitLeave s.fx cur retval
  match l.run with
  | some (.snapshot progSlot id ctx) =>
      let r := s.returnRecord progSlot id ctx l.ret ex
      { s with
        fx := l.fx
        returnErrors := countError s.returnErrors progSlot r.completed
        returns := r :: s.returns }
  | _ => { s with fx := l.fx }

/-- The token of a load. -/
def Snapshots.token (s : Snapshots) (slot : Nat) (token : Bool) : UInt64 × LsConfigStore :=
  if token then lsConfigNewInstance s.store slot else (0, s.store)

/-- {lit}`ls_vm_reload`; the loader does not call it without a token. -/
def Snapshots.reload (s : Snapshots) (slot : Nat) (o : Object) (mode : Nat) (token : Bool) :
    Snapshots :=
  let (loading, store) := s.token slot token
  if token = true ∧ loading = 0 then s
  else
    let p := lsVmReload slot o loading mode
    { s with
      table := p.final s.table
      store
      changes :=
        if p.result s.table then Function.update s.changes slot (s.changes slot + 1)
        else s.changes }

/-- {lit}`ls_vm_set_mode`; beyond the legacy slots it does nothing. -/
def Snapshots.setMode (s : Snapshots) (slot mode : Nat) : Snapshots :=
  { s with
    table := (lsVmSetMode slot mode).final s.table
    changes :=
      if slot < lsLegacySlots then Function.update s.changes slot (s.changes slot + 1)
      else s.changes }

/-- Nothing is loaded and nothing is hooked. -/
def Snapshots.Start (s : Snapshots) : Prop :=
  s.table = .initial ∧ s.fx = lsFexitReset ∧ s.entries = [] ∧ s.returns = []

/-- Calls on one thread, one after another. -/
def snapshotMachine (stub : Word) : Machine Snapshots SnapshotAct where
  init := Snapshots.Start
  next s
    | .enter progSlot slot args ex => some (s.enter stub progSlot slot args ex)
    | .leave cur retval ex => some (s.leave cur retval ex)
    | .reload slot o mode token => some (s.reload slot o mode token)
    | .setMode slot mode => some (s.setMode slot mode)

/-! ## Tokens -/

/-- A token that was issued before, or none. -/
def Issued (store : LsConfigStore) (x : UInt64) : Prop := x.toNat < 2 ^ 63 + 64 * (store.nextInstance + 1)

/-- The token of a load is new, or none. -/
theorem token_cases (s : Snapshots) (slot : Nat) (token : Bool) :
    s.store.nextInstance ≤ (s.token slot token).2.nextInstance ∧
      Issued (s.token slot token).2 (s.token slot token).1 ∧
      ((s.token slot token).1 = 0 ∨ ¬Issued s.store (s.token slot token).1) := by
  have hnone : s.store.nextInstance ≤ s.store.nextInstance ∧ Issued s.store 0 ∧
      ((0 : UInt64) = 0 ∨ ¬Issued s.store 0) := by
    refine ⟨Nat.le_refl _, ?_, Or.inl rfl⟩
    change 0 < 2 ^ 63 + 64 * (s.store.nextInstance + 1)
    omega
  unfold Snapshots.token
  split
  · unfold lsConfigNewInstance
    split
    · exact hnone
    · rename_i hroom
      have hslot : slot < 64 := Nat.lt_of_not_le fun hge => hroom (Or.inl hge)
      have hn : s.store.nextInstance + 1 < 2 ^ 57 := by
        have hlt : ¬s.store.nextInstance ≥ 2 ^ 57 - 1 := fun hge => hroom (Or.inr hge)
        omega
      have htoken := token_toNat hslot hn
      refine ⟨Nat.le_succ _, ?_, Or.inr ?_⟩
      · change (UInt64.ofNat (lsConfigHandleBit ||| ((s.store.nextInstance + 1) <<< 6) ||| slot)).toNat <
          2 ^ 63 + 64 * (s.store.nextInstance + 1 + 1)
        omega
      · change ¬(UInt64.ofNat
          (lsConfigHandleBit ||| ((s.store.nextInstance + 1) <<< 6) ||| slot)).toNat <
            2 ^ 63 + 64 * (s.store.nextInstance + 1)
        omega
  · exact hnone

theorem Issued.mono {store store' : LsConfigStore} {x : UInt64} (h : Issued store x)
    (hle : store.nextInstance ≤ store'.nextInstance) : Issued store' x := by
  unfold Issued at h ⊢
  omega

/-- The instances of one table are those of another, or a given one. -/
def InstancesFrom (loading : UInt64) (slots slots' : Nat → LsSlot) : Prop :=
  ∀ k, (slots' k).snapshotId.instanceId = loading ∨
    ∃ j, (slots' k).snapshotId.instanceId = (slots j).snapshotId.instanceId

theorem InstancesFrom.refl (loading : UInt64) (slots : Nat → LsSlot) :
    InstancesFrom loading slots slots := fun k => Or.inr ⟨k, rfl⟩

theorem InstancesFrom.update {loading : UInt64} {slots : Nat → LsSlot} {slot : Nat} {s : LsSlot}
    (h : s.snapshotId.instanceId = loading) :
    InstancesFrom loading slots (Function.update slots slot s) := by
  intro k
  by_cases hk : k = slot
  · rw [hk, Function.update_self]
    exact Or.inl h
  · rw [Function.update_of_ne hk]
    exact Or.inr ⟨k, rfl⟩

theorem prepareSlot_instances (slot : Nat) (o : Object) (loading : UInt64) (mode : Nat)
    (t : SlotTable) :
    InstancesFrom loading t.slots ((lsVmPrepareSlot slot o loading mode).final t).slots := by
  unfold lsVmPrepareSlot
  rw [final_read_bind, final_ite]
  split
  · exact InstancesFrom.refl loading t.slots
  · rw [final_bind, final_recordKind, final_ite]
    split
    · exact InstancesFrom.update rfl
    · rw [final_bind, final_storeTo]
      have hcases := installVm_cases slot o loading mode
        (t.withSlot slot ((t.slots slot).recorded o loading))
      simp only [withSlot_slots, withSlot_withSlot, Function.update_self,
        Function.update_idem] at hcases ⊢
      rcases hcases with ⟨_, hslots, _⟩ | ⟨_, s, rfl | rfl, hslots, _⟩
      · exact hslots ▸ InstancesFrom.update rfl
      · exact hslots ▸ InstancesFrom.update rfl
      · exact hslots ▸ InstancesFrom.update rfl

/-- The instances after a load are instances from before it, or the one of the load. -/
theorem reload_instances (slot : Nat) (o : Object) (loading : UInt64) (mode : Nat)
    (t : SlotTable) :
    InstancesFrom loading t.slots ((lsVmReload slot o loading mode).final t).slots := by
  unfold lsVmReload lsVmArm
  rw [final_read_bind, final_ite]
  split
  · exact InstancesFrom.refl loading t.slots
  · rw [final_bind, final_read_bind, result_read_bind]
    cases spareSlot t with
    | none => exact InstancesFrom.refl loading t.slots
    | some staged =>
        have hprepared := prepareSlot_instances staged o loading mode t
        simp only [final_bind, result_bind, final_ite, result_ite, final_pure, result_pure, ite_self]
        cases (lsVmPrepareSlot staged o loading mode).result t with
        | false => exact hprepared
        | true =>
            by_cases hne : staged = slot
            · simpa [hne] using hprepared
            · intro k
              simp only [if_true, if_neg hne, final_bind, final_publish hne, final_pure,
                withSlot_slots]
              by_cases hstaged : k = staged
              · rw [hstaged, Function.update_self]
                exact hprepared staged
              · rw [Function.update_of_ne hstaged]
                by_cases hslot : k = slot
                · rw [hslot, Function.update_self]
                  exact hprepared staged
                · rw [Function.update_of_ne hslot]
                  exact hprepared k

/-! ## Identities and changes of a slot -/

/-- The slot holds the program that the identity was taken from. -/
def LsSlot.Holds (s : LsSlot) (id : SnapshotId) : Prop :=
  s.armed = true ∧ id.inst ≠ 0 ∧ id.inst = s.snapshotId.instanceId

/-- As long as the slot holds the program of an entry, it has that program's VM, and only a change
of its mode has moved its epoch. -/
def Tied (slot : LsSlot) (changes : Nat) (e : EntryRecord) (id : SnapshotId) : Prop :=
  slot.Holds id → slot.isSnapshot = true ∧ id.epoch ≤ slot.snapshotId.epoch ∧
    (id.epoch = slot.snapshotId.epoch → id.epoch ≠ UInt64.ofNat uint64Max →
      changes = e.changes ∧ slot.vm = e.vm)

theorem Tied.of_unarmed {slot : LsSlot} {changes : Nat} {e : EntryRecord} {id : SnapshotId}
    (h : slot.armed = false) : Tied slot changes e id := by
  intro hholds
  rw [hholds.1] at h
  contradiction

/-- A change of the mode ends what is under way. -/
theorem Tied.withMode {slot : LsSlot} {changes : Nat} {e : EntryRecord} {id : SnapshotId}
    (h : Tied slot changes e id) (mode : Nat) : Tied (slot.withMode mode) (changes + 1) e id := by
  by_cases hkind : slot.isSnapshot ∧ slot.snapshotId.epoch ≠ UInt64.ofNat uint64Max
  · have hid : (slot.withMode mode).snapshotId =
        { slot.snapshotId with epoch := slot.snapshotId.epoch + 1 } := if_pos hkind
    intro hholds
    obtain ⟨hsnapshot, hle, _⟩ := h (by rwa [LsSlot.Holds, hid] at hholds)
    have hroom : slot.snapshotId.epoch.toNat < 2 ^ 64 - 1 := by
      have hne : slot.snapshotId.epoch.toNat ≠ (UInt64.ofNat uint64Max).toNat := by
        intro heq
        exact hkind.2 (UInt64.toNat_inj.mp heq)
      have hmax : (UInt64.ofNat uint64Max).toNat = 2 ^ 64 - 1 := by decide
      have hlt := slot.snapshotId.epoch.toNat_lt
      omega
    have hnext : (slot.snapshotId.epoch + 1).toNat = slot.snapshotId.epoch.toNat + 1 := by
      rw [UInt64.toNat_add, UInt64.toNat_one]
      omega
    rw [UInt64.le_iff_toNat_le] at hle
    refine ⟨hsnapshot, ?_, ?_⟩
    · rw [hid, UInt64.le_iff_toNat_le, hnext]
      omega
    · intro heq
      rw [hid] at heq
      have hnat := congrArg UInt64.toNat heq
      rw [hnext] at hnat
      omega
  · have hid : (slot.withMode mode).snapshotId = slot.snapshotId := if_neg hkind
    intro hholds
    obtain ⟨hsnapshot, hle, _⟩ := h (by rwa [LsSlot.Holds, hid] at hholds)
    refine ⟨hsnapshot, by rwa [hid], ?_⟩
    -- the epoch has reached its end, where no identity is admitted
    intro heq hne
    rw [hid] at heq
    exact absurd ⟨hsnapshot, fun hmax => hne (heq.trans hmax)⟩ hkind

/-- What an identity that the slot admits says of the entry that it was taken at. -/
theorem Tied.of_admits {slot : LsSlot} {changes : Nat} {e : EntryRecord} {id : SnapshotId}
    (h : Tied slot changes e id) (hadmits : slot.Admits id) :
    changes = e.changes ∧ slot.vm = e.vm := by
  obtain ⟨harmed, _, _, _, hzero, hmax, hinst, hepoch⟩ := hadmits
  exact (h ⟨harmed, hzero, hinst⟩).2.2 hepoch hmax

/-- What a load does to a slot: nothing, or it leaves it empty, or with its own instance. -/
theorem reload_slot (s : Snapshots) (slot : Nat) (o : Object) (mode : Nat) (loading : UInt64)
    (k : Nat) :
    (((lsVmReload slot o loading mode).final s.table).slots k = s.table.slots k ∧
        ((lsVmReload slot o loading mode).result s.table = true → k ≠ slot)) ∨
      (((lsVmReload slot o loading mode).final s.table).slots k).armed = false ∨
      (((lsVmReload slot o loading mode).final s.table).slots k).snapshotId.instanceId = loading := by
  rcases lsVmReload_cases slot o loading mode s.table with
    ⟨hresult, k₀, s₀, habandoned, hslots, _⟩ |
    ⟨_, _, _, _, _, staged, _, ⟨rfl, hslots⟩ | ⟨hne, hslots⟩⟩
  · rw [hslots, hresult]
    by_cases hk : k = k₀
    · rw [hk, Function.update_self]
      rcases habandoned.unused with hsame | hempty
      · exact Or.inl ⟨hsame, fun hfalse => nomatch hfalse⟩
      · exact Or.inr (Or.inl (habandoned.armed.trans hempty))
    · rw [Function.update_of_ne hk]
      exact Or.inl ⟨rfl, fun hfalse => nomatch hfalse⟩
  · rw [hslots]
    by_cases hk : k = staged
    · rw [hk, Function.update_self]
      exact Or.inr (Or.inr rfl)
    · rw [Function.update_of_ne hk]
      exact Or.inl ⟨rfl, fun _ => hk⟩
  · rw [hslots]
    by_cases hk : k = staged
    · rw [hk, Function.update_self]
      exact Or.inr (Or.inl rfl)
    · rw [Function.update_of_ne hk]
      by_cases hslot : k = slot
      · rw [hslot, Function.update_self]
        exact Or.inr (Or.inr rfl)
      · rw [Function.update_of_ne hslot]
        exact Or.inl ⟨rfl, fun _ => hslot⟩

/-! ## Entries -/

/-- What holds of an entry from then on. -/
structure EntryOk (t : SlotTable) (store : LsConfigStore) (changes : Nat → Nat) (e : EntryRecord)
    (id : SnapshotId) : Prop where
  identity : e.frame.snapshot = some id
  inTable : InTable e.frame.progSlot
  issued : Issued store id.inst
  tied : Tied (t.slots e.frame.progSlot.toNat) (changes e.frame.progSlot.toNat) e id
  captured : e.frame.captured = e.left.isSome
  state : e.frame.state = e.left.getD (Vector.replicate 4 0)

/-- What holds of an entry in a state. -/
def Snapshots.EntryOk (s : Snapshots) (e : EntryRecord) (id : SnapshotId) : Prop :=
  Vm.EntryOk s.table s.store s.changes e id

theorem EntryOk.setMode {s : Snapshots} {e : EntryRecord} {id : SnapshotId} (h : s.EntryOk e id)
    (slot mode : Nat) : (s.setMode slot mode).EntryOk e id := by
  refine { h with tied := ?_ }
  change Tied (((lsVmSetMode slot mode).final s.table).slots e.frame.progSlot.toNat)
    ((if slot < lsLegacySlots then Function.update s.changes slot (s.changes slot + 1)
      else s.changes) e.frame.progSlot.toNat) e id
  rw [final_lsVmSetMode]
  by_cases hrange : slot < lsLegacySlots
  · rw [if_neg (Nat.not_le.mpr hrange), if_pos hrange, withSlot_slots]
    by_cases hslot : e.frame.progSlot.toNat = slot
    · rw [hslot, Function.update_self, Function.update_self, ← hslot]
      exact h.tied.withMode mode
    · rw [Function.update_of_ne hslot, Function.update_of_ne hslot]
      exact h.tied
  · rw [if_pos (Nat.le_of_not_lt hrange), if_neg hrange]
    exact h.tied

theorem EntryOk.reload {s : Snapshots} {e : EntryRecord} {id : SnapshotId} (h : s.EntryOk e id)
    (slot : Nat) (o : Object) (mode : Nat) (token : Bool) :
    (s.reload slot o mode token).EntryOk e id := by
  obtain ⟨hle, _, hfresh⟩ := token_cases s slot token
  unfold Snapshots.reload
  generalize s.token slot token = issued at *
  obtain ⟨loading, store⟩ := issued
  dsimp only at *
  split
  · exact h
  · refine { h with issued := h.issued.mono hle, tied := ?_ }
    dsimp only
    rcases reload_slot s slot o mode loading e.frame.progSlot.toNat with
      ⟨hsame, hother⟩ | hempty | hnew
    · rw [hsame]
      split
      · rename_i hdone
        rw [Function.update_of_ne (hother hdone)]
        exact h.tied
      · exact h.tied
    · exact Tied.of_unarmed hempty
    · -- the token of the load was not issued when the identity was taken
      intro hholds
      rcases hfresh with hzero | hunissued
      · exact absurd (hholds.2.2.trans (hnew.trans hzero)) hholds.2.1
      · exact absurd (hnew ▸ hholds.2.2 ▸ h.issued) hunissued

theorem EntryOk.entered {s : Snapshots} (hissued : ∀ k, Issued s.store
    (s.table.slots k).snapshotId.instanceId) (progSlot : Int) (slot : Word) (args : Vector Word 6)
    (ex : SnapshotRun) (h : (s.entryRecord progSlot slot args ex).frame.snapshot.isSome) :
    ∃ id, s.EntryOk (s.entryRecord progSlot slot args ex) id := by
  change (lsVmSnapshotIdentity s.table progSlot).isSome at h
  by_cases hkind : InTable progSlot ∧ (s.table.slots progSlot.toNat).isSnapshot = true
  · refine ⟨_, if_pos hkind, hkind.1, hissued progSlot.toNat, ?_, rfl, rfl⟩
    intro _
    refine ⟨hkind.2, ?_, ?_⟩
    · exact UInt64.le_refl _
    · intro _ _
      exact ⟨rfl, rfl⟩
  · rw [lsVmSnapshotIdentity, if_neg hkind] at h
    contradiction

/-! ## Returns -/

/-- What ties a return to the entry of its frame. -/
structure Follows (e : EntryRecord) (r : ReturnRecord) : Prop where
  sequence : r.ctx.sequence = e.frame.seq
  progSlot : r.progSlot = e.frame.progSlot
  identity : e.frame.snapshot = some r.identity
  /-- The program that completes is the one of the entry, and its slot has not changed. -/
  unchanged : r.completed = true → r.changes = e.changes ∧ r.vm = e.vm
  captured : r.ctx.flags = if e.left.isSome then lsSnapshotCaptured else 0
  state : r.ctx.state = e.left.getD (Vector.replicate 4 0)
  address : r.address = e.frame.realRet
  counted : r.errorsAfter = if r.completed then r.errorsBefore else r.errorsBefore + 1

theorem reclaim_suffix (watermark : Word) (frames : List Frame) :
    ∀ fx : Fexit.State, (reclaim watermark fx frames).stack <:+ frames ∧
      (reclaim watermark fx frames).seq = fx.seq := by
  induction frames with
  | nil =>
      intro fx
      exact ⟨List.suffix_refl _, rfl⟩
  | cons f below ih =>
      intro fx
      unfold reclaim
      split
      · obtain ⟨hsuffix, hseq⟩ := ih { fx with reclaimed := fx.reclaimed + 1 }
        exact ⟨hsuffix.trans (List.suffix_cons f below), hseq⟩
      · exact ⟨List.suffix_refl _, rfl⟩

/-- A leave runs the program of one of the frames, or of none. -/
theorem lsFexitLeave_cases (fx : Fexit.State) (cur retval : Word) :
    (∀ f ∈ (lsFexitLeave fx cur retval).fx.stack, f ∈ fx.stack) ∧
      (lsFexitLeave fx cur retval).fx.seq = fx.seq ∧
      ((lsFexitLeave fx cur retval).run = none ∨
        ∃ f ∈ fx.stack, (lsFexitLeave fx cur retval).run = some (f.returnRun retval) ∧
          (lsFexitLeave fx cur retval).ret = f.realRet) := by
  obtain ⟨hsuffix, hseq⟩ := reclaim_suffix (cur - 8) fx.stack fx
  unfold lsFexitLeave
  dsimp only
  split
  · rename_i hempty
    exact ⟨fun f hf => hsuffix.subset hf, hseq, Or.inl rfl⟩
  · rename_i f below hstack
    rw [hstack] at hsuffix
    split
    · refine ⟨?_, hseq, Or.inl rfl⟩
      intro g hg
      exact hsuffix.subset (hstack ▸ hg)
    · refine ⟨?_, hseq, Or.inr ⟨f, hsuffix.subset List.mem_cons_self, rfl, rfl⟩⟩
      intro g hg
      exact hsuffix.subset (List.mem_cons_of_mem f hg)

theorem EntryOk.returned {s : Snapshots} {e : EntryRecord} {id : SnapshotId} (h : s.EntryOk e id)
    {progSlot : Int} {identity : SnapshotId} {ctx : SnapshotCtx} {retval : Word}
    (hrun : e.frame.returnRun retval = .snapshot progSlot identity ctx) (ex : SnapshotRun) :
    Follows e (s.returnRecord progSlot identity ctx e.frame.realRet ex) := by
  unfold Frame.returnRun at hrun
  rw [h.identity] at hrun
  injection hrun with hslot hid hctx
  subst hslot hid hctx
  refine ⟨rfl, rfl, h.identity, ?_, ?_, h.state, rfl, ?_⟩
  · intro hcompleted
    -- a completed call was admitted
    change (lsVmSnapshotCall s.table ex e.frame.progSlot id _).isSome = true at hcompleted
    unfold lsVmSnapshotCall at hcompleted
    split at hcompleted
    · rename_i hadmitted
      exact h.tied.of_admits hadmitted.2.2.2
    · contradiction
  · change (if e.frame.captured = true then lsSnapshotCaptured else 0) = _
    rw [h.captured]
  · exact countError_self s.returnErrors e.frame.progSlot _

/-! ## Runs -/

/-- What holds between calls. -/
structure SnapshotsOk (s : Snapshots) : Prop where
  issued : ∀ k, Issued s.store (s.table.slots k).snapshotId.instanceId
  entries : ∀ e ∈ s.entries, ∃ id, s.EntryOk e id
  frames : ∀ f ∈ s.fx.stack, f.snapshot.isSome → ∃ e ∈ s.entries, e.frame = f
  numbered : ∀ e ∈ s.entries, e.frame.seq ≤ s.fx.seq
  distinct : (s.entries.map fun e => e.frame.seq).Nodup
  returns : ∀ r ∈ s.returns, ∃ e ∈ s.entries, Follows e r

theorem SnapshotsOk.start {s : Snapshots} (h : s.Start) : SnapshotsOk s := by
  obtain ⟨htable, hfx, hentries, hreturns⟩ := h
  refine ⟨?_, ?_, ?_, ?_, ?_, ?_⟩
  · intro k
    rw [htable]
    change 0 < 2 ^ 63 + 64 * (s.store.nextInstance + 1)
    omega
  · intro e he
    rw [hentries] at he
    contradiction
  · intro f hf
    rw [hfx] at hf
    contradiction
  · intro e he
    rw [hentries] at he
    contradiction
  · rw [hentries]
    exact List.nodup_nil
  · intro r hr
    rw [hreturns] at hr
    contradiction

theorem SnapshotsOk.enter {s : Snapshots} (h : SnapshotsOk s) (stub : Word) (progSlot : Int)
    (slot : Word) (args : Vector Word 6) (ex : SnapshotRun) :
    SnapshotsOk (s.enter stub progSlot slot args ex) := by
  unfold Snapshots.enter
  dsimp only
  by_cases hroom : s.fx.HasRoom
  · rw [lsFexitEnter_room hroom]
    dsimp only
    have hseq : ∀ seq : Word, seq ≤ s.fx.seq → seq < s.fx.seq + 1 := by
      intro seq hle
      have hlast : s.fx.seq.toNat ≠ 2 ^ 64 - 1 := by
        intro heq
        exact hroom.2 (UInt64.toNat_inj.mp heq)
      have hbound := s.fx.seq.toNat_lt
      rw [UInt64.lt_iff_toNat_lt, UInt64.toNat_add, UInt64.toNat_one]
      rw [UInt64.le_iff_toNat_le] at hle
      omega
    split
    · rename_i hsnapshot
      refine { h with entries := ?_, frames := ?_, numbered := ?_, distinct := ?_, returns := ?_ }
      · intro e he
        rcases List.mem_cons.mp he with rfl | hold
        · exact EntryOk.entered h.issued progSlot slot args ex hsnapshot.2
        · exact h.entries e hold
      · intro f hf hkind
        rcases List.mem_cons.mp hf with rfl | hold
        · exact ⟨_, List.mem_cons_self, rfl⟩
        · obtain ⟨e, he, hframe⟩ := h.frames f hold hkind
          exact ⟨e, List.mem_cons_of_mem _ he, hframe⟩
      · intro e he
        rcases List.mem_cons.mp he with rfl | hold
        · exact UInt64.le_refl _
        · exact UInt64.le_of_lt (hseq _ (h.numbered e hold))
      · rw [List.map_cons, List.nodup_cons]
        refine ⟨?_, h.distinct⟩
        intro hmem
        obtain ⟨e, he, heq⟩ := List.mem_map.mp hmem
        have hlt := hseq _ (h.numbered e he)
        rw [heq] at hlt
        exact UInt64.lt_irrefl _ hlt
      · intro r hr
        obtain ⟨e, he, hfollows⟩ := h.returns r hr
        exact ⟨e, List.mem_cons_of_mem _ he, hfollows⟩
    · rename_i hvalue
      refine { h with frames := ?_, numbered := ?_ }
      · intro f hf hkind
        rcases List.mem_cons.mp hf with rfl | hold
        · exact absurd ⟨hroom, hkind⟩ hvalue
        · exact h.frames f hold hkind
      · intro e he
        exact UInt64.le_of_lt (hseq _ (h.numbered e he))
  · rw [lsFexitEnter_full hroom, if_neg fun hboth => hroom hboth.1]
    exact { h with }

theorem SnapshotsOk.leave {s : Snapshots} (h : SnapshotsOk s) (cur retval : Word)
    (ex : SnapshotRun) : SnapshotsOk (s.leave cur retval ex) := by
  obtain ⟨hstack, hseq, hrun⟩ := lsFexitLeave_cases s.fx cur retval
  have hframes : ∀ f ∈ (lsFexitLeave s.fx cur retval).fx.stack, f.snapshot.isSome →
      ∃ e ∈ s.entries, e.frame = f := fun f hf => h.frames f (hstack f hf)
  have hnumbered : ∀ e ∈ s.entries, e.frame.seq ≤ (lsFexitLeave s.fx cur retval).fx.seq := by
    rw [hseq]
    exact h.numbered
  unfold Snapshots.leave
  dsimp only
  split
  · rename_i progSlot identity ctx heq
    rcases hrun with hnone | ⟨f, hf, hsome, hret⟩
    · rw [hnone] at heq
      contradiction
    · rw [hsome] at heq
      have hreturn := Option.some.inj heq
      have hkind : f.snapshot.isSome := by
        unfold Frame.returnRun at hreturn
        cases hsnapshot : f.snapshot with
        | some id => rfl
        | none =>
            rw [hsnapshot] at hreturn
            contradiction
      obtain ⟨e, he, rfl⟩ := h.frames f hf hkind
      obtain ⟨id, hok⟩ := h.entries e he
      refine { h with frames := hframes, numbered := hnumbered, returns := ?_ }
      intro r hr
      rcases List.mem_cons.mp hr with rfl | hold
      · refine ⟨e, he, ?_⟩
        rw [hret]
        exact EntryOk.returned hok hreturn ex
      · exact h.returns r hold
  · exact { h with frames := hframes, numbered := hnumbered }

theorem SnapshotsOk.reload {s : Snapshots} (h : SnapshotsOk s) (slot : Nat) (o : Object)
    (mode : Nat) (token : Bool) : SnapshotsOk (s.reload slot o mode token) := by
  have hentries : ∀ e ∈ s.entries, ∃ id, (s.reload slot o mode token).EntryOk e id := by
    intro e he
    obtain ⟨id, hok⟩ := h.entries e he
    exact ⟨id, EntryOk.reload hok slot o mode token⟩
  obtain ⟨hle, hissued, _⟩ := token_cases s slot token
  unfold Snapshots.reload at hentries ⊢
  generalize s.token slot token = issued at *
  obtain ⟨loading, store⟩ := issued
  dsimp only at *
  split
  · exact h
  · rename_i hgo
    rw [if_neg hgo] at hentries
    refine { h with issued := ?_, entries := hentries }
    intro k
    dsimp only
    rcases reload_instances slot o loading mode s.table k with hnew | ⟨j, hold⟩
    · rw [hnew]
      exact hissued
    · rw [hold]
      exact (h.issued j).mono hle

theorem SnapshotsOk.setMode {s : Snapshots} (h : SnapshotsOk s) (slot mode : Nat) :
    SnapshotsOk (s.setMode slot mode) := by
  refine { h with issued := ?_, entries := ?_ }
  · intro k
    change Issued s.store ((((lsVmSetMode slot mode).final s.table).slots k).snapshotId.instanceId)
    rw [final_lsVmSetMode]
    split
    · exact h.issued k
    · by_cases hk : k = slot
      · rw [withSlot_slots, hk, Function.update_self, LsSlot.withMode]
        dsimp only
        split
        · exact h.issued slot
        · exact h.issued slot
      · rw [withSlot_slots, Function.update_of_ne hk]
        exact h.issued k
  · intro e he
    obtain ⟨id, hok⟩ := h.entries e he
    exact ⟨id, EntryOk.setMode hok slot mode⟩

theorem snapshots_ok (stub : Word) : ∀ s, (snapshotMachine stub).Reachable s → SnapshotsOk s := by
  apply Machine.Reachable.invariant
  · intro s hs
    exact SnapshotsOk.start hs
  · intro s a s' _ hok hnext
    cases a with
    | enter progSlot slot args ex =>
        obtain rfl := Option.some.inj hnext
        exact hok.enter stub progSlot slot args ex
    | leave cur retval ex =>
        obtain rfl := Option.some.inj hnext
        exact hok.leave cur retval ex
    | reload slot o mode token =>
        obtain rfl := Option.some.inj hnext
        exact hok.reload slot o mode token
    | setMode slot mode =>
        obtain rfl := Option.some.inj hnext
        exact hok.setMode slot mode

/-- Every return follows the entry of its own frame, the only one with its number. -/
theorem return_follows_entry (stub : Word) (s : Snapshots)
    (hs : (snapshotMachine stub).Reachable s) :
    (s.entries.map fun e => e.frame.seq).Nodup ∧
      ∀ r ∈ s.returns, ∃ e ∈ s.entries, Follows e r := by
  have hok := snapshots_ok stub s hs
  exact ⟨hok.distinct, hok.returns⟩

def snapshotStart : Snapshots where
  table := .initial
  store := .initial 7
  fx := lsFexitReset
  mem _ := 0x400000
  entryErrors _ := 0
  returnErrors _ := 0
  changes _ := 0
  entries := []
  returns := []

def snapshotObject : Object where
  sectionName := snapshotBytes
  symbolInSection := true
  safeValue := 0
  created := true
  stackRegistered := true
  glueInstalled := true
  relocated := true
  references := []
  loaded := true
  jit := none

/-- The program keeps the number of the call. -/
def keepNumber : SnapshotRun where
  stackReady := true
  admitted := true
  left ctx := some (Vector.replicate 4 ctx.sequence)

/-- The mode is set between an entry and a nested one. -/
def nestedSnapshots : List SnapshotAct :=
  [.reload 0 snapshotObject lsModeMonitor true,
    .enter 0 0x1000 (Vector.replicate 6 1) keepNumber, .setMode 0 lsModeMonitor,
    .enter 0 0xf00 (Vector.replicate 6 2) keepNumber, .leave 0xf08 9 keepNumber,
    .leave 0x1008 9 keepNumber]

/-- The state after {lit}`nestedSnapshots`. -/
def afterNested : Snapshots :=
  ((snapshotMachine 0xdead).run snapshotStart nestedSnapshots).getD snapshotStart

theorem return_follows_entry_nested :
    afterNested.returns.map (fun r => (r.completed, r.address, r.errorsAfter)) =
        [(false, 0x400000, 1), (true, 0x400000, 0)] ∧
      ∀ r ∈ afterNested.returns, ∃ e ∈ afterNested.entries, Follows e r :=
  ⟨by decide +kernel, (return_follows_entry 0xdead afterNested
    (Machine.reachable_run_getD (.start ⟨rfl, rfl, rfl, rfl⟩) (by decide +kernel))).2⟩

end Vm
end LiveSurface
