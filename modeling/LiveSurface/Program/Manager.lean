import LiveSurface.Config.Store
import LiveSurface.Library.StoreProgram
import LiveSurface.Map.Table

/-!
# The program manager

A program is one signed object with up to twelve entries.  Each entry has a VM
slot, and can be linked to a site, a patched function entry that several
programs may share.  Five control operations load a program, set its mode, link
and unlink its entries, and revoke it.

Every operation is a program that emits single stores: the locked part of an
operation is the sequence of stores it makes between taking and releasing the
gate, and the preparation and the rollback of a load are the stores it makes
outside.  What the code cannot decide itself is an argument: whether the gate
was free, what the patch callback answers, how the preparation of a VM ends.

Beside the manager's own tables the state has the text the patch callback
writes, as the site each address calls, and the identities of the VMs that have
been created and destroyed.
-/

namespace LiveSurface
namespace Program

open Config StoreProgram

/-! ## Tables -/

def lsProgramMax : Nat := 8
def lsProgramEntries : Nat := 12
def lsProgramSites : Nat := 12
def lsProgramConfigBase : Nat := 56
def lsLegacySlots : Nat := 12
def lsModeDisable : Nat := 0
def lsModeMonitor : Nat := 1
def lsModeEnforce : Nat := 2

/-- One entry program and the function it is signed for. -/
structure LsProgramEntry where
  /-- The bytes of the section name's array. -/
  sectionName : List UInt8
  address : UInt64
  pad : UInt64
deriving DecidableEq

/-- The maps a program declares. -/
structure LsMapNamespace where
  shapes : List (List UInt8 × Map.LsMapDef)
  generation : Nat
  bank : Nat
deriving DecidableEq

structure LsOwnedProgram where
  /-- Zero while nothing is published. -/
  instanceId : UInt64
  count : Nat
  mode : Nat
  ceiling : Nat
  maps : LsMapNamespace
  entries : Nat → LsProgramEntry
  /-- The site each entry is linked to; {lit}`none` is the source's -1. -/
  sites : Nat → Option Nat

structure LsSite where
  address : UInt64
  returnIp : UInt64
  safeValue : UInt64
  users : Nat
  owned : Bool
deriving DecidableEq

/-- A VM slot.  Its counters and samples are left out. -/
structure LsSlot where
  owner : Nat
  vm : Option Nat
  mode : Nat
  armed : Bool
  safeValue : UInt64
deriving DecidableEq

structure Manager where
  programs : Nat → LsOwnedProgram
  sites : Nat → LsSite
  slots : Nat → LsSlot
  config : LsConfigStore
  /-- The site whose trampoline the text at an address calls. -/
  text : UInt64 → Option Nat
  nextVm : Nat
  freed : List Nat

def LsProgramEntry.zero : LsProgramEntry where
  sectionName := List.replicate 80 0
  address := 0
  pad := 0

def LsMapNamespace.zero : LsMapNamespace where
  shapes := []
  generation := 0
  bank := 0

def LsOwnedProgram.zero : LsOwnedProgram where
  instanceId := 0
  count := 0
  mode := lsModeDisable
  ceiling := 0
  maps := .zero
  entries _ := .zero
  sites _ := some 0

def LsSite.zero : LsSite where
  address := 0
  returnIp := 0
  safeValue := 0
  users := 0
  owned := false

def LsSlot.zero : LsSlot where
  owner := 0
  vm := none
  mode := lsModeDisable
  armed := false
  safeValue := 0

/-- Everything zero, with whichever session the loader chose. -/
def Manager.initial (session : UInt64) : Manager where
  programs _ := .zero
  sites _ := .zero
  slots _ := .zero
  config := .initial session
  text _ := none
  nextVm := 0
  freed := []

/-! ## Stores -/

inductive Store
  | program (id : Nat) (f : LsOwnedProgram → LsOwnedProgram)
  | site (i : Nat) (f : LsSite → LsSite)
  | slot (k : Nat) (f : LsSlot → LsSlot)
  | config (f : LsConfigStore → LsConfigStore)
  /-- A patch callback that succeeded. -/
  | patched (address : UInt64) (site : Option Nat)
  /-- A new VM is put into a slot. -/
  | created (k : Nat)
  /-- {lit}`ubpf_destroy` on the VM of a slot, which keeps pointing at it. -/
  | destroyed (k : Nat)

def Manager.store (m : Manager) : Store → Manager
  | .program id f => { m with programs := Function.update m.programs id (f (m.programs id)) }
  | .site i f => { m with sites := Function.update m.sites i (f (m.sites i)) }
  | .slot k f => { m with slots := Function.update m.slots k (f (m.slots k)) }
  | .config f => { m with config := f m.config }
  | .patched address site => { m with text := Function.update m.text address site }
  | .created k =>
      { m with
        slots := Function.update m.slots k { m.slots k with vm := some m.nextVm }
        nextVm := m.nextVm + 1 }
  | .destroyed k => { m with freed := (m.slots k).vm.toList ++ m.freed }

instance : Stores Manager Store where
  store := Manager.store

@[simp]
theorem store_program (m : Manager) (id : Nat) (f : LsOwnedProgram → LsOwnedProgram) :
    Stores.store m (.program id f) =
      { m with programs := Function.update m.programs id (f (m.programs id)) } := rfl

@[simp]
theorem store_site (m : Manager) (i : Nat) (f : LsSite → LsSite) :
    Stores.store m (.site i f) =
      { m with sites := Function.update m.sites i (f (m.sites i)) } := rfl

@[simp]
theorem store_slot (m : Manager) (k : Nat) (f : LsSlot → LsSlot) :
    Stores.store m (.slot k f) =
      { m with slots := Function.update m.slots k (f (m.slots k)) } := rfl

@[simp]
theorem store_config (m : Manager) (f : LsConfigStore → LsConfigStore) :
    Stores.store m (.config f) = { m with config := f m.config } := rfl

@[simp]
theorem store_patched (m : Manager) (address : UInt64) (site : Option Nat) :
    Stores.store m (.patched address site) =
      { m with text := Function.update m.text address site } := rfl

@[simp]
theorem store_created (m : Manager) (k : Nat) :
    Stores.store m (.created k) =
      { m with
        slots := Function.update m.slots k { m.slots k with vm := some m.nextVm }
        nextVm := m.nextVm + 1 } := rfl

@[simp]
theorem store_destroyed (m : Manager) (k : Nat) :
    Stores.store m (.destroyed k) =
      { m with freed := (m.slots k).vm.toList ++ m.freed } := rfl

abbrev Ctl := StoreProgram Manager Store

/-- The patch callback: address, site, install; {lit}`true` when it succeeds. -/
abbrev Patch := UInt64 → Nat → Bool → Bool

/-! ## Finding a program -/

/-- {lit}`ls_program_find` returns a program. -/
def lsProgramFind (m : Manager) (id : Nat) (instanceId : UInt64) : Bool :=
  !(decide (id ≥ lsProgramMax) || instanceId == 0 ||
    (m.programs id).instanceId != instanceId)

def lsProgramSlot (id entry : Nat) : Nat := lsLegacySlots + id * lsProgramEntries + entry

def configSlot (id : Nat) : Nat := lsProgramConfigBase + id

/-- Slots of different entries differ. -/
theorem lsProgramSlot_inj {id id' e e' : Nat} (he : e < lsProgramEntries)
    (he' : e' < lsProgramEntries) (h : lsProgramSlot id e = lsProgramSlot id' e') :
    id = id' ∧ e = e' := by
  simp only [lsProgramSlot, lsProgramEntries] at he he' h
  omega

theorem configSlot_inj {id id' : Nat} (h : configSlot id = configSlot id') : id = id' := by
  simp only [configSlot] at h
  omega

/-! ## Load -/

/-- How {lit}`ls_vm_prepare_slot` ends, with what it wrote on the way. -/
inductive Prepared
  | refused
  /-- The VM was created and destroyed again. -/
  | failed (safeValue : UInt64) (shapes : List (List UInt8 × Map.LsMapDef))
  | ready (safeValue : UInt64) (shapes : List (List UInt8 × Map.LsMapDef))
deriving DecidableEq

structure LoadRequest where
  elf : Option (List UInt8)
  entries : Option (Nat → LsProgramEntry)
  count : Nat
  sha : Option (List UInt8)
  ceiling : Nat
  prepare : Nat → Prepared

/-- The bytes of a section name before its terminator. -/
def cString (bytes : List UInt8) : List UInt8 := bytes.takeWhile (· != 0)

/-- The bytes of {lit}`fentry/`. -/
def fentryBytes : List UInt8 := [102, 101, 110, 116, 114, 121, 47]

/-- What {lit}`ls_program_load` asks of one entry by itself. -/
def entryValid (e : LsProgramEntry) : Bool :=
  e.sectionName.contains 0 && fentryBytes.isPrefixOf (cString e.sectionName) &&
    (cString e.sectionName).length != 7 && e.address != 0 && (e.pad == 0 || e.pad == 4) &&
    !(decide (e.address.toNat > uint64Max - e.pad.toNat - 5))

/-- Two entries of one program name different sections and functions. -/
def entriesDiffer (e e' : LsProgramEntry) : Bool :=
  cString e.sectionName != cString e'.sectionName && e.address != e'.address

def entriesValid (entries : Nat → LsProgramEntry) (count : Nat) : Bool :=
  (List.range count).all fun i => entryValid (entries i) &&
    (List.range i).all fun j => entriesDiffer (entries i) (entries j)

def loadRefused (m : Manager) (id : Nat) (r : LoadRequest) : Bool :=
  decide (id ≥ lsProgramMax) || r.count == 0 || decide (r.count > lsProgramEntries) ||
    r.elf.isNone || r.entries.isNone || r.sha.isNone || decide (r.ceiling > lsModeEnforce) ||
    (m.programs id).instanceId != 0 || (m.programs id).maps.generation == 2 ^ 55 - 1 ||
    !entriesValid (r.entries.getD (fun _ => .zero)) r.count

/-- Clear the slot of one entry and give it to the program. -/
def clearSlot (id entry : Nat) : Ctl Unit := do
  write (.slot (lsProgramSlot id entry) fun _ => .zero)
  write (.slot (lsProgramSlot id entry) fun s => { s with owner := id + 1 })

/-- Record the maps that relocation found. -/
def recordShapes (id : Nat) (shapes : List (List UInt8 × Map.LsMapDef)) : Ctl Unit :=
  write (.program id fun p => { p with maps := { p.maps with shapes := shapes } })

/-- Prepare the VM of one entry; {lit}`false` stops the load. -/
def lsVmPrepareSlot (id entry : Nat) : Prepared → Ctl Bool
  | .refused => pure false
  | .failed safeValue shapes => do
      write (.slot (lsProgramSlot id entry) fun s => { s with safeValue := safeValue })
      recordShapes id shapes
      pure false
  | .ready safeValue shapes => do
      write (.slot (lsProgramSlot id entry) fun s => { s with safeValue := safeValue })
      recordShapes id shapes
      write (.created (lsProgramSlot id entry))
      write (.slot (lsProgramSlot id entry) fun s => { s with mode := lsModeDisable })
      write (.slot (lsProgramSlot id entry) fun s => { s with armed := true })
      pure true

/-- One round of the load's loop. -/
def prepareEntry (id : Nat) (r : LoadRequest) (entry : Nat) : Ctl Bool := do
  clearSlot id entry
  if ← lsVmPrepareSlot id entry (r.prepare entry) then
    let e := r.entries.getD (fun _ => .zero) entry
    write (.program id fun p => { p with entries := Function.update p.entries entry e })
    write (.program id fun p => { p with sites := Function.update p.sites entry none })
    pure true
  else pure false

/-- The load's loop from entry {lit}`made` on; the number of VMs it made. -/
def prepareEntries (id : Nat) (r : LoadRequest) : (left made : Nat) → Ctl Nat
  | 0, made => pure made
  | left + 1, made => do
      if ← prepareEntry id r made then prepareEntries id r left (made + 1)
      else pure made

/-- The instance a load was given and how many VMs it made. -/
structure LoadPlan where
  instanceId : UInt64
  made : Nat
deriving DecidableEq

/-- Take the next instance and start a new generation of the program's maps. -/
def openBank (id : Nat) : Ctl Unit := do
  write (.config fun c => (lsConfigNewInstance c (configSlot id)).2)
  write (.program id fun p =>
    { p with maps := { shapes := [], generation := p.maps.generation + 1, bank := id } })

/-- What a load does before it asks for the gate. -/
def lsProgramLoadPrepare (id : Nat) (r : LoadRequest) : Ctl (Option LoadPlan) := do
  let m ← read
  if loadRefused m id r then pure none
  else
    let instanceId := (lsConfigNewInstance m.config (configSlot id)).1
    if instanceId = 0 then pure none
    else
      openBank id
      let made ← prepareEntries id r r.count 0
      pure (some { instanceId := instanceId, made := made })

/-- What a load does under the gate. -/
def lsProgramLoadPublish (id : Nat) (r : LoadRequest) (instanceId : UInt64) : Ctl Bool := do
  let m ← read
  if (lsConfigBind m.config (configSlot id) instanceId (r.sha.getD [])).1 then
    write (.config fun c => (lsConfigBind c (configSlot id) instanceId (r.sha.getD [])).2)
    write (.program id fun p => { p with count := r.count })
    write (.program id fun p => { p with ceiling := r.ceiling })
    write (.program id fun p => { p with instanceId := instanceId })
    pure true
  else pure false

/-- Destroy the VM of one entry and clear its slot. -/
def destroySlot (id entry : Nat) : Ctl Unit := do
  write (.destroyed (lsProgramSlot id entry))
  write (.slot (lsProgramSlot id entry) fun _ => .zero)

/-- What a load that is not published takes back. -/
def lsProgramLoadRollback (id made : Nat) : Ctl Unit :=
  forEach (destroySlot id) (List.range made)

def lsProgramLoad (gate : Bool) (id : Nat) (r : LoadRequest) : Ctl Bool := do
  match ← lsProgramLoadPrepare id r with
  | none => pure false
  | some plan =>
      if plan.made = r.count ∧ gate then
        if ← lsProgramLoadPublish id r plan.instanceId then pure true
        else
          lsProgramLoadRollback id plan.made
          pure false
      else
        lsProgramLoadRollback id plan.made
        pure false

/-! ## Mode -/

def setSlotModes (id mode count : Nat) : Ctl Unit :=
  forEach (fun entry => write (.slot (lsProgramSlot id entry) fun s => { s with mode := mode }))
    (List.range count)

/-- The stores both the mode operation and a revocation begin with. -/
def setMode (id mode : Nat) : Ctl Unit := do
  write (.program id fun p => { p with mode := mode })
  let m ← read
  setSlotModes id mode (m.programs id).count

def modeRefused (m : Manager) (id : Nat) (instanceId : UInt64) (mode : Nat) : Bool :=
  !lsProgramFind m id instanceId || decide (mode > (m.programs id).ceiling)

def lsProgramModeLocked (id mode : Nat) : Ctl Bool := do
  setMode id mode
  pure true

/-- Refuse without an effect, or do the rest under the gate. -/
def underGate (gate refused : Bool) (locked : Ctl Bool) : Ctl Bool :=
  if refused || !gate then pure false else locked

def lsProgramMode (gate : Bool) (id : Nat) (instanceId : UInt64) (mode : Nat) : Ctl Bool := do
  let m ← read
  underGate gate (modeRefused m id instanceId mode) (lsProgramModeLocked id mode)

/-! ## Attach -/

/-- The site that already patches an address. -/
def sharedSite (m : Manager) (address : UInt64) : Option Nat :=
  (List.range lsProgramSites).find? fun i =>
    (m.sites i).users != 0 && (m.sites i).address == address

/-- The first free site that the callback accepts. -/
def freeSite (m : Manager) (patch : Patch) (address : UInt64) : Option Nat :=
  (List.range lsProgramSites).find? fun i =>
    (m.sites i).users == 0 && patch address i true

def link (id entry site : Nat) : Ctl Unit := do
  write (.program id fun p => { p with sites := Function.update p.sites entry (some site) })
  write (.site site fun s => { s with users := s.users + 1 })

/-- Describe a site whose text has just been patched. -/
def claimSite (i : Nat) (address pad safe : UInt64) : Ctl Unit := do
  write (.patched address (some i))
  write (.site i fun s => { s with address := address })
  write (.site i fun s => { s with returnIp := address + pad + 5 })
  write (.site i fun s => { s with safeValue := safe })
  write (.site i fun s => { s with owned := true })

def attachRefused (m : Manager) (id : Nat) (instanceId : UInt64) (entry : Nat)
    (patch : Option Patch) : Bool :=
  !lsProgramFind m id instanceId || decide (entry ≥ (m.programs id).count) ||
    ((m.programs id).sites entry).isSome || patch.isNone

def lsProgramAttachLocked (id entry : Nat) (patch : Patch) : Ctl Bool := do
  let m ← read
  let e := (m.programs id).entries entry
  let safe := (m.slots (lsProgramSlot id entry)).safeValue
  match sharedSite m e.address with
  | some i =>
      if (m.sites i).safeValue ≠ safe then pure false
      else
        link id entry i
        pure true
  | none =>
      match freeSite m patch e.address with
      | none => pure false
      | some i => do
          claimSite i e.address e.pad safe
          link id entry i
          pure true

/-- The callback where there is one. -/
def givenPatch (patch : Option Patch) : Patch := patch.getD fun _ _ _ => false

def lsProgramAttach (gate : Bool) (id : Nat) (instanceId : UInt64) (entry : Nat)
    (patch : Option Patch) : Ctl Bool := do
  let m ← read
  underGate gate (attachRefused m id instanceId entry patch)
    (lsProgramAttachLocked id entry (givenPatch patch))

/-! ## Detach -/

def unlink (id entry site : Nat) : Ctl Unit := do
  write (.site site fun s => { s with users := s.users - 1 })
  write (.program id fun p => { p with sites := Function.update p.sites entry none })

/-- The link stays when the text cannot be restored. -/
def lsProgramDetachLocked (id entry : Nat) (patch : Patch) : Ctl Bool := do
  let m ← read
  match (m.programs id).sites entry with
  | none => pure false
  | some site =>
      if (m.sites site).users = 1 then
        if patch (m.sites site).address site false then
          write (.patched (m.sites site).address none)
          unlink id entry site
          pure true
        else pure false
      else
        unlink id entry site
        pure true

def detachRefused (m : Manager) (id : Nat) (instanceId : UInt64) (entry : Nat)
    (patch : Option Patch) : Bool :=
  !lsProgramFind m id instanceId || decide (entry ≥ (m.programs id).count) || patch.isNone

def lsProgramDetach (gate : Bool) (id : Nat) (instanceId : UInt64) (entry : Nat)
    (patch : Option Patch) : Ctl Bool := do
  let m ← read
  underGate gate (detachRefused m id instanceId entry patch)
    (lsProgramDetachLocked id entry (givenPatch patch))

/-! ## Revoke -/

/-- One round of the revocation's first loop. -/
def detachLinked (id : Nat) (patch : Patch) (entry : Nat) : Ctl Bool := do
  let m ← read
  if ((m.programs id).sites entry).isSome then lsProgramDetachLocked id entry patch
  else pure true

/-- Withdraw the configuration, release the VMs, forget the program. -/
def releaseProgram (id : Nat) : Ctl Bool := do
  let m ← read
  if (lsConfigRevoke m.config (configSlot id)).1 then
    write (.config fun c => (lsConfigRevoke c (configSlot id)).2)
    forEach (destroySlot id) (List.range (m.programs id).count)
    write (.program id fun p => { p with instanceId := 0 })
    write (.program id fun p => { p with count := 0 })
    pure true
  else pure false

def lsProgramRevokeLocked (id : Nat) (patch : Patch) : Ctl Bool := do
  setMode id lsModeDisable
  let m ← read
  if ← whileOk (detachLinked id patch) (List.range (m.programs id).count) then
    releaseProgram id
  else pure false

def revokeRefused (m : Manager) (id : Nat) (instanceId : UInt64) (patch : Option Patch) :
    Bool :=
  !lsProgramFind m id instanceId || patch.isNone

def lsProgramRevoke (gate : Bool) (id : Nat) (instanceId : UInt64) (patch : Option Patch) :
    Ctl Bool := do
  let m ← read
  underGate gate (revokeRefused m id instanceId patch)
    (lsProgramRevokeLocked id (givenPatch patch))

/-! ## Control operations -/

inductive Op
  | load (id : Nat) (r : LoadRequest)
  | attach (id : Nat) (instanceId : UInt64) (entry : Nat) (patch : Option Patch)
  | detach (id : Nat) (instanceId : UInt64) (entry : Nat) (patch : Option Patch)
  | mode (id : Nat) (instanceId : UInt64) (mode : Nat)
  | revoke (id : Nat) (instanceId : UInt64) (patch : Option Patch)

/-- The program an operation is addressed to. -/
def Op.id : Op → Nat
  | .load id _ => id
  | .attach id _ _ _ => id
  | .detach id _ _ _ => id
  | .mode id _ _ => id
  | .revoke id _ _ => id

/-- A whole operation, with the gate free or not when it asks for it. -/
def Op.run (gate : Bool) : Op → Ctl Bool
  | .load id r => lsProgramLoad gate id r
  | .attach id instanceId entry patch => lsProgramAttach gate id instanceId entry patch
  | .detach id instanceId entry patch => lsProgramDetach gate id instanceId entry patch
  | .mode id instanceId value => lsProgramMode gate id instanceId value
  | .revoke id instanceId patch => lsProgramRevoke gate id instanceId patch

/-! ## Phases

Every operation checks first, and a load prepares; then it asks for the gate,
works under it, and a load that was not published takes back what it made.  The
phases are what other parties can see between its stores. -/

/-- Check, without an effect. -/
def checkFirst (refused : Manager → Bool) : Ctl (Option LoadPlan) := do
  let m ← read
  if refused m then pure none else pure (some { instanceId := 0, made := 0 })

/-- What an operation does before it asks for the gate. -/
def Op.before : Op → Ctl (Option LoadPlan)
  | .load id r => lsProgramLoadPrepare id r
  | .attach id instanceId entry patch =>
      checkFirst fun m => attachRefused m id instanceId entry patch
  | .detach id instanceId entry patch =>
      checkFirst fun m => detachRefused m id instanceId entry patch
  | .mode id instanceId value => checkFirst fun m => modeRefused m id instanceId value
  | .revoke id instanceId patch => checkFirst fun m => revokeRefused m id instanceId patch

/-- A load that could not make all its VMs does not ask. -/
def Op.asks : Op → LoadPlan → Bool
  | .load _ r, plan => plan.made == r.count
  | _, _ => true

/-- What it does under the gate. -/
def Op.locked : Op → LoadPlan → Ctl Bool
  | .load id r, plan => lsProgramLoadPublish id r plan.instanceId
  | .attach id _ entry patch, _ => lsProgramAttachLocked id entry (givenPatch patch)
  | .detach id _ entry patch, _ => lsProgramDetachLocked id entry (givenPatch patch)
  | .mode id _ value, _ => lsProgramModeLocked id value
  | .revoke id _ patch, _ => lsProgramRevokeLocked id (givenPatch patch)

/-- What it takes back when it fails. -/
def Op.after : Op → LoadPlan → Ctl Unit
  | .load id _, plan => lsProgramLoadRollback id plan.made
  | _, _ => pure ()

/-- The phases, one after the other. -/
def Op.phased (gate : Bool) (op : Op) : Ctl Bool := do
  match ← op.before with
  | none => pure false
  | some plan =>
      if op.asks plan && gate then
        if ← op.locked plan then pure true
        else
          op.after plan
          pure false
      else
        op.after plan
        pure false

/-- A program is determined by its result and its stores from every state. -/
theorem ctl_ext {α : Type} {p q : Ctl α} (hresult : ∀ m, p.result m = q.result m)
    (hstores : ∀ m, p.stores m = q.stores m) : p = q := by
  funext m
  exact Prod.ext (hresult m) (hstores m)

/-- An operation that only checks before it asks for the gate. -/
theorem underGate_eq_phased (gate : Bool) (refused : Manager → Bool) (locked : Ctl Bool) :
    (do let m ← read; underGate gate (refused m) locked : Ctl Bool) =
      (do
        match ← checkFirst refused with
        | none => pure false
        | some _ =>
            if true && gate then
              if ← locked then pure true
              else
                pure ()
                pure false
            else
              pure ()
              pure false) := by
  apply ctl_ext
  · intro m
    cases hrefused : refused m with
    | true => simp [checkFirst, underGate, hrefused]
    | false =>
        cases gate with
        | true => cases hlocked : locked.result m <;> simp [checkFirst, underGate, hrefused, hlocked]
        | false => simp [checkFirst, underGate, hrefused]
  · intro m
    cases hrefused : refused m with
    | true => simp [checkFirst, underGate, hrefused]
    | false =>
        cases gate with
        | true => cases hlocked : locked.result m <;> simp [checkFirst, underGate, hrefused, hlocked]
        | false => simp [checkFirst, underGate, hrefused]

theorem Op.run_eq_phased (gate : Bool) (op : Op) : op.run gate = op.phased gate := by
  cases op with
  | load id r =>
      show lsProgramLoad gate id r = Op.phased gate (.load id r)
      unfold lsProgramLoad Op.phased Op.before Op.asks Op.locked Op.after
      simp only [Bool.and_eq_true, beq_iff_eq]
  | attach id instanceId entry patch => exact underGate_eq_phased gate _ _
  | detach id instanceId entry patch => exact underGate_eq_phased gate _ _
  | mode id instanceId value => exact underGate_eq_phased gate _ _
  | revoke id instanceId patch => exact underGate_eq_phased gate _ _

end Program
end LiveSurface
