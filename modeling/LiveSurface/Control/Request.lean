import LiveSurface.Program.Outside
import LiveSurface.Vm.Slots

/-!
# Control requests, one after the other

The loader serves one request after the other.  Legacy requests load a program into a
slot, set the slot's mode, patch the text of the function the program is signed for and
restore it; requests for programs with several entries go to the program manager.  Both
use one configuration store and patch the same text, and each looks at the other's tables
before it does.

A request is served here as a whole: what the prepare thread does for it is over before
the next request arrives.  Everything that can fail carries its outcome in the request.
Legacy text is recorded apart from the text of the manager; patching an address needs
both to be free.

What a slot was loaded with, and what was signed when text was patched, is remembered in
two tables that no function of the source reads.

Main definitions:

- Definition {lit}`Server.load`: the legacy branch of {lit}`ls_prep_run_pending`.
- Definition {lit}`Server.lsProgramPatch`: the callback through which the manager patches.
- Definition {lit}`Server.serve`: one request, with its answer.
-/

namespace LiveSurface
namespace Control

open Config StoreProgram Vm

/-! ## Targets -/

def shieldMaxShields : Nat := 64
def shieldHookNameMax : Nat := 64
def lsMaxSlots : Nat := 108
def lsTrampSlots : Nat := 12

/-- The bytes of {lit}`LSTARG1` and {lit}`LSTARG2`, with their terminators. -/
def lsTargetMagic : List UInt8 := [76, 83, 84, 65, 82, 71, 49, 0]
def lsTargetSnapshotMagic : List UInt8 := [76, 83, 84, 65, 82, 71, 50, 0]

/-- {lit}`struct ls_target`, the attachment record a program is signed with. -/
structure LsTarget where
  magic : List UInt8
  buildId : List UInt8
  entry : UInt64
  isExit : UInt8
  padOffset : UInt8
  reserved : List UInt8
deriving DecidableEq

def LsTarget.zero : LsTarget where
  magic := List.replicate 8 0
  buildId := List.replicate 40 0
  entry := 0
  isExit := 0
  padOffset := 0
  reserved := List.replicate 6 0

/-- The section of the program asks for a snapshot. -/
def isSnapshotSection (sectionName : List UInt8) : Bool := snapshotBytes.isPrefixOf sectionName

def isExitSection (sectionName : List UInt8) : Bool := fexitBytes.isPrefixOf sectionName

/-- What {lit}`ls_target_parse` asks of the record it has selected. -/
def LsTarget.wellFormed (t : LsTarget) (sectionName build : List UInt8) : Bool :=
  t.magic == (if isSnapshotSection sectionName then lsTargetSnapshotMagic else lsTargetMagic) &&
    !(isSnapshotSection sectionName && sectionName.length == snapshotBytes.length) &&
    t.buildId == build && t.entry != 0 && !decide (t.isExit > 1) &&
    t.isExit == (if isExitSection sectionName then 1 else 0) &&
    (t.padOffset == 0 || t.padOffset == 4) && t.reserved.all (· == 0)

/-- {lit}`ls_target_parse`, from the record that the scan of the object's sections
selects for the program's section; {lit}`none` where the scan fails. -/
def lsTargetParse (sectionName build : List UInt8) (record : Option LsTarget) :
    Option LsTarget :=
  record.filter fun t => t.wellFormed sectionName build

/-- What a slot's program was signed for, and whether its text is patched. -/
structure SignedTarget where
  target : LsTarget
  hook : List UInt8
  ceiling : Nat
  valid : Bool
  attached : Bool
deriving DecidableEq

def SignedTarget.zero : SignedTarget where
  target := .zero
  hook := List.replicate shieldHookNameMax 0
  ceiling := 0
  valid := false
  attached := false

/-! ## Numbers in names -/

/-- {lit}`isspace`. -/
def isSpace (b : UInt8) : Bool := b == 32 || (decide (9 ≤ b) && decide (b ≤ 13))

/-- The value of a digit or letter. -/
def digitValue (b : UInt8) : Option Nat :=
  if 48 ≤ b ∧ b ≤ 57 then some (b.toNat - 48)
  else if 97 ≤ b ∧ b ≤ 122 then some (b.toNat - 87)
  else if 65 ≤ b ∧ b ≤ 90 then some (b.toNat - 55)
  else none

def isDigit (base : Nat) (b : UInt8) : Bool := (digitValue b).any (· < base)

/-- The digits of a number without its sign, and the base they are written in. -/
def numberBase : List UInt8 → Nat × List UInt8
  | 48 :: x :: d :: rest =>
      if (x = 120 ∨ x = 88) ∧ isDigit 16 d then (16, d :: rest) else (8, 48 :: x :: d :: rest)
  | 48 :: rest => (8, 48 :: rest)
  | digits => (10, digits)

/-- {lit}`strtoull` with base 0: the number, and what is left of the string. -/
def strtoull (s : List UInt8) : UInt64 × List UInt8 :=
  let body := s.dropWhile isSpace
  let negative := body.head? == some 45
  let (base, digits) := numberBase (if negative ∨ body.head? = some 43 then body.tail else body)
  let number := digits.takeWhile (isDigit base)
  if number.isEmpty then (0, s)
  else
    let value := number.foldl (fun n b => n * base + (digitValue b).getD 0) 0
    (if value > uint64Max then UInt64.ofNat uint64Max
      else if negative then 0 - UInt64.ofNat value else UInt64.ofNat value,
      digits.dropWhile (isDigit base))

/-- The whole name is a number, the address. -/
def namesAddress (name : List UInt8) (address : UInt64) : Bool :=
  (strtoull name).2.isEmpty && (strtoull name).1 == address

/-! ## State -/

/-- What LOAD reads of {lit}`struct shield_binding`. -/
structure Binding where
  hook : List UInt8
  modeCeiling : Nat
  progSha256 : List UInt8
deriving DecidableEq

/-- What a program was admitted with. -/
structure Admission where
  binding : Binding
  target : LsTarget
deriving DecidableEq

/-- A legacy patch: the trampoline the text calls, and what was signed at the time. -/
structure LegacyPatch where
  slot : Nat
  isExit : Bool
  target : LsTarget
  hook : List UInt8
deriving DecidableEq

structure Server where
  manager : Program.Manager
  table : SlotTable
  targets : Nat → SignedTarget
  /-- The legacy patch of the function at an address. -/
  text : UInt64 → Option LegacyPatch
  /-- The admission of each VM. -/
  admitted : Nat → Option Admission
  buildId : List UInt8

def Server.initial (session : UInt64) (buildId : List UInt8) : Server where
  manager := .initial session
  table := .initial
  targets _ := .zero
  text _ := none
  admitted _ := none
  buildId := buildId

def Server.config (s : Server) : LsConfigStore := s.manager.config

def Server.withConfig (s : Server) (c : LsConfigStore) : Server :=
  { s with manager := { s.manager with config := c } }

/-- What {lit}`ls_vm_stats` tells of a slot. -/
structure LsStats where
  armed : Bool
  isExit : Bool
  mode : Nat
deriving DecidableEq

/-- A managed slot never holds an exit program. -/
def Server.lsVmStats (s : Server) (slot : Nat) : Option LsStats :=
  if slot ≥ lsMaxSlots then none
  else if slot < lsLegacySlots then
    some {
      armed := (s.table.slots slot).armed
      isExit := (s.table.slots slot).isExit
      mode := (s.table.slots slot).mode }
  else
    some {
      armed := (s.manager.slots slot).armed
      isExit := false
      mode := (s.manager.slots slot).mode }

/-! ## Text -/

/-- The pad of the function has its NOPs. -/
def Server.isPad (s : Server) (address : UInt64) : Bool :=
  (s.text address).isNone && (s.manager.text address).isNone

/-- {lit}`ls_arm_live` succeeds; {lit}`swapped` is what it cannot decide itself: that the
function has a pad, the trampoline is in reach and the text can be written. -/
def Server.lsArmLive (s : Server) (address : UInt64) (slot : Nat) (swapped : Bool) : Bool :=
  s.isPad address && decide (slot < lsTrampSlots) && swapped

def Server.lsDisarmLive (s : Server) (address : UInt64) (swapped : Bool) : Bool :=
  !s.isPad address && swapped

/-- A legacy slot that is attached stands in the way of a site. -/
def SignedTarget.conflicts (row : SignedTarget) (i : Nat) (address : UInt64) (site : Nat) : Bool :=
  row.attached && (i == site || row.target.entry == address)

/-- The callback through which the manager patches text. -/
def Server.lsProgramPatch (s : Server) (swap : Program.Patch) : Program.Patch :=
  fun address site install =>
    if site ≥ Program.lsProgramSites then false
    else if (List.range shieldMaxShields).any fun i => (s.targets i).conflicts i address site then
      false
    else if install then s.lsArmLive address site (swap address site true)
    else s.lsDisarmLive address (swap address site false)

/-- {lit}`ls_program_site_owned`. -/
def lsProgramSiteOwned (m : Program.Manager) (site : Nat) (address : UInt64) : Bool :=
  (List.range Program.lsProgramSites).any fun i =>
    (m.sites i).owned && (site == i || (address != 0 && (m.sites i).address == address))

/-! ## LOAD -/

structure Load where
  epoch : Nat
  mode : Nat
  binding : Binding
  object : Object
  /-- The record that the scan of the object selects. -/
  record : Option LsTarget
  /-- The gates on the loader thread and the signature check let the request pass. -/
  authorized : Bool
  /-- {lit}`ls_target_check_file` agrees with the target. -/
  inFile : Bool

/-- The signed target, build and mode contract. -/
def Server.contract (s : Server) (r : Load) : Option LsTarget :=
  if r.epoch ≥ shieldMaxShields ∨ !r.binding.hook.contains 0 ∨ r.binding.modeCeiling > lsModeEnforce ∨
      r.mode > r.binding.modeCeiling then none
  else (lsTargetParse r.object.sectionName s.buildId r.record).filter fun _ => r.inFile

/-- A snapshot only observes. -/
def snapshotRefused (r : Load) (target : LsTarget) : Bool :=
  target.magic == lsTargetSnapshotMagic &&
    (decide (r.binding.modeCeiling > lsModeMonitor) || decide (r.mode > lsModeMonitor))

/-- A slot whose text is patched keeps its target and its hook. -/
def SignedTarget.mismatches (row : SignedTarget) (r : Load) (target : LsTarget) : Bool :=
  row.attached && (target != row.target ||
    Program.cString r.binding.hook != Program.cString row.hook)

/-- The checks of a load before it takes an instance. -/
def Server.checkLoad (s : Server) (r : Load) : Option LsTarget :=
  if r.epoch ≥ lsLegacySlots ∨ !r.authorized then none
  else
    (s.contract r).filter fun target =>
      !snapshotRefused r target && !(s.targets r.epoch).mismatches r target

/-- The slot takes over what its new program is signed for. -/
def SignedTarget.signed (row : SignedTarget) (r : Load) (target : LsTarget) : SignedTarget :=
  { row with
    target := target
    hook := r.binding.hook
    ceiling := r.binding.modeCeiling
    valid := true }

/-- Bind the configuration of a program that is now in its slot. -/
def Server.bind (s : Server) (r : Load) (target : LsTarget) (vm : Nat) (instanceId : UInt64) :
    Bool × Server :=
  let bound := lsConfigBind s.config r.epoch instanceId r.binding.progSha256
  if bound.1 then
    (true, { s.withConfig bound.2 with
      targets := Function.update s.targets r.epoch ((s.targets r.epoch).signed r target)
      admitted := Function.update s.admitted vm
        (some { binding := r.binding, target := target }) })
  else (false, { s with table := (lsVmSetMode r.epoch lsModeDisable).final s.table })

/-- Load the program and bind its configuration. -/
def Server.reload (s : Server) (r : Load) (target : LsTarget) : Bool × Server :=
  let fresh := lsConfigNewInstance s.config r.epoch
  if fresh.1 = 0 ∨ (s.config.slots r.epoch).sequence > uint64Max - 2 then
    (false, s.withConfig fresh.2)
  else
    let reload := lsVmReload r.epoch r.object fresh.1 r.mode
    let loaded := { s.withConfig fresh.2 with table := reload.final s.table }
    if reload.result s.table then loaded.bind r target s.table.nextVm fresh.1
    else (false, loaded)

def Server.load (s : Server) (r : Load) : Bool × Server :=
  match s.checkLoad r with
  | none => (false, s)
  | some target => s.reload r target

/-! ## The other legacy requests -/

def Server.setMode (s : Server) (epoch mode : Nat) : Bool × Server :=
  if epoch ≥ lsLegacySlots then (false, s)
  else if mode ≠ lsModeDisable ∧ (epoch ≥ shieldMaxShields ∨ (s.targets epoch).valid = false ∨
      mode > (s.targets epoch).ceiling) then (false, s)
  else (true, { s with table := (lsVmSetMode epoch mode).final s.table })

/-- A slot runs a program. -/
def Server.isActive (s : Server) (slot : Nat) : Bool :=
  (s.lsVmStats slot).any fun st => st.armed && st.mode != lsModeDisable

/-- Disable a slot, withdraw its configuration, and empty the registry when no slot runs
a program. -/
def Server.revoke (s : Server) (epoch : Nat) (readers : Bool) : Bool × Server :=
  if epoch ≥ lsLegacySlots then (false, s)
  else
    let disabled := { s with table := (lsVmSetMode epoch lsModeDisable).final s.table }
    let withdrawn := disabled.withConfig (lsConfigRevoke disabled.config epoch).2
    if (List.range shieldMaxShields).any withdrawn.isActive then (true, withdrawn)
    else
      (true, { withdrawn with
        table := { withdrawn.table with
          registry := (Map.lsMapResetShapes withdrawn.table.registry readers).2 } })

/-- The string in the name field of a message. -/
def messageName (hook : List UInt8) : List UInt8 := Program.cString (hook.take shieldHookNameMax)

def Server.attach (s : Server) (slot : Nat) (isExit : Bool) : Server :=
  let row := s.targets slot
  { s with
    targets := Function.update s.targets slot { row with attached := true }
    text := Function.update s.text row.target.entry
      (some { slot := slot, isExit := isExit, target := row.target, hook := row.hook }) }

/-- Patch the function that the slot's program is signed for. -/
def Server.arm (s : Server) (slot : Nat) (hook : List UInt8) (swapped : Bool) : Bool × Server :=
  let row := s.targets slot
  let name := messageName hook
  if slot ≥ shieldMaxShields ∨ row.valid = false then (false, s)
  else if lsProgramSiteOwned s.manager slot row.target.entry then (false, s)
  else if name ≠ [] ∧ name ≠ Program.cString row.hook ∧ !namesAddress name row.target.entry then
    (false, s)
  else if row.attached then (false, s)
  else
    match s.lsVmStats slot with
    | none => (false, s)
    | some st =>
        if st.armed = false then (false, s)
        else if s.lsArmLive row.target.entry slot swapped then (true, s.attach slot st.isExit)
        else (false, s)

/-- The request names this attached slot. -/
def SignedTarget.named (row : SignedTarget) (slot epoch : Nat) (name : List UInt8) : Bool :=
  row.attached && ((name.isEmpty && epoch == slot) || name == Program.cString row.hook ||
    (!name.isEmpty && namesAddress name row.target.entry))

def Server.detach (s : Server) (slot : Nat) : Server :=
  { s with
    targets := Function.update s.targets slot { s.targets slot with attached := false }
    text := Function.update s.text (s.targets slot).target.entry none }

/-- Restore the text of the first attached slot that the request names. -/
def Server.disarm (s : Server) (epoch : Nat) (hook : List UInt8) (swapped : Bool) :
    Bool × Server :=
  match (List.range shieldMaxShields).find? fun i =>
      (s.targets i).named i epoch (messageName hook) with
  | none => (false, s)
  | some slot =>
      if s.lsDisarmLive (s.targets slot).target.entry swapped then (true, s.detach slot)
      else (false, s)

/-- Publish a configuration, where a program is loaded. -/
def Server.publishConfig (s : Server) (slot : Nat) (body : Option (List UInt8)) :
    Bool × Server :=
  if slot ≥ lsConfigSlots ∨ s.config.session = 0 ∨
      (s.config.slots slot).current.instanceId = 0 then (false, s)
  else
    let published := lsConfigPublish s.config slot body
    (published.1.isNone, s.withConfig published.2)

/-- Build a program, run it and drop it; {lit}`measured` tells how the run ends. -/
def lsVmBenchProgram (o : Object) (measured : Bool) : Ctl Bool :=
  if o.symbolInSection && o.created then do
    write .created
    if o.stackRegistered then do
      write (.loadError false)
      if o.glueInstalled then do
        forEach (relocate 0) o.references
        let t ← read
        pure (o.loaded && !t.loadError && measured)
      else pure false
    else pure false
  else pure false

/-! ## Requests to the manager -/

inductive ProgramRequest
  | load (id : Nat) (r : Program.LoadRequest)
  | attach (id : Nat) (instanceId : UInt64) (entry : Nat)
  | detach (id : Nat) (instanceId : UInt64) (entry : Nat)
  | mode (id : Nat) (instanceId : UInt64) (value : Nat)
  | revoke (id : Nat) (instanceId : UInt64)

/-- The operation of the manager, with the callback it patches through. -/
def ProgramRequest.op (patch : Program.Patch) : ProgramRequest → Program.Op
  | .load id r => .load id r
  | .attach id instanceId entry => .attach id instanceId entry (some patch)
  | .detach id instanceId entry => .detach id instanceId entry (some patch)
  | .mode id instanceId value => .mode id instanceId value
  | .revoke id instanceId => .revoke id instanceId (some patch)

/-- {lit}`gate` tells whether the gate is free, {lit}`swap` how each swap of text ends. -/
def Server.program (s : Server) (gate : Bool) (r : ProgramRequest) (swap : Program.Patch) :
    Bool × Server :=
  let run := (r.op (s.lsProgramPatch swap)).run gate
  (run.result s.manager, { s with manager := run.final s.manager })

/-! ## One request after the other -/

inductive Request
  | load (r : Load)
  | setMode (epoch mode : Nat)
  | revoke (epoch : Nat) (readers : Bool)
  | arm (slot : Nat) (hook : List UInt8) (swapped : Bool)
  | disarm (epoch : Nat) (hook : List UInt8) (swapped : Bool)
  | config (slot : Nat) (body : Option (List UInt8))
  | bench (o : Object) (measured : Bool)
  | program (gate : Bool) (r : ProgramRequest) (swap : Program.Patch)

/-- Serve one request: {lit}`false` is a refusal. -/
def Server.serve (s : Server) : Request → Bool × Server
  | .load r => s.load r
  | .setMode epoch mode => s.setMode epoch mode
  | .revoke epoch readers => s.revoke epoch readers
  | .arm slot hook swapped => s.arm slot hook swapped
  | .disarm epoch hook swapped => s.disarm epoch hook swapped
  | .config slot body => s.publishConfig slot body
  | .bench o measured =>
      ((lsVmBenchProgram o measured).result s.table,
        { s with table := (lsVmBenchProgram o measured).final s.table })
  | .program gate r swap => s.program gate r swap

def serverMachine : Machine Server Request where
  init s := ∃ session buildId, s = .initial session buildId
  next s r := some (s.serve r).2

/-- A name is compared with an address in any of the notations of C. -/
example : namesAddress [48, 120, 49, 48, 48, 48] 4096 = true := by decide

end Control
end LiveSurface
