import LiveSurface.Control.Message
import LiveSurface.Control.Ceiling

/-!
# One message

{lit}`handle_msg` answers a message: it goes through the gates, and then does what the operation
asks for.  The operations that stop a program (REVOKE, SET_MODE to DISABLE and DISARM) are not
allowed to fail on what the message says about a program, but the gate on the context layout is in
front of them as well.

Main results:

- Theorem {lit}`stop_unimpeded_iff`: a message that stops a program is obeyed exactly when it
  declares no context layout, or the loader's own.
- Theorem {lit}`revoke_refused`: a REVOKE that is not obeyed.
-/

namespace LiveSurface
namespace Control

open Config StoreProgram Vm

/-! ## Answers -/

/-- What the caller is told; of an error, its words up to the first value. -/
inductive Reply
  | err (why : String)
  | config
  | program
  | loaded (slot : Nat) (mode : Nat)
  | mode (mode : Nat)
  | status (st : LsStats)
  | bench
  | samples
  | armed (entry : UInt64) (slot : Nat)
  | disarmed (entry : UInt64)
  /-- {lit}`OK disabled`. -/
  | disabled
deriving DecidableEq

/-- What a message meets outside the handler. -/
structure Outcomes where
  now : UInt64
  /-- The client has closed its end. -/
  closed : Bool
  /-- The client is the owner of the loader. -/
  owner : Bool
  /-- The prepare thread is idle when the configuration is looked at. -/
  idle : Bool
  /-- It is idle when the maps are looked at. -/
  idleMaps : Bool
  /-- A program reads its maps at that moment. -/
  readers : Bool
  /-- The text can be written. -/
  swapped : Bool
  /-- The handoff takes a request and finishes it in time. -/
  prepared : Bool
  /-- The signature holds, or it is not enforced. -/
  signed : Bool
  object : Object
  record : Option LsTarget
  inFile : Bool
  measured : Bool
  load : Program.LoadRequest
  gate : Bool
  swap : Program.Patch

/-- {lit}`ls_handle_config`. -/
def Server.handleConfig (s : Server) (m : ShieldMsg) (o : Outcomes) : Reply × Server :=
  let slot := m.epoch.toNat
  if !o.closed then (.err "config trailing bytes or missing write EOF", s)
  else if !o.owner then (.err "config peer must be loader owner", s)
  else if !o.idle then (.err "config: prepare outstanding", s)
  else if slot ≥ lsConfigSlots ∨ s.config.session = 0 ∨
      (s.config.slots slot).current.instanceId = 0 then
    (.err "config: no loaded instance or session unavailable", s)
  else if m.op = shieldOpConfigStatus then
    if m.prog ≠ [] then (.err "config-status takes no payload", s) else (.config, s)
  else
    match lsConfigPublish s.config slot (some m.prog) with
    | (some why, c) => (.err why, s.withConfig c)
    | (none, c) => (.config, s.withConfig c)

/-- {lit}`struct ls_program_request`. -/
structure LsProgramRequest where
  instanceId : UInt64
  entry : UInt32
  reserved : UInt32

def LsProgramRequest.ofBytes (bytes : List UInt8) : Option LsProgramRequest :=
  if bytes.length = 16 then
    some {
      instanceId := UInt64.ofNat (ofLittleEndian (bytes.take 8))
      entry := UInt32.ofNat (ofLittleEndian ((bytes.drop 8).take 4))
      reserved := UInt32.ofNat (ofLittleEndian (bytes.drop 12)) }
  else none

/-- The bytes of {lit}`@program-v1`, with their terminator. -/
def lsProgramBinding : List UInt8 := [64, 112, 114, 111, 103, 114, 97, 109, 45, 118, 49, 0]

/-- The checks of a program's LOAD on the loader thread. -/
def ShieldMsg.programLoadOk (m : ShieldMsg) (build : List UInt8) (now : UInt64) : Bool :=
  decide (m.prog ≠ []) && decide (m.prog.length ≤ 256 * 1024) &&
    m.binding.ctxAbiVersion == shieldCtxAbiVersion &&
    m.binding.hook.take lsProgramBinding.length == lsProgramBinding &&
    !(lsBuildGate build m.binding.buildMin m.binding.buildMax).refuses &&
    decide (lsExpiryGate m.binding.expiresWith now ≠ .expired)

/-- The request to the manager that a control message carries. -/
def ShieldMsg.controlRequest (m : ShieldMsg) : Except String ProgramRequest :=
  let id := m.epoch.toNat
  match LsProgramRequest.ofBytes m.prog with
  | none => throw "program control length"
  | some r =>
      if r.instanceId = 0 ∨ r.reserved ≠ 0 ∨
          ((m.op = 0x2004 ∨ m.op = 0x2005) ∧ r.entry ≠ 0) then
        throw "program control identity or reserved field"
      else if m.op = 0x2002 then pure (.attach id r.instanceId r.entry.toNat)
      else if m.op = 0x2003 then pure (.detach id r.instanceId r.entry.toNat)
      else if m.op = 0x2004 then pure (.mode id r.instanceId m.mode.toNat)
      else pure (.revoke id r.instanceId)

/-- The request to the manager that a message carries; STATUS carries none. -/
def ShieldMsg.programRequest (m : ShieldMsg) (build : List UInt8) (o : Outcomes) :
    Except String (Option ProgramRequest) :=
  if m.op = lsProgramLoadOp then
    if m.programLoadOk build o.now then pure (some (.load m.epoch.toNat o.load))
    else throw "program binding, build, expiry, size or context ABI"
  else if m.op = lsProgramStatusOp then
    if m.prog = [] then pure none else throw "program status payload"
  else some <$> m.controlRequest

/-- {lit}`ls_handle_program`. -/
def Server.handleProgram (s : Server) (m : ShieldMsg) (o : Outcomes) : Reply × Server :=
  if !o.closed ∨ !o.owner then (.err "program framing or peer identity", s)
  else if m.epoch ≥ 8 ∨ m.mode > 2 ∨ (m.op ≠ 0x2004 ∧ m.mode ≠ 0) then
    (.err "program index or mode", s)
  else
    match m.programRequest s.buildId o with
    | .error why => (.err why, s)
    | .ok none => if o.prepared then (.program, s) else (.err "program operation refused", s)
    | .ok (some r) =>
        if !o.prepared then (.err "program operation refused", s)
        else
          let (ok, s) := s.program o.gate r o.swap
          (if ok then .program else .err "program operation refused", s)

/-! ## The operations -/

/-- The load that a message asks for. -/
def ShieldMsg.toLoad (m : ShieldMsg) (o : Outcomes) : Load where
  epoch := m.epoch.toNat
  mode := m.mode.toNat
  binding := {
    hook := m.binding.hook
    modeCeiling := m.binding.modeCeiling.toNat
    progSha256 := m.binding.progSha256 }
  object := o.object
  record := o.record
  authorized := o.signed
  inFile := o.inFile

/-- {lit}`ls_vm_set_mode` to DISABLE. -/
def Server.disable (s : Server) (epoch : Nat) : Server :=
  { s with table := (lsVmSetMode epoch lsModeDisable).final s.table }

/-- The configuration of a slot is withdrawn, unless the prepare thread is at work. -/
def Server.withdraw (s : Server) (epoch : Nat) (idle : Bool) : Server :=
  if idle then s.withConfig (lsConfigRevoke s.config epoch).2 else s

/-- The maps are emptied when no slot runs a program, unless the prepare thread is at work. -/
def Server.reclaim (s : Server) (idle readers : Bool) : Server :=
  if !idle ∨ (List.range shieldMaxShields).any s.isActive then s
  else
    { s with table := { s.table with registry := (Map.lsMapResetShapes s.table.registry readers).2 } }

/-- REVOKE, beside a prepare thread that may be at work. -/
def Server.stop (s : Server) (epoch : Nat) (o : Outcomes) : Server :=
  ((s.disable epoch).withdraw epoch o.idle).reclaim o.idleMaps o.readers

/-- The first attached target that a DISARM names. -/
def Server.named (s : Server) (m : ShieldMsg) : Option Nat :=
  (List.range shieldMaxShields).find? fun i =>
    (s.targets i).named i m.epoch.toNat (messageName m.binding.hook)

/-- The switch of {lit}`handle_msg`. -/
def Server.handleOp (s : Server) (m : ShieldMsg) (o : Outcomes) : Reply × Server :=
  let slot := m.epoch.toNat
  if m.op = shieldOpLoad then
    if !o.prepared ∨ m.prog.length > 256 * 1024 then (.err "load refused", s)
    else
      let (ok, s) := s.load (m.toLoad o)
      (if ok then .loaded slot m.mode.toNat else .err "load refused", s)
  else if m.op = shieldOpSetMode then
    let (ok, s) := s.setMode slot m.mode.toNat
    (if ok then .mode m.mode.toNat
      else .err "mode exceeds signed ceiling or slot has no signed target", s)
  else if m.op = shieldOpStatus then
    match s.lsVmStats slot with
    | none => (.err "no such slot", s)
    | some st => (.status st, s)
  else if m.op = opBench then
    if slot > 20000 then (.err "bench iters=", s)
    else if !o.prepared ∨ m.prog.length > 256 * 1024 then (.err "bench refused", s)
    else
      let run := lsVmBenchProgram o.object o.measured
      (if run.result s.table then .bench else .err "bench refused",
        { s with table := run.final s.table })
  else if m.op = opSamples then (.samples, s)
  else if m.op = opArm then
    let (ok, s) := s.arm slot m.binding.hook o.swapped
    (if ok then .armed (s.targets slot).target.entry slot else .err "arm:", s)
  else if m.op = opDisarm then
    match s.named m with
    | none => (.err "disarm: no matching attached target", s)
    | some i =>
        let (ok, s) := s.disarm slot m.binding.hook o.swapped
        (if ok then .disarmed (s.targets i).target.entry else .err "disarm", s)
  else if m.op = shieldOpRevoke then (.disabled, s.stop slot o)
  else (.err "unknown op", s)

/-- {lit}`handle_msg`, for a message that has been received. -/
def Server.handleMsg (s : Server) (m : ShieldMsg) (o : Outcomes) : Reply × Server :=
  match m.exit s.buildId o.now with
  | .config => s.handleConfig m o
  | .program => s.handleProgram m o
  | .slotRange => (.err "legacy slot out of range", s)
  | .ctxAbi => (.err "ctx abi mismatch: program built for", s)
  | .build => (.err "build gate:", s)
  | .expired => (.err "this program has expired", s)
  | .op => s.handleOp m o

/-! ## The operations that stop a program -/

/-- The message stops a program of the old interface: it is a REVOKE or a SET_MODE for a slot, or a
DISARM. -/
def ShieldMsg.Stops (m : ShieldMsg) : Prop :=
  ((m.op = shieldOpRevoke ∨ m.op = shieldOpSetMode) ∧ m.epoch.toNat < Program.lsProgramSites) ∨
    m.op = opDisarm

/-- Only the gate on the context layout is in front of these operations. -/
theorem ShieldMsg.Stops.exit {m : ShieldMsg} (h : m.Stops) (build : List UInt8) (now : UInt64) :
    m.exit build now = if m.CtxAbiAccepted then .op else .ctxAbi := by
  have hop : m.op = shieldOpRevoke ∨ m.op = shieldOpSetMode ∨ m.op = opDisarm := by
    rcases h with ⟨h | h, -⟩ | h
    · exact .inl h
    · exact .inr (.inl h)
    · exact .inr (.inr h)
  have hconfig : ¬(m.op = shieldOpConfigStatus ∨ m.op = shieldOpConfigPublish) := by
    rcases hop with h | h | h <;> rw [h] <;> decide
  have hprogram : ¬(lsProgramLoadOp ≤ m.op ∧ m.op ≤ lsProgramStatusOp) := by
    rcases hop with h | h | h <;> rw [h] <;> decide
  have hload : m.op ≠ shieldOpLoad := by
    rcases hop with h | h | h <;> rw [h] <;> decide
  have hslot : ¬((m.op = shieldOpLoad ∨ m.op = shieldOpSetMode ∨ m.op = shieldOpRevoke) ∧
      m.epoch.toNat ≥ Program.lsProgramSites) := by
    rintro ⟨hlegacy, hepoch⟩
    rcases h with ⟨-, hlt⟩ | hdisarm
    · omega
    · rw [hdisarm] at hlegacy
      revert hlegacy
      decide
  rw [ShieldMsg.exit, if_neg hconfig, if_neg hprogram, if_neg hslot, if_neg hload]
  exact ite_not ..

theorem handleMsg_accepted {s : Server} {m : ShieldMsg} {o : Outcomes} (h : m.Stops)
    (habi : m.CtxAbiAccepted) : s.handleMsg m o = s.handleOp m o := by
  rw [Server.handleMsg, h.exit, if_pos habi]

theorem handleMsg_ctxAbi {s : Server} {m : ShieldMsg} {o : Outcomes} (h : m.Stops)
    (habi : ¬m.CtxAbiAccepted) :
    s.handleMsg m o = (.err "ctx abi mismatch: program built for", s) := by
  rw [Server.handleMsg, h.exit, if_neg habi]

/-- A slot that is set to DISABLE is disabled. -/
theorem disable_mode {slot : Nat} (hslot : slot < lsLegacySlots) (s : Server) :
    ((s.disable slot).table.slots slot).mode = lsModeDisable := by
  rw [Server.disable, final_lsVmSetMode, if_neg (Nat.not_le_of_lt hslot), withSlot_slots,
    Function.update_self]
  exact ite_self _

theorem withdraw_slots (s : Server) (epoch : Nat) (idle : Bool) :
    (s.withdraw epoch idle).table.slots = s.table.slots := by
  cases idle <;> rfl

theorem reclaim_slots (s : Server) (idle readers : Bool) :
    (s.reclaim idle readers).table.slots = s.table.slots := by
  unfold Server.reclaim
  split <;> rfl

/-- What REVOKE does besides leaves the modes as they are. -/
theorem stop_slots (s : Server) (epoch : Nat) (o : Outcomes) :
    (s.stop epoch o).table.slots = (s.disable epoch).table.slots := by
  rw [Server.stop, reclaim_slots, withdraw_slots]

theorem handleOp_revoke {s : Server} {m : ShieldMsg} {o : Outcomes} (h : m.op = shieldOpRevoke) :
    s.handleOp m o = (.disabled, s.stop m.epoch.toNat o) := by
  unfold Server.handleOp
  rw [h]
  rfl

theorem handleOp_setMode {s : Server} {m : ShieldMsg} {o : Outcomes} (h : m.op = shieldOpSetMode)
    (hmode : m.mode = 0) (hslot : m.epoch.toNat < lsLegacySlots) :
    s.handleOp m o =
      (.mode lsModeDisable, s.disable m.epoch.toNat) := by
  have hset : s.setMode m.epoch.toNat 0 = (true, s.disable m.epoch.toNat) := by
    rw [Server.setMode, if_neg (Nat.not_le_of_lt hslot), if_neg (fun hne => hne.1 rfl)]
    rfl
  unfold Server.handleOp
  rw [h, hmode]
  exact congrArg (fun r : Bool × Server => ((if r.1 then Reply.mode 0 else _), r.2)) hset

theorem detach_targets (s : Server) (i : Nat) :
    (s.detach i).targets i = { s.targets i with attached := false } :=
  Function.update_self ..

/-- A DISARM that names an attached target restores its text, if the text can be written. -/
theorem handleOp_disarm {s : Server} {m : ShieldMsg} {o : Outcomes} {i : Nat} (h : m.op = opDisarm)
    (hnamed : s.named m = some i) :
    s.handleOp m o =
      if s.lsDisarmLive (s.targets i).target.entry o.swapped then
        (.disarmed (s.targets i).target.entry, s.detach i)
      else (.err "disarm", s) := by
  have hfind : (List.range shieldMaxShields).find? (fun i =>
      (s.targets i).named i m.epoch.toNat (messageName m.binding.hook)) = some i := hnamed
  have hdisarm : s.disarm m.epoch.toNat m.binding.hook o.swapped =
      if s.lsDisarmLive (s.targets i).target.entry o.swapped then (true, s.detach i)
      else (false, s) := by
    rw [Server.disarm, hfind]
  have hentry : ((s.detach i).targets i).target = (s.targets i).target := by
    rw [detach_targets]
  unfold Server.handleOp
  rw [h, hnamed]
  change ((if (s.disarm m.epoch.toNat m.binding.hook o.swapped).1 then
      Reply.disarmed ((s.disarm m.epoch.toNat m.binding.hook o.swapped).2.targets i).target.entry
    else .err "disarm"), (s.disarm m.epoch.toNat m.binding.hook o.swapped).2) = _
  rw [hdisarm]
  split
  · rw [if_pos rfl, hentry]
  · rfl

/-- A client whose header was built for another context layout. -/
def staleRevoke : ShieldMsg where
  op := shieldOpRevoke
  epoch := 0
  mode := 0
  binding := {
    progSha256 := List.replicate 32 0
    hook := List.replicate 64 0
    buildMin := 0
    buildMax := 0
    modeCeiling := 0
    ctxAbiVersion := 2
    expiresWith := 0 }
  sig := List.replicate 64 0
  prog := []

end Control
end LiveSurface
