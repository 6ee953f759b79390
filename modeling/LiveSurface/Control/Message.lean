import LiveSurface.Program.Manager

/-!
# Control messages and the gates before an operation

A message has a fixed header and the bytes of a program.  Before the loader looks at the operation
it compares the context layout that the header declares with its own; a load is also held against
the builds and the time that it was signed for.  The gate on the layout stands before the switch,
so it answers for every operation of the old interface.

Three of the refusals leave {lit}`handle_msg` without releasing the mapping of the message.

Main definitions:

- Definition {lit}`lsBuildGate`, {lit}`lsExpiryGate`: the decisions of the two later gates.
- Definition {lit}`ShieldMsg.exit`: where {lit}`handle_msg` goes with a message.
-/

namespace LiveSurface
namespace Control

/-! ## Messages -/

def shieldOpLoad : UInt32 := 1
def shieldOpSetMode : UInt32 := 2
def shieldOpStatus : UInt32 := 3
def shieldOpRevoke : UInt32 := 4
def shieldOpConfigStatus : UInt32 := 5
def shieldOpConfigPublish : UInt32 := 6
def lsProgramLoadOp : UInt32 := 0x2001
def lsProgramStatusOp : UInt32 := 0x2006
def opBench : UInt32 := 0x1001
def opSamples : UInt32 := 0x1002
def opArm : UInt32 := 0x1003
def opDisarm : UInt32 := 0x1004

/-- {lit}`SHIELD_CTX_ABI_VERSION`. -/
def shieldCtxAbiVersion : UInt8 := 3

/-- {lit}`struct shield_binding`. -/
structure ShieldBinding where
  progSha256 : List UInt8
  hook : List UInt8
  buildMin : UInt32
  buildMax : UInt32
  modeCeiling : UInt8
  ctxAbiVersion : UInt8
  expiresWith : UInt32
deriving DecidableEq

/-- {lit}`struct shield_msg`; {lit}`prog` has the bytes that arrived. -/
structure ShieldMsg where
  op : UInt32
  epoch : UInt32
  mode : UInt8
  binding : ShieldBinding
  sig : List UInt8
  prog : List UInt8
deriving DecidableEq

/-! ## The builds that were signed -/

inductive BuildVerdict
  | ok
  | wildcard
  | undeclared
  | mismatch
  | badRange
  | noId
deriving DecidableEq

def hexNibble (c : UInt8) : Option UInt32 :=
  if 48 ≤ c ∧ c ≤ 57 then some (c - 48).toUInt32
  else if 97 ≤ c ∧ c ≤ 102 then some (c - 97 + 10).toUInt32
  else if 65 ≤ c ∧ c ≤ 70 then some (c - 65 + 10).toUInt32
  else none

/-- {lit}`ls_build_prefix`: eight digits, which a short name does not have. -/
def lsBuildPrefix (hex : List UInt8) : Option UInt32 :=
  if hex.length < 8 then none
  else (hex.take 8).foldlM (fun v c => (hexNibble c).map fun d => (v <<< 4) ||| d) 0

/-- {lit}`ls_build_gate`. -/
def lsBuildGate (running : List UInt8) (bmin bmax : UInt32) : BuildVerdict :=
  if bmin = 0 ∧ bmax = 0xffffffff then .wildcard
  else if bmin = 0 ∧ bmax = 0 then .undeclared
  else
    match lsBuildPrefix running with
    | none => .noId
    | some build => if bmin ≠ bmax then .badRange else if build = bmin then .ok else .mismatch

def BuildVerdict.refuses : BuildVerdict → Bool
  | .mismatch | .badRange | .noId => true
  | .ok | .wildcard | .undeclared => false

/-! ## The time that was signed -/

inductive ExpiryVerdict
  | ok
  | never
  | unknown
  | expired
deriving DecidableEq

/-- 2020-01-01T00:00:00Z. -/
def lsEpochSane : UInt64 := 1577836800

/-- {lit}`ls_expiry_gate`. -/
def lsExpiryGate (expiresWith : UInt32) (now : UInt64) : ExpiryVerdict :=
  if expiresWith = 0 ∨ expiresWith = 0xffffffff then .never
  else if now < lsEpochSane then .unknown
  else if now ≥ expiresWith.toUInt64 then .expired
  else .ok

/-! ## Where a message goes -/

/-- How {lit}`handle_msg` leaves its gates. -/
inductive Exit
  | config
  | program
  | slotRange
  | ctxAbi
  | build
  | expired
  /-- The operation in the switch. -/
  | op
deriving DecidableEq

/-- The gate on the context layout lets the message pass. -/
def ShieldMsg.CtxAbiAccepted (m : ShieldMsg) : Prop :=
  m.binding.ctxAbiVersion = 0 ∨ m.binding.ctxAbiVersion = shieldCtxAbiVersion

instance (m : ShieldMsg) : Decidable m.CtxAbiAccepted :=
  inferInstanceAs (Decidable (_ ∨ _))

/-- The gates inside the case of LOAD. -/
def ShieldMsg.loadExit (m : ShieldMsg) (build : List UInt8) (now : UInt64) : Exit :=
  if (lsBuildGate build m.binding.buildMin m.binding.buildMax).refuses then .build
  else if lsExpiryGate m.binding.expiresWith now = .expired then .expired
  else .op

/-- {lit}`handle_msg` up to the operation. -/
def ShieldMsg.exit (m : ShieldMsg) (build : List UInt8) (now : UInt64) : Exit :=
  if m.op = shieldOpConfigStatus ∨ m.op = shieldOpConfigPublish then .config
  else if lsProgramLoadOp ≤ m.op ∧ m.op ≤ lsProgramStatusOp then .program
  else if (m.op = shieldOpLoad ∨ m.op = shieldOpSetMode ∨ m.op = shieldOpRevoke) ∧
      m.epoch.toNat ≥ Program.lsProgramSites then .slotRange
  else if ¬m.CtxAbiAccepted then .ctxAbi
  else if m.op = shieldOpLoad then m.loadExit build now
  else .op

/-- The mapping of the message is released on the way out. -/
def Exit.releases : Exit → Bool
  | .ctxAbi | .build | .expired => false
  | .config | .program | .slotRange | .op => true

end Control
end LiveSurface
