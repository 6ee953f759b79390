import LiveSurface.Library.Machine

/-!
# The function-exit shadow stack

A hooked function's return address is replaced by the address of one shared
stub.  The entry half records what it replaced, keyed by the address of the
return slot; the exit half, reached when the body returns into the stub, finds
that record again, runs the exit program and hands back the recorded address.

The stack is a list with the top frame first.  Addresses and stack words are
64-bit words, so the stub's {lit}`cur - 8` is the machine's subtraction.  What
the VM answers at entry (is the slot a snapshot hook, did its entry phase
complete and with which state) is supplied by the caller of the model.

Main results:

- Theorem {lit}`lsFexitEnter_full`: an entry that finds no room changes nothing
  but its counter.
- Theorem {lit}`lsFexitLeave_match`: what an exit does when, below frames that
  are deeper than the returning slot, the next frame has that slot.
-/

namespace LiveSurface
namespace Fexit

/-! ## Data -/

abbrev Word := UInt64

/-- Return slots, by address. -/
abbrev Stack := Word → Word

def lsFexitDepth : Nat := 512
def lsFexitLog : Nat := 64
def lsSnapshotEntry : UInt32 := 1
def lsSnapshotReturn : UInt32 := 2
def lsSnapshotCaptured : UInt32 := 1

structure SnapshotId where
  inst : Word
  epoch : Word
deriving DecidableEq

structure SnapshotCtx where
  arg : Vector Word 5
  noReturn : Word
  phase : UInt32
  flags : UInt32
  sequence : Word
  state : Vector Word 4
deriving DecidableEq

/-- The exit context.  Its reserved tail is zero and is not kept here. -/
structure CtxExit where
  arg : Vector Word 5
  ret : Word
deriving DecidableEq

structure Frame where
  slot : Word
  realRet : Word
  args : Vector Word 6
  seq : Word
  progSlot : Int
  /-- {lit}`none` for a value-return hook. -/
  snapshot : Option SnapshotId
  captured : Bool
  state : Vector Word 4
deriving DecidableEq

structure Event where
  seq : Word
  slot : Int
  retval : Word
  args : Vector Word 6
deriving DecidableEq

/-- The {lit}`g_ls_fexit_*` block. -/
structure State where
  /-- Live frames, the top one first. -/
  stack : List Frame
  seq : Word
  log : List Event
  exits : Word
  reclaimed : Word
  overflow : Word
  desync : Word
deriving DecidableEq

def lsFexitReset : State where
  stack := []
  seq := 0
  log := []
  exits := 0
  reclaimed := 0
  overflow := 0
  desync := 0

/-! ## Entry -/

/-- The five argument words a context shows of the six that are captured. -/
def ctxArgs (args : Vector Word 6) : Vector Word 5 := args.take 5

/-- What the VM answers while a frame is recorded. -/
structure VmAtEntry where
  /-- {lit}`ls_vm_snapshot_identity`. -/
  identity : Option SnapshotId
  /-- {lit}`ls_vm_snapshot_call` on the entry context: the state it left there
  if it completed. -/
  call : SnapshotId → SnapshotCtx → Option (Vector Word 4)

/-- An entry can hijack its slot. -/
def State.HasRoom (fx : State) : Prop :=
  fx.stack.length < lsFexitDepth ∧ fx.seq ≠ 0xFFFFFFFFFFFFFFFF

instance (fx : State) : Decidable fx.HasRoom :=
  inferInstanceAs (Decidable (_ ∧ _))

def snapshotEntryCtx (args : Vector Word 6) (seq : Word) : SnapshotCtx where
  arg := ctxArgs args
  noReturn := 0
  phase := lsSnapshotEntry
  flags := 0
  sequence := seq
  state := Vector.replicate 4 0

/-- The state the entry phase captured, if there is one. -/
def capturedState (vm : VmAtEntry) (args : Vector Word 6) (seq : Word) :
    Option (Vector Word 4) :=
  vm.identity.bind fun identity => vm.call identity (snapshotEntryCtx args seq)

/-- The frame recorded at entry. -/
def enterFrame (fx : State) (mem : Stack) (progSlot : Int) (slot : Word)
    (args : Vector Word 6) (vm : VmAtEntry) : Frame :=
  let seq := fx.seq + 1
  { slot := slot
    realRet := mem slot
    args := args
    seq := seq
    progSlot := progSlot
    snapshot := vm.identity
    captured := (capturedState vm args seq).isSome
    state := (capturedState vm args seq).getD (Vector.replicate 4 0) }

def lsFexitEnter (stub : Word) (fx : State) (mem : Stack) (progSlot : Int) (slot : Word)
    (args : Vector Word 6) (vm : VmAtEntry) : State × Stack :=
  if fx.HasRoom then
    ({ fx with
        stack := enterFrame fx mem progSlot slot args vm :: fx.stack
        seq := fx.seq + 1 },
      Function.update mem slot stub)
  else
    ({ fx with overflow := fx.overflow + 1 }, mem)

/-- Beyond the depth there is no room. -/
theorem State.not_hasRoom_of_full {fx : State} (hfull : lsFexitDepth ≤ fx.stack.length) :
    ¬ fx.HasRoom := by
  intro hroom
  exact absurd hroom.1 (by omega)

/-- With room the slot is hijacked and its frame is on top. -/
theorem lsFexitEnter_room {stub : Word} {fx : State} {mem : Stack} {progSlot : Int}
    {slot : Word} {args : Vector Word 6} {vm : VmAtEntry} (hroom : fx.HasRoom) :
    lsFexitEnter stub fx mem progSlot slot args vm =
      ({ fx with
          stack := enterFrame fx mem progSlot slot args vm :: fx.stack
          seq := fx.seq + 1 },
        Function.update mem slot stub) := by
  unfold lsFexitEnter
  rw [if_pos hroom]

/-- Without room the frames are left as they are, and so is the return slot. -/
theorem lsFexitEnter_full {stub : Word} {fx : State} {mem : Stack} {progSlot : Int}
    {slot : Word} {args : Vector Word 6} {vm : VmAtEntry} (hfull : ¬ fx.HasRoom) :
    lsFexitEnter stub fx mem progSlot slot args vm =
      ({ fx with overflow := fx.overflow + 1 }, mem) := by
  unfold lsFexitEnter
  rw [if_neg hfull]

/-! ## Exit -/

/-- The program a leaving frame runs, with its context. -/
inductive ProgramRun
  | exit (progSlot : Int) (ctx : CtxExit)
  | snapshot (progSlot : Int) (identity : SnapshotId) (ctx : SnapshotCtx)
deriving DecidableEq

def ProgramRun.progSlot : ProgramRun → Int
  | .exit progSlot _ => progSlot
  | .snapshot progSlot _ _ => progSlot

def ProgramRun.arg : ProgramRun → Vector Word 5
  | .exit _ ctx => ctx.arg
  | .snapshot _ _ ctx => ctx.arg

def Frame.returnRun (f : Frame) (retval : Word) : ProgramRun :=
  match f.snapshot with
  | some identity =>
      .snapshot f.progSlot identity
        { arg := ctxArgs f.args
          noReturn := 0
          phase := lsSnapshotReturn
          flags := if f.captured then lsSnapshotCaptured else 0
          sequence := f.seq
          state := f.state }
  | none => .exit f.progSlot { arg := ctxArgs f.args, ret := retval }

@[simp]
theorem Frame.returnRun_progSlot (f : Frame) (retval : Word) :
    (f.returnRun retval).progSlot = f.progSlot := by
  unfold Frame.returnRun
  cases f.snapshot <;> rfl

@[simp]
theorem Frame.returnRun_arg (f : Frame) (retval : Word) :
    (f.returnRun retval).arg = ctxArgs f.args := by
  unfold Frame.returnRun
  cases f.snapshot <;> rfl

/-- Record one exit while the log has room. -/
def logExit (log : List Event) (f : Frame) (retval : Word) : List Event :=
  if log.length < lsFexitLog then
    log ++ [{ seq := f.seq
              slot := f.progSlot
              retval := if f.snapshot.isSome then 0 else retval
              args := f.args }]
  else log

/-- Frames deeper than the returning slot, discarded one by one. -/
def reclaim (watermark : Word) (fx : State) : List Frame → State
  | [] => { fx with stack := [] }
  | f :: below =>
      if f.slot < watermark then
        reclaim watermark { fx with reclaimed := fx.reclaimed + 1 } below
      else { fx with stack := f :: below }

structure Leaving where
  fx : State
  run : Option ProgramRun
  ret : Word

def lsFexitLeave (fx : State) (cur retval : Word) : Leaving :=
  let watermark := cur - 8
  let fx := reclaim watermark fx fx.stack
  match fx.stack with
  | [] => { fx := { fx with desync := fx.desync + 1 }, run := none, ret := retval }
  | f :: below =>
      if f.slot ≠ watermark then
        { fx := { fx with desync := fx.desync + 1 }, run := none, ret := retval }
      else
        { fx :=
            { fx with
              stack := below
              exits := fx.exits + 1
              log := logExit fx.log f retval }
          run := some (f.returnRun retval)
          ret := f.realRet }

/-- Reclaiming keeps everything but the stack and its counter. -/
theorem reclaim_desync (watermark : Word) (frames : List Frame) :
    ∀ fx : State, (reclaim watermark fx frames).desync = fx.desync := by
  induction frames with
  | nil =>
      intro fx
      rfl
  | cons f below ih =>
      intro fx
      unfold reclaim
      split
      · rw [ih]
      · rfl

/-- Deeper frames go, the first frame that is not deeper stays on top. -/
theorem reclaim_append {watermark : Word} {f : Frame} {below : List Frame}
    (hf : ¬ f.slot < watermark) (deeper : List Frame)
    (hdeeper : ∀ g ∈ deeper, g.slot < watermark) :
    ∀ fx : State,
      (reclaim watermark fx (deeper ++ f :: below)).stack = f :: below := by
  induction deeper with
  | nil =>
      intro fx
      simp [reclaim, hf]
  | cons g rest ih =>
      intro fx
      have hg : g.slot < watermark := hdeeper g List.mem_cons_self
      have hrest : ∀ x ∈ rest, x.slot < watermark := by
        intro x hx
        exact hdeeper x (List.mem_cons_of_mem g hx)
      simp only [List.cons_append, reclaim, if_pos hg]
      exact ih hrest _

/-- An exit whose slot is the next one below the deeper frames: the deeper
frames and the matching one go, the program of the matching one runs, and its
recorded address comes back. -/
theorem lsFexitLeave_match {fx : State} {slot : Word} {deeper below : List Frame}
    {f : Frame} (hstack : fx.stack = deeper ++ f :: below) (hslot : f.slot = slot)
    (hdeeper : ∀ g ∈ deeper, g.slot < slot) (retval : Word) :
    (lsFexitLeave fx (slot + 8) retval).fx.stack = below ∧
      (lsFexitLeave fx (slot + 8) retval).fx.desync = fx.desync ∧
      (lsFexitLeave fx (slot + 8) retval).run = some (f.returnRun retval) ∧
      (lsFexitLeave fx (slot + 8) retval).ret = f.realRet := by
  have hcur : slot + 8 - 8 = slot := by simp
  have hnot : ¬ f.slot < slot := by grind
  have htop : (reclaim slot fx fx.stack).stack = f :: below := by
    rw [hstack]
    exact reclaim_append hnot deeper hdeeper fx
  have hdesync : (reclaim slot fx fx.stack).desync = fx.desync :=
    reclaim_desync slot fx.stack fx
  unfold lsFexitLeave
  simp only [hcur, htop, hslot, ne_eq, not_true_eq_false, if_false, hdesync, and_self]

end Fexit
end LiveSurface
