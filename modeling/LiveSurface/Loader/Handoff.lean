import LiveSurface.Library.Machine
import Mathlib.Logic.Function.Basic

/-!
# The handoff to the prepare thread

Requests arrive on a socket and are served one after the other by the loader thread.
What needs to allocate is handed to a second thread through one record, whose state
word is the only word both threads write: the loader parks a request and waits for a
bounded time, the prepare thread takes it up whenever its timer fires.

A message lies in a mapping that the loader makes for each connection and releases
when it has answered.  The requests for programs with several entries travel in a
private copy that the prepare thread releases; a legacy load and a benchmark travel in
the loader's own mapping.

The loader's steps are the accesses it makes to shared state.  The prepare thread reads
the bytes of its request any number of times, and patches them where it relocates.

Main results:

- Theorem {lit}`handoff_settled`: when every completion finds its submitter waiting,
  the state word is never left behind.
- Theorem {lit}`wedged_handoff`: a completion that comes late leaves it behind.
-/

namespace LiveSurface
namespace Loader

/-! ## Requests -/

inductive ProgramOp
  | load
  | attach
  | detach
  | mode
  | revoke
  | status
deriving DecidableEq

inductive Op
  | load
  | setMode
  | revoke
  | bench
  | config
  | program (op : ProgramOp)
  /-- Any other request: STATUS, SAMPLES, ARM, DISARM. -/
  | other
deriving DecidableEq

/-- Only these go through the handoff. -/
def Op.isHandedOff : Op → Bool
  | .load | .bench | .program _ => true
  | _ => false

/-- {lit}`ls_is_program_op`. -/
def lsIsProgramOp : Op → Bool
  | .program _ => true
  | _ => false

/-- A request, with the bytes of its program. -/
structure Request where
  op : Op
  epoch : Nat
  mode : Nat
  prog : List UInt8
deriving DecidableEq

/-- A load carries a binding and a signature. -/
def Request.isSigned (r : Request) : Bool := r.op = .load ∨ r.op = .program .load

/-! ## State -/

inductive PrepState
  | idle
  | pending
  | done
deriving DecidableEq

/-- {lit}`struct ls_prep`, without the results of a benchmark and the targets. -/
structure LsPrep where
  state : PrepState
  op : Op
  slot : Nat
  prog : Option Nat
  progLen : Nat
  mode : Nat
  verify : Bool
  rc : Int
deriving DecidableEq

def LsPrep.zero : LsPrep where
  state := .idle
  op := .load
  slot := 0
  prog := none
  progLen := 0
  mode := 0
  verify := false
  rc := 0

/-- The loader thread, with the mapping that holds the message it serves. -/
inductive LoaderPc
  | idle
  | received (scratch : Nat) (req : Request)
  | reclaiming (scratch : Nat) (req : Request)
  | checking (scratch : Nat) (req : Request)
  | filling (scratch : Nat) (req : Request)
  | parking (scratch : Nat)
  /-- In the loop of {lit}`ls_prep_submit`. -/
  | waiting (scratch left : Nat)
  | collecting (scratch : Nat)
  | releasing (scratch : Nat)
deriving DecidableEq

def LoaderPc.scratch : LoaderPc → Option Nat
  | .idle => none
  | .received scratch _ | .reclaiming scratch _ | .checking scratch _ | .filling scratch _
  | .parking scratch | .waiting scratch _ | .collecting scratch | .releasing scratch =>
      some scratch

/-- The prepare thread in {lit}`ls_prep_run_pending`. -/
inductive ThreadPc
  | idle
  | verifying
  | running
  /-- In {lit}`ls_prep_complete`. -/
  | completing
  | storing
deriving DecidableEq

/-- One byte of a relocated immediate. -/
structure Patch where
  offset : Nat
  byte : UInt8
deriving DecidableEq

def patched (prog : List UInt8) (patches : List Patch) : List UInt8 :=
  patches.foldl (fun prog p => prog.set p.offset p.byte) prog

/-- One read of {lit}`g_prep.prog` by the prepare thread: what it found there, the
program of the request it works for, and its own patches so far. -/
structure PrepRead where
  signature : Bool
  got : Option (List UInt8)
  prog : List UInt8
  patches : List Patch
deriving DecidableEq

/-- Both threads.  {lit}`memory` has the contents of every mapping by its address;
{lit}`submitted`, {lit}`patches` and {lit}`reads` only record what has happened. -/
structure Handoff where
  timerOn : Bool
  prep : LsPrep
  memory : Nat → Option (List UInt8)
  loader : LoaderPc
  thread : ThreadPc
  submitted : List UInt8
  patches : List Patch
  reads : List PrepRead

def lsPrepMaxProg : Nat := 256 * 1024
def lsPrepWaitMs : Nat := 5000

/-! ## The loader -/

/-- A finished request for a program with several entries is forgotten. -/
def LsPrep.reclaim (p : LsPrep) : LsPrep :=
  if p.state = .done ∧ lsIsProgramOp p.op then { p with state := .idle } else p

/-- {lit}`a previous prepare is still outstanding`. -/
def LsPrep.outstanding (p : LsPrep) : Bool := p.state ≠ .idle

/-- CONFIG and REVOKE look at the state word as it is. -/
def LsPrep.busy (p : LsPrep) : Bool := p.state ≠ .idle

def LsPrep.fill (p : LsPrep) (req : Request) (prog : Nat) : LsPrep :=
  { p with
    op := req.op
    slot := req.epoch
    prog := some prog
    progLen := req.prog.length
    mode := req.mode
    verify := req.isSigned
    rc := -1 }

/-- Release a mapping. -/
def munmap (memory : Nat → Option (List UInt8)) (address : Nat) : Nat → Option (List UInt8) :=
  Function.update memory address none

def mmap (memory : Nat → Option (List UInt8)) (address : Nat) (contents : List UInt8) :
    Nat → Option (List UInt8) :=
  Function.update memory address (some contents)

/-- A step of the loader. -/
inductive LoaderLabel
  /-- A message arrives in a new mapping. -/
  | connect (scratch : Nat) (req : Request)
  /-- The request is answered without the other thread. -/
  | answer
  /-- {lit}`handle_msg` returns early and keeps the mapping. -/
  | leak
  | submit
  /-- The record is filled; a private copy is mapped where one is needed, or cannot be. -/
  | fill (copy : Option Nat)
  /-- Any other step. -/
  | proceed
deriving DecidableEq

/-- A step of the prepare thread. -/
inductive ThreadLabel
  | start
  | verify (ok : Bool)
  | read
  | patch (p : Patch)
  | finish (rc : Int)
  | release
  | publish
deriving DecidableEq

inductive HandoffLabel
  | loader (a : LoaderLabel)
  | thread (a : ThreadLabel)
deriving DecidableEq

/-- The steps of the loader in which nothing is left open. -/
def Handoff.proceed (s : Handoff) : Option Handoff :=
  match s.loader with
  | .reclaiming scratch req =>
      some { s with prep := s.prep.reclaim, loader := .checking scratch req }
  | .checking scratch req =>
      some { s with
        loader := if s.prep.outstanding then .releasing scratch else .filling scratch req }
  | .parking scratch =>
      some { s with
        prep := { s.prep with state := .pending }
        loader := .waiting scratch lsPrepWaitMs }
  | .waiting scratch 0 => some { s with loader := .releasing scratch }
  | .waiting scratch (left + 1) =>
      some { s with
        loader := if s.prep.state = .done then .collecting scratch else .waiting scratch left }
  | .collecting scratch =>
      some { s with prep := { s.prep with state := .idle }, loader := .releasing scratch }
  | .releasing scratch => some { s with memory := munmap s.memory scratch, loader := .idle }
  | .idle | .received .. | .filling .. => none

/-- The record is filled. -/
def Handoff.fill (s : Handoff) (copy : Option Nat) : Option Handoff :=
  match s.loader with
  | .filling scratch req =>
      if lsIsProgramOp req.op then
        match copy with
        | none => some { s with loader := .releasing scratch }
        | some address =>
            if s.memory address = none then
              some { s with
                prep := s.prep.fill req address
                memory := mmap s.memory address req.prog
                loader := .parking scratch
                submitted := req.prog
                patches := [] }
            else none
      else
        some { s with
          prep := s.prep.fill req scratch
          loader := .parking scratch
          submitted := req.prog
          patches := [] }
  | _ => none

def loaderNext (s : Handoff) : LoaderLabel → Option Handoff
  | .connect scratch req =>
      if s.loader = .idle ∧ s.memory scratch = none then
        some { s with memory := mmap s.memory scratch req.prog, loader := .received scratch req }
      else none
  | .answer =>
      match s.loader with
      | .received scratch _ => some { s with loader := .releasing scratch }
      | _ => none
  | .leak =>
      match s.loader with
      | .received _ req =>
          if lsIsProgramOp req.op ∨ req.op = .config then none else some { s with loader := .idle }
      | _ => none
  | .submit =>
      match s.loader with
      | .received scratch req =>
          if req.op.isHandedOff then
            some { s with
              loader := if s.timerOn = false ∨ req.prog.length > lsPrepMaxProg then
                .releasing scratch else .reclaiming scratch req }
          else none
      | _ => none
  | .fill copy => s.fill copy
  | .proceed => s.proceed

/-! ## The prepare thread -/

/-- What the thread finds at {lit}`g_prep.prog`. -/
def Handoff.contents (s : Handoff) : Option (List UInt8) := s.prep.prog.bind s.memory

def Handoff.record (s : Handoff) (signature : Bool) : Handoff :=
  { s with reads := s.reads ++
      [{ signature := signature, got := s.contents, prog := s.submitted, patches := s.patches }] }

/-- The signature is checked before anything else touches the program. -/
def Handoff.verify (s : Handoff) (ok : Bool) : Handoff :=
  if (s.prep.op = .load ∨ s.prep.op = .program .load) ∧ s.prep.verify then
    if ok then { s.record true with thread := .running }
    else { s.record true with prep := { s.prep with rc := -1 }, thread := .completing }
  else { s with thread := .running }

/-- An immediate is patched in place. -/
def Handoff.patch (s : Handoff) (p : Patch) : Handoff :=
  { s with
    memory :=
      match s.prep.prog with
      | some address =>
          Function.update s.memory address
            ((s.memory address).map fun prog => prog.set p.offset p.byte)
      | none => s.memory
    patches := s.patches ++ [p] }

/-- The private copy of a request is released. -/
def Handoff.release (s : Handoff) : Handoff :=
  match lsIsProgramOp s.prep.op, s.prep.prog with
  | true, some address =>
      { s with
        prep := { s.prep with prog := none }
        memory := munmap s.memory address
        thread := .storing }
  | _, _ => { s with thread := .storing }

def threadNext (s : Handoff) : ThreadLabel → Option Handoff
  | .start =>
      if s.thread = .idle ∧ s.prep.state = .pending then some { s with thread := .verifying }
      else none
  | .verify ok => if s.thread = .verifying then some (s.verify ok) else none
  | .read => if s.thread = .running then some (s.record false) else none
  | .patch p => if s.thread = .running then some (s.patch p) else none
  | .finish rc =>
      if s.thread = .running then
        some { s with prep := { s.prep with rc := rc }, thread := .completing }
      else none
  | .release => if s.thread = .completing then some s.release else none
  | .publish =>
      if s.thread = .storing then
        some { s with prep := { s.prep with state := .done }, thread := .idle }
      else none

/-! ## Both threads -/

def handoffNext (s : Handoff) : HandoffLabel → Option Handoff
  | .loader a => loaderNext s a
  | .thread a => threadNext s a

def handoffMachine : Machine Handoff HandoffLabel where
  init s := s.prep = .zero ∧ s.loader = .idle ∧ s.thread = .idle ∧ (∀ a, s.memory a = none) ∧
    s.reads = []
  next := handoffNext

/-! ## Who may write the state word -/

/-- The thread works only on a pending request, and the loader takes a new one only
when the last one is over. -/
structure HandoffOk (s : Handoff) : Prop where
  busy : s.thread ≠ .idle → s.prep.state = .pending
  filling : ∀ scratch req, s.loader = .filling scratch req → s.prep.state = .idle
  parking : ∀ scratch, s.loader = .parking scratch → s.prep.state = .idle
  collecting : ∀ scratch, s.loader = .collecting scratch → s.prep.state = .done

/-- What the prepare thread leaves of the record: it works on a pending request, and
only its last step writes the state word. -/
structure ThreadStep (s s' : Handoff) (a : ThreadLabel) : Prop where
  loader : s'.loader = s.loader
  op : s'.prep.op = s.prep.op
  pending : s.prep.state = .pending
  state : s'.prep.state = .pending ∨
    a = .publish ∧ s'.prep.state = .done ∧ s'.thread = .idle

theorem release_prep (s : Handoff) :
    s.release.prep.state = s.prep.state ∧ s.release.prep.op = s.prep.op ∧
      s.release.loader = s.loader ∧ s.release.thread = .storing := by
  unfold Handoff.release
  split
  · exact ⟨rfl, rfl, rfl, rfl⟩
  · exact ⟨rfl, rfl, rfl, rfl⟩

theorem verify_prep (s : Handoff) (ok : Bool) :
    (s.verify ok).prep.state = s.prep.state ∧ (s.verify ok).prep.op = s.prep.op ∧
      (s.verify ok).loader = s.loader ∧
      ((s.verify ok).thread = .running ∨ (s.verify ok).thread = .completing) := by
  unfold Handoff.verify
  split
  · split
    · exact ⟨rfl, rfl, rfl, .inl rfl⟩
    · exact ⟨rfl, rfl, rfl, .inr rfl⟩
  · exact ⟨rfl, rfl, rfl, .inl rfl⟩

/-- A step of the thread that is not its first one. -/
theorem HandoffOk.pending {s : Handoff} (hok : HandoffOk s) {pc : ThreadPc} (h : s.thread = pc)
    (hpc : pc ≠ .idle) : s.prep.state = .pending := hok.busy (h ▸ hpc)

theorem thread_step {s s' : Handoff} {a : ThreadLabel} (hok : HandoffOk s)
    (hnext : threadNext s a = some s') : ThreadStep s s' a := by
  cases a with
  | start =>
      obtain ⟨h, hs⟩ := Option.ite_none_right_eq_some.mp hnext
      obtain rfl := Option.some.inj hs
      exact ⟨rfl, rfl, h.2, .inl h.2⟩
  | verify ok =>
      obtain ⟨h, hs⟩ := Option.ite_none_right_eq_some.mp hnext
      obtain rfl := Option.some.inj hs
      have hpending := hok.pending h nofun
      obtain ⟨hstate, hop, hloader, _⟩ := verify_prep s ok
      exact ⟨hloader, hop, hpending, .inl (hstate.trans hpending)⟩
  | read =>
      obtain ⟨h, hs⟩ := Option.ite_none_right_eq_some.mp hnext
      obtain rfl := Option.some.inj hs
      have hpending := hok.pending h nofun
      exact ⟨rfl, rfl, hpending, .inl hpending⟩
  | patch p =>
      obtain ⟨h, hs⟩ := Option.ite_none_right_eq_some.mp hnext
      obtain rfl := Option.some.inj hs
      have hpending := hok.pending h nofun
      exact ⟨rfl, rfl, hpending, .inl hpending⟩
  | finish rc =>
      obtain ⟨h, hs⟩ := Option.ite_none_right_eq_some.mp hnext
      obtain rfl := Option.some.inj hs
      have hpending := hok.pending h nofun
      exact ⟨rfl, rfl, hpending, .inl hpending⟩
  | release =>
      obtain ⟨h, hs⟩ := Option.ite_none_right_eq_some.mp hnext
      obtain rfl := Option.some.inj hs
      have hpending := hok.pending h nofun
      obtain ⟨hstate, hop, hloader, _⟩ := release_prep s
      exact ⟨hloader, hop, hpending, .inl (hstate.trans hpending)⟩
  | publish =>
      obtain ⟨h, hs⟩ := Option.ite_none_right_eq_some.mp hnext
      obtain rfl := Option.some.inj hs
      have hpending := hok.pending h nofun
      exact ⟨rfl, rfl, hpending, .inr ⟨rfl, rfl, rfl⟩⟩

theorem HandoffOk.thread {s s' : Handoff} {a : ThreadLabel} (hok : HandoffOk s)
    (hnext : threadNext s a = some s') : HandoffOk s' := by
  have hstep := thread_step hok hnext
  refine ⟨?_, ?_, ?_, ?_⟩
  · intro hbusy
    rcases hstep.state with hpending | ⟨_, _, hidle⟩
    · exact hpending
    · exact absurd hidle hbusy
  · intro scratch req h
    have hidle := hok.filling scratch req (hstep.loader ▸ h)
    rw [hstep.pending] at hidle
    contradiction
  · intro scratch h
    have hidle := hok.parking scratch (hstep.loader ▸ h)
    rw [hstep.pending] at hidle
    contradiction
  · intro scratch h
    have hdone := hok.collecting scratch (hstep.loader ▸ h)
    rw [hstep.pending] at hdone
    contradiction

/-- The loader is about to write the record, or has found the result in it. -/
def LoaderPc.InRecord : LoaderPc → Prop
  | .filling .. | .parking .. | .collecting .. => True
  | _ => False

/-- The loader moves on without writing the state word. -/
theorem HandoffOk.move {s s' : Handoff} (hok : HandoffOk s) (hthread : s'.thread = s.thread)
    (hstate : s'.prep.state = s.prep.state) (hloader : ¬ s'.loader.InRecord) : HandoffOk s' := by
  refine ⟨?_, ?_, ?_, ?_⟩
  · intro hbusy
    rw [hstate]
    exact hok.busy (hthread ▸ hbusy)
  · intro scratch req h
    rw [h] at hloader
    exact (hloader trivial).elim
  · intro scratch h
    rw [h] at hloader
    exact (hloader trivial).elim
  · intro scratch h
    rw [h] at hloader
    exact (hloader trivial).elim

/-- The thread has no work while the state word is not pending. -/
theorem HandoffOk.thread_idle {s : Handoff} (hok : HandoffOk s) (h : s.prep.state ≠ .pending) :
    s.thread = .idle := by
  by_contra hbusy
  exact h (hok.busy hbusy)

theorem reclaim_state (p : LsPrep) :
    p.reclaim.state = p.state ∨ p.state = .done ∧ p.reclaim.state = .idle := by
  unfold LsPrep.reclaim
  split
  · rename_i h
    exact .inr ⟨h.1, rfl⟩
  · exact .inl rfl

/-- The loader takes back the word of a request that is over. -/
theorem HandoffOk.takeBack {s s' : Handoff} (hok : HandoffOk s) (hthread : s'.thread = s.thread)
    (hdone : s.prep.state = .done) (hloader : ¬ s'.loader.InRecord) : HandoffOk s' := by
  have hidle : s.thread = .idle := hok.thread_idle (by rw [hdone]; exact nofun)
  refine ⟨?_, ?_, ?_, ?_⟩
  · intro hbusy
    exact absurd (hthread.trans hidle) hbusy
  · intro scratch req h
    rw [h] at hloader
    exact (hloader trivial).elim
  · intro scratch h
    rw [h] at hloader
    exact (hloader trivial).elim
  · intro scratch h
    rw [h] at hloader
    exact (hloader trivial).elim

theorem HandoffOk.proceed {s s' : Handoff} (hok : HandoffOk s) (hnext : s.proceed = some s') :
    HandoffOk s' := by
  unfold Handoff.proceed at hnext
  cases hloader : s.loader with
  | reclaiming scratch req =>
      simp only [hloader] at hnext
      obtain rfl := Option.some.inj hnext
      rcases reclaim_state s.prep with hstate | ⟨hdone, _⟩
      · exact hok.move rfl hstate id
      · exact hok.takeBack rfl hdone id
  | checking scratch req =>
      simp only [hloader] at hnext
      obtain rfl := Option.some.inj hnext
      by_cases hout : s.prep.outstanding = true
      · simp only [if_pos hout]
        exact hok.move rfl rfl id
      · simp only [if_neg hout]
        have hidle : s.prep.state = .idle := by simpa [LsPrep.outstanding] using hout
        exact ⟨hok.busy, fun _ _ _ => hidle, nofun, nofun⟩
  | parking scratch =>
      simp only [hloader] at hnext
      obtain rfl := Option.some.inj hnext
      exact ⟨fun _ => rfl, nofun, nofun, nofun⟩
  | waiting scratch left =>
      cases left with
      | zero =>
          simp only [hloader] at hnext
          obtain rfl := Option.some.inj hnext
          exact hok.move rfl rfl id
      | succ left =>
          simp only [hloader] at hnext
          obtain rfl := Option.some.inj hnext
          by_cases hdone : s.prep.state = .done
          · simp only [if_pos hdone]
            exact ⟨hok.busy, nofun, nofun, fun _ _ => hdone⟩
          · simp only [if_neg hdone]
            exact hok.move rfl rfl id
  | collecting scratch =>
      simp only [hloader] at hnext
      obtain rfl := Option.some.inj hnext
      exact hok.takeBack rfl (hok.collecting scratch hloader) id
  | releasing scratch =>
      simp only [hloader] at hnext
      obtain rfl := Option.some.inj hnext
      exact hok.move rfl rfl id
  | idle =>
      simp only [hloader] at hnext
      contradiction
  | received scratch req =>
      simp only [hloader] at hnext
      contradiction
  | filling scratch req =>
      simp only [hloader] at hnext
      contradiction

theorem HandoffOk.fill {s s' : Handoff} {copy : Option Nat} (hok : HandoffOk s)
    (hnext : s.fill copy = some s') : HandoffOk s' := by
  unfold Handoff.fill at hnext
  cases hloader : s.loader with
  | filling scratch req =>
      have hidle := hok.filling scratch req hloader
      simp only [hloader] at hnext
      split at hnext
      · cases copy with
        | none =>
            obtain rfl := Option.some.inj hnext
            exact hok.move rfl rfl id
        | some address =>
            obtain ⟨_, hs⟩ := Option.ite_none_right_eq_some.mp hnext
            obtain rfl := Option.some.inj hs
            exact ⟨hok.busy, nofun, fun _ _ => hidle, nofun⟩
      · obtain rfl := Option.some.inj hnext
        exact ⟨hok.busy, nofun, fun _ _ => hidle, nofun⟩
  | _ =>
      simp only [hloader] at hnext
      contradiction

theorem HandoffOk.loader {s s' : Handoff} {a : LoaderLabel} (hok : HandoffOk s)
    (hnext : loaderNext s a = some s') : HandoffOk s' := by
  cases a with
  | connect scratch req =>
      obtain ⟨_, hs⟩ := Option.ite_none_right_eq_some.mp hnext
      obtain rfl := Option.some.inj hs
      exact hok.move rfl rfl id
  | answer =>
      simp only [loaderNext] at hnext
      split at hnext
      · obtain rfl := Option.some.inj hnext
        exact hok.move rfl rfl id
      · contradiction
  | leak =>
      simp only [loaderNext] at hnext
      split at hnext
      · obtain ⟨_, hs⟩ := Option.ite_none_left_eq_some.mp hnext
        obtain rfl := Option.some.inj hs
        exact hok.move rfl rfl id
      · contradiction
  | submit =>
      simp only [loaderNext] at hnext
      split at hnext
      · rename_i scratch req _
        obtain ⟨_, hs⟩ := Option.ite_none_right_eq_some.mp hnext
        obtain rfl := Option.some.inj hs
        refine hok.move rfl rfl ?_
        by_cases hrefused : s.timerOn = false ∨ req.prog.length > lsPrepMaxProg
        · simp only [if_pos hrefused]
          exact id
        · simp only [if_neg hrefused]
          exact id
      · contradiction
  | fill copy => exact hok.fill hnext
  | proceed => exact hok.proceed hnext

theorem handoffMachine_ok {ok : Handoff → HandoffLabel → Prop} :
    ∀ s, handoffMachine.ReachableWhen ok s → HandoffOk s := by
  apply Machine.ReachableWhen.invariant
  · intro s ⟨hprep, hloader, hthread, _, _⟩
    refine ⟨fun h => absurd hthread h, ?_, ?_, ?_⟩
    · intro scratch req h
      rw [hloader] at h
      contradiction
    · intro scratch h
      rw [hloader] at h
      contradiction
    · intro scratch h
      rw [hloader] at h
      contradiction
  · intro s a s' _ hok _ hnext
    cases a with
    | loader a => exact hok.loader hnext
    | thread a => exact hok.thread hnext

/-! ## Nothing is left behind -/

/-- The loader is in the wait for a result. -/
def LoaderPc.isAwaiting : LoaderPc → Bool
  | .waiting .. | .collecting .. => true
  | _ => false

/-- No request is pending or running, so the next submission is not refused as if one
were, and neither CONFIG nor REVOKE finds one. -/
def Settled (s : Handoff) : Prop :=
  s.loader.isAwaiting = false → s.thread = .idle → s.prep.state ≠ .pending →
    s.prep.reclaim.outstanding = false ∧ s.prep.busy = false

/-- When the thread completes a request, its submitter is still waiting and will look
at the state word again. -/
def Collected (s : Handoff) : HandoffLabel → Prop
  | .thread .publish =>
      match s.loader with
      | .waiting _ left => 0 < left
      | _ => False
  | _ => True

instance decidableCollected (s : Handoff) (a : HandoffLabel) : Decidable (Collected s a) := by
  unfold Collected
  split
  · split <;> infer_instance
  · infer_instance

/-- Only the thread says that a request is over. -/
theorem loader_done {s s' : Handoff} {a : LoaderLabel} (hnext : loaderNext s a = some s')
    (hdone : s'.prep.state = .done) : s.prep.state = .done := by
  cases a with
  | connect scratch req => grind [loaderNext]
  | answer => grind [loaderNext]
  | leak => grind [loaderNext]
  | submit => grind [loaderNext]
  | fill copy => grind [loaderNext, Handoff.fill, LsPrep.fill]
  | proceed => grind [loaderNext, Handoff.proceed, LsPrep.reclaim]

/-- A result that is there is collected next. -/
theorem loader_collects {s s' : Handoff} {a : LoaderLabel} (hnext : loaderNext s a = some s')
    (hdone : s.prep.state = .done) {scratch left : Nat}
    (hwait : s.loader = .waiting scratch (left + 1) ∨ s.loader = .collecting scratch) :
    s'.loader = .collecting scratch ∨ s'.prep.state = .idle := by
  cases a with
  | connect scratch req => grind [loaderNext]
  | answer => grind [loaderNext]
  | leak => grind [loaderNext]
  | submit => grind [loaderNext]
  | fill copy => grind [loaderNext, Handoff.fill]
  | proceed => grind [loaderNext, Handoff.proceed]

/-- A result that is there has somebody who collects it. -/
def Wanted (s : Handoff) : Prop :=
  s.prep.state = .done →
    ∃ scratch left, s.loader = .waiting scratch (left + 1) ∨ s.loader = .collecting scratch

theorem Wanted.loader {s s' : Handoff} {a : LoaderLabel} (h : Wanted s)
    (hnext : loaderNext s a = some s') : Wanted s' := by
  intro hdone
  have hdone' := loader_done hnext hdone
  obtain ⟨scratch, left, hwait⟩ := h hdone'
  rcases loader_collects hnext hdone' hwait with hcollecting | hidle
  · exact ⟨scratch, left, .inr hcollecting⟩
  · rw [hidle] at hdone
    contradiction

theorem Wanted.thread {s s' : Handoff} {a : ThreadLabel} (hok : HandoffOk s)
    (hcollected : Collected s (.thread a)) (hnext : threadNext s a = some s') : Wanted s' := by
  intro hdone
  have hstep := thread_step hok hnext
  rcases hstep.state with hpending | ⟨rfl, _, _⟩
  · rw [hpending] at hdone
    contradiction
  · rw [hstep.loader]
    simp only [Collected] at hcollected
    split at hcollected
    · rename_i scratch left hloader
      obtain ⟨left, rfl⟩ := Nat.exists_eq_succ_of_ne_zero (Nat.ne_of_gt hcollected)
      exact ⟨scratch, left, .inl hloader⟩
    · contradiction

/-- In every run in which each completion finds its submitter still waiting, a handoff
without a pending or running request is ready for the next one. -/
theorem handoff_settled : ∀ s, handoffMachine.ReachableWhen Collected s → Settled s := by
  have hwanted : ∀ s, handoffMachine.ReachableWhen Collected s → Wanted s := by
    apply Machine.ReachableWhen.invariant
    · intro s hs hdone
      rw [hs.1] at hdone
      contradiction
    · intro s a s' hs hwanted hcollected hnext
      cases a with
      | loader a => exact hwanted.loader hnext
      | thread a => exact .thread (handoffMachine_ok s hs) hcollected hnext
  intro s hs hrest _ hpending
  have hidle : s.prep.state = .idle := by
    cases hstate : s.prep.state with
    | idle => rfl
    | pending => exact absurd hstate hpending
    | done =>
        obtain ⟨scratch, left, hloader | hloader⟩ := hwanted s hs hstate
        · rw [hloader] at hrest
          contradiction
        · rw [hloader] at hrest
          contradiction
  constructor
  · simp [LsPrep.outstanding, LsPrep.reclaim, hidle]
  · simp [LsPrep.busy, hidle]

/-! ## A late completion -/

def Handoff.initial : Handoff where
  timerOn := true
  prep := .zero
  memory _ := none
  loader := .idle
  thread := .idle
  submitted := []
  patches := []
  reads := []

theorem initial_reachable {ok : Handoff → HandoffLabel → Prop} :
    handoffMachine.ReachableWhen ok .initial :=
  .start ⟨rfl, rfl, rfl, fun _ => rfl, rfl⟩

/-- A wait in which no result comes. -/
theorem run_waiting (s : Handoff) (hstate : s.prep.state ≠ .done) (scratch left : Nat) :
    handoffMachine.run { s with loader := .waiting scratch left }
      (List.replicate left (.loader .proceed)) =
        some { s with loader := .waiting scratch 0 } := by
  induction left with
  | zero => rfl
  | succ left ih =>
      rw [List.replicate_succ, Machine.run]
      have hnext : handoffMachine.next { s with loader := .waiting scratch (left + 1) }
          (.loader .proceed) = some { s with loader := .waiting scratch left } := by
        simp [handoffMachine, handoffNext, loaderNext, Handoff.proceed, hstate]
      rw [hnext]
      exact ih

/-- The state after a wait in which no result comes. -/
theorem reachable_waited {s : Handoff} {scratch left : Nat} (hs : handoffMachine.Reachable s)
    (hstate : s.prep.state ≠ .done) (hloader : s.loader = .waiting scratch left) :
    handoffMachine.Reachable { s with loader := .waiting scratch 0 } := by
  apply Machine.reachable_of_run hs
  have hrun := run_waiting s hstate scratch left
  rw [← hloader] at hrun
  exact hrun

def sampleLoad : Request where
  op := .load
  epoch := 0
  mode := 2
  prog := [1, 2, 3, 4]

/-- A load is parked, and the thread has finished with its program. -/
def almostDone : List HandoffLabel :=
  [.loader (.connect 0 sampleLoad), .loader .submit, .loader .proceed, .loader .proceed,
    .loader (.fill none), .loader .proceed, .thread .start, .thread (.verify true), .thread .read,
    .thread (.finish 0), .thread .release]

/-- The loader gives up and releases its mapping; then the thread completes. -/
def lateCompletion : List HandoffLabel :=
  [.loader .proceed, .loader .proceed, .thread .publish]

/-- A load that completes after its submitter has given up leaves the handoff refusing
every later request. -/
theorem wedged_handoff : ¬ ∀ s, handoffMachine.Reachable s → Settled s := by
  intro h
  have hparked : handoffMachine.Reachable
      ((handoffMachine.run .initial almostDone).getD .initial) :=
    Machine.reachable_run_getD initial_reachable (by decide +kernel)
  have hwaited := reachable_waited hparked (by decide +kernel)
    (show _ = LoaderPc.waiting 0 lsPrepWaitMs by decide +kernel)
  have hlate : handoffMachine.Reachable ((handoffMachine.run _ lateCompletion).getD _) :=
    Machine.reachable_run_getD hwaited (by decide +kernel)
  have hsettled := h _ hlate (by decide +kernel) (by decide +kernel) (by decide +kernel)
  revert hsettled
  decide +kernel

/-- A load whose result is collected. -/
theorem handoff_settled_collected :
    ∃ s, handoffMachine.ReachableWhen Collected s ∧ s.loader = .idle ∧ s.prep.op = .load ∧
      Settled s := by
  have hs : handoffMachine.ReachableWhen Collected
      ((handoffMachine.runWhen Collected .initial (almostDone ++
        [.thread .publish, .loader .proceed, .loader .proceed, .loader .proceed])).getD
          .initial) :=
    Machine.reachableWhen_run_getD initial_reachable (by decide +kernel)
  exact ⟨_, hs, by decide +kernel, by decide +kernel, handoff_settled _ hs⟩

end Loader
end LiveSurface
