import LiveSurface.Library.ReaderGate
import LiveSurface.Program.Dispatch

/-!
# Dispatchers beside the control thread

One control thread makes operations, and any number of dispatchers enter patched
functions.  They meet at the gate: a flag that the control thread sets and a
counter of dispatchers.  Here every access to shared memory is a step of its own,
so a run is an interleaving of the atomic accesses and the single loads and
stores of both sides.

Only the control thread stores into the manager's tables.  What it reads is
therefore what it wrote, and the stores of a phase are known when the phase
begins; they are made one at a time.  A dispatcher that interrupts another one on
the same thread is one more dispatcher.  The counter is a natural number: its 32
bits count more dispatchers than a process can have threads.

Main results:

- Theorem {lit}`gate_reachable`: flag, counter and positions follow the generic
  protocol of a gate.
- Theorem {lit}`not_holding_of_inside`: no dispatcher is inside while the control
  thread holds the gate.
-/

namespace LiveSurface
namespace Program

open Config StoreProgram

/-! ## Dispatchers -/

/-- What {lit}`ls_tramp_dispatch_at` passes on, and the state of its thread. -/
structure Call where
  slot : Nat
  returnIp : UInt64
  input : Option LsCtxGeneric
  thread : DispatchThread
deriving DecidableEq

/-- The next access of a dispatcher that has passed the gate. -/
inductive Work
  | loadOwned
  | loadReturnIp
  | loadInstance (id : Nat)
  | loadMode (id : Nat)
  | loadCount (id i : Nat)
  | loadSite (id i : Nat)
  | mapEnter (id i : Nat)
  | loadSlotMode (id i : Nat)
  | loadSlotVm (id i mode : Nat)
  | loadSlotArmed (id i mode : Nat) (vm : Option Nat)
  /-- Inside the VM {lit}`v`. -/
  | running (id i v : Nat)
  | loadSafeValue (id i : Nat)
deriving DecidableEq

inductive Pc
  | fetchAdd
  | loadWriter
  /-- The writer was seen. -/
  | refused
  | work (w : Work)
  | fetchSub
  /-- {lit}`ls_program_dispatch` has returned. -/
  | returned (ret : Bool)
  /-- The trampoline goes on to its own slot. -/
  | legacy
deriving DecidableEq

structure Dispatch where
  call : Call
  owned : Bool
  out : LsTrampResult
  /-- The calls of {lit}`ls_vm_run` that have returned, in order, with what they
  returned. -/
  runs : List (Nat × Nat × LsVerdict)
  pc : Pc
deriving DecidableEq

/-- {lit}`ls_vm_run` returns to the dispatcher's loop. -/
def Dispatch.ran (d : Dispatch) (id i : Nat) (verdict : LsVerdict) : Dispatch :=
  { d with runs := d.runs ++ [(id, i, verdict)], pc := .work (.loadCount id (i + 1)) }

/-- A call of the trampoline that has returned. -/
structure Finished where
  call : Call
  /-- What {lit}`ls_vm_call` returned for the trampoline's own slot, where it was
  called. -/
  legacy : Option LsVerdict
  result : LsTrampResult
deriving DecidableEq

/-- What a dispatcher does not decide itself. -/
structure Answer where
  /-- {lit}`ls_map_enter` succeeds. -/
  entered : Bool
  /-- What {lit}`ls_vm_run` returns. -/
  verdict : LsVerdict
  /-- The safe value of the trampoline's own slot. -/
  safeValue : UInt64
deriving DecidableEq

/-- {lit}`ls_vm_call`: slots of managed entries are not reached this way. -/
def lsVmCall (slot : Nat) (answer : Answer) : LsVerdict :=
  if slot ≥ lsLegacySlots then .fallthrough else answer.verdict

/-- {lit}`ls_tramp_dispatch_at` up to its first access. -/
def lsTrampDispatchAt (c : Call) : Dispatch where
  call := c
  owned := false
  out := fallthroughResult
  runs := []
  pc :=
    if c.returnIp = 0 then .legacy
    else if c.slot ≥ lsProgramSites then .returned false
    else .fetchAdd

/-- One access of a dispatcher that has passed the gate. -/
def Work.next (m : Manager) (answer : Answer) (d : Dispatch) : Work → Dispatch
  | .loadOwned =>
      if (m.sites d.call.slot).owned then { d with owned := true, pc := .work .loadReturnIp }
      else { d with owned := false, pc := .fetchSub }
  | .loadReturnIp =>
      if d.call.returnIp = (m.sites d.call.slot).returnIp ∧ d.call.input.isSome ∧
          d.call.thread.inNamespace = false ∧ d.call.thread.running = false then
        { d with pc := .work (.loadInstance 0) }
      else { d with pc := .fetchSub }
  | .loadInstance id =>
      if id ≥ lsProgramMax then { d with pc := .fetchSub }
      else if (m.programs id).instanceId = 0 then { d with pc := .work (.loadInstance (id + 1)) }
      else { d with pc := .work (.loadMode id) }
  | .loadMode id =>
      if (m.programs id).mode = lsModeDisable then { d with pc := .work (.loadInstance (id + 1)) }
      else { d with pc := .work (.loadCount id 0) }
  | .loadCount id i =>
      if i < (m.programs id).count then { d with pc := .work (.loadSite id i) }
      else { d with pc := .work (.loadInstance (id + 1)) }
  | .loadSite id i =>
      if (m.programs id).sites i = some d.call.slot then { d with pc := .work (.mapEnter id i) }
      else { d with pc := .work (.loadCount id (i + 1)) }
  | .mapEnter id i =>
      if answer.entered then { d with pc := .work (.loadSlotMode id i) }
      else d.ran id i .fallthrough
  | .loadSlotMode id i =>
      { d with pc := .work (.loadSlotVm id i (m.slots (lsProgramSlot id i)).mode) }
  | .loadSlotVm id i mode =>
      { d with pc := .work (.loadSlotArmed id i mode (m.slots (lsProgramSlot id i)).vm) }
  | .loadSlotArmed id i mode vm =>
      match vm with
      | some v =>
          if (m.slots (lsProgramSlot id i)).armed ∧ mode ≠ lsModeDisable then
            { d with pc := .work (.running id i v) }
          else d.ran id i .fallthrough
      | none => d.ran id i .fallthrough
  | .running id i _ =>
      if answer.verdict = .safeReturn then { d with pc := .work (.loadSafeValue id i) }
      else d.ran id i answer.verdict
  | .loadSafeValue id i =>
      { d with
        out := { verdict := .safeReturn, safeValue := (m.sites d.call.slot).safeValue } }.ran
          id i .safeReturn

/-! ## The control thread -/

/-- The next access of the control thread, with the stores it still has to make
in the present phase. -/
inductive Control
  | idle
  | preparing (op : Op) (plan : Option LoadPlan) (todo : List Store)
  | exchange (op : Op) (plan : LoadPlan)
  | loadReaders (op : Op) (plan : LoadPlan)
  | backOff (op : Op) (plan : LoadPlan)
  | holding (op : Op) (plan : LoadPlan) (ok : Bool) (todo : List Store)
  | undoing (op : Op) (plan : LoadPlan) (todo : List Store)

def Control.prepare (m : Manager) (op : Op) : Control :=
  .preparing op (op.before.result m) (op.before.stores m)

def Control.hold (m : Manager) (op : Op) (plan : LoadPlan) : Control :=
  .holding op plan ((op.locked plan).result m) ((op.locked plan).stores m)

def Control.undo (m : Manager) (op : Op) (plan : LoadPlan) : Control :=
  .undoing op plan ((op.after plan).stores m)

/-! ## The machine -/

structure State (T : Type) where
  writer : Bool
  readers : Nat
  manager : Manager
  control : Control
  dispatchers : T → Option Dispatch
  finished : List Finished

inductive Action (T : Type)
  /-- The control thread begins an operation. -/
  | begin (op : Op)
  /-- The control thread makes its next access. -/
  | control
  /-- A patched function is entered. -/
  | call (t : T) (c : Call)
  /-- A dispatcher makes its next access. -/
  | dispatch (t : T) (answer : Answer)

variable {T : Type}

/-- {lit}`ls_program_lock` and {lit}`ls_program_unlock` around the phases of an
operation. -/
def controlNext (s : State T) : Option (State T) :=
  match s.control with
  | .idle => none
  | .preparing op plan (st :: todo) =>
      some { s with manager := Stores.store s.manager st, control := .preparing op plan todo }
  | .preparing _ none [] => some { s with control := .idle }
  | .preparing op (some plan) [] =>
      some { s with
        control := if op.asks plan then .exchange op plan else .undo s.manager op plan }
  | .exchange op plan =>
      some { s with
        writer := true
        control := if s.writer then .undo s.manager op plan else .loadReaders op plan }
  | .loadReaders op plan =>
      some { s with
        control := if s.readers = 0 then .hold s.manager op plan else .backOff op plan }
  | .backOff op plan =>
      some { s with writer := false, control := .undo s.manager op plan }
  | .holding op plan ok (st :: todo) =>
      some { s with manager := Stores.store s.manager st, control := .holding op plan ok todo }
  | .holding op plan ok [] =>
      some { s with
        writer := false
        control := if ok then .idle else .undo s.manager op plan }
  | .undoing op plan (st :: todo) =>
      some { s with manager := Stores.store s.manager st, control := .undoing op plan todo }
  | .undoing _ _ [] => some { s with control := .idle }

/-- What an access of the control thread does. -/
inductive ControlStep (s : State T) : State T → Prop
  | prepare {op : Op} {plan : Option LoadPlan} {st : Store} {todo : List Store}
      (h : s.control = .preparing op plan (st :: todo)) :
      ControlStep s
        { s with manager := Stores.store s.manager st, control := .preparing op plan todo }
  | refused {op : Op} (h : s.control = .preparing op none []) :
      ControlStep s { s with control := .idle }
  | ask {op : Op} {plan : LoadPlan} (h : s.control = .preparing op (some plan) []) :
      ControlStep s
        { s with control := if op.asks plan then .exchange op plan else .undo s.manager op plan }
  | exchange {op : Op} {plan : LoadPlan} (h : s.control = .exchange op plan) :
      ControlStep s
        { s with
          writer := true
          control := if s.writer then .undo s.manager op plan else .loadReaders op plan }
  | loadReaders {op : Op} {plan : LoadPlan} (h : s.control = .loadReaders op plan) :
      ControlStep s
        { s with
          control := if s.readers = 0 then .hold s.manager op plan else .backOff op plan }
  | backOff {op : Op} {plan : LoadPlan} (h : s.control = .backOff op plan) :
      ControlStep s { s with writer := false, control := .undo s.manager op plan }
  | store {op : Op} {plan : LoadPlan} {ok : Bool} {st : Store} {todo : List Store}
      (h : s.control = .holding op plan ok (st :: todo)) :
      ControlStep s
        { s with manager := Stores.store s.manager st, control := .holding op plan ok todo }
  | unlock {op : Op} {plan : LoadPlan} {ok : Bool} (h : s.control = .holding op plan ok []) :
      ControlStep s
        { s with
          writer := false
          control := if ok then .idle else .undo s.manager op plan }
  | undo {op : Op} {plan : LoadPlan} {st : Store} {todo : List Store}
      (h : s.control = .undoing op plan (st :: todo)) :
      ControlStep s
        { s with manager := Stores.store s.manager st, control := .undoing op plan todo }
  | done {op : Op} {plan : LoadPlan} (h : s.control = .undoing op plan []) :
      ControlStep s { s with control := .idle }

theorem controlNext_step {s s' : State T} (hnext : controlNext s = some s') :
    ControlStep s s' := by
  unfold controlNext at hnext
  split at hnext
  · contradiction
  all_goals
    rename_i h
    rw [Option.some.injEq] at hnext
    rw [← hnext]
  · exact .prepare h
  · exact .refused h
  · exact .ask h
  · exact .exchange h
  · exact .loadReaders h
  · exact .backOff h
  · exact .store h
  · exact .unlock h
  · exact .undo h
  · exact .done h

variable [DecidableEq T]

def State.setDispatcher (s : State T) (t : T) (d : Option Dispatch) : State T :=
  { s with dispatchers := Function.update s.dispatchers t d }

/-- A call returns to the patched function. -/
def State.finish (s : State T) (t : T) (f : Finished) : State T :=
  { s with
    dispatchers := Function.update s.dispatchers t none
    finished := f :: s.finished }

def dispatchNext (s : State T) (t : T) (answer : Answer) (d : Dispatch) : State T :=
  match d.pc with
  | .fetchAdd =>
      { s with readers := s.readers + 1 }.setDispatcher t (some { d with pc := .loadWriter })
  | .loadWriter =>
      s.setDispatcher t
        (some { d with pc := if s.writer then .refused else .work .loadOwned })
  | .refused =>
      { s with readers := s.readers - 1 }.setDispatcher t (some { d with pc := .returned true })
  | .work w => s.setDispatcher t (some (w.next s.manager answer d))
  | .fetchSub =>
      { s with readers := s.readers - 1 }.setDispatcher t
        (some { d with pc := .returned d.owned })
  | .returned true => s.finish t { call := d.call, legacy := none, result := d.out }
  | .returned false => s.setDispatcher t (some { d with pc := .legacy })
  | .legacy =>
      s.finish t
        { call := d.call
          legacy := some (lsVmCall d.call.slot answer)
          result := if lsVmCall d.call.slot answer = .safeReturn then
              { verdict := .safeReturn, safeValue := answer.safeValue }
            else d.out }

def gateMachine (T : Type) [DecidableEq T] : Machine (State T) (Action T) where
  init s := s.writer = false ∧ s.readers = 0 ∧ (∃ session, s.manager = .initial session) ∧
    s.control = .idle ∧ (∀ t, s.dispatchers t = none) ∧ s.finished = []
  next s
    | .begin op =>
        match s.control with
        | .idle => some { s with control := .prepare s.manager op }
        | _ => none
    | .control => controlNext s
    | .call t c =>
        match s.dispatchers t with
        | none => some (s.setDispatcher t (some (lsTrampDispatchAt c)))
        | some _ => none
    | .dispatch t answer =>
        match s.dispatchers t with
        | none => none
        | some d => some (dispatchNext s t answer d)

/-- The four kinds of step. -/
theorem gateMachine_cases {s s' : State T} {a : Action T}
    (h : (gateMachine T).next s a = some s') :
    (∃ op, a = .begin op ∧ s.control = .idle ∧
        s' = { s with control := .prepare s.manager op }) ∨
      (a = .control ∧ controlNext s = some s') ∨
      (∃ t c, a = .call t c ∧ s.dispatchers t = none ∧
        s' = s.setDispatcher t (some (lsTrampDispatchAt c))) ∨
      ∃ t answer d, a = .dispatch t answer ∧ s.dispatchers t = some d ∧
        s' = dispatchNext s t answer d := by
  cases a with
  | begin op =>
      cases hcontrol : s.control with
      | idle =>
          simp only [gateMachine, hcontrol, Option.some.injEq] at h
          exact .inl ⟨op, rfl, rfl, h.symm⟩
      | preparing | exchange | loadReaders | backOff | holding | undoing =>
          simp [gateMachine, hcontrol] at h
  | control => exact .inr (.inl ⟨rfl, h⟩)
  | call t c =>
      cases hd : s.dispatchers t with
      | some d => simp [gateMachine, hd] at h
      | none =>
          simp only [gateMachine, hd, Option.some.injEq] at h
          exact .inr (.inr (.inl ⟨t, c, rfl, hd, h.symm⟩))
  | dispatch t answer =>
      cases hd : s.dispatchers t with
      | none => simp [gateMachine, hd] at h
      | some d =>
          simp only [gateMachine, hd, Option.some.injEq] at h
          exact .inr (.inr (.inr ⟨t, answer, d, rfl, hd, h.symm⟩))

omit [DecidableEq T] in
/-- The control thread leaves the dispatchers alone. -/
theorem controlNext_dispatchers {s s' : State T} (h : controlNext s = some s') :
    s'.dispatchers = s.dispatchers ∧ s'.finished = s.finished := by
  cases controlNext_step h with
  | prepare | refused | ask | exchange | loadReaders | backOff | store | unlock | undo | done =>
      exact ⟨rfl, rfl⟩

/-- A dispatcher leaves the tables, the control thread and the other dispatchers
alone. -/
theorem dispatchNext_frame (s : State T) (t : T) (answer : Answer) (d : Dispatch) :
    (dispatchNext s t answer d).manager = s.manager ∧
      (dispatchNext s t answer d).control = s.control ∧
      ∀ u, u ≠ t → (dispatchNext s t answer d).dispatchers u = s.dispatchers u := by
  unfold dispatchNext
  split
  all_goals
    refine ⟨rfl, rfl, ?_⟩
    intro u hu
    exact Function.update_of_ne hu _ _

/-- What an access does to the dispatcher that makes it. -/
inductive OwnStep (s : State T) (answer : Answer) (d : Dispatch) : Dispatch → Prop
  | fetchAdd (h : d.pc = .fetchAdd) : OwnStep s answer d { d with pc := .loadWriter }
  | refused (h : d.pc = .loadWriter) (hwriter : s.writer = true) :
      OwnStep s answer d { d with pc := .refused }
  | admitted (h : d.pc = .loadWriter) (hwriter : s.writer = false) :
      OwnStep s answer d { d with pc := .work .loadOwned }
  | busy (h : d.pc = .refused) : OwnStep s answer d { d with pc := .returned true }
  | work {w : Work} (h : d.pc = .work w) : OwnStep s answer d (w.next s.manager answer d)
  | fetchSub (h : d.pc = .fetchSub) : OwnStep s answer d { d with pc := .returned d.owned }
  | legacy (h : d.pc = .returned false) : OwnStep s answer d { d with pc := .legacy }

theorem dispatchNext_own {s : State T} {t : T} {answer : Answer} {d e : Dispatch}
    (he : (dispatchNext s t answer d).dispatchers t = some e) : OwnStep s answer d e := by
  unfold dispatchNext at he
  cases hpc : d.pc with
  | fetchAdd =>
      simp only [hpc, State.setDispatcher, Function.update_self, Option.some.injEq] at he
      rw [← he]
      exact .fetchAdd hpc
  | loadWriter =>
      simp only [hpc, State.setDispatcher, Function.update_self, Option.some.injEq] at he
      rw [← he]
      cases hwriter : s.writer with
      | true => exact .refused hpc hwriter
      | false => exact .admitted hpc hwriter
  | refused =>
      simp only [hpc, State.setDispatcher, Function.update_self, Option.some.injEq] at he
      rw [← he]
      exact .busy hpc
  | work w =>
      simp only [hpc, State.setDispatcher, Function.update_self, Option.some.injEq] at he
      rw [← he]
      exact .work hpc
  | fetchSub =>
      simp only [hpc, State.setDispatcher, Function.update_self, Option.some.injEq] at he
      rw [← he]
      exact .fetchSub hpc
  | returned ret =>
      cases ret with
      | true => simp [hpc, State.finish] at he
      | false =>
          simp only [hpc, State.setDispatcher, Function.update_self, Option.some.injEq] at he
          rw [← he]
          exact .legacy hpc
  | legacy => simp [hpc, State.finish] at he

/-- A fact about every dispatcher and the tables: it is enough that the step
disturbs none of them, that it holds of new ones, and that a dispatcher keeps it
by its own access. -/
theorem dispatchers_next {P : Manager → Dispatch → Prop} {s s' : State T} {a : Action T}
    (hnext : (gateMachine T).next s a = some s')
    (hkept : ∀ t d, s.dispatchers t = some d → P s'.manager d)
    (hcall : ∀ c, P s'.manager (lsTrampDispatchAt c))
    (hown : ∀ t answer d e, a = .dispatch t answer → s.dispatchers t = some d →
      OwnStep s answer d e → P s.manager e) :
    ∀ t d, s'.dispatchers t = some d → P s'.manager d := by
  rcases gateMachine_cases hnext with
    ⟨op, _, _, rfl⟩ | ⟨_, hcontrol⟩ | ⟨u, c, _, _, rfl⟩ | ⟨u, answer, e, ha, he, rfl⟩
  · exact hkept
  · rw [(controlNext_dispatchers hcontrol).1]
    exact hkept
  · intro t d hd
    by_cases ht : t = u
    · subst ht
      simp only [State.setDispatcher, Function.update_self, Option.some.injEq] at hd
      rw [← hd]
      exact hcall c
    · simp only [State.setDispatcher, Function.update_of_ne ht] at hd
      exact hkept t d hd
  · obtain ⟨hmanager, _, hother⟩ := dispatchNext_frame s u answer e
    intro t d hd
    by_cases ht : t = u
    · subst ht
      rw [hmanager]
      exact hown t answer e d ha he (dispatchNext_own hd)
    · rw [hother t ht] at hd
      exact hkept t d hd

/-! ## The gate as a protocol -/

/-- A dispatcher that has passed the gate and not yet taken itself off the
counter. -/
def Dispatch.Inside (d : Dispatch) : Prop := (∃ w, d.pc = .work w) ∨ d.pc = .fetchSub

def Pc.phase : Pc → ReaderGate.Reader
  | .fetchAdd => .away
  | .loadWriter => .counted
  | .refused => .counted
  | .work _ => .admitted
  | .fetchSub => .admitted
  | .returned _ => .away
  | .legacy => .away

def readerPhase : Option Dispatch → ReaderGate.Reader
  | none => .away
  | some d => d.pc.phase

/-- Between a successful {lit}`ls_program_lock` and {lit}`ls_program_unlock`. -/
def Control.Holding (c : Control) : Prop := ∃ op plan ok todo, c = .holding op plan ok todo

def Control.phase : Control → ReaderGate.Writer
  | .loadReaders _ _ => .flagged
  | .backOff _ _ => .flagged
  | .holding _ _ _ _ => .holding
  | _ => .away

/-- What the protocol sees of a state. -/
def State.gate (s : State T) : ReaderGate.Gate T where
  flag := s.writer
  counter := s.readers
  readers := readerPhase ∘ s.dispatchers
  writer := s.control.phase

theorem gate_setDispatcher (s : State T) (t : T) (d : Option Dispatch) :
    (s.setDispatcher t d).gate =
      { s.gate with readers := Function.update s.gate.readers t (readerPhase d) } := by
  simp only [State.gate, State.setDispatcher, Function.comp_update]

theorem gate_setDispatcher_same {s : State T} {t : T} {d : Option Dispatch}
    (h : readerPhase d = s.gate.readers t) : (s.setDispatcher t d).gate = s.gate := by
  rw [gate_setDispatcher, h, Function.update_eq_self]

omit [DecidableEq T] in
theorem readers_gate {s : State T} {t : T} {d : Option Dispatch} (h : s.dispatchers t = d) :
    s.gate.readers t = readerPhase d := by
  simp [State.gate, h]

/-- A dispatcher inside stays inside until it takes itself off the counter, and
takes a site for owned only when it is. -/
theorem workNext_keeps (m : Manager) (answer : Answer) (d : Dispatch) (w : Work) :
    (w.next m answer d).pc.phase = .admitted ∧ (w.next m answer d).call = d.call ∧
      ((w.next m answer d).owned = true →
        d.owned = true ∨ (m.sites d.call.slot).owned = true) := by
  unfold Work.next
  cases w with
  | loadOwned =>
      dsimp only
      split
      · rename_i howned
        exact ⟨rfl, rfl, fun _ => .inr howned⟩
      · exact ⟨rfl, rfl, by simp⟩
  | loadReturnIp | loadInstance | loadMode | loadCount | loadSite | mapEnter | loadSlotMode
  | loadSlotVm | loadSlotArmed | running | loadSafeValue =>
      dsimp only
      repeat' split
      all_goals exact ⟨rfl, rfl, .inl⟩

/-- Every access of a dispatcher is one of a reader, or does not touch the gate. -/
theorem dispatchNext_gate {s : State T} {t : T} {d : Dispatch} (answer : Answer)
    (hd : s.dispatchers t = some d) :
    (dispatchNext s t answer d).gate = s.gate ∨
      ∃ a, s.gate.next a = some (dispatchNext s t answer d).gate := by
  have hphase : s.gate.readers t = d.pc.phase := readers_gate hd
  unfold dispatchNext
  cases hpc : d.pc with
  | fetchAdd =>
      refine .inr ⟨.enter t, ?_⟩
      rw [hpc] at hphase
      simp only [ReaderGate.Gate.next, hphase, Pc.phase, if_true, gate_setDispatcher]
      rfl
  | loadWriter =>
      rw [hpc] at hphase
      cases hwriter : s.writer with
      | true =>
          left
          exact gate_setDispatcher_same (by rw [hphase]; rfl)
      | false =>
          refine .inr ⟨.look t, ?_⟩
          have hflag : s.gate.flag = false := hwriter
          simp only [ReaderGate.Gate.next, hphase, hflag, Pc.phase, and_self, if_true,
            gate_setDispatcher]
          rfl
  | refused =>
      refine .inr ⟨.leave t, ?_⟩
      rw [hpc] at hphase
      simp only [ReaderGate.Gate.next, hphase, gate_setDispatcher]
      rfl
  | work w =>
      left
      apply gate_setDispatcher_same
      rw [hphase, hpc]
      exact (workNext_keeps s.manager answer d w).1
  | fetchSub =>
      refine .inr ⟨.leave t, ?_⟩
      rw [hpc] at hphase
      simp only [ReaderGate.Gate.next, hphase, gate_setDispatcher]
      rfl
  | returned ret =>
      left
      rw [hpc] at hphase
      cases ret with
      | true => exact gate_setDispatcher_same (s := s) (d := none) (by rw [hphase]; rfl)
      | false => exact gate_setDispatcher_same (by rw [hphase]; rfl)
  | legacy =>
      left
      rw [hpc] at hphase
      exact gate_setDispatcher_same (s := s) (d := none) (by rw [hphase]; rfl)

/-- Every access of the control thread is one of the writer, or does not touch
the gate. -/
theorem controlNext_gate {s s' : State T} (hnext : controlNext s = some s') :
    s'.gate = s.gate ∨ ∃ a, s.gate.next a = some s'.gate := by
  cases controlNext_step hnext with
  | prepare h => exact .inl (by simp [State.gate, h, Control.phase])
  | refused h => exact .inl (by simp [State.gate, h, Control.phase])
  | @ask op plan h =>
      left
      cases hasks : op.asks plan with
      | true => simp [State.gate, h, Control.phase]
      | false => simp [State.gate, h, Control.phase, Control.undo]
  | exchange h =>
      cases hwriter : s.writer with
      | true => exact .inl (by simp [State.gate, h, hwriter, Control.phase, Control.undo])
      | false =>
          refine .inr ⟨.raise, ?_⟩
          simp [ReaderGate.Gate.next, State.gate, h, hwriter, Control.phase]
  | loadReaders h =>
      by_cases hreaders : s.readers = 0
      · refine .inr ⟨.hold, ?_⟩
        simp [ReaderGate.Gate.next, State.gate, h, hreaders, Control.phase, Control.hold]
      · exact .inl (by simp [State.gate, h, hreaders, Control.phase])
  | backOff h =>
      refine .inr ⟨.lower, ?_⟩
      simp [ReaderGate.Gate.next, State.gate, h, Control.phase, Control.undo]
  | store h => exact .inl (by simp [State.gate, h, Control.phase])
  | @unlock op plan ok h =>
      refine .inr ⟨.lower, ?_⟩
      cases ok with
      | true => simp [ReaderGate.Gate.next, State.gate, h, Control.phase]
      | false => simp [ReaderGate.Gate.next, State.gate, h, Control.phase, Control.undo]
  | undo h => exact .inl (by simp [State.gate, h, Control.phase])
  | done h => exact .inl (by simp [State.gate, h, Control.phase])

/-- The trampoline has not reached the gate when it is entered. -/
theorem phase_lsTrampDispatchAt (c : Call) : (lsTrampDispatchAt c).pc.phase = .away := by
  unfold lsTrampDispatchAt
  dsimp only
  split
  · rfl
  · split <;> rfl

theorem gateNext_gate {s s' : State T} {a : Action T} (h : (gateMachine T).next s a = some s') :
    s'.gate = s.gate ∨ ∃ b, s.gate.next b = some s'.gate := by
  rcases gateMachine_cases h with
    ⟨op, _, hcontrol, rfl⟩ | ⟨_, hnext⟩ | ⟨t, c, _, hd, rfl⟩ | ⟨t, answer, d, _, hd, rfl⟩
  · left
    simp [State.gate, hcontrol, Control.phase, Control.prepare]
  · exact controlNext_gate hnext
  · left
    apply gate_setDispatcher_same
    rw [readers_gate hd]
    exact phase_lsTrampDispatchAt c
  · exact dispatchNext_gate answer hd

/-- Flag, counter and positions are those of the protocol, in every run. -/
theorem gate_reachable :
    ∀ s, (gateMachine T).Reachable s → (ReaderGate.machine T).Reachable s.gate := by
  apply Machine.Reachable.simulates
  · intro s hs
    obtain ⟨hwriter, hreaders, _, hcontrol, hdispatchers, _⟩ := hs
    refine ⟨hwriter, hreaders, ?_, ?_⟩
    · intro t
      rw [readers_gate (hdispatchers t)]
      rfl
    · simp [State.gate, hcontrol, Control.phase]
  · intro s a s' _ _ hnext
    exact gateNext_gate hnext

theorem phase_of_inside {d : Dispatch} (h : d.Inside) : d.pc.phase = .admitted := by
  rcases h with ⟨w, hpc⟩ | hpc
  · rw [hpc]
    rfl
  · rw [hpc]
    rfl

/-- No dispatcher is inside while the control thread holds the gate. -/
theorem not_holding_of_inside {s : State T} (hs : (gateMachine T).Reachable s) {t : T}
    {d : Dispatch} (hd : s.dispatchers t = some d) (hinside : d.Inside) :
    ¬ s.control.Holding := by
  intro hholding
  obtain ⟨op, plan, ok, todo, hcontrol⟩ := hholding
  have hwriter : s.gate.writer = .holding := by simp [State.gate, hcontrol, Control.phase]
  apply ReaderGate.exclusive (gate_reachable s hs) hwriter t
  rw [readers_gate hd]
  exact phase_of_inside hinside

end Program
end LiveSurface
