import LiveSurface.Map.Registry
import LiveSurface.Program.Exclusion

/-!
# Resetting the registry beside running programs

A call of {lit}`ls_vm_run` counts itself among the readers of the shared registry
and then looks whether a reset is under way; a reset announces itself and then
looks at the count.  Any number of calls and of resets may be under way, and every
access to the count, the flag and the registry is a step of its own.

What {lit}`ls_vm_run` loads from its slot is left to the environment: whether the
slot can run, whether its identity is the caller's, how long the program runs and
how often its helpers and bounds checks look at the registry.  The count is a
natural number, as for the gate of the dispatchers.

Main results:

- Theorem {lit}`HolderOk.next`: at most one reset is past its exchange.
- Theorem {lit}`runs_gate_reachable`: count, flag and positions follow the generic
  protocol of a gate.
- Theorem {lit}`reset_excludes_runs`: no program runs while a reset changes the
  registry, the count goes back to zero, and a program sees one generation.
-/

namespace LiveSurface
namespace Map

/-! ## Calls -/

/-- The next access of a call of {lit}`ls_vm_run`. -/
inductive RunPc
  | fetchAdd
  | loadResetting
  /-- {lit}`ls_map_enter` takes the count back and fails. -/
  | backOut
  | loadMode
  | loadVm
  | loadArmed
  | loadIdentity
  | running
  /-- {lit}`ls_map_leave`. -/
  | leave
deriving DecidableEq

structure Invocation where
  pc : RunPc
  /-- The generations that its helpers and bounds checks have loaded. -/
  seen : List UInt64
deriving DecidableEq

/-- What a call does not decide itself. -/
inductive RunAnswer
  /-- The slot is armed, has a VM and is not disabled; the identity fits. -/
  | goOn
  | stop
  /-- A helper or a bounds check runs {lit}`ls_map_current`. -/
  | observe
deriving DecidableEq

/-- The next access of a reset whose exchange found the flag down. -/
inductive ResetPc
  | loadGeneration
  | loadReaders (generation : UInt64)
  | backOff
  | clearName (generation : UInt64) (i : Nat)
  | storeCount (generation : UInt64)
  | storeGeneration (generation : UInt64)
  | release
deriving DecidableEq

/-- The registry, its gate, the calls and the resets. -/
structure Runs (T R : Type) where
  registry : Registry
  readers : Nat
  resetting : Bool
  runs : T → Option Invocation
  resets : R → Option ResetPc
  /-- Whose exchange found the flag down last. -/
  holder : Option R

inductive RunAction (T R : Type)
  /-- {lit}`ls_vm_run` passes its first check. -/
  | call (t : T)
  | run (t : T) (answer : RunAnswer)
  /-- {lit}`ls_map_reset_shapes` makes its exchange. -/
  | exchange (r : R)
  | reset (r : R)
  /-- A program is being loaded beside. -/
  | reloc (request : Relocation)

variable {T R : Type}

section Machine

variable [DecidableEq T] [DecidableEq R]

def Runs.setRun (s : Runs T R) (t : T) (i : Option Invocation) : Runs T R :=
  { s with runs := Function.update s.runs t i }

def Runs.setReset (s : Runs T R) (r : R) (pc : Option ResetPc) : Runs T R :=
  { s with resets := Function.update s.resets r pc }

def runNext (s : Runs T R) (t : T) (answer : RunAnswer) (i : Invocation) : Runs T R :=
  match i.pc with
  | .fetchAdd => { s with readers := s.readers + 1 }.setRun t (some { i with pc := .loadResetting })
  | .loadResetting =>
      s.setRun t (some { i with pc := if s.resetting then .backOut else .loadMode })
  | .backOut => { s with readers := s.readers - 1 }.setRun t none
  | .loadMode => s.setRun t (some { i with pc := .loadVm })
  | .loadVm => s.setRun t (some { i with pc := .loadArmed })
  | .loadArmed =>
      s.setRun t (some { i with pc := if answer = .goOn then .loadIdentity else .leave })
  | .loadIdentity =>
      s.setRun t (some { i with pc := if answer = .goOn then .running else .leave })
  | .running =>
      if answer = .observe then
        s.setRun t (some { i with seen := s.registry.generation :: i.seen })
      else s.setRun t (some { i with pc := .leave })
  | .leave => { s with readers := s.readers - 1 }.setRun t none

def resetNext (s : Runs T R) (r : R) : ResetPc → Runs T R
  | .loadGeneration => s.setReset r (some (.loadReaders s.registry.generation))
  | .loadReaders generation =>
      s.setReset r
        (some (if s.readers ≠ 0 ∨ generation = generationMax then .backOff
          else .clearName generation 0))
  | .backOff => { s with resetting := false, holder := none }.setReset r none
  | .clearName generation i =>
      { s with
        registry := { s.registry with
          names := Function.update s.registry.names i (List.replicate lsMapNameMax 0) } }.setReset r
        (some (if i + 1 < lsMapMax then .clearName generation (i + 1) else .storeCount generation))
  | .storeCount generation =>
      { s with registry := { s.registry with count := 0 } }.setReset r
        (some (.storeGeneration generation))
  | .storeGeneration generation =>
      { s with registry := { s.registry with generation := generation + 1 } }.setReset r
        (some .release)
  | .release => { s with resetting := false, holder := none }.setReset r none

def runMachine (T R : Type) [DecidableEq T] [DecidableEq R] :
    Machine (Runs T R) (RunAction T R) where
  init s := s.readers = 0 ∧ s.resetting = false ∧ (∀ t, s.runs t = none) ∧
    (∀ r, s.resets r = none) ∧ s.holder = none
  next s
    | .call t =>
        if s.runs t = none then some (s.setRun t (some { pc := .fetchAdd, seen := [] }))
        else none
    | .run t answer => (s.runs t).map (runNext s t answer)
    | .exchange r =>
        if s.resets r = none then
          if s.resetting then some s
          else
            some ({ s with resetting := true, holder := some r }.setReset r
              (some .loadGeneration))
        else none
    | .reset r => (s.resets r).map (resetNext s r)
    | .reloc request => some { s with registry := (lsMapReloc s.registry request).registry }

/-- What a step is. -/
theorem runMachine_cases {s s' : Runs T R} {a : RunAction T R}
    (h : (runMachine T R).next s a = some s') :
    (∃ t, s.runs t = none ∧ s' = s.setRun t (some { pc := .fetchAdd, seen := [] })) ∨
    (∃ t answer i, s.runs t = some i ∧ s' = runNext s t answer i) ∨
    s' = s ∨
    (∃ r, s.resets r = none ∧ s.resetting = false ∧
      s' = { s with resetting := true, holder := some r }.setReset r (some .loadGeneration)) ∨
    (∃ r pc, s.resets r = some pc ∧ s' = resetNext s r pc) ∨
    (∃ request, s' = { s with registry := (lsMapReloc s.registry request).registry }) := by
  cases a with
  | call t =>
      simp only [runMachine, Option.ite_none_right_eq_some, Option.some.injEq] at h
      exact .inl ⟨t, h.1, h.2.symm⟩
  | run t answer =>
      obtain ⟨i, hi, heq⟩ := Option.map_eq_some_iff.mp h
      exact .inr (.inl ⟨t, answer, i, hi, heq.symm⟩)
  | exchange r =>
      simp only [runMachine, Option.ite_none_right_eq_some] at h
      obtain ⟨haway, h⟩ := h
      cases hflag : s.resetting with
      | true =>
          rw [hflag, if_pos rfl, Option.some.injEq] at h
          exact .inr (.inr (.inl h.symm))
      | false =>
          rw [hflag, if_neg (by simp), Option.some.injEq] at h
          exact .inr (.inr (.inr (.inl ⟨r, haway, rfl, h.symm⟩)))
  | reset r =>
      obtain ⟨pc, hpc, heq⟩ := Option.map_eq_some_iff.mp h
      exact .inr (.inr (.inr (.inr (.inl ⟨r, pc, hpc, heq.symm⟩))))
  | reloc request =>
      simp only [runMachine, Option.some.injEq] at h
      exact .inr (.inr (.inr (.inr (.inr ⟨request, h.symm⟩))))

/-! ## One reset at a time -/

/-- The holder is the only reset past its exchange, and the flag is up for it. -/
structure HolderOk (s : Runs T R) : Prop where
  only : ∀ r, s.resets r ≠ none → s.holder = some r
  there : ∀ r, s.holder = some r → s.resets r ≠ none
  flag : s.resetting = s.holder.isSome

omit [DecidableEq T] in
/-- A reset that is past its exchange is the holder, goes on or leaves. -/
theorem HolderOk.setReset {s : Runs T R} {r : R} {pc : ResetPc} (h : HolderOk s)
    (hr : s.resets r = some pc) (pc' : ResetPc) (registry : Registry) :
    HolderOk ({ s with registry := registry }.setReset r (some pc')) := by
  have hholder : s.holder = some r := h.only r (by simp [hr])
  refine ⟨?_, ?_, h.flag⟩
  · intro r' hr'
    by_cases heq : r' = r
    · rw [heq]
      exact hholder
    · simp only [Runs.setReset, Function.update_of_ne heq] at hr'
      exact h.only r' hr'
  · intro r' hr'
    by_cases heq : r' = r
    · simp [Runs.setReset, heq]
    · simp only [Runs.setReset, Function.update_of_ne heq]
      exact h.there r' hr'

omit [DecidableEq T] in
theorem HolderOk.release {s : Runs T R} {r : R} {pc : ResetPc} (h : HolderOk s)
    (hr : s.resets r = some pc) :
    HolderOk ({ s with resetting := false, holder := none }.setReset r none) := by
  have hholder : s.holder = some r := h.only r (by simp [hr])
  refine ⟨?_, ?_, rfl⟩
  · intro r' hr'
    by_cases heq : r' = r
    · simp [Runs.setReset, heq] at hr'
    · -- another reset past its exchange would be the holder too
      simp only [Runs.setReset, Function.update_of_ne heq] at hr'
      have hother := h.only r' hr'
      rw [hholder, Option.some.injEq] at hother
      exact absurd hother.symm heq
  · intro r' hr'
    contradiction

theorem HolderOk.next {s s' : Runs T R} {a : RunAction T R} (h : HolderOk s)
    (hnext : (runMachine T R).next s a = some s') : HolderOk s' := by
  rcases runMachine_cases hnext with
    ⟨t, _, rfl⟩ | ⟨t, answer, i, _, rfl⟩ | rfl | ⟨r, haway, hflag, rfl⟩ | ⟨r, pc, hr, rfl⟩ |
    ⟨request, rfl⟩
  · exact ⟨h.only, h.there, h.flag⟩
  · unfold runNext
    split
    case h_8 =>
      split
      · exact ⟨h.only, h.there, h.flag⟩
      · exact ⟨h.only, h.there, h.flag⟩
    all_goals exact ⟨h.only, h.there, h.flag⟩
  · exact h
  · have hnobody : s.holder = none := by
      have hsome := h.flag
      rw [hflag] at hsome
      exact Option.not_isSome_iff_eq_none.mp (by simp [← hsome])
    refine ⟨?_, ?_, rfl⟩
    · intro r' hr'
      by_cases heq : r' = r
      · rw [heq]
        rfl
      · simp only [Runs.setReset, Function.update_of_ne heq] at hr'
        have hholder := h.only r' hr'
        rw [hnobody] at hholder
        contradiction
    · intro r' hr'
      have heq : r = r' := Option.some.inj hr'
      simp [Runs.setReset, heq]
  · cases pc with
    | loadGeneration => exact h.setReset hr _ s.registry
    | loadReaders generation => exact h.setReset hr _ s.registry
    | backOff => exact h.release hr
    | clearName generation i => exact h.setReset hr _ _
    | storeCount generation => exact h.setReset hr _ _
    | storeGeneration generation => exact h.setReset hr _ _
    | release => exact h.release hr
  · exact ⟨h.only, h.there, h.flag⟩

theorem holderOk_of_reachable : ∀ s, (runMachine T R).Reachable s → HolderOk s := by
  apply Machine.Reachable.invariant
  · intro s hs
    obtain ⟨_, hflag, _, hresets, hholder⟩ := hs
    refine ⟨?_, ?_, ?_⟩
    · intro r hr
      exact absurd (hresets r) hr
    · intro r hr
      rw [hholder] at hr
      contradiction
    · rw [hflag, hholder]
      rfl
  · intro s a s' _ h hnext
    exact h.next hnext

/-! ## The gate -/

def RunPc.phase : RunPc → ReaderGate.Reader
  | .fetchAdd => .away
  | .loadResetting => .counted
  | .backOut => .counted
  | _ => .admitted

def runPhase : Option Invocation → ReaderGate.Reader
  | none => .away
  | some i => i.pc.phase

/-- Before it has seen no readers a reset has only raised the flag. -/
def ResetPc.phase : ResetPc → ReaderGate.Writer
  | .loadGeneration => .flagged
  | .loadReaders _ => .flagged
  | .backOff => .flagged
  | _ => .holding

def resetPhase : Option ResetPc → ReaderGate.Writer
  | none => .away
  | some pc => pc.phase

/-- What the protocol sees of a state. -/
def Runs.gate (s : Runs T R) : ReaderGate.Gate T where
  flag := s.resetting
  counter := s.readers
  readers := runPhase ∘ s.runs
  writer := resetPhase (s.holder.bind s.resets)

omit [DecidableEq R] in
theorem gate_setRun (s : Runs T R) (t : T) (i : Option Invocation) :
    (s.setRun t i).gate =
      { s.gate with readers := Function.update s.gate.readers t (runPhase i) } := by
  simp only [Runs.gate, Runs.setRun, Function.comp_update]

omit [DecidableEq R] in
theorem gate_setRun_same {s : Runs T R} {t : T} {i : Option Invocation}
    (h : runPhase i = s.gate.readers t) : (s.setRun t i).gate = s.gate := by
  rw [gate_setRun, h, Function.update_eq_self]

omit [DecidableEq R] in
theorem runNext_gate {s : Runs T R} {t : T} {i : Invocation} (answer : RunAnswer)
    (hi : s.runs t = some i) :
    (runNext s t answer i).gate = s.gate ∨
      ∃ a, s.gate.next a = some (runNext s t answer i).gate := by
  have hphase : s.gate.readers t = i.pc.phase := by simp [Runs.gate, hi, runPhase]
  unfold runNext
  cases hpc : i.pc with
  | fetchAdd =>
      refine .inr ⟨.enter t, ?_⟩
      rw [hpc] at hphase
      simp only [ReaderGate.Gate.next, hphase, RunPc.phase, if_true, gate_setRun]
      rfl
  | loadResetting =>
      rw [hpc] at hphase
      cases hflag : s.resetting with
      | true =>
          left
          exact gate_setRun_same (by rw [hphase]; rfl)
      | false =>
          refine .inr ⟨.look t, ?_⟩
          have hgate : s.gate.flag = false := hflag
          simp only [ReaderGate.Gate.next, hphase, hgate, RunPc.phase, and_self, if_true,
            gate_setRun]
          rfl
  | backOut =>
      refine .inr ⟨.leave t, ?_⟩
      rw [hpc] at hphase
      simp only [ReaderGate.Gate.next, hphase, gate_setRun]
      rfl
  | leave =>
      refine .inr ⟨.leave t, ?_⟩
      rw [hpc] at hphase
      simp only [ReaderGate.Gate.next, hphase, gate_setRun]
      rfl
  | loadMode =>
      left
      exact gate_setRun_same (by rw [hphase, hpc]; rfl)
  | loadVm =>
      left
      exact gate_setRun_same (by rw [hphase, hpc]; rfl)
  | loadArmed =>
      left
      apply gate_setRun_same
      rw [hphase, hpc]
      dsimp only [runPhase]
      split <;> rfl
  | loadIdentity =>
      left
      apply gate_setRun_same
      rw [hphase, hpc]
      dsimp only [runPhase]
      split <;> rfl
  | running =>
      left
      dsimp only
      split
      · exact gate_setRun_same (by rw [hphase, hpc]; rfl)
      · exact gate_setRun_same (by rw [hphase, hpc]; rfl)

omit [DecidableEq T] in
/-- A step of the holder shows in the writer's position only. -/
theorem gate_setReset {s : Runs T R} {r : R} (hholder : s.holder = some r) (pc : ResetPc)
    (registry : Registry) :
    ({ s with registry := registry }.setReset r (some pc)).gate =
      { s.gate with writer := pc.phase } := by
  simp [Runs.gate, Runs.setReset, hholder, resetPhase]

theorem ResetPc.phase_ne_away (pc : ResetPc) : pc.phase ≠ .away := by
  cases pc with
  | loadGeneration => exact nofun
  | loadReaders generation => exact nofun
  | backOff => exact nofun
  | clearName generation i => exact nofun
  | storeCount generation => exact nofun
  | storeGeneration generation => exact nofun
  | release => exact nofun

theorem resetNext_gate {s : Runs T R} {r : R} {pc : ResetPc} (h : HolderOk s)
    (hr : s.resets r = some pc) :
    (resetNext s r pc).gate = s.gate ∨ ∃ a, s.gate.next a = some (resetNext s r pc).gate := by
  have hholder : s.holder = some r := h.only r (by simp [hr])
  have hwriter : s.gate.writer = pc.phase := by simp [Runs.gate, hholder, hr, resetPhase]
  have hlower : ∃ a, s.gate.next a =
      some ({ s with resetting := false, holder := none }.setReset r none).gate := by
    refine ⟨.lower, ?_⟩
    have hne : s.gate.writer ≠ .away := by
      rw [hwriter]
      exact pc.phase_ne_away
    simp only [ReaderGate.Gate.next, hne, ne_eq, not_false_eq_true, if_true]
    rfl
  have hstay : ∀ (pc' : ResetPc) (registry : Registry), pc'.phase = pc.phase →
      ({ s with registry := registry }.setReset r (some pc')).gate = s.gate := by
    intro pc' registry hsame
    rw [gate_setReset hholder, hsame, ← hwriter]
  cases pc with
  | loadGeneration => exact .inl (hstay _ s.registry rfl)
  | loadReaders generation =>
      by_cases hbusy : s.readers ≠ 0 ∨ generation = generationMax
      · left
        simp only [resetNext, if_pos hbusy]
        exact hstay _ s.registry rfl
      · right
        simp only [resetNext, if_neg hbusy]
        rw [not_or, not_not] at hbusy
        have hcounter : s.gate.counter = 0 := hbusy.1
        have hflagged : s.gate.writer = .flagged := hwriter
        refine ⟨.hold, ?_⟩
        have hhold : s.gate.next .hold = some { s.gate with writer := .holding } := by
          simp only [ReaderGate.Gate.next, hcounter, hflagged, and_self, if_true]
        rw [hhold]
        exact congrArg some (gate_setReset hholder (.clearName generation 0) s.registry).symm
  | backOff => exact .inr hlower
  | clearName generation i =>
      left
      apply hstay
      by_cases hmore : i + 1 < lsMapMax
      · rw [if_pos hmore]
        rfl
      · rw [if_neg hmore]
        rfl
  | storeCount generation => exact .inl (hstay _ _ rfl)
  | storeGeneration generation => exact .inl (hstay _ _ rfl)
  | release => exact .inr hlower

theorem runsNext_gate {s s' : Runs T R} {a : RunAction T R} (h : HolderOk s)
    (hnext : (runMachine T R).next s a = some s') :
    s'.gate = s.gate ∨ ∃ b, s.gate.next b = some s'.gate := by
  rcases runMachine_cases hnext with
    ⟨t, haway, rfl⟩ | ⟨t, answer, i, hi, rfl⟩ | rfl | ⟨r, _, hflag, rfl⟩ | ⟨r, pc, hr, rfl⟩ |
    ⟨request, rfl⟩
  · left
    apply gate_setRun_same
    simp [Runs.gate, haway, runPhase, RunPc.phase]
  · exact runNext_gate answer hi
  · exact .inl rfl
  · refine .inr ⟨.raise, ?_⟩
    have hnobody : s.holder = none := by
      have hsome := h.flag
      rw [hflag] at hsome
      exact Option.isNone_iff_eq_none.mp (Option.isSome_eq_false_iff.mp hsome.symm)
    have hwriter : s.gate.writer = .away := by simp [Runs.gate, hnobody, resetPhase]
    have hgate : s.gate.flag = false := hflag
    simp only [ReaderGate.Gate.next, hwriter, hgate, and_self, if_true]
    exact congrArg some (gate_setReset (s := { s with resetting := true, holder := some r }) rfl
      .loadGeneration s.registry).symm
  · exact resetNext_gate h hr
  · exact .inl rfl

/-- Count, flag and positions are those of the protocol, in every run. -/
theorem runs_gate_reachable :
    ∀ s, (runMachine T R).Reachable s → (ReaderGate.machine T).Reachable s.gate := by
  apply Machine.Reachable.simulates
  · intro s hs
    obtain ⟨hreaders, hflag, hruns, _, hholder⟩ := hs
    refine ⟨hflag, hreaders, ?_, ?_⟩
    · intro t
      simp [Runs.gate, hruns t, runPhase]
    · simp [Runs.gate, hholder, resetPhase]
  · intro s a s' hs _ hnext
    exact runsNext_gate (holderOk_of_reachable s hs) hnext

/-! ## Exclusion -/

/-- Between a successful {lit}`ls_map_enter` and its {lit}`ls_map_leave`. -/
def Invocation.Inside (i : Invocation) : Prop := i.pc.phase = .admitted

/-- The next access changes names, count or generation. -/
def ResetPc.Modifies : ResetPc → Prop
  | .clearName _ _ => True
  | .storeCount _ => True
  | .storeGeneration _ => True
  | _ => False

theorem ResetPc.Modifies.phase {pc : ResetPc} (h : pc.Modifies) : pc.phase = .holding := by
  cases pc <;> first | rfl | exact absurd h id

/-- Nobody runs while a reset that has seen no readers is under way. -/
theorem not_inside_of_holding {s : Runs T R} (hs : (runMachine T R).Reachable s) {r : R}
    {pc : ResetPc} (hr : s.resets r = some pc) (hpc : pc.phase = .holding) {t : T}
    {i : Invocation} (hi : s.runs t = some i) : ¬ i.Inside := by
  intro hinside
  have hholder : s.holder = some r := (holderOk_of_reachable s hs).only r (by simp [hr])
  have hwriter : s.gate.writer = .holding := by
    simpa [Runs.gate, hholder, hr, resetPhase] using hpc
  apply ReaderGate.exclusive (runs_gate_reachable s hs) hwriter t
  unfold Invocation.Inside at hinside
  simpa [Runs.gate, hi, runPhase] using hinside

/-- What a call's helpers have seen is the present generation. -/
def SeenOk (s : Runs T R) : Prop :=
  ∀ t i, s.runs t = some i →
    (i.Inside → ∀ g ∈ i.seen, g = s.registry.generation) ∧ (¬ i.Inside → i.seen = [])

omit [DecidableEq R] in
theorem SeenOk.setRun {s : Runs T R} (h : SeenOk s) {readers : Nat} {t : T}
    {i : Option Invocation}
    (hi : ∀ j, i = some j → (j.Inside → ∀ g ∈ j.seen, g = s.registry.generation) ∧
      (¬ j.Inside → j.seen = [])) : SeenOk ({ s with readers := readers }.setRun t i) := by
  intro u j hj
  by_cases hu : u = t
  · rw [hu] at hj
    simp only [Runs.setRun, Function.update_self] at hj
    exact hi j hj
  · simp only [Runs.setRun, Function.update_of_ne hu] at hj
    exact h u j hj

omit [DecidableEq R] in
theorem SeenOk.runNext {s : Runs T R} (h : SeenOk s) {t : T} {i : Invocation}
    (hi : s.runs t = some i) (answer : RunAnswer) : SeenOk (runNext s t answer i) := by
  obtain ⟨hinside, houtside⟩ := h t i hi
  -- a call that was inside stays inside until it leaves
  have hstay : ∀ pc : RunPc, pc.phase = .admitted → i.Inside →
      SeenOk (s.setRun t (some { i with pc := pc })) := by
    intro pc hpc hwas
    apply h.setRun
    rintro j ⟨⟩
    exact ⟨fun _ => hinside hwas, fun hnot => absurd hpc hnot⟩
  have hout : ∀ (pc : RunPc) (readers : Nat), ¬ i.Inside →
      SeenOk ({ s with readers := readers }.setRun t (some { i with pc := pc })) := by
    intro pc readers hwas
    apply h.setRun
    rintro j ⟨⟩
    have hempty := houtside hwas
    refine ⟨?_, fun _ => hempty⟩
    intro _ g hg
    dsimp only at hg
    rw [hempty] at hg
    contradiction
  have hgone : ∀ readers : Nat, SeenOk ({ s with readers := readers }.setRun t none) := by
    intro readers
    apply h.setRun
    rintro j ⟨⟩
  unfold Map.runNext
  cases hpc : i.pc with
  | fetchAdd => exact hout _ _ (by simp [Invocation.Inside, hpc, RunPc.phase])
  | loadResetting => exact hout _ s.readers (by simp [Invocation.Inside, hpc, RunPc.phase])
  | backOut => exact hgone _
  | leave => exact hgone _
  | loadMode => exact hstay .loadVm rfl (by simp [Invocation.Inside, hpc, RunPc.phase])
  | loadVm => exact hstay .loadArmed rfl (by simp [Invocation.Inside, hpc, RunPc.phase])
  | loadArmed =>
      apply hstay _ _ (by simp [Invocation.Inside, hpc, RunPc.phase])
      cases answer <;> rfl
  | loadIdentity =>
      apply hstay _ _ (by simp [Invocation.Inside, hpc, RunPc.phase])
      cases answer <;> rfl
  | running =>
      have hwas : i.Inside := by simp [Invocation.Inside, hpc, RunPc.phase]
      dsimp only
      split
      · apply h.setRun
        rintro j ⟨⟩
        refine ⟨?_, fun hnot => absurd rfl hnot⟩
        intro _ g hg
        rcases List.mem_cons.mp hg with rfl | hold
        · rfl
        · exact hinside hwas g hold
      · exact hstay .leave rfl hwas

theorem SeenOk.next {s s' : Runs T R} {a : RunAction T R} (h : SeenOk s)
    (hs : (runMachine T R).Reachable s) (hnext : (runMachine T R).next s a = some s') :
    SeenOk s' := by
  rcases runMachine_cases hnext with
    ⟨t, _, rfl⟩ | ⟨t, answer, i, hi, rfl⟩ | rfl | ⟨r, _, _, rfl⟩ | ⟨r, pc, hr, rfl⟩ |
    ⟨request, rfl⟩
  · apply h.setRun
    rintro j ⟨⟩
    exact ⟨by simp, by simp⟩
  · exact h.runNext hi answer
  · exact h
  · exact h
  · cases pc with
    | storeGeneration generation =>
        -- nobody is inside, so nobody has seen the generation that goes
        intro t i hi
        have hnot := not_inside_of_holding hs hr rfl hi
        exact ⟨fun hinside => absurd hinside hnot, (h t i hi).2⟩
    | loadGeneration => exact h
    | loadReaders generation => exact h
    | backOff => exact h
    | clearName generation i => exact h
    | storeCount generation => exact h
    | release => exact h
  · intro t i hi
    have hi' := h t i hi
    simp only [lsMapReloc_generation]
    exact hi'

theorem seenOk_of_reachable : ∀ s, (runMachine T R).Reachable s → SeenOk s := by
  apply Machine.Reachable.invariant
  · intro s hs t i hi
    rw [hs.2.2.1 t] at hi
    contradiction
  · intro s a s' hs h hnext
    exact h.next hs hnext

/-- The count is zero when no call is under way. -/
theorem readers_eq_zero {s : Runs T R} (hs : (runMachine T R).Reachable s)
    (hnone : ∀ t, s.runs t = none) : s.readers = 0 := by
  obtain ⟨counted, hmem, hcard⟩ :=
    (ReaderGate.inv_of_reachable s.gate (runs_gate_reachable s hs)).counter
  have hempty : counted = ∅ := by
    apply Finset.eq_empty_of_forall_notMem
    intro t ht
    exact (hmem t).mp ht (by simp [Runs.gate, hnone t, runPhase])
  have hreaders : s.gate.counter = 0 := by rw [← hcard, hempty, Finset.card_empty]
  exact hreaders

/-- The maps of a program that a dispatcher runs stay of one generation. -/
theorem namespace_generation_kept {s s' : Program.State T} {a : Program.Action T}
    (hs : (Program.gateMachine T).Reachable s) {t : T} {d : Program.Dispatch} {id i v : Nat}
    (hd : s.dispatchers t = some d) (hpc : d.pc = .work (.running id i v))
    (hnext : (Program.gateMachine T).next s a = some s') :
    (s'.manager.programs id).maps.generation = (s.manager.programs id).maps.generation := by
  have hsteady := Program.steady_of_reachable s hs
  have hlinked := (hsteady.reads t d hd _ hpc).1
  have hsame := hsteady.unchanged hs hnext hd (.inl ⟨_, hpc⟩)
  rw [(hsame.published id hlinked.1).1]

end Machine

section Exclusion

variable [DecidableEq T] [DecidableEq R]

/-- In every interleaving of any number of calls with any number of resets: no
call is inside while a reset changes names, count or generation; the count is zero
whenever no call is under way; and all generations a call's helpers and bounds
checks see are the same, that of the shared registry or, under a dispatcher, that
of its program's own maps. -/
theorem reset_excludes_runs :
    (∀ s : Runs T R, (runMachine T R).Reachable s →
      (∀ r pc t i, s.resets r = some pc → pc.Modifies → s.runs t = some i → ¬ i.Inside) ∧
      ((∀ t, s.runs t = none) → s.readers = 0) ∧
      (∀ t i, s.runs t = some i → i.Inside → ∀ g ∈ i.seen, g = s.registry.generation) ∧
      (∀ t i, s.runs t = some i → ∀ g ∈ i.seen, ∀ g' ∈ i.seen, g = g')) ∧
    ∀ s : Program.State T, (Program.gateMachine T).Reachable s →
      ∀ t d id i v, s.dispatchers t = some d → d.pc = .work (.running id i v) →
        ∀ a s', (Program.gateMachine T).next s a = some s' →
          (s'.manager.programs id).maps.generation =
            (s.manager.programs id).maps.generation := by
  refine ⟨?_, ?_⟩
  · intro s hs
    have hseen := seenOk_of_reachable s hs
    refine ⟨?_, readers_eq_zero hs, ?_, ?_⟩
    · intro r pc t i hr hpc hi
      exact not_inside_of_holding hs hr hpc.phase hi
    · intro t i hi
      exact (hseen t i hi).1
    · intro t i hi g hg g' hg'
      by_cases hinside : i.Inside
      · rw [(hseen t i hi).1 hinside g hg, (hseen t i hi).1 hinside g' hg']
      · rw [(hseen t i hi).2 hinside] at hg
        contradiction
  · intro s hs t d id i v hd hpc a s' hnext
    exact namespace_generation_kept hs hd hpc hnext

end Exclusion

/-! A program runs and looks at the registry; a reset beside it is refused; the
program ends and the next reset empties the registry. -/

def idleRuns : Runs Unit Unit where
  registry := .zero
  readers := 0
  resetting := false
  runs _ := none
  resets _ := none
  holder := none

/-- The program is running and has looked twice; the reset has raised its flag. -/
def busySchedule : List (RunAction Unit Unit) :=
  .call () :: List.replicate 6 (.run () .goOn) ++ [.run () .observe, .run () .observe] ++
    [.exchange (), .reset ()]

/-- The reset gives up, the program ends, and a second reset has seen no reader. -/
def resetRunSchedule : List (RunAction Unit Unit) :=
  busySchedule ++ [.reset (), .reset (), .run () .stop, .run () .stop] ++
    [.exchange (), .reset (), .reset ()]

def busyRuns : Runs Unit Unit := ((runMachine Unit Unit).run idleRuns busySchedule).getD idleRuns

def clearingRuns : Runs Unit Unit :=
  ((runMachine Unit Unit).run idleRuns resetRunSchedule).getD idleRuns

theorem reachable_idleRuns : (runMachine Unit Unit).Reachable idleRuns :=
  .start ⟨rfl, rfl, fun _ => rfl, fun _ => rfl, rfl⟩

theorem reset_excludes_runs_clearingRuns :
    (∃ i, busyRuns.runs () = some i ∧ i.Inside ∧ i.seen.length = 2 ∧
      ∀ g ∈ i.seen, g = busyRuns.registry.generation) ∧
    clearingRuns.resets () = some (.clearName 0 0) ∧ clearingRuns.readers = 0 ∧
    ∃ s', (Program.gateMachine Unit).next Program.runningState .control = some s' ∧
      (s'.manager.programs 0).maps.generation =
        (Program.runningState.manager.programs 0).maps.generation := by
  have hbusy : (runMachine Unit Unit).Reachable busyRuns :=
    Machine.reachable_run_getD reachable_idleRuns (by decide +kernel)
  have hclearing : (runMachine Unit Unit).Reachable clearingRuns :=
    Machine.reachable_run_getD reachable_idleRuns (by decide +kernel)
  have hrun : busyRuns.runs () = some { pc := .running, seen := [0, 0] } := by decide +kernel
  have hnone : clearingRuns.runs () = none := by decide +kernel
  have hseen := ((reset_excludes_runs.1 busyRuns hbusy).2.2.1 () _ hrun rfl)
  have hzero := (reset_excludes_runs.1 clearingRuns hclearing).2.1 (fun _ => hnone)
  have hdispatch : Program.runningState.dispatchers () = some Program.runningDispatch := by
    decide +kernel
  have hsome : ((Program.gateMachine Unit).next Program.runningState .control).isSome = true := by
    decide +kernel
  obtain ⟨s', hs'⟩ := Option.isSome_iff_exists.mp hsome
  refine ⟨⟨_, hrun, rfl, rfl, hseen⟩, by decide +kernel, hzero, s', hs', ?_⟩
  exact (reset_excludes_runs (R := Unit)).2 Program.runningState Program.reachable_runningState
    () Program.runningDispatch 0 0 0 hdispatch rfl .control s' hs'

end Map
end LiveSurface
