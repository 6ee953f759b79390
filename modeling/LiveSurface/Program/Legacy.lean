import LiveSurface.Program.Exclusion

/-!
# Sites that no program owns

The trampoline asks the manager first.  A site that was never attached by a
program must fall through to the trampoline's own slot, where a legacy shield may
sit, whatever the control thread is doing.

The dispatcher looks at the writer flag before it looks at the site.  When the
flag is up it answers for a site of its own, owned or not, and the legacy shield
is not run.

Main results:

- Theorem {lit}`Spares.next`: as long as dispatchers at such sites find the flag
  down, no step captures one of their calls.
- Theorem {lit}`legacy_sites_spared`: legacy sites are spared in every run of that
  kind, and a single look at a raised flag is enough to capture a call.
-/

namespace LiveSurface
namespace Program

open StoreProgram

variable {T : Type} {s s' : State T} {m m' : Manager}

/-! ## The property -/

/-- No call at a site that no program ever owned is kept from its own slot: the
manager answers 0, the slot is called, and its safe return is the trampoline's. -/
structure Spared (s : State T) : Prop where
  returned : ∀ t d ret, s.dispatchers t = some d → d.pc = .returned ret →
    (s.manager.sites d.call.slot).owned = false → ret = false
  finished : ∀ f ∈ s.finished, (s.manager.sites f.call.slot).owned = false →
    ∃ verdict, f.legacy = some verdict ∧
      (verdict = .safeReturn → f.result.verdict = .safeReturn)

/-- A dispatcher about to look at the flag finds it down, or its site is owned. -/
def LooksFree (s : State T) : Option Dispatch → Prop
  | none => True
  | some d => d.pc = .loadWriter → (s.manager.sites d.call.slot).owned = false →
      s.writer = false

/-- The condition on a step. -/
def FlagDown (s : State T) : Action T → Prop
  | .dispatch t _ => LooksFree s (s.dispatchers t)
  | _ => True

instance (s : State T) (d : Option Dispatch) : Decidable (LooksFree s d) :=
  match d with
  | none => isTrue trivial
  | some _ => inferInstanceAs (Decidable (_ → _ → _))

instance (s : State T) (a : Action T) : Decidable (FlagDown s a) :=
  match a with
  | .begin _ => isTrue trivial
  | .control => isTrue trivial
  | .call _ _ => isTrue trivial
  | .dispatch t _ => inferInstanceAs (Decidable (LooksFree s (s.dispatchers t)))

theorem not_looksFree {d : Option Dispatch} (h : ¬ LooksFree s d) :
    ∃ e, d = some e ∧ e.pc = .loadWriter ∧ (s.manager.sites e.call.slot).owned = false ∧
      s.writer = true := by
  cases d with
  | none => exact absurd trivial h
  | some e =>
      simp only [LooksFree, Classical.not_imp, Bool.not_eq_false] at h
      exact ⟨e, rfl, h⟩

/-! ## The invariant -/

/-- A dispatcher answers 1, now or later, for an owned site only. -/
structure Honest (m : Manager) (d : Dispatch) : Prop where
  owned : d.owned = true → (m.sites d.call.slot).owned = true
  refused : d.pc = .refused → (m.sites d.call.slot).owned = true
  returned : d.pc = .returned true → (m.sites d.call.slot).owned = true

/-- A call that returned without its own slot was made at an owned site. -/
structure Recorded (m : Manager) (f : Finished) : Prop where
  captured : f.legacy = none → (m.sites f.call.slot).owned = true
  result : f.legacy = some .safeReturn → f.result.verdict = .safeReturn

structure Spares (s : State T) : Prop where
  dispatchers : ∀ t d, s.dispatchers t = some d → Honest s.manager d
  finished : ∀ f ∈ s.finished, Recorded s.manager f

theorem Honest.mono {d : Dispatch} (h : Honest m d)
    (howned : ∀ i, (m.sites i).owned = true → (m'.sites i).owned = true) : Honest m' d :=
  ⟨fun hd => howned _ (h.owned hd), fun hd => howned _ (h.refused hd),
    fun hd => howned _ (h.returned hd)⟩

theorem Recorded.mono {f : Finished} (h : Recorded m f)
    (howned : ∀ i, (m.sites i).owned = true → (m'.sites i).owned = true) : Recorded m' f :=
  ⟨fun hf => howned _ (h.captured hf), h.result⟩

theorem Spares.spared (h : Spares s) : Spared s := by
  constructor
  · intro t d ret hd hpc howned
    cases ret with
    | false => rfl
    | true =>
        have hsite := (h.dispatchers t d hd).returned hpc
        rw [howned] at hsite
        contradiction
  · intro f hf howned
    have hrecorded := h.finished f hf
    cases hlegacy : f.legacy with
    | none =>
        have hsite := hrecorded.captured hlegacy
        rw [howned] at hsite
        contradiction
    | some verdict =>
        refine ⟨verdict, rfl, ?_⟩
        intro hverdict
        apply hrecorded.result
        rw [hlegacy, hverdict]

variable [DecidableEq T]

/-- Sites stay owned, whoever moves. -/
theorem owned_next {a : Action T} (h : Steady s) (hnext : (gateMachine T).next s a = some s')
    (i : Nat) (hi : (s.manager.sites i).owned = true) :
    (s'.manager.sites i).owned = true := by
  rcases gateMachine_cases hnext with
    ⟨op, _, _, rfl⟩ | ⟨_, hcontrol⟩ | ⟨t, c, _, _, rfl⟩ | ⟨t, answer, d, _, _, rfl⟩
  · exact hi
  · exact (h.control.next hcontrol).owned i hi
  · exact hi
  · rw [(dispatchNext_frame s t answer d).1]
    exact hi

theorem honest_lsTrampDispatchAt (m : Manager) (c : Call) : Honest m (lsTrampDispatchAt c) := by
  unfold lsTrampDispatchAt
  refine ⟨by simp, ?_, ?_⟩
  · dsimp only
    split
    · simp
    · split <;> simp
  · dsimp only
    split
    · simp
    · split <;> simp

theorem Honest.workNext {d : Dispatch} (h : Honest m d) (w : Work) (answer : Answer) :
    Honest m (w.next m answer d) := by
  obtain ⟨hphase, hcall, howned⟩ := workNext_keeps m answer d w
  constructor
  · rw [hcall]
    intro hd
    rcases howned hd with hbefore | hsite
    · exact h.owned hbefore
    · exact hsite
  · intro hpc
    rw [hpc] at hphase
    contradiction
  · intro hpc
    rw [hpc] at hphase
    contradiction

omit [DecidableEq T] in
/-- The next access of a dispatcher that would find the flag down at a legacy
site. -/
theorem Honest.own {d e : Dispatch} {answer : Answer} (hd : Honest s.manager d)
    (hfree : LooksFree s (some d)) (hstep : OwnStep s answer d e) : Honest s.manager e := by
  cases hstep with
  | fetchAdd h => exact ⟨hd.owned, by simp, by simp⟩
  | refused h hwriter =>
      refine ⟨hd.owned, ?_, by simp⟩
      intro _
      -- a legacy site would have found the flag down
      by_contra howned
      have hdown := hfree h (by simpa using howned)
      rw [hwriter] at hdown
      contradiction
  | admitted h hwriter => exact ⟨hd.owned, by simp, by simp⟩
  | busy h => exact ⟨hd.owned, by simp, fun _ => hd.refused h⟩
  | work h => exact hd.workNext _ answer
  | fetchSub h =>
      refine ⟨hd.owned, by simp, ?_⟩
      intro hret
      rw [Pc.returned.injEq] at hret
      exact hd.owned hret
  | legacy h => exact ⟨hd.owned, by simp, by simp⟩

/-- What a dispatcher leaves on record when its call returns. -/
theorem Honest.recorded {t : T} {d : Dispatch} (h : Honest s.manager d) (answer : Answer) :
    ∀ f ∈ (dispatchNext s t answer d).finished, f ∈ s.finished ∨ Recorded s.manager f := by
  intro f hf
  unfold dispatchNext at hf
  cases hpc : d.pc with
  | fetchAdd | loadWriter | refused | work | fetchSub =>
      left
      simpa [hpc, State.setDispatcher] using hf
  | returned ret =>
      cases ret with
      | false =>
          left
          simpa [hpc, State.setDispatcher] using hf
      | true =>
          simp only [hpc, State.finish, List.mem_cons] at hf
          rcases hf with rfl | hold
          · exact .inr ⟨fun _ => h.returned hpc, by simp⟩
          · exact .inl hold
  | legacy =>
      simp only [hpc, State.finish, List.mem_cons] at hf
      rcases hf with rfl | hold
      · refine .inr ⟨by simp, ?_⟩
        intro hverdict
        rw [Option.some.injEq] at hverdict
        dsimp only
        rw [if_pos hverdict]
      · exact .inl hold

theorem Spares.finished_next {a : Action T} (h : Spares s) (hsteady : Steady s)
    (hnext : (gateMachine T).next s a = some s') :
    ∀ f ∈ s'.finished, Recorded s'.manager f := by
  have hfinished : ∀ f ∈ s.finished, Recorded s'.manager f := by
    intro f hf
    exact (h.finished f hf).mono (owned_next hsteady hnext)
  rcases gateMachine_cases hnext with
    ⟨op, _, _, rfl⟩ | ⟨_, hcontrol⟩ | ⟨u, c, _, _, rfl⟩ | ⟨u, answer, e, _, he, rfl⟩
  · exact hfinished
  · rw [(controlNext_dispatchers hcontrol).2]
    exact hfinished
  · exact hfinished
  · rw [(dispatchNext_frame s u answer e).1]
    intro f hf
    rcases (h.dispatchers u e he).recorded answer f hf with hold | hnew
    · exact h.finished f hold
    · exact hnew

theorem Spares.next {a : Action T} (h : Spares s) (hsteady : Steady s) (hok : FlagDown s a)
    (hnext : (gateMachine T).next s a = some s') : Spares s' := by
  refine ⟨?_, h.finished_next hsteady hnext⟩
  apply dispatchers_next (P := Honest) hnext
  · intro t d hd
    exact (h.dispatchers t d hd).mono (owned_next hsteady hnext)
  · intro c
    exact honest_lsTrampDispatchAt _ c
  · intro t answer d e ha hd hstep
    subst ha
    have hfree : LooksFree s (some d) := hd ▸ hok
    exact (h.dispatchers t d hd).own hfree hstep

theorem spares_of_reachable :
    ∀ s, (gateMachine T).ReachableWhen FlagDown s → Spares s := by
  apply Machine.ReachableWhen.invariant
  · intro s hs
    obtain ⟨_, _, _, _, hdispatchers, hfinished⟩ := hs
    constructor
    · intro t d hd
      rw [hdispatchers t] at hd
      contradiction
    · intro f hf
      rw [hfinished] at hf
      contradiction
  · intro s a s' hs h hok hnext
    exact h.next (steady_of_reachable s (Machine.Reachable.when hs)) hok hnext

/-- A look at a raised flag: the next access of the dispatcher makes the manager
answer 1 for the legacy site. -/
theorem captured_of_not_flagDown {t : T} (answer : Answer)
    (h : ¬ FlagDown s (.dispatch t answer)) :
    ∃ s', (gateMachine T).run s [.dispatch t answer, .dispatch t answer] = some s' ∧
      ¬ Spared s' := by
  obtain ⟨d, hd, hpc, howned, hwriter⟩ := not_looksFree h
  let refused : State T := s.setDispatcher t (some { d with pc := .refused })
  let s' : State T := { refused with readers := s.readers - 1 }.setDispatcher t
    (some { d with pc := .returned true })
  have hfirst : (gateMachine T).next s (.dispatch t answer) = some refused := by
    simp only [gateMachine, hd, dispatchNext, hpc, hwriter, if_true]
    rfl
  have hsecond : (gateMachine T).next refused (.dispatch t answer) = some s' := by
    have hrefused : refused.dispatchers t = some { d with pc := .refused } :=
      Function.update_self ..
    simp only [gateMachine, hrefused, dispatchNext]
    rfl
  refine ⟨s', ?_, ?_⟩
  · simp only [Machine.run, hfirst, hsecond, Option.bind_some]
  · intro hspared
    have hreturned : s'.dispatchers t = some { d with pc := .returned true } :=
      Function.update_self ..
    exact absurd (hspared.returned t _ true hreturned rfl howned) (by simp)

/-- Legacy sites are spared in every run whose dispatchers find the flag down
when they look at it for such a site; a dispatcher that finds it raised captures
its call. -/
theorem legacy_sites_spared (s : State T) :
    ((gateMachine T).ReachableWhen FlagDown s → Spared s) ∧
      ∀ t answer, ¬ FlagDown s (.dispatch t answer) →
        ∃ s', (gateMachine T).run s [.dispatch t answer, .dispatch t answer] = some s' ∧
          ¬ Spared s' := by
  constructor
  · intro hs
    exact (spares_of_reachable s hs).spared
  · intro t answer h
    exact captured_of_not_flagDown answer h

/-- A legacy hook at a site of its own. -/
def legacyCall : Call where
  slot := 3
  returnIp := 9001
  input := some zeroCtx
  thread := idleThread

/-- The accesses of a load up to its exchange on the flag. -/
def raiseFlag : List (Action Unit) :=
  .begin (.load 0 (sampleLoad 4096)) :: List.replicate 13 .control

/-- A call at the legacy site while a program is being prepared, and its look at
the flag before the load raises it; then the load goes on. -/
def sparedSchedule : List (Action Unit) :=
  .begin (.load 0 (sampleLoad 4096)) :: List.replicate 5 .control ++
    (.call () legacyCall :: List.replicate 6 (.dispatch () sampleAnswer)) ++
    List.replicate 14 .control

def sparedState : State Unit :=
  ((gateMachine Unit).runWhen FlagDown idleState sparedSchedule).getD idleState

def raisedState : State Unit :=
  ((gateMachine Unit).run idleState
    (raiseFlag ++ [.call () legacyCall, .dispatch () sampleAnswer])).getD idleState

/-- The legacy shield answers beside the load. -/
theorem legacy_sites_spared_sparedState :
    sparedState.finished = [{
        call := legacyCall
        legacy := some .safeReturn
        result := { verdict := .safeReturn, safeValue := 7 } }] ∧
      Spared sparedState ∧
      ∃ s', (gateMachine Unit).run raisedState
          [.dispatch () sampleAnswer, .dispatch () sampleAnswer] = some s' ∧ ¬ Spared s' := by
  refine ⟨by decide +kernel, ?_, ?_⟩
  · apply (legacy_sites_spared sparedState).1
    exact Machine.reachableWhen_run_getD (.start ⟨rfl, rfl, ⟨1, rfl⟩, rfl, fun _ => rfl, rfl⟩)
      (by decide +kernel)
  · exact (legacy_sites_spared raisedState).2 () sampleAnswer (by decide +kernel)

def capturedState : State Unit :=
  ((gateMachine Unit).run idleState
    (raiseFlag ++ (.call () legacyCall :: List.replicate 4 (.dispatch () sampleAnswer)))).getD
      idleState

/-- The load of an unrelated program has just raised the flag: the call at the
legacy site returns without its shield. -/
theorem busy_gate_captures_legacy_call :
    (gateMachine Unit).Reachable capturedState ∧
      (capturedState.manager.sites 3).owned = false ∧
      capturedState.finished = [{
        call := legacyCall
        legacy := none
        result := fallthroughResult }] ∧
      ¬ Spared capturedState := by
  have hfinished : capturedState.finished = [{
      call := legacyCall, legacy := none, result := fallthroughResult }] := by decide +kernel
  have howned : (capturedState.manager.sites 3).owned = false := by decide +kernel
  refine ⟨?_, howned, hfinished, ?_⟩
  · exact Machine.reachable_run_getD (.start ⟨rfl, rfl, ⟨1, rfl⟩, rfl, fun _ => rfl, rfl⟩)
      (by decide +kernel)
  · intro hspared
    have hmem : { call := legacyCall, legacy := none, result := fallthroughResult } ∈
        capturedState.finished := by
      rw [hfinished]
      exact List.mem_singleton_self _
    obtain ⟨verdict, hlegacy, _⟩ := hspared.finished _ hmem howned
    contradiction

end Program
end LiveSurface
