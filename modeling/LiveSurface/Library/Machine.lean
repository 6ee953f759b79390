import Mathlib.Data.List.Basic

/-!
# Labelled machines and their runs

A machine is an executable partial transition function together with its
initial states.  The label of a transition carries every choice that the code
does not make itself: which thread moves, what an external call returns, what
arguments a caller supplies.  A run therefore quantifies over all schedules.

Main results:

- Theorem {lit}`Machine.ReachableWhen.invariant`: the invariant rule, for runs
  whose steps all meet a condition on the state before the step.
- Theorem {lit}`Machine.reachableWhen_of_run`: an executed schedule is a run.
- Theorem {lit}`Machine.Reachable.when`: dropping the condition gives every run.
- Theorem {lit}`Machine.Reachable.simulates`: a machine whose steps are steps of
  another one, or invisible to it, reaches only what the other one reaches.
-/

namespace LiveSurface

/-- A labelled transition system whose transition function can be executed. -/
structure Machine (σ α : Type) where
  init : σ → Prop
  next : σ → α → Option σ

namespace Machine

variable {σ α : Type} {m : Machine σ α} {ok ok' : σ → α → Prop}

/-- States reached by a run each of whose steps meets {lit}`ok` in the state
before the step. -/
inductive ReachableWhen (m : Machine σ α) (ok : σ → α → Prop) : σ → Prop
  | start {s : σ} (hinit : m.init s) : ReachableWhen m ok s
  | step {s t : σ} {a : α} (hs : ReachableWhen m ok s) (hok : ok s a)
      (hnext : m.next s a = some t) : ReachableWhen m ok t

/-- States reached by any run. -/
def Reachable (m : Machine σ α) : σ → Prop :=
  ReachableWhen m fun _ _ => True

/-- The invariant rule.  The step case may use that the state before the step
is itself reached by such a run. -/
theorem ReachableWhen.invariant {P : σ → Prop}
    (hinit : ∀ s, m.init s → P s)
    (hstep : ∀ s a t, m.ReachableWhen ok s → P s → ok s a →
      m.next s a = some t → P t) :
    ∀ s, m.ReachableWhen ok s → P s := by
  intro s hs
  induction hs with
  | start hi => exact hinit _ hi
  | step hs hok hnext ih => exact hstep _ _ _ hs ih hok hnext

/-- The invariant rule for unconditional runs. -/
theorem Reachable.invariant {P : σ → Prop}
    (hinit : ∀ s, m.init s → P s)
    (hstep : ∀ s a t, m.Reachable s → P s → m.next s a = some t → P t) :
    ∀ s, m.Reachable s → P s := by
  apply ReachableWhen.invariant hinit
  intro s a t hs hP _ hnext
  exact hstep s a t hs hP hnext

/-- A run that meets a stronger condition meets a weaker one. -/
theorem ReachableWhen.mono (himp : ∀ s a, ok s a → ok' s a) {s : σ}
    (hs : m.ReachableWhen ok s) : m.ReachableWhen ok' s := by
  induction hs with
  | start hi => exact .start hi
  | step _ hok hnext ih => exact .step ih (himp _ _ hok) hnext

/-- Every conditional run is a run. -/
theorem Reachable.when {s : σ} (hs : m.ReachableWhen ok s) : m.Reachable s :=
  hs.mono fun _ _ _ => trivial

/-- One more step of an unconditional run. -/
theorem Reachable.next {s t : σ} {a : α} (hs : m.Reachable s)
    (hnext : m.next s a = some t) : m.Reachable t :=
  .step hs trivial hnext

/-- Simulation: every step is a step of the other machine or leaves its state
as it is. -/
theorem Reachable.simulates {τ β : Type} {m' : Machine τ β} (view : σ → τ)
    (hinit : ∀ s, m.init s → m'.init (view s))
    (hstep : ∀ s a t, m.Reachable s → m'.Reachable (view s) → m.next s a = some t →
      view t = view s ∨ ∃ b, m'.next (view s) b = some (view t)) :
    ∀ s, m.Reachable s → m'.Reachable (view s) := by
  apply Reachable.invariant
  · intro s hs
    exact .start (hinit s hs)
  · intro s a t hs hview hnext
    rcases hstep s a t hs hview hnext with hsame | ⟨b, hb⟩
    · rw [hsame]
      exact hview
    · exact hview.next hb

/-- Execute a schedule, failing at the first label that is not enabled. -/
def run (m : Machine σ α) : σ → List α → Option σ
  | s, [] => some s
  | s, a :: rest => (m.next s a).bind fun t => m.run t rest

/-- Executing one schedule after another. -/
theorem run_append (s : σ) (first second : List α) :
    m.run s (first ++ second) = (m.run s first).bind fun t => m.run t second := by
  induction first generalizing s with
  | nil => rfl
  | cons a rest ih =>
      simp only [List.cons_append, run]
      cases m.next s a with
      | none => rfl
      | some t => exact ih t

/-- Execute a schedule while checking a decidable condition before each step. -/
def runWhen (m : Machine σ α) (ok : σ → α → Prop) [∀ s a, Decidable (ok s a)] :
    σ → List α → Option σ
  | s, [] => some s
  | s, a :: rest =>
      if ok s a then (m.next s a).bind fun t => m.runWhen ok t rest else none

/-- A checked schedule that executes reaches its final state under the
condition. -/
theorem reachableWhen_of_run [∀ s a, Decidable (ok s a)] {schedule : List α} :
    ∀ {s t : σ}, m.ReachableWhen ok s → m.runWhen ok s schedule = some t →
      m.ReachableWhen ok t := by
  induction schedule with
  | nil =>
      intro s t hs hrun
      simp only [runWhen, Option.some.injEq] at hrun
      exact hrun ▸ hs
  | cons a rest ih =>
      intro s t hs hrun
      simp only [runWhen] at hrun
      split at hrun
      · rename_i hok
        obtain ⟨u, hnext, hrest⟩ := Option.bind_eq_some_iff.mp hrun
        exact ih (.step hs hok hnext) hrest
      · contradiction

/-- An executed schedule reaches its final state. -/
theorem reachable_of_run {schedule : List α} :
    ∀ {s t : σ}, m.Reachable s → m.run s schedule = some t → m.Reachable t := by
  induction schedule with
  | nil =>
      intro s t hs hrun
      simp only [run, Option.some.injEq] at hrun
      exact hrun ▸ hs
  | cons a rest ih =>
      intro s t hs hrun
      obtain ⟨u, hnext, hrest⟩ := Option.bind_eq_some_iff.mp hrun
      exact ih (hs.next hnext) hrest

/-- What every step keeps of reachable states, an executed schedule keeps. -/
theorem run_keeps {P : σ → Prop} {schedule : List α}
    (hstep : ∀ s a t, m.Reachable s → P s → m.next s a = some t → P t) :
    ∀ {s t : σ}, m.Reachable s → P s → m.run s schedule = some t → P t := by
  induction schedule with
  | nil =>
      intro s t _ hP hrun
      simp only [run, Option.some.injEq] at hrun
      exact hrun ▸ hP
  | cons a rest ih =>
      intro s t hs hP hrun
      obtain ⟨u, hnext, hrest⟩ := Option.bind_eq_some_iff.mp hrun
      exact ih (hs.next hnext) (hstep s a u hs hP hnext) hrest

/-- A schedule of labels that meet the condition in every state. -/
theorem reachableWhen_of_labels {schedule : List α} (hok : ∀ a ∈ schedule, ∀ s, ok s a) :
    ∀ {s t : σ}, m.ReachableWhen ok s → m.run s schedule = some t → m.ReachableWhen ok t := by
  induction schedule with
  | nil =>
      intro s t hs hrun
      simp only [run, Option.some.injEq] at hrun
      exact hrun ▸ hs
  | cons a rest ih =>
      intro s t hs hrun
      obtain ⟨u, hnext, hrest⟩ := Option.bind_eq_some_iff.mp hrun
      refine ih (fun b hb => hok b (List.mem_cons_of_mem a hb)) ?_ hrest
      exact .step hs (hok a List.mem_cons_self s) hnext

/-- The state an executable schedule ends in. -/
theorem reachable_run_getD {schedule : List α} {s : σ} (hs : m.Reachable s)
    (hrun : (m.run s schedule).isSome = true) :
    m.Reachable ((m.run s schedule).getD s) := by
  obtain ⟨t, ht⟩ := Option.isSome_iff_exists.mp hrun
  rw [ht]
  exact reachable_of_run hs ht

/-- The state a checked schedule ends in. -/
theorem reachableWhen_run_getD [∀ s a, Decidable (ok s a)] {schedule : List α} {s : σ}
    (hs : m.ReachableWhen ok s) (hrun : (m.runWhen ok s schedule).isSome = true) :
    m.ReachableWhen ok ((m.runWhen ok s schedule).getD s) := by
  obtain ⟨t, ht⟩ := Option.isSome_iff_exists.mp hrun
  rw [ht]
  exact reachableWhen_of_run hs ht

/-- An enabled step and the state it leads to. -/
theorem next_eq_some_getD {s : σ} {a : α} (h : (m.next s a).isSome = true) :
    m.next s a = some ((m.next s a).getD s) := by
  obtain ⟨t, ht⟩ := Option.isSome_iff_exists.mp h
  rw [ht]
  rfl

end Machine

end LiveSurface
