import LiveSurface.Program.Exclusion

/-!
# What whole operations keep

Between dispatchers the tables change store by store, and an operation that does not get the gate
takes back what it made.  A property that every whole operation keeps is nevertheless one that the
tables have between operations; and if it depends on links and sites only, they have it whenever
the control thread does not hold the gate.

Main results:

- Theorem {lit}`Control.FollowsIn.next`: every access of the control thread brings the tables
  nearer to those after its operation.
- Theorem {lit}`serial_of_reachable`: between operations the tables are those of a sequential run.
- Theorem {lit}`Control.FollowsIn.settled`: outside the gate, links and sites are those that whole
  operations have left.
-/

namespace LiveSurface
namespace Program

open StoreProgram

variable {m m₀ : Manager} {op : Op} {plan : LoadPlan}

/-- A property of tables that every allowed operation keeps, made as a whole. -/
structure Kept (allowed : Op → Prop) (R : Manager → Prop) : Prop where
  sound : ∀ m, R m → Sound m
  run : ∀ m gate op, allowed op → R m → R ((op.run gate).final m)

variable {allowed : Op → Prop} {R : Manager → Prop}

/-! ## The ends of an operation -/

/-- An operation whose checks refuse ends with them. -/
theorem Kept.refused (hR : Kept allowed R) (hop : allowed op) (h : R m₀)
    (hplan : op.before.result m₀ = none) : R (op.before.final m₀) := by
  rcases run_cases m₀ true op with ⟨_, _, hfinal⟩ | ⟨plan, hsome, _⟩
  · rw [← hfinal]
    exact hR.run m₀ true op hop h
  · rw [hplan] at hsome
    contradiction

/-- An operation that does not ask for the gate, or does not get it, takes back
what it made. -/
theorem Kept.withdrawn (hR : Kept allowed R) (hop : allowed op) (h : R m₀)
    (hplan : op.before.result m₀ = some plan) :
    R ((op.after plan).final (op.before.final m₀)) := by
  rcases run_cases m₀ false op with ⟨_, hnone, _⟩ | ⟨plan', hsome, hcases⟩
  · rw [hplan] at hnone
    contradiction
  · rw [hplan, Option.some.injEq] at hsome
    subst hsome
    rcases hcases with ⟨_, hgate, _⟩ | ⟨_, _, hfinal⟩
    · contradiction
    · rw [← hfinal]
      exact hR.run m₀ false op hop h

/-- An operation that had the gate ends there if it succeeds, and otherwise takes
back what it made. -/
theorem Kept.locked (hR : Kept allowed R) (hop : allowed op) (h : R m₀)
    (hplan : op.before.result m₀ = some plan) (hasks : op.asks plan = true) :
    ((op.locked plan).result (op.before.final m₀) = true →
        R ((op.locked plan).final (op.before.final m₀))) ∧
      ((op.locked plan).result (op.before.final m₀) = false →
        R ((op.after plan).final ((op.locked plan).final (op.before.final m₀)))) := by
  rcases run_cases m₀ true op with ⟨_, hnone, _⟩ | ⟨plan', hsome, hcases⟩
  · rw [hplan] at hnone
    contradiction
  · rw [hplan, Option.some.injEq] at hsome
    subst hsome
    rcases hcases with ⟨_, _, hresult, hends⟩ | ⟨hnot, _⟩
    · rw [hresult]
      rcases hends with ⟨hok, hfinal⟩ | ⟨hfailed, hfinal⟩
      · rw [hok, ← hfinal]
        exact ⟨fun _ => hR.run m₀ true op hop h, by simp⟩
      · rw [hfailed, ← hfinal]
        exact ⟨by simp, fun _ => hR.run m₀ true op hop h⟩
    · simp [hasks] at hnot

/-! ## The control thread -/

/-- How the tables have come about from those that whole operations left. -/
def Control.FollowsIn (allowed : Op → Prop) (R : Manager → Prop) (m : Manager) : Control → Prop
  | .idle => R m
  | .preparing op plan todo =>
      allowed op ∧ ∃ m₀, R m₀ ∧ op.before.result m₀ = plan ∧ storeAll m todo = op.before.final m₀
  | .exchange op plan =>
      allowed op ∧ ∃ m₀, R m₀ ∧ op.before.result m₀ = some plan ∧ op.asks plan = true ∧
        m = op.before.final m₀
  | .loadReaders op plan =>
      allowed op ∧ ∃ m₀, R m₀ ∧ op.before.result m₀ = some plan ∧ op.asks plan = true ∧
        m = op.before.final m₀
  | .backOff op plan => R ((op.after plan).final m)
  | .holding op plan ok todo =>
      (ok = true → R (storeAll m todo)) ∧
        (ok = false → R ((op.after plan).final (storeAll m todo)))
  | .undoing _ _ todo => R (storeAll m todo)

variable {T : Type} {s s' : State T}

theorem Control.FollowsIn.next (hR : Kept allowed R)
    (hfollows : s.control.FollowsIn allowed R s.manager) (hnext : controlNext s = some s') :
    s'.control.FollowsIn allowed R s'.manager := by
  cases controlNext_step hnext with
  | prepare h =>
      rw [h] at hfollows
      exact hfollows
  | refused h =>
      rw [h] at hfollows
      obtain ⟨hop, m₀, hm₀, hplan, hfinal⟩ := hfollows
      change R s.manager
      rw [← storeAll_nil s.manager, hfinal]
      exact hR.refused hop hm₀ hplan
  | @ask op plan h =>
      rw [h] at hfollows
      obtain ⟨hop, m₀, hm₀, hplan, hfinal⟩ := hfollows
      rw [storeAll_nil] at hfinal
      cases hasks : op.asks plan with
      | true => exact ⟨hop, m₀, hm₀, hplan, hasks, hfinal⟩
      | false =>
          change R ((op.after plan).final s.manager)
          rw [hfinal]
          exact hR.withdrawn hop hm₀ hplan
  | @exchange op plan h =>
      rw [h] at hfollows
      cases s.writer with
      | false => exact hfollows
      | true =>
          obtain ⟨hop, m₀, hm₀, hplan, _, hfinal⟩ := hfollows
          change R ((op.after plan).final s.manager)
          rw [hfinal]
          exact hR.withdrawn hop hm₀ hplan
  | @loadReaders op plan h =>
      rw [h] at hfollows
      obtain ⟨hop, m₀, hm₀, hplan, hasks, hfinal⟩ := hfollows
      dsimp only
      split
      · have hlocked := hR.locked hop hm₀ hplan hasks
        rw [← hfinal] at hlocked
        exact hlocked
      · change R ((op.after plan).final s.manager)
        rw [hfinal]
        exact hR.withdrawn hop hm₀ hplan
  | backOff h =>
      rw [h] at hfollows
      exact hfollows
  | store h =>
      rw [h] at hfollows
      exact hfollows
  | @unlock op plan ok h =>
      rw [h] at hfollows
      cases ok with
      | true => exact hfollows.1 rfl
      | false => exact hfollows.2 rfl
  | undo h =>
      rw [h] at hfollows
      exact hfollows
  | done h =>
      rw [h] at hfollows
      exact hfollows

/-! ## Every run -/

variable [DecidableEq T]

/-- The control thread begins allowed operations only. -/
def Begins (allowed : Op → Prop) (_ : State T) : Action T → Prop
  | .begin op => allowed op
  | _ => True

theorem followsIn_of_reachable (hR : Kept allowed R) (hinit : ∀ session, R (.initial session)) :
    ∀ s, (gateMachine T).ReachableWhen (Begins allowed) s →
      s.control.FollowsIn allowed R s.manager := by
  apply Machine.ReachableWhen.invariant
  · intro s hs
    obtain ⟨_, _, ⟨session, hmanager⟩, hcontrol, _⟩ := hs
    rw [hcontrol, hmanager]
    exact hinit session
  · intro s a s' _ h hbegins hnext
    rcases gateMachine_cases hnext with
      ⟨op, rfl, hcontrol, rfl⟩ | ⟨_, hcontrol⟩ | ⟨t, c, _, _, rfl⟩ | ⟨t, answer, d, _, _, rfl⟩
    · rw [hcontrol] at h
      exact ⟨hbegins, s.manager, h, rfl, rfl⟩
    · exact h.next hR hcontrol
    · exact h
    · obtain ⟨hmanager, hsame, _⟩ := dispatchNext_frame s t answer d
      rw [hmanager, hsame]
      exact h

/-- What a sequential run leaves is kept. -/
theorem kept_reachable : Kept (fun _ => True) programMachine.Reachable where
  sound := sound_of_reachable
  run _ gate op _ h := Machine.Reachable.next (a := (gate, op)) h rfl

/-- Between operations, the tables are those of a sequential run. -/
theorem serial_of_reachable (s : State T) (hs : (gateMachine T).Reachable s)
    (hidle : s.control = .idle) : programMachine.Reachable s.manager := by
  have hbegins : (gateMachine T).ReachableWhen (Begins fun _ => True) s :=
    hs.mono fun _ a _ => by cases a <;> exact trivial
  have hfollows := followsIn_of_reachable kept_reachable
    (fun session => Machine.ReachableWhen.start ⟨session, rfl⟩) s hbegins
  rw [hidle] at hfollows
  exact hfollows

/-- A program enforces, and has been called; no operation is going on. -/
def servedState : State Unit :=
  ((gateMachine Unit).run idleState (runningSchedule.take 52)).getD idleState

/-- No operation is going on. -/
def Control.isIdle : Control → Bool
  | .idle => true
  | _ => false

theorem Control.eq_idle {c : Control} (h : c.isIdle = true) : c = .idle := by
  cases c with
  | idle => rfl
  | _ => contradiction

theorem serial_of_reachable_servedState : programMachine.Reachable servedState.manager :=
  serial_of_reachable servedState (Machine.reachable_run_getD
    (.start ⟨rfl, rfl, ⟨1, rfl⟩, rfl, fun _ => rfl, rfl⟩) (by decide +kernel))
    (Control.eq_idle (by decide +kernel))

/-! ## Links and sites -/

/-- A property that depends on what is linked, and on the sites. -/
def Accountable (P : Manager → Prop) : Prop :=
  ∀ m m', SameAccounts m m' → (P m ↔ P m')

theorem Unpublished.sameAccounts {todo : List Store} (h : Unpublished op m todo)
    (hsound : Sound m) : SameAccounts m (storeAll m todo) := by
  induction todo generalizing m with
  | nil => exact SameAccounts.refl m
  | cons st todo ih =>
      obtain ⟨hsound', _, hsame, hrest⟩ := h.store hsound
      exact hsame.trans (ih hrest hsound')

/-- Outside the gate, links and sites are those that whole operations have left. -/
theorem Control.FollowsIn.settled {P : Manager → Prop} {c : Control} (hR : Kept allowed R)
    (hP : Accountable P) (hRP : ∀ m, R m → P m) (hfollows : c.FollowsIn allowed R m)
    (hok : c.Ok m) (hnot : ¬c.Holding) : P m := by
  cases c with
  | idle => exact hRP m hfollows
  | preparing op plan todo =>
      obtain ⟨-, m₀, hm₀, -, hfinal⟩ := hfollows
      rw [hP _ _ (hok.2.1.sameAccounts hok.1), hfinal,
        ← hP _ _ ((hR.sound m₀ hm₀).before op).2.1]
      exact hRP m₀ hm₀
  | exchange op plan =>
      obtain ⟨-, m₀, hm₀, -, -, rfl⟩ := hfollows
      rw [← hP _ _ ((hR.sound m₀ hm₀).before op).2.1]
      exact hRP m₀ hm₀
  | loadReaders op plan =>
      obtain ⟨-, m₀, hm₀, -, -, rfl⟩ := hfollows
      rw [← hP _ _ ((hR.sound m₀ hm₀).before op).2.1]
      exact hRP m₀ hm₀
  | backOff op plan =>
      rw [hP _ _ (hok.1.after hok.2).2]
      exact hRP _ hfollows
  | holding op plan ok todo => exact absurd ⟨op, plan, ok, todo, rfl⟩ hnot
  | undoing op plan todo =>
      rw [hP _ _ (hok.2.1.sameAccounts hok.1)]
      exact hRP _ hfollows

end Program
end LiveSurface
