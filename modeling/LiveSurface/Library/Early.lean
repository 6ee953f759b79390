import Mathlib.Init

/-!
# Computations that stop early

A function of the source that fills a record step by step and returns at the first step that
cannot go on: a state, and a value where the end was reached.

Main results:

- Theorem {lit}`Early.Ends.bind`: the rule for one step after another.
- Theorem {lit}`Early.Ends.mono`: the rule of consequence.
-/

namespace LiveSurface

/-- A computation over a state that may stop before its end. -/
def Early (σ α : Type) : Type := σ → Option α × σ

namespace Early

variable {σ α β : Type}

instance : Monad (Early σ) where
  pure a := fun s => (some a, s)
  bind m f := fun s =>
    match m s with
    | (none, s) => (none, s)
    | (some a, s) => f a s

/-- Change the state. -/
def modify (f : σ → σ) : Early σ Unit := fun s => (some (), f s)

/-- Change the state and stop. -/
def stopWith (f : σ → σ) : Early σ α := fun s => (none, f s)

/-- Change the state and stop when a condition holds. -/
def stopIf (c : Prop) [Decidable c] (f : σ → σ) : Early σ Unit := if c then stopWith f else pure ()

/-- From a state, the computation stops in a state of one kind or reaches its end in a state of
another kind. -/
def Ends (m : Early σ α) (s : σ) (stopped : σ → Prop) (done : α → σ → Prop) : Prop :=
  match m s with
  | (none, s') => stopped s'
  | (some a, s') => done a s'

section Rules

variable {m : Early σ α} {f : α → Early σ β} {s : σ} {stopped stopped' : σ → Prop}
  {done done' : α → σ → Prop} {last : β → σ → Prop} {c : Prop} [Decidable c]

theorem Ends.mono (h : m.Ends s stopped done) (hstop : ∀ s, stopped s → stopped' s)
    (hdone : ∀ a s, done a s → done' a s) : m.Ends s stopped' done' := by
  unfold Ends at h ⊢
  split at h
  · exact hstop _ h
  · exact hdone _ _ h

/-- One step after another. -/
theorem Ends.bind (h : m.Ends s stopped done) (hf : ∀ a s, done a s → (f a).Ends s stopped last) :
    (m >>= f).Ends s stopped last := by
  unfold Ends at h ⊢
  change match (match m s with | (none, s) => (none, s) | (some a, s) => f a s) with
    | (none, s') => stopped s'
    | (some a, s') => last a s'
  rcases hm : m s with ⟨a, s'⟩
  rw [hm] at h
  cases a with
  | none => exact h
  | some a => exact hf a s' h

theorem ends_pure {a : α} (h : done a s) : (pure a : Early σ α).Ends s stopped done := h

theorem ends_stopWith {g : σ → σ} (h : stopped (g s)) :
    (stopWith g : Early σ α).Ends s stopped done := h

theorem ends_modify {g : σ → σ} {done : Unit → σ → Prop} (h : done () (g s)) :
    (modify g).Ends s stopped done := h

theorem ends_stopIf {g : σ → σ} {done : Unit → σ → Prop} (hstop : c → stopped (g s))
    (hgo : ¬c → done () s) : (stopIf c g).Ends s stopped done := by
  unfold stopIf
  split
  case isTrue h => exact hstop h
  case isFalse h => exact hgo h

/-- A conditional computation. -/
theorem ends_ite {m' : Early σ α} (hpos : c → m.Ends s stopped done)
    (hneg : ¬c → m'.Ends s stopped done) : (if c then m else m').Ends s stopped done := by
  split
  case isTrue h => exact hpos h
  case isFalse h => exact hneg h

/-- The state that a computation leaves. -/
theorem Ends.state {P : σ → Prop} (h : m.Ends s P fun _ => P) : P (m s).2 := by
  unfold Ends at h
  split at h
  case h_1 s' heq =>
    rw [heq]
    exact h
  case h_2 a s' heq =>
    rw [heq]
    exact h

end Rules

end Early
end LiveSurface
