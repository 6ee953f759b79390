import LiveSurface.Library.Machine
import Mathlib.Data.Finset.Card
import Mathlib.Logic.Function.Basic

/-!
# A gate for many readers and one writer

The gate is a flag and a counter.  A reader counts itself and then looks at the
flag; the writer raises the flag and then looks at the counter.  Either side
withdraws when it sees the other.  Nobody waits.

Main results:

- Theorem {lit}`ReaderGate.Inv.next`: the flag tells whether the writer is there,
  and the counter how many readers have counted themselves.
- Theorem {lit}`ReaderGate.exclusive`: while the writer holds the gate no reader
  is admitted.
-/

namespace LiveSurface
namespace ReaderGate

variable {T : Type}

/-! ## Counting -/

/-- Exactly {lit}`n` elements have the property. -/
def Tally (p : T → Prop) (n : Nat) : Prop :=
  ∃ s : Finset T, (∀ t, t ∈ s ↔ p t) ∧ s.card = n

theorem tally_none {p : T → Prop} (h : ∀ t, ¬ p t) : Tally p 0 := by
  refine ⟨∅, ?_, rfl⟩
  intro t
  simpa using h t

theorem Tally.not_of_zero {p : T → Prop} (h : Tally p 0) (t : T) : ¬ p t := by
  obtain ⟨s, hmem, hcard⟩ := h
  rw [Finset.card_eq_zero] at hcard
  rw [← hmem, hcard]
  exact Finset.notMem_empty t

theorem Tally.congr {p q : T → Prop} {n : Nat} (h : Tally p n) (hpq : ∀ t, q t ↔ p t) :
    Tally q n := by
  obtain ⟨s, hmem, hcard⟩ := h
  refine ⟨s, ?_, hcard⟩
  intro t
  rw [hpq, hmem]

variable [DecidableEq T]

theorem Tally.insert {p q : T → Prop} {n : Nat} (h : Tally p n) {t : T} (hnot : ¬ p t)
    (hq : ∀ u, q u ↔ u = t ∨ p u) : Tally q (n + 1) := by
  obtain ⟨s, hmem, hcard⟩ := h
  refine ⟨Insert.insert t s, ?_, ?_⟩
  · intro u
    rw [Finset.mem_insert, hmem, hq]
  · rw [Finset.card_insert_of_notMem (by rwa [hmem]), hcard]

theorem Tally.erase {p q : T → Prop} {n : Nat} (h : Tally p n) {t : T} (hp : p t)
    (hq : ∀ u, q u ↔ u ≠ t ∧ p u) : Tally q (n - 1) := by
  obtain ⟨s, hmem, hcard⟩ := h
  refine ⟨s.erase t, ?_, ?_⟩
  · intro u
    rw [Finset.mem_erase, hmem, hq]
  · rw [Finset.card_erase_of_mem ((hmem t).mpr hp), hcard]

/-! ## The protocol -/

inductive Reader
  | away
  /-- Counted, and not yet or no longer looking at the flag. -/
  | counted
  | admitted
deriving DecidableEq

inductive Writer
  | away
  | flagged
  | holding
deriving DecidableEq

structure Gate (T : Type) where
  flag : Bool
  counter : Nat
  readers : T → Reader
  writer : Writer

inductive Action (T : Type)
  | enter (t : T)
  | look (t : T)
  | leave (t : T)
  | raise
  | hold
  | lower

/-- One access of one party.  A reader that sees the flag, and a writer that
sees the counter, can only take back what it announced. -/
def Gate.next (g : Gate T) : Action T → Option (Gate T)
  | .enter t =>
      if g.readers t = .away then
        some { g with
          counter := g.counter + 1
          readers := Function.update g.readers t .counted }
      else none
  | .look t =>
      if g.readers t = .counted ∧ g.flag = false then
        some { g with readers := Function.update g.readers t .admitted }
      else none
  | .leave t =>
      if g.readers t ≠ .away then
        some { g with
          counter := g.counter - 1
          readers := Function.update g.readers t .away }
      else none
  | .raise =>
      if g.writer = .away ∧ g.flag = false then
        some { g with flag := true, writer := .flagged }
      else none
  | .hold =>
      if g.writer = .flagged ∧ g.counter = 0 then some { g with writer := .holding }
      else none
  | .lower =>
      if g.writer ≠ .away then some { g with flag := false, writer := .away }
      else none

def machine (T : Type) [DecidableEq T] : Machine (Gate T) (Action T) where
  init g := g.flag = false ∧ g.counter = 0 ∧ (∀ t, g.readers t = .away) ∧ g.writer = .away
  next := Gate.next

/-! ## Exclusion -/

structure Inv (g : Gate T) : Prop where
  flag : g.flag = true ↔ g.writer ≠ .away
  counter : Tally (fun t => g.readers t ≠ .away) g.counter
  exclusive : g.writer = .holding → ∀ t, g.readers t ≠ .admitted

omit [DecidableEq T] in
theorem inv_init {g : Gate T}
    (h : g.flag = false ∧ g.counter = 0 ∧ (∀ t, g.readers t = .away) ∧ g.writer = .away) :
    Inv g := by
  obtain ⟨hflag, hcounter, hreaders, hwriter⟩ := h
  refine ⟨by simp [hflag, hwriter], ?_, ?_⟩
  · rw [hcounter]
    apply tally_none
    intro t
    simp [hreaders t]
  · intro hholding
    rw [hwriter] at hholding
    contradiction

theorem Inv.enter {g : Gate T} (h : Inv g) {t : T} (ht : g.readers t = .away) :
    Inv { g with
      counter := g.counter + 1
      readers := Function.update g.readers t .counted } := by
  refine ⟨h.flag, ?_, ?_⟩
  · apply h.counter.insert (t := t) (by simp [ht])
    intro u
    by_cases hu : u = t
    · simp [hu]
    · simp [hu]
  · intro hholding u
    by_cases hu : u = t
    · simp [hu]
    · simpa [hu] using h.exclusive hholding u

theorem Inv.look {g : Gate T} (h : Inv g) {t : T} (ht : g.readers t = .counted)
    (hflag : g.flag = false) :
    Inv { g with readers := Function.update g.readers t .admitted } := by
  refine ⟨h.flag, ?_, ?_⟩
  · apply h.counter.congr
    intro u
    by_cases hu : u = t
    · simp [hu, ht]
    · simp [hu]
  · -- the writer is away, for its flag is down
    intro hholding
    have hraised : g.flag = true := by
      rw [h.flag, hholding]
      simp
    rw [hflag] at hraised
    contradiction

theorem Inv.leave {g : Gate T} (h : Inv g) {t : T} (ht : g.readers t ≠ .away) :
    Inv { g with
      counter := g.counter - 1
      readers := Function.update g.readers t .away } := by
  refine ⟨h.flag, ?_, ?_⟩
  · apply h.counter.erase (t := t) ht
    intro u
    by_cases hu : u = t
    · simp [hu]
    · simp [hu]
  · intro hholding u
    by_cases hu : u = t
    · simp [hu]
    · simpa [hu] using h.exclusive hholding u

omit [DecidableEq T] in
theorem Inv.hold {g : Gate T} (h : Inv g) (hwriter : g.writer = .flagged)
    (hcounter : g.counter = 0) : Inv { g with writer := .holding } := by
  refine ⟨?_, h.counter, ?_⟩
  · have hflag := h.flag
    rw [hwriter] at hflag
    simpa using hflag
  · intro _ t hadmitted
    have htally := h.counter
    rw [hcounter] at htally
    apply htally.not_of_zero t
    rw [hadmitted]
    simp

theorem Inv.next {g g' : Gate T} {a : Action T} (h : Inv g) (hnext : g.next a = some g') :
    Inv g' := by
  cases a with
  | enter t =>
      simp only [Gate.next, Option.ite_none_right_eq_some, Option.some.injEq] at hnext
      obtain ⟨haway, rfl⟩ := hnext
      exact h.enter haway
  | look t =>
      simp only [Gate.next, Option.ite_none_right_eq_some, Option.some.injEq] at hnext
      obtain ⟨⟨hcounted, hflag⟩, rfl⟩ := hnext
      exact h.look hcounted hflag
  | leave t =>
      simp only [Gate.next, Option.ite_none_right_eq_some, Option.some.injEq] at hnext
      obtain ⟨hthere, rfl⟩ := hnext
      exact h.leave hthere
  | raise =>
      simp only [Gate.next, Option.ite_none_right_eq_some, Option.some.injEq] at hnext
      obtain ⟨_, rfl⟩ := hnext
      exact ⟨by simp, h.counter, by simp⟩
  | hold =>
      simp only [Gate.next, Option.ite_none_right_eq_some, Option.some.injEq] at hnext
      obtain ⟨⟨hwriter, hcounter⟩, rfl⟩ := hnext
      exact h.hold hwriter hcounter
  | lower =>
      simp only [Gate.next, Option.ite_none_right_eq_some, Option.some.injEq] at hnext
      obtain ⟨_, rfl⟩ := hnext
      exact ⟨by simp, h.counter, by simp⟩

theorem inv_of_reachable : ∀ g, (machine T).Reachable g → Inv g := by
  apply Machine.Reachable.invariant
  · intro g hg
    exact inv_init hg
  · intro g a g' _ h hnext
    exact h.next hnext

theorem exclusive {g : Gate T} (h : (machine T).Reachable g) (hholding : g.writer = .holding)
    (t : T) : g.readers t ≠ .admitted :=
  (inv_of_reachable g h).exclusive hholding t

end ReaderGate
end LiveSurface
