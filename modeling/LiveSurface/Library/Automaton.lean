import Mathlib.Computability.Language

/-!
# Automata that may stop

An automaton reads a word letter by letter and may refuse a letter.  Where every state has a
language such that one letter takes the language of a state to that of the next one, the words that
are accepted from a state are those of its language.

Main results:

- Theorem {lit}`mem_iff_accepted`: what is accepted from a state.
- Theorem {lit}`cons_mem_kstar_mul`: the first letter of a repeated class.
-/

namespace LiveSurface
namespace Automaton

open Computability

variable {α σ : Type}

/-! ## Runs -/

/-- The state after a word, if no letter is refused. -/
def run (step : σ → α → Option σ) : σ → List α → Option σ
  | s, [] => some s
  | s, c :: w => (step s c).bind fun s' => run step s' w

/-- A word is accepted from a state. -/
def Accepted (step : σ → α → Option σ) (accept : σ → Prop) (s : σ) (w : List α) : Prop :=
  ∃ s', run step s w = some s' ∧ accept s'

/-- Languages that are taken to each other by the letters are those of the states. -/
theorem mem_iff_accepted {step : σ → α → Option σ} {accept : σ → Prop} {L : σ → Language α}
    (hnil : ∀ s, [] ∈ L s ↔ accept s)
    (hcons : ∀ s c w, c :: w ∈ L s ↔ ∃ s', step s c = some s' ∧ w ∈ L s') (s : σ) (w : List α) :
    w ∈ L s ↔ Accepted step accept s w := by
  induction w generalizing s with
  | nil =>
      rw [hnil]
      constructor
      · intro h
        exact ⟨s, rfl, h⟩
      · rintro ⟨s', hs', h⟩
        obtain rfl := Option.some.inj hs'
        exact h
  | cons c w ih =>
      rw [hcons]
      constructor
      · rintro ⟨s', hstep, hmem⟩
        obtain ⟨t, hrun, haccept⟩ := (ih s').mp hmem
        refine ⟨t, ?_, haccept⟩
        rw [run, hstep]
        exact hrun
      · rintro ⟨t, hrun, haccept⟩
        obtain ⟨s', hstep, hrest⟩ := Option.bind_eq_some_iff.mp hrun
        exact ⟨s', hstep, (ih s').mpr ⟨t, hrest, haccept⟩⟩

/-! ## Classes of letters -/

/-- The words of one letter of a class. -/
def letters (p : α → Prop) : Language α := {w | ∃ c, p c ∧ w = [c]}

section Letters

variable {p : α → Prop} {L : Language α} {c : α} {w : List α}

@[simp]
theorem nil_mem_letters_mul : [] ∈ letters p * L ↔ False := by
  refine iff_false_intro ?_
  rintro ⟨_, ⟨c, -, rfl⟩, b, -, h⟩
  exact List.cons_ne_nil _ _ h

@[simp]
theorem cons_mem_letters_mul : c :: w ∈ letters p * L ↔ p c ∧ w ∈ L := by
  constructor
  · rintro ⟨_, ⟨d, hd, rfl⟩, b, hb, h⟩
    obtain ⟨rfl, rfl⟩ := List.cons.inj h
    exact ⟨hd, hb⟩
  · rintro ⟨hc, hw⟩
    exact ⟨[c], ⟨c, hc, rfl⟩, w, hw, rfl⟩

/-- A repeated class begins with one of its letters or is left out. -/
theorem kstar_mul_eq : (letters p)∗ * L = L + letters p * ((letters p)∗ * L) := by
  conv_lhs => rw [← Language.one_add_self_mul_kstar_eq_kstar, add_mul, one_mul, mul_assoc]

@[simp]
theorem nil_mem_kstar_mul : [] ∈ (letters p)∗ * L ↔ [] ∈ L := by
  rw [kstar_mul_eq, Language.mem_add, nil_mem_letters_mul, or_false]

@[simp]
theorem cons_mem_kstar_mul :
    c :: w ∈ (letters p)∗ * L ↔ c :: w ∈ L ∨ p c ∧ w ∈ (letters p)∗ * L := by
  conv_lhs => rw [kstar_mul_eq]
  rw [Language.mem_add, cons_mem_letters_mul]

end Letters

end Automaton
end LiveSurface
