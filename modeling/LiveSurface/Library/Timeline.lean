import Mathlib.Data.List.Basic

/-!
# Timelines

A timeline is a list of records, the oldest first.  A rule relates each record to
the records before it; a timeline obeys a rule when each of its records does.

Main results:

- Theorem {lit}`throughout_snoc`: one more record adds one obligation.
- Theorem {lit}`Throughout.unique`: a rule that forbids a second record of a kind
  leaves at most one.
-/

namespace LiveSurface
namespace Timeline

variable {α : Type} {rule : List α → α → Prop} {log : List α} {r s : α} {i j : Nat}

/-- Every record obeys a rule about the records before it. -/
def Throughout (rule : List α → α → Prop) (log : List α) : Prop :=
  ∀ i r, log[i]? = some r → rule (log.take i) r

/-- A record before a place of a timeline. -/
theorem mem_before : r ∈ log.take i ↔ ∃ j < i, log[j]? = some r := by
  rw [List.mem_iff_getElem?]
  constructor
  · rintro ⟨j, hj⟩
    rw [List.getElem?_take] at hj
    by_cases hlt : j < i
    · rw [if_pos hlt] at hj
      exact ⟨j, hlt, hj⟩
    · rw [if_neg hlt] at hj
      contradiction
  · rintro ⟨j, hlt, hj⟩
    refine ⟨j, ?_⟩
    rw [List.getElem?_take, if_pos hlt]
    exact hj

theorem throughout_nil : Throughout rule [] := by
  intro i r h
  contradiction

/-- A timeline with one more record. -/
theorem throughout_snoc (h : Throughout rule log) (hr : rule log r) :
    Throughout rule (log ++ [r]) := by
  intro i s hs
  rcases Nat.lt_trichotomy i log.length with hlt | heq | hgt
  · rw [List.getElem?_append_left hlt] at hs
    rw [List.take_append_of_le_length (Nat.le_of_lt hlt)]
    exact h i s hs
  · rw [heq, List.getElem?_concat_length] at hs
    rw [heq, List.take_left, ← Option.some.inj hs]
    exact hr
  · rw [List.getElem?_eq_none] at hs
    · contradiction
    · rw [List.length_append, List.length_singleton]
      omega

/-- A record of a kind that the rule lets come only first is the only one of its kind. -/
theorem Throughout.unique (kind : α → Prop) (h : Throughout rule log)
    (hfirst : ∀ before r, rule before r → kind r → ∀ s ∈ before, ¬kind s)
    (hi : log[i]? = some r) (hr : kind r) (hj : log[j]? = some s) (hs : kind s) : i = j := by
  rcases Nat.lt_trichotomy i j with hlt | heq | hgt
  · exact (hfirst _ s (h j s hj) hs r (mem_before.mpr ⟨i, hlt, hi⟩) hr).elim
  · exact heq
  · exact (hfirst _ r (h i r hi) hr s (mem_before.mpr ⟨j, hgt, hj⟩) hs).elim

end Timeline
end LiveSurface
