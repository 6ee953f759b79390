import Mathlib.Data.List.Basic
import Mathlib.Logic.Relation

/-!
# Topological orders

A list is in topological order for a relation when everything that an element is related to comes
before the element.  Such a list is closed under the relation, and no element of it is on a cycle.

Main results:

- Theorem {lit}`Topological.append_singleton`: an element may follow when all it needs is there.
- Theorem {lit}`Topological.idxOf_lt`: the relation goes down in the list.
- Theorem {lit}`Topological.acyclic`: there is no cycle through an element.
-/

namespace LiveSurface

open Relation

/-- Everything that an element is related to comes before it. -/
def Topological {α : Type} (r : α → α → Prop) (order : List α) : Prop :=
  ∀ before a after, order = before ++ a :: after → ∀ b, r a b → b ∈ before

section Topological

variable {α : Type} {r : α → α → Prop} {order : List α} {a b : α}

theorem topological_nil : Topological r [] := by
  intro before a after h
  simp at h

theorem Topological.append_singleton (h : Topological r order) (ha : ∀ b, r a b → b ∈ order) :
    Topological r (order ++ [a]) := by
  intro before x after hsplit b hb
  rcases List.eq_nil_or_concat after with rfl | ⟨after, y, rfl⟩
  · obtain ⟨rfl, hx⟩ := List.append_inj' hsplit rfl
    obtain rfl := List.singleton_inj.mp hx
    exact ha b hb
  · rw [List.concat_eq_append, ← List.cons_append, ← List.append_assoc] at hsplit
    exact h before x after (List.append_inj' hsplit rfl).1 b hb

/-- The list is closed under the relation. -/
theorem Topological.mem (h : Topological r order) (ha : a ∈ order) (hab : r a b) : b ∈ order := by
  obtain ⟨before, after, rfl⟩ := List.append_of_mem ha
  exact List.mem_append_left _ (h before a after rfl b hab)

/-- The relation goes down in the list. -/
theorem Topological.idxOf_lt [DecidableEq α] (h : Topological r order) (ha : a ∈ order)
    (hab : r a b) : order.idxOf b < order.idxOf a := by
  have hlt : order.idxOf a < order.length := List.idxOf_lt_length_of_mem ha
  have hsplit : order = order.take (order.idxOf a) ++ a :: order.drop (order.idxOf a + 1) := by
    have hdrop := List.drop_eq_getElem_cons hlt
    rw [List.getElem_idxOf hlt] at hdrop
    rw [← hdrop, List.take_append_drop]
  have hb := h _ a _ hsplit b hab
  have hfirst : order.idxOf b = (order.take (order.idxOf a)).idxOf b := by
    conv_lhs => rw [← List.take_append_drop (order.idxOf a) order]
    rw [List.idxOf_append, if_pos hb]
  rw [hfirst]
  refine Nat.lt_of_lt_of_le (List.idxOf_lt_length_of_mem hb) ?_
  exact List.length_take_le _ _

theorem Topological.transGen (h : Topological r order) (ha : a ∈ order) (hab : TransGen r a b) :
    b ∈ order := by
  induction hab with
  | single hab => exact h.mem ha hab
  | tail _ hbc hb => exact h.mem hb hbc

/-- There is no cycle through an element. -/
theorem Topological.acyclic (h : Topological r order) (ha : a ∈ order) : ¬TransGen r a a := by
  classical
  have hdown : ∀ {b}, TransGen r a b → order.idxOf b < order.idxOf a := by
    intro b hab
    induction hab with
    | single hab => exact h.idxOf_lt ha hab
    | tail hab hbc ih => exact Nat.lt_trans (h.idxOf_lt (h.transGen ha hab) hbc) ih
  exact fun hcycle => Nat.lt_irrefl _ (hdown hcycle)

end Topological

end LiveSurface
