import Mathlib.Data.List.Sort

/-!
# Sorting by a key

A stable sort by a number keeps the elements of one number in their order.

Main results:

- Theorem {lit}`mem_take_block_iff`: the first elements of a key.
- Theorem {lit}`sortBy_eq_blocks`: a sorted list is the elements of each key, one key after the
  other.
-/

namespace LiveSurface
namespace StableSort

variable {α : Type} {key : α → Nat}

/-- A stable sort by a key. -/
def sortBy (key : α → Nat) (l : List α) : List α := l.insertionSort fun a b => key a ≤ key b

/-- The elements of one key. -/
def block (key : α → Nat) (l : List α) (k : Nat) : List α := l.filter fun a => key a = k

theorem key_of_mem_block {l : List α} {k : Nat} {a : α} (h : a ∈ block key l k) : key a = k := by
  simpa using (List.mem_filter.mp h).2

/-- The first elements of a key are those with few of that key before them. -/
theorem mem_take_block_iff {l : List α} {k n : Nat} {a : α} :
    a ∈ (block key l k).take n ↔
      ∃ i, l[i]? = some a ∧ key a = k ∧ (l.take i).countP (fun b => key b = k) < n := by
  induction l generalizing n with
  | nil => simp [block]
  | cons b l ih =>
      have hsplit : (∃ i, (b :: l)[i]? = some a ∧ key a = k ∧
          ((b :: l).take i).countP (fun b => key b = k) < n) ↔
          (b = a ∧ key a = k ∧ 0 < n) ∨ ∃ i, l[i]? = some a ∧ key a = k ∧
            (b :: l.take i).countP (fun b => key b = k) < n := by
        constructor
        · rintro ⟨i, hi⟩
          cases i with
          | zero => exact Or.inl (by simpa using hi)
          | succ i => exact Or.inr ⟨i, by simpa using hi⟩
        · rintro (h | ⟨i, hi⟩)
          · exact ⟨0, by simpa using h⟩
          · exact ⟨i + 1, by simpa using hi⟩
      rw [hsplit]
      by_cases hkey : key b = k
      · have hblock : block key (b :: l) k = b :: block key l k :=
          List.filter_cons_of_pos (by simpa using hkey)
        cases n with
        | zero => simp
        | succ n =>
            have hcount : ∀ i, (b :: l.take i).countP (fun b => key b = k) < n + 1 ↔
                (l.take i).countP (fun b => key b = k) < n := by
              intro i
              rw [List.countP_cons_of_pos (by simpa using hkey), Nat.succ_lt_succ_iff]
            simp only [hblock, List.take_succ_cons, List.mem_cons, ih, hcount]
            constructor
            · rintro (rfl | h)
              · exact Or.inl ⟨rfl, hkey, Nat.succ_pos n⟩
              · exact Or.inr h
            · rintro (h | h)
              · exact Or.inl h.1.symm
              · exact Or.inr h
      · have hblock : block key (b :: l) k = block key l k :=
          List.filter_cons_of_neg (by simpa using hkey)
        have hcount : ∀ i, (b :: l.take i).countP (fun b => key b = k) =
            (l.take i).countP (fun b => key b = k) :=
          fun i => List.countP_cons_of_neg (by simpa using hkey)
        simp only [hblock, ih, hcount]
        constructor
        · exact Or.inr
        · rintro (⟨rfl, hk, -⟩ | h)
          · exact absurd hk hkey
          · exact h

/-- An element goes behind smaller ones. -/
theorem orderedInsert_append_right {a : α} {xs ys : List α} (h : ∀ b ∈ xs, key b < key a) :
    (xs ++ ys).orderedInsert (fun a b => key a ≤ key b) a =
      xs ++ ys.orderedInsert (fun a b => key a ≤ key b) a := by
  induction xs with
  | nil => rfl
  | cons b xs ih =>
      rw [List.forall_mem_cons] at h
      rw [List.cons_append, List.orderedInsert_cons, if_neg (Nat.not_le.mpr h.1), ih h.2,
        List.cons_append]

/-- An element goes before those that are not smaller. -/
theorem orderedInsert_append_left {a : α} {xs ys : List α} (h : ∀ b ∈ ys, key a ≤ key b) :
    (xs ++ ys).orderedInsert (fun a b => key a ≤ key b) a =
      xs.orderedInsert (fun a b => key a ≤ key b) a ++ ys := by
  induction xs with
  | nil =>
      cases ys with
      | nil => rfl
      | cons b ys =>
          rw [List.nil_append, List.orderedInsert_cons, if_pos (h b List.mem_cons_self)]
          rfl
  | cons b xs ih =>
      rw [List.cons_append, List.orderedInsert_cons, List.orderedInsert_cons, ih]
      split <;> rfl

theorem orderedInsert_blocks {a : α} {l : List α} {n : Nat} (h : key a < n) :
    ((List.range n).flatMap (block key l)).orderedInsert (fun a b => key a ≤ key b) a =
      (List.range n).flatMap (block key (a :: l)) := by
  induction n with
  | zero => contradiction
  | succ n ih =>
      have hother : ∀ k, key a ≠ k → block key (a :: l) k = block key l k := fun k hk =>
        List.filter_cons_of_neg (by simpa using hk)
      rw [List.range_succ, List.flatMap_append, List.flatMap_append, List.flatMap_singleton,
        List.flatMap_singleton]
      by_cases hkey : key a = n
      · have hbelow : ∀ b ∈ (List.range n).flatMap (block key l), key b < key a := by
          intro b hb
          obtain ⟨k, hk, hb⟩ := List.mem_flatMap.mp hb
          rw [key_of_mem_block hb, hkey]
          exact List.mem_range.mp hk
        have hfront := @orderedInsert_append_left α key a [] (block key l n) fun b hb => by
          rw [key_of_mem_block hb, hkey]
        rw [List.nil_append] at hfront
        have hself : block key (a :: l) n = a :: block key l n :=
          List.filter_cons_of_pos (by simpa using hkey)
        rw [orderedInsert_append_right hbelow, hfront, hself]
        refine congrArg₂ (· ++ ·) (List.flatMap_congr fun k hk => ?_) rfl
        have hlt := List.mem_range.mp hk
        exact (hother k (by omega)).symm
      · have habove : ∀ b ∈ block key l n, key a ≤ key b := by
          intro b hb
          rw [key_of_mem_block hb]
          exact Nat.le_of_lt_succ h
        rw [orderedInsert_append_left habove, ih (by omega), hother n hkey]

/-- A sorted list is the elements of each key, one key after the other. -/
theorem sortBy_eq_blocks {l : List α} {n : Nat} (h : ∀ a ∈ l, key a < n) :
    sortBy key l = (List.range n).flatMap (block key l) := by
  induction l with
  | nil =>
      refine (List.flatMap_eq_nil_iff.mpr ?_).symm
      intro k _
      rfl
  | cons a l ih =>
      rw [List.forall_mem_cons] at h
      rw [sortBy, List.insertionSort_cons, ← sortBy, ih h.2, orderedInsert_blocks h.1]

end StableSort
end LiveSurface
