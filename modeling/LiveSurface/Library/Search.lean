import Mathlib.Data.List.Infix
import Mathlib.Data.Nat.Find

/-!
# Searches that may fail

A loop that visits one element after another, until a visit stops it with a result.  A visit may
also fail, and then the loop fails.

Main results:

- Theorem {lit}`search_eq_iff`: the first visit that does not go on decides.
- Theorem {lit}`search_range_eq_iff`: the same over the numbers below a bound.
- Theorems {lit}`Visits.fails_iff` and {lit}`Visits.stops_iff`: the same for visits of three kinds.
-/

namespace LiveSurface

variable {α β : Type}

/-- Visit elements; {lit}`some none` goes on, {lit}`none` is a failure. -/
def search (visit : α → Option (Option β)) : List α → Option (Option β)
  | [] => some none
  | a :: rest => (visit a).bind fun
      | some b => some (some b)
      | none => search visit rest

theorem search_cons_pass {visit : α → Option (Option β)} {a : α} (h : visit a = some none)
    (rest : List α) : search visit (a :: rest) = search visit rest := by
  rw [search, h]
  rfl

theorem search_cons_stop {visit : α → Option (Option β)} {a : α} (h : visit a ≠ some none)
    (rest : List α) : search visit (a :: rest) = visit a := by
  rw [search]
  cases ha : visit a with
  | none => rfl
  | some stop =>
      cases stop with
      | none => exact absurd ha h
      | some b => rfl

/-- A search goes on to the end when every visit goes on. -/
theorem search_pass_iff {visit : α → Option (Option β)} {xs : List α} :
    search visit xs = some none ↔ ∀ x ∈ xs, visit x = some none := by
  induction xs with
  | nil => simp [search]
  | cons x rest ih =>
      rw [List.forall_mem_cons]
      by_cases hx : visit x = some none
      · rw [search_cons_pass hx, ih]
        exact (and_iff_right hx).symm
      · rw [search_cons_stop hx]
        exact iff_of_false hx fun h => hx h.1

/-- The first visit that does not go on decides. -/
theorem search_eq_iff {visit : α → Option (Option β)} {xs : List α} {r : Option (Option β)}
    (hr : r ≠ some none) :
    search visit xs = r ↔ ∃ before a after, xs = before ++ a :: after ∧
      (∀ x ∈ before, visit x = some none) ∧ visit a = r := by
  induction xs with
  | nil =>
      refine iff_of_false (fun h => hr h.symm) ?_
      rintro ⟨before, a, after, hsplit, -⟩
      simp at hsplit
  | cons x rest ih =>
      by_cases hx : visit x = some none
      · rw [search_cons_pass hx, ih]
        constructor
        · rintro ⟨before, a, after, rfl, hbefore, ha⟩
          exact ⟨x :: before, a, after, rfl, List.forall_mem_cons.mpr ⟨hx, hbefore⟩, ha⟩
        · rintro ⟨before, a, after, hsplit, hbefore, ha⟩
          cases before with
          | nil =>
              obtain ⟨rfl, -⟩ := List.cons.inj hsplit
              exact absurd (ha.symm.trans hx) hr
          | cons y ys =>
              obtain ⟨rfl, rfl⟩ := List.cons.inj hsplit
              exact ⟨ys, a, after, rfl, (List.forall_mem_cons.mp hbefore).2, ha⟩
      · rw [search_cons_stop hx]
        constructor
        · intro h
          exact ⟨[], x, rest, rfl, fun y hy => (nomatch hy), h⟩
        · rintro ⟨before, a, after, hsplit, hbefore, ha⟩
          cases before with
          | nil =>
              obtain ⟨rfl, -⟩ := List.cons.inj hsplit
              exact ha
          | cons y ys =>
              obtain ⟨rfl, -⟩ := List.cons.inj hsplit
              exact absurd (hbefore x List.mem_cons_self) hx

/-- A number splits the numbers below a bound. -/
theorem range_split_iff {n : Nat} {p q : Nat → Prop} :
    (∃ before i after, List.range n = before ++ i :: after ∧ (∀ j ∈ before, p j) ∧ q i) ↔
      ∃ i, i < n ∧ (∀ j, j < i → p j) ∧ q i := by
  constructor
  · rintro ⟨before, i, after, hsplit, hbefore, hi⟩
    have hlen : before.length < n := by
      have hlength := congrArg List.length hsplit
      simp only [List.length_range, List.length_append, List.length_cons] at hlength
      omega
    have hget : ∀ j, j < n → (before ++ i :: after)[j]? = some j := by
      intro j hj
      rw [← hsplit, List.getElem?_range hj]
    have hat := hget before.length hlen
    rw [List.getElem?_append_right (Nat.le_refl _), Nat.sub_self, List.getElem?_cons_zero] at hat
    obtain rfl := Option.some.inj hat
    refine ⟨before.length, hlen, ?_, hi⟩
    intro j hj
    have hj' := hget j (Nat.lt_trans hj hlen)
    rw [List.getElem?_append_left hj] at hj'
    exact hbefore j (List.mem_of_getElem? hj')
  · rintro ⟨i, hi, hbefore, hq⟩
    refine ⟨List.range i, i, (List.range n).drop (i + 1), ?_, ?_, hq⟩
    · have hdrop := List.drop_eq_getElem_cons (l := List.range n) (i := i) (by simpa using hi)
      rw [List.getElem_range] at hdrop
      have htake : (List.range n).take i = List.range i := by
        rw [List.take_range, Nat.min_eq_left (Nat.le_of_lt hi)]
      rw [← hdrop, ← htake, List.take_append_drop]
    · intro j hj
      exact hbefore j (List.mem_range.mp hj)

/-- A search over numbers. -/
theorem search_range_eq_iff {visit : Nat → Option (Option β)} {n : Nat} {r : Option (Option β)}
    (hr : r ≠ some none) :
    search visit (List.range n) = r ↔
      ∃ i, i < n ∧ (∀ j, j < i → visit j = some none) ∧ visit i = r := by
  rw [search_eq_iff hr]
  exact range_split_iff (p := fun j => visit j = some none) (q := fun i => visit i = r)

/-- Every visit fails, goes on or stops, by two conditions on its number. -/
def Visits (visit : Nat → Option (Option β)) (n : Nat) (Fail Stop : Nat → Prop) (result : Nat → β) :
    Prop :=
  ∀ i, i < n → (Fail i ∧ visit i = none) ∨ (¬Fail i ∧ ¬Stop i ∧ visit i = some none) ∨
    (¬Fail i ∧ Stop i ∧ visit i = some (some (result i)))

section Visits

variable {visit : Nat → Option (Option β)} {n : Nat} {Fail Stop : Nat → Prop} {result : Nat → β}

theorem Visits.pass_iff (h : Visits visit n Fail Stop result) {i : Nat} (hi : i < n) :
    visit i = some none ↔ ¬Fail i ∧ ¬Stop i := by
  rcases h i hi with ⟨hfail, hv⟩ | ⟨hfail, hstop, hv⟩ | ⟨hfail, hstop, hv⟩
  · rw [hv]
    exact iff_of_false (fun h => nomatch h) fun h => h.1 hfail
  · exact iff_of_true hv ⟨hfail, hstop⟩
  · rw [hv]
    exact iff_of_false (fun h => nomatch Option.some.inj h) fun h => h.2 hstop

/-- A search fails where a visit fails before one stops it. -/
theorem Visits.fails_iff (h : Visits visit n Fail Stop result) :
    search visit (List.range n) = none ↔ ∃ i, i < n ∧ Fail i ∧ ∀ j, j < i → ¬Stop j := by
  classical
  rw [search_range_eq_iff (Option.some_ne_none none).symm]
  constructor
  · rintro ⟨i, hi, hpass, hnone⟩
    refine ⟨i, hi, ?_, fun j hj => ((h.pass_iff (Nat.lt_trans hj hi)).mp (hpass j hj)).2⟩
    rcases h i hi with ⟨hfail, -⟩ | ⟨-, -, hv⟩ | ⟨-, -, hv⟩
    · exact hfail
    · rw [hv] at hnone
      contradiction
    · rw [hv] at hnone
      contradiction
  · rintro ⟨i, hi, hfail, hbefore⟩
    -- the first visit that fails
    have hex : ∃ k, Fail k := ⟨i, hfail⟩
    have hle : Nat.find hex ≤ i := Nat.find_min' hex hfail
    have hlt : Nat.find hex < n := Nat.lt_of_le_of_lt hle hi
    refine ⟨Nat.find hex, hlt, ?_, ?_⟩
    · intro j hj
      exact (h.pass_iff (Nat.lt_trans hj hlt)).mpr
        ⟨Nat.find_min hex hj, hbefore j (Nat.lt_of_lt_of_le hj hle)⟩
    · rcases h _ hlt with ⟨-, hv⟩ | ⟨hno, -⟩ | ⟨hno, -⟩
      · exact hv
      · exact absurd (Nat.find_spec hex) hno
      · exact absurd (Nat.find_spec hex) hno

/-- The first visit that stops a search gives its result. -/
theorem Visits.stops_iff (h : Visits visit n Fail Stop result) {b : β} :
    search visit (List.range n) = some (some b) ↔
      ∃ i, i < n ∧ Stop i ∧ (∀ j, j ≤ i → ¬Fail j) ∧ (∀ j, j < i → ¬Stop j) ∧ result i = b := by
  rw [search_range_eq_iff (by simp)]
  constructor
  · rintro ⟨i, hi, hpass, hb⟩
    rcases h i hi with ⟨-, hv⟩ | ⟨-, -, hv⟩ | ⟨hfail, hstop, hv⟩
    · rw [hv] at hb
      contradiction
    · rw [hv] at hb
      exact nomatch Option.some.inj hb
    · rw [hv] at hb
      refine ⟨i, hi, hstop, ?_, ?_, Option.some.inj (Option.some.inj hb)⟩
      · intro j hj
        rcases Nat.lt_or_eq_of_le hj with hlt | rfl
        · exact ((h.pass_iff (Nat.lt_trans hlt hi)).mp (hpass j hlt)).1
        · exact hfail
      · intro j hj
        exact ((h.pass_iff (Nat.lt_trans hj hi)).mp (hpass j hj)).2
  · rintro ⟨i, hi, hstop, hfail, hbefore, rfl⟩
    refine ⟨i, hi, ?_, ?_⟩
    · intro j hj
      exact (h.pass_iff (Nat.lt_trans hj hi)).mpr ⟨hfail j (Nat.le_of_lt hj), hbefore j hj⟩
    · rcases h i hi with ⟨hno, -⟩ | ⟨-, hno, -⟩ | ⟨-, -, hv⟩
      · exact absurd hno (hfail i (Nat.le_refl i))
      · exact absurd hstop hno
      · exact hv

end Visits

end LiveSurface
