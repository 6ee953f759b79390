import Mathlib.Data.List.Forall2

/-!
# Mapping a function that may raise

A function that may raise is mapped over a list from the left; the first error
ends the map.

Main results:

- Theorem {lit}`forall₂_of_mapM`: a map that raised nothing gives one result for each
  element.
- Theorem {lit}`mapM_eq_map`: a function that raises nowhere is mapped as usual.
- Theorem {lit}`mapM_congr`: the map depends on the function at the elements only.
-/

namespace LiveSurface

variable {ε α β : Type}

theorem map_eq_ok_iff {f : α → β} {m : Except ε α} {b : β} :
    m.map f = .ok b ↔ ∃ a, m = .ok a ∧ f a = b := by
  cases m with
  | error e => exact iff_of_false (fun h => nomatch h) fun ⟨_, h, _⟩ => nomatch h
  | ok a =>
      constructor
      · intro h
        exact ⟨a, rfl, Except.ok.inj h⟩
      · rintro ⟨a', h, rfl⟩
        rw [← Except.ok.inj h]
        rfl

theorem bind_eq_ok_iff {m : Except ε α} {f : α → Except ε β} {b : β} :
    m >>= f = .ok b ↔ ∃ a, m = .ok a ∧ f a = .ok b := by
  cases m with
  | error e => exact iff_of_false (fun h => nomatch h) fun ⟨_, h, _⟩ => nomatch h
  | ok a =>
      constructor
      · intro h
        exact ⟨a, rfl, h⟩
      · rintro ⟨a', h, hf⟩
        obtain rfl := Except.ok.inj h
        exact hf

theorem exists_right_of_forall₂ {R : α → β → Prop} {xs : List α} {ys : List β}
    (h : List.Forall₂ R xs ys) {x : α} (hx : x ∈ xs) : ∃ y ∈ ys, R x y := by
  induction h with
  | nil => exact absurd hx List.not_mem_nil
  | cons hR _ ih =>
      rcases List.mem_cons.mp hx with rfl | hx
      · exact ⟨_, List.mem_cons_self, hR⟩
      · obtain ⟨y, hy, hxy⟩ := ih hx
        exact ⟨y, List.mem_cons_of_mem _ hy, hxy⟩

theorem exists_left_of_forall₂ {R : α → β → Prop} {xs : List α} {ys : List β}
    (h : List.Forall₂ R xs ys) {y : β} (hy : y ∈ ys) : ∃ x ∈ xs, R x y :=
  exists_right_of_forall₂ h.flip hy

/-- What is known of the result that was returned. -/
theorem exists_ok_of_toOption {m : Except ε α} {f : α → β} {b : β}
    (h : m.toOption.map f = some b) : ∃ a, m = .ok a ∧ f a = b := by
  cases m with
  | error e => contradiction
  | ok a => exact ⟨a, rfl, Option.some.inj h⟩

/-- Lists that are related to one list are related to each other. -/
theorem forall₂_of_common {γ : Type} {R : α → γ → Prop} {S : β → γ → Prop} {T : α → β → Prop}
    {xs : List α} {ys : List β} {zs : List γ} (hx : List.Forall₂ R xs zs) (hy : List.Forall₂ S ys zs)
    (h : ∀ x y z, R x z → S y z → T x y) : List.Forall₂ T xs ys := by
  induction hx generalizing ys with
  | nil =>
      cases hy
      exact .nil
  | cons hR _ ih =>
      cases hy with
      | cons hS hrest => exact .cons (h _ _ _ hR hS) (ih hrest)

/-- The first element of a map, and the rest. -/
theorem mapM_cons_ok {f : α → Except ε β} {a : α} {rest : List α} {ys : List β}
    (h : (a :: rest).mapM f = .ok ys) :
    ∃ b tail, f a = .ok b ∧ rest.mapM f = .ok tail ∧ ys = b :: tail := by
  rw [List.mapM_cons] at h
  cases hfirst : f a with
  | error e =>
      rw [hfirst] at h
      contradiction
  | ok b =>
      cases hrest : rest.mapM f with
      | error e =>
          simp only [hfirst, hrest, bind, Except.bind] at h
          contradiction
      | ok tail =>
          simp only [hfirst, hrest, bind, Except.bind] at h
          cases h
          exact ⟨b, tail, rfl, rfl, rfl⟩

/-- A map that raised nothing gives one result for each element. -/
theorem forall₂_of_mapM {f : α → Except ε β} {xs : List α} {ys : List β}
    (h : xs.mapM f = .ok ys) : List.Forall₂ (fun x y => f x = .ok y) xs ys := by
  induction xs generalizing ys with
  | nil =>
      cases h
      exact .nil
  | cons a rest ih =>
      obtain ⟨b, tail, hfirst, hrest, rfl⟩ := mapM_cons_ok h
      exact .cons hfirst (ih hrest)

/-- A map that can raise nothing. -/
theorem exists_mapM_ok {f : α → Except ε β} {R : α → β → Prop} {xs : List α}
    (h : ∀ a ∈ xs, ∃ b, f a = .ok b ∧ R a b) : ∃ ys, xs.mapM f = .ok ys ∧ List.Forall₂ R xs ys := by
  induction xs with
  | nil => exact ⟨[], rfl, .nil⟩
  | cons a rest ih =>
      rw [List.forall_mem_cons] at h
      obtain ⟨b, hb, hR⟩ := h.1
      obtain ⟨ys, hys, hrest⟩ := ih h.2
      exact ⟨b :: ys, by rw [List.mapM_cons, hb, hys]; rfl, .cons hR hrest⟩

/-- Each result is the result of one element. -/
theorem exists_of_mapM_getElem? {f : α → Except ε β} {xs : List α} {ys : List β} {i : Nat} {b : β}
    (h : xs.mapM f = .ok ys) (hb : ys[i]? = some b) : ∃ a, xs[i]? = some a ∧ f a = .ok b := by
  induction xs generalizing ys i with
  | nil =>
      cases h
      simp at hb
  | cons a rest ih =>
      obtain ⟨first, tail, hfirst, hrest, rfl⟩ := mapM_cons_ok h
      cases i with
      | zero =>
          cases Option.some.inj hb
          exact ⟨a, rfl, hfirst⟩
      | succ i => exact ih hrest hb

/-- A function that raises nowhere is mapped as usual. -/
theorem mapM_eq_map {f : α → Except ε β} {g : α → β} {xs : List α}
    (h : ∀ a ∈ xs, f a = .ok (g a)) : xs.mapM f = .ok (xs.map g) := by
  induction xs with
  | nil => rfl
  | cons a rest ih =>
      rw [List.forall_mem_cons] at h
      rw [List.mapM_cons, h.1, ih h.2]
      rfl

/-- The map depends on the function at the elements only. -/
theorem mapM_congr {f g : α → Except ε β} {xs : List α} (h : ∀ a ∈ xs, f a = g a) :
    xs.mapM f = xs.mapM g := by
  induction xs with
  | nil => rfl
  | cons a rest ih =>
      rw [List.forall_mem_cons] at h
      rw [List.mapM_cons, List.mapM_cons, h.1, ih h.2]

end LiveSurface
