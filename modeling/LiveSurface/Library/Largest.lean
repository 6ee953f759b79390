import LiveSurface.Library.Dict

/-!
# The largest value of a key

Values come one after the other, each under a key.  A dictionary keeps of each key the largest
value, and of several that are as large the first; a value of size zero is not kept.

Main results:

- Theorem {lit}`Dict.get?_foldl_keep`: what is kept, over a whole run.
- Theorems {lit}`Dict.SameFilled.keep` and {lit}`Dict.SameFilled.setDefault`: empty values that are
  there by default change nothing.
-/

namespace LiveSurface

/-- The first of the largest items of a key. -/
def Largest {α κ : Type} (key : α → κ) (size : α → Nat) (items : List α) (k : κ) (x : α) : Prop :=
  ∃ before after, items = before ++ x :: after ∧ key x = k ∧ 0 < size x ∧
    (∀ y ∈ before, key y = k → size y < size x) ∧ ∀ y ∈ after, key y = k → size y ≤ size x

namespace Largest

variable {α κ : Type} {key : α → κ} {size : α → Nat} {items : List α} {k : κ} {x y : α}

theorem mem (h : Largest key size items k x) : x ∈ items := by
  obtain ⟨before, after, rfl, _⟩ := h
  exact List.mem_append_right before List.mem_cons_self

theorem key_eq (h : Largest key size items k x) : key x = k := by
  obtain ⟨_, _, _, hkey, _⟩ := h
  exact hkey

theorem pos (h : Largest key size items k x) : 0 < size x := by
  obtain ⟨_, _, _, _, hpos, _⟩ := h
  exact hpos

theorem le (h : Largest key size items k x) (hy : y ∈ items) (hkey : key y = k) :
    size y ≤ size x := by
  obtain ⟨before, after, rfl, _, _, hbefore, hafter⟩ := h
  rcases List.mem_append.mp hy with hy | hy
  · exact Nat.le_of_lt (hbefore y hy hkey)
  · rcases List.mem_cons.mp hy with rfl | hy
    · exact Nat.le_refl _
    · exact hafter y hy hkey

/-- There is one first largest item. -/
theorem unique (hx : Largest key size items k x) (hy : Largest key size items k y) : x = y := by
  obtain ⟨before, after, rfl, hxkey, _, hbefore, hafter⟩ := hx
  obtain ⟨before', after', hsplit, hykey, _, hbefore', hafter'⟩ := hy
  rcases List.append_eq_append_iff.mp hsplit with ⟨between, hb, ha⟩ | ⟨between, hb, ha⟩
  · cases between with
    | nil => exact List.head_eq_of_cons_eq ha
    | cons z rest =>
        -- the one item stands before the other
        obtain ⟨rfl, rfl⟩ := List.cons_eq_cons.mp ha
        have hlt := hbefore' x (hb ▸ List.mem_append_right before List.mem_cons_self) hxkey
        have hle := hafter y (List.mem_append_right rest List.mem_cons_self) hykey
        omega
  · cases between with
    | nil => exact (List.head_eq_of_cons_eq ha).symm
    | cons z rest =>
        obtain ⟨rfl, rfl⟩ := List.cons_eq_cons.mp ha
        have hlt := hbefore y (hb ▸ List.mem_append_right before' List.mem_cons_self) hykey
        have hle := hafter' x (List.mem_append_right rest List.mem_cons_self) hxkey
        omega

/-- An item that is no larger, or of another key, changes nothing. -/
theorem snoc (h : Largest key size items k x) (hy : key y = k → size y ≤ size x) :
    Largest key size (items ++ [y]) k x := by
  obtain ⟨before, after, rfl, hkey, hpos, hbefore, hafter⟩ := h
  refine ⟨before, after ++ [y], by simp, hkey, hpos, hbefore, ?_⟩
  intro z hz
  rcases List.mem_append.mp hz with hz | hz
  · exact hafter z hz
  · rw [List.mem_singleton.mp hz]
    exact hy

/-- An item that is larger than all before it is the largest. -/
theorem last (hpos : 0 < size y) (h : ∀ z ∈ items, key z = key y → size z < size y) :
    Largest key size (items ++ [y]) (key y) y :=
  ⟨items, [], rfl, rfl, hpos, h, fun _ hz => absurd hz List.not_mem_nil⟩

end Largest

namespace Dict

variable {α β κ : Type} [DecidableEq κ]

/-- A value is larger than the one of a key, if it has one, and not empty. -/
def larger (size : β → Nat) (d : Dict κ β) (k : κ) (v : β) : Bool :=
  decide (0 < size v) && (d.get? k).all fun old => decide (size old < size v)

/-- Set the value of a key to a larger one. -/
def keep (size : β → Nat) (d : Dict κ β) (k : κ) (v : β) : Dict κ β :=
  if d.larger size k v then d.set k v else d

/-- Set the value of a key that has none. -/
def setDefault (d : Dict κ β) (k : κ) (v : β) : Dict κ β :=
  if (d.get? k).isSome then d else d.set k v

theorem larger_eq_true_iff {size : β → Nat} {d : Dict κ β} {k : κ} {v : β} :
    d.larger size k v = true ↔ 0 < size v ∧ ∀ old, d.get? k = some old → size old < size v := by
  rw [larger, Bool.and_eq_true, decide_eq_true_iff, Option.all_eq_true]
  simp only [decide_eq_true_eq]

theorem get?_keep (size : β → Nat) (d : Dict κ β) (k : κ) (v : β) (k' : κ) :
    (d.keep size k v).get? k' =
      if k' = k ∧ d.larger size k v = true then some v else d.get? k' := by
  unfold keep
  by_cases hlarger : d.larger size k v = true
  · rw [if_pos hlarger, get?_set]
    exact if_congr (and_iff_left hlarger).symm rfl rfl
  · rw [if_neg hlarger, if_neg fun h => hlarger h.2]

section Run

variable (key : α → κ) (value : α → β) (size : β → Nat)

/-- What a dictionary keeps of the items so far. -/
def Keeps (items : List α) (d : Dict κ β) : Prop := ∀ k,
  (d.get? k = none → ∀ x ∈ items, key x = k → size (value x) = 0) ∧
    ∀ v, d.get? k = some v → ∃ x, Largest key (fun x => size (value x)) items k x ∧ value x = v

theorem keeps_nil : Keeps key value size [] empty := by
  intro k
  exact ⟨fun _ x hx => absurd hx List.not_mem_nil, fun v hv => nomatch hv⟩

variable {key value size}

theorem Keeps.snoc {items : List α} {d : Dict κ β} (h : Keeps key value size items d) (y : α) :
    Keeps key value size (items ++ [y]) (d.keep size (key y) (value y)) := by
  intro k
  rw [get?_keep]
  by_cases hset : k = key y ∧ d.larger size (key y) (value y) = true
  · obtain ⟨rfl, hlarger⟩ := hset
    rw [larger_eq_true_iff] at hlarger
    rw [if_pos ⟨rfl, larger_eq_true_iff.mpr hlarger⟩]
    refine ⟨fun hnone => (nomatch hnone), ?_⟩
    intro v hv
    refine ⟨y, Largest.last hlarger.1 ?_, Option.some.inj hv⟩
    intro z hz hkey
    cases hold : d.get? (key y) with
    | none =>
        rw [(h _).1 hold z hz hkey]
        exact hlarger.1
    | some old =>
        obtain ⟨x, hx, rfl⟩ := (h _).2 old hold
        exact Nat.lt_of_le_of_lt (hx.le hz hkey) (hlarger.2 _ hold)
  · rw [if_neg hset]
    constructor
    · intro hnone x hx hkey
      rcases List.mem_append.mp hx with hx | hx
      · exact (h k).1 hnone x hx hkey
      · obtain rfl := List.mem_singleton.mp hx
        by_contra hpos
        apply hset
        refine ⟨hkey.symm, larger_eq_true_iff.mpr ⟨Nat.pos_of_ne_zero hpos, ?_⟩⟩
        intro old hold
        rw [hkey, hnone] at hold
        exact nomatch hold
    · intro v hv
      obtain ⟨x, hx, rfl⟩ := (h k).2 v hv
      refine ⟨x, hx.snoc ?_, rfl⟩
      intro hkey
      by_contra hlt
      apply hset
      refine ⟨hkey.symm, larger_eq_true_iff.mpr ⟨by omega, ?_⟩⟩
      intro old hold
      rw [hkey, hv] at hold
      rw [← Option.some.inj hold]
      omega

theorem Keeps.foldl {items : List α} {d : Dict κ β} (h : Keeps key value size items d)
    (rest : List α) :
    Keeps key value size (items ++ rest)
      (rest.foldl (fun d x => d.keep size (key x) (value x)) d) := by
  induction rest generalizing items d with
  | nil => rwa [List.append_nil]
  | cons y rest ih =>
      rw [List.foldl_cons, List.append_cons]
      exact ih (h.snoc y)

/-- What is kept of a key is the first of its largest values. -/
theorem get?_foldl_keep {items : List α} {k : κ} {v : β} :
    (items.foldl (fun d x => d.keep size (key x) (value x)) empty).get? k = some v ↔
      ∃ x, Largest key (fun x => size (value x)) items k x ∧ value x = v := by
  have hkeeps := (keeps_nil key value size).foldl items k
  rw [List.nil_append] at hkeeps
  constructor
  · exact hkeeps.2 v
  · rintro ⟨x, hx, rfl⟩
    cases hget : (items.foldl (fun d x => d.keep size (key x) (value x)) empty).get? k with
    | none =>
        exact absurd (hkeeps.1 hget x hx.mem hx.key_eq) (Nat.ne_of_gt hx.pos)
    | some w =>
        obtain ⟨x', hx', rfl⟩ := hkeeps.2 w hget
        rw [hx.unique hx']

end Run

/-! ## Values that are there by default -/

section Default

variable {size : β → Nat} {d d' : Dict κ β}

/-- Two dictionaries have the same values, up to empty ones. -/
def SameFilled (size : β → Nat) (d d' : Dict κ β) : Prop :=
  ∀ k, (d.get? k).filter (fun v => decide (0 < size v)) = d'.get? k

theorem SameFilled.larger (h : SameFilled size d d') (k : κ) (v : β) :
    d.larger size k v = d'.larger size k v := by
  rw [Bool.eq_iff_iff, larger_eq_true_iff, larger_eq_true_iff]
  refine and_congr_right fun hpos => ?_
  rw [← h k]
  constructor
  · intro hall old hold
    exact hall old (Option.filter_eq_some_iff.mp hold).1
  · intro hall old hold
    by_cases hold' : 0 < size old
    · exact hall old (Option.filter_eq_some_iff.mpr ⟨hold, decide_eq_true hold'⟩)
    · omega

theorem SameFilled.keep (h : SameFilled size d d') (k : κ) (v : β) :
    SameFilled size (d.keep size k v) (d'.keep size k v) := by
  intro k'
  rw [get?_keep, get?_keep, ← h.larger k v]
  split
  · rename_i hset
    exact Option.filter_some_pos (decide_eq_true (larger_eq_true_iff.mp hset.2).1)
  · exact h k'

theorem SameFilled.setDefault (h : SameFilled size d d') (k : κ) {v : β} (hv : size v = 0) :
    SameFilled size (d.setDefault k v) d' := by
  intro k'
  unfold Dict.setDefault
  split
  · exact h k'
  · rename_i hnone
    rw [get?_set]
    split
    · rename_i heq
      rw [← h k', heq, Option.not_isSome_iff_eq_none.mp hnone, Option.filter_none]
      exact Option.filter_some_neg (by rw [hv]; decide)
    · exact h k'

end Default

end Dict
end LiveSurface
