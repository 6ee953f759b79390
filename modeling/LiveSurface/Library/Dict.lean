import Mathlib.Data.List.Nodup
import Mathlib.Algebra.BigOperators.Group.List.Basic
import Mathlib.Algebra.GroupWithZero.Nat

/-!
# Ordered dictionaries

A dictionary keeps its entries in the order their keys were inserted.  Setting a
key that is there replaces its value in place; setting another one appends an
entry.  The keys of a dictionary are distinct by construction.

Main results:

- Theorem {lit}`Dict.get?_set` and theorem {lit}`Dict.get?_erase`: lookup after an
  update.
- Theorem {lit}`Dict.total_set` and theorem {lit}`Dict.total_erase`: how an update
  changes a sum over the values.
-/

namespace LiveSurface

/-- A dictionary in the order of insertion. -/
structure Dict (α β : Type) where
  entries : List (α × β)
  nodup : (entries.map Prod.fst).Nodup

namespace Dict

variable {α β : Type} [DecidableEq α]

/-- The empty dictionary. -/
def empty : Dict α β where
  entries := []
  nodup := List.nodup_nil

/-- The value of a key. -/
def get? (d : Dict α β) (k : α) : Option β :=
  (d.entries.find? fun entry => entry.1 = k).map Prod.snd

/-- The number of keys. -/
def size (d : Dict α β) : Nat := d.entries.length

theorem get?_eq_some_iff {d : Dict α β} {k : α} {v : β} :
    d.get? k = some v ↔ (k, v) ∈ d.entries := by
  unfold get?
  constructor
  · intro h
    obtain ⟨entry, hfind, rfl⟩ := Option.map_eq_some_iff.mp h
    have hkey : entry.1 = k := by simpa using List.find?_some hfind
    rw [← hkey]
    exact List.mem_of_find?_eq_some hfind
  · intro h
    cases hfind : d.entries.find? fun entry => entry.1 = k with
    | none =>
        rw [List.find?_eq_none] at hfind
        simpa using hfind _ h
    | some entry =>
        have hkey : entry.1 = k := by simpa using List.find?_some hfind
        have hmem := List.mem_of_find?_eq_some hfind
        have heq := List.inj_on_of_nodup_map d.nodup hmem h hkey
        rw [heq, Option.map_some]

theorem get?_eq_none_iff {d : Dict α β} {k : α} :
    d.get? k = none ↔ k ∉ d.entries.map Prod.fst := by
  unfold get?
  rw [Option.map_eq_none_iff, List.find?_eq_none]
  simp only [decide_eq_true_eq, List.mem_map, not_exists, not_and]

/-- Set the value of a key. -/
def set (d : Dict α β) (k : α) (v : β) : Dict α β :=
  if h : k ∈ d.entries.map Prod.fst then
    { entries := d.entries.map fun entry => if entry.1 = k then (k, v) else entry
      nodup := by
        have hkeys : (d.entries.map fun entry => if entry.1 = k then (k, v) else entry).map
            Prod.fst = d.entries.map Prod.fst := by
          rw [List.map_map]
          apply List.map_congr_left
          intro entry _
          by_cases hkey : entry.1 = k <;> simp [hkey]
        rw [hkeys]
        exact d.nodup }
  else
    { entries := d.entries ++ [(k, v)]
      nodup := by
        rw [List.map_append]
        exact List.nodup_append.mpr ⟨d.nodup, by simp, by
          rintro a ha b hb rfl
          simp only [List.map_cons, List.map_nil, List.mem_singleton] at hb
          exact h (hb ▸ ha)⟩ }

/-- Remove a key. -/
def erase (d : Dict α β) (k : α) : Dict α β where
  entries := d.entries.filter fun entry => entry.1 ≠ k
  nodup := d.nodup.sublist (List.filter_sublist.map Prod.fst)

@[simp]
theorem get?_empty (k : α) : (empty : Dict α β).get? k = none := rfl

theorem mem_set {d : Dict α β} {k : α} {v : β} {entry : α × β} :
    entry ∈ (d.set k v).entries ↔ entry = (k, v) ∨ (entry ∈ d.entries ∧ entry.1 ≠ k) := by
  unfold set
  split
  · rename_i hk
    simp only [List.mem_map]
    constructor
    · rintro ⟨e, he, rfl⟩
      by_cases hkey : e.1 = k
      · simp [hkey]
      · simp [hkey, he]
    · rintro (rfl | ⟨hmem, hkey⟩)
      · obtain ⟨e, he, hek⟩ := List.mem_map.mp hk
        exact ⟨e, he, by simp [hek]⟩
      · exact ⟨entry, hmem, by simp [hkey]⟩
  · rename_i hk
    simp only [List.mem_append, List.mem_singleton]
    constructor
    · rintro (hmem | rfl)
      · refine .inr ⟨hmem, ?_⟩
        rintro rfl
        exact hk (List.mem_map_of_mem hmem)
      · exact .inl rfl
    · rintro (rfl | ⟨hmem, _⟩)
      · exact .inr rfl
      · exact .inl hmem

theorem mem_erase {d : Dict α β} {k : α} {entry : α × β} :
    entry ∈ (d.erase k).entries ↔ entry ∈ d.entries ∧ entry.1 ≠ k := by
  simp [erase]

/-- Lookup after setting a key. -/
theorem get?_set (d : Dict α β) (k : α) (v : β) (k' : α) :
    (d.set k v).get? k' = if k' = k then some v else d.get? k' := by
  split
  · rename_i h
    rw [get?_eq_some_iff, mem_set]
    exact .inl (by rw [h])
  · rename_i h
    apply Option.ext
    intro w
    rw [get?_eq_some_iff, get?_eq_some_iff, mem_set]
    constructor
    · rintro (heq | ⟨hmem, _⟩)
      · exact absurd (congrArg Prod.fst heq) h
      · exact hmem
    · intro hmem
      exact .inr ⟨hmem, h⟩

@[simp]
theorem get?_set_self (d : Dict α β) (k : α) (v : β) : (d.set k v).get? k = some v := by
  rw [get?_set, if_pos rfl]

/-- Lookup after removing a key. -/
theorem get?_erase (d : Dict α β) (k k' : α) :
    (d.erase k).get? k' = if k' = k then none else d.get? k' := by
  split
  · rename_i h
    rw [get?_eq_none_iff, List.mem_map]
    rintro ⟨entry, hmem, hkey⟩
    exact (mem_erase.mp hmem).2 (hkey.trans h)
  · rename_i h
    apply Option.ext
    intro w
    rw [get?_eq_some_iff, get?_eq_some_iff, mem_erase]
    exact ⟨fun hmem => hmem.1, fun hmem => ⟨hmem, h⟩⟩

/-- Setting other keys leaves a key alone. -/
theorem get?_foldl_set_of_notMem {pairs : List (α × β)} {k : α} (h : k ∉ pairs.map Prod.fst)
    (d : Dict α β) : (pairs.foldl (fun d p => d.set p.1 p.2) d).get? k = d.get? k := by
  induction pairs generalizing d with
  | nil => rfl
  | cons p rest ih =>
      rw [List.map_cons, List.mem_cons, not_or] at h
      rw [List.foldl_cons, ih h.2, get?_set, if_neg h.1]

/-- Keys that are set once each have their values. -/
theorem get?_foldl_set_of_mem {pairs : List (α × β)} (hnodup : (pairs.map Prod.fst).Nodup)
    {k : α} {v : β} (h : (k, v) ∈ pairs) (d : Dict α β) :
    (pairs.foldl (fun d p => d.set p.1 p.2) d).get? k = some v := by
  induction pairs generalizing d with
  | nil => exact absurd h List.not_mem_nil
  | cons p rest ih =>
      rw [List.map_cons, List.nodup_cons] at hnodup
      rw [List.foldl_cons]
      rcases List.mem_cons.mp h with rfl | h
      · rw [get?_foldl_set_of_notMem hnodup.1, get?_set_self]
      · exact ih hnodup.2 h _

/-- The size after setting a key. -/
theorem size_set (d : Dict α β) (k : α) (v : β) :
    (d.set k v).size = if (d.get? k).isSome then d.size else d.size + 1 := by
  unfold set
  split
  · rename_i hk
    have hsome : (d.get? k).isSome := by
      rw [← Option.ne_none_iff_isSome]
      exact fun hnone => get?_eq_none_iff.mp hnone hk
    simp [size, hsome]
  · rename_i hk
    rw [get?_eq_none_iff.mpr hk]
    simp [size]

theorem size_erase_le (d : Dict α β) (k : α) : (d.erase k).size ≤ d.size :=
  List.length_filter_le _ _

/-! ## Sums over the values -/

/-- The sum of a measure of the values. -/
def total (d : Dict α β) (f : β → Nat) : Nat := (d.entries.map fun entry => f entry.2).sum

omit [DecidableEq α] in
@[simp]
theorem total_empty (f : β → Nat) : (empty : Dict α β).total f = 0 := rfl

/-- Filtering out a key that does not occur changes nothing. -/
theorem filter_key {entries : List (α × β)} {k : α} (h : k ∉ entries.map Prod.fst) :
    (entries.filter fun entry => entry.1 ≠ k) = entries := by
  rw [List.filter_eq_self]
  intro entry hmem
  simp only [ne_eq, decide_not, Bool.not_eq_eq_eq_not, Bool.not_true, decide_eq_false_iff_not]
  rintro rfl
  exact h (List.mem_map_of_mem hmem)

/-- Removing a key takes its value out of the sum. -/
theorem total_erase {d : Dict α β} {k : α} {v : β} (h : d.get? k = some v) (f : β → Nat) :
    d.total f = f v + (d.erase k).total f := by
  obtain ⟨before, after, hsplit⟩ := List.append_of_mem (get?_eq_some_iff.mp h)
  have hnodup := d.nodup
  rw [hsplit, List.map_append, List.map_cons, List.nodup_middle, List.nodup_cons,
    List.mem_append, not_or] at hnodup
  have hentries : (d.erase k).entries = before ++ after := by
    simp only [erase]
    rw [hsplit, List.filter_append, List.filter_cons_of_neg (by simp),
      filter_key hnodup.1.1, filter_key hnodup.1.2]
  rw [total, hsplit, total, hentries]
  simp only [List.map_append, List.map_cons, List.sum_append, List.sum_cons]
  omega

/-- Removing a key that does not occur changes nothing. -/
theorem erase_of_get?_eq_none {d : Dict α β} {k : α} (h : d.get? k = none) : d.erase k = d := by
  have hentries := filter_key (get?_eq_none_iff.mp h)
  cases d
  simp only [erase, Dict.mk.injEq]
  exact hentries

/-- Removing a key that occurs makes the dictionary smaller by one. -/
theorem size_erase {d : Dict α β} {k : α} {v : β} (h : d.get? k = some v) :
    (d.erase k).size + 1 = d.size := by
  have htotal := total_erase h fun _ => 1
  simp only [total, List.map_const', List.sum_replicate, Nat.nsmul_eq_mul,
    mul_one] at htotal
  simp only [size]
  omega

/-- Setting a key adds its value to the sum of the others. -/
theorem total_set (d : Dict α β) (k : α) (v : β) (f : β → Nat) :
    (d.set k v).total f = f v + (d.erase k).total f := by
  rw [total_erase (get?_set_self d k v) f]
  congr 1
  unfold set erase
  split
  · simp only [total]
    have hsame : ∀ entries : List (α × β),
        ((entries.map fun entry => if entry.1 = k then (k, v) else entry).filter
          fun entry => entry.1 ≠ k) = entries.filter fun entry => entry.1 ≠ k := by
      intro entries
      induction entries with
      | nil => rfl
      | cons entry rest ih =>
          by_cases hkey : entry.1 = k <;> simp_all
    rw [hsame]
  · simp [total]

end Dict
end LiveSurface
