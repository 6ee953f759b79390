import LiveSurface.Library.Buffer

/-!
# Sequences of patches

Patches that are applied one after another leave at every position the byte of the last of them
that covers it.  Patches may overlap, and may cover a position several times; what they leave does
not depend on what was there, so that applying all of them again changes nothing.

Main results:

- Theorem {lit}`getElem?_patchAll`: the bytes that a sequence of patches leaves.
- Theorem {lit}`patchAll_twice`: a sequence of patches is idempotent.
- Theorem {lit}`patchAll_window`: a patch that no later one overlaps is left as it is.
- Theorem {lit}`kept_patchAll`: what no patch covers is kept.
-/

namespace LiveSurface

/-- Bytes for a position. -/
abbrev Patch := Nat × List UInt8

def Patch.Covers (w : Patch) (i : Nat) : Prop := w.1 ≤ i ∧ i < w.1 + w.2.length

instance (w : Patch) (i : Nat) : Decidable (w.Covers i) := inferInstanceAs (Decidable (_ ∧ _))

/-- No position is in both. -/
def Patch.Apart (w w' : Patch) : Prop := ∀ i, w.Covers i → ¬w'.Covers i

/-- Apply patches, the first one first. -/
def patchAll (m : Buffer) (ws : List Patch) : Buffer :=
  ws.foldl (fun m w => patched m w.1 w.2) m

/-- Every patch lies in a buffer of a length. -/
def Fits (ws : List Patch) (length : Nat) : Prop := ∀ w ∈ ws, w.1 + w.2.length ≤ length

/-- The byte of the last patch that covers a position. -/
def lastWritten : List Patch → Nat → Option UInt8
  | [], _ => none
  | w :: ws, i => (lastWritten ws i).or (if w.Covers i then w.2[i - w.1]? else none)

section Patches

variable {m : Buffer} {ws : List Patch} {i : Nat}

theorem Patch.Covers.getElem? {w : Patch} (h : w.Covers i) : ∃ b, w.2[i - w.1]? = some b := by
  obtain ⟨hlo, hhi⟩ := h
  exact ⟨_, List.getElem?_eq_getElem (by omega)⟩

theorem lastWritten_eq_none_iff : lastWritten ws i = none ↔ ∀ w ∈ ws, ¬w.Covers i := by
  induction ws with
  | nil => simp [lastWritten]
  | cons w ws ih =>
      rw [lastWritten, Option.or_eq_none_iff, ih, List.forall_mem_cons, and_comm]
      apply and_congr_left
      intro _
      by_cases hcovers : w.Covers i
      · obtain ⟨b, hb⟩ := hcovers.getElem?
        simp [hcovers, hb]
      · simp [hcovers]

theorem length_patchAll (h : Fits ws m.length) : (patchAll m ws).length = m.length := by
  induction ws generalizing m with
  | nil => rfl
  | cons w ws ih =>
      have hlen : (patched m w.1 w.2).length = m.length :=
        length_patched (h w List.mem_cons_self)
      have hrest : Fits ws (patched m w.1 w.2).length := by
        rw [hlen]
        exact fun w' hw' => h w' (List.mem_cons_of_mem w hw')
      exact (ih hrest).trans hlen

/-- The last patch that covers a position decides. -/
theorem getElem?_patchAll (h : Fits ws m.length) :
    (patchAll m ws)[i]? = (lastWritten ws i).or m[i]? := by
  induction ws generalizing m with
  | nil => rfl
  | cons w ws ih =>
      have hw := h w List.mem_cons_self
      have hrest : Fits ws (patched m w.1 w.2).length := by
        rw [length_patched hw]
        exact fun w' hw' => h w' (List.mem_cons_of_mem w hw')
      change (patchAll (patched m w.1 w.2) ws)[i]? = _
      rw [ih hrest, lastWritten, Option.or_assoc, getElem?_patched hw]
      congr 1
      by_cases hcovers : w.Covers i
      · obtain ⟨b, hb⟩ := hcovers.getElem?
        rw [if_pos (show w.1 ≤ i ∧ i < w.1 + w.2.length from hcovers), if_pos hcovers, hb]
        rfl
      · rw [if_neg (show ¬(w.1 ≤ i ∧ i < w.1 + w.2.length) from hcovers), if_neg hcovers]
        rfl

theorem patchAll_twice (h : Fits ws m.length) : patchAll (patchAll m ws) ws = patchAll m ws := by
  apply List.ext_getElem?
  intro i
  rw [getElem?_patchAll (by rw [length_patchAll h]; exact h), getElem?_patchAll h]
  cases lastWritten ws i with
  | none => rfl
  | some b => rfl

theorem lastWritten_append (ws ws' : List Patch) :
    lastWritten (ws ++ ws') i = (lastWritten ws' i).or (lastWritten ws i) := by
  induction ws with
  | nil => rw [List.nil_append, lastWritten, Option.or_none]
  | cons w ws ih => rw [List.cons_append, lastWritten, ih, Option.or_assoc, lastWritten]

/-- A patch that no later one overlaps is left as it is. -/
theorem patchAll_window {before after : List Patch} {w : Patch}
    (h : Fits (before ++ w :: after) m.length) (hlast : ∀ w' ∈ after, w.Apart w') :
    ((patchAll m (before ++ w :: after)).drop w.1).take w.2.length = w.2 := by
  apply List.ext_getElem?
  intro k
  rw [List.getElem?_take]
  split
  · rename_i hk
    have hcovers : w.Covers (w.1 + k) := ⟨by omega, by omega⟩
    have hafter : lastWritten after (w.1 + k) = none :=
      lastWritten_eq_none_iff.mpr fun w' hw' => hlast w' hw' _ hcovers
    rw [List.getElem?_drop, getElem?_patchAll h, lastWritten_append, lastWritten, hafter,
      if_pos hcovers, Nat.add_sub_cancel_left, List.getElem?_eq_getElem hk]
    rfl
  · rename_i hk
    rw [List.getElem?_eq_none (Nat.le_of_not_lt hk)]

theorem kept_patchAll {P : Nat → Prop} (h : Fits ws m.length)
    (hP : ∀ w ∈ ws, ∀ i, w.Covers i → ¬P i) : Kept P m (patchAll m ws) := by
  refine ⟨length_patchAll h, ?_⟩
  intro i hi
  rw [getElem?_patchAll h, lastWritten_eq_none_iff.mpr fun w hw hcovers => hP w hw i hcovers hi]
  rfl

end Patches

end LiveSurface
