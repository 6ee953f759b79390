import LiveSurface.Library.Decide
import Mathlib.Data.List.Basic

/-!
# Files of lines

A text is read line by line; a line ends at a line feed, at a carriage return or at both, and the
last one at the end of the text.

Main results:

- Theorem {lit}`textLines_written`: lines that were written one after the other are read back.
- Theorem {lit}`findSome?_eq_of_unique`: what only one line says is found.
-/

namespace LiveSurface
namespace Lines

/-- The lines of a text without their ends, with what of the line is before the cursor. -/
def textLines : (line : List Char) → List Char → List (List Char)
  | line, [] => if line = [] then [] else [line]
  | line, '\r' :: '\n' :: rest => line :: textLines [] rest
  | line, '\r' :: rest => line :: textLines [] rest
  | line, '\n' :: rest => line :: textLines [] rest
  | line, c :: rest => textLines (line ++ [c]) rest

/-- A text without ends of lines. -/
def OneLine (s : List Char) : Prop := '\n' ∉ s ∧ '\r' ∉ s

instance (s : List Char) : Decidable (OneLine s) := inferInstanceAs (Decidable (_ ∧ _))

theorem oneLine_append {a b : List Char} (ha : OneLine a) (hb : OneLine b) : OneLine (a ++ b) :=
  ⟨List.mem_append.not.mpr (not_or.mpr ⟨ha.1, hb.1⟩),
    List.mem_append.not.mpr (not_or.mpr ⟨ha.2, hb.2⟩)⟩

theorem oneLine_cons {c : Char} {s : List Char} (hc : c ≠ '\n' ∧ c ≠ '\r') (hs : OneLine s) :
    OneLine (c :: s) :=
  ⟨List.mem_cons.not.mpr (not_or.mpr ⟨hc.1.symm, hs.1⟩),
    List.mem_cons.not.mpr (not_or.mpr ⟨hc.2.symm, hs.2⟩)⟩

/-- A line is read up to its end. -/
theorem textLines_append {before line : List Char} (h : OneLine line) (rest : List Char) :
    textLines before (line ++ '\n' :: rest) = (before ++ line) :: textLines [] rest := by
  induction line generalizing before with
  | nil => rw [List.nil_append, textLines, List.append_nil]
  | cons c line ih =>
      have hc : c ≠ '\n' ∧ c ≠ '\r' :=
        ⟨fun he => h.1 (he ▸ List.mem_cons_self), fun he => h.2 (he ▸ List.mem_cons_self)⟩
      have hline : OneLine line :=
        ⟨fun hm => h.1 (List.mem_cons_of_mem _ hm), fun hm => h.2 (List.mem_cons_of_mem _ hm)⟩
      rw [List.cons_append, textLines, ih hline, List.append_assoc, List.singleton_append]
      · exact fun _ h _ => hc.2 h
      · exact hc.2
      · exact hc.1

/-- The text of some lines. -/
def written (lines : List (List Char)) : List Char := lines.flatMap (· ++ ['\n'])

/-- Lines that were written one after the other are read back. -/
theorem textLines_written {lines : List (List Char)} (h : ∀ line ∈ lines, OneLine line) :
    textLines [] (written lines) = lines := by
  induction lines with
  | nil => rfl
  | cons line rest ih =>
      rw [List.forall_mem_cons] at h
      rw [written, List.flatMap_cons, List.append_assoc, List.singleton_append,
        textLines_append h.1, List.nil_append]
      exact congrArg (line :: ·) (ih h.2)

/-- A function that finds one thing only in a list finds it. -/
theorem findSome?_eq_of_unique {α β : Type} {f : α → Option β} {l : List α} {a : α} {b : β}
    (hmem : a ∈ l) (hfound : f a = some b) (hother : ∀ c ∈ l, f c = none ∨ f c = some b) :
    l.findSome? f = some b := by
  induction l with
  | nil => exact absurd hmem List.not_mem_nil
  | cons c l ih =>
      rw [List.forall_mem_cons] at hother
      rcases hother.1 with hc | hc
      · rcases List.mem_cons.mp hmem with rfl | hmem
        · rw [hfound] at hc
          contradiction
        · rw [List.findSome?_cons, hc]
          exact ih hmem hother.2
      · rw [List.findSome?_cons, hc]

end Lines
end LiveSurface
