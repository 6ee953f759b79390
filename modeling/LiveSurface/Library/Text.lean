import LiveSurface.Library.Decide
import Mathlib.Data.List.Infix
import Mathlib.Data.List.TakeDrop
import Mathlib.Data.List.TakeWhile

/-!
# Texts of tools

What a script does with the text that a tool prints: it takes lines and fields apart, strips white
space and reads hexadecimal numbers.

Main results:

- Theorem {lit}`splitLines_lines`: a text of lines is taken apart again.
- Theorem {lit}`fields_words`: so are words with blanks between them.
- Theorem {lit}`splitOnce_strip`: the first word of a line, and the rest.
- Theorem {lit}`hexNat_toDigits`: a number that was printed is read back.
-/

namespace LiveSurface
namespace Text

/-! ## White space and lines -/

/-- {lit}`str.isspace`, for one character. -/
def space (c : Char) : Bool :=
  c ∈ ['\t', '\n', '\x0b', '\x0c', '\r', '\x1c', '\x1d', '\x1e', '\x1f', ' ', '\u0085', '\u00a0',
    '\u1680', '\u2000', '\u2001', '\u2002', '\u2003', '\u2004', '\u2005', '\u2006', '\u2007',
    '\u2008', '\u2009', '\u200a', '\u2028', '\u2029', '\u202f', '\u205f', '\u3000']

/-- What ends a line for {lit}`str.splitlines`. -/
def lineEnd (c : Char) : Bool :=
  c ∈ ['\n', '\r', '\x0b', '\x0c', '\x1c', '\x1d', '\x1e', '\u0085', '\u2028', '\u2029']

/-- {lit}`str.splitlines`, with what of the line is before the cursor. -/
def splitLines : (line : List Char) → List Char → List (List Char)
  | line, [] => if line = [] then [] else [line]
  | line, '\r' :: '\n' :: rest => line :: splitLines [] rest
  | line, c :: rest => if lineEnd c then line :: splitLines [] rest else splitLines (line ++ [c]) rest

/-- A line is read up to its end. -/
theorem splitLines_append {before line : List Char} (h : ∀ c ∈ line, lineEnd c = false)
    (rest : List Char) :
    splitLines before (line ++ '\n' :: rest) = (before ++ line) :: splitLines [] rest := by
  induction line generalizing before with
  | nil =>
      rw [List.nil_append, splitLines, List.append_nil, if_pos (by decide)]
      simp
  | cons c line ih =>
      rw [List.forall_mem_cons] at h
      rw [List.cons_append, splitLines, if_neg (by rw [h.1]; exact Bool.false_ne_true), ih h.2,
        List.append_assoc, List.singleton_append]
      rintro _ rfl
      exact absurd h.1 (by decide)

/-- A text of lines is taken apart again. -/
theorem splitLines_lines {lines : List (List Char)}
    (h : ∀ line ∈ lines, ∀ c ∈ line, lineEnd c = false) :
    splitLines [] (lines.flatMap (· ++ ['\n'])) = lines := by
  induction lines with
  | nil => rfl
  | cons line rest ih =>
      rw [List.forall_mem_cons] at h
      rw [List.flatMap_cons, List.append_assoc, List.singleton_append, splitLines_append h.1,
        List.nil_append, ih h.2]

/-! ## Words -/

/-- {lit}`str.strip`. -/
def strip (s : List Char) : List Char := ((s.dropWhile space).reverse.dropWhile space).reverse

/-- {lit}`str.split`. -/
def fields (s : List Char) : List (List Char) := (s.splitOnP space).filter (· ≠ [])

/-- {lit}`str.split(None, 1)`: the first field and what is behind the white space after it. -/
def splitOnce (s : List Char) : List (List Char) :=
  match s.dropWhile space with
  | [] => []
  | c :: rest =>
      match ((c :: rest).dropWhile (!space ·)).dropWhile space with
      | [] => [(c :: rest).takeWhile (!space ·)]
      | d :: more => [(c :: rest).takeWhile (!space ·), d :: more]

def IsWord (w : List Char) : Prop := w ≠ [] ∧ ∀ c ∈ w, space c = false

instance (w : List Char) : Decidable (IsWord w) := inferInstanceAs (Decidable (_ ∧ _))

/-- A text that neither begins nor ends with white space. -/
def Trimmed (s : List Char) : Prop :=
  (∀ c ∈ s.head?, space c = false) ∧ ∀ c ∈ s.getLast?, space c = false

instance (s : List Char) : Decidable (Trimmed s) := inferInstanceAs (Decidable (_ ∧ _))

def blanks (n : Nat) : List Char := List.replicate n ' '

theorem space_of_mem_blanks {n : Nat} {c : Char} (h : c ∈ blanks n) : space c = true := by
  rw [List.eq_of_mem_replicate h]
  decide

theorem dropWhile_blanks (n : Nat) (s : List Char) :
    (blanks n ++ s).dropWhile space = s.dropWhile space :=
  List.dropWhile_append_of_pos fun _ hc => space_of_mem_blanks hc

theorem takeWhile_word {w : List Char} (h : IsWord w) (c : Char) (rest : List Char)
    (hc : space c = true) : (w ++ c :: rest).takeWhile (!space ·) = w := by
  rw [List.takeWhile_append_of_pos, List.takeWhile_cons_of_neg, List.append_nil]
  · simp [hc]
  · exact fun d hd => by rw [h.2 d hd]; rfl

theorem dropWhile_word {w : List Char} (h : IsWord w) (c : Char) (rest : List Char)
    (hc : space c = true) : (w ++ c :: rest).dropWhile (!space ·) = c :: rest := by
  rw [List.dropWhile_append_of_pos, List.dropWhile_cons_of_neg]
  · simp [hc]
  · exact fun d hd => by rw [h.2 d hd]; rfl

theorem dropWhile_eq_self {s : List Char} (h : ∀ c ∈ s.head?, space c = false) :
    s.dropWhile space = s := by
  cases s with
  | nil => rfl
  | cons c rest => rw [List.dropWhile_cons_of_neg (by rw [h c rfl]; exact Bool.false_ne_true)]

/-- White space behind a text is stripped. -/
theorem strip_append_blanks {s : List Char} (h : Trimmed s) (n : Nat) :
    strip (s ++ blanks n) = s := by
  cases s with
  | nil =>
      have hnil : (blanks n).dropWhile space = [] := by
        rw [← List.append_nil (blanks n), dropWhile_blanks, List.dropWhile_nil]
      rw [strip, List.nil_append, hnil]
      rfl
  | cons c rest =>
      have hback : (blanks n).reverse = blanks n := List.reverse_replicate ..
      have hlast : ∀ d ∈ (c :: rest).reverse.head?, space d = false := by
        rw [List.head?_reverse]
        exact h.2
      have hfront : (c :: rest ++ blanks n).dropWhile space = c :: rest ++ blanks n :=
        dropWhile_eq_self h.1
      rw [strip, hfront, List.reverse_append, hback,
        dropWhile_blanks, dropWhile_eq_self hlast, List.reverse_reverse]

theorem isWord_head {w rest : List Char} (h : IsWord w) :
    ∀ c ∈ (w ++ rest).head?, space c = false := by
  obtain ⟨c, w, rfl⟩ := List.exists_cons_of_ne_nil h.1
  rintro d ⟨⟩
  exact h.2 c List.mem_cons_self

/-- A word alone. -/
theorem splitOnce_word {w : List Char} (h : IsWord w) : splitOnce w = [w] := by
  have htake : w.takeWhile (!space ·) = w :=
    List.takeWhile_eq_self_iff.mpr fun d hd => by rw [h.2 d hd]; rfl
  have hdrop : w.dropWhile (!space ·) = [] :=
    List.dropWhile_eq_nil_iff.mpr fun d hd => by rw [h.2 d hd]; rfl
  have hself : w.dropWhile space = w :=
    dropWhile_eq_self fun c hc => h.2 c (List.mem_of_head? hc)
  obtain ⟨c, w', rfl⟩ := List.exists_cons_of_ne_nil h.1
  rw [splitOnce, hself]
  simp only [hdrop, List.dropWhile_nil, htake]

/-- A word, blanks and something else. -/
theorem splitOnce_append {w more : List Char} (h : IsWord w) (n : Nat) (hmore : more ≠ [])
    (hhead : ∀ c ∈ more.head?, space c = false) :
    splitOnce (w ++ blanks (n + 1) ++ more) = [w, more] := by
  have hcons : w ++ blanks (n + 1) ++ more = w ++ ' ' :: (blanks n ++ more) := by
    rw [List.append_assoc]
    rfl
  have htake := takeWhile_word h ' ' (blanks n ++ more) (by decide)
  have hdrop := dropWhile_word h ' ' (blanks n ++ more) (by decide)
  have hself : (w ++ ' ' :: (blanks n ++ more)).dropWhile space = w ++ ' ' :: (blanks n ++ more) :=
    dropWhile_eq_self (isWord_head h)
  have hmoreSelf : (' ' :: (blanks n ++ more)).dropWhile space = more := by
    rw [show ' ' :: (blanks n ++ more) = blanks (n + 1) ++ more from rfl, dropWhile_blanks,
      dropWhile_eq_self hhead]
  obtain ⟨d, more', rfl⟩ := List.exists_cons_of_ne_nil hmore
  obtain ⟨c, w', rfl⟩ := List.exists_cons_of_ne_nil h.1
  rw [hcons, splitOnce, hself]
  simp only [List.cons_append] at htake hdrop ⊢
  simp only [htake, hdrop, hmoreSelf]

/-- Words with blanks behind them are taken apart again. -/
theorem fields_words {words : List (List Char)} (h : ∀ w ∈ words, IsWord w) (n : Nat) :
    fields (words.flatMap (· ++ [' ']) ++ blanks n) = words := by
  induction words with
  | nil =>
      rw [List.flatMap_nil, List.nil_append, fields]
      induction n with
      | zero => rfl
      | succ n ih =>
          rw [show blanks (n + 1) = [] ++ ' ' :: blanks n from rfl,
            List.splitOnP_append_cons _ _ (by decide : space ' ' = true), List.splitOnP_nil,
            List.singleton_append, List.filter_cons_of_neg (by simp), ih]
  | cons w rest ih =>
      rw [List.forall_mem_cons] at h
      have htail := ih h.2
      rw [fields] at htail
      rw [List.flatMap_cons, List.append_assoc, List.append_assoc, List.singleton_append, fields,
        List.splitOnP_append_cons_of_forall_mem h.1.2 ' ' (by decide),
        List.filter_cons_of_pos (by simpa using h.1.1), htail]

/-! ## Hexadecimal numbers -/

/-- {lit}`[0-9a-f]`. -/
def hexChar (c : Char) : Bool := ('0' ≤ c && c ≤ '9') || ('a' ≤ c && c ≤ 'f')

def hexValue (c : Char) : Nat := if c ≤ '9' then c.toNat - 48 else c.toNat - 87

/-- {lit}`int(s, 16)`, of digits alone. -/
def hexNat (s : List Char) : Nat := s.foldl (fun n c => 16 * n + hexValue c) 0

/-- The digits at the front, and the rest. -/
def hexRun (s : List Char) : List Char × List Char := s.span hexChar

/-- A run of digits is read up to its end. -/
theorem hexRun_append {digits : List Char} (h : ∀ c ∈ digits, hexChar c = true) {c : Char}
    (hc : hexChar c = false) (rest : List Char) :
    hexRun (digits ++ c :: rest) = (digits, c :: rest) := by
  have hneg : ¬hexChar c = true := by rw [hc]; exact Bool.false_ne_true
  rw [hexRun, List.span_eq_takeWhile_dropWhile, List.takeWhile_append_of_pos h,
    List.dropWhile_append_of_pos h, List.takeWhile_cons_of_neg hneg,
    List.dropWhile_cons_of_neg hneg, List.append_nil]

theorem digitChar_spec {d : Nat} (h : d < 16) :
    hexChar d.digitChar = true ∧ hexValue d.digitChar = d := by
  revert d
  decide

theorem hexNat_append (s : List Char) (c : Char) : hexNat (s ++ [c]) = 16 * hexNat s + hexValue c := by
  rw [hexNat, List.foldl_append]
  rfl

/-- A number that was printed is read back. -/
theorem hexNat_toDigits (n : Nat) :
    hexNat (Nat.toDigits 16 n) = n ∧ ∀ c ∈ Nat.toDigits 16 n, hexChar c = true := by
  induction n using Nat.strongRecOn with
  | ind n ih =>
      by_cases hn : n < 16
      · rw [Nat.toDigits_of_lt_base hn]
        obtain ⟨hchar, hvalue⟩ := digitChar_spec hn
        refine ⟨?_, List.forall_mem_singleton.mpr hchar⟩
        rw [← List.nil_append [n.digitChar], hexNat_append, hvalue]
        exact Nat.zero_add n
      · obtain ⟨hread, hchars⟩ := ih (n / 16) (by omega)
        obtain ⟨hchar, hvalue⟩ := digitChar_spec (Nat.mod_lt n (show 0 < 16 by omega))
        rw [Nat.toDigits_of_base_le (by omega) (by omega), hexNat_append, hread, hvalue]
        refine ⟨by omega, ?_⟩
        rw [List.forall_mem_append]
        exact ⟨hchars, List.forall_mem_singleton.mpr hchar⟩

end Text
end LiveSurface
