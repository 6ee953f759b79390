import LiveSurface.Library.Text

/-!
# Disassembly as a text

{lit}`objdump -d` prints one instruction after the other: its address, at most seven of its bytes,
and its words.  The bytes that are left of a longer one follow in lines of their own, which have
addresses too and no words.  The script that looks for functions a hook can displace takes the lines
apart with a regular expression.

Main results:

- Theorem {lit}`inRe_printed`: the expression finds the parts of a printed line.
- Theorem {lit}`instructionLines_text`: what is read of a listing.
-/

namespace LiveSurface
namespace Displacement

open Text

/-! ## What the script reads -/

/-- {lit}`^\s+([0-9a-f]+):\t([0-9a-f ]+)\t?(.*)$`. -/
def inRe (line : List Char) : Option (List Char × List Char × List Char) :=
  let (address, rest) := hexRun (line.dropWhile space)
  if line.takeWhile space ≠ [] ∧ address ≠ [] ∧ [':', '\t'] <+: rest then
    let (bytes, tail) := (rest.drop 2).span fun c => hexChar c || c = ' '
    if bytes ≠ [] then
      some (address, bytes, if tail.head? = some '\t' then tail.drop 1 else tail)
    else none
  else none

/-- An instruction as the script keeps it. -/
structure Line where
  addr : Nat
  nbytes : Nat
  mnem : List Char
  ops : List Char
deriving DecidableEq

/-- The parts that the expression finds. -/
def instructionLine (line : List Char) : Option Line :=
  (inRe line).map fun (address, bytes, text) =>
    let parts := splitOnce (strip text)
    { addr := hexNat address
      nbytes := (fields bytes).length
      mnem := (parts[0]?).getD []
      ops := (parts[1]?).getD [] }

/-- The lines of {lit}`out` that the expression matches. -/
def instructionLines (out : List Char) : List Line :=
  (splitLines [] out).filterMap instructionLine

/-! ## What the disassembler prints -/

/-- An instruction: {lit}`gap` and {lit}`trail` are blanks before the operands and at the end. -/
structure Insn where
  bytes : List UInt8
  prefixes : List (List Char)
  mnemonic : List Char
  gap : Nat
  operands : List Char
  trail : Nat
  bytes_ne : bytes ≠ []
  words : ∀ w ∈ prefixes ++ [mnemonic], IsWord w
  oneLine : ∀ c ∈ operands, lineEnd c = false
  trimmed : Trimmed operands

namespace Insn

/-- What follows a word that is not the last. -/
def behind (gap : Nat) (more : List Char) : List Char :=
  if more = [] then [] else blanks (gap + 1) ++ more

/-- The words of an instruction, and its operands. -/
def wordText (i : Insn) : List (List Char) → List Char
  | [] => i.mnemonic ++ behind i.gap i.operands
  | p :: ps => p ++ blanks 1 ++ wordText i ps

def text (i : Insn) : List Char := i.wordText i.prefixes ++ blanks i.trail

/-- The first word. -/
def first (i : Insn) : List Char := i.prefixes.headD i.mnemonic

/-- What is behind the first word. -/
def afterFirst (i : Insn) : List Char :=
  match i.prefixes with
  | [] => i.operands
  | _ :: ps => i.wordText ps

def length (i : Insn) : Nat := i.bytes.length

end Insn

/-- An instruction and what is printed before it: blank lines, names of functions. -/
structure Row where
  notes : List (List Char)
  insn : Insn
  plain : ∀ n ∈ notes, (∀ c ∈ n, lineEnd c = false) ∧ ∀ c ∈ n.head?, space c = false

/-- A section; every address is indented by a blank or more. -/
structure Listing where
  start : Nat
  rows : List Row
  indent : Nat → Nat

def byteText (b : UInt8) : List Char :=
  [Nat.digitChar (b.toNat / 16), Nat.digitChar (b.toNat % 16)]

def columns (bytes : List UInt8) : List Char := (bytes.map byteText).flatMap (· ++ [' '])

/-- The address and the bytes of a line. -/
def margin (indent : Nat → Nat) (addr : Nat) (bytes : List UInt8) : List Char :=
  blanks (indent addr + 1) ++ (Nat.toDigits 16 addr ++ ':' :: '\t' :: columns bytes)

/-- The bytes after the first seven. -/
def continued (indent : Nat → Nat) (addr : Nat) (bytes : List UInt8) : List (List Char) :=
  if h : bytes = [] then []
  else
    have : (bytes.drop 7).length < bytes.length := by
      have := List.length_pos_of_ne_nil h
      rw [List.length_drop]
      omega
    margin indent addr (bytes.take 7) :: continued indent (addr + 7) (bytes.drop 7)
termination_by bytes.length

/-- The lines of an instruction. -/
def Insn.printed (indent : Nat → Nat) (addr : Nat) (i : Insn) : List (List Char) :=
  (margin indent addr (i.bytes.take 7) ++ blanks (3 * (7 - i.length)) ++ '\t' :: i.text) ::
    continued indent (addr + 7) (i.bytes.drop 7)

def printedRows (indent : Nat → Nat) : Nat → List Row → List (List Char)
  | _, [] => []
  | addr, r :: rest =>
      r.notes ++ r.insn.printed indent addr ++ printedRows indent (addr + r.insn.length) rest

def Listing.text (l : Listing) : List Char :=
  (printedRows l.indent l.start l.rows).flatMap (· ++ ['\n'])

/-- An instruction at its address. -/
structure Placed where
  addr : Nat
  insn : Insn

def Placed.finish (p : Placed) : Nat := p.addr + p.insn.length

def placed : Nat → List Row → List Placed
  | _, [] => []
  | addr, r :: rest => ⟨addr, r.insn⟩ :: placed (addr + r.insn.length) rest

def Listing.placed (l : Listing) : List Placed := Displacement.placed l.start l.rows

/-! ## Lines -/

theorem not_lineEnd_of_space {c : Char} (h : space c = false) : lineEnd c = false := by
  have hsub : ∀ d ∈ ['\n', '\r', '\x0b', '\x0c', '\x1c', '\x1d', '\x1e', '\u0085', '\u2028',
      '\u2029'], space d = true := by decide
  rw [lineEnd, decide_eq_false_iff_not]
  intro hmem
  rw [hsub c hmem] at h
  exact absurd h (by decide)

theorem not_lineEnd_blanks (n : Nat) : ∀ c ∈ blanks n, lineEnd c = false := by
  intro c hc
  rw [List.eq_of_mem_replicate hc]
  decide

theorem hexChar_spec {c : Char} (h : hexChar c = true) : space c = false ∧ c ≠ '\t' := by
  constructor
  · have hnot : ∀ d ∈ ['\t', '\n', '\x0b', '\x0c', '\r', '\x1c', '\x1d', '\x1e', '\x1f', ' ',
        '\u0085', '\u00a0', '\u1680', '\u2000', '\u2001', '\u2002', '\u2003', '\u2004', '\u2005',
        '\u2006', '\u2007', '\u2008', '\u2009', '\u200a', '\u2028', '\u2029', '\u202f', '\u205f',
        '\u3000'], hexChar d = false := by decide
    rw [space, decide_eq_false_iff_not]
    intro hmem
    rw [hnot c hmem] at h
    exact absurd h (by decide)
  · rintro rfl
    exact absurd h (by decide)

theorem isWord_byteText (b : UInt8) :
    IsWord (byteText b) ∧ ∀ c ∈ byteText b, hexChar c = true := by
  have hb := b.toNat_lt
  have h1 := (digitChar_spec (show b.toNat / 16 < 16 by omega)).1
  have h2 := (digitChar_spec (Nat.mod_lt b.toNat (show 0 < 16 by omega))).1
  have hall : ∀ c ∈ byteText b, hexChar c = true := by
    rw [byteText, List.forall_mem_cons, List.forall_mem_singleton]
    exact ⟨h1, h2⟩
  exact ⟨⟨List.cons_ne_nil _ _, fun c hc => (hexChar_spec (hall c hc)).1⟩, hall⟩

theorem columns_spec {bytes : List UInt8} :
    ∀ c ∈ columns bytes, hexChar c = true ∨ c = ' ' := by
  intro c hc
  rw [columns, List.mem_flatMap] at hc
  obtain ⟨w, hw, hc⟩ := hc
  obtain ⟨b, _, rfl⟩ := List.mem_map.mp hw
  rw [List.mem_append, List.mem_singleton] at hc
  exact hc.imp_left ((isWord_byteText b).2 c)

theorem columns_ne_nil {bytes : List UInt8} (h : bytes ≠ []) : columns bytes ≠ [] := by
  obtain ⟨b, rest, rfl⟩ := List.exists_cons_of_ne_nil h
  exact List.cons_ne_nil _ _

/-- The columns of a line are its bytes. -/
theorem fields_columns (bytes : List UInt8) (n : Nat) :
    (fields (columns bytes ++ blanks n)).length = bytes.length := by
  rw [columns, fields_words, List.length_map]
  intro w hw
  obtain ⟨b, _, rfl⟩ := List.mem_map.mp hw
  exact (isWord_byteText b).1

/-- The expression finds the parts of a printed line. -/
theorem inRe_printed (indent : Nat → Nat) (addr : Nat) {bytes : List UInt8} (h : bytes ≠ [])
    (n : Nat) {tail : List Char} (htail : ∀ c ∈ tail.head?, c = '\t') :
    inRe (margin indent addr bytes ++ blanks n ++ tail) =
      some (Nat.toDigits 16 addr, columns bytes ++ blanks n, tail.drop 1) := by
  have hdigits := (hexNat_toDigits addr).2
  have hne : Nat.toDigits 16 addr ≠ [] := Nat.toDigits_ne_nil
  have hline : margin indent addr bytes ++ blanks n ++ tail =
      blanks (indent addr + 1) ++ (Nat.toDigits 16 addr ++
        ':' :: '\t' :: (columns bytes ++ blanks n ++ tail)) := by
    simp only [margin, List.append_assoc, List.cons_append]
  have hhead : ∀ c ∈ (Nat.toDigits 16 addr ++
      ':' :: '\t' :: (columns bytes ++ blanks n ++ tail)).head?, space c = false := by
    obtain ⟨d, ds, hd⟩ := List.exists_cons_of_ne_nil hne
    rw [hd] at hdigits ⊢
    rintro c ⟨⟩
    exact (hexChar_spec (hdigits d List.mem_cons_self)).1
  have hfront : (blanks (indent addr + 1) ++ (Nat.toDigits 16 addr ++
      ':' :: '\t' :: (columns bytes ++ blanks n ++ tail))).takeWhile space ≠ [] := by
    rw [show blanks (indent addr + 1) = ' ' :: blanks (indent addr) from rfl, List.cons_append,
      List.takeWhile_cons_of_pos (by decide)]
    exact List.cons_ne_nil _ _
  have hspan : (columns bytes ++ blanks n ++ tail).span (fun c => hexChar c || c = ' ') =
      (columns bytes ++ blanks n, tail) := by
    have hall : ∀ c ∈ columns bytes ++ blanks n, (hexChar c || decide (c = ' ')) = true := by
      intro c hc
      rw [Bool.or_eq_true, decide_eq_true_iff]
      rcases List.mem_append.mp hc with hc | hc
      · exact columns_spec c hc
      · exact .inr (List.eq_of_mem_replicate hc)
    rw [List.span_eq_takeWhile_dropWhile, List.takeWhile_append_of_pos hall,
      List.dropWhile_append_of_pos hall]
    cases tail with
    | nil => rw [List.takeWhile_nil, List.dropWhile_nil, List.append_nil]
    | cons c rest =>
        obtain rfl := htail c rfl
        rw [List.takeWhile_cons_of_neg (by decide), List.dropWhile_cons_of_neg (by decide),
          List.append_nil]
  have hbytes : columns bytes ++ blanks n ≠ [] :=
    fun hnil => columns_ne_nil h (List.append_eq_nil_iff.mp hnil).1
  rw [inRe, hline, dropWhile_blanks, dropWhile_eq_self hhead,
    hexRun_append hdigits (by decide : hexChar ':' = false)]
  simp only [List.drop_succ_cons, List.drop_zero, hspan]
  rw [if_pos ⟨hfront, hne, ⟨_, rfl⟩⟩, if_pos hbytes]
  cases tail with
  | nil => rfl
  | cons c rest =>
      obtain rfl := htail c rfl
      rfl

/-! ## Words -/

theorem trimmed_append {s t : List Char} (hs : s ≠ []) (hhead : ∀ c ∈ s.head?, space c = false)
    (ht : t ≠ []) (hlast : ∀ c ∈ t.getLast?, space c = false) : Trimmed (s ++ t) := by
  refine ⟨?_, ?_⟩
  · rwa [List.head?_append_of_ne_nil _ hs]
  · rwa [List.getLast?_append_of_ne_nil _ ht]

theorem isWord_getLast {w : List Char} (h : IsWord w) : ∀ c ∈ w.getLast?, space c = false :=
  fun c hc => h.2 c (List.mem_of_getLast? hc)

theorem trimmed_word {w : List Char} (h : IsWord w) : Trimmed w :=
  ⟨fun c hc => h.2 c (List.mem_of_head? hc), isWord_getLast h⟩

namespace Insn

/-- The words of an instruction begin and end with a character. -/
theorem wordText_spec (i : Insn) {ps : List (List Char)} (h : ∀ w ∈ ps ++ [i.mnemonic], IsWord w) :
    i.wordText ps ≠ [] ∧ Trimmed (i.wordText ps) := by
  induction ps with
  | nil =>
      have hword := h _ List.mem_cons_self
      rw [wordText, behind]
      split
      · rw [List.append_nil]
        exact ⟨hword.1, trimmed_word hword⟩
      · rename_i hoperands
        refine ⟨fun hnil => hword.1 (List.append_eq_nil_iff.mp hnil).1, ?_⟩
        refine trimmed_append hword.1 (trimmed_word hword).1
          (List.append_ne_nil_of_right_ne_nil _ hoperands) ?_
        rw [List.getLast?_append_of_ne_nil _ hoperands]
        exact i.trimmed.2
  | cons p ps ih =>
      rw [List.cons_append, List.forall_mem_cons] at h
      obtain ⟨hne, htrimmed⟩ := ih h.2
      rw [wordText]
      refine ⟨fun hnil => hne (List.append_eq_nil_iff.mp hnil).2, ?_⟩
      refine trimmed_append (List.append_ne_nil_of_left_ne_nil h.1.1 _) ?_ hne htrimmed.2
      rw [List.head?_append_of_ne_nil _ h.1.1]
      exact (trimmed_word h.1).1

/-- The first word and what is behind it are read back. -/
theorem splitOnce_text (i : Insn) :
    let parts := splitOnce (strip i.text)
    (parts[0]?).getD [] = i.first ∧ (parts[1]?).getD [] = i.afterFirst := by
  have hwords := i.words
  rw [text, strip_append_blanks (i.wordText_spec hwords).2]
  unfold first afterFirst
  cases hp : i.prefixes with
  | nil =>
      rw [hp] at hwords
      have hword := hwords _ List.mem_cons_self
      rw [wordText, behind]
      split
      · rename_i hoperands
        rw [List.append_nil, splitOnce_word hword, hoperands]
        exact ⟨rfl, rfl⟩
      · rename_i hoperands
        rw [← List.append_assoc, splitOnce_append hword _ hoperands i.trimmed.1]
        exact ⟨rfl, rfl⟩
  | cons p ps =>
      rw [hp, List.cons_append, List.forall_mem_cons] at hwords
      obtain ⟨hne, htrimmed⟩ := i.wordText_spec hwords.2
      rw [wordText, splitOnce_append hwords.1 0 hne htrimmed.1]
      exact ⟨rfl, rfl⟩

/-- The operands are behind the first word. -/
theorem operands_infix (i : Insn) : i.operands <:+: i.afterFirst := by
  have hmnemonic : i.operands <:+: i.wordText [] := by
    rw [wordText, behind]
    split
    · rename_i hoperands
      rw [hoperands]
      exact List.nil_infix
    · exact (List.suffix_append _ _).isInfix.trans (List.suffix_append _ _).isInfix
  have hwords : ∀ ps, i.operands <:+: i.wordText ps := by
    intro ps
    induction ps with
    | nil => exact hmnemonic
    | cons p ps ih => exact ih.trans (List.suffix_append _ _).isInfix
  unfold afterFirst
  cases i.prefixes with
  | nil => exact List.infix_rfl
  | cons p ps => exact hwords ps

theorem oneLine_text (i : Insn) : ∀ c ∈ i.text, lineEnd c = false := by
  have hbehind : ∀ c ∈ behind i.gap i.operands, lineEnd c = false := by
    unfold behind
    split
    · exact fun c hc => absurd hc List.not_mem_nil
    · exact List.forall_mem_append.mpr ⟨not_lineEnd_blanks _, i.oneLine⟩
  have hwords : ∀ ps, (∀ w ∈ ps ++ [i.mnemonic], IsWord w) →
      ∀ c ∈ i.wordText ps, lineEnd c = false := by
    intro ps h
    induction ps with
    | nil =>
        have hword := h _ List.mem_cons_self
        exact List.forall_mem_append.mpr ⟨fun c hc => not_lineEnd_of_space (hword.2 c hc), hbehind⟩
    | cons p ps ih =>
        rw [List.cons_append, List.forall_mem_cons] at h
        rw [wordText, List.forall_mem_append, List.forall_mem_append]
        exact ⟨⟨fun c hc => not_lineEnd_of_space (h.1.2 c hc), not_lineEnd_blanks _⟩, ih h.2⟩
  exact List.forall_mem_append.mpr ⟨hwords _ i.words, not_lineEnd_blanks _⟩

end Insn

/-! ## Reading a listing -/

/-- What is read of the bytes after the first seven: lines without words. -/
def continuedLines (addr : Nat) (n : Nat) : List Line :=
  if n = 0 then []
  else { addr, nbytes := min 7 n, mnem := [], ops := [] } :: continuedLines (addr + 7) (n - 7)
termination_by n

/-- What is read of an instruction at first. -/
def Placed.line (p : Placed) : Line where
  addr := p.addr
  nbytes := min 7 p.insn.length
  mnem := p.insn.first
  ops := p.insn.afterFirst

def Placed.lines (p : Placed) : List Line :=
  p.line :: continuedLines (p.addr + 7) (p.insn.length - 7)

theorem oneLine_margin (indent : Nat → Nat) (addr : Nat) (bytes : List UInt8) :
    ∀ c ∈ margin indent addr bytes, lineEnd c = false := by
  have hdigits : ∀ c ∈ Nat.toDigits 16 addr, lineEnd c = false := fun c hc =>
    not_lineEnd_of_space (hexChar_spec ((hexNat_toDigits addr).2 c hc)).1
  have hcolumns : ∀ c ∈ columns bytes, lineEnd c = false := by
    intro c hc
    rcases columns_spec c hc with hhex | rfl
    · exact not_lineEnd_of_space (hexChar_spec hhex).1
    · decide
  rw [margin, List.forall_mem_append, List.forall_mem_append, List.forall_mem_cons,
    List.forall_mem_cons]
  exact ⟨not_lineEnd_blanks _, hdigits, by decide, by decide, hcolumns⟩

theorem instructionLine_note {n : List Char} (h : ∀ c ∈ n.head?, space c = false) :
    instructionLine n = none := by
  have hfront : n.takeWhile space = [] := by
    cases n with
    | nil => rfl
    | cons c rest => exact List.takeWhile_cons_of_neg (by rw [h c rfl]; exact Bool.false_ne_true)
  rw [instructionLine, inRe, hfront]
  rfl

theorem instructionLine_continued (indent : Nat → Nat) (addr : Nat) {bytes : List UInt8}
    (h : bytes ≠ []) :
    instructionLine (margin indent addr bytes) =
      some { addr, nbytes := bytes.length, mnem := [], ops := [] } := by
  have hread := @inRe_printed indent addr bytes h 0 [] (fun c hc => nomatch hc)
  rw [show blanks 0 = [] from rfl, List.append_nil, List.append_nil, List.append_nil] at hread
  have hcolumns := fields_columns bytes 0
  rw [show blanks 0 = [] from rfl, List.append_nil] at hcolumns
  rw [instructionLine, hread]
  simp only [Option.map_some, hcolumns, (hexNat_toDigits addr).1]
  rfl

theorem filterMap_continued (indent : Nat → Nat) (addr : Nat) (bytes : List UInt8) :
    (continued indent addr bytes).filterMap instructionLine =
      continuedLines addr bytes.length := by
  induction addr, bytes using continued.induct with
  | case1 addr =>
      rw [continued, dif_pos rfl, continuedLines, if_pos List.length_nil]
      rfl
  | case2 addr bytes h hlt ih =>
      have htake : bytes.take 7 ≠ [] := by
        rw [Ne, List.take_eq_nil_iff, not_or]
        exact ⟨by decide, h⟩
      rw [continued, dif_neg h, continuedLines,
        if_neg fun hzero => h (List.length_eq_zero_iff.mp hzero),
        List.filterMap_cons_some (instructionLine_continued indent addr htake), ih,
        List.length_take, List.length_drop]

/-- What is read of an instruction. -/
theorem filterMap_printed (indent : Nat → Nat) (p : Placed) :
    (p.insn.printed indent p.addr).filterMap instructionLine = p.lines := by
  have htake : p.insn.bytes.take 7 ≠ [] := by
    rw [Ne, List.take_eq_nil_iff, not_or]
    exact ⟨by decide, p.insn.bytes_ne⟩
  have hread := @inRe_printed indent p.addr _ htake (3 * (7 - p.insn.length))
    ('\t' :: p.insn.text) (fun c hc => (Option.some.inj hc).symm)
  obtain ⟨hfirst, hafter⟩ := p.insn.splitOnce_text
  have hline : instructionLine (margin indent p.addr (p.insn.bytes.take 7) ++
      blanks (3 * (7 - p.insn.length)) ++ '\t' :: p.insn.text) = some p.line := by
    rw [instructionLine, hread]
    simp only [Option.map_some, fields_columns, (hexNat_toDigits p.addr).1, List.drop_succ_cons,
      List.drop_zero, hfirst, hafter, List.length_take]
    rfl
  rw [Insn.printed, List.filterMap_cons_some hline, filterMap_continued, List.length_drop]
  rfl

theorem oneLine_continued (indent : Nat → Nat) (addr : Nat) (bytes : List UInt8) :
    ∀ line ∈ continued indent addr bytes, ∀ c ∈ line, lineEnd c = false := by
  induction addr, bytes using continued.induct with
  | case1 addr =>
      rw [continued, dif_pos rfl]
      exact fun line hline => absurd hline List.not_mem_nil
  | case2 addr bytes h hlt ih =>
      rw [continued, dif_neg h, List.forall_mem_cons]
      exact ⟨oneLine_margin _ _ _, ih⟩

theorem oneLine_printed (indent : Nat → Nat) (addr : Nat) (i : Insn) :
    ∀ line ∈ i.printed indent addr, ∀ c ∈ line, lineEnd c = false := by
  rw [Insn.printed, List.forall_mem_cons]
  refine ⟨?_, oneLine_continued _ _ _⟩
  rw [List.forall_mem_append, List.forall_mem_append, List.forall_mem_cons]
  exact ⟨⟨oneLine_margin _ _ _, not_lineEnd_blanks _⟩, by decide, i.oneLine_text⟩

theorem oneLine_printedRows (indent : Nat → Nat) (addr : Nat) (rows : List Row) :
    ∀ line ∈ printedRows indent addr rows, ∀ c ∈ line, lineEnd c = false := by
  induction rows generalizing addr with
  | nil => exact fun line hline => absurd hline List.not_mem_nil
  | cons r rest ih =>
      rw [printedRows, List.forall_mem_append, List.forall_mem_append]
      exact ⟨⟨fun n hn => (r.plain n hn).1, oneLine_printed _ _ _⟩, ih _⟩

theorem filterMap_printedRows (indent : Nat → Nat) (addr : Nat) (rows : List Row) :
    (printedRows indent addr rows).filterMap instructionLine =
      (placed addr rows).flatMap Placed.lines := by
  induction rows generalizing addr with
  | nil => rfl
  | cons r rest ih =>
      have hnotes : r.notes.filterMap instructionLine = [] :=
        List.filterMap_eq_nil_iff.mpr fun n hn => instructionLine_note (r.plain n hn).2
      rw [printedRows, List.filterMap_append, List.filterMap_append, hnotes, List.nil_append,
        filterMap_printed indent ⟨addr, r.insn⟩, ih]
      rfl

/-- What is read of a listing. -/
theorem instructionLines_text (l : Listing) :
    instructionLines l.text = l.placed.flatMap Placed.lines := by
  rw [instructionLines, Listing.text, splitLines_lines (oneLine_printedRows _ _ _),
    filterMap_printedRows]
  rfl

end Displacement
end LiveSurface
