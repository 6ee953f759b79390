import LiveSurface.BuildId.Notes
import LiveSurface.Library.Search
import LiveSurface.Metadata.Decode
import Mathlib.Data.List.Sort

/-!
# The two readers of a build id

The index of a binary carries its build id, which {lit}`ls_buildid.build_id` reads from the section
of that name, or from the note segments with adjacent ones taken together.  The running program
reads its own id in {lit}`ls_audit_read_build_id`, from the first 4096 bytes of one note segment
after the other.  A note that does not lie in these bytes of one segment is found by the first
reader only.

Main results:

- Theorem {lit}`readBuildIdNote_eq_some_iff`: the note of the running program.
- Theorem {lit}`buildIdNote_eq_some_iff`: the note of the index.
- Theorem {lit}`readers_agree_iff`: the files on which both have the same id.
- Theorem {lit}`straddle_disagrees`: a note that straddles two segments.
-/

namespace LiveSurface
namespace BuildId

open Metadata (hex)

/-! ## Files -/

/-- A file; the file systems have none as long as offsets go. -/
structure RegularFile where
  bytes : List UInt8
  size_lt : bytes.length < 2 ^ 63

/-- {lit}`pread`, which refuses a negative offset and stops at the end of the file. -/
def pread (f : RegularFile) (n pos : Nat) : Option (List UInt8) :=
  if pos < 2 ^ 63 then some (bytesAt n f.bytes pos) else none

/-- {lit}`_read`, and a {lit}`pread` that has to be complete. -/
def readAll (f : RegularFile) (n pos : Nat) : Option (List UInt8) :=
  (pread f n pos).filter fun b => b.length == n

/-- What is read of {lit}`ls_ehdr64`, and of the same bytes by {lit}`build_id`. -/
structure Ehdr64 where
  ident : List UInt8
  phoff : Nat
  shoff : Nat
  phentsize : Nat
  phnum : Nat
  shentsize : Nat
  shnum : Nat
  shstrndx : Nat

def Ehdr64.ofBytes (b : List UInt8) : Ehdr64 where
  ident := bytesAt 16 b 0
  phoff := leAt 8 b 0x20
  shoff := leAt 8 b 0x28
  phentsize := leAt 2 b 0x36
  phnum := leAt 2 b 0x38
  shentsize := leAt 2 b 0x3a
  shnum := leAt 2 b 0x3c
  shstrndx := leAt 2 b 0x3e

def Ehdr64.IsElf64 (e : Ehdr64) : Prop :=
  e.ident.take 4 = [127, 69, 76, 70] ∧ e.ident[4]? = some 2

instance (e : Ehdr64) : Decidable e.IsElf64 := inferInstanceAs (Decidable (_ ∧ _))

/-- The bytes of a note as digits. -/
def idOf (f : RegularFile) (n : Note) : String := hex (bytesAt n.size f.bytes (n.pos + 16))

/-! ## The reader of the running program -/

/-- What is read of {lit}`ls_phdr64`. -/
structure Phdr64 where
  type : Nat
  offset : Nat
  filesz : Nat

def Phdr64.ofBytes (b : List UInt8) : Phdr64 where
  type := leAt 4 b 0
  offset := leAt 8 b 8
  filesz := leAt 8 b 32

def ptNote : Nat := 4

/-- One note segment. -/
def noteOfSegment (f : RegularFile) (ph : Phdr64) : Option Note :=
  match pread f (min ph.filesz 4096) ph.offset with
  | none => none
  | some note => if note = [] then none else (scan note).map (Note.shift ph.offset)

/-- One turn of the loop over the program headers; one that cannot be read ends the loop. -/
def visitSegment (f : RegularFile) (e : Ehdr64) (i : Nat) : Option (Option Note) :=
  match readAll f 56 ((e.phoff + i * 56) % 2 ^ 64) with
  | none => none
  | some b =>
      let ph := Phdr64.ofBytes b
      if ph.type ≠ ptNote then some none else some (noteOfSegment f ph)

/-- The note whose id {lit}`ls_audit_read_build_id` stores. -/
def readBuildIdNote (f : RegularFile) : Option Note :=
  match readAll f 64 0 with
  | none => none
  | some b =>
      let e := Ehdr64.ofBytes b
      if ¬e.IsElf64 then none
      else if e.phentsize ≠ 56 ∨ e.phnum = 0 then none
      else (search (visitSegment f e) (List.range e.phnum)).join

/-- {lit}`ls_audit_build_id` after {lit}`ls_audit_read_build_id`. -/
def readBuildId (f : RegularFile) : String :=
  match readBuildIdNote f with
  | none => "unknown"
  | some n => idOf f n

/-! ## The reader of the index -/

structure Span where
  off : Nat
  size : Nat
deriving DecidableEq

/-- {lit}`_parse_note` of a part of the file. -/
def noteOfSpan (f : RegularFile) (s : Span) : Option (Option Note) :=
  (readAll f s.size s.off).map fun note => (parseNote note).map (Note.shift s.off)

/-- {lit}`strs[nmoff:strs.find(b"\0", nmoff)]`; where no zero byte follows this is all but the last
byte. -/
def sectionName (strs : List UInt8) (nmoff : Nat) : List UInt8 :=
  if 0 ∈ strs.drop nmoff then (strs.drop nmoff).takeWhile (· ≠ 0) else strs.dropLast.drop nmoff

/-- {lit}`.note.gnu.build-id`. -/
def noteSection : List UInt8 :=
  [46, 110, 111, 116, 101, 46, 103, 110, 117, 46, 98, 117, 105, 108, 100, 45, 105, 100]

/-- The part of the file that a section header describes, if the section has the name. -/
def sectionSpan (f : RegularFile) (e : Ehdr64) (strs : List UInt8) (i : Nat) :
    Option (Option Span) := do
  let sh ← readAll f e.shentsize (e.shoff + i * e.shentsize)
  let nmoff ← rd 4 sh 0
  if sectionName strs nmoff ≠ noteSection then return none
  let off ← rd 8 sh 0x18
  let sz ← rd 8 sh 0x20
  return some ⟨off, sz⟩

def visitSection (f : RegularFile) (e : Ehdr64) (strs : List UInt8) (i : Nat) :
    Option (Option Note) :=
  (sectionSpan f e strs i).bind fun
    | none => some none
    | some s => noteOfSpan f s

def stringTable (f : RegularFile) (e : Ehdr64) : Option (List UInt8) := do
  let sh ← readAll f e.shentsize (e.shoff + e.shstrndx * e.shentsize)
  let stroff ← rd 8 sh 0x18
  let strsz ← rd 8 sh 0x20
  readAll f strsz stroff

def Ehdr64.HasSections (e : Ehdr64) : Prop := e.shoff ≠ 0 ∧ e.shnum ≠ 0 ∧ e.shstrndx < e.shnum

instance (e : Ehdr64) : Decidable e.HasSections := inferInstanceAs (Decidable (_ ∧ _))

/-- The loop over the sections. -/
def sectionNote (f : RegularFile) (e : Ehdr64) : Option (Option Note) :=
  if e.HasSections then
    (stringTable f e).bind fun strs => search (visitSection f e strs) (List.range e.shnum)
  else some none

/-- The part of the file that a program header describes, if it is a note segment. -/
def segmentSpan (f : RegularFile) (e : Ehdr64) (i : Nat) : Option (Option Span) := do
  let ph ← readAll f e.phentsize (e.phoff + i * e.phentsize)
  let type ← rd 4 ph 0
  if type ≠ ptNote then return none
  let off ← rd 8 ph 8
  let sz ← rd 8 ph 0x20
  return some ⟨off, sz⟩

/-- The order of {lit}`spans.sort()`. -/
def Span.le (s t : Span) : Prop := s.off < t.off ∨ s.off = t.off ∧ s.size ≤ t.size

instance : DecidableRel Span.le := fun _ _ => inferInstanceAs (Decidable (_ ∨ _))

/-- Adjacent spans are taken together; {lit}`last` is the last one of {lit}`merged`. -/
def coalesceFrom (last : Span) : List Span → List Span
  | [] => [last]
  | s :: rest =>
      if last.off + last.size = s.off then coalesceFrom ⟨last.off, last.size + s.size⟩ rest
      else last :: coalesceFrom s rest

def coalesce : List Span → List Span
  | [] => []
  | s :: rest => coalesceFrom s rest

/-- {lit}`merged`. -/
def mergedSpans (f : RegularFile) (e : Ehdr64) : Option (List Span) :=
  ((List.range e.phnum).mapM (segmentSpan f e)).map fun spans =>
    coalesce (spans.reduceOption.insertionSort Span.le)

def segmentNote (f : RegularFile) (e : Ehdr64) : Option (Option Note) :=
  (mergedSpans f e).bind (search (noteOfSpan f))

/-- {lit}`build_id`, once the header is read. -/
def noteOfHeader (f : RegularFile) (e : Ehdr64) : Option Note :=
  if ¬e.IsElf64 then none
  else
    (sectionNote f e).bind fun
      | some n => some n
      | none => (segmentNote f e).join

/-- The note whose id {lit}`build_id` returns; {lit}`none` where it raises. -/
def buildIdNote (f : RegularFile) : Option Note :=
  (readAll f 64 0).bind fun b => noteOfHeader f (Ehdr64.ofBytes b)

/-- {lit}`build_id`. -/
def buildId (f : RegularFile) : Option String := (buildIdNote f).map (idOf f)

/-! ## Reads -/

section Reads

variable {f : RegularFile} {n pos : Nat} {b : List UInt8}

theorem readAll_eq_some (h : readAll f n pos = some b) : b = bytesAt n f.bytes pos := by
  obtain ⟨h, -⟩ := Option.filter_eq_some_iff.mp h
  unfold pread at h
  split at h
  · exact (Option.some.inj h).symm
  · contradiction

/-- A piece that is not empty can be read exactly where the file has it. -/
theorem readAll_isSome_iff (hn : 0 < n) : (readAll f n pos).isSome ↔ pos + n ≤ f.bytes.length := by
  have hlength : (bytesAt n f.bytes pos).length = min n (f.bytes.length - pos) := by
    rw [bytesAt, List.length_take, List.length_drop]
  have hsize := f.size_lt
  unfold readAll pread
  split
  · rw [Option.filter_some]
    split
    · rename_i hfull
      rw [beq_iff_eq, hlength] at hfull
      exact iff_of_true rfl (by omega)
    · rename_i hshort
      rw [beq_iff_eq, hlength] at hshort
      exact iff_of_false (by simp) (by omega)
  · exact iff_of_false (by simp) (by omega)

theorem readAll_eq_some_iff (hn : 0 < n) :
    readAll f n pos = some b ↔ pos + n ≤ f.bytes.length ∧ b = bytesAt n f.bytes pos := by
  constructor
  · intro h
    exact ⟨(readAll_isSome_iff hn).mp (by rw [h]; rfl), readAll_eq_some h⟩
  · rintro ⟨hle, rfl⟩
    obtain ⟨b, hb⟩ := Option.isSome_iff_exists.mp ((readAll_isSome_iff hn).mpr hle)
    rw [hb, readAll_eq_some hb]

theorem readAll_eq_none_iff (hn : 0 < n) :
    readAll f n pos = none ↔ ¬pos + n ≤ f.bytes.length := by
  rw [← readAll_isSome_iff hn, Option.not_isSome_iff_eq_none]

end Reads

/-- The header that both readers take. -/
def RegularFile.header (f : RegularFile) : Ehdr64 := Ehdr64.ofBytes (bytesAt 64 f.bytes 0)

/-- Both readers go on. -/
def RegularFile.IsElf64 (f : RegularFile) : Prop := 64 ≤ f.bytes.length ∧ f.header.IsElf64

/-! ## The note of the running program -/

/-- Where a program header is. -/
def RegularFile.phdrPos (f : RegularFile) (i : Nat) : Nat := (f.header.phoff + i * 56) % 2 ^ 64

def RegularFile.phdr (f : RegularFile) (i : Nat) : Phdr64 :=
  Phdr64.ofBytes (bytesAt 56 f.bytes (f.phdrPos i))

/-- The end of the bytes of a segment that the running program looks at. -/
def Phdr64.windowEnd (ph : Phdr64) : Nat := ph.offset + min ph.filesz 4096

/-- A note is the first one in the first 4096 bytes of a note segment, and no earlier segment of the
table has a complete note there. -/
structure InFirstWindow (f : RegularFile) (n : Note) : Prop where
  elf : f.IsElf64
  entries : f.header.phentsize = 56
  window : ∃ i, i < f.header.phnum ∧ (∀ j, j ≤ i → f.phdrPos j + 56 ≤ f.bytes.length) ∧
    (∀ j, j < i → (f.phdr j).type = ptNote →
      ∀ m, ¬NoteIn f.bytes (f.phdr j).offset (f.phdr j).windowEnd m) ∧
    (f.phdr i).type = ptNote ∧ FirstIn f.bytes (f.phdr i).offset (f.phdr i).windowEnd n

section Running

variable {f : RegularFile} {n : Note} {i : Nat}

theorem noteOfSegment_eq (f : RegularFile) (ph : Phdr64) : noteOfSegment f ph =
    (scan (bytesAt (min ph.filesz 4096) f.bytes ph.offset)).map (Note.shift ph.offset) := by
  have hempty : scan [] = none := by decide
  unfold noteOfSegment pread
  split
  · rename_i hnone
    split at hnone
    · contradiction
    · -- such an offset lies behind the end of the file
      have hsize := f.size_lt
      rw [bytesAt, List.drop_of_length_le (by omega), List.take_nil, hempty, Option.map_none]
  · rename_i note hnote
    split at hnote
    · obtain rfl := Option.some.inj hnote
      split
      · rename_i hnil
        rw [hnil, hempty, Option.map_none]
      · rfl
    · contradiction

theorem noteOfSegment_eq_some_iff {ph : Phdr64} :
    noteOfSegment f ph = some n ↔ FirstIn f.bytes ph.offset ph.windowEnd n := by
  rw [noteOfSegment_eq, scan_window_eq_some_iff]
  rfl

theorem noteOfSegment_eq_none_iff {ph : Phdr64} :
    noteOfSegment f ph = none ↔ ∀ m, ¬NoteIn f.bytes ph.offset ph.windowEnd m := by
  rw [noteOfSegment_eq, scan_window_eq_none_iff]
  rfl

theorem visitSegment_eq_some_iff {r : Option Note} :
    visitSegment f f.header i = some r ↔ f.phdrPos i + 56 ≤ f.bytes.length ∧
      (if (f.phdr i).type ≠ ptNote then none else noteOfSegment f (f.phdr i)) = r := by
  unfold visitSegment
  split
  · rename_i hnone
    exact iff_of_false (by simp) fun h => (readAll_eq_none_iff (by omega)).mp hnone h.1
  · rename_i b hb
    obtain ⟨hle, rfl⟩ := (readAll_eq_some_iff (by omega)).mp hb
    rw [← apply_ite, Option.some_inj]
    exact (and_iff_right hle).symm

theorem visitSegment_pass_iff :
    visitSegment f f.header i = some none ↔ f.phdrPos i + 56 ≤ f.bytes.length ∧
      ((f.phdr i).type = ptNote →
        ∀ m, ¬NoteIn f.bytes (f.phdr i).offset (f.phdr i).windowEnd m) := by
  rw [visitSegment_eq_some_iff, ← noteOfSegment_eq_none_iff]
  by_cases htype : (f.phdr i).type = ptNote <;> simp [htype]

theorem visitSegment_stop_iff :
    visitSegment f f.header i = some (some n) ↔ f.phdrPos i + 56 ≤ f.bytes.length ∧
      (f.phdr i).type = ptNote ∧ FirstIn f.bytes (f.phdr i).offset (f.phdr i).windowEnd n := by
  rw [visitSegment_eq_some_iff, ← noteOfSegment_eq_some_iff]
  by_cases htype : (f.phdr i).type = ptNote <;> simp [htype]

/-- The note of the running program. -/
theorem readBuildIdNote_eq_some_iff : readBuildIdNote f = some n ↔ InFirstWindow f n := by
  have hsearch : (search (visitSegment f f.header) (List.range f.header.phnum)).join = some n ↔
      ∃ i, i < f.header.phnum ∧ (∀ j, j ≤ i → f.phdrPos j + 56 ≤ f.bytes.length) ∧
        (∀ j, j < i → (f.phdr j).type = ptNote →
          ∀ m, ¬NoteIn f.bytes (f.phdr j).offset (f.phdr j).windowEnd m) ∧
        (f.phdr i).type = ptNote ∧
          FirstIn f.bytes (f.phdr i).offset (f.phdr i).windowEnd n := by
    rw [Option.join_eq_some_iff, search_range_eq_iff (by simp)]
    simp only [visitSegment_pass_iff, visitSegment_stop_iff]
    constructor
    · rintro ⟨i, hi, hpass, hread, htype, hfirst⟩
      refine ⟨i, hi, ?_, fun j hj => (hpass j hj).2, htype, hfirst⟩
      intro j hj
      rcases Nat.lt_or_eq_of_le hj with hlt | rfl
      · exact (hpass j hlt).1
      · exact hread
    · rintro ⟨i, hi, hread, hpass, htype, hfirst⟩
      exact ⟨i, hi, fun j hj => ⟨hread j (Nat.le_of_lt hj), hpass j hj⟩, hread i (Nat.le_refl i),
        htype, hfirst⟩
  unfold readBuildIdNote
  split
  · rename_i hnone
    rw [readAll_eq_none_iff (by omega), Nat.zero_add] at hnone
    exact iff_of_false (by simp) fun h => hnone h.elf.1
  · rename_i b hb
    obtain ⟨hle, rfl⟩ := (readAll_eq_some_iff (by omega)).mp hb
    rw [Nat.zero_add] at hle
    change (if ¬f.header.IsElf64 then none else if f.header.phentsize ≠ 56 ∨ f.header.phnum = 0
      then none else (search (visitSegment f f.header) (List.range f.header.phnum)).join) = some n ↔ _
    by_cases helf : f.header.IsElf64
    · rw [if_neg (not_not.mpr helf)]
      by_cases hentries : f.header.phentsize ≠ 56 ∨ f.header.phnum = 0
      · rw [if_pos hentries]
        refine iff_of_false (by simp) fun h => ?_
        rcases hentries with hsize | hzero
        · exact hsize h.entries
        · obtain ⟨i, hi, -⟩ := h.window
          omega
      · rw [if_neg hentries, hsearch]
        rw [not_or, not_not] at hentries
        exact ⟨fun h => ⟨⟨hle, helf⟩, hentries.1, h⟩, fun h => h.window⟩
    · rw [if_pos helf]
      exact iff_of_false (by simp) fun h => helf h.elf.2

end Running

/-! ## The note of the index -/

/-- The file has a part of it. -/
def Span.Readable (f : RegularFile) (s : Span) : Prop := (readAll f s.size s.off).isSome

/-- There is no complete note in a part of the file. -/
def Span.Silent (f : RegularFile) (s : Span) : Prop :=
  s.Readable f ∧ ∀ m, ¬NoteIn f.bytes s.off (s.off + s.size) m

/-- A note is the first one of a part of the file. -/
def Span.Tells (f : RegularFile) (s : Span) (n : Note) : Prop :=
  s.Readable f ∧ FirstIn f.bytes s.off (s.off + s.size) n

/-- A section has another name, or no note. -/
def SectionPassed (f : RegularFile) (strs : List UInt8) (i : Nat) : Prop :=
  sectionSpan f f.header strs i = some none ∨
    ∃ s, sectionSpan f f.header strs i = some (some s) ∧ s.Silent f

/-- The file has no sections, or none of them has the note. -/
def NoSection (f : RegularFile) : Prop :=
  f.header.HasSections → ∃ strs, stringTable f f.header = some strs ∧
    ∀ i, i < f.header.shnum → SectionPassed f strs i

/-- The build-id note of a file: the first one of the first section that has the name and a note,
else of the first span of adjacent note segments that has a note. -/
inductive Designated (f : RegularFile) (n : Note) : Prop
  | bySection {strs : List UInt8} {i : Nat} {s : Span} (elf : f.IsElf64)
      (sections : f.header.HasSections) (strings : stringTable f f.header = some strs)
      (lt : i < f.header.shnum) (earlier : ∀ j, j < i → SectionPassed f strs j)
      (named : sectionSpan f f.header strs i = some (some s)) (tells : s.Tells f n)
  | bySegments {spans earlier later : List Span} {s : Span} (elf : f.IsElf64)
      (sections : NoSection f) (merged : mergedSpans f f.header = some spans)
      (split : spans = earlier ++ s :: later) (silent : ∀ t ∈ earlier, t.Silent f)
      (tells : s.Tells f n)

section Index

variable {f : RegularFile} {n : Note} {s : Span} {strs : List UInt8} {i : Nat}

theorem noteOfSpan_eq (f : RegularFile) (s : Span) : noteOfSpan f s =
    if (readAll f s.size s.off).isSome then
      some ((scan (bytesAt s.size f.bytes s.off)).map (Note.shift s.off))
    else none := by
  unfold noteOfSpan
  cases h : readAll f s.size s.off with
  | none => rfl
  | some b =>
      rw [Option.map_some, parseNote_eq_scan, readAll_eq_some h]
      rfl

theorem noteOfSpan_stop_iff : noteOfSpan f s = some (some n) ↔ s.Tells f n := by
  rw [noteOfSpan_eq, Span.Tells, Span.Readable, ← scan_window_eq_some_iff]
  split <;> rename_i hread <;> simp [hread]

theorem noteOfSpan_pass_iff : noteOfSpan f s = some none ↔ s.Silent f := by
  rw [noteOfSpan_eq, Span.Silent, Span.Readable, ← scan_window_eq_none_iff]
  split <;> rename_i hread <;> simp [hread]

theorem visitSection_stop_iff :
    visitSection f f.header strs i = some (some n) ↔
      ∃ s, sectionSpan f f.header strs i = some (some s) ∧ s.Tells f n := by
  rw [visitSection, Option.bind_eq_some_iff]
  constructor
  · rintro ⟨span, hspan, h⟩
    cases span with
    | none => exact nomatch Option.some.inj h
    | some s => exact ⟨s, hspan, noteOfSpan_stop_iff.mp h⟩
  · rintro ⟨s, hspan, h⟩
    exact ⟨some s, hspan, noteOfSpan_stop_iff.mpr h⟩

theorem visitSection_pass_iff :
    visitSection f f.header strs i = some none ↔ SectionPassed f strs i := by
  rw [visitSection, Option.bind_eq_some_iff]
  constructor
  · rintro ⟨span, hspan, h⟩
    cases span with
    | none => exact Or.inl hspan
    | some s => exact Or.inr ⟨s, hspan, noteOfSpan_pass_iff.mp h⟩
  · rintro (hspan | ⟨s, hspan, h⟩)
    · exact ⟨none, hspan, rfl⟩
    · exact ⟨some s, hspan, noteOfSpan_pass_iff.mpr h⟩

theorem sectionNote_stop_iff :
    sectionNote f f.header = some (some n) ↔ f.header.HasSections ∧
      ∃ strs, stringTable f f.header = some strs ∧ ∃ i, i < f.header.shnum ∧
        (∀ j, j < i → SectionPassed f strs j) ∧
        ∃ s, sectionSpan f f.header strs i = some (some s) ∧ s.Tells f n := by
  unfold sectionNote
  split
  · rename_i hsections
    rw [and_iff_right hsections, Option.bind_eq_some_iff]
    refine exists_congr fun strs => and_congr_right fun _ => ?_
    rw [search_range_eq_iff (by simp)]
    simp only [visitSection_pass_iff, visitSection_stop_iff]
  · rename_i hsections
    exact iff_of_false (fun h => nomatch Option.some.inj h) fun h => hsections h.1

theorem sectionNote_pass_iff : sectionNote f f.header = some none ↔ NoSection f := by
  unfold sectionNote NoSection
  split
  · rename_i hsections
    rw [Option.bind_eq_some_iff, forall_prop_of_true hsections]
    refine exists_congr fun strs => and_congr_right fun _ => ?_
    rw [search_pass_iff]
    simp only [List.mem_range, visitSection_pass_iff]
  · rename_i hsections
    exact iff_of_true rfl fun h => absurd h hsections

theorem segmentNote_stop_iff :
    segmentNote f f.header = some (some n) ↔ ∃ spans, mergedSpans f f.header = some spans ∧
      ∃ earlier s later, spans = earlier ++ s :: later ∧ (∀ t ∈ earlier, t.Silent f) ∧
        s.Tells f n := by
  rw [segmentNote, Option.bind_eq_some_iff]
  refine exists_congr fun spans => and_congr_right fun _ => ?_
  rw [search_eq_iff (by simp)]
  simp only [noteOfSpan_pass_iff, noteOfSpan_stop_iff]

/-- The note of the index. -/
theorem buildIdNote_eq_some_iff : buildIdNote f = some n ↔ Designated f n := by
  have hread : buildIdNote f = some n ↔ f.IsElf64 ∧
      (sectionNote f f.header = some (some n) ∨
        sectionNote f f.header = some none ∧ segmentNote f f.header = some (some n)) := by
    rw [buildIdNote, Option.bind_eq_some_iff]
    constructor
    · rintro ⟨b, hb, h⟩
      obtain ⟨hle, rfl⟩ := (readAll_eq_some_iff (by omega)).mp hb
      rw [Nat.zero_add] at hle
      unfold noteOfHeader at h
      split at h
      · contradiction
      · rename_i helf
        refine ⟨⟨hle, not_not.mp helf⟩, ?_⟩
        obtain ⟨bySection, hsection, h⟩ := Option.bind_eq_some_iff.mp h
        cases bySection with
        | some m =>
            obtain rfl := Option.some.inj h
            exact Or.inl hsection
        | none => exact Or.inr ⟨hsection, Option.join_eq_some_iff.mp h⟩
    · rintro ⟨⟨hle, helf⟩, h⟩
      refine ⟨bytesAt 64 f.bytes 0, ?_, ?_⟩
      · rw [readAll_eq_some_iff (by omega), Nat.zero_add]
        exact ⟨hle, rfl⟩
      · change noteOfHeader f f.header = some n
        rw [noteOfHeader, if_neg (not_not.mpr helf), Option.bind_eq_some_iff]
        rcases h with hsection | ⟨hsection, hsegment⟩
        · exact ⟨some n, hsection, rfl⟩
        · exact ⟨none, hsection, Option.join_eq_some_iff.mpr hsegment⟩
  rw [hread, sectionNote_stop_iff, sectionNote_pass_iff, segmentNote_stop_iff]
  constructor
  · rintro ⟨helf, ⟨hsections, strs, hstrs, i, hi, hpass, s, hs, htells⟩ |
      ⟨hno, spans, hspans, earlier, s, later, hsplit, hsilent, htells⟩⟩
    · exact .bySection helf hsections hstrs hi hpass hs htells
    · exact .bySegments helf hno hspans hsplit hsilent htells
  · intro h
    cases h with
    | bySection helf hsections hstrs hi hpass hs htells =>
        exact ⟨helf, Or.inl ⟨hsections, _, hstrs, _, hi, hpass, _, hs, htells⟩⟩
    | bySegments helf hno hspans hsplit hsilent htells =>
        exact ⟨helf, Or.inr ⟨hno, _, hspans, _, _, _, hsplit, hsilent, htells⟩⟩

end Index

/-! ## Agreement -/

/-- Where the index has an id the running program stores the same one, of the same note. -/
def Agree (f : RegularFile) : Prop :=
  ∀ id, buildId f = some id → readBuildId f = id ∧ buildIdNote f = readBuildIdNote f

/-- The two readers agree exactly where the build-id note is the first one in the first 4096 bytes
of a note segment, and no earlier segment has a note there. -/
theorem readers_agree_iff (f : RegularFile) :
    Agree f ↔ ∀ n, Designated f n → InFirstWindow f n := by
  simp only [← buildIdNote_eq_some_iff, ← readBuildIdNote_eq_some_iff]
  constructor
  · intro h n hn
    obtain ⟨-, hsame⟩ := h (idOf f n) (by rw [buildId, hn, Option.map_some])
    rw [← hsame, hn]
  · intro h id hid
    obtain ⟨n, hn, rfl⟩ := Option.map_eq_some_iff.mp hid
    have hread := h n hn
    exact ⟨by rw [readBuildId, hread], by rw [hn, hread]⟩

/-! ## A note that straddles two segments -/

/-- The header of an executable whose two program headers follow it, without sections. -/
def straddlingHeader : List UInt8 :=
  [127, 69, 76, 70, 2, 1, 1, 0, 0, 0, 0, 0, 0, 0, 0, 0] ++ littleEndian 2 2 ++ littleEndian 2 62 ++
    littleEndian 4 1 ++ littleEndian 8 0 ++ littleEndian 8 64 ++ littleEndian 8 0 ++
    littleEndian 4 0 ++ littleEndian 2 64 ++ littleEndian 2 56 ++ littleEndian 2 2 ++
    littleEndian 2 0 ++ littleEndian 2 0 ++ littleEndian 2 0

/-- The program header of a note segment. -/
def noteSegment (off size align : Nat) : List UInt8 :=
  littleEndian 4 4 ++ littleEndian 4 4 ++ littleEndian 8 off ++ littleEndian 8 off ++
    littleEndian 8 off ++ littleEndian 8 size ++ littleEndian 8 size ++ littleEndian 8 align

/-- Another note of the same owner. -/
def otherNote (type : Nat) : List UInt8 :=
  littleEndian 4 4 ++ littleEndian 4 16 ++ littleEndian 4 type ++ [71, 78, 85, 0] ++
    List.replicate 16 0

/-- The first segment ends four bytes before the id does. -/
def straddling : RegularFile where
  bytes := straddlingHeader ++ noteSegment 176 64 8 ++ noteSegment 240 36 4 ++ otherNote 5 ++
    pattern 20 ++ (List.range 20).map UInt8.ofNat ++ otherNote 1
  size_lt := by decide +kernel

theorem straddle_disagrees :
    buildId straddling = some "000102030405060708090a0b0c0d0e0f10111213" ∧
      readBuildId straddling = "unknown" ∧ ¬Agree straddling := by
  have hindex : buildId straddling = some "000102030405060708090a0b0c0d0e0f10111213" := by
    decide +kernel
  have hrunning : readBuildId straddling = "unknown" := by decide +kernel
  refine ⟨hindex, hrunning, fun h => ?_⟩
  have hsame := (h _ hindex).1
  rw [hrunning] at hsame
  exact absurd hsame (by decide)

end BuildId
end LiveSurface
