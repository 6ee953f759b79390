import LiveSurface.Target.Parse

/-!
# The sections of a signed object

What the parser sees of an object is a list of named sections.  The names are compared where they
are, and each has been found to end inside the table of names; so the parser never leaves the
object, and its scan is a loop over the list.

Main results:

- Theorem {lit}`sectionTables_accepts`: the checks of the two tables.
- Theorem {lit}`visitSection_agrees`: one section of the scan.
- Theorem {lit}`scan_eq_some_iff`: the lists of sections that the scan accepts.
-/

namespace LiveSurface
namespace Target

open Checked

/-! ## The two tables -/

/-- The header of the object. -/
def objectHeader (elf : Buffer) : Ehdr := Ehdr.ofBytes (bytesAt 64 elf 0)

/-- The header of a section of the object. -/
def sectionHeader (elf : Buffer) (shoff i : Nat) : Shdr :=
  Shdr.ofBytes (bytesAt 64 elf (shoff + i * 64))

/-- The header of the section with the names. -/
def namesHeader (elf : Buffer) : Shdr :=
  sectionHeader elf (objectHeader elf).shoff (objectHeader elf).shstrndx

/-- The two tables, as the header has them. -/
def tablesOf (elf : Buffer) : Tables where
  shoff := (objectHeader elf).shoff
  shnum := (objectHeader elf).shnum
  strOff := (namesHeader elf).offset
  strSize := (namesHeader elf).size

/-- The object has a header, and its two tables lie inside. -/
structure InBounds (elf : Buffer) : Prop where
  length : 64 ≤ elf.length
  shentsize : (objectHeader elf).shentsize = 64
  shnum : (objectHeader elf).shnum ≠ 0
  shstrndx : (objectHeader elf).shstrndx < (objectHeader elf).shnum
  headers : lsTargetSpan elf.length (objectHeader elf).shoff ((objectHeader elf).shnum * 64)
  names : lsTargetSpan elf.length (namesHeader elf).offset (namesHeader elf).size

section Tables

variable {elf : Buffer} {header : Ehdr → Bool} {strings : Shdr → Bool} {i : Nat}

/-- A section header that the table holds is inside the object. -/
theorem rdBytes_header {shoff shnum : Nat} (h : lsTargetSpan elf.length shoff (shnum * 64))
    (hi : i < shnum) :
    rdBytes 64 elf (shoff + i * 64) = some (bytesAt 64 elf (shoff + i * 64)) := by
  obtain ⟨hoff, hsize⟩ := h
  exact rdBytes_of_le (by omega)

theorem sectionTables_accepts : Accepts (sectionTables header strings elf) fun t =>
    InBounds elf ∧ header (objectHeader elf) = true ∧ strings (namesHeader elf) = true ∧
      tablesOf elf = t := by
  refine accepts_refuseIf (fun hlen t ht => Nat.not_lt.mpr ht.1.length hlen) fun hlen => ?_
  rw [Nat.not_lt] at hlen
  refine accepts_read (rdBytes_of_le (by omega)) ?_
  refine accepts_refuseIf (fun hbad t ht => ?_) fun hheader => ?_
  · rcases hbad with hbad | hbad | hbad | hbad | hbad
    · exact absurd ht.2.1 (Bool.not_eq_true _ ▸ hbad)
    · exact hbad ht.1.shentsize
    · exact ht.1.shnum hbad
    · exact Nat.not_lt.mpr hbad ht.1.shstrndx
    · exact hbad ht.1.headers
  · simp only [not_or, not_not, Nat.not_le, Bool.not_eq_false] at hheader
    obtain ⟨hright, hsize, hnum, hndx, hspan⟩ := hheader
    refine accepts_read (rdBytes_header hspan hndx) ?_
    refine accepts_refuseIf (fun hbad t ht => ?_) fun hstrings => ?_
    · rcases hbad with hbad | hbad
      · exact absurd ht.2.2.1 (Bool.not_eq_true _ ▸ hbad)
      · exact hbad ht.1.names
    · simp only [not_or, not_not, Bool.not_eq_false] at hstrings
      refine accepts_pure.congr fun t => ?_
      have hbounds : InBounds elf := ⟨hlen, hsize, hnum, hndx, hspan, hstrings.2⟩
      exact ⟨fun ht => ⟨hbounds, hright, hstrings.1, ht⟩, fun ht => ht.2.2.2⟩

end Tables

/-! ## Named sections -/

structure NamedSection where
  name : List UInt8
  header : Shdr
deriving DecidableEq

/-- A section, where its name begins and ends in the table of names. -/
def sectionAt (elf : Buffer) (i : Nat) : Option NamedSection :=
  if (sectionHeader elf (tablesOf elf).shoff i).name ≥ (tablesOf elf).strSize then none
  else
    (cstr (bytesAt ((tablesOf elf).strSize - (sectionHeader elf (tablesOf elf).shoff i).name) elf
        ((tablesOf elf).strOff + (sectionHeader elf (tablesOf elf).shoff i).name))).map fun name =>
      { name, header := sectionHeader elf (tablesOf elf).shoff i }

/-- The sections of an object, in their order. -/
def sections (elf : Buffer) : Option (List NamedSection) :=
  (List.range (tablesOf elf).shnum).mapM (sectionAt elf)

/-- A position in the object holds the name of a section. -/
def Holds (elf : Buffer) (name : Nat) (s : NamedSection) : Prop :=
  cstr (elf.drop name) = some s.name

theorem readSection_agrees {elf : Buffer} {i : Nat} (h : InBounds elf)
    (hi : i < (tablesOf elf).shnum) :
    Agrees (fun p s => p.1 = s.header ∧ Holds elf p.2 s) (readSection elf (tablesOf elf) i)
      (sectionAt elf i) := by
  obtain ⟨hoff, hsize⟩ : lsTargetSpan elf.length (tablesOf elf).strOff (tablesOf elf).strSize :=
    h.names
  unfold sectionAt
  refine agrees_read (rdBytes_header h.headers hi) ?_
  refine agrees_refuseIf (fun hname => if_pos hname) fun hname => ?_
  rw [if_neg (show ¬(sectionHeader elf (tablesOf elf).shoff i).name ≥ (tablesOf elf).strSize from
    hname)]
  refine agrees_read (rdBytes_of_le (by omega)) ?_
  refine agrees_refuseIf (fun hnul => ?_) fun hnul => ?_
  · exact Option.map_eq_none_iff.mpr (cstr_eq_none_iff.mpr hnul)
  · obtain ⟨name, hwindow⟩ := Option.ne_none_iff_exists'.mp (mt cstr_eq_none_iff.mp hnul)
    have hname : cstr (elf.drop _) = some name := cstr_of_take hwindow
    change Agrees _ (pure _) (Option.map _ (cstr (bytesAt _ elf _)))
    rw [show cstr (bytesAt ((tablesOf elf).strSize -
        (sectionHeader elf (tablesOf elf).shoff i).name) elf ((tablesOf elf).strOff +
        (sectionHeader elf (tablesOf elf).shoff i).name)) = some name from hwindow]
    exact agrees_pure ⟨rfl, hname⟩

/-! ## The scan -/

/-- The section of a program. -/
def NamedSection.IsProgram (s : NamedSection) : Prop :=
  Program.fentryBytes <+: s.name ∨ Vm.fexitBytes <+: s.name

instance (s : NamedSection) : Decidable s.IsProgram := inferInstanceAs (Decidable (_ ∨ _))

/-- The section of the record. -/
def NamedSection.IsRecord (s : NamedSection) : Prop := s.name = lsTargetSection

instance (s : NamedSection) : Decidable s.IsRecord := inferInstanceAs (Decidable (_ = _))

/-- A program section is executable and holds whole instructions. -/
structure ProgramRight (elf : Buffer) (sh : Shdr) : Prop where
  type : sh.type = shtProgbits
  exec : sh.IsExec
  size : sh.size ≠ 0
  whole : sh.size % 8 = 0
  inside : lsTargetSpan elf.length sh.offset sh.size

/-- The section of the record is not executable. -/
structure RecordRight (elf : Buffer) (sh : Shdr) : Prop where
  type : sh.type = shtProgbits
  notExec : ¬sh.IsExec
  inside : lsTargetSpan elf.length sh.offset sh.size

theorem programRight_iff {elf : Buffer} {sh : Shdr} : ProgramRight elf sh ↔
    sh.type = shtProgbits ∧ sh.IsExec ∧ sh.size ≠ 0 ∧ sh.size % 8 = 0 ∧
      lsTargetSpan elf.length sh.offset sh.size :=
  ⟨fun h => ⟨h.type, h.exec, h.size, h.whole, h.inside⟩,
    fun ⟨h₁, h₂, h₃, h₄, h₅⟩ => ⟨h₁, h₂, h₃, h₄, h₅⟩⟩

theorem recordRight_iff {elf : Buffer} {sh : Shdr} : RecordRight elf sh ↔
    sh.type = shtProgbits ∧ ¬sh.IsExec ∧ lsTargetSpan elf.length sh.offset sh.size :=
  ⟨fun h => ⟨h.type, h.notExec, h.inside⟩, fun ⟨h₁, h₂, h₃⟩ => ⟨h₁, h₂, h₃⟩⟩

instance (elf : Buffer) (sh : Shdr) : Decidable (ProgramRight elf sh) :=
  decidable_of_iff _ programRight_iff.symm

instance (elf : Buffer) (sh : Shdr) : Decidable (RecordRight elf sh) :=
  decidable_of_iff _ recordRight_iff.symm

/-- A program goes with those before it. -/
def ProgramTaken (elf : Buffer) (before : List NamedSection) (s : NamedSection) : Prop :=
  before.length ≠ lsTargetSetMax ∧ ProgramRight elf s.header ∧
    s.name ∉ before.map NamedSection.name

instance (elf : Buffer) (before : List NamedSection) (s : NamedSection) :
    Decidable (ProgramTaken elf before s) := inferInstanceAs (Decidable (_ ∧ _))

/-- There is one record. -/
def RecordTaken (elf : Buffer) (before : List NamedSection) (s : NamedSection) : Prop :=
  before.length ≠ 1 ∧ RecordRight elf s.header

instance (elf : Buffer) (before : List NamedSection) (s : NamedSection) :
    Decidable (RecordTaken elf before s) := inferInstanceAs (Decidable (_ ∧ _))

def takeProgram (elf : Buffer) (before : List NamedSection) (s : NamedSection) :
    Option (List NamedSection) :=
  if s.IsProgram then collect (ProgramTaken elf) before s else some before

def takeRecord (elf : Buffer) (before : List NamedSection) (s : NamedSection) :
    Option (List NamedSection) :=
  if s.IsRecord then collect (RecordTaken elf) before s else some before

/-- One section of the scan: the programs and the records so far. -/
def takeSection (elf : Buffer) (p : List NamedSection × List NamedSection) (s : NamedSection) :
    Option (List NamedSection × List NamedSection) :=
  (takeProgram elf p.1 s).bind fun programs =>
    (takeRecord elf p.2 s).bind fun records => some (programs, records)

/-- The positions hold the names of the programs, and the record is where it is. -/
structure Scanned (elf : Buffer) (f : Found) (p : List NamedSection × List NamedSection) :
    Prop where
  names : List.Forall₂ (Holds elf) f.names p.1
  record : f.record = p.2.head?.map fun s => (s.header.offset, s.header.size)
  once : p.2.length ≤ 1

section Scan

variable {elf : Buffer} {f : Found} {p : List NamedSection × List NamedSection} {s : NamedSection}
  {name : Nat}

theorem fentryBytes_nonzero : (0 : UInt8) ∉ Program.fentryBytes := by decide

theorem fexitBytes_nonzero : (0 : UInt8) ∉ Vm.fexitBytes := by decide

theorem isProgram_eq (h : Holds elf name s) : isProgram elf name = some (decide s.IsProgram) := by
  have hentry := strncmp_of_cstr h fentryBytes_nonzero
  have hexit := strncmp_of_cstr h fexitBytes_nonzero
  change strncmp 7 _ _ = _ at hentry
  change strncmp 6 _ _ = _ at hexit
  rw [isProgram, hentry, hexit]
  cases hp : Program.fentryBytes.isPrefixOf s.name with
  | true => simp [NamedSection.IsProgram, List.isPrefixOf_iff_prefix.mp hp]
  | false =>
      have hnot : ¬Program.fentryBytes <+: s.name := by
        rw [← List.isPrefixOf_iff_prefix, hp]
        exact Bool.false_ne_true
      simp [NamedSection.IsProgram, hnot, ← List.isPrefixOf_iff_prefix]

theorem isNamed_eq {names : List Nat} {before : List NamedSection} (h : Holds elf name s)
    (hnames : List.Forall₂ (Holds elf) names before) :
    isNamed elf name names = some (decide (s.name ∈ before.map NamedSection.name)) := by
  induction hnames with
  | nil => rfl
  | @cons other t names before ht _ ih =>
      rw [isNamed, strcmp_of_cstr h ht, ih]
      by_cases heq : s.name = t.name <;> simp [heq]

theorem visitProgram_agrees (h : Holds elf name s) (hf : Scanned elf f p) :
    Agrees (fun f programs => Scanned elf f (programs, p.2)) (visitProgram elf f s.header name)
      (takeProgram elf p.1 s) := by
  refine agrees_read (isProgram_eq h) ?_
  unfold takeProgram
  by_cases hprogram : s.IsProgram
  · rw [if_pos hprogram, decide_eq_true hprogram, if_pos rfl]
    refine agrees_refuseIf (fun hbad => if_neg fun ht => ?_) fun hright => ?_
    · obtain ⟨hlen, hsh, -⟩ := ht
      rw [hf.names.length_eq] at hbad
      rcases hbad with hbad | hbad | hbad | hbad | hbad | hbad
      · exact hlen hbad
      · exact hbad hsh.type
      · exact hbad hsh.exec
      · exact hsh.size hbad
      · exact hbad hsh.whole
      · exact hbad hsh.inside
    · refine agrees_read (isNamed_eq h hf.names) ?_
      refine agrees_refuseIf (fun hnamed => if_neg fun ht => ?_) fun hnew => ?_
      · exact ht.2.2 (of_decide_eq_true hnamed)
      · simp only [not_or, not_not] at hright
        obtain ⟨hlen, htype, hexec, hsize, hwhole, hinside⟩ := hright
        rw [hf.names.length_eq] at hlen
        rw [collect, if_pos ⟨hlen, ⟨htype, hexec, hsize, hwhole, hinside⟩, fun hmem =>
          hnew (decide_eq_true hmem)⟩]
        exact agrees_pure
          ⟨List.rel_append hf.names (List.Forall₂.cons h List.Forall₂.nil), hf.record, hf.once⟩
  · rw [if_neg hprogram, decide_eq_false hprogram]
    exact agrees_pure hf

theorem visitRecord_agrees (h : Holds elf name s) (hf : Scanned elf f p) :
    Agrees (fun f records => Scanned elf f (p.1, records)) (visitRecord elf f s.header name)
      (takeRecord elf p.2 s) := by
  have hliteral : cstr (lsTargetSection ++ [0]) = some lsTargetSection := cstr_append (by decide)
  refine agrees_read (strcmp_of_cstr h hliteral) ?_
  unfold takeRecord
  by_cases hrecord : s.IsRecord
  · have hname : s.name = lsTargetSection := hrecord
    rw [if_pos hrecord, decide_eq_true hname, if_pos rfl]
    refine agrees_refuseIf (fun hbad => if_neg fun ht => ?_) fun hright => ?_
    · obtain ⟨hlen, hsh⟩ := ht
      rcases hbad with hbad | hbad | hbad | hbad
      · have hnone : p.2 = [] := List.length_eq_zero_iff.mp (by have := hf.once; omega)
        rw [hf.record, hnone] at hbad
        exact hbad rfl
      · exact hbad hsh.type
      · exact hsh.notExec hbad
      · exact hbad hsh.inside
    · simp only [not_or, not_not] at hright
      obtain ⟨hnone, htype, hexec, hinside⟩ := hright
      rw [hf.record, Option.map_eq_none_iff, List.head?_eq_none_iff] at hnone
      rw [collect, hnone, if_pos ⟨by decide, ⟨htype, hexec, hinside⟩⟩]
      exact agrees_pure ⟨hf.names, rfl, Nat.le_refl 1⟩
  · have hname : s.name ≠ lsTargetSection := hrecord
    rw [if_neg hrecord, decide_eq_false hname]
    exact agrees_pure hf

/-- One section of the scan. -/
theorem visitSection_agrees {i : Nat} (h : InBounds elf) (hi : i < (tablesOf elf).shnum)
    (hf : Scanned elf f p) : Agrees (Scanned elf) (visitSection elf (tablesOf elf) f i)
      ((sectionAt elf i).bind (takeSection elf p)) := by
  refine (readSection_agrees h hi).bind fun (sh, name) s hs => ?_
  obtain ⟨rfl, hname⟩ := hs
  refine (visitProgram_agrees hname hf).bind fun f' programs hf' => ?_
  exact (visitRecord_agrees hname hf').map fun _ _ hf'' => hf''

end Scan

/-! ## What the scan accepts -/

/-- The program sections, in their order. -/
def programs (ss : List NamedSection) : List NamedSection := ss.filter fun s => s.IsProgram

/-- The sections with records. -/
def records (ss : List NamedSection) : List NamedSection := ss.filter fun s => s.IsRecord

/-- The programs are right and have names of their own; there is at most one record. -/
structure ScanRight (elf : Buffer) (ss : List NamedSection) : Prop where
  count : (programs ss).length ≤ lsTargetSetMax
  programs : ∀ s ∈ programs ss, ProgramRight elf s.header
  distinct : ((Target.programs ss).map NamedSection.name).Nodup
  once : (records ss).length ≤ 1
  records : ∀ s ∈ records ss, RecordRight elf s.header

theorem takePrograms_eq_some_iff {elf : Buffer} {ss ps : List NamedSection} :
    ss.foldlM (takeProgram elf) [] = some ps ↔
      ps = programs ss ∧ (programs ss).length ≤ lsTargetSetMax ∧
        (∀ s ∈ programs ss, ProgramRight elf s.header) ∧
        ((programs ss).map NamedSection.name).Nodup := by
  have hfilter : ss.foldlM (takeProgram elf) [] =
      (programs ss).foldlM (collect (ProgramTaken elf)) [] := by
    rw [programs, List.foldlM_filter]
    simp only [decide_eq_true_eq]
    rfl
  rw [hfilter, foldlM_collect_eq_some_iff, List.nil_append]
  refine and_congr_right fun _ => ?_
  rw [← length_split_iff, ← forall_split_iff, ← nodup_split_iff]
  simp only [List.nil_append, ProgramTaken]
  exact ⟨fun h => ⟨fun b s a hs => (h b s a hs).1, fun b s a hs => (h b s a hs).2.1,
      fun b s a hs => (h b s a hs).2.2⟩,
    fun h b s a hs => ⟨h.1 b s a hs, h.2.1 b s a hs, h.2.2 b s a hs⟩⟩

theorem takeRecords_eq_some_iff {elf : Buffer} {ss rs : List NamedSection} :
    ss.foldlM (takeRecord elf) [] = some rs ↔
      rs = records ss ∧ (records ss).length ≤ 1 ∧ ∀ s ∈ records ss, RecordRight elf s.header := by
  have hfilter : ss.foldlM (takeRecord elf) [] =
      (records ss).foldlM (collect (RecordTaken elf)) [] := by
    rw [records, List.foldlM_filter]
    simp only [decide_eq_true_eq]
    rfl
  rw [hfilter, foldlM_collect_eq_some_iff, List.nil_append]
  refine and_congr_right fun _ => ?_
  rw [← length_split_iff, ← forall_split_iff]
  simp only [List.nil_append, RecordTaken]
  exact ⟨fun h => ⟨fun b s a hs => (h b s a hs).1, fun b s a hs => (h b s a hs).2⟩,
    fun h b s a hs => ⟨h.1 b s a hs, h.2 b s a hs⟩⟩

/-- The lists of sections that the scan accepts. -/
theorem scan_eq_some_iff {elf : Buffer} {ss : List NamedSection}
    {p : List NamedSection × List NamedSection} :
    ss.foldlM (takeSection elf) ([], []) = some p ↔
      p = (programs ss, records ss) ∧ ScanRight elf ss := by
  obtain ⟨ps, rs⟩ := p
  rw [show ss.foldlM (takeSection elf) ([], []) = _ from
    foldlM_pair (f := takeProgram elf) (g := takeRecord elf)]
  simp only [Option.bind_eq_some_iff, Option.some.injEq, Prod.mk.injEq, takePrograms_eq_some_iff,
    takeRecords_eq_some_iff]
  constructor
  · rintro ⟨_, ⟨rfl, hcount, hprograms, hdistinct⟩, _, ⟨rfl, honce, hrecords⟩, rfl, rfl⟩
    exact ⟨⟨rfl, rfl⟩, ⟨hcount, hprograms, hdistinct, honce, hrecords⟩⟩
  · rintro ⟨⟨rfl, rfl⟩, h⟩
    exact ⟨_, ⟨rfl, h.count, h.programs, h.distinct⟩, _, ⟨rfl, h.once, h.records⟩, rfl, rfl⟩

/-- The scan of the code: it stays inside the object and finds the programs and the records. -/
theorem scan_agrees {elf : Buffer} (h : InBounds elf) :
    Agrees (Scanned elf)
      ((List.range (tablesOf elf).shnum).foldlM (visitSection elf (tablesOf elf))
        { names := [], record := none })
      ((sections elf).bind fun ss => ss.foldlM (takeSection elf) ([], [])) := by
  rw [sections, ← foldlM_lookup]
  refine agrees_foldlM (fun i hi f p hf => ?_) ⟨List.Forall₂.nil, rfl, Nat.zero_le 1⟩
  exact visitSection_agrees h (List.mem_range.mp hi) hf

end Target
end LiveSurface
