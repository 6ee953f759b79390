import LiveSurface.Target.Grammar

/-!
# The entries of a program

{lit}`ls_target_program_entries` walks the sections with checks of its own and asks the parser for
the target of every entry program.  Where it answers, its list has one entry for each program
section, in the order of the sections, with the address and the pad that the parser has for it.

Main results:

- Theorem {lit}`visitEntry_agrees`: one section of the walk.
- Theorem {lit}`entries_listed`: the walk answers with the program sections.
- Theorem {lit}`target_grammar`: what the two functions accept.
-/

namespace LiveSurface
namespace Target

open Checked
open Control (LsTarget lsTargetMagic)

/-! ## One section -/

/-- The entry is that of a program section, by the target that the parser has for its name. -/
structure EntryFor (elf : Buffer) (build : Option CString) (checkFile : LsTarget → Bool)
    (s : NamedSection) (e : Program.LsProgramEntry) : Prop where
  fits : s.name.length < 80
  name : e.sectionName = s.name ++ List.replicate (80 - s.name.length) 0
  target : ∃ sec : CString, sec.bytes = s.name ∧ ∃ target,
    lsTargetParse elf sec build = answer (some target) ∧ e.address = target.entry ∧
      e.pad = UInt64.ofNat target.padOffset.toNat ∧ checkFile target = true

/-- The answer of the parser for a name. -/
def targetOf (elf : Buffer) (build : Option CString) (name : List UInt8) : Option LsTarget :=
  if h : (0 : UInt8) ∉ name then Option.join (lsTargetParse elf ⟨name, h⟩ build) else none

/-- One section of the walk. -/
def takeEntry (elf : Buffer) (build : Option CString) (checkFile : LsTarget → Bool)
    (out : List Program.LsProgramEntry) (s : NamedSection) : Option (List Program.LsProgramEntry) :=
  if Vm.fexitBytes <+: s.name then none
  else if Program.fentryBytes <+: s.name then
    if out.length = lsProgramEntries ∨ s.name.length ≥ 80 then none
    else (targetOf elf build s.name).bind fun target =>
      if checkFile target = false then none else some (out ++ [programEntry s.name target])
  else some out

section Walk

variable {elf : Buffer} {build : Option CString} {checkFile : LsTarget → Bool}

theorem visitEntry_agrees {out : List Program.LsProgramEntry} {i : Nat} (h : InBounds elf)
    (hi : i < (tablesOf elf).shnum) :
    Agrees (· = ·) (visitEntry elf (tablesOf elf) build checkFile out i)
      ((sectionAt elf i).bind (takeEntry elf build checkFile out)) := by
  refine (readSection_agrees h hi).bind fun (sh, name) s hs => ?_
  obtain ⟨-, hname⟩ := hs
  unfold takeEntry
  refine agrees_read (strncmp_of_cstr hname fexitBytes_nonzero) ?_
  refine agrees_refuseIf (fun hexit => if_pos (List.isPrefixOf_iff_prefix.mp hexit)) fun hexit => ?_
  rw [List.isPrefixOf_iff_prefix] at hexit
  rw [if_neg hexit]
  refine agrees_read (strncmp_of_cstr hname fentryBytes_nonzero) ?_
  by_cases hentry : Program.fentryBytes <+: s.name
  · rw [if_pos (List.isPrefixOf_iff_prefix.mpr hentry), if_pos hentry]
    refine agrees_refuseIf (fun hfull => if_pos (Or.inl hfull)) fun hfull => ?_
    obtain ⟨hzero, -⟩ := cstr_eq_some hname
    refine agrees_read (CString.at_eq_some hname hzero) ?_
    refine agrees_refuseIf (fun hlong => if_pos (Or.inr hlong)) fun hlong => ?_
    rw [if_neg (not_or.mpr ⟨hfull, hlong⟩), targetOf, dif_pos hzero]
    obtain ⟨q, hparse, -⟩ := @lsTargetParse_accepts elf ⟨s.name, hzero⟩ build
    rw [hparse]
    refine (agrees_eq_iff.mpr rfl : Agrees (· = ·) (answer q) q).bind fun target _ ht => ?_
    subst ht
    exact agrees_refuseIf (fun hbad => if_pos hbad) fun hgood => by
      rw [if_neg hgood]
      exact agrees_pure rfl
  · rw [if_neg (mt List.isPrefixOf_iff_prefix.mp hentry), if_neg hentry]
    exact agrees_pure rfl

/-- What the walk has written since it began is the program sections. -/
theorem takeEntry_listed {ss : List NamedSection} {done out : List Program.LsProgramEntry}
    (h : ss.foldlM (takeEntry elf build checkFile) done = some out) :
    ∃ new, out = done ++ new ∧ List.Forall₂ (EntryFor elf build checkFile) (programs ss) new := by
  induction ss generalizing done with
  | nil => exact ⟨[], by rw [← Option.some.inj h, List.append_nil], List.Forall₂.nil⟩
  | cons s ss ih =>
      rw [List.foldlM_cons] at h
      obtain ⟨next, hnext, h⟩ := Option.bind_eq_some_iff.mp h
      obtain ⟨new, rfl, hnew⟩ := ih h
      unfold takeEntry at hnext
      split at hnext
      · contradiction
      rename_i hexit
      split at hnext
      · rename_i hentry
        split at hnext
        · contradiction
        rename_i hshort
        obtain ⟨target, htarget, hnext⟩ := Option.bind_eq_some_iff.mp hnext
        split at hnext
        · contradiction
        rename_i hfile
        obtain rfl := Option.some.inj hnext
        have hprogram : programs (s :: ss) = s :: programs ss :=
          List.filter_cons_of_pos (decide_eq_true (Or.inl hentry))
        refine ⟨programEntry s.name target :: new, by rw [List.append_assoc]; rfl, ?_⟩
        rw [hprogram]
        refine List.Forall₂.cons ⟨?_, rfl, ?_⟩ hnew
        · rw [not_or, Nat.not_le] at hshort
          exact hshort.2
        · unfold targetOf at htarget
          split at htarget
          · rename_i hzero
            refine ⟨⟨s.name, hzero⟩, rfl, target, ?_, rfl, rfl, Bool.not_eq_false _ ▸ hfile⟩
            exact Option.join_eq_some_iff.mp htarget
          · contradiction
      · rename_i hentry
        obtain rfl := Option.some.inj hnext
        have hprogram : programs (s :: ss) = programs ss :=
          List.filter_cons_of_neg fun h => (of_decide_eq_true h).elim hentry hexit
        exact ⟨new, rfl, hprogram ▸ hnew⟩

/-- The walk stays inside the object, and answers with the program sections. -/
theorem entries_listed : ∃ q, lsTargetProgramEntries elf build checkFile = answer q ∧
    ∀ out, q = some out → out ≠ [] ∧ ∃ ss, sections elf = some ss ∧
      List.Forall₂ (EntryFor elf build checkFile) (programs ss) out := by
  have haccepts : Accepts (lsTargetProgramEntries elf build checkFile) fun out =>
      ∃ t, (InBounds elf ∧ (true : Bool) = true ∧ (true : Bool) = true ∧ tablesOf elf = t) ∧
        ∃ done, ((sections elf).bind fun ss => ss.foldlM (takeEntry elf build checkFile) []) =
          some done ∧ done ≠ [] ∧ done = out := by
    refine sectionTables_accepts.bind fun t ht => ?_
    obtain ⟨hbounds, -, -, rfl⟩ := ht
    have hwalk : Agrees (· = ·)
        ((List.range (tablesOf elf).shnum).foldlM (visitEntry elf (tablesOf elf) build checkFile) [])
        ((sections elf).bind fun ss => ss.foldlM (takeEntry elf build checkFile) []) := by
      rw [sections, ← foldlM_lookup]
      refine agrees_foldlM (fun i hi out done h => ?_) rfl
      subst h
      exact visitEntry_agrees hbounds (List.mem_range.mp hi)
    refine hwalk.accepts fun out done h _ => ?_
    subst h
    refine accepts_refuseIf (fun hempty out' h => h.1 hempty) fun hsome => ?_
    exact accepts_pure.congr fun out' => (and_iff_right hsome).symm
  obtain ⟨q, hq, hiff⟩ := haccepts
  refine ⟨q, hq, fun out hout => ?_⟩
  obtain ⟨t, -, done, hdone, hsome, rfl⟩ := (hiff out).mp hout
  obtain ⟨ss, hss, hdone⟩ := Option.bind_eq_some_iff.mp hdone
  obtain ⟨new, rfl, hnew⟩ := takeEntry_listed hdone
  exact ⟨hsome, ss, hss, hnew⟩

end Walk

/-- The parser accepts exactly the grammar, and the list of entries is that of the program
sections, each with the parser's own target.  Both stay inside the object. -/
theorem target_grammar :
    (∀ (elf : Buffer) (sec : CString) (build : Option CString),
      Accepts (lsTargetParse elf sec build) fun out =>
        ∃ b, build = some b ∧ b.bytes.length = 40 ∧ Signed elf sec.bytes b.bytes out) ∧
    ∀ (elf : Buffer) (build : Option CString) (checkFile : LsTarget → Bool),
      ∃ q, lsTargetProgramEntries elf build checkFile = answer q ∧
        ∀ out, q = some out → out ≠ [] ∧ ∃ ss, sections elf = some ss ∧
          List.Forall₂ (EntryFor elf build checkFile) (programs ss) out :=
  ⟨fun _ _ _ => lsTargetParse_accepts, fun _ _ _ => entries_listed⟩

/-! ## Objects that look signed -/

/-- An object with one program and its record looks signed: nothing is asked of the entry, of the
type of the program section or of the type of the section with the names. -/
structure LooksSigned (elf : Buffer) (sec build : List UInt8) (p r : NamedSection) : Prop where
  bounds : InBounds elf
  bpf : (objectHeader elf).IsBpfObject
  sections : ∃ ss, sections elf = some ss ∧ programs ss = [p] ∧ records ss = [r]
  named : p.name = sec
  program : p.header.IsExec ∧ p.header.size ≠ 0 ∧ p.header.size % 8 = 0
  record : RecordRight elf r.header
  size : r.header.size = 64
  magic : (targetOfBytes (bytesAt 64 elf r.header.offset)).magic = lsTargetMagic
  build : (targetOfBytes (bytesAt 64 elf r.header.offset)).buildId = build
  kind : (targetOfBytes (bytesAt 64 elf r.header.offset)).isExit = 0
  pad : (targetOfBytes (bytesAt 64 elf r.header.offset)).padOffset = 4
  reserved : ∀ b ∈ (targetOfBytes (bytesAt 64 elf r.header.offset)).reserved, b = 0

/-- The bytes of {lit}`fentry/f`, with the terminator. -/
def entryName : List UInt8 := Program.fentryBytes ++ [102, 0]

def shdrBytes (name type flags offset size : Nat) : List UInt8 :=
  littleEndian 4 name ++ littleEndian 4 type ++ littleEndian 8 flags ++ littleEndian 8 0 ++
    littleEndian 8 offset ++ littleEndian 8 size ++ List.replicate 24 0

/-- An object with three sections: the names, one program of one instruction, and its record. -/
def singleObject (strings program entry : Nat) : Buffer :=
  [127, 69, 76, 70, 2, 1, 1] ++ List.replicate 9 0 ++ littleEndian 2 1 ++ littleEndian 2 247 ++
    List.replicate 20 0 ++ littleEndian 8 64 ++ List.replicate 10 0 ++ littleEndian 2 64 ++
    littleEndian 2 3 ++ littleEndian 2 0 ++
    shdrBytes 8 strings 0 256 20 ++ shdrBytes 0 program 6 276 8 ++ shdrBytes 9 shtProgbits 0 284 64 ++
    entryName ++ lsTargetSection ++ [0] ++ [149, 0, 0, 0, 0, 0, 0, 0] ++
    lsTargetMagic ++ List.replicate 40 97 ++ littleEndian 8 entry ++ [0, 4] ++ List.replicate 6 0

/-- The three sections, as the object has them. -/
def nameSection (type : Nat) : NamedSection := ⟨[], ⟨8, type, 0, 256, 20⟩⟩

def programSection (type : Nat) : NamedSection :=
  ⟨Program.fentryBytes ++ [102], ⟨0, type, 6, 276, 8⟩⟩

def recordSection : NamedSection := ⟨lsTargetSection, ⟨9, shtProgbits, 0, 284, 64⟩⟩

def entrySection : CString := ⟨Program.fentryBytes ++ [102], by decide⟩

def buildName : CString := ⟨List.replicate 40 97, by decide⟩

instance (elf : Buffer) : Decidable (InBounds elf) :=
  decidable_of_iff (64 ≤ elf.length ∧ (objectHeader elf).shentsize = 64 ∧
      (objectHeader elf).shnum ≠ 0 ∧ (objectHeader elf).shstrndx < (objectHeader elf).shnum ∧
      lsTargetSpan elf.length (objectHeader elf).shoff ((objectHeader elf).shnum * 64) ∧
      lsTargetSpan elf.length (namesHeader elf).offset (namesHeader elf).size)
    ⟨fun ⟨h₁, h₂, h₃, h₄, h₅, h₆⟩ => ⟨h₁, h₂, h₃, h₄, h₅, h₆⟩,
      fun h => ⟨h.length, h.shentsize, h.shnum, h.shstrndx, h.headers, h.names⟩⟩

/-- Objects that look signed are refused for an entry of zero, for a program section without
bytes, and for names that are in no table of strings. -/
theorem singleObject_refused :
    LooksSigned (singleObject shtStrtab shtProgbits 0) entrySection.bytes buildName.bytes
      (programSection shtProgbits) recordSection ∧
    lsTargetParse (singleObject shtStrtab shtProgbits 0) entrySection (some buildName) =
      refuse ∧
    LooksSigned (singleObject shtStrtab 8 4096) entrySection.bytes buildName.bytes
      (programSection 8) recordSection ∧
    lsTargetParse (singleObject shtStrtab 8 4096) entrySection (some buildName) = refuse ∧
    LooksSigned (singleObject shtProgbits shtProgbits 4096) entrySection.bytes buildName.bytes
      (programSection shtProgbits) recordSection ∧
    lsTargetParse (singleObject shtProgbits shtProgbits 4096) entrySection (some buildName) =
      refuse := by
  refine ⟨?_, by decide +kernel, ?_, by decide +kernel, ?_, by decide +kernel⟩
  · exact ⟨by decide +kernel, by decide +kernel, ⟨[nameSection shtStrtab, programSection shtProgbits, recordSection],
      by decide +kernel⟩,
      rfl, by decide +kernel, by decide +kernel, rfl, by decide +kernel, by decide +kernel,
      by decide +kernel, by decide +kernel, by decide +kernel⟩
  · exact ⟨by decide +kernel, by decide +kernel, ⟨[nameSection shtStrtab, programSection 8, recordSection],
      by decide +kernel⟩,
      rfl, by decide +kernel, by decide +kernel, rfl, by decide +kernel, by decide +kernel,
      by decide +kernel, by decide +kernel, by decide +kernel⟩
  · exact ⟨by decide +kernel, by decide +kernel, ⟨[nameSection shtProgbits, programSection shtProgbits, recordSection],
      by decide +kernel⟩, rfl, by decide +kernel, by decide +kernel, rfl, by decide +kernel,
      by decide +kernel, by decide +kernel, by decide +kernel, by decide +kernel⟩

end Target
end LiveSurface
