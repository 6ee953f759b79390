import LiveSurface.Target.Entries

/-!
# The executing file

A signed target says at which address its function begins, and whether the five bytes that are
patched come first there or after an {lit}`endbr64`.  {lit}`ls_target_check_file` holds this
against the file that is being executed: the address must lie in an executable segment, and the
file must have the bytes there.

Main results:

- Theorem {lit}`checked_found`: what the file has at an address that passes.
- Theorem {lit}`checked_pad`: two targets of one address that both pass have one pad.
- Theorem {lit}`entries_checked`: every entry of a program has passed.
-/

namespace LiveSurface
namespace Target

open Checked
open Control (LsTarget)

/-! ## The headers of the file -/

def int64Max : Nat := 2 ^ 63 - 1
def ptLoad : Nat := 1
def pfX : Nat := 1

/-- What is read of {lit}`Elf64_Ehdr` to find the segments. -/
structure ExecEhdr where
  ident : List UInt8
  type : Nat
  machine : Nat
  phoff : Nat
  phentsize : Nat
  phnum : Nat

def ExecEhdr.ofBytes (b : List UInt8) : ExecEhdr where
  ident := bytesAt 16 b 0
  type := leAt 2 b 16
  machine := leAt 2 b 18
  phoff := leAt 8 b 32
  phentsize := leAt 2 b 54
  phnum := leAt 2 b 56

/-- What is read of {lit}`Elf64_Phdr`. -/
structure Phdr where
  type : Nat
  flags : Nat
  offset : Nat
  vaddr : Nat
  filesz : Nat

def Phdr.ofBytes (b : List UInt8) : Phdr where
  type := leAt 4 b 0
  flags := leAt 4 b 4
  offset := leAt 8 b 8
  vaddr := leAt 8 b 16
  filesz := leAt 8 b 32

/-- An ELF executable of 64-bit little-endian words, for x86-64. -/
def ExecEhdr.IsExecutable (e : ExecEhdr) : Prop :=
  e.ident.take 4 = [127, 69, 76, 70] ∧ e.ident[4]? = some 2 ∧ e.ident[5]? = some 1 ∧ e.type = 2 ∧
    e.machine = 62 ∧ e.phentsize = 56 ∧ e.phoff ≤ int64Max ∧ e.phnum ≤ 1024

instance (e : ExecEhdr) : Decidable e.IsExecutable := inferInstanceAs (Decidable (_ ∧ _))

/-- An address is in the part of an executable segment that the file has. -/
def Phdr.Executes (ph : Phdr) (address : Nat) : Prop :=
  ph.type = ptLoad ∧ ph.flags &&& pfX ≠ 0 ∧ ph.vaddr ≤ address ∧ address < ph.vaddr + ph.filesz

instance (ph : Phdr) (address : Nat) : Decidable (ph.Executes address) :=
  inferInstanceAs (Decidable (_ ∧ _))

/-- An executable segment has room for some bytes from an address on, at an offset of the file. -/
def Phdr.HasRoom (ph : Phdr) (address need : Nat) : Prop :=
  ph.type = ptLoad ∧ ph.flags &&& pfX ≠ 0 ∧ ph.vaddr ≤ address ∧
    address - ph.vaddr ≤ ph.filesz ∧ need ≤ ph.filesz - (address - ph.vaddr) ∧
    ph.offset ≤ int64Max ∧ address - ph.vaddr ≤ int64Max - ph.offset

instance (ph : Phdr) (address need : Nat) : Decidable (ph.HasRoom address need) :=
  inferInstanceAs (Decidable (_ ∧ _))

/-! ## The check -/

/-- The bytes of {lit}`endbr64` and of five {lit}`nop`. -/
def padBytes : List UInt8 := [0xf3, 0x0f, 0x1e, 0xfa, 0x90, 0x90, 0x90, 0x90, 0x90]

/-- The loop over the program headers, from a number on; the first segment with room decides. -/
def checkSegments (file : Buffer) (phoff address : Nat) (expected : List UInt8) :
    (left i : Nat) → Bool
  | 0, _ => false
  | left + 1, i =>
      if phoff + i * 56 > int64Max then false
      else
        match rdBytes 56 file (phoff + i * 56) with
        | none => false
        | some b =>
            let ph := Phdr.ofBytes b
            if ph.HasRoom address expected.length then
              rdBytes expected.length file (ph.offset + (address - ph.vaddr)) == some expected
            else checkSegments file phoff address expected left (i + 1)

/-- {lit}`ls_target_check_file` on a file that could be opened. -/
def lsTargetCheckFile (file : Buffer) (t : LsTarget) : Bool :=
  match rdBytes 64 file 0 with
  | none => false
  | some header =>
      let e := ExecEhdr.ofBytes header
      if ¬e.IsExecutable ∨ t.padOffset ≠ 0 ∧ t.padOffset ≠ 4 then false
      else
        checkSegments file e.phoff t.entry.toNat (padBytes.drop (if t.padOffset ≠ 0 then 0 else 4))
          e.phnum 0

/-! ## What passes -/

/-- The header of the file, and its segments. -/
def execHeader (file : Buffer) : ExecEhdr := ExecEhdr.ofBytes (bytesAt 64 file 0)

def segment (file : Buffer) (i : Nat) : Phdr :=
  Phdr.ofBytes (bytesAt 56 file ((execHeader file).phoff + i * 56))

theorem checkSegments_found {file : Buffer} {phoff address : Nat} {expected : List UInt8} :
    ∀ {left i : Nat}, checkSegments file phoff address expected left i = true →
      ∃ j, j < i + left ∧ (Phdr.ofBytes (bytesAt 56 file (phoff + j * 56))).HasRoom address
        expected.length ∧ rdBytes expected.length file
          ((Phdr.ofBytes (bytesAt 56 file (phoff + j * 56))).offset +
            (address - (Phdr.ofBytes (bytesAt 56 file (phoff + j * 56))).vaddr)) =
          some expected := by
  intro left
  induction left with
  | zero =>
      intro i h
      contradiction
  | succ left ih =>
      intro i h
      unfold checkSegments at h
      split at h
      · contradiction
      split at h
      · contradiction
      rename_i b hb
      obtain ⟨-, rfl⟩ := rdBytes_eq_some hb
      dsimp only at h
      split at h
      · rename_i hroom
        exact ⟨i, by omega, hroom, by simpa using h⟩
      · obtain ⟨j, hj, hrest⟩ := ih h
        exact ⟨j, by omega, hrest⟩

/-- At an address that passes the file has the bytes of its pad, in an executable segment. -/
theorem checked_found {file : Buffer} {t : LsTarget} (h : lsTargetCheckFile file t = true) :
    (t.padOffset = 0 ∨ t.padOffset = 4) ∧ ∃ i < (execHeader file).phnum,
      (segment file i).Executes t.entry.toNat ∧
        file[(segment file i).offset + (t.entry.toNat - (segment file i).vaddr)]? =
          some (if t.padOffset = 0 then 0x90 else 0xf3) := by
  unfold lsTargetCheckFile at h
  split at h
  · contradiction
  rename_i header hheader
  obtain ⟨-, rfl⟩ := rdBytes_eq_some hheader
  dsimp only at h
  split at h
  · contradiction
  rename_i hright
  rw [not_or, not_and_or, not_not, not_not, not_not] at hright
  refine ⟨hright.2, ?_⟩
  obtain ⟨i, hi, hroom, hbytes⟩ := checkSegments_found h
  rw [Nat.zero_add] at hi
  refine ⟨i, hi, ?_, ?_⟩
  · obtain ⟨hload, hexec, hle, hdelta, hneed, -⟩ := hroom
    refine ⟨hload, hexec, hle, ?_⟩
    have hpos : 0 < (padBytes.drop (if t.padOffset ≠ 0 then 0 else 4)).length := by
      split <;> decide
    unfold segment execHeader
    omega
  · have hfirst := congrArg (·[0]?) (rdBytes_eq_some hbytes).2
    simp only [bytesAt, List.getElem?_take, List.getElem?_drop, Nat.add_zero] at hfirst
    rcases hright.2 with hpad | hpad
    · rw [hpad] at hfirst ⊢
      simpa [segment, execHeader, bytesAt, padBytes] using hfirst.symm
    · rw [hpad] at hfirst ⊢
      simpa [segment, execHeader, bytesAt, padBytes] using hfirst.symm

/-- No address is in two executable segments. -/
def SegmentsApart (file : Buffer) : Prop :=
  ∀ i < (execHeader file).phnum, ∀ j < (execHeader file).phnum, ∀ address,
    (segment file i).Executes address → (segment file j).Executes address → i = j

/-- Two targets of one address that both pass have one pad. -/
theorem checked_pad {file : Buffer} {t t' : LsTarget} (hfile : SegmentsApart file)
    (h : lsTargetCheckFile file t = true) (h' : lsTargetCheckFile file t' = true)
    (hentry : t.entry = t'.entry) : t.padOffset = t'.padOffset := by
  obtain ⟨hpad, i, hi, hexec, hbyte⟩ := checked_found h
  obtain ⟨hpad', j, hj, hexec', hbyte'⟩ := checked_found h'
  rw [← hentry] at hexec' hbyte'
  obtain rfl := hfile i hi j hj _ hexec hexec'
  rw [hbyte] at hbyte'
  rcases hpad with hpad | hpad <;> rcases hpad' with hpad' | hpad' <;>
    simp [hpad, hpad'] at hbyte' ⊢

/-! ## The entries of a program -/

/-- An entry is that of a target which passed the check of the file. -/
def EntryIn (file : Buffer) (e : Program.LsProgramEntry) : Prop :=
  ∃ t, lsTargetCheckFile file t = true ∧ e.address = t.entry ∧
    e.pad = UInt64.ofNat t.padOffset.toNat

theorem entries_checked {elf file : Buffer} {build : Option CString}
    {out : List Program.LsProgramEntry}
    (h : lsTargetProgramEntries elf build (lsTargetCheckFile file) = answer (some out)) :
    ∀ e ∈ out, EntryIn file e := by
  obtain ⟨q, hq, hlisted⟩ := @entries_listed elf build (lsTargetCheckFile file)
  rw [h] at hq
  obtain ⟨-, ss, -, hall⟩ := hlisted out (Option.some.inj hq).symm
  intro e he
  obtain ⟨hlen, hget⟩ := List.forall₂_iff_get.mp hall
  obtain ⟨i, hi, rfl⟩ := List.getElem_of_mem he
  have hfor := hget i (hlen ▸ hi) hi
  obtain ⟨sec, -, t, -, haddress, hpad, hcheck⟩ := hfor.target
  exact ⟨t, hcheck, haddress, hpad⟩

/-- In a file whose segments do not overlap, the entries of one address have one pad. -/
theorem EntryIn.pad {file : Buffer} {e e' : Program.LsProgramEntry} (hfile : SegmentsApart file)
    (h : EntryIn file e) (h' : EntryIn file e') (haddress : e.address = e'.address) :
    e.pad = e'.pad := by
  obtain ⟨t, hcheck, hentry, hpad⟩ := h
  obtain ⟨t', hcheck', hentry', hpad'⟩ := h'
  rw [hpad, hpad', checked_pad hfile hcheck hcheck' (hentry.symm.trans (haddress.trans hentry'))]

end Target
end LiveSurface
