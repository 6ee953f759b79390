import LiveSurface.Control.Request
import LiveSurface.Library.Buffer
import LiveSurface.Library.Checked

/-!
# The signed target of a program

A signed object says in a section of its own which functions its programs attach to: one record
for the only program, or a set of rows, one for each program.  {lit}`ls_target_parse` finds the
record of one program; {lit}`ls_target_program_entries` walks the sections once more and asks it
for every program.

Both look at an object whose contents nobody has checked.  A record that is copied out of the
object is a list of bytes; what is compared in place is read byte by byte.

Main definitions:

- Definition {lit}`lsTargetParse`: the target of one section.
- Definition {lit}`lsTargetProgramEntries`: the entries of a program.
-/

namespace LiveSurface
namespace Target

open Checked
open Control (LsTarget lsTargetMagic)

/-! ## Records of the object -/

def lsTargetSetMax : Nat := 12
def lsProgramEntries : Nat := 12
def shtProgbits : Nat := 1
def shtStrtab : Nat := 3
def shfExecinstr : Nat := 4

/-- The bytes of {lit}`.ls.target`. -/
def lsTargetSection : List UInt8 := [46, 108, 115, 46, 116, 97, 114, 103, 101, 116]

/-- The bytes of {lit}`LSTSET1`, with its terminator. -/
def lsTargetSetMagic : List UInt8 := [76, 83, 84, 83, 69, 84, 49, 0]

/-- What is read of {lit}`Elf64_Ehdr`. -/
structure Ehdr where
  ident : List UInt8
  type : Nat
  machine : Nat
  shoff : Nat
  shentsize : Nat
  shnum : Nat
  shstrndx : Nat

def Ehdr.ofBytes (b : List UInt8) : Ehdr where
  ident := bytesAt 16 b 0
  type := leAt 2 b 16
  machine := leAt 2 b 18
  shoff := leAt 8 b 40
  shentsize := leAt 2 b 58
  shnum := leAt 2 b 60
  shstrndx := leAt 2 b 62

/-- What is read of {lit}`Elf64_Shdr`. -/
structure Shdr where
  name : Nat
  type : Nat
  flags : Nat
  offset : Nat
  size : Nat
deriving DecidableEq

def Shdr.ofBytes (b : List UInt8) : Shdr where
  name := leAt 4 b 0
  type := leAt 4 b 4
  flags := leAt 8 b 8
  offset := leAt 8 b 24
  size := leAt 8 b 32

/-- The 64 bytes of {lit}`struct ls_target`. -/
def targetOfBytes (b : List UInt8) : LsTarget where
  magic := bytesAt 8 b 0
  buildId := bytesAt 40 b 8
  entry := UInt64.ofNat (leAt 8 b 48)
  isExit := UInt8.ofNat (leAt 1 b 56)
  padOffset := UInt8.ofNat (leAt 1 b 57)
  reserved := bytesAt 6 b 58

/-- An ELF object of 64-bit little-endian words, for BPF, that is not linked. -/
def Ehdr.IsBpfObject (e : Ehdr) : Prop :=
  e.ident.take 4 = [127, 69, 76, 70] ∧ e.ident[4]? = some 2 ∧ e.ident[5]? = some 1 ∧
    e.machine = 247 ∧ e.type = 1

instance (e : Ehdr) : Decidable e.IsBpfObject := inferInstanceAs (Decidable (_ ∧ _))

def Shdr.IsExec (sh : Shdr) : Prop := sh.flags &&& shfExecinstr ≠ 0

instance (sh : Shdr) : Decidable sh.IsExec := inferInstanceAs (Decidable (_ ≠ _))

/-- {lit}`ls_target_span`. -/
def lsTargetSpan (len off size : Nat) : Prop := off ≤ len ∧ size ≤ len - off

instance (len off size : Nat) : Decidable (lsTargetSpan len off size) :=
  inferInstanceAs (Decidable (_ ∧ _))

/-! ## Sections and their names -/

/-- The section table, and the names of the sections. -/
structure Tables where
  shoff : Nat
  shnum : Nat
  strOff : Nat
  strSize : Nat
deriving DecidableEq

/-- The checks of the two tables; each function has its own on the header and on the section of
the names. -/
def sectionTables (header : Ehdr → Bool) (strings : Shdr → Bool) (elf : Buffer) :
    Checked Tables := do
  refuseIf (elf.length < 64)
  let e := Ehdr.ofBytes (← rdBytes 64 elf 0)
  refuseIf (header e = false ∨ e.shentsize ≠ 64 ∨ e.shnum = 0 ∨ e.shstrndx ≥ e.shnum ∨
    ¬lsTargetSpan elf.length e.shoff (e.shnum * 64))
  let s := Shdr.ofBytes (← rdBytes 64 elf (e.shoff + e.shstrndx * 64))
  refuseIf (strings s = false ∨ ¬lsTargetSpan elf.length s.offset s.size)
  pure { shoff := e.shoff, shnum := e.shnum, strOff := s.offset, strSize := s.size }

/-- One section header, and the position of its name, which ends inside the table. -/
def readSection (elf : Buffer) (t : Tables) (i : Nat) : Checked (Shdr × Nat) := do
  let sh := Shdr.ofBytes (← rdBytes 64 elf (t.shoff + i * 64))
  refuseIf (sh.name ≥ t.strSize)
  let window ← rdBytes (t.strSize - sh.name) elf (t.strOff + sh.name)
  refuseIf ((0 : UInt8) ∉ window)
  pure (sh, t.strOff + sh.name)

/-! ## The scan of the sections -/

/-- The names of the programs so far, by their positions, and where the record is. -/
structure Found where
  names : List Nat
  record : Option (Nat × Nat)

/-- The name begins with {lit}`fentry/` or {lit}`fexit/`. -/
def isProgram (elf : Buffer) (name : Nat) : Option Bool := do
  let entry ← strncmp 7 (elf.drop name) Program.fentryBytes
  if entry then some true else strncmp 6 (elf.drop name) Vm.fexitBytes

/-- The name is one of those before it. -/
def isNamed (elf : Buffer) (name : Nat) : List Nat → Option Bool
  | [] => some false
  | other :: rest => do
      let same ← strcmp (elf.drop name) (elf.drop other)
      if same then some true else isNamed elf name rest

/-- The checks of a program section. -/
def visitProgram (elf : Buffer) (f : Found) (sh : Shdr) (name : Nat) : Checked Found := do
  let program ← isProgram elf name
  if program then
    refuseIf (f.names.length = lsTargetSetMax ∨ sh.type ≠ shtProgbits ∨ ¬sh.IsExec ∨
      sh.size = 0 ∨ sh.size % 8 ≠ 0 ∨ ¬lsTargetSpan elf.length sh.offset sh.size)
    let named ← isNamed elf name f.names
    refuseIf (named = true)
    pure { f with names := f.names ++ [name] }
  else pure f

/-- The checks of the section of the record. -/
def visitRecord (elf : Buffer) (f : Found) (sh : Shdr) (name : Nat) : Checked Found := do
  let same ← strcmp (elf.drop name) (lsTargetSection ++ [0])
  if same then
    refuseIf (f.record ≠ none ∨ sh.type ≠ shtProgbits ∨ sh.IsExec ∨
      ¬lsTargetSpan elf.length sh.offset sh.size)
    pure { f with record := some (sh.offset, sh.size) }
  else pure f

/-- One section. -/
def visitSection (elf : Buffer) (t : Tables) (f : Found) (i : Nat) : Checked Found := do
  let (sh, name) ← readSection elf t i
  let f ← visitProgram elf f sh name
  visitRecord elf f sh name

/-! ## The record of a section -/

/-- What the rows so far leave: the entries, a mask of the programs that had a row, how many rows
were for the section, and the target of the last of these. -/
structure Rows where
  entries : List UInt64
  seen : Nat
  selected : Nat
  out : Option LsTarget

/-- The checks of a row by itself. -/
def RowRight (field name : List UInt8) (target : LsTarget) (build : List UInt8) : Prop :=
  Program.fentryBytes <+: field ∧ field[7]? ≠ some 0 ∧ target.magic = lsTargetMagic ∧
    target.buildId = build ∧ target.entry ≠ 0 ∧ target.isExit = 0 ∧
    (target.padOffset = 0 ∨ target.padOffset = 4) ∧ (∀ b ∈ field.drop name.length, b = 0) ∧
    ∀ b ∈ target.reserved, b = 0

instance (field name : List UInt8) (target : LsTarget) (build : List UInt8) :
    Decidable (RowRight field name target build) := inferInstanceAs (Decidable (_ ∧ _))

/-- The number of the program that the row is for. -/
def position (elf : Buffer) (field : List UInt8) : List Nat → Option Nat
  | [] => some 0
  | name :: rest => do
      let same ← strcmp field (elf.drop name)
      if same then some 0 else (position elf field rest).map (· + 1)

/-- The row is for the program of a number. -/
def Rows.take (s : Rows) (j : Nat) (target : LsTarget) (mine : Bool) : Rows where
  entries := s.entries ++ [target.entry]
  seen := s.seen ||| 1 <<< j
  selected := if mine then s.selected + 1 else s.selected
  out := if mine then some target else s.out

/-- One row of a set. -/
def visitRow (elf : Buffer) (names : List Nat) (record : Nat) (sec build : CString) (s : Rows)
    (i : Nat) : Checked Rows := do
  let row ← rdBytes 144 elf (record + 16 + i * 144)
  let field := bytesAt 80 row 0
  let target := targetOfBytes (bytesAt 64 row 80)
  match cstr field with
  | none => refuse
  | some name =>
      refuseIf (¬RowRight field name target build.bytes)
      refuseIf (target.entry ∈ s.entries)
      let j ← position elf field names
      refuseIf (j = names.length ∨ s.seen &&& 1 <<< j ≠ 0)
      let mine ← strcmp field sec.pointer
      pure (s.take j target mine)

/-- The single record, for the only program. -/
def singleRecord (elf : Buffer) (names : List Nat) (offset : Nat) (sec : CString) :
    Checked LsTarget :=
  match names with
  | [name] => do
      let same ← strcmp (elf.drop name) sec.pointer
      refuseIf (same = false)
      let record ← rdBytes 64 elf offset
      pure (targetOfBytes record)
  | _ => refuse

/-- The rows of a set; the target is read where one row was for the section. -/
def setRecord (elf : Buffer) (names : List Nat) (offset size : Nat) (sec build : CString) :
    Checked LsTarget := do
  refuseIf (size < 16)
  let header ← rdBytes 16 elf offset
  let count := leAt 4 header 8
  refuseIf (bytesAt 8 header 0 ≠ lsTargetSetMagic ∨ leAt 4 header 12 ≠ 0 ∨
    count ≠ names.length ∨ count < 2 ∨ size ≠ 16 + count * 144)
  let s ← (List.range count).foldlM (visitRow elf names offset sec build)
    { entries := [], seen := 0, selected := 0, out := none }
  refuseIf (s.selected ≠ 1 ∨ s.seen ≠ 1 <<< names.length - 1)
  let out ← s.out
  pure out

/-- The two forms of the record. -/
def selectRecord (elf : Buffer) (names : List Nat) (offset size : Nat) (sec build : CString) :
    Checked LsTarget :=
  if size = 64 then singleRecord elf names offset sec
  else setRecord elf names offset size sec build

/-- The record of the section, of one of the two forms, and its own checks. -/
def recordTarget (elf : Buffer) (f : Found) (sec : CString) (build : Option CString) :
    Checked LsTarget :=
  match f.record, build with
  | some (offset, size), some build => do
      refuseIf (f.names = [] ∨ build.bytes.length ≠ 40)
      let out ← selectRecord elf f.names offset size sec build
      refuseIf (out.wellFormed sec.bytes build.bytes = false)
      pure out
  | _, _ => refuse

/-- {lit}`ls_target_parse`. -/
def lsTargetParse (elf : Buffer) (sec : CString) (build : Option CString) : Checked LsTarget := do
  let t ← sectionTables (fun e => e.IsBpfObject) (fun s => s.type = shtStrtab) elf
  let f ← (List.range t.shnum).foldlM (visitSection elf t) { names := [], record := none }
  recordTarget elf f sec build

/-! ## The entries of a program -/

/-- The entry of a section; the array of its name is filled with zeros. -/
def programEntry (name : List UInt8) (target : LsTarget) : Program.LsProgramEntry where
  sectionName := name ++ List.replicate (80 - name.length) 0
  address := target.entry
  pad := UInt64.ofNat target.padOffset.toNat

/-- One section; {lit}`checkFile` is the answer of {lit}`ls_target_check_file`. -/
def visitEntry (elf : Buffer) (t : Tables) (build : Option CString) (checkFile : LsTarget → Bool)
    (out : List Program.LsProgramEntry) (i : Nat) : Checked (List Program.LsProgramEntry) := do
  let (_, name) ← readSection elf t i
  let exit ← strncmp 6 (elf.drop name) Vm.fexitBytes
  refuseIf (exit = true)
  let entry ← strncmp 7 (elf.drop name) Program.fentryBytes
  if entry then
    refuseIf (out.length = lsProgramEntries)
    let sec ← CString.at (elf.drop name)
    refuseIf (sec.bytes.length ≥ 80)
    let target ← lsTargetParse elf sec build
    refuseIf (checkFile target = false)
    pure (out ++ [programEntry sec.bytes target])
  else pure out

/-- {lit}`ls_target_program_entries`; the result is what it has written when it returns a
number. -/
def lsTargetProgramEntries (elf : Buffer) (build : Option CString) (checkFile : LsTarget → Bool) :
    Checked (List Program.LsProgramEntry) := do
  let t ← sectionTables (fun _ => true) (fun _ => true) elf
  let out ← (List.range t.shnum).foldlM (visitEntry elf t build checkFile) []
  refuseIf (out = [])
  pure out

end Target
end LiveSurface
