import LiveSurface.Relocation.Elf
import LiveSurface.Relocation.Offset

/-!
# Relocating an object

The relocator finds the type information of a program and its relocation records, and goes through
the records: it looks the field up in the types of the target and puts its offset into the
immediate of the instruction that the record names.  It works in the object itself, so that what it
has patched is what it reads afterwards.

The records that were applied are kept in a list, the last one first, each with the object that it
was applied to.
-/

namespace LiveSurface
namespace Relocation

/-! ## Results -/

/-- The result codes. -/
inductive Relo
  | ok
  | badElf
  | noBtf
  | badBtf
  | kind
  | noField
  | bounds
deriving DecidableEq

/-- A relocation record. -/
structure CoreRecord where
  insnOff : Nat
  typeId : Nat
  accOff : Nat
  kind : Nat
deriving DecidableEq

/-- A record that has been applied: the object before, the section of its instruction and the
offset of its field. -/
structure Applied where
  mem : Buffer
  record : CoreRecord
  sec : Nat × Nat
  off : Nat
deriving DecidableEq

/-- Where the immediate of the instruction is. -/
def Applied.pos (a : Applied) : Nat := a.sec.1 + a.record.insnOff + 4

/-- The bytes of the immediate. -/
def Applied.imm (a : Applied) : List UInt8 := littleEndian 4 a.off

structure Progress where
  mem : Buffer
  applied : List Applied
deriving DecidableEq

/-- What a relocation leaves.  The number of records is told only after a success. -/
structure Finished where
  code : Relo
  mem : Buffer
  applied : List Applied
deriving DecidableEq

def Finished.count (f : Finished) : Nat := if f.code = .ok then f.applied.length else 0

/-! ## Records -/

/-- {lit}`patch_imm`; the inner {lit}`none` is {lit}`-1`. -/
def patchImm (mem : Buffer) (sec : Nat × Nat) (insnOff val : Nat) : Option (Option Buffer) :=
  if insnOff + 8 > sec.2 then some none
  else (wr mem (sec.1 + insnOff + 4) (littleEndian 4 val)).map some

/-- The four words of a record. -/
def readRecord (mem : Buffer) (p : Nat) : Option CoreRecord := do
  let insnOff ← rd 4 mem p
  let typeId ← rd 4 mem (p + 4)
  let accOff ← rd 4 mem (p + 8)
  let kind ← rd 4 mem (p + 12)
  some { insnOff, typeId, accOff, kind }

/-- What the records of a group are applied to. -/
structure Context where
  tmem : Buffer
  target : Btf
  l : Btf
  /-- The end of the records, and the size of one. -/
  last : Nat
  recSize : Nat
  tables : Tables

/-- The body of the loop over the records of a section. -/
def relocateRecord (c : Context) (sec : Option (Nat × Nat)) (r : CoreRecord) (s : Progress) :
    Option (Except Relo Progress) :=
  if r.kind ≠ 0 then some (.error .kind)
  else do
    match ← coreFieldOffset s.mem c.l r.typeId (btfStr s.mem c.l r.accOff) c.tmem c.target with
    | none => some (.error .noField)
    | some off =>
        match sec with
        | none => some (.error .bounds)
        | some sec => do
            match ← patchImm s.mem sec r.insnOff off with
            | none => some (.error .bounds)
            | some mem =>
                some (.ok { mem, applied := { mem := s.mem, record := r, sec, off } :: s.applied })

/-- The loop over the records of a section, with {lit}`num` to go. -/
def relocateRecords (c : Context) (sec : Option (Nat × Nat)) :
    (num : Nat) → (p : Nat) → Progress → Option (Except (Relo × Progress) (Nat × Progress))
  | 0, p, s => some (.ok (p, s))
  | num + 1, p, s =>
      if c.last - p < c.recSize then some (.error (.badBtf, s))
      else do
        let r ← readRecord s.mem p
        match ← relocateRecord c sec r s with
        | .error code => some (.error (code, s))
        | .ok s' => relocateRecords c sec num (p + c.recSize) s'

/-- The section that records apply to, if it is inside the object. -/
def findCode (mem : Buffer) (t : Tables) (secname : List UInt8) : Option (Option (Nat × Nat)) := do
  match ← firstNamed mem t secname (List.range t.shnum) with
  | none => some none
  | some i =>
      let off ← rd 8 mem (t.header i + 0x18)
      let sz ← rd 8 mem (t.header i + 0x20)
      if off ≤ mem.length ∧ sz ≤ mem.length - off then some (some (off, sz)) else some none

/-- The loop over the sections that have records.  It ends before its fuel does. -/
def relocateGroups (c : Context) :
    (fuel : Nat) → (p : Nat) → Progress → Option (Except (Relo × Progress) Progress)
  | 0, _, _ => none
  | fuel + 1, p, s =>
      if c.last - p < 8 then some (.ok s)
      else do
        let nameOff ← rd 4 s.mem p
        let num ← rd 4 s.mem (p + 4)
        let sec ← findCode s.mem c.tables (btfStr s.mem c.l nameOff)
        match ← relocateRecords c sec num (p + 8) s with
        | .error e => some (.error e)
        | .ok (p', s') => relocateGroups c fuel p' s'

/-! ## The entry point -/

/-- The walk for the last {lit}`.BTF` and the last {lit}`.BTF.ext`. -/
def findInfo (elf : Buffer) (t : Tables) :
    List Nat → (btf ext : Option (Nat × Nat)) →
      Option (Except Relo (Option (Nat × Nat) × Option (Nat × Nat)))
  | [], btf, ext => some (.ok (btf, ext))
  | i :: rest, btf, ext => do
      let nameo ← rd 4 elf (t.header i)
      if nameo ≥ t.strSize then findInfo elf t rest btf ext
      else
        let isbtf ← strcmp (elf.drop (t.strOff + nameo)) (btfName ++ [0])
        let isext ← strcmp (elf.drop (t.strOff + nameo)) (btfExtName ++ [0])
        if !isbtf && !isext then findInfo elf t rest btf ext
        else
          let off ← rd 8 elf (t.header i + 0x18)
          let sz ← rd 8 elf (t.header i + 0x20)
          if off > elf.length ∨ sz > elf.length - off then some (.error .badElf)
          else if isbtf then findInfo elf t rest (some (off, sz)) ext
          else findInfo elf t rest btf (some (off, sz))

/-- Where the records are: the start of the first group, the end, and the size of a record. -/
structure Records where
  first : Nat
  last : Nat
  recSize : Nat
deriving DecidableEq

/-- The header of {lit}`.BTF.ext`; the inner {lit}`none` is a refusal. -/
def findRecords (elf : Buffer) (ext : Nat × Nat) : Option (Option Records) :=
  if ext.2 < 32 then some none
  else do
    let hdrLen ← rd 4 elf (ext.1 + 4)
    let coreOff ← rd 4 elf (ext.1 + 24)
    let coreLen ← rd 4 elf (ext.1 + 28)
    if hdrLen + coreOff + coreLen > ext.2 ∨ coreLen < 4 then some none
    else
      let p := ext.1 + hdrLen + coreOff
      let recSize ← rd 4 elf p
      if recSize < 16 then some none
      else some (some { first := p + 4, last := p + coreLen, recSize })

/-- Nothing was applied. -/
def refusedRelo (elf : Buffer) (code : Relo) : Finished where
  code
  mem := elf
  applied := []

/-- The loops over the records, from the first one on. -/
def relocateAll (elf : Buffer) (c : Context) (first : Nat) : Option Finished := do
  match ← relocateGroups c (c.last / 8 + 1) first { mem := elf, applied := [] } with
  | .error (code, s) => some { code, mem := s.mem, applied := s.applied }
  | .ok s => some { code := .ok, mem := s.mem, applied := s.applied }

/-- {lit}`ls_core_relocate` against a target that has been opened. -/
def lsCoreRelocate (alloc : Nat → Bool) (elf tmem : Buffer) (target : Btf) : Option Finished := do
  match ← elfTables elf with
  | none => some (refusedRelo elf .badElf)
  | some tables =>
      match ← findInfo elf tables (List.range tables.shnum) none none with
      | .error code => some (refusedRelo elf code)
      | .ok (some btf, some ext) =>
          if btf.2 > 0xffffffff then some (refusedRelo elf .badBtf)
          else
            match ← lsCoreBtfOpen alloc elf btf.1 btf.2 with
            | none => some (refusedRelo elf .badBtf)
            | some l =>
                match ← findRecords elf ext with
                | none => some (refusedRelo elf .badBtf)
                | some r =>
                    relocateAll elf { tmem, target, l, last := r.last, recSize := r.recSize, tables }
                      r.first
      | .ok _ => some (refusedRelo elf .noBtf)

end Relocation
end LiveSurface
