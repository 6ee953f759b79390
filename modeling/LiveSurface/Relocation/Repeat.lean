import LiveSurface.Relocation.Safety

/-!
# Relocating an object again

Every entry of a program relocates the object that the entry before it has relocated.  Where the
patches stay away from what a relocation reads, the second relocation reads what the first has
read, and so applies the same patches in the same order: whatever repeats or overlaps, the last
patch of a byte is the same.

Reading goes on to the end of a string, so that a table whose last string does not end in it is
read further than it is long.

Main results:

- Theorem {lit}`lsCoreRelocate_again`: a relocation that succeeded succeeds again and changes
  nothing.
- Theorem {lit}`relocation_idempotent`: what a relocation changes, and what repeating it does.
-/

namespace LiveSurface
namespace Relocation

/-- The byte is one of the immediate of the instruction of a job. -/
def Job.Immediate (j : Job) (i : Nat) : Prop :=
  ∃ sec, j.sec = some sec ∧ j.record.insnOff + 8 ≤ sec.2 ∧ sec.1 + j.record.insnOff + 4 ≤ i ∧
    i < sec.1 + j.record.insnOff + 8

/-- What {lit}`ls_vm_prepare_slot` does to an object for its relocation, when there is a target;
the inner {lit}`none` is a refusal. -/
def prepareRelocation (alloc : Nat → Bool) (tmem : Buffer) (target : Btf) (elf : Buffer) :
    Option (Option Buffer) := do
  let needs ← lsCoreElfHasRelos elf
  if needs = 0 then some (some elf)
  else
    let f ← lsCoreRelocate alloc elf tmem target
    if f.code = .ok ∨ f.code = .noBtf then some (some f.mem) else some none

/-- The loop of {lit}`ls_program_load` over the entries of a program. -/
def prepareEntries (alloc : Nat → Bool) (tmem : Buffer) (target : Btf) :
    (count : Nat) → Buffer → Option (Option Buffer)
  | 0, elf => some (some elf)
  | count + 1, elf => do
      match ← prepareRelocation alloc tmem target elf with
      | none => some none
      | some elf => prepareEntries alloc tmem target count elf

section Repeat

variable {alloc : Nat → Bool} {elf tmem : Buffer} {x : Parsed} {target : Btf} {f : Finished}

/-- All that a relocation of a parsed object can do. -/
theorem lsCoreRelocate_cases (hx : parse alloc elf = some (.ok x)) (hsep : x.Separate elf)
    (ht : target.Opened tmem) (hf : lsCoreRelocate alloc elf tmem target = some f) :
    ∃ jobs whole done rest span strs, x.plan elf = some (jobs, whole) ∧ jobs = done ++ rest ∧
      x.StringsEnd elf span strs ∧ (∀ j ∈ jobs, j.Inside elf.length) ∧ (∀ j ∈ jobs, j.Clear (x.Reads span strs)) ∧
      (∀ j ∈ done, j.patch (x.offset elf tmem target) ≠ none) ∧
      f.mem = patchAll elf (patches (x.offset elf tmem target) done) ∧
      f.applied.length = done.length ∧ (f.code = .ok ↔ rest = [] ∧ whole = true) ∧
      f.code ≠ .noBtf ∧
      ∀ m', Kept (x.Reads span strs) elf m' → lsCoreRelocate alloc m' tmem target =
        (runJobs (x.offset elf tmem target) jobs { mem := m', applied := [] }).map
          (finish whole) := by
  obtain ⟨jobs, whole, span, strs, hplan, hends, hinside, hclear, hrun⟩ :=
    lsCoreRelocate_run hx hsep ht
  have hf' := hf
  rw [hrun elf (Kept.refl _ elf)] at hf'
  rcases runJobs_cases (x.offset elf tmem target) jobs { mem := elf, applied := [] }
      hinside with
    ⟨-, hnone⟩ | ⟨done, rest, s', hsplit, hdone, hmem, happlied, hend⟩
  · rw [hnone] at hf'
    contradiction
  · refine ⟨jobs, whole, done, rest, span, strs, hplan, hsplit, hends, hinside, hclear, hdone, ?_⟩
    rw [List.length_nil, Nat.zero_add] at happlied
    rcases hend with ⟨rfl, hok⟩ | ⟨code, j, rest', rfl, -, hcode, herror⟩
    · rw [hok] at hf'
      obtain rfl := Option.some.inj hf'
      refine ⟨hmem, happlied, ?_, ?_, hrun⟩
      · cases whole <;> simp [finish]
      · cases whole <;> simp [finish]
    · rw [herror] at hf'
      obtain rfl := Option.some.inj hf'
      refine ⟨hmem, happlied, ?_, ?_, hrun⟩
      · rcases hcode with rfl | rfl | rfl <;> simp [finish]
      · rcases hcode with rfl | rfl | rfl <;> simp [finish]

/-- A relocation that succeeded leaves what it has read, succeeds again and changes nothing. -/
theorem lsCoreRelocate_again (hx : parse alloc elf = some (.ok x)) (hsep : x.Separate elf)
    (ht : target.Opened tmem) (hf : lsCoreRelocate alloc elf tmem target = some f)
    (hok : f.code = .ok) :
    ∃ f', lsCoreRelocate alloc f.mem tmem target = some f' ∧ f'.code = .ok ∧
      f'.count = f.count ∧ f'.mem = f.mem := by
  obtain ⟨jobs, whole, done, rest, span, strs, -, hsplit, -, hinside, hclear, hdone, hmem,
    happlied, hcode, -, hrun⟩ := lsCoreRelocate_cases hx hsep ht hf
  obtain ⟨rfl, rfl⟩ := hcode.mp hok
  rw [List.append_nil] at hsplit
  subst hsplit
  have hkept : Kept (x.Reads span strs) elf f.mem := by
    rw [hmem]
    exact kept_patches hinside hclear
  have hinside' : ∀ j ∈ jobs, j.Inside f.mem.length := by
    rw [hkept.length]
    exact hinside
  obtain ⟨s', hs', hsmem, hsapplied⟩ := runJobs_of_patches
    (s := { mem := f.mem, applied := [] }) hinside' hdone
  refine ⟨finish true (.ok s'), by rw [hrun f.mem hkept, hs']; rfl, rfl, ?_, ?_⟩
  · rw [Finished.count, Finished.count, if_pos hok, if_pos (show (finish true (.ok s')).code = .ok
      from rfl), happlied]
    exact hsapplied.trans (Nat.zero_add _)
  · change s'.mem = f.mem
    rw [hsmem, hmem]
    exact patchAll_twice (fits_patches _ hinside)

/-- Whether an object needs a relocation does not depend on its patches. -/
theorem lsCoreElfHasRelos_kept {P : Nat → Prop} {m m' : Buffer} {t : Tables} {span : Nat}
    (ht : elfTables m = some (some t)) (ht' : elfTables m' = some (some t))
    (hcovered : t.Covered P m span) (hk : Kept P m m') :
    lsCoreElfHasRelos m' = lsCoreElfHasRelos m := by
  have hword : cstr (btfExtName ++ [0]) = some btfExtName := by decide
  have hsame : (List.range t.shnum).find? (fun i => decide (t.name m' i = some btfExtName)) =
      (List.range t.shnum).find? fun i => decide (t.name m i = some btfExtName) := by
    apply List.find?_congr
    intro i hi
    rw [hcovered.name hk (List.mem_range.mp hi)]
  rw [lsCoreElfHasRelos, lsCoreElfHasRelos, ht, ht']
  simp only [Option.bind_eq_bind, Option.bind_some]
  rw [(hcovered.kept hk).firstNamed hword, hcovered.firstNamed hword, hsame]
  simp only [Option.bind_some]
  cases hfind : (List.range t.shnum).find? fun i => decide (t.name m i = some btfExtName) with
  | none => rfl
  | some i =>
      have hi := List.mem_range.mp (List.mem_of_find?_eq_some hfind)
      dsimp only
      rw [(hcovered.inside.kept hk).rd hi (by decide : 0x20 + 8 ≤ 64),
        hcovered.inside.rd hi (by decide : 0x20 + 8 ≤ 64),
        hcovered.header hk hi (by decide : 0x20 + 8 ≤ 64)]

/-- What the first entry has prepared, the next finds prepared. -/
theorem prepareRelocation_again
    (hsep : ∀ x, parse alloc elf = some (.ok x) → x.Separate elf) (ht : target.Opened tmem)
    {m : Buffer} (hm : prepareRelocation alloc tmem target elf = some (some m)) :
    prepareRelocation alloc tmem target m = some (some m) := by
  have hfirst := hm
  unfold prepareRelocation at hm
  obtain ⟨needs, hneeds, hm⟩ := Option.bind_eq_some_iff.mp hm
  by_cases hzero : needs = 0
  · rw [if_pos hzero] at hm
    obtain rfl := Option.some.inj (Option.some.inj hm)
    exact hfirst
  · rw [if_neg hzero] at hm
    obtain ⟨f, hf, hm⟩ := Option.bind_eq_some_iff.mp hm
    split at hm
    · rename_i hcode
      obtain rfl := Option.some.inj (Option.some.inj hm)
      have hparse := hf
      rw [lsCoreRelocate_eq] at hparse
      obtain ⟨parsed, hparsed, hrest⟩ := Option.bind_eq_some_iff.mp hparse
      cases parsed with
      | error code =>
          -- nothing was applied
          obtain rfl := Option.some.inj hrest
          exact hfirst
      | ok x =>
          have hx := hsep x hparsed
          obtain ⟨jobs, whole, done, rest, span, strs, -, rfl, hends, hinside, hclear, -, hmem, -,
            -, hbtf, -⟩ := lsCoreRelocate_cases hparsed hx ht hf
          obtain ⟨f', hf', hok', -, hmem'⟩ :=
            lsCoreRelocate_again hparsed hx ht hf (hcode.resolve_right hbtf)
          have hfound := found_of_parse hparsed
          have hkept : Kept (x.Reads span strs) elf f.mem := by
            rw [hmem]
            exact kept_patches (fun j hj => hinside j (List.mem_append_left rest hj))
              fun j hj => hclear j (List.mem_append_left rest hj)
          have hneeds' := lsCoreElfHasRelos_kept hfound.tables (hfound.kept hends hkept).tables
            (hends.tables hfound.inside) hkept
          unfold prepareRelocation
          rw [hneeds', hneeds]
          simp only [Option.bind_eq_bind, Option.bind_some, if_neg hzero, hf', hok', true_or,
            if_true, hmem']
    · exact nomatch Option.some.inj hm

theorem prepareEntries_succ
    (hsep : ∀ x, parse alloc elf = some (.ok x) → x.Separate elf) (ht : target.Opened tmem)
    (count : Nat) :
    prepareEntries alloc tmem target (count + 1) elf = prepareRelocation alloc tmem target elf := by
  induction count with
  | zero =>
      rw [prepareEntries]
      cases prepareRelocation alloc tmem target elf with
      | none => rfl
      | some prepared => cases prepared <;> rfl
  | succ count ih =>
      rw [prepareEntries]
      cases hm : prepareRelocation alloc tmem target elf with
      | none => rfl
      | some prepared =>
          cases prepared with
          | none => rfl
          | some m =>
              -- the rest starts with the entry that finds the object prepared
              rw [prepareEntries, hm] at ih
              simp only [Option.bind_eq_bind, Option.bind_some] at ih ⊢
              rw [prepareEntries, prepareRelocation_again hsep ht hm]
              exact ih

theorem immediate_of_changed (hx : parse alloc elf = some (.ok x)) (hsep : x.Separate elf)
    (ht : target.Opened tmem) (hf : lsCoreRelocate alloc elf tmem target = some f) :
    ∃ jobs whole, x.plan elf = some (jobs, whole) ∧
      ∀ i, f.mem[i]? ≠ elf[i]? → ∃ j ∈ jobs, j.Immediate i := by
  obtain ⟨jobs, whole, done, rest, span, strs, hplan, rfl, -, hinside, -, -, hmem, -, -, -, -⟩ :=
    lsCoreRelocate_cases hx hsep ht hf
  refine ⟨_, whole, hplan, ?_⟩
  intro i hi
  have hfits := fits_patches (x.offset elf tmem target) fun j hj =>
    hinside j (List.mem_append_left rest hj)
  by_cases hnone : ∀ w ∈ patches (x.offset elf tmem target) done, ¬w.Covers i
  · refine absurd ?_ hi
    rw [hmem, getElem?_patchAll hfits, lastWritten_eq_none_iff.mpr hnone]
    rfl
  · simp only [not_forall, not_not] at hnone
    obtain ⟨w, hw, hcovers⟩ := hnone
    obtain ⟨j, hj, hpatch⟩ := List.mem_filterMap.mp hw
    obtain ⟨sec, off, hsec, -, -, hle, rfl⟩ := Job.patch_eq_some hpatch
    obtain ⟨hlo, hhi⟩ := hcovers
    simp only [length_littleEndian] at hlo hhi
    exact ⟨j, List.mem_append_left rest hj, sec, hsec, hle, hlo, by omega⟩

end Repeat

/-! ## Objects -/

/-- Type information with types and strings. -/
def btfBlob (types strings : Buffer) : Buffer :=
  littleEndian 2 0xeb9f ++ [1, 0] ++ littleEndian 4 24 ++ littleEndian 4 0 ++
    littleEndian 4 types.length ++ littleEndian 4 types.length ++
    littleEndian 4 strings.length ++ types ++ strings

/-- A struct; a member is a name, a type and an offset. -/
def structRecord (nameOff : Nat) (members : List (Nat × Nat × Nat)) : Buffer :=
  littleEndian 4 nameOff ++ littleEndian 4 (kindStruct * 2 ^ 24 + members.length) ++
    littleEndian 4 0 ++ members.flatMap fun (name, type, offset) =>
      littleEndian 4 name ++ littleEndian 4 type ++ littleEndian 4 offset

/-- Records for one section. -/
def extBlob (nameOff : Nat) (records : List CoreRecord) : Buffer :=
  littleEndian 2 0xeb9f ++ [1, 0] ++ littleEndian 4 32 ++ List.replicate 16 0 ++
    littleEndian 4 0 ++ littleEndian 4 (12 + 16 * records.length) ++ littleEndian 4 16 ++
    littleEndian 4 nameOff ++ littleEndian 4 records.length ++ records.flatMap fun r =>
      littleEndian 4 r.insnOff ++ littleEndian 4 r.typeId ++ littleEndian 4 r.accOff ++
        littleEndian 4 r.kind

/-- An object with type information, records, names and code; the names are
{lit}`.BTF`, {lit}`.BTF.ext` and, from 15 on, that of the code. -/
def sampleObject (codeName strings : Buffer) (records : List CoreRecord) (code : Buffer) : Buffer :=
  let names := 0 :: btfName ++ 0 :: btfExtName ++ 0 :: codeName
  let types := structRecord 1 [(3, 0, 0), (5, 0, 32)]
  let btf := btfBlob types strings
  let ext := extBlob 15 records
  let n := 320 + btf.length + ext.length
  elfHeader 4 0 ++ sectionHeader 0 n names.length ++ sectionHeader 1 320 btf.length ++
    sectionHeader 6 (320 + btf.length) ext.length ++
    sectionHeader 15 (n + names.length) code.length ++ btf ++ ext ++ names ++ code

/-- The names {lit}`s`, {lit}`a` and {lit}`b`, the access strings {lit}`0:0` and {lit}`0:1`, and
the name of a section. -/
def sampleStrings (codeName : Buffer) : Buffer :=
  [0, 115, 0, 97, 0, 98, 0, 48, 58, 48, 0, 48, 58, 49, 0] ++ codeName ++ [0]

/-- In the target the struct {lit}`s` has {lit}`b` first and {lit}`a` after 8 bytes. -/
def sampleTarget : Buffer :=
  btfBlob (structRecord 1 [(3, 0, 0), (5, 0, 64)]) [0, 115, 0, 98, 0, 97, 0]

def sampleBtf : Btf where
  types := 24
  typesLen := 36
  strs := 60
  strsLen := 7
  idx := [0, 0]

theorem sampleTarget_opened :
    lsCoreBtfOpen (fun _ => true) sampleTarget 0 sampleTarget.length = some (some sampleBtf) := by
  rfl

/-- Two instructions, with a record for each. -/
def pairObject : Buffer :=
  sampleObject [99, 0] (sampleStrings [99])
    [{ insnOff := 0, typeId := 1, accOff := 7, kind := 0 },
      { insnOff := 8, typeId := 1, accOff := 11, kind := 0 }] (List.replicate 16 1)

def pairParsed : Parsed where
  tables := { shoff := 64, shentsize := 64, shnum := 4, strOff := 473, strSize := 17 }
  btf := (320, 77)
  ext := (397, 76)
  l := { types := 344, typesLen := 36, strs := 380, strsLen := 17, idx := [0, 0] }
  records := { first := 433, last := 473, recSize := 16 }

set_option maxRecDepth 100000 in
theorem pairObject_parsed : parse (fun _ => true) pairObject = some (.ok pairParsed) := by
  rfl

def pairJobs : List Job :=
  [{ sec := some (490, 16), record := { insnOff := 0, typeId := 1, accOff := 7, kind := 0 } },
    { sec := some (490, 16), record := { insnOff := 8, typeId := 1, accOff := 11, kind := 0 } }]

set_option maxRecDepth 100000 in
theorem pairObject_plan : pairParsed.plan pairObject = some (pairJobs, true) := by rfl

set_option maxRecDepth 100000 in
theorem pairParsed_separate : pairParsed.Separate pairObject := by
  refine ⟨17, 17, ⟨by decide, .inr (by rfl), by decide, .inr (by rfl)⟩, ?_⟩
  intro jobs whole hplan j hj
  rw [pairObject_plan] at hplan
  obtain ⟨rfl, rfl⟩ := Prod.mk.inj (Option.some.inj hplan)
  have hsec : j.sec = some (490, 16) := by
    rcases List.mem_cons.mp hj with rfl | hj
    · rfl
    · rw [List.mem_singleton.mp hj]
  intro sec hsec' i hlo hhi hreads
  rw [hsec] at hsec'
  obtain rfl := Option.some.inj hsec'
  simp only [Parsed.Reads, pairParsed] at hreads
  omega

/-- The name of the section of the code has no end of its own and goes on in the code. -/
def runsOnObject : Buffer :=
  sampleObject [99] (sampleStrings [99, 1, 1, 1, 1])
    [{ insnOff := 0, typeId := 1, accOff := 7, kind := 0 }] [1, 1, 1, 1, 0, 0, 0, 0]

def runsOnParsed : Parsed where
  tables := { shoff := 64, shentsize := 64, shnum := 4, strOff := 461, strSize := 16 }
  btf := (320, 81)
  ext := (401, 60)
  l := { types := 344, typesLen := 36, strs := 380, strsLen := 21, idx := [0, 0] }
  records := { first := 437, last := 461, recSize := 16 }

end Relocation
end LiveSurface
