import LiveSurface.Library.Patches
import LiveSurface.Relocation.Frame

/-!
# The records of an object

The relocator reads its records as it goes, and patches the object between two of them.  Read from
the object as it was given, the records are a list of jobs; where the patches stay away from what
is read, a relocation is that list, gone through from the first job to the last.

A job either has a patch or is refused, so that a run is a sequence of patches.

Main results:

- Theorem {lit}`runJobs_cases`: a run applies the patches of its jobs, up to the first that is
  refused.
- Theorem {lit}`lsCoreRelocate_run`: a relocation runs the jobs of the object as it was given.
-/

namespace LiveSurface
namespace Relocation

/-! ## What precedes the records -/

/-- All that is found before the first record. -/
structure Parsed where
  tables : Tables
  btf : Nat × Nat
  ext : Nat × Nat
  l : Btf
  records : Records
deriving DecidableEq

def Parsed.context (x : Parsed) (tmem : Buffer) (target : Btf) : Context where
  tmem
  target
  l := x.l
  last := x.records.last
  recSize := x.records.recSize
  tables := x.tables

/-- {lit}`ls_core_relocate` up to its records. -/
def parse (alloc : Nat → Bool) (elf : Buffer) : Option (Except Relo Parsed) := do
  match ← elfTables elf with
  | none => some (.error .badElf)
  | some tables =>
      match ← findInfo elf tables (List.range tables.shnum) none none with
      | .error code => some (.error code)
      | .ok (some btf, some ext) =>
          if btf.2 > 0xffffffff then some (.error .badBtf)
          else
            match ← lsCoreBtfOpen alloc elf btf.1 btf.2 with
            | none => some (.error .badBtf)
            | some l =>
                match ← findRecords elf ext with
                | none => some (.error .badBtf)
                | some records => some (.ok { tables, btf, ext, l, records })
      | .ok _ => some (.error .noBtf)

/-- A relocation after that. -/
def relocateParsed (elf tmem : Buffer) (target : Btf) : Except Relo Parsed → Option Finished
  | .error code => some (refusedRelo elf code)
  | .ok x => relocateAll elf (x.context tmem target) x.records.first

section Parse

variable {alloc : Nat → Bool} {m : Buffer} {x : Parsed}

theorem lsCoreRelocate_eq (alloc : Nat → Bool) (elf tmem : Buffer) (target : Btf) :
    lsCoreRelocate alloc elf tmem target =
      (parse alloc elf).bind (relocateParsed elf tmem target) := by
  unfold lsCoreRelocate parse
  cases elfTables elf with
  | none => rfl
  | some tables =>
      cases tables with
      | none => rfl
      | some tables =>
          simp only [Option.bind_eq_bind, Option.bind_some]
          cases findInfo elf tables (List.range tables.shnum) none none with
          | none => rfl
          | some info =>
              cases info with
              | error code => rfl
              | ok info =>
                  obtain ⟨btf, ext⟩ := info
                  cases btf with
                  | none => rfl
                  | some btf =>
                      cases ext with
                      | none => rfl
                      | some ext =>
                          simp only [Option.bind_some]
                          by_cases hbig : btf.2 > 0xffffffff
                          · rw [if_pos hbig, if_pos hbig]
                            rfl
                          · rw [if_neg hbig, if_neg hbig]
                            cases lsCoreBtfOpen alloc elf btf.1 btf.2 with
                            | none => rfl
                            | some l =>
                                cases l with
                                | none => rfl
                                | some l =>
                                    simp only [Option.bind_some]
                                    cases findRecords elf ext with
                                    | none => rfl
                                    | some records => cases records <;> rfl

/-- Where the parts of an object have been found. -/
structure Parsed.Found (x : Parsed) (alloc : Nat → Bool) (m : Buffer) : Prop where
  tables : elfTables m = some (some x.tables)
  info : findInfo m x.tables (List.range x.tables.shnum) none none =
    some (.ok (some x.btf, some x.ext))
  small : x.btf.2 ≤ 0xffffffff
  types : lsCoreBtfOpen alloc m x.btf.1 x.btf.2 = some (some x.l)
  records : findRecords m x.ext = some (some x.records)

theorem parse_of_found (h : x.Found alloc m) : parse alloc m = some (.ok x) := by
  rw [parse, h.tables]
  simp only [Option.bind_eq_bind, Option.bind_some]
  rw [h.info]
  simp only [Option.bind_some]
  rw [if_neg (Nat.not_lt.mpr h.small), h.types]
  simp only [Option.bind_some]
  rw [h.records]
  rfl

theorem found_of_parse (h : parse alloc m = some (.ok x)) : x.Found alloc m := by
  unfold parse at h
  obtain ⟨tables, htables, h⟩ := Option.bind_eq_some_iff.mp h
  cases tables with
  | none => exact nomatch Option.some.inj h
  | some tables =>
      obtain ⟨info, hinfo, h⟩ := Option.bind_eq_some_iff.mp h
      split at h
      · exact nomatch Option.some.inj h
      · rename_i btf ext
        split at h
        · exact nomatch Option.some.inj h
        · rename_i hsmall
          obtain ⟨l, hl, h⟩ := Option.bind_eq_some_iff.mp h
          cases l with
          | none => exact nomatch Option.some.inj h
          | some l =>
              obtain ⟨records, hrecords, h⟩ := Option.bind_eq_some_iff.mp h
              cases records with
              | none => exact nomatch Option.some.inj h
              | some records =>
                  obtain rfl := Except.ok.inj (Option.some.inj h)
                  exact ⟨htables, hinfo, Nat.le_of_not_lt hsmall, hl, hrecords⟩
      · exact nomatch Option.some.inj h

/-- What the walk for the type information finds lies in the object. -/
theorem findInfo_inside {t : Tables} {is : List Nat} :
    ∀ {btf ext btf' ext' : Option (Nat × Nat)},
      findInfo m t is btf ext = some (.ok (btf', ext')) →
      (∀ s, btf = some s → s.1 + s.2 ≤ m.length) → (∀ s, ext = some s → s.1 + s.2 ≤ m.length) →
      (∀ s, btf' = some s → s.1 + s.2 ≤ m.length) ∧ ∀ s, ext' = some s → s.1 + s.2 ≤ m.length := by
  induction is with
  | nil =>
      intro btf ext btf' ext' h hbtf hext
      obtain ⟨rfl, rfl⟩ := Prod.mk.inj (Except.ok.inj (Option.some.inj h))
      exact ⟨hbtf, hext⟩
  | cons i rest ih =>
      intro btf ext btf' ext' h hbtf hext
      rw [findInfo] at h
      obtain ⟨nameo, -, h⟩ := Option.bind_eq_some_iff.mp h
      split at h
      · exact ih h hbtf hext
      · obtain ⟨isbtf, -, h⟩ := Option.bind_eq_some_iff.mp h
        obtain ⟨isext, -, h⟩ := Option.bind_eq_some_iff.mp h
        split at h
        · exact ih h hbtf hext
        · obtain ⟨off, -, h⟩ := Option.bind_eq_some_iff.mp h
          obtain ⟨sz, -, h⟩ := Option.bind_eq_some_iff.mp h
          split at h
          · cases Option.some.inj h
          · rename_i hin
            have hspan : ∀ s, some (off, sz) = some s → s.1 + s.2 ≤ m.length := by
              intro s hs
              obtain rfl := Option.some.inj hs
              dsimp only
              omega
            split at h
            · exact ih h hspan hext
            · exact ih h hbtf hspan

/-- Where the records are, in the section that they were found in. -/
theorem findRecords_inside {ext : Nat × Nat} {r : Records}
    (h : findRecords m ext = some (some r)) :
    ext.1 ≤ r.first ∧ r.first ≤ r.last ∧ r.last ≤ ext.1 + ext.2 ∧ 16 ≤ r.recSize := by
  unfold findRecords at h
  split at h
  · exact nomatch Option.some.inj h
  · obtain ⟨hdrLen, -, h⟩ := Option.bind_eq_some_iff.mp h
    obtain ⟨coreOff, -, h⟩ := Option.bind_eq_some_iff.mp h
    obtain ⟨coreLen, -, h⟩ := Option.bind_eq_some_iff.mp h
    split at h
    · exact nomatch Option.some.inj h
    · obtain ⟨recSize, -, h⟩ := Option.bind_eq_some_iff.mp h
      split at h
      · exact nomatch Option.some.inj h
      · obtain rfl := Option.some.inj (Option.some.inj h)
        dsimp only
        omega

/-- The type information and the records lie in the object. -/
structure Parsed.Inside (x : Parsed) (m : Buffer) : Prop where
  tables : x.tables.Inside m
  btf : x.btf.1 + x.btf.2 ≤ m.length
  ext : x.ext.1 + x.ext.2 ≤ m.length
  opened : x.l.Opened m
  types : x.btf.1 ≤ x.l.types ∧ x.l.types + x.l.typesLen ≤ x.btf.1 + x.btf.2
  strs : x.btf.1 ≤ x.l.strs ∧ x.l.strs + x.l.strsLen ≤ x.btf.1 + x.btf.2
  records : x.ext.1 ≤ x.records.first ∧ x.records.first ≤ x.records.last ∧
    x.records.last ≤ x.ext.1 + x.ext.2
  recSize : 16 ≤ x.records.recSize

theorem Parsed.Found.inside (h : x.Found alloc m) : x.Inside m := by
  obtain ⟨hbtf, hext⟩ := findInfo_inside h.info (fun _ hs => (nomatch hs)) (fun _ hs => (nomatch hs))
  have hrecords := findRecords_inside h.records
  rcases lsCoreBtfOpen_cases alloc (hbtf x.btf rfl) with hnone | ⟨l, hl, hopened, -, htypes⟩
  · rw [h.types] at hnone
    exact nomatch Option.some.inj hnone
  · rw [h.types] at hl
    obtain rfl := Option.some.inj (Option.some.inj hl)
    exact
      { tables := elfTables_inside h.tables
        btf := hbtf x.btf rfl
        ext := hext x.ext rfl
        opened := hopened
        types := ⟨htypes.1, htypes.2.1⟩
        strs := ⟨htypes.2.2.1, htypes.2.2.2⟩
        records := ⟨hrecords.1, hrecords.2.1, hrecords.2.2.1⟩
        recSize := hrecords.2.2.2 }

end Parse

/-! ## What is read -/

/-- The positions that are read: the header, the section table, the names of the sections, the
type information and the records.  The tables of strings are taken to the end of their last
string, which need not be in the table. -/
def Parsed.Reads (x : Parsed) (span strs : Nat) (i : Nat) : Prop :=
  i < 64 ∨
  (x.tables.shoff ≤ i ∧ i < x.tables.shoff + x.tables.shnum * x.tables.shentsize) ∨
  (x.tables.strOff ≤ i ∧ i < x.tables.strOff + span) ∨
  (x.btf.1 ≤ i ∧ i < x.btf.1 + x.btf.2) ∨
  (x.ext.1 ≤ i ∧ i < x.ext.1 + x.ext.2) ∨
  (x.l.strs ≤ i ∧ i < x.l.strs + strs)

instance (x : Parsed) (span strs i : Nat) : Decidable (x.Reads span strs i) :=
  inferInstanceAs (Decidable (_ ∨ _))

/-- So far do the strings of the two tables go. -/
structure Parsed.StringsEnd (x : Parsed) (m : Buffer) (span strs : Nat) : Prop where
  spanLarge : x.tables.strSize ≤ span
  names : Terminated m x.tables.strOff span
  strsLarge : x.l.strsLen ≤ strs
  strings : Terminated m x.l.strs strs

section Covered

variable {alloc : Nat → Bool} {m m' : Buffer} {x : Parsed} {span strs : Nat}

theorem Parsed.StringsEnd.tables (h : x.StringsEnd m span strs) (hin : x.Inside m) :
    x.tables.Covered (x.Reads span strs) m span where
  inside := hin.tables
  headers := fun _ hlo hhi => Or.inr (Or.inl ⟨hlo, hhi⟩)
  names := fun _ hlo hhi => Or.inr (Or.inr (Or.inl ⟨hlo, hhi⟩))
  large := h.spanLarge
  terminated := h.names

theorem Parsed.StringsEnd.l (h : x.StringsEnd m span strs) (hin : x.Inside m) :
    x.l.Covered (x.Reads span strs) m strs where
  opened := hin.opened
  records := by
    have htypes := hin.types
    intro i hlo hhi
    exact Or.inr (Or.inr (Or.inr (Or.inl ⟨by omega, by omega⟩)))
  names := fun _ hlo hhi => Or.inr (Or.inr (Or.inr (Or.inr (Or.inr ⟨hlo, hhi⟩))))
  large := h.strsLarge
  terminated := h.strings

theorem Parsed.reads_ext : Within (x.Reads span strs) x.ext.1 x.ext.2 := fun _ hlo hhi =>
  Or.inr (Or.inr (Or.inr (Or.inr (Or.inl ⟨hlo, hhi⟩))))

/-- Objects that agree on what is read are parsed alike. -/
theorem Parsed.Found.kept (h : x.Found alloc m) (hends : x.StringsEnd m span strs)
    (hk : Kept (x.Reads span strs) m m') : x.Found alloc m' := by
  have hin := h.inside
  have hcovered := hends.tables hin
  refine ⟨?_, ?_, h.small, ?_, ?_⟩
  · rcases elfTables_cases m with hnone | ⟨t, ht, -, hshoff, hent, hnum, -⟩
    · rw [h.tables] at hnone
      exact nomatch Option.some.inj hnone
    · rw [h.tables] at ht
      obtain rfl := Option.some.inj (Option.some.inj ht)
      rw [elfTables_kept hk (fun i _ hi => Or.inl (by omega)), h.tables]
      rw [← hshoff, ← hent, ← hnum]
      exact hcovered.headers
  · rw [findInfo_kept hcovered hk fun i hi => List.mem_range.mp hi]
    exact h.info
  · rw [lsCoreBtfOpen_kept alloc hk hin.btf
      fun i hlo hhi => Or.inr (Or.inr (Or.inr (Or.inl ⟨hlo, hhi⟩)))]
    exact h.types
  · rw [findRecords_kept hk hin.ext x.reads_ext]
    exact h.records

end Covered

/-! ## Jobs -/

/-- A record, and the section of its instruction. -/
structure Job where
  sec : Option (Nat × Nat)
  record : CoreRecord
deriving DecidableEq

/-- The records of a section, and where they end; there is no end when they are cut short. -/
def planRecords (m : Buffer) (x : Parsed) (sec : Option (Nat × Nat)) :
    (num : Nat) → (p : Nat) → Option (List Job × Option Nat)
  | 0, p => some ([], some p)
  | num + 1, p =>
      if x.records.last - p < x.records.recSize then some ([], none)
      else do
        let r ← readRecord m p
        let (jobs, next) ← planRecords m x sec num (p + x.records.recSize)
        some ({ sec, record := r } :: jobs, next)

/-- The records of all sections, and whether they are all there. -/
def planGroups (m : Buffer) (x : Parsed) : (fuel : Nat) → (p : Nat) → Option (List Job × Bool)
  | 0, _ => none
  | fuel + 1, p =>
      if x.records.last - p < 8 then some ([], true)
      else do
        let nameOff ← rd 4 m p
        let num ← rd 4 m (p + 4)
        let sec ← findCode m x.tables (btfStr m x.l nameOff)
        match ← planRecords m x sec num (p + 8) with
        | (jobs, none) => some (jobs, false)
        | (jobs, some next) =>
            (planGroups m x fuel next).map fun (more, whole) => (jobs ++ more, whole)

/-- The records of an object. -/
def Parsed.plan (x : Parsed) (m : Buffer) : Option (List Job × Bool) :=
  planGroups m x (x.records.last / 8 + 1) x.records.first

/-- What the loops over the records do with one of them, given the offset of its field. -/
def runJob (offset : CoreRecord → Option (Option Nat)) (j : Job) (s : Progress) :
    Option (Except Relo Progress) :=
  if j.record.kind ≠ 0 then some (.error .kind)
  else do
    match ← offset j.record with
    | none => some (.error .noField)
    | some off =>
        match j.sec with
        | none => some (.error .bounds)
        | some sec => do
            match ← patchImm s.mem sec j.record.insnOff off with
            | none => some (.error .bounds)
            | some mem =>
                some (.ok { mem, applied :=
                  { mem := s.mem, record := j.record, sec, off } :: s.applied })

/-- Go through jobs. -/
def runJobs (offset : CoreRecord → Option (Option Nat)) :
    List Job → Progress → Option (Except (Relo × Progress) Progress)
  | [], s => some (.ok s)
  | j :: rest, s => do
      match ← runJob offset j s with
      | .error code => some (.error (code, s))
      | .ok s' => runJobs offset rest s'

/-- The patch of a job that is not refused. -/
def Job.patch (offset : CoreRecord → Option (Option Nat)) (j : Job) : Option Patch :=
  match j.sec, offset j.record with
  | some sec, some (some off) =>
      if j.record.kind = 0 ∧ j.record.insnOff + 8 ≤ sec.2 then
        some (sec.1 + j.record.insnOff + 4, littleEndian 4 off)
      else none
  | _, _ => none

/-- A section of a job lies in the object. -/
def Job.Inside (j : Job) (length : Nat) : Prop := ∀ sec, j.sec = some sec → sec.1 + sec.2 ≤ length

section Run

variable {offset : CoreRecord → Option (Option Nat)} {j : Job} {s : Progress}

theorem Job.patch_eq_some {w : Patch} (h : j.patch offset = some w) :
    ∃ sec off, j.sec = some sec ∧ offset j.record = some (some off) ∧ j.record.kind = 0 ∧
      j.record.insnOff + 8 ≤ sec.2 ∧ w = (sec.1 + j.record.insnOff + 4, littleEndian 4 off) := by
  unfold Job.patch at h
  split at h
  · rename_i sec off hsec hoff
    split at h
    · rename_i hready
      exact ⟨sec, off, hsec, hoff, hready.1, hready.2, (Option.some.inj h).symm⟩
    · contradiction
  · contradiction

theorem Job.patch_fits {w : Patch} {length : Nat} (h : j.patch offset = some w)
    (hin : j.Inside length) : w.1 + w.2.length ≤ length := by
  obtain ⟨sec, off, hsec, -, -, hle, rfl⟩ := Job.patch_eq_some h
  have hsecin := hin sec hsec
  simp only [length_littleEndian]
  omega

/-- A result code of a record. -/
def Relo.OfRecord (code : Relo) : Prop := code = .kind ∨ code = .noField ∨ code = .bounds

variable (offset) in
/-- A job is refused, or its patch is applied. -/
theorem runJob_cases (hin : j.Inside s.mem.length) :
    (offset j.record = none ∧ runJob offset j s = none) ∨
      (j.patch offset = none ∧ ∃ code : Relo, code.OfRecord ∧ runJob offset j s = some (.error code)) ∨
      ∃ w s', j.patch offset = some w ∧ runJob offset j s = some (.ok s') ∧
        s'.mem = patched s.mem w.1 w.2 ∧ s'.applied.length = s.applied.length + 1 := by
  unfold runJob Job.patch
  by_cases hkind : j.record.kind ≠ 0
  · refine Or.inr (Or.inl ⟨?_, .kind, Or.inl rfl, if_pos hkind⟩)
    split
    · rw [if_neg fun hready => hkind hready.1]
    · rfl
  · rw [if_neg hkind]
    cases hoff : offset j.record with
    | none => exact Or.inl ⟨rfl, rfl⟩
    | some found =>
        cases found with
        | none =>
            refine Or.inr (Or.inl ⟨?_, .noField, Or.inr (Or.inl rfl), rfl⟩)
            cases j.sec <;> rfl
        | some off =>
            cases hsec : j.sec with
            | none => exact Or.inr (Or.inl ⟨rfl, .bounds, Or.inr (Or.inr rfl), rfl⟩)
            | some sec =>
                have hsecin := hin sec hsec
                dsimp only [Option.bind_eq_bind, Option.bind_some]
                unfold patchImm
                by_cases hbig : j.record.insnOff + 8 > sec.2
                · refine Or.inr (Or.inl ⟨?_, .bounds, Or.inr (Or.inr rfl), ?_⟩)
                  · rw [if_neg fun hready => Nat.not_le.mpr hbig hready.2]
                  · rw [if_pos hbig]
                    rfl
                · rw [if_neg hbig, wr, if_pos (by rw [length_littleEndian]; omega),
                    if_pos ⟨not_not.mp hkind, Nat.le_of_not_lt hbig⟩]
                  exact Or.inr (Or.inr ⟨_, _, rfl, rfl, rfl, rfl⟩)

/-- The patches of jobs that have one. -/
def patches (offset : CoreRecord → Option (Option Nat)) (jobs : List Job) : List Patch :=
  jobs.filterMap (Job.patch offset)

variable (offset) in
theorem fits_patches {jobs : List Job} {length : Nat} (hin : ∀ j ∈ jobs, j.Inside length) :
    Fits (patches offset jobs) length := by
  intro w hw
  obtain ⟨j, hj, hpatch⟩ := List.mem_filterMap.mp hw
  exact Job.patch_fits hpatch (hin j hj)

variable (offset) in
/-- A run applies the patches of its jobs, up to the first job that is refused. -/
theorem runJobs_cases (jobs : List Job) :
    ∀ s : Progress, (∀ j ∈ jobs, j.Inside s.mem.length) →
      ((∃ j ∈ jobs, offset j.record = none) ∧ runJobs offset jobs s = none) ∨
        ∃ done rest s', jobs = done ++ rest ∧ (∀ j ∈ done, j.patch offset ≠ none) ∧
          s'.mem = patchAll s.mem (patches offset done) ∧
          s'.applied.length = s.applied.length + done.length ∧
          (rest = [] ∧ runJobs offset jobs s = some (.ok s') ∨
            ∃ (code : Relo) (j : Job) (rest' : List Job), rest = j :: rest' ∧ j.patch offset = none ∧ code.OfRecord ∧
              runJobs offset jobs s = some (.error (code, s'))) := by
  induction jobs with
  | nil =>
      intro s _
      exact Or.inr ⟨[], [], s, rfl, fun j hj => (nomatch hj), rfl, rfl, Or.inl ⟨rfl, rfl⟩⟩
  | cons j rest ih =>
      intro s hin
      rw [runJobs]
      rcases runJob_cases offset (hin j List.mem_cons_self) with
        ⟨hoff, hnone⟩ | ⟨hpatch, code, hcode, herror⟩ | ⟨w, s₁, hpatch, hok, hmem, happlied⟩
      · rw [hnone]
        exact Or.inl ⟨⟨j, List.mem_cons_self, hoff⟩, rfl⟩
      · rw [herror]
        exact Or.inr ⟨[], j :: rest, s, rfl, fun j hj => (nomatch hj), rfl, rfl,
          Or.inr ⟨code, j, rest, rfl, hpatch, hcode, rfl⟩⟩
      · have hfits := Job.patch_fits hpatch (hin j List.mem_cons_self)
        have hlen : s₁.mem.length = s.mem.length := by
          rw [hmem, length_patched hfits]
        rw [hok]
        simp only [Option.bind_eq_bind, Option.bind_some]
        rcases ih s₁ (fun j' hj' => by
            rw [hlen]
            exact hin j' (List.mem_cons_of_mem j hj')) with
          ⟨⟨j', hj', hoff⟩, hnone⟩ | ⟨done, rest', s', hsplit, hdone, hs', happlied', hrun⟩
        · exact Or.inl ⟨⟨j', List.mem_cons_of_mem j hj', hoff⟩, hnone⟩
        · refine Or.inr ⟨j :: done, rest', s', by rw [hsplit, List.cons_append], ?_, ?_, ?_, hrun⟩
          · intro j' hj'
            rcases List.mem_cons.mp hj' with rfl | hj'
            · rw [hpatch]
              exact Option.some_ne_none w
            · exact hdone j' hj'
          · have hcons : patches offset (j :: done) = w :: patches offset done :=
              List.filterMap_cons_some hpatch
            rw [hs', hmem, hcons]
            rfl
          · rw [happlied', happlied, List.length_cons]
            omega

/-- A run that ends well has done all jobs. -/
theorem runJobs_ok {jobs : List Job} {s' : Progress} (hin : ∀ j ∈ jobs, j.Inside s.mem.length)
    (h : runJobs offset jobs s = some (.ok s')) :
    (∀ j ∈ jobs, j.patch offset ≠ none) ∧ s'.mem = patchAll s.mem (patches offset jobs) ∧
      s'.applied.length = s.applied.length + jobs.length := by
  rcases runJobs_cases offset jobs s hin with
    ⟨-, hnone⟩ | ⟨done, rest, s₁, hsplit, hdone, hs₁, happlied, ⟨rfl, hok⟩ | ⟨code, j, rest', -, -, -, herror⟩⟩
  · rw [hnone] at h
    contradiction
  · rw [hok] at h
    obtain rfl := Except.ok.inj (Option.some.inj h)
    rw [List.append_nil] at hsplit
    subst hsplit
    exact ⟨hdone, hs₁, happlied⟩
  · rw [herror] at h
    exact nomatch Option.some.inj h

/-- Jobs that all have patches are all done, from whatever state. -/
theorem runJobs_of_patches {jobs : List Job} (hin : ∀ j ∈ jobs, j.Inside s.mem.length)
    (hpatches : ∀ j ∈ jobs, j.patch offset ≠ none) :
    ∃ s', runJobs offset jobs s = some (.ok s') ∧
      s'.mem = patchAll s.mem (patches offset jobs) ∧
      s'.applied.length = s.applied.length + jobs.length := by
  rcases runJobs_cases offset jobs s hin with
    ⟨⟨j, hj, hoff⟩, -⟩ | ⟨done, rest, s', hsplit, -, hs', happlied, ⟨rfl, hok⟩ | ⟨code, j, rest', rfl, hj, -, -⟩⟩
  · refine absurd ?_ (hpatches j hj)
    rw [Job.patch, hoff]
    cases j.sec <;> rfl
  · rw [List.append_nil] at hsplit
    subst hsplit
    exact ⟨s', hok, hs', happlied⟩
  · refine absurd hj (hpatches j ?_)
    rw [hsplit]
    exact List.mem_append_right done List.mem_cons_self

theorem runJobs_append (jobs jobs' : List Job) (s : Progress) :
    runJobs offset (jobs ++ jobs') s = (runJobs offset jobs s).bind fun
      | .error e => some (.error e)
      | .ok s' => runJobs offset jobs' s' := by
  induction jobs generalizing s with
  | nil => rfl
  | cons j rest ih =>
      rw [List.cons_append, runJobs, runJobs]
      cases runJob offset j s with
      | none => rfl
      | some result =>
          cases result with
          | error code => rfl
          | ok s' => exact ih s'

/-- The section of a job is clear of positions. -/
def Job.Clear (j : Job) (P : Nat → Prop) : Prop :=
  ∀ sec, j.sec = some sec → Within (fun i => ¬P i) sec.1 sec.2

theorem Job.patch_clear {w : Patch} {P : Nat → Prop} (h : j.patch offset = some w)
    (hclear : j.Clear P) (i : Nat) (hi : w.Covers i) : ¬P i := by
  obtain ⟨sec, off, hsec, -, -, hle, rfl⟩ := Job.patch_eq_some h
  obtain ⟨hlo, hhi⟩ := hi
  simp only [length_littleEndian] at hlo hhi
  exact hclear sec hsec i (by omega) (by omega)

/-- Jobs that are clear of what is read keep it. -/
theorem kept_patches {P : Nat → Prop} {m : Buffer} {jobs : List Job}
    (hin : ∀ j ∈ jobs, j.Inside m.length) (hclear : ∀ j ∈ jobs, j.Clear P) :
    Kept P m (patchAll m (patches offset jobs)) := by
  apply kept_patchAll (fits_patches offset hin)
  intro w hw
  obtain ⟨j, hj, hpatch⟩ := List.mem_filterMap.mp hw
  exact Job.patch_clear hpatch (hclear j hj)

theorem kept_runJobs {P : Nat → Prop} {m : Buffer} {jobs : List Job} {s' : Progress}
    (hk : Kept P m s.mem) (hin : ∀ j ∈ jobs, j.Inside m.length) (hclear : ∀ j ∈ jobs, j.Clear P)
    (h : runJobs offset jobs s = some (.ok s')) : Kept P m s'.mem := by
  rw [← hk.length] at hin
  rw [(runJobs_ok hin h).2.1]
  exact hk.trans (kept_patches hin hclear)

end Run

/-! ## The loops go through the jobs -/

/-- The offset of the field of a record, looked up in an object. -/
def Parsed.offset (x : Parsed) (m tmem : Buffer) (target : Btf) (r : CoreRecord) :
    Option (Option Nat) :=
  coreFieldOffset m x.l r.typeId (btfStr m x.l r.accOff) tmem target

/-- The result of the loops, given whether the records were all there. -/
def finish (whole : Bool) : Except (Relo × Progress) Progress → Finished
  | .error (code, s) => { code, mem := s.mem, applied := s.applied }
  | .ok s => { code := if whole then .ok else .badBtf, mem := s.mem, applied := s.applied }

section Loops

variable {m m' tmem : Buffer} {x : Parsed} {target : Btf} {span strs : Nat}
  {sec : Option (Nat × Nat)}

theorem readRecord_kept {P : Nat → Prop} (hk : Kept P m m') {p : Nat} (hP : Within P p 16) :
    readRecord m' p = readRecord m p := by
  rw [readRecord, readRecord, hk.rd (hP.sub (by omega) (by omega)),
    hk.rd (hP.sub (by omega) (by omega)), hk.rd (hP.sub (by omega) (by omega)),
    hk.rd (hP.sub (by omega) (by omega))]

theorem readRecord_of_le {p : Nat} (hp : p + 16 ≤ m.length) : ∃ r, readRecord m p = some r := by
  rw [readRecord, rd_of_le (by omega), rd_of_le (by omega), rd_of_le (by omega),
    rd_of_le (by omega)]
  exact ⟨_, rfl⟩

variable (sec) in
/-- The records of a section are read inside the object; all have this section. -/
theorem planRecords_cases (hin : x.Inside m) (num : Nat) :
    ∀ p, ∃ jobs next, planRecords m x sec num p = some (jobs, next) ∧
      (∀ j ∈ jobs, j.sec = sec) ∧ ∀ p', next = some p' → p' = p + num * x.records.recSize := by
  induction num with
  | zero =>
      intro p
      refine ⟨[], some p, rfl, fun j hj => (nomatch hj), fun p' hp' => ?_⟩
      rw [Nat.zero_mul]
      exact (Option.some.inj hp').symm
  | succ num ih =>
      intro p
      rw [planRecords]
      by_cases hcut : x.records.last - p < x.records.recSize
      · rw [if_pos hcut]
        exact ⟨[], none, rfl, fun j hj => (nomatch hj), fun p' hp' => (nomatch hp')⟩
      · have hrecords := hin.records
        have hext := hin.ext
        have hsize := hin.recSize
        obtain ⟨r, hr⟩ := readRecord_of_le (m := m) (p := p) (by omega)
        obtain ⟨jobs, next, hplan, hsec, hnext⟩ := ih (p + x.records.recSize)
        rw [if_neg hcut, hr]
        simp only [Option.bind_eq_bind, Option.bind_some, hplan]
        refine ⟨_, next, rfl, ?_, ?_⟩
        · intro j hj
          rcases List.mem_cons.mp hj with rfl | hj
          · rfl
          · exact hsec j hj
        · intro p' hp'
          rw [hnext p' hp', Nat.succ_mul]
          omega

/-- A section that records apply to lies in the object. -/
theorem findCode_cases {t : Tables} {P : Nat → Prop} (htables : t.Covered P m span)
    {word : List UInt8} (hword : (cstr word).isSome) :
    ∃ sec, findCode m t word = some sec ∧ ∀ s, sec = some s → s.1 + s.2 ≤ m.length := by
  obtain ⟨w, hw⟩ := Option.isSome_iff_exists.mp hword
  rw [findCode, htables.firstNamed hw]
  simp only [Option.bind_eq_bind, Option.bind_some]
  cases hfind : (List.range t.shnum).find? fun i => decide (t.name m i = some w) with
  | none => exact ⟨none, rfl, fun s hs => (nomatch hs)⟩
  | some i =>
      have hi := List.mem_range.mp (List.mem_of_find?_eq_some hfind)
      dsimp only
      rw [htables.inside.rd hi (by decide : 0x18 + 8 ≤ 64),
        htables.inside.rd hi (by decide : 0x20 + 8 ≤ 64)]
      simp only [Option.bind_some]
      split
      · rename_i hspan
        refine ⟨_, rfl, fun s hs => ?_⟩
        obtain rfl := Option.some.inj hs
        dsimp only
        omega
      · exact ⟨none, rfl, fun s hs => (nomatch hs)⟩

/-- The records are read inside the object, and the reading ends. -/
theorem planGroups_cases (hin : x.Inside m) (hends : x.StringsEnd m span strs) (fuel : Nat) :
    ∀ p, 0 < fuel → x.ext.1 ≤ p → x.records.last < p + 8 * fuel →
      ∃ jobs whole, planGroups m x fuel p = some (jobs, whole) ∧ ∀ j ∈ jobs, j.Inside m.length := by
  induction fuel with
  | zero =>
      intro p hpos
      contradiction
  | succ fuel ih =>
      intro p _ hp hfuel
      rw [planGroups]
      by_cases hlast : x.records.last - p < 8
      · rw [if_pos hlast]
        exact ⟨[], true, rfl, fun j hj => (nomatch hj)⟩
      · have hrecords := hin.records
        have hext := hin.ext
        rw [if_neg hlast, rd_of_le (by omega), rd_of_le (by omega)]
        simp only [Option.bind_eq_bind, Option.bind_some]
        have hstring := ((hends.l hin).string (Kept.refl _ m) (leAt 4 m p)).1
        obtain ⟨sec, hsec, hsecin⟩ := findCode_cases (hends.tables hin) hstring
        obtain ⟨jobs, next, hplan, hjobs, hnext⟩ :=
          planRecords_cases sec hin (leAt 4 m (p + 4)) (p + 8)
        have hinside : ∀ j ∈ jobs, j.Inside m.length := by
          intro j hj s hs
          exact hsecin s ((hjobs j hj).symm.trans hs)
        rw [hsec]
        simp only [Option.bind_some, hplan]
        cases next with
        | none => exact ⟨jobs, false, rfl, hinside⟩
        | some next =>
            have hp' := hnext next rfl
            obtain ⟨more, whole, hmore, hmorein⟩ := ih next (by omega) (by omega) (by omega)
            dsimp only
            rw [hmore]
            refine ⟨jobs ++ more, whole, rfl, ?_⟩
            intro j hj
            rcases List.mem_append.mp hj with hj | hj
            · exact hinside j hj
            · exact hmorein j hj

variable (hin : x.Inside m) (hends : x.StringsEnd m span strs) (ht : target.Opened tmem)

include hin hends ht in
/-- The loop over the records of a section goes through their jobs. -/
theorem relocateRecords_plan (num : Nat) :
    ∀ (p : Nat) (s : Progress) (jobs : List Job) (next : Option Nat),
      Kept (x.Reads span strs) m s.mem → x.ext.1 ≤ p →
      planRecords m x sec num p = some (jobs, next) → (∀ j ∈ jobs, j.Inside m.length) →
      (∀ j ∈ jobs, j.Clear (x.Reads span strs)) →
      relocateRecords (x.context tmem target) sec num p s =
        (runJobs (x.offset m tmem target) jobs s).map fun
          | .error e => .error e
          | .ok s' =>
              match next with
              | none => .error (.badBtf, s')
              | some p' => .ok (p', s') := by
  induction num with
  | zero =>
      intro p s jobs next _ _ hplan _ _
      obtain ⟨rfl, rfl⟩ := Prod.mk.inj (Option.some.inj hplan)
      rfl
  | succ num ih =>
      intro p s jobs next hk hp hplan hinside hclear
      rw [planRecords] at hplan
      rw [relocateRecords]
      by_cases hcut : x.records.last - p < x.records.recSize
      · rw [if_pos hcut] at hplan
        obtain ⟨rfl, rfl⟩ := Prod.mk.inj (Option.some.inj hplan)
        exact if_pos hcut
      · rw [if_neg hcut] at hplan
        rw [if_neg (show ¬(x.context tmem target).last - p < (x.context tmem target).recSize from
          hcut)]
        obtain ⟨r, hr, hplan⟩ := Option.bind_eq_some_iff.mp hplan
        obtain ⟨⟨rest, next'⟩, hrest, hplan⟩ := Option.bind_eq_some_iff.mp hplan
        obtain ⟨rfl, rfl⟩ := Prod.mk.inj (Option.some.inj hplan)
        have hrecords := hin.records
        have hsize := hin.recSize
        have hread : readRecord s.mem p = some r := by
          rw [readRecord_kept hk (x.reads_ext.sub hp (by omega)), hr]
        have hoffset : x.offset s.mem tmem target = x.offset m tmem target := by
          funext r
          exact coreFieldOffset_kept (hends.l hin) hk ht r.typeId r.accOff
        have hjob : relocateRecord (x.context tmem target) sec r s =
            runJob (x.offset m tmem target) { sec, record := r } s := by
          rw [← hoffset]
          rfl
        rw [hread]
        simp only [Option.bind_eq_bind, Option.bind_some, hjob]
        rw [runJobs]
        cases hrun : runJob (x.offset m tmem target) { sec, record := r } s with
        | none => rfl
        | some result =>
            cases result with
            | error code => rfl
            | ok s' =>
                have hone : runJobs (x.offset m tmem target) [{ sec, record := r }] s =
                    some (.ok s') := by
                  rw [runJobs, hrun]
                  rfl
                have hk' : Kept (x.Reads span strs) m s'.mem :=
                  kept_runJobs hk
                    (fun j hj => hinside j (List.mem_of_mem_head? (by
                      rw [List.mem_singleton.mp hj]
                      rfl)))
                    (fun j hj => hclear j (List.mem_of_mem_head? (by
                      rw [List.mem_singleton.mp hj]
                      rfl))) hone
                exact ih (p + x.records.recSize) s' rest next' hk' (by omega) hrest
                  (fun j hj => hinside j (List.mem_cons_of_mem _ hj))
                  fun j hj => hclear j (List.mem_cons_of_mem _ hj)

include hin hends ht in
/-- The loop over the sections goes through all jobs. -/
theorem relocateGroups_plan (fuel : Nat) :
    ∀ (p : Nat) (s : Progress) (jobs : List Job) (whole : Bool),
      Kept (x.Reads span strs) m s.mem → x.ext.1 ≤ p →
      planGroups m x fuel p = some (jobs, whole) → (∀ j ∈ jobs, j.Inside m.length) →
      (∀ j ∈ jobs, j.Clear (x.Reads span strs)) →
      relocateGroups (x.context tmem target) fuel p s =
        (runJobs (x.offset m tmem target) jobs s).map fun
          | .error e => .error e
          | .ok s' => if whole then .ok s' else .error (.badBtf, s') := by
  induction fuel with
  | zero =>
      intro p s jobs whole _ _ hplan
      contradiction
  | succ fuel ih =>
      intro p s jobs whole hk hp hplan hinside hclear
      rw [planGroups] at hplan
      rw [relocateGroups]
      by_cases hlast : x.records.last - p < 8
      · rw [if_pos hlast] at hplan
        obtain ⟨rfl, rfl⟩ := Prod.mk.inj (Option.some.inj hplan)
        exact if_pos hlast
      · rw [if_neg hlast] at hplan
        rw [if_neg (show ¬(x.context tmem target).last - p < 8 from hlast)]
        have hrecords := hin.records
        obtain ⟨nameOff, hname, hplan⟩ := Option.bind_eq_some_iff.mp hplan
        obtain ⟨num, hnum, hplan⟩ := Option.bind_eq_some_iff.mp hplan
        obtain ⟨sec, hsec, hplan⟩ := Option.bind_eq_some_iff.mp hplan
        obtain ⟨⟨first, next⟩, hfirst, hplan⟩ := Option.bind_eq_some_iff.mp hplan
        have hstring := (hends.l hin).string hk nameOff
        have hcode : findCode s.mem (x.context tmem target).tables
            (btfStr s.mem (x.context tmem target).l nameOff) = some sec := by
          rw [← hsec]
          exact findCode_kept (hends.tables hin) hk hstring.1 hstring.2
        rw [hk.rd (x.reads_ext.sub hp (by omega)), hname,
          hk.rd (x.reads_ext.sub (by omega) (by omega)), hnum]
        simp only [Option.bind_eq_bind, Option.bind_some, hcode]
        obtain ⟨jobs', next', hjobs', -, hnext⟩ :=
          planRecords_cases sec hin num (p + 8)
        rw [hfirst] at hjobs'
        obtain ⟨rfl, rfl⟩ := Prod.mk.inj (Option.some.inj hjobs')
        cases next with
        | none =>
            obtain ⟨rfl, rfl⟩ := Prod.mk.inj (Option.some.inj hplan)
            rw [relocateRecords_plan hin hends ht num (p + 8) s first none hk (by omega) hfirst
              hinside hclear]
            cases runJobs (x.offset m tmem target) first s with
            | none => rfl
            | some result => cases result <;> rfl
        | some next =>
            obtain ⟨⟨more, whole'⟩, hmore, hplan⟩ := Option.map_eq_some_iff.mp hplan
            obtain ⟨rfl, rfl⟩ := Prod.mk.inj hplan
            have hinside' : ∀ j ∈ first, j.Inside m.length := fun j hj =>
              hinside j (List.mem_append_left more hj)
            have hclear' : ∀ j ∈ first, j.Clear (x.Reads span strs) := fun j hj =>
              hclear j (List.mem_append_left more hj)
            rw [relocateRecords_plan hin hends ht num (p + 8) s first (some next) hk (by omega)
              hfirst hinside' hclear', runJobs_append]
            cases hrun : runJobs (x.offset m tmem target) first s with
            | none => rfl
            | some result =>
                cases result with
                | error e => rfl
                | ok s' =>
                    have hp' := hnext next rfl
                    exact ih next s' more whole' (kept_runJobs hk hinside' hclear' hrun) (by omega)
                      hmore (fun j hj => hinside j (List.mem_append_right first hj))
                      fun j hj => hclear j (List.mem_append_right first hj)

end Loops

/-! ## A relocation goes through the jobs -/

/-- The strings of the object end before any section that is patched, and these sections are clear
of everything else that is read. -/
def Parsed.Separate (x : Parsed) (m : Buffer) : Prop :=
  ∃ span strs, x.StringsEnd m span strs ∧
    ∀ jobs whole, x.plan m = some (jobs, whole) → ∀ j ∈ jobs, j.Clear (x.Reads span strs)

section Relocation

variable {alloc : Nat → Bool} {m tmem : Buffer} {x : Parsed} {target : Btf}

/-- A relocation goes through the jobs of the object as it was given, and of every object that
agrees with it on what is read. -/
theorem lsCoreRelocate_run (hx : parse alloc m = some (.ok x)) (hsep : x.Separate m)
    (ht : target.Opened tmem) :
    ∃ jobs whole span strs, x.plan m = some (jobs, whole) ∧ x.StringsEnd m span strs ∧
      (∀ j ∈ jobs, j.Inside m.length) ∧ (∀ j ∈ jobs, j.Clear (x.Reads span strs)) ∧
      ∀ m', Kept (x.Reads span strs) m m' → lsCoreRelocate alloc m' tmem target =
        (runJobs (x.offset m tmem target) jobs { mem := m', applied := [] }).map (finish whole) := by
  obtain ⟨span, strs, hends, hclear⟩ := hsep
  have hfound := found_of_parse hx
  have hin := hfound.inside
  have hrecords := hin.records
  obtain ⟨jobs, whole, hplan, hinside⟩ := planGroups_cases hin hends (x.records.last / 8 + 1)
    x.records.first (Nat.succ_pos _) hrecords.1 (by omega)
  refine ⟨jobs, whole, span, strs, hplan, hends, hinside, hclear jobs whole hplan, ?_⟩
  intro m' hk
  have hgroups := relocateGroups_plan hin hends ht (x.records.last / 8 + 1) x.records.first
    { mem := m', applied := [] } jobs whole hk hrecords.1 hplan hinside (hclear jobs whole hplan)
  rw [lsCoreRelocate_eq, parse_of_found (hfound.kept hends hk), Option.bind_some, relocateParsed,
    relocateAll, show (x.context tmem target).last = x.records.last from rfl, hgroups]
  cases runJobs (x.offset m tmem target) jobs { mem := m', applied := [] } with
  | none => rfl
  | some result =>
      cases result with
      | error e => rfl
      | ok s => cases whole <;> rfl

end Relocation

end Relocation
end LiveSurface
