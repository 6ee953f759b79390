import LiveSurface.Target.Sections
import Mathlib.Data.List.Perm.Subperm

/-!
# The grammar of signed targets

A signed object has between one and twelve programs and one record.  The record is the target of
the only program, or a set with one row for each program; the target of a section is what the
record says for it.  This is the grammar that the parser accepts, with the section and the build
it is asked for.

Main results:

- Theorem {lit}`visitRow_agrees`: one row, against the rows before it.
- Theorem {lit}`setRecord_accepts`: a set is a row for each program.
- Theorem {lit}`lsTargetParse_accepts`: the parser stays inside the object and accepts the grammar.
-/

namespace LiveSurface
namespace Target

open Checked
open Control (LsTarget lsTargetMagic)

/-! ## Rows -/

structure Row where
  name : List UInt8
  target : LsTarget
deriving DecidableEq

/-- The row in 144 bytes; the array of its name is filled with zeros. -/
def rowOf (b : List UInt8) : Option Row :=
  (cstr (bytesAt 80 b 0)).bind fun name =>
    if ∀ x ∈ (bytesAt 80 b 0).drop name.length, x = 0 then
      some { name, target := targetOfBytes (bytesAt 64 b 80) }
    else none

/-- The row of a number, in the set at a position. -/
def rowAt (elf : Buffer) (offset i : Nat) : Option Row :=
  rowOf (bytesAt 144 elf (offset + 16 + i * 144))

/-- A row names an entry program, and its target is right for it. -/
structure RowOk (build : List UInt8) (row : Row) : Prop where
  entry : Program.fentryBytes <+: row.name
  named : row.name ≠ Program.fentryBytes
  magic : row.target.magic = lsTargetMagic
  build : row.target.buildId = build
  address : row.target.entry ≠ 0
  kind : row.target.isExit = 0
  pad : row.target.padOffset = 0 ∨ row.target.padOffset = 4
  reserved : ∀ b ∈ row.target.reserved, b = 0

/-- A row goes with those before it. -/
structure RowTaken (names : List (List UInt8)) (build : List UInt8) (before : List Row)
    (row : Row) : Prop where
  ok : RowOk build row
  entry : row.target.entry ∉ before.map fun r => r.target.entry
  program : row.name ∈ names
  name : row.name ∉ before.map Row.name

/-- The byte after the prefix ends the name or goes on with it. -/
theorem seventh_iff {field name : List UInt8} (h : cstr field = some name)
    (hstart : Program.fentryBytes <+: name) :
    field[7]? ≠ some 0 ↔ name ≠ Program.fentryBytes := by
  obtain ⟨hzero, rest, rfl⟩ := cstr_eq_some h
  obtain ⟨u, rfl⟩ := hstart
  rw [List.append_assoc, List.getElem?_append_right (by decide)]
  cases u with
  | nil => simp [Program.fentryBytes]
  | cons x xs =>
      rw [List.mem_append, not_or, List.mem_cons, not_or] at hzero
      simp [Program.fentryBytes, Ne.symm hzero.2.1]

/-- The checks of a row by itself. -/
theorem rowRight_iff {field name build : List UInt8} {target : LsTarget}
    (h : cstr field = some name) : RowRight field name target build ↔
      (∀ x ∈ field.drop name.length, x = 0) ∧ RowOk build { name, target } := by
  unfold RowRight
  rw [prefix_iff_of_cstr h fentryBytes_nonzero]
  constructor
  · rintro ⟨hentry, hseventh, hmagic, hbuild, haddress, hkind, hpad, hzeros, hreserved⟩
    exact ⟨hzeros, hentry, (seventh_iff h hentry).mp hseventh, hmagic, hbuild, haddress, hkind, hpad,
      hreserved⟩
  · rintro ⟨hzeros, hok⟩
    exact ⟨hok.entry, (seventh_iff h hok.entry).mpr hok.named, hok.magic, hok.build, hok.address,
      hok.kind, hok.pad, hzeros, hok.reserved⟩

/-! ## The mask of the programs that had a row -/

/-- One bit for each row, at the number of its program. -/
def mask (names : List (List UInt8)) (done : List Row) : Nat :=
  done.foldl (fun m row => m ||| 1 <<< names.idxOf row.name) 0

section Mask

variable {names : List (List UInt8)} {done : List Row}

theorem mask_append (row : Row) :
    mask names (done ++ [row]) = mask names done ||| 1 <<< names.idxOf row.name := by
  rw [mask, List.foldl_append]
  rfl

theorem testBit_mask {j : Nat} :
    (mask names done).testBit j = true ↔ ∃ row ∈ done, names.idxOf row.name = j := by
  induction done using List.reverseRecOn with
  | nil => simp [mask]
  | append_singleton done row ih =>
      rw [mask_append, Nat.testBit_or, Bool.or_eq_true, ih, Nat.one_shiftLeft, Nat.testBit_two_pow,
        decide_eq_true_iff]
      simp only [List.mem_append, List.mem_singleton, or_and_right, exists_or, exists_eq_left]

/-- The bit of a program is set when a row had its name. -/
theorem mask_bit_iff {name : List UInt8} (h : name ∈ names) :
    mask names done &&& 1 <<< names.idxOf name ≠ 0 ↔ name ∈ done.map Row.name := by
  rw [Nat.one_shiftLeft, Nat.and_two_pow, List.mem_map]
  have hbit : (mask names done).testBit (names.idxOf name) = true ↔
      ∃ row ∈ done, row.name = name := by
    rw [testBit_mask]
    refine exists_congr fun row => and_congr_right fun _ => ?_
    rw [eq_comm, List.idxOf_inj h, eq_comm]
  rw [← hbit]
  cases (mask names done).testBit (names.idxOf name) <;> simp

/-- Rows for all programs set all bits. -/
theorem mask_full (hnames : names.Nodup) (hperm : (done.map Row.name).Perm names) :
    mask names done = 1 <<< names.length - 1 := by
  apply Nat.eq_of_testBit_eq
  intro j
  rw [Nat.one_shiftLeft, Nat.testBit_two_pow_sub_one, Bool.eq_iff_iff, testBit_mask,
    decide_eq_true_iff]
  constructor
  · rintro ⟨row, hrow, rfl⟩
    exact List.idxOf_lt_length_of_mem (hperm.subset (List.mem_map_of_mem hrow))
  · intro hj
    obtain ⟨row, hrow, hname⟩ := List.mem_map.mp (hperm.symm.subset (List.getElem_mem hj))
    exact ⟨row, hrow, by rw [hname, hnames.idxOf_getElem]⟩

end Mask

/-! ## The rows of a set -/

/-- What the rows so far leave. -/
def rowsAfter (names : List (List UInt8)) (sec : List UInt8) (done : List Row) : Rows where
  entries := done.map fun row => row.target.entry
  seen := mask names done
  selected := (done.filter fun row => row.name = sec).length
  out := (done.filter fun row => row.name = sec).getLast?.map Row.target

theorem rowsAfter_append {names : List (List UInt8)} {sec : List UInt8} {done : List Row}
    {row : Row} : rowsAfter names sec (done ++ [row]) =
      (rowsAfter names sec done).take (names.idxOf row.name) row.target
        (decide (row.name = sec)) := by
  simp only [rowsAfter, Rows.take, mask_append, List.map_append, List.filter_append]
  by_cases hmine : row.name = sec
  · simp [hmine]
  · simp [hmine]

theorem position_eq {elf : Buffer} {ns : List Nat} {ps : List NamedSection}
    {field name : List UInt8} (h : cstr field = some name) (hnames : List.Forall₂ (Holds elf) ns ps) :
    position elf field ns = some ((ps.map NamedSection.name).idxOf name) := by
  induction hnames with
  | nil => rfl
  | @cons n s ns ps hs _ ih =>
      rw [position, strcmp_of_cstr h hs, ih, List.map_cons, List.idxOf_cons]
      by_cases heq : name = s.name
      · simp [heq]
      · rw [decide_eq_false heq, beq_eq_false_iff_ne.mpr (Ne.symm heq)]
        rfl

section Rows

variable {elf : Buffer} {ns : List Nat} {ps : List NamedSection} {offset : Nat} {sec build : CString}

/-- One row, against the rows before it. -/
theorem visitRow_agrees [∀ before row, Decidable (RowTaken (ps.map NamedSection.name) build.bytes
      before row)] {done : List Row} {i : Nat} (hnames : List.Forall₂ (Holds elf) ns ps)
    (hin : offset + 16 + i * 144 + 144 ≤ elf.length) :
    Agrees (fun s done => s = rowsAfter (ps.map NamedSection.name) sec.bytes done)
      (visitRow elf ns offset sec build
        (rowsAfter (ps.map NamedSection.name) sec.bytes done) i)
      ((rowAt elf offset i).bind
        (collect (RowTaken (ps.map NamedSection.name) build.bytes) done)) := by
  refine agrees_read (rdBytes_of_le hin) ?_
  rw [rowAt, rowOf]
  generalize bytesAt 144 elf (offset + 16 + i * 144) = b
  cases hfield : cstr (bytesAt 80 b 0) with
  | none =>
      simp only [hfield]
      exact agrees_refuse
  | some name =>
      simp only [hfield, Option.bind_some]
      refine agrees_refuseIf (fun hbad => ?_) fun hright => ?_
      · rw [rowRight_iff hfield, not_and] at hbad
        by_cases hzeros : ∀ x ∈ (bytesAt 80 b 0).drop name.length, x = 0
        · rw [if_pos hzeros]
          exact if_neg fun ht => hbad hzeros ht.ok
        · rw [if_neg hzeros]
          rfl
      rw [not_not, rowRight_iff hfield] at hright
      obtain ⟨hzeros, hok⟩ := hright
      rw [if_pos hzeros, Option.bind_some]
      refine agrees_refuseIf (fun hbad => if_neg fun ht => ht.entry hbad) fun hentry => ?_
      refine agrees_read (position_eq hfield hnames) ?_
      have hlen : ns.length = (ps.map NamedSection.name).length := by
        rw [hnames.length_eq, List.length_map]
      rw [hlen]
      refine agrees_refuseIf (fun hbad => if_neg fun ht => ?_) fun hnew => ?_
      · rcases hbad with hbad | hbad
        · exact List.idxOf_eq_length_iff.mp hbad ht.program
        · exact ht.name ((mask_bit_iff ht.program).mp hbad)
      · rw [not_or, List.idxOf_eq_length_iff, not_not] at hnew
        obtain ⟨hprogram, hseen⟩ := hnew
        refine agrees_read (strcmp_of_cstr hfield sec.cstr_pointer) ?_
        rw [collect, if_pos ⟨hok, hentry, hprogram, mt (mask_bit_iff hprogram).mpr hseen⟩]
        exact agrees_pure (@rowsAfter_append _ _ _ { name, target := _ }).symm

end Rows

/-! ## The two forms of the record -/

/-- A set has a row for each program, all for different functions. -/
structure IsSet (elf : Buffer) (names : List (List UInt8)) (offset size : Nat)
    (build : List UInt8) (rows : List Row) : Prop where
  magic : bytesAt 8 elf offset = lsTargetSetMagic
  count : leAt 4 elf (offset + 8) = names.length
  reserved : leAt 4 elf (offset + 12) = 0
  two : 2 ≤ names.length
  size : size = 16 + names.length * 144
  read : (List.range names.length).mapM (rowAt elf offset) = some rows
  right : ∀ row ∈ rows, RowOk build row
  entries : (rows.map fun row => row.target.entry).Nodup
  programs : (rows.map Row.name).Perm names

/-- The record says that the target of a section is {lit}`out`. -/
def Selects (elf : Buffer) (names : List (List UInt8)) (offset size : Nat)
    (sec build : List UInt8) (out : LsTarget) : Prop :=
  (size = 64 ∧ names = [sec] ∧ targetOfBytes (bytesAt 64 elf offset) = out) ∨
    (size ≠ 64 ∧ ∃ rows, IsSet elf names offset size build rows ∧
      ∃ row ∈ rows, row.name = sec ∧ row.target = out)

section Forms

variable {elf : Buffer} {ns : List Nat} {ps : List NamedSection} {offset size : Nat}
  {sec build : CString}

theorem singleRecord_accepts (hnames : List.Forall₂ (Holds elf) ns ps)
    (hin : offset + 64 ≤ elf.length) : Accepts (singleRecord elf ns offset sec) fun out =>
      ps.map NamedSection.name = [sec.bytes] ∧ targetOfBytes (bytesAt 64 elf offset) = out := by
  cases hnames with
  | nil => exact accepts_refuse fun out h => nomatch h.1
  | @cons n s ns ps hs hrest =>
      cases hrest with
      | cons _ _ => exact accepts_refuse fun out h => by simp at h
      | nil =>
          refine accepts_read (strcmp_of_cstr hs sec.cstr_pointer) ?_
          refine accepts_refuseIf (fun hbad out h => ?_) fun hsame => ?_
          · have hne : s.name ≠ sec.bytes := of_decide_eq_false hbad
            exact hne (List.singleton_inj.mp h.1)
          · rw [Bool.not_eq_false, decide_eq_true_iff] at hsame
            refine accepts_read (rdBytes_of_le hin) ?_
            refine accepts_pure.congr fun out => ?_
            rw [List.map_singleton, hsame]
            exact (and_iff_right rfl).symm

/-- The rows that a loop takes. -/
theorem rows_eq_some_iff [∀ before row, Decidable (RowTaken (ps.map NamedSection.name) build.bytes
      before row)] {rows taken : List Row} :
    rows.foldlM (collect (RowTaken (ps.map NamedSection.name) build.bytes)) [] = some taken ↔
      taken = rows ∧ (∀ row ∈ rows, RowOk build.bytes row) ∧
        (rows.map fun row => row.target.entry).Nodup ∧
        (∀ row ∈ rows, row.name ∈ ps.map NamedSection.name) ∧ (rows.map Row.name).Nodup := by
  rw [foldlM_collect_eq_some_iff, List.nil_append]
  refine and_congr_right fun _ => ?_
  rw [← forall_split_iff, ← nodup_split_iff, ← forall_split_iff, ← nodup_split_iff]
  simp only [List.nil_append]
  exact ⟨fun h => ⟨fun b r a hs => (h b r a hs).ok, fun b r a hs => (h b r a hs).entry,
      fun b r a hs => (h b r a hs).program, fun b r a hs => (h b r a hs).name⟩,
    fun h b r a hs => ⟨h.1 b r a hs, h.2.1 b r a hs, h.2.2.1 b r a hs, h.2.2.2 b r a hs⟩⟩

/-- As many rows as programs, with different names, are a row for each. -/
theorem rows_perm {rows : List Row} {names : List (List UInt8)} (hlen : rows.length = names.length)
    (hnodup : (rows.map Row.name).Nodup) (hmem : ∀ row ∈ rows, row.name ∈ names) :
    (rows.map Row.name).Perm names := by
  have hsubset : rows.map Row.name ⊆ names := by
    intro name hname
    obtain ⟨row, hrow, rfl⟩ := List.mem_map.mp hname
    exact hmem row hrow
  refine (List.subperm_of_subset hnodup hsubset).perm_of_length_le ?_
  rw [List.length_map, hlen]

/-- At most one row has a name. -/
theorem filter_name {rows : List Row} (hnodup : (rows.map Row.name).Nodup) {row : Row}
    (hrow : row ∈ rows) : (rows.filter fun r => r.name = row.name) = [row] := by
  have hrows : rows.Nodup := hnodup.of_map
  have honly : (rows.filter fun r => r.name = row.name) = rows.filter fun r => r = row := by
    refine List.filter_congr fun r hr => ?_
    rw [decide_eq_decide]
    exact ⟨fun h => List.inj_on_of_nodup_map hnodup hr hrow h, fun h => h ▸ rfl⟩
  rw [honly, List.filter_eq, List.count_eq_one_of_mem hrows hrow, List.replicate_one]

/-- A set is a row for each program, and its target is that of the section's row. -/
theorem setRecord_accepts (hnames : List.Forall₂ (Holds elf) ns ps)
    (hdistinct : (ps.map NamedSection.name).Nodup) (hin : offset + size ≤ elf.length) :
    Accepts (setRecord elf ns offset size sec build) fun out =>
      ∃ rows, IsSet elf (ps.map NamedSection.name) offset size build.bytes rows ∧
        ∃ row ∈ rows, row.name = sec.bytes ∧ row.target = out := by
  classical
  have hlen : ns.length = (ps.map NamedSection.name).length := by
    rw [hnames.length_eq, List.length_map]
  refine accepts_refuseIf (fun hsmall out ⟨rows, h, _⟩ => ?_) fun hheader => ?_
  · have hsize := h.size
    omega
  refine accepts_read (rdBytes_of_le (by omega)) ?_
  refine accepts_refuseIf (fun hbad out ⟨rows, h, _⟩ => ?_) fun hright => ?_
  · rw [bytesAt_bytesAt (by decide), leAt_bytesAt (by decide), leAt_bytesAt (by decide), hlen,
      Nat.add_zero] at hbad
    rcases hbad with hbad | hbad | hbad | hbad | hbad
    · exact hbad h.magic
    · exact hbad h.reserved
    · exact hbad h.count
    · have htwo := h.two
      have hcount := h.count
      omega
    · rw [h.count] at hbad
      exact hbad h.size
  simp only [not_or, not_not, Nat.not_lt] at hright
  rw [bytesAt_bytesAt (by decide), leAt_bytesAt (by decide), leAt_bytesAt (by decide), hlen,
    Nat.add_zero] at hright
  obtain ⟨hmagic, hreserved, hcount, htwo, hsize⟩ := hright
  rw [leAt_bytesAt (by decide), hlen]
  rw [hcount] at htwo hsize ⊢
  -- the rows of the code, against the rows of the set
  have hrows : Agrees (fun s done => s = rowsAfter (ps.map NamedSection.name) sec.bytes done)
      ((List.range (ps.map NamedSection.name).length).foldlM (visitRow elf ns offset sec build)
        { entries := [], seen := 0, selected := 0, out := none })
      (((List.range (ps.map NamedSection.name).length).mapM (rowAt elf offset)).bind fun rows =>
        rows.foldlM (collect (RowTaken (ps.map NamedSection.name) build.bytes)) []) := by
    rw [← foldlM_lookup]
    refine agrees_foldlM (fun i hi s done hs => ?_) rfl
    subst hs
    refine visitRow_agrees hnames ?_
    have hlt := List.mem_range.mp hi
    omega
  refine (hrows.accepts (Q := fun taken out =>
    ∃ row ∈ taken, row.name = sec.bytes ∧ row.target = out) ?_).congr fun out => ?_
  · rintro s taken rfl htaken
    obtain ⟨rows, hread, htaken⟩ := Option.bind_eq_some_iff.mp htaken
    obtain ⟨rfl, -, -, hprograms, hunique⟩ := rows_eq_some_iff.mp htaken
    have hperm := rows_perm (by rw [length_mapM hread, List.length_range]) hunique hprograms
    refine accepts_refuseIf (fun hbad out ⟨row, hrow, hname, _⟩ => ?_) fun hone => ?_
    · rcases hbad with hbad | hbad
      · refine hbad ?_
        simp only [rowsAfter, ← hname, filter_name hunique hrow, List.length_singleton]
      · exact hbad (mask_full hdistinct hperm)
    · rw [not_or, not_not] at hone
      obtain ⟨row, hmine⟩ := List.length_eq_one_iff.mp hone.1
      have hmem : ∀ r, r ∈ taken ∧ r.name = sec.bytes ↔ r = row := by
        intro r
        rw [← @List.mem_singleton _ r row, ← hmine, List.mem_filter, decide_eq_true_iff]
      have hout : (rowsAfter (ps.map NamedSection.name) sec.bytes taken).out = some row.target := by
        simp only [rowsAfter, hmine, List.getLast?_singleton, Option.map_some]
      refine (accepts_liftM hout).congr fun out => ?_
      constructor
      · rintro rfl
        exact ⟨row, ((hmem row).mpr rfl).1, ((hmem row).mpr rfl).2, rfl⟩
      · rintro ⟨r, hr, hname, rfl⟩
        rw [(hmem r).mp ⟨hr, hname⟩]
  · constructor
    · rintro ⟨taken, htaken, row, hrow, hname, hout⟩
      obtain ⟨rows, hread, htaken⟩ := Option.bind_eq_some_iff.mp htaken
      obtain ⟨rfl, hok, hentries, hprograms, hunique⟩ := rows_eq_some_iff.mp htaken
      have hperm := rows_perm (by rw [length_mapM hread, List.length_range]) hunique hprograms
      exact ⟨taken, ⟨hmagic, hcount, hreserved, htwo, hsize, hread, hok, hentries,
        hperm⟩, row, hrow, hname, hout⟩
    · rintro ⟨rows, h, row, hrow, hname, hout⟩
      refine ⟨rows, ?_, row, hrow, hname, hout⟩
      rw [h.read, Option.bind_some]
      exact rows_eq_some_iff.mpr ⟨rfl, h.right, h.entries,
        fun r hr => h.programs.subset (List.mem_map_of_mem hr), h.programs.nodup_iff.mpr hdistinct⟩

end Forms

/-! ## The grammar -/

/-- A target is right for a section of a build. -/
structure TargetFor (sec build : List UInt8) (out : LsTarget) : Prop where
  magic : out.magic =
    if Vm.snapshotBytes <+: sec then Control.lsTargetSnapshotMagic else lsTargetMagic
  named : sec ≠ Vm.snapshotBytes
  build : out.buildId = build
  address : out.entry ≠ 0
  kind : out.isExit = if Vm.fexitBytes <+: sec then 1 else 0
  pad : out.padOffset = 0 ∨ out.padOffset = 4
  reserved : ∀ b ∈ out.reserved, b = 0

theorem wellFormed_iff {sec build : List UInt8} {out : LsTarget} :
    out.wellFormed sec build = true ↔ TargetFor sec build out := by
  have hnamed : (Vm.snapshotBytes.isPrefixOf sec && sec.length == Vm.snapshotBytes.length) =
      false ↔ sec ≠ Vm.snapshotBytes := by
    rw [Bool.eq_false_iff, ne_eq, Bool.and_eq_true, List.isPrefixOf_iff_prefix, beq_iff_eq]
    refine not_congr ⟨fun h => (h.1.eq_of_length h.2.symm).symm, ?_⟩
    rintro rfl
    exact ⟨List.prefix_refl _, rfl⟩
  have hkind : ∀ c : Prop, [Decidable c] → (out.isExit = if c then 1 else 0) → ¬out.isExit > 1 := by
    intro c _ h
    rw [h]
    split <;> decide
  simp only [LsTarget.wellFormed, Control.isSnapshotSection, Control.isExitSection,
    Bool.and_eq_true, Bool.not_eq_true', beq_iff_eq, bne_iff_ne, Bool.or_eq_true,
    List.all_eq_true, hnamed, decide_eq_false_iff_not, List.isPrefixOf_iff_prefix]
  constructor
  · rintro ⟨⟨⟨⟨⟨⟨⟨hmagic, hnamed⟩, hbuild⟩, haddress⟩, -⟩, hkind⟩, hpad⟩, hreserved⟩
    exact ⟨hmagic, hnamed, hbuild, haddress, hkind, hpad, hreserved⟩
  · intro h
    exact ⟨⟨⟨⟨⟨⟨⟨h.magic, h.named⟩, h.build⟩, h.address⟩, hkind _ h.kind⟩, h.kind⟩, h.pad⟩,
      h.reserved⟩

/-- The object is signed for a section of a build, and the target of the section is
{lit}`out`; the object has sections {lit}`ss` and its record is in {lit}`r`. -/
structure SignedBy (elf : Buffer) (sec build : List UInt8) (out : LsTarget)
    (ss : List NamedSection) (r : NamedSection) : Prop where
  bounds : InBounds elf
  bpf : (objectHeader elf).IsBpfObject
  strtab : (namesHeader elf).type = shtStrtab
  sections : sections elf = some ss
  some : programs ss ≠ []
  scan : ScanRight elf ss
  record : records ss = [r]
  selects : Selects elf ((programs ss).map NamedSection.name) r.header.offset r.header.size sec
    build out
  right : TargetFor sec build out

/-- The grammar of signed objects, with the section and the build that are asked for. -/
def Signed (elf : Buffer) (sec build : List UInt8) (out : LsTarget) : Prop :=
  ∃ ss r, SignedBy elf sec build out ss r

section Parse

variable {elf : Buffer} {sec : CString}

/-- The record of the scan, and the checks of its target. -/
theorem recordTarget_accepts {build : Option CString} {f : Found} {ss : List NamedSection}
    (hright : ScanRight elf ss) (hf : Scanned elf f (programs ss, records ss)) :
    Accepts (recordTarget elf f sec build) fun out =>
      ∃ b, build = some b ∧ b.bytes.length = 40 ∧ programs ss ≠ [] ∧ ∃ r, records ss = [r] ∧
        Selects elf ((programs ss).map NamedSection.name) r.header.offset r.header.size sec.bytes
          b.bytes out ∧ TargetFor sec.bytes b.bytes out := by
  have hrecord := hf.record
  unfold recordTarget
  cases hrecords : records ss with
  | nil =>
      rw [hrecords] at hrecord
      rw [show f.record = none from hrecord]
      exact accepts_refuse fun out ⟨_, _, _, _, _, h, _⟩ => nomatch h
  | cons r rest =>
      have honce := hright.once
      rw [hrecords, List.length_cons] at honce
      obtain rfl : rest = [] := List.length_eq_zero_iff.mp (by omega)
      rw [hrecords] at hrecord
      rw [show f.record = some (r.header.offset, r.header.size) from hrecord]
      obtain ⟨hoff, hsize⟩ := (hright.records r (hrecords ▸ List.mem_singleton_self r)).inside
      cases build with
      | none => exact accepts_refuse fun out ⟨_, h, _⟩ => nomatch h
      | some b =>
          refine accepts_refuseIf (fun hbad out h => ?_) fun hgood => ?_
          · obtain ⟨b', hb, hlen, hsome, -⟩ := h
            obtain rfl := Option.some.inj hb
            rcases hbad with hbad | hbad
            · have hempty := hf.names.length_eq
              rw [hbad] at hempty
              exact hsome (List.length_eq_zero_iff.mp hempty.symm)
            · exact hbad hlen
          rw [not_or, not_not] at hgood
          obtain ⟨hnames, hlen⟩ := hgood
          have hsome : programs ss ≠ [] := by
            intro hempty
            have hlength := hf.names.length_eq
            rw [hempty] at hlength
            exact hnames (List.length_eq_zero_iff.mp hlength)
          -- one form or the other, by the size of the record
          have hselects : Accepts (selectRecord elf f.names r.header.offset r.header.size sec b)
              (Selects elf ((programs ss).map NamedSection.name) r.header.offset r.header.size
                sec.bytes b.bytes) := by
            unfold selectRecord
            by_cases hsingle : r.header.size = 64
            · rw [if_pos hsingle]
              refine (singleRecord_accepts hf.names (by omega)).congr fun out => ?_
              exact ⟨fun h => Or.inl ⟨hsingle, h.1, h.2⟩,
                fun h => h.elim (fun h => h.2) fun h => absurd hsingle h.1⟩
            · rw [if_neg hsingle]
              refine (setRecord_accepts hf.names hright.distinct (by omega)).congr fun out => ?_
              exact ⟨fun h => Or.inr ⟨hsingle, h⟩,
                fun h => h.elim (fun h => absurd h.1 hsingle) fun h => h.2⟩
          refine (hselects.bind (Q := fun a out => TargetFor sec.bytes b.bytes a ∧ a = out)
            fun out _ => ?_).congr fun out => ?_
          · refine accepts_refuseIf (fun hbad out' h => ?_) fun hgood => ?_
            · rw [← Bool.not_eq_true, wellFormed_iff] at hbad
              exact hbad h.1
            · rw [Bool.not_eq_false, wellFormed_iff] at hgood
              exact accepts_pure.congr fun out' => (and_iff_right hgood).symm
          · constructor
            · rintro ⟨_, hsel, htarget, rfl⟩
              exact ⟨b, rfl, hlen, hsome, r, rfl, hsel, htarget⟩
            · rintro ⟨b', hb, -, -, r', hr, hsel, htarget⟩
              obtain rfl := Option.some.inj hb
              obtain rfl := List.singleton_inj.mp hr
              exact ⟨out, hsel, htarget, rfl⟩

/-- The parser stays inside the object and accepts the grammar. -/
theorem lsTargetParse_accepts {build : Option CString} :
    Accepts (lsTargetParse elf sec build) fun out =>
      ∃ b, build = some b ∧ b.bytes.length = 40 ∧ Signed elf sec.bytes b.bytes out := by
  refine (sectionTables_accepts.bind (Q := fun _ out => ∃ ss,
    sections elf = some ss ∧ ScanRight elf ss ∧ ∃ b, build = some b ∧ b.bytes.length = 40 ∧
      programs ss ≠ [] ∧ ∃ r, records ss = [r] ∧
        Selects elf ((programs ss).map NamedSection.name) r.header.offset r.header.size sec.bytes
          b.bytes out ∧ TargetFor sec.bytes b.bytes out) fun t ht => ?_).congr fun out => ?_
  · obtain ⟨hbounds, -, -, rfl⟩ := ht
    refine ((scan_agrees hbounds).accepts (Q := fun p out => ∃ ss,
      p = (programs ss, records ss) ∧ sections elf = some ss ∧ ScanRight elf ss ∧ ∃ b,
        build = some b ∧ b.bytes.length = 40 ∧ programs ss ≠ [] ∧ ∃ r, records ss = [r] ∧
          Selects elf ((programs ss).map NamedSection.name) r.header.offset r.header.size
            sec.bytes b.bytes out ∧ TargetFor sec.bytes b.bytes out) fun f p hf hp => ?_).congr
      fun out => ?_
    · obtain ⟨ss, hss, hp⟩ := Option.bind_eq_some_iff.mp hp
      obtain ⟨rfl, hright⟩ := scan_eq_some_iff.mp hp
      refine (recordTarget_accepts hright hf).congr fun out => ?_
      constructor
      · exact fun h => ⟨ss, rfl, hss, hright, h⟩
      · rintro ⟨ss', -, hss', -, h⟩
        obtain rfl := Option.some.inj (hss.symm.trans hss')
        exact h
    · constructor
      · rintro ⟨p, -, ss, -, h⟩
        exact ⟨ss, h⟩
      · rintro ⟨ss, hss, hright, h⟩
        refine ⟨(programs ss, records ss), ?_, ss, rfl, hss, hright, h⟩
        rw [hss, Option.bind_some]
        exact scan_eq_some_iff.mpr ⟨rfl, hright⟩
  · simp only [decide_eq_true_iff]
    constructor
    · rintro ⟨t, ⟨hbounds, hbpf, hstrtab, -⟩, ss, hss, hright, b, hb, hlen, hsome, r, hr, hsel,
        htarget⟩
      exact ⟨b, hb, hlen, ss, r, hbounds, hbpf, hstrtab, hss, hsome, hright, hr, hsel, htarget⟩
    · rintro ⟨b, hb, hlen, ss, r, h⟩
      exact ⟨tablesOf elf, ⟨h.bounds, h.bpf, h.strtab, rfl⟩, ss, h.sections, h.scan, b, hb, hlen,
        h.some, r, h.record, h.selects, h.right⟩

end Parse

end Target
end LiveSurface
