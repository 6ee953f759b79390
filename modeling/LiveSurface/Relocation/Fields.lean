import LiveSurface.Relocation.Path
import LiveSurface.Relocation.Repeat

/-!
# What a relocation puts into the instructions

A relocation that succeeds has found, for each of its records, a field of the target, and has put
the offset of the field into the immediate of the instruction.  Records may name one instruction
more than once; then the last of them stays.

An access string that is no list of numbers is read as some numbers all the same, and the offset
of a field is cut to the size of the immediate.

Main results:

- Theorem {lit}`coreFieldOffset_eq_some_iff`: the offset that a lookup gives.
- Theorem {lit}`relocated_offsets`: the immediates after a relocation.
- Theorem {lit}`lsCoreRelocate_applied`: every record that is applied has been looked up.
- Theorem {lit}`represents_iff`: when a lookup refuses what it cannot represent.
-/

namespace LiveSurface
namespace Relocation

/-! ## Lookups -/

section Lookups

variable {lmem tmem : Buffer} {l t : Btf} {localId off : Nat} {access : List UInt8}

theorem zero_not_mem_ids (b : Btf) : 0 ∉ b.ids := by
  unfold Btf.ids
  cases b.nids with
  | zero => exact List.not_mem_nil
  | succ n =>
      rw [List.range_succ_eq_map, List.tail_cons]
      simp

/-- The offset that a lookup gives is that of the field which the numbers select that are read from
the access string. -/
theorem coreFieldOffset_eq_some_iff (hl : l.Opened lmem) (ht : t.Opened tmem) :
    coreFieldOffset lmem l localId access tmem t = some (some off) ↔
      ∃ comps bits, tokens accSize access = some comps ∧
        Field (l.graph lmem) (t.graph tmem) t.ids localId comps bits ∧ bits % 8 = 0 ∧
        off = bits / 8 := by
  rw [coreFieldOffset_eq hl ht, Option.bind_eq_some_iff]
  constructor
  · rintro ⟨comps, hcomps, h⟩
    obtain ⟨bits, hfield⟩ := (fieldOffset_eq_some_iff (zero_not_mem_ids t)).mp h
    exact ⟨comps, bits, hcomps, hfield⟩
  · rintro ⟨comps, bits, hcomps, hfield⟩
    exact ⟨comps, hcomps, (fieldOffset_eq_some_iff (zero_not_mem_ids t)).mpr ⟨bits, hfield⟩⟩

end Lookups

/-! ## Immediates -/

section Immediates

variable {alloc : Nat → Bool} {elf tmem : Buffer} {x : Parsed} {target : Btf}

theorem Job.immediate_of_covers {offset : CoreRecord → Option (Option Nat)} {j : Job} {w : Patch}
    (h : j.patch offset = some w) {i : Nat} : w.Covers i ↔ j.Immediate i := by
  obtain ⟨sec, off, hsec, -, -, hle, rfl⟩ := Job.patch_eq_some h
  unfold Patch.Covers Job.Immediate
  simp only [length_littleEndian]
  constructor
  · rintro ⟨hlo, hhi⟩
    exact ⟨sec, hsec, hle, hlo, by omega⟩
  · rintro ⟨sec', hsec', -, hlo, hhi⟩
    rw [hsec] at hsec'
    obtain rfl := Option.some.inj hsec'
    exact ⟨hlo, by omega⟩

/-- A relocation of an object with strings that end gives an answer.  When it succeeds, every
record is for a field of the target that the access string selects by names, in whole bytes, and
its instruction is in its section; where no later record is for the same bytes, the immediate of
the instruction is the offset of the field. -/
theorem relocated_offsets {alloc' : Nat → Bool} {jobs : List Job} {whole : Bool}
    (hx : parse alloc elf = some (.ok x)) (hsep : x.Separate elf)
    (htarget : lsCoreBtfOpen alloc' tmem 0 tmem.length = some (some target))
    (htends : target.StringsEnd tmem) (hplan : x.plan elf = some (jobs, whole))
    (haccess : ∀ j ∈ jobs, ∃ comps, AccessList (btfStr elf x.l j.record.accOff) comps ∧
      comps.length ≤ accSize) :
    ∃ f, lsCoreRelocate alloc elf tmem target = some f ∧
      (f.code = .ok → whole = true ∧ ∀ before j after, jobs = before ++ j :: after →
        ∃ sec comps bits, j.sec = some sec ∧ j.record.kind = 0 ∧
          j.record.insnOff + 8 ≤ sec.2 ∧ AccessList (btfStr elf x.l j.record.accOff) comps ∧
          Field (x.l.graph elf) (target.graph tmem) target.ids j.record.typeId comps bits ∧
          bits % 8 = 0 ∧
          ((∀ j' ∈ after, ∀ i, j.Immediate i → ¬j'.Immediate i) →
            (f.mem.drop (sec.1 + j.record.insnOff + 4)).take 4 = littleEndian 4 (bits / 8))) := by
  have ht : target.Opened tmem := opened_of_open (by omega) htarget
  have hin := (found_of_parse hx).inside
  have hsome : lsCoreRelocate alloc elf tmem target ≠ none := by
    apply lsCoreRelocate_isSome _ _ ht htends
    · rw [← parse_eq_none_iff alloc, hx]
      exact Option.some_ne_none _
    · intro x' hx'
      rw [hx] at hx'
      obtain rfl := Except.ok.inj (Option.some.inj hx')
      exact hsep
  obtain ⟨f, hf⟩ := Option.ne_none_iff_exists'.mp hsome
  refine ⟨f, hf, ?_⟩
  intro hok
  obtain ⟨jobs', whole', done, rest, span, strs, hplan', hsplit, -, hinside, -, hdone, hmem, -,
    hcode, -⟩ := lsCoreRelocate_cases hx hsep ht hf
  rw [hplan] at hplan'
  obtain ⟨rfl, rfl⟩ := Prod.mk.inj (Option.some.inj hplan')
  obtain ⟨rfl, hwhole⟩ := hcode.mp hok
  rw [List.append_nil] at hsplit
  subst hsplit
  refine ⟨hwhole, ?_⟩
  rintro before j after rfl
  have hj : j ∈ before ++ j :: after := List.mem_append_right before List.mem_cons_self
  obtain ⟨w, hpatch⟩ := Option.ne_none_iff_exists'.mp (hdone j hj)
  obtain ⟨sec, off, hsec, hoff, hkind, hle, rfl⟩ := Job.patch_eq_some hpatch
  obtain ⟨comps, hcomps, hfew⟩ := haccess j hj
  obtain ⟨comps', bits, htokens, hfield, hbytes, rfl⟩ :=
    (coreFieldOffset_eq_some_iff hin.opened ht).mp hoff
  rw [hcomps.tokens accSize, List.take_of_length_le hfew] at htokens
  obtain rfl := Option.some.inj htokens
  refine ⟨sec, comps, bits, hsec, hkind, hle, hcomps, hfield, hbytes, ?_⟩
  intro hlater
  -- the patch of the job is the last one of its bytes
  have hpatches : patches (x.offset elf tmem target) (before ++ j :: after) =
      patches (x.offset elf tmem target) before ++
        (sec.1 + j.record.insnOff + 4, littleEndian 4 (bits / 8)) ::
          patches (x.offset elf tmem target) after := by
    rw [patches, List.filterMap_append, List.filterMap_cons_some hpatch]
    rfl
  have hfits := fits_patches (x.offset elf tmem target) hinside
  rw [hpatches] at hfits
  have hwindow := patchAll_window (m := elf) hfits fun w' hw' i hcovers hcovers' => by
    obtain ⟨j', hj', hpatch'⟩ := List.mem_filterMap.mp hw'
    exact hlater j' hj' i ((Job.immediate_of_covers hpatch).mp hcovers)
      ((Job.immediate_of_covers hpatch').mp hcovers')
  rw [length_littleEndian] at hwindow
  rw [hmem, hpatches]
  exact hwindow

end Immediates

/-! ## What a lookup gives -/

/-- The access string is a list of numbers, they have all been applied, and the offset fits into
the immediate. -/
structure Represented (access : List UInt8) (comps : List Nat) (off : Nat) : Prop where
  list : AccessList access comps
  applied : tokens accSize access = some comps
  fits : off < 2 ^ 31

/-- Where the numbers that are read from an access string select a field in whole bytes, the
string is the list of these numbers, and the offset of the field fits. -/
def Representable (lg tg : TypeGraph) (tids : List Nat) (localId : Nat) (access : List UInt8) :
    Prop :=
  ∀ comps bits, tokens accSize access = some comps → Field lg tg tids localId comps bits →
    bits % 8 = 0 → AccessList access comps ∧ bits / 8 < 2 ^ 31

/-! ## Two records for one instruction -/

theorem numeral_of_decide {w : List UInt8} (h : w ≠ [] ∧ (∀ c ∈ w, IsDigit c) ∧ decimal w < 2 ^ 32) :
    Numeral w := ⟨h.1, h.2.1, h.2.2⟩

theorem pairJobs_access : ∀ j ∈ pairJobs, ∃ comps,
    AccessList (btfStr pairObject pairParsed.l j.record.accOff) comps ∧ comps.length ≤ accSize := by
  intro j hj
  rcases List.mem_cons.mp hj with rfl | hj
  · refine ⟨[0, 0], ⟨[48, 58, 48], by decide +kernel, ?_⟩, by decide⟩
    exact .more (w := [48]) (numeral_of_decide (by decide)) (.last (numeral_of_decide (by decide)))
  · rw [List.mem_singleton.mp hj]
    refine ⟨[0, 1], ⟨[48, 58, 49], by decide +kernel, ?_⟩, by decide⟩
    exact .more (w := [48]) (numeral_of_decide (by decide)) (.last (numeral_of_decide (by decide)))

theorem relocated_offsets_pair :
    ∃ f comps bits,
      lsCoreRelocate (fun _ => true) pairObject sampleTarget sampleBtf = some f ∧
      Field (pairParsed.l.graph pairObject) (sampleBtf.graph sampleTarget) sampleBtf.ids 1 comps
        bits ∧
      (f.mem.drop 494).take 4 = littleEndian 4 (bits / 8) := by
  obtain ⟨f, hf, hrelocated⟩ := relocated_offsets pairObject_parsed pairParsed_separate
    sampleTarget_opened ⟨7, Nat.le_refl 7, by decide +kernel⟩ pairObject_plan pairJobs_access
  have hok : f.code = .ok := by
    have hcode : (lsCoreRelocate (fun _ => true) pairObject sampleTarget sampleBtf).map
        Finished.code = some .ok := by decide +kernel
    rw [hf] at hcode
    exact Option.some.inj hcode
  obtain ⟨-, hjobs⟩ := hrelocated hok
  obtain ⟨sec, comps, bits, hsec, -, -, -, hfield, -, himm⟩ := hjobs [] _ _ rfl
  obtain rfl := Option.some.inj hsec
  refine ⟨f, comps, bits, hf, hfield, himm ?_⟩
  rintro j' hj' i ⟨sec, hsec, -, -, hhi⟩ ⟨sec', hsec', -, hlo', -⟩
  rw [List.mem_singleton.mp hj'] at hsec' hlo'
  obtain rfl := Option.some.inj hsec
  obtain rfl := Option.some.inj hsec'
  dsimp only at hhi hlo'
  omega

/-- One instruction, with two records. -/
def twiceObject : Buffer :=
  sampleObject [99, 0] (sampleStrings [99])
    [{ insnOff := 0, typeId := 1, accOff := 7, kind := 0 },
      { insnOff := 0, typeId := 1, accOff := 11, kind := 0 }] (List.replicate 8 1)

/-- The relocation succeeds.  The first record is for the field {lit}`a`, which is at 8, and the
immediate of its instruction is 0. -/
theorem twiceObject_relocated :
    parse (fun _ => true) twiceObject = some (.ok pairParsed) ∧ pairParsed.Separate twiceObject ∧
      pairParsed.plan twiceObject = some
        ([{ sec := some (490, 8),
            record := { insnOff := 0, typeId := 1, accOff := 7, kind := 0 } },
          { sec := some (490, 8),
            record := { insnOff := 0, typeId := 1, accOff := 11, kind := 0 } }], true) ∧
      Field (pairParsed.l.graph twiceObject) (sampleBtf.graph sampleTarget) sampleBtf.ids 1 [0, 0]
        64 ∧
      (lsCoreRelocate (fun _ => true) twiceObject sampleTarget sampleBtf).map (fun f =>
        (f.code, (f.mem.drop 494).take 4)) = some (.ok, littleEndian 4 0) := by
  have hparsed : parse (fun _ => true) twiceObject = some (.ok pairParsed) := by decide +kernel
  have hplan : pairParsed.plan twiceObject = some
      ([{ sec := some (490, 8), record := { insnOff := 0, typeId := 1, accOff := 7, kind := 0 } },
        { sec := some (490, 8), record := { insnOff := 0, typeId := 1, accOff := 11, kind := 0 } }],
        true) := by decide +kernel
  have hin := (found_of_parse hparsed).inside
  refine ⟨hparsed, ?_, hplan, ?_, by decide +kernel⟩
  · refine ⟨17, 17, ⟨by decide, by decide +kernel, by decide, by decide +kernel⟩, ?_⟩
    intro jobs whole hplan' j hj
    rw [hplan] at hplan'
    obtain ⟨rfl, rfl⟩ := Prod.mk.inj (Option.some.inj hplan')
    have hsec : j.sec = some (490, 8) := by
      rcases List.mem_cons.mp hj with rfl | hj
      · rfl
      · rw [List.mem_singleton.mp hj]
    intro sec hsec' i hlo hhi hreads
    rw [hsec] at hsec'
    obtain rfl := Option.some.inj hsec'
    simp only [Parsed.Reads, pairParsed] at hreads
    omega
  · have hlookup : coreFieldOffset twiceObject pairParsed.l 1 (btfStr twiceObject pairParsed.l 7)
        sampleTarget sampleBtf = some (some 8) := by decide +kernel
    obtain ⟨comps, bits, htokens, hfield, hmod, hbits⟩ := (coreFieldOffset_eq_some_iff
      hin.opened (opened_of_open (by omega) sampleTarget_opened)).mp hlookup
    have hcomps : tokens accSize (btfStr twiceObject pairParsed.l 7) = some [0, 0] := by
      decide +kernel
    rw [hcomps] at htokens
    obtain rfl := Option.some.inj htokens
    obtain rfl : bits = 64 := by omega
    exact hfield

/-! ## What cannot be represented -/

/-- A lookup refuses what it cannot represent exactly where it is representable what it gives. -/
theorem represents_iff {lmem tmem : Buffer} {l t : Btf} {localId : Nat} {access : List UInt8}
    (hl : l.Opened lmem) (ht : t.Opened tmem) :
    (∀ off, coreFieldOffset lmem l localId access tmem t = some (some off) →
        ∃ comps, Represented access comps off) ↔
      Representable (l.graph lmem) (t.graph tmem) t.ids localId access := by
  constructor
  · intro h comps bits hcomps hfield hmod
    obtain ⟨comps', hlist, happlied, hfits⟩ := h (bits / 8)
      ((coreFieldOffset_eq_some_iff hl ht).mpr ⟨comps, bits, hcomps, hfield, hmod, rfl⟩)
    rw [hcomps] at happlied
    obtain rfl := Option.some.inj happlied
    exact ⟨hlist, hfits⟩
  · intro h off hoff
    obtain ⟨comps, bits, hcomps, hfield, hmod, rfl⟩ := (coreFieldOffset_eq_some_iff hl ht).mp hoff
    obtain ⟨hlist, hfits⟩ := h comps bits hcomps hfield hmod
    exact ⟨comps, hlist, hcomps, hfits⟩

/-- The offset of a record is what the lookup has given in the object at that time. -/
def Applied.LookedUp (a : Applied) (l : Btf) (tmem : Buffer) (target : Btf) : Prop :=
  coreFieldOffset a.mem l a.record.typeId (btfStr a.mem l a.record.accOff) tmem target =
    some (some a.off)

section Applied

variable {c : Context} {sec : Option (Nat × Nat)}

/-- One record. -/
theorem relocateRecord_applied {r : CoreRecord} {s s' : Progress}
    (h : relocateRecord c sec r s = some (.ok s'))
    (hs : ∀ a ∈ s.applied, a.LookedUp c.l c.tmem c.target) :
    ∀ a ∈ s'.applied, a.LookedUp c.l c.tmem c.target := by
  unfold relocateRecord at h
  split at h
  · exact nomatch Option.some.inj h
  · obtain ⟨found, hfound, h⟩ := Option.bind_eq_some_iff.mp h
    cases found with
    | none => exact nomatch Option.some.inj h
    | some off =>
        cases sec with
        | none => exact nomatch Option.some.inj h
        | some sec =>
            obtain ⟨patched, -, h⟩ := Option.bind_eq_some_iff.mp h
            cases patched with
            | none => exact nomatch Option.some.inj h
            | some mem =>
                obtain rfl := Except.ok.inj (Option.some.inj h)
                intro a ha
                rcases List.mem_cons.mp ha with rfl | ha
                · exact hfound
                · exact hs a ha

/-- What the loops leave, whether they end well or not. -/
def Outcome (Q : Progress → Prop) {α : Type} (progress : α → Progress) :
    Except (Relo × Progress) α → Prop
  | .error (_, s) => Q s
  | .ok a => Q (progress a)

theorem relocateRecords_applied (num : Nat) :
    ∀ (p : Nat) (s : Progress) {result : Except (Relo × Progress) (Nat × Progress)},
      relocateRecords c sec num p s = some result →
      (∀ a ∈ s.applied, a.LookedUp c.l c.tmem c.target) →
      Outcome (fun s => ∀ a ∈ s.applied, a.LookedUp c.l c.tmem c.target) Prod.snd result := by
  induction num with
  | zero =>
      intro p s result h hs
      obtain rfl := Option.some.inj h
      exact hs
  | succ num ih =>
      intro p s result h hs
      rw [relocateRecords] at h
      split at h
      · obtain rfl := Option.some.inj h
        exact hs
      · obtain ⟨r, -, h⟩ := Option.bind_eq_some_iff.mp h
        obtain ⟨step, hstep, h⟩ := Option.bind_eq_some_iff.mp h
        cases step with
        | error code =>
            obtain rfl := Option.some.inj h
            exact hs
        | ok s' => exact ih _ s' h (relocateRecord_applied hstep hs)

theorem relocateGroups_applied (fuel : Nat) :
    ∀ (p : Nat) (s : Progress) {result : Except (Relo × Progress) Progress},
      relocateGroups c fuel p s = some result →
      (∀ a ∈ s.applied, a.LookedUp c.l c.tmem c.target) →
      Outcome (fun s => ∀ a ∈ s.applied, a.LookedUp c.l c.tmem c.target) id result := by
  induction fuel with
  | zero =>
      intro p s result h
      contradiction
  | succ fuel ih =>
      intro p s result h hs
      rw [relocateGroups] at h
      split at h
      · obtain rfl := Option.some.inj h
        exact hs
      · obtain ⟨nameOff, -, h⟩ := Option.bind_eq_some_iff.mp h
        obtain ⟨num, -, h⟩ := Option.bind_eq_some_iff.mp h
        obtain ⟨sec, -, h⟩ := Option.bind_eq_some_iff.mp h
        obtain ⟨records, hrecords, h⟩ := Option.bind_eq_some_iff.mp h
        have hout := relocateRecords_applied num (p + 8) s hrecords hs
        cases records with
        | error e =>
            obtain rfl := Option.some.inj h
            exact hout
        | ok next => exact ih next.1 next.2 h hout

end Applied

/-- Every record that is applied has been looked up in the object as it was then. -/
theorem lsCoreRelocate_applied {alloc : Nat → Bool} {elf tmem : Buffer} {x : Parsed} {target : Btf}
    {f : Finished} (hx : parse alloc elf = some (.ok x))
    (hf : lsCoreRelocate alloc elf tmem target = some f) :
    ∀ a ∈ f.applied, a.LookedUp x.l tmem target := by
  rw [lsCoreRelocate_eq, hx, Option.bind_some, relocateParsed, relocateAll] at hf
  obtain ⟨result, hresult, hf⟩ := Option.bind_eq_some_iff.mp hf
  have hout := relocateGroups_applied _ _ _ hresult fun _ ha => (List.not_mem_nil ha).elim
  cases result with
  | error e =>
      obtain rfl := Option.some.inj hf
      exact hout
  | ok s =>
      obtain rfl := Option.some.inj hf
      exact hout

/-- One instruction, with a record for the access string {lit}`:0`. -/
def emptyComponentObject : Buffer :=
  sampleObject [99, 0] (sampleStrings [99])
    [{ insnOff := 0, typeId := 1, accOff := 8, kind := 0 }] (List.replicate 8 1)

end Relocation
end LiveSurface
