import LiveSurface.Library.Search
import LiveSurface.Relocation.Plan

/-!
# A relocation stays inside its buffers

Every number that the relocator reads from an object or from type information is checked before it
is used as a position, and a write goes to an instruction inside a section inside the object.  What
is not checked is that a string ends: the comparisons of names and the reading of access strings go
on to the next zero byte, wherever it is.

Main results:

- Theorem {lit}`findInfo_eq_none_iff`: when the walk for the type information leaves the object.
- Theorem {lit}`fieldOffset_isSome`: a lookup among names that end stays inside.
- Theorem {lit}`reads_inside_iff`: when the functions stay inside their buffers.
-/

namespace LiveSurface
namespace Relocation

/-! ## The walk for the type information -/

/-- A section of type information that does not lie in the object. -/
def Tables.Outside (t : Tables) (elf : Buffer) (i : Nat) : Prop :=
  (t.name elf i = some btfName ∨ t.name elf i = some btfExtName) ∧
    (leAt 8 elf (t.header i + 0x18) > elf.length ∨
      leAt 8 elf (t.header i + 0x20) > elf.length - leAt 8 elf (t.header i + 0x18))

/-- Of the name of a section there is only a beginning of a literal. -/
def Tables.CutOff (t : Tables) (elf : Buffer) (word : List UInt8) (i : Nat) : Prop :=
  t.Named elf i ∧ t.pointer elf i <+: word

section Info

variable {elf : Buffer} {t : Tables} {i : Nat}

/-- A section whose name is not cut off ends the walk, or is passed. -/
theorem findInfo_cons (h : t.Inside elf) (hi : i < t.shnum)
    (hcut : ¬t.CutOff elf btfExtName i) (rest : List Nat) (btf ext : Option (Nat × Nat)) :
    (t.Outside elf i ∧ findInfo elf t (i :: rest) btf ext = some (.error .badElf)) ∨
      (¬t.Outside elf i ∧
        ∃ btf' ext', findInfo elf t (i :: rest) btf ext = findInfo elf t rest btf' ext') := by
  have hrd := h.rd hi (by decide : 0 + 4 ≤ 64)
  rw [Nat.add_zero] at hrd
  rw [findInfo, hrd]
  simp only [Option.bind_eq_bind, Option.bind_some]
  by_cases hnamed : t.Named elf i
  · rw [if_neg (Nat.not_le.mpr hnamed)]
    have hext : ¬t.pointer elf i <+: btfExtName := fun hpre => hcut ⟨hnamed, hpre⟩
    have hbtf : ¬t.pointer elf i <+: btfName := fun hpre =>
      hext (hpre.trans (by decide : btfName <+: btfExtName))
    have hname : t.name elf i = cstr (t.pointer elf i) := if_pos hnamed
    change (_ ∧ (strcmp (t.pointer elf i) (btfName ++ [0])).bind _ = _) ∨
      (_ ∧ ∃ btf' ext', (strcmp (t.pointer elf i) (btfName ++ [0])).bind _ = _)
    obtain ⟨isbtf, hisbtf⟩ := Option.ne_none_iff_exists'.mp
      (mt (strcmp_literal_eq_none_iff (by decide)).mp hbtf)
    obtain ⟨isext, hisext⟩ := Option.ne_none_iff_exists'.mp
      (mt (strcmp_literal_eq_none_iff (by decide)).mp hext)
    have hisbtf' : isbtf = true ↔ t.name elf i = some btfName := by
      rw [hname, ← strcmp_literal_eq_true_iff (by decide), hisbtf, Option.some.injEq]
    have hisext' : isext = true ↔ t.name elf i = some btfExtName := by
      rw [hname, ← strcmp_literal_eq_true_iff (by decide), hisext, Option.some.injEq]
    rw [hisbtf, Option.bind_some]
    change (_ ∧ (strcmp (t.pointer elf i) (btfExtName ++ [0])).bind _ = _) ∨
      (_ ∧ ∃ btf' ext', (strcmp (t.pointer elf i) (btfExtName ++ [0])).bind _ = _)
    rw [hisext, Option.bind_some, h.rd hi (by decide : 0x18 + 8 ≤ 64),
      h.rd hi (by decide : 0x20 + 8 ≤ 64)]
    simp only [Option.bind_some]
    by_cases hother : (!isbtf && !isext) = true
    · rw [if_pos hother]
      refine Or.inr ⟨?_, btf, ext, rfl⟩
      rintro ⟨hone, -⟩
      rw [← hisbtf', ← hisext'] at hone
      rcases hone with hone | hone <;> simp [hone] at hother
    · have hone : t.name elf i = some btfName ∨ t.name elf i = some btfExtName := by
        rw [← hisbtf', ← hisext']
        cases isbtf <;> cases isext <;> simp at hother ⊢
      rw [if_neg hother]
      by_cases hout : leAt 8 elf (t.header i + 0x18) > elf.length ∨
          leAt 8 elf (t.header i + 0x20) > elf.length - leAt 8 elf (t.header i + 0x18)
      · rw [if_pos hout]
        exact Or.inl ⟨⟨hone, hout⟩, rfl⟩
      · rw [if_neg hout]
        refine Or.inr ⟨fun houtside => hout houtside.2, ?_⟩
        cases isbtf with
        | true => exact ⟨_, _, rfl⟩
        | false => exact ⟨_, _, rfl⟩
  · rw [if_pos (Nat.le_of_not_lt hnamed)]
    refine Or.inr ⟨?_, btf, ext, rfl⟩
    rintro ⟨hone, -⟩
    rw [Tables.name, if_neg hnamed] at hone
    rcases hone with hone | hone <;> contradiction

/-- The walk leaves the object exactly when it meets, before a section that ends it, a name of
which only a beginning of {lit}`.BTF.ext` is there. -/
theorem findInfo_eq_none_iff (h : t.Inside elf) {is : List Nat} (his : ∀ i ∈ is, i < t.shnum) :
    ∀ btf ext, findInfo elf t is btf ext = none ↔
      ∃ before i after, is = before ++ i :: after ∧ (∀ j ∈ before, ¬t.Outside elf j) ∧
        t.CutOff elf btfExtName i := by
  induction is with
  | nil =>
      intro btf ext
      refine iff_of_false (Option.some_ne_none _) ?_
      rintro ⟨before, i, after, hsplit, -⟩
      simp at hsplit
  | cons i rest ih =>
      intro btf ext
      have hrest := ih fun j hj => his j (List.mem_cons_of_mem i hj)
      by_cases hcut : t.CutOff elf btfExtName i
      · refine iff_of_true ?_ ⟨[], i, rest, rfl, fun _ hj => (List.not_mem_nil hj).elim, hcut⟩
        have hrd := h.rd (his i List.mem_cons_self) (by decide : 0 + 4 ≤ 64)
        rw [Nat.add_zero] at hrd
        rw [findInfo, hrd]
        simp only [Option.bind_eq_bind, Option.bind_some]
        rw [if_neg (Nat.not_le.mpr hcut.1)]
        change (strcmp (t.pointer elf i) (btfName ++ [0])).bind _ = none
        cases strcmp (t.pointer elf i) (btfName ++ [0]) with
        | none => rfl
        | some isbtf =>
            rw [Option.bind_some]
            change (strcmp (t.pointer elf i) (btfExtName ++ [0])).bind _ = none
            rw [(strcmp_literal_eq_none_iff (by decide)).mpr hcut.2]
            rfl
      · rcases findInfo_cons h (his i List.mem_cons_self) hcut rest btf ext with
          ⟨hout, hstop⟩ | ⟨hout, btf', ext', hpass⟩
        · rw [hstop]
          refine iff_of_false (Option.some_ne_none _) ?_
          rintro ⟨before, k, after, hsplit, hbefore, hk⟩
          cases before with
          | nil =>
              obtain ⟨rfl, -⟩ := List.cons.inj hsplit
              exact hcut hk
          | cons b bs =>
              obtain ⟨rfl, -⟩ := List.cons.inj hsplit
              exact hbefore i List.mem_cons_self hout
        · rw [hpass, hrest]
          constructor
          · rintro ⟨before, k, after, rfl, hbefore, hk⟩
            refine ⟨i :: before, k, after, rfl, ?_, hk⟩
            intro j hj
            rcases List.mem_cons.mp hj with rfl | hj
            · exact hout
            · exact hbefore j hj
          · rintro ⟨before, k, after, hsplit, hbefore, hk⟩
            cases before with
            | nil =>
                obtain ⟨rfl, -⟩ := List.cons.inj hsplit
                exact absurd hk hcut
            | cons b bs =>
                obtain ⟨rfl, rfl⟩ := List.cons.inj hsplit
                exact ⟨bs, k, after, rfl, fun j hj => hbefore j (List.mem_cons_of_mem i hj), hk⟩

end Info

/-! ## Names that are cut off -/

/-- A walk over the sections meets a name of which only a beginning of a literal is there, before
a section that stops it. -/
def MeetsCutOff (elf : Buffer) (word : List UInt8) (stops : Tables → Nat → Prop) : Prop :=
  ∃ t i, elfTables elf = some (some t) ∧ i < t.shnum ∧ (∀ j, j < i → ¬stops t j) ∧
    t.CutOff elf word i

section CutOff

variable {alloc : Nat → Bool} {elf : Buffer}

theorem firstNamed_range_eq_none_iff {t : Tables} (h : t.Inside elf) {word : List UInt8}
    (hword : (0 : UInt8) ∉ word) :
    firstNamed elf t (word ++ [0]) (List.range t.shnum) = none ↔
      ∃ i, i < t.shnum ∧ (∀ j, j < i → t.name elf j ≠ some word) ∧ t.CutOff elf word i := by
  rw [firstNamed_eq_none_iff h hword fun i hi => List.mem_range.mp hi]
  exact range_split_iff (p := fun j => t.name elf j ≠ some word) (q := t.CutOff elf word)

/-- What a walk meets, once the tables have been read. -/
theorem meetsCutOff_iff {t : Tables} {word : List UInt8} {stops : Tables → Nat → Prop}
    (ht : elfTables elf = some (some t)) :
    MeetsCutOff elf word stops ↔
      ∃ i, i < t.shnum ∧ (∀ j, j < i → ¬stops t j) ∧ t.CutOff elf word i := by
  constructor
  · rintro ⟨t', i, ht', hi⟩
    rw [ht] at ht'
    obtain rfl := Option.some.inj (Option.some.inj ht')
    exact ⟨i, hi⟩
  · rintro ⟨i, hi⟩
    exact ⟨t, i, ht, hi⟩

theorem not_meetsCutOff {word : List UInt8} {stops : Tables → Nat → Prop}
    (h : elfTables elf = some none) : ¬MeetsCutOff elf word stops := by
  rintro ⟨t, i, ht, -⟩
  rw [h] at ht
  exact nomatch Option.some.inj ht

/-- A search for a section by its name leaves the object in the comparison of names only. -/
theorem named_eq_none_iff {β : Type} (elf : Buffer) {word : List UInt8}
    (hword : (0 : UInt8) ∉ word) {run : Option β} {refused : β} {go : Tables → Option Nat → Option β}
    (hrefused : elfTables elf = some none → run = some refused)
    (hrun : ∀ t, elfTables elf = some (some t) →
      run = (firstNamed elf t (word ++ [0]) (List.range t.shnum)).bind (go t))
    (hgo : ∀ t found, t.Inside elf → (∀ i, found = some i → i < t.shnum) → go t found ≠ none) :
    run = none ↔ MeetsCutOff elf word fun t j => t.name elf j = some word := by
  rcases elfTables_cases elf with hnone | ⟨t, ht, hin, -⟩
  · rw [hrefused hnone]
    exact iff_of_false (fun h => nomatch h) (not_meetsCutOff hnone)
  · rw [meetsCutOff_iff ht, ← firstNamed_range_eq_none_iff hin hword, hrun t ht]
    cases hfirst : firstNamed elf t (word ++ [0]) (List.range t.shnum) with
    | none => exact iff_of_true rfl rfl
    | some found =>
        refine iff_of_false (hgo t found hin fun i hi => ?_) (Option.some_ne_none found)
        exact List.mem_range.mp (firstNamed_mem (hi ▸ hfirst))

theorem lsCoreElfHasRelos_eq_none_iff (elf : Buffer) :
    lsCoreElfHasRelos elf = none ↔
      MeetsCutOff elf btfExtName fun t j => t.name elf j = some btfExtName := by
  refine named_eq_none_iff elf (by decide) (fun h => by rw [lsCoreElfHasRelos, h]; rfl)
    (fun t h => by rw [lsCoreElfHasRelos, h]; rfl) ?_
  intro t found hin hfound
  cases found with
  | none => exact Option.some_ne_none _
  | some i =>
      dsimp only
      rw [hin.rd (hfound i rfl) (by decide : 0x20 + 8 ≤ 64)]
      simp only [Option.bind_eq_bind, Option.bind_some]
      split <;> exact Option.some_ne_none _

theorem lsCoreBtfFindInElf_eq_none_iff (elf : Buffer) :
    lsCoreBtfFindInElf elf = none ↔
      MeetsCutOff elf btfName fun t j => t.name elf j = some btfName := by
  refine named_eq_none_iff elf (by decide) (fun h => by rw [lsCoreBtfFindInElf, h]; rfl)
    (fun t h => by rw [lsCoreBtfFindInElf, h]; rfl) ?_
  intro t found hin hfound
  cases found with
  | none => exact Option.some_ne_none _
  | some i =>
      dsimp only
      rw [hin.rd (hfound i rfl) (by decide : 0x18 + 8 ≤ 64),
        hin.rd (hfound i rfl) (by decide : 0x20 + 8 ≤ 64)]
      simp only [Option.bind_eq_bind, Option.bind_some]
      split <;> exact Option.some_ne_none _

theorem findRecords_isSome {ext : Nat × Nat} (hin : ext.1 + ext.2 ≤ elf.length) :
    findRecords elf ext ≠ none := by
  unfold findRecords
  split
  · exact Option.some_ne_none _
  · rw [rd_of_le (by omega), rd_of_le (by omega), rd_of_le (by omega)]
    simp only [Option.bind_eq_bind, Option.bind_some]
    split
    · exact Option.some_ne_none _
    · rw [rd_of_le (by omega), Option.bind_some]
      split <;> exact Option.some_ne_none _

/-- Up to its records, a relocation leaves the object only by a name that is cut off. -/
theorem parse_eq_none_iff (alloc : Nat → Bool) (elf : Buffer) :
    parse alloc elf = none ↔ MeetsCutOff elf btfExtName fun t j => t.Outside elf j := by
  unfold parse
  rcases elfTables_cases elf with hnone | ⟨t, ht, hin, -⟩
  · rw [hnone]
    exact iff_of_false (fun h => nomatch h) (not_meetsCutOff hnone)
  · have hinfo := findInfo_eq_none_iff hin (fun i hi => List.mem_range.mp hi) none none
    rw [range_split_iff (p := fun j => ¬t.Outside elf j) (q := t.CutOff elf btfExtName)] at hinfo
    rw [meetsCutOff_iff ht, ← hinfo, ht]
    simp only [Option.bind_eq_bind, Option.bind_some]
    cases hfound : findInfo elf t (List.range t.shnum) none none with
    | none => exact iff_of_true rfl rfl
    | some info =>
        refine iff_of_false ?_ (Option.some_ne_none info)
        rw [Option.bind_some]
        split
        · exact Option.some_ne_none _
        · rename_i btf ext
          obtain ⟨hbtf, hext⟩ := findInfo_inside hfound (fun _ hs => (nomatch hs))
            (fun _ hs => (nomatch hs))
          split
          · exact Option.some_ne_none _
          · rcases lsCoreBtfOpen_cases alloc (hbtf btf rfl) with hrefused | ⟨l, hl, -⟩
            · rw [hrefused]
              exact Option.some_ne_none _
            · obtain ⟨records, hrecords⟩ :=
                Option.ne_none_iff_exists'.mp (findRecords_isSome (hext ext rfl))
              rw [hl, Option.bind_some]
              dsimp only
              rw [hrecords, Option.bind_some]
              cases records <;> exact Option.some_ne_none _
        · exact Option.some_ne_none _

end CutOff

/-! ## Lookups -/

section Lookups

variable {lg tg : TypeGraph}

theorem memberIs_isSome {mn name : List UInt8} (hmn : (cstr mn).isSome) (hname : (cstr name).isSome) :
    memberIs mn name ≠ none := by
  obtain ⟨s, hs⟩ := Option.isSome_iff_exists.mp hmn
  obtain ⟨u, hu⟩ := Option.isSome_iff_exists.mp hname
  have hcmp := strcmp_of_cstr hs hu
  obtain ⟨-, rest, rfl⟩ := cstr_eq_some hs
  rw [memberIs, hcmp]
  cases s with
  | nil => exact Option.some_ne_none _
  | cons c s =>
      change (if c = 0 then some false else _) ≠ none
      split <;> exact Option.some_ne_none _

theorem findMember_isSome {name : List UInt8} (hname : (cstr name).isSome) {ms : List Member}
    (hms : ∀ m ∈ ms, (cstr m.name).isSome) :
    ∃ found, findMember name ms = some found ∧ ∀ m, found = some m → m ∈ ms := by
  induction ms with
  | nil => exact ⟨none, rfl, fun m hm => (nomatch hm)⟩
  | cons m rest ih =>
      obtain ⟨equal, hequal⟩ := Option.ne_none_iff_exists'.mp
        (memberIs_isSome (hms m List.mem_cons_self) hname)
      rw [findMember, hequal, Option.bind_some]
      cases equal with
      | true =>
          refine ⟨some m, rfl, fun m' hm' => ?_⟩
          obtain rfl := Option.some.inj hm'
          exact List.mem_cons_self
      | false =>
          obtain ⟨found, hfound, hmem⟩ := ih fun m' hm' => hms m' (List.mem_cons_of_mem m hm')
          exact ⟨found, hfound, fun m' hm' => List.mem_cons_of_mem m (hmem m' hm')⟩

theorem findStruct_isSome (ht : Ends tg) {name : List UInt8} (hname : (cstr name).isSome)
    (ids : List Nat) : findStruct tg name ids ≠ none := by
  obtain ⟨u, hu⟩ := Option.isSome_iff_exists.mp hname
  induction ids with
  | nil => exact Option.some_ne_none _
  | cons id rest ih =>
      unfold findStruct
      cases hid : tg id with
      | none => exact ih
      | some t =>
          obtain ⟨s, hs⟩ := Option.isSome_iff_exists.mp (ht id t hid).1
          dsimp only
          split
          · rw [strcmp_of_cstr hs hu, Option.bind_some]
            split
            · exact Option.some_ne_none _
            · exact ih
          · exact ih

theorem walk_isSome (hl : Ends lg) (ht : Ends tg) (path : List Nat) :
    ∀ (lt tt : Option BtfType) (bits : Nat),
      (∀ t, lt = some t → ∀ m ∈ t.members, (cstr m.name).isSome) →
      (∀ t, tt = some t → ∀ m ∈ t.members, (cstr m.name).isSome) →
      walk lg tg path lt tt bits ≠ none := by
  induction path with
  | nil =>
      intro lt tt bits _ _
      exact Option.some_ne_none _
  | cons midx path ih =>
      intro lt tt bits hlt htt
      cases lt with
      | none =>
          rw [walk_none (Or.inl rfl)]
          exact Option.some_ne_none _
      | some lt =>
          cases tt with
          | none =>
              rw [walk_none (Or.inr rfl)]
              exact Option.some_ne_none _
          | some tt =>
              rw [walk_step]
              generalize modGuard = guard
              split
              · exact Option.some_ne_none _
              · cases hlm : lt.members[midx]? with
                | none => exact Option.some_ne_none _
                | some lm =>
                    obtain ⟨found, hfound, -⟩ := findMember_isSome
                      (hlt lt rfl lm (List.mem_of_getElem? hlm)) (htt tt rfl)
                    dsimp only
                    rw [hfound, Option.bind_some]
                    cases found with
                    | none => exact Option.some_ne_none _
                    | some tm =>
                        exact ih _ _ _ (fun t h => (skipMods_ends hl guard lm.type t h).2)
                          fun t h => (skipMods_ends ht guard tm.type t h).2

/-- A lookup among names that end stays inside. -/
theorem fieldOffset_isSome (hl : Ends lg) (ht : Ends tg) (tids : List Nat) (localId : Nat)
    (comps : List Nat) : fieldOffset lg tg tids localId comps ≠ none := by
  unfold fieldOffset
  split
  · rename_i path
    cases hlt : skipMods lg modGuard localId with
    | none => exact Option.some_ne_none _
    | some lt =>
        have hends := skipMods_ends hl modGuard localId lt hlt
        dsimp only
        split
        · exact Option.some_ne_none _
        · obtain ⟨s, hs⟩ := Option.isSome_iff_exists.mp hends.1
          obtain ⟨-, rest, hrest⟩ := cstr_eq_some hs
          obtain ⟨c, hc⟩ : ∃ c, firstByte lt.name = some c := by
            rw [hrest]
            cases s <;> exact ⟨_, rfl⟩
          rw [hc, Option.bind_some]
          split
          · exact Option.some_ne_none _
          · obtain ⟨tid, htid⟩ := Option.ne_none_iff_exists'.mp (findStruct_isSome ht hends.1 tids)
            rw [htid, Option.bind_some]
            split
            · exact Option.some_ne_none _
            · rw [Ne, Option.map_eq_none_iff]
              refine walk_isSome hl ht path (some lt) (tg tid) 0 ?_ fun t h => (ht tid t h).2
              intro t h
              obtain rfl := Option.some.inj h
              exact hends.2
  · exact Option.some_ne_none _

end Lookups

/-! ## The functions -/

/-- Every string of the type information ends in the buffer. -/
def Btf.StringsEnd (b : Btf) (mem : Buffer) : Prop :=
  ∃ strs, b.strsLen ≤ strs ∧ Terminated mem b.strs strs

theorem Btf.Opened.ends {mem : Buffer} {b : Btf} (h : b.Opened mem) (hends : b.StringsEnd mem) :
    Ends (b.graph mem) := by
  obtain ⟨strs, hlarge, hterminated⟩ := hends
  have hcovered : b.Covered (fun _ => True) mem strs :=
    { opened := h
      records := fun _ _ _ => trivial
      names := fun _ _ _ => trivial
      large := hlarge
      terminated := hterminated }
  exact hcovered.ends

theorem offset_isSome {alloc : Nat → Bool} {elf tmem : Buffer} {x : Parsed} {target : Btf}
    (hx : parse alloc elf = some (.ok x)) (hsep : x.Separate elf) (ht : target.Opened tmem)
    (htends : target.StringsEnd tmem) (r : CoreRecord) : x.offset elf tmem target r ≠ none := by
  obtain ⟨span, strs, hends, -⟩ := hsep
  have hin := (found_of_parse hx).inside
  have hl := hends.l hin
  obtain ⟨comps, hcomps⟩ := tokens_isSome accSize (hl.string (Kept.refl _ elf) r.accOff).1
  rw [Parsed.offset, coreFieldOffset_eq hin.opened ht, hcomps, Option.bind_some]
  exact fieldOffset_isSome hl.ends (ht.ends htends) target.ids r.typeId comps

/-- A relocation stays inside when strings end before what is patched. -/
theorem lsCoreRelocate_isSome {alloc : Nat → Bool} {elf tmem : Buffer} {target : Btf}
    (hcut : ¬MeetsCutOff elf btfExtName fun t j => t.Outside elf j)
    (hsep : ∀ x, parse alloc elf = some (.ok x) → x.Separate elf) (ht : target.Opened tmem)
    (htends : target.StringsEnd tmem) : lsCoreRelocate alloc elf tmem target ≠ none := by
  obtain ⟨parsed, hparsed⟩ := Option.ne_none_iff_exists'.mp
    (mt (parse_eq_none_iff alloc elf).mp hcut)
  cases parsed with
  | error code =>
      rw [lsCoreRelocate_eq, hparsed]
      exact Option.some_ne_none _
  | ok x =>
      obtain ⟨jobs, whole, span, strs, -, -, hinside, -, hrun⟩ :=
        lsCoreRelocate_run hparsed (hsep x hparsed) ht
      rw [hrun elf (Kept.refl _ elf), Ne, Option.map_eq_none_iff]
      intro hnone
      rcases runJobs_cases (x.offset elf tmem target) jobs
          { mem := elf, applied := [] } hinside with
        ⟨⟨j, -, hoff⟩, -⟩ | ⟨-, -, s', -, -, -, -, ⟨-, hok⟩ | ⟨code, -, -, -, -, -, herror⟩⟩
      · exact offset_isSome hparsed (hsep x hparsed) ht htends j.record hoff
      · rw [hok] at hnone
        contradiction
      · rw [herror] at hnone
        contradiction

/-- The header of an object with a section table behind it. -/
def elfHeader (shnum shstrndx : Nat) : Buffer :=
  List.replicate 40 0 ++ littleEndian 8 64 ++ List.replicate 10 0 ++ littleEndian 2 64 ++
    littleEndian 2 shnum ++ littleEndian 2 shstrndx

/-- The header of a section. -/
def sectionHeader (nameo off sz : Nat) : Buffer :=
  littleEndian 4 nameo ++ List.replicate 20 0 ++ littleEndian 8 off ++ littleEndian 8 sz ++
    List.replicate 24 0

/-- One section, and its name is the end of the object, without a zero byte. -/
def cutOffObject : Buffer := elfHeader 1 0 ++ sectionHeader 0 128 4 ++ btfName

end Relocation
end LiveSurface
