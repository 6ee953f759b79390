import LiveSurface.Relocation.Relocate
import LiveSurface.Relocation.Access
import Mathlib.Data.List.Find

/-!
# What a relocation reads

Apart from the immediates that it patches, a relocation reads the header of the object, its
section table, the section-name table and the two sections of type information.  Where every name
ends in what is kept, objects that agree on these parts are read alike.

Names are compared up to their zero byte, so that what follows it does not matter: every name can
be cut after it.

Main results:

- Theorem {lit}`fieldOffset_cut`: cutting the names of the program changes no lookup.
- Theorems {lit}`elfTables_kept`, {lit}`findInfo_kept`, {lit}`lsCoreBtfOpen_kept` and
  {lit}`findRecords_kept`: objects that agree have the same tables, types and records.
- Theorem {lit}`findCode_kept` and theorem {lit}`coreFieldOffset_kept`: their lookups agree.
-/

namespace LiveSurface
namespace Relocation

/-! ## Names up to their end -/

/-- A pointer to a string, cut after its zero byte. -/
def cut (p : List UInt8) : List UInt8 :=
  match cstr p with
  | none => p
  | some s => s ++ [0]

def Member.cut (m : Member) : Member := { m with name := Relocation.cut m.name }

def BtfType.cut (t : BtfType) : BtfType :=
  { t with name := Relocation.cut t.name, members := t.members.map Member.cut }

def cutGraph (g : TypeGraph) : TypeGraph := fun id => (g id).map BtfType.cut

/-- Every name of the graph ends. -/
def Ends (g : TypeGraph) : Prop :=
  ∀ id t, g id = some t → (cstr t.name).isSome ∧ ∀ m ∈ t.members, (cstr m.name).isSome

section Cut

variable {p q : List UInt8}

theorem cut_of_cstr {s : List UInt8} (h : cstr p = some s) : cut p = s ++ [0] := by
  rw [cut, h]

theorem cstr_cut (h : (cstr p).isSome) : cstr (cut p) = cstr p := by
  obtain ⟨s, hs⟩ := Option.isSome_iff_exists.mp h
  rw [cut_of_cstr hs, hs]
  exact cstr_append (cstr_eq_some hs).1

theorem firstByte_congr {p' : List UInt8} (hp : (cstr p).isSome) (hp' : cstr p' = cstr p) :
    firstByte p' = firstByte p := by
  obtain ⟨s, hs⟩ := Option.isSome_iff_exists.mp hp
  obtain ⟨_, rest, rfl⟩ := cstr_eq_some hs
  obtain ⟨_, rest', rfl⟩ := cstr_eq_some (hp'.trans hs)
  cases s with
  | nil => rfl
  | cons c s => rfl

variable {lg tg : TypeGraph}

theorem skipMods_cut (g : TypeGraph) (guard : Nat) :
    ∀ id, skipMods (cutGraph g) guard id = (skipMods g guard id).map BtfType.cut := by
  induction guard with
  | zero =>
      intro id
      rfl
  | succ guard ih =>
      intro id
      unfold skipMods cutGraph
      cases g id with
      | none => rfl
      | some t =>
          simp only [Option.map_some]
          by_cases hmod : IsMod (kindOf t.info)
          · rw [if_pos (show IsMod (kindOf t.cut.info) from hmod), if_pos hmod]
            exact ih t.ref
          · rw [if_neg (show ¬IsMod (kindOf t.cut.info) from hmod), if_neg hmod]
            rfl

theorem skipMods_ends {g : TypeGraph} (h : Ends g) (guard : Nat) :
    ∀ id t, skipMods g guard id = some t →
      (cstr t.name).isSome ∧ ∀ m ∈ t.members, (cstr m.name).isSome := by
  induction guard with
  | zero =>
      intro id t ht
      exact h id t ht
  | succ guard ih =>
      intro id t ht
      unfold skipMods at ht
      cases hid : g id with
      | none =>
          rw [hid] at ht
          contradiction
      | some t' =>
          rw [hid] at ht
          dsimp only at ht
          split at ht
          · exact ih t'.ref t ht
          · obtain rfl := Option.some.inj ht
            exact h id t' hid

theorem findMember_cut {name : List UInt8} (hname : (cstr name).isSome) (ms : List Member) :
    findMember (cut name) ms = findMember name ms := by
  induction ms with
  | nil => rfl
  | cons m rest ih =>
      rw [findMember, findMember, memberIs, memberIs, strcmp_congr_right hname (cstr_cut hname), ih]

theorem findStruct_cut {name : List UInt8} (hname : (cstr name).isSome) (ids : List Nat) :
    findStruct tg (cut name) ids = findStruct tg name ids := by
  induction ids with
  | nil => rfl
  | cons id rest ih =>
      unfold findStruct
      cases tg id with
      | none => exact ih
      | some t =>
          dsimp only
          rw [strcmp_congr_right hname (cstr_cut hname), ih]

theorem walk_cut (hl : Ends lg) (path : List Nat) :
    ∀ (lt tt : Option BtfType) (bits : Nat),
      (∀ t, lt = some t → (cstr t.name).isSome ∧ ∀ m ∈ t.members, (cstr m.name).isSome) →
      walk (cutGraph lg) tg path (lt.map BtfType.cut) tt bits = walk lg tg path lt tt bits := by
  induction path with
  | nil =>
      intro lt tt bits _
      rfl
  | cons midx path ih =>
      intro lt tt bits hlt
      cases lt with
      | none => rw [Option.map_none, walk_none (Or.inl rfl), walk_none (Or.inl rfl)]
      | some lt =>
          cases tt with
          | none => rw [walk_none (Or.inr rfl), walk_none (Or.inr rfl)]
          | some tt =>
              rw [Option.map_some, walk_step, walk_step]
              -- how many qualifiers are skipped does not matter
              generalize modGuard = guard
              by_cases hkinds : ¬IsComposite (kindOf lt.info) ∨ ¬IsComposite (kindOf tt.info)
              · rw [if_pos hkinds, if_pos (show ¬IsComposite (kindOf lt.cut.info) ∨
                  ¬IsComposite (kindOf tt.info) from hkinds)]
              · rw [if_neg hkinds, if_neg (show ¬(¬IsComposite (kindOf lt.cut.info) ∨
                  ¬IsComposite (kindOf tt.info)) from hkinds)]
                have hmember : lt.cut.members[midx]? = lt.members[midx]?.map Member.cut :=
                  List.getElem?_map
                rw [hmember]
                cases hlm : lt.members[midx]? with
                | none => rw [Option.map_none]
                | some lm =>
                    have hname := (hlt lt rfl).2 lm (List.mem_of_getElem? hlm)
                    have hfound : findMember lm.cut.name tt.members =
                        findMember lm.name tt.members := findMember_cut hname tt.members
                    rw [Option.map_some]
                    dsimp only
                    rw [hfound]
                    cases findMember lm.name tt.members with
                    | none => rw [Option.bind_none, Option.bind_none]
                    | some found =>
                        cases found with
                        | none => rw [Option.bind_some, Option.bind_some]
                        | some tm =>
                            rw [Option.bind_some, Option.bind_some]
                            dsimp only
                            rw [skipMods_cut]
                            exact ih _ _ _ fun t h => skipMods_ends hl guard lm.type t h

/-- Cutting the names of the program changes no lookup. -/
theorem fieldOffset_cut (hl : Ends lg) (tids : List Nat) (localId : Nat) (comps : List Nat) :
    fieldOffset (cutGraph lg) tg tids localId comps = fieldOffset lg tg tids localId comps := by
  unfold fieldOffset
  split
  · rename_i path
    rw [skipMods_cut]
    cases hlt : skipMods lg modGuard localId with
    | none => rfl
    | some lt =>
        have hends := skipMods_ends hl modGuard localId lt hlt
        simp only [Option.map_some]
        by_cases hkind : ¬IsComposite (kindOf lt.info)
        · rw [if_pos hkind, if_pos (show ¬IsComposite (kindOf lt.cut.info) from hkind)]
        · rw [if_neg hkind, if_neg (show ¬¬IsComposite (kindOf lt.cut.info) from hkind),
            show firstByte lt.cut.name = firstByte lt.name from
              firstByte_congr hends.1 (cstr_cut hends.1),
            show findStruct tg lt.cut.name tids = findStruct tg lt.name tids from
              findStruct_cut hends.1 tids]
          have hwalk : ∀ tid, walk (cutGraph lg) tg path (some lt.cut) (tg tid) 0 =
              walk lg tg path (some lt) (tg tid) 0 := fun tid =>
            walk_cut hl path (some lt) (tg tid) 0 fun t h => by
              obtain rfl := Option.some.inj h
              exact hends
          simp only [hwalk]
  · rfl

end Cut

/-! ## Objects that agree -/

section Kept

variable {P : Nat → Prop} {m m' : Buffer}

/-- The positions from one on, so many of them. -/
def Within (P : Nat → Prop) (pos len : Nat) : Prop := ∀ i, pos ≤ i → i < pos + len → P i

theorem Within.sub {pos len pos' len' : Nat} (h : Within P pos len) (hlo : pos ≤ pos')
    (hhi : pos' + len' ≤ pos + len) : Within P pos' len' := fun i hi hi' =>
  h i (Nat.le_trans hlo hi) (by omega)

theorem elfTables_kept (h : Kept P m m') (hhead : Within P 0 64)
    (htable : Within P (leAt 8 m 0x28) (leAt 2 m 0x3c * leAt 2 m 0x3a)) :
    elfTables m' = elfTables m := by
  unfold elfTables
  rw [h.length]
  by_cases hlen : m.length < 64
  · rw [if_pos hlen, if_pos hlen]
  · rw [if_neg hlen, if_neg hlen, h.rd (hhead.sub (by omega) (by omega)),
      h.rd (hhead.sub (by omega) (by omega)), h.rd (hhead.sub (by omega) (by omega)),
      h.rd (hhead.sub (by omega) (by omega)), rd_of_le (by omega), rd_of_le (by omega),
      rd_of_le (by omega), rd_of_le (by omega)]
    simp only [Option.bind_eq_bind, Option.bind_some]
    split
    · rfl
    · rename_i hshape
      simp only [not_or, Nat.not_lt, Nat.not_le] at hshape
      obtain ⟨hent, -, hndx⟩ := hshape
      split
      · rfl
      · have hentry : (leAt 2 m 0x3e + 1) * leAt 2 m 0x3a ≤
            leAt 2 m 0x3c * leAt 2 m 0x3a := Nat.mul_le_mul_right _ hndx
        rw [Nat.succ_mul] at hentry
        rw [h.rd (htable.sub (by omega) (by omega)), h.rd (htable.sub (by omega) (by omega))]

section Names

variable {t : Tables} {span : Nat}

/-- What the sections are called is covered, and every name ends in what is. -/
structure Tables.Covered (t : Tables) (P : Nat → Prop) (m : Buffer) (span : Nat) : Prop where
  inside : t.Inside m
  headers : Within P t.shoff (t.shnum * t.shentsize)
  names : Within P t.strOff span
  large : t.strSize ≤ span
  terminated : Terminated m t.strOff span

theorem Tables.Covered.header (ht : t.Covered P m span) (h : Kept P m m') {i n off : Nat}
    (hi : i < t.shnum) (hoff : off + n ≤ 64) :
    leAt n m' (t.header i + off) = leAt n m (t.header i + off) := by
  have hheader := ht.inside.header hi
  apply h.leAt
  apply ht.headers.sub
  · unfold Tables.header
    omega
  · omega

theorem Tables.Inside.kept (ht : t.Inside m) (h : Kept P m m') : t.Inside m' where
  length := by rw [h.length]; exact ht.length
  entsize := ht.entsize
  num := ht.num
  headers := by rw [h.length]; exact ht.headers
  names := by rw [h.length]; exact ht.names

theorem Tables.Covered.named (ht : t.Covered P m span) (h : Kept P m m') {i : Nat}
    (hi : i < t.shnum) : leAt 4 m' (t.header i) = leAt 4 m (t.header i) :=
  ht.header h hi (by decide : 0 + 4 ≤ 64)

/-- A name ends, and is the same in both. -/
theorem Tables.Covered.pointer (ht : t.Covered P m span) (h : Kept P m m') {i : Nat}
    (hi : i < t.shnum) (hnamed : t.Named m i) :
    (cstr (t.pointer m i)).isSome ∧ cstr (t.pointer m' i) = cstr (t.pointer m i) := by
  have hlarge := ht.large
  unfold Tables.Named at hnamed
  obtain ⟨s, hs, hlen⟩ := ht.terminated.cstr (Nat.lt_of_lt_of_le hnamed hlarge)
  have hsame : cstr (m'.drop (t.strOff + leAt 4 m (t.header i))) = some s :=
    h.cstr hs fun j hj hj' => ht.names j (by omega) (by omega)
  unfold Tables.pointer
  rw [ht.named h hi, hsame, hs]
  exact ⟨rfl, rfl⟩

theorem Tables.Covered.name (ht : t.Covered P m span) (h : Kept P m m') {i : Nat}
    (hi : i < t.shnum) : t.name m' i = t.name m i := by
  unfold Tables.name
  by_cases hnamed : t.Named m i
  · rw [if_pos hnamed, if_pos (by unfold Tables.Named; rw [ht.named h hi]; exact hnamed),
      (ht.pointer h hi hnamed).2]
  · rw [if_neg hnamed, if_neg (by unfold Tables.Named; rw [ht.named h hi]; exact hnamed)]

theorem Tables.Covered.kept (ht : t.Covered P m span) (h : Kept P m m') :
    t.Covered P m' span where
  inside := ht.inside.kept h
  headers := ht.headers
  names := ht.names
  large := ht.large
  terminated := by
    rcases ht.terminated with hzero | hlast
    · exact Or.inl hzero
    · by_cases hzero : span = 0
      · exact Or.inl hzero
      · refine Or.inr ?_
        rw [h.bytes _ (ht.names _ (by omega) (by omega)), hlast]

/-- A search for a name that ends finds the first section of the name. -/
theorem Tables.Covered.firstNamed (ht : t.Covered P m span) {word w : List UInt8}
    (hword : cstr word = some w) :
    Relocation.firstNamed m t word (List.range t.shnum) =
      some ((List.range t.shnum).find? fun i => decide (t.name m i = some w)) := by
  apply firstNamed_of_terminated ht.inside hword
  · intro i hi
    exact List.mem_range.mp hi
  · intro i hi hnamed
    exact (ht.pointer (Kept.refl P m) (List.mem_range.mp hi) hnamed).1

theorem findCode_kept (ht : t.Covered P m span) (h : Kept P m m') {word word' : List UInt8}
    (hword : (cstr word).isSome) (hword' : cstr word' = cstr word) :
    findCode m' t word' = findCode m t word := by
  obtain ⟨w, hw⟩ := Option.isSome_iff_exists.mp hword
  have hsame : (List.range t.shnum).find? (fun i => decide (t.name m' i = some w)) =
      (List.range t.shnum).find? fun i => decide (t.name m i = some w) := by
    apply List.find?_congr
    intro i hi
    rw [ht.name h (List.mem_range.mp hi)]
  unfold findCode
  rw [(ht.kept h).firstNamed (hword'.trans hw), ht.firstNamed hw, hsame]
  simp only [Option.bind_eq_bind, Option.bind_some]
  cases hfind : (List.range t.shnum).find? fun i => decide (t.name m i = some w) with
  | none => rfl
  | some i =>
      have hi := List.mem_range.mp (List.mem_of_find?_eq_some hfind)
      dsimp only
      rw [(ht.inside.kept h).rd hi (by decide : 0x18 + 8 ≤ 64),
        (ht.inside.kept h).rd hi (by decide : 0x20 + 8 ≤ 64),
        ht.inside.rd hi (by decide : 0x18 + 8 ≤ 64), ht.inside.rd hi (by decide : 0x20 + 8 ≤ 64),
        ht.header h hi (by decide : 0x18 + 8 ≤ 64), ht.header h hi (by decide : 0x20 + 8 ≤ 64),
        h.length]

/-- Where every name ends, the walk for the type information does too. -/
theorem findInfo_kept (ht : t.Covered P m span) (h : Kept P m m') {is : List Nat}
    (his : ∀ i ∈ is, i < t.shnum) :
    ∀ btf ext, findInfo m' t is btf ext = findInfo m t is btf ext := by
  induction is with
  | nil =>
      intro btf ext
      rfl
  | cons i rest ih =>
      intro btf ext
      have hi := his i List.mem_cons_self
      have hrest := ih fun j hj => his j (List.mem_cons_of_mem i hj)
      have hname := ht.inside.rd hi (by decide : 0 + 4 ≤ 64)
      have hname' := (ht.inside.kept h).rd hi (by decide : 0 + 4 ≤ 64)
      rw [Nat.add_zero] at hname hname'
      rw [findInfo, findInfo, hname, hname', ht.named h hi]
      simp only [Option.bind_eq_bind, Option.bind_some, hrest]
      by_cases hnamed : t.Named m i
      · have hpointer := ht.pointer h hi hnamed
        unfold Tables.pointer at hpointer
        rw [ht.named h hi] at hpointer
        rw [strcmp_congr_left hpointer.1 hpointer.2, strcmp_congr_left hpointer.1 hpointer.2,
          (ht.inside.kept h).rd hi (by decide : 0x18 + 8 ≤ 64),
          (ht.inside.kept h).rd hi (by decide : 0x20 + 8 ≤ 64),
          ht.inside.rd hi (by decide : 0x18 + 8 ≤ 64),
          ht.inside.rd hi (by decide : 0x20 + 8 ≤ 64),
          ht.header h hi (by decide : 0x18 + 8 ≤ 64),
          ht.header h hi (by decide : 0x20 + 8 ≤ 64), h.length]
      · rw [if_pos (Nat.le_of_not_lt hnamed), if_pos (Nat.le_of_not_lt hnamed)]

end Names

/-! ## Types that agree -/

theorem btfIndexFrom_kept {alloc : Nat → Bool} (h : Kept P m m') {types len : Nat}
    (hP : Within P types len) (fuel : Nat) :
    ∀ off cap idx, btfIndexFrom alloc m' types len fuel off cap idx =
      btfIndexFrom alloc m types len fuel off cap idx := by
  induction fuel with
  | zero =>
      intro off cap idx
      rfl
  | succ fuel ih =>
      intro off cap idx
      unfold btfIndexFrom
      by_cases hend : off + btfTypeSize > len
      · rw [if_pos hend, if_pos hend]
      · have hrd : rd 4 m' (types + off + 4) = rd 4 m (types + off + 4) := by
          simp only [btfTypeSize] at hend
          exact h.rd (hP.sub (by omega) (by omega))
        rw [if_neg hend, if_neg hend, hrd]
        simp only [ih]

theorem lsCoreBtfOpen_kept (alloc : Nat → Bool) (h : Kept P m m') {blob len : Nat}
    (hin : blob + len ≤ m.length) (hP : Within P blob len) :
    lsCoreBtfOpen alloc m' blob len = lsCoreBtfOpen alloc m blob len := by
  unfold lsCoreBtfOpen
  by_cases hlen : len < 24
  · rw [if_pos hlen, if_pos hlen]
  · rw [if_neg hlen, if_neg hlen, h.rd (hP.sub (by omega) (by omega)),
      h.rd (hP.sub (by omega) (by omega)), h.rd (hP.sub (by omega) (by omega)),
      h.rd (hP.sub (by omega) (by omega)), h.rd (hP.sub (by omega) (by omega)),
      h.rd (hP.sub (by omega) (by omega)), rd_of_le (by omega), rd_of_le (by omega),
      rd_of_le (by omega), rd_of_le (by omega), rd_of_le (by omega), rd_of_le (by omega)]
    simp only [Option.bind_eq_bind, Option.bind_some]
    split
    · rfl
    · split
      · rfl
      · split
        · rfl
        · split
          · rfl
          · unfold btfIndex
            split
            · rfl
            · rw [btfIndexFrom_kept h (hP.sub (by omega) (by omega))]

theorem findRecords_kept (h : Kept P m m') {ext : Nat × Nat} (hin : ext.1 + ext.2 ≤ m.length)
    (hP : Within P ext.1 ext.2) : findRecords m' ext = findRecords m ext := by
  unfold findRecords
  by_cases hlen : ext.2 < 32
  · rw [if_pos hlen, if_pos hlen]
  · rw [if_neg hlen, if_neg hlen, h.rd (hP.sub (by omega) (by omega)),
      h.rd (hP.sub (by omega) (by omega)), h.rd (hP.sub (by omega) (by omega)),
      rd_of_le (by omega), rd_of_le (by omega), rd_of_le (by omega)]
    simp only [Option.bind_eq_bind, Option.bind_some]
    split
    · rfl
    · rw [h.rd (hP.sub (by omega) (by omega))]

section Types

variable {l : Btf} {strs : Nat}

/-- The type information is covered, and every string ends in what is. -/
structure Btf.Covered (l : Btf) (P : Nat → Prop) (m : Buffer) (strs : Nat) : Prop where
  opened : l.Opened m
  records : Within P l.types l.typesLen
  names : Within P l.strs strs
  large : l.strsLen ≤ strs
  terminated : Terminated m l.strs strs

theorem Btf.Covered.string (hl : l.Covered P m strs) (h : Kept P m m') (off : Nat) :
    (cstr (btfStr m l off)).isSome ∧ cstr (btfStr m' l off) = cstr (btfStr m l off) := by
  unfold btfStr
  split
  · rename_i hoff
    obtain ⟨s, hs, hlen⟩ := hl.terminated.cstr (Nat.lt_of_lt_of_le hoff hl.large)
    have hsame : cstr (m'.drop (l.strs + off)) = some s :=
      h.cstr hs fun j hj hj' => hl.names j (by omega) (by omega)
    rw [hsame, hs]
    exact ⟨rfl, rfl⟩
  · exact ⟨rfl, rfl⟩

theorem Btf.Covered.field (hl : l.Covered P m strs) (h : Kept P m m') {id t off : Nat}
    (ht : btfTypeById l id = some t) (hoff : off + 4 ≤ btfTypeSize) :
    leAt 4 m' (t + off) = leAt 4 m (t + off) := by
  have hrecord := hl.opened.record ht
  exact h.leAt (hl.records.sub (by omega) (by omega))

theorem Btf.Covered.member (hl : l.Covered P m strs) (h : Kept P m m') {id t i off : Nat}
    (ht : btfTypeById l id = some t) (hkind : IsComposite (kindOf (leAt 4 m (t + 4))))
    (hi : i < vlenOf (leAt 4 m (t + 4))) (hoff : off + 4 ≤ 12) :
    leAt 4 m' (t + btfTypeSize + btfTypeSize * i + off) =
      leAt 4 m (t + btfTypeSize + btfTypeSize * i + off) := by
  have hrecord := hl.opened.record ht
  rw [btfTrailing_composite hkind] at hrecord
  simp only [btfTypeSize] at hrecord ⊢
  exact h.leAt (hl.records.sub (by omega) (by omega))

theorem Btf.Covered.kept (hl : l.Covered P m strs) (h : Kept P m m') : l.Covered P m' strs where
  opened := by
    refine ⟨?_, ?_, ?_⟩
    · rw [h.length]
      exact hl.opened.types
    · rw [h.length]
      exact hl.opened.strs
    · intro id off hget hid
      have hrecord := hl.opened.records id off hget hid
      have hlt : btfTypeById l id = some (l.types + off) := by
        obtain ⟨hlt, -⟩ := List.getElem?_eq_some_iff.mp hget
        have hknown : ¬(id = 0 ∨ id ≥ l.nids) := not_or.mpr ⟨hid, Nat.not_le.mpr hlt⟩
        rw [btfTypeById, if_neg hknown, List.getD_eq_getElem?_getD, hget, Option.getD_some]
      rw [hl.field h hlt (by decide : 4 + 4 ≤ btfTypeSize)]
      exact hrecord
  records := hl.records
  names := hl.names
  large := hl.large
  terminated := by
    rcases hl.terminated with hzero | hlast
    · exact Or.inl hzero
    · by_cases hzero : strs = 0
      · exact Or.inl hzero
      · refine Or.inr ?_
        rw [h.bytes _ (hl.names _ (by omega) (by omega)), hlast]

theorem Btf.Covered.ends (hl : l.Covered P m strs) : Ends (l.graph m) := by
  intro id t ht
  obtain ⟨p, -, rfl⟩ := Option.map_eq_some_iff.mp ht
  refine ⟨(hl.string (Kept.refl P m) _).1, ?_⟩
  intro mem hmem
  change mem ∈ decodeMembers m l p _ at hmem
  unfold decodeMembers at hmem
  split at hmem
  · obtain ⟨i, -, rfl⟩ := List.mem_map.mp hmem
    exact (hl.string (Kept.refl P m) _).1
  · exact nomatch hmem

theorem Btf.Covered.cut (hl : l.Covered P m strs) (h : Kept P m m') (off : Nat) :
    Relocation.cut (btfStr m' l off) = Relocation.cut (btfStr m l off) := by
  obtain ⟨hsome, hsame⟩ := hl.string h off
  obtain ⟨s, hs⟩ := Option.isSome_iff_exists.mp hsome
  rw [cut_of_cstr hs, cut_of_cstr (hsame.trans hs)]

/-- Up to what follows the names, the types are the same. -/
theorem Btf.Covered.graph (hl : l.Covered P m strs) (h : Kept P m m') :
    cutGraph (l.graph m') = cutGraph (l.graph m) := by
  funext id
  unfold cutGraph Btf.graph
  cases ht : btfTypeById l id with
  | none => rfl
  | some t =>
      have hfield : ∀ off, off + 4 ≤ btfTypeSize → leAt 4 m' (t + off) = leAt 4 m (t + off) :=
        fun off hoff => hl.field h ht hoff
      have hname : leAt 4 m' t = leAt 4 m t := hfield 0 (by decide)
      have hmembers : (decodeMembers m' l t (leAt 4 m (t + 4))).map Member.cut =
          (decodeMembers m l t (leAt 4 m (t + 4))).map Member.cut := by
        unfold decodeMembers
        split
        · rename_i hkind
          rw [List.map_map, List.map_map]
          apply List.map_congr_left
          intro i hi
          have hmember : ∀ off, off + 4 ≤ 12 →
              leAt 4 m' (t + btfTypeSize + btfTypeSize * i + off) =
                leAt 4 m (t + btfTypeSize + btfTypeSize * i + off) :=
            fun off hoff => hl.member h ht hkind (List.mem_range.mp hi) hoff
          have hmname := hmember 0 (by decide)
          rw [Nat.add_zero] at hmname
          simp only [Function.comp_apply, Member.cut, decodeMember, hmname,
            hmember 4 (by decide), hmember 8 (by decide), hl.cut h]
        · rfl
      simp only [Option.map_some, BtfType.cut, decodeType, hname, hfield 4 (by decide),
        hfield 8 (by decide), hl.cut h, hmembers]

/-- Lookups agree. -/
theorem coreFieldOffset_kept (hl : l.Covered P m strs) (h : Kept P m m') {tmem : Buffer} {t : Btf}
    (ht : t.Opened tmem) (localId accOff : Nat) :
    coreFieldOffset m' l localId (btfStr m' l accOff) tmem t =
      coreFieldOffset m l localId (btfStr m l accOff) tmem t := by
  obtain ⟨hsome, hsame⟩ := hl.string h accOff
  have hlookup : fieldOffset (l.graph m') (t.graph tmem) t.ids localId =
      fieldOffset (l.graph m) (t.graph tmem) t.ids localId := by
    funext comps
    rw [← fieldOffset_cut (hl.kept h).ends, ← fieldOffset_cut hl.ends, hl.graph h]
  rw [coreFieldOffset_eq (hl.kept h).opened ht, coreFieldOffset_eq hl.opened ht,
    tokens_congr accSize hsome hsame, hlookup]

end Types

end Kept

end Relocation
end LiveSurface
