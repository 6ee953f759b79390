import LiveSurface.Library.Buffer

/-!
# Type information in a buffer

Type information is a run of type records and a table of strings.  Opening it checks that both lie
inside the blob and finds where the records start; afterwards a type is a pointer to its record,
and its names are pointers into the table of strings.

What a record says is also read off as a value, so that the types of a blob are a graph over their
numbers.  Walks over the graph are walks over the buffer, without its reads.

Main results:

- Theorem {lit}`lsCoreBtfOpen_cases`: opening stays inside the blob and ends, and what it
  establishes.
- Theorems {lit}`btfSkipMods_eq`, {lit}`btfFindStruct_eq` and {lit}`btfFindMember_eq`: walks over
  the buffer are walks over the graph.
-/

namespace LiveSurface
namespace Relocation

/-! ## Records -/

def kindInt : Nat := 1
def kindArray : Nat := 3
def kindStruct : Nat := 4
def kindUnion : Nat := 5
def kindEnum : Nat := 6
def kindTypedef : Nat := 8
def kindVolatile : Nat := 9
def kindConst : Nat := 10
def kindRestrict : Nat := 11
def kindFuncProto : Nat := 13
def kindVar : Nat := 14
def kindDatasec : Nat := 15
def kindDeclTag : Nat := 17
def kindTypeTag : Nat := 18
def kindEnum64 : Nat := 19

/-- {lit}`KIND`. -/
def kindOf (info : Nat) : Nat := info / 2 ^ 24 % 32

/-- {lit}`VLEN`. -/
def vlenOf (info : Nat) : Nat := info % 2 ^ 16

/-- {lit}`KFLAG`. -/
def kflagOf (info : Nat) : Bool := info / 2 ^ 31 % 2 == 1

def IsMod (kind : Nat) : Prop :=
  kind = kindConst ∨ kind = kindVolatile ∨ kind = kindRestrict ∨ kind = kindTypedef ∨
    kind = kindTypeTag

instance (kind : Nat) : Decidable (IsMod kind) := inferInstanceAs (Decidable (_ ∨ _))

def IsComposite (kind : Nat) : Prop := kind = kindStruct ∨ kind = kindUnion

instance (kind : Nat) : Decidable (IsComposite kind) := inferInstanceAs (Decidable (_ ∨ _))

/-- {lit}`btf_trailing`. -/
def btfTrailing (info : Nat) : Nat :=
  let kind := kindOf info
  if kind = kindInt ∨ kind = kindVar ∨ kind = kindDeclTag then 4
  else if kind = kindArray then 12
  else if kind = kindStruct ∨ kind = kindUnion then vlenOf info * 12
  else if kind = kindEnum then vlenOf info * 8
  else if kind = kindEnum64 then vlenOf info * 12
  else if kind = kindFuncProto then vlenOf info * 8
  else if kind = kindDatasec then vlenOf info * 12
  else 0

/-- {lit}`sizeof (struct btf_type)`, and of a member. -/
def btfTypeSize : Nat := 12

/-! ## Opening -/

/-- {lit}`struct btf`; its pointers are positions in the buffer that the blob is in. -/
structure Btf where
  types : Nat
  typesLen : Nat
  strs : Nat
  strsLen : Nat
  idx : List Nat
deriving DecidableEq

def Btf.nids (b : Btf) : Nat := b.idx.length

/-- The loop of {lit}`btf_index`; {lit}`alloc` tells which allocations succeed.  It ends before
its fuel does. -/
def btfIndexFrom (alloc : Nat → Bool) (mem : Buffer) (types len : Nat) :
    (fuel : Nat) → (off cap : Nat) → List Nat → Option (Option (List Nat))
  | 0, _, _, _ => none
  | fuel + 1, off, cap, idx =>
      if off + btfTypeSize > len then some (some idx)
      else do
        let info ← rd 4 mem (types + off + 4)
        if off + btfTypeSize + btfTrailing info > len then some (some idx)
        else if idx.length = cap ∧ alloc (cap * 2) = false then some none
        else
          btfIndexFrom alloc mem types len fuel (off + (btfTypeSize + btfTrailing info))
            (if idx.length = cap then cap * 2 else cap) (idx ++ [off])

/-- {lit}`btf_index`. -/
def btfIndex (alloc : Nat → Bool) (mem : Buffer) (types len : Nat) : Option (Option (List Nat)) :=
  if alloc 1024 = false then some none
  else btfIndexFrom alloc mem types len (len / btfTypeSize + 1) 0 1024 [0]

/-- {lit}`ls_core_btf_open` of the blob at a position. -/
def lsCoreBtfOpen (alloc : Nat → Bool) (mem : Buffer) (blob len : Nat) : Option (Option Btf) :=
  if len < 24 then some none
  else do
    let magic ← rd 2 mem blob
    let hdrLen ← rd 4 mem (blob + 4)
    let typeOff ← rd 4 mem (blob + 8)
    let typeLen ← rd 4 mem (blob + 12)
    let strOff ← rd 4 mem (blob + 16)
    let strLen ← rd 4 mem (blob + 20)
    if magic ≠ 0xeb9f then some none
    else if hdrLen > len then some none
    else if hdrLen + typeOff + typeLen > len then some none
    else if hdrLen + strOff + strLen > len then some none
    else do
      match ← btfIndex alloc mem (blob + hdrLen + typeOff) typeLen with
      | none => some none
      | some idx =>
          some (some
            { types := blob + hdrLen + typeOff
              typesLen := typeLen
              strs := blob + hdrLen + strOff
              strsLen := strLen
              idx })

/-! ## Walks over the buffer -/

/-- {lit}`btf_str`. -/
def btfStr (mem : Buffer) (b : Btf) (off : Nat) : List UInt8 :=
  if off < b.strsLen then mem.drop (b.strs + off) else [0]

/-- {lit}`btf_type_by_id`. -/
def btfTypeById (b : Btf) (id : Nat) : Option Nat :=
  if id = 0 ∨ id ≥ b.nids then none else some (b.types + b.idx.getD id 0)

/-- The loop of {lit}`btf_skip_mods`; the inner {lit}`none` is the null pointer. -/
def btfSkipMods (mem : Buffer) (b : Btf) : (guard : Nat) → Option Nat → Option (Option Nat)
  | _, none => some none
  | 0, some t => some (some t)
  | guard + 1, some t => do
      let info ← rd 4 mem (t + 4)
      if IsMod (kindOf info) then
        let id ← rd 4 mem (t + 8)
        btfSkipMods mem b guard (btfTypeById b id)
      else some (some t)

/-- How many links {lit}`btf_skip_mods` follows. -/
def modGuard : Nat := 64

/-- The loop of {lit}`btf_find_struct` over the remaining numbers; 0 is not found. -/
def btfFindStruct (mem : Buffer) (b : Btf) (name : List UInt8) : List Nat → Option Nat
  | [] => some 0
  | id :: rest =>
      match btfTypeById b id with
      | none => btfFindStruct mem b name rest
      | some t => do
          let info ← rd 4 mem (t + 4)
          if IsComposite (kindOf info) then
            let nameOff ← rd 4 mem t
            let equal ← strcmp (btfStr mem b nameOff) name
            if equal then some id else btfFindStruct mem b name rest
          else btfFindStruct mem b name rest

/-- The numbers of the types. -/
def Btf.ids (b : Btf) : List Nat := (List.range b.nids).tail

/-- The offset of a member, without the size of a bit field. -/
def memberBits (info offset : Nat) : Nat := if kflagOf info then offset % 2 ^ 24 else offset

/-- The first byte of a string. -/
def firstByte : List UInt8 → Option UInt8
  | [] => none
  | c :: _ => some c

/-- A name is not empty and equals another. -/
def memberIs (mn name : List UInt8) : Option Bool :=
  (firstByte mn).bind fun c => if c = 0 then some false else strcmp mn name

/-- The loop of {lit}`btf_find_member` over the remaining members: bit offset and type. -/
def btfFindMemberFrom (mem : Buffer) (b : Btf) (st info : Nat) (name : List UInt8) :
    List Nat → Option (Option (Nat × Nat))
  | [] => some none
  | i :: rest => do
      let nameOff ← rd 4 mem (st + btfTypeSize + btfTypeSize * i)
      let equal ← memberIs (btfStr mem b nameOff) name
      if equal then
        let o ← rd 4 mem (st + btfTypeSize + btfTypeSize * i + 8)
        let type ← rd 4 mem (st + btfTypeSize + btfTypeSize * i + 4)
        some (some (memberBits info o, type))
      else btfFindMemberFrom mem b st info name rest

/-- {lit}`btf_find_member`. -/
def btfFindMember (mem : Buffer) (b : Btf) (st : Nat) (name : List UInt8) :
    Option (Option (Nat × Nat)) := do
  let info ← rd 4 mem (st + 4)
  btfFindMemberFrom mem b st info name (List.range (vlenOf info))

/-! ## The graph of the types -/

/-- A member of a struct or a union; its name is a pointer. -/
structure Member where
  name : List UInt8
  type : Nat
  offset : Nat

/-- What the record of a type says. -/
structure BtfType where
  info : Nat
  name : List UInt8
  ref : Nat
  members : List Member

abbrev TypeGraph := Nat → Option BtfType

def decodeMember (mem : Buffer) (b : Btf) (m : Nat) : Member where
  name := btfStr mem b (leAt 4 mem m)
  type := leAt 4 mem (m + 4)
  offset := leAt 4 mem (m + 8)

/-- The members that follow the record of a struct or a union. -/
def decodeMembers (mem : Buffer) (b : Btf) (t info : Nat) : List Member :=
  if IsComposite (kindOf info) then
    (List.range (vlenOf info)).map fun i =>
      decodeMember mem b (t + btfTypeSize + btfTypeSize * i)
  else []

def decodeType (mem : Buffer) (b : Btf) (t : Nat) : BtfType where
  info := leAt 4 mem (t + 4)
  name := btfStr mem b (leAt 4 mem t)
  ref := leAt 4 mem (t + 8)
  members := decodeMembers mem b t (leAt 4 mem (t + 4))

/-- The types of an opened blob. -/
def Btf.graph (mem : Buffer) (b : Btf) : TypeGraph := fun id =>
  (btfTypeById b id).map (decodeType mem b)

/-- The type behind qualifiers. -/
def skipMods (g : TypeGraph) : (guard : Nat) → Nat → Option BtfType
  | 0, id => g id
  | guard + 1, id =>
      match g id with
      | none => none
      | some t => if IsMod (kindOf t.info) then skipMods g guard t.ref else some t

/-- The first struct or union of a name. -/
def findStruct (g : TypeGraph) (name : List UInt8) : List Nat → Option Nat
  | [] => some 0
  | id :: rest =>
      match g id with
      | none => findStruct g name rest
      | some t =>
          if IsComposite (kindOf t.info) then
            (strcmp t.name name).bind fun equal =>
              if equal then some id else findStruct g name rest
          else findStruct g name rest

/-- The first member of a name. -/
def findMember (name : List UInt8) : List Member → Option (Option Member)
  | [] => some none
  | m :: rest =>
      (memberIs m.name name).bind fun equal =>
        if equal then some (some m) else findMember name rest

/-! ## Opening stays inside -/

/-- Everything that has been opened lies in the buffer. -/
structure Btf.Opened (mem : Buffer) (b : Btf) : Prop where
  types : b.types + b.typesLen ≤ mem.length
  strs : b.strs + b.strsLen ≤ mem.length
  records : ∀ id off, b.idx[id]? = some off → id ≠ 0 → off + btfTypeSize +
    btfTrailing (leAt 4 mem (b.types + off + 4)) ≤ b.typesLen

section Open

variable {alloc : Nat → Bool} {mem : Buffer} {blob len : Nat}

/-- What the loop over the records keeps. -/
def IndexOk (mem : Buffer) (types len : Nat) (idx : List Nat) : Prop :=
  idx ≠ [] ∧ ∀ id off, idx[id]? = some off → id ≠ 0 → off + btfTypeSize +
    btfTrailing (leAt 4 mem (types + off + 4)) ≤ len

theorem IndexOk.snoc {types off : Nat} {idx : List Nat} (h : IndexOk mem types len idx)
    (hoff : off + btfTypeSize + btfTrailing (leAt 4 mem (types + off + 4)) ≤ len) :
    IndexOk mem types len (idx ++ [off]) := by
  refine ⟨by simp, ?_⟩
  intro id off' hget hid
  rcases Nat.lt_trichotomy id idx.length with hlt | heq | hgt
  · rw [List.getElem?_append_left hlt] at hget
    exact h.2 id off' hget hid
  · rw [heq, List.getElem?_concat_length] at hget
    rwa [← Option.some.inj hget]
  · rw [List.getElem?_eq_none (by rw [List.length_append]; exact hgt)] at hget
    contradiction

/-- The loop over the records stays inside them and ends. -/
theorem btfIndexFrom_cases {types : Nat} (hin : types + len ≤ mem.length) :
    ∀ (fuel off cap : Nat) (idx : List Nat), 0 < fuel → len < off + btfTypeSize * fuel →
      IndexOk mem types len idx →
      btfIndexFrom alloc mem types len fuel off cap idx = some none ∨
        ∃ idx', btfIndexFrom alloc mem types len fuel off cap idx = some (some idx') ∧
          IndexOk mem types len idx' := by
  intro fuel
  induction fuel with
  | zero =>
      intro off cap idx hpos
      contradiction
  | succ fuel ih =>
      intro off cap idx _ hfuel hidx
      unfold btfIndexFrom
      by_cases hend : off + btfTypeSize > len
      · rw [if_pos hend]
        exact Or.inr ⟨idx, rfl, hidx⟩
      · have hrd : rd 4 mem (types + off + 4) = some (leAt 4 mem (types + off + 4)) := by
          apply rd_of_le
          simp only [btfTypeSize] at hend
          omega
        rw [if_neg hend, hrd]
        simp only [Option.bind_eq_bind, Option.bind_some]
        split
        · exact Or.inr ⟨idx, rfl, hidx⟩
        · rename_i htrail
          split
          · exact Or.inl rfl
          · apply ih
            · simp only [btfTypeSize] at hfuel hend
              omega
            · simp only [btfTypeSize] at hfuel ⊢
              omega
            · exact hidx.snoc (Nat.le_of_not_lt htrail)

/-- Opening a blob stays inside it and ends. -/
theorem lsCoreBtfOpen_cases (alloc : Nat → Bool) (hin : blob + len ≤ mem.length) :
    lsCoreBtfOpen alloc mem blob len = some none ∨
      ∃ b, lsCoreBtfOpen alloc mem blob len = some (some b) ∧ b.Opened mem ∧ b.idx ≠ [] ∧
        blob ≤ b.types ∧ b.types + b.typesLen ≤ blob + len ∧
        blob ≤ b.strs ∧ b.strs + b.strsLen ≤ blob + len := by
  unfold lsCoreBtfOpen
  by_cases hlen : len < 24
  · rw [if_pos hlen]
    exact Or.inl rfl
  · rw [if_neg hlen, rd_of_le (by omega), rd_of_le (by omega), rd_of_le (by omega),
      rd_of_le (by omega), rd_of_le (by omega), rd_of_le (by omega)]
    simp only [Option.bind_eq_bind, Option.bind_some]
    split
    · exact Or.inl rfl
    · split
      · exact Or.inl rfl
      · split
        · exact Or.inl rfl
        · rename_i htypes
          split
          · exact Or.inl rfl
          · rename_i hstrs
            unfold btfIndex
            split
            · exact Or.inl rfl
            · have hstart : IndexOk mem (blob + leAt 4 mem (blob + 4) + leAt 4 mem (blob + 8))
                  (leAt 4 mem (blob + 12)) [0] := by
                refine ⟨by simp, ?_⟩
                intro id off hget hid
                cases id with
                | zero => exact absurd rfl hid
                | succ id =>
                    simp at hget
              have hfuel : leAt 4 mem (blob + 12) <
                  0 + btfTypeSize * (leAt 4 mem (blob + 12) / btfTypeSize + 1) := by
                simp only [btfTypeSize]
                omega
              rcases @btfIndexFrom_cases alloc mem _ _ (by omega)
                (leAt 4 mem (blob + 12) / btfTypeSize + 1) 0 1024 [0] (Nat.succ_pos _) hfuel
                hstart with hnone | ⟨idx, hsome, hidx⟩
              · rw [hnone]
                exact Or.inl rfl
              · rw [hsome]
                refine Or.inr ⟨_, rfl, ⟨?_, ?_, hidx.2⟩, hidx.1, ?_, ?_, ?_, ?_⟩
                all_goals
                  dsimp only
                  omega

theorem opened_of_open {b : Btf} (hin : blob + len ≤ mem.length)
    (h : lsCoreBtfOpen alloc mem blob len = some (some b)) : b.Opened mem := by
  rcases lsCoreBtfOpen_cases alloc hin with hnone | ⟨b', hb', hopened, _⟩
  · rw [hnone] at h
    exact nomatch Option.some.inj h
  · rw [hb'] at h
    obtain rfl := Option.some.inj (Option.some.inj h)
    exact hopened

end Open

/-! ## Walks stay inside -/

section Walks

variable {mem : Buffer} {b : Btf} {id t : Nat}

/-- The record of a type lies among the records. -/
theorem Btf.Opened.record (h : b.Opened mem) (ht : btfTypeById b id = some t) :
    b.types ≤ t ∧ t + btfTypeSize + btfTrailing (leAt 4 mem (t + 4)) ≤ b.types + b.typesLen := by
  unfold btfTypeById at ht
  split at ht
  · contradiction
  · rename_i hid
    rw [not_or, Nat.not_le] at hid
    obtain rfl := Option.some.inj ht
    have hget : b.idx[id]? = some (b.idx.getD id 0) := by
      rw [List.getD_eq_getElem?_getD, List.getElem?_eq_getElem hid.2, Option.getD_some]
    have hrecord := h.records id _ hget hid.1
    omega

theorem Btf.Opened.field (h : b.Opened mem) (ht : btfTypeById b id = some t) {off : Nat}
    (hoff : off + 4 ≤ btfTypeSize) : rd 4 mem (t + off) = some (leAt 4 mem (t + off)) := by
  have hrecord := h.record ht
  have htypes := h.types
  exact rd_of_le (by omega)

theorem btfTrailing_composite {info : Nat} (h : IsComposite (kindOf info)) :
    btfTrailing info = vlenOf info * 12 := by
  unfold btfTrailing IsComposite kindStruct kindUnion at *
  rcases h with h | h
  · simp [h, kindInt, kindVar, kindDeclTag, kindArray]
  · simp [h, kindInt, kindVar, kindDeclTag, kindArray]

/-- The members of a struct or a union lie among the records. -/
theorem Btf.Opened.member (h : b.Opened mem) (ht : btfTypeById b id = some t)
    (hkind : IsComposite (kindOf (leAt 4 mem (t + 4)))) {i off : Nat}
    (hi : i < vlenOf (leAt 4 mem (t + 4))) (hoff : off + 4 ≤ 12) :
    rd 4 mem (t + btfTypeSize + btfTypeSize * i + off) =
      some (leAt 4 mem (t + btfTypeSize + btfTypeSize * i + off)) := by
  have hrecord := h.record ht
  have htypes := h.types
  rw [btfTrailing_composite hkind] at hrecord
  simp only [btfTypeSize] at hrecord ⊢
  exact rd_of_le (by omega)

/-- A pointer to a type is null, or the record of a type of the graph. -/
theorem btfSkipMods_eq (h : b.Opened mem) :
    ∀ (guard id : Nat), ∃ p, btfSkipMods mem b guard (btfTypeById b id) = some p ∧
      p.map (decodeType mem b) = skipMods (b.graph mem) guard id ∧
      ∀ t, p = some t → ∃ id', btfTypeById b id' = some t := by
  intro guard
  induction guard with
  | zero =>
      intro id
      refine ⟨btfTypeById b id, ?_, rfl, fun t ht => ⟨id, ht⟩⟩
      cases btfTypeById b id with
      | none => rfl
      | some t => rfl
  | succ guard ih =>
      intro id
      cases ht : btfTypeById b id with
      | none =>
          refine ⟨none, rfl, ?_, fun t ht' => (nomatch ht')⟩
          rw [skipMods, Btf.graph, ht]
          rfl
      | some t =>
          rw [btfSkipMods, h.field ht (by decide), skipMods, Btf.graph, ht, Option.map_some]
          simp only [Option.bind_eq_bind, Option.bind_some]
          by_cases hmod : IsMod (kindOf (leAt 4 mem (t + 4)))
          · rw [if_pos hmod, h.field ht (by decide), Option.bind_some]
            change ∃ p, _ ∧ _ = (if IsMod (kindOf (leAt 4 mem (t + 4))) then _ else _) ∧ _
            rw [if_pos hmod]
            exact ih (leAt 4 mem (t + 8))
          · rw [if_neg hmod]
            change ∃ p, _ ∧ _ = (if IsMod (kindOf (leAt 4 mem (t + 4))) then _ else _) ∧ _
            rw [if_neg hmod]
            refine ⟨some t, rfl, rfl, ?_⟩
            intro t' ht'
            obtain rfl := Option.some.inj ht'
            exact ⟨id, ht⟩

theorem btfFindStruct_eq (h : b.Opened mem) (name : List UInt8) (ids : List Nat) :
    btfFindStruct mem b name ids = findStruct (b.graph mem) name ids := by
  induction ids with
  | nil => rfl
  | cons id rest ih =>
      unfold btfFindStruct findStruct Btf.graph
      cases ht : btfTypeById b id with
      | none => exact ih
      | some t =>
          rw [Option.map_some]
          have hname := h.field ht (by decide : 0 + 4 ≤ btfTypeSize)
          rw [Nat.add_zero] at hname
          simp only [h.field ht (by decide : 4 + 4 ≤ btfTypeSize), hname, Option.bind_eq_bind,
            Option.bind_some, ih]
          rfl

theorem btfFindMemberFrom_eq (h : b.Opened mem) (ht : btfTypeById b id = some t)
    (hkind : IsComposite (kindOf (leAt 4 mem (t + 4)))) (name : List UInt8) (is : List Nat)
    (his : ∀ i ∈ is, i < vlenOf (leAt 4 mem (t + 4))) :
    btfFindMemberFrom mem b t (leAt 4 mem (t + 4)) name is =
      (findMember name (is.map fun i => decodeMember mem b (t + btfTypeSize + btfTypeSize * i))).map
        fun found => found.map fun m => (memberBits (leAt 4 mem (t + 4)) m.offset, m.type) := by
  induction is with
  | nil => rfl
  | cons i rest ih =>
      have hi := his i List.mem_cons_self
      have hname := h.member ht hkind hi (by decide : 0 + 4 ≤ 12)
      rw [Nat.add_zero] at hname
      rw [btfFindMemberFrom, List.map_cons, findMember, hname,
        h.member ht hkind hi (by decide : 8 + 4 ≤ 12),
        h.member ht hkind hi (by decide : 4 + 4 ≤ 12)]
      simp only [Option.bind_eq_bind, Option.bind_some]
      change Option.bind _ _ = Option.map _ (Option.bind (memberIs (btfStr mem b _) name) _)
      cases memberIs (btfStr mem b (leAt 4 mem (t + btfTypeSize + btfTypeSize * i))) name with
      | none => rfl
      | some equal =>
          cases equal with
          | true => rfl
          | false => exact ih fun j hj => his j (List.mem_cons_of_mem i hj)

theorem btfFindMember_eq (h : b.Opened mem) (ht : btfTypeById b id = some t)
    (hkind : IsComposite (kindOf (leAt 4 mem (t + 4)))) (name : List UInt8) :
    btfFindMember mem b t name =
      (findMember name (decodeType mem b t).members).map fun found => found.map fun m =>
        (memberBits (decodeType mem b t).info m.offset, m.type) := by
  rw [btfFindMember, h.field ht (by decide)]
  have hmembers : (decodeType mem b t).members =
      (List.range (vlenOf (leAt 4 mem (t + 4)))).map fun i =>
        decodeMember mem b (t + btfTypeSize + btfTypeSize * i) := if_pos hkind
  rw [hmembers]
  exact btfFindMemberFrom_eq h ht hkind name _ fun i hi => List.mem_range.mp hi

end Walks

end Relocation
end LiveSurface
