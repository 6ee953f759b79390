import LiveSurface.Relocation.Btf

/-!
# The offset of a field

A relocation record names a field by a type of the program and an access string, the numbers of
the members to go through.  The field is looked up by the names of these members in the types of
the target.

The access string is read with {lit}`strtoul`, which reads what it can and says where it stopped.
The loop around it goes on wherever that is.

Main results:

- Theorem {lit}`coreFieldOffset_eq`: the lookup is a walk over the two graphs.
-/

namespace LiveSurface
namespace Relocation

/-! ## Access strings -/

def IsSpace (c : UInt8) : Prop := c = 32 ∨ 9 ≤ c ∧ c ≤ 13

instance (c : UInt8) : Decidable (IsSpace c) := inferInstanceAs (Decidable (_ ∨ _))

def IsDigit (c : UInt8) : Prop := 48 ≤ c ∧ c ≤ 57

instance (c : UInt8) : Decidable (IsDigit c) := inferInstanceAs (Decidable (_ ∧ _))

def colon : UInt8 := 58

/-- Past white space. -/
def skipSpace : List UInt8 → Option (List UInt8)
  | [] => none
  | c :: rest => if IsSpace c then skipSpace rest else some (c :: rest)

/-- The digits at a pointer, and what follows them. -/
def digits : List UInt8 → Option (List UInt8 × List UInt8)
  | [] => none
  | c :: rest =>
      if IsDigit c then (digits rest).map fun (ds, end_) => (c :: ds, end_)
      else some ([], c :: rest)

/-- The number that digits denote. -/
def decimal (ds : List UInt8) : Nat := ds.foldl (fun n c => 10 * n + (c.toNat - 48)) 0

/-- The value of {lit}`strtoul` for digits with a sign. -/
def strtoulValue (negative : Bool) (ds : List UInt8) : Nat :=
  if decimal ds ≥ 2 ^ 64 then 2 ^ 64 - 1
  else if negative then (2 ^ 64 - decimal ds) % 2 ^ 64
  else decimal ds

/-- {lit}`strtoul (p, &p, 10)`: the value, and where it stopped. -/
def strtoul (p : List UInt8) : Option (Nat × List UInt8) := do
  let start ← skipSpace p
  let c ← firstByte start
  let number := if c = 43 ∨ c = 45 then start.drop 1 else start
  let (ds, rest) ← digits number
  if ds = [] then some (0, p) else some (strtoulValue (decide (c = 45)) ds, rest)

/-- {lit}`acc` has room for so many numbers. -/
def accSize : Nat := 16

/-- The loop that reads an access string, with room for {lit}`left` more numbers. -/
def tokens : (left : Nat) → List UInt8 → Option (List Nat)
  | 0, p => (firstByte p).map fun _ => []
  | left + 1, p => do
      let c ← firstByte p
      if c = 0 then some []
      else
        let (value, rest) ← strtoul p
        let d ← firstByte rest
        let more ← tokens left (if d = colon then rest.drop 1 else rest)
        some (value % 2 ^ 32 :: more)

/-! ## The lookup -/

/-- The loop over the numbers after the first. -/
def walkMembers (lmem : Buffer) (l : Btf) (tmem : Buffer) (t : Btf) :
    List Nat → (lt tt : Option Nat) → (bits : Nat) → Option (Option Nat)
  | [], _, _, bits => some (some bits)
  | _ :: _, none, _, _ => some none
  | midx :: path, some lt, tt, bits => do
      let linfo ← rd 4 lmem (lt + 4)
      if ¬IsComposite (kindOf linfo) ∨ midx ≥ vlenOf linfo then some none
      else
        match tt with
        | none => some none
        | some tt => do
            let tinfo ← rd 4 tmem (tt + 4)
            if ¬IsComposite (kindOf tinfo) then some none
            else
              let lm := lt + btfTypeSize + btfTypeSize * midx
              let nameOff ← rd 4 lmem lm
              match ← btfFindMember tmem t tt (btfStr lmem l nameOff) with
              | none => some none
              | some (tbit, tmtype) =>
                  let nlid ← rd 4 lmem (lm + 4)
                  let lt' ← btfSkipMods lmem l modGuard (btfTypeById l nlid)
                  let tt' ← btfSkipMods tmem t modGuard (btfTypeById t tmtype)
                  walkMembers lmem l tmem t path lt' tt' (bits + tbit)

/-- A bit offset as a byte offset. -/
def wholeBytes (bits : Nat) : Option Nat := if bits % 8 ≠ 0 then none else some (bits / 8)

/-- {lit}`core_field_offset`; the inner {lit}`none` is {lit}`-1`. -/
def coreFieldOffset (lmem : Buffer) (l : Btf) (localId : Nat) (access : List UInt8)
    (tmem : Buffer) (t : Btf) : Option (Option Nat) := do
  match ← tokens accSize access with
  | 0 :: path =>
      match ← btfSkipMods lmem l modGuard (btfTypeById l localId) with
      | none => some none
      | some lt =>
          let linfo ← rd 4 lmem (lt + 4)
          if ¬IsComposite (kindOf linfo) then some none
          else
            let nameOff ← rd 4 lmem lt
            let c ← firstByte (btfStr lmem l nameOff)
            if c = 0 then some none
            else
              let tid ← btfFindStruct tmem t (btfStr lmem l nameOff) t.ids
              if tid = 0 then some none
              else
                let bits ← walkMembers lmem l tmem t path (some lt) (btfTypeById t tid) 0
                some (bits.bind wholeBytes)
  | _ => some none

/-! ## The walk over the graphs -/

def walk (lg tg : TypeGraph) : List Nat → (lt tt : Option BtfType) → (bits : Nat) →
    Option (Option Nat)
  | [], _, _, bits => some (some bits)
  | midx :: path, some lt, some tt, bits =>
      if ¬IsComposite (kindOf lt.info) ∨ ¬IsComposite (kindOf tt.info) then some none
      else
        match lt.members[midx]? with
        | none => some none
        | some lm =>
            (findMember lm.name tt.members).bind fun
              | none => some none
              | some tm =>
                  walk lg tg path (skipMods lg modGuard lm.type) (skipMods tg modGuard tm.type)
                    (bits + memberBits tt.info tm.offset)
  | _ :: _, _, _, _ => some none

theorem walk_none {lg tg : TypeGraph} {midx bits : Nat} {path : List Nat}
    {lt tt : Option BtfType} (h : lt = none ∨ tt = none) :
    walk lg tg (midx :: path) lt tt bits = some none := by
  rcases h with rfl | rfl
  · cases tt <;> rfl
  · cases lt <;> rfl

theorem walk_step {lg tg : TypeGraph} {midx bits : Nat} {path : List Nat} {lt tt : BtfType} :
    walk lg tg (midx :: path) (some lt) (some tt) bits =
      if ¬IsComposite (kindOf lt.info) ∨ ¬IsComposite (kindOf tt.info) then some none
      else
        match lt.members[midx]? with
        | none => some none
        | some lm =>
            (findMember lm.name tt.members).bind fun
              | none => some none
              | some tm =>
                  walk lg tg path (skipMods lg modGuard lm.type) (skipMods tg modGuard tm.type)
                    (bits + memberBits tt.info tm.offset) := by
  rw [walk]

/-- The offset of the field that a type and numbers name. -/
def fieldOffset (lg tg : TypeGraph) (tids : List Nat) (localId : Nat) : List Nat →
    Option (Option Nat)
  | 0 :: path =>
      match skipMods lg modGuard localId with
      | none => some none
      | some lt =>
          if ¬IsComposite (kindOf lt.info) then some none
          else
            (firstByte lt.name).bind fun c =>
              if c = 0 then some none
              else
                (findStruct tg lt.name tids).bind fun tid =>
                  if tid = 0 then some none
                  else (walk lg tg path (some lt) (tg tid) 0).map fun bits => bits.bind wholeBytes
  | _ => some none

section Equations

variable {lmem tmem : Buffer} {l t : Btf}

theorem walkMembers_eq (hl : l.Opened lmem) (ht : t.Opened tmem) (path : List Nat) :
    ∀ (lp tp : Option Nat) (bits : Nat), (∀ p, lp = some p → ∃ id, btfTypeById l id = some p) →
      (∀ p, tp = some p → ∃ id, btfTypeById t id = some p) →
      walkMembers lmem l tmem t path lp tp bits =
        walk (l.graph lmem) (t.graph tmem) path (lp.map (decodeType lmem l))
          (tp.map (decodeType tmem t)) bits := by
  induction path with
  | nil =>
      intro lp tp bits _ _
      rfl
  | cons midx path ih =>
      intro lp tp bits hlp htp
      cases lp with
      | none => cases tp <;> rfl
      | some lt =>
          obtain ⟨lid, hlid⟩ := hlp lt rfl
          simp only [walkMembers, hl.field hlid (by decide : 4 + 4 ≤ btfTypeSize)]
          simp only [Option.bind_eq_bind, Option.bind_some]
          by_cases hlkind : IsComposite (kindOf (leAt 4 lmem (lt + 4)))
          · cases tp with
            | none =>
                rw [ite_self]
                rfl
            | some tt =>
                obtain ⟨tid, htid⟩ := htp tt rfl
                simp only [Option.map_some, walk]
                by_cases htkind : IsComposite (kindOf (leAt 4 tmem (tt + 4)))
                · have hkinds : ¬(¬IsComposite (kindOf (decodeType lmem l lt).info) ∨
                      ¬IsComposite (kindOf (decodeType tmem t tt).info)) :=
                    fun h => h.elim (fun h => h hlkind) (fun h => h htkind)
                  rw [if_neg hkinds, ht.field htid (by decide)]
                  simp only [Option.bind_some, htkind, not_true_eq_false, if_false]
                  by_cases hidx : midx < vlenOf (leAt 4 lmem (lt + 4))
                  · have hmember : (decodeType lmem l lt).members[midx]? = some
                        (decodeMember lmem l (lt + btfTypeSize + btfTypeSize * midx)) := by
                      simp [decodeType, decodeMembers, hlkind, hidx]
                    have hname := hl.member hlid hlkind hidx (by decide : 0 + 4 ≤ 12)
                    rw [Nat.add_zero] at hname
                    rw [if_neg (by simp [hlkind, hidx]), hmember, hname,
                      hl.member hlid hlkind hidx (by decide : 4 + 4 ≤ 12)]
                    simp only [Option.bind_some, btfFindMember_eq ht htid htkind]
                    change _ = Option.bind (findMember (btfStr lmem l _) _) _
                    cases findMember (btfStr lmem l (leAt 4 lmem
                        (lt + btfTypeSize + btfTypeSize * midx))) (decodeType tmem t tt).members with
                    | none => rfl
                    | some found =>
                        cases found with
                        | none => rfl
                        | some tm =>
                            obtain ⟨lp', hlp', hlg, hlptr⟩ := btfSkipMods_eq hl modGuard
                              (leAt 4 lmem (lt + btfTypeSize + btfTypeSize * midx + 4))
                            obtain ⟨tp', htp', htg, htptr⟩ := btfSkipMods_eq ht modGuard tm.type
                            simp only [Option.map_some, Option.bind_some, hlp', htp']
                            rw [ih lp' tp' _ hlptr htptr, hlg, htg]
                            rfl
                  · have hnone : (decodeType lmem l lt).members[midx]? = none := by
                      simp [decodeType, decodeMembers, hlkind, hidx]
                    rw [if_pos (Or.inr (Nat.le_of_not_lt hidx)), hnone]
                · have hkinds : ¬IsComposite (kindOf (decodeType lmem l lt).info) ∨
                      ¬IsComposite (kindOf (decodeType tmem t tt).info) := Or.inr htkind
                  rw [if_pos hkinds, ht.field htid (by decide)]
                  simp [htkind]
          · rw [if_pos (Or.inl hlkind)]
            cases tp with
            | none => rfl
            | some tt => exact (if_pos (Or.inl hlkind)).symm

theorem coreFieldOffset_eq (hl : l.Opened lmem) (ht : t.Opened tmem) (localId : Nat)
    (access : List UInt8) :
    coreFieldOffset lmem l localId access tmem t =
      (tokens accSize access).bind (fieldOffset (l.graph lmem) (t.graph tmem) t.ids localId) := by
  unfold coreFieldOffset
  cases tokens accSize access with
  | none => rfl
  | some acc =>
      simp only [Option.bind_eq_bind, Option.bind_some]
      unfold fieldOffset
      split
      · rename_i path
        obtain ⟨lp, hlp, hlg, hlptr⟩ := btfSkipMods_eq hl modGuard localId
        rw [hlp, ← hlg]
        cases lp with
        | none => rfl
        | some lt =>
            obtain ⟨lid, hlid⟩ := hlptr lt rfl
            have hname := hl.field hlid (by decide : 0 + 4 ≤ btfTypeSize)
            rw [Nat.add_zero] at hname
            simp only [Option.bind_some, Option.map_some, hl.field hlid (by decide : 4 + 4 ≤ btfTypeSize),
              hname, btfFindStruct_eq ht]
            have hwalk : ∀ tid, walkMembers lmem l tmem t path (some lt) (btfTypeById t tid) 0 =
                walk (l.graph lmem) (t.graph tmem) path (some (decodeType lmem l lt))
                  (t.graph tmem tid) 0 := fun tid =>
              walkMembers_eq hl ht path (some lt) (btfTypeById t tid) 0 hlptr
                fun p hp => ⟨tid, hp⟩
            simp only [hwalk, Option.map_eq_bind]
            rfl
      · rfl

end Equations

end Relocation
end LiveSurface
