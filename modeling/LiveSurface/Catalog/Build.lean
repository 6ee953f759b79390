import LiveSurface.Library.Largest
import LiveSurface.Relocation.Btf
import LiveSurface.Trace.Values

/-!
# The catalog of the fields of structures

The catalog says of the fields of every structure what a trace expression may do with them: read a
whole scalar, go on through a pointer or into an embedded structure, or, of a bit field, where its
bits lie.  These are four tables, and where a name has several definitions each table keeps for
itself the definition that gives it the most entries.

Main results:

- Theorem {lit}`note_get?` and theorem {lit}`tables_get?`: an entry comes from a member of the
  structure.
- Theorem {lit}`build_scalars`, {lit}`build_ptrTargets`, {lit}`build_embedded` and
  {lit}`build_bitfields`: which definition of a name is in a table.
-/

namespace LiveSurface
namespace Catalog

open Relocation Trace

/-! ## What has been read -/

def kindPtr : Nat := 2
def kindFloat : Nat := 16

/-- A member; its width is the size of a bit field, and 0 otherwise. -/
structure Field where
  name : String
  type : Nat
  offset : Nat
  width : Nat
deriving DecidableEq

/-- A type, as it is listed. -/
structure Record where
  kind : Nat
  name : String
  members : List Field
  size : Option Nat
  ref : Option Nat

/-- {lit}`types`. -/
abbrev Listing := Dict Nat Record

/-- {lit}`types.get`. -/
def typeAt (types : Listing) (tid : Option Nat) : Option Record := tid.bind types.get?

/-- {lit}`INT`, {lit}`ENUM`, {lit}`ENUM64` and {lit}`FLOAT`. -/
def IsSized (kind : Nat) : Prop :=
  kind = kindInt ∨ kind = kindEnum ∨ kind = kindEnum64 ∨ kind = kindFloat

instance (kind : Nat) : Decidable (IsSized kind) := inferInstanceAs (Decidable (_ ∨ _))

section Walks

variable (types : Listing)

/-- {lit}`size_of`, with the number of types it may still look at. -/
def sizeOf : (guard : Nat) → Option Nat → Nat
  | 0, _ => 0
  | guard + 1, tid =>
      match typeAt types tid with
      | none => 0
      | some t =>
          if t.kind = kindPtr then 8
          else if IsSized t.kind then t.size.getD 0
          else if IsMod t.kind then sizeOf guard t.ref
          else 0

/-- The loop that peels the pointee in {lit}`ptr_target`. -/
def peel : (guard : Nat) → Option Record → Option Record
  | _, none => none
  | 0, some pt => some pt
  | guard + 1, some pt =>
      if IsMod pt.kind then peel guard (typeAt types pt.ref) else some pt

/-- {lit}`ptr_target`. -/
def ptrTarget : (guard : Nat) → Option Nat → Option String
  | 0, _ => none
  | guard + 1, tid =>
      match typeAt types tid with
      | none => none
      | some t =>
          if IsMod t.kind then ptrTarget guard t.ref
          else if t.kind ≠ kindPtr then none
          else
            match peel types 12 (typeAt types t.ref) with
            | none => none
            | some pt => if pt.kind = kindStruct ∧ pt.name ≠ "" then some pt.name else none

variable (py : Python)

/-- {lit}`re.fullmatch` of an identifier. -/
def isIdentifier (s : String) : Bool := ((Re.seq (identifier py) Re.eos).fromStart s.toList).isSome

/-- {lit}`embedded_target`. -/
def embeddedTarget : (guard : Nat) → Option Nat → Option String
  | 0, _ => none
  | guard + 1, tid =>
      match typeAt types tid with
      | none => none
      | some t =>
          if IsMod t.kind then embeddedTarget guard t.ref
          else if t.kind = kindStruct ∧ isIdentifier py t.name = true then some t.name
          else none

end Walks

/-- How many types a walk looks at. -/
def depth : Nat := 13

/-- {lit}`W`. -/
def widthName : Nat → Option String
  | 1 => some "u8"
  | 2 => some "u16"
  | 4 => some "u32"
  | 8 => some "u64"
  | _ => none

/-! ## One structure -/

/-- {lit}`fields`, {lit}`edges`, {lit}`bfs` and {lit}`members` of a structure. -/
structure Tables where
  fields : Dict String String
  edges : Dict String String
  bfs : Dict String Bitfield
  members : Dict String String

def Tables.empty : Tables := ⟨Dict.empty, Dict.empty, Dict.empty, Dict.empty⟩

/-- An entry, where there is something to enter. -/
def note {β : Type} (d : Dict String β) (name : String) : Option β → Dict String β
  | none => d
  | some v => d.set name v

/-- The description of a bit field whose declared type has so many bytes. -/
def bitfieldOf (s : Nat) (unit : String) (f : Field) : Bitfield :=
  let unitBits := s * 8
  let byte := f.offset / unitBits * s
  { unit, byte, shift := f.offset - byte * 8, width := f.width }

section Build

variable (types : Listing) (py : Python)

/-- The loop over the members of a structure. -/
def addMember (struct : String) (d : Tables) (f : Field) : Tables :=
  let s := sizeOf types depth (some f.type)
  if f.width ≠ 0 then
    { d with bfs := note d.bfs f.name ((widthName s).map fun unit => bitfieldOf s unit f) }
  else
    { d with
      fields := note d.fields f.name (widthName s)
      edges := note d.edges f.name (ptrTarget types depth (some f.type))
      members := note d.members f.name
        ((embeddedTarget types py depth (some f.type)).filter fun _ =>
          isIdentifier py struct && isIdentifier py f.name) }

def tables (t : Record) : Tables := t.members.foldl (addMember types py t.name) Tables.empty

/-- The loop over the structures: each table keeps the richest definition. -/
def addStruct (c : Types) (t : Record) : Types :=
  let d := tables types py t
  let cat := c.scalars.keep Dict.size t.name d.fields
  { scalars :=
      if c.embedded.larger Dict.size t.name d.members then cat.setDefault t.name Dict.empty else cat
    ptrTargets := c.ptrTargets.keep Dict.size t.name d.edges
    bitfields := c.bitfields.keep Dict.size t.name d.bfs
    embedded := c.embedded.keep Dict.size t.name d.members }

def noTypes : Types := ⟨Dict.empty, Dict.empty, Dict.empty, Dict.empty⟩

/-- The structures that have a name. -/
def structs : List Record :=
  (types.entries.map Prod.snd).filter fun t => t.kind = kindStruct ∧ t.name ≠ ""

/-- {lit}`build`, once the listing has been read. -/
def build : Types := (structs types).foldl (addStruct types py) noTypes

end Build

/-! ## Where an entry comes from -/

theorem note_get? {β : Type} (d : Dict String β) (name : String) (v : Option β) (k : String) :
    (note d name v).get? k = if k = name then v.or (d.get? k) else d.get? k := by
  cases v with
  | none => simp [note]
  | some w => simp [note, Dict.get?_set]

section Tables

variable {types : Listing} {py : Python}

/-- What a member gives to each table. -/
def scalarOf (types : Listing) (f : Field) : Option String :=
  if f.width ≠ 0 then none else widthName (sizeOf types depth (some f.type))

def edgeOf (types : Listing) (f : Field) : Option String :=
  if f.width ≠ 0 then none else ptrTarget types depth (some f.type)

def bitsOf (types : Listing) (f : Field) : Option Bitfield :=
  if f.width ≠ 0 then
    (widthName (sizeOf types depth (some f.type))).map fun unit =>
      bitfieldOf (sizeOf types depth (some f.type)) unit f
  else none

def memberOf (types : Listing) (py : Python) (struct : String) (f : Field) : Option String :=
  if f.width ≠ 0 then none
  else (embeddedTarget types py depth (some f.type)).filter fun _ =>
    isIdentifier py struct && isIdentifier py f.name

theorem addMember_eq (struct : String) (d : Tables) (f : Field) :
    addMember types py struct d f =
      { fields := note d.fields f.name (scalarOf types f)
        edges := note d.edges f.name (edgeOf types f)
        bfs := note d.bfs f.name (bitsOf types f)
        members := note d.members f.name (memberOf types py struct f) } := by
  unfold addMember scalarOf edgeOf bitsOf memberOf
  by_cases hwidth : f.width ≠ 0
  · simp only [if_pos hwidth, note]
  · simp only [if_neg hwidth, note]

theorem tables_eq (t : Record) :
    tables types py t =
      { fields := t.members.foldl (fun d f => note d f.name (scalarOf types f)) Dict.empty
        edges := t.members.foldl (fun d f => note d f.name (edgeOf types f)) Dict.empty
        bfs := t.members.foldl (fun d f => note d f.name (bitsOf types f)) Dict.empty
        members := t.members.foldl (fun d f => note d f.name (memberOf types py t.name f))
          Dict.empty } := by
  have hrun : ∀ (fields : List Field) (d : Tables),
      fields.foldl (addMember types py t.name) d =
        { fields := fields.foldl (fun d f => note d f.name (scalarOf types f)) d.fields
          edges := fields.foldl (fun d f => note d f.name (edgeOf types f)) d.edges
          bfs := fields.foldl (fun d f => note d f.name (bitsOf types f)) d.bfs
          members := fields.foldl (fun d f => note d f.name (memberOf types py t.name f))
            d.members } := by
    intro fields
    induction fields with
    | nil => exact fun d => rfl
    | cons f rest ih =>
        intro d
        rw [List.foldl_cons, ih, addMember_eq]
        rfl
  exact hrun t.members Tables.empty

/-- An entry of a table of a structure comes from one of its members. -/
theorem foldl_note_get? {β : Type} {give : Field → Option β} {fields : List Field}
    {d : Dict String β} {k : String} {v : β}
    (h : (fields.foldl (fun d f => note d f.name (give f)) d).get? k = some v) :
    d.get? k = some v ∨ ∃ f ∈ fields, f.name = k ∧ give f = some v := by
  induction fields generalizing d with
  | nil => exact Or.inl h
  | cons f rest ih =>
      rw [List.foldl_cons] at h
      rcases ih h with hd | ⟨g, hg, hname, hgive⟩
      · rw [note_get?] at hd
        by_cases hk : k = f.name
        · rw [if_pos hk] at hd
          cases hgive : give f with
          | none =>
              rw [hgive, Option.none_or] at hd
              exact Or.inl hd
          | some w =>
              rw [hgive, Option.some_or] at hd
              exact Or.inr ⟨f, List.mem_cons_self, hk.symm, hgive.trans hd⟩
        · rw [if_neg hk] at hd
          exact Or.inl hd
      · exact Or.inr ⟨g, List.mem_cons_of_mem f hg, hname, hgive⟩

theorem foldl_note_empty {β : Type} {give : Field → Option β} {fields : List Field} {k : String}
    {v : β} (h : (fields.foldl (fun d f => note d f.name (give f)) Dict.empty).get? k = some v) :
    ∃ f ∈ fields, f.name = k ∧ give f = some v := by
  rcases foldl_note_get? h with hempty | hmem
  · exact nomatch hempty
  · exact hmem

end Tables

/-! ## Which definition is in a table -/

/-- The definition of a name that a table keeps: the first that gives it the most entries. -/
def KeptIn {β : Type} (types : Listing) (table : Record → Dict String β) (name : String)
    (t : Record) : Prop :=
  Largest Record.name (fun t => (table t).size) (structs types) name t

section Kept

variable {types : Listing} {py : Python} {name : String}

theorem build_ptrTargets {d : Dict String String} :
    (build types py).ptrTargets.get? name = some d ↔
      ∃ t, KeptIn types (fun t => (tables types py t).edges) name t ∧
        (tables types py t).edges = d := by
  have hfold : (build types py).ptrTargets = (structs types).foldl
      (fun d t => d.keep Dict.size t.name (tables types py t).edges) Dict.empty :=
    (List.foldl_hom Types.ptrTargets fun _ _ => rfl).symm
  rw [hfold, Dict.get?_foldl_keep]
  rfl

theorem build_bitfields {d : Dict String Bitfield} :
    (build types py).bitfields.get? name = some d ↔
      ∃ t, KeptIn types (fun t => (tables types py t).bfs) name t ∧
        (tables types py t).bfs = d := by
  have hfold : (build types py).bitfields = (structs types).foldl
      (fun d t => d.keep Dict.size t.name (tables types py t).bfs) Dict.empty :=
    (List.foldl_hom Types.bitfields fun _ _ => rfl).symm
  rw [hfold, Dict.get?_foldl_keep]
  rfl

theorem build_embedded {d : Dict String String} :
    (build types py).embedded.get? name = some d ↔
      ∃ t, KeptIn types (fun t => (tables types py t).members) name t ∧
        (tables types py t).members = d := by
  have hfold : (build types py).embedded = (structs types).foldl
      (fun d t => d.keep Dict.size t.name (tables types py t).members) Dict.empty :=
    (List.foldl_hom Types.embedded fun _ _ => rfl).symm
  rw [hfold, Dict.get?_foldl_keep]
  rfl

/-- A structure that is there for what is embedded in it has no scalar yet. -/
theorem addStruct_scalars {c : Types} {d : Dict String (Dict String String)}
    (h : Dict.SameFilled Dict.size c.scalars d) (t : Record) :
    Dict.SameFilled Dict.size (addStruct types py c t).scalars
      (d.keep Dict.size t.name (tables types py t).fields) := by
  have hkeep := h.keep t.name (tables types py t).fields
  change Dict.SameFilled Dict.size (if _ then _ else _) _
  split
  · exact hkeep.setDefault t.name rfl
  · exact hkeep

theorem build_scalars {d : Dict String String} (hd : 0 < d.size) :
    (build types py).scalars.get? name = some d ↔
      ∃ t, KeptIn types (fun t => (tables types py t).fields) name t ∧
        (tables types py t).fields = d := by
  have hrun : ∀ (ts : List Record) (c : Types) (d : Dict String (Dict String String)),
      Dict.SameFilled Dict.size c.scalars d →
      Dict.SameFilled Dict.size (ts.foldl (addStruct types py) c).scalars
        (ts.foldl (fun d t => d.keep Dict.size t.name (tables types py t).fields) d) := by
    intro ts
    induction ts with
    | nil => exact fun c d h => h
    | cons t rest ih =>
        intro c d h
        rw [List.foldl_cons, List.foldl_cons]
        exact ih _ _ (addStruct_scalars h t)
  have hsame := hrun (structs types) noTypes Dict.empty (fun k => rfl) name
  rw [← build] at hsame
  have hkept := @Dict.get?_foldl_keep _ _ _ _ Record.name (fun t => (tables types py t).fields)
    Dict.size (structs types) name d
  rw [← hsame, Option.filter_eq_some_iff] at hkept
  simp only [decide_eq_true hd, and_true] at hkept
  exact hkept

end Kept

end Catalog
end LiveSurface
