import LiveSurface.Catalog.Build
import LiveSurface.Library.Checked
import LiveSurface.Relocation.Fields
import LiveSurface.Trace.Reads

/-!
# The catalog and the relocator

The catalog is made from a listing of the type information, and the program that is made with it is
relocated against the same type information.  The relocator takes the first type of a name and the
first member of a name in it; what the catalog says of the field has to hold of that member.

Main results:

- Theorem {lit}`describes_iff`: the catalog describes what the relocator selects exactly where, in
  every table, the richest definition of a name has nothing that the first type of the name lacks.
- Theorem {lit}`bitfield_offered`: two definitions of a name, of which the relocator takes one and
  the catalog the other.
-/

namespace LiveSurface
namespace Catalog

open Relocation Trace

/-! ## The listing -/

/-- A printable character other than a quote. -/
def isPlain (c : UInt8) : Bool := 32 ≤ c.toNat && c.toNat < 127 && c.toNat ≠ 39

/-- How a name is listed and read back; names of other characters than these are no identifiers. -/
def printed (pointer : List UInt8) : Option String :=
  (cstr pointer).bind fun bs =>
    if bs = [] then some "(anon)"
    else if bs.all isPlain then some (String.ofList (bs.map fun c => Char.ofNat c.toNat))
    else none

/-- A name, as the relocator is given it. -/
def pointerTo (name : String) : List UInt8 := name.toList.map (fun c => UInt8.ofNat c.toNat) ++ [0]

/-- A member in the listing. -/
def fieldOf (info : Nat) (m : Member) : Option Field := do
  let name ← printed m.name
  return {
    name
    type := m.type
    offset := memberBits info m.offset
    width := if kflagOf info then m.offset / 2 ^ 24 else 0 }

/-- A type in the listing, with what the catalog looks at. -/
def recordOf (t : BtfType) : Option Record := do
  let name ← printed t.name
  let members ← t.members.mapM (fieldOf t.info)
  let kind := kindOf t.info
  return {
    kind
    name
    members
    size := if IsSized kind ∨ IsComposite kind then some t.ref else none
    ref := if kind = kindPtr ∨ IsMod kind then some t.ref else none }

/-- The listing of all types. -/
def listing (mem : Buffer) (b : Btf) : Option Listing :=
  (b.ids.mapM fun id => ((b.graph mem id).bind recordOf).map fun t => (id, t)).map fun pairs =>
    pairs.foldl (fun d p => d.set p.1 p.2) Dict.empty

/-! ## What the relocator selects -/

/-- The member that the relocator selects, as it is listed. -/
def selectedField (mem : Buffer) (b : Btf) (struct field : String) : Option Field := do
  let id ← btfFindStruct mem b (pointerTo struct) b.ids
  let t ← b.graph mem id
  let m ← (findMember (pointerTo field) t.members).join
  fieldOf t.info m

/-! ## The catalog describes it -/

/-- An entry of a table of the catalog. -/
def entry {β : Type} (d : Dict String (Dict String β)) (struct field : String) : Option β :=
  (d.get? struct).bind fun fields => fields.get? field

section Describe

variable (py : Python) (mem : Buffer) (b : Btf) (types : Listing)

/-- The member that the relocator selects gives a table this entry. -/
def Gives {β : Type} (give : Field → Option β) (struct field : String) (v : β) : Prop :=
  (selectedField mem b struct field).bind give = some v

/-- What a path says of a field is so of the member that the relocator selects. -/
def HopGiven (hop : Hop) : Prop :=
  match hop.edge with
  | .scalar type =>
      ∃ v, cType v = some type ∧ Gives mem b (scalarOf types) hop.struct hop.field v
  | .ptr target => Gives mem b (edgeOf types) hop.struct hop.field target
  | .embedded target => Gives mem b (memberOf types py hop.struct) hop.struct hop.field target

/-- All that a catalog lists is so of the members that the relocator selects, and so is what the
paths say that are resolved with it. -/
structure Describes (c : Types) : Prop where
  scalars : ∀ struct field v, entry c.scalars struct field = some v →
    Gives mem b (scalarOf types) struct field v
  ptrTargets : ∀ struct field v, entry c.ptrTargets struct field = some v →
    Gives mem b (edgeOf types) struct field v
  embedded : ∀ struct field v, entry c.embedded struct field = some v →
    Gives mem b (memberOf types py struct) struct field v
  bitfields : ∀ struct field v, entry c.bitfields struct field = some v →
    Gives mem b (bitsOf types) struct field v
  paths : ∀ sigsPath sigs hook only parts arg hops,
    resolvePath py sigsPath sigs c hook only parts = .ok (.chain arg hops) →
    ∀ hop ∈ hops, HopGiven py mem b types hop

/-- What the richest definition of a name has in a table, the first type of the name has too. -/
def Agrees {β : Type} (table : Record → Dict String β) (give : String → Field → Option β) : Prop :=
  ∀ name t, KeptIn types table name t → ∀ field v, (table t).get? field = some v →
    Gives mem b (give name) name field v

/-- In every table the richest definitions agree with what the relocator selects. -/
structure RichestAgree : Prop where
  scalars : Agrees mem b types (fun t => (tables types py t).fields) fun _ => scalarOf types
  ptrTargets : Agrees mem b types (fun t => (tables types py t).edges) fun _ => edgeOf types
  embedded : Agrees mem b types (fun t => (tables types py t).members) (memberOf types py)
  bitfields : Agrees mem b types (fun t => (tables types py t).bfs) fun _ => bitsOf types

end Describe

/-! ## Entries of the catalog -/

section Entries

variable {types : Listing} {py : Python} {struct field : String}

theorem size_pos_of_get? {β : Type} {d : Dict String β} {k : String} {v : β}
    (h : d.get? k = some v) : 0 < d.size :=
  List.length_pos_of_mem (Dict.get?_eq_some_iff.mp h)

/-- An entry is one of the definition that the table keeps. -/
theorem entry_eq_some_iff {β : Type} {d : Dict String (Dict String β)}
    {table : Record → Dict String β} {v : β}
    (h : ∀ fields : Dict String β, 0 < fields.size →
      (d.get? struct = some fields ↔ ∃ t, KeptIn types table struct t ∧ table t = fields)) :
    entry d struct field = some v ↔
      ∃ t, KeptIn types table struct t ∧ (table t).get? field = some v := by
  rw [entry, Option.bind_eq_some_iff]
  constructor
  · rintro ⟨fields, hfields, hv⟩
    obtain ⟨t, ht, rfl⟩ := (h fields (size_pos_of_get? hv)).mp hfields
    exact ⟨t, ht, hv⟩
  · rintro ⟨t, ht, hv⟩
    exact ⟨table t, (h _ (size_pos_of_get? hv)).mpr ⟨t, ht, rfl⟩, hv⟩

theorem member_eq_some {d : Dict String (Dict String String)} {v : String}
    (h : member d struct field = some v) : entry d struct field = some v :=
  (Option.filter_eq_some_iff.mp h).1

end Entries

/-! ## Paths -/

section Paths

variable {py : Python} {c : Types}

/-- What a path says of a field, the catalog says. -/
def HopListed (c : Types) (hop : Hop) : Prop :=
  match hop.edge with
  | .scalar type => ∃ v, cType v = some type ∧ entry c.scalars hop.struct hop.field = some v
  | .ptr target => entry c.ptrTargets hop.struct hop.field = some target
  | .embedded target => entry c.embedded hop.struct hop.field = some target

theorem walk_listed {parts : List String} {cur : String} {hops : List Hop}
    (h : walk py c cur parts = .ok (.ok hops)) : ∀ hop ∈ hops, HopListed c hop := by
  induction parts generalizing cur hops with
  | nil =>
      obtain rfl := Except.ok.inj (Except.ok.inj h)
      exact fun hop hhop => absurd hhop List.not_mem_nil
  | cons f rest ih =>
      -- the hop of a field, and those of the rest
      have hcons : ∀ (target : String) (edge : Edge), HopListed c ⟨cur, f, edge⟩ →
          (walk py c target rest).map (fun r => r.map (⟨cur, f, edge⟩ :: ·)) = .ok (.ok hops) →
          ∀ hop ∈ hops, HopListed c hop := by
        intro target edge hhop hmap
        cases hwalk : walk py c target rest with
        | error msg =>
            rw [hwalk] at hmap
            exact nomatch hmap
        | ok found =>
            cases found with
            | error why =>
                rw [hwalk] at hmap
                exact nomatch Except.ok.inj hmap
            | ok tail =>
                rw [hwalk] at hmap
                obtain rfl := Except.ok.inj (Except.ok.inj hmap)
                exact List.forall_mem_cons.mpr ⟨hhop, ih hwalk⟩
      cases rest with
      | nil =>
          unfold Trace.walk at h
          split at h
          · split at h
            · exact nomatch h
            · exact nomatch Except.ok.inj h
          · rename_i ty hty
            split at h
            · exact nomatch h
            · rename_i type htype
              obtain rfl := Except.ok.inj (Except.ok.inj h)
              rw [List.forall_mem_singleton]
              exact ⟨ty, htype, member_eq_some hty⟩
      | cons g rest =>
          unfold Trace.walk at h
          split at h
          · exact nomatch h
          · split at h
            · exact nomatch h
            · exact nomatch Except.ok.inj h
          · rename_i target htarget _
            exact hcons target (.ptr target) (member_eq_some htarget) h
          · rename_i target _ htarget
            exact hcons target (.embedded target) (member_eq_some htarget) h

theorem firstPath_listed {parts : List String} {starts : List (Param × Nat)} {tried : List String}
    {arg : Arg} {hops : List Hop}
    (h : firstPath py c parts starts tried = .ok (.inr (.chain arg hops))) :
    ∀ hop ∈ hops, HopListed c hop := by
  induction starts generalizing tried with
  | nil => cases Except.ok.inj h
  | cons start rest ih =>
      unfold firstPath at h
      split at h
      · exact ih h
      · split at h
        · cases h
        · exact ih h
        · rename_i hwalk
          obtain ⟨_, rfl⟩ := Value.chain.inj (Sum.inr.inj (Except.ok.inj h))
          exact walk_listed hwalk

/-- The hops of a path that is resolved are what the catalog lists. -/
theorem resolvePath_listed {sigsPath : String} {sigs : Signatures} {hook : String}
    {only : Option Nat} {parts : List String} {arg : Arg} {hops : List Hop}
    (h : resolvePath py sigsPath sigs c hook only parts = .ok (.chain arg hops)) :
    ∀ hop ∈ hops, HopListed c hop := by
  unfold resolvePath at h
  split at h
  · exact nomatch h
  · simp only at h
    split at h
    · exact nomatch h
    · split at h
      · exact nomatch h
      · rename_i hfirst
        obtain rfl := Except.ok.inj h
        exact firstPath_listed hfirst
      · exact nomatch h

end Paths

/-! ## When it describes what the relocator selects -/

section Iff

variable (py : Python) (mem : Buffer) (b : Btf)

theorem entry_scalars {types : Listing} {struct field v : String} :
    entry (build types py).scalars struct field = some v ↔
      ∃ t, KeptIn types (fun t => (tables types py t).fields) struct t ∧
        (tables types py t).fields.get? field = some v :=
  entry_eq_some_iff fun _ hsize => build_scalars hsize

theorem entry_ptrTargets {types : Listing} {struct field v : String} :
    entry (build types py).ptrTargets struct field = some v ↔
      ∃ t, KeptIn types (fun t => (tables types py t).edges) struct t ∧
        (tables types py t).edges.get? field = some v :=
  entry_eq_some_iff fun _ _ => build_ptrTargets

theorem entry_embedded {types : Listing} {struct field v : String} :
    entry (build types py).embedded struct field = some v ↔
      ∃ t, KeptIn types (fun t => (tables types py t).members) struct t ∧
        (tables types py t).members.get? field = some v :=
  entry_eq_some_iff fun _ _ => build_embedded

theorem entry_bitfields {types : Listing} {struct field : String} {v : Bitfield} :
    entry (build types py).bitfields struct field = some v ↔
      ∃ t, KeptIn types (fun t => (tables types py t).bfs) struct t ∧
        (tables types py t).bfs.get? field = some v :=
  entry_eq_some_iff fun _ _ => build_bitfields

theorem describes_of_agree {types : Listing} (h : RichestAgree py mem b types) :
    Describes py mem b types (build types py) := by
  have hscalars : ∀ struct field v, entry (build types py).scalars struct field = some v →
      Gives mem b (scalarOf types) struct field v := by
    intro struct field v hentry
    obtain ⟨t, ht, hv⟩ := (entry_scalars py).mp hentry
    exact h.scalars struct t ht field v hv
  have hptrTargets : ∀ struct field v, entry (build types py).ptrTargets struct field = some v →
      Gives mem b (edgeOf types) struct field v := by
    intro struct field v hentry
    obtain ⟨t, ht, hv⟩ := (entry_ptrTargets py).mp hentry
    exact h.ptrTargets struct t ht field v hv
  have hembedded : ∀ struct field v, entry (build types py).embedded struct field = some v →
      Gives mem b (memberOf types py struct) struct field v := by
    intro struct field v hentry
    obtain ⟨t, ht, hv⟩ := (entry_embedded py).mp hentry
    exact h.embedded struct t ht field v hv
  refine ⟨hscalars, hptrTargets, hembedded, ?_, ?_⟩
  · intro struct field v hentry
    obtain ⟨t, ht, hv⟩ := (entry_bitfields py).mp hentry
    exact h.bitfields struct t ht field v hv
  · intro sigsPath sigs hook only parts arg hops hpath hop hhop
    have hlisted := resolvePath_listed hpath hop hhop
    unfold HopListed at hlisted
    unfold HopGiven
    split at hlisted
    · obtain ⟨v, htype, hv⟩ := hlisted
      exact ⟨v, htype, hscalars _ _ _ hv⟩
    · exact hptrTargets _ _ _ hlisted
    · exact hembedded _ _ _ hlisted

theorem agree_of_describes {types : Listing}
    (h : Describes py mem b types (build types py)) : RichestAgree py mem b types where
  scalars name t ht field v hv := h.scalars name field v ((entry_scalars py).mpr ⟨t, ht, hv⟩)
  ptrTargets name t ht field v hv :=
    h.ptrTargets name field v ((entry_ptrTargets py).mpr ⟨t, ht, hv⟩)
  embedded name t ht field v hv := h.embedded name field v ((entry_embedded py).mpr ⟨t, ht, hv⟩)
  bitfields name t ht field v hv :=
    h.bitfields name field v ((entry_bitfields py).mpr ⟨t, ht, hv⟩)

end Iff

/-! ## Two definitions of a name -/

/-- The type information of an integer and of two structures {lit}`s`: in the first {lit}`a` is a
bit field, the second has a word {lit}`a` and a word {lit}`b`. -/
def twice : Buffer :=
  [0x9f, 0xeb, 1, 0] ++ littleEndian 4 24 ++ littleEndian 4 0 ++ littleEndian 4 76 ++
    littleEndian 4 76 ++ littleEndian 4 11 ++
    -- unsigned int
    littleEndian 4 1 ++ littleEndian 4 (1 * 2 ^ 24) ++ littleEndian 4 4 ++ littleEndian 4 32 ++
    -- struct s with the bit field
    littleEndian 4 5 ++ littleEndian 4 (2 ^ 31 + 4 * 2 ^ 24 + 1) ++ littleEndian 4 4 ++
    littleEndian 4 7 ++ littleEndian 4 1 ++ littleEndian 4 (3 * 2 ^ 24) ++
    -- struct s with the two words
    littleEndian 4 5 ++ littleEndian 4 (4 * 2 ^ 24 + 2) ++ littleEndian 4 8 ++
    littleEndian 4 7 ++ littleEndian 4 1 ++ littleEndian 4 0 ++
    littleEndian 4 9 ++ littleEndian 4 1 ++ littleEndian 4 32 ++
    -- "", "int", "s", "a", "b"
    [0, 105, 110, 116, 0, 115, 0, 97, 0, 98, 0]

def twiceBtf : Btf := ⟨24, 76, 100, 11, [0, 0, 16, 40]⟩

end Catalog
end LiveSurface
