import LiveSurface.Library.Bits
import LiveSurface.Catalog.Build
import LiveSurface.Trace.Reads

/-!
# Where the bits of a field lie

The catalog describes a bit field by a unit of the size of its declared type: where the unit
starts, how far to shift it, and how many bits to keep.  The units of a type lie side by side, so a
field that starts in one of them may end in the next one; then its last bits are not in the unit.

Main results:

- Theorem {lit}`bits_select_iff`: the descriptions select the bits of their fields exactly where no
  field leaves the unit it starts in.
- Theorem {lit}`packed_cut`: a field of a packed structure that does.
-/

namespace LiveSurface
namespace Catalog

open Relocation Trace

/-- How many bytes a unit has. -/
def unitBytes : String → Nat
  | "u8" => 1
  | "u16" => 2
  | "u32" => 4
  | "u64" => 8
  | _ => 0

theorem unitBytes_widthName {s : Nat} {unit : String} (h : widthName s = some unit) :
    unitBytes unit = s ∧ 0 < s := by
  unfold widthName at h
  split at h
  all_goals
    first
    | contradiction
    | obtain rfl := Option.some.inj h
      decide

/-- A description stays in its unit, and selects the bits of a field in every image of the
structure. -/
def Selects (e : Bitfield) (f : Field) : Prop :=
  e.shift + e.width ≤ 8 * unitBytes e.unit ∧
    ∀ image : Memory,
      image.extract e.byte (unitBytes e.unit) e.shift e.width = image.bits f.offset f.width

/-- A field does not leave the unit of its declared type that it starts in. -/
def InUnit (types : Listing) (f : Field) : Prop :=
  f.offset % (8 * sizeOf types depth (some f.type)) + f.width ≤
    8 * sizeOf types depth (some f.type)

instance (types : Listing) (f : Field) : Decidable (InUnit types f) :=
  inferInstanceAs (Decidable (_ ≤ _))

/-- A bit field whose declared type has one of the sizes of a unit. -/
def IsDescribed (types : Listing) (f : Field) : Prop :=
  f.width ≠ 0 ∧ (widthName (sizeOf types depth (some f.type))).isSome

theorem bitsOf_isSome_iff {types : Listing} {f : Field} :
    (bitsOf types f).isSome ↔ IsDescribed types f := by
  unfold bitsOf IsDescribed
  by_cases hwidth : f.width ≠ 0
  · rw [if_pos hwidth, Option.isSome_map, and_iff_right hwidth]
  · rw [if_neg hwidth, Option.isSome_none]
    exact iff_of_false Bool.false_ne_true fun h => hwidth h.1

/-- The unit starts at or before the field. -/
theorem bitfieldOf_offset (s : Nat) (unit : String) (f : Field) :
    8 * (bitfieldOf s unit f).byte + (bitfieldOf s unit f).shift = f.offset ∧
      (bitfieldOf s unit f).shift = f.offset % (8 * s) := by
  have hbyte : (bitfieldOf s unit f).byte * 8 = 8 * s * (f.offset / (8 * s)) := by
    change f.offset / (s * 8) * s * 8 = _
    rw [Nat.mul_comm 8 s, Nat.mul_assoc, Nat.mul_comm]
  have hshift : (bitfieldOf s unit f).shift = f.offset - (bitfieldOf s unit f).byte * 8 := rfl
  have hdiv := Nat.div_add_mod f.offset (8 * s)
  rw [hshift, hbyte]
  omega

/-- A description selects the bits of its field if and only if the field stays in its unit. -/
theorem selects_iff {types : Listing} {f : Field} {e : Bitfield} (h : bitsOf types f = some e) :
    Selects e f ↔ InUnit types f := by
  unfold bitsOf at h
  split at h
  · rename_i hwidth
    obtain ⟨unit, hunit, rfl⟩ := Option.map_eq_some_iff.mp h
    obtain ⟨hbytes, _⟩ := unitBytes_widthName hunit
    obtain ⟨hoffset, hshift⟩ := bitfieldOf_offset (sizeOf types depth (some f.type)) unit f
    have hunit' : (bitfieldOf (sizeOf types depth (some f.type)) unit f).unit = unit := rfl
    have hwidth' : (bitfieldOf (sizeOf types depth (some f.type)) unit f).width = f.width := rfl
    rw [Selects, InUnit, hunit', hwidth', hbytes, ← hshift]
    refine and_iff_left_of_imp fun hle => ?_
    rw [← hoffset]
    exact (Memory.extract_eq_iff (Nat.pos_of_ne_zero hwidth)).mpr hle
  · exact nomatch h

/-- What the catalog has of the bit fields under a name comes from a structure of the name. -/
theorem bitfields_from {types : Listing} {py : Python} {name field : String} {e : Bitfield}
    (h : (((build types py).bitfields.get? name).bind fun d => d.get? field) = some e) :
    ∃ t ∈ structs types, t.name = name ∧ ∃ f ∈ t.members, f.name = field ∧
      bitsOf types f = some e := by
  obtain ⟨d, hd, hfield⟩ := Option.bind_eq_some_iff.mp h
  obtain ⟨t, ht, rfl⟩ := build_bitfields.mp hd
  rw [tables_eq] at hfield
  exact ⟨t, ht.mem, ht.key_eq, foldl_note_empty hfield⟩

/-- The descriptions of the bit fields select their bits if and only if no field that is described
leaves the unit it starts in; and all of them are of this kind. -/
theorem bits_select_iff (types : Listing) (py : Python) :
    ((∀ t ∈ structs types, ∀ f ∈ t.members, ∀ e, bitsOf types f = some e → Selects e f) ↔
      ∀ t ∈ structs types, ∀ f ∈ t.members, IsDescribed types f → InUnit types f) ∧
    ∀ name field e, (((build types py).bitfields.get? name).bind fun d => d.get? field) = some e →
      ∃ t ∈ structs types, t.name = name ∧ ∃ f ∈ t.members, f.name = field ∧
        bitsOf types f = some e ∧ (Selects e f ↔ InUnit types f) := by
  constructor
  · constructor
    · intro h t ht f hf hdescribed
      obtain ⟨e, he⟩ := Option.isSome_iff_exists.mp (bitsOf_isSome_iff.mpr hdescribed)
      exact (selects_iff he).mp (h t ht f hf e he)
    · intro h t ht f hf e he
      exact (selects_iff he).mpr (h t ht f hf (bitsOf_isSome_iff.mp (he ▸ rfl)))
  · intro name field e h
    obtain ⟨t, ht, hname, f, hf, hfield, he⟩ := bitfields_from h
    exact ⟨t, ht, hname, f, hf, hfield, he, selects_iff he⟩

/-- A packed structure of two fields of 20 bits, both declared with a type of 32 bits. -/
def packed : Listing :=
  (Dict.empty.set 1 ⟨kindInt, "unsigned int", [], some 4, none⟩).set 2
    ⟨kindStruct, "p", [⟨"a", 1, 0, 20⟩, ⟨"b", 1, 20, 20⟩], some 5, none⟩

/-- The description of the second field has 12 of its 20 bits. -/
theorem packed_cut :
    ((build packed asciiPython).bitfields.get? "p").bind (fun d => d.get? "b") =
        some ⟨"u32", 0, 20, 20⟩ ∧
      ¬Selects ⟨"u32", 0, 20, 20⟩ ⟨"b", 1, 20, 20⟩ ∧
      Memory.extract (fun _ => 0xff) 0 4 20 20 = 2 ^ 12 - 1 ∧
      Memory.bits (fun _ => 0xff) 20 20 = 2 ^ 20 - 1 := by
  refine ⟨rfl, ?_, by decide, by decide⟩
  intro h
  have hle : 20 + 20 ≤ 8 * 4 := h.1
  omega

end Catalog
end LiveSurface
