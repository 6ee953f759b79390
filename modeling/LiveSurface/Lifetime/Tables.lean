import LiveSurface.Lifetime.State
import Mathlib.Data.Finset.Card

/-!
# What the shared tables hold

{lit}`life_state` holds at most one row of counters, and {lit}`life_objects` at most one
object for each address.

Main results:

- Theorem {lit}`Counters.lookup`, theorem {lit}`Counters.put` and theorem {lit}`Counters.set`:
  the uses of {lit}`life_state`.
- Theorem {lit}`Objects.lookup`, theorem {lit}`Objects.put` and theorem {lit}`Objects.set`:
  the uses of {lit}`life_objects`.
-/

namespace LiveSurface
namespace Lifetime

open Map

/-- {lit}`life_state` holds these counters. -/
structure Counters (m : LsMap) (c : Option LifeState) : Prop where
  sized : Sized m 4 32 1
  keys : ∀ key, contents m key ≠ none → key = zeroKey
  row : contents m zeroKey = c.map LifeState.bytes

/-- {lit}`life_objects` holds these objects. -/
structure Objects (m : LsMap) (o : UInt64 → Option LifeObject) : Prop where
  sized : Sized m 8 32 256
  keys : ∀ key, contents m key ≠ none → ∃ a, key = keyBytes a
  row : ∀ a, contents m (keyBytes a) = (o a).map LifeObject.bytes

section Counters

variable {m : LsMap} {c : Option LifeState} {s : LifeState} {off : Nat}

theorem counters_empty : Counters LifeMaps.empty.state none := by
  obtain ⟨hsized, hempty, -⟩ := sized_new (rfl : lifeStateDef.type = lsMapTypeHash) (by decide)
  have hnone : ∀ key, contents LifeMaps.empty.state key = none := fun key => congrFun hempty key
  exact ⟨hsized, fun key hkey => (hkey (hnone key)).elim, hnone zeroKey⟩

theorem Counters.same {m' : LsMap} (h : Counters m c) (hsized : Sized m' 4 32 1)
    (hsame : Same m m') : Counters m' c :=
  ⟨hsized, by rw [hsame.contents_eq]; exact h.keys, by rw [hsame.contents_eq]; exact h.row⟩

/-- A lookup that finds no counters. -/
theorem Counters.lookup_none (h : Counters m none) :
    ∃ m', lsMapLookup m zeroKey = (none, m') ∧ Counters m' none ∧ m'.evictions = m.evictions := by
  obtain ⟨m', hlookup, hsized, hsame⟩ := lookup_absent h.sized h.row
  exact ⟨m', hlookup, h.same hsized hsame, hsame.evictions_eq⟩

/-- A lookup of the counters. -/
theorem Counters.lookup (h : Counters m (some s)) :
    ∃ off m', lsMapLookup m zeroKey = (some off, m') ∧ Counters m' (some s) ∧
      m'.evictions = m.evictions ∧ RowAt m' zeroKey off ∧ stateAt m' off = s := by
  obtain ⟨off, m', hlookup, hsized, hsame, hoff, hrow⟩ := lookup_present h.sized h.row
  refine ⟨off, m', hlookup, h.same hsized hsame, hsame.evictions_eq, hoff, ?_⟩
  rw [stateAt, hrow, LifeState.ofBytes_bytes]

theorem Counters.stateAt_eq (h : Counters m (some s)) (hoff : RowAt m zeroKey off) :
    stateAt m off = s := by
  have hrow := hoff.contents h.sized.wellFormed
  rw [h.row] at hrow
  rw [stateAt, ← Option.some.inj hrow, LifeState.ofBytes_bytes]

/-- New counters. -/
theorem Counters.put (h : Counters m c) (s : LifeState) :
    ∃ m', lsMapUpdate m zeroKey s.bytes = (true, m') ∧ Counters m' (some s) ∧
      m'.evictions = m.evictions := by
  have hroom : contents m zeroKey ≠ none ∨ usedCells m < 1 := by
    by_cases hrow : contents m zeroKey = none
    · have hle : usedCells m ≤ (∅ : Finset (List UInt8)).card := by
        refine usedCells_le h.sized.wellFormed fun key hkey => ?_
        rw [h.keys key hkey] at hkey
        exact (hkey hrow).elim
      rw [Finset.card_empty] at hle
      exact .inr (by omega)
    · exact .inl hrow
  obtain ⟨hok, hsized, hcontents, hevictions⟩ := put_row h.sized length_zeroKey s.length_bytes hroom
  refine ⟨_, Prod.ext hok rfl, ⟨hsized, fun key hkey => ?_, ?_⟩, hevictions⟩
  · by_contra hne
    rw [hcontents, Function.update_of_ne hne] at hkey
    exact hne (h.keys key hkey)
  · rw [hcontents, Function.update_self]
    rfl

/-- Counters written through a pointer. -/
theorem Counters.set (h : Counters m c) (hoff : RowAt m zeroKey off) (s : LifeState) :
    Counters (setRow m off s.bytes) (some s) ∧
      (setRow m off s.bytes).evictions = m.evictions ∧
      RowAt (setRow m off s.bytes) zeroKey off := by
  obtain ⟨hsized, hcontents, hevictions, -, hrowAt⟩ := setRow_spec h.sized hoff s.length_bytes
  refine ⟨⟨hsized, fun key hkey => ?_, ?_⟩, hevictions, hrowAt _ _ hoff⟩
  · by_contra hne
    rw [hcontents, Function.update_of_ne hne] at hkey
    exact hne (h.keys key hkey)
  · rw [hcontents, Function.update_self]
    rfl

end Counters

section Objects

variable {m : LsMap} {o : UInt64 → Option LifeObject} {a : UInt64} {x : LifeObject} {off : Nat}

theorem objects_empty : Objects LifeMaps.empty.objects fun _ => none := by
  obtain ⟨hsized, hempty, -⟩ := sized_new (rfl : lifeObjectsDef.type = lsMapTypeHash) (by decide)
  have hnone : ∀ key, contents LifeMaps.empty.objects key = none := fun key => congrFun hempty key
  exact ⟨hsized, fun key hkey => (hkey (hnone key)).elim, fun a => hnone (keyBytes a)⟩

theorem Objects.same {m' : LsMap} (h : Objects m o) (hsized : Sized m' 8 32 256)
    (hsame : Same m m') : Objects m' o :=
  ⟨hsized, by rw [hsame.contents_eq]; exact h.keys, by rw [hsame.contents_eq]; exact h.row⟩

/-- A lookup of an address without an object. -/
theorem Objects.lookup_none (h : Objects m o) (ha : o a = none) :
    ∃ m', lsMapLookup m (keyBytes a) = (none, m') ∧ Objects m' o ∧
      m'.evictions = m.evictions := by
  have hrow := h.row a
  rw [ha] at hrow
  obtain ⟨m', hlookup, hsized, hsame⟩ := lookup_absent h.sized hrow
  exact ⟨m', hlookup, h.same hsized hsame, hsame.evictions_eq⟩

/-- A lookup of an object. -/
theorem Objects.lookup (h : Objects m o) (ha : o a = some x) :
    ∃ off m', lsMapLookup m (keyBytes a) = (some off, m') ∧ Objects m' o ∧
      m'.evictions = m.evictions ∧ RowAt m' (keyBytes a) off ∧ objectAt m' off = x := by
  have hrow := h.row a
  rw [ha] at hrow
  obtain ⟨off, m', hlookup, hsized, hsame, hoff, hbytes⟩ := lookup_present h.sized hrow
  refine ⟨off, m', hlookup, h.same hsized hsame, hsame.evictions_eq, hoff, ?_⟩
  rw [objectAt, hbytes, LifeObject.ofBytes_bytes]

/-- A table with fewer addresses than cells has a free one. -/
theorem Objects.usedCells_lt (h : Objects m o) {known : Finset UInt64}
    (hknown : ∀ a, o a ≠ none → a ∈ known) (hcard : known.card < 256) : usedCells m < 256 := by
  have hle : usedCells m ≤ (known.image keyBytes).card := by
    refine usedCells_le h.sized.wellFormed fun key hkey => ?_
    obtain ⟨a, rfl⟩ := h.keys key hkey
    refine Finset.mem_image_of_mem keyBytes (hknown a fun hnone => ?_)
    rw [h.row a, hnone] at hkey
    exact hkey rfl
  exact Nat.lt_of_le_of_lt (hle.trans Finset.card_image_le) hcard

/-- A new object, while a cell is free. -/
theorem Objects.put (h : Objects m o) (hroom : o a ≠ none ∨ usedCells m < 256) (x : LifeObject) :
    ∃ m', lsMapUpdate m (keyBytes a) x.bytes = (true, m') ∧
      Objects m' (Function.update o a (some x)) ∧ m'.evictions = m.evictions := by
  have hroom' : contents m (keyBytes a) ≠ none ∨ usedCells m < 256 := by
    rcases hroom with hpresent | hcells
    · refine .inl ?_
      obtain ⟨y, hy⟩ := Option.ne_none_iff_exists'.mp hpresent
      rw [h.row a, hy]
      exact Option.some_ne_none _
    · exact .inr hcells
  obtain ⟨hok, hsized, hcontents, hevictions⟩ :=
    put_row h.sized (length_keyBytes a) x.length_bytes hroom'
  refine ⟨_, Prod.ext hok rfl, ⟨hsized, fun key hkey => ?_, fun b => ?_⟩, hevictions⟩
  · by_cases hk : key = keyBytes a
    · exact ⟨a, hk⟩
    · rw [hcontents, Function.update_of_ne hk] at hkey
      exact h.keys key hkey
  · rw [hcontents]
    by_cases hb : b = a
    · rw [hb, Function.update_self, Function.update_self]
      rfl
    · rw [Function.update_of_ne (fun heq => hb (keyBytes_injective heq)),
        Function.update_of_ne hb]
      exact h.row b

/-- An object written through a pointer. -/
theorem Objects.set (h : Objects m o) (hoff : RowAt m (keyBytes a) off) (x : LifeObject) :
    Objects (setRow m off x.bytes) (Function.update o a (some x)) ∧
      (setRow m off x.bytes).evictions = m.evictions := by
  obtain ⟨hsized, hcontents, hevictions, -, -⟩ := setRow_spec h.sized hoff x.length_bytes
  refine ⟨⟨hsized, fun key hkey => ?_, fun b => ?_⟩, hevictions⟩
  · by_cases hk : key = keyBytes a
    · exact ⟨a, hk⟩
    · rw [hcontents, Function.update_of_ne hk] at hkey
      exact h.keys key hkey
  · rw [hcontents]
    by_cases hb : b = a
    · rw [hb, Function.update_self, Function.update_self]
      rfl
    · rw [Function.update_of_ne (fun heq => hb (keyBytes_injective heq)),
        Function.update_of_ne hb]
      exact h.row b

end Objects

end Lifetime
end LiveSurface
