import LiveSurface.Map.Rows

/-!
# Tables of typed rows

A program uses a table with keys and rows of one type each.  The table then holds a finite map
from keys to rows, and each use of it is an operation on that map.

Main results:

- Theorem {lit}`Table.lookup_none`, theorem {lit}`Table.lookup_some`, theorem {lit}`Table.put`
  and theorem {lit}`Table.set`: the uses of a table.
- Theorem {lit}`Table.usedCells_lt`: a table with fewer keys than cells has a free cell.
-/

namespace LiveSurface
namespace Map

/-- How keys and rows are laid out in a table. -/
structure RowLayout (κ α : Type) where
  key : κ → List UInt8
  row : α → List UInt8
  ofRow : List UInt8 → α
  keySz : Nat
  valSz : Nat
  length_key : ∀ k, (key k).length = keySz
  length_row : ∀ x, (row x).length = valSz
  key_injective : Function.Injective key
  ofRow_row : ∀ x, ofRow (row x) = x

/-- The table holds this map. -/
structure Table {κ α : Type} (l : RowLayout κ α) (entries : Nat) (m : LsMap) (o : κ → Option α) :
    Prop where
  sized : Sized m l.keySz l.valSz entries
  keys : ∀ key, contents m key ≠ none → ∃ k, key = l.key k
  row : ∀ k, contents m (l.key k) = (o k).map l.row

section Uses

variable {κ α : Type} {l : RowLayout κ α} {entries : Nat} {m : LsMap} {o : κ → Option α} {k : κ}
  {x : α} {off : Nat}

/-- A new table holds nothing. -/
theorem table_new {d : LsMapDef} (htype : d.type = lsMapTypeHash)
    (hcheck : lsMapCheckDescriptor d = true) (hkey : d.keySize = l.keySz)
    (hval : d.valueSize = l.valSz) :
    Table l d.maxEntries (mapOfDescriptor d) (fun _ => none) ∧ (mapOfDescriptor d).evictions = 0 := by
  obtain ⟨hsized, hempty, hevictions⟩ := sized_new htype hcheck
  rw [hkey, hval] at hsized
  have hnone : ∀ key, contents (mapOfDescriptor d) key = none := fun key => congrFun hempty key
  exact ⟨⟨hsized, fun key hkey => (hkey (hnone key)).elim, fun k => hnone (l.key k)⟩, hevictions⟩

theorem Table.same {m' : LsMap} (h : Table l entries m o) (hsized : Sized m' l.keySz l.valSz entries)
    (hsame : Same m m') : Table l entries m' o :=
  ⟨hsized, by rw [hsame.contents_eq]; exact h.keys, by rw [hsame.contents_eq]; exact h.row⟩

/-- The lookup of a key without a row. -/
theorem Table.lookup_none (h : Table l entries m o) (hk : o k = none) :
    ∃ m', lsMapLookup m (l.key k) = (none, m') ∧ Table l entries m' o ∧
      m'.evictions = m.evictions := by
  have hrow := h.row k
  rw [hk] at hrow
  obtain ⟨m', hlookup, hsized, hsame⟩ := lookup_absent h.sized hrow
  exact ⟨m', hlookup, h.same hsized hsame, hsame.evictions_eq⟩

/-- The lookup of a key with a row. -/
theorem Table.lookup_some (h : Table l entries m o) (hk : o k = some x) :
    ∃ off m', lsMapLookup m (l.key k) = (some off, m') ∧ Table l entries m' o ∧
      m'.evictions = m.evictions ∧ RowAt m' (l.key k) off ∧ l.ofRow (rowOf m' off) = x := by
  have hrow := h.row k
  rw [hk] at hrow
  obtain ⟨off, m', hlookup, hsized, hsame, hoff, hbytes⟩ := lookup_present h.sized hrow
  refine ⟨off, m', hlookup, h.same hsized hsame, hsame.evictions_eq, hoff, ?_⟩
  rw [hbytes, l.ofRow_row]

/-- The row that a pointer reaches. -/
theorem Table.ofRow_eq (h : Table l entries m o) (hoff : RowAt m (l.key k) off) (hk : o k = some x) :
    l.ofRow (rowOf m off) = x := by
  have hrow := hoff.contents h.sized.wellFormed
  rw [h.row k, hk] at hrow
  rw [← Option.some.inj hrow, l.ofRow_row]

/-- A table with fewer keys than cells has a free cell. -/
theorem Table.usedCells_lt [DecidableEq κ] (h : Table l entries m o) {known : Finset κ}
    (hknown : ∀ k, o k ≠ none → k ∈ known) (hcard : known.card < entries) :
    usedCells m < entries := by
  have hle : usedCells m ≤ (known.image l.key).card := by
    refine usedCells_le h.sized.wellFormed fun key hkey => ?_
    obtain ⟨k, rfl⟩ := h.keys key hkey
    refine Finset.mem_image_of_mem l.key (hknown k fun hnone => ?_)
    rw [h.row k, hnone] at hkey
    exact hkey rfl
  exact Nat.lt_of_le_of_lt (hle.trans Finset.card_image_le) hcard

/-- A map with one more row is what the table holds after the row was stored. -/
theorem Table.update [DecidableEq κ] {m' : LsMap} (h : Table l entries m o)
    (hsized : Sized m' l.keySz l.valSz entries)
    (hcontents : contents m' = Function.update (contents m) (l.key k) (some (l.row x))) :
    Table l entries m' (Function.update o k (some x)) := by
  refine ⟨hsized, fun key hkey => ?_, fun b => ?_⟩
  · by_cases hk : key = l.key k
    · exact ⟨k, hk⟩
    · rw [hcontents, Function.update_of_ne hk] at hkey
      exact h.keys key hkey
  · rw [hcontents]
    by_cases hb : b = k
    · rw [hb, Function.update_self, Function.update_self]
      rfl
    · rw [Function.update_of_ne (fun heq => hb (l.key_injective heq)), Function.update_of_ne hb]
      exact h.row b

/-- A new row, while a cell is free. -/
theorem Table.put [DecidableEq κ] (h : Table l entries m o) (hroom : usedCells m < entries) (x : α) :
    ∃ m', lsMapUpdate m (l.key k) (l.row x) = (true, m') ∧
      Table l entries m' (Function.update o k (some x)) ∧ m'.evictions = m.evictions := by
  obtain ⟨hok, hsized, hcontents, hevictions⟩ :=
    put_row h.sized (l.length_key k) (l.length_row x) (.inr hroom)
  exact ⟨_, Prod.ext hok rfl, h.update hsized hcontents, hevictions⟩

/-- A row written through a pointer. -/
theorem Table.set [DecidableEq κ] (h : Table l entries m o) (hoff : RowAt m (l.key k) off) (x : α) :
    Table l entries (setRow m off (l.row x)) (Function.update o k (some x)) ∧
      (setRow m off (l.row x)).evictions = m.evictions ∧
      RowAt (setRow m off (l.row x)) (l.key k) off := by
  obtain ⟨hsized, hcontents, hevictions, -, hrowAt⟩ := setRow_spec h.sized hoff (l.length_row x)
  exact ⟨h.update hsized hcontents, hevictions, hrowAt _ _ hoff⟩

end Uses

end Map
end LiveSurface
