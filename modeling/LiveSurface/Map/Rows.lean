import LiveSurface.Map.Refinement

/-!
# Rows of a table

A program looks a row up, reads it, and writes it through the pointer it was given.  A
table of which a bounded number of cells is in use never evicts.

Main results:

- Theorem {lit}`lookup_row`, theorem {lit}`setRow_spec` and theorem {lit}`put_row`: each use
  of a table as an operation on a finite map from keys to rows.
-/

namespace LiveSurface
namespace Map

/-- A table of the sizes that its declaration asks for. -/
structure Sized (m : LsMap) (keySz valSz entries : Nat) : Prop where
  wellFormed : m.WellFormed
  keySz_eq : m.keySz = keySz
  valSz_eq : m.valSz = valSz
  entries_eq : m.entries = entries

/-- A pointer to the row of a key. -/
def RowAt (m : LsMap) (key : List UInt8) (off : Nat) : Prop :=
  ∃ s, m.Holds key s ∧ off = s * lsMapValMax

/-- The row that a pointer reaches. -/
def rowOf (m : LsMap) (off : Nat) : List UInt8 := m.vals.load off m.valSz

/-- A row written through a pointer. -/
def setRow (m : LsMap) (off : Nat) (row : List UInt8) : LsMap :=
  { m with vals := m.vals.store off row }

/-- What a lookup leaves: a program sees the same table. -/
structure Same (m m' : LsMap) : Prop where
  contents_eq : contents m' = contents m
  evictions_eq : m'.evictions = m.evictions
  rowAt : ∀ key off, RowAt m key off → RowAt m' key off

/-- The number of cells in use. -/
def usedCells (m : LsMap) : Nat :=
  ((Finset.range lsMapEntries).filter fun s => m.used s = true).card

section Rows

variable {m : LsMap} {keySz valSz entries : Nat} {key row : List UInt8} {off : Nat}

theorem RowAt.contents (hm : m.WellFormed) (h : RowAt m key off) :
    contents m key = some (rowOf m off) := by
  obtain ⟨s, hs, rfl⟩ := h
  exact (contents_eq_some_iff hm).mpr ⟨s, hs, rfl⟩

/-- A new table has no rows. -/
theorem sized_new {d : LsMapDef} (htype : d.type = lsMapTypeHash)
    (hcheck : lsMapCheckDescriptor d = true) :
    Sized (mapOfDescriptor d) d.keySize d.valueSize d.maxEntries ∧
      (contents (mapOfDescriptor d) = fun _ => none) ∧ (mapOfDescriptor d).evictions = 0 := by
  have hshape := lsMapCheckDescriptor_hash hcheck htype
  have hnew : mapOfDescriptor d = { LsMap.zero with
      inUse := true, keySz := d.keySize, valSz := d.valueSize, entries := d.maxEntries } := by
    simp [mapOfDescriptor, htype, lsMapTypeHash, lsMapTypeRingbuf, lsMapTypePerfEventArray]
  have hm : (mapOfDescriptor d).WellFormed := by
    rw [hnew]
    refine ⟨rfl, hshape.2.1, hshape.2.2.2.1, hshape.2.2.2.2.1, hshape.2.2.2.2.2, ?_, ?_⟩
    · intro s hs
      contradiction
    · intro s t hs
      contradiction
  refine ⟨⟨hm, by rw [hnew], by rw [hnew], by rw [hnew]⟩, ?_, by rw [hnew]; rfl⟩
  funext key
  rw [contents_eq_none_iff hm, hnew]
  rintro s ⟨hused, -⟩
  contradiction

/-- A lookup returns a pointer to the row of a key, if there is one, and changes nothing a
program can see. -/
theorem lookup_row (hm : Sized m keySz valSz entries) (key : List UInt8) :
    Sized (lsMapLookup m key).2 keySz valSz entries ∧
      contents (lsMapLookup m key).2 = contents m ∧
      (lsMapLookup m key).2.evictions = m.evictions ∧
      usedCells (lsMapLookup m key).2 = usedCells m ∧
      ((lsMapLookup m key).1 = none → contents m key = none) ∧
      ∀ off, (lsMapLookup m key).1 = some off →
        RowAt (lsMapLookup m key).2 key off ∧
          contents m key = some (rowOf (lsMapLookup m key).2 off) := by
  obtain ⟨hwellFormed, hsame, hevictions⟩ := contents_lookup hm.wellFormed key
  obtain ⟨hits, misses, heq⟩ := lsMapLookup_snd m key
  refine ⟨⟨hwellFormed, ?_, ?_, ?_⟩, hsame, hevictions, by rw [heq]; rfl, ?_, ?_⟩
  · rw [heq]
    exact hm.keySz_eq
  · rw [heq]
    exact hm.valSz_eq
  · rw [heq]
    exact hm.entries_eq
  · intro hnone
    rw [contents, hnone]
    rfl
  · intro off hoff
    have hpoints : RowAt (lsMapLookup m key).2 key off := by
      simp only [lsMapLookup, hm.wellFormed.table, Bool.false_eq_true, if_false] at hoff
      cases hslot : lsMapSlot m key false with
      | none =>
          rw [hslot] at hoff
          contradiction
      | some s =>
          rw [hslot] at hoff
          refine ⟨s, ?_, (Option.some.inj hoff).symm⟩
          rw [heq]
          exact (lsMapSlot_eq_some_iff hm.wellFormed).mp hslot
    refine ⟨hpoints, ?_⟩
    rw [← hsame]
    exact hpoints.contents hwellFormed

/-- A lookup moves no row. -/
theorem lookup_same (hm : Sized m keySz valSz entries) (key : List UInt8) :
    Same m (lsMapLookup m key).2 := by
  obtain ⟨-, hsame, hevictions, -⟩ := lookup_row hm key
  refine ⟨hsame, hevictions, fun key' off h => ?_⟩
  obtain ⟨hits, misses, heq⟩ := lsMapLookup_snd m key
  rw [heq]
  exact h

/-- The lookup of a key that has a row. -/
theorem lookup_present (hm : Sized m keySz valSz entries) (hrow : contents m key = some row) :
    ∃ off m', lsMapLookup m key = (some off, m') ∧ Sized m' keySz valSz entries ∧ Same m m' ∧
      RowAt m' key off ∧ rowOf m' off = row := by
  obtain ⟨hsized, -, -, -, hnone, hsome⟩ := lookup_row hm key
  have hsame := lookup_same hm key
  rcases hlookup : lsMapLookup m key with ⟨found, m'⟩
  rw [hlookup] at hsized hnone hsome hsame
  cases found with
  | none =>
      rw [hnone rfl] at hrow
      exact (Option.some_ne_none _ hrow.symm).elim
  | some off =>
      obtain ⟨hpoints, hcontents⟩ := hsome off rfl
      rw [hrow] at hcontents
      exact ⟨off, m', rfl, hsized, hsame, hpoints, (Option.some.inj hcontents).symm⟩

/-- The lookup of a key that has no row. -/
theorem lookup_absent (hm : Sized m keySz valSz entries) (hrow : contents m key = none) :
    ∃ m', lsMapLookup m key = (none, m') ∧ Sized m' keySz valSz entries ∧ Same m m' := by
  obtain ⟨hsized, -, -, -, -, hsome⟩ := lookup_row hm key
  have hsame := lookup_same hm key
  rcases hlookup : lsMapLookup m key with ⟨found, m'⟩
  rw [hlookup] at hsized hsome hsame
  cases found with
  | none => exact ⟨m', rfl, hsized, hsame⟩
  | some off =>
      obtain ⟨-, hcontents⟩ := hsome off rfl
      rw [hrow] at hcontents
      exact (Option.some_ne_none _ hcontents.symm).elim

/-- A row written through a pointer replaces the row of its key. -/
theorem setRow_spec (hm : Sized m keySz valSz entries) (h : RowAt m key off)
    (hrow : row.length = valSz) :
    Sized (setRow m off row) keySz valSz entries ∧
      contents (setRow m off row) = Function.update (contents m) key (some row) ∧
      (setRow m off row).evictions = m.evictions ∧ usedCells (setRow m off row) = usedCells m ∧
      ∀ key' off', RowAt m key' off' → RowAt (setRow m off row) key' off' := by
  have hsized : Sized (setRow m off row) keySz valSz entries :=
    ⟨⟨hm.wellFormed.table, hm.wellFormed.keySz_le, hm.wellFormed.valSz_le,
      hm.wellFormed.entries_pos, hm.wellFormed.entries_le, hm.wellFormed.used_lt,
      hm.wellFormed.distinct⟩, hm.keySz_eq, hm.valSz_eq, hm.entries_eq⟩
  refine ⟨hsized, ?_, rfl, rfl, fun _ _ h' => h'⟩
  have hpoints : RowAt (setRow m off row) key off := h
  have hvalSz := hm.wellFormed.valSz_le
  rw [hm.valSz_eq] at hvalSz
  funext key'
  by_cases hk : key' = key
  · rw [hk, Function.update_self, hpoints.contents hsized.wellFormed, rowOf, hsized.valSz_eq, ← hrow]
    exact congrArg some (Memory.load_store_self m.vals off row)
  · rw [Function.update_of_ne hk]
    obtain ⟨s, hs, rfl⟩ := h
    refine contents_congr hm.wellFormed hsized.wellFormed (fun _ => Iff.rfl) ?_
    intro t ht
    have hts : t ≠ s := by
      rintro rfl
      exact hk (ht.2.symm.trans hs.2)
    simp only [setRow, LsMap.valAt, hm.valSz_eq]
    apply Memory.load_store_of_disjoint
    rw [hrow]
    simp only [lsMapValMax] at *
    omega

/-- A table with a free cell is not full. -/
theorem not_full_of_usedCells (hm : Sized m keySz valSz entries) (h : usedCells m < entries) :
    ¬m.Full := by
  intro hfull
  have hsub : Finset.range entries ⊆
      (Finset.range lsMapEntries).filter fun s => m.used s = true := by
    intro s hs
    rw [Finset.mem_range] at hs
    rw [Finset.mem_filter, Finset.mem_range]
    have hle := hm.wellFormed.entries_le
    rw [hm.entries_eq] at hle
    exact ⟨Nat.lt_of_lt_of_le hs hle, hfull s (by rw [hm.entries_eq]; exact hs)⟩
  have hcard := Finset.card_le_card hsub
  rw [Finset.card_range] at hcard
  exact Nat.not_lt.mpr hcard h

/-- A row stored under a key that is there, or while a cell is free, evicts nothing. -/
theorem put_row (hm : Sized m keySz valSz entries) (hkey : key.length = keySz)
    (hrow : row.length = valSz) (hroom : contents m key ≠ none ∨ usedCells m < entries) :
    (lsMapUpdate m key row).1 = true ∧ Sized (lsMapUpdate m key row).2 keySz valSz entries ∧
      contents (lsMapUpdate m key row).2 = Function.update (contents m) key (some row) ∧
      (lsMapUpdate m key row).2.evictions = m.evictions := by
  have hkey' : key.length = m.keySz := by rw [hkey, hm.keySz_eq]
  have hrow' : row.length = m.valSz := by rw [hrow, hm.valSz_eq]
  obtain ⟨hwellFormed, hok, hquiet, -⟩ := contents_update hm.wellFormed hkey' hrow'
  have hfree : contents m key ≠ none ∨ ¬m.Full := by
    rcases hroom with hpresent | hcells
    · exact .inl hpresent
    · exact .inr (not_full_of_usedCells hm hcells)
  obtain ⟨-, hcontents, hevictions⟩ := hquiet hfree
  obtain ⟨s, -, -, -, hputs, -, -⟩ := lsMapUpdate_puts hm.wellFormed hkey' hrow'
  exact ⟨hok, ⟨hwellFormed, hputs.keySz.trans hm.keySz_eq, hputs.valSz.trans hm.valSz_eq,
    hputs.entries.trans hm.entries_eq⟩, hcontents, hevictions⟩

/-- The keys in use are no more than the keys that may be. -/
theorem usedCells_le {keys : Finset (List UInt8)} (hm : m.WellFormed)
    (h : ∀ key, contents m key ≠ none → key ∈ keys) : usedCells m ≤ keys.card := by
  have hinj : Set.InjOn m.keyAt
      ((Finset.range lsMapEntries).filter fun s => m.used s = true : Finset Nat) := by
    intro s hs t ht hst
    exact hm.distinct s t (Finset.mem_filter.mp hs).2 (Finset.mem_filter.mp ht).2 hst
  rw [usedCells, ← Finset.card_image_of_injOn hinj]
  refine Finset.card_le_card ?_
  intro key hkey
  obtain ⟨s, hs, rfl⟩ := Finset.mem_image.mp hkey
  refine h _ ?_
  intro hnone
  exact (contents_eq_none_iff hm).mp hnone s ⟨(Finset.mem_filter.mp hs).2, rfl⟩

end Rows

end Map
end LiveSurface
