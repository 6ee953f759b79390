import LiveSurface.Map.Refinement

/-!
# The table of exchanges

The tracker keeps one exchange for each client flow in a hash table of 128 cells,
under the flow's address; the cell of key zero counts the others.  A program reads
and writes the words of a value through the pointer that a lookup returns.

Main results:

- Theorem {lit}`lookup_spec`, theorem {lit}`setWord_spec`, theorem {lit}`put_spec` and
  theorem {lit}`remove_spec`: each use of the table as an operation on a finite map,
  with the number of cells in use.
-/

namespace LiveSurface
namespace Tracker

open Map

/-! ## Keys and values -/

/-- {lit}`struct ag_exchange`. -/
structure AgExchange where
  run : UInt64
  owner : UInt64
  number : UInt64
  state : UInt64
deriving DecidableEq

/-- The bytes of a 64-bit word. -/
def wordBytes (x : UInt64) : List UInt8 := littleEndian 8 x.toNat

/-- The {lit}`i`-th word of a value. -/
def wordAt (bs : List UInt8) (i : Nat) : UInt64 :=
  UInt64.ofNat (ofLittleEndian ((bs.drop (8 * i)).take 8))

/-- The bytes of an exchange. -/
def AgExchange.bytes (e : AgExchange) : List UInt8 :=
  wordBytes e.run ++ wordBytes e.owner ++ wordBytes e.number ++ wordBytes e.state

/-- The exchange that a value holds. -/
def exchangeOf (bs : List UInt8) : AgExchange where
  run := wordAt bs 0
  owner := wordAt bs 1
  number := wordAt bs 2
  state := wordAt bs 3

@[simp]
theorem length_wordBytes (x : UInt64) : (wordBytes x).length = 8 := length_littleEndian 8 _

@[simp]
theorem AgExchange.length_bytes (e : AgExchange) : e.bytes.length = 32 := by
  simp [AgExchange.bytes]

/-- A word is read as it was written. -/
theorem ofNat_wordBytes (x : UInt64) : UInt64.ofNat (ofLittleEndian (wordBytes x)) = x := by
  rw [wordBytes, ofLittleEndian_littleEndian_of_lt x.toNat_lt, UInt64.ofNat_toNat]

/-- A word of a concatenation that starts with whole words. -/
theorem wordAt_append {before : List UInt8} {x : UInt64} {after : List UInt8} {i : Nat}
    (h : before.length = 8 * i) : wordAt (before ++ (wordBytes x ++ after)) i = x := by
  rw [wordAt, List.drop_left' h, List.take_left' (length_wordBytes x), ofNat_wordBytes]

/-- An exchange is read as it was written. -/
@[simp]
theorem exchangeOf_bytes (e : AgExchange) : exchangeOf e.bytes = e := by
  have hrun : wordAt e.bytes 0 = e.run := by
    simp only [AgExchange.bytes, List.append_assoc]
    exact @wordAt_append [] _ _ 0 rfl
  have howner : wordAt e.bytes 1 = e.owner := by
    simp only [AgExchange.bytes, List.append_assoc]
    exact wordAt_append (by simp)
  have hnumber : wordAt e.bytes 2 = e.number := by
    simp only [AgExchange.bytes]
    rw [List.append_assoc]
    exact wordAt_append (by simp)
  have hstate : wordAt e.bytes 3 = e.state := by
    simp only [AgExchange.bytes]
    rw [← List.append_nil (wordBytes e.state)]
    exact wordAt_append (by simp)
  simp only [exchangeOf, hrun, howner, hnumber, hstate]

/-- Different addresses have different keys. -/
theorem wordBytes_injective {x y : UInt64} (h : wordBytes x = wordBytes y) : x = y := by
  rw [← ofNat_wordBytes x, h, ofNat_wordBytes]

/-! ## The table as a finite map -/

/-- The exchanges that lookups show, the count under key zero included. -/
def exchanges (m : LsMap) (k : UInt64) : Option AgExchange :=
  (contents m (wordBytes k)).map exchangeOf

/-- The number of cells in use. -/
def cells (m : LsMap) : Nat :=
  ((Finset.range lsMapEntries).filter fun s => m.used s = true).card

/-- A table of the size that {lit}`activity_exchanges_v2` declares. -/
structure Shape (m : LsMap) : Prop where
  wellFormed : m.WellFormed
  keySz : m.keySz = 8
  valSz : m.valSz = 32
  entries : m.entries = 128

/-- A pointer to the value of a key. -/
def Points (m : LsMap) (k : UInt64) (off : Nat) : Prop :=
  ∃ s, m.Holds (wordBytes k) s ∧ off = s * lsMapValMax

/-- The exchange that a pointer reaches. -/
def entryAt (m : LsMap) (off : Nat) : AgExchange := exchangeOf (m.vals.load off 32)

/-- {lit}`entry->word = x`, by the word's place in the value. -/
def setWord (m : LsMap) (off i : Nat) (x : UInt64) : LsMap :=
  { m with vals := m.vals.store (off + 8 * i) (wordBytes x) }

/-- An exchange with another word. -/
def AgExchange.set (e : AgExchange) (i : Nat) (x : UInt64) : AgExchange :=
  match i with
  | 0 => { e with run := x }
  | 1 => { e with owner := x }
  | 2 => { e with number := x }
  | 3 => { e with state := x }
  | _ => e

section Operations

variable {m : LsMap} {k : UInt64}

theorem exchanges_eq_none_iff : exchanges m k = none ↔ contents m (wordBytes k) = none := by
  simp [exchanges]

theorem Points.entry {off : Nat} (hm : Shape m) (h : Points m k off) :
    exchanges m k = some (entryAt m off) := by
  obtain ⟨s, hs, rfl⟩ := h
  have hcontents : contents m (wordBytes k) = some (m.valAt s) :=
    (contents_eq_some_iff hm.wellFormed).mpr ⟨s, hs, rfl⟩
  rw [exchanges, hcontents, Option.map_some, entryAt, LsMap.valAt, hm.valSz]

/-- A lookup returns a pointer to the value of a key, if it has one, and changes
nothing a program can see. -/
theorem lookup_spec (hm : Shape m) (k : UInt64) :
    Shape (lsMapLookup m (wordBytes k)).2 ∧
      exchanges (lsMapLookup m (wordBytes k)).2 = exchanges m ∧
      (lsMapLookup m (wordBytes k)).2.evictions = m.evictions ∧
      cells (lsMapLookup m (wordBytes k)).2 = cells m ∧
      ((lsMapLookup m (wordBytes k)).1 = none → exchanges m k = none) ∧
      ∀ off, (lsMapLookup m (wordBytes k)).1 = some off →
        Points (lsMapLookup m (wordBytes k)).2 k off ∧
          exchanges m k = some (entryAt (lsMapLookup m (wordBytes k)).2 off) := by
  obtain ⟨hwellFormed, hsame, hevictions⟩ := contents_lookup hm.wellFormed (wordBytes k)
  obtain ⟨hits, misses, heq⟩ := lsMapLookup_snd m (wordBytes k)
  have hshape : Shape (lsMapLookup m (wordBytes k)).2 := by
    refine ⟨hwellFormed, ?_, ?_, ?_⟩ <;> rw [heq]
    · exact hm.keySz
    · exact hm.valSz
    · exact hm.entries
  have hexchanges : exchanges (lsMapLookup m (wordBytes k)).2 = exchanges m := by
    funext k'
    rw [exchanges, hsame, exchanges]
  refine ⟨hshape, hexchanges, hevictions, by rw [heq]; rfl, ?_, ?_⟩
  · intro hnone
    rw [exchanges_eq_none_iff, contents, hnone]
    rfl
  · intro off hoff
    have hpoints : Points (lsMapLookup m (wordBytes k)).2 k off := by
      simp only [lsMapLookup, hm.wellFormed.table, Bool.false_eq_true, if_false] at hoff
      cases hslot : lsMapSlot m (wordBytes k) false with
      | none =>
          rw [hslot] at hoff
          contradiction
      | some s =>
          rw [hslot] at hoff
          refine ⟨s, ?_, (Option.some.inj hoff).symm⟩
          rw [heq]
          exact (lsMapSlot_eq_some_iff hm.wellFormed).mp hslot
    refine ⟨hpoints, ?_⟩
    rw [← hexchanges]
    exact hpoints.entry hshape

/-- A write through a pointer changes one word of the pointer's exchange. -/
theorem setWord_spec {off i : Nat} (hm : Shape m) (h : Points m k off) (hi : i < 4) (x : UInt64) :
    Shape (setWord m off i x) ∧ Points (setWord m off i x) k off ∧
      exchanges (setWord m off i x) =
        Function.update (exchanges m) k (some ((entryAt m off).set i x)) ∧
      (setWord m off i x).evictions = m.evictions ∧ cells (setWord m off i x) = cells m := by
  have hshape : Shape (setWord m off i x) :=
    ⟨⟨hm.wellFormed.table, hm.wellFormed.keySz_le, hm.wellFormed.valSz_le,
      hm.wellFormed.entries_pos, hm.wellFormed.entries_le, hm.wellFormed.used_lt,
      hm.wellFormed.distinct⟩, hm.keySz, hm.valSz, hm.entries⟩
  have hpoints : Points (setWord m off i x) k off := h
  refine ⟨hshape, hpoints, ?_, rfl, rfl⟩
  have hentry : entryAt (setWord m off i x) off = (entryAt m off).set i x := by
    have hword : ∀ j < 4, wordAt ((setWord m off i x).vals.load off 32) j =
        if j = i then x else wordAt (m.vals.load off 32) j := by
      intro j hj
      rw [wordAt, wordAt, Memory.drop_load (by omega), Memory.take_load (by omega),
        Memory.drop_load (by omega), Memory.take_load (by omega)]
      split
      · rename_i hji
        rw [hji]
        have hload : (setWord m off i x).vals.load (off + 8 * i) 8 = wordBytes x := by
          have h := Memory.load_store_self m.vals (off + 8 * i) (wordBytes x)
          rwa [length_wordBytes] at h
        rw [hload, ofNat_wordBytes]
      · rename_i hji
        have hload : (setWord m off i x).vals.load (off + 8 * j) 8 =
            m.vals.load (off + 8 * j) 8 := by
          apply Memory.load_store_of_disjoint
          rw [length_wordBytes]
          omega
        rw [hload]
    simp only [entryAt, exchangeOf, hword 0 (by omega), hword 1 (by omega), hword 2 (by omega),
      hword 3 (by omega)]
    match i, hi with
    | 0, _ => rfl
    | 1, _ => rfl
    | 2, _ => rfl
    | 3, _ => rfl
  funext k'
  by_cases hk : k' = k
  · rw [hk, Function.update_self, hpoints.entry hshape, hentry]
  · rw [Function.update_of_ne hk, exchanges, exchanges]
    congr 1
    obtain ⟨s, hs, rfl⟩ := h
    refine contents_congr hm.wellFormed hshape.wellFormed (fun _ => Iff.rfl) ?_
    intro t ht
    have hts : t ≠ s := by
      rintro rfl
      exact hk (wordBytes_injective (ht.2.symm.trans hs.2))
    simp only [setWord, LsMap.valAt, hm.valSz, lsMapValMax]
    apply Memory.load_store_of_disjoint
    rw [length_wordBytes]
    omega

/-- A table with a free cell is not full. -/
theorem not_full (hm : Shape m) (h : cells m < 128) : ¬m.Full := by
  intro hfull
  have hsub : Finset.range 128 ⊆ (Finset.range lsMapEntries).filter fun s => m.used s = true := by
    intro s hs
    rw [Finset.mem_range] at hs
    rw [Finset.mem_filter, Finset.mem_range]
    refine ⟨?_, hfull s (by rw [hm.entries]; exact hs)⟩
    simp only [lsMapEntries]
    omega
  have hcard := Finset.card_le_card hsub
  rw [Finset.card_range] at hcard
  simp only [cells] at h
  omega

/-- A store under a key that is there, or while a cell is free, evicts nothing. -/
theorem put_spec (hm : Shape m) (k : UInt64) (e : AgExchange)
    (hroom : exchanges m k ≠ none ∨ cells m < 128) :
    (lsMapUpdate m (wordBytes k) e.bytes).1 = true ∧
      Shape (lsMapUpdate m (wordBytes k) e.bytes).2 ∧
      exchanges (lsMapUpdate m (wordBytes k) e.bytes).2 =
        Function.update (exchanges m) k (some e) ∧
      (lsMapUpdate m (wordBytes k) e.bytes).2.evictions = m.evictions ∧
      cells (lsMapUpdate m (wordBytes k) e.bytes).2 =
        if exchanges m k = none then cells m + 1 else cells m := by
  have hkey : (wordBytes k).length = m.keySz := by rw [hm.keySz, length_wordBytes]
  have hval : e.bytes.length = m.valSz := by rw [hm.valSz, e.length_bytes]
  obtain ⟨hwellFormed, hok, hquiet, -⟩ := contents_update hm.wellFormed hkey hval
  have hfree : contents m (wordBytes k) ≠ none ∨ ¬m.Full := by
    rcases hroom with hpresent | hcells
    · rw [ne_eq, exchanges_eq_none_iff] at hpresent
      exact .inl hpresent
    · exact .inr (not_full hm hcells)
  obtain ⟨-, hcontents, hevictions⟩ := hquiet hfree
  obtain ⟨s, -, hs, -, hputs, -, hcase⟩ := lsMapUpdate_puts hm.wellFormed hkey hval
  refine ⟨hok, ⟨hwellFormed, hputs.keySz.trans hm.keySz, hputs.valSz.trans hm.valSz,
    hputs.entries.trans hm.entries⟩, ?_, hevictions, ?_⟩
  · funext k'
    rw [exchanges, hcontents]
    by_cases hk : k' = k
    · rw [hk, Function.update_self, Function.update_self, Option.map_some, exchangeOf_bytes]
    · rw [Function.update_of_ne hk, Function.update_of_ne (fun h => hk (wordBytes_injective h)),
        exchanges]
  · have hsentries : s < lsMapEntries := Nat.lt_of_lt_of_le hs hm.wellFormed.entries_le
    have habsent : exchanges m k = none ↔ ∀ t, ¬m.Holds (wordBytes k) t := by
      rw [exchanges_eq_none_iff, contents_eq_none_iff hm.wellFormed]
    rcases hcase with hself | ⟨hno, hunused⟩ | ⟨hno, hfull⟩
    · have hsame : Function.update m.used s true = m.used := by
        rw [← hself.1, Function.update_eq_self]
      rw [if_neg (fun hnone => habsent.mp hnone s hself), cells, hputs.used, hsame, cells]
    · rw [if_pos (habsent.mpr hno), cells, hputs.used, cells]
      have hinsert : ((Finset.range lsMapEntries).filter fun t =>
          Function.update m.used s true t = true) =
          insert s ((Finset.range lsMapEntries).filter fun t => m.used t = true) := by
        ext t
        by_cases hts : t = s
        · subst hts
          simp [hsentries]
        · simp [hts]
      rw [hinsert, Finset.card_insert_of_notMem]
      simp [hunused]
    · exact ((hfree.resolve_left (fun h => h ((contents_eq_none_iff hm.wellFormed).mpr hno))) hfull).elim

/-- Deleting a key that is there frees its cell. -/
theorem remove_spec (hm : Shape m) (k : UInt64) (hpresent : exchanges m k ≠ none) :
    (lsMapDelete m (wordBytes k)).1 = true ∧ Shape (lsMapDelete m (wordBytes k)).2 ∧
      exchanges (lsMapDelete m (wordBytes k)).2 = Function.update (exchanges m) k none ∧
      (lsMapDelete m (wordBytes k)).2.evictions = m.evictions ∧
      cells (lsMapDelete m (wordBytes k)).2 + 1 = cells m := by
  obtain ⟨hwellFormed, hcontents, hok, hevictions⟩ := contents_delete hm.wellFormed (wordBytes k)
  rw [ne_eq, exchanges_eq_none_iff] at hpresent
  have hslot : ∃ s, lsMapSlot m (wordBytes k) false = some s := by
    rw [← Option.ne_none_iff_exists', ne_eq, lsMapSlot_eq_none_iff hm.wellFormed,
      ← contents_eq_none_iff hm.wellFormed]
    exact hpresent
  obtain ⟨s, hs⟩ := hslot
  have hholds := (lsMapSlot_eq_some_iff hm.wellFormed).mp hs
  have heq : lsMapDelete m (wordBytes k) =
      (true, { m with used := Function.update m.used s false }) := by
    simp [lsMapDelete, hm.wellFormed.table, hs]
  refine ⟨hok.mpr hpresent, ⟨hwellFormed, ?_, ?_, ?_⟩, ?_, hevictions, ?_⟩
  · rw [heq]
    exact hm.keySz
  · rw [heq]
    exact hm.valSz
  · rw [heq]
    exact hm.entries
  · funext k'
    rw [exchanges, hcontents]
    by_cases hk : k' = k
    · rw [hk, Function.update_self, Function.update_self]
      rfl
    · rw [Function.update_of_ne hk, Function.update_of_ne (fun h => hk (wordBytes_injective h)),
        exchanges]
  · have hsentries : s < lsMapEntries :=
      Nat.lt_of_lt_of_le (hm.wellFormed.used_lt s hholds.1) hm.wellFormed.entries_le
    rw [heq]
    have herase : ((Finset.range lsMapEntries).filter fun t =>
        Function.update m.used s false t = true) =
        ((Finset.range lsMapEntries).filter fun t => m.used t = true).erase s := by
      ext t
      by_cases hts : t = s
      · subst hts
        simp
      · simp [hts]
    rw [cells, cells, herase]
    exact Finset.card_erase_add_one (by simp [hsentries, hholds.1])

/-- Deleting a key leaves a pointer to another key's value where it was. -/
theorem Points.remove {k' : UInt64} {off : Nat} (hm : Shape m) (h : Points m k' off)
    (hne : k' ≠ k) : Points (lsMapDelete m (wordBytes k)).2 k' off := by
  obtain ⟨s, hs, hoff⟩ := h
  refine ⟨s, ?_, hoff⟩
  simp only [lsMapDelete, hm.wellFormed.table, Bool.false_eq_true, if_false]
  cases hslot : lsMapSlot m (wordBytes k) false with
  | none => exact hs
  | some t =>
      have hholds := (lsMapSlot_eq_some_iff hm.wellFormed).mp hslot
      have hst : s ≠ t := by
        rintro rfl
        exact hne (wordBytes_injective (hs.2.symm.trans hholds.2))
      refine ⟨?_, hs.2⟩
      change Function.update m.used t false s = true
      rw [Function.update_of_ne hst]
      exact hs.1

end Operations

end Tracker
end LiveSurface
