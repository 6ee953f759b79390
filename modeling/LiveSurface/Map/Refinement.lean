import LiveSurface.Library.Machine
import LiveSurface.Library.MapLog
import LiveSurface.Map.Table
import Mathlib.Data.Finset.Card
import Mathlib.Data.Finset.Range

/-!
# A table is a bounded finite map

A table is used through lookups, updates and deletions, and its values are also
changed in place, through the cell pointers that lookups hand out.  What a run
did is kept in a log, and a lookup answers from the log: the last value stored,
unless the key was deleted or evicted since.

Main results:

- Theorem {lit}`lsMapUpdate_puts`: the one cell an update writes, and why.
- Theorem {lit}`contents_update`: an update as an operation on finite maps, with
  the eviction of one key from a full table.
- Theorem {lit}`lsMap_refines_boundedMap`: the refinement, over every run.
-/

namespace LiveSurface
namespace Map

open MapLog

/-- The finite map that lookups show. -/
def contents (m : LsMap) (key : List UInt8) : Option (List UInt8) :=
  (lsMapLookup m key).1.map fun off => m.vals.load off m.valSz

/-! ## Lookups -/

section Contents

variable {m m' : LsMap} {key val : List UInt8} {s : Nat}

theorem contents_eq_some_iff (hm : m.WellFormed) {v : List UInt8} :
    contents m key = some v ↔ ∃ s, m.Holds key s ∧ m.valAt s = v := by
  simp only [contents, lsMapLookup, hm.table, Bool.false_eq_true, if_false]
  cases hslot : lsMapSlot m key false with
  | none =>
      have hno := (lsMapSlot_eq_none_iff hm).mp hslot
      simp only [Option.map_none, reduceCtorEq, false_iff, not_exists, not_and]
      intro s hs
      exact absurd hs (hno s)
  | some t =>
      have ht := (lsMapSlot_eq_some_iff hm).mp hslot
      simp only [Option.map_some, Option.some.injEq]
      constructor
      · intro hv
        exact ⟨t, ht, hv⟩
      · rintro ⟨s, hs, hv⟩
        rw [hm.distinct t s ht.1 hs.1 (ht.2.trans hs.2.symm)]
        exact hv

theorem contents_eq_none_iff (hm : m.WellFormed) :
    contents m key = none ↔ ∀ s, ¬m.Holds key s := by
  rw [Option.eq_none_iff_forall_ne_some]
  constructor
  · intro hne s hs
    exact hne (m.valAt s) ((contents_eq_some_iff hm).mpr ⟨s, hs, rfl⟩)
  · intro hno v hv
    rcases (contents_eq_some_iff hm).mp hv with ⟨s, hs, _⟩
    exact hno s hs

/-- Two tables that agree on what their cells hold show the same value. -/
theorem contents_congr (hm : m.WellFormed) (hm' : m'.WellFormed) {k : List UInt8}
    (h : ∀ s, m'.Holds k s ↔ m.Holds k s)
    (hval : ∀ s, m.Holds k s → m'.valAt s = m.valAt s) : contents m' k = contents m k := by
  apply Option.ext
  intro v
  rw [contents_eq_some_iff hm', contents_eq_some_iff hm]
  constructor
  · rintro ⟨s, hs, hv⟩
    have hs' := (h s).mp hs
    exact ⟨s, hs', (hval s hs') ▸ hv⟩
  · rintro ⟨s, hs, hv⟩
    exact ⟨s, (h s).mpr hs, (hval s hs).trans hv⟩

/-! ## Updates -/

/-- A table whose cell {lit}`s` was overwritten with a key and a value. -/
structure Puts (m m' : LsMap) (s : Nat) (key val : List UInt8) : Prop where
  isRing : m'.isRing = m.isRing
  keySz : m'.keySz = m.keySz
  valSz : m'.valSz = m.valSz
  entries : m'.entries = m.entries
  used : m'.used = Function.update m.used s true
  key_same : m'.keyAt s = key
  key_other : ∀ t, t ≠ s → m'.keyAt t = m.keyAt t
  val_same : m'.valAt s = val
  val_other : ∀ t, t ≠ s → m'.valAt t = m.valAt t

/-- A store into one cell of an array leaves the other cells alone. -/
theorem load_store_cell {mem : Memory} {bytes : List UInt8} {width size s t : Nat}
    (hsize : size ≤ width) (hlen : bytes.length ≤ width) (hne : t ≠ s) :
    (mem.store (s * width) bytes).load (t * width) size = mem.load (t * width) size := by
  apply Memory.load_store_of_disjoint
  rcases Nat.lt_or_gt_of_ne hne with hlt | hgt
  · left
    have hmul : (t + 1) * width ≤ s * width := Nat.mul_le_mul_right width hlt
    rw [Nat.succ_mul] at hmul
    omega
  · right
    have hmul : (s + 1) * width ≤ t * width := Nat.mul_le_mul_right width hgt
    rw [Nat.succ_mul] at hmul
    omega

/-- Where an update writes, what it counts, and in which of the three cases. -/
theorem lsMapUpdate_puts (hm : m.WellFormed) (hkey : key.length = m.keySz)
    (hval : val.length = m.valSz) :
    ∃ s, lsMapSlot m key true = some s ∧ s < m.entries ∧ (lsMapUpdate m key val).1 = true ∧
      Puts m (lsMapUpdate m key val).2 s key val ∧
      (lsMapUpdate m key val).2.evictions =
        (if m.used s = true ∧ m.keyAt s ≠ key then m.evictions + 1 else m.evictions) ∧
      (m.Holds key s ∨ ((∀ t, ¬m.Holds key t) ∧ m.used s = false) ∨
        ((∀ t, ¬m.Holds key t) ∧ m.Full)) := by
  rcases lsMapSlot_insert hm key with ⟨s, hslot, hs, hcase⟩
  have hkeys := hm.keySz_le
  have hvals := hm.valSz_le
  refine ⟨s, hslot, hs, ?_, ?_, ?_, hcase⟩
  · simp only [lsMapUpdate, hm.table, Bool.false_eq_true, if_false, hslot]
  · simp only [lsMapUpdate, hm.table, Bool.false_eq_true, if_false, hslot,
      ← hkey, ← hval, List.take_length]
    refine ⟨hm.table.symm ▸ rfl, hkey, hval, rfl, rfl, ?_, ?_, ?_, ?_⟩
    · simp only [LsMap.keyAt]
      exact Memory.load_store_self _ _ _
    · intro t ht
      simp only [LsMap.keyAt]
      rw [hkey]
      exact load_store_cell hkeys (by omega) ht
    · simp only [LsMap.valAt]
      exact Memory.load_store_self _ _ _
    · intro t ht
      simp only [LsMap.valAt]
      rw [hval]
      exact load_store_cell hvals (by omega) ht
  · simp only [lsMapUpdate, hm.table, Bool.false_eq_true, if_false, hslot]

/-- After the overwrite the key sits in the written cell only, given that no
other cell held it. -/
theorem Puts.holds_key (h : Puts m m' s key val) (hother : ∀ t, t ≠ s → ¬m.Holds key t)
    (t : Nat) : m'.Holds key t ↔ t = s := by
  by_cases ht : t = s
  · subst ht
    simp [LsMap.Holds, h.used, h.key_same]
  · simp only [ht, iff_false]
    rintro ⟨hused, hk⟩
    rw [h.used, Function.update_of_ne ht] at hused
    rw [h.key_other t ht] at hk
    exact hother t ht ⟨hused, hk⟩

/-- Another key sits where it sat, unless that was the written cell. -/
theorem Puts.holds_other (h : Puts m m' s key val) {k : List UInt8} (hk : k ≠ key)
    (t : Nat) : m'.Holds k t ↔ t ≠ s ∧ m.Holds k t := by
  by_cases ht : t = s
  · subst ht
    simp only [LsMap.Holds, h.used, h.key_same, ne_eq, not_true_eq_false, false_and,
      iff_false, not_and]
    exact fun _ heq => hk heq.symm
  · simp [LsMap.Holds, h.used, h.key_other t ht, ht]

/-- An overwrite that leaves the key in no other cell keeps the table
well formed. -/
theorem Puts.wellFormed (h : Puts m m' s key val) (hm : m.WellFormed) (hs : s < m.entries)
    (hother : ∀ t, t ≠ s → ¬m.Holds key t) : m'.WellFormed := by
  refine ⟨h.isRing.trans hm.table, h.keySz ▸ hm.keySz_le, h.valSz ▸ hm.valSz_le,
    h.entries ▸ hm.entries_pos, h.entries ▸ hm.entries_le, ?_, ?_⟩
  · intro t ht
    rw [h.entries]
    by_cases hts : t = s
    · exact hts ▸ hs
    · rw [h.used, Function.update_of_ne hts] at ht
      exact hm.used_lt t ht
  · intro t u ht hu heq
    by_cases hkey : m'.keyAt t = key
    · have hts := (h.holds_key hother t).mp ⟨ht, hkey⟩
      have hus := (h.holds_key hother u).mp ⟨hu, heq ▸ hkey⟩
      rw [hts, hus]
    · have ht' := (h.holds_other hkey t).mp ⟨ht, rfl⟩
      have hu' := (h.holds_other hkey u).mp ⟨hu, heq.symm⟩
      exact hm.distinct t u ht'.2.1 hu'.2.1 (ht'.2.2.trans hu'.2.2.symm)

/-- The written key is shown with the written value. -/
theorem Puts.contents_key (h : Puts m m' s key val) (hm' : m'.WellFormed)
    (hother : ∀ t, t ≠ s → ¬m.Holds key t) : contents m' key = some val :=
  (contents_eq_some_iff hm').mpr ⟨s, (h.holds_key hother s).mpr rfl, h.val_same⟩

/-- A key that did not sit in the written cell is shown as before. -/
theorem Puts.contents_other (h : Puts m m' s key val) (hm : m.WellFormed)
    (hm' : m'.WellFormed) {k : List UInt8} (hk : k ≠ key) (hcell : ¬m.Holds k s) :
    contents m' k = contents m k := by
  apply contents_congr hm hm'
  · intro t
    rw [h.holds_other hk]
    constructor
    · exact fun ht => ht.2
    · intro ht
      refine ⟨?_, ht⟩
      rintro rfl
      exact hcell ht
  · intro t ht
    apply h.val_other
    rintro rfl
    exact hcell ht

/-- The key that lost its cell is gone. -/
theorem Puts.contents_victim (h : Puts m m' s key val) (hm : m.WellFormed)
    (hm' : m'.WellFormed) {k : List UInt8} (hk : k ≠ key) (hcell : m.Holds k s) :
    contents m' k = none := by
  rw [contents_eq_none_iff hm']
  intro t ht
  rcases (h.holds_other hk t).mp ht with ⟨hne, hold⟩
  exact hne (hm.distinct t s hold.1 hcell.1 (hold.2.trans hcell.2.symm))

/-- The key that an insertion into cell {lit}`s` displaces. -/
def displaced (m : LsMap) (key : List UInt8) : Option (List UInt8) :=
  match lsMapSlot m key true with
  | none => none
  | some s => if m.used s = true ∧ m.keyAt s ≠ key then some (m.keyAt s) else none

/-- An update stores its value; it displaces another key, and counts it, only
when its own key is absent and the table is full. -/
theorem contents_update (hm : m.WellFormed) (hkey : key.length = m.keySz)
    (hval : val.length = m.valSz) :
    (lsMapUpdate m key val).2.WellFormed ∧ (lsMapUpdate m key val).1 = true ∧
    ((contents m key ≠ none ∨ ¬m.Full) → displaced m key = none ∧
      contents (lsMapUpdate m key val).2 = Function.update (contents m) key (some val) ∧
      (lsMapUpdate m key val).2.evictions = m.evictions) ∧
    (contents m key = none → m.Full → ∃ victim, displaced m key = some victim ∧
      victim ≠ key ∧ contents m victim ≠ none ∧
      contents (lsMapUpdate m key val).2 =
        Function.update (Function.update (contents m) victim none) key (some val) ∧
      (lsMapUpdate m key val).2.evictions = m.evictions + 1) := by
  rcases lsMapUpdate_puts hm hkey hval with ⟨s, hslot, hs, hret, hputs, hevict, hcase⟩
  have hother : ∀ t, t ≠ s → ¬m.Holds key t := by
    intro t ht hholds
    rcases hcase with hself | ⟨hno, _⟩ | ⟨hno, _⟩
    · exact ht (hm.distinct t s hholds.1 hself.1 (hholds.2.trans hself.2.symm))
    · exact hno t hholds
    · exact hno t hholds
  have hm' := hputs.wellFormed hm hs hother
  -- a cell that is free or holds the key displaces nothing
  have hquiet : ¬(m.used s = true ∧ m.keyAt s ≠ key) →
      displaced m key = none ∧
      contents (lsMapUpdate m key val).2 = Function.update (contents m) key (some val) ∧
      (lsMapUpdate m key val).2.evictions = m.evictions := by
    intro hsafe
    refine ⟨?_, ?_, ?_⟩
    · simp only [displaced, hslot, if_neg hsafe]
    · funext k
      by_cases hk : k = key
      · subst hk
        rw [Function.update_self]
        exact hputs.contents_key hm' hother
      · rw [Function.update_of_ne hk]
        apply hputs.contents_other hm hm' hk
        rintro ⟨hused, heq⟩
        exact hsafe ⟨hused, heq.trans_ne hk⟩
    · rw [hevict, if_neg hsafe]
  refine ⟨hm', hret, ?_, ?_⟩
  · intro hroom
    apply hquiet
    rintro ⟨hused, hne⟩
    rcases hcase with hself | ⟨_, hfree⟩ | ⟨hno, hfull⟩
    · exact hne hself.2
    · rw [hfree] at hused
      contradiction
    · rcases hroom with hpresent | hroom
      · exact hpresent ((contents_eq_none_iff hm).mpr hno)
      · exact hroom hfull
  · intro habsent hfull
    have hno := (contents_eq_none_iff hm).mp habsent
    have hused := hfull s hs
    have hne : m.keyAt s ≠ key := fun heq => hno s ⟨hused, heq⟩
    have hvictim : m.Holds (m.keyAt s) s := ⟨hused, rfl⟩
    refine ⟨m.keyAt s, ?_, hne, ?_, ?_, ?_⟩
    · simp only [displaced, hslot, if_pos (And.intro hused hne)]
    · intro hnone
      exact (contents_eq_none_iff hm).mp hnone s hvictim
    · funext k
      by_cases hk : k = key
      · subst hk
        rw [Function.update_self]
        exact hputs.contents_key hm' hother
      · rw [Function.update_of_ne hk]
        by_cases hv : k = m.keyAt s
        · rw [hv, Function.update_self]
          exact hputs.contents_victim hm hm' hne hvictim
        · rw [Function.update_of_ne hv]
          apply hputs.contents_other hm hm' hk
          intro hholds
          exact hv hholds.2.symm
    · rw [hevict, if_pos ⟨hused, hne⟩]

/-! ## Deletions and writes in place -/

/-- A deletion removes its key and counts nothing. -/
theorem contents_delete (hm : m.WellFormed) (key : List UInt8) :
    (lsMapDelete m key).2.WellFormed ∧
    contents (lsMapDelete m key).2 = Function.update (contents m) key none ∧
    ((lsMapDelete m key).1 = true ↔ contents m key ≠ none) ∧
    (lsMapDelete m key).2.evictions = m.evictions := by
  cases hslot : lsMapSlot m key false with
  | none =>
      have heq : lsMapDelete m key = (false, m) := by
        simp [lsMapDelete, hm.table, hslot]
      have hnone : contents m key = none :=
        (contents_eq_none_iff hm).mpr ((lsMapSlot_eq_none_iff hm).mp hslot)
      rw [heq]
      refine ⟨hm, ?_, ?_, rfl⟩
      · rw [← hnone, Function.update_eq_self]
      · simp [hnone]
  | some s =>
      have hs := (lsMapSlot_eq_some_iff hm).mp hslot
      have heq : lsMapDelete m key =
          (true, { m with used := Function.update m.used s false }) := by
        simp [lsMapDelete, hm.table, hslot]
      rw [heq]
      have hused : ∀ t, Function.update m.used s false t = true →
          t ≠ s ∧ m.used t = true := by
        intro t ht
        by_cases hts : t = s
        · subst hts
          simp at ht
        · exact ⟨hts, by simpa [Function.update_of_ne hts] using ht⟩
      have hm' : LsMap.WellFormed { m with used := Function.update m.used s false } := by
        refine ⟨hm.table, hm.keySz_le, hm.valSz_le, hm.entries_pos, hm.entries_le, ?_, ?_⟩
        · intro t ht
          exact hm.used_lt t (hused t ht).2
        · intro t u ht hu hk
          exact hm.distinct t u (hused t ht).2 (hused u hu).2 hk
      refine ⟨hm', ?_, ?_, rfl⟩
      · funext k
        by_cases hk : k = key
        · subst hk
          rw [Function.update_self, contents_eq_none_iff hm']
          rintro t ⟨ht, hkt⟩
          exact (hused t ht).1
            (hm.distinct t s (hused t ht).2 hs.1 (Eq.trans hkt hs.2.symm))
        · rw [Function.update_of_ne hk]
          apply contents_congr hm hm'
          · intro t
            constructor
            · rintro ⟨ht, hkt⟩
              exact ⟨(hused t ht).2, hkt⟩
            · rintro ⟨ht, hkt⟩
              have hts : t ≠ s := by
                rintro rfl
                exact hk (hkt.symm.trans hs.2)
              exact ⟨by simpa [Function.update_of_ne hts] using ht, hkt⟩
          · intro t _
            rfl
      · simp only [true_iff]
        intro hnone
        exact (contents_eq_none_iff hm).mp hnone s hs

/-- A byte written through a cell pointer. -/
def writeInPlace (m : LsMap) (cell off : Nat) (byte : UInt8) : LsMap :=
  { m with vals := m.vals.store (cell * lsMapValMax + off) [byte] }

theorem WellFormed.writeInPlace (hm : m.WellFormed) (cell off : Nat) (byte : UInt8) :
    (writeInPlace m cell off byte).WellFormed :=
  ⟨hm.table, hm.keySz_le, hm.valSz_le, hm.entries_pos, hm.entries_le, hm.used_lt, hm.distinct⟩

/-- A write in place is a store for the key in that cell, and nothing else. -/
theorem contents_writeInPlace (hm : m.WellFormed) (cell : Nat) {off : Nat} (byte : UInt8)
    (hoff : off < lsMapValMax) :
    contents (writeInPlace m cell off byte) =
      if m.used cell = true then
        Function.update (contents m) (m.keyAt cell)
          (some ((writeInPlace m cell off byte).valAt cell))
      else contents m := by
  have hm' := WellFormed.writeInPlace hm cell off byte
  have hvals := hm.valSz_le
  -- the write stays inside its own cell
  have hother : ∀ t, t ≠ cell → (writeInPlace m cell off byte).valAt t = m.valAt t := by
    intro t ht
    simp only [writeInPlace, LsMap.valAt]
    apply Memory.load_store_of_disjoint
    simp only [lsMapValMax] at *
    simp only [List.length_singleton]
    omega
  by_cases hused : m.used cell = true
  · rw [if_pos hused]
    funext k
    by_cases hk : k = m.keyAt cell
    · subst hk
      rw [Function.update_self, contents_eq_some_iff hm']
      exact ⟨cell, ⟨hused, rfl⟩, rfl⟩
    · rw [Function.update_of_ne hk]
      apply contents_congr hm hm'
      · exact fun _ => Iff.rfl
      · intro t ht
        apply hother
        rintro rfl
        exact hk ht.2.symm
  · rw [if_neg hused]
    funext k
    apply contents_congr hm hm'
    · exact fun _ => Iff.rfl
    · intro t ht
      apply hother
      rintro rfl
      exact hused ht.1

/-- A lookup changes its two counters only. -/
theorem lsMapLookup_snd (m : LsMap) (key : List UInt8) :
    ∃ hits misses, (lsMapLookup m key).2 = { m with hits := hits, misses := misses } := by
  unfold lsMapLookup
  by_cases hring : m.isRing = true
  · rw [if_pos hring]
    exact ⟨m.hits, m.misses, rfl⟩
  · rw [if_neg hring]
    cases lsMapSlot m key false with
    | none => exact ⟨m.hits, m.misses + 1, rfl⟩
    | some s => exact ⟨m.hits + 1, m.misses, rfl⟩

/-- A lookup leaves what the table shows as it was. -/
theorem contents_lookup (hm : m.WellFormed) (key : List UInt8) :
    (lsMapLookup m key).2.WellFormed ∧ contents (lsMapLookup m key).2 = contents m ∧
    (lsMapLookup m key).2.evictions = m.evictions := by
  rcases lsMapLookup_snd m key with ⟨hits, misses, heq⟩
  have hm' : LsMap.WellFormed { m with hits := hits, misses := misses } :=
    ⟨hm.table, hm.keySz_le, hm.valSz_le, hm.entries_pos, hm.entries_le, hm.used_lt,
      hm.distinct⟩
  rw [heq]
  refine ⟨hm', ?_, rfl⟩
  funext k
  exact contents_congr hm hm' (fun _ => Iff.rfl) (fun _ _ => rfl)

end Contents

/-! ## Runs -/

/-- One use of a table. -/
inductive MapOp
  | lookup (key : List UInt8)
  | update (key val : List UInt8)
  | delete (key : List UInt8)
  | write (cell off : Nat) (byte : UInt8)

/-- A table with the log of what happened to its keys, newest first. -/
structure MapState where
  map : LsMap
  log : List (MapEvent (List UInt8) (List UInt8))

/-- One operation.  Keys and values have the sizes the table was created with,
and a pointer from a lookup reaches any byte of any cell, also after the cell
changed hands: a write there is a store for the key that holds the cell now. -/
def mapNext (st : MapState) : MapOp → Option MapState
  | .lookup key =>
      if key.length = st.map.keySz then
        some { st with map := (lsMapLookup st.map key).2 }
      else none
  | .update key val =>
      if key.length = st.map.keySz ∧ val.length = st.map.valSz then
        let older := match displaced st.map key with
          | none => st.log
          | some victim => .evicted victim :: st.log
        some { map := (lsMapUpdate st.map key val).2, log := .stored key val :: older }
      else none
  | .delete key =>
      if key.length = st.map.keySz then
        some { map := (lsMapDelete st.map key).2, log := .deleted key :: st.log }
      else none
  | .write cell off byte =>
      if cell < st.map.entries ∧ off < lsMapValMax then
        let map := writeInPlace st.map cell off byte
        some { map := map
               log := if st.map.used cell = true
                 then .stored (st.map.keyAt cell) (map.valAt cell) :: st.log
                 else st.log }
      else none

/-- All uses of the table that a descriptor creates in some map set. -/
def mapMachine (d : LsMapDef) : Machine MapState MapOp where
  init st := st.log = [] ∧ ∃ set index, (lsMapCreate set d).1 = some index ∧
    st.map = (lsMapCreate set d).2.m index
  next := mapNext

/-- The invariant: a well-formed table of the descriptor's size that shows what
the log replays. -/
structure Refines (d : LsMapDef) (st : MapState) : Prop where
  wellFormed : st.map.WellFormed
  entries : st.map.entries = d.maxEntries
  contents_eq : contents st.map = valueOf st.log

/-- A freshly created table is empty. -/
theorem refines_init {d : LsMapDef} {st : MapState} (htype : d.type = lsMapTypeHash)
    (hinit : (mapMachine d).init st) : Refines d st := by
  rcases hinit with ⟨hlog, set, index, hcreate, hmap⟩
  unfold lsMapCreate at hcreate hmap
  split at hcreate
  · contradiction
  · rename_i hguard
    cases hcreate
    rw [if_neg hguard] at hmap
    simp only [not_or, Bool.not_eq_false] at hguard
    have hshape := lsMapCheckDescriptor_hash hguard.2 htype
    have hnew : st.map = { LsMap.zero with
        inUse := true, keySz := d.keySize, valSz := d.valueSize,
        entries := d.maxEntries } := by
      rw [hmap]
      simp [mapOfDescriptor, htype, lsMapTypeHash, lsMapTypeRingbuf, lsMapTypePerfEventArray]
    have hm : st.map.WellFormed := by
      rw [hnew]
      refine ⟨rfl, hshape.2.1, hshape.2.2.2.1, hshape.2.2.2.2.1, hshape.2.2.2.2.2, ?_, ?_⟩
      · intro s hs
        contradiction
      · intro s t hs
        contradiction
    refine ⟨hm, by rw [hnew], ?_⟩
    funext key
    rw [hlog, valueOf, contents_eq_none_iff hm, hnew]
    rintro s ⟨hused, _⟩
    contradiction

/-- The size of a table never changes. -/
theorem entries_mapNext {st st' : MapState} {op : MapOp} (hm : st.map.WellFormed)
    (hnext : mapNext st op = some st') : st'.map.entries = st.map.entries := by
  cases op with
  | lookup key =>
      simp only [mapNext] at hnext
      split at hnext
      · cases hnext
        simp only [lsMapLookup, hm.table, Bool.false_eq_true, if_false]
        split <;> rfl
      · contradiction
  | update key val =>
      simp only [mapNext] at hnext
      split at hnext
      · rename_i hlen
        cases hnext
        rcases lsMapUpdate_puts hm hlen.1 hlen.2 with ⟨s, _, _, _, hputs, _⟩
        exact hputs.entries
      · contradiction
  | delete key =>
      simp only [mapNext] at hnext
      split at hnext
      · cases hnext
        simp only [lsMapDelete, hm.table, Bool.false_eq_true, if_false]
        split <;> rfl
      · contradiction
  | write cell off byte =>
      simp only [mapNext] at hnext
      split at hnext
      · cases hnext
        rfl
      · contradiction

/-- One operation keeps the table in step with the log. -/
theorem Refines.step {d : LsMapDef} {st st' : MapState} {op : MapOp} (h : Refines d st)
    (hnext : mapNext st op = some st') : Refines d st' := by
  have hm := h.wellFormed
  have hentries := (entries_mapNext hm hnext).trans h.entries
  cases op with
  | lookup key =>
      simp only [mapNext] at hnext
      split at hnext
      · cases hnext
        rcases contents_lookup hm key with ⟨hm', hsame, _⟩
        exact ⟨hm', hentries, hsame.trans h.contents_eq⟩
      · contradiction
  | update key val =>
      simp only [mapNext] at hnext
      split at hnext
      · rename_i hlen
        cases hnext
        rcases contents_update hm hlen.1 hlen.2 with ⟨hm', _, hroom, hfull⟩
        refine ⟨hm', hentries, ?_⟩
        rw [valueOf_stored]
        by_cases hcase : contents st.map key ≠ none ∨ ¬st.map.Full
        · rcases hroom hcase with ⟨hquiet, hcontents, _⟩
          rw [hquiet, hcontents, h.contents_eq]
        · simp only [not_or, not_not] at hcase
          rcases hfull hcase.1 hcase.2 with ⟨victim, hvictim, _, _, hcontents, _⟩
          rw [hvictim, hcontents, h.contents_eq, valueOf_evicted]
      · contradiction
  | delete key =>
      simp only [mapNext] at hnext
      split at hnext
      · cases hnext
        rcases contents_delete hm key with ⟨hm', hcontents, _, _⟩
        refine ⟨hm', hentries, ?_⟩
        rw [hcontents, h.contents_eq, valueOf_deleted]
      · contradiction
  | write cell off byte =>
      simp only [mapNext] at hnext
      split at hnext
      · rename_i hcell
        cases hnext
        have hcontents := contents_writeInPlace hm cell byte hcell.2
        refine ⟨WellFormed.writeInPlace hm cell off byte, hentries, ?_⟩
        rw [hcontents, h.contents_eq]
        split
        · rw [valueOf_stored]
        · rfl
      · contradiction

/-- The invariant holds after every use of the table. -/
theorem refines_of_reachable {d : LsMapDef} (htype : d.type = lsMapTypeHash) :
    ∀ st, (mapMachine d).Reachable st → Refines d st := by
  apply Machine.Reachable.invariant
  · intro st hinit
    exact refines_init htype hinit
  · intro st op st' _ h hnext
    exact h.step hnext

/-! ## The refinement -/

/-- Only an update can evict. -/
theorem evictions_mapNext {st st' : MapState} {op : MapOp} (hm : st.map.WellFormed)
    (hnext : mapNext st op = some st') (hop : ∀ key val, op ≠ .update key val) :
    st'.map.evictions = st.map.evictions := by
  cases op with
  | lookup key =>
      simp only [mapNext] at hnext
      split at hnext
      · cases hnext
        exact (contents_lookup hm key).2.2
      · contradiction
  | update key val => exact absurd rfl (hop key val)
  | delete key =>
      simp only [mapNext] at hnext
      split at hnext
      · cases hnext
        exact (contents_delete hm key).2.2.2
      · contradiction
  | write cell off byte =>
      simp only [mapNext] at hnext
      split at hnext
      · cases hnext
        rfl
      · contradiction

/-- A well-formed table uses no more cells than it has. -/
theorem card_used_le {m : LsMap} (hm : m.WellFormed) :
    ((Finset.range lsMapEntries).filter fun s => m.used s = true).card ≤ m.entries := by
  have hsub : ((Finset.range lsMapEntries).filter fun s => m.used s = true) ⊆
      Finset.range m.entries := by
    intro s hs
    exact Finset.mem_range.mpr (hm.used_lt s (Finset.mem_filter.mp hs).2)
  exact (Finset.card_le_card hsub).trans_eq (Finset.card_range _)

/-- After every use of a table that a hash descriptor creates: no two used cells
hold one key; a lookup returns a cell with the last value stored for the key,
and nothing exactly when the key was never stored or was removed since; an
update of a present key or of a table with room removes no other key, one of an
absent key in a full table removes exactly one other key and counts it, and
nothing else is counted; and no more cells are used than the descriptor
allows. -/
theorem lsMap_refines_boundedMap (d : LsMapDef) (htype : d.type = lsMapTypeHash)
    (st : MapState) (hst : (mapMachine d).Reachable st) :
    (∀ s t, st.map.used s = true → st.map.used t = true →
      st.map.keyAt s = st.map.keyAt t → s = t) ∧
    (∀ key, ((lsMapLookup st.map key).1 = none ↔ Absent st.log key) ∧
      ∀ off, (lsMapLookup st.map key).1 = some off →
        valueOf st.log key = some (st.map.vals.load off st.map.valSz)) ∧
    (∀ key val, key.length = st.map.keySz → val.length = st.map.valSz →
      (lsMapUpdate st.map key val).1 = true ∧
      ((contents st.map key ≠ none ∨ ¬st.map.Full) →
        contents (lsMapUpdate st.map key val).2 =
          Function.update (contents st.map) key (some val) ∧
        (lsMapUpdate st.map key val).2.evictions = st.map.evictions) ∧
      (contents st.map key = none → st.map.Full → ∃ victim, victim ≠ key ∧
        contents st.map victim ≠ none ∧
        contents (lsMapUpdate st.map key val).2 =
          Function.update (Function.update (contents st.map) victim none) key (some val) ∧
        (lsMapUpdate st.map key val).2.evictions = st.map.evictions + 1)) ∧
    (∀ op st', mapNext st op = some st' → (∀ key val, op ≠ .update key val) →
      st'.map.evictions = st.map.evictions) ∧
    ((Finset.range lsMapEntries).filter fun s => st.map.used s = true).card ≤
      d.maxEntries := by
  have hrefines := refines_of_reachable htype st hst
  have hm := hrefines.wellFormed
  refine ⟨hm.distinct, ?_, ?_, ?_, ?_⟩
  · intro key
    have hvalue := congrFun hrefines.contents_eq key
    constructor
    · rw [← valueOf_eq_none_iff, ← hvalue, contents, Option.map_eq_none_iff]
    · intro off hoff
      rw [← hvalue, contents, hoff, Option.map_some]
  · intro key val hkey hval
    rcases contents_update hm hkey hval with ⟨_, hret, hroom, hfull⟩
    refine ⟨hret, ?_, ?_⟩
    · intro h
      exact (hroom h).2
    · intro habsent hcrowded
      rcases hfull habsent hcrowded with ⟨victim, _, hne, hpresent, hcontents, hcount⟩
      exact ⟨victim, hne, hpresent, hcontents, hcount⟩
  · intro op st' hnext hop
    exact evictions_mapNext hm hnext hop
  · exact hrefines.entries ▸ card_used_le hm

/-- A table of two cells with one-byte keys and values. -/
def smallDef : LsMapDef :=
  { type := lsMapTypeHash, keySize := 1, valueSize := 1, maxEntries := 2, mapFlags := 0 }

/-- The table of {lit}`smallDef` before its first use. -/
def smallTable : MapState where
  map := mapOfDescriptor smallDef
  log := []

/-- Three stores, a write in place and a deletion: the third store evicts. -/
def smallRun : MapState :=
  ((mapMachine smallDef).run smallTable
    [.update [1] [10], .update [2] [20], .update [3] [30], .lookup [3], .write 0 0 77,
      .delete [3]]).getD smallTable

/-- One eviction is counted on that run, and a deleted key is absent. -/
theorem lsMap_refines_boundedMap_smallRun :
    smallRun.map.evictions = 1 ∧
    ((lsMapLookup smallRun.map [3]).1 = none ↔ Absent smallRun.log [3]) :=
  ⟨by decide +kernel,
    ((lsMap_refines_boundedMap smallDef rfl smallRun
      (Machine.reachable_run_getD
        (.start ⟨rfl, { m := fun _ => .zero, n := 0, generation := 0 }, 0, rfl, rfl⟩)
        (by decide +kernel))).2.1 [3]).1⟩

end Map
end LiveSurface
