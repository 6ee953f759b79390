import LiveSurface.Config.Seqlock
import LiveSurface.Map.Storage

/-!
# Pointers handed to programs

A lookup hands a program a pointer into the storage of its thread: to the value of a table, or to
a row of the copy that was made of the program's configuration.  The interpreter asks before every
access whether it may be made; compiled code does not ask.  Programs write through their pointers,
so both the values and the whole copy, its metadata included, may hold anything.

The addresses of a thread's objects do not change: every object has its place in a layout.

Main results:

- Theorem {lit}`lsMapAddrOk_iff` and theorem {lit}`lsConfigAddrOk_iff`: which accesses are
  accepted.
- Theorem {lit}`lsHMapLookup_accepted`: an access to what a lookup returns is accepted.
- Theorem {lit}`pointers_bounded`: both, in every run.
-/

namespace LiveSurface
namespace Map

open Config

/-! ## Addresses -/

/-- {lit}`sizeof (struct ls_map)`. -/
def lsMapSize : Nat := 12600

/-- {lit}`offsetof (struct ls_map, vals)`. -/
def lsMapVals : Nat := 4408

/-- {lit}`sizeof (struct ls_map_set)`. -/
def lsMapSetSize : Nat := lsMapMax * lsMapSize + 16

/-- {lit}`sizeof (struct ls_config_image)`. -/
def lsConfigImageSize : Nat := (lsConfigRows + 1) * lsConfigValueSize

/-- Where a thread's objects are. -/
structure Layout where
  image : Nat
  set : Option Nat → Nat
  image_fits : image + lsConfigImageSize ≤ 2 ^ 64
  set_fits : ∀ bank, set bank + lsMapSetSize ≤ 2 ^ 64

/-- The address of the values of a map. -/
def valsAddr (base i : Nat) : Nat := base + i * lsMapSize + lsMapVals

/-! ## The tests -/

/-- The address lies in the values of the map. -/
def inValues (base : Nat) (s : LsMapSet) (addr : UInt64) (i : Nat) : Bool :=
  let lo := UInt64.ofNat (valsAddr base i)
  let hi := lo + UInt64.ofNat (s.m i).entries * UInt64.ofNat lsMapValMax
  !(addr < lo || addr ≥ hi)

/-- {lit}`ls_map_addr_ok`: the first map that has the address decides. -/
def lsMapAddrOk (base : Nat) (s : LsMapSet) (addr size : UInt64) : Bool :=
  match (List.range s.n).find? (inValues base s addr) with
  | none => false
  | some i =>
      let lo := UInt64.ofNat (valsAddr base i)
      let hi := lo + UInt64.ofNat (s.m i).entries * UInt64.ofNat lsMapValMax
      if size > UInt64.ofNat lsMapValMax then false
      else if (addr - lo) % UInt64.ofNat lsMapValMax + size > UInt64.ofNat lsMapValMax then false
      else if addr + size > hi then false
      else true

/-- {lit}`ls_config_addr_ok`. -/
def lsConfigAddrOk (image : Nat) (v : LsConfigView) (addr size : UInt64) : Bool :=
  let base := UInt64.ofNat image
  let width := UInt64.ofNat lsConfigValueSize
  v.active && v.available && decide (addr ≥ base) &&
    decide (addr - base < UInt64.ofNat lsConfigImageSize) &&
    decide (size ≤ width - (addr - base) % width)

/-- {lit}`ls_map_bounds`, with the thread's storage after it. -/
def lsMapBounds (L : Layout) (g : Registry) (bank : Option Nat) (mapped : Bool) (v : LsConfigView)
    (th : ThreadMaps) (addr size : UInt64) : Bool × ThreadMaps :=
  if lsConfigAddrOk L.image v addr size then (true, th)
  else
    match lsMapCurrent g bank mapped th with
    | (none, th') => (false, th')
    | (some s, th') => (lsMapAddrOk (L.set bank) s addr size, th')

/-! ## Lookups -/

/-- What the atomic loads of a first lookup return.  The writer may be anywhere in its own
stores. -/
structure ConfigLoads where
  before : Nat
  words : Nat → Nat
  after : Nat

/-- The copy after its words have been copied. -/
def copyWords (image : Memory) (words : Nat → Nat) : Memory :=
  (List.range lsConfigWords).foldl
    (fun image i => image.store (8 * i) (littleEndian 8 (words i))) image

/-- {lit}`ls_config_lookup`, with the view after it.  The result is an offset into the copy. -/
def lsConfigLookup (v : LsConfigView) (loads : ConfigLoads) (handle : UInt64) (key : UInt32) :
    Option Nat × LsConfigView :=
  if !lookupAllowed v handle key then (none, v)
  else if v.attempted then (lookupResult v handle key, v)
  else
    let v := { v with attempted := true, handle := handle }
    if loads.before % 2 = 1 then (none, v)
    else
      let v := { v with image := copyWords v.image loads.words }
      if loads.before ≠ loads.after ∨ viewField64 v.image 8 ≠ handle ∨ viewField64 v.image 0 = 0 then
        (none, v)
      else
        let v := { v with available := true }
        (lookupResult v handle key, v)

/-- What a lookup leaves. -/
structure Looked where
  pointer : UInt64
  view : LsConfigView
  storage : ThreadMaps

/-- {lit}`ls_h_map_lookup`; {lit}`key` is the memory at the key's address, if that is one. -/
def lsHMapLookup (L : Layout) (g : Registry) (bank : Option Nat) (mapped : Bool) (v : LsConfigView)
    (th : ThreadMaps) (loads : ConfigLoads) (map : UInt64) (key : Option Memory) : Looked :=
  if isHandle map then
    match key with
    | none => { pointer := 0, view := v, storage := th }
    | some bytes =>
        match lsConfigLookup v loads map (UInt32.ofNat (ofLittleEndian (bytes.load 0 4))) with
        | (none, v') => { pointer := 0, view := v', storage := th }
        | (some off, v') => { pointer := UInt64.ofNat (L.image + off), view := v', storage := th }
  else
    match lsMapCurrent g bank mapped th with
    | (none, th') => { pointer := 0, view := v, storage := th' }
    | (some s, th') =>
        match lsMapGet s map, key with
        | some i, some bytes =>
            let (found, m) := lsMapLookup (s.m i) (bytes.load 0 (s.m i).keySz)
            { pointer :=
                match found with
                | none => 0
                | some off => UInt64.ofNat (valsAddr (L.set bank) i + off)
              view := v
              storage := { th' with maps := some { s with m := Function.update s.m i m } } }
        | _, _ => { pointer := 0, view := v, storage := th' }

/-! ## What is accepted -/

/-- A set whose maps fit their arrays.  A ring has no cells. -/
structure LsMapSet.Fits (s : LsMapSet) : Prop where
  n_le : s.n ≤ lsMapMax
  entries_le : ∀ i < s.n, (s.m i).entries ≤ lsMapEntries
  ring : ∀ i < s.n, (s.m i).isRing = true → (s.m i).entries = 0

/-- The access lies in one cell of a table. -/
def InCell (base : Nat) (s : LsMapSet) (addr size : Nat) : Prop :=
  ∃ i < s.n, (s.m i).isRing = false ∧ ∃ cell < (s.m i).entries,
    valsAddr base i + cell * lsMapValMax ≤ addr ∧
      addr < valsAddr base i + (cell + 1) * lsMapValMax ∧
      addr + size ≤ valsAddr base i + (cell + 1) * lsMapValMax

/-- The access lies in one row of the copy. -/
def InRow (image addr size : Nat) : Prop :=
  ∃ row ≤ lsConfigRows, image + row * lsConfigValueSize ≤ addr ∧
    addr < image + (row + 1) * lsConfigValueSize ∧
    addr + size ≤ image + (row + 1) * lsConfigValueSize

section Accepted

variable {base i : Nat} {s : LsMapSet} {addr : UInt64}

/-- The bounds of the values of a map, as the test computes them. -/
theorem toNat_values (hbase : base + lsMapSetSize ≤ 2 ^ 64) (hi : i < lsMapMax)
    {entries : Nat} (hentries : entries ≤ lsMapEntries) :
    (UInt64.ofNat (valsAddr base i)).toNat = valsAddr base i ∧
      (UInt64.ofNat (valsAddr base i) +
          UInt64.ofNat entries * UInt64.ofNat lsMapValMax).toNat =
        valsAddr base i + entries * lsMapValMax := by
  simp only [lsMapSetSize, lsMapMax, lsMapEntries, lsMapSize] at hbase hi hentries
  have hsize : valsAddr base i + entries * lsMapValMax < 2 ^ 64 := by
    simp only [valsAddr, lsMapSize, lsMapVals, lsMapValMax]
    omega
  have hlo : (UInt64.ofNat (valsAddr base i)).toNat = valsAddr base i := by
    rw [UInt64.toNat_ofNat']
    omega
  refine ⟨hlo, ?_⟩
  rw [UInt64.toNat_add, UInt64.toNat_mul, hlo, UInt64.toNat_ofNat', UInt64.toNat_ofNat']
  simp only [lsMapValMax] at hsize ⊢
  omega

theorem inValues_iff (hbase : base + lsMapSetSize ≤ 2 ^ 64) (hi : i < lsMapMax)
    (hentries : (s.m i).entries ≤ lsMapEntries) :
    inValues base s addr i = true ↔ valsAddr base i ≤ addr.toNat ∧
      addr.toNat < valsAddr base i + (s.m i).entries * lsMapValMax := by
  obtain ⟨hlo, hhi⟩ := toNat_values hbase hi hentries
  unfold inValues
  simp only [Bool.not_eq_true', Bool.or_eq_false_iff, decide_eq_false_iff_not,
    UInt64.lt_iff_toNat_lt, ge_iff_le, UInt64.le_iff_toNat_le, hlo, hhi]
  omega

/-- The address of a cell, as a lookup computes it. -/
theorem toNat_cell (hbase : base + lsMapSetSize ≤ 2 ^ 64) (hi : i < lsMapMax) {cell : Nat}
    (hcell : cell < lsMapEntries) :
    (UInt64.ofNat (valsAddr base i + cell * lsMapValMax)).toNat =
      valsAddr base i + cell * lsMapValMax := by
  simp only [lsMapSetSize, lsMapMax, lsMapSize, lsMapEntries] at hbase hi hcell
  simp only [valsAddr, lsMapSize, lsMapVals, lsMapValMax]
  rw [UInt64.toNat_ofNat']
  omega

/-- The values of two maps do not overlap. -/
theorem values_disjoint {j a : Nat} (hi : valsAddr base i ≤ a ∧ a < valsAddr base i + 8192)
    (hj : valsAddr base j ≤ a ∧ a < valsAddr base j + 8192) : i = j := by
  simp only [valsAddr, lsMapSize, lsMapVals] at hi hj
  omega

/-- The tests that follow once the map has been found. -/
theorem cell_tests (hbase : base + lsMapSetSize ≤ 2 ^ 64) (hi : i < lsMapMax)
    {entries : Nat} (hentries : entries ≤ lsMapEntries)
    (hin : valsAddr base i ≤ addr.toNat ∧ addr.toNat < valsAddr base i + entries * lsMapValMax)
    (size : UInt64) :
    (¬size > UInt64.ofNat lsMapValMax ∧
      ¬(addr - UInt64.ofNat (valsAddr base i)) % UInt64.ofNat lsMapValMax + size >
        UInt64.ofNat lsMapValMax ∧
      ¬addr + size > UInt64.ofNat (valsAddr base i) +
        UInt64.ofNat entries * UInt64.ofNat lsMapValMax) ↔
      (addr.toNat - valsAddr base i) % lsMapValMax + size.toNat ≤ lsMapValMax := by
  obtain ⟨hlo, hhi⟩ := toNat_values hbase hi hentries
  have hoff : (addr - UInt64.ofNat (valsAddr base i)).toNat = addr.toNat - valsAddr base i := by
    rw [UInt64.toNat_sub_of_le _ _ (by rw [UInt64.le_iff_toNat_le, hlo]; exact hin.1), hlo]
  have hwidth : (UInt64.ofNat lsMapValMax).toNat = 32 := by decide
  have hfit : valsAddr base i + entries * 32 < 2 ^ 64 := by
    have hlt := (UInt64.ofNat (valsAddr base i) +
      UInt64.ofNat entries * UInt64.ofNat lsMapValMax).toNat_lt
    rwa [hhi] at hlt
  generalize UInt64.ofNat (valsAddr base i) + UInt64.ofNat entries * UInt64.ofNat lsMapValMax = hi
    at hhi ⊢
  have hsize := size.toNat_lt
  have haddr := addr.toNat_lt
  simp only [gt_iff_lt, UInt64.lt_iff_toNat_lt, UInt64.toNat_add, UInt64.toNat_mod, hoff, hwidth,
    hhi, not_lt]
  simp only [lsMapValMax] at hin ⊢
  omega

/-- Which accesses to the values of a thread's maps are accepted. -/
theorem lsMapAddrOk_iff (hbase : base + lsMapSetSize ≤ 2 ^ 64) (hs : s.Fits) (size : UInt64) :
    lsMapAddrOk base s addr size = true ↔ InCell base s addr.toNat size.toNat := by
  have hspan : ∀ k < s.n, (s.m k).entries * lsMapValMax ≤ 8192 := by
    intro k hk
    have hle := hs.entries_le k hk
    simp only [lsMapEntries, lsMapValMax] at hle ⊢
    omega
  have hin : ∀ k < s.n, (inValues base s addr k = true ↔ valsAddr base k ≤ addr.toNat ∧
      addr.toNat < valsAddr base k + (s.m k).entries * lsMapValMax) := fun k hk =>
    inValues_iff hbase (hk.trans_le hs.n_le) (hs.entries_le k hk)
  unfold lsMapAddrOk
  cases hfind : (List.range s.n).find? (inValues base s addr) with
  | none =>
      constructor
      · intro h
        contradiction
      · rintro ⟨i, hi, _, cell, hcell, hle, hlt, _⟩
        have hnot := List.find?_eq_none.mp hfind i (List.mem_range.mpr hi)
        rw [hin i hi] at hnot
        refine absurd ⟨?_, ?_⟩ hnot
        · omega
        · have hlast : (cell + 1) * lsMapValMax ≤ (s.m i).entries * lsMapValMax :=
            Nat.mul_le_mul_right _ hcell
          omega
  | some i =>
      have hi : i < s.n := List.mem_range.mp (List.mem_of_find?_eq_some hfind)
      have hfound := List.find?_some hfind
      obtain ⟨hlo, hhi⟩ := (hin i hi).mp hfound
      have hcell := cell_tests hbase (hi.trans_le hs.n_le) (hs.entries_le i hi) ⟨hlo, hhi⟩ size
      simp only [Bool.if_false_left, Bool.and_eq_true, Bool.not_eq_true', decide_eq_false_iff_not,
        and_true]
      rw [hcell]
      constructor
      · intro hle
        refine ⟨i, hi, ?_, (addr.toNat - valsAddr base i) / lsMapValMax, ?_, ?_, ?_, ?_⟩
        · cases hring : (s.m i).isRing with
          | false => rfl
          | true =>
              rw [hs.ring i hi hring] at hhi
              omega
        all_goals
          simp only [lsMapValMax] at hlo hhi hle ⊢
          omega
      · rintro ⟨j, hj, _, cell, hcellj, hle, hlt, hend⟩
        have hlast : (cell + 1) * lsMapValMax ≤ (s.m j).entries * lsMapValMax :=
          Nat.mul_le_mul_right _ hcellj
        have hspanj := hspan j hj
        have hspani := hspan i hi
        have hini : valsAddr base i ≤ addr.toNat ∧ addr.toNat < valsAddr base i + 8192 :=
          ⟨hlo, by omega⟩
        have hinj : valsAddr base j ≤ addr.toNat ∧ addr.toNat < valsAddr base j + 8192 :=
          ⟨by omega, by omega⟩
        obtain rfl := values_disjoint hini hinj
        simp only [lsMapValMax] at hle hlt hend ⊢
        omega

/-- Which accesses to the copy of the configuration are accepted. -/
theorem lsConfigAddrOk_iff {image : Nat} (himage : image + lsConfigImageSize ≤ 2 ^ 64)
    (v : LsConfigView) (size : UInt64) :
    lsConfigAddrOk image v addr size = true ↔
      v.active = true ∧ v.available = true ∧ InRow image addr.toNat size.toNat := by
  have hbase : (UInt64.ofNat image).toNat = image := by
    simp only [lsConfigImageSize, lsConfigRows, lsConfigValueSize] at himage
    rw [UInt64.toNat_ofNat']
    omega
  have hwidth : (UInt64.ofNat lsConfigValueSize).toNat = 32 := by decide
  have hlength : (UInt64.ofNat lsConfigImageSize).toNat = 544 := by decide
  unfold lsConfigAddrOk
  simp only [Bool.and_eq_true, decide_eq_true_eq, and_assoc]
  refine and_congr_right fun _ => and_congr_right fun _ => ?_
  by_cases hge : image ≤ addr.toNat
  · have hoff : (addr - UInt64.ofNat image).toNat = addr.toNat - image := by
      rw [UInt64.toNat_sub_of_le _ _ (by rw [UInt64.le_iff_toNat_le, hbase]; exact hge), hbase]
    have hrow : ((addr - UInt64.ofNat image) % UInt64.ofNat lsConfigValueSize).toNat =
        (addr.toNat - image) % 32 := by
      rw [UInt64.toNat_mod, hoff, hwidth]
    have hrest : (UInt64.ofNat lsConfigValueSize -
        (addr - UInt64.ofNat image) % UInt64.ofNat lsConfigValueSize).toNat =
          32 - (addr.toNat - image) % 32 := by
      rw [UInt64.toNat_sub_of_le _ _ (by rw [UInt64.le_iff_toNat_le, hrow, hwidth]; omega), hrow,
        hwidth]
    rw [UInt64.lt_iff_toNat_lt, UInt64.le_iff_toNat_le, hoff, hrest, hlength, ge_iff_le,
      UInt64.le_iff_toNat_le, hbase]
    constructor
    · rintro ⟨_, hlt, hsize⟩
      refine ⟨(addr.toNat - image) / 32, ?_, ?_, ?_, ?_⟩
      all_goals
        simp only [lsConfigRows, lsConfigValueSize]
        omega
    · rintro ⟨row, hrow, hle, hlt, hend⟩
      simp only [lsConfigRows, lsConfigValueSize] at hrow hle hlt hend
      omega
  · constructor
    · rintro ⟨hle, _⟩
      rw [ge_iff_le, UInt64.le_iff_toNat_le, hbase] at hle
      exact absurd hle hge
    · rintro ⟨row, _, hle, _⟩
      omega

end Accepted

/-! ## What a lookup returns -/

/-- The value size that a program declared for the map it refers to. -/
def declaredSize (g : Registry) (map : UInt64) : Nat :=
  if isHandle map then lsConfigValueSize else (g.shapes (map &&& 255).toNat).valueSize

/-- A checked descriptor gives a ring without cells, or a table. -/
theorem mapOfDescriptor_cases {d : LsMapDef} (hcheck : lsMapCheckDescriptor d = true) :
    (mapOfDescriptor d).isRing = true ∧ (mapOfDescriptor d).entries = 0 ∨
      (mapOfDescriptor d).isRing = false ∧ 0 < (mapOfDescriptor d).entries ∧
        (mapOfDescriptor d).entries ≤ lsMapEntries ∧ d.valueSize ≤ lsMapValMax := by
  unfold mapOfDescriptor
  by_cases hring : d.type = lsMapTypeRingbuf ∨ d.type = lsMapTypePerfEventArray
  · rw [if_pos hring]
    exact Or.inl ⟨rfl, rfl⟩
  · rw [if_neg hring]
    have htype : d.type = lsMapTypeHash := by
      by_contra hne
      rw [lsMapCheckDescriptor, if_neg fun h => hring (Or.inl h), if_neg fun h => hring (Or.inr h),
        if_pos hne] at hcheck
      contradiction
    obtain ⟨_, _, _, hval, hpos, hle⟩ := lsMapCheckDescriptor_hash hcheck htype
    exact Or.inr ⟨rfl, hpos, hle, hval⟩

theorem LsMapSet.UpToDate.fits {s : LsMapSet} {g : Registry} (h : s.UpToDate g) (hok : g.Ok) :
    s.Fits := by
  have hshape : ∀ i < s.n, (s.m i).HasShape (g.shapes i) ∧
      lsMapCheckDescriptor (g.shapes i) = true := by
    intro i hi
    exact ⟨h.follows.shapes i hi, hok.checked i (h.n_eq ▸ hi)⟩
  refine ⟨h.n_eq ▸ hok.count_le, ?_, ?_⟩
  · intro i hi
    obtain ⟨hs, hcheck⟩ := hshape i hi
    rw [hs.entries]
    rcases mapOfDescriptor_cases hcheck with ⟨_, hzero⟩ | ⟨_, _, hle, _⟩
    · rw [hzero]
      exact Nat.zero_le _
    · exact hle
  · intro i hi hring
    obtain ⟨hs, hcheck⟩ := hshape i hi
    rw [hs.isRing] at hring
    rw [hs.entries]
    rcases mapOfDescriptor_cases hcheck with ⟨_, hzero⟩ | ⟨htable, _⟩
    · exact hzero
    · rw [htable] at hring
      contradiction

/-- A lookup answers with a cell of a table. -/
theorem lsMapLookup_cell {m : LsMap} {key : List UInt8} {off : Nat}
    (hpos : m.isRing = false → 0 < m.entries) (h : (lsMapLookup m key).1 = some off) :
    m.isRing = false ∧ ∃ cell < m.entries, off = cell * lsMapValMax := by
  unfold lsMapLookup at h
  split at h
  · contradiction
  · rename_i htable
    rw [Bool.not_eq_true] at htable
    split at h
    · contradiction
    · rename_i cell hslot
      refine ⟨htable, cell, ?_, (Option.some.inj h).symm⟩
      unfold lsMapSlot at hslot
      split at hslot
      · rename_i found hscan
        obtain rfl := Option.some.inj hslot
        exact (scan_found (hpos htable) hscan).1
      · simp at hslot

/-- What a lookup in a set that is up to date says of the map's declaration. -/
theorem LsMapSet.UpToDate.lookup {s : LsMapSet} {g : Registry} (h : s.UpToDate g) (hok : g.Ok)
    {i off : Nat} (hi : i < s.n) {key : List UInt8} (hfound : (lsMapLookup (s.m i) key).1 = some off) :
    (mapOfDescriptor (g.shapes i)).isRing = false ∧ (g.shapes i).valueSize ≤ lsMapValMax ∧
      ∃ cell < (mapOfDescriptor (g.shapes i)).entries, off = cell * lsMapValMax := by
  have hshape := h.follows.shapes i hi
  rcases mapOfDescriptor_cases (hok.checked i (h.n_eq ▸ hi)) with
    ⟨hring, _⟩ | ⟨htable, hpos, _, hval⟩
  · rw [lsMapLookup, if_pos (hshape.isRing.trans hring)] at hfound
    contradiction
  · have hcell := lsMapLookup_cell (fun _ => hshape.entries ▸ hpos) hfound
    rw [hshape.entries] at hcell
    exact ⟨htable, hval, hcell.2⟩

/-- The index in a reference is the index of the map. -/
theorem lsMapGet_eq_some {s : LsMapSet} {map : UInt64} {i : Nat} (h : lsMapGet s map = some i) :
    i = (map &&& 255).toNat ∧ i < lsMapMax ∧ i < s.n := by
  unfold lsMapGet at h
  split at h
  · contradiction
  · dsimp only at h
    split at h
    · contradiction
    · rename_i hin
      rw [not_or, Nat.not_le, Nat.not_le] at hin
      split at h
      · obtain rfl := Option.some.inj h
        exact ⟨rfl, hin.1, hin.2⟩
      · contradiction

theorem lsMapCurrentShared_again {g : Registry} {mapped : Bool} {th th' : ThreadMaps}
    {s s' : LsMapSet} (h : lsMapCurrentShared g mapped th = (some s, th')) (mapped' : Bool) :
    ∃ s'', (lsMapCurrentShared g mapped' { th' with maps := some s' }).1 = some s'' := by
  have hfailed : th'.failed = false := by
    unfold lsMapCurrentShared at h
    split at h
    · cases h
    · rename_i hgo
      rw [Bool.not_eq_true] at hgo
      split at h
      · obtain rfl := congrArg Prod.snd h
        exact hgo
      · split at h
        · cases h
        · split at h
          · cases h
          · split at h
            · cases h
            · obtain rfl := congrArg Prod.snd h
              exact hgo
  unfold lsMapCurrentShared
  rw [if_neg (by rw [hfailed]; exact Bool.false_ne_true)]
  exact ⟨_, rfl⟩

theorem lsMapCurrentNamespace_again {g : Registry} (hok : g.Ok) {bank : Nat} {mapped : Bool}
    {th th' : ThreadMaps} {s s' : LsMapSet}
    (h : lsMapCurrentNamespace g bank mapped th = (some s, th')) (hs' : s'.UpToDate g)
    (mapped' : Bool) :
    ∃ s'', (lsMapCurrentNamespace g bank mapped' { th' with maps := some s' }).1 = some s'' := by
  obtain ⟨s'', hcreate, _⟩ := createMaps_renew hok fun _ => hs'.follows
  unfold lsMapCurrentNamespace at h
  split at h
  · cases h
  · rename_i hbank
    split at h
    · cases h
    · rename_i hgo
      rw [Bool.not_eq_true] at hgo
      split at h
      · cases h
      · rename_i hcount
        split at h
        · cases h
        · dsimp only at h
          split at h
          · cases h
          · obtain rfl := congrArg Prod.snd h
            unfold lsMapCurrentNamespace
            dsimp only
            rw [if_neg hbank, if_neg (by rw [hgo]; exact Bool.false_ne_true), if_neg hcount,
              if_neg (by simp), Option.getD_some, hcreate]
            exact ⟨s'', rfl⟩

/-- A thread that has its maps gets them again. -/
theorem lsMapCurrent_again {g : Registry} (hok : g.Ok) {bank : Option Nat} {mapped : Bool}
    {th th' : ThreadMaps} {s s' : LsMapSet} (h : lsMapCurrent g bank mapped th = (some s, th'))
    (hs' : s'.UpToDate g) (mapped' : Bool) :
    ∃ s'', (lsMapCurrent g bank mapped' { th' with maps := some s' }).1 = some s'' := by
  cases bank with
  | none => exact lsMapCurrentShared_again h mapped'
  | some bank => exact lsMapCurrentNamespace_again hok h hs' mapped'

theorem lsConfigLookup_cases {v : LsConfigView} {loads : ConfigLoads} {handle : UInt64}
    {key : UInt32} {off : Nat} {v' : LsConfigView}
    (h : lsConfigLookup v loads handle key = (some off, v')) :
    v'.active = true ∧ v'.available = true ∧ key.toNat ≤ lsConfigRows ∧
      off = key.toNat * lsConfigValueSize := by
  unfold lsConfigLookup at h
  split at h
  · cases h
  · rename_i hallowed
    simp only [lookupAllowed, Bool.not_eq_true', Bool.not_eq_false, Bool.and_eq_true,
      decide_eq_true_eq] at hallowed
    have hanswer : ∀ w : LsConfigView, lookupResult w handle key = some off → w.available = true ∧
        off = key.toNat * lsConfigValueSize := by
      intro w hw
      obtain ⟨havailable, _, hoff⟩ := lookupResult_eq_some hw
      exact ⟨havailable, hoff⟩
    split at h
    · obtain ⟨hresult, rfl⟩ := Prod.mk.inj h
      obtain ⟨havailable, hoff⟩ := hanswer _ hresult
      exact ⟨hallowed.1.1.1.1, havailable, hallowed.2, hoff⟩
    · dsimp only at h
      split at h
      · cases h
      · split at h
        · cases h
        · obtain ⟨hresult, rfl⟩ := Prod.mk.inj h
          obtain ⟨havailable, hoff⟩ := hanswer _ hresult
          exact ⟨hallowed.1.1.1.1, havailable, hallowed.2, hoff⟩

section Lookup

variable {L : Layout} {g : Registry} {bank : Option Nat} {mapped : Bool} {v : LsConfigView}
  {th : ThreadMaps} {loads : ConfigLoads} {map : UInt64} {key : Option Memory}

/-- Through a handle a program reaches the rows of its copy and nothing else, whatever the copy
holds. -/
theorem lsHMapLookup_row (hhandle : isHandle map = true)
    (hpointer : (lsHMapLookup L g bank mapped v th loads map key).pointer ≠ 0) :
    (lsHMapLookup L g bank mapped v th loads map key).view.active = true ∧
      (lsHMapLookup L g bank mapped v th loads map key).view.available = true ∧
      ∃ row ≤ lsConfigRows, (lsHMapLookup L g bank mapped v th loads map key).pointer.toNat =
        L.image + row * lsConfigValueSize := by
  unfold lsHMapLookup at hpointer ⊢
  rw [if_pos hhandle] at hpointer ⊢
  cases key with
  | none => exact absurd rfl hpointer
  | some bytes =>
      dsimp only at hpointer ⊢
      split at hpointer
      · exact absurd rfl hpointer
      · rename_i off v' hlookup
        obtain ⟨hactive, havailable, hkey, hoff⟩ := lsConfigLookup_cases hlookup
        refine ⟨hactive, havailable, _, hkey, ?_⟩
        have hfits := L.image_fits
        simp only [lsConfigImageSize, lsConfigRows, lsConfigValueSize] at hfits hkey hoff ⊢
        change (UInt64.ofNat (L.image + off)).toNat = _
        rw [UInt64.toNat_ofNat', hoff]
        omega

/-- Through a reference a program reaches a cell of the table that the reference resolves to. -/
theorem lsHMapLookup_reference (hok : g.Ok) (hth : th.Ok g) (hhandle : isHandle map = false)
    (hpointer : (lsHMapLookup L g bank mapped v th loads map key).pointer ≠ 0) (mapped' : Bool) :
    declaredSize g map ≤ lsMapValMax ∧ ∃ s'', (lsMapCurrent g bank mapped'
        (lsHMapLookup L g bank mapped v th loads map key).storage).1 = some s'' ∧
      s''.UpToDate g ∧ ∃ i < s''.n, (s''.m i).isRing = false ∧ ∃ cell < (s''.m i).entries,
        (lsHMapLookup L g bank mapped v th loads map key).pointer.toNat =
          valsAddr (L.set bank) i + cell * lsMapValMax := by
  obtain ⟨_, hset⟩ := lsMapCurrent_spec hok hth bank mapped
  unfold lsHMapLookup at hpointer ⊢
  rw [if_neg (by rw [hhandle]; exact Bool.false_ne_true)] at hpointer ⊢
  cases hcurrent : lsMapCurrent g bank mapped th with
  | mk found th' =>
      rw [hcurrent] at hpointer hset
      cases found with
      | none => exact absurd rfl hpointer
      | some s =>
          obtain ⟨_, hdate⟩ := hset s rfl
          dsimp only at hpointer ⊢
          split at hpointer
          · rename_i i bytes hget
            obtain ⟨hindex, _, hi⟩ := lsMapGet_eq_some hget
            dsimp only at hpointer ⊢
            -- the set after the lookup has the same tables, and is found again
            have hdate' := hdate.apply i (.lookup (bytes.load 0 (s.m i).keySz))
            obtain ⟨s'', hagain⟩ := lsMapCurrent_again hok hcurrent hdate' mapped'
            have hdate'' := ((lsMapCurrent_spec hok (ThreadMaps.ok_of_upToDate hdate' th'.failed) bank
              mapped').2 s'' hagain).2
            have hi'' : i < s''.n := hdate''.n_eq ▸ hdate.n_eq ▸ hi
            have hshape'' := hdate''.follows.shapes i hi''
            cases hfound : (lsMapLookup (s.m i) (bytes.load 0 (s.m i).keySz)).1 with
            | none =>
                rw [hfound] at hpointer
                exact absurd rfl hpointer
            | some off =>
                obtain ⟨htable, hval, cell, hcell, hoff⟩ := hdate.lookup hok hi hfound
                refine ⟨?_, s'', hagain, hdate'', i, hi'', ?_, cell, ?_, ?_⟩
                · rwa [declaredSize, if_neg (by rw [hhandle]; exact Bool.false_ne_true), ← hindex]
                · rwa [hshape''.isRing]
                · rwa [hshape''.entries]
                · rw [hoff]
                  exact toNat_cell (L.set_fits bank) (hi''.trans_le (hdate''.fits hok).n_le)
                    ((hshape''.entries ▸ hcell).trans_le ((hdate''.fits hok).entries_le i hi''))
          · exact absurd rfl hpointer

/-- What a lookup returns may be accessed in its whole declared size. -/
theorem lsHMapLookup_accepted (hok : g.Ok) (hth : th.Ok g)
    (hpointer : (lsHMapLookup L g bank mapped v th loads map key).pointer ≠ 0) (mapped' : Bool)
    {size : UInt64} (hsize : size.toNat ≤ declaredSize g map) :
    (lsMapBounds L g bank mapped' (lsHMapLookup L g bank mapped v th loads map key).view
      (lsHMapLookup L g bank mapped v th loads map key).storage
      (lsHMapLookup L g bank mapped v th loads map key).pointer size).1 = true := by
  unfold lsMapBounds
  split
  · rfl
  · rename_i hview
    cases hhandle : isHandle map with
    | true =>
        obtain ⟨hactive, havailable, row, hrow, haddr⟩ := lsHMapLookup_row hhandle hpointer
        rw [declaredSize, if_pos hhandle] at hsize
        refine absurd ((lsConfigAddrOk_iff L.image_fits _ _).mpr
          ⟨hactive, havailable, row, hrow, ?_, ?_, ?_⟩) hview
        all_goals
          simp only [lsConfigValueSize] at haddr hsize ⊢
          omega
    | false =>
        obtain ⟨hdeclared, s, hagain, hdate, i, hi, htable, cell, hcell, haddr⟩ :=
          lsHMapLookup_reference hok hth hhandle hpointer mapped'
        cases hcurrent : lsMapCurrent g bank mapped'
            (lsHMapLookup L g bank mapped v th loads map key).storage with
        | mk found th' =>
            rw [hcurrent] at hagain
            obtain rfl : found = some s := hagain
            refine (lsMapAddrOk_iff (L.set_fits bank) (hdate.fits hok) size).mpr
              ⟨i, hi, htable, cell, hcell, ?_, ?_, ?_⟩
            all_goals
              simp only [lsMapValMax] at haddr hdeclared ⊢
              omega

/-- An access that is accepted stays in one cell or one row. -/
theorem lsMapBounds_inside (hok : g.Ok) (hth : th.Ok g) {addr size : UInt64}
    (h : (lsMapBounds L g bank mapped v th addr size).1 = true) :
    (∃ s, (lsMapCurrent g bank mapped th).1 = some s ∧
        InCell (L.set bank) s addr.toNat size.toNat) ∨
      v.active = true ∧ v.available = true ∧ InRow L.image addr.toNat size.toNat := by
  unfold lsMapBounds at h
  split at h
  · rename_i hview
    exact Or.inr ((lsConfigAddrOk_iff L.image_fits v size).mp hview)
  · obtain ⟨_, hset⟩ := lsMapCurrent_spec hok hth bank mapped
    cases hcurrent : lsMapCurrent g bank mapped th with
    | mk found th' =>
        rw [hcurrent] at h hset
        cases found with
        | none => contradiction
        | some s =>
            exact Or.inl ⟨s, rfl, (lsMapAddrOk_iff (L.set_fits bank)
              ((hset s rfl).2.fits hok) size).mp h⟩

theorem lsMapBounds_storage (hok : g.Ok) (hth : th.Ok g) (addr size : UInt64) :
    (lsMapBounds L g bank mapped v th addr size).2.Ok g := by
  have hcurrent := (lsMapCurrent_spec hok hth bank mapped).1
  unfold lsMapBounds
  split
  · exact hth
  · split
    · rename_i th' heq
      rw [heq] at hcurrent
      exact hcurrent
    · rename_i s th' heq
      rw [heq] at hcurrent
      exact hcurrent

theorem lsHMapLookup_storage (hok : g.Ok) (hth : th.Ok g) :
    (lsHMapLookup L g bank mapped v th loads map key).storage.Ok g := by
  obtain ⟨hcurrent, hset⟩ := lsMapCurrent_spec hok hth bank mapped
  unfold lsHMapLookup
  split
  · split
    · exact hth
    · split
      · exact hth
      · exact hth
  · split
    · rename_i th' heq
      rw [heq] at hcurrent
      exact hcurrent
    · rename_i s th' heq
      rw [heq] at hcurrent hset
      split
      · rename_i i bytes hget
        exact ThreadMaps.ok_of_upToDate
          ((hset s rfl).2.apply i (.lookup (bytes.load 0 (s.m i).keySz))) th'.failed
      · exact hcurrent

end Lookup

/-! ## Programs that run -/

/-- The maps, the view of every thread, the registry that the program on it uses, and the pointers
that this program was given, each with the value size it declared. -/
structure Helpers (T : Type) where
  maps : Maps T
  view : T → LsConfigView
  bank : T → Option Nat
  given : T → List (UInt64 × Nat)

inductive HelperAct (T : Type)
  /-- Anything that happens to registries and maps otherwise. -/
  | maps (a : MapsAction T)
  | begin (t : T) (slot : Nat) (bank : Option Nat)
  | finish (t : T)
  | lookup (t : T) (mapped : Bool) (loads : ConfigLoads) (map : UInt64) (key : Option Memory)
  /-- The interpreter asks before an access. -/
  | check (t : T) (mapped : Bool) (addr size : UInt64)
  /-- The program stores a byte. -/
  | write (t : T) (addr : UInt64) (byte : UInt8)

/-- A byte is stored at an address, over the copy of the configuration or over a value. -/
def writeByte (L : Layout) (bank : Option Nat) (v : LsConfigView) (th : ThreadMaps) (addr : Nat)
    (byte : UInt8) : LsConfigView × ThreadMaps :=
  if L.image ≤ addr ∧ addr < L.image + lsConfigImageSize then
    ({ v with image := v.image.store (addr - L.image) [byte] }, th)
  else
    match th.maps with
    | none => (v, th)
    | some s =>
        let lo := valsAddr (L.set bank)
        match (List.range s.n).find? fun i => lo i ≤ addr ∧ addr < lo i + lsMapEntries * lsMapValMax with
        | none => (v, th)
        | some i =>
            let op := MapOp.write ((addr - lo i) / lsMapValMax) ((addr - lo i) % lsMapValMax) byte
            (v, { th with maps := some { s with m := Function.update s.m i (op.apply (s.m i)) } })

section Machine

variable {T : Type} [DecidableEq T] (L : T → Layout)

/-- One thread's view and storage are replaced. -/
def Helpers.put (s : Helpers T) (t : T) (v : LsConfigView) (th : ThreadMaps) : Helpers T :=
  { s with
    view := Function.update s.view t v
    maps :=
      { s.maps with
        storage := Function.update s.maps.storage t
          (Function.update (s.maps.storage t) (s.bank t) th) } }

def Helpers.looked (s : Helpers T) (t : T) (mapped : Bool) (loads : ConfigLoads) (map : UInt64)
    (key : Option Memory) : Looked :=
  lsHMapLookup (L t) (s.maps.registry (s.bank t)) (s.bank t) mapped (s.view t)
    (s.maps.storage t (s.bank t)) loads map key

/-- The state after a lookup. -/
def Helpers.lookup (s : Helpers T) (t : T) (mapped : Bool) (loads : ConfigLoads) (map : UInt64)
    (key : Option Memory) : Helpers T :=
  let r := s.looked L t mapped loads map key
  let given :=
    if r.pointer = 0 then s.given t
    else (r.pointer, declaredSize (s.maps.registry (s.bank t)) map) :: s.given t
  { s.put t r.view r.storage with given := Function.update s.given t given }

/-- The answer to an access, and the storage after it. -/
def Helpers.bounds (s : Helpers T) (t : T) (mapped : Bool) (addr size : UInt64) :
    Bool × ThreadMaps :=
  lsMapBounds (L t) (s.maps.registry (s.bank t)) (s.bank t) mapped (s.view t)
    (s.maps.storage t (s.bank t)) addr size

/-- The interpreter lets a program store where the test allows it; compiled code stores through
what it was given. -/
def Helpers.MayWrite (s : Helpers T) (t : T) (addr : UInt64) : Prop :=
  (s.bounds L t true addr 1).1 = true ∨
    ∃ p ∈ s.given t, p.1 ≤ addr ∧ addr.toNat < p.1.toNat + p.2

instance (s : Helpers T) (t : T) (addr : UInt64) : Decidable (s.MayWrite L t addr) :=
  inferInstanceAs (Decidable (_ ∨ _))

def helperMachine : Machine (Helpers T) (HelperAct T) where
  init s := (mapsMachine T).init s.maps ∧ (∀ t, (s.view t).active = false) ∧ ∀ t, s.given t = []
  next s
    | .maps a => ((mapsMachine T).next s.maps a).map fun maps => { s with maps }
    | .begin t slot bank =>
        some { s with
          view := Function.update s.view t (lsConfigBegin (s.view t) slot)
          bank := Function.update s.bank t bank
          given := Function.update s.given t [] }
    | .finish t =>
        some { s with
          view := Function.update s.view t { s.view t with active := false }
          given := Function.update s.given t [] }
    | .lookup t mapped loads map key => some (s.lookup L t mapped loads map key)
    | .check t mapped addr size => some (s.put t (s.view t) (s.bounds L t mapped addr size).2)
    | .write t addr byte =>
        if s.MayWrite L t addr then
          let w := writeByte (L t) (s.bank t) (s.view t) (s.maps.storage t (s.bank t)) addr.toNat byte
          some (s.put t w.1 w.2)
        else none

variable {L} {s : Helpers T}

theorem Maps.Ok.put {t : T} (h : s.maps.Ok) (v : LsConfigView) {th : ThreadMaps}
    (hth : th.Ok (s.maps.registry (s.bank t))) : (s.put t v th).maps.Ok := by
  refine ⟨h.registries, ?_, h.explained⟩
  intro t' b
  change (Function.update s.maps.storage t _ t' b).Ok (s.maps.registry b)
  by_cases ht : t' = t
  · rw [ht, Function.update_self]
    by_cases hb : b = s.bank t
    · rw [hb, Function.update_self]
      exact hth
    · rw [Function.update_of_ne hb]
      exact h.storage t b
  · rw [Function.update_of_ne ht]
    exact h.storage t' b

omit [DecidableEq T] in
theorem writeByte_storage {L : Layout} {g : Registry} {bank : Option Nat} {v : LsConfigView}
    {th : ThreadMaps} (h : th.Ok g) (addr : Nat) (byte : UInt8) :
    (writeByte L bank v th addr byte).2.Ok g := by
  unfold writeByte
  split
  · exact h
  · split
    · exact h
    · rename_i s hs
      dsimp only
      split
      · exact h
      · rename_i i _
        intro s' hs'
        obtain rfl := Option.some.inj hs'
        exact ⟨(h s hs).1, fun heq => ((h s hs).2 heq).apply i _⟩

/-- The registries and the storage stay in order, whatever programs write. -/
theorem helpers_ok : ∀ s, (helperMachine L).Reachable s → s.maps.Ok := by
  apply Machine.Reachable.invariant
  · intro s hs
    exact maps_ok_init hs.1
  · intro s a s' _ h hnext
    cases a with
    | maps a =>
        obtain ⟨maps, hmaps, rfl⟩ := Option.map_eq_some_iff.mp hnext
        exact h.next hmaps
    | begin t slot bank =>
        obtain rfl := Option.some.inj hnext
        exact h
    | finish t =>
        obtain rfl := Option.some.inj hnext
        exact h
    | lookup t mapped loads map key =>
        obtain rfl := Option.some.inj hnext
        exact Maps.Ok.put h (s.looked L t mapped loads map key).view
          (lsHMapLookup_storage (h.registries _) (h.storage t _))
    | check t mapped addr size =>
        obtain rfl := Option.some.inj hnext
        exact Maps.Ok.put h _ (lsMapBounds_storage (h.registries _) (h.storage t _) addr size)
    | write t addr byte =>
        change (if s.MayWrite L t addr then _ else _) = _ at hnext
        split at hnext
        · obtain rfl := Option.some.inj hnext
          exact Maps.Ok.put h _ (writeByte_storage (h.storage t _) addr.toNat byte)
        · contradiction

/-- In every run, and whatever programs have written: what a lookup returns may be accessed in its
declared size, an access that is accepted stays in one cell of a table or in one row of a copy
that is available, and a lookup through a handle stays in the copy. -/
theorem pointers_bounded (s : Helpers T) (hs : (helperMachine L).Reachable s) (t : T) :
    (∀ mapped loads map key, (s.looked L t mapped loads map key).pointer ≠ 0 →
      ∀ mapped' size, size.toNat ≤ declaredSize (s.maps.registry (s.bank t)) map →
        ((s.lookup L t mapped loads map key).bounds L t mapped'
          (s.looked L t mapped loads map key).pointer size).1 = true) ∧
    (∀ mapped addr size, (s.bounds L t mapped addr size).1 = true →
      (∃ set, (lsMapCurrent (s.maps.registry (s.bank t)) (s.bank t) mapped
          (s.maps.storage t (s.bank t))).1 = some set ∧
        InCell ((L t).set (s.bank t)) set addr.toNat size.toNat) ∨
      (s.view t).active = true ∧ (s.view t).available = true ∧
        InRow (L t).image addr.toNat size.toNat) ∧
    ∀ mapped loads map key, isHandle map = true →
      (s.looked L t mapped loads map key).pointer ≠ 0 →
        (L t).image ≤ (s.looked L t mapped loads map key).pointer.toNat ∧
          (s.looked L t mapped loads map key).pointer.toNat + lsConfigValueSize ≤
            (L t).image + lsConfigImageSize := by
  have hmaps := helpers_ok s hs
  have hok := hmaps.registries (s.bank t)
  have hth := hmaps.storage t (s.bank t)
  refine ⟨?_, ?_, ?_⟩
  · intro mapped loads map key hpointer mapped' size hsize
    have haccepted := lsHMapLookup_accepted hok hth hpointer mapped' hsize
    have hview : (s.lookup L t mapped loads map key).view t =
        (s.looked L t mapped loads map key).view := Function.update_self _ _ _
    have hstorage : (s.lookup L t mapped loads map key).maps.storage t (s.bank t) =
        (s.looked L t mapped loads map key).storage := by
      change Function.update s.maps.storage t _ t (s.bank t) = _
      rw [Function.update_self, Function.update_self]
    unfold Helpers.bounds
    rw [hview]
    change (lsMapBounds (L t) (s.maps.registry (s.bank t)) (s.bank t) mapped' _
      ((s.lookup L t mapped loads map key).maps.storage t (s.bank t)) _ size).1 = true
    rw [hstorage]
    exact haccepted
  · intro mapped addr size haccepted
    exact lsMapBounds_inside hok hth haccepted
  · intro mapped loads map key hhandle hpointer
    obtain ⟨_, _, row, hrow, haddr⟩ := lsHMapLookup_row hhandle hpointer
    change (s.looked L t mapped loads map key).pointer.toNat = _ at haddr
    rw [haddr]
    simp only [lsConfigImageSize, lsConfigRows, lsConfigValueSize] at hrow ⊢
    omega

end Machine

/-! A program is given a value and the metadata of a configuration with one row, stores over both,
and so makes the configuration look as if it had all its rows. -/

def sampleLayout : Layout where
  image := 0x7000
  set _ := 0x10000
  image_fits := by decide
  set_fits _ := by decide

def sampleHandle : UInt64 := 0x8000000000000045

def oneRow : ConfigLoads where
  before := 2
  words i := if i = 0 then 1 else if i = 1 then sampleHandle.toNat else if i = 2 then 2 ^ 32 + 1 else 0
  after := 2

def helpersStart : Helpers Unit where
  maps := emptyMaps
  view _ :=
    { active := false, attempted := false, available := false, slot := 0, handle := 0,
      image := fun _ => 0 }
  bank _ := none
  given _ := []

def scribbles : List (HelperAct Unit) :=
  [.maps (.reloc (sampleRelocation 8)), .begin () 5 none,
    .maps (.helper () none true 0 (.update [0, 0, 0, 0] (List.replicate 8 9))),
    .lookup () true oneRow 0 (some fun _ => 0),
    .lookup () true oneRow sampleHandle (some fun _ => 0), .write () 0x7014 16]

/-- The state after {lit}`scribbles`. -/
def scribbledHelpers : Helpers Unit :=
  ((helperMachine fun _ => sampleLayout).run helpersStart scribbles).getD helpersStart

theorem pointers_bounded_scribbled :
    scribbledHelpers.given () = [(0x7000, 32), (0x111d8, 8)] ∧
      (scribbledHelpers.looked (fun _ => sampleLayout) () true oneRow sampleHandle
        (some fun i => if i = 0 then 16 else 0)).pointer = 0x7200 ∧
      ((scribbledHelpers.lookup (fun _ => sampleLayout) () true oneRow sampleHandle
        (some fun i => if i = 0 then 16 else 0)).bounds (fun _ => sampleLayout) () true
          (scribbledHelpers.looked (fun _ => sampleLayout) () true oneRow sampleHandle
            (some fun i => if i = 0 then 16 else 0)).pointer 32).1 = true :=
  ⟨by decide +kernel, by decide +kernel,
    (pointers_bounded scribbledHelpers
      (Machine.reachable_run_getD (.start ⟨⟨fun _ => rfl, fun _ _ => rfl, rfl, rfl⟩, fun _ => rfl,
        fun _ => rfl⟩) (by decide +kernel)) ()).1 true oneRow sampleHandle
      (some fun i => if i = 0 then 16 else 0) (by decide +kernel) true 32 (by decide +kernel)⟩

end Map
end LiveSurface
