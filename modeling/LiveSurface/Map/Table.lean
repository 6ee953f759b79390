import LiveSurface.Library.Bytes

/-!
# Bounded hash tables

The state that survives between program invocations.  A table has a fixed
number of cells, each a used flag, a key of at most 16 bytes and a value of at
most 32; a key is found by probing every cell from its hash on, and an insertion
into a full table overwrites the cell at the hash.

Sizes and indices are natural numbers: every table that
{lit}`lsMapCheckDescriptor` admits stays far below 32 bits.  The four counters
are 64-bit words.

Main results:

- Theorem {lit}`scan_found` and theorem {lit}`scan_absent`: what one pass of the
  probe loop establishes.
- Theorem {lit}`lsMapSlot_eq_some_iff`: without insertion, the probe returns
  exactly the cell that holds the key.
- Theorem {lit}`lsMapSlot_insert`: with insertion, it returns that cell, else a
  free one, else the cell at the hash.
-/

namespace LiveSurface
namespace Map

/-! ## Layout -/

def lsMapMax : Nat := 4
def lsMapEntries : Nat := 256
def lsMapKeyMax : Nat := 16
def lsMapValMax : Nat := 32

def lsMapTypeHash : Nat := 1
def lsMapTypeRingbuf : Nat := 27
def lsMapTypePerfEventArray : Nat := 4

/-- The map descriptor a program declares. -/
structure LsMapDef where
  type : Nat
  keySize : Nat
  valueSize : Nat
  maxEntries : Nat
  mapFlags : Nat
deriving DecidableEq

/-- One map of a thread. -/
structure LsMap where
  inUse : Bool
  isRing : Bool
  keySz : Nat
  valSz : Nat
  entries : Nat
  hits : UInt64
  misses : UInt64
  evictions : UInt64
  updates : UInt64
  used : Nat → Bool
  keys : Memory
  vals : Memory

/-- The maps of a thread. -/
structure LsMapSet where
  m : Nat → LsMap
  n : Nat
  generation : UInt64

/-- A map after {lit}`memset`. -/
def LsMap.zero : LsMap where
  inUse := false
  isRing := false
  keySz := 0
  valSz := 0
  entries := 0
  hits := 0
  misses := 0
  evictions := 0
  updates := 0
  used := fun _ => false
  keys := fun _ => 0
  vals := fun _ => 0

/-- The key stored in a cell. -/
def LsMap.keyAt (m : LsMap) (s : Nat) : List UInt8 :=
  m.keys.load (s * lsMapKeyMax) m.keySz

/-- The value stored in a cell. -/
def LsMap.valAt (m : LsMap) (s : Nat) : List UInt8 :=
  m.vals.load (s * lsMapValMax) m.valSz

/-! ## Creation -/

/-- Whether the host can store what a descriptor declares. -/
def lsMapCheckDescriptor (d : LsMapDef) : Bool :=
  if d.type = lsMapTypeRingbuf then
    if d.keySize ≠ 0 ∨ d.valueSize ≠ 0 then false
    else if d.maxEntries = 0 then false
    else true
  else if d.type = lsMapTypePerfEventArray then
    if d.maxEntries = 0 then false
    else true
  else if d.type ≠ lsMapTypeHash then false
  else if d.keySize = 0 ∨ d.keySize > lsMapKeyMax then false
  else if d.valueSize = 0 ∨ d.valueSize > lsMapValMax then false
  else if d.maxEntries = 0 ∨ d.maxEntries > lsMapEntries then false
  else true

/-- The map a checked descriptor gives: a handle on the egress ring, or a table. -/
def mapOfDescriptor (d : LsMapDef) : LsMap :=
  if d.type = lsMapTypeRingbuf ∨ d.type = lsMapTypePerfEventArray then
    { LsMap.zero with inUse := true, isRing := true }
  else
    { LsMap.zero with
      inUse := true
      keySz := d.keySize
      valSz := d.valueSize
      entries := d.maxEntries }

/-- Create a map from a descriptor; {lit}`none` is a refusal. -/
def lsMapCreate (s : LsMapSet) (d : LsMapDef) : Option Nat × LsMapSet :=
  if s.n ≥ lsMapMax ∨ lsMapCheckDescriptor d = false then
    (none, s)
  else
    (some s.n, { s with m := Function.update s.m s.n (mapOfDescriptor d), n := s.n + 1 })

/-! ## Probing -/

/-- FNV-1a over the key bytes, reduced to the largest table. -/
def lsMapHash (key : List UInt8) : Nat :=
  let h : UInt32 := key.foldl (fun h b => (h ^^^ b.toUInt32) * 16777619) 2166136261
  (h &&& 255).toNat

/-- How a scan of the table ends: at the key, or with the first free cell. -/
inductive SlotScan
  | found (s : Nat)
  | absent (empty : Option Nat)

/-- The loop of {lit}`lsMapSlot`, with {lit}`n` probes left after {lit}`i`. -/
def scan (m : LsMap) (key : List UInt8) (h : Nat) : Nat → Nat → Option Nat → SlotScan
  | 0, _, empty => .absent empty
  | n + 1, i, empty =>
      let s := (h + i) % m.entries
      if m.used s = false then
        scan m key h n (i + 1) (if empty = none then some s else empty)
      else if m.keyAt s = key then
        .found s
      else
        scan m key h n (i + 1) empty

/-- The home cell of a key. -/
def homeSlot (m : LsMap) (key : List UInt8) : Nat :=
  lsMapHash key % m.entries

/-- The cell for a key; {lit}`none` is the source's {lit}`-1`. -/
def lsMapSlot (m : LsMap) (key : List UInt8) (forInsert : Bool) : Option Nat :=
  match scan m key (homeSlot m key) m.entries 0 none with
  | .found s => some s
  | .absent empty =>
      if forInsert && empty.isSome then empty
      else if forInsert then some (homeSlot m key)
      else none

/-! ## Operations -/

/-- Look a key up; a key argument stands for the {lit}`keySz` bytes its pointer
addresses, and the result is the cell's offset in the value array. -/
def lsMapLookup (m : LsMap) (key : List UInt8) : Option Nat × LsMap :=
  if m.isRing then
    (none, m)
  else
    match lsMapSlot m key false with
    | none => (none, { m with misses := m.misses + 1 })
    | some s => (some (s * lsMapValMax), { m with hits := m.hits + 1 })

/-- Store a value under a key; {lit}`false` is the source's {lit}`-1`. -/
def lsMapUpdate (m : LsMap) (key val : List UInt8) : Bool × LsMap :=
  if m.isRing then
    (false, m)
  else
    match lsMapSlot m key true with
    | none => (false, m)
    | some s =>
        (true,
          { m with
            evictions := if m.used s = true ∧ m.keyAt s ≠ key then m.evictions + 1
              else m.evictions
            keys := m.keys.store (s * lsMapKeyMax) (key.take m.keySz)
            vals := m.vals.store (s * lsMapValMax) (val.take m.valSz)
            used := Function.update m.used s true
            updates := m.updates + 1 })

/-- Delete a key; {lit}`false` is the source's {lit}`-1`. -/
def lsMapDelete (m : LsMap) (key : List UInt8) : Bool × LsMap :=
  if m.isRing then
    (false, m)
  else
    match lsMapSlot m key false with
    | none => (false, m)
    | some s => (true, { m with used := Function.update m.used s false })

/-! ## Well-formed tables -/

/-- What holds of every table between operations: the shape its descriptor was
checked for, and no key in two cells. -/
structure LsMap.WellFormed (m : LsMap) : Prop where
  table : m.isRing = false
  keySz_le : m.keySz ≤ lsMapKeyMax
  valSz_le : m.valSz ≤ lsMapValMax
  entries_pos : 0 < m.entries
  entries_le : m.entries ≤ lsMapEntries
  used_lt : ∀ s, m.used s = true → s < m.entries
  distinct : ∀ s t, m.used s = true → m.used t = true → m.keyAt s = m.keyAt t → s = t

/-- Whether a cell holds a key. -/
def LsMap.Holds (m : LsMap) (key : List UInt8) (s : Nat) : Prop :=
  m.used s = true ∧ m.keyAt s = key

/-- Whether every cell is taken. -/
def LsMap.Full (m : LsMap) : Prop :=
  ∀ s < m.entries, m.used s = true

/-- A hash descriptor that passes the check has the shape the table relies on. -/
theorem lsMapCheckDescriptor_hash {d : LsMapDef} (hcheck : lsMapCheckDescriptor d = true)
    (htype : d.type = lsMapTypeHash) :
    0 < d.keySize ∧ d.keySize ≤ lsMapKeyMax ∧ 0 < d.valueSize ∧ d.valueSize ≤ lsMapValMax ∧
      0 < d.maxEntries ∧ d.maxEntries ≤ lsMapEntries := by
  simp only [lsMapCheckDescriptor, htype, lsMapTypeHash, lsMapTypeRingbuf,
    lsMapTypePerfEventArray] at hcheck
  simp only [Nat.reduceEqDiff, if_false, ne_eq, not_true_eq_false] at hcheck
  split_ifs at hcheck with hkey hval hent
  omega

/-! ## The probe loop -/

section Scan

variable {m : LsMap} {key : List UInt8} {h : Nat}

/-- A successful probe returns a cell that holds the key. -/
theorem scan_found {n i : Nat} {empty : Option Nat} {s : Nat}
    (hpos : 0 < m.entries) (hscan : scan m key h n i empty = .found s) :
    s < m.entries ∧ m.Holds key s := by
  induction n generalizing i empty with
  | zero => contradiction
  | succ n ih =>
      simp only [scan] at hscan
      split_ifs at hscan with hfree hkey
      · exact ih hscan
      · exact ih hscan
      · cases hscan
        exact ⟨Nat.mod_lt _ hpos, by simpa using hfree, by assumption⟩
      · exact ih hscan

/-- A scan that ends without the key saw no cell that holds it, and remembers a
free cell if it saw one. -/
theorem scan_absent {n i : Nat} {empty e : Option Nat}
    (hpos : 0 < m.entries) (hscan : scan m key h n i empty = .absent e) :
    (∀ j, i ≤ j → j < i + n → ¬m.Holds key ((h + j) % m.entries)) ∧
    (∀ s, e = some s → empty = some s ∨ (s < m.entries ∧ m.used s = false)) ∧
    (e = none → empty = none ∧
      ∀ j, i ≤ j → j < i + n → m.used ((h + j) % m.entries) = true) := by
  induction n generalizing i empty with
  | zero =>
      simp only [scan, SlotScan.absent.injEq] at hscan
      subst hscan
      refine ⟨?_, fun s hs => .inl hs, fun hnone => ⟨hnone, ?_⟩⟩
      · intro j hij hj
        omega
      · intro j hij hj
        omega
  | succ n ih =>
      -- every index of the range is the head or belongs to the rest of the scan
      have hsplit : ∀ P : Nat → Prop, P i → (∀ j, i + 1 ≤ j → j < i + 1 + n → P j) →
          ∀ j, i ≤ j → j < i + (n + 1) → P j := by
        intro P hhead htail j hij hj
        by_cases hji : j = i
        · exact hji ▸ hhead
        · exact htail j (by omega) (by omega)
      simp only [scan] at hscan
      by_cases hfree : m.used ((h + i) % m.entries) = false
      · rw [if_pos hfree] at hscan
        rcases ih hscan with ⟨hno, hsome, hnone⟩
        refine ⟨hsplit _ ?_ hno, ?_, ?_⟩
        · rintro ⟨hused, _⟩
          rw [hfree] at hused
          contradiction
        · intro s hs
          rcases hsome s hs with hempty | hcell
          · by_cases hfirst : empty = none
            · rw [if_pos hfirst] at hempty
              cases hempty
              exact .inr ⟨Nat.mod_lt _ hpos, hfree⟩
            · rw [if_neg hfirst] at hempty
              exact .inl hempty
          · exact .inr hcell
        · intro he
          have hempty := (hnone he).1
          split_ifs at hempty with hfirst
          exact absurd hempty hfirst
      · rw [if_neg hfree] at hscan
        by_cases hkey : m.keyAt ((h + i) % m.entries) = key
        · rw [if_pos hkey] at hscan
          contradiction
        · rw [if_neg hkey] at hscan
          rcases ih hscan with ⟨hno, hsome, hnone⟩
          refine ⟨hsplit _ (fun hholds => hkey hholds.2) hno, hsome, ?_⟩
          intro he
          exact ⟨(hnone he).1, hsplit _ (by simpa using hfree) (hnone he).2⟩

/-- The probe sequence visits every cell. -/
theorem probe_surjective {entries s : Nat} (h : Nat) (hs : s < entries) :
    ∃ j < entries, (h + j) % entries = s := by
  have hr : h % entries < entries := Nat.mod_lt _ (by omega)
  by_cases hle : h % entries ≤ s
  · refine ⟨s - h % entries, by omega, ?_⟩
    rw [← Nat.mod_add_mod, show h % entries + (s - h % entries) = s by omega,
      Nat.mod_eq_of_lt hs]
  · refine ⟨s + entries - h % entries, by omega, ?_⟩
    rw [← Nat.mod_add_mod, show h % entries + (s + entries - h % entries) = s + entries by
      omega, Nat.add_mod_right, Nat.mod_eq_of_lt hs]

/-- How a scan of the whole table ends. -/
theorem scan_all (hm : m.WellFormed) (key : List UInt8) (h : Nat) :
    (∃ s, scan m key h m.entries 0 none = .found s ∧ m.Holds key s) ∨
    (∃ e, scan m key h m.entries 0 none = .absent e ∧ (∀ s, ¬m.Holds key s) ∧
      (∀ s, e = some s → s < m.entries ∧ m.used s = false) ∧ (e = none → m.Full)) := by
  cases hscan : scan m key h m.entries 0 none with
  | found s => exact .inl ⟨s, rfl, (scan_found hm.entries_pos hscan).2⟩
  | absent e =>
      right
      rcases scan_absent hm.entries_pos hscan with ⟨hno, hsome, hnone⟩
      refine ⟨e, rfl, ?_, ?_, ?_⟩
      · intro s hholds
        rcases probe_surjective h (hm.used_lt s hholds.1) with ⟨j, hj, rfl⟩
        exact hno j (Nat.zero_le _) (by omega) hholds
      · intro s hs
        rcases hsome s hs with hempty | hcell
        · contradiction
        · exact hcell
      · intro he s hs
        rcases probe_surjective h hs with ⟨j, hj, rfl⟩
        exact (hnone he).2 j (Nat.zero_le _) (by omega)

/-- Without insertion, the probe finds exactly the cell that holds the key. -/
theorem lsMapSlot_eq_some_iff (hm : m.WellFormed) {s : Nat} :
    lsMapSlot m key false = some s ↔ m.Holds key s := by
  rcases scan_all hm key (homeSlot m key) with
    ⟨t, hscan, hholds⟩ | ⟨e, hscan, hno, _⟩
  · simp only [lsMapSlot, hscan, Option.some.injEq]
    constructor
    · rintro rfl
      exact hholds
    · intro hs
      exact hm.distinct t s hholds.1 hs.1 (hholds.2.trans hs.2.symm)
  · simp only [lsMapSlot, hscan, Bool.false_and, if_neg, Bool.false_eq_true, reduceCtorEq,
      not_false_eq_true, false_iff]
    exact hno s

/-- Without insertion, the probe fails exactly on a key that no cell holds. -/
theorem lsMapSlot_eq_none_iff (hm : m.WellFormed) :
    lsMapSlot m key false = none ↔ ∀ s, ¬m.Holds key s := by
  rw [Option.eq_none_iff_forall_ne_some]
  constructor
  · intro hne s hs
    exact hne s ((lsMapSlot_eq_some_iff hm).mpr hs)
  · intro hno s hs
    exact hno s ((lsMapSlot_eq_some_iff hm).mp hs)

/-- Where an insertion goes: the key's own cell, else a free cell, else, in a
full table, the home cell. -/
theorem lsMapSlot_insert (hm : m.WellFormed) (key : List UInt8) :
    ∃ s, lsMapSlot m key true = some s ∧ s < m.entries ∧
      (m.Holds key s ∨ ((∀ t, ¬m.Holds key t) ∧ m.used s = false) ∨
        ((∀ t, ¬m.Holds key t) ∧ m.Full)) := by
  rcases scan_all hm key (homeSlot m key) with
    ⟨s, hscan, hholds⟩ | ⟨e, hscan, hno, hsome, hnone⟩
  · refine ⟨s, ?_, hm.used_lt s hholds.1, .inl hholds⟩
    simp only [lsMapSlot, hscan]
  · cases e with
    | some s =>
        refine ⟨s, ?_, (hsome s rfl).1, .inr (.inl ⟨hno, (hsome s rfl).2⟩)⟩
        simp [lsMapSlot, hscan]
    | none =>
        refine ⟨homeSlot m key, ?_, Nat.mod_lt _ hm.entries_pos,
          .inr (.inr ⟨hno, hnone rfl⟩)⟩
        simp [lsMapSlot, hscan]

end Scan

end Map
end LiveSurface
