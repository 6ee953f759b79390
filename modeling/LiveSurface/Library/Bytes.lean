import LiveSurface.Library.Decide
import Mathlib.Data.List.Basic
import Mathlib.Data.List.OfFn
import Mathlib.Tactic.Ring

/-!
# Little-endian words and byte memories

Fixed-width integers as byte strings, least significant byte first, and a
memory that maps every address to a byte.  The memory is total: an access that
leaves the intended region is visible as a change or a read outside it.

Main results:

- Theorems {lit}`ofLittleEndian_littleEndian` and
  {lit}`littleEndian_ofLittleEndian`: the codec round-trips in both directions.
- Theorems {lit}`Memory.load_store_self` and
  {lit}`Memory.load_store_of_disjoint`: reading back what was stored, and the
  frame rule for a store elsewhere.
-/

namespace LiveSurface

/-! ## Indices -/

instance neZeroFour : NeZero 4 := ⟨by decide⟩

instance neZeroFive : NeZero 5 := ⟨by decide⟩

/-! ## Little-endian integers -/

/-- The {lit}`n` low bytes of {lit}`x`, least significant first. -/
@[grind =]
def littleEndian : Nat → Nat → List UInt8
  | 0, _ => []
  | n + 1, x => UInt8.ofNat (x % 256) :: littleEndian n (x / 256)

/-- The integer a byte string denotes, least significant byte first. -/
@[grind =]
def ofLittleEndian : List UInt8 → Nat
  | [] => 0
  | b :: rest => b.toNat + 256 * ofLittleEndian rest

@[simp]
theorem length_littleEndian (n x : Nat) : (littleEndian n x).length = n := by
  induction n generalizing x with
  | zero => rfl
  | succ n ih => simp [littleEndian, ih]

/-- Decoding an encoded integer recovers it up to its width. -/
theorem ofLittleEndian_littleEndian (n x : Nat) :
    ofLittleEndian (littleEndian n x) = x % 256 ^ n := by
  induction n generalizing x with
  | zero => simp [littleEndian, ofLittleEndian, Nat.mod_one]
  | succ n ih =>
      have hbyte : (UInt8.ofNat (x % 256)).toNat = x % 256 := by
        simp [UInt8.toNat_ofNat']
      rw [littleEndian, ofLittleEndian, ih, hbyte, Nat.pow_succ,
        Nat.mul_comm (256 ^ n) 256, Nat.mod_mul]

/-- Decoding is exact for an integer that fits its width. -/
theorem ofLittleEndian_littleEndian_of_lt {n x : Nat} (hx : x < 256 ^ n) :
    ofLittleEndian (littleEndian n x) = x := by
  rw [ofLittleEndian_littleEndian, Nat.mod_eq_of_lt hx]

/-- A byte string denotes an integer of its width. -/
theorem ofLittleEndian_lt (bs : List UInt8) : ofLittleEndian bs < 256 ^ bs.length := by
  induction bs with
  | nil => decide
  | cons x rest ih =>
      have hx := x.toNat_lt
      rw [ofLittleEndian, List.length_cons, Nat.pow_succ]
      omega

/-- Re-encoding a decoded byte string recovers the string. -/
theorem littleEndian_ofLittleEndian (bs : List UInt8) :
    littleEndian bs.length (ofLittleEndian bs) = bs := by
  induction bs with
  | nil => rfl
  | cons b rest ih =>
      have hb : b.toNat < 256 := b.toNat_lt
      have hmod : (b.toNat + 256 * ofLittleEndian rest) % 256 = b.toNat := by omega
      have hdiv : (b.toNat + 256 * ofLittleEndian rest) / 256 = ofLittleEndian rest := by
        omega
      simp [littleEndian, ofLittleEndian, hmod, hdiv, ih]

/-- A string of zero bytes denotes zero. -/
theorem ofLittleEndian_replicate_zero (n : Nat) :
    ofLittleEndian (List.replicate n 0) = 0 := by
  induction n with
  | zero => rfl
  | succ n ih => simp [List.replicate_succ, ofLittleEndian, ih]

/-- A byte as the character of its number. -/
theorem toNat_ofNat_byte (c : UInt8) : (Char.ofNat c.toNat).toNat = c.toNat := by
  have hc := c.toNat_lt
  have hvalid : c.toNat.isValidChar := .inl (by omega)
  rw [Char.ofNat, dif_pos hvalid]
  rfl

/-! ## Byte memories -/

/-- A total byte-addressed memory. -/
abbrev Memory := Nat → UInt8

namespace Memory

/-- Read {lit}`n` bytes starting at {lit}`a`. -/
def load (m : Memory) (a n : Nat) : List UInt8 :=
  (List.range n).map fun i => m (a + i)

/-- Write a byte string starting at {lit}`a`. -/
def store (m : Memory) (a : Nat) (bs : List UInt8) : Memory := fun x =>
  if a ≤ x then (bs[x - a]?).getD (m x) else m x

variable {m m' : Memory} {a b n k x : Nat} {bs : List UInt8}

@[simp]
theorem length_load (m : Memory) (a n : Nat) : (m.load a n).length = n := by
  simp [load]

@[simp]
theorem load_zero (m : Memory) (a : Nat) : m.load a 0 = [] := rfl

/-- Extending a read by one byte. -/
theorem load_succ (m : Memory) (a n : Nat) :
    m.load a (n + 1) = m.load a n ++ [m (a + n)] := by
  simp [load, List.range_succ]

/-- Splitting a read into two adjacent ones. -/
theorem load_add (m : Memory) (a n k : Nat) :
    m.load a (n + k) = m.load a n ++ m.load (a + n) k := by
  induction k with
  | zero => simp
  | succ k ih => rw [← Nat.add_assoc, load_succ, ih, load_succ, List.append_assoc,
      Nat.add_assoc a n k]

theorem load_eq_iff :
    m.load a n = m'.load b n ↔ ∀ i < n, m (a + i) = m' (b + i) := by
  simp [load, List.map_inj_left]

/-- A prefix of a read is a shorter read. -/
theorem take_load (hk : k ≤ n) : (m.load a n).take k = m.load a k := by
  obtain ⟨d, rfl⟩ := Nat.exists_eq_add_of_le hk
  rw [load_add, List.take_left' (length_load m a k)]

/-- A suffix of a read is a read further on. -/
theorem drop_load (hk : k ≤ n) : (m.load a n).drop k = m.load (a + k) (n - k) := by
  obtain ⟨d, rfl⟩ := Nat.exists_eq_add_of_le hk
  rw [load_add, List.drop_left' (length_load m a k), Nat.add_sub_cancel_left]

theorem store_of_lt (hx : x < a) : m.store a bs x = m x := by
  simp [store, Nat.not_le.mpr hx]

theorem store_of_ge (hx : a + bs.length ≤ x) : m.store a bs x = m x := by
  have hnone : bs[x - a]? = none := List.getElem?_eq_none (by omega)
  simp [store, hnone]

theorem store_inside (m : Memory) (a : Nat) {i : Nat} (hi : i < bs.length) :
    m.store a bs (a + i) = bs[i] := by
  simp [store, hi]

/-- Reading back a single stored byte. -/
@[simp]
theorem store_singleton_self (m : Memory) (a : Nat) (c : UInt8) : m.store a [c] a = c := by
  simp [store]

@[simp]
theorem store_nil (m : Memory) (a : Nat) : m.store a [] = m := by
  funext x
  simp [store]

/-- Reading back exactly what was stored. -/
theorem load_store_self (m : Memory) (a : Nat) (bs : List UInt8) :
    (m.store a bs).load a bs.length = bs := by
  apply List.ext_getElem
  · simp
  · intro i _ hi
    simp only [load, List.getElem_map, List.getElem_range]
    exact store_inside m a hi

/-- A store does not change a read outside it. -/
theorem load_store_of_disjoint (h : b + n ≤ a ∨ a + bs.length ≤ b) :
    (m.store a bs).load b n = m.load b n := by
  rw [load_eq_iff]
  intro i hi
  rcases h with h | h
  · exact store_of_lt (by omega)
  · exact store_of_ge (by omega)

/-- Inside a region of one byte. -/
theorem load_store_replicate {c : UInt8} (h : k + n ≤ b) :
    (m.store a (List.replicate b c)).load (a + k) n = List.replicate n c := by
  apply List.ext_getElem
  · simp
  · intro i hi _
    have hlt : k + i < (List.replicate b c).length := by
      rw [length_load] at hi
      rw [List.length_replicate]
      omega
    simp only [load, List.getElem_map, List.getElem_range, List.getElem_replicate, Nat.add_assoc]
    rw [store_inside m a hlt, List.getElem_replicate]

/-- Storing the bytes that are already there changes nothing. -/
theorem store_eq_self (h : m.load a bs.length = bs) : m.store a bs = m := by
  funext x
  by_cases hx : a ≤ x ∧ x < a + bs.length
  · obtain ⟨i, rfl⟩ := Nat.exists_eq_add_of_le hx.1
    have hi : i < bs.length := by omega
    rw [store_inside m a hi]
    have hget : (m.load a bs.length)[i]? = bs[i]? := by rw [h]
    simpa [load, hi] using hget.symm
  · rcases Nat.lt_or_ge x a with hlt | hge
    · exact store_of_lt hlt
    · exact store_of_ge (by omega)

/-- A region is known once each of its aligned words is. -/
theorem load_eq_of_words {w : Nat} (hlen : bs.length = w * n)
    (h : ∀ j < n, m.load (a + w * j) w = (bs.drop (w * j)).take w) :
    m.load a (w * n) = bs := by
  induction n generalizing bs with
  | zero =>
      have hnil : bs = [] := List.length_eq_zero_iff.mp (by simpa using hlen)
      simp [hnil]
  | succ n ih =>
      have hpre : m.load a (w * n) = bs.take (w * n) := by
        apply ih
        · rw [List.length_take, hlen]
          exact Nat.min_eq_left (Nat.mul_le_mul_left w (Nat.le_succ n))
        · intro j hj
          have hle : w ≤ w * n - w * j := by
            rw [← Nat.mul_sub]
            exact Nat.le_mul_of_pos_right w (by omega)
          rw [h j (by omega), List.drop_take, List.take_take, Nat.min_eq_left hle]
      have hlast := h n (by omega)
      have hrest : (bs.drop (w * n)).length = w := by
        rw [List.length_drop, hlen, Nat.mul_succ]
        omega
      rw [List.take_of_length_le (by omega)] at hlast
      rw [Nat.mul_succ, load_add, hpre, hlast, List.take_append_drop]

/-- A one-byte store inside a region replaces one byte of what is read. -/
theorem load_store_byte {c : UInt8} :
    (m.store (a + k) [c]).load a n = (m.load a n).set k c := by
  apply List.ext_getElem
  · simp
  · intro i hi _
    simp only [load, List.getElem_map, List.getElem_range, List.getElem_set]
    by_cases hik : k = i
    · subst hik
      simp
    · rw [if_neg hik]
      rcases Nat.lt_or_ge i k with hlt | hge
      · exact store_of_lt (by omega)
      · exact store_of_ge (by simp; omega)

/-! ## Sequences of stores -/

/-- Perform a sequence of stores, in order. -/
@[grind =]
def storeAll (m : Memory) : List (Nat × List UInt8) → Memory
  | [] => m
  | w :: rest => (m.store w.1 w.2).storeAll rest

/-- A copy of a byte string, one byte at a time. -/
@[grind =]
def byteStores : Nat → List UInt8 → List (Nat × List UInt8)
  | _, [] => []
  | a, c :: rest => (a, [c]) :: byteStores (a + 1) rest

theorem storeAll_append (m : Memory) (first second : List (Nat × List UInt8)) :
    m.storeAll (first ++ second) = (m.storeAll first).storeAll second := by
  induction first generalizing m with
  | nil => rfl
  | cons w rest ih => exact ih _

theorem byteStores_append (a : Nat) (bs bs' : List UInt8) :
    byteStores a (bs ++ bs') = byteStores a bs ++ byteStores (a + bs.length) bs' := by
  induction bs generalizing a with
  | nil => rfl
  | cons c rest ih =>
      simp only [List.cons_append, byteStores, ih, List.length_cons]
      rw [show a + 1 + rest.length = a + (rest.length + 1) by omega]

/-- Copying a byte string byte by byte stores it. -/
theorem storeAll_byteStores (m : Memory) (a : Nat) (bs : List UInt8) :
    m.storeAll (byteStores a bs) = m.store a bs := by
  induction bs generalizing m a with
  | nil => simp [byteStores, storeAll]
  | cons c rest ih =>
      rw [byteStores, storeAll, ih]
      funext x
      by_cases hlt : x < a
      · rw [store_of_lt (by omega), store_of_lt hlt, store_of_lt hlt]
      · by_cases heq : x = a
        · subst heq
          rw [store_of_lt (by omega)]
          simp [store]
        · obtain ⟨i, rfl⟩ := Nat.exists_eq_add_of_le (show a + 1 ≤ x by omega)
          by_cases hi : i < rest.length
          · rw [store_inside _ _ hi, show a + 1 + i = a + (i + 1) by omega,
              store_inside _ _ (by simpa using hi)]
            simp
          · rw [store_of_ge (by omega), store_of_ge (by simp),
              store_of_ge (by simp; omega)]

/-- Where a byte-by-byte copy stores, and what. -/
theorem mem_byteStores {w : Nat × List UInt8} (h : w ∈ byteStores a bs) :
    ∃ i, ∃ hi : i < bs.length, w = (a + i, [bs[i]]) := by
  induction bs generalizing a with
  | nil => simp [byteStores] at h
  | cons c rest ih =>
      rcases List.mem_cons.mp h with rfl | h
      · exact ⟨0, by simp, rfl⟩
      · rcases ih h with ⟨i, hi, rfl⟩
        refine ⟨i + 1, by simpa using hi, ?_⟩
        rw [show a + 1 + i = a + (i + 1) by omega]
        rfl

end Memory

end LiveSurface
