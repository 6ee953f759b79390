import LiveSurface.Ring.Model
import Mathlib.Data.Nat.Bitwise

/-!
# Records in the data area

Between the two positions of a ring lie records and pads, one after the other.
A tile is one of them; a tiling lists them from the consumer's position to the
producer's.  Positions are unbounded here: the words in the control block are
these positions modulo {lit}`2 ^ 64`.

Main results:

- Theorem {lit}`lsRingRound_eq` and the header lemmas: what the bit operations of
  the source compute.
- Theorem {lit}`ring_disjoint`: two ranges that lie within one data size of each
  other do not overlap in the data area.
- Theorem {lit}`Tiled.store`: a store past the last tile, within one data size of
  the first, leaves the tiling alone.
-/

namespace LiveSurface
namespace Ring

/-! ## Bit operations -/

/-- Rounding up to the alignment, on lengths that do not overflow. -/
theorem lsRingRound_eq {n : Nat} (hn : n + 7 < 2 ^ 32) :
    lsRingRound n = (n + 7) / 8 * 8 := by
  have hu : u32 (n + 8 - 1) = n + 7 := by
    rw [u32]
    omega
  have hmask : (2 ^ 32 - 1 - (8 - 1) : Nat) = (2 ^ 29 - 1) <<< 3 := by decide
  rw [lsRingRound, lsRingAlign, hu, hmask]
  have hshift : (n + 7) / 8 * 8 = ((n + 7) >>> 3) <<< 3 := by
    rw [Nat.shiftLeft_eq, Nat.shiftRight_eq_div_pow]
  rw [hshift]
  apply Nat.eq_of_testBit_eq
  intro i
  rw [Nat.testBit_and, Nat.testBit_shiftLeft, Nat.testBit_shiftLeft, Nat.testBit_shiftRight]
  by_cases hi : 3 ≤ i
  · obtain ⟨j, rfl⟩ := Nat.exists_eq_add_of_le hi
    simp only [ge_iff_le, Nat.le_add_right, decide_true, Bool.true_and,
      Nat.add_sub_cancel_left]
    rw [Nat.testBit_two_pow_sub_one]
    by_cases hj : j < 29
    · simp [hj]
    · have hfalse : (n + 7).testBit (3 + j) = false := by
        apply Nat.testBit_lt_two_pow
        calc n + 7 < 2 ^ 32 := hn
          _ ≤ 2 ^ (3 + j) := Nat.pow_le_pow_right (by omega) (by omega)
      simp [hfalse]
  · simp [hi]

/-- The mask of a power of two takes the remainder. -/
theorem and_mask (n k : Nat) : n &&& (2 ^ k - 1) = n % 2 ^ k :=
  Nat.and_two_pow_sub_one_eq_mod n k

/-- A length below bit 30 carries neither flag. -/
theorem flags_of_length {n : Nat} (hn : n < 2 ^ 30) :
    n &&& lsRingBusy = 0 ∧ n &&& lsRingDiscard = 0 ∧ n &&& lsRingLenMask = n := by
  refine ⟨?_, ?_, ?_⟩
  · rw [lsRingBusy, Nat.and_two_pow, Nat.testBit_lt_two_pow (by omega)]
    simp
  · rw [lsRingDiscard, Nat.and_two_pow, Nat.testBit_lt_two_pow (by omega)]
    simp
  · rw [lsRingLenMask, Nat.and_two_pow_sub_one_eq_mod, Nat.mod_eq_of_lt hn]

/-- A discard header shows its flag and its length, and is not busy. -/
theorem flags_of_discard {n : Nat} (hn : n < 2 ^ 30) :
    n ||| lsRingDiscard < 2 ^ 31 ∧ (n ||| lsRingDiscard) &&& lsRingBusy = 0 ∧
      (n ||| lsRingDiscard) &&& lsRingDiscard ≠ 0 ∧
      (n ||| lsRingDiscard) &&& lsRingLenMask = n := by
  have hor : n ||| lsRingDiscard = 2 ^ 30 + n := by
    have h := Nat.two_pow_add_eq_or_of_lt (i := 30) hn 1
    rw [Nat.mul_one] at h
    rw [lsRingDiscard, Nat.or_comm]
    exact h.symm
  rw [hor]
  refine ⟨by omega, ?_, ?_, ?_⟩
  · rw [lsRingBusy, Nat.and_two_pow, Nat.testBit_lt_two_pow (by omega)]
    simp
  · rw [lsRingDiscard, Nat.and_two_pow, Nat.testBit_two_pow_add_eq,
      Nat.testBit_lt_two_pow hn]
    simp
  · rw [lsRingLenMask, Nat.and_two_pow_sub_one_eq_mod, Nat.add_mod_left,
      Nat.mod_eq_of_lt hn]

/-- The 64-bit difference of two positions is their distance. -/
theorem sub64_eq {P C : Nat} (hle : C ≤ P) (hlt : P - C < 2 ^ 64) :
    sub64 (P % 2 ^ 64) (C % 2 ^ 64) = P - C := by
  rw [sub64]
  omega

/-! ## Sizes -/

/-- The sizes a data area can have. -/
structure RingSize (ds : Nat) : Prop where
  power : ∃ k, 3 ≤ k ∧ k ≤ 31 ∧ ds = 2 ^ k

namespace RingSize

variable {ds : Nat}

theorem bounds (h : RingSize ds) : 8 ≤ ds ∧ ds ≤ 2 ^ 31 := by
  rcases h.power with ⟨k, hlow, hhigh, rfl⟩
  exact ⟨Nat.pow_le_pow_right (n := 2) (by omega) hlow,
    Nat.pow_le_pow_right (by omega) hhigh⟩

theorem dvd_eight (h : RingSize ds) : 8 ∣ ds := by
  rcases h.power with ⟨k, hlow, _, rfl⟩
  exact Nat.pow_dvd_pow 2 hlow

/-- Masking a position word finds the position's offset. -/
theorem offset (h : RingSize ds) (P : Nat) :
    u32 (P % 2 ^ 64 &&& (ds - 1)) = P % ds := by
  have hlt : P % ds < 2 ^ 32 := by
    have hbound := h.bounds
    have hmod := Nat.mod_lt P (show 0 < ds by omega)
    omega
  rcases h.power with ⟨k, _, hhigh, rfl⟩
  rw [and_mask, Nat.mod_mod_of_dvd P (Nat.pow_dvd_pow 2 (by omega)), u32,
    Nat.mod_eq_of_lt hlt]

theorem dvd_offset (h : RingSize ds) {P : Nat} (hP : 8 ∣ P) : 8 ∣ P % ds :=
  (Nat.dvd_mod_iff h.dvd_eight).mpr hP

end RingSize

/-- A record whose rounded size fits the data area. -/
def Fits (ds : Nat) (e : Emission) : Prop :=
  (lsRingHdrSz + lsRecSize + e.len + 7) / 8 * 8 ≤ ds

instance (ds : Nat) (e : Emission) : Decidable (Fits ds e) :=
  inferInstanceAs (Decidable (_ ≤ _))

/-- The room a fitting record takes. -/
theorem Fits.need_eq {ds : Nat} {e : Emission} (h : Fits ds e) (hds : RingSize ds) :
    e.need = (47 + e.len) / 8 * 8 := by
  have hbound := hds.bounds.2
  simp only [Fits, lsRingHdrSz, lsRecSize] at h
  rw [Emission.need, lsRingHdrSz, lsRecSize, lsRingRound_eq (by omega)]
  omega

theorem Fits.bounds {ds : Nat} {e : Emission} (h : Fits ds e) (hds : RingSize ds) :
    40 + e.len ≤ e.need ∧ 8 ∣ e.need ∧ e.need ≤ ds ∧ e.body + 8 ≤ e.need := by
  have hneed := h.need_eq hds
  simp only [Fits, lsRingHdrSz, lsRecSize] at h
  simp only [Emission.body, lsRecSize]
  omega

/-! ## Tiles -/

/-- What occupies a stretch of the ring. -/
inductive Tile
  | record (e : Emission)
  | pad (n : Nat)

/-- The distance from a tile to the next one. -/
def Tile.size : Tile → Nat
  | .record e => e.need
  | .pad n => n

/-- The records among the tiles. -/
def records : List Tile → List Emission
  | [] => []
  | .record e :: rest => e :: records rest
  | .pad _ :: rest => records rest

theorem records_append (first second : List Tile) :
    records (first ++ second) = records first ++ records second := by
  induction first with
  | nil => rfl
  | cons t rest ih =>
      cases t with
      | record e => simp [records, ih]
      | pad n => simp [records, ih]

/-- The bytes of a complete record. -/
def recordBytes (e : Emission) : List UInt8 :=
  littleEndian 4 e.body ++ littleEndian 4 0 ++ (e.header.bytes ++ e.payload)

/-- The bytes of a pad of {lit}`n` bytes: only its header is ever read. -/
def padBytes (n : Nat) : List UInt8 :=
  littleEndian 4 ((n - lsRingHdrSz) ||| lsRingDiscard) ++ littleEndian 4 0

@[simp]
theorem LsRec.length_bytes (r : LsRec) : r.bytes.length = 32 := by
  simp [LsRec.bytes]

@[simp]
theorem length_padBytes (n : Nat) : (padBytes n).length = 8 := by
  simp [padBytes]

/-- A tile stands at a position of the data area, whole and unstraddled. -/
def TileAt (ds : Nat) (data : Memory) (X : Nat) : Tile → Prop
  | .record e => X % ds + e.need ≤ ds ∧ 40 + e.len ≤ e.need ∧ 8 ∣ e.need ∧
      e.body < 2 ^ 30 ∧ data.load (X % ds) (40 + e.len) = recordBytes e
  | .pad n => X % ds + n = ds ∧ 8 ≤ n ∧ 8 ∣ n ∧ n - 8 < 2 ^ 30 ∧
      data.load (X % ds) 8 = padBytes n

/-- Tiles lead from one position to another. -/
def Tiled (ds : Nat) (data : Memory) : Nat → List Tile → Nat → Prop
  | C, [], P => C = P
  | C, t :: rest, P => TileAt ds data C t ∧ Tiled ds data (C + t.size) rest P

section Tiles

variable {ds C P X m a : Nat} {data : Memory} {bs : List UInt8} {tiles : List Tile} {t : Tile}

theorem Tiled.le (h : Tiled ds data C tiles P) : C ≤ P := by
  induction tiles generalizing C with
  | nil => exact Nat.le_of_eq h
  | cons t rest ih =>
      have hrest := ih h.2
      omega

theorem TileAt.dvd_size (h : TileAt ds data X t) : 8 ∣ t.size := by
  cases t with
  | record e => exact h.2.2.1
  | pad n => exact h.2.2.1

theorem Tiled.dvd (h : Tiled ds data C tiles P) (hC : 8 ∣ C) : 8 ∣ P := by
  induction tiles generalizing C with
  | nil => exact h ▸ hC
  | cons t rest ih => exact ih h.2 (Nat.dvd_add hC h.1.dvd_size)

/-- A new tile extends a tiling. -/
theorem Tiled.snoc (h : Tiled ds data C tiles P) (ht : TileAt ds data P t) :
    Tiled ds data C (tiles ++ [t]) (P + t.size) := by
  induction tiles generalizing C with
  | nil =>
      cases h
      exact ⟨ht, rfl⟩
  | cons u rest ih => exact ⟨h.1, ih h.2⟩

/-- Ranges that lie within one data size of each other do not overlap. -/
theorem ring_disjoint {sz : Nat} (hP : P % ds + m ≤ ds)
    (hle : X + sz ≤ P) (hroom : P + m ≤ X + ds) (hm : 0 < m) :
    X % ds + sz ≤ P % ds ∨ P % ds + m ≤ X % ds := by
  have hXdiv := Nat.div_add_mod X ds
  have hPdiv := Nat.div_add_mod P ds
  rcases Nat.lt_trichotomy (P / ds) (X / ds) with hlt | heq | hgt
  · have hmul : ds * (P / ds + 1) ≤ ds * (X / ds) := Nat.mul_le_mul_left ds hlt
    rw [Nat.mul_add, Nat.mul_one] at hmul
    have hPlt : P % ds < ds := by omega
    omega
  · rw [heq] at hPdiv
    left
    omega
  · by_cases hnext : P / ds = X / ds + 1
    · rw [hnext, Nat.mul_add, Nat.mul_one] at hPdiv
      right
      omega
    · have hmul : ds * (X / ds + 2) ≤ ds * (P / ds) :=
        Nat.mul_le_mul_left ds (by omega)
      rw [Nat.mul_add] at hmul
      omega

/-- A store in the free room past {lit}`P` leaves a tile before it alone. -/
theorem TileAt.store (ht : TileAt ds data X t) (hle : X + t.size ≤ P)
    (hroom : P + m ≤ X + ds) (hm : 0 < m) (hP : P % ds + m ≤ ds)
    (hlow : P % ds ≤ a) (hhigh : a + bs.length ≤ P % ds + m) :
    TileAt ds (data.store a bs) X t := by
  have hdisj := ring_disjoint hP hle hroom hm
  cases t with
  | record e =>
      rcases ht with ⟨hfit, hlen, hdvd, hbody, hload⟩
      refine ⟨hfit, hlen, hdvd, hbody, ?_⟩
      rw [Memory.load_store_of_disjoint, hload]
      simp only [Tile.size] at hdisj
      omega
  | pad n =>
      rcases ht with ⟨hfit, hlen, hdvd, hflag, hload⟩
      refine ⟨hfit, hlen, hdvd, hflag, ?_⟩
      rw [Memory.load_store_of_disjoint, hload]
      simp only [Tile.size] at hdisj
      omega

/-- A store in the free room past {lit}`P` leaves the tiling alone. -/
theorem Tiled.store (h : Tiled ds data C tiles P) (hroom : P + m ≤ C + ds) (hm : 0 < m)
    (hP : P % ds + m ≤ ds) (hlow : P % ds ≤ a) (hhigh : a + bs.length ≤ P % ds + m) :
    Tiled ds (data.store a bs) C tiles P := by
  induction tiles generalizing C with
  | nil => exact h
  | cons t rest ih =>
      refine ⟨h.1.store h.2.le hroom hm hP hlow hhigh, ih h.2 ?_⟩
      omega

end Tiles

/-! ## Reading a tile -/

section ReadTile

variable {ds X : Nat} {data : Memory} {e : Emission} {n : Nat}

/-- The header word of a record is its length. -/
theorem TileAt.header_record (h : TileAt ds data X (.record e)) :
    headerAt data (X % ds) = e.body := by
  rcases h with ⟨_, _, _, hbody, hload⟩
  have hfirst : data.load (X % ds) 4 = littleEndian 4 e.body := by
    rw [← Memory.take_load (show 4 ≤ 40 + e.len by omega), hload, recordBytes,
      List.append_assoc, List.take_left' (by simp)]
  rw [headerAt, hfirst, ofLittleEndian_littleEndian_of_lt (by omega)]

/-- The header word of a pad is its length with the discard flag. -/
theorem TileAt.header_pad (h : TileAt ds data X (.pad n)) :
    headerAt data (X % ds) = (n - 8) ||| lsRingDiscard := by
  rcases h with ⟨_, _, _, hflag, hload⟩
  have hlt := (flags_of_discard hflag).1
  have hfirst : data.load (X % ds) 4 = littleEndian 4 ((n - 8) ||| lsRingDiscard) := by
    rw [← Memory.take_load (show 4 ≤ 8 by omega), hload, padBytes, List.take_left' (by simp)]
    rfl
  rw [headerAt, hfirst, ofLittleEndian_littleEndian_of_lt (by omega)]

/-- The bytes behind the header of a record. -/
theorem TileAt.byte_record (h : TileAt ds data X (.record e)) {i : Nat}
    (hi : i < 32 + e.len) :
    (e.header.bytes ++ e.payload)[i]? = some (data (X % ds + 8 + i)) := by
  have hload := h.2.2.2.2
  have hget := congrArg (fun bs => bs[8 + i]?) hload
  have hlt : 8 + i < 40 + e.len := by omega
  simp only [recordBytes] at hget
  rw [List.getElem?_append_right (by simp)] at hget
  simp only [List.length_append, length_littleEndian, Nat.reduceAdd,
    Nat.add_sub_cancel_left] at hget
  rw [← hget]
  simp [Memory.load, hlt, Nat.add_assoc]

/-- The record header inside a record. -/
theorem TileAt.load_header (h : TileAt ds data X (.record e)) :
    data.load (X % ds + 8) 32 = e.header.bytes := by
  have hload := h.2.2.2.2
  have hdrop := Memory.drop_load (m := data) (a := X % ds) (show 8 ≤ 40 + e.len by omega)
  rw [hload, recordBytes, List.drop_left' (by simp)] at hdrop
  rw [← Memory.take_load (show 32 ≤ 40 + e.len - 8 by omega), ← hdrop,
    List.take_left' (by simp)]

end ReadTile

end Ring
end LiveSurface
