import LiveSurface.Library.Bytes
import Mathlib.Data.Nat.Init

/-!
# Bits of a little-endian memory

The bits of a memory are numbered from the lowest bit of its first byte.  A word that is read from
the memory has a run of them; what is shifted out of it and masked is a part of that run.

Main results:

- Theorem {lit}`testBit_word`: the bits of a word.
- Theorem {lit}`extract_eq_iff`: when a shift and a mask select some bits, whatever the memory holds.
-/

namespace LiveSurface

theorem testBit_ofLittleEndian (bs : List UInt8) (k : Nat) :
    (ofLittleEndian bs).testBit k = ((bs[k / 8]?).getD 0).toNat.testBit (k % 8) := by
  induction bs generalizing k with
  | nil => simp [ofLittleEndian]
  | cons b rest ih =>
      have hword : ofLittleEndian (b :: rest) = 2 ^ 8 * ofLittleEndian rest + b.toNat := by
        rw [ofLittleEndian, Nat.add_comm, show (2 : Nat) ^ 8 = 256 from rfl]
      rw [hword, Nat.testBit_two_pow_mul_add _ b.toNat_lt]
      by_cases hk : k < 8
      · rw [if_pos hk, Nat.div_eq_of_lt hk, Nat.mod_eq_of_lt hk]
        simp
      · rw [if_neg hk, ih, show k / 8 = (k - 8) / 8 + 1 by omega, show k % 8 = (k - 8) % 8 by omega]
        simp

namespace Memory

/-- A bit of a memory. -/
def bit (m : Memory) (k : Nat) : Bool := (m (k / 8)).toNat.testBit (k % 8)

/-- The number that some bits of a memory make. -/
def bits (m : Memory) (offset width : Nat) : Nat := Nat.ofBits fun i : Fin width => m.bit (offset + i)

/-- A word of so many bytes. -/
def word (m : Memory) (a size : Nat) : Nat := ofLittleEndian (m.load a size)

/-- A part of a word: so many bits above a shift. -/
def extract (m : Memory) (a size shift width : Nat) : Nat := (m.word a size >>> shift) % 2 ^ width

/-- The bits of a word. -/
theorem testBit_word (m : Memory) (a size k : Nat) :
    (m.word a size).testBit k = (decide (k < 8 * size) && m.bit (8 * a + k)) := by
  rw [word, testBit_ofLittleEndian, bit, show (8 * a + k) / 8 = a + k / 8 by omega,
    show (8 * a + k) % 8 = k % 8 by omega]
  by_cases hk : k < 8 * size
  · have hload : (m.load a size)[k / 8]? = some (m (a + k / 8)) := by
      rw [load, List.getElem?_map, List.getElem?_range (by omega), Option.map_some]
    rw [hload, decide_eq_true hk, Bool.true_and, Option.getD_some]
  · have hload : (m.load a size)[k / 8]? = none :=
      List.getElem?_eq_none (by rw [length_load]; omega)
    rw [hload, decide_eq_false hk, Bool.false_and, Option.getD_none]
    exact Nat.zero_testBit _

/-- A part of a word has the bits of the memory, up to the end of the word. -/
theorem extract_eq (m : Memory) (a size shift width : Nat) :
    m.extract a size shift width = Nat.ofBits fun i : Fin width =>
      decide (shift + i < 8 * size) && m.bit (8 * a + shift + i) := by
  rw [extract, ← Nat.ofBits_testBit]
  congr 1
  funext i
  rw [Nat.testBit_shiftRight, testBit_word, Nat.add_assoc]

/-- A shift and a mask select some bits, whatever the memory holds, exactly where the bits lie in the
word. -/
theorem extract_eq_iff {a size shift width : Nat} (hwidth : 0 < width) :
    (∀ m : Memory, m.extract a size shift width = m.bits (8 * a + shift) width) ↔
      shift + width ≤ 8 * size := by
  constructor
  · intro h
    -- where every bit is set, the last one is missing from a word that ends before it
    have hall := h fun _ => 0xff
    rw [extract_eq, bits] at hall
    have hlast := congrArg (Nat.testBit · (width - 1)) hall
    simp only [Nat.testBit_ofBits_lt _ _ (show width - 1 < width by omega)] at hlast
    have hset : ∀ k, Memory.bit (fun _ => 0xff) k = true := by
      intro k
      have hk : k % 8 < 8 := Nat.mod_lt k (by omega)
      have hbits : ∀ j < 8, (0xff : UInt8).toNat.testBit j = true := by decide
      exact hbits _ hk
    rw [hset, Bool.and_true, decide_eq_true_iff] at hlast
    omega
  · intro h m
    rw [extract_eq, bits]
    congr 1
    funext i
    rw [decide_eq_true (by omega), Bool.true_and]

end Memory
end LiveSurface
