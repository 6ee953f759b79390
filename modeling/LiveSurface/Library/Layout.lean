import LiveSurface.Library.Bytes

/-!
# Packed words

A wire record is a sequence of little-endian words of fixed widths without
padding.  Packing writes the words one after the other; unpacking reads them
back by their widths.

Main results:

- Theorem {lit}`Layout.unpack_pack`: what was packed is unpacked, each word
  reduced to its width.
- Theorem {lit}`Layout.unpack_pack_of_fits`: words that fit their widths come
  back as they were.
-/

namespace LiveSurface
namespace Layout

/-- The bytes of a sequence of words, each given with its width in bytes. -/
def pack : List (Nat × Nat) → List UInt8
  | [] => []
  | (width, x) :: rest => littleEndian width x ++ pack rest

/-- Read words of the given widths from the front of a byte string. -/
def unpack : List Nat → List UInt8 → List Nat
  | [], _ => []
  | width :: rest, bs => ofLittleEndian (bs.take width) :: unpack rest (bs.drop width)

@[simp]
theorem length_pack (words : List (Nat × Nat)) :
    (pack words).length = (words.map Prod.fst).sum := by
  induction words with
  | nil => rfl
  | cons word rest ih => simp [pack, ih]

/-- Unpacking reads each packed word, reduced to its width. -/
theorem unpack_pack (words : List (Nat × Nat)) (rest : List UInt8) :
    unpack (words.map Prod.fst) (pack words ++ rest) =
      words.map fun word => word.2 % 256 ^ word.1 := by
  induction words with
  | nil => rfl
  | cons word words ih =>
      obtain ⟨width, x⟩ := word
      have htake : ((littleEndian width x ++ pack words) ++ rest).take width =
          littleEndian width x := by
        rw [List.append_assoc, List.take_left' (length_littleEndian width x)]
      have hdrop : ((littleEndian width x ++ pack words) ++ rest).drop width =
          pack words ++ rest := by
        rw [List.append_assoc, List.drop_left' (length_littleEndian width x)]
      simp only [List.map_cons, unpack, pack, htake, hdrop, ih,
        ofLittleEndian_littleEndian]

/-- Every word fits its width. -/
def Fits (words : List (Nat × Nat)) : Prop :=
  ∀ word ∈ words, word.2 < 256 ^ word.1

/-- Words that fit their widths come back unchanged. -/
theorem unpack_pack_of_fits {words : List (Nat × Nat)} (h : Fits words)
    (rest : List UInt8) :
    unpack (words.map Prod.fst) (pack words ++ rest) = words.map Prod.snd := by
  rw [unpack_pack]
  apply List.map_congr_left
  intro word hword
  exact Nat.mod_eq_of_lt (h word hword)

end Layout
end LiveSurface
