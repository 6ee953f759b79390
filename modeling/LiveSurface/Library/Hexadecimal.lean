import LiveSurface.Library.Bytes
import Mathlib.Data.List.Induction

/-!
# Hexadecimal texts

Two digits, of either case, are one byte.

Main results:

- Theorem {lit}`bigEndian_fromHex`: the number of the bytes is the number of the digits.
- Theorem {lit}`lower_eq_of_fromHex`: texts of the same bytes differ in case only.
-/

namespace LiveSurface
namespace Hexadecimal

/-- {lit}`[0-9a-fA-F]`. -/
def isDigit (c : Char) : Bool := decide (c ∈ "0123456789abcdefABCDEF".toList)

def digitValue (c : Char) : Nat :=
  if c.toNat < 58 then c.toNat - 48 else if c.toNat < 71 then c.toNat - 55 else c.toNat - 87

/-- {lit}`bytes.fromhex` of digits in pairs. -/
def fromHex : List Char → List UInt8
  | high :: low :: rest => UInt8.ofNat (16 * digitValue high + digitValue low) :: fromHex rest
  | _ => []

/-- The number that digits stand for. -/
def number (s : List Char) : Nat := s.foldl (fun n c => 16 * n + digitValue c) 0

/-- {lit}`int.from_bytes(bs, "big")`. -/
def bigEndian (bs : List UInt8) : Nat := bs.foldl (fun n b => 256 * n + b.toNat) 0

def lower (s : List Char) : List Char := s.map Char.toLower

theorem digitValue_lt {c : Char} (h : isDigit c = true) : digitValue c < 16 := by
  rw [isDigit, decide_eq_true_eq] at h
  revert c
  decide +kernel

/-- Digits of the same value differ in case only. -/
theorem toLower_eq_of_digitValue {c d : Char} (hc : isDigit c = true) (hd : isDigit d = true)
    (h : digitValue c = digitValue d) : c.toLower = d.toLower := by
  rw [isDigit, decide_eq_true_eq] at hc hd
  have hall : ∀ c ∈ "0123456789abcdefABCDEF".toList, ∀ d ∈ "0123456789abcdefABCDEF".toList,
      digitValue c = digitValue d → c.toLower = d.toLower := by decide +kernel
  exact hall c hc d hd h

theorem length_fromHex {s : List Char} {n : Nat} (h : s.length = 2 * n) :
    (fromHex s).length = n := by
  induction n generalizing s with
  | zero =>
      obtain rfl := List.length_eq_zero_iff.mp h
      rfl
  | succ n ih =>
      match s, h with
      | high :: low :: rest, h =>
          simp only [List.length_cons] at h
          rw [fromHex, List.length_cons, ih (by omega)]

theorem toNat_pair {high low : Char} (hhigh : isDigit high = true) (hlow : isDigit low = true) :
    (UInt8.ofNat (16 * digitValue high + digitValue low)).toNat =
      16 * digitValue high + digitValue low := by
  have h1 := digitValue_lt hhigh
  have h2 := digitValue_lt hlow
  rw [UInt8.toNat_ofNat', Nat.mod_eq_of_lt (by omega)]

/-- The number of the bytes is the number of the digits. -/
theorem bigEndian_fromHex {s : List Char} {n : Nat} (h : s.length = 2 * n)
    (hs : ∀ c ∈ s, isDigit c = true) : bigEndian (fromHex s) = number s := by
  have hfold : ∀ (n start : Nat) (s : List Char), s.length = 2 * n → (∀ c ∈ s, isDigit c = true) →
      (fromHex s).foldl (fun n b => 256 * n + b.toNat) start =
        s.foldl (fun n c => 16 * n + digitValue c) start := by
    intro n
    induction n with
    | zero =>
        intro start s hlength _
        obtain rfl := List.length_eq_zero_iff.mp hlength
        rfl
    | succ n ih =>
        intro start s hlength hdigits
        match s, hlength with
        | high :: low :: rest, hlength =>
            simp only [List.length_cons] at hlength
            rw [List.forall_mem_cons, List.forall_mem_cons] at hdigits
            rw [fromHex, List.foldl_cons, List.foldl_cons, List.foldl_cons,
              toNat_pair hdigits.1 hdigits.2.1, ih _ rest (by omega) hdigits.2.2]
            refine congrArg (List.foldl _ · rest) ?_
            omega
  exact hfold n 0 s h hs

/-- Texts of the same bytes differ in case only. -/
theorem lower_eq_of_fromHex {s t : List Char} {n : Nat} (hs : s.length = 2 * n)
    (ht : t.length = 2 * n) (hsd : ∀ c ∈ s, isDigit c = true) (htd : ∀ c ∈ t, isDigit c = true)
    (h : fromHex s = fromHex t) : lower s = lower t := by
  induction n generalizing s t with
  | zero =>
      obtain rfl := List.length_eq_zero_iff.mp hs
      obtain rfl := List.length_eq_zero_iff.mp ht
      rfl
  | succ n ih =>
      match s, t, hs, ht with
      | a :: b :: rest, c :: d :: rest', hs, ht =>
          simp only [List.length_cons] at hs ht
          rw [List.forall_mem_cons, List.forall_mem_cons] at hsd htd
          rw [fromHex, fromHex, List.cons.injEq] at h
          have hpair := congrArg UInt8.toNat h.1
          rw [toNat_pair hsd.1 hsd.2.1, toNat_pair htd.1 htd.2.1] at hpair
          have hb := digitValue_lt hsd.2.1
          have hd := digitValue_lt htd.2.1
          have hrest := ih (by omega) (by omega) hsd.2.2 htd.2.2 h.2
          rw [lower, lower] at hrest
          rw [lower, lower, List.map_cons, List.map_cons, List.map_cons, List.map_cons, hrest,
            toLower_eq_of_digitValue hsd.1 htd.1 (by omega),
            toLower_eq_of_digitValue hsd.2.1 htd.2.1 (by omega)]

/-- The number of a byte string is that of its reverse, read from the other end. -/
theorem bigEndian_eq (bs : List UInt8) : bigEndian bs = ofLittleEndian bs.reverse := by
  induction bs using List.reverseRecOn with
  | nil => rfl
  | append_singleton bs b ih =>
      rw [bigEndian] at ih
      rw [bigEndian, List.foldl_append, List.foldl_cons, List.foldl_nil, ih, List.reverse_append]
      simp only [List.reverse_cons, List.reverse_nil, List.nil_append, List.singleton_append,
        ofLittleEndian]
      omega

theorem bigEndian_lt (bs : List UInt8) : bigEndian bs < 256 ^ bs.length := by
  rw [bigEndian_eq, ← List.length_reverse]
  exact ofLittleEndian_lt _

/-- Byte strings of one length with one number are equal. -/
theorem bigEndian_inj {a b : List UInt8} (hlength : a.length = b.length)
    (h : bigEndian a = bigEndian b) : a = b := by
  rw [bigEndian_eq, bigEndian_eq] at h
  have ha := littleEndian_ofLittleEndian a.reverse
  have hb := littleEndian_ofLittleEndian b.reverse
  rw [h, List.length_reverse, hlength, ← List.length_reverse, hb] at ha
  exact (List.reverse_injective ha).symm

end Hexadecimal
end LiveSurface
