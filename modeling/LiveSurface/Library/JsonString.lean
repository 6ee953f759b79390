import LiveSurface.Library.Decide
import Mathlib.Data.List.Basic

/-!
# Strings of JSON

Between its quotes a string of JSON is a sequence of characters and of escapes.  A reader takes one
after the other until it meets the closing quote; the units it has collected are code points, where
two surrogates in a row make one.

Main results:

- Theorem {lit}`body_flatMap`: texts that spell one unit each are read one after the other.
- Theorem {lit}`codePoints_eq_self`: units below the surrogates are code points.
-/

namespace LiveSurface
namespace JsonString

/-! ## Reading -/

/-- The unit behind a backslash, where that is one character. -/
@[grind =]
def escape : Char → Option Nat
  | '"' => some 0x22
  | '\\' => some 0x5c
  | '/' => some 0x2f
  | 'b' => some 0x08
  | 'f' => some 0x0c
  | 'n' => some 0x0a
  | 'r' => some 0x0d
  | 't' => some 0x09
  | _ => none

/-- The value of a hexadecimal digit of either case. -/
def hexDigit (c : Char) : Option Nat :=
  if '0' ≤ c ∧ c ≤ '9' then some (c.toNat - 48)
  else if 'a' ≤ c ∧ c ≤ 'f' then some (c.toNat - 87)
  else if 'A' ≤ c ∧ c ≤ 'F' then some (c.toNat - 55)
  else none

/-- The unit behind {lit}`\u`. -/
def hexUnit (a b c d : Char) : Option Nat := do
  let a ← hexDigit a
  let b ← hexDigit b
  let c ← hexDigit c
  let d ← hexDigit d
  return 4096 * a + 256 * b + 16 * c + d

/-- The units up to the closing quote, and what follows it. -/
@[grind =]
def body : List Char → Option (List Nat × List Char)
  | [] => none
  | '"' :: rest => some ([], rest)
  | '\\' :: 'u' :: a :: b :: c :: d :: rest =>
      (hexUnit a b c d).bind fun unit => (body rest).map fun r => (unit :: r.1, r.2)
  | '\\' :: e :: rest => (escape e).bind fun unit => (body rest).map fun r => (unit :: r.1, r.2)
  | c :: rest =>
      if c.toNat < 0x20 ∨ c = '\\' then none
      else (body rest).map fun r => (c.toNat :: r.1, r.2)

/-- The code points of units: a high surrogate and a low one are together one of them. -/
@[grind =]
def codePoints : List Nat → List Nat
  | high :: low :: rest =>
      if 0xd800 ≤ high ∧ high < 0xdc00 ∧ 0xdc00 ≤ low ∧ low < 0xe000 then
        (0x10000 + (high - 0xd800) * 0x400 + (low - 0xdc00)) :: codePoints rest
      else high :: codePoints (low :: rest)
  | units => units

/-- A string with its quotes: its code points, and what follows it. -/
def string : List Char → Option (List Nat × List Char)
  | '"' :: rest => (body rest).map fun r => (codePoints r.1, r.2)
  | _ => none

/-! ## Texts that spell one unit -/

/-- Whatever follows, the text is read as the unit. -/
def Spells (text : List Char) (unit : Nat) : Prop :=
  ∀ rest, body (text ++ rest) = (body rest).map fun r => (unit :: r.1, r.2)

theorem spells_escape {e : Char} {unit : Nat} (h : escape e = some unit) : Spells ['\\', e] unit := by
  intro rest
  have hu : e ≠ 'u' := by
    rintro rfl
    exact nomatch h
  change body ('\\' :: e :: rest) = _
  rw [body, h]
  · rfl
  · intro a b c d more he _
    exact hu he

theorem spells_hexUnit {a b c d : Char} {unit : Nat} (h : hexUnit a b c d = some unit) :
    Spells ['\\', 'u', a, b, c, d] unit := by
  intro rest
  change body ('\\' :: 'u' :: a :: b :: c :: d :: rest) = _
  rw [body, h]
  rfl

theorem spells_char {c : Char} (hlow : 0x20 ≤ c.toNat) (hquote : c ≠ '"') (hslash : c ≠ '\\') :
    Spells [c] c.toNat := by
  intro rest
  change body (c :: rest) = _
  rw [body, if_neg (not_or.mpr ⟨Nat.not_lt.mpr hlow, hslash⟩)]
  · exact hquote
  · exact fun _ _ _ _ _ he _ => hslash he
  · exact fun _ _ he _ => hslash he

/-- Texts that spell one unit each are read one after the other, up to the closing quote. -/
theorem body_flatMap {α : Type} {text : α → List Char} {unit : α → Nat}
    (h : ∀ a, Spells (text a) (unit a)) (as : List α) (rest : List Char) :
    body (as.flatMap text ++ '"' :: rest) = some (as.map unit, rest) := by
  induction as with
  | nil => simp [body]
  | cons a as ih => rw [List.flatMap_cons, List.append_assoc, h a, ih, List.map_cons, Option.map_some]

/-- Units below the surrogates are code points. -/
theorem codePoints_eq_self {units : List Nat} (h : ∀ u ∈ units, u < 0xd800) :
    codePoints units = units := by
  induction units with
  | nil => rfl
  | cons u rest ih =>
      rw [List.forall_mem_cons] at h
      cases rest with
      | nil => rfl
      | cons v rest =>
          have hu := h.1
          rw [codePoints, if_neg (by omega), ih h.2]

end JsonString
end LiveSurface
