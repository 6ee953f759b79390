import LiveSurface.Relocation.Offset

/-!
# Access strings

What the loop around {lit}`strtoul` makes of an access string.  It stops at the end of the string,
and reads nothing after it.  A list of decimal numbers with colons between them is read as these
numbers, and so are other strings.

Main results:

- Theorem {lit}`tokens_congr`: what follows the end of the string does not matter.
- Theorem {lit}`tokens_numbers`: a list of numbers is read as its first numbers.
-/

namespace LiveSurface
namespace Relocation

/-! ## The end of the string -/

section Ends

variable {s : List UInt8}

theorem skipSpace_ends (hs : (0 : UInt8) ∉ s) :
    ∃ s', (0 : UInt8) ∉ s' ∧ ∀ rest, skipSpace (s ++ 0 :: rest) = some (s' ++ 0 :: rest) := by
  induction s with
  | nil => exact ⟨[], hs, fun rest => rfl⟩
  | cons c s ih =>
      rw [List.mem_cons, not_or] at hs
      by_cases hspace : IsSpace c
      · obtain ⟨s', hs', hskip⟩ := ih hs.2
        refine ⟨s', hs', fun rest => ?_⟩
        rw [List.cons_append, skipSpace, if_pos hspace, hskip]
      · refine ⟨c :: s, by rw [List.mem_cons, not_or]; exact hs, fun rest => ?_⟩
        rw [List.cons_append, skipSpace, if_neg hspace]

theorem digits_ends (hs : (0 : UInt8) ∉ s) :
    ∃ ds s', (0 : UInt8) ∉ s' ∧
      ∀ rest, digits (s ++ 0 :: rest) = some (ds, s' ++ 0 :: rest) := by
  induction s with
  | nil => exact ⟨[], [], hs, fun rest => rfl⟩
  | cons c s ih =>
      rw [List.mem_cons, not_or] at hs
      by_cases hdigit : IsDigit c
      · obtain ⟨ds, s', hs', hdigits⟩ := ih hs.2
        refine ⟨c :: ds, s', hs', fun rest => ?_⟩
        rw [List.cons_append, digits, if_pos hdigit, hdigits]
        rfl
      · refine ⟨[], c :: s, by rw [List.mem_cons, not_or]; exact hs, fun rest => ?_⟩
        rw [List.cons_append, digits, if_neg hdigit]

/-- {lit}`strtoul` stops in the string. -/
theorem strtoul_ends (hs : (0 : UInt8) ∉ s) :
    ∃ value s', (0 : UInt8) ∉ s' ∧
      ∀ rest, strtoul (s ++ 0 :: rest) = some (value, s' ++ 0 :: rest) := by
  obtain ⟨start, hstart, hskip⟩ := skipSpace_ends hs
  cases start with
  | nil =>
      refine ⟨0, s, hs, fun rest => ?_⟩
      rw [strtoul, hskip]
      rfl
  | cons c start =>
      have hnumber : ∃ number, (0 : UInt8) ∉ number ∧ ∀ rest,
          (if c = 43 ∨ c = 45 then (c :: start ++ 0 :: rest).drop 1 else c :: start ++ 0 :: rest) =
            number ++ 0 :: rest := by
        split
        · exact ⟨start, fun h => hstart (List.mem_cons_of_mem c h), fun rest => rfl⟩
        · exact ⟨c :: start, hstart, fun rest => rfl⟩
      obtain ⟨number, hzero, hnumber⟩ := hnumber
      obtain ⟨ds, s', hs', hdigits⟩ := digits_ends hzero
      by_cases hds : ds = []
      · refine ⟨0, s, hs, fun rest => ?_⟩
        rw [strtoul, hskip]
        simp only [Option.bind_eq_bind, Option.bind_some, List.cons_append, firstByte]
        rw [← List.cons_append, hnumber, hdigits, Option.bind_some, if_pos hds]
      · refine ⟨strtoulValue (decide (c = 45)) ds, s', hs', fun rest => ?_⟩
        rw [strtoul, hskip]
        simp only [Option.bind_eq_bind, Option.bind_some, List.cons_append, firstByte]
        rw [← List.cons_append, hnumber, hdigits, Option.bind_some, if_neg hds]

/-- The numbers that are read are those of the string. -/
theorem tokens_ends (left : Nat) :
    ∀ s, (0 : UInt8) ∉ s → ∃ comps, ∀ rest, tokens left (s ++ 0 :: rest) = some comps := by
  induction left with
  | zero =>
      intro s _
      refine ⟨[], fun rest => ?_⟩
      cases s <;> rfl
  | succ left ih =>
      intro s hs
      cases s with
      | nil => exact ⟨[], fun rest => rfl⟩
      | cons c s =>
          obtain ⟨value, s', hs', hvalue⟩ := strtoul_ends hs
          have hnext : ∃ d next, (0 : UInt8) ∉ next ∧ ∀ rest, firstByte (s' ++ 0 :: rest) = some d ∧
              (if d = colon then (s' ++ 0 :: rest).drop 1 else s' ++ 0 :: rest) =
                next ++ 0 :: rest := by
            cases s' with
            | nil => exact ⟨0, [], hs', fun rest => ⟨rfl, rfl⟩⟩
            | cons d s' =>
                by_cases hcolon : d = colon
                · exact ⟨d, s', fun h => hs' (List.mem_cons_of_mem d h),
                    fun rest => ⟨rfl, by rw [if_pos hcolon]; rfl⟩⟩
                · exact ⟨d, d :: s', hs', fun rest => ⟨rfl, by rw [if_neg hcolon]⟩⟩
          obtain ⟨d, next, hzero, hnext⟩ := hnext
          obtain ⟨comps, hcomps⟩ := ih next hzero
          rw [List.mem_cons, not_or] at hs
          refine ⟨value % 2 ^ 32 :: comps, fun rest => ?_⟩
          rw [tokens, hvalue, show firstByte (c :: s ++ 0 :: rest) = some c from rfl]
          simp only [Option.bind_eq_bind, Option.bind_some, if_neg (Ne.symm hs.1),
            (hnext rest).1, (hnext rest).2, hcomps]

theorem tokens_isSome {p : List UInt8} (left : Nat) (hp : (cstr p).isSome) :
    ∃ comps, tokens left p = some comps := by
  obtain ⟨s, hs⟩ := Option.isSome_iff_exists.mp hp
  obtain ⟨hzero, rest, rfl⟩ := cstr_eq_some hs
  obtain ⟨comps, hcomps⟩ := tokens_ends left s hzero
  exact ⟨comps, hcomps rest⟩

/-- What follows the end of the string does not matter. -/
theorem tokens_congr {p p' : List UInt8} (left : Nat) (hp : (cstr p).isSome)
    (hp' : cstr p' = cstr p) : tokens left p' = tokens left p := by
  obtain ⟨s, hs⟩ := Option.isSome_iff_exists.mp hp
  obtain ⟨hzero, rest, rfl⟩ := cstr_eq_some hs
  obtain ⟨-, rest', rfl⟩ := cstr_eq_some (hp'.trans hs)
  obtain ⟨comps, hcomps⟩ := tokens_ends left s hzero
  rw [hcomps, hcomps]

end Ends

/-! ## Lists of numbers -/

/-- A decimal number below {lit}`2 ^ 32`. -/
structure Numeral (w : List UInt8) : Prop where
  nonempty : w ≠ []
  digits : ∀ c ∈ w, IsDigit c
  small : decimal w < 2 ^ 32

/-- Decimal numbers with colons between them. -/
inductive Numbers : List UInt8 → List Nat → Prop
  | last {w : List UInt8} : Numeral w → Numbers w [decimal w]
  | more {w s : List UInt8} {comps : List Nat} :
      Numeral w → Numbers s comps → Numbers (w ++ colon :: s) (decimal w :: comps)

/-- The string at a pointer is a list of numbers. -/
def AccessList (p : List UInt8) (comps : List Nat) : Prop := ∃ s, cstr p = some s ∧ Numbers s comps

section Numbers

variable {w s : List UInt8} {comps : List Nat}

theorem digits_append (hw : ∀ c ∈ w, IsDigit c) {d : UInt8} (hd : ¬IsDigit d) (rest : List UInt8) :
    digits (w ++ d :: rest) = some (w, d :: rest) := by
  induction w with
  | nil => rw [List.nil_append, digits, if_neg hd]
  | cons c w ih =>
      rw [List.cons_append, digits, if_pos (hw c List.mem_cons_self),
        ih fun c' hc' => hw c' (List.mem_cons_of_mem c hc')]
      rfl

theorem IsDigit.plain {c : UInt8} (h : IsDigit c) : ¬IsSpace c ∧ ¬(c = 43 ∨ c = 45) ∧ c ≠ 0 := by
  obtain ⟨hlo, hhi⟩ := h
  rw [UInt8.le_iff_toNat_le] at hlo hhi
  change 48 ≤ c.toNat at hlo
  change c.toNat ≤ 57 at hhi
  have hne : ∀ d : UInt8, d.toNat < 48 → c ≠ d := by
    intro d hd heq
    rw [heq] at hlo
    omega
  refine ⟨?_, ?_, hne 0 (by decide)⟩
  · rintro (hspace | ⟨_, hspace⟩)
    · exact hne 32 (by decide) hspace
    · rw [UInt8.le_iff_toNat_le] at hspace
      change c.toNat ≤ 13 at hspace
      omega
  · rintro (hsign | hsign)
    · exact hne 43 (by decide) hsign
    · exact hne 45 (by decide) hsign

theorem strtoul_numeral (hw : Numeral w) {d : UInt8} (hd : ¬IsDigit d) (rest : List UInt8) :
    strtoul (w ++ d :: rest) = some (decimal w, d :: rest) := by
  have hdigits := digits_append hw.digits hd rest
  have hsmall := hw.small
  have hvalue : ∀ negative, negative = false → strtoulValue negative w = decimal w := by
    intro negative hneg
    rw [strtoulValue, if_neg (by omega), hneg]
    rfl
  have hnonempty := hw.nonempty
  cases w with
  | nil => contradiction
  | cons c w =>
      obtain ⟨hspace, hsign, _⟩ := IsDigit.plain (hw.digits c List.mem_cons_self)
      rw [List.cons_append] at hdigits ⊢
      rw [strtoul, skipSpace, if_neg hspace]
      simp only [Option.bind_eq_bind, Option.bind_some, firstByte, if_neg hsign, hdigits]
      rw [if_neg (by simp), hvalue _ (decide_eq_false fun h => hsign (Or.inr h))]

/-- A list of numbers is read as its first numbers, as many as there is room for. -/
theorem tokens_numbers (h : Numbers s comps) :
    ∀ (left : Nat) (rest : List UInt8), tokens left (s ++ 0 :: rest) = some (comps.take left) := by
  have hzero : ¬IsDigit 0 := by decide
  have hcolon : ¬IsDigit colon := by decide
  have hstart : ∀ {w : List UInt8}, Numeral w → ∀ tail, ∃ c, firstByte (w ++ tail) = some c ∧
      c ≠ 0 := by
    intro w hw tail
    have hnonempty := hw.nonempty
    cases w with
    | nil => contradiction
    | cons c w => exact ⟨c, rfl, (IsDigit.plain (hw.digits c List.mem_cons_self)).2.2⟩
  induction h with
  | last hw =>
      intro left rest
      obtain ⟨c, hc, hne⟩ := hstart hw (0 :: rest)
      cases left with
      | zero => rw [tokens, hc]; rfl
      | succ left =>
          have hend : tokens left (0 :: rest) = some [] := by
            cases left <;> rfl
          rw [tokens, hc]
          simp only [Option.bind_eq_bind, Option.bind_some, if_neg hne,
            strtoul_numeral hw hzero rest, firstByte]
          rw [if_neg (by decide), hend, Option.bind_some, Nat.mod_eq_of_lt hw.small,
            List.take_succ_cons, List.take_nil]
  | more hw _ ih =>
      rename_i w s comps _
      intro left rest
      obtain ⟨c, hc, hne⟩ := hstart hw (colon :: (s ++ 0 :: rest))
      rw [List.append_assoc, List.cons_append]
      cases left with
      | zero => rw [tokens, hc]; rfl
      | succ left =>
          rw [tokens, hc]
          simp only [Option.bind_eq_bind, Option.bind_some, if_neg hne,
            strtoul_numeral hw hcolon, firstByte, if_true, List.drop_one, List.tail_cons, ih]
          rw [Nat.mod_eq_of_lt hw.small]
          rfl

/-- A list of numbers that fits is read as it stands. -/
theorem AccessList.tokens {p : List UInt8} (h : AccessList p comps) (left : Nat) :
    tokens left p = some (comps.take left) := by
  obtain ⟨s, hs, hnumbers⟩ := h
  obtain ⟨_, rest, rfl⟩ := cstr_eq_some hs
  exact tokens_numbers hnumbers left rest

end Numbers

end Relocation
end LiveSurface
