import LiveSurface.Library.Automaton
import LiveSurface.Metadata.Decode

/-!
# The number of a message ID

The program that reads message IDs passes a token that is no string on as a number if an automaton
of nine states accepts its bytes.  The decoder matches the same bytes against a pattern.

Main results:

- Theorem {lit}`number_iff`: the automaton accepts what the pattern matches.
- Theorem {lit}`number_iff_fullmatch`: so a number is decoded exactly if the program passes it on.
-/

namespace LiveSurface
namespace Metadata

open Automaton Computability

/-! ## The automaton -/

/-- One byte of {lit}`number`: 0 is the start, 1 after the sign, 2 a zero, 3 the integer, 4 the
dot, 5 the fraction, 6 the exponent marker, 7 its sign and 8 its digits. -/
def numberStep (state : Nat) (c : UInt8) : Option Nat :=
  let digit := 48 ≤ c ∧ c ≤ 57
  if state = 0 ∧ c = 45 then some 1
  else if (state = 0 ∨ state = 1) ∧ digit then some (if c = 48 then 2 else 3)
  else if state = 3 ∧ digit then some 3
  else if (state = 2 ∨ state = 3) ∧ c = 46 then some 4
  else if (state = 4 ∨ state = 5) ∧ digit then some 5
  else if (state = 2 ∨ state = 3 ∨ state = 5) ∧ (c = 101 ∨ c = 69) then some 6
  else if state = 6 ∧ (c = 43 ∨ c = 45) then some 7
  else if (state = 6 ∨ state = 7 ∨ state = 8) ∧ digit then some 8
  else none

/-- The loop of {lit}`number`, with the turns that are left. -/
def numberLoop (value : List UInt8) (n : Nat) : (turns i state : Nat) → Option Nat
  | 0, _, state => some state
  | turns + 1, i, state =>
      if i ≥ n then some state
      else
        match numberStep state (value.getD i 0) with
        | none => none
        | some state => numberLoop value n turns (i + 1) state

/-- The states in which a number may end. -/
def NumberEnd (state : Nat) : Prop := state = 2 ∨ state = 3 ∨ state = 5 ∨ state = 8

instance (state : Nat) : Decidable (NumberEnd state) := inferInstanceAs (Decidable (_ ∨ _))

/-- {lit}`number`. -/
def number (value : List UInt8) (n : Nat) : Int :=
  match numberLoop value n 64 0 0 with
  | none => -1
  | some state => if NumberEnd state then 0 else -1

/-- The loop is a run over the bytes that are left. -/
theorem numberLoop_eq {value : List UInt8} {n turns i : Nat} (hvalue : n ≤ value.length)
    (hturns : n ≤ i + turns) (state : Nat) :
    numberLoop value n turns i state = run numberStep state ((value.take n).drop i) := by
  induction turns generalizing i state with
  | zero =>
      rw [List.drop_eq_nil_of_le (by rw [List.length_take]; omega)]
      rfl
  | succ turns ih =>
      rw [numberLoop]
      by_cases hi : i ≥ n
      · rw [if_pos hi, List.drop_eq_nil_of_le (by rw [List.length_take]; omega)]
        rfl
      · have hlength : i < (value.take n).length := by
          rw [List.length_take]
          omega
        rw [if_neg hi, List.drop_eq_getElem_cons hlength, List.getElem_take,
          List.getD_eq_getElem?_getD, List.getElem?_eq_getElem (by omega), Option.getD_some, run]
        cases numberStep state value[i] with
        | none => rfl
        | some state' => exact ih (by omega) state'

/-- A number is accepted from the start. -/
theorem number_eq_zero_iff {value : List UInt8} {n : Nat} (hvalue : value.length = 64)
    (hn : n ≤ 64) :
    number value n = 0 ↔ Accepted numberStep NumberEnd 0 (value.take n) := by
  rw [number, numberLoop_eq (by omega) (by omega), List.drop_zero, Accepted]
  cases run numberStep 0 (value.take n) with
  | none => exact iff_of_false (by decide) fun ⟨_, h, _⟩ => nomatch h
  | some state =>
      dsimp only
      constructor
      · intro h
        by_contra hno
        rw [if_neg fun hend => hno ⟨state, rfl, hend⟩] at h
        contradiction
      · rintro ⟨state', hstate, hend⟩
        obtain rfl := Option.some.inj hstate
        rw [if_pos hend]

/-! ## The pattern -/

def isDigit (c : UInt8) : Prop := 48 ≤ c ∧ c ≤ 57

def isNonzero (c : UInt8) : Prop := 49 ≤ c ∧ c ≤ 57

def isMarker (c : UInt8) : Prop := c = 101 ∨ c = 69

def isSign (c : UInt8) : Prop := c = 43 ∨ c = 45

/-- One digit or more. -/
def digits : Language UInt8 := letters isDigit * ((letters isDigit)∗ * 1)

/-- What may follow an integer's fraction. -/
def exponents : Language UInt8 := 1 + letters isMarker * ((1 + letters isSign) * digits)

/-- What may follow an integer. -/
def tails : Language UInt8 :=
  (1 + letters (· = 46) * (letters isDigit * (letters isDigit)∗)) * exponents

/-- The words that make a number of what a state has read. -/
def numberRest : Nat → Language UInt8
  | 0 => (1 + letters (· = 45)) * ((letters (· = 48) + letters isNonzero * (letters isDigit)∗) * tails)
  | 1 => (letters (· = 48) + letters isNonzero * (letters isDigit)∗) * tails
  | 2 => tails
  | 3 => (letters isDigit)∗ * tails
  | 4 => letters isDigit * ((letters isDigit)∗ * exponents)
  | 5 => (letters isDigit)∗ * exponents
  | 6 => (1 + letters isSign) * digits
  | 7 => digits
  | 8 => (letters isDigit)∗ * 1
  | _ => 0

/-- The class of a set of characters. -/
theorem matches_oneOf {cs : List Char} {p : UInt8 → Prop}
    (h : ∀ c, c ∈ cs.map (fun c => UInt8.ofNat c.toNat) ↔ p c) :
    (oneOf cs).matches' = letters p := by
  obtain rfl : (· ∈ cs.map fun c => UInt8.ofNat c.toNat) = p := funext fun c => propext (h c)
  clear h
  refine Set.ext fun w => ?_
  change w ∈ (oneOf cs).matches' ↔ ∃ c, c ∈ cs.map (fun c => UInt8.ofNat c.toNat) ∧ w = [c]
  induction cs with
  | nil => simp [oneOf]
  | cons d cs ih =>
      change w ∈ (RegularExpression.char (UInt8.ofNat d.toNat) + oneOf cs).matches' ↔ _
      rw [RegularExpression.matches'_add, Language.mem_add, ih, RegularExpression.matches'_char,
        List.map_cons, List.exists_mem_cons_iff]
      exact Iff.rfl

theorem matches_number : NUMBER.matches' = numberRest 0 := by
  have hminus : (oneOf ['-']).matches' = letters (· = 45) := matches_oneOf (by simp)
  have hzero : (oneOf ['0']).matches' = letters (· = 48) := matches_oneOf (by simp)
  have hdot : (oneOf ['.']).matches' = letters (· = 46) := matches_oneOf (by simp)
  have hmarker : (oneOf ['e', 'E']).matches' = letters isMarker :=
    matches_oneOf (by simp [isMarker])
  have hsign : (oneOf ['+', '-']).matches' = letters isSign := matches_oneOf (by simp [isSign])
  have hdigit : digit.matches' = letters isDigit := by
    refine matches_oneOf fun c => ?_
    simp [isDigit, UInt8.le_iff_toNat_le, ← UInt8.toNat_inj]
    omega
  have hnonzero : digitNonzero.matches' = letters isNonzero := by
    refine matches_oneOf fun c => ?_
    simp [isNonzero, UInt8.le_iff_toNat_le, ← UInt8.toNat_inj]
    omega
  simp only [NUMBER, fraction, exponent, optional, RegularExpression.matches'_mul,
    RegularExpression.matches'_add, RegularExpression.matches'_epsilon,
    RegularExpression.matches'_star, hminus, hzero, hdot, hmarker, hsign, hdigit, hnonzero]
  simp only [numberRest, tails, exponents, digits, mul_one]

theorem nil_mem_numberRest (state : Nat) : [] ∈ numberRest state ↔ NumberEnd state := by
  have hexponents : [] ∈ exponents := Or.inl rfl
  have htails : [] ∈ tails := by
    rw [tails, add_mul, one_mul]
    exact Or.inl hexponents
  have hone : ([] : List UInt8) ∈ (1 : Language UInt8) := rfl
  match state with
  | 0 | 1 | 2 | 3 | 4 | 5 | 6 | 7 | 8 =>
      simp only [numberRest, digits, NumberEnd, add_mul, one_mul, mul_assoc, Language.mem_add,
        nil_mem_letters_mul, nil_mem_kstar_mul, hexponents, htails, hone]
      decide
  | n + 9 => exact iff_of_false id (by simp [NumberEnd])

theorem cons_mem_exponents {c : UInt8} {w : List UInt8} :
    c :: w ∈ exponents ↔ isMarker c ∧ w ∈ numberRest 6 := by
  rw [exponents, Language.mem_add, cons_mem_letters_mul]
  exact or_iff_right (List.cons_ne_nil _ _)

theorem cons_mem_tails {c : UInt8} {w : List UInt8} :
    c :: w ∈ tails ↔ c = 46 ∧ w ∈ numberRest 4 ∨ isMarker c ∧ w ∈ numberRest 6 := by
  rw [tails, add_mul, one_mul, Language.mem_add, cons_mem_exponents, mul_assoc,
    cons_mem_letters_mul, mul_assoc]
  exact or_comm

theorem cons_mem_digits {c : UInt8} {w : List UInt8} :
    c :: w ∈ digits ↔ isDigit c ∧ w ∈ numberRest 8 := cons_mem_letters_mul

theorem cons_mem_integers {c : UInt8} {w : List UInt8} :
    c :: w ∈ numberRest 1 ↔ c = 48 ∧ w ∈ numberRest 2 ∨ isNonzero c ∧ w ∈ numberRest 3 := by
  rw [numberRest, add_mul, mul_assoc, Language.mem_add, cons_mem_letters_mul, cons_mem_letters_mul]
  exact Iff.rfl

/-- One byte takes the rest of a state to that of the next one. -/
theorem cons_mem_numberRest (state : Nat) (c : UInt8) (w : List UInt8) :
    c :: w ∈ numberRest state ↔
      ∃ state', numberStep state c = some state' ∧ w ∈ numberRest state' := by
  match state with
  | 0 =>
      have h : c :: w ∈ numberRest 0 ↔ c :: w ∈ numberRest 1 ∨ c = 45 ∧ w ∈ numberRest 1 := by
        rw [numberRest, add_mul, one_mul, Language.mem_add, cons_mem_letters_mul]
        exact Iff.rfl
      rw [h, cons_mem_integers]
      simp only [numberStep, isNonzero]
      grind
  | 1 =>
      rw [cons_mem_integers]
      simp only [numberStep, isNonzero]
      grind
  | 2 =>
      rw [numberRest, cons_mem_tails]
      simp only [numberStep, isMarker]
      grind
  | 3 =>
      have h : c :: w ∈ numberRest 3 ↔ c :: w ∈ tails ∨ isDigit c ∧ w ∈ numberRest 3 :=
        cons_mem_kstar_mul
      rw [h, cons_mem_tails]
      simp only [numberStep, isMarker, isDigit]
      grind
  | 4 =>
      have h : c :: w ∈ numberRest 4 ↔ isDigit c ∧ w ∈ numberRest 5 := cons_mem_letters_mul
      rw [h]
      simp only [numberStep, isDigit]
      grind
  | 5 =>
      have h : c :: w ∈ numberRest 5 ↔ c :: w ∈ exponents ∨ isDigit c ∧ w ∈ numberRest 5 :=
        cons_mem_kstar_mul
      rw [h, cons_mem_exponents]
      simp only [numberStep, isMarker, isDigit]
      grind
  | 6 =>
      have h : c :: w ∈ numberRest 6 ↔ c :: w ∈ digits ∨ isSign c ∧ w ∈ numberRest 7 := by
        rw [numberRest, add_mul, one_mul, Language.mem_add, cons_mem_letters_mul]
        exact Iff.rfl
      rw [h, cons_mem_digits]
      simp only [numberStep, isSign, isDigit]
      grind
  | 7 =>
      rw [numberRest, cons_mem_digits]
      simp only [numberStep, isDigit]
      grind
  | 8 =>
      have h : c :: w ∈ numberRest 8 ↔ c :: w ∈ (1 : Language UInt8) ∨ isDigit c ∧ w ∈ numberRest 8 :=
        cons_mem_kstar_mul
      rw [h, Language.mem_one]
      simp only [numberStep, isDigit]
      grind
  | n + 9 =>
      refine iff_of_false id ?_
      simp [numberStep]

/-- A number is passed on exactly if the pattern matches it. -/
theorem number_iff {value : List UInt8} {n : Nat} (hvalue : value.length = 64) (hn : n ≤ 64) :
    number value n = 0 ↔ NUMBER.rmatch (value.take n) = true := by
  rw [number_eq_zero_iff hvalue hn, RegularExpression.rmatch_iff_matches', matches_number,
    mem_iff_accepted nil_mem_numberRest cons_mem_numberRest]

/-! ## The record -/

/-- The event of a complete value. -/
def completed (e : JmEvent) (kind n : Nat) : JmEvent :=
  { e with
    getterResult := kind
    copiedLength := n
    status := if n < e.originalLength then 2 else 1 }

/-- The event of a token that is dropped. -/
def dropped (e : JmEvent) : JmEvent := { e with value := List.replicate 64 0, copiedLength := 0 }

/-- The end of {lit}`extract` for a token that is no string, and what the program makes of the event
before it is emitted. -/
def passToken (e : JmEvent) (n : Nat) : JmEvent :=
  if n = 4 ∧ e.value.take 4 = nullBytes then completed e 3 n
  else if number e.value n = 0 then completed e 2 n
  else dropped e

/-- The event of a token that is no string, with its bytes copied. -/
structure TokenCopied (e : JmEvent) (n : Nat) : Prop where
  fits : e.Fits
  magic : e.magic = 0x4d534749
  abi : e.abi = 1
  status : e.status = 10
  kind : e.getterResult = 0
  length : e.originalLength = n
  flags : e.flags ≤ 15
  reads : e.reads ≤ 80
  sourceBytes : e.sourceBytes ≤ 2048
  rest : anyFrom e.value n = false

section Record

variable {e : JmEvent} {n : Nat}

theorem completed_status (h : TokenCopied e n) (kind : Nat) : (completed e kind n).status = 1 := by
  rw [completed, h.length]
  exact if_neg (Nat.lt_irrefl n)

theorem completed_fits (h : TokenCopied e n) (hn : n ≤ 64) {kind : Nat} (hkind : kind ≤ 3) :
    (completed e kind n).Fits := by
  have hwords := h.fits.words
  have hstatus := completed_status h kind
  refine ⟨?_, h.fits.value⟩
  simp only [Layout.Fits, JmEvent.words, List.forall_mem_cons, completed] at hwords hstatus ⊢
  grind

/-- A complete value of a token that is no string is decoded exactly if a number is one, and a null
is. -/
theorem decode_completed (h : TokenCopied e n) (hn : n ≤ 64) {kind : Nat} (hkind : kind ≤ 3)
    (hpos : kind ≠ 0) :
    (∃ d, messageIdDecode (completed e kind n).bytes = .ok d) ↔
      (kind = 2 → NUMBER.rmatch (e.value.take n) = true) ∧
        (kind = 3 → e.value.take n = nullBytes) := by
  have hfits := completed_fits h hn hkind
  have hstatus := completed_status h kind
  have hflags := h.flags
  have hreads := h.reads
  have hbytes := h.sourceBytes
  have hschema : ¬((completed e kind n).magic ≠ 0x4d534749 ∨ (completed e kind n).abi ≠ 1 ∨
      (completed e kind n).getterResult > 3 ∨ (completed e kind n).flags > 15 ∨
      (completed e kind n).reads > 80 ∨ (completed e kind n).sourceBytes > 2048 ∨
      (completed e kind n).copiedLength > 64 ∨
      anyFrom (completed e kind n).value (completed e kind n).copiedLength = true) := by
    simp only [completed, h.magic, h.abi, h.rest, Bool.false_eq_true, or_false]
    omega
  have hlength : ¬(((completed e kind n).status = 1 ∨ (completed e kind n).status = 2) ∧
      ((completed e kind n).getterResult = 0 ∨
        (completed e kind n).copiedLength ≠ min (completed e kind n).originalLength 64 ∨
        ¬((completed e kind n).status = 2 ↔ (completed e kind n).originalLength > 64))) := by
    rw [hstatus]
    simp only [completed, h.length]
    omega
  have hnumber : (((completed e kind n).status = 1 ∨ (completed e kind n).status = 2) ∧
      (completed e kind n).getterResult = 2 ∧ ((completed e kind n).status ≠ 1 ∨
        NUMBER.rmatch ((completed e kind n).value.take (completed e kind n).copiedLength) =
          false)) ↔ kind = 2 ∧ NUMBER.rmatch (e.value.take n) = false := by
    rw [hstatus]
    simp [completed]
  have hnull : (((completed e kind n).status = 1 ∨ (completed e kind n).status = 2) ∧
      (completed e kind n).getterResult = 3 ∧ ((completed e kind n).status ≠ 1 ∨
        (completed e kind n).value.take (completed e kind n).copiedLength ≠ nullBytes)) ↔
          kind = 3 ∧ e.value.take n ≠ nullBytes := by
    rw [hstatus]
    simp [completed]
  have hnone : ¬(¬((completed e kind n).status = 1 ∨ (completed e kind n).status = 2) ∧
      ((completed e kind n).copiedLength ≠ 0 ∨ (completed e kind n).getterResult > 1)) :=
    fun hno => hno.1 (Or.inl hstatus)
  have hname : messageIdStates (completed e kind n).status = some "complete" := by
    rw [hstatus]
    rfl
  unfold messageIdDecode
  rw [if_neg (not_not_intro hfits.length_bytes), JmEvent.unpack_bytes hfits]
  simp only [hname, if_neg hschema, if_neg hlength, hnumber, hnull, if_neg hnone]
  by_cases htwo : kind = 2 ∧ NUMBER.rmatch (e.value.take n) = false
  · rw [if_pos htwo]
    refine iff_of_false (fun ⟨_, h⟩ => nomatch h) fun hok => ?_
    rw [hok.1 htwo.1] at htwo
    exact absurd htwo.2 (by decide)
  · rw [if_neg htwo]
    by_cases hthree : kind = 3 ∧ e.value.take n ≠ nullBytes
    · rw [if_pos hthree]
      exact iff_of_false (fun ⟨_, h⟩ => nomatch h) fun hok => hthree.2 (hok.2 hthree.1)
    · rw [if_neg hthree]
      refine iff_of_true ⟨_, rfl⟩ ⟨fun hkind => ?_, fun hkind => ?_⟩
      · by_contra hno
        exact htwo ⟨hkind, Bool.eq_false_of_not_eq_true hno⟩
      · by_contra hno
        exact hthree ⟨hkind, hno⟩

/-- A token that is dropped is decoded too. -/
theorem decode_dropped (h : TokenCopied e n) : ∃ d, messageIdDecode (dropped e).bytes = .ok d := by
  have hflags := h.flags
  have hreads := h.reads
  have hbytes := h.sourceBytes
  have hfits : (dropped e).Fits := by
    have hwords := h.fits.words
    refine ⟨?_, rfl⟩
    simp only [Layout.Fits, JmEvent.words, List.forall_mem_cons, dropped] at hwords ⊢
    grind
  have hschema : ¬((dropped e).magic ≠ 0x4d534749 ∨ (dropped e).abi ≠ 1 ∨
      (dropped e).getterResult > 3 ∨ (dropped e).flags > 15 ∨ (dropped e).reads > 80 ∨
      (dropped e).sourceBytes > 2048 ∨ (dropped e).copiedLength > 64 ∨
      anyFrom (dropped e).value (dropped e).copiedLength = true) := by
    have hzero : anyFrom (List.replicate 64 0) 0 = false := by decide
    simp only [dropped, h.magic, h.abi, h.kind, hzero, Bool.false_eq_true, or_false]
    omega
  have hstatus : ¬((dropped e).status = 1 ∨ (dropped e).status = 2) := by
    simp only [dropped, h.status]
    decide
  have hkind : ¬((dropped e).copiedLength ≠ 0 ∨ (dropped e).getterResult > 1) := by
    simp only [dropped, h.kind]
    decide
  have hname : messageIdStates (dropped e).status = some "wrong_type" := by
    simp only [dropped, h.status]
    rfl
  unfold messageIdDecode
  rw [if_neg (not_not_intro hfits.length_bytes), JmEvent.unpack_bytes hfits]
  simp only [hname, if_neg hschema, hstatus, hkind, false_and, and_false, if_false]
  exact ⟨_, rfl⟩

/-- {lit}`null` is no number. -/
theorem number_null {value : List UInt8} (hvalue : value.length = 64)
    (h : value.take 4 = nullBytes) : number value 4 ≠ 0 := by
  rw [Ne, number_iff hvalue (by decide), h]
  decide

end Record

/-- The automaton accepts the bytes that the pattern matches.  So whatever the program makes of the
bytes of a token is decoded, and a number is passed on as such exactly if the decoder would take
it. -/
theorem number_iff_fullmatch {value : List UInt8} {n : Nat} (hvalue : value.length = 64)
    (hpos : 1 ≤ n) (hn : n ≤ 64) :
    (number value n = 0 ↔ NUMBER.rmatch (value.take n) = true) ∧
    ∀ e, TokenCopied e n → e.value = value →
      (∃ d, messageIdDecode (passToken e n).bytes = .ok d) ∧
      ((passToken e n).getterResult = 2 ↔
        ∃ d, messageIdDecode (completed e 2 n).bytes = .ok d) := by
  refine ⟨number_iff hvalue hn, ?_⟩
  rintro e h rfl
  have hnumber : (∃ d, messageIdDecode (completed e 2 n).bytes = .ok d) ↔ number e.value n = 0 := by
    rw [decode_completed h hn (by decide) (by decide), number_iff h.fits.value hn]
    exact ⟨fun hok => hok.1 rfl, fun hok => ⟨fun _ => hok, fun hthree => nomatch hthree⟩⟩
  rw [hnumber]
  unfold passToken
  by_cases hnull : n = 4 ∧ e.value.take 4 = nullBytes
  · rw [if_pos hnull]
    obtain ⟨rfl, hnull⟩ := hnull
    have hthree : ¬(completed e 3 4).getterResult = 2 := by
      change ¬3 = 2
      decide
    refine ⟨?_, iff_of_false hthree (number_null h.fits.value hnull)⟩
    rw [decode_completed h hn (by decide) (by decide)]
    exact ⟨fun htwo => absurd htwo (by decide), fun _ => hnull⟩
  · rw [if_neg hnull]
    by_cases hzero : number e.value n = 0
    · rw [if_pos hzero]
      exact ⟨hnumber.mpr hzero, iff_of_true rfl hzero⟩
    · rw [if_neg hzero]
      refine ⟨decode_dropped h, iff_of_false ?_ hzero⟩
      change e.getterResult ≠ 2
      rw [h.kind]
      decide

/-- The bytes {lit}`-1` are a number, and whatever becomes of them is decoded. -/
theorem number_iff_fullmatch_minus :
    let value : List UInt8 := 45 :: 49 :: List.replicate 62 0
    number value 2 = 0 ∧ NUMBER.rmatch (value.take 2) = true ∧ ∀ e, TokenCopied e 2 →
      e.value = value → (passToken e 2).getterResult = 2 ∧
        ∃ d, messageIdDecode (passToken e 2).bytes = .ok d := by
  intro value
  have hvalue : value.length = 64 := rfl
  obtain ⟨hnumber, hpass⟩ := number_iff_fullmatch hvalue (by decide : 1 ≤ 2) (by decide)
  have hzero : number value 2 = 0 := by decide
  refine ⟨hzero, hnumber.mp hzero, fun e h he => ?_⟩
  obtain ⟨hok, hiff⟩ := hpass e h he
  refine ⟨?_, hok⟩
  rw [passToken, he, if_neg (by decide), if_pos hzero]
  rfl

end Metadata
end LiveSurface
