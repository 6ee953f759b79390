import LiveSurface.Library.Decide
import Mathlib.Data.List.Basic

/-!
# The header recogniser

{lit}`consume` takes one byte of a request's header at a time.  It accepts one of three
request lines, then header lines, and keeps the value of the one line it looks for.

Main results:

- Definition {lit}`consume`: the source's function.
- Theorem {lit}`feed_append`: bytes may be fed in pieces.
-/

namespace LiveSurface
namespace Candidate

/-! ## Bytes of the grammar -/

/-- The bytes of a text. -/
def ascii (text : String) : List UInt8 := text.toList.map fun c => UInt8.ofNat c.toNat

/-- Carriage return. -/
def cr : UInt8 := 0x0d

/-- Line feed. -/
def lf : UInt8 := 0x0a

/-- {lit}`':'`. -/
def colon : UInt8 := 0x3a

/-- A hexadecimal digit of either case. -/
def hexByte (c : UInt8) : Bool :=
  (0x30 ≤ c && c ≤ 0x39) || (0x61 ≤ c && c ≤ 0x66) || (0x41 ≤ c && c ≤ 0x46)

/-! ## The state -/

/-- {lit}`enum mode`. -/
inductive Mode
  | first
  | name
  | space
  | value
  | valueLf
  | skip
  | skipLf
  | endLf
  | done
  | bad
deriving DecidableEq

/-- {lit}`struct progress`; {lit}`matched` is its {lit}`match`. -/
structure Progress where
  lifetime : UInt64
  attempt : UInt64
  total : Nat
  flags : Nat
  mode : Mode
  n : Nat
  matched : Nat
  seen : Nat
  path : Nat
deriving DecidableEq

/-- The flag of a complete header. -/
def flagComplete : Nat := 1

/-- The flag of a header that is not supported. -/
def flagUnsupported : Nat := 8

/-- The flag of a value that is not a nonce. -/
def flagInvalid : Nat := 64

/-- The flag of a second nonce. -/
def flagDuplicate : Nat := 128

/-- The flag of a header without a nonce. -/
def flagMissing : Nat := 512

/-- A progress and the bytes beside it. -/
abbrev State : Type := Progress × List UInt8

/-- {lit}`struct bytes` of zeros. -/
def noBytes : List UInt8 := List.replicate 32 0

/-- The {lit}`n`-th byte of the header name, from the words that hold it. -/
def nameByte (n : Nat) : UInt8 :=
  UInt8.ofNat
    (if n < 8 then 0x2d666f6f72702d78 >>> ((n % 8) * 8)
    else 0x65636e6f6e >>> (((n - 8) % 8) * 8))

/-- The path of a request line that ends at {lit}`n`. -/
def requestPath (n : Nat) (data : List UInt8) : Option Nat :=
  if n = 19 ∧ data.take 19 = ascii "POST /mcp HTTP/1.1\r" then some 1
  else if n = 19 ∧ data.take 19 = ascii "POST /a2a HTTP/1.1\r" then some 2
  else if n = 24 ∧ data.take 24 = ascii "POST /delegate HTTP/1.1\r" then some 3
  else none

/-- The end of {lit}`consume` after a flag was set. -/
def Progress.stop (s : Progress) (flags : Nat) : Progress := { s with flags, mode := .bad }

/-- {lit}`consume`. -/
def consume (s : Progress) (data : List UInt8) (c : UInt8) : State :=
  match s.mode with
  | .first =>
      if (s.n = 0 ∧ c ≠ 0x50) ∨ s.n ≥ 31 then (s.stop flagUnsupported, data)
      else if c ≠ lf then ({ s with n := s.n + 1 }, data.set (s.n % 32) c)
      else
        match requestPath s.n data with
        | none => (s.stop flagUnsupported, data)
        | some path => ({ s with path, mode := .name, n := 0, matched := 1 }, noBytes)
  | .name =>
      if s.n = 0 ∧ c = cr then ({ s with mode := .endLf }, data)
      else if c = colon ∧ s.n = 13 ∧ s.matched ≠ 0 then
        if s.seen ≠ 0 then (s.stop flagDuplicate, data)
        else ({ s with seen := 1, mode := .space }, data)
      else if s.n ≥ 13 ∨ c ||| 32 ≠ nameByte s.n then
        ({ s with
          mode := if c = cr then .skipLf else .skip
          flags := if c = lf then flagUnsupported else s.flags }, data)
      else ({ s with n := s.n + 1 }, data)
  | .space =>
      if c ≠ 0x20 then (s.stop flagInvalid, data)
      else ({ s with mode := .value, n := 0 }, data)
  | .value =>
      if s.n = 32 ∧ c = cr then ({ s with mode := .valueLf }, data)
      else if s.n ≥ 32 ∨ hexByte c = false then (s.stop flagInvalid, data)
      else ({ s with n := s.n + 1 }, data.set (s.n % 32) c)
  | .skip =>
      if c = cr then ({ s with mode := .skipLf }, data)
      else if c = lf then ({ s with flags := flagUnsupported }, data)
      else (s, data)
  | .valueLf | .skipLf =>
      if c ≠ lf then (s.stop flagUnsupported, data)
      else ({ s with mode := .name, n := 0, matched := 1 }, data)
  | .endLf =>
      if c ≠ lf then (s.stop flagUnsupported, data)
      else ({ s with mode := .done, flags := if s.seen ≠ 0 then flagComplete else flagMissing }, data)
  | .done | .bad => (s.stop flagUnsupported, data)

/-- The caller feeds no more bytes. -/
def Progress.Stopped (s : Progress) : Prop := s.mode = .done ∨ s.mode = .bad ∨ s.flags ≠ 0

instance (s : Progress) : Decidable s.Stopped := inferInstanceAs (Decidable (_ ∨ _))

/-- The bytes up to the stop, one by one. -/
def feed : State → List UInt8 → State
  | st, [] => st
  | st, c :: rest => if st.1.Stopped then st else feed (consume st.1 st.2 c) rest

/-- The state before the first byte of an attempt. -/
def Progress.initial (lifetime attempt : UInt64) : Progress where
  lifetime := lifetime
  attempt := attempt
  total := 0
  flags := 0
  mode := .first
  n := 0
  matched := 0
  seen := 0
  path := 0

section Feed

variable {st : State} {c : UInt8} {bs : List UInt8}

theorem feed_cons (h : ¬st.1.Stopped) (c : UInt8) (bs : List UInt8) :
    feed st (c :: bs) = feed (consume st.1 st.2 c) bs := by
  rw [feed, if_neg h]

theorem feed_stopped (h : st.1.Stopped) : feed st bs = st := by
  cases bs with
  | nil => rfl
  | cons c rest => rw [feed, if_pos h]

/-- Bytes may be fed in pieces. -/
theorem feed_append (st : State) (bs cs : List UInt8) :
    feed st (bs ++ cs) = feed (feed st bs) cs := by
  induction bs generalizing st with
  | nil => rfl
  | cons c rest ih =>
      by_cases h : st.1.Stopped
      · rw [feed_stopped h, feed_stopped h, feed_stopped h]
      · rw [List.cons_append, feed_cons h, feed_cons h, ih]

/-- A stop after some bytes is a stop after more. -/
theorem stopped_of_prefix {cs : List UInt8} (h : (feed st bs).1.Stopped) (hpre : bs <+: cs) :
    feed st cs = feed st bs := by
  obtain ⟨rest, rfl⟩ := hpre
  rw [feed_append, feed_stopped h]

/-- {lit}`consume` leaves what its caller counts. -/
theorem consume_frame (s : Progress) (data : List UInt8) (c : UInt8) :
    (consume s data c).1.lifetime = s.lifetime ∧ (consume s data c).1.attempt = s.attempt ∧
      (consume s data c).1.total = s.total := by
  unfold consume Progress.stop
  repeat' split
  all_goals exact ⟨rfl, rfl, rfl⟩

end Feed

end Candidate
end LiveSurface
