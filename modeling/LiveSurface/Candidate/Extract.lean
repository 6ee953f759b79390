import LiveSurface.Library.Probe
import LiveSurface.Candidate.Consume
import LiveSurface.Lifetime.State

/-!
# Candidate extraction

{lit}`request_candidate` runs for every chunk of header bytes.  It finds the parser's
object, keeps the progress and the bytes of an attempt in two rows of
{lit}`candidate_store`, and feeds at most 512 bytes of the chunk to the recogniser.

Main results:

- Definition {lit}`requestCandidate`: the source's function.
- Theorem {lit}`Progress.ofBytes_bytes`: a progress is read as it was written.
-/

namespace LiveSurface
namespace Candidate

open Map Lifetime

/-! ## Rows -/

/-- The number of a mode. -/
def Mode.code : Mode → Nat
  | .first => 0
  | .name => 1
  | .space => 2
  | .value => 3
  | .valueLf => 4
  | .skip => 5
  | .skipLf => 6
  | .endLf => 7
  | .done => 8
  | .bad => 9

/-- The mode of a number. -/
def Mode.ofCode : Nat → Mode
  | 0 => .first
  | 1 => .name
  | 2 => .space
  | 3 => .value
  | 4 => .valueLf
  | 5 => .skip
  | 6 => .skipLf
  | 7 => .endLf
  | 8 => .done
  | _ => .bad

/-- The words of {lit}`struct progress`. -/
def Progress.words (s : Progress) : List (Nat × Nat) :=
  [(8, s.lifetime.toNat), (8, s.attempt.toNat), (4, s.total), (4, s.flags), (1, s.mode.code),
    (1, s.n), (1, s.matched), (1, s.seen), (4, s.path)]

/-- The bytes of a progress row. -/
def Progress.bytes (s : Progress) : List UInt8 := Layout.pack s.words

/-- The progress that a row holds. -/
def Progress.ofBytes (row : List UInt8) : Progress :=
  let w := Layout.unpack [8, 8, 4, 4, 1, 1, 1, 1, 4] row
  { lifetime := UInt64.ofNat (w.getD 0 0)
    attempt := UInt64.ofNat (w.getD 1 0)
    total := w.getD 2 0
    flags := w.getD 3 0
    mode := .ofCode (w.getD 4 0)
    n := w.getD 5 0
    matched := w.getD 6 0
    seen := w.getD 7 0
    path := w.getD 8 0 }

/-- Every field of a progress fits its word. -/
structure Progress.Fits (s : Progress) : Prop where
  total : s.total < 2 ^ 32
  flags : s.flags < 2 ^ 32
  n : s.n < 256
  matched : s.matched < 256
  seen : s.seen < 256
  path : s.path < 2 ^ 32

@[simp]
theorem Progress.length_bytes (s : Progress) : s.bytes.length = 32 := by
  simp [Progress.bytes, Progress.words]

/-- A progress is read as it was written. -/
theorem Progress.ofBytes_bytes {s : Progress} (h : s.Fits) : ofBytes s.bytes = s := by
  have hmode : s.mode.code < 256 := by
    cases s.mode <;> decide
  have hfits : Layout.Fits s.words := by
    simp only [Layout.Fits, Progress.words, List.forall_mem_cons]
    exact ⟨s.lifetime.toNat_lt, s.attempt.toNat_lt, h.total, h.flags, hmode, h.n, h.matched, h.seen,
      h.path, by simp⟩
  have hunpack := Layout.unpack_pack_of_fits hfits []
  rw [List.append_nil] at hunpack
  have hwords : Layout.unpack [8, 8, 4, 4, 1, 1, 1, 1, 4] s.bytes = s.words.map Prod.snd := hunpack
  have hcode : Mode.ofCode s.mode.code = s.mode := by
    cases s.mode <;> rfl
  simp only [Progress.ofBytes, hwords, Progress.words, List.map_cons, List.map_nil,
    List.getD_cons_zero, List.getD_cons_succ, UInt64.ofNat_toNat, hcode]

/-! ## The call -/

/-- One call of {lit}`request_candidate`. -/
structure CandidateCall where
  config : ProbeConfig
  address : UInt64
  chunk : UInt64
  length : UInt64
  mem : ProbeMemory
  emitted : Bool

/-- {lit}`struct event`. -/
structure CandidateEvent where
  run : UInt64
  sequence : UInt64
  lifetime : UInt64
  attempt : UInt64
  failures : UInt64
  flags : Nat
  path : Nat
  total : Nat
  nonce : List UInt8
deriving DecidableEq

/-- An event of zeros. -/
def CandidateEvent.zero : CandidateEvent where
  run := 0
  sequence := 0
  lifetime := 0
  attempt := 0
  failures := 0
  flags := 0
  path := 0
  total := 0
  nonce := noBytes

/-- The flag of a configuration that is not accepted. -/
def flagConfig : Nat := 2

/-- The flag of a parser whose birth was not seen. -/
def flagNoBirth : Nat := 4

/-- The flag of a byte that cannot be read. -/
def flagReadFailed : Nat := 16

/-- The flag of a map that refused. -/
def flagMapFailed : Nat := 32

/-- The flag of too many lifetimes or bytes. -/
def flagLimit : Nat := 256

/-- The flag of a counter that would overflow. -/
def flagOverflow : Nat := 1024

/-- The largest 64-bit word. -/
def maxWord : UInt64 := 0xffffffffffffffff

/-- The length of the chunk, as the program takes it. -/
def CandidateCall.bytes (call : CandidateCall) : Nat := call.length.toNat % 2 ^ 32

/-- The byte at a place of the chunk. -/
def CandidateCall.read (call : CandidateCall) (i : Nat) : Option UInt8 :=
  if call.chunk > maxWord - 512 then none
  else (probe call.mem (call.chunk.toNat + i) 1).bind fun bs => bs.head?

/-- The loop over the chunk, with the number of rounds that are left. -/
def extractLoop (call : CandidateCall) : Nat → Nat → State → State
  | 0, _, st => st
  | left + 1, i, st =>
      if st.1.Stopped ∨ i ≥ call.bytes then st
      else if st.1.total ≥ 512 then ({ st.1 with flags := flagLimit }, st.2)
      else
        match call.read i with
        | none => ({ st.1 with flags := flagReadFailed }, st.2)
        | some c =>
            extractLoop call left (i + 1) (consume { st.1 with total := st.1.total + 1 } st.2 c)

/-- The limit after the loop. -/
def Progress.limited (s : Progress) : Progress :=
  if s.total ≥ 512 ∧ s.mode ≠ .done ∧ s.flags = 0 then { s with flags := flagLimit } else s

/-- What the event says of a progress and its bytes. -/
def CandidateEvent.withState (e : CandidateEvent) (st : State) : CandidateEvent :=
  let e := { e with flags := st.1.flags, total := st.1.total }
  if st.1.mode = .done ∧ st.1.flags = flagComplete then
    { e with path := st.1.path, nonce := st.2 }
  else e

/-- The row of a lookup, made of the given bytes where it is not there. -/
def lookupOrPut (m : LsMap) (key row : List UInt8) : Option Nat × LsMap :=
  let (found, m) := lsMapLookup m key
  match found with
  | some off => (some off, m)
  | none =>
      let (stored, m) := lsMapUpdate m key row
      if stored then lsMapLookup m key else (none, m)

/-- The key of the progress row of a lifetime. -/
def stateKey (lifetime : UInt64) : UInt64 := lifetime * 2

/-- The key of the row of bytes of a lifetime. -/
def bytesKey (lifetime : UInt64) : UInt64 := lifetime * 2 + 1

/-- The progress at a pointer. -/
def progressAt (m : LsMap) (off : Nat) : Progress := .ofBytes (rowOf m off)

/-- The rows of an attempt: those that are there, or new ones. -/
def openRows (m : LsMap) (lifetime attempt : UInt64) : Option (Nat × Nat) × LsMap :=
  let (s, m) := lsMapLookup m (keyBytes (stateKey lifetime))
  let kept := s.filter fun off =>
    (progressAt m off).lifetime = lifetime ∧ (progressAt m off).attempt = attempt
  let (s, m) :=
    match kept with
    | some off => (some (some off), m)
    | none =>
        let (stored, m) := lsMapUpdate m (keyBytes (stateKey lifetime))
          (Progress.initial lifetime attempt).bytes
        if stored then
          let (cleared, m) := lsMapUpdate m (keyBytes (bytesKey lifetime)) noBytes
          if cleared then
            let (s, m) := lsMapLookup m (keyBytes (stateKey lifetime))
            (some s, m)
          else (none, m)
        else (none, m)
  match s with
  | none => (none, m)
  | some s =>
      let (b, m) := lsMapLookup m (keyBytes (bytesKey lifetime))
      match s, b with
      | some s, some b => (some (s, b), m)
      | _, _ => (none, m)

/-- The part of {lit}`request_candidate` that works on the rows of an attempt. -/
def extractRows (call : CandidateCall) (e : CandidateEvent) (lifetime attempt : UInt64)
    (m : LsMap) : CandidateEvent × LsMap :=
  let (rows, m) := openRows m lifetime attempt
  match rows with
  | none => ({ e with flags := flagMapFailed }, m)
  | some (s, b) =>
      let (progress, data) := extractLoop call 512 0 (progressAt m s, rowOf m b)
      let progress := progress.limited
      (e.withState (progress, data), setRow (setRow m s progress.bytes) b data)

/-- The object is that of a parser that lives and has not failed. -/
def LifeObject.Parsing (o : LifeObject) (run : UInt64) : Prop :=
  o.run = run ∧ o.state &&& 1 ≠ 0 ∧ o.state &&& 4 = 0

instance (o : LifeObject) (run : UInt64) : Decidable (LifeObject.Parsing o run) :=
  inferInstanceAs (Decidable (_ ∧ _))

/-- The part of {lit}`request_candidate` after the counters. -/
def extractObject (call : CandidateCall) (e : CandidateEvent) (run : UInt64)
    (maps : LifeMaps) : CandidateEvent × LifeMaps :=
  let (found, objects) := lsMapLookup maps.objects (keyBytes call.address)
  let maps := { maps with objects }
  match found with
  | none => ({ e with flags := flagNoBirth }, maps)
  | some off =>
      let o := objectAt objects off
      if call.address = 0 ∨ ¬LifeObject.Parsing o run then ({ e with flags := flagNoBirth }, maps)
      else
        let e := { e with lifetime := o.lifetime }
        if o.lifetime = 0 ∨ o.lifetime > 127 then ({ e with flags := flagLimit }, maps)
        else if o.state &&& 2 = 0 ∧ o.attempt = maxWord then
          ({ e with flags := flagOverflow }, maps)
        else
          let attempt := if o.state &&& 2 = 0 then o.attempt + 1 else o.attempt
          let (e, store) := extractRows call { e with attempt } o.lifetime attempt maps.store
          (e, { maps with store })

/-- The body of {lit}`request_candidate`: the event, the counters' pointer, and the maps. -/
def candidateBody (call : CandidateCall) (maps : LifeMaps) :
    CandidateEvent × Option Nat × LifeMaps :=
  match call.config.run with
  | none => ({ CandidateEvent.zero with flags := flagConfig }, none, maps)
  | some run =>
      let e := { CandidateEvent.zero with run }
      let (count, state) := lookupOrPut maps.state zeroKey
        (LifeState.bytes { run, calls := 0, births := 0, failures := 0 })
      let maps := { maps with state }
      match count with
      | none => ({ e with flags := flagMapFailed }, none, maps)
      | some off =>
          let counter := stateAt state off
          if counter.run ≠ run then ({ e with flags := flagConfig }, some off, maps)
          else
            let e := { e with failures := counter.failures }
            if counter.calls = maxWord then ({ e with flags := flagOverflow }, some off, maps)
            else
              let counter := { counter with calls := counter.calls + 1 }
              let maps := { maps with state := setRow state off counter.bytes }
              let (e, maps) := extractObject call { e with sequence := counter.calls } run maps
              (e, some off, maps)

/-- The count of an event that could not be emitted. -/
def countFailure (emitted : Bool) (count : Option Nat) (m : LsMap) : LsMap :=
  match count with
  | none => m
  | some off =>
      let counter := stateAt m off
      if emitted = false ∧ counter.failures ≠ maxWord then
        setRow m off { counter with failures := counter.failures + 1 }.bytes
      else m

/-- {lit}`request_candidate`. -/
def requestCandidate (call : CandidateCall) (maps : LifeMaps) : CandidateEvent × LifeMaps :=
  let (e, count, maps) := candidateBody call maps
  (e, { maps with state := countFailure call.emitted count maps.state })

end Candidate
end LiveSurface
