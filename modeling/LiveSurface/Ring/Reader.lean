import LiveSurface.Ring.Stream

/-!
# The durable reader

A separate process follows a stream ring and moves the cursor only after its
peer has acknowledged a frame.  It trusts nothing it reads: before each step it
checks the positions, the length word and the record header, and it exits when a
check fails.  The position that failed stays in shared memory, so the next
reader fails too.

The reader accepts everything its own producer writes, as long as the producer
pads only where the pad fits.

Main results:

- Theorem {lit}`Followed.step`: every step of producer and reader keeps the
  invariant, if pads fit.
- Theorem {lit}`reader_accepts_producer`: no check of the reader ever fails.
- Theorem {lit}`reader_rejects_overfull_pad`: after a pad that does not fit, the
  reader exits.
-/

namespace LiveSurface
namespace Ring

/-! ## The reader's checks -/

/-- Why the reader exits. -/
inductive StreamFailure
  | invalidRingPositions
  | invalidRecordLength
  | recordOutsideCommittedRange
  | unsupportedRecordSize
  | lengthMismatch
  | missingAck
  | cursorMoved
deriving DecidableEq

/-- The message of each exit. -/
def StreamFailure.message : StreamFailure → String
  | .invalidRingPositions => "invalid ring positions"
  | .invalidRecordLength => "invalid record length"
  | .recordOutsideCommittedRange => "record outside committed range"
  | .unsupportedRecordSize => "unsupported record size"
  | .lengthMismatch => "record/payload length mismatch"
  | .missingAck => "missing or invalid ACK; cursor retained"
  | .cursorMoved => "another consumer moved the cursor"

/-- Bytes of payload the reader has room for. -/
def payloadMax : Nat := 512

/-- The check of the two positions. -/
def checkPositions (ds cons prod : Nat) : Option StreamFailure :=
  if cons > prod ∨ sub64 prod cons > ds ∨ (cons ||| prod) &&& (lsRingAlign - 1) ≠ 0 then
    some .invalidRingPositions
  else none

/-- The checks of a length word that is not busy. -/
def checkHeader (ds off hdr cons prod : Nat) : Option StreamFailure :=
  let body := hdr &&& lsRingLenMask
  let step := lsRingRound (lsRingHdrSz + body)
  if body > ds - lsRingHdrSz then some .invalidRecordLength
  else if step > ds - off ∨ step > sub64 prod cons then some .recordOutsideCommittedRange
  else if hdr &&& lsRingDiscard ≠ 0 then none
  else if body < lsRecSize ∨ body - lsRecSize > payloadMax then some .unsupportedRecordSize
  else none

/-- The check of the record header against the length word. -/
def checkLength (header : LsRec) (body : Nat) : Option StreamFailure :=
  if header.len.toNat ≠ body - lsRecSize then some .lengthMismatch else none

/-! ## The reader -/

/-- Where the reader is in its loop over one ring. -/
inductive ReaderPc
  | idle
  | loadProducer (cons : Nat)
  | loadHeader (cons prod : Nat)
  | copyRecord (cons step off body : Nat) (taken : List UInt8)
  | copyPayload (cons step off len : Nat) (taken : List UInt8)
  | acknowledge (cons step : Nat)
  | recheck (cons step : Nat)
  | storeConsumer (cons step : Nat)
  | failed (reason : StreamFailure)
deriving DecidableEq

/-- A ring with its producer and its reader. -/
structure DrainState where
  core : Core
  reader : ReaderPc

/-- What the reader does with the length word it loaded. -/
def afterWord (ds cons prod hdr : Nat) : ReaderPc :=
  let off := u32 (cons &&& (ds - 1))
  let body := hdr &&& lsRingLenMask
  let step := lsRingRound (lsRingHdrSz + body)
  if hdr &&& lsRingBusy ≠ 0 then .idle
  else match checkHeader ds off hdr cons prod with
    | some reason => .failed reason
    | none =>
        if hdr &&& lsRingDiscard ≠ 0 then .acknowledge cons step
        else .copyRecord cons step off body []

/-- The next step of the reader, apart from the acknowledgement. -/
def readerStep (s : DrainState) : Option DrainState :=
  let r := s.core.ring
  match s.reader with
  | .idle => some { s with reader := .loadProducer r.consumerPos }
  | .loadProducer cons =>
      match checkPositions r.dataSize cons r.producerPos with
      | some reason => some { s with reader := .failed reason }
      | none =>
          if cons = r.producerPos then some { s with reader := .idle }
          else some { s with reader := .loadHeader cons r.producerPos }
  | .loadHeader cons prod =>
      let off := u32 (cons &&& (r.dataSize - 1))
      some { s with reader := afterWord r.dataSize cons prod (headerAt r.data off) }
  | .copyRecord cons step off body taken =>
      if taken.length < lsRecSize then
        some { s with
          reader := .copyRecord cons step off body
            (taken ++ [r.data (off + lsRingHdrSz + taken.length)]) }
      else
        match checkLength (.ofBytes taken) body with
        | some reason => some { s with reader := .failed reason }
        | none =>
            some { s with
              reader := .copyPayload cons step off (LsRec.ofBytes taken).len.toNat [] }
  | .copyPayload cons step off len taken =>
      if taken.length < len then
        some { s with
          reader := .copyPayload cons step off len
            (taken ++ [r.data (off + lsRingHdrSz + lsRecSize + taken.length)]) }
      else some { s with reader := .acknowledge cons step }
  | .acknowledge _ _ => none
  | .recheck cons step =>
      if r.consumerPos ≠ cons then some { s with reader := .failed .cursorMoved }
      else some { s with reader := .storeConsumer cons step }
  | .storeConsumer cons step =>
      some { s with core := s.core.setCursor (u64 (cons + step)), reader := .idle }
  | .failed _ => none

/-- Which side moves.  The peer acknowledges a frame or does not, and a new
reader may take the place of the old one at any time. -/
inductive DrainAct
  | emit (e : Emission)
  | producer
  | reader
  | ack (good : Bool)
  | restart

/-- Records the stream carries: a payload of at most 512 bytes, described by the
record header. -/
def Described (e : Emission) : Prop :=
  e.len ≤ payloadMax ∧ e.header.len.toNat = e.len

instance (e : Emission) : Decidable (Described e) :=
  inferInstanceAs (Decidable (_ ∧ _))

/-- All interleavings of the producer with the reader. -/
def drainMachine (ds : Nat) : Machine DrainState DrainAct where
  init s := ∃ data, s = {
    core := { ring := lsRingInit ds .stream data, producer := .idle, accepted := [] }
    reader := .idle }
  next s a :=
    match a with
    | .emit e =>
        if Fits ds e ∧ Described e then (startEmit s.core e).map fun c => { s with core := c }
        else none
    | .producer => (producerStep s.core).map fun c => { s with core := c }
    | .reader => readerStep s
    | .ack good =>
        match s.reader with
        | .acknowledge cons step =>
            some { s with reader := if good then .recheck cons step else .failed .missingAck }
        | _ => none
    | .restart => some { s with reader := .idle }

/-- A pad goes in only where it fits, and the producer's position word does not
wrap. -/
def PadFits (r : LsRing) : ProducerPc → Prop
  | .pad _ _ off _ => sub64 r.producerPos r.consumerPos + (r.dataSize - off) ≤ r.dataSize ∧
      r.producerPos + (r.dataSize - off) < 2 ^ 64
  | .storePad _ _ off => sub64 r.producerPos r.consumerPos + (r.dataSize - off) ≤ r.dataSize ∧
      r.producerPos + (r.dataSize - off) < 2 ^ 64
  | .publish e _ => r.producerPos + e.need < 2 ^ 64
  | _ => True

instance (r : LsRing) : (pc : ProducerPc) → Decidable (PadFits r pc)
  | .pad _ _ _ _ => inferInstanceAs (Decidable (_ ∧ _))
  | .storePad _ _ _ => inferInstanceAs (Decidable (_ ∧ _))
  | .publish _ _ => inferInstanceAs (Decidable (_ < _))
  | .idle => isTrue trivial
  | .loadProducer _ => isTrue trivial
  | .loadConsumer _ _ _ => isTrue trivial
  | .addDrops _ => isTrue trivial
  | .addDropBytes _ => isTrue trivial
  | .write _ _ _ _ => isTrue trivial

/-- The condition on a step of the whole system. -/
def DrainOk (s : DrainState) : DrainAct → Prop
  | .producer => PadFits s.core.ring s.core.producer
  | _ => True

instance (s : DrainState) : (a : DrainAct) → Decidable (DrainOk s a)
  | .producer => inferInstanceAs (Decidable (PadFits _ _))
  | .emit _ => isTrue trivial
  | .reader => isTrue trivial
  | .ack _ => isTrue trivial
  | .restart => isTrue trivial

/-! ## Described records -/

/-- The record an emission in progress is about. -/
def ProducerPc.emission : ProducerPc → Option Emission
  | .idle => none
  | .loadProducer e => some e
  | .pad e _ _ _ => some e
  | .storePad e _ _ => some e
  | .loadConsumer e _ _ => some e
  | .addDrops e => some e
  | .addDropBytes e => some e
  | .write e _ _ _ => some e
  | .publish e _ => some e

/-- Everything accepted, and everything in progress, is described. -/
structure AllDescribed (c : Core) : Prop where
  accepted : ∀ e ∈ c.accepted, Described e
  current : ∀ e, c.producer.emission = some e → Described e

theorem AllDescribed.startEmit {c c' : Core} {e : Emission} (h : AllDescribed c)
    (he : Described e) (hstep : startEmit c e = some c') : AllDescribed c' := by
  unfold Ring.startEmit at hstep
  split at hstep
  · split at hstep
    · cases hstep
      exact h
    · cases hstep
      refine ⟨h.accepted, ?_⟩
      intro e' he'
      cases he'
      exact he
  · contradiction

theorem AllDescribed.producerStep {c c' : Core} (h : AllDescribed c)
    (hstep : producerStep c = some c') : AllDescribed c' := by
  have hcurrent := h.current
  unfold Ring.producerStep at hstep
  dsimp only at hstep
  split at hstep
  · contradiction
  · rename_i e hpc
    rw [hpc] at hcurrent
    cases hstep
    refine ⟨h.accepted, ?_⟩
    intro e' he'
    apply hcurrent
    rw [← he']
    simp only [Ring.afterLoad, checkOrWrite]
    split_ifs
    · rfl
    · split <;> rfl
  · rename_i hpc
    rw [hpc] at hcurrent
    cases hstep
    exact ⟨h.accepted, hcurrent⟩
  · rename_i hpc
    rw [hpc] at hcurrent
    cases hstep
    exact ⟨h.accepted, hcurrent⟩
  · rename_i hpc
    rw [hpc] at hcurrent
    cases hstep
    refine ⟨h.accepted, ?_⟩
    intro e' he'
    apply hcurrent
    rw [← he']
    simp only [checkOrWrite]
    split <;> rfl
  · rename_i hpc
    rw [hpc] at hcurrent
    split at hstep
    · cases hstep
      exact ⟨h.accepted, hcurrent⟩
    · cases hstep
      exact ⟨h.accepted, hcurrent⟩
  · rename_i hpc
    rw [hpc] at hcurrent
    cases hstep
    exact ⟨h.accepted, hcurrent⟩
  · cases hstep
    refine ⟨h.accepted, ?_⟩
    intro e' he'
    contradiction
  · rename_i hpc
    rw [hpc] at hcurrent
    cases hstep
    exact ⟨h.accepted, hcurrent⟩
  · rename_i hpc
    rw [hpc] at hcurrent
    cases hstep
    exact ⟨h.accepted, hcurrent⟩
  · rename_i e prod hpc
    rw [hpc] at hcurrent
    cases hstep
    refine ⟨?_, ?_⟩
    · intro e' he'
      rcases List.mem_append.mp he' with hold | hnew
      · exact h.accepted e' hold
      · exact hcurrent e' (by simpa [ProducerPc.emission, eq_comm] using hnew)
    · intro e' he'
      contradiction

/-! ## The invariant -/

/-- The first tile is the one the reader is working on. -/
def AtFirst (C : Nat) (tiles : List Tile) (cons step : Nat) : Prop :=
  cons = C ∧ ∃ t rest, tiles = t :: rest ∧ step = t.size

/-- What the reader knows at each of its program points. -/
def ReaderOk (ds C : Nat) (tiles : List Tile) : ReaderPc → Prop
  | .idle => True
  | .loadProducer cons => cons = C
  | .loadHeader cons prod => cons = C ∧
      ∃ t rest, tiles = t :: rest ∧ t.size ≤ sub64 prod cons
  | .copyRecord cons step off body taken => cons = C ∧ off = C % ds ∧
      ∃ e rest, tiles = .record e :: rest ∧ step = e.need ∧ body = e.body ∧
        e.header.len.toNat = e.len ∧ taken <+: e.header.bytes
  | .copyPayload cons step _ _ _ => AtFirst C tiles cons step
  | .acknowledge cons step => AtFirst C tiles cons step
  | .recheck cons step => AtFirst C tiles cons step
  | .storeConsumer cons step => AtFirst C tiles cons step
  | .failed reason => reason = .missingAck

/-- The invariant of producer and reader: the ring is tiled, the positions are
within one data size and have not wrapped, and every tiled record is described. -/
structure Followed (ds : Nat) (s : DrainState) (C P : Nat) (tiles : List Tile) : Prop where
  laid : Laid ds s.core C P tiles
  within : P ≤ C + ds
  unwrapped : P < 2 ^ 64
  sub : ∀ e ∈ records tiles, e ∈ s.core.accepted
  described : AllDescribed s.core
  reader : ReaderOk ds C tiles s.reader

theorem AtFirst.append {C cons step : Nat} {tiles new : List Tile}
    (h : AtFirst C tiles cons step) : AtFirst C (tiles ++ new) cons step := by
  rcases h with ⟨hcons, t, rest, rfl, hstep⟩
  exact ⟨hcons, t, rest ++ new, rfl, hstep⟩

/-- New tiles behind the first do not concern the reader. -/
theorem ReaderOk.append {ds C : Nat} {tiles new : List Tile} {pc : ReaderPc}
    (h : ReaderOk ds C tiles pc) : ReaderOk ds C (tiles ++ new) pc := by
  cases pc with
  | idle => trivial
  | loadProducer cons => exact h
  | loadHeader cons prod =>
      rcases h with ⟨hcons, t, rest, rfl, hsize⟩
      exact ⟨hcons, t, rest ++ new, rfl, hsize⟩
  | copyRecord cons step off body taken =>
      rcases h with ⟨hcons, hoff, e, rest, rfl, hrest⟩
      exact ⟨hcons, hoff, e, rest ++ new, rfl, hrest⟩
  | copyPayload cons step off len taken => exact AtFirst.append h
  | acknowledge cons step => exact AtFirst.append h
  | recheck cons step => exact AtFirst.append h
  | storeConsumer cons step => exact AtFirst.append h
  | failed reason => exact h

section Steps

variable {ds C P : Nat} {s s' : DrainState} {tiles : List Tile}

/-- The two position words are the positions themselves. -/
theorem Followed.words (h : Followed ds s C P tiles) :
    s.core.ring.consumerPos = C ∧ s.core.ring.producerPos = P := by
  have hle := h.laid.tiled.le
  have hlt := h.unwrapped
  rw [h.laid.cons, h.laid.prod]
  exact ⟨Nat.mod_eq_of_lt (by omega), Nat.mod_eq_of_lt hlt⟩

/-- The check of the positions passes. -/
theorem Followed.positions (h : Followed ds s C P tiles) : checkPositions ds C P = none := by
  have hle := h.laid.tiled.le
  have hwithin := h.within
  have hlt := h.unwrapped
  have hC := h.laid.aligned
  have hP := h.laid.tiled.dvd hC
  have hdist : sub64 P C = P - C := by
    rw [sub64]
    omega
  have halign : (C ||| P) &&& (lsRingAlign - 1) = 0 := by
    have hmask : lsRingAlign - 1 = 2 ^ 3 - 1 := rfl
    rw [hmask, and_mask, Nat.or_mod_two_pow, Nat.mod_eq_zero_of_dvd hC,
      Nat.mod_eq_zero_of_dvd hP]
    rfl
  unfold checkPositions
  rw [if_neg]
  rw [hdist, halign]
  omega

/-- The header of the first tile passes the checks, is never busy, and sends the
reader on to the tile it describes. -/
theorem Followed.header (h : Followed ds s C P tiles) (hds : RingSize ds) {t : Tile}
    {rest : List Tile} {prod : Nat} (htiles : tiles = t :: rest)
    (hsize : t.size ≤ sub64 prod C) :
    headerAt s.core.ring.data (C % ds) &&& lsRingBusy = 0 ∧
    checkHeader ds (C % ds) (headerAt s.core.ring.data (C % ds)) C prod = none ∧
    ReaderOk ds C tiles
      (afterWord ds C prod (headerAt s.core.ring.data (C % ds))) := by
  have htiled := h.laid.tiled
  have hle := htiled.le
  have hlt := h.unwrapped
  have hbound := hds.bounds
  have hmod : C % ds < ds := Nat.mod_lt _ (by omega)
  have hoff : u32 (C &&& (ds - 1)) = C % ds := by
    have hword := hds.offset C
    rwa [Nat.mod_eq_of_lt (by omega)] at hword
  subst htiles
  cases t with
  | record e =>
      have hdescribed : Described e :=
        h.described.accepted e (h.sub e (by simp [records]))
      have ht := htiled.1
      rcases ht with ⟨hfit, hlen, hdvd, hbody, _⟩
      rcases flags_of_length hbody with ⟨hbusy, hdiscard, hmask⟩
      have hstep : lsRingRound (lsRingHdrSz + e.body) = e.need := by
        rw [Emission.need, Emission.body, Nat.add_assoc]
      have hmax := hdescribed.1
      simp only [payloadMax] at hmax
      have hcheck : checkHeader ds (C % ds) e.body C prod = none := by
        simp only [Tile.size] at hsize
        have hlength : e.body = 32 + e.len := rfl
        have hword : ¬e.body > ds - lsRingHdrSz := by
          rw [lsRingHdrSz]
          omega
        have hrange : ¬(e.need > ds - C % ds ∨ e.need > sub64 prod C) := by omega
        have hroom : ¬(e.body < lsRecSize ∨ e.body - lsRecSize > payloadMax) := by
          rw [lsRecSize, payloadMax]
          omega
        simp only [checkHeader, hmask, hstep, hdiscard, if_neg hword, if_neg hrange,
          if_neg hroom, ne_eq, not_true_eq_false, if_false]
      rw [htiled.1.header_record]
      refine ⟨hbusy, hcheck, ?_⟩
      simp only [afterWord, hoff, hbusy, hcheck, hdiscard, hmask, hstep, ne_eq,
        not_true_eq_false, if_false]
      exact ⟨rfl, rfl, e, rest, rfl, rfl, rfl, hdescribed.2, List.nil_prefix⟩
  | pad n =>
      have ht := htiled.1
      rcases ht with ⟨hfit, hlen, hdvd, hflag, _⟩
      rcases flags_of_discard hflag with ⟨_, hbusy, hdiscard, hmask⟩
      have hstep : lsRingRound (lsRingHdrSz + (n - 8)) = n := by
        rw [lsRingHdrSz, lsRingRound_eq (by omega)]
        omega
      have hcheck : checkHeader ds (C % ds) ((n - 8) ||| lsRingDiscard) C prod = none := by
        simp only [Tile.size] at hsize
        have hword : ¬n - 8 > ds - lsRingHdrSz := by
          rw [lsRingHdrSz]
          omega
        have hrange : ¬(n > ds - C % ds ∨ n > sub64 prod C) := by omega
        simp only [checkHeader, hmask, hstep, if_neg hword, if_neg hrange, if_pos hdiscard]
      rw [htiled.1.header_pad]
      refine ⟨hbusy, hcheck, ?_⟩
      simp only [afterWord, hbusy, hoff, hcheck, hmask, hstep, ne_eq, not_true_eq_false,
        if_false, if_pos hdiscard]
      exact ⟨rfl, _, rest, rfl, rfl⟩

/-- The bytes of the first record's header are read back. -/
theorem Followed.recordByte (h : Followed ds s C P tiles) {e : Emission}
    {rest : List Tile} (htiles : tiles = .record e :: rest) {i : Nat} (hi : i < 32) :
    e.header.bytes[i]? = some (s.core.ring.data (C % ds + 8 + i)) := by
  subst htiles
  have hbyte := h.laid.tiled.1.byte_record (show i < 32 + e.len by omega)
  rwa [List.getElem?_append_left (by simpa using hi)] at hbyte

/-- Changing only the reader's program point. -/
theorem Followed.setReader (h : Followed ds s C P tiles) {pc : ReaderPc}
    (hpc : ReaderOk ds C tiles pc) : Followed ds { s with reader := pc } C P tiles :=
  ⟨h.laid, h.within, h.unwrapped, h.sub, h.described, hpc⟩

/-- The reader moves the cursor over the first tile. -/
theorem Followed.advance {cons step : Nat} (h : Followed ds s C P tiles)
    (hfirst : AtFirst C tiles cons step) :
    ∃ C' tiles', Followed ds
      { core := s.core.setCursor (u64 (cons + step)), reader := .idle } C' P tiles' := by
  rcases hfirst with ⟨hcons, t, rest, rfl, hsize⟩
  have hwithin := h.within
  have hle := h.laid.tiled.le
  have hlt := h.unwrapped
  have hlaid := h.laid.advance
  rw [Nat.mod_eq_of_lt (show C < 2 ^ 64 by omega)] at hlaid
  refine ⟨C + t.size, rest, ?_, by omega, hlt, ?_, ?_, trivial⟩
  · rw [hcons, hsize]
    exact hlaid
  · intro e he
    apply h.sub
    cases t with
    | record e' => exact List.mem_cons_of_mem _ he
    | pad n => exact he
  · exact ⟨h.described.accepted, h.described.current⟩

/-- Each step of the reader keeps the invariant. -/
theorem Followed.readerStep (h : Followed ds s C P tiles) (hds : RingSize ds)
    (hstep : readerStep s = some s') : ∃ C' tiles', Followed ds s' C' P tiles' := by
  have hreader := h.reader
  have hwords := h.words
  unfold Ring.readerStep at hstep
  dsimp only at hstep
  split at hstep
  · cases hstep
    exact ⟨C, tiles, h.setReader hwords.1⟩
  · rename_i cons hpc
    rw [hpc] at hreader
    have hcons : cons = C := hreader
    rw [h.laid.dataSize, hcons, hwords.2, h.positions] at hstep
    dsimp only at hstep
    split at hstep
    · cases hstep
      exact ⟨C, tiles, h.setReader trivial⟩
    · rename_i hne
      cases hstep
      refine ⟨C, tiles, h.setReader ⟨rfl, ?_⟩⟩
      have hle := h.laid.tiled.le
      have hlt := h.unwrapped
      cases htiles : tiles with
      | nil =>
          have htiled := h.laid.tiled
          rw [htiles] at htiled
          exact absurd htiled hne
      | cons t rest =>
          have htiled := h.laid.tiled
          rw [htiles] at htiled
          have hnext := htiled.2.le
          refine ⟨t, rest, rfl, ?_⟩
          rw [sub64]
          omega
  · rename_i cons prod hpc
    rw [hpc] at hreader
    rcases hreader with ⟨hcons, t, rest, htiles, hsize⟩
    rw [hcons] at hsize hstep
    have hoff : u32 (C &&& (ds - 1)) = C % ds := by
      have hword := hds.offset C
      have hle := h.laid.tiled.le
      have hlt := h.unwrapped
      rwa [Nat.mod_eq_of_lt (by omega)] at hword
    rw [h.laid.dataSize, hoff] at hstep
    cases hstep
    exact ⟨C, tiles, h.setReader (h.header hds htiles hsize).2.2⟩
  · rename_i cons step off body taken hpc
    rw [hpc] at hreader
    rcases hreader with ⟨hcons, hoff, e, rest, htiles, hneed, hbody, hlen, hprefix⟩
    split at hstep
    · rename_i hmore
      cases hstep
      refine ⟨C, tiles, h.setReader
        ⟨hcons, hoff, e, rest, htiles, hneed, hbody, hlen, ?_⟩⟩
      apply prefix_snoc hprefix
      rw [hoff, lsRingHdrSz]
      exact h.recordByte htiles hmore
    · rename_i hdone
      have htaken : taken = e.header.bytes := by
        apply hprefix.eq_of_length_le
        simp only [LsRec.length_bytes]
        simp only [lsRecSize] at hdone
        omega
      have hcheck : checkLength (LsRec.ofBytes taken) body = none := by
        rw [htaken, LsRec.ofBytes_bytes, hbody, checkLength, if_neg]
        simp only [Emission.body]
        omega
      rw [hcheck] at hstep
      cases hstep
      exact ⟨C, tiles, h.setReader ⟨hcons, _, rest, htiles, hneed⟩⟩
  · rename_i cons step off len taken hpc
    rw [hpc] at hreader
    split at hstep
    · cases hstep
      exact ⟨C, tiles, h.setReader hreader⟩
    · cases hstep
      exact ⟨C, tiles, h.setReader hreader⟩
  · contradiction
  · rename_i cons step hpc
    rw [hpc] at hreader
    have hcons : cons = C := hreader.1
    rw [hcons, hwords.1, if_neg (by simp)] at hstep
    cases hstep
    exact ⟨C, tiles, h.setReader ⟨rfl, hreader.2⟩⟩
  · rename_i cons step hpc
    rw [hpc] at hreader
    cases hstep
    exact h.advance hreader
  · contradiction

/-- A pad that fits is a safe pad, and a described record is short. -/
theorem Followed.emitOk (h : Followed ds s C P tiles) (hds : RingSize ds)
    (hok : PadFits s.core.ring s.core.producer) : EmitOk s.core.ring s.core.producer := by
  have hproducer := h.laid.producer
  have hcurrent := h.described.current
  have hbound := hds.bounds
  cases hpc : s.core.producer with
  | pad e prod off stores =>
      rw [hpc] at hproducer hok hcurrent
      rcases hproducer with ⟨hfits, _, hoff, hover, _, _⟩
      have hmod : P % ds < ds := Nat.mod_lt _ (by omega)
      have hneed := hfits.need_eq hds
      have hlen := (hcurrent e rfl).1
      simp only [payloadMax] at hlen
      have hsum := hok.1
      rw [h.laid.dataSize] at hsum
      refine ⟨.inl ?_, ?_⟩
      · rw [h.laid.dataSize]
        omega
      · rw [h.laid.dataSize]
        omega
  | write e prod off stores =>
      rw [hpc] at hcurrent
      have hlen := (hcurrent e rfl).1
      simp only [payloadMax] at hlen
      simp only [EmitOk, Emission.body, lsRecSize]
      omega
  | idle => trivial
  | loadProducer e => trivial
  | storePad e prod off => trivial
  | loadConsumer e prod off => trivial
  | addDrops e => trivial
  | addDropBytes e => trivial
  | publish e prod => trivial

/-- A step of the producer keeps the positions within one data size, and unwrapped. -/
theorem Followed.producerStep (h : Followed ds s C P tiles) (hds : RingSize ds)
    (hok : PadFits s.core.ring s.core.producer) {c : Core}
    (hstep : producerStep s.core = some c) :
    ∃ P' tiles', Followed ds { s with core := c } C P' tiles' := by
  rcases h.laid.producerStep hds (h.emitOk hds hok) hstep with
    ⟨P', new, hlaid, hacc, hcommit⟩
  have hwords := h.words
  have hle := h.laid.tiled.le
  have hlt := h.unwrapped
  have hnext : P' ≤ C + ds ∧ P' < 2 ^ 64 := by
    generalize hpc : s.core.producer = pc at hcommit hok
    cases hcommit with
    | nothing => exact ⟨h.within, hlt⟩
    | pad =>
        rcases hok with ⟨hfit, hwrap⟩
        rw [hwords.1, hwords.2, h.laid.dataSize, sub64] at hfit
        rw [hwords.2, h.laid.dataSize] at hwrap
        omega
    | record hprod hroom =>
        have hwrap : s.core.ring.producerPos + _ < 2 ^ 64 := hok
        rw [hwords.2] at hwrap
        exact ⟨hroom, hwrap⟩
  refine ⟨P', tiles ++ new, hlaid, hnext.1, hnext.2, ?_, h.described.producerStep hstep,
    h.reader.append⟩
  intro e he
  rw [records_append] at he
  rw [hacc]
  rcases List.mem_append.mp he with hold | hnew
  · exact List.mem_append_left _ (h.sub e hold)
  · exact List.mem_append_right _ hnew

/-- Every step of the system keeps the invariant, if pads fit. -/
theorem Followed.step (h : Followed ds s C P tiles) (hds : RingSize ds) {a : DrainAct}
    (hok : DrainOk s a) (hstep : (drainMachine ds).next s a = some s') :
    ∃ C' P' tiles', Followed ds s' C' P' tiles' := by
  cases a with
  | emit e =>
      simp only [drainMachine] at hstep
      split at hstep
      · rename_i hguard
        rcases Option.map_eq_some_iff.mp hstep with ⟨c, hc, rfl⟩
        rcases h.laid.startEmit hguard.1 hc with ⟨hlaid, hacc⟩
        refine ⟨C, P, tiles, hlaid, h.within, h.unwrapped, ?_,
          h.described.startEmit hguard.2 hc, h.reader⟩
        intro e' he'
        rw [hacc]
        exact h.sub e' he'
      · contradiction
  | producer =>
      rcases Option.map_eq_some_iff.mp hstep with ⟨c, hc, rfl⟩
      rcases h.producerStep hds hok hc with ⟨P', tiles', hfollowed⟩
      exact ⟨C, P', tiles', hfollowed⟩
  | reader =>
      rcases h.readerStep hds hstep with ⟨C', tiles', hfollowed⟩
      exact ⟨C', P, tiles', hfollowed⟩
  | ack good =>
      simp only [drainMachine] at hstep
      split at hstep
      · rename_i cons step hpc
        have hreader := h.reader
        rw [hpc] at hreader
        cases hstep
        refine ⟨C, P, tiles, h.setReader ?_⟩
        cases good with
        | true => exact hreader
        | false => rfl
      · contradiction
  | restart =>
      cases hstep
      exact ⟨C, P, tiles, h.setReader trivial⟩

end Steps

/-- The invariant holds in every run whose pads fit. -/
theorem followed_of_reachable {ds : Nat} (hds : RingSize ds) :
    ∀ s, (drainMachine ds).ReachableWhen DrainOk s →
      ∃ C P tiles, Followed ds s C P tiles := by
  apply Machine.ReachableWhen.invariant
  · rintro s ⟨data, rfl⟩
    refine ⟨0, 0, [], laid_init hds data [], by omega, by omega, ?_, ⟨?_, ?_⟩, trivial⟩
    · intro e he
      contradiction
    · intro e he
      contradiction
    · intro e he
      contradiction
  · intro s a s' _ h hok hstep
    rcases h with ⟨C, P, tiles, hfollowed⟩
    exact hfollowed.step hds hok hstep

/-- In every interleaving of the producer with the reader in which pads fit and
the position does not wrap: the reader has exited only for want of an
acknowledgement, and in the state as it stands every check it makes passes. -/
theorem reader_accepts_producer (ds : Nat) (hds : RingSize ds) (s : DrainState)
    (hs : (drainMachine ds).ReachableWhen DrainOk s) :
    (∀ reason, s.reader = .failed reason → reason = .missingAck) ∧
    checkPositions ds s.core.ring.consumerPos s.core.ring.producerPos = none ∧
    (s.core.ring.consumerPos ≠ s.core.ring.producerPos →
      let off := u32 (s.core.ring.consumerPos &&& (ds - 1))
      let hdr := headerAt s.core.ring.data off
      checkHeader ds off hdr s.core.ring.consumerPos s.core.ring.producerPos = none ∧
      (hdr &&& lsRingDiscard = 0 →
        checkLength (.ofBytes (s.core.ring.data.load (off + lsRingHdrSz) lsRecSize))
          (hdr &&& lsRingLenMask) = none)) := by
  rcases followed_of_reachable hds s hs with ⟨C, P, tiles, h⟩
  have hwords := h.words
  have hle := h.laid.tiled.le
  have hlt := h.unwrapped
  rw [hwords.1, hwords.2]
  refine ⟨?_, h.positions, ?_⟩
  · intro reason hfailed
    have hreader := h.reader
    rw [hfailed] at hreader
    exact hreader
  · intro hne
    have hoff : u32 (C &&& (ds - 1)) = C % ds := by
      have hword := hds.offset C
      rwa [Nat.mod_eq_of_lt (by omega)] at hword
    simp only [hoff]
    have htiled := h.laid.tiled
    cases htiles : tiles with
    | nil =>
        rw [htiles] at htiled
        exact absurd htiled hne
    | cons t rest =>
        rw [htiles] at htiled
        have hnext := htiled.2.le
        have hsize : t.size ≤ sub64 P C := by
          rw [sub64]
          omega
        refine ⟨(h.header hds htiles hsize).2.1, ?_⟩
        intro hdiscard
        cases t with
        | pad n =>
            rw [htiled.1.header_pad] at hdiscard
            exact absurd hdiscard (flags_of_discard htiled.1.2.2.2.1).2.2.1
        | record e =>
            have hdescribed : Described e := by
              apply h.described.accepted
              apply h.sub
              simp [htiles, records]
            have hbody := htiled.1.2.2.2.1
            rw [htiled.1.header_record, (flags_of_length hbody).2.2, lsRingHdrSz, lsRecSize,
              htiled.1.load_header, LsRec.ofBytes_bytes, checkLength, if_neg]
            rw [hdescribed.2, Emission.body]
            omega

/-! ## Two runs -/

/-- A ring of 128 bytes and its reader, before their first step. -/
def freshDrain : DrainState where
  core := freshRing.core
  reader := .idle

/-- An emission of {lit}`n` producer steps. -/
def emitSteps (e : Emission) (n : Nat) : List DrainAct :=
  .emit e :: List.replicate n .producer

/-- The reader takes one record of {lit}`n` payload bytes and gets its
acknowledgement. -/
def readAcknowledged (n : Nat) : List DrainAct :=
  List.replicate (37 + n) .reader ++ [.ack true, .reader, .reader]

/-- The ring wraps where the pad fits. -/
def fittingRun : List DrainAct :=
  emitSteps (sampleRecord 0 0) 42 ++ readAcknowledged 0 ++ emitSteps (sampleRecord 1 0) 42 ++
    emitSteps (sampleRecord 2 0) 42 ++ emitSteps (sampleRecord 3 0) 52 ++ readAcknowledged 0

/-- The state after {lit}`fittingRun`. -/
def fitted : DrainState :=
  ((drainMachine 128).runWhen DrainOk freshDrain fittingRun).getD freshDrain

/-- Two records were taken and the positions still pass. -/
theorem reader_accepts_producer_fittingRun :
    fitted.core.ring.consumerPos = 80 ∧ fitted.core.ring.producerPos = 168 ∧
    checkPositions 128 fitted.core.ring.consumerPos fitted.core.ring.producerPos = none :=
  ⟨by decide +kernel, by decide +kernel,
    (reader_accepts_producer 128 ⟨7, by decide, by decide, rfl⟩ fitted
      (Machine.reachableWhen_run_getD (.start ⟨fun _ => 0, rfl⟩) (by decide +kernel))).2.1⟩

/-- One record is read; two more fill the ring; a fourth, which does not fit
before the end, is padded for and dropped.  Then the reader looks again. -/
def overfullRun : List DrainAct :=
  emitSteps (sampleRecord 0 0) 42 ++ readAcknowledged 0 ++ emitSteps (sampleRecord 1 48) 90 ++
    emitSteps (sampleRecord 2 0) 42 ++ emitSteps (sampleRecord 3 56) 14 ++ [.reader, .reader]

/-- The state after {lit}`overfullRun`. -/
def overfull : DrainState :=
  ((drainMachine 128).run freshDrain overfullRun).getD freshDrain

/-- The pad put the producer 216 bytes ahead in a ring of 128, and the reader
exits on the positions of its own producer. -/
theorem reader_rejects_overfull_pad :
    (drainMachine 128).Reachable overfull ∧
    overfull.core.ring.consumerPos = 40 ∧ overfull.core.ring.producerPos = 256 ∧
    overfull.reader = .failed .invalidRingPositions :=
  ⟨Machine.reachable_run_getD (.start ⟨fun _ => 0, rfl⟩) (by decide +kernel),
    by decide +kernel, by decide +kernel, by decide +kernel⟩

end Ring
end LiveSurface
