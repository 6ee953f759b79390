import LiveSurface.Ring.Producer

/-!
# The stream is a queue

One producer and one consumer share a stream ring.  As long as the producer does
not store a pad header over an unconsumed record, what the consumer returns is a
prefix of what the producer was told had landed, record by record and byte for
byte, and what lies between the two positions is the rest of it.

Main results:

- Theorem {lit}`Fifo.step`: every step of either side keeps the queue invariant.
- Theorem {lit}`stream_fifo`: the queue law, over every interleaving whose pad
  stores meet the condition.
- Theorem {lit}`stream_pad_overwrites_record`: without the condition a full ring
  loses records that were accepted.
-/

namespace LiveSurface
namespace Ring

/-! ## The consumer -/

/-- Where the consumer is inside {lit}`ls_ring_consume`.  While it copies, it
holds the bytes taken so far. -/
inductive ConsumerPc
  | idle
  | loadConsumer (outMax : Nat)
  | loadProducer (outMax cons : Nat)
  | loadHeader (outMax cons : Nat)
  | skip (outMax cons step : Nat)
  | copy (cons step off total : Nat) (taken : List UInt8)
  | advance (cons step : Nat) (taken : List UInt8)
deriving DecidableEq

/-- A ring with its producer, its consumer, and the records returned so far. -/
structure RingState where
  core : Core
  consumer : ConsumerPc
  consumed : List Emission

/-- What the consumer does with the header it loaded. -/
def afterHeader (outMax cons off hdr : Nat) : ConsumerPc :=
  let body := hdr &&& lsRingLenMask
  let step := lsRingRound (lsRingHdrSz + body)
  if hdr &&& lsRingBusy ≠ 0 then .idle
  else if hdr &&& lsRingDiscard ≠ 0 then .skip outMax cons step
  else if body < lsRecSize then .idle
  else .copy cons step off (lsRecSize + min (body - lsRecSize) outMax) []

/-- The next step of the consumer. -/
def consumerStep (s : RingState) : Option RingState :=
  let r := s.core.ring
  match s.consumer with
  | .idle => none
  | .loadConsumer outMax => some { s with consumer := .loadProducer outMax r.consumerPos }
  | .loadProducer outMax cons =>
      if cons ≥ r.producerPos then some { s with consumer := .idle }
      else some { s with consumer := .loadHeader outMax cons }
  | .loadHeader outMax cons =>
      let off := u32 (cons &&& (r.dataSize - 1))
      some { s with consumer := afterHeader outMax cons off (headerAt r.data off) }
  | .skip outMax cons step =>
      some { s with
        core := s.core.setCursor (u64 (cons + step))
        consumer := .loadConsumer outMax }
  | .copy cons step off total taken =>
      if taken.length < total then
        some { s with
          consumer := .copy cons step off total
            (taken ++ [r.data (off + lsRingHdrSz + taken.length)]) }
      else some { s with consumer := .advance cons step taken }
  | .advance cons step taken =>
      some { s with
        core := s.core.setCursor (u64 (cons + step))
        consumer := .idle
        consumed := s.consumed ++
          [{ header := .ofBytes (taken.take lsRecSize), payload := taken.drop lsRecSize }] }

/-- Which side moves, and what a new call is given. -/
inductive RingAct
  | emit (e : Emission)
  | producer
  | consume (outMax : Nat)
  | consumer

/-- All interleavings of one producer and one consumer on a stream ring of
{lit}`ds` bytes.  Emitted records fit, and the output buffer is large enough. -/
def ringMachine (ds : Nat) : Machine RingState RingAct where
  init s := ∃ data, s = {
    core := { ring := lsRingInit ds .stream data, producer := .idle, accepted := [] }
    consumer := .idle
    consumed := [] }
  next s a :=
    match a with
    | .emit e =>
        if Fits ds e then (startEmit s.core e).map fun c => { s with core := c } else none
    | .producer => (producerStep s.core).map fun c => { s with core := c }
    | .consume outMax =>
        match s.consumer with
        | .idle => if ds ≤ outMax then some { s with consumer := .loadConsumer outMax } else none
        | _ => none
    | .consumer => consumerStep s

/-- The producer stores no pad header over an unconsumed record, and no length
that reaches the flag bits. -/
def StreamOk (s : RingState) : RingAct → Prop
  | .producer => EmitOk s.core.ring s.core.producer
  | _ => True

instance (s : RingState) : (a : RingAct) → Decidable (StreamOk s a)
  | .producer => inferInstanceAs (Decidable (EmitOk _ _))
  | .emit _ => isTrue trivial
  | .consume _ => isTrue trivial
  | .consumer => isTrue trivial

/-! ## The queue invariant -/

/-- A record header is read back as it was written. -/
theorem LsRec.ofBytes_bytes (r : LsRec) : LsRec.ofBytes r.bytes = r := by
  have h32 : ∀ x : UInt32, UInt32.ofNat (ofLittleEndian (littleEndian 4 x.toNat)) = x := by
    intro x
    rw [ofLittleEndian_littleEndian_of_lt (by simpa using x.toNat_lt)]
    simp
  have h64 : ∀ x : UInt64, UInt64.ofNat (ofLittleEndian (littleEndian 8 x.toNat)) = x := by
    intro x
    rw [ofLittleEndian_littleEndian_of_lt (by simpa using x.toNat_lt)]
    simp
  cases r with
  | mk hookId schemaId seq slot len tsNs =>
      simp [LsRec.ofBytes, LsRec.bytes, List.drop_append, h32, h64, List.take_of_length_le,
        List.drop_of_length_le]

/-- What the consumer knows at each of its program points.  Nothing here depends
on the data area, so the producer cannot disturb it. -/
def ConsumerOk (ds C : Nat) (tiles : List Tile) : ConsumerPc → Prop
  | .idle => True
  | .loadConsumer outMax => ds ≤ outMax
  | .loadProducer outMax cons => ds ≤ outMax ∧ cons = C % 2 ^ 64
  | .loadHeader outMax cons => ds ≤ outMax ∧ cons = C % 2 ^ 64 ∧ tiles ≠ []
  | .skip outMax cons step => ds ≤ outMax ∧ cons = C % 2 ^ 64 ∧
      ∃ n rest, tiles = .pad n :: rest ∧ step = n
  | .copy cons step off total taken => cons = C % 2 ^ 64 ∧ off = C % ds ∧
      ∃ e rest, tiles = .record e :: rest ∧ step = e.need ∧ total = 32 + e.len ∧
        taken <+: e.header.bytes ++ e.payload
  | .advance cons step taken => cons = C % 2 ^ 64 ∧
      ∃ e rest, tiles = .record e :: rest ∧ step = e.need ∧
        taken = e.header.bytes ++ e.payload

/-- New tiles behind the first do not concern the consumer. -/
theorem ConsumerOk.append {ds C : Nat} {tiles new : List Tile} {pc : ConsumerPc}
    (h : ConsumerOk ds C tiles pc) : ConsumerOk ds C (tiles ++ new) pc := by
  cases pc with
  | idle => trivial
  | loadConsumer outMax => exact h
  | loadProducer outMax cons => exact h
  | loadHeader outMax cons => exact ⟨h.1, h.2.1, by simp [h.2.2]⟩
  | skip outMax cons step =>
      rcases h with ⟨hout, hcons, n, rest, rfl, hstep⟩
      exact ⟨hout, hcons, n, rest ++ new, rfl, hstep⟩
  | copy cons step off total taken =>
      rcases h with ⟨hcons, hoff, e, rest, rfl, hrest⟩
      exact ⟨hcons, hoff, e, rest ++ new, rfl, hrest⟩
  | advance cons step taken =>
      rcases h with ⟨hcons, e, rest, rfl, hrest⟩
      exact ⟨hcons, e, rest ++ new, rfl, hrest⟩

/-- The queue: the accepted records are those returned and those still tiled
between the two positions. -/
structure Fifo (ds : Nat) (s : RingState) (C P : Nat) (tiles : List Tile) : Prop where
  laid : Laid ds s.core C P tiles
  queue : s.core.accepted = s.consumed ++ records tiles
  consumer : ConsumerOk ds C tiles s.consumer

section Steps

variable {ds C P : Nat} {s s' : RingState} {tiles : List Tile}

/-- The consumer reads the header of the first tile. -/
theorem Fifo.header (h : Fifo ds s C P tiles) (hds : RingSize ds) {outMax cons : Nat}
    (hpc : s.consumer = .loadHeader outMax cons) :
    ConsumerOk ds C tiles
      (afterHeader outMax cons (u32 (cons &&& (s.core.ring.dataSize - 1)))
        (headerAt s.core.ring.data (u32 (cons &&& (s.core.ring.dataSize - 1))))) := by
  have hconsumer := h.consumer
  rw [hpc] at hconsumer
  rcases hconsumer with ⟨hout, hcons, hne⟩
  have hoff : u32 (cons &&& (s.core.ring.dataSize - 1)) = C % ds := by
    rw [hcons, h.laid.dataSize]
    exact hds.offset C
  rw [hoff]
  have htiled := h.laid.tiled
  have hbound := hds.bounds
  cases tiles with
  | nil => contradiction
  | cons t rest =>
      cases t with
      | record e =>
          have ht := htiled.1
          rcases ht with ⟨hfit, hlen, hdvd, hbody, _⟩
          rcases flags_of_length hbody with ⟨hbusy, hdiscard, hmask⟩
          have hstep : lsRingRound (lsRingHdrSz + e.body) = e.need := by
            rw [Emission.need, Emission.body, Nat.add_assoc]
          have hge : ¬ e.body < lsRecSize := by
            rw [Emission.body]
            omega
          have hplen : lsRecSize + min (e.body - lsRecSize) outMax = 32 + e.len := by
            simp only [Emission.body, lsRecSize]
            omega
          simp only [afterHeader, htiled.1.header_record, hbusy, hdiscard, hmask, hstep, hplen,
            ne_eq, not_true_eq_false, if_false, if_neg hge]
          exact ⟨hcons, rfl, e, rest, rfl, rfl, rfl, List.nil_prefix⟩
      | pad n =>
          have ht := htiled.1
          rcases ht with ⟨hfit, hlen, hdvd, hflag, _⟩
          rcases flags_of_discard hflag with ⟨_, hbusy, hdiscard, hmask⟩
          have hstep : lsRingRound (lsRingHdrSz + (n - 8)) = n := by
            rw [lsRingHdrSz, lsRingRound_eq (by omega)]
            omega
          simp only [afterHeader, htiled.1.header_pad, hbusy, hmask, hstep, ne_eq,
            not_true_eq_false, if_false, if_pos hdiscard]
          exact ⟨hout, hcons, n, rest, rfl, rfl⟩

/-- Taking the next byte of the first record. -/
theorem prefix_snoc {α : Type} {taken full : List α} {x : α} (h : taken <+: full)
    (hx : full[taken.length]? = some x) : taken ++ [x] <+: full := by
  rcases h with ⟨rest, rfl⟩
  cases rest with
  | nil => simp at hx
  | cons y rest =>
      simp only [List.getElem?_append_right (Nat.le_refl _), Nat.sub_self,
        List.getElem?_cons_zero, Option.some.injEq] at hx
      subst hx
      exact ⟨rest, by simp⟩

/-- Each step of the consumer keeps the queue; the consumer stays or moves over the first tile. -/
theorem Fifo.consumerMoves (h : Fifo ds s C P tiles) (hds : RingSize ds)
    (hstep : consumerStep s = some s') :
    ∃ C' tiles', Fifo ds s' C' P tiles' ∧
      (C' = C ∧ tiles' = tiles ∨ ∃ t, tiles = t :: tiles' ∧ C' = C + t.size) := by
  have hconsumer := h.consumer
  unfold Ring.consumerStep at hstep
  dsimp only at hstep
  split at hstep
  · contradiction
  · rename_i outMax hpc
    rw [hpc] at hconsumer
    cases hstep
    exact ⟨C, tiles, ⟨h.laid, h.queue, hconsumer, h.laid.cons⟩, .inl ⟨rfl, rfl⟩⟩
  · rename_i outMax cons hpc
    rw [hpc] at hconsumer
    rcases hconsumer with ⟨hout, hcons⟩
    split at hstep
    · cases hstep
      exact ⟨C, tiles, ⟨h.laid, h.queue, trivial⟩, .inl ⟨rfl, rfl⟩⟩
    · rename_i hlt
      cases hstep
      refine ⟨C, tiles, ⟨h.laid, h.queue, hout, hcons, ?_⟩, .inl ⟨rfl, rfl⟩⟩
      -- with no tile the two words would be equal
      rintro rfl
      have heq : C = P := h.laid.tiled
      rw [h.laid.prod, hcons, heq] at hlt
      omega
  · rename_i outMax cons hpc
    cases hstep
    exact ⟨C, tiles, ⟨h.laid, h.queue, h.header hds hpc⟩, .inl ⟨rfl, rfl⟩⟩
  · rename_i outMax cons step hpc
    rw [hpc] at hconsumer
    rcases hconsumer with ⟨hout, hcons, n, rest, rfl, hn⟩
    cases hstep
    refine ⟨C + n, rest, ⟨?_, h.queue, hout⟩, .inr ⟨.pad n, rfl, rfl⟩⟩
    rw [hcons, hn]
    exact h.laid.advance
  · rename_i cons step off total taken hpc
    rw [hpc] at hconsumer
    rcases hconsumer with ⟨hcons, hoff, e, rest, rfl, hneed, htotal, hprefix⟩
    have hfull : (e.header.bytes ++ e.payload).length = 32 + e.len := by
      simp [Emission.len]
    split at hstep
    · rename_i hmore
      cases hstep
      refine ⟨C, _, ⟨h.laid, h.queue, hcons, hoff, e, rest, rfl, hneed, htotal, ?_⟩,
        .inl ⟨rfl, rfl⟩⟩
      apply prefix_snoc hprefix
      rw [hoff, lsRingHdrSz]
      exact h.laid.tiled.1.byte_record (by omega)
    · rename_i hdone
      cases hstep
      refine ⟨C, _, ⟨h.laid, h.queue, hcons, e, rest, rfl, hneed, ?_⟩, .inl ⟨rfl, rfl⟩⟩
      exact hprefix.eq_of_length_le (by omega)
  · rename_i cons step taken hpc
    rw [hpc] at hconsumer
    rcases hconsumer with ⟨hcons, e, rest, rfl, hneed, htaken⟩
    cases hstep
    refine ⟨C + e.need, rest, ⟨?_, ?_, trivial⟩, .inr ⟨.record e, rfl, rfl⟩⟩
    · rw [hcons, hneed]
      exact h.laid.advance
    · have htake : taken.take lsRecSize = e.header.bytes := by
        rw [htaken, List.take_left' (by simp [lsRecSize])]
      have hdrop : taken.drop lsRecSize = e.payload := by
        rw [htaken, List.drop_left' (by simp [lsRecSize])]
      have hqueue := h.queue
      simp only [Core.setCursor, htake, hdrop, LsRec.ofBytes_bytes]
      rw [hqueue, records, List.append_assoc]
      rfl

/-- Every step of either side keeps the queue, if pad stores are safe. -/
theorem Fifo.step (h : Fifo ds s C P tiles) (hds : RingSize ds) {a : RingAct}
    (hok : StreamOk s a) (hstep : (ringMachine ds).next s a = some s') :
    ∃ C' P' tiles', Fifo ds s' C' P' tiles' := by
  cases a with
  | emit e =>
      simp only [ringMachine] at hstep
      split at hstep
      · rename_i hfits
        rcases Option.map_eq_some_iff.mp hstep with ⟨c, hc, rfl⟩
        rcases h.laid.startEmit hfits hc with ⟨hlaid, hacc⟩
        refine ⟨C, P, tiles, hlaid, ?_, h.consumer⟩
        exact hacc.trans h.queue
      · contradiction
  | producer =>
      rcases Option.map_eq_some_iff.mp hstep with ⟨c, hc, rfl⟩
      rcases h.laid.producerStep hds hok hc with ⟨P', new, hlaid, hacc, _⟩
      refine ⟨C, P', tiles ++ new, hlaid, ?_, h.consumer.append⟩
      rw [records_append, ← List.append_assoc, ← h.queue]
      exact hacc
  | consume outMax =>
      simp only [ringMachine] at hstep
      split at hstep
      · split at hstep
        · rename_i hout
          cases hstep
          exact ⟨C, P, tiles, h.laid, h.queue, hout⟩
        · contradiction
      · contradiction
  | consumer =>
      rcases h.consumerMoves hds hstep with ⟨C', tiles', hfifo, _⟩
      exact ⟨C', P, tiles', hfifo⟩

end Steps

/-- The queue invariant holds in every run whose pad stores are safe. -/
theorem fifo_of_reachable {ds : Nat} (hds : RingSize ds) :
    ∀ s, (ringMachine ds).ReachableWhen StreamOk s → ∃ C P tiles, Fifo ds s C P tiles := by
  apply Machine.ReachableWhen.invariant
  · rintro s ⟨data, rfl⟩
    exact ⟨0, 0, [], laid_init hds data [], rfl, trivial⟩
  · intro s a s' _ h hok hstep
    rcases h with ⟨C, P, tiles, hfifo⟩
    exact hfifo.step hds hok hstep

/-- In every interleaving whose pad stores are safe, the consumer has returned a
prefix of the accepted records, and the bytes between the two positions are
exactly the rest of them, in order. -/
theorem stream_fifo (ds : Nat) (hds : RingSize ds) (s : RingState)
    (hs : (ringMachine ds).ReachableWhen StreamOk s) :
    s.consumed <+: s.core.accepted ∧
    ∃ C P tiles, s.core.ring.consumerPos = C % 2 ^ 64 ∧
      s.core.ring.producerPos = P % 2 ^ 64 ∧ Tiled ds s.core.ring.data C tiles P ∧
      records tiles = s.core.accepted.drop s.consumed.length := by
  rcases fifo_of_reachable hds s hs with ⟨C, P, tiles, h⟩
  refine ⟨⟨records tiles, h.queue.symm⟩, C, P, tiles, h.laid.cons, h.laid.prod, h.laid.tiled, ?_⟩
  rw [h.queue, List.drop_left]

/-! ## Two runs -/

/-- A ring of 128 bytes before its first use. -/
def freshRing : RingState where
  core := { ring := lsRingInit 128 .stream fun _ => 0, producer := .idle, accepted := [] }
  consumer := .idle
  consumed := []

/-- A record of {lit}`n` payload bytes. -/
def sampleRecord (seq : UInt64) (n : Nat) : Emission where
  header := { hookId := 7, schemaId := 1, seq := seq, slot := 0, len := UInt32.ofNat n, tsNs := 0 }
  payload := List.replicate n 9

/-- An emission that lands without a pad. -/
def emitLands (e : Emission) : List RingAct :=
  .emit e :: List.replicate (42 + e.len) .producer

/-- An emission that pads to the end and is then dropped. -/
def emitPadsDrops (e : Emission) : List RingAct :=
  .emit e :: List.replicate 14 .producer

/-- An emission that pads to the end and lands at the start. -/
def emitPadsLands (e : Emission) : List RingAct :=
  .emit e :: List.replicate (52 + e.len) .producer

/-- A call of the consumer that returns a record of {lit}`n` payload bytes. -/
def consumeOne (n : Nat) : List RingAct :=
  .consume 128 :: List.replicate (37 + n) .consumer

/-- The same after skipping one pad. -/
def consumeAfterPad (n : Nat) : List RingAct :=
  .consume 128 :: List.replicate (41 + n) .consumer

/-- Fill, consume two records, wrap, consume the rest. -/
def wrapRun : List RingAct :=
  emitLands (sampleRecord 0 0) ++ emitLands (sampleRecord 1 0) ++
    emitLands (sampleRecord 2 0) ++ consumeOne 0 ++ consumeOne 0 ++
    emitPadsLands (sampleRecord 3 0) ++ consumeOne 0 ++ consumeAfterPad 0

/-- The state after {lit}`wrapRun`. -/
def wrapped : RingState :=
  ((ringMachine 128).runWhen StreamOk freshRing wrapRun).getD freshRing

/-- Four records go through the ring across a wrap. -/
theorem stream_fifo_wrapRun :
    wrapped.consumed = [sampleRecord 0 0, sampleRecord 1 0, sampleRecord 2 0,
      sampleRecord 3 0] ∧ wrapped.consumed <+: wrapped.core.accepted :=
  ⟨by decide +kernel,
    (stream_fifo 128 ⟨7, by decide, by decide, rfl⟩ wrapped
      (Machine.reachableWhen_run_getD (.start ⟨fun _ => 0, rfl⟩) (by decide +kernel))).1⟩

/-- Fill, drop at the wrap, consume one record, fill again, and drop a longer
record at the next wrap; then consume. -/
def overwriteRun : List RingAct :=
  emitLands (sampleRecord 0 0) ++ emitLands (sampleRecord 1 0) ++
    emitLands (sampleRecord 2 0) ++ emitPadsDrops (sampleRecord 3 0) ++ consumeOne 0 ++
    emitLands (sampleRecord 4 0) ++ emitPadsDrops (sampleRecord 5 56) ++ consumeAfterPad 0

/-- The state after {lit}`overwriteRun`. -/
def overwritten : RingState :=
  ((ringMachine 128).run freshRing overwriteRun).getD freshRing

/-- The last dropped record of that run stored its pad header over record 1,
which was accepted and not consumed: the consumer goes from record 0 to
record 4. -/
theorem stream_pad_overwrites_record :
    (ringMachine 128).Reachable overwritten ∧
    overwritten.core.accepted = [sampleRecord 0 0, sampleRecord 1 0, sampleRecord 2 0,
      sampleRecord 4 0] ∧
    overwritten.consumed = [sampleRecord 0 0, sampleRecord 4 0] ∧
    ¬overwritten.consumed <+: overwritten.core.accepted :=
  ⟨Machine.reachable_run_getD (.start ⟨fun _ => 0, rfl⟩) (by decide +kernel),
    by decide +kernel, by decide +kernel, by decide +kernel⟩

end Ring
end LiveSurface
