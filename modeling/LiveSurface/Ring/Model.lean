import LiveSurface.Library.Bytes
import LiveSurface.Library.Machine

/-!
# The egress ring

One producer writes records into a shared data area, one consumer reads them
out.  The two positions run freely and are masked into the area; a record never
straddles its end, because the producer pads the rest with a discard header.

Every atomic access of the source is one step below.  A copy of plain memory is
one step a byte, and the header words, which the source stores as atomics, are
one step each.  Positions are natural numbers below {lit}`2 ^ 64` and every
operation on them, and on 32-bit values, is reduced explicitly.

The producer's local state is its program point.  While it fills a record or a
pad, the point carries the stores still to be made, in order.
-/

namespace LiveSurface
namespace Ring

/-! ## Layout -/

def lsRingHdrSz : Nat := 8
def lsRingAlign : Nat := 8
def lsRingBusy : Nat := 2 ^ 31
def lsRingDiscard : Nat := 2 ^ 30
def lsRingLenMask : Nat := 2 ^ 30 - 1

/-- Size of the record header that travels inside the payload. -/
def lsRecSize : Nat := 32

/-- A record header. -/
structure LsRec where
  hookId : UInt32
  schemaId : UInt32
  seq : UInt64
  slot : UInt32
  len : UInt32
  tsNs : UInt64
deriving DecidableEq

/-- The record header as it lies in memory. -/
def LsRec.bytes (r : LsRec) : List UInt8 :=
  littleEndian 4 r.hookId.toNat ++ littleEndian 4 r.schemaId.toNat ++
    littleEndian 8 r.seq.toNat ++ littleEndian 4 r.slot.toNat ++
    littleEndian 4 r.len.toNat ++ littleEndian 8 r.tsNs.toNat

/-- Read a record header back out of memory. -/
def LsRec.ofBytes (bs : List UInt8) : LsRec where
  hookId := UInt32.ofNat (ofLittleEndian (bs.take 4))
  schemaId := UInt32.ofNat (ofLittleEndian ((bs.drop 4).take 4))
  seq := UInt64.ofNat (ofLittleEndian ((bs.drop 8).take 8))
  slot := UInt32.ofNat (ofLittleEndian ((bs.drop 16).take 4))
  len := UInt32.ofNat (ofLittleEndian ((bs.drop 20).take 4))
  tsNs := UInt64.ofNat (ofLittleEndian ((bs.drop 24).take 8))

inductive LsRingPolicy
  | stream
  | record
deriving DecidableEq

/-- The control block and the data area behind it. -/
structure LsRing where
  policy : LsRingPolicy
  dataSize : Nat
  producerPos : Nat
  consumerPos : Nat
  drops : Nat
  dropBytes : Nat
  data : Memory

/-- Initialise the control block; the data area keeps whatever it held. -/
def lsRingInit (dataSize : Nat) (policy : LsRingPolicy) (data : Memory) : LsRing where
  policy := policy
  dataSize := dataSize
  producerPos := 0
  consumerPos := 0
  drops := 0
  dropBytes := 0
  data := data

/-! ## Machine arithmetic -/

def u32 (n : Nat) : Nat := n % 2 ^ 32
def u64 (n : Nat) : Nat := n % 2 ^ 64

/-- Difference of two 64-bit words. -/
def sub64 (a b : Nat) : Nat := (a + 2 ^ 64 - b) % 2 ^ 64

/-- Round a 32-bit length up to the alignment. -/
def lsRingRound (n : Nat) : Nat :=
  u32 (n + lsRingAlign - 1) &&& (2 ^ 32 - 1 - (lsRingAlign - 1))

/-- The 32-bit word at an offset of the data area. -/
def headerAt (data : Memory) (off : Nat) : Nat :=
  ofLittleEndian (data.load off 4)

/-! ## The producer -/

/-- What one call of {lit}`ls_ring_emit` is given. -/
structure Emission where
  header : LsRec
  payload : List UInt8
deriving DecidableEq

def Emission.len (e : Emission) : Nat := e.payload.length

/-- Room the record takes, header and rounding included. -/
def Emission.need (e : Emission) : Nat :=
  lsRingRound (lsRingHdrSz + lsRecSize + e.len)

/-- The length word of the record. -/
def Emission.body (e : Emission) : Nat := lsRecSize + e.len

/-- Where the producer is inside {lit}`ls_ring_emit`. -/
inductive ProducerPc
  | idle
  | loadProducer (e : Emission)
  | pad (e : Emission) (prod off : Nat) (stores : List (Nat × List UInt8))
  | storePad (e : Emission) (prod off : Nat)
  | loadConsumer (e : Emission) (prod off : Nat)
  | addDrops (e : Emission)
  | addDropBytes (e : Emission)
  | write (e : Emission) (prod off : Nat) (stores : List (Nat × List UInt8))
  | publish (e : Emission) (prod : Nat)
deriving DecidableEq

/-- The stores that lay down a pad header. -/
def padStores (off pad : Nat) : List (Nat × List UInt8) :=
  if pad ≥ lsRingHdrSz then
    Memory.byteStores off (littleEndian 4 ((pad - lsRingHdrSz) ||| lsRingDiscard)) ++
      Memory.byteStores (off + 4) (littleEndian 4 0)
  else []

/-- The stores that lay down a record, from the busy header to the final one. -/
def recordStores (e : Emission) (off : Nat) : List (Nat × List UInt8) :=
  [(off, littleEndian 4 (e.body ||| lsRingBusy))] ++
    Memory.byteStores (off + 4) (littleEndian 4 0) ++
    Memory.byteStores (off + lsRingHdrSz) e.header.bytes ++
    Memory.byteStores (off + lsRingHdrSz + lsRecSize) e.payload ++
    [(off, littleEndian 4 e.body)]

/-- The ring, the producer, and the records whose emission returned 1. -/
structure Core where
  ring : LsRing
  producer : ProducerPc
  accepted : List Emission

/-- A stream checks for room; a recorder never does. -/
def checkOrWrite (r : LsRing) (e : Emission) (prod off : Nat) : ProducerPc :=
  match r.policy with
  | .stream => .loadConsumer e prod off
  | .record => .write e prod off (recordStores e off)

/-- After the position is known: pad first, or go on. -/
def afterLoad (r : LsRing) (e : Emission) (prod : Nat) : ProducerPc :=
  let off := u32 (prod &&& (r.dataSize - 1))
  if u32 (off + e.need) > r.dataSize then
    .pad e prod off (padStores off (r.dataSize - off))
  else
    checkOrWrite r e prod off

/-- Enter {lit}`ls_ring_emit`; a record that can never fit returns at once. -/
def startEmit (c : Core) (e : Emission) : Option Core :=
  match c.producer with
  | .idle =>
      if e.need > c.ring.dataSize then some c
      else some { c with producer := .loadProducer e }
  | _ => none

/-- The next step of the producer. -/
def producerStep (c : Core) : Option Core :=
  let r := c.ring
  match c.producer with
  | .idle => none
  | .loadProducer e => some { c with producer := afterLoad r e r.producerPos }
  | .pad e prod off [] => some { c with producer := .storePad e prod off }
  | .pad e prod off (w :: rest) =>
      some { c with
        ring := { r with data := r.data.store w.1 w.2 }
        producer := .pad e prod off rest }
  | .storePad e prod off =>
      let prod' := u64 (prod + (r.dataSize - off))
      some { c with
        ring := { r with producerPos := prod' }
        producer := checkOrWrite r e prod' 0 }
  | .loadConsumer e prod off =>
      if u64 (sub64 prod r.consumerPos + e.need) > r.dataSize then
        some { c with producer := .addDrops e }
      else
        some { c with producer := .write e prod off (recordStores e off) }
  | .addDrops e =>
      some { c with
        ring := { r with drops := u64 (r.drops + 1) }
        producer := .addDropBytes e }
  | .addDropBytes e =>
      some { c with
        ring := { r with dropBytes := u64 (r.dropBytes + e.len) }
        producer := .idle }
  | .write e prod _ [] => some { c with producer := .publish e prod }
  | .write e prod off (w :: rest) =>
      some { c with
        ring := { r with data := r.data.store w.1 w.2 }
        producer := .write e prod off rest }
  | .publish e prod =>
      some { c with
        ring := { r with producerPos := u64 (prod + e.need) }
        producer := .idle
        accepted := c.accepted ++ [e] }

/-- Move the consumer's cursor. -/
def Core.setCursor (c : Core) (pos : Nat) : Core :=
  { c with ring := { c.ring with consumerPos := pos } }

end Ring
end LiveSurface
