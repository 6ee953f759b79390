import LiveSurface.Journal.History
import LiveSurface.Ring.Reader

/-!
# The reader and the collector as two processes

The collector starts the stream reader as its child and talks to it over two
pipes.  The reader prints a frame, waits for the line that acknowledges it, and
only then moves the cursor in shared memory.  The collector reads a frame, passes
it to the journal, and only then writes the acknowledgement.

A step of the machine is one action of one of the processes, an action of the
producer, the death of a process, or a restart.  A ring is the queue its law makes
it: the entries committed so far, and a cursor.  The lock on the segment keeps two
readers apart, and the lock on the journal two collectors.

Main results:

- Definition {lit}`deliveryMachine`: all interleavings of the producer and the two
  processes, with crashes anywhere.
-/

namespace LiveSurface
namespace Collector

open LiveSurface.Ring Metadata

/-! ## Rings as queues -/

/-- What {lit}`hdr & LS_RING_DISCARD` says of an entry. -/
def tileKind : Tile → FrameKind
  | .record _ => .record
  | .pad _ => .discard

/-- The bytes a stretch of entries takes. -/
def extent (tiles : List Tile) : Nat := (tiles.map Tile.size).sum

/-- The entry that begins at a position; {lit}`none` at the end of the committed
entries. -/
def entryAt : List Tile → Nat → Option Tile
  | [], _ => none
  | tile :: rest, position =>
      if position = 0 then some tile
      else if position < tile.size then none
      else entryAt rest (position - tile.size)

/-! ## Frames -/

/-- What the reader pins of the source it follows. -/
structure Source where
  boot : String
  pidNamespace : Nat
  pid : Nat
  start : Nat
  segmentDevice : Nat
  segmentInode : Nat
  exeDevice : Nat
  exeInode : Nat
  segmentVersion : Nat

/-- The first frame of a reader. -/
def sourceFrame (source : Source) : Object :=
  [("boot", .str source.boot), ("exe_device", .str (toString source.exeDevice)),
    ("exe_inode", .str (toString source.exeInode)), ("kind", .str "source"),
    ("pid", .str (toString source.pid)), ("pid_namespace", .str (toString source.pidNamespace)),
    ("segment_device", .str (toString source.segmentDevice)),
    ("segment_inode", .str (toString source.segmentInode)),
    ("segment_version", .int source.segmentVersion), ("start", .str (toString source.start)),
    ("token", .str "H")]

/-- {lit}`D:%u:%lu`. -/
def healthToken (ring drops : Nat) : String :=
  "D:" ++ toString ring ++ ":" ++ toString drops

/-- A report of the drop counters of a ring. -/
def healthFrame (ring drops dropBytes : Nat) : Object :=
  [("drop_bytes", .str (toString dropBytes)), ("drops", .str (toString drops)),
    ("kind", .str "ring_health"), ("ring", .int ring), ("token", .str (healthToken ring drops))]

/-- {lit}`R:%u:%lu:%lu`. -/
def recordToken (ring start position : Nat) : String :=
  "R:" ++ toString ring ++ ":" ++ toString start ++ ":" ++ toString position

/-- A record or a discard that begins at a cursor. -/
def recordFrame (ring cons : Nat) : Tile → Object
  | .record e =>
      let position := cons + (Tile.record e).size
      [("begin", .str (toString cons)), ("data", .str (hex e.payload)),
        ("end", .str (toString position)), ("hook_id", .int e.header.hookId.toNat),
        ("kind", .str "record"), ("ring", .int ring), ("schema", .int e.header.schemaId.toNat),
        ("seq", .str (toString e.header.seq.toNat)), ("slot", .int e.header.slot.toNat),
        ("token", .str (recordToken ring cons position)),
        ("ts_ns", .str (toString e.header.tsNs.toNat))]
  | .pad n =>
      let position := cons + (Tile.pad n).size
      [("begin", .str (toString cons)), ("end", .str (toString position)),
        ("kind", .str "discard"), ("ring", .int ring),
        ("token", .str (recordToken ring cons position))]

/-- The line that acknowledges a token. -/
def ackLine (token : String) : String := "ACK " ++ token

/-! ## The processes -/

/-- Where the reader is. -/
inductive StreamPc
  | start
  | hello
  | poll
  | scan (i claimed : Nat)
  | health (i claimed drops : Nat)
  | loadConsumer (i claimed : Nat)
  | loadEntry (i claimed cons : Nat)
  | record (i claimed cons step : Nat)
  | recheck (i claimed cons step : Nat)
  | storeConsumer (i claimed cons step : Nat)
deriving DecidableEq

/-- The token the reader waits for. -/
def StreamPc.awaited : StreamPc → Option String
  | .hello => some "H"
  | .health i _ drops => some (healthToken i drops)
  | .record i _ cons step => some (recordToken i cons (cons + step))
  | _ => none

/-- The reader that holds the lock of the segment. -/
structure Reader where
  pc : StreamPc
  lastDrops : Nat → Nat
  /-- the lines in its standard input -/
  input : List String

/-- Where the collector is in its loop over frames. -/
inductive CollectorPc
  | idle
  | accepting (frame : Object)
  | acknowledging (frame : Object)

/-- The collector that holds the lock of the journal.  It starts one child, and
reads what that child has printed. -/
structure Process where
  pc : CollectorPc
  spawned : Bool
  output : List Object

/-- Shared memory, the journal, and the processes that live. -/
structure Delivery where
  entries : Nat → List Tile
  claimed : Nat
  drops : Nat → Nat
  dropBytes : Nat → Nat
  consumerPos : Nat → Nat
  history : History
  reader : Option Reader
  collector : Option Process

/-- What can happen next. -/
inductive DeliveryAct
  | commit (i : Nat) (tile : Tile)
  | count (i drops dropBytes : Nat)
  | claim
  | startCollector
  | startReader
  | crashCollector
  | crashReader
  | reader
  | readLine
  | accept (uuid : String) (storage : Bool)
  | acknowledge

/-- {lit}`LS_TP_MAX_RINGS`. -/
def maxRings : Nat := 16

/-! ## The reader's steps -/

/-- Print a frame and wait: the collector that started the reader can read it. -/
def printFrame (s : Delivery) (r : Reader) (pc : StreamPc) (frame : Object) : Delivery :=
  { s with
    reader := some { r with pc := pc }
    collector := s.collector.map fun c =>
      if c.spawned then { c with output := c.output ++ [frame] } else c }

/-- {lit}`acknowledge`: wait for one line; any other line ends the process. -/
def receiveAck (s : Delivery) (r : Reader) (token : String) (next : Reader) : Option Delivery :=
  match r.input with
  | [] => none
  | line :: rest =>
      if line = ackLine token then some { s with reader := some { next with input := rest } }
      else some { s with reader := none }

/-- The next step of the reader. -/
def readerNext (source : Source) (s : Delivery) (r : Reader) : Option Delivery :=
  match r.pc with
  | .start => some (printFrame s r .hello (sourceFrame source))
  | .hello => receiveAck s r "H" { r with pc := .poll }
  | .poll =>
      if s.claimed > maxRings then some { s with reader := none }
      else some { s with reader := some { r with pc := .scan 0 s.claimed } }
  | .scan i claimed =>
      if i < claimed then
        if s.drops i ≠ r.lastDrops i then
          some (printFrame s r (.health i claimed (s.drops i))
            (healthFrame i (s.drops i) (s.dropBytes i)))
        else some { s with reader := some { r with pc := .loadConsumer i claimed } }
      else some { s with reader := some { r with pc := .poll } }
  | .health i claimed drops =>
      receiveAck s r (healthToken i drops)
        { r with pc := .loadConsumer i claimed, lastDrops := Function.update r.lastDrops i drops }
  | .loadConsumer i claimed =>
      some { s with reader := some { r with pc := .loadEntry i claimed (s.consumerPos i) } }
  | .loadEntry i claimed cons =>
      match entryAt (s.entries i) cons with
      | none => some { s with reader := some { r with pc := .scan (i + 1) claimed } }
      | some (.record e) =>
          if Described e then
            some (printFrame s r (.record i claimed cons (Tile.record e).size)
              (recordFrame i cons (.record e)))
          else some { s with reader := none }
      | some (.pad n) =>
          some (printFrame s r (.record i claimed cons (Tile.pad n).size)
            (recordFrame i cons (.pad n)))
  | .record i claimed cons step =>
      receiveAck s r (recordToken i cons (cons + step))
        { r with pc := .recheck i claimed cons step }
  | .recheck i claimed cons step =>
      if s.consumerPos i ≠ cons then some { s with reader := none }
      else some { s with reader := some { r with pc := .storeConsumer i claimed cons step } }
  | .storeConsumer i claimed cons step =>
      some { s with
        consumerPos := Function.update s.consumerPos i (cons + step)
        reader := some { r with pc := .scan (i + 1) claimed } }

/-! ## The machine -/

/-- The next state.  A journal that raises ends its collector, and so does a pipe
without a reader. -/
def deliveryNext (rt : Runtime) (retain : Nat) (source : Source) (s : Delivery) :
    DeliveryAct → Option Delivery
  | .commit i tile =>
      if 0 < tile.size then
        some { s with entries := Function.update s.entries i (s.entries i ++ [tile]) }
      else none
  | .count i drops dropBytes =>
      some { s with
        drops := Function.update s.drops i drops
        dropBytes := Function.update s.dropBytes i dropBytes }
  | .claim => some { s with claimed := s.claimed + 1 }
  | .startCollector =>
      match s.collector with
      | some _ => none
      | none =>
          some { s with
            history := historyNext rt retain s.history .reopen
            collector := some { pc := .idle, spawned := false, output := [] } }
  | .startReader =>
      match s.collector, s.reader with
      | some c, none =>
          if c.spawned then none
          else
            some { s with
              collector := some { c with spawned := true }
              reader := some { pc := .start, lastDrops := fun _ => 2 ^ 64 - 1, input := [] } }
      | _, _ => none
  | .crashCollector => some { s with collector := none }
  | .crashReader => some { s with reader := none }
  | .reader => s.reader.bind fun r => readerNext source s r
  | .readLine =>
      match s.collector with
      | some { pc := .idle, spawned, output := frame :: rest } =>
          some { s with collector := some { pc := .accepting frame, spawned, output := rest } }
      | _ => none
  | .accept uuid storage =>
      match s.collector with
      | some { pc := .accepting frame, spawned, output } =>
          let history := historyNext rt retain s.history (.accept frame uuid storage)
          match (accept rt retain uuid storage s.history.journal frame).1 with
          | .error _ => some { s with history := history, collector := none }
          | .ok _ =>
              some { s with
                history := history
                collector := some { pc := .acknowledging frame, spawned, output } }
      | _ => none
  | .acknowledge =>
      match s.collector with
      | some { pc := .acknowledging frame, spawned, output } =>
          match frame.get? "token", s.reader with
          | some (.str token), some r =>
              some { s with
                reader := some { r with input := r.input ++ [ackLine token] }
                collector := some { pc := .idle, spawned, output } }
          | _, _ => some { s with collector := none }
      | _ => none

/-- The fingerprint of the source. -/
def sourceId (rt : Runtime) (source : Source) : String := rt.sha256 (rawOf (sourceFrame source))

/-- A new segment and no processes; the journal may have followed other sources. -/
def deliveryMachine (rt : Runtime) (retain : Nat) (source : Source) :
    Machine Delivery DeliveryAct where
  init s :=
    (historyMachine rt retain).ReachableWhen (HistoryOk rt) s.history ∧
    s.history.journal.db.sourceId ≠ some (sourceId rt source) ∧
    (∀ i, s.entries i = []) ∧ (∀ i, s.consumerPos i = 0) ∧ s.reader = none ∧ s.collector = none
  next := deliveryNext rt retain source

/-- The condition on the steps of the journal. -/
def DeliveryOk (rt : Runtime) (s : Delivery) : DeliveryAct → Prop
  | .accept uuid _ =>
      match s.collector with
      | some { pc := .accepting frame, .. } => Distinct rt s.history frame uuid
      | _ => True
  | _ => True

instance (rt : Runtime) (s : Delivery) : (act : DeliveryAct) → Decidable (DeliveryOk rt s act)
  | .accept uuid _ =>
      match h : s.collector with
      | some { pc := .accepting frame, .. } =>
          decidable_of_iff (Distinct rt s.history frame uuid) (by simp only [DeliveryOk, h])
      | some { pc := .idle, .. } => isTrue (by simp only [DeliveryOk, h])
      | some { pc := .acknowledging _, .. } => isTrue (by simp only [DeliveryOk, h])
      | none => isTrue (by simp only [DeliveryOk, h])
  | .commit _ _ | .count _ _ _ | .claim | .startCollector | .startReader | .crashCollector
  | .crashReader | .reader | .readLine | .acknowledge => isTrue trivial

end Collector
end LiveSurface
