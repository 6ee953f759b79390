import LiveSurface.Ring.Model
import Mathlib.Data.Fin.Basic
import Mathlib.Logic.Function.Basic

/-!
# Bring-up of the shared segment

The first record that a process publishes maps the segment and initialises its rings.
Any number of threads can come to that place, readers can open the file at any time, and
the file may be what an earlier process left.

Every load and store of the two globals and of the segment is one step below.  A thread's
point says what it does next; the label of a step carries the thread and the outcome of an
external call.  {lit}`memset` clears the fields of a ring in the order of their addresses.
Every mapping of the file shows the same segment, and the ring at an index lies where the
stride of this version puts it.

Main results:

- Definition {lit}`bringUp`: the machine.
- Definition {lit}`Sound`: what a bring-up promises.
-/

namespace LiveSurface
namespace Segment

open Ring

/-! ## The segment -/

def lsTpSegMagic : Nat := 0x4c53534547303031
def lsTpSegVersion : Nat := 2
def lsTpMaxRings : Nat := 16
def lsTpRingBytes : Nat := 64 * 1024
def lsRingMagic : Nat := 0x4c53524e47303031

/-- Size of {lit}`struct ls_ring`. -/
def lsRingSize : Nat := 56

def lsTpStride : Nat := lsRingSize + lsTpRingBytes

/-- The fields of {lit}`struct ls_ring`. -/
inductive RingField
  | magic
  | version
  | policy
  | dataSize
  | producerPos
  | consumerPos
  | drops
  | dropBytes
deriving DecidableEq

/-- A ring of the segment, and the process that last initialised each field. -/
structure SegRing where
  magic : Nat
  version : Nat
  body : LsRing
  author : RingField → Nat

/-- One store of {lit}`ls_ring_init`. -/
def SegRing.store (p : Nat) (r : SegRing) (field : RingField) (v : Nat) : SegRing :=
  let r := { r with author := Function.update r.author field p }
  match field with
  | .magic => { r with magic := v }
  | .version => { r with version := v }
  | .policy => { r with body := { r.body with policy := if v = 0 then .stream else .record } }
  | .dataSize => { r with body := { r.body with dataSize := v } }
  | .producerPos => { r with body := { r.body with producerPos := v } }
  | .consumerPos => { r with body := { r.body with consumerPos := v } }
  | .drops => { r with body := { r.body with drops := v } }
  | .dropBytes => { r with body := { r.body with dropBytes := v } }

/-- {lit}`struct ls_tp_seg`, and the process that last stored its magic. -/
structure SegFile where
  magic : Nat
  version : Nat
  nRings : Nat
  ringStride : Nat
  ringDataSize : Nat
  claimed : Nat
  ring : Fin 16 → SegRing
  magicAuthor : Nat

/-- A store of the bring-up. -/
inductive SegStore
  | version
  | nRings
  | ringStride
  | ringDataSize
  | claimed
  | ring (i : Fin 16) (field : RingField) (v : Nat)
  | magic
deriving DecidableEq

/-- One store of the bring-up, made by a process. -/
def SegFile.store (p : Nat) (f : SegFile) : SegStore → SegFile
  | .version => { f with version := lsTpSegVersion }
  | .nRings => { f with nRings := lsTpMaxRings }
  | .ringStride => { f with ringStride := lsTpStride }
  | .ringDataSize => { f with ringDataSize := lsTpRingBytes }
  | .claimed => { f with claimed := 0 }
  | .ring i field v => { f with ring := Function.update f.ring i ((f.ring i).store p field v) }
  | .magic => { f with magic := lsTpSegMagic, magicAuthor := p }

/-- Whether the segment is unfinished after a store: a ring was stored to, and no bring-up has
stored the magic since. -/
def SegStore.unfinished (before : Bool) : SegStore → Bool
  | .ring _ _ _ => true
  | .magic => false
  | _ => before

/-- The stores of {lit}`ls_ring_init`: the cleared fields, then those that are set. -/
def ringStores : List (RingField × Nat) :=
  [(.magic, 0), (.version, 0), (.policy, 0), (.dataSize, 0), (.producerPos, 0), (.consumerPos, 0),
    (.drops, 0), (.dropBytes, 0), (.magic, lsRingMagic), (.version, 1), (.policy, 0),
    (.dataSize, lsTpRingBytes), (.producerPos, 0), (.consumerPos, 0)]

/-- The stores of {lit}`ls_ring_init` on one ring of the segment. -/
def ringInit (i : Fin 16) : List SegStore := ringStores.map fun w => .ring i w.1 w.2

/-- The stores that {lit}`ls_tp_seg_open` makes, in order. -/
def initStores : List SegStore :=
  [.version, .nRings, .ringStride, .ringDataSize, .claimed] ++
    (List.finRange 16).flatMap ringInit ++ [.magic]

/-- A ring of zeros. -/
def SegRing.zero : SegRing where
  magic := 0
  version := 0
  body := lsRingInit 0 .stream (fun _ => 0)
  author _ := 0

/-- A file that was just created. -/
def SegFile.zero : SegFile where
  magic := 0
  version := 0
  nRings := 0
  ringStride := 0
  ringDataSize := 0
  claimed := 0
  ring _ := .zero
  magicAuthor := 0

/-! ## Threads and readers -/

/-- What a thread does next. -/
inductive Point
  | idle
  | test
  | mark
  | env
  | openFile
  | truncate
  | map
  | init (rest : List SegStore)
  | setSeg (mapped : Bool)
  | load
  | again
  | claim
  | compare (idx : Nat)
  | start (i : Fin 16)
  | emit (i : Fin 16) (pc : ProducerPc)

/-- A thread: its point, the record it publishes, and the two variables of
{lit}`ls_tp_my_ring`. -/
structure Thread where
  point : Point
  record : Emission
  mine : Option (Fin 16)
  tried : Bool

/-- A consumer inside {lit}`ls_tp_seg_open` without {lit}`create`, and what its mapping shows
when that returns. -/
inductive Reader
  | idle
  | magic
  | version
  | stride
  | failed
  | opened (view : SegFile)

/-- What a process did. -/
inductive BootEvent
  | stored (t : Nat) (store : SegStore)
  | claimed (t idx : Nat)
  | wrote (t : Nat) (i : Fin 16)
  | accepted (t : Nat) (i : Fin 16) (e : Emission)

/-- The process with its threads, the file, and the readers. -/
structure Boot where
  proc : Nat
  tried : Bool
  seg : Bool
  thread : Nat → Thread
  file : Option SegFile
  unfinished : Bool
  reader : Nat → Reader
  log : List BootEvent

/-- A thread before its first call. -/
def Thread.fresh : Thread where
  point := .idle
  record := { header := ⟨0, 0, 0, 0, 0, 0⟩, payload := [] }
  mine := none
  tried := false

/-- A step. -/
inductive BootStep
  | call (t : Nat) (e : Emission)
  | run (t : Nat) (ok : Bool)
  | openReader (c : Nat)
  | read (c : Nat)
  | restart

/-- A thread goes on. -/
def Boot.goto (s : Boot) (t : Nat) (point : Point) : Boot :=
  { s with thread := Function.update s.thread t { s.thread t with point } }

/-- The ring that a thread has, or its claim. -/
def Boot.myRing (s : Boot) (t : Nat) : Boot :=
  let th := s.thread t
  match th.mine with
  | some i => s.goto t (.start i)
  | none =>
      if th.tried then s.goto t .idle
      else
        { s with
          thread := Function.update s.thread t
            { th with point := if s.seg then .claim else .idle, tried := true } }

/-- One step of a producer on its ring. -/
def Boot.emitted (s : Boot) (t : Nat) (i : Fin 16) (f : SegFile) (c : Core) : Boot :=
  let s := s.goto t (if c.producer = .idle then .idle else .emit i c.producer)
  { s with
    file := some { f with ring := Function.update f.ring i { f.ring i with body := c.ring } }
    log := s.log ++ [.wrote t i] ++ c.accepted.map fun e => .accepted t i e }

/-- The next access of a thread. -/
def Boot.runThread (s : Boot) (t : Nat) (ok : Bool) : Option Boot :=
  match (s.thread t).point with
  | .idle => none
  | .test => some (s.goto t (if s.tried then .load else .mark))
  | .mark =>
      let s := s.goto t .env
      some { s with tried := true }
  | .env => some (s.goto t (if ok then .openFile else .load))
  | .openFile =>
      if ok then
        let s := s.goto t .truncate
        some { s with file := some (s.file.getD .zero) }
      else some (s.goto t (.setSeg false))
  | .truncate => some (s.goto t (if ok then .map else .setSeg false))
  | .map => some (s.goto t (if ok then .init initStores else .setSeg false))
  | .init [] => some (s.goto t (.setSeg true))
  | .init (w :: rest) =>
      s.file.map fun f =>
        let s := s.goto t (.init rest)
        { s with
          file := some (f.store s.proc w)
          unfinished := w.unfinished s.unfinished
          log := s.log ++ [.stored t w] }
  | .setSeg mapped =>
      let s := s.goto t .load
      some { s with seg := mapped }
  | .load => some (s.goto t (if s.seg ∧ ok then .again else .idle))
  | .again => some (s.myRing t)
  | .claim =>
      s.file.map fun f =>
        let s := s.goto t (.compare f.claimed)
        { s with
          file := some { f with claimed := (f.claimed + 1) % 2 ^ 32 }
          log := s.log ++ [.claimed t f.claimed] }
  | .compare idx =>
      s.file.map fun f =>
        if h : idx < f.nRings ∧ idx < 16 then
          { s with
            thread := Function.update s.thread t
              { s.thread t with point := .start ⟨idx, h.2⟩, mine := some ⟨idx, h.2⟩ } }
        else s.goto t .idle
  | .start i =>
      s.file.bind fun f =>
        (startEmit ⟨(f.ring i).body, .idle, []⟩ (s.thread t).record).map fun c =>
          s.goto t (if c.producer = .idle then .idle else .emit i c.producer)
  | .emit i pc =>
      s.file.bind fun f =>
        (producerStep ⟨(f.ring i).body, pc, []⟩).map fun c => s.emitted t i f c

/-- A reader goes on. -/
def Boot.see (s : Boot) (c : Nat) (reader : Reader) : Boot :=
  { s with reader := Function.update s.reader c reader }

/-- The next load of a reader. -/
def Boot.readFile (s : Boot) (c : Nat) : Option Boot :=
  s.file.bind fun f =>
    match s.reader c with
    | .magic =>
        some (s.see c (if f.magic = lsTpSegMagic then .version else .failed))
    | .version =>
        some (s.see c (if f.version = lsTpSegVersion then .stride else .failed))
    | .stride =>
        some (s.see c (if f.ringStride = lsTpStride then .opened f else .failed))
    | _ => none

/-- A step of the process, of a reader, or the start of the next process. -/
def Boot.next (s : Boot) : BootStep → Option Boot
  | .call t e =>
      match (s.thread t).point with
      | .idle =>
          some { s with
            thread := Function.update s.thread t { s.thread t with point := .test, record := e } }
      | _ => none
  | .run t ok => s.runThread t ok
  | .openReader c =>
      match s.reader c with
      | .idle | .failed | .opened _ =>
          some (s.see c (if s.file.isSome then .magic else .failed))
      | _ => none
  | .read c => s.readFile c
  | .restart =>
      some { s with
        proc := s.proc + 1
        tried := false
        seg := false
        thread := fun _ => .fresh
        log := [] }

/-- The process, the file and the readers.  At first there is no file, or one without the
magic. -/
def bringUp : Machine Boot BootStep where
  init s := s.tried = false ∧ s.seg = false ∧ (∀ t, s.thread t = .fresh) ∧
    (∀ f, s.file = some f → f.magic ≠ lsTpSegMagic) ∧ s.unfinished = false ∧
    (∀ c, s.reader c = .idle) ∧ s.log = []
  next := Boot.next

/-! ## What a bring-up promises -/

/-- The event resets the count of claims. -/
def BootEvent.isReset : BootEvent → Bool
  | .stored _ .claimed => true
  | _ => false

/-- The event begins the initialisation of a ring. -/
def BootEvent.startsRing (i : Fin 16) : BootEvent → Bool
  | .stored _ (.ring j .magic 0) => i = j
  | _ => false

/-- The event is a store of the bring-up. -/
def BootEvent.isStore : BootEvent → Bool
  | .stored _ _ => true
  | _ => false

/-- The ring is one that a process has initialised. -/
structure SegRing.By (r : SegRing) (p : Nat) : Prop where
  magic : r.magic = lsRingMagic
  version : r.version = 1
  policy : r.body.policy = .stream
  dataSize : r.body.dataSize = lsTpRingBytes
  author : ∀ field, r.author field = p

/-- Every ring is initialised, by the process that stored the magic. -/
def SegFile.Whole (f : SegFile) : Prop := ∀ i, (f.ring i).By f.magicAuthor

/-- What holds in every state of a sound bring-up. -/
structure Sound (s : Boot) : Prop where
  resetOnce : s.log.countP BootEvent.isReset ≤ 1
  ringOnce : ∀ i, s.log.countP (BootEvent.startsRing i) ≤ 1
  beforeClaims : ∀ before after t idx, s.log = before ++ .claimed t idx :: after →
    ∀ event ∈ after, event.isStore = false
  beforeRecords : ∀ before after t i e, s.log = before ++ .accepted t i e :: after →
    ∀ event ∈ after, event.isStore = false
  ownRing : ∀ t u i, (s.thread t).mine = some i → (s.thread u).mine = some i → t = u
  oneWriter : ∀ t u i, .wrote t i ∈ s.log → .wrote u i ∈ s.log → t = u
  readers : ∀ c view, s.reader c = .opened view → view.Whole

end Segment
end LiveSurface
