import LiveSurface.Library.Early
import LiveSurface.Metadata.Initialization

/-!
# Boundary records

Three programs observe the boundaries of a JSON context: its handler, the end of a message
and the reset for another use.  Each reports one record a call, with the storage that the call
was about where it could be read.

Main results:

- Definition {lit}`JlCall.context`: the storage of a call.
- Theorem {lit}`JlEvent.Sound.decodes`: a record that keeps the producers' bounds decodes.
- Theorem {lit}`JlCall.context_spec`: what a call reads keeps the bounds.
-/

namespace LiveSurface
namespace Metadata

/-! ## Records -/

/-- {lit}`JL_KIND`. -/
inductive JlKind
  | handler
  | complete
  | reset
deriving DecidableEq

/-- The number of a kind. -/
def JlKind.code : JlKind → Nat
  | .handler => 1
  | .complete => 2
  | .reset => 3

/-- The 112-byte record, {lit}`struct jl_event`. -/
structure JlEvent where
  magic : Nat
  abi : Nat
  instanceId : Nat
  revision : Nat
  run : Nat
  monotonicNs : Nat
  sequence : Nat
  outputFailures : Nat
  contextTag : Nat
  kind : Nat
  code : Nat
  status : Nat
  flags : Nat
  flowSide : Nat
  scbFlags : Nat
  cachePresent : Nat
  seenMask : Nat
  reads : Nat
  sourceBytes : Nat
  payloadBytes : Nat
  reserved : Nat
deriving DecidableEq

/-- The words of a record with their widths, in wire order. -/
def JlEvent.words (e : JlEvent) : List (Nat × Nat) :=
  [(4, e.magic), (4, e.abi), (8, e.instanceId), (8, e.revision), (8, e.run), (8, e.monotonicNs),
    (8, e.sequence), (8, e.outputFailures), (8, e.contextTag), (4, e.kind), (4, e.code),
    (4, e.status), (4, e.flags), (4, e.flowSide), (4, e.scbFlags), (4, e.cachePresent),
    (4, e.seenMask), (4, e.reads), (4, e.sourceBytes), (4, e.payloadBytes), (4, e.reserved)]

/-- The bytes a program emits for a record. -/
def JlEvent.bytes (e : JlEvent) : List UInt8 := Layout.pack e.words

/-- The widths of a record's words. -/
def jlWidths : List Nat := [4, 4, 8, 8, 8, 8, 8, 8, 8, 4, 4, 4, 4, 4, 4, 4, 4, 4, 4, 4, 4]

/-- {lit}`struct.unpack('<II7Q12I', payload)`. -/
def JlEvent.unpack (payload : List UInt8) : JlEvent :=
  let w := Layout.unpack jlWidths payload
  { magic := w.getD 0 0
    abi := w.getD 1 0
    instanceId := w.getD 2 0
    revision := w.getD 3 0
    run := w.getD 4 0
    monotonicNs := w.getD 5 0
    sequence := w.getD 6 0
    outputFailures := w.getD 7 0
    contextTag := w.getD 8 0
    kind := w.getD 9 0
    code := w.getD 10 0
    status := w.getD 11 0
    flags := w.getD 12 0
    flowSide := w.getD 13 0
    scbFlags := w.getD 14 0
    cachePresent := w.getD 15 0
    seenMask := w.getD 16 0
    reads := w.getD 17 0
    sourceBytes := w.getD 18 0
    payloadBytes := w.getD 19 0
    reserved := w.getD 20 0 }

/-- Every field of a record fits its word. -/
def JlEvent.Fits (e : JlEvent) : Prop := Layout.Fits e.words

@[simp]
theorem JlEvent.length_bytes (e : JlEvent) : e.bytes.length = 112 := by
  simp [JlEvent.bytes, JlEvent.words]

/-- A record that fits is unpacked as it was packed. -/
theorem JlEvent.unpack_bytes {e : JlEvent} (h : e.Fits) : JlEvent.unpack e.bytes = e := by
  have hwords : Layout.unpack jlWidths e.bytes = e.words.map Prod.snd := by
    have := Layout.unpack_pack_of_fits h []
    rwa [List.append_nil] at this
  simp only [JlEvent.unpack, hwords]
  rfl

/-- {lit}`STATES`. -/
def boundaryStates : List String :=
  ["unavailable", "observed", "address_only", "unsupported", "read_failed", "disabled", "capacity",
    "overflow", "map_failed", "run_mismatch"]

/-- A decoded record. -/
structure DecodedBoundary where
  event : JlEvent
  statusName : String
  lifecycleValidated : Bool
deriving DecidableEq

/-- {lit}`json_lifecycle_decode.decode`. -/
def jsonLifecycleDecode (payload : List UInt8) : Except String DecodedBoundary :=
  if payload.length ≠ 112 then .error "boundary size"
  else
    let e := JlEvent.unpack payload
    if e.magic ≠ 0x4a4c4244 ∨ e.abi ≠ 1 ∨ ¬(e.kind = 1 ∨ e.kind = 2 ∨ e.kind = 3) ∨
        e.status ≥ boundaryStates.length ∨ e.flags > 15 ∨ e.reserved ≠ 0 ∨ e.flowSide > 2 ∨
        e.scbFlags > 0x3fff ∨ e.cachePresent > 1 ∨ e.seenMask > 15 ∨ e.reads > 4 ∨
        e.sourceBytes > 29 ∨ e.contextTag > 128 then
      .error "boundary fields"
    else if e.kind = 3 ∧ (e.code ≠ 0 ∨ e.flowSide ≠ 0 ∨ e.scbFlags ≠ 0 ∨ e.cachePresent ≠ 0 ∨
        e.reads ≠ 0 ∨ e.sourceBytes ≠ 0 ∨ e.payloadBytes ≠ 0) then
      .error "reset has no qualified source fields"
    else if (e.status = 1 ∨ e.status = 5) ∧ (e.kind = 3 ∨ ¬(e.flowSide = 1 ∨ e.flowSide = 2)) then
      .error "observed storage requires side"
    else .ok {
      event := e
      statusName := boundaryStates.getD e.status ""
      lifecycleValidated := false }

/-! ## The storage of a call -/

/-- What the helpers return for one table: whether it answers at all, whether it takes a new
row, and whether the row is found after it was stored. -/
structure TableOutcome where
  answers : Bool
  stored : Bool
  again : Bool

/-- One call of a program: its kind, the arguments of the function, and what the helpers
return. -/
structure JlCall where
  kind : JlKind
  arg : Fin 5 → UInt64
  clock : UInt64
  config : SnapshotConfig
  mem : ProbeMemory
  state : TableOutcome
  objects : TableOutcome
  emitted : Bool

def jlMagic : Nat := 0x4a4c4244

/-- {lit}`read_field`. -/
def jlReadField (mem : ProbeMemory) (n : Nat) (a : UInt64) : Early JlEvent Nat := fun e =>
  let e := { e with reads := e.reads + 1, sourceBytes := e.sourceBytes + n }
  match readWord mem n a with
  | none => (none, { e with status := 4 })
  | some word => (some word, e)

namespace JlCall

variable (call : JlCall)

/-- The node and the flow are aligned and do not reach the end of memory. -/
def supported : Bool :=
  ¬(call.arg 0 &&& 7 ≠ 0 ∨ call.arg 0 > 0xffffffffffffffff - 160 ∨ call.arg 2 &&& 63 ≠ 0 ∨
    call.arg 2 > 0xffffffffffffffff - 38)

/-- What the storage says: the side of the flow, the flags and the payload, and the cache. -/
def observed (side tail cache : Nat) (e : JlEvent) : JlEvent :=
  { e with
    flowSide := if side = 0x40 then 1 else 2
    scbFlags := tail / 2 ^ 64 % 2 ^ 32 &&& 0x3fff
    cachePresent := if cache = 0 then 0 else 1
    payloadBytes := tail % 2 ^ 32
    status := if tail / 2 ^ 64 % 2 ^ 32 &&& 1 ≠ 0 then 5 else 1 }

/-- The storage of a handler or of the end of a message. -/
def storage : Early JlEvent UInt64 := do
  Early.stopIf (call.arg 0 = 0 ∨ call.arg 2 = 0) id
  Early.modify fun e => { e with status := 3 }
  Early.stopIf (call.supported = false) id
  let header ← jlReadField call.mem 4 (call.arg 0 + 44)
  Early.stopIf (JiFrame.headerOk header = false) id
  Early.stopIf (call.kind = .complete ∧ call.arg 1 ≠ call.arg 0 + 64) id
  let side ← jlReadField call.mem 1 (call.arg 2 + 37)
  Early.stopIf (¬(side &&& 0xc0 = 0x40 ∨ side &&& 0xc0 = 0x80)) id
  let tail ← jlReadField call.mem 16 (call.arg 0 + 144)
  let cache ← jlReadField call.mem 8 (call.arg 0 + 88)
  Early.modify (observed (side &&& 0xc0) tail cache)
  pure (call.arg 0 + 64)

/-- {lit}`context`: the storage that the call is about, and the record with what was read. -/
def context (e : JlEvent) : Option UInt64 × JlEvent :=
  match call.kind with
  | .reset =>
      if call.arg 0 = 0 then (none, { e with status := 0 })
      else (some (call.arg 0), { e with status := 2 })
  | _ =>
      let (key, e) := call.storage e
      (key.filter fun key => key ≠ 0, e)

/-- The code that a call reports. -/
def code : Nat :=
  match call.kind with
  | .handler => (call.arg 1).toNat % 2 ^ 32
  | _ => 0

/-- What a call adds to the marks of its storage. -/
def seen : UInt64 :=
  match call.kind with
  | .handler => if call.code = 57 then 1 else if call.code = 1 ∨ call.code = 5 then 8 else 0
  | .complete => 2
  | .reset => 4

/-- The record of a call before its configuration is read. -/
def blank : JlEvent where
  magic := jlMagic
  abi := 1
  instanceId := 0
  revision := 0
  run := 0
  monotonicNs := call.clock.toNat
  sequence := 0
  outputFailures := 0
  contextTag := 0
  kind := call.kind.code
  code := call.code
  status := 0
  flags := if call.clock = 0 then 8 else 0
  flowSide := 0
  scbFlags := 0
  cachePresent := 0
  seenMask := 0
  reads := 0
  sourceBytes := 0
  payloadBytes := 0
  reserved := 0

/-- The storage address of a call. -/
def address : UInt64 :=
  match call.kind with
  | .reset => call.arg 0
  | _ => call.arg 0 + 64

end JlCall

/-! ## Records that decode -/

/-- The fields that a call sets before it looks at its storage. -/
structure JlEvent.Head (e : JlEvent) : Prop where
  magic : e.magic = jlMagic
  abi : e.abi = 1
  wide : e.instanceId < 2 ^ 64 ∧ e.revision < 2 ^ 64 ∧ e.run < 2 ^ 64 ∧ e.monotonicNs < 2 ^ 64 ∧
    e.sequence < 2 ^ 64 ∧ e.outputFailures < 2 ^ 64
  kind : e.kind = 1 ∨ e.kind = 2 ∨ e.kind = 3
  code : e.code < 2 ^ 32
  noCode : e.kind = 3 → e.code = 0
  flags : e.flags ≤ 15
  reserved : e.reserved = 0

/-- The fields that come from the storage. -/
structure JlEvent.Source (e : JlEvent) : Prop where
  side : e.flowSide ≤ 2
  scbFlags : e.scbFlags ≤ 0x3fff
  cachePresent : e.cachePresent ≤ 1
  reads : e.reads ≤ 4
  sourceBytes : e.sourceBytes ≤ 29
  payload : e.payloadBytes < 2 ^ 32
  noSource : e.kind = 3 → e.flowSide = 0 ∧ e.scbFlags = 0 ∧ e.cachePresent = 0 ∧ e.reads = 0 ∧
    e.sourceBytes = 0 ∧ e.payloadBytes = 0

/-- The status of a record agrees with its other fields. -/
structure JlEvent.Stated (e : JlEvent) : Prop where
  status : e.status ≤ 9
  observed : e.status = 1 ∨ e.status = 5 → e.kind ≠ 3 ∧ (e.flowSide = 1 ∨ e.flowSide = 2)

/-- The bounds of the producers. -/
structure JlEvent.Sound (e : JlEvent) : Prop where
  head : e.Head
  source : e.Source
  stated : e.Stated
  tag : e.contextTag ≤ 128
  seen : e.seenMask ≤ 15

theorem JlEvent.Sound.fits {e : JlEvent} (h : e.Sound) : e.Fits := by
  obtain ⟨h₁, h₂, h₃, h₄, h₅, h₆⟩ := h.head.wide
  have hkind := h.head.kind
  have hflags := h.head.flags
  have hside := h.source.side
  have hscb := h.source.scbFlags
  have hcache := h.source.cachePresent
  have hreads := h.source.reads
  have hbytes := h.source.sourceBytes
  have hstatus := h.stated.status
  have htag := h.tag
  have hseen := h.seen
  simp only [JlEvent.Fits, Layout.Fits, JlEvent.words, List.forall_mem_cons, h.head.magic, h.head.abi,
    h.head.reserved]
  refine ⟨(by decide : jlMagic < 256 ^ 4), (by decide : 1 < 256 ^ 4), h₁, h₂, h₃, h₄, h₅, h₆, ?_, ?_,
    h.head.code, ?_, ?_, ?_, ?_, ?_, ?_, ?_, ?_, h.source.payload, (by decide : 0 < 256 ^ 4), by simp⟩
  all_goals omega

/-- A sound record decodes as itself. -/
theorem JlEvent.Sound.decodes {e : JlEvent} (h : e.Sound) :
    ∃ d, jsonLifecycleDecode e.bytes = .ok d ∧ d.event = e := by
  have hfields : ¬(e.magic ≠ 0x4a4c4244 ∨ e.abi ≠ 1 ∨ ¬(e.kind = 1 ∨ e.kind = 2 ∨ e.kind = 3) ∨
      e.status ≥ boundaryStates.length ∨ e.flags > 15 ∨ e.reserved ≠ 0 ∨ e.flowSide > 2 ∨
      e.scbFlags > 0x3fff ∨ e.cachePresent > 1 ∨ e.seenMask > 15 ∨ e.reads > 4 ∨
      e.sourceBytes > 29 ∨ e.contextTag > 128) := by
    have hmagic : e.magic = 0x4a4c4244 := h.head.magic
    have hlength : boundaryStates.length = 10 := rfl
    have h₁ := h.head.abi
    have h₂ := h.head.kind
    have h₃ := h.head.flags
    have h₄ := h.head.reserved
    have h₅ := h.source.side
    have h₆ := h.source.scbFlags
    have h₇ := h.source.cachePresent
    have h₈ := h.source.reads
    have h₉ := h.source.sourceBytes
    have h₁₀ := h.stated.status
    have h₁₁ := h.tag
    have h₁₂ := h.seen
    omega
  have hreset : ¬(e.kind = 3 ∧ (e.code ≠ 0 ∨ e.flowSide ≠ 0 ∨ e.scbFlags ≠ 0 ∨ e.cachePresent ≠ 0 ∨
      e.reads ≠ 0 ∨ e.sourceBytes ≠ 0 ∨ e.payloadBytes ≠ 0)) := by
    rintro ⟨hkind, hbad⟩
    have hcode := h.head.noCode hkind
    obtain ⟨h₁, h₂, h₃, h₄, h₅, h₆⟩ := h.source.noSource hkind
    omega
  have hobserved : ¬((e.status = 1 ∨ e.status = 5) ∧
      (e.kind = 3 ∨ ¬(e.flowSide = 1 ∨ e.flowSide = 2))) := by
    rintro ⟨hstatus, hbad⟩
    obtain ⟨hkind, hside⟩ := h.stated.observed hstatus
    exact hbad.elim hkind (fun hnone => hnone hside)
  unfold jsonLifecycleDecode
  rw [if_neg (not_not_intro e.length_bytes), JlEvent.unpack_bytes h.fits]
  simp only [if_neg hfields, if_neg hreset, if_neg hobserved]
  exact ⟨_, rfl, rfl⟩

/-! ## What a call reads -/

/-- A record whose storage is being read: so many reads and bytes of it, and no field of it
yet. -/
def JlOpen (b : JlEvent) (reads bytes : Nat) (e : JlEvent) : Prop :=
  ∃ status, status ≤ 4 ∧ status ≠ 1 ∧
    e = { b with reads, sourceBytes := bytes, status }

/-- A record after its storage was read, or could not be read. -/
def JlRead (b e : JlEvent) : Prop := e.Source ∧ e.Stated ∧ e.seenMask = b.seenMask ∧
  e.contextTag = b.contextTag ∧ e.run = b.run ∧ e.kind = b.kind ∧ e.Head

/-- A record before its storage is read. -/
structure JlEvent.Fresh (b : JlEvent) : Prop where
  head : b.Head
  status : b.status = 0
  side : b.flowSide = 0
  scbFlags : b.scbFlags = 0
  cachePresent : b.cachePresent = 0
  reads : b.reads = 0
  sourceBytes : b.sourceBytes = 0
  payload : b.payloadBytes = 0

section Context

variable {call : JlCall} {b e : JlEvent} {reads bytes : Nat}

/-- A record that only got a status. -/
theorem JlEvent.Fresh.read_status {status : Nat} (hb : b.Fresh) (hle : status ≤ 9)
    (hne : status ≠ 1 ∧ status ≠ 5) : JlRead b { b with status } := by
  have hzero : 0 < 2 ^ 32 := by decide
  refine ⟨⟨?_, ?_, ?_, ?_, ?_, ?_, fun _ => ?_⟩, ⟨hle, fun hbad => ?_⟩, rfl, rfl, rfl, rfl,
    { hb.head with }⟩
  · exact hb.side.trans_le (Nat.zero_le 2)
  · exact hb.scbFlags.trans_le (Nat.zero_le _)
  · exact hb.cachePresent.trans_le (Nat.zero_le 1)
  · exact hb.reads.trans_le (Nat.zero_le 4)
  · exact hb.sourceBytes.trans_le (Nat.zero_le 29)
  · exact hb.payload.trans_lt hzero
  · exact ⟨hb.side, hb.scbFlags, hb.cachePresent, hb.reads, hb.sourceBytes, hb.payload⟩
  · exact (hbad.elim hne.1 hne.2).elim

theorem JlOpen.read (h : JlOpen b reads bytes e) (hb : b.Fresh) (hkind : b.kind ≠ 3)
    (hreads : reads ≤ 4) (hbytes : bytes ≤ 29) : JlRead b e := by
  obtain ⟨status, hle, hne, rfl⟩ := h
  obtain ⟨hsource, hstated, -⟩ := hb.read_status (by omega : status ≤ 9) ⟨hne, by omega⟩
  exact ⟨⟨hsource.side, hsource.scbFlags, hsource.cachePresent, hreads, hbytes, hsource.payload,
    fun h => (hkind h).elim⟩, ⟨hstated.status, hstated.observed⟩, rfl, rfl, rfl, rfl,
    { hb.head with }⟩

theorem JlEvent.Fresh.open_status {status : Nat} (hb : b.Fresh) :
    { b with status } = { b with reads := 0, sourceBytes := 0, status } := by
  have hreads := hb.reads
  have hbytes := hb.sourceBytes
  cases b
  simp only at hreads hbytes
  rw [hreads, hbytes]

theorem ends_jlReadField {n : Nat} {a : UInt64} (h : JlOpen b reads bytes e) (hb : b.Fresh)
    (hkind : b.kind ≠ 3) (hreads : reads + 1 ≤ 4) (hbytes : bytes + n ≤ 29) :
    (jlReadField call.mem n a).Ends e (JlRead b) fun _ e' => JlOpen b (reads + 1) (bytes + n) e' := by
  obtain ⟨status, hle, hne, rfl⟩ := h
  unfold Early.Ends jlReadField
  cases hword : readWord call.mem n a with
  | none =>
      have hopen : JlOpen b (reads + 1) (bytes + n) _ := ⟨4, by decide, by decide, rfl⟩
      exact hopen.read hb hkind hreads hbytes
  | some word => exact ⟨status, hle, hne, rfl⟩

/-- A call stops without an observation. -/
theorem ends_stopOpen {c : Prop} [Decidable c] (h : JlOpen b reads bytes e) (hb : b.Fresh)
    (hkind : b.kind ≠ 3) (hreads : reads ≤ 4) (hbytes : bytes ≤ 29) :
    (Early.stopIf c id).Ends e (JlRead b) fun _ e' => e' = e :=
  Early.ends_stopIf (fun _ => h.read hb hkind hreads hbytes) fun _ => rfl

/-- An observation keeps the bounds. -/
theorem read_observed {side tail cache : Nat} (h : JlOpen b reads bytes e) (hb : b.Fresh)
    (hkind : b.kind ≠ 3) (hreads : reads ≤ 4) (hbytes : bytes ≤ 29) :
    JlRead b (JlCall.observed side tail cache e) := by
  obtain ⟨hsource, -, hseen, htag, hrun, hsame, hhead⟩ := h.read hb hkind hreads hbytes
  have hside : (JlCall.observed side tail cache e).flowSide = 1 ∨
      (JlCall.observed side tail cache e).flowSide = 2 := by
    unfold JlCall.observed
    dsimp only
    split
    · exact Or.inl rfl
    · exact Or.inr rfl
  have hne : e.kind ≠ 3 := by
    rw [hsame]
    exact hkind
  refine ⟨⟨?_, ?_, ?_, hsource.reads, hsource.sourceBytes, Nat.mod_lt _ (by decide), fun h => ?_⟩,
    ⟨?_, fun _ => ⟨hne, hside⟩⟩, hseen, htag, hrun, hsame, { hhead with }⟩
  · omega
  · exact Nat.and_le_right
  · change (if cache = 0 then 0 else 1) ≤ 1
    split <;> decide
  · exact (hne h).elim
  · change (if tail / 2 ^ 64 % 2 ^ 32 &&& 1 ≠ 0 then 5 else 1) ≤ 9
    split <;> decide

theorem ends_storage (hb : b.Fresh) (hkind : b.kind ≠ 3) :
    call.storage.Ends b (JlRead b) fun key e' => JlRead b e' ∧ key = call.arg 0 + 64 := by
  have hstart : JlOpen b 0 0 b := by
    refine ⟨0, by decide, by decide, ?_⟩
    rw [← hb.open_status, ← hb.status]
  refine (ends_stopOpen hstart hb hkind (by decide) (by decide)).bind fun _ e₁ h₁ => ?_
  subst h₁
  have hthree : (Early.modify fun e : JlEvent => { e with status := 3 }).Ends e₁ (JlRead e₁)
      fun _ e' => JlOpen e₁ 0 0 e' :=
    Early.ends_modify ⟨3, by decide, by decide, hb.open_status⟩
  refine hthree.bind fun _ e₂ h₂ => ?_
  refine (ends_stopOpen h₂ hb hkind (by decide) (by decide)).bind fun _ e₃ h₃ => ?_
  subst h₃
  refine (ends_jlReadField h₂ hb hkind (by decide) (by decide)).bind fun header e₄ h₄ => ?_
  refine (ends_stopOpen h₄ hb hkind (by decide) (by decide)).bind fun _ e₅ h₅ => ?_
  subst h₅
  refine (ends_stopOpen h₄ hb hkind (by decide) (by decide)).bind fun _ e₆ h₆ => ?_
  subst h₆
  refine (ends_jlReadField h₄ hb hkind (by decide) (by decide)).bind fun side e₇ h₇ => ?_
  refine (ends_stopOpen h₇ hb hkind (by decide) (by decide)).bind fun _ e₈ h₈ => ?_
  subst h₈
  refine (ends_jlReadField h₇ hb hkind (by decide) (by decide)).bind fun tail e₉ h₉ => ?_
  refine (ends_jlReadField h₉ hb hkind (by decide) (by decide)).bind fun cache e₁₀ h₁₀ => ?_
  have hobserved : (Early.modify (JlCall.observed (side &&& 0xc0) tail cache)).Ends e₁₀ (JlRead e₁)
      fun _ e' => JlRead e₁ e' :=
    Early.ends_modify (read_observed h₁₀ hb hkind (by decide) (by decide))
  exact hobserved.bind fun _ e₁₁ h₁₁ => Early.ends_pure ⟨h₁₁, rfl⟩

/-- What a call reads keeps the bounds, and a storage that it finds is the one of the call. -/
theorem JlCall.context_spec (hb : b.Fresh) (hkind : b.kind = call.kind.code) :
    JlRead b (call.context b).2 ∧ ∀ key, (call.context b).1 = some key → key = call.address := by
  have hstorage : b.kind ≠ 3 → call.address = call.arg 0 + 64 →
      JlRead b (call.storage b).2 ∧ ∀ key,
        ((call.storage b).1.filter fun key => key ≠ 0) = some key → key = call.address := by
    intro hne haddress
    have hends : call.storage.Ends b (JlRead b) fun key e' => JlRead b e' ∧ key = call.arg 0 + 64 :=
      ends_storage hb hne
    unfold Early.Ends at hends
    rcases hrun : call.storage b with ⟨found, e'⟩
    rw [hrun] at hends
    cases found with
    | none => exact ⟨hends, fun key hkey => (Option.some_ne_none _ hkey.symm).elim⟩
    | some key' =>
        refine ⟨hends.1, fun key hkey => ?_⟩
        obtain ⟨hsome, -⟩ := Option.filter_eq_some_iff.mp hkey
        rw [← Option.some.inj hsome, haddress]
        exact hends.2
  unfold JlCall.context
  cases hcall : call.kind with
  | reset =>
      have haddress : call.address = call.arg 0 := by simp only [JlCall.address, hcall]
      dsimp only
      split
      · exact ⟨hb.read_status (by decide) (by decide), fun key hkey => nomatch hkey⟩
      · refine ⟨hb.read_status (by decide) (by decide), fun key hkey => ?_⟩
        rw [haddress]
        exact (Option.some.inj hkey).symm
  | handler =>
      have hne : b.kind ≠ 3 := by
        rw [hkind, hcall]
        decide
      exact hstorage hne (by simp only [JlCall.address, hcall])
  | complete =>
      have hne : b.kind ≠ 3 := by
        rw [hkind, hcall]
        decide
      exact hstorage hne (by simp only [JlCall.address, hcall])

end Context

end Metadata
end LiveSurface
