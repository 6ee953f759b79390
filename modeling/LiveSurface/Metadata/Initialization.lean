import LiveSurface.Metadata.Opening
import LiveSurface.Metadata.Tls

/-!
# Initializations

A program runs at the entry of a handler and again at its return.  At the entry it checks
three guards and packs the outcome into the state of the frame; at the return it unpacks the
state, compares the configuration and reports.

Main results:

- Definition {lit}`jsonInitialization`: the record of a frame.
- Theorem {lit}`sound_jsonInitialization`: every record passes the checks of its decoder.
- Theorem {lit}`guarded_of_complete`: a completed initialization passed its guards under one
  configuration.
-/

namespace LiveSurface
namespace Metadata

/-! ## Records -/

/-- The 96-byte record, {lit}`struct ji_event`. -/
structure JiEvent where
  magic : Nat
  abi : Nat
  instanceId : Nat
  revision : Nat
  run : Nat
  invocation : Nat
  monotonicNs : Nat
  sequence : Nat
  outputFailures : Nat
  code : Nat
  status : Nat
  flags : Nat
  flowSide : Nat
  reads : Nat
  sourceBytes : Nat
  guards : Nat
  reserved : Nat
deriving DecidableEq

/-- The words of a record with their widths, in wire order. -/
def JiEvent.words (e : JiEvent) : List (Nat × Nat) :=
  [(4, e.magic), (4, e.abi), (8, e.instanceId), (8, e.revision), (8, e.run), (8, e.invocation),
    (8, e.monotonicNs), (8, e.sequence), (8, e.outputFailures), (4, e.code), (4, e.status),
    (4, e.flags), (4, e.flowSide), (4, e.reads), (4, e.sourceBytes), (4, e.guards), (4, e.reserved)]

/-- The bytes a program emits for a record. -/
def JiEvent.bytes (e : JiEvent) : List UInt8 := Layout.pack e.words

/-- {lit}`struct.Struct("<II7Q8I").unpack`. -/
def JiEvent.unpack (payload : List UInt8) : JiEvent :=
  let w := Layout.unpack [4, 4, 8, 8, 8, 8, 8, 8, 8, 4, 4, 4, 4, 4, 4, 4, 4] payload
  { magic := w.getD 0 0
    abi := w.getD 1 0
    instanceId := w.getD 2 0
    revision := w.getD 3 0
    run := w.getD 4 0
    invocation := w.getD 5 0
    monotonicNs := w.getD 6 0
    sequence := w.getD 7 0
    outputFailures := w.getD 8 0
    code := w.getD 9 0
    status := w.getD 10 0
    flags := w.getD 11 0
    flowSide := w.getD 12 0
    reads := w.getD 13 0
    sourceBytes := w.getD 14 0
    guards := w.getD 15 0
    reserved := w.getD 16 0 }

/-- Every field of a record fits its word. -/
def JiEvent.Fits (e : JiEvent) : Prop := Layout.Fits e.words

@[simp]
theorem JiEvent.length_bytes (e : JiEvent) : e.bytes.length = 96 := by
  simp [JiEvent.bytes, JiEvent.words]

/-- A record that fits is unpacked as it was packed. -/
theorem JiEvent.unpack_bytes {e : JiEvent} (h : e.Fits) : JiEvent.unpack e.bytes = e := by
  have hwords : Layout.unpack [4, 4, 8, 8, 8, 8, 8, 8, 8, 4, 4, 4, 4, 4, 4, 4, 4] e.bytes =
      e.words.map Prod.snd := by
    have := Layout.unpack_pack_of_fits h []
    rwa [List.append_nil] at this
  simp only [JiEvent.unpack, hwords]
  rfl

/-- A decoded record. -/
structure DecodedInitialization where
  event : JiEvent
  initializationCompleted : Bool
  lifecycleValidated : Bool
deriving DecidableEq

/-- {lit}`json_initialization_decode.decode`. -/
def jsonInitializationDecode (data : List UInt8) : Except String DecodedInitialization :=
  if data.length ≠ 96 then .error "initialization record length"
  else
    let value := JiEvent.unpack data
    if value.magic ≠ 0x4A494E49 ∨ value.abi ≠ 1 then .error "initialization record ABI"
    else if value.reserved ≠ 0 ∨ value.status > 6 ∨ value.flags > 15 then
      .error "initialization record fields"
    else if value.reads > 3 ∨ value.sourceBytes > 9 then .error "initialization read budget"
    else if value.guards > 3 ∨ value.flowSide > 2 then .error "initialization guard fields"
    else if value.status = 1 ∧ (value.code ≠ 57 ∨ value.guards ≠ 3 ∨
        ¬(value.flowSide = 1 ∨ value.flowSide = 2) ∨ value.reads ≠ 3 ∨ value.sourceBytes ≠ 9) then
      .error "initialization completion without entry guards"
    else .ok {
      event := value
      initializationCompleted := value.status = 1 ∧ value.flags = 0 ∧ value.outputFailures = 0 ∧
        value.instanceId ≠ 0 ∧ value.revision ≠ 0 ∧ value.run ≠ 0 ∧ value.invocation ≠ 0 ∧
        value.sequence ≠ 0 ∧ value.monotonicNs ≠ 0
      lifecycleValidated := false }

/-! ## The program -/

/-- The outcome of the guards at the entry. -/
structure Guards where
  status : Nat
  side : Nat
  guards : Nat
  reads : Nat
  bytes : Nat
deriving DecidableEq

/-- {lit}`struct ji_capture`. -/
structure JiCapture where
  instanceId : UInt64
  revision : UInt64
  run : UInt64
  evidence : Nat
  counts : Nat

/-- The two rows of a configuration. -/
structure SnapshotConfig where
  head : Option CfgMeta
  row : Option (Fin 4 → UInt64)

/-- The rows of a configuration that is accepted. -/
def SnapshotConfig.accepted (config : SnapshotConfig) : Option (CfgMeta × (Fin 4 → UInt64)) :=
  config.head.bind fun head =>
    (config.row.filter fun row => head.Accepts row).map fun row => (head, row)

/-- One frame: the arguments of the handler, the number of the frame, the configuration and the
memory at the entry, whether the call at the entry completed, and what the helpers return at
the return. -/
structure JiFrame where
  arg : Fin 5 → UInt64
  sequence : UInt64
  entryConfig : SnapshotConfig
  mem : ProbeMemory
  entered : Bool
  outcomes : Outcomes

namespace JiFrame

variable (frame : JiFrame)

/-- The node and the flow are aligned and do not reach the end of memory. -/
def supported : Bool :=
  ¬(frame.arg 0 &&& 7 ≠ 0 ∨ frame.arg 0 > 0xffffffffffffffff - 156 ∨ frame.arg 2 = 0 ∨
    frame.arg 2 &&& 63 ≠ 0 ∨ frame.arg 2 > 0xffffffffffffffff - 38)

/-- The header of an active JSON context. -/
def headerOk (header : Nat) : Bool :=
  ¬(header &&& 0xffff < 96 ∨ header &&& 0xc00000 ≠ 0xc00000 ∨ header &&& 0x2000000 ≠ 0)

/-- The guards at the entry. -/
def entryGuards : Guards :=
  if frame.arg 1 ≠ 57 then ⟨3, 0, 0, 0, 0⟩
  else if frame.arg 0 = 0 then ⟨0, 0, 0, 0, 0⟩
  else if frame.supported = false then ⟨5, 0, 0, 0, 0⟩
  else
    match readWord frame.mem 4 (frame.arg 0 + 44) with
    | none => ⟨4, 0, 0, 1, 4⟩
    | some header =>
        if headerOk header = false then ⟨5, 0, 0, 1, 4⟩
        else
          match readWord frame.mem 4 (frame.arg 0 + 152) with
          | none => ⟨4, 0, 1, 2, 8⟩
          | some flags =>
              if flags &&& 1 ≠ 0 then ⟨2, 0, 1, 2, 8⟩
              else
                match readWord frame.mem 1 (frame.arg 2 + 37) with
                | none => ⟨4, 0, 3, 3, 9⟩
                | some flowFlags =>
                    if flowFlags &&& 0xc0 = 0x40 then ⟨1, 1, 3, 3, 9⟩
                    else if flowFlags &&& 0xc0 = 0x80 then ⟨1, 2, 3, 3, 9⟩
                    else ⟨5, 0, 3, 3, 9⟩

/-- The state of the frame after the entry. -/
def capture : JiCapture :=
  match frame.entryConfig.accepted with
  | some (head, row) =>
      if frame.entered then
        { instanceId := head.instanceId
          revision := head.revision
          run := row 0
          evidence := frame.entryGuards.status ||| frame.entryGuards.side <<< 8 |||
            frame.entryGuards.guards <<< 16
          counts := frame.entryGuards.reads <<< 16 ||| frame.entryGuards.bytes }
      else ⟨0, 0, 0, 0, 0⟩
  | none => ⟨0, 0, 0, 0, 0⟩

/-- The configuration at the return. -/
def returnConfig : SnapshotConfig where
  head := frame.outcomes.head
  row := frame.outcomes.policy

/-- The configuration at the return is the one that the frame captured. -/
def unchanged : Bool :=
  match frame.returnConfig.accepted with
  | some (head, row) => head.instanceId = frame.capture.instanceId ∧
      head.revision = frame.capture.revision ∧ row 0 = frame.capture.run
  | none => false

def jiMagic : Nat := 0x4a494e49

/-- A record of which nothing was captured. -/
def blank : JiEvent where
  magic := jiMagic
  abi := 1
  instanceId := 0
  revision := 0
  run := 0
  invocation := frame.sequence.toNat
  monotonicNs := frame.outcomes.clock.toNat
  sequence := 0
  outputFailures := 0
  code := (frame.arg 1).toNat % 2 ^ 32
  status := 0
  flags := frame.outcomes.clockFlags
  flowSide := 0
  reads := 0
  sourceBytes := 0
  guards := 0
  reserved := 0

/-- The record with what the frame captured. -/
def unpacked : JiEvent :=
  { frame.blank with
    instanceId := frame.capture.instanceId.toNat
    revision := frame.capture.revision.toNat
    run := frame.capture.run.toNat
    status := frame.capture.evidence &&& 0xff
    flowSide := frame.capture.evidence >>> 8 &&& 3
    guards := frame.capture.evidence >>> 16
    reads := frame.capture.counts >>> 16
    sourceBytes := frame.capture.counts &&& 0xffff }

end JiFrame

/-- {lit}`json_initialization` at the return: the record of a frame. -/
def jsonInitialization (frame : JiFrame) : JiEvent :=
  if frame.entered = false then { frame.blank with flags := frame.blank.flags ||| 1 }
  else if frame.unchanged = false then
    { frame.unpacked with status := 6, flags := frame.blank.flags ||| 2 }
  else
    match frame.outcomes.counters frame.capture.instanceId with
    | none => { frame.unpacked with flags := frame.blank.flags ||| 4 }
    | some s =>
        if s.calls = 0xffffffffffffffff then
          { frame.unpacked with flags := frame.blank.flags ||| 4 }
        else
          { frame.unpacked with
            sequence := (s.calls + 1).toNat
            outputFailures := s.failures.toNat }

/-! ## Every record decodes -/

/-- The outcomes of the guards. -/
def guardOutcomes : List Guards :=
  [⟨3, 0, 0, 0, 0⟩, ⟨0, 0, 0, 0, 0⟩, ⟨5, 0, 0, 0, 0⟩, ⟨4, 0, 0, 1, 4⟩, ⟨5, 0, 0, 1, 4⟩,
    ⟨4, 0, 1, 2, 8⟩, ⟨2, 0, 1, 2, 8⟩, ⟨4, 0, 3, 3, 9⟩, ⟨1, 1, 3, 3, 9⟩, ⟨1, 2, 3, 3, 9⟩,
    ⟨5, 0, 3, 3, 9⟩]

/-- The guards that a completed entry passed. -/
structure JiFrame.Guarded (frame : JiFrame) : Prop where
  code : frame.arg 1 = 57
  header : ∃ header, readWord frame.mem 4 (frame.arg 0 + 44) = some header ∧
    JiFrame.headerOk header = true
  flags : ∃ flags, readWord frame.mem 4 (frame.arg 0 + 152) = some flags ∧ flags &&& 1 = 0
  side : ∃ flowFlags, readWord frame.mem 1 (frame.arg 2 + 37) = some flowFlags ∧
    (flowFlags &&& 0xc0 = 0x40 ∨ flowFlags &&& 0xc0 = 0x80)

section Frame

variable (frame : JiFrame)

/-- The guards have one of the outcomes, and end with status one only when all passed. -/
theorem JiFrame.entryGuards_mem : frame.entryGuards ∈ guardOutcomes ∧
    (frame.entryGuards.status = 1 → frame.Guarded) := by
  unfold JiFrame.entryGuards
  split
  · exact ⟨by decide, fun h => absurd h (by decide)⟩
  rename_i hcode
  split
  · exact ⟨by decide, fun h => absurd h (by decide)⟩
  split
  · exact ⟨by decide, fun h => absurd h (by decide)⟩
  split
  · exact ⟨by decide, fun h => absurd h (by decide)⟩
  rename_i header hheader
  split
  · exact ⟨by decide, fun h => absurd h (by decide)⟩
  rename_i hok
  split
  · exact ⟨by decide, fun h => absurd h (by decide)⟩
  rename_i flags hflags
  split
  · exact ⟨by decide, fun h => absurd h (by decide)⟩
  rename_i hclear
  split
  · exact ⟨by decide, fun h => absurd h (by decide)⟩
  rename_i flowFlags hside
  have hguarded : flowFlags &&& 0xc0 = 0x40 ∨ flowFlags &&& 0xc0 = 0x80 → frame.Guarded :=
    fun h => ⟨not_not.mp hcode, ⟨header, hheader, by simpa using hok⟩,
      ⟨flags, hflags, not_not.mp hclear⟩, ⟨flowFlags, hside, h⟩⟩
  split
  · rename_i hclient
    exact ⟨by decide, fun _ => hguarded (Or.inl hclient)⟩
  split
  · rename_i hserver
    exact ⟨by decide, fun _ => hguarded (Or.inr hserver)⟩
  · exact ⟨by decide, fun h => absurd h (by decide)⟩

/-- What a capture says of the guards. -/
def Guards.packed (g : Guards) : Guards where
  status := (g.status ||| g.side <<< 8 ||| g.guards <<< 16) &&& 0xff
  side := (g.status ||| g.side <<< 8 ||| g.guards <<< 16) >>> 8 &&& 3
  guards := (g.status ||| g.side <<< 8 ||| g.guards <<< 16) >>> 16
  reads := (g.reads <<< 16 ||| g.bytes) >>> 16
  bytes := (g.reads <<< 16 ||| g.bytes) &&& 0xffff

/-- The outcome of the guards survives its packing. -/
theorem packed_of_mem {g : Guards} (h : g ∈ guardOutcomes) : g.packed = g := by
  revert g
  decide

/-- The checks of the decoder. -/
structure JiEvent.Sound (e : JiEvent) : Prop where
  magic : e.magic = JiFrame.jiMagic
  abi : e.abi = 1
  reserved : e.reserved = 0
  wide : e.instanceId < 2 ^ 64 ∧ e.revision < 2 ^ 64 ∧ e.run < 2 ^ 64 ∧ e.invocation < 2 ^ 64 ∧
    e.monotonicNs < 2 ^ 64 ∧ e.sequence < 2 ^ 64 ∧ e.outputFailures < 2 ^ 64
  code : e.code < 2 ^ 32
  status : e.status ≤ 6
  flags : e.flags ≤ 15
  side : e.flowSide ≤ 2
  reads : e.reads ≤ 3
  sourceBytes : e.sourceBytes ≤ 9
  guards : e.guards ≤ 3
  complete : e.status = 1 → e.code = 57 ∧ e.guards = 3 ∧ (e.flowSide = 1 ∨ e.flowSide = 2) ∧
    e.reads = 3 ∧ e.sourceBytes = 9

theorem JiEvent.Sound.fits {e : JiEvent} (h : e.Sound) : e.Fits := by
  obtain ⟨h₁, h₂, h₃, h₄, h₅, h₆, h₇⟩ := h.wide
  have hstatus := h.status
  have hflags := h.flags
  have hside := h.side
  have hreads := h.reads
  have hbytes := h.sourceBytes
  have hguards := h.guards
  simp only [JiEvent.Fits, Layout.Fits, JiEvent.words, List.forall_mem_cons, h.magic, h.abi,
    h.reserved]
  refine ⟨(by decide : JiFrame.jiMagic < 256 ^ 4), (by decide : 1 < 256 ^ 4), h₁, h₂, h₃, h₄, h₅,
    h₆, h₇, h.code, ?_, ?_, ?_, ?_, ?_, ?_, (by decide : 0 < 256 ^ 4), by simp⟩
  all_goals omega

/-- A sound record decodes as itself. -/
theorem JiEvent.Sound.decodes {e : JiEvent} (h : e.Sound) :
    ∃ d, jsonInitializationDecode e.bytes = .ok d ∧ d.event = e ∧
      (d.initializationCompleted = true → e.status = 1 ∧ e.flags = 0) := by
  have hfields : ¬(e.reserved ≠ 0 ∨ e.status > 6 ∨ e.flags > 15) := by
    have h₁ := h.reserved
    have h₂ := h.status
    have h₃ := h.flags
    omega
  have hbudget : ¬(e.reads > 3 ∨ e.sourceBytes > 9) := by
    have h₁ := h.reads
    have h₂ := h.sourceBytes
    omega
  have hguards : ¬(e.guards > 3 ∨ e.flowSide > 2) := by
    have h₁ := h.guards
    have h₂ := h.side
    omega
  have habi : ¬(e.magic ≠ 0x4A494E49 ∨ e.abi ≠ 1) := by
    rintro (hbad | hbad)
    · exact hbad h.magic
    · exact hbad h.abi
  have hcomplete : ¬(e.status = 1 ∧ (e.code ≠ 57 ∨ e.guards ≠ 3 ∨
      ¬(e.flowSide = 1 ∨ e.flowSide = 2) ∨ e.reads ≠ 3 ∨ e.sourceBytes ≠ 9)) := by
    rintro ⟨hone, hbad⟩
    obtain ⟨h₁, h₂, h₃, h₄, h₅⟩ := h.complete hone
    omega
  unfold jsonInitializationDecode
  rw [if_neg (not_not_intro e.length_bytes), JiEvent.unpack_bytes h.fits]
  simp only [if_neg habi, if_neg hfields, if_neg hbudget, if_neg hguards, if_neg hcomplete]
  refine ⟨_, rfl, rfl, fun hdone => ?_⟩
  simp only [decide_eq_true_eq] at hdone
  exact ⟨hdone.1, hdone.2.1⟩

/-- The configuration that a frame captured at its entry. -/
def JiFrame.Captured : Prop :=
  ∃ head row, frame.entryConfig.accepted = some (head, row) ∧
    frame.capture.instanceId = head.instanceId ∧ frame.capture.revision = head.revision ∧
    frame.capture.run = row 0

/-- What a frame captured: an outcome of the guards, under the configuration of its entry. -/
theorem JiFrame.unpacked_guards : ∃ g ∈ guardOutcomes, frame.unpacked.status = g.status ∧
    frame.unpacked.flowSide = g.side ∧ frame.unpacked.guards = g.guards ∧
    frame.unpacked.reads = g.reads ∧ frame.unpacked.sourceBytes = g.bytes ∧
    (g.status = 1 → frame.Guarded ∧ frame.Captured) := by
  have hempty : frame.capture = ⟨0, 0, 0, 0, 0⟩ → ∃ g ∈ guardOutcomes,
      frame.unpacked.status = g.status ∧ frame.unpacked.flowSide = g.side ∧
      frame.unpacked.guards = g.guards ∧ frame.unpacked.reads = g.reads ∧
      frame.unpacked.sourceBytes = g.bytes ∧ (g.status = 1 → frame.Guarded ∧ frame.Captured) := by
    intro hcapture
    refine ⟨⟨0, 0, 0, 0, 0⟩, by decide, ?_, ?_, ?_, ?_, ?_, fun h => absurd h (by decide)⟩
    all_goals
      simp only [JiFrame.unpacked, hcapture]
      decide
  cases hconfig : frame.entryConfig.accepted with
  | none => exact hempty (by simp only [JiFrame.capture, hconfig])
  | some rows =>
      obtain ⟨head, row⟩ := rows
      cases hentered : frame.entered with
      | false =>
          refine hempty ?_
          simp only [JiFrame.capture, hconfig, hentered, Bool.false_eq_true, if_false]
      | true =>
          obtain ⟨hmem, hguarded⟩ := frame.entryGuards_mem
          have hpacked := packed_of_mem hmem
          have hcapture : frame.capture = {
              instanceId := head.instanceId
              revision := head.revision
              run := row 0
              evidence := frame.entryGuards.status ||| frame.entryGuards.side <<< 8 |||
                frame.entryGuards.guards <<< 16
              counts := frame.entryGuards.reads <<< 16 ||| frame.entryGuards.bytes } := by
            simp only [JiFrame.capture, hconfig, hentered, if_true]
          refine ⟨frame.entryGuards, hmem, ?_, ?_, ?_, ?_, ?_, fun hone => ⟨hguarded hone, ?_⟩⟩
          · rw [JiFrame.unpacked, hcapture]
            exact congrArg Guards.status hpacked
          · rw [JiFrame.unpacked, hcapture]
            exact congrArg Guards.side hpacked
          · rw [JiFrame.unpacked, hcapture]
            exact congrArg Guards.guards hpacked
          · rw [JiFrame.unpacked, hcapture]
            exact congrArg Guards.reads hpacked
          · rw [JiFrame.unpacked, hcapture]
            exact congrArg Guards.bytes hpacked
          · refine ⟨head, row, hconfig, ?_⟩
            rw [hcapture]
            exact ⟨rfl, rfl, rfl⟩

/-- The bounds of the guards' outcomes. -/
theorem guardOutcomes_bounds {g : Guards} (h : g ∈ guardOutcomes) : g.status ≤ 5 ∧ g.side ≤ 2 ∧
    g.guards ≤ 3 ∧ g.reads ≤ 3 ∧ g.bytes ≤ 9 ∧
    (g.status = 1 → g.guards = 3 ∧ (g.side = 1 ∨ g.side = 2) ∧ g.reads = 3 ∧ g.bytes = 9) := by
  revert g
  decide

theorem JiFrame.flags_le {n : Nat} (h : n = 0 ∨ n = 1 ∨ n = 2 ∨ n = 4) :
    frame.blank.flags ||| n ≤ 15 := by
  have hclock : frame.blank.flags = 0 ∨ frame.blank.flags = 8 := by
    change frame.outcomes.clockFlags = 0 ∨ frame.outcomes.clockFlags = 8
    unfold Outcomes.clockFlags
    split
    · exact Or.inr rfl
    · exact Or.inl rfl
  rcases hclock with hc | hc <;> rcases h with h | h | h | h <;> rw [hc, h] <;> decide

/-- The record of a frame, with what its return adds. -/
theorem JiFrame.sound_unpacked {status flags : Nat} {sequence failures : UInt64}
    (hstatus : status = frame.unpacked.status ∨ status = 6) (hflags : flags ≤ 15) :
    ({ frame.unpacked with
      status, flags
      sequence := sequence.toNat
      outputFailures := failures.toNat } : JiEvent).Sound := by
  obtain ⟨g, hmem, hs, hside, hguards, hreads, hbytes, hone⟩ := frame.unpacked_guards
  obtain ⟨h₁, h₂, h₃, h₄, h₅, h₆⟩ := guardOutcomes_bounds hmem
  refine ⟨rfl, rfl, rfl, ⟨UInt64.toNat_lt _, UInt64.toNat_lt _, UInt64.toNat_lt _,
    UInt64.toNat_lt _, UInt64.toNat_lt _, UInt64.toNat_lt _, UInt64.toNat_lt _⟩,
    Nat.mod_lt _ (by decide), ?_, hflags, ?_, ?_, ?_, ?_, fun hcomplete => ?_⟩
  · change status ≤ 6
    omega
  · exact hside.trans_le h₂
  · exact hreads.trans_le h₄
  · exact hbytes.trans_le h₅
  · exact hguards.trans_le h₃
  · have hcomplete : status = 1 := hcomplete
    have hstatus : g.status = 1 := by omega
    obtain ⟨hg, hsi, hr, hb⟩ := h₆ hstatus
    have hcode : frame.unpacked.code = 57 := by
      change (frame.arg 1).toNat % 2 ^ 32 = 57
      rw [(hone hstatus).1.code]
      rfl
    refine ⟨hcode, hguards.trans hg, ?_, hreads.trans hr, hbytes.trans hb⟩
    change frame.unpacked.flowSide = 1 ∨ frame.unpacked.flowSide = 2
    rw [hside]
    exact hsi

/-- Every record is sound. -/
theorem sound_jsonInitialization : (jsonInitialization frame).Sound := by
  unfold jsonInitialization
  split
  · have hzero : 0 < 2 ^ 64 := by decide
    have hstatus : 0 ≠ 1 := by decide
    exact ⟨rfl, rfl, rfl, ⟨hzero, hzero, hzero, UInt64.toNat_lt _, UInt64.toNat_lt _, hzero, hzero⟩,
      Nat.mod_lt _ (by decide), Nat.zero_le 6, frame.flags_le (by decide), Nat.zero_le 2,
      Nat.zero_le 3, Nat.zero_le 9, Nat.zero_le 3, fun h => (hstatus h).elim⟩
  split
  · exact @JiFrame.sound_unpacked frame 6 _ 0 0 (Or.inr rfl) (frame.flags_le (by decide))
  split
  · exact @JiFrame.sound_unpacked frame _ _ 0 0 (Or.inl rfl) (frame.flags_le (by decide))
  split
  · exact @JiFrame.sound_unpacked frame _ _ 0 0 (Or.inl rfl) (frame.flags_le (by decide))
  · have hflags := frame.flags_le (Or.inl rfl)
    rw [Nat.or_zero] at hflags
    exact frame.sound_unpacked (Or.inl rfl) hflags

/-- A record with status one and no flags comes from a frame that passed its guards, and the
configuration at its return is the one at its entry. -/
theorem guarded_of_complete (hstatus : (jsonInitialization frame).status = 1)
    (hflags : (jsonInitialization frame).flags = 0) : frame.Guarded ∧ ∃ head row head' row',
      frame.entryConfig.accepted = some (head, row) ∧
      frame.returnConfig.accepted = some (head', row') ∧ head'.instanceId = head.instanceId ∧
      head'.revision = head.revision ∧ row' 0 = row 0 := by
  have hor : ∀ {a b : Nat}, a ||| b = 0 → b = 0 := fun h => (Nat.or_eq_zero_iff.mp h).2
  unfold jsonInitialization at hstatus hflags
  by_cases hentered : frame.entered = false
  · rw [if_pos hentered] at hflags
    exact absurd (hor hflags) (by decide)
  rw [if_neg hentered] at hstatus hflags
  by_cases hunchanged : frame.unchanged = false
  · rw [if_pos hunchanged] at hflags
    exact absurd (hor hflags) (by decide)
  rw [if_neg hunchanged] at hstatus
  have hone : frame.unpacked.status = 1 := by
    split at hstatus
    · exact hstatus
    · split at hstatus
      · exact hstatus
      · exact hstatus
  obtain ⟨g, hmem, hs, -, -, -, -, hguarded⟩ := frame.unpacked_guards
  obtain ⟨hguarded, head, row, hconfig, hinstance, hrevision, hrun⟩ := hguarded (hs.symm.trans hone)
  refine ⟨hguarded, head, row, ?_⟩
  have hunchanged : frame.unchanged = true := by simpa using hunchanged
  unfold JiFrame.unchanged at hunchanged
  cases hreturn : frame.returnConfig.accepted with
  | none =>
      rw [hreturn] at hunchanged
      exact (Bool.false_ne_true hunchanged).elim
  | some rows =>
      obtain ⟨head', row'⟩ := rows
      simp only [hreturn, decide_eq_true_eq] at hunchanged
      obtain ⟨h₁, h₂, h₃⟩ := hunchanged
      exact ⟨head', row', hconfig, rfl, h₁.trans hinstance, h₂.trans hrevision, h₃.trans hrun⟩

end Frame

end Metadata
end LiveSurface
