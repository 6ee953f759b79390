import LiveSurface.Metadata.Frames
import LiveSurface.Journal.Store

/-!
# Activity observations

The exporter projects each event of a replay page to one observation.  It decodes
the record the event holds, takes the exchange frame off it, and keeps the cursor.

The text of a JSON string, {lit}`bytes.fromhex`, {lit}`int`, the calendar and the
hash of a key come from Python; {lit}`Runtime` stands for them.  Keys that have
the same value in every observation are left out.

Main results:

- Theorem {lit}`projectEvent_activity`: an observation of an activity holds a
  record without flags whose counters are positive.
- Theorem {lit}`projectPage_events`: a page is projected event by event.
-/

namespace LiveSurface
namespace Activity

open Collector Metadata

/-- What the exporter and the combiner take from Python. -/
structure Runtime where
  /-- {lit}`bytes.fromhex`, with the text of the {lit}`ValueError` -/
  fromhex : String → Except String (List UInt8)
  /-- {lit}`json.loads('"' + value.decode("utf-8") + '"')`; {lit}`none` when it raises -/
  jsonString : List UInt8 → Option String
  /-- {lit}`int(text)`; {lit}`none` when it raises -/
  int : String → Option Int
  /-- the UTC date and time of a number of seconds -/
  strftime : Nat → String
  /-- {lit}`hashlib.sha256(json.dumps(key)).hexdigest()`, by the key's parts -/
  digest : String → Int → Nat → Nat → Nat → String

/-! ## Records -/

/-- The names of the record formats. -/
inductive Observation
  | method
  | operationTarget
  | messageId
  | reply
  | httpResponse
deriving DecidableEq

/-- The side of its flow that an identifier record names. -/
structure FlowSide where
  side : Nat
  sideName : Option String
  status : Nat
  statusName : String
deriving DecidableEq

/-- A decoded record. -/
inductive Record
  | method (d : Decoded)
  | operationTarget (d : Decoded)
  | messageId (d : Decoded) (flow : Option FlowSide)
  | reply (d : DecodedReply)
  | httpResponse (d : DecodedResponse)
deriving DecidableEq

namespace Record

def observation : Record → Observation
  | method _ => .method
  | operationTarget _ => .operationTarget
  | messageId _ _ => .messageId
  | reply _ => .reply
  | httpResponse _ => .httpResponse

def instanceId : Record → Nat
  | method d | operationTarget d | messageId d _ => d.event.instanceId
  | reply d => d.event.instanceId
  | httpResponse d => d.event.instanceId

def revision : Record → Nat
  | method d | operationTarget d | messageId d _ => d.event.revision
  | reply d => d.event.revision
  | httpResponse d => d.event.revision

def run : Record → Nat
  | method d | operationTarget d | messageId d _ => d.event.run
  | reply d => d.event.run
  | httpResponse d => d.event.run

def monotonicNs : Record → Nat
  | method d | operationTarget d | messageId d _ => d.event.monotonicNs
  | reply d => d.event.monotonicNs
  | httpResponse d => d.event.monotonicNs

def sequence : Record → Nat
  | method d | operationTarget d | messageId d _ => d.event.sequence
  | reply d => d.event.sequence
  | httpResponse d => d.event.sequence

def outputFailures : Record → Nat
  | method d | operationTarget d | messageId d _ => d.event.outputFailures
  | reply d => d.event.outputFailures
  | httpResponse d => d.event.outputFailures

def flags : Record → Nat
  | method d | operationTarget d | messageId d _ => d.event.flags
  | reply d => d.event.flags
  | httpResponse d => d.event.flags

/-- {lit}`record["code"]` of an HTTP record. -/
def code : Record → Option Nat
  | httpResponse d => some d.event.code
  | _ => none

/-- {lit}`record.get("flow_status")` and {lit}`record.get("flow_side")`. -/
def flow : Record → Option FlowSide
  | messageId _ flow => flow
  | _ => none

end Record

/-- {lit}`DECODERS`. -/
def decoders (magic : Nat) : Option (List UInt8 → Except String Record) :=
  if magic = 0x4A4D4554 then some fun payload => (methodDecode payload).map .method
  else if magic = 0x544D4554 then some fun payload => (tokenMethodDecode payload).map .method
  else if magic = 0x4F544754 then
    some fun payload => (operationTargetDecode payload).map .operationTarget
  else if magic = 0x52504C59 then some fun payload => (replyMetadataDecode payload).map .reply
  else if magic = 0x5253504D then
    some fun payload => (responseMetadataDecode payload).map .httpResponse
  else if magic = 0x4D534749 then
    some fun payload => (messageIdDecode payload).map fun d => .messageId d none
  else if magic = 0x4944464C then
    some fun payload => (idFlowDecode payload).map fun d =>
      .messageId d.id (some {
        side := d.flowSide
        sideName := d.flowSideName
        status := d.flowStatus
        statusName := d.flowStatusName })
  else none

/-! ## Fields -/

/-- A value with the state it was extracted in. -/
structure ValueField where
  status : String
  rawHex : String
  representation : String
  originalLength : Option Nat
  value : Option String
  /-- whether {lit}`text_error` is set -/
  textError : Bool
  /-- {lit}`kind`, where the field has one -/
  kind : Option (Option String)
deriving DecidableEq

/-- A state, and a value when the state is complete. -/
structure StateValue (α : Type) where
  status : String
  value : Option α
deriving DecidableEq

/-- The activity an observation names. -/
structure ActivityFields where
  method : Option ValueField
  target : Option ValueField
  messageId : Option ValueField
  flowSide : Option (StateValue (Option String))
  clientTls : Option ClientTls

/-- The outcome an observation reports. -/
structure Outcome where
  status : Option String
  resultPresent : Option Bool
  errorPresent : Option Bool
  errorCode : Option (StateValue Int)
  toolError : Option (StateValue Bool)
  httpStatus : Option (StateValue Nat)
  localTransferComplete : Option (StateValue Bool)

def ActivityFields.empty : ActivityFields where
  method := none
  target := none
  messageId := none
  flowSide := none
  clientTls := none

def Outcome.empty : Outcome where
  status := none
  resultPresent := none
  errorPresent := none
  errorCode := none
  toolError := none
  httpStatus := none
  localTransferComplete := none

/-- {lit}`string_field`. -/
def stringField (rt : Runtime) (record : Decoded) : ValueField :=
  let value := if record.event.status = 1 then
    (rt.fromhex record.valueHex).toOption.bind rt.jsonString else none
  { status := record.statusName
    rawHex := record.valueHex
    representation := "json_string_escaped_bytes"
    originalLength := some record.event.originalLength
    value
    textError := record.event.status = 1 ∧ value = none
    kind := none }

/-- {lit}`bytes.decode("ascii")`. -/
def decodeAscii (bs : List UInt8) : Except String String :=
  if bs.all fun b => b < 128 then .ok (String.ofList (bs.map fun b => Char.ofNat b.toNat))
  else .error "ordinal not in range(128)"

/-- The identifier of a message. -/
def messageIdField (rt : Runtime) (record : Decoded) : Except String ValueField :=
  if record.event.getterResult = 1 then
    .ok { stringField rt record with kind := some record.kindName }
  else do
    let value ←
      if record.event.status = 1 then
        (do let bytes ← rt.fromhex record.valueHex
            let text ← decodeAscii bytes
            pure (some text))
      else .ok none
    .ok {
      status := record.statusName
      rawHex := record.valueHex
      representation := "json_token_bytes"
      originalLength := none
      value
      textError := false
      kind := some record.kindName }

/-- A state, with the value it is complete for. -/
def stateValue {α : Type} (state : Nat) (name : String) (value : α) : StateValue α where
  status := name
  value := if state = 1 then some value else none

/-- {lit}`fields`. -/
def fields (rt : Runtime) : Record → Except String (ActivityFields × Outcome)
  | .method d => .ok ({ ActivityFields.empty with method := some (stringField rt d) }, .empty)
  | .operationTarget d =>
      .ok ({ ActivityFields.empty with
        target := some { stringField rt d with kind := some d.kindName } }, .empty)
  | .messageId d flow => do
      let value ← messageIdField rt d
      .ok ({ ActivityFields.empty with
        messageId := some value
        flowSide := flow.map fun f => { status := f.statusName, value := some f.sideName } }, .empty)
  | .reply d =>
      let outcome := { Outcome.empty with status := some d.statusName }
      .ok (.empty,
        if d.event.status = 1 then
          { outcome with
            resultPresent := some (d.event.resultPresent ≠ 0)
            errorPresent := some (d.event.errorPresent ≠ 0)
            errorCode := some (stateValue d.event.codeState d.codeStateName d.event.errorCode)
            toolError := some
              (stateValue d.event.toolErrorState d.toolErrorStateName (d.event.toolError ≠ 0)) }
        else outcome)
  | .httpResponse d =>
      .ok (
        { ActivityFields.empty with
          clientTls := d.clientTls.filter fun tls => tls.mode ≠ "not_applicable" },
        { Outcome.empty with
          httpStatus := some
            (stateValue d.event.httpStatusState d.httpStatusStateName d.event.httpStatus)
          localTransferComplete := some (stateValue d.event.completionState d.completionStateName
            (d.event.transferComplete ≠ 0)) })

/-! ## Events -/

/-- {lit}`event.get("raw", {})`. -/
inductive RawValue
  | object (fields : Object)
  | other (value : Scalar)

/-- What the exporter reads of an event of a replay page. -/
structure StoredEvent where
  type : Option Scalar
  sourceId : Option Scalar
  eventId : Option Scalar
  source : Option Scalar
  raw : Option RawValue

/-- {lit}`event_type`, without its prefix {lit}`agent.`. -/
inductive EventType
  | activity
  | observation
  | sourceBoundary
  | observationGap
  | discard
  | ringHealth
deriving DecidableEq

/-- {lit}`evidence["status"]`. -/
inductive Status
  | diagnostic
  | unsupportedSchema
  | malformedRecord
  | decoded
  | unqualifiedRecord
  | invalidFrameBinding
  | duplicateOrRegressedSequence
deriving DecidableEq

/-- What an observation rests on. -/
structure Evidence where
  sourceId : Option Scalar
  eventId : Option Scalar
  source : Option Scalar
  diagnostic : Option StoredEvent
  raw : Option RawValue
  group : Option GroupFrame
  status : Status
  error : Option String
  record : Option Record
  outputLossReported : Option Bool

/-- An observation. -/
structure Event where
  eventType : EventType
  /-- {lit}`correlation["reason"]`; the status is {lit}`unknown` -/
  correlationReason : Option String
  activity : ActivityFields
  reportedOutcome : Outcome
  evidence : Evidence

/-- {lit}`DIAGNOSTICS`. -/
def diagnostics : Option Scalar → Option EventType
  | some (.str "source_boundary") => some .sourceBoundary
  | some (.str "observation_gap") => some .observationGap
  | some (.str "discard") => some .discard
  | some (.str "ring_health") => some .ringHealth
  | _ => none

/-- Whether a value can be looked up in a set: lists and objects cannot. -/
def hashable : Option Scalar → Bool
  | some (.other text) => text = "null"
  | _ => true

/-- {lit}`raw.get(key)`. -/
def RawValue.get? : RawValue → String → Option Scalar
  | .object fields, key => Object.get? fields key
  | .other _, _ => none

/-- The bytes of a record event: {lit}`raw["data"]`, checked and decoded. -/
def payloadOf (rt : Runtime) : RawValue → Except String (List UInt8)
  | .object fields =>
      match Object.get? fields "data" with
      | some (.str data) =>
          if data.length > 1024 then .error "invalid or oversize record" else rt.fromhex data
      | _ => .error "invalid or oversize record"
  | .other _ => .error "invalid or oversize record"

/-- The four bytes that name a format. -/
def magicOf (payload : List UInt8) : Nat := ofLittleEndian (payload.take 4)

/-- The frame, if there is one, and the record after it. -/
def ungroup (payload : List UInt8) : Except String (Option GroupFrame × List UInt8) :=
  if magicOf payload = GROUP_MAGIC then
    (unwrap payload).map fun (frame, record) => (some frame, record)
  else .ok (none, payload)

/-- The evidence of an event before its record is looked at. -/
def evidenceOf (event : StoredEvent) (status : Status) : Evidence where
  sourceId := event.sourceId
  eventId := event.eventId
  source := event.source
  diagnostic := none
  raw := none
  group := none
  status := status
  error := none
  record := none
  outputLossReported := none

/-- An observation without an activity. -/
def observationOf (evidence : Evidence) : Event where
  eventType := .observation
  correlationReason := none
  activity := .empty
  reportedOutcome := .empty
  evidence := evidence

/-- What a decoded record becomes. -/
def projectRecord (rt : Runtime) (evidence : Evidence) (record : Record) : Except String Event :=
  let evidence := { evidence with
    status := .decoded
    record := some record
    outputLossReported := some (record.outputFailures ≠ 0) }
  if record.flags ≠ 0 ∨ record.instanceId = 0 ∨ record.revision = 0 ∨ record.run = 0 ∨
      record.sequence = 0 then
    .ok (observationOf { evidence with status := .unqualifiedRecord })
  else do
    let (activity, outcome) ← fields rt record
    .ok {
      eventType := .activity
      correlationReason := none
      activity
      reportedOutcome := outcome
      evidence }

/-- {lit}`project_event`. -/
def projectEvent (rt : Runtime) (event : StoredEvent) : Except String Event :=
  if event.type ≠ some (.str "record") then
    if hashable event.type then
      .ok { observationOf { evidenceOf event .diagnostic with diagnostic := some event } with
        eventType := (diagnostics event.type).getD .observation }
    else .error "unhashable type"
  else
    let raw := event.raw.getD (.object [])
    let evidence := { evidenceOf event .malformedRecord with raw := some raw }
    match payloadOf rt raw with
    | .error text => .ok (observationOf { evidence with error := some text })
    | .ok payload =>
        match ungroup payload with
        | .error text => .ok (observationOf { evidence with error := some text })
        | .ok (group, payload) =>
            let evidence := { evidence with group := group }
            match decoders (magicOf payload) with
            | none => .ok (observationOf { evidence with status := .unsupportedSchema })
            | some decode =>
                if ¬((raw.get? "schema").any (Scalar.equals 100)) then
                  .ok (observationOf { evidence with status := .unsupportedSchema })
                else
                  match decode payload with
                  | .error text => .ok (observationOf { evidence with error := some text })
                  | .ok record => projectRecord rt evidence record

/-! ## Pages -/

/-- A row of a replay page. -/
structure ReplayRow where
  cursor : String
  event : StoredEvent

/-- A replay page whose rows have the types they should. -/
structure Page where
  /-- {lit}`"error" in page` -/
  error : Bool
  events : List ReplayRow
  nextCursor : String

/-- A projected row. -/
structure Row where
  cursor : String
  event : Event

/-- The projection of one row. -/
def projectRow (rt : Runtime) (row : ReplayRow) : Except String Row :=
  (projectEvent rt row.event).map fun event => { cursor := row.cursor, event }

/-- {lit}`project_page`, for a page without an error. -/
def projectPage (rt : Runtime) (page : Page) : Except String (List Row) :=
  if page.events.length > 128 then .error "expected a bounded collector replay page"
  else page.events.mapM (projectRow rt)

/-- What an observation of an activity holds. -/
structure Qualified (event : Event) (record : Record) : Prop where
  held : event.evidence.record = some record
  flags : record.flags = 0
  instanceId : 0 < record.instanceId
  revision : 0 < record.revision
  run : 0 < record.run
  sequence : 0 < record.sequence

/-- An activity is an observation of a record without flags whose counters are
positive. -/
theorem projectEvent_activity {rt : Runtime} {stored : StoredEvent} {event : Event}
    (h : projectEvent rt stored = .ok event) (hactivity : event.eventType = .activity) :
    ∃ record, Qualified event record ∧
      fields rt record = .ok (event.activity, event.reportedOutcome) := by
  have hobservation : ∀ {evidence : Evidence}, observationOf evidence = event → False := by
    rintro evidence rfl
    contradiction
  unfold projectEvent at h
  split at h
  · split at h
    · simp only [Except.ok.injEq] at h
      subst h
      simp only at hactivity
      unfold diagnostics at hactivity
      split at hactivity <;> contradiction
    · contradiction
  · simp only at h
    repeat' split at h
    all_goals try (exact (hobservation (Except.ok.inj h)).elim)
    rename_i record _
    unfold projectRecord at h
    simp only at h
    split at h
    · exact (hobservation (Except.ok.inj h)).elim
    · rename_i hqualified
      cases hfields : fields rt record with
      | error e =>
          rw [hfields] at h
          contradiction
      | ok result =>
          rw [hfields] at h
          cases h
          refine ⟨record, ⟨rfl, ?_, ?_, ?_, ?_, ?_⟩, hfields⟩ <;> omega

/-- The rows of a page are projected one by one. -/
theorem projectPage_events {rt : Runtime} {page : Page} {rows : List Row}
    (h : projectPage rt page = .ok rows) :
    page.events.length ≤ 128 ∧ page.events.mapM (projectRow rt) = .ok rows := by
  unfold projectPage at h
  split at h
  · contradiction
  · rename_i hbound
    exact ⟨Nat.le_of_not_lt hbound, h⟩

end Activity
end LiveSurface
