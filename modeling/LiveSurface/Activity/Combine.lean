import LiveSurface.Activity.Project
import LiveSurface.Library.Dict

/-!
# The activity combiner

The combiner collects the rows of an exchange under the key their frames carry.
Rows arrive one after the other, over any number of pages; a group opens with the
phase-1 row of its key and is finished by a terminal row, by its size, by the
number of groups, or by anything that may have cost the stream a row.

What a group becomes is decided by the issues that its rows show together.

Main results:

- Definition {lit}`stepRow`: what one row does.
- Definition {lit}`finish`: what a group becomes.
-/

namespace LiveSurface
namespace Activity

open Collector Metadata

/-! ## Rows with a frame -/

/-- A row of an activity with its frame and its record. -/
structure FramedRow where
  row : Row
  frame : GroupFrame
  record : Record
  activity : row.event.eventType = .activity
  group : row.event.evidence.group = some frame
  held : row.event.evidence.record = some record

namespace FramedRow

/-- {lit}`kind == "http_response"`. -/
def Http (r : FramedRow) : Prop := r.record.observation = .httpResponse

instance (r : FramedRow) : Decidable r.Http := inferInstanceAs (Decidable (_ = _))

/-- The instance and revision that wrote the row. -/
def writer (r : FramedRow) : Nat × Nat := (r.record.instanceId, r.record.revision)

/-- The call that wrote the row. -/
def call (r : FramedRow) : Nat × Nat × Nat :=
  (r.record.instanceId, r.record.revision, r.frame.invocation)

/-- A client request-header event. -/
def Confirms (r : FramedRow) : Prop := r.Http ∧ r.frame.side = 1 ∧ r.record.code = some 142

instance (r : FramedRow) : Decidable r.Confirms := inferInstanceAs (Decidable (_ ∧ _))

end FramedRow

/-- The frame and record of a row, if it is an activity with a frame. -/
def Row.framed (row : Row) : Option FramedRow :=
  if h : row.event.eventType = .activity then
    match hg : row.event.evidence.group, hr : row.event.evidence.record with
    | some frame, some record => some ⟨row, frame, record, h, hg, hr⟩
    | _, _ => none
  else none

/-! ## Issues -/

/-- Why an exchange does not count as observed. -/
inductive Issue
  | cursorDiscontinuity
  | diagnosticOrUnqualifiedRecord
  | invalidFrameBinding
  | duplicateOrRegressedSequence
  | producerGap
  | producerCapacity
  | endOfInput
  | duplicateStart
  | capacity
  | invalidated
  | recordCapacity
  | replyBeforeHttpConfirmation
  | invalidGroup
  | unknownSide
  | duplicateField
  | missingOrMultipleJsonMessages
  | missingField
  | jsonProducerChanged
  | missingOrConflictingHttpConfirmation
  | incompleteMethod
  | incompleteTarget
  | incompleteMessageId
  | incompleteId
  | replyIdMismatch
  | incompleteReply
  | conflictingHttpStatus
  | conflictingLocalTransferComplete
  | incompleteHttp
  | conflictingClientTls
deriving DecidableEq

/-- The tag of an issue. -/
def Issue.text : Issue → String
  | .cursorDiscontinuity => "cursor_discontinuity"
  | .diagnosticOrUnqualifiedRecord => "diagnostic_or_unqualified_record"
  | .invalidFrameBinding => "invalid_frame_binding"
  | .duplicateOrRegressedSequence => "duplicate_or_regressed_sequence"
  | .producerGap => "producer_gap"
  | .producerCapacity => "producer_capacity"
  | .endOfInput => "end_of_input"
  | .duplicateStart => "duplicate_start"
  | .capacity => "capacity"
  | .invalidated => "invalidated"
  | .recordCapacity => "record_capacity"
  | .replyBeforeHttpConfirmation => "reply_before_http_confirmation"
  | .invalidGroup => "invalid_group"
  | .unknownSide => "unknown_side"
  | .duplicateField => "duplicate_field"
  | .missingOrMultipleJsonMessages => "missing_or_multiple_json_messages"
  | .missingField => "missing_field"
  | .jsonProducerChanged => "json_producer_changed"
  | .missingOrConflictingHttpConfirmation => "missing_or_conflicting_http_confirmation"
  | .incompleteMethod => "incomplete_method"
  | .incompleteTarget => "incomplete_target"
  | .incompleteMessageId => "incomplete_message_id"
  | .incompleteId => "incomplete_id"
  | .replyIdMismatch => "reply_id_mismatch"
  | .incompleteReply => "incomplete_reply"
  | .conflictingHttpStatus => "conflicting_http_status"
  | .conflictingLocalTransferComplete => "conflicting_local_transfer_complete"
  | .incompleteHttp => "incomplete_http"
  | .conflictingClientTls => "conflicting_client_tls"

/-- {lit}`sorted(set(issues))`. -/
def sortedIssues (issues : List Issue) : List String :=
  ((issues.map Issue.text).dedup).mergeSort fun a b => decide (a ≤ b)

/-! ## Groups -/

/-- What selects a group. -/
structure Key where
  sourceId : String
  ring : Int
  run : Nat
  ownerInstance : Nat
  exchange : Nat
deriving DecidableEq

/-- An open group. -/
structure Group where
  first : String
  rows : List FramedRow
  issues : List Issue
  confirmed : Bool
  nonempty : rows ≠ []

/-- A group after one more row. -/
def addRow (first : String) (rows : List FramedRow) (issues : List Issue) (confirmed : Bool)
    (r : FramedRow) : Group :=
  let confirmed := confirmed || decide (r.Confirms ∧ r.frame.status = 1)
  { first
    rows := rows ++ [r]
    issues := issues ++
      (if ¬r.Http ∧ r.frame.side = 2 ∧ confirmed = false then [.replyBeforeHttpConfirmation]
        else []) ++
      (if r.frame.status ≠ 1 then [.invalidGroup] else [])
    confirmed
    nonempty := by simp }

/-- The group that a row opens. -/
def Group.start (r : FramedRow) : Group := addRow r.row.cursor [] [] false r

/-- An open group takes a row. -/
def Group.add (g : Group) (r : FramedRow) : Group := addRow g.first g.rows g.issues g.confirmed r

/-! ## Timing -/

/-- {lit}`nanoseconds`: an exact positive 64-bit time, from a decimal text or an integer. -/
def nanoseconds : Option Scalar → Option Nat
  | some (.str s) =>
      if s.toList.all Char.isDigit ∧ s ≠ "" ∧ s.length ≤ 20 then
        let n := Nat.ofDigitChars 10 s.toList 0
        if 0 < n ∧ n < 2 ^ 64 then some n else none
      else none
  | some (.int n) => if 0 < n ∧ n < 2 ^ 64 then some n.toNat else none
  | _ => none

/-- {lit}`f"{fraction:09d}"`. -/
def nineDigits (n : Nat) : String :=
  let digits := Nat.toDigits 10 n
  String.ofList (List.replicate (9 - digits.length) '0' ++ digits)

/-- {lit}`timestamp`. -/
def timestamp (rt : Runtime) (value : Option Scalar) : Option String :=
  (nanoseconds value).map fun n =>
    rt.strftime (n / 1000000000) ++ "." ++ nineDigits (n % 1000000000) ++ "Z"

/-- How far the times of an exchange are known. -/
inductive TimingStatus
  | complete
  | incomplete
  | invalid
deriving DecidableEq

/-- When an exchange was observed. -/
structure Timing where
  startedAt : Option String
  endedAt : Option String
  lastObservedAt : Option String
  durationNs : Option Nat
  status : TimingStatus

/-- {lit}`raw.get("ts_ns")`. -/
def FramedRow.tsNs (r : FramedRow) : Option Scalar :=
  r.row.event.evidence.raw.bind fun raw => raw.get? "ts_ns"

/-- The monotonic time of a record; it is written as a decimal text. -/
def FramedRow.monotonic (r : FramedRow) : Option Nat :=
  if 0 < r.record.monotonicNs ∧ r.record.monotonicNs < 2 ^ 64 then some r.record.monotonicNs
  else none

/-- {lit}`observation_timing`, from the first and the last row. -/
def observationTiming (rt : Runtime) (first last : FramedRow) : Timing :=
  let ended : Bool := last.frame.phase = 3
  let stop := if ended then last.monotonic else none
  let startedAt := timestamp rt first.tsNs
  let endedAt := if ended then timestamp rt last.tsNs else none
  let lastObservedAt := timestamp rt last.tsNs
  let durationNs :=
    match first.monotonic, stop with
    | some a, some b => if a ≤ b then some (b - a) else none
    | _, _ => none
  { startedAt, endedAt, lastObservedAt, durationNs
    status :=
      match first.monotonic, stop with
      | some a, some b =>
          if b < a then .invalid
          else if startedAt.isSome ∧ endedAt.isSome ∧ lastObservedAt.isSome ∧ durationNs.isSome then
            .complete
          else .incomplete
      | _, _ =>
          if startedAt.isSome ∧ endedAt.isSome ∧ lastObservedAt.isSome ∧ durationNs.isSome then
            .complete
          else .incomplete }

/-! ## Finishing a group -/

section Finish

variable (rows : List FramedRow)

/-- The rows that are not HTTP events. -/
def jsonRows : List FramedRow := rows.filter fun r => ¬r.Http

/-- The rows that are HTTP events. -/
def httpRows : List FramedRow := rows.filter FramedRow.Http

/-- The calls of one side. -/
def callsOf (side : Nat) : List (Nat × Nat × Nat) :=
  ((jsonRows rows).filter fun r => r.frame.side = side).map FramedRow.call

/-- The rows of a field. -/
def fieldRows (side : Nat) (kind : Observation) : List FramedRow :=
  (jsonRows rows).filter fun r => r.frame.side = side ∧ r.record.observation = kind

/-- {lit}`fields.get((side, kind))`: the last of them. -/
def fieldRow (side : Nat) (kind : Observation) : Option FramedRow :=
  (fieldRows rows side kind).getLast?

/-- The fields a side has to have. -/
def fieldKinds : List Observation := [.method, .operationTarget, .messageId, .reply]

/-- The issues of the JSON records of one side. -/
def sideIssues (side : Nat) : List Issue :=
  (if (callsOf rows side).dedup.length ≠ 1 then [.missingOrMultipleJsonMessages] else []) ++
    fieldKinds.flatMap fun kind => if fieldRow rows side kind = none then [.missingField] else []

/-- The issues of what the records are and who wrote them. -/
def recordIssues : List Issue :=
  (if (jsonRows rows).any fun r => r.frame.side ∉ [1, 2] then [.unknownSide] else []) ++
    (if ¬(((jsonRows rows).filter fun r => r.frame.side ∈ [1, 2]).map fun r =>
        (r.frame.side, r.record.observation)).Nodup then [.duplicateField] else []) ++
    sideIssues rows 1 ++ sideIssues rows 2 ++
    (if ((callsOf rows 1 ++ callsOf rows 2).map fun c => (c.1, c.2.1)).dedup.length ≠ 1 then
      [.jsonProducerChanged] else []) ++
    (if ((httpRows rows).map FramedRow.writer).dedup.length ≠ 1 ∨
        (rows.filter FramedRow.Confirms).length ≠ 1 then
      [.missingOrConflictingHttpConfirmation] else [])

/-- A field of the request. -/
def requestField (kind : Observation) : Option ValueField :=
  (fieldRow rows 1 kind).bind fun r =>
    match kind with
    | .method => r.row.event.activity.method
    | .operationTarget => r.row.event.activity.target
    | _ => r.row.event.activity.messageId

/-- The issue of a request field that is not complete. -/
def requestIssues (kind : Observation) (issue : Issue) : List Issue :=
  match requestField rows kind with
  | some value => if value.status ≠ "complete" ∨ value.textError then [issue] else []
  | none => []

/-- The identifier of one side. -/
def identifier (side : Nat) : Option ValueField :=
  (fieldRow rows side .messageId).bind fun r => r.row.event.activity.messageId

/-- The issues of the two identifiers. -/
def idIssues : List Issue :=
  match identifier rows 1, identifier rows 2 with
  | some a, some b =>
      if a.status ≠ "complete" ∨ b.status ≠ "complete" then [.incompleteId]
      else if (a.kind, a.rawHex) ≠ (b.kind, b.rawHex) then [.replyIdMismatch]
      else []
  | _, _ => []

/-- The outcome the reply reports. -/
def replyOutcome : Outcome :=
  ((fieldRow rows 2 .reply).map fun r => r.row.event.reportedOutcome).getD .empty

/-- The issue of a reply that is not complete. -/
def replyIssues : List Issue :=
  match fieldRow rows 2 .reply with
  | some r =>
      if r.row.event.reportedOutcome.status ≠ some "complete" then [.incompleteReply] else []
  | none => []

/-- The complete values of one outcome of the client side, each with its cursor. -/
def completeValues {α : Type} (get : Outcome → Option (StateValue α)) :
    List (String × StateValue α) :=
  (rows.filter fun r => r.frame.side = 1).filterMap fun r =>
    ((get r.row.event.reportedOutcome).filter fun v => v.status = "complete").map fun v =>
      (r.row.cursor, v)

/-- The issue of an outcome that has two values. -/
def conflictIssues {α : Type} [DecidableEq α] (get : Outcome → Option (StateValue α))
    (issue : Issue) : List Issue :=
  if ((completeValues rows get).map Prod.snd).dedup.length > 1 then [issue] else []

/-- The issue of an HTTP outcome that is missing. -/
def httpIssues : List Issue :=
  if completeValues rows Outcome.httpStatus = [] ∨
      completeValues rows Outcome.localTransferComplete = [] then [.incompleteHttp] else []

/-- The TLS readings of the client side, each with its cursor. -/
def tlsReadings : List (String × ClientTls) :=
  (rows.filter fun r => r.Http ∧ r.frame.side = 1).filterMap fun r =>
    r.row.event.activity.clientTls.map fun tls => (r.row.cursor, tls)

/-- The issue of readings that disagree. -/
def tlsIssues : List Issue :=
  if ((tlsReadings rows).map Prod.snd).dedup.length > 1 then [.conflictingClientTls] else []

/-- All issues that the rows of a group show. -/
def rowIssues : List Issue :=
  recordIssues rows ++ requestIssues rows .method .incompleteMethod ++
    requestIssues rows .operationTarget .incompleteTarget ++
    requestIssues rows .messageId .incompleteMessageId ++ idIssues rows ++ replyIssues rows ++
    conflictIssues rows Outcome.httpStatus .conflictingHttpStatus ++
    conflictIssues rows Outcome.localTransferComplete .conflictingLocalTransferComplete ++
    httpIssues rows ++ tlsIssues rows

end Finish

/-- The TLS state of the client connection. -/
inductive Transport
  | observed (tls : ClientTls)
  | conflicting (readings : List ClientTls)
  | notObserved

/-- {lit}`correlation["status"]`. -/
inductive CorrelationStatus
  | incomplete
  | observedExchange
deriving DecidableEq

/-- The cursors the fields were taken from. -/
structure FieldSources where
  method : Option String
  target : Option String
  messageId : Option String
  reply : Option String
  httpStatus : Option String
  localTransferComplete : Option String
  clientTls : List String

/-- An {lit}`agent.activity.combined` event. -/
structure Combined where
  activityId : String
  status : CorrelationStatus
  issues : List String
  method : Option ValueField
  target : Option ValueField
  messageId : Option ValueField
  reportedOutcome : Outcome
  transport : Transport
  timing : Timing
  key : Key
  firstCursor : String
  lastCursor : String
  recordCount : Nat
  fieldSources : FieldSources

/-- What the readings of a group say of its transport. -/
def transportOf (readings : List ClientTls) : Transport :=
  match readings with
  | [] => .notObserved
  | tls :: rest => if ∀ other ∈ rest, other = tls then .observed tls else .conflicting readings

/-- All issues of a group that is finished for a reason. -/
def groupIssues (g : Group) (reason : Option Issue) : List Issue :=
  g.issues ++ reason.toList ++ rowIssues g.rows

/-- {lit}`finish`, of a group that was taken out of the pending ones. -/
def finish (rt : Runtime) (key : Key) (g : Group) (reason : Option Issue) : Combined :=
  let issues := groupIssues g reason
  let httpStatuses := completeValues g.rows Outcome.httpStatus
  let transfers := completeValues g.rows Outcome.localTransferComplete
  let readings := tlsReadings g.rows
  { activityId := rt.digest key.sourceId key.ring key.run key.ownerInstance key.exchange
    status := if issues = [] then .observedExchange else .incomplete
    issues := sortedIssues issues
    method := requestField g.rows .method
    target := requestField g.rows .operationTarget
    messageId := requestField g.rows .messageId
    reportedOutcome := { replyOutcome g.rows with
      httpStatus := httpStatuses.getLast?.map Prod.snd
      localTransferComplete := transfers.getLast?.map Prod.snd }
    transport := transportOf (readings.map Prod.snd)
    timing := observationTiming rt (g.rows.head g.nonempty) (g.rows.getLast g.nonempty)
    key := key
    firstCursor := g.first
    lastCursor := (g.rows.getLast g.nonempty).row.cursor
    recordCount := g.rows.length
    fieldSources := {
      method := (fieldRow g.rows 1 .method).map fun r => r.row.cursor
      target := (fieldRow g.rows 1 .operationTarget).map fun r => r.row.cursor
      messageId := (fieldRow g.rows 1 .messageId).map fun r => r.row.cursor
      reply := (fieldRow g.rows 2 .reply).map fun r => r.row.cursor
      httpStatus := httpStatuses.getLast?.map Prod.fst
      localTransferComplete := transfers.getLast?.map Prod.fst
      clientTls := readings.map Prod.fst } }

/-! ## The combiner -/

/-- Who numbers a record. -/
structure Producer where
  sourceId : String
  ring : Int
  instanceId : Nat
  run : Nat
deriving DecidableEq

/-- The state of an {lit}`ActivityCombiner`; the last cursor is kept split. -/
structure Combiner where
  capacity : Nat
  maxRecords : Nat
  pending : Dict Key Group
  sequences : Dict Producer Nat
  cursor : Option (String × Int)

/-- A new combiner. -/
def Combiner.new (capacity maxRecords : Nat) : Combiner where
  capacity := capacity
  maxRecords := maxRecords
  pending := .empty
  sequences := .empty
  cursor := none

/-- What the combiner emits. -/
inductive Output
  | event (e : Event)
  | combined (c : Combined)

/-- {lit}`flush`. -/
def Combiner.flush (rt : Runtime) (c : Combiner) (reason : Issue) : List Output × Combiner :=
  (c.pending.entries.map fun entry => .combined (finish rt entry.1 entry.2 (some reason)),
    { c with pending := .empty, sequences := .empty })

/-- The place a record has in its call. -/
def expectedInvocation (record : Record) : Nat :=
  if record.observation = .httpResponse then record.sequence else (record.sequence - 1) / 4 + 1

/-- The place of a record among the four of its call. -/
def fieldIndex : Observation → Nat
  | .method => 0
  | .operationTarget => 1
  | .messageId => 2
  | _ => 3

/-- The part of {lit}`valid` that concerns the record and its frame. -/
def ValidGroup (record : Record) (frame : GroupFrame) : Prop :=
  (frame.invocation = 0 ∨ frame.invocation = expectedInvocation record) ∧
    (frame.exchange ≠ 0 →
      (frame.invocation = expectedInvocation record ∧
        (record.observation = .httpResponse ∨ frame.ownerInstance = record.instanceId)) ∧
      if frame.phase = 1 then
        record.observation = .method ∧ frame.side = 1 ∧ frame.exchange = record.sequence ∧
          frame.status = 1
      else if frame.phase = 3 then
        record.observation = .httpResponse ∧ frame.side = 1 ∧ record.code = some 29 ∧
          frame.status = 1
      else if frame.phase = 4 then
        (record.observation = .httpResponse ∧
          record.code ∈ [some 1, some 5, some 57, some 142]) ∨
        (record.observation = .method ∧ frame.side = 1 ∧ frame.status = 4)
      else if record.observation ≠ .httpResponse then
        (record.sequence - 1) % 4 = fieldIndex record.observation ∧
          (record.observation = .messageId → record.flow.any fun f =>
            f.status = 1 ∧ f.side = frame.side)
      else True)

instance (record : Record) (frame : GroupFrame) : Decidable (ValidGroup record frame) := by
  unfold ValidGroup
  infer_instance

/-- The source and the ring of a row, if they are what they should be. -/
def sourceOf (r : FramedRow) : Option (String × Int) :=
  match r.row.event.evidence.sourceId, r.row.event.evidence.raw.bind fun raw => raw.get? "ring" with
  | some (.str source), some (.int ring) =>
      if source ≠ "" ∧ 0 ≤ ring ∧ ring < 16 then some (source, ring) else none
  | _, _ => none

/-- {lit}`valid`, with the source and the ring of a valid row. -/
def validFrame (r : FramedRow) : Option (String × Int) :=
  if ValidGroup r.record r.frame then sourceOf r else none

/-- {lit}`rsplit(":", 1)` and {lit}`int`; {lit}`none` when one of them raises. -/
def splitCursor (rt : Runtime) (cursor : String) : Option (String × Int) :=
  let letters := cursor.toList.reverse
  match letters.dropWhile fun x => x ≠ ':' with
  | [] => none
  | _ :: journal =>
      (rt.int (String.ofList (letters.takeWhile fun x => x ≠ ':').reverse)).map fun number =>
        (String.ofList journal.reverse, number)

/-- An event that is demoted to an observation. -/
def demoted (event : Event) (status : Status) : Event :=
  { event with eventType := .observation, evidence := { event.evidence with status := status } }

/-- Take a group out of the pending ones and finish it. -/
def Combiner.close (rt : Runtime) (c : Combiner) (key : Key) (g : Group) (reason : Option Issue) :
    List Output × Combiner :=
  ([.combined (finish rt key g reason)], { c with pending := c.pending.erase key })

/-- What a row of an open group does. -/
def Combiner.extend (rt : Runtime) (c : Combiner) (key : Key) (g : Group) (r : FramedRow) :
    List Output × Combiner :=
  let c := { c with pending := c.pending.set key g }
  if r.frame.phase = 3 then c.close rt key g none
  else if r.frame.phase = 4 then c.close rt key g (some .invalidated)
  else if g.rows.length ≥ c.maxRecords then c.close rt key g (some .recordCapacity)
  else ([], c)

/-- What a row with a key does. -/
def Combiner.exchange (rt : Runtime) (c : Combiner) (key : Key) (r : FramedRow) :
    Except String (List Output × Combiner) :=
  if r.frame.phase = 1 then
    match c.pending.get? key with
    | some g =>
        let (out, c) := c.close rt key g (some .duplicateStart)
        .ok (out ++ [.event r.row.event], c)
    | none =>
        if c.pending.size ≥ c.capacity then
          match c.pending.entries with
          | [] => .error "StopIteration"
          | (oldest, g) :: _ =>
              let (out, c) := c.close rt oldest g (some .capacity)
              let (more, c) := c.extend rt key (.start r) r
              .ok (out ++ more, c)
        else .ok (c.extend rt key (.start r) r)
  else
    match c.pending.get? key with
    | none =>
        .ok ([.event { r.row.event with correlationReason := some "unobserved_start" }], c)
    | some g => .ok (c.extend rt key (g.add r) r)

/-- What a valid row does, from its place among the rows of its producer on. -/
def Combiner.admit (rt : Runtime) (c : Combiner) (source : String) (ring : Int) (r : FramedRow) :
    Except String (List Output × Combiner) :=
  let producer : Producer := {
    sourceId := source, ring, instanceId := r.record.instanceId, run := r.record.run }
  let sequence := r.record.sequence
  let previous := c.sequences.get? producer
  match previous.filter fun p => sequence ≤ p with
  | some p =>
      let (out, c) := c.flush rt .duplicateOrRegressedSequence
      .ok (out ++ [.event (demoted r.row.event .duplicateOrRegressedSequence)],
        { c with sequences := c.sequences.set producer p })
  | none =>
      let (gap, c) :=
        if (previous.any fun p => sequence ≠ p + 1) ∨ r.record.outputFailures ≠ 0 then
          c.flush rt .producerGap
        else ([], c)
      let (full, c) :=
        if c.sequences.size ≥ c.capacity ∧ c.sequences.get? producer = none then
          c.flush rt .producerCapacity
        else ([], c)
      let c := { c with sequences := c.sequences.set producer sequence }
      if r.frame.exchange = 0 then .ok (gap ++ full ++ [.event r.row.event], c)
      else do
        let (out, c) ← c.exchange rt {
          sourceId := source, ring, run := r.record.run, ownerInstance := r.frame.ownerInstance
          exchange := r.frame.exchange } r
        .ok (gap ++ full ++ out, c)

/-- What a row does once its cursor is accepted. -/
def Combiner.observe (rt : Runtime) (c : Combiner) (row : Row) :
    Except String (List Output × Combiner) :=
  match row.framed with
  | none =>
      if row.event.eventType = .ringHealth ∨ row.event.eventType = .discard then
        .ok ([.event row.event], c)
      else
        let (out, c) := c.flush rt .diagnosticOrUnqualifiedRecord
        .ok (out ++ [.event row.event], c)
  | some r =>
      match validFrame r with
      | none =>
          let (out, c) := c.flush rt .invalidFrameBinding
          .ok (out ++ [.event (demoted row.event .invalidFrameBinding)], c)
      | some (source, ring) => c.admit rt source ring r

/-- The cursor of a row against the last one. -/
def Combiner.follow (rt : Runtime) (c : Combiner) (row : Row) :
    Except String (List Output × Combiner) :=
  match splitCursor rt row.cursor with
  | none => .error "invalid literal for int()"
  | some (journal, number) =>
      match c.cursor with
      | none => .ok ([], { c with cursor := some (journal, number) })
      | some (previous, offset) =>
          if journal ≠ previous ∨ number ≤ offset then
            .error "replay cursor changed journal or moved backwards"
          else if number ≠ offset + 1 then
            let (out, c) := c.flush rt .cursorDiscontinuity
            .ok (out, { c with cursor := some (journal, number) })
          else .ok ([], { c with cursor := some (journal, number) })

/-- What one row does. -/
def stepRow (rt : Runtime) (c : Combiner) (row : Row) : Except String (List Output × Combiner) := do
  let (out, c) ← c.follow rt row
  let (more, c) ← c.observe rt row
  .ok (out ++ more, c)

/-- The loop over the rows of a page. -/
def feedRows (rt : Runtime) (c : Combiner) : List Row → Except String (List Output × Combiner)
  | [] => .ok ([], c)
  | row :: rest => do
      let (out, c) ← stepRow rt c row
      let (more, c) ← feedRows rt c rest
      .ok (out ++ more, c)

/-- {lit}`feed`; nothing is kept of a combiner that raised. -/
def feed (rt : Runtime) (c : Combiner) (page : Page) : Except String (List Output × Combiner) :=
  if page.error then .error "error page"
  else do
    let rows ← projectPage rt page
    feedRows rt c rows

/-- Feeding pages in order, with the outputs one after the other. -/
def feedPages (rt : Runtime) (c : Combiner) : List Page → Except String (List Output × Combiner)
  | [] => .ok ([], c)
  | page :: rest => do
      let (out, c) ← feed rt c page
      let (more, c) ← feedPages rt c rest
      .ok (out ++ more, c)

end Activity
end LiveSurface
