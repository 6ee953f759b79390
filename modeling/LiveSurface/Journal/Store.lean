import LiveSurface.Metadata.Decode
import Mathlib.Data.List.Sort
import Mathlib.Logic.Function.Basic

/-!
# The collector's journal

One writer keeps event rows and source checkpoints in one SQLite file.  A frame
of the ring reader is either refused, or a repetition of what the checkpoint
already covers, or a new row together with a new checkpoint, in one transaction.

SQLite transactions are atomic and durable: a transaction that does not commit,
because a statement raises or the process dies, leaves the file as it was.  The
hash of a frame's canonical text, the length of that text, {lit}`int()` and
{lit}`bytes.fromhex()` come from Python; {lit}`Runtime` stands for them.

Main results:

- Theorem {lit}`keepNewest_eq_drop`: on rows in the order of their ids, the
  retention query keeps the last ones.
- Theorem {lit}`insert_cases`: a new key is appended with the next id.
- Theorem {lit}`accept_cases`: everything that accepting a frame can do.
-/

namespace LiveSurface
namespace Collector

open Metadata

/-! ## Frames -/

/-- A JSON value of a frame, as far as {lit}`accept` tells values apart.  A float
comes with the integer it equals, if any; other values are kept by their text. -/
inductive Scalar
  | int (n : Int)
  | bool (b : Bool)
  | float (n : Option Int) (text : String)
  | str (s : String)
  | other (text : String)
deriving DecidableEq

/-- {lit}`value == n`. -/
def Scalar.equals (n : Int) : Scalar → Bool
  | .int m => m = n
  | .bool b => (if b then 1 else 0) = n
  | .float m _ => m = some n
  | _ => false

/-- A JSON object, by its keys in order. -/
abbrev Object := List (String × Scalar)

/-- {lit}`raw[key]`; {lit}`none` is a {lit}`KeyError`. -/
def Object.get? (raw : Object) (key : String) : Option Scalar :=
  (raw.find? fun item => item.1 = key).map Prod.snd

/-- The object without a key. -/
def Object.without (raw : Object) (key : String) : Object :=
  raw.filter fun item => item.1 ≠ key

/-- What the collector takes from Python. -/
structure Runtime where
  /-- {lit}`hashlib.sha256(canonical(raw).encode()).hexdigest()` -/
  sha256 : Object → String
  /-- {lit}`len(canonical(raw))` -/
  size : Object → Nat
  /-- {lit}`int(value)`; {lit}`none` when it raises -/
  int : Scalar → Option Int
  /-- {lit}`bytes.fromhex(value)`; {lit}`none` when it raises -/
  fromhex : Scalar → Option (List UInt8)

def maxFrame : Nat := 8192

/-- The kinds of frames of a ring. -/
inductive FrameKind
  | record
  | discard
  | ringHealth
deriving DecidableEq

/-- The kind a name stands for. -/
def frameKind : Option Scalar → Option FrameKind
  | some (.str "record") => some .record
  | some (.str "discard") => some .discard
  | some (.str "ring_health") => some .ringHealth
  | _ => none

/-! ## Tables -/

/-- An event key.  The source builds it as a text whose parts a colon separates;
the epoch is a hexadecimal number, so the parts determine the text. -/
inductive EventKey
  | source (epoch : String)
  | record (epoch : String) (ring : Scalar) (begin : Int)
  | drops (epoch : String) (ring : Scalar) (position : Int)
deriving DecidableEq

/-- The epoch a key belongs to. -/
def EventKey.epoch : EventKey → String
  | .source epoch => epoch
  | .record epoch _ _ => epoch
  | .drops epoch _ _ => epoch

/-- The body of an event row. -/
inductive Body
  | boundary (sourceId : String) (source : Object)
  | frame (type : String) (sourceId : String) (source : Option Object) (eventId : EventKey)
      (raw : Object) (decoded : Option (Except String Decoded))
      (droppedSinceCheckpoint : Option (Option Int))

/-- A row of {lit}`events`. -/
structure Row where
  id : Nat
  eventKey : EventKey
  fingerprint : String
  body : Body

/-- What the state row of a ring says. -/
structure Checkpoint where
  position : Int
  fingerprint : String
deriving DecidableEq

/-- The key of a state row: {lit}`ring:N` or {lit}`drops:N`. -/
structure ProgressKey where
  drops : Bool
  ring : Scalar
deriving DecidableEq

/-- The database file.  {lit}`sequence` is the largest row id ever used, which
{lit}`AUTOINCREMENT` keeps. -/
structure Db where
  events : List Row
  sequence : Nat
  journalId : String
  sourceId : Option String
  sourceEpoch : Option String
  progress : ProgressKey → Option Checkpoint

/-- The collector process's own part: the registered source. -/
structure Session where
  source : Option String
  sourceFrame : Option Object

/-- The journal: the file and the process that has it open. -/
structure Journal where
  db : Db
  session : Session

/-- How {lit}`accept` raises. -/
inductive Raised
  | valueError (text : String)
  | unreadable
  | storage
deriving DecidableEq

/-! ## Insertion -/

/-- The ids {lit}`SELECT id FROM events ORDER BY id DESC LIMIT n` returns. -/
def newestIds (events : List Row) (n : Nat) : List Nat :=
  ((events.map Row.id).mergeSort fun a b => decide (b ≤ a)).take n

/-- {lit}`DELETE FROM events WHERE id NOT IN (...)`. -/
def keepNewest (events : List Row) (n : Nat) : List Row :=
  events.filter fun row => decide (row.id ∈ newestIds events n)

/-- {lit}`Journal.insert`: the id of the row, and the table after it. -/
def insert (retain : Nat) (db : Db) (key : EventKey) (fingerprint : String) (body : Body) :
    Except Raised (Nat × Db) :=
  match db.events.find? fun row => row.eventKey = key with
  | some row =>
      if row.fingerprint ≠ fingerprint then
        .error (.valueError "conflicting bytes for an existing event identity")
      else .ok (row.id, db)
  | none =>
      -- delete before insert
      let row : Row := { id := db.sequence + 1, eventKey := key, fingerprint, body }
      .ok (row.id, { db with
        events := keepNewest db.events (retain - 1) ++ [row]
        sequence := db.sequence + 1 })

/-- On rows in the order of their ids, the newest are the last. -/
theorem keepNewest_eq_drop {events : List Row} (n : Nat)
    (hsorted : (events.map Row.id).Pairwise (· < ·)) :
    keepNewest events n = events.drop (events.length - n) := by
  have hids : newestIds events n = ((events.map Row.id).drop (events.length - n)).reverse := by
    have hsort : ((events.map Row.id).mergeSort fun a b => decide (b ≤ a)) =
        (events.map Row.id).reverse := by
      apply List.Perm.eq_of_pairwise' (r := fun a b => b ≤ a)
      · exact List.pairwise_mergeSort' (fun a b => b ≤ a) _
      · rw [List.pairwise_reverse]
        exact hsorted.imp Nat.le_of_lt
      · exact (List.mergeSort_perm _ _).trans (List.reverse_perm _).symm
    rw [newestIds, hsort, List.take_reverse, List.length_map]
  -- a row before the cut has an id below every id after it
  generalize hk : events.length - n = k at hids
  have hsplit : events.take k ++ events.drop k = events := List.take_append_drop k events
  have hsorted' := hsorted
  rw [← hsplit, List.map_append, List.pairwise_append] at hsorted'
  have hold : (events.take k).filter (fun row => decide (row.id ∈ newestIds events n)) = [] := by
    rw [List.filter_eq_nil_iff]
    intro row hrow
    rw [hids, ← List.map_drop]
    simp only [List.mem_reverse, decide_eq_true_eq]
    intro hmem
    exact Nat.lt_irrefl _ (hsorted'.2.2 _ (List.mem_map_of_mem hrow) _ hmem)
  have hnew : (events.drop k).filter (fun row => decide (row.id ∈ newestIds events n)) =
      events.drop k := by
    rw [List.filter_eq_self]
    intro row hrow
    rw [hids, ← List.map_drop]
    simp only [List.mem_reverse, decide_eq_true_eq]
    exact List.mem_map_of_mem hrow
  conv_lhs => rw [keepNewest, ← hsplit, List.filter_append, hsplit]
  rw [hold, hnew, List.nil_append]

/-! ## Acceptance -/

/-- The frame without its token. -/
def rawOf (frame : Object) : Object := frame.without "token"

/-- The part of a frame that is fingerprinted: a drop count is sampled apart from
its byte count, which is left out. -/
def content (frame : Object) : Object :=
  if frameKind ((rawOf frame).get? "kind") = some .ringHealth then
    (rawOf frame).without "drop_bytes"
  else rawOf frame

/-- The ring index of a frame: {lit}`isinstance(ring, int)` holds of Booleans. -/
def ringOf (raw : Object) : Except Raised Scalar :=
  match raw.get? "ring" with
  | none => .error .unreadable
  | some (.int n) =>
      if 0 ≤ n ∧ n < 16 then .ok (.int n) else .error (.valueError "invalid ring index")
  | some (.bool b) => .ok (.bool b)
  | some _ => .error (.valueError "invalid ring index")

/-- {lit}`int(raw[key])`. -/
def intField (rt : Runtime) (raw : Object) (key : String) : Except Raised Int :=
  match (raw.get? key).bind rt.int with
  | some n => .ok n
  | none => .error .unreadable

/-- What a frame of a ring says about its progress. -/
structure Progress where
  kind : FrameKind
  ring : Scalar
  /-- where a record or discard begins; a drop count has no beginning -/
  «begin» : Int
  position : Int
deriving DecidableEq

/-- The state row a frame moves. -/
def Progress.key (p : Progress) : ProgressKey where
  drops := p.kind = .ringHealth
  ring := p.ring

/-- The key of the event a frame becomes. -/
def Progress.eventKey (p : Progress) (epoch : String) : EventKey :=
  match p.kind with
  | .ringHealth => .drops epoch p.ring p.position
  | _ => .record epoch p.ring p.begin

/-- The ring and the positions of a frame. -/
def progressOf (rt : Runtime) (kind : FrameKind) (raw : Object) : Except Raised Progress := do
  let ring ← ringOf raw
  match kind with
  | .ringHealth =>
      let position ← intField rt raw "drops"
      if position < 0 then .error (.valueError "invalid drop count")
      else .ok { kind, ring, «begin» := 0, position }
  | _ =>
      let start ← intField rt raw "begin"
      let position ← intField rt raw "end"
      if start < 0 ∨ position ≤ start then .error (.valueError "invalid ring interval")
      else .ok { kind, ring, «begin» := start, position }

/-- The payload checks of a record, and what it decodes to. -/
def decodedOf (rt : Runtime) (kind : FrameKind) (raw : Object) :
    Except Raised (Option (Except String Decoded)) :=
  match kind with
  | .record =>
      match (raw.get? "data").bind rt.fromhex with
      | none => .error .unreadable
      | some payload =>
          if payload.length > 512 then .error (.valueError "oversize record")
          else
            match raw.get? "schema" with
            | none => .error .unreadable
            | some schema =>
                if schema.equals 100 ∧ payload.length = 144 ∧
                    payload.take 4 = [0x54, 0x45, 0x4D, 0x4A] then
                  .ok (some (methodDecode payload))
                else .ok none
  | _ => .ok none

/-- The type and the drop difference a body is stored with. -/
def bodyOf (epoch : String) (source : Option Object) (raw : Object) (p : Progress)
    (decoded : Option (Except String Decoded)) (previous : Option Checkpoint) : Body :=
  match p.kind with
  | .record => .frame "record" epoch source (p.eventKey epoch) raw decoded none
  | .discard => .frame "discard" epoch source (p.eventKey epoch) raw decoded none
  | .ringHealth =>
      .frame (if p.position = 0 then "ring_health" else "observation_gap") epoch source
        (p.eventKey epoch) raw decoded
        (some (previous.map fun c => p.position - c.position))

/-- What the transaction of a ring frame does to the file. -/
def commitFrame (retain : Nat) (db : Db) (p : Progress) (epoch fingerprint : String)
    (body : Option Checkpoint → Body) : Except Raised Db :=
  let advance : Except Raised Db := do
    let (_, db) ← insert retain db (p.eventKey epoch) fingerprint (body (db.progress p.key))
    .ok { db with
      progress := Function.update db.progress p.key (some { position := p.position, fingerprint }) }
  match db.progress p.key with
  | none => advance
  | some previous =>
      if p.position < previous.position then
        .error (.valueError "source position regressed")
      else if p.position = previous.position then
        if previous.fingerprint ≠ fingerprint then
          .error (.valueError "conflicting replay at checkpoint")
        else .ok db
      else if p.kind ≠ .ringHealth ∧ p.begin ≠ previous.position then
        .error (.valueError "unaccounted source position gap")
      else advance

/-- What the transaction of a source frame does to the file. -/
def commitSource (retain : Nat) (db : Db) (source epoch : String) (raw : Object) :
    Except Raised Db :=
  if db.sourceId ≠ some source then do
    let (_, db) ← insert retain
      { db with progress := fun _ => none, sourceId := some source, sourceEpoch := some epoch }
      (.source epoch) source (.boundary epoch raw)
    .ok db
  else .ok db

/-- A transaction: commit, or roll everything back. -/
def transaction (storage : Bool) (result : Except Raised Db) : Except Raised Db :=
  if storage then result else .error .storage

/-- What accepting a ring frame does to the file. -/
def acceptRing (rt : Runtime) (retain : Nat) (storage : Bool) (j : Journal) (frame : Object) :
    Except Raised Db :=
  match j.session.source, frameKind ((rawOf frame).get? "kind") with
  | some epoch, some kind => do
      let p ← progressOf rt kind (rawOf frame)
      let decoded ← decodedOf rt kind (rawOf frame)
      transaction storage
        (commitFrame retain j.db p epoch (rt.sha256 (content frame))
          (bodyOf epoch j.session.sourceFrame (content frame) p decoded))
  | _, _ => .error (.valueError "record without a registered source or unknown frame kind")

/-- {lit}`Journal.accept`.  {lit}`uuid` is what {lit}`uuid4` would return, and
{lit}`storage` whether SQLite carries the transaction through. -/
def accept (rt : Runtime) (retain : Nat) (uuid : String) (storage : Bool) (j : Journal)
    (frame : Object) : Except Raised Unit × Journal :=
  if rt.size (rawOf frame) > maxFrame then
    (.error (.valueError "oversize reader frame"), j)
  else if (rawOf frame).get? "kind" = none then
    (.error .unreadable, j)
  else if (rawOf frame).get? "kind" = some (.str "source") then
    match transaction storage
        (commitSource retain j.db (rt.sha256 (rawOf frame)) uuid (rawOf frame)) with
    | .error e => (.error e, j)
    | .ok db => (.ok (), {
        db := db
        session := { source := db.sourceEpoch, sourceFrame := some (rawOf frame) } })
  else
    match acceptRing rt retain storage j frame with
    | .error e => (.error e, j)
    | .ok db => (.ok (), { j with db := db })

/-- A new {lit}`Journal` on the same file. -/
def reopen (j : Journal) : Journal :=
  { j with session := { source := none, sourceFrame := none } }

/-! ## What an operation can do -/

/-- A ring frame that passes every check before the transaction. -/
structure Readable (rt : Runtime) (frame : Object) (p : Progress) : Prop where
  size : rt.size (rawOf frame) ≤ maxFrame
  kind : frameKind ((rawOf frame).get? "kind") = some p.kind
  progress : progressOf rt p.kind (rawOf frame) = .ok p
  decoded : ∃ decoded, decodedOf rt p.kind (rawOf frame) = .ok decoded

/-- The table after a row that was not in it. -/
def addRow (retain : Nat) (db : Db) (key : EventKey) (fingerprint : String) (body : Body) : Db :=
  { db with
    events := keepNewest db.events (retain - 1) ++
      [{ id := db.sequence + 1, eventKey := key, fingerprint, body }]
    sequence := db.sequence + 1 }

/-- A key that no retained row has is inserted. -/
theorem insert_cases {retain : Nat} {db : Db} {key : EventKey} {fingerprint : String}
    {body : Body} (hfresh : ∀ row ∈ db.events, row.eventKey ≠ key) :
    insert retain db key fingerprint body =
      .ok (db.sequence + 1, addRow retain db key fingerprint body) := by
  have hfind : (db.events.find? fun row => row.eventKey = key) = none := by
    rw [List.find?_eq_none]
    intro row hrow
    simpa using hfresh row hrow
  simp only [insert, hfind]
  rfl

/-- The ways a frame is accepted. -/
inductive Accepted (rt : Runtime) (retain : Nat) (uuid : String) (j : Journal) (frame : Object) :
    Journal → Prop
  | known (hkind : (rawOf frame).get? "kind" = some (.str "source"))
      (hsource : j.db.sourceId = some (rt.sha256 (rawOf frame))) :
      Accepted rt retain uuid j frame
        { db := j.db, session := { source := j.db.sourceEpoch, sourceFrame := some (rawOf frame) } }
  | boundary (hkind : (rawOf frame).get? "kind" = some (.str "source"))
      (hsource : j.db.sourceId ≠ some (rt.sha256 (rawOf frame))) {id : Nat} {db : Db}
      (hinsert : insert retain
        { j.db with
          progress := fun _ => none
          sourceId := some (rt.sha256 (rawOf frame))
          sourceEpoch := some uuid }
        (.source uuid) (rt.sha256 (rawOf frame)) (.boundary uuid (rawOf frame)) = .ok (id, db)) :
      Accepted rt retain uuid j frame
        { db := db, session := { source := db.sourceEpoch, sourceFrame := some (rawOf frame) } }
  | repeated {epoch : String} {p : Progress} {c : Checkpoint}
      (hepoch : j.session.source = some epoch) (hframe : Readable rt frame p)
      (hprevious : j.db.progress p.key = some c) (hposition : p.position = c.position)
      (hfingerprint : c.fingerprint = rt.sha256 (content frame)) :
      Accepted rt retain uuid j frame j
  | advanced {epoch : String} {p : Progress} {id : Nat} {db : Db} {body : Body}
      (hepoch : j.session.source = some epoch) (hframe : Readable rt frame p)
      (hnext : ∀ c, j.db.progress p.key = some c →
        c.position < p.position ∧ (p.kind ≠ .ringHealth → p.begin = c.position))
      (hbody : ∃ type source decoded dropped,
        body = .frame type epoch source (p.eventKey epoch) (content frame) decoded dropped)
      (hinsert : insert retain j.db (p.eventKey epoch) (rt.sha256 (content frame)) body =
        .ok (id, db)) :
      Accepted rt retain uuid j frame
        { j with db := { db with
          progress := Function.update db.progress p.key
            (some { position := p.position, fingerprint := rt.sha256 (content frame) }) } }

/-- The kind of a progress is the kind it was read for. -/
theorem kind_of_progressOf {rt : Runtime} {kind : FrameKind} {raw : Object} {p : Progress}
    (h : progressOf rt kind raw = .ok p) : p.kind = kind := by
  unfold progressOf at h
  cases hring : ringOf raw with
  | error e => simp [hring, bind, Except.bind] at h
  | ok ring =>
      cases kind with
      | ringHealth =>
          cases hdrops : intField rt raw "drops" with
          | error e => simp [hring, hdrops, bind, Except.bind] at h
          | ok position =>
              simp only [hring, hdrops, bind, Except.bind] at h
              split at h
              · contradiction
              · cases h
                rfl
      | record | discard =>
          cases hbegin : intField rt raw "begin" with
          | error e => simp [hring, hbegin, bind, Except.bind] at h
          | ok start =>
              cases hend : intField rt raw "end" with
              | error e => simp [hring, hbegin, hend, bind, Except.bind] at h
              | ok position =>
                  simp only [hring, hbegin, hend, bind, Except.bind] at h
                  split at h
                  · contradiction
                  · cases h
                    rfl

/-- The transaction of a ring frame repeats the checkpoint or moves it. -/
theorem commitFrame_cases {retain : Nat} {db db' : Db} {p : Progress}
    {epoch fingerprint : String} {body : Option Checkpoint → Body}
    (h : commitFrame retain db p epoch fingerprint body = .ok db') :
    (∃ c, db.progress p.key = some c ∧ p.position = c.position ∧
      c.fingerprint = fingerprint ∧ db' = db) ∨
    ((∀ c, db.progress p.key = some c →
        c.position < p.position ∧ (p.kind ≠ .ringHealth → p.begin = c.position)) ∧
      ∃ id next, insert retain db (p.eventKey epoch) fingerprint (body (db.progress p.key)) =
          .ok (id, next) ∧
        db' = { next with
          progress := Function.update next.progress p.key
            (some { position := p.position, fingerprint }) }) := by
  -- the last two statements of the transaction
  have hadvance : ∀ {r : Except Raised Db},
      (do
        let (_, db) ← insert retain db (p.eventKey epoch) fingerprint
          (body (db.progress p.key))
        .ok { db with
          progress := Function.update db.progress p.key
            (some { position := p.position, fingerprint }) }) = r → r = .ok db' →
      ∃ id next, insert retain db (p.eventKey epoch) fingerprint (body (db.progress p.key)) =
          .ok (id, next) ∧
        db' = { next with
          progress := Function.update next.progress p.key
            (some { position := p.position, fingerprint }) } := by
    rintro r rfl hr
    cases hinsert : insert retain db (p.eventKey epoch) fingerprint
        (body (db.progress p.key)) with
    | error e =>
        rw [hinsert] at hr
        contradiction
    | ok result =>
        rw [hinsert] at hr
        cases hr
        exact ⟨_, _, rfl, rfl⟩
  unfold commitFrame at h
  cases hprevious : db.progress p.key with
  | none =>
      right
      refine ⟨fun c hc => by contradiction, ?_⟩
      simp only [hprevious] at h hadvance
      exact hadvance rfl h
  | some c =>
      simp only [hprevious] at h hadvance
      split_ifs at h with hregress hsame hfingerprint hgap
      · left
        exact ⟨c, rfl, hsame, by simpa using hfingerprint, by cases h; rfl⟩
      · right
        refine ⟨?_, hadvance rfl h⟩
        rintro _ ⟨⟩
        refine ⟨by omega, ?_⟩
        intro hkind
        by_contra hne
        exact hgap ⟨hkind, hne⟩

/-- A ring frame is accepted in one of two ways. -/
theorem accepted_of_acceptRing {rt : Runtime} {retain : Nat} {uuid : String} {storage : Bool}
    {j : Journal} {frame : Object} {db : Db} (hsize : rt.size (rawOf frame) ≤ maxFrame)
    (h : acceptRing rt retain storage j frame = .ok db) :
    Accepted rt retain uuid j frame { j with db := db } := by
  unfold acceptRing at h
  split at h
  · rename_i epoch kind hepoch hkind
    cases hp : progressOf rt kind (rawOf frame) with
    | error e => simp [hp, bind, Except.bind] at h
    | ok p =>
        cases hdecoded : decodedOf rt kind (rawOf frame) with
        | error e => simp [hp, hdecoded, bind, Except.bind] at h
        | ok decoded =>
            simp only [hp, hdecoded, bind, Except.bind, transaction] at h
            split at h
            · have hpkind : p.kind = kind := kind_of_progressOf hp
              subst hpkind
              have hreadable : Readable rt frame p := ⟨hsize, hkind, hp, decoded, hdecoded⟩
              rcases commitFrame_cases h with
                ⟨c, hprevious, hposition, hfingerprint, rfl⟩ |
                ⟨hnext, id, next, hinsert, rfl⟩
              · exact .repeated hepoch hreadable hprevious hposition hfingerprint
              · refine .advanced hepoch hreadable hnext ?_ hinsert
                unfold bodyOf
                split <;> exact ⟨_, _, _, _, rfl⟩
            · contradiction
  · contradiction

/-- Accepting a frame raises and changes nothing, or accepts it in one of four ways. -/
theorem accept_cases (rt : Runtime) (retain : Nat) (uuid : String) (storage : Bool) (j : Journal)
    (frame : Object) :
    (∃ e, accept rt retain uuid storage j frame = (.error e, j)) ∨
    ((accept rt retain uuid storage j frame).1 = .ok () ∧
      Accepted rt retain uuid j frame (accept rt retain uuid storage j frame).2) := by
  unfold accept
  split
  · exact .inl ⟨_, rfl⟩
  · rename_i hsize
    split
    · exact .inl ⟨_, rfl⟩
    · split
      · rename_i hkind
        unfold transaction commitSource
        cases storage with
        | false => exact .inl ⟨_, rfl⟩
        | true =>
            simp only [if_true]
            by_cases hsource : j.db.sourceId ≠ some (rt.sha256 (rawOf frame))
            · rw [if_pos hsource]
              cases hinsert : insert retain
                  { j.db with
                    progress := fun _ => none
                    sourceId := some (rt.sha256 (rawOf frame))
                    sourceEpoch := some uuid }
                  (.source uuid) (rt.sha256 (rawOf frame)) (.boundary uuid (rawOf frame)) with
              | error e => exact .inl ⟨e, rfl⟩
              | ok result => exact .inr ⟨rfl, .boundary hkind hsource hinsert⟩
            · rw [if_neg hsource]
              exact .inr ⟨rfl, .known hkind (by simpa using hsource)⟩
      · cases hring : acceptRing rt retain storage j frame with
        | error e => exact .inl ⟨e, rfl⟩
        | ok db =>
            refine .inr ⟨rfl, ?_⟩
            exact accepted_of_acceptRing (Nat.le_of_not_lt hsize) hring

end Collector
end LiveSurface
