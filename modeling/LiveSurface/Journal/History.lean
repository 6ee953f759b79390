import LiveSurface.Journal.Store
import LiveSurface.Library.Machine
import Mathlib.Data.List.Chain

/-!
# The journal is exactly-once

A history is any sequence of frames passed to {lit}`accept`, with the journal
reopened anywhere: a crash before a commit is a frame that was never passed, and
a crash after it is a reopening.  Beside the journal it records every row that
was ever inserted and every frame of a ring that was accepted.

Two assumptions about Python are part of a step: {lit}`uuid4` returns no epoch
twice, and SHA-256 does not collide on the frames of the history.

Main results:

- Theorem {lit}`Sound.step`: one operation keeps the invariant of the history.
- Theorem {lit}`journal_exactly_once`: intervals, repetitions, refusals and
  retention, over every history.
- Theorem {lit}`health_bytes_repeated`: a drop report is repeated with other byte
  counts without an error.
-/

namespace LiveSurface
namespace Collector

/-! ## Histories -/

/-- A journal and all that happened to it, oldest first: the rows ever inserted,
and the ring frames accepted, each with the epoch it was accepted in. -/
structure History where
  journal : Journal
  log : List Row
  accepted : List (String × Object)

/-- What can happen to a journal. -/
inductive HistoryOp
  | accept (frame : Object) (uuid : String) (storage : Bool)
  | reopen

/-- The rows a change of the file inserted. -/
def newRows (before after : Db) : List Row :=
  if after.sequence = before.sequence then [] else after.events.getLast?.toList

/-- The ring frame an operation accepted. -/
def acceptedBy (j : Journal) (frame : Object) : Except Raised Unit → List (String × Object)
  | .error _ => []
  | .ok _ =>
      match j.session.source, frameKind ((rawOf frame).get? "kind") with
      | some epoch, some _ => [(epoch, frame)]
      | _, _ => []

/-- The history after one more operation. -/
def historyNext (rt : Runtime) (retain : Nat) (h : History) : HistoryOp → History
  | .accept frame uuid storage =>
      let result := accept rt retain uuid storage h.journal frame
      { journal := result.2
        log := h.log ++ newRows h.journal.db result.2.db
        accepted := h.accepted ++ acceptedBy h.journal frame result.1 }
  | .reopen => { h with journal := reopen h.journal }

/-- A new journal file. -/
def emptyJournal (journalId : String) : Journal where
  db := {
    events := []
    sequence := 0
    journalId
    sourceId := none
    sourceEpoch := none
    progress := fun _ => none }
  session := { source := none, sourceFrame := none }

/-- The histories of a journal that keeps {lit}`retain` rows. -/
def historyMachine (rt : Runtime) (retain : Nat) : Machine History HistoryOp where
  init h := ∃ journalId, h = { journal := emptyJournal journalId, log := [], accepted := [] }
  next h op := some (historyNext rt retain h op)

/-- No epoch is drawn twice, and no two frames have one hash. -/
structure Distinct (rt : Runtime) (h : History) (frame : Object) (uuid : String) : Prop where
  uuid : ∀ row ∈ h.log, row.eventKey.epoch ≠ uuid
  sha256 : ∀ a ∈ h.accepted,
    rt.sha256 (content a.2) = rt.sha256 (content frame) → content a.2 = content frame

instance (rt : Runtime) (h : History) (frame : Object) (uuid : String) :
    Decidable (Distinct rt h frame uuid) :=
  decidable_of_iff ((∀ row ∈ h.log, row.eventKey.epoch ≠ uuid) ∧ ∀ a ∈ h.accepted,
      rt.sha256 (content a.2) = rt.sha256 (content frame) → content a.2 = content frame)
    ⟨fun h => ⟨h.1, h.2⟩, fun h => ⟨h.uuid, h.sha256⟩⟩

/-- The condition on each step of a history. -/
def HistoryOk (rt : Runtime) (h : History) : HistoryOp → Prop
  | .accept frame uuid _ => Distinct rt h frame uuid
  | .reopen => True

instance (rt : Runtime) (h : History) : (op : HistoryOp) → Decidable (HistoryOk rt h op)
  | .accept _ _ _ => inferInstanceAs (Decidable (Distinct _ _ _ _))
  | .reopen => isTrue trivial

/-! ## Progress -/

/-- The ring and the positions a frame names, whatever its kind. -/
def frameProgress (rt : Runtime) (raw : Object) : Option Progress :=
  (frameKind (raw.get? "kind")).bind fun kind => (progressOf rt kind raw).toOption

/-- The progress a row records. -/
def Row.progress (rt : Runtime) (row : Row) : Option Progress :=
  match row.body with
  | .boundary _ _ => none
  | .frame _ _ _ _ raw _ _ => frameProgress rt raw

/-- The progress of one state row that the log of an epoch records, in order. -/
def moves (rt : Runtime) (log : List Row) (epoch : String) (key : ProgressKey) : List Progress :=
  (log.filter fun row => row.eventKey.epoch = epoch).filterMap fun row =>
    (row.progress rt).filter fun p => p.key = key

/-- The record and discard intervals of a ring that the log of an epoch holds. -/
def intervals (rt : Runtime) (log : List Row) (epoch : String) (ring : Scalar) : List Progress :=
  moves rt log epoch { drops := false, ring }

/-- How two entries of one state row follow each other: positions increase, and a
record begins where the one before it ended. -/
def Follows (key : ProgressKey) (a b : Progress) : Prop :=
  a.position < b.position ∧ (key.drops = false → b.begin = a.position)

/-- The frame accepted last for a state row in an epoch. -/
def lastAccepted (rt : Runtime) (accepted : List (String × Object)) (epoch : String)
    (key : ProgressKey) : Option Object :=
  ((accepted.filter fun a =>
    a.1 = epoch ∧ (frameProgress rt (rawOf a.2)).map Progress.key = some key).map
      Prod.snd).getLast?

/-- The checkpoint a frame leaves. -/
def checkpointOf (rt : Runtime) (frame : Object) : Option Checkpoint :=
  (frameProgress rt (rawOf frame)).map fun p =>
    { position := p.position, fingerprint := rt.sha256 (content frame) }

section Progress

variable {rt : Runtime} {retain : Nat}

theorem Object.get?_without {raw : Object} {key other : String} (h : key ≠ other) :
    (raw.without other).get? key = raw.get? key := by
  induction raw with
  | nil => rfl
  | cons item rest ih =>
      by_cases hitem : item.1 = other
      · have hkey : item.1 ≠ key := fun heq => h (heq ▸ hitem)
        have hwithout : Object.without (item :: rest) other = Object.without rest other := by
          simp [Object.without, hitem]
        rw [hwithout, ih]
        simp [Object.get?, hkey]
      · have hwithout : Object.without (item :: rest) other =
            item :: Object.without rest other := by
          simp [Object.without, hitem]
        rw [hwithout]
        by_cases hkey : item.1 = key
        · simp [Object.get?, hkey]
        · simpa [Object.get?, hkey] using ih

/-- What is left out of the fingerprint does not concern the progress. -/
theorem frameProgress_content (frame : Object) :
    frameProgress rt (content frame) = frameProgress rt (rawOf frame) := by
  unfold content
  split
  · rename_i hkind
    have hget : ∀ key, key ≠ "drop_bytes" →
        ((rawOf frame).without "drop_bytes").get? key = (rawOf frame).get? key :=
      fun key h => Object.get?_without h
    simp only [frameProgress, hget "kind" (by decide), hkind, Option.bind_some, progressOf,
      ringOf, intField, hget "ring" (by decide), hget "drops" (by decide)]
  · rfl

/-- A readable frame names its progress. -/
theorem Readable.frameProgress {frame : Object} {p : Progress} (h : Readable rt frame p) :
    frameProgress rt (rawOf frame) = some p := by
  simp [Collector.frameProgress, h.kind, h.progress, Except.toOption]

/-- A record or discard has a positive length. -/
theorem begin_lt_of_progressOf {kind : FrameKind} {raw : Object} {p : Progress}
    (h : progressOf rt kind raw = .ok p) (hkind : p.kind ≠ .ringHealth) :
    p.begin < p.position := by
  have hpkind := kind_of_progressOf h
  subst hpkind
  unfold progressOf at h
  cases hring : ringOf raw with
  | error e => simp [hring, bind, Except.bind] at h
  | ok ring =>
      cases hp : p.kind with
      | ringHealth => exact absurd hp hkind
      | record | discard =>
          cases hbegin : intField rt raw "begin" with
          | error e => simp [hring, hp, hbegin, bind, Except.bind] at h
          | ok start =>
              cases hend : intField rt raw "end" with
              | error e => simp [hring, hp, hbegin, hend, bind, Except.bind] at h
              | ok position =>
                  simp only [hring, hp, hbegin, hend, bind, Except.bind] at h
                  split at h
                  · contradiction
                  · rename_i hbad
                    cases h
                    simp only
                    omega

theorem moves_append (log : List Row) (row : Row) (epoch : String) (key : ProgressKey) :
    moves rt (log ++ [row]) epoch key = moves rt log epoch key ++
      (if row.eventKey.epoch = epoch then
        ((row.progress rt).filter fun p => p.key = key).toList else []) := by
  unfold moves
  rw [List.filter_append, List.filterMap_append]
  split
  · rename_i h
    cases hrow : (row.progress rt).filter fun p => p.key = key <;>
      simp [h, hrow]
  · rename_i h
    simp [h]

theorem key_of_mem_moves {log : List Row} {epoch : String} {key : ProgressKey} {p : Progress}
    (hp : p ∈ moves rt log epoch key) : p.key = key := by
  unfold moves at hp
  rw [List.mem_filterMap] at hp
  obtain ⟨row, _, hrow⟩ := hp
  exact of_decide_eq_true (Option.filter_eq_some_iff.mp hrow).2

/-- An epoch without rows has no progress. -/
theorem moves_eq_nil {log : List Row} {epoch : String}
    (h : ∀ row ∈ log, row.eventKey.epoch ≠ epoch) (key : ProgressKey) :
    moves rt log epoch key = [] := by
  have hfilter : (log.filter fun row => row.eventKey.epoch = epoch) = [] := by
    rw [List.filter_eq_nil_iff]
    intro row hrow
    simpa using h row hrow
  simp [moves, hfilter]

/-- No entry is past the last one. -/
theorem position_le_last {key : ProgressKey} {l : List Progress} {z : Progress}
    (hchain : l.IsChain (Follows key)) (hlast : l.getLast? = some z) :
    ∀ q ∈ l, q.position ≤ z.position := by
  have hpairwise : l.Pairwise fun a b => a.position < b.position :=
    List.isChain_iff_pairwise.mp (hchain.imp fun _ _ h => h.1)
  intro q hq
  obtain ⟨init, rfl⟩ := List.getLast?_eq_some_iff.mp hlast
  rcases List.mem_append.mp hq with hq | hq
  · exact Int.le_of_lt ((List.pairwise_append.mp hpairwise).2.2 q hq z List.mem_cons_self)
  · rw [List.mem_singleton.mp hq]

end Progress

/-! ## The invariant -/

/-- A row is a source boundary, or the progress of a frame under its own key. -/
def RowSound (rt : Runtime) (row : Row) : Prop :=
  (∃ epoch, row.eventKey = .source epoch ∧ row.progress rt = none) ∨
  ∃ p epoch, row.progress rt = some p ∧ row.eventKey = p.eventKey epoch ∧
    (p.kind ≠ .ringHealth → p.begin < p.position)

/-- The table holds the newest rows of the log, whose ids count up from one. -/
structure Stored (retain : Nat) (db : Db) (log : List Row) : Prop where
  ids : log.map Row.id = List.range' 1 log.length
  sequence : db.sequence = log.length
  retained : db.events = log.drop (log.length - retain)

/-- What holds of every history. -/
structure Sound (rt : Runtime) (retain : Nat) (h : History) : Prop where
  stored : Stored retain h.journal.db h.log
  session : ∀ epoch, h.journal.session.source = some epoch →
    h.journal.db.sourceEpoch = some epoch
  rows : ∀ row ∈ h.log, RowSound rt row
  chain : ∀ epoch key, (moves rt h.log epoch key).IsChain (Follows key)
  last : ∀ epoch, h.journal.db.sourceEpoch = some epoch → ∀ key,
    (moves rt h.log epoch key).getLast?.map Progress.position =
      (h.journal.db.progress key).map Checkpoint.position
  checkpoint : ∀ epoch, h.journal.db.sourceEpoch = some epoch → ∀ key,
    h.journal.db.progress key =
      (lastAccepted rt h.accepted epoch key).bind (checkpointOf rt)
  readable : ∀ a ∈ h.accepted, ∃ p, Readable rt a.2 p
  epochs : ∀ a ∈ h.accepted, ∃ row ∈ h.log, row.eventKey.epoch = a.1
  inserted : ∀ a ∈ h.accepted, ∀ p, Readable rt a.2 p →
    ∃ q ∈ moves rt h.log a.1 p.key, q.begin = p.begin ∧ q.position = p.position
  recorded : ∀ epoch key, ∀ q ∈ moves rt h.log epoch key,
    ∃ frame, (epoch, frame) ∈ h.accepted ∧ Readable rt frame q

section Stored

variable {retain : Nat} {db : Db} {log : List Row}

/-- The ids of the table increase. -/
theorem Stored.sorted (h : Stored retain db log) : (db.events.map Row.id).Pairwise (· < ·) := by
  rw [h.retained, List.map_drop, h.ids]
  exact (List.pairwise_lt_range' ..).sublist (List.drop_sublist _ _)

/-- Inserting a row appends it to the log. -/
theorem Stored.addRow (h : Stored retain db log) (hretain : 2 ≤ retain) (key : EventKey)
    (fingerprint : String) (body : Body) :
    Stored retain (addRow retain db key fingerprint body)
      (log ++ [{ id := db.sequence + 1, eventKey := key, fingerprint, body }]) where
  ids := by
    rw [List.map_append, h.ids, List.length_append, List.length_singleton,
      List.range'_concat, h.sequence]
    simp [Nat.add_comm]
  sequence := by simp [Collector.addRow, h.sequence]
  retained := by
    have hcut : log.length - retain +
        (log.length - (log.length - retain) - (retain - 1)) = log.length + 1 - retain := by
      omega
    have hkept : keepNewest db.events (retain - 1) = log.drop (log.length + 1 - retain) := by
      rw [keepNewest_eq_drop _ h.sorted, h.retained, List.length_drop, List.drop_drop, hcut]
    rw [List.length_append, List.length_singleton, List.drop_append_of_le_length (by omega),
      ← hkept]
    rfl

/-- The rows a new row adds to the log. -/
theorem newRows_addRow (retain : Nat) (db : Db) (key : EventKey) (fingerprint : String)
    (body : Body) {db' : Db} (hdb : db'.events = (addRow retain db key fingerprint body).events)
    (hsequence : db'.sequence = (addRow retain db key fingerprint body).sequence) :
    newRows db db' = [{ id := db.sequence + 1, eventKey := key, fingerprint, body }] := by
  simp [newRows, hdb, hsequence, Collector.addRow]

end Stored

/-! ## Steps -/

section Steps

variable {rt : Runtime} {retain : Nat} {h : History} {frame : Object} {uuid : String}

/-- Two keys of one epoch are the same only for the same state row, and for the
same position or the same beginning. -/
theorem key_of_eventKey_eq {p q : Progress} {epoch epoch' : String}
    (heq : q.eventKey epoch' = p.eventKey epoch) :
    epoch' = epoch ∧ q.key = p.key ∧
      (p.kind = .ringHealth → q.position = p.position) ∧
      (p.kind ≠ .ringHealth → q.kind ≠ .ringHealth ∧ q.begin = p.begin) := by
  unfold Progress.eventKey at heq
  unfold Progress.key
  cases hp : p.kind <;> cases hq : q.kind <;> simp [hp, hq] at heq <;> simp [heq]

@[simp]
theorem Progress.eventKey_epoch (p : Progress) (epoch : String) :
    (p.eventKey epoch).epoch = epoch := by
  unfold Progress.eventKey
  split <;> rfl

@[simp]
theorem Progress.key_drops (p : Progress) :
    p.key.drops = false ↔ p.kind ≠ .ringHealth := by
  simp [Progress.key]

/-- The row a frame advances to is new: what its epoch holds for the same state
row lies at or before the checkpoint. -/
theorem Sound.fresh (hs : Sound rt retain h) {epoch : String} {p : Progress}
    (hepoch : h.journal.session.source = some epoch)
    (hnext : ∀ c, h.journal.db.progress p.key = some c →
      c.position < p.position ∧ (p.kind ≠ .ringHealth → p.begin = c.position)) :
    ∀ row ∈ h.log, row.eventKey ≠ p.eventKey epoch := by
  intro row hrow hkey
  rcases hs.rows row hrow with ⟨e, hsource, _⟩ | ⟨q, e, hq, hqkey, hqlt⟩
  · rw [hsource] at hkey
    unfold Progress.eventKey at hkey
    split at hkey <;> contradiction
  · obtain ⟨rfl, hsame, hhealth, hring⟩ := key_of_eventKey_eq (hqkey.symm.trans hkey)
    have hmem : q ∈ moves rt h.log e p.key := by
      unfold moves
      rw [List.mem_filterMap]
      refine ⟨row, ?_, ?_⟩
      · rw [List.mem_filter]
        refine ⟨hrow, ?_⟩
        simp [hqkey]
      · simp [hq, hsame]
    have hlast := hs.last e (hs.session e hepoch) p.key
    cases hmoves : (moves rt h.log e p.key).getLast? with
    | none => simp [List.getLast?_eq_none_iff.mp hmoves] at hmem
    | some z =>
        have hle := position_le_last (hs.chain e p.key) hmoves q hmem
        rw [hmoves] at hlast
        cases hc : h.journal.db.progress p.key with
        | none => simp [hc] at hlast
        | some c =>
            simp only [hc, Option.map_some, Option.some.injEq] at hlast
            have hafter := hnext c hc
            by_cases hkind : p.kind = .ringHealth
            · have := hhealth hkind
              omega
            · have h1 := hring hkind
              have h2 := hqlt h1.1
              have h3 := hafter.2 hkind
              omega

/-- Rows that are retained are rows of the log. -/
theorem Sound.mem_log (hs : Sound rt retain h) {row : Row} (hrow : row ∈ h.journal.db.events) :
    row ∈ h.log := by
  rw [hs.stored.retained] at hrow
  exact List.mem_of_mem_drop hrow

/-- The last accepted frame after one more. -/
theorem lastAccepted_append (accepted : List (String × Object)) (e : String) (frame : Object)
    (epoch : String) (key : ProgressKey) :
    lastAccepted rt (accepted ++ [(e, frame)]) epoch key =
      if e = epoch ∧ (frameProgress rt (rawOf frame)).map Progress.key = some key then some frame
      else lastAccepted rt accepted epoch key := by
  unfold lastAccepted
  rw [List.filter_append, List.map_append]
  split
  · rename_i hnew
    have hkept : ([(e, frame)].filter fun a => decide (a.1 = epoch ∧
        (frameProgress rt (rawOf a.2)).map Progress.key = some key)) = [(e, frame)] := by
      rw [List.filter_eq_self]
      intro a ha
      rw [List.mem_singleton.mp ha]
      exact decide_eq_true hnew
    rw [hkept, List.map_cons, List.map_nil, List.getLast?_concat]
  · rename_i hnew
    have hdropped : ([(e, frame)].filter fun a => decide (a.1 = epoch ∧
        (frameProgress rt (rawOf a.2)).map Progress.key = some key)) = [] := by
      rw [List.filter_eq_nil_iff]
      intro a ha
      rw [List.mem_singleton.mp ha, decide_eq_true_eq]
      exact hnew
    rw [hdropped, List.map_nil, List.append_nil]

/-- A last accepted frame was accepted. -/
theorem mem_accepted_of_lastAccepted {accepted : List (String × Object)} {epoch : String}
    {key : ProgressKey} {frame : Object}
    (hlast : lastAccepted rt accepted epoch key = some frame) : (epoch, frame) ∈ accepted := by
  have hmem := List.mem_of_getLast? hlast
  rw [List.mem_map] at hmem
  obtain ⟨a, ha, rfl⟩ := hmem
  rw [List.mem_filter] at ha
  have hepoch : a.1 = epoch := (of_decide_eq_true ha.2).1
  rw [← hepoch]
  exact ha.1

/-- An epoch without rows has no accepted frame. -/
theorem Sound.lastAccepted_eq_none (hs : Sound rt retain h) {epoch : String}
    (hfresh : ∀ row ∈ h.log, row.eventKey.epoch ≠ epoch) (key : ProgressKey) :
    lastAccepted rt h.accepted epoch key = none := by
  cases hlast : lastAccepted rt h.accepted epoch key with
  | none => rfl
  | some frame =>
      obtain ⟨row, hrow, hepoch⟩ := hs.epochs _ (mem_accepted_of_lastAccepted hlast)
      exact absurd hepoch (hfresh row hrow)

/-- Registering a source that is registered changes only the process. -/
theorem Sound.known (hs : Sound rt retain h) (source : Option Object) :
    Sound rt retain { h with
      journal := {
        db := h.journal.db
        session := { source := h.journal.db.sourceEpoch, sourceFrame := source } } } :=
  { hs with session := fun _ hepoch => hepoch }

/-- Reopening the journal changes only the process. -/
theorem Sound.reopen (hs : Sound rt retain h) :
    Sound rt retain { h with journal := reopen h.journal } :=
  { hs with session := fun _ hepoch => by contradiction }

/-- A new source starts an epoch without progress. -/
theorem Sound.boundary (hs : Sound rt retain h) (hretain : 2 ≤ retain)
    (hfresh : ∀ row ∈ h.log, row.eventKey.epoch ≠ uuid) {sourceId fingerprint : String}
    {raw : Object} {source : Option Object} {db : Db}
    (hdb : db = addRow retain
      { h.journal.db with
        progress := fun _ => none
        sourceId := some sourceId
        sourceEpoch := some uuid }
      (.source uuid) fingerprint (.boundary uuid raw)) :
    Sound rt retain
      { journal := { db := db, session := { source := db.sourceEpoch, sourceFrame := source } }
        log := h.log ++ newRows h.journal.db db
        accepted := h.accepted } := by
  have hstored : Stored retain
      { h.journal.db with
        progress := fun _ => none
        sourceId := some sourceId
        sourceEpoch := some uuid } h.log :=
    ⟨hs.stored.ids, hs.stored.sequence, hs.stored.retained⟩
  have hrows : newRows h.journal.db db = _ :=
    newRows_addRow retain h.journal.db (.source uuid) fingerprint (.boundary uuid raw)
      (by rw [hdb]; rfl) (by rw [hdb]; rfl)
  -- the boundary row has no progress
  have hmoves : ∀ epoch key, moves rt (h.log ++ newRows h.journal.db db) epoch key =
      moves rt h.log epoch key := by
    intro epoch key
    rw [hrows, moves_append]
    split <;> simp [Row.progress]
  have hepoch : db.sourceEpoch = some uuid := by rw [hdb]; rfl
  have hprogress : db.progress = fun _ => none := by rw [hdb]; rfl
  exact {
    stored := by
      rw [hrows, hdb]
      exact hstored.addRow hretain _ _ _
    session := fun epoch h => h
    rows := by
      intro row hrow
      rw [hrows] at hrow
      rcases List.mem_append.mp hrow with hold | hnew
      · exact hs.rows row hold
      · rw [List.mem_singleton.mp hnew]
        exact .inl ⟨uuid, rfl, rfl⟩
    chain := by
      intro epoch key
      rw [hmoves]
      exact hs.chain epoch key
    last := by
      intro epoch hsource key
      obtain rfl : uuid = epoch := by simpa [hepoch] using hsource
      rw [hmoves, moves_eq_nil hfresh, hprogress]
      rfl
    checkpoint := by
      intro epoch hsource key
      obtain rfl : uuid = epoch := by simpa [hepoch] using hsource
      rw [hprogress, hs.lastAccepted_eq_none hfresh]
      rfl
    readable := hs.readable
    epochs := by
      intro a ha
      obtain ⟨row, hrow, heq⟩ := hs.epochs a ha
      exact ⟨row, List.mem_append_left _ hrow, heq⟩
    inserted := by
      intro a ha p hp
      rw [hmoves]
      exact hs.inserted a ha p hp
    recorded := by
      intro epoch key
      rw [hmoves]
      exact hs.recorded epoch key }

/-- The checkpoints follow the frames accepted last, after one more of them. -/
theorem checkpoint_append {accepted : List (String × Object)} {epoch : String} {p : Progress}
    {progress progress' : ProgressKey → Option Checkpoint} (hframe : Readable rt frame p)
    (hold : ∀ key, progress key = (lastAccepted rt accepted epoch key).bind (checkpointOf rt))
    (hself : progress' p.key =
      some { position := p.position, fingerprint := rt.sha256 (content frame) })
    (hother : ∀ key, key ≠ p.key → progress' key = progress key) (key : ProgressKey) :
    progress' key =
      (lastAccepted rt (accepted ++ [(epoch, frame)]) epoch key).bind (checkpointOf rt) := by
  rw [lastAccepted_append, hframe.frameProgress]
  simp only [Option.map_some, Option.some.injEq, true_and]
  by_cases hkey : p.key = key
  · rw [if_pos hkey, ← hkey, hself]
    simp [checkpointOf, hframe.frameProgress]
  · rw [if_neg hkey, hother key (Ne.symm hkey)]
    exact hold key

/-- A repetition of the checkpoint adds an accepted frame and nothing else. -/
theorem Sound.repeated (hs : Sound rt retain h) {epoch : String} {p : Progress}
    {c : Checkpoint} (hdistinct : Distinct rt h frame uuid)
    (hepoch : h.journal.session.source = some epoch) (hframe : Readable rt frame p)
    (hprevious : h.journal.db.progress p.key = some c) (hposition : p.position = c.position)
    (hfingerprint : c.fingerprint = rt.sha256 (content frame)) :
    Sound rt retain { h with accepted := h.accepted ++ [(epoch, frame)] } := by
  have hcurrent := hs.session epoch hepoch
  -- the checkpoint was left by a frame with the same content
  have hcheckpoint := hs.checkpoint epoch hcurrent p.key
  rw [hprevious] at hcheckpoint
  obtain ⟨g, hlast, hg⟩ := Option.bind_eq_some_iff.mp hcheckpoint.symm
  have hmem := mem_accepted_of_lastAccepted hlast
  obtain ⟨q, hq⟩ := hs.readable _ hmem
  simp only [checkpointOf, hq.frameProgress, Option.map_some, Option.some.injEq] at hg
  have hcontent : content g = content frame := by
    apply hdistinct.sha256 _ hmem
    rw [← hfingerprint, ← hg]
  have hqp : q = p := by
    have := hq.frameProgress
    rw [← frameProgress_content, hcontent, frameProgress_content, hframe.frameProgress] at this
    exact (Option.some.inj this).symm
  subst hqp
  exact { hs with
    checkpoint := by
      intro e he key
      obtain rfl : epoch = e := by simpa [hcurrent] using he
      apply checkpoint_append hframe (hs.checkpoint epoch hcurrent)
      · rw [hprevious, ← hfingerprint, hposition]
      · intro key _
        rfl
    readable := by
      intro a ha
      rcases List.mem_append.mp ha with ha | ha
      · exact hs.readable a ha
      · rw [List.mem_singleton.mp ha]
        exact ⟨q, hframe⟩
    epochs := by
      intro a ha
      rcases List.mem_append.mp ha with ha | ha
      · exact hs.epochs a ha
      · rw [List.mem_singleton.mp ha]
        exact hs.epochs (epoch, g) hmem
    inserted := by
      intro a ha r hr
      rcases List.mem_append.mp ha with ha | ha
      · exact hs.inserted a ha r hr
      · rw [List.mem_singleton.mp ha] at hr ⊢
        obtain rfl : q = r := by simpa [hframe.frameProgress] using hr.frameProgress
        exact hs.inserted (epoch, g) hmem q hq
    recorded := by
      intro e key r hr
      obtain ⟨g', hg', hread⟩ := hs.recorded e key r hr
      exact ⟨g', List.mem_append_left _ hg', hread⟩ }

/-- An advance adds one row, one accepted frame and the checkpoint they share. -/
theorem Sound.advanced (hs : Sound rt retain h) (hretain : 2 ≤ retain) {epoch : String}
    {p : Progress} {body : Body} {type : String} {source : Option Object}
    {decoded : Option (Except String Metadata.Decoded)} {dropped : Option (Option Int)}
    {db : Db} (hepoch : h.journal.session.source = some epoch) (hframe : Readable rt frame p)
    (hnext : ∀ c, h.journal.db.progress p.key = some c →
      c.position < p.position ∧ (p.kind ≠ .ringHealth → p.begin = c.position))
    (hbody : body = .frame type epoch source (p.eventKey epoch) (content frame) decoded dropped)
    (hdb : db =
      { addRow retain h.journal.db (p.eventKey epoch) (rt.sha256 (content frame)) body with
        progress := Function.update h.journal.db.progress p.key
          (some { position := p.position, fingerprint := rt.sha256 (content frame) }) }) :
    Sound rt retain
      { journal := { h.journal with db := db }
        log := h.log ++ newRows h.journal.db db
        accepted := h.accepted ++ [(epoch, frame)] } := by
  have hcurrent := hs.session epoch hepoch
  have hrows : newRows h.journal.db db = _ :=
    newRows_addRow retain h.journal.db (p.eventKey epoch) (rt.sha256 (content frame)) body
      (by rw [hdb]) (by rw [hdb])
  have hsource : db.sourceEpoch = h.journal.db.sourceEpoch := by rw [hdb]; rfl
  generalize hrow : Row.mk (h.journal.db.sequence + 1) (p.eventKey epoch)
    (rt.sha256 (content frame)) body = row at hrows
  have hrowkey : row.eventKey = p.eventKey epoch := by rw [← hrow]
  have hprogress : row.progress rt = some p := by
    rw [← hrow, Row.progress, hbody]
    exact (frameProgress_content frame).trans hframe.frameProgress
  have hmoves : ∀ e key, moves rt (h.log ++ newRows h.journal.db db) e key =
      moves rt h.log e key ++ if epoch = e ∧ p.key = key then [p] else [] := by
    intro e key
    rw [hrows, moves_append, hrowkey, hprogress, Progress.eventKey_epoch]
    by_cases he : epoch = e <;> by_cases hkey : p.key = key <;> simp [he, hkey]
  -- the new entry follows the last one, which the checkpoint describes
  have hlast := hs.last epoch hcurrent p.key
  have hfollows : ∀ z, (moves rt h.log epoch p.key).getLast? = some z → Follows p.key z p := by
    intro z hz
    rw [hz] at hlast
    cases hc : h.journal.db.progress p.key with
    | none => simp [hc] at hlast
    | some c =>
        simp only [hc, Option.map_some, Option.some.injEq] at hlast
        have hafter := hnext c hc
        refine ⟨by omega, ?_⟩
        intro hring
        rw [hafter.2 (by simpa using hring), hlast]
  exact {
    stored := by
      have := hs.stored.addRow hretain (p.eventKey epoch) (rt.sha256 (content frame)) body
      rw [hrow] at this
      rw [hrows, hdb]
      exact ⟨this.ids, this.sequence, this.retained⟩
    session := by
      intro e he
      rw [hsource]
      exact hs.session e he
    rows := by
      intro r hr
      rw [hrows] at hr
      rcases List.mem_append.mp hr with hold | hnew
      · exact hs.rows r hold
      · rw [List.mem_singleton.mp hnew]
        exact .inr ⟨p, epoch, hprogress, hrowkey, begin_lt_of_progressOf hframe.progress⟩
    chain := by
      intro e key
      rw [hmoves]
      split
      · rename_i hboth
        obtain ⟨rfl, rfl⟩ := hboth
        rw [List.isChain_append]
        refine ⟨hs.chain _ _, .singleton _, ?_⟩
        intro z hz y hy
        simp only [List.head?_cons, Option.mem_def, Option.some.injEq] at hy
        subst hy
        exact hfollows z hz
      · rw [List.append_nil]
        exact hs.chain e key
    last := by
      intro e he key
      obtain rfl : epoch = e := by simpa [hsource, hcurrent] using he
      rw [hmoves, hdb]
      by_cases hkey : p.key = key
      · subst hkey
        simp
      · simp [hkey, Ne.symm hkey, hs.last epoch hcurrent key]
    checkpoint := by
      intro e he key
      obtain rfl : epoch = e := by simpa [hsource, hcurrent] using he
      apply checkpoint_append hframe (hs.checkpoint epoch hcurrent)
      · rw [hdb]
        simp
      · intro key hkey
        rw [hdb]
        simp [hkey]
    readable := by
      intro a ha
      rcases List.mem_append.mp ha with ha | ha
      · exact hs.readable a ha
      · rw [List.mem_singleton.mp ha]
        exact ⟨p, hframe⟩
    epochs := by
      intro a ha
      rw [hrows]
      rcases List.mem_append.mp ha with ha | ha
      · obtain ⟨r, hr, heq⟩ := hs.epochs a ha
        exact ⟨r, List.mem_append_left _ hr, heq⟩
      · rw [List.mem_singleton.mp ha]
        exact ⟨row, by simp, by simp [hrowkey]⟩
    inserted := by
      intro a ha r hr
      rw [hmoves]
      rcases List.mem_append.mp ha with ha | ha
      · obtain ⟨q, hq, heq⟩ := hs.inserted a ha r hr
        exact ⟨q, List.mem_append_left _ hq, heq⟩
      · rw [List.mem_singleton.mp ha] at hr ⊢
        obtain rfl : p = r := by simpa [hframe.frameProgress] using hr.frameProgress
        exact ⟨p, by simp, rfl, rfl⟩
    recorded := by
      intro e key r hr
      rw [hmoves, List.mem_append] at hr
      rcases hr with hold | hnew
      · obtain ⟨g, hg, hread⟩ := hs.recorded e key r hold
        exact ⟨g, List.mem_append_left _ hg, hread⟩
      · split at hnew
        · rename_i hboth
          rw [List.mem_singleton.mp hnew, ← hboth.1]
          exact ⟨frame, by simp, hframe⟩
        · contradiction }

/-- An operation that raises leaves the history as it was. -/
theorem historyNext_error {storage : Bool} {e : Raised}
    (herror : accept rt retain uuid storage h.journal frame = (.error e, h.journal)) :
    historyNext rt retain h (.accept frame uuid storage) = h := by
  simp [historyNext, herror, newRows, acceptedBy]

/-- A source frame is not a frame of a ring. -/
theorem acceptedBy_source (hkind : (rawOf frame).get? "kind" = some (.str "source"))
    (j : Journal) : acceptedBy j frame (.ok ()) = [] := by
  simp only [acceptedBy, hkind, frameKind]
  split <;> simp_all

/-- A readable frame is recorded with the epoch of the session. -/
theorem acceptedBy_ring {epoch : String} {p : Progress} {j : Journal}
    (hepoch : j.session.source = some epoch) (hframe : Readable rt frame p) :
    acceptedBy j frame (.ok ()) = [(epoch, frame)] := by
  simp only [acceptedBy, hepoch, hframe.kind]

/-- One operation keeps the invariant. -/
theorem Sound.step (hs : Sound rt retain h) (hretain : 2 ≤ retain) {op : HistoryOp}
    (hok : HistoryOk rt h op) : Sound rt retain (historyNext rt retain h op) := by
  cases op with
  | reopen => exact hs.reopen
  | accept frame uuid storage =>
      have hdistinct : Distinct rt h frame uuid := hok
      rcases accept_cases rt retain uuid storage h.journal frame with ⟨e, herror⟩ | ⟨hok, hway⟩
      · rw [historyNext_error herror]
        exact hs
      · simp only [historyNext, hok]
        generalize (accept rt retain uuid storage h.journal frame).2 = j at hway
        cases hway with
        | known hkind hsource =>
            rw [acceptedBy_source hkind]
            simpa [newRows] using hs.known (some (rawOf frame))
        | boundary hkind hsource hinsert =>
            rw [insert_cases] at hinsert
            · rw [acceptedBy_source hkind, List.append_nil]
              cases hinsert
              exact hs.boundary hretain hdistinct.uuid rfl
            · intro row hrow hkey
              refine hdistinct.uuid row (hs.mem_log hrow) ?_
              rw [hkey]
              rfl
        | repeated hepoch hframe hprevious hposition hfingerprint =>
            rw [acceptedBy_ring hepoch hframe]
            simpa [newRows] using
              hs.repeated hdistinct hepoch hframe hprevious hposition hfingerprint
        | advanced hepoch hframe hnext hbody hinsert =>
            obtain ⟨type, source, decoded, dropped, hbody⟩ := hbody
            rw [insert_cases] at hinsert
            · rw [acceptedBy_ring hepoch hframe]
              cases hinsert
              exact hs.advanced hretain hepoch hframe hnext hbody rfl
            · intro row hrow
              exact hs.fresh hepoch hnext row (hs.mem_log hrow)

/-- A new journal is sound. -/
theorem sound_init (hinit : (historyMachine rt retain).init h) : Sound rt retain h := by
  obtain ⟨journalId, rfl⟩ := hinit
  exact {
    stored := ⟨rfl, rfl, by simp [emptyJournal]⟩
    session := by simp [emptyJournal]
    rows := by simp
    chain := fun _ _ => .nil
    last := by simp [emptyJournal]
    checkpoint := by simp [emptyJournal]
    readable := by simp
    epochs := by simp
    inserted := by simp
    recorded := fun _ _ _ hq => by contradiction }

/-- The invariant holds after every history. -/
theorem sound_of_reachable (hretain : 2 ≤ retain) :
    ∀ h, (historyMachine rt retain).ReachableWhen (HistoryOk rt) h → Sound rt retain h := by
  apply Machine.ReachableWhen.invariant
  · intro h hinit
    exact sound_init hinit
  · intro h op h' _ hs hok hnext
    cases hnext
    exact hs.step hretain hok

/-! ## The journal law -/

/-- What a frame of a ring that passes every check runs into. -/
theorem accept_readable (retain : Nat) (uuid : String) (storage : Bool) {j : Journal}
    {epoch : String} {p : Progress} (hepoch : j.session.source = some epoch) (hframe : Readable rt frame p) :
    ∃ body, accept rt retain uuid storage j frame =
      match transaction storage
          (commitFrame retain j.db p epoch (rt.sha256 (content frame)) body) with
      | .error e => (.error e, j)
      | .ok db => (.ok (), { j with db := db }) := by
  obtain ⟨decoded, hdecoded⟩ := hframe.decoded
  refine ⟨bodyOf epoch j.session.sourceFrame (content frame) p decoded, ?_⟩
  have hkind : (rawOf frame).get? "kind" ≠ none := by
    intro hnone
    simpa [hnone, frameKind] using hframe.kind
  have hsource : (rawOf frame).get? "kind" ≠ some (.str "source") := by
    intro hsome
    simpa [hsome, frameKind] using hframe.kind
  have hring : acceptRing rt retain storage j frame = transaction storage
      (commitFrame retain j.db p epoch (rt.sha256 (content frame))
        (bodyOf epoch j.session.sourceFrame (content frame) p decoded)) := by
    simp [acceptRing, hepoch, hframe.kind, hframe.progress, hdecoded, bind, Except.bind]
  rw [accept, if_neg (Nat.not_lt.mpr hframe.size), if_neg hkind, if_neg hsource]
  exact hring ▸ rfl

/-- The frame accepted last for its state row is accepted again, without effect. -/
theorem Sound.accept_last (hs : Sound rt retain h) {epoch : String} {key : ProgressKey}
    (hepoch : h.journal.session.source = some epoch)
    (hlast : lastAccepted rt h.accepted epoch key = some frame) :
    accept rt retain uuid true h.journal frame = (.ok (), h.journal) := by
  obtain ⟨p, hframe⟩ := hs.readable _ (mem_accepted_of_lastAccepted hlast)
  have hkey : p.key = key := by
    have hmem := List.mem_of_getLast? hlast
    rw [List.mem_map] at hmem
    obtain ⟨a, ha, hframeEq⟩ := hmem
    rw [List.mem_filter] at ha
    have hsome := (of_decide_eq_true ha.2).2
    rw [hframeEq, hframe.frameProgress] at hsome
    exact Option.some.inj hsome
  have hc := hs.checkpoint epoch (hs.session epoch hepoch) key
  rw [hlast, Option.bind_some, checkpointOf, hframe.frameProgress, Option.map_some] at hc
  subst hkey
  obtain ⟨body, hbody⟩ := accept_readable retain uuid true hepoch hframe
  rw [hbody]
  simp [transaction, commitFrame, hc]

/-- A frame that regresses, leaves a gap or repeats the checkpoint with another
content is refused. -/
theorem Sound.refused (hs : Sound rt retain h) {storage : Bool} {p : Progress} {c : Checkpoint}
    (hdistinct : Distinct rt h frame uuid) (hframe : Readable rt frame p)
    (hprevious : h.journal.db.progress p.key = some c)
    (hbad : p.position < c.position ∨
      (p.kind ≠ .ringHealth ∧ c.position < p.position ∧ p.begin ≠ c.position) ∨
      (p.position = c.position ∧ ∃ epoch g, h.journal.db.sourceEpoch = some epoch ∧
        lastAccepted rt h.accepted epoch p.key = some g ∧ content frame ≠ content g)) :
    ∃ e, accept rt retain uuid storage h.journal frame = (.error e, h.journal) := by
  have hsource : (rawOf frame).get? "kind" ≠ some (.str "source") := by
    intro hsome
    simpa [hsome, frameKind] using hframe.kind
  rcases accept_cases rt retain uuid storage h.journal frame with herror | ⟨_, hway⟩
  · exact herror
  · exfalso
    generalize (accept rt retain uuid storage h.journal frame).2 = j at hway
    cases hway with
    | known hkind _ => exact hsource hkind
    | boundary hkind _ _ => exact hsource hkind
    | repeated hepoch hframe' hprevious' hposition hfingerprint =>
        obtain rfl := Option.some.inj (hframe.frameProgress.symm.trans hframe'.frameProgress)
        rw [hprevious] at hprevious'
        cases hprevious'
        rcases hbad with hregress | ⟨_, hgap, _⟩ | ⟨_, epoch, g, hcurrent, hlast, hne⟩
        · omega
        · omega
        · have hcheckpoint := hs.checkpoint epoch hcurrent p.key
          obtain ⟨q, hq⟩ := hs.readable _ (mem_accepted_of_lastAccepted hlast)
          rw [hprevious, hlast, Option.bind_some, checkpointOf, hq.frameProgress,
            Option.map_some, Option.some.injEq] at hcheckpoint
          apply hne
          symm
          apply hdistinct.sha256 _ (mem_accepted_of_lastAccepted hlast)
          rw [← hfingerprint, hcheckpoint]
    | advanced _ hframe' hnext _ _ =>
        obtain rfl := Option.some.inj (hframe.frameProgress.symm.trans hframe'.frameProgress)
        have hafter := hnext c hprevious
        rcases hbad with hregress | ⟨hkind, _, hgap⟩ | ⟨hsame, _⟩
        · omega
        · exact hgap (hafter.2 hkind)
        · omega

/-- In a strictly increasing list, an entry occurs once. -/
theorem countP_eq_one {key : ProgressKey} {l : List Progress} {b x : Int}
    (hchain : l.IsChain (Follows key)) (hmem : ∃ q ∈ l, q.begin = b ∧ q.position = x) :
    l.countP (fun q => q.begin = b ∧ q.position = x) = 1 := by
  have hpairwise : l.Pairwise fun a b => a.position < b.position :=
    List.isChain_iff_pairwise.mp (hchain.imp fun _ _ h => h.1)
  obtain ⟨q, hq, hqb, hqx⟩ := hmem
  obtain ⟨before, after, rfl⟩ := List.append_of_mem hq
  have hbefore : before.countP (fun q => q.begin = b ∧ q.position = x) = 0 := by
    rw [List.countP_eq_zero]
    intro r hr
    have := (List.pairwise_append.mp hpairwise).2.2 r hr q List.mem_cons_self
    simp only [decide_eq_true_eq]
    omega
  have hafter : after.countP (fun q => q.begin = b ∧ q.position = x) = 0 := by
    rw [List.countP_eq_zero]
    intro r hr
    have := List.rel_of_pairwise_cons (List.pairwise_append.mp hpairwise).2.1 hr
    simp only [decide_eq_true_eq]
    omega
  rw [List.countP_append, List.countP_cons_of_pos (by simp [hqb, hqx]), hbefore, hafter]

end Steps

/-! ## A sample history -/

/-- A source frame, a record, and a drop report, as the reader prints them. -/
def sampleSource : Object := [("kind", .str "source"), ("token", .str "H")]

def sampleRecord : Object :=
  [("begin", .str "0"), ("data", .str ""), ("end", .str "8"), ("kind", .str "record"),
    ("ring", .int 0), ("schema", .int 7), ("token", .str "R:0:0:8")]

def sampleHealth (dropBytes : String) : Object :=
  [("drop_bytes", .str dropBytes), ("drops", .str "1"), ("kind", .str "ring_health"),
    ("ring", .int 0), ("token", .str "D:0:1")]

/-- Python on the sample frames. -/
def sampleRuntime : Runtime where
  sha256 raw :=
    if raw = rawOf sampleSource then "8d3a" else if raw = rawOf sampleRecord then "41c7" else "e05b"
  size _ := 72
  int
    | .int n => some n
    | .str "0" => some 0
    | .str "1" => some 1
    | .str "8" => some 8
    | _ => none
  fromhex
    | .str "" => some []
    | _ => none

def sampleStart : History where
  journal := emptyJournal "4b0c"
  log := []
  accepted := []

/-- A record is accepted, repeated after a restart, and followed by a drop report. -/
def sampleHistory : History :=
  ((historyMachine sampleRuntime 2).runWhen (HistoryOk sampleRuntime) sampleStart
    [.accept sampleSource "a1" true, .accept sampleRecord "a2" true, .reopen,
      .accept sampleSource "a3" true, .accept sampleRecord "a4" true,
      .accept (sampleHealth "184") "a5" true]).getD sampleStart

theorem readable_sampleRecord : Readable sampleRuntime sampleRecord
    { kind := .record, ring := .int 0, «begin» := 0, position := 8 } where
  size := by decide
  kind := by decide
  progress := rfl
  decoded := ⟨none, rfl⟩

theorem reachable_sampleHistory :
    (historyMachine sampleRuntime 2).ReachableWhen (HistoryOk sampleRuntime) sampleHistory :=
  Machine.reachableWhen_run_getD (.start ⟨_, rfl⟩) (by decide +kernel)

/-- After every history of a journal, with restarts and repetitions anywhere:

- the record and discard intervals of a ring in one epoch lie end to end, each of
  them from an accepted frame, and each accepted interval was inserted once;
- accepting the frame that was accepted last for its state row changes nothing,
  whether or not its row is still retained;
- an operation that raises changes nothing, and a frame that regresses, leaves a
  gap or repeats the checkpoint with another content raises;
- the ids of the rows ever inserted count up from one, and the table holds the
  newest {lit}`retain` of them. -/
theorem journal_exactly_once (rt : Runtime) (retain : Nat) (hretain : 2 ≤ retain) (h : History)
    (hh : (historyMachine rt retain).ReachableWhen (HistoryOk rt) h) :
    (∀ epoch ring,
      (intervals rt h.log epoch ring).IsChain
        (fun a b => b.begin = a.position ∧ a.position < b.position) ∧
      ∀ p ∈ intervals rt h.log epoch ring, p.begin < p.position ∧
        ∃ frame, (epoch, frame) ∈ h.accepted ∧ Readable rt frame p) ∧
    (∀ a ∈ h.accepted, ∀ p, Readable rt a.2 p → p.kind ≠ .ringHealth →
      (intervals rt h.log a.1 p.ring).countP
        (fun q => q.begin = p.begin ∧ q.position = p.position) = 1) ∧
    (∀ epoch key frame uuid, h.journal.session.source = some epoch →
      lastAccepted rt h.accepted epoch key = some frame →
      accept rt retain uuid true h.journal frame = (.ok (), h.journal)) ∧
    (∀ frame uuid storage e, (accept rt retain uuid storage h.journal frame).1 = .error e →
      (accept rt retain uuid storage h.journal frame).2 = h.journal) ∧
    (∀ frame uuid storage p c, Distinct rt h frame uuid → Readable rt frame p →
      h.journal.db.progress p.key = some c →
      (p.position < c.position ∨
        (p.kind ≠ .ringHealth ∧ c.position < p.position ∧ p.begin ≠ c.position) ∨
        (p.position = c.position ∧ ∃ epoch g, h.journal.db.sourceEpoch = some epoch ∧
          lastAccepted rt h.accepted epoch p.key = some g ∧ content frame ≠ content g)) →
      ∃ e, accept rt retain uuid storage h.journal frame = (.error e, h.journal)) ∧
    h.log.map Row.id = List.range' 1 h.log.length ∧
    h.journal.db.events = h.log.drop (h.log.length - retain) := by
  have hs := sound_of_reachable hretain h hh
  refine ⟨?_, ?_, ?_, ?_, ?_, hs.stored.ids, hs.stored.retained⟩
  · intro epoch ring
    refine ⟨(hs.chain epoch _).imp fun a b hab => ⟨hab.2 rfl, hab.1⟩, ?_⟩
    intro p hp
    obtain ⟨frame, hmem, hframe⟩ := hs.recorded epoch _ p hp
    refine ⟨begin_lt_of_progressOf hframe.progress ?_, frame, hmem, hframe⟩
    rw [← Progress.key_drops, key_of_mem_moves hp]
  · intro a ha p hp hkind
    have hkey : p.key = { drops := false, ring := p.ring } := by
      simp [Progress.key, hkind]
    have hmem := hs.inserted a ha p hp
    rw [hkey] at hmem
    exact countP_eq_one (hs.chain a.1 _) hmem
  · intro epoch key frame uuid hepoch hlast
    exact hs.accept_last hepoch hlast
  · intro frame uuid storage e herror
    rcases accept_cases rt retain uuid storage h.journal frame with ⟨_, hsame⟩ | ⟨hok, _⟩
    · rw [hsame]
    · rw [hok] at herror
      contradiction
  · intro frame uuid storage p c hdistinct hframe hprevious hbad
    exact hs.refused hdistinct hframe hprevious hbad

/-- On the sample history the one record was inserted once, although its row is no
longer retained, and two of the three rows are. -/
theorem journal_exactly_once_sample :
    (intervals sampleRuntime sampleHistory.log "a1" (.int 0)).countP
      (fun q => q.begin = 0 ∧ q.position = 8) = 1 ∧
    sampleHistory.journal.db.events = sampleHistory.log.drop (sampleHistory.log.length - 2) :=
  have h := journal_exactly_once sampleRuntime 2 (Nat.le_refl 2) sampleHistory
    reachable_sampleHistory
  ⟨h.2.1 ("a1", sampleRecord) (by decide +kernel) _ readable_sampleRecord (by decide),
    h.2.2.2.2.2.2⟩

/-- A drop report that repeats the last one with another byte count differs from
it and is accepted: the byte count is not part of what is fingerprinted. -/
theorem health_bytes_repeated :
    (historyMachine sampleRuntime 2).ReachableWhen (HistoryOk sampleRuntime) sampleHistory ∧
    lastAccepted sampleRuntime sampleHistory.accepted "a1" { drops := true, ring := .int 0 } =
      some (sampleHealth "184") ∧
    sampleHealth "368" ≠ sampleHealth "184" ∧
    (accept sampleRuntime 2 "a6" true sampleHistory.journal (sampleHealth "368")).1 = .ok () :=
  ⟨reachable_sampleHistory, by decide +kernel, by decide, by decide +kernel⟩

end Collector
end LiveSurface
