import LiveSurface.Journal.History

/-!
# Replay is gap-free

Replay clients own their cursors.  A cursor is an event id under the identity of
the journal; a page holds the events after it, and names the cursor to continue
from.  The writer inserts and deletes rows between the calls of a client.

Main results:

- Theorem {lit}`replay_after`: what a cursor inside the journal's history is
  answered, in terms of everything ever inserted.
- Theorem {lit}`replay_gap_free`: the pages of a client, over every interleaving
  of its calls with the history of the journal.
-/

namespace LiveSurface
namespace Collector

/-! ## Answers -/

/-- A cursor: {lit}`f"{journal_id}:{offset}"`. -/
structure Cursor where
  journalId : String
  offset : Int
deriving DecidableEq

/-- What every answer says about the journal. -/
structure Boundary where
  journalId : String
  oldestCursor : Cursor
  latestCursor : Cursor
  start : Option String
deriving DecidableEq

/-- An answer: a page with status 200, or an error with status 409. -/
inductive Answer
  | page (boundary : Boundary) (events : List (Cursor × Body)) (nextCursor : Cursor)
  | conflict (boundary : Boundary) (error : String) (requested : Option Cursor)

/-- {lit}`SELECT id,body FROM events WHERE id>? ORDER BY id LIMIT ?`. -/
def selectAfter (events : List Row) (after : Int) (limit : Nat) : List Row :=
  ((events.filter fun row => after < row.id).mergeSort fun a b => decide (a.id ≤ b.id)).take limit

/-- The page of the events after an offset. -/
def pageAfter (db : Db) (boundary : Boundary) (after : Int) (limit : Nat) : Answer :=
  let rows := selectAfter db.events after limit
  .page boundary
    (rows.map fun row => ({ journalId := db.journalId, offset := row.id }, row.body))
    { journalId := db.journalId
      offset := (rows.getLast?.map fun row => (row.id : Int)).getD after }

/-- {lit}`oldest or 1`. -/
def oldestId (db : Db) : Nat := (db.events.map Row.id).min?.getD 1

/-- {lit}`newest or 0`. -/
def newestId (db : Db) : Nat := (db.events.map Row.id).max?.getD 0

/-- The boundary of an answer to a client with a cursor. -/
def boundaryOf (db : Db) : Boundary where
  journalId := db.journalId
  oldestCursor := { journalId := db.journalId, offset := (oldestId db : Int) - 1 }
  latestCursor := { journalId := db.journalId, offset := newestId db }
  start := none

/-- {lit}`replay`, on the snapshot its read transaction sees. -/
def replay (db : Db) (cursor : Option Cursor) (limit : Int) : Except String Answer :=
  if ¬(1 ≤ limit ∧ limit ≤ 128) then .error "limit must be 1..128"
  else
    match cursor with
    | none =>
        .ok (pageAfter db
          { boundaryOf db with start := some "oldest_retained; earlier history not requested" }
          ((oldestId db : Int) - 1) limit.toNat)
    | some c =>
        if c.journalId ≠ db.journalId then .ok (.conflict (boundaryOf db) "wrong_journal" none)
        else if c.offset < (oldestId db : Int) - 1 then
          .ok (.conflict (boundaryOf db) "retention_gap" (some c))
        else if c.offset > newestId db then
          .ok (.conflict (boundaryOf db) "future_cursor" none)
        else .ok (pageAfter db (boundaryOf db) c.offset limit.toNat)

/-- The cursors an answer hands to the client. -/
def Answer.cursors : Answer → List Cursor
  | .page boundary events next =>
      boundary.oldestCursor :: boundary.latestCursor :: next :: events.map Prod.fst
  | .conflict boundary _ _ => [boundary.oldestCursor, boundary.latestCursor]

/-! ## Clients -/

/-- A client beside the journal: the cursors it was given, and, once it follows
one, where it started, where it is, and the events of its pages. -/
structure Client where
  given : List Cursor
  following : Option (Cursor × Cursor)
  received : List (Cursor × Body)

/-- A journal and a client. -/
structure ReplayState where
  history : History
  client : Client

/-- What can happen: the journal moves, the client asks without a cursor, takes up
a cursor it was given, or asks for the next page. -/
inductive ReplayOp
  | journal (op : HistoryOp)
  | ask (limit : Int)
  | takeUp (cursor : Cursor)
  | request (limit : Int)

/-- What the client does with an answer: it keeps the cursors, and follows the
next one of a page. -/
def Client.receive (client : Client) (start cursor : Cursor) (answer : Answer) : Client :=
  match answer with
  | .page _ events next =>
      { given := client.given ++ answer.cursors
        following := some (start, next)
        received := client.received ++ events }
  | .conflict _ _ _ =>
      { client with
        given := client.given ++ answer.cursors
        following := some (start, cursor) }

/-- The client starts over from a cursor. -/
def Client.startAt (client : Client) (cursor : Cursor) : Client :=
  { client with following := some (cursor, cursor), received := [] }

/-- The next state. -/
def replayNext (rt : Runtime) (retain : Nat) (s : ReplayState) : ReplayOp → Option ReplayState
  | .journal op => some { s with history := historyNext rt retain s.history op }
  | .ask limit =>
      match replay s.history.journal.db none limit with
      | .error _ => none
      | .ok answer =>
          let oldest := (boundaryOf s.history.journal.db).oldestCursor
          some { s with client := (s.client.startAt oldest).receive oldest oldest answer }
  | .takeUp cursor =>
      if cursor ∈ s.client.given then some { s with client := s.client.startAt cursor } else none
  | .request limit =>
      match s.client.following with
      | none => none
      | some (start, cursor) =>
          match replay s.history.journal.db (some cursor) limit with
          | .error _ => none
          | .ok answer => some { s with client := s.client.receive start cursor answer }

/-- A journal from its creation on, and a client that was given nothing yet. -/
def replayMachine (rt : Runtime) (retain : Nat) : Machine ReplayState ReplayOp where
  init s := (historyMachine rt retain).init s.history ∧
    s.client = { given := [], following := none, received := [] }
  next := replayNext rt retain

/-- The condition on the steps of the journal. -/
def ReplayOk (rt : Runtime) (s : ReplayState) : ReplayOp → Prop
  | .journal op => HistoryOk rt s.history op
  | _ => True

instance (rt : Runtime) (s : ReplayState) : (op : ReplayOp) → Decidable (ReplayOk rt s op)
  | .journal _ => inferInstanceAs (Decidable (HistoryOk _ _ _))
  | .ask _ => isTrue trivial
  | .takeUp _ => isTrue trivial
  | .request _ => isTrue trivial

/-- The events of a list of rows, as a page shows them. -/
def shown (journalId : String) (rows : List Row) : List (Cursor × Body) :=
  rows.map fun row => ({ journalId, offset := row.id }, row.body)

/-! ## Answers in terms of the log -/

section Answers

variable {retain : Nat} {db : Db} {log : List Row}

/-- The id of a row is its place in the log. -/
theorem id_getElem (hids : log.map Row.id = List.range' 1 log.length) {i : Nat}
    (hi : i < log.length) : log[i].id = i + 1 := by
  have h := congrArg (fun l => l[i]?) hids
  simp only [List.getElem?_map, List.getElem?_eq_getElem hi, Option.map_some,
    List.getElem?_range' hi, Option.some.injEq] at h
  omega

/-- The rows after an id are those after as many rows. -/
theorem filter_after (hids : log.map Row.id = List.range' 1 log.length) (k : Nat) :
    (log.filter fun row => (k : Int) < row.id) = log.drop k := by
  have hold : (log.take k).filter (fun row => decide ((k : Int) < row.id)) = [] := by
    rw [List.filter_eq_nil_iff]
    intro row hrow
    obtain ⟨i, hi, rfl⟩ := List.getElem_of_mem hrow
    rw [List.length_take] at hi
    rw [List.getElem_take, id_getElem hids (by omega)]
    simp only [decide_eq_true_eq]
    omega
  have hnew : (log.drop k).filter (fun row => decide ((k : Int) < row.id)) = log.drop k := by
    rw [List.filter_eq_self]
    intro row hrow
    obtain ⟨i, hi, rfl⟩ := List.getElem_of_mem hrow
    rw [List.length_drop] at hi
    rw [List.getElem_drop, id_getElem hids (by omega)]
    simp only [decide_eq_true_eq]
    omega
  conv_lhs => rw [← List.take_append_drop k log, List.filter_append, hold, hnew]
  rfl

/-- A selection after a retained position is the next part of the log. -/
theorem Stored.selectAfter (h : Stored retain db log) {k : Nat}
    (hk : log.length - retain ≤ k) (limit : Nat) :
    selectAfter db.events k limit = (log.drop k).take limit := by
  have hsorted : (log.map Row.id).Pairwise (· < ·) := by
    rw [h.ids]
    exact List.pairwise_lt_range' ..
  have hfilter : (db.events.filter fun row => (k : Int) < row.id) = log.drop k := by
    rw [← filter_after h.ids k, h.retained]
    have hcut : (log.take (log.length - retain)).filter
        (fun row => decide ((k : Int) < row.id)) = [] := by
      rw [List.filter_eq_nil_iff]
      intro row hrow hlt
      have hmem : row ∈ log.filter fun row => (k : Int) < row.id :=
        List.mem_filter.mpr ⟨List.mem_of_mem_take hrow, hlt⟩
      rw [filter_after h.ids k] at hmem
      have hpair := hsorted
      rw [← List.take_append_drop (log.length - retain) log, List.map_append,
        List.pairwise_append] at hpair
      have hlater : row ∈ log.drop (log.length - retain) := by
        have hdrop : log.drop k = (log.drop (log.length - retain)).drop
            (k - (log.length - retain)) := by
          rw [List.drop_drop]
          congr 1
          omega
        rw [hdrop] at hmem
        exact List.mem_of_mem_drop hmem
      exact Nat.lt_irrefl _
        (hpair.2.2 _ (List.mem_map_of_mem hrow) _ (List.mem_map_of_mem hlater))
    conv_rhs => rw [← List.take_append_drop (log.length - retain) log, List.filter_append, hcut]
    rfl
  rw [Collector.selectAfter, hfilter, List.mergeSort_of_pairwise]
  have hdrop : ((log.drop k).map Row.id).Pairwise (· < ·) := by
    rw [List.map_drop]
    exact hsorted.sublist (List.drop_sublist _ _)
  rw [List.pairwise_map] at hdrop
  exact hdrop.imp fun hlt => by simpa using Nat.le_of_lt hlt

/-- The oldest retained id. -/
theorem Stored.oldest (h : Stored retain db log) (hretain : 1 ≤ retain) :
    (oldestId db : Int) - 1 = ((log.length - retain : Nat) : Int) := by
  rw [oldestId, h.retained, List.map_drop, h.ids]
  by_cases hempty : log.length = 0
  · simp [hempty]
  · have hmin : (List.drop (log.length - retain) (List.range' 1 log.length)).min? =
        some (log.length - retain + 1) := by
      rw [List.min?_eq_some_iff]
      constructor
      · rw [List.drop_range', List.mem_range']
        exact ⟨0, by omega, by omega⟩
      · intro b hb
        rw [List.drop_range', List.mem_range'] at hb
        obtain ⟨i, _, rfl⟩ := hb
        omega
    rw [hmin]
    simp

/-- The newest id. -/
theorem Stored.newest (h : Stored retain db log) (hretain : 1 ≤ retain) :
    newestId db = log.length := by
  rw [newestId, h.retained, List.map_drop, h.ids]
  by_cases hempty : log.length = 0
  · simp [hempty]
  · have hmax : (List.drop (log.length - retain) (List.range' 1 log.length)).max? =
        some log.length := by
      rw [List.max?_eq_some_iff]
      constructor
      · rw [List.drop_range', List.mem_range']
        exact ⟨log.length - (log.length - retain) - 1, by omega, by omega⟩
      · intro b hb
        rw [List.drop_range', List.mem_range'] at hb
        obtain ⟨i, hi, rfl⟩ := hb
        omega
    rw [hmax]
    rfl

/-- The page after a retained position, and the cursor it continues from. -/
theorem Stored.pageAfter (h : Stored retain db log) {k : Nat} (hk : log.length - retain ≤ k)
    (hlast : k ≤ log.length) (boundary : Boundary) (limit : Nat) :
    pageAfter db boundary k limit =
      .page boundary (shown db.journalId ((log.drop k).take limit))
        { journalId := db.journalId, offset := (k + min limit (log.length - k) : Nat) } := by
  have hids : ((log.drop k).take limit).map Row.id =
      List.range' (k + 1) (min limit (log.length - k)) := by
    rw [List.map_take, List.map_drop, h.ids, List.drop_range', Nat.mul_one, Nat.add_comm 1 k]
    rcases Nat.le_total limit (log.length - k) with hle | hle
    · rw [List.take_range'_of_length_ge hle, Nat.min_eq_left hle]
    · rw [List.take_range'_of_length_le hle, Nat.min_eq_right hle]
  have hnext : ((((log.drop k).take limit).getLast?.map fun row => (row.id : Int)).getD k) =
      ((k + min limit (log.length - k) : Nat) : Int) := by
    have hmap : (((log.drop k).take limit).getLast?.map fun row => (row.id : Int)) =
        (((log.drop k).take limit).map Row.id).getLast?.map fun n : Nat => (n : Int) := by
      rw [List.getLast?_map, Option.map_map]
      rfl
    rw [hmap, hids, List.getLast?_range']
    split
    · rename_i hzero
      simp [hzero]
    · simp only [Option.map_some, Option.getD_some]
      omega
  simp only [Collector.pageAfter, h.selectAfter hk, hnext, shown]

/-- What a cursor inside the history is answered: a gap exactly when a row after it
is no longer retained, and otherwise the next rows of the log. -/
theorem replay_after (h : Stored retain db log) (hretain : 1 ≤ retain) {k : Nat}
    (hk : k ≤ log.length) {limit : Int} (hlimit : 1 ≤ limit ∧ limit ≤ 128) :
    replay db (some { journalId := db.journalId, offset := k }) limit = .ok
      (if k < log.length - retain then
        .conflict (boundaryOf db) "retention_gap" (some { journalId := db.journalId, offset := k })
      else
        .page (boundaryOf db) (shown db.journalId ((log.drop k).take limit.toNat))
          { journalId := db.journalId
            offset := (k + min limit.toNat (log.length - k) : Nat) }) := by
  rw [replay, if_neg (not_not.mpr hlimit)]
  simp only [ne_eq, not_true_eq_false, if_false, h.oldest hretain, h.newest hretain]
  by_cases hgap : k < log.length - retain
  · rw [if_pos (by exact_mod_cast hgap), if_pos hgap]
  · rw [if_neg (by exact_mod_cast hgap), if_neg (by omega), if_neg hgap,
      h.pageAfter (by omega) hk]

/-- What a client without a cursor is answered. -/
theorem replay_none (h : Stored retain db log) (hretain : 1 ≤ retain) {limit : Int}
    (hlimit : 1 ≤ limit ∧ limit ≤ 128) :
    replay db none limit = .ok
      (.page { boundaryOf db with
          start := some "oldest_retained; earlier history not requested" }
        (shown db.journalId ((log.drop (log.length - retain)).take limit.toNat))
        { journalId := db.journalId
          offset := (log.length - retain +
            min limit.toNat (log.length - (log.length - retain)) : Nat) }) := by
  rw [replay, if_neg (not_not.mpr hlimit)]
  simp only [h.oldest hretain]
  rw [h.pageAfter (Nat.le_refl _) (by omega)]

/-- A row after a position is missing from the table exactly when the position lies
before the retained rows. -/
theorem deleted_after_iff (h : Stored retain db log) {k : Nat} :
    (∃ row ∈ log, k < row.id ∧ row ∉ db.events) ↔ k < log.length - retain := by
  rw [h.retained]
  constructor
  · rintro ⟨row, hrow, hlt, hgone⟩
    obtain ⟨i, hi, rfl⟩ := List.getElem_of_mem hrow
    rw [id_getElem h.ids hi] at hlt
    by_contra hge
    apply hgone
    rw [List.mem_drop_iff_getElem]
    exact ⟨i - (log.length - retain), by omega, by congr 1; omega⟩
  · intro hlt
    have hi : log.length - retain - 1 < log.length := by omega
    refine ⟨log[log.length - retain - 1], List.getElem_mem _, ?_, ?_⟩
    · rw [id_getElem h.ids hi]
      omega
    · intro hmem
      obtain ⟨j, hj, heq⟩ := List.mem_drop_iff_getElem.mp hmem
      have hids := congrArg Row.id heq
      rw [id_getElem h.ids (by omega), id_getElem h.ids hi] at hids
      omega

end Answers

/-! ## The client's invariant -/

/-- A cursor inside the history of a journal. -/
def Inside (h : History) (c : Cursor) : Prop :=
  c.journalId = h.journal.db.journalId ∧ ∃ k ≤ h.log.length, c.offset = (k : Nat)

/-- What a client that follows a cursor has received: the rows of the log from
where it started to where it is. -/
def Received (h : History) (client : Client) (start cursor : Cursor) : Prop :=
  ∃ a k : Nat, a ≤ k ∧ k ≤ h.log.length ∧
    start = { journalId := h.journal.db.journalId, offset := a } ∧
    cursor = { journalId := h.journal.db.journalId, offset := k } ∧
    client.received = shown h.journal.db.journalId ((h.log.drop a).take (k - a))

/-- What holds of every client of a journal. -/
structure ReplaySound (rt : Runtime) (retain : Nat) (s : ReplayState) : Prop where
  history : Sound rt retain s.history
  given : ∀ c ∈ s.client.given, Inside s.history c
  received : ∀ start cursor, s.client.following = some (start, cursor) →
    Received s.history s.client start cursor

section Client

variable {rt : Runtime} {retain : Nat} {s : ReplayState}

/-- Inserting does not change whose journal it is. -/
theorem insert_journalId {db db' : Db} {key : EventKey} {fingerprint : String} {body : Body}
    {id : Nat} (h : insert retain db key fingerprint body = .ok (id, db')) :
    db'.journalId = db.journalId := by
  unfold insert at h
  split at h
  · split at h
    · contradiction
    · cases h
      rfl
  · cases h
    rfl

/-- No operation changes whose journal it is. -/
theorem historyNext_journalId (rt : Runtime) (retain : Nat) (h : History) (op : HistoryOp) :
    (historyNext rt retain h op).journal.db.journalId = h.journal.db.journalId := by
  cases op with
  | reopen => rfl
  | accept frame uuid storage =>
      simp only [historyNext]
      rcases accept_cases rt retain uuid storage h.journal frame with ⟨e, herror⟩ | ⟨_, hway⟩
      · rw [herror]
      · generalize (accept rt retain uuid storage h.journal frame).2 = j at hway
        cases hway with
        | known _ _ => rfl
        | boundary _ _ hinsert =>
            have hid := insert_journalId hinsert
            exact hid
        | repeated _ _ _ _ _ => rfl
        | advanced _ _ _ _ hinsert =>
            have hid := insert_journalId hinsert
            exact hid

/-- The log only grows. -/
theorem historyNext_log (rt : Runtime) (retain : Nat) (h : History) (op : HistoryOp) :
    ∃ rows, (historyNext rt retain h op).log = h.log ++ rows := by
  cases op with
  | reopen => exact ⟨[], (List.append_nil _).symm⟩
  | accept frame uuid storage => exact ⟨_, rfl⟩

/-- The history may go on without the client. -/
theorem ReplaySound.journal (hs : ReplaySound rt retain s) (hretain : 2 ≤ retain)
    {op : HistoryOp} (hok : HistoryOk rt s.history op) :
    ReplaySound rt retain { s with history := historyNext rt retain s.history op } := by
  have hid := historyNext_journalId rt retain s.history op
  obtain ⟨rows, hlog⟩ := historyNext_log rt retain s.history op
  exact {
    history := hs.history.step hretain hok
    given := by
      intro c hc
      obtain ⟨hjournal, k, hk, hoffset⟩ := hs.given c hc
      refine ⟨hjournal.trans hid.symm, k, ?_, hoffset⟩
      rw [hlog, List.length_append]
      omega
    received := by
      intro start cursor hfollowing
      obtain ⟨a, k, hak, hk, hstart, hcursor, hreceived⟩ := hs.received start cursor hfollowing
      refine ⟨a, k, hak, ?_, ?_, ?_, ?_⟩
      · rw [hlog, List.length_append]
        omega
      · rw [hid]
        exact hstart
      · rw [hid]
        exact hcursor
      · rw [hid, hlog, List.drop_append_of_le_length (by omega),
          List.take_append_of_le_length (by rw [List.length_drop]; omega)]
        exact hreceived }

/-- The ends of the retained rows are inside the history. -/
theorem Sound.inside_boundary {h : History} (hs : Sound rt retain h) (hretain : 1 ≤ retain) :
    Inside h (boundaryOf h.journal.db).oldestCursor ∧
      Inside h (boundaryOf h.journal.db).latestCursor := by
  refine ⟨⟨rfl, h.log.length - retain, by omega, hs.stored.oldest hretain⟩, rfl, h.log.length,
    Nat.le_refl _, ?_⟩
  simp only [boundaryOf, hs.stored.newest hretain]

/-- The cursors of events of the log are inside the history. -/
theorem Sound.inside_shown {h : History} (hs : Sound rt retain h) {rows : List Row}
    (hrows : ∀ row ∈ rows, row ∈ h.log) :
    ∀ c ∈ (shown h.journal.db.journalId rows).map Prod.fst, Inside h c := by
  intro c hc
  simp only [shown, List.map_map, List.mem_map, Function.comp_apply] at hc
  obtain ⟨row, hrow, rfl⟩ := hc
  obtain ⟨i, hi, rfl⟩ := List.getElem_of_mem (hrows row hrow)
  exact ⟨rfl, i + 1, hi, by rw [id_getElem hs.stored.ids hi]⟩

/-- A page continues what the client has received. -/
theorem ReplaySound.page (hs : ReplaySound rt retain s) (hretain : 1 ≤ retain)
    {client : Client} {start cursor : Cursor} {boundary : Boundary} {limit : Nat} {k : Nat}
    (hgiven : client.given = s.client.given)
    (hreceived : Received s.history client start cursor)
    (hcursor : cursor = { journalId := s.history.journal.db.journalId, offset := k })
    (hboundary : boundary.oldestCursor = (boundaryOf s.history.journal.db).oldestCursor ∧
      boundary.latestCursor = (boundaryOf s.history.journal.db).latestCursor) :
    ReplaySound rt retain { s with
      client := client.receive start cursor
        (.page boundary
          (shown s.history.journal.db.journalId ((s.history.log.drop k).take limit))
          { journalId := s.history.journal.db.journalId
            offset := (k + min limit (s.history.log.length - k) : Nat) }) } := by
  obtain ⟨a, k', hak, hk, hstart, hcursor', hrows⟩ := hreceived
  obtain rfl : k' = k := by
    rw [hcursor] at hcursor'
    simp only [Cursor.mk.injEq, true_and] at hcursor'
    omega
  have hends := hs.history.inside_boundary hretain
  have hnext : k' + min limit (s.history.log.length - k') ≤ s.history.log.length := by omega
  exact {
    history := hs.history
    given := by
      intro c hc
      simp only [Client.receive, Answer.cursors, List.mem_append, List.mem_cons, hgiven] at hc
      rcases hc with hold | rfl | rfl | rfl | hevent
      · exact hs.given c hold
      · rw [hboundary.1]
        exact hends.1
      · rw [hboundary.2]
        exact hends.2
      · exact ⟨rfl, _, hnext, rfl⟩
      · refine hs.history.inside_shown ?_ c hevent
        intro row hrow
        exact List.mem_of_mem_drop (List.mem_of_mem_take hrow)
    received := by
      intro start' cursor' hfollowing
      simp only [Client.receive, Option.some.injEq, Prod.mk.injEq] at hfollowing
      obtain ⟨rfl, rfl⟩ := hfollowing
      refine ⟨a, k' + min limit (s.history.log.length - k'), by omega, hnext, hstart, rfl, ?_⟩
      -- the two parts of the log lie next to each other
      have hsplit : k' + min limit (s.history.log.length - k') - a =
          (k' - a) + min limit (s.history.log.length - k') := by omega
      have hrest : (s.history.log.drop a).drop (k' - a) = s.history.log.drop k' := by
        rw [List.drop_drop]
        congr 1
        omega
      have htake : (s.history.log.drop k').take (min limit (s.history.log.length - k')) =
          (s.history.log.drop k').take limit := by
        rw [List.take_eq_take_iff, List.length_drop]
        omega
      simp only [Client.receive, hrows]
      rw [hsplit, List.take_add, hrest, htake]
      simp [shown] }

/-- A gap leaves the client where it is. -/
theorem ReplaySound.gap (hs : ReplaySound rt retain s) (hretain : 1 ≤ retain)
    {start cursor : Cursor} {error : String} {requested : Option Cursor}
    (hfollowing : s.client.following = some (start, cursor)) :
    ReplaySound rt retain { s with
      client := s.client.receive start cursor
        (.conflict (boundaryOf s.history.journal.db) error requested) } := by
  have hends := hs.history.inside_boundary hretain
  exact {
    history := hs.history
    given := by
      intro c hc
      simp only [Client.receive, Answer.cursors, List.mem_append, List.mem_cons,
        List.not_mem_nil, or_false] at hc
      rcases hc with hold | rfl | rfl
      · exact hs.given c hold
      · exact hends.1
      · exact hends.2
    received := by
      intro start' cursor' hnow
      simp only [Client.receive, Option.some.injEq, Prod.mk.injEq] at hnow
      obtain ⟨rfl, rfl⟩ := hnow
      exact hs.received _ _ hfollowing }

/-- A cursor inside the history is a place to start from. -/
theorem Received.startAt {h : History} {cursor : Cursor} (hinside : Inside h cursor)
    (client : Client) : Received h (client.startAt cursor) cursor cursor := by
  obtain ⟨hid, k, hk, hoffset⟩ := hinside
  have hcursor : cursor = { journalId := h.journal.db.journalId, offset := k } := by
    rw [← hid, ← hoffset]
  exact ⟨k, k, Nat.le_refl _, hk, hcursor, hcursor, by simp [Client.startAt, shown]⟩

/-- One step keeps what holds of the client. -/
theorem ReplaySound.step (hs : ReplaySound rt retain s) (hretain : 2 ≤ retain) {op : ReplayOp}
    {s' : ReplayState} (hok : ReplayOk rt s op) (hnext : replayNext rt retain s op = some s') :
    ReplaySound rt retain s' := by
  cases op with
  | journal op =>
      cases hnext
      exact hs.journal hretain hok
  | ask limit =>
      by_cases hlimit : 1 ≤ limit ∧ limit ≤ 128
      · simp only [replayNext, replay_none hs.history.stored (by omega) hlimit] at hnext
        cases hnext
        have hoffset := hs.history.stored.oldest (by omega)
        refine hs.page (by omega) rfl
          (Received.startAt (hs.history.inside_boundary (by omega)).1 s.client) ?_ ⟨rfl, rfl⟩
        simp only [boundaryOf, hoffset]
      · simp [replayNext, replay, hlimit] at hnext
  | takeUp cursor =>
      simp only [replayNext] at hnext
      split at hnext
      · rename_i hgiven
        cases hnext
        exact {
          history := hs.history
          given := hs.given
          received := by
            intro start cursor' hfollowing
            simp only [Client.startAt, Option.some.injEq, Prod.mk.injEq] at hfollowing
            obtain ⟨rfl, rfl⟩ := hfollowing
            exact Received.startAt (hs.given cursor hgiven) s.client }
      · contradiction
  | request limit =>
      simp only [replayNext] at hnext
      split at hnext
      · contradiction
      · rename_i start cursor hfollowing
        by_cases hlimit : 1 ≤ limit ∧ limit ≤ 128
        · have hreceived := hs.received start cursor hfollowing
          obtain ⟨_, k, _, hk, _, hcursor, _⟩ := hreceived
          rw [hcursor, replay_after hs.history.stored (by omega) hk hlimit, ← hcursor] at hnext
          by_cases hgap : k < s.history.log.length - retain
          · rw [if_pos hgap] at hnext
            cases hnext
            exact hs.gap (by omega) hfollowing
          · rw [if_neg hgap] at hnext
            cases hnext
            exact hs.page (by omega) rfl (hs.received start cursor hfollowing) hcursor ⟨rfl, rfl⟩
        · simp [replay, hlimit] at hnext

/-- The client's invariant holds in every run. -/
theorem replaySound_of_reachable (hretain : 2 ≤ retain) :
    ∀ s, (replayMachine rt retain).ReachableWhen (ReplayOk rt) s → ReplaySound rt retain s := by
  apply Machine.ReachableWhen.invariant
  · rintro s ⟨hhistory, hclient⟩
    exact {
      history := sound_init hhistory
      given := by simp [hclient]
      received := by simp [hclient] }
  · intro s op s' _ hs hok hnext
    exact hs.step hretain hok hnext

end Client

/-! ## The replay law -/

/-- For every client that follows a cursor it was given, with the journal accepting
and deleting between its calls: the rows ever inserted are numbered from one, the
client has received exactly those after its starting cursor up to where it is, and
its next request is answered with a gap exactly when a row after its cursor has
been deleted, and otherwise with the rows that come next. -/
theorem replay_gap_free (rt : Runtime) (retain : Nat) (hretain : 2 ≤ retain) (s : ReplayState)
    (hs : (replayMachine rt retain).ReachableWhen (ReplayOk rt) s) (start cursor : Cursor)
    (hfollowing : s.client.following = some (start, cursor)) :
    s.history.log.map Row.id = List.range' 1 s.history.log.length ∧
    ∃ a k : Nat, a ≤ k ∧ k ≤ s.history.log.length ∧
      start = { journalId := s.history.journal.db.journalId, offset := a } ∧
      cursor = { journalId := s.history.journal.db.journalId, offset := k } ∧
      s.client.received =
        shown s.history.journal.db.journalId ((s.history.log.drop a).take (k - a)) ∧
      ∀ limit : Int, 1 ≤ limit → limit ≤ 128 → ∃ answer,
        replay s.history.journal.db (some cursor) limit = .ok answer ∧
        ((∃ boundary requested, answer = .conflict boundary "retention_gap" requested) ↔
          ∃ row ∈ s.history.log, k < row.id ∧ row ∉ s.history.journal.db.events) ∧
        ((¬∃ row ∈ s.history.log, k < row.id ∧ row ∉ s.history.journal.db.events) →
          answer = .page (boundaryOf s.history.journal.db)
            (shown s.history.journal.db.journalId ((s.history.log.drop k).take limit.toNat))
            { journalId := s.history.journal.db.journalId
              offset := (k + min limit.toNat (s.history.log.length - k) : Nat) }) := by
  have hsound := replaySound_of_reachable hretain s hs
  have hstored := hsound.history.stored
  obtain ⟨a, k, hak, hk, hstart, hcursor, hreceived⟩ := hsound.received start cursor hfollowing
  refine ⟨hstored.ids, a, k, hak, hk, hstart, hcursor, hreceived, ?_⟩
  intro limit hlow hhigh
  have hanswer := replay_after hstored (by omega) hk ⟨hlow, hhigh⟩
  rw [← hcursor] at hanswer
  refine ⟨_, hanswer, ?_, ?_⟩
  · rw [deleted_after_iff hstored]
    constructor
    · rintro ⟨boundary, requested, hgap⟩
      by_contra hkept
      rw [if_neg hkept] at hgap
      contradiction
    · intro hgap
      exact ⟨_, _, if_pos hgap⟩
  · intro hkept
    rw [deleted_after_iff hstored] at hkept
    rw [if_neg hkept]

/-! ## A sample client -/

/-- The sample history with a client that has asked for nothing yet. -/
def sampleReplayStart : ReplayState where
  history := sampleStart
  client := { given := [], following := none, received := [] }

/-- The client reads one event at a time from the start, and the journal, which
keeps two rows, accepts a third between its calls. -/
def sampleReplay : ReplayState :=
  ((replayMachine sampleRuntime 2).runWhen (ReplayOk sampleRuntime) sampleReplayStart
    [.journal (.accept sampleSource "a1" true), .ask 1,
      .journal (.accept sampleRecord "a2" true), .request 1,
      .journal (.accept (sampleHealth "184") "a3" true)]).getD sampleReplayStart

theorem reachable_sampleReplay :
    (replayMachine sampleRuntime 2).ReachableWhen (ReplayOk sampleRuntime) sampleReplay :=
  Machine.reachableWhen_run_getD (.start ⟨⟨_, rfl⟩, rfl⟩) (by decide +kernel)

/-- The sample client has followed the journal from its beginning to the second of
its three events. -/
theorem replay_gap_free_sample :
    sampleReplay.history.log.map Row.id = List.range' 1 sampleReplay.history.log.length ∧
    ∃ a k : Nat, a ≤ k ∧ k ≤ sampleReplay.history.log.length ∧
      sampleReplay.client.received =
        shown sampleReplay.history.journal.db.journalId
          ((sampleReplay.history.log.drop a).take (k - a)) := by
  have hfollowing : sampleReplay.client.following =
      some ({ journalId := "4b0c", offset := 0 }, { journalId := "4b0c", offset := 2 }) := by
    decide +kernel
  obtain ⟨hids, a, k, hak, hk, _, _, hreceived, _⟩ :=
    replay_gap_free sampleRuntime 2 (Nat.le_refl 2) sampleReplay reachable_sampleReplay _ _ hfollowing
  exact ⟨hids, a, k, hak, hk, hreceived⟩

end Collector
end LiveSurface
