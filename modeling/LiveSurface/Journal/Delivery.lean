import LiveSurface.Journal.Processes

/-!
# Acknowledged means durable

The cursor of a ring and the journal's checkpoint of it move in two processes.
The invariant counts, for each ring, the entries before the cursor; the journal
holds these entries and at most the one after them, and it holds that one whenever
the reader may move the cursor over it.

Main results:

- Theorem {lit}`Delivered.step`: every step of the producer and the processes,
  and every crash, keeps the invariant.
- Theorem {lit}`delivery_exactly_once`: cursor, checkpoint and committed rows, in
  every reachable state.
-/

namespace LiveSurface
namespace Collector

open LiveSurface.Ring Metadata

/-! ## Entries -/

section Entries

variable {tiles : List Tile} {tile : Tile}

@[simp]
theorem extent_append (first second : List Tile) :
    extent (first ++ second) = extent first + extent second := by
  simp [extent]

@[simp]
theorem extent_singleton : extent [tile] = tile.size := by
  simp [extent]

/-- The entry at the end of some entries is the next one. -/
theorem entryAt_extent (hsizes : ∀ t ∈ tiles, 0 < t.size) {n : Nat} (hn : n ≤ tiles.length) :
    entryAt tiles (extent (tiles.take n)) = tiles[n]? := by
  induction tiles generalizing n with
  | nil => simp [entryAt]
  | cons t rest ih =>
      cases n with
      | zero => simp [entryAt, extent]
      | succ n =>
          have ht : 0 < t.size := hsizes t List.mem_cons_self
          have hextent : extent ((t :: rest).take (n + 1)) = t.size + extent (rest.take n) := by
            simp [extent]
          rw [hextent, entryAt, if_neg (by omega), if_neg (by omega), Nat.add_sub_cancel_left,
            ih (fun u hu => hsizes u (List.mem_cons_of_mem _ hu)) (by simpa using hn)]
          rfl

/-- One more entry. -/
theorem take_succ_of_getElem? {n : Nat} (h : tiles[n]? = some tile) :
    tiles.take (n + 1) = tiles.take n ++ [tile] := by
  rw [List.take_add_one, h]
  rfl

end Entries

/-! ## The frames of a ring -/

/-- The progress of an entry that begins at a position. -/
def spanOf (i cons : Nat) (tile : Tile) : Progress where
  kind := tileKind tile
  ring := .int i
  «begin» := cons
  position := (cons + tile.size : Nat)

/-- The frames the entries of a ring become, without their tokens. -/
def framesFrom (i : Nat) : Nat → List Tile → List Object
  | _, [] => []
  | position, tile :: rest =>
      rawOf (recordFrame i position tile) :: framesFrom i (position + tile.size) rest

/-- The record and discard intervals of the entries of a ring. -/
def spansFrom (i : Nat) : Nat → List Tile → List Progress
  | _, [] => []
  | position, tile :: rest => spanOf i position tile :: spansFrom i (position + tile.size) rest

/-- {lit}`int()` reads back what the reader prints. -/
def ReadsDecimals (rt : Runtime) : Prop := ∀ n : Nat, rt.int (.str (toString n)) = some (n : Int)

section Frames

variable {rt : Runtime} {i : Nat}

theorem kind_sourceFrame (source : Source) :
    (rawOf (sourceFrame source)).get? "kind" = some (.str "source") := by
  simp [rawOf, sourceFrame, Object.without, Object.get?]

theorem token_sourceFrame (source : Source) :
    (sourceFrame source).get? "token" = some (.str "H") := by
  simp [sourceFrame, Object.get?]

theorem kind_healthFrame (drops dropBytes : Nat) :
    frameKind ((rawOf (healthFrame i drops dropBytes)).get? "kind") = some .ringHealth := by
  simp [rawOf, healthFrame, Object.without, Object.get?, frameKind]

theorem token_healthFrame (drops dropBytes : Nat) :
    (healthFrame i drops dropBytes).get? "token" = some (.str (healthToken i drops)) := by
  simp [healthFrame, Object.get?]

theorem kind_recordFrame (cons : Nat) (tile : Tile) :
    frameKind ((rawOf (recordFrame i cons tile)).get? "kind") = some (tileKind tile) := by
  cases tile <;> simp [rawOf, recordFrame, Object.without, Object.get?, frameKind, tileKind]

theorem token_recordFrame (cons : Nat) (tile : Tile) :
    (recordFrame i cons tile).get? "token" =
      some (.str (recordToken i cons (cons + tile.size))) := by
  cases tile <;> simp [recordFrame, Object.get?]

theorem content_recordFrame (cons : Nat) (tile : Tile) :
    content (recordFrame i cons tile) = rawOf (recordFrame i cons tile) := by
  rw [content, kind_recordFrame, if_neg]
  cases tile <;> simp [tileKind]

theorem begin_recordFrame (cons : Nat) (tile : Tile) :
    (rawOf (recordFrame i cons tile)).get? "begin" = some (.str (toString cons)) := by
  cases tile <;> simp [rawOf, recordFrame, Object.without, Object.get?]

theorem end_recordFrame (cons : Nat) (tile : Tile) :
    (rawOf (recordFrame i cons tile)).get? "end" = some (.str (toString (cons + tile.size))) := by
  cases tile <;> simp [rawOf, recordFrame, Object.without, Object.get?]

theorem ring_recordFrame (cons : Nat) (tile : Tile) :
    (rawOf (recordFrame i cons tile)).get? "ring" = some (.int i) := by
  cases tile <;> simp [rawOf, recordFrame, Object.without, Object.get?]

/-- What the collector reads from the frame of an entry. -/
theorem frameProgress_recordFrame (hint : ReadsDecimals rt) (hi : i < maxRings) {cons : Nat}
    {tile : Tile} (hsize : 0 < tile.size) :
    frameProgress rt (rawOf (recordFrame i cons tile)) = some (spanOf i cons tile) := by
  have hring : (0 : Int) ≤ i ∧ (i : Int) < 16 := by
    unfold maxRings at hi
    omega
  have hinterval : ¬((cons : Int) < 0 ∨ ((cons + tile.size : Nat) : Int) ≤ (cons : Int)) := by
    omega
  have hringOf : ringOf (rawOf (recordFrame i cons tile)) = .ok (.int i) := by
    rw [ringOf, ring_recordFrame]
    exact if_pos hring
  have hbegin : intField rt (rawOf (recordFrame i cons tile)) "begin" = .ok (cons : Int) := by
    rw [intField, begin_recordFrame, Option.bind_some, hint]
  have hend : intField rt (rawOf (recordFrame i cons tile)) "end" =
      .ok ((cons + tile.size : Nat) : Int) := by
    rw [intField, end_recordFrame, Option.bind_some, hint]
  rw [frameProgress, kind_recordFrame, Option.bind_some]
  cases tile <;>
    simp only [tileKind, progressOf, hringOf, hbegin, hend, bind, Except.bind,
      if_neg hinterval] <;>
    rfl

theorem framesFrom_append (position : Nat) (tiles : List Tile) (tile : Tile) :
    framesFrom i position (tiles ++ [tile]) =
      framesFrom i position tiles ++ [rawOf (recordFrame i (position + extent tiles) tile)] := by
  induction tiles generalizing position with
  | nil => simp [framesFrom, extent]
  | cons t rest ih => simp [framesFrom, extent, ih, Nat.add_assoc]

theorem spansFrom_append (position : Nat) (tiles : List Tile) (tile : Tile) :
    spansFrom i position (tiles ++ [tile]) =
      spansFrom i position tiles ++ [spanOf i (position + extent tiles) tile] := by
  induction tiles generalizing position with
  | nil => simp [spansFrom, extent]
  | cons t rest ih => simp [spansFrom, extent, ih, Nat.add_assoc]

@[simp]
theorem length_framesFrom (position : Nat) (tiles : List Tile) :
    (framesFrom i position tiles).length = tiles.length := by
  induction tiles generalizing position with
  | nil => rfl
  | cons t rest ih => simp [framesFrom, ih]

/-- The frames of the entries name their intervals. -/
theorem progress_framesFrom (hint : ReadsDecimals rt) (hi : i < maxRings) (position : Nat)
    {tiles : List Tile} (hsizes : ∀ t ∈ tiles, 0 < t.size) :
    (framesFrom i position tiles).filterMap (frameProgress rt) = spansFrom i position tiles := by
  induction tiles generalizing position with
  | nil => rfl
  | cons t rest ih =>
      rw [framesFrom, spansFrom, List.filterMap_cons,
        frameProgress_recordFrame hint hi (hsizes t List.mem_cons_self),
        ih _ fun u hu => hsizes u (List.mem_cons_of_mem _ hu)]

/-- The last interval of some entries ends where they end. -/
theorem last_spansFrom (position : Nat) (tiles : List Tile) :
    (spansFrom i position tiles).getLast?.map Progress.position =
      if tiles = [] then none else some ((position + extent tiles : Nat) : Int) := by
  rcases List.eq_nil_or_concat tiles with rfl | ⟨init, last, rfl⟩
  · rfl
  · simp [List.concat_eq_append, spansFrom_append, spanOf, Nat.add_assoc]

end Frames

/-! ## What the journal holds of a ring -/

/-- The frame a row was made of. -/
def Row.raw (row : Row) : Option Object :=
  match row.body with
  | .boundary _ _ => none
  | .frame _ _ _ _ raw _ _ => some raw

/-- Whether a frame moves a state row. -/
def moving (rt : Runtime) (key : ProgressKey) (raw : Object) : Bool :=
  (frameProgress rt raw).map Progress.key = some key

/-- The frames of one state row that the log of an epoch holds, in order. -/
def rowFrames (rt : Runtime) (log : List Row) (epoch : String) (key : ProgressKey) : List Object :=
  (log.filter fun row => row.eventKey.epoch = epoch).filterMap fun row =>
    row.raw.filter (moving rt key)

/-- The frames of a ring that were committed for the source. -/
def committed (rt : Runtime) (source : Source) (h : History) (i : Nat) : List Object :=
  match h.journal.db.sourceEpoch with
  | none => []
  | some epoch =>
      if h.journal.db.sourceId = some (sourceId rt source) then
        rowFrames rt h.log epoch { drops := false, ring := .int i }
      else []

/-- The journal's checkpoint of a ring, for the source. -/
def checkpointPosition (rt : Runtime) (source : Source) (h : History) (i : Nat) : Int :=
  if h.journal.db.sourceId = some (sourceId rt source) then
    ((h.journal.db.progress { drops := false, ring := .int i }).map Checkpoint.position).getD 0
  else 0

section Journal

variable {rt : Runtime} {retain : Nat} {source : Source} {h : History} {frame : Object}
  {uuid : String} {storage : Bool}

theorem rowFrames_append (log : List Row) (row : Row) (epoch : String) (key : ProgressKey) :
    rowFrames rt (log ++ [row]) epoch key = rowFrames rt log epoch key ++
      (if row.eventKey.epoch = epoch then (row.raw.filter (moving rt key)).toList else []) := by
  unfold rowFrames
  rw [List.filter_append, List.filterMap_append]
  split
  · rename_i h
    cases hrow : row.raw.filter (moving rt key) <;>
      simp [h, hrow]
  · rename_i h
    simp [h]

/-- The progress of the rows is that of their frames. -/
theorem moves_eq_filterMap (log : List Row) (epoch : String) (key : ProgressKey) :
    moves rt log epoch key = (rowFrames rt log epoch key).filterMap (frameProgress rt) := by
  unfold moves rowFrames
  rw [List.filterMap_filterMap]
  apply List.filterMap_congr
  intro row _
  unfold Row.progress Row.raw
  cases row.body with
  | boundary id raw => rfl
  | frame type id source event raw decoded dropped =>
      cases hraw : frameProgress rt raw with
      | none => simp [Option.filter, moving, hraw]
      | some p => by_cases hkey : p.key = key <;> simp [Option.filter, moving, hraw, hkey]

/-- A new epoch has no frames. -/
theorem rowFrames_eq_nil {log : List Row} {epoch : String}
    (hfresh : ∀ row ∈ log, row.eventKey.epoch ≠ epoch) (key : ProgressKey) :
    rowFrames rt log epoch key = [] := by
  have hfilter : (log.filter fun row => row.eventKey.epoch = epoch) = [] := by
    rw [List.filter_eq_nil_iff]
    intro row hrow
    simpa using hfresh row hrow
  simp [rowFrames, hfilter]

/-- A source frame that is accepted leaves the frames of its rings as they are. -/
theorem Sound.accept_source (hdistinct : Distinct rt h (sourceFrame source) uuid)
    (hs : Sound rt retain h)
    (hepoch : h.journal.db.sourceId = some (sourceId rt source) → h.journal.db.sourceEpoch ≠ none)
    (hok : (accept rt retain uuid storage h.journal (sourceFrame source)).1 = .ok ()) (i : Nat) :
    committed rt source (historyNext rt retain h (.accept (sourceFrame source) uuid storage)) i =
        committed rt source h i ∧
      (historyNext rt retain h
        (.accept (sourceFrame source) uuid storage)).journal.db.sourceId =
          some (sourceId rt source) ∧
      (historyNext rt retain h
        (.accept (sourceFrame source) uuid storage)).journal.db.sourceEpoch ≠ none := by
  have hring : ∀ {p}, ¬Readable rt (sourceFrame source) p := by
    intro p hp
    have hkind := hp.kind
    rw [kind_sourceFrame] at hkind
    contradiction
  rcases accept_cases rt retain uuid storage h.journal (sourceFrame source) with
    ⟨e, herror⟩ | ⟨_, hway⟩
  · rw [herror] at hok
    contradiction
  · simp only [historyNext]
    generalize (accept rt retain uuid storage h.journal (sourceFrame source)).2 = j at hway
    cases hway with
    | known _ hsource => exact ⟨by simp [committed, newRows], hsource, hepoch hsource⟩
    | @boundary _ hsource _ db hinsert =>
        rw [insert_cases] at hinsert
        · have hdb := (congrArg Prod.snd (Except.ok.inj hinsert)).symm
          simp only at hdb
          have hrows : newRows h.journal.db db = _ :=
            newRows_addRow retain h.journal.db (.source uuid) (rt.sha256 (rawOf (sourceFrame source)))
              (.boundary uuid (rawOf (sourceFrame source))) (by rw [hdb]; rfl) (by rw [hdb]; rfl)
          have hold : committed rt source h i = [] := by
            unfold committed
            split
            · rfl
            · exact if_neg hsource
          have hid : db.sourceId = some (sourceId rt source) := by
            rw [hdb]
            rfl
          have hepoch : db.sourceEpoch = some uuid := by
            rw [hdb]
            rfl
          refine ⟨?_, hid, by simp [hepoch]⟩
          rw [hold]
          simp only [committed, hid, hepoch, if_true, hrows, rowFrames_append,
            rowFrames_eq_nil hdistinct.uuid]
          simp [Row.raw]
        · intro row hrow hkey
          refine hdistinct.uuid row (hs.mem_log hrow) ?_
          rw [hkey]
          rfl
    | repeated _ hframe _ _ _ => exact absurd hframe hring
    | advanced _ hframe _ _ _ => exact absurd hframe hring

/-- A ring frame that is accepted repeats the last row of its state row, or follows it. -/
theorem Sound.accept_ring (hs : Sound rt retain h) {kind : FrameKind}
    (hkind : frameKind ((rawOf frame).get? "kind") = some kind)
    (hok : (accept rt retain uuid storage h.journal frame).1 = .ok ()) :
    ∃ epoch p, h.journal.session.source = some epoch ∧ Readable rt frame p ∧
      (historyNext rt retain h (.accept frame uuid storage)).journal.session =
        h.journal.session ∧
      (historyNext rt retain h (.accept frame uuid storage)).journal.db.sourceId =
        h.journal.db.sourceId ∧
      (historyNext rt retain h (.accept frame uuid storage)).journal.db.sourceEpoch =
        h.journal.db.sourceEpoch ∧
      (((historyNext rt retain h (.accept frame uuid storage)).log = h.log ∧
        (moves rt h.log epoch p.key).getLast?.map Progress.position = some p.position) ∨
      ∃ row : Row, (historyNext rt retain h (.accept frame uuid storage)).log = h.log ++ [row] ∧
        row.eventKey.epoch = epoch ∧ row.raw = some (content frame) ∧
        ∀ z, (moves rt h.log epoch p.key).getLast?.map Progress.position = some z →
          z < p.position) := by
  have hsource : (rawOf frame).get? "kind" ≠ some (.str "source") := by
    intro hsome
    rw [hsome] at hkind
    contradiction
  rcases accept_cases rt retain uuid storage h.journal frame with ⟨e, herror⟩ | ⟨_, hway⟩
  · rw [herror] at hok
    contradiction
  · simp only [historyNext]
    generalize (accept rt retain uuid storage h.journal frame).2 = j at hway
    cases hway with
    | known hknown _ => exact absurd hknown hsource
    | boundary hknown _ _ => exact absurd hknown hsource
    | repeated hepoch hframe hprevious hposition _ =>
        refine ⟨_, _, hepoch, hframe, rfl, rfl, rfl, .inl ⟨by simp [newRows], ?_⟩⟩
        rw [hs.last _ (hs.session _ hepoch), hprevious, Option.map_some, hposition]
    | @advanced epoch p _ db body hepoch hframe hnext hbody hinsert =>
        obtain ⟨type, source, decoded, dropped, hbody⟩ := hbody
        rw [insert_cases] at hinsert
        · have hdb := (congrArg Prod.snd (Except.ok.inj hinsert)).symm
          simp only at hdb
          subst hdb
          refine ⟨epoch, p, hepoch, hframe, rfl, rfl, rfl, .inr
            ⟨Row.mk (h.journal.db.sequence + 1) (p.eventKey epoch) (rt.sha256 (content frame)) body,
              ?_, ?_, ?_, ?_⟩⟩
          · exact congrArg (h.log ++ ·) (newRows_addRow retain h.journal.db _ _ _ rfl rfl)
          · exact Progress.eventKey_epoch _ _
          · rw [Row.raw, hbody]
          · intro z hz
            rw [hs.last _ (hs.session _ hepoch), Option.map_eq_some_iff] at hz
            obtain ⟨c, hc, rfl⟩ := hz
            exact (hnext c hc).1
        · intro row hrow
          exact hs.fresh hepoch hnext row (hs.mem_log hrow)

/-- A report of drops that is accepted leaves the frames of the rings as they are. -/
theorem Sound.accept_health (hs : Sound rt retain h) {i drops dropBytes : Nat}
    (hok : (accept rt retain uuid storage h.journal (healthFrame i drops dropBytes)).1 = .ok ())
    (j : Nat) :
    committed rt source
        (historyNext rt retain h (.accept (healthFrame i drops dropBytes) uuid storage)) j =
      committed rt source h j := by
  obtain ⟨epoch, p, _, hframe, _, hid, hepoch, ⟨hlog, _⟩ | ⟨row, hlog, _, hraw, _⟩⟩ :=
    hs.accept_ring (kind_healthFrame drops dropBytes) hok
  · simp only [committed, hid, hepoch, hlog]
  · have hkind := hframe.kind
    rw [kind_healthFrame, Option.some.injEq] at hkind
    have hkey : p.key ≠ { drops := false, ring := .int j } := by
      intro heq
      have := congrArg ProgressKey.drops heq
      simp [Progress.key, ← hkind] at this
    have hmoving : moving rt { drops := false, ring := .int j }
        (content (healthFrame i drops dropBytes)) = false := by
      simp [moving, frameProgress_content, hframe.frameProgress, hkey]
    simp only [committed, hid, hepoch, hlog, rowFrames_append, hraw]
    simp [Option.filter, hmoving]

/-- The frame of an entry that is accepted was the last one of its ring, or is now. -/
theorem Sound.accept_record (hs : Sound rt retain h) (hint : ReadsDecimals rt) {i cons : Nat}
    (hi : i < maxRings) {tile : Tile} (hsize : 0 < tile.size)
    (hregistered : ∀ epoch, h.journal.session.source = some epoch →
      h.journal.db.sourceId = some (sourceId rt source))
    (hok : (accept rt retain uuid storage h.journal (recordFrame i cons tile)).1 = .ok ()) :
    (∀ j, j ≠ i → committed rt source
        (historyNext rt retain h (.accept (recordFrame i cons tile) uuid storage)) j =
      committed rt source h j) ∧
    ((committed rt source
        (historyNext rt retain h (.accept (recordFrame i cons tile) uuid storage)) i =
          committed rt source h i ∧
      ((committed rt source h i).filterMap (frameProgress rt)).getLast?.map Progress.position =
        some ((cons + tile.size : Nat) : Int)) ∨
    (committed rt source
        (historyNext rt retain h (.accept (recordFrame i cons tile) uuid storage)) i =
          committed rt source h i ++ [rawOf (recordFrame i cons tile)] ∧
      ∀ z, ((committed rt source h i).filterMap (frameProgress rt)).getLast?.map
        Progress.position = some z → z < ((cons + tile.size : Nat) : Int))) := by
  obtain ⟨epoch, p, hsession, hframe, _, hid, hepoch, hway⟩ :=
    hs.accept_ring (kind_recordFrame cons tile) hok
  have hprogress : frameProgress rt (rawOf (recordFrame i cons tile)) = some (spanOf i cons tile) :=
    frameProgress_recordFrame hint hi hsize
  obtain rfl : spanOf i cons tile = p :=
    Option.some.inj (hprogress.symm.trans hframe.frameProgress)
  have hkey : (spanOf i cons tile).key = { drops := false, ring := .int i } := by
    cases tile <;> simp [spanOf, Progress.key, tileKind]
  have hcommitted : ∀ j, committed rt source h j =
      rowFrames rt h.log epoch { drops := false, ring := .int j } := by
    intro j
    simp only [committed, hs.session epoch hsession]
    exact if_pos (hregistered epoch hsession)
  rw [hkey, moves_eq_filterMap, ← hcommitted] at hway
  rcases hway with ⟨hlog, hlast⟩ | ⟨row, hlog, hrow, hraw, hlast⟩
  · have hsame : ∀ j, committed rt source
        (historyNext rt retain h (.accept (recordFrame i cons tile) uuid storage)) j =
        committed rt source h j := by
      intro j
      simp only [committed, hid, hepoch, hlog]
    exact ⟨fun j _ => hsame j, .inl ⟨hsame i, hlast⟩⟩
  · have hnew : ∀ j, committed rt source
        (historyNext rt retain h (.accept (recordFrame i cons tile) uuid storage)) j =
        committed rt source h j ++ if j = i then [rawOf (recordFrame i cons tile)] else [] := by
      intro j
      rw [hcommitted j]
      simp only [committed, hid, hepoch, hlog, hs.session epoch hsession,
        hregistered epoch hsession, if_true, rowFrames_append, hrow, hraw,
        content_recordFrame]
      by_cases hji : j = i
      · simp [hji, moving, hprogress, hkey]
      · simp [hji, Ne.symm hji, moving, hprogress, hkey]
    refine ⟨?_, .inr ⟨?_, hlast⟩⟩
    · intro j hj
      rw [hnew, if_neg hj, List.append_nil]
    · rw [hnew, if_pos rfl]

end Journal

/-! ## The invariant -/

/-- The collector waits for a line, and there is none. -/
def Process.Quiet (c : Process) : Prop := c.pc = .idle ∧ c.output = []

/-- The frames printed for the collector and not yet accepted. -/
def Process.inFlight (c : Process) : List Object :=
  match c.pc with
  | .accepting frame => frame :: c.output
  | _ => c.output

section Invariant

variable (rt : Runtime) (retain : Nat) (source : Source) (m : Nat → Nat) (s : Delivery)

/-- The journal holds the first entries of a ring. -/
def Committed (i n : Nat) : Prop :=
  n ≤ (s.entries i).length ∧
    committed rt source s.history i = framesFrom i 0 ((s.entries i).take n)

/-- A reader is at the entry after the cursor. -/
def AtEntry (i cons step : Nat) : Prop :=
  cons = s.consumerPos i ∧ ∃ tile, (s.entries i)[m i]? = some tile ∧ step = tile.size

/-- What holds of the reader's own variables. -/
def PcOk : StreamPc → Prop
  | .start | .hello | .poll => True
  | .scan _ claimed => claimed ≤ maxRings
  | .health i claimed _ => i < claimed ∧ claimed ≤ maxRings
  | .loadConsumer i claimed => i < claimed ∧ claimed ≤ maxRings
  | .loadEntry i claimed cons => (i < claimed ∧ claimed ≤ maxRings) ∧ cons = s.consumerPos i
  | .record i claimed cons step => (i < claimed ∧ claimed ≤ maxRings) ∧ AtEntry m s i cons step
  | .recheck i claimed cons step | .storeConsumer i claimed cons step =>
      ((i < claimed ∧ claimed ≤ maxRings) ∧ AtEntry m s i cons step) ∧
        Committed rt source s i (m i + 1)

/-- The entry a reader waits for is committed. -/
def Durable : StreamPc → Prop
  | .record i _ _ _ => Committed rt source s i (m i + 1)
  | _ => True

/-- The frame a reader waits for. -/
def Asks : StreamPc → Object → Prop
  | .hello, frame => frame = sourceFrame source
  | .health i _ drops, frame => ∃ dropBytes, frame = healthFrame i drops dropBytes
  | .record i _ cons step, frame =>
      ∃ tile, (s.entries i)[m i]? = some tile ∧ step = tile.size ∧ frame = recordFrame i cons tile
  | _, _ => False

/-- A frame a reader printed, which the cursor has not passed. -/
def Current (frame : Object) : Prop :=
  frame = sourceFrame source ∨ (∃ i drops dropBytes, frame = healthFrame i drops dropBytes) ∨
    ∃ i tile, i < maxRings ∧ (s.entries i)[m i]? = some tile ∧
      frame = recordFrame i (s.consumerPos i) tile

/-- The reader has an unread line, which acknowledges what it waits for. -/
def Answered (r : Reader) : Prop :=
  ∃ token, r.pc.awaited = some token ∧ r.input = [ackLine token] ∧ Durable rt source m s r.pc

/-- Where an exchange of a frame for an acknowledgement stands. -/
inductive Exchange : Option Reader → Option Process → Prop
  | ended : Exchange none none
  | orphaned {c : Process} (hspawned : c.spawned = false → c.Quiet)
      (hcurrent : ∀ frame ∈ c.inFlight, Current source m s frame) : Exchange none (some c)
  | quiet {r : Reader} {collector : Option Process} (hpc : PcOk rt source m s r.pc)
      (hinput : r.input = [] ∨ Answered rt source m s r)
      (hquiet : ∀ c, collector = some c → c.Quiet) : Exchange (some r) collector
  | asked {r : Reader} {c : Process} {frame : Object} (hpc : PcOk rt source m s r.pc)
      (hinput : r.input = []) (hspawned : c.spawned = true) (hasks : Asks source m s r.pc frame)
      (hflight : c.inFlight = [frame]) (hpending : ∀ f, c.pc ≠ .acknowledging f) :
      Exchange (some r) (some c)
  | accepted {r : Reader} {c : Process} {frame : Object} (hpc : PcOk rt source m s r.pc)
      (hinput : r.input = []) (hspawned : c.spawned = true) (hasks : Asks source m s r.pc frame)
      (hc : c.pc = .acknowledging frame) (houtput : c.output = [])
      (hdurable : Durable rt source m s r.pc) : Exchange (some r) (some c)

/-- What holds of the two processes: for each ring the cursor is after as many
entries as the count says, and the journal holds these or one more. -/
structure Delivered : Prop where
  sound : Sound rt retain s.history
  registered : s.history.journal.db.sourceId ≠ some (sourceId rt source) →
    ∀ c, s.collector = some c → s.history.journal.session.source = none
  epoch : s.history.journal.db.sourceId = some (sourceId rt source) →
    s.history.journal.db.sourceEpoch ≠ none
  sizes : ∀ i, ∀ t ∈ s.entries i, 0 < t.size
  cursor : ∀ i, m i ≤ (s.entries i).length ∧
    s.consumerPos i = extent ((s.entries i).take (m i))
  held : ∀ i, Committed rt source s i (m i) ∨ Committed rt source s i (m i + 1)
  exchange : Exchange rt source m s s.reader s.collector

end Invariant

/-! ## Steps that change one part -/

section Parts

variable {rt : Runtime} {retain : Nat} {source : Source} {m : Nat → Nat} {s : Delivery}

/-- A reader that waits asks for the frame whose token it waits for. -/
theorem Asks.token {pc : StreamPc} {frame : Object} (h : Asks source m s pc frame) :
    ∃ token, pc.awaited = some token ∧ frame.get? "token" = some (.str token) := by
  cases pc with
  | hello =>
      cases h
      exact ⟨_, rfl, token_sourceFrame source⟩
  | health i claimed drops =>
      obtain ⟨dropBytes, rfl⟩ := h
      exact ⟨_, rfl, token_healthFrame drops dropBytes⟩
  | record i claimed cons step =>
      obtain ⟨tile, _, rfl, rfl⟩ := h
      exact ⟨_, rfl, token_recordFrame cons tile⟩
  | _ => contradiction

/-- What a reader asks for, the cursor has not passed. -/
theorem Asks.current {pc : StreamPc} {frame : Object} (h : Asks source m s pc frame)
    (hpc : PcOk rt source m s pc) : Current source m s frame := by
  cases pc with
  | hello => exact .inl h
  | health i claimed drops =>
      obtain ⟨dropBytes, rfl⟩ := h
      exact .inr (.inl ⟨_, _, _, rfl⟩)
  | record i claimed cons step =>
      obtain ⟨tile, htile, _, rfl⟩ := h
      obtain ⟨hi, rfl, _⟩ := hpc
      exact .inr (.inr ⟨i, tile, Nat.lt_of_lt_of_le hi.1 hi.2, htile, rfl⟩)
  | _ => contradiction

/-- A reader that does not wait has nothing to read, and its collector neither. -/
theorem Exchange.silent {r : Reader} {collector : Option Process}
    (h : Exchange rt source m s (some r) collector) (hpc : r.pc.awaited = none) :
    r.input = [] ∧ ∀ c, collector = some c → c.Quiet := by
  cases h with
  | quiet _ hinput hquiet =>
      refine ⟨?_, hquiet⟩
      rcases hinput with hempty | ⟨token, htoken, _⟩
      · exact hempty
      · rw [hpc] at htoken
        contradiction
  | asked _ _ _ hasks _ _ =>
      obtain ⟨token, htoken, _⟩ := hasks.token
      rw [hpc] at htoken
      contradiction
  | accepted _ _ _ hasks _ _ _ =>
      obtain ⟨token, htoken, _⟩ := hasks.token
      rw [hpc] at htoken
      contradiction

/-- What holds of a living reader's variables. -/
theorem Exchange.pcOk {r : Reader} {collector : Option Process}
    (h : Exchange rt source m s (some r) collector) : PcOk rt source m s r.pc := by
  cases h with
  | quiet hpc _ _ => exact hpc
  | asked hpc _ _ _ _ _ => exact hpc
  | accepted hpc _ _ _ _ _ _ => exact hpc

/-- A collector whose reader is gone holds frames the cursor has not passed. -/
theorem Exchange.crashReader {reader : Option Reader} {collector : Option Process}
    (h : Exchange rt source m s reader collector) : Exchange rt source m s none collector := by
  have hquiet : ∀ c : Process, c.Quiet → Exchange rt source m s none (some c) := by
    rintro c ⟨hidle, hempty⟩
    refine .orphaned (fun _ => ⟨hidle, hempty⟩) ?_
    simp [Process.inFlight, hidle, hempty]
  cases h with
  | ended => exact .ended
  | orphaned hspawned hcurrent => exact .orphaned hspawned hcurrent
  | quiet _ _ hq =>
      cases collector with
      | none => exact .ended
      | some c => exact hquiet c (hq c rfl)
  | asked hpc _ hspawned hasks hflight _ =>
      refine .orphaned (fun hfalse => by simp [hspawned] at hfalse) ?_
      intro f hf
      rw [hflight, List.mem_singleton] at hf
      rw [hf]
      exact hasks.current hpc
  | accepted _ _ hspawned _ hc houtput _ =>
      refine .orphaned (fun hfalse => by simp [hspawned] at hfalse) ?_
      simp [Process.inFlight, hc, houtput]

/-- A reader whose collector is gone keeps the line it was sent. -/
theorem Exchange.crashCollector {reader : Option Reader} {collector : Option Process}
    (h : Exchange rt source m s reader collector) : Exchange rt source m s reader none := by
  cases h with
  | ended => exact .ended
  | orphaned _ _ => exact .ended
  | quiet hpc hinput _ => exact .quiet hpc hinput (by simp)
  | asked hpc hinput _ _ _ _ => exact .quiet hpc (.inl hinput) (by simp)
  | accepted hpc hinput _ _ _ _ _ => exact .quiet hpc (.inl hinput) (by simp)

/-- A collector that has just started. -/
theorem Exchange.startCollector {reader : Option Reader}
    (h : Exchange rt source m s reader none) :
    Exchange rt source m s reader (some { pc := .idle, spawned := false, output := [] }) := by
  cases h with
  | ended => exact .orphaned (fun _ => ⟨rfl, rfl⟩) (by simp [Process.inFlight])
  | quiet hpc hinput _ =>
      refine .quiet hpc hinput ?_
      rintro c ⟨⟩
      exact ⟨rfl, rfl⟩

/-- The collector takes a line. -/
theorem Exchange.readLine {reader : Option Reader} {spawned : Bool} {frame : Object}
    {rest : List Object}
    (h : Exchange rt source m s reader
      (some { pc := .idle, spawned := spawned, output := frame :: rest })) :
    Exchange rt source m s reader
      (some { pc := .accepting frame, spawned := spawned, output := rest }) := by
  cases h with
  | orphaned hspawned hcurrent =>
      refine .orphaned ?_ hcurrent
      intro hfalse
      have := (hspawned hfalse).2
      contradiction
  | quiet _ _ hquiet =>
      have := (hquiet _ rfl).2
      contradiction
  | asked hpc hinput hspawned hasks hflight _ =>
      exact .asked hpc hinput hspawned hasks hflight (by simp)
  | accepted _ _ _ _ hc _ _ => contradiction

/-- The reader goes on without a frame. -/
theorem Exchange.advance {r : Reader} {collector : Option Process}
    (h : Exchange rt source m s (some r) collector) (hsilent : r.pc.awaited = none) {pc : StreamPc}
    (hpc : PcOk rt source m s pc) :
    Exchange rt source m s (some { r with pc := pc }) collector := by
  obtain ⟨hinput, hquiet⟩ := h.silent hsilent
  exact .quiet hpc (.inl hinput) hquiet

/-- The reader prints a frame. -/
theorem Exchange.print {r : Reader} {collector : Option Process}
    (h : Exchange rt source m s (some r) collector) (hsilent : r.pc.awaited = none) {pc : StreamPc}
    {frame : Object} (hpc : PcOk rt source m s pc) (hasks : Asks source m s pc frame) :
    Exchange rt source m s (some { r with pc := pc })
      (collector.map fun c =>
        if c.spawned then { c with output := c.output ++ [frame] } else c) := by
  obtain ⟨hinput, hquiet⟩ := h.silent hsilent
  cases collector with
  | none => exact .quiet hpc (.inl hinput) (by simp)
  | some c =>
      obtain ⟨hidle, hempty⟩ := hquiet c rfl
      rw [Option.map_some]
      by_cases hspawned : c.spawned = true
      · rw [if_pos hspawned]
        refine .asked hpc hinput hspawned hasks ?_ ?_
        · simp [Process.inFlight, hidle, hempty]
        · simp [hidle]
      · rw [if_neg hspawned]
        refine .quiet hpc (.inl hinput) ?_
        rintro p ⟨⟩
        exact ⟨hidle, hempty⟩

/-- The reader takes the line that acknowledges its frame. -/
theorem Exchange.receive {r : Reader} {collector : Option Process} {line : String}
    {rest : List String} (h : Exchange rt source m s (some r) collector)
    (hinput : r.input = line :: rest) {next : Reader}
    (hnext : PcOk rt source m s r.pc → Durable rt source m s r.pc →
      PcOk rt source m s next.pc) :
    Exchange rt source m s (some { next with input := rest }) collector := by
  cases h with
  | quiet hpc hin hquiet =>
      rcases hin with hempty | ⟨token, _, hline, hdurable⟩
      · rw [hempty] at hinput
        contradiction
      · rw [hline, List.cons.injEq] at hinput
        exact .quiet (hnext hpc hdurable) (.inl hinput.2.symm) hquiet
  | asked _ hempty _ _ _ _ =>
      rw [hempty] at hinput
      contradiction
  | accepted _ hempty _ _ _ _ _ =>
      rw [hempty] at hinput
      contradiction

/-- The collector writes the line that acknowledges the frame it accepted. -/
theorem Exchange.acknowledge {r : Reader} {spawned : Bool} {frame : Object}
    {output : List Object} {token : String}
    (h : Exchange rt source m s (some r)
      (some { pc := .acknowledging frame, spawned := spawned, output := output }))
    (htoken : frame.get? "token" = some (.str token)) :
    Exchange rt source m s (some { r with input := r.input ++ [ackLine token] })
      (some { pc := .idle, spawned := spawned, output := output }) := by
  cases h with
  | quiet _ _ hquiet =>
      have := (hquiet _ rfl).1
      contradiction
  | asked _ _ _ _ _ hpending => exact absurd rfl (hpending frame)
  | accepted hpc hinput _ hasks hc houtput hdurable =>
      obtain rfl := CollectorPc.acknowledging.inj hc
      obtain ⟨expected, hexpected, hget⟩ := hasks.token
      rw [htoken] at hget
      cases hget
      refine .quiet hpc (.inr ⟨token, hexpected, ?_, hdurable⟩) ?_
      · rw [hinput, List.nil_append]
      · rintro c ⟨⟩
        exact ⟨rfl, houtput⟩

/-- What is said of an exchange survives changes its parts survive. -/
theorem Exchange.mono {s' : Delivery} {reader : Option Reader} {collector : Option Process}
    (hpc : ∀ pc, PcOk rt source m s pc → PcOk rt source m s' pc)
    (hasks : ∀ pc frame, Asks source m s pc frame → Asks source m s' pc frame)
    (hdurable : ∀ pc, Durable rt source m s pc → Durable rt source m s' pc)
    (hcurrent : ∀ frame, Current source m s frame → Current source m s' frame)
    (h : Exchange rt source m s reader collector) :
    Exchange rt source m s' reader collector := by
  cases h with
  | ended => exact .ended
  | orphaned hspawned hall => exact .orphaned hspawned fun f hf => hcurrent f (hall f hf)
  | quiet hp hinput hquiet =>
      refine .quiet (hpc _ hp) ?_ hquiet
      rcases hinput with hempty | ⟨token, htoken, hline, hd⟩
      · exact .inl hempty
      · exact .inr ⟨token, htoken, hline, hdurable _ hd⟩
  | asked hp hinput hspawned ha hflight hpending =>
      exact .asked (hpc _ hp) hinput hspawned (hasks _ _ ha) hflight hpending
  | accepted hp hinput hspawned ha hc houtput hd =>
      exact .accepted (hpc _ hp) hinput hspawned (hasks _ _ ha) hc houtput (hdurable _ hd)

/-- What is said of an exchange concerns the entries, the cursors and the journal's file. -/
theorem Exchange.congr {s' : Delivery} {reader : Option Reader} {collector : Option Process}
    (h : Exchange rt source m s reader collector)
    (hentries : s'.entries = s.entries) (hcursor : s'.consumerPos = s.consumerPos)
    (hheld : ∀ i n, Committed rt source s i n → Committed rt source s' i n) :
    Exchange rt source m s' reader collector := by
  have hentry : ∀ {i cons step}, AtEntry m s i cons step → AtEntry m s' i cons step := by
    intro i cons step hat
    rw [AtEntry, hentries, hcursor]
    exact hat
  refine h.mono ?_ ?_ ?_ ?_
  · intro pc hpc
    cases pc with
    | loadEntry => exact ⟨hpc.1, by rw [hcursor]; exact hpc.2⟩
    | record => exact ⟨hpc.1, hentry hpc.2⟩
    | recheck | storeConsumer => exact ⟨⟨hpc.1.1, hentry hpc.1.2⟩, hheld _ _ hpc.2⟩
    | _ => exact hpc
  · intro pc frame hasks
    cases pc with
    | record =>
        rw [Asks, hentries]
        exact hasks
    | _ => exact hasks
  · intro pc hdurable
    cases pc with
    | record => exact hheld _ _ hdurable
    | _ => exact hdurable
  · intro frame hcurrent
    rw [Current, hentries, hcursor]
    exact hcurrent

end Parts

/-! ## Steps -/

section Steps

variable {rt : Runtime} {retain : Nat} {source : Source} {m : Nat → Nat} {s : Delivery}

/-- The journal holds as many entries of a ring as there are rows. -/
theorem Committed.length {i n : Nat} (h : Committed rt source s i n) :
    (committed rt source s.history i).length = n := by
  rw [h.2, length_framesFrom, List.length_take, Nat.min_eq_left h.1]

/-- Entries that were there stay where they are. -/
theorem Committed.extend {s' : Delivery} {i n : Nat} (hgrows : s.entries i <+: s'.entries i)
    (hhistory : s'.history = s.history) (h : Committed rt source s i n) :
    Committed rt source s' i n := by
  refine ⟨Nat.le_trans h.1 hgrows.length_le, ?_⟩
  obtain ⟨rest, hrest⟩ := hgrows
  rw [hhistory, ← hrest, List.take_append_of_le_length h.1]
  exact h.2

/-- The producer commits an entry. -/
theorem Delivered.commit (h : Delivered rt retain source m s) {i : Nat} {tile : Tile}
    (hsize : 0 < tile.size) :
    Delivered rt retain source m
      { s with entries := Function.update s.entries i (s.entries i ++ [tile]) } := by
  have hgrows : ∀ j, s.entries j <+: Function.update s.entries i (s.entries i ++ [tile]) j := by
    intro j
    by_cases hj : j = i
    · subst hj
      simp
    · simp [hj]
  have hget : ∀ {j n : Nat} {t : Tile}, (s.entries j)[n]? = some t →
      (Function.update s.entries i (s.entries i ++ [tile]) j)[n]? = some t :=
    by
    intro j n t hold
    obtain ⟨rest, hrest⟩ := hgrows j
    have hn := (List.getElem?_eq_some_iff.mp hold).1
    rw [← hrest, List.getElem?_append_left hn, hold]
  have hentry : ∀ {j cons step}, AtEntry m s j cons step → AtEntry m
      { s with entries := Function.update s.entries i (s.entries i ++ [tile]) } j cons step :=
    fun ⟨hcons, t, ht, hstep⟩ => ⟨hcons, t, hget ht, hstep⟩
  have hcommitted : ∀ {j n}, Committed rt source s j n → Committed rt source
      { s with entries := Function.update s.entries i (s.entries i ++ [tile]) } j n :=
    fun hold => hold.extend (hgrows _) rfl
  exact {
    sound := h.sound
    registered := h.registered
    epoch := h.epoch
    sizes := by
      intro j t ht
      by_cases hj : j = i
      · subst hj
        simp only [Function.update_self, List.mem_append, List.mem_singleton] at ht
        rcases ht with hold | rfl
        · exact h.sizes j t hold
        · exact hsize
      · simp only [Function.update_of_ne hj] at ht
        exact h.sizes j t ht
    cursor := by
      intro j
      obtain ⟨hm, hcons⟩ := h.cursor j
      obtain ⟨rest, hrest⟩ := hgrows j
      refine ⟨Nat.le_trans hm (hgrows j).length_le, ?_⟩
      simp only
      rw [← hrest, List.take_append_of_le_length hm]
      exact hcons
    held := fun j => (h.held j).imp hcommitted hcommitted
    exchange := by
      refine h.exchange.mono ?_ ?_ ?_ ?_
      · intro pc hpc
        cases pc with
        | record => exact ⟨hpc.1, hentry hpc.2⟩
        | recheck | storeConsumer => exact ⟨⟨hpc.1.1, hentry hpc.1.2⟩, hcommitted hpc.2⟩
        | _ => exact hpc
      · intro pc frame hasks
        cases pc with
        | record =>
            obtain ⟨t, ht, hrest⟩ := hasks
            exact ⟨t, hget ht, hrest⟩
        | _ => exact hasks
      · intro pc hdurable
        cases pc with
        | record => exact hcommitted hdurable
        | _ => exact hdurable
      · rintro frame (hsource | hhealth | ⟨j, t, hj, ht, hframe⟩)
        · exact .inl hsource
        · exact .inr (.inl hhealth)
        · exact .inr (.inr ⟨j, t, hj, hget ht, hframe⟩) }

/-- Where the journal's last row of a ring ends. -/
theorem last_framesFrom (hint : ReadsDecimals rt) {i : Nat} (hi : i < maxRings) {tiles : List Tile}
    (hsizes : ∀ t ∈ tiles, 0 < t.size) :
    ((framesFrom i 0 tiles).filterMap (frameProgress rt)).getLast?.map Progress.position =
      if tiles = [] then none else some ((extent tiles : Nat) : Int) := by
  rw [progress_framesFrom hint hi 0 hsizes, last_spansFrom, Nat.zero_add]

/-- Accepting the frame of the entry after the cursor commits it, if it was not. -/
theorem Delivered.accept_record (h : Delivered rt retain source m s) (hint : ReadsDecimals rt)
    {i : Nat} {tile : Tile} {uuid : String} {storage : Bool} (hi : i < maxRings)
    (htile : (s.entries i)[m i]? = some tile)
    (hcollector : s.collector ≠ none)
    (hok : (accept rt retain uuid storage s.history.journal
      (recordFrame i (s.consumerPos i) tile)).1 = .ok ()) :
    (∀ j, j ≠ i → committed rt source (historyNext rt retain s.history
        (.accept (recordFrame i (s.consumerPos i) tile) uuid storage)) j =
      committed rt source s.history j) ∧
    committed rt source (historyNext rt retain s.history
        (.accept (recordFrame i (s.consumerPos i) tile) uuid storage)) i =
      framesFrom i 0 ((s.entries i).take (m i + 1)) := by
  obtain ⟨c, hc⟩ := Option.ne_none_iff_exists'.mp hcollector
  have hregistered : ∀ epoch, s.history.journal.session.source = some epoch →
      s.history.journal.db.sourceId = some (sourceId rt source) := by
    intro epoch hepoch
    by_contra hunknown
    rw [h.registered hunknown c hc] at hepoch
    contradiction
  obtain ⟨_, hcursor⟩ := h.cursor i
  have hsize := h.sizes i tile (List.mem_of_getElem? htile)
  have hgrows : ∀ n, ∀ t ∈ (s.entries i).take n, 0 < t.size :=
    fun n t ht => h.sizes i t (List.mem_of_mem_take ht)
  have hsucc := take_succ_of_getElem? htile
  -- where the journal's rows end if the entry is committed, and if it is not
  have hbefore : ∀ z, (if (s.entries i).take (m i) = [] then none
      else some ((extent ((s.entries i).take (m i)) : Nat) : Int)) = some z →
      z = (s.consumerPos i : Nat) := by
    intro z hz
    split at hz
    · contradiction
    · rw [hcursor]
      exact (Option.some.inj hz).symm
  have hafter : (if (s.entries i).take (m i + 1) = [] then none
      else some ((extent ((s.entries i).take (m i + 1)) : Nat) : Int)) =
      some ((s.consumerPos i + tile.size : Nat) : Int) := by
    rw [hsucc, if_neg (by simp), extent_append, extent_singleton, hcursor]
  obtain ⟨hothers, hway⟩ := h.sound.accept_record hint hi hsize hregistered hok
  refine ⟨hothers, ?_⟩
  rcases hway with ⟨hsame, hlast⟩ | ⟨hnew, hlast⟩
  · rw [hsame]
    rcases h.held i with ⟨_, hcommitted⟩ | ⟨_, hcommitted⟩
    · rw [hcommitted, last_framesFrom hint hi (hgrows _)] at hlast
      have := hbefore _ hlast
      omega
    · exact hcommitted
  · rw [hnew]
    rcases h.held i with ⟨_, hcommitted⟩ | ⟨_, hcommitted⟩
    · rw [hcommitted, hsucc, framesFrom_append, Nat.zero_add, hcursor]
    · rw [hcommitted, last_framesFrom hint hi (hgrows _), hafter] at hlast
      have := hlast _ rfl
      omega

/-- Accepting a frame the cursor has not passed keeps what the journal holds of each
ring within one entry of the cursor. -/
theorem Delivered.accept_current (h : Delivered rt retain source m s) (hint : ReadsDecimals rt)
    {frame : Object} {uuid : String} {storage : Bool} (hcurrent : Current source m s frame)
    (hdistinct : Distinct rt s.history frame uuid) (hcollector : s.collector ≠ none)
    (hok : (accept rt retain uuid storage s.history.journal frame).1 = .ok ()) (s' : Delivery)
    (hentries : s'.entries = s.entries)
    (hhistory : s'.history = historyNext rt retain s.history (.accept frame uuid storage)) :
    (s'.history.journal.db.sourceId = some (sourceId rt source) ∧
      s'.history.journal.db.sourceEpoch ≠ none) ∧
      ∀ i, Committed rt source s' i (m i) ∨ Committed rt source s' i (m i + 1) := by
  obtain ⟨c, hc⟩ := Option.ne_none_iff_exists'.mp hcollector
  -- a frame of a ring is accepted only after the source
  have hring : ∀ kind, frameKind ((rawOf frame).get? "kind") = some kind →
      s'.history.journal.db.sourceId = some (sourceId rt source) ∧
        s'.history.journal.db.sourceEpoch ≠ none := by
    intro kind hkind
    obtain ⟨epoch, _, hepoch, _, _, hid, hsame, _⟩ := h.sound.accept_ring hkind hok
    have hknown : s.history.journal.db.sourceId = some (sourceId rt source) := by
      by_contra hunknown
      rw [h.registered hunknown c hc] at hepoch
      contradiction
    rw [hhistory, hid, hsame]
    exact ⟨hknown, h.epoch hknown⟩
  have hkeep : (∀ i, committed rt source s'.history i = committed rt source s.history i) →
      ∀ i, Committed rt source s' i (m i) ∨ Committed rt source s' i (m i + 1) := by
    intro hsame i
    simpa only [Committed, hentries, hsame] using h.held i
  rcases hcurrent with rfl | ⟨i, drops, dropBytes, rfl⟩ | ⟨i, tile, hi, htile, rfl⟩
  · have hsource := h.sound.accept_source hdistinct h.epoch hok
    rw [← hhistory] at hsource
    exact ⟨(hsource 0).2, hkeep fun i => (hsource i).1⟩
  · refine ⟨hring _ (kind_healthFrame drops dropBytes), hkeep fun j => ?_⟩
    rw [hhistory]
    exact h.sound.accept_health hok j
  · obtain ⟨hothers, hself⟩ := h.accept_record hint hi htile hcollector hok
    refine ⟨hring _ (kind_recordFrame _ tile), fun j => ?_⟩
    by_cases hj : j = i
    · subst hj
      right
      refine ⟨?_, ?_⟩
      · rw [hentries]
        exact (List.getElem?_eq_some_iff.mp htile).1
      · rw [hhistory, hentries]
        exact hself
    · have hsame : committed rt source s'.history j = committed rt source s.history j := by
        rw [hhistory]
        exact hothers j hj
      simpa only [Committed, hentries, hsame] using h.held j

/-- The journal accepts a frame the collector has read. -/
theorem Delivered.acceptFrame (h : Delivered rt retain source m s) (hint : ReadsDecimals rt)
    (hretain : 2 ≤ retain) {frame : Object} {spawned : Bool} {output : List Object}
    {uuid : String} {storage : Bool}
    (hcollector : s.collector = some { pc := .accepting frame, spawned, output })
    (hdistinct : Distinct rt s.history frame uuid)
    (hok : (accept rt retain uuid storage s.history.journal frame).1 = .ok ()) :
    Delivered rt retain source m
      { s with
        history := historyNext rt retain s.history (.accept frame uuid storage)
        collector := some { pc := .acknowledging frame, spawned, output } } := by
  have hsome : s.collector ≠ none := by simp [hcollector]
  have hexchange := h.exchange
  rw [hcollector] at hexchange
  -- the reader, if it lives, asks for this frame, and no other is in flight
  have hcurrent : Current source m s frame := by
    generalize s.reader = reader at hexchange
    cases hexchange with
    | orphaned _ hall => exact hall frame (by simp [Process.inFlight])
    | quiet _ _ hquiet =>
        have := (hquiet _ rfl).1
        contradiction
    | asked hpc _ _ hasks hflight _ =>
        simp only [Process.inFlight, List.cons.injEq] at hflight
        rw [hflight.1]
        exact hasks.current hpc
    | accepted _ _ _ _ hc _ _ => contradiction
  obtain ⟨hid, hheld⟩ := h.accept_current hint hcurrent hdistinct hsome hok
    { s with
      history := historyNext rt retain s.history (.accept frame uuid storage)
      collector := some { pc := .acknowledging frame, spawned, output } } rfl rfl
  have hhistory : HistoryOk rt s.history (.accept frame uuid storage) := hdistinct
  exact {
    sound := h.sound.step hretain hhistory
    registered := fun hunknown => absurd hid.1 hunknown
    epoch := fun _ => hid.2
    sizes := h.sizes
    cursor := h.cursor
    held := hheld
    exchange := by
      simp only
      generalize s.reader = reader at hexchange
      cases hexchange with
      | orphaned hspawned hall =>
          refine .orphaned ?_ ?_
          · intro hfalse
            have := (hspawned hfalse).1
            contradiction
          · intro f hf
            exact hall f (List.mem_cons_of_mem _ hf)
      | quiet _ _ hquiet =>
          have := (hquiet _ rfl).1
          contradiction
      | @asked r _ _ hpc hinput hspawned hasks hflight _ =>
          simp only [Process.inFlight, List.cons.injEq] at hflight
          obtain ⟨rfl, houtput⟩ := hflight
          cases hr : r.pc with
          | record i claimed cons step =>
              rw [hr] at hpc hasks
              have hpc' := hpc
              have hasks' := hasks
              obtain ⟨tile, htile, _, rfl⟩ := hasks
              obtain ⟨hi, rfl, _⟩ := hpc
              have hself := (h.accept_record hint (Nat.lt_of_lt_of_le hi.1 hi.2) htile hsome hok).2
              refine .accepted ?_ hinput hspawned ?_ rfl houtput ?_
              · rw [hr]
                exact hpc'
              · rw [hr]
                exact hasks'
              · rw [hr]
                exact ⟨(List.getElem?_eq_some_iff.mp htile).1, hself⟩
          | hello =>
              rw [hr] at hasks
              exact .accepted (by rw [hr]; trivial) hinput hspawned (by rw [hr]; exact hasks) rfl
                houtput (by rw [hr]; trivial)
          | health i claimed drops =>
              rw [hr] at hpc hasks
              exact .accepted (by rw [hr]; exact hpc) hinput hspawned (by rw [hr]; exact hasks) rfl
                houtput (by rw [hr]; trivial)
          | _ =>
              rw [hr] at hasks
              contradiction
      | accepted _ _ _ _ hc _ _ => contradiction }

/-- The cursor moves over an entry that is committed. -/
theorem Delivered.storeConsumer (h : Delivered rt retain source m s) {r : Reader}
    {i claimed cons step : Nat} (hreader : s.reader = some r)
    (hpc : r.pc = .storeConsumer i claimed cons step) :
    Delivered rt retain source (Function.update m i (m i + 1))
      { s with
        consumerPos := Function.update s.consumerPos i (cons + step)
        reader := some { r with pc := .scan (i + 1) claimed } } := by
  have hexchange := h.exchange
  rw [hreader] at hexchange
  obtain ⟨hinput, hquiet⟩ := hexchange.silent (by rw [hpc]; rfl)
  have hok := hexchange.pcOk
  rw [hpc] at hok
  obtain ⟨⟨hi, rfl, tile, htile, rfl⟩, hcommitted⟩ := hok
  exact {
    sound := h.sound
    registered := h.registered
    epoch := h.epoch
    sizes := h.sizes
    cursor := by
      intro j
      by_cases hj : j = i
      · subst hj
        simp only [Function.update_self]
        refine ⟨hcommitted.1, ?_⟩
        rw [take_succ_of_getElem? htile, extent_append, extent_singleton, (h.cursor j).2]
      · simp only [Function.update_of_ne hj]
        exact h.cursor j
    held := by
      intro j
      by_cases hj : j = i
      · subst hj
        left
        simp only [Function.update_self]
        exact hcommitted
      · simp only [Function.update_of_ne hj]
        exact h.held j
    exchange := .quiet hi.2 (.inl hinput) hquiet }

/-- A step of the reader. -/
theorem Delivered.readerNext (h : Delivered rt retain source m s) {r : Reader}
    (hreader : s.reader = some r) {s' : Delivery} (hnext : readerNext source s r = some s') :
    ∃ m', Delivered rt retain source m' s' := by
  have hexchange := h.exchange
  rw [hreader] at hexchange
  -- what is left to say when neither the ring nor the journal moves
  have hkeep : ∀ {reader : Option Reader} {collector : Option Process},
      (∀ c, collector = some c → ∃ c', s.collector = some c') →
      Exchange rt source m s reader collector →
      Delivered rt retain source m { s with reader := reader, collector := collector } := by
    intro reader collector hsome hnew
    exact { h with
      registered := fun hunknown c hc =>
        let ⟨c', hc'⟩ := hsome c hc
        h.registered hunknown c' hc'
      exchange := hnew.congr rfl rfl fun _ _ hheld => hheld }
  have hprint : ∀ {pc frame}, r.pc.awaited = none → PcOk rt source m s pc →
      Asks source m s pc frame → Delivered rt retain source m (printFrame s r pc frame) := by
    intro pc frame hsilent hpc hasks
    refine hkeep ?_ (hexchange.print hsilent hpc hasks)
    intro c hc
    obtain ⟨c', hc', _⟩ := Option.map_eq_some_iff.mp hc
    exact ⟨c', hc'⟩
  have hreceive : ∀ {token : String} {next : Reader},
      (PcOk rt source m s r.pc → Durable rt source m s r.pc → PcOk rt source m s next.pc) →
      receiveAck s r token next = some s' → Delivered rt retain source m s' := by
    intro token next hok hreceived
    unfold receiveAck at hreceived
    split at hreceived
    · contradiction
    · rename_i line rest hinput
      split at hreceived
      · cases hreceived
        exact hkeep (fun c hc => ⟨c, hc⟩) (hexchange.receive hinput hok)
      · cases hreceived
        exact hkeep (fun c hc => ⟨c, hc⟩) hexchange.crashReader
  have hgoOn : ∀ {pc}, r.pc.awaited = none → PcOk rt source m s pc →
      Delivered rt retain source m { s with reader := some { r with pc := pc } } :=
    fun hsilent hpc => hkeep (fun c hc => ⟨c, hc⟩) (hexchange.advance hsilent hpc)
  have hexit : Delivered rt retain source m { s with reader := none } :=
    hkeep (fun c hc => ⟨c, hc⟩) hexchange.crashReader
  have hpcOk := hexchange.pcOk
  unfold Collector.readerNext at hnext
  cases hpc : r.pc with
  | start =>
      simp only [hpc, Option.some.injEq] at hnext
      subst hnext
      exact ⟨m, hprint (by rw [hpc]; rfl) trivial rfl⟩
  | hello =>
      simp only [hpc] at hnext
      refine ⟨m, hreceive ?_ hnext⟩
      intro _ _
      trivial
  | poll =>
      simp only [hpc] at hnext
      split at hnext
      · cases hnext
        exact ⟨m, hexit⟩
      · rename_i hclaimed
        cases hnext
        exact ⟨m, hgoOn (by rw [hpc]; rfl) (Nat.le_of_not_lt hclaimed)⟩
  | scan i claimed =>
      rw [hpc] at hpcOk
      simp only [hpc] at hnext
      split at hnext
      · rename_i hi
        split at hnext
        · cases hnext
          exact ⟨m, hprint (by rw [hpc]; rfl) ⟨hi, hpcOk⟩ ⟨_, rfl⟩⟩
        · cases hnext
          exact ⟨m, hgoOn (by rw [hpc]; rfl) ⟨hi, hpcOk⟩⟩
      · cases hnext
        exact ⟨m, hgoOn (by rw [hpc]; rfl) trivial⟩
  | health i claimed drops =>
      simp only [hpc] at hnext
      exact ⟨m, hreceive (fun hok _ => by rw [hpc] at hok; exact hok) hnext⟩
  | loadConsumer i claimed =>
      rw [hpc] at hpcOk
      simp only [hpc, Option.some.injEq] at hnext
      subst hnext
      exact ⟨m, hgoOn (by rw [hpc]; rfl) ⟨hpcOk, rfl⟩⟩
  | loadEntry i claimed cons =>
      rw [hpc] at hpcOk
      obtain ⟨hi, rfl⟩ := hpcOk
      have hentry : entryAt (s.entries i) (s.consumerPos i) = (s.entries i)[m i]? := by
        rw [(h.cursor i).2]
        exact entryAt_extent (h.sizes i) (h.cursor i).1
      simp only [hpc, hentry] at hnext
      have hrecord : ∀ tile, (s.entries i)[m i]? = some tile →
          Delivered rt retain source m (printFrame s r
            (.record i claimed (s.consumerPos i) tile.size)
            (recordFrame i (s.consumerPos i) tile)) := by
        intro tile htile
        exact hprint (by rw [hpc]; rfl) ⟨hi, rfl, tile, htile, rfl⟩ ⟨tile, htile, rfl, rfl⟩
      split at hnext
      · cases hnext
        exact ⟨m, hgoOn (by rw [hpc]; rfl) hi.2⟩
      · rename_i e htile
        split at hnext
        · cases hnext
          exact ⟨m, hrecord _ htile⟩
        · cases hnext
          exact ⟨m, hexit⟩
      · rename_i n htile
        cases hnext
        exact ⟨m, hrecord _ htile⟩
  | record i claimed cons step =>
      simp only [hpc] at hnext
      refine ⟨m, hreceive ?_ hnext⟩
      intro hok hdurable
      rw [hpc] at hok hdurable
      exact ⟨hok, hdurable⟩
  | recheck i claimed cons step =>
      rw [hpc] at hpcOk
      simp only [hpc] at hnext
      split at hnext
      · cases hnext
        exact ⟨m, hexit⟩
      · cases hnext
        exact ⟨m, hgoOn (by rw [hpc]; rfl) hpcOk⟩
  | storeConsumer i claimed cons step =>
      simp only [hpc, Option.some.injEq] at hnext
      subst hnext
      exact ⟨_, h.storeConsumer hreader hpc⟩

/-- One step keeps the invariant. -/
theorem Delivered.step (h : Delivered rt retain source m s) (hint : ReadsDecimals rt)
    (hretain : 2 ≤ retain) {act : DeliveryAct} (hok : DeliveryOk rt s act) {s' : Delivery}
    (hnext : deliveryNext rt retain source s act = some s') :
    ∃ m', Delivered rt retain source m' s' := by
  cases act with
  | commit i tile =>
      simp only [deliveryNext] at hnext
      split at hnext
      · rename_i hsize
        cases hnext
        exact ⟨m, h.commit hsize⟩
      · contradiction
  | count i drops dropBytes =>
      cases hnext
      exact ⟨m, { h with exchange := h.exchange.congr rfl rfl fun _ _ hheld => hheld }⟩
  | claim =>
      cases hnext
      exact ⟨m, { h with exchange := h.exchange.congr rfl rfl fun _ _ hheld => hheld }⟩
  | startCollector =>
      simp only [deliveryNext] at hnext
      split at hnext
      · contradiction
      · rename_i hnone
        cases hnext
        have hexchange := h.exchange
        rw [hnone] at hexchange
        exact ⟨m, {
          sound := h.sound.reopen
          registered := fun _ _ _ => rfl
          epoch := h.epoch
          sizes := h.sizes
          cursor := h.cursor
          held := h.held
          exchange := hexchange.startCollector.congr rfl rfl fun _ _ hheld => hheld }⟩
  | startReader =>
      simp only [deliveryNext] at hnext
      split at hnext
      · rename_i c hcollector hreader
        split at hnext
        · contradiction
        · rename_i hspawned
          cases hnext
          have hexchange := h.exchange
          rw [hreader, hcollector] at hexchange
          cases hexchange with
          | orphaned hquiet _ =>
              refine ⟨m, { h with registered := ?_, exchange := ?_ }⟩
              · intro hunknown _ _
                exact h.registered hunknown c hcollector
              · refine .quiet trivial (.inl rfl) ?_
                rintro p ⟨⟩
                exact hquiet (by simpa using hspawned)
      · contradiction
  | crashCollector =>
      cases hnext
      exact ⟨m, { h with
        registered := fun _ _ hc => by contradiction
        exchange := h.exchange.crashCollector.congr rfl rfl fun _ _ hheld => hheld }⟩
  | crashReader =>
      cases hnext
      exact ⟨m, { h with
        exchange := h.exchange.crashReader.congr rfl rfl fun _ _ hheld => hheld }⟩
  | reader =>
      simp only [deliveryNext] at hnext
      obtain ⟨r, hreader, hr⟩ := Option.bind_eq_some_iff.mp hnext
      exact h.readerNext hreader hr
  | readLine =>
      simp only [deliveryNext] at hnext
      split at hnext
      · rename_i spawned frame rest hcollector
        cases hnext
        have hexchange := h.exchange
        rw [hcollector] at hexchange
        refine ⟨m, { h with
          registered := ?_
          exchange := hexchange.readLine.congr rfl rfl fun _ _ hheld => hheld }⟩
        intro hunknown _ _
        exact h.registered hunknown _ hcollector
      · contradiction
  | accept uuid storage =>
      simp only [deliveryNext] at hnext
      split at hnext
      · rename_i frame spawned output hcollector
        have hdistinct : Distinct rt s.history frame uuid := by
          simpa only [DeliveryOk, hcollector] using hok
        split at hnext
        · rename_i e herror
          cases hnext
          have hsame : accept rt retain uuid storage s.history.journal frame =
              (.error e, s.history.journal) := by
            rcases accept_cases rt retain uuid storage s.history.journal frame with
              ⟨e', he'⟩ | ⟨hfine, _⟩
            · rw [he'] at herror ⊢
              simp only at herror
              rw [herror]
            · rw [hfine] at herror
              contradiction
          rw [historyNext_error hsame]
          exact ⟨m, { h with
            registered := fun _ _ hc => by contradiction
            exchange := h.exchange.crashCollector.congr rfl rfl fun _ _ hheld => hheld }⟩
        · rename_i hfine
          cases hnext
          exact ⟨m, h.acceptFrame hint hretain hcollector hdistinct hfine⟩
      · contradiction
  | acknowledge =>
      simp only [deliveryNext] at hnext
      split at hnext
      · rename_i frame spawned output hcollector
        have hexchange := h.exchange
        rw [hcollector] at hexchange
        split at hnext
        · rename_i token r htoken hreader
          cases hnext
          rw [hreader] at hexchange
          refine ⟨m, { h with
            registered := ?_
            exchange := (hexchange.acknowledge htoken).congr rfl rfl fun _ _ hheld => hheld }⟩
          intro hunknown _ _
          exact h.registered hunknown _ hcollector
        · cases hnext
          exact ⟨m, { h with
            registered := fun _ _ hc => by contradiction
            exchange := h.exchange.crashCollector.congr rfl rfl fun _ _ hheld => hheld }⟩
      · contradiction

/-- The invariant holds in every reachable state. -/
theorem delivered_of_reachable (hint : ReadsDecimals rt) (hretain : 2 ≤ retain) :
    ∀ s, (deliveryMachine rt retain source).ReachableWhen (DeliveryOk rt) s →
      ∃ m, Delivered rt retain source m s := by
  apply Machine.ReachableWhen.invariant
  · rintro s ⟨hhistory, hunknown, hentries, hcursor, hreader, hcollector⟩
    have hnothing : ∀ i, committed rt source s.history i = [] := by
      intro i
      unfold committed
      split
      · rfl
      · exact if_neg hunknown
    exact ⟨fun _ => 0, {
      sound := sound_of_reachable hretain _ hhistory
      registered := by simp [hcollector]
      epoch := fun hknown => absurd hknown hunknown
      sizes := by simp [hentries]
      cursor := by simp [hcursor, extent]
      held := fun i => .inl ⟨Nat.zero_le _, by simp [hnothing, framesFrom]⟩
      exchange := by
        rw [hreader, hcollector]
        exact .ended }⟩
  · rintro s act s' _ ⟨m, h⟩ hok hnext
    exact h.step hint hretain hok hnext

/-- The journal's checkpoint of a ring is where the entries it holds end. -/
theorem Delivered.checkpoint (h : Delivered rt retain source m s) (hint : ReadsDecimals rt)
    {i n : Nat} (hi : i < maxRings) (hheld : Committed rt source s i n) :
    checkpointPosition rt source s.history i = (extent ((s.entries i).take n) : Nat) := by
  have hlast := last_framesFrom hint hi fun t (ht : t ∈ (s.entries i).take n) =>
    h.sizes i t (List.mem_of_mem_take ht)
  rw [← hheld.2] at hlast
  unfold committed at hlast
  unfold checkpointPosition
  by_cases hregistered : s.history.journal.db.sourceId = some (sourceId rt source)
  · rw [if_pos hregistered]
    obtain ⟨epoch, hepoch⟩ := Option.ne_none_iff_exists'.mp (h.epoch hregistered)
    simp only [hepoch, hregistered, if_true, ← moves_eq_filterMap] at hlast
    rw [h.sound.last epoch hepoch] at hlast
    rw [hlast]
    split
    · rename_i hnil
      simp [hnil, extent]
    · rfl
  · rw [if_neg hregistered]
    have hnone : (if (s.entries i).take n = [] then none
        else some ((extent ((s.entries i).take n) : Nat) : Int)) = none := by
      rw [← hlast]
      split
      · rfl
      · rw [if_neg hregistered]
        rfl
    split at hnone
    · rename_i hnil
      simp [hnil, extent]
    · contradiction

end Steps

/-! ## The delivery law -/

/-- Over every interleaving of the producer, the reader and the collector, with
either process dying and being started again anywhere, there are for each ring a
number of entries before the cursor and a number of entries in the journal: the
second is the first or one more, the cursor and the checkpoint are where these
entries end, and the rows committed for the ring are the frames of these entries,
each once and in order.  An unread acknowledgement of an entry, or a reader about
to move the cursor over it, means that the journal holds it. -/
theorem delivery_exactly_once (rt : Runtime) (hint : ReadsDecimals rt) (retain : Nat)
    (hretain : 2 ≤ retain) (source : Source) (s : Delivery)
    (hs : (deliveryMachine rt retain source).ReachableWhen (DeliveryOk rt) s) :
    ∃ consumed stored : Nat → Nat, ∀ i,
      consumed i ≤ stored i ∧ stored i ≤ consumed i + 1 ∧ stored i ≤ (s.entries i).length ∧
      s.consumerPos i = extent ((s.entries i).take (consumed i)) ∧
      committed rt source s.history i = framesFrom i 0 ((s.entries i).take (stored i)) ∧
      (i < maxRings →
        checkpointPosition rt source s.history i = (extent ((s.entries i).take (stored i)) : Nat) ∧
        (committed rt source s.history i).filterMap (frameProgress rt) =
          spansFrom i 0 ((s.entries i).take (stored i)) ∧
        (s.consumerPos i : Int) ≤ checkpointPosition rt source s.history i) ∧
      ∀ r claimed cons step, s.reader = some r →
        (r.pc = .record i claimed cons step ∧ r.input ≠ [] ∨
          r.pc = .recheck i claimed cons step ∨ r.pc = .storeConsumer i claimed cons step) →
        stored i = consumed i + 1 := by
  obtain ⟨m, h⟩ := delivered_of_reachable hint hretain s hs
  refine ⟨m, fun i => (committed rt source s.history i).length, fun i => ?_⟩
  have hheld : Committed rt source s i (committed rt source s.history i).length := by
    rcases h.held i with hm | hm
    · rw [hm.length]
      exact hm
    · rw [hm.length]
      exact hm
  have hbounds : m i ≤ (committed rt source s.history i).length ∧
      (committed rt source s.history i).length ≤ m i + 1 := by
    rcases h.held i with hm | hm <;> rw [hm.length] <;> omega
  refine ⟨hbounds.1, hbounds.2, hheld.1, (h.cursor i).2, hheld.2, ?_, ?_⟩
  · intro hi
    simp only
    generalize (committed rt source s.history i).length = stored at hheld hbounds ⊢
    have hcheckpoint := h.checkpoint hint hi hheld
    refine ⟨hcheckpoint, ?_, ?_⟩
    · rw [hheld.2, progress_framesFrom hint hi 0 fun t ht =>
        h.sizes i t (List.mem_of_mem_take ht)]
    · rw [hcheckpoint, (h.cursor i).2]
      have hsplit : (s.entries i).take stored = (s.entries i).take (m i) ++
          ((s.entries i).drop (m i)).take (stored - m i) := by
        rw [← List.take_add]
        congr 1
        omega
      rw [hsplit, extent_append]
      omega
  · intro r claimed cons step hreader hpc
    have hexchange := h.exchange
    rw [hreader] at hexchange
    have hok := hexchange.pcOk
    apply Committed.length
    rcases hpc with ⟨hpc, hinput⟩ | hpc | hpc
    · generalize s.collector = collector at hexchange
      cases hexchange with
      | quiet _ hin _ =>
          rcases hin with hempty | ⟨_, _, _, hd⟩
          · exact absurd hempty hinput
          · rw [hpc] at hd
            exact hd
      | asked _ hempty _ _ _ _ => exact absurd hempty hinput
      | accepted _ hempty _ _ _ _ _ => exact absurd hempty hinput
    · rw [hpc] at hok
      exact hok.2
    · rw [hpc] at hok
      exact hok.2

/-! ## A sample run -/

/-- Python on the frames of a ring with empty records. -/
def wireRuntime : Runtime where
  sha256 raw :=
    match raw.get? "kind", raw.get? "begin", raw.get? "drops" with
    | some (.str "record"), some (.str start), _ => "41c7" ++ start
    | some (.str "ring_health"), _, some (.str drops) => "e05b" ++ drops
    | _, _, _ => "8d3a"
  size _ := 72
  int
    | .int n => some n
    | .str s => if s.toList.all Char.isDigit then some (Nat.ofDigitChars 10 s.toList 0) else none
    | _ => none
  fromhex
    | .str "" => some []
    | _ => none

theorem readsDecimals_wireRuntime : ReadsDecimals wireRuntime := by
  intro n
  have hdigits : (toString n).toList = Nat.toDigits 10 n := Nat.toList_repr
  have hall : ((toString n).toList.all Char.isDigit) = true := by
    rw [hdigits, List.all_eq_true]
    intro c hc
    exact Nat.isDigit_of_mem_toDigits (by decide) (by decide) hc
  simp only [wireRuntime]
  rw [if_pos hall, hdigits, Nat.ofDigitChars_toDigits (by decide) (by decide)]

/-- A source. -/
def wireSource : Source where
  boot := "0d"
  pidNamespace := 1
  pid := 42
  start := 7
  segmentDevice := 1
  segmentInode := 2
  exeDevice := 1
  exeInode := 3
  segmentVersion := 1

/-- An empty record. -/
def emptyRecord : Tile :=
  .record { header := { hookId := 0, schemaId := 7, seq := 0, slot := 0, len := 0, tsNs := 0 }
            payload := [] }

def wireStart : Delivery where
  entries _ := []
  claimed := 0
  drops _ := 0
  dropBytes _ := 0
  consumerPos _ := 0
  history := sampleStart
  reader := none
  collector := none

/-- One frame and its acknowledgement. -/
def exchangeOne (uuid : String) : List DeliveryAct :=
  [.reader, .readLine, .accept uuid true, .acknowledge, .reader]

/-- Both processes die while the reader waits for its first acknowledgement; the pair
that is started next takes a record over. -/
def wireRun : Delivery :=
  ((deliveryMachine wireRuntime 4 wireSource).runWhen (DeliveryOk wireRuntime) wireStart
    ([.claim, .commit 0 emptyRecord, .startCollector, .startReader, .reader, .readLine,
      .accept "a1" true, .crashCollector, .crashReader, .startCollector, .startReader] ++
      exchangeOne "a2" ++ [.reader] ++ exchangeOne "a3" ++ [.reader] ++
      exchangeOne "a4")).getD wireStart

theorem reachable_wireRun :
    (deliveryMachine wireRuntime 4 wireSource).ReachableWhen (DeliveryOk wireRuntime) wireRun :=
  Machine.reachableWhen_run_getD
    (.start ⟨.start ⟨_, rfl⟩, by decide, fun _ => rfl, fun _ => rfl, rfl, rfl⟩)
    (by decide +kernel)

/-- In the sample run the reader is about to move the cursor over the record, which
the journal holds once. -/
theorem delivery_exactly_once_wireRun :
    ∃ consumed stored : Nat, stored = consumed + 1 ∧
      wireRun.consumerPos 0 = extent ((wireRun.entries 0).take consumed) ∧
      committed wireRuntime wireSource wireRun.history 0 =
        framesFrom 0 0 ((wireRun.entries 0).take stored) := by
  have hpc : wireRun.reader.map Reader.pc = some (.recheck 0 1 0 40) := by decide +kernel
  obtain ⟨r, hreader, hr⟩ := Option.map_eq_some_iff.mp hpc
  obtain ⟨consumed, stored, h⟩ := delivery_exactly_once wireRuntime readsDecimals_wireRuntime 4
    (by decide) wireSource wireRun reachable_wireRun
  obtain ⟨_, _, _, hcursor, hcommitted, _, hahead⟩ := h 0
  exact ⟨consumed 0, stored 0, hahead r 1 0 40 hreader (.inr (.inl hr)), hcursor, hcommitted⟩

end Collector
end LiveSurface
