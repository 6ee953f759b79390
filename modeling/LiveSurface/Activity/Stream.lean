import LiveSurface.Activity.Combine
import LiveSurface.Library.Except

/-!
# Paging and conservation

Pages only cut the stream of rows; the combiner works row by row.  A row first
prepares the combiner, which may finish every open group, and then acts on the
groups: it is emitted, or taken by a group, or both opens a group and pushes
another one out.  Every row is accounted for once.

Main results:

- Theorem {lit}`stepRow_cases`: everything that one row can do.
- Theorem {lit}`Stepped.account`: one row is one event, one row of a finished
  group, or one row of an open group.
- Theorem {lit}`combining_conserves`: paging, conservation and bounds, over every
  list of rows and every way of cutting it into pages.
-/

namespace LiveSurface
namespace Activity

open Collector Metadata

/-! ## What one row does -/

/-- The key of a row, if it is a row of an exchange. -/
def keyOf (r : FramedRow) : Option Key :=
  (sourceOf r).bind fun (source, ring) =>
    if r.frame.exchange = 0 then none
    else some {
      sourceId := source, ring, run := r.record.run, ownerInstance := r.frame.ownerInstance
      exchange := r.frame.exchange }

/-- The key of a row of any kind. -/
def Row.key (row : Row) : Option Key := row.framed.bind keyOf

/-- Who numbered a row. -/
def producerOf (r : FramedRow) : Option Producer :=
  (sourceOf r).map fun (source, ring) => {
    sourceId := source, ring, instanceId := r.record.instanceId, run := r.record.run }

/-- What the open groups become when all of them are finished. -/
def flushed (rt : Runtime) (pending : Dict Key Group) (reason : Issue) : List Output :=
  pending.entries.map fun entry => .combined (finish rt entry.1 entry.2 (some reason))

/-- A row that says nothing of activities. -/
def Neutral (row : Row) : Prop :=
  row.framed = none ∧ (row.event.eventType = .ringHealth ∨ row.event.eventType = .discard)

/-- A row that follows the rows of its producer without a gap or a loss. -/
structure Continues (c : Combiner) (row : Row) (r : FramedRow) (producer : Producer) : Prop where
  framed : row.framed = some r
  valid : ValidGroup r.record r.frame
  numbered : producerOf r = some producer
  next : ∀ p, c.sequences.get? producer = some p → r.record.sequence = p + 1
  lossless : r.record.outputFailures = 0

/-- What a row does before the groups are looked at: nothing is lost and the groups
stay, or every group is finished. -/
inductive Prepared (rt : Runtime) (c : Combiner) (row : Row) (journal : String) (number : Int) :
    List Output → Combiner → Prop
  | neutral (hcursor : ∀ p, c.cursor = some p → p.1 = journal ∧ number = p.2 + 1)
      (hneutral : Neutral row) :
      Prepared rt c row journal number [] { c with cursor := some (journal, number) }
  | follows {r : FramedRow} {producer : Producer}
      (hcursor : ∀ p, c.cursor = some p → p.1 = journal ∧ number = p.2 + 1)
      (hrow : Continues c row r producer) :
      Prepared rt c row journal number [] { c with
        cursor := some (journal, number)
        sequences := c.sequences.set producer r.record.sequence }
  | flushed (reason : Issue) {r : FramedRow} {producer : Producer}
      {sequences : Dict Producer Nat} (hframed : row.framed = some r)
      (hvalid : ValidGroup r.record r.frame) (hnumbered : producerOf r = some producer)
      (hsequence : sequences.get? producer = some r.record.sequence) :
      Prepared rt c row journal number (Activity.flushed rt c.pending reason)
        { c with pending := .empty, sequences := sequences, cursor := some (journal, number) }

/-- A group that has taken a row stays open, or is finished. -/
inductive Extended (rt : Runtime) (c : Combiner) (key : Key) (g : Group) (r : FramedRow) :
    List Output → Combiner → Prop
  | ended (hphase : r.frame.phase = 3) :
      Extended rt c key g r [.combined (finish rt key g none)]
        { c with pending := (c.pending.set key g).erase key }
  | cut (reason : Issue) :
      Extended rt c key g r [.combined (finish rt key g (some reason))]
        { c with pending := (c.pending.set key g).erase key }
  | opened (hroom : g.rows.length < c.maxRecords) :
      Extended rt c key g r [] { c with pending := c.pending.set key g }

/-- What a row does to the groups. -/
inductive Acted (rt : Runtime) (c : Combiner) (row : Row) : List Output → Combiner → Prop
  | single (event : Event) (hkey : ∀ key, row.key = some key → c.pending.get? key = none) :
      Acted rt c row [.event event] c
  | restarted {key : Key} {g : Group} (hkey : row.key = some key)
      (hpending : c.pending.get? key = some g) :
      Acted rt c row [.combined (finish rt key g (some .duplicateStart)), .event row.event]
        { c with pending := c.pending.erase key }
  | started {r : FramedRow} {key : Key} {out : List Output} {c' : Combiner}
      (hframed : row.framed = some r) (hkey : keyOf r = some key) (hphase : r.frame.phase = 1)
      (hpending : c.pending.get? key = none) (hroom : c.pending.size < c.capacity)
      (hextended : Extended rt c key (.start r) r out c') : Acted rt c row out c'
  | replaced {r : FramedRow} {key oldest : Key} {g : Group} {out : List Output} {c' : Combiner}
      (hframed : row.framed = some r) (hkey : keyOf r = some key) (hphase : r.frame.phase = 1)
      (hpending : c.pending.get? key = none) (holdest : c.pending.get? oldest = some g)
      (hextended : Extended rt { c with pending := c.pending.erase oldest } key (.start r) r out c') :
      Acted rt c row (.combined (finish rt oldest g (some .capacity)) :: out) c'
  | added {r : FramedRow} {key : Key} {g : Group} {out : List Output} {c' : Combiner}
      (hframed : row.framed = some r) (hkey : keyOf r = some key)
      (hpending : c.pending.get? key = some g)
      (hextended : Extended rt c key (g.add r) r out c') : Acted rt c row out c'

/-- What one row does. -/
inductive Stepped (rt : Runtime) (c : Combiner) (row : Row) : List Output → Combiner → Prop
  | broken {journal : String} {number : Int} (reason : Issue) (event : Event)
      {sequences : Dict Producer Nat} (hsplit : splitCursor rt row.cursor = some (journal, number)) :
      Stepped rt c row (flushed rt c.pending reason ++ [.event event])
        { c with pending := .empty, sequences := sequences, cursor := some (journal, number) }
  | acted {journal : String} {number : Int} {first second : List Output} {c₁ c₂ : Combiner}
      (hsplit : splitCursor rt row.cursor = some (journal, number))
      (hprepared : Prepared rt c row journal number first c₁) (hacted : Acted rt c₁ row second c₂) :
      Stepped rt c row (first ++ second) c₂

section Cases

variable {rt : Runtime} {c : Combiner} {row : Row}

/-- A group that has taken a row. -/
theorem extend_cases (rt : Runtime) (c : Combiner) (key : Key) (g : Group) (r : FramedRow) :
    Extended rt c key g r (c.extend rt key g r).1 (c.extend rt key g r).2 := by
  unfold Combiner.extend
  simp only
  split
  · exact .ended ‹_›
  · split
    · exact .cut .invalidated
    · split
      · exact .cut .recordCapacity
      · exact .opened (by simp_all)

/-- A row of an exchange. -/
theorem exchange_cases {key : Key} {r : FramedRow} {out : List Output} {c' : Combiner}
    (hframed : row.framed = some r) (hkey : keyOf r = some key) (hrow : r.row = row)
    (h : c.exchange rt key r = .ok (out, c')) : Acted rt c row out c' := by
  have hrowKey : row.key = some key := by
    rw [Row.key, hframed, Option.bind_some, hkey]
  unfold Combiner.exchange at h
  split at h
  · rename_i hphase
    split at h
    · rename_i g hpending
      cases h
      rw [hrow]
      exact .restarted hrowKey hpending
    · rename_i hpending
      split at h
      · split at h
        · contradiction
        · rename_i oldest g rest hentries
          cases h
          refine .replaced hframed hkey hphase hpending (Dict.get?_eq_some_iff.mpr ?_)
            (extend_cases _ _ _ _ _)
          rw [hentries]
          exact List.mem_cons_self
      · rename_i hroom
        have hextended := extend_cases rt c key (.start r) r
        rw [Except.ok.inj h] at hextended
        exact .started hframed hkey hphase hpending (Nat.lt_of_not_le hroom) hextended
  · split at h
    · rename_i hpending
      cases h
      refine .single _ ?_
      intro other hother
      rw [hrowKey] at hother
      cases hother
      exact hpending
    · rename_i g hpending
      have hextended := extend_cases rt c key (g.add r) r
      rw [Except.ok.inj h] at hextended
      exact .added hframed hkey hpending hextended

/-- The row of a producer is accepted in its place, or after a loss, or not at all. -/
inductive Admitted (rt : Runtime) (c : Combiner) (row : Row) (r : FramedRow)
    (producer : Producer) : List Output → Combiner → Prop
  | follows {out : List Output} {c' : Combiner} (hrow : Continues c row r producer)
      (hacted : Acted rt
        { c with sequences := c.sequences.set producer r.record.sequence } row out c') :
      Admitted rt c row r producer out c'
  | flushed (reason : Issue) {sequences : Dict Producer Nat} {out : List Output} {c' : Combiner}
      (hsequence : sequences.get? producer = some r.record.sequence)
      (hacted : Acted rt { c with pending := .empty, sequences := sequences } row out c') :
      Admitted rt c row r producer (Activity.flushed rt c.pending reason ++ out) c'
  | refused (reason : Issue) (event : Event) {sequences : Dict Producer Nat} :
      Admitted rt c row r producer (Activity.flushed rt c.pending reason ++ [.event event])
        { c with pending := .empty, sequences := sequences }

/-- What follows once the sequence of a row is recorded. -/
theorem keyed_cases {r : FramedRow} {source : String} {ring : Int} {first : List Output}
    {out : List Output} {c' : Combiner} (hframed : row.framed = some r) (hrow : r.row = row)
    (hsource : sourceOf r = some (source, ring))
    (h : (if r.frame.exchange = 0 then .ok (first ++ [.event r.row.event], c)
      else do
        let (out, c) ← c.exchange rt {
          sourceId := source, ring, run := r.record.run, ownerInstance := r.frame.ownerInstance
          exchange := r.frame.exchange } r
        .ok (first ++ out, c) : Except String (List Output × Combiner)) = .ok (out, c')) :
    ∃ second, out = first ++ second ∧ Acted rt c row second c' := by
  split at h
  · rename_i hzero
    cases h
    refine ⟨_, rfl, .single _ ?_⟩
    intro key hkey
    simp [Row.key, hframed, keyOf, hsource, hzero] at hkey
  · rename_i hexchange
    cases hresult : c.exchange rt {
        sourceId := source, ring, run := r.record.run, ownerInstance := r.frame.ownerInstance
        exchange := r.frame.exchange } r with
    | error e =>
        rw [hresult] at h
        contradiction
    | ok result =>
        rw [hresult] at h
        cases h
        refine ⟨result.1, rfl, exchange_cases hframed ?_ hrow hresult⟩
        simp [keyOf, hsource, hexchange]

/-- What a valid row does, from its place among the rows of its producer on. -/
theorem admit_cases {r : FramedRow} {source : String} {ring : Int} {out : List Output}
    {c' : Combiner} (hframed : row.framed = some r) (hrow : r.row = row)
    (hvalid : ValidGroup r.record r.frame) (hsource : sourceOf r = some (source, ring))
    (h : c.admit rt source ring r = .ok (out, c')) :
    ∃ producer, producerOf r = some producer ∧ Admitted rt c row r producer out c' := by
  have hnumbered : producerOf r = some {
      sourceId := source, ring, instanceId := r.record.instanceId, run := r.record.run } := by
    rw [producerOf, hsource]
    rfl
  refine ⟨_, hnumbered, ?_⟩
  unfold Combiner.admit at h
  simp only at h
  generalize Producer.mk source ring r.record.instanceId r.record.run = producer at h hnumbered ⊢
  split at h
  · cases h
    exact .refused _ _
  · rename_i hnew
    have hafter : ∀ p, c.sequences.get? producer = some p → p < r.record.sequence := by
      intro p hp
      rw [hp, Option.filter_eq_none_iff] at hnew
      have := hnew p rfl
      simpa using this
    by_cases hgap : (c.sequences.get? producer).any (fun p =>
        decide (r.record.sequence ≠ p + 1)) = true ∨ r.record.outputFailures ≠ 0
    · -- a gap or a loss: the second flush, if there is one, finds nothing to finish
      have hsecond : (if (c.flush rt .producerGap).2.sequences.size ≥
            (c.flush rt .producerGap).2.capacity ∧
            (c.flush rt .producerGap).2.sequences.get? producer = none then
          (c.flush rt .producerGap).2.flush rt .producerCapacity
        else ([], (c.flush rt .producerGap).2)) = ([], (c.flush rt .producerGap).2) :=
        ite_eq_right_iff.mpr fun _ => rfl
      simp only [if_pos hgap, hsecond] at h
      obtain ⟨second, rfl, hacted⟩ := keyed_cases hframed hrow hsource h
      rw [List.append_nil]
      exact .flushed .producerGap (Dict.get?_set_self ..) hacted
    · simp only [if_neg hgap] at h
      by_cases hfull : c.sequences.size ≥ c.capacity ∧ c.sequences.get? producer = none
      · simp only [if_pos hfull] at h
        obtain ⟨second, rfl, hacted⟩ := keyed_cases hframed hrow hsource h
        exact .flushed .producerCapacity (Dict.get?_set_self ..) hacted
      · simp only [if_neg hfull] at h
        obtain ⟨second, rfl, hacted⟩ := keyed_cases hframed hrow hsource h
        refine .follows ⟨hframed, hvalid, hnumbered, ?_, ?_⟩ hacted
        · intro p hp
          simp only [hp, Option.any_some, decide_eq_true_eq, not_or, not_not] at hgap
          exact hgap.1
        · simp only [not_or, not_not] at hgap
          exact hgap.2

/-- The row that a framed row was taken from. -/
theorem row_of_framed {r : FramedRow} (h : row.framed = some r) : r.row = row := by
  unfold Row.framed at h
  split at h
  · split at h
    · cases h
      rfl
    · contradiction
  · contradiction

/-- What a row does once its cursor is accepted. -/
inductive Observed (rt : Runtime) (c : Combiner) (row : Row) : List Output → Combiner → Prop
  | neutral (hneutral : Neutral row) : Observed rt c row [.event row.event] c
  | broken (reason : Issue) (event : Event) {sequences : Dict Producer Nat} :
      Observed rt c row (Activity.flushed rt c.pending reason ++ [.event event])
        { c with pending := .empty, sequences := sequences }
  | follows {r : FramedRow} {producer : Producer} {out : List Output} {c' : Combiner}
      (hrow : Continues c row r producer)
      (hacted : Acted rt
        { c with sequences := c.sequences.set producer r.record.sequence } row out c') :
      Observed rt c row out c'
  | flushed (reason : Issue) {r : FramedRow} {producer : Producer}
      {sequences : Dict Producer Nat} {out : List Output} {c' : Combiner}
      (hframed : row.framed = some r) (hvalid : ValidGroup r.record r.frame)
      (hnumbered : producerOf r = some producer)
      (hsequence : sequences.get? producer = some r.record.sequence)
      (hacted : Acted rt { c with pending := .empty, sequences := sequences } row out c') :
      Observed rt c row (Activity.flushed rt c.pending reason ++ out) c'

/-- Everything a row can do once its cursor is accepted. -/
theorem observe_cases {out : List Output} {c' : Combiner}
    (h : c.observe rt row = .ok (out, c')) : Observed rt c row out c' := by
  unfold Combiner.observe at h
  split at h
  · rename_i hframed
    split at h
    · rename_i hneutral
      cases h
      exact .neutral ⟨hframed, hneutral⟩
    · cases h
      exact .broken _ _
  · rename_i r hframed
    split at h
    · cases h
      exact .broken _ _
    · rename_i source ring hvalid
      unfold validFrame at hvalid
      split at hvalid
      · rename_i hgroup
        obtain ⟨producer, hnumbered, hadmitted⟩ :=
          admit_cases hframed (row_of_framed hframed) hgroup hvalid h
        cases hadmitted with
        | follows hrow hacted => exact .follows hrow hacted
        | flushed reason hsequence hacted =>
            exact .flushed reason hframed hgroup hnumbered hsequence hacted
        | refused reason event => exact .broken reason event
      · contradiction

/-- Everything the cursor of a row can do. -/
theorem follow_cases {out : List Output} {c' : Combiner} (h : c.follow rt row = .ok (out, c')) :
    ∃ journal number, splitCursor rt row.cursor = some (journal, number) ∧
      ((out = [] ∧ c' = { c with cursor := some (journal, number) } ∧
          ∀ p, c.cursor = some p → p.1 = journal ∧ number = p.2 + 1) ∨
        ∃ reason, out = flushed rt c.pending reason ∧
          c' = { c with
            pending := .empty, sequences := .empty, cursor := some (journal, number) }) := by
  unfold Combiner.follow at h
  split at h
  · contradiction
  · rename_i journal number hsplit
    refine ⟨journal, number, hsplit, ?_⟩
    split at h
    · rename_i hcursor
      cases h
      refine .inl ⟨rfl, rfl, ?_⟩
      intro p hp
      rw [hcursor] at hp
      contradiction
    · rename_i previous offset hcursor
      split at h
      · contradiction
      · rename_i hforward
        split at h
        · cases h
          exact .inr ⟨_, rfl, rfl⟩
        · rename_i hnext
          cases h
          refine .inl ⟨rfl, rfl, ?_⟩
          intro p hp
          rw [hcursor] at hp
          cases hp
          exact ⟨(not_ne_iff.mp (not_or.mp hforward).1).symm, not_ne_iff.mp hnext⟩

/-- Everything that one row can do. -/
theorem stepRow_cases {out : List Output} {c' : Combiner}
    (h : stepRow rt c row = .ok (out, c')) : Stepped rt c row out c' := by
  unfold stepRow at h
  cases hfollow : c.follow rt row with
  | error e =>
      rw [hfollow] at h
      contradiction
  | ok followed =>
      obtain ⟨first, c₁⟩ := followed
      rw [hfollow] at h
      cases hobserve : c₁.observe rt row with
      | error e =>
          simp only [bind, Except.bind] at h
          rw [hobserve] at h
          contradiction
      | ok observed =>
          obtain ⟨second, c₂⟩ := observed
          simp only [bind, Except.bind] at h
          rw [hobserve] at h
          cases h
          obtain ⟨journal, number, hsplit, ⟨rfl, rfl, hcursor⟩ | ⟨reason, rfl, rfl⟩⟩ :=
            follow_cases hfollow
          · cases observe_cases hobserve with
            | neutral hneutral =>
                refine .acted hsplit (.neutral hcursor hneutral) (.single _ ?_)
                intro key hkey
                simp [Row.key, hneutral.1] at hkey
            | broken reason event => exact .broken reason event hsplit
            | follows hrow hacted =>
                exact .acted hsplit (.follows hcursor
                  ⟨hrow.framed, hrow.valid, hrow.numbered, hrow.next, hrow.lossless⟩) hacted
            | flushed reason hframed hvalid hnumbered hsequence hacted =>
                show Stepped rt c row (flushed rt c.pending reason ++ _) c₂
                exact .acted hsplit (.flushed reason hframed hvalid hnumbered hsequence) hacted
          · -- the groups are finished already: a second flush adds nothing
            cases observe_cases hobserve with
            | neutral hneutral => exact .broken reason _ hsplit
            | broken again event => exact .broken reason event hsplit
            | follows hrow hacted =>
                exact .acted hsplit
                  (.flushed reason hrow.framed hrow.valid hrow.numbered (Dict.get?_set_self ..)) hacted
            | flushed again hframed hvalid hnumbered hsequence hacted =>
                exact .acted hsplit (.flushed reason hframed hvalid hnumbered hsequence) hacted

end Cases

/-! ## Every row is accounted for -/

/-- The rows an output stands for: a single event is one, and a combined event says
how many it was built from. -/
def Output.recordCount : Output → Nat
  | .event _ => 1
  | .combined c => c.recordCount

/-- The rows a list of outputs stands for. -/
def consumed (out : List Output) : Nat := (out.map Output.recordCount).sum

/-- The rows of the open groups. -/
def Combiner.pendingRows (c : Combiner) : Nat := c.pending.total fun g => g.rows.length

/-- What a combiner never exceeds. -/
structure Bounded (c : Combiner) : Prop where
  groups : c.pending.size ≤ c.capacity
  records : ∀ key g, c.pending.get? key = some g → g.rows.length < c.maxRecords

/-- What an output never exceeds: a group that is finished has taken one more row
than an open one. -/
def Output.Fits (maxRecords : Nat) : Output → Prop
  | .event _ => True
  | .combined c => 0 < c.recordCount ∧ c.recordCount ≤ max maxRecords 1

@[simp]
theorem consumed_nil : consumed [] = 0 := rfl

@[simp]
theorem consumed_cons (o : Output) (out : List Output) :
    consumed (o :: out) = o.recordCount + consumed out := rfl

@[simp]
theorem consumed_append (out more : List Output) :
    consumed (out ++ more) = consumed out + consumed more := by
  simp [consumed]

/-- Finishing every group emits all their rows. -/
theorem consumed_flushed (rt : Runtime) (pending : Dict Key Group) (reason : Issue) :
    consumed (flushed rt pending reason) = pending.total fun g => g.rows.length := by
  rw [consumed, flushed, List.map_map, Dict.total]
  rfl

/-- A group that is finished has one of its rows at least. -/
theorem finish_fits {rt : Runtime} {key : Key} {g : Group} {reason : Option Issue}
    {maxRecords : Nat} (h : g.rows.length ≤ max maxRecords 1) :
    (Output.combined (finish rt key g reason)).Fits maxRecords :=
  ⟨List.length_pos_iff.mpr g.nonempty, h⟩

theorem flushed_fits {rt : Runtime} {c : Combiner} {reason : Issue} (hbounded : Bounded c) :
    ∀ o ∈ flushed rt c.pending reason, o.Fits c.maxRecords := by
  intro o ho
  obtain ⟨entry, hentry, rfl⟩ := List.mem_map.mp ho
  have := hbounded.records entry.1 entry.2 (Dict.get?_eq_some_iff.mpr hentry)
  exact finish_fits (by omega)

theorem Group.start_length (r : FramedRow) : (Group.start r).rows.length = 1 := rfl

theorem Group.add_length (g : Group) (r : FramedRow) :
    (g.add r).rows.length = g.rows.length + 1 := by
  simp [Group.add, addRow]

section Account

variable {rt : Runtime} {c c' : Combiner} {row : Row} {out : List Output}

/-- No combiner is bounded less by having no group. -/
theorem Bounded.empty {sequences : Dict Producer Nat} {cursor : Option (String × Int)} :
    Bounded { c with pending := .empty, sequences := sequences, cursor := cursor } where
  groups := Nat.zero_le _
  records := by simp

/-- A group that has taken a row: its rows are emitted or pending. -/
theorem Extended.account {key : Key} {g : Group} {r : FramedRow}
    (h : Extended rt c key g r out c') :
    consumed out + c'.pendingRows =
      g.rows.length + (c.pending.erase key).total fun g => g.rows.length := by
  have hset := Dict.total_set c.pending key g fun g => g.rows.length
  have herase := Dict.total_erase (Dict.get?_set_self c.pending key g) fun g => g.rows.length
  cases h with
  | ended hphase =>
      show g.rows.length + 0 + _ = _
      simp only [Combiner.pendingRows]
      omega
  | cut reason =>
      show g.rows.length + 0 + _ = _
      simp only [Combiner.pendingRows]
      omega
  | opened hroom =>
      show 0 + _ = _
      simp only [Combiner.pendingRows]
      omega

/-- A group that has taken a row: the bounds. -/
theorem Extended.bounded {key : Key} {g : Group} {r : FramedRow} (hbounded : Bounded c)
    (hroom : (c.pending.set key g).size ≤ c.capacity) (hsize : g.rows.length ≤ max c.maxRecords 1)
    (h : Extended rt c key g r out c') :
    Bounded c' ∧ (∀ o ∈ out, o.Fits c.maxRecords) ∧ c'.capacity = c.capacity ∧
      c'.maxRecords = c.maxRecords := by
  have herased : Bounded { c with pending := (c.pending.set key g).erase key } := by
    refine ⟨Nat.le_trans (Dict.size_erase_le _ _) hroom, ?_⟩
    intro k other hget
    rw [Dict.get?_erase, Dict.get?_set] at hget
    split at hget
    · contradiction
    · exact hbounded.records k other hget
  cases h with
  | ended hphase => exact ⟨herased, by simpa using finish_fits hsize, rfl, rfl⟩
  | cut reason => exact ⟨herased, by simpa using finish_fits hsize, rfl, rfl⟩
  | opened hopen =>
      refine ⟨⟨hroom, ?_⟩, by simp, rfl, rfl⟩
      intro k other hget
      rw [Dict.get?_set] at hget
      split at hget
      · cases hget
        exact hopen
      · exact hbounded.records k other hget

/-- What a row does to the groups adds one row. -/
theorem Acted.account (h : Acted rt c row out c') :
    consumed out + c'.pendingRows = 1 + c.pendingRows := by
  cases h with
  | single event hkey => rfl
  | restarted hkey hpending =>
      have herase := Dict.total_erase hpending fun g => g.rows.length
      show _ + (1 + 0) + _ = _
      simp only [Combiner.pendingRows, Output.recordCount, finish]
      omega
  | started hframed hkey hphase hpending hroom hextended =>
      rw [hextended.account, Dict.erase_of_get?_eq_none hpending, Group.start_length]
      rfl
  | @replaced r key oldest g out c' hframed hkey hphase hpending holdest hextended =>
      have herase := Dict.total_erase holdest fun g => g.rows.length
      have habsent : (c.pending.erase oldest).get? key = none := by
        rw [Dict.get?_erase, hpending, ite_self]
      have haccount := hextended.account
      rw [Dict.erase_of_get?_eq_none habsent, Group.start_length] at haccount
      rw [consumed_cons]
      simp only [Combiner.pendingRows, Output.recordCount, finish] at haccount ⊢
      omega
  | added hframed hkey hpending hextended =>
      have herase := Dict.total_erase hpending fun g => g.rows.length
      rw [hextended.account, Group.add_length]
      simp only [Combiner.pendingRows]
      omega

/-- What a row does to the groups keeps the bounds. -/
theorem Acted.bounded (h : Acted rt c row out c') (hbounded : Bounded c) :
    Bounded c' ∧ (∀ o ∈ out, o.Fits c.maxRecords) ∧ c'.capacity = c.capacity ∧
      c'.maxRecords = c.maxRecords := by
  have herased : ∀ key, Bounded { c with pending := c.pending.erase key } := by
    intro key
    refine ⟨Nat.le_trans (Dict.size_erase_le _ _) hbounded.groups, ?_⟩
    intro k other hget
    rw [Dict.get?_erase] at hget
    split at hget
    · contradiction
    · exact hbounded.records k other hget
  have hopen : ∀ key g, c.pending.get? key = some g → g.rows.length + 1 ≤ max c.maxRecords 1 := by
    intro key g hget
    have := hbounded.records key g hget
    omega
  cases h with
  | single event hkey => exact ⟨hbounded, by simp [Output.Fits], rfl, rfl⟩
  | @restarted key g hkey hpending =>
      refine ⟨herased key, ?_, rfl, rfl⟩
      have := hopen key g hpending
      simpa [Output.Fits] using (finish_fits (by omega) : Output.Fits c.maxRecords _)
  | started hframed hkey hphase hpending hroom hextended =>
      refine hextended.bounded hbounded ?_ (Nat.le_max_right _ _)
      rw [Dict.size_set, hpending]
      exact hroom
  | @replaced r key oldest g out c' hframed hkey hphase hpending holdest hextended =>
      have habsent : (c.pending.erase oldest).get? key = none := by
        rw [Dict.get?_erase, hpending, ite_self]
      have hroom : ((c.pending.erase oldest).set key (.start r)).size ≤ c.capacity := by
        rw [Dict.size_set, habsent]
        exact Nat.le_trans (Nat.le_of_eq (Dict.size_erase holdest)) hbounded.groups
      obtain ⟨hafter, hfits, hcapacity, hrecords⟩ :=
        hextended.bounded (herased oldest) hroom (Nat.le_max_right _ _)
      refine ⟨hafter, ?_, hcapacity, hrecords⟩
      have := hopen oldest g holdest
      simp only [List.forall_mem_cons]
      exact ⟨finish_fits (by omega), hfits⟩
  | @added r key g out c' hframed hkey hpending hextended =>
      refine hextended.bounded hbounded ?_ ?_
      · rw [Dict.size_set, hpending]
        exact hbounded.groups
      · rw [Group.add_length]
        exact hopen key g hpending

/-- One row is one event, one row of a finished group, or one row of an open one. -/
theorem Stepped.account (h : Stepped rt c row out c') :
    consumed out + c'.pendingRows = 1 + c.pendingRows := by
  cases h with
  | broken reason event hsplit =>
      rw [consumed_append, consumed_flushed]
      show c.pendingRows + 1 = 1 + c.pendingRows
      exact Nat.add_comm _ _
  | acted hsplit hprepared hacted =>
      have haccount := hacted.account
      cases hprepared with
      | neutral hcursor hneutral => exact haccount
      | follows hcursor hrow => exact haccount
      | flushed reason hframed hvalid hnumbered hsequence =>
          rw [consumed_append, consumed_flushed, Nat.add_assoc, haccount]
          exact Nat.add_comm _ _

/-- One row keeps the bounds. -/
theorem Stepped.bounded (h : Stepped rt c row out c') (hbounded : Bounded c) :
    Bounded c' ∧ (∀ o ∈ out, o.Fits c.maxRecords) ∧ c'.capacity = c.capacity ∧
      c'.maxRecords = c.maxRecords := by
  cases h with
  | broken reason event hsplit =>
      refine ⟨.empty, ?_, rfl, rfl⟩
      rw [List.forall_mem_append]
      exact ⟨flushed_fits hbounded, by simp [Output.Fits]⟩
  | acted hsplit hprepared hacted =>
      rw [List.forall_mem_append]
      cases hprepared with
      | neutral hcursor hneutral =>
          have hafter := hacted.bounded ⟨hbounded.groups, hbounded.records⟩
          exact ⟨hafter.1, ⟨by simp, hafter.2.1⟩, hafter.2.2⟩
      | follows hcursor hrow =>
          have hafter := hacted.bounded ⟨hbounded.groups, hbounded.records⟩
          exact ⟨hafter.1, ⟨by simp, hafter.2.1⟩, hafter.2.2⟩
      | flushed reason hframed hvalid hnumbered hsequence =>
          have hafter := hacted.bounded .empty
          exact ⟨hafter.1, ⟨flushed_fits hbounded, hafter.2.1⟩, hafter.2.2⟩

end Account

/-! ## Runs -/

section Runs

variable {rt : Runtime} {c c' : Combiner} {out : List Output}

/-- The first row of a run, and the rest. -/
theorem feedRows_cons {row : Row} {rest : List Row}
    (h : feedRows rt c (row :: rest) = .ok (out, c')) :
    ∃ first c₁ more, stepRow rt c row = .ok (first, c₁) ∧
      feedRows rt c₁ rest = .ok (more, c') ∧ out = first ++ more := by
  unfold feedRows at h
  cases hstep : stepRow rt c row with
  | error e =>
      rw [hstep] at h
      contradiction
  | ok stepped =>
      cases hrest : feedRows rt stepped.2 rest with
      | error e =>
          simp [hstep, hrest, bind, Except.bind] at h
      | ok fed =>
          simp only [hstep, hrest, bind, Except.bind, Except.ok.injEq, Prod.mk.injEq] at h
          obtain ⟨rfl, rfl⟩ := h
          exact ⟨stepped.1, stepped.2, fed.1, rfl, hrest, rfl⟩

/-- Feeding rows after others. -/
theorem feedRows_append {rows more : List Row} {c₁ c₂ : Combiner} {first second : List Output}
    (hrows : feedRows rt c rows = .ok (first, c₁)) (hmore : feedRows rt c₁ more = .ok (second, c₂)) :
    feedRows rt c (rows ++ more) = .ok (first ++ second, c₂) := by
  induction rows generalizing c first with
  | nil =>
      cases hrows
      exact hmore
  | cons row rest ih =>
      obtain ⟨head, c₀, tail, hstep, hrest, rfl⟩ := feedRows_cons hrows
      rw [List.cons_append, feedRows, hstep]
      simp only [bind, Except.bind, ih hrest, List.append_assoc]

/-- A run can be cut anywhere. -/
theorem feedRows_split {rows more : List Row} (h : feedRows rt c (rows ++ more) = .ok (out, c')) :
    ∃ first c₁ second, feedRows rt c rows = .ok (first, c₁) ∧
      feedRows rt c₁ more = .ok (second, c') ∧ out = first ++ second := by
  induction rows generalizing c out with
  | nil => exact ⟨[], c, out, rfl, h, rfl⟩
  | cons row rest ih =>
      obtain ⟨head, c₀, tail, hstep, hrest, rfl⟩ := feedRows_cons h
      obtain ⟨first, c₁, second, hfirst, hsecond, rfl⟩ := ih hrest
      refine ⟨head ++ first, c₁, second, ?_, hsecond, (List.append_assoc ..).symm⟩
      rw [feedRows, hstep]
      simp only [bind, Except.bind, hfirst]

/-- Pages are the rows they hold. -/
theorem feedPages_rows {pages : List Page} (h : feedPages rt c pages = .ok (out, c')) :
    ∃ rows, (pages.flatMap Page.events).mapM (projectRow rt) = .ok rows ∧
      feedRows rt c rows = .ok (out, c') := by
  induction pages generalizing c out with
  | nil =>
      cases h
      exact ⟨[], rfl, rfl⟩
  | cons page rest ih =>
      unfold feedPages at h
      cases hpage : feed rt c page with
      | error e =>
          rw [hpage] at h
          contradiction
      | ok fed =>
          cases hrest : feedPages rt fed.2 rest with
          | error e => simp [hpage, hrest, bind, Except.bind] at h
          | ok tail =>
              simp only [hpage, hrest, bind, Except.bind, Except.ok.injEq, Prod.mk.injEq] at h
              obtain ⟨rfl, rfl⟩ := h
              obtain ⟨more, hmore, hfed⟩ := ih hrest
              unfold feed at hpage
              split at hpage
              · contradiction
              · cases hproject : projectPage rt page with
                | error e =>
                    rw [hproject] at hpage
                    contradiction
                | ok rows =>
                    rw [hproject] at hpage
                    refine ⟨rows ++ more, ?_, feedRows_append hpage hfed⟩
                    rw [List.flatMap_cons, List.mapM_append, (projectPage_events hproject).2, hmore]
                    rfl

/-- A run keeps the bounds and accounts for every row. -/
theorem feedRows_account {rows : List Row} (hbounded : Bounded c)
    (h : feedRows rt c rows = .ok (out, c')) :
    consumed out + c'.pendingRows = rows.length + c.pendingRows ∧ Bounded c' ∧
      (∀ o ∈ out, o.Fits c.maxRecords) ∧ c'.capacity = c.capacity ∧
      c'.maxRecords = c.maxRecords := by
  induction rows generalizing c out with
  | nil =>
      cases h
      exact ⟨by simp, hbounded, by simp, rfl, rfl⟩
  | cons row rest ih =>
      obtain ⟨first, c₁, more, hstep, hrest, rfl⟩ := feedRows_cons h
      have hstepped := stepRow_cases hstep
      have haccount := hstepped.account
      obtain ⟨hbounded₁, hfits, hcapacity, hrecords⟩ := hstepped.bounded hbounded
      obtain ⟨hmore, hbounded', hfits', hcapacity', hrecords'⟩ := ih hbounded₁ hrest
      refine ⟨?_, hbounded', ?_, hcapacity'.trans hcapacity, hrecords'.trans hrecords⟩
      · rw [consumed_append, List.length_cons]
        omega
      · rw [List.forall_mem_append]
        rw [hrecords] at hfits'
        exact ⟨hfits, hfits'⟩

end Runs

theorem Bounded.new (capacity maxRecords : Nat) : Bounded (.new capacity maxRecords) where
  groups := Nat.zero_le _
  records := by simp [Combiner.new]

/-! ## Paging, conservation and bounds -/

/-- Pages that a combiner takes without an exception, in order:

- other pages with the same rows that it takes without one give the same outputs
  and the same combiner, and one page with all the rows does, if it may hold them;
- after any number of rows, these are the single events, the rows that combined
  events were built from, and the rows of the open groups;
- the number of open groups and of the rows in each is bounded, and so is the
  number of rows a combined event was built from. -/
theorem combining_conserves (rt : Runtime) (capacity maxRecords : Nat) (pages : List Page)
    (out : List Output) (c : Combiner)
    (h : feedPages rt (.new capacity maxRecords) pages = .ok (out, c)) :
    (∀ others result, others.flatMap Page.events = pages.flatMap Page.events →
      feedPages rt (.new capacity maxRecords) others = .ok result → result = (out, c)) ∧
    (∀ page, page.events = pages.flatMap Page.events → page.events.length ≤ 128 →
      page.error = false → feed rt (.new capacity maxRecords) page = .ok (out, c)) ∧
    ∃ rows, (pages.flatMap Page.events).mapM (projectRow rt) = .ok rows ∧
      feedRows rt (.new capacity maxRecords) rows = .ok (out, c) ∧
      ∀ n ≤ rows.length, ∃ first second c₁,
        feedRows rt (.new capacity maxRecords) (rows.take n) = .ok (first, c₁) ∧
        out = first ++ second ∧
        consumed first + c₁.pendingRows = n ∧
        c₁.pending.size ≤ capacity ∧
        (∀ key g, c₁.pending.get? key = some g → g.rows.length ≤ maxRecords) ∧
        ∀ x, .combined x ∈ first → x.recordCount ≤ max maxRecords 1 := by
  obtain ⟨rows, hrows, hfed⟩ := feedPages_rows h
  refine ⟨?_, ?_, rows, hrows, hfed, ?_⟩
  · intro others result hsame hothers
    obtain ⟨rows', hrows', hfed'⟩ := feedPages_rows hothers
    rw [hsame, hrows] at hrows'
    cases hrows'
    exact Except.ok.inj (hfed'.symm.trans hfed)
  · intro page hevents hlength herror
    rw [← hevents] at hrows
    have hproject : projectPage rt page = .ok rows := by
      rw [projectPage, if_neg (Nat.not_lt.mpr hlength)]
      exact hrows
    rw [feed, herror, hproject]
    exact hfed
  · intro n hn
    rw [← List.take_append_drop n rows] at hfed
    obtain ⟨first, c₁, second, hfirst, hsecond, hout⟩ := feedRows_split hfed
    obtain ⟨haccount, hbounded, hfits, hcapacity, hrecords⟩ :=
      feedRows_account (.new capacity maxRecords) hfirst
    refine ⟨first, second, c₁, hfirst, hout, ?_, ?_, ?_, ?_⟩
    · rw [haccount, List.length_take, Nat.min_eq_left hn]
      rfl
    · rw [← show c₁.capacity = capacity from hcapacity]
      exact hbounded.groups
    · intro key g hget
      rw [← show c₁.maxRecords = maxRecords from hrecords]
      exact Nat.le_of_lt (hbounded.records key g hget)
    · intro x hx
      exact (hfits _ hx).2

/-- The value of a hexadecimal digit. -/
def hexValue (x : Char) : Option Nat :=
  if x.isDigit then some (x.toNat - 48)
  else if 'a' ≤ x ∧ x ≤ 'f' then some (x.toNat - 87)
  else none

/-- The bytes that pairs of hexadecimal digits stand for. -/
def hexBytes : List Char → Option (List UInt8)
  | [] => some []
  | [_] => none
  | high :: low :: rest =>
      (hexValue high).bind fun x => (hexValue low).bind fun y =>
        (hexBytes rest).map fun bs => UInt8.ofNat (16 * x + y) :: bs

/-- Python, as far as the sample rows need it. -/
def sampleRuntime : Runtime where
  fromhex text :=
    match hexBytes text.toList with
    | some bs => .ok bs
    | none => .error "non-hexadecimal number found in fromhex() arg"
  jsonString bs :=
    if bs.all fun b => 32 ≤ b ∧ b < 127 ∧ b ≠ 34 ∧ b ≠ 92 then
      some (String.ofList (bs.map fun b => Char.ofNat b.toNat))
    else none
  int text :=
    if text ≠ "" ∧ text.toList.all Char.isDigit then some (Nat.ofDigitChars 10 text.toList 0)
    else none
  strftime seconds := if seconds = 1 then "1970-01-01T00:00:01" else ""
  digest _ _ _ _ _ := "5b1e"

/-- The row of a frame and its record. -/
def sampleRow (cursor : String) (h : GroupHeader) (record : List UInt8) : ReplayRow where
  cursor := cursor
  event := {
    type := some (.str "record")
    sourceId := some (.str "s1")
    eventId := none
    source := none
    raw := some (.object [("ring", .int 0), ("schema", .int 100), ("ts_ns", .str "1000000000"),
      ("data", .str (hex (h.bytes ++ record)))]) }

/-- The frame of a record of exchange 1. -/
def sampleHeader (length side phase invocation : Nat) : GroupHeader where
  magic := GROUP_MAGIC
  abi := 2
  length := length
  side := side
  ownerInstance := 7
  exchange := 1
  status := 1
  phase := phase
  invocation := invocation

/-- A complete string record of two letters. -/
def sampleString (magic sequence getterResult : Nat) : JmEvent where
  magic := magic
  abi := 1
  instanceId := 7
  revision := 1
  run := 1
  monotonicNs := 1000 + sequence
  sequence := sequence
  outputFailures := 0
  status := 1
  getterResult := getterResult
  originalLength := 2
  copiedLength := 2
  flags := 0
  reads := 1
  sourceBytes := 0
  value := [0x61, 0x62] ++ List.replicate 62 0

/-- Pairs of hexadecimal digits are read back. -/
theorem hexBytes_hex (bs : List UInt8) : hexBytes (hex bs).toList = some bs := by
  have hdigit : ∀ n < 16, hexValue (hexDigit n) = some n := by decide +kernel
  rw [hex, String.toList_ofList]
  induction bs with
  | nil => rfl
  | cons b rest ih =>
      have hb := b.toNat_lt
      rw [List.flatMap_cons]
      simp only [List.cons_append, List.nil_append, hexBytes, ih, hdigit (b.toNat / 16) (by omega),
        hdigit (b.toNat % 16) (by omega), Option.bind_some, Option.map_some]
      rw [Nat.div_add_mod, UInt8.ofNat_toNat]

/-- The row of a frame and its record. -/
def sampleProjected (cursor : String) (h : GroupHeader) (data : List UInt8) (record : Record)
    (activity : ActivityFields) (outcome : Outcome) : Row where
  cursor := cursor
  event := {
    eventType := .activity
    correlationReason := none
    activity := activity
    reportedOutcome := outcome
    evidence := {
      sourceId := some (.str "s1")
      eventId := none
      source := none
      diagnostic := none
      raw := (sampleRow cursor h data).event.raw
      group := some h.frame
      status := .decoded
      error := none
      record := some record
      outputLossReported := some (record.outputFailures ≠ 0) } }

/-- A sample row is projected to its record. -/
theorem projectRow_sampleRow {cursor : String} {h : GroupHeader} {data : List UInt8}
    {record : Record} {activity : ActivityFields} {outcome : Outcome}
    {decode : List UInt8 → Except String Record} (hfits : h.Fits) (hconsistent : h.Consistent data)
    (hlength : data.length ≤ 144) (hdecoder : decoders (magicOf data) = some decode)
    (hdecode : decode data = .ok record)
    (hqualified : record.flags = 0 ∧ record.instanceId ≠ 0 ∧ record.revision ≠ 0 ∧
      record.run ≠ 0 ∧ record.sequence ≠ 0)
    (hfields : fields sampleRuntime record = .ok (activity, outcome)) :
    projectRow sampleRuntime (sampleRow cursor h data) =
      .ok (sampleProjected cursor h data record activity outcome) := by
  have hhex : (hex (h.bytes ++ data)).length = 2 * (48 + data.length) := by
    rw [hex, String.length_ofList, ← h.length_bytes, ← List.length_append]
    induction h.bytes ++ data with
    | nil => rfl
    | cons b rest ih =>
        rw [List.flatMap_cons, List.length_append, ih, List.length_cons]
        simp only [List.length_cons, List.length_nil]
        omega
  have hpayload : payloadOf sampleRuntime (.object [("ring", .int 0), ("schema", .int 100),
      ("ts_ns", .str "1000000000"), ("data", .str (hex (h.bytes ++ data)))]) =
      .ok (h.bytes ++ data) := by
    have hget : Object.get? [("ring", Scalar.int 0), ("schema", .int 100),
        ("ts_ns", .str "1000000000"), ("data", .str (hex (h.bytes ++ data)))] "data" =
        some (.str (hex (h.bytes ++ data))) := by
      rfl
    simp only [payloadOf, hget]
    rw [if_neg (by omega)]
    simp only [sampleRuntime, hexBytes_hex]
  have hmagic : magicOf (h.bytes ++ data) = GROUP_MAGIC := by
    have hheader := congrArg GroupHeader.magic (GroupHeader.unpack_bytes hfits data)
    rw [hconsistent.magic] at hheader
    exact hheader
  have hungroup : ungroup (h.bytes ++ data) = .ok (some h.frame, data) := by
    rw [ungroup, if_pos hmagic, unwrap_bytes hfits hconsistent]
    rfl
  obtain ⟨hflags, hinstance, hrevision, hrun, hsequence⟩ := hqualified
  have hrecord : ∀ evidence, projectRecord sampleRuntime evidence record = .ok {
      eventType := .activity
      correlationReason := none
      activity
      reportedOutcome := outcome
      evidence := { evidence with
        status := .decoded
        record := some record
        outputLossReported := some (record.outputFailures ≠ 0) } } := by
    intro evidence
    unfold projectRecord
    simp only
    rw [if_neg (by omega), hfields]
    rfl
  have hevent : projectEvent sampleRuntime (sampleRow cursor h data).event =
      .ok (sampleProjected cursor h data record activity outcome).event := by
    unfold projectEvent
    simp only [sampleRow, ne_eq, not_true_eq_false, if_false, Option.getD_some, hpayload, hungroup,
      hdecoder, hdecode, hrecord]
    rfl
  rw [projectRow, hevent]
  rfl

/-- A record of the sample exchange, with what it is decoded to. -/
structure Sample where
  cursor : String
  header : GroupHeader
  data : List UInt8
  record : Record

/-- The row of a sample record. -/
def Sample.stored (s : Sample) : ReplayRow := sampleRow s.cursor s.header s.data

/-- What the row is projected to. -/
def Sample.row (s : Sample) : Row :=
  let named := (fields sampleRuntime s.record).toOption.getD (.empty, .empty)
  sampleProjected s.cursor s.header s.data s.record named.1 named.2

/-- What a string record of the sample is decoded to. -/
def sampleDecoded (e : JmEvent) (kindName : Option String) (representation : String) : Decoded where
  event := { e with value := [] }
  valueHex := "6162"
  statusName := "complete"
  kindName := kindName
  representation := representation

/-- The method of a call. -/
def sampleMethod (cursor : String) (side phase call : Nat) : Sample :=
  let e := sampleString 0x544D4554 (4 * call - 3) 0
  { cursor, header := sampleHeader 144 side phase call, data := e.bytes
    record := .method
      (sampleDecoded e none "escaped JSON string bytes; literal key; first match") }

/-- The target of a call. -/
def sampleTarget (cursor : String) (side call : Nat) : Sample :=
  let e := sampleString 0x4F544754 (4 * call - 2) 1
  { cursor, header := sampleHeader 144 side 2 call, data := e.bytes
    record := .operationTarget (sampleDecoded e (some "tool_name") "raw_json_string_bytes") }

theorem sampleHeader_consistent {length side phase invocation : Nat} {data : List UInt8}
    (hdata : length = data.length) (hlength : length ∈ [96, 104, 144]) (hside : side ∈ [1, 2])
    (hphase : phase ∈ [1, 2, 3]) (hinvocation : invocation ∈ [1, 2, 3]) :
    (sampleHeader length side phase invocation).Fits ∧
      (sampleHeader length side phase invocation).Consistent data := by
  simp only [List.mem_cons, List.not_mem_nil, or_false] at hlength hside hphase hinvocation
  refine ⟨?_, ?_⟩
  · intro word hword
    simp only [GroupHeader.words, sampleHeader, GROUP_MAGIC, List.mem_cons, List.not_mem_nil,
      or_false] at hword
    rcases hword with rfl | rfl | rfl | rfl | rfl | rfl | rfl | rfl | rfl <;> simp only <;> omega
  · constructor <;> simp only [sampleHeader, List.mem_cons, List.not_mem_nil, or_false] <;> omega

/-- A sample row is projected to the row of its record. -/
theorem Sample.projected {s : Sample} {length side phase invocation : Nat}
    (hheader : s.header = sampleHeader length side phase invocation)
    (hdata : length = s.data.length) (hlength : length ∈ [96, 104, 144]) (hside : side ∈ [1, 2])
    (hphase : phase ∈ [1, 2, 3]) (hinvocation : invocation ∈ [1, 2, 3])
    (hdecoded : (decoders (magicOf s.data)).bind (fun decode => (decode s.data).toOption) =
      some s.record)
    (hqualified : s.record.flags = 0 ∧ s.record.instanceId ≠ 0 ∧ s.record.revision ≠ 0 ∧
      s.record.run ≠ 0 ∧ s.record.sequence ≠ 0)
    (hnamed : (fields sampleRuntime s.record).toOption.isSome) :
    projectRow sampleRuntime s.stored = .ok s.row := by
  obtain ⟨hfits, hconsistent⟩ :=
    sampleHeader_consistent hdata hlength hside hphase hinvocation
  rw [← hheader] at hfits hconsistent
  obtain ⟨decode, hdecoder, hdecoded⟩ := Option.bind_eq_some_iff.mp hdecoded
  have hdecode : decode s.data = .ok s.record := by
    cases hresult : decode s.data with
    | error e =>
        rw [hresult] at hdecoded
        contradiction
    | ok record =>
        rw [hresult] at hdecoded
        exact congrArg Except.ok (Option.some.inj hdecoded)
  refine projectRow_sampleRow hfits hconsistent ?_ hdecoder hdecode hqualified ?_
  · simp only [List.mem_cons, List.not_mem_nil, or_false] at hlength
    omega
  · cases hresult : fields sampleRuntime s.record with
    | error e =>
        rw [hresult] at hnamed
        contradiction
    | ok named => rfl

/-- The row that starts exchange 1. -/
def sampleStart : ReplayRow :=
  sampleRow "a1:1" (sampleHeader 144 1 1 1) (sampleString 0x544D4554 1 0).bytes

/-- The row of the next record of producer 7, after a gap in the cursors. -/
def sampleLate : ReplayRow :=
  sampleRow "a1:3" (sampleHeader 144 1 2 1) (sampleString 0x4F544754 2 1).bytes

/-- The page of some rows. -/
def samplePage (events : List ReplayRow) : Page where
  error := false
  events := events
  nextCursor := ""

/-- A page of rows that are projected. -/
theorem feed_samplePage {rt : Runtime} {events : List ReplayRow} {rows : List Row}
    (hlength : events.length ≤ 128) (hproject : events.mapM (projectRow rt) = .ok rows)
    (c : Combiner) : feed rt c (samplePage events) = feedRows rt c rows := by
  have hpage : projectPage rt (samplePage events) = .ok rows := by
    have hnot : ¬(samplePage events).events.length > 128 := Nat.not_lt.mpr hlength
    rw [projectPage, if_neg hnot]
    exact hproject
  rw [feed, hpage]
  rfl

/-- The start of an exchange and a row after a gap, on two pages or on one: the open
group is finished and the row is emitted. -/
theorem combining_conserves_sample :
    ∃ out c, feedPages sampleRuntime (.new 2 8) [samplePage [sampleStart], samplePage [sampleLate]] =
        .ok (out, c) ∧
      feed sampleRuntime (.new 2 8) (samplePage [sampleStart, sampleLate]) = .ok (out, c) ∧
      out.length = 2 ∧ consumed out + c.pendingRows = 2 := by
  have hstart : projectRow sampleRuntime sampleStart = .ok (sampleMethod "a1:1" 1 1 1).row :=
    Sample.projected (s := sampleMethod "a1:1" 1 1 1) rfl (by decide +kernel) (by decide)
      (by decide) (by decide) (by decide) (by decide +kernel) (by decide) (by decide +kernel)
  have hlate : projectRow sampleRuntime sampleLate = .ok (sampleTarget "a1:3" 1 1).row :=
    Sample.projected (s := sampleTarget "a1:3" 1 1) rfl (by decide +kernel) (by decide)
      (by decide) (by decide) (by decide) (by decide +kernel) (by decide) (by decide +kernel)
  have hlength : (feedPages sampleRuntime (.new 2 8)
      [samplePage [sampleStart], samplePage [sampleLate]]).toOption.map
        (fun result => result.1.length) = some 2 := by
    have hpage : ∀ {event row} (c : Combiner), projectRow sampleRuntime event = .ok row →
        feed sampleRuntime c (samplePage [event]) = feedRows sampleRuntime c [row] := by
      intro event row c h
      exact feed_samplePage (by simp) (by rw [List.mapM_cons, h]; rfl) c
    simp only [feedPages, hpage _ hstart, hpage _ hlate]
    decide +kernel
  cases hfed : feedPages sampleRuntime (.new 2 8)
      [samplePage [sampleStart], samplePage [sampleLate]] with
  | error e =>
      rw [hfed] at hlength
      exact nomatch hlength
  | ok result =>
      obtain ⟨out, c⟩ := result
      rw [hfed] at hlength
      have h := combining_conserves sampleRuntime 2 8 _ out c hfed
      obtain ⟨rows, hrows, hrun, hcount⟩ := h.2.2
      have htwo : rows.length = 2 := (forall₂_of_mapM hrows).length_eq.symm
      obtain ⟨first, second, c₁, hfirst, -, haccount, -⟩ := hcount 2 htwo.ge
      rw [List.take_of_length_le htwo.le, hrun] at hfirst
      cases hfirst
      exact ⟨out, c, rfl, h.2.1 _ rfl (by decide) rfl, Option.some.inj hlength, haccount⟩

end Activity
end LiveSurface
