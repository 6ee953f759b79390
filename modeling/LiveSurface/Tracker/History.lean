import LiveSurface.Tracker.Scope
import LiveSurface.Library.Timeline

/-!
# The frames of a thread

One thread calls {lit}`activity_scope` for every record that its readers emit.  The
history keeps what each call was given and the frame it left.  An exchange has a key:
the run, the instance and the sequence number of the method record that started it.

Main results:

- Theorem {lit}`kept_track`: the table counts its exchanges, and the history of frames
  explains each of them.
- Theorem {lit}`exchanges_never_mix`: no exchange is evicted; the frames of a key have
  one start, one client and one end.
- Theorem {lit}`server_frame_before_confirmation`: an abort that is seen on the server's
  side carries the key of an exchange that was never confirmed.
-/

namespace LiveSurface
namespace Tracker

open Map Timeline

/-! ## The history -/

/-- The run, the instance and the sequence number of an exchange's start. -/
abbrev ExchangeKey : Type := UInt64 × UInt64 × UInt64

/-- One call, the client flow it was about, and its frame. -/
structure Record where
  call : ScopeCall
  client : Option UInt64
  frame : AgFrame

/-- The key that a frame carries. -/
def Record.key (r : Record) : Option ExchangeKey :=
  if r.frame.exchange = 0 then none
  else some (r.call.event.run, r.frame.owner, r.frame.exchange)

/-- A thread: its table, and the records so far. -/
structure Tracked where
  map : LsMap
  log : List Record

/-- {lit}`activity_exchanges_v2`. -/
def activityExchanges : LsMapDef where
  type := lsMapTypeHash
  keySize := 8
  valueSize := 32
  maxEntries := 128
  mapFlags := 0

/-- A thread before its first call. -/
def Tracked.start : Tracked where
  map := mapOfDescriptor activityExchanges
  log := []

/-- A call of {lit}`activity_scope`. -/
def Tracked.next (t : Tracked) (call : ScopeCall) : Tracked where
  map := (activityScope call t.map).map
  log := t.log ++ [{
    call
    client := (activityScope call t.map).client
    frame := (activityScope call t.map).frame }]

/-- The calls of a thread, in order. -/
def track (calls : List ScopeCall) : Tracked := calls.foldl Tracked.next .start

/-- Two calls whose events one producer numbers. -/
def SameProducer (call later : ScopeCall) : Prop :=
  (call.Http ↔ later.Http) ∧ call.event.instanceId = later.event.instanceId ∧
    call.event.run = later.event.run

instance (call later : ScopeCall) : Decidable (SameProducer call later) :=
  inferInstanceAs (Decidable (_ ∧ _))

/-- Every producer numbers its events with strictly increasing sequences; an event without
a number is not counted. -/
def Increasing (calls : List ScopeCall) : Prop :=
  calls.Pairwise fun call later => SameProducer call later → call.event.sequence ≠ 0 →
    later.event.sequence ≠ 0 → call.event.sequence < later.event.sequence

instance (calls : List ScopeCall) : Decidable (Increasing calls) :=
  inferInstanceAs (Decidable (List.Pairwise _ _))

/-! ## The rule of the history -/

/-- The start of an exchange. -/
def StartOf (key : ExchangeKey) (r : Record) : Prop := r.key = some key ∧ r.frame.phase = 1

/-- The confirmation of an exchange by the client's request event. -/
def ConfirmOf (key : ExchangeKey) (r : Record) : Prop :=
  r.key = some key ∧ r.frame.phase = 2 ∧ r.call.code = 142 ∧ r.frame.side = 1

/-- The end of an exchange. -/
def CloseOf (key : ExchangeKey) (r : Record) : Prop :=
  r.key = some key ∧ (r.frame.phase = 3 ∨ r.frame.phase = 4)

/-- An invalidation by an abort or a teardown. -/
def Aborted (r : Record) : Prop :=
  r.frame.phase = 4 ∧ (r.call.code = 1 ∨ r.call.code = 5)

/-- What a frame with a key says about the frames before it. -/
structure Follows (before : List Record) (key : ExchangeKey) (r : Record) : Prop where
  first : r.frame.phase = 1 → ∀ s ∈ before, s.key ≠ some key
  origin : r.frame.phase = 1 →
    ¬r.call.Http ∧ key = (r.call.event.run, r.call.event.instanceId, r.call.event.sequence)
  later : r.frame.phase ≠ 1 → ∃ s ∈ before, StartOf key s ∧ s.client = r.client
  unclosed : r.frame.phase ≠ 4 → ∀ s ∈ before, ¬CloseOf key s
  confirmed : r.frame.side = 2 → ¬Aborted r → ∃ s ∈ before, ConfirmOf key s

/-- The rule of the history. -/
def Proper (before : List Record) (r : Record) : Prop :=
  ∀ key, r.key = some key → r.client.isSome ∧ Follows before key r

/-- The key of an exchange. -/
def AgExchange.key (e : AgExchange) : ExchangeKey := (e.run, e.owner, e.number)

/-- What the history says about an exchange of the table. -/
structure Live (log : List Record) (client : UInt64) (e : AgExchange) : Prop where
  number : e.number ≠ 0
  started : ∃ s ∈ log, StartOf e.key s ∧ s.client = some client
  unclosed : e.state ≠ 3 → ∀ s ∈ log, ¬CloseOf e.key s
  confirmed : e.state = 2 → ∃ s ∈ log, ConfirmOf e.key s

/-- The table and the history of a thread agree. -/
structure Kept (t : Tracked) : Prop where
  counted : Counted t.map
  evictions : t.map.evictions = 0
  proper : Throughout Proper t.log
  live : ∀ k e, k ≠ 0 → exchanges t.map k = some e → Live t.log k e

section Steps

variable {log : List Record} {client client' : UInt64} {e e' : AgExchange} {r : Record}
  {call : ScopeCall} {key : ExchangeKey}

/-- A frame of another key says nothing about an exchange. -/
theorem Live.other (h : Live log client e) (hkey : r.key ≠ some e.key) :
    Live (log ++ [r]) client e := by
  refine ⟨h.number, ?_, ?_, ?_⟩
  · obtain ⟨s, hs, hstart⟩ := h.started
    exact ⟨s, List.mem_append_left _ hs, hstart⟩
  · intro hstate s hs
    rcases List.mem_append.mp hs with hbefore | hlast
    · exact h.unclosed hstate s hbefore
    · rw [List.mem_singleton.mp hlast]
      exact fun hclose => hkey hclose.1
  · intro hstate
    obtain ⟨s, hs, hconfirm⟩ := h.confirmed hstate
    exact ⟨s, List.mem_append_left _ hs, hconfirm⟩

/-- A frame of an exchange, with the state that the call leaves. -/
theorem Live.own (h : Live log client e) (x : UInt64)
    (hunclosed : x ≠ 3 → e.state ≠ 3 ∧ ¬CloseOf e.key r)
    (hconfirmed : x = 2 → e.state = 2 ∨ ConfirmOf e.key r) :
    Live (log ++ [r]) client { e with state := x } := by
  refine ⟨h.number, ?_, ?_, ?_⟩
  · obtain ⟨s, hs, hstart⟩ := h.started
    exact ⟨s, List.mem_append_left _ hs, hstart⟩
  · intro hstate s hs
    obtain ⟨hopen, hlast⟩ := hunclosed hstate
    rcases List.mem_append.mp hs with hbefore | hmem
    · exact h.unclosed hopen s hbefore
    · rw [List.mem_singleton.mp hmem]
      exact hlast
  · intro hstate
    rcases hconfirmed hstate with hold | hnew
    · obtain ⟨s, hs, hconfirm⟩ := h.confirmed hold
      exact ⟨s, List.mem_append_left _ hs, hconfirm⟩
    · exact ⟨r, List.mem_append_right _ (List.mem_singleton_self r), hnew⟩

/-- An exchange has one start. -/
theorem start_unique (h : Throughout Proper log) {i j : Nat} {s : Record}
    (hi : log[i]? = some r) (hr : StartOf key r) (hj : log[j]? = some s) (hs : StartOf key s) :
    i = j := by
  refine h.unique (StartOf key) ?_ hi hr hj hs
  intro before r hproper hr s hs hstart
  exact (hproper key hr.1).2.first hr.2 s hs hstart.1

/-- A frame about another client's exchange has another key. -/
theorem Live.apart (h : Throughout Proper log) (hlive : Live log client e)
    (hproper : Proper log r) (hclient : r.client ≠ some client) : r.key ≠ some e.key := by
  intro hkey
  obtain ⟨-, hfollows⟩ := hproper e.key hkey
  obtain ⟨s, hs, hstart, hsclient⟩ := hlive.started
  by_cases hphase : r.frame.phase = 1
  · exact hfollows.first hphase s hs hstart.1
  · obtain ⟨s', hs', hstart', hsclient'⟩ := hfollows.later hphase
    obtain ⟨i, hi⟩ := List.mem_iff_getElem?.mp hs
    obtain ⟨j, hj⟩ := List.mem_iff_getElem?.mp hs'
    obtain rfl := start_unique h hi hstart hj hstart'
    obtain rfl := Option.some.inj (hi.symm.trans hj)
    exact hclient (hsclient'.symm.trans hsclient)

/-- A key with a frame has a start among the frames so far. -/
theorem start_of_key (h : Throughout Proper log) {s : Record} (hs : s ∈ log)
    (hkey : s.key = some key) : ∃ s' ∈ log, StartOf key s' ∧
      ¬s'.call.Http ∧
      key = (s'.call.event.run, s'.call.event.instanceId, s'.call.event.sequence) := by
  obtain ⟨i, hi⟩ := List.mem_iff_getElem?.mp hs
  have hfollows := (h i s hi key hkey).2
  by_cases hphase : s.frame.phase = 1
  · exact ⟨s, hs, ⟨hkey, hphase⟩, hfollows.origin hphase⟩
  · obtain ⟨s', hs', hstart, -⟩ := hfollows.later hphase
    obtain ⟨j, -, hj⟩ := mem_before.mp hs'
    exact ⟨s', List.mem_iff_getElem?.mpr ⟨j, hj⟩, hstart,
      ((h j s' hj key hstart.1).2).origin hstart.2⟩

/-- A method record with a new number starts an exchange with a new key. -/
theorem key_fresh (h : Throughout Proper log) (hjson : ¬call.Http)
    (hnumber : call.event.sequence ≠ 0)
    (hincreasing : ∀ s ∈ log, SameProducer s.call call → s.call.event.sequence ≠ 0 →
      call.event.sequence ≠ 0 → s.call.event.sequence < call.event.sequence) :
    ∀ s ∈ log, s.key ≠ some (startedBy call.event).key := by
  intro s hs hkey
  obtain ⟨s', hs', -, hjson', horigin⟩ := start_of_key h hs hkey
  simp only [AgExchange.key, startedBy, Prod.mk.injEq] at horigin
  obtain ⟨hrun, hinstance, hsequence⟩ := horigin
  have hlt := hincreasing s' hs' ⟨by simp [hjson, hjson'], hinstance.symm, hrun.symm⟩
    (by rw [← hsequence]; exact hnumber) hnumber
  rw [hsequence] at hlt
  exact UInt64.lt_irrefl _ hlt

/-- The frame of an exchange that is there follows the frames before it. -/
theorem Live.follows (h : Live log client e) (hclient : r.client = some client)
    (hkey : r.key = some e.key) (hphase : r.frame.phase ≠ 1)
    (hopen : r.frame.phase ≠ 4 → e.state ≠ 3)
    (hserver : r.frame.side = 2 → ¬Aborted r → e.state = 2) : Proper log r := by
  intro key hr
  rw [hkey] at hr
  obtain rfl := Option.some.inj hr
  refine ⟨by rw [hclient]; rfl, ?_, ?_, ?_, ?_, ?_⟩
  · intro hone
    contradiction
  · intro hone
    contradiction
  · intro _
    obtain ⟨s, hs, hstart, hsclient⟩ := h.started
    exact ⟨s, hs, hstart, hsclient.trans hclient.symm⟩
  · intro hfour
    exact h.unclosed (hopen hfour)
  · intro hside haborted
    exact h.confirmed (hserver hside haborted)

/-- A frame without a key follows anything. -/
theorem proper_of_no_key (h : r.key = none) : Proper log r := by
  intro key hkey
  rw [h] at hkey
  contradiction

/-- The key of a frame of an exchange. -/
theorem key_keyed {base : AgFrame} {phase status : Nat} (hrun : e.run = call.event.run)
    (hnumber : e.number ≠ 0) :
    Record.key ⟨call, some client, base.keyed e phase status⟩ =
      some e.key := by
  rw [Record.key, if_neg]
  · rw [AgExchange.key, ← hrun]
    rfl
  · exact hnumber

/-- A start or a field closes nothing. -/
theorem not_closeOf (h : r.frame.phase = 1 ∨ r.frame.phase = 2) : ¬CloseOf key r := by
  rintro ⟨-, hclose⟩
  omega

/-- A record that reaches the table follows the frames before it, and says what becomes of
its client's exchange. -/
theorem Scoped.keeps {base frame : AgFrame} {before after : Option AgExchange}
    (h : Throughout Proper log) (hscoped : Scoped call base before frame after)
    (hbase : Base call base) (hlive : ∀ e, before = some e → Live log client e)
    (hincreasing : ∀ s ∈ log, SameProducer s.call call → s.call.event.sequence ≠ 0 →
      call.event.sequence ≠ 0 → s.call.event.sequence < call.event.sequence) :
    Proper log ⟨call, some client, frame⟩ ∧
      ∀ e, after = some e → Live (log ++ [⟨call, some client, frame⟩]) client e := by
  cases hscoped with
  | quiet _ status =>
      have hkey : Record.key ⟨call, some client, { base with status }⟩ =
          none := by
        rw [Record.key, if_pos]
        exact hbase.exchange
      refine ⟨proper_of_no_key hkey, ?_⟩
      intro e he
      refine (hlive e he).other ?_
      rw [hkey]
      exact (Option.some_ne_none _).symm
  | cleared e =>
      refine ⟨proper_of_no_key ?_, fun _ hnone => (Option.some_ne_none _ hnone.symm).elim⟩
      rw [Record.key, if_pos]
      exact hbase.exchange
  | @ended e hrun hnumber hcode =>
      refine ⟨(hlive e rfl).follows rfl (key_keyed hrun hnumber) (by simp [AgFrame.keyed]) ?_ ?_,
        fun _ hnone => (Option.some_ne_none _ hnone.symm).elim⟩
      · intro hfour
        exact (hfour rfl).elim
      · intro hside haborted
        rcases hcode with ⟨-, hclient⟩ | habort
        · have htwo : base.side = 2 := hside
          omega
        · exact (haborted ⟨rfl, habort⟩).elim
  | @finished e hrun hnumber hstate hcode hside =>
      refine ⟨(hlive e rfl).follows rfl (key_keyed hrun hnumber) (by simp [AgFrame.keyed]) ?_ ?_,
        fun _ hnone => (Option.some_ne_none _ hnone.symm).elim⟩
      · intro _
        exact hstate
      · intro htwo
        have hserver : base.side = 2 := htwo
        omega
  | @overlapped e hrun howner hstate hstarts =>
      have hlive := hlive e rfl
      have hkey : Record.key ⟨call, some client, base.keyed e 4 4⟩ =
          some e.key := key_keyed hrun hlive.number
      refine ⟨hlive.follows rfl hkey (by simp [AgFrame.keyed]) ?_ ?_, ?_⟩
      · intro hfour
        exact (hfour rfl).elim
      · intro htwo
        have hserver : base.side = 2 := htwo
        have hclient := hstarts.2
        omega
      · intro e' he'
        rw [← Option.some.inj he']
        exact hlive.own 3 (fun hthree => (hthree rfl).elim) (fun htwo => by contradiction)
  | started hstarts =>
      have hjson : ¬call.Http := by
        rw [ScopeCall.Http, hstarts.1]
        decide
      have hnumber : call.event.sequence ≠ 0 := by
        intro hzero
        exact hbase.valid (.inr (.inr (.inl hzero)))
      have hfresh := key_fresh h hjson hnumber hincreasing
      have hkey : Record.key ⟨call, some client, base.keyed (startedBy call.event) 1 1⟩ =
          some (startedBy call.event).key :=
        key_keyed rfl hnumber
      constructor
      · intro key hr
        rw [hkey] at hr
        obtain rfl := Option.some.inj hr
        refine ⟨rfl, fun _ => hfresh, fun _ => ⟨hjson, rfl⟩, ?_, ?_, ?_⟩
        · intro hne
          exact (hne rfl).elim
        · intro _ s hs hclose
          exact hfresh s hs hclose.1
        · intro htwo
          have hserver : base.side = 2 := htwo
          have hclient := hstarts.2
          omega
      · intro e he
        rw [← Option.some.inj he]
        refine ⟨hnumber, ⟨_, List.mem_append_right _ (List.mem_singleton_self _), ⟨hkey, rfl⟩,
          rfl⟩, ?_, ?_⟩
        · intro _ s hs hclose
          rcases List.mem_append.mp hs with hbefore | hlast
          · exact hfresh s hbefore hclose.1
          · rw [List.mem_singleton.mp hlast] at hclose
            exact not_closeOf (.inl rfl) hclose
        · intro htwo
          exact absurd htwo (by decide : (1 : UInt64) ≠ 2)
  | @confirmed e hrun hnumber hstate hcode hside =>
      have hlive := hlive e rfl
      have hkey : Record.key ⟨call, some client, base.keyed e 2 1⟩ =
          some e.key := key_keyed hrun hnumber
      have hopen : e.state ≠ 3 := by
        rw [hstate]
        decide
      refine ⟨hlive.follows rfl hkey (by simp [AgFrame.keyed]) (fun _ => hopen) ?_, ?_⟩
      · intro htwo
        have hserver : base.side = 2 := htwo
        omega
      · intro e' he'
        rw [← Option.some.inj he']
        exact hlive.own 2 (fun _ => ⟨hopen, not_closeOf (.inr rfl)⟩)
          (fun _ => .inr ⟨hkey, rfl, hcode, hside⟩)
  | @rejected e status hrun hnumber hcode hside =>
      have hlive := hlive e rfl
      refine ⟨hlive.follows rfl (key_keyed hrun hnumber) (by simp [AgFrame.keyed]) ?_ ?_, ?_⟩
      · intro hfour
        exact (hfour rfl).elim
      · intro htwo
        have hserver : base.side = 2 := htwo
        omega
      · intro e' he'
        rw [← Option.some.inj he']
        exact hlive.own 3 (fun hthree => (hthree rfl).elim) (fun htwo => by contradiction)
  | @field e hrun hnumber howner hstate hside =>
      have hlive := hlive e rfl
      have hkey : Record.key ⟨call, some client, base.keyed e 2 1⟩ =
          some e.key := key_keyed hrun hnumber
      refine ⟨hlive.follows rfl hkey (by simp [AgFrame.keyed]) (fun _ => hstate)
        (fun htwo _ => hside htwo), ?_⟩
      intro e' he'
      rw [← Option.some.inj he']
      exact hlive.own e.state (fun hopen => ⟨hopen, not_closeOf (.inr rfl)⟩) .inl

end Steps

/-! ## The count -/

/-- The keys of a table other than key zero. -/
def otherKeys (m : LsMap) : Finset (List UInt8) :=
  (((Finset.range lsMapEntries).filter fun s => m.used s = true).image m.keyAt).erase
    (wordBytes 0)

/-- The count under key zero. -/
def counter (m : LsMap) : Nat := ((exchanges m 0).map fun z => z.number.toNat).getD 0

/-- A counted table counts its keys. -/
theorem Counted.card_otherKeys {m : LsMap} (h : Counted m) :
    (otherKeys m).card = counter m ∧ counter m ≤ 127 := by
  have hcard : (((Finset.range lsMapEntries).filter fun s => m.used s = true).image
      m.keyAt).card = cells m := by
    refine Finset.card_image_of_injOn ?_
    intro s hs t ht hst
    exact h.shape.wellFormed.distinct s t (Finset.mem_filter.mp hs).2
      (Finset.mem_filter.mp ht).2 hst
  cases hzero : exchanges m 0 with
  | none =>
      have hempty := Finset.card_eq_zero.mp (hcard.trans (h.empty hzero))
      rw [counter, hzero, otherKeys, hempty]
      exact ⟨rfl, Nat.zero_le _⟩
  | some z =>
      obtain ⟨hcells, hle⟩ := h.count z hzero
      have hmem : wordBytes 0 ∈ ((Finset.range lsMapEntries).filter fun s =>
          m.used s = true).image m.keyAt := by
        have hpresent : contents m (wordBytes 0) ≠ none := by
          rw [ne_eq, ← exchanges_eq_none_iff, hzero]
          exact Option.some_ne_none _
        rw [ne_eq, contents_eq_none_iff h.shape.wellFormed, not_forall] at hpresent
        obtain ⟨s, hs⟩ := hpresent
        rw [not_not] at hs
        refine Finset.mem_image.mpr ⟨s, Finset.mem_filter.mpr ⟨?_, hs.1⟩, hs.2⟩
        exact Finset.mem_range.mpr (Nat.lt_of_lt_of_le
          (h.shape.wellFormed.used_lt s hs.1) h.shape.wellFormed.entries_le)
      rw [counter, hzero, otherKeys, Finset.card_erase_of_mem hmem, hcard, hcells]
      exact ⟨rfl, hle⟩

/-! ## Runs -/

/-- The empty table has no exchange. -/
theorem kept_start : Kept .start := by
  have hwellFormed : LsMap.WellFormed Tracked.start.map := by
    refine ⟨rfl, by decide, by decide, by decide, by decide, ?_, ?_⟩
    · intro s hs
      exact absurd hs Bool.false_ne_true
    · intro s t hs
      exact absurd hs Bool.false_ne_true
  have hnone : ∀ k, exchanges Tracked.start.map k = none := by
    intro k
    rw [exchanges_eq_none_iff, contents_eq_none_iff hwellFormed]
    rintro s ⟨hused, -⟩
    exact absurd hused Bool.false_ne_true
  refine ⟨⟨⟨hwellFormed, rfl, rfl, rfl⟩, ?_, ?_⟩, rfl, throughout_nil, ?_⟩
  · intro _
    rw [cells, Finset.card_eq_zero, Finset.filter_eq_empty_iff]
    intro s _ hused
    exact absurd hused Bool.false_ne_true
  · intro z hz
    rw [hnone] at hz
    cases hz
  · intro k e _ he
    rw [hnone] at he
    cases he

/-- One call keeps table and history in agreement. -/
theorem Kept.next {t : Tracked} {call : ScopeCall} (h : Kept t)
    (hincreasing : ∀ s ∈ t.log, SameProducer s.call call → s.call.event.sequence ≠ 0 →
      call.event.sequence ≠ 0 → s.call.event.sequence < call.event.sequence) :
    Kept (t.next call) := by
  rcases @activityScope_scoped _ call h.counted with
    ⟨hclient, hexchange, hmap⟩ | ⟨client, base, hclient, hne, hbase, after, hscoped, hbecomes⟩
  · have hkey : Record.key ⟨call, (activityScope call t.map).client,
        (activityScope call t.map).frame⟩ = none := by
      rw [Record.key, if_pos hexchange]
    refine ⟨?_, ?_, throughout_snoc h.proper (proper_of_no_key hkey), ?_⟩
    · rw [Tracked.next, hmap]
      exact h.counted
    · rw [Tracked.next, hmap]
      exact h.evictions
    · intro k e hk he
      rw [Tracked.next, hmap] at he
      refine (h.live k e hk he).other ?_
      rw [hkey]
      exact (Option.some_ne_none _).symm
  · obtain ⟨hproper, hafter⟩ := Scoped.keeps h.proper hscoped hbase
      (fun e he => h.live client e hne he) hincreasing
    have hlog : (t.next call).log =
        t.log ++ [⟨call, some client, (activityScope call t.map).frame⟩] := by
      rw [Tracked.next, hclient]
    refine ⟨hbecomes.counted, hbecomes.evictions.trans h.evictions, ?_, ?_⟩
    · rw [hlog]
      exact throughout_snoc h.proper hproper
    · intro k e hk he
      rw [hlog]
      by_cases hkclient : k = client
      · rw [hkclient] at he ⊢
        exact hafter e (hbecomes.exchange.symm.trans he)
      · have hold : exchanges t.map k = some e := (hbecomes.frame k hk hkclient).symm.trans he
        refine (h.live k e hk hold).other ((h.live k e hk hold).apart h.proper hproper ?_)
        intro hsame
        exact hkclient (Option.some.inj hsame).symm

/-- The history of a thread records its calls. -/
theorem log_track (calls : List ScopeCall) : (track calls).log.map Record.call = calls := by
  induction calls using List.reverseRecOn with
  | nil => rfl
  | append_singleton calls call ih =>
      rw [track, List.foldl_append, ← track]
      simp only [List.foldl_cons, List.foldl_nil, Tracked.next, List.map_append, ih,
        List.map_cons, List.map_nil]

/-- The table and the history of every thread agree. -/
theorem kept_track {calls : List ScopeCall} (h : Increasing calls) : Kept (track calls) := by
  induction calls using List.reverseRecOn with
  | nil => exact kept_start
  | append_singleton calls call ih =>
      obtain ⟨hcalls, -, hlast⟩ := List.pairwise_append.mp h
      rw [track, List.foldl_append, ← track]
      refine (ih hcalls).next ?_
      intro s hs
      refine hlast s.call ?_ call (List.mem_singleton_self call)
      rw [← log_track calls]
      exact List.mem_map_of_mem hs

/-- No exchange is evicted: the count under key zero is the number of other keys.  Every
frame with a key comes no earlier than the one start of that key, about the same client;
after an end only invalidations carry the key; and a frame of the server's side that is no
abort comes after the confirmation. -/
theorem exchanges_never_mix (calls : List ScopeCall) (h : Increasing calls) :
    ((otherKeys (track calls).map).card = counter (track calls).map ∧
      counter (track calls).map ≤ 127 ∧ (track calls).map.evictions = 0) ∧
    ∀ (i : Nat) r key, (track calls).log[i]? = some r → r.key = some key →
      (∃ j ≤ i, (∃ s client, (track calls).log[j]? = some s ∧ StartOf key s ∧
          s.client = some client ∧ r.client = some client) ∧
        ∀ (j' : Nat) s', (track calls).log[j']? = some s' → StartOf key s' → j' = j) ∧
      (∀ j < i, ∀ s, (track calls).log[j]? = some s → CloseOf key s → r.frame.phase = 4) ∧
      (r.frame.side = 2 → ¬Aborted r →
        ∃ j < i, ∃ s, (track calls).log[j]? = some s ∧ ConfirmOf key s) := by
  have hkept := kept_track h
  obtain ⟨hcount, hle⟩ := hkept.counted.card_otherKeys
  refine ⟨⟨hcount, hle, hkept.evictions⟩, ?_⟩
  intro i r key hi hkey
  obtain ⟨hclient, hfollows⟩ := hkept.proper i r hi key hkey
  obtain ⟨client, hclient⟩ := Option.isSome_iff_exists.mp hclient
  refine ⟨?_, ?_, ?_⟩
  · by_cases hphase : r.frame.phase = 1
    · refine ⟨i, Nat.le_refl i, ⟨r, client, hi, ⟨hkey, hphase⟩, hclient, hclient⟩, ?_⟩
      intro j' s' hj' hs'
      exact start_unique hkept.proper hj' hs' hi ⟨hkey, hphase⟩
    · obtain ⟨s, hs, hstart, hsclient⟩ := hfollows.later hphase
      obtain ⟨j, hlt, hj⟩ := mem_before.mp hs
      refine ⟨j, Nat.le_of_lt hlt, ⟨s, client, hj, hstart, hsclient.trans hclient, hclient⟩, ?_⟩
      intro j' s' hj' hs'
      exact start_unique hkept.proper hj' hs' hj hstart
  · intro j hlt s hj hclose
    by_contra hphase
    exact hfollows.unclosed hphase s (mem_before.mpr ⟨j, hlt, hj⟩) hclose
  · intro hside haborted
    obtain ⟨s, hs, hconfirm⟩ := hfollows.confirmed hside haborted
    obtain ⟨j, hlt, hj⟩ := mem_before.mp hs
    exact ⟨j, hlt, s, hj, hconfirm⟩

/-- A memory with a client flow at 64, its server flow at 128, and a request event at 1000. -/
def sampleMemory : ProbeMemory := fun a =>
  if a = 100 then some 0x06
  else if a = 101 then some 0x40
  else if a = 136 then some 128
  else if a = 164 then some 0x06
  else if a = 165 then some 0x80
  else if a = 200 then some 64
  else if a = 1028 then some 2
  else some 0

/-- A call on {lit}`sampleMemory`. -/
def sampleCall (magic : UInt32) (sequence code flow info : UInt64) : ScopeCall where
  ctx := {
    arg := fun i =>
      match i with
      | 0 => 1
      | 1 => code
      | 2 => flow
      | 3 => info
      | 4 => 0 }
  event := {
    magic
    instanceId := 7
    revision := 1
    run := 9
    clock := 0
    sequence
    failures := 0 }
  mem := sampleMemory

/-- A method, its request event, a field from the server's side, and the response. -/
def sampleCalls : List ScopeCall :=
  [sampleCall methodMagic 1 0 64 0, sampleCall httpMagic 1 142 64 1000,
    sampleCall httpMagic 2 10 128 0, sampleCall httpMagic 3 29 64 0]

/-- A whole exchange: the frame of the server's side comes after the confirmation. -/
theorem exchanges_never_mix_sampleCalls :
    (track sampleCalls).log.map (fun r => (r.frame.side, r.frame.phase, r.key)) =
      [(1, 1, some (9, 7, 1)), (1, 2, some (9, 7, 1)), (2, 2, some (9, 7, 1)),
        (1, 3, some (9, 7, 1))] ∧
    (track sampleCalls).map.evictions = 0 :=
  ⟨by decide +kernel, (exchanges_never_mix sampleCalls (by decide)).1.2.2⟩

/-- A method, and an abort that is seen on the server's side before any request event. -/
def abortedCalls : List ScopeCall :=
  [sampleCall methodMagic 1 0 64 0, sampleCall httpMagic 1 5 128 0]

/-- An abort carries its exchange from the server's side without a confirmation. -/
theorem server_frame_before_confirmation :
    ¬∀ calls, Increasing calls → ∀ (i : Nat) r key, (track calls).log[i]? = some r →
      r.key = some key → r.frame.side = 2 →
        ∃ j < i, ∃ s, (track calls).log[j]? = some s ∧ ConfirmOf key s := by
  intro hall
  have hframes : (track abortedCalls).log.map (fun r => (r.frame.side, r.frame.phase, r.key)) =
      [(1, 1, some (9, 7, 1)), (2, 4, some (9, 7, 1))] := by
    decide +kernel
  obtain ⟨started, aborted, hlog⟩ : ∃ r s, (track abortedCalls).log = [r, s] := ⟨_, _, rfl⟩
  rw [hlog] at hframes
  simp only [List.map_cons, List.map_nil, List.cons.injEq, Prod.mk.injEq, and_true] at hframes
  obtain ⟨⟨-, hphase, -⟩, hside, -, hkey⟩ := hframes
  obtain ⟨j, hj, s, hs, -, hconfirm, -⟩ :=
    hall abortedCalls (by decide) 1 aborted (9, 7, 1) (by rw [hlog]; rfl) hkey hside
  obtain rfl : j = 0 := by omega
  rw [hlog] at hs
  rw [← Option.some.inj hs, hphase] at hconfirm
  contradiction

end Tracker
end LiveSurface
