import LiveSurface.Activity.Stream
import Mathlib.Data.List.Chain

/-!
# Observed exchanges

A group that was never finished early is a window of the stream: from the row
that opened it to the last one, no cursor is missing, no producer lost or repeated
a record, and every row is either a valid record or says nothing of activities.
The group holds exactly the rows of the window that carry its key.

What an exchange without an issue holds is read off its rows alone.

Main results:

- Theorem {lit}`Span.extend`: a row that finishes no group keeps the window whole.
- Theorem {lit}`feedRows_open`: every open group is the rows of its key in an
  unbroken window at the end of the stream.
- Theorem {lit}`complete_of_rowIssues`: what rows without an issue hold.
- Theorem {lit}`observed_exchange_complete`: an observed exchange was completely
  observed.
-/

namespace LiveSurface
namespace Activity

open Collector Metadata

/-! ## Windows of the stream -/

/-- One cursor follows another in the same journal. -/
def Next (rt : Runtime) (a b : Row) : Prop :=
  ∃ journal number, splitCursor rt a.cursor = some (journal, number) ∧
    splitCursor rt b.cursor = some (journal, number + 1)

/-- A row that loses nothing: it says nothing of activities, or is a valid record whose
producer reports no output failure. -/
def Quiet (row : Row) : Prop :=
  Neutral row ∨ ∃ r producer, row.framed = some r ∧ ValidGroup r.record r.frame ∧
    producerOf r = some producer ∧ r.record.outputFailures = 0

/-- The number a producer gave a row. -/
def numberOf (producer : Producer) (row : Row) : Option Nat :=
  row.framed.bind fun r => if producerOf r = some producer then some r.record.sequence else none

/-- The last number known of a producer, and the numbers of its later rows. -/
def numbers (known : Dict Producer Nat) (producer : Producer) (window : List Row) : List Nat :=
  (known.get? producer).toList ++ window.filterMap (numberOf producer)

/-- A stretch of the stream without a loss.  It starts with a row after which the
last number of each producer is known; after it, the combiner knows these cursors
and numbers. -/
structure Span (rt : Runtime) (known : Dict Producer Nat) (first : Row) (window : List Row)
    (sequences : Dict Producer Nat) (cursor : String × Int) : Prop where
  cursors : (first :: window).IsChain (Next rt)
  last : splitCursor rt ((first :: window).getLast (by simp)).cursor = some cursor
  quiet : ∀ row ∈ window, Quiet row
  consecutive : ∀ producer, (numbers known producer window).IsChain fun a b => b = a + 1
  latest : ∀ producer, sequences.get? producer = (numbers known producer window).getLast?

/-- A stretch of one row. -/
theorem Span.start {rt : Runtime} {known : Dict Producer Nat} {first : Row}
    {cursor : String × Int} (hsplit : splitCursor rt first.cursor = some cursor) :
    Span rt known first [] known cursor where
  cursors := List.isChain_singleton _
  last := hsplit
  quiet := by simp
  consecutive := by
    intro producer
    cases hknown : known.get? producer <;> simp [numbers, hknown]
  latest := by
    intro producer
    cases hknown : known.get? producer <;> simp [numbers, hknown]

/-- A row that finishes no group keeps the stretch whole. -/
theorem Span.extend {rt : Runtime} {known : Dict Producer Nat} {first row : Row}
    {window : List Row} {sequences sequences' : Dict Producer Nat} {cursor : String × Int}
    (hspan : Span rt known first window sequences cursor)
    (hsplit : splitCursor rt row.cursor = some (cursor.1, cursor.2 + 1)) (hquiet : Quiet row)
    (hnext : ∀ producer n, numberOf producer row = some n →
      sequences'.get? producer = some n ∧
        ∀ p, sequences.get? producer = some p → n = p + 1)
    (hsame : ∀ producer, numberOf producer row = none →
      sequences'.get? producer = sequences.get? producer) :
    Span rt known first (window ++ [row]) sequences' (cursor.1, cursor.2 + 1) := by
  have hnumbers : ∀ producer, numbers known producer (window ++ [row]) =
      numbers known producer window ++ (numberOf producer row).toList := by
    intro producer
    rw [numbers, List.filterMap_append, ← List.append_assoc]
    cases hnumber : numberOf producer row <;> simp [numbers, hnumber]
  refine ⟨?_, ?_, ?_, ?_, ?_⟩
  · rw [← List.cons_append, List.isChain_append]
    refine ⟨hspan.cursors, List.isChain_singleton _, ?_⟩
    intro a ha b hb
    rw [List.getLast?_eq_some_getLast (by simp), Option.mem_some_iff] at ha
    rw [List.head?_singleton, Option.mem_some_iff] at hb
    subst ha hb
    exact ⟨cursor.1, cursor.2, hspan.last, hsplit⟩
  · simp only [← List.cons_append, List.getLast_append_singleton]
    exact hsplit
  · intro other hother
    rw [List.mem_append, List.mem_singleton] at hother
    rcases hother with hother | rfl
    · exact hspan.quiet other hother
    · exact hquiet
  · intro producer
    rw [hnumbers, List.isChain_append]
    refine ⟨hspan.consecutive producer, ?_, ?_⟩
    · cases numberOf producer row <;> simp
    · intro a ha b hb
      rw [← hspan.latest producer] at ha
      cases hnumber : numberOf producer row with
      | none => simp [hnumber] at hb
      | some n =>
          have hb' : n = b := by simpa [hnumber] using hb
          rw [← hb']
          exact (hnext producer n hnumber).2 a ha
  · intro producer
    rw [hnumbers]
    cases hnumber : numberOf producer row with
    | none => rw [hsame producer hnumber, hspan.latest producer]; simp
    | some n => rw [(hnext producer n hnumber).1]; simp

/-- A row before which nothing was lost keeps the stretch whole. -/
theorem Prepared.extend {rt : Runtime} {known : Dict Producer Nat} {first row : Row}
    {window : List Row} {c c' : Combiner} {cursor : String × Int} {journal : String}
    {number : Int} {out : List Output}
    (hspan : Span rt known first window c.sequences cursor) (hcursor : c.cursor = some cursor)
    (hsplit : splitCursor rt row.cursor = some (journal, number))
    (h : Prepared rt c row journal number out c') :
    c'.pending = .empty ∨
      (c'.pending = c.pending ∧ ∃ cursor', c'.cursor = some cursor' ∧
        Span rt known first (window ++ [row]) c'.sequences cursor') := by
  cases h with
  | neutral hfollows hneutral =>
      obtain ⟨rfl, rfl⟩ := hfollows cursor hcursor
      have hnone : ∀ producer, numberOf producer row = none := by
        intro producer
        rw [numberOf, hneutral.1, Option.bind_none]
      refine .inr ⟨rfl, _, rfl, hspan.extend hsplit (.inl hneutral) ?_ ?_⟩
      · intro producer n hn
        rw [hnone] at hn
        contradiction
      · exact fun _ _ => rfl
  | @follows r producer hfollows hrow =>
      obtain ⟨rfl, rfl⟩ := hfollows cursor hcursor
      have hquiet : Quiet row :=
        .inr ⟨r, producer, hrow.framed, hrow.valid, hrow.numbered, hrow.lossless⟩
      have hnumber : ∀ other, numberOf other row =
          if producer = other then some r.record.sequence else none := by
        intro other
        rw [numberOf, hrow.framed, Option.bind_some, hrow.numbered]
        simp
      refine .inr ⟨rfl, _, rfl, hspan.extend hsplit hquiet ?_ ?_⟩
      · intro other n hn
        rw [hnumber] at hn
        split at hn
        · rename_i hsame
          cases hn
          rw [← hsame]
          exact ⟨Dict.get?_set_self .., hrow.next⟩
        · contradiction
      · intro other hn
        rw [hnumber] at hn
        split at hn
        · contradiction
        · rename_i hother
          rw [Dict.get?_set, if_neg (Ne.symm hother)]
  | flushed reason hframed hvalid hnumbered hsequence => exact .inl rfl

/-! ## Open groups -/

/-- The rows of a key. -/
def keyedRows (key : Key) (rows : List Row) : List FramedRow :=
  rows.filterMap fun row => row.framed.filter fun r => keyOf r = some key

/-- What the issues and the flag of a group say about its rows. -/
structure Built (g : Group) : Prop where
  confirmed : g.confirmed = true → ∃ r ∈ g.rows, r.Confirms
  statuses : g.issues = [] → ∀ r ∈ g.rows, r.frame.status = 1
  order : g.issues = [] → ∀ before r after, g.rows = before ++ r :: after → ¬r.Http →
    r.frame.side = 2 → ∃ k ∈ before, k.Confirms

/-- A row is added to what was built. -/
theorem built_addRow {first : String} {rows : List FramedRow} {issues : List Issue}
    {confirmed : Bool} {r : FramedRow}
    (hconfirmed : confirmed = true → ∃ k ∈ rows, k.Confirms)
    (hstatuses : issues = [] → ∀ k ∈ rows, k.frame.status = 1)
    (horder : issues = [] → ∀ before k after, rows = before ++ k :: after → ¬k.Http →
      k.frame.side = 2 → ∃ l ∈ before, l.Confirms) :
    Built (addRow first rows issues confirmed r) := by
  refine ⟨?_, ?_, ?_⟩
  · simp only [addRow, Bool.or_eq_true, decide_eq_true_eq, List.mem_append, List.mem_singleton]
    rintro (h | h)
    · obtain ⟨k, hk, hconfirms⟩ := hconfirmed h
      exact ⟨k, .inl hk, hconfirms⟩
    · exact ⟨r, .inr rfl, h.1⟩
  · intro hissues k hk
    simp only [addRow, List.append_eq_nil_iff] at hissues
    simp only [addRow, List.mem_append, List.mem_singleton] at hk
    rcases hk with hk | rfl
    · exact hstatuses hissues.1.1 k hk
    · by_contra hstatus
      rw [if_pos hstatus] at hissues
      simp at hissues
  · intro hissues before k after hsplit hjson hside
    simp only [addRow, List.append_eq_nil_iff] at hissues
    simp only [addRow] at hsplit
    rcases List.eq_nil_or_concat after with rfl | ⟨after', last, rfl⟩
    · -- the row that was added: it is not an HTTP event, so it is not its own confirmation
      obtain ⟨rfl, hlast⟩ := List.append_inj' hsplit rfl
      cases hlast
      have hnot : ¬(r.Confirms ∧ r.frame.status = 1) := fun h => hjson h.1.1
      have hflag : confirmed = true := by
        by_contra hflag
        rw [if_pos ⟨hjson, hside, by simp [hnot, hflag]⟩] at hissues
        simp at hissues
      exact hconfirmed hflag
    · rw [List.concat_eq_append, ← List.cons_append, ← List.append_assoc] at hsplit
      obtain ⟨hrows, -⟩ := List.append_inj' hsplit rfl
      exact horder hissues.1.1 before k after' hrows hjson hside

theorem built_start (r : FramedRow) : Built (Group.start r) :=
  built_addRow (by simp) (by simp) (by simp)

theorem Built.add {g : Group} (h : Built g) (r : FramedRow) : Built (g.add r) :=
  built_addRow h.confirmed h.statuses h.order

/-- A group that was opened by the first row of a stretch and holds the rows of its
key. -/
structure OpenSince (first : Row) (window : List Row) (key : Key) (g : Group) : Prop where
  opened : ∃ r producer, first.framed = some r ∧ keyOf r = some key ∧ r.frame.phase = 1 ∧
    ValidGroup r.record r.frame ∧ producerOf r = some producer
  begun : g.first = first.cursor
  rows : g.rows = keyedRows key (first :: window)
  built : Built g

theorem keyedRows_snoc (key : Key) (rows : List Row) (row : Row) :
    keyedRows key (rows ++ [row]) =
      keyedRows key rows ++ (row.framed.filter fun r => keyOf r = some key).toList := by
  rw [keyedRows, List.filterMap_append]
  rfl

/-- A row of another key leaves a group as it is. -/
theorem OpenSince.skip {first row : Row} {window : List Row} {key : Key} {g : Group}
    (h : OpenSince first window key g) (hkey : row.key ≠ some key) :
    OpenSince first (window ++ [row]) key g := by
  refine ⟨h.opened, h.begun, ?_, h.built⟩
  have hother : (row.framed.filter fun r => keyOf r = some key) = none := by
    rw [Option.filter_eq_none_iff]
    intro r hframed hr
    refine hkey ?_
    rw [Row.key, hframed, Option.bind_some]
    simpa using hr
  rw [← List.cons_append, keyedRows_snoc, hother, h.rows]
  simp

/-- A row of its key is taken by a group. -/
theorem OpenSince.take {first row : Row} {window : List Row} {key : Key} {g : Group}
    {r : FramedRow} (h : OpenSince first window key g) (hframed : row.framed = some r)
    (hkey : keyOf r = some key) : OpenSince first (window ++ [row]) key (g.add r) := by
  refine ⟨h.opened, h.begun, ?_, h.built.add r⟩
  rw [← List.cons_append, keyedRows_snoc, hframed, Option.filter_some, if_pos (by simp [hkey]),
    ← h.rows]
  rfl

/-- A row opens a group. -/
theorem OpenSince.start {row : Row} {key : Key} {r : FramedRow} {producer : Producer}
    (hframed : row.framed = some r) (hkey : keyOf r = some key) (hphase : r.frame.phase = 1)
    (hvalid : ValidGroup r.record r.frame) (hnumbered : producerOf r = some producer) :
    OpenSince row [] key (.start r) where
  opened := ⟨r, producer, hframed, hkey, hphase, hvalid, hnumbered⟩
  begun := congrArg Row.cursor (row_of_framed hframed)
  rows := by
    have hrow : keyedRows key [row] = [r] := by
      rw [← List.nil_append [row], keyedRows_snoc, hframed, Option.filter_some,
        if_pos (by simp [hkey])]
      rfl
    exact hrow.symm
  built := built_start r

section Groups

variable {rt : Runtime} {c c' : Combiner} {row : Row} {out : List Output}

/-- The groups after a group has taken a row. -/
theorem Extended.groups {key other : Key} {g g' : Group} {r : FramedRow}
    (h : Extended rt c key g r out c') (hget : c'.pending.get? other = some g') :
    (other = key ∧ g' = g) ∨ (other ≠ key ∧ c.pending.get? other = some g') := by
  have hset : (c.pending.set key g).get? other = some g' →
      (other = key ∧ g' = g) ∨ (other ≠ key ∧ c.pending.get? other = some g') := by
    intro hset
    rw [Dict.get?_set] at hset
    split at hset
    · rename_i hsame
      exact .inl ⟨hsame, (Option.some.inj hset).symm⟩
    · rename_i hother
      exact .inr ⟨hother, hset⟩
  have herased : ((c.pending.set key g).erase key).get? other = some g' →
      (c.pending.set key g).get? other = some g' := by
    intro herased
    rw [Dict.get?_erase] at herased
    split at herased
    · contradiction
    · exact herased
  cases h with
  | ended hphase => exact hset (herased hget)
  | cut reason => exact hset (herased hget)
  | opened hroom => exact hset hget

/-- The groups after what a row does to them: those of other keys, a group it opens, or
a group that takes it. -/
theorem Acted.groups {key : Key} {g : Group} (h : Acted rt c row out c')
    (hget : c'.pending.get? key = some g) :
    (c.pending.get? key = some g ∧ row.key ≠ some key) ∨
      (∃ r, row.framed = some r ∧ keyOf r = some key ∧ r.frame.phase = 1 ∧ g = .start r) ∨
      ∃ r g₀, row.framed = some r ∧ keyOf r = some key ∧ c.pending.get? key = some g₀ ∧
        g = g₀.add r := by
  have hrowKey : ∀ {r : FramedRow} {k : Key}, row.framed = some r → keyOf r = some k →
      key ≠ k → row.key ≠ some key := by
    intro r k hframed hkey hother heq
    rw [Row.key, hframed, Option.bind_some, hkey] at heq
    exact hother (Option.some.inj heq).symm
  cases h with
  | single event hkey =>
      refine .inl ⟨hget, fun heq => ?_⟩
      rw [hkey key heq] at hget
      contradiction
  | @restarted k g₀ hkey hpending =>
      rw [Dict.get?_erase] at hget
      split at hget
      · contradiction
      · rename_i hother
        refine .inl ⟨hget, fun heq => hother ?_⟩
        exact Option.some.inj (heq.symm.trans hkey)
  | started hframed hkey hphase hpending hroom hextended =>
      rcases hextended.groups hget with ⟨rfl, rfl⟩ | ⟨hother, hold⟩
      · exact .inr (.inl ⟨_, hframed, hkey, hphase, rfl⟩)
      · exact .inl ⟨hold, hrowKey hframed hkey hother⟩
  | replaced hframed hkey hphase hpending holdest hextended =>
      rcases hextended.groups hget with ⟨rfl, rfl⟩ | ⟨hother, hold⟩
      · exact .inr (.inl ⟨_, hframed, hkey, hphase, rfl⟩)
      · rw [Dict.get?_erase] at hold
        split at hold
        · contradiction
        · exact .inl ⟨hold, hrowKey hframed hkey hother⟩
  | added hframed hkey hpending hextended =>
      rcases hextended.groups hget with ⟨rfl, rfl⟩ | ⟨hother, hold⟩
      · exact .inr (.inr ⟨_, _, hframed, hkey, hpending, rfl⟩)
      · exact .inl ⟨hold, hrowKey hframed hkey hother⟩

/-- What a row does to the groups leaves the cursor and the numbers. -/
theorem Acted.frame (h : Acted rt c row out c') :
    c'.sequences = c.sequences ∧ c'.cursor = c.cursor := by
  cases h with
  | single event hkey => exact ⟨rfl, rfl⟩
  | restarted hkey hpending => exact ⟨rfl, rfl⟩
  | started hframed hkey hphase hpending hroom hextended =>
      cases hextended <;> exact ⟨rfl, rfl⟩
  | replaced hframed hkey hphase hpending holdest hextended =>
      cases hextended <;> exact ⟨rfl, rfl⟩
  | added hframed hkey hpending hextended =>
      cases hextended <;> exact ⟨rfl, rfl⟩

/-- A group that is finished for a reason has an issue. -/
theorem finish_reason_incomplete (rt : Runtime) (key : Key) (g : Group) (reason : Issue) :
    (finish rt key g (some reason)).status = .incomplete := by
  simp [finish, groupIssues]

theorem flushed_incomplete {pending : Dict Key Group} {reason : Issue} {x : Combined}
    (hx : .combined x ∈ flushed rt pending reason) : x.status = .incomplete := by
  obtain ⟨entry, hentry, hfinish⟩ := List.mem_map.mp hx
  cases hfinish
  exact finish_reason_incomplete rt entry.1 entry.2 reason

/-- Only a phase-3 row ends a group without a reason. -/
theorem Extended.observed {key : Key} {g : Group} {r : FramedRow} {x : Combined}
    (h : Extended rt c key g r out c') (hx : .combined x ∈ out)
    (hobserved : x.status = .observedExchange) :
    r.frame.phase = 3 ∧ x = finish rt key g none := by
  cases h with
  | ended hphase =>
      cases List.mem_singleton.mp hx
      exact ⟨hphase, rfl⟩
  | cut reason =>
      cases List.mem_singleton.mp hx
      rw [finish_reason_incomplete] at hobserved
      contradiction
  | opened hroom => contradiction

/-- An exchange is observed when its group takes a phase-3 row. -/
theorem Acted.observed {x : Combined} (h : Acted rt c row out c') (hx : .combined x ∈ out)
    (hobserved : x.status = .observedExchange) :
    ∃ r key g, row.framed = some r ∧ keyOf r = some key ∧ c.pending.get? key = some g ∧
      r.frame.phase = 3 ∧ x = finish rt key (g.add r) none := by
  cases h with
  | single event hkey => simp at hx
  | restarted hkey hpending =>
      simp only [List.mem_cons, reduceCtorEq, List.not_mem_nil, or_false, Output.combined.injEq]
        at hx
      rw [hx, finish_reason_incomplete] at hobserved
      contradiction
  | started hframed hkey hphase hpending hroom hextended =>
      have h := (hextended.observed hx hobserved).1
      omega
  | replaced hframed hkey hphase hpending holdest hextended =>
      rcases List.mem_cons.mp hx with heq | hx
      · cases heq
        rw [finish_reason_incomplete] at hobserved
        contradiction
      · have h := (hextended.observed hx hobserved).1
        omega
  | added hframed hkey hpending hextended =>
      obtain ⟨hphase, rfl⟩ := hextended.observed hx hobserved
      exact ⟨_, _, _, hframed, hkey, hpending, hphase, rfl⟩

end Groups

/-! ## Runs -/

/-- A row of the stream that opened a group, and the rows after it. -/
structure Opening (rt : Runtime) (start : Combiner) (rows : List Row) (c : Combiner) (key : Key)
    (g : Group) (before : List Row) (first : Row) (window : List Row) (opener : Combiner) :
    Prop where
  split : rows = before ++ first :: window
  reached : ∃ earlier, feedRows rt start (before ++ [first]) = .ok (earlier, opener)
  whole : ∃ cursor, c.cursor = some cursor ∧
    Span rt opener.sequences first window c.sequences cursor
  since : OpenSince first window key g
  numbered : ∀ r producer, first.framed = some r → producerOf r = some producer →
    opener.sequences.get? producer = some r.record.sequence

section Runs

variable {rt : Runtime} {start c c' : Combiner} {rows : List Row} {row : Row} {out : List Output}

/-- Every open group was opened by a row of the stream. -/
def AllOpen (rt : Runtime) (start : Combiner) (rows : List Row) (c : Combiner) : Prop :=
  ∀ key g, c.pending.get? key = some g →
    ∃ before first window opener, Opening rt start rows c key g before first window opener

/-- The last number of the producer of a row that was accepted. -/
theorem Prepared.numbered {journal : String} {number : Int} {r : FramedRow}
    (h : Prepared rt c row journal number out c') (hframed : row.framed = some r) :
    ValidGroup r.record r.frame ∧ ∃ producer, producerOf r = some producer ∧
      c'.sequences.get? producer = some r.record.sequence := by
  cases h with
  | neutral hcursor hneutral =>
      rw [hneutral.1] at hframed
      contradiction
  | follows hcursor hrow =>
      rw [hrow.framed] at hframed
      cases hframed
      exact ⟨hrow.valid, _, hrow.numbered, Dict.get?_set_self ..⟩
  | flushed reason hframed' hvalid hnumbered hsequence =>
      rw [hframed'] at hframed
      cases hframed
      exact ⟨hvalid, _, hnumbered, hsequence⟩

/-- What a row does first keeps the groups or finishes all of them. -/
theorem Prepared.pending {journal : String} {number : Int}
    (h : Prepared rt c row journal number out c') :
    c'.pending = .empty ∨ c'.pending = c.pending := by
  cases h with
  | neutral hcursor hneutral => exact .inr rfl
  | follows hcursor hrow => exact .inr rfl
  | flushed reason hframed hvalid hnumbered hsequence => exact .inl rfl

/-- The cursor that a row leaves. -/
theorem Prepared.cursor {journal : String} {number : Int}
    (h : Prepared rt c row journal number out c') : c'.cursor = some (journal, number) := by
  cases h with
  | neutral hcursor hneutral => rfl
  | follows hcursor hrow => rfl
  | flushed reason hframed hvalid hnumbered hsequence => rfl

/-- A row keeps every open group open since its opening row. -/
theorem Stepped.open {before : List Output} (hopen : AllOpen rt start rows c)
    (hrows : feedRows rt start rows = .ok (before, c)) (hstep : stepRow rt c row = .ok (out, c'))
    (h : Stepped rt c row out c') : AllOpen rt start (rows ++ [row]) c' := by
  have hfed : feedRows rt start (rows ++ [row]) = .ok (before ++ out, c') := by
    refine feedRows_append hrows ?_
    rw [feedRows, hstep]
    simp only [bind, Except.bind, feedRows, List.append_nil]
  cases h with
  | broken reason event hsplit =>
      intro key g hget
      rw [Dict.get?_empty] at hget
      contradiction
  | @acted journal number first second c₁ _ hsplit hprepared hacted =>
      intro key g hget
      obtain ⟨hsequences, hcursor⟩ := hacted.frame
      -- a group that was open before the row, with its stretch made longer by the row
      have hkept : ∀ g₀ g₁, c₁.pending.get? key = some g₀ →
          (∀ opening window, OpenSince opening window key g₀ →
            OpenSince opening (window ++ [row]) key g₁) →
          ∃ before first window opener,
            Opening rt start (rows ++ [row]) c' key g₁ before first window opener := by
        intro g₀ g₁ hget₀ hsince
        rcases Prepared.pending hprepared with hempty | hpending
        · rw [hempty, Dict.get?_empty] at hget₀
          contradiction
        · rw [hpending] at hget₀
          obtain ⟨earlier, opening, window, opener, hopening⟩ := hopen key g₀ hget₀
          obtain ⟨cursor, hat, hspan⟩ := hopening.whole
          rcases hprepared.extend hspan hat hsplit with hempty | ⟨-, cursor', hat', hspan'⟩
          · rw [← hpending, hempty, Dict.get?_empty] at hget₀
            contradiction
          · refine ⟨earlier, opening, window ++ [row], opener, ?_, hopening.reached, ?_,
              hsince opening window hopening.since, hopening.numbered⟩
            · rw [hopening.split, List.append_assoc, List.cons_append]
            · rw [hsequences, hcursor]
              exact ⟨cursor', hat', hspan'⟩
      rcases hacted.groups hget with ⟨hold, hkey⟩ | ⟨r, hframed, hkey, hphase, rfl⟩ |
        ⟨r, g₀, hframed, hkey, hold, rfl⟩
      · exact hkept g g hold fun _ _ hsince => hsince.skip hkey
      · obtain ⟨hvalid, producer, hnumbered, hlatest⟩ := hprepared.numbered hframed
        refine ⟨rows, row, [], c', rfl, ⟨_, hfed⟩, ⟨(journal, number), ?_, ?_⟩,
          .start hframed hkey hphase hvalid hnumbered, ?_⟩
        · rw [hcursor]
          exact hprepared.cursor
        · exact .start hsplit
        · intro r' producer' hframed' hnumbered'
          rw [hframed] at hframed'
          cases hframed'
          rw [hnumbered] at hnumbered'
          cases hnumbered'
          rw [hsequences, hlatest]
      · exact hkept g₀ _ hold fun _ _ hsince => hsince.take hframed hkey

/-- An exchange that was ended by a phase-3 row: the stretch of the stream it was built
from. -/
structure Seen (rt : Runtime) (start : Combiner) (rows : List Row) (x : Combined)
    (before : List Row) (first : Row) (window after : List Row) (opener : Combiner) (g : Group) :
    Prop where
  split : rows = before ++ (first :: window) ++ after
  reached : ∃ earlier, feedRows rt start (before ++ [first]) = .ok (earlier, opener)
  whole : ∃ sequences cursor, Span rt opener.sequences first window sequences cursor
  numbered : ∀ r producer, first.framed = some r → producerOf r = some producer →
    opener.sequences.get? producer = some r.record.sequence
  since : OpenSince first window x.key g
  ended : ∃ r, g.rows.getLast? = some r ∧ ((first :: window).getLast (by simp)).framed = some r ∧
    r.frame.phase = 3 ∧ ValidGroup r.record r.frame
  finished : x = finish rt x.key g none

/-- More rows follow. -/
theorem Seen.append {x : Combined} {before window after : List Row} {first : Row}
    {opener : Combiner} {g : Group} (h : Seen rt start rows x before first window after opener g)
    (more : List Row) : Seen rt start (rows ++ more) x before first window (after ++ more) opener g :=
  { h with split := by rw [h.split, List.append_assoc] }

/-- A row that ends an observed exchange closes its stretch of the stream. -/
theorem Stepped.observed {x : Combined} (hopen : AllOpen rt start rows c)
    (h : Stepped rt c row out c') (hx : .combined x ∈ out)
    (hobserved : x.status = .observedExchange) :
    ∃ before first window opener g,
      Seen rt start (rows ++ [row]) x before first window [] opener g := by
  cases h with
  | broken reason event hsplit =>
      rcases List.mem_append.mp hx with hflushed | hevent
      · rw [flushed_incomplete hflushed] at hobserved
        contradiction
      · simp at hevent
  | @acted journal number first second c₁ _ hsplit hprepared hacted =>
      rcases List.mem_append.mp hx with hfirst | hsecond
      · cases hprepared with
        | neutral hcursor hneutral => contradiction
        | follows hcursor hrow => contradiction
        | flushed reason hframed hvalid hnumbered hsequence =>
            rw [flushed_incomplete hfirst] at hobserved
            contradiction
      · obtain ⟨r, key, g, hframed, hkey, hget, hphase, rfl⟩ := hacted.observed hsecond hobserved
        rcases hprepared.pending with hempty | hpending
        · rw [hempty, Dict.get?_empty] at hget
          contradiction
        · rw [hpending] at hget
          obtain ⟨before, opening, window, opener, hopening⟩ := hopen key g hget
          obtain ⟨cursor, hat, hspan⟩ := hopening.whole
          rcases hprepared.extend hspan hat hsplit with hempty | ⟨-, cursor', -, hspan'⟩
          · rw [← hpending, hempty, Dict.get?_empty] at hget
            contradiction
          · refine ⟨before, opening, window ++ [row], opener, g.add r, ?_, hopening.reached,
              ⟨_, _, hspan'⟩, hopening.numbered, hopening.since.take hframed hkey, ?_, rfl⟩
            · rw [hopening.split]
              simp
            · refine ⟨r, by simp [Group.add, addRow], ?_, hphase, (hprepared.numbered hframed).1⟩
              rw [← hframed]
              simp only [← List.cons_append, List.getLast_append_singleton]

/-- Every open group is the rows of its key in an unbroken stretch at the end of the
stream, and every observed exchange was one. -/
theorem feedRows_open (hstart : start.pending = .empty)
    (h : feedRows rt start rows = .ok (out, c)) :
    AllOpen rt start rows c ∧ ∀ x, .combined x ∈ out → x.status = .observedExchange →
      ∃ before first window after opener g,
        Seen rt start rows x before first window after opener g := by
  induction rows using List.reverseRecOn generalizing out c with
  | nil =>
      cases h
      refine ⟨?_, by simp⟩
      intro key g hget
      rw [hstart, Dict.get?_empty] at hget
      contradiction
  | append_singleton rows row ih =>
      obtain ⟨first, c₁, second, hrows, hrow, rfl⟩ := feedRows_split h
      obtain ⟨hopen, hseen⟩ := ih hrows
      obtain ⟨out, c₂, more, hstep, hnil, rfl⟩ := feedRows_cons hrow
      cases hnil
      have hstepped := stepRow_cases hstep
      refine ⟨hstepped.open hopen hrows hstep, ?_⟩
      intro x hx hobserved
      rw [List.append_nil, List.mem_append] at hx
      rcases hx with hx | hx
      · obtain ⟨before, opening, window, after, opener, g, hsplit⟩ := hseen x hx hobserved
        exact ⟨before, opening, window, after ++ [row], opener, g, hsplit.append [row]⟩
      · obtain ⟨before, opening, window, opener, g, hsplit⟩ :=
          hstepped.observed hopen hx hobserved
        exact ⟨before, opening, window, [], opener, g, hsplit⟩

end Runs

/-! ## What an exchange without an issue holds -/

/-- Values whose set has one element are all the same. -/
theorem all_eq_of_dedup {α : Type} [DecidableEq α] {l : List α} (h : l.dedup.length = 1) :
    ∃ a ∈ l, ∀ b ∈ l, b = a := by
  obtain ⟨a, ha⟩ := List.length_eq_one_iff.mp h
  refine ⟨a, List.mem_dedup.mp (by rw [ha]; exact List.mem_singleton_self a), ?_⟩
  intro b hb
  have hmem := List.mem_dedup.mpr hb
  rw [ha] at hmem
  exact List.mem_singleton.mp hmem

/-- A list without duplicates under a map has one element of each image at most. -/
theorem filter_le_one {α β : Type} [DecidableEq β] {f : α → β} {l : List α}
    (h : (l.map f).Nodup) (b : β) : (l.filter fun a => f a = b).length ≤ 1 := by
  have hcount : (l.map f).count b ≤ 1 := List.nodup_iff_count_le_one.mp h b
  rw [List.count, List.countP_map, List.countP_eq_length_filter] at hcount
  exact hcount

/-- The content of an exchange that was completely observed. -/
structure CompleteExchange (rows : List FramedRow) : Prop where
  sides : ∀ r ∈ rows, ¬r.Http → r.frame.side = 1 ∨ r.frame.side = 2
  fields : ∀ side ∈ [1, 2], ∀ kind ∈ fieldKinds, ∃ r, fieldRows rows side kind = [r]
  invocations : ∀ side ∈ [1, 2], ∃ call, ∀ r ∈ rows, ¬r.Http → r.frame.side = side → r.call = call
  jsonProducer : ∃ writer, ∀ r ∈ rows, ¬r.Http → r.writer = writer
  httpProducer : ∃ writer, ∀ r ∈ rows, r.Http → r.writer = writer
  confirmation : ∃ k, rows.filter FramedRow.Confirms = [k]
  confirmed : ∀ before r after, rows = before ++ r :: after → ¬r.Http → r.frame.side = 2 →
    ∃ k ∈ before, k.Confirms
  statuses : ∀ r ∈ rows, r.frame.status = 1
  request : ∀ kind ∈ [Observation.method, .operationTarget, .messageId],
    ∃ value, requestField rows kind = some value ∧ value.status = "complete" ∧
      value.textError = false
  identifiers : ∃ a b, identifier rows 1 = some a ∧ identifier rows 2 = some b ∧
    a.status = "complete" ∧ b.status = "complete" ∧ a.kind = b.kind ∧ a.rawHex = b.rawHex
  reply : (replyOutcome rows).status = some "complete"
  httpStatus : ∃ value, value.status = "complete" ∧
    completeValues rows Outcome.httpStatus ≠ [] ∧
    ∀ entry ∈ completeValues rows Outcome.httpStatus, entry.2 = value
  localTransferComplete : ∃ value, value.status = "complete" ∧
    completeValues rows Outcome.localTransferComplete ≠ [] ∧
    ∀ entry ∈ completeValues rows Outcome.localTransferComplete, entry.2 = value

section Content

variable {rt : Runtime} {rows : List FramedRow}

theorem mem_jsonRows {r : FramedRow} : r ∈ jsonRows rows ↔ r ∈ rows ∧ ¬r.Http := by
  simp [jsonRows]

theorem mem_httpRows {r : FramedRow} : r ∈ httpRows rows ↔ r ∈ rows ∧ r.Http := by
  simp [httpRows]

theorem mem_callsOf {side : Nat} {call : Nat × Nat × Nat} :
    call ∈ callsOf rows side ↔ ∃ r ∈ rows, ¬r.Http ∧ r.frame.side = side ∧ r.call = call := by
  simp [callsOf, mem_jsonRows, and_assoc]

@[simp]
theorem issue_eq_nil {p : Prop} [Decidable p] {issue : Issue} :
    (if p then [issue] else []) = [] ↔ ¬p := by
  simp

/-- A row of each field there is, and one of each that is not missing. -/
theorem fieldRows_eq_singleton {side : Nat} {kind : Observation} (hside : side ∈ [1, 2])
    (hkind : kind ∈ fieldKinds)
    (hnodup : (((jsonRows rows).filter fun r => r.frame.side ∈ [1, 2]).map fun r =>
      (r.frame.side, r.record.observation)).Nodup)
    (hside' : sideIssues rows side = []) : ∃ r, fieldRows rows side kind = [r] := by
  have hle : (fieldRows rows side kind).length ≤ 1 := by
    have hone := filter_le_one hnodup (side, kind)
    rw [List.filter_filter] at hone
    refine Nat.le_trans (Nat.le_of_eq ?_) hone
    rw [fieldRows]
    congr 1
    apply List.filter_congr
    intro r _
    by_cases hr : r.frame.side = side
    · simp [hr, hside]
    · simp [hr]
  have hne : fieldRow rows side kind ≠ none := by
    simp only [sideIssues, List.append_eq_nil_iff, List.flatMap_eq_nil_iff] at hside'
    have := hside'.2 kind hkind
    by_contra hnone
    rw [if_pos hnone] at this
    contradiction
  rw [fieldRow, ne_eq, List.getLast?_eq_none_iff] at hne
  have hpos := List.length_pos_iff.mpr hne
  exact List.length_eq_one_iff.mp (by omega)

/-- The one value of an outcome. -/
theorem completeValue {α : Type} [DecidableEq α] {get : Outcome → Option (StateValue α)}
    {issue : Issue} (hsame : conflictIssues rows get issue = [])
    (hsome : completeValues rows get ≠ []) :
    ∃ value, value.status = "complete" ∧ completeValues rows get ≠ [] ∧
      ∀ entry ∈ completeValues rows get, entry.2 = value := by
  have hpos : ((completeValues rows get).map Prod.snd).dedup ≠ [] := by
    rw [ne_eq, List.dedup_eq_nil, List.map_eq_nil_iff]
    exact hsome
  have hone : ((completeValues rows get).map Prod.snd).dedup.length = 1 := by
    rw [conflictIssues, issue_eq_nil] at hsame
    have := List.length_pos_iff.mpr hpos
    omega
  obtain ⟨value, hvalue, hall⟩ := all_eq_of_dedup hone
  refine ⟨value, ?_, hsome, ?_⟩
  · obtain ⟨entry, hentry, rfl⟩ := List.mem_map.mp hvalue
    obtain ⟨r, -, hget⟩ := List.mem_filterMap.mp hentry
    obtain ⟨v, hv, rfl⟩ := Option.map_eq_some_iff.mp hget
    simpa using (Option.filter_eq_some_iff.mp hv).2
  · intro entry hentry
    exact hall _ (List.mem_map_of_mem hentry)

/-- The activity of a record names the field the record is about. -/
theorem fields_named {record : Record} {activity : ActivityFields} {outcome : Outcome}
    (h : fields rt record = .ok (activity, outcome)) :
    (record.observation = .method → activity.method ≠ none) ∧
      (record.observation = .operationTarget → activity.target ≠ none) ∧
      (record.observation = .messageId → activity.messageId ≠ none) := by
  cases record with
  | method d =>
      cases h
      simp [Record.observation]
  | operationTarget d =>
      cases h
      simp [Record.observation]
  | messageId d flow =>
      simp only [fields] at h
      cases hvalue : messageIdField rt d with
      | error e =>
          rw [hvalue] at h
          contradiction
      | ok value =>
          rw [hvalue] at h
          cases h
          simp [Record.observation]
  | reply d =>
      cases h
      simp [Record.observation]
  | httpResponse d =>
      cases h
      simp [Record.observation]

/-- The row of a field is one of the group, of its side and its kind. -/
theorem fieldRow_spec {side : Nat} {kind : Observation} {r : FramedRow}
    (h : fieldRows rows side kind = [r]) :
    fieldRow rows side kind = some r ∧ r ∈ rows ∧ ¬r.Http ∧ r.frame.side = side ∧
      r.record.observation = kind := by
  have hmem : r ∈ fieldRows rows side kind := by
    rw [h]
    exact List.mem_singleton_self r
  simp only [fieldRows, List.mem_filter, mem_jsonRows, decide_eq_true_eq] at hmem
  refine ⟨?_, hmem.1.1, hmem.1.2, hmem.2⟩
  rw [fieldRow, h]
  rfl

/-- A field of the request that has no issue is complete. -/
theorem requestField_complete {kind : Observation} {issue : Issue} {value : ValueField}
    (hissues : requestIssues rows kind issue = []) (hvalue : requestField rows kind = some value) :
    value.status = "complete" ∧ value.textError = false := by
  simp only [requestIssues, hvalue, issue_eq_nil, not_or, not_not, Bool.not_eq_true] at hissues
  exact hissues

/-- The fields of the request are there. -/
theorem requestField_some {kind : Observation}
    (hfields : ∀ r ∈ rows,
      fields rt r.record = .ok (r.row.event.activity, r.row.event.reportedOutcome))
    (hkind : kind ∈ [Observation.method, .operationTarget, .messageId])
    (hone : ∃ r, fieldRows rows 1 kind = [r]) : ∃ value, requestField rows kind = some value := by
  obtain ⟨r, hr⟩ := hone
  obtain ⟨hrow, hmem, -, -, hobservation⟩ := fieldRow_spec hr
  obtain ⟨hmethod, htarget, hmessageId⟩ := fields_named (hfields r hmem)
  simp only [List.mem_cons, List.not_mem_nil, or_false] at hkind
  rcases hkind with rfl | rfl | rfl
  · obtain ⟨value, hvalue⟩ := Option.ne_none_iff_exists'.mp (hmethod hobservation)
    exact ⟨value, by rw [requestField, hrow, Option.bind_some]; exact hvalue⟩
  · obtain ⟨value, hvalue⟩ := Option.ne_none_iff_exists'.mp (htarget hobservation)
    exact ⟨value, by rw [requestField, hrow, Option.bind_some]; exact hvalue⟩
  · obtain ⟨value, hvalue⟩ := Option.ne_none_iff_exists'.mp (hmessageId hobservation)
    exact ⟨value, by rw [requestField, hrow, Option.bind_some]; exact hvalue⟩

/-- The identifier of a side is there. -/
theorem identifier_some {side : Nat}
    (hfields : ∀ r ∈ rows,
      fields rt r.record = .ok (r.row.event.activity, r.row.event.reportedOutcome))
    (hone : ∃ r, fieldRows rows side .messageId = [r]) :
    ∃ value, identifier rows side = some value := by
  obtain ⟨r, hr⟩ := hone
  obtain ⟨hrow, hmem, -, -, hobservation⟩ := fieldRow_spec hr
  obtain ⟨value, hvalue⟩ :=
    Option.ne_none_iff_exists'.mp ((fields_named (hfields r hmem)).2.2 hobservation)
  exact ⟨value, by rw [identifier, hrow, Option.bind_some]; exact hvalue⟩

/-- Rows without an issue are a complete exchange. -/
theorem complete_of_rowIssues
    (hfields : ∀ r ∈ rows,
      fields rt r.record = .ok (r.row.event.activity, r.row.event.reportedOutcome))
    (hstatuses : ∀ r ∈ rows, r.frame.status = 1)
    (hconfirmed : ∀ before r after, rows = before ++ r :: after → ¬r.Http → r.frame.side = 2 →
      ∃ k ∈ before, k.Confirms)
    (hissues : rowIssues rows = []) : CompleteExchange rows := by
  simp only [rowIssues, recordIssues, List.append_eq_nil_iff, issue_eq_nil, not_not, not_or]
    at hissues
  obtain ⟨⟨⟨⟨⟨⟨⟨⟨⟨⟨⟨⟨⟨⟨hside, hnodup⟩, hside₁⟩, hside₂⟩, hjson⟩, hhttp, hconfirms⟩, hmethod⟩, htarget⟩,
    hmessageId⟩, hids⟩, hreply⟩, hstatus⟩, htransfer⟩, hcomplete⟩, -⟩ := hissues
  have hsideIssues : ∀ side ∈ [1, 2], sideIssues rows side = [] := by
    intro side hmem
    rcases List.mem_pair.mp hmem with rfl | rfl
    · exact hside₁
    · exact hside₂
  have hone : ∀ side ∈ [1, 2], ∀ kind ∈ fieldKinds, ∃ r, fieldRows rows side kind = [r] :=
    fun side hmem kind hkind => fieldRows_eq_singleton hmem hkind hnodup (hsideIssues side hmem)
  have hcalls : ∀ side ∈ [1, 2], ∃ call ∈ callsOf rows side, ∀ b ∈ callsOf rows side, b = call := by
    intro side hmem
    have h := hsideIssues side hmem
    rw [sideIssues, List.append_eq_nil_iff, issue_eq_nil, not_not] at h
    exact all_eq_of_dedup h.1
  have hsides : ∀ r ∈ rows, ¬r.Http → r.frame.side = 1 ∨ r.frame.side = 2 := by
    intro r hr hjson
    by_contra hother
    apply hside
    rw [List.any_eq_true]
    exact ⟨r, mem_jsonRows.mpr ⟨hr, hjson⟩, by simpa using hother⟩
  exact {
    sides := hsides
    fields := hone
    statuses := hstatuses
    confirmed := hconfirmed
    confirmation := List.length_eq_one_iff.mp hconfirms
    invocations := by
      intro side hmem
      obtain ⟨call, -, hall⟩ := hcalls side hmem
      exact ⟨call, fun r hr hjson hside => hall _ (mem_callsOf.mpr ⟨r, hr, hjson, hside, rfl⟩)⟩
    jsonProducer := by
      obtain ⟨writer, -, hall⟩ := all_eq_of_dedup hjson
      refine ⟨writer, fun r hr hjson => hall _ (List.mem_map.mpr ⟨r.call, ?_, rfl⟩)⟩
      rw [List.mem_append, mem_callsOf, mem_callsOf]
      exact (hsides r hr hjson).imp (fun hside => ⟨r, hr, hjson, hside, rfl⟩)
        fun hside => ⟨r, hr, hjson, hside, rfl⟩
    httpProducer := by
      obtain ⟨writer, -, hall⟩ := all_eq_of_dedup hhttp
      exact ⟨writer, fun r hr hhttp => hall _ (List.mem_map_of_mem (mem_httpRows.mpr ⟨hr, hhttp⟩))⟩
    request := by
      intro kind hkind
      have hfield : kind ∈ fieldKinds := by
        simp only [List.mem_cons, List.not_mem_nil, or_false] at hkind
        rcases hkind with rfl | rfl | rfl <;> decide
      obtain ⟨value, hvalue⟩ :=
        requestField_some hfields hkind (hone 1 (by decide) kind hfield)
      simp only [List.mem_cons, List.not_mem_nil, or_false] at hkind
      rcases hkind with rfl | rfl | rfl
      · exact ⟨value, hvalue, requestField_complete hmethod hvalue⟩
      · exact ⟨value, hvalue, requestField_complete htarget hvalue⟩
      · exact ⟨value, hvalue, requestField_complete hmessageId hvalue⟩
    identifiers := by
      obtain ⟨a, ha⟩ := identifier_some hfields (hone 1 (by decide) .messageId (by decide))
      obtain ⟨b, hb⟩ := identifier_some hfields (hone 2 (by decide) .messageId (by decide))
      simp only [idIssues, ha, hb] at hids
      split at hids
      · contradiction
      · rename_i hcomplete
        rw [issue_eq_nil, not_not, Prod.mk.injEq] at hids
        rw [not_or, not_not, not_not] at hcomplete
        exact ⟨a, b, ha, hb, hcomplete.1, hcomplete.2, hids.1, hids.2⟩
    reply := by
      obtain ⟨r, hr⟩ := hone 2 (by decide) .reply (by decide)
      obtain ⟨hrow, -⟩ := fieldRow_spec hr
      rw [replyIssues, hrow] at hreply
      simp only [issue_eq_nil, not_not] at hreply
      rw [replyOutcome, hrow]
      exact hreply
    httpStatus := by
      rw [httpIssues, issue_eq_nil, not_or] at hcomplete
      exact completeValue hstatus hcomplete.1
    localTransferComplete := by
      rw [httpIssues, issue_eq_nil, not_or] at hcomplete
      exact completeValue htransfer hcomplete.2 }

end Content

/-! ## Observed exchanges -/

/-- A keyed row carries an exchange. -/
theorem exchange_ne_zero {r : FramedRow} {key : Key} (h : keyOf r = some key) :
    r.frame.exchange ≠ 0 := by
  intro hzero
  simp [keyOf, hzero] at h

/-- A phase-1 row of an exchange is a method of the client. -/
theorem ValidGroup.phase_one {record : Record} {frame : GroupFrame}
    (h : ValidGroup record frame) (hexchange : frame.exchange ≠ 0) (hphase : frame.phase = 1) :
    record.observation = .method ∧ frame.side = 1 := by
  have hrule := (h.2 hexchange).2
  rw [if_pos hphase] at hrule
  exact ⟨hrule.1, hrule.2.1⟩

/-- A phase-3 row of an exchange is an HTTP event of the client. -/
theorem ValidGroup.phase_three {record : Record} {frame : GroupFrame}
    (h : ValidGroup record frame) (hexchange : frame.exchange ≠ 0) (hphase : frame.phase = 3) :
    record.observation = .httpResponse ∧ frame.side = 1 ∧ record.code = some 29 := by
  have hrule := (h.2 hexchange).2
  rw [if_neg (by omega), if_pos hphase] at hrule
  exact ⟨hrule.1, hrule.2.1, hrule.2.2.1⟩

/-- The activity of a projected row is what its record says. -/
theorem framed_fields {rt : Runtime} {events : List ReplayRow} {rows : List Row}
    (hrows : events.mapM (projectRow rt) = .ok rows) {row : Row} (hmem : row ∈ rows)
    {r : FramedRow} (hframed : row.framed = some r) :
    fields rt r.record = .ok (r.row.event.activity, r.row.event.reportedOutcome) := by
  obtain ⟨i, hi⟩ := List.mem_iff_getElem?.mp hmem
  obtain ⟨stored, -, hstored⟩ := exists_of_mapM_getElem? hrows hi
  rw [projectRow] at hstored
  cases hevent : projectEvent rt stored.event with
  | error e =>
      rw [hevent] at hstored
      contradiction
  | ok event =>
      rw [hevent] at hstored
      have hevents : event = r.row.event := by
        rw [row_of_framed hframed, ← Except.ok.inj hstored]
      rw [hevents] at hevent
      obtain ⟨record, hqualified, hfields⟩ := projectEvent_activity hevent r.activity
      have hrecord : record = r.record := Option.some.inj (hqualified.held.symm.trans r.held)
      rw [← hrecord]
      exact hfields

/-- An exchange that is reported as observed was completely observed.  There is a
stretch of the stream such that

- no cursor is missing in it, every row after its first is a valid record without an
  output failure or says nothing of activities, and every producer numbers its rows
  without a gap or a repetition, also against what was known before it;
- its first row is a phase-1 method of the client, its last one a phase-3 event of
  the client, and the exchange was built from its rows of the exchange's key;
- these rows are complete: each side has one method, one target, one identifier and
  one reply of one call, the JSON records have one producer, exactly one HTTP
  confirmation precedes every row of the other side, the identifiers agree, and the
  reply, the HTTP status and the end of the transfer are complete. -/
theorem observed_exchange_complete (rt : Runtime) (capacity maxRecords : Nat)
    (pages : List Page) (out : List Output) (c : Combiner)
    (h : feedPages rt (.new capacity maxRecords) pages = .ok (out, c)) (x : Combined)
    (hx : .combined x ∈ out) (hobserved : x.status = .observedExchange) :
    ∃ rows before first window after opener sequences cursor group,
      (pages.flatMap Page.events).mapM (projectRow rt) = .ok rows ∧
      rows = before ++ (first :: window) ++ after ∧
      (∃ earlier, feedRows rt (.new capacity maxRecords) (before ++ [first]) =
        .ok (earlier, opener)) ∧
      Span rt opener.sequences first window sequences cursor ∧
      group = keyedRows x.key (first :: window) ∧
      (∃ r producer, group.head? = some r ∧ first.framed = some r ∧ r.frame.phase = 1 ∧
        r.frame.side = 1 ∧ r.record.observation = .method ∧ producerOf r = some producer ∧
        opener.sequences.get? producer = some r.record.sequence) ∧
      (∃ r, group.getLast? = some r ∧
        ((first :: window).getLast (by simp)).framed = some r ∧ r.frame.phase = 3 ∧
        r.frame.side = 1 ∧ r.Http ∧ r.record.code = some 29) ∧
      x.firstCursor = first.cursor ∧
      x.lastCursor = ((first :: window).getLast (by simp)).cursor ∧
      x.recordCount = group.length ∧
      CompleteExchange group ∧
      (replyOutcome group).status = x.reportedOutcome.status ∧
      (∃ value, x.reportedOutcome.httpStatus = some value ∧ value.status = "complete") ∧
      ∃ value, x.reportedOutcome.localTransferComplete = some value ∧
        value.status = "complete" := by
  obtain ⟨rows, hrows, hfed⟩ := feedPages_rows h
  obtain ⟨before, first, window, after, opener, g, hseen⟩ := (feedRows_open rfl hfed).2 x hx hobserved
  obtain ⟨sequences, cursor, hspan⟩ := hseen.whole
  obtain ⟨r₁, producer, hfirst, hkey₁, hphase₁, hvalid₁, hnumbered₁⟩ := hseen.since.opened
  obtain ⟨r₂, hlast, hframed₂, hphase₂, hvalid₂⟩ := hseen.ended
  have hgroup : g.rows = keyedRows x.key (first :: window) := hseen.since.rows
  have hissues : groupIssues g none = [] := by
    rw [hseen.finished] at hobserved
    simp only [finish] at hobserved
    by_contra hne
    rw [if_neg hne] at hobserved
    contradiction
  simp only [groupIssues, List.append_eq_nil_iff] at hissues
  have hhead : g.rows.head? = some r₁ := by
    rw [hgroup, keyedRows, List.filterMap_cons, hfirst, Option.filter_some, if_pos (by simp [hkey₁])]
    rfl
  have hkey₂ : keyOf r₂ = some x.key := by
    have hmem := List.mem_of_getLast? hlast
    rw [hgroup] at hmem
    obtain ⟨row, -, hrow⟩ := List.mem_filterMap.mp hmem
    simpa using (Option.filter_eq_some_iff.mp hrow).2
  have hfields : ∀ r ∈ g.rows,
      fields rt r.record = .ok (r.row.event.activity, r.row.event.reportedOutcome) := by
    intro r hr
    rw [hgroup] at hr
    obtain ⟨row, hrow, hframed⟩ := List.mem_filterMap.mp hr
    refine framed_fields hrows ?_ (Option.filter_eq_some_iff.mp hframed).1
    rw [hseen.split]
    exact List.mem_append_left _ (List.mem_append_right _ hrow)
  have hcomplete : CompleteExchange g.rows :=
    complete_of_rowIssues hfields (hseen.since.built.statuses hissues.1.1)
      (hseen.since.built.order hissues.1.1) hissues.2
  obtain ⟨hmethod, hside₁⟩ := hvalid₁.phase_one (exchange_ne_zero hkey₁) hphase₁
  obtain ⟨hhttp, hside₂, hcode⟩ := hvalid₂.phase_three (exchange_ne_zero hkey₂) hphase₂
  refine ⟨rows, before, first, window, after, opener, sequences, cursor, g.rows, hrows, hseen.split,
    hseen.reached, hspan, hgroup, ?_, ?_, ?_, ?_, ?_, hcomplete, ?_, ?_, ?_⟩
  · exact ⟨r₁, producer, hhead, hfirst, hphase₁, hside₁, hmethod, hnumbered₁,
      hseen.numbered r₁ producer hfirst hnumbered₁⟩
  · exact ⟨r₂, hlast, hframed₂, hphase₂, hside₂, hhttp, hcode⟩
  · rw [hseen.finished]
    exact hseen.since.begun
  · rw [hseen.finished, ← row_of_framed hframed₂]
    simp only [finish]
    rw [List.getLast?_eq_some_getLast g.nonempty] at hlast
    rw [Option.some.inj hlast]
  · rw [hseen.finished]
    rfl
  · rw [hseen.finished]
    rfl
  · obtain ⟨value, hvalue, hne, hall⟩ := hcomplete.httpStatus
    refine ⟨value, ?_, hvalue⟩
    rw [hseen.finished]
    simp only [finish]
    rw [List.getLast?_eq_some_getLast hne, Option.map_some, hall _ (List.getLast_mem hne)]
  · obtain ⟨value, hvalue, hne, hall⟩ := hcomplete.localTransferComplete
    refine ⟨value, ?_, hvalue⟩
    rw [hseen.finished]
    simp only [finish]
    rw [List.getLast?_eq_some_getLast hne, Option.map_some, hall _ (List.getLast_mem hne)]

/-- The identifier of a call, with the side of its flow. -/
def sampleId (cursor : String) (side call : Nat) : Sample :=
  let e := sampleString 0x4D534749 (4 * call - 1) 1
  { cursor, header := sampleHeader 144 side 2 call
    data := { e with magic := 0x4944464C, flags := 256 + 16 * side }.bytes
    record := .messageId (sampleDecoded e (some "string") "raw_json_string_bytes") (some {
      side := side
      sideName := some (if side = 1 then "clientside" else "serverside")
      status := 1
      statusName := "complete" }) }

/-- The reply of a call, complete on the server's side. -/
def sampleReply (cursor : String) (side call : Nat) : Sample :=
  let complete := side = 2
  let e : RpEvent := {
    magic := 0x52504C59
    abi := 1
    instanceId := 7
    revision := 1
    run := 1
    monotonicNs := 1000 + 4 * call
    sequence := 4 * call
    outputFailures := 0
    flags := 0
    reads := 1
    sourceBytes := 0
    status := if complete then 1 else 7
    resultPresent := if complete then 1 else 0
    errorPresent := 0
    codeState := 0
    errorCode := 0
    toolErrorState := if complete then 1 else 0
    toolError := 0
    reserved0 := 0
    reserved1 := 0 }
  { cursor, header := sampleHeader 104 side 2 call, data := e.bytes
    record := .reply {
      event := e
      statusName := if complete then "complete" else "unavailable"
      codeStateName := "not_applicable"
      toolErrorStateName := if complete then "complete" else "not_applicable" } }

/-- An HTTP event: the response has a status, its end a completion. -/
def sampleHttp (cursor : String) (phase sequence code : Nat) (name : String) : Sample :=
  let e : RmEvent := {
    magic := 0x5253504D
    abi := 1
    instanceId := 8
    revision := 1
    run := 1
    monotonicNs := 2000 + sequence
    sequence := sequence
    outputFailures := 0
    code := code
    presence := 0
    flags := 0
    reads := 0
    sourceBytes := 0
    httpStatusState := if code = 28 then 1 else 0
    httpStatus := if code = 28 then 200 else 0
    completionState := if code = 29 then 1 else 0
    transferComplete := if code = 29 then 1 else 0
    reserved := 0 }
  { cursor, header := sampleHeader 96 1 phase sequence, data := e.bytes
    record := .httpResponse {
      event := e
      clientTls := none
      httpStatusStateName := if code = 28 then "complete" else "not_applicable"
      completionStateName := if code = 29 then "complete" else "not_applicable"
      eventName := some name } }

/-- An exchange: the request, its confirmation, the reply, the HTTP status and the end
of the transfer. -/
def sampleExchange : List Sample :=
  [sampleMethod "a1:1" 1 1 1, sampleTarget "a1:2" 1 1, sampleId "a1:3" 1 1, sampleReply "a1:4" 1 1,
    sampleHttp "a1:5" 2 1 142 "HUDEVT_REQUEST",
    sampleMethod "a1:6" 2 2 2, sampleTarget "a1:7" 2 2, sampleId "a1:8" 2 2, sampleReply "a1:9" 2 2,
    sampleHttp "a1:10" 2 2 28 "HUDCTL_RESPONSE", sampleHttp "a1:11" 3 3 29 "HUDCTL_RESPONSE_DONE"]

/-- The records of the sample are decoded to what they say. -/
theorem sampleExchange_decoded : ∀ s ∈ sampleExchange,
    (decoders (magicOf s.data)).bind (fun decode => (decode s.data).toOption) = some s.record := by
  decide +kernel

/-- The headers of the sample. -/
theorem sampleExchange_headers : ∀ s ∈ sampleExchange, ∃ length side phase invocation,
    s.header = sampleHeader length side phase invocation ∧ length = s.data.length ∧
      length ∈ [96, 104, 144] ∧ side ∈ [1, 2] ∧ phase ∈ [1, 2, 3] ∧ invocation ∈ [1, 2, 3] := by
  simp only [sampleExchange, List.forall_mem_cons]
  refine ⟨?_, ?_, ?_, ?_, ?_, ?_, ?_, ?_, ?_, ?_, ?_, by simp⟩ <;>
    exact ⟨_, _, _, _, rfl, by decide +kernel, by decide, by decide, by decide, by decide⟩

/-- The sample is projected to its rows. -/
theorem sampleExchange_projected :
    (sampleExchange.map Sample.stored).mapM (projectRow sampleRuntime) =
      .ok (sampleExchange.map Sample.row) := by
  have hqualified : ∀ s ∈ sampleExchange, s.record.flags = 0 ∧ s.record.instanceId ≠ 0 ∧
      s.record.revision ≠ 0 ∧ s.record.run ≠ 0 ∧ s.record.sequence ≠ 0 := by
    decide +kernel
  have hnamed : ∀ s ∈ sampleExchange, (fields sampleRuntime s.record).toOption.isSome := by
    decide +kernel
  rw [List.mapM_map]
  apply mapM_eq_map
  intro s hs
  obtain ⟨length, side, phase, invocation, hheader, hdata, hlength, hside, hphase, hinvocation⟩ :=
    sampleExchange_headers s hs
  exact Sample.projected hheader hdata hlength hside hphase hinvocation
    (sampleExchange_decoded s hs) (hqualified s hs) (hnamed s hs)

/-- One page. -/
theorem feedPages_single {rt : Runtime} {c c' : Combiner} {page : Page} {out : List Output}
    (h : feed rt c page = .ok (out, c')) : feedPages rt c [page] = .ok (out, c') := by
  simp only [feedPages, h, bind, Except.bind, List.append_nil]

/-- Whether an output is an observed exchange. -/
def Output.isObserved : Output → Bool
  | .event _ => false
  | .combined x => x.status = .observedExchange

/-- A run whose outputs have an observed exchange. -/
theorem exists_observed {result : Except String (List Output × Combiner)}
    (h : result.toOption.any fun r => r.1.any Output.isObserved) :
    ∃ out c x, result = .ok (out, c) ∧ .combined x ∈ out ∧ x.status = .observedExchange := by
  cases result with
  | error e => simp [Except.toOption] at h
  | ok r =>
      obtain ⟨o, ho, hstatus⟩ := List.any_eq_true.mp h
      cases o with
      | event e => contradiction
      | combined x => exact ⟨r.1, r.2, x, rfl, ho, by simpa [Output.isObserved] using hstatus⟩

theorem sampleExchange_observed :
    ((feedRows sampleRuntime (.new 2 16) (sampleExchange.map Sample.row)).toOption.any fun r =>
      r.1.any Output.isObserved) = true := by
  decide +kernel

/-- The sample exchange is observed. -/
theorem observed_exchange_complete_sample :
    ∃ out c x, feedPages sampleRuntime (.new 2 16)
        [samplePage (sampleExchange.map Sample.stored)] = .ok (out, c) ∧
      .combined x ∈ out ∧ x.status = .observedExchange ∧
      ∃ group, CompleteExchange group ∧ group.length = x.recordCount := by
  obtain ⟨out, c, x, hfed, hmem, hstatus⟩ := exists_observed sampleExchange_observed
  have hpages := feedPages_single
    ((feed_samplePage (by simp [sampleExchange]) sampleExchange_projected _).trans hfed)
  obtain ⟨_, _, _, _, _, _, _, _, group, _, _, _, _, _, _, _, _, _, hrecords, hcomplete, _⟩ :=
    observed_exchange_complete sampleRuntime 2 16 _ out c hpages x hmem hstatus
  exact ⟨out, c, x, hpages, hmem, hstatus, group, hcomplete, hrecords.symm⟩

end Activity
end LiveSurface
