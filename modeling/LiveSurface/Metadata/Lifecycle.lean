import LiveSurface.Lifetime.State
import LiveSurface.Map.Typed
import LiveSurface.Metadata.Boundary

/-!
# Boundary runs

The three boundary programs share a row of counters and a table with one row for each storage
address.  An address gets the next tag when a handler or the end of a message is first seen at
it; a reset reports the tag that its address has, if it has one.

Main results:

- Definition {lit}`jsonLifecycle`: one call on the shared tables.
- Theorem {lit}`jsonLifecycle_spec`: a call keeps the tags of a run apart and emits a record
  that decodes.
- Theorem {lit}`law_of_reachable`: what holds in every run.
-/

namespace LiveSurface
namespace Metadata

open Map
open Lifetime (quadBytes quadWords zeroKey keyBytes length_quadBytes quadWords_quadBytes
  length_zeroKey length_keyBytes keyBytes_injective)

/-! ## Tables -/

/-- {lit}`struct jl_state`. -/
structure JlState where
  run : UInt64
  calls : UInt64
  tags : UInt64
  failures : UInt64
deriving DecidableEq

/-- {lit}`struct jl_object`. -/
structure JlObject where
  run : UInt64
  tag : UInt64
  seen : UInt64
  reserved : UInt64
deriving DecidableEq

/-- The row of {lit}`json_boundary_state`. -/
def jlStateLayout : RowLayout Unit JlState where
  key _ := zeroKey
  row s := quadBytes s.run s.calls s.tags s.failures
  ofRow row := {
    run := (quadWords row).getD 0 0
    calls := (quadWords row).getD 1 0
    tags := (quadWords row).getD 2 0
    failures := (quadWords row).getD 3 0 }
  keySz := 4
  valSz := 32
  length_key _ := length_zeroKey
  length_row _ := length_quadBytes _ _ _ _
  key_injective _ _ _ := rfl
  ofRow_row s := by
    simp only [quadWords_quadBytes]
    rfl

/-- The rows of {lit}`json_boundary_objects`. -/
def jlObjectLayout : RowLayout UInt64 JlObject where
  key := keyBytes
  row x := quadBytes x.run x.tag x.seen x.reserved
  ofRow row := {
    run := (quadWords row).getD 0 0
    tag := (quadWords row).getD 1 0
    seen := (quadWords row).getD 2 0
    reserved := (quadWords row).getD 3 0 }
  keySz := 8
  valSz := 32
  length_key := length_keyBytes
  length_row _ := length_quadBytes _ _ _ _
  key_injective _ _ := keyBytes_injective
  ofRow_row x := by
    simp only [quadWords_quadBytes]
    rfl

/-- {lit}`json_boundary_state`. -/
def jsonBoundaryState : LsMapDef where
  type := lsMapTypeHash
  keySize := 4
  valueSize := 32
  maxEntries := 1
  mapFlags := 0

/-- {lit}`json_boundary_objects`. -/
def jsonBoundaryObjects : LsMapDef where
  type := lsMapTypeHash
  keySize := 8
  valueSize := 32
  maxEntries := 128
  mapFlags := 0

/-- The tables that the three programs share on one thread. -/
structure JlMaps where
  state : LsMap
  objects : LsMap

/-- The tables before the first call. -/
def JlMaps.empty : JlMaps where
  state := mapOfDescriptor jsonBoundaryState
  objects := mapOfDescriptor jsonBoundaryObjects

namespace TableOutcome

variable (o : TableOutcome) (m : LsMap) (key : List UInt8)

/-- The lookup of a call. -/
def find : Option Nat × LsMap := if o.answers then lsMapLookup m key else (none, m)

/-- The update of a call. -/
def put (row : List UInt8) : Bool × LsMap :=
  if o.answers ∧ o.stored then lsMapUpdate m key row else (false, m)

/-- The lookup after an update. -/
def findAgain : Option Nat × LsMap := if o.again then lsMapLookup m key else (none, m)

end TableOutcome

/-! ## The call -/

/-- The counters at a pointer. -/
def jlStateAt (m : LsMap) (off : Nat) : JlState := jlStateLayout.ofRow (rowOf m off)

/-- The object at a pointer. -/
def jlObjectAt (m : LsMap) (off : Nat) : JlObject := jlObjectLayout.ofRow (rowOf m off)

/-- The tables with other counters at a pointer. -/
def JlMaps.setState (maps : JlMaps) (off : Nat) (s : JlState) : JlMaps :=
  { maps with state := setRow maps.state off (jlStateLayout.row s) }

/-- The tables with another object at a pointer. -/
def JlMaps.setObject (maps : JlMaps) (off : Nat) (x : JlObject) : JlMaps :=
  { maps with objects := setRow maps.objects off (jlObjectLayout.row x) }

/-- A record whose map failed. -/
def JlEvent.mapFailed (e : JlEvent) : JlEvent := { e with flags := e.flags ||| 2, status := 8 }

namespace JlCall

variable (call : JlCall) (run : UInt64)

/-- The record of a call with its configuration. -/
def configured (head : CfgMeta) : JlEvent :=
  { call.blank with
    instanceId := head.instanceId.toNat
    revision := head.revision.toNat
    run := run.toNat }

/-- The counters' pointer, with new counters where there are none. -/
def openState (m : LsMap) : Option Nat × LsMap :=
  match call.state.find m zeroKey with
  | (some off, m) => (some off, m)
  | (none, m) =>
      match call.state.put m zeroKey
        (jlStateLayout.row { run, calls := 0, tags := 0, failures := 0 }) with
      | (false, m) => (none, m)
      | (true, m) => call.state.findAgain m zeroKey

/-- The call marks the object of its storage and reports the tag. -/
def markObject (off : Nat) (e : JlEvent) (maps : JlMaps) : JlEvent × JlMaps :=
  let object := jlObjectAt maps.objects off
  if object.run = run then
    let object := { object with seen := object.seen ||| call.seen }
    ({ e with contextTag := object.tag.toNat, seenMask := object.seen.toNat % 2 ^ 32 },
      maps.setObject off object)
  else (e, maps)

/-- The call gives its storage the next tag. -/
def newObject (key : UInt64) (counters : Nat) (e : JlEvent) (maps : JlMaps) : JlEvent × JlMaps :=
  let s := jlStateAt maps.state counters
  if s.tags ≥ 128 then ({ e with status := 6 }, maps)
  else
    let s := { s with tags := s.tags + 1 }
    let maps := maps.setState counters s
    match call.objects.put maps.objects (keyBytes key)
      (jlObjectLayout.row { run, tag := s.tags, seen := 0, reserved := 0 }) with
    | (false, objects) => (e.mapFailed, { maps with objects })
    | (true, objects) =>
        match call.objects.findAgain objects (keyBytes key) with
        | (none, objects) => (e.mapFailed, { maps with objects })
        | (some off, objects) => call.markObject run off e { maps with objects }

/-- The call with its storage. -/
def onStorage (key : UInt64) (counters : Nat) (e : JlEvent) (maps : JlMaps) : JlEvent × JlMaps :=
  match call.objects.find maps.objects (keyBytes key) with
  | (some off, objects) => call.markObject run off e { maps with objects }
  | (none, objects) =>
      if call.kind = .reset then (e, { maps with objects })
      else call.newObject run key counters e { maps with objects }

/-- The call with its counters. -/
def counted (counters : Nat) (e : JlEvent) (maps : JlMaps) : JlEvent × JlMaps :=
  let s := jlStateAt maps.state counters
  let e := { e with outputFailures := s.failures.toNat }
  if s.run ≠ run then ({ e with status := 9 }, maps)
  else if s.calls = 0xffffffffffffffff then ({ e with flags := e.flags ||| 4, status := 7 }, maps)
  else
    let s := { s with calls := s.calls + 1 }
    let maps := maps.setState counters s
    match call.context { e with sequence := s.calls.toNat } with
    | (none, e) => (e, maps)
    | (some key, e) => call.onStorage run key counters e maps

/-- The output of a call. -/
def output (counters : Nat) (maps : JlMaps) : JlMaps :=
  let s := jlStateAt maps.state counters
  if call.emitted = false ∧ s.failures ≠ 0xffffffffffffffff then
    maps.setState counters { s with failures := s.failures + 1 }
  else maps

end JlCall

/-- {lit}`json_lifecycle`: the record that a call emits, and the tables after it. -/
def jsonLifecycle (call : JlCall) (maps : JlMaps) : JlEvent × JlMaps :=
  match call.config.accepted with
  | none => ({ call.blank with flags := call.blank.flags ||| 1 }, maps)
  | some (head, row) =>
      let e := call.configured (row 0) head
      match call.openState (row 0) maps.state with
      | (none, state) => (e.mapFailed, { maps with state })
      | (some counters, state) =>
          let (e, maps) := call.counted (row 0) counters e { maps with state }
          (e, call.output counters maps)

/-! ## The tables of a run -/

/-- What the two tables hold, with no row evicted. -/
structure JlMaps.Holds (maps : JlMaps) (c : Option JlState) (o : UInt64 → Option JlObject) : Prop where
  state : Table jlStateLayout 1 maps.state fun _ => c
  objects : Table jlObjectLayout 128 maps.objects o
  stateKept : maps.state.evictions = 0
  objectsKept : maps.objects.evictions = 0

/-- The tags of a run: at most 128, each at one address, and no address without one. -/
structure Tags (s : JlState) (o : UInt64 → Option JlObject) : Prop where
  tags : s.tags.toNat ≤ 128
  row : ∀ a x, o a = some x → x.run = s.run ∧ 0 < x.tag.toNat ∧ x.tag.toNat ≤ s.tags.toNat ∧
    x.seen.toNat < 2 ^ 4
  apart : ∀ a b x y, o a = some x → o b = some y → x.tag = y.tag → a = b
  few : ∃ known : Finset UInt64, (∀ a, o a ≠ none → a ∈ known) ∧ known.card ≤ s.tags.toNat

/-- Every address keeps its tag. -/
def Grows (o o' : UInt64 → Option JlObject) : Prop :=
  ∀ a x, o a = some x → ∃ y, o' a = some y ∧ y.tag = x.tag

/-- The tag that a record reports is the tag of the address. -/
def Reports (o : UInt64 → Option JlObject) (a : UInt64) (e : JlEvent) : Prop :=
  e.contextTag ≠ 0 → ∃ x, o a = some x ∧ x.tag.toNat = e.contextTag

theorem Grows.refl (o : UInt64 → Option JlObject) : Grows o o := fun _ x hx => ⟨x, hx, rfl⟩

theorem Grows.trans {o o' o'' : UInt64 → Option JlObject} (h : Grows o o') (h' : Grows o' o'') :
    Grows o o'' := by
  intro a x hx
  obtain ⟨y, hy, hxy⟩ := h a x hx
  obtain ⟨z, hz, hyz⟩ := h' a y hy
  exact ⟨z, hz, hyz.trans hxy⟩

theorem Reports.grows {o o' : UInt64 → Option JlObject} {a : UInt64} {e : JlEvent}
    (h : Reports o a e) (hgrows : Grows o o') : Reports o' a e := by
  intro htag
  obtain ⟨x, hx, hxtag⟩ := h htag
  obtain ⟨y, hy, hyx⟩ := hgrows a x hx
  exact ⟨y, hy, hyx ▸ hxtag⟩

theorem reports_of_zero {o : UInt64 → Option JlObject} {a : UInt64} {e : JlEvent}
    (h : e.contextTag = 0) : Reports o a e := fun htag => (htag h).elim

section Tags

variable {s : JlState} {o : UInt64 → Option JlObject} {a : UInt64} {x : JlObject}

/-- The tags of a run do not depend on its other counters. -/
theorem Tags.counters {s' : JlState} (h : Tags s o) (hrun : s'.run = s.run) (htags : s'.tags = s.tags) :
    Tags s' o := by
  refine ⟨htags ▸ h.tags, ?_, h.apart, htags ▸ h.few⟩
  rw [hrun, htags]
  exact h.row

/-- An address with other marks. -/
theorem Tags.mark {marks : UInt64} (h : Tags s o) (ha : o a = some x) (hmarks : marks.toNat < 2 ^ 4) :
    Tags s (Function.update o a (some { x with seen := marks })) ∧
      Grows o (Function.update o a (some { x with seen := marks })) := by
  -- Every address has the tag that it had.
  have hback : ∀ b y, Function.update o a (some { x with seen := marks }) b = some y →
      ∃ z, o b = some z ∧ z.tag = y.tag ∧ z.run = y.run ∧ y.seen.toNat < 2 ^ 4 := by
    intro b y hy
    by_cases hb : b = a
    · rw [hb, Function.update_self] at hy
      rw [hb, ← Option.some.inj hy]
      exact ⟨x, ha, rfl, rfl, hmarks⟩
    · rw [Function.update_of_ne hb] at hy
      exact ⟨y, hy, rfl, rfl, (h.row b y hy).2.2.2⟩
  refine ⟨⟨h.tags, fun b y hy => ?_, fun b d y z hy hz hyz => ?_, ?_⟩, fun b y hy => ?_⟩
  · obtain ⟨z, hz, htag, hrun, hseen⟩ := hback b y hy
    rw [← htag, ← hrun]
    obtain ⟨h₁, h₂, h₃, -⟩ := h.row b z hz
    exact ⟨h₁, h₂, h₃, hseen⟩
  · obtain ⟨y', hy', htag, -⟩ := hback b y hy
    obtain ⟨z', hz', htag', -⟩ := hback d z hz
    exact h.apart b d y' z' hy' hz' (htag.trans (hyz.trans htag'.symm))
  · obtain ⟨known, hknown, hcard⟩ := h.few
    refine ⟨known, fun b hb => ?_, hcard⟩
    obtain ⟨y, hy⟩ := Option.ne_none_iff_exists'.mp hb
    obtain ⟨z, hz, -⟩ := hback b y hy
    refine hknown b ?_
    rw [hz]
    exact Option.some_ne_none z
  · by_cases hb : b = a
    · rw [hb, ha] at hy
      rw [hb, Function.update_self]
      refine ⟨_, rfl, ?_⟩
      rw [← Option.some.inj hy]
    · exact ⟨y, by rw [Function.update_of_ne hb]; exact hy, rfl⟩

theorem toNat_next {n : UInt64} (h : n.toNat < 128) : (n + 1).toNat = n.toNat + 1 := by
  rw [UInt64.toNat_add, UInt64.toNat_one]
  omega

/-- The next tag, whether its row is stored or not. -/
theorem Tags.skip (h : Tags s o) (hlt : s.tags.toNat < 128) :
    Tags { s with tags := s.tags + 1 } o := by
  have hnext := toNat_next hlt
  obtain ⟨known, hknown, hcard⟩ := h.few
  refine ⟨?_, fun b y hy => ?_, h.apart, known, hknown, ?_⟩
  · change (s.tags + 1).toNat ≤ 128
    omega
  · obtain ⟨h₁, h₂, h₃, h₄⟩ := h.row b y hy
    refine ⟨h₁, h₂, ?_, h₄⟩
    change y.tag.toNat ≤ (s.tags + 1).toNat
    omega
  · change known.card ≤ (s.tags + 1).toNat
    omega

/-- A new address gets the next tag. -/
theorem Tags.add (h : Tags s o) (ha : o a = none) (hlt : s.tags.toNat < 128) :
    Tags { s with tags := s.tags + 1 }
      (Function.update o a (some { run := s.run, tag := s.tags + 1, seen := 0, reserved := 0 })) ∧
      Grows o
        (Function.update o a (some { run := s.run, tag := s.tags + 1, seen := 0, reserved := 0 })) := by
  have hnext := toNat_next hlt
  have hskip := h.skip hlt
  generalize hx : ({ run := s.run, tag := s.tags + 1, seen := 0, reserved := 0 } : JlObject) = x
  have hxtag : x.tag = s.tags + 1 := by rw [← hx]
  -- No address had the next tag.
  have hnew : ∀ b y, o b = some y → y.tag ≠ x.tag := by
    intro b y hy htag
    have hle := (h.row b y hy).2.2.1
    rw [htag, hxtag] at hle
    omega
  refine ⟨⟨hskip.tags, fun b y hy => ?_, fun b d y z hy hz hyz => ?_, ?_⟩, fun b y hy => ?_⟩
  · by_cases hb : b = a
    · rw [hb, Function.update_self] at hy
      rw [← Option.some.inj hy, ← hx]
      have hseen : (0 : UInt64).toNat < 2 ^ 4 := by decide
      refine ⟨rfl, ?_, Nat.le_refl _, hseen⟩
      change 0 < (s.tags + 1).toNat
      omega
    · rw [Function.update_of_ne hb] at hy
      exact hskip.row b y hy
  · by_cases hb : b = a
    · by_cases hd : d = a
      · rw [hb, hd]
      · rw [hb, Function.update_self] at hy
        rw [Function.update_of_ne hd] at hz
        rw [← Option.some.inj hy] at hyz
        exact (hnew d z hz hyz.symm).elim
    · rw [Function.update_of_ne hb] at hy
      by_cases hd : d = a
      · rw [hd, Function.update_self] at hz
        rw [← Option.some.inj hz] at hyz
        exact (hnew b y hy hyz).elim
      · rw [Function.update_of_ne hd] at hz
        exact h.apart b d y z hy hz hyz
  · obtain ⟨known, hknown, hcard⟩ := h.few
    refine ⟨insert a known, fun b hb => ?_, ?_⟩
    · by_cases hba : b = a
      · rw [hba]
        exact Finset.mem_insert_self a known
      · rw [Function.update_of_ne hba] at hb
        exact Finset.mem_insert_of_mem (hknown b hb)
    · have hinsert := Finset.card_insert_le a known
      change (insert a known).card ≤ (s.tags + 1).toNat
      omega
  · by_cases hb : b = a
    · rw [hb, ha] at hy
      exact (Option.some_ne_none y hy.symm).elim
    · exact ⟨y, by rw [Function.update_of_ne hb]; exact hy, rfl⟩

end Tags

/-! ## What a call does -/

section Uses

variable {κ α : Type} {l : RowLayout κ α} {entries : Nat} {m : LsMap} {o : κ → Option α}

/-- A lookup keeps what a table holds, and finds a row unless there is none or the table does
not answer. -/
theorem find_spec (outcome : TableOutcome) (h : Table l entries m o) (k : κ) :
    ∃ found m', outcome.find m (l.key k) = (found, m') ∧ Table l entries m' o ∧
      m'.evictions = m.evictions ∧
      (found = none ∧ (o k = none ∨ outcome.answers = false) ∨
        ∃ off x, found = some off ∧ o k = some x ∧ RowAt m' (l.key k) off) := by
  unfold TableOutcome.find
  cases hanswers : outcome.answers with
  | false => exact ⟨none, m, rfl, h, rfl, Or.inl ⟨rfl, Or.inr rfl⟩⟩
  | true =>
      rw [if_pos rfl]
      cases hk : o k with
      | none =>
          obtain ⟨m', hlookup, htable, hkept⟩ := h.lookup_none hk
          exact ⟨none, m', hlookup, htable, hkept, Or.inl ⟨rfl, Or.inl rfl⟩⟩
      | some x =>
          obtain ⟨off, m', hlookup, htable, hkept, hoff, -⟩ := h.lookup_some hk
          exact ⟨some off, m', hlookup, htable, hkept, Or.inr ⟨off, x, rfl, rfl, hoff⟩⟩

/-- The lookup after an update. -/
theorem findAgain_spec (outcome : TableOutcome) (h : Table l entries m o) (k : κ) :
    ∃ found m', outcome.findAgain m (l.key k) = (found, m') ∧ Table l entries m' o ∧
      m'.evictions = m.evictions ∧
      (found = none ∨ ∃ off x, found = some off ∧ o k = some x ∧ RowAt m' (l.key k) off) := by
  obtain ⟨found, m', hfind, htable, hkept, hfound⟩ :=
    find_spec { outcome with answers := outcome.again } h k
  exact ⟨found, m', hfind, htable, hkept, hfound.imp_left fun hnone => hnone.1⟩

/-- An update of a table with a free cell stores the row, or is refused. -/
theorem put_spec [DecidableEq κ] (outcome : TableOutcome) (h : Table l entries m o) (k : κ) (x : α)
    (hroom : usedCells m < entries) : ∃ stored m', outcome.put m (l.key k) (l.row x) = (stored, m') ∧
      m'.evictions = m.evictions ∧ (stored = false ∧ Table l entries m' o ∨
        stored = true ∧ outcome.answers = true ∧
          Table l entries m' (Function.update o k (some x))) := by
  unfold TableOutcome.put
  split
  case isTrue hopen =>
    obtain ⟨m', hput, htable, hkept⟩ := h.put hroom x
    exact ⟨true, m', hput, hkept, Or.inr ⟨rfl, hopen.1, htable⟩⟩
  case isFalse => exact ⟨false, m, rfl, rfl, Or.inl ⟨rfl, h⟩⟩

end Uses

/-- What a call did with its counters and its storage. -/
def Served (call : JlCall) (counters : Nat) (o : UInt64 → Option JlObject) (r : JlEvent × JlMaps) :
    Prop :=
  ∃ s' o', r.2.Holds (some s') o' ∧ Tags s' o' ∧ Grows o o' ∧ r.1.Sound ∧
    Reports o' call.address r.1 ∧ RowAt r.2.state zeroKey counters

section Call

variable {call : JlCall} {run : UInt64} {counters : Nat} {e : JlEvent} {maps : JlMaps} {s : JlState}
  {o : UInt64 → Option JlObject}

theorem JlMaps.Holds.jlStateAt (h : maps.Holds (some s) o) (hat : RowAt maps.state zeroKey counters) :
    jlStateAt maps.state counters = s :=
  h.state.ofRow_eq (k := ()) hat rfl

/-- Other counters at the pointer. -/
theorem JlMaps.Holds.setState (h : maps.Holds (some s) o) (hat : RowAt maps.state zeroKey counters)
    (s' : JlState) : (maps.setState counters s').Holds (some s') o ∧
      RowAt (maps.setState counters s').state zeroKey counters := by
  obtain ⟨htable, hkept, hat'⟩ := h.state.set (k := ()) hat s'
  have hrow : Function.update (fun _ : Unit => some s) () (some s') = fun _ => some s' := by
    funext u
    exact Function.update_self u (some s') (fun _ => some s)
  rw [hrow] at htable
  exact ⟨⟨htable, h.objects, hkept.trans h.stateKept, h.objectsKept⟩, hat'⟩

/-- Other contents of the table of objects. -/
theorem JlMaps.Holds.setObjects {o' : UInt64 → Option JlObject} {objects : LsMap}
    (h : maps.Holds (some s) o) (htable : Table jlObjectLayout 128 objects o')
    (hkept : objects.evictions = maps.objects.evictions) :
    ({ maps with objects } : JlMaps).Holds (some s) o' :=
  ⟨h.state, htable, h.stateKept, hkept.trans h.objectsKept⟩

/-- A record that did not get a tag serves its call. -/
theorem served_untagged {s' : JlState} {o' : UInt64 → Option JlObject} (h : maps.Holds (some s') o')
    (htags : Tags s' o') (hgrows : Grows o o') (he : e.Sound) (hzero : e.contextTag = 0)
    (hat : RowAt maps.state zeroKey counters) : Served call counters o (e, maps) :=
  ⟨s', o', h, htags, hgrows, he, reports_of_zero hzero, hat⟩

theorem JlEvent.Sound.status {status : Nat} (h : e.Sound) (hle : status ≤ 9)
    (hne : status ≠ 1 ∧ status ≠ 5) : ({ e with status } : JlEvent).Sound :=
  ⟨{ h.head with }, { h.source with }, ⟨hle, fun hbad => (hbad.elim hne.1 hne.2).elim⟩, h.tag, h.seen⟩

theorem JlEvent.Head.orFlags {n : Nat} (h : e.Head) (hn : n < 2 ^ 4) :
    ({ e with flags := e.flags ||| n } : JlEvent).Head := by
  have hflags := h.flags
  have hor := Nat.or_lt_two_pow (show e.flags < 2 ^ 4 by omega) hn
  exact { h with flags := show e.flags ||| n ≤ 15 by omega }

theorem JlEvent.Sound.mapFailed (h : e.Sound) : e.mapFailed.Sound := by
  have hflags : ({ e with flags := e.flags ||| 2 } : JlEvent).Sound :=
    ⟨h.head.orFlags (by decide), { h.source with }, { h.stated with }, h.tag, h.seen⟩
  exact hflags.status (by decide) (by decide)

theorem JlCall.seen_lt (call : JlCall) : call.seen.toNat < 2 ^ 4 := by
  unfold JlCall.seen
  cases call.kind with
  | handler =>
      dsimp only
      split
      · decide
      · split <;> decide
  | complete => exact (by decide : (2 : UInt64).toNat < 2 ^ 4)
  | reset => exact (by decide : (4 : UInt64).toNat < 2 ^ 4)

/-- The call marks the object of its storage. -/
theorem markObject_spec {off : Nat} {x : JlObject} (h : maps.Holds (some s) o) (htags : Tags s o)
    (hx : o call.address = some x) (hoff : RowAt maps.objects (keyBytes call.address) off)
    (he : e.Sound) (hzero : e.contextTag = 0) (hat : RowAt maps.state zeroKey counters) :
    Served call counters o (call.markObject run off e maps) := by
  have hobject : jlObjectAt maps.objects off = x := h.objects.ofRow_eq hoff hx
  obtain ⟨hrun, hpos, hle, hseen⟩ := htags.row _ x hx
  unfold JlCall.markObject
  rw [hobject]
  dsimp only
  split
  · have hmarks : (x.seen ||| call.seen).toNat < 2 ^ 4 := by
      rw [UInt64.toNat_or]
      exact Nat.or_lt_two_pow hseen call.seen_lt
    obtain ⟨htable, hkept, -⟩ := h.objects.set hoff { x with seen := x.seen ||| call.seen }
    obtain ⟨htags', hgrows⟩ := htags.mark hx hmarks
    refine ⟨s, _, h.setObjects htable hkept, htags', hgrows, ?_, fun _ => ?_, hat⟩
    · refine ⟨{ he.head with }, { he.source with }, { he.stated with }, ?_, ?_⟩
      · exact hle.trans htags.tags
      · change (x.seen ||| call.seen).toNat % 2 ^ 32 ≤ 15
        omega
    · exact ⟨_, Function.update_self _ _ _, rfl⟩
  · exact served_untagged h htags (Grows.refl o) he hzero hat

/-- The call gives its storage the next tag. -/
theorem newObject_spec (h : maps.Holds (some s) o) (htags : Tags s o) (hrun : s.run = run)
    (hnone : o call.address = none ∨ call.objects.answers = false) (he : e.Sound)
    (hzero : e.contextTag = 0) (hat : RowAt maps.state zeroKey counters) :
    Served call counters o (call.newObject run call.address counters e maps) := by
  unfold JlCall.newObject
  rw [h.jlStateAt hat]
  dsimp only
  split
  · exact served_untagged h htags (Grows.refl o) (he.status (by decide) (by decide)) hzero hat
  rename_i hfew
  have hlt : s.tags.toNat < 128 := UInt64.lt_iff_toNat_lt.mp (UInt64.not_le.mp hfew)
  obtain ⟨h', hat'⟩ := h.setState hat { s with tags := s.tags + 1 }
  have hroom : usedCells (maps.setState counters { s with tags := s.tags + 1 }).objects < 128 := by
    obtain ⟨known, hknown, hcard⟩ := htags.few
    exact h'.objects.usedCells_lt hknown (by omega)
  obtain ⟨stored, objects, hput, hkept, hstored⟩ := put_spec call.objects h'.objects call.address
    { run, tag := s.tags + 1, seen := 0, reserved := 0 } hroom
  have hput' : call.objects.put (maps.setState counters { s with tags := s.tags + 1 }).objects
    (keyBytes call.address) (jlObjectLayout.row { run, tag := s.tags + 1, seen := 0, reserved := 0 }) =
      (stored, objects) := hput
  rw [hput']
  rcases hstored with ⟨rfl, htable⟩ | ⟨rfl, hanswers, htable⟩
  · -- The tag is spent, but no row has it.
    exact served_untagged (h'.setObjects htable hkept) (htags.skip hlt) (Grows.refl o) he.mapFailed
      hzero hat'
  have hfree : o call.address = none := hnone.resolve_right (by rw [hanswers]; decide)
  rw [← hrun] at htable
  obtain ⟨htags', hgrows⟩ := htags.add hfree hlt
  have hmaps := h'.setObjects htable hkept
  obtain ⟨found, objects', hagain, htable', hkept', hfound⟩ :=
    findAgain_spec call.objects htable call.address
  have hagain' : call.objects.findAgain objects (keyBytes call.address) = (found, objects') := hagain
  dsimp only
  rw [hagain']
  have hmaps' := hmaps.setObjects htable' hkept'
  rcases hfound with rfl | ⟨off, x, rfl, hx, hoff⟩
  · exact served_untagged hmaps' htags' hgrows he.mapFailed hzero hat'
  · have hserved : Served call counters _ (call.markObject run off e _) :=
      markObject_spec hmaps' htags' hx hoff he hzero hat'
    obtain ⟨s'', o'', h₁, h₂, h₃, h₄⟩ := hserved
    exact ⟨s'', o'', h₁, h₂, hgrows.trans h₃, h₄⟩

/-- The call with its storage. -/
theorem onStorage_spec (h : maps.Holds (some s) o) (htags : Tags s o) (hrun : s.run = run)
    (he : e.Sound) (hzero : e.contextTag = 0) (hat : RowAt maps.state zeroKey counters) :
    Served call counters o (call.onStorage run call.address counters e maps) := by
  obtain ⟨found, objects, hfind, htable, hkept, hfound⟩ :=
    find_spec call.objects h.objects call.address
  have hfind' : call.objects.find maps.objects (keyBytes call.address) = (found, objects) := hfind
  have hmaps := h.setObjects htable hkept
  unfold JlCall.onStorage
  rw [hfind']
  rcases hfound with ⟨rfl, hnone⟩ | ⟨off, x, rfl, hx, hoff⟩
  · dsimp only
    split
    · exact served_untagged hmaps htags (Grows.refl o) he hzero hat
    · exact newObject_spec hmaps htags hrun hnone he hzero hat
  · exact markObject_spec hmaps htags hx hoff he hzero hat

/-- The record of a call with its configuration and its counters. -/
theorem fresh_configured (head : CfgMeta) (sequence failures : UInt64) :
    ({ call.configured run head with
      sequence := sequence.toNat
      outputFailures := failures.toNat } : JlEvent).Fresh := by
  refine ⟨⟨rfl, rfl, ⟨UInt64.toNat_lt _, UInt64.toNat_lt _, UInt64.toNat_lt _, UInt64.toNat_lt _,
    UInt64.toNat_lt _, UInt64.toNat_lt _⟩, ?_, ?_, ?_, ?_, rfl⟩, rfl, rfl, rfl, rfl, rfl, rfl, rfl⟩
  · change call.kind.code = 1 ∨ call.kind.code = 2 ∨ call.kind.code = 3
    cases call.kind <;> decide
  · change call.code < 2 ^ 32
    unfold JlCall.code
    split
    · exact Nat.mod_lt _ (by decide)
    · decide
  · change call.kind.code = 3 → call.code = 0
    unfold JlCall.code
    cases call.kind with
    | handler => exact fun h => absurd h (by decide)
    | complete => exact fun _ => rfl
    | reset => exact fun _ => rfl
  · change (if call.clock = 0 then 8 else 0) ≤ 15
    split <;> decide

theorem JlRead.sound {b : JlEvent} (h : JlRead b e) (htag : b.contextTag = 0) (hseen : b.seenMask = 0) :
    e.Sound ∧ e.contextTag = 0 := by
  obtain ⟨hsource, hstated, hmask, hsame, -, -, hhead⟩ := h
  have htag' := hsame.trans htag
  exact ⟨⟨hhead, hsource, hstated, htag'.trans_le (Nat.zero_le _),
    (hmask.trans hseen).trans_le (Nat.zero_le _)⟩, htag'⟩

/-- A record that stops before its storage. -/
theorem sound_configured (head : CfgMeta) {failures : UInt64} {status n : Nat} (hstatus : status ≤ 9)
    (hne : status ≠ 1 ∧ status ≠ 5) (hn : n < 2 ^ 4) : ({ call.configured run head with
      outputFailures := failures.toNat
      flags := call.blank.flags ||| n
      status } : JlEvent).Sound := by
  have hfresh : JlEvent.Fresh { call.configured run head with
    sequence := (0 : UInt64).toNat
    outputFailures := failures.toNat } := fresh_configured head 0 failures
  have hsound := ((hfresh.read_status hstatus hne).sound rfl rfl).1
  exact ⟨hsound.head.orFlags hn, { hsound.source with }, { hsound.stated with }, hsound.tag,
    hsound.seen⟩

variable (call run) in
/-- The call with its counters. -/
theorem counted_spec (head : CfgMeta) (h : maps.Holds (some s) o) (htags : Tags s o)
    (hat : RowAt maps.state zeroKey counters) :
    Served call counters o (call.counted run counters (call.configured run head) maps) := by
  unfold JlCall.counted
  rw [h.jlStateAt hat]
  dsimp only
  split
  · have hsound : JlEvent.Sound { call.configured run head with
        outputFailures := s.failures.toNat
        flags := call.blank.flags ||| 0
        status := 9 } := sound_configured head (by decide) (by decide) (by decide)
    rw [Nat.or_zero] at hsound
    exact served_untagged h htags (Grows.refl o) hsound rfl hat
  rename_i hrun
  split
  · exact served_untagged h htags (Grows.refl o)
      (sound_configured head (by decide) (by decide) (by decide)) rfl hat
  obtain ⟨h', hat'⟩ := h.setState hat { s with calls := s.calls + 1 }
  have htags' : Tags { s with calls := s.calls + 1 } o := htags.counters rfl rfl
  have hfresh : JlEvent.Fresh { call.configured run head with
    sequence := (s.calls + 1).toNat
    outputFailures := s.failures.toNat } := fresh_configured head (s.calls + 1) s.failures
  obtain ⟨hread, haddress⟩ := call.context_spec hfresh rfl
  obtain ⟨hsound, hzero⟩ := hread.sound rfl rfl
  split
  case h_1 e' hcontext =>
    rw [hcontext] at hsound hzero
    exact served_untagged h' htags' (Grows.refl o) hsound hzero hat'
  case h_2 key e' hcontext =>
    rw [hcontext] at hsound hzero
    rw [haddress key (by rw [hcontext])]
    exact onStorage_spec h' htags' (not_not.mp hrun) hsound hzero hat'

/-- The output of a call keeps what it did. -/
theorem Served.output (h : Served call counters o (e, maps)) :
    Served call counters o (e, call.output counters maps) := by
  obtain ⟨s', o', hholds, htags, hgrows, hsound, hreports, hat⟩ := h
  unfold JlCall.output
  rw [hholds.jlStateAt hat]
  dsimp only
  split
  · obtain ⟨hholds', hat'⟩ := hholds.setState hat { s' with failures := s'.failures + 1 }
    exact ⟨_, o', hholds', htags.counters rfl rfl, hgrows, hsound, hreports, hat'⟩
  · exact ⟨s', o', hholds, htags, hgrows, hsound, hreports, hat⟩

/-- What the tables hold between two calls. -/
structure JlMaps.Kept (maps : JlMaps) (c : Option JlState) (o : UInt64 → Option JlObject) : Prop where
  holds : maps.Holds c o
  none : c = none → ∀ a, o a = none
  tags : ∀ s, c = some s → Tags s o

theorem kept_empty : JlMaps.empty.Kept none fun _ => none := by
  obtain ⟨hstate, hstateKept⟩ :=
    table_new (l := jlStateLayout) (d := jsonBoundaryState) rfl (by decide) rfl rfl
  obtain ⟨hobjects, hobjectsKept⟩ :=
    table_new (l := jlObjectLayout) (d := jsonBoundaryObjects) rfl (by decide) rfl rfl
  exact ⟨⟨hstate, hobjects, hstateKept, hobjectsKept⟩, fun _ _ => rfl, fun _ h => nomatch h⟩

/-- A run starts without tags. -/
theorem tags_start (ho : ∀ a, o a = none) : Tags { run, calls := 0, tags := 0, failures := 0 } o := by
  have hnone : ∀ {a x}, o a ≠ some x := fun {a x} hx => Option.some_ne_none x (hx.symm.trans (ho a))
  have hzero : (0 : UInt64).toNat ≤ 128 := by decide
  exact ⟨hzero, fun _ _ hx => (hnone hx).elim, fun _ _ _ _ hx => (hnone hx).elim,
    ∅, fun a ha => (ha (ho a)).elim, Nat.le_refl 0⟩

variable (call run) in
/-- The counters of a call. -/
theorem openState_spec {c : Option JlState} (h : maps.Kept c o) :
    ∃ found state c', call.openState run maps.state = (found, state) ∧
      ({ maps with state } : JlMaps).Kept c' o ∧
      ∀ counters, found = some counters → ∃ s, c' = some s ∧ RowAt state zeroKey counters := by
  -- Only the table of the counters changes.
  have hkept : ∀ {c' state}, Table jlStateLayout 1 state (fun _ => c') →
      state.evictions = maps.state.evictions → (c' = none → ∀ a, o a = none) →
      (∀ s, c' = some s → Tags s o) → ({ maps with state } : JlMaps).Kept c' o := by
    intro c' state htable hevictions hnone htags
    exact ⟨⟨htable, h.holds.objects, hevictions.trans h.holds.stateKept, h.holds.objectsKept⟩, hnone,
      htags⟩
  unfold JlCall.openState
  obtain ⟨found, state, hfind, htable, hevictions, hfound⟩ := find_spec call.state h.holds.state ()
  have hfind' : call.state.find maps.state zeroKey = (found, state) := hfind
  rw [hfind']
  rcases hfound with ⟨rfl, hnone⟩ | ⟨off, s, rfl, hc, hat⟩
  swap
  · exact ⟨some off, state, c, rfl, hkept htable hevictions h.none h.tags, fun counters hcounters =>
      ⟨s, hc, Option.some.inj hcounters ▸ hat⟩⟩
  cases hanswers : call.state.answers with
  | false =>
      have hput : call.state.put state zeroKey
          (jlStateLayout.row { run, calls := 0, tags := 0, failures := 0 }) = (false, state) := by
        simp only [TableOutcome.put, hanswers, Bool.false_eq_true, false_and, if_false]
      dsimp only
      rw [hput]
      exact ⟨none, state, c, rfl, hkept htable hevictions h.none h.tags, fun _ hbad => nomatch hbad⟩
  | true =>
      have hc : c = none := hnone.resolve_right (by rw [hanswers]; decide)
      have hroom : usedCells state < 1 :=
        htable.usedCells_lt (fun _ hbad => (hbad hc).elim) (by decide : (∅ : Finset Unit).card < 1)
      obtain ⟨stored, state', hput, hevictions', hstored⟩ := put_spec call.state htable ()
        { run, calls := 0, tags := 0, failures := 0 } hroom
      have hput' : call.state.put state zeroKey
        (jlStateLayout.row { run, calls := 0, tags := 0, failures := 0 }) = (stored, state') := hput
      dsimp only
      rw [hput']
      rcases hstored with ⟨rfl, htable'⟩ | ⟨rfl, -, htable'⟩
      · exact ⟨none, state', c, rfl, hkept htable' (hevictions'.trans hevictions) h.none h.tags,
          fun _ hbad => nomatch hbad⟩
      have hrow : Function.update (fun _ : Unit => c) ()
          (some { run, calls := 0, tags := 0, failures := 0 }) =
            fun _ => some { run, calls := 0, tags := 0, failures := 0 } := by
        funext u
        exact Function.update_self u _ (fun _ => c)
      rw [hrow] at htable'
      obtain ⟨found, state'', hagain, htable'', hevictions'', hfound⟩ :=
        findAgain_spec call.state htable' ()
      have hagain' : call.state.findAgain state' zeroKey = (found, state'') := hagain
      refine ⟨found, state'', some { run, calls := 0, tags := 0, failures := 0 }, hagain', ?_, ?_⟩
      · refine hkept htable'' (hevictions''.trans (hevictions'.trans hevictions))
          (fun hbad => nomatch hbad) fun s hs => ?_
        rw [← Option.some.inj hs]
        exact tags_start (h.none hc)
      · intro counters hcounters
        rcases hfound with rfl | ⟨off, s, rfl, -, hat⟩
        · exact nomatch hcounters
        · exact ⟨_, rfl, Option.some.inj hcounters ▸ hat⟩

variable (call) in
/-- A call keeps the tags of a run apart and emits a record that decodes. -/
theorem jsonLifecycle_spec {c : Option JlState} (h : maps.Kept c o) :
    ∃ c' o', (jsonLifecycle call maps).2.Kept c' o' ∧ Grows o o' ∧ (jsonLifecycle call maps).1.Sound ∧
      Reports o' call.address (jsonLifecycle call maps).1 := by
  unfold jsonLifecycle
  split
  · have hsound : JlEvent.Sound { call.configured 0 ⟨0, 0, 0, 0⟩ with
        outputFailures := (0 : UInt64).toNat
        flags := call.blank.flags ||| 1
        status := 0 } := sound_configured _ (by decide) (by decide) (by decide)
    exact ⟨c, o, h, Grows.refl o, hsound, reports_of_zero rfl⟩
  rename_i head row hconfig
  obtain ⟨found, state, c', hopen, hkept, hfound⟩ := openState_spec call (row 0) h
  rw [hopen]
  dsimp only
  cases found with
  | none =>
      have hsound : JlEvent.Sound { call.configured (row 0) head with
          outputFailures := (0 : UInt64).toNat
          flags := call.blank.flags ||| 2
          status := 8 } := sound_configured _ (by decide) (by decide) (by decide)
      exact ⟨c', o, hkept, Grows.refl o, hsound, reports_of_zero rfl⟩
  | some counters =>
      obtain ⟨s, rfl, hat⟩ := hfound counters rfl
      have hserved := (counted_spec call (row 0) head hkept.holds (hkept.tags s rfl) hat).output
      obtain ⟨s', o', hholds, htags, hgrows, hsound, hreports, -⟩ := hserved
      have htags' : ∀ s'', some s' = some s'' → Tags s'' o' := fun s'' hs =>
        Option.some.inj hs ▸ htags
      exact ⟨some s', o', ⟨hholds, fun hbad => (nomatch hbad), htags'⟩, hgrows, hsound, hreports⟩

end Call

/-! ## Runs -/

/-- The tables, and every call with its record, the last one first. -/
structure JlSystem where
  maps : JlMaps
  log : List (JlCall × JlEvent)

/-- One call after another, of any kind and with any outcomes. -/
def boundaryMachine : Machine JlSystem JlCall where
  init s := s = ⟨JlMaps.empty, []⟩
  next s call :=
    let (e, maps) := jsonLifecycle call s.maps
    some ⟨maps, (call, e) :: s.log⟩

/-- The invariant of a run: the tables keep the tags apart, and the tag that a record reports is
the one that its address has. -/
def JlSystem.Inv (s : JlSystem) : Prop :=
  ∃ c o, s.maps.Kept c o ∧ ∀ r ∈ s.log, r.2.Sound ∧ Reports o r.1.address r.2

theorem JlSystem.Inv.next {s t : JlSystem} {call : JlCall} (h : s.Inv)
    (hnext : boundaryMachine.next s call = some t) : t.Inv := by
  obtain ⟨c, o, hkept, hlog⟩ := h
  obtain ⟨c', o', hkept', hgrows, hsound, hreports⟩ := jsonLifecycle_spec call hkept
  obtain rfl := Option.some.inj hnext
  refine ⟨c', o', hkept', fun r hr => ?_⟩
  rcases List.mem_cons.mp hr with rfl | hr
  · exact ⟨hsound, hreports⟩
  · exact ⟨(hlog r hr).1, (hlog r hr).2.grows hgrows⟩

theorem inv_of_reachable {s : JlSystem} (hs : boundaryMachine.Reachable s) : s.Inv := by
  refine Machine.Reachable.invariant ?_ (fun s call t _ h hnext => h.next hnext) s hs
  rintro s rfl
  exact ⟨none, _, kept_empty, fun r hr => nomatch hr⟩

/-- No row is evicted, every record decodes as itself, and records with a tag carry the same one
exactly when they are about the same address. -/
structure JlSystem.Law (s : JlSystem) : Prop where
  kept : s.maps.state.evictions = 0 ∧ s.maps.objects.evictions = 0
  decodes : ∀ r ∈ s.log, ∃ d, jsonLifecycleDecode r.2.bytes = .ok d ∧ d.event = r.2
  tags : ∀ r ∈ s.log, ∀ r' ∈ s.log, r.2.contextTag ≠ 0 → r'.2.contextTag ≠ 0 →
    (r.2.contextTag = r'.2.contextTag ↔ r.1.address = r'.1.address)

/-- The law holds in every run. -/
theorem law_of_reachable {s : JlSystem} (hs : boundaryMachine.Reachable s) : s.Law := by
  obtain ⟨c, o, hkept, hlog⟩ := inv_of_reachable hs
  refine ⟨⟨hkept.holds.stateKept, hkept.holds.objectsKept⟩, fun r hr => (hlog r hr).1.decodes, ?_⟩
  intro r hr r' hr' htag htag'
  obtain ⟨x, hx, hxtag⟩ := (hlog r hr).2 htag
  obtain ⟨y, hy, hytag⟩ := (hlog r' hr').2 htag'
  constructor
  · intro hsame
    cases c with
    | none => exact (Option.some_ne_none x (hx.symm.trans (hkept.none rfl _))).elim
    | some s' =>
        refine (hkept.tags s' rfl).apart _ _ x y hx hy (UInt64.toNat_inj.mp ?_)
        rw [hxtag, hytag, hsame]
  · intro hsame
    rw [hsame, hy] at hx
    rw [← hxtag, ← hytag, Option.some.inj hx]

end Metadata
end LiveSurface
