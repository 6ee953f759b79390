import LiveSurface.Candidate.Watch

/-!
# The lifetime probes

Three programs are built from one source: one at the initialization of a parser context, one
at the exit of a header parse, one at the end of a context.  They number the births of a
run, count the attempts of each lifetime and report one event a call.

Main results:

- Definition {lit}`parserLifetime`: the source's function for each kind.
- Theorem {lit}`parserLifetime_refines`: a call on the tables is a call on the watch.
-/

namespace LiveSurface
namespace Lifetime

open Map Candidate

/-! ## Events -/

/-- {lit}`LIFE_KIND`. -/
inductive LifeKind
  | init
  | parse
  | fini
deriving DecidableEq

/-- The number of a kind. -/
def LifeKind.code : LifeKind → Nat
  | .init => 1
  | .parse => 2
  | .fini => 3

/-- {lit}`struct life_event`. -/
structure LifeEvent where
  run : UInt64
  sequence : UInt64
  lifetime : UInt64
  attempt : UInt64
  value : UInt64
  failures : UInt64
  kind : LifeKind
  flags : Nat
deriving DecidableEq

/-- One call of a lifetime probe. -/
structure LifeCall where
  kind : LifeKind
  config : ProbeConfig
  address : UInt64
  result : UInt64
  emitted : Bool

/-- The flag of a configuration that is not accepted. -/
def noConfig : Nat := 1

/-- The flag of a map that refused. -/
def mapFailed : Nat := 2

/-- The flag of a run with 256 births. -/
def capacity : Nat := 4

/-- The flag of a counter that would overflow. -/
def overflow : Nat := 8

/-- The flag of a parser at address zero. -/
def nullAddress : Nat := 16

/-- The flag of a parser whose birth was not seen. -/
def noBirth : Nat := 32

/-- The flag of a parser that has ended. -/
def afterEnd : Nat := 64

/-- The flag of a birth before the end of the last lifetime. -/
def dupBirth : Nat := 128

/-- The flag of an end within an attempt. -/
def partialEnd : Nat := 256

/-- The flag of a parse that failed. -/
def parseError : Nat := 512

/-- The bits of an object's state. -/
def active : UInt64 := 1

def partly : UInt64 := 2

def broken : UInt64 := 4

/-- The event of a call before its configuration is read. -/
def LifeCall.blank (call : LifeCall) : LifeEvent where
  run := 0
  sequence := 0
  lifetime := 0
  attempt := 0
  value := if call.kind = .parse then call.result else 0
  failures := 0
  kind := call.kind
  flags := 0

/-! ## The call -/

/-- The counters' pointer, with new counters where there are none of the run. -/
def openCounters (m : LsMap) (run : UInt64) : Option Nat × LsMap :=
  let (found, m) := lsMapLookup m zeroKey
  match found.filter fun off => (stateAt m off).run = run with
  | some off => (some off, m)
  | none =>
      let (stored, m) := lsMapUpdate m zeroKey (firstCounters run).bytes
      if stored then lsMapLookup m zeroKey else (none, m)

/-- A birth, with the pointers to the counters and to the last object of the address. -/
def lifeBirth (key : UInt64) (e : LifeEvent) (counters : Nat) (found : Option Nat)
    (maps : LifeMaps) : LifeEvent × LifeMaps :=
  let (e, maps) :=
    match found.filter fun off => (objectAt maps.objects off).run = e.run with
    | none => (e, maps)
    | some off =>
        let object := objectAt maps.objects off
        ({ e with
          value := object.lifetime
          flags := if object.state &&& active ≠ 0 then e.flags ||| dupBirth else e.flags },
          { maps with objects := setRow maps.objects off { object with state := 0 }.bytes })
  let s := stateAt maps.state counters
  if s.births ≥ 256 then ({ e with flags := e.flags ||| capacity }, maps)
  else
    let s := { s with births := s.births + 1 }
    let maps := { maps with state := setRow maps.state counters s.bytes }
    let (stored, objects) := lsMapUpdate maps.objects (keyBytes key)
      (LifeObject.bytes { run := e.run, lifetime := s.births, attempt := 0, state := active })
    let maps := { maps with objects }
    if stored then ({ e with lifetime := s.births }, maps)
    else ({ e with flags := e.flags ||| mapFailed }, maps)

/-- The exit of a parse. -/
def lifeParse (result : UInt64) (e : LifeEvent) (object : LifeObject) : LifeEvent × LifeObject :=
  if object.state &&& broken ≠ 0 then ({ e with flags := parseError }, object)
  else if object.state &&& partly = 0 ∧ object.attempt = maxWord then
    ({ e with flags := overflow }, object)
  else
    let attempt := if object.state &&& partly = 0 then object.attempt + 1 else object.attempt
    let e := { e with attempt }
    if result = 17 then (e, { object with attempt, state := object.state ||| partly })
    else if result = 0 then (e, { object with attempt, state := object.state &&& ~~~partly })
    else ({ e with flags := parseError }, { object with attempt, state := object.state ||| broken })

/-- The end of a context. -/
def lifeEnd (e : LifeEvent) (object : LifeObject) : LifeEvent × LifeObject :=
  ({ e with
    flags := if object.state &&& partly ≠ 0 then partialEnd else e.flags
    attempt := object.attempt }, { object with state := 0 })

/-- The part of a call on the object of its address. -/
def lifeObject (call : LifeCall) (e : LifeEvent) (counters : Nat) (maps : LifeMaps) :
    LifeEvent × LifeMaps :=
  let (found, objects) := lsMapLookup maps.objects (keyBytes call.address)
  let maps := { maps with objects }
  if call.kind = .init then lifeBirth call.address e counters found maps
  else
    match found.filter fun off => (objectAt objects off).run = e.run with
    | none => ({ e with flags := noBirth }, maps)
    | some off =>
        let object := objectAt objects off
        if object.state &&& active = 0 then ({ e with flags := afterEnd }, maps)
        else
          let e := { e with lifetime := object.lifetime }
          let (e, object) :=
            if call.kind = .parse then lifeParse call.result e object else lifeEnd e object
          (e, { maps with objects := setRow objects off object.bytes })

/-- The body of {lit}`parser_lifetime`: the event, the counters' pointer, and the maps. -/
def lifeBody (call : LifeCall) (maps : LifeMaps) : LifeEvent × Option Nat × LifeMaps :=
  match call.config.run with
  | none => ({ call.blank with flags := noConfig }, none, maps)
  | some run =>
      let e := { call.blank with run }
      let (counters, state) := openCounters maps.state run
      let maps := { maps with state }
      match counters with
      | none => ({ e with flags := mapFailed }, none, maps)
      | some off =>
          let s := stateAt state off
          let e := { e with failures := s.failures }
          if s.calls = maxWord then ({ e with flags := overflow }, some off, maps)
          else
            let s := { s with calls := s.calls + 1 }
            let maps := { maps with state := setRow state off s.bytes }
            let e := { e with sequence := s.calls }
            if call.address = 0 then ({ e with flags := nullAddress }, some off, maps)
            else
              let (e, maps) := lifeObject call e off maps
              (e, some off, maps)

/-- {lit}`parser_lifetime`. -/
def parserLifetime (call : LifeCall) (maps : LifeMaps) : LifeEvent × LifeMaps :=
  let (e, counters, maps) := lifeBody call maps
  (e, { maps with state := countFailure call.emitted counters maps.state })

/-! ## On a watch -/

/-- The last object of an address with its lifetime over. -/
def LifeObject.over (object : LifeObject) : LifeObject := { object with state := 0 }

/-- The object of a new lifetime. -/
def newborn (run lifetime : UInt64) : LifeObject where
  run := run
  lifetime := lifetime
  attempt := 0
  state := active

/-- The counters with a birth counted. -/
def nextBirth (s : LifeState) : LifeState := { s with births := s.births + 1 }

/-- The event of a birth at an address whose last object is given. -/
def LifeEvent.after (e : LifeEvent) (object : LifeObject) : LifeEvent :=
  { e with
    value := object.lifetime
    flags := if object.state &&& active ≠ 0 then e.flags ||| dupBirth else e.flags }

/-- A birth on the counters and the last object of the address. -/
def birthWatch (e : LifeEvent) (s : LifeState) (o : Option LifeObject) :
    LifeEvent × LifeState × Option LifeObject :=
  let last := o.filter fun object => object.run = e.run
  let e := last.elim e e.after
  if s.births ≥ 256 then
    ({ e with flags := e.flags ||| capacity }, s, last.elim o fun object => some object.over)
  else
    ({ e with lifetime := s.births + 1 }, nextBirth s, some (newborn e.run (s.births + 1)))

/-- A call on the counters and the object of its address. -/
def objectWatch (call : LifeCall) (e : LifeEvent) (s : LifeState) (o : Option LifeObject) :
    LifeEvent × LifeState × Option LifeObject :=
  if call.kind = .init then birthWatch e s o
  else
    match o.filter fun object => object.run = e.run with
    | none => ({ e with flags := noBirth }, s, o)
    | some object =>
        if object.state &&& active = 0 then ({ e with flags := afterEnd }, s, o)
        else
          let e := { e with lifetime := object.lifetime }
          let (e, object) :=
            if call.kind = .parse then lifeParse call.result e object else lifeEnd e object
          (e, s, some object)

/-- The heading of an event. -/
def LifeCall.heading (call : LifeCall) (run sequence failures : UInt64) : LifeEvent where
  run := run
  sequence := sequence
  lifetime := 0
  attempt := 0
  value := if call.kind = .parse then call.result else 0
  failures := failures
  kind := call.kind
  flags := 0

/-- {lit}`parser_lifetime` on a watch. -/
def lifeWatch (call : LifeCall) (w : Watch) : LifeEvent × Watch :=
  match call.config.run with
  | none => ({ call.blank with flags := noConfig }, w)
  | some run =>
      let s := (w.counter.filter fun s => s.run = run).getD (firstCounters run)
      if s.calls = maxWord then
        ({ call.heading run 0 s.failures with flags := overflow },
          { w with counter := some (counted call.emitted s) })
      else
        let e := call.heading run (s.calls + 1) s.failures
        if call.address = 0 then
          ({ e with flags := nullAddress },
            { w with counter := some (counted call.emitted (nextCall s)) })
        else
          let (e, s, o) := objectWatch call e (nextCall s) (w.object call.address)
          (e, { w with
            counter := some (counted call.emitted s)
            object := Function.update w.object call.address o })

/-- A watch has no more objects than births. -/
def Within (w : Watch) : Prop :=
  ∃ known : Finset UInt64, (∀ a, w.object a ≠ none → a ∈ known) ∧
    known.card ≤ w.counter.elim 0 fun s => s.births.toNat

section Refinement

variable {maps : LifeMaps} {w : Watch} {call : LifeCall} {run : UInt64} {m : LsMap}
  {c : Option LifeState} {o : UInt64 → Option LifeObject} {s : LifeState} {e : LifeEvent}
  {off : Nat}

/-- The counters of the run, or new ones. -/
theorem Counters.openCounters (h : Counters m c) (run : UInt64) :
    ∃ off m', openCounters m run = (some off, m') ∧
      Counters m' (some ((c.filter fun s => s.run = run).getD (firstCounters run))) ∧
      m'.evictions = m.evictions ∧ RowAt m' zeroKey off := by
  have hnew : ∀ m₁, Counters m₁ c → m₁.evictions = m.evictions →
      ∃ off m₂ m₃, lsMapUpdate m₁ zeroKey (firstCounters run).bytes = (true, m₂) ∧
        lsMapLookup m₂ zeroKey = (some off, m₃) ∧ Counters m₃ (some (firstCounters run)) ∧
        m₃.evictions = m.evictions ∧ RowAt m₃ zeroKey off := by
    intro m₁ hcounters₁ hevictions₁
    obtain ⟨m₂, hput, hcounters₂, hevictions₂⟩ := hcounters₁.put (firstCounters run)
    obtain ⟨off, m₃, hlookup, hcounters₃, hevictions₃, hoff, -⟩ := hcounters₂.lookup
    exact ⟨off, m₂, m₃, hput, hlookup, hcounters₃,
      hevictions₃.trans (hevictions₂.trans hevictions₁), hoff⟩
  unfold Lifetime.openCounters
  cases c with
  | none =>
      obtain ⟨m₁, hlookup, hcounters₁, hevictions₁⟩ := h.lookup_none
      obtain ⟨off, m₂, m₃, hput, hlookup₂, hcounters₃, hevictions₃, hoff⟩ :=
        hnew m₁ hcounters₁ hevictions₁
      rw [hlookup]
      exact ⟨off, m₃, by simp only [Option.filter_none, hput, hlookup₂, if_true], hcounters₃,
        hevictions₃, hoff⟩
  | some t =>
      obtain ⟨off₁, m₁, hlookup, hcounters₁, hevictions₁, hoff₁, hstate₁⟩ := h.lookup
      rw [hlookup]
      by_cases hrun : t.run = run
      · refine ⟨off₁, m₁, ?_, ?_, hevictions₁, hoff₁⟩
        · simp only [Option.filter_some, hstate₁, hrun, decide_true, if_true]
        · simpa only [Option.filter_some, hrun, decide_true, if_true, Option.getD_some]
            using hcounters₁
      · obtain ⟨off, m₂, m₃, hput, hlookup₂, hcounters₃, hevictions₃, hoff⟩ :=
          hnew m₁ hcounters₁ hevictions₁
        refine ⟨off, m₃, ?_, ?_, hevictions₃, hoff⟩
        · simp only [Option.filter_some, hstate₁, hrun, decide_false, Bool.false_eq_true, if_false,
            hput, hlookup₂, if_true]
        · simpa only [Option.filter_some, hrun, decide_false, Bool.false_eq_true, if_false,
            Option.getD_none] using hcounters₃

/-- What a lookup of an address found. -/
def Finds (m : LsMap) (key : UInt64) (found : Option Nat) (object : Option LifeObject) : Prop :=
  (found = none ∧ object = none) ∨
    ∃ off x, found = some off ∧ object = some x ∧ RowAt m (keyBytes key) off ∧ objectAt m off = x

theorem Objects.finds (h : Objects m o) (key : UInt64) :
    ∃ found m', lsMapLookup m (keyBytes key) = (found, m') ∧ Objects m' o ∧
      m'.evictions = m.evictions ∧ Finds m' key found (o key) := by
  cases hkey : o key with
  | none =>
      obtain ⟨m', hlookup, hobjects, hevictions⟩ := h.lookup_none hkey
      exact ⟨none, m', hlookup, hobjects, hevictions, .inl ⟨rfl, rfl⟩⟩
  | some x =>
      obtain ⟨off, m', hlookup, hobjects, hevictions, hoff, hat⟩ := h.lookup hkey
      exact ⟨some off, m', hlookup, hobjects, hevictions, .inr ⟨off, x, rfl, rfl, hoff, hat⟩⟩

/-- The last object of the run at an address, and its pointer. -/
theorem Finds.filter {key : UInt64} {found : Option Nat} {object : Option LifeObject}
    (h : Finds m key found object) (run : UInt64) :
    (found.filter (fun off => (objectAt m off).run = run) = none ∧
        object.filter (fun x => x.run = run) = none) ∨
      ∃ off x, found.filter (fun off => (objectAt m off).run = run) = some off ∧
        object.filter (fun x => x.run = run) = some x ∧ object = some x ∧
        RowAt m (keyBytes key) off ∧ objectAt m off = x := by
  rcases h with ⟨rfl, rfl⟩ | ⟨off, x, rfl, rfl, hoff, hat⟩
  · exact .inl ⟨rfl, rfl⟩
  · by_cases hrun : x.run = run
    · exact .inr ⟨off, x, by simp [Option.filter_some, hat, hrun],
        by simp [Option.filter_some, hrun], rfl, hoff, hat⟩
    · exact .inl ⟨by simp [Option.filter_some, hat, hrun], by simp [Option.filter_some, hrun]⟩

/-- The table of these objects takes one more for this address. -/
def Room (o : UInt64 → Option LifeObject) (key : UInt64) : Prop :=
  o key ≠ none ∨ ∃ known : Finset UInt64, (∀ a, o a ≠ none → a ∈ known) ∧ known.card < 256

theorem Objects.room {key : UInt64} (h : Objects m o) (hroom : Room o key) :
    o key ≠ none ∨ usedCells m < 256 := by
  rcases hroom with hpresent | ⟨known, hknown, hcard⟩
  · exact .inl hpresent
  · exact .inr (h.usedCells_lt hknown hcard)

/-- What a call on the objects leaves, as the watch has it. -/
structure Leaves (maps maps' : LifeMaps) (off : Nat) (s : LifeState)
    (o : UInt64 → Option LifeObject) : Prop where
  counters : Counters maps'.state (some s)
  pointer : RowAt maps'.state zeroKey off
  objects : Objects maps'.objects o
  store : maps'.store = maps.store
  evictions : maps'.state.evictions = maps.state.evictions ∧
    maps'.objects.evictions = maps.objects.evictions

/-- The part of a birth after the last lifetime, on the tables. -/
theorem birth_refines {key : UInt64} (hcounters : Counters maps.state (some s))
    (hoff : RowAt maps.state zeroKey off) (hobjects : Objects maps.objects o)
    (hroom : s.births < 256 → Room o key) :
    let r : LifeEvent × LifeMaps :=
      if s.births ≥ 256 then ({ e with flags := e.flags ||| capacity }, maps)
      else
        let (stored, objects) := lsMapUpdate maps.objects (keyBytes key)
          (newborn e.run (s.births + 1)).bytes
        let maps := { maps with state := setRow maps.state off (nextBirth s).bytes, objects }
        if stored then ({ e with lifetime := s.births + 1 }, maps)
        else ({ e with flags := e.flags ||| mapFailed }, maps)
    let q : LifeEvent × LifeState × Option LifeObject :=
      if s.births ≥ 256 then ({ e with flags := e.flags ||| capacity }, s, o key)
      else
        ({ e with lifetime := s.births + 1 }, nextBirth s, some (newborn e.run (s.births + 1)))
    r.1 = q.1 ∧ Leaves maps r.2 off q.2.1 (Function.update o key q.2.2) := by
  by_cases hbirths : s.births ≥ 256
  · simp only [if_pos hbirths, Function.update_eq_self, true_and]
    exact ⟨hcounters, hoff, hobjects, rfl, rfl, rfl⟩
  · obtain ⟨objects, hput, hobjects', hevictions⟩ :=
      hobjects.put (hobjects.room (hroom (UInt64.not_le.mp hbirths))) (newborn e.run (s.births + 1))
    obtain ⟨hcounters', hevictions', hoff'⟩ := hcounters.set hoff (nextBirth s)
    simp only [if_neg hbirths, hput, if_true, true_and]
    exact ⟨hcounters', hoff', hobjects', rfl, hevictions', hevictions⟩

/-- A birth on the tables is a birth on the watch. -/
theorem lifeBirth_refines {key : UInt64} {found : Option Nat}
    (hcounters : Counters maps.state (some s)) (hoff : RowAt maps.state zeroKey off)
    (hobjects : Objects maps.objects o) (hfinds : Finds maps.objects key found (o key))
    (hroom : s.births < 256 → Room o key) :
    (lifeBirth key e off found maps).1 = (birthWatch e s (o key)).1 ∧
      Leaves maps (lifeBirth key e off found maps).2 off (birthWatch e s (o key)).2.1
        (Function.update o key (birthWatch e s (o key)).2.2) := by
  have hstate := hcounters.stateAt_eq hoff
  unfold lifeBirth birthWatch
  rcases hfinds.filter e.run with ⟨hfound, hlast⟩ | ⟨place, x, hfound, hlast, hx, hplace, hat⟩
  · simp only [hfound, hlast, hstate, Option.elim_none]
    exact birth_refines hcounters hoff hobjects hroom
  · obtain ⟨hobjects', hevictions⟩ := hobjects.set hplace x.over
    let maps₁ : LifeMaps := { maps with objects := setRow maps.objects place x.over.bytes }
    have hpresent : Function.update o key (some x.over) key ≠ none := by
      rw [Function.update_self]
      exact Option.some_ne_none _
    have hafter := @birth_refines maps₁ _ s (e.after x) off key hcounters hoff hobjects'
      fun _ => .inl hpresent
    simp only [Function.update_self, Function.update_idem] at hafter
    obtain ⟨hevent, hleaves⟩ := hafter
    simp only [hfound, hlast, hstate, hat, Option.elim_some]
    refine ⟨hevent, ⟨hleaves.counters, hleaves.pointer, hleaves.objects, hleaves.store,
      hleaves.evictions.1, hleaves.evictions.2.trans hevictions⟩⟩

/-- A call on the objects of the tables is one on the watch. -/
theorem lifeObject_refines (hcounters : Counters maps.state (some s))
    (hoff : RowAt maps.state zeroKey off) (hobjects : Objects maps.objects o)
    (hroom : call.kind = .init → s.births < 256 → Room o call.address) :
    (lifeObject call e off maps).1 = (objectWatch call e s (o call.address)).1 ∧
      Leaves maps (lifeObject call e off maps).2 off
        (objectWatch call e s (o call.address)).2.1
        (Function.update o call.address (objectWatch call e s (o call.address)).2.2) := by
  obtain ⟨found, objects, hlookup, hobjects', hevictions, hfinds⟩ := hobjects.finds call.address
  unfold lifeObject objectWatch
  rw [hlookup]
  let maps₁ : LifeMaps := { maps with objects }
  have hsame : Leaves maps maps₁ off s o := ⟨hcounters, hoff, hobjects', rfl, rfl, hevictions⟩
  by_cases hinit : call.kind = .init
  · simp only [if_pos hinit]
    obtain ⟨hevent, hleaves⟩ := @lifeBirth_refines maps₁ o s e off call.address found hcounters
      hoff hobjects' hfinds (hroom hinit)
    exact ⟨hevent, ⟨hleaves.counters, hleaves.pointer, hleaves.objects, hleaves.store,
      hleaves.evictions.1, hleaves.evictions.2.trans hevictions⟩⟩
  · simp only [if_neg hinit]
    rcases hfinds.filter e.run with ⟨hfound, hlast⟩ | ⟨place, x, hfound, hlast, hx, hplace, hat⟩
    · simp only [hfound, hlast, Function.update_eq_self, true_and]
      exact hsame
    · simp only [hfound, hlast, hat]
      by_cases hended : x.state &&& active = 0
      · simp only [if_pos hended, Function.update_eq_self, true_and]
        exact hsame
      · simp only [if_neg hended, true_and]
        obtain ⟨hobjects'', hevictions'⟩ := hobjects'.set hplace
          (if call.kind = .parse then lifeParse call.result { e with lifetime := x.lifetime } x
            else lifeEnd { e with lifetime := x.lifetime } x).2
        exact ⟨hcounters, hoff, hobjects'', rfl, rfl, hevictions'.trans hevictions⟩

/-- A call of a run on the tables is a call on the watch, and evicts nothing. -/
theorem parserLifetime_refines (h : Tables maps w) (hwithin : Within w)
    (hrun : ∀ s, w.counter = some s → call.config.run = some s.run) :
    (parserLifetime call maps).1 = (lifeWatch call w).1 ∧
      Tables (parserLifetime call maps).2 (lifeWatch call w).2 ∧
      SameEvictions maps (parserLifetime call maps).2 := by
  unfold parserLifetime lifeBody lifeWatch
  cases hconfig : call.config.run with
  | none => exact ⟨rfl, h, .refl maps⟩
  | some run =>
      obtain ⟨off, m₁, hopen, hcounters₁, hevictions₁, hoff₁⟩ := h.counters.openCounters run
      have hroom : ∀ s, (w.counter.filter fun s => s.run = run).getD (firstCounters run) = s →
          s.births < 256 → Room w.object call.address := by
        rintro s rfl hbirths
        obtain ⟨known, hknown, hcard⟩ := hwithin
        refine .inr ⟨known, hknown, Nat.lt_of_le_of_lt hcard ?_⟩
        cases hcounter : w.counter with
        | none => exact (by decide : 0 < 256)
        | some s =>
            have hsame : s.run = run := by
              have := hrun s hcounter
              rw [hconfig] at this
              exact (Option.some.inj this).symm
            rw [hcounter, Option.filter_some, if_pos (decide_eq_true hsame)] at hbirths
            exact UInt64.lt_iff_toNat_lt.mp hbirths
      have hstate₁ := hcounters₁.stateAt_eq hoff₁
      simp only [hopen, hstate₁]
      generalize (w.counter.filter fun s => s.run = run).getD (firstCounters run) = s
        at hcounters₁ hroom hstate₁
      split_ifs with hcalls hnull
      · obtain ⟨hcounters, hevictions⟩ := Counters.countFailure hcounters₁ hoff₁ call.emitted
        exact ⟨rfl, ⟨hcounters, h.objects, h.stores⟩, ⟨hevictions.trans hevictions₁, rfl, rfl⟩⟩
      · obtain ⟨hcounters₂, hevictions₂, hoff₂⟩ := hcounters₁.set hoff₁ (nextCall s)
        obtain ⟨hcounters, hevictions⟩ := Counters.countFailure hcounters₂ hoff₂ call.emitted
        exact ⟨rfl, ⟨hcounters, h.objects, h.stores⟩,
          ⟨hevictions.trans (hevictions₂.trans hevictions₁), rfl, rfl⟩⟩
      · obtain ⟨hcounters₂, hevictions₂, hoff₂⟩ := hcounters₁.set hoff₁ (nextCall s)
        let maps₂ : LifeMaps := { maps with state := setRow m₁ off (nextCall s).bytes }
        obtain ⟨hevent, hleaves⟩ := @lifeObject_refines maps₂ call w.object (nextCall s)
          (call.heading run (s.calls + 1) s.failures) off hcounters₂ hoff₂ h.objects
          fun _ hbirths => hroom s rfl hbirths
        obtain ⟨hcounters, hevictions⟩ :=
          Counters.countFailure hleaves.counters hleaves.pointer call.emitted
        refine ⟨hevent, ⟨hcounters, hleaves.objects, ?_⟩, ⟨?_, hleaves.evictions.2, ?_⟩⟩
        · exact (congrArg (fun m => Candidate.Stores m w.held) hleaves.store).mpr h.stores
        · exact hevictions.trans (hleaves.evictions.1.trans (hevictions₂.trans hevictions₁))
        · exact congrArg LsMap.evictions hleaves.store

end Refinement

end Lifetime
end LiveSurface
