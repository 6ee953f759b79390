import LiveSurface.Candidate.Held
import LiveSurface.Lifetime.Tables

/-!
# The watch on a parser

What the four programs keep is one row of counters, one object for each parser address and
one state of an attempt for each lifetime.  {lit}`Watch.candidate` is
{lit}`request_candidate` on these values; the tables of the thread refine it.

Main results:

- Theorem {lit}`requestCandidate_refines`: a call on the tables is a call on the watch, and
  evicts nothing.
-/

namespace LiveSurface
namespace Candidate

open Map Lifetime

/-- What the programs that observe a parser keep. -/
structure Watch where
  counter : Option LifeState
  object : UInt64 → Option LifeObject
  held : UInt64 → Option State

/-- The tables of a thread hold a watch. -/
structure Tables (maps : LifeMaps) (w : Watch) : Prop where
  counters : Counters maps.state w.counter
  objects : Objects maps.objects w.object
  stores : Stores maps.store w.held

/-- No table has evicted a row between two moments. -/
structure SameEvictions (maps maps' : LifeMaps) : Prop where
  state : maps'.state.evictions = maps.state.evictions
  objects : maps'.objects.evictions = maps.objects.evictions
  store : maps'.store.evictions = maps.store.evictions

/-- The watch before the first call. -/
def Watch.start : Watch where
  counter := none
  object := fun _ => none
  held := fun _ => none

theorem tables_empty : Tables .empty .start := ⟨counters_empty, objects_empty, stores_empty⟩

/-! ## The call -/

/-- The counters with the failure of an event counted. -/
def counted (emitted : Bool) (s : LifeState) : LifeState :=
  if emitted = false ∧ s.failures ≠ maxWord then { s with failures := s.failures + 1 } else s

/-- The counters with a call counted. -/
def nextCall (s : LifeState) : LifeState := { s with calls := s.calls + 1 }

/-- The counters of a run before its first call. -/
def firstCounters (run : UInt64) : LifeState where
  run := run
  calls := 0
  births := 0
  failures := 0

/-- What a call does with the object of its address. -/
inductive Target
  | refused (flags : Nat) (lifetime : UInt64)
  | attempt (lifetime attempt : UInt64)

/-- The attempt of a parser's next bytes. -/
def target (address run : UInt64) : Option LifeObject → Target
  | none => .refused flagNoBirth 0
  | some o =>
      if address = 0 ∨ ¬LifeObject.Parsing o run then .refused flagNoBirth 0
      else if o.lifetime = 0 ∨ o.lifetime > 127 then .refused flagLimit o.lifetime
      else if o.state &&& 2 = 0 ∧ o.attempt = maxWord then .refused flagOverflow o.lifetime
      else .attempt o.lifetime (if o.state &&& 2 = 0 then o.attempt + 1 else o.attempt)

/-- The heading of an event. -/
def CandidateEvent.heading (run sequence failures : UInt64) : CandidateEvent where
  run := run
  sequence := sequence
  lifetime := 0
  attempt := 0
  failures := failures
  flags := 0
  path := 0
  total := 0
  nonce := noBytes

/-- The event of a call and the states it leaves, from the heading of the event. -/
def extractWatch (call : CandidateCall) (e : CandidateEvent) (run : UInt64) (w : Watch) :
    CandidateEvent × (UInt64 → Option State) :=
  match target call.address run (w.object call.address) with
  | .refused flags lifetime => ({ e with flags, lifetime }, w.held)
  | .attempt lifetime attempt =>
      let st := called call (opened (w.held lifetime) lifetime attempt)
      (CandidateEvent.withState { e with lifetime, attempt } st,
        Function.update w.held lifetime (some st))

/-- {lit}`request_candidate` on a watch. -/
def Watch.candidate (w : Watch) (call : CandidateCall) : CandidateEvent × Watch :=
  match call.config.run with
  | none => ({ CandidateEvent.zero with flags := flagConfig }, w)
  | some run =>
      let s := w.counter.getD (firstCounters run)
      if s.run ≠ run then
        ({ CandidateEvent.zero with run, flags := flagConfig },
          { w with counter := some (counted call.emitted s) })
      else if s.calls = maxWord then
        ({ CandidateEvent.zero with run, failures := s.failures, flags := flagOverflow },
          { w with counter := some (counted call.emitted s) })
      else
        let (e, held) := extractWatch call (.heading run (s.calls + 1) s.failures) run w
        (e, { w with counter := some (counted call.emitted (nextCall s)), held })

section Refinement

variable {maps : LifeMaps} {w : Watch} {call : CandidateCall} {run : UInt64}

theorem SameEvictions.refl (maps : LifeMaps) : SameEvictions maps maps := ⟨rfl, rfl, rfl⟩

theorem SameEvictions.trans {maps' maps'' : LifeMaps} (h : SameEvictions maps maps')
    (h' : SameEvictions maps' maps'') : SameEvictions maps maps'' :=
  ⟨h'.state.trans h.state, h'.objects.trans h.objects, h'.store.trans h.store⟩

/-- The counters are those of the table, or new ones. -/
theorem Counters.lookupOrPut {m : LsMap} {c : Option LifeState} (h : Counters m c)
    (s : LifeState) :
    ∃ off m', lookupOrPut m zeroKey s.bytes = (some off, m') ∧ Counters m' (some (c.getD s)) ∧
      m'.evictions = m.evictions ∧ RowAt m' zeroKey off ∧ stateAt m' off = c.getD s := by
  cases c with
  | some t =>
      obtain ⟨off, m', hlookup, hcounters, hevictions, hoff, hstate⟩ := h.lookup
      refine ⟨off, m', ?_, hcounters, hevictions, hoff, hstate⟩
      unfold Candidate.lookupOrPut
      rw [hlookup]
  | none =>
      obtain ⟨m₁, hlookup, hcounters₁, hevictions₁⟩ := h.lookup_none
      obtain ⟨m₂, hput, hcounters₂, hevictions₂⟩ := hcounters₁.put s
      obtain ⟨off, m₃, hlookup₃, hcounters₃, hevictions₃, hoff, hstate⟩ := hcounters₂.lookup
      refine ⟨off, m₃, ?_, hcounters₃, ?_, hoff, hstate⟩
      · unfold Candidate.lookupOrPut
        rw [hlookup]
        simp only [hput, hlookup₃, if_true]
      · rw [hevictions₃, hevictions₂, hevictions₁]

/-- The failure of an event is counted through the counters' pointer. -/
theorem Counters.countFailure {m : LsMap} {s : LifeState} {off : Nat} (h : Counters m (some s))
    (hoff : RowAt m zeroKey off) (emitted : Bool) :
    Counters (countFailure emitted (some off) m) (some (counted emitted s)) ∧
      (countFailure emitted (some off) m).evictions = m.evictions := by
  have hstate := h.stateAt_eq hoff
  unfold Candidate.countFailure counted
  simp only [hstate]
  split
  · obtain ⟨hcounters, hevictions, -⟩ := h.set hoff { s with failures := s.failures + 1 }
    exact ⟨hcounters, hevictions⟩
  · exact ⟨h, rfl⟩

/-- The part after the counters, on the tables and on the watch. -/
theorem extractObject_refines (hobjects : Objects maps.objects w.object)
    (hstores : Stores maps.store w.held) (sequence failures : UInt64) :
    ∃ objects store, extractObject call (.heading run sequence failures) run maps =
        ((extractWatch call (.heading run sequence failures) run w).1,
          { maps with objects, store }) ∧
      Objects objects w.object ∧ objects.evictions = maps.objects.evictions ∧
      Stores store (extractWatch call (.heading run sequence failures) run w).2 ∧
      store.evictions = maps.store.evictions := by
  generalize he : CandidateEvent.heading run sequence failures = e
  unfold extractObject extractWatch
  cases hobject : w.object call.address with
  | none =>
      obtain ⟨m', hlookup, hobjects', hevictions⟩ := hobjects.lookup_none hobject
      rw [hlookup]
      subst he
      exact ⟨m', maps.store, rfl, hobjects', hevictions, hstores, rfl⟩
  | some o =>
      obtain ⟨off, m', hlookup, hobjects', hevictions, -, hat⟩ := hobjects.lookup hobject
      rw [hlookup]
      simp only [hat, target]
      split_ifs with hbirth hlimit hoverflow hpartial
      · subst he
        exact ⟨m', maps.store, rfl, hobjects', hevictions, hstores, rfl⟩
      · exact ⟨m', maps.store, rfl, hobjects', hevictions, hstores, rfl⟩
      · exact ⟨m', maps.store, rfl, hobjects', hevictions, hstores, rfl⟩
      all_goals
        have hsmall : Small o.lifetime :=
          ⟨fun h => hlimit (.inl h), UInt64.not_lt.mp fun h => hlimit (.inr h)⟩
      · obtain ⟨store, hextract, hstores', hevictions'⟩ := extractRows_spec hstores hsmall
          (o.attempt + 1) call { e with lifetime := o.lifetime, attempt := o.attempt + 1 }
        exact ⟨m', store, by rw [hextract], hobjects', hevictions, hstores', hevictions'⟩
      · obtain ⟨store, hextract, hstores', hevictions'⟩ := extractRows_spec hstores hsmall
          o.attempt call { e with lifetime := o.lifetime, attempt := o.attempt }
        exact ⟨m', store, by rw [hextract], hobjects', hevictions, hstores', hevictions'⟩

/-- A call on the tables is a call on the watch, and evicts nothing. -/
theorem requestCandidate_refines (h : Tables maps w) (call : CandidateCall) :
    (requestCandidate call maps).1 = (w.candidate call).1 ∧
      Tables (requestCandidate call maps).2 (w.candidate call).2 ∧
      SameEvictions maps (requestCandidate call maps).2 := by
  unfold requestCandidate candidateBody Watch.candidate
  cases call.config.run with
  | none => exact ⟨rfl, h, .refl maps⟩
  | some run =>
      obtain ⟨off, m₁, hlookup, hcounters₁, hevictions₁, hoff₁, hstate₁⟩ :=
        Counters.lookupOrPut h.counters (firstCounters run)
      simp only [firstCounters] at hlookup
      simp only [hlookup, hstate₁]
      generalize w.counter.getD (firstCounters run) = s at hcounters₁ hstate₁
      split_ifs with hrun hcalls
      · obtain ⟨hcounters, hevictions⟩ := Counters.countFailure hcounters₁ hoff₁ call.emitted
        exact ⟨rfl, ⟨hcounters, h.objects, h.stores⟩, ⟨hevictions.trans hevictions₁, rfl, rfl⟩⟩
      · obtain ⟨hcounters, hevictions⟩ := Counters.countFailure hcounters₁ hoff₁ call.emitted
        exact ⟨rfl, ⟨hcounters, h.objects, h.stores⟩, ⟨hevictions.trans hevictions₁, rfl, rfl⟩⟩
      · obtain ⟨hcounters₂, hevictions₂, hoff₂⟩ := hcounters₁.set hoff₁ (nextCall s)
        let maps₂ : LifeMaps := { maps with state := setRow m₁ off (nextCall s).bytes }
        obtain ⟨objects, store, hextract, hobjects, hevictionsO, hstores, hevictionsS⟩ :=
          @extractObject_refines maps₂ w call run h.objects h.stores (s.calls + 1) s.failures
        obtain ⟨hcounters, hevictions⟩ := Counters.countFailure hcounters₂ hoff₂ call.emitted
        have hevent := congrArg Prod.fst hextract
        have hmaps := congrArg (fun r => ({ r.2 with
          state := countFailure call.emitted (some off) r.2.state } : LifeMaps)) hextract
        refine ⟨hevent, ?_⟩
        refine hmaps ▸ ?_
        exact ⟨⟨hcounters, hobjects, hstores⟩,
          ⟨hevictions.trans (hevictions₂.trans hevictions₁), hevictionsO, hevictionsS⟩⟩

end Refinement

end Candidate
end LiveSurface
