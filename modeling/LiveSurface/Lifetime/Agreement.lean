import LiveSurface.Lifetime.Probe
import LiveSurface.Window.Join

/-!
# The probes and the join

The four programs observe one run from empty tables.  The join replays the lifetimes from
the events alone.  While the calls are orderly (none is about a parser that has ended or
about address zero, no parser starts before its last lifetime has ended, and in the end
every lifetime has ended), the replay goes through what the tables hold.

Main results:

- Theorem {lit}`Replays.step`: one call keeps the tables and the replay together.
- Theorem {lit}`probes_agree_with_join`: the window of an orderly run is accepted.
-/

namespace LiveSurface
namespace Lifetime

open Map Candidate

/-! ## Calls -/

/-- A call of one of the four programs. -/
inductive ParserCall
  | life (call : LifeCall)
  | candidate (call : CandidateCall)

/-- An event of one of the four programs. -/
inductive ParserEvent
  | life (e : LifeEvent)
  | candidate (e : CandidateEvent)

/-- The configuration of a call. -/
def ParserCall.config : ParserCall → ProbeConfig
  | .life call => call.config
  | .candidate call => call.config

/-- The event of a call is emitted. -/
def ParserCall.emitted : ParserCall → Bool
  | .life call => call.emitted
  | .candidate call => call.emitted

/-- A call on the tables of the thread. -/
def ParserCall.exec (maps : LifeMaps) : ParserCall → ParserEvent × LifeMaps
  | .life call => (.life (parserLifetime call maps).1, (parserLifetime call maps).2)
  | .candidate call => (.candidate (requestCandidate call maps).1, (requestCandidate call maps).2)

/-- The events of some calls, and the tables they leave. -/
def observe (maps : LifeMaps) : List ParserCall → List ParserEvent × LifeMaps
  | [] => ([], maps)
  | call :: rest =>
      ((call.exec maps).1 :: (observe (call.exec maps).2 rest).1,
        (observe (call.exec maps).2 rest).2)

/-- A call on a watch. -/
def ParserCall.watch (w : Watch) : ParserCall → ParserEvent × Watch
  | .life call => (.life (lifeWatch call w).1, (lifeWatch call w).2)
  | .candidate call => (.candidate (w.candidate call).1, (w.candidate call).2)

/-! ## Orderly calls -/

/-- What has happened at an address. -/
inductive Phase
  | unborn
  | alive
  | ended
deriving DecidableEq

/-- A call is about a parser that lives, or about one whose birth was not seen. -/
def ParserCall.Allowed (phase : UInt64 → Phase) : ParserCall → Prop
  | .candidate _ => True
  | .life call =>
      call.address ≠ 0 ∧
        match call.kind with
        | .init => phase call.address ≠ .alive
        | .parse => phase call.address ≠ .ended ∧
            (phase call.address = .alive → call.result = 0 ∨ call.result = 17)
        | .fini => phase call.address ≠ .ended

/-- What has happened after a call. -/
def ParserCall.after (phase : UInt64 → Phase) : ParserCall → UInt64 → Phase
  | .candidate _ => phase
  | .life call =>
      match call.kind with
      | .init => Function.update phase call.address .alive
      | .parse => phase
      | .fini =>
          if phase call.address = .alive then Function.update phase call.address .ended else phase

/-- Every call is allowed where it happens. -/
def AllAllowed (phase : UInt64 → Phase) : List ParserCall → Prop
  | [] => True
  | call :: rest => call.Allowed phase ∧ AllAllowed (call.after phase) rest

/-- What has happened after some calls. -/
def phaseAfter (phase : UInt64 → Phase) (calls : List ParserCall) : UInt64 → Phase :=
  calls.foldl (fun phase call => call.after phase) phase

/-- Every call of a run is allowed, and in the end no parser lives. -/
structure Orderly (calls : List ParserCall) : Prop where
  allowed : AllAllowed (fun _ => .unborn) calls
  settled : ∀ a, phaseAfter (fun _ => .unborn) calls a ≠ .alive

/-- The watch after some calls. -/
def watchAfter (w : Watch) (calls : List ParserCall) : Watch :=
  calls.foldl (fun w call => (call.watch w).2) w

/-- A call of the initialization probe. -/
def ParserCall.isBirth : ParserCall → Bool
  | .life call => call.kind = .init
  | .candidate _ => false

/-! ## The window -/

/-- A lifetime event as the join reads it. -/
def LifeEvent.decoded (e : LifeEvent) : Window.Lifetime where
  sequence := e.sequence.toNat
  run := e.run.toNat
  kind := e.kind.code
  lifetime := e.lifetime.toNat
  attempt := e.attempt.toNat
  value := e.value.toNat
  flags := e.flags
  failures := e.failures.toNat

/-- The name of a path. -/
def pathName : Nat → Option String
  | 1 => some "/mcp"
  | 2 => some "/a2a"
  | 3 => some "/delegate"
  | _ => none

/-- The text of a nonce, without the zeros at its end. -/
def nonceText (nonce : List UInt8) : String :=
  String.ofList ((nonce.reverse.dropWhile fun c => c = 0).reverse.map fun c => Char.ofNat c.toNat)

/-- A candidate event as the join reads it. -/
def decodedCandidate (e : CandidateEvent) : Window.Candidate where
  sequence := e.sequence.toNat
  run := e.run.toNat
  lifetime := e.lifetime.toNat
  attempt := e.attempt.toNat
  flags := e.flags
  failures := e.failures.toNat
  path := pathName e.path
  nonce := some (nonceText e.nonce)

/-- The lifetime events of a window. -/
def lifetimesOf (events : List ParserEvent) : List Window.Lifetime :=
  events.filterMap fun
    | .life e => some e.decoded
    | .candidate _ => none

/-- The candidate events of a window. -/
def candidatesOf (events : List ParserEvent) : List Window.Candidate :=
  events.filterMap fun
    | .life _ => none
    | .candidate e => some (decodedCandidate e)

/-- The lifetimes that births of a window report. -/
def birthsOf (events : List ParserEvent) : List Nat :=
  events.filterMap fun
    | .life e => if e.kind = .init then some e.lifetime.toNat else none
    | .candidate _ => none

/-- What the stream check reads of an event. -/
def ParserEvent.head : ParserEvent → Window.Head
  | .life e => ⟨e.sequence.toNat, e.run.toNat, e.failures.toNat⟩
  | .candidate e => ⟨e.sequence.toNat, e.run.toNat, e.failures.toNat⟩

/-! ## The replay -/

/-- The counters after some calls and births. -/
def countersAt (run : UInt64) (calls births : Nat) : LifeState where
  run := run
  calls := UInt64.ofNat calls
  births := UInt64.ofNat births
  failures := 0

/-- What the replay knows of an object. -/
structure Mirrors (run : UInt64) (calls births : Nat) (phase : Phase) (replay : Window.Walk)
    (o : LifeObject) : Prop where
  run_eq : o.run = run
  born : 1 ≤ o.lifetime.toNat ∧ o.lifetime.toNat ≤ births
  alive : phase = .alive → (o.state = active ∨ o.state = active ||| partly) ∧
    (o.lifetime.toNat : Int) ∉ replay.ended ∧
    replay.attempts o.lifetime.toNat = o.attempt.toNat ∧
    (replay.pending o.lifetime.toNat = true ↔ o.state = active ||| partly) ∧
    o.attempt.toNat ≤ calls
  ended : phase ≠ .alive → phase = .ended ∧ o.state = 0 ∧ (o.lifetime.toNat : Int) ∈ replay.ended

/-- The watch and the replay after some calls. -/
structure Replays (run : UInt64) (calls births : Nat) (phase : UInt64 → Phase) (w : Watch)
    (replay : Window.Walk) : Prop where
  counter : w.counter.getD (firstCounters run) = countersAt run calls births
  sameRun : ∀ s, w.counter = some s → s.run = run
  births_le : births ≤ 256
  within : ∃ known : Finset UInt64, (∀ a, w.object a ≠ none → a ∈ known) ∧ known.card ≤ births
  unborn : ∀ a, phase a = .unborn ↔ w.object a = none
  object : ∀ a o, w.object a = some o → Mirrors run calls births (phase a) replay o
  distinct : ∀ a b o o', w.object a = some o → w.object b = some o' →
    o.lifetime = o'.lifetime → a = b
  born : ∀ life, life ∈ replay.born ↔ 1 ≤ life ∧ life ≤ births
  ended : ∀ life ∈ replay.ended, life ∈ replay.born
  settled : ∀ life ∈ replay.born, life ∈ replay.ended ∨
    ∃ a o, w.object a = some o ∧ phase a = .alive ∧ (o.lifetime.toNat : Int) = life
  fresh : ∀ life : Int, births < life → replay.attempts life = 0 ∧ replay.pending life = false

section Steps

variable {run : UInt64} {calls births : Nat} {phase : UInt64 → Phase} {w : Watch}
  {replay : Window.Walk} {call : LifeCall} {o : LifeObject}

theorem countersAt_succ (run : UInt64) (calls births : Nat) :
    nextCall (countersAt run calls births) = countersAt run (calls + 1) births := by
  simp only [nextCall, countersAt, UInt64.ofNat_add]
  rfl

theorem countersAt_birth (run : UInt64) (calls births : Nat) :
    nextBirth (countersAt run calls births) = countersAt run calls (births + 1) := by
  simp only [nextBirth, countersAt, UInt64.ofNat_add]
  rfl

theorem replays_start (run : UInt64) :
    Replays run 0 0 (fun _ => .unborn) .start .empty where
  counter := rfl
  sameRun := fun s hs => (Option.some_ne_none s hs.symm).elim
  births_le := by decide
  within := ⟨∅, fun a ha => (ha rfl).elim, Nat.le_refl 0⟩
  unborn := fun a => ⟨fun _ => rfl, fun _ => rfl⟩
  object := fun a o h => (Option.some_ne_none o h.symm).elim
  distinct := fun a b o o' h => (Option.some_ne_none o h.symm).elim
  born := fun life => ⟨fun h => (List.not_mem_nil h).elim, fun h => by omega⟩
  ended := fun life h => (List.not_mem_nil h).elim
  settled := fun life h => (List.not_mem_nil h).elim
  fresh := fun life _ => ⟨rfl, rfl⟩

/-- What an object says holds after more calls. -/
theorem Mirrors.mono {p : Phase} (h : Mirrors run calls births p replay o) {calls' births' : Nat}
    (hcalls : calls ≤ calls') (hbirths : births ≤ births') :
    Mirrors run calls' births' p replay o := by
  refine ⟨h.run_eq, ⟨h.born.1, h.born.2.trans hbirths⟩, fun halive => ?_, h.ended⟩
  obtain ⟨hstate, hended, hattempts, hpending, hle⟩ := h.alive halive
  exact ⟨hstate, hended, hattempts, hpending, hle.trans hcalls⟩

/-- A call that leaves the objects. -/
theorem Replays.tick (h : Replays run calls births phase w replay) {w' : Watch}
    (hcounter : w'.counter = some (countersAt run (calls + 1) births))
    (hobject : w'.object = w.object) : Replays run (calls + 1) births phase w' replay := by
  refine ⟨by rw [hcounter]; rfl, fun s hs => ?_, h.births_le, ?_, ?_, ?_, ?_, h.born, h.ended, ?_,
    h.fresh⟩
  · rw [hcounter] at hs
    rw [← Option.some.inj hs]
    rfl
  all_goals rw [hobject]
  · exact h.within
  · exact h.unborn
  · exact fun a o ho => (h.object a o ho).mono (Nat.le_succ calls) (Nat.le_refl births)
  · exact h.distinct
  · exact h.settled

theorem counted_true (s : LifeState) : counted true s = s := by
  rw [counted, if_neg (by simp)]

theorem toNat_calls (h : calls + 1 < 2 ^ 64) : (UInt64.ofNat (calls + 1)).toNat = calls + 1 :=
  UInt64.toNat_ofNat_of_lt' (by simp only [UInt64.size]; omega)

theorem ofNat_ne_maxWord (h : calls + 1 < 2 ^ 64) : UInt64.ofNat calls ≠ maxWord := by
  intro heq
  have hword := congrArg UInt64.toNat heq
  rw [UInt64.toNat_ofNat_of_lt' (by simp only [UInt64.size]; omega)] at hword
  have hmax : maxWord.toNat = 2 ^ 64 - 1 := by decide
  omega

/-- A candidate's event has the heading of the call. -/
theorem head_extractWatch (call : CandidateCall) (e : CandidateEvent) (run : UInt64) (w : Watch) :
    (extractWatch call e run w).1.run = e.run ∧
      (extractWatch call e run w).1.sequence = e.sequence ∧
      (extractWatch call e run w).1.failures = e.failures := by
  unfold extractWatch
  split
  · exact ⟨rfl, rfl, rfl⟩
  · simp only [CandidateEvent.withState]
    split_ifs <;> exact ⟨rfl, rfl, rfl⟩

/-- A call of the candidate program in a run. -/
theorem Replays.candidate_eq (h : Replays run calls births phase w replay) {call : CandidateCall}
    (hconfig : call.config.run = some run) (hemitted : call.emitted = true)
    (hcalls : calls + 1 < 2 ^ 64) :
    w.candidate call = ((extractWatch call (.heading run (UInt64.ofNat (calls + 1)) 0) run w).1,
      { w with
        counter := some (countersAt run (calls + 1) births)
        held := (extractWatch call (.heading run (UInt64.ofNat (calls + 1)) 0) run w).2 }) := by
  have hne := ofNat_ne_maxWord hcalls
  have hsequence : (countersAt run calls births).calls + 1 = UInt64.ofNat (calls + 1) := by
    rw [UInt64.ofNat_add]
    rfl
  unfold Watch.candidate
  simp only [hconfig, h.counter, hemitted, counted_true, countersAt_succ, hsequence]
  rw [if_neg (by simp [countersAt]), if_neg (by exact hne)]
  rfl

/-- The heading of the event of a call in a run. -/
structure Heads (call : LifeCall) (run : UInt64) (calls : Nat) (e : LifeEvent) : Prop where
  run_eq : e.run = run
  sequence_eq : e.sequence.toNat = calls + 1
  lifetime_eq : e.lifetime = 0
  attempt_eq : e.attempt = 0
  value_eq : e.value = if call.kind = .parse then call.result else 0
  failures_eq : e.failures = 0
  kind_eq : e.kind = call.kind
  flags_eq : e.flags = 0

/-- A call of a lifetime probe in a run. -/
theorem Replays.life_eq (h : Replays run calls births phase w replay)
    (hconfig : call.config.run = some run) (hemitted : call.emitted = true)
    (hcalls : calls + 1 < 2 ^ 64) (haddress : call.address ≠ 0) :
    ∃ e, Heads call run calls e ∧
      lifeWatch call w =
        let r := objectWatch call e (countersAt run (calls + 1) births) (w.object call.address)
        (r.1, { w with
          counter := some r.2.1
          object := Function.update w.object call.address r.2.2 }) := by
  have hne := ofNat_ne_maxWord hcalls
  have hsequence : (countersAt run calls births).calls + 1 = UInt64.ofNat (calls + 1) := by
    rw [UInt64.ofNat_add]
    rfl
  have hcounter : (w.counter.filter fun s => s.run = run).getD (firstCounters run) =
      countersAt run calls births := by
    rw [← h.counter]
    cases hw : w.counter with
    | none => rfl
    | some s =>
        rw [Option.filter_some, if_pos (decide_eq_true (h.sameRun s hw))]
  refine ⟨call.heading run (UInt64.ofNat (calls + 1)) 0,
    ⟨rfl, toNat_calls hcalls, rfl, rfl, rfl, rfl, rfl, rfl⟩, ?_⟩
  unfold lifeWatch
  simp only [hconfig, hcounter, hemitted, counted_true, countersAt_succ, hsequence]
  rw [if_neg (by exact hne), if_neg haddress]
  rfl

/-- The attempt of the next bytes of an object. -/
def upcoming (o : LifeObject) : UInt64 :=
  if o.state &&& partly = 0 then o.attempt + 1 else o.attempt

theorem objectWatch_unborn {e : LifeEvent} {s : LifeState} (hkind : call.kind ≠ .init) :
    objectWatch call e s none = ({ e with flags := noBirth }, s, none) := by
  unfold objectWatch
  rw [if_neg hkind]
  rfl

/-- The exit of a parse that lives and has not failed. -/
theorem objectWatch_parse {e : LifeEvent} {s : LifeState} (hkind : call.kind = .parse)
    (hrun : o.run = e.run) (hstate : o.state = active ∨ o.state = active ||| partly)
    (hattempt : o.attempt ≠ maxWord) (hresult : call.result = 0 ∨ call.result = 17) :
    objectWatch call e s (some o) =
      ({ e with lifetime := o.lifetime, attempt := upcoming o }, s,
        some { o with
          attempt := upcoming o
          state := if call.result = 17 then active ||| partly else active }) := by
  have hactive : ¬o.state &&& active = 0 := by
    rcases hstate with h | h <;> rw [h] <;> decide
  have hbroken : o.state &&& broken = 0 := by
    rcases hstate with h | h <;> rw [h] <;> decide
  have hset : o.state ||| partly = active ||| partly := by
    rcases hstate with h | h <;> rw [h] <;> decide
  have hclear : o.state &&& ~~~partly = active := by
    rcases hstate with h | h <;> rw [h] <;> decide
  have hkind' : ¬call.kind = .init := by
    rw [hkind]
    decide
  unfold objectWatch lifeParse
  rw [if_neg hkind', Option.filter_some, if_pos (decide_eq_true hrun)]
  simp only [if_neg hactive, if_pos hkind, hbroken, ne_eq, not_true_eq_false, if_false, hattempt,
    and_false]
  rcases hresult with h | h
  · have hdone : ¬call.result = 17 := by
      rw [h]
      decide
    simp only [if_neg hdone, if_pos h, hclear, upcoming]
  · simp only [if_pos h, hset, upcoming]

/-- The end of a parser that lives. -/
theorem objectWatch_fini {e : LifeEvent} {s : LifeState} (hkind : call.kind = .fini)
    (hrun : o.run = e.run) (hstate : o.state = active ∨ o.state = active ||| partly) :
    objectWatch call e s (some o) =
      ({ e with
        lifetime := o.lifetime
        attempt := o.attempt
        flags := if o.state = active ||| partly then partialEnd else e.flags }, s,
        some { o with state := 0 }) := by
  have hactive : ¬o.state &&& active = 0 := by
    rcases hstate with h | h <;> rw [h] <;> decide
  have hpartly : (o.state &&& partly ≠ 0) = (o.state = active ||| partly) := by
    rcases hstate with h | h <;> rw [h] <;> decide
  have hkind' : ¬call.kind = .init := by
    rw [hkind]
    decide
  have hkind'' : ¬call.kind = .parse := by
    rw [hkind]
    decide
  unfold objectWatch lifeEnd
  rw [if_neg hkind', Option.filter_some, if_pos (decide_eq_true hrun)]
  simp only [if_neg hactive, if_neg hkind'', hpartly]

/-- A birth where no parser lives. -/
theorem objectWatch_birth {e : LifeEvent} {object : Option LifeObject}
    (hkind : call.kind = .init) (hbirths : births < 256)
    (hobject : ∀ o, object = some o → o.run = e.run ∧ o.state = 0) :
    objectWatch call e (countersAt run calls births) object =
      ({ e with
        lifetime := UInt64.ofNat (births + 1)
        value := object.elim e.value fun o => o.lifetime }, countersAt run calls (births + 1),
        some (newborn e.run (UInt64.ofNat (births + 1)))) := by
  have hroom : ¬(countersAt run calls births).births ≥ 256 := by
    rw [ge_iff_le, UInt64.le_iff_toNat_le]
    simp only [countersAt]
    rw [UInt64.toNat_ofNat_of_lt' (by simp only [UInt64.size]; omega)]
    exact Nat.not_le.mpr hbirths
  have hnext : (countersAt run calls births).births + 1 = UInt64.ofNat (births + 1) := by
    rw [UInt64.ofNat_add]
    rfl
  unfold objectWatch birthWatch
  rw [if_pos hkind]
  cases object with
  | none => simp only [Option.filter_none, Option.elim_none, if_neg hroom, hnext, countersAt_birth]
  | some o =>
      obtain ⟨hrun, hstate⟩ := hobject o rfl
      have hdup : (o.state &&& active ≠ 0) = False := by
        rw [hstate]
        decide
      rw [Option.filter_some, if_pos (decide_eq_true hrun)]
      simp only [Option.elim_some, if_neg hroom, hnext, countersAt_birth, LifeEvent.after, hdup,
        if_false]

/-- A call keeps the watch and the replay together. -/
structure Stepped (run : UInt64) (calls births : Nat) (phase : UInt64 → Phase)
    (replay : Window.Walk) (r : ParserEvent × Watch) : Prop where
  head : r.1.head = ⟨(calls : Int) + 1, run.toNat, 0⟩
  replays : ∃ replay', replay.run (lifetimesOf [r.1]) = some replay' ∧
    Replays run (calls + 1) births phase r.2 replay'

/-- A call of the candidate program. -/
theorem Replays.step_candidate (h : Replays run calls births phase w replay)
    {call : CandidateCall} (hconfig : call.config.run = some run) (hemitted : call.emitted = true)
    (hcalls : calls + 1 < 2 ^ 64) :
    Stepped run calls births phase replay (ParserCall.watch w (.candidate call)) := by
  have heq := h.candidate_eq hconfig hemitted hcalls
  obtain ⟨hrun, hsequence, hfailures⟩ := head_extractWatch call
    (.heading run (UInt64.ofNat (calls + 1)) 0) run w
  have hnumber := toNat_calls hcalls
  generalize extractWatch call (.heading run (UInt64.ofNat (calls + 1)) 0) run w = r
    at heq hrun hsequence hfailures
  refine ⟨?_, replay, rfl, ?_⟩
  · simp only [ParserCall.watch, heq, ParserEvent.head, hrun, hsequence, hfailures,
      CandidateEvent.heading, hnumber]
    rfl
  · simp only [ParserCall.watch, heq]
    exact h.tick rfl rfl

/-- A call about a parser whose birth was not seen. -/
theorem Replays.step_unborn (h : Replays run calls births phase w replay)
    (hconfig : call.config.run = some run) (hemitted : call.emitted = true)
    (hcalls : calls + 1 < 2 ^ 64) (haddress : call.address ≠ 0) (hkind : call.kind ≠ .init)
    (hobject : w.object call.address = none) :
    Stepped run calls births phase replay (ParserCall.watch w (.life call)) := by
  obtain ⟨e, he, heq⟩ := h.life_eq hconfig hemitted hcalls haddress
  rw [hobject, objectWatch_unborn hkind] at heq
  have hsame : Function.update w.object call.address none = w.object := by
    rw [← hobject, Function.update_eq_self]
  have hcode : (e.kind.code : Int) ≠ 1 := by
    rw [he.kind_eq]
    cases hk : call.kind with
    | init => exact (hkind hk).elim
    | parse => decide
    | fini => decide
  simp only [ParserCall.watch, heq]
  refine ⟨?_, replay, ?_, h.tick rfl hsame⟩
  · simp only [ParserEvent.head, he.sequence_eq, he.run_eq, he.failures_eq]
    rfl
  · have hstep : replay.step (LifeEvent.decoded { e with flags := noBirth }) = some replay :=
      Window.Walk.step_unborn replay hcode rfl (by simp [LifeEvent.decoded, he.lifetime_eq])
        (by simp [LifeEvent.decoded, he.attempt_eq])
    simp only [lifetimesOf, List.filterMap_cons, List.filterMap_nil, Window.Walk.run, hstep,
      Option.bind_some]

theorem lifetimesOf_life (e : LifeEvent) (replay : Window.Walk) :
    replay.run (lifetimesOf [.life e]) = replay.step e.decoded := by
  simp only [lifetimesOf, List.filterMap_cons, List.filterMap_nil, Window.Walk.run]
  cases replay.step e.decoded <;> rfl

/-- What an object says where a replay changes for another lifetime only. -/
theorem Mirrors.other {p : Phase} {replay' : Window.Walk}
    (h : Mirrors run calls births p replay o)
    (hattempts : replay'.attempts o.lifetime.toNat = replay.attempts o.lifetime.toNat)
    (hpending : replay'.pending o.lifetime.toNat = replay.pending o.lifetime.toNat)
    (hended : (o.lifetime.toNat : Int) ∈ replay'.ended ↔ (o.lifetime.toNat : Int) ∈ replay.ended) :
    Mirrors run calls births p replay' o := by
  refine ⟨h.run_eq, h.born, fun halive => ?_, fun hover => ?_⟩
  · rw [hended, hattempts, hpending]
    exact h.alive halive
  · rw [hended]
    exact h.ended hover

/-- The lifetimes of two addresses differ. -/
theorem Replays.lifetime_ne (h : Replays run calls births phase w replay) {a b : UInt64}
    {o' : LifeObject} (ha : w.object a = some o) (hb : w.object b = some o') (hne : b ≠ a) :
    (o'.lifetime.toNat : Int) ≠ o.lifetime.toNat := by
  intro heq
  exact hne (h.distinct b a o' o hb ha (UInt64.toNat_inj.mp (Int.ofNat_inj.mp heq)))

theorem Replays.mem_born (h : Replays run calls births phase w replay) {a : UInt64}
    (ho : w.object a = some o) : (o.lifetime.toNat : Int) ∈ replay.born := by
  obtain ⟨hpos, hle⟩ := (h.object a o ho).born
  exact (h.born _).mpr ⟨by omega, by omega⟩

/-- A call that changes the object of one address, in its lifetime. -/
theorem Replays.replace (h : Replays run calls births phase w replay) {a : UInt64}
    {o' : LifeObject} {phase' : UInt64 → Phase} {replay' : Window.Walk} {w' : Watch}
    (hcounter : w'.counter = some (countersAt run (calls + 1) births))
    (hself : w'.object a = some o') (hrest : ∀ b, b ≠ a → w'.object b = w.object b)
    (ho : w.object a = some o) (hlife : o'.lifetime = o.lifetime)
    (hphase : ∀ b, b ≠ a → phase' b = phase b) (hborn : replay'.born = replay.born)
    (hothers : ∀ life, life ≠ (o.lifetime.toNat : Int) →
      replay'.attempts life = replay.attempts life ∧ replay'.pending life = replay.pending life ∧
        (life ∈ replay'.ended ↔ life ∈ replay.ended))
    (hmirror : Mirrors run (calls + 1) births (phase' a) replay' o')
    (hover : phase' a = .alive ∨ phase' a = .ended ∧ (o.lifetime.toNat : Int) ∈ replay'.ended) :
    Replays run (calls + 1) births phase' w' replay' := by
  have hmem := h.mem_born ho
  have hother : ∀ b x, b ≠ a → w.object b = some x →
      (x.lifetime.toNat : Int) ≠ o.lifetime.toNat :=
    fun b x hb hx => h.lifetime_ne ho hx hb
  refine ⟨by rw [hcounter]; rfl, fun s hs => ?_, h.births_le, ?_, fun b => ?_,
    fun b x hx => ?_, fun b c x y hx hy hxy => ?_, fun life => by rw [hborn]; exact h.born life,
    fun life hlife' => ?_, fun life hlife' => ?_, fun life hlife' => ?_⟩
  · rw [hcounter] at hs
    rw [← Option.some.inj hs]
    rfl
  · obtain ⟨known, hknown, hcard⟩ := h.within
    refine ⟨known, fun b hb => ?_, hcard⟩
    by_cases hba : b = a
    · exact hknown b (by rw [hba, ho]; exact Option.some_ne_none o)
    · exact hknown b (by rwa [hrest b hba] at hb)
  · by_cases hba : b = a
    · rw [hba, hself]
      refine ⟨fun hunborn => ?_, fun hnone => (Option.some_ne_none _ hnone).elim⟩
      rcases hover with halive | ⟨hended, -⟩
      · rw [halive] at hunborn
        contradiction
      · rw [hended] at hunborn
        contradiction
    · rw [hrest b hba, hphase b hba]
      exact h.unborn b
  · by_cases hba : b = a
    · rw [hba, hself] at hx
      rw [hba, ← Option.some.inj hx]
      exact hmirror
    · rw [hrest b hba] at hx
      rw [hphase b hba]
      obtain ⟨hattempts, hpending, hended⟩ := hothers _ (hother b x hba hx)
      exact ((h.object b x hx).mono (Nat.le_succ calls) (Nat.le_refl births)).other hattempts
        hpending hended
  · by_cases hba : b = a
    · by_cases hca : c = a
      · rw [hba, hca]
      · rw [hba, hself] at hx
        rw [hrest c hca] at hy
        rw [← Option.some.inj hx, hlife] at hxy
        rw [hba, h.distinct a c o y ho hy hxy]
    · by_cases hca : c = a
      · rw [hrest b hba] at hx
        rw [hca, hself] at hy
        rw [← Option.some.inj hy, hlife] at hxy
        rw [hca, h.distinct b a x o hx ho hxy]
      · rw [hrest b hba] at hx
        rw [hrest c hca] at hy
        exact h.distinct b c x y hx hy hxy
  · rw [hborn]
    by_cases hl : life = o.lifetime.toNat
    · rw [hl]
      exact hmem
    · exact h.ended life ((hothers life hl).2.2.mp hlife')
  · rw [hborn] at hlife'
    by_cases hl : life = o.lifetime.toNat
    · rw [hl]
      rcases hover with halive | ⟨-, hended⟩
      · exact .inr ⟨a, o', hself, halive, by rw [hlife]⟩
      · exact .inl hended
    · rw [(hothers life hl).2.2]
      rcases h.settled life hlife' with hended | ⟨b, x, hx, halive, hxl⟩
      · exact .inl hended
      · have hba : b ≠ a := by
          rintro rfl
          rw [ho] at hx
          rw [← Option.some.inj hx] at hxl
          exact hl hxl.symm
        exact .inr ⟨b, x, by rw [hrest b hba]; exact hx, by rw [hphase b hba, halive],
          hxl⟩
  · have hl : life ≠ o.lifetime.toNat := by
      have hle := ((h.born _).mp hmem).2
      omega
    obtain ⟨hattempts, hpending, -⟩ := hothers life hl
    rw [hattempts, hpending]
    exact h.fresh life hlife'

/-- The exit of a parse. -/
theorem Replays.step_parse (h : Replays run calls births phase w replay)
    (hconfig : call.config.run = some run) (hemitted : call.emitted = true)
    (hcalls : calls + 1 < 2 ^ 64) (haddress : call.address ≠ 0) (hkind : call.kind = .parse)
    (hobject : w.object call.address = some o) (halive : phase call.address = .alive)
    (hresult : call.result = 0 ∨ call.result = 17) :
    Stepped run calls births phase replay (ParserCall.watch w (.life call)) := by
  obtain ⟨e, he, heq⟩ := h.life_eq hconfig hemitted hcalls haddress
  have hmirror := h.object call.address o hobject
  obtain ⟨hstate, hlive, hattempts, hpending, hle⟩ := hmirror.alive halive
  have hbound : o.attempt ≠ maxWord := by
    intro hmax
    have hword := congrArg UInt64.toNat hmax
    have hval : maxWord.toNat = 2 ^ 64 - 1 := by decide
    omega
  rw [hobject, objectWatch_parse hkind (by rw [hmirror.run_eq, he.run_eq]) hstate hbound
    hresult] at heq
  have hupcoming : ((upcoming o).toNat : Int) = replay.attempts o.lifetime.toNat +
      if replay.pending o.lifetime.toNat then 0 else 1 := by
    rw [hattempts, upcoming]
    rcases hstate with hactive | hpartly
    · have hnot : ¬replay.pending o.lifetime.toNat = true := by
        rw [hpending, hactive]
        decide
      have hmax : maxWord.toNat = 2 ^ 64 - 1 := by decide
      have hlt : o.attempt.toNat + 1 < 2 ^ 64 := by omega
      rw [if_pos (by rw [hactive]; decide), if_neg hnot, UInt64.toNat_add]
      simp only [UInt64.toNat_one]
      rw [Nat.mod_eq_of_lt hlt]
      rfl
    · rw [if_neg (by rw [hpartly]; decide), if_pos (hpending.mpr hpartly), Int.add_zero]
  have hvalue : e.value = call.result := by rw [he.value_eq, if_pos hkind]
  let e' : LifeEvent := { e with lifetime := o.lifetime, attempt := upcoming o }
  have hstep : replay.step e'.decoded = some { replay with
      attempts := Function.update replay.attempts e'.decoded.lifetime e'.decoded.attempt
      pending := Function.update replay.pending e'.decoded.lifetime (e'.decoded.value = 17) } := by
    refine Window.Walk.step_parse replay ?_ ?_ ?_ hlive ?_ hupcoming
    · show (e.kind.code : Int) = 2
      rw [he.kind_eq, hkind]
      rfl
    · show (e.flags : Int) = 0
      rw [he.flags_eq]
      rfl
    · exact h.mem_born hobject
    · show (e.value.toNat : Int) = 0 ∨ (e.value.toNat : Int) = 17
      rw [hvalue]
      rcases hresult with hr | hr <;> rw [hr] <;> decide
  simp only [ParserCall.watch, heq]
  refine ⟨?_, _, (lifetimesOf_life e' replay).trans hstep, ?_⟩
  · simp only [ParserEvent.head, he.sequence_eq, he.run_eq, he.failures_eq]
    rfl
  · refine h.replace rfl (Function.update_self _ _ _) (fun _ hb => Function.update_of_ne hb _ _)
      hobject rfl (fun _ _ => rfl) rfl (fun life hlife => ?_) ?_ (.inl halive)
    · exact ⟨Function.update_of_ne hlife _ _, Function.update_of_ne hlife _ _, Iff.rfl⟩
    · refine ⟨hmirror.run_eq, hmirror.born, fun _ => ⟨?_, hlive, Function.update_self _ _ _, ?_, ?_⟩,
        fun hdead => (hdead halive).elim⟩
      · rcases hresult with hr | hr
        · exact .inl (if_neg (by rw [hr]; decide))
        · exact .inr (if_pos hr)
      · have hsame : Function.update replay.pending (o.lifetime.toNat : Int)
            (decide ((e.value.toNat : Int) = 17)) o.lifetime.toNat = true ↔ call.result = 17 := by
          rw [Function.update_self, decide_eq_true_iff, hvalue]
          rcases hresult with hr | hr <;> rw [hr] <;> decide
        refine hsame.trans ⟨fun hr => if_pos hr, fun hset => ?_⟩
        by_contra hr
        have hunset : active = active ||| partly := (if_neg hr).symm.trans hset
        exact absurd hunset (by decide)
      · have hle' : (upcoming o).toNat ≤ o.attempt.toNat + 1 := by
          unfold upcoming
          split_ifs
          · rw [UInt64.toNat_add]
            exact Nat.mod_le _ _
          · exact Nat.le_succ _
        exact hle'.trans (Nat.succ_le_succ hle)

/-- The end of a parser. -/
theorem Replays.step_fini (h : Replays run calls births phase w replay)
    (hconfig : call.config.run = some run) (hemitted : call.emitted = true)
    (hcalls : calls + 1 < 2 ^ 64) (haddress : call.address ≠ 0) (hkind : call.kind = .fini)
    (hobject : w.object call.address = some o) (halive : phase call.address = .alive) :
    Stepped run calls births (Function.update phase call.address .ended) replay
      (ParserCall.watch w (.life call)) := by
  obtain ⟨e, he, heq⟩ := h.life_eq hconfig hemitted hcalls haddress
  have hmirror := h.object call.address o hobject
  obtain ⟨hstate, hlive, hattempts, hpending, -⟩ := hmirror.alive halive
  rw [hobject, objectWatch_fini hkind (by rw [hmirror.run_eq, he.run_eq]) hstate] at heq
  let e' : LifeEvent := { e with
    lifetime := o.lifetime
    attempt := o.attempt
    flags := if o.state = active ||| partly then partialEnd else e.flags }
  have hflags : e'.decoded.flags = if replay.pending e'.decoded.lifetime then 256 else 0 := by
    show (((if o.state = active ||| partly then partialEnd else e.flags : Nat)) : Int) =
      if replay.pending o.lifetime.toNat then 256 else 0
    by_cases hpartly : o.state = active ||| partly
    · rw [if_pos hpartly, if_pos (hpending.mpr hpartly)]
      rfl
    · rw [if_neg hpartly, if_neg (fun hp => hpartly (hpending.mp hp)), he.flags_eq]
      rfl
  have hstep : replay.step e'.decoded =
      some { replay with ended := e'.decoded.lifetime :: replay.ended } := by
    refine Window.Walk.step_end replay ?_ (h.mem_born hobject) hlive hflags hattempts.symm
    show (e.kind.code : Int) = 3
    rw [he.kind_eq, hkind]
    rfl
  simp only [ParserCall.watch, heq]
  refine ⟨?_, _, (lifetimesOf_life e' replay).trans hstep, ?_⟩
  · simp only [ParserEvent.head, he.sequence_eq, he.run_eq, he.failures_eq]
    rfl
  · have hover : Function.update phase call.address .ended call.address = .ended :=
      Function.update_self _ _ _
    refine h.replace rfl (Function.update_self _ _ _) (fun _ hb => Function.update_of_ne hb _ _)
      hobject rfl (fun _ hb => Function.update_of_ne hb _ _) rfl (fun life hlife => ?_) ?_
      (.inr ⟨hover, List.mem_cons_self⟩)
    · refine ⟨rfl, rfl, ?_⟩
      rw [List.mem_cons]
      exact or_iff_right hlife
    · refine ⟨hmirror.run_eq, hmirror.born, fun hp => ?_, fun _ => ⟨hover, rfl, List.mem_cons_self⟩⟩
      rw [hover] at hp
      contradiction

/-- A new lifetime at an address where no parser lives. -/
theorem Replays.add (h : Replays run calls births phase w replay) {a : UInt64}
    {o' : LifeObject} {w' : Watch} (hbirths : births < 256) (hphase : phase a ≠ .alive)
    (hcounter : w'.counter = some (countersAt run (calls + 1) (births + 1)))
    (hself : w'.object a = some o') (hrest : ∀ b, b ≠ a → w'.object b = w.object b)
    (hlife : o'.lifetime.toNat = births + 1)
    (hnew : o'.run = run ∧ o'.attempt = 0 ∧ o'.state = active) :
    Replays run (calls + 1) (births + 1) (Function.update phase a .alive) w'
      { replay with born := ((births : Int) + 1) :: replay.born } := by
  obtain ⟨hrun, hattempt, hstate⟩ := hnew
  have hmem : ∀ life, life ∈ ((births : Int) + 1) :: replay.born ↔
      1 ≤ life ∧ life ≤ ((births + 1 : Nat) : Int) := by
    intro life
    rw [List.mem_cons, h.born]
    omega
  have hunended : (o'.lifetime.toNat : Int) ∉ replay.ended := by
    intro hmem'
    have := (h.born _).mp (h.ended _ hmem')
    omega
  obtain ⟨hattempts, hpending⟩ := h.fresh o'.lifetime.toNat (by omega)
  have hle : ∀ b x, w.object b = some x → x.lifetime.toNat ≤ births :=
    fun b x hx => (h.object b x hx).born.2
  refine ⟨by rw [hcounter]; rfl, fun s hs => ?_, by omega, ?_, fun b => ?_, fun b x hx => ?_,
    fun b c x y hx hy hxy => ?_, hmem, fun life hl => ?_, fun life hl => ?_, fun life hl => ?_⟩
  · rw [hcounter] at hs
    rw [← Option.some.inj hs]
    rfl
  · obtain ⟨known, hknown, hcard⟩ := h.within
    refine ⟨insert a known, fun b hb => ?_, (Finset.card_insert_le a known).trans (by omega)⟩
    by_cases hba : b = a
    · rw [hba]
      exact Finset.mem_insert_self a known
    · rw [hrest b hba] at hb
      exact Finset.mem_insert_of_mem (hknown b hb)
  · by_cases hba : b = a
    · rw [hba, hself, Function.update_self]
      exact ⟨fun hunborn => by contradiction, fun hnone => (Option.some_ne_none _ hnone).elim⟩
    · rw [hrest b hba, Function.update_of_ne hba]
      exact h.unborn b
  · by_cases hba : b = a
    · rw [hba, hself] at hx
      rw [hba, Function.update_self, ← Option.some.inj hx]
      refine ⟨hrun, by omega, fun _ => ⟨.inl hstate, hunended, ?_, ?_, ?_⟩,
        fun hdead => (hdead rfl).elim⟩
      · rw [hattempts, hattempt]
        rfl
      · rw [hpending, hstate]
        decide
      · rw [hattempt]
        exact Nat.zero_le _
    · rw [hrest b hba] at hx
      rw [Function.update_of_ne hba]
      exact ((h.object b x hx).mono (Nat.le_succ calls) (Nat.le_succ births)).other rfl rfl Iff.rfl
  · by_cases hba : b = a
    · by_cases hca : c = a
      · rw [hba, hca]
      · rw [hba, hself] at hx
        rw [hrest c hca] at hy
        have hlt := hle c y hy
        rw [← hxy, ← Option.some.inj hx] at hlt
        omega
    · by_cases hca : c = a
      · rw [hrest b hba] at hx
        rw [hca, hself] at hy
        have hlt := hle b x hx
        rw [hxy, ← Option.some.inj hy] at hlt
        omega
      · rw [hrest b hba] at hx
        rw [hrest c hca] at hy
        exact h.distinct b c x y hx hy hxy
  · exact List.mem_cons_of_mem _ (h.ended life hl)
  · rcases List.mem_cons.mp hl with hl | hl
    · exact .inr ⟨a, o', hself, Function.update_self _ _ _, by omega⟩
    · rcases h.settled life hl with hended | ⟨b, x, hx, halive, hxl⟩
      · exact .inl hended
      · have hba : b ≠ a := by
          rintro rfl
          exact hphase halive
        exact .inr ⟨b, x, by rw [hrest b hba]; exact hx,
          by rw [Function.update_of_ne hba, halive], hxl⟩
  · exact h.fresh life (by omega)

/-- A birth where no parser lives. -/
theorem Replays.step_birth (h : Replays run calls births phase w replay)
    (hconfig : call.config.run = some run) (hemitted : call.emitted = true)
    (hcalls : calls + 1 < 2 ^ 64) (haddress : call.address ≠ 0) (hkind : call.kind = .init)
    (hphase : phase call.address ≠ .alive) (hbirths : births < 256) :
    Stepped run calls (births + 1) (Function.update phase call.address .alive) replay
        (ParserCall.watch w (.life call)) ∧
      (lifeWatch call w).1.kind = .init ∧
      (lifeWatch call w).1.lifetime.toNat = births + 1 := by
  obtain ⟨e, he, heq⟩ := h.life_eq hconfig hemitted hcalls haddress
  have hobject : ∀ o, w.object call.address = some o → o.run = e.run ∧ o.state = 0 := by
    intro o ho
    have hmirror := h.object call.address o ho
    exact ⟨by rw [hmirror.run_eq, he.run_eq], (hmirror.ended hphase).2.1⟩
  have hnumber : (UInt64.ofNat (births + 1)).toNat = births + 1 :=
    UInt64.toNat_ofNat_of_lt' (by simp only [UInt64.size]; omega)
  rw [objectWatch_birth hkind hbirths hobject] at heq
  let e' : LifeEvent := { e with
    lifetime := UInt64.ofNat (births + 1)
    value := (w.object call.address).elim e.value fun o => o.lifetime }
  have hlife : e'.decoded.lifetime = (births : Int) + 1 := by
    show ((UInt64.ofNat (births + 1)).toNat : Int) = births + 1
    rw [hnumber]
    rfl
  have hnew : e'.decoded.lifetime ∉ replay.born := by
    rw [h.born, hlife]
    omega
  have hstep : replay.step e'.decoded =
      some { replay with born := e'.decoded.lifetime :: replay.born } := by
    refine Window.Walk.step_birth replay ?_ ?_ (by rw [hlife]; omega) hnew ?_
    · show (e.kind.code : Int) = 1
      rw [he.kind_eq, hkind]
      rfl
    · show (e.flags : Int) = 0
      rw [he.flags_eq]
      rfl
    · show ((((w.object call.address).elim e.value fun o => o.lifetime).toNat : Int)) = 0 ∨ _
      cases ho : w.object call.address with
      | none =>
          rw [Option.elim_none, he.value_eq, if_neg (by rw [hkind]; decide)]
          exact .inl rfl
      | some o =>
          refine .inr ?_
          show ((((w.object call.address).elim e.value fun o => o.lifetime).toNat : Int)) ∈ _
          rw [ho]
          exact ((h.object call.address o ho).ended hphase).2.2
  simp only [ParserCall.watch, heq]
  refine ⟨⟨?_, _, (lifetimesOf_life e' replay).trans hstep, ?_⟩, by rw [he.kind_eq, hkind], hnumber⟩
  · simp only [ParserEvent.head, he.sequence_eq, he.run_eq, he.failures_eq]
    rfl
  · rw [hlife]
    exact h.add hbirths hphase rfl (Function.update_self _ _ _)
      (fun _ hb => Function.update_of_ne hb _ _) hnumber ⟨he.run_eq, rfl, rfl⟩

theorem kind_objectWatch (call : LifeCall) (e : LifeEvent) (s : LifeState)
    (object : Option LifeObject) : (objectWatch call e s object).1.kind = e.kind := by
  unfold objectWatch birthWatch lifeParse lifeEnd
  cases object.filter fun object => object.run = e.run <;>
    simp only [Option.elim_none, Option.elim_some] <;> split_ifs <;> rfl

/-- A birth reports the next lifetime; no other call reports one. -/
theorem Replays.step_births (h : Replays run calls births phase w replay) {c : ParserCall}
    (hconfig : c.config.run = some run) (hemitted : c.emitted = true)
    (hcalls : calls + 1 < 2 ^ 64) (hallowed : c.Allowed phase)
    (hbirths : births + (if c.isBirth then 1 else 0) ≤ 256) :
    birthsOf [(c.watch w).1] = if c.isBirth then [births + 1] else [] := by
  cases c with
  | candidate call => rfl
  | life call =>
      obtain ⟨haddress, hkind⟩ := hallowed
      have hbirth : (ParserCall.life call).isBirth = decide (call.kind = .init) := rfl
      by_cases hk : call.kind = .init
      · rw [hk] at hkind
        rw [hbirth, if_pos (decide_eq_true hk)] at hbirths ⊢
        obtain ⟨-, hinit, hlife⟩ :=
          h.step_birth hconfig hemitted hcalls haddress hk hkind (by omega)
        simp only [ParserCall.watch, birthsOf, List.filterMap_cons, List.filterMap_nil, hinit,
          if_true, hlife]
      · obtain ⟨e, he, heq⟩ := h.life_eq hconfig hemitted hcalls haddress
        have hother : ¬(lifeWatch call w).1.kind = .init := by
          rw [heq]
          show ¬(objectWatch call e _ _).1.kind = .init
          rw [kind_objectWatch, he.kind_eq]
          exact hk
        rw [hbirth, if_neg (by simp [hk])]
        simp only [ParserCall.watch, birthsOf, List.filterMap_cons, List.filterMap_nil, hother,
          if_false]

/-- One call keeps the tables' values and the replay together. -/
theorem Replays.step (h : Replays run calls births phase w replay) {c : ParserCall}
    (hconfig : c.config.run = some run) (hemitted : c.emitted = true)
    (hcalls : calls + 1 < 2 ^ 64) (hallowed : c.Allowed phase)
    (hbirths : births + (if c.isBirth then 1 else 0) ≤ 256) :
    Stepped run calls (births + if c.isBirth then 1 else 0) (c.after phase) replay (c.watch w) := by
  cases c with
  | candidate call =>
      have hstep := h.step_candidate hconfig hemitted hcalls
      simpa only [ParserCall.isBirth, ParserCall.after, Bool.false_eq_true, if_false,
        Nat.add_zero] using hstep
  | life call =>
      obtain ⟨haddress, hkind⟩ := hallowed
      have hbirth : (ParserCall.life call).isBirth = decide (call.kind = .init) := rfl
      cases hk : call.kind with
      | init =>
          rw [hk] at hkind
          rw [hbirth, if_pos (decide_eq_true hk)] at hbirths ⊢
          have hafter : ParserCall.after phase (.life call) =
              Function.update phase call.address .alive := by
            simp only [ParserCall.after, hk]
          rw [hafter]
          exact (h.step_birth hconfig hemitted hcalls haddress hk hkind (by omega)).1
      | parse =>
          rw [hk] at hkind
          obtain ⟨hended, hresult⟩ := hkind
          have hafter : ParserCall.after phase (.life call) = phase := by
            simp only [ParserCall.after, hk]
          rw [hbirth, if_neg (by rw [hk]; decide), Nat.add_zero, hafter]
          cases hobject : w.object call.address with
          | none =>
              exact h.step_unborn hconfig hemitted hcalls haddress (by rw [hk]; decide) hobject
          | some o =>
              have halive : phase call.address = .alive := by
                by_contra hne
                exact hended ((h.object call.address o hobject).ended hne).1
              exact h.step_parse hconfig hemitted hcalls haddress hk hobject halive
                (hresult halive)
      | fini =>
          rw [hk] at hkind
          rw [hbirth, if_neg (by rw [hk]; decide), Nat.add_zero]
          cases hobject : w.object call.address with
          | none =>
              have hunborn := (h.unborn call.address).mpr hobject
              have hafter : ParserCall.after phase (.life call) = phase := by
                simp only [ParserCall.after, hk]
                rw [if_neg (by rw [hunborn]; decide)]
              rw [hafter]
              exact h.step_unborn hconfig hemitted hcalls haddress (by rw [hk]; decide) hobject
          | some o =>
              have halive : phase call.address = .alive := by
                by_contra hne
                exact hkind ((h.object call.address o hobject).ended hne).1
              have hafter : ParserCall.after phase (.life call) =
                  Function.update phase call.address .ended := by
                simp only [ParserCall.after, hk]
                rw [if_pos halive]
              rw [hafter]
              exact h.step_fini hconfig hemitted hcalls haddress hk hobject halive

end Steps

/-! ## Runs -/

/-- A call of a run whose event is emitted. -/
structure ParserCall.Good (c : ParserCall) (run : UInt64) : Prop where
  config : c.config.run = some run
  emitted : c.emitted = true

section Runs

variable {run : UInt64} {calls births : Nat} {phase : UInt64 → Phase} {w : Watch}
  {replay : Window.Walk} {maps : LifeMaps}

theorem Replays.toWithin (h : Replays run calls births phase w replay) : Within w := by
  obtain ⟨known, hknown, hcard⟩ := h.within
  refine ⟨known, hknown, ?_⟩
  have hbirths : (countersAt run calls births).births.toNat = births := by
    have hle := h.births_le
    exact UInt64.toNat_ofNat_of_lt' (by simp only [UInt64.size]; omega)
  have hcounter := h.counter
  cases hw : w.counter with
  | none =>
      rw [hw, Option.getD_none] at hcounter
      rw [← hcounter] at hbirths
      have hzero : (firstCounters run).births.toNat = 0 := rfl
      rw [Option.elim_none]
      omega
  | some s =>
      rw [hw, Option.getD_some] at hcounter
      rw [Option.elim_some, hcounter, hbirths]
      exact hcard

/-- A call on the tables is a call on the watch. -/
theorem Replays.exec (h : Replays run calls births phase w replay) (ht : Tables maps w)
    {c : ParserCall} (hc : c.Good run) :
    (c.exec maps).1 = (c.watch w).1 ∧ Tables (c.exec maps).2 (c.watch w).2 ∧
      SameEvictions maps (c.exec maps).2 := by
  cases c with
  | candidate call =>
      obtain ⟨hevent, htables, hevictions⟩ := requestCandidate_refines ht call
      exact ⟨congrArg ParserEvent.candidate hevent, htables, hevictions⟩
  | life call =>
      have hrun : ∀ s, w.counter = some s → call.config.run = some s.run := by
        intro s hs
        rw [h.sameRun s hs]
        exact hc.config
      obtain ⟨hevent, htables, hevictions⟩ := parserLifetime_refines ht h.toWithin hrun
      exact ⟨congrArg ParserEvent.life hevent, htables, hevictions⟩

theorem walk_append (replay : Window.Walk) (es fs : List Window.Lifetime) :
    replay.run (es ++ fs) = (replay.run es).bind fun replay => replay.run fs := by
  induction es generalizing replay with
  | nil => rfl
  | cons e rest ih =>
      rw [List.cons_append, Window.Walk.run, Window.Walk.run]
      cases replay.step e with
      | none => rfl
      | some replay' => exact ih replay'

/-- The tables and the replay after some calls. -/
structure Observed (run : UInt64) (calls births : Nat) (phase : UInt64 → Phase)
    (replay : Window.Walk) (maps : LifeMaps) (cs : List ParserCall) (w' : Watch)
    (replay' : Window.Walk) : Prop where
  tables : Tables (observe maps cs).2 w'
  evictions : SameEvictions maps (observe maps cs).2
  replays : Replays run (calls + cs.length) (births + cs.countP ParserCall.isBirth)
    (phaseAfter phase cs) w' replay'
  walk : replay.run (lifetimesOf (observe maps cs).1) = some replay'
  heads : (observe maps cs).1.map ParserEvent.head =
    (List.range cs.length).map fun i : Nat => ⟨(calls : Int) + i + 1, run.toNat, 0⟩
  births : birthsOf (observe maps cs).1 =
    List.range' (births + 1) (cs.countP ParserCall.isBirth)

/-- Orderly calls keep the tables and the replay together. -/
theorem Replays.observed (h : Replays run calls births phase w replay) (ht : Tables maps w)
    {cs : List ParserCall} (hcs : ∀ c ∈ cs, c.Good run) (hcalls : calls + cs.length < 2 ^ 64)
    (hallowed : AllAllowed phase cs)
    (hbirths : births + cs.countP ParserCall.isBirth ≤ 256) :
    ∃ replay', Observed run calls births phase replay maps cs (watchAfter w cs) replay' := by
  induction cs generalizing calls births phase w replay maps with
  | nil => exact ⟨replay, ht, .refl maps, h, rfl, rfl, rfl⟩
  | cons c rest ih =>
      obtain ⟨hc, hallowed⟩ := hallowed
      have hgood := hcs c List.mem_cons_self
      rw [List.length_cons] at hcalls
      rw [List.countP_cons] at hbirths
      have hcalls' : calls + 1 < 2 ^ 64 := by omega
      have hbirths' : births + (if c.isBirth then 1 else 0) ≤ 256 := by omega
      obtain ⟨hevent, htables, hevictions⟩ := h.exec ht hgood
      obtain ⟨hhead, replay₁, hwalk, hreplays⟩ :=
        h.step hgood.config hgood.emitted hcalls' hc hbirths'
      have hborn := h.step_births hgood.config hgood.emitted hcalls' hc hbirths'
      obtain ⟨replay', hrest⟩ := ih hreplays htables
        (fun c' hc' => hcs c' (List.mem_cons_of_mem c hc')) (by omega) hallowed (by omega)
      rw [← hevent] at hhead hwalk hborn
      refine ⟨replay', hrest.tables, hevictions.trans hrest.evictions, ?_, ?_, ?_, ?_⟩
      · have hreplays' := hrest.replays
        rw [List.length_cons, List.countP_cons]
        rw [show calls + (rest.length + 1) = calls + 1 + rest.length by omega,
          show births + (rest.countP ParserCall.isBirth + if c.isBirth = true then 1 else 0) =
            births + (if c.isBirth = true then 1 else 0) + rest.countP ParserCall.isBirth by omega]
        exact hreplays'
      · have hsplit : lifetimesOf (observe maps (c :: rest)).1 =
            lifetimesOf [(c.exec maps).1] ++ lifetimesOf (observe (c.exec maps).2 rest).1 := by
          rw [observe, lifetimesOf, lifetimesOf, lifetimesOf, ← List.filterMap_append]
          rfl
        rw [hsplit, walk_append, hwalk, Option.bind_some]
        exact hrest.walk
      · rw [observe, List.map_cons, hhead, hrest.heads, List.length_cons, List.range_succ_eq_map,
          List.map_cons, List.map_map]
        refine congrArg₂ List.cons (by simp) (List.map_congr_left fun i _ => ?_)
        simp only [Function.comp_apply, Window.Head.mk.injEq, and_true]
        push_cast
        omega
      · have hsplit : birthsOf (observe maps (c :: rest)).1 =
            birthsOf [(c.exec maps).1] ++ birthsOf (observe (c.exec maps).2 rest).1 := by
          rw [observe, birthsOf, birthsOf, birthsOf, ← List.filterMap_append]
          rfl
        rw [hsplit, hborn, hrest.births, List.countP_cons]
        by_cases hbirth : c.isBirth = true
        · rw [if_pos hbirth, if_pos hbirth]
          rfl
        · rw [if_neg hbirth, if_neg hbirth]
          rfl

theorem observe_append (maps : LifeMaps) (front back : List ParserCall) :
    observe maps (front ++ back) =
      ((observe maps front).1 ++ (observe (observe maps front).2 back).1,
        (observe (observe maps front).2 back).2) := by
  induction front generalizing maps with
  | nil => rfl
  | cons c rest ih =>
      rw [List.cons_append, observe, ih]
      rfl

@[simp]
theorem length_observe (maps : LifeMaps) (cs : List ParserCall) :
    (observe maps cs).1.length = cs.length := by
  induction cs generalizing maps with
  | nil => rfl
  | cons c rest ih => rw [observe, List.length_cons, ih, List.length_cons]

theorem allAllowed_append {front back : List ParserCall} :
    AllAllowed phase (front ++ back) ↔
      AllAllowed phase front ∧ AllAllowed (phaseAfter phase front) back := by
  induction front generalizing phase with
  | nil => exact ⟨fun h => ⟨trivial, h⟩, fun h => h.2⟩
  | cons c rest ih =>
      rw [List.cons_append, AllAllowed, AllAllowed, ih, and_assoc]
      rfl

end Runs

end Lifetime
end LiveSurface
