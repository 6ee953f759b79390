import LiveSurface.Lifetime.Agreement

/-!
# The window of an orderly run

The events of an orderly run, split into the lists that the join takes, pass every check of
the join.  A candidate carries the lifetime and the attempt that the next parse of its
address reports.

Main results:

- Theorem {lit}`accepted_of_observed`: the checks of the window.
- Theorem {lit}`probes_agree_with_join`: the four programs and the join agree.
- Theorem {lit}`parse_after_end_refused`: a parse of an ended parser spoils the window.
-/

namespace LiveSurface
namespace Lifetime

open Map Candidate

/-! ## The stream -/

/-- The stream has the headings of the events. -/
theorem stream_perm (events : List ParserEvent) :
    (Window.stream (lifetimesOf events) (candidatesOf events)).Perm
      (events.map ParserEvent.head) := by
  refine (List.perm_insertionSort _ _).trans ?_
  induction events with
  | nil => exact .refl _
  | cons event rest ih =>
      cases event with
      | life e => exact ih.cons _
      | candidate e => exact List.perm_middle.trans (ih.cons _)

/-- Numbered headings in order. -/
theorem stream_sequences {events : List ParserEvent} {run : Int}
    (h : events.map ParserEvent.head =
      (List.range events.length).map fun i : Nat => ⟨((0 : Nat) : Int) + i + 1, run, 0⟩) :
    (Window.stream (lifetimesOf events) (candidatesOf events)).map Window.Head.sequence =
      (List.range events.length).map fun i : Nat => (i : Int) + 1 := by
  have hperm := (stream_perm events).map Window.Head.sequence
  have hsequences : (events.map ParserEvent.head).map Window.Head.sequence =
      (List.range events.length).map fun i : Nat => (i : Int) + 1 := by
    rw [h, List.map_map]
    refine List.map_congr_left fun i _ => ?_
    simp
  rw [hsequences] at hperm
  have htotal : Std.Total fun a b : Window.Head => a.sequence ≤ b.sequence :=
    ⟨fun a b => Int.le_total _ _⟩
  have htrans : IsTrans Window.Head fun a b => a.sequence ≤ b.sequence :=
    ⟨fun _ _ _ => Int.le_trans⟩
  refine List.Perm.eq_of_pairwise' (r := fun a b : Int => a ≤ b) ?_ ?_ hperm
  · rw [List.pairwise_map]
    exact List.pairwise_insertionSort _ _
  · rw [List.pairwise_map]
    refine List.pairwise_lt_range.imp fun hlt => ?_
    omega

/-- The window of observed calls is accepted. -/
theorem accepted_of_observed {run : UInt64} {cs : List ParserCall} {w : Watch}
    {replay : Window.Walk} {ledger : List Window.LedgerRow} {accounting : Collector.Object}
    (h : Observed run 0 0 (fun _ => .unborn) .empty .empty cs w replay) (hrun : run ≠ 0)
    (hne : cs ≠ []) (hover : ∀ a, phaseAfter (fun _ => .unborn) cs a ≠ .alive)
    (hcounted : ∀ entry ∈ Window.expectedCounts (lifetimesOf (observe .empty cs).1)
      (candidatesOf (observe .empty cs).1),
        Collector.Object.get? accounting entry.1 = some (.int entry.2))
    (hledger : ledger.length = (Window.completed (lifetimesOf (observe .empty cs).1)).length) :
    Window.Accepted (lifetimesOf (observe .empty cs).1) (candidatesOf (observe .empty cs).1)
      ledger accounting := by
  have hperm := stream_perm (observe .empty cs).1
  have hlength : (observe .empty cs).1.length = cs.length := length_observe .empty cs
  have hheads := h.heads
  rw [← hlength] at hheads
  have hevery : ∀ e ∈ Window.stream (lifetimesOf (observe .empty cs).1)
      (candidatesOf (observe .empty cs).1), e.run = run.toNat ∧ e.failures = 0 := by
    intro e he
    rw [hperm.mem_iff, hheads, List.mem_map] at he
    obtain ⟨i, -, rfl⟩ := he
    exact ⟨rfl, rfl⟩
  have hstream : (Window.stream (lifetimesOf (observe .empty cs).1)
      (candidatesOf (observe .empty cs).1)).length = (observe .empty cs).1.length := by
    rw [hperm.length_eq, List.length_map]
  refine ⟨?_, ?_, fun e he => (hevery e he).2, hcounted, hledger, replay, h.walk,
    fun life hlife => ?_, h.replays.ended⟩
  · rw [stream_sequences hheads, hstream]
    simp only [List.pure_def, List.bind_eq_flatMap, ← List.map_eq_flatMap, List.map_map]
    rfl
  · cases hlist : Window.stream (lifetimesOf (observe .empty cs).1)
        (candidatesOf (observe .empty cs).1) with
    | nil =>
        rw [hlist, List.length_nil, hlength] at hstream
        exact (hne (List.length_eq_zero_iff.mp hstream.symm)).elim
    | cons first rest =>
        rw [hlist] at hevery
        have hfirst := (hevery first List.mem_cons_self).1
        refine ⟨first, rest, rfl, ?_, fun e he => ?_⟩
        · rw [hfirst]
          have hpos : run.toNat ≠ 0 := fun h0 => hrun (UInt64.toNat_inj.mp h0)
          omega
        · rw [hfirst]
          exact (hevery e (List.mem_cons_of_mem first he)).1
  · rcases h.replays.settled life hlife with hended | ⟨a, o, -, halive, -⟩
    · exact hended
    · exact (hover a halive).elim

/-! ## Candidates -/

/-- The lifetime and the attempt that the next parse of an address reports. -/
def nextParse (w : Watch) (a : UInt64) : UInt64 × UInt64 :=
  match w.object a with
  | none => (0, 0)
  | some o => if o.state &&& active = 0 then (0, 0) else (o.lifetime, upcoming o)

section Candidates

variable {run : UInt64} {calls births : Nat} {phase : UInt64 → Phase} {w : Watch}
  {replay : Window.Walk} {maps : LifeMaps}

/-- A candidate carries what the next parse of its address reports. -/
theorem Replays.candidate_next (h : Replays run calls births phase w replay)
    {call : CandidateCall} (hconfig : call.config.run = some run) (hemitted : call.emitted = true)
    (hcalls : calls + 1 < 2 ^ 64) (haddress : call.address ≠ 0)
    (hsmall : (w.candidate call).1.lifetime ≤ 127) :
    ((w.candidate call).1.lifetime, (w.candidate call).1.attempt) =
      nextParse w call.address := by
  rw [h.candidate_eq hconfig hemitted hcalls] at hsmall ⊢
  have hheading : ∀ sequence, (CandidateEvent.heading run sequence 0).lifetime = 0 ∧
      (CandidateEvent.heading run sequence 0).attempt = 0 := fun _ => ⟨rfl, rfl⟩
  obtain ⟨hlifetime, hattempt⟩ := hheading (UInt64.ofNat (calls + 1))
  generalize CandidateEvent.heading run (UInt64.ofNat (calls + 1)) 0 = e at hsmall hlifetime hattempt ⊢
  have hcarried : ∀ st : State, ∀ e' : CandidateEvent,
      (e'.withState st).lifetime = e'.lifetime ∧ (e'.withState st).attempt = e'.attempt := by
    intro st e'
    unfold CandidateEvent.withState
    dsimp only
    split_ifs <;> exact ⟨rfl, rfl⟩
  unfold extractWatch at hsmall ⊢
  unfold nextParse
  cases hobject : w.object call.address with
  | none =>
      rw [hobject] at hsmall
      simp only [target, hattempt]
  | some o =>
      rw [hobject] at hsmall
      have hmirror := h.object call.address o hobject
      have hrun := hmirror.run_eq
      by_cases halive : phase call.address = .alive
      · obtain ⟨hstate, -, -, -, hle⟩ := hmirror.alive halive
        have hactive : ¬o.state &&& active = 0 := by
          rcases hstate with hs | hs <;> rw [hs] <;> decide
        have hparsing : ¬(call.address = 0 ∨ ¬LifeObject.Parsing o run) := by
          refine fun hor => hor.elim haddress fun hnot => hnot ⟨hrun, hactive, ?_⟩
          rcases hstate with hs | hs <;> rw [hs] <;> decide
        have hmax : ¬(o.state &&& 2 = 0 ∧ o.attempt = maxWord) := by
          rintro ⟨-, hmax⟩
          have hword := congrArg UInt64.toNat hmax
          have hval : maxWord.toNat = 2 ^ 64 - 1 := by decide
          omega
        have hpos : o.lifetime ≠ 0 := by
          intro hzero
          have := hmirror.born.1
          rw [hzero] at this
          exact absurd this (by decide)
        by_cases hlimit : o.lifetime > 127
        · simp only [target, if_neg hparsing, if_pos (Or.inr hlimit : o.lifetime = 0 ∨ _)] at hsmall
          exact (UInt64.not_le.mpr hlimit hsmall).elim
        · have hadmitted : ¬(o.lifetime = 0 ∨ o.lifetime > 127) := fun hor => hor.elim hpos hlimit
          simp only [target, if_neg hparsing, if_neg hadmitted, if_neg hmax, hcarried,
            if_neg hactive]
          rfl
      · obtain ⟨-, hstate, -⟩ := hmirror.ended halive
        have hended : o.state &&& active = 0 := by
          rw [hstate]
          decide
        have hparsing : call.address = 0 ∨ ¬LifeObject.Parsing o run := by
          refine .inr fun hparsing => hparsing.2.1 ?_
          rw [hstate]
          decide
        simp only [target, if_pos hparsing, hattempt, if_pos hended]

/-- The exit of a parse reports what was next for its address. -/
theorem Replays.parse_next (h : Replays run calls births phase w replay) {call : LifeCall}
    (hconfig : call.config.run = some run) (hemitted : call.emitted = true)
    (hcalls : calls + 1 < 2 ^ 64) (hallowed : ParserCall.Allowed phase (.life call))
    (hkind : call.kind = .parse) :
    ((lifeWatch call w).1.lifetime, (lifeWatch call w).1.attempt) = nextParse w call.address ∧
      (call.result ≠ 0 → nextParse (lifeWatch call w).2 call.address =
        nextParse w call.address) := by
  obtain ⟨haddress, hphase⟩ := hallowed
  rw [hkind] at hphase
  obtain ⟨hended, hresult⟩ := hphase
  obtain ⟨e, he, heq⟩ := h.life_eq hconfig hemitted hcalls haddress
  cases hobject : w.object call.address with
  | none =>
      rw [hobject, objectWatch_unborn (by rw [hkind]; decide)] at heq
      rw [heq]
      simp only [nextParse, hobject, he.lifetime_eq, he.attempt_eq, Function.update_self,
        implies_true, and_self]
  | some o =>
      have hmirror := h.object call.address o hobject
      have halive : phase call.address = .alive := by
        by_contra hne
        exact hended (hmirror.ended hne).1
      obtain ⟨hstate, -, -, -, hle⟩ := hmirror.alive halive
      have hactive : ¬o.state &&& active = 0 := by
        rcases hstate with hs | hs <;> rw [hs] <;> decide
      have hbound : o.attempt ≠ maxWord := by
        intro hmax
        have hword := congrArg UInt64.toNat hmax
        have hval : maxWord.toNat = 2 ^ 64 - 1 := by decide
        omega
      rw [hobject, objectWatch_parse hkind (by rw [hmirror.run_eq, he.run_eq]) hstate hbound
        (hresult halive)] at heq
      rw [heq]
      simp only [nextParse, hobject, if_neg hactive, Function.update_self, true_and]
      intro hnonzero
      have hr : call.result = 17 := (hresult halive).resolve_left hnonzero
      have hset : ¬(active ||| partly) &&& active = 0 := by decide
      have hset' : ¬(active ||| partly) &&& partly = 0 := by decide
      simp only [if_pos hr, if_neg hset]
      rw [Prod.mk.injEq]
      exact ⟨rfl, if_neg hset'⟩

/-- A call that leaves an address alone leaves what its next parse reports. -/
theorem Replays.other_next (h : Replays run calls births phase w replay) {c : ParserCall}
    (hc : c.Good run) (hcalls : calls + 1 < 2 ^ 64) (hallowed : c.Allowed phase) {a : UInt64}
    (hother : ∀ call, c = .life call → call.address = a →
      call.kind = .parse ∧ call.result ≠ 0) :
    nextParse (c.watch w).2 a = nextParse w a := by
  cases c with
  | candidate call =>
      have heq := h.candidate_eq hc.config hc.emitted hcalls
      simp only [ParserCall.watch, heq, nextParse]
  | life call =>
      by_cases ha : call.address = a
      · obtain ⟨hkind, hresult⟩ := hother call rfl ha
        rw [← ha]
        exact (h.parse_next hc.config hc.emitted hcalls hallowed hkind).2 hresult
      · obtain ⟨e, -, heq⟩ := h.life_eq hc.config hc.emitted hcalls hallowed.1
        simp only [ParserCall.watch, heq, nextParse]
        rw [Function.update_of_ne (Ne.symm ha)]

/-- Calls that leave an address alone leave what its next parse reports. -/
theorem Replays.next_after (h : Replays run calls births phase w replay) {cs : List ParserCall}
    (hcs : ∀ c ∈ cs, c.Good run) (hcalls : calls + cs.length < 2 ^ 64)
    (hallowed : AllAllowed phase cs) (hbirths : births + cs.countP ParserCall.isBirth ≤ 256)
    {a : UInt64} (hother : ∀ call, .life call ∈ cs → call.address = a →
      call.kind = .parse ∧ call.result ≠ 0) :
    nextParse (watchAfter w cs) a = nextParse w a := by
  induction cs generalizing calls births phase w replay with
  | nil => rfl
  | cons c rest ih =>
      obtain ⟨hc, hallowed⟩ := hallowed
      have hgood := hcs c List.mem_cons_self
      rw [List.length_cons] at hcalls
      rw [List.countP_cons] at hbirths
      obtain ⟨-, replay₁, -, hreplays⟩ :=
        h.step hgood.config hgood.emitted (by omega) hc (by omega)
      have hrest := ih hreplays (fun c' hc' => hcs c' (List.mem_cons_of_mem c hc')) (by omega)
        hallowed (by omega) fun call hcall => hother call (List.mem_cons_of_mem c hcall)
      have hfirst := h.other_next hgood (by omega) hc fun call hcall =>
        hother call (by rw [hcall]; exact List.mem_cons_self)
      exact hrest.trans hfirst

end Candidates

/-! ## The four programs and the join -/

/-- A candidate event agrees with the next parse event of its address that has not been
overtaken by the end of an attempt or of a lifetime. -/
def CandidatesAgree (cs : List ParserCall) : Prop :=
  ∀ front c middle p back, cs = front ++ .candidate c :: (middle ++ .life p :: back) →
    p.kind = .parse → p.address = c.address →
      (∀ q, .life q ∈ middle → q.address = c.address → q.kind = .parse ∧ q.result ≠ 0) →
        ∀ e e', (observe .empty cs).1[front.length]? = some (.candidate e) →
          (observe .empty cs).1[front.length + 1 + middle.length]? = some (.life e') →
            e.lifetime ≤ 127 → e'.lifetime = e.lifetime ∧ e'.attempt = e.attempt

/-- The probes and the join agree on a run. -/
structure Agrees (cs : List ParserCall) : Prop where
  accepted : ∀ (ledger : List Window.LedgerRow) (accounting : Collector.Object),
    (∀ entry ∈ Window.expectedCounts (lifetimesOf (observe .empty cs).1)
      (candidatesOf (observe .empty cs).1),
        Collector.Object.get? accounting entry.1 = some (.int entry.2)) →
      ledger.length = (Window.completed (lifetimesOf (observe .empty cs).1)).length →
        Window.Accepted (lifetimesOf (observe .empty cs).1) (candidatesOf (observe .empty cs).1)
          ledger accounting
  candidates : CandidatesAgree cs
  births : (birthsOf (observe .empty cs).1).Nodup
  objects : (observe .empty cs).2.objects.evictions = 0
  store : (observe .empty cs).2.store.evictions = 0

section Agreement

variable {run : UInt64} {cs : List ParserCall}

theorem candidates_agree (hgood : ∀ c ∈ cs, c.Good run) (hcalls : cs.length < 2 ^ 64)
    (horderly : Orderly cs) (hbirths : cs.countP ParserCall.isBirth ≤ 256) :
    CandidatesAgree cs := by
  rintro front c middle p back rfl hkind haddress hmiddle e e' he he' hsmall
  have hallowed := allAllowed_append.mp horderly.allowed
  obtain ⟨hfront, -, hrest⟩ := hallowed
  obtain ⟨hmid, hp, -⟩ := allAllowed_append.mp hrest
  simp only [List.length_append, List.length_cons] at hcalls
  simp only [List.countP_append, List.countP_cons, ParserCall.isBirth] at hbirths
  have hgoodFront : ∀ x ∈ front, x.Good run := fun x hx => hgood x (by simp [hx])
  have hgoodMiddle : ∀ x ∈ middle, x.Good run := fun x hx => hgood x (by simp [hx])
  have hgoodC : (ParserCall.candidate c).Good run := hgood _ (by simp)
  have hgoodP : (ParserCall.life p).Good run := hgood _ (by simp)
  -- the tables before the candidate, after it, and before the parse
  obtain ⟨replay₁, hobserved₁⟩ :=
    (replays_start run).observed tables_empty hgoodFront (by omega) hfront (by omega)
  obtain ⟨hevent₁, htables₂, -⟩ := hobserved₁.replays.exec hobserved₁.tables hgoodC
  obtain ⟨-, replay₂, -, hreplays₂⟩ := hobserved₁.replays.step hgoodC.config hgoodC.emitted
    (by omega) trivial (by simp only [ParserCall.isBirth, Bool.false_eq_true, if_false]; omega)
  have hbirth : (ParserCall.candidate c).isBirth = false := rfl
  rw [hbirth, if_neg Bool.false_ne_true, Nat.add_zero] at hreplays₂
  obtain ⟨replay₃, hobserved₃⟩ :=
    hreplays₂.observed htables₂ hgoodMiddle (by omega) hmid (by omega)
  have hnext := hreplays₂.next_after hgoodMiddle (by omega) hmid (by omega) hmiddle
  obtain ⟨hevent₃, -, -⟩ := hobserved₃.replays.exec hobserved₃.tables hgoodP
  obtain ⟨hparse, -⟩ := hobserved₃.replays.parse_next hgoodP.config hgoodP.emitted (by omega)
    hp hkind
  -- the two events
  rw [observe_append, observe, observe_append, observe] at he he'
  have hplace : front.length = (observe .empty front).1.length := (length_observe _ _).symm
  rw [hplace, List.getElem?_append_right (Nat.le_refl _), Nat.sub_self,
    List.getElem?_cons_zero] at he
  have hplace' : front.length + 1 + middle.length =
      (observe .empty front).1.length + (1 + middle.length) := by
    rw [← hplace]
    omega
  have hplace'' : middle.length =
      (observe ((ParserCall.candidate c).exec (observe .empty front).2).2 middle).1.length :=
    (length_observe _ _).symm
  rw [hplace', List.getElem?_append_right (Nat.le_add_right _ _), Nat.add_sub_cancel_left,
    Nat.add_comm 1, List.getElem?_cons_succ, hplace'',
    List.getElem?_append_right (Nat.le_refl _), Nat.sub_self, List.getElem?_cons_zero] at he'
  have hcandidate : (Watch.candidate (watchAfter .start front) c).1 = e :=
    ParserEvent.candidate.inj ((Option.some.inj he).symm.trans hevent₁).symm
  have hlife : (lifeWatch p (watchAfter
      (ParserCall.watch (watchAfter .start front) (.candidate c)).2 middle)).1 = e' :=
    ParserEvent.life.inj ((Option.some.inj he').symm.trans hevent₃).symm
  have hsame := hobserved₁.replays.other_next hgoodC (by omega) trivial
    (fun call hcall => by contradiction : ∀ call, ParserCall.candidate c = .life call →
      call.address = c.address → call.kind = .parse ∧ call.result ≠ 0)
  have hcarried := hobserved₁.replays.candidate_next hgoodC.config hgoodC.emitted (by omega)
    (haddress ▸ hp.1) (by rw [hcandidate]; exact hsmall)
  rw [hlife, haddress, hnext, hsame, ← hcarried, hcandidate] at hparse
  exact ⟨congrArg Prod.fst hparse, congrArg Prod.snd hparse⟩

/-- In an orderly run of at most 256 births whose events are all emitted, the join accepts the
window, candidates and parses agree, lifetimes are distinct and no row is evicted. -/
theorem probes_agree_with_join (hgood : ∀ c ∈ cs, c.Good run) (hne : cs ≠ [])
    (hcalls : cs.length < 2 ^ 64) (horderly : Orderly cs)
    (hbirths : cs.countP ParserCall.isBirth ≤ 256) : Agrees cs := by
  obtain ⟨replay, hobserved⟩ := (replays_start run).observed tables_empty hgood (by omega)
    horderly.allowed (by omega)
  have hrun : run ≠ 0 := by
    rintro rfl
    obtain ⟨c, hc⟩ := List.exists_mem_of_ne_nil cs hne
    have hconfig := (hgood c hc).config
    unfold ProbeConfig.run at hconfig
    split at hconfig
    · split_ifs at hconfig with hbad
      exact hbad (.inr (.inr (.inl (Option.some.inj hconfig))))
    · contradiction
  refine ⟨fun ledger accounting hcounted hledger =>
    accepted_of_observed hobserved hrun hne horderly.settled hcounted hledger,
    candidates_agree hgood hcalls horderly hbirths, ?_, ?_, ?_⟩
  · rw [hobserved.births]
    exact List.nodup_range'
  · rw [hobserved.evictions.objects]
    rfl
  · rw [hobserved.evictions.store]
    rfl

/-! ## Small runs -/

/-- The configuration of run 1. -/
def oneRun : ProbeConfig where
  cfgMeta := some { schema := 1, entries := 1 }
  row := some fun i => if i = 0 then 1 else 0

/-- A call of a lifetime probe for the parser at address 1. -/
def lifeCall (kind : LifeKind) (result : UInt64) : ParserCall :=
  .life { kind, config := oneRun, address := 1, result, emitted := true }

/-- A call of the candidate program for the parser at address 1, without bytes. -/
def headerCall : ParserCall :=
  .candidate {
    config := oneRun
    address := 1
    chunk := 0
    length := 0
    mem := fun _ => none
    emitted := true }

/-- One parser from its birth to its end. -/
def oneParser : List ParserCall :=
  [lifeCall .init 0, headerCall, lifeCall .parse 0, lifeCall .fini 0]

theorem probes_agree_with_join_oneParser : Agrees oneParser := by
  have hgood : ∀ c ∈ oneParser, c.Good 1 := by
    intro c hc
    simp only [oneParser, List.mem_cons, List.not_mem_nil, or_false] at hc
    rcases hc with rfl | rfl | rfl | rfl <;> exact ⟨rfl, rfl⟩
  have horderly : Orderly oneParser := by
    refine ⟨⟨⟨by decide, by decide⟩, trivial, ⟨by decide, by decide, by decide⟩,
      ⟨by decide, by decide⟩, trivial⟩, fun a => ?_⟩
    by_cases ha : a = 1
    · rw [ha]
      decide
    · have hother : phaseAfter (fun _ => .unborn) oneParser a = .unborn := by
        simp [phaseAfter, oneParser, lifeCall, headerCall, ParserCall.after, ha]
      rw [hother]
      decide
  exact probes_agree_with_join hgood (by decide) (by decide) horderly (by decide)

/-- A parser that ends, and a parse of it after its end. -/
def lateParse : List ParserCall := [lifeCall .init 0, lifeCall .fini 0, lifeCall .parse 0]

/-- The join accepts no window with a parse of an ended parser: every lifetime of this run has
ended once, and its window is refused. -/
theorem parse_after_end_refused : ¬∃ ledger accounting,
    Window.Accepted (lifetimesOf (observe .empty lateParse).1)
      (candidatesOf (observe .empty lateParse).1) ledger accounting := by
  rintro ⟨ledger, accounting, haccepted⟩
  have hstuck : (Window.Walk.empty.run (lifetimesOf (observe .empty lateParse).1)).isNone = true := by
    decide +kernel
  obtain ⟨replay, hwalk, -⟩ := haccepted.walked
  rw [hwalk] at hstuck
  contradiction

end Agreement

end Lifetime
end LiveSurface
