import LiveSurface.Candidate.Watch

/-!
# Packet boundaries

The bytes of a request's header arrive in chunks, one call for each.  The state that the
calls keep is that of the recogniser fed with the bytes so far, one by one, up to 512 of
them.

Main results:

- Theorem {lit}`called_recognised`: a call on the state of some bytes is the state of those
  bytes and the chunk.
- Theorem {lit}`recognition_ignores_cuts`: the last event does not depend on the cuts.
-/

namespace LiveSurface
namespace Candidate

open Map Lifetime

/-! ## Feeding with a count -/

/-- The bytes up to the stop, one by one, and their number. -/
def feedCounted : State → List UInt8 → State
  | st, [] => st
  | st, c :: rest => if st.1.Stopped then st else feedCounted (consume st.1.counted st.2 c) rest

/-- The loop over the bytes of a chunk. -/
def advance : State → List UInt8 → State
  | st, [] => st
  | st, c :: rest =>
      if st.1.Stopped then st
      else if st.1.total ≥ 512 then ({ st.1 with flags := flagLimit }, st.2)
      else advance (consume st.1.counted st.2 c) rest

/-- The state of an attempt whose bytes are these. -/
def recognised (lifetime attempt : UInt64) (bytes : List UInt8) : State :=
  limited (feedCounted (.initial lifetime attempt, noBytes) (bytes.take 512))

section Counted

variable {st : State} {bs cs : List UInt8} {c : UInt8} {lifetime attempt : UInt64}

theorem feedCounted_cons (h : ¬st.1.Stopped) (c : UInt8) (bs : List UInt8) :
    feedCounted st (c :: bs) = feedCounted (consume st.1.counted st.2 c) bs := by
  rw [feedCounted, if_neg h]

theorem feedCounted_stopped (h : st.1.Stopped) (bs : List UInt8) : feedCounted st bs = st := by
  cases bs with
  | nil => rfl
  | cons c rest => rw [feedCounted, if_pos h]

theorem feedCounted_append (st : State) (bs cs : List UInt8) :
    feedCounted st (bs ++ cs) = feedCounted (feedCounted st bs) cs := by
  induction bs generalizing st with
  | nil => rfl
  | cons c rest ih =>
      by_cases h : st.1.Stopped
      · rw [feedCounted_stopped h, feedCounted_stopped h, feedCounted_stopped h]
      · rw [List.cons_append, feedCounted_cons h, feedCounted_cons h, ih]

@[simp]
theorem total_consume (s : Progress) (data : List UInt8) (c : UInt8) :
    (consume s data c).1.total = s.total :=
  (consume_frame s data c).2.2

/-- Bytes that do not stop the recogniser are all counted. -/
theorem total_feedCounted (h : ¬(feedCounted st bs).1.Stopped) :
    (feedCounted st bs).1.total = st.1.total + bs.length := by
  induction bs generalizing st with
  | nil => rfl
  | cons c rest ih =>
      by_cases hstop : st.1.Stopped
      · rw [feedCounted_stopped hstop] at h
        exact (h hstop).elim
      · rw [feedCounted_cons hstop] at h ⊢
        rw [ih h, total_consume, List.length_cons]
        simp only [Progress.counted]
        omega

/-- A limit does not start a parser that has stopped. -/
theorem stopped_limited (h : st.1.Stopped) : (limited st).1.Stopped := by
  unfold limited Progress.limited
  split_ifs with hlimit
  · exact .inr (.inr (by decide : flagLimit ≠ 0))
  · exact h

/-- A limit is applied once. -/
theorem limited_limited (st : State) : limited (limited st) = limited st := by
  have hlimit : ¬flagLimit = 0 := by decide
  unfold limited Progress.limited
  by_cases h : st.1.total ≥ 512 ∧ st.1.mode ≠ .done ∧ st.1.flags = 0
  · simp only [if_pos h, hlimit, and_false, if_false]
  · simp only [if_neg h]

theorem limited_of_lt (h : st.1.total < 512) : limited st = st := by
  unfold limited Progress.limited
  rw [if_neg (by omega)]

theorem advance_stopped (h : st.1.Stopped) (bs : List UInt8) : advance st bs = st := by
  cases bs with
  | nil => rfl
  | cons c rest => rw [advance, if_pos h]

/-- The loop with the limit takes the bytes for which there is room. -/
theorem limited_advance (st : State) (bs : List UInt8) :
    limited (advance st bs) = limited (feedCounted st (bs.take (512 - st.1.total))) := by
  induction bs generalizing st with
  | nil => rw [List.take_nil, advance, feedCounted]
  | cons c rest ih =>
      by_cases hstop : st.1.Stopped
      · rw [advance, if_pos hstop, feedCounted_stopped hstop]
      · by_cases htotal : st.1.total ≥ 512
        · have hroom : 512 - st.1.total = 0 := by omega
          have hlimit : ¬flagLimit = 0 := by decide
          have hnot : st.1.mode ≠ .done ∧ st.1.flags = 0 :=
            ⟨fun h => hstop (.inl h), not_not.mp fun h => hstop (.inr (.inr h))⟩
          rw [advance, if_neg hstop, if_pos htotal, hroom, List.take_zero, feedCounted]
          unfold limited Progress.limited
          simp only [if_pos (And.intro htotal hnot), hlimit, and_false, if_false]
        · have hroom : 512 - st.1.total = 512 - (consume st.1.counted st.2 c).1.total + 1 := by
            rw [total_consume]
            simp only [Progress.counted]
            omega
          rw [advance, if_neg hstop, if_neg htotal, ih, hroom, List.take_succ_cons,
            feedCounted_cons hstop]

/-- The loop on a chunk, after the bytes before it. -/
theorem advance_recognised (lifetime attempt : UInt64) (bytes chunk : List UInt8) :
    limited (advance (recognised lifetime attempt bytes) (chunk.take 512)) =
      recognised lifetime attempt (bytes ++ chunk) := by
  have htake : (bytes ++ chunk).take 512 = bytes.take 512 ++ chunk.take (512 - bytes.length) :=
    List.take_append
  rw [recognised, recognised, htake, feedCounted_append]
  generalize hst : feedCounted (.initial lifetime attempt, noBytes) (bytes.take 512) = st
  by_cases hstop : st.1.Stopped
  · rw [advance_stopped (stopped_limited hstop), limited_limited, feedCounted_stopped hstop]
  · have htotal : st.1.total = (bytes.take 512).length := by
      rw [← hst] at hstop ⊢
      rw [total_feedCounted hstop]
      exact Nat.zero_add _
    rw [List.length_take] at htotal
    by_cases hlength : bytes.length < 512
    · have hlt : st.1.total < 512 := by omega
      have hrest : 512 - st.1.total = 512 - bytes.length := by omega
      rw [limited_of_lt hlt, limited_advance, hrest, List.take_take,
        Nat.min_eq_left (Nat.sub_le 512 _)]
    · have hfull : limited st = ({ st.1 with flags := flagLimit }, st.2) := by
        unfold limited Progress.limited
        rw [if_pos ⟨by omega, fun h => hstop (.inl h),
          not_not.mp fun h => hstop (.inr (.inr h))⟩]
      have hstop' : (limited st).1.Stopped := by
        rw [hfull]
        exact .inr (.inr (by decide : flagLimit ≠ 0))
      have hnone : chunk.take (512 - bytes.length) = [] := by
        rw [show 512 - bytes.length = 0 by omega, List.take_zero]
      rw [advance_stopped hstop', limited_limited, hnone, feedCounted]

end Counted

/-! ## Chunks -/

/-- A call delivers a chunk whose bytes can all be read. -/
structure CandidateCall.Delivers (call : CandidateCall) (chunk : List UInt8) : Prop where
  length_eq : call.bytes = chunk.length
  address : chunk ≠ [] → call.chunk ≤ maxWord - 512
  readable : ∀ i (h : i < chunk.length), call.mem (call.chunk.toNat + i) = some chunk[i]

section Chunks

variable {call : CandidateCall} {chunk : List UInt8} {lifetime attempt : UInt64} {st : State}

theorem CandidateCall.Delivers.read (h : call.Delivers chunk) {i : Nat} (hi : i < chunk.length) :
    call.read i = some chunk[i] := by
  have haddress := h.address (List.ne_nil_of_length_pos (by omega))
  have hprobe : probe call.mem (call.chunk.toNat + i) 1 = some [chunk[i]] := by
    refine probe_eq_some_iff.mpr ⟨rfl, fun j hj => ?_⟩
    have hj' : j = 0 := by
      rw [List.length_singleton] at hj
      omega
    subst hj'
    exact h.readable i hi
  rw [CandidateCall.read, if_neg (UInt64.not_lt.mpr haddress), hprobe]
  rfl

/-- The loop of a call takes the bytes of its chunk. -/
theorem extractLoop_eq (h : call.Delivers chunk) (left i : Nat) (st : State) :
    extractLoop call left i st = advance st ((chunk.drop i).take left) := by
  induction left generalizing i st with
  | zero => rw [extractLoop, List.take_zero, advance]
  | succ left ih =>
      unfold extractLoop
      by_cases hi : i < chunk.length
      · rw [List.drop_eq_getElem_cons hi, List.take_succ_cons, advance]
        by_cases hstop : st.1.Stopped
        · rw [if_pos (.inl hstop), if_pos hstop]
        · have hgo : ¬(st.1.Stopped ∨ i ≥ call.bytes) := by
            rw [h.length_eq]
            exact fun hor => hor.elim hstop (fun hge => by omega)
          rw [if_neg hgo, if_neg hstop, h.read hi]
          simp only [ih]
          rfl
      · rw [if_pos (.inr (by rw [h.length_eq]; omega)), List.drop_of_length_le (by omega),
          List.take_nil, advance]

/-- A call on the state of some bytes leaves the state of those bytes and its chunk. -/
theorem called_recognised (h : call.Delivers chunk) (bytes : List UInt8) :
    called call (recognised lifetime attempt bytes) =
      recognised lifetime attempt (bytes ++ chunk) := by
  rw [called, extractLoop_eq h, List.drop_zero, advance_recognised]

theorem recognised_attempt (lifetime attempt : UInt64) (bytes : List UInt8) :
    (recognised lifetime attempt bytes).1.attempt = attempt := by
  have hfeed : ∀ (bs : List UInt8) (st : State), st.1.attempt = attempt →
      (feedCounted st bs).1.attempt = attempt := by
    intro bs
    induction bs with
    | nil => exact fun st h => h
    | cons c rest ih =>
        intro st h
        by_cases hstop : st.1.Stopped
        · rw [feedCounted_stopped hstop]
          exact h
        · rw [feedCounted_cons hstop]
          exact ih _ ((consume_frame st.1.counted st.2 c).2.1.trans h)
  have hlimited : ∀ st : State, (limited st).1.attempt = st.1.attempt := by
    intro st
    unfold limited Progress.limited
    split_ifs <;> rfl
  rw [recognised, hlimited]
  exact hfeed _ _ rfl

/-- A state with a flag is left as it is by every call. -/
theorem called_stopped (call : CandidateCall) (h : st.1.flags ≠ 0) : called call st = st := by
  have hstop : st.1.Stopped := .inr (.inr h)
  have hlimited : limited st = st := by
    unfold limited Progress.limited
    rw [if_neg fun hlimit => h hlimit.2.2]
  unfold called extractLoop
  rw [if_pos (.inl hstop), hlimited]

end Chunks

/-! ## Deliveries -/

/-- One call, and the tables that the other programs share with it at its time. -/
structure Delivery where
  call : CandidateCall
  state : LsMap
  objects : LsMap

/-- A call on the store that the calls before it left. -/
def deliver (d : Delivery) (store : LsMap) : CandidateEvent × LsMap :=
  let (e, maps) := requestCandidate d.call { state := d.state, objects := d.objects, store }
  (e, maps.store)

/-- The store after some calls. -/
def storeAfter (ds : List Delivery) : LsMap :=
  ds.foldl (fun store d => (deliver d store).2) LifeMaps.empty.store

/-- A call on the tables of the programs. -/
def Delivery.Tabled (d : Delivery) : Prop :=
  ∃ c o, Counters d.state c ∧ Objects d.objects o

/-- A call for the next bytes of an attempt. -/
structure Delivery.For (d : Delivery) (run lifetime attempt : UInt64) : Prop where
  config : d.call.config.run = some run
  counter : ∃ c, Counters d.state c ∧ ∀ s, c = some s → s.run = run ∧ s.calls ≠ maxWord
  object : ∃ o, Objects d.objects o ∧
    target d.call.address run (o d.call.address) = .attempt lifetime attempt

/-- A call for a parser of another lifetime. -/
structure Delivery.Aside (d : Delivery) (lifetime : UInt64) : Prop where
  counter : ∃ c, Counters d.state c
  object : ∃ o, Objects d.objects o ∧ ∀ x, o d.call.address = some x → x.lifetime ≠ lifetime

/-- The store has no state of the attempt. -/
def NewAttempt (store : LsMap) (lifetime attempt : UInt64) : Prop :=
  ∀ row, contents store (keyBytes (stateKey lifetime)) = some row →
    (Progress.ofBytes row).lifetime ≠ lifetime ∨ (Progress.ofBytes row).attempt ≠ attempt

/-- Calls that deliver some bytes of an attempt, and calls for other parsers between them. -/
inductive Cut (run lifetime attempt : UInt64) : List Delivery → List UInt8 → Prop
  | nil : Cut run lifetime attempt [] []
  | piece {ds : List Delivery} {bytes : List UInt8} {d : Delivery} {chunk : List UInt8}
      (front : Cut run lifetime attempt ds bytes) (goal : d.For run lifetime attempt)
      (bytes_eq : d.call.Delivers chunk) : Cut run lifetime attempt (ds ++ [d]) (bytes ++ chunk)
  | aside {ds : List Delivery} {bytes : List UInt8} {d : Delivery}
      (front : Cut run lifetime attempt ds bytes) (other : d.Aside lifetime) :
      Cut run lifetime attempt (ds ++ [d]) bytes

/-- What an event says about the bytes of an attempt. -/
structure Recognition where
  flags : Nat
  total : Nat
  path : Nat
  nonce : List UInt8
deriving DecidableEq

/-- What an event says. -/
def CandidateEvent.recognition (e : CandidateEvent) : Recognition where
  flags := e.flags
  total := e.total
  path := e.path
  nonce := e.nonce

/-- What an event says of a state: the path and the nonce only of a complete header. -/
def recognition (st : State) : Recognition where
  flags := st.1.flags
  total := st.1.total
  path := if st.1.mode = .done ∧ st.1.flags = flagComplete then st.1.path else 0
  nonce := if st.1.mode = .done ∧ st.1.flags = flagComplete then st.2 else noBytes

/-- The event of the last call of one way of cutting the bytes of a new attempt. -/
def LastEvent (run lifetime attempt : UInt64) (bytes : List UInt8) (e : CandidateEvent) : Prop :=
  ∃ before pieces d front chunk, (∀ x ∈ before, Delivery.Tabled x) ∧
    NewAttempt (storeAfter before) lifetime attempt ∧
    Cut run lifetime attempt pieces front ∧ d.For run lifetime attempt ∧
    d.call.Delivers chunk ∧ bytes = front ++ chunk ∧
    e = (deliver d (storeAfter (before ++ pieces))).1

section Deliveries

variable {d : Delivery} {store : LsMap} {held : UInt64 → Option State}
  {run lifetime attempt : UInt64}

theorem storeAfter_snoc (ds : List Delivery) (d : Delivery) :
    storeAfter (ds ++ [d]) = (deliver d (storeAfter ds)).2 := by
  rw [storeAfter, storeAfter, List.foldl_append, List.foldl_cons, List.foldl_nil]

/-- A call keeps the store. -/
theorem deliver_tabled (h : Stores store held) (hd : d.Tabled) :
    ∃ held', Stores (deliver d store).2 held' := by
  obtain ⟨c, o, hcounters, hobjects⟩ := hd
  have htables : Tables { state := d.state, objects := d.objects, store }
      { counter := c, object := o, held } := ⟨hcounters, hobjects, h⟩
  obtain ⟨-, hafter, -⟩ := requestCandidate_refines htables d.call
  exact ⟨_, hafter.stores⟩

/-- The store after any calls. -/
theorem stores_storeAfter {ds : List Delivery} (h : ∀ d ∈ ds, d.Tabled) :
    ∃ held, Stores (storeAfter ds) held := by
  induction ds using List.reverseRecOn with
  | nil => exact ⟨_, stores_empty⟩
  | append_singleton ds d ih =>
      obtain ⟨held, hstores⟩ := ih fun x hx => h x (List.mem_append_left _ hx)
      rw [storeAfter_snoc]
      exact deliver_tabled hstores (h d (by simp))

/-- A call for an attempt. -/
theorem deliver_for (h : Stores store held) (hd : d.For run lifetime attempt) :
    (deliver d store).1.recognition =
        recognition (called d.call (opened (held lifetime) lifetime attempt)) ∧
      Stores (deliver d store).2 (Function.update held lifetime
        (some (called d.call (opened (held lifetime) lifetime attempt)))) := by
  obtain ⟨c, hcounters, hrun⟩ := hd.counter
  obtain ⟨o, hobjects, htarget⟩ := hd.object
  have htables : Tables { state := d.state, objects := d.objects, store }
      { counter := c, object := o, held } := ⟨hcounters, hobjects, h⟩
  obtain ⟨hevent, hafter, -⟩ := requestCandidate_refines htables d.call
  obtain ⟨hsame, hcalls⟩ : (c.getD (firstCounters run)).run = run ∧
      (c.getD (firstCounters run)).calls ≠ maxWord := by
    cases c with
    | none => exact ⟨rfl, (by decide : (0 : UInt64) ≠ maxWord)⟩
    | some s => exact hrun s rfl
  have hwatch : (Watch.candidate { counter := c, object := o, held } d.call).1.recognition =
        recognition (called d.call (opened (held lifetime) lifetime attempt)) ∧
      (Watch.candidate { counter := c, object := o, held } d.call).2.held =
        Function.update held lifetime
          (some (called d.call (opened (held lifetime) lifetime attempt))) := by
    unfold Watch.candidate
    rw [hd.config]
    simp only [hsame, hcalls, ne_eq, not_true_eq_false, if_false, extractWatch, htarget, and_true]
    unfold CandidateEvent.withState CandidateEvent.recognition recognition
    split_ifs <;> rfl
  have hstores := hafter.stores
  rw [hwatch.2] at hstores
  exact ⟨by rw [← hwatch.1, ← hevent]; rfl, hstores⟩

/-- A target is an attempt of the object's lifetime. -/
theorem lifetime_of_target {address : UInt64} {object : Option LifeObject}
    (h : target address run object = .attempt lifetime attempt) :
    ∃ x, object = some x ∧ x.lifetime = lifetime := by
  cases object with
  | none => simp [target] at h
  | some x =>
      simp only [target] at h
      split_ifs at h <;> injection h with hlifetime
      all_goals exact ⟨x, rfl, hlifetime⟩

/-- A call leaves the states of the other lifetimes. -/
theorem Watch.candidate_held (w : Watch) (call : CandidateCall)
    (hother : ∀ x, w.object call.address = some x → x.lifetime ≠ lifetime) :
    (w.candidate call).2.held lifetime = w.held lifetime := by
  have hextract : ∀ e run, (extractWatch call e run w).2 lifetime = w.held lifetime := by
    intro e run
    unfold extractWatch
    split
    · rfl
    · next htarget =>
      obtain ⟨x, hx, hlifetime⟩ := lifetime_of_target htarget
      have hne := hother x hx
      rw [hlifetime] at hne
      exact Function.update_of_ne hne.symm _ _
  unfold Watch.candidate
  split
  · rfl
  · dsimp only
    split_ifs
    · rfl
    · rfl
    · exact hextract _ _

/-- A call for another parser. -/
theorem deliver_aside (h : Stores store held) (hd : d.Aside lifetime) :
    ∃ held', Stores (deliver d store).2 held' ∧ held' lifetime = held lifetime := by
  obtain ⟨c, hcounters⟩ := hd.counter
  obtain ⟨o, hobjects, hother⟩ := hd.object
  have htables : Tables { state := d.state, objects := d.objects, store }
      { counter := c, object := o, held } := ⟨hcounters, hobjects, h⟩
  obtain ⟨-, hafter, -⟩ := requestCandidate_refines htables d.call
  exact ⟨_, hafter.stores, Watch.candidate_held _ d.call hother⟩

/-- A new attempt opens the initial state. -/
theorem opened_of_new (h : Stores store held) (hnew : NewAttempt store lifetime attempt) :
    opened (held lifetime) lifetime attempt = recognised lifetime attempt [] := by
  cases hheld : held lifetime with
  | none => rfl
  | some st =>
      obtain ⟨-, hholding, hrows⟩ := h.rows lifetime st hheld
      have hattempt : st.1.attempt ≠ attempt := by
        have hor := hnew st.1.bytes hrows.progress
        rw [Progress.ofBytes_bytes hholding.bounded.fits] at hor
        exact hor.resolve_left fun hne => hne hholding.lifetime_eq
      rw [opened, if_neg hattempt]
      rfl

/-- The store after some bytes of a new attempt. -/
theorem stores_cut {before pieces : List Delivery} {bytes : List UInt8}
    (hbefore : ∀ x ∈ before, Delivery.Tabled x)
    (hnew : NewAttempt (storeAfter before) lifetime attempt)
    (hcut : Cut run lifetime attempt pieces bytes) :
    ∃ held, Stores (storeAfter (before ++ pieces)) held ∧
      opened (held lifetime) lifetime attempt = recognised lifetime attempt bytes := by
  induction hcut with
  | nil =>
      obtain ⟨held, hstores⟩ := stores_storeAfter hbefore
      rw [List.append_nil]
      exact ⟨held, hstores, opened_of_new hstores hnew⟩
  | piece front goal hchunk ih =>
      obtain ⟨held, hstores, hopened⟩ := ih
      obtain ⟨-, hafter⟩ := deliver_for hstores goal
      rw [← List.append_assoc, storeAfter_snoc]
      rw [hopened, called_recognised hchunk] at hafter
      refine ⟨_, hafter, ?_⟩
      rw [Function.update_self, opened, if_pos (recognised_attempt lifetime attempt _)]
  | aside front other ih =>
      obtain ⟨held, hstores, hopened⟩ := ih
      obtain ⟨held', hafter, hsame⟩ := deliver_aside hstores other
      rw [← List.append_assoc, storeAfter_snoc]
      exact ⟨held', hafter, by rw [hsame, hopened]⟩

/-- The last event says what the recogniser makes of the bytes, one by one. -/
theorem recognition_of_lastEvent {bytes : List UInt8} {e : CandidateEvent}
    (h : LastEvent run lifetime attempt bytes e) :
    e.recognition = recognition (recognised lifetime attempt bytes) := by
  obtain ⟨before, pieces, d, front, chunk, hbefore, hnew, hcut, hd, hchunk, rfl, rfl⟩ := h
  obtain ⟨held, hstores, hopened⟩ := stores_cut hbefore hnew hcut
  obtain ⟨hevent, -⟩ := deliver_for hstores hd
  rw [hevent, hopened, called_recognised hchunk]

/-- The store after calls that follow a flag. -/
theorem stores_flagged {before more : List Delivery} {st : State} {held : UInt64 → Option State}
    (hstores : Stores (storeAfter before) held) (hheld : held lifetime = some st)
    (hattempt : st.1.attempt = attempt) (hflags : st.1.flags ≠ 0)
    (hmore : ∀ x ∈ more, Delivery.For x run lifetime attempt ∨ Delivery.Aside x lifetime) :
    ∃ held', Stores (storeAfter (before ++ more)) held' ∧ held' lifetime = some st := by
  induction more using List.reverseRecOn with
  | nil =>
      rw [List.append_nil]
      exact ⟨held, hstores, hheld⟩
  | append_singleton more x ih =>
      obtain ⟨held', hstores', hheld'⟩ := ih fun y hy => hmore y (List.mem_append_left _ hy)
      rw [← List.append_assoc, storeAfter_snoc]
      rcases hmore x (by simp) with hfor | haside
      · obtain ⟨-, hafter⟩ := deliver_for hstores' hfor
        rw [hheld', opened, if_pos hattempt, called_stopped x.call hflags] at hafter
        exact ⟨_, hafter, Function.update_self _ _ _⟩
      · obtain ⟨held'', hafter, hsame⟩ := deliver_aside hstores' haside
        exact ⟨held'', hafter, hsame.trans hheld'⟩

/-- The calls that follow a flag say the same. -/
theorem recognition_of_flagged {before more : List Delivery} {d' : Delivery}
    (hbefore : ∀ x ∈ before, Delivery.Tabled x) (hd : d.For run lifetime attempt)
    (hflags : (deliver d (storeAfter before)).1.flags ≠ 0)
    (hmore : ∀ x ∈ more, Delivery.For x run lifetime attempt ∨ Delivery.Aside x lifetime)
    (hd' : d'.For run lifetime attempt) :
    (deliver d' (storeAfter (before ++ [d] ++ more))).1.recognition =
      (deliver d (storeAfter before)).1.recognition := by
  obtain ⟨held, hstores⟩ := stores_storeAfter hbefore
  obtain ⟨hevent, hafter⟩ := deliver_for hstores hd
  have hholding : Holding lifetime attempt
      (called d.call (opened (held lifetime) lifetime attempt)) :=
    (Holding.extractLoop d.call 512 0 (hstores.holding_opened lifetime attempt)).limited
  have hflags' : (called d.call (opened (held lifetime) lifetime attempt)).1.flags ≠ 0 := by
    have hsame := congrArg Recognition.flags hevent
    exact fun hzero => hflags (hsame.trans hzero)
  rw [← storeAfter_snoc] at hafter
  obtain ⟨held', hstores', hheld'⟩ := stores_flagged hafter (Function.update_self _ _ _)
    hholding.attempt_eq hflags' hmore
  obtain ⟨hevent', -⟩ := deliver_for hstores' hd'
  rw [hevent', hevent, hheld', opened, if_pos hholding.attempt_eq, called_stopped d'.call hflags']

/-- The last event does not depend on where the bytes of an attempt are cut: it says what
the recogniser makes of the first 512 of them.  Once an event has a flag, every later call
of the attempt says the same. -/
theorem recognition_ignores_cuts (run lifetime attempt : UInt64) :
    (∀ bytes e e', LastEvent run lifetime attempt bytes e →
        LastEvent run lifetime attempt bytes e' →
          e.recognition = e'.recognition ∧
            e.recognition = recognition (recognised lifetime attempt bytes)) ∧
      ∀ (before more : List Delivery) (d d' : Delivery), (∀ x ∈ before, x.Tabled) →
        d.For run lifetime attempt → (deliver d (storeAfter before)).1.flags ≠ 0 →
          (∀ x ∈ more, x.For run lifetime attempt ∨ x.Aside lifetime) →
            d'.For run lifetime attempt →
              (deliver d' (storeAfter (before ++ [d] ++ more))).1.recognition =
                (deliver d (storeAfter before)).1.recognition := by
  refine ⟨fun bytes e e' h h' => ?_, fun before more d d' hbefore hd hflags hmore hd' => ?_⟩
  · have hevent := recognition_of_lastEvent h
    exact ⟨hevent.trans (recognition_of_lastEvent h').symm, hevent⟩
  · exact recognition_of_flagged hbefore hd hflags hmore hd'

/-! ## A parser -/

/-- The objects after the birth of one parser. -/
def bornObjects : LsMap :=
  (lsMapUpdate LifeMaps.empty.objects (keyBytes 1)
    (LifeObject.bytes { run := 1, lifetime := 1, attempt := 0, state := 1 })).2

/-- A chunk for that parser. -/
def chunkDelivery (chunk : List UInt8) : Delivery where
  call := {
    config := { cfgMeta := some { schema := 1, entries := 1 }, row := some fun i => if i = 0 then 1 else 0 }
    address := 1
    chunk := 0
    length := UInt64.ofNat chunk.length
    mem := fun a => chunk[a]?
    emitted := true }
  state := LifeMaps.empty.state
  objects := bornObjects

theorem chunkDelivery_for (chunk : List UInt8) : (chunkDelivery chunk).For 1 1 1 := by
  have hroom : usedCells LifeMaps.empty.objects < 256 :=
    objects_empty.usedCells_lt (fun a ha => (ha rfl).elim : ∀ a, _ → a ∈ (∅ : Finset UInt64))
      (by decide)
  obtain ⟨m', hput, hobjects, -⟩ := @Objects.put _ _ 1 objects_empty (.inr hroom)
    { run := 1, lifetime := 1, attempt := 0, state := 1 }
  have hborn : m' = bornObjects := (congrArg Prod.snd hput).symm
  have hsame : (chunkDelivery chunk).objects = bornObjects := by simp only [chunkDelivery]
  rw [hborn, ← hsame] at hobjects
  refine ⟨rfl, ⟨none, counters_empty, fun s hs => (Option.some_ne_none s hs.symm).elim⟩,
    ⟨_, hobjects, ?_⟩⟩
  rw [show (chunkDelivery chunk).call.address = 1 from rfl, Function.update_self]
  rfl

theorem chunkDelivery_delivers {chunk : List UInt8} (h : chunk.length < 2 ^ 32) :
    (chunkDelivery chunk).call.Delivers chunk := by
  refine ⟨?_, fun _ => (by decide : (0 : UInt64) ≤ maxWord - 512), fun i hi => ?_⟩
  · have hword : (UInt64.ofNat chunk.length).toNat = chunk.length :=
      UInt64.toNat_ofNat_of_lt' (by simp [UInt64.size]; omega)
    show (UInt64.ofNat chunk.length).toNat % 2 ^ 32 = chunk.length
    rw [hword, Nat.mod_eq_of_lt h]
  · show chunk[(0 : UInt64).toNat + i]? = some chunk[i]
    rw [UInt64.toNat_zero, Nat.zero_add]
    exact List.getElem?_eq_getElem hi

theorem newAttempt_first : NewAttempt (storeAfter []) 1 1 := by
  intro row hrow
  have hnone : contents (storeAfter []) (keyBytes (stateKey 1)) = none :=
    stores_empty.progress_eq_none ⟨by decide, by decide⟩ rfl
  rw [hnone] at hrow
  contradiction

/-- The event of bytes that arrive in one chunk. -/
theorem chunkDelivery_lastEvent {chunk : List UInt8} (h : chunk.length < 2 ^ 32) :
    LastEvent 1 1 1 chunk (deliver (chunkDelivery chunk) (storeAfter [])).1 :=
  ⟨[], [], chunkDelivery chunk, [], chunk, by simp, newAttempt_first, .nil,
    chunkDelivery_for chunk, chunkDelivery_delivers h, rfl, rfl⟩

/-- The event of bytes that arrive in two chunks. -/
theorem chunkDelivery_lastEvent_append {front chunk : List UInt8} (h : front.length < 2 ^ 32)
    (h' : chunk.length < 2 ^ 32) :
    LastEvent 1 1 1 (front ++ chunk)
      (deliver (chunkDelivery chunk) (storeAfter [chunkDelivery front])).1 :=
  ⟨[], [chunkDelivery front], chunkDelivery chunk, front, chunk, by simp, newAttempt_first,
    .piece .nil (chunkDelivery_for front) (chunkDelivery_delivers h), chunkDelivery_for chunk,
    chunkDelivery_delivers h', rfl, rfl⟩

/-- A request line that is cut in two, and a bad byte with a call after it. -/
theorem recognition_ignores_cuts_requestLine :
    (deliver (chunkDelivery (ascii "POST /mcp HTTP/1.1\r\n")) (storeAfter [])).1.recognition =
        (deliver (chunkDelivery (ascii " HTTP/1.1\r\n"))
          (storeAfter [chunkDelivery (ascii "POST /mcp")])).1.recognition ∧
      (deliver (chunkDelivery (ascii "P")) (storeAfter [chunkDelivery (ascii "G")])).1.recognition =
        (deliver (chunkDelivery (ascii "G")) (storeAfter [])).1.recognition := by
  have hwhole := chunkDelivery_lastEvent (by decide : (ascii "POST /mcp HTTP/1.1\r\n").length < 2 ^ 32)
  have hcut := chunkDelivery_lastEvent_append (by decide : (ascii "POST /mcp").length < 2 ^ 32)
    (by decide : (ascii " HTTP/1.1\r\n").length < 2 ^ 32)
  have hbad := chunkDelivery_lastEvent (by decide : (ascii "G").length < 2 ^ 32)
  have hflags : (deliver (chunkDelivery (ascii "G")) (storeAfter [])).1.flags ≠ 0 := by
    generalize (deliver (chunkDelivery (ascii "G")) (storeAfter [])).1 = e at hbad
    have hevent : e.flags = (recognition (recognised 1 1 (ascii "G"))).flags :=
      congrArg Recognition.flags (recognition_of_lastEvent hbad)
    rw [hevent]
    decide
  refine ⟨((recognition_ignores_cuts 1 1 1).1 _ _ _ hwhole hcut).1, ?_⟩
  exact (recognition_ignores_cuts 1 1 1).2 [] [] (chunkDelivery (ascii "G"))
    (chunkDelivery (ascii "P")) (fun x hx => (List.not_mem_nil hx).elim) (chunkDelivery_for _)
    hflags (fun x hx => (List.not_mem_nil hx).elim) (chunkDelivery_for _)

/-- 512 bytes of a header that has not ended. -/
def unfinishedHeader : List UInt8 :=
  ascii "POST /mcp HTTP/1.1\r\n" ++ List.replicate 492 0x61

/-- After 512 bytes of an unfinished header the recogniser has no flag and the path of its
request line, and the event has the flag of the limit and no path. -/
theorem unfinished_header_limited :
    ¬∀ bytes e, LastEvent 1 1 1 bytes e →
      e.flags = (feedCounted (.initial 1 1, noBytes) (bytes.take 512)).1.flags ∧
        e.path = (feedCounted (.initial 1 1, noBytes) (bytes.take 512)).1.path := by
  intro hclaim
  obtain ⟨e, hevent⟩ : ∃ e, LastEvent 1 1 1 unfinishedHeader e :=
    ⟨_, chunkDelivery_lastEvent (by decide +kernel)⟩
  obtain ⟨hflags, -⟩ := hclaim unfinishedHeader e hevent
  have hlimited : e.flags = (recognition (recognised 1 1 unfinishedHeader)).flags :=
    congrArg Recognition.flags (recognition_of_lastEvent hevent)
  have hnone : (feedCounted (.initial 1 1, noBytes) (unfinishedHeader.take 512)).1.flags = 0 := by
    decide +kernel
  have hlimit : (recognition (recognised 1 1 unfinishedHeader)).flags = flagLimit := by
    decide +kernel
  have hboth : 0 = flagLimit := hnone.symm.trans (hflags.symm.trans (hlimited.trans hlimit))
  exact absurd hboth (by decide)

end Deliveries

end Candidate
end LiveSurface
