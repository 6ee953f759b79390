import LiveSurface.Ring.Reader

/-!
# Claiming a ring

Every thread that publishes takes a ring of its own the first time, by adding one to a
counter of the segment.  The counter goes on past the number of rings, and a thread that
comes too late stays silent.  The durable reader reads the same counter as the number of
rings to follow, and exits when it is too large.

A publication is cut at its one atomic access and at its writes.  What a thread keeps for
itself is its ring and whether it has tried.

Main results:

- Theorem {lit}`claimed_of_reachable`: rings are exclusive while the counter does not wrap.
- Theorem {lit}`claims_tolerated`: with at most one claim for each ring, rings are exclusive and
  the reader's check passes.
- Theorem {lit}`late_claim_stops_reader`: one claim more, and the reader exits.
-/

namespace LiveSurface
namespace Ring

/-! ## The segment -/

/-- {lit}`LS_TP_MAX_RINGS`, the {lit}`n_rings` of every segment. -/
def lsTpMaxRings : Nat := 16

/-- Where a thread is inside {lit}`ls_tp_ring_publish`. -/
inductive PublishPc
  | outside
  | claiming
  | emitting (ring : Nat)
deriving DecidableEq

/-- One thread: its program point, {lit}`mine` and {lit}`tried`, and the number of claims before
its own. -/
structure Publisher where
  pc : PublishPc
  mine : Option Nat
  tried : Bool
  order : Option Nat
deriving DecidableEq

/-- The counter of the segment and its threads, with the number of claims so far and the writes
that were made, each with its thread and its ring. -/
structure Segment (T : Type) where
  claimed : Nat
  publishers : T → Publisher
  claims : Nat
  writes : List (T × Nat)

/-- A step of a thread. -/
inductive PublishAct (T : Type)
  /-- Enter {lit}`ls_tp_ring_publish`. -/
  | publish (t : T)
  /-- The {lit}`atomic_fetch_add` of {lit}`ls_tp_my_ring`. -/
  | claim (t : T)
  /-- A store of {lit}`ls_ring_emit`. -/
  | write (t : T)
  /-- Return from {lit}`ls_tp_ring_publish`. -/
  | leave (t : T)

variable {T : Type} [DecidableEq T]

/-- The segment with another state of one thread. -/
def Segment.setPublisher (s : Segment T) (t : T) (p : Publisher) : Segment T :=
  { s with publishers := Function.update s.publishers t p }

@[simp]
theorem setPublisher_self (s : Segment T) (t : T) (p : Publisher) :
    (s.setPublisher t p).publishers t = p := by
  unfold Segment.setPublisher
  exact Function.update_self ..

theorem setPublisher_ne (s : Segment T) {t u : T} (p : Publisher) (hne : u ≠ t) :
    (s.setPublisher t p).publishers u = s.publishers u := by
  unfold Segment.setPublisher
  exact Function.update_of_ne hne ..

/-- {lit}`ls_tp_my_ring` up to the claim. -/
def enterPublish (p : Publisher) : Publisher :=
  match p.mine with
  | some ring => { p with pc := .emitting ring }
  | none => if p.tried then p else { p with pc := .claiming, tried := true }

/-- {lit}`ls_tp_my_ring` from the claim on. -/
def takeRing (p : Publisher) (idx order : Nat) : Publisher :=
  if idx ≥ lsTpMaxRings then { p with pc := .outside, order := some order }
  else { p with pc := .emitting idx, mine := some idx, order := some order }

/-- The steps of a segment. -/
def segmentNext (s : Segment T) : PublishAct T → Option (Segment T)
  | .publish t =>
      match (s.publishers t).pc with
      | .outside => some (s.setPublisher t (enterPublish (s.publishers t)))
      | _ => none
  | .claim t =>
      match (s.publishers t).pc with
      | .claiming =>
          some { s.setPublisher t (takeRing (s.publishers t) s.claimed s.claims) with
            claimed := u32 (s.claimed + 1)
            claims := s.claims + 1 }
      | _ => none
  | .write t =>
      match (s.publishers t).pc with
      | .emitting ring => some { s with writes := (t, ring) :: s.writes }
      | _ => none
  | .leave t =>
      match (s.publishers t).pc with
      | .emitting _ => some (s.setPublisher t { s.publishers t with pc := .outside })
      | _ => none

/-- A thread that has published nothing. -/
def Publisher.fresh : Publisher where
  pc := .outside
  mine := none
  tried := false
  order := none

/-- The segment before the first publication. -/
def Segment.fresh : Segment T where
  claimed := 0
  publishers _ := .fresh
  claims := 0
  writes := []

/-- Any number of threads on one segment. -/
def segmentMachine (T : Type) [DecidableEq T] : Machine (Segment T) (PublishAct T) where
  init s := s = .fresh
  next := segmentNext

/-- The reader's check of the counter. -/
def checkClaims (claimed : Nat) : Option String :=
  if claimed > lsTpMaxRings then some "ring claims exceed capacity" else none

/-! ## Exclusive rings -/

/-- A claim is made only while the counter has not wrapped. -/
def CounterOk (s : Segment T) : PublishAct T → Prop
  | .claim _ => s.claims < 2 ^ 32
  | _ => True

/-- A claim is made only while a ring is left. -/
def RingLeft (s : Segment T) : PublishAct T → Prop
  | .claim _ => s.claims < lsTpMaxRings
  | _ => True

/-- What a thread keeps, when so many claims were made. -/
structure PublisherOk (claims : Nat) (p : Publisher) : Prop where
  mine : ∀ ring, p.mine = some ring → p.order = some ring ∧ ring < lsTpMaxRings
  order : ∀ n, p.order = some n → n < claims
  untried : p.tried = false → p.order = none
  claiming : p.pc = .claiming → p.order = none ∧ p.tried = true
  emitting : ∀ ring, p.pc = .emitting ring → p.mine = some ring

/-- Every thread has its own place among the claims, and writes to the ring of that place. -/
structure Claimed (s : Segment T) : Prop where
  counter : s.claimed = u32 s.claims
  publishers : ∀ t, PublisherOk s.claims (s.publishers t)
  apart : ∀ t t' n, (s.publishers t).order = some n → (s.publishers t').order = some n → t = t'
  writes : ∀ w ∈ s.writes, (s.publishers w.1).mine = some w.2

section Steps

variable {s s' : Segment T} {t : T} {p : Publisher}

theorem PublisherOk.mono {claims claims' : Nat} (h : PublisherOk claims p) (hle : claims ≤ claims') :
    PublisherOk claims' p :=
  ⟨h.mine, fun n hn => (h.order n hn).trans_le hle, h.untried, h.claiming, h.emitting⟩

/-- A thread that moves without claiming. -/
theorem Claimed.move (h : Claimed s) (hp : PublisherOk s.claims p)
    (hmine : p.mine = (s.publishers t).mine) (horder : p.order = (s.publishers t).order) :
    Claimed (s.setPublisher t p) := by
  have hsame : ∀ u, ((s.setPublisher t p).publishers u).order = (s.publishers u).order ∧
      ((s.setPublisher t p).publishers u).mine = (s.publishers u).mine := by
    intro u
    by_cases hu : u = t
    · rw [hu, setPublisher_self]
      exact ⟨horder, hmine⟩
    · rw [setPublisher_ne s p hu]
      exact ⟨rfl, rfl⟩
  refine ⟨h.counter, fun u => ?_, fun u u' n hu hu' => ?_, fun w hw => ?_⟩
  · by_cases hu : u = t
    · rw [hu, setPublisher_self]
      exact hp
    · rw [setPublisher_ne s p hu]
      exact h.publishers u
  · rw [(hsame u).1] at hu
    rw [(hsame u').1] at hu'
    exact h.apart u u' n hu hu'
  · rw [(hsame w.1).2]
    exact h.writes w hw

/-- How a publication starts. -/
theorem enterPublish_cases (p : Publisher) :
    (∃ ring, p.mine = some ring ∧ enterPublish p = { p with pc := .emitting ring }) ∨
      enterPublish p = p ∨
      p.tried = false ∧ enterPublish p = { p with pc := .claiming, tried := true } := by
  unfold enterPublish
  split
  case h_1 ring hmine => exact Or.inl ⟨ring, hmine, rfl⟩
  case h_2 =>
    split
    · exact Or.inr (Or.inl rfl)
    · rename_i htried
      exact Or.inr (Or.inr ⟨by simpa using htried, rfl⟩)

/-- Entering changes neither the ring nor the place of a thread. -/
theorem enterPublish_ok {claims : Nat} (h : PublisherOk claims p) :
    PublisherOk claims (enterPublish p) ∧ (enterPublish p).mine = p.mine ∧
      (enterPublish p).order = p.order := by
  rcases enterPublish_cases p with ⟨ring, hmine, heq⟩ | heq | ⟨htried, heq⟩
  · rw [heq]
    refine ⟨⟨h.mine, h.order, h.untried, fun hbad => (nomatch hbad), fun r hr => ?_⟩, rfl, rfl⟩
    injection hr with hr
    rw [← hr]
    exact hmine
  · rw [heq]
    exact ⟨h, rfl, rfl⟩
  · rw [heq]
    exact ⟨⟨h.mine, h.order, fun hbad => (nomatch hbad), fun _ => ⟨h.untried htried, rfl⟩,
      fun r hr => (nomatch hr)⟩, rfl, rfl⟩

/-- A thread that claims takes the next place, and the ring of that place. -/
theorem takeRing_ok {claims : Nat} (h : PublisherOk claims p) (hpc : p.pc = .claiming)
    (hclaims : claims < 2 ^ 32) : PublisherOk (claims + 1) (takeRing p (u32 claims) claims) ∧
      (takeRing p (u32 claims) claims).order = some claims := by
  have hidx : u32 claims = claims := Nat.mod_eq_of_lt hclaims
  obtain ⟨hnone, htried⟩ := h.claiming hpc
  have horder : ∀ n, some claims = some n → n < claims + 1 := by
    rintro n ⟨rfl⟩
    exact Nat.lt_succ_self claims
  have huntried : p.tried = false → some claims = none := fun hfalse => by
    rw [htried] at hfalse
    contradiction
  unfold takeRing
  rw [hidx]
  split
  · refine ⟨⟨fun ring hring => ?_, horder, huntried, fun hbad => (nomatch hbad),
      fun r hr => (nomatch hr)⟩, rfl⟩
    have hbad := (h.mine ring hring).1
    rw [hnone] at hbad
    exact (Option.some_ne_none ring hbad.symm).elim
  · rename_i hleft
    refine ⟨⟨fun ring hring => ?_, horder, huntried, fun hbad => (nomatch hbad), fun r hr => ?_⟩,
      rfl⟩
    · rw [← Option.some.inj hring]
      exact ⟨rfl, Nat.lt_of_not_le hleft⟩
    · injection hr with hr
      rw [← hr]

/-- A thread claims. -/
theorem Claimed.claim (h : Claimed s) (hpc : (s.publishers t).pc = .claiming)
    (hclaims : s.claims < 2 ^ 32) :
    Claimed { s.setPublisher t (takeRing (s.publishers t) s.claimed s.claims) with
      claimed := u32 (s.claimed + 1)
      claims := s.claims + 1 } := by
  rw [h.counter]
  obtain ⟨hok, horder⟩ := takeRing_ok (h.publishers t) hpc hclaims
  -- No other thread has the new place.
  have hnew : ∀ u, (s.publishers u).order ≠ some s.claims := fun u hu =>
    Nat.lt_irrefl _ ((h.publishers u).order _ hu)
  have hnone := ((h.publishers t).claiming hpc).1
  refine ⟨?_, fun u => ?_, fun u u' n hu hu' => ?_, fun w hw => ?_⟩
  · change u32 (u32 s.claims + 1) = u32 (s.claims + 1)
    unfold u32
    omega
  · change PublisherOk (s.claims + 1) ((s.setPublisher t _).publishers u)
    by_cases hu : u = t
    · rw [hu, setPublisher_self]
      exact hok
    · rw [setPublisher_ne s _ hu]
      exact (h.publishers u).mono (Nat.le_succ _)
  · change ((s.setPublisher t _).publishers u).order = some n at hu
    change ((s.setPublisher t _).publishers u').order = some n at hu'
    by_cases ht : u = t
    · by_cases ht' : u' = t
      · rw [ht, ht']
      · rw [ht, setPublisher_self, horder] at hu
        rw [setPublisher_ne s _ ht', ← hu] at hu'
        exact (hnew u' hu').elim
    · rw [setPublisher_ne s _ ht] at hu
      by_cases ht' : u' = t
      · rw [ht', setPublisher_self, horder] at hu'
        rw [← hu'] at hu
        exact (hnew u hu).elim
      · rw [setPublisher_ne s _ ht'] at hu'
        exact h.apart u u' n hu hu'
  · change ((s.setPublisher t _).publishers w.1).mine = some w.2
    have hmine := h.writes w hw
    have hne : w.1 ≠ t := by
      intro heq
      have hbad := ((h.publishers w.1).mine _ hmine).1
      rw [heq, hnone] at hbad
      exact Option.some_ne_none _ hbad.symm
    rw [setPublisher_ne s _ hne]
    exact hmine

/-- Every step keeps the rings apart. -/
theorem Claimed.next {a : PublishAct T} (h : Claimed s) (hok : CounterOk s a)
    (hnext : segmentNext s a = some s') : Claimed s' := by
  cases a with
  | publish t =>
      simp only [segmentNext] at hnext
      split at hnext
      · obtain rfl := Option.some.inj hnext
        obtain ⟨hp, hmine, horder⟩ := enterPublish_ok (h.publishers t)
        exact h.move hp hmine horder
      · exact nomatch hnext
  | claim t =>
      simp only [segmentNext] at hnext
      split at hnext
      · rename_i hpc
        obtain rfl := Option.some.inj hnext
        exact h.claim hpc hok
      · exact nomatch hnext
  | write t =>
      simp only [segmentNext] at hnext
      split at hnext
      · rename_i ring hpc
        obtain rfl := Option.some.inj hnext
        refine ⟨h.counter, h.publishers, h.apart, fun w hw => ?_⟩
        rcases List.mem_cons.mp hw with rfl | hw
        · exact (h.publishers t).emitting ring hpc
        · exact h.writes w hw
      · exact nomatch hnext
  | leave t =>
      simp only [segmentNext] at hnext
      split at hnext
      · obtain rfl := Option.some.inj hnext
        have hp := h.publishers t
        exact h.move ⟨hp.mine, hp.order, hp.untried, fun hbad => (nomatch hbad),
          fun r hr => (nomatch hr)⟩ rfl rfl
      · exact nomatch hnext

theorem claimed_fresh : Claimed (Segment.fresh : Segment T) :=
  ⟨rfl, fun _ => ⟨fun _ hbad => (nomatch hbad), fun _ hbad => (nomatch hbad), fun _ => rfl,
    fun hbad => (nomatch hbad), fun _ hbad => (nomatch hbad)⟩, fun _ _ _ hbad => (nomatch hbad),
    fun _ hbad => (nomatch hbad)⟩

/-- Rings are exclusive while the counter does not wrap. -/
theorem claimed_of_reachable : ∀ s, (segmentMachine T).ReachableWhen CounterOk s → Claimed s := by
  apply Machine.ReachableWhen.invariant
  · rintro s rfl
    exact claimed_fresh
  · intro s a t _ h hok hnext
    exact h.next hok hnext

/-- While every claim found a ring, there are no more claims than rings. -/
theorem claims_le_of_reachable :
    ∀ s, (segmentMachine T).ReachableWhen RingLeft s → s.claims ≤ lsTpMaxRings := by
  apply Machine.ReachableWhen.invariant
  · rintro s rfl
    exact Nat.zero_le _
  · intro s a t _ h hok hnext
    cases a with
    | claim t =>
        simp only [segmentMachine, segmentNext] at hnext
        split at hnext
        · obtain rfl := Option.some.inj hnext
          exact hok
        · exact nomatch hnext
    | publish t =>
        simp only [segmentMachine, segmentNext] at hnext
        split at hnext
        · obtain rfl := Option.some.inj hnext
          exact h
        · exact nomatch hnext
    | write t =>
        simp only [segmentMachine, segmentNext] at hnext
        split at hnext
        · obtain rfl := Option.some.inj hnext
          exact h
        · exact nomatch hnext
    | leave t =>
        simp only [segmentMachine, segmentNext] at hnext
        split at hnext
        · obtain rfl := Option.some.inj hnext
          exact h
        · exact nomatch hnext

end Steps

/-! ## The reader -/

/-- No two threads write to one ring, a thread beyond the last ring writes nothing, and the
reader goes on. -/
structure Tolerated (s : Segment T) : Prop where
  exclusive : ∀ w ∈ s.writes, ∀ w' ∈ s.writes, w.2 = w'.2 → w.1 = w'.1
  silent : ∀ w ∈ s.writes, ∀ n, (s.publishers w.1).order = some n → n < lsTpMaxRings
  followed : checkClaims s.claimed = none

/-- While the counter does not wrap the rings are exclusive, and the reader goes on exactly when
there are no more claims than rings. -/
theorem tolerated_iff {s : Segment T} (h : (segmentMachine T).ReachableWhen CounterOk s)
    (hclaims : s.claims < 2 ^ 32) : Tolerated s ↔ s.claims ≤ lsTpMaxRings := by
  have hclaimed := claimed_of_reachable s h
  have hcheck : checkClaims s.claimed = none ↔ s.claims ≤ lsTpMaxRings := by
    rw [hclaimed.counter, show u32 s.claims = s.claims from Nat.mod_eq_of_lt hclaims]
    unfold checkClaims
    split
    case isTrue hgt => exact ⟨fun hbad => (nomatch hbad), fun hle => absurd hle (Nat.not_le.mpr hgt)⟩
    case isFalse hle => exact ⟨fun _ => Nat.le_of_not_lt hle, fun _ => rfl⟩
  refine ⟨fun ht => hcheck.mp ht.followed, fun hle => ⟨?_, ?_, hcheck.mpr hle⟩⟩
  · intro w hw w' hw' hring
    have hmine := (hclaimed.publishers w.1).mine _ (hclaimed.writes w hw)
    have hmine' := (hclaimed.publishers w'.1).mine _ (hclaimed.writes w' hw')
    rw [← hring] at hmine'
    exact hclaimed.apart w.1 w'.1 w.2 hmine.1 hmine'.1
  · intro w hw n hn
    obtain ⟨horder, hlt⟩ := (hclaimed.publishers w.1).mine _ (hclaimed.writes w hw)
    rw [horder] at hn
    exact Option.some.inj hn ▸ hlt

/-- With no more claims than rings every thread has its own ring, and the reader goes on. -/
theorem claims_tolerated (s : Segment T) (hs : (segmentMachine T).ReachableWhen RingLeft s) :
    Tolerated s := by
  have hle := claims_le_of_reachable s hs
  have hrings : lsTpMaxRings < 2 ^ 32 := by decide
  refine (tolerated_iff (hs.mono fun s a hok => ?_) (hle.trans_lt hrings)).mpr hle
  cases a with
  | claim t =>
      have hok : s.claims < lsTpMaxRings := hok
      exact hok.trans hrings
  | publish t => exact trivial
  | write t => exact trivial
  | leave t => exact trivial

/-! ## Two runs -/

/-- Thread {lit}`t` publishes for the first time, where a ring is left. -/
def publishOnce (t : Nat) : List (PublishAct Nat) := [.publish t, .claim t, .write t, .leave t]

/-- Thread {lit}`t` publishes for the first time, where no ring is left. -/
def publishLate (t : Nat) : List (PublishAct Nat) := [.publish t, .claim t]

instance (s : Segment Nat) (a : PublishAct Nat) : Decidable (RingLeft s a) := by
  unfold RingLeft
  cases a <;> infer_instance

/-- Sixteen threads on sixteen rings. -/
def everyRing : List (PublishAct Nat) := (List.range lsTpMaxRings).flatMap publishOnce

/-- The segment after sixteen threads. -/
def everyRingTaken : Segment Nat :=
  ((segmentMachine Nat).runWhen RingLeft .fresh everyRing).getD .fresh

theorem claims_tolerated_everyRing : everyRingTaken.claimed = 16 ∧ Tolerated everyRingTaken :=
  ⟨by decide +kernel, claims_tolerated everyRingTaken
    (Machine.reachableWhen_run_getD (.start rfl) (by decide +kernel))⟩

/-- The segment after one thread more. -/
def ringExhausted : Segment Nat :=
  ((segmentMachine Nat).run .fresh (everyRing ++ publishLate lsTpMaxRings)).getD .fresh

/-- The thread that finds no ring stops the reader. -/
theorem late_claim_stops_reader :
    ¬∀ s : Segment Nat, (segmentMachine Nat).Reachable s → Tolerated s := by
  intro hall
  have hreach : (segmentMachine Nat).Reachable ringExhausted :=
    Machine.reachable_run_getD (.start rfl) (by decide +kernel)
  have hstopped : checkClaims ringExhausted.claimed = some "ring claims exceed capacity" := by
    decide +kernel
  rw [(hall ringExhausted hreach).followed] at hstopped
  contradiction

end Ring
end LiveSurface
