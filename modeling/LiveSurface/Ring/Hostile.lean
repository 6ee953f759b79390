import LiveSurface.Ring.Reader

/-!
# The producer beside a hostile reader

The segment of a ring can be written by the process that reads it.  Between two steps of the
producer that process may put anything into the data area and into the words of the control
block, as long as the producer's position stays aligned.

Main results:

- Theorem {lit}`Contained.producerStep`: one step of the producer stays in the data area and
  comes nearer to the end of the call.
- Theorem {lit}`producer_contained`: what holds in every run.
-/

namespace LiveSurface
namespace Ring

/-! ## The machine -/

/-- The producer, the number of its steps in this call, and the stores it made to the data area. -/
structure HostileState where
  core : Core
  steps : Nat
  written : List (Nat × List UInt8)

/-- A step of the producer's process or of the other one. -/
inductive HostileAct
  | emit (e : Emission)
  | producer
  /-- The other process writes the data area, the positions and the counters. -/
  | scribble (data : Memory) (producerPos consumerPos drops dropBytes : UInt64)

/-- The store that the producer makes next. -/
def ProducerPc.store : ProducerPc → Option (Nat × List UInt8)
  | .pad _ _ _ (w :: _) => some w
  | .write _ _ _ (w :: _) => some w
  | _ => none

/-- The rounded size of the record is a 32-bit number. -/
def Emission.Rounds (e : Emission) : Prop := lsRingHdrSz + lsRecSize + e.len + 7 < 2 ^ 32

instance (e : Emission) : Decidable e.Rounds := inferInstanceAs (Decidable (_ < _))

/-- The steps of both processes. -/
def hostileNext (s : HostileState) : HostileAct → Option HostileState
  | .emit e =>
      if e.Rounds then
        (startEmit s.core e).map fun core => { s with core, steps := 0 }
      else none
  | .producer =>
      (producerStep s.core).map fun core =>
        { core
          steps := s.steps + 1
          written := s.core.producer.store.toList ++ s.written }
  | .scribble data producerPos consumerPos drops dropBytes =>
      if 8 ∣ producerPos.toNat then
        some { s with core := { s.core with ring := { s.core.ring with
          data
          producerPos := producerPos.toNat
          consumerPos := consumerPos.toNat
          drops := drops.toNat
          dropBytes := dropBytes.toNat } } }
      else none

/-- One ring with a data area of {lit}`ds` bytes. -/
def hostileMachine (ds : Nat) : Machine HostileState HostileAct where
  init s := s.core.ring.dataSize = ds ∧ 8 ∣ s.core.ring.producerPos ∧ s.core.producer = .idle ∧
    s.steps = 0 ∧ s.written = []
  next := hostileNext

/-! ## Where the producer is -/

/-- The steps that a call still takes at most. -/
def ProducerPc.remaining : ProducerPc → Nat
  | .idle => 0
  | .loadProducer e => e.len + 54
  | .pad e _ _ stores => stores.length + (e.len + 45)
  | .storePad e _ _ => e.len + 44
  | .loadConsumer e _ _ => e.len + 43
  | .addDrops _ => 2
  | .addDropBytes _ => 1
  | .write _ _ _ stores => stores.length + 2
  | .publish _ _ => 1

/-- The stores lie in the data area. -/
def Inside (ds : Nat) (stores : List (Nat × List UInt8)) : Prop :=
  ∀ w ∈ stores, w.1 + w.2.length ≤ ds

/-- A record that fits the data area. -/
def Admitted (ds : Nat) (e : Emission) : Prop := e.Rounds ∧ e.need ≤ ds

/-- What the producer relies on, none of which the other process can change. -/
def ProducerInside (ds : Nat) : ProducerPc → Prop
  | .loadProducer e => Admitted ds e
  | .pad e prod off stores => Admitted ds e ∧ 8 ∣ prod ∧ off < ds ∧ 8 ∣ ds - off ∧ Inside ds stores
  | .storePad e prod off => Admitted ds e ∧ 8 ∣ prod ∧ off < ds ∧ 8 ∣ ds - off
  | .loadConsumer e prod off => Admitted ds e ∧ 8 ∣ prod ∧ off + e.need ≤ ds
  | .write e prod _ stores => Admitted ds e ∧ 8 ∣ prod ∧ Inside ds stores
  | .publish e prod => Admitted ds e ∧ 8 ∣ prod
  | _ => True

/-- What holds at every moment. -/
structure Contained (ds : Nat) (s : HostileState) : Prop where
  size : s.core.ring.dataSize = ds
  aligned : 8 ∣ s.core.ring.producerPos
  producer : ProducerInside ds s.core.producer
  written : Inside ds s.written
  budget : ∀ e, s.core.producer.emission = some e →
    s.steps + s.core.producer.remaining ≤ e.len + 54

section Sizes

variable {ds : Nat} {e : Emission}

theorem length_byteStores (a : Nat) (bs : List UInt8) : (Memory.byteStores a bs).length = bs.length := by
  induction bs generalizing a with
  | nil => rfl
  | cons b rest ih => rw [Memory.byteStores, List.length_cons, ih, List.length_cons]

theorem length_recordStores (e : Emission) (off : Nat) :
    (recordStores e off).length = e.len + 38 := by
  simp [recordStores, length_byteStores, Emission.len]
  omega

theorem length_padStores_le (off pad : Nat) : (padStores off pad).length ≤ 8 := by
  unfold padStores
  split
  · simp [length_byteStores]
  · simp

/-- The room of an admitted record. -/
theorem Admitted.need (h : Admitted ds e) :
    40 + e.len ≤ e.need ∧ 8 ∣ e.need ∧ e.need ≤ ds ∧ e.need < 2 ^ 32 := by
  obtain ⟨hrounds, hle⟩ := h
  simp only [Emission.Rounds, lsRingHdrSz, lsRecSize] at hrounds
  have heq : e.need = (47 + e.len) / 8 * 8 := by
    rw [Emission.need, lsRingHdrSz, lsRecSize, lsRingRound_eq (by omega)]
    omega
  omega

/-- A data area with room for a record is made of aligned words. -/
theorem Admitted.dvd {k : Nat} (h : Admitted (2 ^ k) e) : 8 ∣ 2 ^ k := by
  obtain ⟨hlen, -, hle, -⟩ := h.need
  have hk : 3 ≤ k := by
    by_contra hlt
    have hpow : 2 ^ k ≤ 2 ^ 2 := Nat.pow_le_pow_right (by decide) (by omega)
    omega
  exact Nat.pow_dvd_pow 2 hk

/-- The stores of an admitted record. -/
theorem inside_recordStores (h : Admitted ds e) {off : Nat} (hoff : off + e.need ≤ ds) :
    Inside ds (recordStores e off) := by
  intro w hw
  have hrange := (recordStores_range hw).2
  have hneed := h.need.1
  omega

/-- The stores of a pad. -/
theorem inside_padStores {off : Nat} (hoff : off < ds) (hdvd : 8 ∣ ds - off) :
    Inside ds (padStores off (ds - off)) := by
  intro w hw
  rw [padStores_eq (by omega)] at hw
  obtain ⟨i, hi, rfl⟩ := Memory.mem_byteStores hw
  rw [length_padBytes] at hi
  simp only [List.length_singleton]
  omega

end Sizes

section Steps

variable {k : Nat} {c c' : Core} {e : Emission} {r : LsRing}

/-- Where the producer goes when its record fits behind an offset. -/
theorem inside_checkOrWrite {prod off : Nat} (h : Admitted (2 ^ k) e) (hprod : 8 ∣ prod)
    (hoff : off + e.need ≤ 2 ^ k) :
    ProducerInside (2 ^ k) (checkOrWrite r e prod off) ∧
      (checkOrWrite r e prod off).emission = some e ∧
      (checkOrWrite r e prod off).remaining ≤ e.len + 43 := by
  unfold checkOrWrite
  cases r.policy with
  | stream => exact ⟨⟨h, hprod, hoff⟩, rfl, Nat.le_refl _⟩
  | record =>
      refine ⟨⟨h, hprod, inside_recordStores h hoff⟩, rfl, ?_⟩
      change (recordStores e off).length + 2 ≤ e.len + 43
      rw [length_recordStores]
      omega

/-- Where the producer goes once it has read its position. -/
theorem inside_afterLoad (hk : k < 32) (hsize : r.dataSize = 2 ^ k) (h : Admitted (2 ^ k) e)
    {prod : Nat} (hprod : 8 ∣ prod) :
    ProducerInside (2 ^ k) (afterLoad r e prod) ∧ (afterLoad r e prod).emission = some e ∧
      (afterLoad r e prod).remaining ≤ e.len + 53 := by
  obtain ⟨-, hneed, hle, hsmall⟩ := h.need
  have hpow : 2 ^ k ≤ 2 ^ 31 := Nat.pow_le_pow_right (by decide) (by omega)
  have hlt : prod % 2 ^ k < 2 ^ k := Nat.mod_lt _ (Nat.two_pow_pos k)
  have hoff : u32 (prod &&& (2 ^ k - 1)) = prod % 2 ^ k := by
    rw [and_mask, u32, Nat.mod_eq_of_lt (by omega)]
  have hdvd : 8 ∣ prod % 2 ^ k := (Nat.dvd_mod_iff h.dvd).mpr hprod
  unfold afterLoad
  rw [hsize, hoff]
  dsimp only
  split
  · have hroom : 8 ∣ 2 ^ k - prod % 2 ^ k := Nat.dvd_sub h.dvd hdvd
    refine ⟨⟨h, hprod, hlt, hroom, inside_padStores hlt hroom⟩, rfl, ?_⟩
    have hstores := length_padStores_le (prod % 2 ^ k) (2 ^ k - prod % 2 ^ k)
    change (padStores _ _).length + (e.len + 45) ≤ e.len + 53
    omega
  · rename_i hfits
    have hfits : prod % 2 ^ k + e.need ≤ 2 ^ k := by
      unfold u32 at hfits
      omega
    obtain ⟨hinside, hemission, hremaining⟩ := inside_checkOrWrite h hprod hfits (r := r)
    exact ⟨hinside, hemission, hremaining.trans (by omega)⟩

/-- The producer writes inside the data area, keeps its position aligned and comes nearer to the
end of the call. -/
theorem producerStep_inside (hk : k < 32) (hsize : c.ring.dataSize = 2 ^ k)
    (haligned : 8 ∣ c.ring.producerPos) (h : ProducerInside (2 ^ k) c.producer)
    (hstep : producerStep c = some c') :
    c'.ring.dataSize = 2 ^ k ∧ 8 ∣ c'.ring.producerPos ∧ ProducerInside (2 ^ k) c'.producer ∧
      Inside (2 ^ k) c.producer.store.toList ∧
      (∀ e, c'.producer.emission = some e → c.producer.emission = some e) ∧
      c'.producer.remaining + 1 ≤ c.producer.remaining := by
  have hnothing : Inside (2 ^ k) [] := fun w hw => nomatch hw
  have hword : ∀ n, 8 ∣ n → 8 ∣ u64 n := fun n hn =>
    (Nat.dvd_mod_iff (show 8 ∣ 2 ^ 64 by decide)).mpr hn
  have hidle : ∀ e, ProducerPc.idle.emission = some e → c.producer.emission = some e :=
    fun e hbad => nomatch hbad
  unfold producerStep at hstep
  cases hpc : c.producer with
  | idle =>
      rw [hpc] at hstep
      exact nomatch hstep
  | loadProducer e =>
      rw [hpc] at hstep h
      obtain rfl := Option.some.inj hstep
      obtain ⟨hinside, hemission, hremaining⟩ := inside_afterLoad hk hsize h haligned
      refine ⟨hsize, haligned, hinside, hnothing, fun e' he' => hemission.symm.trans he', ?_⟩
      change (afterLoad c.ring e c.ring.producerPos).remaining + 1 ≤ e.len + 54
      omega
  | pad e prod off stores =>
      rw [hpc] at hstep h
      obtain ⟨hadmitted, hprod, hoff, hdvd, hstores⟩ := h
      cases stores with
      | nil =>
          obtain rfl := Option.some.inj hstep
          refine ⟨hsize, haligned, ⟨hadmitted, hprod, hoff, hdvd⟩, hnothing, fun e' he' => he', ?_⟩
          change e.len + 44 + 1 ≤ 0 + (e.len + 45)
          omega
      | cons w rest =>
          obtain rfl := Option.some.inj hstep
          obtain ⟨hw, hrest⟩ := List.forall_mem_cons.mp hstores
          refine ⟨hsize, haligned, ⟨hadmitted, hprod, hoff, hdvd, hrest⟩,
            List.forall_mem_singleton.mpr hw, fun e' he' => he', ?_⟩
          change rest.length + (e.len + 45) + 1 ≤ rest.length + 1 + (e.len + 45)
          omega
  | storePad e prod off =>
      rw [hpc] at hstep h
      obtain ⟨hadmitted, hprod, hoff, hdvd⟩ := h
      obtain rfl := Option.some.inj hstep
      have hnext : 8 ∣ u64 (prod + (c.ring.dataSize - off)) := by
        rw [hsize]
        exact hword _ (Nat.dvd_add hprod hdvd)
      have hle : 0 + e.need ≤ 2 ^ k := by
        have hneed := hadmitted.need.2.2.1
        omega
      obtain ⟨hinside, hemission, hremaining⟩ := inside_checkOrWrite hadmitted hnext hle
        (r := { c.ring with producerPos := u64 (prod + (c.ring.dataSize - off)) })
      refine ⟨hsize, hnext, hinside, hnothing, fun e' he' => hemission.symm.trans he', ?_⟩
      change (checkOrWrite c.ring e _ 0).remaining + 1 ≤ e.len + 44
      exact Nat.succ_le_succ hremaining
  | loadConsumer e prod off =>
      rw [hpc] at hstep h
      obtain ⟨hadmitted, hprod, hoff⟩ := h
      dsimp only at hstep
      split at hstep
      · obtain rfl := Option.some.inj hstep
        refine ⟨hsize, haligned, trivial, hnothing, fun e' he' => he', ?_⟩
        change 2 + 1 ≤ e.len + 43
        omega
      · obtain rfl := Option.some.inj hstep
        refine ⟨hsize, haligned, ⟨hadmitted, hprod, inside_recordStores hadmitted hoff⟩, hnothing,
          fun e' he' => he', ?_⟩
        change (recordStores e off).length + 2 + 1 ≤ e.len + 43
        rw [length_recordStores]
        omega
  | addDrops e =>
      rw [hpc] at hstep
      obtain rfl := Option.some.inj hstep
      exact ⟨hsize, haligned, trivial, hnothing, fun e' he' => he', Nat.le_refl _⟩
  | addDropBytes e =>
      rw [hpc] at hstep
      obtain rfl := Option.some.inj hstep
      exact ⟨hsize, haligned, trivial, hnothing, fun e' he' => (nomatch he'), Nat.le_refl _⟩
  | write e prod off stores =>
      rw [hpc] at hstep h
      obtain ⟨hadmitted, hprod, hstores⟩ := h
      cases stores with
      | nil =>
          obtain rfl := Option.some.inj hstep
          exact ⟨hsize, haligned, ⟨hadmitted, hprod⟩, hnothing, fun e' he' => he', Nat.le_refl _⟩
      | cons w rest =>
          obtain rfl := Option.some.inj hstep
          obtain ⟨hw, hrest⟩ := List.forall_mem_cons.mp hstores
          exact ⟨hsize, haligned, ⟨hadmitted, hprod, hrest⟩, List.forall_mem_singleton.mpr hw,
            fun e' he' => he', Nat.le_refl _⟩
  | publish e prod =>
      rw [hpc] at hstep h
      obtain ⟨hadmitted, hprod⟩ := h
      obtain rfl := Option.some.inj hstep
      exact ⟨hsize, hword _ (Nat.dvd_add hprod hadmitted.need.2.1), trivial, hnothing,
        fun e' he' => (nomatch he'), Nat.le_refl _⟩

variable {s s' : HostileState}

/-- A call starts. -/
theorem Contained.emit (h : Contained (2 ^ k) s) (hrounds : e.Rounds)
    (hstart : startEmit s.core e = some c) : Contained (2 ^ k) { s with core := c, steps := 0 } := by
  unfold startEmit at hstart
  cases hpc : s.core.producer with
  | idle =>
      rw [hpc] at hstart
      dsimp only at hstart
      have hnone : ∀ e', s.core.producer.emission ≠ some e' := fun e' hbad => by
        rw [hpc] at hbad
        exact nomatch hbad
      split at hstart
      · obtain rfl := Option.some.inj hstart
        exact ⟨h.size, h.aligned, h.producer, h.written, fun e' he' => (hnone e' he').elim⟩
      · rename_i hroom
        obtain rfl := Option.some.inj hstart
        have hle : e.need ≤ 2 ^ k := by
          rw [h.size] at hroom
          exact Nat.le_of_not_lt hroom
        refine ⟨h.size, h.aligned, ⟨hrounds, hle⟩, h.written, fun e' he' => ?_⟩
        injection he' with he'
        rw [← he']
        exact Nat.le_of_eq (Nat.zero_add _)
  | loadProducer _ => rw [hpc] at hstart; exact nomatch hstart
  | pad _ _ _ _ => rw [hpc] at hstart; exact nomatch hstart
  | storePad _ _ _ => rw [hpc] at hstart; exact nomatch hstart
  | loadConsumer _ _ _ => rw [hpc] at hstart; exact nomatch hstart
  | addDrops _ => rw [hpc] at hstart; exact nomatch hstart
  | addDropBytes _ => rw [hpc] at hstart; exact nomatch hstart
  | write _ _ _ _ => rw [hpc] at hstart; exact nomatch hstart
  | publish _ _ => rw [hpc] at hstart; exact nomatch hstart

/-- The producer moves. -/
theorem Contained.producerStep (hk : k < 32) (h : Contained (2 ^ k) s)
    (hstep : producerStep s.core = some c) : Contained (2 ^ k) {
      core := c
      steps := s.steps + 1
      written := s.core.producer.store.toList ++ s.written } := by
  obtain ⟨hsize, haligned, hinside, hstore, hemission, hremaining⟩ :=
    producerStep_inside hk h.size h.aligned h.producer hstep
  refine ⟨hsize, haligned, hinside, fun w hw => ?_, fun e he => ?_⟩
  · rcases List.mem_append.mp hw with hw | hw
    · exact hstore w hw
    · exact h.written w hw
  · have hbudget := h.budget e (hemission e he)
    change s.steps + 1 + c.producer.remaining ≤ e.len + 54
    omega

/-- Every step of either process. -/
theorem Contained.next (hk : k < 32) {a : HostileAct} (h : Contained (2 ^ k) s)
    (hnext : hostileNext s a = some s') : Contained (2 ^ k) s' := by
  cases a with
  | emit e =>
      simp only [hostileNext] at hnext
      split at hnext
      · rename_i hrounds
        obtain ⟨c, hstart, rfl⟩ := Option.map_eq_some_iff.mp hnext
        exact h.emit hrounds hstart
      · exact nomatch hnext
  | producer =>
      obtain ⟨c, hstep, rfl⟩ := Option.map_eq_some_iff.mp hnext
      exact h.producerStep hk hstep
  | scribble data producerPos consumerPos drops dropBytes =>
      simp only [hostileNext] at hnext
      split at hnext
      · rename_i haligned
        obtain rfl := Option.some.inj hnext
        exact ⟨h.size, haligned, h.producer, h.written, h.budget⟩
      · exact nomatch hnext

theorem contained_of_reachable (hk : k < 32) :
    ∀ s, (hostileMachine (2 ^ k)).Reachable s → Contained (2 ^ k) s := by
  apply Machine.Reachable.invariant
  · rintro s ⟨hsize, haligned, hidle, -, hwritten⟩
    refine ⟨hsize, haligned, ?_, ?_, fun e he => ?_⟩
    · rw [hidle]
      exact trivial
    · rw [hwritten]
      exact fun w hw => nomatch hw
    · rw [hidle] at he
      exact nomatch he
  · intro s a t _ h hnext
    exact h.next hk hnext

/-- A call that has not returned can go on. -/
theorem producerStep_isSome (h : c.producer.emission = some e) : (Ring.producerStep c).isSome = true := by
  unfold Ring.producerStep
  cases hpc : c.producer with
  | idle => rw [hpc] at h; exact nomatch h
  | loadProducer _ => rfl
  | pad _ _ _ stores => cases stores <;> rfl
  | storePad _ _ _ => rfl
  | loadConsumer _ _ _ =>
      dsimp only
      split <;> rfl
  | addDrops _ => rfl
  | addDropBytes _ => rfl
  | write _ _ _ stores => cases stores <;> rfl
  | publish _ _ => rfl

end Steps

/-- Whatever the other process writes, the producer stores inside the data area only, and a call
returns after so many of its own steps. -/
theorem producer_contained (k : Nat) (hk : k < 32) (s : HostileState)
    (hs : (hostileMachine (2 ^ k)).Reachable s) :
    (∀ w ∈ s.written, w.1 + w.2.length ≤ 2 ^ k) ∧
    ∀ e, s.core.producer.emission = some e →
      (producerStep s.core).isSome = true ∧ s.steps + s.core.producer.remaining ≤ e.len + 54 := by
  have h := contained_of_reachable hk s hs
  exact ⟨h.written, fun e he => ⟨producerStep_isSome he, h.budget e he⟩⟩

/-! ## A run -/

/-- An empty stream of 128 bytes. -/
def hostileStart : HostileState where
  core := { ring := lsRingInit 128 .stream fun _ => 0, producer := .idle, accepted := [] }
  steps := 0
  written := []

/-- After the first record the reader moves the producer's position to the end of all positions,
so that the second one needs a pad and the position wraps. -/
def hostileRun : List HostileAct :=
  [.emit (sampleRecord 0 0)] ++ List.replicate 42 .producer ++
    [.scribble (fun _ => 255) 0xfffffffffffffff8 0 0 0, .emit (sampleRecord 1 0)] ++
    List.replicate 14 .producer

/-- The state after {lit}`hostileRun`. -/
def scribbled : HostileState := ((hostileMachine 128).run hostileStart hostileRun).getD hostileStart

theorem producer_contained_hostileRun :
    scribbled.written.length = 48 ∧ ∀ w ∈ scribbled.written, w.1 + w.2.length ≤ 2 ^ 7 :=
  ⟨by decide +kernel, (producer_contained 7 (by decide) scribbled
    (Machine.reachable_run_getD (.start ⟨rfl, by decide, rfl, rfl, rfl⟩) (by decide +kernel))).1⟩

end Ring
end LiveSurface
