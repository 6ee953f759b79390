import LiveSurface.Ring.Layout

/-!
# What the producer keeps

The producer writes pads and records in front of the consumer.  Its one gap is
the pad: the header of the pad is stored before the room is checked.  As long as
a pad header is not stored over an unconsumed record, every step of the producer
keeps the tiling from the consumer's position to its own.

Main results:

- Theorem {lit}`Laid.producerStep`: one step of the producer extends the tiling by
  the record or the pad it commits, and changes no earlier tile.
- Theorem {lit}`Laid.advance`: the consumer may move over the first tile.
-/

namespace LiveSurface
namespace Ring

/-! ## The stores of an emission -/

theorem padStores_eq {off pad : Nat} (hpad : 8 ≤ pad) :
    padStores off pad = Memory.byteStores off (padBytes pad) := by
  rw [padStores, if_pos (show pad ≥ lsRingHdrSz from hpad), padBytes, Memory.byteStores_append, length_littleEndian]

/-- The stores of a record leave its bytes behind. -/
theorem load_recordStores (data : Memory) (e : Emission) (off : Nat) :
    (data.storeAll (recordStores e off)).load off (40 + e.len) = recordBytes e := by
  simp only [recordStores, Memory.storeAll_append, Memory.storeAll_byteStores,
    lsRingHdrSz, lsRecSize, Emission.len]
  simp only [Memory.storeAll]
  rw [show 40 + e.payload.length = 4 + (4 + (32 + e.payload.length)) by omega]
  rw [Memory.load_add, Memory.load_add, Memory.load_add]
  simp only [recordBytes, List.append_assoc]
  congr 1
  · have hself := Memory.load_store_self
      (((((data.store off (littleEndian 4 (e.body ||| lsRingBusy))).store (off + 4)
        (littleEndian 4 0)).store (off + 8) e.header.bytes).store (off + 8 + 32) e.payload))
      off (littleEndian 4 e.body)
    rwa [length_littleEndian] at hself
  · congr 1
    · rw [Memory.load_store_of_disjoint (.inr (by simp)),
        Memory.load_store_of_disjoint (.inl (by omega)),
        Memory.load_store_of_disjoint (.inl (by omega))]
      have hself := Memory.load_store_self
        (data.store off (littleEndian 4 (e.body ||| lsRingBusy))) (off + 4)
        (littleEndian 4 0)
      rwa [length_littleEndian] at hself
    · congr 1
      · rw [Memory.load_store_of_disjoint (.inr (by simp)),
          Memory.load_store_of_disjoint (.inl (by omega))]
        have hself := Memory.load_store_self
          ((data.store off (littleEndian 4 (e.body ||| lsRingBusy))).store (off + 4)
            (littleEndian 4 0)) (off + 8) e.header.bytes
        rwa [LsRec.length_bytes] at hself
      · rw [Memory.load_store_of_disjoint (.inr (by simp))]
        exact Memory.load_store_self _ _ _

/-- The stores of a record stay inside it. -/
theorem recordStores_range {e : Emission} {off : Nat} {w : Nat × List UInt8}
    (hw : w ∈ recordStores e off) :
    off ≤ w.1 ∧ w.1 + w.2.length ≤ off + (40 + e.len) := by
  simp only [recordStores, List.mem_append, List.mem_singleton, lsRingHdrSz, lsRecSize] at hw
  rcases hw with (((rfl | hw) | hw) | hw) | rfl
  · simp
    omega
  · rcases Memory.mem_byteStores hw with ⟨i, hi, rfl⟩
    simp only [length_littleEndian] at hi
    simp only [List.length_singleton]
    omega
  · rcases Memory.mem_byteStores hw with ⟨i, hi, rfl⟩
    simp only [LsRec.length_bytes] at hi
    simp only [List.length_singleton]
    omega
  · rcases Memory.mem_byteStores hw with ⟨i, hi, rfl⟩
    simp only [List.length_singleton, Emission.len]
    omega
  · simp
    omega

/-! ## The invariant -/

/-- What the producer knows at each of its program points, with the consumer at
{lit}`C` and itself at {lit}`P`. -/
def ProducerOk (ds : Nat) (data : Memory) (C P : Nat) : ProducerPc → Prop
  | .idle => True
  | .loadProducer e => Fits ds e
  | .pad e prod off stores => Fits ds e ∧ prod = P % 2 ^ 64 ∧ off = P % ds ∧
      ds < off + e.need ∧ P ≤ C + ds ∧
      (∀ w ∈ stores, ∃ i, ∃ hi : i < (padBytes (ds - off)).length,
        w = (off + i, [(padBytes (ds - off))[i]])) ∧
      (data.storeAll stores).load off 8 = padBytes (ds - off)
  | .storePad e prod off => Fits ds e ∧ prod = P % 2 ^ 64 ∧ off = P % ds ∧
      ds < off + e.need ∧ P ≤ C + ds ∧ ds - off - 8 < 2 ^ 30 ∧
      data.load off 8 = padBytes (ds - off)
  | .loadConsumer e prod off => Fits ds e ∧ prod = P % 2 ^ 64 ∧ off = P % ds ∧
      off + e.need ≤ ds
  | .addDrops _ => True
  | .addDropBytes _ => True
  | .write e prod off stores => Fits ds e ∧ prod = P % 2 ^ 64 ∧ off = P % ds ∧
      off + e.need ≤ ds ∧ P + e.need ≤ C + ds ∧
      (∀ w ∈ stores, off ≤ w.1 ∧ w.1 + w.2.length ≤ off + e.need) ∧
      (data.storeAll stores).load off (40 + e.len) = recordBytes e
  | .publish e prod => Fits ds e ∧ prod = P % 2 ^ 64 ∧ P % ds + e.need ≤ ds ∧
      P + e.need ≤ C + ds ∧ e.body < 2 ^ 30 ∧
      data.load (P % ds) (40 + e.len) = recordBytes e

/-- The ring between the consumer's position {lit}`C` and the producer's position
{lit}`P` is tiled.  After a pad that found no room the producer may be more than
one data size ahead, but then it stands at the start of the area. -/
structure Laid (ds : Nat) (c : Core) (C P : Nat) (tiles : List Tile) : Prop where
  stream : c.ring.policy = .stream
  dataSize : c.ring.dataSize = ds
  prod : c.ring.producerPos = P % 2 ^ 64
  cons : c.ring.consumerPos = C % 2 ^ 64
  aligned : 8 ∣ C
  tiled : Tiled ds c.ring.data C tiles P
  room : P ≤ C + ds ∨ ds ∣ P
  near : P < C + 2 * ds
  producer : ProducerOk ds c.ring.data C P c.producer

/-- The condition under which the producer's next step is safe: a pad header is
not stored over an unconsumed record, and no length reaches the flag bits. -/
def EmitOk (r : LsRing) : ProducerPc → Prop
  | .pad _ _ off _ =>
      (sub64 r.producerPos r.consumerPos ≠ r.dataSize ∨
        headerAt r.data off &&& lsRingDiscard ≠ 0) ∧
      r.dataSize - off - 8 < 2 ^ 30
  | .write e _ _ _ => e.body < 2 ^ 30
  | _ => True

instance (r : LsRing) : (pc : ProducerPc) → Decidable (EmitOk r pc)
  | .pad _ _ _ _ => inferInstanceAs (Decidable (_ ∧ _))
  | .write _ _ _ _ => inferInstanceAs (Decidable (_ < _))
  | .idle => isTrue trivial
  | .loadProducer _ => isTrue trivial
  | .storePad _ _ _ => isTrue trivial
  | .loadConsumer _ _ _ => isTrue trivial
  | .addDrops _ => isTrue trivial
  | .addDropBytes _ => isTrue trivial
  | .publish _ _ => isTrue trivial

/-- The ring after initialisation. -/
theorem laid_init {ds : Nat} (hds : RingSize ds) (data : Memory) (accepted : List Emission) :
    Laid ds { ring := lsRingInit ds .stream data, producer := .idle, accepted := accepted }
      0 0 [] := by
  have hbound := hds.bounds
  refine ⟨rfl, rfl, rfl, rfl, by simp, rfl, .inl (by omega), by omega, trivial⟩

/-! ## Steps of the producer -/

section Steps

variable {ds C P : Nat} {c c' : Core} {tiles : List Tile} {e : Emission} {prod off : Nat}
  {w : Nat × List UInt8} {stores : List (Nat × List UInt8)}

/-- The tile in front of the consumer, when the ring is exactly full and the word
there is a discard header, is the pad of the current wrap. -/
theorem Laid.front_pad (h : Laid ds c C P tiles) (hfull : P = C + ds) (hds : 0 < ds)
    (hdiscard : headerAt c.ring.data (P % ds) &&& lsRingDiscard ≠ 0) :
    c.ring.data.load (P % ds) 8 = padBytes (ds - P % ds) := by
  have htiled := h.tiled
  have hsame : P % ds = C % ds := by
    rw [hfull, Nat.add_mod_right]
  rw [hsame] at hdiscard ⊢
  cases tiles with
  | nil =>
      have heq : C = P := htiled
      omega
  | cons t rest =>
      cases t with
      | record e =>
          have hbody := htiled.1.2.2.2.1
          exfalso
          apply hdiscard
          rw [htiled.1.header_record]
          exact (flags_of_length hbody).2.1
      | pad n =>
          rcases htiled.1 with ⟨hfit, _, _, _, hload⟩
          rw [hload]
          congr 1
          omega

/-- A store of the pad header: past the last tile, or over the same pad. -/
theorem Laid.padStore (h : Laid ds c C P tiles) (hds : RingSize ds)
    (hpc : c.producer = .pad e prod off (w :: stores)) (hok : EmitOk c.ring c.producer) :
    Laid ds
      { c with
        ring := { c.ring with data := c.ring.data.store w.1 w.2 }
        producer := .pad e prod off stores } C P tiles := by
  have hproducer := h.producer
  rw [hpc] at hproducer hok
  rcases hproducer with ⟨hfits, hprod, hoff, hover, hle, hstores, hload⟩
  rcases hok with ⟨hsafe, _⟩
  rcases hstores w List.mem_cons_self with ⟨i, hi, rfl⟩
  have hbound := hds.bounds
  have hmod : P % ds < ds := Nat.mod_lt _ (by omega)
  have hCP := h.tiled.le
  have hlen := length_padBytes (ds - off)
  have hPdvd := h.tiled.dvd h.aligned
  have hoffdvd := hds.dvd_offset hPdvd
  have hdsdvd := hds.dvd_eight
  have hrest : ProducerOk ds (c.ring.data.store (off + i) [(padBytes (ds - off))[i]]) C P
      (.pad e prod off stores) :=
    ⟨hfits, hprod, hoff, hover, hle, fun x hx => hstores x (List.mem_cons_of_mem _ hx), hload⟩
  by_cases hfull : P = C + ds
  · -- the header word is a pad already, and the store repeats one of its bytes
    have hdiscard : headerAt c.ring.data off &&& lsRingDiscard ≠ 0 := by
      rcases hsafe with hne | hdiscard
      · exfalso
        apply hne
        rw [h.prod, h.cons, sub64_eq hCP (by omega), h.dataSize]
        omega
      · exact hdiscard
    rw [hoff] at hdiscard
    have hfront := h.front_pad hfull (by omega) hdiscard
    have hsame : c.ring.data.store (off + i) [(padBytes (ds - off))[i]] = c.ring.data := by
      apply Memory.store_eq_self
      have hbyte : c.ring.data (off + i) = (padBytes (ds - off))[i] := by
        have hget := congrArg (fun bs => bs[i]?) hfront
        simp only [← hoff] at hget
        rw [List.getElem?_eq_getElem hi] at hget
        have hi8 : i < 8 := by omega
        simpa [Memory.load, hi8] using hget
      simp [Memory.load, hbyte]
    rw [hsame] at hrest ⊢
    exact ⟨h.stream, h.dataSize, h.prod, h.cons, h.aligned, h.tiled, h.room, h.near, hrest⟩
  · refine ⟨h.stream, h.dataSize, h.prod, h.cons, h.aligned, ?_, h.room, h.near, hrest⟩
    apply h.tiled.store (m := 8)
    · have hCdvd := h.aligned
      omega
    · omega
    · omega
    · omega
    · simp only [List.length_singleton]
      omega

/-- Changing only the producer's program point. -/
theorem Laid.setProducer (h : Laid ds c C P tiles) {pc : ProducerPc}
    (hpc : ProducerOk ds c.ring.data C P pc) :
    Laid ds { c with producer := pc } C P tiles :=
  ⟨h.stream, h.dataSize, h.prod, h.cons, h.aligned, h.tiled, h.room, h.near, hpc⟩

theorem Laid.checkOrWrite_eq (h : Laid ds c C P tiles) (e : Emission) (prod off : Nat) :
    checkOrWrite c.ring e prod off = .loadConsumer e prod off := by
  simp only [checkOrWrite, h.stream]

/-- The producer decides whether to pad.  It pads only off the start of the area,
so it is then at most one data size ahead. -/
theorem Laid.afterLoad (h : Laid ds c C P tiles) (hds : RingSize ds) (hfits : Fits ds e) :
    Laid ds { c with producer := afterLoad c.ring e c.ring.producerPos } C P tiles := by
  apply h.setProducer
  have hbound := hds.bounds
  have hmod : P % ds < ds := Nat.mod_lt _ (by omega)
  rcases hfits.bounds hds with ⟨hlen, hdvd, hneed, _⟩
  have hoff : u32 (c.ring.producerPos &&& (ds - 1)) = P % ds := by
    rw [h.prod]
    exact hds.offset P
  have hsum : u32 (P % ds + e.need) = P % ds + e.need := by
    rw [u32]
    exact Nat.mod_eq_of_lt (by omega)
  simp only [Ring.afterLoad, h.dataSize, h.checkOrWrite_eq, hoff, hsum]
  by_cases hover : P % ds + e.need > ds
  · rw [if_pos hover]
    have hoffdvd := hds.dvd_offset (h.tiled.dvd h.aligned)
    have hdsdvd := hds.dvd_eight
    have hpad : 8 ≤ ds - P % ds := by omega
    have hle : P ≤ C + ds := by
      rcases h.room with hroom | hstart
      · exact hroom
      · have hzero := Nat.mod_eq_zero_of_dvd hstart
        omega
    refine ⟨hfits, h.prod, rfl, hover, hle, ?_, ?_⟩
    · intro w hw
      rw [padStores_eq hpad] at hw
      exact Memory.mem_byteStores hw
    · rw [padStores_eq hpad, Memory.storeAll_byteStores]
      have hself := Memory.load_store_self c.ring.data (P % ds) (padBytes (ds - P % ds))
      rwa [length_padBytes] at hself
  · rw [if_neg hover]
    exact ⟨hfits, h.prod, rfl, by omega⟩

/-- The pad header is complete. -/
theorem Laid.padDone (h : Laid ds c C P tiles) (hpc : c.producer = .pad e prod off [])
    (hok : EmitOk c.ring c.producer) :
    Laid ds { c with producer := .storePad e prod off } C P tiles := by
  have hproducer := h.producer
  rw [hpc] at hproducer hok
  rcases hproducer with ⟨hfits, hprod, hoff, hover, hle, _, hload⟩
  have hflag := hok.2
  rw [h.dataSize] at hflag
  exact h.setProducer ⟨hfits, hprod, hoff, hover, hle, hflag, hload⟩

/-- Committing a pad moves the producer to the start of the area. -/
theorem Laid.storePad (h : Laid ds c C P tiles) (hds : RingSize ds)
    (hpc : c.producer = .storePad e prod off) :
    Laid ds
      { c with
        ring := { c.ring with producerPos := u64 (prod + (c.ring.dataSize - off)) }
        producer := checkOrWrite c.ring e (u64 (prod + (c.ring.dataSize - off))) 0 }
      C (P + (ds - P % ds)) (tiles ++ [.pad (ds - P % ds)]) := by
  have hproducer := h.producer
  rw [hpc] at hproducer
  rcases hproducer with ⟨hfits, hprod, hoff, hover, hle, hflag, hload⟩
  have hbound := hds.bounds
  have hmod : P % ds < ds := Nat.mod_lt _ (by omega)
  have hoffdvd := hds.dvd_offset (h.tiled.dvd h.aligned)
  have hdsdvd := hds.dvd_eight
  subst hoff
  have hword : u64 (prod + (c.ring.dataSize - P % ds)) = (P + (ds - P % ds)) % 2 ^ 64 := by
    rw [h.dataSize, hprod, u64, Nat.mod_add_mod]
  have hstart : P + (ds - P % ds) = ds * (P / ds + 1) := by
    have hdiv := Nat.div_add_mod P ds
    rw [Nat.mul_add, Nat.mul_one]
    omega
  have htile : TileAt ds c.ring.data P (.pad (ds - P % ds)) :=
    ⟨by omega, by omega, by omega, hflag, hload⟩
  have hneed := (hfits.bounds hds).2.2.1
  have hnear : P + (ds - P % ds) < C + 2 * ds := by omega
  refine ⟨h.stream, h.dataSize, hword, h.cons, h.aligned, h.tiled.snoc htile, ?_, hnear, ?_⟩
  · right
    exact ⟨P / ds + 1, hstart⟩
  · rw [h.checkOrWrite_eq]
    have hzero : (P + (ds - P % ds)) % ds = 0 := by
      rw [hstart]
      exact Nat.mul_mod_right _ _
    exact ⟨hfits, hword, hzero.symm, by omega⟩

/-- The check for room decides between a drop and a record. -/
theorem Laid.checkRoom (h : Laid ds c C P tiles) (hds : RingSize ds)
    (hpc : c.producer = .loadConsumer e prod off)
    (hroom : ¬u64 (sub64 prod c.ring.consumerPos + e.need) > c.ring.dataSize) :
    Laid ds { c with producer := .write e prod off (recordStores e off) } C P tiles := by
  have hproducer := h.producer
  rw [hpc] at hproducer
  rcases hproducer with ⟨hfits, hprod, hoff, hin⟩
  have hbound := hds.bounds
  have hnear := h.near
  have hCP := h.tiled.le
  rcases hfits.bounds hds with ⟨hlen, _, hneed, _⟩
  rw [hprod, h.cons, sub64_eq hCP (by omega), h.dataSize, u64] at hroom
  apply h.setProducer
  refine ⟨hfits, hprod, hoff, hin, by omega, ?_, load_recordStores _ _ _⟩
  intro w hw
  have hrange := recordStores_range hw
  omega

/-- A store of the record, past the last tile. -/
theorem Laid.writeStore (h : Laid ds c C P tiles) (hds : RingSize ds)
    (hpc : c.producer = .write e prod off (w :: stores)) :
    Laid ds
      { c with
        ring := { c.ring with data := c.ring.data.store w.1 w.2 }
        producer := .write e prod off stores } C P tiles := by
  have hproducer := h.producer
  rw [hpc] at hproducer
  rcases hproducer with ⟨hfits, hprod, hoff, hin, hroom, hstores, hload⟩
  rcases hstores w List.mem_cons_self with ⟨hlow, hhigh⟩
  have hlen := (hfits.bounds hds).1
  refine ⟨h.stream, h.dataSize, h.prod, h.cons, h.aligned, ?_, h.room, h.near, ?_⟩
  · subst hoff
    exact h.tiled.store hroom (by omega) hin hlow hhigh
  · exact ⟨hfits, hprod, hoff, hin, hroom,
      fun x hx => hstores x (List.mem_cons_of_mem _ hx), hload⟩

/-- The record is complete. -/
theorem Laid.writeDone (h : Laid ds c C P tiles) (hpc : c.producer = .write e prod off [])
    (hok : EmitOk c.ring c.producer) :
    Laid ds { c with producer := .publish e prod } C P tiles := by
  have hproducer := h.producer
  rw [hpc] at hproducer hok
  rcases hproducer with ⟨hfits, hprod, hoff, hin, hroom, _, hload⟩
  subst hoff
  exact h.setProducer ⟨hfits, hprod, hin, hroom, hok, hload⟩

/-- Committing a record. -/
theorem Laid.publish (h : Laid ds c C P tiles) (hds : RingSize ds)
    (hpc : c.producer = .publish e prod) (accepted : List Emission) :
    Laid ds
      { ring := { c.ring with producerPos := u64 (prod + e.need) }
        producer := .idle
        accepted := accepted } C (P + e.need) (tiles ++ [.record e]) := by
  have hproducer := h.producer
  rw [hpc] at hproducer
  rcases hproducer with ⟨hfits, hprod, hin, hroom, hbody, hload⟩
  rcases hfits.bounds hds with ⟨hlen, hdvd, hneed, _⟩
  have hword : u64 (prod + e.need) = (P + e.need) % 2 ^ 64 := by
    rw [hprod, u64, Nat.mod_add_mod]
  have htile : TileAt ds c.ring.data P (.record e) := ⟨hin, hlen, hdvd, hbody, hload⟩
  refine ⟨h.stream, h.dataSize, hword, h.cons, h.aligned, h.tiled.snoc htile,
    .inl hroom, ?_, trivial⟩
  have hbound := hds.bounds
  omega

/-- What a step commits, by the program point it starts from. -/
inductive Commit (ds C P : Nat) : ProducerPc → Nat → List Tile → Prop
  | nothing {pc : ProducerPc} : Commit ds C P pc P []
  | pad {e : Emission} {prod : Nat} : Commit ds C P (.storePad e prod (P % ds))
      (P + (ds - P % ds)) [.pad (ds - P % ds)]
  | record {e : Emission} {prod : Nat} (hprod : prod = P % 2 ^ 64)
      (hroom : P + e.need ≤ C + ds) :
      Commit ds C P (.publish e prod) (P + e.need) [.record e]

/-- One step of the producer commits at most one tile and disturbs no earlier one. -/
theorem Laid.producerStep (h : Laid ds c C P tiles) (hds : RingSize ds)
    (hok : EmitOk c.ring c.producer) (hstep : producerStep c = some c') :
    ∃ P' new, Laid ds c' C P' (tiles ++ new) ∧
      c'.accepted = c.accepted ++ records new ∧ Commit ds C P c.producer P' new := by
  -- most steps commit nothing
  have hquiet : ∀ d : Core, Laid ds d C P tiles → d.accepted = c.accepted →
      ∃ P' new, Laid ds d C P' (tiles ++ new) ∧
        d.accepted = c.accepted ++ records new ∧ Commit ds C P c.producer P' new := by
    intro d hd hacc
    exact ⟨P, [], by simpa using hd, by simp [hacc, records], .nothing⟩
  have hproducer := h.producer
  unfold Ring.producerStep at hstep
  dsimp only at hstep
  split at hstep
  · contradiction
  · rename_i e hpc
    rw [hpc] at hproducer
    cases hstep
    exact hquiet _ (h.afterLoad hds hproducer) rfl
  · rename_i e prod off hpc
    cases hstep
    exact hquiet _ (h.padDone hpc hok) rfl
  · rename_i e prod off w rest hpc
    cases hstep
    exact hquiet _ (h.padStore hds hpc hok) rfl
  · rename_i e prod off hpc
    rw [hpc] at hproducer
    have hoff := hproducer.2.2.1
    cases hstep
    refine ⟨_, _, h.storePad hds hpc, by simp [records], ?_⟩
    rw [hpc, hoff]
    exact .pad
  · rename_i e prod off hpc
    split at hstep
    · cases hstep
      exact hquiet _ (h.setProducer trivial) rfl
    · rename_i hroom
      cases hstep
      exact hquiet _ (h.checkRoom hds hpc hroom) rfl
  · cases hstep
    refine hquiet _ ⟨h.stream, h.dataSize, h.prod, h.cons, h.aligned, h.tiled, h.room,
      h.near, trivial⟩ rfl
  · cases hstep
    refine hquiet _ ⟨h.stream, h.dataSize, h.prod, h.cons, h.aligned, h.tiled, h.room,
      h.near, trivial⟩ rfl
  · rename_i e prod off hpc
    cases hstep
    exact hquiet _ (h.writeDone hpc hok) rfl
  · rename_i e prod off w rest hpc
    cases hstep
    exact hquiet _ (h.writeStore hds hpc) rfl
  · rename_i e prod hpc
    rw [hpc] at hproducer
    cases hstep
    refine ⟨_, _, h.publish hds hpc _, by simp [records], ?_⟩
    rw [hpc]
    exact .record hproducer.2.1 hproducer.2.2.2.1

/-- Starting an emission of a fitting record. -/
theorem Laid.startEmit (h : Laid ds c C P tiles) (hfits : Fits ds e)
    (hstep : startEmit c e = some c') :
    Laid ds c' C P tiles ∧ c'.accepted = c.accepted := by
  unfold Ring.startEmit at hstep
  split at hstep
  · split at hstep
    · cases hstep
      exact ⟨h, rfl⟩
    · cases hstep
      exact ⟨h.setProducer hfits, rfl⟩
  · contradiction

/-- What the producer knows survives an advance of the consumer. -/
theorem ProducerOk.mono {data : Memory} {C' : Nat} {pc : ProducerPc}
    (h : ProducerOk ds data C P pc) (hle : C ≤ C') : ProducerOk ds data C' P pc := by
  cases pc with
  | idle => trivial
  | loadProducer e => exact h
  | pad e prod off stores =>
      rcases h with ⟨h1, h2, h3, h4, h5, h6⟩
      exact ⟨h1, h2, h3, h4, by omega, h6⟩
  | storePad e prod off =>
      rcases h with ⟨h1, h2, h3, h4, h5, h6⟩
      exact ⟨h1, h2, h3, h4, by omega, h6⟩
  | loadConsumer e prod off => exact h
  | addDrops e => trivial
  | addDropBytes e => trivial
  | write e prod off stores =>
      rcases h with ⟨h1, h2, h3, h4, h5, h6⟩
      exact ⟨h1, h2, h3, h4, by omega, h6⟩
  | publish e prod =>
      rcases h with ⟨h1, h2, h3, h4, h5⟩
      exact ⟨h1, h2, h3, by omega, h5⟩

/-- The consumer moves over the first tile. -/
theorem Laid.advance {t : Tile} {rest : List Tile} (h : Laid ds c C P (t :: rest)) :
    Laid ds (c.setCursor (u64 (C % 2 ^ 64 + t.size))) (C + t.size) P rest := by
  have hdvd := h.tiled.1.dvd_size
  have haligned := h.aligned
  have hnear := h.near
  refine ⟨h.stream, h.dataSize, h.prod, ?_, Nat.dvd_add haligned hdvd, h.tiled.2, ?_, ?_, ?_⟩
  · simp only [Core.setCursor]
    rw [u64, Nat.mod_add_mod]
  · rcases h.room with hroom | hstart
    · left
      omega
    · exact .inr hstart
  · omega
  · exact h.producer.mono (Nat.le_add_right _ _)

end Steps

end Ring
end LiveSurface
