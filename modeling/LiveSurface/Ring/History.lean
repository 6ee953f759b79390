import LiveSurface.Ring.Reader
import Mathlib.Data.List.Infix

/-!
# What still stands in a ring

The consumer leaves the records that it has taken where they are.  They stand until the producer
comes round again and writes over them.  A ring is followed here together with everything that its
producer has ever laid down, and with the place from which on all of that still stands.

Main results:

- Theorem {lit}`traced_of_reachable`: every run of a ring can be followed in this way.
- Theorem {lit}`Intact.step`: every step of either side keeps what is known to stand.
- Theorem {lit}`intact_of_reachable`: a whole data area stands behind the producer, in every run
  whose emissions end where something older begins.
-/

namespace LiveSurface
namespace Ring

/-! ## A ring with its history -/

/-- A ring and all that its producer has laid down. -/
structure Traced where
  ring : RingState
  laid : List Tile

/-- What a step of the producer commits. -/
def committed (ds : Nat) : ProducerPc → List Tile
  | .storePad _ _ off => [.pad (ds - off)]
  | .publish e _ => [.record e]
  | _ => []

def Traced.grown (ds : Nat) (s : Traced) : RingAct → List Tile
  | .producer => s.laid ++ committed ds s.ring.core.producer
  | _ => s.laid

/-- The runs of a ring, with their history. -/
def tracedMachine (ds : Nat) : Machine Traced RingAct where
  init s := (ringMachine ds).init s.ring ∧ s.laid = []
  next s a := ((ringMachine ds).next s.ring a).map fun r => { ring := r, laid := s.grown ds a }

/-- The ring of a run with its history is a ring of a run. -/
theorem ring_of_traced {ds : Nat} : ∀ s, (tracedMachine ds).Reachable s →
    (ringMachine ds).Reachable s.ring := by
  refine Machine.Reachable.simulates Traced.ring (fun s hs => hs.1) ?_
  intro s a t _ _ hnext
  obtain ⟨r, hr, rfl⟩ := Option.map_eq_some_iff.mp hnext
  exact Or.inr ⟨a, hr⟩

/-- Every run of a ring has a history. -/
theorem traced_of_reachable {ds : Nat} : ∀ r, (ringMachine ds).Reachable r →
    ∃ laid, (tracedMachine ds).Reachable ⟨r, laid⟩ := by
  apply Machine.Reachable.invariant
  · intro r hr
    exact ⟨[], .start ⟨hr, rfl⟩⟩
  · rintro r a t _ ⟨laid, hlaid⟩ hnext
    refine ⟨Traced.grown ds ⟨r, laid⟩ a, hlaid.next (a := a) ?_⟩
    exact Option.map_eq_some_iff.mpr ⟨t, hnext, rfl⟩

/-! ## Where tiles begin -/

/-- The room that tiles take. -/
def span (tiles : List Tile) : Nat := (tiles.map Tile.size).sum

/-- A position where a tile begins, or where the last one ends. -/
def Boundary (tiles : List Tile) (X : Nat) : Prop := X ∈ tiles.inits.map span

instance (tiles : List Tile) (X : Nat) : Decidable (Boundary tiles X) :=
  inferInstanceAs (Decidable (_ ∈ _))

section Span

variable {ds A L P X : Nat} {data : Memory} {tiles a b c d : List Tile}

theorem span_cons (t : Tile) (rest : List Tile) : span (t :: rest) = t.size + span rest := by
  rw [span, List.map_cons, List.sum_cons]
  rfl

theorem span_append (a b : List Tile) : span (a ++ b) = span a + span b := by
  rw [span, List.map_append, List.sum_append]
  rfl

theorem boundary_iff : Boundary tiles X ↔ ∃ a b, tiles = a ++ b ∧ span a = X := by
  rw [Boundary, List.mem_map]
  constructor
  · rintro ⟨a, ha, rfl⟩
    obtain ⟨b, rfl⟩ := (List.mem_inits _ _).mp ha
    exact ⟨a, b, rfl, rfl⟩
  · rintro ⟨a, b, rfl, rfl⟩
    exact ⟨a, (List.mem_inits _ _).mpr (List.prefix_append a b), rfl⟩

theorem Tiled.span_eq (h : Tiled ds data A tiles P) : A + span tiles = P := by
  induction tiles generalizing A with
  | nil => exact h
  | cons t rest ih =>
      have hrest := ih h.2
      rw [span_cons]
      omega

theorem Tiled.of_append (h : Tiled ds data A (a ++ b) P) : Tiled ds data (A + span a) b P := by
  induction a generalizing A with
  | nil => exact h
  | cons t rest ih =>
      have hrest := ih h.2
      rw [Nat.add_assoc, ← span_cons] at hrest
      exact hrest

theorem Tiled.front (h : Tiled ds data A (a ++ b) P) : Tiled ds data A a (A + span a) := by
  induction a generalizing A with
  | nil => rfl
  | cons t rest ih =>
      have hrest := ih h.2
      rw [Nat.add_assoc, ← span_cons] at hrest
      exact ⟨h.1, hrest⟩

/-- Of two beginnings the shorter one is the beginning of the other. -/
theorem exists_of_span_le (hpos : ∀ t ∈ a ++ b, 0 < t.size) (h : a ++ b = c ++ d)
    (hle : span a ≤ span c) : ∃ m, c = a ++ m ∧ b = m ++ d := by
  rcases List.append_eq_append_iff.mp h with ⟨m, hc, hb⟩ | ⟨m, ha, hd⟩
  · exact ⟨m, hc, hb⟩
  · have hnil : m = [] := by
      cases m with
      | nil => rfl
      | cons t rest =>
          have ht := hpos t (by rw [ha]; simp)
          rw [ha, span_append, span_cons] at hle
          omega
    subst hnil
    exact ⟨[], by rw [ha, List.append_nil, List.append_nil], by rw [hd]; rfl⟩

theorem TileAt.size_pos {t : Tile} (h : TileAt ds data X t) : 0 < t.size ∧ X % ds + t.size ≤ ds := by
  cases t with
  | record e =>
      rcases h with ⟨hfit, hlen, _⟩
      exact ⟨by rw [Tile.size]; omega, hfit⟩
  | pad n =>
      rcases h with ⟨hfit, hlen, _⟩
      exact ⟨by rw [Tile.size]; omega, by rw [Tile.size]; omega⟩

/-- No tile straddles the end of the area. -/
theorem Tiled.split_lap (h : Tiled ds data A tiles P) (hL : ds ∣ L) (hAL : A ≤ L) (hLP : L ≤ P) :
    ∃ a b, tiles = a ++ b ∧ A + span a = L := by
  induction tiles generalizing A with
  | nil =>
      have heq : A = P := h
      exact ⟨[], [], rfl, by rw [span]; simp; omega⟩
  | cons t rest ih =>
      by_cases heq : A = L
      · exact ⟨[], t :: rest, rfl, by rw [span]; simpa using heq⟩
      · obtain ⟨hpos, hfit⟩ := h.1.size_pos
        have hnext : A + t.size ≤ L := by
          obtain ⟨k, rfl⟩ := hL
          have hdiv := Nat.div_add_mod A ds
          have hlt : A / ds < k := by
            rcases Nat.lt_or_ge (A / ds) k with hlt | hge
            · exact hlt
            · have := Nat.mul_le_mul_left ds hge
              omega
          have hmul := Nat.mul_le_mul_left ds (Nat.succ_le_of_lt hlt)
          rw [Nat.mul_succ] at hmul
          omega
        obtain ⟨a, b, rfl, ha⟩ := ih h.2 hnext
        refine ⟨t :: a, b, rfl, ?_⟩
        rw [span_cons]
        omega

end Span

/-! ## What stands -/

/-- From a position on, what was laid down still stands, and all records before it were taken. -/
def Standing (ds : Nat) (data : Memory) (laid : List Tile) (taken P A : Nat) : Prop :=
  ∃ old young, laid = old ++ young ∧ span old = A ∧ Tiled ds data A young P ∧
    (records old).length ≤ taken

namespace Standing

variable {ds taken P A X : Nat} {data : Memory} {laid : List Tile}

theorem mono {taken' : Nat} (h : Standing ds data laid taken P A) (hle : taken ≤ taken') :
    Standing ds data laid taken' P A := by
  obtain ⟨old, young, hlaid, hspan, hyoung, htaken⟩ := h
  exact ⟨old, young, hlaid, hspan, hyoung, Nat.le_trans htaken hle⟩

/-- Forget what stands before a later position. -/
theorem raise (h : Standing ds data laid taken P A) (hpos : ∀ t ∈ laid, 0 < t.size)
    (hX : Boundary laid X) (hle : A ≤ X)
    (htaken : ∀ a ∈ laid.inits, span a ≤ X → (records a).length ≤ taken) :
    Standing ds data laid taken P X := by
  obtain ⟨old, young, hlaid, hspan, hyoung, -⟩ := h
  obtain ⟨a, b, hab, ha⟩ := boundary_iff.mp hX
  obtain ⟨m, ham, hyb⟩ := exists_of_span_le (hlaid ▸ hpos) (hlaid.symm.trans hab)
    (by rw [hspan, ha]; exact hle)
  rw [hyb] at hyoung
  refine ⟨a, b, hab, ha, ?_, ?_⟩
  · have hrest := hyoung.of_append
    rw [ham, span_append, hspan] at ha
    rwa [ha] at hrest
  · exact htaken a ((List.mem_inits _ _).mpr ⟨b, hab.symm⟩) (Nat.le_of_eq ha)

/-- The start of a lap is a boundary. -/
theorem boundary_lap (h : Standing ds data laid taken P A) {L : Nat} (hL : ds ∣ L) (hAL : A ≤ L)
    (hLP : L ≤ P) : Boundary laid L := by
  obtain ⟨old, young, hlaid, hspan, hyoung, -⟩ := h
  obtain ⟨a, b, rfl, ha⟩ := hyoung.split_lap hL hAL hLP
  exact boundary_iff.mpr ⟨old ++ a, b, by rw [hlaid, List.append_assoc],
    by rw [span_append, hspan, ha]⟩

theorem snoc {t : Tile} (h : Standing ds data laid taken P A) (ht : TileAt ds data P t) :
    Standing ds data (laid ++ [t]) taken (P + t.size) A := by
  obtain ⟨old, young, hlaid, hspan, hyoung, htaken⟩ := h
  exact ⟨old, young ++ [t], by rw [hlaid, List.append_assoc], hspan, hyoung.snoc ht, htaken⟩

/-- A store in front of the producer. -/
theorem store {m a : Nat} {bs : List UInt8} (h : Standing ds data laid taken P A)
    (hroom : P + m ≤ A + ds) (hm : 0 < m) (hP : P % ds + m ≤ ds) (hlow : P % ds ≤ a)
    (hhigh : a + bs.length ≤ P % ds + m) :
    Standing ds (data.store a bs) laid taken P A := by
  obtain ⟨old, young, hlaid, hspan, hyoung, htaken⟩ := h
  exact ⟨old, young, hlaid, hspan, hyoung.store hroom hm hP hlow hhigh, htaken⟩

end Standing

/-- The consumer moves its cursor only. -/
theorem consumerStep_frame {s s' : RingState} (h : consumerStep s = some s') :
    s'.core.ring.data = s.core.ring.data ∧ s'.core.producer = s.core.producer ∧
      s'.core.accepted = s.core.accepted := by
  unfold consumerStep at h
  dsimp only at h
  split at h
  · contradiction
  · cases h
    exact ⟨rfl, rfl, rfl⟩
  · split at h <;> cases h <;> exact ⟨rfl, rfl, rfl⟩
  · cases h
    exact ⟨rfl, rfl, rfl⟩
  · cases h
    exact ⟨rfl, rfl, rfl⟩
  · split at h <;> cases h <;> exact ⟨rfl, rfl, rfl⟩
  · cases h
    exact ⟨rfl, rfl, rfl⟩

/-! ## The condition -/

/-- What the producer lays down does not end inside of something older, and a pad takes no room of
a record that was not taken. -/
def LandsOk (ds : Nat) (s : Traced) : ProducerPc → Prop
  | .loadProducer e =>
      s.ring.core.ring.producerPos % ds + e.need > ds →
        ds - s.ring.core.ring.producerPos % ds - 8 < 2 ^ 30 ∧
        s.ring.core.ring.producerPos + (ds - s.ring.core.ring.producerPos % ds) < 2 ^ 64 ∧
        ∀ a ∈ s.laid.inits, span a ≤
          s.ring.core.ring.producerPos - s.ring.core.ring.producerPos % ds →
            (records a).length ≤ s.ring.consumed.length
  | .loadConsumer e prod _ =>
      u64 (sub64 prod s.ring.core.ring.consumerPos + e.need) ≤ ds →
        prod + e.need < 2 ^ 64 ∧ (prod + e.need ≤ ds ∨ Boundary s.laid (prod + e.need - ds))
  | _ => True

instance (ds : Nat) (s : Traced) : (pc : ProducerPc) → Decidable (LandsOk ds s pc)
  | .loadProducer _ => inferInstanceAs (Decidable (_ → _ ∧ _ ∧ _))
  | .loadConsumer _ _ _ => inferInstanceAs (Decidable (_ → _ ∧ _))
  | .idle => isTrue trivial
  | .pad _ _ _ _ => isTrue trivial
  | .storePad _ _ _ => isTrue trivial
  | .addDrops _ => isTrue trivial
  | .addDropBytes _ => isTrue trivial
  | .write _ _ _ _ => isTrue trivial
  | .publish _ _ => isTrue trivial

/-- The header describes the payload, and the length does not reach the flags. -/
def LengthOk (e : Emission) : Prop := e.header.len.toNat = e.len ∧ e.body < 2 ^ 30

instance (e : Emission) : Decidable (LengthOk e) := inferInstanceAs (Decidable (_ ∧ _))

/-- The condition on a step of the whole system. -/
def HistoryOk (ds : Nat) (s : Traced) : RingAct → Prop
  | .emit e => LengthOk e
  | .producer => LandsOk ds s s.ring.core.producer
  | _ => True

instance (ds : Nat) (s : Traced) : (a : RingAct) → Decidable (HistoryOk ds s a)
  | .emit _ => inferInstanceAs (Decidable (_ ∧ _))
  | .producer => inferInstanceAs (Decidable (LandsOk _ _ _))
  | .consume _ => isTrue trivial
  | .consumer => isTrue trivial

/-- The producer has moved and committed some tiles. -/
def Traced.moved (s : Traced) (c : Core) (new : List Tile) : Traced where
  ring := { s.ring with core := c }
  laid := s.laid ++ new

/-! ## The invariant -/

/-- From where on everything stands: a data area behind the producer, or behind the end of what it
is about to lay down. -/
def Floor (ds P A : Nat) : ProducerPc → Prop
  | .pad _ _ off _ => A + off = P ∧ ds - off - 8 < 2 ^ 30 ∧ P + (ds - off) < 2 ^ 64
  | .storePad _ _ off => A + off = P ∧ ds - off - 8 < 2 ^ 30 ∧ P + (ds - off) < 2 ^ 64
  | .write e _ _ _ => P + e.need < 2 ^ 64 ∧ (A + ds = P + e.need ∨ A = 0 ∧ P + e.need ≤ ds)
  | .publish e _ => P + e.need < 2 ^ 64 ∧ (A + ds = P + e.need ∨ A = 0 ∧ P + e.need ≤ ds)
  | _ => A + ds = P ∨ A = 0 ∧ P ≤ ds

/-- The history of a ring whose steps meet the condition. -/
structure Intact (ds : Nat) (s : Traced) (C P A : Nat) (gone tiles : List Tile) : Prop where
  fifo : Fifo ds s.ring C P tiles
  taken : s.laid = gone ++ tiles
  spanGone : span gone = C
  consumed : records gone = s.ring.consumed
  standing : Standing ds s.ring.core.ring.data s.laid s.ring.consumed.length P A
  exact : P < 2 ^ 64
  positive : ∀ t ∈ s.laid, 0 < t.size
  described : ∀ e ∈ records s.laid, LengthOk e
  current : ∀ e, s.ring.core.producer.emission = some e → LengthOk e
  floor : Floor ds P A s.ring.core.producer

namespace Intact

variable {ds C P A : Nat} {s : Traced} {gone tiles : List Tile} {e : Emission}

/-- A step of the producer that commits nothing. -/
theorem quiet {d : Core} {A' : Nat} (h : Intact ds s C P A gone tiles)
    (hlaid : Laid ds d C P tiles) (hacc : d.accepted = s.ring.core.accepted)
    (hstanding : Standing ds d.ring.data s.laid s.ring.consumed.length P A')
    (hcurrent : ∀ e, d.producer.emission = some e → s.ring.core.producer.emission = some e)
    (hfloor : Floor ds P A' d.producer) :
    Intact ds (s.moved d []) C P A' gone tiles where
  fifo := ⟨hlaid, hacc.trans h.fifo.queue, h.fifo.consumer⟩
  taken := by rw [Traced.moved, List.append_nil]; exact h.taken
  spanGone := h.spanGone
  consumed := h.consumed
  standing := by rw [Traced.moved, List.append_nil]; exact hstanding
  exact := h.exact
  positive := by rw [Traced.moved, List.append_nil]; exact h.positive
  described := by rw [Traced.moved, List.append_nil]; exact h.described
  current := fun e he => h.current e (hcurrent e he)
  floor := hfloor

/-- A step of the producer that commits a tile. -/
theorem commit {d : Core} {t : Tile} (h : Intact ds s C P A gone tiles)
    (hlaid : Laid ds d C (P + t.size) (tiles ++ [t]))
    (hacc : d.accepted = s.ring.core.accepted ++ records [t])
    (htile : TileAt ds s.ring.core.ring.data P t) (hdata : d.ring.data = s.ring.core.ring.data)
    (hnew : ∀ e ∈ records [t], LengthOk e)
    (hcurrent : ∀ e, d.producer.emission = some e → s.ring.core.producer.emission = some e)
    (hexact : P + t.size < 2 ^ 64) (hfloor : Floor ds (P + t.size) A d.producer) :
    Intact ds (s.moved d [t]) C (P + t.size) A gone (tiles ++ [t]) where
  fifo := by
    refine ⟨hlaid, ?_, h.fifo.consumer.append⟩
    change d.accepted = s.ring.consumed ++ records (tiles ++ [t])
    rw [records_append, ← List.append_assoc, ← h.fifo.queue]
    exact hacc
  taken := by rw [Traced.moved, h.taken, List.append_assoc]
  spanGone := h.spanGone
  consumed := h.consumed
  standing := by
    change Standing ds d.ring.data _ _ _ _
    rw [hdata]
    exact h.standing.snoc htile
  exact := hexact
  positive := by
    intro u hu
    rcases List.mem_append.mp hu with hu | hu
    · exact h.positive u hu
    · rw [List.mem_singleton.mp hu]
      exact htile.size_pos.1
  described := by
    intro e he
    rw [Traced.moved, records_append, List.mem_append] at he
    exact he.elim (h.described e) (hnew e)
  current := fun e he => h.current e (hcurrent e he)
  floor := hfloor

/-- The pad header is not stored over a record that was not taken. -/
theorem emitOk (h : Intact ds s C P A gone tiles) (hds : RingSize ds) :
    EmitOk s.ring.core.ring s.ring.core.producer := by
  have hproducer := h.fifo.laid.producer
  have hfloor := h.floor
  have hcurrent := h.current
  cases hpc : s.ring.core.producer with
  | pad e prod off stores =>
      rw [hpc] at hproducer hfloor
      obtain ⟨hfits, hprod, hoff, hover, hle, -⟩ := hproducer
      obtain ⟨hlap, hflag, hword⟩ := hfloor
      have hbound := hds.bounds
      have hmod : P % ds < ds := Nat.mod_lt _ (by omega)
      have hneed := (hfits.bounds hds).2.2.1
      have hCP := h.fifo.laid.tiled.le
      have hexact := h.exact
      refine ⟨?_, by rw [h.fifo.laid.dataSize]; exact hflag⟩
      rw [h.fifo.laid.prod, h.fifo.laid.cons, sub64_eq hCP (by omega), h.fifo.laid.dataSize]
      by_cases hfull : P = C + ds
      · have htiled := h.fifo.laid.tiled
        have hsame : C % ds = off := by
          rw [hoff, hfull, Nat.add_mod_right]
        cases htiles : tiles with
        | nil =>
            rw [htiles] at htiled
            have heq : C = P := htiled
            omega
        | cons t rest =>
            rw [htiles] at htiled
            cases t with
            | record e' =>
                -- the record would have been taken
                exfalso
                obtain ⟨old, young, hlaid, hspan, -, htaken⟩ := h.standing
                have hfit := htiled.1.1
                rw [hsame] at hfit
                have hfront : (gone ++ [Tile.record e']) ++ rest = old ++ young := by
                  rw [← hlaid, h.taken, htiles, List.append_assoc]
                  rfl
                have hle : span (gone ++ [Tile.record e']) ≤ span old := by
                  rw [span_append, h.spanGone, hspan, span_cons]
                  change C + (e'.need + 0) ≤ A
                  omega
                obtain ⟨m, hold, -⟩ := exists_of_span_le
                  (by rw [hfront, ← hlaid]; exact h.positive) hfront hle
                rw [hold, records_append, records_append, h.consumed, List.length_append,
                  List.length_append] at htaken
                change s.ring.consumed.length + 1 + _ ≤ _ at htaken
                omega
            | pad n =>
                right
                have hheader := htiled.1.header_pad
                rw [hsame] at hheader
                rw [hheader]
                exact (flags_of_discard htiled.1.2.2.2.1).2.2.1
      · left
        omega
  | write e prod off stores => exact (hcurrent e (by rw [hpc]; rfl)).2
  | idle => trivial
  | loadProducer e => trivial
  | storePad e prod off => trivial
  | loadConsumer e prod off => trivial
  | addDrops e => trivial
  | addDropBytes e => trivial
  | publish e prod => trivial

/-- The producer decides whether to pad. -/
theorem afterLoad (h : Intact ds s C P A gone tiles) (hds : RingSize ds)
    (hok : LandsOk ds s s.ring.core.producer) (hpc : s.ring.core.producer = .loadProducer e) :
    ∃ A', Intact ds (s.moved { s.ring.core with
        producer := Ring.afterLoad s.ring.core.ring e s.ring.core.ring.producerPos } [])
      C P A' gone tiles := by
  have hproducer := h.fifo.laid.producer
  have hfloor := h.floor
  rw [hpc] at hproducer hfloor hok
  have hfits : Fits ds e := hproducer
  have hbound := hds.bounds
  have hmod : P % ds < ds := Nat.mod_lt _ (by omega)
  have hexact := h.exact
  have hword : s.ring.core.ring.producerPos = P := by
    rw [h.fifo.laid.prod, Nat.mod_eq_of_lt hexact]
  have hoff : u32 (s.ring.core.ring.producerPos &&& (ds - 1)) = P % ds := by
    rw [h.fifo.laid.prod]
    exact hds.offset P
  have hneed := (hfits.bounds hds).2.2.1
  have hsum : u32 (P % ds + e.need) = P % ds + e.need := by
    rw [u32]
    exact Nat.mod_eq_of_lt (by omega)
  have hlaid := h.fifo.laid.afterLoad hds hfits
  by_cases hover : P % ds + e.need > ds
  · have hpad : Ring.afterLoad s.ring.core.ring e s.ring.core.ring.producerPos =
        .pad e s.ring.core.ring.producerPos (P % ds) (padStores (P % ds) (ds - P % ds)) := by
      simp only [Ring.afterLoad, h.fifo.laid.dataSize, hoff, hsum]
      exact if_pos hover
    rw [hpad] at hlaid ⊢
    have hlands := hok (by rw [hword]; exact hover)
    rw [hword] at hlands
    obtain ⟨hflag, hlimit, htaken⟩ := hlands
    have hlap : ds ∣ P - P % ds := Nat.dvd_sub_mod P
    have hlow : A ≤ P - P % ds := by
      change A + ds = P ∨ A = 0 ∧ P ≤ ds at hfloor
      omega
    have hstanding := h.standing.raise h.positive
      (h.standing.boundary_lap hlap hlow (by omega)) hlow htaken
    refine ⟨P - P % ds, h.quiet hlaid rfl hstanding ?_ ⟨?_, hflag, hlimit⟩⟩
    · intro e' he'
      rw [hpc]
      exact he'
    · have := Nat.mod_le P ds
      omega
  · have hgo : Ring.afterLoad s.ring.core.ring e s.ring.core.ring.producerPos =
        .loadConsumer e s.ring.core.ring.producerPos (P % ds) := by
      simp only [Ring.afterLoad, h.fifo.laid.dataSize, hoff, hsum,
        h.fifo.laid.checkOrWrite_eq]
      exact if_neg hover
    rw [hgo] at hlaid ⊢
    refine ⟨A, h.quiet hlaid rfl h.standing ?_ hfloor⟩
    intro e' he'
    rw [hpc]
    exact he'

/-- The check for room, and what will stand behind the record. -/
theorem checkRoom {prod off : Nat} (h : Intact ds s C P A gone tiles) (hds : RingSize ds)
    (hok : LandsOk ds s s.ring.core.producer)
    (hpc : s.ring.core.producer = .loadConsumer e prod off)
    (hroom : ¬u64 (sub64 prod s.ring.core.ring.consumerPos + e.need) > s.ring.core.ring.dataSize) :
    ∃ A', Intact ds (s.moved { s.ring.core with
        producer := .write e prod off (recordStores e off) } []) C P A' gone tiles := by
  have hproducer := h.fifo.laid.producer
  have hfloor := h.floor
  rw [hpc] at hproducer hfloor hok
  obtain ⟨hfits, hprod, hoff, hin⟩ := hproducer
  have hbound := hds.bounds
  have hexact := h.exact
  have hnear := h.fifo.laid.near
  have hCP := h.fifo.laid.tiled.le
  have hneed := (hfits.bounds hds).2.2.1
  have hlaid := h.fifo.laid.checkRoom hds hpc hroom
  rw [h.fifo.laid.dataSize, Nat.not_lt] at hroom
  have hword : prod = P := by rw [hprod, Nat.mod_eq_of_lt hexact]
  obtain ⟨hlimit, hbegin⟩ := hok hroom
  rw [hword] at hlimit hbegin
  rw [hprod, h.fifo.laid.cons, sub64_eq hCP (by omega), u64] at hroom
  change A + ds = P ∨ A = 0 ∧ P ≤ ds at hfloor
  have hcurrent : ∀ e', (ProducerPc.write e prod off (recordStores e off)).emission = some e' →
      s.ring.core.producer.emission = some e' := by
    intro e' he'
    rw [hpc]
    exact he'
  by_cases hfirst : P + e.need ≤ ds
  · have hzero : A = 0 := by
      rcases hfloor with hlap | hzero
      · have : 0 < e.need := by
          have := (hfits.bounds hds).1
          omega
        omega
      · exact hzero.1
    exact ⟨A, h.quiet hlaid rfl h.standing hcurrent ⟨hlimit, Or.inr ⟨hzero, hfirst⟩⟩⟩
  · have hboundary := hbegin.resolve_left hfirst
    -- what lies before the end of the new record was taken: there is room
    have htaken : ∀ a ∈ s.laid.inits, span a ≤ P + e.need - ds →
        (records a).length ≤ s.ring.consumed.length := by
      intro a ha hle
      obtain ⟨b, hab⟩ := (List.mem_inits _ _).mp ha
      have hsplit : a ++ b = gone ++ tiles := hab.trans h.taken
      obtain ⟨m, hgone, -⟩ := exists_of_span_le (by rw [hab]; exact h.positive) hsplit
        (by rw [h.spanGone]; omega)
      rw [← h.consumed, hgone, records_append, List.length_append]
      exact Nat.le_add_right _ _
    have hstanding := h.standing.raise h.positive hboundary (by omega) htaken
    exact ⟨P + e.need - ds, h.quiet hlaid rfl hstanding hcurrent
      ⟨hlimit, Or.inl (by omega)⟩⟩

/-- One step of the producer. -/
theorem producerStep {c' : Core} (h : Intact ds s C P A gone tiles) (hds : RingSize ds)
    (hok : LandsOk ds s s.ring.core.producer)
    (hstep : Ring.producerStep s.ring.core = some c') :
    ∃ P' A' tiles', Intact ds (s.moved c' (committed ds s.ring.core.producer))
      C P' A' gone tiles' := by
  have hemit := h.emitOk hds
  have hproducer := h.fifo.laid.producer
  have hfloor := h.floor
  have hsize := h.fifo.laid.dataSize
  have hexact := h.exact
  have hbound := hds.bounds
  have hmod : P % ds < ds := Nat.mod_lt _ (by omega)
  cases hpc : s.ring.core.producer with
  | idle =>
      simp only [Ring.producerStep, hpc] at hstep
      contradiction
  | loadProducer e =>
      simp only [Ring.producerStep, hpc, Option.some.injEq] at hstep
      obtain ⟨A', hintact⟩ := h.afterLoad hds hok hpc
      rw [← hstep]
      exact ⟨P, A', tiles, hintact⟩
  | pad e prod off stores =>
      rw [hpc] at hproducer hfloor
      cases stores with
      | nil =>
          simp only [Ring.producerStep, hpc, Option.some.injEq] at hstep
          rw [← hstep]
          refine ⟨P, A, tiles, h.quiet (h.fifo.laid.padDone hpc hemit) rfl h.standing ?_ hfloor⟩
          intro e' he'
          rw [hpc]
          exact he'
      | cons w rest =>
          simp only [Ring.producerStep, hpc, Option.some.injEq] at hstep
          have hlaid := h.fifo.laid.padStore hds hpc hemit
          obtain ⟨hfits, -, hoff, hover, -, hstores, -⟩ := hproducer
          have hlap := hfloor.1
          obtain ⟨i, hi, hw⟩ := hstores w List.mem_cons_self
          rw [length_padBytes] at hi
          have hpad : 8 ≤ ds - off := by
            have hdvd := hds.dvd_offset (h.fifo.laid.tiled.dvd h.fifo.laid.aligned)
            have hdsdvd := hds.dvd_eight
            have hneed := (hfits.bounds hds).2.2.1
            omega
          have hstanding : Standing ds (s.ring.core.ring.data.store w.1 w.2) s.laid
              s.ring.consumed.length P A := by
            refine h.standing.store (m := 8) (by omega) (by decide) (by omega) ?_ ?_
            · rw [hw]
              omega
            · rw [hw, List.length_singleton]
              omega
          rw [← hstep]
          refine ⟨P, A, tiles, h.quiet hlaid rfl hstanding ?_ hfloor⟩
          intro e' he'
          rw [hpc]
          exact he'
  | storePad e prod off =>
      rw [hpc] at hproducer hfloor
      simp only [Ring.producerStep, hpc, Option.some.injEq] at hstep
      have hlaid := h.fifo.laid.storePad hds hpc
      obtain ⟨hfits, hprod, hoff, hover, hle, hflag, hload⟩ := hproducer
      obtain ⟨hlap, -, hlimit⟩ := hfloor
      have hpad : 8 ≤ ds - off ∧ 8 ∣ ds - off := by
        have hdvd := hds.dvd_offset (h.fifo.laid.tiled.dvd h.fifo.laid.aligned)
        have hdsdvd := hds.dvd_eight
        have hneed := (hfits.bounds hds).2.2.1
        omega
      have htile : TileAt ds s.ring.core.ring.data P (.pad (ds - off)) := by
        rw [hoff] at hflag hload hpad ⊢
        exact ⟨by omega, hpad.1, hpad.2, hflag, hload⟩
      rw [← hoff] at hlaid
      rw [← hstep]
      have hfar : Floor ds (P + (ds - off)) A (checkOrWrite s.ring.core.ring e
          (u64 (prod + (s.ring.core.ring.dataSize - off))) 0) := by
        rw [h.fifo.laid.checkOrWrite_eq]
        left
        omega
      have hintact := commit (t := Tile.pad (ds - off)) h hlaid ?_ htile rfl ?_ ?_ hlimit hfar
      · exact ⟨P + (ds - off), A, tiles ++ [Tile.pad (ds - off)], hintact⟩
      · rw [records, records, List.append_nil]
      · intro e' he'
        cases he'
      · intro e' he'
        dsimp only at he'
        rw [h.fifo.laid.checkOrWrite_eq] at he'
        rw [hpc]
        exact he'
  | loadConsumer e prod off =>
      rw [hpc] at hfloor
      simp only [Ring.producerStep, hpc] at hstep
      split at hstep
      · rw [Option.some.injEq] at hstep
        rw [← hstep]
        refine ⟨P, A, tiles, h.quiet (h.fifo.laid.setProducer trivial) rfl h.standing ?_ hfloor⟩
        intro e' he'
        rw [hpc]
        exact he'
      · rename_i hroom
        rw [Option.some.injEq] at hstep
        obtain ⟨A', hintact⟩ := h.checkRoom hds hok hpc hroom
        rw [← hstep]
        exact ⟨P, A', tiles, hintact⟩
  | addDrops e =>
      rw [hpc] at hfloor
      simp only [Ring.producerStep, hpc, Option.some.injEq] at hstep
      have hl := h.fifo.laid
      rw [← hstep]
      refine ⟨P, A, tiles, h.quiet ⟨hl.stream, hl.dataSize, hl.prod, hl.cons, hl.aligned, hl.tiled,
        hl.room, hl.near, trivial⟩ rfl h.standing ?_ hfloor⟩
      intro e' he'
      rw [hpc]
      exact he'
  | addDropBytes e =>
      rw [hpc] at hfloor
      simp only [Ring.producerStep, hpc, Option.some.injEq] at hstep
      have hl := h.fifo.laid
      rw [← hstep]
      refine ⟨P, A, tiles, h.quiet ⟨hl.stream, hl.dataSize, hl.prod, hl.cons, hl.aligned, hl.tiled,
        hl.room, hl.near, trivial⟩ rfl h.standing ?_ hfloor⟩
      intro e' he'
      cases he'
  | write e prod off stores =>
      rw [hpc] at hproducer hfloor
      cases stores with
      | nil =>
          simp only [Ring.producerStep, hpc, Option.some.injEq] at hstep
          rw [← hstep]
          refine ⟨P, A, tiles, h.quiet (h.fifo.laid.writeDone hpc hemit) rfl h.standing ?_ hfloor⟩
          intro e' he'
          rw [hpc]
          exact he'
      | cons w rest =>
          simp only [Ring.producerStep, hpc, Option.some.injEq] at hstep
          have hlaid := h.fifo.laid.writeStore hds hpc
          obtain ⟨hfits, -, hoff, hin, -, hstores, -⟩ := hproducer
          have hroom := hfloor.2
          obtain ⟨hlow, hhigh⟩ := hstores w List.mem_cons_self
          have hlen := (hfits.bounds hds).1
          have hstanding : Standing ds (s.ring.core.ring.data.store w.1 w.2) s.laid
              s.ring.consumed.length P A :=
            h.standing.store (m := e.need) (by omega) (by omega) (by omega) (by omega) (by omega)
          rw [← hstep]
          refine ⟨P, A, tiles, h.quiet hlaid rfl hstanding ?_ hfloor⟩
          intro e' he'
          rw [hpc]
          exact he'
  | publish e prod =>
      rw [hpc] at hproducer hfloor
      simp only [Ring.producerStep, hpc, Option.some.injEq] at hstep
      have hlaid := h.fifo.laid.publish hds hpc (s.ring.core.accepted ++ [e])
      obtain ⟨hfits, -, hin, -, hbody, hload⟩ := hproducer
      obtain ⟨hlen, hdvd, -⟩ := hfits.bounds hds
      rw [← hstep]
      have hintact := commit (t := Tile.record e) h hlaid rfl ⟨hin, hlen, hdvd, hbody, hload⟩ rfl
        ?_ ?_ hfloor.1 hfloor.2
      · exact ⟨P + e.need, A, tiles ++ [Tile.record e], hintact⟩
      · intro e' he'
        rw [records, records, List.mem_singleton] at he'
        rw [he']
        exact h.current e (by rw [hpc]; rfl)
      · intro e' he'
        cases he'

/-- One step of either side. -/
theorem step {s' : Traced} {a : RingAct} (h : Intact ds s C P A gone tiles) (hds : RingSize ds)
    (hok : HistoryOk ds s a) (hstep : (tracedMachine ds).next s a = some s') :
    ∃ C' P' A' gone' tiles', Intact ds s' C' P' A' gone' tiles' := by
  obtain ⟨r, hr, rfl⟩ := Option.map_eq_some_iff.mp hstep
  cases a with
  | emit e =>
      simp only [ringMachine] at hr
      split at hr
      · rename_i hfits
        obtain ⟨c, hc, rfl⟩ := Option.map_eq_some_iff.mp hr
        obtain ⟨hlaid, hacc⟩ := h.fifo.laid.startEmit hfits hc
        unfold Ring.startEmit at hc
        cases hpc : s.ring.core.producer with
        | idle =>
            rw [hpc] at hc
            have hfloor := h.floor
            rw [hpc] at hfloor
            dsimp only at hc
            split at hc
            · cases hc
              exact ⟨C, P, A, gone, tiles, h⟩
            · cases hc
              refine ⟨C, P, A, gone, tiles, ⟨hlaid, h.fifo.queue, h.fifo.consumer⟩, h.taken,
                h.spanGone, h.consumed, h.standing, h.exact, h.positive, h.described, ?_, hfloor⟩
              intro e' he'
              cases he'
              exact hok
        | _ =>
            rw [hpc] at hc
            contradiction
      · contradiction
  | producer =>
      obtain ⟨c, hc, rfl⟩ := Option.map_eq_some_iff.mp hr
      obtain ⟨P', A', tiles', hintact⟩ := h.producerStep hds hok hc
      exact ⟨C, P', A', gone, tiles', hintact⟩
  | consume outMax =>
      simp only [ringMachine] at hr
      split at hr
      · split at hr
        · rename_i hout
          cases hr
          exact ⟨C, P, A, gone, tiles, ⟨h.fifo.laid, h.fifo.queue, hout⟩, h.taken, h.spanGone,
            h.consumed, h.standing, h.exact, h.positive, h.described, h.current, h.floor⟩
        · contradiction
      · contradiction
  | consumer =>
      obtain ⟨hdata, hproducer, hacc⟩ := consumerStep_frame hr
      obtain ⟨C', tiles', hfifo, hmove⟩ := h.fifo.consumerMoves hds hr
      have hqueue := hfifo.queue
      rw [hacc, h.fifo.queue] at hqueue
      rcases hmove with ⟨rfl, rfl⟩ | ⟨t, rfl, rfl⟩
      · have hsame := List.append_cancel_right hqueue
        refine ⟨C', P, A, gone, tiles', hfifo, h.taken, h.spanGone, h.consumed.trans hsame, ?_,
          h.exact, h.positive, h.described, ?_, ?_⟩
        · rw [hdata, ← hsame]
          exact h.standing
        · rw [hproducer]
          exact h.current
        · rw [hproducer]
          exact h.floor
      · have hsplit : records (t :: tiles') = records [t] ++ records tiles' :=
          records_append [t] tiles'
        rw [hsplit, ← List.append_assoc] at hqueue
        have hconsumed := List.append_cancel_right hqueue
        refine ⟨C + t.size, P, A, gone ++ [t], tiles', hfifo, ?_, ?_, ?_, ?_, h.exact, h.positive,
          h.described, ?_, ?_⟩
        · change s.laid = _
          rw [h.taken, List.append_assoc]
          rfl
        · rw [span_append, h.spanGone]
          rfl
        · rw [records_append, h.consumed]
          exact hconsumed
        · rw [hdata, ← hconsumed]
          refine h.standing.mono ?_
          rw [List.length_append]
          exact Nat.le_add_right _ _
        · rw [hproducer]
          exact h.current
        · rw [hproducer]
          exact h.floor

end Intact

/-- In every run whose emissions end where something older begins, a whole data area stands behind
the producer. -/
theorem intact_of_reachable {ds : Nat} (hds : RingSize ds) :
    ∀ s, (tracedMachine ds).ReachableWhen (HistoryOk ds) s →
      ∃ C P A gone tiles, Intact ds s C P A gone tiles := by
  apply Machine.ReachableWhen.invariant
  · rintro s ⟨⟨data, hring⟩, hlaid⟩
    refine ⟨0, 0, 0, [], [], ?_, hlaid, rfl, ?_, ?_, by decide, ?_, ?_, ?_, ?_⟩
    · rw [hring]
      exact ⟨laid_init hds data [], rfl, trivial⟩
    · rw [hring]
      rfl
    · rw [hring, hlaid]
      exact ⟨[], [], rfl, rfl, rfl, Nat.le_refl 0⟩
    · rw [hlaid]
      intro t ht
      cases ht
    · rw [hlaid]
      intro e he
      cases he
    · rw [hring]
      intro e he
      cases he
    · rw [hring]
      exact Or.inr ⟨rfl, Nat.zero_le ds⟩
  · intro s a s' _ h hok hstep
    obtain ⟨C, P, A, gone, tiles, hintact⟩ := h
    exact hintact.step hds hok hstep

end Ring
end LiveSurface
