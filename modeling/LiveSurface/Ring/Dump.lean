import LiveSurface.Library.Buffer
import LiveSurface.Library.Except
import LiveSurface.Library.Layout
import LiveSurface.Ring.History

/-!
# The dump of a segment

A script reads a copy of the segment and lists the records of every ring.  It walks each data area
from its start and not from the consumer, so it also lists what the consumer has taken, and behind
the newest record it walks on into what is left of the lap before.

Main results:

- Theorem {lit}`walk_tiles`: a walk over whole tiles lists their records.
- Theorem {lit}`walk_intact`: the walk over a ring behind whose producer a whole data area stands.
- Theorem {lit}`dump_lists_records`: what is listed of every ring, in runs whose emissions end
  where something older begins.
- Theorem {lit}`dump_lists_rubbish`: a record that was never committed.
-/

namespace LiveSurface
namespace Ring

/-! ## The script -/

def segMagic : Nat := 0x4C53534547303031
def segHdr : Nat := 32
def ringHdr : Nat := 56
def recHdr : Nat := 32
def segVersion : Nat := 2

/-- A record that is listed, and where its payload begins. -/
structure Listed where
  header : LsRec
  payload : Nat
deriving DecidableEq

/-- The loop over a data area; {lit}`none` is an exception. -/
def walk (d : Buffer) (data rdsz prod off : Nat) : Option (List Listed) :=
  if _h : off < prod ∧ off < rdsz then
    match rd 4 d (data + off) with
    | none => none
    | some hdr =>
        if hdr &&& lsRingDiscard ≠ 0 then
          walk d data rdsz prod (off + (8 + (hdr &&& lsRingLenMask)))
        else if hdr &&& lsRingBusy ≠ 0 then some []
        else if hdr &&& lsRingLenMask = 0 then some []
        else
          match rdBytes recHdr d (data + off + 8) with
          | none => none
          | some bytes =>
              (walk d data rdsz prod
                (off + (8 + recHdr + (LsRec.ofBytes bytes).len.toNat + 7) / 8 * 8)).map
                  (⟨LsRec.ofBytes bytes, data + off + 8 + recHdr⟩ :: ·)
  else some []
termination_by rdsz - off
decreasing_by
  · omega
  · rw [recHdr]
    omega

/-- What is reported of a ring. -/
structure DumpedRing where
  policy : Nat
  producer : Nat
  consumer : Nat
  drops : Nat
  records : List Listed
deriving DecidableEq

/-- The report of the ring at a place of the file. -/
def dumpRing (d : Buffer) (base : Nat) : Option DumpedRing :=
  match rdBytes ringHdr d base with
  | none => none
  | some bytes =>
      match Layout.unpack [8, 4, 4, 4, 4, 8, 8, 8, 8] bytes with
      | [_, _, pol, rdsz, _, prod, cons, dr, _] =>
          if prod = 0 ∧ dr = 0 then some ⟨pol, prod, cons, dr, []⟩
          else (walk d (base + ringHdr) rdsz prod 0).map fun recs => ⟨pol, prod, cons, dr, recs⟩
      | _ => none

/-- Why there is no report. -/
inductive DumpError
  | tooSmall
  | version
  | magic
  | dataSize
  | stride
  | truncated
  | raised
deriving DecidableEq

/-- {lit}`main`: the reports of all rings. -/
def dump (d : Buffer) : Except DumpError (List DumpedRing) :=
  if d.length < segHdr then .error .tooSmall
  else
    match Layout.unpack [8, 4, 4, 4, 4, 4] d with
    | [magic, ver, nRings, stride, dsz, _] =>
        if magic = segMagic ∧ ver ≠ 0 ∧ ver ≠ segVersion then .error .version
        else if magic ≠ segMagic then .error .magic
        else if dsz &&& (dsz - 1) ≠ 0 then .error .dataSize
        else if stride ≠ ringHdr + dsz then .error .stride
        else if d.length < segHdr + nRings * stride then .error .truncated
        else
          (List.range nRings).mapM fun i =>
            match dumpRing d (segHdr + i * stride) with
            | none => .error .raised
            | some r => .ok r
    | _ => .error .raised

/-! ## A copy of a segment -/

def lsRingMagic : Nat := 0x4c53524e47303031

def LsRingPolicy.word : LsRingPolicy → Nat
  | .stream => 0
  | .record => 1

/-- The words of a control block. -/
def LsRing.words (r : LsRing) : List (Nat × Nat) :=
  [(8, lsRingMagic), (4, 1), (4, r.policy.word), (4, r.dataSize), (4, 0), (8, r.producerPos),
    (8, r.consumerPos), (8, r.drops), (8, r.dropBytes)]

/-- A ring as it lies in the segment. -/
def LsRing.bytes (r : LsRing) : Buffer := Layout.pack r.words ++ r.data.load 0 r.dataSize

/-- The words of the segment's header. -/
def segWords (ds claimed n : Nat) : List (Nat × Nat) :=
  [(8, segMagic), (4, segVersion), (4, n), (4, ringHdr + ds), (4, ds), (4, claimed), (4, 0)]

/-- A copy of the segment. -/
def segmentBytes (ds claimed : Nat) (rings : List LsRing) : Buffer :=
  Layout.pack (segWords ds claimed rings.length) ++ (rings.map LsRing.bytes).flatten

/-! ## Walking over tiles -/

/-- What is listed of the tiles from an offset on. -/
def listing (data : Nat) : Nat → List Tile → List Listed
  | _, [] => []
  | off, .record e :: rest => ⟨e.header, data + off + 8 + recHdr⟩ :: listing data (off + e.need) rest
  | off, .pad n :: rest => listing data (off + n) rest

/-- The file holds a data area. -/
structure Holds (d : Buffer) (data ds : Nat) (m : Memory) : Prop where
  fits : data + ds ≤ d.length
  bytes : ∀ off n, off + n ≤ ds → bytesAt n d (data + off) = m.load off n

section Walk

variable {d : Buffer} {data ds prod L X Y : Nat} {m : Memory} {tiles : List Tile}

theorem Holds.rd_eq (h : Holds d data ds m) {off n : Nat} (hn : off + n ≤ ds) :
    rd n d (data + off) = some (ofLittleEndian (m.load off n)) := by
  have hfits := h.fits
  rw [rd_of_le (by omega), leAt, ← h.bytes off n hn, bytesAt]

/-- The size that the script computes is the room of the record. -/
theorem LengthOk.need_eq {e : Emission} (h : LengthOk e) :
    (8 + recHdr + e.header.len.toNat + 7) / 8 * 8 = e.need := by
  have hbody := h.2
  rw [Emission.body, lsRecSize] at hbody
  rw [Emission.need, lsRingHdrSz, lsRecSize, lsRingRound_eq (by omega), h.1, recHdr]

/-- A walk over whole tiles lists their records and goes on behind them. -/
theorem walk_tiles (hold : Holds d data ds m) (hL : ds ∣ L) (h : Tiled ds m X tiles Y)
    (hX : L ≤ X) (hY : Y ≤ L + ds) (hprod : Y - L ≤ prod)
    (hlen : ∀ e ∈ records tiles, LengthOk e) :
    walk d data ds prod (X - L) =
      (walk d data ds prod (Y - L)).map (listing data (X - L) tiles ++ ·) := by
  induction tiles generalizing X with
  | nil =>
      have heq : X = Y := h
      rw [heq, listing]
      cases walk d data ds prod (Y - L) <;> rfl
  | cons t rest ih =>
      obtain ⟨hpos, -⟩ := h.1.size_pos
      have hrest := h.2.le
      have hoff : X % ds = X - L := by
        obtain ⟨k, rfl⟩ := hL
        have hX' : X = ds * k + (X - ds * k) := by omega
        rw [hX', Nat.mul_add_mod, Nat.mod_eq_of_lt (by omega)]
        omega
      have hnext : X + t.size - L = X - L + t.size := by omega
      have hwalk := ih h.2 (by omega)
      rw [hnext] at hwalk
      rw [walk, dif_pos (by omega)]
      cases t with
      | record e =>
          have hok : LengthOk e := hlen e List.mem_cons_self
          have hheader := h.1.header_record
          have hload := h.1.load_header
          rw [hoff] at hheader hload
          have hfit : X - L + e.need ≤ ds := by
            rw [← hoff]
            exact h.1.1
          have hneed := h.1.2.1
          have hread : rd 4 d (data + (X - L)) = some e.body := by
            rw [hold.rd_eq (by omega), ← headerAt, hheader]
          have hbytes : rdBytes recHdr d (data + (X - L) + 8) = some e.header.bytes := by
            have hfits := hold.fits
            rw [recHdr, rdBytes_of_le (by omega), Nat.add_assoc, hold.bytes _ _ (by omega), hload]
          obtain ⟨hbusy, hdiscard, hmask⟩ := flags_of_length hok.2
          have hbody : e.body ≠ 0 := by
            rw [Emission.body, lsRecSize]
            omega
          rw [hread]
          simp only [hdiscard, hbusy, hmask, hbytes, ne_eq, not_true_eq_false, if_false,
            if_neg hbody, LsRec.ofBytes_bytes, hok.need_eq]
          have hgo := hwalk fun e' he' => hlen e' (List.mem_cons_of_mem e he')
          change walk d data ds prod (X - L + e.need) = _ at hgo
          rw [hgo, Option.map_map]
          rfl
      | pad n =>
          obtain ⟨hend, height, -, hflag, -⟩ := h.1
          have hheader := h.1.header_pad
          rw [hoff] at hheader hend
          have hread : rd 4 d (data + (X - L)) = some ((n - 8) ||| lsRingDiscard) := by
            rw [hold.rd_eq (by omega), ← headerAt, hheader]
          obtain ⟨-, -, hdiscard, hmask⟩ := flags_of_discard hflag
          have hstep : 8 + (n - 8) = n := by omega
          rw [hread]
          simp only [hmask, if_pos hdiscard, hstep]
          exact hwalk hlen

theorem walk_end {off : Nat} (h : ¬(off < prod ∧ off < ds)) : walk d data ds prod off = some [] := by
  rw [walk, dif_neg h]

/-- The walk over a ring behind whose producer a whole data area stands: first the lap of the
producer, then what is left of the lap before. -/
theorem walk_intact {A P : Nat} {young : List Tile} (hold : Holds d data ds m) (hds : 0 < ds)
    (h : Tiled ds m A young P) (hA : A + ds = P ∨ A = 0 ∧ P ≤ ds)
    (hlen : ∀ e ∈ records young, LengthOk e) :
    ∃ first second L, young = first ++ second ∧ Tiled ds m A first L ∧ Tiled ds m L second P ∧
      ds ∣ L ∧ P ≤ L + ds ∧ A % ds + (L - A) ≤ ds ∧
      walk d data ds P 0 = some (listing data 0 second ++ listing data (A % ds) first) := by
  by_cases hlap : A = 0 ∨ ds ∣ A
  · have hdvd : ds ∣ A := hlap.elim (fun hzero => by rw [hzero]; exact Nat.dvd_zero ds) id
    have hwalk := walk_tiles hold hdvd h (Nat.le_refl A) (by omega) (by omega : P - A ≤ P) hlen
    have hend : walk d data ds P (P - A) = some [] := walk_end (by omega)
    rw [Nat.sub_self, hend] at hwalk
    have hmod : A % ds < ds := Nat.mod_lt _ hds
    exact ⟨[], young, A, rfl, rfl, h, hdvd, by omega, by omega, by rw [hwalk]; rfl⟩
  · rw [not_or] at hlap
    have hP : A + ds = P := hA.resolve_right fun hzero => hlap.1 hzero.1
    have hmod : A % ds < ds := Nat.mod_lt _ hds
    have hoff : 0 < A % ds := Nat.pos_of_ne_zero fun hzero => hlap.2 (Nat.dvd_of_mod_eq_zero hzero)
    have hAle : A % ds ≤ A := Nat.mod_le A ds
    -- the start of the producer's lap, and that of the lap before
    have hbefore : ds ∣ A - A % ds := Nat.dvd_sub_mod A
    have hcurrent : ds ∣ A - A % ds + ds := Nat.dvd_add_self_right.mpr hbefore
    obtain ⟨first, second, rfl, hspan⟩ := h.split_lap hcurrent (by omega) (by omega)
    have hfirst := h.front
    have hsecond := h.of_append
    rw [hspan] at hfirst hsecond
    rw [records_append] at hlen
    have hnew := @walk_tiles d data ds P _ _ _ m second hold hcurrent hsecond (Nat.le_refl _) (by omega) (by omega)
      fun e he => hlen e (List.mem_append_right _ he)
    have hold' := @walk_tiles d data ds P _ _ _ m first hold hbefore hfirst (by omega) (Nat.le_refl _) (by omega)
      fun e he => hlen e (List.mem_append_left _ he)
    have hmid : P - (A - A % ds + ds) = A - (A - A % ds) := by omega
    have hstart : A - (A - A % ds) = A % ds := by omega
    have hend : walk d data ds P (A - A % ds + ds - (A - A % ds)) = some [] := walk_end (by omega)
    rw [hend] at hold'
    rw [Nat.sub_self, hmid, hold', hstart] at hnew
    refine ⟨first, second, A - A % ds + ds, rfl, hfirst, hsecond, hcurrent, by omega, by omega, ?_⟩
    rw [hnew]
    simp

end Walk

/-! ## What is listed -/

/-- A listed record is the record of a number among those that were committed, with its payload in
the file. -/
def IsRecord (d : Buffer) (accepted : List Emission) (l : Listed) (i : Nat) : Prop :=
  ∃ e, accepted[i]? = some e ∧ l.header = e.header ∧ l.header.len.toNat = e.len ∧
    bytesAt l.header.len.toNat d l.payload = e.payload

/-- Every listed record was committed and is listed once, and all that were not consumed are
listed. -/
def Decoded (d : Buffer) (accepted : List Emission) (taken : Nat) (recs : List Listed) : Prop :=
  ∃ idx : List Nat, idx.Nodup ∧ List.Forall₂ (IsRecord d accepted) recs idx ∧
    ∀ j, taken ≤ j → j < accepted.length → j ∈ idx

section Decode

variable {d : Buffer} {data ds X Y : Nat} {m : Memory} {tiles : List Tile}

/-- The payload of a record in a tile. -/
theorem TileAt.load_payload {e : Emission} (h : TileAt ds m X (.record e)) :
    m.load (X % ds + 40) e.len = e.payload := by
  have hload := h.2.2.2.2
  have hdrop := Memory.drop_load (m := m) (a := X % ds) (show 40 ≤ 40 + e.len by omega)
  rw [hload, recordBytes, ← List.append_assoc, List.drop_left' (by simp),
    Nat.add_sub_cancel_left] at hdrop
  exact hdrop.symm

/-- The listing of tiles is the records that they hold, one after the other. -/
theorem listing_isRecord (hold : Holds d data ds m) (h : Tiled ds m X tiles Y)
    (hlap : X % ds + (Y - X) ≤ ds) (hlen : ∀ e ∈ records tiles, LengthOk e)
    (front rest : List Emission) :
    List.Forall₂ (IsRecord d (front ++ records tiles ++ rest)) (listing data (X % ds) tiles)
      (List.range' front.length (records tiles).length) := by
  induction tiles generalizing X front with
  | nil => exact .nil
  | cons t tiles ih =>
      obtain ⟨hpos, hfit⟩ := h.1.size_pos
      have hle := h.2.le
      have hnext : tiles ≠ [] → (X + t.size) % ds = X % ds + t.size := by
        intro hne
        have hmore : 0 < span tiles := by
          cases tiles with
          | nil => exact absurd rfl hne
          | cons u us =>
              rw [span_cons]
              have := h.2.1.size_pos.1
              omega
        have hspan := h.2.span_eq
        rw [Nat.add_mod, Nat.mod_eq_of_lt (a := t.size) (by omega), Nat.mod_eq_of_lt (by omega)]
      have hoff : listing data (X % ds + t.size) tiles = listing data ((X + t.size) % ds) tiles := by
        by_cases hnil : tiles = []
        · rw [hnil]
          rfl
        · rw [hnext hnil]
      have hlap' : tiles ≠ [] → (X + t.size) % ds + (Y - (X + t.size)) ≤ ds := by
        intro hne
        rw [hnext hne]
        omega
      cases t with
      | record e =>
          have hok : LengthOk e := hlen e List.mem_cons_self
          have hpayload : bytesAt e.header.len.toNat d (data + X % ds + 8 + recHdr) = e.payload := by
            have hneed := h.1.2.1
            change X % ds + e.need ≤ ds at hfit
            rw [hok.1, recHdr, Nat.add_assoc, Nat.add_assoc, hold.bytes _ _ (by omega),
              ← h.1.load_payload]
          have hrec : records (.record e :: tiles) = e :: records tiles := rfl
          have hall : front ++ e :: records tiles ++ rest =
              (front ++ [e]) ++ records tiles ++ rest := by
            simp
          have hhead : IsRecord d (front ++ e :: records tiles ++ rest)
              ⟨e.header, data + X % ds + 8 + recHdr⟩ front.length :=
            ⟨e, by simp, rfl, hok.1, hpayload⟩
          rw [hrec, List.length_cons, List.range'_succ, listing]
          refine .cons hhead ?_
          change List.Forall₂ _ (listing data (X % ds + (Tile.record e).size) tiles) _
          rw [hoff, hall]
          by_cases hnil : tiles = []
          · rw [hnil]
            exact .nil
          · have htail := ih h.2 (hlap' hnil) (fun e' he' => hlen e' (List.mem_cons_of_mem e he'))
              (front ++ [e])
            rw [List.length_append] at htail
            exact htail
      | pad n =>
          rw [listing]
          change List.Forall₂ _ (listing data (X % ds + (Tile.pad n).size) tiles) _
          rw [hoff]
          by_cases hnil : tiles = []
          · rw [hnil]
            exact .nil
          · exact ih h.2 (hlap' hnil) hlen front

/-- What is listed of a ring behind whose producer a whole data area stands. -/
theorem Intact.decoded {C P A : Nat} {s : Traced} {gone tiles : List Tile} (hds : RingSize ds)
    (h : Intact ds s C P A gone tiles) (hidle : s.ring.core.producer = .idle)
    (hold : Holds d data ds s.ring.core.ring.data) :
    ∃ recs, walk d data ds P 0 = some recs ∧
      Decoded d s.ring.core.accepted s.ring.consumed.length recs := by
  have hfloor := h.floor
  rw [hidle] at hfloor
  obtain ⟨old, young, hlaid, -, hyoung, htaken⟩ := h.standing
  have hlen : ∀ e ∈ records old ++ records young, LengthOk e := by
    rw [← records_append, ← hlaid]
    exact h.described
  have hbound := hds.bounds
  obtain ⟨first, second, L, rfl, hfirst, hsecond, hL, hP, hlap, hwalk⟩ :=
    walk_intact hold (by omega) hyoung hfloor fun e he => hlen e (List.mem_append_right _ he)
  have haccepted : s.ring.core.accepted = records old ++ (records first ++ records second) := by
    rw [h.fifo.queue, ← h.consumed, ← records_append, ← h.taken, hlaid, records_append,
      records_append]
  rw [records_append] at hlen
  have hzero : L % ds = 0 := Nat.mod_eq_zero_of_dvd hL
  have hsle := hsecond.le
  have hnew := listing_isRecord hold hsecond (by omega)
    (fun e he => hlen e (List.mem_append_right _ (List.mem_append_right _ he)))
    (records old ++ records first) []
  have hrest := listing_isRecord hold hfirst hlap
    (fun e he => hlen e (List.mem_append_right _ (List.mem_append_left _ he)))
    (records old) (records second)
  rw [List.append_nil, List.append_assoc, ← haccepted, hzero, List.length_append] at hnew
  rw [List.append_assoc, ← haccepted] at hrest
  refine ⟨_, hwalk, _, ?_, List.rel_append hnew hrest, ?_⟩
  · rw [List.nodup_append]
    refine ⟨List.nodup_range', List.nodup_range', ?_⟩
    intro i hi j hj
    rw [List.mem_range'_1] at hi hj
    omega
  · intro j hj hlt
    rw [haccepted, List.length_append, List.length_append] at hlt
    rw [List.mem_append, List.mem_range'_1, List.mem_range'_1]
    omega

end Decode

/-! ## The whole segment -/

section Segment

variable {ds : Nat} (claimed : Nat)

theorem length_bytes_ring {r : LsRing} : r.bytes.length = ringHdr + r.dataSize := by
  rw [LsRing.bytes, List.length_append, Layout.length_pack, Memory.length_load]
  rfl

/-- The places of a ring in the file. -/
theorem bytesAt_segment {rings : List LsRing} (hsize : ∀ r ∈ rings, r.dataSize = ds) {i : Nat}
    {r : LsRing} (hi : rings[i]? = some r) {off n : Nat} (hn : off + n ≤ ringHdr + ds) :
    bytesAt n (segmentBytes ds claimed rings) (segHdr + i * (ringHdr + ds) + off) =
      bytesAt n r.bytes off := by
  have hhead : (Layout.pack (segWords ds claimed rings.length)).length = segHdr := by
    rw [Layout.length_pack]
    rfl
  have hblocks : ∀ b ∈ rings.map LsRing.bytes, b.length = ringHdr + ds := by
    intro b hb
    obtain ⟨r', hr', rfl⟩ := List.mem_map.mp hb
    rw [length_bytes_ring, hsize r' hr']
  rw [segmentBytes, ← hhead, Nat.add_assoc, bytesAt_append_right]
  exact bytesAt_flatten hblocks (by rw [List.getElem?_map, hi]; rfl) hn

theorem length_segmentBytes {rings : List LsRing} (hsize : ∀ r ∈ rings, r.dataSize = ds) :
    (segmentBytes ds claimed rings).length = segHdr + rings.length * (ringHdr + ds) := by
  have hblocks : ((rings.map LsRing.bytes).map List.length) =
      List.replicate rings.length (ringHdr + ds) := by
    rw [List.eq_replicate_iff]
    refine ⟨by rw [List.length_map, List.length_map], ?_⟩
    intro n hn
    obtain ⟨b, hb, rfl⟩ := List.mem_map.mp hn
    obtain ⟨r, hr, rfl⟩ := List.mem_map.mp hb
    rw [length_bytes_ring, hsize r hr]
  rw [segmentBytes, List.length_append, Layout.length_pack, List.length_flatten, hblocks,
    List.sum_replicate_nat]
  rfl

/-- The report of one ring. -/
theorem dumpRing_decoded (hds : RingSize ds) {rings : List LsRing}
    (hsize : ∀ r ∈ rings, r.dataSize = ds) {s : Traced} {C P A : Nat} {gone tiles : List Tile}
    (h : Intact ds s C P A gone tiles) (hidle : s.ring.core.producer = .idle) {i : Nat}
    (hi : rings[i]? = some s.ring.core.ring) :
    ∃ r, dumpRing (segmentBytes ds claimed rings) (segHdr + i * (ringHdr + ds)) = some r ∧
      Decoded (segmentBytes ds claimed rings) s.ring.core.accepted s.ring.consumed.length
        r.records := by
  have hlength := length_segmentBytes claimed hsize
  have hlt : i < rings.length := (List.getElem?_eq_some_iff.mp hi).1
  have hmul : (i + 1) * (ringHdr + ds) ≤ rings.length * (ringHdr + ds) :=
    Nat.mul_le_mul_right _ hlt
  rw [Nat.succ_mul] at hmul
  have hdata := h.fifo.laid.dataSize
  have hbound := hds.bounds
  have hexact := h.exact
  have hhead : bytesAt ringHdr (segmentBytes ds claimed rings) (segHdr + i * (ringHdr + ds)) =
      Layout.pack s.ring.core.ring.words := by
    have hplace := bytesAt_segment claimed hsize hi
      (show 0 + ringHdr ≤ ringHdr + ds by omega)
    rw [Nat.add_zero] at hplace
    rw [hplace, bytesAt, LsRing.bytes, List.drop_zero]
    exact List.take_left' (by rw [Layout.length_pack]; rfl)
  have hold : Holds (segmentBytes ds claimed rings) (segHdr + i * (ringHdr + ds) + ringHdr) ds
      s.ring.core.ring.data := by
    refine ⟨by rw [hlength]; omega, ?_⟩
    intro off n hn
    have hplace := bytesAt_segment claimed hsize hi
      (show ringHdr + off + n ≤ ringHdr + ds by omega)
    have hwords : (Layout.pack s.ring.core.ring.words).length = ringHdr := by
      rw [Layout.length_pack]
      rfl
    rw [← Nat.add_assoc] at hplace
    rw [hplace, LsRing.bytes, ← hwords, bytesAt_append_right, bytesAt, hdata,
      Memory.drop_load (by omega), Memory.take_load (by omega), Nat.zero_add]
  obtain ⟨recs, hwalk, hdecoded⟩ := h.decoded hds hidle hold
  have hunpack := Layout.unpack_pack s.ring.core.ring.words []
  have hprod : s.ring.core.ring.producerPos % 256 ^ 8 = P := by
    rw [h.fifo.laid.prod]
    omega
  have hsizeword : s.ring.core.ring.dataSize % 256 ^ 4 = ds := by
    rw [hdata]
    omega
  rw [List.append_nil] at hunpack
  simp only [LsRing.words, List.map_cons, List.map_nil, hprod, hsizeword] at hunpack
  rw [dumpRing, rdBytes_of_le (by rw [hlength]; omega), hhead]
  dsimp only
  rw [LsRing.words, hunpack]
  dsimp only
  split
  · rename_i hzero
    rw [hzero.1, walk_end (by omega)] at hwalk
    cases hwalk
    exact ⟨_, rfl, hdecoded⟩
  · rw [hwalk]
    exact ⟨_, rfl, hdecoded⟩

/-- Of every ring of a segment, in runs whose emissions end where something older begins, exactly
committed records are listed, each once, and all that were not consumed are among them. -/
theorem dump_lists_records (ds claimed : Nat) (hds : RingSize ds) (rings : List Traced)
    (hcount : rings.length < 2 ^ 32)
    (hruns : ∀ s ∈ rings, (tracedMachine ds).ReachableWhen (HistoryOk ds) s)
    (hidle : ∀ s ∈ rings, s.ring.core.producer = .idle) :
    let d := segmentBytes ds claimed (rings.map fun s => s.ring.core.ring)
    ∃ out, dump d = .ok out ∧
      List.Forall₂ (fun s r => Decoded d s.ring.core.accepted s.ring.consumed.length r.records)
        rings out := by
  intro d
  have hintact := fun s hs => intact_of_reachable hds s (hruns s hs)
  have hsize : ∀ r ∈ rings.map fun s => s.ring.core.ring, r.dataSize = ds := by
    intro r hr
    obtain ⟨s, hs, rfl⟩ := List.mem_map.mp hr
    obtain ⟨C, P, A, gone, tiles, h⟩ := hintact s hs
    exact h.fifo.laid.dataSize
  have hlength : d.length = segHdr + rings.length * (ringHdr + ds) := by
    rw [length_segmentBytes claimed hsize, List.length_map]
  have hbound := hds.bounds
  have hunpack := Layout.unpack_pack ([(8, segMagic), (4, segVersion), (4, rings.length),
    (4, ringHdr + ds), (4, ds), (4, claimed)]) (littleEndian 4 0 ++
      ((rings.map fun s => s.ring.core.ring).map LsRing.bytes).flatten)
  have hd : d = Layout.pack [(8, segMagic), (4, segVersion), (4, rings.length),
      (4, ringHdr + ds), (4, ds), (4, claimed)] ++ (littleEndian 4 0 ++
        ((rings.map fun s => s.ring.core.ring).map LsRing.bytes).flatten) := by
    change segmentBytes _ _ _ = _
    rw [segmentBytes, List.length_map]
    simp only [segWords, Layout.pack, List.append_assoc, List.append_nil]
  rw [← hd] at hunpack
  have hn : rings.length % 256 ^ 4 = rings.length := Nat.mod_eq_of_lt (by omega)
  have hstride : (ringHdr + ds) % 256 ^ 4 = ringHdr + ds := by
    rw [ringHdr]
    omega
  have hdsword : ds % 256 ^ 4 = ds := Nat.mod_eq_of_lt (by omega)
  simp only [List.map_cons, List.map_nil, hn, hstride, hdsword] at hunpack
  have hpower : ds &&& (ds - 1) = 0 := by
    obtain ⟨k, -, -, rfl⟩ := hds.power
    rw [and_mask, Nat.mod_self]
  have hdump : dump d = (List.range rings.length).mapM fun i =>
      match dumpRing d (segHdr + i * (ringHdr + ds)) with
      | none => .error .raised
      | some r => .ok r := by
    rw [dump, if_neg (by omega), hunpack]
    dsimp only
    rw [if_neg (by decide), if_neg (by decide), if_neg (by rw [hpower]; simp), if_neg (by simp),
      if_neg (by omega)]
  have hrings : ∀ (i : Nat) (s : Traced), rings[i]? = some s → ∃ r,
      dumpRing d (segHdr + i * (ringHdr + ds)) = some r ∧
        Decoded d s.ring.core.accepted s.ring.consumed.length r.records := by
    intro i s hi
    have hs := List.mem_of_getElem? hi
    obtain ⟨C, P, A, gone, tiles, h⟩ := hintact s hs
    exact dumpRing_decoded claimed hds hsize h (hidle s hs) (by rw [List.getElem?_map, hi]; rfl)
  have heach : ∀ i ∈ List.range rings.length, ∃ r,
      (match dumpRing d (segHdr + i * (ringHdr + ds)) with
        | none => Except.error DumpError.raised
        | some r => .ok r) = .ok r ∧ ∀ s, rings[i]? = some s →
          Decoded d s.ring.core.accepted s.ring.consumed.length r.records := by
    intro i hi
    have hlt := List.mem_range.mp hi
    obtain ⟨r, hr, hdecoded⟩ := hrings i rings[i] (List.getElem?_eq_getElem hlt)
    refine ⟨r, by rw [hr], ?_⟩
    intro s hs
    rw [List.getElem?_eq_getElem hlt, Option.some.injEq] at hs
    rw [← hs]
    exact hdecoded
  obtain ⟨out, hout, hall⟩ := exists_mapM_ok heach
  refine ⟨out, hdump.trans hout, ?_⟩
  rw [List.forall₂_iff_get] at hall ⊢
  refine ⟨List.length_range.symm.trans hall.1, ?_⟩
  intro i hi hi'
  have hi'' : i < (List.range rings.length).length := by rwa [List.length_range]
  refine hall.2 i hi'' hi' (rings.get ⟨i, hi⟩) ?_
  rw [List.get_eq_getElem, List.getElem_range, List.get_eq_getElem]
  exact List.getElem?_eq_getElem hi

end Segment

/-! ## Two runs -/

/-- A ring of records of one size, after it has wrapped. -/
def steady : Traced :=
  ((tracedMachine 128).runWhen (HistoryOk 128) ⟨freshRing, []⟩ wrapRun).getD ⟨freshRing, []⟩

/-- The dump of a segment with that ring. -/
theorem dump_lists_records_steady :
    let d := segmentBytes 128 1 [steady.ring.core.ring]
    ∃ out, dump d = .ok out ∧
      List.Forall₂ (fun s r => Decoded d s.ring.core.accepted s.ring.consumed.length r.records)
        [steady] out := by
  have hrun : (tracedMachine 128).ReachableWhen (HistoryOk 128) steady :=
    Machine.reachableWhen_run_getD (.start ⟨⟨fun _ => 0, rfl⟩, rfl⟩) (by decide +kernel)
  have hidle : steady.ring.core.producer = .idle := by decide +kernel
  refine dump_lists_records 128 1 ⟨7, by decide, by decide, rfl⟩ [steady] (by decide) ?_ ?_
  · intro s hs
    rw [List.mem_singleton.mp hs]
    exact hrun
  · intro s hs
    rw [List.mem_singleton.mp hs]
    exact hidle

/-- Two records, both consumed; then, in the next lap, two that end inside of the second one. -/
def rubbishRun : List RingAct :=
  emitLands (sampleRecord 0 0) ++ emitLands (sampleRecord 1 40) ++ consumeOne 0 ++ consumeOne 40 ++
    emitPadsLands (sampleRecord 2 0) ++ emitLands (sampleRecord 3 8)

/-- The ring after {lit}`rubbishRun`. -/
def rubbish : RingState := ((ringMachine 128).run freshRing rubbishRun).getD freshRing

/-- A listed record whose length is that of no committed one. -/
theorem not_decoded {d : Buffer} {accepted : List Emission} {taken : Nat} {recs : List Listed}
    {n : UInt32} (hn : n ∈ recs.map fun l => l.header.len)
    (hlen : ∀ e ∈ accepted, e.header.len ≠ n) : ¬Decoded d accepted taken recs := by
  rintro ⟨idx, -, hrecs, -⟩
  obtain ⟨l, hl, rfl⟩ := List.mem_map.mp hn
  obtain ⟨i, -, e, he, hheader, -⟩ := exists_right_of_forall₂ hrecs hl
  refine hlen e (List.mem_of_getElem? he) ?_
  rw [← hheader]

/-- What is listed of that ring: behind the two new records a third one, out of the payload of an
old record. -/
theorem dump_lists_rubbish : (ringMachine 128).Reachable rubbish ∧ rubbish.core.producer = .idle ∧
    ∃ r, dump (segmentBytes 128 1 [rubbish.core.ring]) = .ok [r] ∧
      ¬Decoded (segmentBytes 128 1 [rubbish.core.ring]) rubbish.core.accepted
        rubbish.consumed.length r.records := by
  refine ⟨Machine.reachable_run_getD (.start ⟨fun _ => 0, rfl⟩) (by decide +kernel),
    by decide +kernel, ?_⟩
  obtain ⟨out, hout, hlens⟩ := exists_ok_of_toOption
    (show (dump (segmentBytes 128 1 [rubbish.core.ring])).toOption.map
      (List.map fun r => r.records.map fun l => l.header.len) = some [[0, 8, 151587081]] by
        decide +kernel)
  obtain ⟨r, rfl, hr⟩ := List.map_eq_singleton_iff.mp hlens
  have hmem : (151587081 : UInt32) ∈ r.records.map fun l => l.header.len := by
    rw [hr]
    decide
  exact ⟨r, hout, not_decoded hmem (by decide +kernel)⟩

end Ring
end LiveSurface
