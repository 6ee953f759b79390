import LiveSurface.Config.Store
import LiveSurface.Library.Dict
import LiveSurface.Library.Except
import LiveSurface.Library.Hexadecimal
import LiveSurface.Library.Layout

/-!
# Configuration documents

The loader's client writes a document of eight fields as the body of a publication.  The store reads
the body with a structure of its own, and publishes its rows.

Main results:

- Theorem {lit}`readFields_spec`: what a document that is accepted says.
- Theorem {lit}`ofBody_encode`: the store reads back what was written.
- Theorem {lit}`sameCase_of_describes`: a body is of one document, but for the case of digits.
- Theorem {lit}`document_survives`: a publication is refused for the state of the store only.
-/

namespace LiveSurface
namespace Config

open Hexadecimal

/-! ## Documents -/

/-- A value of a document. -/
inductive Value
  | null
  | bool (b : Bool)
  | int (i : Int)
  | float (text : String)
  | str (s : String)
  | list (items : List Value)
  | object (entries : List (String × Value))

/-- A document is an object or another value. -/
inductive Document
  | object (fields : Dict String Value)
  | other (v : Value)

/-- The names that a document has to have. -/
def fieldNames : List String :=
  ["abi", "schema", "session", "instance", "expected_revision", "revision", "program_sha256", "rows"]

/-- What is read of a document. -/
structure Fields where
  abi : Nat
  schema : Nat
  session : Nat
  instanceId : Nat
  expectedRevision : Nat
  revision : Nat
  programSha256 : List UInt8
  rows : List (List UInt8)

/-! ## Writing a body -/

/-- An error if a condition does not hold. -/
def require (c : Prop) [Decidable c] (text : String) : Except String Unit :=
  if c then .ok () else .error text

/-- {lit}`integer`. -/
def integer (d : Dict String Value) (name : String) (low high : Nat) : Except String Nat :=
  match d.get? name with
  | some (.int i) =>
      if (low : Int) ≤ i ∧ i ≤ high then .ok i.toNat else .error ("invalid configuration " ++ name)
  | _ => .error ("invalid configuration " ++ name)

/-- {lit}`hexadecimal`. -/
def hexadecimal (size : Nat) (name : String) : Value → Except String (List UInt8)
  | .str s =>
      if s.toList.length ≠ size * 2 ∨ ∃ c ∈ s.toList, isDigit c = false then
        .error ("invalid configuration " ++ name)
      else .ok (fromHex s.toList)
  | _ => .error ("invalid configuration " ++ name)

/-- A field of a document with all names. -/
def fieldOf (d : Dict String Value) (name : String) : Value := (d.get? name).getD .null

/-- The rows of a document. -/
def rowsOf : Value → Except String (List (List UInt8))
  | .list items =>
      if items.length > 16 then .error "rows must be a list of at most 16 records"
      else items.mapM (hexadecimal 32 "row")
  | _ => .error "rows must be a list of at most 16 records"

/-- The checks of {lit}`config_body`, and what it finds. -/
def readFields : Document → Except String Fields
  | .other _ => .error
      ("configuration requires exactly: abi, expected_revision, instance, program_sha256, " ++
        "revision, rows, schema, session")
  | .object d => do
      require ((∀ name ∈ fieldNames, name ∈ d.entries.map Prod.fst) ∧
          ∀ name ∈ d.entries.map Prod.fst, name ∈ fieldNames)
        ("configuration requires exactly: abi, expected_revision, instance, program_sha256, " ++
          "revision, rows, schema, session")
      let abi ← integer d "abi" 1 1
      let schema ← integer d "schema" 1 0xffffffff
      let expected ← integer d "expected_revision" 0 0xffffffffffffffff
      let revision ← integer d "revision" 1 0xffffffffffffffff
      require (expected < revision) "revision must exceed expected_revision"
      let session ← hexadecimal 8 "session" (fieldOf d "session")
      let instanceId ← hexadecimal 8 "instance" (fieldOf d "instance")
      require (bigEndian session ≠ 0 ∧ bigEndian instanceId &&& 2 ^ 63 ≠ 0)
        "invalid session or instance"
      let sha ← hexadecimal 32 "program_sha256" (fieldOf d "program_sha256")
      let rows ← rowsOf (fieldOf d "rows")
      return {
        abi := abi
        schema := schema
        session := bigEndian session
        instanceId := bigEndian instanceId
        expectedRevision := expected
        revision := revision
        programSha256 := sha
        rows := rows }

/-- The words before the hash, with their widths. -/
def Fields.words (f : Fields) : List (Nat × Nat) :=
  [(4, f.abi), (4, f.schema), (8, f.session), (8, f.instanceId), (8, f.expectedRevision),
    (8, f.revision), (4, f.rows.length), (4, 0)]

/-- {lit}`struct.pack`, and the rows. -/
def Fields.encode (f : Fields) : List UInt8 :=
  Layout.pack f.words ++ f.programSha256 ++ f.rows.flatten

/-- {lit}`config_body`. -/
def configBody (document : Document) : Except String (List UInt8) :=
  (readFields document).map Fields.encode

/-! ## What a document says -/

/-- A token of digits, two for each byte. -/
structure IsToken (s : String) (size : Nat) : Prop where
  length : s.toList.length = 2 * size
  digits : ∀ c ∈ s.toList, isDigit c = true

/-- A value is a token of these bytes. -/
def TokenOf (size : Nat) (v : Value) (bs : List UInt8) : Prop :=
  ∃ s, v = .str s ∧ IsToken s size ∧ bs = fromHex s.toList

/-- What a document says. -/
structure Describes (d : Dict String Value) (f : Fields) : Prop where
  names : ∀ name, (∃ v, d.get? name = some v) ↔ name ∈ fieldNames
  abi : d.get? "abi" = some (.int f.abi)
  schema : d.get? "schema" = some (.int f.schema)
  session : ∃ s, d.get? "session" = some (.str s) ∧ IsToken s 8 ∧ f.session = number s.toList
  instanceId : ∃ s, d.get? "instance" = some (.str s) ∧ IsToken s 8 ∧
    f.instanceId = number s.toList
  expectedRevision : d.get? "expected_revision" = some (.int f.expectedRevision)
  revision : d.get? "revision" = some (.int f.revision)
  programSha256 : ∃ v, d.get? "program_sha256" = some v ∧ TokenOf 32 v f.programSha256
  rows : ∃ items, d.get? "rows" = some (.list items) ∧
    List.Forall₂ (TokenOf 32) items f.rows

/-- The bounds of what is read. -/
structure Fields.Ok (f : Fields) : Prop where
  abi : f.abi = 1
  schema : 1 ≤ f.schema ∧ f.schema < 2 ^ 32
  session : f.session ≠ 0 ∧ f.session < 2 ^ 64
  instanceId : f.instanceId < 2 ^ 64
  expectedRevision : f.expectedRevision < f.revision
  revision : f.revision < 2 ^ 64
  programSha256 : f.programSha256.length = 32
  rows : f.rows.length ≤ 16 ∧ ∀ row ∈ f.rows, row.length = 32

section Spec

variable {d : Dict String Value}

theorem require_ok {c : Prop} [Decidable c] {text : String} {u : Unit}
    (h : require c text = .ok u) : c := by
  unfold require at h
  split at h
  · assumption
  · contradiction

theorem integer_ok {name : String} {low high n : Nat} (h : integer d name low high = .ok n) :
    d.get? name = some (.int n) ∧ low ≤ n ∧ n ≤ high := by
  unfold integer at h
  split at h
  · rename_i i hi
    split at h
    · rename_i hbounds
      have hn : (i.toNat : Int) = i := Int.toNat_of_nonneg (by omega)
      obtain rfl := Except.ok.inj h
      rw [hn]
      exact ⟨hi, by omega, by omega⟩
    · contradiction
  · contradiction

theorem hexadecimal_ok {size : Nat} {name : String} {v : Value} {bs : List UInt8}
    (h : hexadecimal size name v = .ok bs) : TokenOf size v bs := by
  unfold hexadecimal at h
  split at h
  · rename_i s
    split at h
    · contradiction
    · rename_i hok
      rw [not_or, not_not] at hok
      refine ⟨s, rfl, ⟨by omega, fun c hc => ?_⟩, (Except.ok.inj h).symm⟩
      by_contra hno
      exact hok.2 ⟨c, hc, Bool.eq_false_of_not_eq_true hno⟩
  · contradiction

theorem TokenOf.length {size : Nat} {v : Value} {bs : List UInt8} (h : TokenOf size v bs) :
    bs.length = size := by
  obtain ⟨s, -, hs, rfl⟩ := h
  exact length_fromHex hs.length

theorem rowsOf_ok {v : Value} {rows : List (List UInt8)} (h : rowsOf v = .ok rows) :
    ∃ items, v = .list items ∧ List.Forall₂ (TokenOf 32) items rows ∧ rows.length ≤ 16 ∧
      ∀ row ∈ rows, row.length = 32 := by
  unfold rowsOf at h
  split at h
  · rename_i items
    split at h
    · contradiction
    · rename_i hlength
      have hall : List.Forall₂ (TokenOf 32) items rows :=
        (forall₂_of_mapM h).imp fun _ _ hitem => hexadecimal_ok hitem
      refine ⟨items, rfl, hall, ?_, fun row hrow => ?_⟩
      · rw [← hall.length_eq]
        omega
      · obtain ⟨item, -, hitem⟩ := exists_left_of_forall₂ hall hrow
        exact hitem.length
  · contradiction

/-- A number of 64 bits, written in digits. -/
theorem bigEndian_token {v : Value} {bs : List UInt8} (h : TokenOf 8 v bs) :
    (∃ s, v = .str s ∧ IsToken s 8 ∧ bigEndian bs = number s.toList) ∧ bigEndian bs < 2 ^ 64 := by
  have hlength := h.length
  obtain ⟨s, rfl, hs, rfl⟩ := h
  refine ⟨⟨s, rfl, hs, bigEndian_fromHex hs.length hs.digits⟩, ?_⟩
  have hlt := bigEndian_lt (fromHex s.toList)
  rwa [hlength] at hlt

/-- What a document that is accepted says. -/
theorem readFields_spec {document : Document} {f : Fields} (h : readFields document = .ok f) :
    ∃ d, document = .object d ∧ Describes d f ∧ f.Ok := by
  unfold readFields at h
  split at h
  · contradiction
  · rename_i d
    obtain ⟨_, hnames, h⟩ := bind_eq_ok_iff.mp h
    obtain ⟨abi, habi, h⟩ := bind_eq_ok_iff.mp h
    obtain ⟨schema, hschema, h⟩ := bind_eq_ok_iff.mp h
    obtain ⟨expected, hexpected, h⟩ := bind_eq_ok_iff.mp h
    obtain ⟨revision, hrevision, h⟩ := bind_eq_ok_iff.mp h
    obtain ⟨_, hnewer, h⟩ := bind_eq_ok_iff.mp h
    obtain ⟨session, hsession, h⟩ := bind_eq_ok_iff.mp h
    obtain ⟨instanceId, hinstance, h⟩ := bind_eq_ok_iff.mp h
    obtain ⟨_, hset, h⟩ := bind_eq_ok_iff.mp h
    obtain ⟨sha, hsha, h⟩ := bind_eq_ok_iff.mp h
    obtain ⟨rows, hrows, h⟩ := bind_eq_ok_iff.mp h
    obtain rfl := Except.ok.inj h
    have hkeys := require_ok hnames
    have hget : ∀ name, (∃ v, d.get? name = some v) ↔ name ∈ d.entries.map Prod.fst := by
      intro name
      rw [← Option.isSome_iff_exists, ← Option.ne_none_iff_isSome, Ne, Dict.get?_eq_none_iff,
        not_not]
    have hfield : ∀ name ∈ fieldNames, d.get? name = some (fieldOf d name) := by
      intro name hname
      obtain ⟨v, hv⟩ := (hget name).mpr (hkeys.1 name hname)
      rw [fieldOf, hv, Option.getD_some]
    obtain ⟨habi, hone⟩ := integer_ok habi
    obtain ⟨hschema, hschemas⟩ := integer_ok hschema
    obtain ⟨hexpected, hexpecteds⟩ := integer_ok hexpected
    obtain ⟨hrevision, hrevisions⟩ := integer_ok hrevision
    have hnewer := require_ok hnewer
    have hset := require_ok hset
    obtain ⟨⟨s, hs, hstoken, hsnumber⟩, hslt⟩ := bigEndian_token (hexadecimal_ok hsession)
    obtain ⟨⟨t, ht, httoken, htnumber⟩, htlt⟩ := bigEndian_token (hexadecimal_ok hinstance)
    have hsha := hexadecimal_ok hsha
    obtain ⟨items, hitems, hall, hrowslength, hrowlength⟩ := rowsOf_ok hrows
    refine ⟨d, rfl, ?_, ?_⟩
    · exact {
        names := fun name => (hget name).trans ⟨hkeys.2 name, hkeys.1 name⟩
        abi := habi
        schema := hschema
        session := ⟨s, by rw [← hs]; exact hfield _ (by decide), hstoken, hsnumber⟩
        instanceId := ⟨t, by rw [← ht]; exact hfield _ (by decide), httoken, htnumber⟩
        expectedRevision := hexpected
        revision := hrevision
        programSha256 := ⟨_, hfield _ (by decide), hsha⟩
        rows := ⟨items, by rw [← hitems]; exact hfield _ (by decide), hall⟩ }
    · exact {
        abi := Nat.le_antisymm hone.2 hone.1
        schema := ⟨hschemas.1, Nat.lt_succ_of_le hschemas.2⟩
        session := ⟨hset.1, hslt⟩
        instanceId := htlt
        expectedRevision := hnewer
        revision := Nat.lt_succ_of_le hrevisions.2
        programSha256 := hsha.length
        rows := ⟨hrowslength, hrowlength⟩ }

end Spec

/-! ## Reading the body -/

/-- The store reads what is described. -/
structure ReadsBack (r : LsConfigRequest) (f : Fields) : Prop where
  abi : r.abi = lsConfigAbi
  schema : r.schema.toNat = f.schema
  session : r.session.toNat = f.session
  instanceId : r.instanceId.toNat = f.instanceId
  expectedRevision : r.expectedRevision.toNat = f.expectedRevision
  revision : r.revision.toNat = f.revision
  entries : r.entries.toNat = f.rows.length
  reserved : r.reserved = 0
  programSha256 : r.programSha256 = f.programSha256
  rows : r.rows = f.rows.flatten ++ List.replicate (512 - 32 * f.rows.length) 0

/-- What the store makes of a request for the sake of its own state. -/
def stateVerdict (s : LsConfigStore) (slot : Nat) (r : LsConfigRequest) :
    Option String × LsConfigStore :=
  let dst := s.slots slot
  if s.session = 0 ∨ r.session ≠ s.session then (some "config session mismatch", s)
  else if dst.current.instanceId = 0 ∨ r.instanceId ≠ dst.current.instanceId ∨
      r.programSha256 ≠ dst.programSha256 then
    (some "config program instance/hash mismatch", s)
  else if r.expectedRevision ≠ dst.current.revision then (some "config revision conflict", s)
  else if Writable dst then (none, s.setSlot slot (written dst (publishedImage r)))
  else (some "config sequence exhausted", s)

section Rows

variable {n : Nat} {rows : List (List UInt8)}

theorem length_flatten_rows (h : ∀ row ∈ rows, row.length = n) :
    rows.flatten.length = n * rows.length := by
  induction rows with
  | nil => rfl
  | cons row rows ih =>
      rw [List.forall_mem_cons] at h
      rw [List.flatten_cons, List.length_append, h.1, ih h.2, List.length_cons, Nat.mul_succ,
        Nat.add_comm]

/-- Rows of one length are found by their number. -/
theorem take_drop_flatten_rows (h : ∀ row ∈ rows, row.length = n) (rest : List UInt8) {i : Nat}
    (hi : i < rows.length) : ((rows.flatten ++ rest).drop (n * i)).take n = rows[i] := by
  induction rows generalizing i with
  | nil => contradiction
  | cons row rows ih =>
      rw [List.forall_mem_cons] at h
      rw [List.flatten_cons, List.append_assoc]
      cases i with
      | zero =>
          rw [Nat.mul_zero, List.drop_zero, List.take_left' h.1]
          rfl
      | succ i =>
          rw [Nat.mul_succ, Nat.add_comm, ← List.drop_drop, List.drop_left' h.1]
          exact ih h.2 (Nat.lt_of_succ_lt_succ hi)

end Rows

section Reading

variable {f : Fields}

theorem Fields.Ok.fits (h : f.Ok) : Layout.Fits f.words := by
  have habi := h.abi
  have hschema := h.schema
  have hsession := h.session
  have hinstance := h.instanceId
  have hnewer := h.expectedRevision
  have hrevision := h.revision
  have hrows := h.rows.1
  simp only [Layout.Fits, Fields.words, List.forall_mem_cons]
  refine ⟨?_, ?_, ?_, ?_, ?_, ?_, ?_, ?_, fun _ hmem => absurd hmem List.not_mem_nil⟩ <;> omega

theorem Fields.Ok.length_flatten (h : f.Ok) : f.rows.flatten.length = 32 * f.rows.length :=
  length_flatten_rows h.rows.2

theorem Fields.Ok.length_encode (h : f.Ok) : f.encode.length = 80 + 32 * f.rows.length := by
  rw [Fields.encode, List.length_append, List.length_append, h.length_flatten, h.programSha256,
    Layout.length_pack]
  simp [Fields.words]

/-- The store reads back what was written. -/
theorem ofBody_encode (h : f.Ok) : ReadsBack (LsConfigRequest.ofBody f.encode) f := by
  have hrows := h.rows.1
  have hraw : requestBytes f.encode = Layout.pack f.words ++ (f.programSha256 ++
      (f.rows.flatten ++ List.replicate (512 - 32 * f.rows.length) 0)) := by
    rw [requestBytes, h.length_encode, Fields.encode, lsConfigRequestSize, List.append_assoc,
      List.append_assoc]
    congr 4
    omega
  have hwords := Layout.unpack_pack_of_fits h.fits (f.programSha256 ++
    (f.rows.flatten ++ List.replicate (512 - 32 * f.rows.length) 0))
  rw [← hraw] at hwords
  have hrest : (requestBytes f.encode).drop 48 = f.programSha256 ++
      (f.rows.flatten ++ List.replicate (512 - 32 * f.rows.length) 0) := by
    rw [hraw]
    exact List.drop_left' (by rw [Layout.length_pack]; rfl)
  have hdata : (requestBytes f.encode).drop 80 =
      f.rows.flatten ++ List.replicate (512 - 32 * f.rows.length) 0 := by
    have hskip := congrArg (List.drop 32) hrest
    rwa [List.drop_drop, List.drop_left' h.programSha256] at hskip
  simp only [Fields.words, List.map_cons, List.map_nil, Layout.unpack, List.drop_drop,
    List.cons.injEq, and_true] at hwords
  obtain ⟨habi, hschema, hsession, hinstance, hexpected, hrevision, hentries, hreserved⟩ := hwords
  have h32 : ∀ {off x : Nat}, ofLittleEndian (((requestBytes f.encode).drop off).take 4) = x →
      x < 2 ^ 32 → (field32 (requestBytes f.encode) off).toNat = x := by
    intro off x hx hlt
    rw [field32, hx, UInt32.toNat_ofNat', Nat.mod_eq_of_lt hlt]
  have h64 : ∀ {off x : Nat}, ofLittleEndian (((requestBytes f.encode).drop off).take 8) = x →
      x < 2 ^ 64 → (field64 (requestBytes f.encode) off).toNat = x := by
    intro off x hx hlt
    rw [field64, hx, UInt64.toNat_ofNat', Nat.mod_eq_of_lt hlt]
  have hnewer := h.expectedRevision
  exact {
    abi := by
      have hone : (field32 (requestBytes f.encode) 0).toNat = 1 :=
        h32 (by rw [List.drop_zero, habi, h.abi]) (by decide)
      exact UInt32.toNat_inj.mp hone
    schema := h32 hschema h.schema.2
    session := h64 hsession h.session.2
    instanceId := h64 hinstance h.instanceId
    expectedRevision := h64 hexpected (Nat.lt_trans hnewer h.revision)
    revision := h64 hrevision h.revision
    entries := h32 hentries (by omega)
    reserved := by
      rw [← UInt32.toNat_inj]
      exact h32 hreserved (by decide)
    programSha256 := by
      change ((requestBytes f.encode).drop 48).take 32 = f.programSha256
      rw [hrest, List.take_left' h.programSha256]
    rows := by
      change ((requestBytes f.encode).drop 80).take (lsConfigRows * lsConfigValueSize) = _
      rw [hdata, List.take_of_length_le]
      rw [List.length_append, h.length_flatten, List.length_replicate]
      simp only [lsConfigRows, lsConfigValueSize]
      omega }

/-- The rows of the image: those of the document, and then zeros. -/
theorem publishedRows_eq {r : LsConfigRequest} (h : f.Ok) (hr : ReadsBack r f) :
    publishedRows r = f.rows.flatten ++ List.replicate (512 - 32 * f.rows.length) 0 := by
  have hrows := h.rows.1
  have hlength := h.length_flatten
  have hdata : r.rows.take (r.entries.toNat * lsConfigValueSize) = f.rows.flatten := by
    rw [hr.rows, hr.entries]
    exact List.take_left' (by rw [hlength, lsConfigValueSize, Nat.mul_comm])
  rw [publishedRows, hdata, List.take_of_length_le, hlength]
  · rfl
  · rw [hlength]
    simp only [lsConfigRows, lsConfigValueSize]
    omega

/-- A body of a document is refused for what the store holds. -/
theorem lsConfigPublish_encode (h : f.Ok) (s : LsConfigStore) {slot : Nat}
    (hslot : slot < lsConfigSlots) :
    lsConfigPublish s slot (some f.encode) =
      stateVerdict s slot (LsConfigRequest.ofBody f.encode) := by
  have hr := ofBody_encode h
  have hrows := h.rows.1
  have hlength := h.length_encode
  have hrange : ¬(slot ≥ lsConfigSlots ∨ f.encode.length < lsConfigRequestHeader ∨
      f.encode.length > lsConfigRequestSize) := by
    simp only [lsConfigRequestHeader, lsConfigRequestSize]
    omega
  have hschema : (LsConfigRequest.ofBody f.encode).schema ≠ 0 := by
    intro hzero
    have hschema := hr.schema
    rw [hzero] at hschema
    exact absurd h.schema.1 (by rw [← hschema]; decide)
  have hshape : ¬((LsConfigRequest.ofBody f.encode).abi ≠ lsConfigAbi ∨
      (LsConfigRequest.ofBody f.encode).reserved ≠ 0 ∨
      (LsConfigRequest.ofBody f.encode).schema = 0 ∨
      (LsConfigRequest.ofBody f.encode).entries.toNat > lsConfigRows ∨
      f.encode.length ≠ lsConfigRequestHeader +
        (LsConfigRequest.ofBody f.encode).entries.toNat * lsConfigValueSize) := by
    rw [hr.entries, hlength]
    simp only [lsConfigRequestHeader, lsConfigValueSize, lsConfigRows]
    rintro (habi | hreserved | hzero | hmany | hbad)
    · exact habi hr.abi
    · exact hreserved hr.reserved
    · exact hschema hzero
    · omega
    · omega
  have hnewer : ¬(LsConfigRequest.ofBody f.encode).revision ≤
      (LsConfigRequest.ofBody f.encode).expectedRevision := by
    rw [UInt64.le_iff_toNat_le, hr.revision, hr.expectedRevision]
    exact Nat.not_le.mpr h.expectedRevision
  unfold lsConfigPublish lsConfigPublishCheck stateVerdict
  dsimp only
  rw [if_neg hrange, if_neg hshape]
  by_cases hsession : s.session = 0 ∨ (LsConfigRequest.ofBody f.encode).session ≠ s.session
  · rw [if_pos hsession, if_pos hsession]
  rw [if_neg hsession, if_neg hsession]
  by_cases hinstance : (s.slots slot).current.instanceId = 0 ∨
      (LsConfigRequest.ofBody f.encode).instanceId ≠ (s.slots slot).current.instanceId ∨
      (LsConfigRequest.ofBody f.encode).programSha256 ≠ (s.slots slot).programSha256
  · rw [if_pos hinstance, if_pos hinstance]
  rw [if_neg hinstance, if_neg hinstance]
  by_cases hexpected : (LsConfigRequest.ofBody f.encode).expectedRevision ≠
      (s.slots slot).current.revision
  · rw [if_pos (Or.inl hexpected), if_pos hexpected]
  rw [if_neg (not_or.mpr ⟨hexpected, hnewer⟩), if_neg hexpected]
  dsimp only
  by_cases hw : Writable (s.slots slot)
  · rw [if_pos hw, lsConfigWrite_of_writable hw]
  · rw [if_neg hw, lsConfigWrite_of_not_writable hw]

end Reading

/-! ## Equal bodies -/

/-- Values that differ in the case of texts only. -/
inductive SameCase : Value → Value → Prop
  | int (i : Int) : SameCase (.int i) (.int i)
  | str {s t : String} (lower_eq : lower s.toList = lower t.toList) : SameCase (.str s) (.str t)
  | list {xs ys : List Value} (items : List.Forall₂ SameCase xs ys) : SameCase (.list xs) (.list ys)

/-- Objects with the same names, and values that differ in the case of texts only. -/
def SameFields (d d' : Dict String Value) : Prop :=
  ∀ name, Option.Rel SameCase (d.get? name) (d'.get? name)

section Same

variable {d d' : Dict String Value} {f f' : Fields}

theorem sameCase_of_tokenOf {size : Nat} {v w : Value} {bs : List UInt8} (hv : TokenOf size v bs)
    (hw : TokenOf size w bs) : SameCase v w := by
  obtain ⟨s, rfl, hs, hbs⟩ := hv
  obtain ⟨t, rfl, ht, hbt⟩ := hw
  exact .str (lower_eq_of_fromHex hs.length ht.length hs.digits ht.digits (hbs.symm.trans hbt))

theorem lower_eq_of_number {s t : String} (hs : IsToken s 8) (ht : IsToken t 8)
    (h : number s.toList = number t.toList) : lower s.toList = lower t.toList := by
  rw [← bigEndian_fromHex hs.length hs.digits, ← bigEndian_fromHex ht.length ht.digits] at h
  refine lower_eq_of_fromHex hs.length ht.length hs.digits ht.digits (bigEndian_inj ?_ h)
  rw [length_fromHex hs.length, length_fromHex ht.length]

/-- Fields are of one document, but for the case of digits. -/
theorem sameFields_of_describes (h : Describes d f) (h' : Describes d' f) : SameFields d d' := by
  have hsome : ∀ {name : String} {v w : Value}, d.get? name = some v → d'.get? name = some w →
      SameCase v w → Option.Rel SameCase (d.get? name) (d'.get? name) := by
    intro name v w hv hw hsame
    rw [hv, hw]
    exact .some hsame
  intro name
  by_cases hname : name ∈ fieldNames
  · simp only [fieldNames, List.mem_cons, List.not_mem_nil, or_false] at hname
    rcases hname with rfl | rfl | rfl | rfl | rfl | rfl | rfl | rfl
    · exact hsome h.abi h'.abi (.int _)
    · exact hsome h.schema h'.schema (.int _)
    · obtain ⟨s, hs, hstoken, hsnumber⟩ := h.session
      obtain ⟨t, ht, httoken, htnumber⟩ := h'.session
      exact hsome hs ht (.str (lower_eq_of_number hstoken httoken (hsnumber.symm.trans htnumber)))
    · obtain ⟨s, hs, hstoken, hsnumber⟩ := h.instanceId
      obtain ⟨t, ht, httoken, htnumber⟩ := h'.instanceId
      exact hsome hs ht (.str (lower_eq_of_number hstoken httoken (hsnumber.symm.trans htnumber)))
    · exact hsome h.expectedRevision h'.expectedRevision (.int _)
    · exact hsome h.revision h'.revision (.int _)
    · obtain ⟨v, hv, hvtoken⟩ := h.programSha256
      obtain ⟨w, hw, hwtoken⟩ := h'.programSha256
      exact hsome hv hw (sameCase_of_tokenOf hvtoken hwtoken)
    · obtain ⟨xs, hxs, hxall⟩ := h.rows
      obtain ⟨ys, hys, hyall⟩ := h'.rows
      refine hsome hxs hys (.list ?_)
      exact forall₂_of_common hxall hyall fun v w row hv hw => sameCase_of_tokenOf hv hw
  · have hnone : ∀ {e : Dict String Value}, Describes e f → e.get? name = none := by
      intro e he
      rw [Option.eq_none_iff_forall_ne_some]
      exact fun v hv => hname ((he.names name).mp ⟨v, hv⟩)
    rw [hnone h, hnone h']
    exact .none

/-- A body is of one set of fields. -/
theorem encode_inj (h : f.Ok) (h' : f'.Ok) (heq : f.encode = f'.encode) : f = f' := by
  have hr := ofBody_encode h
  have hr' := ofBody_encode h'
  rw [← heq] at hr'
  have hlength : f.rows.length = f'.rows.length := hr.entries.symm.trans hr'.entries
  have hflatten : f.rows.flatten = f'.rows.flatten := by
    have hrows := hr.rows.symm.trans hr'.rows
    rw [hlength] at hrows
    exact List.append_cancel_right hrows
  have hrows : f.rows = f'.rows := by
    refine List.ext_getElem hlength fun i hi hi' => ?_
    rw [← take_drop_flatten_rows h.rows.2 [] hi, ← take_drop_flatten_rows h'.rows.2 [] hi', hflatten]
  cases f
  cases f'
  simp only [Fields.mk.injEq]
  exact ⟨h.abi.trans h'.abi.symm, hr.schema.symm.trans hr'.schema,
    hr.session.symm.trans hr'.session, hr.instanceId.symm.trans hr'.instanceId,
    hr.expectedRevision.symm.trans hr'.expectedRevision, hr.revision.symm.trans hr'.revision,
    hr.programSha256.symm.trans hr'.programSha256, hrows⟩

end Same

/-- The body of a document is read back as the document says, it is refused for the state of the
store only, the rows of its image are the document's and then zeros, and it is of no other document,
but for the case of digits. -/
theorem document_survives {document : Document} {body : List UInt8}
    (h : configBody document = .ok body) :
    ∃ d f, document = .object d ∧ Describes d f ∧ ReadsBack (LsConfigRequest.ofBody body) f ∧
      (∀ (s : LsConfigStore) (slot : Nat), slot < lsConfigSlots →
        lsConfigPublish s slot (some body) = stateVerdict s slot (LsConfigRequest.ofBody body)) ∧
      (∀ i (hi : i < f.rows.length),
        ((publishedImage (LsConfigRequest.ofBody body)).rows.drop (32 * i)).take 32 = f.rows[i]) ∧
      (publishedImage (LsConfigRequest.ofBody body)).rows.drop (32 * f.rows.length) =
        List.replicate (512 - 32 * f.rows.length) 0 ∧
      ∀ document', configBody document' = .ok body →
        ∃ d', document' = .object d' ∧ SameFields d d' := by
  obtain ⟨f, hf, rfl⟩ := map_eq_ok_iff.mp h
  obtain ⟨d, rfl, hdescribes, hok⟩ := readFields_spec hf
  have hr := ofBody_encode hok
  have hrows : (publishedImage (LsConfigRequest.ofBody f.encode)).rows =
      f.rows.flatten ++ List.replicate (512 - 32 * f.rows.length) 0 := publishedRows_eq hok hr
  refine ⟨d, f, rfl, hdescribes, hr, fun s slot hslot => lsConfigPublish_encode hok s hslot, ?_, ?_,
    ?_⟩
  · intro i hi
    rw [hrows]
    exact take_drop_flatten_rows hok.rows.2 _ hi
  · rw [hrows]
    exact List.drop_left' hok.length_flatten
  · intro document' h'
    obtain ⟨f', hf', heq⟩ := map_eq_ok_iff.mp h'
    obtain ⟨d', rfl, hdescribes', hok'⟩ := readFields_spec hf'
    obtain rfl := encode_inj hok hok' heq.symm
    exact ⟨d', rfl, sameFields_of_describes hdescribes hdescribes'⟩

/-- A document with one row. -/
def sampleDocument : Document :=
  .object ((((((((Dict.empty.set "abi" (.int 1)).set "schema" (.int 7)).set "session"
    (.str "00000000000000aB")).set "instance" (.str "8000000000000045")).set "expected_revision"
    (.int 0)).set "revision" (.int 1)).set "program_sha256"
    (.str (String.ofList (List.replicate 64 'c')))).set "rows"
    (.list [.str (String.ofList (List.replicate 64 'D'))]))

/-- Its body is 112 bytes, and every store reads it back as the document says. -/
theorem sampleDocument_survives : ∃ body d f, configBody sampleDocument = .ok body ∧
    body.length = 112 ∧ sampleDocument = .object d ∧ Describes d f ∧
      ReadsBack (LsConfigRequest.ofBody body) f ∧ ∀ s : LsConfigStore, s.session = 0 →
        (lsConfigPublish s 5 (some body)).1 = some "config session mismatch" := by
  have hlength : (configBody sampleDocument).toOption.map List.length = some 112 := by
    decide +kernel
  obtain ⟨body, hbody, hlength⟩ := Option.map_eq_some_iff.mp hlength
  have hok : configBody sampleDocument = .ok body := by
    cases hresult : configBody sampleDocument with
    | error text =>
        rw [hresult] at hbody
        exact nomatch hbody
    | ok body' =>
        rw [hresult] at hbody
        exact congrArg Except.ok (Option.some.inj hbody)
  obtain ⟨d, f, hd, hdescribes, hr, hpublish, -⟩ := document_survives hok
  refine ⟨body, d, f, hok, hlength, hd, hdescribes, hr, fun s hs => ?_⟩
  rw [hpublish s 5 (by decide), stateVerdict, if_pos (Or.inl hs)]

end Config
end LiveSurface
