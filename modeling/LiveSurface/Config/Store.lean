import LiveSurface.Library.Bytes
import Mathlib.Logic.Function.Basic

/-!
# The configuration store

Controller input reaches a program through a store of 64 slots.  A slot holds
one image: a metadata row and sixteen data rows of 32 bytes, kept as 68 words
under a sequence counter.  The control path owns the slot's current metadata
and the hash of the program bound to it; the data path reads the words.

The sequence and the instance counter are natural numbers here.  Each function
that advances one of them first checks that the 64-bit counter cannot wrap.

Main results:

- Theorem {lit}`LsConfigImage.length_bytes`: an image occupies 544 bytes.
- Theorem {lit}`LsConfigImage.littleEndian_word`: the words of an image are its
  bytes, eight at a time.
- Theorem {lit}`lsConfigPublish_eq_none_iff`: a publication is accepted exactly
  when its request passes every check and the sequence can advance.
-/

namespace LiveSurface
namespace Config

/-! ## Layout -/

def lsConfigAbi : UInt32 := 1
def lsConfigSlots : Nat := 64
def lsConfigRows : Nat := 16
def lsConfigValueSize : Nat := 32
def lsConfigWords : Nat := 68
def lsConfigRequestHeader : Nat := 80

/-- Size of the wire request structure, rows included. -/
def lsConfigRequestSize : Nat := 592

/-- The bit that marks a configuration handle. -/
def lsConfigHandleBit : Nat := 2 ^ 63

/-- Largest value of a 64-bit counter. -/
def uint64Max : Nat := 2 ^ 64 - 1

/-- The metadata row, which a program sees at array index 0. -/
structure LsConfigMeta where
  revision : UInt64
  instanceId : UInt64
  schema : UInt32
  entries : UInt32
  reserved : UInt64
deriving DecidableEq

/-- One image.  The sixteen data rows are stored contiguously. -/
structure LsConfigImage where
  metadata : LsConfigMeta
  rows : List UInt8
  rows_length : rows.length = lsConfigRows * lsConfigValueSize

/-- The metadata row as it is laid out in memory. -/
def LsConfigMeta.bytes (m : LsConfigMeta) : List UInt8 :=
  littleEndian 8 m.revision.toNat ++ littleEndian 8 m.instanceId.toNat ++
    littleEndian 4 m.schema.toNat ++ littleEndian 4 m.entries.toNat ++
    littleEndian 8 m.reserved.toNat

/-- The 544 bytes of an image. -/
def LsConfigImage.bytes (image : LsConfigImage) : List UInt8 :=
  image.metadata.bytes ++ image.rows

/-- The word that the writer's loop copies out at index {lit}`i`. -/
def LsConfigImage.word (image : LsConfigImage) (i : Nat) : Nat :=
  ofLittleEndian ((image.bytes.drop (8 * i)).take 8)

@[simp]
theorem LsConfigMeta.length_bytes (m : LsConfigMeta) : m.bytes.length = 32 := by
  simp [LsConfigMeta.bytes]

@[simp]
theorem LsConfigImage.length_bytes (image : LsConfigImage) :
    image.bytes.length = 544 := by
  simp [LsConfigImage.bytes, image.rows_length, lsConfigRows, lsConfigValueSize]

/-- Copying a word back byte by byte gives the image's own bytes. -/
theorem LsConfigImage.littleEndian_word (image : LsConfigImage) {i : Nat}
    (hi : i < lsConfigWords) :
    littleEndian 8 (image.word i) = (image.bytes.drop (8 * i)).take 8 := by
  have hlen : ((image.bytes.drop (8 * i)).take 8).length = 8 := by
    simp only [List.length_take, List.length_drop, LsConfigImage.length_bytes]
    simp only [lsConfigWords] at hi
    omega
  have hround := littleEndian_ofLittleEndian ((image.bytes.drop (8 * i)).take 8)
  rwa [hlen] at hround

/-- A zeroed structure. -/
def LsConfigMeta.zero : LsConfigMeta :=
  { revision := 0, instanceId := 0, schema := 0, entries := 0, reserved := 0 }

/-- The all-zero image that a bind or a revoke starts from. -/
def LsConfigImage.empty : LsConfigImage where
  metadata := .zero
  rows := List.replicate (lsConfigRows * lsConfigValueSize) 0
  rows_length := by simp

/-- One slot.  {lit}`current` and {lit}`programSha256` belong to the control
path and are never read by a program. -/
structure LsConfigSlot where
  sequence : Nat
  words : Nat → Nat
  current : LsConfigMeta
  programSha256 : List UInt8

/-- The store, with the session and instance counters of the control path. -/
structure LsConfigStore where
  session : UInt64
  nextInstance : Nat
  loading : UInt64
  slots : Nat → LsConfigSlot

/-- A zero-initialised slot. -/
def LsConfigSlot.zero : LsConfigSlot where
  sequence := 0
  words := fun _ => 0
  current := .zero
  programSha256 := List.replicate 32 0

/-- The store at start-up, for whichever session the loader chose. -/
def LsConfigStore.initial (session : UInt64) : LsConfigStore where
  session := session
  nextInstance := 0
  loading := 0
  slots := fun _ => .zero

/-- Replace one slot. -/
def LsConfigStore.setSlot (s : LsConfigStore) (slot : Nat) (dst : LsConfigSlot) :
    LsConfigStore :=
  { s with slots := Function.update s.slots slot dst }

@[simp]
theorem LsConfigStore.setSlot_same (s : LsConfigStore) (slot : Nat)
    (dst : LsConfigSlot) : (s.setSlot slot dst).slots slot = dst := by
  simp [LsConfigStore.setSlot]

theorem LsConfigStore.setSlot_other (s : LsConfigStore) {slot other : Nat}
    (dst : LsConfigSlot) (hne : other ≠ slot) :
    (s.setSlot slot dst).slots other = s.slots other := by
  simp [LsConfigStore.setSlot, hne]

@[simp]
theorem LsConfigStore.setSlot_setSlot (s : LsConfigStore) (slot : Nat)
    (dst dst' : LsConfigSlot) : (s.setSlot slot dst).setSlot slot dst' = s.setSlot slot dst' := by
  simp [LsConfigStore.setSlot]

/-! ## Instances and writes -/

/-- Whether a value carries the handle bit. -/
def isHandle (handle : UInt64) : Bool :=
  handle.toNat &&& lsConfigHandleBit != 0

/-- Issue a fresh instance token for a slot; {lit}`0` is a refusal. -/
def lsConfigNewInstance (s : LsConfigStore) (slot : Nat) : UInt64 × LsConfigStore :=
  if slot ≥ lsConfigSlots ∨ s.nextInstance ≥ (lsConfigHandleBit >>> 6) - 1 then
    (0, s)
  else
    let next := s.nextInstance + 1
    (UInt64.ofNat (lsConfigHandleBit ||| (next <<< 6) ||| slot),
      { s with nextInstance := next })

/-- Store an image under the sequence counter.  The writer refuses a slot that
is mid-write or whose counter would wrap. -/
def lsConfigWrite (s : LsConfigSlot) (image : LsConfigImage) : Option LsConfigSlot :=
  let seq := s.sequence
  if seq % 2 = 1 ∨ seq > uint64Max - 2 then
    none
  else
    some
      { s with
        sequence := seq + 2
        words := fun i => if i < lsConfigWords then image.word i else s.words i
        current := image.metadata }

/-- The image a bind stores: empty, and marked with its instance. -/
def boundImage (instanceId : UInt64) : LsConfigImage :=
  { LsConfigImage.empty with
    metadata := { LsConfigMeta.zero with instanceId := instanceId } }

/-- Whether {lit}`lsConfigBind` accepts its slot and token. -/
def bindAllowed (slot : Nat) (instanceId : UInt64) : Bool :=
  decide (slot < lsConfigSlots) && isHandle instanceId &&
    decide (instanceId.toNat &&& 63 = slot)

/-- Attach a loaded program instance to its slot; {lit}`false` is a refusal. -/
def lsConfigBind (s : LsConfigStore) (slot : Nat) (instanceId : UInt64)
    (sha : List UInt8) : Bool × LsConfigStore :=
  if !bindAllowed slot instanceId then
    (false, s)
  else
    match lsConfigWrite (s.slots slot) (boundImage instanceId) with
    | none => (false, s)
    | some dst => (true, s.setSlot slot { dst with programSha256 := sha })

/-- Withdraw a slot's image and its instance; {lit}`false` is a refusal. -/
def lsConfigRevoke (s : LsConfigStore) (slot : Nat) : Bool × LsConfigStore :=
  if slot ≥ lsConfigSlots then
    (false, s)
  else
    match lsConfigWrite (s.slots slot) .empty with
    | none => (false, s)
    | some dst => (true, s.setSlot slot dst)

/-! ## Publication requests -/

/-- The wire body of a publication. -/
structure LsConfigRequest where
  abi : UInt32
  schema : UInt32
  session : UInt64
  instanceId : UInt64
  expectedRevision : UInt64
  revision : UInt64
  entries : UInt32
  reserved : UInt32
  programSha256 : List UInt8
  rows : List UInt8

/-- A 32-bit field of the zero-extended request at byte offset {lit}`off`. -/
def field32 (raw : List UInt8) (off : Nat) : UInt32 :=
  UInt32.ofNat (ofLittleEndian ((raw.drop off).take 4))

/-- A 64-bit field of the zero-extended request at byte offset {lit}`off`. -/
def field64 (raw : List UInt8) (off : Nat) : UInt64 :=
  UInt64.ofNat (ofLittleEndian ((raw.drop off).take 8))

/-- The bytes copied over a zeroed request structure. -/
def requestBytes (body : List UInt8) : List UInt8 :=
  body ++ List.replicate (lsConfigRequestSize - body.length) 0

/-- Read the request structure out of the body. -/
def LsConfigRequest.ofBody (body : List UInt8) : LsConfigRequest :=
  let raw := requestBytes body
  { abi := field32 raw 0
    schema := field32 raw 4
    session := field64 raw 8
    instanceId := field64 raw 16
    expectedRevision := field64 raw 24
    revision := field64 raw 32
    entries := field32 raw 40
    reserved := field32 raw 44
    programSha256 := (raw.drop 48).take 32
    rows := (raw.drop 80).take (lsConfigRows * lsConfigValueSize) }

/-- Rows of the published image: the request's first {lit}`entries` rows, then
zeros. -/
def publishedRows (r : LsConfigRequest) : List UInt8 :=
  let data := r.rows.take (r.entries.toNat * lsConfigValueSize)
  data.take (lsConfigRows * lsConfigValueSize) ++
    List.replicate (lsConfigRows * lsConfigValueSize - data.length) 0

theorem length_publishedRows (r : LsConfigRequest) :
    (publishedRows r).length = lsConfigRows * lsConfigValueSize := by
  simp only [publishedRows, List.length_append, List.length_take, List.length_replicate]
  omega

/-- The image a request publishes. -/
def publishedImage (r : LsConfigRequest) : LsConfigImage where
  metadata :=
    { revision := r.revision
      instanceId := r.instanceId
      schema := r.schema
      entries := r.entries
      reserved := 0 }
  rows := publishedRows r
  rows_length := length_publishedRows r

/-- The checks of {lit}`lsConfigPublish`, in the order the source makes them,
with the image to store when they all pass.  A body of {lit}`none` is the null
pointer. -/
def lsConfigPublishCheck (s : LsConfigStore) (slot : Nat)
    (body : Option (List UInt8)) : Except String LsConfigImage :=
  match body with
  | none => .error "config length or slot"
  | some bytes =>
      if slot ≥ lsConfigSlots ∨ bytes.length < lsConfigRequestHeader ∨
          bytes.length > lsConfigRequestSize then
        .error "config length or slot"
      else
        let r := LsConfigRequest.ofBody bytes
        if r.abi ≠ lsConfigAbi ∨ r.reserved ≠ 0 ∨ r.schema = 0 ∨
            r.entries.toNat > lsConfigRows ∨
            bytes.length ≠ lsConfigRequestHeader + r.entries.toNat * lsConfigValueSize then
          .error "config ABI, schema, reserved, or shape"
        else if s.session = 0 ∨ r.session ≠ s.session then
          .error "config session mismatch"
        else
          let dst := s.slots slot
          if dst.current.instanceId = 0 ∨ r.instanceId ≠ dst.current.instanceId ∨
              r.programSha256 ≠ dst.programSha256 then
            .error "config program instance/hash mismatch"
          else if r.expectedRevision ≠ dst.current.revision ∨
              r.revision ≤ r.expectedRevision then
            .error "config revision conflict"
          else
            .ok (publishedImage r)

/-- Publish an image.  {lit}`none` means published; an error text is a refusal
and leaves the store as it was. -/
def lsConfigPublish (s : LsConfigStore) (slot : Nat) (body : Option (List UInt8)) :
    Option String × LsConfigStore :=
  match lsConfigPublishCheck s slot body with
  | .error text => (some text, s)
  | .ok image =>
      match lsConfigWrite (s.slots slot) image with
      | none => (some "config sequence exhausted", s)
      | some dst => (none, s.setSlot slot dst)

/-! ## What the operations do -/

/-- The slot after a successful write of {lit}`image`. -/
def written (s : LsConfigSlot) (image : LsConfigImage) : LsConfigSlot :=
  { s with
    sequence := s.sequence + 2
    words := fun i => if i < lsConfigWords then image.word i else s.words i
    current := image.metadata }

/-- Whether the sequence lets a write proceed. -/
def Writable (s : LsConfigSlot) : Prop :=
  s.sequence % 2 = 0 ∧ s.sequence ≤ uint64Max - 2

instance (s : LsConfigSlot) : Decidable (Writable s) :=
  inferInstanceAs (Decidable (_ ∧ _))

theorem lsConfigWrite_of_writable {s : LsConfigSlot} (h : Writable s)
    (image : LsConfigImage) : lsConfigWrite s image = some (written s image) := by
  have hcond : ¬(s.sequence % 2 = 1 ∨ s.sequence > uint64Max - 2) := by
    rcases h with ⟨heven, hle⟩
    omega
  simp only [lsConfigWrite, if_neg hcond]
  rfl

theorem lsConfigWrite_of_not_writable {s : LsConfigSlot} (h : ¬Writable s)
    (image : LsConfigImage) : lsConfigWrite s image = none := by
  have hcond : s.sequence % 2 = 1 ∨ s.sequence > uint64Max - 2 := by
    unfold Writable at h
    omega
  simp only [lsConfigWrite, if_pos hcond]

/-- The checks that a publication passes: the shape of its body, and agreement
with the session, instance, hash and revision the store holds now. -/
structure Acceptable (s : LsConfigStore) (slot : Nat) (bytes : List UInt8) : Prop where
  slot_lt : slot < lsConfigSlots
  abi : (LsConfigRequest.ofBody bytes).abi = lsConfigAbi
  reserved : (LsConfigRequest.ofBody bytes).reserved = 0
  schema : (LsConfigRequest.ofBody bytes).schema ≠ 0
  entries : (LsConfigRequest.ofBody bytes).entries.toNat ≤ lsConfigRows
  length : bytes.length = lsConfigRequestHeader +
    (LsConfigRequest.ofBody bytes).entries.toNat * lsConfigValueSize
  session_set : s.session ≠ 0
  session : (LsConfigRequest.ofBody bytes).session = s.session
  bound : (s.slots slot).current.instanceId ≠ 0
  instanceId : (LsConfigRequest.ofBody bytes).instanceId =
    (s.slots slot).current.instanceId
  sha : (LsConfigRequest.ofBody bytes).programSha256 = (s.slots slot).programSha256
  expected : (LsConfigRequest.ofBody bytes).expectedRevision =
    (s.slots slot).current.revision
  newer : (LsConfigRequest.ofBody bytes).expectedRevision <
    (LsConfigRequest.ofBody bytes).revision

/-- The cascade of checks passes exactly on the acceptable requests. -/
theorem lsConfigPublishCheck_eq_ok_iff {s : LsConfigStore} {slot : Nat}
    {body : Option (List UInt8)} {image : LsConfigImage} :
    lsConfigPublishCheck s slot body = .ok image ↔
      ∃ bytes, body = some bytes ∧ Acceptable s slot bytes ∧
        image = publishedImage (LsConfigRequest.ofBody bytes) := by
  cases body with
  | none => simp [lsConfigPublishCheck]
  | some bytes =>
      simp only [lsConfigPublishCheck]
      constructor
      · intro h
        split at h
        · contradiction
        split at h
        · contradiction
        split at h
        · contradiction
        split at h
        · contradiction
        split at h
        · contradiction
        rename_i hlen hshape hsession hinst hrev
        simp only [not_or, not_not] at hshape hsession hinst hrev
        refine ⟨bytes, rfl, ⟨by omega, hshape.1, hshape.2.1, hshape.2.2.1, by omega,
          hshape.2.2.2.2, hsession.1, hsession.2, hinst.1, hinst.2.1, hinst.2.2,
          hrev.1, ?_⟩, ?_⟩
        · exact UInt64.not_le.mp hrev.2
        · exact (Except.ok.inj h).symm
      · rintro ⟨bytes', hbytes, h, rfl⟩
        cases hbytes
        have hentries := h.entries
        have hlength := h.length
        have hslot := h.slot_lt
        simp only [lsConfigRows, lsConfigRequestHeader, lsConfigValueSize] at hentries hlength
        have hrange : ¬(slot ≥ lsConfigSlots ∨ bytes.length < lsConfigRequestHeader ∨
            bytes.length > lsConfigRequestSize) := by
          simp only [lsConfigRequestHeader, lsConfigRequestSize]
          omega
        have hentries' : ¬ (LsConfigRequest.ofBody bytes).entries.toNat > lsConfigRows :=
          Nat.not_lt.mpr h.entries
        have hnewer : ¬ (LsConfigRequest.ofBody bytes).revision ≤
            (LsConfigRequest.ofBody bytes).expectedRevision := UInt64.not_le.mpr h.newer
        have hexpected := h.expected
        rw [if_neg hrange, if_neg (by simp [h.abi, h.reserved, h.schema, hentries', ← h.length]),
          if_neg (by simp [h.session_set, h.session]),
          if_neg (by simp [h.bound, h.instanceId, h.sha]),
          if_neg (by simp only [not_or, not_not]; exact ⟨hexpected, hnewer⟩)]

/-- A publication is accepted exactly when its request is acceptable and the
sequence of its slot can advance. -/
theorem lsConfigPublish_eq_none_iff {s : LsConfigStore} {slot : Nat}
    {body : Option (List UInt8)} :
    (lsConfigPublish s slot body).1 = none ↔
      ∃ bytes, body = some bytes ∧ Acceptable s slot bytes ∧ Writable (s.slots slot) := by
  unfold lsConfigPublish
  cases hcheck : lsConfigPublishCheck s slot body with
  | error text =>
      simp only [reduceCtorEq, false_iff, not_exists, not_and]
      intro bytes hbytes hacc
      have hok := lsConfigPublishCheck_eq_ok_iff.mpr ⟨bytes, hbytes, hacc, rfl⟩
      rw [hcheck] at hok
      contradiction
  | ok image =>
      obtain ⟨bytes, hbytes, hacc, himage⟩ := lsConfigPublishCheck_eq_ok_iff.mp hcheck
      by_cases hw : Writable (s.slots slot)
      · simp only [lsConfigWrite_of_writable hw, true_iff]
        exact ⟨bytes, hbytes, hacc, hw⟩
      · simp only [lsConfigWrite_of_not_writable hw, reduceCtorEq, false_iff, not_exists,
          not_and]
        intro _ _ _
        exact hw

/-- The state after an accepted publication. -/
theorem lsConfigPublish_accepted {s : LsConfigStore} {slot : Nat} {bytes : List UInt8}
    (hacc : Acceptable s slot bytes) (hw : Writable (s.slots slot)) :
    lsConfigPublish s slot (some bytes) =
      (none, s.setSlot slot
        (written (s.slots slot) (publishedImage (LsConfigRequest.ofBody bytes)))) := by
  have hok := lsConfigPublishCheck_eq_ok_iff.mpr ⟨bytes, rfl, hacc, rfl⟩
  simp only [lsConfigPublish, hok, lsConfigWrite_of_writable hw]

/-- A refused publication changes nothing in the store. -/
theorem lsConfigPublish_refused {s : LsConfigStore} {slot : Nat}
    {body : Option (List UInt8)} (h : (lsConfigPublish s slot body).1 ≠ none) :
    (lsConfigPublish s slot body).2 = s := by
  unfold lsConfigPublish at h ⊢
  split
  · rfl
  · split
    · rfl
    · rename_i hcheck _ _ hwrite
      simp [hcheck, hwrite] at h

end Config
end LiveSurface
