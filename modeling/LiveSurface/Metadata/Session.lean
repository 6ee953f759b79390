import LiveSurface.Library.Early
import LiveSurface.Metadata.Opening
import LiveSurface.Metadata.Tls

/-!
# Session headers and selected routes

Two programs are built from one source.  One reports the session header that the application
saved, the other the pool member and the pool name that it selected.  Each read counts
against a budget, and a value is reported only when it was read as far as it is reported.

Main results:

- Definition {lit}`sessionRouting`: the record of a call.
- Theorem {lit}`SrEvent.Sound.decodes`: a sound record decodes.
- Theorem {lit}`sound_sessionRouting`: every record is sound.
- Theorem {lit}`sessionRouting_value`: a reported value is the front of its source.
-/

namespace LiveSurface
namespace Metadata

def jmComplete : Nat := 1
def jmTruncated : Nat := 2
def jmReadFailed : Nat := 3
def jmOutOfScope : Nat := 4
def jmBudget : Nat := 5
def jmGetterError : Nat := 6
def jmUnavailable : Nat := 7

def srMagic : Nat := 0x53524d45

/-- {lit}`SR_KIND`. -/
inductive SrKind
  | session
  | route
deriving DecidableEq

/-- The number of a kind. -/
def SrKind.code : SrKind → Nat
  | .session => 1
  | .route => 2

/-- The 168-byte record, {lit}`struct sr_event`. -/
structure SrEvent where
  field : JmEvent
  address : List UInt8
  port : Nat
  domain : Nat
  endpointStatus : Nat
deriving DecidableEq

/-- The bytes a program emits for a record. -/
def SrEvent.bytes (e : SrEvent) : List UInt8 :=
  e.field.bytes ++ (e.address ++ Layout.pack [(2, e.port), (2, e.domain), (4, e.endpointStatus)])

/-- One call of a program. -/
structure SrCall where
  kind : SrKind
  arg : Fin 5 → UInt64
  mem : ProbeMemory
  outcomes : Outcomes

/-- Bytes at the front of a 64-byte value. -/
def padded (bs : List UInt8) : List UInt8 := bs ++ List.replicate (64 - bs.length) 0

/-! ## Reads -/

/-- {lit}`read_field`. -/
def srReadField (mem : ProbeMemory) (n : Nat) (a : UInt64) : Early JmEvent (List UInt8) := fun e =>
  if e.reads ≥ 80 ∨ n > 64 ∨ e.sourceBytes > 256 - n then (none, { e with status := jmBudget })
  else
    let e := { e with reads := e.reads + 1, sourceBytes := e.sourceBytes + n }
    match readBytes mem a n with
    | none => (none, { e with status := jmReadFailed })
    | some bs => (some bs, e)

/-- {lit}`read_field` into a pointer. -/
def srReadPointer (mem : ProbeMemory) (a : UInt64) : Early JmEvent UInt64 := do
  let bs ← srReadField mem 8 a
  pure (UInt64.ofNat (ofLittleEndian bs))

/-- {lit}`n && read_field`. -/
def srReadValue (mem : ProbeMemory) (n : Nat) (a : UInt64) : Early JmEvent (List UInt8) :=
  if n = 0 then pure [] else srReadField mem n a

/-- Stop out of scope. -/
def outOfScope (e : JmEvent) : JmEvent := { e with status := jmOutOfScope }

/-- The value that a read found, and its length at the source. -/
def keepValue (bs : List UInt8) (length : Nat) (e : JmEvent) : JmEvent :=
  { e with
    value := padded bs
    originalLength := length
    copiedLength := bs.length
    status := if bs.length < length then jmTruncated else jmComplete }

namespace SrCall

variable (call : SrCall)

/-- The saved session header. -/
def sessionHeader : Early JmEvent Unit := do
  let flags ← srReadField call.mem 4 (call.arg 0 + 44)
  Early.stopIf (ofLittleEndian flags &&& 0xffff < 88 ∨
    ofLittleEndian flags &&& 0xc00000 ≠ 0xc00000) outOfScope
  let saved ← srReadField call.mem 16 (call.arg 0 + 128)
  let data := UInt64.ofNat (ofLittleEndian (saved.take 8))
  let length := ofLittleEndian (saved.drop 8)
  Early.stopIf (data = 0 ∨ length > 0xffffffff) id
  Early.modify fun e => { e with originalLength := length }
  let bytes ← srReadValue call.mem (if length > 64 then 64 else length) data
  Early.modify (keepValue bytes length)

/-- The selected pool member and its address. -/
def routeEndpoint : Early JmEvent (UInt64 × List UInt8) := do
  let ptr ← srReadPointer call.mem (call.arg 0 + 80)
  Early.stopIf (ptr = 0) id
  Early.stopIf (ptr &&& 1 ≠ 0) outOfScope
  let ptr ← srReadPointer call.mem (ptr + 72)
  Early.stopIf (ptr = 0) id
  Early.stopIf (ptr &&& 1 ≠ 0) outOfScope
  let ptr ← srReadPointer call.mem (ptr + 184)
  Early.stopIf (ptr = 0) id
  let address ← srReadField call.mem 20 (ptr + 136)
  pure (ptr, address)

/-- The bytes of a name, with {lit}`left` reads left after those in {lit}`value`. -/
def nameBytes (ptr : UInt64) : Nat → List UInt8 → Early JmEvent Unit
  | 0, value => Early.modify fun e =>
      { e with
        value := padded (value.take 64)
        originalLength := 0xffffffff
        copiedLength := 64
        status := jmTruncated }
  | left + 1, value => do
      let byte ← srReadField call.mem 1 (ptr + UInt64.ofNat value.length)
      if byte = [0] then Early.modify (keepValue value value.length)
      else nameBytes ptr left (value ++ byte)

/-- The name of the selected pool. -/
def routeName (ptr : UInt64) : Early JmEvent Unit := do
  let ptr ← srReadPointer call.mem ptr
  Early.stopIf (ptr = 0) id
  let ptr ← srReadPointer call.mem (ptr + 32)
  Early.stopIf (ptr = 0) id
  call.nameBytes ptr 65 []

/-- A record without an endpoint. -/
def bare (field : JmEvent) (endpointStatus : Nat) : SrEvent where
  field
  address := List.replicate 16 0
  port := 0
  domain := 0
  endpointStatus

/-- {lit}`extract`. -/
def extract (e : JmEvent) : SrEvent :=
  match call.kind with
  | .session =>
      if call.arg 0 = 0 ∨ call.arg 1 = 0 then bare e 0 else bare (call.sessionHeader e).2 0
  | .route =>
      if call.arg 0 = 0 ∨ call.arg 1 = 0 then bare e jmUnavailable
      else
        match call.routeEndpoint e with
        | (none, e) => bare e e.status
        | (some (ptr, address), e) =>
            { field := (call.routeName ptr e).2
              address := address.take 16
              port := ofLittleEndian ((address.drop 16).take 2)
              domain := ofLittleEndian ((address.drop 18).take 2)
              endpointStatus := jmComplete }

/-- The field of a record before its source is read. -/
def blank : JmEvent where
  magic := srMagic
  abi := 1
  instanceId := call.outcomes.opening.instanceId.toNat
  revision := call.outcomes.opening.revision.toNat
  run := call.outcomes.opening.run.toNat
  monotonicNs := call.outcomes.opening.monotonicNs.toNat
  sequence := call.outcomes.opening.sequence.toNat
  outputFailures := call.outcomes.opening.outputFailures.toNat
  status := jmUnavailable
  getterResult := call.kind.code
  originalLength := 0
  copiedLength := 0
  flags := call.outcomes.opening.flags
  reads := 0
  sourceBytes := 0
  value := List.replicate 64 0

/-- The record before the value is cleared. -/
def filled : SrEvent :=
  if call.outcomes.opening.state.isSome then call.extract call.blank
  else bare call.blank (if call.kind = .route then jmUnavailable else 0)

end SrCall

/-- Only a complete or truncated value stays. -/
def cleared (e : JmEvent) : JmEvent :=
  if e.status ≠ jmComplete ∧ e.status ≠ jmTruncated then
    { e with value := List.replicate 64 0, copiedLength := 0 }
  else e

/-- {lit}`session_routing`: the record that a call emits. -/
def sessionRouting (call : SrCall) : SrEvent :=
  { call.filled with field := cleared call.filled.field }

/-! ## The decoder -/

/-- {lit}`struct.Struct("<II6Q4IHHI64s16sHHI").unpack`. -/
def SrEvent.unpack (payload : List UInt8) : SrEvent :=
  let w := Layout.unpack [2, 2, 4] (payload.drop 160)
  { field := JmEvent.unpack (payload.take 144)
    address := (payload.drop 144).take 16
    port := w.getD 0 0
    domain := w.getD 1 0
    endpointStatus := w.getD 2 0 }

def sessionRoutingStatus : Nat → Option String
  | 1 => some "complete"
  | 2 => some "truncated"
  | 3 => some "read_failed"
  | 4 => some "out_of_scope"
  | 5 => some "budget_exhausted"
  | 7 => some "unavailable"
  | _ => none

/-- {lit}`ip.ipv4_mapped or ip`, by its bytes. -/
inductive IpAddress
  | v4 (bytes : List UInt8)
  | v6 (bytes : List UInt8)
deriving DecidableEq

/-- The address that 16 bytes stand for. -/
def ipAddress (bytes : List UInt8) : IpAddress :=
  if bytes.take 12 = List.replicate 10 0 ++ [0xff, 0xff] then .v4 (bytes.drop 12) else .v6 bytes

/-- A decoded session or route record. -/
structure DecodedSession where
  event : SrEvent
  fieldName : String
  valueHex : String
  statusName : String
  originalLengthKnown : Bool
  endpointStatusName : String
  addressHex : Option String
  address : Option IpAddress
deriving DecidableEq

/-- {lit}`session_routing_decode.decode`. -/
def sessionRoutingDecode (payload : List UInt8) : Except String DecodedSession :=
  if payload.length ≠ 168 then .error "session/routing record size"
  else
    let event := SrEvent.unpack payload
    let value := event.field.value
    let n := event.field.copiedLength
    let status := event.field.status
    let kind := event.field.getterResult
    let endpoint := event.endpointStatus
    match sessionRoutingStatus status with
    | none => .error "invalid session/routing record"
    | some statusName =>
        if event.field.magic ≠ 0x53524d45 ∨ event.field.abi ≠ 1 ∨ ¬(kind = 1 ∨ kind = 2) ∨ n > 64 ∨
            anyFrom value n = true ∨ event.field.reads > 80 ∨ event.field.sourceBytes > 256 then
          .error "invalid session/routing record"
        else if ¬(status = 1 ∨ status = 2) ∧ n ≠ 0 then .error "value on unavailable field"
        else if status = 1 ∧ n ≠ event.field.originalLength then .error "incomplete complete field"
        else if status = 2 ∧ ¬(n = 64 ∧ 64 < event.field.originalLength) then
          .error "invalid truncated field"
        else if kind = 1 ∧ endpoint ≠ 0 then .error "endpoint on session header"
        else if kind = 2 ∧ ¬(endpoint = 1 ∨ endpoint = 3 ∨ endpoint = 4 ∨ endpoint = 5 ∨
            endpoint = 7) then
          .error "invalid endpoint status"
        else if endpoint ≠ 1 ∧ (anyFrom event.address 0 = true ∨ event.port ≠ 0 ∨
            event.domain ≠ 0) then
          .error "bytes on unavailable endpoint"
        else .ok {
          event := { event with field := { event.field with value := [] }, address := [] }
          fieldName := if kind = 1 then "observed_session_header" else "selected_pool_name"
          valueHex := hex (value.take n)
          statusName
          originalLengthKnown := event.field.originalLength ≠ 0xffffffff
          endpointStatusName := (sessionRoutingStatus endpoint).getD "not_applicable"
          addressHex := if endpoint = 1 then some (hex event.address) else none
          address := if endpoint = 1 then some (ipAddress event.address) else none }

/-! ## Records that decode -/

/-- The checks on the value of a record. -/
structure JmEvent.ValueOk (e : JmEvent) : Prop where
  copied : e.copiedLength ≤ 64
  clear : anyFrom e.value e.copiedLength = false
  none : ¬(e.status = 1 ∨ e.status = 2) → e.copiedLength = 0
  complete : e.status = 1 → e.copiedLength = e.originalLength
  truncated : e.status = 2 → e.copiedLength = 64 ∧ 64 < e.originalLength

/-- The checks of the decoder. -/
structure SrEvent.Sound (e : SrEvent) : Prop where
  fits : e.field.Fits
  address : e.address.length = 16
  port : e.port < 256 ^ 2
  domain : e.domain < 256 ^ 2
  endpoint : e.endpointStatus < 256 ^ 4
  magic : e.field.magic = 0x53524d45
  abi : e.field.abi = 1
  status : e.field.status = 1 ∨ e.field.status = 2 ∨ e.field.status = 3 ∨ e.field.status = 4 ∨
    e.field.status = 5 ∨ e.field.status = 7
  reads : e.field.reads ≤ 80
  sourceBytes : e.field.sourceBytes ≤ 256
  value : e.field.ValueOk
  kind : (e.field.getterResult = 1 ∧ e.endpointStatus = 0) ∨ (e.field.getterResult = 2 ∧
    (e.endpointStatus = 1 ∨ e.endpointStatus = 3 ∨ e.endpointStatus = 4 ∨ e.endpointStatus = 5 ∨
      e.endpointStatus = 7))
  noEndpoint : e.endpointStatus ≠ 1 → anyFrom e.address 0 = false ∧ e.port = 0 ∧ e.domain = 0

/-- A record that fits is unpacked as it was packed. -/
theorem SrEvent.unpack_bytes {e : SrEvent} (h : e.Sound) : SrEvent.unpack e.bytes = e := by
  have hfield : e.field.bytes.length = 144 := h.fits.length_bytes
  have htake : e.bytes.take 144 = e.field.bytes := List.take_left' hfield
  have hdrop : e.bytes.drop 144 =
      e.address ++ Layout.pack [(2, e.port), (2, e.domain), (4, e.endpointStatus)] :=
    List.drop_left' hfield
  have htail : e.bytes.drop 160 = Layout.pack [(2, e.port), (2, e.domain), (4, e.endpointStatus)] := by
    rw [show 160 = 144 + 16 from rfl, ← List.drop_drop, hdrop]
    exact List.drop_left' h.address
  have hwords : Layout.unpack [2, 2, 4]
      (Layout.pack [(2, e.port), (2, e.domain), (4, e.endpointStatus)]) =
        [e.port, e.domain, e.endpointStatus] := by
    have hfits : Layout.Fits [(2, e.port), (2, e.domain), (4, e.endpointStatus)] := by
      simp only [Layout.Fits, List.forall_mem_cons]
      exact ⟨h.port, h.domain, h.endpoint, by simp⟩
    have := Layout.unpack_pack_of_fits hfits []
    rwa [List.append_nil] at this
  simp only [SrEvent.unpack, htake, hdrop, htail, hwords, JmEvent.unpack_bytes h.fits,
    List.take_left' h.address]
  rfl

theorem isSome_sessionRoutingStatus {m : Nat}
    (h : m = 1 ∨ m = 2 ∨ m = 3 ∨ m = 4 ∨ m = 5 ∨ m = 7) :
    ∃ name, sessionRoutingStatus m = some name := by
  rcases h with rfl | rfl | rfl | rfl | rfl | rfl <;> exact ⟨_, rfl⟩

/-- A sound record decodes, to the value it carries. -/
theorem SrEvent.Sound.decodes {e : SrEvent} (h : e.Sound) :
    ∃ d, sessionRoutingDecode e.bytes = .ok d ∧
      d.valueHex = hex (e.field.value.take e.field.copiedLength) ∧
      sessionRoutingStatus e.field.status = some d.statusName := by
  have hlength : e.bytes.length = 168 := by
    rw [SrEvent.bytes, List.length_append, h.fits.length_bytes, List.length_append, h.address]
    simp
  obtain ⟨name, hname⟩ := isSome_sessionRoutingStatus h.status
  unfold sessionRoutingDecode
  rw [if_neg (not_not_intro hlength), SrEvent.unpack_bytes h]
  simp only [hname]
  have hbounds : ¬(e.field.magic ≠ 0x53524d45 ∨ e.field.abi ≠ 1 ∨
      ¬(e.field.getterResult = 1 ∨ e.field.getterResult = 2) ∨ e.field.copiedLength > 64 ∨
      anyFrom e.field.value e.field.copiedLength = true ∨ e.field.reads > 80 ∨
      e.field.sourceBytes > 256) := by
    have hkind := h.kind
    rintro (hbad | hbad | hbad | hbad | hbad | hbad | hbad)
    · exact hbad h.magic
    · exact hbad h.abi
    · omega
    · exact Nat.not_lt.mpr h.value.copied hbad
    · exact absurd (h.value.clear.symm.trans hbad) (by decide)
    · exact Nat.not_lt.mpr h.reads hbad
    · exact Nat.not_lt.mpr h.sourceBytes hbad
  have hkind : ¬(e.field.getterResult = 1 ∧ e.endpointStatus ≠ 0) := by
    have hkind := h.kind
    omega
  have hroute : ¬(e.field.getterResult = 2 ∧ ¬(e.endpointStatus = 1 ∨ e.endpointStatus = 3 ∨
      e.endpointStatus = 4 ∨ e.endpointStatus = 5 ∨ e.endpointStatus = 7)) := by
    have hkind := h.kind
    omega
  have hendpoint : ¬(e.endpointStatus ≠ 1 ∧ (anyFrom e.address 0 = true ∨ e.port ≠ 0 ∨
      e.domain ≠ 0)) := by
    rintro ⟨hne, hbad⟩
    obtain ⟨hclear, hport, hdomain⟩ := h.noEndpoint hne
    rcases hbad with hbad | hbad | hbad
    · exact absurd (hclear.symm.trans hbad) (by decide)
    · exact hbad hport
    · exact hbad hdomain
  have hnone : ¬(¬(e.field.status = 1 ∨ e.field.status = 2) ∧ e.field.copiedLength ≠ 0) :=
    fun hbad => hbad.2 (h.value.none hbad.1)
  have hcomplete : ¬(e.field.status = 1 ∧ e.field.copiedLength ≠ e.field.originalLength) :=
    fun hbad => hbad.2 (h.value.complete hbad.1)
  have htruncated : ¬(e.field.status = 2 ∧
      ¬(e.field.copiedLength = 64 ∧ 64 < e.field.originalLength)) :=
    fun hbad => hbad.2 (h.value.truncated hbad.1)
  rw [if_neg hbounds, if_neg hnone, if_neg hcomplete, if_neg htruncated, if_neg hkind, if_neg hroute,
    if_neg hendpoint]
  exact ⟨_, rfl, rfl, rfl⟩

/-! ## What a call reads -/

/-- A record keeps what the opening filled. -/
def JmEvent.Extends (b e : JmEvent) : Prop :=
  e.magic = b.magic ∧ e.abi = b.abi ∧ e.instanceId = b.instanceId ∧ e.revision = b.revision ∧
    e.run = b.run ∧ e.monotonicNs = b.monotonicNs ∧ e.sequence = b.sequence ∧
    e.outputFailures = b.outputFailures ∧ e.getterResult = b.getterResult ∧ e.flags = b.flags

/-- A record within the budget of its reads. -/
def JmEvent.Within (e : JmEvent) : Prop :=
  e.reads ≤ 80 ∧ e.sourceBytes ≤ 256 ∧ e.originalLength < 2 ^ 32

/-- A record whose source is being read. -/
def SrOpen (b e : JmEvent) : Prop := b.Extends e ∧ e.Within ∧ e.status = jmUnavailable

/-- A record whose source could not be read. -/
def SrShut (b e : JmEvent) : Prop :=
  b.Extends e ∧ e.Within ∧ (e.status = 3 ∨ e.status = 4 ∨ e.status = 5 ∨ e.status = 7)

/-- A record with a value. -/
structure Carries (b e : JmEvent) (bs : List UInt8) : Prop where
  head : b.Extends e
  original : e.originalLength < 2 ^ 32
  length : bs.length ≤ 64
  value : e.value = padded bs
  copied : e.copiedLength = bs.length
  status : (e.status = 1 ∧ e.originalLength = bs.length) ∨
    (e.status = 2 ∧ bs.length = 64 ∧ 64 < e.originalLength)

theorem length_readBytes {mem : ProbeMemory} {a : UInt64} {n : Nat} {bs : List UInt8}
    (h : readBytes mem a n = some bs) : bs.length = n :=
  length_of_probe h

/-- A kept value of at most 64 bytes. -/
theorem carries_keepValue {b e : JmEvent} {bs : List UInt8} {length : Nat} (hhead : b.Extends e)
    (hbs : bs.length = min length 64) (hlength : length < 2 ^ 32) :
    Carries b (keepValue bs length e) bs := by
  refine ⟨hhead, hlength, by omega, rfl, rfl, ?_⟩
  by_cases hlt : bs.length < length
  · refine Or.inr ⟨if_pos hlt, by omega, ?_⟩
    change 64 < length
    omega
  · refine Or.inl ⟨if_neg hlt, ?_⟩
    change length = bs.length
    omega

section Reads

variable {b e : JmEvent} {mem : ProbeMemory} {n : Nat} {a : UInt64}

theorem SrOpen.shut (h : SrOpen b e) : SrShut b e :=
  ⟨h.1, h.2.1, Or.inr (Or.inr (Or.inr h.2.2))⟩

theorem ends_srReadField (h : SrOpen b e) : (srReadField mem n a).Ends e (SrShut b) fun bs e' =>
    readBytes mem a n = some bs ∧ SrOpen b e' := by
  obtain ⟨hhead, hwithin, hstatus⟩ := h
  unfold Early.Ends srReadField
  by_cases hbudget : e.reads ≥ 80 ∨ n > 64 ∨ e.sourceBytes > 256 - n
  · rw [if_pos hbudget]
    exact ⟨hhead, hwithin, Or.inr (Or.inr (Or.inl rfl))⟩
  · rw [if_neg hbudget]
    have hwithin' : ({ e with reads := e.reads + 1, sourceBytes := e.sourceBytes + n } :
        JmEvent).Within := by
      refine ⟨?_, ?_, hwithin.2.2⟩
      · dsimp only
        omega
      · dsimp only
        omega
    cases hread : readBytes mem a n with
    | none => exact ⟨hhead, hwithin', Or.inl rfl⟩
    | some bs => exact ⟨rfl, hhead, hwithin', hstatus⟩

theorem ends_srReadPointer (h : SrOpen b e) : (srReadPointer mem a).Ends e (SrShut b) fun ptr e' =>
    readPointer mem a = some ptr ∧ SrOpen b e' := by
  refine (ends_srReadField h).bind fun bs e' hread => Early.ends_pure ⟨?_, hread.2⟩
  rw [readPointer, readWord, hread.1]
  rfl

/-- A null pointer stops a call as unavailable. -/
theorem ends_null {ptr : UInt64} (h : SrOpen b e) :
    (Early.stopIf (ptr = 0) id).Ends e (SrShut b) fun _ e' => e' = e :=
  Early.ends_stopIf (fun _ => h.shut) fun _ => rfl

/-- A tagged pointer stops a call as out of scope. -/
theorem ends_scope {c : Prop} [Decidable c] (h : SrOpen b e) :
    (Early.stopIf c outOfScope).Ends e (SrShut b) fun _ e' => e' = e :=
  Early.ends_stopIf (fun _ => ⟨h.1, h.2.1, Or.inr (Or.inl rfl)⟩) fun _ => rfl

end Reads

namespace SrCall

variable (call : SrCall)

/-- Where the session header was saved, and its length. -/
def SessionSource (base : UInt64) (length : Nat) : Prop :=
  ∃ saved, readBytes call.mem (call.arg 0 + 128) 16 = some saved ∧
    base = UInt64.ofNat (ofLittleEndian (saved.take 8)) ∧ length = ofLittleEndian (saved.drop 8)

/-- Where the name of the selected pool is. -/
def RouteSource (base : UInt64) : Prop :=
  ∃ p q r s, readPointer call.mem (call.arg 0 + 80) = some p ∧ readPointer call.mem (p + 72) = some q ∧
    readPointer call.mem (q + 184) = some r ∧ readPointer call.mem r = some s ∧
    readPointer call.mem (s + 32) = some base

/-- A reported session header is the front of the saved one. -/
def Header (e : JmEvent) (bs : List UInt8) : Prop :=
  ∃ base, call.SessionSource base e.originalLength ∧ bs.length = min e.originalLength 64 ∧
    readBytes call.mem base bs.length = some bs

/-- A reported name is the front of a string that ends at a zero byte. -/
def Name (e : JmEvent) (bs : List UInt8) : Prop :=
  ∃ base, call.RouteSource base ∧ 0 ∉ bs ∧
    (∀ i (h : i < bs.length), readBytes call.mem (base + UInt64.ofNat i) 1 = some [bs[i]]) ∧
    (e.status = 1 → readBytes call.mem (base + UInt64.ofNat bs.length) 1 = some [0])

variable {call} {b e : JmEvent}

theorem ends_sessionHeader (h : SrOpen b e) : call.sessionHeader.Ends e (SrShut b) fun _ e' =>
    ∃ bs, Carries b e' bs ∧ e'.Within ∧ call.Header e' bs := by
  refine (ends_srReadField h).bind fun flags e₁ h₁ => ?_
  refine (ends_scope h₁.2).bind fun _ e₂ h₂ => ?_
  subst h₂
  refine (ends_srReadField h₁.2).bind fun saved e₃ h₃ => ?_
  obtain ⟨hsaved, hopen⟩ := h₃
  generalize hdata : UInt64.ofNat (ofLittleEndian (saved.take 8)) = data
  generalize hlength : ofLittleEndian (saved.drop 8) = length
  have hguard : (Early.stopIf (data = 0 ∨ length > 0xffffffff) id).Ends e₃ (SrShut b)
      fun _ e' => e' = e₃ ∧ length < 2 ^ 32 :=
    Early.ends_stopIf (fun _ => hopen.shut) fun hgo => ⟨rfl, by omega⟩
  refine hguard.bind fun _ e₄ h₄ => ?_
  obtain ⟨rfl, hsmall⟩ := h₄
  have hstored : (Early.modify fun e : JmEvent => { e with originalLength := length }).Ends e₄
      (SrShut b) fun _ e' => SrOpen b e' :=
    Early.ends_modify ⟨hopen.1, ⟨hopen.2.1.1, hopen.2.1.2.1, hsmall⟩, hopen.2.2⟩
  refine hstored.bind fun _ e₅ h₅ => ?_
  generalize hn : (if length > 64 then 64 else length) = n
  have hmin : n = min length 64 := by
    rw [← hn]
    split <;> omega
  have hread : (srReadValue call.mem n data).Ends e₅ (SrShut b)
      fun bs e' => readBytes call.mem data n = some bs ∧ SrOpen b e' := by
    refine Early.ends_ite (fun hzero => Early.ends_pure ⟨?_, h₅⟩) fun _ => ends_srReadField h₅
    rw [hzero]
    rfl
  refine hread.bind fun bs e₆ h₆ => Early.ends_modify
    ⟨bs, ?_, ⟨h₆.2.2.1.1, h₆.2.2.1.2.1, hsmall⟩, data, ⟨saved, hsaved, hdata.symm, ?_⟩, ?_, ?_⟩
  · exact carries_keepValue h₆.2.1 ((length_readBytes h₆.1).trans hmin) hsmall
  · exact hlength.symm
  · exact (length_readBytes h₆.1).trans hmin
  · rw [length_readBytes h₆.1]
    exact h₆.1

/-- The endpoint of a route is read, or the call stops without one. -/
theorem ends_routeEndpoint (h : SrOpen b e) : call.routeEndpoint.Ends e (SrShut b) fun r e' =>
    r.2.length = 20 ∧ (∃ p q, readPointer call.mem (call.arg 0 + 80) = some p ∧
      readPointer call.mem (p + 72) = some q ∧ readPointer call.mem (q + 184) = some r.1) ∧
      SrOpen b e' := by
  refine (ends_srReadPointer h).bind fun p e₁ h₁ => ?_
  refine (ends_null h₁.2).bind fun _ e₂ h₂ => ?_
  subst h₂
  refine (ends_scope h₁.2).bind fun _ e₃ h₃ => ?_
  subst h₃
  refine (ends_srReadPointer h₁.2).bind fun q e₄ h₄ => ?_
  refine (ends_null h₄.2).bind fun _ e₅ h₅ => ?_
  subst h₅
  refine (ends_scope h₄.2).bind fun _ e₆ h₆ => ?_
  subst h₆
  refine (ends_srReadPointer h₄.2).bind fun r e₇ h₇ => ?_
  refine (ends_null h₇.2).bind fun _ e₈ h₈ => ?_
  subst h₈
  refine (ends_srReadField h₇.2).bind fun address e₉ h₉ => Early.ends_pure ?_
  exact ⟨length_readBytes h₉.1, ⟨p, q, h₁.1, h₄.1, h₇.1⟩, h₉.2⟩

/-- The bytes read so far are the front of the name. -/
theorem ends_nameBytes {base : UInt64} {left : Nat} {value : List UInt8} (h : SrOpen b e)
    (hleft : value.length + left = 65) (hnonzero : 0 ∉ value)
    (hvalue : ∀ i (h : i < value.length),
      readBytes call.mem (base + UInt64.ofNat i) 1 = some [value[i]]) :
    (call.nameBytes base left value).Ends e (SrShut b) fun _ e' => ∃ bs, Carries b e' bs ∧ e'.Within ∧
      0 ∉ bs ∧ (∀ i (h : i < bs.length), readBytes call.mem (base + UInt64.ofNat i) 1 = some [bs[i]]) ∧
      (e'.status = 1 → readBytes call.mem (base + UInt64.ofNat bs.length) 1 = some [0]) := by
  induction left generalizing value e with
  | zero =>
      have hlength : (value.take 64).length = 64 := by
        rw [List.length_take]
        omega
      have hlarge : 0xffffffff < 2 ^ 32 := by decide
      refine Early.ends_modify ⟨value.take 64, ⟨h.1, hlarge, ?_, rfl, ?_, ?_⟩,
        ⟨h.2.1.1, h.2.1.2.1, hlarge⟩,
        fun hmem => hnonzero (List.mem_of_mem_take hmem), fun i hi => ?_, fun hstatus => ?_⟩
      · exact Nat.le_of_eq hlength
      · exact hlength.symm
      · exact Or.inr ⟨rfl, hlength, (by decide : 64 < 0xffffffff)⟩
      · rw [List.getElem_take]
        exact hvalue i (by rw [List.length_take] at hi; omega)
      · exact absurd hstatus (by decide : jmTruncated ≠ 1)
  | succ left ih =>
      refine (ends_srReadField h).bind fun byte e₁ h₁ => ?_
      obtain ⟨hbyte, hopen⟩ := h₁
      refine Early.ends_ite (fun hzero => Early.ends_modify ⟨value, ?_, ?_, hnonzero, hvalue, ?_⟩)
        fun hne => ?_
      · exact carries_keepValue hopen.1 (by omega) (by omega)
      · exact ⟨hopen.2.1.1, hopen.2.1.2.1, (by omega : value.length < 2 ^ 32)⟩
      · intro _
        rw [hbyte, hzero]
      · obtain ⟨x, rfl⟩ : ∃ x, byte = [x] := List.length_eq_one_iff.mp (length_readBytes hbyte)
        refine ih hopen ?_ ?_ ?_
        · rw [List.length_append, List.length_singleton]
          omega
        · intro hmem
          rcases List.mem_append.mp hmem with hmem | hmem
          · exact hnonzero hmem
          · rw [List.mem_singleton] at hmem
            exact hne (by rw [hmem])
        · intro i hi
          rw [List.length_append, List.length_singleton] at hi
          rcases Nat.lt_succ_iff_lt_or_eq.mp hi with hlt | rfl
          · rw [List.getElem_append_left hlt]
            exact hvalue i hlt
          · rw [List.getElem_concat_length rfl]
            exact hbyte

theorem ends_routeName {p q r : UInt64} (h : SrOpen b e)
    (hp : readPointer call.mem (call.arg 0 + 80) = some p)
    (hq : readPointer call.mem (p + 72) = some q) (hr : readPointer call.mem (q + 184) = some r) :
    (call.routeName r).Ends e (SrShut b) fun _ e' =>
      ∃ bs, Carries b e' bs ∧ e'.Within ∧ call.Name e' bs := by
  refine (ends_srReadPointer h).bind fun s e₁ h₁ => ?_
  refine (ends_null h₁.2).bind fun _ e₂ h₂ => ?_
  subst h₂
  refine (ends_srReadPointer h₁.2).bind fun base e₃ h₃ => ?_
  refine (ends_null h₃.2).bind fun _ e₄ h₄ => ?_
  subst h₄
  have hbytes := @ends_nameBytes call b e₄ base 65 [] h₃.2 rfl List.not_mem_nil
    (fun i hi => (Nat.not_lt_zero i hi).elim)
  refine hbytes.mono (fun _ hs => hs) fun _ e' hname => ?_
  obtain ⟨bs, hcarries, hwithin, hnonzero, hread, hend⟩ := hname
  exact ⟨bs, hcarries, hwithin, base, ⟨p, q, r, s, hp, hq, hr, h₁.1, h₃.1⟩, hnonzero, hread, hend⟩

/-! ## Every record is sound -/

variable (call) in
/-- The value of a record comes from the source of its kind. -/
def Sourced (e : JmEvent) (bs : List UInt8) : Prop :=
  match call.kind with
  | .session => call.Header e bs
  | .route => call.Name e bs

variable (call) in
/-- What holds of the field of a record before the value is cleared. -/
def FieldOk (e : JmEvent) : Prop :=
  SrShut call.blank e ∨ ∃ bs, Carries call.blank e bs ∧ e.Within ∧ call.Sourced e bs

variable (call) in
/-- What holds of the endpoint of a record. -/
structure EndpointOk (e : SrEvent) : Prop where
  address : e.address.length = 16
  port : e.port < 256 ^ 2
  domain : e.domain < 256 ^ 2
  status : (call.kind = .session ∧ e.endpointStatus = 0) ∨ (call.kind = .route ∧
    (e.endpointStatus = 1 ∨ e.endpointStatus = 3 ∨ e.endpointStatus = 4 ∨ e.endpointStatus = 5 ∨
      e.endpointStatus = 7))
  none : e.endpointStatus ≠ 1 → anyFrom e.address 0 = false ∧ e.port = 0 ∧ e.domain = 0

theorem open_blank : SrOpen call.blank call.blank :=
  ⟨⟨rfl, rfl, rfl, rfl, rfl, rfl, rfl, rfl, rfl, rfl⟩,
    ⟨Nat.zero_le 80, Nat.zero_le 256, (by decide : 0 < 2 ^ 32)⟩, rfl⟩

theorem endpointOk_bare {field : JmEvent} {status : Nat}
    (hstatus : (call.kind = .session ∧ status = 0) ∨ (call.kind = .route ∧
      (status = 1 ∨ status = 3 ∨ status = 4 ∨ status = 5 ∨ status = 7))) :
    call.EndpointOk (bare field status) :=
  ⟨rfl, (by decide : 0 < 256 ^ 2), (by decide : 0 < 256 ^ 2), hstatus,
    fun _ => ⟨(by decide : anyFrom (List.replicate 16 0) 0 = false), rfl, rfl⟩⟩

/-- The field and the endpoint of a record before the value is cleared. -/
theorem ok_filled (call : SrCall) :
    call.FieldOk call.filled.field ∧ call.EndpointOk call.filled := by
  have hopen : SrOpen call.blank call.blank := open_blank
  have hblank : call.FieldOk call.blank := Or.inl hopen.shut
  unfold filled
  split
  case isFalse =>
    refine ⟨hblank, endpointOk_bare ?_⟩
    cases call.kind
    · exact Or.inl ⟨rfl, rfl⟩
    · exact Or.inr ⟨rfl, by simp [jmUnavailable]⟩
  unfold extract
  cases hkind : call.kind with
  | session =>
      dsimp only
      split
      · exact ⟨hblank, endpointOk_bare (Or.inl ⟨hkind, rfl⟩)⟩
      · have hends : call.sessionHeader.Ends call.blank call.FieldOk fun _ => call.FieldOk := by
          refine (ends_sessionHeader hopen).mono (fun _ hs => Or.inl hs) fun _ e' hdone => ?_
          obtain ⟨bs, hcarries, hwithin, hheader⟩ := hdone
          refine Or.inr ⟨bs, hcarries, hwithin, ?_⟩
          rw [Sourced, hkind]
          exact hheader
        exact ⟨hends.state, endpointOk_bare (Or.inl ⟨hkind, rfl⟩)⟩
  | route =>
      dsimp only
      split
      · exact ⟨hblank, endpointOk_bare (Or.inr ⟨hkind, by decide⟩)⟩
      · have hendpoint := @ends_routeEndpoint call _ _ hopen
        unfold Early.Ends at hendpoint
        rcases hread : call.routeEndpoint call.blank with ⟨r, e₁⟩
        rw [hread] at hendpoint
        cases r with
        | none =>
            have hshut : SrShut call.blank e₁ := hendpoint
            refine ⟨Or.inl hshut, endpointOk_bare (Or.inr ⟨hkind, Or.inr hshut.2.2⟩)⟩
        | some r =>
            obtain ⟨ptr, address⟩ := r
            obtain ⟨hlength, ⟨p, q, hp, hq, hr⟩, hopen₁⟩ := hendpoint
            have hlength : address.length = 20 := hlength
            have hname : (call.routeName ptr).Ends e₁ call.FieldOk fun _ => call.FieldOk := by
              refine (ends_routeName hopen₁ hp hq hr).mono (fun _ hs => Or.inl hs)
                fun _ e' hdone => ?_
              obtain ⟨bs, hcarries, hwithin, hname⟩ := hdone
              refine Or.inr ⟨bs, hcarries, hwithin, ?_⟩
              rw [Sourced, hkind]
              exact hname
            refine ⟨hname.state, ?_, ?_, ?_, Or.inr ⟨hkind, Or.inl rfl⟩, fun hne => (hne rfl).elim⟩
            · change (address.take 16).length = 16
              rw [List.length_take, hlength]
              rfl
            · have hlt := ofLittleEndian_lt ((address.drop 16).take 2)
              rw [List.length_take, List.length_drop, hlength] at hlt
              exact hlt
            · have hlt := ofLittleEndian_lt ((address.drop 18).take 2)
              rw [List.length_take, List.length_drop, hlength] at hlt
              exact hlt

end SrCall

theorem length_padded {bs : List UInt8} (h : bs.length ≤ 64) : (padded bs).length = 64 := by
  rw [padded, List.length_append, List.length_replicate]
  omega

/-- Nothing follows the bytes of a value. -/
theorem anyFrom_padded (bs : List UInt8) : anyFrom (padded bs) bs.length = false := by
  rw [anyFrom, padded, List.drop_left' rfl, List.any_eq_false]
  intro x hx
  rw [List.eq_of_mem_replicate hx]
  decide

/-- The words of a record fit when its head does. -/
theorem JmEvent.Extends.fits {b e : JmEvent} (h : b.Extends e) (hb : b.Fits) (hreads : e.reads ≤ 80)
    (hbytes : e.sourceBytes ≤ 320) (horiginal : e.originalLength < 2 ^ 32) (hstatus : e.status ≤ 7)
    (hcopied : e.copiedLength ≤ 64) (hvalue : e.value.length = 64) : e.Fits := by
  obtain ⟨hmagic, habi, hinstance, hrevision, hrun, hclock, hsequence, hfailures, hkind, hflags⟩ := h
  have hwords := hb.words
  simp only [Layout.Fits, JmEvent.words, List.forall_mem_cons] at hwords
  obtain ⟨h₁, h₂, h₃, h₄, h₅, h₆, h₇, h₈, -, h₉, -, -, h₁₀, -⟩ := hwords
  refine ⟨?_, hvalue⟩
  simp only [Layout.Fits, JmEvent.words, List.forall_mem_cons, hmagic, habi, hinstance, hrevision,
    hrun, hclock, hsequence, hfailures, hkind, hflags]
  refine ⟨h₁, h₂, h₃, h₄, h₅, h₆, h₇, h₈, ?_, h₉, horiginal, ?_, h₁₀, ?_, ?_, by simp⟩
  all_goals omega

/-- The value of a record that carries one passes its checks. -/
theorem Carries.valueOk {b e : JmEvent} {bs : List UInt8} (h : Carries b e bs) : e.ValueOk := by
  have hstatus := h.status
  have hcopied := h.copied
  refine ⟨?_, ?_, fun hnone => ?_, fun hone => ?_, fun htwo => ?_⟩
  · rw [hcopied]
    exact h.length
  · rw [h.value, hcopied]
    exact anyFrom_padded bs
  · omega
  · omega
  · omega

/-- The words of a record that carries a value fit. -/
theorem Carries.fits {b e : JmEvent} {bs : List UInt8} (h : Carries b e bs) (hb : b.Fits)
    (hreads : e.reads ≤ 80) (hbytes : e.sourceBytes ≤ 320) : e.Fits := by
  have hstatus := h.status
  refine h.head.fits hb hreads hbytes h.original (by omega) ?_ ?_
  · rw [h.copied]
    exact h.length
  · rw [h.value]
    exact length_padded h.length

theorem cleared_of_none {e : JmEvent} (h : e.status ≠ 1 ∧ e.status ≠ 2) :
    cleared e = { e with value := List.replicate 64 0, copiedLength := 0 } :=
  if_pos h

theorem cleared_of_some {e : JmEvent} (h : e.status = 1 ∨ e.status = 2) : cleared e = e := by
  refine if_neg fun hnone => ?_
  unfold jmComplete jmTruncated at hnone
  omega

/-- A cleared value passes its checks. -/
theorem valueOk_cleared {e : JmEvent} (h : e.status ≠ 1 ∧ e.status ≠ 2) : (cleared e).ValueOk := by
  rw [cleared_of_none h]
  exact ⟨Nat.zero_le 64, (by decide : anyFrom (List.replicate 64 0) 0 = false), fun _ => rfl,
    fun hone => (h.1 hone).elim, fun htwo => (h.2 htwo).elim⟩

namespace SrCall

variable {call : SrCall} {e : JmEvent}

/-- The words of a record that was not read fit. -/
theorem fits_blank : call.blank.Fits := by
  have hflags := call.outcomes.flags_opening_le
  have hcode : call.kind.code ≤ 2 := by cases call.kind <;> decide
  refine ⟨?_, rfl⟩
  simp only [Layout.Fits, JmEvent.words, List.forall_mem_cons, blank]
  refine ⟨(by decide : srMagic < 256 ^ 4), (by decide : 1 < 256 ^ 4), UInt64.toNat_lt _,
    UInt64.toNat_lt _, UInt64.toNat_lt _, UInt64.toNat_lt _, UInt64.toNat_lt _, UInt64.toNat_lt _,
    (by decide : jmUnavailable < 256 ^ 4), ?_, by decide, by decide, ?_, by decide, by decide, by simp⟩
  · omega
  · omega

/-- The field of a record after the value is cleared. -/
theorem FieldOk.cleared (h : call.FieldOk e) : (Metadata.cleared e).ValueOk ∧
    (Metadata.cleared e).Fits ∧ call.blank.Extends (Metadata.cleared e) ∧
    (Metadata.cleared e).Within ∧
    ((Metadata.cleared e).status = 1 ∨ (Metadata.cleared e).status = 2 ∨
      (Metadata.cleared e).status = 3 ∨ (Metadata.cleared e).status = 4 ∨
      (Metadata.cleared e).status = 5 ∨ (Metadata.cleared e).status = 7) := by
  rcases h with ⟨hhead, hwithin, hstatus⟩ | ⟨bs, hcarries, hwithin, -⟩
  · have hnone : e.status ≠ 1 ∧ e.status ≠ 2 := by omega
    have hok := valueOk_cleared hnone
    rw [cleared_of_none hnone] at hok ⊢
    refine ⟨hok, ?_, hhead, hwithin, ?_⟩
    · have hhead' : call.blank.Extends { e with value := List.replicate 64 0, copiedLength := 0 } :=
        hhead
      exact hhead'.fits fits_blank hwithin.1 (hwithin.2.1.trans (by decide)) hwithin.2.2
        (by change e.status ≤ 7; omega) (Nat.zero_le 64) rfl
    · change e.status = 1 ∨ e.status = 2 ∨ e.status = 3 ∨ e.status = 4 ∨ e.status = 5 ∨ e.status = 7
      omega
  · have hsome : e.status = 1 ∨ e.status = 2 := by
      have hstatus := hcarries.status
      omega
    rw [cleared_of_some hsome]
    refine ⟨hcarries.valueOk, ?_, hcarries.head, hwithin, by omega⟩
    exact hcarries.fits fits_blank hwithin.1 (hwithin.2.1.trans (by decide))

end SrCall

/-- Every record is sound. -/
theorem sound_sessionRouting (call : SrCall) : (sessionRouting call).Sound := by
  obtain ⟨hfield, hendpoint⟩ := call.ok_filled
  obtain ⟨hvalue, hfits, hhead, hwithin, hstatus⟩ := hfield.cleared
  have hkind : (cleared call.filled.field).getterResult = call.kind.code := hhead.2.2.2.2.2.2.2.2.1
  have hstatuses := hendpoint.status
  refine ⟨hfits, hendpoint.address, hendpoint.port, hendpoint.domain, ?_, hhead.1, hhead.2.1,
    hstatus, hwithin.1, hwithin.2.1, hvalue, ?_, hendpoint.none⟩
  · change call.filled.endpointStatus < 256 ^ 4
    omega
  · rcases hstatuses with ⟨hsession, hzero⟩ | ⟨hroute, hcode⟩
    · exact Or.inl ⟨by rw [hsession] at hkind; exact hkind, hzero⟩
    · exact Or.inr ⟨by rw [hroute] at hkind; exact hkind, hcode⟩

/-- A reported value is the front of its source, and no other record has value bytes. -/
theorem sessionRouting_value (call : SrCall) :
    (¬((sessionRouting call).field.status = 1 ∨ (sessionRouting call).field.status = 2) →
      (sessionRouting call).field.value = List.replicate 64 0) ∧
    ((sessionRouting call).field.status = 1 ∨ (sessionRouting call).field.status = 2 → ∃ bs,
      (sessionRouting call).field.copiedLength = bs.length ∧
      (sessionRouting call).field.value = padded bs ∧ call.Sourced (sessionRouting call).field bs) := by
  obtain ⟨hfield, -⟩ := call.ok_filled
  change (¬((cleared call.filled.field).status = 1 ∨ (cleared call.filled.field).status = 2) → _) ∧
    ((cleared call.filled.field).status = 1 ∨ (cleared call.filled.field).status = 2 → _)
  rcases hfield with ⟨-, -, hstatus⟩ | ⟨bs, hcarries, -, hsourced⟩
  · have hnone : call.filled.field.status ≠ 1 ∧ call.filled.field.status ≠ 2 := by omega
    have heq := cleared_of_none hnone
    refine ⟨fun _ => congrArg JmEvent.value heq, fun hsome => ?_⟩
    rw [heq] at hsome
    exact (hsome.elim hnone.1 hnone.2).elim
  · have hsome : call.filled.field.status = 1 ∨ call.filled.field.status = 2 := by
      have hstatus := hcarries.status
      omega
    have heq := cleared_of_some hsome
    rw [heq]
    refine ⟨fun hnone => (hnone hsome).elim, fun _ => ⟨bs, ?_, ?_, ?_⟩⟩
    · exact (congrArg JmEvent.copiedLength heq).trans hcarries.copied
    · exact (congrArg JmEvent.value heq).trans hcarries.value
    · change call.Sourced (cleared call.filled.field) bs
      rw [heq]
      exact hsourced

end Metadata
end LiveSurface
