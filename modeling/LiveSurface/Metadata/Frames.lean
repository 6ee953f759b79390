import LiveSurface.Metadata.Decode

/-!
# Exchange frames and HTTP records

The combined program puts a 48-byte frame before each record it emits.  An HTTP
record has 96 bytes, and since its second version a block of 32 bytes about the
client's TLS.

Main results:

- Theorem {lit}`GroupHeader.unpack_bytes`, theorem {lit}`RmEvent.unpack_bytes` and
  theorem {lit}`TlsBlock.unpack_bytes`: what fits its words is unpacked as it was
  packed.
- Theorem {lit}`unwrap_bytes`: a frame is taken off the record it was put before.
-/

namespace LiveSurface
namespace Metadata

/-! ## Exchange frames -/

/-- The 48-byte header of a frame. -/
structure GroupHeader where
  magic : Nat
  abi : Nat
  length : Nat
  side : Nat
  ownerInstance : Nat
  exchange : Nat
  status : Nat
  phase : Nat
  invocation : Nat
deriving DecidableEq

/-- The words of a frame header with their widths, in wire order. -/
def GroupHeader.words (h : GroupHeader) : List (Nat × Nat) :=
  [(4, h.magic), (4, h.abi), (4, h.length), (4, h.side), (8, h.ownerInstance), (8, h.exchange),
    (4, h.status), (4, h.phase), (8, h.invocation)]

/-- The bytes a program emits for a frame header. -/
def GroupHeader.bytes (h : GroupHeader) : List UInt8 := Layout.pack h.words

/-- {lit}`struct.Struct("<4I2Q2IQ").unpack_from`. -/
def GroupHeader.unpack (payload : List UInt8) : GroupHeader :=
  let w := Layout.unpack [4, 4, 4, 4, 8, 8, 4, 4, 8] payload
  { magic := w.getD 0 0
    abi := w.getD 1 0
    length := w.getD 2 0
    side := w.getD 3 0
    ownerInstance := w.getD 4 0
    exchange := w.getD 5 0
    status := w.getD 6 0
    phase := w.getD 7 0
    invocation := w.getD 8 0 }

/-- Every field of a frame header fits its word. -/
def GroupHeader.Fits (h : GroupHeader) : Prop := Layout.Fits h.words

@[simp]
theorem GroupHeader.length_bytes (h : GroupHeader) : h.bytes.length = 48 := by
  simp [GroupHeader.bytes, GroupHeader.words]

/-- A frame header that fits is unpacked as it was packed, whatever follows it. -/
theorem GroupHeader.unpack_bytes {h : GroupHeader} (hfits : h.Fits) (record : List UInt8) :
    GroupHeader.unpack (h.bytes ++ record) = h := by
  have hwords : Layout.unpack [4, 4, 4, 4, 8, 8, 4, 4, 8] (h.bytes ++ record) =
      h.words.map Prod.snd := Layout.unpack_pack_of_fits hfits record
  simp only [GroupHeader.unpack, hwords]
  rfl

/-- What {lit}`unwrap` keeps of a header.  The 64-bit fields are decimal strings in
the source. -/
structure GroupFrame where
  ownerInstance : Nat
  exchange : Nat
  status : Nat
  phase : Nat
  side : Nat
  invocation : Nat
deriving DecidableEq

def GROUP_MAGIC : Nat := 0x41474331

/-- {lit}`activity_group_decode.unwrap`. -/
def unwrap (payload : List UInt8) : Except String (GroupFrame × List UInt8) :=
  if payload.length < 48 then .error "short activity group frame"
  else
    let h := GroupHeader.unpack payload
    if h.magic ≠ GROUP_MAGIC ∨ h.abi ≠ 2 ∨ h.length ∉ [96, 104, 128, 144] ∨
        payload.length ≠ 48 + h.length ∨ h.side ∉ [0, 1, 2] ∨ h.status ≥ 7 ∨ h.phase ≥ 5 then
      .error "invalid activity group frame"
    else if ¬(h.ownerInstance ≠ 0 ↔ h.exchange ≠ 0) ∨ ¬(h.phase ≠ 0 ↔ h.exchange ≠ 0) ∨
        (h.exchange ≠ 0 ∧ (h.side = 0 ∨ h.invocation = 0)) ∨
        (h.status = 1 ∧ h.exchange = 0) then
      .error "inconsistent activity group key"
    else .ok ({
      ownerInstance := h.ownerInstance
      exchange := h.exchange
      status := h.status
      phase := h.phase
      side := h.side
      invocation := h.invocation }, payload.drop 48)

/-- A header whose fields agree with each other and with the record after it. -/
structure GroupHeader.Consistent (h : GroupHeader) (record : List UInt8) : Prop where
  magic : h.magic = GROUP_MAGIC
  abi : h.abi = 2
  length : h.length = record.length
  known : h.length ∈ [96, 104, 128, 144]
  side : h.side ∈ [0, 1, 2]
  status : h.status < 7
  phase : h.phase < 5
  owner : h.ownerInstance ≠ 0 ↔ h.exchange ≠ 0
  started : h.phase ≠ 0 ↔ h.exchange ≠ 0
  keyed : h.exchange ≠ 0 → h.side ≠ 0 ∧ h.invocation ≠ 0
  complete : h.status = 1 → h.exchange ≠ 0

/-- The frame of a header. -/
def GroupHeader.frame (h : GroupHeader) : GroupFrame where
  ownerInstance := h.ownerInstance
  exchange := h.exchange
  status := h.status
  phase := h.phase
  side := h.side
  invocation := h.invocation

/-- A consistent frame is taken off the record it was put before. -/
theorem unwrap_bytes {h : GroupHeader} {record : List UInt8} (hfits : h.Fits)
    (hc : h.Consistent record) : unwrap (h.bytes ++ record) = .ok (h.frame, record) := by
  have hlength : (h.bytes ++ record).length = 48 + record.length := by
    rw [List.length_append, h.length_bytes]
  unfold unwrap
  rw [if_neg (by omega)]
  simp only [GroupHeader.unpack_bytes hfits record]
  rw [if_neg, if_neg]
  · rw [List.drop_left' h.length_bytes]
    rfl
  · rintro (howner | hphase | ⟨hexchange, hside | hinvocation⟩ | ⟨hstatus, hexchange⟩)
    · exact howner hc.owner
    · exact hphase hc.started
    · exact (hc.keyed hexchange).1 hside
    · exact (hc.keyed hexchange).2 hinvocation
    · exact hc.complete hstatus hexchange
  · rintro (hmagic | habi | hknown | hlen | hside | hstatus | hphase)
    · exact hmagic hc.magic
    · exact habi hc.abi
    · exact hknown hc.known
    · rw [hlength, hc.length] at hlen
      exact hlen rfl
    · exact hside hc.side
    · exact Nat.not_le_of_lt hc.status hstatus
    · exact Nat.not_le_of_lt hc.phase hphase

/-! ## HTTP records -/

/-- The 96-byte HTTP record, {lit}`struct rm_event` without its TLS block. -/
structure RmEvent where
  magic : Nat
  abi : Nat
  instanceId : Nat
  revision : Nat
  run : Nat
  monotonicNs : Nat
  sequence : Nat
  outputFailures : Nat
  code : Nat
  presence : Nat
  flags : Nat
  reads : Nat
  sourceBytes : Nat
  httpStatusState : Nat
  httpStatus : Nat
  completionState : Nat
  transferComplete : Nat
  reserved : Nat
deriving DecidableEq

/-- The words of an HTTP record with their widths, in wire order. -/
def RmEvent.words (e : RmEvent) : List (Nat × Nat) :=
  [(4, e.magic), (4, e.abi), (8, e.instanceId), (8, e.revision), (8, e.run),
    (8, e.monotonicNs), (8, e.sequence), (8, e.outputFailures), (4, e.code), (4, e.presence),
    (4, e.flags), (4, e.reads), (4, e.sourceBytes), (4, e.httpStatusState), (4, e.httpStatus),
    (4, e.completionState), (4, e.transferComplete), (4, e.reserved)]

/-- The bytes a program emits for an HTTP record. -/
def RmEvent.bytes (e : RmEvent) : List UInt8 := Layout.pack e.words

/-- {lit}`struct.Struct("<II6Q10I").unpack_from`. -/
def RmEvent.unpack (payload : List UInt8) : RmEvent :=
  let w := Layout.unpack [4, 4, 8, 8, 8, 8, 8, 8, 4, 4, 4, 4, 4, 4, 4, 4, 4, 4] payload
  { magic := w.getD 0 0
    abi := w.getD 1 0
    instanceId := w.getD 2 0
    revision := w.getD 3 0
    run := w.getD 4 0
    monotonicNs := w.getD 5 0
    sequence := w.getD 6 0
    outputFailures := w.getD 7 0
    code := w.getD 8 0
    presence := w.getD 9 0
    flags := w.getD 10 0
    reads := w.getD 11 0
    sourceBytes := w.getD 12 0
    httpStatusState := w.getD 13 0
    httpStatus := w.getD 14 0
    completionState := w.getD 15 0
    transferComplete := w.getD 16 0
    reserved := w.getD 17 0 }

/-- Every field of an HTTP record fits its word. -/
def RmEvent.Fits (e : RmEvent) : Prop := Layout.Fits e.words

@[simp]
theorem RmEvent.length_bytes (e : RmEvent) : e.bytes.length = 96 := by
  simp [RmEvent.bytes, RmEvent.words]

/-- An HTTP record that fits is unpacked as it was packed. -/
theorem RmEvent.unpack_bytes {e : RmEvent} (h : e.Fits) (rest : List UInt8) :
    RmEvent.unpack (e.bytes ++ rest) = e := by
  have hwords : Layout.unpack [4, 4, 8, 8, 8, 8, 8, 8, 4, 4, 4, 4, 4, 4, 4, 4, 4, 4]
      (e.bytes ++ rest) = e.words.map Prod.snd := Layout.unpack_pack_of_fits h rest
  simp only [RmEvent.unpack, hwords]
  rfl

/-- The 32-byte TLS block. -/
structure TlsBlock where
  mode : Nat
  reason : Nat
  nodes : Nat
  bits : Nat
  proto : Nat
  suite : Nat
  pcm : Nat
  vfy : Nat
deriving DecidableEq

/-- The words of a TLS block with their widths, in wire order. -/
def TlsBlock.words (t : TlsBlock) : List (Nat × Nat) :=
  [(4, t.mode), (4, t.reason), (4, t.nodes), (4, t.bits), (4, t.proto), (4, t.suite), (4, t.pcm),
    (4, t.vfy)]

/-- The bytes a program emits for a TLS block. -/
def TlsBlock.bytes (t : TlsBlock) : List UInt8 := Layout.pack t.words

/-- {lit}`struct.Struct("<8I").unpack`. -/
def TlsBlock.unpack (payload : List UInt8) : TlsBlock :=
  let w := Layout.unpack [4, 4, 4, 4, 4, 4, 4, 4] payload
  { mode := w.getD 0 0
    reason := w.getD 1 0
    nodes := w.getD 2 0
    bits := w.getD 3 0
    proto := w.getD 4 0
    suite := w.getD 5 0
    pcm := w.getD 6 0
    vfy := w.getD 7 0 }

/-- Every field of a TLS block fits its word. -/
def TlsBlock.Fits (t : TlsBlock) : Prop := Layout.Fits t.words

@[simp]
theorem TlsBlock.length_bytes (t : TlsBlock) : t.bytes.length = 32 := by
  simp [TlsBlock.bytes, TlsBlock.words]

/-- A TLS block that fits is unpacked as it was packed. -/
theorem TlsBlock.unpack_bytes {t : TlsBlock} (h : t.Fits) : TlsBlock.unpack t.bytes = t := by
  have hwords : Layout.unpack [4, 4, 4, 4, 4, 4, 4, 4] t.bytes = t.words.map Prod.snd := by
    have := Layout.unpack_pack_of_fits h []
    rwa [List.append_nil] at this
  simp only [TlsBlock.unpack, hwords]
  rfl

def responseStates : Nat → Option String
  | 0 => some "not_applicable"
  | 1 => some "complete"
  | 3 => some "read_failed"
  | 4 => some "out_of_scope"
  | 7 => some "unavailable"
  | _ => none

def responseEvents : Nat → Option String
  | 28 => some "HUDCTL_RESPONSE"
  | 144 => some "HUDEVT_RESPONSE"
  | 29 => some "HUDCTL_RESPONSE_DONE"
  | 145 => some "HUDEVT_RESPONSE_DONE"
  | 1 => some "HUDCTL_ABORT"
  | 34 => some "HUDEVT_ABORTED"
  | 5 => some "HUDCTL_TEARDOWN"
  | 142 => some "HUDEVT_REQUEST"
  | 27 => some "HUDCTL_REQUEST_DONE"
  | 143 => some "HUDEVT_REQUEST_DONE"
  | _ => none

def tlsModes : Nat → Option String
  | 0 => some "not_applicable"
  | 1 => some "terminated"
  | 2 => some "ssl_filter_not_decrypting"
  | 3 => some "no_ssl_filter"
  | 4 => some "unknown"
  | _ => none

def tlsReasons : Nat → Option (Option String)
  | 0 => some none
  | 1 => some (some "read_failed")
  | 2 => some (some "walk_limit")
  | 3 => some (some "multiple_ssl_filters")
  | 4 => some (some "server_side_entity")
  | 5 => some (some "inactive_context")
  | 6 => some (some "invalid_flow")
  | _ => none

def protocols : Nat → Option (Option String)
  | 0 => some none
  | 1 => some (some "SSLv2")
  | 2 => some (some "SSLv3")
  | 3 => some (some "TLSv1")
  | 4 => some (some "TLSv1.1")
  | 5 => some (some "TLSv1.2")
  | 6 => some (some "TLSv1.3")
  | 7 => some (some "DTLSv1")
  | 8 => some (some "DTLSv1.2")
  | 9 => some (some "GMSSLv1.1")
  | _ => none

def certModes : Nat → Option String
  | 0 => some "ignore"
  | 1 => some "require"
  | 2 => some "request"
  | _ => none

/-- The facts of a TLS block, one bit each. -/
structure TlsFlags where
  handshakeOk : Bool
  passthru : Bool
  chainPresent : Bool
  sessionCertPresent : Bool
  retainCertificate : Bool
  ticketResumed : Bool
  sessionResumed : Bool
  allowNonssl : Bool
deriving DecidableEq

/-- The bits of a TLS block in the order of {lit}`TLS_BITS`. -/
def TlsFlags.ofBits (bits : Nat) : TlsFlags where
  handshakeOk := bits.testBit 0
  passthru := bits.testBit 1
  chainPresent := bits.testBit 2
  sessionCertPresent := bits.testBit 3
  retainCertificate := bits.testBit 4
  ticketResumed := bits.testBit 5
  sessionResumed := bits.testBit 6
  allowNonssl := bits.testBit 7

/-- What a reading of an SSL filter adds. -/
structure TlsDetail where
  protocol : Option String
  protocolNumber : Nat
  cipherSuiteId : Nat
  peerCertMode : String
  verifyResult : Nat
  clientCertificate : String
  flags : TlsFlags
deriving DecidableEq

/-- A decoded TLS block. -/
structure ClientTls where
  mode : String
  filterNodes : Nat
  /-- present when the mode is unknown -/
  reason : Option (Option String)
  detail : Option TlsDetail
deriving DecidableEq

/-- The state of the client certificate that a reading shows. -/
def certificateState (flags : TlsFlags) (pcm vfy : Nat) : String :=
  if pcm = 0 then "not_requested"
  else if flags.chainPresent ∨ flags.sessionCertPresent then
    if vfy = 0 then "verified" else "failed"
  else if flags.retainCertificate then "none_observed"
  else "unknown"

/-- {lit}`decode_tls`. -/
def decodeTls (payload : List UInt8) : Except String ClientTls :=
  let t := TlsBlock.unpack payload
  match tlsModes t.mode, tlsReasons t.reason, protocols t.proto, certModes t.pcm with
  | some mode, some reason, some protocol, some certMode =>
      if t.nodes > 16 ∨ t.bits >>> 8 ≠ 0 ∨ t.suite > 0xffff ∨ t.vfy > 127 then
        .error "invalid TLS block"
      else if ¬(t.mode = 4 ↔ t.reason ≠ 0) then .error "TLS reason on wrong mode"
      else if ¬(t.mode = 1 ∨ t.mode = 2) ∧
          (t.bits ≠ 0 ∨ t.proto ≠ 0 ∨ t.suite ≠ 0 ∨ t.pcm ≠ 0 ∨ t.vfy ≠ 0) then
        .error "TLS values without an SSL filter reading"
      else if t.mode = 0 ∧ t.nodes ≠ 0 then .error "TLS walk on an inapplicable event"
      else
        let flags := TlsFlags.ofBits t.bits
        if t.mode = 1 ∧ (¬flags.handshakeOk ∨ flags.passthru) then
          .error "terminated without a completed decrypting handshake"
        else if t.mode = 2 ∧ flags.handshakeOk ∧ ¬flags.passthru then
          .error "not-decrypting with a completed decrypting handshake"
        else .ok {
          mode
          filterNodes := t.nodes
          reason := if t.mode = 4 then some reason else none
          detail :=
            if t.mode = 1 ∨ t.mode = 2 then
              some {
                protocol
                protocolNumber := t.proto
                cipherSuiteId := t.suite
                peerCertMode := certMode
                verifyResult := t.vfy
                clientCertificate := certificateState flags t.pcm t.vfy
                flags }
            else none }
  | _, _, _, _ => .error "invalid TLS block"

/-- A decoded HTTP record. -/
structure DecodedResponse where
  event : RmEvent
  clientTls : Option ClientTls
  httpStatusStateName : String
  completionStateName : String
  eventName : Option String
deriving DecidableEq

/-- {lit}`response_metadata_decode.decode`. -/
def responseMetadataDecode (payload : List UInt8) : Except String DecodedResponse :=
  if payload.length ≠ 96 ∧ payload.length ≠ 128 then .error "response metadata size"
  else
    let event := RmEvent.unpack payload
    let status := event.httpStatusState
    let done := event.completionState
    match responseStates status, responseStates done with
    | some statusName, some doneName =>
        if event.magic ≠ 0x5253504d ∨ ¬(event.abi = 1 ∨ event.abi = 2) ∨
            payload.length ≠ (if event.abi = 1 then 96 else 128) ∨ event.reserved ≠ 0 ∨
            event.presence > 7 ∨ event.flags > 15 ∨ event.reads > 4 ∨ event.sourceBytes > 16 ∨
            ¬(done = 0 ∨ done = 1 ∨ done = 4 ∨ done = 7) then
          .error "invalid response metadata"
        else if ¬((event.code = 28 ∨ event.code = 144) ↔ status ≠ 0) then
          .error "status on wrong event"
        else if ¬((event.code = 29 ∨ event.code = 145) ↔ done ≠ 0) then
          .error "completion on wrong event"
        else if status = 1 ∧ ¬(100 ≤ event.httpStatus ∧ event.httpStatus ≤ 999) then
          .error "invalid HTTP status"
        else if status ≠ 1 ∧ event.httpStatus ≠ 0 then
          .error "value on unavailable HTTP status"
        else if done = 1 ∧ ¬(event.transferComplete = 0 ∨ event.transferComplete = 1) then
          .error "invalid completion Boolean"
        else if done ≠ 1 ∧ event.transferComplete ≠ 0 then
          .error "value on unavailable completion"
        else
          let decoded (clientTls : Option ClientTls) : DecodedResponse := {
            event, clientTls
            httpStatusStateName := statusName
            completionStateName := doneName
            eventName := responseEvents event.code }
          if event.abi = 2 then
            match decodeTls (payload.drop 96) with
            | .error text => .error text
            | .ok tls =>
                if event.code ≠ 142 ∧ tls.mode ≠ "not_applicable" then
                  .error "TLS reading on wrong event"
                else .ok (decoded (some tls))
          else .ok (decoded none)
    | _, _ => .error "invalid response metadata"

end Metadata
end LiveSurface
