import LiveSurface.Metadata.Opening
import LiveSurface.Metadata.Tls

/-!
# The HTTP reader of the combined program

One call reports one handler event: its arguments, an HTTP status or a completion where the
event has one, and at a request header the TLS state of the client connection.

Main results:

- Definition {lit}`responseMetadata`: the record of a call.
- Theorem {lit}`sound_responseMetadata`: the HTTP part of every record passes its checks.
- Theorem {lit}`responseMetadata_decodes_iff`: which records decode.
-/

namespace LiveSurface
namespace Metadata

/-- One call of the HTTP reader: the arguments of the handler, the memory, and what the helpers
return. -/
structure RmCall where
  arg : Fin 5 → UInt64
  mem : ProbeMemory
  outcomes : Outcomes

def rmMagic : Nat := 0x5253504d
def rmComplete : Nat := 1
def rmReadFailed : Nat := 3
def rmOutOfScope : Nat := 4
def rmUnavailable : Nat := 7

namespace RmCall

variable (call : RmCall)

/-- The event code. -/
def code : Nat := (call.arg 1).toNat % 2 ^ 32

/-- Which arguments are there. -/
def presence : Nat :=
  (if call.arg 0 ≠ 0 then 1 else 0) ||| (if call.arg 2 ≠ 0 then 1 else 0) <<< 1 |||
    (if call.arg 3 ≠ 0 then 1 else 0) <<< 2

/-- The record before the event is read. -/
def blank : RmEvent where
  magic := rmMagic
  abi := 2
  instanceId := call.outcomes.opening.instanceId.toNat
  revision := call.outcomes.opening.revision.toNat
  run := call.outcomes.opening.run.toNat
  monotonicNs := call.outcomes.opening.monotonicNs.toNat
  sequence := call.outcomes.opening.sequence.toNat
  outputFailures := call.outcomes.opening.outputFailures.toNat
  code := call.code
  presence := call.presence
  flags := call.outcomes.opening.flags
  reads := 0
  sourceBytes := 0
  httpStatusState := if call.code = 28 ∨ call.code = 144 then rmUnavailable else 0
  httpStatus := 0
  completionState := if call.code = 29 ∨ call.code = 145 then rmUnavailable else 0
  transferComplete := 0
  reserved := 0

/-- The counts of {lit}`read_field`. -/
def count (e : RmEvent) (size : Nat) : RmEvent :=
  { e with reads := e.reads + 1, sourceBytes := e.sourceBytes + size }

/-- The status of a response. -/
def extractStatus (e : RmEvent) : RmEvent :=
  let e := count e 1
  match readWord call.mem 1 (call.arg 3 + 28) with
  | none => { e with httpStatusState := rmReadFailed }
  | some flags =>
      if flags &&& 3 ≠ 0 then { e with httpStatusState := rmOutOfScope }
      else
        let e := count e 4
        match readWord call.mem 4 (call.arg 3 + 36) with
        | none => { e with httpStatusState := rmReadFailed }
        | some status =>
            if status < 100 ∨ status > 999 then { e with httpStatusState := rmOutOfScope }
            else { e with httpStatus := status, httpStatusState := rmComplete }

/-- {lit}`extract`. -/
def extract (e : RmEvent) : RmEvent :=
  if call.arg 0 = 0 ∨ call.arg 2 = 0 then e
  else if e.completionState = rmUnavailable then
    if call.arg 3 > 1 then { e with completionState := rmOutOfScope }
    else { e with transferComplete := (call.arg 3).toNat, completionState := rmComplete }
  else if e.httpStatusState = rmUnavailable then
    if call.arg 3 = 0 then e else call.extractStatus e
  else e

/-- The HTTP part of the record. -/
def event : RmEvent :=
  if call.outcomes.opening.state.isSome then call.extract call.blank else call.blank

/-- The TLS part of the record. -/
def tls : TlsBlock :=
  if call.outcomes.opening.state.isSome ∧ call.code = 142 ∧ call.arg 0 ≠ 0 then
    tlsMode call.mem (call.arg 2)
  else .zero

end RmCall

/-- {lit}`response_metadata`: the bytes of the record that a call emits. -/
def responseMetadata (call : RmCall) : List UInt8 := call.event.bytes ++ call.tls.bytes

/-! ## The HTTP part -/

/-- The checks of the decoder on the HTTP part. -/
structure RmEvent.Sound (e : RmEvent) : Prop where
  fits : e.Fits
  magic : e.magic = 0x5253504d
  abi : e.abi = 2
  reserved : e.reserved = 0
  presence : e.presence ≤ 7
  flags : e.flags ≤ 15
  reads : e.reads ≤ 4
  sourceBytes : e.sourceBytes ≤ 16
  state : e.httpStatusState = 0 ∨ e.httpStatusState = 1 ∨ e.httpStatusState = 3 ∨
    e.httpStatusState = 4 ∨ e.httpStatusState = 7
  done : e.completionState = 0 ∨ e.completionState = 1 ∨ e.completionState = 4 ∨
    e.completionState = 7
  stateEvent : e.code = 28 ∨ e.code = 144 ↔ e.httpStatusState ≠ 0
  doneEvent : e.code = 29 ∨ e.code = 145 ↔ e.completionState ≠ 0
  status : e.httpStatusState = 1 → 100 ≤ e.httpStatus ∧ e.httpStatus ≤ 999
  noStatus : e.httpStatusState ≠ 1 → e.httpStatus = 0
  complete : e.completionState = 1 → e.transferComplete = 0 ∨ e.transferComplete = 1
  incomplete : e.completionState ≠ 1 → e.transferComplete = 0

theorem isSome_responseStates {m : Nat} (h : m = 0 ∨ m = 1 ∨ m = 3 ∨ m = 4 ∨ m = 7) :
    ∃ name, responseStates m = some name := by
  rcases h with rfl | rfl | rfl | rfl | rfl <;> exact ⟨_, rfl⟩

/-- A record with a sound HTTP part decodes when its TLS block does. -/
theorem RmEvent.Sound.decodes_iff {e : RmEvent} {t : TlsBlock} (h : e.Sound) (ht : t.Fits)
    (hevent : e.code ≠ 142 → t = .zero) :
    (∃ d, responseMetadataDecode (e.bytes ++ t.bytes) = .ok d) ↔ t.Accepted := by
  have hlength : (e.bytes ++ t.bytes).length = 128 := by
    rw [List.length_append, e.length_bytes, t.length_bytes]
  have hdrop : (e.bytes ++ t.bytes).drop 96 = t.bytes := List.drop_left' e.length_bytes
  obtain ⟨stateName, hstate⟩ := isSome_responseStates h.state
  obtain ⟨doneName, hdone⟩ := @isSome_responseStates e.completionState (by have := h.done; omega)
  rw [← decodeTls_ok_iff ht]
  have hmagic : ¬(e.magic ≠ 0x5253504d ∨ ¬(e.abi = 1 ∨ e.abi = 2) ∨
      (e.bytes ++ t.bytes).length ≠ (if e.abi = 1 then 96 else 128) ∨ e.reserved ≠ 0 ∨
      e.presence > 7 ∨ e.flags > 15 ∨ e.reads > 4 ∨ e.sourceBytes > 16 ∨
      ¬(e.completionState = 0 ∨ e.completionState = 1 ∨ e.completionState = 4 ∨
        e.completionState = 7)) := by
    have hsize : (e.bytes ++ t.bytes).length = if e.abi = 1 then 96 else 128 := by
      rw [hlength, h.abi]
      rfl
    rintro (hbad | hbad | hbad | hbad | hbad | hbad | hbad | hbad | hbad)
    · exact hbad h.magic
    · exact hbad (Or.inr h.abi)
    · exact hbad hsize
    · exact hbad h.reserved
    · exact Nat.not_lt.mpr h.presence hbad
    · exact Nat.not_lt.mpr h.flags hbad
    · exact Nat.not_lt.mpr h.reads hbad
    · exact Nat.not_lt.mpr h.sourceBytes hbad
    · exact hbad h.done
  have hstatus : ¬(e.httpStatusState = 1 ∧ ¬(100 ≤ e.httpStatus ∧ e.httpStatus ≤ 999)) :=
    fun hbad => hbad.2 (h.status hbad.1)
  have hnoStatus : ¬(e.httpStatusState ≠ 1 ∧ e.httpStatus ≠ 0) :=
    fun hbad => hbad.2 (h.noStatus hbad.1)
  have hcomplete : ¬(e.completionState = 1 ∧
      ¬(e.transferComplete = 0 ∨ e.transferComplete = 1)) :=
    fun hbad => hbad.2 (h.complete hbad.1)
  have hincomplete : ¬(e.completionState ≠ 1 ∧ e.transferComplete ≠ 0) :=
    fun hbad => hbad.2 (h.incomplete hbad.1)
  have hsize : ¬((e.bytes ++ t.bytes).length ≠ 96 ∧ (e.bytes ++ t.bytes).length ≠ 128) := by
    rw [hlength]
    simp
  unfold responseMetadataDecode
  rw [if_neg hsize]
  simp only [RmEvent.unpack_bytes h.fits, hstate, hdone, hdrop]
  rw [if_neg hmagic, if_neg (not_not_intro h.stateEvent), if_neg (not_not_intro h.doneEvent),
    if_neg hstatus, if_neg hnoStatus, if_neg hcomplete, if_neg hincomplete, if_pos h.abi]
  cases htls : decodeTls t.bytes with
  | error text => simp
  | ok tls =>
      -- an event without a TLS reading carries the block of no reading
      have hmode : ¬(e.code ≠ 142 ∧ tls.mode ≠ "not_applicable") := by
        rintro ⟨hcode, hmode⟩
        rw [hevent hcode] at htls
        have hzero : decodeTls TlsBlock.zero.bytes =
            .ok ⟨"not_applicable", 0, none, none⟩ := by decide +kernel
        rw [hzero] at htls
        exact hmode (congrArg ClientTls.mode (Except.ok.inj htls)).symm
      simp only [if_neg hmode]
      exact ⟨fun _ => ⟨tls, rfl⟩, fun _ => ⟨_, rfl⟩⟩

section Extract

variable (call : RmCall)

/-- The record of a call with what its event read. -/
def RmCall.filled (reads sourceBytes httpStatusState httpStatus completionState
    transferComplete : Nat) : RmEvent :=
  { call.blank with
    reads, sourceBytes, httpStatusState, httpStatus, completionState, transferComplete }

theorem RmCall.presence_le : call.presence ≤ 7 := by
  unfold RmCall.presence
  split <;> split <;> split <;> decide

theorem RmCall.fits_filled {reads bytes state status done complete : Nat} (hreads : reads ≤ 4)
    (hbytes : bytes ≤ 16) (hstate : state ≤ 7) (hstatus : status ≤ 999) (hdone : done ≤ 7)
    (hcomplete : complete ≤ 1) :
    (call.filled reads bytes state status done complete).Fits := by
  have hpresence := call.presence_le
  have hflags := call.outcomes.flags_opening_le
  have hcode : call.code < 2 ^ 32 := Nat.mod_lt _ (by decide)
  simp only [RmEvent.Fits, Layout.Fits, RmEvent.words, List.forall_mem_cons]
  refine ⟨(by decide : rmMagic < 256 ^ 4), (by decide : 2 < 256 ^ 4), UInt64.toNat_lt _, UInt64.toNat_lt _, UInt64.toNat_lt _,
    UInt64.toNat_lt _, UInt64.toNat_lt _, UInt64.toNat_lt _, hcode, ?_, ?_, ?_, ?_, ?_, ?_, ?_, ?_,
    (by decide : 0 < 256 ^ 4), by simp⟩
  all_goals
    simp only [RmCall.filled, RmCall.blank]
    omega

/-- A record is sound when what its event read agrees with the event. -/
theorem RmCall.sound_filled {reads bytes state status done complete : Nat} (hreads : reads ≤ 4)
    (hbytes : bytes ≤ 16)
    (hstate : state = 0 ∨ state = 1 ∨ state = 3 ∨ state = 4 ∨ state = 7)
    (hdone : done = 0 ∨ done = 1 ∨ done = 4 ∨ done = 7)
    (hstateEvent : call.code = 28 ∨ call.code = 144 ↔ state ≠ 0)
    (hdoneEvent : call.code = 29 ∨ call.code = 145 ↔ done ≠ 0)
    (hstatus : if state = 1 then 100 ≤ status ∧ status ≤ 999 else status = 0)
    (hcomplete : if done = 1 then complete ≤ 1 else complete = 0) :
    (call.filled reads bytes state status done complete).Sound := by
  have hstatus_le : status ≤ 999 := by split at hstatus <;> omega
  have hcomplete_le : complete ≤ 1 := by split at hcomplete <;> omega
  refine ⟨call.fits_filled hreads hbytes (by omega) hstatus_le (by omega) hcomplete_le, rfl, rfl, rfl,
    call.presence_le, call.outcomes.flags_opening_le, hreads, hbytes, hstate, hdone, hstateEvent,
    hdoneEvent, fun hone => ?_, fun hne => ?_, fun hone => ?_, fun hne => ?_⟩
  · exact (if_pos hone ▸ hstatus :)
  · exact (if_neg hne ▸ hstatus :)
  · have hle : complete ≤ 1 := (if_pos hone ▸ hcomplete :)
    exact (by omega : complete = 0 ∨ complete = 1)
  · exact (if_neg hne ▸ hcomplete :)

/-- A record without a reading is sound. -/
theorem RmCall.sound_blank : call.blank.Sound := by
  change (call.filled 0 0 (if call.code = 28 ∨ call.code = 144 then rmUnavailable else 0) 0
    (if call.code = 29 ∨ call.code = 145 then rmUnavailable else 0) 0).Sound
  unfold rmUnavailable
  apply call.sound_filled (Nat.zero_le 4) (Nat.zero_le 16)
  all_goals grind

/-- A response status is read within two reads. -/
theorem RmCall.sound_extractStatus (hcode : call.code = 28 ∨ call.code = 144) :
    (call.extractStatus call.blank).Sound := by
  have hnot : ¬(call.code = 29 ∨ call.code = 145) := by omega
  have hblank : call.blank = call.filled 0 0 rmUnavailable 0 0 0 := by
    simp only [RmCall.filled, RmCall.blank, if_pos hcode, if_neg hnot]
  have hsound : ∀ {reads bytes state status}, reads ≤ 2 ∧ bytes ≤ 5 →
      (state = 1 ∨ state = 3 ∨ state = 4) →
      (if state = 1 then 100 ≤ status ∧ status ≤ 999 else status = 0) →
      (call.filled reads bytes state status 0 0).Sound := by
    intro reads bytes state status hreads hstate hstatus
    exact call.sound_filled (by omega) (by omega) (by omega) (Or.inl rfl)
      ⟨fun _ => by omega, fun _ => hcode⟩ ⟨fun hdone => (hnot hdone).elim, fun hne => (hne rfl).elim⟩
      hstatus rfl
  have honce : 1 ≤ 2 ∧ 1 ≤ 5 := by decide
  have htwice : 2 ≤ 2 ∧ 5 ≤ 5 := by decide
  rw [hblank]
  unfold RmCall.extractStatus
  split
  · exact hsound honce (Or.inr (Or.inl rfl)) rfl
  · split
    · exact hsound honce (Or.inr (Or.inr rfl)) rfl
    · split
      · exact hsound htwice (Or.inr (Or.inl rfl)) rfl
      · split
        · exact hsound htwice (Or.inr (Or.inr rfl)) rfl
        · rename_i status _ hrange
          have hrange : 100 ≤ status ∧ status ≤ 999 := by omega
          exact hsound htwice (Or.inl rfl) hrange

/-- The HTTP part of every record passes its checks. -/
theorem RmCall.sound_event : call.event.Sound := by
  unfold RmCall.event
  split
  case isFalse => exact call.sound_blank
  unfold RmCall.extract
  split
  · exact call.sound_blank
  by_cases hdone : call.code = 29 ∨ call.code = 145
  · have hnot : ¬(call.code = 28 ∨ call.code = 144) := by omega
    have hblank : call.blank = call.filled 0 0 0 0 rmUnavailable 0 := by
      simp only [RmCall.filled, RmCall.blank, if_pos hdone, if_neg hnot]
    have hsound : ∀ {done complete}, (done = 1 ∨ done = 4) →
        (if done = 1 then complete ≤ 1 else complete = 0) →
        (call.filled 0 0 0 0 done complete).Sound := by
      intro done complete hvalue hcomplete
      exact call.sound_filled (by decide) (by decide) (Or.inl rfl) (by omega)
        ⟨fun hstate => (hnot hstate).elim, fun hne => (hne rfl).elim⟩
        ⟨fun _ => by omega, fun _ => hdone⟩ rfl hcomplete
    have hcompletion : (call.filled 0 0 0 0 rmUnavailable 0).completionState = rmUnavailable := rfl
    rw [hblank, if_pos hcompletion]
    split
    · exact hsound (Or.inr rfl) rfl
    · rename_i hle
      have hle : (call.arg 3).toNat ≤ 1 := UInt64.le_iff_toNat_le.mp (UInt64.not_lt.mp hle)
      exact hsound (Or.inl rfl) hle
  · have hzero : call.blank.completionState ≠ rmUnavailable := by
      simp [RmCall.blank, hdone, rmUnavailable]
    rw [if_neg hzero]
    split
    · rename_i hstate
      split
      · exact call.sound_blank
      · apply call.sound_extractStatus
        by_contra hcode
        simp [RmCall.blank, hcode, rmUnavailable] at hstate
    · exact call.sound_blank

theorem RmCall.code_event : call.event.code = call.code := by
  unfold RmCall.event RmCall.extract RmCall.extractStatus
  split
  · split
    · rfl
    · split
      · split <;> rfl
      · split
        · split
          · rfl
          · split
            · rfl
            · split
              · rfl
              · split
                · rfl
                · split <;> rfl
        · rfl
  · rfl

end Extract

/-! ## The record -/

/-- A record decodes; an unknown TLS mode has a reason and no values; a terminated flow was
walked as a whole and has one SSL filter. -/
structure RmCall.Decodes (call : RmCall) : Prop where
  decodes : ∃ d, responseMetadataDecode (responseMetadata call) = .ok d
  unknown : call.tls.mode = rmTlsUnknown → call.tls.reason ≠ 0 ∧ call.tls.bits = 0 ∧
    call.tls.proto = 0 ∧ call.tls.suite = 0 ∧ call.tls.pcm = 0 ∧ call.tls.vfy = 0
  terminated : call.tls.mode = rmTlsTerminated → ∃ bottom nodes ssl,
    readPointer call.mem (call.arg 2 + 80) = some bottom ∧ Chain call.mem bottom nodes ∧
      sslNodes nodes = [ssl]

/-- Every SSL context that the call reads is lucid. -/
def RmCall.Lucid (call : RmCall) : Prop :=
  call.outcomes.Opened → call.code = 142 → call.arg 0 ≠ 0 →
    ∀ nodes ssl c, TlsReading call.mem (call.arg 2) nodes ssl c → c.Lucid call.mem

section Record

variable (call : RmCall)

theorem RmCall.fits_tls : call.tls.Fits := by
  unfold RmCall.tls
  split
  · exact fits_tlsMode _ _
  · exact TlsBlock.fits_of_small (by decide) (by decide) (by decide) (by decide) (by decide)
      (by decide) (by decide) (by decide)

theorem RmCall.accepted_tls_iff : call.tls.Accepted ↔ call.Lucid := by
  unfold RmCall.tls RmCall.Lucid
  rw [← call.outcomes.opened_iff]
  by_cases hread : call.outcomes.opening.state.isSome = true ∧ call.code = 142 ∧ call.arg 0 ≠ 0
  · rw [if_pos hread, accepted_tlsMode_iff]
    exact ⟨fun h _ _ _ => h, fun h => h hread.1 hread.2.1 hread.2.2⟩
  · rw [if_neg hread]
    have hzero : TlsBlock.zero.Plain :=
      ⟨Nat.zero_le _, ⟨rfl, rfl, rfl, rfl, rfl⟩, Or.inl ⟨rfl, rfl, rfl⟩⟩
    exact ⟨fun _ hopened hcode hnode => (hread ⟨hopened, hcode, hnode⟩).elim,
      fun _ => hzero.accepted⟩

/-- A record decodes as it should exactly when every SSL context that the call reads is
lucid. -/
theorem responseMetadata_decodes_iff : call.Decodes ↔ call.Lucid := by
  have htls : call.event.code ≠ 142 → call.tls = .zero := by
    rw [call.code_event]
    intro hcode
    exact if_neg fun hread => hcode hread.2.1
  have hdecodes := call.sound_event.decodes_iff call.fits_tls htls
  rw [← call.accepted_tls_iff]
  constructor
  · intro h
    exact hdecodes.mp h.decodes
  · intro haccepted
    refine ⟨hdecodes.mpr haccepted, fun hmode => ?_, fun hmode => ?_⟩
    · refine ⟨haccepted.reasoned.mp hmode, haccepted.values ?_⟩
      rw [hmode]
      decide
    · have hread : call.tls = tlsMode call.mem (call.arg 2) := by
        unfold RmCall.tls at hmode ⊢
        split at hmode
        case isTrue hread => exact if_pos hread
        case isFalse => exact absurd hmode (by decide)
      rw [hread] at hmode
      obtain ⟨nodes, ssl, c, hreading⟩ := reading_of_terminated hmode
      obtain ⟨bottom, hbottom, hchain⟩ := hreading.chain
      exact ⟨bottom, nodes, ssl, hbottom, hchain, hreading.one⟩

end Record

/-! ## A session that is gone -/

/-- A memory with some ranges that can be read. -/
def memoryOf (ranges : List (Nat × List UInt8)) : ProbeMemory := fun a =>
  ranges.findSome? fun r => if r.1 ≤ a then r.2[a - r.1]? else none

/-- A client flow with one SSL filter that asks for a certificate.  The session of its context
cannot be read. -/
def goneSession : ProbeMemory :=
  memoryOf [
    -- the flow: its type and its bottom node
    (0x1024, [6, 0x40]), (0x1050, littleEndian 8 0x2000),
    -- the node: no node above, the flags of an active context, the filter
    (0x2018, littleEndian 8 0), (0x202c, littleEndian 4 (3 <<< 22)),
    (0x2030, littleEndian 8 0x3048), (0x3000, littleEndian 8 0x4000),
    (0x4000, littleEndian 8 0x5000), (0x5000, littleEndian 4 rmSslName),
    -- the context: a client that requires a certificate
    (0x2040, Layout.pack [(4, 0), (4, 1 <<< 15), (4, 0), (4, 1 ||| 1 <<< 26), (4, 0), (4, 0), (4, 0),
      (4, 0), (4, 0), (4, 0), (4, 0)]),
    (0x2088, Layout.pack [(8, 0), (8, 0x7000), (8, 0), (8, 0), (8, 0)]),
    (0x2248, Layout.pack [(8, 0), (8, 0x2f ||| 5 <<< 40)])]

/-- The request header of that flow. -/
def goneSessionCall : RmCall where
  arg i := if i = 0 then 0x6000 else if i = 1 then 142 else if i = 2 then 0x1000 else 0
  mem := goneSession
  outcomes := {
    clock := 1
    head := some { revision := 1, instanceId := 1, schema := 1, entries := 1 }
    policy := some fun i => if i = 0 then 1 else 0
    found := none
    stored := true
    again := some { instanceId := 1, calls := 0, failures := 0 }
    emitted := true }

/-- The record of a client context whose session cannot be read does not decode. -/
theorem goneSession_rejected :
    responseMetadataDecode (responseMetadata goneSessionCall) =
        .error "TLS values without an SSL filter reading" ∧ ¬goneSessionCall.Decodes := by
  have hdecode : responseMetadataDecode (responseMetadata goneSessionCall) =
      .error "TLS values without an SSL filter reading" := by
    decide +kernel
  refine ⟨hdecode, fun h => ?_⟩
  obtain ⟨d, hd⟩ := h.decodes
  exact nomatch hdecode.symm.trans hd

end Metadata
end LiveSurface
