import LiveSurface.Library.Layout
import Mathlib.Computability.RegularExpressions

/-!
# Metadata records and their decoders

The JSON readers emit two record formats: a 144-byte one that ends in a value of
at most 64 bytes, and a 104-byte one for replies.  A decoder checks a payload
field by field and against the rules between fields before it hands the fields
on; a refusal is the text of the {lit}`ValueError` it raises.

Main results:

- Theorem {lit}`JmEvent.unpack_bytes` and theorem {lit}`RpEvent.unpack_bytes`: a
  record whose fields fit their words is unpacked as it was packed.
-/

namespace LiveSurface
namespace Metadata

/-! ## Formats -/

/-- The 144-byte record, {lit}`struct jm_event`. -/
structure JmEvent where
  magic : Nat
  abi : Nat
  instanceId : Nat
  revision : Nat
  run : Nat
  monotonicNs : Nat
  sequence : Nat
  outputFailures : Nat
  status : Nat
  getterResult : Nat
  originalLength : Nat
  copiedLength : Nat
  flags : Nat
  reads : Nat
  sourceBytes : Nat
  value : List UInt8
deriving DecidableEq

/-- The words of a record with their widths, in wire order. -/
def JmEvent.words (e : JmEvent) : List (Nat × Nat) :=
  [(4, e.magic), (4, e.abi), (8, e.instanceId), (8, e.revision), (8, e.run),
    (8, e.monotonicNs), (8, e.sequence), (8, e.outputFailures), (4, e.status),
    (4, e.getterResult), (4, e.originalLength), (4, e.copiedLength), (2, e.flags),
    (2, e.reads), (4, e.sourceBytes)]

/-- The bytes a program emits for a record. -/
def JmEvent.bytes (e : JmEvent) : List UInt8 :=
  Layout.pack e.words ++ e.value

/-- {lit}`struct.Struct("<II6Q4IHHI64s").unpack`. -/
def JmEvent.unpack (payload : List UInt8) : JmEvent :=
  let w := Layout.unpack [4, 4, 8, 8, 8, 8, 8, 8, 4, 4, 4, 4, 2, 2, 4] payload
  { magic := w.getD 0 0
    abi := w.getD 1 0
    instanceId := w.getD 2 0
    revision := w.getD 3 0
    run := w.getD 4 0
    monotonicNs := w.getD 5 0
    sequence := w.getD 6 0
    outputFailures := w.getD 7 0
    status := w.getD 8 0
    getterResult := w.getD 9 0
    originalLength := w.getD 10 0
    copiedLength := w.getD 11 0
    flags := w.getD 12 0
    reads := w.getD 13 0
    sourceBytes := w.getD 14 0
    value := payload.drop 80 }

/-- Every field of a record fits its word. -/
structure JmEvent.Fits (e : JmEvent) : Prop where
  words : Layout.Fits e.words
  value : e.value.length = 64

@[simp]
theorem JmEvent.length_pack_words (e : JmEvent) : (Layout.pack e.words).length = 80 := by
  simp [JmEvent.words]

theorem JmEvent.Fits.length_bytes {e : JmEvent} (h : e.Fits) : e.bytes.length = 144 := by
  rw [JmEvent.bytes, List.length_append, e.length_pack_words, h.value]

/-- A record that fits is unpacked as it was packed. -/
theorem JmEvent.unpack_bytes {e : JmEvent} (h : e.Fits) : JmEvent.unpack e.bytes = e := by
  have hwords : Layout.unpack [4, 4, 8, 8, 8, 8, 8, 8, 4, 4, 4, 4, 2, 2, 4] e.bytes =
      e.words.map Prod.snd := Layout.unpack_pack_of_fits h.words e.value
  have hvalue : e.bytes.drop 80 = e.value := List.drop_left' e.length_pack_words
  simp only [JmEvent.unpack, hwords, hvalue]
  rfl

/-- The 104-byte reply record, {lit}`struct rp_event`. -/
structure RpEvent where
  magic : Nat
  abi : Nat
  instanceId : Nat
  revision : Nat
  run : Nat
  monotonicNs : Nat
  sequence : Nat
  outputFailures : Nat
  flags : Nat
  reads : Nat
  sourceBytes : Nat
  status : Nat
  resultPresent : Nat
  errorPresent : Nat
  codeState : Nat
  errorCode : Int
  toolErrorState : Nat
  toolError : Nat
  reserved0 : Nat
  reserved1 : Nat
deriving DecidableEq

/-- A signed 32-bit integer as the word that carries it. -/
def wordOfInt (x : Int) : Nat := (x % 2 ^ 32).toNat

/-- The signed integer a 32-bit word carries. -/
def intOfWord (x : Nat) : Int := if x < 2 ^ 31 then x else (x : Int) - 2 ^ 32

/-- The words of a reply record with their widths, in wire order. -/
def RpEvent.words (e : RpEvent) : List (Nat × Nat) :=
  [(4, e.magic), (4, e.abi), (8, e.instanceId), (8, e.revision), (8, e.run),
    (8, e.monotonicNs), (8, e.sequence), (8, e.outputFailures), (4, e.flags),
    (4, e.reads), (4, e.sourceBytes), (4, e.status), (4, e.resultPresent),
    (4, e.errorPresent), (4, e.codeState), (4, wordOfInt e.errorCode),
    (4, e.toolErrorState), (4, e.toolError), (4, e.reserved0), (4, e.reserved1)]

/-- The bytes a program emits for a reply record. -/
def RpEvent.bytes (e : RpEvent) : List UInt8 :=
  Layout.pack e.words

/-- {lit}`struct.Struct("<II6Q7Ii4I").unpack`. -/
def RpEvent.unpack (payload : List UInt8) : RpEvent :=
  let w := Layout.unpack [4, 4, 8, 8, 8, 8, 8, 8, 4, 4, 4, 4, 4, 4, 4, 4, 4, 4, 4, 4] payload
  { magic := w.getD 0 0
    abi := w.getD 1 0
    instanceId := w.getD 2 0
    revision := w.getD 3 0
    run := w.getD 4 0
    monotonicNs := w.getD 5 0
    sequence := w.getD 6 0
    outputFailures := w.getD 7 0
    flags := w.getD 8 0
    reads := w.getD 9 0
    sourceBytes := w.getD 10 0
    status := w.getD 11 0
    resultPresent := w.getD 12 0
    errorPresent := w.getD 13 0
    codeState := w.getD 14 0
    errorCode := intOfWord (w.getD 15 0)
    toolErrorState := w.getD 16 0
    toolError := w.getD 17 0
    reserved0 := w.getD 18 0
    reserved1 := w.getD 19 0 }

/-- Every field of a reply record fits its word. -/
structure RpEvent.Fits (e : RpEvent) : Prop where
  words : Layout.Fits e.words
  errorCode : -2 ^ 31 ≤ e.errorCode ∧ e.errorCode < 2 ^ 31

theorem intOfWord_wordOfInt {x : Int} (h : -2 ^ 31 ≤ x ∧ x < 2 ^ 31) :
    intOfWord (wordOfInt x) = x := by
  unfold intOfWord wordOfInt
  split <;> omega

@[simp]
theorem RpEvent.length_bytes (e : RpEvent) : e.bytes.length = 104 := by
  simp [RpEvent.bytes, RpEvent.words]

/-- A reply record that fits is unpacked as it was packed. -/
theorem RpEvent.unpack_bytes {e : RpEvent} (h : e.Fits) : RpEvent.unpack e.bytes = e := by
  have hwords : Layout.unpack
      [4, 4, 8, 8, 8, 8, 8, 8, 4, 4, 4, 4, 4, 4, 4, 4, 4, 4, 4, 4] e.bytes =
      e.words.map Prod.snd := by
    have := Layout.unpack_pack_of_fits h.words []
    rwa [List.append_nil] at this
  have hword : (e.words.map Prod.snd).getD 15 0 = wordOfInt e.errorCode := rfl
  simp only [RpEvent.unpack, hwords, hword, intOfWord_wordOfInt h.errorCode]
  rfl

/-! ## Decoded values -/

/-- A digit of {lit}`bytes.hex`. -/
def hexDigit (n : Nat) : Char := "0123456789abcdef".toList.getD n '0'

/-- {lit}`bytes.hex`. -/
def hex (bs : List UInt8) : String :=
  String.ofList (bs.flatMap fun b => [hexDigit (b.toNat / 16), hexDigit (b.toNat % 16)])

/-- A decoded 144-byte record: its fields, with {lit}`value` popped, and the names
the decoder adds. -/
structure Decoded where
  event : JmEvent
  valueHex : String
  statusName : String
  kindName : Option String
  representation : String
deriving DecidableEq

/-- {lit}`any(value[n:])`. -/
def anyFrom (value : List UInt8) (n : Nat) : Bool :=
  (value.drop n).any fun b => b != 0

/-! ## The method decoder -/

def methodStatuses : Nat → Option String
  | 1 => some "complete"
  | 2 => some "truncated"
  | 3 => some "read_failed"
  | 4 => some "out_of_scope"
  | 5 => some "budget_exhausted"
  | 6 => some "getter_error"
  | 7 => some "unavailable"
  | _ => none

/-- {lit}`method_decode.decode`. -/
def methodDecode (payload : List UInt8) : Except String Decoded :=
  if payload.length ≠ 144 then .error "wrong method record size"
  else
    let event := JmEvent.unpack payload
    let copied := event.copiedLength
    let original := event.originalLength
    if event.magic ≠ 0x4A4D4554 ∨ event.abi ≠ 1 then .error "wrong method record schema"
    else
      match methodStatuses event.status with
      | none => .error "invalid method extraction bounds"
      | some name =>
          if copied > 64 ∨ copied > original ∨ event.reads > 12 ∨ event.sourceBytes > 320 then
            .error "invalid method extraction bounds"
          else if (event.status = 1 ∧ copied ≠ original) ∨
              (event.status = 2 ∧ ¬(copied = 64 ∧ original > 64)) ∨
              (event.status ≠ 1 ∧ event.status ≠ 2 ∧ copied ≠ 0) then
            .error "inconsistent method extraction status"
          else if anyFrom event.value copied then .error "nonzero bytes outside copied value"
          else .ok {
            event := { event with value := [] }
            valueHex := hex (event.value.take copied)
            statusName := name
            kindName := none
            representation := "json_string_escaped_bytes" }

/-! ## The token method decoder -/

def tokenMethodStatus : Nat → Option String
  | 1 => some "complete"
  | 2 => some "truncated"
  | 3 => some "read_failed"
  | 4 => some "out_of_scope"
  | 5 => some "budget_exhausted"
  | 7 => some "unavailable"
  | 8 => some "no_literal_method"
  | 9 => some "invalid_cache"
  | 10 => some "nonstring"
  | _ => none

/-- {lit}`token_method_decode.decode`. -/
def tokenMethodDecode (payload : List UInt8) : Except String Decoded :=
  if payload.length ≠ 144 then .error "token method record size"
  else
    let event := JmEvent.unpack payload
    let n := event.copiedLength
    match tokenMethodStatus event.status with
    | none => .error "invalid token method record"
    | some name =>
        if event.magic ≠ 0x544D4554 ∨ event.abi ≠ 1 ∨ n > 64 ∨ event.reads > 40 ∨
            event.sourceBytes > 1024 ∨ anyFrom event.value n = true then
          .error "invalid token method record"
        else if event.status ≠ 1 ∧ event.status ≠ 2 ∧ n ≠ 0 then
          .error "value on unavailable token method record"
        else if event.status = 1 ∧ n ≠ event.originalLength then
          .error "incomplete complete token method record"
        else if event.status = 2 ∧ ¬(n = 64 ∧ 64 < event.originalLength) then
          .error "invalid truncated token method record"
        else .ok {
          event := { event with value := [] }
          valueHex := hex (event.value.take n)
          statusName := name
          kindName := none
          representation := "escaped JSON string bytes; literal key; first match" }

/-! ## The operation target decoder -/

def operationTargetStates : Nat → Option String
  | 1 => some "complete"
  | 2 => some "truncated"
  | 3 => some "read_failed"
  | 4 => some "out_of_scope"
  | 5 => some "budget_exhausted"
  | 7 => some "unavailable"
  | 8 => some "no_literal_method"
  | 9 => some "invalid_cache"
  | 10 => some "nonstring"
  | 11 => some "no_literal_target"
  | 12 => some "unsupported_method"
  | _ => none

def targetKindName : Nat → Option String
  | 1 => some "tool_name"
  | 2 => some "resource_uri"
  | _ => none

/-- {lit}`operation_target_decode.decode`. -/
def operationTargetDecode (payload : List UInt8) : Except String Decoded :=
  if payload.length ≠ 144 then .error "operation target size"
  else
    let e := JmEvent.unpack payload
    let n := e.copiedLength
    match operationTargetStates e.status with
    | none => .error "invalid operation target"
    | some name =>
        if e.magic ≠ 0x4f544754 ∨ e.abi ≠ 1 ∨ e.getterResult > 2 ∨ e.flags > 15 ∨
            e.reads > 96 ∨ e.sourceBytes > 4096 ∨ n > 64 ∨ anyFrom e.value n = true then
          .error "invalid operation target"
        else if (e.status = 1 ∨ e.status = 2) ∧
            (e.getterResult = 0 ∨ n ≠ min e.originalLength 64 ∨
              ¬(e.status = 2 ↔ e.originalLength > 64)) then
          .error "invalid target length or kind"
        else if ¬(e.status = 1 ∨ e.status = 2) ∧ n ≠ 0 then
          .error "value on unavailable target"
        else .ok {
          event := { e with value := [] }
          valueHex := hex (e.value.take n)
          statusName := name
          kindName := targetKindName e.getterResult
          representation := "raw_json_string_bytes" }

/-! ## The message ID decoder -/

section Number

open RegularExpression

/-- A character class of the number pattern. -/
def oneOf (cs : List Char) : RegularExpression UInt8 :=
  cs.foldr (fun c r => char (UInt8.ofNat c.toNat) + r) 0

/-- {lit}`r?`. -/
def optional (r : RegularExpression UInt8) : RegularExpression UInt8 := 1 + r

/-- {lit}`[0-9]`. -/
def digit : RegularExpression UInt8 := oneOf ['0', '1', '2', '3', '4', '5', '6', '7', '8', '9']

/-- {lit}`[1-9]`. -/
def digitNonzero : RegularExpression UInt8 := oneOf ['1', '2', '3', '4', '5', '6', '7', '8', '9']

/-- {lit}`(?:\.[0-9]+)?`. -/
def fraction : RegularExpression UInt8 := optional (oneOf ['.'] * (digit * star digit))

/-- {lit}`(?:[eE][+-]?[0-9]+)?`. -/
def exponent : RegularExpression UInt8 :=
  optional (oneOf ['e', 'E'] * (optional (oneOf ['+', '-']) * (digit * star digit)))

/-- {lit}`NUMBER`: {lit}`-?(?:0|[1-9][0-9]*)(?:\.[0-9]+)?(?:[eE][+-]?[0-9]+)?`. -/
def NUMBER : RegularExpression UInt8 :=
  optional (oneOf ['-']) *
    ((oneOf ['0'] + digitNonzero * star digit) * (fraction * exponent))

end Number

def messageIdStates : Nat → Option String
  | 1 => some "complete"
  | 2 => some "truncated"
  | 3 => some "read_failed"
  | 4 => some "out_of_scope"
  | 5 => some "budget_exhausted"
  | 7 => some "unavailable"
  | 8 => some "missing"
  | 9 => some "invalid_cache"
  | 10 => some "wrong_type"
  | 11 => some "ambiguous"
  | _ => none

def idKindName : Nat → Option String
  | 1 => some "string"
  | 2 => some "number"
  | 3 => some "null"
  | _ => none

/-- The bytes of {lit}`null`. -/
def nullBytes : List UInt8 := [110, 117, 108, 108]

/-- {lit}`message_id_decode.decode`. -/
def messageIdDecode (payload : List UInt8) : Except String Decoded :=
  if payload.length ≠ 144 then .error "message ID size"
  else
    let e := JmEvent.unpack payload
    let n := e.copiedLength
    match messageIdStates e.status with
    | none => .error "invalid message ID"
    | some name =>
        if e.magic ≠ 0x4d534749 ∨ e.abi ≠ 1 ∨ e.getterResult > 3 ∨ e.flags > 15 ∨
            e.reads > 80 ∨ e.sourceBytes > 2048 ∨ n > 64 ∨ anyFrom e.value n = true then
          .error "invalid message ID"
        else
          let value := e.value.take n
          if (e.status = 1 ∨ e.status = 2) ∧
              (e.getterResult = 0 ∨ n ≠ min e.originalLength 64 ∨
                ¬(e.status = 2 ↔ e.originalLength > 64)) then
            .error "invalid ID length or kind"
          else if (e.status = 1 ∨ e.status = 2) ∧ e.getterResult = 2 ∧
              (e.status ≠ 1 ∨ NUMBER.rmatch value = false) then
            .error "invalid numeric ID"
          else if (e.status = 1 ∨ e.status = 2) ∧ e.getterResult = 3 ∧
              (e.status ≠ 1 ∨ value ≠ nullBytes) then
            .error "invalid null ID"
          else if ¬(e.status = 1 ∨ e.status = 2) ∧ (n ≠ 0 ∨ e.getterResult > 1) then
            .error "value on unavailable ID"
          else .ok {
            event := { e with value := [] }
            valueHex := hex value
            statusName := name
            kindName := idKindName e.getterResult
            representation := if e.getterResult = 1 then "raw_json_string_bytes"
              else "raw_json_token_bytes" }

/-! ## The ID and flow decoder -/

def flowSides : Nat → Option (Option String)
  | 0 => some none
  | 1 => some (some "clientside")
  | 2 => some (some "serverside")
  | _ => none

def flowStates : Nat → Option String
  | 0 => some "unavailable"
  | 1 => some "complete"
  | 2 => some "out_of_scope"
  | 3 => some "read_failed"
  | 4 => some "invalid"
  | 5 => some "budget_exhausted"
  | _ => none

/-- {lit}`struct.pack_into`. -/
def packInto (bs : List UInt8) (offset width x : Nat) : List UInt8 :=
  bs.take offset ++ littleEndian width x ++ bs.drop (offset + width)

/-- A decoded ID with the side of its flow. -/
structure DecodedFlow where
  id : Decoded
  magic : Nat
  wireFlags : Nat
  flowSide : Nat
  flowSideName : Option String
  flowStatus : Nat
  flowStatusName : String
deriving DecidableEq

/-- {lit}`id_flow_decode.decode`. -/
def idFlowDecode (payload : List UInt8) : Except String DecodedFlow :=
  if payload.length ≠ 144 ∨ Layout.unpack [4, 4] payload ≠ [0x4944464c, 1] then
    .error "ID/flow size or schema"
  else
    let flags := ofLittleEndian ((payload.drop 72).take 2)
    let side := (flags >>> 4) &&& 3
    let status := (flags >>> 8) &&& 7
    match flowSides side, flowStates status with
    | some sideName, some statusName =>
        if flags &&& 0x073f ≠ flags ∨ ¬(status = 1 ↔ side = 1 ∨ side = 2) ∨
            (flags &&& 3 ≠ 0 ∧ (side ≠ 0 ∨ status ≠ 0)) then
          .error "invalid flow side"
        else
          let base := packInto (packInto payload 0 4 0x4d534749) 72 2 (flags &&& 15)
          (messageIdDecode base).map fun event =>
            { id := event
              magic := 0x4944464c
              wireFlags := flags
              flowSide := side
              flowSideName := sideName
              flowStatus := status
              flowStatusName := statusName }
    | _, _ => .error "invalid flow side"

/-! ## The reply decoder -/

def replyStates : Nat → Option String
  | 0 => some "not_applicable"
  | 1 => some "complete"
  | 3 => some "read_failed"
  | 4 => some "out_of_scope"
  | 5 => some "budget_exhausted"
  | 7 => some "unavailable"
  | 9 => some "invalid_cache"
  | 10 => some "wrong_type"
  | 11 => some "ambiguous"
  | _ => none

/-- A decoded reply. -/
structure DecodedReply where
  event : RpEvent
  statusName : String
  codeStateName : String
  toolErrorStateName : String
deriving DecidableEq

/-- {lit}`reply_metadata_decode.decode`. -/
def replyMetadataDecode (payload : List UInt8) : Except String DecodedReply :=
  if payload.length ≠ 104 then .error "reply metadata size"
  else
    let event := RpEvent.unpack payload
    match replyStates event.status, replyStates event.codeState,
        replyStates event.toolErrorState with
    | some statusName, some codeStateName, some toolErrorStateName =>
        if event.magic ≠ 0x52504c59 ∨ event.abi ≠ 1 ∨ event.flags > 15 ∨ event.reads > 80 ∨
            event.sourceBytes > 2048 ∨ event.reserved0 ≠ 0 ∨ event.reserved1 ≠ 0 ∨
            event.resultPresent > 1 ∨ event.errorPresent > 1 ∨ event.toolError > 1 then
          .error "invalid reply metadata"
        else if event.status = 1 ∧ event.resultPresent + event.errorPresent ≠ 1 then
          .error "invalid reply presence"
        else if event.status = 1 ∧ ¬(event.codeState ≠ 0 ↔ event.errorPresent ≠ 0) then
          .error "invalid error field state"
        else if event.status = 1 ∧ ¬(event.toolErrorState ≠ 0 ↔ event.resultPresent ≠ 0) then
          .error "invalid result field state"
        else if event.status ≠ 1 ∧ (event.resultPresent ≠ 0 ∨ event.errorPresent ≠ 0 ∨
            event.codeState ≠ 0 ∨ event.errorCode ≠ 0 ∨ event.toolErrorState ≠ 0 ∨
            event.toolError ≠ 0) then
          .error "fields on unqualified reply"
        else if (event.codeState ≠ 1 ∧ event.errorCode ≠ 0) ∨
            (event.toolErrorState ≠ 1 ∧ event.toolError ≠ 0) then
          .error "value without complete field"
        else .ok { event, statusName, codeStateName, toolErrorStateName }
    | _, _, _ => .error "invalid reply metadata"

end Metadata
end LiveSurface
