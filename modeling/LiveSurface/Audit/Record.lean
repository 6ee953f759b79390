import LiveSurface.Audit.Text
import LiveSurface.Library.Logline

/-!
# The audit record

{lit}`ls_audit_op` writes one line for a request: who sent it, what its header says, and the reply.
The header and the reply are whatever the peer made of them.  The line can be read back whatever
they are: no byte of theirs ends the line, begins a field or closes the quotes.

Main results:

- Theorem {lit}`written_eq`: the line is never cut, and it is a line of fields.
- Theorem {lit}`record_unforgeable`: how the line is read back.
-/

namespace LiveSurface
namespace Audit

open Candidate (ascii lf)
open Control
open Logline (NamedValue)
open Metadata (hex)

/-! ## The line -/

/-- {lit}`LS_AUDIT_LINE`. -/
def lsAuditLine : Nat := 1024

structure Timespec where
  sec : Int64
  nsec : Int64

/-- {lit}`struct ls_ucred`. -/
structure LsUcred where
  pid : UInt32
  uid : UInt32
  gid : UInt32

/-- What {lit}`ls_audit_op` finds out besides the request. -/
structure AuditEnv where
  /-- The records so far, with this one. -/
  seq : UInt64
  realtime : Timespec
  monotonic : Timespec
  tmmPid : Int32
  build : BuildText
  /-- The credentials of the peer, if the kernel has them. -/
  peer : Option LsUcred
  /-- What {lit}`/proc/<pid>/comm` has, if it can be read. -/
  comm : Option (List UInt8)

def AuditEnv.ucred (env : AuditEnv) : LsUcred := env.peer.getD ⟨0, 0, 0⟩

/-- The bytes of {lit}`struct shield_msg`, as far as its program. -/
structure MsgBytes where
  bytes : List UInt8
  size : bytes.length = 192

/-- What is recorded of {lit}`struct shield_msg`. -/
structure MsgHeader where
  op : UInt32
  epoch : UInt32
  mode : UInt8
  progLen : UInt32
  binding : ShieldBinding

def u32At (b : List UInt8) (pos : Nat) : UInt32 := UInt32.ofNat (leAt 4 b pos)

def u8At (b : List UInt8) (pos : Nat) : UInt8 := UInt8.ofNat (leAt 1 b pos)

def MsgHeader.ofBytes (b : List UInt8) : MsgHeader where
  op := u32At b 0
  epoch := u32At b 4
  mode := u8At b 8
  progLen := u32At b 12
  binding := {
    progSha256 := bytesAt 32 b 16
    hook := bytesAt 64 b 48
    buildMin := u32At b 112
    buildMax := u32At b 116
    modeCeiling := u8At b 120
    ctxAbiVersion := u8At b 121
    expiresWith := u32At b 124 }

/-- The switch of {lit}`ls_audit_opname`. -/
def opNames : List (UInt32 × String) :=
  [(shieldOpLoad, "LOAD"), (shieldOpSetMode, "SET_MODE"), (shieldOpStatus, "STATUS"),
    (shieldOpRevoke, "REVOKE"), (shieldOpConfigStatus, "CONFIG_STATUS"),
    (shieldOpConfigPublish, "CONFIG_PUBLISH"), (opBench, "BENCH"), (opSamples, "SAMPLES"),
    (opArm, "ARM"), (opDisarm, "DISARM")]

/-- {lit}`ls_audit_opname`. -/
def lsAuditOpname (op : UInt32) : Option (List UInt8) := (opNames.lookup op).map ascii

/-- The name, or the number in {lit}`opbuf`. -/
def opText (op : UInt32) : List UInt8 :=
  match lsAuditOpname op with
  | some name => name
  | none => (ascii "op_" ++ decimal 0 op.toNat).take 23

/-- The value of the field {lit}`verdict`. -/
def verdictText (reply : Option CString) : List UInt8 :=
  match reply with
  | none => lsAuditQuote (ascii "-" ++ [0]) 300 320
  | some text => lsAuditQuote text.pointer 300 320

/-- {lit}`%lld.%09ld`. -/
def Timespec.text (t : Timespec) : List UInt8 :=
  decimal 0 t.sec.toInt ++ ascii "." ++ decimal 9 t.nsec.toInt

/-- The format of a record as far as {lit}`peer_comm`. -/
def commonFormat (env : AuditEnv) : List (List UInt8) :=
  [ascii "ls_audit: seq=", decimal 0 env.seq.toNat, ascii " ts=", env.realtime.text,
    ascii " mono=", env.monotonic.text, ascii " tmm_pid=", decimal 0 env.tmmPid.toInt,
    ascii " tmm_build=", env.build.bytes, ascii " peer_pid=", decimal 0 env.ucred.pid.toNat,
    ascii " peer_uid=", decimal 0 env.ucred.uid.toNat, ascii " peer_gid=",
    decimal 0 env.ucred.gid.toNat, ascii " peer_comm=", peerComm env.ucred.pid env.comm]

/-- The rest of the format, for a message that could not be read. -/
def malformedFormat (verdict : List UInt8) : List (List UInt8) :=
  [ascii " op=MALFORMED verdict=\"", verdict, ascii "\"\n"]

/-- The rest of the format, for a message. -/
def messageFormat (m : MsgHeader) (verdict : List UInt8) : List (List UInt8) :=
  [ascii " op=", opText m.op, ascii " slot=", decimal 0 m.epoch.toNat, ascii " mode=",
    decimal 0 m.mode.toNat, ascii " hook=", lsAuditSanitize m.binding.hook 64 80,
    ascii " prog_len=", decimal 0 m.progLen.toNat, ascii " prog_sha256=",
    ascii (hex (m.binding.progSha256.take 8)), ascii " build_min=",
    decimal 0 m.binding.buildMin.toNat, ascii " build_max=", decimal 0 m.binding.buildMax.toNat,
    ascii " ceiling=", decimal 0 m.binding.modeCeiling.toNat, ascii " ctx_abi=",
    decimal 0 m.binding.ctxAbiVersion.toNat, ascii " expires=",
    decimal 0 m.binding.expiresWith.toNat, ascii " verdict=\"", verdict, ascii "\"\n"]

/-- What the format of a record expands to. -/
def expansion (env : AuditEnv) (m : Option MsgBytes) (reply : Option CString) : List UInt8 :=
  match m with
  | none => (commonFormat env ++ malformedFormat (verdictText reply)).flatten
  | some m =>
      (commonFormat env ++ messageFormat (MsgHeader.ofBytes m.bytes) (verdictText reply)).flatten

/-- The line {lit}`ls_audit_op` writes: an expansion that does not fit is cut and marked. -/
def lsAuditOp (env : AuditEnv) (m : Option MsgBytes) (reply : Option CString) : List UInt8 :=
  let text := expansion env m reply
  if text.length < lsAuditLine then text
  else text.take (lsAuditLine - 13) ++ ascii " TRUNCATED\n" ++ [lf]

/-! ## The line as fields -/

def field (name : String) (value : List UInt8) : NamedValue UInt8 := ⟨ascii name, value⟩

def commonFields (env : AuditEnv) : List (NamedValue UInt8) :=
  [field "seq" (decimal 0 env.seq.toNat), field "ts" env.realtime.text,
    field "mono" env.monotonic.text, field "tmm_pid" (decimal 0 env.tmmPid.toInt),
    field "tmm_build" env.build.bytes, field "peer_pid" (decimal 0 env.ucred.pid.toNat),
    field "peer_uid" (decimal 0 env.ucred.uid.toNat),
    field "peer_gid" (decimal 0 env.ucred.gid.toNat),
    field "peer_comm" (peerComm env.ucred.pid env.comm)]

def messageFields (m : MsgHeader) : List (NamedValue UInt8) :=
  [field "op" (opText m.op), field "slot" (decimal 0 m.epoch.toNat),
    field "mode" (decimal 0 m.mode.toNat),
    field "hook" (lsAuditSanitize m.binding.hook 64 80),
    field "prog_len" (decimal 0 m.progLen.toNat),
    field "prog_sha256" (ascii (hex (m.binding.progSha256.take 8))),
    field "build_min" (decimal 0 m.binding.buildMin.toNat),
    field "build_max" (decimal 0 m.binding.buildMax.toNat),
    field "ceiling" (decimal 0 m.binding.modeCeiling.toNat),
    field "ctx_abi" (decimal 0 m.binding.ctxAbiVersion.toNat),
    field "expires" (decimal 0 m.binding.expiresWith.toNat)]

/-- The fields of a record before the verdict. -/
def recordFields (env : AuditEnv) (m : Option MsgBytes) : List (NamedValue UInt8) :=
  commonFields env ++
    match m with
    | none => [field "op" (ascii "MALFORMED")]
    | some m => messageFields (MsgHeader.ofBytes m.bytes)

/-- A line of fields and a verdict. -/
def recordLine (fields : List (NamedValue UInt8)) (verdict : List UInt8) : List UInt8 :=
  Logline.rendered space equals quote (ascii "ls_audit:") fields (ascii "verdict") verdict [lf]

/-- The format up to {lit}`peer_comm` spells the tag and nine fields. -/
theorem commonFormat_flatten (env : AuditEnv) : (commonFormat env).flatten =
    Logline.head space equals (ascii "ls_audit:") (commonFields env) := by
  simp only [commonFormat, commonFields, Logline.head, NamedValue.text, field, List.flatten_cons,
    List.flatten_nil, List.append_nil, List.cons_append, List.flatMap_cons, List.flatMap_nil,
    List.append_assoc]
  rfl

theorem malformedFormat_flatten (verdict : List UInt8) : (malformedFormat verdict).flatten =
    [field "op" (ascii "MALFORMED")].flatMap (fun f => space :: f.text equals) ++
      space :: (ascii "verdict" ++ equals :: quote :: (verdict ++ quote :: [lf])) := by
  simp only [malformedFormat, NamedValue.text, field, List.flatten_cons, List.flatten_nil,
    List.append_nil, List.cons_append, List.flatMap_cons, List.flatMap_nil, List.append_assoc]
  rfl

theorem messageFormat_flatten (m : MsgHeader) (verdict : List UInt8) :
    (messageFormat m verdict).flatten =
      (messageFields m).flatMap (fun f => space :: f.text equals) ++
        space :: (ascii "verdict" ++ equals :: quote :: (verdict ++ quote :: [lf])) := by
  simp only [messageFormat, messageFields, NamedValue.text, field, List.flatten_cons,
    List.flatten_nil, List.append_nil, List.cons_append, List.flatMap_cons, List.flatMap_nil,
    List.append_assoc]
  rfl

/-- The formats spell a line of fields. -/
theorem expansion_eq (env : AuditEnv) (m : Option MsgBytes) (reply : Option CString) :
    expansion env m reply = recordLine (recordFields env m) (verdictText reply) := by
  cases m with
  | none =>
      simp only [expansion, recordLine, recordFields, Logline.rendered, Logline.head,
        List.flatten_append, commonFormat_flatten, malformedFormat_flatten, List.flatMap_append,
        List.append_assoc]
  | some m =>
      simp only [expansion, recordLine, recordFields, Logline.rendered, Logline.head,
        List.flatten_append, commonFormat_flatten, messageFormat_flatten, List.flatMap_append,
        List.append_assoc]

/-! ## What the fields hold -/

/-- Nothing of a field can be taken for a separator, a quote or an end of line. -/
structure FieldPlain (f : NamedValue UInt8) : Prop where
  name : ∀ c ∈ f.name, Plain c
  value : ∀ c ∈ f.value, Plain c

theorem field_plain {name : String} {value : List UInt8}
    (hname : (ascii name).all fun c => decide (Plain c)) (hvalue : ∀ c ∈ value, Plain c) :
    FieldPlain (field name value) :=
  ⟨plain_of_all hname, hvalue⟩

theorem Timespec.text_plain (t : Timespec) : ∀ c ∈ t.text, Plain c := by
  intro c hc
  rw [Timespec.text, List.mem_append, List.mem_append] at hc
  rcases hc with (hc | hc) | hc
  · exact decimal_plain 0 _ c hc
  · exact plain_of_all (by decide) c hc
  · exact decimal_plain 9 _ c hc

theorem opText_plain (op : UInt32) : (∀ c ∈ opText op, Plain c) ∧ (opText op).length ≤ 23 := by
  have hnames : ∀ e ∈ opNames,
      ((ascii e.2).all fun c => decide (Plain c)) = true ∧ (ascii e.2).length ≤ 23 := by
    decide +kernel
  unfold opText
  split
  · rename_i name hname
    obtain ⟨text, htext, rfl⟩ := Option.map_eq_some_iff.mp hname
    obtain ⟨before, after, hsplit, -⟩ := List.lookup_eq_some_iff.mp htext
    have hmem : (op, text) ∈ opNames := by
      rw [hsplit]
      exact List.mem_append_right before List.mem_cons_self
    exact ⟨plain_of_all (hnames _ hmem).1, (hnames _ hmem).2⟩
  · refine ⟨?_, List.length_take_le 23 _⟩
    intro c hc
    rcases List.mem_append.mp (List.mem_of_mem_take hc) with hc | hc
    · exact plain_of_all (by decide) c hc
    · exact decimal_plain 0 _ c hc

theorem commonFields_plain (env : AuditEnv) : ∀ f ∈ commonFields env, FieldPlain f := by
  simp only [commonFields, List.forall_mem_cons]
  refine ⟨?_, ?_, ?_, ?_, ?_, ?_, ?_, ?_, ?_, List.forall_mem_nil _⟩
  · exact field_plain (by decide) (decimal_plain 0 _)
  · exact field_plain (by decide) (Timespec.text_plain _)
  · exact field_plain (by decide) (Timespec.text_plain _)
  · exact field_plain (by decide) (decimal_plain 0 _)
  · exact field_plain (by decide) env.build.plain
  · exact field_plain (by decide) (decimal_plain 0 _)
  · exact field_plain (by decide) (decimal_plain 0 _)
  · exact field_plain (by decide) (decimal_plain 0 _)
  · exact field_plain (by decide) (peerComm_plain _ _)

theorem messageFields_plain (m : MsgHeader) : ∀ f ∈ messageFields m, FieldPlain f := by
  simp only [messageFields, List.forall_mem_cons]
  refine ⟨?_, ?_, ?_, ?_, ?_, ?_, ?_, ?_, ?_, ?_, ?_, List.forall_mem_nil _⟩
  · exact field_plain (by decide) (opText_plain m.op).1
  · exact field_plain (by decide) (decimal_plain 0 _)
  · exact field_plain (by decide) (decimal_plain 0 _)
  · exact field_plain (by decide) (sanitize_plain _ 64 80)
  · exact field_plain (by decide) (decimal_plain 0 _)
  · exact field_plain (by decide) (ascii_hex_plain _)
  · exact field_plain (by decide) (decimal_plain 0 _)
  · exact field_plain (by decide) (decimal_plain 0 _)
  · exact field_plain (by decide) (decimal_plain 0 _)
  · exact field_plain (by decide) (decimal_plain 0 _)
  · exact field_plain (by decide) (decimal_plain 0 _)

theorem recordFields_plain (env : AuditEnv) (m : Option MsgBytes) :
    ∀ f ∈ recordFields env m, FieldPlain f := by
  intro f hf
  rcases List.mem_append.mp hf with hf | hf
  · exact commonFields_plain env f hf
  · cases m with
    | none =>
        obtain rfl := List.mem_singleton.mp hf
        exact field_plain (by decide) (plain_of_all (by decide))
    | some m => exact messageFields_plain _ f hf

/-! ## How long a record is -/

theorem length_head (tag : List UInt8) (fields : List (NamedValue UInt8)) :
    (Logline.head space equals tag fields).length =
      tag.length + (fields.map fun f => f.name.length + f.value.length + 2).sum := by
  rw [Logline.head, List.length_append, List.length_flatMap]
  congr 2
  refine List.map_congr_left fun f _ => ?_
  rw [NamedValue.text, List.length_cons, List.length_append, List.length_cons]
  omega

theorem Timespec.length_text_le (t : Timespec) : t.text.length ≤ 41 := by
  have hsec := length_decimal_int64_le 0 (by decide) t.sec
  have hnsec := length_decimal_int64_le 9 (by decide) t.nsec
  have hdot : (ascii ".").length = 1 := rfl
  rw [Timespec.text, List.length_append, List.length_append]
  omega

theorem length_decimal_uint64_le (x : UInt64) : (decimal 0 x.toNat).length ≤ 21 := by
  have hx := x.toNat_lt
  refine Nat.le_trans (length_decimal_le (k := 20) (by decide) ?_) (by decide)
  omega

theorem length_decimal_int32_le (x : Int32) : (decimal 0 x.toInt).length ≤ 11 := by
  have hlt := x.toInt_lt
  have hle := x.le_toInt
  refine Nat.le_trans (length_decimal_le (k := 10) (by decide) ?_) (by decide)
  omega

/-- A field of a given name is as long as its value and the name. -/
theorem length_field (name : String) (n : Nat) {value : List UInt8} {k : Nat}
    (hname : (ascii name).length = n) (hvalue : value.length ≤ k) :
    (field name value).name.length + (field name value).value.length + 2 ≤ n + k + 2 := by
  have hname' : (field name value).name.length = n := hname
  have hvalue' : (field name value).value.length ≤ k := hvalue
  omega

theorem length_commonFields_le (env : AuditEnv) :
    ((commonFields env).map fun f => f.name.length + f.value.length + 2).sum ≤ 294 := by
  have h₁ := length_field "seq" 3 rfl (length_decimal_uint64_le env.seq)
  have h₂ := length_field "ts" 2 rfl env.realtime.length_text_le
  have h₃ := length_field "mono" 4 rfl env.monotonic.length_text_le
  have h₄ := length_field "tmm_pid" 7 rfl (length_decimal_int32_le env.tmmPid)
  have h₅ := length_field "tmm_build" 9 rfl env.build.short
  have h₆ := length_field "peer_pid" 8 rfl (length_decimal_uint32_le env.ucred.pid)
  have h₇ := length_field "peer_uid" 8 rfl (length_decimal_uint32_le env.ucred.uid)
  have h₈ := length_field "peer_gid" 8 rfl (length_decimal_uint32_le env.ucred.gid)
  have h₉ := length_field "peer_comm" 9 rfl (length_peerComm_le env.ucred.pid env.comm)
  simp only [commonFields, List.map_cons, List.map_nil, List.sum_cons, List.sum_nil]
  omega

theorem length_messageFields_le (m : MsgHeader) :
    ((messageFields m).map fun f => f.name.length + f.value.length + 2).sum ≤ 279 := by
  have hsha : (ascii (hex (m.binding.progSha256.take 8))).length ≤ 16 := by
    rw [length_ascii_hex, List.length_take]
    omega
  have h₁ := length_field "op" 2 rfl (opText_plain m.op).2
  have h₂ := length_field "slot" 4 rfl (length_decimal_uint32_le m.epoch)
  have h₃ := length_field "mode" 4 rfl (length_decimal_uint8_le m.mode)
  have h₄ := length_field "hook" 4 rfl (length_sanitize_le m.binding.hook 64 80 (by decide))
  have h₅ := length_field "prog_len" 8 rfl (length_decimal_uint32_le m.progLen)
  have h₆ := length_field "prog_sha256" 11 rfl hsha
  have h₇ := length_field "build_min" 9 rfl (length_decimal_uint32_le m.binding.buildMin)
  have h₈ := length_field "build_max" 9 rfl (length_decimal_uint32_le m.binding.buildMax)
  have h₉ := length_field "ceiling" 7 rfl (length_decimal_uint8_le m.binding.modeCeiling)
  have h₁₀ := length_field "ctx_abi" 7 rfl (length_decimal_uint8_le m.binding.ctxAbiVersion)
  have h₁₁ := length_field "expires" 7 rfl (length_decimal_uint32_le m.binding.expiresWith)
  simp only [messageFields, List.map_cons, List.map_nil, List.sum_cons, List.sum_nil]
  omega

theorem length_recordFields_le (env : AuditEnv) (m : Option MsgBytes) :
    ((recordFields env m).map fun f => f.name.length + f.value.length + 2).sum ≤ 573 := by
  have hcommon := length_commonFields_le env
  unfold recordFields
  rw [List.map_append, List.sum_append]
  cases m with
  | none =>
      have hop := length_field "op" 2 rfl (Nat.le_refl (ascii "MALFORMED").length)
      have hmalformed : (ascii "MALFORMED").length = 9 := rfl
      simp only [List.map_cons, List.map_nil, List.sum_cons, List.sum_nil]
      omega
  | some m =>
      have hmessage := length_messageFields_le (MsgHeader.ofBytes m.bytes)
      dsimp only
      omega

theorem verdictText_visible (reply : Option CString) : ∀ c ∈ verdictText reply, Visible c := by
  unfold verdictText
  split
  · exact quote_visible _ 300 320
  · exact quote_visible _ 300 320

theorem length_verdictText_le (reply : Option CString) : (verdictText reply).length ≤ 319 := by
  unfold verdictText
  split
  · exact length_quote_le _ 300 320 (by decide)
  · exact length_quote_le _ 300 320 (by decide)

/-- Every expansion fits. -/
theorem length_expansion_lt (env : AuditEnv) (m : Option MsgBytes) (reply : Option CString) :
    (expansion env m reply).length < lsAuditLine := by
  have hfields := length_recordFields_le env m
  have hverdict := length_verdictText_le reply
  have htag : (ascii "ls_audit:").length = 9 := rfl
  have hlast : (ascii "verdict").length = 7 := rfl
  rw [expansion_eq, recordLine, Logline.rendered, List.length_append, length_head, lsAuditLine]
  simp only [List.length_append, List.length_cons, List.length_nil]
  omega

/-- The line is never cut, and it is a line of fields. -/
theorem written_eq (env : AuditEnv) (m : Option MsgBytes) (reply : Option CString) :
    lsAuditOp env m reply = recordLine (recordFields env m) (verdictText reply) := by
  rw [lsAuditOp, if_pos (length_expansion_lt env m reply), expansion_eq]

/-! ## Reading a record back -/

/-- The names of the fields before the verdict. -/
def fieldNames : Option MsgBytes → List (List UInt8)
  | none =>
      ["seq", "ts", "mono", "tmm_pid", "tmm_build", "peer_pid", "peer_uid", "peer_gid",
        "peer_comm", "op"].map ascii
  | some _ =>
      ["seq", "ts", "mono", "tmm_pid", "tmm_build", "peer_pid", "peer_uid", "peer_gid",
        "peer_comm", "op", "slot", "mode", "hook", "prog_len", "prog_sha256", "build_min",
        "build_max", "ceiling", "ctx_abi", "expires"].map ascii

/-- The pieces of a line up to {lit}`verdict=`. -/
def readTokens (line : List UInt8) : List (List UInt8) :=
  Logline.tokens space (ascii "verdict" ++ [equals]) line

/-- The fields they are. -/
def readFields (line : List UInt8) : List (NamedValue UInt8) :=
  Logline.fieldsOf space equals (ascii "verdict" ++ [equals]) line

/-- The text between the first quote and the last one. -/
def readVerdict (line : List UInt8) : List UInt8 := Logline.quoted quote line

/-- Two requests are the same but for the bytes of the hook. -/
def HookApart : Option MsgBytes → Option MsgBytes → Prop
  | none, none => True
  | some m, some m' => Kept (fun i => i < 48 ∨ 112 ≤ i) m.bytes m'.bytes
  | _, _ => False

section Reading

variable {fields : List (NamedValue UInt8)} {verdict : List UInt8}

theorem FieldPlain.text_plain {f : NamedValue UInt8} (h : FieldPlain f) {c : UInt8}
    (hc : c ∈ f.text equals) : Plain c ∨ c = equals := by
  rcases List.mem_append.mp hc with hc | hc
  · exact Or.inl (h.name c hc)
  · rcases List.mem_cons.mp hc with rfl | hc
    · exact Or.inr rfl
    · exact Or.inl (h.value c hc)

theorem space_notMem_text {f : NamedValue UInt8} (h : FieldPlain f) : space ∉ f.text equals := by
  intro hc
  rcases h.text_plain hc with hplain | heq
  · exact hplain.2.2.1 rfl
  · exact absurd heq (by decide)

/-- No field before the verdict has its name. -/
theorem not_verdict_prefix {f : NamedValue UInt8} (h : FieldPlain f)
    (hname : f.name ≠ ascii "verdict") : ¬ascii "verdict" ++ [equals] <+: f.text equals := by
  rintro ⟨rest, hrest⟩
  have hread : Logline.valueOf equals (f.text equals) = f :=
    Logline.valueOf_text fun hmem => (h.name _ hmem).2.2.2.2 rfl
  have hverdict : Logline.valueOf equals (ascii "verdict" ++ [equals] ++ rest) =
      ⟨ascii "verdict", rest⟩ := by
    rw [List.append_assoc, List.singleton_append]
    have hname : equals ∉ ascii "verdict" := by decide
    exact Logline.valueOf_text (f := ⟨ascii "verdict", rest⟩) hname
  rw [hrest, hread] at hverdict
  exact hname (congrArg NamedValue.name hverdict)

/-- A line whose fields are plain is read back. -/
theorem readTokens_recordLine (hplain : ∀ f ∈ fields, FieldPlain f)
    (hnames : ∀ f ∈ fields, f.name ≠ ascii "verdict") :
    readTokens (recordLine fields verdict) =
      ascii "ls_audit:" :: fields.map (NamedValue.text equals) := by
  refine Logline.tokens_rendered (by decide) (fun f hf => space_notMem_text (hplain f hf))
    (by decide) (by decide) ?_
  intro t ht
  rcases List.mem_cons.mp ht with rfl | ht
  · decide
  · obtain ⟨f, hf, rfl⟩ := List.mem_map.mp ht
    exact not_verdict_prefix (hplain f hf) (hnames f hf)

theorem readFields_recordLine (hplain : ∀ f ∈ fields, FieldPlain f)
    (hnames : ∀ f ∈ fields, f.name ≠ ascii "verdict") :
    readFields (recordLine fields verdict) = fields := by
  refine Logline.fieldsOf_rendered (by decide) (fun f hf => space_notMem_text (hplain f hf))
    (by decide) (by decide) ?_ (fun f hf hmem => ((hplain f hf).name _ hmem).2.2.2.2 rfl)
  intro t ht
  rcases List.mem_cons.mp ht with rfl | ht
  · decide
  · obtain ⟨f, hf, rfl⟩ := List.mem_map.mp ht
    exact not_verdict_prefix (hplain f hf) (hnames f hf)

/-- What comes before the verdict. -/
theorem head_chars (hplain : ∀ f ∈ fields, FieldPlain f) {c : UInt8}
    (hc : c ∈ Logline.head space equals (ascii "ls_audit:") fields) :
    Plain c ∨ c = space ∨ c = equals := by
  rcases List.mem_append.mp hc with hc | hc
  · exact Or.inl (plain_of_all (by decide) c hc)
  · obtain ⟨f, hf, hc⟩ := List.mem_flatMap.mp hc
    rcases List.mem_cons.mp hc with rfl | hc
    · exact Or.inr (Or.inl rfl)
    · rcases (hplain f hf).text_plain hc with hplain | heq
      · exact Or.inl hplain
      · exact Or.inr (Or.inr heq)

theorem readVerdict_recordLine (hplain : ∀ f ∈ fields, FieldPlain f) :
    readVerdict (recordLine fields verdict) = verdict := by
  refine Logline.quoted_rendered ?_ (by decide) (by decide) (by decide) (by decide)
  intro hc
  rcases head_chars hplain hc with hplain | heq | heq
  · exact hplain.2.2.2.1 rfl
  · exact absurd heq (by decide)
  · exact absurd heq (by decide)

/-- The end of the line is its only one. -/
theorem recordLine_newline (hplain : ∀ f ∈ fields, FieldPlain f)
    (hverdict : ∀ c ∈ verdict, Visible c) :
    ∃ text, recordLine fields verdict = text ++ [lf] ∧ lf ∉ text := by
  refine ⟨Logline.head space equals (ascii "ls_audit:") fields ++
    space :: (ascii "verdict" ++ equals :: quote :: (verdict ++ [quote])), ?_, ?_⟩
  · simp only [recordLine, Logline.rendered, List.append_assoc, List.cons_append, List.nil_append]
  · intro hc
    simp only [List.mem_append, List.mem_cons, List.not_mem_nil, or_false] at hc
    have hlow : ¬0x20 ≤ lf := by decide
    rcases hc with hc | hc | hc | hc | hc | hc | hc
    · rcases head_chars hplain hc with hplain | heq | heq
      · exact hlow hplain.1
      · exact absurd heq (by decide)
      · exact absurd heq (by decide)
    · exact absurd hc (by decide)
    · exact absurd hc (by decide)
    · exact absurd hc (by decide)
    · exact absurd hc (by decide)
    · exact hlow (hverdict lf hc).1
    · exact absurd hc (by decide)

theorem recordFields_names (env : AuditEnv) (m : Option MsgBytes) :
    (recordFields env m).map (·.name) = fieldNames m := by
  cases m <;> rfl

theorem fieldNames_nodup (m : Option MsgBytes) : (fieldNames m ++ [ascii "verdict"]).Nodup := by
  cases m with
  | none => exact (by decide : (fieldNames none ++ [ascii "verdict"]).Nodup)
  | some m =>
      change ((["seq", "ts", "mono", "tmm_pid", "tmm_build", "peer_pid", "peer_uid", "peer_gid",
        "peer_comm", "op", "slot", "mode", "hook", "prog_len", "prog_sha256", "build_min",
        "build_max", "ceiling", "ctx_abi", "expires"].map ascii) ++ [ascii "verdict"]).Nodup
      decide +kernel

theorem recordFields_not_verdict (env : AuditEnv) (m : Option MsgBytes) :
    ∀ f ∈ recordFields env m, f.name ≠ ascii "verdict" := by
  intro f hf heq
  have hmem : f.name ∈ fieldNames m := by
    rw [← recordFields_names env m]
    exact List.mem_map_of_mem hf
  have hdisjoint := (List.nodup_append.mp (fieldNames_nodup m)).2.2
  exact hdisjoint f.name hmem (ascii "verdict") (List.mem_singleton_self _) heq

/-- Requests that are the same but for the hook have the same header otherwise. -/
theorem ofBytes_apart {m m' : MsgBytes} (h : HookApart (some m) (some m')) :
    MsgHeader.ofBytes m'.bytes = { MsgHeader.ofBytes m.bytes with
      binding := { (MsgHeader.ofBytes m.bytes).binding with hook := bytesAt 64 m'.bytes 48 } } := by
  have hkept : Kept (fun i => i < 48 ∨ 112 ≤ i) m.bytes m'.bytes := h
  have hu32 : ∀ pos, pos + 4 ≤ 48 ∨ 112 ≤ pos → u32At m'.bytes pos = u32At m.bytes pos :=
    fun pos hpos => congrArg UInt32.ofNat (hkept.leAt (by omega))
  have hu8 : ∀ pos, pos + 1 ≤ 48 ∨ 112 ≤ pos → u8At m'.bytes pos = u8At m.bytes pos :=
    fun pos hpos => congrArg UInt8.ofNat (hkept.leAt (by omega))
  have hsha : bytesAt 32 m'.bytes 16 = bytesAt 32 m.bytes 16 := hkept.bytesAt (by omega)
  simp only [MsgHeader.ofBytes]
  rw [hu32 0 (by decide), hu32 4 (by decide), hu8 8 (by decide), hu32 12 (by decide), hsha,
    hu32 112 (by decide), hu32 116 (by decide), hu8 120 (by decide), hu8 121 (by decide),
    hu32 124 (by decide)]

theorem recordFields_apart (env : AuditEnv) {m m' : Option MsgBytes} (h : HookApart m m') :
    fieldNames m' = fieldNames m ∧
      (recordFields env m').filter (fun f => f.name ≠ ascii "hook") =
        (recordFields env m).filter fun f => f.name ≠ ascii "hook" := by
  cases m with
  | none =>
      cases m' with
      | none => exact ⟨rfl, rfl⟩
      | some m' => exact h.elim
  | some m =>
      cases m' with
      | none => exact h.elim
      | some m' =>
          refine ⟨rfl, ?_⟩
          simp only [recordFields]
          rw [List.filter_append, List.filter_append, ofBytes_apart h]
          rfl

end Reading

/-- What holds of the line for a request. -/
structure Unforgeable (env : AuditEnv) (m : Option MsgBytes) (reply : Option CString)
    (line : List UInt8) : Prop where
  /-- One end of line, at its end. -/
  newline : ∃ text, line = text ++ [lf] ∧ lf ∉ text
  short : line.length < lsAuditLine
  whole : line = expansion env m reply
  tokens : readTokens line = ascii "ls_audit:" :: (recordFields env m).map (NamedValue.text equals)
  fields : readFields line = recordFields env m
  names : (readFields line).map (·.name) = fieldNames m
  once : (fieldNames m ++ [ascii "verdict"]).Nodup
  verdict : readVerdict line = verdictText reply
  /-- There is nothing else in it. -/
  complete : line = recordLine (readFields line) (readVerdict line)
  cut : ∀ text, reply = some text → 300 < text.bytes.length → ascii "[CUT]" <:+ readVerdict line

/-- Every record can be read back, and records of requests that are the same but for the hook and
the reply differ in these fields only. -/
theorem record_unforgeable :
    (∀ env m reply, Unforgeable env m reply (lsAuditOp env m reply)) ∧
      ∀ env m m' reply reply', HookApart m m' →
        (readFields (lsAuditOp env m' reply')).map (·.name) =
            (readFields (lsAuditOp env m reply)).map (·.name) ∧
          (readFields (lsAuditOp env m' reply')).filter (fun f => f.name ≠ ascii "hook") =
            (readFields (lsAuditOp env m reply)).filter fun f => f.name ≠ ascii "hook" := by
  have hfields : ∀ env m reply, readFields (lsAuditOp env m reply) = recordFields env m := by
    intro env m reply
    rw [written_eq]
    exact readFields_recordLine (recordFields_plain env m) (recordFields_not_verdict env m)
  have hverdict : ∀ env m reply, readVerdict (lsAuditOp env m reply) = verdictText reply := by
    intro env m reply
    rw [written_eq]
    exact readVerdict_recordLine (recordFields_plain env m)
  constructor
  · intro env m reply
    constructor
    · rw [written_eq]
      exact recordLine_newline (recordFields_plain env m) (verdictText_visible reply)
    · rw [written_eq, ← expansion_eq]
      exact length_expansion_lt env m reply
    · rw [written_eq, expansion_eq]
    · rw [written_eq]
      exact readTokens_recordLine (recordFields_plain env m) (recordFields_not_verdict env m)
    · exact hfields env m reply
    · rw [hfields, recordFields_names]
    · exact fieldNames_nodup m
    · exact hverdict env m reply
    · rw [hfields, hverdict, written_eq]
    · rintro text rfl hlong
      rw [hverdict]
      exact quote_cut text.ends hlong (by decide)
  · intro env m m' reply reply' hapart
    obtain ⟨hnames, hsame⟩ := recordFields_apart env hapart
    rw [hfields, hfields, recordFields_names, recordFields_names]
    exact ⟨hnames, hsame⟩

end Audit
end LiveSurface
