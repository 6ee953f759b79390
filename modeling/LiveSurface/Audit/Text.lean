import LiveSurface.BuildId.Readers
import LiveSurface.Candidate.Consume
import LiveSurface.Control.Message
import Mathlib.Data.List.TakeWhile

/-!
# What goes into an audit record

Three texts of a record come from outside: the name of the peer's process, the hook of the request
and the reply.  The first two stand among fields that are told apart by spaces, so every byte that
a reader could take for a separator becomes an underscore.  The reply stands between quotes and
keeps its spaces.  A text that does not fit is marked at its end.

Main results:

- Theorems {lit}`peerComm_plain` and {lit}`sanitize_plain`: no separator, quote or end of line.
- Theorem {lit}`quote_visible`: no quote and no end of line.
- Theorem {lit}`quote_cut`: a reply over the limit is marked.
- Theorem {lit}`decimal_plain` and theorem {lit}`length_decimal_le`: printed numbers.
-/

namespace LiveSurface
namespace Audit

open BuildId (RegularFile readBuildId)
open Candidate (ascii lf cr)
open Metadata (hex hexDigit)

def space : UInt8 := 0x20

/-- The double quote. -/
def quote : UInt8 := 0x22

def equals : UInt8 := 0x3d

/-- It may stand in a value without quotes. -/
def Plain (c : UInt8) : Prop := 0x20 ≤ c ∧ c ≤ 0x7e ∧ c ≠ space ∧ c ≠ quote ∧ c ≠ equals

instance (c : UInt8) : Decidable (Plain c) := inferInstanceAs (Decidable (_ ∧ _))

/-- It may stand in the quoted value. -/
def Visible (c : UInt8) : Prop := 0x20 ≤ c ∧ c ≤ 0x7e ∧ c ≠ quote

instance (c : UInt8) : Decidable (Visible c) := inferInstanceAs (Decidable (_ ∧ _))

theorem Plain.visible {c : UInt8} (h : Plain c) : Visible c := ⟨h.1, h.2.1, h.2.2.2.1⟩

theorem plain_of_all {text : List UInt8} (h : text.all (fun c => decide (Plain c))) :
    ∀ c ∈ text, Plain c := by
  intro c hc
  exact of_decide_eq_true (List.all_eq_true.mp h c hc)

/-! ## Copying -/

/-- What becomes of a byte of a field. -/
def fieldChar (c : UInt8) : UInt8 :=
  if c < 0x20 ∨ 0x7e < c ∨ c = space ∨ c = quote ∨ c = equals then 0x5f else c

/-- What becomes of a byte of the reply. -/
def verdictChar (c : UInt8) : UInt8 :=
  if c = quote then 0x27
  else if c = lf ∨ c = cr then space
  else if c < 0x20 ∨ 0x7e < c then 0x3f
  else c

theorem fieldChar_plain (c : UInt8) : Plain (fieldChar c) := by
  unfold fieldChar
  split
  · decide
  · rename_i h
    simp only [not_or, UInt8.not_lt] at h
    exact ⟨h.1, h.2.1, h.2.2⟩

theorem verdictChar_visible (c : UInt8) : Visible (verdictChar c) := by
  unfold verdictChar
  split
  · decide
  · split
    · decide
    · split
      · decide
      · rename_i hquote _ h
        simp only [not_or, UInt8.not_lt] at h
        exact ⟨h.1, h.2, hquote⟩

/-- The loop that copies a string: at most {lit}`left` bytes of it, into {lit}`room` bytes.  The
second component says whether all of it was copied. -/
def copy (f : UInt8 → UInt8) : (left room : Nat) → List UInt8 → List UInt8 × Bool
  | 0, _, _ => ([], true)
  | _ + 1, _, [] => ([], true)
  | left + 1, room, c :: rest =>
      if c = 0 then ([], true)
      else
        match room with
        | 0 => ([], false)
        | room + 1 => (f c :: (copy f left room rest).1, (copy f left room rest).2)

/-- The loop of {lit}`ls_audit_peer_comm`, which stops at an end of line too. -/
def commLoop : (room : Nat) → List UInt8 → List UInt8
  | 0, _ => []
  | _ + 1, [] => []
  | room + 1, c :: rest =>
      if c = lf ∨ c = cr ∨ c = 0 then [] else fieldChar c :: commLoop room rest

/-- {lit}`ls_audit_peer_comm`, with {lit}`out_len` 32; {lit}`comm` is what the file has, if it can
be read. -/
def peerComm (pid : UInt32) (comm : Option (List UInt8)) : List UInt8 :=
  if pid = 0 then []
  else
    match comm with
    | none => ascii "gone"
    | some content => if content.take 63 = [] then ascii "gone" else commLoop 31 (content.take 63)

/-- An empty text is recorded as a dash. -/
def orDash (out : List UInt8) (outLen : Nat) : List UInt8 :=
  if out = [] ∧ 1 < outLen then ascii "-" else out

/-- The mark takes the place of the last bytes. -/
def marked (out mark : List UInt8) (back : Nat) : List UInt8 := out.take (out.length - back) ++ mark

/-- {lit}`ls_audit_sanitize`. -/
def lsAuditSanitize (text : List UInt8) (inMax outLen : Nat) : List UInt8 :=
  let copied := copy fieldChar inMax (outLen - 1) text
  let out := orDash copied.1 outLen
  if copied.2 = false ∧ 12 < outLen then marked out (ascii "_CUT_") 11 else out

/-- {lit}`ls_audit_quote`. -/
def lsAuditQuote (text : List UInt8) (inMax outLen : Nat) : List UInt8 :=
  let cutByPolicy := inMax < ((text.take (inMax + 1)).takeWhile (· ≠ 0)).length
  let copied := copy verdictChar inMax (outLen - 1) text
  let out := orDash copied.1 outLen
  if (cutByPolicy ∨ copied.2 = false) ∧ 8 < outLen then marked out (ascii "[CUT]") 7 else out

section Copying

variable {f : UInt8 → UInt8} {P : UInt8 → Prop} {left room : Nat} {text out mark : List UInt8}

theorem copy_forall (hf : ∀ c, P (f c)) : ∀ c ∈ (copy f left room text).1, P c := by
  induction text generalizing left room with
  | nil => cases left <;> simp [copy]
  | cons b rest ih =>
      cases left with
      | zero => simp [copy]
      | succ left =>
          unfold copy
          split
          · simp
          · cases room with
            | zero => simp
            | succ room => exact List.forall_mem_cons.mpr ⟨hf b, ih⟩

theorem length_copy_le : (copy f left room text).1.length ≤ room := by
  induction text generalizing left room with
  | nil => cases left <;> simp [copy]
  | cons b rest ih =>
      cases left with
      | zero => simp [copy]
      | succ left =>
          unfold copy
          split
          · simp
          · cases room with
            | zero => simp
            | succ room => exact Nat.succ_le_succ ih

theorem commLoop_plain : ∀ c ∈ commLoop room text, Plain c := by
  induction text generalizing room with
  | nil => cases room <;> simp [commLoop]
  | cons b rest ih =>
      cases room with
      | zero => simp [commLoop]
      | succ room =>
          unfold commLoop
          split
          · simp
          · exact List.forall_mem_cons.mpr ⟨fieldChar_plain b, ih⟩

theorem length_commLoop_le : (commLoop room text).length ≤ room := by
  induction text generalizing room with
  | nil => cases room <;> simp [commLoop]
  | cons b rest ih =>
      cases room with
      | zero => simp [commLoop]
      | succ room =>
          unfold commLoop
          split
          · simp
          · exact Nat.succ_le_succ ih

theorem orDash_forall {outLen : Nat} (hdash : P 45) (h : ∀ c ∈ out, P c) :
    ∀ c ∈ orDash out outLen, P c := by
  unfold orDash
  split
  · intro c hc
    obtain rfl : c = 45 := List.mem_singleton.mp hc
    exact hdash
  · exact h

theorem length_orDash_le {outLen k : Nat} (hk : 1 ≤ k) (h : out.length ≤ k) :
    (orDash out outLen).length ≤ k := by
  unfold orDash
  split
  · exact hk
  · exact h

theorem marked_forall {back : Nat} (hmark : ∀ c ∈ mark, P c) (h : ∀ c ∈ out, P c) :
    ∀ c ∈ marked out mark back, P c := by
  intro c hc
  rcases List.mem_append.mp hc with hc | hc
  · exact h c (List.mem_of_mem_take hc)
  · exact hmark c hc

theorem length_marked_le {back k : Nat} (hmark : mark.length ≤ back) (hk : mark.length ≤ k)
    (h : out.length ≤ k) : (marked out mark back).length ≤ k := by
  rw [marked, List.length_append, List.length_take]
  omega

end Copying

/-! ## The three texts -/

theorem peerComm_plain (pid : UInt32) (comm : Option (List UInt8)) :
    ∀ c ∈ peerComm pid comm, Plain c := by
  have hgone : ∀ c ∈ ascii "gone", Plain c := plain_of_all (by decide)
  unfold peerComm
  split
  · simp
  · split
    · exact hgone
    · split
      · exact hgone
      · exact commLoop_plain

theorem length_peerComm_le (pid : UInt32) (comm : Option (List UInt8)) :
    (peerComm pid comm).length ≤ 31 := by
  unfold peerComm
  split
  · exact Nat.zero_le _
  · split
    · decide
    · split
      · decide
      · exact length_commLoop_le

theorem sanitize_plain (text : List UInt8) (inMax outLen : Nat) :
    ∀ c ∈ lsAuditSanitize text inMax outLen, Plain c := by
  have hout : ∀ c ∈ orDash (copy fieldChar inMax (outLen - 1) text).1 outLen, Plain c :=
    orDash_forall (by decide) (copy_forall fieldChar_plain)
  unfold lsAuditSanitize
  dsimp only
  split
  · exact marked_forall (plain_of_all (by decide)) hout
  · exact hout

theorem length_sanitize_le (text : List UInt8) (inMax outLen : Nat) (h : 6 ≤ outLen) :
    (lsAuditSanitize text inMax outLen).length ≤ outLen - 1 := by
  have hout : (orDash (copy fieldChar inMax (outLen - 1) text).1 outLen).length ≤ outLen - 1 :=
    length_orDash_le (by omega) length_copy_le
  have hmark : (ascii "_CUT_").length = 5 := rfl
  unfold lsAuditSanitize
  dsimp only
  split
  · exact length_marked_le (by omega) (by omega) hout
  · exact hout

theorem quote_visible (text : List UInt8) (inMax outLen : Nat) :
    ∀ c ∈ lsAuditQuote text inMax outLen, Visible c := by
  have hout : ∀ c ∈ orDash (copy verdictChar inMax (outLen - 1) text).1 outLen, Visible c :=
    orDash_forall (by decide) (copy_forall verdictChar_visible)
  have hmark : ∀ c ∈ ascii "[CUT]", Visible c := fun c hc =>
    (plain_of_all (by decide) c hc).visible
  unfold lsAuditQuote
  dsimp only
  split
  · exact marked_forall hmark hout
  · exact hout

theorem length_quote_le (text : List UInt8) (inMax outLen : Nat) (h : 6 ≤ outLen) :
    (lsAuditQuote text inMax outLen).length ≤ outLen - 1 := by
  have hout : (orDash (copy verdictChar inMax (outLen - 1) text).1 outLen).length ≤ outLen - 1 :=
    length_orDash_le (by omega) length_copy_le
  have hmark : (ascii "[CUT]").length = 5 := rfl
  unfold lsAuditQuote
  dsimp only
  split
  · exact length_marked_le (by omega) (by omega) hout
  · exact hout

/-- A reply over the limit is marked. -/
theorem quote_cut {text rest : List UInt8} {inMax outLen : Nat} (hzero : (0 : UInt8) ∉ text)
    (hlong : inMax < text.length) (houtLen : 8 < outLen) :
    ascii "[CUT]" <:+ lsAuditQuote (text ++ rest) inMax outLen := by
  have htake : (text ++ rest).take (inMax + 1) = text.take (inMax + 1) :=
    List.take_append_of_le_length hlong
  have hall : (text.take (inMax + 1)).takeWhile (· ≠ 0) = text.take (inMax + 1) := by
    rw [List.takeWhile_eq_self_iff]
    intro c hc
    rw [decide_eq_true_iff]
    rintro rfl
    exact hzero (List.mem_of_mem_take hc)
  have hcut : inMax < (((text ++ rest).take (inMax + 1)).takeWhile (· ≠ 0)).length := by
    rw [htake, hall, List.length_take]
    omega
  unfold lsAuditQuote
  dsimp only
  rw [if_pos ⟨Or.inl hcut, houtLen⟩]
  exact List.suffix_append _ _

/-! ## Printed numbers -/

/-- {lit}`%d` and {lit}`%u`, of a size or another; with a width, zeros stand before the digits. -/
def decimal (width : Nat) (i : Int) : List UInt8 :=
  let sign : List UInt8 := if i < 0 then [45] else []
  let digits := (Nat.toDigits 10 i.natAbs).map fun c => UInt8.ofNat c.toNat
  sign ++ List.replicate (width - sign.length - digits.length) 48 ++ digits

theorem decimal_plain (width : Nat) (i : Int) : ∀ c ∈ decimal width i, Plain c := by
  intro c hc
  rw [decimal, List.mem_append, List.mem_append] at hc
  rcases hc with (hc | hc) | hc
  · split at hc
    · obtain rfl := List.mem_singleton.mp hc
      decide
    · exact absurd hc List.not_mem_nil
  · obtain rfl := List.eq_of_mem_replicate hc
    decide
  · obtain ⟨d, hd, rfl⟩ := List.mem_map.mp hc
    have hdigit : d.isDigit := Nat.isDigit_of_mem_toDigits (by decide) (by decide) hd
    rw [Char.isDigit_iff_toNat] at hdigit
    have hzero : '0'.toNat = 48 := rfl
    have hnine : '9'.toNat = 57 := rfl
    have hrange : ∀ n, n < 58 → 48 ≤ n → Plain (UInt8.ofNat n) := by decide +kernel
    exact hrange _ (by omega) (by omega)

theorem length_decimal_le {width k : Nat} {i : Int} (hk : 0 < k) (hi : i.natAbs < 10 ^ k) :
    (decimal width i).length ≤ max width (k + 1) := by
  have hdigits : (Nat.toDigits 10 i.natAbs).length ≤ k :=
    (Nat.length_toDigits_le_iff (by decide) hk).mpr hi
  rw [decimal]
  simp only [List.length_append, List.length_replicate, List.length_map]
  split <;> simp only [List.length_cons, List.length_nil] <;> omega

theorem length_decimal_uint32_le (x : UInt32) : (decimal 0 x.toNat).length ≤ 11 := by
  have hx := x.toNat_lt
  refine Nat.le_trans (length_decimal_le (k := 10) (by decide) ?_) (by decide)
  omega

theorem length_decimal_uint8_le (x : UInt8) : (decimal 0 x.toNat).length ≤ 4 := by
  have hx := x.toNat_lt
  refine Nat.le_trans (length_decimal_le (k := 3) (by decide) ?_) (by decide)
  omega

theorem length_decimal_int64_le (width : Nat) (hwidth : width ≤ 20) (x : Int64) :
    (decimal width x.toInt).length ≤ 20 := by
  have hlt := x.toInt_lt
  have hle := x.le_toInt
  refine Nat.le_trans (length_decimal_le (k := 19) (by decide) ?_) ?_
  · omega
  · omega

/-- Digits of bytes. -/
theorem ascii_hex_plain (bs : List UInt8) : ∀ c ∈ ascii (hex bs), Plain c := by
  have hdigit : ∀ n, n < 16 → Plain (UInt8.ofNat (hexDigit n).toNat) := by decide +kernel
  intro c hc
  rw [ascii, hex, String.toList_ofList] at hc
  obtain ⟨d, hd, rfl⟩ := List.mem_map.mp hc
  obtain ⟨b, -, hb⟩ := List.mem_flatMap.mp hd
  have hlt := b.toNat_lt
  simp only [List.mem_cons, List.not_mem_nil, or_false] at hb
  rcases hb with rfl | rfl
  · exact hdigit _ (by omega)
  · exact hdigit _ (by omega)

theorem length_ascii_hex (bs : List UInt8) : (ascii (hex bs)).length = 2 * bs.length := by
  rw [ascii, hex, String.toList_ofList, List.length_map]
  induction bs with
  | nil => rfl
  | cons b rest ih =>
      rw [List.flatMap_cons, List.length_append, ih, List.length_cons]
      simp only [List.length_cons, List.length_nil]
      omega

/-! ## The build -/

/-- What {lit}`g_ls_audit.build` can hold: at most forty characters that need no quotes. -/
structure BuildText where
  bytes : List UInt8
  short : bytes.length ≤ 40
  plain : ∀ c ∈ bytes, Plain c

/-- What is stored from the file that is executed. -/
def BuildText.ofFile (f : RegularFile) : BuildText where
  bytes := ascii (readBuildId f)
  short := by
    unfold BuildId.readBuildId
    split
    · decide
    · rename_i n hn
      have hsize : n.size ≤ 20 := by
        obtain ⟨i, -, -, -, -, hfirst⟩ := (BuildId.readBuildIdNote_eq_some_iff.mp hn).window
        have hsizes : ∀ ds ∈ BuildId.sizes, ds ≤ 20 := by decide
        exact hsizes n.size hfirst.size
      rw [BuildId.idOf, length_ascii_hex, bytesAt, List.length_take]
      omega
  plain := by
    unfold BuildId.readBuildId
    split
    · exact plain_of_all (by decide)
    · exact ascii_hex_plain _

/-- Digits of at most twenty bytes. -/
def BuildText.ofId (id : List UInt8) (h : id.length ≤ 20) : BuildText where
  bytes := ascii (hex id)
  short := by
    rw [length_ascii_hex]
    omega
  plain := ascii_hex_plain id

end Audit
end LiveSurface
