import LiveSurface.Library.JsonString
import LiveSurface.Library.Lines
import LiveSurface.Ring.Model

/-!
# Lines of the drain agent

The drain agent prints each record as one line of JSON.  Some fields of a record are texts from
elsewhere, of which nothing is promised: every byte that may not stand in a string is printed as an
escape.

Main results:

- Theorem {lit}`spells_jsonChar`: what is printed for a byte is read as that byte.
- Theorem {lit}`lsJsonStr_lossless`: a text is printed as a string that says the same.
- Theorem {lit}`emitRst_lines`: records of teardowns are one line each.
-/

namespace LiveSurface
namespace Drain

open JsonString Lines
open LiveSurface.Ring (LsRec)

/-! ## Escaping -/

/-- {lit}`%04x`, of a byte. -/
def hex4 (c : UInt8) : List Char :=
  ['0', '0', Nat.digitChar (c.toNat / 16), Nat.digitChar (c.toNat % 16)]

/-- What {lit}`ls_json_str` prints for a byte. -/
def jsonChar (c : UInt8) : List Char :=
  if c = 0x22 then ['\\', '"']
  else if c = 0x5c then ['\\', '\\']
  else if c = 0x0a then ['\\', 'n']
  else if c = 0x0d then ['\\', 'r']
  else if c = 0x09 then ['\\', 't']
  else if c < 0x20 ∨ c > 0x7e then '\\' :: 'u' :: hex4 c
  else [Char.ofNat c.toNat]

/-- {lit}`ls_json_str` with so many turns left; it is {lit}`none` where it reads behind the buffer. -/
def lsJsonStr : (p : List UInt8) → (n : Nat) → Option (List Char)
  | _, 0 => some []
  | [], _ + 1 => none
  | c :: rest, n + 1 => if c = 0 then some [] else (lsJsonStr rest n).map (jsonChar c ++ ·)

/-- The bytes up to the first NUL, or so many of them. -/
def upToNul (p : List UInt8) (n : Nat) : List UInt8 := (p.take n).takeWhile (· ≠ 0)

def Printable (c : Char) : Prop := 0x20 ≤ c.toNat ∧ c.toNat ≤ 0x7e

instance (c : Char) : Decidable (Printable c) := inferInstanceAs (Decidable (_ ∧ _))

/-! ## One byte -/

theorem hexDigit_digitChar {d : Nat} (h : d < 16) :
    hexDigit (Nat.digitChar d) = some d ∧ Printable (Nat.digitChar d) := by
  revert d
  decide

theorem hexUnit_hex4 (c : UInt8) :
    hexUnit '0' '0' (Nat.digitChar (c.toNat / 16)) (Nat.digitChar (c.toNat % 16)) =
      some c.toNat := by
  have hc := c.toNat_lt
  rw [hexUnit, (hexDigit_digitChar (show c.toNat / 16 < 16 by omega)).1,
    (hexDigit_digitChar (Nat.mod_lt c.toNat (show 0 < 16 by omega))).1,
    show hexDigit '0' = some 0 by decide]
  simp only [Option.pure_def, Option.bind_eq_bind, Option.bind_some, Option.some.injEq]
  omega

/-- What is printed for a byte is read as that byte, and is printable. -/
theorem spells_jsonChar (c : UInt8) :
    Spells (jsonChar c) c.toNat ∧ ∀ d ∈ jsonChar c, Printable d := by
  unfold jsonChar
  split_ifs with hquote hslash hlf hcr htab hother
  · exact hquote ▸ ⟨spells_escape rfl, by decide⟩
  · exact hslash ▸ ⟨spells_escape rfl, by decide⟩
  · exact hlf ▸ ⟨spells_escape rfl, by decide⟩
  · exact hcr ▸ ⟨spells_escape rfl, by decide⟩
  · exact htab ▸ ⟨spells_escape rfl, by decide⟩
  · have hc := c.toNat_lt
    have hhigh := (hexDigit_digitChar (show c.toNat / 16 < 16 by omega)).2
    have hlow := (hexDigit_digitChar (Nat.mod_lt c.toNat (show 0 < 16 by omega))).2
    refine ⟨spells_hexUnit (hexUnit_hex4 c), ?_⟩
    simp only [hex4, List.forall_mem_cons, List.not_mem_nil, false_implies, implies_true, and_true]
    exact ⟨by decide, by decide, by decide, by decide, hhigh, hlow⟩
  · rw [not_or, UInt8.not_lt, gt_iff_lt, UInt8.not_lt, UInt8.le_iff_toNat_le,
      UInt8.le_iff_toNat_le] at hother
    have hlow : 0x20 ≤ c.toNat := hother.1
    have hhigh : c.toNat ≤ 0x7e := hother.2
    have htoNat := toNat_ofNat_byte c
    have hne : ∀ d : UInt8, c ≠ d → Char.ofNat c.toNat ≠ Char.ofNat d.toNat := by
      intro d hd heq
      have := congrArg Char.toNat heq
      rw [htoNat, toNat_ofNat_byte d] at this
      exact hd (UInt8.toNat_inj.mp this)
    have hspells := @spells_char (Char.ofNat c.toNat) (by omega) (hne 0x22 hquote)
      (hne 0x5c hslash)
    rw [htoNat] at hspells
    refine ⟨hspells, ?_⟩
    rw [List.forall_mem_singleton, Printable, htoNat]
    exact ⟨hlow, hhigh⟩

/-! ## A text -/

/-- The loop prints the bytes up to the first NUL, or so many of them. -/
theorem lsJsonStr_eq {p : List UInt8} {n : Nat} (h : n ≤ p.length ∨ 0 ∈ p) :
    lsJsonStr p n = some ((upToNul p n).flatMap jsonChar) := by
  induction p generalizing n with
  | nil =>
      have hn : n = 0 := by simpa using h
      rw [hn, lsJsonStr]
      rfl
  | cons c rest ih =>
      cases n with
      | zero =>
          rw [lsJsonStr]
          rfl
      | succ n =>
          rw [lsJsonStr, upToNul, List.take_succ_cons]
          by_cases hc : c = 0
          · rw [if_pos hc, List.takeWhile_cons_of_neg (by simp [hc])]
            rfl
          · have hrest : n ≤ rest.length ∨ 0 ∈ rest := by
              rcases h with hlength | hmem
              · exact .inl (Nat.le_of_succ_le_succ hlength)
              · exact .inr ((List.mem_cons.mp hmem).resolve_left (Ne.symm hc))
            rw [if_neg hc, ih hrest, List.takeWhile_cons_of_pos (by simp [hc]),
              List.flatMap_cons, Option.map_some]
            rfl

/-- Between quotes, what is printed for some bytes is read as those bytes. -/
theorem string_escaped (bs : List UInt8) (rest : List Char) :
    string ('"' :: (bs.flatMap jsonChar ++ '"' :: rest)) = some (bs.map UInt8.toNat, rest) := by
  rw [string, body_flatMap (fun c => (spells_jsonChar c).1), Option.map_some, codePoints_eq_self]
  intro u hu
  obtain ⟨c, _, rfl⟩ := List.mem_map.mp hu
  have hc := c.toNat_lt
  omega

theorem printable_escaped (bs : List UInt8) : ∀ c ∈ bs.flatMap jsonChar, Printable c := by
  intro c hc
  obtain ⟨b, _, hc⟩ := List.mem_flatMap.mp hc
  exact (spells_jsonChar b).2 c hc

/-- A text is printed in printable characters, and between quotes it is a string that is read as the
bytes of the text; so texts that differ are printed differently. -/
theorem lsJsonStr_lossless (p : List UInt8) (n : Nat) (h : n ≤ p.length ∨ 0 ∈ p) :
    ∃ out, lsJsonStr p n = some out ∧ (∀ c ∈ out, Printable c) ∧
      (∀ rest, string ('"' :: (out ++ '"' :: rest)) =
        some ((upToNul p n).map UInt8.toNat, rest)) ∧
      ∀ q m, m ≤ q.length ∨ 0 ∈ q → lsJsonStr q m = some out → upToNul q m = upToNul p n := by
  refine ⟨_, lsJsonStr_eq h, printable_escaped _, string_escaped _, ?_⟩
  intro q m hq hout
  rw [lsJsonStr_eq hq, Option.some.injEq] at hout
  have hread := string_escaped (upToNul q m) []
  rw [hout, string_escaped, Option.some.injEq, Prod.mk.injEq] at hread
  have hinj : Function.Injective UInt8.toNat := fun _ _ => UInt8.toNat_inj.mp
  exact (List.map_injective_iff.mpr hinj hread.1).symm

theorem lsJsonStr_lossless_quote :
    ∃ out, lsJsonStr [0x22, 0x0a, 0xff, 0] 8 = some out ∧ (∀ c ∈ out, Printable c) ∧
      (∀ rest, string ('"' :: (out ++ '"' :: rest)) =
        some ((upToNul [0x22, 0x0a, 0xff, 0] 8).map UInt8.toNat, rest)) ∧
      ∀ q m, m ≤ q.length ∨ 0 ∈ q → lsJsonStr q m = some out →
        upToNul q m = upToNul [0x22, 0x0a, 0xff, 0] 8 :=
  lsJsonStr_lossless [0x22, 0x0a, 0xff, 0] 8 (.inr (by decide))

/-! ## A record -/

/-- {lit}`struct rst_rec`. -/
structure RstRec where
  cookieLo : UInt32
  cookieHi : UInt32
  lineno : UInt32
  err : UInt32
  reason : UInt32
  fileLen : UInt32
  causeLen : UInt32
  file : List UInt8
  cause : List UInt8
  file_length : file.length = 28
  cause_length : cause.length = 36

/-- {lit}`rst_fn_name`. -/
def rstFnName (id : UInt32) : String :=
  if id = 4 then "rst_why"
  else if id = 5 then "rst_why_va"
  else if id = 6 then "rst_why_preserve"
  else if id = 7 then "rst_why_preserve_va"
  else "?"

/-- {lit}`%u` and {lit}`%llu`. -/
def unsigned (n : Nat) : List Char := Nat.toDigits 10 n

/-- {lit}`%08x`. -/
def hex8 (n : UInt32) : List Char :=
  (List.range 8).map fun i => Nat.digitChar (n.toNat / 16 ^ (7 - i) % 16)

/-- The length of a field that is printed. -/
def fieldLen (len : UInt32) (size : Nat) : Nat := if len.toNat < size then len.toNat else size

/-- What {lit}`emit_rst` prints before the end of the line. -/
def rstPieces (h : LsRec) (r : RstRec) (file cause : List Char) : List (List Char) :=
  ["\x7b\"ts_ns\":".toList, unsigned h.tsNs.toNat, ",\"seq\":".toList, unsigned h.seq.toNat,
    ",\"slot\":".toList, unsigned h.slot.toNat, ",\"hook\":\"reset\",\"fn\":\"".toList,
    (rstFnName h.hookId).toList, "\",\"schema\":".toList, unsigned h.schemaId.toNat,
    ",\"file\":\"".toList, file, "\",\"line\":".toList, unsigned r.lineno.toNat,
    ",\"err\":".toList, unsigned r.err.toNat, ",\"reason\":".toList, unsigned r.reason.toNat,
    ",\"flow\":\"".toList, hex8 r.cookieHi, hex8 r.cookieLo, "\",\"cause\":\"".toList, cause,
    "\"\x7d".toList]

/-- {lit}`emit_rst`. -/
def emitRst (h : LsRec) (r : RstRec) : Option (List Char) := do
  let file ← lsJsonStr r.file (fieldLen r.fileLen 28)
  let cause ← lsJsonStr r.cause (fieldLen r.causeLen 36)
  return (rstPieces h r file cause).flatten ++ ['\n']

theorem fieldLen_le (len : UInt32) (size : Nat) : fieldLen len size ≤ size := by
  unfold fieldLen
  split <;> omega

theorem printable_unsigned (n : Nat) : ∀ c ∈ unsigned n, Printable c := by
  intro c hc
  have hdigit := Nat.isDigit_of_mem_toDigits (by decide) (by decide) hc
  simp only [Char.isDigit, Bool.and_eq_true, decide_eq_true_eq, UInt32.le_iff_toNat_le] at hdigit
  have hlow : 48 ≤ c.toNat := hdigit.1
  have hhigh : c.toNat ≤ 57 := hdigit.2
  exact ⟨by omega, by omega⟩

theorem printable_hex8 (n : UInt32) : ∀ c ∈ hex8 n, Printable c := by
  intro c hc
  obtain ⟨i, _, rfl⟩ := List.mem_map.mp hc
  exact (hexDigit_digitChar (Nat.mod_lt _ (show 0 < 16 by omega))).2

theorem printable_rstFnName (id : UInt32) : ∀ c ∈ (rstFnName id).toList, Printable c := by
  unfold rstFnName
  split_ifs <;> decide

theorem printable_rstPieces (h : LsRec) (r : RstRec) {file cause : List Char}
    (hfile : ∀ c ∈ file, Printable c) (hcause : ∀ c ∈ cause, Printable c) :
    ∀ piece ∈ rstPieces h r file cause, ∀ c ∈ piece, Printable c := by
  simp only [rstPieces, List.forall_mem_cons, List.not_mem_nil, false_implies, implies_true, and_true]
  exact ⟨by decide, printable_unsigned _, by decide, printable_unsigned _, by decide,
    printable_unsigned _, by decide, printable_rstFnName _, by decide, printable_unsigned _,
    by decide, hfile, by decide, printable_unsigned _, by decide, printable_unsigned _, by decide,
    printable_unsigned _, by decide, printable_hex8 _, printable_hex8 _, by decide, hcause,
    by decide⟩

theorem emitRst_oneLine (h : LsRec) (r : RstRec) :
    ∃ line, emitRst h r = some (line ++ ['\n']) ∧ ∀ c ∈ line, Printable c := by
  have hfileLen : fieldLen r.fileLen 28 ≤ r.file.length := by
    rw [r.file_length]
    exact fieldLen_le _ _
  have hcauseLen : fieldLen r.causeLen 36 ≤ r.cause.length := by
    rw [r.cause_length]
    exact fieldLen_le _ _
  have hfile := lsJsonStr_eq (.inl hfileLen)
  have hcause := lsJsonStr_eq (.inl hcauseLen)
  refine ⟨_, by rw [emitRst, hfile, hcause]; rfl, fun c hc => ?_⟩
  obtain ⟨piece, hpiece, hc⟩ := List.mem_flatten.mp hc
  exact printable_rstPieces h r (printable_escaped _) (printable_escaped _) piece hpiece c hc

theorem oneLine_of_printable {line : List Char} (h : ∀ c ∈ line, Printable c) : OneLine line :=
  ⟨fun hc => absurd (h _ hc) (by decide), fun hc => absurd (h _ hc) (by decide)⟩

/-- Records of teardowns are one line each, whatever their texts hold. -/
theorem emitRst_lines (rs : List (LsRec × RstRec)) :
    ∃ out, rs.mapM (fun r => emitRst r.1 r.2) = some out ∧
      (textLines [] out.flatten).map (· ++ ['\n']) = out ∧ out.length = rs.length := by
  choose line hline hprintable using fun r : LsRec × RstRec => emitRst_oneLine r.1 r.2
  refine ⟨rs.map fun r => line r ++ ['\n'], ?_, ?_, List.length_map _⟩
  · simp only [hline]
    exact List.mapM_pure
  · have hwritten : (rs.map fun r => line r ++ ['\n']).flatten = written (rs.map line) := by
      rw [written, List.flatMap_map]
      rfl
    rw [hwritten, textLines_written, List.map_map]
    · rfl
    · exact List.forall_mem_map.mpr fun r _ => oneLine_of_printable (hprintable r)

end Drain
end LiveSurface
