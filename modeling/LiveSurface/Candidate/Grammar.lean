import LiveSurface.Candidate.Consume
import Mathlib.Data.List.Forall2

/-!
# The grammar of the header

A header is one of three request lines, header lines, and an empty line.  Exactly one
header line is that of the nonce.  The recogniser compares names after it has set bit
five of each byte, which turns a capital into its small letter and a carriage return
into a hyphen: it reads a second grammar, which differs where a header line starts with
a part of the name up to a hyphen, and then a carriage return.

Main results:

- Definition {lit}`Header`: the grammar, by what it takes for the name and for another line.
- Theorem {lit}`plain_iff_folded`: the two grammars agree on a line that holds no folded
  carriage return.
-/

namespace LiveSurface
namespace Candidate

/-! ## Names -/

/-- The name of the nonce's header. -/
def headerName : List UInt8 := ascii "x-proof-nonce"

/-- A byte of the name, in either case where it is a letter. -/
def SameByte (c x : UInt8) : Prop := c = x ∨ (0x61 ≤ x ∧ x ≤ 0x7a ∧ c = x - 32)

instance (c x : UInt8) : Decidable (SameByte c x) := inferInstanceAs (Decidable (_ ∨ _))

/-- The name, letters compared without case and every other byte exactly. -/
def PlainName (name : List UInt8) : Prop := List.Forall₂ SameByte name headerName

/-- The name, compared as the recogniser compares. -/
def FoldedName (name : List UInt8) : Prop := name.map (· ||| 32) = headerName

instance (name : List UInt8) : Decidable (FoldedName name) := inferInstanceAs (Decidable (_ = _))

/-- How many bytes of a line are compared equal to a name. -/
def nameLength : List UInt8 → List UInt8 → Nat
  | c :: line, x :: name => if c ||| 32 = x then nameLength line name + 1 else 0
  | _, _ => 0

/-! ## Lines -/

/-- The end of a line. -/
def crlf : List UInt8 := [cr, lf]

/-- A byte that ends a line. -/
def LineEnd (c : UInt8) : Prop := c = cr ∨ c = lf

instance (c : UInt8) : Decidable (LineEnd c) := inferInstanceAs (Decidable (_ ∨ _))

/-- The request line of a path. -/
def requestLine (path : Nat) : Option (List UInt8) :=
  match path with
  | 1 => some (ascii "POST /mcp HTTP/1.1")
  | 2 => some (ascii "POST /a2a HTTP/1.1")
  | 3 => some (ascii "POST /delegate HTTP/1.1")
  | _ => none

/-- The line of the nonce, by what is taken for its name. -/
def NonceLine (isName : List UInt8 → Prop) (line nonce : List UInt8) : Prop :=
  ∃ name, isName name ∧ line = name ++ [colon, 0x20] ++ nonce ∧ nonce.length = 32 ∧
    ∀ c ∈ nonce, hexByte c = true

/-- Another header line: not empty, without a line end in it, and of another name. -/
def PlainOther (line : List UInt8) : Prop :=
  line ≠ [] ∧ (∀ c ∈ line, ¬LineEnd c) ∧
    ¬∃ name rest, PlainName name ∧ line = name ++ colon :: rest

/-- Another header line, as the recogniser reads it: what it compares equal to the name is
read as that, and the carriage return after the line must not be. -/
def FoldedOther (line : List UInt8) : Prop :=
  (line.length = nameLength line headerName →
      line.length ≠ 0 ∧ line.length ≠ 1 ∧ line.length ≠ 7) ∧
    (∀ c ∈ line.drop (nameLength line headerName), ¬LineEnd c) ∧
    ¬(nameLength line headerName = 13 ∧ (line)[13]? = some colon)

/-- A carriage return is among the bytes that are compared equal to the name. -/
def FoldedReturn (line : List UInt8) : Prop :=
  cr ∈ (line ++ [cr]).take (nameLength (line ++ [cr]) headerName)

instance (line : List UInt8) : Decidable (FoldedReturn line) :=
  inferInstanceAs (Decidable (_ ∈ _))

/-- Header lines with their ends. -/
def lineBytes (lines : List (List UInt8)) : List UInt8 := lines.flatMap (· ++ crlf)

/-- The grammar of the header, by what is taken for the name and for another line. -/
structure Header (isName other : List UInt8 → Prop) (bytes : List UInt8)
    (before : List (List UInt8)) (line : List UInt8) (after : List (List UInt8))
    (path : Nat) (nonce : List UInt8) : Prop where
  bytes_eq : ∃ request, requestLine path = some request ∧
    bytes = request ++ crlf ++ lineBytes (before ++ line :: after) ++ crlf
  others : ∀ l ∈ before ++ after, other l
  nonceLine : NonceLine isName line nonce

/-- The header as it should be. -/
abbrev PlainHeader := Header PlainName PlainOther

/-- The header as the recogniser reads it. -/
abbrev FoldedHeader := Header FoldedName FoldedOther

/-! ## Folding -/

/-- Setting bit five gives a byte of the name in either case, or turns a carriage return
into a hyphen. -/
theorem fold_eq_iff {x : UInt8} (hx : x ∈ headerName) (c : UInt8) :
    c ||| 32 = x ↔ SameByte c x ∨ (x = 0x2d ∧ c = cr) := by
  have hall : ∀ x ∈ headerName, ∀ n < 256, UInt8.ofNat n ||| 32 = x ↔
      SameByte (UInt8.ofNat n) x ∨ (x = 0x2d ∧ UInt8.ofNat n = cr) := by
    decide +kernel
  have h := hall x hx c.toNat c.toNat_lt
  rwa [UInt8.ofNat_toNat] at h

/-- No byte of the name is a line end, and none folds to it from a line feed. -/
theorem sameByte_not_lineEnd {x : UInt8} (hx : x ∈ headerName) {c : UInt8} (h : SameByte c x) :
    ¬LineEnd c := by
  have hall : ∀ x ∈ headerName, ∀ n < 256, SameByte (UInt8.ofNat n) x →
      ¬LineEnd (UInt8.ofNat n) := by
    decide +kernel
  have hc := hall x hx c.toNat c.toNat_lt
  rw [UInt8.ofNat_toNat] at hc
  exact hc h

/-- A name is a name after folding. -/
theorem folded_of_plain {name : List UInt8} (h : PlainName name) : FoldedName name := by
  have hgen : ∀ names : List UInt8, (∀ x ∈ names, x ∈ headerName) →
      ∀ name, List.Forall₂ SameByte name names → name.map (· ||| 32) = names := by
    intro names
    induction names with
    | nil =>
        intro _ name hname
        cases hname
        rfl
    | cons x names ih =>
        intro hmem name hname
        obtain ⟨c, rest, hc, hrest, rfl⟩ := List.forall₂_cons_right_iff.mp hname
        rw [List.map_cons, ih (fun y hy => hmem y (List.mem_cons_of_mem x hy)) rest hrest,
          (fold_eq_iff (hmem x List.mem_cons_self) c).mpr (.inl hc)]
  exact hgen headerName (fun _ hx => hx) name h

/-- A folded name without a carriage return is a name. -/
theorem plain_of_folded {name : List UInt8} (h : FoldedName name) (hcr : cr ∉ name) :
    PlainName name := by
  have hgen : ∀ names : List UInt8, (∀ x ∈ names, x ∈ headerName) →
      ∀ name : List UInt8, cr ∉ name → name.map (· ||| 32) = names →
        List.Forall₂ SameByte name names := by
    intro names
    induction names with
    | nil =>
        intro _ name _ hname
        rw [List.map_eq_nil_iff.mp hname]
        exact .nil
    | cons x names ih =>
        intro hmem name hcr hname
        obtain ⟨c, rest, rfl, hc, hrest⟩ := List.map_eq_cons_iff.mp hname
        rw [List.mem_cons, not_or] at hcr
        refine .cons ?_ (ih (fun y hy => hmem y (List.mem_cons_of_mem x hy)) rest hcr.2 hrest)
        rcases (fold_eq_iff (hmem x List.mem_cons_self) c).mp hc with hsame | ⟨-, hreturn⟩
        · exact hsame
        · exact (hcr.1 hreturn.symm).elim
  exact hgen headerName (fun _ hx => hx) name hcr h

theorem FoldedName.length {name : List UInt8} (h : FoldedName name) : name.length = 13 := by
  have hlength := congrArg List.length h
  rw [List.length_map] at hlength
  exact hlength

/-! ## Bytes compared equal to the name -/

section NameLength

variable {line name : List UInt8}

theorem nameLength_le (line name : List UInt8) :
    nameLength line name ≤ line.length ∧ nameLength line name ≤ name.length := by
  induction line generalizing name with
  | nil => simp [nameLength]
  | cons c line ih =>
      cases name with
      | nil => simp [nameLength]
      | cons x name =>
          rw [nameLength]
          split
          · simp only [List.length_cons]
            have h := ih name
            omega
          · simp

/-- What is compared equal folds to the front of the name. -/
theorem map_take_nameLength (line name : List UInt8) :
    (line.take (nameLength line name)).map (· ||| 32) = name.take (nameLength line name) := by
  induction line generalizing name with
  | nil => simp [nameLength]
  | cons c line ih =>
      cases name with
      | nil => simp [nameLength]
      | cons x name =>
          rw [nameLength]
          split
          · rename_i hc
            rw [List.take_succ_cons, List.take_succ_cons, List.map_cons, ih, hc]
          · rfl

/-- The comparison ends at a byte that is different. -/
theorem nameLength_append (front rest name : List UInt8)
    (hfront : front.map (· ||| 32) = name.take front.length) (hle : front.length ≤ name.length)
    (hrest : ∀ c x, rest.head? = some c → name[front.length]? = some x → c ||| 32 ≠ x) :
    nameLength (front ++ rest) name = front.length := by
  induction front generalizing name with
  | nil =>
      cases rest with
      | nil => rfl
      | cons c rest =>
          cases name with
          | nil => rfl
          | cons x name =>
              rw [List.nil_append, nameLength, if_neg (hrest c x rfl rfl)]
              rfl
  | cons c front ih =>
      cases name with
      | nil => simp at hle
      | cons x name =>
          rw [List.length_cons, List.take_succ_cons, List.map_cons, List.cons.injEq] at hfront
          rw [List.cons_append, nameLength, if_pos hfront.1, List.length_cons,
            ih name hfront.2 (by simpa using hle) (fun c' x' hc' hx' => hrest c' x' hc' hx')]

/-- The comparison of a longer line goes at least as far. -/
theorem nameLength_mono (line rest name : List UInt8) :
    nameLength line name ≤ nameLength (line ++ rest) name := by
  induction line generalizing name with
  | nil => simp [nameLength]
  | cons c line ih =>
      cases name with
      | nil => simp [nameLength]
      | cons x name =>
          rw [List.cons_append, nameLength, nameLength]
          split
          · have h := ih name
            omega
          · exact Nat.le_refl _

end NameLength

section Lines

variable {line name nonce : List UInt8}

/-- A folded name is compared equal to its end. -/
theorem FoldedName.nameLength_append (h : FoldedName name) (rest : List UInt8) :
    nameLength (name ++ rest) headerName = 13 := by
  have hfront : name.map (· ||| 32) = headerName.take name.length := by
    rw [h.length]
    exact h
  have hlength := Candidate.nameLength_append name rest headerName hfront (by rw [h.length]; decide) (by
    intro c x _ hx
    rw [h.length] at hx
    contradiction)
  rw [hlength, h.length]

/-- What is compared equal to the name is no line feed. -/
theorem lf_not_mem_take (line : List UInt8) : lf ∉ line.take (nameLength line headerName) := by
  intro hmem
  have hfold := List.mem_map_of_mem (f := (· ||| 32)) hmem
  rw [map_take_nameLength] at hfold
  have hall : lf ||| 32 ∉ headerName := by decide
  exact hall (List.mem_of_mem_take hfold)

/-- A folded carriage return is in the line, or it is the one after a line that is the name up
to a hyphen. -/
theorem FoldedReturn.cases (h : FoldedReturn line) :
    cr ∈ line.take (nameLength line headerName) ∨
      (line.length = nameLength line headerName ∧ (line.length = 1 ∨ line.length = 7)) := by
  rw [FoldedReturn] at h
  have hfold := map_take_nameLength (line ++ [cr]) headerName
  have hle := nameLength_le (line ++ [cr]) headerName
  rw [List.length_append, List.length_singleton] at hle
  generalize hk : nameLength (line ++ [cr]) headerName = k at h hfold hle
  by_cases hshort : k ≤ line.length
  · -- the comparison ends inside the line, so it is the comparison of the line
    rw [List.take_append_of_le_length hshort] at h hfold
    have hsame : k ≤ nameLength line headerName := by
      have hgo := nameLength_append (line.take k) [] headerName
        (by rw [List.length_take, Nat.min_eq_left hshort]; exact hfold)
        (by rw [List.length_take, Nat.min_eq_left hshort]; exact hle.2)
        (by intro c x hc; contradiction)
      rw [List.append_nil, List.length_take, Nat.min_eq_left hshort] at hgo
      have hmono := nameLength_mono (line.take k) (line.drop k) headerName
      rwa [List.take_append_drop, hgo] at hmono
    exact .inl (List.mem_of_mem_take (by
      rw [List.take_take, Nat.min_eq_left hsame]
      exact h))
  · have hfull : k = line.length + 1 := by omega
    subst hfull
    rw [List.take_of_length_le (by simp), List.map_append, List.map_singleton] at hfold
    have hfront : line.map (· ||| 32) = headerName.take line.length := by
      have htake := congrArg (List.take line.length) hfold
      rwa [List.take_left' (by simp), List.take_take, Nat.min_eq_left (by omega)] at htake
    have hlength : nameLength line headerName = line.length := by
      have hgo := nameLength_append line [] headerName hfront (by omega)
        (by intro c x hc; contradiction)
      rwa [List.append_nil] at hgo
    refine .inr ⟨hlength.symm, ?_⟩
    have hlast : headerName[line.length]? = some (cr ||| 32) := by
      have hget := congrArg (fun bs => bs[line.length]?) hfold
      rw [List.getElem?_append_right (by simp), List.length_map, Nat.sub_self,
        List.getElem?_take, if_pos (by omega)] at hget
      exact hget.symm
    have hall : ∀ i < 13, headerName[i]? = some (cr ||| 32) → i = 1 ∨ i = 7 := by decide
    exact hall line.length (by have : headerName.length = 13 := rfl; omega) hlast

/-- A line that the recogniser reads has a folded carriage return inside it or none. -/
theorem FoldedOther.return_mem (h : FoldedOther line) (hreturn : FoldedReturn line) :
    cr ∈ line.take (nameLength line headerName) := by
  rcases hreturn.cases with hmem | ⟨hall, hplace⟩
  · exact hmem
  · obtain ⟨-, hone, hseven⟩ := h.1 hall
    omega

/-- The two grammars agree on another line that holds no folded carriage return. -/
theorem plain_iff_folded (h : ¬FoldedReturn line) : PlainOther line ↔ FoldedOther line := by
  have hmono := nameLength_mono line [cr] headerName
  constructor
  · rintro ⟨hne, hends, hname⟩
    refine ⟨?_, fun c hc => hends c (List.mem_of_mem_drop hc), ?_⟩
    · intro hall
      refine ⟨by simpa using hne, ?_⟩
      by_contra hplace
      refine h ?_
      have hfold := map_take_nameLength line headerName
      rw [← hall, List.take_length] at hfold
      have hnext : nameLength (line ++ [cr]) headerName = line.length + 1 := by
        have hgo := nameLength_append (line ++ [cr]) [] headerName
          (by
            have hlast : headerName.take (line.length + 1) =
                headerName.take line.length ++ [cr ||| 32] := by
              have hcases : line.length = 1 ∨ line.length = 7 := by omega
              rcases hcases with h1 | h7
              · rw [h1]
                decide
              · rw [h7]
                decide
            rw [List.length_append, List.length_singleton, hlast, List.map_append, hfold]
            rfl)
          (by
            rw [List.length_append, List.length_singleton]
            have : headerName.length = 13 := rfl
            omega)
          (by intro c x hc; contradiction)
        rwa [List.append_nil, List.length_append, List.length_singleton] at hgo
      rw [FoldedReturn, hnext, List.take_of_length_le (by simp)]
      exact List.mem_append_right _ (List.mem_singleton_self cr)
    · rintro ⟨hlength, hcolon⟩
      refine hname ⟨line.take 13, line.drop 14, ?_, ?_⟩
      · refine plain_of_folded ?_ ?_
        · have hfold := map_take_nameLength line headerName
          rw [hlength] at hfold
          exact hfold.trans (by decide)
        · intro hmem
          exact hends cr (List.mem_of_mem_take hmem) (.inl rfl)
      · have hlt : 13 < line.length := by
          by_contra hge
          rw [List.getElem?_eq_none (by omega)] at hcolon
          contradiction
        rw [List.getElem?_eq_getElem hlt] at hcolon
        rw [← Option.some.inj hcolon, ← List.drop_eq_getElem_cons hlt, List.take_append_drop]
  · rintro ⟨hall, hends, hcolon⟩
    refine ⟨?_, ?_, ?_⟩
    · rintro rfl
      exact (hall rfl).1 rfl
    · intro c hc
      rw [← List.take_append_drop (nameLength line headerName) line, List.mem_append] at hc
      rcases hc with htake | hdrop
      · rintro (rfl | rfl)
        · refine h ?_
          rw [FoldedReturn]
          have hsub : line.take (nameLength line headerName) <+:
              (line ++ [cr]).take (nameLength (line ++ [cr]) headerName) := by
            have hfirst : line.take (nameLength line headerName) =
                (line ++ [cr]).take (nameLength line headerName) :=
              (List.take_append_of_le_length (nameLength_le line headerName).1).symm
            rw [hfirst]
            exact List.take_prefix_take_left hmono
          exact hsub.subset htake
        · exact lf_not_mem_take line htake
      · exact hends c hdrop
    · rintro ⟨name, rest, hname, rfl⟩
      have hfolded := folded_of_plain hname
      refine hcolon ⟨hfolded.nameLength_append _, ?_⟩
      rw [List.getElem?_append_right (Nat.le_of_eq hfolded.length),
        hfolded.length]
      rfl

/-- A nonce's line that is not folded. -/
theorem NonceLine.plain (h : NonceLine FoldedName line nonce) (hreturn : ¬FoldedReturn line) :
    NonceLine PlainName line nonce := by
  obtain ⟨name, hname, rfl, hlength, hhex⟩ := h
  refine ⟨name, plain_of_folded hname ?_, rfl, hlength, hhex⟩
  intro hmem
  refine hreturn ?_
  rw [FoldedReturn, List.append_assoc, List.append_assoc, hname.nameLength_append,
    List.take_left' hname.length]
  exact hmem

theorem NonceLine.folded (h : NonceLine PlainName line nonce) :
    NonceLine FoldedName line nonce := by
  obtain ⟨name, hname, hrest⟩ := h
  exact ⟨name, folded_of_plain hname, hrest⟩

end Lines

end Candidate
end LiveSurface
