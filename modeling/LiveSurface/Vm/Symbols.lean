import LiveSurface.Library.Buffer
import LiveSurface.Library.Search

/-!
# The section that is verified and the function that is run

The verifier is told a section and uBPF a function symbol.  Two functions relate them by the symbol
table of the object: one finds the function that is defined in a section, the other asks whether a
function is defined in a section.  Both run on objects that nobody has checked.

The tables are checked to lie in the object.  Strings are compared where they are, and need not
end.

Main results:

- Theorem {lit}`symbols_cases`: the checks of the tables.
- Theorem {lit}`visitFunction_cases` and theorem {lit}`visitSymbol_cases`: all that a symbol can do
  to the two searches.
- Theorem {lit}`function_is_verified_iff`: when the two functions stay inside the object and agree.
-/

namespace LiveSurface
namespace Vm

/-! ## Tables -/

def shtSymtab : Nat := 2
def sttFunc : Nat := 2

/-- The section table, the names of the sections, the symbols and their names. -/
structure Symbols where
  shoff : Nat
  shnum : Nat
  strOff : Nat
  strSize : Nat
  symOff : Nat
  symCount : Nat
  nameOff : Nat
  nameSize : Nat
deriving DecidableEq

/-- The section header of a number. -/
def Symbols.header (t : Symbols) (i : Nat) : Nat := t.shoff + i * 64

/-- The symbol of a number. -/
def Symbols.sym (t : Symbols) (i : Nat) : Nat := t.symOff + i * 24

/-- The first section that is a symbol table. -/
def findSymtab (elf : Buffer) (shoff shnum : Nat) : Option (Option Nat) :=
  search (fun i => do
    let type ← rd 4 elf (shoff + i * 64 + 4)
    some (if type = shtSymtab then some i else none)) (List.range shnum)

/-- The checks of a symbol table and of the names of its symbols; what has been found before them
is in the tables. -/
def symbolTable (elf : Buffer) (t : Symbols) (i : Nat) : Option (Option Symbols) := do
  let entsize ← rd 8 elf (t.header i + 0x38)
  let symOff ← rd 8 elf (t.header i + 0x18)
  let symSize ← rd 8 elf (t.header i + 0x20)
  let link ← rd 4 elf (t.header i + 0x28)
  if entsize ≠ 24 then some none
  else if symOff > elf.length ∨ symSize > elf.length - symOff then some none
  else if link ≥ t.shnum then some none
  else
    let nameOff ← rd 8 elf (t.header link + 0x18)
    let nameSize ← rd 8 elf (t.header link + 0x20)
    if nameOff > elf.length ∨ nameSize > elf.length - nameOff then some none
    else some (some { t with symOff, symCount := symSize / 24, nameOff, nameSize })

/-- The checks of the section table and of the names of the sections. -/
def sectionTable (elf : Buffer) : Option (Option Symbols) :=
  if elf.length < 64 then some none
  else do
    let shentsize ← rd 2 elf 0x3a
    let shnum ← rd 2 elf 0x3c
    let shoff ← rd 8 elf 0x28
    let shstrndx ← rd 2 elf 0x3e
    if shentsize ≠ 64 ∨ shnum = 0 then some none
    else if shoff > elf.length ∨ shnum * 64 > elf.length - shoff then some none
    else if shstrndx ≥ shnum then some none
    else
      let strOff ← rd 8 elf (shoff + shstrndx * 64 + 0x18)
      let strSize ← rd 8 elf (shoff + shstrndx * 64 + 0x20)
      if strOff > elf.length ∨ strSize > elf.length - strOff then some none
      else
        some (some { shoff, shnum, strOff, strSize, symOff := 0, symCount := 0, nameOff := 0,
                     nameSize := 0 })

/-- What both functions check before they look at a symbol. -/
def symbols (elf : Buffer) : Option (Option Symbols) := do
  match ← sectionTable elf with
  | none => some none
  | some t =>
      match ← findSymtab elf t.shoff t.shnum with
      | none => some none
      | some i => symbolTable elf t i

/-! ## The two functions -/

/-- One symbol in the loop of {lit}`ls_function_in_section`; the result {lit}`none` is 0. -/
def visitFunction (elf : Buffer) (t : Symbols) (sec : CString) (outlen i : Nat) :
    Option (Option (Option (List UInt8))) := do
  let info ← rd 1 elf (t.sym i + 4)
  if info % 16 ≠ sttFunc then some none
  else
    let shndx ← rd 2 elf (t.sym i + 6)
    let nameo ← rd 4 elf (t.sym i)
    if shndx ≥ t.shnum ∨ nameo ≥ t.nameSize then some none
    else
      let owner ← rd 4 elf (t.header shndx)
      if owner ≥ t.strSize then some none
      else
        let equal ← strcmp (elf.drop (t.strOff + owner)) sec.pointer
        if !equal then some none
        else
          let name ← cstr (elf.drop (t.nameOff + nameo))
          some (some (if name = [] ∨ outlen ≤ name.length then none else some name))

/-- {lit}`ls_function_in_section`: the name that it copies. -/
def lsFunctionInSection (elf : Buffer) (sec : CString) (outlen : Nat) :
    Option (Option (List UInt8)) :=
  if outlen = 0 then some none
  else do
    match ← symbols elf with
    | none => some none
    | some t =>
        let found ← search (visitFunction elf t sec outlen) (List.range t.symCount)
        some found.join

/-- The identification of an object of 64-bit words. -/
def Magic (elf : Buffer) : Prop := elf.take 4 = [127, 69, 76, 70] ∧ elf[4]? = some 2

instance (elf : Buffer) : Decidable (Magic elf) := inferInstanceAs (Decidable (_ ∧ _))

/-- One symbol in the loop of {lit}`ls_symbol_is_in_section`. -/
def visitSymbol (elf : Buffer) (t : Symbols) (sec function : CString) (i : Nat) :
    Option (Option Bool) := do
  let nameo ← rd 4 elf (t.sym i)
  if nameo ≥ t.nameSize then some none
  else
    let equal ← strcmp (elf.drop (t.nameOff + nameo)) function.pointer
    if !equal then some none
    else
      let info ← rd 1 elf (t.sym i + 4)
      if info % 16 ≠ sttFunc then some none
      else
        let shndx ← rd 2 elf (t.sym i + 6)
        if shndx ≥ t.shnum then some (some false)
        else
          let owner ← rd 4 elf (t.header shndx)
          if owner ≥ t.strSize then some (some false)
          else
            let same ← strcmp (elf.drop (t.strOff + owner)) sec.pointer
            some (some same)

/-- {lit}`ls_symbol_is_in_section`. -/
def lsSymbolIsInSection (elf : Buffer) (sec function : CString) : Option Bool :=
  if elf.length < 64 ∨ ¬Magic elf then some false
  else do
    match ← symbols elf with
    | none => some false
    | some t =>
        let found ← search (visitSymbol elf t sec function) (List.range t.symCount)
        some (found.getD false)

/-! ## What the checks establish -/

/-- The tables lie in the object. -/
structure Symbols.Inside (t : Symbols) (elf : Buffer) : Prop where
  length : 64 ≤ elf.length
  headers : t.shoff + t.shnum * 64 ≤ elf.length
  strings : t.strOff + t.strSize ≤ elf.length
  syms : t.symOff + t.symCount * 24 ≤ elf.length
  names : t.nameOff + t.nameSize ≤ elf.length

section Tables

variable {elf : Buffer} {t : Symbols} {i : Nat}

theorem findSymtab_cases {shoff shnum : Nat} (h : shoff + shnum * 64 ≤ elf.length) :
    ∃ found, findSymtab elf shoff shnum = some found ∧ ∀ i, found = some i → i < shnum := by
  have hvisit : ∀ i, i < shnum → rd 4 elf (shoff + i * 64 + 4) =
      some (leAt 4 elf (shoff + i * 64 + 4)) := fun i hi => rd_of_le (by omega)
  unfold findSymtab
  cases hfound : search (fun i => do
      let type ← rd 4 elf (shoff + i * 64 + 4)
      some (if type = shtSymtab then some i else none)) (List.range shnum) with
  | none =>
      obtain ⟨i, hi, -, hnone⟩ := (search_range_eq_iff (Option.some_ne_none none).symm).mp hfound
      rw [hvisit i hi] at hnone
      contradiction
  | some found =>
      refine ⟨found, rfl, ?_⟩
      intro k hk
      rw [hk] at hfound
      obtain ⟨i, hi, -, hstop⟩ := (search_range_eq_iff (by simp)).mp hfound
      rw [hvisit i hi] at hstop
      simp only [Option.bind_eq_bind, Option.bind_some, Option.some.injEq] at hstop
      split at hstop
      · rwa [← Option.some.inj hstop]
      · contradiction

theorem sectionTable_cases (elf : Buffer) :
    sectionTable elf = some none ∨ ∃ t, sectionTable elf = some (some t) ∧ t.Inside elf := by
  unfold sectionTable
  by_cases hlen : elf.length < 64
  · rw [if_pos hlen]
    exact Or.inl rfl
  · rw [if_neg hlen, rd_of_le (by omega), rd_of_le (by omega), rd_of_le (by omega),
      rd_of_le (by omega)]
    simp only [Option.bind_eq_bind, Option.bind_some]
    split
    · exact Or.inl rfl
    · split
      · exact Or.inl rfl
      · rename_i htable
        split
        · exact Or.inl rfl
        · rw [rd_of_le (by omega), rd_of_le (by omega)]
          simp only [Option.bind_some]
          split
          · exact Or.inl rfl
          · rename_i hstrings
            refine Or.inr ⟨_, rfl, ⟨by omega, ?_, ?_, ?_, ?_⟩⟩
            all_goals
              dsimp only
              omega

theorem Symbols.Inside.header (h : t.Inside elf) (hi : i < t.shnum) {n off : Nat} (hoff : off + n ≤ 64) :
    rd n elf (t.header i + off) = some (leAt n elf (t.header i + off)) := by
  have hheaders := h.headers
  unfold Symbols.header
  exact rd_of_le (by omega)

theorem symbolTable_cases (h : t.Inside elf) (hi : i < t.shnum) :
    symbolTable elf t i = some none ∨ ∃ t', symbolTable elf t i = some (some t') ∧ t'.Inside elf := by
  have hlength := h.length
  unfold symbolTable
  rw [h.header hi (by decide : 0x38 + 8 ≤ 64), h.header hi (by decide : 0x18 + 8 ≤ 64),
    h.header hi (by decide : 0x20 + 8 ≤ 64), h.header hi (by decide : 0x28 + 4 ≤ 64)]
  simp only [Option.bind_eq_bind, Option.bind_some]
  split
  · exact Or.inl rfl
  · split
    · exact Or.inl rfl
    · rename_i hsyms
      split
      · exact Or.inl rfl
      · rename_i hlink
        rw [h.header (Nat.lt_of_not_le hlink) (by decide : 0x18 + 8 ≤ 64),
          h.header (Nat.lt_of_not_le hlink) (by decide : 0x20 + 8 ≤ 64)]
        simp only [Option.bind_some]
        split
        · exact Or.inl rfl
        · refine Or.inr ⟨_, rfl, ⟨hlength, h.headers, h.strings, ?_, ?_⟩⟩
          all_goals
            dsimp only
            omega

/-- The checks stay inside the object, and tables that pass them lie in it. -/
theorem symbols_cases (elf : Buffer) :
    symbols elf = some none ∨ ∃ t, symbols elf = some (some t) ∧ t.Inside elf := by
  unfold symbols
  rcases sectionTable_cases elf with hnone | ⟨t, ht, hin⟩
  · rw [hnone]
    exact Or.inl rfl
  · obtain ⟨found, hfound, hbelow⟩ := findSymtab_cases hin.headers
    rw [ht]
    simp only [Option.bind_eq_bind, Option.bind_some]
    rw [hfound, Option.bind_some]
    cases found with
    | none => exact Or.inl rfl
    | some i => exact symbolTable_cases hin (hbelow i rfl)

end Tables

/-! ## Symbols -/

/-- The number of the section that a symbol is defined in. -/
def Symbols.shndx (t : Symbols) (elf : Buffer) (i : Nat) : Nat := leAt 2 elf (t.sym i + 6)

/-- A symbol is a function. -/
def Symbols.IsFunction (t : Symbols) (elf : Buffer) (i : Nat) : Prop :=
  leAt 1 elf (t.sym i + 4) % 16 = sttFunc

/-- The section of a symbol has a name in the table. -/
def Symbols.Owned (t : Symbols) (elf : Buffer) (i : Nat) : Prop :=
  t.shndx elf i < t.shnum ∧ leAt 4 elf (t.header (t.shndx elf i)) < t.strSize

/-- What the name of the section of a symbol points at. -/
def Symbols.owner (t : Symbols) (elf : Buffer) (i : Nat) : List UInt8 :=
  elf.drop (t.strOff + leAt 4 elf (t.header (t.shndx elf i)))

/-- A symbol has a name in the table. -/
def Symbols.Named (t : Symbols) (elf : Buffer) (i : Nat) : Prop := leAt 4 elf (t.sym i) < t.nameSize

/-- What the name of a symbol points at. -/
def Symbols.name (t : Symbols) (elf : Buffer) (i : Nat) : List UInt8 :=
  elf.drop (t.nameOff + leAt 4 elf (t.sym i))

/-- A symbol is a function that is defined in a section of a name. -/
def Symbols.DefinedIn (t : Symbols) (elf : Buffer) (sec : CString) (i : Nat) : Prop :=
  t.IsFunction elf i ∧ t.Owned elf i ∧ cstr (t.owner elf i) = some sec.bytes

/-- A symbol is a function of a name. -/
def Symbols.Called (t : Symbols) (elf : Buffer) (function : CString) (i : Nat) : Prop :=
  t.IsFunction elf i ∧ t.Named elf i ∧ cstr (t.name elf i) = some function.bytes

instance (t : Symbols) (elf : Buffer) (i : Nat) : Decidable (t.IsFunction elf i) :=
  inferInstanceAs (Decidable (_ = _))

instance (t : Symbols) (elf : Buffer) (i : Nat) : Decidable (t.Owned elf i) :=
  inferInstanceAs (Decidable (_ ∧ _))

instance (t : Symbols) (elf : Buffer) (i : Nat) : Decidable (t.Named elf i) :=
  inferInstanceAs (Decidable (_ < _))

instance (t : Symbols) (elf : Buffer) (sec : CString) (i : Nat) :
    Decidable (t.DefinedIn elf sec i) := inferInstanceAs (Decidable (_ ∧ _))

/-- A search for the function of a section is cut off at a symbol: the object ends inside the name
of its section, as far as that is the name of the section; or inside its own name. -/
def Symbols.FunctionCutOff (t : Symbols) (elf : Buffer) (sec : CString) (i : Nat) : Prop :=
  t.IsFunction elf i ∧ t.Named elf i ∧ t.Owned elf i ∧
    (t.owner elf i <+: sec.bytes ∨
      cstr (t.owner elf i) = some sec.bytes ∧ cstr (t.name elf i) = none)

/-- The question about a function is cut off at a symbol. -/
def Symbols.SymbolCutOff (t : Symbols) (elf : Buffer) (sec function : CString) (i : Nat) : Prop :=
  t.Named elf i ∧ t.name elf i <+: function.bytes ∨
    t.Called elf function i ∧ t.Owned elf i ∧ t.owner elf i <+: sec.bytes

section Visits

variable {elf : Buffer} {t : Symbols} {i : Nat}

theorem Symbols.Inside.sym (h : t.Inside elf) (hi : i < t.symCount) {n off : Nat}
    (hoff : off + n ≤ 24) : rd n elf (t.sym i + off) = some (leAt n elf (t.sym i + off)) := by
  have hsyms := h.syms
  unfold Symbols.sym
  exact rd_of_le (by omega)

/-- A comparison with a string that is handed over. -/
theorem strcmp_pointer_cases (p : List UInt8) (s : CString) :
    (p <+: s.bytes ∧ strcmp p s.pointer = none) ∨
      (¬p <+: s.bytes ∧ strcmp p s.pointer = some (decide (cstr p = some s.bytes))) := by
  cases hcmp : strcmp p s.pointer with
  | none => exact Or.inl ⟨(strcmp_literal_eq_none_iff s.ends).mp hcmp, rfl⟩
  | some equal =>
      refine Or.inr ⟨?_, ?_⟩
      · intro hpre
        have hnone := (strcmp_literal_eq_none_iff s.ends).mpr hpre
        rw [show s.bytes ++ [0] = s.pointer from rfl, hcmp] at hnone
        contradiction
      · have hiff := strcmp_literal_eq_true_iff (s := p) s.ends
        rw [show s.bytes ++ [0] = s.pointer from rfl, hcmp] at hiff
        cases equal with
        | true => rw [decide_eq_true (hiff.mp rfl)]
        | false => rw [decide_eq_false fun h => nomatch Option.some.inj (hiff.mpr h)]

theorem visitFunction_eq (h : t.Inside elf) (hi : i < t.symCount) (sec : CString)
    (outlen : Nat) :
    visitFunction elf t sec outlen i =
      if t.IsFunction elf i ∧ t.Named elf i ∧ t.Owned elf i then
        (strcmp (t.owner elf i) sec.pointer).bind fun equal =>
          if equal then
            (cstr (t.name elf i)).bind fun name =>
              some (some (if name = [] ∨ outlen ≤ name.length then none else some name))
          else some none
      else some none := by
  have hname := h.sym hi (by decide : 0 + 4 ≤ 24)
  rw [Nat.add_zero] at hname
  unfold visitFunction
  rw [h.sym hi (by decide : 4 + 1 ≤ 24), h.sym hi (by decide : 6 + 2 ≤ 24), hname]
  simp only [Option.bind_eq_bind, Option.bind_some]
  by_cases hfunction : leAt 1 elf (t.sym i + 4) % 16 = sttFunc
  · rw [if_neg (not_not.mpr hfunction)]
    by_cases hvalid : leAt 2 elf (t.sym i + 6) ≥ t.shnum ∨ leAt 4 elf (t.sym i) ≥ t.nameSize
    · rw [if_pos hvalid, if_neg]
      rintro ⟨-, hnamed, howned, -⟩
      exact hvalid.elim (Nat.not_le.mpr howned) (Nat.not_le.mpr hnamed)
    · rw [if_neg hvalid]
      rw [not_or, Nat.not_le, Nat.not_le] at hvalid
      have howner := h.header hvalid.1 (by decide : 0 + 4 ≤ 64)
      rw [Nat.add_zero] at howner
      rw [howner, Option.bind_some]
      by_cases howned : leAt 4 elf (t.header (leAt 2 elf (t.sym i + 6))) ≥ t.strSize
      · rw [if_pos howned, if_neg]
        rintro ⟨-, -, -, hsmall⟩
        exact Nat.not_le.mpr hsmall howned
      · rw [if_neg howned, if_pos ⟨hfunction, hvalid.2, hvalid.1, Nat.lt_of_not_le howned⟩]
        change (strcmp (t.owner elf i) sec.pointer).bind _ = _
        cases strcmp (t.owner elf i) sec.pointer with
        | none => rfl
        | some equal => cases equal <;> rfl
  · rw [if_pos hfunction, if_neg fun hall => hfunction hall.1]

/-- All that a symbol can do to the search for a function. -/
theorem visitFunction_cases (h : t.Inside elf) (hi : i < t.symCount) (sec : CString)
    (outlen : Nat) :
    (t.FunctionCutOff elf sec i ∧ visitFunction elf t sec outlen i = none) ∨
      (¬t.FunctionCutOff elf sec i ∧ ¬(t.DefinedIn elf sec i ∧ t.Named elf i) ∧
        visitFunction elf t sec outlen i = some none) ∨
      ∃ name, ¬t.FunctionCutOff elf sec i ∧ t.DefinedIn elf sec i ∧ t.Named elf i ∧
        cstr (t.name elf i) = some name ∧ visitFunction elf t sec outlen i =
          some (some (if name = [] ∨ outlen ≤ name.length then none else some name)) := by
  rw [visitFunction_eq h hi]
  by_cases hvalid : t.IsFunction elf i ∧ t.Named elf i ∧ t.Owned elf i
  · rw [if_pos hvalid]
    obtain ⟨hfunction, hnamed, howned⟩ := hvalid
    rcases strcmp_pointer_cases (t.owner elf i) sec with ⟨hpre, hcmp⟩ | ⟨hpre, hcmp⟩
    · rw [hcmp]
      exact Or.inl ⟨⟨hfunction, hnamed, howned, Or.inl hpre⟩, rfl⟩
    · rw [hcmp, Option.bind_some]
      by_cases hsame : cstr (t.owner elf i) = some sec.bytes
      · rw [decide_eq_true hsame, if_pos rfl]
        cases hstring : cstr (t.name elf i) with
        | none => exact Or.inl ⟨⟨hfunction, hnamed, howned, Or.inr ⟨hsame, hstring⟩⟩, rfl⟩
        | some name =>
            refine Or.inr (Or.inr ⟨name, ?_, ⟨hfunction, howned, hsame⟩, hnamed, rfl, rfl⟩)
            rintro ⟨-, -, -, hcut | ⟨-, hcut⟩⟩
            · exact hpre hcut
            · rw [hstring] at hcut
              contradiction
      · rw [decide_eq_false hsame, if_neg Bool.false_ne_true]
        refine Or.inr (Or.inl ⟨?_, fun hdefined => hsame hdefined.1.2.2, rfl⟩)
        rintro ⟨-, -, -, hcut | ⟨hcut, -⟩⟩
        · exact hpre hcut
        · exact hsame hcut
  · rw [if_neg hvalid]
    refine Or.inr (Or.inl ⟨?_, ?_, rfl⟩)
    · rintro ⟨hfunction, hnamed, howned, -⟩
      exact hvalid ⟨hfunction, hnamed, howned⟩
    · rintro ⟨⟨hfunction, howned, -⟩, hnamed⟩
      exact hvalid ⟨hfunction, hnamed, howned⟩

theorem visitSymbol_eq (h : t.Inside elf) (hi : i < t.symCount) (sec function : CString) :
    visitSymbol elf t sec function i =
      if t.Named elf i then
        (strcmp (t.name elf i) function.pointer).bind fun equal =>
          if equal ∧ t.IsFunction elf i then
            if t.Owned elf i then
              (strcmp (t.owner elf i) sec.pointer).bind fun same => some (some same)
            else some (some false)
          else some none
      else some none := by
  have hname := h.sym hi (by decide : 0 + 4 ≤ 24)
  rw [Nat.add_zero] at hname
  unfold visitSymbol
  rw [hname, h.sym hi (by decide : 4 + 1 ≤ 24), h.sym hi (by decide : 6 + 2 ≤ 24)]
  simp only [Option.bind_eq_bind, Option.bind_some]
  by_cases hnamed : leAt 4 elf (t.sym i) ≥ t.nameSize
  · rw [if_pos hnamed, if_neg (show ¬t.Named elf i from Nat.not_lt.mpr hnamed)]
  · rw [if_neg hnamed, if_pos (show t.Named elf i from Nat.lt_of_not_le hnamed)]
    change (strcmp (t.name elf i) function.pointer).bind _ = _
    cases strcmp (t.name elf i) function.pointer with
    | none => rfl
    | some equal =>
        cases equal with
        | false => rfl
        | true =>
            simp only [Option.bind_some, Bool.not_true, Bool.false_eq_true, if_false, true_and]
            by_cases hfunction : leAt 1 elf (t.sym i + 4) % 16 = sttFunc
            · rw [if_neg (not_not.mpr hfunction), if_pos (show t.IsFunction elf i from hfunction)]
              by_cases hshndx : leAt 2 elf (t.sym i + 6) ≥ t.shnum
              · rw [if_pos hshndx, if_neg fun howned => Nat.not_le.mpr howned.1 hshndx]
              · have howner := h.header (Nat.lt_of_not_le hshndx) (by decide : 0 + 4 ≤ 64)
                rw [Nat.add_zero] at howner
                rw [if_neg hshndx, howner, Option.bind_some]
                by_cases howned : leAt 4 elf (t.header (leAt 2 elf (t.sym i + 6))) ≥ t.strSize
                · rw [if_pos howned, if_neg fun hall => Nat.not_le.mpr hall.2 howned]
                · rw [if_neg howned, if_pos ⟨Nat.lt_of_not_le hshndx, Nat.lt_of_not_le howned⟩]
                  rfl
            · rw [if_pos hfunction, if_neg (show ¬t.IsFunction elf i from hfunction)]

/-- All that a symbol can do to the question about a function. -/
theorem visitSymbol_cases (h : t.Inside elf) (hi : i < t.symCount) (sec function : CString) :
    (t.SymbolCutOff elf sec function i ∧ visitSymbol elf t sec function i = none) ∨
      (¬t.SymbolCutOff elf sec function i ∧ ¬t.Called elf function i ∧
        visitSymbol elf t sec function i = some none) ∨
      (¬t.SymbolCutOff elf sec function i ∧ t.Called elf function i ∧
        visitSymbol elf t sec function i = some (some (decide (t.DefinedIn elf sec i)))) := by
  rw [visitSymbol_eq h hi]
  by_cases hnamed : t.Named elf i
  · rw [if_pos hnamed]
    rcases strcmp_pointer_cases (t.name elf i) function with ⟨hpre, hcmp⟩ | ⟨hpre, hcmp⟩
    · rw [hcmp]
      exact Or.inl ⟨Or.inl ⟨hnamed, hpre⟩, rfl⟩
    · rw [hcmp, Option.bind_some]
      by_cases hcalled : t.Called elf function i
      · obtain ⟨hfunction, -, hsame⟩ := hcalled
        rw [decide_eq_true hsame, if_pos ⟨rfl, hfunction⟩]
        by_cases howned : t.Owned elf i
        · rw [if_pos howned]
          rcases strcmp_pointer_cases (t.owner elf i) sec with ⟨hcut, howner⟩ | ⟨hcut, howner⟩
          · rw [howner]
            exact Or.inl ⟨Or.inr ⟨⟨hfunction, hnamed, hsame⟩, howned, hcut⟩, rfl⟩
          · rw [howner, Option.bind_some]
            refine Or.inr (Or.inr ⟨?_, ⟨hfunction, hnamed, hsame⟩, ?_⟩)
            · rintro (⟨-, hoff⟩ | ⟨-, -, hoff⟩)
              · exact hpre hoff
              · exact hcut hoff
            · congr 2
              rw [decide_eq_decide]
              exact ⟨fun hsec => ⟨hfunction, howned, hsec⟩, fun hsec => hsec.2.2⟩
        · rw [if_neg howned]
          refine Or.inr (Or.inr ⟨?_, ⟨hfunction, hnamed, hsame⟩, ?_⟩)
          · rintro (⟨-, hoff⟩ | ⟨-, hoff, -⟩)
            · exact hpre hoff
            · exact howned hoff
          · rw [decide_eq_false fun hdefined => howned hdefined.2.1]
      · rw [if_neg]
        · refine Or.inr (Or.inl ⟨?_, hcalled, rfl⟩)
          rintro (⟨-, hoff⟩ | ⟨hoff, -, -⟩)
          · exact hpre hoff
          · exact hcalled hoff
        · rintro ⟨hsame, hfunction⟩
          exact hcalled ⟨hfunction, hnamed, of_decide_eq_true hsame⟩
  · rw [if_neg hnamed]
    refine Or.inr (Or.inl ⟨?_, fun hcalled => hnamed hcalled.2.1, rfl⟩)
    rintro (⟨hoff, -⟩ | ⟨hoff, -, -⟩)
    · exact hnamed hoff
    · exact hnamed hoff.2.1

end Visits

/-! ## The functions agree -/

/-- What is copied of a name. -/
def copied (outlen : Nat) (name : List UInt8) : Option (List UInt8) :=
  if name = [] ∨ outlen ≤ name.length then none else some name

/-- The symbol is the first of those that the search for a function takes, and its name fits. -/
def Symbols.Takes (t : Symbols) (elf : Buffer) (sec : CString) (outlen i : Nat) (name : CString) :
    Prop :=
  (t.DefinedIn elf sec i ∧ t.Named elf i) ∧ (∀ j, j < i → ¬(t.DefinedIn elf sec j ∧ t.Named elf j)) ∧
    cstr (t.name elf i) = some name.bytes ∧ name.bytes ≠ [] ∧ name.bytes.length < outlen

section Agree

variable {elf : Buffer} {t : Symbols} {sec : CString} {outlen : Nat}

theorem visits_function (h : t.Inside elf) (sec : CString) (outlen : Nat) :
    Visits (visitFunction elf t sec outlen) t.symCount (t.FunctionCutOff elf sec)
      (fun i => t.DefinedIn elf sec i ∧ t.Named elf i)
      fun i => (cstr (t.name elf i)).bind (copied outlen) := by
  intro i hi
  rcases visitFunction_cases h hi sec outlen with hcut | hpass | ⟨name, hcut, hdefined, hnamed,
    hname, hvisit⟩
  · exact Or.inl hcut
  · exact Or.inr (Or.inl hpass)
  · refine Or.inr (Or.inr ⟨hcut, ⟨hdefined, hnamed⟩, ?_⟩)
    dsimp only
    rw [hvisit, hname]
    rfl

theorem visits_symbol (h : t.Inside elf) (sec function : CString) :
    Visits (visitSymbol elf t sec function) t.symCount (t.SymbolCutOff elf sec function)
      (t.Called elf function) fun i => decide (t.DefinedIn elf sec i) :=
  fun _ hi => visitSymbol_cases h hi sec function

theorem lsFunctionInSection_of_none (h : symbols elf = some none) :
    lsFunctionInSection elf sec outlen = some none := by
  unfold lsFunctionInSection
  rw [h]
  exact ite_self _

theorem lsSymbolIsInSection_of_none {function : CString} (h : symbols elf = some none) :
    lsSymbolIsInSection elf sec function = some false := by
  unfold lsSymbolIsInSection
  rw [h]
  exact ite_self _

theorem lsFunctionInSection_eq_none_iff (ht : symbols elf = some (some t)) (hin : t.Inside elf)
    (hout : 0 < outlen) :
    lsFunctionInSection elf sec outlen = none ↔
      ∃ i, i < t.symCount ∧ t.FunctionCutOff elf sec i ∧
        ∀ j, j < i → ¬(t.DefinedIn elf sec j ∧ t.Named elf j) := by
  rw [← (visits_function hin sec outlen).fails_iff]
  unfold lsFunctionInSection
  rw [if_neg (Nat.ne_of_gt hout), ht]
  simp only [Option.bind_eq_bind, Option.bind_some]
  cases search (visitFunction elf t sec outlen) (List.range t.symCount) with
  | none => exact iff_of_true rfl rfl
  | some found => exact iff_of_false (Option.some_ne_none _) (Option.some_ne_none _)

/-- The function that is found. -/
theorem lsFunctionInSection_eq_some_iff (ht : symbols elf = some (some t)) (hin : t.Inside elf)
    {name : CString} :
    lsFunctionInSection elf sec outlen = some (some name.bytes) ↔
      ∃ i, i < t.symCount ∧ t.Takes elf sec outlen i name ∧
        ∀ j, j ≤ i → ¬t.FunctionCutOff elf sec j := by
  unfold lsFunctionInSection
  by_cases hout : outlen = 0
  · rw [if_pos hout]
    refine iff_of_false (fun h => nomatch Option.some.inj h) ?_
    rintro ⟨i, -, ⟨-, -, -, -, hfits⟩, -⟩
    omega
  · rw [if_neg hout, ht]
    simp only [Option.bind_eq_bind, Option.bind_some]
    have hjoin : (search (visitFunction elf t sec outlen) (List.range t.symCount)).bind
          (fun found => some found.join) = some (some name.bytes) ↔
        search (visitFunction elf t sec outlen) (List.range t.symCount) =
          some (some (some name.bytes)) := by
      cases search (visitFunction elf t sec outlen) (List.range t.symCount) with
      | none => simp
      | some found => cases found <;> simp
    rw [hjoin, (visits_function hin sec outlen).stops_iff]
    constructor
    · rintro ⟨i, hi, hstop, hcut, hfirst, hresult⟩
      obtain ⟨found, hfound, hcopied⟩ := Option.bind_eq_some_iff.mp hresult
      unfold copied at hcopied
      split at hcopied
      · contradiction
      · rename_i hfits
        rw [not_or, Nat.not_le] at hfits
        obtain rfl := Option.some.inj hcopied
        exact ⟨i, hi, ⟨hstop, hfirst, hfound, hfits.1, hfits.2⟩, hcut⟩
    · rintro ⟨i, hi, ⟨hstop, hfirst, hname, hne, hfits⟩, hcut⟩
      refine ⟨i, hi, hstop, hcut, hfirst, ?_⟩
      rw [hname, Option.bind_some, copied, if_neg (not_or.mpr ⟨hne, Nat.not_le.mpr hfits⟩)]

theorem lsSymbolIsInSection_eq {function : CString} (ht : symbols elf = some (some t))
    (hin : t.Inside elf) (hmagic : Magic elf) :
    lsSymbolIsInSection elf sec function =
      (search (visitSymbol elf t sec function) (List.range t.symCount)).map (·.getD false) := by
  have hlength := hin.length
  unfold lsSymbolIsInSection
  rw [if_neg (not_or.mpr ⟨by omega, not_not.mpr hmagic⟩), ht]
  simp only [Option.bind_eq_bind, Option.bind_some, Option.map_eq_bind]
  rfl

theorem lsSymbolIsInSection_eq_none_iff {function : CString} (ht : symbols elf = some (some t))
    (hin : t.Inside elf) (hmagic : Magic elf) :
    lsSymbolIsInSection elf sec function = none ↔
      ∃ i, i < t.symCount ∧ t.SymbolCutOff elf sec function i ∧
        ∀ j, j < i → ¬t.Called elf function j := by
  rw [lsSymbolIsInSection_eq ht hin hmagic, Option.map_eq_none_iff,
    (visits_symbol hin sec function).fails_iff]

theorem lsSymbolIsInSection_eq_true_iff {function : CString} (ht : symbols elf = some (some t))
    (hin : t.Inside elf) (hmagic : Magic elf) :
    lsSymbolIsInSection elf sec function = some true ↔
      ∃ i, i < t.symCount ∧ t.Called elf function i ∧
        (∀ j, j ≤ i → ¬t.SymbolCutOff elf sec function j) ∧
        (∀ j, j < i → ¬t.Called elf function j) ∧ t.DefinedIn elf sec i := by
  have hgetD : (search (visitSymbol elf t sec function) (List.range t.symCount)).map
        (·.getD false) = some true ↔
      search (visitSymbol elf t sec function) (List.range t.symCount) = some (some true) := by
    cases search (visitSymbol elf t sec function) (List.range t.symCount) with
    | none => simp
    | some found => cases found <;> simp
  rw [lsSymbolIsInSection_eq ht hin hmagic, hgetD, (visits_symbol hin sec function).stops_iff]
  simp only [decide_eq_true_eq]

/-- Both functions stay inside the object, and the function that the first one finds is the only
one of its section, under its whole name; the second one confirms it, unless an earlier function of
the same name lies elsewhere. -/
structure Verified (elf : Buffer) (sec : CString) (outlen : Nat) : Prop where
  functionInside : lsFunctionInSection elf sec outlen ≠ none
  symbolInside : ∀ function, lsSymbolIsInSection elf sec function ≠ none
  agree : ∀ name : CString, lsFunctionInSection elf sec outlen = some (some name.bytes) →
    ∃ t i, symbols elf = some (some t) ∧ i < t.symCount ∧ t.DefinedIn elf sec i ∧
      (∀ k, k < t.symCount → t.DefinedIn elf sec k → k = i) ∧
      cstr (t.name elf i) = some name.bytes ∧
      (lsSymbolIsInSection elf sec name = some true ∨
        ∃ j, j < i ∧ t.Called elf name j ∧ ¬t.DefinedIn elf sec j)

/-- No name is cut off before a search has stopped; and where a symbol is taken, it is the only
function of its section, and the object has the identification that only the second function asks
for. -/
structure Unambiguous (elf : Buffer) (sec : CString) (outlen : Nat) (t : Symbols) : Prop where
  functionEnds : 0 < outlen → ∀ i, i < t.symCount → t.FunctionCutOff elf sec i →
    ∃ j, j < i ∧ t.DefinedIn elf sec j ∧ t.Named elf j
  symbolEnds : Magic elf → ∀ function i, i < t.symCount → t.SymbolCutOff elf sec function i →
    ∃ j, j < i ∧ t.Called elf function j
  single : ∀ i name, i < t.symCount → t.Takes elf sec outlen i name →
    (∀ k, k < t.symCount → t.DefinedIn elf sec k → k = i) ∧
      (Magic elf ∨ ∃ j, j < i ∧ t.Called elf name j ∧ ¬t.DefinedIn elf sec j)

theorem verified_of_unambiguous (ht : symbols elf = some (some t)) (hin : t.Inside elf)
    (h : Unambiguous elf sec outlen t) : Verified elf sec outlen := by
  have hsymbol : ∀ function, lsSymbolIsInSection elf sec function ≠ none := by
    intro function
    by_cases hmagic : Magic elf
    · rw [Ne, lsSymbolIsInSection_eq_none_iff ht hin hmagic]
      rintro ⟨i, hi, hcut, hbefore⟩
      obtain ⟨j, hj, hcalled⟩ := h.symbolEnds hmagic function i hi hcut
      exact hbefore j hj hcalled
    · unfold lsSymbolIsInSection
      rw [if_pos (Or.inr hmagic)]
      exact Option.some_ne_none _
  refine ⟨?_, hsymbol, ?_⟩
  · by_cases hout : outlen = 0
    · unfold lsFunctionInSection
      rw [if_pos hout]
      exact Option.some_ne_none _
    · have hpos := Nat.pos_of_ne_zero hout
      rw [Ne, lsFunctionInSection_eq_none_iff ht hin hpos]
      rintro ⟨i, hi, hcut, hbefore⟩
      obtain ⟨j, hj, hdefined⟩ := h.functionEnds hpos i hi hcut
      exact hbefore j hj hdefined
  · intro name hname
    obtain ⟨i, hi, htakes, -⟩ := (lsFunctionInSection_eq_some_iff ht hin).mp hname
    obtain ⟨honly, hmagic⟩ := h.single i name hi htakes
    refine ⟨t, i, ht, hi, htakes.1.1, honly, htakes.2.2.1, ?_⟩
    rcases hmagic with hmagic | hearlier
    · have hcalled : t.Called elf name i := ⟨htakes.1.1.1, htakes.1.2, htakes.2.2.1⟩
      by_cases hearlier : ∃ j, j < i ∧ t.Called elf name j
      · obtain ⟨j, hj, hj'⟩ := hearlier
        refine Or.inr ⟨j, hj, hj', fun hdefined => ?_⟩
        exact absurd (honly j (Nat.lt_trans hj hi) hdefined) (Nat.ne_of_lt hj)
      · have hbefore : ∀ j, j < i → ¬t.Called elf name j := fun j hj hj' => hearlier ⟨j, hj, hj'⟩
        refine Or.inl ((lsSymbolIsInSection_eq_true_iff ht hin hmagic).mpr
          ⟨i, hi, hcalled, ?_, hbefore, htakes.1.1⟩)
        intro j hj hcut
        obtain ⟨k, hk, hk'⟩ := h.symbolEnds hmagic name j (Nat.lt_of_le_of_lt hj hi) hcut
        exact hbefore k (Nat.lt_of_lt_of_le hk hj) hk'
    · exact Or.inr hearlier

theorem unambiguous_of_verified (ht : symbols elf = some (some t)) (hin : t.Inside elf)
    (h : Verified elf sec outlen) : Unambiguous elf sec outlen t := by
  have hfunction : 0 < outlen → ∀ i, i < t.symCount → t.FunctionCutOff elf sec i →
      ∃ j, j < i ∧ t.DefinedIn elf sec j ∧ t.Named elf j := by
    intro hpos i hi hcut
    by_contra hnone
    exact h.functionInside ((lsFunctionInSection_eq_none_iff ht hin hpos).mpr
      ⟨i, hi, hcut, fun j hj hj' => hnone ⟨j, hj, hj'⟩⟩)
  refine ⟨hfunction, ?_, ?_⟩
  · intro hmagic function i hi hcut
    by_contra hnone
    exact h.symbolInside function ((lsSymbolIsInSection_eq_none_iff ht hin hmagic).mpr
      ⟨i, hi, hcut, fun j hj hj' => hnone ⟨j, hj, hj'⟩⟩)
  · intro i name hi htakes
    have hends : ∀ j, j ≤ i → ¬t.FunctionCutOff elf sec j := by
      intro j hj hcut
      have hfits := htakes.2.2.2.2
      obtain ⟨k, hk, hk'⟩ := hfunction (by omega) j (Nat.lt_of_le_of_lt hj hi) hcut
      exact htakes.2.1 k (Nat.lt_of_lt_of_le hk hj) hk'
    obtain ⟨t', i', ht', hi', hdefined, honly, -, hagree⟩ := h.agree name
      ((lsFunctionInSection_eq_some_iff ht hin).mpr ⟨i, hi, htakes, hends⟩)
    rw [ht] at ht'
    obtain rfl := Option.some.inj (Option.some.inj ht')
    obtain rfl : i = i' := honly i hi htakes.1.1
    refine ⟨honly, ?_⟩
    rcases hagree with htrue | hearlier
    · by_cases hmagic : Magic elf
      · exact Or.inl hmagic
      · unfold lsSymbolIsInSection at htrue
        rw [if_pos (Or.inr hmagic)] at htrue
        exact nomatch Option.some.inj htrue
    · exact Or.inr hearlier

/-- For every object, section and size of the buffer for the name: the functions stay inside and
agree exactly where the symbols of the object are unambiguous. -/
theorem function_is_verified_iff (elf : Buffer) (sec : CString) (outlen : Nat) :
    Verified elf sec outlen ↔ ∀ t, symbols elf = some (some t) → Unambiguous elf sec outlen t := by
  rcases symbols_cases elf with hnone | ⟨t, ht, hin⟩
  · refine iff_of_true ⟨?_, ?_, ?_⟩ ?_
    · rw [lsFunctionInSection_of_none hnone]
      exact Option.some_ne_none _
    · intro function
      rw [lsSymbolIsInSection_of_none hnone]
      exact Option.some_ne_none _
    · intro name hname
      rw [lsFunctionInSection_of_none hnone] at hname
      exact nomatch Option.some.inj hname
    · intro t ht
      rw [hnone] at ht
      exact nomatch Option.some.inj ht
  · constructor
    · intro h t' ht'
      rw [ht] at ht'
      obtain rfl := Option.some.inj (Option.some.inj ht')
      exact unambiguous_of_verified ht hin h
    · intro h
      exact verified_of_unambiguous ht hin (h t ht)

end Agree

/-! ## Two functions in a section -/

/-- The header of a section, with its type, link and entry size. -/
def symbolSection (nameo type off sz link entsize : Nat) : Buffer :=
  littleEndian 4 nameo ++ littleEndian 4 type ++ List.replicate 16 0 ++ littleEndian 8 off ++
    littleEndian 8 sz ++ littleEndian 4 link ++ List.replicate 12 0 ++ littleEndian 8 entsize

/-- A function at the start of the section 0. -/
def functionSymbol (nameo : Nat) : Buffer :=
  littleEndian 4 nameo ++ [2, 0] ++ List.replicate 18 0

/-- One section, named {lit}`c`, is also the table of the names; two functions {lit}`f` and
{lit}`g` are defined in it. -/
def twoFunctions : Buffer :=
  [127, 69, 76, 70, 2] ++ List.replicate 35 0 ++ littleEndian 8 64 ++ List.replicate 10 0 ++
    littleEndian 2 64 ++ littleEndian 2 2 ++ littleEndian 2 0 ++
    symbolSection 0 3 192 6 0 0 ++ symbolSection 2 2 198 48 0 24 ++
    [99, 0, 102, 0, 103, 0] ++ functionSymbol 2 ++ functionSymbol 4

def codeSection : CString where
  bytes := [99]
  ends := by decide

/-- The first function is found, and it is not the only one of its section. -/
theorem twoFunctions_not_verified :
    lsFunctionInSection twoFunctions codeSection 64 = some (some [102]) ∧
      ¬Verified twoFunctions codeSection 64 := by
  have hfound : lsFunctionInSection twoFunctions codeSection 64 = some (some [102]) := by
    decide +kernel
  refine ⟨hfound, ?_⟩
  intro h
  obtain ⟨t, i, ht, -, -, honly, -⟩ := h.agree { bytes := [102], ends := by decide } hfound
  have hsymbols : symbols twoFunctions = some (some
      { shoff := 64, shnum := 2, strOff := 192, strSize := 6, symOff := 198, symCount := 2,
        nameOff := 192, nameSize := 6 }) := by decide +kernel
  rw [hsymbols] at ht
  obtain rfl := Option.some.inj (Option.some.inj ht)
  have hfirst : 0 = i := honly 0 (by decide) (by decide +kernel)
  have hsecond : 1 = i := honly 1 (by decide) (by decide +kernel)
  omega

end Vm
end LiveSurface
