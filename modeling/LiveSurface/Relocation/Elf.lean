import LiveSurface.Library.Buffer

/-!
# Sections of an untrusted object

Three functions walk the section table of an object for its type information.  They make the same
checks of the header, so every section header and the section-name table lie inside the object,
and then compare names.  The name table need not end with a zero byte, and its last name is read
to wherever the next zero byte is.

An answer {lit}`none` is a read outside the object.

Main results:

- Theorem {lit}`elfTables_cases`: the checks of the header stay inside the object, and what they
  establish.
- Theorem {lit}`firstNamed_eq_none_iff`: when a search for a name leaves the object.
- Theorem {lit}`firstNamed_of_terminated`: what a search finds where every name ends.
-/

namespace LiveSurface
namespace Relocation

/-! ## The section table -/

/-- The bytes of {lit}`.BTF`. -/
def btfName : List UInt8 := [46, 66, 84, 70]

/-- The bytes of {lit}`.BTF.ext`. -/
def btfExtName : List UInt8 := [46, 66, 84, 70, 46, 101, 120, 116]

/-- The section table and the section-name table of an object. -/
structure Tables where
  shoff : Nat
  shentsize : Nat
  shnum : Nat
  strOff : Nat
  strSize : Nat
deriving DecidableEq

/-- The section header of a number. -/
def Tables.header (t : Tables) (i : Nat) : Nat := t.shoff + i * t.shentsize

/-- The checks of the header; the inner {lit}`none` is a refusal.  Lengths are 32-bit, so no sum
of them wraps. -/
def elfTables (elf : Buffer) : Option (Option Tables) :=
  if elf.length < 64 then some none
  else do
    let shoff ← rd 8 elf 0x28
    let shentsize ← rd 2 elf 0x3a
    let shnum ← rd 2 elf 0x3c
    let shstrndx ← rd 2 elf 0x3e
    if shentsize < 64 ∨ shnum = 0 ∨ shstrndx ≥ shnum then some none
    else if shoff > elf.length ∨ shnum * shentsize > elf.length - shoff then some none
    else do
      let strOff ← rd 8 elf (shoff + shstrndx * shentsize + 0x18)
      let strSize ← rd 8 elf (shoff + shstrndx * shentsize + 0x20)
      if strOff > elf.length ∨ strSize > elf.length - strOff then some none
      else some (some { shoff, shentsize, shnum, strOff, strSize })

/-- The first of the sections whose name equals that at a pointer. -/
def firstNamed (elf : Buffer) (t : Tables) (word : List UInt8) : List Nat → Option (Option Nat)
  | [] => some none
  | i :: rest => do
      let nameo ← rd 4 elf (t.header i)
      if nameo ≥ t.strSize then firstNamed elf t word rest
      else
        let equal ← strcmp (elf.drop (t.strOff + nameo)) word
        if equal then some (some i) else firstNamed elf t word rest

/-- {lit}`ls_core_btf_find_in_elf`: where the type information is. -/
def lsCoreBtfFindInElf (elf : Buffer) : Option (Option (Nat × Nat)) := do
  match ← elfTables elf with
  | none => some none
  | some t =>
      match ← firstNamed elf t (btfName ++ [0]) (List.range t.shnum) with
      | none => some none
      | some i =>
          let off ← rd 8 elf (t.header i + 0x18)
          let sz ← rd 8 elf (t.header i + 0x20)
          if off > elf.length ∨ sz > elf.length - off then some none
          else some (some (off, sz))

/-- {lit}`ls_core_elf_has_relos`. -/
def lsCoreElfHasRelos (elf : Buffer) : Option Int := do
  match ← elfTables elf with
  | none => some (-1)
  | some t =>
      match ← firstNamed elf t (btfExtName ++ [0]) (List.range t.shnum) with
      | none => some 0
      | some i =>
          let sz ← rd 8 elf (t.header i + 0x20)
          if sz > 0 then some 1 else some 0

/-! ## What the checks establish -/

/-- The tables lie inside the object. -/
structure Tables.Inside (t : Tables) (elf : Buffer) : Prop where
  length : 64 ≤ elf.length
  entsize : 64 ≤ t.shentsize
  num : 0 < t.shnum
  headers : t.shoff + t.shnum * t.shentsize ≤ elf.length
  names : t.strOff + t.strSize ≤ elf.length

section Tables

variable {elf : Buffer} {t : Tables} {i : Nat}

/-- The header of a section, all 64 bytes of it, lies in the table. -/
theorem Tables.Inside.header (h : t.Inside elf) (hi : i < t.shnum) :
    t.header i + 64 ≤ t.shoff + t.shnum * t.shentsize := by
  have hentry : (i + 1) * t.shentsize ≤ t.shnum * t.shentsize := Nat.mul_le_mul_right _ hi
  rw [Nat.succ_mul] at hentry
  have hsize := h.entsize
  unfold Tables.header
  omega

theorem Tables.Inside.rd (h : t.Inside elf) (hi : i < t.shnum) {n off : Nat} (hoff : off + n ≤ 64) :
    rd n elf (t.header i + off) = some (leAt n elf (t.header i + off)) := by
  have hheader := h.header hi
  have htable := h.headers
  exact rd_of_le (by omega)

/-- The checks answer, and tables that pass them lie inside the object.  The tables are read from
the header and from the header of the name table. -/
theorem elfTables_cases (elf : Buffer) :
    elfTables elf = some none ∨ ∃ t, elfTables elf = some (some t) ∧ t.Inside elf ∧
      t.shoff = leAt 8 elf 0x28 ∧ t.shentsize = leAt 2 elf 0x3a ∧ t.shnum = leAt 2 elf 0x3c ∧
      leAt 2 elf 0x3e < t.shnum ∧ t.strOff = leAt 8 elf (t.header (leAt 2 elf 0x3e) + 0x18) ∧
      t.strSize = leAt 8 elf (t.header (leAt 2 elf 0x3e) + 0x20) := by
  unfold elfTables
  by_cases hlen : elf.length < 64
  · rw [if_pos hlen]
    exact Or.inl rfl
  · rw [if_neg hlen, rd_of_le (by omega), rd_of_le (by omega), rd_of_le (by omega),
      rd_of_le (by omega)]
    simp only [Option.bind_eq_bind, Option.bind_some]
    split
    · exact Or.inl rfl
    · rename_i hshape
      simp only [not_or, Nat.not_lt, Nat.not_le] at hshape
      obtain ⟨hent, hnum, hndx⟩ := hshape
      split
      · exact Or.inl rfl
      · rename_i htable
        simp only [not_or, Nat.not_lt, gt_iff_lt] at htable
        have hentry : (leAt 2 elf 0x3e + 1) * leAt 2 elf 0x3a ≤
            leAt 2 elf 0x3c * leAt 2 elf 0x3a := Nat.mul_le_mul_right _ hndx
        rw [Nat.succ_mul] at hentry
        rw [rd_of_le (by omega), rd_of_le (by omega)]
        simp only [Option.bind_some]
        split
        · exact Or.inl rfl
        · rename_i hnames
          simp only [not_or, Nat.not_lt, gt_iff_lt] at hnames
          refine Or.inr ⟨_, rfl, ⟨by omega, hent, Nat.pos_of_ne_zero hnum, ?_, ?_⟩, rfl, rfl, rfl,
            hndx, rfl, rfl⟩
          · change leAt 8 elf 0x28 + leAt 2 elf 0x3c * leAt 2 elf 0x3a ≤ _
            omega
          · change leAt 8 elf _ + leAt 8 elf _ ≤ _
            omega

theorem elfTables_inside (h : elfTables elf = some (some t)) : t.Inside elf := by
  rcases elfTables_cases elf with hnone | ⟨t', ht', hinside, _⟩
  · rw [hnone] at h
    exact nomatch Option.some.inj h
  · rw [ht'] at h
    obtain rfl := Option.some.inj (Option.some.inj h)
    exact hinside

end Tables

/-! ## Names -/

/-- The section has a name in the table. -/
def Tables.Named (t : Tables) (elf : Buffer) (i : Nat) : Prop := leAt 4 elf (t.header i) < t.strSize

instance (t : Tables) (elf : Buffer) (i : Nat) : Decidable (t.Named elf i) :=
  inferInstanceAs (Decidable (_ < _))

/-- What the name of a section points at. -/
def Tables.pointer (t : Tables) (elf : Buffer) (i : Nat) : List UInt8 :=
  elf.drop (t.strOff + leAt 4 elf (t.header i))

/-- The name of a section, if it has one that ends. -/
def Tables.name (t : Tables) (elf : Buffer) (i : Nat) : Option (List UInt8) :=
  if t.Named elf i then cstr (t.pointer elf i) else none

section Names

variable {elf : Buffer} {t : Tables} {word : List UInt8}

theorem firstNamed_cons (h : t.Inside elf) {i : Nat} (hi : i < t.shnum) (rest : List Nat) :
    firstNamed elf t word (i :: rest) =
      if t.Named elf i then
        (strcmp (t.pointer elf i) word).bind fun equal =>
          if equal then some (some i) else firstNamed elf t word rest
      else firstNamed elf t word rest := by
  have hrd := h.rd hi (n := 4) (Nat.le_refl 4 |>.trans (by decide) : 0 + 4 ≤ 64)
  rw [Nat.add_zero] at hrd
  rw [firstNamed, hrd]
  simp only [Option.bind_eq_bind, Option.bind_some]
  by_cases hnamed : t.Named elf i
  · rw [if_pos hnamed, if_neg (Nat.not_le.mpr hnamed)]
    rfl
  · rw [if_neg hnamed, if_pos (Nat.le_of_not_lt hnamed)]

/-- A search for a literal leaves the object exactly when it meets, before it has found the
literal, a name of which only a beginning of the literal is there. -/
theorem firstNamed_eq_none_iff (h : t.Inside elf) (hword : (0 : UInt8) ∉ word) {is : List Nat}
    (his : ∀ i ∈ is, i < t.shnum) :
    firstNamed elf t (word ++ [0]) is = none ↔
      ∃ before i after, is = before ++ i :: after ∧ (∀ j ∈ before, t.name elf j ≠ some word) ∧
        t.Named elf i ∧ t.pointer elf i <+: word := by
  induction is with
  | nil =>
      constructor
      · intro hnone
        contradiction
      · rintro ⟨before, i, after, hsplit, _⟩
        simp at hsplit
  | cons i rest ih =>
      have hrest := ih fun j hj => his j (List.mem_cons_of_mem i hj)
      rw [firstNamed_cons h (his i List.mem_cons_self)]
      by_cases hcut : t.Named elf i ∧ t.pointer elf i <+: word
      · rw [if_pos hcut.1, (strcmp_literal_eq_none_iff hword).mpr hcut.2]
        exact iff_of_true rfl ⟨[], i, rest, rfl, fun j hj => (nomatch hj), hcut⟩
      · by_cases hfound : t.name elf i = some word
        · -- the search ends here
          unfold Tables.name at hfound
          split at hfound
          · rename_i hnamed
            rw [if_pos hnamed, (strcmp_literal_eq_true_iff hword).mpr hfound]
            refine iff_of_false (fun hnone => nomatch hnone) ?_
            rintro ⟨before, k, after, hsplit, hbefore, hk⟩
            cases before with
            | nil =>
                obtain ⟨rfl, _⟩ := List.cons.inj hsplit
                exact hcut hk
            | cons b bs =>
                obtain ⟨rfl, _⟩ := List.cons.inj hsplit
                refine hbefore i List.mem_cons_self ?_
                rw [Tables.name, if_pos hnamed, hfound]
          · contradiction
        · -- the search goes on
          have hstep : (if t.Named elf i then
              (strcmp (t.pointer elf i) (word ++ [0])).bind fun equal =>
                if equal then some (some i) else firstNamed elf t (word ++ [0]) rest
              else firstNamed elf t (word ++ [0]) rest) = firstNamed elf t (word ++ [0]) rest := by
            split
            · rename_i hnamed
              cases hcmp : strcmp (t.pointer elf i) (word ++ [0]) with
              | none => exact absurd ⟨hnamed, (strcmp_literal_eq_none_iff hword).mp hcmp⟩ hcut
              | some equal =>
                  cases equal with
                  | false => rfl
                  | true =>
                      refine absurd ?_ hfound
                      rw [Tables.name, if_pos hnamed]
                      exact (strcmp_literal_eq_true_iff hword).mp hcmp
            · rfl
          rw [hstep, hrest]
          constructor
          · rintro ⟨before, k, after, rfl, hbefore, hk⟩
            refine ⟨i :: before, k, after, rfl, ?_, hk⟩
            intro j hj
            rcases List.mem_cons.mp hj with rfl | hj
            · exact hfound
            · exact hbefore j hj
          · rintro ⟨before, k, after, hsplit, hbefore, hk⟩
            cases before with
            | nil =>
                obtain ⟨rfl, _⟩ := List.cons.inj hsplit
                exact absurd hk hcut
            | cons b bs =>
                obtain ⟨rfl, rfl⟩ := List.cons.inj hsplit
                exact ⟨bs, k, after, rfl, fun j hj => hbefore j (List.mem_cons_of_mem i hj), hk⟩

/-- Where every name ends, a search finds the first section of the name. -/
theorem firstNamed_of_terminated (h : t.Inside elf) {w : List UInt8} (hword : cstr word = some w)
    {is : List Nat} (his : ∀ i ∈ is, i < t.shnum)
    (hends : ∀ i ∈ is, t.Named elf i → (cstr (t.pointer elf i)).isSome) :
    firstNamed elf t word is = some (is.find? fun i => decide (t.name elf i = some w)) := by
  induction is with
  | nil => rfl
  | cons i rest ih =>
      have hrest := ih (fun j hj => his j (List.mem_cons_of_mem i hj))
        fun j hj => hends j (List.mem_cons_of_mem i hj)
      rw [firstNamed_cons h (his i List.mem_cons_self), List.find?_cons]
      by_cases hnamed : t.Named elf i
      · obtain ⟨s, hs⟩ := Option.isSome_iff_exists.mp (hends i List.mem_cons_self hnamed)
        rw [if_pos hnamed, strcmp_of_cstr hs hword, Option.bind_some, Tables.name, if_pos hnamed,
          hs, hrest]
        by_cases heq : s = w
        · simp [heq]
        · simp [heq]
      · rw [if_neg hnamed, hrest, Tables.name, if_neg hnamed]
        simp

/-- What a search finds is in the list. -/
theorem firstNamed_mem {is : List Nat} {i : Nat} (hfound : firstNamed elf t word is = some (some i)) :
    i ∈ is := by
  induction is with
  | nil => exact nomatch Option.some.inj hfound
  | cons j rest ih =>
      rw [firstNamed] at hfound
      cases hname : rd 4 elf (t.header j) with
      | none =>
          rw [hname] at hfound
          contradiction
      | some nameo =>
          rw [hname] at hfound
          simp only [Option.bind_eq_bind, Option.bind_some] at hfound
          split at hfound
          · exact List.mem_cons_of_mem j (ih hfound)
          · cases hcmp : strcmp (elf.drop (t.strOff + nameo)) word with
            | none =>
                rw [hcmp] at hfound
                contradiction
            | some equal =>
                rw [hcmp, Option.bind_some] at hfound
                split at hfound
                · obtain rfl := Option.some.inj (Option.some.inj hfound)
                  exact List.mem_cons_self
                · exact List.mem_cons_of_mem j (ih hfound)

end Names

end Relocation
end LiveSurface
