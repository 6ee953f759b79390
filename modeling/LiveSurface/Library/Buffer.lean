import LiveSurface.Library.Bytes
import Mathlib.Data.List.Infix

/-!
# Bounded buffers and C strings

A buffer is a byte string of fixed length.  A read answers {lit}`none` as soon as it would touch a
byte outside the buffer, and so does a write; a program that works on a buffer and answers
{lit}`some` has stayed inside.  A C string is what follows a pointer into a buffer, up to the
first zero byte, and nothing promises that there is one.

Main results:

- Theorem {lit}`strcmp_eq_none_iff`: when a comparison runs off a buffer.
- Theorem {lit}`strcmp_of_cstr`: terminated strings are compared as a whole.
- Theorem {lit}`Kept.rd` and theorem {lit}`Kept.cstr`: what is read depends on the bytes read only.
- Theorem {lit}`Terminated.cstr`: in a table that ends with a zero byte every string ends.
-/

namespace LiveSurface

abbrev Buffer := List UInt8

/-! ## Reading and writing -/

/-- The little-endian integer in the {lit}`n` bytes at a position. -/
def leAt (n : Nat) (buf : Buffer) (pos : Nat) : Nat := ofLittleEndian ((buf.drop pos).take n)

/-- Read an integer. -/
def rd (n : Nat) (buf : Buffer) (pos : Nat) : Option Nat :=
  if pos + n ≤ buf.length then some (leAt n buf pos) else none

/-- The bytes at a position. -/
def bytesAt (n : Nat) (buf : Buffer) (pos : Nat) : List UInt8 := (buf.drop pos).take n

/-- Read bytes. -/
def rdBytes (n : Nat) (buf : Buffer) (pos : Nat) : Option (List UInt8) :=
  if pos + n ≤ buf.length then some (bytesAt n buf pos) else none

/-- The buffer with other bytes at a position. -/
def patched (buf : Buffer) (pos : Nat) (bytes : List UInt8) : Buffer :=
  buf.take pos ++ bytes ++ buf.drop (pos + bytes.length)

/-- Write bytes. -/
def wr (buf : Buffer) (pos : Nat) (bytes : List UInt8) : Option Buffer :=
  if pos + bytes.length ≤ buf.length then some (patched buf pos bytes) else none

section Access

variable {buf : Buffer} {n pos : Nat} {bytes : List UInt8}

theorem rd_of_le (h : pos + n ≤ buf.length) : rd n buf pos = some (leAt n buf pos) := if_pos h

theorem rdBytes_of_le (h : pos + n ≤ buf.length) : rdBytes n buf pos = some (bytesAt n buf pos) :=
  if_pos h

theorem rdBytes_eq_some (h : rdBytes n buf pos = some bytes) :
    pos + n ≤ buf.length ∧ bytes = bytesAt n buf pos := by
  unfold rdBytes at h
  split at h
  · rename_i hle
    exact ⟨hle, (Option.some.inj h).symm⟩
  · contradiction

/-- A part of a part. -/
theorem bytesAt_bytesAt {k off : Nat} (h : off + k ≤ n) :
    bytesAt k (bytesAt n buf pos) off = bytesAt k buf (pos + off) := by
  rw [bytesAt, bytesAt, bytesAt, List.drop_take, List.take_take, List.drop_drop,
    Nat.min_eq_left (by omega)]

theorem leAt_bytesAt {k off : Nat} (h : off + k ≤ n) :
    leAt k (bytesAt n buf pos) off = leAt k buf (pos + off) :=
  congrArg ofLittleEndian (bytesAt_bytesAt h)

/-- A read behind a prefix. -/
theorem bytesAt_append_right (front : Buffer) :
    bytesAt n (front ++ buf) (front.length + pos) = bytesAt n buf pos := by
  rw [bytesAt, bytesAt, ← List.drop_drop, List.drop_left]

/-- Blocks of one size follow each other. -/
theorem bytesAt_flatten {blocks : List Buffer} {k i off : Nat} {b : Buffer}
    (hk : ∀ b ∈ blocks, b.length = k) (hi : blocks[i]? = some b) (h : off + n ≤ k) :
    bytesAt n blocks.flatten (i * k + off) = bytesAt n b off := by
  induction blocks generalizing i with
  | nil => simp at hi
  | cons c rest ih =>
      rw [List.forall_mem_cons] at hk
      cases i with
      | zero =>
          obtain rfl : c = b := by simpa using hi
          rw [List.flatten_cons, Nat.zero_mul, Nat.zero_add, bytesAt, bytesAt,
            List.drop_append_of_le_length (by omega),
            List.take_append_of_le_length (by rw [List.length_drop]; omega)]
      | succ i =>
          rw [List.getElem?_cons_succ] at hi
          have hnext : (i + 1) * k + off = c.length + (i * k + off) := by
            rw [Nat.succ_mul, hk.1]
            omega
          rw [List.flatten_cons, hnext, bytesAt_append_right, ih hk.2 hi]

theorem length_patched (h : pos + bytes.length ≤ buf.length) :
    (patched buf pos bytes).length = buf.length := by
  simp only [patched, List.length_append, List.length_take, List.length_drop]
  omega

/-- Inside the patch there are its bytes, elsewhere those of the buffer. -/
theorem getElem?_patched (h : pos + bytes.length ≤ buf.length) (i : Nat) :
    (patched buf pos bytes)[i]? =
      if pos ≤ i ∧ i < pos + bytes.length then bytes[i - pos]? else buf[i]? := by
  unfold patched
  rw [List.append_assoc, List.getElem?_append, List.length_take, Nat.min_eq_left (by omega),
    List.getElem?_append, List.getElem?_take, List.getElem?_drop]
  by_cases hlo : i < pos
  · rw [if_pos hlo, if_pos hlo, if_neg fun hin => Nat.not_lt.mpr hin.1 hlo]
  · rw [if_neg hlo]
    by_cases hhi : i < pos + bytes.length
    · rw [if_pos (by omega), if_pos ⟨Nat.le_of_not_lt hlo, hhi⟩]
    · rw [if_neg (by omega), if_neg fun hin => hhi hin.2]
      congr 1
      omega

end Access

/-! ## C strings -/

/-- {lit}`strcmp` finds no difference between what two pointers point at. -/
@[grind =]
def strcmp : List UInt8 → List UInt8 → Option Bool
  | a :: as, b :: bs => if a ≠ b then some false else if a = 0 then some true else strcmp as bs
  | _, _ => none

/-- {lit}`strncmp` finds no difference in the first bytes that two pointers point at. -/
@[grind =]
def strncmp : Nat → List UInt8 → List UInt8 → Option Bool
  | 0, _, _ => some true
  | n + 1, a :: as, b :: bs =>
      if a ≠ b then some false else if a = 0 then some true else strncmp n as bs
  | _, _, _ => none

/-- The string at a pointer. -/
@[grind =]
def cstr : List UInt8 → Option (List UInt8)
  | [] => none
  | a :: rest => if a = 0 then some [] else (cstr rest).map (a :: ·)

/-- A string that is handed over by its pointer. -/
structure CString where
  bytes : List UInt8
  ends : (0 : UInt8) ∉ bytes

/-- What the pointer points at. -/
def CString.pointer (s : CString) : List UInt8 := s.bytes ++ [0]

section Strings

variable {s t a b : List UInt8}

theorem cstr_append {rest : List UInt8} (ha : (0 : UInt8) ∉ a) :
    cstr (a ++ 0 :: rest) = some a := by
  induction a with
  | nil => rfl
  | cons x xs ih =>
      rw [List.mem_cons, not_or] at ha
      rw [List.cons_append, cstr, if_neg (Ne.symm ha.1), ih ha.2]
      rfl

theorem cstr_eq_some (h : cstr s = some a) : (0 : UInt8) ∉ a ∧ ∃ rest, s = a ++ 0 :: rest := by
  induction s generalizing a with
  | nil => contradiction
  | cons x xs ih =>
      unfold cstr at h
      split at h
      · rename_i hzero
        obtain rfl := Option.some.inj h
        exact ⟨List.not_mem_nil, xs, by rw [hzero, List.nil_append]⟩
      · rename_i hne
        obtain ⟨b, hb, rfl⟩ := Option.map_eq_some_iff.mp h
        obtain ⟨hmem, rest, hrest⟩ := ih hb
        refine ⟨?_, rest, by rw [hrest, List.cons_append]⟩
        rw [List.mem_cons, not_or]
        exact ⟨Ne.symm hne, hmem⟩

/-- The string at a pointer, to be handed over. -/
def CString.at (s : List UInt8) : Option CString :=
  match h : cstr s with
  | none => none
  | some a => some ⟨a, (cstr_eq_some h).1⟩

theorem CString.cstr_pointer (s : CString) : cstr s.pointer = some s.bytes := cstr_append s.ends

theorem CString.at_eq_some (h : cstr s = some a) (ha : (0 : UInt8) ∉ a) :
    CString.at s = some ⟨a, ha⟩ := by
  unfold CString.at
  split
  · rename_i hnone
    rw [hnone] at h
    contradiction
  · rename_i b hb
    obtain rfl := Option.some.inj (hb.symm.trans h)
    rfl

/-- A string begins with a literal when its bytes do. -/
theorem prefix_iff_of_cstr (hs : cstr s = some a) (ht : (0 : UInt8) ∉ t) : t <+: s ↔ t <+: a := by
  obtain ⟨-, rest, rfl⟩ := cstr_eq_some hs
  refine ⟨fun h => ?_, fun h => h.trans (List.prefix_append a _)⟩
  by_cases hle : t.length ≤ a.length
  · exact List.prefix_of_prefix_length_le h (List.prefix_append a _) hle
  · have hzero : a ++ [0] <+: t := by
      refine List.prefix_of_prefix_length_le ⟨rest, ?_⟩ h ?_
      · rw [List.append_assoc, List.singleton_append]
      · rw [List.length_append, List.length_singleton]
        omega
    exact absurd (hzero.subset (List.mem_append_right a (List.mem_singleton_self 0))) ht

/-- A string that ends in the first bytes. -/
theorem cstr_of_take {n : Nat} (h : cstr (s.take n) = some a) : cstr s = some a := by
  obtain ⟨ha, rest, hrest⟩ := cstr_eq_some h
  rw [← List.take_append_drop n s, hrest, List.append_assoc, List.cons_append]
  exact cstr_append ha

/-- {lit}`strncmp` with all of a literal asks whether a string begins with it. -/
theorem strncmp_of_cstr (hs : cstr s = some a) (ht : (0 : UInt8) ∉ t) :
    strncmp t.length s t = some (t.isPrefixOf a) := by
  obtain ⟨ha, rest, rfl⟩ := cstr_eq_some hs
  clear hs
  induction t generalizing a with
  | nil => simp [strncmp]
  | cons y ys ih =>
      rw [List.mem_cons, not_or] at ht
      cases a with
      | nil => simp [strncmp, ht.1]
      | cons x xs =>
          rw [List.mem_cons, not_or] at ha
          rw [List.cons_append, List.length_cons, strncmp, List.isPrefixOf_cons₂]
          by_cases hne : x ≠ y
          · rw [if_pos hne, beq_eq_false_iff_ne.mpr (Ne.symm hne), Bool.false_and]
          · rw [if_neg hne, if_neg (Ne.symm ha.1), ih ht.2 ha.2]
            rw [not_not] at hne
            rw [hne, beq_self_eq_true, Bool.true_and]

/-- There is no string exactly where no zero byte follows. -/
theorem cstr_eq_none_iff : cstr s = none ↔ (0 : UInt8) ∉ s := by
  induction s with
  | nil => simp [cstr]
  | cons x xs ih =>
      unfold cstr
      split
      · rename_i hzero
        simp [hzero]
      · rename_i hne
        rw [Option.map_eq_none_iff, ih, List.mem_cons, not_or]
        exact (and_iff_right (Ne.symm hne)).symm

/-- A comparison runs off the end exactly when one of the two sides is a prefix of the other and
has no zero byte. -/
theorem strcmp_eq_none_iff :
    strcmp s t = none ↔ (0 : UInt8) ∉ s ∧ s <+: t ∨ (0 : UInt8) ∉ t ∧ t <+: s := by
  induction s generalizing t with
  | nil => simp [strcmp]
  | cons x xs ih =>
      cases t with
      | nil => simp [strcmp]
      | cons y ys =>
          unfold strcmp
          by_cases hne : x ≠ y
          · rw [if_pos hne]
            simp [List.cons_prefix_cons, hne, Ne.symm hne]
          · rw [if_neg hne]
            rw [not_not] at hne
            subst hne
            by_cases hzero : x = 0
            · simp [hzero]
            · simp [hzero, ih, List.cons_prefix_cons, Ne.symm hzero]

theorem strcmp_of_cstr (hs : cstr s = some a) (ht : cstr t = some b) :
    strcmp s t = some (decide (a = b)) := by
  obtain ⟨ha, rest, rfl⟩ := cstr_eq_some hs
  obtain ⟨hb, rest', rfl⟩ := cstr_eq_some ht
  clear hs ht
  induction a generalizing b with
  | nil =>
      cases b with
      | nil => simp [strcmp]
      | cons y ys =>
          rw [List.mem_cons, not_or] at hb
          simp [strcmp, hb.1]
  | cons x xs ih =>
      rw [List.mem_cons, not_or] at ha
      cases b with
      | nil => simp [strcmp, Ne.symm ha.1]
      | cons y ys =>
          rw [List.mem_cons, not_or] at hb
          rw [List.cons_append, List.cons_append, strcmp]
          by_cases hne : x ≠ y
          · rw [if_pos hne]
            simp [hne]
          · rw [if_neg hne, if_neg (Ne.symm ha.1), ih ha.2 hb.2]
            rw [not_not] at hne
            simp [hne]

/-- Two strings that compare equal are terminated, and the same. -/
theorem strcmp_eq_true (h : strcmp s t = some true) : ∃ a, cstr s = some a ∧ cstr t = some a := by
  induction s generalizing t with
  | nil => contradiction
  | cons x xs ih =>
      cases t with
      | nil => contradiction
      | cons y ys =>
          unfold strcmp at h
          split at h
          · contradiction
          · rename_i heq
            rw [not_not] at heq
            subst heq
            split at h
            · rename_i hzero
              exact ⟨[], by simp [cstr, hzero], by simp [cstr, hzero]⟩
            · rename_i hne
              obtain ⟨a, hs, ht⟩ := ih h
              exact ⟨x :: a, by simp [cstr, hne, hs], by simp [cstr, hne, ht]⟩

/-- A comparison with a literal runs off the end exactly when all that is left is the beginning of
the literal. -/
theorem strcmp_literal_eq_none_iff (ht : (0 : UInt8) ∉ t) :
    strcmp s (t ++ [0]) = none ↔ s <+: t := by
  rw [strcmp_eq_none_iff]
  constructor
  · rintro (⟨hs, hpre⟩ | ⟨hzero, _⟩)
    · rcases List.prefix_concat_iff.mp hpre with heq | hpre
      · rw [heq] at hs
        simp at hs
      · exact hpre
    · simp at hzero
  · intro hpre
    exact Or.inl ⟨fun hzero => ht (hpre.subset hzero), hpre.trans (List.prefix_append t [0])⟩

theorem strcmp_literal_eq_true_iff (ht : (0 : UInt8) ∉ t) :
    strcmp s (t ++ [0]) = some true ↔ cstr s = some t := by
  have hliteral : cstr (t ++ [0]) = some t := cstr_append ht
  constructor
  · intro h
    obtain ⟨a, hs, ha⟩ := strcmp_eq_true h
    rw [hliteral] at ha
    rw [hs, ← ha]
  · intro hs
    rw [strcmp_of_cstr hs hliteral, decide_eq_true rfl]

/-- A comparison does not depend on what follows the end of a string. -/
theorem strcmp_congr_right {t' : List UInt8} (ht : (cstr t).isSome) (ht' : cstr t' = cstr t) :
    strcmp s t' = strcmp s t := by
  obtain ⟨b, hb⟩ := Option.isSome_iff_exists.mp ht
  obtain ⟨hzero, rest, rfl⟩ := cstr_eq_some hb
  obtain ⟨-, rest', rfl⟩ := cstr_eq_some (ht'.trans hb)
  clear ht ht' hb
  induction b generalizing s with
  | nil =>
      cases s with
      | nil => rfl
      | cons x xs => by_cases hx : x = 0 <;> simp [strcmp, hx]
  | cons y ys ih =>
      rw [List.mem_cons, not_or] at hzero
      cases s with
      | nil => rfl
      | cons x xs => rw [List.cons_append, List.cons_append, strcmp, strcmp, ih hzero.2]

theorem strcmp_comm : strcmp s t = strcmp t s := by
  induction s generalizing t with
  | nil => cases t <;> rfl
  | cons x xs ih =>
      cases t with
      | nil => rfl
      | cons y ys =>
          rw [strcmp, strcmp, ih]
          by_cases hxy : x = y
          · rw [hxy]
          · rw [if_pos hxy, if_pos (Ne.symm hxy)]

theorem strcmp_congr_left {s' : List UInt8} (hs : (cstr s).isSome) (hs' : cstr s' = cstr s) :
    strcmp s' t = strcmp s t := by
  rw [strcmp_comm, strcmp_congr_right hs hs', strcmp_comm]

end Strings

/-! ## Buffers that agree -/

/-- The second buffer has the length of the first, and its bytes at the positions in {lit}`P`. -/
structure Kept (P : Nat → Prop) (m m' : Buffer) : Prop where
  length : m'.length = m.length
  bytes : ∀ i, P i → m'[i]? = m[i]?

section Frame

variable {P : Nat → Prop} {m m' m'' : Buffer} {n pos : Nat}

theorem Kept.refl (P : Nat → Prop) (m : Buffer) : Kept P m m := ⟨rfl, fun _ _ => rfl⟩

theorem Kept.trans (h : Kept P m m') (h' : Kept P m' m'') : Kept P m m'' :=
  ⟨h'.length.trans h.length, fun i hi => (h'.bytes i hi).trans (h.bytes i hi)⟩

theorem Kept.bytesAt (h : Kept P m m') (hP : ∀ i, pos ≤ i → i < pos + n → P i) :
    bytesAt n m' pos = bytesAt n m pos := by
  apply List.ext_getElem?
  intro i
  rw [LiveSurface.bytesAt, LiveSurface.bytesAt, List.getElem?_take, List.getElem?_take,
    List.getElem?_drop, List.getElem?_drop]
  split
  · exact h.bytes (pos + i) (hP (pos + i) (by omega) (by omega))
  · rfl

theorem Kept.leAt (h : Kept P m m') (hP : ∀ i, pos ≤ i → i < pos + n → P i) :
    leAt n m' pos = leAt n m pos :=
  congrArg ofLittleEndian (h.bytesAt hP)

theorem Kept.rd (h : Kept P m m') (hP : ∀ i, pos ≤ i → i < pos + n → P i) :
    rd n m' pos = rd n m pos := by
  rw [LiveSurface.rd, LiveSurface.rd, h.length, h.leAt hP]

theorem Kept.cstr {s : List UInt8} (h : Kept P m m') (hs : cstr (m.drop pos) = some s)
    (hP : ∀ i, pos ≤ i → i ≤ pos + s.length → P i) : cstr (m'.drop pos) = some s := by
  obtain ⟨hzero, rest, hrest⟩ := cstr_eq_some hs
  have hat : ∀ i, i ≤ s.length → m'[pos + i]? = (s ++ 0 :: rest)[i]? := by
    intro i hi
    rw [h.bytes (pos + i) (hP (pos + i) (by omega) (by omega)), ← hrest, List.getElem?_drop]
  have hdrop : m'.drop pos = s ++ 0 :: m'.drop (pos + s.length + 1) := by
    apply List.ext_getElem?
    intro i
    rw [List.getElem?_drop]
    rcases Nat.lt_trichotomy i s.length with hlt | heq | hgt
    · rw [hat i (by omega), List.getElem?_append_left hlt, List.getElem?_append_left hlt]
    · rw [hat i (by omega), heq, List.getElem?_append_right (Nat.le_refl _),
        List.getElem?_append_right (Nat.le_refl _), Nat.sub_self]
      rfl
    · obtain ⟨k, rfl⟩ := Nat.exists_eq_add_of_lt hgt
      rw [List.getElem?_append_right (by omega),
        show s.length + k + 1 - s.length = k + 1 from by omega, List.getElem?_cons_succ,
        List.getElem?_drop]
      congr 1
      omega
  rw [hdrop]
  exact cstr_append hzero

/-- A table of strings, empty or with a zero byte at its end. -/
def Terminated (m : Buffer) (lo size : Nat) : Prop := size = 0 ∨ m[lo + size - 1]? = some 0

instance (m : Buffer) (lo size : Nat) : Decidable (Terminated m lo size) :=
  inferInstanceAs (Decidable (_ ∨ _))

/-- A zero byte further on ends the string. -/
theorem cstr_of_zero {i : Nat} (hi : m[pos + i]? = some 0) :
    ∃ s, cstr (m.drop pos) = some s ∧ s.length ≤ i := by
  rw [← List.getElem?_drop] at hi
  generalize m.drop pos = rest at hi ⊢
  induction rest generalizing i with
  | nil => simp at hi
  | cons x xs ih =>
      unfold LiveSurface.cstr
      by_cases hzero : x = 0
      · exact ⟨[], if_pos hzero, Nat.zero_le _⟩
      · rw [if_neg hzero]
        cases i with
        | zero =>
            rw [List.getElem?_cons_zero] at hi
            exact absurd (Option.some.inj hi) hzero
        | succ i =>
            obtain ⟨s, hs, hle⟩ := ih hi
            exact ⟨x :: s, by rw [hs]; rfl, Nat.succ_le_succ hle⟩

theorem Terminated.cstr {lo size off : Nat} (h : Terminated m lo size) (hoff : off < size) :
    ∃ s, cstr (m.drop (lo + off)) = some s ∧ off + s.length < size := by
  rcases h with rfl | hlast
  · omega
  · obtain ⟨s, hs, hle⟩ := @cstr_of_zero m (lo + off) (size - 1 - off)
      (by rw [← hlast]; congr 1; omega)
    exact ⟨s, hs, by omega⟩

end Frame

end LiveSurface
