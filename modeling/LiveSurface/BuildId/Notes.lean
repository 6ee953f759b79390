import LiveSurface.Library.Buffer

/-!
# Build-id notes

A build-id note is sixteen known bytes and an id of twenty, sixteen or eight bytes behind them.
Both readers of build ids look for the sixteen bytes in a run of bytes, first for the longest id.
One of them stops a search at the first offset that leaves no room for the id, the other looks for
the first occurrence and asks for the room afterwards.

Main results:

- Theorem {lit}`parseNote_eq_scan`: the two searches find the same note.
- Theorem {lit}`scan_window_eq_some_iff`: what a search in a part of a file finds.
- Theorem {lit}`scan_window_eq_none_iff`: when it finds nothing.
-/

namespace LiveSurface
namespace BuildId

/-- Where a note begins, and how many bytes its id has. -/
structure Note where
  pos : Nat
  size : Nat
deriving DecidableEq

def Note.shift (lo : Nat) (n : Note) : Note := ⟨lo + n.pos, n.size⟩

/-- The sizes of ids, in the order they are looked for. -/
def sizes : List Nat := [20, 16, 8]

/-- What stands before an id: {lit}`namesz`, {lit}`descsz`, {lit}`NT_GNU_BUILD_ID` and the owner. -/
def pattern (ds : Nat) : List UInt8 :=
  littleEndian 4 4 ++ littleEndian 4 ds ++ littleEndian 4 3 ++ [71, 78, 85, 0]

theorem length_pattern (ds : Nat) : (pattern ds).length = 16 := by
  simp [pattern, length_littleEndian]

/-! ## The two searches -/

/-- The first offset of the pattern that leaves room for the id. -/
def scanSize (note : List UInt8) (ds : Nat) : Option Nat :=
  (List.range (note.length + 1 - (16 + ds))).find? fun off => bytesAt 16 note off == pattern ds

/-- The loops over the sizes and the offsets in {lit}`ls_audit_read_build_id`. -/
def scan (note : List UInt8) : Option Note :=
  sizes.findSome? fun ds => (scanSize note ds).map fun off => ⟨off, ds⟩

/-- {lit}`bytes.find`. -/
def find (n pat : List UInt8) : Option Nat :=
  (List.range (n.length + 1 - pat.length)).find? fun i => bytesAt pat.length n i == pat

/-- {lit}`_parse_note`, for one size. -/
def parseSize (n : List UInt8) (ds : Nat) : Option Nat :=
  (find n (pattern ds)).filter fun i => decide (i + 16 + ds ≤ n.length)

/-- {lit}`_parse_note`. -/
def parseNote (n : List UInt8) : Option Note :=
  sizes.findSome? fun ds => (parseSize n ds).map fun i => ⟨i, ds⟩

section Searches

variable {blob : List UInt8} {ds off : Nat}

theorem scanSize_eq_some_iff :
    scanSize blob ds = some off ↔ off + 16 + ds ≤ blob.length ∧
      bytesAt 16 blob off = pattern ds ∧ ∀ j, j < off → bytesAt 16 blob j ≠ pattern ds := by
  rw [scanSize, List.find?_range_eq_some, List.mem_range]
  simp only [beq_iff_eq, Bool.not_eq_true', beq_eq_false_iff_ne]
  constructor
  · rintro ⟨hat, hlt, hfirst⟩
    exact ⟨by omega, hat, hfirst⟩
  · rintro ⟨hroom, hat, hfirst⟩
    exact ⟨hat, by omega, hfirst⟩

theorem scanSize_eq_none_iff :
    scanSize blob ds = none ↔
      ∀ j, j + 16 + ds ≤ blob.length → bytesAt 16 blob j ≠ pattern ds := by
  rw [scanSize, List.find?_range_eq_none]
  simp only [Bool.not_eq_true', beq_eq_false_iff_ne]
  constructor
  · intro h j hj
    exact h j (by omega)
  · intro h j hj
    exact h j (by omega)

/-- Asking for the room afterwards finds no other offset: behind an occurrence without room there is
none with room. -/
theorem parseSize_eq_scanSize : parseSize blob ds = scanSize blob ds := by
  unfold parseSize
  cases h : find blob (pattern ds) with
  | none =>
      rw [find, List.find?_range_eq_none] at h
      symm
      rw [Option.filter_none, scanSize_eq_none_iff]
      intro j hj
      have hat := h j (by rw [length_pattern]; omega)
      rw [length_pattern] at hat
      simpa using hat
  | some i =>
      rw [find, List.find?_range_eq_some] at h
      simp only [length_pattern, beq_iff_eq, Bool.not_eq_true', beq_eq_false_iff_ne] at h
      obtain ⟨hat, -, hfirst⟩ := h
      symm
      by_cases hroom : i + 16 + ds ≤ blob.length
      · rw [Option.filter_some, if_pos (decide_eq_true hroom), scanSize_eq_some_iff]
        exact ⟨hroom, hat, hfirst⟩
      · rw [Option.filter_some, if_neg (by simpa using hroom), scanSize_eq_none_iff]
        intro j hj
        exact hfirst j (by omega)

/-- The two searches find the same note. -/
theorem parseNote_eq_scan : parseNote blob = scan blob := by
  simp only [parseNote, scan, parseSize_eq_scanSize]

end Searches

/-! ## What is found -/

/-- A complete note of a run of bytes. -/
structure NoteAt (bytes : List UInt8) (n : Note) : Prop where
  size : n.size ∈ sizes
  header : bytesAt 16 bytes n.pos = pattern n.size
  room : n.pos + 16 + n.size ≤ bytes.length

/-- A note that lies in a part of the bytes. -/
structure NoteIn (bytes : List UInt8) (lo hi : Nat) (n : Note) : Prop extends NoteAt bytes n where
  lower : lo ≤ n.pos
  upper : n.pos + 16 + n.size ≤ hi

/-- There no note has a longer id, and none of this size is before it. -/
structure FirstIn (bytes : List UInt8) (lo hi : Nat) (n : Note) : Prop
    extends NoteIn bytes lo hi n where
  first : ∀ m, NoteIn bytes lo hi m → m.size < n.size ∨ m.size = n.size ∧ n.pos ≤ m.pos

section Windows

variable {blob file : List UInt8} {n : Note} {lo len : Nat}

/-- A search over decreasing sizes. -/
theorem findSome?_sizes_eq_some_iff {f : Nat → Option Nat} {ss : List Nat}
    (hss : ss.Pairwise (· > ·)) :
    ss.findSome? (fun ds => (f ds).map fun off => (⟨off, ds⟩ : Note)) = some n ↔
      n.size ∈ ss ∧ f n.size = some n.pos ∧ ∀ ds ∈ ss, n.size < ds → f ds = none := by
  induction ss with
  | nil => simp
  | cons s rest ih =>
      rw [List.pairwise_cons] at hss
      rw [List.findSome?_cons]
      cases hs : f s with
      | none =>
          rw [Option.map_none, ih hss.2]
          constructor
          · rintro ⟨hmem, hat, hlonger⟩
            refine ⟨List.mem_cons_of_mem s hmem, hat, ?_⟩
            exact List.forall_mem_cons.mpr ⟨fun _ => hs, hlonger⟩
          · rintro ⟨hmem, hat, hlonger⟩
            refine ⟨?_, hat, (List.forall_mem_cons.mp hlonger).2⟩
            rcases List.mem_cons.mp hmem with heq | hmem
            · rw [heq, hs] at hat
              contradiction
            · exact hmem
      | some off =>
          rw [Option.map_some]
          constructor
          · intro h
            obtain rfl := Option.some.inj h
            refine ⟨List.mem_cons_self, hs, ?_⟩
            intro ds hds hlt
            rcases List.mem_cons.mp hds with rfl | hmem
            · exact absurd hlt (Nat.lt_irrefl _)
            · exact absurd hlt (Nat.not_lt_of_gt (hss.1 ds hmem))
          · rintro ⟨hmem, hat, hlonger⟩
            rcases List.mem_cons.mp hmem with heq | hmem
            · rw [heq, hs] at hat
              obtain rfl := Option.some.inj hat
              rw [← heq]
            · have hnone := hlonger s List.mem_cons_self (hss.1 n.size hmem)
              rw [hs] at hnone
              contradiction

/-- A search finds the first note. -/
theorem scan_eq_some_iff : scan blob = some n ↔ NoteAt blob n ∧
    ∀ m, NoteAt blob m → m.size < n.size ∨ m.size = n.size ∧ n.pos ≤ m.pos := by
  unfold scan
  rw [findSome?_sizes_eq_some_iff (by decide)]
  constructor
  · rintro ⟨hsize, hat, hlonger⟩
    obtain ⟨hroom, hheader, hfirst⟩ := scanSize_eq_some_iff.mp hat
    refine ⟨⟨hsize, hheader, hroom⟩, ?_⟩
    intro m hm
    rcases Nat.lt_trichotomy m.size n.size with hlt | heq | hgt
    · exact Or.inl hlt
    · refine Or.inr ⟨heq, Nat.le_of_not_lt fun hbefore => ?_⟩
      have hno := hfirst m.pos hbefore
      rw [← heq] at hno
      exact hno hm.header
    · exact absurd hm.header (scanSize_eq_none_iff.mp (hlonger m.size hm.size hgt) m.pos hm.room)
  · rintro ⟨hn, hfirst⟩
    refine ⟨hn.size, scanSize_eq_some_iff.mpr ⟨hn.room, hn.header, ?_⟩, ?_⟩
    · intro j hj hat
      have hroom := hn.room
      have := hfirst ⟨j, n.size⟩ ⟨hn.size, hat, by dsimp only; omega⟩
      dsimp only at this
      omega
    · intro ds hds hlt
      rw [scanSize_eq_none_iff]
      intro j hj hat
      have := hfirst ⟨j, ds⟩ ⟨hds, hat, hj⟩
      dsimp only at this
      omega

theorem scan_eq_none_iff : scan blob = none ↔ ∀ m, ¬NoteAt blob m := by
  unfold scan
  simp only [List.findSome?_eq_none_iff, Option.map_eq_none_iff, scanSize_eq_none_iff]
  constructor
  · intro h m hm
    exact h m.size hm.size m.pos hm.room hm.header
  · intro h ds hds j hj hat
    exact h ⟨j, ds⟩ ⟨hds, hat, hj⟩

/-- The notes of a part of a file are those of the file that lie in the part. -/
theorem noteAt_bytesAt_iff :
    NoteAt (bytesAt len file lo) n ↔ NoteIn file lo (lo + len) (n.shift lo) := by
  have hlength : (bytesAt len file lo).length = min len (file.length - lo) := by
    rw [bytesAt, List.length_take, List.length_drop]
  constructor
  · rintro ⟨hsize, hheader, hroom⟩
    rw [hlength] at hroom
    have hle : n.pos + 16 + n.size ≤ len := Nat.le_trans hroom (Nat.min_le_left _ _)
    have hfile : n.pos + 16 + n.size ≤ file.length - lo :=
      Nat.le_trans hroom (Nat.min_le_right _ _)
    rw [bytesAt_bytesAt (by omega)] at hheader
    refine ⟨⟨hsize, hheader, ?_⟩, Nat.le_add_right lo n.pos, ?_⟩
    · dsimp only [Note.shift]
      omega
    · dsimp only [Note.shift]
      omega
  · rintro ⟨⟨hsize, hheader, hroom⟩, -, hupper⟩
    dsimp only [Note.shift] at hsize hheader hroom hupper
    refine ⟨hsize, ?_, ?_⟩
    · rw [bytesAt_bytesAt (by omega)]
      exact hheader
    · rw [hlength, Nat.le_min]
      constructor <;> omega

theorem NoteIn.eq_shift {hi : Nat} (h : NoteIn file lo hi n) :
    n = Note.shift lo ⟨n.pos - lo, n.size⟩ := by
  rw [Note.shift, Nat.add_sub_cancel' h.lower]

/-- A search in a part of a file. -/
theorem scan_window_eq_some_iff :
    (scan (bytesAt len file lo)).map (Note.shift lo) = some n ↔ FirstIn file lo (lo + len) n := by
  rw [Option.map_eq_some_iff]
  constructor
  · rintro ⟨k, hk, rfl⟩
    obtain ⟨hat, hfirst⟩ := scan_eq_some_iff.mp hk
    refine ⟨noteAt_bytesAt_iff.mp hat, ?_⟩
    intro m hm
    have hshift := hm.eq_shift
    rw [hshift] at hm
    have hm' := hfirst _ (noteAt_bytesAt_iff.mpr hm)
    rw [hshift]
    dsimp only [Note.shift] at hm' ⊢
    omega
  · intro h
    have hshift := h.toNoteIn.eq_shift
    have hin := h.toNoteIn
    rw [hshift] at hin
    refine ⟨⟨n.pos - lo, n.size⟩, ?_, hshift.symm⟩
    refine scan_eq_some_iff.mpr ⟨noteAt_bytesAt_iff.mpr hin, ?_⟩
    intro m hm
    have hm' := h.first _ (noteAt_bytesAt_iff.mp hm)
    dsimp only [Note.shift] at hm' ⊢
    omega

theorem scan_window_eq_none_iff :
    (scan (bytesAt len file lo)).map (Note.shift lo) = none ↔
      ∀ m, ¬NoteIn file lo (lo + len) m := by
  rw [Option.map_eq_none_iff, scan_eq_none_iff]
  constructor
  · intro h m hm
    have hin := hm
    rw [hm.eq_shift] at hin
    exact h _ (noteAt_bytesAt_iff.mpr hin)
  · intro h m hm
    exact h _ (noteAt_bytesAt_iff.mp hm)

end Windows

end BuildId
end LiveSurface
