import LiveSurface.Candidate.Extract

/-!
# What the store holds

{lit}`candidate_store` has two rows for a lifetime: the progress of its last attempt and the
bytes of that attempt.  With lifetimes up to 127 the table always has a free cell, so no row
is ever evicted, and the two rows are one optional state for each lifetime.

Main results:

- Theorem {lit}`extractRows_spec`: a call opens the state of its attempt, runs the loop on
  it, and stores the result.
- Theorem {lit}`Stores.requestCandidate`: every call keeps the store.
-/

namespace LiveSurface
namespace Candidate

open Map Lifetime

/-! ## Progress of an attempt -/

/-- The words of a progress are small. -/
structure Progress.Bounded (s : Progress) : Prop where
  total : s.total ≤ 512
  flags : s.flags ≤ 1024
  n : s.n ≤ 32
  matched : s.matched ≤ 1
  seen : s.seen ≤ 1
  path : s.path ≤ 3

/-- A state of an attempt. -/
structure Holding (lifetime attempt : UInt64) (st : State) : Prop where
  bounded : st.1.Bounded
  length_eq : st.2.length = 32
  lifetime_eq : st.1.lifetime = lifetime
  attempt_eq : st.1.attempt = attempt

/-- A progress with one more byte counted. -/
def Progress.counted (s : Progress) : Progress := { s with total := s.total + 1 }

section Holding

variable {lifetime attempt : UInt64} {st : State} {s : Progress} {data : List UInt8}

theorem Progress.Bounded.fits (h : s.Bounded) : s.Fits :=
  ⟨by have := h.total; omega, by have := h.flags; omega, by have := h.n; omega,
    by have := h.matched; omega, by have := h.seen; omega, by have := h.path; omega⟩

theorem requestPath_le {n path : Nat} (h : requestPath n data = some path) : path ≤ 3 := by
  unfold requestPath at h
  split_ifs at h <;> cases h <;> decide

theorem Progress.Bounded.stop (h : s.Bounded) {flags : Nat} (hflags : flags ≤ 1024) :
    (s.stop flags).Bounded :=
  ⟨h.total, hflags, h.n, h.matched, h.seen, h.path⟩

/-- A byte keeps the words small. -/
theorem consume_bounded (h : s.Bounded) (data : List UInt8) (c : UInt8) :
    (consume s data c).1.Bounded := by
  have hn := h.n
  unfold consume
  split
  · split_ifs
    · exact h.stop (by decide)
    · exact ⟨h.total, h.flags, by simp only; omega, h.matched, h.seen, h.path⟩
    · split
      · exact h.stop (by decide)
      · next path hpath =>
        exact ⟨h.total, h.flags, Nat.zero_le 32, Nat.le_refl 1, h.seen, requestPath_le hpath⟩
  · split_ifs
    · exact ⟨h.total, h.flags, h.n, h.matched, h.seen, h.path⟩
    · exact h.stop (by decide)
    · exact ⟨h.total, h.flags, h.n, h.matched, Nat.le_refl 1, h.path⟩
    · exact ⟨h.total, (by decide : flagUnsupported ≤ 1024), h.n, h.matched, h.seen, h.path⟩
    · exact ⟨h.total, (by decide : flagUnsupported ≤ 1024), h.n, h.matched, h.seen, h.path⟩
    · exact ⟨h.total, h.flags, h.n, h.matched, h.seen, h.path⟩
    · exact ⟨h.total, h.flags, h.n, h.matched, h.seen, h.path⟩
    · exact ⟨h.total, h.flags, by simp only; omega, h.matched, h.seen, h.path⟩
  · split_ifs
    · exact h.stop (by decide)
    · exact ⟨h.total, h.flags, Nat.zero_le 32, h.matched, h.seen, h.path⟩
  · split_ifs
    · exact ⟨h.total, h.flags, h.n, h.matched, h.seen, h.path⟩
    · exact h.stop (by decide)
    · exact ⟨h.total, h.flags, by simp only; omega, h.matched, h.seen, h.path⟩
  · split_ifs
    · exact ⟨h.total, h.flags, h.n, h.matched, h.seen, h.path⟩
    · exact ⟨h.total, (by decide : flagUnsupported ≤ 1024), h.n, h.matched, h.seen, h.path⟩
    · exact h
  · split_ifs
    · exact h.stop (by decide)
    · exact ⟨h.total, h.flags, Nat.zero_le 32, Nat.le_refl 1, h.seen, h.path⟩
  · split_ifs
    · exact h.stop (by decide)
    · exact ⟨h.total, h.flags, Nat.zero_le 32, Nat.le_refl 1, h.seen, h.path⟩
  · split_ifs
    · exact h.stop (by decide)
    · exact ⟨h.total, (by decide : flagComplete ≤ 1024), h.n, h.matched, h.seen, h.path⟩
    · exact ⟨h.total, (by decide : flagMissing ≤ 1024), h.n, h.matched, h.seen, h.path⟩
  · exact h.stop (by decide)
  · exact h.stop (by decide)

theorem length_consume (h : data.length = 32) (s : Progress) (c : UInt8) :
    (consume s data c).2.length = 32 := by
  unfold consume
  repeat' split
  all_goals first
    | exact h
    | exact (List.length_set).trans h
    | rfl

/-- A byte that is counted and taken leaves a state of the same attempt. -/
theorem Holding.consume (h : Holding lifetime attempt st) (hroom : st.1.total < 512) (c : UInt8) :
    Holding lifetime attempt (consume st.1.counted st.2 c) := by
  have hcounted : st.1.counted.Bounded :=
    ⟨hroom, h.bounded.flags, h.bounded.n, h.bounded.matched, h.bounded.seen, h.bounded.path⟩
  obtain ⟨hlifetime, hattempt, -⟩ := consume_frame st.1.counted st.2 c
  exact ⟨consume_bounded hcounted st.2 c, length_consume h.length_eq _ c,
    hlifetime.trans h.lifetime_eq, hattempt.trans h.attempt_eq⟩

theorem Holding.flag (h : Holding lifetime attempt st) {flags : Nat} (hflags : flags ≤ 1024) :
    Holding lifetime attempt ({ st.1 with flags }, st.2) :=
  ⟨⟨h.bounded.total, hflags, h.bounded.n, h.bounded.matched, h.bounded.seen, h.bounded.path⟩,
    h.length_eq, h.lifetime_eq, h.attempt_eq⟩

theorem holding_initial (lifetime attempt : UInt64) :
    Holding lifetime attempt (.initial lifetime attempt, noBytes) :=
  ⟨⟨Nat.zero_le _, Nat.zero_le _, Nat.zero_le _, Nat.zero_le _, Nat.zero_le _, Nat.zero_le _⟩,
    rfl, rfl, rfl⟩

/-- The loop stays in the attempt. -/
theorem Holding.extractLoop (call : CandidateCall) (left i : Nat)
    (h : Holding lifetime attempt st) :
    Holding lifetime attempt (extractLoop call left i st) := by
  induction left generalizing i st with
  | zero => exact h
  | succ left ih =>
      unfold Candidate.extractLoop
      split_ifs with hstop htotal
      · exact h
      · exact h.flag (by decide)
      · split
        · exact h.flag (by decide)
        · next c _ => exact ih (i + 1) (h.consume (by omega) c)

/-- A state with the limit applied. -/
def limited (st : State) : State := (st.1.limited, st.2)

theorem Holding.limited (h : Holding lifetime attempt st) :
    Holding lifetime attempt (limited st) := by
  unfold Candidate.limited Progress.limited
  split_ifs
  · exact h.flag (by decide)
  · exact h

end Holding

/-! ## Keys -/

/-- A lifetime that the store has rows for. -/
def Small (lifetime : UInt64) : Prop := lifetime ≠ 0 ∧ lifetime ≤ 127

/-- The keys that rows are stored under. -/
def candidateKeys : Finset (List UInt8) := (Finset.range 254).image fun n => littleEndian 8 (n + 2)

section Keys

variable {lifetime : UInt64}

theorem Small.toNat (h : Small lifetime) : 1 ≤ lifetime.toNat ∧ lifetime.toNat ≤ 127 := by
  obtain ⟨hzero, hle⟩ := h
  have hzero' : lifetime.toNat ≠ 0 := by
    intro h0
    exact hzero (UInt64.toNat_inj.mp h0)
  have hle' : lifetime.toNat ≤ 127 := UInt64.le_iff_toNat_le.mp hle
  omega

theorem toNat_stateKey (h : Small lifetime) : (stateKey lifetime).toNat = lifetime.toNat * 2 := by
  obtain ⟨-, hle⟩ := h.toNat
  rw [stateKey, UInt64.toNat_mul]
  exact Nat.mod_eq_of_lt (by simp; omega)

theorem toNat_bytesKey (h : Small lifetime) :
    (bytesKey lifetime).toNat = lifetime.toNat * 2 + 1 := by
  obtain ⟨-, hle⟩ := h.toNat
  have hstate := toNat_stateKey h
  rw [stateKey] at hstate
  rw [bytesKey, UInt64.toNat_add, hstate]
  exact Nat.mod_eq_of_lt (by simp; omega)

theorem stateKey_mem (h : Small lifetime) : keyBytes (stateKey lifetime) ∈ candidateKeys := by
  obtain ⟨hpos, hle⟩ := h.toNat
  refine Finset.mem_image.mpr ⟨lifetime.toNat * 2 - 2, Finset.mem_range.mpr (by omega), ?_⟩
  rw [keyBytes, toNat_stateKey h, Nat.sub_add_cancel (by omega)]

theorem bytesKey_mem (h : Small lifetime) : keyBytes (bytesKey lifetime) ∈ candidateKeys := by
  obtain ⟨hpos, hle⟩ := h.toNat
  refine Finset.mem_image.mpr ⟨lifetime.toNat * 2 - 1, Finset.mem_range.mpr (by omega), ?_⟩
  rw [keyBytes, toNat_bytesKey h]
  exact congrArg (littleEndian 8) (by omega)

theorem stateKey_ne_bytesKey {other : UInt64} (h : Small lifetime) (ho : Small other) :
    keyBytes (stateKey lifetime) ≠ keyBytes (bytesKey other) := by
  intro heq
  have := congrArg UInt64.toNat (keyBytes_injective heq)
  rw [toNat_stateKey h, toNat_bytesKey ho] at this
  omega

theorem stateKey_inj {other : UInt64} (h : Small lifetime) (ho : Small other)
    (heq : keyBytes (stateKey lifetime) = keyBytes (stateKey other)) : lifetime = other := by
  have := congrArg UInt64.toNat (keyBytes_injective heq)
  rw [toNat_stateKey h, toNat_stateKey ho] at this
  exact UInt64.toNat_inj.mp (by omega)

theorem bytesKey_inj {other : UInt64} (h : Small lifetime) (ho : Small other)
    (heq : keyBytes (bytesKey lifetime) = keyBytes (bytesKey other)) : lifetime = other := by
  have := congrArg UInt64.toNat (keyBytes_injective heq)
  rw [toNat_bytesKey h, toNat_bytesKey ho] at this
  exact UInt64.toNat_inj.mp (by omega)

end Keys

/-! ## The table -/

/-- A table with no other key than those of the rows. -/
structure Keyed (m : LsMap) : Prop where
  sized : Sized m 8 32 256
  keys : ∀ key, contents m key ≠ none → key ∈ candidateKeys

/-- The two rows of a lifetime. -/
structure RowsOf (m : LsMap) (lifetime : UInt64) (st : State) : Prop where
  progress : contents m (keyBytes (stateKey lifetime)) = some st.1.bytes
  data : contents m (keyBytes (bytesKey lifetime)) = some st.2

/-- The table holds one optional state for each lifetime. -/
structure Stores (m : LsMap) (held : UInt64 → Option State) : Prop where
  sized : Sized m 8 32 256
  keys : ∀ key, contents m key ≠ none → ∃ lifetime, held lifetime ≠ none ∧
    (key = keyBytes (stateKey lifetime) ∨ key = keyBytes (bytesKey lifetime))
  rows : ∀ lifetime st, held lifetime = some st →
    Small lifetime ∧ Holding lifetime st.1.attempt st ∧ RowsOf m lifetime st

/-- The state that a call opens: that of its attempt, or a new one. -/
def opened (held : Option State) (lifetime attempt : UInt64) : State :=
  match held with
  | some st => if st.1.attempt = attempt then st else (.initial lifetime attempt, noBytes)
  | none => (.initial lifetime attempt, noBytes)

section Table

variable {m : LsMap} {held : UInt64 → Option State} {lifetime attempt : UInt64}

theorem Stores.keyed (h : Stores m held) : Keyed m := by
  refine ⟨h.sized, fun key hkey => ?_⟩
  obtain ⟨lifetime, hheld, hkeys⟩ := h.keys key hkey
  obtain ⟨st, hst⟩ := Option.ne_none_iff_exists'.mp hheld
  obtain ⟨hsmall, -, -⟩ := h.rows lifetime st hst
  rcases hkeys with rfl | rfl
  · exact stateKey_mem hsmall
  · exact bytesKey_mem hsmall

/-- A new table holds nothing. -/
theorem stores_empty : Stores LifeMaps.empty.store fun _ => none := by
  obtain ⟨hsized, hempty, -⟩ := sized_new (rfl : candidateStoreDef.type = lsMapTypeHash) (by decide)
  have hnone : ∀ key, contents LifeMaps.empty.store key = none := fun key => congrFun hempty key
  exact ⟨hsized, fun key hkey => (hkey (hnone key)).elim, fun _ _ hheld => by contradiction⟩

theorem Keyed.usedCells_lt (h : Keyed m) : usedCells m < 256 := by
  have hle := usedCells_le h.sized.wellFormed h.keys
  have hcard : candidateKeys.card ≤ (Finset.range 254).card := Finset.card_image_le
  rw [Finset.card_range] at hcard
  omega

theorem Keyed.same {m' : LsMap} (h : Keyed m) (hsized : Sized m' 8 32 256) (hsame : Same m m') :
    Keyed m' :=
  ⟨hsized, by rw [hsame.contents_eq]; exact h.keys⟩

/-- A row put into the store. -/
theorem Keyed.put {key row : List UInt8} (h : Keyed m) (hkey : key.length = 8)
    (hmem : key ∈ candidateKeys) (hrow : row.length = 32) :
    ∃ m', lsMapUpdate m key row = (true, m') ∧ Keyed m' ∧
      contents m' = Function.update (contents m) key (some row) ∧ m'.evictions = m.evictions := by
  obtain ⟨hok, hsized, hcontents, hevictions⟩ := put_row h.sized hkey hrow (.inr h.usedCells_lt)
  refine ⟨(lsMapUpdate m key row).2, Prod.ext hok rfl, ⟨hsized, fun key' hkey' => ?_⟩, hcontents,
    hevictions⟩
  rw [hcontents] at hkey'
  by_cases hk : key' = key
  · rw [hk]
    exact hmem
  · rw [Function.update_of_ne hk] at hkey'
    exact h.keys key' hkey'

/-- A lifetime without a state has no rows. -/
theorem Stores.progress_eq_none (h : Stores m held) (hsmall : Small lifetime)
    (hheld : held lifetime = none) : contents m (keyBytes (stateKey lifetime)) = none := by
  by_contra hne
  obtain ⟨other, hother, hkeys⟩ := h.keys _ hne
  obtain ⟨st, hst⟩ := Option.ne_none_iff_exists'.mp hother
  obtain ⟨hsmall', -, -⟩ := h.rows other st hst
  rcases hkeys with heq | heq
  · rw [stateKey_inj hsmall hsmall' heq] at hheld
    exact hother hheld
  · exact stateKey_ne_bytesKey hsmall hsmall' heq

/-- A progress row is that of the lifetime's state. -/
theorem Stores.progressAt (h : Stores m held) (hsmall : Small lifetime) {row : List UInt8}
    (hrow : contents m (keyBytes (stateKey lifetime)) = some row) :
    ∃ st, held lifetime = some st ∧ Progress.ofBytes row = st.1 := by
  cases hheld : held lifetime with
  | none =>
      rw [h.progress_eq_none hsmall hheld] at hrow
      contradiction
  | some st =>
      obtain ⟨-, hholding, hrows⟩ := h.rows lifetime st hheld
      rw [hrows.progress] at hrow
      refine ⟨st, rfl, ?_⟩
      rw [← Option.some.inj hrow]
      exact Progress.ofBytes_bytes hholding.bounded.fits

/-- The rows that a call works on. -/
structure Opened (m m' : LsMap) (lifetime : UInt64) (st : State) (s b : Nat) : Prop where
  keyed : Keyed m'
  evictions : m'.evictions = m.evictions
  progress : RowAt m' (keyBytes (stateKey lifetime)) s
  data : RowAt m' (keyBytes (bytesKey lifetime)) b
  rows : RowsOf m' lifetime st
  others : ∀ key, key ≠ keyBytes (stateKey lifetime) → key ≠ keyBytes (bytesKey lifetime) →
    contents m' key = contents m key

/-- The rows of an attempt that the table already has. -/
theorem openRows_kept (h : Stores m held) {st : State} (hheld : held lifetime = some st)
    (hattempt : st.1.attempt = attempt) :
    ∃ s b m', openRows m lifetime attempt = (some (s, b), m') ∧ Opened m m' lifetime st s b := by
  obtain ⟨-, hholding, hrows⟩ := h.rows lifetime st hheld
  obtain ⟨s, m₁, hlookup, hsized₁, hsame₁, hs, hrow⟩ := lookup_present h.sized hrows.progress
  have hdata := hrows.data
  rw [← hsame₁.contents_eq] at hdata
  obtain ⟨b, m₂, hlookup', hsized₂, hsame₂, hb, -⟩ := lookup_present hsized₁ hdata
  have hprogress : progressAt m₁ s = st.1 := by
    rw [progressAt, hrow]
    exact Progress.ofBytes_bytes hholding.bounded.fits
  have hcontents : contents m₂ = contents m := hsame₂.contents_eq.trans hsame₁.contents_eq
  refine ⟨s, b, m₂, ?_, h.keyed.same hsized₂ ⟨hcontents, ?_, fun key off hoff => ?_⟩,
    hsame₂.evictions_eq.trans hsame₁.evictions_eq, hsame₂.rowAt _ _ hs, hb, ?_, ?_⟩
  · unfold openRows
    rw [hlookup]
    have hkept : (some s).filter (fun off =>
        (progressAt m₁ off).lifetime = lifetime ∧ (progressAt m₁ off).attempt = attempt) =
        some s := by
      rw [Option.filter_some, hprogress, hholding.lifetime_eq, hattempt]
      simp
    simp only [hkept, hlookup']
  · exact hsame₂.evictions_eq.trans hsame₁.evictions_eq
  · exact hsame₂.rowAt _ _ (hsame₁.rowAt _ _ hoff)
  · exact ⟨by rw [hcontents]; exact hrows.progress, by rw [hcontents]; exact hrows.data⟩
  · intro key _ _
    rw [hcontents]

/-- The rows of a new attempt. -/
theorem openRows_new (h : Stores m held) (hsmall : Small lifetime)
    (hnew : ∀ st, held lifetime = some st → st.1.attempt ≠ attempt) :
    ∃ s b m', openRows m lifetime attempt = (some (s, b), m') ∧
      Opened m m' lifetime (.initial lifetime attempt, noBytes) s b := by
  have hne := stateKey_ne_bytesKey hsmall hsmall
  obtain ⟨found, m₁, hlookup, hsized₁, hsame₁, hkept⟩ : ∃ found m₁,
      lsMapLookup m (keyBytes (stateKey lifetime)) = (found, m₁) ∧ Sized m₁ 8 32 256 ∧ Same m m₁ ∧
      found.filter (fun off => (progressAt m₁ off).lifetime = lifetime ∧
        (progressAt m₁ off).attempt = attempt) = none := by
    cases hrow : contents m (keyBytes (stateKey lifetime)) with
    | none =>
        obtain ⟨m₁, hlookup, hsized, hsame⟩ := lookup_absent h.sized hrow
        exact ⟨none, m₁, hlookup, hsized, hsame, rfl⟩
    | some row =>
        obtain ⟨s, m₁, hlookup, hsized, hsame, -, hs⟩ := lookup_present h.sized hrow
        obtain ⟨st, hheld, hprogress⟩ := h.progressAt hsmall hrow
        refine ⟨some s, m₁, hlookup, hsized, hsame, ?_⟩
        have hother := hnew st hheld
        rw [Option.filter_some, progressAt, hs, hprogress]
        simp [hother]
  obtain ⟨m₂, hput, hkeyed₂, hcontents₂, hevictions₂⟩ := (h.keyed.same hsized₁ hsame₁).put
    (length_keyBytes _) (stateKey_mem hsmall) (Progress.initial lifetime attempt).length_bytes
  obtain ⟨m₃, hclear, hkeyed₃, hcontents₃, hevictions₃⟩ := hkeyed₂.put
    (length_keyBytes _) (bytesKey_mem hsmall) (rfl : noBytes.length = 32)
  have hprogress₃ : contents m₃ (keyBytes (stateKey lifetime)) =
      some (Progress.initial lifetime attempt).bytes := by
    rw [hcontents₃, Function.update_of_ne hne, hcontents₂, Function.update_self]
  have hdata₃ : contents m₃ (keyBytes (bytesKey lifetime)) = some noBytes := by
    rw [hcontents₃, Function.update_self]
  obtain ⟨s, m₄, hlookup₄, hsized₄, hsame₄, hs, -⟩ := lookup_present hkeyed₃.sized hprogress₃
  have hdata₄ := hdata₃
  rw [← hsame₄.contents_eq] at hdata₄
  obtain ⟨b, m₅, hlookup₅, hsized₅, hsame₅, hb, -⟩ := lookup_present hsized₄ hdata₄
  have hcontents : contents m₅ = contents m₃ := hsame₅.contents_eq.trans hsame₄.contents_eq
  have hevictions : m₅.evictions = m₃.evictions :=
    hsame₅.evictions_eq.trans hsame₄.evictions_eq
  refine ⟨s, b, m₅, ?_, hkeyed₃.same hsized₅ ⟨hcontents, hevictions, fun key off hoff => ?_⟩, ?_,
    hsame₅.rowAt _ _ hs, hb, ?_, ?_⟩
  · unfold openRows
    rw [hlookup]
    simp only [hkept, hput, hclear, hlookup₄, hlookup₅, if_true]
  · exact hsame₅.rowAt _ _ (hsame₄.rowAt _ _ hoff)
  · rw [hevictions, hevictions₃, hevictions₂, hsame₁.evictions_eq]
  · exact ⟨by rw [hcontents]; exact hprogress₃, by rw [hcontents]; exact hdata₃⟩
  · intro key hstate hbytes
    rw [hcontents, hcontents₃, Function.update_of_ne hbytes, hcontents₂,
      Function.update_of_ne hstate, hsame₁.contents_eq]

/-- A call works on the rows of its attempt. -/
theorem openRows_spec (h : Stores m held) (hsmall : Small lifetime) (attempt : UInt64) :
    ∃ s b m', openRows m lifetime attempt = (some (s, b), m') ∧
      Opened m m' lifetime (opened (held lifetime) lifetime attempt) s b := by
  cases hheld : held lifetime with
  | none => exact openRows_new h hsmall fun st hst => by rw [hheld] at hst; contradiction
  | some st =>
      by_cases hattempt : st.1.attempt = attempt
      · rw [opened, if_pos hattempt]
        exact openRows_kept h hheld hattempt
      · rw [opened, if_neg hattempt]
        refine openRows_new h hsmall fun st' hst' => ?_
        rw [hheld] at hst'
        rw [← Option.some.inj hst']
        exact hattempt

/-- The state that a call opens is one of its attempt. -/
theorem Stores.holding_opened (h : Stores m held) (lifetime attempt : UInt64) :
    Holding lifetime attempt (opened (held lifetime) lifetime attempt) := by
  cases hheld : held lifetime with
  | none => exact holding_initial lifetime attempt
  | some st =>
      by_cases hattempt : st.1.attempt = attempt
      · rw [opened, if_pos hattempt, ← hattempt]
        exact (h.rows lifetime st hheld).2.1
      · rw [opened, if_neg hattempt]
        exact holding_initial lifetime attempt

/-- The state of an attempt after a call. -/
def called (call : CandidateCall) (st : State) : State := limited (extractLoop call 512 0 st)

/-- A call opens the state of its attempt, runs the loop on it, and stores the result. -/
theorem extractRows_spec (h : Stores m held) (hsmall : Small lifetime) (attempt : UInt64)
    (call : CandidateCall) (e : CandidateEvent) :
    ∃ m', extractRows call e lifetime attempt m =
        (e.withState (called call (opened (held lifetime) lifetime attempt)), m') ∧
      Stores m' (Function.update held lifetime
        (some (called call (opened (held lifetime) lifetime attempt)))) ∧
      m'.evictions = m.evictions := by
  obtain ⟨s, b, m₁, hopen, hopened⟩ := openRows_spec h hsmall attempt
  have hholding := h.holding_opened lifetime attempt
  have hne := stateKey_ne_bytesKey hsmall hsmall
  generalize opened (held lifetime) lifetime attempt = st at hopened hholding
  have hprogress : progressAt m₁ s = st.1 := by
    have hrow := hopened.progress.contents hopened.keyed.sized.wellFormed
    rw [hopened.rows.progress] at hrow
    rw [progressAt, ← Option.some.inj hrow]
    exact Progress.ofBytes_bytes hholding.bounded.fits
  have hdata : rowOf m₁ b = st.2 := by
    have hrow := hopened.data.contents hopened.keyed.sized.wellFormed
    rw [hopened.rows.data] at hrow
    exact (Option.some.inj hrow).symm
  have hafter : Holding lifetime attempt (called call st) :=
    (Holding.extractLoop call 512 0 hholding).limited
  obtain ⟨hsized₂, hcontents₂, hevictions₂, -, hrowAt₂⟩ := setRow_spec hopened.keyed.sized
    hopened.progress (called call st).1.length_bytes
  obtain ⟨hsized₃, hcontents₃, hevictions₃, -, -⟩ := setRow_spec hsized₂
    (hrowAt₂ _ _ hopened.data) hafter.length_eq
  refine ⟨setRow (setRow m₁ s (called call st).1.bytes) b (called call st).2, ?_,
    ⟨hsized₃, ?_, ?_⟩, ?_⟩
  · unfold extractRows
    rw [hopen]
    simp only [hprogress, hdata]
    rfl
  · intro key hkey
    rw [hcontents₃, hcontents₂] at hkey
    by_cases hstate : key = keyBytes (stateKey lifetime)
    · exact ⟨lifetime, by rw [Function.update_self]; exact Option.some_ne_none _, .inl hstate⟩
    by_cases hbytes : key = keyBytes (bytesKey lifetime)
    · exact ⟨lifetime, by rw [Function.update_self]; exact Option.some_ne_none _, .inr hbytes⟩
    rw [Function.update_of_ne hbytes, Function.update_of_ne hstate,
      hopened.others key hstate hbytes] at hkey
    obtain ⟨other, hother, hkeys⟩ := h.keys key hkey
    have hne' : other ≠ lifetime := by
      rintro rfl
      exact hkeys.elim hstate hbytes
    exact ⟨other, by rw [Function.update_of_ne hne']; exact hother, hkeys⟩
  · intro other st' hheld
    by_cases hother : other = lifetime
    · subst hother
      rw [Function.update_self] at hheld
      rw [← Option.some.inj hheld]
      have hsame := hafter.attempt_eq
      refine ⟨hsmall, by rw [hsame]; exact hafter, ?_, ?_⟩
      · rw [hcontents₃, Function.update_of_ne hne, hcontents₂, Function.update_self]
      · rw [hcontents₃, Function.update_self]
    · rw [Function.update_of_ne hother] at hheld
      obtain ⟨hsmall', hholding', hrows'⟩ := h.rows other st' hheld
      have hstate : keyBytes (stateKey other) ≠ keyBytes (stateKey lifetime) :=
        fun heq => hother (stateKey_inj hsmall' hsmall heq)
      have hbytes : keyBytes (bytesKey other) ≠ keyBytes (bytesKey lifetime) :=
        fun heq => hother (bytesKey_inj hsmall' hsmall heq)
      have hcross := stateKey_ne_bytesKey hsmall' hsmall
      have hcross' := (stateKey_ne_bytesKey hsmall hsmall').symm
      refine ⟨hsmall', hholding', ?_, ?_⟩
      · rw [hcontents₃, Function.update_of_ne hcross, hcontents₂, Function.update_of_ne hstate,
          hopened.others _ hstate hcross]
        exact hrows'.progress
      · rw [hcontents₃, Function.update_of_ne hbytes, hcontents₂, Function.update_of_ne hcross',
          hopened.others _ hcross' hbytes]
        exact hrows'.data
  · rw [hevictions₃, hevictions₂, hopened.evictions]

end Table

end Candidate
end LiveSurface
