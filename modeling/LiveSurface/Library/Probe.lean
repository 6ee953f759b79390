import LiveSurface.Library.Bytes

/-!
# Fault-contained reads

A read of memory that may not be mapped: it returns all its bytes, or nothing when
any of them cannot be read.

Main results:

- Theorem {lit}`probe_eq_some_iff`: what a read returned are the bytes of its range.
-/

namespace LiveSurface

/-- Memory as a fault-contained read sees it: no byte where it cannot be read. -/
abbrev ProbeMemory := Nat → Option UInt8

/-- Read {lit}`n` bytes from an address on. -/
def probe (mem : ProbeMemory) (a : Nat) : Nat → Option (List UInt8)
  | 0 => some []
  | n + 1 => (mem a).bind fun b => (probe mem (a + 1) n).map fun bs => b :: bs

variable {mem : ProbeMemory} {a n : Nat} {bs : List UInt8}

@[simp]
theorem probe_zero (mem : ProbeMemory) (a : Nat) : probe mem a 0 = some [] := rfl

/-- What a read returned are the bytes of its range. -/
theorem probe_eq_some_iff : probe mem a n = some bs ↔
    bs.length = n ∧ ∀ i (h : i < bs.length), mem (a + i) = some bs[i] := by
  induction n generalizing a bs with
  | zero =>
      rw [probe_zero, Option.some.injEq, eq_comm, List.length_eq_zero_iff]
      constructor
      · rintro rfl
        exact ⟨rfl, fun i h => by simp at h⟩
      · exact fun h => h.1
  | succ n ih =>
      simp only [probe, Option.bind_eq_some_iff, Option.map_eq_some_iff]
      constructor
      · rintro ⟨b, hb, rest, hrest, rfl⟩
        obtain ⟨hlength, hbytes⟩ := ih.mp hrest
        refine ⟨by simp [hlength], ?_⟩
        intro i hi
        cases i with
        | zero => exact hb
        | succ i =>
            rw [show a + (i + 1) = a + 1 + i by omega]
            exact hbytes i (by simpa using hi)
      · rintro ⟨hlength, hbytes⟩
        cases bs with
        | nil => simp at hlength
        | cons b rest =>
            refine ⟨b, hbytes 0 (by simp), rest, ih.mpr ⟨by simpa using hlength, ?_⟩, rfl⟩
            intro i hi
            have h := hbytes (i + 1) (by simpa using hi)
            rwa [show a + (i + 1) = a + 1 + i by omega] at h

theorem length_of_probe (h : probe mem a n = some bs) : bs.length = n :=
  (probe_eq_some_iff.mp h).1

end LiveSurface
