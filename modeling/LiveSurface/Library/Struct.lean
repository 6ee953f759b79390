import LiveSurface.Library.Bytes
import Mathlib.Data.List.Nodup
import Mathlib.Data.List.Pairwise

/-!
# Structures with natural alignment

The members of a C structure stand one after the other, each at the next multiple of its alignment;
the size of the structure is a multiple of the largest one.

Main results:

- Theorem {lit}`place_disjoint`: members with different names do not overlap.
- Theorem {lit}`offset_eq`: a member is found by its name where it was placed.
-/

namespace LiveSurface
namespace Struct

structure Member where
  name : String
  size : Nat
  align : Nat
deriving DecidableEq

/-- The next multiple. -/
def alignUp (n a : Nat) : Nat := (n + (a - 1)) / a * a

/-- The members with their offsets, from an offset on. -/
def place : (off : Nat) → List Member → List (Member × Nat)
  | _, [] => []
  | off, m :: ms => (m, alignUp off m.align) :: place (alignUp off m.align + m.size) ms

/-- Where the last member ends. -/
def endOf : (off : Nat) → List Member → Nat
  | off, [] => off
  | off, m :: ms => endOf (alignUp off m.align + m.size) ms

/-- The largest alignment. -/
def alignment (ms : List Member) : Nat := (ms.map Member.align).foldr max 1

/-- {lit}`sizeof`. -/
def sizeof (ms : List Member) : Nat := alignUp (endOf 0 ms) (alignment ms)

/-- The offset of a member by its name. -/
def offset (ms : List Member) (name : String) : Nat :=
  (((place 0 ms).find? fun e => e.1.name = name).map Prod.snd).getD 0

/-- {lit}`sizeof` of a member. -/
def sizeOfMember (ms : List Member) (name : String) : Nat :=
  ((ms.find? fun m => m.name = name).map Member.size).getD 0

/-- Alignments are not zero. -/
def Aligned (ms : List Member) : Prop := ∀ m ∈ ms, 0 < m.align

theorem le_alignUp {n a : Nat} (ha : 0 < a) : n ≤ alignUp n a := by
  have hmod := Nat.div_add_mod (n + (a - 1)) a
  have hlt := Nat.mod_lt (n + (a - 1)) ha
  rw [alignUp, Nat.mul_comm]
  omega

theorem alignUp_of_dvd {n a : Nat} (ha : 0 < a) (h : a ∣ n) : alignUp n a = n := by
  obtain ⟨k, rfl⟩ := h
  rw [alignUp, Nat.mul_add_div ha, Nat.div_eq_of_lt (by omega), Nat.add_zero, Nat.mul_comm]

section Place

variable {ms : List Member} {off : Nat}

theorem map_fst_place (off : Nat) (ms : List Member) : (place off ms).map Prod.fst = ms := by
  induction ms generalizing off with
  | nil => rfl
  | cons m ms ih => rw [place, List.map_cons, ih]

theorem endOf_append (off : Nat) (ms ns : List Member) :
    endOf off (ms ++ ns) = endOf (endOf off ms) ns := by
  induction ms generalizing off with
  | nil => rfl
  | cons m ms ih => rw [List.cons_append, endOf, endOf, ih]

theorem le_of_mem_place (h : Aligned ms) {e : Member × Nat} (he : e ∈ place off ms) :
    off ≤ e.2 := by
  induction ms generalizing off with
  | nil => exact absurd he List.not_mem_nil
  | cons m ms ih =>
      have hm := h m List.mem_cons_self
      have hle := @le_alignUp off m.align hm
      rcases List.mem_cons.mp he with rfl | he
      · exact hle
      · have := ih (fun n hn => h n (List.mem_cons_of_mem _ hn)) he
        omega

theorem le_endOf (h : Aligned ms) (off : Nat) : off ≤ endOf off ms := by
  induction ms generalizing off with
  | nil => exact Nat.le_refl off
  | cons m ms ih =>
      have hle := @le_alignUp off m.align (h m List.mem_cons_self)
      have := ih (fun n hn => h n (List.mem_cons_of_mem _ hn)) (alignUp off m.align + m.size)
      rw [endOf]
      omega

/-- A member ends before the structure does. -/
theorem le_sizeof (h : Aligned ms) {e : Member × Nat} (he : e ∈ place 0 ms) :
    e.2 + e.1.size ≤ sizeof ms := by
  have hend : ∀ {off : Nat} {ns : List Member}, Aligned ns → e ∈ place off ns →
      e.2 + e.1.size ≤ endOf off ns := by
    intro off ns hns he
    induction ns generalizing off with
    | nil => exact absurd he List.not_mem_nil
    | cons m ns ih =>
        have htail : Aligned ns := fun n hn => hns n (List.mem_cons_of_mem _ hn)
        rcases List.mem_cons.mp he with rfl | he
        · exact le_endOf htail _
        · exact ih htail he
  have hpos : 0 < alignment ms := by
    rw [alignment]
    induction ms.map Member.align with
    | nil => exact Nat.one_pos
    | cons a as ih => exact Nat.lt_of_lt_of_le ih (Nat.le_max_right a _)
  exact Nat.le_trans (hend h he) (le_alignUp hpos)

/-- Every member has a place. -/
theorem exists_mem_place {m : Member} (hm : m ∈ ms) (off : Nat) : ∃ o, (m, o) ∈ place off ms := by
  rw [← map_fst_place off ms] at hm
  obtain ⟨e, he, rfl⟩ := List.mem_map.mp hm
  exact ⟨e.2, he⟩

/-- A member ends before the next one begins. -/
theorem place_pairwise (h : Aligned ms) (off : Nat) :
    (place off ms).Pairwise fun e f => e.2 + e.1.size ≤ f.2 := by
  induction ms generalizing off with
  | nil => exact .nil
  | cons m ms ih =>
      have hms : Aligned ms := fun n hn => h n (List.mem_cons_of_mem _ hn)
      exact .cons (fun e he => le_of_mem_place hms he) (ih hms _)

/-- Members do not overlap unless they have one name. -/
def Apart (e f : Member × Nat) : Prop :=
  e.1.name ≠ f.1.name → e.2 + e.1.size ≤ f.2 ∨ f.2 + f.1.size ≤ e.2

instance : Std.Symm Apart := ⟨fun _ _ h hne => (h hne.symm).symm⟩

/-- Members with different names do not overlap. -/
theorem place_disjoint (h : Aligned ms) {e f : Member × Nat} (he : e ∈ place off ms)
    (hf : f ∈ place off ms) (hne : e.1.name ≠ f.1.name) :
    e.2 + e.1.size ≤ f.2 ∨ f.2 + f.1.size ≤ e.2 := by
  have hpairs : (place off ms).Pairwise Apart :=
    (place_pairwise h off).imp fun hle _ => Or.inl hle
  exact hpairs.forall_of_forall (fun _ _ hxx => absurd rfl hxx) he hf hne

/-- A member is found by its name where it was placed. -/
theorem offset_eq (hnames : (ms.map Member.name).Nodup) {e : Member × Nat} (he : e ∈ place 0 ms) :
    offset ms e.1.name = e.2 := by
  have hnodup : ((place 0 ms).map fun e => e.1.name).Nodup := by
    have hmap : ((place 0 ms).map fun e => e.1.name) = ms.map Member.name := by
      rw [← map_fst_place 0 ms, List.map_map, map_fst_place]
      rfl
    rwa [hmap]
  rw [offset]
  cases hfind : (place 0 ms).find? fun f => f.1.name = e.1.name with
  | none =>
      rw [List.find?_eq_none] at hfind
      exact absurd (decide_eq_true rfl) (hfind e he)
  | some f =>
      have hname : f.1.name = e.1.name := by simpa using List.find?_some hfind
      have heq := List.inj_on_of_nodup_map hnodup (List.mem_of_find?_eq_some hfind) he hname
      rw [Option.map_some, Option.getD_some, heq]

/-- Every member is placed at its offset. -/
theorem mem_place_offset (hnames : (ms.map Member.name).Nodup) {m : Member} (hm : m ∈ ms) :
    (m, offset ms m.name) ∈ place 0 ms := by
  obtain ⟨o, ho⟩ := exists_mem_place hm 0
  have hoffset : offset ms m.name = o := offset_eq hnames ho
  rw [hoffset]
  exact ho

theorem sizeOfMember_eq (hnames : (ms.map Member.name).Nodup) {m : Member} (hm : m ∈ ms) :
    sizeOfMember ms m.name = m.size := by
  rw [sizeOfMember]
  cases hfind : ms.find? fun n => n.name = m.name with
  | none =>
      rw [List.find?_eq_none] at hfind
      exact absurd (decide_eq_true rfl) (hfind m hm)
  | some n =>
      have hname : n.name = m.name := by simpa using List.find?_some hfind
      have heq := List.inj_on_of_nodup_map hnames (List.mem_of_find?_eq_some hfind) hm hname
      rw [Option.map_some, Option.getD_some, heq]

end Place

end Struct
end LiveSurface
