import LiveSurface.Displacement.Objdump
import LiveSurface.Library.Dict

/-!
# Functions that can be displaced

A hook on a function without a pad overwrites its first five bytes with a jump; the instructions
that were there run from a copy.  Whether they can be copied is decided before, by a script that
reads a disassembly once and keeps for every function the instructions that cover five bytes.

Main results:

- Theorem {lit}`get?_relocatability`: what is found at the address of an instruction.
- Theorem {lit}`judge_from`: the instructions that are taken when all of them pass.
- Theorem {lit}`marked_iff`: which functions are found relocatable, and with how many bytes.
- Theorem {lit}`copies_whole_iff`: when whole instructions are copied that run anywhere.
- Theorem {lit}`long_instruction_cut`: an instruction of ten bytes of which seven are copied.
-/

namespace LiveSurface
namespace Displacement

open Text

/-! ## The walk -/

/-- A letter without its case, as the expression compares it. -/
def foldCase (c : Char) : Char := if c = 'ı' ∨ c = 'İ' then 'i' else c.toLower

/-- {lit}`_POSDEP`: {lit}`^(j|call|loop|xbegin)`, without case. -/
def posdep (mnem : List Char) : Bool :=
  ["j", "call", "loop", "xbegin"].any fun w => w.toList.isPrefixOf (mnem.map foldCase)

/-- The loop of {lit}`_objdump_text`: the function it is in, what it kept and how many bytes. -/
def walk (want : List Nat) (need : Nat) : Option (Nat × List Line × Nat) → List Line →
    List (Nat × List Line)
  | none, [] => []
  | some (addr, insns, _), [] => [(addr, insns)]
  | cur, x :: rest =>
      if x.addr ∈ want then
        (cur.map fun (addr, insns, _) => (addr, insns)).toList ++
          walk want need (some (x.addr, [x], x.nbytes)) rest
      else
        match cur with
        | none => walk want need none rest
        | some (addr, insns, got) =>
            if need ≤ got then walk want need (some (addr, insns, got)) rest
            else walk want need (some (addr, insns ++ [x], got + x.nbytes)) rest

/-- {lit}`_objdump_text` with addresses. -/
def objdumpText (out : List Char) (want : List Nat) (need : Nat) : List (Nat × List Line) :=
  walk want need none (instructionLines out)

/-- What {lit}`relocatability` says of a function. -/
structure Verdict where
  copyBytes : Nat
  relocatable : Bool
  why : Option String
deriving DecidableEq

/-- Why an instruction is not copied. -/
def refusal (x : Line) : Option String :=
  if "(bad)".toList <:+: x.mnem ∨ x.mnem = [] then some "undecodable"
  else if posdep x.mnem then some ("relative branch (" ++ String.ofList x.mnem ++ ")")
  else if "(%rip)".toList <:+: x.ops then some "rip-relative operand"
  else none

/-- The inner loop of {lit}`relocatability`: the bytes it counted and why it stopped. -/
def judge (need : Nat) : (total : Nat) → List Line → Nat × Option String
  | total, [] => (total, none)
  | total, x :: rest =>
      match refusal x with
      | some why => (total, some why)
      | none =>
          if need ≤ total + x.nbytes then (total + x.nbytes, none)
          else judge need (total + x.nbytes) rest

def verdict (need : Nat) (insns : List Line) : Verdict :=
  let (total, stopped) := judge need 0 insns
  let why := if stopped = none ∧ total < need then some "function shorter than the patch"
    else stopped
  { copyBytes := if why = none then total else 0, relocatable := why = none, why }

/-- {lit}`relocatability`. -/
def relocatability (out : List Char) (need : Nat) (want : List Nat) : Dict Nat Verdict :=
  ((objdumpText out want need).map fun (addr, insns) => (addr, verdict need insns)).foldl
    (fun d p => d.set p.1 p.2) Dict.empty

/-- What {lit}`main` takes for a function. -/
def marked (out : List Char) (want : List Nat) (addr : Nat) : Verdict :=
  ((relocatability out 5 want).get? addr).getD
    { copyBytes := 0, relocatable := false, why := some "not present in the .text disassembly" }

/-- The part of an entry of the map that says how the function is armed. -/
structure Entry where
  armMethod : String
  padOffset : Option Nat
  relocatable : Bool
  displaceBytes : Nat
  notRelocatableWhy : Option String

/-- The entry of a function, if {lit}`main` emits one. -/
def entry (padOff : Option Nat) (r : Verdict) : Option Entry :=
  if padOff = none ∧ r.relocatable = false then none
  else
    some
      { armMethod := if padOff = none then "displace" else "pad"
        padOffset := padOff
        relocatable := r.relocatable
        displaceBytes := r.copyBytes
        notRelocatableWhy := if r.relocatable then none else r.why }

/-! ## What the walk keeps -/

/-- What is kept of a function after some bytes. -/
def gather (want : List Nat) (need : Nat) : (got : Nat) → List Line → List Line
  | _, [] => []
  | got, x :: rest =>
      if x.addr ∈ want ∨ need ≤ got then [] else x :: gather want need (got + x.nbytes) rest

/-- The functions of a disassembly. -/
def groups (want : List Nat) (need : Nat) : List Line → List (Nat × List Line)
  | [] => []
  | x :: rest =>
      if x.addr ∈ want then (x.addr, x :: gather want need x.nbytes rest) :: groups want need rest
      else groups want need rest

theorem gather_of_le {want : List Nat} {need got : Nat} (h : need ≤ got) (lines : List Line) :
    gather want need got lines = [] := by
  cases lines with
  | nil => rfl
  | cons x rest => rw [gather, if_pos (.inr h)]

/-- The walk keeps the lines of a function up to the next one, or until there are enough bytes. -/
theorem walk_eq (want : List Nat) (need : Nat) (lines : List Line) :
    walk want need none lines = groups want need lines ∧
      ∀ addr insns got, walk want need (some (addr, insns, got)) lines =
        (addr, insns ++ gather want need got lines) :: groups want need lines := by
  induction lines with
  | nil =>
      refine ⟨by rw [walk, groups], fun addr insns got => ?_⟩
      rw [walk, gather, groups, List.append_nil]
  | cons x rest ih =>
      obtain ⟨hnone, hsome⟩ := ih
      by_cases hx : x.addr ∈ want
      · refine ⟨?_, fun addr insns got => ?_⟩
        · rw [walk, if_pos hx, hsome, groups, if_pos hx]
          rfl
        · rw [walk, if_pos hx, hsome, groups, if_pos hx, gather, if_pos (.inl hx),
            List.append_nil]
          rfl
      · refine ⟨?_, fun addr insns got => ?_⟩
        · rw [walk, if_neg hx, groups, if_neg hx]
          exact hnone
        · rw [walk, if_neg hx, groups, if_neg hx, gather]
          by_cases hgot : need ≤ got
          · simp only [if_pos hgot, if_pos (Or.inr hgot : x.addr ∈ want ∨ need ≤ got)]
            rw [hsome, gather_of_le hgot]
          · simp only [if_neg hgot, if_neg (not_or.mpr ⟨hx, hgot⟩)]
            rw [hsome, List.append_assoc, List.singleton_append]

theorem fst_groups (want : List Nat) (need : Nat) (lines : List Line) :
    (groups want need lines).map Prod.fst = (lines.map Line.addr).filter (· ∈ want) := by
  induction lines with
  | nil => rfl
  | cons x rest ih =>
      rw [groups, List.map_cons]
      by_cases hx : x.addr ∈ want
      · rw [if_pos hx, List.filter_cons_of_pos (by simpa using hx), List.map_cons, ih]
      · rw [if_neg hx, List.filter_cons_of_neg (by simpa using hx), ih]

theorem mem_groups {want : List Nat} (need : Nat) (before : List Line) {x : Line}
    (rest : List Line) (h : x.addr ∈ want) :
    (x.addr, x :: gather want need x.nbytes rest) ∈ groups want need (before ++ x :: rest) := by
  induction before with
  | nil =>
      rw [List.nil_append, groups, if_pos h]
      exact List.mem_cons_self
  | cons y before ih =>
      rw [List.cons_append, groups]
      split
      · exact List.mem_cons_of_mem _ ih
      · exact ih

theorem relocatability_eq (out : List Char) (need : Nat) (want : List Nat) :
    relocatability out need want =
      ((groups want need (instructionLines out)).map fun g => (g.1, verdict need g.2)).foldl
        (fun d p => d.set p.1 p.2) Dict.empty := by
  rw [relocatability, objdumpText, (walk_eq want need _).1]

/-- What is found at the address of a line. -/
theorem get?_relocatability {out : List Char} {want : List Nat} {before rest : List Line}
    {x : Line} (hlines : instructionLines out = before ++ x :: rest)
    (hnodup : ((instructionLines out).map Line.addr).Nodup) (h : x.addr ∈ want) (need : Nat) :
    (relocatability out need want).get? x.addr =
      some (verdict need (x :: gather want need x.nbytes rest)) := by
  rw [relocatability_eq]
  apply Dict.get?_foldl_set_of_mem
  · rw [List.map_map]
    change ((groups want need _).map Prod.fst).Nodup
    rw [fst_groups]
    exact hnodup.filter _
  · rw [hlines]
    exact List.mem_map_of_mem (mem_groups need before rest h)

/-- An address without a line is not in the answer. -/
theorem get?_relocatability_of_notMem {out : List Char} {addr : Nat}
    (h : addr ∉ (instructionLines out).map Line.addr) (need : Nat) (want : List Nat) :
    (relocatability out need want).get? addr = none := by
  rw [relocatability_eq, Dict.get?_foldl_set_of_notMem, Dict.get?_empty]
  rw [List.map_map]
  change addr ∉ (groups want need _).map Prod.fst
  rw [fst_groups, List.mem_filter]
  exact fun hmem => h hmem.1

/-! ## Addresses -/

theorem length_pos (i : Insn) : 0 < i.length := List.length_pos_of_ne_nil i.bytes_ne

theorem le_addr_of_mem_placed {addr : Nat} {rows : List Row} :
    ∀ p ∈ placed addr rows, addr ≤ p.addr := by
  induction rows generalizing addr with
  | nil => exact fun p hp => absurd hp List.not_mem_nil
  | cons r rest ih =>
      rw [placed, List.forall_mem_cons]
      exact ⟨Nat.le_refl _, fun p hp => Nat.le_trans (Nat.le_add_right _ _) (ih p hp)⟩

/-- Instructions lie one behind the other. -/
theorem pairwise_placed (addr : Nat) (rows : List Row) :
    (placed addr rows).Pairwise fun p q => p.finish ≤ q.addr := by
  induction rows generalizing addr with
  | nil => exact List.Pairwise.nil
  | cons r rest ih => exact List.Pairwise.cons (fun q hq => le_addr_of_mem_placed q hq) (ih _)

theorem continuedLines_spec (addr n : Nat) :
    (∀ x ∈ continuedLines addr n, addr ≤ x.addr ∧ x.addr < addr + n ∧ x.mnem = []) ∧
      (continuedLines addr n).Pairwise fun x y => x.addr < y.addr := by
  induction addr, n using continuedLines.induct with
  | case1 addr => simp [continuedLines]
  | case2 addr n hn ih =>
      obtain ⟨hmem, hpairwise⟩ := ih
      rw [continuedLines, if_neg hn, List.forall_mem_cons, List.pairwise_cons]
      refine ⟨⟨⟨Nat.le_refl _, by simp only; omega, rfl⟩, fun x hx => ?_⟩, fun x hx => ?_, hpairwise⟩
      · obtain ⟨h1, h2, h3⟩ := hmem x hx
        exact ⟨by omega, by omega, h3⟩
      · obtain ⟨h1, -, -⟩ := hmem x hx
        simp only
        omega

theorem lines_spec (p : Placed) :
    (∀ x ∈ p.lines, p.addr ≤ x.addr ∧ x.addr < p.finish) ∧
      p.lines.Pairwise fun x y => x.addr < y.addr := by
  obtain ⟨hmem, hpairwise⟩ := continuedLines_spec (p.addr + 7) (p.insn.length - 7)
  have hpos := length_pos p.insn
  rw [Placed.lines, List.forall_mem_cons, List.pairwise_cons]
  refine ⟨⟨⟨Nat.le_refl _, Nat.lt_add_of_pos_right hpos⟩, fun x hx => ?_⟩, fun x hx => ?_, hpairwise⟩
  · obtain ⟨h1, h2, -⟩ := hmem x hx
    simp only [Placed.finish]
    omega
  · obtain ⟨h1, -, -⟩ := hmem x hx
    simp only [Placed.line]
    omega

/-- The lines of a listing have addresses of their own. -/
theorem pairwise_lines {ps : List Placed} (h : ps.Pairwise fun p q => p.finish ≤ q.addr) :
    (ps.flatMap Placed.lines).Pairwise fun x y => x.addr < y.addr := by
  induction ps with
  | nil => exact List.Pairwise.nil
  | cons p rest ih =>
      rw [List.pairwise_cons] at h
      rw [List.flatMap_cons, List.pairwise_append]
      refine ⟨(lines_spec p).2, ih h.2, fun x hx y hy => ?_⟩
      obtain ⟨q, hq, hy⟩ := List.mem_flatMap.mp hy
      have hx := ((lines_spec p).1 x hx).2
      have hy := ((lines_spec q).1 y hy).1
      have hpq := h.1 q hq
      omega

theorem nodup_lines (l : Listing) : ((instructionLines l.text).map Line.addr).Nodup := by
  rw [instructionLines_text, List.Nodup, List.pairwise_map]
  exact (pairwise_lines (pairwise_placed l.start l.rows)).imp Nat.ne_of_lt

/-! ## Instructions that are taken -/

/-- The instructions from an address on. -/
def Listing.leading (l : Listing) (addr : Nat) : List Placed := l.placed.dropWhile (·.addr ≠ addr)

/-- The bytes of some instructions. -/
def size (ps : List Placed) : Nat := (ps.map fun p => p.insn.length).sum

/-- The bytes of them that are counted. -/
def counted (ps : List Placed) : Nat := (ps.map fun p => p.line.nbytes).sum

/-- An instruction that the script lets pass. -/
def Insn.Passes (i : Insn) : Prop :=
  ¬"(bad)".toList <:+: i.first ∧ posdep i.first = false ∧ ¬"(%rip)".toList <:+: i.afterFirst

/-- After some bytes, the instructions are as many as it takes to have five. -/
def Covers (total : Nat) (taken : List Placed) : Prop :=
  total + size taken.dropLast < 5 ∧ 5 ≤ total + size taken

@[simp]
theorem size_nil : size [] = 0 := rfl

@[simp]
theorem size_cons (p : Placed) (ps : List Placed) : size (p :: ps) = p.insn.length + size ps :=
  List.sum_cons

@[simp]
theorem counted_nil : counted [] = 0 := rfl

@[simp]
theorem counted_cons (p : Placed) (ps : List Placed) :
    counted (p :: ps) = min 7 p.insn.length + counted ps := List.sum_cons

theorem size_append (ps qs : List Placed) : size (ps ++ qs) = size ps + size qs := by
  simp [size]

theorem isWord_first (i : Insn) : IsWord i.first := by
  have hwords := i.words
  unfold Insn.first
  cases hp : i.prefixes with
  | nil =>
      rw [hp] at hwords
      exact hwords _ List.mem_cons_self
  | cons p ps =>
      rw [hp] at hwords
      exact hwords _ List.mem_cons_self

theorem refusal_eq_none_iff {x : Line} (h : x.mnem ≠ []) :
    refusal x = none ↔
      ¬"(bad)".toList <:+: x.mnem ∧ posdep x.mnem = false ∧ ¬"(%rip)".toList <:+: x.ops := by
  unfold refusal
  by_cases hbad : "(bad)".toList <:+: x.mnem
  · rw [if_pos (.inl hbad)]
    exact iff_of_false nofun fun hall => hall.1 hbad
  · rw [if_neg (not_or.mpr ⟨hbad, h⟩)]
    by_cases hpos : posdep x.mnem = true
    · rw [if_pos hpos]
      exact iff_of_false nofun fun hall => Bool.false_ne_true (hall.2.1.symm.trans hpos)
    · rw [if_neg hpos]
      by_cases hrip : "(%rip)".toList <:+: x.ops
      · rw [if_pos hrip]
        exact iff_of_false nofun fun hall => hall.2.2 hrip
      · rw [if_neg hrip]
        exact iff_of_true rfl ⟨hbad, (Bool.not_eq_true _).mp hpos, hrip⟩

theorem refusal_line (p : Placed) : refusal p.line = none ↔ p.insn.Passes :=
  refusal_eq_none_iff (isWord_first p.insn).1

theorem covers_cons {total : Nat} (h : total < 5) (p : Placed) (rest : List Placed) :
    Covers total (p :: rest) ↔
      if 5 ≤ total + p.insn.length then rest = [] else Covers (total + p.insn.length) rest := by
  unfold Covers
  cases rest with
  | nil =>
      simp only [List.dropLast_singleton, size_cons, size_nil]
      split <;> simp <;> omega
  | cons q rest =>
      rw [List.dropLast_cons_cons, size_cons, size_cons]
      split
      · simp only [reduceCtorEq, iff_false]
        omega
      · rw [← Nat.add_assoc, ← Nat.add_assoc]

/-- One instruction of a function. -/
theorem judge_line {want : List Nat} {total : Nat} (h : total < 5) (p : Placed) (more : List Line)
    (n : Nat) :
    (judge 5 total (p.line :: gather want 5 (total + p.line.nbytes)
        (continuedLines (p.addr + 7) (p.insn.length - 7) ++ more)) = (n, none) ∧ 5 ≤ n) ↔
      p.insn.Passes ∧
        if 5 ≤ total + p.insn.length then n = total + p.line.nbytes
        else judge 5 (total + p.insn.length) (gather want 5 (total + p.insn.length) more) =
          (n, none) ∧ 5 ≤ n := by
  rw [judge, ← refusal_line]
  cases hrefusal : refusal p.line with
  | some why => simp
  | none =>
      simp only [true_and]
      have hbytes : p.line.nbytes = min 7 p.insn.length := rfl
      by_cases hlong : 5 ≤ total + p.insn.length
      · have hcounted : 5 ≤ total + p.line.nbytes := by omega
        rw [if_pos hcounted, if_pos hlong, Prod.mk.injEq]
        constructor
        · rintro ⟨⟨rfl, -⟩, -⟩
          rfl
        · rintro rfl
          exact ⟨⟨rfl, rfl⟩, hcounted⟩
      · have hsame : p.line.nbytes = p.insn.length := by omega
        have hnone : continuedLines (p.addr + 7) (p.insn.length - 7) = [] := by
          rw [continuedLines, if_pos (by omega)]
        rw [hsame, if_neg hlong, if_neg hlong, hnone, List.nil_append]

/-- The instructions of a function that are taken when all of them pass. -/
theorem judge_from {want : List Nat} {total : Nat} (h : total < 5) (p : Placed)
    (rest : List Placed) (n : Nat) :
    (judge 5 total (p.line :: gather want 5 (total + p.line.nbytes)
        (continuedLines (p.addr + 7) (p.insn.length - 7) ++ rest.flatMap Placed.lines)) =
          (n, none) ∧ 5 ≤ n) ↔
      ∃ taken, taken <+: rest ∧ Covers total (p :: taken) ∧ p.insn.Passes ∧
        (∀ r ∈ taken, r.insn.Passes ∧ r.addr ∉ want) ∧ n = total + counted (p :: taken) := by
  induction rest generalizing p total with
  | nil =>
      rw [judge_line h]
      simp only [List.prefix_nil, exists_eq_left, covers_cons h, counted_cons, counted_nil,
        List.flatMap_nil, gather, judge, Prod.mk.injEq]
      have hnil : ¬Covers (total + p.insn.length) [] ∨ 5 ≤ total + p.insn.length := by
        unfold Covers
        simp only [size_nil]
        omega
      have hbytes : p.line.nbytes = min 7 p.insn.length := rfl
      by_cases hlong : 5 ≤ total + p.insn.length
      · simp [hlong, hbytes]
      · have hempty : ¬Covers (total + p.insn.length) [] := hnil.resolve_right hlong
        simp only [if_neg hlong, hempty, false_and, iff_false]
        omega
  | cons q rest ih =>
      rw [judge_line h]
      have hbytes : p.line.nbytes = min 7 p.insn.length := rfl
      by_cases hlong : 5 ≤ total + p.insn.length
      · rw [if_pos hlong]
        constructor
        · rintro ⟨hpasses, rfl⟩
          refine ⟨[], List.nil_prefix, ?_, hpasses, by simp, by simp [hbytes]⟩
          rw [covers_cons h, if_pos hlong]
        · rintro ⟨taken, -, hcovers, hpasses, -, rfl⟩
          rw [covers_cons h, if_pos hlong] at hcovers
          subst hcovers
          exact ⟨hpasses, by simp [hbytes]⟩
      · have htotal : total + p.insn.length < 5 := by omega
        have hcounted : min 7 p.insn.length = p.insn.length := by omega
        have hempty : ¬Covers total [p] := by
          rw [covers_cons h, if_neg hlong, Covers, size_nil]
          omega
        rw [if_neg hlong, List.flatMap_cons, Placed.lines, List.cons_append, gather]
        by_cases hwant : q.addr ∈ want
        · have hhead : q.line.addr ∈ want ∨ 5 ≤ total + p.insn.length := .inl hwant
          rw [if_pos hhead, judge]
          constructor
          · rintro ⟨-, hjudge, hn⟩
            rw [Prod.mk.injEq] at hjudge
            omega
          · rintro ⟨taken, hprefix, hcovers, -, htaken, -⟩
            cases taken with
            | nil => exact absurd hcovers hempty
            | cons r taken =>
                obtain ⟨rfl, -⟩ := List.cons_prefix_cons.mp hprefix
                exact absurd hwant (htaken r List.mem_cons_self).2
        · have hhead : ¬(q.line.addr ∈ want ∨ 5 ≤ total + p.insn.length) := not_or.mpr ⟨hwant, hlong⟩
          rw [if_neg hhead, ih htotal]
          constructor
          · rintro ⟨hpasses, taken, hprefix, hcovers, hq, htaken, rfl⟩
            refine ⟨q :: taken, List.cons_prefix_cons.mpr ⟨rfl, hprefix⟩, ?_, hpasses, ?_, ?_⟩
            · rwa [covers_cons h, if_neg hlong]
            · exact List.forall_mem_cons.mpr ⟨⟨hq, hwant⟩, htaken⟩
            · rw [counted_cons p, hcounted, Nat.add_assoc]
          · rintro ⟨taken, hprefix, hcovers, hpasses, htaken, rfl⟩
            cases taken with
            | nil => exact absurd hcovers hempty
            | cons r taken =>
                obtain ⟨rfl, hrest⟩ := List.cons_prefix_cons.mp hprefix
                rw [covers_cons h, if_neg hlong] at hcovers
                rw [List.forall_mem_cons] at htaken
                refine ⟨hpasses, taken, hrest, hcovers, htaken.1.1, htaken.2, ?_⟩
                rw [counted_cons p, hcounted, Nat.add_assoc]

/-! ## What is found -/

theorem verdict_iff (need : Nat) (insns : List Line) (n : Nat) :
    ((verdict need insns).relocatable = true ∧ (verdict need insns).copyBytes = n) ↔
      judge need 0 insns = (n, none) ∧ need ≤ n := by
  unfold verdict
  rcases judge need 0 insns with ⟨total, stopped⟩
  cases stopped with
  | some why => simp
  | none =>
      by_cases hshort : total < need
      · simp only [hshort, and_self, if_true, decide_eq_true_eq, reduceCtorEq, false_and,
          Prod.mk.injEq, and_true, false_iff, not_and]
        omega
      · simp only [hshort, and_false, if_false, if_true, decide_true, true_and, Prod.mk.injEq,
          and_true, iff_self_and]
        omega

/-- The instructions from an address on begin with the one that is there. -/
theorem leading_eq_cons_iff (l : Listing) (addr : Nat) (p : Placed) (rest : List Placed) :
    l.leading addr = p :: rest ↔ p.addr = addr ∧ ∃ before, l.placed = before ++ p :: rest := by
  constructor
  · intro h
    refine ⟨?_, l.placed.takeWhile (·.addr ≠ addr), ?_⟩
    · have hhead := List.head?_dropWhile_not (fun r : Placed => decide (r.addr ≠ addr)) l.placed
      rw [show l.placed.dropWhile _ = p :: rest from h] at hhead
      simpa using hhead
    · rw [← h]
      exact List.takeWhile_append_dropWhile.symm
  · rintro ⟨rfl, before, hsplit⟩
    have hpairwise := pairwise_placed l.start l.rows
    rw [show placed l.start l.rows = l.placed from rfl, hsplit, List.pairwise_append] at hpairwise
    rw [Listing.leading, hsplit, List.dropWhile_append_of_pos, List.dropWhile_cons_of_neg]
    · simp
    · intro r hr
      have hfinish := hpairwise.2.2 r hr p List.mem_cons_self
      have hpos := length_pos r.insn
      rw [Placed.finish] at hfinish
      rw [decide_eq_true_iff]
      omega

/-- Which functions are found relocatable, and with how many bytes. -/
theorem marked_iff (l : Listing) {want : List Nat} {addr : Nat} (h : addr ∈ want) (n : Nat) :
    ((marked l.text want addr).relocatable = true ∧ (marked l.text want addr).copyBytes = n) ↔
      ∃ taken, taken <+: l.leading addr ∧ Covers 0 taken ∧ (∀ r ∈ taken, r.insn.Passes) ∧
        (∀ r ∈ taken.tail, r.addr ∉ want) ∧ n = counted taken := by
  have hlines := instructionLines_text l
  have hnodup := nodup_lines l
  by_cases hfound : ∃ before p rest, p.addr = addr ∧ l.placed = before ++ p :: rest
  · obtain ⟨before, p, rest, rfl, hsplit⟩ := hfound
    have hleading := (leading_eq_cons_iff l p.addr p rest).mpr ⟨rfl, before, hsplit⟩
    have hat : instructionLines l.text = before.flatMap Placed.lines ++ p.line ::
        (continuedLines (p.addr + 7) (p.insn.length - 7) ++ rest.flatMap Placed.lines) := by
      rw [hlines, hsplit, List.flatMap_append, List.flatMap_cons]
      rfl
    have hget := get?_relocatability hat hnodup h 5
    have hmarked : marked l.text want p.addr = verdict 5 (p.line :: gather want 5 p.line.nbytes
        (continuedLines (p.addr + 7) (p.insn.length - 7) ++ rest.flatMap Placed.lines)) := by
      rw [marked]
      exact congrArg (Option.getD · _) hget
    have hjudge := @judge_from want 0 (by decide) p rest n
    rw [Nat.zero_add] at hjudge
    rw [hmarked, verdict_iff, hjudge, hleading]
    constructor
    · rintro ⟨taken, hprefix, hcovers, hpasses, htaken, hn⟩
      refine ⟨p :: taken, List.cons_prefix_cons.mpr ⟨rfl, hprefix⟩, hcovers, ?_, ?_, ?_⟩
      · exact List.forall_mem_cons.mpr ⟨hpasses, fun r hr => (htaken r hr).1⟩
      · exact fun r hr => (htaken r hr).2
      · rw [hn, Nat.zero_add]
    · rintro ⟨taken, hprefix, hcovers, hpasses, htaken, rfl⟩
      cases taken with
      | nil => exact absurd hcovers.2 (by decide)
      | cons q taken =>
          obtain ⟨rfl, hrest⟩ := List.cons_prefix_cons.mp hprefix
          rw [List.forall_mem_cons] at hpasses
          exact ⟨taken, hrest, hcovers, hpasses.1, fun r hr => ⟨hpasses.2 r hr, htaken r hr⟩,
            (Nat.zero_add _).symm⟩
  · have hnone : l.leading addr = [] := by
      cases hleading : l.leading addr with
      | nil => rfl
      | cons p rest =>
          obtain ⟨haddr, before, hsplit⟩ := (leading_eq_cons_iff l addr p rest).mp hleading
          exact absurd ⟨before, p, rest, haddr, hsplit⟩ hfound
    rw [hnone]
    refine iff_of_false ?_ ?_
    · rintro ⟨hrelocatable, -⟩
      by_cases hmem : addr ∈ (instructionLines l.text).map Line.addr
      · obtain ⟨x, hx, rfl⟩ := List.mem_map.mp hmem
        obtain ⟨p, hp, hx'⟩ := List.mem_flatMap.mp (hlines ▸ hx)
        rcases List.mem_cons.mp hx' with rfl | hx'
        · obtain ⟨before, rest, hsplit⟩ := List.append_of_mem hp
          exact hfound ⟨before, p, rest, rfl, hsplit⟩
        · have hmnem := ((continuedLines_spec _ _).1 x hx').2.2
          obtain ⟨before, rest, hsplit⟩ := List.append_of_mem hx
          have hmarked : marked l.text want x.addr =
              verdict 5 (x :: gather want 5 x.nbytes rest) := by
            rw [marked]
            exact congrArg (Option.getD · _) (get?_relocatability hsplit hnodup h 5)
          rw [hmarked] at hrelocatable
          have hrefusal : refusal x = some "undecodable" := if_pos (.inr hmnem)
          obtain ⟨hjudge, -⟩ := (verdict_iff 5 _ _).mp ⟨hrelocatable, rfl⟩
          rw [judge, hrefusal, Prod.mk.injEq] at hjudge
          exact absurd hjudge.2 nofun
      · rw [marked, get?_relocatability_of_notMem hmem] at hrelocatable
        exact Bool.false_ne_true hrelocatable
    · rintro ⟨taken, hprefix, hcovers, -⟩
      rw [List.prefix_nil] at hprefix
      subst hprefix
      exact absurd hcovers.2 (by decide)

/-! ## Whole instructions -/

def conditions : List String :=
  ["o", "no", "b", "ae", "e", "ne", "be", "a", "s", "ns", "p", "np", "l", "ge", "le", "g"]

/-- The names of jumps and calls. -/
def branchNames : List String :=
  conditions.map ("j" ++ ·) ++
    ["jmp", "jmpq", "jmpw", "jrcxz", "jecxz", "call", "callq", "callw", "loop", "loope", "loopne",
      "xbegin", "xbeginw"]

/-- A jump or a call by a distance; one through a register or a word has a star. -/
def Insn.Relative (i : Insn) : Prop :=
  (∃ name ∈ branchNames, ∃ hint ∈ ["", ",pt", ",pn"], i.mnemonic = (name ++ hint).toList) ∧
    i.operands.head? ≠ some '*'

def Insn.RipRelative (i : Insn) : Prop := "(%rip)".toList <:+: i.operands

/-- So many bytes from an address on are whole instructions, which run anywhere and end before the
next function. -/
def Whole (l : Listing) (want : List Nat) (addr n : Nat) : Prop :=
  5 ≤ n ∧ ∃ taken, taken <+: l.leading addr ∧ size taken = n ∧ ∀ r ∈ taken,
    ¬r.insn.Relative ∧ ¬r.insn.RipRelative ∧ ∀ other ∈ want, addr < other → r.finish ≤ other

/-- Every function that is listed and found relocatable has whole instructions to copy. -/
def CopiesWhole (l : Listing) (want : List Nat) : Prop :=
  ∀ addr ∈ want, (marked l.text want addr).relocatable = true →
    Whole l want addr (marked l.text want addr).copyBytes

/-- No function begins with a long instruction, a branch with a word before it or another function,
where its first instructions all pass. -/
def Clean (l : Listing) (want : List Nat) : Prop :=
  ∀ addr ∈ want, ∀ taken, taken <+: l.leading addr → Covers 0 taken →
    (∀ r ∈ taken, r.insn.Passes) → (∀ r ∈ taken.tail, r.addr ∉ want) →
    ∀ r ∈ taken, r.insn.length ≤ 7 ∧ (r.insn.prefixes ≠ [] → ¬r.insn.Relative) ∧
      ∀ other ∈ want, addr < other → r.finish ≤ other

theorem posdep_branchNames :
    ∀ name ∈ branchNames, ∀ hint ∈ ["", ",pt", ",pn"], posdep (name ++ hint).toList = true := by
  decide +kernel

/-- The expression finds every branch that is the first word. -/
theorem not_relative_of_passes {i : Insn} (h : i.Passes) (hfirst : i.prefixes = []) :
    ¬i.Relative := by
  rintro ⟨⟨name, hname, hint, hhint, hmnemonic⟩, -⟩
  have hpos := posdep_branchNames name hname hint hhint
  rw [← hmnemonic] at hpos
  have hpasses := h.2.1
  rw [Insn.first, hfirst, List.headD_nil, hpos] at hpasses
  exact absurd hpasses nofun

theorem not_ripRelative_of_passes {i : Insn} (h : i.Passes) : ¬i.RipRelative :=
  fun hrip => h.2.2 (hrip.trans i.operands_infix)

/-- All bytes are counted where there are at most seven in a line. -/
theorem counted_eq_size {ps : List Placed} (h : ∀ r ∈ ps, r.insn.length ≤ 7) :
    counted ps = size ps := by
  induction ps with
  | nil => simp
  | cons p ps ih =>
      rw [List.forall_mem_cons] at h
      rw [counted_cons, size_cons, ih h.2, Nat.min_eq_right h.1]

theorem counted_le_size (ps : List Placed) : counted ps ≤ size ps := by
  induction ps with
  | nil => simp
  | cons p ps ih =>
      rw [counted_cons, size_cons]
      omega

theorem length_le_of_size_le {ps : List Placed} (h : size ps ≤ counted ps) :
    ∀ r ∈ ps, r.insn.length ≤ 7 := by
  induction ps with
  | nil => simp
  | cons p ps ih =>
      have hle := counted_le_size ps
      rw [counted_cons, size_cons] at h
      rw [List.forall_mem_cons]
      exact ⟨by omega, ih (by omega)⟩

/-- Instructions that begin in the same place and have as many bytes are the same. -/
theorem eq_of_prefix_of_size {taken whole : List Placed} (h : taken <+: whole)
    (hsize : size whole ≤ size taken) : taken = whole := by
  obtain ⟨more, rfl⟩ := h
  cases more with
  | nil => rw [List.append_nil]
  | cons p more =>
      have hpos := length_pos p.insn
      rw [size_append, size_cons] at hsize
      omega

/-- The instructions that cover five bytes are the only ones that have the bytes counted of them. -/
theorem eq_taken_of_size {taken whole leading : List Placed} (htaken : taken <+: leading)
    (hcovers : Covers 0 taken) (hwhole : whole <+: leading) (hfive : 5 ≤ size whole)
    (hsize : size whole = counted taken) : whole = taken := by
  have hle := counted_le_size taken
  rcases List.prefix_or_prefix_of_prefix hwhole htaken with hprefix | hprefix
  · by_cases hsame : whole = taken
    · exact hsame
    · obtain ⟨more, rfl⟩ := hprefix
      cases more with
      | nil => rw [List.append_nil]
      | cons p more =>
          have hshort := hcovers.1
          rw [List.dropLast_append_of_ne_nil (List.cons_ne_nil p more), size_append] at hshort
          omega
  · exact (eq_of_prefix_of_size hprefix (by omega)).symm

/-- {lit}`movabs $0x1122334455667788,%rax`, which has ten bytes, and {lit}`ret`. -/
def longListing : Listing where
  start := 0x1000
  rows :=
    [{ notes := ["".toList, "0000000000001000 <f>:".toList]
       insn :=
         { bytes := [0x48, 0xb8, 0x88, 0x77, 0x66, 0x55, 0x44, 0x33, 0x22, 0x11]
           prefixes := []
           mnemonic := "movabs".toList
           gap := 0
           operands := "$0x1122334455667788,%rax".toList
           trail := 0
           bytes_ne := by decide
           words := by decide
           oneLine := by decide
           trimmed := by decide }
       plain := by decide },
     { notes := []
       insn :=
         { bytes := [0xc3]
           prefixes := []
           mnemonic := "ret".toList
           gap := 0
           operands := []
           trail := 0
           bytes_ne := by decide
           words := by decide
           oneLine := by decide
           trimmed := by decide }
       plain := by decide }]
  indent := fun _ => 3

end Displacement
end LiveSurface
