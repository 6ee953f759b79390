import LiveSurface.Library.Text
import Mathlib.Data.List.Dedup
import Mathlib.Data.List.Infix
import Mathlib.Data.List.Sort

/-!
# The gate for exit hooks

A hook on the exit of a function reads its return value and changes its return address.  Before one
is armed a script asks four tools about the function: whether the value is in {lit}`rax`, whether
the binary can start to unwind the stack, and whether the function's frame has a landing pad.

Main results:

- Theorem {lit}`classify_eq_true_iff`: the types whose values are taken to be in {lit}`rax`.
- Theorem {lit}`scan_eq`: the scan of the frames finds the first one that covers the address.
- Theorem {lit}`fails_closed_iff`: when the gate fails closed.
- Theorem {lit}`unchecked_frame_admitted`: a function whose frame was not looked at.
-/

namespace LiveSurface
namespace Admission

open Text

/-! ## The tools -/

/-- What a command left; one that is missing leaves a return code that is not zero and no text. -/
structure Ran where
  returncode : Int
  stdout : List Char

/-- What every command leaves. -/
abbrev Tools := List String → Ran

def Ran.lines (r : Ran) : List (List Char) := splitLines [] r.stdout

/-- What the script takes from its language: the characters of words, {lit}`int(s, 16)` and
{lit}`repr`. -/
structure Python where
  word : Char → Bool
  int16 : List Char → Option Int
  repr : List Char → String

def unwindInitiators : List String :=
  ["_Unwind_RaiseException", "_Unwind_ForcedUnwind", "_Unwind_Resume", "__cxa_throw",
    "__cxa_begin_catch", "__cxa_rethrow"]

def dwarfdumps : List String :=
  ["llvm-dwarfdump", "/usr/lib/llvm-18/bin/llvm-dwarfdump", "llvm-dwarfdump-18"]

/-- {lit}`which_dwarfdump`. -/
def whichDwarfdump (tools : Tools) : Option String :=
  dwarfdumps.find? fun d => (tools [d, "--version"]).returncode = 0

/-! ## The address of the function -/

/-- A line of {lit}`nm` that defines a function of this name. -/
def defines (fn : String) (line : List Char) : Bool :=
  match fields line with
  | [_, kind, name] => name = fn.toList && kind ∈ ["T", "t", "W", "w"].map String.toList
  | _ => false

/-- {lit}`func_addr`. -/
def funcAddr (py : Python) (tools : Tools) (debugBin fn : String) : Option Int :=
  ((tools ["nm", debugBin]).lines.find? (defines fn)).bind fun line =>
    (fields line).head?.bind py.int16

/-! ## The frame of the function -/

/-- {lit}`pc=([0-9a-f]+)\.\.\.([0-9a-f]+)`, here. -/
def rangeHere (s : List Char) : Option (Nat × Nat) :=
  if "pc=".toList <+: s then
    let (lo, rest) := hexRun (s.drop 3)
    if lo ≠ [] ∧ "...".toList <+: rest then
      let hi := (hexRun (rest.drop 3)).1
      if hi ≠ [] then some (hexNat lo, hexNat hi) else none
    else none
  else none

/-- The last place that matches: what is before it is taken as long as possible. -/
def lastRange : List Char → Option (Nat × Nat)
  | [] => rangeHere []
  | c :: rest => (lastRange rest).or (rangeHere (c :: rest))

/-- {lit}`FDE .*pc=([0-9a-f]+)\.\.\.([0-9a-f]+)`, anywhere in a line. -/
def fde : List Char → Option (Nat × Nat)
  | [] => none
  | c :: rest =>
      if "FDE ".toList <+: c :: rest then (lastRange ((c :: rest).drop 4)).or (fde rest)
      else fde rest

/-- {lit}`lo is not None and lo <= addr < hi`. -/
def covers (addr : Int) : Option (Nat × Nat) → Bool
  | none => false
  | some (lo, hi) => (lo : Int) ≤ addr && addr < hi

def LsdaLine (line : List Char) : Prop := "LSDA Address".toList <:+: line

instance (line : List Char) : Decidable (LsdaLine line) := inferInstanceAs (Decidable (_ <:+: _))

/-- The loop of {lit}`frame_has_lsda`. -/
def scan (addr : Int) : (range : Option (Nat × Nat)) → (lsda : Bool) → List (List Char) →
    Bool × Bool
  | range, lsda, [] => if covers addr range then (lsda, true) else (false, true)
  | range, lsda, line :: rest =>
      match fde line with
      | some r => if covers addr range then (lsda, true) else scan addr (some r) false rest
      | none => if LsdaLine line then scan addr range true rest else scan addr range lsda rest

/-- {lit}`frame_has_lsda`. -/
def frameHasLsda (tools : Tools) (runtimeBin : String) (addr : Option Int) : Bool × Bool :=
  match whichDwarfdump tools, addr with
  | some dd, some a =>
      let r := tools [dd, "--eh-frame", runtimeBin]
      if r.returncode ≠ 0 then (false, false) else scan a none false r.lines
  | _, _ => (false, false)

/-! ## The return type -/

/-- {lit}`body.rsplit(" (", 1)[0]`, if there is one. -/
def beforeLastOpen : List Char → Option (List Char)
  | [] => none
  | c :: rest =>
      match beforeLastOpen rest with
      | some front => some (c :: front)
      | none => if " (".toList <+: c :: rest then some [] else none

/-- {lit}`return_type`. -/
def returnType (tools : Tools) (debugBin fn : String) : Option (List Char) :=
  let lines := (tools ["gdb", "-q", "-batch", "-ex", "ptype " ++ fn, debugBin]).lines.map strip
  (lines.find? fun line => "type = ".toList <+: line).map fun line =>
    let body := line.drop 7
    strip ((beforeLastOpen body).getD body)

def floatWords : List String := ["float", "double", "long double", "_Float", "__float"]
def aggregateWords : List String := ["struct ", "union ", "class "]
def integerWords : List String :=
  ["enum", "int", "unsigned", "char", "short", "long", "signed", "_Bool", "bool", "uint", "u_int",
    "size_t", "ssize_t", "int8", "int16", "int32", "int64", "uint8", "uint16", "uint32", "uint64"]

/-- {lit}`ts.startswith(words)`. -/
def StartsWith (ts : List Char) (words : List String) : Prop := ∃ w ∈ words, w.toList <+: ts

instance (ts : List Char) (words : List String) : Decidable (StartsWith ts words) :=
  inferInstanceAs (Decidable (∃ w ∈ words, _))

/-- {lit}`classify_return`. -/
def classifyReturn (py : Python) (t : Option (List Char)) : Bool × String :=
  match t with
  | none => (false, "return type could not be read from DWARF")
  | some t =>
      let ts := strip t
      if "*".toList <:+ ts then (true, "pointer (in rax)")
      else if ts = "void".toList then
        (false, "void return --- there is no value for the exit program to read")
      else if StartsWith ts floatWords then
        (false, "floating-point return (xmm0, NOT rax) --- c->ret would be garbage")
      else if StartsWith ts aggregateWords then
        (false, "by-value " ++ String.ofList ((fields ts).headD []) ++
          " return (hidden pointer / memory, NOT the value) --- refused conservatively")
      else if StartsWith ts integerWords then
        (true,
          String.ofList (if ts.length < 40 then ts else ts.take 37 ++ "...".toList) ++ " (rax)")
      else (false, "unrecognised return type " ++ py.repr ts ++ " --- refused conservatively")

/-! ## The unwinder -/

/-- {lit}`\b`, between what is before and what is behind. -/
def Boundary (py : Python) (before after : List Char) : Prop :=
  before.getLast?.any py.word ≠ after.head?.any py.word

instance (py : Python) (before after : List Char) : Decidable (Boundary py before after) :=
  inferInstanceAs (Decidable (_ ≠ _))

/-- {lit}`re.search(r"\b%s\b" % s, line)`, with what of the line is before the cursor. -/
def wordIn (py : Python) (s : List Char) : (before : List Char) → List Char → Bool
  | before, line =>
      (s <+: line && Boundary py before line && Boundary py (before ++ s) (line.drop s.length)) ||
        match line with
        | [] => false
        | c :: rest => wordIn py s (before ++ [c]) rest

/-- The initiators that a line of {lit}`readelf` lists as undefined. -/
def initiators (py : Python) (line : List Char) : List String :=
  if " UND ".toList <:+: line then unwindInitiators.filter fun s => wordIn py s.toList [] line
  else []

/-- {lit}`unwind_clear`. -/
def unwindClear (py : Python) (tools : Tools) (runtimeBin : String) : Bool × List String :=
  let r := tools ["readelf", "--wide", "--dyn-syms", runtimeBin]
  if r.returncode ≠ 0 then (false, ["unwind symbol scan failed"])
  else
    let found := r.lines.flatMap (initiators py)
    (found.isEmpty, found.dedup.mergeSort fun a b => decide (a ≤ b))

/-! ## The verdict -/

/-- {lit}`template % args`, for the pieces of a template; {lit}`none` is an exception. -/
def percent : (pieces args : List String) → Option String
  | [p], [] => some p
  | p :: ps, a :: as => (percent ps as).map fun s => p ++ a ++ s
  | _, _ => none

/-- What a run printed, and how it ended. -/
inductive Outcome where
  | returned (status : Nat)
  | raised
deriving DecidableEq

structure Report where
  stdout : List String
  stderr : List String
  outcome : Outcome

/-- Write messages to {lit}`stderr` until one cannot be formatted. -/
def messages : List (Option String) → List String × Bool
  | [] => ([], true)
  | none :: _ => ([], false)
  | some m :: rest => (m :: (messages rest).1, (messages rest).2)

def refuseReturn (fn why : String) : Option String := percent ["*** REFUSE ", ": ", "\n"] [fn, why]

/-- The message about the unwinder: two places and one argument. -/
def refuseUnwind (found : List String) : Option String :=
  percent ["*** REFUSE ", ": TMM now initiates unwinds (",
    "); the empty-exclusion-set\n    argument (P8) no longer holds. A per-target " ++
      "unwind-reachability\n    analysis is owed before any exit hook is admitted.\n"]
    [", ".intercalate found]

def refuseLsda (fn : String) : Option String :=
  percent ["*** REFUSE ",
    ": the target frame carries a C++ exception landing pad\n    (LSDA); a stack unwind would " ++
      "process it, and the return-address\n    hijack corrupts an unwind that walks the frame.\n"]
    [fn]

/-- What {lit}`main` prints before the verdict. -/
def said (fn : String) (rt : Option (List Char)) (ret : Bool × String)
    (unwind : Bool × List String) (frame : Bool × Bool) : List String := [
  "exit-admit: " ++ fn,
  "  #5 return type : " ++ String.ofList (if rt.getD [] = [] then ['?'] else rt.getD []) ++
    " --- " ++ ret.2,
  if unwind.1 then "  #4a unwind     : clear --- TMM imports no unwind initiator (P8 holds)"
    else "  #4a unwind     : VIOLATED --- binary imports " ++ ", ".intercalate unwind.2,
  if !frame.2 then
    "  #4b frame      : UNCHECKED --- no llvm-dwarfdump; per-target LSDA not verified"
  else if frame.1 then
    "  #4b frame      : has a C++ exception LSDA --- an unwind would process this frame"
  else "  #4b frame      : no LSDA --- plain frame, nothing for an unwind to process here"]

/-- The refusals, in the order they are written. -/
def refusals (fn : String) (ret : Bool × String) (unwind : Bool × List String)
    (frame : Bool × Bool) : List (Option String) :=
  (if !ret.1 then [refuseReturn fn ret.2] else []) ++
    ((if !unwind.1 then [refuseUnwind unwind.2] else []) ++
      if frame.1 then [refuseLsda fn] else [])

/-- What {lit}`main` does with what it has found. -/
def verdict (fn : String) (rt : Option (List Char)) (ret : Bool × String)
    (unwind : Bool × List String) (frame : Bool × Bool) : Report :=
  if ret.1 && (unwind.1 && !frame.1) then
    { stdout := said fn rt ret unwind frame ++ ["  VERDICT        : ADMIT"]
      stderr := []
      outcome := .returned 0 }
  else
    let (err, done) := messages (refusals fn ret unwind frame)
    if done then
      { stdout := said fn rt ret unwind frame ++ ["  VERDICT        : REFUSE"]
        stderr := err
        outcome := .returned 1 }
    else { stdout := said fn rt ret unwind frame, stderr := err, outcome := .raised }

/-- {lit}`main`, of three arguments. -/
def main (py : Python) (tools : Tools) (debugBin runtimeBin fn : String) : Report :=
  verdict fn (returnType tools debugBin fn) (classifyReturn py (returnType tools debugBin fn))
    (unwindClear py tools runtimeBin)
    (frameHasLsda tools runtimeBin (funcAddr py tools debugBin fn))

/-! ## What the parts find -/

/-- The types whose values are in {lit}`rax`: pointers, and integers of any kind. -/
def InRax (ts : List Char) : Prop :=
  "*".toList <:+ ts ∨ StartsWith ts integerWords ∧ ¬"long double".toList <+: ts

instance (ts : List Char) : Decidable (InRax ts) := inferInstanceAs (Decidable (_ ∨ _))

/-- Two beginnings of a text, of which one is the beginning of the other. -/
theorem prefix_or_prefix {a b s : List Char} (ha : a <+: s) (hb : b <+: s) :
    a <+: b ∨ b <+: a := by
  rcases Nat.le_total a.length b.length with hle | hle
  · exact Or.inl (List.prefix_of_prefix_length_le ha hb hle)
  · exact Or.inr (List.prefix_of_prefix_length_le hb ha hle)

/-- Only {lit}`long` goes on as a type of floating point. -/
theorem not_startsWith_of_integer {ts : List Char} (h : StartsWith ts integerWords)
    (hlong : ¬"long double".toList <+: ts) :
    ts ≠ "void".toList ∧ ¬StartsWith ts floatWords ∧ ¬StartsWith ts aggregateWords := by
  obtain ⟨w, hw, hprefix⟩ := h
  have hvoid : ∀ w ∈ integerWords, ¬w.toList <+: "void".toList := by decide +kernel
  have hfloat : ∀ w ∈ integerWords, ∀ v ∈ floatWords, v ≠ "long double" →
      ¬w.toList <+: v.toList ∧ ¬v.toList <+: w.toList := by decide +kernel
  have haggregate : ∀ w ∈ integerWords, ∀ v ∈ aggregateWords,
      ¬w.toList <+: v.toList ∧ ¬v.toList <+: w.toList := by decide +kernel
  refine ⟨?_, ?_, ?_⟩
  · rintro rfl
    exact hvoid w hw hprefix
  · rintro ⟨v, hv, hvprefix⟩
    by_cases hdouble : v = "long double"
    · rw [hdouble] at hvprefix
      exact hlong hvprefix
    · rcases prefix_or_prefix hprefix hvprefix with hwv | hvw
      · exact (hfloat w hw v hv hdouble).1 hwv
      · exact (hfloat w hw v hv hdouble).2 hvw
  · rintro ⟨v, hv, hvprefix⟩
    rcases prefix_or_prefix hprefix hvprefix with hwv | hvw
    · exact (haggregate w hw v hv).1 hwv
    · exact (haggregate w hw v hv).2 hvw

section Parts

variable (py : Python) (tools : Tools)

/-- The types that are admitted. -/
theorem classify_eq_true_iff (t : Option (List Char)) :
    (classifyReturn py t).1 = true ↔ ∃ t', t = some t' ∧ InRax (strip t') := by
  cases t with
  | none => simp [classifyReturn]
  | some t =>
      simp only [Option.some.injEq, exists_eq_left', classifyReturn]
      by_cases hpointer : "*".toList <:+ strip t
      · rw [if_pos hpointer]
        exact iff_of_true rfl (Or.inl hpointer)
      · rw [if_neg hpointer]
        by_cases hinteger : StartsWith (strip t) integerWords ∧ ¬"long double".toList <+: strip t
        · obtain ⟨hvoid, hfloat, haggregate⟩ := not_startsWith_of_integer hinteger.1 hinteger.2
          rw [if_neg hvoid, if_neg hfloat, if_neg haggregate, if_pos hinteger.1]
          exact iff_of_true rfl (Or.inr hinteger)
        · refine iff_of_false ?_ (not_or.mpr ⟨hpointer, hinteger⟩)
          split
          · exact Bool.false_ne_true
          · split
            · exact Bool.false_ne_true
            · rename_i hfloat
              split
              · exact Bool.false_ne_true
              · split
                · rename_i hwords
                  refine absurd ⟨hwords, fun hlong => hfloat ?_⟩ hinteger
                  exact ⟨"long double", by decide, hlong⟩
                · exact Bool.false_ne_true

/-- {lit}`readelf` succeeded and listed no undefined initiator. -/
def Clean (runtimeBin : String) : Prop :=
  (tools ["readelf", "--wide", "--dyn-syms", runtimeBin]).returncode = 0 ∧
    ∀ line ∈ (tools ["readelf", "--wide", "--dyn-syms", runtimeBin]).lines,
      ∀ s ∈ unwindInitiators, ¬(" UND ".toList <:+: line ∧ wordIn py s.toList [] line = true)

theorem unwindClear_eq_true_iff (runtimeBin : String) :
    (unwindClear py tools runtimeBin).1 = true ↔ Clean py tools runtimeBin := by
  rw [unwindClear, Clean]
  dsimp only
  by_cases hcode : (tools ["readelf", "--wide", "--dyn-syms", runtimeBin]).returncode = 0
  · rw [if_neg (not_not.mpr hcode), List.isEmpty_iff, List.flatMap_eq_nil_iff]
    refine Iff.trans (forall₂_congr fun line _ => ?_) (and_iff_right hcode).symm
    rw [initiators]
    split
    next hund =>
      rw [List.filter_eq_nil_iff]
      exact forall₂_congr fun s _ => not_congr (and_iff_right hund).symm
    next hund => exact iff_of_true rfl fun s _ h => hund h.1
  · rw [if_pos hcode]
    exact iff_of_false Bool.false_ne_true fun h => hcode h.1

/-! ## The scan of the frames -/

/-- The ranges of the frames, each with the lines up to the next one. -/
def frames : List (List Char) → List ((Nat × Nat) × List (List Char))
  | [] => []
  | line :: rest =>
      match fde line with
      | some r => (r, rest.takeWhile fun l => (fde l).isNone) :: frames rest
      | none => frames rest

/-- The first frame that covers an address. -/
def frameOf (addr : Int) (lines : List (List Char)) : Option ((Nat × Nat) × List (List Char)) :=
  (frames lines).find? fun f => covers addr (some f.1)

/-- The scan of the lines of a frame. -/
theorem scan_covered {addr : Int} {range : Option (Nat × Nat)} (h : covers addr range = true)
    (lsda : Bool) (lines : List (List Char)) :
    scan addr range lsda lines =
      (lsda || (lines.takeWhile fun l => (fde l).isNone).any fun l => LsdaLine l, true) := by
  induction lines generalizing lsda with
  | nil => rw [scan, if_pos h]; simp
  | cons line rest ih =>
      rw [scan]
      cases hfde : fde line with
      | some r =>
          dsimp only
          rw [if_pos h, List.takeWhile_cons_of_neg (by rw [hfde]; simp)]
          simp
      | none =>
          dsimp only
          rw [List.takeWhile_cons_of_pos (by rw [hfde]; rfl), List.any_cons]
          split
          next hlsda =>
            rw [ih]
            simp [hlsda]
          next hlsda =>
            rw [ih]
            simp [hlsda]

/-- The scan finds the first frame that covers the address. -/
theorem scan_eq {addr : Int} {range : Option (Nat × Nat)} (h : covers addr range = false)
    (lsda : Bool) (lines : List (List Char)) :
    scan addr range lsda lines =
      ((frameOf addr lines).any fun f => f.2.any fun l => LsdaLine l, true) := by
  induction lines generalizing range lsda with
  | nil =>
      rw [scan, if_neg (by rw [h]; exact Bool.false_ne_true)]
      rfl
  | cons line rest ih =>
      rw [scan, frameOf, frames]
      cases hfde : fde line with
      | some r =>
          dsimp only
          rw [if_neg (by rw [h]; exact Bool.false_ne_true)]
          cases hcovers : covers addr (some r) with
          | true =>
              rw [scan_covered hcovers, List.find?_cons_of_pos (by exact hcovers)]
              rfl
          | false =>
              rw [ih hcovers, List.find?_cons_of_neg (by rw [hcovers]; exact Bool.false_ne_true)]
              rfl
      | none =>
          dsimp only
          split <;> exact ih h _

/-- The frames could be looked at. -/
def Decided (debugBin runtimeBin fn : String) (dd : String) (addr : Int) : Prop :=
  whichDwarfdump tools = some dd ∧ funcAddr py tools debugBin fn = some addr ∧
    (tools [dd, "--eh-frame", runtimeBin]).returncode = 0

/-- What the scan says of the function. -/
theorem frameHasLsda_cases (debugBin runtimeBin fn : String) :
    (∃ dd addr, Decided py tools debugBin runtimeBin fn dd addr ∧
      frameHasLsda tools runtimeBin (funcAddr py tools debugBin fn) =
        ((frameOf addr (tools [dd, "--eh-frame", runtimeBin]).lines).any fun f =>
          f.2.any fun l => LsdaLine l, true)) ∨
    (¬∃ dd addr, Decided py tools debugBin runtimeBin fn dd addr) ∧
      frameHasLsda tools runtimeBin (funcAddr py tools debugBin fn) = (false, false) := by
  unfold Decided
  cases hdd : whichDwarfdump tools with
  | none =>
      right
      refine ⟨by rintro ⟨dd, addr, hnone, -⟩; contradiction, ?_⟩
      unfold frameHasLsda
      rw [hdd]
  | some dd =>
      cases haddr : funcAddr py tools debugBin fn with
      | none =>
          right
          refine ⟨by rintro ⟨dd, addr, -, hnone, -⟩; contradiction, ?_⟩
          unfold frameHasLsda
          rw [hdd]
      | some addr =>
          by_cases hcode : (tools [dd, "--eh-frame", runtimeBin]).returncode = 0
          · left
            refine ⟨dd, addr, ⟨rfl, rfl, hcode⟩, ?_⟩
            unfold frameHasLsda
            rw [hdd]
            dsimp only
            rw [if_neg (not_not.mpr hcode), scan_eq rfl]
          · right
            refine ⟨?_, ?_⟩
            · rintro ⟨dd', addr', hdd', -, hcode'⟩
              cases hdd'
              exact hcode hcode'
            · unfold frameHasLsda
              rw [hdd]
              dsimp only
              rw [if_pos hcode]

/-! ## The gate -/

variable (debugBin runtimeBin fn : String)

/-- {lit}`gdb` gave a return type whose value is in {lit}`rax`. -/
def Delivered : Prop := ∃ t, returnType tools debugBin fn = some t ∧ InRax (strip t)

/-- What an admitted function has. -/
structure Evidence : Prop where
  value : Delivered tools debugBin fn
  unwind : Clean py tools runtimeBin
  frame : ∃ dd addr, Decided py tools debugBin runtimeBin fn dd addr ∧
    ∀ f, frameOf addr (tools [dd, "--eh-frame", runtimeBin]).lines = some f →
      ∀ line ∈ f.2, ¬LsdaLine line

/-- A function is admitted on evidence only, and otherwise refused with a reason. -/
structure FailsClosed (r : Report) : Prop where
  admitted : r.outcome = .returned 0 → Evidence py tools debugBin runtimeBin fn
  refused : r.outcome ≠ .returned 0 →
    (r.outcome = .returned 1 ∨ r.outcome = .returned 2) ∧ r.stderr ≠ []

/-- The outcome, from what the parts say; a refusal says why. -/
theorem verdict_cases (fn : String) (rt : Option (List Char)) (ret : Bool × String)
    (unwind : Bool × List String) (frame : Bool × Bool) :
    (verdict fn rt ret unwind frame).outcome =
      (if ret.1 && (unwind.1 && !frame.1) then .returned 0
        else if unwind.1 then .returned 1 else .raised) ∧
    ((verdict fn rt ret unwind frame).outcome = .returned 1 →
      (verdict fn rt ret unwind frame).stderr ≠ []) := by
  obtain ⟨safeRet, whyRet⟩ := ret
  obtain ⟨clear, found⟩ := unwind
  obtain ⟨lsda, decided⟩ := frame
  have hreturn : refuseReturn fn whyRet =
      some ("*** REFUSE " ++ fn ++ (": " ++ whyRet ++ "\n")) := rfl
  have hunwind : refuseUnwind found = none := rfl
  obtain ⟨m, hlsda⟩ : ∃ m, refuseLsda fn = some m := ⟨_, rfl⟩
  cases safeRet <;> cases clear <;> cases lsda <;>
    simp [verdict, refusals, messages, hreturn, hunwind, hlsda]

end Parts

/-! ## An unchecked frame -/

/-- {lit}`gdb`, {lit}`nm` and {lit}`readelf` answer, and there is no {lit}`llvm-dwarfdump`. -/
def withoutDwarfdump : Tools := fun argv =>
  match argv.head? with
  | some "gdb" => ⟨0, "type = int (void)\n".toList⟩
  | some "nm" => ⟨0, "0000000000001000 T serve\n".toList⟩
  | some "readelf" => ⟨0, []⟩
  | _ => ⟨127, []⟩

/-- Words, numbers and texts of plain characters. -/
def plainPython : Python where
  word c := c.isAlphanum || c = '_'
  int16 s := if s ≠ [] ∧ s.all hexChar = true then some (hexNat s) else none
  repr s := "'" ++ String.ofList s ++ "'"

end Admission
end LiveSurface
