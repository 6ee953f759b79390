import LiveSurface.Library.Decide
import LiveSurface.Library.Hexadecimal
import LiveSurface.Library.Machine

/-!
# Reads of process memory

A program reads memory of the process only inside a mapping that is readable.  A thread reads the
mappings from {lit}`/proc/self/maps`, keeps them, and reads them once more where an address is in none
of them.

Main results:

- Theorem {lit}`lsRangesLoad_table`: what a table holds of the text it was read from.
- Theorem {lit}`probeRead_run`: in every run, what is read was readable when the thread last looked,
  and what is refused was in no mapping then.
-/

namespace LiveSurface
namespace Map

open Hexadecimal (isDigit digitValue number)

/-! ## The listing -/

/-- {lit}`LS_RANGES_MAX`. -/
def lsRangesMax : Nat := 64

/-- {lit}`struct ls_range`. -/
structure LsRange where
  lo : UInt64
  hi : UInt64
  lt : lo < hi
deriving DecidableEq

def isspace (c : Char) : Bool := decide (c = ' ' ∨ 9 ≤ c.toNat ∧ c.toNat ≤ 13)

/-- {lit}`0x` before a digit is not part of the number. -/
def skipBase : List Char → List Char
  | c :: x :: d :: rest =>
      if c = '0' ∧ (x = 'x' ∨ x = 'X') ∧ isDigit d then d :: rest else c :: x :: d :: rest
  | s => s

/-- {lit}`strtoull` at base 16: the number and what is left, or {lit}`none` where it reads none. -/
def strtoull16 (p : List Char) : Option (UInt64 × List Char) :=
  let s := p.dropWhile isspace
  let u := skipBase (if s.head? = some '-' ∨ s.head? = some '+' then s.tail else s)
  let n := number (u.takeWhile isDigit)
  if u.takeWhile isDigit = [] then none
  else
    let v := if 2 ^ 64 ≤ n then 2 ^ 64 - 1 else if s.head? = some '-' then 2 ^ 64 - n else n
    some (UInt64.ofNat v, u.dropWhile isDigit)

/-- The body of the loop of {lit}`ls_ranges_load`, up to the merge. -/
def mapsLine (line : List Char) : Option LsRange :=
  match strtoull16 line with
  | some (lo, '-' :: p) =>
      match strtoull16 p with
      | some (hi, q) =>
          if h : lo < hi then
            if (q.dropWhile (· = ' ')).head? = some 'r' then some { lo, hi, lt := h } else none
          else none
      | none => none
  | _ => none

/-- What {lit}`fgets` returns call by call, with room for so many characters; it ends a line early
where the room does. -/
def fgetsLines : (room : Nat) → (before : List Char) → List Char → List (List Char)
  | _, before, [] => if before = [] then [] else [before]
  | room, before, c :: rest =>
      if c = '\n' ∨ room ≤ 1 then (before ++ [c]) :: fgetsLines 511 [] rest
      else fgetsLines (room - 1) (before ++ [c]) rest

/-- A range is merged with the one before where they abut.  The last range is the first here. -/
def addRange (rs : List LsRange) (x : LsRange) : List LsRange :=
  match rs with
  | [] => [x]
  | last :: rest =>
      if h : last.hi = x.lo then
        { lo := last.lo, hi := x.hi, lt := UInt64.lt_trans (h ▸ last.lt) x.lt } :: rest
      else x :: last :: rest

/-- The loop of {lit}`ls_ranges_load`. -/
def loadLines (rs : List LsRange) : List (List Char) → List LsRange
  | [] => rs
  | line :: rest =>
      if rs.length < lsRangesMax then loadLines ((mapsLine line).elim rs (addRange rs)) rest else rs

/-- {lit}`ls_ranges_load`, of the text of the file if it is opened. -/
def lsRangesLoad (maps : Option (List Char)) : List LsRange × Int :=
  let rs := maps.elim [] fun text => loadLines [] (fgetsLines 511 [] text)
  (rs, if rs = [] then -1 else 0)

/-! ## A thread -/

/-- What a thread keeps. -/
structure RangesThread where
  gLsRanges : Option (List LsRange)
  gLsRangesFailed : Bool
  /-- The text the table was read from, if one was opened; the source does not keep it. -/
  origin : Option (List Char)

/-- What the system answers to an attempt. -/
structure System where
  mapped : Bool
  maps : Option (List Char)

/-- A table is read. -/
def reload (maps : Option (List Char)) : Option (List LsRange) × RangesThread :=
  let (rs, ret) := lsRangesLoad maps
  (if ret = 0 then some rs else none,
    { gLsRanges := some rs, gLsRangesFailed := decide (ret ≠ 0), origin := maps })

/-- {lit}`ls_ranges_current`. -/
def lsRangesCurrent (refresh : Bool) (sys : System) (t : RangesThread) :
    Option (List LsRange) × RangesThread :=
  if t.gLsRangesFailed = true ∧ refresh = false then (none, t)
  else
    match t.gLsRanges with
    | none => if sys.mapped then reload sys.maps else (none, { t with gLsRangesFailed := true })
    | some rs => if refresh then reload sys.maps else (some rs, t)

/-- One range of the table holds what is between two addresses. -/
def Inside (rs : List LsRange) (lo hi : UInt64) : Prop := ∃ x ∈ rs, x.lo ≤ lo ∧ hi ≤ x.hi

instance (rs : List LsRange) (lo hi : UInt64) : Decidable (Inside rs lo hi) :=
  List.decidableBEx _ rs

/-- {lit}`ls_addr_readable`. -/
def lsAddrReadable (addr size : UInt64) (first second : System) (t : RangesThread) :
    Bool × RangesThread :=
  if size = 0 ∨ addr = 0 ∨ addr + size < addr then (false, t)
  else
    match lsRangesCurrent false first t with
    | (none, t) => (false, t)
    | (some rs, t) =>
        if Inside rs addr (addr + size) then (true, t)
        else
          match lsRangesCurrent true second t with
          | (none, t) => (false, t)
          | (some rs, t) => (decide (Inside rs addr (addr + size)), t)

/-- A call of {lit}`ls_h_probe_read`, with what it meets. -/
structure ProbeRead where
  dst : UInt64
  size : UInt64
  src : UInt64
  memory : Memory
  first : System
  second : System

/-- {lit}`ls_h_probe_read`: its answer, the memory after it, and what the thread keeps. -/
def lsHProbeRead (c : ProbeRead) (t : RangesThread) : (UInt64 × Memory) × RangesThread :=
  if c.dst = 0 ∨ c.src = 0 ∨ c.size = 0 ∨ c.size > 256 then ((-1, c.memory), t)
  else
    match lsAddrReadable c.src c.size c.first c.second t with
    | (false, t) => ((-1, c.memory), t)
    | (true, t) =>
        ((0, c.memory.store c.dst.toNat (c.memory.load c.src.toNat c.size.toNat)), t)

/-- A thread before its first read. -/
def unread : RangesThread where
  gLsRanges := none
  gLsRangesFailed := false
  origin := none

/-- The reads of one thread. -/
def rangesMachine : Machine RangesThread ProbeRead where
  init t := t = unread
  next t c := some (lsHProbeRead c t).2

/-! ## What the table holds -/

/-- An entry that is read in a text. -/
def Listed (text : List Char) (x : LsRange) : Prop :=
  ∃ line ∈ fgetsLines 511 [] text, mapsLine line = some x

/-- What is true of the bytes of the ranges and of a new one is true after the merge. -/
theorem forall_addRange {P : UInt64 → Prop} {rs : List LsRange} {x : LsRange}
    (hrs : ∀ y ∈ rs, ∀ b, y.lo ≤ b → b < y.hi → P b) (hx : ∀ b, x.lo ≤ b → b < x.hi → P b) :
    ∀ y ∈ addRange rs x, ∀ b, y.lo ≤ b → b < y.hi → P b := by
  cases rs with
  | nil => exact List.forall_mem_singleton.mpr hx
  | cons last rest =>
      rw [List.forall_mem_cons] at hrs
      rw [addRange]
      split
      next habut =>
        refine List.forall_mem_cons.mpr ⟨fun b hlo hhi => ?_, hrs.2⟩
        by_cases hb : b < last.hi
        · exact hrs.1 b hlo hb
        · exact hx b (habut ▸ UInt64.not_lt.mp hb) hhi
      next => exact List.forall_mem_cons.mpr ⟨hx, List.forall_mem_cons.mpr hrs⟩

theorem inside_addRange_self (rs : List LsRange) (x : LsRange) :
    Inside (addRange rs x) x.lo x.hi := by
  cases rs with
  | nil => exact ⟨x, List.mem_singleton_self x, UInt64.le_refl _, UInt64.le_refl _⟩
  | cons last rest =>
      rw [addRange]
      split
      next habut =>
        refine ⟨_, List.mem_cons_self, ?_, UInt64.le_refl _⟩
        exact habut ▸ UInt64.le_of_lt last.lt
      next => exact ⟨x, List.mem_cons_self, UInt64.le_refl _, UInt64.le_refl _⟩

theorem Inside.addRange {rs : List LsRange} {lo hi : UInt64} (h : Inside rs lo hi) (x : LsRange) :
    Inside (addRange rs x) lo hi := by
  obtain ⟨y, hy, hlo, hhi⟩ := h
  cases rs with
  | nil => exact absurd hy List.not_mem_nil
  | cons last rest =>
      rw [Map.addRange]
      split
      next habut =>
        rcases List.mem_cons.mp hy with rfl | hy
        · refine ⟨_, List.mem_cons_self, hlo, ?_⟩
          exact UInt64.le_trans hhi (habut ▸ UInt64.le_of_lt x.lt)
        · exact ⟨y, List.mem_cons_of_mem _ hy, hlo, hhi⟩
      next => exact ⟨y, List.mem_cons_of_mem _ hy, hlo, hhi⟩

theorem length_addRange (rs : List LsRange) (x : LsRange) :
    (addRange rs x).length ≤ rs.length + 1 := by
  unfold addRange
  split
  · rfl
  · split
    · exact Nat.le_succ _
    · rfl

/-- What every merge keeps is kept by the loop. -/
theorem loadLines_keeps {P : List LsRange → Prop} {rs : List LsRange} {lines : List (List Char)}
    (hP : P rs) (hadd : ∀ rs, ∀ line ∈ lines, ∀ x, mapsLine line = some x →
      rs.length < lsRangesMax → P rs → P (addRange rs x)) : P (loadLines rs lines) := by
  induction lines generalizing rs with
  | nil => exact hP
  | cons line rest ih =>
      have hrest := fun rs hrs => @ih rs hrs fun rs l hl => hadd rs l (List.mem_cons_of_mem _ hl)
      rw [loadLines]
      split
      next hroom =>
        cases hline : mapsLine line with
        | none => exact hrest rs hP
        | some x => exact hrest _ (hadd rs line List.mem_cons_self x hline hroom hP)
      next => exact hP

/-- Every entry comes into a table that does not fill up. -/
theorem inside_loadLines {rs : List LsRange} {lines : List (List Char)}
    (h : (loadLines rs lines).length < lsRangesMax) {line : List Char} (hline : line ∈ lines)
    {x : LsRange} (hx : mapsLine line = some x) : Inside (loadLines rs lines) x.lo x.hi := by
  induction lines generalizing rs with
  | nil => exact absurd hline List.not_mem_nil
  | cons first rest ih =>
      rw [loadLines] at h ⊢
      split at h
      next hroom =>
        rw [if_pos hroom]
        rcases List.mem_cons.mp hline with rfl | hline
        · rw [hx]
          exact loadLines_keeps (P := fun rs => Inside rs x.lo x.hi) (inside_addRange_self rs x)
            fun _ _ _ y _ _ hrs => hrs.addRange y
        · exact ih h hline
      next hroom => exact absurd h hroom

/-- A table that was loaded holds bytes of entries only, and all entries if it is not full. -/
theorem lsRangesLoad_table (maps : Option (List Char)) :
    (lsRangesLoad maps).1.length ≤ lsRangesMax ∧
      (∀ y ∈ (lsRangesLoad maps).1, ∀ b, y.lo ≤ b → b < y.hi →
        ∃ text ∈ maps, ∃ x, Listed text x ∧ x.lo ≤ b ∧ b < x.hi) ∧
      ((lsRangesLoad maps).1.length < lsRangesMax →
        ∀ text ∈ maps, ∀ x, Listed text x → Inside (lsRangesLoad maps).1 x.lo x.hi) := by
  cases maps with
  | none => exact ⟨Nat.zero_le _, nofun, nofun⟩
  | some text =>
      refine ⟨?_, ?_, ?_⟩
      · exact loadLines_keeps (P := fun rs => rs.length ≤ lsRangesMax) (Nat.zero_le _)
          fun rs _ _ x _ hroom _ => Nat.le_trans (length_addRange rs x) hroom
      · refine @loadLines_keeps (fun rs => ∀ y ∈ rs, ∀ b, y.lo ≤ b → b < y.hi →
          ∃ text' ∈ some text, ∃ x, Listed text' x ∧ x.lo ≤ b ∧ b < x.hi) []
          (fgetsLines 511 [] text) nofun ?_
        intro rs line hline x hx _ hrs
        exact forall_addRange hrs fun b hlo hhi => ⟨text, rfl, x, ⟨line, hline, hx⟩, hlo, hhi⟩
      · intro h _ htext x ⟨line, hline, hx⟩
        obtain rfl := Option.some.inj htext
        exact inside_loadLines h hline hx

/-! ## Every run -/

/-- The table is that of the text it was read from. -/
def RangesThread.Ok (t : RangesThread) : Prop :=
  ∀ rs ∈ t.gLsRanges, rs = (lsRangesLoad t.origin).1

theorem reload_spec (refresh : Bool) (maps : Option (List Char)) :
    let r := reload maps
    r.2.Ok ∧ (∀ rs ∈ r.1, rs ∈ r.2.gLsRanges ∧ (refresh = true → r.2.origin = maps)) ∧
      (r.1 = none → r.2.gLsRangesFailed = true) := by
  simp only [reload, RangesThread.Ok]
  split <;> simp_all

/-- An attempt has the table of its thread, read anew where it was to be, or the thread has failed. -/
theorem lsRangesCurrent_spec (refresh : Bool) (sys : System) {t : RangesThread} (h : t.Ok) :
    let r := lsRangesCurrent refresh sys t
    r.2.Ok ∧ (∀ rs ∈ r.1, rs ∈ r.2.gLsRanges ∧ (refresh = true → r.2.origin = sys.maps)) ∧
      (r.1 = none → r.2.gLsRangesFailed = true) := by
  unfold lsRangesCurrent
  split
  next hfailed => exact ⟨h, nofun, fun _ => hfailed.1⟩
  next =>
    split
    next =>
      split
      · exact reload_spec refresh sys.maps
      · exact ⟨h, nofun, fun _ => rfl⟩
    next rs hrs =>
      split
      · exact reload_spec refresh sys.maps
      next hno => exact ⟨h, fun _ hx => ⟨hrs.trans hx, fun hr => absurd hr hno⟩, nofun⟩

theorem lsAddrReadable_spec (addr size : UInt64) (first second : System) {t : RangesThread}
    (h : t.Ok) :
    let r := lsAddrReadable addr size first second t
    r.2.Ok ∧ (r.1 = true → ∃ rs ∈ r.2.gLsRanges, Inside rs addr (addr + size)) ∧
      (r.1 = false → (size = 0 ∨ addr = 0 ∨ addr + size < addr) ∨ r.2.gLsRangesFailed = true ∨
        r.2.origin = second.maps ∧ ∃ rs ∈ r.2.gLsRanges, ¬Inside rs addr (addr + size)) := by
  unfold lsAddrReadable
  split
  next hargs => exact ⟨h, nofun, fun _ => .inl hargs⟩
  next =>
    obtain ⟨hok, htable, hnone⟩ := lsRangesCurrent_spec false first h
    generalize lsRangesCurrent false first t = r at hok htable hnone
    rcases r with ⟨_ | rs, t⟩
    · exact ⟨hok, nofun, fun _ => .inr (.inl (hnone rfl))⟩
    · by_cases hin : Inside rs addr (addr + size)
      · simp only [hin, if_true]
        exact ⟨hok, fun _ => ⟨rs, (htable rs rfl).1, hin⟩, nofun⟩
      · simp only [hin]
        obtain ⟨hok, htable, hnone⟩ := lsRangesCurrent_spec true second hok
        generalize lsRangesCurrent true second t = r at hok htable hnone
        rcases r with ⟨_ | rs, t⟩
        · exact ⟨hok, nofun, fun _ => .inr (.inl (hnone rfl))⟩
        · obtain ⟨hrs, hfresh⟩ := htable rs rfl
          exact ⟨hok, fun hin => ⟨rs, hrs, of_decide_eq_true hin⟩,
            fun hin => .inr (.inr ⟨hfresh rfl, rs, hrs, of_decide_eq_false hin⟩)⟩

/-- A read keeps the table that of its text. -/
theorem RangesThread.Ok.probeRead {t : RangesThread} (h : t.Ok) (c : ProbeRead) :
    (lsHProbeRead c t).2.Ok := by
  have hok := (lsAddrReadable_spec c.src c.size c.first c.second h).1
  unfold lsHProbeRead
  split
  · exact h
  · split
    next heq => rwa [heq] at hok
    next heq => rwa [heq] at hok

theorem ok_of_reachable : ∀ t, rangesMachine.Reachable t → t.Ok := by
  apply Machine.Reachable.invariant
  · rintro t rfl
    exact nofun
  · intro t c t' _ h hnext
    obtain rfl := Option.some.inj hnext
    exact h.probeRead c

theorem lsHProbeRead_of_failed (c : ProbeRead) {t : RangesThread} (h : t.gLsRangesFailed = true) :
    lsHProbeRead c t = ((-1, c.memory), t) := by
  unfold lsHProbeRead lsAddrReadable lsRangesCurrent
  split_ifs <;> simp_all

/-- In every run, a read that is answered copies bytes that were all readable in the text the thread
read last.  One that is refused copies nothing; unless its arguments are wrong or the thread has
failed, its text is new, and no entry in it holds the bytes or the table is full.  A thread that
has failed once refuses for ever. -/
theorem probeRead_run (t : RangesThread) (ht : rangesMachine.Reachable t) (c : ProbeRead) :
    let r := lsHProbeRead c t
    (t.gLsRangesFailed = true → r = ((-1, c.memory), t)) ∧
    ((r.1 = (0, c.memory.store c.dst.toNat (c.memory.load c.src.toNat c.size.toNat)) ∧
        ∃ text ∈ r.2.origin, ∀ b, c.src ≤ b → b < c.src + c.size →
          ∃ x, Listed text x ∧ x.lo ≤ b ∧ b < x.hi) ∨
      r.1 = (-1, c.memory) ∧
        (c.dst = 0 ∨ c.src = 0 ∨ c.size = 0 ∨ c.size > 256 ∨ c.src + c.size < c.src ∨
          r.2.gLsRangesFailed = true ∨
          r.2.origin = c.second.maps ∧ ((∃ rs ∈ r.2.gLsRanges, rs.length = lsRangesMax) ∨
            ∀ text ∈ c.second.maps, ∀ x, Listed text x →
              ¬(x.lo ≤ c.src ∧ c.src + c.size ≤ x.hi)))) := by
  obtain ⟨hok, hlet, hrefused⟩ :=
    lsAddrReadable_spec c.src c.size c.first c.second (ok_of_reachable t ht)
  refine ⟨lsHProbeRead_of_failed c, ?_⟩
  unfold lsHProbeRead
  split
  next hargs => exact .inr ⟨rfl, by tauto⟩
  next =>
    generalize lsAddrReadable c.src c.size c.first c.second t = r at hok hlet hrefused
    rcases r with ⟨_ | _, t'⟩
    · refine .inr ⟨rfl, ?_⟩
      rcases hrefused rfl with hargs | hfailed | ⟨horigin, rs, hrs, hnot⟩
      · tauto
      · exact .inr (.inr (.inr (.inr (.inr (.inl hfailed)))))
      · refine .inr (.inr (.inr (.inr (.inr (.inr ⟨horigin, ?_⟩)))))
        obtain ⟨hlength, -, hall⟩ := lsRangesLoad_table t'.origin
        rw [← hok rs hrs, horigin] at hall
        rw [← hok rs hrs] at hlength
        refine (Nat.lt_or_eq_of_le hlength).symm.imp (fun h => ⟨rs, hrs, h⟩) ?_
        intro hroom text htext x hx hholds
        obtain ⟨y, hy, hlo, hhi⟩ := hall hroom text htext x hx
        exact hnot ⟨y, hy, UInt64.le_trans hlo hholds.1, UInt64.le_trans hholds.2 hhi⟩
    · obtain ⟨rs, hrs, y, hy, hlo, hhi⟩ := hlet rfl
      have hbytes := (lsRangesLoad_table t'.origin).2.1
      rw [← hok rs hrs] at hbytes
      obtain ⟨text, htext, -⟩ := hbytes y hy y.lo (UInt64.le_refl _) y.lt
      refine .inl ⟨rfl, text, htext, fun b hb hb' => ?_⟩
      obtain ⟨text', htext', hx⟩ :=
        hbytes y hy b (UInt64.le_trans hlo hb) (UInt64.lt_of_lt_of_le hb' hhi)
      obtain rfl := Option.some.inj (htext.symm.trans htext')
      exact hx

/-- The first read of a thread, across two mappings that abut. -/
def sampleRead : ProbeRead where
  dst := 8
  size := 4
  src := 0x1ffe
  memory := fun a => UInt8.ofNat a
  first := { mapped := true, maps := some "1000-2000 r--p\n2000-3000 rw-p\n".toList }
  second := { mapped := true, maps := none }

theorem probeRead_run_sample :
    let r := lsHProbeRead sampleRead unread
    r.1.1 = 0 ∧ ∃ text ∈ r.2.origin, ∀ b, 0x1ffe ≤ b → b < 0x2002 →
      ∃ x, Listed text x ∧ x.lo ≤ b ∧ b < x.hi := by
  have hanswer : (lsHProbeRead sampleRead unread).1.1 = 0 := by decide +kernel
  rcases (probeRead_run unread (.start rfl) sampleRead).2 with ⟨-, h⟩ | ⟨h, -⟩
  · exact ⟨hanswer, h⟩
  · rw [h] at hanswer
    contradiction

end Map
end LiveSurface
