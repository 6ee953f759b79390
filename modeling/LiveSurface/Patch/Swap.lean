import LiveSurface.Library.Machine
import Mathlib.Data.List.Range

/-!
# Rewriting five bytes of live text

A pad holds five one-byte NOPs or one five-byte call.  A swap exchanges them under
running cores: a breakpoint over the first byte, the other four bytes, then the first
byte, with every core made to fetch again after each write.  A core that trapped on
the breakpoint is sent past the pad by the handler, as long as the handler finds the
pad announced.

A core fetches at its address and executes what it has fetched in two steps.  A swap
of NOPs for a call leaves two gaps: a core can stand between two NOPs when their
bytes become a displacement, and a trap can be handled after the pad has been
withdrawn.

Main results:

- Theorem {lit}`swap_safe`: when neither gap is met, no core derails.
- Theorem {lit}`derailed_core`: a core that executes a displacement byte.
-/

namespace LiveSurface
namespace Patch

/-! ## Text -/

structure Rel32 where
  b1 : UInt8
  b2 : UInt8
  b3 : UInt8
  b4 : UInt8
deriving DecidableEq

/-- What a pad holds. -/
inductive Pad
  | nops
  | call (rel : Rel32)
deriving DecidableEq

def nopByte : UInt8 := 0x90
def callByte : UInt8 := 0xe8
def int3Byte : UInt8 := 0xcc

/-- The byte at an offset of the pad. -/
def Pad.byte : Pad → Nat → UInt8
  | .nops, _ => nopByte
  | .call _, 0 => callByte
  | .call rel, 1 => rel.b1
  | .call rel, 2 => rel.b2
  | .call rel, 3 => rel.b3
  | .call rel, _ => rel.b4

inductive Insn
  | nop
  | call (rel : Rel32)
  | int3
  | other (opcode : UInt8)
deriving DecidableEq

abbrev Text := Nat → UInt8

/-- The instruction at an address. -/
def decode (text : Text) (address : Nat) : Insn :=
  if text address = nopByte then .nop
  else if text address = callByte then
    .call ⟨text (address + 1), text (address + 2), text (address + 3), text (address + 4)⟩
  else if text address = int3Byte then .int3
  else .other (text address)

/-- {lit}`ls_poke`. -/
def lsPoke (text : Text) (address : Nat) : List UInt8 → Text
  | [] => text
  | byte :: rest => Function.update (lsPoke text (address + 1) rest) address byte

/-- The instructions of a pad, with their offsets. -/
def nopRun (n : Nat) : List (Nat × Insn) := (List.range n).map fun i => (i, .nop)

def Pad.whole : Pad → List (Nat × Insn)
  | .nops => nopRun 5
  | .call rel => [(0, .call rel)]

/-- The two changes: {lit}`ls_arm_live` and {lit}`ls_disarm_live`. -/
inductive Change
  | arm (rel : Rel32)
  | disarm (rel : Rel32)
deriving DecidableEq

def Change.old : Change → Pad
  | .arm _ => .nops
  | .disarm rel => .call rel

def Change.new : Change → Pad
  | .arm rel => .call rel
  | .disarm _ => .nops

/-! ## Cores and the patcher -/

/-- Where a core is. -/
inductive Place
  | away
  /-- At an offset of the pad. -/
  | standing (i : Nat)
  /-- It has fetched the instruction at an offset, which may be a byte of a
  displacement. -/
  | fetched (i : Nat) (insn : Insn) (displacement : Bool)
  /-- It has trapped, and the handler has not run yet. -/
  | trapped (rip : Nat)
  | passed
  /-- It has executed a byte of a displacement. -/
  | derailed
  /-- Its trap went to the handler before ours, or ended the process. -/
  | lost
deriving DecidableEq

/-- A core, with the instructions it has executed since it entered the pad. -/
structure Core where
  place : Place
  ran : List (Nat × Insn)
deriving DecidableEq

/-- Execute what has been fetched. -/
def Core.exec (pad : Nat) (c : Core) : Option Core :=
  match c.place with
  | .fetched i insn displacement =>
      let ran := c.ran ++ [(i, insn)]
      if displacement then some { place := .derailed, ran := ran }
      else
        match insn with
        | .nop =>
            some { place := if i + 1 = 5 then .passed else .standing (i + 1), ran := ran }
        | .call _ => some { place := .passed, ran := ran }
        | .int3 => some { place := .trapped (pad + i + 1), ran := ran }
        | .other _ => some { place := .derailed, ran := ran }
  | _ => none

/-- What has been fetched is dropped. -/
def Core.refetch (c : Core) : Core :=
  match c.place with
  | .fetched i _ _ => { c with place := .standing i }
  | _ => c

/-- {lit}`ls_swap_trap`. -/
def Core.lsSwapTrap (gPad : Option Nat) (c : Core) : Option Core :=
  match c.place with
  | .trapped rip =>
      match gPad with
      | some pad => some { c with place := if rip = pad + 1 then .passed else .lost }
      | none => some { c with place := .lost }
  | _ => none

/-- The next step of {lit}`ls_swap_write5`. -/
inductive Pc
  | announce
  | int3
  | syncInt3
  | tail
  | syncTail
  | first
  | syncFirst
  | withdraw
  /-- A write has failed. -/
  | giveUp
  | done (ok : Bool)
deriving DecidableEq

/-- A swap under way.  {lit}`tail` tells whose last four bytes the pad holds. -/
structure Swap (n : Nat) where
  text : Text
  tail : Pad
  gPad : Option Nat
  pc : Pc
  cores : Fin n → Core

/-- {lit}`ls_sync_cores`. -/
def Swap.lsSyncCores {n : Nat} (s : Swap n) : Swap n :=
  { s with cores := fun k => (s.cores k).refetch }

/-- One step of {lit}`ls_swap_write5`; {lit}`ok` tells whether a write succeeds. -/
def lsSwapWrite5 {n : Nat} (pad : Nat) (new : Pad) (ok : Bool) (s : Swap n) : Option (Swap n) :=
  match s.pc with
  | .announce => some { s with gPad := some pad, pc := .int3 }
  | .int3 =>
      some (if ok then { s with text := lsPoke s.text pad [int3Byte], pc := .syncInt3 }
        else { s with pc := .giveUp })
  | .syncInt3 => some { s.lsSyncCores with pc := .tail }
  | .tail =>
      some (if ok then
          { s with
            text := lsPoke s.text (pad + 1) [new.byte 1, new.byte 2, new.byte 3, new.byte 4]
            tail := new
            pc := .syncTail }
        else { s with pc := .giveUp })
  | .syncTail => some { s.lsSyncCores with pc := .first }
  | .first =>
      some (if ok then { s with text := lsPoke s.text pad [new.byte 0], pc := .syncFirst }
        else { s with pc := .giveUp })
  | .syncFirst => some { s.lsSyncCores with pc := .withdraw }
  | .withdraw => some { s with gPad := none, pc := .done true }
  | .giveUp => some { s with gPad := none, pc := .done false }
  | .done _ => none

inductive SwapLabel (n : Nat)
  | patch (ok : Bool)
  | enter (k : Fin n)
  | fetch (k : Fin n)
  | exec (k : Fin n)
  | handle (k : Fin n)

def Swap.withCore {n : Nat} (s : Swap n) (k : Fin n) (c : Core) : Swap n :=
  { s with cores := Function.update s.cores k c }

/-- A core enters the pad from elsewhere. -/
def Core.enter (c : Core) : Option Core :=
  match c.place with
  | .away | .passed => some { place := .standing 0, ran := [] }
  | _ => none

/-- A core fetches at its address. -/
def Core.fetch (text : Text) (tail : Pad) (pad : Nat) (c : Core) : Option Core :=
  match c.place with
  | .standing i =>
      some { c with place := .fetched i (decode text (pad + i)) (i != 0 && tail != .nops) }
  | _ => none

def swapNext {n : Nat} (pad : Nat) (change : Change) (s : Swap n) :
    SwapLabel n → Option (Swap n)
  | .patch ok => lsSwapWrite5 pad change.new ok s
  | .enter k => (s.cores k).enter.map (s.withCore k)
  | .fetch k => ((s.cores k).fetch s.text s.tail pad).map (s.withCore k)
  | .exec k => ((s.cores k).exec pad).map (s.withCore k)
  | .handle k => ((s.cores k).lsSwapTrap s.gPad).map (s.withCore k)

/-- One swap beside any number of cores, which are anywhere when it starts. -/
def swapMachine (n pad : Nat) (change : Change) : Machine (Swap n) (SwapLabel n) where
  init s := (∀ i < 5, s.text (pad + i) = change.old.byte i) ∧ s.tail = change.old ∧
    s.gPad = none ∧ s.pc = .announce ∧ ∀ k, s.cores k = { place := .away, ran := [] }
  next := swapNext pad change

/-- The writes of the swap succeed. -/
def Successful {n : Nat} (_ : Swap n) : SwapLabel n → Prop
  | .patch ok => ok = true
  | _ => True

/-- A core has passed the pad over the old bytes, over the new bytes or through the
handler, and it has neither derailed nor been lost. -/
structure Core.Safe (change : Change) (c : Core) : Prop where
  onCourse : c.place ≠ .derailed
  caught : c.place ≠ .lost
  whole : c.place = .passed →
    c.ran = change.old.whole ∨ c.ran = change.new.whole ∨ c.ran = [(0, .int3)]

/-- No core is inside the pad, unless the last byte is all it has left to execute. -/
def Core.Outside (c : Core) : Prop :=
  match c.place with
  | .standing i => i = 0
  | .fetched i _ _ => i = 0 ∨ i = 4
  | _ => True

/-- The core does not still have to execute the last byte of the old pad. -/
def Core.Finished (c : Core) : Prop :=
  match c.place with
  | .fetched i _ _ => i = 0
  | _ => True

/-- Its trap has been handled. -/
def Core.Handled (c : Core) : Prop :=
  match c.place with
  | .trapped _ => False
  | _ => True

/-- The writes succeed; when the last four bytes are written no core is inside the
pad, and when the pad is withdrawn no trap is waiting for the handler. -/
def Undisturbed {n : Nat} (s : Swap n) : SwapLabel n → Prop
  | .patch ok => ok = true ∧
      match s.pc with
      | .tail => ∀ k, (s.cores k).Outside
      | .syncTail => ∀ k, (s.cores k).Finished
      | .withdraw => ∀ k, (s.cores k).Handled
      | _ => True
  | _ => True

/-! ## What each stage of a swap allows -/

def Pc.stage : Pc → Nat
  | .announce => 0
  | .int3 => 1
  | .syncInt3 => 2
  | .tail => 3
  | .syncTail => 4
  | .first => 5
  | .syncFirst => 6
  | .withdraw => 7
  | .done _ => 8
  | .giveUp => 9

/-- The text of a swap that has come to a stage. -/
structure TextOk {n : Nat} (pad : Nat) (change : Change) (s : Swap n) : Prop where
  stage : s.pc.stage ≤ 8
  first : s.text pad =
    if s.pc.stage ≤ 1 then change.old.byte 0
    else if s.pc.stage ≤ 5 then int3Byte else change.new.byte 0
  rest : ∀ i, 1 ≤ i → i ≤ 4 → s.text (pad + i) = s.tail.byte i
  tail : s.tail = if s.pc.stage ≤ 3 then change.old else change.new
  announced : 1 ≤ s.pc.stage → s.pc.stage ≤ 7 → s.gPad = some pad

/-- Stages at which a core can be between two NOPs of the pad. -/
def Change.Between (stage : Nat) : Change → Prop
  | .arm _ => stage ≤ 3
  | .disarm _ => 6 ≤ stage

/-- The instruction at the start of a pad. -/
def Pad.head : Pad → Insn
  | .nops => .nop
  | .call rel => .call rel

/-- What a core may have fetched. -/
def Fetched (change : Change) (stage i : Nat) (insn : Insn) : Prop :=
  if i = 0 then
    insn = change.old.head ∧ stage ≤ 2 ∨ insn = .int3 ∧ 2 ≤ stage ∧ stage ≤ 6 ∨
      insn = change.new.head ∧ 6 ≤ stage
  else insn = .nop ∧ i ≤ 4 ∧ (change.Between stage ∨ i = 4 ∧ stage = 4 ∧ change.old = .nops)

/-- Where a core may be at a stage. -/
def CoreOk (pad : Nat) (change : Change) (stage : Nat) (c : Core) : Prop :=
  match c.place with
  | .away => True
  | .standing i => c.ran = nopRun i ∧ (i ≠ 0 → i ≤ 4 ∧ change.Between stage)
  | .fetched i insn displacement =>
      displacement = false ∧ c.ran = nopRun i ∧ Fetched change stage i insn
  | .trapped rip => rip = pad + 1 ∧ c.ran = [(0, .int3)] ∧ 1 ≤ stage ∧ stage ≤ 7
  | .passed => c.ran = change.old.whole ∨ c.ran = change.new.whole ∨ c.ran = [(0, .int3)]
  | .derailed | .lost => False

theorem CoreOk.safe {pad : Nat} {change : Change} {stage : Nat} {c : Core}
    (h : CoreOk pad change stage c) : c.Safe change := by
  unfold CoreOk at h
  refine ⟨?_, ?_, ?_⟩
  · intro hplace
    rw [hplace] at h
    exact h
  · intro hplace
    rw [hplace] at h
    exact h
  · intro hplace
    rw [hplace] at h
    exact h

/-! ## Steps of a core -/

variable {n pad stage i : Nat} {change : Change} {c c' : Core}

theorem nopRun_succ (i : Nat) : nopRun (i + 1) = nopRun i ++ [(i, .nop)] := by
  simp [nopRun, List.range_succ]

theorem CoreOk.enter (h : c.enter = some c') : CoreOk pad change stage c' := by
  unfold Core.enter at h
  split at h
  · obtain rfl := Option.some.inj h
    exact ⟨rfl, fun hi => absurd rfl hi⟩
  · obtain rfl := Option.some.inj h
    exact ⟨rfl, fun hi => absurd rfl hi⟩
  · contradiction

/-- The first byte and the displacement belong together whenever the first byte is
that of a pad. -/
theorem decode_head {text : Text} {bytes : Pad} (hfirst : text pad = bytes.byte 0)
    (hrest : ∀ i, 1 ≤ i → i ≤ 4 → text (pad + i) = bytes.byte i) :
    decode text pad = bytes.head := by
  cases bytes with
  | nops =>
      have hnop : text pad = nopByte := hfirst
      unfold decode
      rw [if_pos hnop]
      rfl
  | call rel =>
      have hcall : text pad = callByte := hfirst
      have hne : text pad ≠ nopByte := by
        rw [hcall]
        decide
      unfold decode
      rw [if_neg hne, if_pos hcall, hrest 1 (by decide) (by decide),
        hrest 2 (by decide) (by decide), hrest 3 (by decide) (by decide),
        hrest 4 (by decide) (by decide)]
      rfl

theorem decode_int3 {text : Text} (hfirst : text pad = int3Byte) : decode text pad = .int3 := by
  unfold decode
  rw [hfirst, if_neg (by decide), if_neg (by decide), if_pos rfl]

/-- What a core fetches at the start of the pad. -/
theorem TextOk.fetch_first {s : Swap n} (h : TextOk pad change s) :
    Fetched change s.pc.stage 0 (decode s.text pad) := by
  unfold Fetched
  rw [if_pos rfl]
  have hfirst := h.first
  have htail := h.tail
  by_cases h1 : s.pc.stage ≤ 1
  · rw [if_pos h1] at hfirst
    rw [if_pos (by omega)] at htail
    exact .inl ⟨decode_head hfirst (htail ▸ h.rest), by omega⟩
  · rw [if_neg h1] at hfirst
    by_cases h5 : s.pc.stage ≤ 5
    · rw [if_pos h5] at hfirst
      exact .inr (.inl ⟨decode_int3 hfirst, by omega, by omega⟩)
    · rw [if_neg h5] at hfirst
      rw [if_neg (by omega)] at htail
      exact .inr (.inr ⟨decode_head hfirst (htail ▸ h.rest), by omega⟩)

/-- Between two NOPs a core fetches a NOP. -/
theorem TextOk.fetch_rest {s : Swap n} (h : TextOk pad change s) (hi : i ≠ 0) (hi4 : i ≤ 4)
    (hbetween : change.Between s.pc.stage) :
    s.tail = .nops ∧ decode s.text (pad + i) = .nop := by
  have htail : s.tail = .nops := by
    rw [h.tail]
    cases change with
    | arm rel =>
        have h3 : s.pc.stage ≤ 3 := hbetween
        rw [if_pos h3]
        rfl
    | disarm rel =>
        have h6 : 6 ≤ s.pc.stage := hbetween
        rw [if_neg (by omega)]
        rfl
  refine ⟨htail, ?_⟩
  have hbyte : s.text (pad + i) = nopByte := by
    rw [h.rest i (Nat.pos_of_ne_zero hi) hi4, htail]
    rfl
  unfold decode
  rw [if_pos hbyte]

theorem CoreOk.fetch {s : Swap n} (htext : TextOk pad change s)
    (h : CoreOk pad change s.pc.stage c) (hfetch : c.fetch s.text s.tail pad = some c') :
    CoreOk pad change s.pc.stage c' := by
  unfold Core.fetch at hfetch
  split at hfetch
  · rename_i i hplace
    obtain rfl := Option.some.inj hfetch
    unfold CoreOk at h
    rw [hplace] at h
    obtain ⟨hran, hinside⟩ := h
    by_cases hi : i = 0
    · subst hi
      exact ⟨rfl, hran, htext.fetch_first⟩
    · obtain ⟨hi4, hbetween⟩ := hinside hi
      obtain ⟨htail, hdecode⟩ := htext.fetch_rest hi hi4 hbetween
      refine ⟨?_, hran, ?_⟩
      · rw [htail]
        simp
      · unfold Fetched
        rw [if_neg hi, hdecode]
        exact ⟨rfl, hi4, .inl hbetween⟩
  · contradiction

/-- The call of a pad is all of it. -/
theorem head_call {bytes : Pad} {rel : Rel32} (h : .call rel = bytes.head) :
    bytes.whole = [(0, .call rel)] := by
  cases bytes with
  | nops => contradiction
  | call rel' =>
      obtain rfl : rel = rel' := Insn.call.inj h
      rfl

theorem head_ne_int3 (bytes : Pad) : bytes.head ≠ .int3 := by
  cases bytes <;> exact nofun

theorem head_ne_other (bytes : Pad) (opcode : UInt8) : bytes.head ≠ .other opcode := by
  cases bytes <;> exact nofun

/-- A core executes a NOP. -/
theorem Fetched.nop (h : Fetched change stage i .nop) :
    (i ≤ 4 ∧ (change.Between stage ∨ i = 4)) ∧
      (nopRun 5 = change.old.whole ∨ nopRun 5 = change.new.whole) := by
  have hwhole : nopRun 5 = change.old.whole ∨ nopRun 5 = change.new.whole := by
    cases change with
    | arm rel => exact .inl rfl
    | disarm rel => exact .inr rfl
  refine ⟨?_, hwhole⟩
  unfold Fetched at h
  split at h
  · rename_i hi
    refine ⟨by omega, .inl ?_⟩
    cases change with
    | arm rel =>
        rcases h with ⟨_, h2⟩ | ⟨hinsn, _⟩ | ⟨hinsn, _⟩
        · exact h2.trans (by decide)
        · contradiction
        · contradiction
    | disarm rel =>
        rcases h with ⟨hinsn, _⟩ | ⟨hinsn, _⟩ | ⟨_, h6⟩
        · contradiction
        · contradiction
        · exact h6
  · obtain ⟨_, hi4, hbetween | ⟨hi, _⟩⟩ := h
    · exact ⟨hi4, .inl hbetween⟩
    · exact ⟨hi4, .inr hi⟩

theorem CoreOk.exec (h : CoreOk pad change stage c) (hexec : c.exec pad = some c') :
    CoreOk pad change stage c' := by
  unfold Core.exec at hexec
  split at hexec
  · rename_i i insn displacement hplace
    unfold CoreOk at h
    rw [hplace] at h
    obtain ⟨rfl, hran, hfetched⟩ := h
    simp only [Bool.false_eq_true, if_false] at hexec
    rw [hran] at hexec
    cases insn with
    | nop =>
        obtain ⟨⟨hi4, hbetween⟩, hwhole⟩ := hfetched.nop
        obtain rfl := Option.some.inj hexec
        rw [← nopRun_succ]
        by_cases hi : i + 1 = 5
        · simp only [hi]
          exact hwhole.imp id .inl
        · simp only [if_neg hi]
          refine ⟨rfl, fun _ => ⟨by omega, ?_⟩⟩
          rcases hbetween with hbetween | hlast
          · exact hbetween
          · omega
    | call rel =>
        obtain rfl := Option.some.inj hexec
        unfold Fetched at hfetched
        split at hfetched
        · rename_i hi
          subst hi
          rcases hfetched with ⟨hinsn, _⟩ | ⟨hinsn, _⟩ | ⟨hinsn, _⟩
          · exact .inl (head_call hinsn).symm
          · contradiction
          · exact .inr (.inl (head_call hinsn).symm)
        · have hinsn := hfetched.1
          contradiction
    | int3 =>
        obtain rfl := Option.some.inj hexec
        unfold Fetched at hfetched
        split at hfetched
        · rename_i hi
          subst hi
          rcases hfetched with ⟨hinsn, _⟩ | ⟨_, h2, h6⟩ | ⟨hinsn, _⟩
          · exact absurd hinsn.symm (head_ne_int3 _)
          · exact ⟨rfl, rfl, by omega, by omega⟩
          · exact absurd hinsn.symm (head_ne_int3 _)
        · have hinsn := hfetched.1
          contradiction
    | other opcode =>
        unfold Fetched at hfetched
        split at hfetched
        · rcases hfetched with ⟨hinsn, _⟩ | ⟨hinsn, _⟩ | ⟨hinsn, _⟩
          · exact absurd hinsn.symm (head_ne_other _ _)
          · contradiction
          · exact absurd hinsn.symm (head_ne_other _ _)
        · have hinsn := hfetched.1
          contradiction
  · contradiction

theorem CoreOk.lsSwapTrap {s : Swap n} (htext : TextOk pad change s)
    (h : CoreOk pad change s.pc.stage c) (htrap : c.lsSwapTrap s.gPad = some c') :
    CoreOk pad change s.pc.stage c' := by
  unfold Core.lsSwapTrap at htrap
  split at htrap
  · rename_i rip hplace
    unfold CoreOk at h
    rw [hplace] at h
    obtain ⟨rfl, hran, h1, h7⟩ := h
    rw [htext.announced h1 h7] at htrap
    obtain rfl := Option.some.inj htrap
    simp only [if_true]
    exact .inr (.inr hran)
  · contradiction

/-! ## Steps of the patcher -/

/-- A core drops what it has fetched. -/
theorem CoreOk.refetch (h : CoreOk pad change stage c)
    (hfinished : stage = 4 → c.Finished) (hbetween : change.Between stage → change.Between (stage + 1))
    (htrap : stage ≤ 6) : CoreOk pad change (stage + 1) c.refetch := by
  unfold CoreOk at h
  unfold Core.refetch
  cases hplace : c.place with
  | fetched i insn displacement =>
      simp only [hplace] at h ⊢
      obtain ⟨_, hran, hfetched⟩ := h
      refine ⟨hran, ?_⟩
      intro hi
      unfold Fetched at hfetched
      rw [if_neg hi] at hfetched
      obtain ⟨_, hi4, hallowed | ⟨_, h4, _⟩⟩ := hfetched
      · exact ⟨hi4, hbetween hallowed⟩
      · have hzero := hfinished h4
        rw [Core.Finished, hplace] at hzero
        exact absurd hzero hi
  | standing i =>
      simp only [hplace, CoreOk] at h ⊢
      exact ⟨h.1, fun hi => ⟨(h.2 hi).1, hbetween (h.2 hi).2⟩⟩
  | trapped rip =>
      simp only [hplace, CoreOk] at h ⊢
      exact ⟨h.1, h.2.1, by omega, by omega⟩
  | away => simp only [hplace, CoreOk]
  | passed =>
      simp only [hplace, CoreOk] at h ⊢
      exact h
  | derailed =>
      rw [hplace] at h
      exact h.elim
  | lost =>
      rw [hplace] at h
      exact h.elim

/-- The patcher moves on while every core keeps what it has fetched. -/
theorem CoreOk.advance (h : CoreOk pad change stage c)
    (hstanding : ∀ i, c.place = .standing i → i ≠ 0 → change.Between stage →
      change.Between (stage + 1))
    (hfetched : ∀ i insn displacement, c.place = .fetched i insn displacement →
      Fetched change stage i insn → Fetched change (stage + 1) i insn)
    (htrap : ∀ rip, c.place = .trapped rip → stage ≤ 6) : CoreOk pad change (stage + 1) c := by
  unfold CoreOk at h ⊢
  cases hplace : c.place with
  | fetched i insn displacement =>
      rw [hplace] at h
      exact ⟨h.1, h.2.1, hfetched i insn displacement hplace h.2.2⟩
  | standing i =>
      rw [hplace] at h
      exact ⟨h.1, fun hi => ⟨(h.2 hi).1, hstanding i hplace hi (h.2 hi).2⟩⟩
  | trapped rip =>
      rw [hplace] at h
      have h6 := htrap rip hplace
      exact ⟨h.1, h.2.1, by omega, by omega⟩
  | away => trivial
  | passed =>
      rw [hplace] at h
      exact h
  | derailed =>
      rw [hplace] at h
      exact h
  | lost =>
      rw [hplace] at h
      exact h

/-- Between two NOPs a core stays allowed until the last four bytes are written. -/
theorem Change.Between.next (h : change.Between stage) (hstage : stage ≠ 3) :
    change.Between (stage + 1) := by
  cases change with
  | arm rel =>
      have h3 : stage ≤ 3 := h
      exact Nat.lt_of_le_of_ne h3 hstage
  | disarm rel => exact Nat.le_succ_of_le h

/-- What a core has fetched stays allowed through a step that is no write. -/
theorem Fetched.next {insn : Insn} (h : Fetched change stage i insn)
    (hstage : stage ≤ 1 ∨ stage = 5 ∨ 7 ≤ stage) : Fetched change (stage + 1) i insn := by
  unfold Fetched at h ⊢
  split at h
  · rename_i hi
    rw [if_pos hi]
    rcases h with ⟨hinsn, h2⟩ | ⟨hinsn, h2, h6⟩ | ⟨hinsn, h6⟩
    · exact .inl ⟨hinsn, by omega⟩
    · exact .inr (.inl ⟨hinsn, by omega, by omega⟩)
    · exact .inr (.inr ⟨hinsn, by omega⟩)
  · rename_i hi
    rw [if_neg hi]
    obtain ⟨hinsn, hi4, hbetween | ⟨_, h4, _⟩⟩ := h
    · exact ⟨hinsn, hi4, .inl (hbetween.next (by omega))⟩
    · omega

/-- The last four bytes are written while no core is inside. -/
theorem Fetched.tail {insn : Insn} (h : Fetched change 3 i insn) (hi : i = 0 ∨ i = 4) :
    Fetched change 4 i insn := by
  unfold Fetched at h ⊢
  split at h
  · rename_i hi
    rw [if_pos hi]
    rcases h with ⟨hinsn, h2⟩ | ⟨hinsn, h2, h6⟩ | ⟨hinsn, h6⟩
    · omega
    · exact .inr (.inl ⟨hinsn, by omega, by omega⟩)
    · omega
  · rename_i hi'
    rw [if_neg hi']
    have hlast : i = 4 := hi.resolve_left hi'
    refine ⟨h.1, h.2.1, .inr ⟨hlast, rfl, ?_⟩⟩
    obtain ⟨_, _, hbetween | ⟨_, h4, _⟩⟩ := h
    · cases change with
      | arm rel => rfl
      | disarm rel =>
          have h6 : 6 ≤ 3 := hbetween
          omega
    · omega

theorem lsPoke_first (text : Text) (byte : UInt8) :
    lsPoke text pad [byte] pad = byte ∧
      ∀ i, 1 ≤ i → lsPoke text pad [byte] (pad + i) = text (pad + i) := by
  constructor
  · exact Function.update_self ..
  · intro i hi
    exact Function.update_of_ne (by omega) ..

theorem lsPoke_rest (text : Text) (bytes : Pad) :
    lsPoke text (pad + 1) [bytes.byte 1, bytes.byte 2, bytes.byte 3, bytes.byte 4] pad = text pad ∧
      ∀ i, 1 ≤ i → i ≤ 4 →
        lsPoke text (pad + 1) [bytes.byte 1, bytes.byte 2, bytes.byte 3, bytes.byte 4] (pad + i) =
          bytes.byte i := by
  constructor
  · simp only [lsPoke]
    rw [Function.update_of_ne (by omega), Function.update_of_ne (by omega),
      Function.update_of_ne (by omega), Function.update_of_ne (by omega)]
  · intro i h1 h4
    obtain rfl | rfl | rfl | rfl : i = 1 ∨ i = 2 ∨ i = 3 ∨ i = 4 := by omega
    all_goals simp [lsPoke, Function.update]

/-- A step that writes nothing. -/
theorem TextOk.keep {s s' : Swap n} (h : TextOk pad change s) (htext : s'.text = s.text)
    (htail : s'.tail = s.tail) (hstage : s'.pc.stage = s.pc.stage + 1)
    (hnext : s.pc.stage ≤ 7 ∧ s.pc.stage ≠ 1 ∧ s.pc.stage ≠ 3 ∧ s.pc.stage ≠ 5)
    (hannounced : s'.pc.stage ≤ 7 → s'.gPad = some pad) : TextOk pad change s' := by
  obtain ⟨h7, h1, h3, h5⟩ := hnext
  have le_iff : ∀ k, s.pc.stage ≠ k → (s.pc.stage + 1 ≤ k ↔ s.pc.stage ≤ k) := by
    intro k hk
    omega
  refine ⟨by omega, ?_, ?_, ?_, ?_⟩
  · rw [htext, hstage, h.first]
    simp only [le_iff 1 h1, le_iff 5 h5]
  · rw [htext, htail]
    exact h.rest
  · rw [htail, hstage, h.tail]
    simp only [le_iff 3 h3]
  · intro _
    exact hannounced

/-- The first byte is written. -/
theorem TextOk.first_written {s s' : Swap n} (h : TextOk pad change s) {byte : UInt8}
    (htext : s'.text = lsPoke s.text pad [byte]) (htail : s'.tail = s.tail)
    (hgPad : s'.gPad = s.gPad) (hstage : s'.pc.stage = s.pc.stage + 1)
    (hbyte : s.pc.stage = 1 ∧ byte = int3Byte ∨ s.pc.stage = 5 ∧ byte = change.new.byte 0) :
    TextOk pad change s' := by
  have hrange : 1 ≤ s.pc.stage ∧ s.pc.stage ≤ 7 := by omega
  refine ⟨by omega, ?_, ?_, ?_, ?_⟩
  · rw [htext, (lsPoke_first s.text byte).1, hstage]
    rcases hbyte with ⟨hone, rfl⟩ | ⟨hfive, rfl⟩
    · rw [hone]
      rfl
    · rw [hfive]
      rfl
  · intro i h1 h4
    rw [htext, htail, (lsPoke_first s.text byte).2 i h1]
    exact h.rest i h1 h4
  · rw [htail, hstage, h.tail]
    rcases hbyte with ⟨hone, _⟩ | ⟨hfive, _⟩
    · rw [hone]
      rfl
    · rw [hfive]
      rfl
  · intro _ _
    rw [hgPad]
    exact h.announced hrange.1 hrange.2

/-- The last four bytes are written. -/
theorem TextOk.tail_written {s s' : Swap n} (h : TextOk pad change s)
    (htext : s'.text = lsPoke s.text (pad + 1)
      [change.new.byte 1, change.new.byte 2, change.new.byte 3, change.new.byte 4])
    (htail : s'.tail = change.new) (hgPad : s'.gPad = s.gPad) (hstage : s.pc.stage = 3)
    (hstage' : s'.pc.stage = 4) : TextOk pad change s' := by
  refine ⟨by omega, ?_, ?_, ?_, ?_⟩
  · rw [htext, (lsPoke_rest s.text change.new).1, h.first, hstage, hstage']
    rfl
  · intro i h1 h4
    rw [htext, htail, (lsPoke_rest s.text change.new).2 i h1 h4]
  · rw [htail, hstage']
    rfl
  · intro _ _
    rw [hgPad]
    exact h.announced (by omega) (by omega)

/-- A step of the patcher that no core notices at once. -/
theorem CoreOk.unnoticed (h : CoreOk pad change stage c) (hstage : stage ≤ 1 ∨ stage = 5) :
    CoreOk pad change (stage + 1) c := by
  apply h.advance
  · intro i _ _ hbetween
    exact hbetween.next (by omega)
  · intro i insn displacement _ hfetched
    exact hfetched.next (by omega)
  · intro _ _
    omega

/-- What holds of a swap in which the condition has been met so far. -/
structure SwapOk (pad : Nat) (change : Change) (s : Swap n) : Prop where
  text : TextOk pad change s
  cores : ∀ k, CoreOk pad change s.pc.stage (s.cores k)

/-- Every core fetches again. -/
theorem SwapOk.sync {s s' : Swap n} (h : SwapOk pad change s) (htext : s'.text = s.text)
    (htail : s'.tail = s.tail) (hgPad : s'.gPad = s.gPad)
    (hcores : ∀ k, s'.cores k = (s.cores k).refetch) (hstage : s'.pc.stage = s.pc.stage + 1)
    (hsync : s.pc.stage = 2 ∨ s.pc.stage = 4 ∨ s.pc.stage = 6)
    (hfinished : s.pc.stage = 4 → ∀ k, (s.cores k).Finished) : SwapOk pad change s' := by
  constructor
  · apply h.text.keep htext htail hstage (by omega)
    intro _
    rw [hgPad]
    exact h.text.announced (by omega) (by omega)
  · intro k
    rw [hcores, hstage]
    apply (h.cores k).refetch
    · intro h4
      exact hfinished h4 k
    · intro hbetween
      exact hbetween.next (by omega)
    · omega

/-- A step of the patcher. -/
theorem SwapOk.patch {s s' : Swap n} {ok : Bool} (h : SwapOk pad change s)
    (hundisturbed : Undisturbed s (.patch ok))
    (hnext : lsSwapWrite5 pad change.new ok s = some s') : SwapOk pad change s' := by
  obtain ⟨rfl, hclear⟩ := hundisturbed
  have hcores := h.cores
  unfold lsSwapWrite5 at hnext
  cases hpc : s.pc with
  | announce =>
      simp only [hpc, Option.some.injEq] at hnext
      subst hnext
      rw [hpc] at hcores
      refine ⟨h.text.keep rfl rfl (by rw [hpc]; rfl) (by rw [hpc]; decide) fun _ => rfl, ?_⟩
      intro k
      exact (hcores k).unnoticed (.inl (by decide))
  | int3 =>
      simp only [hpc, if_true, Option.some.injEq] at hnext
      subst hnext
      rw [hpc] at hcores
      refine ⟨h.text.first_written rfl rfl rfl (by rw [hpc]; rfl)
        (.inl ⟨by rw [hpc]; rfl, rfl⟩), ?_⟩
      intro k
      exact (hcores k).unnoticed (.inl (by decide))
  | syncInt3 =>
      simp only [hpc, Option.some.injEq] at hnext
      subst hnext
      refine h.sync rfl rfl rfl (fun _ => rfl) (by rw [hpc]; rfl) (.inl (by rw [hpc]; rfl)) ?_
      rw [hpc]
      exact nofun
  | tail =>
      simp only [hpc, if_true, Option.some.injEq] at hnext
      subst hnext
      rw [hpc] at hcores
      rw [hpc] at hclear
      refine ⟨h.text.tail_written rfl rfl rfl (by rw [hpc]; rfl) rfl, ?_⟩
      intro k
      have houtside : (s.cores k).Outside := hclear k
      unfold Core.Outside at houtside
      apply (hcores k).advance
      · intro i hplace hi _
        rw [hplace] at houtside
        exact absurd houtside hi
      · intro i insn displacement hplace hfetched
        rw [hplace] at houtside
        exact hfetched.tail houtside
      · intro _ _
        decide
  | syncTail =>
      simp only [hpc, Option.some.injEq] at hnext
      subst hnext
      rw [hpc] at hclear
      exact h.sync rfl rfl rfl (fun _ => rfl) (by rw [hpc]; rfl) (.inr (.inl (by rw [hpc]; rfl)))
        fun _ => hclear
  | first =>
      simp only [hpc, if_true, Option.some.injEq] at hnext
      subst hnext
      rw [hpc] at hcores
      refine ⟨h.text.first_written rfl rfl rfl (by rw [hpc]; rfl)
        (.inr ⟨by rw [hpc]; rfl, rfl⟩), ?_⟩
      intro k
      exact (hcores k).unnoticed (.inr rfl)
  | syncFirst =>
      simp only [hpc, Option.some.injEq] at hnext
      subst hnext
      refine h.sync rfl rfl rfl (fun _ => rfl) (by rw [hpc]; rfl)
        (.inr (.inr (by rw [hpc]; rfl))) ?_
      rw [hpc]
      exact nofun
  | withdraw =>
      simp only [hpc, Option.some.injEq] at hnext
      subst hnext
      rw [hpc] at hcores
      rw [hpc] at hclear
      refine ⟨h.text.keep rfl rfl (by rw [hpc]; rfl) (by rw [hpc]; decide) ?_, ?_⟩
      · intro h7
        exact absurd (show 8 ≤ 7 from h7) (by decide)
      · intro k
        have hhandled : (s.cores k).Handled := hclear k
        unfold Core.Handled at hhandled
        apply (hcores k).advance
        · intro i _ _ hbetween
          exact hbetween.next (by decide)
        · intro i insn displacement _ hfetched
          exact hfetched.next (.inr (.inr (by decide)))
        · intro rip hplace
          rw [hplace] at hhandled
          exact hhandled.elim
  | giveUp =>
      have hstage := h.text.stage
      rw [hpc] at hstage
      exact absurd hstage (by decide)
  | done ok =>
      simp only [hpc] at hnext
      contradiction

/-- A step of one core. -/
theorem SwapOk.core {s : Swap n} (h : SwapOk pad change s) {k : Fin n} {c : Core}
    (hc : CoreOk pad change s.pc.stage c) : SwapOk pad change (s.withCore k c) := by
  constructor
  · exact ⟨h.text.stage, h.text.first, h.text.rest, h.text.tail, h.text.announced⟩
  · intro j
    by_cases hj : j = k
    · subst hj
      simpa [Swap.withCore] using hc
    · simpa [Swap.withCore, hj] using h.cores j

theorem SwapOk.start {s : Swap n} (hs : (swapMachine n pad change).init s) :
    SwapOk pad change s := by
  obtain ⟨htext, htail, hgPad, hpc, hcores⟩ := hs
  refine ⟨⟨?_, ?_, ?_, ?_, ?_⟩, ?_⟩
  · rw [hpc]
    decide
  · rw [hpc]
    exact htext 0 (by decide)
  · intro i _ h4
    rw [htail]
    exact htext i (by omega)
  · rw [hpc]
    exact htail
  · rw [hpc]
    exact nofun
  · intro k
    rw [hcores]
    trivial

/-- A swap that is not disturbed in its two gaps lets no core derail and no trap
escape, whatever it exchanges and however the cores run beside it. -/
theorem swap_safe (n pad : Nat) (change : Change) :
    ∀ s, (swapMachine n pad change).ReachableWhen Undisturbed s →
      ∀ k, (s.cores k).Safe change := by
  have hinvariant : ∀ s, (swapMachine n pad change).ReachableWhen Undisturbed s →
      SwapOk pad change s := by
    apply Machine.ReachableWhen.invariant
    · intro s hs
      exact .start hs
    · intro s a s' _ hok hundisturbed hnext
      cases a with
      | patch ok => exact hok.patch hundisturbed hnext
      | enter k =>
          obtain ⟨c, hc, rfl⟩ := Option.map_eq_some_iff.mp hnext
          exact hok.core (.enter hc)
      | fetch k =>
          obtain ⟨c, hc, rfl⟩ := Option.map_eq_some_iff.mp hnext
          exact hok.core ((hok.cores k).fetch hok.text hc)
      | exec k =>
          obtain ⟨c, hc, rfl⟩ := Option.map_eq_some_iff.mp hnext
          exact hok.core ((hok.cores k).exec hc)
      | handle k =>
          obtain ⟨c, hc, rfl⟩ := Option.map_eq_some_iff.mp hnext
          exact hok.core ((hok.cores k).lsSwapTrap hok.text hc)
  intro s hs k
  exact ((hinvariant s hs).cores k).safe

/-! ## One core beside a swap -/

instance decidableSuccessful (s : Swap n) (a : SwapLabel n) : Decidable (Successful s a) := by
  unfold Successful
  split <;> infer_instance

instance decidableOutside (c : Core) : Decidable c.Outside := by
  unfold Core.Outside
  split <;> infer_instance

instance decidableFinished (c : Core) : Decidable c.Finished := by
  unfold Core.Finished
  split <;> infer_instance

instance decidableHandled (c : Core) : Decidable c.Handled := by
  unfold Core.Handled
  split <;> infer_instance

instance decidableUndisturbed (s : Swap n) (a : SwapLabel n) : Decidable (Undisturbed s a) := by
  unfold Undisturbed
  split
  · refine @instDecidableAnd _ _ inferInstance ?_
    split <;> infer_instance
  · infer_instance

/-- A pad of NOPs that is about to be armed, and one core. -/
def nopPad : Swap 1 where
  text _ := nopByte
  tail := .nops
  gPad := none
  pc := .announce
  cores _ := { place := .away, ran := [] }

def sampleArm : Change := .arm ⟨0x11, 0x22, 0x33, 0x44⟩

theorem nopPad_init : (swapMachine 1 0 sampleArm).init nopPad :=
  ⟨fun _ _ => rfl, rfl, rfl, rfl, fun _ => rfl⟩

/-- The core executes the first NOP and is preempted; the swap writes the displacement;
the core goes on. -/
def preempted : List (SwapLabel 1) :=
  [.enter 0, .fetch 0, .exec 0] ++ List.replicate 4 (.patch true) ++ [.fetch 0, .exec 0]

/-- A swap whose writes succeed makes a core execute a displacement byte. -/
theorem derailed_core :
    ¬ ∀ (n pad : Nat) (change : Change) (s : Swap n),
      (swapMachine n pad change).ReachableWhen Successful s → ∀ k, (s.cores k).Safe change := by
  intro h
  have hs : (swapMachine 1 0 sampleArm).ReachableWhen Successful
      (((swapMachine 1 0 sampleArm).runWhen Successful nopPad preempted).getD nopPad) :=
    Machine.reachableWhen_run_getD (.start nopPad_init) (by decide +kernel)
  have hcourse := (h 1 0 sampleArm _ hs 0).onCourse
  revert hcourse
  decide +kernel

/-- The core traps on the breakpoint, is sent past the pad, comes back after the swap and
executes the call. -/
def caughtTrap : List (SwapLabel 1) :=
  List.replicate 2 (.patch true) ++ [.enter 0, .fetch 0, .exec 0, .handle 0] ++
    List.replicate 6 (.patch true) ++ [.enter 0, .fetch 0, .exec 0]

theorem swap_safe_caughtTrap :
    ∃ s, (swapMachine 1 0 sampleArm).ReachableWhen Undisturbed s ∧
      (s.cores 0).place = .passed ∧ (s.cores 0).ran = sampleArm.new.whole ∧
      ∀ k, (s.cores k).Safe sampleArm := by
  have hs : (swapMachine 1 0 sampleArm).ReachableWhen Undisturbed
      (((swapMachine 1 0 sampleArm).runWhen Undisturbed nopPad caughtTrap).getD nopPad) :=
    Machine.reachableWhen_run_getD (.start nopPad_init) (by decide +kernel)
  exact ⟨_, hs, by decide +kernel, by decide +kernel, swap_safe 1 0 sampleArm _ hs⟩

end Patch
end LiveSurface
