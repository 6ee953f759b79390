import LiveSurface.Patch.Swap
import LiveSurface.Library.Bytes

/-!
# A swap whose writes fail

A swap writes three times: the breakpoint, the last four bytes and the first byte.  Each write may
fail, and it may fail after some of its bytes have reached the text.  Every failure withdraws the
pad and answers {lit}`-1`, and none of them writes the old bytes back.

Main results:

- Theorem {lit}`swap_kept_iff`: exactly when a swap that fails leaves the old bytes or the new ones.
- Theorem {lit}`stranded_core`: a core that reaches the breakpoint that was left is lost.
-/

namespace LiveSurface
namespace Patch

/-! ## Writes -/

/-- What becomes of one write through {lit}`/proc/self/mem`. -/
inductive Write
  /-- {lit}`open` fails. -/
  | unopened
  /-- {lit}`pwrite` fails. -/
  | failed
  /-- {lit}`pwrite` returns a number of bytes. -/
  | wrote (w : Nat)
deriving DecidableEq

/-- The number of bytes that reach the text, of {lit}`n`. -/
def Write.landed (n : Nat) : Write → Nat
  | .wrote w => min w n
  | _ => 0

/-- All the {lit}`n` bytes reach the text. -/
def Write.Complete (n : Nat) (w : Write) : Prop := ∃ k, w = .wrote k ∧ n ≤ k

instance (n : Nat) (w : Write) : Decidable (w.Complete n) :=
  match w with
  | .unopened => isFalse fun ⟨_, h, _⟩ => (nomatch h)
  | .failed => isFalse fun ⟨_, h, _⟩ => (nomatch h)
  | .wrote k => decidable_of_iff (n ≤ k) ⟨fun h => ⟨k, rfl, h⟩, fun ⟨_, h, hn⟩ => by
      obtain rfl := Write.wrote.inj h
      exact hn⟩

/-- The text, and {lit}`g_pad`. -/
structure Announced where
  text : Text
  gPad : Option Nat

/-- {lit}`ls_poke`. -/
def Announced.lsPoke (m : Announced) (address : Nat) (src : List UInt8) : Write → Announced × Int
  | .unopened => (m, -1)
  | .failed => (m, -1)
  | .wrote w =>
      let w := min w src.length
      ({ m with text := Patch.lsPoke m.text address (src.take w) },
        if w = src.length then 0 else -1)

/-- {lit}`ls_swap_write5`; {lit}`w` is what becomes of its three writes. -/
def Announced.lsSwapWrite5 (m : Announced) (pad : Nat) (bytes : Fin 5 → UInt8) (w : Fin 3 → Write) :
    Announced × Int :=
  let m := { m with gPad := some pad }
  let (m, rc) := m.lsPoke pad [int3Byte] (w 0)
  if rc ≠ 0 then ({ m with gPad := none }, -1)
  else
    let (m, rc) := m.lsPoke (pad + 1) [bytes 1, bytes 2, bytes 3, bytes 4] (w 1)
    if rc ≠ 0 then ({ m with gPad := none }, -1)
    else
      let (m, rc) := m.lsPoke pad [bytes 0] (w 2)
      if rc ≠ 0 then ({ m with gPad := none }, -1)
      else ({ m with gPad := none }, 0)

/-! ## The callers -/

/-- The bytes at a pad. -/
def Text.five (text : Text) (pad : Nat) (i : Fin 5) : UInt8 := text (pad + i)

def endbr : List UInt8 := [0xf3, 0x0f, 0x1e, 0xfa]

def nops : Fin 5 → UInt8 := fun _ => nopByte

/-- {lit}`memcmp(p, LS_ENDBR, LS_ENDBR_LEN) == 0`. -/
def Text.hasEndbr (text : Text) (fn : Nat) : Bool := Memory.load text fn 4 == endbr

/-- {lit}`memcmp(p, LS_NOPS, LS_PAD_LEN) == 0`. -/
def Text.hasNops (text : Text) (p : Nat) : Bool :=
  Memory.load text p 5 == List.replicate 5 nopByte

/-- {lit}`ls_find_pad`. -/
def Text.lsFindPad (text : Text) (fn : Nat) : Option Nat :=
  if text.hasEndbr fn then
    if text.hasNops (fn + 4) then some (fn + 4) else none
  else if text.hasNops fn then some fn
  else none

/-- {lit}`ls_find_armed`. -/
def Text.lsFindArmed (text : Text) (fn : Nat) : Option Nat :=
  if text.hasEndbr fn then
    if text (fn + 4) = callByte then some (fn + 4) else none
  else if text fn = callByte then some fn
  else none

/-- {lit}`ls_trampoline_table` or {lit}`ls_fexit_table`, with its published count. -/
structure Trampolines where
  entry : Nat → Option Nat
  count : Nat

def lsTrampSlots : Nat := 12

/-- The trampoline of a slot, where the checks of {lit}`ls_arm_live` let it through. -/
def Trampolines.tramp (table : Trampolines) (slot : Int) : Option Nat :=
  if slot < 0 ∨ (lsTrampSlots : Int) ≤ slot then none
  else if table.count < lsTrampSlots then none
  else table.entry slot.toNat

/-- The displacement of a call, where it fits {lit}`rel32`. -/
def rel32 (pad tramp : Nat) : Option (List UInt8) :=
  let disp : Int := tramp - (pad + 5)
  if disp < -2 ^ 31 ∨ 2 ^ 31 ≤ disp then none
  else some (littleEndian 4 (disp % 2 ^ 32).toNat)

/-- {lit}`patch`. -/
def callPatch (d32 : List UInt8) : Fin 5 → UInt8 := fun i => (callByte :: d32).getD i 0

/-- {lit}`ls_arm_live`. -/
def Announced.lsArmLive (m : Announced) (fn : Nat) (slot : Int) (table : Trampolines)
    (w : Fin 3 → Write) : Announced × Int :=
  match m.text.lsFindPad fn with
  | none => (m, -1)
  | some pad =>
      match table.tramp slot with
      | none => (m, -1)
      | some tramp =>
          match rel32 pad tramp with
          | none => (m, -1)
          | some d32 =>
              let (m, rc) := m.lsSwapWrite5 pad (callPatch d32) w
              (m, if rc ≠ 0 then -1 else 0)

/-- {lit}`ls_disarm_live`. -/
def Announced.lsDisarmLive (m : Announced) (fn : Nat) (w : Fin 3 → Write) : Announced × Int :=
  match m.text.lsFindArmed fn with
  | none => (m, -1)
  | some pad =>
      let (m, rc) := m.lsSwapWrite5 pad nops w
      (m, if rc ≠ 0 then -1 else 0)

/-! ## One write -/

theorem Write.complete_iff {n : Nat} {w : Write} :
    w.Complete n ↔ ∃ k, w = .wrote k ∧ min k n = n :=
  exists_congr fun _ => and_congr_right fun _ => min_eq_right_iff.symm

theorem Write.Complete.landed {n : Nat} {w : Write} (h : w.Complete n) : w.landed n = n := by
  obtain ⟨k, rfl, hk⟩ := h
  exact Nat.min_eq_right hk

/-- The bytes that a write leaves. -/
theorem lsPoke_apply (text : Text) (address : Nat) (bs : List UInt8) (x : Nat) :
    lsPoke text address bs x =
      if address ≤ x ∧ x < address + bs.length then bs.getD (x - address) 0 else text x := by
  induction bs generalizing address with
  | nil =>
      rw [if_neg]
      · rfl
      · simp only [List.length_nil]
        omega
  | cons b bs ih =>
      rw [lsPoke]
      by_cases hx : x = address
      · subst hx
        rw [Function.update_self, if_pos (by simp), Nat.sub_self]
        rfl
      · rw [Function.update_of_ne hx, ih]
        by_cases hin : address + 1 ≤ x ∧ x < address + 1 + bs.length
        · have hsub : x - address = x - (address + 1) + 1 := by omega
          rw [if_pos hin, if_pos (by simp only [List.length_cons]; omega), hsub, List.getD_cons_succ]
        · rw [if_neg hin, if_neg (by simp only [List.length_cons]; omega)]

/-- A write succeeds exactly when all its bytes reach the text. -/
theorem Announced.lsPoke_ne_zero_iff (m : Announced) (address : Nat) (src : List UInt8) (w : Write) :
    (m.lsPoke address src w).2 ≠ 0 ↔ ¬w.Complete src.length := by
  rw [Write.complete_iff]
  cases w with
  | unopened => simp [Announced.lsPoke]
  | failed => simp [Announced.lsPoke]
  | wrote k => simp [Announced.lsPoke]

/-- The text after a write. -/
theorem Announced.lsPoke_text (m : Announced) (address : Nat) (src : List UInt8) (w : Write) (x : Nat) :
    (m.lsPoke address src w).1.text x =
      if address ≤ x ∧ x < address + w.landed src.length then src.getD (x - address) 0
      else m.text x := by
  cases w with
  | unopened => rw [if_neg (by simp only [Write.landed]; omega), Announced.lsPoke]
  | failed => rw [if_neg (by simp only [Write.landed]; omega), Announced.lsPoke]
  | wrote k =>
      have hlen : (src.take (min k src.length)).length = min k src.length := by
        rw [List.length_take]
        omega
      have hlanded : (Write.wrote k).landed src.length = min k src.length := rfl
      rw [hlanded]
      change Patch.lsPoke m.text address (src.take (min k src.length)) x = _
      rw [lsPoke_apply, hlen]
      by_cases hin : address ≤ x ∧ x < address + min k src.length
      · rw [if_pos hin, if_pos hin, List.getD_eq_getElem?_getD, List.getD_eq_getElem?_getD,
          List.getElem?_take_of_lt (by omega)]
      · rw [if_neg hin, if_neg hin]

/-! ## A swap -/

/-- The bytes that a swap which stops after its breakpoint leaves: the breakpoint, the new bytes up
to an offset and the old bytes after it. -/
def stuck (old new : Fin 5 → UInt8) (k : Nat) (i : Fin 5) : UInt8 :=
  if i = 0 then int3Byte else if i.1 ≤ k then new i else old i

/-- The pad holds the old bytes or the new ones, and it is withdrawn. -/
def Kept (m m' : Announced) (pad : Nat) (bytes : Fin 5 → UInt8) : Prop :=
  m'.gPad = none ∧ (m'.text.five pad = m.text.five pad ∨ m'.text.five pad = bytes)

/-- A mixture that is the old bytes or the new ones all the same, as one of them begins with a
breakpoint. -/
def Coincides (old new : Fin 5 → UInt8) (k : Nat) : Prop :=
  (old 0 = int3Byte ∧ ∀ i : Fin 5, 0 < i.1 → i.1 ≤ k → new i = old i) ∨
    (new 0 = int3Byte ∧ ∀ i : Fin 5, k < i.1 → old i = new i)

theorem stuck_eq_old_iff {old new : Fin 5 → UInt8} {k : Nat} :
    stuck old new k = old ↔
      old 0 = int3Byte ∧ ∀ i : Fin 5, 0 < i.1 → i.1 ≤ k → new i = old i := by
  constructor
  · intro h
    refine ⟨(congrFun h 0).symm, fun i hi hk => ?_⟩
    have hat := congrFun h i
    rwa [stuck, if_neg (by rw [Fin.ext_iff]; exact hi.ne'), if_pos hk] at hat
  · rintro ⟨h0, h⟩
    funext i
    rw [stuck]
    split
    next hi => rw [hi, h0]
    next hi =>
      split
      next hk => exact h i (Fin.pos_iff_ne_zero.mpr hi) hk
      next => rfl

theorem stuck_eq_new_iff {old new : Fin 5 → UInt8} {k : Nat} :
    stuck old new k = new ↔ new 0 = int3Byte ∧ ∀ i : Fin 5, k < i.1 → old i = new i := by
  constructor
  · intro h
    refine ⟨(congrFun h 0).symm, fun i hk => ?_⟩
    have hat := congrFun h i
    rwa [stuck, if_neg (by rw [Fin.ext_iff]; exact (Nat.zero_lt_of_lt hk).ne'),
      if_neg (by omega)] at hat
  · rintro ⟨h0, h⟩
    funext i
    rw [stuck]
    split
    next hi => rw [hi, h0]
    next hi =>
      split
      next => rfl
      next hk => exact h i (by omega)

/-- The bytes at the pad, after a write of some of them. -/
theorem Announced.lsPoke_five (m : Announced) (pad k : Nat) (src : List UInt8) (w : Write) (i : Fin 5) :
    (m.lsPoke (pad + k) src w).1.text.five pad i =
      if k ≤ i.1 ∧ i.1 < k + w.landed src.length then src.getD (i.1 - k) 0
      else m.text.five pad i := by
  rw [Text.five, Announced.lsPoke_text]
  by_cases hin : k ≤ i.1 ∧ i.1 < k + w.landed src.length
  · rw [if_pos hin, if_pos (by omega), Nat.add_sub_add_left]
  · rw [if_neg hin, if_neg (by omega)]
    rfl

/-- A single byte that is not written leaves the text as it was. -/
theorem Announced.lsPoke_five_of_incomplete (m : Announced) (pad : Nat) (b : UInt8) {w : Write}
    (hw : ¬w.Complete 1) : (m.lsPoke pad [b] w).1.text.five pad = m.text.five pad := by
  have hnone : w.landed 1 = 0 := by
    cases w with
    | unopened => rfl
    | failed => rfl
    | wrote k =>
        have hk : ¬1 ≤ k := fun hk => hw ⟨k, rfl, hk⟩
        simp only [Write.landed]
        omega
  funext i
  have hat := m.lsPoke_five pad 0 [b] w i
  rw [List.length_singleton, hnone, if_neg (by omega)] at hat
  exact hat

/-- The breakpoint. -/
theorem Announced.lsPoke_int3 (m : Announced) (pad : Nat) {w : Write} (hw : w.Complete 1) :
    (m.lsPoke pad [int3Byte] w).1.text.five pad = stuck (m.text.five pad) (m.text.five pad) 0 := by
  funext i
  have h := m.lsPoke_five pad 0 [int3Byte] w i
  rw [Nat.add_zero] at h
  rw [h, List.length_singleton, hw.landed, stuck]
  by_cases hi : i = 0
  · subst hi
    rfl
  · have hpos := Fin.pos_iff_ne_zero.mpr hi
    rw [if_neg (by rw [Fin.lt_def] at hpos; simp at hpos; omega), if_neg hi, ite_self]

/-- The last four bytes, in the order in which they are written. -/
theorem getD_tail (bytes : Fin 5 → UInt8) {i : Fin 5} (hi : 0 < i.1) :
    [bytes 1, bytes 2, bytes 3, bytes 4].getD (i.1 - 1) 0 = bytes i :=
  match i, hi with
  | 1, _ => rfl
  | 2, _ => rfl
  | 3, _ => rfl
  | 4, _ => rfl

/-- The last four bytes over a breakpoint. -/
theorem Announced.lsPoke_tail {m : Announced} {pad : Nat} {old : Fin 5 → UInt8} (bytes : Fin 5 → UInt8)
    (w : Write) (hm : m.text.five pad = stuck old old 0) :
    (m.lsPoke (pad + 1) [bytes 1, bytes 2, bytes 3, bytes 4] w).1.text.five pad =
      stuck old bytes (w.landed 4) := by
  funext i
  rw [Announced.lsPoke_five, hm]
  change (if 1 ≤ i.1 ∧ i.1 < 1 + w.landed 4 then [bytes 1, bytes 2, bytes 3, bytes 4].getD (i.1 - 1) 0
    else stuck old old 0 i) = _
  by_cases hi : i = 0
  · rw [if_neg (by rw [hi]; simp), stuck, stuck, if_pos hi, if_pos hi]
  · have hpos : 0 < i.1 := Nat.pos_of_ne_zero fun h => hi (Fin.ext h)
    rw [getD_tail bytes hpos, stuck, stuck, if_neg hi, if_neg hi, ite_self]
    by_cases hk : i.1 ≤ w.landed 4
    · rw [if_pos hk, if_pos (by omega)]
    · rw [if_neg hk, if_neg (by omega)]

/-- How a swap ends: every write succeeds, the first fails and changes nothing, or a later one
fails and the breakpoint stays. -/
theorem lsSwapWrite5_cases (m : Announced) (pad : Nat) (bytes : Fin 5 → UInt8) (w : Fin 3 → Write) :
    (m.lsSwapWrite5 pad bytes w).1.gPad = none ∧
      ((¬(w 0).Complete 1 ∧ (m.lsSwapWrite5 pad bytes w).2 = -1 ∧
          (m.lsSwapWrite5 pad bytes w).1.text.five pad = m.text.five pad) ∨
        ((w 0).Complete 1 ∧ (w 1).Complete 4 ∧ (w 2).Complete 1 ∧
          (m.lsSwapWrite5 pad bytes w).2 = 0) ∨
        ((w 0).Complete 1 ∧ ¬((w 1).Complete 4 ∧ (w 2).Complete 1) ∧
          (m.lsSwapWrite5 pad bytes w).2 = -1 ∧
          (m.lsSwapWrite5 pad bytes w).1.text.five pad =
            stuck (m.text.five pad) bytes ((w 1).landed 4))) := by
  let m0 : Announced := { m with gPad := some pad }
  let m1 := (m0.lsPoke pad [int3Byte] (w 0)).1
  let m2 := (m1.lsPoke (pad + 1) [bytes 1, bytes 2, bytes 3, bytes 4] (w 1)).1
  let m3 := (m2.lsPoke pad [bytes 0] (w 2)).1
  have hrun : m.lsSwapWrite5 pad bytes w =
      if (m0.lsPoke pad [int3Byte] (w 0)).2 ≠ 0 then ({ m1 with gPad := none }, -1)
      else if (m1.lsPoke (pad + 1) [bytes 1, bytes 2, bytes 3, bytes 4] (w 1)).2 ≠ 0 then
        ({ m2 with gPad := none }, -1)
      else if (m2.lsPoke pad [bytes 0] (w 2)).2 ≠ 0 then ({ m3 with gPad := none }, -1)
      else ({ m3 with gPad := none }, 0) := rfl
  have hfirst := m0.lsPoke_ne_zero_iff pad [int3Byte] (w 0)
  have hrest := m1.lsPoke_ne_zero_iff (pad + 1) [bytes 1, bytes 2, bytes 3, bytes 4] (w 1)
  have hlast := m2.lsPoke_ne_zero_iff pad [bytes 0] (w 2)
  by_cases h0 : (w 0).Complete 1
  · have hint3 : m1.text.five pad = stuck (m.text.five pad) (m.text.five pad) 0 := m0.lsPoke_int3 pad h0
    have htail : m2.text.five pad = stuck (m.text.five pad) bytes ((w 1).landed 4) :=
      m1.lsPoke_tail bytes (w 1) hint3
    rw [if_neg (fun h => hfirst.mp h h0)] at hrun
    by_cases h1 : (w 1).Complete 4
    · rw [if_neg (fun h => hrest.mp h h1)] at hrun
      by_cases h2 : (w 2).Complete 1
      · rw [if_neg (fun h => hlast.mp h h2)] at hrun
        rw [hrun]
        exact ⟨rfl, .inr (.inl ⟨h0, h1, h2, rfl⟩)⟩
      · rw [if_pos (hlast.mpr h2)] at hrun
        rw [hrun]
        refine ⟨rfl, .inr (.inr ⟨h0, fun h => h2 h.2, rfl, ?_⟩)⟩
        exact (m2.lsPoke_five_of_incomplete pad (bytes 0) h2).trans htail
    · rw [if_pos (hrest.mpr h1)] at hrun
      rw [hrun]
      exact ⟨rfl, .inr (.inr ⟨h0, fun h => h1 h.1, rfl, htail⟩)⟩
  · rw [if_pos (hfirst.mpr h0)] at hrun
    rw [hrun]
    exact ⟨rfl, .inl ⟨h0, rfl, m0.lsPoke_five_of_incomplete pad int3Byte h0⟩⟩

/-- A swap that fails leaves the old bytes or the new ones exactly when its first write is the one
that fails, or else the breakpoint that stays belongs to one of them. -/
theorem lsSwapWrite5_kept_iff (m : Announced) (pad : Nat) (bytes : Fin 5 → UInt8)
    (w : Fin 3 → Write) :
    ((m.lsSwapWrite5 pad bytes w).2 = -1 → Kept m (m.lsSwapWrite5 pad bytes w).1 pad bytes) ↔
      ¬(w 0).Complete 1 ∨ ((w 1).Complete 4 ∧ (w 2).Complete 1) ∨
        Coincides (m.text.five pad) bytes ((w 1).landed 4) := by
  obtain ⟨hpad, ⟨h0, -, htext⟩ | ⟨-, h1, h2, hret⟩ | ⟨h0, hfail, hret, htext⟩⟩ :=
    lsSwapWrite5_cases m pad bytes w
  · exact iff_of_true (fun _ => ⟨hpad, .inl htext⟩) (.inl h0)
  · refine iff_of_true (fun h => ?_) (.inr (.inl ⟨h1, h2⟩))
    rw [hret] at h
    contradiction
  · have hkept : Kept m (m.lsSwapWrite5 pad bytes w).1 pad bytes ↔
        Coincides (m.text.five pad) bytes ((w 1).landed 4) := by
      rw [Kept, htext, stuck_eq_old_iff, stuck_eq_new_iff]
      exact and_iff_right hpad
    rw [← hkept]
    constructor
    · exact fun h => .inr (.inr (h hret))
    · rintro (h | h | h)
      · exact absurd h0 h
      · exact absurd h hfail
      · exact fun _ => h

/-! ## A core that reaches the pad afterwards -/

/-- A core enters the pad, executes what it finds there and, where it traps, is handled. -/
def Core.reach (m : Announced) (tail : Pad) (pad : Nat) : Option Core := do
  let c ← Core.enter { place := .away, ran := [] }
  let c ← c.fetch m.text tail pad
  let c ← c.exec pad
  match c.place with
  | .trapped _ => c.lsSwapTrap m.gPad
  | _ => pure c

/-- Where no pad is announced, nobody owns the trap of a breakpoint. -/
theorem stranded_core (m : Announced) (tail : Pad) (pad : Nat) (hm : m.gPad = none) :
    (∃ c, Core.reach m tail pad = some c ∧ c.place = .lost) ↔ m.text pad = int3Byte := by
  have hfetch : ∀ c : Core, c.place = .standing 0 →
      c.fetch m.text tail pad = some { c with place := .fetched 0 (decode m.text pad) false } := by
    intro c hc
    rw [Core.fetch, hc]
    rfl
  simp only [Core.reach, Core.enter, hm, Option.bind_eq_bind, Option.bind_some, hfetch, Core.exec,
    decode]
  have hnop : int3Byte ≠ nopByte := by decide
  have hcall : int3Byte ≠ callByte := by decide
  by_cases h1 : m.text pad = nopByte
  · simp [h1, hnop.symm]
  · by_cases h2 : m.text pad = callByte
    · rw [h2] at h1
      simp [h2, h1, hcall.symm]
    · by_cases h3 : m.text pad = int3Byte
      · simp [h3, hnop, hcall, Core.lsSwapTrap]
      · simp [h1, h2, h3]

/-- A failed swap leaves a breakpoint exactly when it has written its own, or has found one. -/
theorem lsSwapWrite5_int3_iff (m : Announced) (pad : Nat) (bytes : Fin 5 → UInt8)
    (w : Fin 3 → Write) :
    ((m.lsSwapWrite5 pad bytes w).2 = -1 →
        (m.lsSwapWrite5 pad bytes w).1.text pad ≠ int3Byte) ↔
      (¬(w 0).Complete 1 → m.text pad ≠ int3Byte) ∧
        ((w 0).Complete 1 → (w 1).Complete 4 ∧ (w 2).Complete 1) := by
  obtain ⟨-, ⟨h0, hret, htext⟩ | ⟨h0, h1, h2, hret⟩ | ⟨h0, hfail, hret, htext⟩⟩ :=
    lsSwapWrite5_cases m pad bytes w
  · have hpad : (m.lsSwapWrite5 pad bytes w).1.text pad = m.text pad := congrFun htext 0
    rw [hpad]
    constructor
    · exact fun h => ⟨fun _ => h hret, fun h' => absurd h' h0⟩
    · exact fun h _ => h.1 h0
  · refine iff_of_true (fun h => ?_) ⟨fun h => absurd h0 h, fun _ => ⟨h1, h2⟩⟩
    rw [hret] at h
    contradiction
  · have hpad : (m.lsSwapWrite5 pad bytes w).1.text pad = int3Byte := congrFun htext 0
    exact iff_of_false (fun h => h hret hpad) (fun h => hfail (h.2 h0))

/-- A swap that fails leaves the old bytes or the new ones exactly when its first write is the one
that fails, or when a byte was a breakpoint before; otherwise the next core that comes to the pad
is lost. -/
theorem swap_kept_iff (m : Announced) (pad : Nat) (bytes : Fin 5 → UInt8) (w : Fin 3 → Write) :
    (((m.lsSwapWrite5 pad bytes w).2 = -1 → Kept m (m.lsSwapWrite5 pad bytes w).1 pad bytes) ↔
        ¬(w 0).Complete 1 ∨ ((w 1).Complete 4 ∧ (w 2).Complete 1) ∨
          Coincides (m.text.five pad) bytes ((w 1).landed 4)) ∧
      ∀ tail,
        ((m.lsSwapWrite5 pad bytes w).2 = -1 →
            ¬∃ c, Core.reach (m.lsSwapWrite5 pad bytes w).1 tail pad = some c ∧ c.place = .lost) ↔
          (¬(w 0).Complete 1 → m.text pad ≠ int3Byte) ∧
            ((w 0).Complete 1 → (w 1).Complete 4 ∧ (w 2).Complete 1) := by
  refine ⟨lsSwapWrite5_kept_iff m pad bytes w, fun tail => ?_⟩
  rw [stranded_core _ tail pad (lsSwapWrite5_cases m pad bytes w).1]
  exact lsSwapWrite5_int3_iff m pad bytes w

/-! ## Disarming -/

/-- A call at a pad that is to become NOPs, where the second write fails: the pad is withdrawn and
holds a breakpoint over the old displacement. -/
theorem disarm_stranded :
    let m : Announced := { text := lsPoke (fun _ => 0) 4 [callByte, 1, 2, 3, 4], gPad := none }
    let w : Fin 3 → Write := fun i => if i = 0 then .wrote 1 else .failed
    let m' := (m.lsSwapWrite5 4 nops w).1
    m.text.lsFindArmed 4 = some 4 ∧ (m.lsDisarmLive 4 w).2 = -1 ∧
      (m.lsSwapWrite5 4 nops w).2 = -1 ∧ Memory.load m'.text 4 5 = [int3Byte, 1, 2, 3, 4] ∧
      ¬Kept m m' 4 nops ∧
      Core.reach m' (.call ⟨1, 2, 3, 4⟩) 4 = some { place := .lost, ran := [(0, .int3)] } := by
  refine ⟨by decide, by decide, by decide, by decide, ?_, by decide⟩
  rintro ⟨-, h | h⟩
  · exact absurd (congrFun h 0) (by decide)
  · exact absurd (congrFun h 0) (by decide)

end Patch
end LiveSurface
