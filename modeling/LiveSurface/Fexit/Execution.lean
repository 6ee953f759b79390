import LiveSurface.Fexit.ShadowStack

/-!
# Runs of hooked calls

The machine below is a thread on a downward-growing stack.  It calls functions,
enters hooked ones (at their start, or by a tail call that reuses the return
slot), writes memory that is not a live return slot, returns, and leaves by a
non-local exit to any live caller.  Returning reads the slot: if it holds the
stub's address, control is in the stub, which calls {lit}`ls_fexit_leave` and
returns through the word it pushes back at the same slot.

Every live activation remembers the entries that hijacked its slot and have not
been left yet, the latest first, with what the slot held when each was made.
That record is the specification; the code never reads it.

Main results:

- Theorem {lit}`Stacked.prepend`: frames of abandoned calls are absorbed by the
  activation that control went back to.
- Theorem {lit}`coherent_of_reachable`: the shadow stack lists the unfinished
  entries of every live activation, in order, between frames that are dead.
- Theorem {lit}`fexit_returns_to_caller`: every exit through the stub returns what its
  entry found, runs that entry's program on its arguments, and discards nothing
  that is live.
-/

namespace LiveSurface
namespace Fexit

/-! ## The thread -/

/-- A hijacking entry that has not been left. -/
structure HookedEntry where
  progSlot : Int
  args : Vector Word 6
  /-- What the return slot held when the entry was made. -/
  saved : Word
deriving DecidableEq

/-- A function that has been called and has not returned. -/
structure Activation where
  slot : Word
  /-- Where its caller wants it to return. -/
  ret : Word
  pending : List HookedEntry
deriving DecidableEq

inductive Control
  | body
  | inStub (retval : Word)
deriving DecidableEq

structure Thread where
  fx : State
  mem : Stack
  /-- Live activations, the innermost first. -/
  live : List Activation
  control : Control

inductive Act
  | call (slot ret : Word)
  | enter (progSlot : Int) (args : Vector Word 6) (vm : VmAtEntry)
  | write (addr value : Word)
  | ret (retval : Word)
  | leave
  | longjmp (depth : Nat)

/-- A call goes below the return slot of the function that makes it. -/
def Deeper (slot : Word) : List Activation → Prop
  | [] => True
  | a :: _ => slot < a.slot

instance (slot : Word) : (live : List Activation) → Decidable (Deeper slot live)
  | [] => .isTrue trivial
  | a :: _ => inferInstanceAs (Decidable (slot < a.slot))

/-- The entries of an activation after one more was made. -/
def enterPending (t : Thread) (a : Activation) (progSlot : Int) (args : Vector Word 6) :
    Activation :=
  if t.fx.HasRoom then
    { a with
      pending := { progSlot := progSlot, args := args, saved := t.mem a.slot } :: a.pending }
  else a

/-- The innermost activation returns to the word in its slot. -/
def returnTo (stub : Word) (t : Thread) (retval : Word) (a : Activation)
    (rest : List Activation) : Thread :=
  if t.mem a.slot = stub then { t with live := a :: rest, control := .inStub retval }
  else { t with live := rest, control := .body }

/-- The stub calls {lit}`ls_fexit_leave`, pushes what it gets and returns. -/
def leaveStub (stub : Word) (t : Thread) (retval : Word) (a : Activation)
    (rest : List Activation) : Thread :=
  let out := lsFexitLeave t.fx (a.slot + 8) retval
  returnTo stub { t with fx := out.fx, mem := Function.update t.mem a.slot out.ret } retval
    { a with pending := a.pending.tail } rest

def nextThread (stub : Word) (t : Thread) : Act → Option Thread
  | .call slot ret =>
      if t.control = .body ∧ ret ≠ stub ∧ Deeper slot t.live then
        some { t with
          mem := Function.update t.mem slot ret
          live := { slot := slot, ret := ret, pending := [] } :: t.live }
      else none
  | .enter progSlot args vm =>
      match t.control, t.live with
      | .body, a :: rest =>
          let out := lsFexitEnter stub t.fx t.mem progSlot a.slot args vm
          some { t with
            fx := out.1
            mem := out.2
            live := enterPending t a progSlot args :: rest }
      | _, _ => none
  | .write addr value =>
      if ∀ a ∈ t.live, addr ≠ a.slot then
        some { t with mem := Function.update t.mem addr value }
      else none
  | .ret retval =>
      match t.control, t.live with
      | .body, a :: rest => some (returnTo stub t retval a rest)
      | _, _ => none
  | .leave =>
      match t.control, t.live with
      | .inStub retval, a :: rest => some (leaveStub stub t retval a rest)
      | _, _ => none
  | .longjmp depth =>
      if t.control = .body ∧ depth < t.live.length then
        some { t with live := t.live.drop depth }
      else none

def fexitMachine (stub : Word) : Machine Thread Act where
  init t := t.fx = lsFexitReset ∧ t.live = [] ∧ t.control = .body
  next := nextThread stub

/-! ## Where the frames of live activations lie -/

def Frame.entry (f : Frame) : HookedEntry where
  progSlot := f.progSlot
  args := f.args
  saved := f.realRet

/-- The frames recorded for a return slot, among those recorded since its
activation began, are its unfinished entries; every other one is deeper. -/
def Block (a : Activation) (block : List Frame) : Prop :=
  (∀ f ∈ block, f.slot ≤ a.slot) ∧
    (block.filter fun f => f.slot = a.slot).map Frame.entry = a.pending

/-- The shadow stack is one block for each live activation over whatever was
left there before. -/
def Stacked : List Activation → List Frame → Prop
  | [], _ => True
  | a :: rest, frames =>
      ∃ block below, frames = block ++ below ∧ Block a block ∧ Stacked rest below

/-- Slots grow from the innermost activation outwards. -/
def Nested (live : List Activation) : Prop :=
  live.Pairwise fun inner outer => inner.slot < outer.slot

/-- What the return slot of an activation must hold. -/
def Activation.slotHolds (stub : Word) (a : Activation) : Word :=
  match a.pending with
  | [] => a.ret
  | _ :: _ => stub

/-- The first unfinished entry found the caller's address, later ones the
stub's. -/
def Activation.Chained (stub ret : Word) : List HookedEntry → Prop
  | [] => True
  | [e] => e.saved = ret
  | e :: e' :: rest => e.saved = stub ∧ Activation.Chained stub ret (e' :: rest)

structure Coherent (stub : Word) (t : Thread) : Prop where
  depth : t.fx.stack.length ≤ lsFexitDepth
  synced : t.fx.desync = 0
  nested : Nested t.live
  stacked : Stacked t.live t.fx.stack
  foreign : ∀ a ∈ t.live, a.ret ≠ stub
  chained : ∀ a ∈ t.live, Activation.Chained stub a.ret a.pending
  holds : ∀ a ∈ t.live, t.mem a.slot = a.slotHolds stub
  hijacked : ∀ retval, t.control = .inStub retval →
    ∃ a rest, t.live = a :: rest ∧ a.pending ≠ []

/-! ## Frames of live activations -/

variable {stub : Word} {t : Thread} {a : Activation} {rest live : List Activation}
  {frames : List Frame}

/-- Frames deeper than the innermost activation join its block. -/
theorem Stacked.prepend (h : Stacked live frames) {stale : List Frame}
    (hstale : ∀ f ∈ stale, Deeper f.slot live) : Stacked live (stale ++ frames) := by
  cases live with
  | nil => trivial
  | cons a rest =>
      obtain ⟨block, below, rfl, ⟨hle, hentries⟩, hbelow⟩ := h
      have hfilter : (stale.filter fun f => f.slot = a.slot) = [] := by
        apply List.filter_eq_nil_iff.mpr
        intro f hf
        have hlt : f.slot < a.slot := hstale f hf
        simp only [decide_eq_true_eq]
        grind
      refine ⟨stale ++ block, below, by simp, ⟨?_, ?_⟩, hbelow⟩
      · intro f hf
        rcases List.mem_append.mp hf with hf | hf
        · have hlt : f.slot < a.slot := hstale f hf
          grind
        · exact hle f hf
      · rw [List.filter_append, hfilter, List.nil_append]
        exact hentries

/-- When the innermost activation is gone, by a return or by a non-local exit,
its block is stale and belongs to its caller. -/
theorem Stacked.abandon (h : Stacked (a :: rest) frames) (hnested : Nested (a :: rest)) :
    Stacked rest frames := by
  obtain ⟨block, below, rfl, ⟨hle, _⟩, hbelow⟩ := h
  apply hbelow.prepend
  intro f hf
  cases rest with
  | nil => trivial
  | cons outer outers =>
      have hinner : a.slot < outer.slot :=
        List.rel_of_pairwise_cons hnested List.mem_cons_self
      have hf' : f.slot ≤ a.slot := hle f hf
      show f.slot < outer.slot
      grind

/-- A non-local exit abandons one activation after another. -/
theorem Stacked.drop (depth : Nat) :
    ∀ {live : List Activation}, Stacked live frames → Nested live →
      Stacked (live.drop depth) frames := by
  induction depth with
  | zero =>
      intro live h _
      exact h
  | succ depth ih =>
      intro live h hnested
      cases live with
      | nil => trivial
      | cons a rest => exact ih (h.abandon hnested) hnested.of_cons

/-- A hijacking entry. -/
theorem Stacked.push (h : Stacked (a :: rest) frames) {f : Frame} (hslot : f.slot = a.slot) :
    Stacked ({ a with pending := f.entry :: a.pending } :: rest) (f :: frames) := by
  obtain ⟨block, below, rfl, ⟨hle, hentries⟩, hbelow⟩ := h
  refine ⟨f :: block, below, rfl, ⟨?_, ?_⟩, hbelow⟩
  · intro g hg
    rcases List.mem_cons.mp hg with rfl | hg
    · show g.slot ≤ a.slot
      grind
    · exact hle g hg
  · simp [hslot, hentries]

/-- The latest unfinished entry of the innermost activation is the first frame
of its slot, under deeper ones only. -/
theorem Stacked.top (h : Stacked (a :: rest) frames) {e : HookedEntry}
    {es : List HookedEntry} (hpending : a.pending = e :: es) :
    ∃ deeper f below, frames = deeper ++ f :: below ∧ f.slot = a.slot ∧
      (∀ g ∈ deeper, g.slot < a.slot) ∧ f.entry = e ∧
      Stacked ({ a with pending := es } :: rest) below := by
  obtain ⟨block, below, rfl, ⟨hle, hentries⟩, hbelow⟩ := h
  rw [hpending] at hentries
  obtain ⟨f, fs, hfilter, hentry, hfs⟩ := List.map_eq_cons_iff.mp hentries
  obtain ⟨deeper, block', rfl, hdeeper, hslot, hblock'⟩ :=
    List.filter_eq_cons_iff.mp hfilter
  refine ⟨deeper, f, block' ++ below, by simp, by simpa using hslot, ?_, hentry,
    block', below, rfl, ⟨?_, ?_⟩, hbelow⟩
  · intro g hg
    have hne : g.slot ≠ a.slot := by simpa using hdeeper g hg
    have hg' : g.slot ≤ a.slot := hle g (by simp [hg])
    grind
  · intro g hg
    exact hle g (by simp [hg])
  · show (block'.filter fun f => f.slot = a.slot).map Frame.entry = es
    rw [hblock']
    exact hfs

/-- Every unfinished entry of a live activation has its frame, in order. -/
theorem Stacked.entries_sublist :
    ∀ {live : List Activation} {frames : List Frame}, Stacked live frames →
      (live.flatMap Activation.pending).Sublist (frames.map Frame.entry) := by
  intro live
  induction live with
  | nil =>
      intro frames _
      exact List.nil_sublist _
  | cons a rest ih =>
      intro frames h
      obtain ⟨block, below, rfl, ⟨_, hentries⟩, hbelow⟩ := h
      rw [List.flatMap_cons, List.map_append, ← hentries]
      exact (List.filter_sublist.map _).append (ih hbelow)

/-! ## One step -/

theorem coherent_init (hinit : (fexitMachine stub).init t) : Coherent stub t := by
  obtain ⟨hfx, hlive, hcontrol⟩ := hinit
  constructor
  · rw [hfx]
    exact Nat.zero_le _
  · rw [hfx]
    rfl
  · rw [hlive]
    exact List.Pairwise.nil
  · rw [hlive]
    trivial
  · simp [hlive]
  · simp [hlive]
  · simp [hlive]
  · simp [hcontrol]

/-- Slots of different live activations differ. -/
theorem Nested.slot_ne (hnested : Nested (a :: rest)) {b : Activation} (hb : b ∈ rest) :
    b.slot ≠ a.slot := by
  have hlt : a.slot < b.slot := List.rel_of_pairwise_cons hnested hb
  grind

/-- A call below the innermost activation stays nested. -/
theorem Nested.call (hnested : Nested live) {slot : Word} (hdeeper : Deeper slot live)
    (ret : Word) : Nested ({ slot := slot, ret := ret, pending := [] } :: live) := by
  cases live with
  | nil => exact List.pairwise_singleton _ _
  | cons a rest =>
      apply List.Pairwise.cons _ hnested
      intro b hb
      have ha : slot < a.slot := hdeeper
      rcases List.mem_cons.mp hb with rfl | hb
      · exact ha
      · have hb' : a.slot < b.slot := List.rel_of_pairwise_cons hnested hb
        show slot < b.slot
        grind

theorem Coherent.call (h : Coherent stub t) {slot ret : Word} (hbody : t.control = .body)
    (hret : ret ≠ stub) (hdeeper : Deeper slot t.live) :
    Coherent stub { t with
      mem := Function.update t.mem slot ret
      live := { slot := slot, ret := ret, pending := [] } :: t.live } := by
  have hnested := h.nested.call hdeeper ret
  refine ⟨h.depth, h.synced, hnested, ?_, ?_, ?_, ?_, ?_⟩
  · exact ⟨[], t.fx.stack, rfl, ⟨by simp, rfl⟩, h.stacked⟩
  · intro b hb
    rcases List.mem_cons.mp hb with rfl | hb
    · exact hret
    · exact h.foreign b hb
  · intro b hb
    rcases List.mem_cons.mp hb with rfl | hb
    · trivial
    · exact h.chained b hb
  · intro b hb
    rcases List.mem_cons.mp hb with rfl | hb
    · exact Function.update_self ..
    · have hne : b.slot ≠ slot := hnested.slot_ne hb
      show Function.update t.mem slot ret b.slot = _
      rw [Function.update_of_ne hne]
      exact h.holds b hb
  · intro retval hstub
    rw [show t.control = .inStub retval from hstub] at hbody
    contradiction

/-- The innermost activation gets other unfinished entries, and its slot what
they say it holds. -/
theorem Coherent.replaceTop (h : Coherent stub t) (hlive : t.live = a :: rest) {fx : State}
    {pending : List HookedEntry} {value : Word}
    (hdepth : fx.stack.length ≤ lsFexitDepth) (hsynced : fx.desync = 0)
    (hstacked : Stacked ({ a with pending := pending } :: rest) fx.stack)
    (hchained : Activation.Chained stub a.ret pending)
    (hvalue : value = { a with pending := pending }.slotHolds stub) :
    Coherent stub
      { fx := fx
        mem := Function.update t.mem a.slot value
        live := { a with pending := pending } :: rest
        control := .body } := by
  have hnested : Nested (a :: rest) := hlive ▸ h.nested
  have hmem : ∀ b ∈ rest, b ∈ t.live := by
    intro b hb
    rw [hlive]
    exact List.mem_cons_of_mem a hb
  have ha : a ∈ t.live := by
    rw [hlive]
    exact List.mem_cons_self
  refine ⟨hdepth, hsynced, ?_, hstacked, ?_, ?_, ?_, by simp⟩
  · exact List.Pairwise.cons (List.pairwise_cons.mp hnested).1 hnested.of_cons
  · intro b hb
    rcases List.mem_cons.mp hb with rfl | hb
    · exact h.foreign a ha
    · exact h.foreign b (hmem b hb)
  · intro b hb
    rcases List.mem_cons.mp hb with rfl | hb
    · exact hchained
    · exact h.chained b (hmem b hb)
  · intro b hb
    rcases List.mem_cons.mp hb with rfl | hb
    · show Function.update t.mem a.slot value a.slot = _
      rw [Function.update_self]
      exact hvalue
    · show Function.update t.mem a.slot value b.slot = _
      rw [Function.update_of_ne (hnested.slot_ne hb)]
      exact h.holds b (hmem b hb)

/-- One more entry on what the slot holds now keeps the chain. -/
theorem Activation.Chained.enter {e : HookedEntry}
    (hchained : Activation.Chained stub a.ret a.pending)
    (hsaved : e.saved = a.slotHolds stub) :
    Activation.Chained stub a.ret (e :: a.pending) := by
  unfold Activation.slotHolds at hsaved
  cases hpending : a.pending with
  | nil =>
      rw [hpending] at hsaved
      exact hsaved
  | cons e' es =>
      rw [hpending] at hsaved hchained
      exact ⟨hsaved, hchained⟩

theorem Coherent.enter (h : Coherent stub t) (hbody : t.control = .body)
    (hlive : t.live = a :: rest) (progSlot : Int) (args : Vector Word 6) (vm : VmAtEntry) :
    Coherent stub { t with
      fx := (lsFexitEnter stub t.fx t.mem progSlot a.slot args vm).1
      mem := (lsFexitEnter stub t.fx t.mem progSlot a.slot args vm).2
      live := enterPending t a progSlot args :: rest } := by
  have ha : a ∈ t.live := by
    rw [hlive]
    exact List.mem_cons_self
  have hstacked : Stacked (a :: rest) t.fx.stack := hlive ▸ h.stacked
  by_cases hroom : t.fx.HasRoom
  · rw [lsFexitEnter_room hroom, enterPending, if_pos hroom, hbody]
    apply h.replaceTop hlive
    · exact hroom.1
    · exact h.synced
    · exact hstacked.push rfl
    · exact (h.chained a ha).enter (h.holds a ha)
    · rfl
  · rw [lsFexitEnter_full hroom, enterPending, if_neg hroom, ← hlive]
    exact ⟨h.depth, h.synced, h.nested, h.stacked, h.foreign, h.chained, h.holds, h.hijacked⟩

theorem Coherent.write (h : Coherent stub t) {addr : Word} (value : Word)
    (haddr : ∀ a ∈ t.live, addr ≠ a.slot) :
    Coherent stub { t with mem := Function.update t.mem addr value } := by
  refine ⟨h.depth, h.synced, h.nested, h.stacked, h.foreign, h.chained, ?_, h.hijacked⟩
  intro b hb
  show Function.update t.mem addr value b.slot = _
  rw [Function.update_of_ne (haddr b hb).symm]
  exact h.holds b hb

/-- Some innermost activations are gone. -/
theorem Coherent.drop (h : Coherent stub t) (depth : Nat) :
    Coherent stub { t with live := t.live.drop depth, control := .body } := by
  refine ⟨h.depth, h.synced, ?_, h.stacked.drop depth h.nested, ?_, ?_, ?_, by simp⟩
  · exact h.nested.sublist (List.drop_sublist depth t.live)
  · intro b hb
    exact h.foreign b (List.mem_of_mem_drop hb)
  · intro b hb
    exact h.chained b (List.mem_of_mem_drop hb)
  · intro b hb
    exact h.holds b (List.mem_of_mem_drop hb)

/-- A return lands in the stub exactly when there is an entry to finish. -/
theorem Coherent.returnTo (h : Coherent stub t) (hlive : t.live = a :: rest) (retval : Word) :
    Coherent stub (returnTo stub t retval a rest) := by
  unfold Fexit.returnTo
  have ha : a ∈ t.live := by
    rw [hlive]
    exact List.mem_cons_self
  split
  · rename_i hstub
    rw [← hlive]
    refine ⟨h.depth, h.synced, h.nested, h.stacked, h.foreign, h.chained, h.holds, ?_⟩
    intro _ _
    refine ⟨a, rest, hlive, ?_⟩
    intro hpending
    have hholds := h.holds a ha
    rw [hstub, Activation.slotHolds, hpending] at hholds
    exact h.foreign a ha hholds.symm
  · have hdrop := h.drop 1
    rw [hlive] at hdrop
    exact hdrop

/-- The exit of the latest unfinished entry of the innermost activation. -/
theorem Coherent.leave (h : Coherent stub t) (hlive : t.live = a :: rest)
    {e : HookedEntry} {es : List HookedEntry} (hpending : a.pending = e :: es)
    (retval : Word) :
    ∃ (f : Frame) (below : List Frame), f.entry = e ∧ below.length ≤ lsFexitDepth ∧
      Stacked ({ a with pending := es } :: rest) below ∧
      (lsFexitLeave t.fx (a.slot + 8) retval).fx.stack = below ∧
      (lsFexitLeave t.fx (a.slot + 8) retval).fx.desync = 0 ∧
      (lsFexitLeave t.fx (a.slot + 8) retval).run = some (f.returnRun retval) ∧
      (lsFexitLeave t.fx (a.slot + 8) retval).ret = e.saved := by
  have hstacked : Stacked (a :: rest) t.fx.stack := hlive ▸ h.stacked
  obtain ⟨deeper, f, below, hstack, hslot, hdeeper, hentry, hbelow⟩ := hstacked.top hpending
  obtain ⟨hleft, hdesync, hrun, hret⟩ :=
    lsFexitLeave_match hstack hslot hdeeper retval
  have hdepth : below.length ≤ lsFexitDepth := by
    have hall := h.depth
    rw [hstack, List.length_append, List.length_cons] at hall
    omega
  refine ⟨f, below, hentry, hdepth, hbelow, hleft, hdesync.trans h.synced, hrun, ?_⟩
  rw [hret, ← hentry]
  rfl

/-- Finishing an entry leaves in the slot what it found there. -/
theorem Activation.Chained.leave {e : HookedEntry} {es : List HookedEntry}
    (hchained : Activation.Chained stub a.ret (e :: es)) :
    e.saved = { a with pending := es }.slotHolds stub ∧
      Activation.Chained stub a.ret es := by
  cases es with
  | nil => exact ⟨hchained, trivial⟩
  | cons e' es => exact hchained

theorem Coherent.leaveStub (h : Coherent stub t) {retval : Word}
    (hstub : t.control = .inStub retval) (hlive : t.live = a :: rest) :
    Coherent stub (leaveStub stub t retval a rest) := by
  obtain ⟨a', rest', hlive', hpending⟩ := h.hijacked retval hstub
  rw [hlive] at hlive'
  obtain ⟨rfl, rfl⟩ := List.cons.inj hlive'
  obtain ⟨e, es, hpending⟩ := List.exists_cons_of_ne_nil hpending
  obtain ⟨f, below, _, hdepth, hstacked, hleft, hsynced, _, hret⟩ :=
    h.leave hlive hpending retval
  have hchained := h.chained a (by simp [hlive])
  rw [hpending] at hchained
  have hreplaced := h.replaceTop hlive (hleft ▸ hdepth) hsynced (hleft ▸ hstacked)
    hchained.leave.2 hchained.leave.1
  have hreturned := hreplaced.returnTo rfl retval
  unfold Fexit.leaveStub
  simp only [hret, hpending, List.tail_cons]
  exact hreturned

theorem Coherent.step (h : Coherent stub t) {act : Act} {t' : Thread}
    (hnext : (fexitMachine stub).next t act = some t') : Coherent stub t' := by
  simp only [fexitMachine, nextThread] at hnext
  cases act with
  | call slot ret =>
      simp only [Option.ite_none_right_eq_some, Option.some.injEq] at hnext
      obtain ⟨⟨hbody, hret, hdeeper⟩, rfl⟩ := hnext
      exact h.call hbody hret hdeeper
  | enter progSlot args vm =>
      simp only at hnext
      split at hnext
      · rename_i a rest hbody hlive
        cases hnext
        exact h.enter hbody hlive progSlot args vm
      · contradiction
  | write addr value =>
      simp only [Option.ite_none_right_eq_some, Option.some.injEq] at hnext
      obtain ⟨haddr, rfl⟩ := hnext
      exact h.write value haddr
  | ret retval =>
      simp only at hnext
      split at hnext
      · rename_i a rest hbody hlive
        cases hnext
        exact h.returnTo hlive retval
      · contradiction
  | leave =>
      simp only at hnext
      split at hnext
      · rename_i retval a rest hstub hlive
        cases hnext
        exact h.leaveStub hstub hlive
      · contradiction
  | longjmp depth =>
      simp only [Option.ite_none_right_eq_some, Option.some.injEq] at hnext
      obtain ⟨⟨hbody, _⟩, rfl⟩ := hnext
      have hdrop := h.drop depth
      rw [← hbody] at hdrop
      exact hdrop

theorem coherent_of_reachable :
    ∀ t, (fexitMachine stub).Reachable t → Coherent stub t := by
  apply Machine.Reachable.invariant
  · intro t hinit
    exact coherent_init hinit
  · intro t act t' _ h hnext
    exact h.step hnext

/-! ## Every exit returns to the right place -/

/-- The exit the stub is about to make finishes the latest entry of the
innermost activation: it returns what that entry found in the slot, runs that
entry's program on its arguments, and keeps the frames of all the others. -/
def LeavesCorrectly (t : Thread) (retval : Word) : Prop :=
  ∃ a rest e es run,
    t.live = a :: rest ∧ a.pending = e :: es ∧
    (lsFexitLeave t.fx (a.slot + 8) retval).ret = e.saved ∧
    (lsFexitLeave t.fx (a.slot + 8) retval).run = some run ∧
    run.progSlot = e.progSlot ∧ run.arg = ctxArgs e.args ∧
    (es ++ rest.flatMap Activation.pending).Sublist
      ((lsFexitLeave t.fx (a.slot + 8) retval).fx.stack.map Frame.entry) ∧
    (lsFexitLeave t.fx (a.slot + 8) retval).fx.desync = 0

/-- In every state of every run of calls, entries, tail calls, returns and
non-local exits: no exit has missed its frame, every unfinished entry of a live
function has its frame, a function without one returns to its caller directly,
the stub's next exit is the right one, and an entry beyond the depth touches
neither the slot nor the frames. -/
theorem fexit_returns_to_caller (stub : Word) (t : Thread)
    (ht : (fexitMachine stub).Reachable t) :
    t.fx.desync = 0 ∧
      (t.live.flatMap Activation.pending).Sublist (t.fx.stack.map Frame.entry) ∧
      (∀ a ∈ t.live, a.pending = [] → t.mem a.slot = a.ret) ∧
      (∀ retval, t.control = .inStub retval → LeavesCorrectly t retval) ∧
      (∀ progSlot slot args vm, lsFexitDepth ≤ t.fx.stack.length →
        (lsFexitEnter stub t.fx t.mem progSlot slot args vm).2 = t.mem ∧
        (lsFexitEnter stub t.fx t.mem progSlot slot args vm).1.stack = t.fx.stack) := by
  have h := coherent_of_reachable t ht
  refine ⟨h.synced, h.stacked.entries_sublist, ?_, ?_, ?_⟩
  · intro a ha hpending
    rw [h.holds a ha, Activation.slotHolds, hpending]
  · intro retval hstub
    obtain ⟨a, rest, hlive, hpending⟩ := h.hijacked retval hstub
    obtain ⟨e, es, hpending⟩ := List.exists_cons_of_ne_nil hpending
    obtain ⟨f, below, hentry, _, hstacked, hleft, hdesync, hrun, hret⟩ :=
      h.leave hlive hpending retval
    refine ⟨a, rest, e, es, f.returnRun retval, hlive, hpending, hret, hrun, ?_, ?_, ?_,
      hdesync⟩
    · rw [Frame.returnRun_progSlot, ← hentry]
      rfl
    · rw [Frame.returnRun_arg, ← hentry]
      rfl
    · rw [hleft]
      exact hstacked.entries_sublist
  · intro progSlot slot args vm hfull
    rw [lsFexitEnter_full (State.not_hasRoom_of_full hfull)]
    exact ⟨rfl, rfl⟩

/-- A value-return hook. -/
def noSnapshot : VmAtEntry where
  identity := none
  call _ _ := none

def freshThread : Thread where
  fx := lsFexitReset
  mem _ := 0
  live := []
  control := .body

/-- A hooked caller; a hooked callee that makes a hooked call and is skipped by
a non-local exit; then a callee at the address of the skipped one that tail-calls
another hooked function and returns. -/
def jumpThenTailCall : List Act :=
  [.call 1000 1, .enter 3 (Vector.replicate 6 30) noSnapshot,
    .call 900 2, .enter 4 (Vector.replicate 6 40) noSnapshot,
    .call 800 2, .enter 5 (Vector.replicate 6 50) noSnapshot,
    .longjmp 2,
    .call 900 2, .enter 6 (Vector.replicate 6 60) noSnapshot,
    .enter 7 (Vector.replicate 6 70) noSnapshot, .ret 9, .leave]

def afterTailCall : Thread :=
  ((fexitMachine 77).run freshThread jumpThenTailCall).getD freshThread

/-- The stub was re-entered for the first of the two entries of one slot, with
two stale frames still below. -/
theorem fexit_returns_to_caller_jumpThenTailCall :
    afterTailCall.control = .inStub 9 ∧ afterTailCall.fx.stack.length = 4 ∧
      afterTailCall.fx.desync = 0 ∧ LeavesCorrectly afterTailCall 9 := by
  have hreach : (fexitMachine 77).Reachable afterTailCall :=
    Machine.reachable_run_getD (.start ⟨rfl, rfl, rfl⟩) (by decide +kernel)
  have hstub : afterTailCall.control = .inStub 9 := by decide +kernel
  have hright := fexit_returns_to_caller 77 afterTailCall hreach
  exact ⟨hstub, by decide +kernel, hright.1, hright.2.2.2.1 9 hstub⟩

end Fexit
end LiveSurface
