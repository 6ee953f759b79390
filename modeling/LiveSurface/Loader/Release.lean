import LiveSurface.Loader.Ownership
import LiveSurface.Control.Message

/-!
# Mappings of the control path

A message lies in a mapping of its own, and a request for a program with several entries in a second
one.  The first belongs to {lit}`handle_msg` and the second to the request; each has one place
where it is released.  Three refusals go past the first of these places.

The state of the loader is seen here through its two owners only.  A step maps or releases at most
one address, and gives it to one owner or takes it from one.

Main results:

- Theorem {lit}`Effect.of_next`: what a step maps or releases, and for which owner.
- Theorem {lit}`mappings_released`: when no message is refused by one of the three gates, every
  mapping is released once, and no owner is left without its request.
- Theorem {lit}`gate_leaks`: each of these refusals loses the mapping of its message.
-/

namespace LiveSurface
namespace Loader

open Control

/-! ## Messages and mappings -/

def Op.ofWire (op : UInt32) : Op :=
  if op = shieldOpLoad then .load
  else if op = shieldOpSetMode then .setMode
  else if op = shieldOpRevoke then .revoke
  else if op = shieldOpConfigStatus ∨ op = shieldOpConfigPublish then .config
  else if op = opBench then .bench
  else if op = 0x2001 then .program .load
  else if op = 0x2002 then .program .attach
  else if op = 0x2003 then .program .detach
  else if op = 0x2004 then .program .mode
  else if op = 0x2005 then .program .revoke
  else if op = 0x2006 then .program .status
  else .other

/-- The request of a message; {lit}`none` where {lit}`ls_load_receive` refuses it. -/
def requestOf : Option ShieldMsg → Request
  | none => { op := .other, epoch := 0, mode := 0, prog := [] }
  | some m => {
      op := .ofWire m.op
      epoch := m.epoch.toNat
      mode := m.mode.toNat
      prog := m.prog }

/-- A call of the kernel. -/
inductive MapCall
  | mmap (address : Nat)
  | munmap (address : Nat)
deriving DecidableEq

/-- The loader and the prepare thread, the message that is being handled, and the calls so far. -/
structure Serving where
  handoff : Handoff
  msg : Option ShieldMsg
  calls : List MapCall

inductive ServeLabel
  /-- A connection is accepted: its mapping is made, and a message arrives or does not. -/
  | connect (scratch : Nat) (m : Option ShieldMsg)
  /-- Any other step of one of the threads, at a time. -/
  | step (now : UInt64) (a : HandoffLabel)

/-- The message lets the loader make this step. -/
def Serving.permits (s : Serving) (build : List UInt8) (now : UInt64) : LoaderLabel → Bool
  | .connect .. => false
  | .leak => s.msg.any fun m => !(m.exit build now).releases
  | .answer => s.msg.all fun m => (m.exit build now).releases
  | .submit => s.msg.all fun m => m.exit build now == .program || m.exit build now == .op
  | .fill _ | .proceed => true

/-- The call that a step makes. -/
def Handoff.mapCall (s : Handoff) : HandoffLabel → Option MapCall
  | .loader (.connect scratch _) => some (.mmap scratch)
  | .loader (.fill (some address)) =>
      match s.loader with
      | .filling _ req => if lsIsProgramOp req.op then some (.mmap address) else none
      | _ => none
  | .loader .proceed =>
      match s.loader with
      | .releasing scratch => some (.munmap scratch)
      | _ => none
  | .thread .release => if lsIsProgramOp s.prep.op then s.prep.prog.map .munmap else none
  | _ => none

/-- A step of the threads, with its call. -/
def Serving.advance (s : Serving) (a : HandoffLabel) (msg : Option ShieldMsg) : Option Serving :=
  (handoffNext s.handoff a).map fun h =>
    { handoff := h, msg := msg, calls := s.calls ++ (s.handoff.mapCall a).toList }

def Serving.next (build : List UInt8) (s : Serving) : ServeLabel → Option Serving
  | .connect scratch m => s.advance (.loader (.connect scratch (requestOf m))) m
  | .step now (.loader a) => if s.permits build now a then s.advance (.loader a) s.msg else none
  | .step _ (.thread a) => s.advance (.thread a) s.msg

/-- The control path of a build. -/
def servingMachine (build : List UInt8) : Machine Serving ServeLabel where
  init s := handoffMachine.init s.handoff ∧ s.msg = none ∧ s.calls = []
  next := Serving.next build

/-! ## Owners -/

/-- An operation on a program that was handed to the prepare thread and is not over. -/
def Handoff.Pending (s : Handoff) : Prop :=
  lsIsProgramOp s.prep.op = true ∧ (s.loader.isParking = true ∨ s.prep.state = .pending)

instance (s : Handoff) : Decidable s.Pending := inferInstanceAs (Decidable (_ ∧ _))

/-- Its copy of the request. -/
def Handoff.copy (s : Handoff) : Option Nat := if s.Pending then s.prep.prog else none

/-- What a step does to the mappings and to their owners: it keeps them, or gives an address to the
message or to the request, or takes it from one of them. -/
inductive Effect (s s' : Handoff) : Option MapCall → Prop
  | keep (memory : ∀ a, s'.memory a = none ↔ s.memory a = none)
      (scratch : s'.loader.scratch = s.loader.scratch) (copy : s'.copy = s.copy) :
      Effect s s' none
  | receive (b : Nat) (free : s.memory b = none)
      (memory : ∀ a, s'.memory a = none ↔ a ≠ b ∧ s.memory a = none)
      (before : s.loader.scratch = none) (scratch : s'.loader.scratch = some b)
      (copy : s'.copy = s.copy) : Effect s s' (some (.mmap b))
  | duplicate (b : Nat) (free : s.memory b = none)
      (memory : ∀ a, s'.memory a = none ↔ a ≠ b ∧ s.memory a = none)
      (scratch : s'.loader.scratch = s.loader.scratch) (before : s.copy = none)
      (copy : s'.copy = some b) : Effect s s' (some (.mmap b))
  | answer (b : Nat) (memory : ∀ a, s'.memory a = none ↔ a = b ∨ s.memory a = none)
      (before : s.loader.scratch = some b) (scratch : s'.loader.scratch = none)
      (copy : s'.copy = s.copy) : Effect s s' (some (.munmap b))
  | complete (b : Nat) (memory : ∀ a, s'.memory a = none ↔ a = b ∨ s.memory a = none)
      (scratch : s'.loader.scratch = s.loader.scratch) (before : s.copy = some b)
      (copy : s'.copy = none) : Effect s s' (some (.munmap b))

/-- A completed request has no copy. -/
def Handoff.Emptied (s : Handoff) : Prop :=
  s.thread = .storing → lsIsProgramOp s.prep.op = true → s.prep.prog = none

theorem mmap_eq_none {memory : Nat → Option (List UInt8)} {b : Nat} {contents : List UInt8}
    (a : Nat) : mmap memory b contents a = none ↔ a ≠ b ∧ memory a = none := by
  by_cases h : a = b
  · subst h
    simp [mmap]
  · simp [mmap, h]

theorem munmap_eq_none {memory : Nat → Option (List UInt8)} {b : Nat} (a : Nat) :
    munmap memory b a = none ↔ a = b ∨ memory a = none := by
  by_cases h : a = b
  · subst h
    simp [munmap]
  · simp [munmap, h]

theorem Effect.of_proceed {s s' : Handoff} (hok : HandoffOk s) (hnext : s.proceed = some s') :
    Effect s s' (s.mapCall (.loader .proceed)) := by
  unfold Handoff.proceed at hnext
  cases hloader : s.loader with
  | reclaiming scratch req =>
      simp only [hloader] at hnext
      obtain rfl := Option.some.inj hnext
      simp only [Handoff.mapCall, hloader]
      refine .keep (fun _ => .rfl) (by rw [hloader]; rfl) ?_
      grind [Handoff.copy, Handoff.Pending, LsPrep.reclaim, LoaderPc.isParking]
  | checking scratch req =>
      simp only [hloader] at hnext
      obtain rfl := Option.some.inj hnext
      simp only [Handoff.mapCall, hloader]
      refine .keep (fun _ => .rfl) ?_ ?_
      · grind [LoaderPc.scratch]
      · grind [Handoff.copy, Handoff.Pending, LoaderPc.isParking]
  | parking scratch =>
      simp only [hloader] at hnext
      obtain rfl := Option.some.inj hnext
      simp only [Handoff.mapCall, hloader]
      refine .keep (fun _ => .rfl) (by rw [hloader]; rfl) ?_
      grind [Handoff.copy, Handoff.Pending, LoaderPc.isParking]
  | waiting scratch left =>
      cases left with
      | zero =>
          simp only [hloader] at hnext
          obtain rfl := Option.some.inj hnext
          simp only [Handoff.mapCall, hloader]
          refine .keep (fun _ => .rfl) (by rw [hloader]; rfl) ?_
          grind [Handoff.copy, Handoff.Pending, LoaderPc.isParking]
      | succ left =>
          simp only [hloader] at hnext
          obtain rfl := Option.some.inj hnext
          simp only [Handoff.mapCall, hloader]
          refine .keep (fun _ => .rfl) ?_ ?_
          · grind [LoaderPc.scratch]
          · grind [Handoff.copy, Handoff.Pending, LoaderPc.isParking]
  | collecting scratch =>
      simp only [hloader] at hnext
      obtain rfl := Option.some.inj hnext
      have hdone := hok.collecting scratch hloader
      simp only [Handoff.mapCall, hloader]
      refine .keep (fun _ => .rfl) (by rw [hloader]; rfl) ?_
      grind [Handoff.copy, Handoff.Pending, LoaderPc.isParking]
  | releasing scratch =>
      simp only [hloader] at hnext
      obtain rfl := Option.some.inj hnext
      simp only [Handoff.mapCall, hloader]
      refine .answer scratch munmap_eq_none (by rw [hloader]; rfl) rfl ?_
      grind [Handoff.copy, Handoff.Pending, LoaderPc.isParking]
  | idle =>
      simp only [hloader] at hnext
      contradiction
  | received scratch req =>
      simp only [hloader] at hnext
      contradiction
  | filling scratch req =>
      simp only [hloader] at hnext
      contradiction

theorem Effect.of_fill {s s' : Handoff} {copy : Option Nat} (hok : HandoffOk s)
    (hnext : s.fill copy = some s') : Effect s s' (s.mapCall (.loader (.fill copy))) := by
  unfold Handoff.fill at hnext
  cases hloader : s.loader with
  | filling scratch req =>
      have hidle := hok.filling scratch req hloader
      have hnone : s.copy = none := by grind [Handoff.copy, Handoff.Pending, LoaderPc.isParking]
      simp only [hloader] at hnext
      by_cases hop : lsIsProgramOp req.op = true
      · rw [if_pos hop] at hnext
        cases copy with
        | none =>
            obtain rfl := Option.some.inj hnext
            refine .keep (fun _ => .rfl) (by rw [hloader]; rfl) ?_
            grind [Handoff.copy, Handoff.Pending, LoaderPc.isParking]
        | some address =>
            obtain ⟨hfree, hs⟩ := Option.ite_none_right_eq_some.mp hnext
            obtain rfl := Option.some.inj hs
            simp only [Handoff.mapCall, hloader, hop]
            refine .duplicate address hfree mmap_eq_none (by rw [hloader]; rfl) hnone ?_
            simp [Handoff.copy, Handoff.Pending, LsPrep.fill, hop, LoaderPc.isParking]
      · rw [if_neg hop] at hnext
        obtain rfl := Option.some.inj hnext
        have hcall : s.mapCall (.loader (.fill copy)) = none := by
          cases copy with
          | none => rfl
          | some address => simp only [Handoff.mapCall, hloader, if_neg hop]
        rw [hcall]
        refine .keep (fun _ => .rfl) (by rw [hloader]; rfl) ?_
        rw [hnone, Handoff.copy, if_neg]
        exact fun h => hop h.1
  | _ =>
      simp only [hloader] at hnext
      contradiction

/-- The steps of the loader, apart from the one that forgets its mapping. -/
theorem Effect.of_loader {s s' : Handoff} {a : LoaderLabel} (hok : HandoffOk s)
    (hleak : a ≠ .leak) (hnext : loaderNext s a = some s') :
    Effect s s' (s.mapCall (.loader a)) := by
  cases a with
  | connect scratch req =>
      obtain ⟨⟨hidle, hfree⟩, hs⟩ := Option.ite_none_right_eq_some.mp hnext
      obtain rfl := Option.some.inj hs
      refine .receive scratch hfree mmap_eq_none (by rw [hidle]; rfl) rfl ?_
      grind [Handoff.copy, Handoff.Pending, LoaderPc.isParking]
  | answer =>
      simp only [loaderNext] at hnext
      split at hnext
      · rename_i scratch req hloader
        obtain rfl := Option.some.inj hnext
        refine .keep (fun _ => .rfl) (by rw [hloader]; rfl) ?_
        grind [Handoff.copy, Handoff.Pending, LoaderPc.isParking]
      · contradiction
  | leak => exact absurd rfl hleak
  | submit =>
      simp only [loaderNext] at hnext
      split at hnext
      · rename_i scratch req hloader
        obtain ⟨_, hs⟩ := Option.ite_none_right_eq_some.mp hnext
        obtain rfl := Option.some.inj hs
        refine .keep (fun _ => .rfl) ?_ ?_
        · grind [LoaderPc.scratch]
        · grind [Handoff.copy, Handoff.Pending, LoaderPc.isParking]
      · contradiction
  | fill copy => exact .of_fill hok hnext
  | proceed => exact .of_proceed hok hnext

theorem patch_eq_none (s : Handoff) (p : Patch) (a : Nat) :
    (s.patch p).memory a = none ↔ s.memory a = none := by
  unfold Handoff.patch
  cases s.prep.prog with
  | none => exact .rfl
  | some address =>
      by_cases h : a = address
      · subst h
        simp
      · simp [h]

theorem verify_keeps (s : Handoff) (ok : Bool) :
    (s.verify ok).memory = s.memory ∧ (s.verify ok).prep.prog = s.prep.prog := by
  unfold Handoff.verify Handoff.record
  split
  · split <;> exact ⟨rfl, rfl⟩
  · exact ⟨rfl, rfl⟩

theorem Effect.of_thread {s s' : Handoff} {a : ThreadLabel} (hok : HandoffOk s)
    (hempty : s.Emptied) (hnext : threadNext s a = some s') :
    Effect s s' (s.mapCall (.thread a)) := by
  have hstep := thread_step hok hnext
  have hscratch : s'.loader.scratch = s.loader.scratch := by rw [hstep.loader]
  cases a with
  | start =>
      obtain ⟨h, hs⟩ := Option.ite_none_right_eq_some.mp hnext
      obtain rfl := Option.some.inj hs
      exact .keep (fun _ => .rfl) rfl rfl
  | verify ok =>
      obtain ⟨h, hs⟩ := Option.ite_none_right_eq_some.mp hnext
      obtain rfl := Option.some.inj hs
      obtain ⟨hmemory, hprog⟩ := verify_keeps s ok
      obtain ⟨hstate, hop, hloader, -⟩ := verify_prep s ok
      refine .keep (fun a => by rw [hmemory]) hscratch ?_
      have hpending : (s.verify ok).Pending ↔ s.Pending := by
        unfold Handoff.Pending
        rw [hstate, hop, hloader]
      exact if_congr hpending hprog rfl
  | read =>
      obtain ⟨h, hs⟩ := Option.ite_none_right_eq_some.mp hnext
      obtain rfl := Option.some.inj hs
      exact .keep (fun _ => .rfl) rfl rfl
  | patch p =>
      obtain ⟨h, hs⟩ := Option.ite_none_right_eq_some.mp hnext
      obtain rfl := Option.some.inj hs
      exact .keep (patch_eq_none s p) rfl rfl
  | finish rc =>
      obtain ⟨h, hs⟩ := Option.ite_none_right_eq_some.mp hnext
      obtain rfl := Option.some.inj hs
      exact .keep (fun _ => .rfl) rfl rfl
  | release =>
      obtain ⟨h, hs⟩ := Option.ite_none_right_eq_some.mp hnext
      obtain rfl := Option.some.inj hs
      have hpending := hstep.pending
      unfold Handoff.release
      by_cases hop : lsIsProgramOp s.prep.op = true
      · cases hprog : s.prep.prog with
        | none =>
            simp only [hop, Handoff.mapCall, hprog]
            exact .keep (fun _ => .rfl) rfl rfl
        | some address =>
            simp only [hop, Handoff.mapCall, hprog]
            refine .complete address munmap_eq_none rfl ?_ ?_
            · rw [Handoff.copy, if_pos ⟨hop, .inr hpending⟩, hprog]
            · exact ite_self _
      · rw [Bool.not_eq_true] at hop
        simp only [hop, Handoff.mapCall]
        exact .keep (fun _ => .rfl) rfl rfl
  | publish =>
      obtain ⟨h, hs⟩ := Option.ite_none_right_eq_some.mp hnext
      obtain rfl := Option.some.inj hs
      refine .keep (fun _ => .rfl) rfl ?_
      by_cases hop : lsIsProgramOp s.prep.op = true
      · have hprog := hempty h hop
        simp [Handoff.copy, hprog]
      · simp [Handoff.copy, Handoff.Pending, hop]

/-- What a step maps or releases, and for which owner. -/
theorem Effect.of_next {s s' : Handoff} {a : HandoffLabel} (hok : HandoffOk s)
    (hempty : s.Emptied) (hleak : a ≠ .loader .leak) (hnext : handoffNext s a = some s') :
    Effect s s' (s.mapCall a) := by
  cases a with
  | loader a => exact .of_loader hok (fun h => hleak (congrArg _ h)) hnext
  | thread a => exact .of_thread hok hempty hnext

/-- While a request is pending the loader leaves its record alone. -/
theorem loader_keeps_record {s s' : Handoff} {a : LoaderLabel} (hok : HandoffOk s)
    (hpending : s.prep.state = .pending) (hnext : loaderNext s a = some s') :
    s'.thread = s.thread ∧ s'.prep.op = s.prep.op ∧ s'.prep.prog = s.prep.prog := by
  have hfilling := hok.filling
  cases a with
  | connect scratch req => grind [loaderNext]
  | answer => grind [loaderNext]
  | leak => grind [loaderNext]
  | submit => grind [loaderNext]
  | fill copy => grind [loaderNext, Handoff.fill]
  | proceed => grind [loaderNext, Handoff.proceed, LsPrep.reclaim]

theorem release_prog {s : Handoff} (hop : lsIsProgramOp s.prep.op = true) :
    s.release.prep.prog = none := by
  unfold Handoff.release
  cases hprog : s.prep.prog with
  | none =>
      rw [hop]
      exact hprog
  | some address =>
      rw [hop]

theorem emptied_next {s s' : Handoff} {a : HandoffLabel} (hok : HandoffOk s) (h : s.Emptied)
    (hnext : handoffNext s a = some s') : s'.Emptied := by
  intro hstoring hop
  cases a with
  | loader a =>
      by_cases hpending : s.prep.state = .pending
      · obtain ⟨hthread, hop', hprog⟩ := loader_keeps_record hok hpending hnext
        rw [hprog]
        exact h (hthread ▸ hstoring) (hop' ▸ hop)
      · have hidle := hok.thread_idle hpending
        have hthread : s'.thread = s.thread := by
          cases a with
          | connect scratch req => grind [handoffNext, loaderNext]
          | answer => grind [handoffNext, loaderNext]
          | leak => grind [handoffNext, loaderNext]
          | submit => grind [handoffNext, loaderNext]
          | fill copy => grind [handoffNext, loaderNext, Handoff.fill]
          | proceed => grind [handoffNext, loaderNext, Handoff.proceed]
        rw [hthread, hidle] at hstoring
        contradiction
  | thread a =>
      cases a with
      | start => grind [handoffNext, threadNext]
      | verify ok =>
          obtain ⟨-, hs⟩ := Option.ite_none_right_eq_some.mp hnext
          obtain rfl := Option.some.inj hs
          rcases (verify_prep s ok).2.2.2 with hrun | hdone
          · rw [hrun] at hstoring
            contradiction
          · rw [hdone] at hstoring
            contradiction
      | read => grind [handoffNext, threadNext, Handoff.record]
      | patch p => grind [handoffNext, threadNext, Handoff.patch]
      | finish rc => grind [handoffNext, threadNext]
      | release =>
          obtain ⟨-, hs⟩ := Option.ite_none_right_eq_some.mp hnext
          obtain rfl := Option.some.inj hs
          exact release_prog ((release_prep s).2.1 ▸ hop)
      | publish => grind [handoffNext, threadNext]

/-! ## Every mapping has its owner -/

/-- The mappings are those of the two owners. -/
structure Owned (s : Handoff) : Prop where
  scratch : ∀ a, s.loader.scratch = some a → s.memory a ≠ none
  copy : ∀ a, s.copy = some a → s.memory a ≠ none
  apart : ∀ a, s.loader.scratch = some a → s.copy ≠ some a
  owner : ∀ a, s.memory a ≠ none → s.loader.scratch = some a ∨ s.copy = some a

/-- The calls that were made: what is mapped has been mapped once more than released, and what is
not mapped has been released as often as it was mapped. -/
def Balanced (memory : Nat → Option (List UInt8)) (calls : List MapCall) : Prop :=
  ∀ a, calls.count (.mmap a) =
    calls.count (.munmap a) + if memory a = none then 0 else 1

theorem Effect.owned {s s' : Handoff} {call : Option MapCall} (h : Effect s s' call)
    (hs : Owned s) : Owned s' := by
  obtain ⟨hscratch, hcopy, hapart, howner⟩ := hs
  cases h with
  | keep memory scratch copy =>
      refine ⟨?_, ?_, ?_, ?_⟩
      all_goals
        intro a
        simp only [ne_eq, memory, scratch, copy]
      · exact hscratch a
      · exact hcopy a
      · exact hapart a
      · exact howner a
  | receive b free memory before scratch copy =>
      grind [Owned]
  | duplicate b free memory scratch before copy =>
      grind [Owned]
  | answer b memory before scratch copy =>
      grind [Owned]
  | complete b memory scratch before copy =>
      grind [Owned]

theorem Effect.balanced {s s' : Handoff} {call : Option MapCall} (h : Effect s s' call)
    (hs : Owned s) {calls : List MapCall} (hcalls : Balanced s.memory calls) :
    Balanced s'.memory (calls ++ call.toList) := by
  intro a
  have ha := hcalls a
  cases h with
  | keep memory scratch copy =>
      simpa [memory] using ha
  | receive b free memory before scratch copy =>
      grind
  | duplicate b free memory scratch before copy =>
      grind
  | answer b memory before scratch copy =>
      have hb := hs.scratch b before
      grind
  | complete b memory scratch before copy =>
      have hb := hs.copy b before
      grind

/-- What holds of the control path as long as nothing is forgotten. -/
structure ServingOk (s : Serving) : Prop where
  handoff : HandoffOk s.handoff
  emptied : s.handoff.Emptied
  owned : Owned s.handoff
  balanced : Balanced s.handoff.memory s.calls

theorem ServingOk.start {build : List UInt8} {s : Serving} (h : (servingMachine build).init s) :
    ServingOk s := by
  obtain ⟨hinit, -, hcalls⟩ := h
  have hstart : handoffMachine.Reachable s.handoff := .start hinit
  have hok := handoffMachine_ok s.handoff hstart
  obtain ⟨hprep, hloader, hthread, hmemory, -⟩ := hinit
  have hcopy : s.handoff.copy = none := by
    rw [Handoff.copy, hprep]
    exact ite_self _
  refine ⟨hok, fun h => ?_, ⟨fun a h => ?_, fun a h => ?_, fun a h => ?_, fun a h => ?_⟩, fun a => ?_⟩
  · rw [hthread] at h
    contradiction
  · rw [hloader] at h
    contradiction
  · rw [hcopy] at h
    contradiction
  · rw [hloader] at h
    contradiction
  · exact absurd (hmemory a) h
  · rw [hcalls, hmemory]
    rfl

theorem ServingOk.advance {s s' : Serving} {a : HandoffLabel} {msg : Option ShieldMsg}
    (h : ServingOk s) (hleak : a ≠ .loader .leak) (hnext : s.advance a msg = some s') :
    ServingOk s' := by
  obtain ⟨t, ht, rfl⟩ := Option.map_eq_some_iff.mp hnext
  have heffect := Effect.of_next h.handoff h.emptied hleak ht
  have hok : HandoffOk t := by
    cases a with
    | loader a => exact h.handoff.loader ht
    | thread a => exact h.handoff.thread ht
  exact ⟨hok, emptied_next h.handoff h.emptied ht, heffect.owned h.owned,
    heffect.balanced h.owned h.balanced⟩

/-! ## Gates -/

/-- The message that is being handled is not refused by a gate that forgets its mapping. -/
def Ungated (build : List UInt8) (s : Serving) : ServeLabel → Prop
  | .step now (.loader _) => ∀ scratch req, s.handoff.loader = .received scratch req →
      ∀ m, s.msg = some m → (m.exit build now).releases = true
  | _ => True

/-- The requests in progress: a message that is being handled, and an operation that is not over. -/
def Handoff.inProgress (s : Handoff) : Nat :=
  (if s.loader = .idle then 0 else 1) + if s.Pending then 1 else 0

/-- Every mapping is released once, in time. -/
structure Released (s : Serving) : Prop where
  /-- Every address has been released as often as it was mapped, if it is not mapped now. -/
  balanced : Balanced s.handoff.memory s.calls
  /-- When a message has been handled, only the copy of an operation that is not over is left. -/
  handled : s.handoff.loader = .idle → ∀ a, s.handoff.memory a ≠ none →
    s.handoff.Pending ∧ s.handoff.prep.prog = some a
  /-- When an operation is over, its copy is released. -/
  completed : ¬s.handoff.Pending → ∀ a, s.handoff.memory a ≠ none →
    s.handoff.loader.scratch = some a
  /-- There is no more than one mapping for a request in progress. -/
  bounded : ∃ live : List Nat, (∀ a, s.handoff.memory a ≠ none ↔ a ∈ live) ∧ live.Nodup ∧
    live.length ≤ s.handoff.inProgress

theorem pending_of_copy {s : Handoff} {a : Nat} (h : s.copy = some a) :
    s.Pending ∧ s.prep.prog = some a := by
  unfold Handoff.copy at h
  split at h
  next hpending => exact ⟨hpending, h⟩
  next => contradiction

theorem ServingOk.released {s : Serving} (h : ServingOk s) : Released s := by
  have hscratch : ∀ a, s.handoff.loader.scratch = some a → s.handoff.loader ≠ .idle := by
    intro a ha hidle
    rw [hidle] at ha
    contradiction
  refine ⟨h.balanced, ?_, ?_, ?_⟩
  · intro hidle a ha
    rcases h.owned.owner a ha with hown | hown
    · exact absurd hidle (hscratch a hown)
    · exact pending_of_copy hown
  · intro hover a ha
    rcases h.owned.owner a ha with hown | hown
    · exact hown
    · exact absurd (pending_of_copy hown).1 hover
  · refine ⟨s.handoff.loader.scratch.toList ++ s.handoff.copy.toList, ?_, ?_, ?_⟩
    · intro a
      rw [List.mem_append, Option.mem_toList, Option.mem_toList]
      constructor
      · exact h.owned.owner a
      · rintro (hown | hown)
        · exact h.owned.scratch a hown
        · exact h.owned.copy a hown
    · cases hs : s.handoff.loader.scratch with
      | none =>
          cases s.handoff.copy <;> simp
      | some a =>
          have hne := h.owned.apart a hs
          cases hc : s.handoff.copy with
          | none => simp
          | some b =>
              rw [hc] at hne
              simpa [eq_comm] using hne
    · rw [List.length_append, Handoff.inProgress]
      refine Nat.add_le_add ?_ ?_
      · cases hs : s.handoff.loader.scratch with
        | none => exact Nat.zero_le _
        | some a =>
            rw [if_neg (hscratch a hs)]
            exact Nat.le_refl 1
      · unfold Handoff.copy
        split
        · exact Option.length_toList_le
        · exact Nat.le_refl 0

theorem leak_received {build : List UInt8} {s s' : Serving} {now : UInt64}
    (hnext : (servingMachine build).next s (.step now (.loader .leak)) = some s') :
    ∃ scratch req m, s.handoff.loader = .received scratch req ∧ s.msg = some m ∧
      (m.exit build now).releases = false ∧
      s'.handoff = { s.handoff with loader := .idle } := by
  obtain ⟨hpermits, hadvance⟩ := Option.ite_none_right_eq_some.mp hnext
  obtain ⟨t, ht, rfl⟩ := Option.map_eq_some_iff.mp hadvance
  obtain ⟨m, hm, hreleases⟩ := (Option.any_eq_true ..).mp hpermits
  simp only [handoffNext, loaderNext] at ht
  split at ht
  · rename_i scratch req hloader
    obtain ⟨-, ht⟩ := Option.ite_none_left_eq_some.mp ht
    obtain rfl := Option.some.inj ht
    exact ⟨scratch, req, m, hloader, hm, by simpa using hreleases, rfl⟩
  · contradiction

/-- A step that no gate of a forgotten mapping is responsible for. -/
theorem ServingOk.next {build : List UInt8} {s s' : Serving} {l : ServeLabel} (h : ServingOk s)
    (hungated : Ungated build s l) (hnext : (servingMachine build).next s l = some s') :
    ServingOk s' := by
  cases l with
  | connect scratch m =>
      have hadvance : s.advance (.loader (.connect scratch (requestOf m))) m = some s' := hnext
      refine h.advance ?_ hadvance
      exact nofun
  | step now a =>
      cases a with
      | thread a =>
          have hadvance : s.advance (.thread a) s.msg = some s' := hnext
          refine h.advance ?_ hadvance
          exact nofun
      | loader a =>
          have hleak : a ≠ .leak := by
            rintro rfl
            obtain ⟨scratch, req, m, hloader, hm, hreleases, -⟩ := leak_received hnext
            have hreleases' := hungated scratch req hloader m hm
            rw [hreleases] at hreleases'
            contradiction
          obtain ⟨-, hadvance⟩ := Option.ite_none_right_eq_some.mp hnext
          exact h.advance (fun heq => hleak (HandoffLabel.loader.inj heq)) hadvance

theorem servingMachine_ok (build : List UInt8) :
    ∀ s, (servingMachine build).ReachableWhen (Ungated build) s → ServingOk s := by
  apply Machine.ReachableWhen.invariant
  · exact fun s hs => .start hs
  · exact fun s l s' _ h hungated hnext => h.next hungated hnext

/-- A message that such a gate refuses can only be forgotten. -/
theorem gated_leaks {build : List UInt8} {s s' : Serving} {l : ServeLabel}
    (hnext : (servingMachine build).next s l = some s') (hgated : ¬Ungated build s l) :
    ∃ now, l = .step now (.loader .leak) := by
  cases l with
  | connect scratch m => exact absurd trivial hgated
  | step now a =>
      cases a with
      | thread a => exact absurd trivial hgated
      | loader a =>
          simp only [Ungated, not_forall] at hgated
          obtain ⟨scratch, req, hloader, m, hm, hreleases⟩ := hgated
          obtain ⟨hpermits, hadvance⟩ := Option.ite_none_right_eq_some.mp hnext
          obtain ⟨t, ht, -⟩ := Option.map_eq_some_iff.mp hadvance
          cases a with
          | leak => exact ⟨now, rfl⟩
          | connect scratch req => contradiction
          | answer =>
              rw [Serving.permits, hm] at hpermits
              exact absurd hpermits hreleases
          | submit =>
              rw [Serving.permits, hm] at hpermits
              have hexit : m.exit build now = .program ∨ m.exit build now = .op := by
                simpa using hpermits
              rcases hexit with hexit | hexit
              · exact absurd (by rw [hexit]; rfl) hreleases
              · exact absurd (by rw [hexit]; rfl) hreleases
          | fill copy =>
              simp only [handoffNext, loaderNext, Handoff.fill, hloader] at ht
              contradiction
          | proceed =>
              simp only [handoffNext, loaderNext, Handoff.proceed, hloader] at ht
              contradiction

/-- In every run in which no message is refused by one of the gates that forget its mapping, every
mapping is released exactly once, by the time that its owner is done.  Each such refusal leaves a
mapping without an owner. -/
theorem mappings_released (build : List UInt8) :
    (∀ s, (servingMachine build).ReachableWhen (Ungated build) s → Released s) ∧
      ∀ s l s', (servingMachine build).ReachableWhen (Ungated build) s →
        (servingMachine build).next s l = some s' → ¬Ungated build s l → ¬Released s' := by
  refine ⟨fun s hs => (servingMachine_ok build s hs).released, ?_⟩
  intro s l s' hs hnext hgated hreleased
  have h := servingMachine_ok build s hs
  obtain ⟨now, rfl⟩ := gated_leaks hnext hgated
  obtain ⟨scratch, req, m, hloader, -, -, hs'⟩ := leak_received hnext
  have hscratch : s.handoff.loader.scratch = some scratch := by
    rw [hloader]
    rfl
  have hmapped : s'.handoff.memory scratch ≠ none := by
    rw [hs']
    exact h.owned.scratch scratch hscratch
  obtain ⟨hpending, hprog⟩ := hreleased.handled (by rw [hs']) scratch hmapped
  rw [hs'] at hpending hprog
  have hparking : s.handoff.Pending := ⟨hpending.1, .inr (hpending.2.resolve_left nofun)⟩
  refine h.owned.apart scratch hscratch ?_
  rw [Handoff.copy, if_pos hparking]
  exact hprog

/-- A REVOKE whose client was built for another context layout. -/
def staleMsg : ShieldMsg where
  op := shieldOpRevoke
  epoch := 0
  mode := 0
  binding := {
    progSha256 := []
    hook := []
    buildMin := 0
    buildMax := 0
    modeCeiling := 0
    ctxAbiVersion := 2
    expiresWith := 0 }
  sig := []
  prog := []

def Serving.initial : Serving where
  handoff := {
    timerOn := true
    prep := .zero
    memory := fun _ => none
    loader := .idle
    thread := .idle
    submitted := []
    patches := []
    reads := [] }
  msg := none
  calls := []

/-- Two refused messages, and two mappings that nobody has. -/
def refusedTwice : List ServeLabel :=
  [.connect 4096 (some staleMsg), .step 0 (.loader .leak),
    .connect 8192 (some staleMsg), .step 0 (.loader .leak)]

theorem gate_leaks :
    ¬∀ build s, (servingMachine build).Reachable s → Released s := by
  intro h
  have hinit : (servingMachine []).init .initial := ⟨⟨rfl, rfl, rfl, fun _ => rfl, rfl⟩, rfl, rfl⟩
  have hrun : ((servingMachine []).run .initial refusedTwice).isSome = true := by decide
  have hs := h [] _ (Machine.reachable_run_getD (.start hinit) hrun)
  have hleft := hs.handled (by decide) 4096 (by decide)
  revert hleft
  decide

end Loader
end LiveSurface
