import LiveSurface.Config.Register

/-!
# Snapshots of the configuration store

The control path stores an image word by word between two stores of the slot's
sequence counter.  A program invocation copies the words between two loads of
the counter, once, and uses the copy only if the counter did not move.  Every
atomic access below is one step of a machine; its labels pick the party that
moves, so that a run is an arbitrary interleaving of one writer with any number
of invocations.

Each slot carries a log of its completed writes, newest first, and each
invocation remembers the write its copy came from and the bytes its own program
stored over the copy.  Neither is read by a transition.

Main results:

- Theorem {lit}`writer_alone`: undisturbed, the writer's steps are the
  sequential store operation.
- Theorem {lit}`consistent_of_reachable`: the invariant of all interleavings.
- Theorem {lit}`configSnapshot_consistent`: an available view is the image of
  one accepted publication, never a mixture.
-/

namespace LiveSurface
namespace Config

/-! ## The writer -/

/-- The operation a write belongs to. -/
inductive WriteKind
  | bind (sha : List UInt8)
  | publish (body : List UInt8)
  | revoke

/-- A write that has passed the checks of its operation. -/
structure ConfigWrite where
  slot : Nat
  kind : WriteKind
  image : LsConfigImage

/-- Requests of the control writer. -/
inductive ControlOp
  | bind (slot : Nat) (instanceId : UInt64) (sha : List UInt8)
  | publish (slot : Nat) (body : Option (List UInt8))
  | revoke (slot : Nat)

/-- The checks made before {lit}`lsConfigWrite`; they read control-path data
only.  {lit}`none` is a refusal. -/
def startOp (s : LsConfigStore) : ControlOp → Option ConfigWrite
  | .bind slot instanceId sha =>
      if bindAllowed slot instanceId then
        some { slot := slot, kind := .bind sha, image := boundImage instanceId }
      else none
  | .publish slot body =>
      match lsConfigPublishCheck s slot body with
      | .error _ => none
      | .ok image => some { slot := slot, kind := .publish (body.getD []), image := image }
  | .revoke slot =>
      if slot < lsConfigSlots then some { slot := slot, kind := .revoke, image := .empty }
      else none

/-- Where the writer is inside {lit}`lsConfigWrite`. -/
inductive WriterPc
  | idle
  | loadSequence (w : ConfigWrite)
  | storeOdd (w : ConfigWrite) (seq : Nat)
  | storeWord (w : ConfigWrite) (seq i : Nat)
  | storeEven (w : ConfigWrite) (seq : Nat)
  | finish (w : ConfigWrite)

/-! ## The readers -/

/-- The view of one invocation.  The image is the invocation's own copy, which
its program may overwrite. -/
structure LsConfigView where
  active : Bool
  attempted : Bool
  available : Bool
  slot : Nat
  handle : UInt64
  image : Memory

/-- A 64-bit field of the copied metadata row. -/
def viewField64 (image : Memory) (off : Nat) : UInt64 :=
  UInt64.ofNat (ofLittleEndian (image.load off 8))

/-- A 32-bit field of the copied metadata row. -/
def viewField32 (image : Memory) (off : Nat) : UInt32 :=
  UInt32.ofNat (ofLittleEndian (image.load off 4))

/-- Where an invocation is inside {lit}`lsConfigLookup`. -/
inductive ReaderPc
  | idle
  | loadBefore (handle : UInt64) (key : UInt32)
  | copyWord (handle : UInt64) (key : UInt32) (before i : Nat)
  | loadAfter (handle : UInt64) (key : UInt32) (before : Nat)

/-- One invocation.  {lit}`result` is what its last lookup returned, as an
offset into the view's image; {lit}`origin` and {lit}`stores` are bookkeeping. -/
structure Invocation where
  view : LsConfigView
  pc : ReaderPc
  result : Option Nat
  origin : Option ConfigWrite
  stores : List (Nat × UInt8)

/-- {lit}`ls_config_begin`. -/
def lsConfigBegin (v : LsConfigView) (slot : Nat) : LsConfigView :=
  { v with active := true, slot := slot, attempted := false, available := false, handle := 0 }

/-- The checks at the head of {lit}`ls_config_lookup`. -/
def lookupAllowed (v : LsConfigView) (handle : UInt64) (key : UInt32) : Bool :=
  v.active && isHandle handle && decide (v.slot < lsConfigSlots) &&
    decide (handle.toNat &&& 63 = v.slot) && decide (key.toNat ≤ lsConfigRows)

/-- The last check of {lit}`ls_config_lookup` and its return value. -/
def lookupResult (v : LsConfigView) (handle : UInt64) (key : UInt32) : Option Nat :=
  if !v.available || handle != v.handle || decide (key > viewField32 v.image 20) then none
  else some (key.toNat * lsConfigValueSize)

/-- Entering {lit}`ls_config_lookup`: the first call of an invocation goes on
to copy the image, later ones answer from the view. -/
def startLookup (r : Invocation) (handle : UInt64) (key : UInt32) : Invocation :=
  if !lookupAllowed r.view handle key then
    { r with result := none }
  else if r.view.attempted then
    { r with result := lookupResult r.view handle key }
  else
    { r with
      view := { r.view with attempted := true, handle := handle }
      pc := .loadBefore handle key
      result := none }

/-! ## The machine -/

/-- One writer and the invocations of the threads {lit}`T`. -/
structure SeqlockState (T : Type) where
  store : LsConfigStore
  writer : WriterPc
  log : Nat → List ConfigWrite
  threads : T → Invocation

/-- Which party moves. -/
inductive SeqlockAct (T : Type)
  | control (op : ControlOp)
  | writer
  | begin (t : T) (slot : Nat)
  | lookup (t : T) (handle : UInt64) (key : UInt32)
  | reader (t : T)
  | programStore (t : T) (off : Nat) (byte : UInt8)
  | finish (t : T)

variable {T : Type} [DecidableEq T]

/-- Replace the state of one invocation. -/
def SeqlockState.setThread (s : SeqlockState T) (t : T) (r : Invocation) : SeqlockState T :=
  { s with threads := Function.update s.threads t r }

omit [DecidableEq T] in
/-- The hash a completed write leaves in its slot. -/
def ConfigWrite.sha (w : ConfigWrite) (cur : LsConfigSlot) : List UInt8 :=
  match w.kind with
  | .bind sha => sha
  | _ => cur.programSha256

/-- The next atomic access of the writer. -/
def writerStep (s : SeqlockState T) : Option (SeqlockState T) :=
  match s.writer with
  | .idle => none
  | .loadSequence w =>
      let seq := (s.store.slots w.slot).sequence
      if seq % 2 = 1 ∨ seq > uint64Max - 2 then
        some { s with writer := .idle }
      else
        some { s with writer := .storeOdd w seq }
  | .storeOdd w seq =>
      let cur := s.store.slots w.slot
      some { s with
        store := s.store.setSlot w.slot { cur with sequence := seq + 1 }
        writer := .storeWord w seq 0 }
  | .storeWord w seq i =>
      let cur := s.store.slots w.slot
      some { s with
        store := s.store.setSlot w.slot
          { cur with words := Function.update cur.words i (w.image.word i) }
        writer := if i + 1 < lsConfigWords then .storeWord w seq (i + 1)
          else .storeEven w seq }
  | .storeEven w seq =>
      let cur := s.store.slots w.slot
      some { s with
        store := s.store.setSlot w.slot { cur with sequence := seq + 2 }
        log := Function.update s.log w.slot (w :: s.log w.slot)
        writer := .finish w }
  | .finish w =>
      let cur := s.store.slots w.slot
      some { s with
        store := s.store.setSlot w.slot
          { cur with current := w.image.metadata, programSha256 := w.sha cur }
        writer := .idle }

/-- The next atomic access of an invocation inside its first lookup. -/
def readerStep (s : SeqlockState T) (t : T) : Option (SeqlockState T) :=
  let r := s.threads t
  let src := s.store.slots r.view.slot
  match r.pc with
  | .idle => none
  | .loadBefore handle key =>
      if src.sequence % 2 = 1 then
        some (s.setThread t { r with pc := .idle })
      else
        some (s.setThread t { r with pc := .copyWord handle key src.sequence 0 })
  | .copyWord handle key before i =>
      let image := r.view.image.store (8 * i) (littleEndian 8 (src.words i))
      some (s.setThread t
        { r with
          view := { r.view with image := image }
          pc := if i + 1 < lsConfigWords then .copyWord handle key before (i + 1)
            else .loadAfter handle key before })
  | .loadAfter handle key before =>
      if before ≠ src.sequence ∨ viewField64 r.view.image 8 ≠ handle ∨
          viewField64 r.view.image 0 = 0 then
        some (s.setThread t { r with pc := .idle })
      else
        let view := { r.view with available := true }
        some (s.setThread t
          { r with
            view := view
            pc := .idle
            result := lookupResult view handle key
            origin := (s.log r.view.slot).head?
            stores := [] })

/-- Moves of one invocation that touch only its own view. -/
def ownStep (r : Invocation) : SeqlockAct T → Option Invocation
  | .begin _ slot =>
      some { r with view := lsConfigBegin r.view slot, result := none, origin := none,
                    stores := [] }
  | .lookup _ handle key => some (startLookup r handle key)
  | .programStore _ off byte =>
      if r.view.available = true ∧ off < 544 then
        some { r with
          view := { r.view with image := r.view.image.store off [byte] }
          stores := (off, byte) :: r.stores }
      else none
  | .finish _ => some { r with view := { r.view with active := false } }
  | _ => none

omit [DecidableEq T] in
/-- The writer takes the next request when it has finished the last. -/
def seqlockControl (s : SeqlockState T) (op : ControlOp) : Option (SeqlockState T) :=
  match s.writer with
  | .idle =>
      match startOp s.store op with
      | none => some s
      | some w => some { s with writer := .loadSequence w }
  | _ => none

/-- One step of the writer or of an invocation.  An invocation makes a new call
only between calls. -/
def seqlockNext (s : SeqlockState T) (a : SeqlockAct T) : Option (SeqlockState T) :=
  match a with
  | .control op => seqlockControl s op
  | .writer => writerStep s
  | .reader t => readerStep s t
  | .begin t _ | .lookup t _ _ | .programStore t _ _ | .finish t =>
      match (s.threads t).pc with
      | .idle => (ownStep (s.threads t) a).map (s.setThread t)
      | _ => none

/-- An invocation that has not begun. -/
def Invocation.fresh (image : Memory) : Invocation where
  view :=
    { active := false, attempted := false, available := false, slot := 0, handle := 0,
      image := image }
  pc := .idle
  result := none
  origin := none
  stores := []

/-- All interleavings, from a zero-initialised store. -/
def seqlockMachine (T : Type) [DecidableEq T] (session : UInt64) :
    Machine (SeqlockState T) (SeqlockAct T) where
  init s := s.store = .initial session ∧ s.writer = .idle ∧ (∀ slot, s.log slot = []) ∧
    ∀ t, ∃ image, s.threads t = .fresh image
  next := seqlockNext

/-! ## Accepted writes -/

/-- The write is the one its operation asks for; a publication has passed every
check of {lit}`lsConfigPublish`. -/
def ConfigWrite.WellFormed (w : ConfigWrite) : Prop :=
  match w.kind with
  | .bind _ => ∃ instanceId, bindAllowed w.slot instanceId = true ∧
      w.image = boundImage instanceId
  | .publish body => ∃ s, lsConfigPublishCheck s w.slot (some body) = .ok w.image
  | .revoke => w.image = .empty

theorem startOp_wellFormed {s : LsConfigStore} {op : ControlOp} {w : ConfigWrite}
    (h : startOp s op = some w) : w.WellFormed := by
  cases op with
  | bind slot instanceId sha =>
      simp only [startOp] at h
      split at h
      · rename_i hguard
        cases h
        exact ⟨instanceId, hguard, rfl⟩
      · contradiction
  | publish slot body =>
      simp only [startOp] at h
      split at h
      · contradiction
      · rename_i image hok
        cases h
        rcases lsConfigPublishCheck_eq_ok_iff.mp hok with ⟨bytes, rfl, _, _⟩
        exact ⟨s, hok⟩
  | revoke slot =>
      simp only [startOp] at h
      split at h
      · cases h
        rfl
      · contradiction

/-- Only a publication stores a nonzero revision. -/
theorem ConfigWrite.WellFormed.publish {w : ConfigWrite} (hw : w.WellFormed)
    (hrev : w.image.metadata.revision ≠ 0) : ∃ body, w.kind = .publish body := by
  cases hkind : w.kind with
  | bind sha =>
      simp only [ConfigWrite.WellFormed, hkind] at hw
      rcases hw with ⟨_, _, himage⟩
      rw [himage] at hrev
      exact absurd rfl hrev
  | publish body => exact ⟨body, rfl⟩
  | revoke =>
      simp only [ConfigWrite.WellFormed, hkind] at hw
      rw [hw] at hrev
      exact absurd rfl hrev

/-! ## The writer's invariant -/

/-- Words of the last completed write. -/
def settledWords : List ConfigWrite → Nat → Nat
  | [], _ => 0
  | w :: _, i => w.image.word i

/-- Whether the writer is between its two stores of the slot's sequence. -/
def WriterPc.inside (slot : Nat) : WriterPc → Bool
  | .storeWord w _ _ => decide (w.slot = slot)
  | .storeEven w _ => decide (w.slot = slot)
  | _ => false

/-- A slot's counter counts its completed writes twice, and outside a write its
words are those of the last one. -/
structure SlotSettled (pc : WriterPc) (log : List ConfigWrite) (slot : Nat)
    (cur : LsConfigSlot) : Prop where
  sequence : cur.sequence = 2 * log.length + (pc.inside slot).toNat
  words : pc.inside slot = false → ∀ i < lsConfigWords, cur.words i = settledWords log i
  wellFormed : ∀ w ∈ log, w.WellFormed

/-- What the writer knows at each of its program points. -/
def WriterOk (store : LsConfigStore) : WriterPc → Prop
  | .idle => True
  | .loadSequence w => w.WellFormed
  | .storeOdd w seq => w.WellFormed ∧ (store.slots w.slot).sequence = seq
  | .storeWord w seq i => w.WellFormed ∧ (store.slots w.slot).sequence = seq + 1 ∧
      i < lsConfigWords ∧ ∀ j < i, (store.slots w.slot).words j = w.image.word j
  | .storeEven w seq => w.WellFormed ∧ (store.slots w.slot).sequence = seq + 1 ∧
      ∀ j < lsConfigWords, (store.slots w.slot).words j = w.image.word j
  | .finish w => w.WellFormed

/-- The part of the invariant that the writer maintains. -/
structure WriterInv (s : SeqlockState T) : Prop where
  slots : ∀ slot, SlotSettled s.writer (s.log slot) slot (s.store.slots slot)
  writer : WriterOk s.store s.writer

/-- What a reader may rely on when the writer moves: the counter does not go
back, and while it rests at an even value the words rest too. -/
def Advances (cur next : LsConfigSlot) : Prop :=
  cur.sequence ≤ next.sequence ∧
    (next.sequence = cur.sequence → cur.sequence % 2 = 0 → next.words = cur.words)

theorem Advances.refl (cur : LsConfigSlot) : Advances cur cur :=
  ⟨Nat.le_refl _, fun _ _ => rfl⟩

/-- Replacing one slot by a later one advances every slot. -/
theorem advances_setSlot {store : LsConfigStore} {slot : Nat} {dst : LsConfigSlot}
    (h : Advances (store.slots slot) dst) (k : Nat) :
    Advances (store.slots k) ((store.setSlot slot dst).slots k) := by
  by_cases hk : k = slot
  · subst hk
    rwa [LsConfigStore.setSlot_same]
  · rw [LsConfigStore.setSlot_other _ _ hk]
    exact .refl _

/-- A step of the writer that stays out of the slot's section keeps it settled. -/
theorem SlotSettled.of_inside_eq {pc pc' : WriterPc} {log : List ConfigWrite} {slot : Nat}
    {cur : LsConfigSlot} (h : SlotSettled pc log slot cur)
    (hpc : pc'.inside slot = pc.inside slot) : SlotSettled pc' log slot cur := by
  refine ⟨?_, ?_, h.wellFormed⟩
  · rw [hpc]
    exact h.sequence
  · rw [hpc]
    exact h.words

/-- Everything a step of the writer can do to the shared state. -/
structure WriterMove (s s' : SeqlockState T) : Prop where
  inv : WriterInv s'
  threads : s'.threads = s.threads
  advances : ∀ slot, Advances (s.store.slots slot) (s'.store.slots slot)
  log : ∀ slot, ∀ w ∈ s.log slot, w ∈ s'.log slot

section WriterMoves

omit [DecidableEq T]

variable {s s' : SeqlockState T} {w : ConfigWrite} {seq i : Nat}

/-- A move of the program counter alone, outside every slot's section. -/
theorem WriterInv.setWriter (h : WriterInv s) (pc : WriterPc)
    (hinside : ∀ k, pc.inside k = s.writer.inside k) (hok : WriterOk s.store pc) :
    WriterMove s { s with writer := pc } := by
  refine ⟨⟨?_, hok⟩, rfl, fun _ => .refl _, fun _ _ hmem => hmem⟩
  intro k
  exact (h.slots k).of_inside_eq (hinside k)

/-- A store into the slot being written touches the invariant of that slot only. -/
theorem WriterInv.setSlot (h : WriterInv s) (slot : Nat) (dst : LsConfigSlot)
    (pc : WriterPc) (log : List ConfigWrite)
    (hpc : ∀ k, k ≠ slot → pc.inside k = s.writer.inside k)
    (hlog : ∀ w ∈ s.log slot, w ∈ log)
    (hadvances : Advances (s.store.slots slot) dst)
    (hsettled : SlotSettled pc log slot dst)
    (hok : WriterOk (s.store.setSlot slot dst) pc) :
    WriterMove s
      { s with
        store := s.store.setSlot slot dst
        log := Function.update s.log slot log
        writer := pc } := by
  refine ⟨⟨?_, hok⟩, rfl, advances_setSlot hadvances, ?_⟩
  · intro k
    by_cases hk : k = slot
    · subst hk
      simpa using hsettled
    · simp only [LsConfigStore.setSlot_other _ _ hk, Function.update_of_ne hk]
      exact (h.slots k).of_inside_eq (hpc k hk)
  · intro k w hw
    by_cases hk : k = slot
    · subst hk
      simpa using hlog w hw
    · simpa [Function.update_of_ne hk] using hw

/-- The same for a store that completes no write. -/
theorem WriterInv.setSlot_sameLog (h : WriterInv s) (slot : Nat) (dst : LsConfigSlot)
    (pc : WriterPc) (hpc : ∀ k, k ≠ slot → pc.inside k = s.writer.inside k)
    (hadvances : Advances (s.store.slots slot) dst)
    (hsettled : SlotSettled pc (s.log slot) slot dst)
    (hok : WriterOk (s.store.setSlot slot dst) pc) :
    WriterMove s { s with store := s.store.setSlot slot dst, writer := pc } := by
  have hmove := h.setSlot slot dst pc (s.log slot) hpc (fun _ hmem => hmem) hadvances
    hsettled hok
  rwa [Function.update_eq_self] at hmove

/-- Opening a write: the counter becomes odd. -/
theorem WriterInv.storeOdd (h : WriterInv s) (hpc : s.writer = .storeOdd w seq) :
    WriterMove s
      { s with
        store := s.store.setSlot w.slot { s.store.slots w.slot with sequence := seq + 1 }
        writer := .storeWord w seq 0 } := by
  have hwriter := h.writer
  rw [hpc] at hwriter
  rcases hwriter with ⟨hwf, hseq⟩
  have hslot := h.slots w.slot
  have hcount := hslot.sequence
  simp only [hpc, WriterPc.inside, Bool.toNat_false, Nat.add_zero] at hcount
  apply h.setSlot_sameLog
  · intro k hk
    simp [hpc, WriterPc.inside, Ne.symm hk]
  · refine ⟨by simp [hseq], ?_⟩
    intro heq
    simp [hseq] at heq
  · refine ⟨?_, ?_, hslot.wellFormed⟩
    · simp only [WriterPc.inside, decide_true, Bool.toNat_true]
      omega
    · simp [WriterPc.inside]
  · refine ⟨hwf, by simp, by simp [lsConfigWords], ?_⟩
    intro j hj
    omega

/-- Storing one word, while the counter is odd. -/
theorem WriterInv.storeWord (h : WriterInv s) (hpc : s.writer = .storeWord w seq i) :
    WriterMove s
      { s with
        store := s.store.setSlot w.slot
          { s.store.slots w.slot with
            words := Function.update (s.store.slots w.slot).words i (w.image.word i) }
        writer := if i + 1 < lsConfigWords then .storeWord w seq (i + 1)
          else .storeEven w seq } := by
  have hwriter := h.writer
  rw [hpc] at hwriter
  rcases hwriter with ⟨hwf, hseq, hi, hwords⟩
  have hslot := h.slots w.slot
  have hcount := hslot.sequence
  simp only [hpc, WriterPc.inside, decide_true, Bool.toNat_true] at hcount
  -- the words below the next index are already the new image's
  have hfilled : ∀ j < i + 1,
      Function.update (s.store.slots w.slot).words i (w.image.word i) j = w.image.word j := by
    intro j hj
    by_cases hji : j = i
    · subst hji
      simp
    · rw [Function.update_of_ne hji]
      exact hwords j (by omega)
  apply h.setSlot_sameLog
  · intro k hk
    split <;> simp [hpc, WriterPc.inside]
  · refine ⟨Nat.le_refl _, ?_⟩
    intro _ heven
    omega
  · refine ⟨?_, ?_, hslot.wellFormed⟩
    · split <;> simpa [WriterPc.inside] using hcount
    · split <;> simp [WriterPc.inside]
  · split
    · rename_i hlt
      refine ⟨hwf, by simpa using hseq, hlt, ?_⟩
      simpa using hfilled
    · rename_i hge
      refine ⟨hwf, by simpa using hseq, ?_⟩
      intro j hj
      have hlt : j < i + 1 := by omega
      simpa using hfilled j hlt

/-- Closing a write: the counter becomes even again and the write is complete. -/
theorem WriterInv.storeEven (h : WriterInv s) (hpc : s.writer = .storeEven w seq) :
    WriterMove s
      { s with
        store := s.store.setSlot w.slot { s.store.slots w.slot with sequence := seq + 2 }
        log := Function.update s.log w.slot (w :: s.log w.slot)
        writer := .finish w } := by
  have hwriter := h.writer
  rw [hpc] at hwriter
  rcases hwriter with ⟨hwf, hseq, hwords⟩
  have hslot := h.slots w.slot
  have hcount := hslot.sequence
  simp only [hpc, WriterPc.inside, decide_true, Bool.toNat_true] at hcount
  apply h.setSlot
  · intro k hk
    simp [hpc, WriterPc.inside, Ne.symm hk]
  · exact fun _ hmem => List.mem_cons_of_mem _ hmem
  · refine ⟨by simp [hseq], ?_⟩
    intro heq
    simp [hseq] at heq
  · refine ⟨?_, ?_, ?_⟩
    · simp only [WriterPc.inside, Bool.toNat_false, List.length_cons]
      omega
    · intro _ i hi
      exact hwords i hi
    · intro x hx
      rcases List.mem_cons.mp hx with rfl | hx
      · exact hwf
      · exact hslot.wellFormed x hx
  · exact hwf

/-- Recording the metadata and the hash, which no reader loads. -/
theorem WriterInv.finish (h : WriterInv s) (hpc : s.writer = .finish w) :
    WriterMove s
      { s with
        store := s.store.setSlot w.slot
          { s.store.slots w.slot with
            current := w.image.metadata, programSha256 := w.sha (s.store.slots w.slot) }
        writer := .idle } := by
  have hslot := h.slots w.slot
  have hidle : WriterPc.idle.inside w.slot = s.writer.inside w.slot := by
    simp [hpc, WriterPc.inside]
  have hsettled := hslot.of_inside_eq hidle
  apply h.setSlot_sameLog
  · intro k _
    simp [hpc, WriterPc.inside]
  · exact ⟨Nat.le_refl _, fun _ _ => rfl⟩
  · exact ⟨hsettled.sequence, hsettled.words, hsettled.wellFormed⟩
  · trivial

/-- Each atomic access of the writer keeps the invariant. -/
theorem writerStep_move (h : WriterInv s) (hstep : writerStep s = some s') :
    WriterMove s s' := by
  unfold writerStep at hstep
  split at hstep
  · contradiction
  · rename_i w hpc
    have hwriter := h.writer
    rw [hpc] at hwriter
    dsimp only at hstep
    split at hstep
    · cases hstep
      exact h.setWriter .idle (by simp [hpc, WriterPc.inside]) trivial
    · cases hstep
      exact h.setWriter _ (by simp [hpc, WriterPc.inside]) ⟨hwriter, rfl⟩
  · rename_i w seq hpc
    cases hstep
    exact h.storeOdd hpc
  · rename_i w seq i hpc
    cases hstep
    exact h.storeWord hpc
  · rename_i w seq hpc
    cases hstep
    exact h.storeEven hpc
  · rename_i w hpc
    cases hstep
    exact h.finish hpc

/-- Starting an operation keeps the invariant, whether or not it is refused. -/
theorem control_move {op : ControlOp} (h : WriterInv s)
    (hstep : seqlockControl s op = some s') : WriterMove s s' := by
  unfold seqlockControl at hstep
  split at hstep
  · rename_i hpc
    split at hstep
    · cases hstep
      exact ⟨h, rfl, fun _ => .refl _, fun _ _ hmem => hmem⟩
    · rename_i w hw
      cases hstep
      exact h.setWriter _ (by simp [hpc, WriterPc.inside]) (startOp_wellFormed hw)
  · contradiction

end WriterMoves

/-! ## The writer alone -/

section WriterAlone

variable {session : UInt64} {s : SeqlockState T} {w : ConfigWrite} {seq : Nat}

/-- The word loop, run without interruption from index {lit}`i`. -/
theorem run_storeWords (n : Nat) : ∀ (s : SeqlockState T) (i : Nat),
    i + (n + 1) = lsConfigWords → s.writer = .storeWord w seq i →
    (seqlockMachine T session).run s (List.replicate (n + 1) .writer) =
      some { s with
        store := s.store.setSlot w.slot { s.store.slots w.slot with
          words := fun k => if i ≤ k ∧ k < lsConfigWords then w.image.word k
            else (s.store.slots w.slot).words k }
        writer := .storeEven w seq } := by
  induction n with
  | zero =>
      intro s i hi hpc
      have hlast : ¬ i + 1 < lsConfigWords := by omega
      have hwords : Function.update (s.store.slots w.slot).words i (w.image.word i) =
          fun k => if i ≤ k ∧ k < lsConfigWords then w.image.word k
            else (s.store.slots w.slot).words k := by
        funext k
        by_cases hk : k = i
        · subst hk
          simp only [Function.update_self, Nat.le_refl, true_and]
          rw [if_pos (by omega)]
        · rw [Function.update_of_ne hk, if_neg (by omega)]
      simp only [List.replicate, Machine.run, seqlockMachine, seqlockNext, writerStep, hpc,
        if_neg hlast, Option.bind_some, hwords]
  | succ n ih =>
      intro s i hi hpc
      have hmore : i + 1 < lsConfigWords := by omega
      have hwords : (fun k => if i + 1 ≤ k ∧ k < lsConfigWords then w.image.word k
            else Function.update (s.store.slots w.slot).words i (w.image.word i) k) =
          fun k => if i ≤ k ∧ k < lsConfigWords then w.image.word k
            else (s.store.slots w.slot).words k := by
        funext k
        by_cases hk : k = i
        · subst hk
          rw [if_neg (by omega), if_pos (by omega), Function.update_self]
        · rw [Function.update_of_ne hk]
          by_cases hle : i + 1 ≤ k ∧ k < lsConfigWords
          · rw [if_pos hle, if_pos (by omega)]
          · rw [if_neg hle, if_neg (by omega)]
      have hstep : (seqlockMachine T session).next s .writer = some { s with
          store := s.store.setSlot w.slot { s.store.slots w.slot with
            words := Function.update (s.store.slots w.slot).words i (w.image.word i) }
          writer := .storeWord w seq (i + 1) } := by
        simp only [seqlockMachine, seqlockNext, writerStep, hpc, if_pos hmore]
      rw [List.replicate_succ, Machine.run, hstep, Option.bind_some,
        ih _ (i + 1) (by omega) rfl]
      simp only [LsConfigStore.setSlot_same, LsConfigStore.setSlot_setSlot, hwords]

/-- Undisturbed, the steps of the writer are {lit}`lsConfigWrite` followed by the
record of the hash. -/
theorem run_writer (hpc : s.writer = .loadSequence w)
    (hw : Writable (s.store.slots w.slot)) :
    (seqlockMachine T session).run s (List.replicate 72 .writer) =
      some { s with
        store := s.store.setSlot w.slot
          { written (s.store.slots w.slot) w.image with
            programSha256 := w.sha (s.store.slots w.slot) }
        log := Function.update s.log w.slot (w :: s.log w.slot)
        writer := .idle } := by
  have hguard : ¬((s.store.slots w.slot).sequence % 2 = 1 ∨
      (s.store.slots w.slot).sequence > uint64Max - 2) := by
    rcases hw with ⟨heven, hle⟩
    omega
  have hschedule : (List.replicate 72 .writer : List (SeqlockAct T)) =
      [.writer, .writer] ++ (List.replicate 68 .writer ++ [.writer, .writer]) := rfl
  have hopen : (seqlockMachine T session).run s [.writer, .writer] = some { s with
      store := s.store.setSlot w.slot { s.store.slots w.slot with
        sequence := (s.store.slots w.slot).sequence + 1 }
      writer := .storeWord w (s.store.slots w.slot).sequence 0 } := by
    simp only [Machine.run, seqlockMachine, seqlockNext, writerStep, hpc, if_neg hguard,
      Option.bind_some]
  rw [hschedule, Machine.run_append, hopen, Option.bind_some, Machine.run_append,
    run_storeWords 67 _ 0 rfl rfl, Option.bind_some]
  simp only [Machine.run, seqlockMachine, seqlockNext, writerStep, Option.bind_some,
    LsConfigStore.setSlot_same, LsConfigStore.setSlot_setSlot, Nat.zero_le, true_and,
    written]
  rfl

/-- The store after an operation runs from start to end. -/
def sequentialOp (s : LsConfigStore) : ControlOp → LsConfigStore
  | .bind slot instanceId sha => (lsConfigBind s slot instanceId sha).2
  | .publish slot body => (lsConfigPublish s slot body).2
  | .revoke slot => (lsConfigRevoke s slot).2

omit [DecidableEq T] in
/-- An operation that passes its checks stores its image and its hash. -/
theorem sequentialOp_of_startOp {store : LsConfigStore} {op : ControlOp}
    (hop : startOp store op = some w) (hw : Writable (store.slots w.slot)) :
    sequentialOp store op = store.setSlot w.slot
      { written (store.slots w.slot) w.image with
        programSha256 := w.sha (store.slots w.slot) } := by
  cases op with
  | bind slot instanceId sha =>
      simp only [startOp] at hop
      split at hop
      · rename_i hguard
        cases hop
        simp [sequentialOp, lsConfigBind, hguard, lsConfigWrite_of_writable hw,
          ConfigWrite.sha]
      · contradiction
  | publish slot body =>
      simp only [startOp] at hop
      split at hop
      · contradiction
      · rename_i image hok
        cases hop
        simp only [sequentialOp, lsConfigPublish, hok, lsConfigWrite_of_writable hw]
        rfl
  | revoke slot =>
      simp only [startOp] at hop
      split at hop
      · rename_i hslot
        cases hop
        simp only [sequentialOp, lsConfigRevoke, if_neg (Nat.not_le.mpr hslot),
          lsConfigWrite_of_writable hw]
        rfl
      · contradiction

/-- An operation that passes its checks and is not disturbed ends in the store of
the sequential model. -/
theorem writer_alone {op : ControlOp} (hpc : s.writer = .idle)
    (hop : startOp s.store op = some w) (hw : Writable (s.store.slots w.slot)) :
    (seqlockMachine T session).run s (.control op :: List.replicate 72 .writer) =
      some { s with
        store := sequentialOp s.store op
        log := Function.update s.log w.slot (w :: s.log w.slot)
        writer := .idle } := by
  have hstart : (seqlockMachine T session).next s (.control op) =
      some { s with writer := .loadSequence w } := by
    simp only [seqlockMachine, seqlockNext, seqlockControl, hpc, hop]
  rw [Machine.run, hstart, Option.bind_some, sequentialOp_of_startOp hop hw]
  exact run_writer rfl hw

end WriterAlone

/-! ## The readers' invariant -/

/-- A copy in progress: if the counter still stands where the reader found it,
the words copied so far are the slot's. -/
structure Copied (src : LsConfigSlot) (image : Memory) (before n : Nat) : Prop where
  even : before % 2 = 0
  le : before ≤ src.sequence
  words : src.sequence = before →
    ∀ j < n, image.load (8 * j) 8 = littleEndian 8 (src.words j)

theorem Copied.advance {src src' : LsConfigSlot} {image : Memory} {before n : Nat}
    (h : Copied src image before n) (hadvances : Advances src src') :
    Copied src' image before n := by
  rcases hadvances with ⟨hle, hwords⟩
  refine ⟨h.even, Nat.le_trans h.le hle, ?_⟩
  intro heq j hj
  have hle' := h.le
  have hsame : src.sequence = before := by omega
  have heven := h.even
  rw [hwords (by omega) (by omega)]
  exact h.words hsame j hj

/-- Copying the next word extends the copy. -/
theorem Copied.step {src : LsConfigSlot} {image : Memory} {before n : Nat}
    (h : Copied src image before n) :
    Copied src (image.store (8 * n) (littleEndian 8 (src.words n))) before (n + 1) := by
  refine ⟨h.even, h.le, ?_⟩
  intro heq j hj
  by_cases hjn : j = n
  · subst hjn
    have hself := image.load_store_self (8 * j) (littleEndian 8 (src.words j))
    rwa [length_littleEndian] at hself
  · rw [Memory.load_store_of_disjoint (.inl (by omega))]
    exact h.words heq j (by omega)

/-- The image a completed copy holds, once the second load of the counter
agrees with the first. -/
theorem Copied.image_eq {pc : WriterPc} {log : List ConfigWrite} {slot : Nat}
    {src : LsConfigSlot} {image : Memory} {before : Nat}
    (hsettled : SlotSettled pc log slot src)
    (h : Copied src image before lsConfigWords) (hseq : src.sequence = before)
    (hrev : viewField64 image 0 ≠ 0) :
    ∃ w rest, log = w :: rest ∧ image.load 0 544 = w.image.bytes := by
  have houtside : pc.inside slot = false := by
    by_contra hin
    have hcount := hsettled.sequence
    have heven := h.even
    simp only [Bool.not_eq_false] at hin
    rw [hin, Bool.toNat_true] at hcount
    omega
  have hwords := hsettled.words houtside
  cases log with
  | nil =>
      have hzero := h.words hseq 0 (by simp [lsConfigWords])
      rw [hwords 0 (by simp [lsConfigWords])] at hzero
      exfalso
      apply hrev
      rw [viewField64, ← Nat.mul_zero 8, hzero, settledWords, ofLittleEndian_littleEndian]
      simp
  | cons w rest =>
      refine ⟨w, rest, rfl, ?_⟩
      apply Memory.load_eq_of_words (w := 8) (n := 68)
      · rw [LsConfigImage.length_bytes]
      · intro j hj
        rw [Nat.zero_add, h.words hseq j hj, hwords j hj]
        exact w.image.littleEndian_word hj

/-- The first two fields of a copied image are its revision and its instance. -/
theorem viewFields_of_image {image : Memory} {src : LsConfigImage}
    (h : image.load 0 544 = src.bytes) :
    viewField64 image 0 = src.metadata.revision ∧
      viewField64 image 8 = src.metadata.instanceId := by
  have hfirst : image.load 0 8 = src.bytes.take 8 := by
    rw [← h, Memory.take_load (by omega)]
  have hsecond : image.load 8 8 = (src.bytes.drop 8).take 8 := by
    rw [← h, Memory.drop_load (by omega), Memory.take_load (by omega)]
  constructor
  · rw [viewField64, hfirst, LsConfigImage.bytes, LsConfigMeta.bytes]
    simp only [List.append_assoc]
    rw [List.take_left' (by simp),
      ofLittleEndian_littleEndian_of_lt (by simpa using src.metadata.revision.toNat_lt)]
    simp
  · rw [viewField64, hsecond, LsConfigImage.bytes, LsConfigMeta.bytes]
    simp only [List.append_assoc]
    rw [List.drop_left' (by simp), List.take_left' (by simp),
      ofLittleEndian_littleEndian_of_lt (by simpa using src.metadata.instanceId.toNat_lt)]
    simp

/-- A first lookup in progress. -/
structure InLookup (r : Invocation) (handle : UInt64) (key : UInt32) : Prop where
  attempted : r.view.attempted = true
  unavailable : r.view.available = false
  handle_eq : r.view.handle = handle
  key_le : key.toNat ≤ lsConfigRows
  pending : r.result = none

/-- What an invocation knows at each of its program points. -/
def ReaderOk (src : LsConfigSlot) (r : Invocation) : Prop :=
  match r.pc with
  | .idle => True
  | .loadBefore handle key => InLookup r handle key
  | .copyWord handle key before i => InLookup r handle key ∧ i < lsConfigWords ∧
      Copied src r.view.image before i
  | .loadAfter handle key before => InLookup r handle key ∧
      Copied src r.view.image before lsConfigWords

/-- The bytes of an image after a program's own stores, newest first. -/
def overwrite : List (Nat × UInt8) → List UInt8 → List UInt8
  | [], bytes => bytes
  | (off, byte) :: rest, bytes => (overwrite rest bytes).set off byte

/-- A write that a view may show: a publication for the view's handle, with a
nonzero revision. -/
structure Shows (log : List ConfigWrite) (handle : UInt64) (w : ConfigWrite) : Prop where
  logged : w ∈ log
  publication : ∃ body s, w.kind = .publish body ∧
    lsConfigPublishCheck s w.slot (some body) = .ok w.image
  instanceId : w.image.metadata.instanceId = handle
  revision : w.image.metadata.revision ≠ 0

/-- An available view is the image of its origin under the program's own
stores, and a lookup answers only from an available view. -/
structure ViewOk (log : Nat → List ConfigWrite) (r : Invocation) : Prop where
  attempted : r.view.available = true → r.view.attempted = true
  image : r.view.available = true → ∃ w, r.origin = some w ∧
    Shows (log r.view.slot) r.view.handle w ∧
    r.view.image.load 0 544 = overwrite r.stores w.image.bytes
  result : ∀ off, r.result = some off → r.view.available = true ∧
    ∃ key ≤ lsConfigRows, off = key * lsConfigValueSize

/-- The invariant of one invocation. -/
structure ThreadOk (store : LsConfigStore) (log : Nat → List ConfigWrite)
    (r : Invocation) : Prop where
  reader : ReaderOk (store.slots r.view.slot) r
  view : ViewOk log r

/-- A step of the writer does not disturb an invocation. -/
theorem ThreadOk.advance {store store' : LsConfigStore} {log log' : Nat → List ConfigWrite}
    {r : Invocation} (h : ThreadOk store log r)
    (hadvances : ∀ slot, Advances (store.slots slot) (store'.slots slot))
    (hlog : ∀ slot, ∀ w ∈ log slot, w ∈ log' slot) : ThreadOk store' log' r := by
  refine ⟨?_, h.view.attempted, ?_, h.view.result⟩
  · have hreader := h.reader
    unfold ReaderOk at hreader ⊢
    split
    · trivial
    · simpa [*] using hreader
    · rename_i handle key before i hpc
      simp only [hpc] at hreader
      exact ⟨hreader.1, hreader.2.1, hreader.2.2.advance (hadvances _)⟩
    · rename_i handle key before hpc
      simp only [hpc] at hreader
      exact ⟨hreader.1, hreader.2.advance (hadvances _)⟩
  · intro hav
    rcases h.view.image hav with ⟨w, horigin, hshows, himage⟩
    exact ⟨w, horigin, ⟨hlog _ _ hshows.logged, hshows.publication, hshows.instanceId,
      hshows.revision⟩, himage⟩

/-! ## Steps of one invocation -/

/-- What a copy must satisfy at the moment its view becomes available: it is
byte for byte the image of the slot's last completed write, a publication. -/
structure Snapshot (log : List ConfigWrite) (r : Invocation) : Prop where
  latest : ∃ w rest, log = w :: rest ∧ r.origin = some w ∧ Shows log r.view.handle w ∧
    r.view.image.load 0 544 = w.image.bytes
  untouched : r.stores = []

/-- How an invocation's step relates its state before and after: it does not
disturb an available view, other than by the program's own stores, and it makes
a view available only with a snapshot. -/
structure ThreadMove (store : LsConfigStore) (log : Nat → List ConfigWrite)
    (r r' : Invocation) : Prop where
  ok : ThreadOk store log r'
  fresh : r.view.available = false → r'.view.available = true →
    Snapshot (log r'.view.slot) r'

theorem lookupResult_eq_some {v : LsConfigView} {handle : UInt64} {key : UInt32} {off : Nat}
    (h : lookupResult v handle key = some off) :
    v.available = true ∧ handle = v.handle ∧ off = key.toNat * lsConfigValueSize := by
  unfold lookupResult at h
  split at h
  · contradiction
  · rename_i hguard
    simp only [Bool.or_eq_true, Bool.not_eq_true', bne_iff_ne, decide_eq_true_eq, not_or,
      Bool.not_eq_false, not_not] at hguard
    exact ⟨hguard.1.1, hguard.1.2, (Option.some.inj h).symm⟩

omit [DecidableEq T] in
/-- Making the copy available. -/
theorem available_move {s : SeqlockState T} {r : Invocation} {handle : UInt64}
    {key : UInt32} {before : Nat} (hw : WriterInv s)
    (hin : InLookup r handle key)
    (hcopied : Copied (s.store.slots r.view.slot) r.view.image before lsConfigWords)
    (hseq : before = (s.store.slots r.view.slot).sequence)
    (hinst : viewField64 r.view.image 8 = handle) (hrev : viewField64 r.view.image 0 ≠ 0) :
    ThreadMove s.store s.log r
      { r with
        view := { r.view with available := true }
        pc := .idle
        result := lookupResult { r.view with available := true } handle key
        origin := (s.log r.view.slot).head?
        stores := [] } := by
  have hsettled := hw.slots r.view.slot
  rcases hcopied.image_eq hsettled hseq.symm hrev with ⟨w, rest, hlog, himage⟩
  rcases viewFields_of_image himage with ⟨hfield0, hfield8⟩
  have hmem : w ∈ s.log r.view.slot := by
    rw [hlog]
    exact List.mem_cons_self
  have hwf := hsettled.wellFormed w hmem
  have hwrev : w.image.metadata.revision ≠ 0 := by
    rw [← hfield0]
    exact hrev
  have hshows : Shows (s.log r.view.slot) r.view.handle w := by
    rcases hwf.publish hwrev with ⟨body, hkind⟩
    simp only [ConfigWrite.WellFormed, hkind] at hwf
    rcases hwf with ⟨src, hsrc⟩
    refine ⟨hmem, ⟨body, src, hkind, hsrc⟩, ?_, hwrev⟩
    rw [hin.handle_eq, ← hinst, hfield8]
  refine ⟨⟨trivial, fun _ => hin.attempted, ?_, ?_⟩, ?_⟩
  · intro _
    exact ⟨w, by simp [hlog], hshows, himage⟩
  · intro off hoff
    rcases lookupResult_eq_some hoff with ⟨hav, _, hoff⟩
    exact ⟨hav, key.toNat, hin.key_le, hoff⟩
  · intro _ _
    exact ⟨⟨w, rest, hlog, by simp [hlog], hshows, himage⟩, rfl⟩

/-- A step that leaves the view unavailable and answers nothing. -/
theorem unavailable_move {store : LsConfigStore} {log : Nat → List ConfigWrite}
    {r r' : Invocation} (hav : r'.view.available = false) (hres : r'.result = none)
    (hreader : ReaderOk (store.slots r'.view.slot) r') : ThreadMove store log r r' := by
  refine ⟨⟨hreader, ?_, ?_, ?_⟩, ?_⟩
  · intro h
    rw [hav] at h
    contradiction
  · intro h
    rw [hav] at h
    contradiction
  · intro off h
    rw [hres] at h
    contradiction
  · intro _ h
    rw [hav] at h
    contradiction

/-- A step that does not change whether the view is available. -/
theorem ThreadMove.of_available_eq {store : LsConfigStore} {log : Nat → List ConfigWrite}
    {r r' : Invocation} (hok : ThreadOk store log r')
    (heq : r'.view.available = r.view.available) : ThreadMove store log r r' := by
  refine ⟨hok, ?_⟩
  intro hbefore hafter
  rw [heq, hbefore] at hafter
  contradiction

/-- Each atomic access of a first lookup keeps the invariant. -/
theorem readerStep_move {s s' : SeqlockState T} {t : T} (hw : WriterInv s)
    (ht : ThreadOk s.store s.log (s.threads t)) (hstep : readerStep s t = some s') :
    ∃ r', s' = s.setThread t r' ∧ (s.threads t).view.available = false ∧
      ThreadMove s.store s.log (s.threads t) r' := by
  have hreader := ht.reader
  unfold ReaderOk at hreader
  unfold readerStep at hstep
  dsimp only at hstep
  split at hstep
  · contradiction
  · rename_i handle key hpc
    simp only [hpc] at hreader
    split at hstep
    · cases hstep
      exact ⟨_, rfl, hreader.unavailable,
        unavailable_move hreader.unavailable hreader.pending trivial⟩
    · rename_i heven
      cases hstep
      refine ⟨_, rfl, hreader.unavailable,
        unavailable_move hreader.unavailable hreader.pending ?_⟩
      refine ⟨⟨hreader.attempted, hreader.unavailable, hreader.handle_eq, hreader.key_le,
          hreader.pending⟩,
        by simp [lsConfigWords], ⟨by omega, Nat.le_refl _, ?_⟩⟩
      intro _ j hj
      omega
  · rename_i handle key before i hpc
    simp only [hpc] at hreader
    rcases hreader with ⟨hin, hi, hcopied⟩
    cases hstep
    refine ⟨_, rfl, hin.unavailable, unavailable_move hin.unavailable hin.pending ?_⟩
    have hin' : ∀ image pc, InLookup
        { s.threads t with view := { (s.threads t).view with image := image }, pc := pc }
        handle key := fun _ _ =>
      ⟨hin.attempted, hin.unavailable, hin.handle_eq, hin.key_le, hin.pending⟩
    by_cases hlast : i + 1 < lsConfigWords
    · simp only [ReaderOk, if_pos hlast]
      exact ⟨hin' _ _, hlast, hcopied.step⟩
    · have hfull : i + 1 = lsConfigWords := by omega
      simp only [ReaderOk, if_neg hlast]
      exact ⟨hin' _ _, hfull ▸ hcopied.step⟩
  · rename_i handle key before hpc
    simp only [hpc] at hreader
    rcases hreader with ⟨hin, hcopied⟩
    split at hstep
    · cases hstep
      exact ⟨_, rfl, hin.unavailable,
        unavailable_move hin.unavailable hin.pending trivial⟩
    · rename_i hguard
      simp only [not_or, not_not] at hguard
      cases hstep
      exact ⟨_, rfl, hin.unavailable,
        available_move hw hin hcopied hguard.1 hguard.2.1 hguard.2.2⟩

/-- A view that stays available keeps the image it was made from; only the
program's own stores touch its copy. -/
structure Kept (r r' : Invocation) : Prop where
  available : r'.view.available = true
  slot : r'.view.slot = r.view.slot
  handle : r'.view.handle = r.view.handle
  origin : r'.origin = r.origin
  image : (r'.stores = r.stores ∧ r'.view.image = r.view.image) ∨
    ∃ off byte, r'.stores = (off, byte) :: r.stores ∧
      r'.view.image = r.view.image.store off [byte]

omit [DecidableEq T] in
/-- The calls an invocation makes on its own view. -/
theorem ownStep_move {store : LsConfigStore} {log : Nat → List ConfigWrite}
    {r r' : Invocation} {a : SeqlockAct T} (ht : ThreadOk store log r)
    (hpc : r.pc = .idle) (hstep : ownStep r a = some r') :
    ThreadMove store log r r' ∧
      (r.view.available = true → (∃ t slot, a = .begin t slot) ∨ Kept r r') := by
  cases a with
  | control op => contradiction
  | writer => contradiction
  | reader t => contradiction
  | begin t slot =>
      simp only [ownStep, Option.some.injEq] at hstep
      subst hstep
      refine ⟨unavailable_move rfl rfl ?_, fun _ => .inl ⟨t, slot, rfl⟩⟩
      simp only [ReaderOk, hpc]
  | finish t =>
      simp only [ownStep, Option.some.injEq] at hstep
      subst hstep
      refine ⟨.of_available_eq ⟨?_, ht.view.attempted, ht.view.image, ht.view.result⟩ rfl, ?_⟩
      · simp only [ReaderOk, hpc]
      · intro hav
        exact .inr ⟨hav, rfl, rfl, rfl, .inl ⟨rfl, rfl⟩⟩
  | programStore t off byte =>
      simp only [ownStep] at hstep
      split at hstep
      · rename_i hguard
        cases hstep
        refine ⟨.of_available_eq ⟨?_, ht.view.attempted, ?_, ht.view.result⟩ rfl, ?_⟩
        · simp only [ReaderOk, hpc]
        · intro hav
          rcases ht.view.image hav with ⟨w, horigin, hshows, himage⟩
          refine ⟨w, horigin, hshows, ?_⟩
          have hbyte := Memory.load_store_byte (m := r.view.image) (a := 0) (n := 544)
            (k := off) (c := byte)
          rw [Nat.zero_add] at hbyte
          rw [overwrite, ← himage]
          exact hbyte
        · intro hav
          exact .inr ⟨hav, rfl, rfl, rfl, .inr ⟨off, byte, rfl, rfl⟩⟩
      · contradiction
  | lookup t handle key =>
      simp only [ownStep, Option.some.injEq] at hstep
      subst hstep
      unfold startLookup
      split
      · refine ⟨.of_available_eq ⟨?_, ht.view.attempted, ht.view.image, ?_⟩ rfl, ?_⟩
        · simp only [ReaderOk, hpc]
        · intro off h
          contradiction
        · intro hav
          exact .inr ⟨hav, rfl, rfl, rfl, .inl ⟨rfl, rfl⟩⟩
      · rename_i hallowed
        simp only [lookupAllowed, Bool.not_eq_true', Bool.not_eq_false, Bool.and_eq_true,
          decide_eq_true_eq] at hallowed
        split
        · refine ⟨.of_available_eq ⟨?_, ht.view.attempted, ht.view.image, ?_⟩ rfl, ?_⟩
          · simp only [ReaderOk, hpc]
          · intro off hoff
            rcases lookupResult_eq_some hoff with ⟨hav, _, heq⟩
            exact ⟨hav, key.toNat, hallowed.2, heq⟩
          · intro hav
            exact .inr ⟨hav, rfl, rfl, rfl, .inl ⟨rfl, rfl⟩⟩
        · rename_i hfirst
          -- a view is never available before its invocation has attempted a copy
          have hunavailable : r.view.available = false := by
            by_contra hav
            exact hfirst (ht.view.attempted (by simpa using hav))
          refine ⟨unavailable_move hunavailable rfl ?_, ?_⟩
          · exact ⟨rfl, hunavailable, rfl, hallowed.2, rfl⟩
          · intro hav
            rw [hunavailable] at hav
            contradiction

/-! ## All interleavings -/

/-- The invariant of the whole machine. -/
structure Consistent (s : SeqlockState T) : Prop where
  writer : WriterInv s
  threads : ∀ t, ThreadOk s.store s.log (s.threads t)

/-- How one step of the machine looks from thread {lit}`t`: its own view did not
change, or it made a move of its own. -/
structure StepSeen (s s' : SeqlockState T) (a : SeqlockAct T) (t : T) : Prop where
  fresh : (s.threads t).view.available = false → (s'.threads t).view.available = true →
    Snapshot (s'.log (s'.threads t).view.slot) (s'.threads t)
  kept : (s.threads t).view.available = true → (∀ slot, a ≠ .begin t slot) →
    Kept (s.threads t) (s'.threads t)

omit [DecidableEq T] in
/-- A step of the writer is invisible in every view. -/
theorem WriterMove.step {s s' : SeqlockState T} {a : SeqlockAct T} (h : Consistent s)
    (hmove : WriterMove s s') : Consistent s' ∧ ∀ t, StepSeen s s' a t := by
  refine ⟨⟨hmove.inv, ?_⟩, ?_⟩
  · intro t
    rw [hmove.threads]
    exact (h.threads t).advance hmove.advances hmove.log
  · intro t
    constructor
    · intro hbefore hafter
      rw [hmove.threads, hbefore] at hafter
      contradiction
    · intro hav _
      rw [hmove.threads]
      exact ⟨hav, rfl, rfl, rfl, .inl ⟨rfl, rfl⟩⟩

/-- A move of one thread is invisible to the others. -/
theorem ThreadMove.step {s : SeqlockState T} {a : SeqlockAct T} {t : T} {r : Invocation}
    (h : Consistent s) (hmove : ThreadMove s.store s.log (s.threads t) r)
    (hkept : (s.threads t).view.available = true → (∃ slot, a = .begin t slot) ∨
      Kept (s.threads t) r) :
    Consistent (s.setThread t r) ∧ ∀ k, StepSeen s (s.setThread t r) a k := by
  have hself : (s.setThread t r).threads t = r := by simp [SeqlockState.setThread]
  have hother : ∀ k, k ≠ t → (s.setThread t r).threads k = s.threads k := by
    intro k hk
    simp [SeqlockState.setThread, hk]
  refine ⟨⟨⟨h.writer.slots, h.writer.writer⟩, ?_⟩, ?_⟩
  · intro k
    by_cases hk : k = t
    · subst hk
      rw [hself]
      exact hmove.ok
    · rw [hother k hk]
      exact h.threads k
  · intro k
    by_cases hk : k = t
    · subst hk
      constructor
      · rw [hself]
        exact hmove.fresh
      · intro hav hbegin
        rw [hself]
        rcases hkept hav with ⟨slot, ha⟩ | hkept
        · exact absurd ha (hbegin slot)
        · exact hkept
    · constructor
      · intro hbefore hafter
        rw [hother k hk, hbefore] at hafter
        contradiction
      · intro hav _
        rw [hother k hk]
        exact ⟨hav, rfl, rfl, rfl, .inl ⟨rfl, rfl⟩⟩

/-- One step of any party keeps the invariant and is seen as a clean step by
every thread. -/
theorem seqlockNext_step {s s' : SeqlockState T} {a : SeqlockAct T} (h : Consistent s)
    (hstep : seqlockNext s a = some s') : Consistent s' ∧ ∀ t, StepSeen s s' a t := by
  -- the four calls on a thread's own view share one argument
  have hown : ∀ t, (match (s.threads t).pc with
        | .idle => (ownStep (s.threads t) a).map (s.setThread t)
        | _ => none) = some s' →
      (∀ t' slot, a = .begin t' slot → t' = t) →
      Consistent s' ∧ ∀ k, StepSeen s s' a k := by
    intro t hmatch hthread
    split at hmatch
    · rename_i hpc
      rcases Option.map_eq_some_iff.mp hmatch with ⟨r, hr, rfl⟩
      rcases ownStep_move (h.threads t) hpc hr with ⟨hmove, hkept⟩
      apply hmove.step h
      intro hav
      rcases hkept hav with ⟨t', slot, ha⟩ | hkept
      · exact .inl ⟨slot, hthread t' slot ha ▸ ha⟩
      · exact .inr hkept
    · contradiction
  cases a with
  | control op => exact (control_move h.writer hstep).step h
  | writer => exact (writerStep_move h.writer hstep).step h
  | reader t =>
      rcases readerStep_move h.writer (h.threads t) hstep with ⟨r, rfl, hunavailable, hmove⟩
      apply hmove.step h
      intro hav
      rw [hunavailable] at hav
      contradiction
  | begin t slot =>
      apply hown t hstep
      intro t' slot' ha
      cases ha
      rfl
  | lookup t handle key => exact hown t hstep (fun _ _ ha => nomatch ha)
  | programStore t off byte => exact hown t hstep (fun _ _ ha => nomatch ha)
  | finish t => exact hown t hstep (fun _ _ ha => nomatch ha)

theorem consistent_init {session : UInt64} {s : SeqlockState T}
    (h : (seqlockMachine T session).init s) : Consistent s := by
  rcases h with ⟨hstore, hwriter, hlog, hthreads⟩
  refine ⟨⟨?_, ?_⟩, ?_⟩
  · intro slot
    rw [hstore, hwriter, hlog]
    refine ⟨rfl, ?_, by simp⟩
    intro _ i _
    rfl
  · rw [hwriter]
    trivial
  · intro t
    rcases hthreads t with ⟨image, ht⟩
    rw [ht]
    refine ⟨trivial, ?_, ?_, ?_⟩
    · intro h
      contradiction
    · intro h
      contradiction
    · intro off h
      contradiction

/-- The invariant holds in every interleaving. -/
theorem consistent_of_reachable {session : UInt64} :
    ∀ s : SeqlockState T, (seqlockMachine T session).Reachable s → Consistent s := by
  apply Machine.Reachable.invariant
  · intro s h
    exact consistent_init h
  · intro s a s' _ h hnext
    exact (seqlockNext_step h hnext).1

/-- In every interleaving of the writer with any number of invocations: a view
becomes available only as a byte-for-byte copy of its slot's last completed
write, an accepted publication for the view's handle with a nonzero revision;
until the next {lit}`begin` it keeps that origin and only the program's own
stores touch the copy; and a lookup answers only with a row of an available
view. -/
theorem configSnapshot_consistent (session : UInt64) (s s' : SeqlockState T)
    (a : SeqlockAct T) (hs : (seqlockMachine T session).Reachable s)
    (hstep : (seqlockMachine T session).next s a = some s') (t : T) :
    ((s.threads t).view.available = false → (s'.threads t).view.available = true →
      Snapshot (s'.log (s'.threads t).view.slot) (s'.threads t)) ∧
    ((s.threads t).view.available = true → (∀ slot, a ≠ .begin t slot) →
      Kept (s.threads t) (s'.threads t)) ∧
    ((s'.threads t).view.available = true → ∃ w, (s'.threads t).origin = some w ∧
      Shows (s'.log (s'.threads t).view.slot) (s'.threads t).view.handle w ∧
      (s'.threads t).view.image.load 0 544 =
        overwrite (s'.threads t).stores w.image.bytes) ∧
    (∀ off, (s'.threads t).result = some off → (s'.threads t).view.available = true ∧
      ∃ key ≤ lsConfigRows, off = key * lsConfigValueSize) := by
  rcases seqlockNext_step (consistent_of_reachable s hs) hstep with ⟨hinv, hseen⟩
  refine ⟨(hseen t).fresh, (hseen t).kept, ?_, ?_⟩
  · exact (hinv.threads t).view.image
  · exact (hinv.threads t).view.result

/-- One thread, before its first invocation. -/
def quietStart : SeqlockState Unit where
  store := .initial 42
  writer := .idle
  log := fun _ => []
  threads := fun _ => .fresh fun _ => 0

/-- Bind slot 5, publish one row, and read up to the second load of the counter. -/
def publishThenRead : List (SeqlockAct Unit) :=
  .control (.bind 5 (UInt64.ofNat (2 ^ 63 + 64 + 5)) (List.replicate 32 7)) ::
    List.replicate 72 .writer ++
  .control (.publish 5 (some (rowRequest 42 0 5).toBody)) :: List.replicate 72 .writer ++
  [.begin () 5, .lookup () (UInt64.ofNat (2 ^ 63 + 64 + 5)) 1] ++
  List.replicate 69 (.reader ())

/-- The state before the second load of the counter. -/
def beforeAvailable : SeqlockState Unit :=
  ((seqlockMachine Unit 42).run quietStart publishThenRead).getD quietStart

/-- The state after it. -/
def afterAvailable : SeqlockState Unit :=
  ((seqlockMachine Unit 42).next beforeAvailable (.reader ())).getD beforeAvailable

/-- The view of that run becomes available, with row 1 as its answer. -/
theorem configSnapshot_consistent_publishThenRead :
    (afterAvailable.threads ()).result = some 32 ∧
    Snapshot (afterAvailable.log (afterAvailable.threads ()).view.slot)
      (afterAvailable.threads ()) :=
  ⟨by decide +kernel,
    (configSnapshot_consistent 42 beforeAvailable afterAvailable (.reader ())
      (Machine.reachable_run_getD
        (.start ⟨rfl, rfl, fun _ => rfl, fun _ => ⟨fun _ => 0, rfl⟩⟩) (by decide +kernel))
      (Machine.next_eq_some_getD (by decide +kernel)) ()).1
      (by decide +kernel) (by decide +kernel)⟩

theorem writer_alone_quietStart :
    let w : ConfigWrite := { slot := 5, kind := .revoke, image := .empty }
    (seqlockMachine Unit 42).run quietStart (.control (.revoke 5) :: List.replicate 72 .writer) =
      some { quietStart with
        store := sequentialOp quietStart.store (.revoke 5)
        log := Function.update quietStart.log 5 [w]
        writer := .idle } :=
  writer_alone (s := quietStart) (w := { slot := 5, kind := .revoke, image := .empty }) rfl rfl
    (by decide)

end Config
end LiveSurface
