import LiveSurface.Library.Machine
import LiveSurface.Program.Lifetime
import LiveSurface.Program.Links

/-!
# Link accounting

Five operations, a patch callback and a VM preparation that can fail anywhere,
and a revocation that can stop half way, must all leave the sites, the text, the
links and the modes in agreement, and must not leave a published entry with a
destroyed VM.

For every operation there is one lemma that says what it can do, and one that it
keeps the agreement; the lemmas about the locked parts are used again where
operations run beside dispatchers.

Main results:

- Theorem {lit}`Sound.run`: every operation keeps the agreement, whatever the
  gate, the callback and the preparation do.
- Theorem {lit}`Sound.failed`: an operation that fails changes nothing.
- Theorem {lit}`link_accounting`: the agreement in every reachable state, and
  what no operation can undo or change by failing.
-/

namespace LiveSurface
namespace Program

open Config StoreProgram

variable {m m' : Manager} {a id entry i : Nat}

/-! ## Attaching and detaching -/

theorem sharedSite_eq_some {address : UInt64} (h : sharedSite m address = some i) :
    i < lsProgramSites ∧ 0 < (m.sites i).users ∧ (m.sites i).address = address := by
  have hmem := List.mem_range.mp (List.mem_of_find?_eq_some h)
  have hprop := List.find?_some h
  simp only [Bool.and_eq_true, bne_iff_ne, beq_iff_eq] at hprop
  exact ⟨hmem, Nat.pos_of_ne_zero hprop.1, hprop.2⟩

theorem sharedSite_eq_none {address : UInt64} (h : sharedSite m address = none) {j : Nat}
    (hj : j < lsProgramSites) (hpos : 0 < (m.sites j).users) :
    (m.sites j).address ≠ address := by
  intro heq
  have hnot := List.find?_eq_none.mp h j (List.mem_range.mpr hj)
  simp [Nat.pos_iff_ne_zero.mp hpos, heq] at hnot

theorem freeSite_eq_some {patch : Patch} {address : UInt64}
    (h : freeSite m patch address = some i) :
    i < lsProgramSites ∧ (m.sites i).users = 0 ∧ patch address i true = true := by
  have hmem := List.mem_range.mp (List.mem_of_find?_eq_some h)
  have hprop := List.find?_some h
  simp only [Bool.and_eq_true, beq_iff_eq] at hprop
  exact ⟨hmem, hprop⟩

theorem final_link (site : Nat) :
    (link id entry site).final m =
      linkedState m id entry site (m.sites site) m.text := by
  simp [link, linkedState]

/-- The description of a site claimed for an entry. -/
def claimedSite (m : Manager) (id entry i : Nat) : LsSite :=
  { m.sites i with
    address := ((m.programs id).entries entry).address
    returnIp := ((m.programs id).entries entry).address +
      ((m.programs id).entries entry).pad + 5
    safeValue := (m.slots (lsProgramSlot id entry)).safeValue
    owned := true }

/-- Linking an entry under the gate: nothing, or one link to a site that fits. -/
theorem lsProgramAttachLocked_cases (h : Accounts m) (patch : Patch) :
    ((lsProgramAttachLocked id entry patch).result m = false ∧
        (lsProgramAttachLocked id entry patch).final m = m) ∨
      ∃ i s text, Fits m id entry i s text ∧
        (0 < (m.sites i).users ∧ s = m.sites i ∨
          (m.sites i).users = 0 ∧ patch s.address i true = true ∧
            s = claimedSite m id entry i) ∧
        (lsProgramAttachLocked id entry patch).result m = true ∧
        (lsProgramAttachLocked id entry patch).final m = linkedState m id entry i s text := by
  unfold lsProgramAttachLocked
  rw [result_read_bind, final_read_bind]
  dsimp only
  split
  · rename_i i hshared
    obtain ⟨hlt, hpos, haddress⟩ := sharedSite_eq_some hshared
    rw [result_ite, final_ite]
    split
    · exact .inl ⟨rfl, rfl⟩
    · rename_i hsafe
      refine .inr ⟨i, m.sites i, m.text, ?_, .inl ⟨hpos, rfl⟩, rfl, ?_⟩
      · refine ⟨hlt, haddress, not_not.mp hsafe, h.sites.owned i hpos, fun _ => ⟨rfl, rfl⟩,
          ?_, ?_⟩
        · intro j hj heq
          exact h.sites.apart j i hj hpos heq
        · rw [eq_comm]
          apply Function.update_eq_self_iff.mpr
          exact ((h.sites.text _ i).mpr ⟨hpos, rfl⟩).symm
      · rw [final_bind, final_link, final_pure]
  · rename_i hshared
    split
    · exact .inl ⟨rfl, rfl⟩
    · rename_i i hfree
      obtain ⟨hlt, hzero, hpatch⟩ := freeSite_eq_some hfree
      refine .inr ⟨i, claimedSite m id entry i,
        Function.update m.text ((m.programs id).entries entry).address (some i), ?_,
        .inr ⟨hzero, hpatch, rfl⟩, rfl, ?_⟩
      · refine ⟨hlt, rfl, rfl, rfl, ?_, ?_, rfl⟩
        · intro hpos
          omega
        · intro j hj heq
          exact absurd heq (sharedSite_eq_none hshared (h.sites.inRange j hj) hj)
      · simp [claimSite, link, linkedState, claimedSite]

/-- Unlinking an entry under the gate: nothing, or one link less. -/
theorem lsProgramDetachLocked_cases (m : Manager) (id entry : Nat) (patch : Patch) :
    ((lsProgramDetachLocked id entry patch).result m = false ∧
        (lsProgramDetachLocked id entry patch).final m = m) ∨
      ∃ i text, (m.programs id).sites entry = some i ∧
        text = (if (m.sites i).users = 1 then
          Function.update m.text (m.sites i).address none else m.text) ∧
        (lsProgramDetachLocked id entry patch).result m = true ∧
        (lsProgramDetachLocked id entry patch).final m = unlinkedState m id entry i text := by
  unfold lsProgramDetachLocked
  rw [result_read_bind, final_read_bind]
  split
  · exact .inl ⟨rfl, rfl⟩
  · rename_i i hlink
    rw [result_ite, final_ite]
    split
    · rename_i hlast
      rw [result_ite, final_ite]
      split
      · refine .inr ⟨i, _, hlink, (if_pos hlast).symm, rfl, ?_⟩
        simp [unlink, unlinkedState]
      · exact .inl ⟨rfl, rfl⟩
    · rename_i hmore
      refine .inr ⟨i, _, hlink, (if_neg hmore).symm, rfl, ?_⟩
      simp [unlink, unlinkedState]

theorem Accounts.detachLocked (h : Accounts m) (hinstance : (m.programs id).instanceId ≠ 0)
    (hentry : entry < (m.programs id).count) (patch : Patch) :
    Accounts ((lsProgramDetachLocked id entry patch).final m) := by
  rcases lsProgramDetachLocked_cases m id entry patch with
    ⟨_, hfinal⟩ | ⟨i, text, hlink, htext, _, hfinal⟩
  · rw [hfinal]
    exact h
  · rw [hfinal]
    exact h.unlink ⟨hinstance, hentry, hlink⟩ htext

/-! ## Modes -/

/-- A state that differs from another by one program's mode, in its record and
in the slots of its entries. -/
structure Remoded (id mode : Nat) (m m' : Manager) : Prop where
  program : m'.programs = Function.update m.programs id { m.programs id with mode := mode }
  sites : m'.sites = m.sites
  text : m'.text = m.text
  config : m'.config = m.config
  nextVm : m'.nextVm = m.nextVm
  freed : m'.freed = m.freed
  vm : ∀ k, (m'.slots k).vm = (m.slots k).vm
  safeValue : ∀ k, (m'.slots k).safeValue = (m.slots k).safeValue
  modes : ∀ e < (m.programs id).count, (m'.slots (lsProgramSlot id e)).mode = mode

theorem final_setSlotModes (id mode count : Nat) (m : Manager) :
    (setSlotModes id mode count).final m =
      { m with slots := fun k =>
          if k ∈ (List.range count).map (lsProgramSlot id) then
            { m.slots k with mode := mode }
          else m.slots k } := by
  unfold setSlotModes
  generalize List.range count = entries
  induction entries generalizing m with
  | nil => simp
  | cons e rest ih =>
      rw [final_forEach_cons, ih]
      simp only [final_write, store_slot, Manager.mk.injEq, true_and, and_true]
      ext k : 1
      by_cases hk : k = lsProgramSlot id e
      · subst hk
        by_cases hrest : lsProgramSlot id e ∈ rest.map (lsProgramSlot id)
        · simp [hrest]
        · simp [hrest]
      · simp only [Function.update_of_ne hk, List.map_cons, List.mem_cons, hk, false_or]

theorem final_setMode (m : Manager) (id mode : Nat) :
    (setMode id mode).final m =
      (setSlotModes id mode (m.programs id).count).final
        { m with programs :=
            Function.update m.programs id { m.programs id with mode := mode } } := by
  unfold setMode
  rw [final_bind, final_read_bind]
  simp

theorem remoded_setMode (m : Manager) (id mode : Nat) :
    Remoded id mode m ((setMode id mode).final m) := by
  rw [final_setMode, final_setSlotModes]
  refine ⟨rfl, rfl, rfl, rfl, rfl, rfl, ?_, ?_, ?_⟩
  · intro k
    dsimp only
    split <;> rfl
  · intro k
    dsimp only
    split <;> rfl
  · intro e he
    dsimp only
    rw [if_pos]
    exact List.mem_map.mpr ⟨e, List.mem_range.mpr he, rfl⟩

theorem Remoded.linked {mode : Nat} (h : Remoded id mode m m') (b e j : Nat) :
    Linked m' b e j ↔ Linked m b e j := by
  unfold Linked
  rw [h.program]
  by_cases hb : b = id
  · subst hb
    simp
  · simp [hb]

theorem Accounts.setMode {mode : Nat} (h : Accounts m)
    (hinstance : (m.programs id).instanceId ≠ 0) (hmode : mode ≤ (m.programs id).ceiling) :
    Accounts ((setMode id mode).final m) := by
  have hremoded := remoded_setMode m id mode
  have hok := h.programs id
  apply h.replace (Emits.apart (emits_setMode mode) (h.small id)) hremoded.sites hremoded.text
  · intro e j
    exact hremoded.linked id e j
  · have hprogram : ((Program.setMode id mode).final m).programs id =
        { m.programs id with mode := mode } := by
      rw [hremoded.program, Function.update_self]
    constructor
    · rw [hprogram]
      exact hok.outside
    · rw [hprogram]
      intro hzero
      exact absurd hzero hinstance
    · rw [hprogram]
      exact hok.bounded
    · rw [hprogram]
      exact hremoded.modes
    · rw [hprogram]
      exact hmode
    · intro e j hlinked
      rw [hprogram, hremoded.sites, hremoded.safeValue]
      exact hok.agrees e j ((hremoded.linked id e j).mp hlinked)

/-! ## Revoking -/

/-- A site that is described as before and not newly in use. -/
def SameSite (s s' : LsSite) : Prop :=
  s'.address = s.address ∧ s'.returnIp = s.returnIp ∧ s'.safeValue = s.safeValue ∧
    s'.owned = s.owned ∧ (s.users = 0 → s'.users = 0)

theorem SameSite.refl (s : LsSite) : SameSite s s := ⟨rfl, rfl, rfl, rfl, id⟩

theorem SameSite.trans {s s' s'' : LsSite} (h : SameSite s s') (h' : SameSite s' s'') :
    SameSite s s'' := by
  obtain ⟨haddress, hip, hsafe, howned, hunused⟩ := h
  obtain ⟨haddress', hip', hsafe', howned', hunused'⟩ := h'
  exact ⟨haddress'.trans haddress, hip'.trans hip, hsafe'.trans hsafe, howned'.trans howned,
    fun hzero => hunused' (hunused hzero)⟩

/-- What one round of the revocation's loop does to its program. -/
structure DetachRound (id entry : Nat) (ok : Bool) (m m' : Manager) : Prop where
  instanceId : (m'.programs id).instanceId = (m.programs id).instanceId
  count : (m'.programs id).count = (m.programs id).count
  mode : (m'.programs id).mode = (m.programs id).mode
  stays : ∀ e, (m.programs id).sites e = none → (m'.programs id).sites e = none
  done : ok = true → (m'.programs id).sites entry = none
  slots : m'.slots = m.slots
  freed : m'.freed = m.freed
  sites : ∀ j, SameSite (m.sites j) (m'.sites j)

theorem detachRound_refl {ok : Bool} (hdone : (m.programs id).sites entry = none ∨ ok = false) :
    DetachRound id entry ok m m := by
  refine ⟨rfl, rfl, rfl, fun _ h => h, ?_, rfl, rfl, fun j => SameSite.refl _⟩
  intro hok
  rcases hdone with hnone | hfalse
  · exact hnone
  · rw [hok] at hfalse
    contradiction

theorem detachRound_unlinkedState (ok : Bool) (text : UInt64 → Option Nat) :
    DetachRound id entry ok m (unlinkedState m id entry i text) := by
  constructor
  · simp [unlinkedState]
  · simp [unlinkedState]
  · simp [unlinkedState]
  · intro e he
    by_cases heq : e = entry
    · simp [unlinkedState, heq]
    · simpa [unlinkedState, heq] using he
  · simp [unlinkedState]
  · rfl
  · rfl
  · intro j
    by_cases hj : j = i
    · subst hj
      simp only [unlinkedState, SameSite, Function.update_self, true_and]
      omega
    · simp [unlinkedState, hj, SameSite]

theorem detachRound_detachLocked (m : Manager) (id entry : Nat) (patch : Patch) :
    DetachRound id entry ((lsProgramDetachLocked id entry patch).result m) m
      ((lsProgramDetachLocked id entry patch).final m) := by
  rcases lsProgramDetachLocked_cases m id entry patch with
    ⟨hresult, hfinal⟩ | ⟨i, text, _, _, hresult, hfinal⟩
  · rw [hresult, hfinal]
    exact detachRound_refl (.inr rfl)
  · rw [hresult, hfinal]
    exact detachRound_unlinkedState true text

theorem detachRound_detachLinked (m : Manager) (id entry : Nat) (patch : Patch) :
    DetachRound id entry ((detachLinked id patch entry).result m) m
      ((detachLinked id patch entry).final m) := by
  unfold detachLinked
  rw [result_read_bind, final_read_bind, result_ite, final_ite]
  split
  · exact detachRound_detachLocked m id entry patch
  · rename_i hnone
    apply detachRound_refl
    exact .inl (by simpa using hnone)

theorem Accounts.detachLinked (h : Accounts m) (hinstance : (m.programs id).instanceId ≠ 0)
    (hentry : entry < (m.programs id).count) (patch : Patch) :
    Accounts ((detachLinked id patch entry).final m) := by
  unfold Program.detachLinked
  rw [final_read_bind, final_ite]
  split
  · exact h.detachLocked hinstance hentry patch
  · exact h

/-- What the revocation's loop keeps, stopped or not. -/
structure Detaching (id : Nat) (m m' : Manager) : Prop where
  accounts : Accounts m'
  instanceId : (m'.programs id).instanceId = (m.programs id).instanceId
  count : (m'.programs id).count = (m.programs id).count
  mode : (m'.programs id).mode = (m.programs id).mode
  slots : m'.slots = m.slots
  freed : m'.freed = m.freed
  sites : ∀ j, SameSite (m.sites j) (m'.sites j)

theorem Accounts.detaching (h : Accounts m) (hinstance : (m.programs id).instanceId ≠ 0)
    (patch : Patch) :
    Detaching id m
      ((whileOk (Program.detachLinked id patch) (List.range (m.programs id).count)).final m) := by
  apply whileOk_invariant (P := Detaching id m)
  · intro e he s hs
    have hround := detachRound_detachLinked s id e patch
    constructor
    · apply hs.accounts.detachLinked
      · rw [hs.instanceId]
        exact hinstance
      · rw [hs.count]
        exact List.mem_range.mp he
    · exact hround.instanceId.trans hs.instanceId
    · exact hround.count.trans hs.count
    · exact hround.mode.trans hs.mode
    · exact hround.slots.trans hs.slots
    · exact hround.freed.trans hs.freed
    · intro j
      exact (hs.sites j).trans (hround.sites j)
  · exact ⟨h, rfl, rfl, rfl, rfl, rfl, fun j => SameSite.refl _⟩

/-- A loop that came to its end has unlinked every entry. -/
theorem whileOk_detachLinked {patch : Patch} {count : Nat}
    (hok : (whileOk (detachLinked id patch) (List.range count)).result m = true) :
    ∀ e < count,
      (((whileOk (detachLinked id patch) (List.range count)).final m).programs id).sites e =
        none := by
  intro e he
  apply whileOk_each (Q := fun e (s : Manager) => (s.programs id).sites e = none) _ _ m hok e
    (List.mem_range.mpr he)
  · intro x _ s hs
    exact (detachRound_detachLinked s id x patch).done hs
  · intro x _ y s hy
    exact (detachRound_detachLinked s id x patch).stays y hy

theorem destroySlots_keeps (m : Manager) (id count : Nat) :
    ((forEach (destroySlot id) (List.range count)).final m).programs = m.programs ∧
      ((forEach (destroySlot id) (List.range count)).final m).sites = m.sites ∧
      ((forEach (destroySlot id) (List.range count)).final m).text = m.text := by
  apply forEach_invariant (P := fun s : Manager =>
    s.programs = m.programs ∧ s.sites = m.sites ∧ s.text = m.text)
  · intro e _ s hs
    simpa [destroySlot] using hs
  · exact ⟨rfl, rfl, rfl⟩

/-- The release of a program, done or refused by its configuration slot. -/
theorem releaseProgram_cases (m : Manager) (id : Nat) :
    ((releaseProgram id).result m = false ∧ (releaseProgram id).final m = m) ∨
      ((releaseProgram id).result m = true ∧
        ((releaseProgram id).final m).programs =
          Function.update m.programs id { m.programs id with instanceId := 0, count := 0 } ∧
        ((releaseProgram id).final m).sites = m.sites ∧
        ((releaseProgram id).final m).text = m.text) := by
  unfold releaseProgram
  rw [result_read_bind, final_read_bind, result_ite, final_ite]
  split
  · right
    refine ⟨rfl, ?_⟩
    obtain ⟨hprograms, hsites, htext⟩ := destroySlots_keeps
      { m with config := (lsConfigRevoke m.config (configSlot id)).2 } id (m.programs id).count
    simp only [final_bind, final_write, store_config, store_program, final_pure, hprograms,
      hsites, htext, Function.update_self, Function.update_idem, and_self]
  · exact .inl ⟨rfl, rfl⟩

theorem Accounts.releaseProgram (h : Accounts m) (hmode : (m.programs id).mode = lsModeDisable)
    (hnone : ∀ e < (m.programs id).count, (m.programs id).sites e = none) :
    Accounts ((releaseProgram id).final m) := by
  have hapart := Emits.apart emits_releaseProgram (h.small id)
  rcases releaseProgram_cases m id with ⟨_, hfinal⟩ | ⟨_, hprograms, hsites, htext⟩
  · rw [hfinal]
    exact h
  · have hprogram : ((Program.releaseProgram id).final m).programs id =
        { m.programs id with instanceId := 0, count := 0 } := by
      rw [hprograms, Function.update_self]
    have hunlinked : ∀ e j, ¬ Linked ((Program.releaseProgram id).final m) id e j := by
      intro e j hlinked
      apply hlinked.1
      rw [hprogram]
    apply h.replace hapart hsites htext
    · intro e j
      constructor
      · intro hlinked
        exact absurd hlinked (hunlinked e j)
      · intro hlinked
        have hsite := hlinked.2.2
        rw [hnone e hlinked.2.1] at hsite
        contradiction
    · constructor
      · rw [hprogram]
        intro _
        rfl
      · rw [hprogram]
        intro _
        exact ⟨rfl, hmode⟩
      · rw [hprogram]
        exact Nat.zero_le _
      · rw [hprogram]
        intro e he
        exact absurd he (Nat.not_lt_zero e)
      · rw [hprogram]
        exact (h.programs id).ceiling
      · intro e j hlinked
        exact absurd hlinked (hunlinked e j)

/-! ## Loading -/

/-- A state in which only tables that a program has not published differ. -/
structure Quiet (a : Nat) (m m' : Manager) : Prop where
  apart : Apart a m m'
  sites : m'.sites = m.sites
  text : m'.text = m.text
  instanceId : (m'.programs a).instanceId = (m.programs a).instanceId
  count : (m'.programs a).count = (m.programs a).count
  mode : (m'.programs a).mode = (m.programs a).mode
  ceiling : (m'.programs a).ceiling = (m.programs a).ceiling

theorem Quiet.refl (a : Nat) (m : Manager) : Quiet a m m :=
  ⟨Apart.refl a m, rfl, rfl, rfl, rfl, rfl, rfl⟩

theorem Quiet.store (h : Quiet a m m') {st : Store} (hst : st.Private a) :
    Quiet a m (Stores.store m' st) := by
  have hapart := h.apart.store hst.isLocal
  cases st with
  | program id f =>
      obtain ⟨rfl, hheader⟩ := hst
      obtain ⟨hinstance, hcount, hmode, hceiling⟩ := hheader (m'.programs id)
      refine ⟨hapart, h.sites, h.text, ?_, ?_, ?_, ?_⟩
      · simpa [hinstance] using h.instanceId
      · simpa [hcount] using h.count
      · simpa [hmode] using h.mode
      · simpa [hceiling] using h.ceiling
  | site i f => exact absurd hst id
  | slot k f => exact ⟨hapart, h.sites, h.text, h.instanceId, h.count, h.mode, h.ceiling⟩
  | config f => exact ⟨hapart, h.sites, h.text, h.instanceId, h.count, h.mode, h.ceiling⟩
  | patched address site => exact absurd hst id
  | created k => exact ⟨hapart, h.sites, h.text, h.instanceId, h.count, h.mode, h.ceiling⟩
  | destroyed k => exact ⟨hapart, h.sites, h.text, h.instanceId, h.count, h.mode, h.ceiling⟩

theorem keeps_quiet (a : Nat) (m : Manager) :
    Keeps (fun s => Small a s ∧ Quiet a m s) (Store.Private a) := by
  intro s st hst hs
  exact ⟨keeps_small_private a s st hst hs.1, hs.2.store hst⟩

theorem Emits.quiet {α : Type} {p : Ctl α} (hp : Emits (Small a) (Store.Private a) p)
    {s : Manager} (hs : Quiet a m s) (hsmall : Small a s) : Quiet a m (p.final s) :=
  (hp.final (keeps_quiet a m) hsmall hs).2

/-- Nothing changed that the accounts of an unpublished program depend on. -/
theorem Accounts.quiet (h : Accounts m) (hquiet : Quiet a m m')
    (hzero : (m.programs a).instanceId = 0) : Accounts m' := by
  have hok := h.programs a
  have hzero' : (m'.programs a).instanceId = 0 := hquiet.instanceId.trans hzero
  have hcount : (m'.programs a).count = 0 := hquiet.count.trans (hok.idle hzero).1
  apply h.replace hquiet.apart hquiet.sites hquiet.text
  · intro e i
    constructor
    · intro hlinked
      exact absurd hzero' hlinked.1
    · intro hlinked
      exact absurd hzero hlinked.1
  · constructor
    · intro _
      exact hzero'
    · intro _
      exact ⟨hcount, hquiet.mode.trans (hok.idle hzero).2⟩
    · rw [hcount]
      exact Nat.zero_le _
    · intro e he
      omega
    · rw [hquiet.mode, hquiet.ceiling]
      exact hok.ceiling
    · intro e i hlinked
      exact absurd hzero' hlinked.1

/-- The tables of an entry that has just been prepared. -/
structure EntryReady (m : Manager) (id e : Nat) : Prop where
  unlinked : (m.programs id).sites e = none
  disabled : (m.slots (lsProgramSlot id e)).mode = lsModeDisable
  alive : ∀ v, (m.slots (lsProgramSlot id e)).vm = some v → v ∉ m.freed

/-- A round that succeeds makes its entry ready and leaves the others. -/
theorem prepareEntry_ready {r : LoadRequest} (hfreed : ∀ v ∈ m.freed, v < m.nextVm)
    (hok : (prepareEntry id r entry).result m = true) (hentry : entry < lsProgramEntries) :
    EntryReady ((prepareEntry id r entry).final m) id entry ∧
      (∀ v ∈ ((prepareEntry id r entry).final m).freed,
        v < ((prepareEntry id r entry).final m).nextVm) ∧
      ∀ e < lsProgramEntries, e ≠ entry → EntryReady m id e →
        EntryReady ((prepareEntry id r entry).final m) id e := by
  unfold prepareEntry at hok ⊢
  cases houtcome : r.prepare entry with
  | refused => simp [houtcome, lsVmPrepareSlot] at hok
  | failed safeValue shapes => simp [houtcome, lsVmPrepareSlot] at hok
  | ready safeValue shapes =>
      have hfresh : m.nextVm ∉ m.freed := by
        intro hmem
        exact absurd (hfreed _ hmem) (Nat.lt_irrefl _)
      simp only [lsVmPrepareSlot, clearSlot, recordShapes, final_bind, result_bind, final_write,
        store_slot, store_program, store_created, result_pure, final_pure, if_true,
        Function.update_self, Function.update_idem]
      refine ⟨⟨?_, ?_, ?_⟩, ?_, ?_⟩
      · simp
      · simp
      · intro v hv
        simp only [Function.update_self, Option.some.injEq] at hv
        rw [← hv]
        exact hfresh
      · intro v hv
        exact Nat.lt_succ_of_lt (hfreed v hv)
      · intro e he hne hready
        have hslot : lsProgramSlot id e ≠ lsProgramSlot id entry := by
          intro heq
          exact hne (lsProgramSlot_inj he hentry heq).2
        constructor
        · simpa [hne] using hready.unlinked
        · simpa [hslot] using hready.disabled
        · simpa [hslot] using hready.alive

/-- A loop that made every VM it was asked for has made every entry ready. -/
theorem prepareEntries_ready (r : LoadRequest) :
    ∀ left made (m : Manager), (∀ v ∈ m.freed, v < m.nextVm) →
      (∀ e < made, EntryReady m id e) →
      made + left ≤ lsProgramEntries →
      (prepareEntries id r left made).result m = made + left →
      ∀ e < made + left, EntryReady ((prepareEntries id r left made).final m) id e := by
  intro left
  induction left with
  | zero =>
      intro made m _ hready _ _ e he
      exact hready e he
  | succ left ih =>
      intro made m hfreed hready hle hresult
      unfold prepareEntries at hresult ⊢
      rw [result_bind, result_ite] at hresult
      rw [final_bind, final_ite]
      split at hresult
      · rename_i hok
        rw [if_pos hok]
        obtain ⟨hnew, hfreed', hkept⟩ := prepareEntry_ready hfreed hok (by omega)
        have hall : ∀ e < made + 1, EntryReady ((prepareEntry id r made).final m) id e := by
          intro e he
          by_cases heq : e = made
          · rw [heq]
            exact hnew
          · exact hkept e (by omega) heq (hready e (by omega))
        have hrest := ih (made + 1) _ hfreed' hall (by omega) (by omega)
        intro e he
        exact hrest e (by omega)
      · rw [result_pure] at hresult
        omega

/-- What a load leaves when it asks for the gate with all its VMs made. -/
theorem lsProgramLoadPrepare_ready {r : LoadRequest} {plan : LoadPlan} (hfreed : ∀ v ∈ m.freed, v < m.nextVm)
    (hplan : (lsProgramLoadPrepare id r).result m = some plan) (hmade : plan.made = r.count) :
    ∀ e < r.count, EntryReady ((lsProgramLoadPrepare id r).final m) id e := by
  rcases lsProgramLoadPrepare_cases m id r with ⟨hnone, _⟩ | ⟨hnot, _, hsome, hfinal⟩
  · rw [hplan] at hnone
    contradiction
  · rw [hplan, Option.some.injEq] at hsome
    have hplanMade := congrArg LoadPlan.made hsome
    have hresult : (prepareEntries id r r.count 0).result ((openBank id).final m) =
        0 + r.count := by
      rw [Nat.zero_add]
      exact hplanMade.symm.trans hmade
    have hfreed' : ∀ v ∈ ((openBank id).final m).freed,
        v < ((openBank id).final m).nextVm := by
      simpa [openBank] using hfreed
    have hready := prepareEntries_ready r r.count 0 _ hfreed'
      (fun e he => absurd he (Nat.not_lt_zero e))
      (by have := count_le_of_not_loadRefused hnot; omega) hresult
    intro e he
    rw [hfinal]
    exact hready e (by omega)

/-- Publication, done or refused by the configuration slot. -/
theorem lsProgramLoadPublish_cases (m : Manager) (id : Nat) (r : LoadRequest)
    (instanceId : UInt64) :
    ((lsProgramLoadPublish id r instanceId).result m = false ∧
        (lsProgramLoadPublish id r instanceId).final m = m) ∨
      ((lsProgramLoadPublish id r instanceId).result m = true ∧
        (lsProgramLoadPublish id r instanceId).final m =
          { m with
            config := (lsConfigBind m.config (configSlot id) instanceId (r.sha.getD [])).2
            programs := Function.update m.programs id
              { m.programs id with
                count := r.count
                ceiling := r.ceiling
                instanceId := instanceId } }) := by
  unfold lsProgramLoadPublish
  rw [result_read_bind, final_read_bind, result_ite, final_ite]
  split
  · refine .inr ⟨rfl, ?_⟩
    simp
  · exact .inl ⟨rfl, rfl⟩

/-- Publishing entries that are ready. -/
theorem Accounts.publish {r : LoadRequest} {instanceId : UInt64} (h : Accounts m)
    (hid : id < lsProgramMax) (hzero : (m.programs id).instanceId = 0)
    (hinstance : instanceId ≠ 0) (hcount : r.count ≤ lsProgramEntries)
    (hready : ∀ e < r.count, EntryReady m id e) :
    Accounts ((lsProgramLoadPublish id r instanceId).final m) := by
  have hapart := Emits.apart (emits_lsProgramLoadPublish hcount instanceId) (h.small id)
  rcases lsProgramLoadPublish_cases m id r instanceId with ⟨_, hfinal⟩ | ⟨_, hfinal⟩
  · rw [hfinal]
    exact h
  · rw [hfinal] at hapart ⊢
    have hmode : (m.programs id).mode = lsModeDisable := ((h.programs id).idle hzero).2
    -- nothing is linked yet, before and after
    have hunlinked : ∀ e i, (m.programs id).sites e = some i → ¬ e < r.count := by
      intro e i hsite hlt
      rw [(hready e hlt).unlinked] at hsite
      contradiction
    apply h.replace hapart rfl rfl
    · intro e i
      constructor
      · intro hlinked
        have hlinked' := hlinked.2
        simp only [Function.update_self] at hlinked'
        exact absurd hlinked'.1 (hunlinked e i hlinked'.2)
      · intro hlinked
        exact absurd hzero hlinked.1
    · constructor
      · intro hge
        omega
      · simp only [Function.update_self]
        intro hzero'
        exact absurd hzero' hinstance
      · simpa using hcount
      · simp only [Function.update_self]
        intro e he
        rw [(hready e he).disabled, hmode]
      · simp only [Function.update_self]
        rw [hmode]
        exact Nat.zero_le _
      · intro e i hlinked
        have hlinked' := hlinked.2
        simp only [Function.update_self] at hlinked'
        exact absurd hlinked'.1 (hunlinked e i hlinked'.2)

/-! ## The locked parts -/

/-- The agreement, and the VMs of published entries. -/
structure Sound (m : Manager) : Prop where
  accounts : Accounts m
  vms : Vms m

theorem sound_initial (session : UInt64) : Sound (.initial session) :=
  ⟨accounts_initial session, vms_initial session⟩

theorem Sound.setMode {mode : Nat} (h : Sound m) (hinstance : (m.programs id).instanceId ≠ 0)
    (hmode : mode ≤ (m.programs id).ceiling) : Sound ((setMode id mode).final m) := by
  have hremoded := remoded_setMode m id mode
  refine ⟨h.accounts.setMode hinstance hmode, ?_⟩
  apply (Emits.vmsExcept (emits_setMode mode) (h.accounts.small id) (h.vms.except id)).vms
  apply alive_congr (h.vms.all id) _ _ hremoded.freed
  · rw [hremoded.program, Function.update_self]
  · intro e _
    exact hremoded.vm _

theorem Sound.attachLocked (h : Sound m) (hinstance : (m.programs id).instanceId ≠ 0)
    (hentry : entry < (m.programs id).count) (hfree : (m.programs id).sites entry = none)
    (patch : Patch) : Sound ((lsProgramAttachLocked id entry patch).final m) := by
  have hemits : Emits (Small id) (Store.Local id) (lsProgramAttachLocked id entry patch) :=
    emits_lsProgramAttachLocked patch
  have hvms := Emits.vmsExcept hemits (h.accounts.small id) (h.vms.except id)
  rcases lsProgramAttachLocked_cases h.accounts patch with
    ⟨_, hfinal⟩ | ⟨i, s, text, hfits, _, _, hfinal⟩
  · rw [hfinal]
    exact h
  · rw [hfinal] at hvms ⊢
    refine ⟨h.accounts.link hinstance hentry hfree hfits, hvms.vms ?_⟩
    refine alive_congr (h.vms.all id) ?_ (fun _ _ => rfl) rfl
    simp [linkedState]

theorem Sound.detachLocked (h : Sound m) (hinstance : (m.programs id).instanceId ≠ 0)
    (hentry : entry < (m.programs id).count) (patch : Patch) :
    Sound ((lsProgramDetachLocked id entry patch).final m) := by
  have hround := detachRound_detachLocked m id entry patch
  refine ⟨h.accounts.detachLocked hinstance hentry patch, ?_⟩
  apply (Emits.vmsExcept (emits_lsProgramDetachLocked patch) (h.accounts.small id)
    (h.vms.except id)).vms
  apply alive_congr (h.vms.all id) hround.count _ hround.freed
  intro e _
  rw [hround.slots]

theorem Sound.releaseProgram (h : Sound m) (hmode : (m.programs id).mode = lsModeDisable)
    (hnone : ∀ e < (m.programs id).count, (m.programs id).sites e = none) :
    Sound ((releaseProgram id).final m) := by
  refine ⟨h.accounts.releaseProgram hmode hnone, ?_⟩
  rcases releaseProgram_cases m id with ⟨_, hfinal⟩ | ⟨_, hprograms, _, _⟩
  · rw [hfinal]
    exact h.vms
  · apply (Emits.vmsExcept emits_releaseProgram (h.accounts.small id) (h.vms.except id)).vms
    apply alive_of_count_zero
    rw [hprograms, Function.update_self]

theorem Sound.detaching (h : Sound m) (hinstance : (m.programs id).instanceId ≠ 0)
    (patch : Patch) :
    Sound ((whileOk (detachLinked id patch) (List.range (m.programs id).count)).final m) := by
  have hloop := h.accounts.detaching hinstance patch
  refine ⟨hloop.accounts, ?_⟩
  have hemits : Emits (Small id) (Store.Local id)
      (whileOk (detachLinked id patch) (List.range (m.programs id).count)) := by
    apply emits_whileOk (keeps_small id)
    intro e _
    exact emits_detachLinked patch
  apply (Emits.vmsExcept hemits (h.accounts.small id) (h.vms.except id)).vms
  apply alive_congr (h.vms.all id) hloop.count _ hloop.freed
  intro e _
  rw [hloop.slots]

/-- A revocation, whether it ends or stops at a link or at the configuration. -/
theorem Sound.revokeLocked (h : Sound m) (hinstance : (m.programs id).instanceId ≠ 0)
    (patch : Patch) : Sound ((lsProgramRevokeLocked id patch).final m) := by
  have hremoded := remoded_setMode m id lsModeDisable
  have hdisabled : Sound ((Program.setMode id lsModeDisable).final m) :=
    h.setMode hinstance (Nat.zero_le _)
  unfold lsProgramRevokeLocked
  rw [final_bind]
  generalize (Program.setMode id lsModeDisable).final m = s at hremoded hdisabled
  have hprogram : s.programs id = { m.programs id with mode := lsModeDisable } := by
    rw [hremoded.program, Function.update_self]
  have hpublished : (s.programs id).instanceId ≠ 0 := by
    rw [hprogram]
    exact hinstance
  have hkept := hdisabled.accounts.detaching hpublished patch
  have hloop := hdisabled.detaching hpublished patch
  rw [final_read_bind, final_bind, final_ite]
  split
  · rename_i hok
    apply hloop.releaseProgram
    · rw [hkept.mode, hprogram]
    · rw [hkept.count]
      exact whileOk_detachLinked hok
  · exact hloop

/-- No site is described anew by a revocation. -/
theorem Sound.revokeLocked_sites (h : Sound m) (hinstance : (m.programs id).instanceId ≠ 0)
    (patch : Patch) (j : Nat) :
    SameSite (m.sites j) (((lsProgramRevokeLocked id patch).final m).sites j) := by
  have hremoded := remoded_setMode m id lsModeDisable
  have hdisabled : Sound ((Program.setMode id lsModeDisable).final m) :=
    h.setMode hinstance (Nat.zero_le _)
  unfold lsProgramRevokeLocked
  rw [final_bind]
  generalize (Program.setMode id lsModeDisable).final m = s at hremoded hdisabled
  have hpublished : (s.programs id).instanceId ≠ 0 := by
    rw [hremoded.program, Function.update_self]
    exact hinstance
  have hloop := (hdisabled.accounts.detaching hpublished patch).sites j
  rw [hremoded.sites] at hloop
  rw [final_read_bind, final_bind, final_ite]
  split
  · rcases releaseProgram_cases
        ((whileOk (detachLinked id patch) (List.range (s.programs id).count)).final s) id with
      ⟨_, hfinal⟩ | ⟨_, _, hsites, _⟩
    · rw [hfinal]
      exact hloop
    · rw [hsites]
      exact hloop
  · exact hloop

theorem Sound.publish {r : LoadRequest} {instanceId : UInt64} (h : Sound m)
    (hid : id < lsProgramMax) (hzero : (m.programs id).instanceId = 0)
    (hinstance : instanceId ≠ 0) (hcount : r.count ≤ lsProgramEntries)
    (hready : ∀ e < r.count, EntryReady m id e) :
    Sound ((lsProgramLoadPublish id r instanceId).final m) := by
  refine ⟨h.accounts.publish hid hzero hinstance hcount hready, ?_⟩
  have hvms := Emits.vmsExcept (emits_lsProgramLoadPublish hcount instanceId)
    (h.accounts.small id) (h.vms.except id)
  rcases lsProgramLoadPublish_cases m id r instanceId with ⟨_, hfinal⟩ | ⟨_, hfinal⟩
  · rw [hfinal]
    exact h.vms
  · rw [hfinal] at hvms ⊢
    apply hvms.vms
    intro e _ hlt v hv
    simp only [Function.update_self] at hlt
    exact (hready e hlt).alive v hv

/-- Stores outside the gate keep everything of an unpublished program sound. -/
theorem Sound.quiet {α : Type} {p : Ctl α} (h : Sound m)
    (hp : Emits (Small a) (Store.Private a) p) (hzero : (m.programs a).instanceId = 0) :
    Sound (p.final m) ∧ Quiet a m (p.final m) := by
  have hquiet := Emits.quiet hp (Quiet.refl a m) (h.accounts.small a)
  have hlocal := hp.mono fun _ => Store.Private.isLocal
  have hvms := Emits.vmsExcept hlocal (h.accounts.small a) (h.vms.except a)
  refine ⟨⟨h.accounts.quiet hquiet hzero, hvms.vms (alive_of_count_zero ?_)⟩, hquiet⟩
  rw [hquiet.count]
  exact ((h.accounts.programs a).idle hzero).1

/-! ## Phases -/

/-- What an operation that asks for the gate may rely on when it has it. -/
def Op.Ready : Op → LoadPlan → Manager → Prop
  | .load id r, plan, m =>
      id < lsProgramMax ∧ (m.programs id).instanceId = 0 ∧ plan.instanceId ≠ 0 ∧
        plan.made ≤ r.count ∧ r.count ≤ lsProgramEntries ∧
        (plan.made = r.count → ∀ e < r.count, EntryReady m id e)
  | .attach id _ entry _, _, m =>
      (m.programs id).instanceId ≠ 0 ∧ entry < (m.programs id).count ∧
        (m.programs id).sites entry = none
  | .detach id _ entry _, _, m =>
      (m.programs id).instanceId ≠ 0 ∧ entry < (m.programs id).count
  | .mode id _ value, _, m =>
      (m.programs id).instanceId ≠ 0 ∧ value ≤ (m.programs id).ceiling
  | .revoke id _ _, _, m => (m.programs id).instanceId ≠ 0

/-- What an operation that failed may rely on when it takes back what it made. -/
def Op.Undoable : Op → LoadPlan → Manager → Prop
  | .load id _, plan, m => (m.programs id).instanceId = 0 ∧ plan.made ≤ lsProgramEntries
  | _, _, _ => True

theorem Op.Ready.undoable {op : Op} {plan : LoadPlan} (h : op.Ready plan m) :
    op.Undoable plan m := by
  cases op with
  | load id r => exact ⟨h.2.1, h.2.2.2.1.trans h.2.2.2.2.1⟩
  | attach => trivial
  | detach => trivial
  | mode => trivial
  | revoke => trivial

theorem lsProgramFind_eq_true {instanceId : UInt64} (h : lsProgramFind m id instanceId = true) :
    id < lsProgramMax ∧ (m.programs id).instanceId ≠ 0 := by
  simp only [lsProgramFind, Bool.not_eq_true', Bool.or_eq_false_iff, decide_eq_false_iff_not,
    beq_eq_false_iff_ne, bne_eq_false_iff_eq] at h
  refine ⟨by omega, ?_⟩
  rw [h.2]
  exact h.1.2

theorem unpublished_of_not_loadRefused {r : LoadRequest} (h : ¬ loadRefused m id r = true) :
    id < lsProgramMax ∧ (m.programs id).instanceId = 0 := by
  simp only [loadRefused, Bool.or_eq_true, decide_eq_true_eq, not_or, bne_iff_ne, ne_eq,
    not_not, not_le] at h
  exact ⟨h.1.1.1.1.1.1.1.1.1, h.1.1.2⟩

theorem modeRefused_eq_false {instanceId : UInt64} {mode : Nat}
    (h : modeRefused m id instanceId mode = false) :
    (m.programs id).instanceId ≠ 0 ∧ mode ≤ (m.programs id).ceiling := by
  simp only [modeRefused, Bool.or_eq_false_iff, Bool.not_eq_false', decide_eq_false_iff_not,
    not_lt] at h
  exact ⟨(lsProgramFind_eq_true h.1).2, h.2⟩

theorem attachRefused_eq_false {instanceId : UInt64} {patch : Option Patch}
    (h : attachRefused m id instanceId entry patch = false) :
    (m.programs id).instanceId ≠ 0 ∧ entry < (m.programs id).count ∧
      (m.programs id).sites entry = none := by
  simp only [attachRefused, Bool.or_eq_false_iff, Bool.not_eq_false', decide_eq_false_iff_not,
    not_le, Option.isSome_eq_false_iff, Option.isNone_iff_eq_none] at h
  exact ⟨(lsProgramFind_eq_true h.1.1.1).2, h.1.1.2, h.1.2⟩

theorem detachRefused_eq_false {instanceId : UInt64} {patch : Option Patch}
    (h : detachRefused m id instanceId entry patch = false) :
    (m.programs id).instanceId ≠ 0 ∧ entry < (m.programs id).count := by
  simp only [detachRefused, Bool.or_eq_false_iff, Bool.not_eq_false', decide_eq_false_iff_not,
    not_le] at h
  exact ⟨(lsProgramFind_eq_true h.1.1).2, h.1.2⟩

theorem revokeRefused_eq_false {instanceId : UInt64} {patch : Option Patch}
    (h : revokeRefused m id instanceId patch = false) : (m.programs id).instanceId ≠ 0 := by
  simp only [revokeRefused, Bool.or_eq_false_iff, Bool.not_eq_false'] at h
  exact (lsProgramFind_eq_true h.1).2

theorem checkFirst_cases (m : Manager) (refused : Manager → Bool) :
    (checkFirst refused).final m = m ∧
      (refused m = true ∧ (checkFirst refused).result m = none ∨
        refused m = false ∧ (checkFirst refused).result m = some { instanceId := 0, made := 0 }) := by
  unfold checkFirst
  rw [result_read_bind, final_read_bind, result_ite, final_ite]
  cases refused m with
  | true => exact ⟨rfl, .inl ⟨rfl, rfl⟩⟩
  | false => exact ⟨rfl, .inr ⟨rfl, rfl⟩⟩

/-- Nothing that the accounts speak of has changed. -/
structure SameAccounts (m m' : Manager) : Prop where
  sites : m'.sites = m.sites
  text : m'.text = m.text
  links : ∀ id e i, Linked m' id e i ↔ Linked m id e i
  modes : ∀ id, (m'.programs id).mode = (m.programs id).mode
  ceilings : ∀ id, (m'.programs id).ceiling = (m.programs id).ceiling
  published : ∀ id, (m.programs id).instanceId ≠ 0 → m'.programs id = m.programs id ∧
    ∀ e < lsProgramEntries, m'.slots (lsProgramSlot id e) = m.slots (lsProgramSlot id e)

theorem SameAccounts.refl (m : Manager) : SameAccounts m m :=
  ⟨rfl, rfl, fun _ _ _ => .rfl, fun _ => rfl, fun _ => rfl, fun _ _ => ⟨rfl, fun _ _ => rfl⟩⟩

theorem Quiet.sameAccounts (h : Quiet a m m') (hzero : (m.programs a).instanceId = 0) :
    SameAccounts m m' := by
  refine ⟨h.sites, h.text, ?_, ?_, ?_, ?_⟩
  · intro id e i
    by_cases hid : id = a
    · subst hid
      constructor
      · intro hlinked
        exact absurd (h.instanceId.trans hzero) hlinked.1
      · intro hlinked
        exact absurd hzero hlinked.1
    · exact linked_congr (h.apart.programs id hid) e i
  · intro id
    by_cases hid : id = a
    · rw [hid]
      exact h.mode
    · rw [h.apart.programs id hid]
  · intro id
    by_cases hid : id = a
    · rw [hid]
      exact h.ceiling
    · rw [h.apart.programs id hid]
  · intro id hpublished
    have hid : id ≠ a := by
      intro heq
      rw [heq] at hpublished
      exact hpublished hzero
    exact ⟨h.apart.programs id hid, h.apart.slots id hid⟩

/-- The checks, and the preparation of a load. -/
theorem Sound.before (h : Sound m) (op : Op) :
    Sound (op.before.final m) ∧ SameAccounts m (op.before.final m) ∧
      ∀ plan, op.before.result m = some plan → op.Ready plan (op.before.final m) := by
  have hchecked : ∀ refused : Manager → Bool, (∀ plan, refused m = false → op.Ready plan m) →
      Sound ((checkFirst refused).final m) ∧ SameAccounts m ((checkFirst refused).final m) ∧
        ∀ plan, (checkFirst refused).result m = some plan →
          op.Ready plan ((checkFirst refused).final m) := by
    intro refused hready
    obtain ⟨hfinal, hcases⟩ := checkFirst_cases m refused
    rw [hfinal]
    refine ⟨h, SameAccounts.refl m, ?_⟩
    intro plan hplan
    rcases hcases with ⟨_, hnone⟩ | ⟨hrefused, _⟩
    · rw [hplan] at hnone
      contradiction
    · exact hready plan hrefused
  cases op with
  | load id r =>
      show Sound ((lsProgramLoadPrepare id r).final m) ∧ _
      rcases lsProgramLoadPrepare_cases m id r with ⟨hnone, hfinal⟩ | ⟨hnot, _, _, _⟩
      · rw [Op.before, hfinal, hnone]
        refine ⟨h, SameAccounts.refl m, ?_⟩
        intro plan hplan
        contradiction
      · obtain ⟨hid, hzero⟩ := unpublished_of_not_loadRefused hnot
        obtain ⟨hsound, hquiet⟩ := h.quiet (emits_lsProgramLoadPrepare r) hzero
        refine ⟨hsound, hquiet.sameAccounts hzero, ?_⟩
        intro plan hplan
        obtain ⟨_, _, hinstance, hmade, hcount⟩ := lsProgramLoadPrepare_result hplan
        exact ⟨hid, hquiet.instanceId.trans hzero, hinstance, hmade, hcount,
          lsProgramLoadPrepare_ready h.vms.table.freed hplan⟩
  | attach id instanceId entry patch =>
      apply hchecked
      intro plan hrefused
      exact attachRefused_eq_false hrefused
  | detach id instanceId entry patch =>
      apply hchecked
      intro plan hrefused
      exact detachRefused_eq_false hrefused
  | mode id instanceId value =>
      apply hchecked
      intro plan hrefused
      exact modeRefused_eq_false hrefused
  | revoke id instanceId patch =>
      apply hchecked
      intro plan hrefused
      exact revokeRefused_eq_false hrefused

/-- The work under the gate. -/
theorem Sound.locked {op : Op} {plan : LoadPlan} (h : Sound m) (hready : op.Ready plan m)
    (hasks : op.asks plan = true) : Sound ((op.locked plan).final m) := by
  cases op with
  | load id r =>
      obtain ⟨hid, hzero, hinstance, _, hcount, hentries⟩ := hready
      exact h.publish hid hzero hinstance hcount (hentries (by simpa [Op.asks] using hasks))
  | attach id instanceId entry patch =>
      exact h.attachLocked hready.1 hready.2.1 hready.2.2 _
  | detach id instanceId entry patch => exact h.detachLocked hready.1 hready.2 _
  | mode id instanceId value =>
      show Sound ((lsProgramModeLocked id value).final m)
      unfold lsProgramModeLocked
      rw [final_bind, final_pure]
      exact h.setMode hready.1 hready.2
  | revoke id instanceId patch => exact h.revokeLocked hready _

/-- Work under the gate that fails has changed nothing, unless it is a
revocation. -/
theorem Sound.locked_failed {op : Op} {plan : LoadPlan} (h : Sound m)
    (hfailed : (op.locked plan).result m = false)
    (hrevoke : ∀ id instanceId patch, op ≠ .revoke id instanceId patch) :
    (op.locked plan).final m = m := by
  cases op with
  | load id r =>
      rcases lsProgramLoadPublish_cases m id r plan.instanceId with
        ⟨_, hfinal⟩ | ⟨hresult, _⟩
      · exact hfinal
      · exact absurd (hfailed.symm.trans hresult) Bool.false_ne_true
  | attach id instanceId entry patch =>
      rcases lsProgramAttachLocked_cases h.accounts (givenPatch patch) with
        ⟨_, hfinal⟩ | ⟨_, _, _, _, _, hresult, _⟩
      · exact hfinal
      · exact absurd (hfailed.symm.trans hresult) Bool.false_ne_true
  | detach id instanceId entry patch =>
      rcases lsProgramDetachLocked_cases m id entry (givenPatch patch) with
        ⟨_, hfinal⟩ | ⟨_, _, _, _, hresult, _⟩
      · exact hfinal
      · exact absurd (hfailed.symm.trans hresult) Bool.false_ne_true
  | mode id instanceId value => contradiction
  | revoke id instanceId patch => exact absurd rfl (hrevoke id instanceId patch)

/-- After work under the gate that failed, the rest can still be taken back. -/
theorem Op.Undoable.locked_failed {op : Op} {plan : LoadPlan} (h : Sound m)
    (hundo : op.Undoable plan m) (hfailed : (op.locked plan).result m = false) :
    op.Undoable plan ((op.locked plan).final m) := by
  cases op with
  | load id r =>
      rw [h.locked_failed hfailed (by simp)]
      exact hundo
  | attach => trivial
  | detach => trivial
  | mode => trivial
  | revoke => trivial

/-- Taking back what a load made. -/
theorem Sound.after {op : Op} {plan : LoadPlan} (h : Sound m) (hundo : op.Undoable plan m) :
    Sound ((op.after plan).final m) ∧ SameAccounts m ((op.after plan).final m) := by
  cases op with
  | load id r =>
      obtain ⟨hzero, hmade⟩ := hundo
      obtain ⟨hsound, hquiet⟩ := h.quiet (emits_lsProgramLoadRollback hmade) hzero
      exact ⟨hsound, hquiet.sameAccounts hzero⟩
  | attach => exact ⟨h, SameAccounts.refl m⟩
  | detach => exact ⟨h, SameAccounts.refl m⟩
  | mode => exact ⟨h, SameAccounts.refl m⟩
  | revoke => exact ⟨h, SameAccounts.refl m⟩

/-! ## Whole operations -/

/-- The ways through the phases. -/
theorem run_cases (m : Manager) (gate : Bool) (op : Op) :
    ((op.run gate).result m = false ∧ op.before.result m = none ∧
        (op.run gate).final m = op.before.final m) ∨
      ∃ plan, op.before.result m = some plan ∧
        ((op.asks plan = true ∧ gate = true ∧
            (op.locked plan).result (op.before.final m) = (op.run gate).result m ∧
            (((op.run gate).result m = true ∧
                (op.run gate).final m = (op.locked plan).final (op.before.final m)) ∨
              ((op.run gate).result m = false ∧
                (op.run gate).final m =
                  (op.after plan).final ((op.locked plan).final (op.before.final m))))) ∨
          ((op.asks plan = false ∨ gate = false) ∧ (op.run gate).result m = false ∧
            (op.run gate).final m = (op.after plan).final (op.before.final m))) := by
  rw [Op.run_eq_phased]
  unfold Op.phased
  rw [result_bind, final_bind]
  cases hplan : op.before.result m with
  | none => exact .inl ⟨rfl, rfl, rfl⟩
  | some plan =>
      refine .inr ⟨plan, rfl, ?_⟩
      generalize op.before.final m = s
      dsimp only
      rw [result_ite, final_ite]
      cases hasks : op.asks plan with
      | false => exact .inr ⟨.inl rfl, rfl, by simp⟩
      | true =>
          cases gate with
          | false => exact .inr ⟨.inr rfl, rfl, by simp⟩
          | true =>
              refine .inl ⟨rfl, rfl, ?_⟩
              simp only [Bool.and_self, if_true, result_bind, final_bind, result_ite, final_ite]
              cases hlocked : (op.locked plan).result s with
              | true => exact ⟨rfl, .inl ⟨rfl, rfl⟩⟩
              | false => exact ⟨rfl, .inr ⟨rfl, rfl⟩⟩

/-- Every operation keeps the agreement. -/
theorem Sound.run (h : Sound m) (gate : Bool) (op : Op) : Sound ((op.run gate).final m) := by
  obtain ⟨hbefore, _, hready⟩ := h.before op
  rcases run_cases m gate op with ⟨_, _, hfinal⟩ | ⟨plan, hplan, hcases⟩
  · rw [hfinal]
    exact hbefore
  · have hplanReady := hready plan hplan
    rcases hcases with ⟨hasks, _, hresult, hends⟩ | ⟨_, _, hfinal⟩
    · rcases hends with ⟨_, hfinal⟩ | ⟨hfailed, hfinal⟩
      · rw [hfinal]
        exact hbefore.locked hplanReady hasks
      · rw [hfinal]
        exact ((hbefore.locked hplanReady hasks).after
          (hplanReady.undoable.locked_failed hbefore (hresult.trans hfailed))).1
    · rw [hfinal]
      exact (hbefore.after hplanReady.undoable).1

theorem SameAccounts.trans {m'' : Manager} (h : SameAccounts m m') (h' : SameAccounts m' m'') :
    SameAccounts m m'' := by
  refine ⟨h'.sites.trans h.sites, h'.text.trans h.text, ?_, ?_, ?_, ?_⟩
  · intro id e i
    exact (h'.links id e i).trans (h.links id e i)
  · intro id
    exact (h'.modes id).trans (h.modes id)
  · intro id
    exact (h'.ceilings id).trans (h.ceilings id)
  · intro id hpublished
    obtain ⟨hprogram, hslots⟩ := h.published id hpublished
    have hpublished' : (m'.programs id).instanceId ≠ 0 := by
      rw [hprogram]
      exact hpublished
    obtain ⟨hprogram', hslots'⟩ := h'.published id hpublished'
    refine ⟨hprogram'.trans hprogram, ?_⟩
    intro e he
    exact (hslots' e he).trans (hslots e he)

/-- A revocation that is past its checks and holds the gate. -/
def Op.StoppedMidway (gate : Bool) (m : Manager) : Op → Prop
  | .revoke id instanceId patch => revokeRefused m id instanceId patch = false ∧ gate = true
  | _ => False

/-- An operation that fails changes nothing, a stopped revocation apart. -/
theorem Sound.failed (h : Sound m) {gate : Bool} {op : Op}
    (hfailed : (op.run gate).result m = false) (hmidway : ¬ op.StoppedMidway gate m) :
    SameAccounts m ((op.run gate).final m) := by
  obtain ⟨hbefore, hsame, hready⟩ := h.before op
  rcases run_cases m gate op with ⟨_, _, hfinal⟩ | ⟨plan, hplan, hcases⟩
  · rw [hfinal]
    exact hsame
  · have hundo := (hready plan hplan).undoable
    rcases hcases with ⟨_, hgate, hresult, hends⟩ | ⟨_, _, hfinal⟩
    · rcases hends with ⟨hok, _⟩ | ⟨_, hfinal⟩
      · exact absurd (hfailed.symm.trans hok) Bool.false_ne_true
      · have hlocked : (op.locked plan).final (op.before.final m) = op.before.final m := by
          apply hbefore.locked_failed (hresult.trans hfailed)
          intro id instanceId patch hop
          subst hop
          rcases (checkFirst_cases m fun m => revokeRefused m id instanceId patch).2 with
            ⟨_, hnone⟩ | ⟨hrefused, _⟩
          · rw [Op.before, hnone] at hplan
            contradiction
          · exact hmidway ⟨hrefused, hgate⟩
        rw [hfinal, hlocked]
        exact hsame.trans (hbefore.after hundo).2
    · rw [hfinal]
      exact hsame.trans (hbefore.after hundo).2

/-! ## Every run -/

/-- One control thread that makes one operation after another. -/
def programMachine : Machine Manager (Bool × Op) where
  init m := ∃ session, m = .initial session
  next m step := some ((step.2.run step.1).final m)

theorem sound_of_reachable : ∀ m, programMachine.Reachable m → Sound m := by
  apply Machine.Reachable.invariant
  · intro m hinit
    obtain ⟨session, rfl⟩ := hinit
    exact sound_initial session
  · intro m step m' _ h hnext
    simp only [programMachine, Option.some.injEq] at hnext
    rw [← hnext]
    exact h.run step.1 step.2

/-- In every state of every run of the five operations, whatever the gate, the
patch callback and the preparations do: users count links, sites in use have
different addresses, the text is patched exactly for sites in use, linked entries
agree with their site, modes agree with their slots and stay below the ceiling;
and the next operation gives no site back, and changes none of this by failing
unless it is a revocation that stopped. -/
theorem link_accounting (m : Manager) (hm : programMachine.Reachable m) :
    (∀ i, (m.sites i).users = (links m i).card) ∧
      (∀ i j, 0 < (m.sites i).users → 0 < (m.sites j).users →
        (m.sites i).address = (m.sites j).address → i = j) ∧
      (∀ address i, m.text address = some i ↔
        0 < (m.sites i).users ∧ (m.sites i).address = address) ∧
      (∀ id e i, Linked m id e i →
        ((m.programs id).entries e).address = (m.sites i).address ∧
          (m.slots (lsProgramSlot id e)).safeValue = (m.sites i).safeValue) ∧
      (∀ id, (∀ e < (m.programs id).count,
          (m.slots (lsProgramSlot id e)).mode = (m.programs id).mode) ∧
        (m.programs id).mode ≤ (m.programs id).ceiling) ∧
      ∀ gate op,
        (∀ i, (m.sites i).owned = true →
          (((Op.run gate op).final m).sites i).owned = true) ∧
        ((Op.run gate op).result m = false → ¬ op.StoppedMidway gate m →
          SameAccounts m ((Op.run gate op).final m)) := by
  have h := sound_of_reachable m hm
  refine ⟨h.accounts.sites.users, h.accounts.sites.apart, h.accounts.sites.text, ?_, ?_, ?_⟩
  · intro id
    exact (h.accounts.programs id).agrees
  · intro id
    exact ⟨(h.accounts.programs id).modes, (h.accounts.programs id).ceiling⟩
  · intro gate op
    constructor
    · intro i hi
      exact owned_run gate op (h.accounts.small op.id) hi
    · exact h.failed

/-- A request for one entry, the function at {lit}`address`. -/
def sampleEntry (address : UInt64) : LsProgramEntry where
  sectionName := fentryBytes ++ [97, 0]
  address := address
  pad := 4

def sampleLoad (address : UInt64) : LoadRequest where
  elf := some []
  entries := some fun _ => sampleEntry address
  count := 1
  sha := some []
  ceiling := lsModeEnforce
  prepare _ := .ready 7 []

/-- The instance of the {lit}`n`th load, into program {lit}`id`. -/
def sampleInstance (n id : Nat) : UInt64 :=
  UInt64.ofNat (lsConfigHandleBit ||| (n <<< 6) ||| configSlot id)

def acceptingPatch : Patch := fun _ _ _ => true

/-- Two programs share a function, and one of them is set to enforce. -/
def sharedRun : List (Bool × Op) :=
  [(true, .load 0 (sampleLoad 4096)), (true, .load 1 (sampleLoad 4096)),
    (true, .attach 0 (sampleInstance 1 0) 0 (some acceptingPatch)),
    (true, .attach 1 (sampleInstance 2 1) 0 (some acceptingPatch)),
    (true, .mode 1 (sampleInstance 2 1) lsModeEnforce)]

def sharedManager : Manager :=
  (programMachine.run (.initial 1) sharedRun).getD (.initial 1)

theorem reachable_sharedManager : programMachine.Reachable sharedManager :=
  Machine.reachable_run_getD (.start ⟨1, rfl⟩) (by decide +kernel)

theorem link_accounting_sharedRun :
    (sharedManager.sites 0).users = 2 ∧ (links sharedManager 0).card = 2 ∧
      sharedManager.text 4096 = some 0 := by
  have haccounts := link_accounting sharedManager reachable_sharedManager
  have husers : (sharedManager.sites 0).users = 2 := by decide +kernel
  have haddress : (sharedManager.sites 0).address = 4096 := by decide +kernel
  refine ⟨husers, (haccounts.1 0).symm.trans husers, ?_⟩
  apply (haccounts.2.2.1 4096 0).mpr
  exact ⟨husers ▸ Nat.two_pos, haddress⟩

end Program
end LiveSurface
