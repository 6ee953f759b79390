import LiveSurface.Program.Manager

/-!
# What an operation can touch

The tables are shared: all programs live in one array, their VM slots and their
configuration slots in others, at computed indices.  An operation addressed to a
program stores into that program's record, slots and configuration, and into
sites and text, and nowhere else.

Main results:

- Theorem {lit}`emits_run`: every store of an operation is local to the program
  it is addressed to.
- Theorem {lit}`apart_run`: the record, the slots and the configuration of every
  other program are what they were.
- Theorem {lit}`emits_lsProgramLoadPrepare`: until a load holds the gate, its
  stores do not even change what its own program publishes.
-/

namespace LiveSurface
namespace Program

open Config StoreProgram

/-! ## Local stores -/

def OwnSlot (a k : Nat) : Prop := ∃ e < lsProgramEntries, k = lsProgramSlot a e

/-- A store that an operation on program {lit}`a` may make. -/
def Store.Local (a : Nat) : Store → Prop
  | .program id f =>
      id = a ∧ ∀ p, p.count ≤ lsProgramEntries → (f p).count ≤ lsProgramEntries
  | .site _ f => ∀ s, s.owned = true → (f s).owned = true
  | .slot k f => OwnSlot a k ∧ ∀ s, (f s).vm = s.vm ∨ (f s).vm = none
  | .config f => ∀ c b, b ≠ a → (f c).slots (configSlot b) = c.slots (configSlot b)
  | .patched _ _ => True
  | .created k => OwnSlot a k
  | .destroyed k => OwnSlot a k

/-- A store that leaves sites, text and what the program publishes alone. -/
def Store.Private (a : Nat) : Store → Prop
  | .program id f =>
      id = a ∧ ∀ p, (f p).instanceId = p.instanceId ∧ (f p).count = p.count ∧
        (f p).mode = p.mode ∧ (f p).ceiling = p.ceiling
  | .site _ _ => False
  | .slot k f => OwnSlot a k ∧ ∀ s, (f s).vm = s.vm ∨ (f s).vm = none
  | .config f => ∀ c b, b ≠ a → (f c).slots (configSlot b) = c.slots (configSlot b)
  | .patched _ _ => False
  | .created k => OwnSlot a k
  | .destroyed k => OwnSlot a k

theorem Store.Private.isLocal {a : Nat} {st : Store} (h : st.Private a) : st.Local a := by
  cases st with
  | program id f =>
      refine ⟨h.1, ?_⟩
      intro p hp
      rw [(h.2 p).2.1]
      exact hp
  | site i f => exact absurd h id
  | slot k f => exact h
  | config f => exact h
  | patched address site => trivial
  | created k => exact h
  | destroyed k => exact h

/-- The program's entries fit its slots. -/
def Small (a : Nat) (m : Manager) : Prop := (m.programs a).count ≤ lsProgramEntries

theorem keeps_small (a : Nat) : Keeps (Small a) (Store.Local a) := by
  intro m st hst hm
  cases st with
  | program id f =>
      obtain ⟨rfl, hcount⟩ := hst
      simpa [Small] using hcount _ hm
  | site i f => exact hm
  | slot k f => exact hm
  | config f => exact hm
  | patched address site => exact hm
  | created k => exact hm
  | destroyed k => exact hm

theorem keeps_small_private (a : Nat) : Keeps (Small a) (Store.Private a) := by
  intro m st hst hm
  exact keeps_small a m st hst.isLocal hm

/-! ## Configuration -/

theorem lsConfigNewInstance_slots (c : LsConfigStore) (slot : Nat) :
    (lsConfigNewInstance c slot).2.slots = c.slots := by
  unfold lsConfigNewInstance
  split <;> rfl

theorem lsConfigBind_other {c : LsConfigStore} {slot other : Nat} (instanceId : UInt64)
    (sha : List UInt8) (hne : other ≠ slot) :
    (lsConfigBind c slot instanceId sha).2.slots other = c.slots other := by
  unfold lsConfigBind
  split
  · rfl
  · split
    · rfl
    · exact LsConfigStore.setSlot_other _ _ hne

theorem lsConfigRevoke_other {c : LsConfigStore} {slot other : Nat} (hne : other ≠ slot) :
    (lsConfigRevoke c slot).2.slots other = c.slots other := by
  unfold lsConfigRevoke
  split
  · rfl
  · split
    · rfl
    · exact LsConfigStore.setSlot_other _ _ hne

theorem configSlot_ne {a b : Nat} (hne : b ≠ a) : configSlot b ≠ configSlot a := by
  intro h
  exact hne (configSlot_inj h)

/-! ## The stores of each operation -/

variable {a id entry : Nat}

theorem ownSlot (he : entry < lsProgramEntries) : OwnSlot id (lsProgramSlot id entry) :=
  ⟨entry, he, rfl⟩

theorem emits_slot (he : entry < lsProgramEntries) {f : LsSlot → LsSlot}
    (hf : ∀ s, (f s).vm = s.vm ∨ (f s).vm = none) :
    Emits (Small id) (Store.Private id) (write (.slot (lsProgramSlot id entry) f) : Ctl Unit) :=
  emits_write ⟨ownSlot he, hf⟩

theorem emits_program {f : LsOwnedProgram → LsOwnedProgram}
    (hf : ∀ p, (f p).instanceId = p.instanceId ∧ (f p).count = p.count ∧
      (f p).mode = p.mode ∧ (f p).ceiling = p.ceiling) :
    Emits (Small id) (Store.Private id) (write (.program id f) : Ctl Unit) :=
  emits_write ⟨rfl, hf⟩

theorem emits_clearSlot (he : entry < lsProgramEntries) :
    Emits (Small id) (Store.Private id) (clearSlot id entry) := by
  unfold clearSlot
  apply (emits_slot he _).bind (keeps_small_private id)
  · intro _
    apply emits_slot he
    intro s
    exact .inl rfl
  · intro s
    exact .inr rfl

theorem emits_recordShapes (shapes : List (List UInt8 × Map.LsMapDef)) :
    Emits (Small id) (Store.Private id) (recordShapes id shapes) := by
  apply emits_program
  intro p
  exact ⟨rfl, rfl, rfl, rfl⟩

theorem emits_lsVmPrepareSlot (he : entry < lsProgramEntries) (outcome : Prepared) :
    Emits (Small id) (Store.Private id) (lsVmPrepareSlot id entry outcome) := by
  have hkeeps := keeps_small_private id
  have hslot : ∀ f : LsSlot → LsSlot, (∀ s, (f s).vm = s.vm) →
      Emits (Small id) (Store.Private id)
        (write (.slot (lsProgramSlot id entry) f) : Ctl Unit) := by
    intro f hf
    apply emits_slot he
    intro s
    exact .inl (hf s)
  cases outcome with
  | refused => exact emits_pure false
  | failed safeValue shapes =>
      unfold lsVmPrepareSlot
      apply Emits.bind _ hkeeps
      · intro _
        apply (emits_recordShapes shapes).bind hkeeps
        intro _
        exact emits_pure false
      · exact hslot _ fun _ => rfl
  | ready safeValue shapes =>
      unfold lsVmPrepareSlot
      apply Emits.bind _ hkeeps
      · intro _
        apply (emits_recordShapes shapes).bind hkeeps
        intro _
        apply Emits.bind _ hkeeps
        · intro _
          apply Emits.bind _ hkeeps
          · intro _
            apply Emits.bind _ hkeeps
            · intro _
              exact emits_pure true
            · exact hslot _ fun _ => rfl
          · exact hslot _ fun _ => rfl
        · exact emits_write (ownSlot he)
      · exact hslot _ fun _ => rfl

theorem emits_prepareEntry (he : entry < lsProgramEntries) (r : LoadRequest) :
    Emits (Small id) (Store.Private id) (prepareEntry id r entry) := by
  have hkeeps := keeps_small_private id
  unfold prepareEntry
  apply (emits_clearSlot he).bind hkeeps
  intro _
  apply (emits_lsVmPrepareSlot he _).bind hkeeps
  intro _
  apply emits_ite
  · intro _
    apply (emits_program _).bind hkeeps
    · intro _
      apply (emits_program _).bind hkeeps
      · intro _
        exact emits_pure true
      · intro p
        exact ⟨rfl, rfl, rfl, rfl⟩
    · intro p
      exact ⟨rfl, rfl, rfl, rfl⟩
  · intro _
    exact emits_pure false

theorem emits_prepareEntries (r : LoadRequest) :
    ∀ left made, made + left ≤ lsProgramEntries →
      Emits (Small id) (Store.Private id) (prepareEntries id r left made) := by
  intro left
  induction left with
  | zero =>
      intro made _
      exact emits_pure made
  | succ left ih =>
      intro made hle
      unfold prepareEntries
      apply (emits_prepareEntry (by omega) r).bind (keeps_small_private id)
      intro _
      apply emits_ite
      · intro _
        exact ih (made + 1) (by omega)
      · intro _
        exact emits_pure made

/-- The loop makes at most the VMs it was asked for. -/
theorem prepareEntries_result_le (r : LoadRequest) :
    ∀ left made m, (prepareEntries id r left made).result m ≤ made + left := by
  intro left
  induction left with
  | zero =>
      intro made m
      exact le_rfl
  | succ left ih =>
      intro made m
      unfold prepareEntries
      rw [result_bind, result_ite]
      split
      · have := ih (made + 1) ((prepareEntry id r made).final m)
        omega
      · rw [result_pure]
        omega

/-- A request that is not refused fits the program's slots. -/
theorem count_le_of_not_loadRefused {m : Manager} {r : LoadRequest}
    (h : ¬ loadRefused m id r = true) : r.count ≤ lsProgramEntries := by
  simp only [loadRefused, Bool.or_eq_true, decide_eq_true_eq, not_or, not_lt] at h
  exact h.1.1.1.1.1.1.1.2

theorem emits_openBank : Emits (Small id) (Store.Private id) (openBank id) := by
  unfold openBank
  apply Emits.bind _ (keeps_small_private id)
  · intro _
    apply emits_program
    intro p
    exact ⟨rfl, rfl, rfl, rfl⟩
  · apply emits_write
    intro c b _
    rw [lsConfigNewInstance_slots]

theorem emits_lsProgramLoadPrepare (r : LoadRequest) :
    Emits (Small id) (Store.Private id) (lsProgramLoadPrepare id r) := by
  have hkeeps := keeps_small_private id
  unfold lsProgramLoadPrepare
  apply emits_read
  intro m _
  apply emits_ite
  · intro _
    exact emits_pure none
  · intro hnot
    apply emits_ite
    · intro _
      exact emits_pure none
    · intro _
      apply emits_openBank.bind hkeeps
      intro _
      have hle := count_le_of_not_loadRefused hnot
      apply (emits_prepareEntries r r.count 0 (by omega)).bind hkeeps
      intro made
      exact emits_pure _

/-- A load is refused without an effect, or opens its bank and makes its VMs. -/
theorem lsProgramLoadPrepare_cases (m : Manager) (id : Nat) (r : LoadRequest) :
    ((lsProgramLoadPrepare id r).result m = none ∧ (lsProgramLoadPrepare id r).final m = m) ∨
      (¬ loadRefused m id r = true ∧
        (lsConfigNewInstance m.config (configSlot id)).1 ≠ 0 ∧
        (lsProgramLoadPrepare id r).result m = some
          { instanceId := (lsConfigNewInstance m.config (configSlot id)).1
            made := (prepareEntries id r r.count 0).result ((openBank id).final m) } ∧
        (lsProgramLoadPrepare id r).final m =
          (prepareEntries id r r.count 0).final ((openBank id).final m)) := by
  unfold lsProgramLoadPrepare
  rw [result_read_bind, final_read_bind, result_ite, final_ite]
  split
  · exact .inl ⟨rfl, rfl⟩
  · rename_i hnot
    dsimp only
    rw [result_ite, final_ite]
    split
    · exact .inl ⟨rfl, rfl⟩
    · rename_i hinstance
      refine .inr ⟨hnot, hinstance, rfl, ?_⟩
      rw [final_bind, final_bind, final_pure]

/-- What a load knows when it asks for the gate. -/
theorem lsProgramLoadPrepare_result {m : Manager} {r : LoadRequest} {plan : LoadPlan}
    (h : (lsProgramLoadPrepare id r).result m = some plan) :
    ¬ loadRefused m id r = true ∧
      plan.instanceId = (lsConfigNewInstance m.config (configSlot id)).1 ∧
      plan.instanceId ≠ 0 ∧ plan.made ≤ r.count ∧ r.count ≤ lsProgramEntries := by
  rcases lsProgramLoadPrepare_cases m id r with ⟨hnone, _⟩ | ⟨hnot, hinstance, hsome, _⟩
  · rw [h] at hnone
    contradiction
  · rw [h, Option.some.injEq] at hsome
    subst hsome
    refine ⟨hnot, rfl, hinstance, ?_, count_le_of_not_loadRefused hnot⟩
    simpa using prepareEntries_result_le r r.count 0 _

theorem emits_destroySlot (he : entry < lsProgramEntries) :
    Emits (Small id) (Store.Private id) (destroySlot id entry) := by
  unfold destroySlot
  apply Emits.bind _ (keeps_small_private id)
  · intro _
    apply emits_slot he
    intro s
    exact .inr rfl
  · exact emits_write (ownSlot he)

theorem emits_destroySlots {count : Nat} (hcount : count ≤ lsProgramEntries) :
    Emits (Small id) (Store.Private id) (forEach (destroySlot id) (List.range count)) := by
  apply emits_forEach (keeps_small_private id)
  intro e he
  apply emits_destroySlot
  have := List.mem_range.mp he
  omega

theorem emits_lsProgramLoadRollback {made : Nat} (hmade : made ≤ lsProgramEntries) :
    Emits (Small id) (Store.Private id) (lsProgramLoadRollback id made) :=
  emits_destroySlots hmade

theorem emits_lsProgramLoadPublish {r : LoadRequest} (hcount : r.count ≤ lsProgramEntries)
    (instanceId : UInt64) :
    Emits (Small id) (Store.Local id) (lsProgramLoadPublish id r instanceId) := by
  have hkeeps := keeps_small id
  unfold lsProgramLoadPublish
  apply emits_read
  intro m _
  apply emits_ite
  · intro _
    apply Emits.bind _ hkeeps
    · intro _
      apply Emits.bind _ hkeeps
      · intro _
        apply Emits.bind _ hkeeps
        · intro _
          apply Emits.bind _ hkeeps
          · intro _
            exact emits_pure true
          · exact emits_write ⟨rfl, fun _ hp => hp⟩
        · exact emits_write ⟨rfl, fun _ hp => hp⟩
      · exact emits_write ⟨rfl, fun _ _ => hcount⟩
    · apply emits_write
      intro c b hb
      exact lsConfigBind_other instanceId _ (configSlot_ne hb)
  · intro _
    exact emits_pure false

theorem emits_setMode (mode : Nat) :
    Emits (Small id) (Store.Local id) (setMode id mode) := by
  have hkeeps := keeps_small id
  unfold setMode
  apply Emits.bind _ hkeeps
  · intro _
    apply emits_read
    intro m hm
    apply emits_forEach hkeeps
    intro e he
    have hlt : e < lsProgramEntries := lt_of_lt_of_le (List.mem_range.mp he) hm
    exact emits_write ⟨ownSlot hlt, fun _ => .inl rfl⟩
  · exact emits_write ⟨rfl, fun _ hp => hp⟩

theorem emits_link (site : Nat) : Emits (Small id) (Store.Local id) (link id entry site) := by
  unfold link
  apply Emits.bind _ (keeps_small id)
  · intro _
    exact emits_write fun _ h => h
  · exact emits_write ⟨rfl, fun _ hp => hp⟩

theorem emits_claimSite (i : Nat) (address pad safe : UInt64) :
    Emits (Small id) (Store.Local id) (claimSite i address pad safe) := by
  have hkeeps := keeps_small id
  unfold claimSite
  apply Emits.bind (emits_write trivial) hkeeps
  intro _
  apply Emits.bind (emits_write fun _ h => h) hkeeps
  intro _
  apply Emits.bind (emits_write fun _ h => h) hkeeps
  intro _
  apply Emits.bind (emits_write fun _ h => h) hkeeps
  intro _
  exact emits_write fun _ _ => rfl

theorem emits_unlink (site : Nat) :
    Emits (Small id) (Store.Local id) (unlink id entry site) := by
  unfold unlink
  apply Emits.bind (emits_write fun _ h => h) (keeps_small id)
  intro _
  exact emits_write ⟨rfl, fun _ hp => hp⟩

theorem emits_lsProgramAttachLocked (patch : Patch) :
    Emits (Small id) (Store.Local id) (lsProgramAttachLocked id entry patch) := by
  have hkeeps := keeps_small id
  unfold lsProgramAttachLocked
  apply emits_read
  intro m _
  dsimp only
  split
  · apply emits_ite
    · intro _
      exact emits_pure false
    · intro _
      apply (emits_link _).bind hkeeps
      intro _
      exact emits_pure true
  · split
    · exact emits_pure false
    · apply (emits_claimSite _ _ _ _).bind hkeeps
      intro _
      apply (emits_link _).bind hkeeps
      intro _
      exact emits_pure true

theorem emits_lsProgramDetachLocked (patch : Patch) :
    Emits (Small id) (Store.Local id) (lsProgramDetachLocked id entry patch) := by
  have hkeeps := keeps_small id
  unfold lsProgramDetachLocked
  apply emits_read
  intro m _
  split
  · exact emits_pure false
  · apply emits_ite
    · intro _
      apply emits_ite
      · intro _
        apply Emits.bind (emits_write trivial) hkeeps
        intro _
        apply (emits_unlink _).bind hkeeps
        intro _
        exact emits_pure true
      · intro _
        exact emits_pure false
    · intro _
      apply (emits_unlink _).bind hkeeps
      intro _
      exact emits_pure true

theorem emits_releaseProgram : Emits (Small id) (Store.Local id) (releaseProgram id) := by
  have hkeeps := keeps_small id
  unfold releaseProgram
  apply emits_read
  intro m hm
  apply emits_ite
  · intro _
    apply Emits.bind _ hkeeps
    · intro _
      apply Emits.bind _ hkeeps
      · intro _
        apply Emits.bind _ hkeeps
        · intro _
          apply Emits.bind _ hkeeps
          · intro _
            exact emits_pure true
          · exact emits_write ⟨rfl, fun _ _ => Nat.zero_le _⟩
        · exact emits_write ⟨rfl, fun _ hp => hp⟩
      · exact (emits_destroySlots hm).mono fun _ => Store.Private.isLocal
    · apply emits_write
      intro c b hb
      exact lsConfigRevoke_other (configSlot_ne hb)
  · intro _
    exact emits_pure false

theorem emits_detachLinked (patch : Patch) :
    Emits (Small id) (Store.Local id) (detachLinked id patch entry) := by
  unfold detachLinked
  apply emits_read
  intro m _
  apply emits_ite
  · intro _
    exact emits_lsProgramDetachLocked patch
  · intro _
    exact emits_pure true

theorem emits_lsProgramRevokeLocked (patch : Patch) :
    Emits (Small id) (Store.Local id) (lsProgramRevokeLocked id patch) := by
  have hkeeps := keeps_small id
  unfold lsProgramRevokeLocked
  apply (emits_setMode _).bind hkeeps
  intro _
  apply emits_read
  intro m _
  apply Emits.bind _ hkeeps
  · intro _
    apply emits_ite
    · intro _
      exact emits_releaseProgram
    · intro _
      exact emits_pure false
  · apply emits_whileOk hkeeps
    intro e _
    exact emits_detachLinked patch

theorem emits_lsProgramLoad (gate : Bool) (r : LoadRequest) :
    Emits (Small id) (Store.Local id) (lsProgramLoad gate id r) := by
  have hkeeps := keeps_small id
  have hprivate : ∀ st, Store.Private id st → Store.Local id st :=
    fun _ => Store.Private.isLocal
  unfold lsProgramLoad
  apply Emits.bind_result (R := fun plan => ∀ p, plan = some p →
    p.made ≤ lsProgramEntries ∧ r.count ≤ lsProgramEntries)
    ((emits_lsProgramLoadPrepare r).mono hprivate) hkeeps
  · intro m _ plan hplan
    have hresult := lsProgramLoadPrepare_result hplan
    exact ⟨hresult.2.2.2.1.trans hresult.2.2.2.2, hresult.2.2.2.2⟩
  · intro plan hplan
    cases plan with
    | none => exact emits_pure false
    | some plan =>
        obtain ⟨hmade, hcount⟩ := hplan plan rfl
        have hrollback : Emits (Small id) (Store.Local id)
            (do lsProgramLoadRollback id plan.made; pure false : Ctl Bool) := by
          apply ((emits_lsProgramLoadRollback hmade).mono hprivate).bind hkeeps
          intro _
          exact emits_pure false
        apply emits_ite
        · intro _
          apply (emits_lsProgramLoadPublish hcount _).bind hkeeps
          intro ok
          apply emits_ite
          · intro _
            exact emits_pure true
          · intro _
            exact hrollback
        · intro _
          exact hrollback

theorem emits_underGate {gate refused : Bool} {locked : Ctl Bool}
    (hlocked : Emits (Small id) (Store.Local id) locked) :
    Emits (Small id) (Store.Local id) (underGate gate refused locked) := by
  apply emits_ite
  · intro _
    exact emits_pure false
  · intro _
    exact hlocked

/-- Every store of an operation is local to its program. -/
theorem emits_run (gate : Bool) (op : Op) :
    Emits (Small op.id) (Store.Local op.id) (op.run gate) := by
  cases op with
  | load id r => exact emits_lsProgramLoad gate r
  | attach id instanceId entry patch =>
      apply emits_read
      intro m _
      exact emits_underGate (emits_lsProgramAttachLocked _)
  | detach id instanceId entry patch =>
      apply emits_read
      intro m _
      exact emits_underGate (emits_lsProgramDetachLocked _)
  | mode id instanceId value =>
      apply emits_read
      intro m _
      apply emits_underGate
      apply (emits_setMode value).bind (keeps_small id)
      intro _
      exact emits_pure true
  | revoke id instanceId patch =>
      apply emits_read
      intro m _
      exact emits_underGate (emits_lsProgramRevokeLocked _)

/-! ## Other programs -/

/-- Nothing of a program other than {lit}`a` has changed. -/
structure Apart (a : Nat) (m m' : Manager) : Prop where
  programs : ∀ b, b ≠ a → m'.programs b = m.programs b
  slots : ∀ b, b ≠ a → ∀ e < lsProgramEntries,
    m'.slots (lsProgramSlot b e) = m.slots (lsProgramSlot b e)
  config : ∀ b, b ≠ a → m'.config.slots (configSlot b) = m.config.slots (configSlot b)

theorem Apart.refl (a : Nat) (m : Manager) : Apart a m m :=
  ⟨fun _ _ => rfl, fun _ _ _ _ => rfl, fun _ _ => rfl⟩

/-- Slots of different programs differ. -/
theorem OwnSlot.ne {a b k e : Nat} (hk : OwnSlot a k) (hb : b ≠ a)
    (he : e < lsProgramEntries) : lsProgramSlot b e ≠ k := by
  obtain ⟨e', he', rfl⟩ := hk
  intro heq
  exact hb (lsProgramSlot_inj he he' heq).1

theorem Apart.store {a : Nat} {m m' : Manager} (h : Apart a m m') {st : Store}
    (hst : st.Local a) : Apart a m (Stores.store m' st) := by
  cases st with
  | program id f =>
      obtain ⟨rfl, _⟩ := hst
      refine ⟨?_, h.slots, h.config⟩
      intro b hb
      simp [Function.update_of_ne hb, h.programs b hb]
  | site i f => exact ⟨h.programs, h.slots, h.config⟩
  | slot k f =>
      refine ⟨h.programs, ?_, h.config⟩
      intro b hb e he
      simp [Function.update_of_ne (hst.1.ne hb he), h.slots b hb e he]
  | config f =>
      refine ⟨h.programs, h.slots, ?_⟩
      intro b hb
      simp only [store_config]
      rw [hst _ b hb]
      exact h.config b hb
  | patched address site => exact ⟨h.programs, h.slots, h.config⟩
  | created k =>
      refine ⟨h.programs, ?_, h.config⟩
      intro b hb e he
      simp [Function.update_of_ne (OwnSlot.ne hst hb he), h.slots b hb e he]
  | destroyed k => exact ⟨h.programs, h.slots, h.config⟩

theorem Emits.apart {α : Type} {a : Nat} {p : Ctl α}
    (hp : Emits (Small a) (Store.Local a) p) {m : Manager} (hm : Small a m) :
    Apart a m (p.final m) := by
  apply (hp.final (P := Apart a m) _ hm (Apart.refl a m)).2
  intro s st hst hs
  exact ⟨keeps_small a s st hst hs.1, hs.2.store hst⟩

/-- A site that was owned is owned after any local store. -/
theorem owned_store {a i : Nat} {m : Manager} {st : Store} (hst : st.Local a)
    (hi : (m.sites i).owned = true) : ((Stores.store m st).sites i).owned = true := by
  cases st with
  | site j f =>
      by_cases hij : i = j
      · subst hij
        simpa using hst _ hi
      · simpa [Function.update_of_ne hij] using hi
  | program id f => exact hi
  | slot k f => exact hi
  | config f => exact hi
  | patched address site => exact hi
  | created k => exact hi
  | destroyed k => exact hi

/-- An operation leaves every other program alone. -/
theorem apart_run (gate : Bool) (op : Op) {m : Manager} (hm : Small op.id m) :
    Apart op.id m ((op.run gate).final m) :=
  Emits.apart (emits_run gate op) hm

/-- An operation never gives a site back. -/
theorem owned_run (gate : Bool) (op : Op) {m : Manager} (hm : Small op.id m) {i : Nat}
    (hi : (m.sites i).owned = true) : (((op.run gate).final m).sites i).owned = true := by
  apply ((emits_run gate op).final (P := fun s => (s.sites i).owned = true) _ hm hi).2
  intro s st hst hs
  exact ⟨keeps_small op.id s st hst hs.1, owned_store hst hs.2⟩

end Program
end LiveSurface
