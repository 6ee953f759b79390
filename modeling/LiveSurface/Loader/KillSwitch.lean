import LiveSurface.Loader.Handoff
import LiveSurface.Vm.Reload

/-!
# REVOKE beside a late load

REVOKE disables a slot on the loader thread without waiting for the prepare thread.  A
load whose submitter has given up may still be pending there, or be in the middle of
its stores; when it goes on, it puts its program live over the revoke.  It may also
stage its program in an empty slot that has been revoked, and leave its mode behind.

The stores of both threads are made one by one.  What decides which stores a load makes
(which slots hold a program, the registry, the number of VMs) is written by the prepare
thread alone while a request is pending, so the list of its stores is fixed when it
begins.

Main results:

- Theorem {lit}`revoke_final`: when no store of a mode is left for a slot that is being
  revoked, and no load begins on a revoked slot, a revoked slot stays disabled.
- Theorem {lit}`load_after_revoke`: a load that was answered with an error goes live
  after the revoke.
-/

namespace LiveSurface
namespace Loader

open StoreProgram Vm

/-! ## Both threads and the slots -/

/-- {lit}`ls_vm_set_mode` under way on the loader thread. -/
structure Setting where
  slot : Nat
  revoke : Bool
  todo : List SlotStore

/-- The handoff, the slots, the stores that a load has left, and the slots for which
{lit}`OK disabled` was the last answer. -/
structure KillSwitch where
  handoff : Handoff
  table : SlotTable
  /-- {lit}`none` while the thread has not come to {lit}`ls_vm_reload`. -/
  reload : Option (List SlotStore)
  setting : Option Setting
  killed : Nat → Bool

inductive KillLabel
  | loader (a : LoaderLabel)
  /-- SET_MODE or REVOKE reaches {lit}`ls_vm_set_mode`. -/
  | begin
  | set
  | thread (a : ThreadLabel)
  /-- The thread reaches {lit}`ls_vm_reload`; {lit}`bound` tells whether the load is
  bound to its configuration afterwards. -/
  | reload (o : Object) (loading : UInt64) (bound : Bool)
  | store

/-- All stores of a load: those of {lit}`ls_vm_reload`, and those of the refusal when
the configuration cannot be bound. -/
def loadStores (t : SlotTable) (slot : Nat) (o : Object) (loading : UInt64) (mode : Nat)
    (bound : Bool) : List SlotStore :=
  let reload := lsVmReload slot o loading mode
  reload.stores t ++
    if reload.result t && !bound then (lsVmSetMode slot lsModeDisable).stores (reload.final t)
    else []

/-- The loader may take this step: it has answered the request it serves, and a REVOKE
is not answered before the slot is disabled. -/
def KillSwitch.mayProceed (s : KillSwitch) : LoaderLabel → Bool
  | .answer =>
      match s.setting, s.handoff.loader with
      | some setting, _ => setting.todo.isEmpty
      | none, .received _ req => !(req.op = .revoke ∧ req.epoch < lsLegacySlots)
      | none, _ => true
  | .leak => s.setting.isNone
  | _ => true

/-- The answer to a REVOKE kills its slot; a LOAD or SET_MODE request revives it. -/
def KillSwitch.killedAfter (s : KillSwitch) : LoaderLabel → Nat → Bool
  | .connect _ req =>
      if req.op = .load ∨ req.op = .setMode then Function.update s.killed req.epoch false
      else s.killed
  | .answer =>
      match s.setting with
      | some setting =>
          if setting.revoke then Function.update s.killed setting.slot true else s.killed
      | none => s.killed
  | _ => s.killed

def KillSwitch.begin (s : KillSwitch) : Option KillSwitch :=
  match s.handoff.loader, s.setting with
  | .received _ req, none =>
      if (req.op = .revoke ∨ req.op = .setMode) ∧ req.epoch < lsLegacySlots then
        let revoke : Bool := req.op = .revoke
        some { s with
          setting := some {
            slot := req.epoch
            revoke := revoke
            todo := (lsVmSetMode req.epoch
              (if revoke then lsModeDisable else req.mode)).stores s.table } }
      else none
  | _, _ => none

def killNext (s : KillSwitch) : KillLabel → Option KillSwitch
  | .loader a =>
      if s.mayProceed a then
        (loaderNext s.handoff a).map fun handoff =>
          { s with
            handoff := handoff
            setting := if a = .answer then none else s.setting
            killed := s.killedAfter a }
      else none
  | .begin => s.begin
  | .set =>
      match s.setting with
      | some { slot, revoke, todo := i :: rest } =>
          some { s with
            table := s.table.store i
            setting := some { slot := slot, revoke := revoke, todo := rest } }
      | _ => none
  | .thread a =>
      match a, s.reload with
      | .finish _, some (_ :: _) => none
      | _, _ =>
          (threadNext s.handoff a).map fun handoff =>
            { s with handoff := handoff, reload := if a = .start then none else s.reload }
  | .reload o loading bound =>
      if s.handoff.thread = .running ∧ s.handoff.prep.op = .load ∧ s.reload.isNone then
        some { s with
          reload := some (loadStores s.table s.handoff.prep.slot o loading s.handoff.prep.mode
            bound) }
      else none
  | .store =>
      match s.reload with
      | some (i :: rest) => some { s with table := s.table.store i, reload := some rest }
      | _ => none

def killMachine : Machine KillSwitch KillLabel where
  init s := handoffMachine.init s.handoff ∧ s.table = .initial ∧ s.reload = none ∧
    s.setting = none ∧ ∀ k, s.killed k = false
  next := killNext

/-- Every slot for which REVOKE was answered, and no LOAD or SET_MODE has come in since,
is disabled. -/
def Dead (s : KillSwitch) : Prop :=
  ∀ k, s.killed k = true → (s.table.slots k).mode = lsModeDisable

/-! ## The condition -/

/-- The store puts a slot that is disabled into another mode. -/
def Raises (k : Nat) : SlotStore → Prop
  | .slot j f => j = k ∧ ∃ slots : Nat → LsSlot, (slots k).mode = lsModeDisable ∧
      (f slots).mode ≠ lsModeDisable
  | _ => False

/-- The slot is killed, or the REVOKE that kills it has disabled it. -/
def KillSwitch.Revoked (s : KillSwitch) (k : Nat) : Prop :=
  s.killed k = true ∨
    ∃ setting, s.setting = some setting ∧ setting.revoke = true ∧ setting.slot = k ∧
      setting.todo = []

/-- When REVOKE disables a slot, the load under way has no mode left to store there; and
when a load that will be accepted begins, in a mode that is not DISABLE, neither its slot
nor the spare slot it is staged in has been revoked. -/
def Unopposed (s : KillSwitch) : KillLabel → Prop
  | .set =>
      match s.setting, s.reload with
      | some { slot, revoke := true, todo := [_] }, some todo => ∀ i ∈ todo, ¬ Raises slot i
      | _, _ => True
  | .reload o loading _ =>
      accepted s.table s.handoff.prep.slot o loading s.handoff.prep.mode = true →
        s.handoff.prep.mode ≠ lsModeDisable →
          ¬ s.Revoked s.handoff.prep.slot ∧
            ∀ staged, spareSlot s.table = some staged → ¬ s.Revoked staged
  | _ => True

/-! ## Which stores raise a slot -/

/-- A store that puts no disabled slot into another mode. -/
def Quiet (i : SlotStore) : Prop := ∀ k, ¬ Raises k i

theorem quiet_of_mode {k : Nat} {f : (Nat → LsSlot) → LsSlot}
    (h : ∀ slots, (f slots).mode = (slots k).mode) : Quiet (.slot k f) := by
  rintro j ⟨rfl, slots, hmode, hraised⟩
  exact hraised ((h slots).trans hmode)

theorem quiet_of_disable {k : Nat} {f : (Nat → LsSlot) → LsSlot}
    (h : ∀ slots, (f slots).mode = lsModeDisable) : Quiet (.slot k f) := by
  rintro j ⟨rfl, slots, _, hraised⟩
  exact hraised (h slots)

theorem shared_quiet {i : SlotStore} (h : i.IsShared) : Quiet i := by
  intro k hraises
  cases i with
  | slot j f => exact h
  | registry g => exact hraises
  | loadError value => exact hraises
  | created => exact hraises

theorem store_quiet {t : SlotTable} {k : Nat} {i : SlotStore} (h : ¬ Raises k i)
    (hmode : (t.slots k).mode = lsModeDisable) :
    ((Stores.store t i).slots k).mode = lsModeDisable := by
  cases i with
  | slot j f =>
      by_cases hj : j = k
      · subst hj
        by_contra hraised
        refine h ⟨rfl, t.slots, hmode, ?_⟩
        simpa using hraised
      · simpa [Ne.symm hj] using hmode
  | registry g => exact hmode
  | loadError value => exact hmode
  | created => exact hmode

theorem clampedMode_disable (s : LsSlot) : clampedMode s lsModeDisable = lsModeDisable := by
  unfold clampedMode
  split <;> rfl

/-- A store that can only put one slot into a mode that is not DISABLE. -/
def RaisesOnly (slot mode : Nat) (i : SlotStore) : Prop :=
  ∀ k, Raises k i → k = slot ∧ mode ≠ lsModeDisable

theorem Quiet.raisesOnly {slot mode : Nat} {i : SlotStore} (h : Quiet i) :
    RaisesOnly slot mode i := fun k hraises => (h k hraises).elim

theorem raisesOnly_of_mode {slot mode : Nat} {f : (Nat → LsSlot) → LsSlot}
    (h : ∀ slots, (f slots).mode = mode) : RaisesOnly slot mode (.slot slot f) := by
  rintro k ⟨rfl, slots, _, hraised⟩
  exact ⟨rfl, h slots ▸ hraised⟩

theorem storeTo_quiet {slot : Nat} {f : LsSlot → LsSlot} (h : ∀ s, (f s).mode = s.mode) :
    Emits (fun _ => True) Quiet (storeTo slot f) :=
  emits_write (quiet_of_mode fun slots => h (slots slot))

theorem recordKind_quiet (slot : Nat) (o : Object) (loading : UInt64) :
    Emits (fun _ => True) Quiet (recordKind slot o loading) := by
  unfold recordKind
  refine Emits.andThen (storeTo_quiet ?_) fun _ => Emits.andThen (storeTo_quiet ?_)
    fun _ => Emits.andThen (storeTo_quiet ?_) fun _ => storeTo_quiet ?_
  · exact fun _ => rfl
  · exact fun _ => rfl
  · exact fun _ => rfl
  · exact fun _ => rfl

theorem giveUp_quiet (slot : Nat) : Emits (fun _ => True) Quiet (giveUp slot) := by
  unfold giveUp
  refine Emits.andThen (storeTo_quiet ?_) fun _ => storeTo_quiet ?_
  · exact fun _ => rfl
  · exact fun _ => rfl

theorem goLive_raisesOnly (slot : Nat) (o : Object) (vm mode : Nat) :
    Emits (fun _ => True) (RaisesOnly slot mode) (goLive slot o vm mode) := by
  have hquiet : ∀ {f : LsSlot → LsSlot}, (∀ s, (f s).mode = s.mode) →
      Emits (fun _ => True) (RaisesOnly slot mode) (storeTo slot f) := by
    intro f hf
    exact (storeTo_quiet hf).mono fun _ => Quiet.raisesOnly
  unfold goLive
  refine Emits.andThen (hquiet ?_) fun _ => Emits.andThen (hquiet ?_)
    fun _ => Emits.andThen (emits_write (raisesOnly_of_mode ?_)) fun _ => hquiet ?_
  · exact fun _ => rfl
  · exact fun _ => rfl
  · exact fun _ => rfl
  · exact fun _ => rfl

theorem publish_raisesOnly (slot staged mode : Nat) (t : SlotTable) :
    ∀ i ∈ (publish slot staged mode).stores t, RaisesOnly slot mode i := by
  intro i hi
  simp only [publish, storeTo, stores_bind, stores_write, List.mem_append,
    List.mem_singleton] at hi
  rcases hi with rfl | rfl | rfl | rfl | rfl | rfl | rfl | rfl | rfl | rfl | rfl | rfl | rfl | rfl
  · exact (quiet_of_disable fun _ => rfl).raisesOnly
  · exact (quiet_of_mode fun _ => rfl).raisesOnly
  · exact (quiet_of_mode fun _ => rfl).raisesOnly
  · exact (quiet_of_mode fun _ => rfl).raisesOnly
  · exact (quiet_of_mode fun _ => rfl).raisesOnly
  · exact (quiet_of_mode fun _ => rfl).raisesOnly
  · exact (quiet_of_mode fun _ => rfl).raisesOnly
  · exact (quiet_of_mode fun _ => rfl).raisesOnly
  · exact raisesOnly_of_mode fun _ => rfl
  · exact (quiet_of_mode fun _ => rfl).raisesOnly
  · exact (quiet_of_mode fun _ => rfl).raisesOnly
  · exact (quiet_of_mode fun _ => rfl).raisesOnly
  · exact (quiet_of_mode fun _ => rfl).raisesOnly
  · exact (quiet_of_mode fun _ => rfl).raisesOnly

/-- A preparation raises its slot only when it succeeds. -/
theorem installVm_raises {slot mode k : Nat} {o : Object} {loading : UInt64} {t : SlotTable}
    {i : SlotStore} (hi : i ∈ (installVm slot o loading mode).stores t) (hraises : Raises k i) :
    (installVm slot o loading mode).result t = true ∧ k = slot ∧ mode ≠ lsModeDisable := by
  unfold installVm at hi ⊢
  rw [stores_read_bind] at hi
  rw [result_read_bind]
  by_cases hcreated : o.created = true
  · rw [if_pos hcreated] at hi ⊢
    rw [stores_bind, stores_bind] at hi
    rw [result_bind, result_bind]
    rcases List.mem_append.mp hi with hi | hi
    · rw [stores_write, List.mem_singleton] at hi
      rw [hi] at hraises
      exact hraises.elim
    · rcases List.mem_append.mp hi with hi | hi
      · exact (shared_quiet (buildVm_shared o loading _ trivial i hi) k hraises).elim
      · split at hi
        · rename_i hbuilt
          rw [if_pos hbuilt]
          rw [stores_bind, stores_pure, List.append_nil] at hi
          exact ⟨rfl, goLive_raisesOnly slot o _ mode _ trivial i hi k hraises⟩
        · rw [stores_bind, stores_pure, List.append_nil] at hi
          exact (giveUp_quiet slot _ trivial i hi k hraises).elim
  · rw [if_neg hcreated] at hi
    contradiction

theorem lsVmPrepareSlot_raises {slot mode k : Nat} {o : Object} {loading : UInt64}
    {t : SlotTable} {i : SlotStore} (hi : i ∈ (lsVmPrepareSlot slot o loading mode).stores t)
    (hraises : Raises k i) :
    (lsVmPrepareSlot slot o loading mode).result t = true ∧ k = slot ∧ mode ≠ lsModeDisable := by
  unfold lsVmPrepareSlot at hi ⊢
  rw [stores_read_bind] at hi
  rw [result_read_bind]
  split at hi
  · contradiction
  · rename_i hrefused
    rw [if_neg hrefused]
    rw [stores_bind] at hi
    rw [result_bind]
    rcases List.mem_append.mp hi with hi | hi
    · exact (recordKind_quiet slot o loading t trivial i hi k hraises).elim
    · split at hi
      · contradiction
      · rename_i hsnapshot
        rw [if_neg hsnapshot]
        rw [stores_bind] at hi
        rw [result_bind]
        rcases List.mem_append.mp hi with hi | hi
        · have hquiet : Quiet i := by
            rw [List.mem_singleton.mp hi]
            exact quiet_of_mode fun _ => rfl
          exact (hquiet k hraises).elim
        · exact installVm_raises hi hraises

theorem lsVmReload_raises {slot mode k : Nat} {o : Object} {loading : UInt64} {t : SlotTable}
    {i : SlotStore} (hi : i ∈ (lsVmReload slot o loading mode).stores t) (hraises : Raises k i) :
    (lsVmReload slot o loading mode).result t = true ∧ mode ≠ lsModeDisable ∧
      (k = slot ∨ spareSlot t = some k) := by
  unfold lsVmReload lsVmArm at hi ⊢
  rw [stores_read_bind] at hi
  rw [result_read_bind]
  split at hi
  · contradiction
  · rename_i hrange
    rw [if_neg hrange]
    rw [stores_bind, stores_read_bind, result_read_bind, final_read_bind] at hi
    rw [result_bind, result_read_bind, final_read_bind]
    cases hspare : spareSlot t with
    | none =>
        rw [hspare] at hi
        contradiction
    | some staged =>
        simp only [hspare, stores_bind, result_bind, final_bind, result_ite] at hi ⊢
        cases hprepared : (lsVmPrepareSlot staged o loading mode).result t with
        | true =>
            simp only [hprepared, if_true, stores_pure, result_pure, List.append_nil] at hi ⊢
            rcases List.mem_append.mp hi with hi | hi
            · obtain ⟨_, rfl, hmode⟩ := lsVmPrepareSlot_raises hi hraises
              refine ⟨?_, hmode, .inr rfl⟩
              split <;> rfl
            · split at hi
              · contradiction
              · rename_i hne
                rw [if_neg hne]
                rw [stores_bind, stores_pure, List.append_nil] at hi
                obtain ⟨rfl, hmode⟩ := publish_raisesOnly slot staged mode _ i hi k hraises
                exact ⟨rfl, hmode, .inl rfl⟩
        | false =>
            simp only [hprepared, Bool.false_eq_true, if_false, stores_pure, result_pure,
              List.append_nil] at hi
            obtain ⟨hresult, _⟩ := lsVmPrepareSlot_raises hi hraises
            rw [hprepared] at hresult
            contradiction

/-- The stores of {lit}`ls_vm_set_mode`: that of the mode comes last. -/
theorem stores_lsVmSetMode {slot : Nat} (mode : Nat) (hslot : slot < lsLegacySlots) (t : SlotTable) :
    ∃ bump, (∀ i ∈ bump, Quiet i) ∧ (lsVmSetMode slot mode).stores t =
      bump ++ [.slot slot fun slots =>
        { slots slot with mode := clampedMode (t.slots slot) mode }] := by
  unfold lsVmSetMode
  rw [stores_read_bind, if_neg (Nat.not_le_of_lt hslot)]
  dsimp only
  split
  · refine ⟨_, ?_, rfl⟩
    intro i hi
    rw [List.mem_singleton.mp hi]
    exact quiet_of_mode fun _ => rfl
  · refine ⟨[], ?_, rfl⟩
    intro i hi
    contradiction

/-- Setting a mode raises only its own slot, and DISABLE raises none. -/
theorem lsVmSetMode_raisesOnly {slot mode : Nat} (hslot : slot < lsLegacySlots) {t : SlotTable}
    {i : SlotStore} (hi : i ∈ (lsVmSetMode slot mode).stores t) : RaisesOnly slot mode i := by
  obtain ⟨bump, hbump, hstores⟩ := stores_lsVmSetMode mode hslot t
  rw [hstores] at hi
  rcases List.mem_append.mp hi with hi | hi
  · exact (hbump i hi).raisesOnly
  · rw [List.mem_singleton.mp hi]
    rintro k ⟨rfl, slots, _, hraised⟩
    refine ⟨rfl, ?_⟩
    rintro rfl
    exact hraised (clampedMode_disable _)

/-- A store that disables a slot. -/
def Disables (slot : Nat) (i : SlotStore) : Prop :=
  ∃ f, i = .slot slot f ∧ ∀ slots, (f slots).mode = lsModeDisable

theorem disables_store {k : Nat} {i : SlotStore} (h : Disables k i) {t : SlotTable} :
    ((Stores.store t i).slots k).mode = lsModeDisable := by
  obtain ⟨f, rfl, hmode⟩ := h
  rw [store_slot, withSlot_slots, Function.update_self]
  exact hmode t.slots

theorem lsVmSetMode_disables {slot : Nat} (hslot : slot < lsLegacySlots) (t : SlotTable) :
    ∃ i, ((lsVmSetMode slot lsModeDisable).stores t).getLast? = some i ∧ Disables slot i := by
  obtain ⟨bump, _, hstores⟩ := stores_lsVmSetMode lsModeDisable hslot t
  rw [hstores, List.getLast?_concat]
  exact ⟨_, rfl, _, rfl, fun _ => clampedMode_disable _⟩

theorem accepted_slot {t : SlotTable} {slot mode : Nat} {o : Object} {loading : UInt64}
    (h : accepted t slot o loading mode = true) : slot < lsLegacySlots := by
  simp only [accepted, Bool.and_eq_true, decide_eq_true_eq] at h
  exact h.1.1.1

/-- The stores of a load that raise a slot: it is accepted, in a mode that is not
DISABLE, and the slot is its own or the one it is staged in. -/
theorem loadStores_raises {slot mode k : Nat} {o : Object} {loading : UInt64} {bound : Bool}
    {t : SlotTable} {i : SlotStore} (hi : i ∈ loadStores t slot o loading mode bound)
    (hraises : Raises k i) :
    accepted t slot o loading mode = true ∧ mode ≠ lsModeDisable ∧
      (k = slot ∨ spareSlot t = some k) := by
  unfold loadStores at hi
  rcases List.mem_append.mp hi with hi | hi
  · rw [← lsVmReload_result]
    exact lsVmReload_raises hi hraises
  · split at hi
    · rename_i hbound
      rw [Bool.and_eq_true, lsVmReload_result] at hbound
      have hslot := accepted_slot hbound.1
      obtain ⟨_, hdisable⟩ := lsVmSetMode_raisesOnly hslot hi k hraises
      exact absurd rfl hdisable
    · contradiction

/-! ## What holds throughout -/

/-- A change of mode under way belongs to the request that the loader serves. -/
structure SettingOk (s : KillSwitch) (setting : Setting) : Prop where
  serving : ∃ scratch req, s.handoff.loader = .received scratch req ∧
    (req.op = .revoke ∨ req.op = .setMode) ∧ req.epoch = setting.slot ∧
    (setting.revoke = false → req.op = .setMode)
  only : ∀ i ∈ setting.todo, ∀ k, Raises k i → k = setting.slot ∧ setting.revoke = false
  disables : setting.revoke = true → ∀ i, setting.todo.getLast? = some i →
    Disables setting.slot i

/-- A slot that has been revoked is disabled, and the load under way has nothing left
that could raise it. -/
structure KillOk (s : KillSwitch) : Prop where
  dead : ∀ k, s.Revoked k → (s.table.slots k).mode = lsModeDisable ∧
    ∀ todo, s.reload = some todo → ∀ i ∈ todo, ¬ Raises k i
  setting : ∀ setting, s.setting = some setting → SettingOk s setting
  revived : ∀ scratch req, s.handoff.loader = .received scratch req → req.op = .setMode →
    s.killed req.epoch = false

/-- The loader begins to serve a request when it arrives. -/
theorem loader_received {s s' : Handoff} {a : LoaderLabel} (hnext : loaderNext s a = some s')
    {scratch : Nat} {req : Request} (h : s'.loader = .received scratch req) :
    a = .connect scratch req ∧ s.loader = .idle := by
  cases a with
  | connect scratch' req' => grind [loaderNext]
  | answer => grind [loaderNext]
  | leak => grind [loaderNext]
  | submit => grind [loaderNext]
  | fill copy => grind [loaderNext, Handoff.fill]
  | proceed => grind [loaderNext, Handoff.proceed]

/-- A request that is not handed over stays with the loader until it is answered. -/
theorem loader_serves {s s' : Handoff} {a : LoaderLabel} (hnext : loaderNext s a = some s')
    {scratch : Nat} {req : Request} (h : s.loader = .received scratch req)
    (hop : req.op.isHandedOff = false) : a = .answer ∨ a = .leak := by
  cases a with
  | connect scratch' req' => grind [loaderNext]
  | answer => exact .inl rfl
  | leak => exact .inr rfl
  | submit => grind [loaderNext]
  | fill copy => grind [loaderNext, Handoff.fill]
  | proceed => grind [loaderNext, Handoff.proceed]

/-- While a mode is being set, the loader can only answer. -/
theorem SettingOk.answer {s : KillSwitch} {setting : Setting} (h : SettingOk s setting)
    (hsetting : s.setting = some setting) {a : LoaderLabel} (hmay : s.mayProceed a = true)
    {handoff : Handoff} (hnext : loaderNext s.handoff a = some handoff) :
    a = .answer ∧ setting.todo = [] := by
  obtain ⟨scratch, req, hloader, hop, _, _⟩ := h.serving
  have hlocal : req.op.isHandedOff = false := by
    rcases hop with hop | hop
    · rw [hop]
      rfl
    · rw [hop]
      rfl
  rcases loader_serves hnext hloader hlocal with rfl | rfl
  · refine ⟨rfl, ?_⟩
    simpa [KillSwitch.mayProceed, hsetting] using hmay
  · simp [KillSwitch.mayProceed, hsetting] at hmay

/-- An answer kills a slot only when the change of mode is over. -/
theorem KillOk.killedAfter {s : KillSwitch} (hok : KillOk s) {a : LoaderLabel}
    (hmay : s.mayProceed a = true) {handoff : Handoff}
    (hnext : loaderNext s.handoff a = some handoff) {k : Nat}
    (hkilled : s.killedAfter a k = true) : s.Revoked k := by
  cases hsetting : s.setting with
  | some setting =>
      obtain ⟨rfl, htodo⟩ := (hok.setting setting hsetting).answer hsetting hmay hnext
      simp only [KillSwitch.killedAfter, hsetting] at hkilled
      split at hkilled
      · rename_i hrevoke
        by_cases hk : k = setting.slot
        · exact .inr ⟨setting, hsetting, hrevoke, hk.symm, htodo⟩
        · rw [Function.update_of_ne hk] at hkilled
          exact .inl hkilled
      · exact .inl hkilled
  | none =>
      refine .inl ?_
      cases a with
      | connect scratch req =>
          simp only [KillSwitch.killedAfter] at hkilled
          split at hkilled
          · by_cases hk : k = req.epoch
            · subst hk
              simp at hkilled
            · rwa [Function.update_of_ne hk] at hkilled
          · exact hkilled
      | answer =>
          simp only [KillSwitch.killedAfter, hsetting] at hkilled
          exact hkilled
      | leak => exact hkilled
      | submit => exact hkilled
      | fill copy => exact hkilled
      | proceed => exact hkilled

theorem KillOk.loader {s : KillSwitch} (hok : KillOk s) {a : LoaderLabel}
    (hmay : s.mayProceed a = true) {handoff : Handoff}
    (hnext : loaderNext s.handoff a = some handoff) :
    KillOk { s with
      handoff := handoff
      setting := if a = .answer then none else s.setting
      killed := s.killedAfter a } := by
  have hsetting : (if a = .answer then none else s.setting) = none := by
    cases h : s.setting with
    | none => simp
    | some setting =>
        obtain ⟨rfl, _⟩ := (hok.setting setting h).answer h hmay hnext
        rfl
  simp only [hsetting]
  refine ⟨?_, nofun, ?_⟩
  · intro k hrevoked
    rcases hrevoked with hkilled | ⟨_, hnone, _⟩
    · exact hok.dead k (hok.killedAfter hmay hnext hkilled)
    · contradiction
  · intro scratch req hreceived hop
    obtain ⟨rfl, _⟩ := loader_received hnext hreceived
    simp [KillSwitch.killedAfter, hop]

theorem KillOk.begin {s s' : KillSwitch} (hok : KillOk s) (hnext : s.begin = some s') :
    KillOk s' := by
  unfold KillSwitch.begin at hnext
  split at hnext
  · rename_i scratch req hloader hnone
    obtain ⟨⟨hop, hslot⟩, hs⟩ := Option.ite_none_right_eq_some.mp hnext
    obtain rfl := Option.some.inj hs
    refine ⟨?_, ?_, hok.revived⟩
    · rintro k (hkilled | ⟨setting, hsetting, hrevoke, hk, htodo⟩)
      · exact hok.dead k (.inl hkilled)
      · obtain rfl := Option.some.inj hsetting
        change decide (req.op = .revoke) = true at hrevoke
        obtain ⟨i, hlast, _⟩ := lsVmSetMode_disables hslot s.table
        simp only [hrevoke, if_true] at htodo
        rw [htodo] at hlast
        contradiction
    · intro setting hsetting
      obtain rfl := Option.some.inj hsetting
      refine ⟨⟨scratch, req, hloader, hop, rfl, ?_⟩, ?_, ?_⟩
      · intro hrevoke
        exact hop.resolve_left (of_decide_eq_false hrevoke)
      · intro i hi k hraises
        obtain ⟨hk, hmode⟩ := lsVmSetMode_raisesOnly hslot hi k hraises
        refine ⟨hk, ?_⟩
        by_contra hrevoke
        rw [Bool.not_eq_false] at hrevoke
        rw [if_pos hrevoke] at hmode
        exact hmode rfl
      · intro hrevoke i hlast
        change decide (req.op = .revoke) = true at hrevoke
        obtain ⟨j, hj, hdisables⟩ := lsVmSetMode_disables hslot s.table
        simp only [hrevoke, if_true] at hlast
        rw [hj] at hlast
        obtain rfl := Option.some.inj hlast
        exact hdisables
  · contradiction

theorem KillOk.set {s s' : KillSwitch} (hok : KillOk s) (hunopposed : Unopposed s .set)
    (hnext : killNext s .set = some s') : KillOk s' := by
  simp only [killNext] at hnext
  split at hnext
  · rename_i slot revoke i rest hsetting
    obtain rfl := Option.some.inj hnext
    have hjob := hok.setting _ hsetting
    have hkept : ∀ k, s.Revoked k → ¬ Raises k i := by
      intro k hrevoked hraises
      obtain ⟨rfl, rfl⟩ := hjob.only i List.mem_cons_self k hraises
      rcases hrevoked with hkilled | ⟨setting, h, hrevoke, _⟩
      · obtain ⟨scratch, req, hloader, _, hepoch, hop⟩ := hjob.serving
        have halive := hok.revived scratch req hloader (hop rfl)
        rw [hepoch] at halive
        rw [halive] at hkilled
        contradiction
      · obtain rfl := Option.some.inj (hsetting.symm.trans h)
        contradiction
    refine ⟨?_, ?_, hok.revived⟩
    · rintro k (hkilled | ⟨setting, h, hrevoke, hk, htodo⟩)
      · obtain ⟨hmode, hload⟩ := hok.dead k (.inl hkilled)
        exact ⟨store_quiet (hkept k (.inl hkilled)) hmode, hload⟩
      · obtain rfl := Option.some.inj h
        obtain rfl : slot = k := hk
        obtain rfl : revoke = true := hrevoke
        obtain rfl : rest = [] := htodo
        refine ⟨disables_store (hjob.disables rfl i rfl), ?_⟩
        intro todo htodo
        have htodo' : s.reload = some todo := htodo
        simpa only [Unopposed, hsetting, htodo'] using hunopposed
    · intro setting h
      obtain rfl := Option.some.inj h
      refine ⟨hjob.serving, ?_, ?_⟩
      · intro j hj
        exact hjob.only j (List.mem_cons_of_mem i hj)
      · intro hrevoke j hlast
        have hne : rest ≠ [] := by
          rintro rfl
          contradiction
        apply hjob.disables hrevoke j
        rw [List.getLast?_cons_of_ne_nil hne]
        exact hlast
  · contradiction

/-- The stores that a load has left when it begins raise no slot that has been revoked. -/
theorem KillOk.reload {s s' : KillSwitch} (hok : KillOk s) {o : Object} {loading : UInt64}
    {bound : Bool} (hunopposed : Unopposed s (.reload o loading bound))
    (hnext : killNext s (.reload o loading bound) = some s') : KillOk s' := by
  obtain ⟨_, hs⟩ := Option.ite_none_right_eq_some.mp hnext
  obtain rfl := Option.some.inj hs
  refine ⟨?_, ?_, hok.revived⟩
  · intro k hrevoked
    refine ⟨(hok.dead k hrevoked).1, ?_⟩
    intro todo htodo i hi hraises
    obtain rfl := Option.some.inj htodo
    obtain ⟨haccepted, hmode, hk⟩ := loadStores_raises hi hraises
    obtain ⟨hslot, hstaged⟩ := hunopposed haccepted hmode
    rcases hk with rfl | hspare
    · exact hslot hrevoked
    · exact hstaged k hspare hrevoked
  · intro setting hsetting
    obtain ⟨hserving, honly, hdisables⟩ := hok.setting setting hsetting
    exact ⟨hserving, honly, hdisables⟩

theorem KillOk.store {s s' : KillSwitch} (hok : KillOk s) (hnext : killNext s .store = some s') :
    KillOk s' := by
  simp only [killNext] at hnext
  split at hnext
  · rename_i i rest hreload
    obtain rfl := Option.some.inj hnext
    refine ⟨?_, ?_, hok.revived⟩
    · intro k hrevoked
      obtain ⟨hmode, hload⟩ := hok.dead k hrevoked
      refine ⟨store_quiet (hload _ hreload i List.mem_cons_self) hmode, ?_⟩
      intro todo htodo j hj
      obtain rfl := Option.some.inj htodo
      exact hload _ hreload j (List.mem_cons_of_mem i hj)
    · intro setting hsetting
      obtain ⟨hserving, honly, hdisables⟩ := hok.setting setting hsetting
      exact ⟨hserving, honly, hdisables⟩
  · contradiction

/-- The thread leaves the loader alone. -/
theorem threadNext_loader {s s' : Handoff} {a : ThreadLabel} (hnext : threadNext s a = some s') :
    s'.loader = s.loader := by
  cases a with
  | start => grind [threadNext]
  | verify ok => grind [threadNext, Handoff.verify, Handoff.record]
  | read => grind [threadNext, Handoff.record]
  | patch p => grind [threadNext, Handoff.patch]
  | finish rc => grind [threadNext]
  | release => grind [threadNext, Handoff.release]
  | publish => grind [threadNext]

theorem KillOk.thread {s s' : KillSwitch} (hok : KillOk s) {a : ThreadLabel}
    (hnext : killNext s (.thread a) = some s') : KillOk s' := by
  simp only [killNext] at hnext
  split at hnext
  · contradiction
  · obtain ⟨handoff, hthread, rfl⟩ := Option.map_eq_some_iff.mp hnext
    have hloader := threadNext_loader hthread
    refine ⟨?_, ?_, ?_⟩
    · intro k hrevoked
      obtain ⟨hmode, hload⟩ := hok.dead k hrevoked
      refine ⟨hmode, ?_⟩
      intro todo htodo
      obtain ⟨_, htodo⟩ := Option.ite_none_left_eq_some.mp htodo
      exact hload todo htodo
    · intro setting hsetting
      obtain ⟨⟨scratch, req, hreceived, hserving⟩, honly, hdisables⟩ := hok.setting setting hsetting
      exact ⟨⟨scratch, req, hloader.trans hreceived, hserving⟩, honly, hdisables⟩
    · intro scratch req hreceived
      exact hok.revived scratch req (hloader.symm.trans hreceived)

/-! ## The kill switch -/

/-- In every run whose REVOKE requests and loads meet the condition, a slot for which
REVOKE has been answered stays disabled until a LOAD or SET_MODE for it comes in. -/
theorem revoke_final : ∀ s, killMachine.ReachableWhen Unopposed s → Dead s := by
  have hinvariant : ∀ s, killMachine.ReachableWhen Unopposed s → KillOk s := by
    apply Machine.ReachableWhen.invariant
    · intro s ⟨hhandoff, _, _, hsetting, hkilled⟩
      refine ⟨?_, ?_, ?_⟩
      · rintro k (h | ⟨setting, h, _⟩)
        · rw [hkilled k] at h
          contradiction
        · rw [hsetting] at h
          contradiction
      · intro setting h
        rw [hsetting] at h
        contradiction
      · intro scratch req h
        rw [hhandoff.2.1] at h
        contradiction
    · intro s a s' _ hok hunopposed hnext
      cases a with
      | loader a =>
          obtain ⟨hmay, hs⟩ := Option.ite_none_right_eq_some.mp hnext
          obtain ⟨handoff, hloader, rfl⟩ := Option.map_eq_some_iff.mp hs
          exact hok.loader hmay hloader
      | begin => exact hok.begin hnext
      | set => exact hok.set hunopposed hnext
      | thread a => exact hok.thread hnext
      | reload o loading bound => exact hok.reload hunopposed hnext
      | store => exact hok.store hnext
  intro s hs k hkilled
  exact ((hinvariant s hs).dead k (.inl hkilled)).1

/-! ## A load that comes late -/

def KillSwitch.initial : KillSwitch where
  handoff := .initial
  table := .initial
  reload := none
  setting := none
  killed _ := false

theorem killInitial_reachable {ok : KillSwitch → KillLabel → Prop} :
    killMachine.ReachableWhen ok .initial :=
  .start ⟨⟨rfl, rfl, rfl, fun _ => rfl, rfl⟩, rfl, rfl, rfl, fun _ => rfl⟩

/-- While the loader only waits, nothing else changes. -/
theorem run_proceeding (s : KillSwitch) (n : Nat) :
    killMachine.run s (List.replicate n (.loader .proceed)) =
      (handoffMachine.run s.handoff (List.replicate n (.loader .proceed))).map
        fun handoff => { s with handoff := handoff } := by
  induction n generalizing s with
  | zero => rfl
  | succ n ih =>
      rw [List.replicate_succ, List.replicate_succ, Machine.run, Machine.run]
      have hnext : killMachine.next s (.loader .proceed) =
          (handoffMachine.next s.handoff (.loader .proceed)).map
            fun handoff => { s with handoff := handoff } := rfl
      rw [hnext]
      cases handoffMachine.next s.handoff (.loader .proceed) with
      | none => rfl
      | some handoff => exact ih { s with handoff := handoff }

theorem killReachable_waited {s : KillSwitch} {scratch left : Nat}
    (hs : killMachine.Reachable s) (hstate : s.handoff.prep.state ≠ .done)
    (hloader : s.handoff.loader = .waiting scratch left) :
    killMachine.Reachable
      { s with handoff := { s.handoff with loader := .waiting scratch 0 } } := by
  apply Machine.reachable_of_run hs
  have hrun := run_waiting s.handoff hstate scratch left
  rw [← hloader] at hrun
  rw [run_proceeding, hrun]
  rfl

def revokeFirst : Request where
  op := .revoke
  epoch := 0
  mode := 0
  prog := []

/-- A load is parked, and the thread has come to its stores. -/
def loadBegun : List KillLabel :=
  [.loader (.connect 0 sampleLoad), .loader .submit, .loader .proceed, .loader .proceed,
    .loader (.fill none), .loader .proceed, .thread .start, .thread (.verify true),
    .reload (plainObject 5) 1 true]

/-- A REVOKE of slot 0, from its arrival to its answer. -/
def revokeServed : List KillLabel :=
  [.loader (.connect 1 revokeFirst), .begin, .set, .loader .answer, .loader .proceed]

/-- The loader gives the load up and answers a REVOKE; then the load makes its stores. -/
def lateLoad : List KillLabel :=
  [.loader .proceed, .loader .proceed] ++ revokeServed ++ List.replicate 11 .store

/-- A load whose submitter was answered with an error is live after the revoke. -/
theorem load_after_revoke : ¬ ∀ s, killMachine.Reachable s → Dead s := by
  intro h
  have hbegun : killMachine.Reachable ((killMachine.run .initial loadBegun).getD .initial) :=
    Machine.reachable_run_getD killInitial_reachable (by decide +kernel)
  have hwaited := killReachable_waited hbegun (by decide +kernel)
    (show _ = LoaderPc.waiting 0 lsPrepWaitMs by decide +kernel)
  have hlate : killMachine.Reachable ((killMachine.run _ lateLoad).getD _) :=
    Machine.reachable_run_getD hwaited (by decide +kernel)
  have hdead := h _ hlate 0 (by decide +kernel)
  revert hdead
  decide +kernel

/-- REVOKE finds no load under way, and a load finds no revoked slot. -/
def Calm (s : KillSwitch) : KillLabel → Prop
  | .set => (s.reload.getD []).isEmpty = true
  | .reload .. => s.setting.isNone = true ∧ s.killed s.handoff.prep.slot = false ∧
      ∀ staged ∈ spareSlot s.table, s.killed staged = false
  | _ => True

instance decidableCalm (s : KillSwitch) (a : KillLabel) : Decidable (Calm s a) := by
  unfold Calm
  split <;> infer_instance

theorem Calm.unopposed {s : KillSwitch} {a : KillLabel} (h : Calm s a) : Unopposed s a := by
  cases a with
  | set =>
      simp only [Unopposed]
      split
      · rename_i todo _ hreload
        intro i hi
        simp only [Calm, hreload, Option.getD_some, List.isEmpty_iff] at h
        rw [h] at hi
        contradiction
      · trivial
  | reload o loading bound =>
      intro _ _
      have hnone : s.setting = none := Option.isNone_iff_eq_none.mp h.1
      have hrevoked : ∀ k, s.killed k = false → ¬ s.Revoked k := by
        rintro k halive (hkilled | ⟨setting, hsetting, _⟩)
        · rw [halive] at hkilled
          contradiction
        · rw [hnone] at hsetting
          contradiction
      refine ⟨hrevoked _ h.2.1, ?_⟩
      intro staged hstaged
      exact hrevoked staged (h.2.2 staged hstaged)
  | loader a => trivial
  | begin => trivial
  | thread a => trivial
  | store => trivial

/-- The load makes its stores in time and its result is collected. -/
def loadServed : List KillLabel :=
  loadBegun ++ List.replicate 11 .store ++ [.thread (.finish 0), .thread .release,
    .thread .publish, .loader .proceed, .loader .proceed, .loader .proceed]

/-- A program that was live and has been revoked. -/
theorem revoke_final_served :
    ∃ s, killMachine.ReachableWhen Unopposed s ∧ s.killed 0 = true ∧
      (s.table.slots 0).armed = true ∧ Dead s := by
  have hcalm : killMachine.ReachableWhen Calm
      ((killMachine.runWhen Calm .initial (loadServed ++ revokeServed)).getD .initial) :=
    Machine.reachableWhen_run_getD killInitial_reachable (by decide +kernel)
  have hs := hcalm.mono fun _ _ => Calm.unopposed
  exact ⟨_, hs, by decide +kernel, by decide +kernel, revoke_final _ hs⟩

end Loader
end LiveSurface
