import LiveSurface.Program.Gate

/-!
# What a dispatcher runs

A load prepares its slots outside the gate, and takes them back outside the gate
when it fails.  It relies on its program having no instance, for then no
dispatcher looks at the slots.  Everything else the control thread stores, it
stores while it holds the gate.

Two invariants are carried through every run: what the control thread may rely
on at each of its accesses, and what a dispatcher inside the gate has already
read and can still rely on.

Main results:

- Theorem {lit}`Control.Ok.next`: the control thread keeps its invariant, and
  outside the gate it changes nothing that is published.
- Theorem {lit}`Steady.next`: both invariants hold along every run.
- Theorem {lit}`gate_excludes`: no dispatcher is inside while the control thread
  holds the gate, and what a dispatcher runs is published and alive.
-/

namespace LiveSurface
namespace Program

open Config StoreProgram

variable {m m' : Manager} {op : Op} {plan : LoadPlan}

/-! ## Stores outside the gate -/

/-- Stores that an operation makes outside the gate, to tables of a program
that has no instance. -/
def Unpublished (op : Op) (m : Manager) (todo : List Store) : Prop :=
  ∀ st ∈ todo, st.Private op.id ∧ (m.programs op.id).instanceId = 0

theorem unpublished_nil (op : Op) (m : Manager) : Unpublished op m [] := by
  intro st hst
  contradiction

theorem Unpublished.store {st : Store} {todo : List Store} (h : Unpublished op m (st :: todo))
    (hsound : Sound m) :
    Sound (Stores.store m st) ∧ Quiet op.id m (Stores.store m st) ∧
      SameAccounts m (Stores.store m st) ∧ Unpublished op (Stores.store m st) todo := by
  obtain ⟨hprivate, hzero⟩ := h st List.mem_cons_self
  have hemits : Emits (Small op.id) (Store.Private op.id) (write st : Ctl Unit) :=
    emits_write hprivate
  obtain ⟨hsound', hquiet⟩ := hsound.quiet hemits hzero
  refine ⟨hsound', hquiet, hquiet.sameAccounts hzero, ?_⟩
  intro st' hst'
  refine ⟨(h st' (List.mem_cons_of_mem st hst')).1, ?_⟩
  exact hquiet.instanceId.trans hzero

/-- What can be taken back can still be after stores outside the gate. -/
theorem Op.Undoable.quiet (h : op.Undoable plan m) (hquiet : Quiet op.id m m') :
    op.Undoable plan m' := by
  cases op with
  | load id r => exact ⟨hquiet.instanceId.trans h.1, h.2⟩
  | attach => trivial
  | detach => trivial
  | mode => trivial
  | revoke => trivial

/-- A load that makes no plan was refused, and has stored nothing. -/
theorem stores_lsProgramLoadPrepare_of_refused {id : Nat} {r : LoadRequest}
    (h : (lsProgramLoadPrepare id r).result m = none) :
    (lsProgramLoadPrepare id r).stores m = [] := by
  unfold lsProgramLoadPrepare at h ⊢
  rw [result_read_bind, result_ite] at h
  rw [stores_read_bind, stores_ite]
  split
  · rfl
  · rename_i hnot
    rw [if_neg hnot] at h
    dsimp only at h ⊢
    rw [result_ite] at h
    rw [stores_ite]
    split
    · rfl
    · rename_i hinstance
      rw [if_neg hinstance] at h
      contradiction

/-- The checks store nothing. -/
theorem stores_checkFirst (m : Manager) (refused : Manager → Bool) :
    (checkFirst refused).stores m = [] := by
  unfold checkFirst
  rw [stores_read_bind, stores_ite]
  split <;> rfl

theorem Sound.unpublished_before (h : Sound m) (op : Op) :
    Unpublished op m (op.before.stores m) := by
  have hchecked : ∀ refused : Manager → Bool,
      Unpublished op m ((checkFirst refused).stores m) := by
    intro refused
    rw [stores_checkFirst]
    exact unpublished_nil op m
  cases op with
  | load id r =>
      show Unpublished _ m ((lsProgramLoadPrepare id r).stores m)
      cases hplan : (lsProgramLoadPrepare id r).result m with
      | none =>
          rw [stores_lsProgramLoadPrepare_of_refused hplan]
          exact unpublished_nil _ m
      | some plan =>
          obtain ⟨hnot, _⟩ := lsProgramLoadPrepare_result hplan
          have hzero := (unpublished_of_not_loadRefused hnot).2
          intro st hst
          exact ⟨emits_lsProgramLoadPrepare r m (h.accounts.small id) st hst, hzero⟩
  | attach => exact hchecked _
  | detach => exact hchecked _
  | mode => exact hchecked _
  | revoke => exact hchecked _

theorem Sound.unpublished_after (h : Sound m) (hundo : op.Undoable plan m) :
    Unpublished op m ((op.after plan).stores m) := by
  cases op with
  | load id r =>
      intro st hst
      exact ⟨emits_lsProgramLoadRollback hundo.2 m (h.accounts.small id) st hst, hundo.1⟩
  | attach => exact unpublished_nil _ m
  | detach => exact unpublished_nil _ m
  | mode => exact unpublished_nil _ m
  | revoke => exact unpublished_nil _ m

/-- Under the gate an operation stores into its own program's tables, into sites
and into text. -/
theorem Op.Ready.emits_locked (h : op.Ready plan m) :
    Emits (Small op.id) (Store.Local op.id) (op.locked plan) := by
  cases op with
  | load id r => exact emits_lsProgramLoadPublish h.2.2.2.2.1 plan.instanceId
  | attach id instanceId entry patch => exact emits_lsProgramAttachLocked _
  | detach id instanceId entry patch => exact emits_lsProgramDetachLocked _
  | mode id instanceId value =>
      apply (emits_setMode value).bind (keeps_small id)
      intro _
      exact emits_pure true
  | revoke id instanceId patch => exact emits_lsProgramRevokeLocked _

/-! ## The control thread -/

/-- What the control thread may rely on at each of its accesses. -/
def Control.Ok (m : Manager) : Control → Prop
  | .idle => Sound m
  | .preparing op plan todo =>
      Sound m ∧ Unpublished op m todo ∧
        ∀ p, plan = some p → op.Undoable p m ∧ op.Ready p (storeAll m todo)
  | .exchange op plan => Sound m ∧ op.Ready plan m ∧ op.asks plan = true
  | .loadReaders op plan => Sound m ∧ op.Ready plan m ∧ op.asks plan = true
  | .backOff op plan => Sound m ∧ op.Undoable plan m
  | .holding op plan ok todo =>
      Sound (storeAll m todo) ∧ (∀ st ∈ todo, st.Local op.id) ∧
        (ok = false → op.Undoable plan (storeAll m todo))
  | .undoing op plan todo => Sound m ∧ Unpublished op m todo ∧ op.Undoable plan m

/-- A load that has made a plan can be taken back from its first store on. -/
theorem undoable_before (hplan : op.before.result m = some plan) : op.Undoable plan m := by
  cases op with
  | load id r =>
      obtain ⟨hnot, _, _, hmade, hcount⟩ := lsProgramLoadPrepare_result hplan
      exact ⟨(unpublished_of_not_loadRefused hnot).2, hmade.trans hcount⟩
  | attach => trivial
  | detach => trivial
  | mode => trivial
  | revoke => trivial

theorem Sound.prepare (h : Sound m) (op : Op) : (Control.prepare m op).Ok m := by
  obtain ⟨_, _, hready⟩ := h.before op
  refine ⟨h, h.unpublished_before op, ?_⟩
  intro plan hplan
  exact ⟨undoable_before hplan, hready plan hplan⟩

theorem Sound.hold (h : Sound m) (hready : op.Ready plan m) (hasks : op.asks plan = true) :
    (Control.hold m op plan).Ok m := by
  refine ⟨h.locked hready hasks, ?_, ?_⟩
  · exact hready.emits_locked m (h.accounts.small op.id)
  · exact hready.undoable.locked_failed h

theorem Sound.undo (h : Sound m) (hundo : op.Undoable plan m) : (Control.undo m op plan).Ok m :=
  ⟨h, h.unpublished_after hundo, hundo⟩

/-- What an access of the control thread can do to the tables. -/
structure Control.Moves (c c' : Control) (m m' : Manager) : Prop where
  ok : c'.Ok m'
  /-- Only under the gate does it change anything that is published. -/
  outside : c.Holding ∨ SameAccounts m m'
  owned : ∀ i, (m.sites i).owned = true → (m'.sites i).owned = true

/-- An access to the gate, or none at all. -/
theorem moves_of_ok {c c' : Control} (h : c'.Ok m) : Control.Moves c c' m m :=
  ⟨h, .inr (SameAccounts.refl m), fun _ hi => hi⟩

variable {T : Type} {s s' : State T}

theorem Control.Ok.next (hok : s.control.Ok s.manager) (hnext : controlNext s = some s') :
    Control.Moves s.control s'.control s.manager s'.manager := by
  cases controlNext_step hnext with
  | prepare h =>
      rw [h] at hok
      obtain ⟨hsound, hprivate, hplan⟩ := hok
      obtain ⟨hsound', hquiet, hsame, hprivate'⟩ := hprivate.store hsound
      refine ⟨⟨hsound', hprivate', ?_⟩, .inr hsame, ?_⟩
      · intro p hp
        exact ⟨(hplan p hp).1.quiet hquiet, (hplan p hp).2⟩
      · intro i hi
        rw [hsame.sites]
        exact hi
  | refused h =>
      rw [h] at hok
      exact moves_of_ok hok.1
  | @ask op plan h =>
      rw [h] at hok
      obtain ⟨hsound, _, hplan⟩ := hok
      obtain ⟨hundo, hready⟩ := hplan plan rfl
      apply moves_of_ok
      cases hasks : op.asks plan with
      | true => exact ⟨hsound, hready, hasks⟩
      | false => exact hsound.undo hundo
  | exchange h =>
      rw [h] at hok
      apply moves_of_ok
      cases s.writer with
      | true => exact hok.1.undo hok.2.1.undoable
      | false => exact hok
  | loadReaders h =>
      rw [h] at hok
      apply moves_of_ok
      dsimp only
      split
      · exact hok.1.hold hok.2.1 hok.2.2
      · exact ⟨hok.1, hok.2.1.undoable⟩
  | backOff h =>
      rw [h] at hok
      exact moves_of_ok (hok.1.undo hok.2)
  | @store op plan ok st todo h =>
      rw [h] at hok
      obtain ⟨hsound, hlocal, hundo⟩ := hok
      refine ⟨⟨hsound, ?_, hundo⟩, .inl ⟨op, plan, ok, st :: todo, h⟩, ?_⟩
      · intro st' hst'
        exact hlocal st' (List.mem_cons_of_mem st hst')
      · intro i hi
        exact owned_store (hlocal st List.mem_cons_self) hi
  | @unlock op plan ok h =>
      rw [h] at hok
      obtain ⟨hsound, _, hundo⟩ := hok
      apply moves_of_ok
      cases ok with
      | true => exact hsound
      | false => exact Sound.undo hsound (hundo rfl)
  | undo h =>
      rw [h] at hok
      obtain ⟨hsound, hprivate, hundo⟩ := hok
      obtain ⟨hsound', hquiet, hsame, hprivate'⟩ := hprivate.store hsound
      refine ⟨⟨hsound', hprivate', hundo.quiet hquiet⟩, .inr hsame, ?_⟩
      intro i hi
      rw [hsame.sites]
      exact hi
  | done h =>
      rw [h] at hok
      exact moves_of_ok hok.1

theorem Control.Ok.sound {c : Control} (h : c.Ok m) (hnot : ¬ c.Holding) : Sound m := by
  cases c with
  | idle => exact h
  | preparing op plan todo => exact h.1
  | exchange op plan => exact h.1
  | loadReaders op plan => exact h.1
  | backOff op plan => exact h.1
  | holding op plan ok todo => exact absurd ⟨op, plan, ok, todo, rfl⟩ hnot
  | undoing op plan todo => exact h.1

/-- A load into the program is under way and its slots are not published. -/
def Control.Prepares (id : Nat) (c : Control) : Prop :=
  ∃ r plan, (∃ todo, c = .preparing (.load id r) (some plan) todo) ∨
    c = .exchange (.load id r) plan ∨ c = .loadReaders (.load id r) plan ∨
    c = .backOff (.load id r) plan ∨ (∃ ok todo, c = .holding (.load id r) plan ok todo) ∨
    ∃ todo, c = .undoing (.load id r) plan todo

theorem Control.Ok.unpublished {c : Control} {id : Nat} (h : c.Ok m) (hnot : ¬ c.Holding)
    (hprepares : c.Prepares id) : (m.programs id).instanceId = 0 := by
  obtain ⟨r, plan, hcases⟩ := hprepares
  rcases hcases with ⟨todo, rfl⟩ | rfl | rfl | rfl | ⟨ok, todo, rfl⟩ | ⟨todo, rfl⟩
  · exact (h.2.2 plan rfl).1.1
  · exact h.2.1.2.1
  · exact h.2.1.2.1
  · exact h.2.1
  · exact absurd ⟨_, _, _, _, rfl⟩ hnot
  · exact h.2.2.1

/-! ## Dispatchers -/

/-- What a dispatcher has read so far and goes on to rely on. -/
def Work.Reads (m : Manager) (site : Nat) : Work → Prop
  | .loadOwned => True
  | .loadReturnIp => True
  | .loadInstance _ => True
  | .loadMode id => (m.programs id).instanceId ≠ 0
  | .loadCount id _ => (m.programs id).instanceId ≠ 0
  | .loadSite id i => (m.programs id).instanceId ≠ 0 ∧ i < (m.programs id).count
  | .mapEnter id i => Linked m id i site
  | .loadSlotMode id i => Linked m id i site
  | .loadSlotVm id i _ => Linked m id i site
  | .loadSlotArmed id i _ vm =>
      Linked m id i site ∧ (m.slots (lsProgramSlot id i)).vm = vm
  | .running id i v => Linked m id i site ∧ (m.slots (lsProgramSlot id i)).vm = some v
  | .loadSafeValue id _ => (m.programs id).instanceId ≠ 0

def Dispatch.Reads (m : Manager) (d : Dispatch) : Prop :=
  ∀ w, d.pc = .work w → w.Reads m d.call.slot

theorem Dispatch.reads_of_work {d : Dispatch} {w : Work} (hpc : d.pc = .work w)
    (h : w.Reads m d.call.slot) : d.Reads m := by
  intro w' hw'
  rw [hpc, Pc.work.injEq] at hw'
  rw [← hw']
  exact h

theorem Dispatch.reads_of_not_inside {d : Dispatch} (h : ¬ d.Inside) : d.Reads m := by
  intro w hw
  exact absurd (.inl ⟨w, hw⟩) h

theorem Dispatch.reads_of_fetchSub {d : Dispatch} (hpc : d.pc = .fetchSub) : d.Reads m := by
  intro w hw
  rw [hpc] at hw
  contradiction

/-- One access inside the gate, with the tables as they are. -/
theorem Work.Reads.next {w : Work} {d : Dispatch} (h : w.Reads m d.call.slot)
    (answer : Answer) : (w.next m answer d).Reads m := by
  unfold Work.next
  cases w with
  | loadOwned =>
      dsimp only
      split
      · exact Dispatch.reads_of_work rfl trivial
      · exact Dispatch.reads_of_fetchSub rfl
  | loadReturnIp =>
      dsimp only
      split
      · exact Dispatch.reads_of_work rfl trivial
      · exact Dispatch.reads_of_fetchSub rfl
  | loadInstance id =>
      dsimp only
      split
      · exact Dispatch.reads_of_fetchSub rfl
      · split
        · exact Dispatch.reads_of_work rfl trivial
        · rename_i hinstance
          exact Dispatch.reads_of_work rfl hinstance
  | loadMode id =>
      dsimp only
      split
      · exact Dispatch.reads_of_work rfl trivial
      · exact Dispatch.reads_of_work rfl h
  | loadCount id i =>
      dsimp only
      split
      · rename_i hlt
        exact Dispatch.reads_of_work rfl ⟨h, hlt⟩
      · exact Dispatch.reads_of_work rfl trivial
  | loadSite id i =>
      dsimp only
      split
      · rename_i hsite
        exact Dispatch.reads_of_work rfl ⟨h.1, h.2, hsite⟩
      · exact Dispatch.reads_of_work rfl h.1
  | mapEnter id i =>
      dsimp only
      split
      · exact Dispatch.reads_of_work rfl h
      · exact Dispatch.reads_of_work rfl h.1
  | loadSlotMode id i => exact Dispatch.reads_of_work rfl h
  | loadSlotVm id i mode => exact Dispatch.reads_of_work rfl ⟨h, rfl⟩
  | loadSlotArmed id i mode vm =>
      cases vm with
      | none => exact Dispatch.reads_of_work rfl h.1.1
      | some v =>
          dsimp only
          split
          · exact Dispatch.reads_of_work rfl h
          · exact Dispatch.reads_of_work rfl h.1.1
  | running id i v =>
      dsimp only
      split
      · exact Dispatch.reads_of_work rfl h.1.1
      · exact Dispatch.reads_of_work rfl h.1.1
  | loadSafeValue id i => exact Dispatch.reads_of_work rfl h

/-- What was read stays true while nothing published changes. -/
theorem Work.Reads.same {w : Work} {site : Nat} (h : w.Reads m site) (hsound : Sound m)
    (hsame : SameAccounts m m') : w.Reads m' site := by
  have hpublished : ∀ id, (m.programs id).instanceId ≠ 0 →
      (m'.programs id).instanceId ≠ 0 := by
    intro id hid
    rw [(hsame.published id hid).1]
    exact hid
  have hvm : ∀ id i, Linked m id i site → (m'.slots (lsProgramSlot id i)).vm =
      (m.slots (lsProgramSlot id i)).vm := by
    intro id i hlinked
    have hi : i < lsProgramEntries :=
      lt_of_lt_of_le hlinked.2.1 ((hsound.accounts.programs id).bounded)
    rw [(hsame.published id hlinked.1).2 i hi]
  cases w with
  | loadOwned => trivial
  | loadReturnIp => trivial
  | loadInstance id => trivial
  | loadMode id => exact hpublished id h
  | loadCount id i => exact hpublished id h
  | loadSite id i =>
      refine ⟨hpublished id h.1, ?_⟩
      rw [(hsame.published id h.1).1]
      exact h.2
  | mapEnter id i => exact (hsame.links id i site).mpr h
  | loadSlotMode id i => exact (hsame.links id i site).mpr h
  | loadSlotVm id i mode => exact (hsame.links id i site).mpr h
  | loadSlotArmed id i mode vm =>
      exact ⟨(hsame.links id i site).mpr h.1, (hvm id i h.1).trans h.2⟩
  | running id i v => exact ⟨(hsame.links id i site).mpr h.1, (hvm id i h.1).trans h.2⟩
  | loadSafeValue id i => exact hpublished id h

/-! ## Every run -/

structure Steady (s : State T) : Prop where
  control : s.control.Ok s.manager
  reads : ∀ t d, s.dispatchers t = some d → d.Reads s.manager

variable [DecidableEq T]

theorem steady_init (h : (gateMachine T).init s) : Steady s := by
  obtain ⟨_, _, ⟨session, hmanager⟩, hcontrol, hdispatchers, _⟩ := h
  constructor
  · rw [hcontrol, hmanager]
    exact sound_initial session
  · intro t d hd
    rw [hdispatchers t] at hd
    contradiction

/-- Nothing published changes under a dispatcher that is inside. -/
theorem Steady.unchanged {a : Action T} (h : Steady s) (hs : (gateMachine T).Reachable s)
    (hnext : (gateMachine T).next s a = some s') {t : T} {d : Dispatch}
    (hd : s.dispatchers t = some d) (hinside : d.Inside) :
    SameAccounts s.manager s'.manager := by
  rcases gateMachine_cases hnext with
    ⟨op, _, _, rfl⟩ | ⟨_, hcontrol⟩ | ⟨u, c, _, _, rfl⟩ | ⟨u, answer, e, _, _, rfl⟩
  · exact SameAccounts.refl _
  · rcases (h.control.next hcontrol).outside with hholding | hsame
    · exact absurd hholding (not_holding_of_inside hs hd hinside)
    · exact hsame
  · exact SameAccounts.refl _
  · rw [(dispatchNext_frame s u answer e).1]
    exact SameAccounts.refl _

/-- A dispatcher inside may go on relying on what it has read. -/
theorem Steady.reads_next {a : Action T} (h : Steady s) (hs : (gateMachine T).Reachable s)
    (hnext : (gateMachine T).next s a = some s') {t : T} {d : Dispatch}
    (hd : s.dispatchers t = some d) : d.Reads s'.manager := by
  by_cases hinside : d.Inside
  · have hsound := h.control.sound (not_holding_of_inside hs hd hinside)
    intro w hw
    exact (h.reads t d hd w hw).same hsound (h.unchanged hs hnext hd hinside)
  · exact Dispatch.reads_of_not_inside hinside

theorem not_inside_of_phase {d : Dispatch} (h : d.pc.phase ≠ .admitted) : ¬ d.Inside := by
  intro hinside
  exact h (phase_of_inside hinside)

omit [DecidableEq T] in
theorem Dispatch.Reads.own {d e : Dispatch} {answer : Answer} (hreads : d.Reads s.manager)
    (hstep : OwnStep s answer d e) : e.Reads s.manager := by
  -- outside the gate nothing has been read
  have haway : ∀ pc : Pc, pc.phase ≠ .admitted →
      Dispatch.Reads s.manager { d with pc := pc } := by
    intro pc hpc
    exact Dispatch.reads_of_not_inside (not_inside_of_phase hpc)
  cases hstep with
  | fetchAdd h => exact haway _ (by simp [Pc.phase])
  | refused h hwriter => exact haway _ (by simp [Pc.phase])
  | admitted h hwriter => exact Dispatch.reads_of_work rfl trivial
  | busy h => exact haway _ (by simp [Pc.phase])
  | work h => exact (hreads _ h).next answer
  | fetchSub h => exact haway _ (by simp [Pc.phase])
  | legacy h => exact haway _ (by simp [Pc.phase])

theorem Steady.control_next {a : Action T} (h : Steady s)
    (hnext : (gateMachine T).next s a = some s') : s'.control.Ok s'.manager := by
  rcases gateMachine_cases hnext with
    ⟨op, _, hcontrol, rfl⟩ | ⟨_, hcontrol⟩ | ⟨u, c, _, _, rfl⟩ | ⟨u, answer, e, _, he, rfl⟩
  · have hsound := h.control
    rw [hcontrol] at hsound
    exact Sound.prepare hsound op
  · exact (h.control.next hcontrol).ok
  · exact h.control
  · obtain ⟨hmanager, hcontrol, _⟩ := dispatchNext_frame s u answer e
    rw [hmanager, hcontrol]
    exact h.control

theorem Steady.next {a : Action T} (h : Steady s) (hs : (gateMachine T).Reachable s)
    (hnext : (gateMachine T).next s a = some s') : Steady s' := by
  refine ⟨h.control_next hnext, ?_⟩
  apply dispatchers_next (P := fun m d => d.Reads m) hnext
  · intro t d hd
    exact h.reads_next hs hnext hd
  · intro c
    apply Dispatch.reads_of_not_inside
    apply not_inside_of_phase
    rw [phase_lsTrampDispatchAt]
    simp
  · intro t answer d e _ hd hstep
    exact (h.reads t d hd).own hstep

theorem steady_of_reachable : ∀ s, (gateMachine T).Reachable s → Steady s := by
  apply Machine.Reachable.invariant
  · intro s hs
    exact steady_init hs
  · intro s a s' hs h hnext
    exact h.next hs hnext

/-- In every interleaving of any number of dispatchers with the control thread:
no dispatcher is inside the gate while the control thread holds it; a slot VM that
a dispatcher runs is the one its slot holds, belongs to a program with an
instance, has not been destroyed, and is not being prepared; and no access of
anybody changes anything published while a dispatcher is inside. -/
theorem gate_excludes (s : State T) (hs : (gateMachine T).Reachable s) :
    (∀ t d, s.dispatchers t = some d → d.Inside → ¬ s.control.Holding) ∧
      (∀ t d id i v, s.dispatchers t = some d → d.pc = .work (.running id i v) →
        (s.manager.programs id).instanceId ≠ 0 ∧
          (s.manager.slots (lsProgramSlot id i)).vm = some v ∧ v ∉ s.manager.freed ∧
          ¬ s.control.Prepares id) ∧
      ∀ t d a s', s.dispatchers t = some d → d.Inside → (gateMachine T).next s a = some s' →
        SameAccounts s.manager s'.manager := by
  have h := steady_of_reachable s hs
  refine ⟨?_, ?_, ?_⟩
  · intro t d hd hinside
    exact not_holding_of_inside hs hd hinside
  · intro t d id i v hd hpc
    have hnot := not_holding_of_inside hs hd (.inl ⟨_, hpc⟩)
    have hsound := h.control.sound hnot
    obtain ⟨hlinked, hvm⟩ := h.reads t d hd _ hpc
    have hi : i < lsProgramEntries :=
      lt_of_lt_of_le hlinked.2.1 (hsound.accounts.programs id).bounded
    refine ⟨hlinked.1, hvm, hsound.vms.all id i hi hlinked.2.1 v hvm, ?_⟩
    intro hprepares
    exact hlinked.1 (h.control.unpublished hnot hprepares)
  · intro t d a s' hd hinside hnext
    exact h.unchanged hs hnext hd hinside

def sampleCall : Call where
  slot := 0
  returnIp := 4105
  input := some zeroCtx
  thread := idleThread

def sampleAnswer : Answer where
  entered := true
  verdict := .safeReturn
  safeValue := 7

/-- Nothing has happened yet. -/
def idleState : State Unit where
  writer := false
  readers := 0
  manager := .initial 1
  control := .idle
  dispatchers _ := none
  finished := []

/-- A program is loaded, attached and set to enforce, each to its end; a patched
function is entered and its dispatcher reaches the VM; and the load of another
program begins beside it. -/
def runningSchedule : List (Action Unit) :=
  .begin (.load 0 (sampleLoad 4096)) :: List.replicate 19 .control ++
    (.begin (.attach 0 (sampleInstance 1 0) 0 (some acceptingPatch)) ::
      List.replicate 11 .control) ++
    (.begin (.mode 0 (sampleInstance 1 0) lsModeEnforce) :: List.replicate 6 .control) ++
    (.call () sampleCall :: List.replicate 12 (.dispatch () sampleAnswer)) ++
    (.begin (.load 1 (sampleLoad 8192)) :: List.replicate 5 .control)

def runningState : State Unit :=
  ((gateMachine Unit).run idleState runningSchedule).getD idleState

theorem reachable_runningState : (gateMachine Unit).Reachable runningState :=
  Machine.reachable_run_getD (.start ⟨rfl, rfl, ⟨1, rfl⟩, rfl, fun _ => rfl, rfl⟩)
    (by decide +kernel)

def runningDispatch : Dispatch where
  call := sampleCall
  owned := true
  out := fallthroughResult
  runs := []
  pc := .work (.running 0 0 0)

theorem gate_excludes_runningState :
    ¬ runningState.control.Holding ∧
      (runningState.manager.programs 0).instanceId ≠ 0 ∧ 0 ∉ runningState.manager.freed ∧
      ¬ runningState.control.Prepares 0 := by
  have hexcludes := gate_excludes runningState reachable_runningState
  have hd : runningState.dispatchers () = some runningDispatch := by decide +kernel
  obtain ⟨hinstance, _, halive, hprepares⟩ := hexcludes.2.1 () runningDispatch 0 0 0 hd rfl
  exact ⟨hexcludes.1 () runningDispatch hd (.inl ⟨_, rfl⟩), hinstance, halive, hprepares⟩

end Program
end LiveSurface
