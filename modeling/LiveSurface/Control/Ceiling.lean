import LiveSurface.Control.Pairing
import LiveSurface.Vm.Reload

/-!
# Modes and ceilings

Every program is signed with a mode it may not exceed.  For a legacy slot the ceiling is
kept apart from the slot, a mode is set by LOAD and by SET_MODE, and a program moves from
the slot it was prepared in to the slot it is meant for; the manager keeps one ceiling and
one mode for all entries of a program.

A request that is refused changes no mode, with one exception by design: a revocation of a
program first disables the program and only then restores the text, so one that cannot
restore the text leaves the program disabled.

Main results:

- Theorem {lit}`refused_modes`: a refused request leaves every mode, a revocation apart.
- Theorem {lit}`modes_within_ceiling`: no slot is ever in a mode above its ceiling.
-/

namespace LiveSurface
namespace Control

open Config StoreProgram Vm

/-- No slot is in a mode its program was not signed for. -/
structure WithinCeiling (s : Server) : Prop where
  legacy : ∀ k, (s.table.slots k).armed = true → ∃ vm a, (s.table.slots k).vm = some vm ∧
    s.admitted vm = some a ∧ (s.table.slots k).mode ≤ a.binding.modeCeiling ∧
    (s.table.slots k).isSnapshot = (a.target.magic == lsTargetSnapshotMagic)
  managed : ∀ id, ∀ e < Program.lsProgramEntries,
    (s.manager.slots (Program.lsProgramSlot id e)).mode ≤ (s.manager.programs id).ceiling
  observing : ∀ k, (s.table.slots k).armed = true → (s.table.slots k).isSnapshot = true →
    (s.table.slots k).mode ≠ lsModeEnforce
  /-- The manager holds no snapshot program. -/
  entries : ∀ id, ∀ e < (s.manager.programs id).count,
    isSnapshotSection (Program.cString ((s.manager.programs id).entries e).sectionName) = false

variable {s : Server}

/-- A managed slot has its program's mode or none. -/
theorem ServerOk.managed_mode (h : ServerOk s) (id : Nat) {e : Nat}
    (he : e < Program.lsProgramEntries) :
    (s.manager.slots (Program.lsProgramSlot id e)).mode ≤ (s.manager.programs id).ceiling := by
  have hprogram := h.sound.accounts.programs id
  by_cases hcount : e < (s.manager.programs id).count
  · rw [hprogram.modes e hcount]
    exact hprogram.ceiling
  · rw [h.vacant id e he (Nat.le_of_not_lt hcount)]
    exact Nat.zero_le _

/-- No section of an entry is one of a snapshot. -/
theorem isSnapshotSection_entry {e : Program.LsProgramEntry} (h : Program.entryValid e = true) :
    isSnapshotSection (Program.cString e.sectionName) = false := by
  simp only [Program.entryValid, Bool.and_eq_true] at h
  have hentry : Program.fentryBytes <+: Program.cString e.sectionName :=
    List.isPrefixOf_iff_prefix.mp h.1.1.1.1.2
  obtain ⟨rest, hrest⟩ := hentry
  -- the second byte of the one is not the second byte of the other
  rw [isSnapshotSection, ← hrest]
  rfl

theorem ServerOk.withinCeiling (h : ServerOk s) : WithinCeiling s := by
  constructor
  · intro k harmed
    obtain ⟨vm, a, hvm, hadmitted, has⟩ := (h.paired k).admitted harmed
    refine ⟨vm, a, hvm, hadmitted, ?_, ?_⟩
    · rw [← has.ceiling]
      exact has.mode
    · rw [← has.target]
      exact has.isSnapshot
  · intro id e he
    exact h.managed_mode id he
  · intro k harmed hsnapshot
    have hle := (h.slots k).observing harmed hsnapshot
    exact (Nat.lt_succ_of_le hle).ne
  · intro id e he
    exact isSnapshotSection_entry (h.entered id e he)

/-! ## Refusals -/

structure SameModes (s s' : Server) : Prop where
  legacy : ∀ k, (s'.table.slots k).mode = (s.table.slots k).mode
  managed : ∀ id, ∀ e < Program.lsProgramEntries,
    (s'.manager.slots (Program.lsProgramSlot id e)).mode =
      (s.manager.slots (Program.lsProgramSlot id e)).mode

theorem SameModes.refl (s : Server) : SameModes s s :=
  ⟨fun _ => rfl, fun _ _ _ => rfl⟩

/-- The request revokes this program and is past its checks. -/
def Request.Revokes (s : Server) (id : Nat) : Request → Prop
  | .program gate (.revoke b instanceId) _ =>
      b = id ∧ Program.lsProgramFind s.manager id instanceId = true ∧ gate = true
  | _ => False

theorem Request.Revokes.cases {r : Request} {id : Nat} (h : r.Revokes s id) :
    ∃ instanceId swap, r = .program true (.revoke id instanceId) swap ∧
      Program.lsProgramFind s.manager id instanceId = true := by
  cases r with
  | program gate p swap =>
      cases p with
      | revoke b instanceId =>
          obtain ⟨rfl, hfind, rfl⟩ := h
          exact ⟨instanceId, swap, rfl, hfind⟩
      | load b r => exact h.elim
      | attach b instanceId entry => exact h.elim
      | detach b instanceId entry => exact h.elim
      | mode b instanceId value => exact h.elim
  | load r => exact h.elim
  | setMode epoch mode => exact h.elim
  | revoke epoch readers => exact h.elim
  | arm slot hook swapped => exact h.elim
  | disarm epoch hook swapped => exact h.elim
  | config slot body => exact h.elim
  | bench o measured => exact h.elim

theorem load_modes (h : ServerOk s) {r : Load} (hrefused : (s.load r).1 = false) :
    SameModes s (s.load r).2 := by
  unfold Server.load at hrefused ⊢
  cases hcheck : s.checkLoad r with
  | none => exact .refl s
  | some target =>
      rw [hcheck] at hrefused
      rcases h.reload_cases r target with
        ⟨_, hends⟩ | ⟨_, ⟨hresult, hends⟩ | ⟨_, _, _, hends⟩⟩
      · simp only [hends]
        exact ⟨fun _ => rfl, fun _ _ _ => rfl⟩
      · simp only [hends]
        refine ⟨?_, fun _ _ _ => rfl⟩
        intro k
        exact (lsVmReload_refused hresult k).mode
      · simp only [hends] at hrefused
        contradiction

theorem setMode_modes {epoch mode : Nat} (hrefused : (s.setMode epoch mode).1 = false) :
    SameModes s (s.setMode epoch mode).2 := by
  unfold Server.setMode at hrefused ⊢
  split at hrefused
  · rw [if_pos ‹_›]
    exact .refl s
  · rw [if_neg ‹_›]
    split at hrefused
    · rw [if_pos ‹_›]
      exact .refl s
    · contradiction

theorem revoke_modes {epoch : Nat} {readers : Bool}
    (hrefused : (s.revoke epoch readers).1 = false) :
    SameModes s (s.revoke epoch readers).2 := by
  unfold Server.revoke at hrefused ⊢
  by_cases hslot : epoch ≥ lsLegacySlots
  · rw [if_pos hslot]
    exact .refl s
  · rw [if_neg hslot] at hrefused
    dsimp only at hrefused
    split at hrefused
    · contradiction
    · contradiction

theorem publishConfig_modes (s : Server) (slot : Nat) (body : Option (List UInt8)) :
    SameModes s (s.publishConfig slot body).2 := by
  unfold Server.publishConfig
  split
  · exact .refl s
  · exact ⟨fun _ => rfl, fun _ _ _ => rfl⟩

theorem serve_program (s : Server) (gate : Bool) (r : ProgramRequest) (swap : Program.Patch) :
    s.serve (.program gate r swap) = s.program gate r swap := rfl

/-- The manager does not touch the legacy slots. -/
theorem program_table (s : Server) (gate : Bool) (r : ProgramRequest) (swap : Program.Patch) :
    (s.program gate r swap).2.table = s.table := by
  unfold Server.program
  rfl

/-- The modes after a request to the manager that is refused. -/
theorem program_modes (h : ServerOk s) {gate : Bool} {r : ProgramRequest} {swap : Program.Patch}
    (hrefused : (s.program gate r swap).1 = false)
    (hrevokes : ∀ id, ¬ (Request.program gate r swap).Revokes s id) :
    SameModes s (s.program gate r swap).2 := by
  constructor
  · intro k
    rw [program_table]
  intro id e he
  apply h.sound.failed_modes h.vacant hrefused ?_ he
  intro hmidway
  cases r with
  | revoke b instanceId =>
      obtain ⟨hchecks, hgate⟩ := hmidway
      simp only [Program.revokeRefused, Option.isNone_some, Bool.or_false,
        Bool.not_eq_false'] at hchecks
      exact hrevokes b ⟨rfl, hchecks, hgate⟩
  | load b r => exact hmidway
  | attach b instanceId entry => exact hmidway
  | detach b instanceId entry => exact hmidway
  | mode b instanceId value => exact hmidway

/-- A refused request leaves every mode, unless it is a revocation past its checks. -/
theorem refused_modes (h : ServerOk s) {r : Request} (hrefused : (s.serve r).1 = false)
    (hrevokes : ∀ id, ¬ r.Revokes s id) : SameModes s (s.serve r).2 := by
  cases r with
  | load r => exact load_modes h hrefused
  | setMode epoch mode => exact setMode_modes hrefused
  | revoke epoch readers => exact revoke_modes hrefused
  | arm slot hook swapped =>
      rcases h.arm_cases slot hook swapped with hsame | ⟨_, _, haccepted⟩
      · simp only [Server.serve, hsame]
        exact .refl s
      · simp only [Server.serve, haccepted] at hrefused
        contradiction
  | disarm epoch hook swapped =>
      rcases disarm_cases s epoch hook swapped with hsame | ⟨_, _, haccepted⟩
      · simp only [Server.serve, hsame]
        exact .refl s
      · simp only [Server.serve, haccepted] at hrefused
        contradiction
  | config slot body => exact publishConfig_modes s slot body
  | bench o measured =>
      refine ⟨?_, fun _ _ _ => rfl⟩
      intro k
      change (((lsVmBenchProgram o measured).final s.table).slots k).mode = _
      rw [(final_lsVmBenchProgram o measured s.table).1]
  | program gate r swap => exact program_modes h hrefused hrevokes

/-- A revocation past its checks disables its program, whether it can go on or not, and
leaves the modes of all other slots. -/
theorem revokes_modes (h : ServerOk s) {r : Request} {id : Nat} (hrevokes : r.Revokes s id) :
    (∀ k, ((s.serve r).2.table.slots k).mode = (s.table.slots k).mode) ∧
    ∀ b, ∀ e < Program.lsProgramEntries,
      ((s.serve r).2.manager.slots (Program.lsProgramSlot b e)).mode =
        if b = id then Program.lsModeDisable
        else (s.manager.slots (Program.lsProgramSlot b e)).mode := by
  obtain ⟨instanceId, swap, rfl, hfind⟩ := hrevokes.cases
  rw [serve_program]
  constructor
  · intro k
    rw [program_table]
  intro b e he
  have hmidway : ((ProgramRequest.revoke id instanceId).op
      (s.lsProgramPatch swap)).StoppedMidway true s.manager := by
    refine ⟨?_, rfl⟩
    simp [Program.revokeRefused, hfind]
  obtain ⟨hown, hothers⟩ := h.sound.midway_modes h.vacant hmidway he
  split
  · rename_i hb
    rw [hb]
    exact hown
  · rename_i hb
    exact congrArg Program.LsSlot.mode (hothers b hb)

/-! ## Every run -/

/-- Between two requests no slot is in a mode above the ceiling its program was admitted
with, and no snapshot program enforces.  A request that is refused leaves the mode of every
slot, except that a revocation past its checks has disabled its own program. -/
theorem modes_within_ceiling (s : Server) (hs : serverMachine.Reachable s) :
    WithinCeiling s ∧ ∀ r, (s.serve r).1 = false →
      ((∀ id, ¬ r.Revokes s id) → SameModes s (s.serve r).2) ∧
      ∀ id, r.Revokes s id →
        (∀ k, ((s.serve r).2.table.slots k).mode = (s.table.slots k).mode) ∧
        ∀ b, ∀ e < Program.lsProgramEntries,
          ((s.serve r).2.manager.slots (Program.lsProgramSlot b e)).mode =
            if b = id then Program.lsModeDisable
            else (s.manager.slots (Program.lsProgramSlot b e)).mode := by
  have h := serverMachine_ok s hs
  refine ⟨h.withinCeiling, ?_⟩
  intro r hrefused
  refine ⟨refused_modes h hrefused, ?_⟩
  intro id hrevokes
  exact revokes_modes h hrevokes

/-! ## Two runs -/

/-- A target for the function at an address, and a load of a program signed for it. -/
def plainTarget (address : UInt64) : LsTarget where
  magic := lsTargetMagic
  buildId := []
  entry := address
  isExit := 0
  padOffset := 0
  reserved := []

def plainLoad (epoch : Nat) (address : UInt64) (ceiling mode : Nat) : Load where
  epoch := epoch
  mode := mode
  binding := { hook := [102, 0], modeCeiling := ceiling, progSha256 := [] }
  object := plainObject 5
  record := some (plainTarget address)
  authorized := true
  inFile := true

/-- A program with one entry is loaded, attached and set to enforce. -/
def enforcedProgram : List Request :=
  [.program true (.load 0 (Program.sampleLoad 4096)) Program.acceptingPatch,
    .program true (.attach 0 (Program.sampleInstance 1 0) 0) Program.acceptingPatch,
    .program true (.mode 0 (Program.sampleInstance 1 0) Program.lsModeEnforce)
      Program.acceptingPatch]

/-- The server after some requests. -/
def afterRequests (requests : List Request) : Server :=
  requests.foldl (fun s r => (s.serve r).2) (.initial 1 [])

theorem reachable_serve (requests : List Request) :
    ∀ s, serverMachine.Reachable s →
      serverMachine.Reachable (requests.foldl (fun s r => (s.serve r).2) s) := by
  induction requests with
  | nil =>
      intro s hs
      exact hs
  | cons r rest ih =>
      intro s hs
      exact ih _ (hs.next (a := r) rfl)

theorem reachable_afterRequests (requests : List Request) :
    serverMachine.Reachable (afterRequests requests) :=
  reachable_serve requests _ (.start ⟨1, [], rfl⟩)

/-- A revocation that cannot restore the text. -/
def stuckRevocation : Request :=
  .program true (.revoke 0 (Program.sampleInstance 1 0)) fun _ _ install => install

/-- It is refused, and the program no longer enforces. -/
theorem refused_revocation_disables :
    ¬ ∀ s, serverMachine.Reachable s → ∀ r, (s.serve r).1 = false →
      SameModes s (s.serve r).2 := by
  intro h
  have hs := reachable_afterRequests enforcedProgram
  have hmodes := h _ hs stuckRevocation (by decide +kernel)
  have hmode := hmodes.managed 0 0 (by decide)
  revert hmode
  decide +kernel

/-- A slot is loaded below its ceiling and raised to it. -/
def raisedSlot : List Request := [.load (plainLoad 0 8192 1 0), .setMode 0 1]

/-- A mode above the ceiling is refused. -/
theorem modes_within_ceiling_raised :
    ((afterRequests raisedSlot).table.slots 0).mode = 1 ∧
      WithinCeiling (afterRequests raisedSlot) ∧
      SameModes (afterRequests raisedSlot) ((afterRequests raisedSlot).serve (.setMode 0 2)).2 := by
  have hs := reachable_afterRequests raisedSlot
  have hmode : ((afterRequests raisedSlot).table.slots 0).mode = 1 := by decide +kernel
  have hanswer : ((afterRequests raisedSlot).serve (.setMode 0 2)).1 = false := by decide +kernel
  obtain ⟨hceiling, hrefused⟩ := modes_within_ceiling _ hs
  refine ⟨hmode, hceiling, ?_⟩
  apply (hrefused (.setMode 0 2) hanswer).1
  intro id hrevokes
  exact hrevokes

end Control
end LiveSurface
