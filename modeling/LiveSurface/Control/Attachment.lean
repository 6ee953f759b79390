import LiveSurface.Control.Ceiling

/-!
# One owner for every patch

Legacy slots and managed sites patch the same text.  ARM looks at the sites before it
patches for a slot, the callback of the manager looks at the slots before it patches for a
site, and a site keeps its index after its last link is gone.

An address that is patched has one owner here, a slot or a site, whose trampoline the text
calls.  The owner is in use as long as its text is patched: a slot while it is attached, a
site while entries are linked to it.

Main results:

- Theorem {lit}`ServerOk.patchedFor_iff`: the owner of an address is in use at that address.
- Theorem {lit}`ServerOk.patchedFor_serve`: a request leaves the patch of an owner that
  stays in use, and restores the text of one that does not.
- Theorem {lit}`armed_text_owned`: attached slots and their text, in every run.
-/

namespace LiveSurface
namespace Control

open Config StoreProgram Vm

/-! ## Owners -/

/-- Whose trampoline patched text calls. -/
inductive Owner
  | slot (k : Nat)
  | site (i : Nat)
deriving DecidableEq

def PatchedFor (s : Server) (address : UInt64) : Owner → Prop
  | .slot k => ∃ p, s.text address = some p ∧ p.slot = k
  | .site i => s.manager.text address = some i

def InUse (s : Server) : Owner → Prop
  | .slot k => (s.targets k).attached = true
  | .site i => 0 < (s.manager.sites i).users

/-- The function of a slot's target or of a site. -/
def Owner.address (s : Server) : Owner → UInt64
  | .slot k => (s.targets k).target.entry
  | .site i => (s.manager.sites i).address

variable {s : Server}

theorem ServerOk.patchedFor_iff (h : ServerOk s) (address : UInt64) (o : Owner) :
    PatchedFor s address o ↔ InUse s o ∧ o.address s = address := by
  cases o with
  | slot k =>
      constructor
      · rintro ⟨p, htext, rfl⟩
        exact h.patched address p htext
      · rintro ⟨hattached, rfl⟩
        obtain ⟨p, htext, hp⟩ := (h.attached k hattached).patch
        exact ⟨p, htext, hp.slot⟩
  | site i => exact h.sound.accounts.sites.text address i

/-- A slot and a site that are in use have different functions. -/
theorem ServerOk.slot_site_apart (h : ServerOk s) {k i : Nat} (hk : InUse s (.slot k))
    (hi : InUse s (.site i)) : (s.manager.sites i).address ≠ (s.targets k).target.entry :=
  (h.attached k hk).address i (h.sound.accounts.sites.owned i hi)

theorem ServerOk.owner_unique (h : ServerOk s) {address : UInt64} {o o' : Owner}
    (ho : PatchedFor s address o) (ho' : PatchedFor s address o') : o = o' := by
  obtain ⟨huse, haddress⟩ := (h.patchedFor_iff address o).mp ho
  obtain ⟨huse', haddress'⟩ := (h.patchedFor_iff address o').mp ho'
  have hsame : o.address s = o'.address s := haddress.trans haddress'.symm
  cases o with
  | slot k =>
      cases o' with
      | slot k' => exact congrArg Owner.slot (h.attached_apart huse huse' hsame)
      | site i => exact absurd hsame.symm (h.slot_site_apart huse huse')
  | site i =>
      cases o' with
      | slot k => exact absurd hsame (h.slot_site_apart huse' huse)
      | site i' => exact congrArg Owner.site (h.sound.accounts.sites.apart i i' huse huse' hsame)

theorem isPad_eq_true (s : Server) (address : UInt64) :
    s.isPad address = true ↔ ∀ o, ¬ PatchedFor s address o := by
  simp only [Server.isPad, Bool.and_eq_true, Option.isNone_iff_eq_none]
  constructor
  · rintro ⟨htext, hmanager⟩ o
    cases o with
    | slot k =>
        rintro ⟨p, hp, _⟩
        rw [htext] at hp
        contradiction
    | site i =>
        intro hi
        rw [PatchedFor, hmanager] at hi
        contradiction
  · intro hnone
    constructor
    · cases htext : s.text address with
      | none => rfl
      | some p => exact absurd ⟨p, htext, rfl⟩ (hnone (.slot p.slot))
    · cases hmanager : s.manager.text address with
      | none => rfl
      | some i => exact absurd hmanager (hnone (.site i))

/-! ## What a request does to text -/

/-- The text, the sites and what is attached are as they were. -/
structure SameText (s s' : Server) : Prop where
  text : s'.text = s.text
  manager : s'.manager.text = s.manager.text
  sites : s'.manager.sites = s.manager.sites
  attached : ∀ k, (s'.targets k).attached = (s.targets k).attached

theorem SameText.refl (s : Server) : SameText s s := ⟨rfl, rfl, rfl, fun _ => rfl⟩

theorem SameText.load (h : ServerOk s) (r : Load) : SameText s (s.load r).2 := by
  unfold Server.load
  cases s.checkLoad r with
  | none => exact .refl s
  | some target =>
      dsimp only
      rcases h.reload_cases r target with
        ⟨_, hends⟩ | ⟨_, ⟨_, hends⟩ | ⟨_, c, _, hends⟩⟩
      · rw [hends]
        exact ⟨rfl, rfl, rfl, fun _ => rfl⟩
      · rw [hends]
        exact ⟨rfl, rfl, rfl, fun _ => rfl⟩
      · rw [hends]
        refine ⟨rfl, rfl, rfl, ?_⟩
        intro k
        change (Function.update s.targets r.epoch ((s.targets r.epoch).signed r target) k).attached = _
        by_cases hk : k = r.epoch
        · subst hk
          rw [Function.update_self]
          rfl
        · rw [Function.update_of_ne hk]

theorem SameText.setMode (s : Server) (epoch mode : Nat) : SameText s (s.setMode epoch mode).2 := by
  unfold Server.setMode
  split
  · exact .refl s
  · split
    · exact .refl s
    · exact ⟨rfl, rfl, rfl, fun _ => rfl⟩

theorem SameText.revoke (s : Server) (epoch : Nat) (readers : Bool) :
    SameText s (s.revoke epoch readers).2 := by
  unfold Server.revoke
  split
  · exact .refl s
  · dsimp only
    split
    · exact ⟨rfl, rfl, rfl, fun _ => rfl⟩
    · exact ⟨rfl, rfl, rfl, fun _ => rfl⟩

theorem SameText.publishConfig (s : Server) (slot : Nat) (body : Option (List UInt8)) :
    SameText s (s.publishConfig slot body).2 := by
  unfold Server.publishConfig
  split
  · exact .refl s
  · exact ⟨rfl, rfl, rfl, fun _ => rfl⟩

/-- Text is patched for a slot by ARM and restored by DISARM; everything else goes through
the manager. -/
theorem ServerOk.serve_text (h : ServerOk s) (r : Request) :
    SameText s (s.serve r).2 ∨
    (∃ k isExit, Armable s k isExit ∧ (s.serve r).2 = s.attach k isExit) ∨
    (∃ k, InUse s (.slot k) ∧ (s.serve r).2 = s.detach k) ∨
    ∃ gate p swap, (s.serve r).2 = (s.program gate p swap).2 := by
  cases r with
  | load r => exact .inl (.load h r)
  | setMode epoch mode => exact .inl (.setMode s epoch mode)
  | revoke epoch readers => exact .inl (.revoke s epoch readers)
  | arm slot hook swapped =>
      rcases h.arm_cases slot hook swapped with hrefused | ⟨isExit, harm, hattached⟩
      · refine .inl ?_
        simp only [Server.serve, hrefused]
        exact .refl s
      · refine .inr (.inl ⟨slot, isExit, harm, ?_⟩)
        simp only [Server.serve, hattached]
  | disarm epoch hook swapped =>
      rcases disarm_cases s epoch hook swapped with hrefused | ⟨slot, hattached, hdetached⟩
      · refine .inl ?_
        simp only [Server.serve, hrefused]
        exact .refl s
      · refine .inr (.inr (.inl ⟨slot, hattached, ?_⟩))
        simp only [Server.serve, hdetached]
  | config slot body => exact .inl (.publishConfig s slot body)
  | bench o measured => exact .inl ⟨rfl, rfl, rfl, fun _ => rfl⟩
  | program gate p swap => exact .inr (.inr (.inr ⟨gate, p, swap, rfl⟩))

/-! ## Patches that stay and patches that go -/

/-- An owner of a patch keeps it as long as it is in use, and the text is restored when it
no longer is. -/
structure KeepsPatch (s s' : Server) (address : UInt64) (o : Owner) : Prop where
  stays : InUse s' o → PatchedFor s' address o
  restored : ¬ InUse s' o → s'.isPad address = true

variable {s' : Server} {address : UInt64} {o : Owner}

/-- A patch whose owner is still in use. -/
theorem KeepsPatch.of_inUse (huse : InUse s' o) (hpatched : PatchedFor s' address o) :
    KeepsPatch s s' address o :=
  ⟨fun _ => hpatched, fun hunused => absurd huse hunused⟩

theorem SameText.keeps (hsame : SameText s s') (huse : InUse s o) (ho : PatchedFor s address o) :
    KeepsPatch s s' address o := by
  cases o with
  | slot k =>
      apply KeepsPatch.of_inUse
      · rw [InUse, hsame.attached]
        exact huse
      · rw [PatchedFor, hsame.text]
        exact ho
  | site i =>
      apply KeepsPatch.of_inUse
      · rw [InUse, hsame.sites]
        exact huse
      · rw [PatchedFor, hsame.manager]
        exact ho

/-- ARM patches where nothing is patched. -/
theorem keeps_attach {k : Nat} {isExit : Bool} (harm : Armable s k isExit) (huse : InUse s o)
    (ho : PatchedFor s address o) : KeepsPatch s (s.attach k isExit) address o := by
  have haddress : address ≠ (s.targets k).target.entry := by
    rintro rfl
    exact (isPad_eq_true s _).mp harm.pad o ho
  cases o with
  | slot j =>
      apply KeepsPatch.of_inUse
      · rw [InUse, attach_attached]
        split
        · rfl
        · exact huse
      · obtain ⟨p, htext, hp⟩ := ho
        exact ⟨p, (Function.update_of_ne haddress ..).trans htext, hp⟩
  | site i => exact .of_inUse huse ho

/-- DISARM restores the text of its slot and of nothing else. -/
theorem ServerOk.keeps_detach (h : ServerOk s) {k : Nat} (hk : InUse s (.slot k))
    (huse : InUse s o) (ho : PatchedFor s address o) : KeepsPatch s (s.detach k) address o := by
  have hown : PatchedFor s (s.targets k).target.entry (.slot k) :=
    (h.patchedFor_iff _ _).mpr ⟨hk, rfl⟩
  by_cases hslot : o = .slot k
  · subst hslot
    obtain rfl : (s.targets k).target.entry = address := ((h.patchedFor_iff _ _).mp ho).2
    constructor
    · intro huse'
      rw [InUse, detach_attached, if_pos rfl] at huse'
      contradiction
    · intro _
      apply (isPad_eq_true _ _).mpr
      intro o' ho'
      cases o' with
      | slot j =>
          obtain ⟨p, htext, _⟩ := ho'
          rw [detach_text, if_pos rfl] at htext
          contradiction
      | site i =>
          have howner := h.owner_unique (o := .site i) ho' hown
          contradiction
  · have haddress : address ≠ (s.targets k).target.entry := by
      rintro rfl
      exact hslot (h.owner_unique ho hown)
    cases o with
    | slot j =>
        have hj : j ≠ k := fun heq => hslot (congrArg Owner.slot heq)
        apply KeepsPatch.of_inUse
        · rw [InUse, detach_attached, if_neg hj]
          exact huse
        · obtain ⟨p, htext, hp⟩ := ho
          refine ⟨p, ?_, hp⟩
          rw [detach_text, if_neg haddress]
          exact htext
    | site i => exact .of_inUse huse ho

/-- An operation of the manager restores the text of a site with its last link. -/
theorem ServerOk.keeps_program (h : ServerOk s) (gate : Bool) (r : ProgramRequest)
    (swap : Program.Patch) (huse : InUse s o) (ho : PatchedFor s address o) :
    KeepsPatch s (s.program gate r swap).2 address o := by
  have h' := h.program gate r swap
  cases o with
  | slot k => exact .of_inUse huse ho
  | site i =>
      have hsame := h.sound.sites_kept gate (r.op (s.lsProgramPatch swap)) huse
      obtain ⟨_, haddress⟩ := (h.patchedFor_iff address (.site i)).mp ho
      constructor
      · intro huse'
        exact (h'.patchedFor_iff address (.site i)).mpr ⟨huse', hsame.1.trans haddress⟩
      · intro hunused
        apply (isPad_eq_true _ _).mpr
        intro o' ho'
        cases o' with
        | slot k =>
            have howner := h.owner_unique (o := .slot k) ho' ho
            contradiction
        | site j =>
            obtain ⟨huse', haddress'⟩ := (h'.patchedFor_iff address (.site j)).mp ho'
            rcases h.program_sites gate r swap j with hsame' | hpatch
            · -- the site was in use before, so it is the same site
              have hpos : InUse s (.site j) := by
                by_contra hzero
                exact Nat.ne_of_gt huse' (hsame'.2.2.2.2 (Nat.eq_zero_of_not_pos hzero))
              have hpatched : PatchedFor s address (.site j) :=
                (h.patchedFor_iff address (.site j)).mpr ⟨hpos, hsame'.1.symm.trans haddress'⟩
              obtain rfl := Owner.site.inj (h.owner_unique hpatched ho)
              exact hunused huse'
            · -- the site is new, and text is patched only where it is not
              have hpad := (lsProgramPatch_eq_true hpatch).2.2 rfl
              change s.isPad (Owner.address _ (.site j)) = true at hpad
              rw [haddress'] at hpad
              exact (isPad_eq_true s address).mp hpad _ ho

theorem ServerOk.patchedFor_serve (h : ServerOk s) (r : Request) (ho : PatchedFor s address o) :
    KeepsPatch s (s.serve r).2 address o := by
  obtain ⟨huse, _⟩ := (h.patchedFor_iff address o).mp ho
  rcases h.serve_text r with
    hsame | ⟨k, isExit, harm, hs'⟩ | ⟨k, hk, hs'⟩ | ⟨gate, p, swap, hs'⟩
  · exact hsame.keeps huse ho
  · rw [hs']
    exact keeps_attach harm huse ho
  · rw [hs']
    exact h.keeps_detach hk huse ho
  · rw [hs']
    exact h.keeps_program gate p swap huse ho

/-! ## Who goes out of use -/

/-- DISARM takes one slot out of use. -/
theorem disarm_inUse {epoch : Nat} {hook : List UInt8} {swapped : Bool}
    (haccepted : (s.serve (.disarm epoch hook swapped)).1 = true) :
    ∃ k, InUse s (.slot k) ∧
      ∀ o, InUse (s.serve (.disarm epoch hook swapped)).2 o ↔ InUse s o ∧ o ≠ .slot k := by
  rcases disarm_cases s epoch hook swapped with hrefused | ⟨k, hattached, hdetached⟩
  · simp only [Server.serve, hrefused] at haccepted
    contradiction
  · refine ⟨k, hattached, ?_⟩
    intro o
    simp only [Server.serve, hdetached]
    cases o with
    | slot j =>
        simp only [InUse, detach_attached, ne_eq, Owner.slot.injEq]
        by_cases hj : j = k
        · simp [hj]
        · simp [hj]
    | site i => simp [InUse, Server.detach]

/-- A detach unlinks one entry, and takes its site out of use with the last link. -/
theorem ServerOk.detach_inUse (h : ServerOk s) {gate : Bool} {id entry : Nat}
    {instanceId : UInt64} {swap : Program.Patch}
    (haccepted : (s.serve (.program gate (.detach id instanceId entry) swap)).1 = true) :
    ∃ i, Program.Linked s.manager id entry i ∧
      ∀ o, InUse (s.serve (.program gate (.detach id instanceId entry) swap)).2 o ↔
        InUse s o ∧ (o = .site i → (s.manager.sites i).users ≠ 1) := by
  obtain ⟨i, text, hlinked, hfinal⟩ := h.sound.run_detach haccepted
  have hpos := h.sound.accounts.users_pos hlinked
  refine ⟨i, hlinked, ?_⟩
  intro o
  cases o with
  | slot k => simp [InUse, Server.serve, Server.program]
  | site j =>
      change 0 < ((((ProgramRequest.detach id instanceId entry).op
        (s.lsProgramPatch swap)).run gate).final s.manager |>.sites j).users ↔ _
      simp only [ProgramRequest.op, hfinal, Program.unlinkedState, InUse, Owner.site.injEq]
      by_cases hj : j = i
      · rw [hj, Function.update_self]
        simp only [forall_const]
        omega
      · rw [Function.update_of_ne hj]
        simp [hj]

/-! ## Every run -/

/-- A slot holds a program, and the text of the program's function calls the slot's
trampoline, for the target and the hook that the program is signed with. -/
def ArmedFor (s : Server) (k : Nat) : Prop :=
  (s.table.slots k).armed = true ∧ ∃ vm a p, (s.table.slots k).vm = some vm ∧
    s.admitted vm = some a ∧ s.text a.target.entry = some p ∧ p.slot = k ∧
    p.target = a.target ∧ Program.cString p.hook = Program.cString a.binding.hook ∧
    p.isExit = (s.table.slots k).isExit ∧
    (s.table.slots k).isExit = (a.target.isExit == 1) ∧
    (s.table.slots k).isSnapshot = (a.target.magic == lsTargetSnapshotMagic)

theorem ServerOk.armedFor (h : ServerOk s) {k : Nat} (hk : InUse s (.slot k)) : ArmedFor s k := by
  have hattached := h.attached k hk
  obtain ⟨_, harmed⟩ := (h.paired k).valid hattached.valid
  obtain ⟨vm, a, hvm, hadmitted, has⟩ := (h.paired k).admitted harmed
  obtain ⟨p, htext, hp⟩ := hattached.patch
  have hexit := hp.isExit.trans has.isExit.symm
  have hkind := has.isExit
  have hsnapshot := has.isSnapshot
  rw [has.target] at htext hkind hsnapshot
  exact ⟨harmed, vm, a, p, hvm, hadmitted, htext, hp.slot, hp.target.trans has.target,
    has.hook ▸ hp.hook, hexit, hkind, hsnapshot⟩

/-- Between two requests an attached slot holds the program its text was patched for, every
patched address has one owner, and no attached slot has the function of a linked entry or
the index of an owned site.  A request leaves the patch of an owner that stays in use and
restores the text of one that does not; DISARM takes one slot out of use, and a detach the
site of its entry, with the last link. -/
theorem armed_text_owned (s : Server) (hs : serverMachine.Reachable s) :
    (∀ k, InUse s (.slot k) → ArmedFor s k) ∧
    (∀ address o o', PatchedFor s address o → PatchedFor s address o' → o = o') ∧
    (∀ k, InUse s (.slot k) → ∀ id e i, Program.Linked s.manager id e i →
      ((s.manager.programs id).entries e).address ≠ (s.targets k).target.entry) ∧
    (∀ k, InUse s (.slot k) → (s.manager.sites k).owned = false) ∧
    (∀ r address o, PatchedFor s address o → KeepsPatch s (s.serve r).2 address o) ∧
    (∀ epoch hook swapped, (s.serve (.disarm epoch hook swapped)).1 = true →
      ∃ k, InUse s (.slot k) ∧
        ∀ o, InUse (s.serve (.disarm epoch hook swapped)).2 o ↔ InUse s o ∧ o ≠ .slot k) ∧
    ∀ gate id instanceId entry swap,
      (s.serve (.program gate (.detach id instanceId entry) swap)).1 = true →
      ∃ i, Program.Linked s.manager id entry i ∧
        ∀ o, InUse (s.serve (.program gate (.detach id instanceId entry) swap)).2 o ↔
          InUse s o ∧ (o = .site i → (s.manager.sites i).users ≠ 1) := by
  have h := serverMachine_ok s hs
  refine ⟨?_, ?_, ?_, ?_, ?_, ?_, ?_⟩
  · intro k hk
    exact h.armedFor hk
  · intro address o o' ho ho'
    exact h.owner_unique ho ho'
  · intro k hk id e i hlinked
    rw [((h.sound.accounts.programs id).agrees e i hlinked).1]
    exact h.slot_site_apart hk (h.sound.accounts.users_pos hlinked)
  · intro k hk
    exact (h.attached k hk).site
  · intro r address o ho
    exact h.patchedFor_serve r ho
  · intro epoch hook swapped haccepted
    exact disarm_inUse haccepted
  · intro gate id instanceId entry swap haccepted
    exact h.detach_inUse haccepted

/-- A program with one entry has site 0, and slot 1 is loaded and attached. -/
def sharedText : List Request :=
  enforcedProgram ++ [.load (plainLoad 1 8192 2 2), .arm 1 [] true]

/-- DISARM of slot 1 restores the text of its function. -/
theorem armed_text_owned_sharedText :
    InUse (afterRequests sharedText) (.slot 1) ∧ InUse (afterRequests sharedText) (.site 0) ∧
      ArmedFor (afterRequests sharedText) 1 ∧
      ((afterRequests sharedText).serve (.disarm 1 [] true)).2.isPad 8192 = true := by
  have hs := reachable_afterRequests sharedText
  obtain ⟨harmed, _, _, _, hkeeps, _, _⟩ := armed_text_owned _ hs
  have hslot : InUse (afterRequests sharedText) (.slot 1) :=
    show ((afterRequests sharedText).targets 1).attached = true by decide +kernel
  have hsite : InUse (afterRequests sharedText) (.site 0) :=
    show 0 < ((afterRequests sharedText).manager.sites 0).users by decide +kernel
  have hpatched : PatchedFor (afterRequests sharedText) 8192 (.slot 1) :=
    ⟨{ slot := 1, isExit := false, target := plainTarget 8192, hook := [102, 0] },
      by decide +kernel, rfl⟩
  refine ⟨hslot, hsite, harmed 1 hslot, ?_⟩
  apply (hkeeps (.disarm 1 [] true) 8192 (.slot 1) hpatched).restored
  show ¬ (((afterRequests sharedText).serve (.disarm 1 [] true)).2.targets 1).attached = true
  decide +kernel

end Control
end LiveSurface
