import LiveSurface.Program.Frame

/-!
# VM lifetimes

A VM is created when an entry is prepared and destroyed when its program is
revoked or its load is taken back.  A slot that still points at a destroyed VM
must never belong to a published entry.

Every store that an operation on one program can make respects the VMs of all
other programs, at any point of the operation and not only at its end.

Main results:

- Theorem {lit}`keeps_vmsExcept`: local stores never free a VM of another
  program.
- Theorem {lit}`Emits.vmsExcept`: neither does a whole operation.
-/

namespace LiveSurface
namespace Program

open StoreProgram

/-- No two slots share a VM, and identities are used once. -/
structure VmTable (m : Manager) : Prop where
  created : ∀ k v, (m.slots k).vm = some v → v < m.nextVm
  apart : ∀ k k' v, (m.slots k).vm = some v → (m.slots k').vm = some v → k = k'
  freed : ∀ v ∈ m.freed, v < m.nextVm

/-- The published entries of a program have VMs that were not destroyed. -/
def Alive (m : Manager) (id : Nat) : Prop :=
  ∀ e < lsProgramEntries, e < (m.programs id).count →
    ∀ v, (m.slots (lsProgramSlot id e)).vm = some v → v ∉ m.freed

structure VmsExcept (a : Nat) (m : Manager) : Prop where
  table : VmTable m
  others : ∀ b, b ≠ a → Alive m b

structure Vms (m : Manager) : Prop where
  table : VmTable m
  all : ∀ id, Alive m id

theorem vms_initial (session : UInt64) : Vms (.initial session) := by
  constructor
  · constructor
    · intro k v hv
      contradiction
    · intro k k' v hv
      contradiction
    · intro v hv
      contradiction
  · intro id e _ he
    exact absurd he (Nat.not_lt_zero e)

variable {a id : Nat} {m m' : Manager}

theorem Vms.except (h : Vms m) (a : Nat) : VmsExcept a m :=
  ⟨h.table, fun b _ => h.all b⟩

theorem VmsExcept.vms (h : VmsExcept a m) (halive : Alive m a) : Vms m := by
  refine ⟨h.table, ?_⟩
  intro id
  by_cases hid : id = a
  · subst hid
    exact halive
  · exact h.others id hid

theorem alive_congr (h : Alive m id) (hcount : (m'.programs id).count = (m.programs id).count)
    (hvm : ∀ e < lsProgramEntries, (m'.slots (lsProgramSlot id e)).vm =
      (m.slots (lsProgramSlot id e)).vm) (hfreed : m'.freed = m.freed) : Alive m' id := by
  intro e he hlt v hv
  rw [hcount] at hlt
  rw [hvm e he] at hv
  rw [hfreed]
  exact h e he hlt v hv

theorem alive_of_count_zero (hcount : (m.programs id).count = 0) : Alive m id := by
  intro e _ he
  omega

/-- A slot of the program is stored to, and its VM stays or goes. -/
theorem VmsExcept.slot (h : VmsExcept a m) {k : Nat} (hk : OwnSlot a k) {s : LsSlot}
    (hs : s.vm = (m.slots k).vm ∨ s.vm = none) :
    VmsExcept a { m with slots := Function.update m.slots k s } := by
  -- a VM in the new table was in the old one, in the same slot
  have hold : ∀ j v, (Function.update m.slots k s j).vm = some v →
      (m.slots j).vm = some v := by
    intro j v hv
    by_cases hj : j = k
    · subst hj
      rw [Function.update_self] at hv
      rcases hs with hsame | hnone
      · rw [← hsame]
        exact hv
      · rw [hnone] at hv
        contradiction
    · rw [Function.update_of_ne hj] at hv
      exact hv
  constructor
  · constructor
    · intro j v hv
      exact h.table.created j v (hold j v hv)
    · intro j j' v hv hv'
      exact h.table.apart j j' v (hold j v hv) (hold j' v hv')
    · exact h.table.freed
  · intro b hb
    refine alive_congr (h.others b hb) rfl ?_ rfl
    intro e he
    show (Function.update m.slots k s (lsProgramSlot b e)).vm = _
    rw [Function.update_of_ne (hk.ne hb he)]

theorem VmsExcept.create (h : VmsExcept a m) {k : Nat} (hk : OwnSlot a k) :
    VmsExcept a (Stores.store m (.created k)) := by
  have hcases : ∀ j v, (Function.update m.slots k { m.slots k with vm := some m.nextVm } j).vm =
      some v → (j = k ∧ v = m.nextVm) ∨ (m.slots j).vm = some v := by
    intro j v hv
    by_cases hj : j = k
    · subst hj
      rw [Function.update_self, Option.some.injEq] at hv
      exact .inl ⟨rfl, hv.symm⟩
    · rw [Function.update_of_ne hj] at hv
      exact .inr hv
  constructor
  · constructor
    · intro j v hv
      show v < m.nextVm + 1
      rcases hcases j v hv with ⟨_, rfl⟩ | hold
      · exact Nat.lt_succ_self _
      · exact Nat.lt_succ_of_lt (h.table.created j v hold)
    · intro j j' v hv hv'
      rcases hcases j v hv with ⟨rfl, hnew⟩ | hold
      · rcases hcases j' v hv' with ⟨rfl, _⟩ | hold'
        · rfl
        · have := h.table.created j' v hold'
          omega
      · rcases hcases j' v hv' with ⟨_, hnew⟩ | hold'
        · have := h.table.created j v hold
          omega
        · exact h.table.apart j j' v hold hold'
    · intro v hv
      exact Nat.lt_succ_of_lt (h.table.freed v hv)
  · intro b hb
    refine alive_congr (h.others b hb) rfl ?_ rfl
    intro e he
    rw [store_created]
    simp [Function.update_of_ne (hk.ne hb he)]

theorem VmsExcept.destroy (h : VmsExcept a m) {k : Nat} (hk : OwnSlot a k) :
    VmsExcept a (Stores.store m (.destroyed k)) := by
  constructor
  · refine ⟨h.table.created, h.table.apart, ?_⟩
    intro v hv
    rcases List.mem_append.mp hv with hnew | hold
    · exact h.table.created k v (by simpa using hnew)
    · exact h.table.freed v hold
  · intro b hb e he hlt v hv hmem
    rcases List.mem_append.mp hmem with hnew | hold
    · have hsame := h.table.apart _ k v hv (by simpa using hnew)
      exact hk.ne hb he hsame
    · exact h.others b hb e he hlt v hv hold

/-- A local store leaves the VMs of other programs alone. -/
theorem keeps_vmsExcept (a : Nat) : Keeps (VmsExcept a) (Store.Local a) := by
  intro m st hst h
  cases st with
  | program id f =>
      obtain ⟨rfl, _⟩ := hst
      refine ⟨⟨h.table.created, h.table.apart, h.table.freed⟩, ?_⟩
      intro b hb
      refine alive_congr (h.others b hb) ?_ (fun _ _ => rfl) rfl
      simp [Function.update_of_ne hb]
  | site i f => exact ⟨⟨h.table.created, h.table.apart, h.table.freed⟩, h.others⟩
  | slot k f => exact h.slot hst.1 (hst.2 (m.slots k))
  | config f => exact ⟨⟨h.table.created, h.table.apart, h.table.freed⟩, h.others⟩
  | patched address site => exact ⟨⟨h.table.created, h.table.apart, h.table.freed⟩, h.others⟩
  | created k => exact h.create hst
  | destroyed k => exact h.destroy hst

theorem Emits.vmsExcept {α : Type} {p : Ctl α} (hp : Emits (Small a) (Store.Local a) p)
    (hsmall : Small a m) (h : VmsExcept a m) : VmsExcept a (p.final m) := by
  apply (hp.final (P := VmsExcept a) _ hsmall h).2
  intro s st hst hs
  exact ⟨keeps_small a s st hst hs.1, keeps_vmsExcept a s st hst hs.2⟩

end Program
end LiveSurface
