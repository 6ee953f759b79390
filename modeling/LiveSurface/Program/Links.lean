import LiveSurface.Program.Frame
import Mathlib.Data.Finset.Card
import Mathlib.Data.Finset.Prod

/-!
# Links and sites

A site counts its users, and the text at its address calls its trampoline while
the count is positive.  The counts, the text, the links and the modes have to
agree.

The agreement splits in two: what the sites say about all links together, and
what each program's own record must satisfy.  A change that does not touch sites
re-establishes only the part of its own program.

Main results:

- Theorem {lit}`Accounts.replace`: changing one program's tables without changing
  its links.
- Theorems {lit}`Accounts.link` and {lit}`Accounts.unlink`: one more or one less
  link.
-/

namespace LiveSurface
namespace Program

open Config StoreProgram

/-! ## Links -/

/-- An entry of a published program is linked to a site. -/
def Linked (m : Manager) (id e i : Nat) : Prop :=
  (m.programs id).instanceId ≠ 0 ∧ e < (m.programs id).count ∧
    (m.programs id).sites e = some i

instance (m : Manager) (id e i : Nat) : Decidable (Linked m id e i) :=
  inferInstanceAs (Decidable (_ ∧ _ ∧ _))

/-- The pairs of a program and an entry that are linked to a site. -/
def links (m : Manager) (i : Nat) : Finset (Nat × Nat) :=
  (Finset.range lsProgramMax ×ˢ Finset.range lsProgramEntries).filter
    fun x => Linked m x.1 x.2 i

/-- What one program's tables satisfy. -/
structure ProgramOk (m : Manager) (id : Nat) : Prop where
  outside : lsProgramMax ≤ id → (m.programs id).instanceId = 0
  idle : (m.programs id).instanceId = 0 →
    (m.programs id).count = 0 ∧ (m.programs id).mode = lsModeDisable
  bounded : (m.programs id).count ≤ lsProgramEntries
  modes : ∀ e < (m.programs id).count,
    (m.slots (lsProgramSlot id e)).mode = (m.programs id).mode
  ceiling : (m.programs id).mode ≤ (m.programs id).ceiling
  agrees : ∀ e i, Linked m id e i →
    ((m.programs id).entries e).address = (m.sites i).address ∧
      (m.slots (lsProgramSlot id e)).safeValue = (m.sites i).safeValue

/-- What the sites say about all links. -/
structure SitesOk (m : Manager) : Prop where
  users : ∀ i, (m.sites i).users = (links m i).card
  inRange : ∀ i, 0 < (m.sites i).users → i < lsProgramSites
  apart : ∀ i j, 0 < (m.sites i).users → 0 < (m.sites j).users →
    (m.sites i).address = (m.sites j).address → i = j
  text : ∀ address i, m.text address = some i ↔
    0 < (m.sites i).users ∧ (m.sites i).address = address
  owned : ∀ i, 0 < (m.sites i).users → (m.sites i).owned = true

structure Accounts (m : Manager) : Prop where
  programs : ∀ id, ProgramOk m id
  sites : SitesOk m

variable {m m' : Manager} {a id entry i : Nat}

theorem accounts_initial (session : UInt64) : Accounts (.initial session) := by
  have hunlinked : ∀ id e i, ¬ Linked (.initial session) id e i := by
    intro id e i h
    exact h.1 rfl
  have hlinks : ∀ i, links (.initial session) i = ∅ := by
    intro i
    apply Finset.filter_eq_empty_iff.mpr
    intro x _
    exact hunlinked x.1 x.2 i
  constructor
  · intro id
    constructor
    · intro _
      rfl
    · intro _
      exact ⟨rfl, rfl⟩
    · exact Nat.zero_le _
    · intro e he
      exact absurd he (Nat.not_lt_zero e)
    · exact Nat.zero_le _
    · intro e i h
      exact absurd h (hunlinked id e i)
  · constructor
    · intro i
      rw [hlinks]
      rfl
    · intro i h
      exact absurd h (Nat.lt_irrefl 0)
    · intro i j h
      exact absurd h (Nat.lt_irrefl 0)
    · intro address i
      constructor
      · intro h
        contradiction
      · intro h
        exact absurd h.1 (Nat.lt_irrefl 0)
    · intro i h
      exact absurd h (Nat.lt_irrefl 0)

theorem Accounts.small (h : Accounts m) (id : Nat) : Small id m :=
  (h.programs id).bounded

/-- A linked pair is in range. -/
theorem Accounts.mem_links (h : Accounts m) {id e : Nat} :
    (id, e) ∈ links m i ↔ Linked m id e i := by
  unfold links
  rw [Finset.mem_filter]
  constructor
  · intro hmem
    exact hmem.2
  · intro hlinked
    refine ⟨?_, hlinked⟩
    have hok := h.programs id
    rw [Finset.mem_product, Finset.mem_range, Finset.mem_range]
    constructor
    · by_contra hge
      exact hlinked.1 (hok.outside (by simpa using hge))
    · exact lt_of_lt_of_le hlinked.2.1 hok.bounded

/-- A linked site has users. -/
theorem Accounts.users_pos (h : Accounts m) {id e : Nat} (hlinked : Linked m id e i) :
    0 < (m.sites i).users := by
  rw [h.sites.users i]
  exact Finset.card_pos.mpr ⟨(id, e), h.mem_links.mpr hlinked⟩

theorem linked_congr (hprogram : m'.programs id = m.programs id) (e i : Nat) :
    Linked m' id e i ↔ Linked m id e i := by
  unfold Linked
  rw [hprogram]

/-- A program whose record and slots are unchanged, when the sites it is linked
to still have their address and safe value. -/
theorem ProgramOk.congr (h : ProgramOk m id) (hprogram : m'.programs id = m.programs id)
    (hslots : ∀ e < lsProgramEntries,
      m'.slots (lsProgramSlot id e) = m.slots (lsProgramSlot id e))
    (hsites : ∀ e i, Linked m id e i → (m'.sites i).address = (m.sites i).address ∧
      (m'.sites i).safeValue = (m.sites i).safeValue) : ProgramOk m' id := by
  constructor
  · rw [hprogram]
    exact h.outside
  · rw [hprogram]
    exact h.idle
  · rw [hprogram]
    exact h.bounded
  · rw [hprogram]
    intro e he
    rw [hslots e (lt_of_lt_of_le he h.bounded)]
    exact h.modes e he
  · rw [hprogram]
    exact h.ceiling
  · intro e i hlinked
    have hold := (linked_congr hprogram e i).mp hlinked
    have hlt : e < lsProgramEntries := lt_of_lt_of_le hold.2.1 h.bounded
    rw [hprogram, hslots e hlt, (hsites e i hold).1, (hsites e i hold).2]
    exact h.agrees e i hold

/-- New tables for one program, with the links it had. -/
theorem Accounts.replace (h : Accounts m) (hapart : Apart a m m')
    (hsites : m'.sites = m.sites) (htext : m'.text = m.text)
    (hlinks : ∀ e i, Linked m' a e i ↔ Linked m a e i) (hok : ProgramOk m' a) :
    Accounts m' := by
  have hall : ∀ id e i, Linked m' id e i ↔ Linked m id e i := by
    intro id e i
    by_cases hid : id = a
    · subst hid
      exact hlinks e i
    · exact linked_congr (hapart.programs id hid) e i
  have hsame : ∀ i, links m' i = links m i := by
    intro i
    apply Finset.filter_congr
    intro x _
    exact hall x.1 x.2 i
  constructor
  · intro id
    by_cases hid : id = a
    · subst hid
      exact hok
    · apply (h.programs id).congr (hapart.programs id hid) (hapart.slots id hid)
      intro e i _
      rw [hsites]
      exact ⟨rfl, rfl⟩
  · constructor
    · intro i
      rw [hsites, hsame]
      exact h.sites.users i
    · rw [hsites]
      exact h.sites.inRange
    · rw [hsites]
      exact h.sites.apart
    · rw [hsites, htext]
      exact h.sites.text
    · rw [hsites]
      exact h.sites.owned

/-! ## One link more -/

/-- A state after an entry was linked to a site described by {lit}`s`. -/
def linkedState (m : Manager) (id entry i : Nat) (s : LsSite) (text : UInt64 → Option Nat) :
    Manager :=
  { m with
    programs := Function.update m.programs id
      { m.programs id with sites := Function.update (m.programs id).sites entry (some i) }
    sites := Function.update m.sites i { s with users := (m.sites i).users + 1 }
    text := text }

/-- The site an entry can be linked to, and the text it leaves. -/
structure Fits (m : Manager) (id entry i : Nat) (s : LsSite) (text : UInt64 → Option Nat) :
    Prop where
  inRange : i < lsProgramSites
  address : s.address = ((m.programs id).entries entry).address
  safeValue : s.safeValue = (m.slots (lsProgramSlot id entry)).safeValue
  owned : s.owned = true
  /-- A site in use keeps its description. -/
  keeps : 0 < (m.sites i).users → s.address = (m.sites i).address ∧
    s.safeValue = (m.sites i).safeValue
  /-- No other site in use has the address. -/
  only : ∀ j, 0 < (m.sites j).users → (m.sites j).address = s.address → j = i
  text : text = Function.update m.text s.address (some i)

theorem linked_linkedState (s : LsSite) (text : UInt64 → Option Nat)
    (hinstance : (m.programs id).instanceId ≠ 0) (hentry : entry < (m.programs id).count)
    (hfree : (m.programs id).sites entry = none) (b e j : Nat) :
    Linked (linkedState m id entry i s text) b e j ↔
      Linked m b e j ∨ (b = id ∧ e = entry ∧ j = i) := by
  unfold Linked linkedState
  by_cases hb : b = id
  · subst hb
    by_cases he : e = entry
    · subst he
      simp [hinstance, hentry, hfree, eq_comm]
    · simp [he]
  · simp [hb]

theorem links_linkedState (s : LsSite) (text : UInt64 → Option Nat) (h : Accounts m)
    (hinstance : (m.programs id).instanceId ≠ 0) (hentry : entry < (m.programs id).count)
    (hfree : (m.programs id).sites entry = none) (j : Nat) :
    links (linkedState m id entry i s text) j =
      if j = i then insert (id, entry) (links m j) else links m j := by
  have hin : id < lsProgramMax ∧ entry < lsProgramEntries := by
    have hok := h.programs id
    constructor
    · by_contra hge
      exact hinstance (hok.outside (by simpa using hge))
    · exact lt_of_lt_of_le hentry hok.bounded
  ext ⟨b, e⟩
  have hiff := linked_linkedState (i := i) s text hinstance hentry hfree b e j
  by_cases hj : j = i
  · subst hj
    simp only [links, Finset.mem_filter, Finset.mem_product, Finset.mem_range, hiff,
      if_true, Finset.mem_insert, Prod.mk.injEq, and_true]
    constructor
    · intro h
      rcases h.2 with hlinked | hnew
      · exact .inr ⟨h.1, hlinked⟩
      · exact .inl hnew
    · intro h
      rcases h with hnew | hold
      · exact ⟨hnew.1 ▸ hnew.2 ▸ hin, .inr hnew⟩
      · exact ⟨hold.1, .inl hold.2⟩
  · simp only [links, Finset.mem_filter, Finset.mem_product, Finset.mem_range, hiff, hj,
      if_false, and_false, or_false]

theorem Accounts.link {s : LsSite} {text : UInt64 → Option Nat} (h : Accounts m)
    (hinstance : (m.programs id).instanceId ≠ 0) (hentry : entry < (m.programs id).count)
    (hfree : (m.programs id).sites entry = none) (hfits : Fits m id entry i s text) :
    Accounts (linkedState m id entry i s text) := by
  have hsite : ∀ j, j ≠ i → (linkedState m id entry i s text).sites j = m.sites j := by
    intro j hj
    simp [linkedState, hj]
  have hself : (linkedState m id entry i s text).sites i =
      { s with users := (m.sites i).users + 1 } := by
    simp [linkedState]
  have hlinks := links_linkedState (i := i) s text h hinstance hentry hfree
  -- a site that had users still has its address and its safe value
  have hkept : ∀ j, 0 < (m.sites j).users →
      ((linkedState m id entry i s text).sites j).address = (m.sites j).address ∧
      ((linkedState m id entry i s text).sites j).safeValue = (m.sites j).safeValue := by
    intro j hj
    by_cases hji : j = i
    · subst hji
      rw [hself]
      exact hfits.keeps hj
    · rw [hsite j hji]
      exact ⟨rfl, rfl⟩
  constructor
  · intro b
    by_cases hb : b = id
    · subst hb
      have hok := h.programs b
      constructor
      · simpa [linkedState] using hok.outside
      · simpa [linkedState] using hok.idle
      · simpa [linkedState] using hok.bounded
      · simpa [linkedState] using hok.modes
      · simpa [linkedState] using hok.ceiling
      · intro e j hlinked
        rcases (linked_linkedState s text hinstance hentry hfree b e j).mp hlinked with
          hold | ⟨_, rfl, rfl⟩
        · rw [(hkept j (h.users_pos hold)).1, (hkept j (h.users_pos hold)).2]
          simpa [linkedState] using hok.agrees e j hold
        · rw [hself]
          simpa [linkedState] using ⟨hfits.address.symm, hfits.safeValue.symm⟩
    · apply (h.programs b).congr
      · simp [linkedState, hb]
      · intro e _
        rfl
      · intro e j hold
        exact hkept j (h.users_pos hold)
  · constructor
    · intro j
      rw [hlinks]
      by_cases hj : j = i
      · subst hj
        rw [if_pos rfl, hself, Finset.card_insert_of_notMem, ← h.sites.users j]
        intro hmem
        have hlinked := h.mem_links.mp hmem
        rw [hlinked.2.2] at hfree
        contradiction
      · rw [if_neg hj, hsite j hj]
        exact h.sites.users j
    · intro j
      by_cases hj : j = i
      · intro _
        rw [hj]
        exact hfits.inRange
      · rw [hsite j hj]
        exact h.sites.inRange j
    · intro j k
      by_cases hj : j = i
      · by_cases hk : k = i
        · intro _ _ _
          rw [hj, hk]
        · rw [hj, hself, hsite k hk]
          intro _ hk' heq
          exact (hfits.only k hk' heq.symm).symm
      · by_cases hk : k = i
        · rw [hk, hself, hsite j hj]
          intro hj' _ heq
          exact hfits.only j hj' heq
        · rw [hsite j hj, hsite k hk]
          exact h.sites.apart j k
    · intro address j
      show text address = some j ↔ _
      rw [congrFun hfits.text address]
      by_cases haddress : address = s.address
      · rw [haddress, Function.update_self]
        by_cases hj : j = i
        · rw [hj, hself]
          simp
        · rw [hsite j hj, Option.some.injEq]
          constructor
          · intro hij
            exact absurd hij.symm hj
          · intro hj'
            exact absurd (hfits.only j hj'.1 hj'.2) hj
      · rw [Function.update_of_ne haddress, h.sites.text address j]
        by_cases hj : j = i
        · rw [hj, hself]
          constructor
          · intro hold
            exact absurd ((hfits.keeps hold.1).1.trans hold.2).symm haddress
          · intro hnew
            exact absurd hnew.2.symm haddress
        · rw [hsite j hj]
    · intro j
      by_cases hj : j = i
      · rw [hj, hself]
        intro _
        exact hfits.owned
      · rw [hsite j hj]
        exact h.sites.owned j

/-! ## One link less -/

/-- A state after an entry was unlinked from a site. -/
def unlinkedState (m : Manager) (id entry i : Nat) (text : UInt64 → Option Nat) : Manager :=
  { m with
    programs := Function.update m.programs id
      { m.programs id with sites := Function.update (m.programs id).sites entry none }
    sites := Function.update m.sites i { m.sites i with users := (m.sites i).users - 1 }
    text := text }

theorem linked_unlinkedState (text : UInt64 → Option Nat) (b e j : Nat) :
    Linked (unlinkedState m id entry i text) b e j ↔
      Linked m b e j ∧ ¬ (b = id ∧ e = entry) := by
  unfold Linked unlinkedState
  by_cases hb : b = id
  · subst hb
    by_cases he : e = entry
    · subst he
      simp
    · simp [he]
  · simp [hb]

theorem links_unlinkedState (text : UInt64 → Option Nat) (j : Nat) :
    links (unlinkedState m id entry i text) j = (links m j).erase (id, entry) := by
  ext ⟨b, e⟩
  simp only [links, Finset.mem_filter, Finset.mem_product, Finset.mem_range,
    linked_unlinkedState, Finset.mem_erase, ne_eq, Prod.mk.injEq]
  tauto

theorem Accounts.unlink {text : UInt64 → Option Nat} (h : Accounts m)
    (hlinked : Linked m id entry i)
    (htext : text = if (m.sites i).users = 1 then Function.update m.text (m.sites i).address none
      else m.text) :
    Accounts (unlinkedState m id entry i text) := by
  have hsite : ∀ j, j ≠ i → (unlinkedState m id entry i text).sites j = m.sites j := by
    intro j hj
    simp [unlinkedState, hj]
  have hself : (unlinkedState m id entry i text).sites i =
      { m.sites i with users := (m.sites i).users - 1 } := by
    simp [unlinkedState]
  -- only the count of the site changes
  have hkept : ∀ j, ((unlinkedState m id entry i text).sites j).address =
        (m.sites j).address ∧
      ((unlinkedState m id entry i text).sites j).safeValue = (m.sites j).safeValue ∧
      ((unlinkedState m id entry i text).sites j).owned = (m.sites j).owned ∧
      ((unlinkedState m id entry i text).sites j).users ≤ (m.sites j).users := by
    intro j
    by_cases hj : j = i
    · rw [hj, hself]
      exact ⟨rfl, rfl, rfl, Nat.sub_le _ _⟩
    · rw [hsite j hj]
      exact ⟨rfl, rfl, rfl, le_rfl⟩
  have hpos := h.users_pos hlinked
  constructor
  · intro b
    by_cases hb : b = id
    · subst hb
      have hok := h.programs b
      constructor
      · simpa [unlinkedState] using hok.outside
      · simpa [unlinkedState] using hok.idle
      · simpa [unlinkedState] using hok.bounded
      · simpa [unlinkedState] using hok.modes
      · simpa [unlinkedState] using hok.ceiling
      · intro e j hnew
        have hold := ((linked_unlinkedState text b e j).mp hnew).1
        rw [(hkept j).1, (hkept j).2.1]
        simpa [unlinkedState] using hok.agrees e j hold
    · apply (h.programs b).congr
      · simp [unlinkedState, hb]
      · intro e _
        rfl
      · intro e j _
        exact ⟨(hkept j).1, (hkept j).2.1⟩
  · constructor
    · intro j
      rw [links_unlinkedState]
      by_cases hj : j = i
      · rw [hj, hself, Finset.card_erase_of_mem (h.mem_links.mpr hlinked), ← h.sites.users i]
      · rw [hsite j hj, Finset.erase_eq_of_notMem, h.sites.users j]
        intro hmem
        have hother := (h.mem_links.mp hmem).2.2
        rw [hlinked.2.2, Option.some.injEq] at hother
        exact hj hother.symm
    · intro j hj
      exact h.sites.inRange j (lt_of_lt_of_le hj (hkept j).2.2.2)
    · intro j k hj hk heq
      rw [(hkept j).1, (hkept k).1] at heq
      exact h.sites.apart j k (lt_of_lt_of_le hj (hkept j).2.2.2)
        (lt_of_lt_of_le hk (hkept k).2.2.2) heq
    · intro address j
      show text address = some j ↔ _
      rw [congrFun htext address, (hkept j).1]
      by_cases hlast : (m.sites i).users = 1
      · rw [if_pos hlast]
        by_cases haddress : address = (m.sites i).address
        · rw [haddress, Function.update_self]
          constructor
          · intro hnone
            contradiction
          · intro hnew
            have hji := h.sites.apart j i (lt_of_lt_of_le hnew.1 (hkept j).2.2.2) hpos hnew.2
            rw [hji, hself] at hnew
            have := hnew.1
            simp [hlast] at this
        · rw [Function.update_of_ne haddress, h.sites.text address j]
          by_cases hj : j = i
          · rw [hj]
            constructor
            · intro hold
              exact absurd hold.2.symm haddress
            · intro hnew
              exact absurd hnew.2.symm haddress
          · rw [hsite j hj]
      · rw [if_neg hlast, h.sites.text address j]
        by_cases hj : j = i
        · rw [hj, hself]
          constructor
          · intro hold
            exact ⟨by dsimp only; omega, hold.2⟩
          · intro hnew
            exact ⟨hpos, hnew.2⟩
        · rw [hsite j hj]
    · intro j hj
      rw [(hkept j).2.2.1]
      exact h.sites.owned j (lt_of_lt_of_le hj (hkept j).2.2.2)

end Program
end LiveSurface
