import LiveSurface.Library.Machine
import LiveSurface.Map.Registry

/-!
# Storage behind map references

Registries hold shapes only.  A thread builds its own storage from them when a
helper first runs on it, and catches up whenever a helper runs again.  A
reference that a helper is passed is resolved in the storage of the registry the
running program uses.

Main results:

- Theorem {lit}`lsMapCurrent_spec`: storage follows the registry.
- Theorem {lit}`LsMapSet.UpToDate.get`: what a reference resolves to.
- Theorem {lit}`references_resolve`: along every run of relocations, resets and
  loads, a reference resolves to the map it was given out for, or to nothing.
-/

namespace LiveSurface
namespace Map

open Config

/-! ## Storage -/

/-- What one thread keeps for one registry. -/
structure ThreadMaps where
  maps : Option LsMapSet
  failed : Bool

def ThreadMaps.zero : ThreadMaps where
  maps := none
  failed := false

/-- Fresh pages, or a set after {lit}`memset`. -/
def LsMapSet.zero : LsMapSet where
  m _ := .zero
  n := 0
  generation := 0

/-- Storage of a retired generation is cleared. -/
def LsMapSet.renew (s : LsMapSet) (generation : UInt64) : LsMapSet :=
  if s.generation ≠ generation then { LsMapSet.zero with generation := generation } else s

/-- The catch-up loop, with {lit}`left` shapes to go; whether all were created. -/
def createMaps (g : Registry) : (left : Nat) → LsMapSet → Bool × LsMapSet
  | 0, s => (true, s)
  | left + 1, s =>
      match lsMapCreate s (g.shapes s.n) with
      | (none, s') => (false, s')
      | (some _, s') => createMaps g left s'

/-- {lit}`ls_map_current` outside a namespace; {lit}`mapped` tells whether
{lit}`mmap` succeeds. -/
def lsMapCurrentShared (g : Registry) (mapped : Bool) (th : ThreadMaps) :
    Option LsMapSet × ThreadMaps :=
  if th.failed then (none, th)
  else
    match th.maps with
    | some s =>
        let s := s.renew g.generation
        let s := (createMaps g (g.count - s.n) s).2
        (some s, { th with maps := some s })
    | none =>
        if g.count = 0 then (none, th)
        else if mapped = false then (none, { th with failed := true })
        else
          match createMaps g g.count { LsMapSet.zero with generation := g.generation } with
          | (false, _) => (none, { th with failed := true })
          | (true, s) => (some s, { th with maps := some s })

/-- {lit}`ls_map_current` in the namespace of a program. -/
def lsMapCurrentNamespace (g : Registry) (bank : Nat) (mapped : Bool) (th : ThreadMaps) :
    Option LsMapSet × ThreadMaps :=
  if bank ≥ lsMapNamespaces ∨ g.generation = 0 then (none, th)
  else if th.failed then (none, th)
  else if g.count = 0 then (none, th)
  else if th.maps.isNone ∧ mapped = false then (none, { th with failed := true })
  else
    let s := (th.maps.getD .zero).renew g.generation
    match createMaps g (g.count - s.n) s with
    | (false, s') => (none, { th with maps := some s' })
    | (true, s') => (some s', { th with maps := some s' })

/-- Bring a thread's storage up to the registry it uses: the shared one, or that
of a program. -/
def lsMapCurrent (g : Registry) (bank : Option Nat) (mapped : Bool) (th : ThreadMaps) :
    Option LsMapSet × ThreadMaps :=
  match bank with
  | none => lsMapCurrentShared g mapped th
  | some bank => lsMapCurrentNamespace g bank mapped th

/-- The index of the map that a reference resolves to. -/
def lsMapGet (s : LsMapSet) (reference : UInt64) : Option Nat :=
  if reference >>> 8 ≠ s.generation then none
  else
    let i := (reference &&& 255).toNat
    if i ≥ lsMapMax ∨ i ≥ s.n then none
    else if (s.m i).inUse then some i
    else none

/-! ## Storage follows the registry -/

/-- A map has the sizes its descriptor asks for. -/
structure LsMap.HasShape (m : LsMap) (d : LsMapDef) : Prop where
  inUse : m.inUse = true
  isRing : m.isRing = (mapOfDescriptor d).isRing
  keySz : m.keySz = (mapOfDescriptor d).keySz
  valSz : m.valSz = (mapOfDescriptor d).valSz
  entries : m.entries = (mapOfDescriptor d).entries

theorem hasShape_mapOfDescriptor (d : LsMapDef) : (mapOfDescriptor d).HasShape d := by
  refine ⟨?_, rfl, rfl, rfl, rfl⟩
  unfold mapOfDescriptor
  split <;> rfl

/-- What an operation leaves of a map. -/
def MapOp.apply (m : LsMap) : MapOp → LsMap
  | .lookup key => (lsMapLookup m key).2
  | .update key val => (lsMapUpdate m key val).2
  | .delete key => (lsMapDelete m key).2
  | .write cell off byte => { m with vals := m.vals.store (cell * lsMapValMax + off) [byte] }

/-- No operation changes the sizes of a map. -/
theorem LsMap.HasShape.apply {m : LsMap} {d : LsMapDef} (h : m.HasShape d) (op : MapOp) :
    (op.apply m).HasShape d := by
  obtain ⟨hinUse, hisRing, hkeySz, hvalSz, hentries⟩ := h
  cases op with
  | lookup key =>
      simp only [MapOp.apply, lsMapLookup]
      split
      · exact ⟨hinUse, hisRing, hkeySz, hvalSz, hentries⟩
      · split <;> exact ⟨hinUse, hisRing, hkeySz, hvalSz, hentries⟩
  | update key val =>
      simp only [MapOp.apply, lsMapUpdate]
      split
      · exact ⟨hinUse, hisRing, hkeySz, hvalSz, hentries⟩
      · split <;> exact ⟨hinUse, hisRing, hkeySz, hvalSz, hentries⟩
  | delete key =>
      simp only [MapOp.apply, lsMapDelete]
      split
      · exact ⟨hinUse, hisRing, hkeySz, hvalSz, hentries⟩
      · split <;> exact ⟨hinUse, hisRing, hkeySz, hvalSz, hentries⟩
  | write cell off byte => exact ⟨hinUse, hisRing, hkeySz, hvalSz, hentries⟩

/-- The maps a set has are those of the registry's first entries. -/
structure LsMapSet.Follows (s : LsMapSet) (g : Registry) : Prop where
  n_le : s.n ≤ g.count
  shapes : ∀ i < s.n, (s.m i).HasShape (g.shapes i)

/-- Storage of the present generation follows the registry; other storage is
older. -/
def ThreadMaps.Ok (th : ThreadMaps) (g : Registry) : Prop :=
  ∀ s, th.maps = some s →
    s.generation ≤ g.generation ∧ (s.generation = g.generation → s.Follows g)

section Storage

variable {g : Registry} {s : LsMapSet} {th : ThreadMaps}

theorem LsMapSet.Follows.create (h : s.Follows g) (hok : g.Ok) (hlt : s.n < g.count) :
    ∃ s', lsMapCreate s (g.shapes s.n) = (some s.n, s') ∧ s'.Follows g ∧ s'.n = s.n + 1 ∧
      s'.generation = s.generation := by
  have hroom : ¬ (s.n ≥ lsMapMax ∨ lsMapCheckDescriptor (g.shapes s.n) = false) := by
    rw [hok.checked s.n hlt]
    have hle := hok.count_le
    simp only [Bool.true_eq_false, or_false]
    omega
  refine ⟨{ s with m := Function.update s.m s.n (mapOfDescriptor (g.shapes s.n)), n := s.n + 1 },
    by rw [lsMapCreate, if_neg hroom], ⟨hlt, ?_⟩, rfl, rfl⟩
  intro i hi
  dsimp only at hi ⊢
  by_cases hlast : i = s.n
  · subst hlast
    rw [Function.update_self]
    exact hasShape_mapOfDescriptor _
  · rw [Function.update_of_ne hlast]
    exact h.shapes i (by omega)

/-- The loop creates every map that is missing. -/
theorem createMaps_spec (hok : g.Ok) :
    ∀ (left : Nat) (s : LsMapSet), s.Follows g → s.n + left = g.count →
      ∃ s', createMaps g left s = (true, s') ∧ s'.Follows g ∧ s'.n = g.count ∧
        s'.generation = s.generation := by
  intro left
  induction left with
  | zero =>
      intro s hs hn
      exact ⟨s, rfl, hs, hn, rfl⟩
  | succ left ih =>
      intro s hs hn
      obtain ⟨t, hcreate, ht, htn, htg⟩ := hs.create hok (by omega)
      obtain ⟨s', hmaps, hs', hs'n, hs'g⟩ := ih t ht (by omega)
      refine ⟨s', ?_, hs', hs'n, hs'g.trans htg⟩
      rw [createMaps, hcreate]
      exact hmaps

theorem follows_zero (g : Registry) (generation : UInt64) :
    LsMapSet.Follows { LsMapSet.zero with generation := generation } g := by
  refine ⟨Nat.zero_le _, ?_⟩
  intro i hi
  exact absurd hi (Nat.not_lt_zero i)

theorem renew_spec (h : s.generation = g.generation → s.Follows g) :
    (s.renew g.generation).Follows g ∧ (s.renew g.generation).generation = g.generation := by
  unfold LsMapSet.renew
  split
  · exact ⟨follows_zero g g.generation, rfl⟩
  · rename_i hsame
    rw [not_not] at hsame
    exact ⟨h hsame, hsame⟩

/-- A set that is up to date with the registry. -/
structure LsMapSet.UpToDate (s : LsMapSet) (g : Registry) : Prop where
  follows : s.Follows g
  n_eq : s.n = g.count
  generation_eq : s.generation = g.generation

theorem ThreadMaps.ok_of_upToDate (h : s.UpToDate g) (failed : Bool) :
    ThreadMaps.Ok { maps := some s, failed := failed } g := by
  intro t ht
  cases ht
  refine ⟨?_, fun _ => h.follows⟩
  rw [h.generation_eq]
  exact UInt64.le_refl _

/-- An operation on one of its maps leaves the shapes of a set as they are. -/
theorem LsMapSet.Follows.apply (h : s.Follows g) (i : Nat) (op : MapOp) :
    LsMapSet.Follows { s with m := Function.update s.m i (op.apply (s.m i)) } g := by
  refine ⟨h.n_le, ?_⟩
  intro j hj
  dsimp only at hj ⊢
  by_cases hji : j = i
  · subst hji
    rw [Function.update_self]
    exact (h.shapes j hj).apply op
  · rw [Function.update_of_ne hji]
    exact h.shapes j hj

theorem LsMapSet.UpToDate.apply (h : s.UpToDate g) (i : Nat) (op : MapOp) :
    LsMapSet.UpToDate { s with m := Function.update s.m i (op.apply (s.m i)) } g :=
  ⟨h.follows.apply i op, h.n_eq, h.generation_eq⟩

/-- Renewing a set and catching up brings it up to date. -/
theorem createMaps_renew (hok : g.Ok) (h : s.generation = g.generation → s.Follows g) :
    ∃ s', createMaps g (g.count - (s.renew g.generation).n) (s.renew g.generation) = (true, s') ∧
      s'.UpToDate g := by
  obtain ⟨hfollows, hgeneration⟩ := renew_spec h
  have hn := hfollows.n_le
  obtain ⟨s', hcreate, hs', hs'n, hs'g⟩ :=
    createMaps_spec hok (g.count - (s.renew g.generation).n) _ hfollows (by omega)
  exact ⟨s', hcreate, hs', hs'n, hs'g.trans hgeneration⟩

theorem lsMapCurrentShared_spec (hok : g.Ok) (hth : th.Ok g) (mapped : Bool) :
    (lsMapCurrentShared g mapped th).2.Ok g ∧
      ∀ s, (lsMapCurrentShared g mapped th).1 = some s →
        (lsMapCurrentShared g mapped th).2.maps = some s ∧ s.UpToDate g := by
  unfold lsMapCurrentShared
  split
  · exact ⟨hth, by simp⟩
  · split
    · rename_i s hs
      obtain ⟨s', hcreate, hs'⟩ := createMaps_renew hok (hth s hs).2
      simp only [hcreate]
      refine ⟨ThreadMaps.ok_of_upToDate hs' _, ?_⟩
      rintro t ⟨⟩
      exact ⟨rfl, hs'⟩
    · rename_i hnone
      have hfailed : ThreadMaps.Ok { th with failed := true } g := hth
      split
      · exact ⟨hth, by simp⟩
      · split
        · exact ⟨hfailed, by simp⟩
        · obtain ⟨s', hcreate, hs', hs'n, hs'g⟩ := createMaps_spec hok g.count
            { LsMapSet.zero with generation := g.generation } (follows_zero g _) (Nat.zero_add _)
          have hdate : s'.UpToDate g := ⟨hs', hs'n, hs'g⟩
          simp only [hcreate]
          refine ⟨ThreadMaps.ok_of_upToDate hdate _, ?_⟩
          rintro t ⟨⟩
          exact ⟨rfl, hdate⟩

theorem lsMapCurrentNamespace_spec (hok : g.Ok) (hth : th.Ok g) (bank : Nat) (mapped : Bool) :
    (lsMapCurrentNamespace g bank mapped th).2.Ok g ∧
      ∀ s, (lsMapCurrentNamespace g bank mapped th).1 = some s →
        (lsMapCurrentNamespace g bank mapped th).2.maps = some s ∧ s.UpToDate g := by
  unfold lsMapCurrentNamespace
  split
  · exact ⟨hth, by simp⟩
  · rename_i hbank
    split
    · exact ⟨hth, by simp⟩
    · split
      · exact ⟨hth, by simp⟩
      · split
        · exact ⟨hth, by simp⟩
        · -- fresh pages have generation zero, which a loaded namespace has left
          have hfollows : (th.maps.getD .zero).generation = g.generation →
              (th.maps.getD .zero).Follows g := by
            cases hmaps : th.maps with
            | some s => exact (hth s hmaps).2
            | none =>
                intro hzero
                exact absurd (.inr hzero.symm) hbank
          obtain ⟨s', hcreate, hs'⟩ := createMaps_renew hok hfollows
          simp only [hcreate]
          refine ⟨ThreadMaps.ok_of_upToDate hs' _, ?_⟩
          rintro t ⟨⟩
          exact ⟨rfl, hs'⟩

/-- Storage follows the registry, and what a helper gets is up to date. -/
theorem lsMapCurrent_spec (hok : g.Ok) (hth : th.Ok g) (bank : Option Nat) (mapped : Bool) :
    (lsMapCurrent g bank mapped th).2.Ok g ∧
      ∀ s, (lsMapCurrent g bank mapped th).1 = some s →
        (lsMapCurrent g bank mapped th).2.maps = some s ∧ s.UpToDate g := by
  cases bank with
  | none => exact lsMapCurrentShared_spec hok hth mapped
  | some bank => exact lsMapCurrentNamespace_spec hok hth bank mapped

/-- A reference of the present generation resolves to its own index, one of any
other generation to nothing. -/
theorem LsMapSet.UpToDate.get (h : s.UpToDate g) {generation : UInt64} {i : Nat}
    (hgeneration : generation ≤ generationMax) (hi : i < lsMapMax) :
    lsMapGet s (mapReference generation i) =
      if generation = g.generation ∧ i < g.count then some i else none := by
  have hsmall : i < 256 := by
    simp only [lsMapMax] at hi
    omega
  unfold lsMapGet
  rw [mapReference_shift hgeneration hsmall, mapReference_index hgeneration hsmall,
    h.generation_eq, h.n_eq]
  by_cases hsame : generation = g.generation
  · by_cases hcount : i < g.count
    · have hnot : ¬ (i ≥ lsMapMax ∨ i ≥ g.count) := by omega
      have hinUse := (h.follows.shapes i (h.n_eq ▸ hcount)).inUse
      simp [hsame, hcount, hnot, hinUse]
    · have hout : i ≥ lsMapMax ∨ i ≥ g.count := .inr (by omega)
      simp [hsame, hcount, hout]
  · simp [hsame]

/-- The refused reference resolves to nothing. -/
theorem lsMapGet_refusedReference (s : LsMapSet) : lsMapGet s refusedReference = none := by
  have hindex : (refusedReference &&& 255).toNat ≥ lsMapMax := by decide
  unfold lsMapGet
  split
  · rfl
  · simp only [hindex, true_or, if_true]

/-- Nor does a configuration handle. -/
theorem LsMapSet.UpToDate.get_handle (h : s.UpToDate g) (hok : g.Ok) {reference : UInt64}
    (hhandle : isHandle reference = true) : lsMapGet s reference = none := by
  have hge := (isHandle_iff reference).mp hhandle
  have hle : g.generation.toNat ≤ 2 ^ 55 - 1 := by
    rw [← toNat_generationMax]
    exact hok.generation_le
  have hne : reference >>> 8 ≠ s.generation := by
    rw [h.generation_eq]
    intro heq
    have hnat := congrArg UInt64.toNat heq
    have h8 : UInt64.toNat 8 % 64 = 8 := by decide
    rw [UInt64.toNat_shiftRight, h8, Nat.shiftRight_eq_div_pow] at hnat
    omega
  unfold lsMapGet
  rw [if_pos hne]

end Storage

/-! ## Runs -/

/-- One call of the relocation callback and its answer. -/
structure RelocEvent where
  /-- The program whose registry was used; {lit}`none` is the shared one. -/
  bank : Option Nat
  generation : UInt64
  request : Relocation
  reference : UInt64
  refused : Bool

/-- The registries, every thread's storage, and the relocations so far. -/
structure Maps (T : Type) where
  registry : Option Nat → Registry
  storage : T → Option Nat → ThreadMaps
  /-- {lit}`g_ls_namespace` of the thread that loads programs. -/
  loading : Option Nat
  log : List RelocEvent

inductive MapsAction (T : Type)
  /-- {lit}`ls_program_load` starts the registry of a program afresh. -/
  | load (id : Nat)
  /-- It leaves the namespace. -/
  | loaded
  | reloc (r : Relocation)
  | reset (readers : Bool)
  /-- A helper resolves a reference and works on the map. -/
  | helper (t : T) (bank : Option Nat) (mapped : Bool) (reference : UInt64) (op : MapOp)

variable {T : Type}

/-- The thread's storage after a helper. -/
def helperMaps (g : Registry) (bank : Option Nat) (mapped : Bool) (reference : UInt64)
    (op : MapOp) (th : ThreadMaps) : ThreadMaps :=
  match lsMapCurrent g bank mapped th with
  | (none, th') => th'
  | (some s, th') =>
      match lsMapGet s reference with
      | none => th'
      | some i =>
          { th' with maps := some { s with m := Function.update s.m i (op.apply (s.m i)) } }

/-- The event of a relocation. -/
def relocEvent (g : Registry) (bank : Option Nat) (r : Relocation) : RelocEvent where
  bank := bank
  generation := g.generation
  request := r
  reference := (lsMapReloc g r).reference
  refused := (lsMapReloc g r).refused

def Maps.setRegistry (s : Maps T) (bank : Option Nat) (g : Registry) : Maps T :=
  { s with registry := Function.update s.registry bank g }

def mapsMachine (T : Type) [DecidableEq T] : Machine (Maps T) (MapsAction T) where
  init s := (∀ b, s.registry b = .zero) ∧ (∀ t b, s.storage t b = .zero) ∧ s.loading = none ∧
    s.log = []
  next s
    | .load id =>
        if s.loading = none ∧ id < lsMapNamespaces ∧
            (namespaceLoad (s.registry (some id))).1 = true then
          some { s.setRegistry (some id) (namespaceLoad (s.registry (some id))).2 with
            loading := some id }
        else none
    | .loaded => some { s with loading := none }
    | .reloc r =>
        some { s.setRegistry s.loading (lsMapReloc (s.registry s.loading) r).registry with
          log := relocEvent (s.registry s.loading) s.loading r :: s.log }
    | .reset readers =>
        some (s.setRegistry none (lsMapResetShapes (s.registry none) readers).2)
    | .helper t bank mapped reference op =>
        some { s with
          storage := Function.update s.storage t
            (Function.update (s.storage t) bank
              (helperMaps (s.registry bank) bank mapped reference op (s.storage t bank))) }

/-! ## Answers over a run

One registry stands for each generation: the one its last relocation left.  Every
relocation of that generation is answered as that registry would answer it. -/

structure Explained (registry : Option Nat → Registry) (log : List RelocEvent)
    (view : Option Nat → UInt64 → Registry) : Prop where
  present : ∀ b, view b (registry b).generation = registry b
  past : ∀ e ∈ log, e.generation ≤ (registry e.bank).generation
  ok : ∀ e ∈ log, (view e.bank e.generation).Ok
  generation : ∀ e ∈ log, (view e.bank e.generation).generation = e.generation
  answers : ∀ e ∈ log, (view e.bank e.generation).Answers e.request e.reference e.refused

structure Maps.Ok (s : Maps T) : Prop where
  registries : ∀ b, (s.registry b).Ok
  storage : ∀ t b, (s.storage t b).Ok (s.registry b)
  explained : ∃ view, Explained s.registry s.log view

theorem maps_ok_init [DecidableEq T] {s : Maps T} (h : (mapsMachine T).init s) : s.Ok := by
  obtain ⟨hregistry, hstorage, _, hlog⟩ := h
  have hzero : Registry.zero.Ok := Registry.ok_of_empty rfl (by decide)
  refine ⟨?_, ?_, fun _ _ => .zero, ?_, ?_, ?_, ?_, ?_⟩
  · intro b
    rw [hregistry b]
    exact hzero
  · intro t b m hm
    rw [hstorage t b] at hm
    contradiction
  · intro b
    exact (hregistry b).symm
  · intro e he
    rw [hlog] at he
    contradiction
  · intro e _
    exact hzero
  · intro e he
    rw [hlog] at he
    contradiction
  · intro e he
    rw [hlog] at he
    contradiction

/-- Storage stays in order when its registry starts a new generation. -/
theorem ThreadMaps.Ok.retire {th : ThreadMaps} {g g' : Registry} (h : th.Ok g)
    (hlt : g.generation < g'.generation) : th.Ok g' := by
  intro s hs
  have hle := (h s hs).1
  refine ⟨UInt64.le_of_lt (UInt64.lt_of_le_of_lt hle hlt), ?_⟩
  intro heq
  rw [heq] at hle
  exact absurd hlt (UInt64.not_lt.mpr hle)

/-- Storage stays in order when its registry gets a new entry. -/
theorem ThreadMaps.Ok.reloc {th : ThreadMaps} {g : Registry} (h : th.Ok g) (hok : g.Ok)
    (r : Relocation) : th.Ok (lsMapReloc g r).registry := by
  intro s hs
  obtain ⟨hle, hfollows⟩ := h s hs
  rw [lsMapReloc_generation]
  refine ⟨hle, fun heq => ?_⟩
  obtain ⟨hn, hshapes⟩ := hfollows heq
  rcases lsMapReloc_cases r with hr | ⟨_, _, hr⟩ | ⟨name, d, hasks, hr⟩
  · rw [hr]
    exact ⟨hn, hshapes⟩
  · rw [hr]
    exact ⟨hn, hshapes⟩
  · rw [hr]
    rcases relocateMap_cases hok hasks.2.2.2.1 d with ⟨i, _, hcase⟩ | ⟨_, hcase⟩ | ⟨_, _, hcase⟩
    · rw [hcase]
      exact ⟨hn, hshapes⟩
    · rw [hcase]
      refine ⟨Nat.le_succ_of_le hn, ?_⟩
      intro i hi
      simp only [Registry.enter]
      rw [Function.update_of_ne (by omega)]
      exact hshapes i hi
    · rw [hcase]
      exact ⟨hn, hshapes⟩

/-- Storage stays in order through a helper. -/
theorem ThreadMaps.Ok.helper {th : ThreadMaps} {g : Registry} (h : th.Ok g) (hok : g.Ok)
    (bank : Option Nat) (mapped : Bool) (reference : UInt64) (op : MapOp) :
    (helperMaps g bank mapped reference op th).Ok g := by
  obtain ⟨hth, hset⟩ := lsMapCurrent_spec hok h bank mapped
  unfold helperMaps
  split
  · rename_i th' hcurrent
    rw [hcurrent] at hth
    exact hth
  · rename_i s th' hcurrent
    rw [hcurrent] at hth hset
    obtain ⟨_, hdate⟩ := hset s rfl
    split
    · exact hth
    · rename_i i hget
      exact ThreadMaps.ok_of_upToDate (hdate.apply i op) _

/-- One registry takes its place among those that stand for the generations. -/
def setView (view : Option Nat → UInt64 → Registry) (b : Option Nat) (g : Registry) :
    Option Nat → UInt64 → Registry := fun b' generation =>
  if b' = b ∧ generation = g.generation then g else view b' generation

section Steps

variable {s : Maps T} {view : Option Nat → UInt64 → Registry} {b : Option Nat} {g : Registry}

theorem Explained.setRegistry (h : Explained s.registry s.log view)
    (hle : (s.registry b).generation ≤ g.generation) (hok : g.Ok)
    (hkeeps : ∀ e ∈ s.log, e.bank = b → e.generation = g.generation →
      g.Answers e.request e.reference e.refused) :
    Explained (Function.update s.registry b g) s.log (setView view b g) := by
  -- an event is explained by the new registry or as before
  have hview : ∀ e : RelocEvent, (e.bank = b ∧ e.generation = g.generation ∧
      setView view b g e.bank e.generation = g) ∨
      setView view b g e.bank e.generation = view e.bank e.generation := by
    intro e
    unfold setView
    split
    · rename_i hboth
      exact .inl ⟨hboth.1, hboth.2, rfl⟩
    · exact .inr rfl
  refine ⟨?_, ?_, ?_, ?_, ?_⟩
  · intro b'
    simp only [setView]
    by_cases hb : b' = b
    · subst hb
      simp
    · simp only [Function.update_of_ne hb, hb, false_and, if_false]
      exact h.present b'
  · intro e he
    have hpast := h.past e he
    by_cases hb : e.bank = b
    · rw [hb, Function.update_self]
      rw [hb] at hpast
      exact UInt64.le_trans hpast hle
    · rw [Function.update_of_ne hb]
      exact hpast
  · intro e he
    rcases hview e with ⟨_, _, heq⟩ | heq
    · rw [heq]
      exact hok
    · rw [heq]
      exact h.ok e he
  · intro e he
    rcases hview e with ⟨_, hgen, heq⟩ | heq
    · rw [heq, hgen]
    · rw [heq]
      exact h.generation e he
  · intro e he
    rcases hview e with ⟨hbank, hgen, heq⟩ | heq
    · rw [heq]
      exact hkeeps e he hbank hgen
    · rw [heq]
      exact h.answers e he

theorem Maps.Ok.setRegistry (h : s.Ok) (hok : g.Ok) (hle : (s.registry b).generation ≤ g.generation)
    (hkeeps : ∀ view, Explained s.registry s.log view → ∀ e ∈ s.log, e.bank = b → e.generation = g.generation →
      g.Answers e.request e.reference e.refused)
    (hstorage : ∀ th : ThreadMaps, th.Ok (s.registry b) → th.Ok g) : (s.setRegistry b g).Ok := by
  obtain ⟨view, hview⟩ := h.explained
  refine ⟨?_, ?_, setView view b g, hview.setRegistry hle hok (hkeeps view hview)⟩
  · intro b'
    simp only [Maps.setRegistry]
    by_cases hb : b' = b
    · subst hb
      rw [Function.update_self]
      exact hok
    · rw [Function.update_of_ne hb]
      exact h.registries b'
  · intro t b'
    simp only [Maps.setRegistry]
    by_cases hb : b' = b
    · subst hb
      rw [Function.update_self]
      exact hstorage _ (h.storage t b')
    · rw [Function.update_of_ne hb]
      exact h.storage t b'

/-- A registry starts its next generation, empty. -/
theorem Maps.Ok.retire (h : s.Ok) (hcount : g.count = 0)
    (hgeneration : g.generation = (s.registry b).generation + 1)
    (hnext : (s.registry b).generation ≠ generationMax) : (s.setRegistry b g).Ok := by
  obtain ⟨hlt, hmax⟩ := next_generation_le (h.registries b).generation_le hnext
  rw [← hgeneration] at hlt hmax
  apply h.setRegistry (Registry.ok_of_empty hcount hmax) (UInt64.le_of_lt hlt)
  · intro view hview e he hbank hgen
    have hpast := hview.past e he
    rw [hbank, hgen] at hpast
    exact absurd hlt (UInt64.not_lt.mpr hpast)
  · intro th hth
    exact hth.retire hlt

/-- The log may grow by what the registry it was asked of answers. -/
theorem Maps.Ok.logged (h : s.Ok) {e : RelocEvent}
    (hgeneration : e.generation = (s.registry e.bank).generation)
    (hanswers : (s.registry e.bank).Answers e.request e.reference e.refused) :
    Maps.Ok { s with log := e :: s.log } := by
  obtain ⟨view, hview⟩ := h.explained
  have hnow : view e.bank e.generation = s.registry e.bank := by
    rw [hgeneration]
    exact hview.present e.bank
  refine ⟨h.registries, h.storage, view, hview.present, ?_, ?_, ?_, ?_⟩
  · intro e' he'
    rcases List.mem_cons.mp he' with rfl | hold
    · rw [hgeneration]
      exact UInt64.le_refl _
    · exact hview.past e' hold
  · intro e' he'
    rcases List.mem_cons.mp he' with rfl | hold
    · rw [hnow]
      exact h.registries _
    · exact hview.ok e' hold
  · intro e' he'
    rcases List.mem_cons.mp he' with rfl | hold
    · rw [hnow, hgeneration]
    · exact hview.generation e' hold
  · intro e' he'
    rcases List.mem_cons.mp he' with rfl | hold
    · rw [hnow]
      exact hanswers
    · exact hview.answers e' hold

theorem Maps.Ok.reloc (h : s.Ok) (r : Relocation) (b : Option Nat) :
    Maps.Ok { s.setRegistry b (lsMapReloc (s.registry b) r).registry with
      log := relocEvent (s.registry b) b r :: s.log } := by
  have hok := h.registries b
  have hset : (s.setRegistry b (lsMapReloc (s.registry b) r).registry).Ok := by
    apply h.setRegistry (hok.reloc r)
    · rw [lsMapReloc_generation]
      exact UInt64.le_refl _
    · intro view hview e he hbank hgen
      rw [lsMapReloc_generation] at hgen
      have hanswers := hview.answers e he
      rw [hbank, hgen, hview.present] at hanswers
      exact hanswers.reloc hok
    · intro th hth
      exact hth.reloc hok r
  apply hset.logged
  · simp only [relocEvent, Maps.setRegistry, Function.update_self, lsMapReloc_generation]
  · simp only [relocEvent, Maps.setRegistry, Function.update_self]
    exact lsMapReloc_replay hok r

variable [DecidableEq T]

theorem Maps.Ok.next {a : MapsAction T} {s' : Maps T} (h : s.Ok)
    (hnext : (mapsMachine T).next s a = some s') : s'.Ok := by
  cases a with
  | load id =>
      simp only [mapsMachine, Option.ite_none_right_eq_some, Option.some.injEq] at hnext
      obtain ⟨⟨_, _, hload⟩, rfl⟩ := hnext
      unfold namespaceLoad at hload ⊢
      split at hload
      · contradiction
      · rename_i hmax
        have hretired : (s.setRegistry (some id)
            { Registry.zero with generation := (s.registry (some id)).generation + 1 }).Ok :=
          h.retire rfl rfl (by simpa using hmax)
        rw [if_neg hmax]
        exact ⟨hretired.registries, hretired.storage, hretired.explained⟩
  | loaded =>
      simp only [mapsMachine, Option.some.injEq] at hnext
      subst hnext
      exact ⟨h.registries, h.storage, h.explained⟩
  | reloc r =>
      simp only [mapsMachine, Option.some.injEq] at hnext
      subst hnext
      exact h.reloc r s.loading
  | reset readers =>
      simp only [mapsMachine, Option.some.injEq] at hnext
      subst hnext
      unfold lsMapResetShapes
      split
      · -- refused: the registry is stored back as it was
        have hsame : s.setRegistry none (s.registry none) = s := by
          simp [Maps.setRegistry]
        rw [hsame]
        exact h
      · rename_i hgo
        simp only [Bool.or_eq_true, beq_iff_eq, not_or] at hgo
        exact h.retire rfl rfl hgo.2
  | helper t bank mapped reference op =>
      simp only [mapsMachine, Option.some.injEq] at hnext
      subst hnext
      refine ⟨h.registries, ?_, h.explained⟩
      intro t' b'
      dsimp only
      by_cases ht : t' = t
      · subst ht
        rw [Function.update_self]
        by_cases hb : b' = bank
        · subst hb
          rw [Function.update_self]
          exact (h.storage t' b').helper (h.registries b') b' mapped reference op
        · rw [Function.update_of_ne hb]
          exact h.storage t' b'
      · rw [Function.update_of_ne ht]
        exact h.storage t' b'

theorem maps_ok_of_reachable : ∀ s, (mapsMachine T).Reachable s → s.Ok := by
  apply Machine.Reachable.invariant
  · intro s hs
    exact maps_ok_init hs
  · intro s a s' _ h hnext
    exact h.next hnext

end Steps

/-! ## References over a run -/

/-- The relocation was of a map, not of the configuration view, and not refused. -/
def RelocEvent.IsReference (e : RelocEvent) : Prop :=
  e.refused = false ∧ e.request.symbolName.map CString.bytes ≠ some lsConfigMapName

section Answers

variable {registry : Option Nat → Registry} {log : List RelocEvent}
  {view : Option Nat → UInt64 → Registry} {e e' : RelocEvent}

/-- A reference is that of an entry of its generation's registry. -/
theorem Explained.reference (h : Explained registry log view) (he : e ∈ log)
    (href : e.IsReference) :
    ∃ i name d, e.request.AsksFor name d ∧ (view e.bank e.generation).Records i name d ∧
      e.reference = mapReference e.generation i ∧ i < lsMapMax ∧
      e.generation ≤ generationMax := by
  have hok := h.ok e he
  have hanswers := h.answers e he
  rw [href.1] at hanswers
  obtain ⟨i, name, d, hasks, hrecords, heq⟩ := hanswers.records hok href.2
  rw [h.generation e he] at heq
  refine ⟨i, name, d, hasks, hrecords, heq, lt_of_lt_of_le hrecords.1 hok.count_le, ?_⟩
  rw [← h.generation e he]
  exact hok.generation_le

theorem Explained.refused_iff (h : Explained registry log view) (he : e ∈ log) :
    e.refused = true ↔ e.reference = refusedReference := by
  have hanswers := h.answers e he
  have hiff := lsMapReloc_refused_iff (h.ok e he) e.request
  rw [hanswers] at hiff
  exact hiff

/-- Within a generation, a second relocation of a name gives the same reference
if it has the same descriptor, and is refused otherwise. -/
theorem Explained.same_name (h : Explained registry log view) (he : e ∈ log) (he' : e' ∈ log)
    (hbank : e'.bank = e.bank) (hgeneration : e'.generation = e.generation)
    (hname : e'.request.symbolName = e.request.symbolName) (href : e.IsReference) :
    (e'.reference = e.reference ↔ e'.request.descriptor = e.request.descriptor) ∧
      (e'.request.descriptor ≠ e.request.descriptor → e'.refused = true) := by
  obtain ⟨i, name, d, hasks, hrecords, heq, hi, hle⟩ := h.reference he href
  have hdiffer : e'.request.descriptor ≠ e.request.descriptor → e'.refused = true := by
    intro hne
    by_contra hnot
    have href' : e'.IsReference := ⟨by simpa using hnot, by rw [hname]; exact href.2⟩
    obtain ⟨j, name', d', hasks', hrecords', _⟩ := h.reference he' href'
    rw [hbank, hgeneration] at hrecords'
    have hnames : name = name' := by
      have hsymbol := hasks'.2.1
      rw [hname, hasks.2.1, Option.some.injEq] at hsymbol
      exact hsymbol
    subst hnames
    obtain ⟨_, rfl⟩ := (h.ok e he).records_unique hrecords hrecords'
    exact hne (hasks'.1.trans hasks.1.symm)
  refine ⟨⟨?_, ?_⟩, hdiffer⟩
  · intro hsame
    by_contra hne
    have hrefused := (h.refused_iff he').mp (hdiffer hne)
    rw [hsame, heq] at hrefused
    exact mapReference_ne_refused hle hi hrefused
  · intro hsame
    have hasks' : e'.request.AsksFor name d :=
      ⟨hsame.trans hasks.1, hname.trans hasks.2.1, hasks.2.2⟩
    have hreloc := relocateMap_of_records (h.ok e he) hasks.2.2.2.1 hrecords
    have hanswers := h.answers e' he'
    unfold Registry.Answers at hanswers
    rw [hbank, hgeneration, lsMapReloc_of_asksFor hasks', hreloc, Relocated.mk.injEq] at hanswers
    rw [heq, ← hanswers.1, h.generation e he]

/-- Within a generation, different names have different references. -/
theorem Explained.distinct (h : Explained registry log view) (he : e ∈ log) (he' : e' ∈ log)
    (hbank : e'.bank = e.bank) (hgeneration : e'.generation = e.generation)
    (href : e.IsReference) (href' : e'.IsReference) (hsame : e'.reference = e.reference) :
    e'.request.symbolName = e.request.symbolName := by
  obtain ⟨i, name, d, hasks, hrecords, heq, hi, hle⟩ := h.reference he href
  obtain ⟨j, name', d', hasks', hrecords', heq', hj, hle'⟩ := h.reference he' href'
  simp only [lsMapMax] at hi hj
  rw [heq, heq'] at hsame
  obtain ⟨_, rfl⟩ := mapReference_inj hle' (by omega) hle (by omega) hsame
  rw [hbank, hgeneration] at hrecords'
  have hnames := nameArray_inj hasks.2.2.2.1 hasks'.2.2.2.1
    (hrecords.2.1.symm.trans hrecords'.2.1)
  rw [hasks'.2.1, hasks.2.1, hnames]

/-- The names that have a reference of a registry's generation. -/
def Referenced (log : List RelocEvent) (b : Option Nat) (generation : UInt64) (name : CString) :
    Prop :=
  ∃ e ∈ log, e.bank = b ∧ e.generation = generation ∧ e.request.symbolName = some name ∧
    e.IsReference

/-- Within a generation, at most four names have references. -/
theorem Explained.at_most_four (h : Explained registry log view) {b : Option Nat}
    {generation : UInt64} {names : List CString} (hnodup : names.Nodup)
    (hnames : ∀ name ∈ names, Referenced log b generation name) : names.length ≤ lsMapMax := by
  have hindex : ∀ name ∈ names, ∃ i < lsMapMax, name.Fits ∧
      (view b generation).names i = nameArray name := by
    intro name hname
    obtain ⟨e, he, rfl, rfl, hsymbol, href⟩ := hnames name hname
    obtain ⟨i, name', d, hasks, hrecords, _, hi, _⟩ := h.reference he href
    have hsame : name' = name := by
      have hsymbol' := hasks.2.1
      rw [hsymbol, Option.some.injEq] at hsymbol'
      exact hsymbol'.symm
    subst hsame
    exact ⟨i, hi, hasks.2.2.2.1, hrecords.2.1⟩
  choose! index hlt hfits harray using hindex
  have hcard : names.toFinset.card ≤ (Finset.range lsMapMax).card := by
    apply Finset.card_le_card_of_injOn index
    · intro name hname
      rw [Finset.mem_coe, List.mem_toFinset] at hname
      exact Finset.mem_coe.mpr (Finset.mem_range.mpr (hlt name hname))
    · intro name hname name' hname' heq
      rw [Finset.mem_coe, List.mem_toFinset] at hname hname'
      apply nameArray_inj (hfits name hname) (hfits name' hname')
      rw [← harray name hname, ← harray name' hname', heq]
  rwa [List.toFinset_card_of_nodup hnodup, Finset.card_range] at hcard

end Answers

/-- What the storage of a thread gives for the references of a run. -/
structure ResolvesOwn (s : Maps T) (b : Option Nat) (set : LsMapSet) : Prop where
  /-- There is a map for every entry of the registry, with its shape. -/
  shapes : set.n = (s.registry b).count ∧
    ∀ i < (s.registry b).count, (set.m i).HasShape ((s.registry b).shapes i)
  /-- A reference of this registry and generation gives the map it was made for. -/
  own : ∀ e ∈ s.log, e.IsReference → e.bank = b → e.generation = (s.registry b).generation →
    ∃ i d, lsMapGet set e.reference = some i ∧ e.request.descriptor = some d ∧
      (set.m i).HasShape d
  /-- A reference of another generation gives nothing. -/
  retired : ∀ e ∈ s.log, e.IsReference → e.generation ≠ (s.registry b).generation →
    lsMapGet set e.reference = none
  refused : lsMapGet set refusedReference = none
  handles : ∀ reference, isHandle reference = true → lsMapGet set reference = none

theorem Maps.Ok.resolves {s : Maps T} (h : s.Ok) {b : Option Nat} {set : LsMapSet}
    (hset : set.UpToDate (s.registry b)) : ResolvesOwn s b set := by
  obtain ⟨view, hview⟩ := h.explained
  refine ⟨⟨hset.n_eq, ?_⟩, ?_, ?_, lsMapGet_refusedReference set, ?_⟩
  · intro i hi
    exact hset.follows.shapes i (hset.n_eq ▸ hi)
  · intro e he href hbank hgeneration
    obtain ⟨i, name, d, hasks, hrecords, heq, hi, hle⟩ := hview.reference he href
    rw [hbank, hgeneration, hview.present] at hrecords
    refine ⟨i, d, ?_, hasks.1, ?_⟩
    · rw [heq, hset.get hle hi, if_pos ⟨hgeneration, hrecords.1⟩]
    · rw [← hrecords.2.2]
      exact hset.follows.shapes i (hset.n_eq ▸ hrecords.1)
  · intro e he href hgeneration
    obtain ⟨i, _, _, _, _, heq, hi, hle⟩ := hview.reference he href
    rw [heq, hset.get hle hi, if_neg]
    rintro ⟨hsame, _⟩
    exact hgeneration hsame
  · intro reference hhandle
    exact hset.get_handle (h.registries b) hhandle

/-- What a registry's relocations of one generation have in common. -/
structure Consistent (s : Maps T) : Prop where
  same_name : ∀ e ∈ s.log, ∀ e' ∈ s.log, e'.bank = e.bank → e'.generation = e.generation →
    e'.request.symbolName = e.request.symbolName → e.IsReference →
      (e'.reference = e.reference ↔ e'.request.descriptor = e.request.descriptor) ∧
        (e'.request.descriptor ≠ e.request.descriptor → e'.refused = true)
  distinct : ∀ e ∈ s.log, ∀ e' ∈ s.log, e'.bank = e.bank → e'.generation = e.generation →
    e.IsReference → e'.IsReference → e'.reference = e.reference →
      e'.request.symbolName = e.request.symbolName
  at_most_four : ∀ b generation names, List.Nodup names →
    (∀ name ∈ names, Referenced s.log b generation name) → names.length ≤ lsMapMax
  /-- A fifth name is refused. -/
  fifth : ∀ e ∈ s.log, ∀ name names, List.Nodup names → names.length = lsMapMax →
    (∀ other ∈ names, Referenced s.log e.bank e.generation other) →
    e.request.symbolName = some name → name ∉ names → name.bytes ≠ lsConfigMapName →
      e.refused = true
  bad_name : ∀ e ∈ s.log,
    (∀ name, e.request.symbolName = some name → name.bytes = [] ∨ ¬ name.Fits) →
      e.refused = true
  refused : ∀ e ∈ s.log, e.refused = true ↔ e.reference = refusedReference
  /-- Entries that have been handed out keep their meaning. -/
  kept : ∀ e ∈ s.log, e.IsReference → e.generation = (s.registry e.bank).generation →
    ∃ i name d, i < lsMapMax ∧ e.reference = mapReference e.generation i ∧
      e.request.symbolName = some name ∧ e.request.descriptor = some d ∧
      (s.registry e.bank).Records i name d
  no_handle : ∀ e ∈ s.log, e.IsReference → isHandle e.reference = false
  /-- The configuration view is answered with the handle of its instance. -/
  config : ∀ e ∈ s.log, e.refused = false → ¬ e.IsReference →
    e.reference = e.request.handle ∧ isHandle e.reference = true

theorem Maps.Ok.consistent {s : Maps T} (h : s.Ok) : Consistent s := by
  obtain ⟨view, hview⟩ := h.explained
  have hfour : ∀ b generation names, List.Nodup names →
      (∀ name ∈ names, Referenced s.log b generation name) → names.length ≤ lsMapMax := by
    intro b generation names hnodup hnames
    exact hview.at_most_four hnodup hnames
  refine ⟨?_, ?_, hfour, ?_, ?_, ?_, ?_, ?_, ?_⟩
  · intro e he e' he' hbank hgeneration hname href
    exact hview.same_name he he' hbank hgeneration hname href
  · intro e he e' he' hbank hgeneration href href' hsame
    exact hview.distinct he he' hbank hgeneration href href' hsame
  · intro e he name names hnodup hlength hnames hsymbol hnew hne
    by_contra hnot
    have href : e.IsReference := by
      refine ⟨by simpa using hnot, ?_⟩
      rw [hsymbol]
      simpa using hne
    have hmore := hfour e.bank e.generation (name :: names) (List.nodup_cons.mpr ⟨hnew, hnodup⟩)
      (by
        intro other hother
        rcases List.mem_cons.mp hother with rfl | hold
        · exact ⟨e, he, rfl, rfl, hsymbol, href⟩
        · exact hnames other hold)
    rw [List.length_cons, hlength] at hmore
    omega
  · intro e he hbad
    have hanswers := hview.answers e he
    unfold Registry.Answers at hanswers
    rw [lsMapReloc_of_badName hbad, refuse, Relocated.mk.injEq] at hanswers
    exact hanswers.2.2.symm
  · intro e he
    exact hview.refused_iff he
  · intro e he href hgeneration
    obtain ⟨i, name, d, hasks, hrecords, heq, hi, _⟩ := hview.reference he href
    rw [hgeneration, hview.present] at hrecords
    exact ⟨i, name, d, hi, heq, hasks.2.1, hasks.1, hrecords⟩
  · intro e he href
    obtain ⟨i, _, _, _, _, heq, hi, hle⟩ := hview.reference he href
    simp only [lsMapMax] at hi
    rw [heq]
    exact isHandle_mapReference hle (by omega)
  · intro e he haccepted hnot
    have hname : e.request.symbolName.map CString.bytes = some lsConfigMapName := by
      by_contra hne
      exact hnot ⟨haccepted, hne⟩
    have hanswers := hview.answers e he
    rw [haccepted] at hanswers
    exact hanswers.config hname

/-- Along every run of relocations, resets, loads and helpers: within one
generation of a registry references are names, at most four, and keep their
meaning; and what a helper's storage gives for a reference is the map it was made
for, or nothing when it is of another generation or refused. -/
theorem references_resolve [DecidableEq T] (s : Maps T) (hs : (mapsMachine T).Reachable s) :
    Consistent s ∧
      ∀ t b mapped set, (lsMapCurrent (s.registry b) b mapped (s.storage t b)).1 = some set →
        ResolvesOwn s b set := by
  have h := maps_ok_of_reachable s hs
  refine ⟨h.consistent, ?_⟩
  intro t b mapped set hset
  obtain ⟨_, hdate⟩ := (lsMapCurrent_spec (h.registries b) (h.storage t b) b mapped).2 set hset
  exact h.resolves hdate

/-! A thread uses the map of one program, the registry is reset, and another
program's map takes the index. -/

def countsName : CString where
  bytes := [99, 110, 116]
  noNul := by decide

/-- A hash map with keys of four bytes and values of {lit}`valueSize`. -/
def sampleRelocation (valueSize : UInt8) : Relocation where
  handle := 0
  data := some ([1, 0, 0, 0] ++ [4, 0, 0, 0] ++ [valueSize, 0, 0, 0] ++ [8, 0, 0, 0] ++
    [0, 0, 0, 0])
  symbolName := some countsName
  symbolOffset := 0
  symbolSize := 20

def emptyMaps : Maps Unit where
  registry _ := .zero
  storage _ _ := .zero
  loading := none
  log := []

def resetSchedule : List (MapsAction Unit) :=
  [.reloc (sampleRelocation 8), .helper () none true 0 (.lookup [1, 2, 3, 4]), .reset false,
    .reloc (sampleRelocation 16)]

def resetMaps : Maps Unit :=
  ((mapsMachine Unit).run emptyMaps resetSchedule).getD emptyMaps

theorem reachable_resetMaps : (mapsMachine Unit).Reachable resetMaps :=
  Machine.reachable_run_getD (.start ⟨fun _ => rfl, fun _ _ => rfl, rfl, rfl⟩) (by decide +kernel)

/-- The first program's reference is 0; after the reset it gives nothing, and the
reference of the second program is 256. -/
theorem references_resolve_resetMaps :
    ∃ set, (lsMapCurrent (resetMaps.registry none) none true (resetMaps.storage () none)).1 =
        some set ∧
      resetMaps.log.map RelocEvent.reference = [256, 0] ∧
      (∀ e ∈ resetMaps.log, e.reference = 0 → lsMapGet set e.reference = none) := by
  have hresolve := references_resolve resetMaps reachable_resetMaps
  have hsome : (lsMapCurrent (resetMaps.registry none) none true
      (resetMaps.storage () none)).1.isSome = true := by decide +kernel
  obtain ⟨set, hset⟩ := Option.isSome_iff_exists.mp hsome
  refine ⟨set, hset, by decide +kernel, ?_⟩
  have hretired : ∀ e ∈ resetMaps.log, e.reference = 0 →
      e.refused = false ∧ e.request.symbolName.map CString.bytes ≠ some lsConfigMapName ∧
        e.generation ≠ (resetMaps.registry none).generation := by decide +kernel
  intro e he hzero
  obtain ⟨haccepted, hname, hgeneration⟩ := hretired e he hzero
  exact (hresolve.2 () none true set hset).retired e he ⟨haccepted, hname⟩ hgeneration

end Map
end LiveSurface
