import LiveSurface.Segment.Model
import Mathlib.Data.List.Nodup

/-!
# One bring-up

What holds while one thread of a process brings the segment up: the log is one run over the
stores of the bring-up, or that run followed by events that are no stores of it.  The point
of each thread says how far the process has come.

Main results:

- Theorem {lit}`foldl_initStores`: the stores of a bring-up initialise every ring.
- Definition {lit}`Kept`: the invariant of one bring-up.
- Theorem {lit}`Kept.sound`: the invariant gives what a bring-up promises.
-/

namespace LiveSurface
namespace Segment

open Ring

/-! ## The stores -/

/-- The ring that the stores of {lit}`ls_ring_init` leave has been initialised. -/
theorem by_ringStores (p : Nat) (r : SegRing) :
    (ringStores.foldl (fun r w => r.store p w.1 w.2) r).By p := by
  refine ⟨rfl, rfl, rfl, rfl, fun field => ?_⟩
  cases field <;> rfl

section Stores

variable {p : Nat} {f : SegFile} {i : Fin 16}

theorem foldl_ringInit (p : Nat) (i : Fin 16) (ws : List (RingField × Nat)) (f : SegFile) :
    (ws.map fun w => SegStore.ring i w.1 w.2).foldl (SegFile.store p) f =
      { f with ring :=
          Function.update f.ring i (ws.foldl (fun r w => r.store p w.1 w.2) (f.ring i)) } := by
  induction ws generalizing f with
  | nil => rw [List.map_nil, List.foldl_nil, List.foldl_nil, Function.update_eq_self]
  | cons w rest ih =>
      rw [List.map_cons, List.foldl_cons, List.foldl_cons, ih]
      simp only [SegFile.store, Function.update_self, Function.update_idem]

/-- The stores of a ring initialise it. -/
theorem by_ringInit (p : Nat) (i : Fin 16) (f : SegFile) :
    (((ringInit i).foldl (SegFile.store p) f).ring i).By p := by
  rw [ringInit, foldl_ringInit]
  simp only [Function.update_self]
  exact by_ringStores p _

/-- The stores of any ring leave an initialised ring initialised. -/
theorem by_ringInit_of_by (hf : (f.ring i).By p) (j : Fin 16) :
    (((ringInit j).foldl (SegFile.store p) f).ring i).By p := by
  by_cases hj : i = j
  · subst hj
    exact by_ringInit p i f
  · rw [ringInit, foldl_ringInit]
    simp only [Function.update_of_ne hj]
    exact hf

theorem by_rings_of_by (rings : List (Fin 16)) (hf : (f.ring i).By p) :
    (((rings.flatMap ringInit).foldl (SegFile.store p) f).ring i).By p := by
  induction rings generalizing f with
  | nil => exact hf
  | cons j rest ih =>
      rw [List.flatMap_cons, List.foldl_append]
      exact ih (by_ringInit_of_by hf j)

/-- The rings whose stores have been made are initialised. -/
theorem by_rings {rings : List (Fin 16)} (hi : i ∈ rings) (f : SegFile) :
    (((rings.flatMap ringInit).foldl (SegFile.store p) f).ring i).By p := by
  induction rings generalizing f with
  | nil => exact (List.not_mem_nil hi).elim
  | cons j rest ih =>
      rw [List.flatMap_cons, List.foldl_append]
      rcases List.mem_cons.mp hi with rfl | hi
      · exact by_rings_of_by rest (by_ringInit p i f)
      · exact ih hi _

/-- The stores of the rings change nothing else. -/
theorem header_rings (p : Nat) (rings : List (Fin 16)) (f : SegFile) :
    ((rings.flatMap ringInit).foldl (SegFile.store p) f).nRings = f.nRings ∧
      ((rings.flatMap ringInit).foldl (SegFile.store p) f).claimed = f.claimed := by
  induction rings generalizing f with
  | nil => exact ⟨rfl, rfl⟩
  | cons j rest ih =>
      rw [List.flatMap_cons, List.foldl_append]
      obtain ⟨hrings, hclaimed⟩ := ih ((ringInit j).foldl (SegFile.store p) f)
      rw [hrings, hclaimed, ringInit, foldl_ringInit]
      exact ⟨rfl, rfl⟩

/-- A segment after all the stores of a bring-up. -/
theorem foldl_initStores (p : Nat) (f : SegFile) :
    (initStores.foldl (SegFile.store p) f).Whole ∧
      (initStores.foldl (SegFile.store p) f).nRings = lsTpMaxRings ∧
      (initStores.foldl (SegFile.store p) f).claimed = 0 := by
  unfold initStores
  rw [List.foldl_append, List.foldl_append]
  generalize hg : [SegStore.version, .nRings, .ringStride, .ringDataSize, .claimed].foldl
    (SegFile.store p) f = g
  obtain ⟨hrings, hclaimed⟩ := header_rings p (List.finRange 16) g
  have hby : ∀ i, ((((List.finRange 16).flatMap ringInit).foldl (SegFile.store p) g).ring i).By p :=
    fun i => by_rings (List.mem_finRange i) g
  generalize ((List.finRange 16).flatMap ringInit).foldl (SegFile.store p) g = x at hrings hclaimed hby
  refine ⟨hby, hrings.trans ?_, hclaimed.trans ?_⟩
  · rw [← hg]
    rfl
  · rw [← hg]
    rfl

end Stores

/-! ## The invariant -/

/-- The claims of a process, in order. -/
def claimsOf (log : List BootEvent) : List (Nat × Nat) :=
  log.filterMap fun
    | .claimed t idx => some (t, idx)
    | _ => none

/-- The thread stands between its test of the flag and its store of the segment. -/
def Point.Bringing : Point → Prop
  | .mark | .env | .openFile | .truncate | .map | .init _ | .setSeg _ => True
  | _ => False

/-- What the bring-up promises of the header. -/
structure SegFile.Ready (f : SegFile) (claims : Nat) : Prop where
  nRings : f.nRings = lsTpMaxRings
  claimed : f.claimed = claims % 2 ^ 32

/-- The log of a bring-up is one run over some of its stores. -/
def Brought (log : List BootEvent) (done : List SegStore) : Prop :=
  ∃ t, log = done.map (BootEvent.stored t)

/-- What a thread's point says of the process. -/
def Point.Ok (s : Boot) (t : Nat) : Point → Prop
  | .idle | .test => True
  | .mark => s.tried = false
  | .env | .openFile => s.tried = true ∧ s.seg = false ∧ s.log = []
  | .truncate | .map => s.tried = true ∧ s.seg = false ∧ s.log = [] ∧ ∃ f, s.file = some f
  | .init rest => s.tried = true ∧ s.seg = false ∧ ∃ done f, done ++ rest = initStores ∧
      s.log = done.map (BootEvent.stored t) ∧
      s.file = some (done.foldl (SegFile.store s.proc) f)
  | .setSeg mapped => s.tried = true ∧ s.seg = false ∧ if mapped
      then s.log = initStores.map (BootEvent.stored t) ∧ ∃ f, s.file = some f ∧ f.Ready 0
      else s.log = []
  | .load => s.tried = true
  | .again | .claim => s.seg = true
  | .compare idx => s.seg = true ∧ (t, idx) ∈ claimsOf s.log
  | .start i | .emit i _ => s.seg = true ∧ (s.thread t).mine = some i

/-- What holds of one thread. -/
structure Thread.Ok (s : Boot) (t : Nat) : Prop where
  point : (s.thread t).point.Ok s t
  mine : ∀ i, (s.thread t).mine = some i → (t, i.val) ∈ claimsOf s.log

/-- What holds of the process, the file and the readers. -/
structure Common (s : Boot) : Prop where
  tried : s.seg = true → s.tried = true
  untried : s.tried = false → s.log = []
  unmapped : s.seg = false → ∃ done, done <+: initStores ∧ Brought s.log done
  mapped : s.seg = true → ∃ first rest f, s.log = first ++ rest ∧ Brought first initStores ∧
    (∀ event ∈ rest, event.isStore = false) ∧ s.file = some f ∧
    f.Ready (claimsOf s.log).length
  claims : (claimsOf s.log).map Prod.snd = List.range (claimsOf s.log).length
  bound : (claimsOf s.log).length ≤ 2 ^ 32
  wrote : ∀ t i, .wrote t i ∈ s.log → (t, i.val) ∈ claimsOf s.log
  whole : ∀ f, s.file = some f → f.magic = lsTpSegMagic → s.unfinished = false → f.Whole
  reading : ∀ c, s.reader c = .version ∨ s.reader c = .stride →
    ∃ f, s.file = some f ∧ f.magic = lsTpSegMagic
  views : ∀ c view, s.reader c = .opened view → view.Whole

/-- The invariant of a calm bring-up. -/
structure Kept (s : Boot) : Prop where
  threads : ∀ t, Thread.Ok s t
  single : ∀ t u, (s.thread t).point.Bringing → (s.thread u).point.Bringing → t = u
  common : Common s

section Steps

variable {s s' : Boot} {t : Nat}

/-- What a point other than those of a bring-up says, says it of a later state. -/
theorem Point.Ok.mono {point : Point} (h : point.Ok s t) (hpoint : ¬point.Bringing)
    (htried : s.tried = true → s'.tried = true) (hseg : s.seg = true → s'.seg = true)
    (hclaims : ∀ c ∈ claimsOf s.log, c ∈ claimsOf s'.log)
    (hmine : (s'.thread t).mine = (s.thread t).mine) : point.Ok s' t := by
  cases point with
  | idle => trivial
  | test => trivial
  | mark => exact (hpoint trivial).elim
  | env => exact (hpoint trivial).elim
  | openFile => exact (hpoint trivial).elim
  | truncate => exact (hpoint trivial).elim
  | map => exact (hpoint trivial).elim
  | init rest => exact (hpoint trivial).elim
  | setSeg mapped => exact (hpoint trivial).elim
  | load => exact htried h
  | again => exact hseg h
  | claim => exact hseg h
  | compare idx => exact ⟨hseg h.1, hclaims _ h.2⟩
  | start i => exact ⟨hseg h.1, hmine.trans h.2⟩
  | emit i pc => exact ⟨hseg h.1, hmine.trans h.2⟩

/-- A thread inside the bring-up: the segment is not mapped yet. -/
theorem Point.Ok.unmapped {point : Point} (h : point.Ok s t) (hpoint : point.Bringing)
    (hcommon : Common s) : s.seg = false := by
  cases point with
  | mark =>
      by_contra hseg
      have htried := hcommon.tried (by simpa using hseg)
      have huntried : s.tried = false := h
      rw [huntried] at htried
      contradiction
  | env => exact h.2.1
  | openFile => exact h.2.1
  | truncate => exact h.2.1
  | map => exact h.2.1
  | init rest => exact h.2.1
  | setSeg mapped => exact h.2.1
  | idle => exact hpoint.elim
  | test => exact hpoint.elim
  | load => exact hpoint.elim
  | again => exact hpoint.elim
  | claim => exact hpoint.elim
  | compare idx => exact hpoint.elim
  | start i => exact hpoint.elim
  | emit i pc => exact hpoint.elim

end Steps

section Log

variable {log first rest : List BootEvent} {done : List SegStore}

theorem claimsOf_append (first rest : List BootEvent) :
    claimsOf (first ++ rest) = claimsOf first ++ claimsOf rest :=
  List.filterMap_append

theorem claimsOf_stored (t : Nat) (done : List SegStore) :
    claimsOf (done.map (BootEvent.stored t)) = [] := by
  induction done with
  | nil => rfl
  | cons w rest ih => exact ih

/-- A count of stores over a bring-up and what follows it is a count over its stores. -/
theorem countP_bringUp {q : BootEvent → Bool} {t : Nat}
    (hdone : done <+: initStores) (hrest : ∀ event ∈ rest, event.isStore = false)
    (hq : ∀ event, q event = true → event.isStore = true) :
    (done.map (BootEvent.stored t) ++ rest).countP q ≤
      initStores.countP (q ∘ BootEvent.stored t) := by
  have hzero : rest.countP q = 0 := by
    apply List.countP_eq_zero.mpr
    intro event hevent hqe
    exact Bool.false_ne_true ((hrest event hevent).symm.trans (hq event hqe))
  rw [List.countP_append, hzero, Nat.add_zero, List.countP_map]
  exact hdone.sublist.countP_le

/-- After an event that is no store of a bring-up there is none. -/
theorem no_store_after {before after : List BootEvent} {e : BootEvent} {t : Nat}
    (hrest : ∀ event ∈ rest, event.isStore = false)
    (hlog : done.map (BootEvent.stored t) ++ rest = before ++ e :: after)
    (he : e.isStore = false) : ∀ event ∈ after, event.isStore = false := by
  intro event hevent
  rcases List.append_eq_append_iff.mp hlog with ⟨middle, -, hmiddle⟩ | ⟨middle, hmiddle, htail⟩
  · apply hrest
    rw [hmiddle]
    exact List.mem_append_right _ (List.mem_cons_of_mem _ hevent)
  · cases middle with
    | nil =>
        apply hrest
        rw [← List.nil_append rest, ← htail]
        exact List.mem_cons_of_mem _ hevent
    | cons x middle =>
        -- the event would be one of the stores
        obtain ⟨rfl, -⟩ := List.cons.inj htail
        have hmem : e ∈ done.map (BootEvent.stored t) := by
          rw [hmiddle]
          simp
        obtain ⟨w, -, rfl⟩ := List.mem_map.mp hmem
        exact (Bool.noConfusion he : False).elim

end Log

/-- The log of a process: stores of one bring-up, and then none. -/
theorem Common.log_eq {s : Boot} (h : Common s) : ∃ t done rest, done <+: initStores ∧
    s.log = done.map (BootEvent.stored t) ++ rest ∧ ∀ event ∈ rest, event.isStore = false := by
  cases hseg : s.seg with
  | false =>
      obtain ⟨done, hdone, t, hlog⟩ := h.unmapped hseg
      exact ⟨t, done, [], hdone, by rw [hlog, List.append_nil], fun _ he => (List.not_mem_nil he).elim⟩
  | true =>
      obtain ⟨first, rest, f, hlog, ⟨t, hfirst⟩, hrest, -⟩ := h.mapped hseg
      exact ⟨t, initStores, rest, List.prefix_rfl, by rw [hlog, hfirst], hrest⟩

/-- An index is claimed by one thread. -/
theorem Common.claim_unique {s : Boot} (h : Common s) {t u idx : Nat}
    (ht : (t, idx) ∈ claimsOf s.log) (hu : (u, idx) ∈ claimsOf s.log) : t = u := by
  have hnodup : ((claimsOf s.log).map Prod.snd).Nodup := by
    rw [h.claims]
    exact List.nodup_range
  exact congrArg Prod.fst (List.inj_on_of_nodup_map hnodup ht hu rfl)

set_option maxRecDepth 20000 in
theorem countP_reset (t : Nat) :
    initStores.countP (BootEvent.isReset ∘ BootEvent.stored t) = 1 := by
  have hthread : BootEvent.isReset ∘ BootEvent.stored t = BootEvent.isReset ∘ BootEvent.stored 0 := by
    funext w
    cases w <;> rfl
  rw [hthread]
  rfl

set_option maxRecDepth 20000 in
theorem countP_startsRing (t : Nat) (i : Fin 16) :
    initStores.countP (BootEvent.startsRing i ∘ BootEvent.stored t) = 1 := by
  have hthread : BootEvent.startsRing i ∘ BootEvent.stored t =
      BootEvent.startsRing i ∘ BootEvent.stored 0 := by
    funext w
    cases w with
    | ring j field v => cases field <;> cases v <;> rfl
    | _ => rfl
  rw [hthread]
  clear hthread
  revert i
  decide

/-- The invariant gives what a bring-up promises. -/
theorem Kept.sound {s : Boot} (h : Kept s) : Sound s := by
  obtain ⟨t, done, rest, hdone, hlog, hrest⟩ := h.common.log_eq
  refine ⟨?_, fun i => ?_, fun before after u idx hsplit => ?_, fun before after u i e hsplit => ?_,
    fun u v i hu hv => ?_, fun u v i hu hv => ?_, h.common.views⟩
  · rw [hlog, ← countP_reset t]
    apply countP_bringUp hdone hrest
    intro event hevent
    cases event with
    | stored u w => rfl
    | claimed u idx => contradiction
    | wrote u i => contradiction
    | accepted u i e => contradiction
  · rw [hlog, ← countP_startsRing t i]
    apply countP_bringUp hdone hrest
    intro event hevent
    cases event with
    | stored u w => rfl
    | claimed u idx => contradiction
    | wrote u i => contradiction
    | accepted u i e => contradiction
  · rw [hlog] at hsplit
    exact no_store_after hrest hsplit rfl
  · rw [hlog] at hsplit
    exact no_store_after hrest hsplit rfl
  · exact h.common.claim_unique ((h.threads u).mine i hu) ((h.threads v).mine i hv)
  · exact h.common.claim_unique (h.common.wrote u i hu) (h.common.wrote v i hv)

end Segment
end LiveSurface
