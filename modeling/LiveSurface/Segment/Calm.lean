import LiveSurface.Segment.Once

/-!
# Calm bring-ups

While no thread tests the flag between another thread's test and its store, one thread of a
process brings the segment up, and it has finished before any thread claims a ring.  While
no reader's open returns from a segment that carries the magic of one bring-up and stands in
the middle of another, what a reader opens was initialised as a whole.

Main results:

- Theorem {lit}`Kept.runThread`: every step of a thread in a calm run keeps the invariant.
- Theorem {lit}`calm_bringUp_sound`: a calm bring-up is sound.
- Theorem {lit}`two_threads_bring_up`: two first calls can bring the segment up twice.
-/

namespace LiveSurface
namespace Segment

open Ring

/-- The steps of a calm run: no thread tests the flag between another one's test and its
store, fewer than {lit}`2 ^ 32` threads have claimed a ring when one claims, and no reader's
open returns while the segment has an old magic and a bring-up has stored to its rings. -/
def Calm (s : Boot) : BootStep → Prop
  | .run t _ =>
      match (s.thread t).point with
      | .test => ∀ u, u ≠ t → (s.thread u).point ≠ .mark
      | .claim => (claimsOf s.log).length < 2 ^ 32
      | _ => True
  | .read c =>
      match s.reader c with
      | .stride => ∀ f, s.file = some f → ¬(s.unfinished = true ∧ f.magic = lsTpSegMagic)
      | _ => True
  | _ => True

section Steps

variable {s s' : Boot} {t : Nat}

/-! ## What a step leaves as it is -/

/-- A point says the same of a state that differs in what it does not mention. -/
theorem Point.Ok.same {point : Point} (h : point.Ok s t) (htried : s'.tried = s.tried)
    (hseg : s'.seg = s.seg) (hlog : s'.log = s.log) (hfile : s'.file = s.file)
    (hproc : s'.proc = s.proc) (hmine : (s'.thread t).mine = (s.thread t).mine) :
    point.Ok s' t := by
  cases point <;> simpa only [Point.Ok, htried, hseg, hlog, hfile, hproc, hmine] using h

/-- What holds of the process and the file does not mention the threads. -/
theorem Common.same (h : Common s) (htried : s'.tried = s.tried) (hseg : s'.seg = s.seg)
    (hlog : s'.log = s.log) (hfile : s'.file = s.file)
    (hunfinished : s'.unfinished = s.unfinished) (hreader : s'.reader = s.reader) :
    Common s' where
  tried := by
    rw [htried, hseg]
    exact h.tried
  untried := by
    rw [htried, hlog]
    exact h.untried
  unmapped := by
    rw [hseg, hlog]
    exact h.unmapped
  mapped := by
    rw [hseg, hlog, hfile]
    exact h.mapped
  claims := by
    rw [hlog]
    exact h.claims
  bound := by
    rw [hlog]
    exact h.bound
  wrote := by
    rw [hlog]
    exact h.wrote
  whole := by
    rw [hfile, hunfinished]
    exact h.whole
  reading := by
    rw [hreader, hfile]
    exact h.reading
  views := by
    rw [hreader]
    exact h.views

/-- Nobody is inside the bring-up of a mapped segment. -/
theorem Kept.quiet (h : Kept s) (hseg : s.seg = true) (u : Nat) :
    ¬(s.thread u).point.Bringing := by
  intro hpoint
  rw [(h.threads u).point.unmapped hpoint h.common] at hseg
  contradiction

/-- A step after which only one thread can be inside the bring-up. -/
theorem Kept.others (h : Kept s) (hothers : ∀ u, u ≠ t → ¬(s.thread u).point.Bringing)
    (hthread : ∀ u, u ≠ t → s'.thread u = s.thread u)
    (htried : s.tried = true → s'.tried = true) (hseg : s.seg = true → s'.seg = true)
    (hclaims : ∀ c ∈ claimsOf s.log, c ∈ claimsOf s'.log)
    (ht : Thread.Ok s' t) (hcommon : Common s') : Kept s' where
  threads u := by
    by_cases hu : u = t
    · subst hu
      exact ht
    · have hsame := hthread u hu
      refine ⟨?_, fun i hi => ?_⟩
      · rw [hsame]
        exact (h.threads u).point.mono (hothers u hu) htried hseg hclaims (by rw [hsame])
      · rw [hsame] at hi
        exact hclaims _ ((h.threads u).mine i hi)
  single u v hu hv := by
    have honly : ∀ w, (s'.thread w).point.Bringing → w = t := by
      intro w hw
      by_contra hne
      rw [hthread w hne] at hw
      exact hothers w hne hw
    rw [honly u hu, honly v hv]
  common := hcommon

/-- A thread outside the bring-up moves on. -/
theorem Kept.move (h : Kept s) {point : Point} {record : Emission} {mine : Option (Fin 16)}
    {tried : Bool} (hpoint : ¬point.Bringing)
    (hs' : s' = { s with thread := Function.update s.thread t ⟨point, record, mine, tried⟩ })
    (ht : point.Ok s' t) (hmine : ∀ i, mine = some i → (t, i.val) ∈ claimsOf s.log) :
    Kept s' := by
  subst hs'
  refine ⟨fun u => ?_, fun u v hu hv => ?_, h.common.same rfl rfl rfl rfl rfl rfl⟩
  · by_cases hu : u = t
    · subst hu
      refine ⟨?_, fun i hi => hmine i ?_⟩
      · simpa only [Function.update_self] using ht
      · simpa only [Function.update_self] using hi
    · have hsame : Function.update s.thread t ⟨point, record, mine, tried⟩ u = s.thread u :=
        Function.update_of_ne hu _ _
      refine ⟨?_, fun i hi => (h.threads u).mine i ?_⟩
      · change (Function.update s.thread t ⟨point, record, mine, tried⟩ u).point.Ok _ u
        rw [hsame]
        exact (h.threads u).point.same rfl rfl rfl rfl rfl (congrArg Thread.mine hsame)
      · exact (congrArg Thread.mine hsame).symm.trans hi
  · have hold : ∀ w, (Function.update s.thread t ⟨point, record, mine, tried⟩ w).point.Bringing →
        (s.thread w).point.Bringing := by
      intro w hw
      by_cases hne : w = t
      · subst hne
        rw [Function.update_self] at hw
        exact (hpoint hw).elim
      · rw [Function.update_of_ne hne] at hw
        exact hw
    exact h.single u v (hold u hu) (hold v hv)

/-- A thread outside the bring-up goes on. -/
theorem Kept.goto (h : Kept s) (point : Point) (hpoint : ¬point.Bringing)
    (ht : point.Ok (s.goto t point) t) : Kept (s.goto t point) :=
  h.move hpoint rfl ht (h.threads t).mine

/-- Where a thread stands after it went on. -/
theorem goto_self (s : Boot) (t : Nat) (point : Point) :
    (s.goto t point).thread t = { s.thread t with point } :=
  Function.update_self _ _ _

theorem goto_of_ne {u : Nat} (hu : u ≠ t) (point : Point) :
    (s.goto t point).thread u = s.thread u :=
  Function.update_of_ne hu _ _

/-- Nobody else is inside the bring-up. -/
theorem Kept.alone (h : Kept s) (ht : (s.thread t).point.Bringing) {u : Nat} (hu : u ≠ t) :
    ¬(s.thread u).point.Bringing := by
  intro hpoint
  exact hu (h.single u t hpoint ht)

/-- The thread that brings the segment up goes on, and nothing else changes. -/
theorem Kept.bring (h : Kept s) {point : Point} (ht : (s.thread t).point.Bringing)
    (hpoint : point.Ok (s.goto t point) t) : Kept (s.goto t point) := by
  refine h.others (fun u hu => h.alone ht hu) (fun u hu => goto_of_ne hu point) id id
    (fun c hc => hc) ⟨?_, fun i hi => ?_⟩ (h.common.same rfl rfl rfl rfl rfl rfl)
  · rw [goto_self]
    exact hpoint
  · rw [goto_self] at hi
    exact (h.threads t).mine i hi

/-! ## The bring-up -/

/-- The thread sets the flag. -/
theorem Kept.mark (h : Kept s) (hpoint : (s.thread t).point = .mark) :
    Kept (let s := s.goto t .env; { s with tried := true }) := by
  have hbringing : (s.thread t).point.Bringing := by
    rw [hpoint]
    trivial
  have huntried : s.tried = false := by
    have hok := (h.threads t).point
    rw [hpoint] at hok
    exact hok
  have hunmapped := (h.threads t).point.unmapped hbringing h.common
  refine h.others (fun u hu => h.alone hbringing hu) (fun u hu => goto_of_ne hu .env)
    (fun _ => rfl) id (fun c hc => hc) ⟨?_, fun i hi => ?_⟩ ?_
  · change ((s.goto t .env).thread t).point.Ok _ t
    rw [goto_self]
    exact ⟨rfl, hunmapped, h.common.untried huntried⟩
  · apply (h.threads t).mine i
    exact (congrArg Thread.mine (goto_self s t .env)).symm.trans hi
  · let hc := h.common
    exact { hc with
      tried := fun _ => rfl
      untried := fun htried => (Bool.noConfusion htried : False).elim }

/-- The thread opens the file, and creates it when there is none. -/
theorem Kept.openFile (h : Kept s) (hpoint : (s.thread t).point = .openFile) :
    Kept (let s := s.goto t .truncate; { s with file := some (s.file.getD .zero) }) := by
  have hbringing : (s.thread t).point.Bringing := by
    rw [hpoint]
    trivial
  have hok : s.tried = true ∧ s.seg = false ∧ s.log = [] := by
    have hok := (h.threads t).point
    rw [hpoint] at hok
    exact hok
  refine h.others (fun u hu => h.alone hbringing hu) (fun u hu => goto_of_ne hu .truncate)
    id id (fun c hc => hc) ⟨?_, fun i hi => ?_⟩ ?_
  · change ((s.goto t .truncate).thread t).point.Ok _ t
    rw [goto_self]
    exact ⟨hok.1, hok.2.1, hok.2.2, _, rfl⟩
  · apply (h.threads t).mine i
    exact (congrArg Thread.mine (goto_self s t .truncate)).symm.trans hi
  · let hc := h.common
    exact { hc with
      mapped := fun hseg => by
        rw [show s.seg = true from hseg] at hok
        exact (Bool.noConfusion hok.2.1 : False).elim
      whole := fun f hf hmagic hfinished => by
        obtain rfl := Option.some.inj hf
        cases hfile : s.file with
        | some g =>
            have hget : s.file.getD .zero = g := by
              rw [hfile]
              rfl
            have hmagic : (s.file.getD .zero).magic = lsTpSegMagic := hmagic
            change (s.file.getD .zero).Whole
            rw [hget] at hmagic ⊢
            exact hc.whole g hfile hmagic hfinished
        | none =>
            have hmagic : (s.file.getD .zero).magic = lsTpSegMagic := hmagic
            rw [hfile] at hmagic
            exact absurd hmagic (by decide)
      reading := fun c hreading => by
        obtain ⟨f, hfile, hmagic⟩ := hc.reading c hreading
        have hget : s.file.getD .zero = f := by
          rw [hfile]
          rfl
        exact ⟨f, congrArg some hget, hmagic⟩ }

/-- The magic is the last store. -/
theorem rest_of_magic {done rest : List SegStore} (h : done ++ .magic :: rest = initStores) :
    rest = [] := by
  cases rest with
  | nil => rfl
  | cons w rest =>
      have hmem : SegStore.magic ∈ initStores.dropLast := by
        rw [← h, List.dropLast_append_cons, List.dropLast_cons_cons]
        simp
      exact absurd hmem (by decide +kernel)

/-- A store keeps the magic. -/
theorem magic_store {p : Nat} {f : SegFile} (hf : f.magic = lsTpSegMagic) (w : SegStore) :
    (f.store p w).magic = lsTpSegMagic := by
  cases w with
  | magic => rfl
  | _ => exact hf

/-- The thread makes the next store of the bring-up. -/
theorem Kept.store (h : Kept s) {w : SegStore} {rest : List SegStore} {f : SegFile}
    (hpoint : (s.thread t).point = .init (w :: rest)) (hf : s.file = some f) :
    Kept (let s := s.goto t (.init rest)
      { s with
        file := some (f.store s.proc w)
        unfinished := w.unfinished s.unfinished
        log := s.log ++ [.stored t w] }) := by
  have hbringing : (s.thread t).point.Bringing := by
    rw [hpoint]
    trivial
  have hok := (h.threads t).point
  rw [hpoint] at hok
  obtain ⟨htried, hseg, done, old, hdone, hlog, hfile⟩ := hok
  rw [hf] at hfile
  have hfile := Option.some.inj hfile
  have hnext : (done ++ [w]) ++ rest = initStores := by
    rw [← hdone, List.append_assoc]
    rfl
  have hlog' : s.log ++ [.stored t w] = (done ++ [w]).map (BootEvent.stored t) := by
    rw [hlog, List.map_append]
    rfl
  have hclaims : claimsOf (s.log ++ [.stored t w]) = claimsOf s.log := by
    rw [hlog', hlog, claimsOf_stored, claimsOf_stored]
  have hstore : f.store s.proc w = (done ++ [w]).foldl (SegFile.store s.proc) old := by
    rw [List.foldl_append, ← hfile]
    rfl
  refine h.others (fun u hu => h.alone hbringing hu) (fun u hu => goto_of_ne hu (.init rest))
    id id (fun c hc => hclaims.symm ▸ hc) ⟨?_, fun i hi => ?_⟩ ?_
  · change ((s.goto t (.init rest)).thread t).point.Ok _ t
    rw [goto_self]
    exact ⟨htried, hseg, done ++ [w], old, hnext, hlog', congrArg some hstore⟩
  · have hmine := (h.threads t).mine i
      ((congrArg Thread.mine (goto_self s t (.init rest))).symm.trans hi)
    exact hclaims.symm ▸ hmine
  · have hc := h.common
    refine ⟨fun _ => htried, fun huntried => ?_, fun _ => ?_, fun hmapped => ?_, ?_, ?_,
      fun u i hwrote => ?_, fun g hg hmagic hfinished => ?_, fun c hreading => ?_, hc.views⟩
    · exact absurd (htried.symm.trans huntried) (by decide)
    · exact ⟨done ++ [w], ⟨rest, hnext⟩, t, hlog'⟩
    · exact absurd (hseg.symm.trans hmapped) (by decide)
    · exact hclaims.symm ▸ hc.claims
    · exact hclaims.symm ▸ hc.bound
    · have hwrote : BootEvent.wrote u i ∈ s.log := by
        rcases List.mem_append.mp hwrote with hwrote | hwrote
        · exact hwrote
        · exact (BootEvent.noConfusion (List.mem_singleton.mp hwrote) : False).elim
      exact hclaims.symm ▸ hc.wrote u i hwrote
    · obtain rfl := Option.some.inj hg
      cases w with
      | ring i field v => exact (Bool.noConfusion hfinished : False).elim
      | magic =>
          -- the last store ends the bring-up
          have hrest := rest_of_magic hdone
          subst hrest
          rw [List.append_nil] at hnext
          change (f.store s.proc .magic).Whole
          rw [hstore, hnext]
          exact (foldl_initStores s.proc old).1
      | version | nRings | ringStride | ringDataSize | claimed =>
          exact hc.whole f hf hmagic hfinished
    · obtain ⟨g, hg, hmagic⟩ := hc.reading c hreading
      rw [hf] at hg
      obtain rfl := Option.some.inj hg
      exact ⟨_, rfl, magic_store hmagic w⟩

/-- The thread publishes its mapping to the process, or its failure. -/
theorem Kept.setSeg (h : Kept s) {mapped : Bool}
    (hpoint : (s.thread t).point = .setSeg mapped) :
    Kept (let s := s.goto t .load; { s with seg := mapped }) := by
  have hbringing : (s.thread t).point.Bringing := by
    rw [hpoint]
    trivial
  have hok := (h.threads t).point
  rw [hpoint] at hok
  obtain ⟨htried, hseg, hmapped⟩ := hok
  have hc := h.common
  refine h.others (fun u hu => h.alone hbringing hu) (fun u hu => goto_of_ne hu .load)
    id (fun hold => ?_) (fun c hc => hc) ⟨?_, fun i hi => ?_⟩ ?_
  · exact absurd (hseg.symm.trans hold) (by decide)
  · change ((s.goto t .load).thread t).point.Ok _ t
    rw [goto_self]
    exact htried
  · apply (h.threads t).mine i
    exact (congrArg Thread.mine (goto_self s t .load)).symm.trans hi
  · cases mapped with
    | false => exact { hc with
        tried := fun _ => htried
        unmapped := fun _ => hc.unmapped hseg
        mapped := fun hfalse => (Bool.noConfusion hfalse : False).elim }
    | true =>
        obtain ⟨hlog, f, hfile, hready⟩ := hmapped
        have hclaims : claimsOf s.log = [] := by
          rw [hlog, claimsOf_stored]
        exact { hc with
          tried := fun _ => htried
          unmapped := fun hfalse => (Bool.noConfusion hfalse : False).elim
          mapped := fun _ => by
            refine ⟨s.log, [], f, (List.append_nil _).symm, ⟨t, hlog⟩,
              fun _ he => (List.not_mem_nil he).elim, hfile, ?_⟩
            change f.Ready (claimsOf s.log).length
            rw [hclaims]
            exact hready }

/-! ## The rings -/

/-- A thread counts itself in. -/
theorem Kept.claim (h : Kept s) {f : SegFile} (hpoint : (s.thread t).point = .claim)
    (hf : s.file = some f) (hcalm : (claimsOf s.log).length < 2 ^ 32) :
    Kept (let s := s.goto t (.compare f.claimed)
      { s with
        file := some { f with claimed := (f.claimed + 1) % 2 ^ 32 }
        log := s.log ++ [.claimed t f.claimed] }) := by
  have hseg : s.seg = true := by
    have hok := (h.threads t).point
    rw [hpoint] at hok
    exact hok
  have hc := h.common
  obtain ⟨first, rest, g, hlog, hfirst, hrest, hg, hready⟩ := hc.mapped hseg
  rw [hf] at hg
  obtain rfl := Option.some.inj hg
  have hcount : f.claimed = (claimsOf s.log).length := by
    rw [hready.claimed, Nat.mod_eq_of_lt hcalm]
  have hclaims : claimsOf (s.log ++ [.claimed t f.claimed]) =
      claimsOf s.log ++ [(t, f.claimed)] := claimsOf_append _ _
  have hmono : ∀ c ∈ claimsOf s.log, c ∈ claimsOf (s.log ++ [.claimed t f.claimed]) := by
    intro c hc
    rw [hclaims]
    exact List.mem_append_left _ hc
  have hlength : (claimsOf (s.log ++ [.claimed t f.claimed])).length =
      (claimsOf s.log).length + 1 := by
    rw [hclaims, List.length_append, List.length_singleton]
  refine h.others (fun u _ => h.quiet hseg u) (fun u hu => goto_of_ne hu (.compare f.claimed))
    id id hmono ⟨?_, fun i hi => ?_⟩ ?_
  · change ((s.goto t (.compare f.claimed)).thread t).point.Ok _ t
    rw [goto_self]
    refine ⟨hseg, ?_⟩
    change _ ∈ claimsOf (s.log ++ [.claimed t f.claimed])
    rw [hclaims]
    exact List.mem_append_right _ (List.mem_singleton_self _)
  · exact hmono _ ((h.threads t).mine i
      ((congrArg Thread.mine (goto_self s t (.compare f.claimed))).symm.trans hi))
  · refine ⟨fun _ => hc.tried hseg, fun huntried => ?_, fun hunmapped => ?_, fun _ => ?_, ?_,
      ?_, fun u i hwrote => ?_, fun g hg hmagic hfinished => ?_, fun c hreading => ?_, hc.views⟩
    · exact absurd ((hc.tried hseg).symm.trans huntried) (by decide)
    · exact absurd (hseg.symm.trans hunmapped) (by decide)
    · refine ⟨first, rest ++ [.claimed t f.claimed], _, ?_, hfirst, fun event hevent => ?_, rfl,
        hready.nRings, ?_⟩
      · rw [← List.append_assoc, ← hlog]
        rfl
      · rcases List.mem_append.mp hevent with hevent | hevent
        · exact hrest event hevent
        · rw [List.mem_singleton.mp hevent]
          rfl
      · change (f.claimed + 1) % 2 ^ 32 =
          (claimsOf (s.log ++ [.claimed t f.claimed])).length % 2 ^ 32
        rw [hlength, hcount]
    · change (claimsOf (s.log ++ [.claimed t f.claimed])).map Prod.snd =
        List.range (claimsOf (s.log ++ [.claimed t f.claimed])).length
      rw [hlength, hclaims, List.map_append, hc.claims, List.range_succ, ← hcount]
      rfl
    · change (claimsOf (s.log ++ [.claimed t f.claimed])).length ≤ 2 ^ 32
      rw [hlength]
      exact hcalm
    · have hwrote : BootEvent.wrote u i ∈ s.log := by
        rcases List.mem_append.mp hwrote with hwrote | hwrote
        · exact hwrote
        · exact (BootEvent.noConfusion (List.mem_singleton.mp hwrote) : False).elim
      exact hmono _ (hc.wrote u i hwrote)
    · obtain rfl := Option.some.inj hg
      exact hc.whole f hf hmagic hfinished
    · obtain ⟨g, hg, hmagic⟩ := hc.reading c hreading
      rw [hf] at hg
      obtain rfl := Option.some.inj hg
      exact ⟨_, rfl, hmagic⟩

/-- The producer's steps leave the shape of a ring as it is. -/
theorem producerStep_shape {c d : Core} (h : producerStep c = some d) :
    d.ring.policy = c.ring.policy ∧ d.ring.dataSize = c.ring.dataSize := by
  unfold producerStep at h
  split at h
  case h_1 => exact (Option.some_ne_none _ h.symm).elim
  case h_6 =>
    dsimp only at h
    split at h
    · obtain rfl := Option.some.inj h
      exact ⟨rfl, rfl⟩
    · obtain rfl := Option.some.inj h
      exact ⟨rfl, rfl⟩
  all_goals
    obtain rfl := Option.some.inj h
    exact ⟨rfl, rfl⟩

/-- A thread writes its ring. -/
theorem Kept.emitted (h : Kept s) {i : Fin 16} {pc : ProducerPc} {f : SegFile} {c : Core}
    (hpoint : (s.thread t).point = .emit i pc) (hf : s.file = some f)
    (hstep : producerStep ⟨(f.ring i).body, pc, []⟩ = some c) : Kept (s.emitted t i f c) := by
  obtain ⟨hseg, hmine⟩ : s.seg = true ∧ (s.thread t).mine = some i := by
    have hok := (h.threads t).point
    rw [hpoint] at hok
    exact hok
  have hc := h.common
  obtain ⟨first, rest, g, hlog, hfirst, hrest, hg, hready⟩ := hc.mapped hseg
  rw [hf] at hg
  obtain rfl := Option.some.inj hg
  generalize hevents : [BootEvent.wrote t i] ++ c.accepted.map (fun e => BootEvent.accepted t i e)
    = events
  have hlog' : (s.emitted t i f c).log = s.log ++ events := by
    rw [← hevents, ← List.append_assoc]
    rfl
  have hstores : ∀ event ∈ events, event.isStore = false := by
    intro event hevent
    rw [← hevents] at hevent
    rcases List.mem_append.mp hevent with hevent | hevent
    · rw [List.mem_singleton.mp hevent]
      rfl
    · obtain ⟨e, -, rfl⟩ := List.mem_map.mp hevent
      rfl
  have hnone : claimsOf events = [] := by
    rw [← hevents, claimsOf_append]
    change claimsOf (c.accepted.map fun e => BootEvent.accepted t i e) = []
    induction c.accepted with
    | nil => rfl
    | cons e rest ih => exact ih
  have hclaims : claimsOf (s.emitted t i f c).log = claimsOf s.log := by
    rw [hlog', claimsOf_append, hnone, List.append_nil]
  have hthread : ∀ u, u ≠ t → (s.emitted t i f c).thread u = s.thread u :=
    fun u hu => goto_of_ne hu _
  have hself : (s.emitted t i f c).thread t =
      { s.thread t with point := if c.producer = .idle then .idle else .emit i c.producer } :=
    goto_self s t _
  have hfile : (s.emitted t i f c).file =
      some { f with ring := Function.update f.ring i { f.ring i with body := c.ring } } := rfl
  refine h.others (fun u _ => h.quiet hseg u) hthread id id (fun c hc => hclaims.symm ▸ hc)
    ⟨?_, fun j hj => ?_⟩ ?_
  · rw [hself]
    change (if c.producer = .idle then Point.idle else .emit i c.producer).Ok _ t
    split
    · trivial
    · refine ⟨hseg, ?_⟩
      rw [hself]
      exact hmine
  · rw [hself] at hj
    exact hclaims.symm ▸ (h.threads t).mine j hj
  · refine ⟨fun _ => hc.tried hseg, fun huntried => ?_, fun hunmapped => ?_, fun _ => ?_, ?_,
      ?_, fun u j hwrote => ?_, fun g hg hmagic hfinished j => ?_, fun c hreading => ?_, hc.views⟩
    · exact absurd ((hc.tried hseg).symm.trans huntried) (by decide)
    · exact absurd (hseg.symm.trans hunmapped) (by decide)
    · refine ⟨first, rest ++ events, _, ?_, hfirst, fun event hevent => ?_, hfile,
        hready.nRings, ?_⟩
      · rw [hlog', hlog, List.append_assoc]
      · rcases List.mem_append.mp hevent with hevent | hevent
        · exact hrest event hevent
        · exact hstores event hevent
      · rw [hclaims]
        exact hready.claimed
    · rw [hclaims]
      exact hc.claims
    · rw [hclaims]
      exact hc.bound
    · rw [hclaims]
      rw [hlog'] at hwrote
      rcases List.mem_append.mp hwrote with hwrote | hwrote
      · exact hc.wrote u j hwrote
      · rw [← hevents] at hwrote
        rcases List.mem_append.mp hwrote with hwrote | hwrote
        · obtain ⟨rfl, rfl⟩ := BootEvent.wrote.inj (List.mem_singleton.mp hwrote)
          exact (h.threads u).mine j hmine
        · obtain ⟨e, -, he⟩ := List.mem_map.mp hwrote
          exact (BootEvent.noConfusion he : False).elim
    · rw [hfile] at hg
      obtain rfl := Option.some.inj hg
      have hby := hc.whole f hf hmagic hfinished j
      by_cases hj : j = i
      · subst hj
        obtain ⟨hpolicy, hsize⟩ := producerStep_shape hstep
        simp only [Function.update_self]
        exact ⟨hby.magic, hby.version, hpolicy.trans hby.policy, hsize.trans hby.dataSize,
          hby.author⟩
      · simp only [Function.update_of_ne hj]
        exact hby
    · obtain ⟨g, hg, hmagic⟩ := hc.reading c hreading
      rw [hf] at hg
      obtain rfl := Option.some.inj hg
      exact ⟨_, hfile, hmagic⟩

/-- A thread that claimed an index takes the ring there. -/
theorem Kept.compare (h : Kept s) {idx : Nat} {f : SegFile}
    (hpoint : (s.thread t).point = .compare idx) (hidx : idx < f.nRings ∧ idx < 16) :
    Kept { s with
      thread := Function.update s.thread t
        { s.thread t with point := .start ⟨idx, hidx.2⟩, mine := some ⟨idx, hidx.2⟩ } } := by
  have hok := (h.threads t).point
  rw [hpoint] at hok
  have houtside : ¬(Point.start ⟨idx, hidx.2⟩).Bringing := fun hb => hb
  refine h.move houtside rfl ⟨hok.1, ?_⟩ ?_
  · simp only [Function.update_self]
  · intro i hi
    obtain rfl := Option.some.inj hi
    exact hok.2

/-- A thread that sees the segment looks for its ring. -/
theorem Kept.myRing (h : Kept s) (hseg : s.seg = true) : Kept (s.myRing t) := by
  cases hmine : (s.thread t).mine with
  | some i =>
      simp only [Boot.myRing, hmine]
      refine h.goto (.start i) (fun hb => hb) ⟨hseg, ?_⟩
      rw [goto_self]
      exact hmine
  | none =>
      simp only [Boot.myRing, hmine]
      split
      · exact h.goto .idle (fun hb => hb) trivial
      · have houtside : ¬Point.claim.Bringing := fun hb => hb
        refine h.move houtside rfl hseg fun i hi => ?_
        exact (Option.some_ne_none _ hi.symm).elim

/-- A thread starts or leaves out the record it publishes. -/
theorem Kept.start (h : Kept s) {i : Fin 16} (hpoint : (s.thread t).point = .start i)
    (pc : ProducerPc) : Kept (s.goto t (if pc = .idle then .idle else .emit i pc)) := by
  have hok := (h.threads t).point
  rw [hpoint] at hok
  split
  · exact h.goto .idle (fun hb => hb) trivial
  · refine h.goto (.emit i pc) (fun hb => hb) ⟨hok.1, ?_⟩
    rw [goto_self]
    exact hok.2

/-- A thread tests the flag, and nobody else is between its test and its store. -/
theorem Kept.test (h : Kept s) (hcalm : ∀ u, u ≠ t → (s.thread u).point ≠ .mark) :
    Kept (s.goto t (if s.tried then .load else .mark)) := by
  cases htried : s.tried with
  | true =>
      exact h.goto .load (fun hb => hb) htried
  | false =>
      have hothers : ∀ u, u ≠ t → ¬(s.thread u).point.Bringing := by
        intro u hu hbringing
        have hok := (h.threads u).point
        cases hpoint : (s.thread u).point with
        | mark => exact hcalm u hu hpoint
        | env | openFile | truncate | map | init rest | setSeg mapped =>
            rw [hpoint] at hok
            exact absurd (htried.symm.trans hok.1) (by decide)
        | idle | test | load | again | claim | compare idx | start i | emit i pc =>
            rw [hpoint] at hbringing
            exact hbringing
      refine h.others hothers (fun u hu => goto_of_ne hu .mark) id id (fun c hc => hc)
        ⟨?_, fun i hi => ?_⟩ (h.common.same rfl rfl rfl rfl rfl rfl)
      · change ((s.goto t .mark).thread t).point.Ok _ t
        rw [goto_self]
        exact htried
      · apply (h.threads t).mine i
        exact (congrArg Thread.mine (goto_self s t .mark)).symm.trans hi

/-- Every step of a thread in a calm run keeps the invariant. -/
theorem Kept.runThread (h : Kept s) {ok : Bool} (hcalm : Calm s (.run t ok))
    (hstep : s.runThread t ok = some s') : Kept s' := by
  have hok := (h.threads t).point
  have hbring : ∀ {point : Point}, (s.thread t).point.Bringing →
      point.Ok (s.goto t point) t → Kept (s.goto t point) := fun hb hp => h.bring hb hp
  unfold Boot.runThread at hstep
  cases hpoint : (s.thread t).point with
  | idle =>
      rw [hpoint] at hstep
      exact (Option.some_ne_none _ hstep.symm).elim
  | test =>
      rw [hpoint] at hstep
      obtain rfl := Option.some.inj hstep
      simp only [Calm, hpoint] at hcalm
      exact h.test hcalm
  | mark =>
      rw [hpoint] at hstep
      obtain rfl := Option.some.inj hstep
      exact h.mark hpoint
  | env =>
      rw [hpoint] at hstep hok hbring
      obtain rfl := Option.some.inj hstep
      cases ok with
      | true => exact hbring trivial hok
      | false => exact hbring trivial hok.1
  | openFile =>
      rw [hpoint] at hstep hok hbring
      cases ok with
      | true =>
          obtain rfl := Option.some.inj hstep
          exact h.openFile hpoint
      | false =>
          obtain rfl := Option.some.inj hstep
          exact hbring trivial hok
  | truncate =>
      rw [hpoint] at hstep hok hbring
      obtain rfl := Option.some.inj hstep
      cases ok with
      | true => exact hbring trivial hok
      | false => exact hbring trivial ⟨hok.1, hok.2.1, hok.2.2.1⟩
  | map =>
      rw [hpoint] at hstep hok hbring
      obtain rfl := Option.some.inj hstep
      cases ok with
      | true =>
          obtain ⟨htried, hseg, hlog, f, hfile⟩ := hok
          exact hbring trivial ⟨htried, hseg, [], f, rfl, hlog, hfile⟩
      | false => exact hbring trivial ⟨hok.1, hok.2.1, hok.2.2.1⟩
  | init rest =>
      rw [hpoint] at hstep hok hbring
      cases rest with
      | nil =>
          obtain rfl := Option.some.inj hstep
          obtain ⟨htried, hseg, done, f, hdone, hlog, hfile⟩ := hok
          rw [List.append_nil] at hdone
          obtain ⟨-, hrings, hclaimed⟩ := foldl_initStores s.proc f
          refine hbring trivial ⟨htried, hseg, ?_⟩
          rw [if_pos rfl, ← hdone]
          refine ⟨hlog, _, hfile, ?_, ?_⟩
          · rw [hdone]
            exact hrings
          · rw [hdone]
            exact hclaimed
      | cons w rest =>
          obtain ⟨f, hf, rfl⟩ := Option.map_eq_some_iff.mp hstep
          exact h.store hpoint hf
  | setSeg mapped =>
      rw [hpoint] at hstep
      obtain rfl := Option.some.inj hstep
      exact h.setSeg hpoint
  | load =>
      rw [hpoint] at hstep
      obtain rfl := Option.some.inj hstep
      split
      case isTrue hseg => exact h.goto .again (fun hb => hb) hseg.1
      case isFalse => exact h.goto .idle (fun hb => hb) trivial
  | again =>
      rw [hpoint] at hstep hok
      obtain rfl := Option.some.inj hstep
      exact h.myRing hok
  | claim =>
      rw [hpoint] at hstep
      obtain ⟨f, hf, rfl⟩ := Option.map_eq_some_iff.mp hstep
      simp only [Calm, hpoint] at hcalm
      exact h.claim hpoint hf hcalm
  | compare idx =>
      rw [hpoint] at hstep
      obtain ⟨f, hf, rfl⟩ := Option.map_eq_some_iff.mp hstep
      split
      case isTrue hidx => exact h.compare hpoint hidx
      case isFalse => exact h.goto .idle (fun hb => hb) trivial
  | start i =>
      rw [hpoint] at hstep
      obtain ⟨f, hf, hstep⟩ := Option.bind_eq_some_iff.mp hstep
      obtain ⟨c, hc, rfl⟩ := Option.map_eq_some_iff.mp hstep
      exact h.start hpoint c.producer
  | emit i pc =>
      rw [hpoint] at hstep
      obtain ⟨f, hf, hstep⟩ := Option.bind_eq_some_iff.mp hstep
      obtain ⟨c, hc, rfl⟩ := Option.map_eq_some_iff.mp hstep
      exact h.emitted hpoint hf hc

/-! ## Readers and processes -/

/-- A step of a reader changes nothing of the process. -/
theorem Kept.see (h : Kept s) {c : Nat} {reader : Reader}
    (hreading : reader = .version ∨ reader = .stride →
      ∃ f, s.file = some f ∧ f.magic = lsTpSegMagic)
    (hview : ∀ view, reader = .opened view → view.Whole) : Kept (s.see c reader) where
  threads u := ⟨(h.threads u).point.same rfl rfl rfl rfl rfl rfl, (h.threads u).mine⟩
  single := h.single
  common := by
    let hc := h.common
    exact { hc with
      reading := fun d hd => by
        simp only [Boot.see, Function.update_apply] at hd
        split at hd
        · exact hreading hd
        · exact hc.reading d hd
      views := fun d view hd => by
        simp only [Boot.see, Function.update_apply] at hd
        split at hd
        · exact hview view hd
        · exact hc.views d view hd }

/-- A reader of a calm run opens a whole segment, if it opens one. -/
theorem Kept.readFile (h : Kept s) {c : Nat}
    (hcalm : Calm s (.read c)) (hstep : s.readFile c = some s') : Kept s' := by
  obtain ⟨f, hf, hstep⟩ := Option.bind_eq_some_iff.mp hstep
  cases hreader : s.reader c with
  | magic =>
      rw [hreader] at hstep
      obtain rfl := Option.some.inj hstep
      split
      case isTrue hmagic => exact h.see (fun _ => ⟨f, hf, hmagic⟩) (fun _ hv => nomatch hv)
      case isFalse =>
        exact h.see (fun hr => (by simp at hr)) (fun _ hv => nomatch hv)
  | version =>
      rw [hreader] at hstep
      obtain rfl := Option.some.inj hstep
      have hseen := h.common.reading c (Or.inl hreader)
      split
      case isTrue => exact h.see (fun _ => hseen) (fun _ hv => nomatch hv)
      case isFalse => exact h.see (fun _ => hseen) (fun _ hv => nomatch hv)
  | stride =>
      rw [hreader] at hstep
      obtain rfl := Option.some.inj hstep
      have hseen := h.common.reading c (Or.inr hreader)
      split
      case isFalse => exact h.see (fun _ => hseen) (fun _ hv => nomatch hv)
      case isTrue =>
        refine h.see (fun _ => hseen) fun view hview => ?_
        obtain rfl := Reader.opened.inj hview
        obtain ⟨g, hg, hmagic⟩ := hseen
        rw [hf] at hg
        obtain rfl := Option.some.inj hg
        -- the magic is the one of the bring-up that finished last
        have hfinished : s.unfinished = false := by
          simp only [Calm, hreader] at hcalm
          simpa [hmagic] using hcalm f hf
        exact h.common.whole f hf hmagic hfinished
  | idle | failed | opened view =>
      rw [hreader] at hstep
      exact (Option.some_ne_none _ hstep.symm).elim

/-- The next process starts from the file that this one leaves. -/
theorem Kept.restart (h : Kept s) : Kept { s with
    proc := s.proc + 1
    tried := false
    seg := false
    thread := fun _ => .fresh
    log := [] } where
  threads u := ⟨trivial, fun i hi => (Option.some_ne_none _ hi.symm).elim⟩
  single u v hu _ := hu.elim
  common := by
    let hc := h.common
    exact { hc with
      tried := fun hseg => (Bool.noConfusion hseg : False).elim
      untried := fun _ => rfl
      unmapped := fun _ => ⟨[], List.nil_prefix, 0, rfl⟩
      mapped := fun hseg => (Bool.noConfusion hseg : False).elim
      claims := rfl
      bound := Nat.zero_le _
      wrote := fun t i hmem => (List.not_mem_nil hmem).elim }

/-- Every step of a calm run keeps the invariant. -/
theorem Kept.step (h : Kept s) {a : BootStep} (hcalm : Calm s a) (hstep : bringUp.next s a = some s') :
    Kept s' := by
  cases a with
  | call t e =>
      simp only [bringUp, Boot.next] at hstep
      split at hstep
      · obtain rfl := Option.some.inj hstep
        have houtside : ¬Point.test.Bringing := fun hb => hb
        exact h.move houtside rfl trivial (h.threads t).mine
      · exact (Option.some_ne_none _ hstep.symm).elim
  | run t ok => exact h.runThread hcalm hstep
  | openReader c =>
      have hopened : ∀ r, s.file.isSome = r →
          Kept (s.see c (if r then .magic else .failed)) := by
        intro r _
        split
        · exact h.see (fun hr => (by simp at hr)) (fun _ hv => nomatch hv)
        · exact h.see (fun hr => (by simp at hr)) (fun _ hv => nomatch hv)
      simp only [bringUp, Boot.next] at hstep
      split at hstep
      case h_4 => exact (Option.some_ne_none _ hstep.symm).elim
      all_goals
        obtain rfl := Option.some.inj hstep
        exact hopened _ rfl
  | read c => exact h.readFile hcalm hstep
  | restart =>
      obtain rfl := Option.some.inj hstep
      exact h.restart

end Steps

/-- At first nothing has happened. -/
theorem kept_init {s : Boot} (h : bringUp.init s) : Kept s := by
  obtain ⟨htried, hseg, hthread, hmagic, hunfinished, hreader, hlog⟩ := h
  refine ⟨fun t => ⟨?_, fun i hi => ?_⟩, fun t u ht => ?_, ?_⟩
  · rw [hthread]
    trivial
  · rw [hthread] at hi
    exact (Option.some_ne_none _ hi.symm).elim
  · rw [hthread] at ht
    exact ht.elim
  · refine ⟨fun hs => ?_, fun _ => hlog, fun _ => ?_, fun hs => ?_, ?_, ?_, fun t i hmem => ?_,
      fun f hf hm => ?_, fun c hc => ?_, fun c view hc => ?_⟩
    · exact absurd (hseg.symm.trans hs) (by decide)
    · exact ⟨[], List.nil_prefix, 0, hlog⟩
    · exact absurd (hseg.symm.trans hs) (by decide)
    · rw [hlog]
      rfl
    · rw [hlog]
      exact Nat.zero_le _
    · rw [hlog] at hmem
      exact (List.not_mem_nil hmem).elim
    · exact (hmagic f hf hm).elim
    · rw [hreader] at hc
      simp at hc
    · rw [hreader] at hc
      simp at hc

/-- A calm bring-up initialises the segment once, before any thread claims a ring, and its
readers see it as a whole. -/
theorem calm_bringUp_sound : ∀ s, bringUp.ReachableWhen Calm s → Sound s := by
  intro s hs
  have hkept : Kept s := by
    apply Machine.ReachableWhen.invariant (fun s => kept_init) ?_ s hs
    intro s a s' _ hkept hcalm hstep
    exact hkept.step hcalm hstep
  exact hkept.sound

/-! ## One thread -/

/-- A thread's step leaves the other threads where they are. -/
theorem runThread_of_ne {s s' : Boot} {t u : Nat} {ok : Bool} (hu : u ≠ t)
    (hstep : s.runThread t ok = some s') : s'.thread u = s.thread u := by
  have hupdate : ∀ th, Function.update s.thread t th u = s.thread u :=
    fun th => Function.update_of_ne hu th s.thread
  unfold Boot.runThread at hstep
  cases hpoint : (s.thread t).point with
  | idle =>
      rw [hpoint] at hstep
      exact (Option.some_ne_none _ hstep.symm).elim
  | test | mark | env | truncate | map | setSeg mapped | load =>
      rw [hpoint] at hstep
      obtain rfl := Option.some.inj hstep
      exact hupdate _
  | openFile =>
      rw [hpoint] at hstep
      cases ok <;>
      · obtain rfl := Option.some.inj hstep
        exact hupdate _
  | init rest =>
      rw [hpoint] at hstep
      cases rest with
      | nil =>
          obtain rfl := Option.some.inj hstep
          exact hupdate _
      | cons w rest =>
          obtain ⟨f, hf, rfl⟩ := Option.map_eq_some_iff.mp hstep
          exact hupdate _
  | again =>
      rw [hpoint] at hstep
      obtain rfl := Option.some.inj hstep
      unfold Boot.myRing
      dsimp only
      split
      · exact hupdate _
      · split
        · exact hupdate _
        · exact hupdate _
  | claim =>
      rw [hpoint] at hstep
      obtain ⟨f, hf, rfl⟩ := Option.map_eq_some_iff.mp hstep
      exact hupdate _
  | compare idx =>
      rw [hpoint] at hstep
      obtain ⟨f, hf, rfl⟩ := Option.map_eq_some_iff.mp hstep
      split
      · exact hupdate _
      · exact hupdate _
  | start i | emit i pc =>
      rw [hpoint] at hstep
      obtain ⟨f, hf, hstep⟩ := Option.bind_eq_some_iff.mp hstep
      obtain ⟨c, hc, rfl⟩ := Option.map_eq_some_iff.mp hstep
      exact hupdate _

/-- The steps of one thread, and of readers between bring-ups. -/
def Solo (s : Boot) : BootStep → Bool
  | .call t _ => t = 0
  | .run t _ => t = 0 ∧ (claimsOf s.log).length < 2 ^ 32
  | .openReader _ => true
  | .read _ => s.unfinished = false
  | .restart => false

/-- One thread brings the segment up calmly. -/
theorem calm_of_solo : ∀ s, bringUp.ReachableWhen (fun s a => Solo s a = true) s →
    bringUp.ReachableWhen Calm s ∧ ∀ u, u ≠ 0 → s.thread u = .fresh := by
  apply Machine.ReachableWhen.invariant
  · intro s hs
    exact ⟨.start hs, fun u _ => hs.2.2.1 u⟩
  · rintro s a s' _ ⟨hreach, hfresh⟩ hsolo hnext
    cases a with
    | call t e =>
        have hcalm : Calm s (.call t e) := trivial
        refine ⟨.step hreach hcalm hnext, fun u hu => ?_⟩
        obtain rfl : t = 0 := by simpa [Solo] using hsolo
        simp only [bringUp, Boot.next] at hnext
        split at hnext
        · obtain rfl := Option.some.inj hnext
          exact (Function.update_of_ne hu _ _).trans (hfresh u hu)
        · exact (Option.some_ne_none _ hnext.symm).elim
    | run t ok =>
        obtain ⟨rfl, hclaims⟩ : t = 0 ∧ (claimsOf s.log).length < 2 ^ 32 := by
          simpa [Solo] using hsolo
        refine ⟨.step hreach ?_ hnext, fun u hu => ?_⟩
        · simp only [Calm]
          split
          · intro u hu
            rw [hfresh u hu]
            intro hmark
            cases hmark
          · exact hclaims
          · trivial
        · exact (runThread_of_ne hu hnext).trans (hfresh u hu)
    | openReader c =>
        have hcalm : Calm s (.openReader c) := trivial
        refine ⟨.step hreach hcalm hnext, fun u hu => ?_⟩
        simp only [bringUp, Boot.next] at hnext
        split at hnext
        case h_4 => exact (Option.some_ne_none _ hnext.symm).elim
        all_goals
          obtain rfl := Option.some.inj hnext
          exact hfresh u hu
    | read c =>
        have hfinished : s.unfinished = false := by simpa [Solo] using hsolo
        refine ⟨.step hreach ?_ hnext, fun u hu => ?_⟩
        · simp only [Calm]
          split
          · intro f _ hunfinished
            rw [hfinished] at hunfinished
            exact Bool.false_ne_true hunfinished.1
          · trivial
        · obtain ⟨f, hf, hnext⟩ := Option.bind_eq_some_iff.mp hnext
          split at hnext
          case h_4 => exact (Option.some_ne_none _ hnext.symm).elim
          all_goals
            obtain rfl := Option.some.inj hnext
            exact hfresh u hu
    | restart => exact (Bool.noConfusion hsolo : False).elim

/-! ## Runs -/

/-- A process that has not started, and no file. -/
def bootZero : Boot where
  proc := 0
  tried := false
  seg := false
  thread _ := .fresh
  file := none
  unfinished := false
  reader _ := .idle
  log := []

theorem init_bootZero : bringUp.init bootZero :=
  ⟨rfl, rfl, fun _ => rfl, fun _ hf => (Option.some_ne_none _ hf.symm).elim, rfl, fun _ => rfl, rfl⟩

/-- A record without a payload. -/
def bareRecord : Emission where
  header := ⟨0, 0, 0, 0, 0, 0⟩
  payload := []

/-- One thread brings the segment up and publishes a record, and a reader opens the file. -/
def oneFirstCall : List BootStep :=
  .call 0 bareRecord :: List.replicate 285 (.run 0 true) ++
    [.openReader 0, .read 0, .read 0, .read 0]

/-- Both threads test the flag before one of them stores it. -/
def twoFirstCalls : List BootStep :=
  [.call 0 bareRecord, .call 1 bareRecord, .run 0 true, .run 1 true] ++
    List.replicate 10 (.run 0 true) ++ List.replicate 10 (.run 1 true)

/-- The state that one first call leaves. -/
def afterFirstCall : Boot :=
  (bringUp.runWhen (fun s a => Solo s a = true) bootZero oneFirstCall).getD bootZero

/-- The first record of a process is in its ring, and the segment is sound. -/
theorem calm_bringUp_sound_oneThread : afterFirstCall.log.any
    (fun event => match event with | .accepted t i _ => t = 0 ∧ i = 0 | _ => false) = true ∧
      Sound afterFirstCall := by
  have hrun : (bringUp.runWhen (fun s a => Solo s a = true) bootZero oneFirstCall).any
      (fun s => s.log.any fun event =>
        match event with | .accepted t i _ => t = 0 ∧ i = 0 | _ => false) = true := by
    decide +kernel
  obtain ⟨s, hs, hlog⟩ := (Option.any_eq_true ..).mp hrun
  rw [afterFirstCall, hs]
  refine ⟨hlog, calm_bringUp_sound s (calm_of_solo s ?_).1⟩
  exact Machine.reachableWhen_of_run (.start init_bootZero) hs

/-- Two first calls can bring the segment up twice. -/
theorem two_threads_bring_up : ∃ s, bringUp.Reachable s ∧ ¬Sound s := by
  have hrun : (bringUp.run bootZero twoFirstCalls).any
      (fun s => decide (1 < s.log.countP BootEvent.isReset)) = true := by
    decide +kernel
  obtain ⟨s, hs, hcount⟩ := (Option.any_eq_true ..).mp hrun
  refine ⟨s, Machine.reachable_of_run (.start init_bootZero) hs, fun hsound => ?_⟩
  have htwice : 1 < s.log.countP BootEvent.isReset := by simpa using hcount
  exact absurd hsound.resetOnce (Nat.not_le.mpr htwice)

end Segment
end LiveSurface
