import LiveSurface.Loader.Handoff

/-!
# Who owns the bytes of a request

The prepare thread reads the program of a request through {lit}`g_prep.prog`.  For a
program with several entries this is a private copy, which the thread itself releases.
For a legacy load and for a benchmark it is the loader's mapping, which the record says
is {lit}`alive until DONE`; but the loader releases it when its wait has expired, while
the request is still pending.

Main results:

- Theorem {lit}`reads_ok`: as long as the loader does not release the mapping of a
  pending request, every read finds the bytes that were submitted.
- Theorem {lit}`read_after_release`: a read that finds nothing mapped.
-/

namespace LiveSurface
namespace Loader

/-! ## What a read must find -/

/-- The bytes that were submitted, with the thread's own patches; the signature is
checked over the bytes alone. -/
structure PrepRead.Ok (r : PrepRead) : Prop where
  got : r.got = some (patched r.prog r.patches)
  unpatched : r.signature = true → r.patches = []

/-- The thread may still read the bytes of the record. -/
def Handoff.MayRead (s : Handoff) : Prop :=
  s.prep.state = .pending ∧ s.thread ≠ .completing ∧ s.thread ≠ .storing

/-- The loader does not release a mapping that the thread may still read. -/
def Kept (s : Handoff) : HandoffLabel → Prop
  | .loader .proceed =>
      match s.loader with
      | .releasing scratch => s.prep.prog = some scratch → ¬ s.MayRead
      | _ => True
  | _ => True

/-! ## The invariant -/

/-- The message that lies in the loader's mapping. -/
def LoaderPc.message : LoaderPc → Option (Nat × Request)
  | .received scratch req | .reclaiming scratch req | .checking scratch req
  | .filling scratch req => some (scratch, req)
  | _ => none

/-- The mapping of a request that has been submitted. -/
def LoaderPc.submitted : LoaderPc → Option Nat
  | .parking scratch | .waiting scratch _ | .releasing scratch => some scratch
  | _ => none

theorem LoaderPc.of_message {pc : LoaderPc} {scratch : Nat} {req : Request}
    (h : pc.message = some (scratch, req)) : pc.scratch = some scratch ∧ pc.submitted = none := by
  cases pc <;> simp_all [LoaderPc.message, LoaderPc.scratch, LoaderPc.submitted]

def LoaderPc.isParking : LoaderPc → Bool
  | .parking _ => true
  | _ => false

/-- The record holds a request that has not been worked on to its end. -/
def Handoff.Live (s : Handoff) : Prop := s.loader.isParking = true ∨ s.MayRead

/-- Where the bytes of the record and of the loader's message are. -/
structure OwnOk (s : Handoff) : Prop where
  reads : ∀ r ∈ s.reads, r.Ok
  held : ∀ scratch, s.loader.scratch = some scratch → s.memory scratch ≠ none
  message : ∀ scratch req, s.loader.message = some (scratch, req) →
    s.memory scratch = some req.prog
  live : s.Live → ∃ address, s.prep.prog = some address ∧
    s.memory address = some (patched s.submitted s.patches)
  fresh : s.Live → s.thread ≠ .running → s.patches = []
  ownCopy : s.loader.isParking = true ∨ s.prep.state = .pending → lsIsProgramOp s.prep.op = true →
    ∀ address, s.prep.prog = some address →
      s.memory address ≠ none ∧ s.loader.scratch ≠ some address
  shared : s.Live → lsIsProgramOp s.prep.op = false → s.prep.prog = s.loader.submitted

theorem OwnOk.start {s : Handoff} (hs : handoffMachine.init s) : OwnOk s := by
  obtain ⟨hprep, hloader, hthread, _, hreads⟩ := hs
  have hlive : ¬ s.Live := by
    rintro (hparking | ⟨hpending, _⟩)
    · rw [hloader] at hparking
      contradiction
    · rw [hprep] at hpending
      contradiction
  refine ⟨?_, ?_, ?_, fun h => absurd h hlive, fun h => absurd h hlive, ?_,
    fun h => absurd h hlive⟩
  · rw [hreads]
    exact nofun
  · rw [hloader]
    exact nofun
  · rw [hloader]
    exact nofun
  · intro _ hop
    rw [hprep] at hop
    contradiction

/-! ## Steps of the loader -/

/-- A pending request that is not in a private copy has its submitter. -/
theorem OwnOk.not_shared {s : Handoff} (h : OwnOk s) (hloader : s.loader.submitted = none)
    (hmay : s.MayRead) : lsIsProgramOp s.prep.op ≠ false := by
  intro hop
  have hshared := h.shared (.inr hmay) hop
  obtain ⟨address, hprog, _⟩ := h.live (.inr hmay)
  rw [hprog, hloader] at hshared
  contradiction

/-- A program counter of the loader with no more mappings than another one. -/
structure LoaderPc.Within (pc pc' : LoaderPc) : Prop where
  scratch : pc.scratch = none ∨ pc.scratch = pc'.scratch
  message : pc.message = none ∨ pc.message = pc'.message
  parking : pc.isParking = false

/-- The loader moves on: it keeps its mapping or gives it up for good, and neither the
record nor the memory changes. -/
theorem OwnOk.move {s : Handoff} {pc : LoaderPc} (h : OwnOk s) (hpc : pc.Within s.loader)
    (hsubmitted : s.loader.submitted = none ∨ pc.submitted = s.loader.submitted) :
    OwnOk { s with loader := pc } := by
  have hread : Handoff.Live { s with loader := pc } → s.MayRead := by
    rintro (hpark | hread)
    · rw [hpc.parking] at hpark
      contradiction
    · exact hread
  refine ⟨h.reads, ?_, ?_, ?_, ?_, ?_, ?_⟩
  · intro scratch hs
    rcases hpc.scratch with hnone | hsame
    · rw [hnone] at hs
      contradiction
    · exact h.held scratch (hsame ▸ hs)
  · intro scratch req hs
    rcases hpc.message with hnone | hsame
    · rw [hnone] at hs
      contradiction
    · exact h.message scratch req (hsame ▸ hs)
  · intro hl
    exact h.live (.inr (hread hl))
  · intro hl
    exact h.fresh (.inr (hread hl))
  · rintro (hpark | hpending) hop address hprog
    · rw [hpc.parking] at hpark
      contradiction
    · obtain ⟨hmapped, hne⟩ := h.ownCopy (.inr hpending) hop address hprog
      refine ⟨hmapped, ?_⟩
      rcases hpc.scratch with hnone | hsame
      · rw [hnone]
        exact nofun
      · rw [hsame]
        exact hne
  · intro hl hop
    rcases hsubmitted with hnone | hsame
    · exact absurd hop (h.not_shared hnone (hread hl))
    · rw [hsame]
      exact h.shared (.inr (hread hl)) hop

theorem OwnOk.connect {s s' : Handoff} {scratch : Nat} {req : Request} (h : OwnOk s)
    (hnext : loaderNext s (.connect scratch req) = some s') : OwnOk s' := by
  obtain ⟨⟨hidle, hfree⟩, hs⟩ := Option.ite_none_right_eq_some.mp hnext
  obtain rfl := Option.some.inj hs
  have hmapped : ∀ address, s.memory address ≠ none →
      mmap s.memory scratch req.prog address = s.memory address ∧ address ≠ scratch := by
    intro address hne
    have hother : address ≠ scratch := by
      rintro rfl
      exact hne hfree
    exact ⟨Function.update_of_ne hother .., hother⟩
  have hlive : Handoff.Live { s with
      memory := mmap s.memory scratch req.prog, loader := .received scratch req } → s.Live := by
    rintro (hpark | hread)
    · contradiction
    · exact .inr hread
  refine ⟨h.reads, ?_, ?_, ?_, ?_, ?_, ?_⟩
  · rintro x ⟨⟩
    simp [mmap]
  · rintro x r ⟨⟩
    simp [mmap]
  · intro hl
    obtain ⟨address, hprog, hbytes⟩ := h.live (hlive hl)
    refine ⟨address, hprog, ?_⟩
    rw [← hbytes]
    exact (hmapped address (by simp [hbytes])).1
  · intro hl
    exact h.fresh (hlive hl)
  · rintro (hpark | hpending) hop address hprog
    · contradiction
    · obtain ⟨hne, _⟩ := h.ownCopy (.inr hpending) hop address hprog
      obtain ⟨hsame, hother⟩ := hmapped address hne
      refine ⟨fun hnone => hne (hsame.symm.trans hnone), ?_⟩
      rintro ⟨⟩
      exact hother rfl
  · intro hl hop
    have hshared := h.shared (hlive hl) hop
    obtain ⟨address, hprog, _⟩ := h.live (hlive hl)
    rw [hidle, hprog] at hshared
    contradiction

theorem OwnOk.fill {s s' : Handoff} {copy : Option Nat} (hok : HandoffOk s) (h : OwnOk s)
    (hnext : s.fill copy = some s') : OwnOk s' := by
  unfold Handoff.fill at hnext
  cases hloader : s.loader with
  | filling scratch req =>
      have hidle := hok.filling scratch req hloader
      have hmessage := h.message scratch req (by rw [hloader]; rfl)
      have hthread := hok.thread_idle (by rw [hidle]; exact nofun)
      simp only [hloader] at hnext
      split at hnext
      · rename_i hop
        cases copy with
        | none =>
            obtain rfl := Option.some.inj hnext
            exact h.move ⟨.inr (by rw [hloader]; rfl), .inl rfl, rfl⟩ (.inl (by rw [hloader]; rfl))
        | some address =>
            obtain ⟨hfree, hs⟩ := Option.ite_none_right_eq_some.mp hnext
            obtain rfl := Option.some.inj hs
            have hne : scratch ≠ address := by
              rintro rfl
              rw [hmessage] at hfree
              contradiction
            refine ⟨h.reads, ?_, nofun, ?_, ?_, ?_, ?_⟩
            · rintro x ⟨⟩
              simp [mmap, hne, hmessage]
            · intro _
              exact ⟨address, rfl, by simp [mmap, patched]⟩
            · intro _ _
              rfl
            · rintro _ _ x ⟨⟩
              refine ⟨by simp [mmap], ?_⟩
              rintro ⟨⟩
              exact hne rfl
            · intro _ hop'
              rw [show lsIsProgramOp req.op = false from hop'] at hop
              contradiction
      · rename_i hop
        obtain rfl := Option.some.inj hnext
        refine ⟨h.reads, ?_, nofun, ?_, ?_, ?_, ?_⟩
        · rintro x ⟨⟩
          simp [hmessage]
        · intro _
          exact ⟨scratch, rfl, hmessage⟩
        · intro _ _
          rfl
        · intro _ hop'
          exact absurd hop' hop
        · intro _ _
          rfl
  | _ =>
      simp only [hloader] at hnext
      contradiction

/-- The record no longer holds a request. -/
theorem OwnOk.over {s s' : Handoff} (h : OwnOk s) (hreads : s'.reads = s.reads)
    (hmemory : s'.memory = s.memory) (hstate : s'.prep.state ≠ .pending)
    (hpc : s'.loader.Within s.loader) : OwnOk s' := by
  have hlive : ¬ s'.Live := by
    rintro (hpark | ⟨hpending, _⟩)
    · rw [hpc.parking] at hpark
      contradiction
    · exact hstate hpending
  refine ⟨?_, ?_, ?_, fun hl => absurd hl hlive, fun hl => absurd hl hlive, ?_,
    fun hl => absurd hl hlive⟩
  · rw [hreads]
    exact h.reads
  · intro scratch hs
    rw [hmemory]
    rcases hpc.scratch with hnone | hsame
    · rw [hnone] at hs
      contradiction
    · exact h.held scratch (hsame ▸ hs)
  · intro scratch req hs
    rw [hmemory]
    rcases hpc.message with hnone | hsame
    · rw [hnone] at hs
      contradiction
    · exact h.message scratch req (hsame ▸ hs)
  · rintro (hpark | hpending)
    · rw [hpc.parking] at hpark
      contradiction
    · exact absurd hpending hstate

/-- The loader releases its mapping. -/
theorem OwnOk.unmap {s : Handoff} {scratch : Nat} (h : OwnOk s)
    (hloader : s.loader = .releasing scratch)
    (hkept : s.prep.prog = some scratch → ¬ s.MayRead) :
    OwnOk { s with memory := munmap s.memory scratch, loader := .idle } := by
  have hread : Handoff.Live { s with memory := munmap s.memory scratch, loader := .idle } →
      s.MayRead := by
    rintro (hpark | hread)
    · contradiction
    · exact hread
  have hother : ∀ address, s.prep.prog = some address → s.MayRead → address ≠ scratch := by
    rintro address hprog hmay rfl
    exact hkept hprog hmay
  refine ⟨h.reads, nofun, nofun, ?_, ?_, ?_, ?_⟩
  · intro hl
    obtain ⟨address, hprog, hbytes⟩ := h.live (.inr (hread hl))
    refine ⟨address, hprog, ?_⟩
    rw [← hbytes]
    exact Function.update_of_ne (hother address hprog (hread hl)) ..
  · intro hl
    exact h.fresh (.inr (hread hl))
  · rintro (hpark | hpending) hop address hprog
    · contradiction
    · obtain ⟨hmapped, hne⟩ := h.ownCopy (.inr hpending) hop address hprog
      refine ⟨?_, nofun⟩
      have haddress : address ≠ scratch := by
        rintro rfl
        exact hne (by rw [hloader]; rfl)
      exact fun hnone => hmapped ((Function.update_of_ne haddress ..).symm.trans hnone)
  · intro hl hop
    have hshared := h.shared (.inr (hread hl)) hop
    rw [hloader] at hshared
    exact absurd (hread hl) (hkept hshared)

theorem OwnOk.proceed {s s' : Handoff} (h : OwnOk s)
    (hkept : Kept s (.loader .proceed)) (hnext : s.proceed = some s') : OwnOk s' := by
  unfold Handoff.proceed at hnext
  cases hloader : s.loader with
  | reclaiming scratch req =>
      have hwithin : (LoaderPc.checking scratch req).Within s.loader := by
        rw [hloader]
        exact ⟨.inr rfl, .inr rfl, rfl⟩
      simp only [hloader] at hnext
      obtain rfl := Option.some.inj hnext
      unfold LsPrep.reclaim
      split
      · exact h.over rfl rfl nofun hwithin
      · exact h.move hwithin (.inl (by rw [hloader]; rfl))
  | checking scratch req =>
      simp only [hloader] at hnext
      obtain rfl := Option.some.inj hnext
      have hsubmitted : s.loader.submitted = none := by
        rw [hloader]
        rfl
      by_cases hout : s.prep.outstanding = true
      · simp only [if_pos hout]
        exact h.move ⟨.inr (by rw [hloader]; rfl), .inl rfl, rfl⟩ (.inl hsubmitted)
      · simp only [if_neg hout]
        exact h.move ⟨.inr (by rw [hloader]; rfl), .inr (by rw [hloader]; rfl), rfl⟩
          (.inl hsubmitted)
  | parking scratch =>
      simp only [hloader] at hnext
      obtain rfl := Option.some.inj hnext
      have hlive : s.Live := .inl (by rw [hloader]; rfl)
      refine ⟨h.reads, ?_, nofun, fun _ => h.live hlive, fun _ => h.fresh hlive, ?_, ?_⟩
      · rintro x ⟨⟩
        exact h.held scratch (by rw [hloader]; rfl)
      · intro _ hop address hprog
        have hcopy := h.ownCopy (.inl (by rw [hloader]; rfl)) hop address hprog
        rw [hloader] at hcopy
        exact hcopy
      · intro _ hop
        have hshared := h.shared hlive hop
        rw [hloader] at hshared
        exact hshared
  | waiting scratch left =>
      have hscratch : (LoaderPc.releasing scratch).scratch = s.loader.scratch := by
        rw [hloader]
        rfl
      have hsubmitted : (LoaderPc.releasing scratch).submitted = s.loader.submitted := by
        rw [hloader]
        rfl
      cases left with
      | zero =>
          simp only [hloader] at hnext
          obtain rfl := Option.some.inj hnext
          exact h.move ⟨.inr hscratch, .inl rfl, rfl⟩ (.inr hsubmitted)
      | succ left =>
          simp only [hloader] at hnext
          obtain rfl := Option.some.inj hnext
          by_cases hdone : s.prep.state = .done
          · simp only [if_pos hdone]
            exact h.over rfl rfl (by simp [hdone]) ⟨.inr hscratch, .inl rfl, rfl⟩
          · simp only [if_neg hdone]
            exact h.move ⟨.inr hscratch, .inl rfl, rfl⟩ (.inr hsubmitted)
  | collecting scratch =>
      simp only [hloader] at hnext
      obtain rfl := Option.some.inj hnext
      exact h.over rfl rfl nofun ⟨.inr (by rw [hloader]; rfl), .inl rfl, rfl⟩
  | releasing scratch =>
      simp only [hloader] at hnext
      obtain rfl := Option.some.inj hnext
      simp only [Kept, hloader] at hkept
      exact h.unmap hloader hkept
  | idle =>
      simp only [hloader] at hnext
      contradiction
  | received scratch req =>
      simp only [hloader] at hnext
      contradiction
  | filling scratch req =>
      simp only [hloader] at hnext
      contradiction

theorem OwnOk.loader {s s' : Handoff} {a : LoaderLabel} (hok : HandoffOk s) (h : OwnOk s)
    (hkept : Kept s (.loader a)) (hnext : loaderNext s a = some s') : OwnOk s' := by
  cases a with
  | connect scratch req => exact h.connect hnext
  | answer =>
      simp only [loaderNext] at hnext
      split at hnext
      · rename_i scratch req hloader
        obtain rfl := Option.some.inj hnext
        exact h.move ⟨.inr (by rw [hloader]; rfl), .inl rfl, rfl⟩ (.inl (by rw [hloader]; rfl))
      · contradiction
  | leak =>
      simp only [loaderNext] at hnext
      split at hnext
      · rename_i scratch req hloader
        obtain ⟨_, hs⟩ := Option.ite_none_left_eq_some.mp hnext
        obtain rfl := Option.some.inj hs
        exact h.move ⟨.inl rfl, .inl rfl, rfl⟩ (.inl (by rw [hloader]; rfl))
      · contradiction
  | submit =>
      simp only [loaderNext] at hnext
      split at hnext
      · rename_i scratch req hloader
        obtain ⟨_, hs⟩ := Option.ite_none_right_eq_some.mp hnext
        obtain rfl := Option.some.inj hs
        refine h.move ?_ (.inl (by rw [hloader]; rfl))
        rw [hloader]
        split
        · exact ⟨.inr rfl, .inl rfl, rfl⟩
        · exact ⟨.inr rfl, .inr rfl, rfl⟩
      · contradiction
  | fill copy => exact h.fill hok hnext
  | proceed => exact h.proceed hkept hnext

/-! ## Steps of the thread -/

theorem patched_append (prog : List UInt8) (patches : List Patch) (p : Patch) :
    patched prog (patches ++ [p]) = (patched prog patches).set p.offset p.byte := by
  simp [patched, List.foldl_append]

/-- A step of the thread that only moves it, or ends its reading. -/
theorem OwnOk.advance {s s' : Handoff} (h : OwnOk s) (hreads : ∀ r ∈ s'.reads, r.Ok)
    (hmemory : s'.memory = s.memory) (hloader : s'.loader = s.loader)
    (hprog : s'.prep.prog = s.prep.prog) (hop : s'.prep.op = s.prep.op)
    (hghost : s'.submitted = s.submitted ∧ s'.patches = s.patches)
    (hstate : s'.prep.state = .pending → s.prep.state = .pending)
    (hmay : s'.MayRead → s.MayRead)
    (hfresh : s'.Live → s'.thread ≠ .running → s.patches = []) : OwnOk s' := by
  have hlive : s'.Live → s.Live := by
    rintro (hpark | hread)
    · exact .inl (hloader ▸ hpark)
    · exact .inr (hmay hread)
  refine ⟨hreads, ?_, ?_, ?_, ?_, ?_, ?_⟩
  · rw [hloader, hmemory]
    exact h.held
  · rw [hloader, hmemory]
    exact h.message
  · intro hl
    rw [hprog, hmemory, hghost.1, hghost.2]
    exact h.live (hlive hl)
  · intro hl hthread
    rw [hghost.2]
    exact hfresh hl hthread
  · rw [hloader, hmemory, hprog, hop]
    intro hheld
    exact h.ownCopy (hheld.imp_right hstate)
  · intro hl
    rw [hop, hprog, hloader]
    exact h.shared (hlive hl)

/-- What the thread reads. -/
theorem OwnOk.contents {s : Handoff} (h : OwnOk s) (hl : s.Live) :
    s.contents = some (patched s.submitted s.patches) := by
  obtain ⟨address, hprog, hbytes⟩ := h.live hl
  rw [Handoff.contents, hprog, Option.bind_some, hbytes]

theorem OwnOk.record {s : Handoff} (h : OwnOk s) (hl : s.Live) {signature : Bool}
    (hunpatched : signature = true → s.patches = []) :
    ∀ r ∈ (s.record signature).reads, r.Ok := by
  intro r hr
  rcases List.mem_append.mp hr with hr | hr
  · exact h.reads r hr
  · rw [List.mem_singleton.mp hr]
    exact ⟨h.contents hl, hunpatched⟩

theorem OwnOk.verify {s : Handoff} {ok : Bool} (hok : HandoffOk s) (h : OwnOk s)
    (hthread : s.thread = .verifying) : OwnOk (s.verify ok) := by
  have hmay : s.MayRead := by
    refine ⟨hok.pending hthread nofun, ?_, ?_⟩
    · rw [hthread]
      exact nofun
    · rw [hthread]
      exact nofun
  have hfresh := h.fresh (.inr hmay) (by rw [hthread]; exact nofun)
  unfold Handoff.verify
  split
  · split
    · exact h.advance (h.record (.inr hmay) fun _ => hfresh) rfl rfl rfl rfl ⟨rfl, rfl⟩ id
        (fun _ => hmay) fun _ _ => hfresh
    · exact h.advance (h.record (.inr hmay) fun _ => hfresh) rfl rfl rfl rfl ⟨rfl, rfl⟩ id
        (fun _ => hmay) fun _ _ => hfresh
  · exact h.advance h.reads rfl rfl rfl rfl ⟨rfl, rfl⟩ id (fun _ => hmay) fun _ _ => hfresh

/-- The thread patches the bytes it works on, and no others. -/
theorem OwnOk.patch {s : Handoff} {p : Patch} (h : OwnOk s) (hmay : s.MayRead)
    (hthread : s.thread = .running) : OwnOk (s.patch p) := by
  obtain ⟨address, hprog, hbytes⟩ := h.live (.inr hmay)
  have hmemory : (s.patch p).memory = Function.update s.memory address
      (some (patched s.submitted (s.patches ++ [p]))) := by
    simp only [Handoff.patch, hprog, hbytes, Option.map_some, patched_append]
  have hmapped : ∀ x, s.memory x ≠ none → (s.patch p).memory x ≠ none := by
    intro x hx
    rw [hmemory]
    by_cases hxa : x = address
    · subst hxa
      simp
    · rw [Function.update_of_ne hxa]
      exact hx
  refine ⟨h.reads, ?_, ?_, ?_, ?_, ?_, ?_⟩
  · intro scratch hs
    exact hmapped scratch (h.held scratch hs)
  · intro scratch req hs
    have hne : scratch ≠ address := by
      rintro rfl
      obtain ⟨hscratch, hsubmitted⟩ := LoaderPc.of_message hs
      have hop := h.not_shared hsubmitted hmay
      exact (h.ownCopy (.inr hmay.1) (by simpa using hop) scratch hprog).2 hscratch
    rw [hmemory, Function.update_of_ne hne]
    exact h.message scratch req hs
  · intro _
    exact ⟨address, hprog, by rw [hmemory, Function.update_self]; rfl⟩
  · intro _ hne
    exact absurd hthread hne
  · intro hheld hop x hx
    obtain ⟨hxm, hxl⟩ := h.ownCopy hheld hop x hx
    exact ⟨hmapped x hxm, hxl⟩
  · intro hl hop
    exact h.shared hl hop

/-- The thread releases a private copy, which the loader never had. -/
theorem OwnOk.release {s : Handoff} (h : OwnOk s) (hpending : s.prep.state = .pending)
    (hparking : s.loader.isParking = false) : OwnOk s.release := by
  have hover : ∀ s' : Handoff, s'.thread = .storing → s'.loader = s.loader → ¬ s'.Live := by
    rintro s' hthread hloader (hpark | ⟨_, _, hne⟩)
    · rw [hloader, hparking] at hpark
      contradiction
    · exact hne hthread
  unfold Handoff.release
  split
  · rename_i address hop hprog
    have hcopy := (h.ownCopy (.inr hpending) hop address hprog).2
    have hsame : ∀ scratch, s.loader.scratch = some scratch →
        munmap s.memory address scratch = s.memory scratch := by
      intro scratch hs
      have hne : scratch ≠ address := by
        rintro rfl
        exact hcopy hs
      exact Function.update_of_ne hne ..
    refine ⟨h.reads, ?_, ?_, fun hl => absurd hl (hover _ rfl rfl),
      fun hl => absurd hl (hover _ rfl rfl), ?_, fun hl => absurd hl (hover _ rfl rfl)⟩
    · intro scratch hs
      exact fun hnone => h.held scratch hs ((hsame scratch hs).symm.trans hnone)
    · intro scratch req hs
      exact (hsame scratch (LoaderPc.of_message hs).1).trans (h.message scratch req hs)
    · intro _ _
      exact nofun
  · exact h.advance h.reads rfl rfl rfl rfl ⟨rfl, rfl⟩ id
      (fun hmay => absurd rfl hmay.2.2) fun hl => absurd hl (hover _ rfl rfl)

theorem OwnOk.thread {s s' : Handoff} {a : ThreadLabel} (hok : HandoffOk s) (h : OwnOk s)
    (hnext : threadNext s a = some s') : OwnOk s' := by
  have hparking : s.loader.isParking = false := by
    have hstep := thread_step hok hnext
    cases hloader : s.loader with
    | parking scratch =>
        have hidle := hok.parking scratch hloader
        rw [hstep.pending] at hidle
        contradiction
    | _ => rfl
  have hrunning : s.thread = .running → s.MayRead := by
    intro hthread
    refine ⟨hok.pending hthread nofun, ?_, ?_⟩
    · rw [hthread]
      exact nofun
    · rw [hthread]
      exact nofun
  cases a with
  | start =>
      obtain ⟨⟨hthread, hpending⟩, hs⟩ := Option.ite_none_right_eq_some.mp hnext
      obtain rfl := Option.some.inj hs
      have hmay : s.MayRead := by
        refine ⟨hpending, ?_, ?_⟩
        · rw [hthread]
          exact nofun
        · rw [hthread]
          exact nofun
      exact h.advance h.reads rfl rfl rfl rfl ⟨rfl, rfl⟩ id (fun _ => hmay)
        fun _ _ => h.fresh (.inr hmay) (by rw [hthread]; exact nofun)
  | verify ok =>
      obtain ⟨hthread, hs⟩ := Option.ite_none_right_eq_some.mp hnext
      obtain rfl := Option.some.inj hs
      exact h.verify hok hthread
  | read =>
      obtain ⟨hthread, hs⟩ := Option.ite_none_right_eq_some.mp hnext
      obtain rfl := Option.some.inj hs
      exact h.advance (h.record (.inr (hrunning hthread)) nofun) rfl rfl rfl rfl ⟨rfl, rfl⟩ id id
        fun _ hne => absurd hthread hne
  | patch p =>
      obtain ⟨hthread, hs⟩ := Option.ite_none_right_eq_some.mp hnext
      obtain rfl := Option.some.inj hs
      exact h.patch (hrunning hthread) hthread
  | finish rc =>
      obtain ⟨hthread, hs⟩ := Option.ite_none_right_eq_some.mp hnext
      obtain rfl := Option.some.inj hs
      refine h.advance h.reads rfl rfl rfl rfl ⟨rfl, rfl⟩ id
        (fun hmay => absurd rfl hmay.2.1) ?_
      rintro (hpark | ⟨_, hne, _⟩)
      · rw [hparking] at hpark
        contradiction
      · exact absurd rfl hne
  | release =>
      obtain ⟨hthread, hs⟩ := Option.ite_none_right_eq_some.mp hnext
      obtain rfl := Option.some.inj hs
      exact h.release (hok.pending hthread nofun) hparking
  | publish =>
      obtain ⟨hthread, hs⟩ := Option.ite_none_right_eq_some.mp hnext
      obtain rfl := Option.some.inj hs
      refine h.advance h.reads rfl rfl rfl rfl ⟨rfl, rfl⟩ nofun
        (fun hmay => nomatch hmay.1) ?_
      rintro (hpark | ⟨hpending, _⟩)
      · rw [hparking] at hpark
        contradiction
      · contradiction

/-! ## Every read -/

/-- In every run in which the loader keeps the mapping of a request that the thread may
still read, every read finds exactly the bytes of its request: those whose signature is
checked are those that are loaded. -/
theorem reads_ok : ∀ s, handoffMachine.ReachableWhen Kept s → ∀ r ∈ s.reads, r.Ok := by
  have hown : ∀ s, handoffMachine.ReachableWhen Kept s → OwnOk s := by
    apply Machine.ReachableWhen.invariant
    · intro s hs
      exact .start hs
    · intro s a s' hs h hkept hnext
      have hok : HandoffOk s := handoffMachine_ok s hs
      cases a with
      | loader a => exact h.loader hok hkept hnext
      | thread a => exact h.thread hok hnext
  intro s hs
  exact (hown s hs).reads

/-! ## A wait that expires -/

instance decidableKept (s : Handoff) (a : HandoffLabel) : Decidable (Kept s a) := by
  unfold Kept Handoff.MayRead
  split
  · cases s
    split <;> infer_instance
  · infer_instance

/-- A benchmark is parked. -/
def parkedBench : List HandoffLabel :=
  [.loader (.connect 0 { sampleLoad with op := .bench }), .loader .submit, .loader .proceed,
    .loader .proceed, .loader (.fill none), .loader .proceed]

/-- The loader gives up and releases its mapping; then the thread takes the request up. -/
def lateRead : List HandoffLabel :=
  [.loader .proceed, .loader .proceed, .thread .start, .thread (.verify true), .thread .read]

/-- The thread reads a mapping that has been released. -/
theorem read_after_release :
    ¬ ∀ s, handoffMachine.Reachable s → ∀ r ∈ s.reads, r.Ok := by
  intro h
  have hparked : handoffMachine.Reachable
      ((handoffMachine.run .initial parkedBench).getD .initial) :=
    Machine.reachable_run_getD initial_reachable (by decide +kernel)
  have hwaited := reachable_waited hparked (by decide +kernel)
    (show _ = LoaderPc.waiting 0 lsPrepWaitMs by decide +kernel)
  have hlate : handoffMachine.Reachable ((handoffMachine.run _ lateRead).getD _) :=
    Machine.reachable_run_getD hwaited (by decide +kernel)
  have hread := (h _ hlate { signature := false, got := none, prog := [1, 2, 3, 4], patches := [] }
    (by decide +kernel)).got
  contradiction

/-- A load that is verified, patched and read again before its mapping is released. -/
theorem reads_ok_timely :
    ∃ s, handoffMachine.ReachableWhen Kept s ∧ s.loader = .idle ∧
      s.reads = [{ signature := true, got := some [1, 2, 3, 4], prog := [1, 2, 3, 4], patches := [] },
        { signature := false, got := some [1, 2, 9, 4], prog := [1, 2, 3, 4],
          patches := [⟨2, 9⟩] }] ∧ ∀ r ∈ s.reads, r.Ok := by
  have hs : handoffMachine.ReachableWhen Kept ((handoffMachine.runWhen Kept .initial
      [.loader (.connect 0 sampleLoad), .loader .submit, .loader .proceed, .loader .proceed,
        .loader (.fill none), .loader .proceed, .thread .start, .thread (.verify true),
        .thread (.patch ⟨2, 9⟩), .thread .read, .thread (.finish 0), .thread .release,
        .thread .publish, .loader .proceed, .loader .proceed, .loader .proceed]).getD .initial) :=
    Machine.reachableWhen_run_getD initial_reachable (by decide +kernel)
  exact ⟨_, hs, by decide +kernel, by decide +kernel, reads_ok _ hs⟩

end Loader
end LiveSurface
