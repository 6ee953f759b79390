import Mathlib.Data.List.Basic

/-!
# Programs that write a state store by store

A program reads the state it runs on and emits single stores, in order.  Run
alone it is a state-passing function; run beside other parties its stores can be
made one at a time.  Both readings come from one definition, so what is proved
of the function is known of the state in which the last store has been made.

Main results:

- Theorems {lit}`final_bind` and {lit}`result_bind`: run alone, programs compose
  as state-passing functions.
- Theorem {lit}`Emits.final`: what every store that a program can make keeps is
  kept by the program.
- Theorem {lit}`whileOk_each`: what each round of a loop establishes and later
  rounds keep holds after a loop that did not stop.
-/

namespace LiveSurface

/-- How one store changes a state. -/
class Stores (σ : Type) (ι : outParam Type) where
  store : σ → ι → σ

/-- A computation that reads a state and emits stores to it. -/
def StoreProgram (σ ι α : Type) : Type := σ → α × List ι

namespace StoreProgram

variable {σ ι α β : Type} {s : σ}

/-- What the program returns. -/
def result (p : StoreProgram σ ι α) (s : σ) : α := (p s).1

/-- The stores it makes. -/
def stores (p : StoreProgram σ ι α) (s : σ) : List ι := (p s).2

def read : StoreProgram σ ι σ := fun s => (s, [])

def write (i : ι) : StoreProgram σ ι Unit := fun _ => ((), [i])

@[simp]
theorem stores_write (i : ι) : (write i : StoreProgram σ ι Unit).stores s = [i] := rfl

@[simp]
theorem result_ite {c : Prop} [Decidable c] (p q : StoreProgram σ ι α) :
    (if c then p else q).result s = if c then p.result s else q.result s := by
  split <;> rfl

@[simp]
theorem stores_ite {c : Prop} [Decidable c] (p q : StoreProgram σ ι α) :
    (if c then p else q).stores s = if c then p.stores s else q.stores s := by
  split <;> rfl

/-- From a state of {lit}`I` the program makes only stores with property
{lit}`Q`. -/
def Emits (I : σ → Prop) (Q : ι → Prop) (p : StoreProgram σ ι α) : Prop :=
  ∀ s, I s → ∀ i ∈ p.stores s, Q i

variable {I P : σ → Prop} {Q : ι → Prop}

theorem emits_write {i : ι} (h : Q i) : Emits I Q (write i : StoreProgram σ ι Unit) := by
  intro s _ j hj
  rw [stores_write, List.mem_singleton] at hj
  rw [hj]
  exact h

theorem emits_ite {c : Prop} [Decidable c] {p q : StoreProgram σ ι α}
    (hp : c → Emits I Q p) (hq : ¬c → Emits I Q q) : Emits I Q (if c then p else q) := by
  split
  · exact hp ‹_›
  · exact hq ‹_›

theorem Emits.mono {p : StoreProgram σ ι α} {Q' : ι → Prop} (hp : Emits I Q p)
    (himp : ∀ i, Q i → Q' i) : Emits I Q' p := by
  intro s hs i hi
  exact himp i (hp s hs i hi)

/-! ## Running alone -/

variable [Stores σ ι]

def storeAll (s : σ) (stores : List ι) : σ := stores.foldl Stores.store s

@[simp]
theorem storeAll_nil (s : σ) : storeAll s ([] : List ι) = s := rfl

@[simp]
theorem storeAll_cons (s : σ) (i : ι) (rest : List ι) :
    storeAll s (i :: rest) = storeAll (Stores.store s i) rest := rfl

@[simp]
theorem storeAll_append (s : σ) (first second : List ι) :
    storeAll s (first ++ second) = storeAll (storeAll s first) second :=
  List.foldl_append

/-- The state after the last store. -/
def final (p : StoreProgram σ ι α) (s : σ) : σ := storeAll s (p.stores s)

instance : Monad (StoreProgram σ ι) where
  pure a := fun _ => (a, [])
  bind p f := fun s => ((f (p.result s)).result (p.final s),
    p.stores s ++ (f (p.result s)).stores (p.final s))

@[simp]
theorem result_pure (a : α) : (pure a : StoreProgram σ ι α).result s = a := rfl

@[simp]
theorem stores_pure (a : α) : (pure a : StoreProgram σ ι α).stores s = [] := rfl

@[simp]
theorem final_pure (a : α) : (pure a : StoreProgram σ ι α).final s = s := rfl

@[simp]
theorem result_bind (p : StoreProgram σ ι α) (f : α → StoreProgram σ ι β) :
    (p >>= f).result s = (f (p.result s)).result (p.final s) := rfl

@[simp]
theorem stores_bind (p : StoreProgram σ ι α) (f : α → StoreProgram σ ι β) :
    (p >>= f).stores s = p.stores s ++ (f (p.result s)).stores (p.final s) := rfl

@[simp]
theorem final_bind (p : StoreProgram σ ι α) (f : α → StoreProgram σ ι β) :
    (p >>= f).final s = (f (p.result s)).final (p.final s) := by
  unfold final
  rw [stores_bind, storeAll_append]
  rfl

@[simp]
theorem final_ite {c : Prop} [Decidable c] (p q : StoreProgram σ ι α) :
    (if c then p else q).final s = if c then p.final s else q.final s := by
  split <;> rfl

/-- Reading first passes the state itself on. -/
@[simp high]
theorem result_read_bind (f : σ → StoreProgram σ ι β) :
    (read >>= f).result s = (f s).result s := rfl

@[simp high]
theorem stores_read_bind (f : σ → StoreProgram σ ι β) :
    (read >>= f).stores s = (f s).stores s := rfl

@[simp high]
theorem final_read_bind (f : σ → StoreProgram σ ι β) :
    (read >>= f).final s = (f s).final s := by
  rw [final_bind]
  rfl

@[simp]
theorem final_write (i : ι) :
    (write i : StoreProgram σ ι Unit).final s = Stores.store s i := rfl

/-! ## Loops -/

/-- Run the body for every element, in order. -/
def forEach (body : β → StoreProgram σ ι Unit) : List β → StoreProgram σ ι Unit
  | [] => pure ()
  | x :: rest => do
      body x
      forEach body rest

/-- Run the body for every element until it fails. -/
def whileOk (body : β → StoreProgram σ ι Bool) : List β → StoreProgram σ ι Bool
  | [] => pure true
  | x :: rest => do
      if ← body x then whileOk body rest
      else pure false

@[simp]
theorem final_forEach_nil (body : β → StoreProgram σ ι Unit) :
    (forEach body []).final s = s := rfl

@[simp]
theorem final_forEach_cons (body : β → StoreProgram σ ι Unit) (x : β) (rest : List β) :
    (forEach body (x :: rest)).final s = (forEach body rest).final ((body x).final s) := by
  simp only [forEach, final_bind]

/-- A loop keeps what each round keeps. -/
theorem forEach_invariant {body : β → StoreProgram σ ι Unit} {P : σ → Prop} {xs : List β}
    (hround : ∀ x ∈ xs, ∀ s, P s → P ((body x).final s)) :
    ∀ s, P s → P ((forEach body xs).final s) := by
  induction xs with
  | nil =>
      intro s hs
      exact hs
  | cons x rest ih =>
      intro s hs
      rw [final_forEach_cons]
      apply ih
      · intro y hy
        exact hround y (List.mem_cons_of_mem x hy)
      · exact hround x List.mem_cons_self s hs

/-- A loop that may stop keeps what each round keeps. -/
theorem whileOk_invariant {body : β → StoreProgram σ ι Bool} {P : σ → Prop} {xs : List β}
    (hround : ∀ x ∈ xs, ∀ s, P s → P ((body x).final s)) :
    ∀ s, P s → P ((whileOk body xs).final s) := by
  induction xs with
  | nil =>
      intro s hs
      exact hs
  | cons x rest ih =>
      intro s hs
      have hx : P ((body x).final s) := hround x List.mem_cons_self s hs
      unfold whileOk
      rw [final_bind, final_ite]
      split
      · apply ih _ _ hx
        intro y hy
        exact hround y (List.mem_cons_of_mem x hy)
      · exact hx

/-- After a loop that did not stop, what every round that succeeds establishes
and every round keeps holds for each element. -/
theorem whileOk_each {body : β → StoreProgram σ ι Bool} {Q : β → σ → Prop} {xs : List β}
    (hround : ∀ x ∈ xs, ∀ s, (body x).result s = true → Q x ((body x).final s))
    (hkeep : ∀ x ∈ xs, ∀ y s, Q y s → Q y ((body x).final s)) :
    ∀ s, (whileOk body xs).result s = true →
      ∀ x ∈ xs, Q x ((whileOk body xs).final s) := by
  induction xs with
  | nil =>
      intro s _ x hx
      contradiction
  | cons x rest ih =>
      intro s hok y hy
      have hrest : ∀ z ∈ rest, ∀ w s, Q w s → Q w ((body z).final s) := by
        intro z hz
        exact hkeep z (List.mem_cons_of_mem x hz)
      unfold whileOk at hok ⊢
      rw [result_bind, result_ite] at hok
      rw [final_bind, final_ite]
      split at hok
      · rename_i hx
        rw [if_pos hx]
        rcases List.mem_cons.mp hy with rfl | hy
        · apply whileOk_invariant (P := Q y)
          · intro z hz s
            exact hrest z hz y s
          · exact hround y List.mem_cons_self s hx
        · apply ih _ hrest _ hok y hy
          intro z hz
          exact hround z (List.mem_cons_of_mem x hz)
      · contradiction

/-! ## Which stores a program can make -/

/-- Stores with property {lit}`Q` keep the states of {lit}`I`. -/
def Keeps (I : σ → Prop) (Q : ι → Prop) : Prop :=
  ∀ s i, Q i → I s → I (Stores.store s i)

theorem Keeps.storeAll (hI : Keeps I Q) {todo : List ι} (htodo : ∀ i ∈ todo, Q i) :
    ∀ {s : σ}, I s → I (storeAll s todo) := by
  induction todo with
  | nil =>
      intro s hs
      exact hs
  | cons i rest ih =>
      intro s hs
      rw [storeAll_cons]
      apply ih
      · intro j hj
        exact htodo j (List.mem_cons_of_mem i hj)
      · exact hI s i (htodo i List.mem_cons_self) hs

/-- What the stores keep, the program keeps. -/
theorem Emits.final {p : StoreProgram σ ι α} (hp : Emits I Q p)
    (hP : Keeps (fun s => I s ∧ P s) Q) (hs : I s) (hPs : P s) :
    I (p.final s) ∧ P (p.final s) :=
  hP.storeAll (hp s hs) ⟨hs, hPs⟩

theorem Emits.final_keeps {p : StoreProgram σ ι α} (hp : Emits I Q p) (hI : Keeps I Q)
    (hs : I s) : I (p.final s) :=
  hI.storeAll (hp s hs) hs

theorem emits_pure (a : α) : Emits I Q (pure a : StoreProgram σ ι α) := by
  intro s _ i hi
  contradiction

/-- The rest of a program may use what is known of the state it has read. -/
theorem emits_read {f : σ → StoreProgram σ ι α} (hf : ∀ s, I s → Emits I Q (f s)) :
    Emits I Q (read >>= f) := by
  intro s hs i hi
  exact hf s hs s hs i hi

/-- The rest of a program may use what is known of the result before it. -/
theorem Emits.bind_result {p : StoreProgram σ ι α} {f : α → StoreProgram σ ι β}
    {R : α → Prop} (hp : Emits I Q p) (hI : Keeps I Q) (hR : ∀ s, I s → R (p.result s))
    (hf : ∀ a, R a → Emits I Q (f a)) : Emits I Q (p >>= f) := by
  intro s hs i hi
  rw [stores_bind] at hi
  rcases List.mem_append.mp hi with hi | hi
  · exact hp s hs i hi
  · exact hf _ (hR s hs) _ (hp.final_keeps hI hs) i hi

theorem Emits.bind {p : StoreProgram σ ι α} {f : α → StoreProgram σ ι β}
    (hp : Emits I Q p) (hI : Keeps I Q) (hf : ∀ a, Emits I Q (f a)) :
    Emits I Q (p >>= f) := by
  apply hp.bind_result (R := fun _ => True) hI
  · intro _ _
    trivial
  · intro a _
    exact hf a

/-- Programs in sequence, where no state is excluded. -/
theorem Emits.andThen {p : StoreProgram σ ι α} {f : α → StoreProgram σ ι β}
    (hp : Emits (fun _ => True) Q p) (hf : ∀ a, Emits (fun _ => True) Q (f a)) :
    Emits (fun _ => True) Q (p >>= f) :=
  hp.bind (fun _ _ _ _ => trivial) hf

theorem emits_forEach {body : β → StoreProgram σ ι Unit} {xs : List β} (hI : Keeps I Q)
    (hbody : ∀ x ∈ xs, Emits I Q (body x)) : Emits I Q (forEach body xs) := by
  induction xs with
  | nil => exact emits_pure ()
  | cons x rest ih =>
      unfold forEach
      apply (hbody x List.mem_cons_self).bind hI
      intro _
      apply ih
      intro y hy
      exact hbody y (List.mem_cons_of_mem x hy)

theorem emits_whileOk {body : β → StoreProgram σ ι Bool} {xs : List β} (hI : Keeps I Q)
    (hbody : ∀ x ∈ xs, Emits I Q (body x)) : Emits I Q (whileOk body xs) := by
  induction xs with
  | nil => exact emits_pure true
  | cons x rest ih =>
      unfold whileOk
      apply (hbody x List.mem_cons_self).bind hI
      intro ok
      apply emits_ite
      · intro _
        apply ih
        intro y hy
        exact hbody y (List.mem_cons_of_mem x hy)
      · intro _
        exact emits_pure false

end StoreProgram

end LiveSurface
