import Mathlib.Data.List.Induction
import Mathlib.Data.List.Nodup

/-!
# Readers that refuse

A reader of a buffer that nobody has checked ends in one of three ways: it leaves the buffer, it
refuses what it reads, or it accepts it with a value.  What is accepted is said by a plain function
with an optional value, and {lit}`Agrees` relates the two: such a reader never leaves its buffer.

A loop that collects elements, and refuses an element that does not go with those it has already,
accepts a list exactly when each element goes with those before it.

Main results:

- Theorems {lit}`Agrees.bind` and {lit}`agrees_foldlM`: one step after another, and a loop.
- Theorem {lit}`agrees_eq_iff`: a reader that agrees on its values is the function.
- Theorems {lit}`Accepts.bind` and {lit}`Agrees.accepts`: what a sequence of steps accepts.
- Theorem {lit}`foldlM_collect_eq_some_iff`: what a collecting loop accepts.
-/

namespace LiveSurface

/-- {lit}`none` has left the buffer, {lit}`some none` refuses. -/
def Checked (α : Type) : Type := Option (Option α)

namespace Checked

variable {α β γ δ σ τ ι : Type}

instance : Monad Checked where
  pure a := some (some a)
  bind r f := Option.bind r fun
    | none => some none
    | some a => f a

/-- A read either leaves the buffer or has a value. -/
instance : MonadLift Option Checked := ⟨fun r => r.map some⟩

instance [DecidableEq α] : DecidableEq (Checked α) :=
  inferInstanceAs (DecidableEq (Option (Option α)))

/-- The reader has stayed inside its buffer, and answers. -/
def answer (q : Option α) : Checked α := some q

def refuse : Checked α := answer none

def refuseIf (c : Prop) [Decidable c] : Checked Unit := if c then refuse else pure ()

/-- The reader stays inside its buffer, and accepts exactly where the function has a value; the
values are related. -/
def Agrees (R : α → β → Prop) : Checked α → Option β → Prop
  | some none, none => True
  | some (some a), some b => R a b
  | _, _ => False

section Rules

variable {R : α → β → Prop} {S : γ → δ → Prop} {r : Checked α} {q : Option β} {c : Prop} [Decidable c]

theorem agrees_refuse : Agrees R refuse none := trivial

theorem agrees_pure {a : α} {b : β} (h : R a b) : Agrees R (pure a) (some b) := h

/-- One step after another. -/
theorem Agrees.bind {f : α → Checked γ} {g : β → Option δ} (h : Agrees R r q)
    (hf : ∀ a b, R a b → Agrees S (f a) (g b)) : Agrees S (r >>= f) (q.bind g) := by
  unfold Agrees at h
  split at h
  · exact agrees_refuse
  · rename_i a b
    exact hf a b h
  · contradiction

/-- A value that the function makes more of. -/
theorem Agrees.map {T : α → δ → Prop} {g : β → δ} (h : Agrees R r q)
    (hg : ∀ a b, R a b → T a (g b)) : Agrees T r (q.bind fun b => some (g b)) := by
  unfold Agrees at h
  split at h
  · exact agrees_refuse
  · rename_i a b
    exact agrees_pure (hg a b h)
  · contradiction

/-- A read inside the buffer. -/
theorem agrees_read {x : Option α} {a : α} {f : α → Checked γ} {q : Option δ} (hx : x = some a)
    (h : Agrees S (f a) q) : Agrees S ((liftM x : Checked α) >>= f) q := by
  subst hx
  exact h

/-- A check, which the function need not make in the same place. -/
theorem agrees_refuseIf {f : Unit → Checked α} (hc : c → q = none)
    (h : ¬c → Agrees R (f ()) q) : Agrees R (refuseIf c >>= f) q := by
  unfold refuseIf
  by_cases hpos : c
  · rw [if_pos hpos, hc hpos]
    exact agrees_refuse
  · rw [if_neg hpos]
    exact h hpos

/-- A loop. -/
theorem agrees_foldlM {R : σ → τ → Prop} {visit : σ → ι → Checked σ} {step : τ → ι → Option τ}
    {xs : List ι} (hvisit : ∀ i ∈ xs, ∀ s t, R s t → Agrees R (visit s i) (step t i)) {s : σ} {t : τ}
    (h : R s t) : Agrees R (xs.foldlM visit s) (xs.foldlM step t) := by
  induction xs generalizing s t with
  | nil => exact agrees_pure h
  | cons i rest ih =>
      rw [List.foldlM_cons, List.foldlM_cons]
      refine (hvisit i List.mem_cons_self s t h).bind fun s' t' h' => ?_
      exact ih (fun j hj => hvisit j (List.mem_cons_of_mem i hj)) h'

/-- A reader that agrees on its values is the function. -/
theorem agrees_eq_iff {r : Checked α} {q : Option α} : Agrees (· = ·) r q ↔ r = answer q := by
  match r, q with
  | none, _ => exact iff_of_false id fun h => nomatch h
  | some none, none => exact iff_of_true trivial rfl
  | some none, some b => exact iff_of_false id fun h => nomatch Option.some.inj h
  | some (some a), none => exact iff_of_false id fun h => nomatch Option.some.inj h
  | some (some a), some b =>
      exact ⟨fun h => congrArg (fun b => answer (some b)) h,
        fun h => Option.some.inj (Option.some.inj h)⟩

end Rules

/-- The reader stays inside its buffer, and accepts exactly with the values that satisfy a
predicate. -/
def Accepts (r : Checked α) (P : α → Prop) : Prop := ∃ q, r = answer q ∧ ∀ a, q = some a ↔ P a

section Acceptance

variable {r : Checked α} {f : α → Checked β} {P P' : α → Prop} {Q : β → Prop} {c : Prop}
  [Decidable c]

theorem accepts_pure {a : α} : Accepts (pure a) fun b => a = b :=
  ⟨some a, rfl, fun _ => Option.some_inj⟩

theorem accepts_refuse (h : ∀ a, ¬P a) : Accepts refuse P :=
  ⟨none, rfl, fun a => iff_of_false (fun h => nomatch h) (h a)⟩

theorem Accepts.congr (h : Accepts r P) (hP : ∀ a, P a ↔ P' a) : Accepts r P' := by
  obtain ⟨q, hr, hq⟩ := h
  exact ⟨q, hr, fun a => (hq a).trans (hP a)⟩

/-- One step after another. -/
theorem Accepts.bind {Q : α → β → Prop} (h : Accepts r P) (hf : ∀ a, P a → Accepts (f a) (Q a)) :
    Accepts (r >>= f) fun b => ∃ a, P a ∧ Q a b := by
  obtain ⟨q, rfl, hq⟩ := h
  cases q with
  | none => exact accepts_refuse fun b ⟨a, ha, _⟩ => nomatch (hq a).mpr ha
  | some a =>
      obtain ⟨q', hf', hq'⟩ := hf a ((hq a).mp rfl)
      refine ⟨q', hf', fun b => (hq' b).trans ⟨fun hb => ⟨a, (hq a).mp rfl, hb⟩, ?_⟩⟩
      rintro ⟨a', ha', hb⟩
      obtain rfl := Option.some.inj ((hq a').mpr ha')
      exact hb

theorem accepts_read {x : Option α} {a : α} (hx : x = some a) (h : Accepts (f a) Q) :
    Accepts ((liftM x : Checked α) >>= f) Q := by
  subst hx
  exact h

theorem accepts_liftM {x : Option α} {a : α} (hx : x = some a) :
    Accepts (liftM x : Checked α) fun b => a = b := by
  subst hx
  exact accepts_pure

/-- A check that all accepted values pass. -/
theorem accepts_refuseIf {f : Unit → Checked β} (hc : c → ∀ b, ¬Q b)
    (h : ¬c → Accepts (f ()) Q) : Accepts (refuseIf c >>= f) Q := by
  unfold refuseIf
  by_cases hpos : c
  · rw [if_pos hpos]
    exact accepts_refuse (hc hpos)
  · rw [if_neg hpos]
    exact h hpos

/-- What goes on with related values. -/
theorem Agrees.accepts {R : α → γ → Prop} {q : Option γ} {Q : γ → β → Prop} (h : Agrees R r q)
    (hf : ∀ a t, R a t → q = some t → Accepts (f a) (Q t)) :
    Accepts (r >>= f) fun b => ∃ t, q = some t ∧ Q t b := by
  unfold Agrees at h
  split at h
  · exact accepts_refuse fun b ⟨t, ht, _⟩ => nomatch ht
  · rename_i a t
    obtain ⟨q', hq', hiff⟩ := hf a t h rfl
    refine ⟨q', hq', fun b => (hiff b).trans ⟨fun hb => ⟨t, rfl, hb⟩, ?_⟩⟩
    rintro ⟨t', ht', hb⟩
    obtain rfl := Option.some.inj ht'
    exact hb
  · contradiction

end Acceptance

end Checked

/-! ## Loops with optional values -/

section Folds

variable {α β κ σ τ : Type}

/-- Looking the elements up first makes no difference. -/
theorem foldlM_lookup {lookup : α → Option β} {step : σ → β → Option σ} {s : σ} {xs : List α} :
    xs.foldlM (fun s a => (lookup a).bind (step s)) s =
      (xs.mapM lookup).bind fun bs => bs.foldlM step s := by
  induction xs generalizing s with
  | nil => rfl
  | cons a rest ih =>
      rw [List.foldlM_cons, List.mapM_cons]
      cases lookup a with
      | none => rfl
      | some b =>
          cases hb : step s b with
          | none => cases rest.mapM lookup <;> simp [hb]
          | some s' =>
              simp only [Option.bind_some, hb, Option.bind_eq_bind, ih]
              cases rest.mapM lookup <;> simp [hb]

theorem length_mapM {lookup : α → Option β} {xs : List α} {bs : List β}
    (h : xs.mapM lookup = some bs) : bs.length = xs.length := by
  induction xs generalizing bs with
  | nil => rw [← Option.some.inj h]; rfl
  | cons a rest ih =>
      rw [List.mapM_cons] at h
      obtain ⟨b, -, h⟩ := Option.bind_eq_some_iff.mp h
      obtain ⟨bs', hbs, h⟩ := Option.bind_eq_some_iff.mp h
      rw [← Option.some.inj h, List.length_cons, List.length_cons, ih hbs]

/-- Two loops side by side. -/
theorem foldlM_pair {f : σ → α → Option σ} {g : τ → α → Option τ} {s : σ} {t : τ} {xs : List α} :
    xs.foldlM (fun (p : σ × τ) a => (f p.1 a).bind fun s => (g p.2 a).bind fun t => some (s, t))
        (s, t) =
      (xs.foldlM f s).bind fun s => (xs.foldlM g t).bind fun t => some (s, t) := by
  induction xs generalizing s t with
  | nil => rfl
  | cons a rest ih =>
      simp only [List.foldlM_cons]
      cases hf : f s a with
      | none => simp
      | some s' =>
          cases hg : g t a with
          | none => simp
          | some t' => simp [ih]

/-- Take an element that goes with those taken so far. -/
def collect (Ok : List α → α → Prop) [∀ done a, Decidable (Ok done a)] (done : List α) (a : α) :
    Option (List α) := if Ok done a then some (done ++ [a]) else none

/-- A loop takes a list exactly when each element goes with those before it. -/
theorem foldlM_collect_eq_some_iff {Ok : List α → α → Prop} [∀ done a, Decidable (Ok done a)]
    {done all xs : List α} : xs.foldlM (collect Ok) done = some all ↔
      all = done ++ xs ∧ ∀ before a after, xs = before ++ a :: after → Ok (done ++ before) a := by
  induction xs generalizing done with
  | nil => simp [eq_comm]
  | cons x rest ih =>
      rw [List.foldlM_cons, collect]
      by_cases hx : Ok done x
      · rw [if_pos hx]
        refine Iff.trans ih ?_
        rw [List.append_assoc, List.singleton_append]
        refine and_congr_right fun _ => ⟨?_, ?_⟩
        · intro h before a after hsplit
          cases before with
          | nil =>
              obtain ⟨rfl, -⟩ := List.cons.inj hsplit
              rwa [List.append_nil]
          | cons y before =>
              obtain ⟨rfl, hrest⟩ := List.cons.inj hsplit
              have ha := h before a after hrest
              rwa [List.append_assoc, List.singleton_append] at ha
        · intro h before a after hsplit
          rw [List.append_assoc, List.singleton_append]
          exact h (x :: before) a after (by rw [hsplit, List.cons_append])
      · rw [if_neg hx]
        refine iff_of_false (fun h => nomatch h) fun h => hx ?_
        have hfirst := h.2 [] x rest rfl
        rwa [List.append_nil] at hfirst

/-- Elements with the same condition on each. -/
theorem forall_split_iff {P : α → Prop} {xs : List α} :
    (∀ before a after, xs = before ++ a :: after → P a) ↔ ∀ a ∈ xs, P a := by
  constructor
  · intro h a ha
    obtain ⟨before, after, hsplit⟩ := List.append_of_mem ha
    exact h before a after hsplit
  · rintro h before a after rfl
    exact h a (List.mem_append_right before List.mem_cons_self)

/-- Keys are distinct when no element has the key of one before it. -/
theorem nodup_split_iff {key : α → κ} {xs : List α} :
    (∀ before a after, xs = before ++ a :: after → key a ∉ before.map key) ↔
      (xs.map key).Nodup := by
  induction xs using List.reverseRecOn with
  | nil => simp
  | append_singleton xs x ih =>
      rw [List.map_append, List.map_singleton, List.nodup_append_comm, List.singleton_append,
        List.nodup_cons, ← ih]
      constructor
      · intro h
        refine ⟨h xs x [] rfl, fun before a after hsplit => ?_⟩
        exact h before a (after ++ [x]) (by rw [hsplit, List.append_assoc, List.cons_append])
      · rintro ⟨hx, h⟩ before a after hsplit
        rcases List.eq_nil_or_concat after with rfl | ⟨after, y, rfl⟩
        · obtain ⟨rfl, hxa⟩ := List.append_inj' hsplit rfl
          obtain ⟨rfl, -⟩ := List.cons.inj hxa
          exact hx
        · rw [List.concat_eq_append, ← List.cons_append, ← List.append_assoc] at hsplit
          exact h before a after (List.append_inj' hsplit rfl).1

/-- A number of elements that is never reached bounds the list. -/
theorem length_split_iff {n : Nat} {xs : List α} :
    (∀ before a after, xs = before ++ a :: after → before.length ≠ n) ↔ xs.length ≤ n := by
  constructor
  · intro h
    by_contra hlt
    rw [Nat.not_le] at hlt
    refine h (xs.take n) xs[n] (xs.drop (n + 1)) ?_ ?_
    · rw [← List.drop_eq_getElem_cons hlt, List.take_append_drop]
    · rw [List.length_take, Nat.min_eq_left (Nat.le_of_lt hlt)]
  · rintro h before a after rfl
    rw [List.length_append, List.length_cons] at h
    omega

end Folds

end LiveSurface
