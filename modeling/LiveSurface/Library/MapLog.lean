import Mathlib.Data.List.Basic
import Mathlib.Logic.Function.Basic

/-!
# Finite maps replayed from a log

The contents of a key-value store as the replay of what happened to it: stores,
deletions and evictions, newest first.

Main results:

- Theorem {lit}`MapLog.valueOf_eq_none_iff`: a key is absent exactly when every
  store of it was followed by a removal of it.
- Theorems {lit}`MapLog.valueOf_stored` and {lit}`MapLog.valueOf_deleted`: the log
  grows in step with a point update of the contents.
-/

namespace LiveSurface

/-- What can happen to a key. -/
inductive MapEvent (K V : Type)
  | stored (key : K) (value : V)
  | deleted (key : K)
  | evicted (key : K)

namespace MapLog

variable {K V : Type} [DecidableEq K]

/-- The value a log leaves at a key. -/
def valueOf : List (MapEvent K V) → K → Option V
  | [], _ => none
  | .stored k v :: older, key => if key = k then some v else valueOf older key
  | .deleted k :: older, key => if key = k then none else valueOf older key
  | .evicted k :: older, key => if key = k then none else valueOf older key

theorem valueOf_stored (log : List (MapEvent K V)) (k : K) (v : V) :
    valueOf (.stored k v :: log) = Function.update (valueOf log) k (some v) := by
  funext key
  by_cases h : key = k
  · subst h
    simp [valueOf]
  · simp [valueOf, h]

theorem valueOf_deleted (log : List (MapEvent K V)) (k : K) :
    valueOf (.deleted k :: log) = Function.update (valueOf log) k none := by
  funext key
  by_cases h : key = k
  · subst h
    simp [valueOf]
  · simp [valueOf, h]

theorem valueOf_evicted (log : List (MapEvent K V)) (k : K) :
    valueOf (.evicted k :: log) = Function.update (valueOf log) k none := by
  funext key
  by_cases h : key = k
  · subst h
    simp [valueOf]
  · simp [valueOf, h]

/-- Whether an event removes a key. -/
def Removes (event : MapEvent K V) (key : K) : Prop :=
  event = .deleted key ∨ event = .evicted key

/-- Every store of the key has been followed by a removal of it. -/
def Absent (log : List (MapEvent K V)) (key : K) : Prop :=
  ∀ newer value older, log = newer ++ .stored key value :: older →
    ∃ event ∈ newer, Removes event key

omit [DecidableEq K] in
/-- A newer event about another key does not make a key present or absent. -/
theorem absent_cons_iff {event : MapEvent K V} {log : List (MapEvent K V)} {key : K}
    (hstored : ∀ value, event ≠ .stored key value) (hremoves : ¬Removes event key) :
    Absent (event :: log) key ↔ Absent log key := by
  constructor
  · intro h newer value older heq
    rcases h (event :: newer) value older (by rw [heq, List.cons_append]) with
      ⟨e, he, hrem⟩
    rcases List.mem_cons.mp he with rfl | he
    · exact absurd hrem hremoves
    · exact ⟨e, he, hrem⟩
  · intro h newer value older heq
    cases newer with
    | nil =>
        simp only [List.nil_append, List.cons.injEq] at heq
        exact absurd heq.1 (hstored value)
    | cons e newer =>
        simp only [List.cons_append, List.cons.injEq] at heq
        rcases h newer value older heq.2 with ⟨e', he', hrem⟩
        exact ⟨e', List.mem_cons_of_mem _ he', hrem⟩

omit [DecidableEq K] in
/-- A removal makes a key absent. -/
theorem absent_cons_of_removes {event : MapEvent K V} {log : List (MapEvent K V)} {key : K}
    (hstored : ∀ value, event ≠ .stored key value) (hremoves : Removes event key) :
    Absent (event :: log) key := by
  intro newer value older heq
  cases newer with
  | nil =>
      simp only [List.nil_append, List.cons.injEq] at heq
      exact absurd heq.1 (hstored value)
  | cons e newer =>
      simp only [List.cons_append, List.cons.injEq] at heq
      exact ⟨e, List.mem_cons_self, heq.1 ▸ hremoves⟩

/-- The replay has no value for a key exactly when the key is absent. -/
theorem valueOf_eq_none_iff (log : List (MapEvent K V)) (key : K) :
    valueOf log key = none ↔ Absent log key := by
  induction log with
  | nil =>
      simp only [valueOf, true_iff]
      intro newer value older heq
      cases newer <;> contradiction
  | cons event log ih =>
      cases event with
      | stored k v =>
          by_cases hk : key = k
          · subst hk
            simp only [valueOf, if_pos, reduceCtorEq, false_iff]
            intro h
            rcases h [] v log rfl with ⟨e, he, _⟩
            contradiction
          · simp only [valueOf, if_neg hk, ih]
            rw [absent_cons_iff]
            · intro value heq
              cases heq
              exact hk rfl
            · rintro (h | h) <;> contradiction
      | deleted k =>
          by_cases hk : key = k
          · subst hk
            simp only [valueOf, if_pos, true_iff]
            exact absent_cons_of_removes (by simp) (.inl rfl)
          · simp only [valueOf, if_neg hk, ih]
            rw [absent_cons_iff (by simp)]
            rintro (h | h)
            · cases h
              exact hk rfl
            · contradiction
      | evicted k =>
          by_cases hk : key = k
          · subst hk
            simp only [valueOf, if_pos, true_iff]
            exact absent_cons_of_removes (by simp) (.inr rfl)
          · simp only [valueOf, if_neg hk, ih]
            rw [absent_cons_iff (by simp)]
            rintro (h | h)
            · contradiction
            · cases h
              exact hk rfl

end MapLog

end LiveSurface
