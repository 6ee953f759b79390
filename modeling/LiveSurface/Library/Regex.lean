import LiveSurface.Library.Decide
import Mathlib.Logic.Function.Basic

/-!
# Regular expressions with groups

A matcher that tries the ways to match in their order, goes back when the rest does not match, and
returns what the groups hold on the first way that does.  What is left to match is a continuation.

Main results:

- Theorem {lit}`run_keeps`: what every group keeps holds of the groups of a match.
- Theorem {lit}`fromStart_keeps`: the same of a match from the start.
-/

namespace LiveSurface

inductive Re where
  | empty
  | chr (p : Char → Bool)
  | seq (a b : Re)
  | alt (a b : Re)
  | star (greedy : Bool) (a : Re)
  | group (n : Nat) (a : Re)
  | eos

namespace Re

/-- What the groups hold. -/
abbrev Groups := Nat → Option (List Char)

/-- How the rest of the text goes on. -/
abbrev Rest := List Char → Groups → Option Groups

/-! ## Building expressions -/

/-- The characters of a text, one after the other. -/
def lit (text : String) : Re := text.toList.foldr (fun c r => seq (chr (· == c)) r) empty

def seqs : List Re → Re
  | [] => empty
  | [a] => a
  | a :: rest => seq a (seqs rest)

/-- The first of these texts that leads to a match. -/
def texts : List String → Re
  | [] => chr fun _ => false
  | [a] => lit a
  | a :: rest => alt (lit a) (texts rest)

def opt (a : Re) : Re := alt a empty

def many (a : Re) : Re := star true a

def many1 (a : Re) : Re := seq a (star true a)

/-- As little as possible, but once. -/
def lazy1 (a : Re) : Re := seq a (star false a)

/-! ## Matching -/

/-- Repetition; a turn that takes nothing is not repeated. -/
def iterate (step : List Char → Groups → Rest → Option Groups) (greedy : Bool) :
    Nat → List Char → Groups → Rest → Option Groups
  | 0, s, g, k => k s g
  | n + 1, s, g, k =>
      let more := step s g fun s' g' =>
        if s'.length < s.length then iterate step greedy n s' g' k else none
      if greedy then more.or (k s g) else (k s g).or more

def run : Re → List Char → Groups → Rest → Option Groups
  | empty, s, g, k => k s g
  | chr p, s, g, k =>
      match s with
      | [] => none
      | c :: s => if p c then k s g else none
  | seq a b, s, g, k => run a s g fun s' g' => run b s' g' k
  | alt a b, s, g, k => (run a s g k).or (run b s g k)
  | star greedy a, s, g, k => iterate (run a) greedy s.length s g k
  | group n a, s, g, k =>
      run a s g fun s' g' => k s' (Function.update g' n (some (s.take (s.length - s'.length))))
  | eos, s, g, k => if s = [] ∨ s = ['\n'] then k s g else none

/-- {lit}`re.match`. -/
def fromStart (r : Re) (s : List Char) : Option Groups := run r s (fun _ => none) fun _ g => some g

/-- {lit}`re.search`. -/
def search (r : Re) : List Char → Option Groups
  | [] => r.fromStart []
  | c :: s => (r.fromStart (c :: s)).or (search r s)

/-! ## What the groups keep -/

/-- Every group keeps a property of the groups; of one that takes a single character it is known
which. -/
def Keeps (P : Groups → Prop) : Re → Prop
  | empty | chr _ | eos => True
  | seq a b => Keeps P a ∧ Keeps P b
  | alt a b => Keeps P a ∧ Keeps P b
  | star _ a => Keeps P a
  | group n a =>
      match a with
      | chr p => ∀ g c, p c = true → P g → P (Function.update g n (some [c]))
      | a => Keeps P a ∧ ∀ g t, P g → P (Function.update g n (some t))

variable {P : Groups → Prop} {r : Re} {s : List Char} {g out : Groups} {k : Rest}

/-- A matcher that succeeds has handed over to what is left with groups of the property. -/
def Hands (P : Groups → Prop) (step : List Char → Groups → Rest → Option Groups) : Prop :=
  ∀ s g k out, P g → step s g k = some out → ∃ s' g', P g' ∧ k s' g' = some out

theorem iterate_hands {step : List Char → Groups → Rest → Option Groups} {greedy : Bool}
    (hstep : Hands P step) (n : Nat) : Hands P (iterate step greedy n) := by
  induction n with
  | zero => exact fun s g k out hg h => ⟨s, g, hg, h⟩
  | succ n ih =>
      intro s g k out hg h
      have hmore : ∀ out, (step s g fun s' g' =>
          if s'.length < s.length then iterate step greedy n s' g' k else none) = some out →
          ∃ s' g', P g' ∧ k s' g' = some out := by
        intro out h
        obtain ⟨s', g', hg', h'⟩ := hstep s g _ out hg h
        split at h'
        · exact ih s' g' k out hg' h'
        · contradiction
      rw [iterate] at h
      split at h
      · rcases Option.or_eq_some_iff.mp h with h | ⟨-, h⟩
        · exact hmore out h
        · exact ⟨s, g, hg, h⟩
      · rcases Option.or_eq_some_iff.mp h with h | ⟨-, h⟩
        · exact ⟨s, g, hg, h⟩
        · exact hmore out h

/-- What every group keeps holds of the groups of a match. -/
theorem run_keeps (hr : r.Keeps P) : Hands P r.run := by
  induction r with
  | empty => exact fun s g k out hg h => ⟨s, g, hg, h⟩
  | chr p =>
      intro s g k out hg h
      cases s with
      | nil => contradiction
      | cons c s =>
          rw [run] at h
          split at h
          · exact ⟨s, g, hg, h⟩
          · contradiction
  | seq a b iha ihb =>
      intro s g k out hg h
      obtain ⟨s', g', hg', h'⟩ := iha hr.1 s g _ out hg h
      exact ihb hr.2 s' g' k out hg' h'
  | alt a b iha ihb =>
      intro s g k out hg h
      rcases Option.or_eq_some_iff.mp h with h | ⟨-, h⟩
      · exact iha hr.1 s g k out hg h
      · exact ihb hr.2 s g k out hg h
  | star greedy a ih =>
      intro s g k out hg h
      exact iterate_hands (ih hr) s.length s g k out hg h
  | eos =>
      intro s g k out hg h
      rw [run] at h
      split at h
      · exact ⟨s, g, hg, h⟩
      · contradiction
  | group n a ih =>
      intro s g k out hg h
      rw [run] at h
      have hother : Keeps P a → (∀ g t, P g → P (Function.update g n (some t))) →
          ∃ s' g', P g' ∧ k s' g' = some out := by
        intro ha hset
        obtain ⟨s', g', hg', h'⟩ := ih ha s g _ out hg h
        exact ⟨s', _, hset g' _ hg', h'⟩
      cases a with
      | chr p =>
          cases s with
          | nil => contradiction
          | cons c s =>
              rw [run] at h
              split at h
              · rename_i hc
                rw [List.length_cons, Nat.add_sub_cancel_left, List.take_succ_cons,
                  List.take_zero] at h
                exact ⟨s, _, hr g c hc hg, h⟩
              · contradiction
      | empty => exact hother hr.1 hr.2
      | seq a b => exact hother hr.1 hr.2
      | alt a b => exact hother hr.1 hr.2
      | star greedy a => exact hother hr.1 hr.2
      | group m a => exact hother hr.1 hr.2
      | eos => exact hother hr.1 hr.2

theorem fromStart_keeps (hr : r.Keeps P) (hnone : P fun _ => none) (h : r.fromStart s = some g) : P g := by
  obtain ⟨-, g', hg', heq⟩ := run_keeps hr s _ _ g hnone h
  rw [← Option.some.inj heq]
  exact hg'

theorem keeps_lit (text : String) : (lit text).Keeps P := by
  unfold lit
  induction text.toList with
  | nil => trivial
  | cons c rest ih => exact ⟨trivial, ih⟩

end Re

end LiveSurface
