import LiveSurface.Library.Topological
import Mathlib.Algebra.GroupWithZero.Nat
import Mathlib.Data.Finset.Card
import Mathlib.Data.List.Chain

/-!
# Depth-first search for edges that close a cycle

The search keeps the vertices it has seen and the path to the vertex it is at, and notes every edge
back into that path.  It ends after at most one call for each vertex.

Main results:

- Theorem {lit}`visit_ends`: the search of one vertex ends, and what it leaves.
- Theorem {lit}`backEdges_spec`: an edge is noted if and only if a cycle can be reached; if there
  is none, all that can be reached is in a topological order.
-/

namespace LiveSurface
namespace DepthFirst

open Relation

variable {α : Type} [DecidableEq α]

/-! ## The search -/

structure Search (α : Type) where
  seen : List α
  stack : List α
  found : List (α × α)

/-- One edge out of {lit}`b`; {lit}`visit` is the search of an unseen vertex. -/
def edge (visit : α → Search α → Option (Search α)) (b : α) (s : Search α) (x : α) :
    Option (Search α) :=
  if x ∈ s.stack then some { s with found := s.found ++ [(b, x)] }
  else if x ∉ s.seen then visit x s
  else some s

/-- The search of a vertex, with fuel. -/
def visit (succ : α → List α) : Nat → α → Search α → Option (Search α)
  | 0, _, _ => none
  | n + 1, b, s => do
      let s ← (succ b).foldlM (edge (visit succ n) b)
        { s with seen := b :: s.seen, stack := s.stack ++ [b] }
      pure { s with stack := s.stack.dropLast }

/-- The edges that the search from {lit}`root` notes. -/
def backEdges (succ : α → List α) (fuel : Nat) (root : α) : Option (List (α × α)) :=
  (visit succ fuel root { seen := [], stack := [], found := [] }).map Search.found

/-! ## What the search of a vertex leaves -/

/-- There is an edge. -/
def Edge (succ : α → List α) (a b : α) : Prop := b ∈ succ a

/-- A cycle can be reached. -/
def Cyclic {α : Type} (r : α → α → Prop) (root : α) : Prop :=
  ∃ x, ReflTransGen r root x ∧ TransGen r x x

/-- The vertices that have not been seen. -/
def unseen (vertices : Finset α) (seen : List α) : Finset α := vertices.filter (· ∉ seen)

/-- Nothing has been noted, and what has been seen is on the stack or comes after all its
successors. -/
structure Clean (succ : α → List α) (s : Search α) : Prop where
  found : s.found = []
  order : ∃ order, Topological (Edge succ) order ∧ ∀ x ∈ s.seen, x ∈ order ∨ x ∈ s.stack

/-- The search has come to a vertex by the path on the stack. -/
structure Path (succ : α → List α) (root : α) (s : Search α) (b : α) : Prop where
  reached : ReflTransGen (Edge succ) root b
  leads : ∀ x ∈ s.stack, ReflTransGen (Edge succ) x b

/-- How a part of the search may end. -/
structure Leaves (succ : α → List α) (root : α) (s s' : Search α) : Prop where
  stack : s'.stack = s.stack
  seen : ∀ x ∈ s.seen, x ∈ s'.seen
  found : s.found <+: s'.found
  clean : Clean succ s → Clean succ s' ∨ s'.found ≠ [] ∧ Cyclic (Edge succ) root

/-- The search of one vertex ends. -/
def Ends (succ : α → List α) (root : α) (n : Nat) (s : Search α) (b : α) : Prop :=
  ∃ s', visit succ n b s = some s' ∧ Leaves succ root s s' ∧ b ∈ s'.seen

section Search

variable {succ : α → List α} {root : α} {s s' s'' : Search α} {b x : α} {vertices : Finset α}

omit [DecidableEq α] in
theorem Leaves.refl (s : Search α) : Leaves succ root s s :=
  ⟨rfl, fun _ h => h, List.prefix_refl _, Or.inl⟩

omit [DecidableEq α] in
theorem Leaves.trans (h : Leaves succ root s s') (h' : Leaves succ root s' s'') :
    Leaves succ root s s'' := by
  refine ⟨h'.stack.trans h.stack, fun x hx => h'.seen x (h.seen x hx), h.found.trans h'.found, ?_⟩
  intro hclean
  rcases h.clean hclean with hclean' | ⟨hfound, hcyclic⟩
  · exact h'.clean hclean'
  · refine Or.inr ⟨fun hnone => hfound ?_, hcyclic⟩
    exact List.prefix_nil.mp (hnone ▸ h'.found)

omit [DecidableEq α] in
/-- An edge back into the stack closes a cycle. -/
theorem Path.leaves_back (hpath : Path succ root s b) (hx : x ∈ s.stack) (hbx : x ∈ succ b) :
    Leaves succ root s { s with found := s.found ++ [(b, x)] } := by
  refine ⟨rfl, fun _ h => h, List.prefix_append _ _, fun _ => Or.inr ⟨by simp, ?_⟩⟩
  exact ⟨x, hpath.reached.tail hbx, TransGen.tail' (hpath.leads x hx) hbx⟩

omit [DecidableEq α] in
theorem Path.next (hpath : Path succ root s b) (hbx : x ∈ succ b) : Path succ root s x :=
  ⟨hpath.reached.tail hbx, fun y hy => (hpath.leads y hy).tail hbx⟩

/-! ## Fuel -/

theorem unseen_subset {seen seen' : List α} (h : ∀ x ∈ seen, x ∈ seen') :
    unseen vertices seen' ⊆ unseen vertices seen := by
  intro x hx
  rw [unseen, Finset.mem_filter] at hx ⊢
  exact ⟨hx.1, fun hseen => hx.2 (h x hseen)⟩

theorem card_unseen_cons {seen : List α} (hb : b ∈ vertices) (hnew : b ∉ seen) :
    (unseen vertices (b :: seen)).card < (unseen vertices seen).card := by
  apply Finset.card_lt_card
  rw [Finset.ssubset_iff_of_subset (unseen_subset fun x hx => List.mem_cons_of_mem b hx)]
  refine ⟨b, Finset.mem_filter.mpr ⟨hb, hnew⟩, fun hmem => ?_⟩
  exact (Finset.mem_filter.mp hmem).2 List.mem_cons_self

/-! ## The edges out of a vertex -/

/-- The loop over the edges ends; when nothing has been noted, all their ends are seen and off the
stack. -/
theorem edges_end {n : Nat} {xs : List α}
    (hvisit : ∀ x s, Path succ root s x → x ∈ vertices → x ∉ s.seen →
      (unseen vertices s.seen).card ≤ n → Ends succ root n s x)
    (hxs : ∀ x ∈ xs, x ∈ succ b ∧ x ∈ vertices) (hpath : Path succ root s b)
    (hfuel : (unseen vertices s.seen).card ≤ n) :
    ∃ s', xs.foldlM (edge (visit succ n) b) s = some s' ∧ Leaves succ root s s' ∧
      (s'.found = [] → ∀ x ∈ xs, x ∈ s'.seen ∧ x ∉ s'.stack) := by
  induction xs generalizing s with
  | nil => exact ⟨s, rfl, Leaves.refl s, fun _ _ h => nomatch h⟩
  | cons x xs ih =>
      obtain ⟨hbx, hvertex⟩ := hxs x List.mem_cons_self
      -- the edge itself
      have hedge : ∃ s₁, edge (visit succ n) b s x = some s₁ ∧ Leaves succ root s s₁ ∧
          (s₁.found = [] → x ∈ s₁.seen ∧ x ∉ s₁.stack) := by
        unfold edge
        split
        · rename_i hstack
          exact ⟨_, rfl, hpath.leaves_back hstack hbx, fun h => absurd h (by simp)⟩
        · rename_i hstack
          split
          · rename_i hnew
            obtain ⟨s₁, hs₁, hleaves, hseen⟩ := hvisit x s (hpath.next hbx) hvertex hnew hfuel
            refine ⟨s₁, hs₁, hleaves, fun _ => ⟨hseen, ?_⟩⟩
            rwa [hleaves.stack]
          · rename_i hold
            exact ⟨s, rfl, Leaves.refl s, fun _ => ⟨not_not.mp hold, hstack⟩⟩
      obtain ⟨s₁, hs₁, hleaves, hx⟩ := hedge
      have hpath₁ : Path succ root s₁ b := ⟨hpath.reached, by rw [hleaves.stack]; exact hpath.leads⟩
      obtain ⟨s', hs', hleaves', hrest⟩ :=
        ih (fun y hy => hxs y (List.mem_cons_of_mem x hy)) hpath₁
          ((Finset.card_le_card (unseen_subset hleaves.seen)).trans hfuel)
      refine ⟨s', ?_, hleaves.trans hleaves', ?_⟩
      · rw [List.foldlM_cons, hs₁]
        exact hs'
      · intro hnone y hy
        rcases List.mem_cons.mp hy with rfl | hy
        · have hnone₁ : s₁.found = [] := List.prefix_nil.mp (hnone ▸ hleaves'.found)
          obtain ⟨hseen, hstack⟩ := hx hnone₁
          exact ⟨hleaves'.seen y hseen, by rwa [hleaves'.stack]⟩
        · exact hrest hnone y hy

omit [DecidableEq α] in
/-- A vertex goes onto the stack. -/
theorem Clean.push (h : Clean succ s) :
    Clean succ { s with seen := b :: s.seen, stack := s.stack ++ [b] } := by
  obtain ⟨order, htop, hseen⟩ := h.order
  refine ⟨h.found, order, htop, fun x hx => ?_⟩
  rcases List.mem_cons.mp hx with rfl | hx
  · exact Or.inr (List.mem_append_right _ List.mem_cons_self)
  · exact (hseen x hx).imp_right (List.mem_append_left [b])

omit [DecidableEq α] in
/-- A vertex leaves the stack after all its successors. -/
theorem Clean.pop {stack : List α} (h : Clean succ s) (hs : s.stack = stack ++ [b])
    (hsucc : ∀ x ∈ succ b, x ∈ s.seen ∧ x ∉ s.stack) :
    Clean succ { s with stack := stack } := by
  obtain ⟨order, htop, hseen⟩ := h.order
  refine ⟨h.found, order ++ [b], htop.append_singleton ?_, ?_⟩
  · intro x hx
    obtain ⟨hold, hstack⟩ := hsucc x hx
    exact (hseen x hold).resolve_right hstack
  · intro x hx
    rcases hseen x hx with hold | hstack
    · exact Or.inl (List.mem_append_left [b] hold)
    · rw [hs, List.mem_append] at hstack
      exact hstack.symm.imp_left (List.mem_append_right order)

/-! ## The whole search -/

/-- The search of a vertex ends when there is fuel for everything unseen. -/
theorem visit_ends (hclosed : ∀ a ∈ vertices, ∀ x ∈ succ a, x ∈ vertices) :
    ∀ n b s, Path succ root s b → b ∈ vertices → b ∉ s.seen →
      (unseen vertices s.seen).card ≤ n → Ends succ root n s b := by
  intro n
  induction n with
  | zero =>
      intro b s _ hvertex hnew hfuel
      have hpos := card_unseen_cons hvertex hnew
      omega
  | succ n ih =>
      intro b s hpath hvertex hnew hfuel
      have hpath₁ : Path succ root { s with seen := b :: s.seen, stack := s.stack ++ [b] } b := by
        refine ⟨hpath.reached, fun x hx => ?_⟩
        rcases List.mem_append.mp hx with hx | hx
        · exact hpath.leads x hx
        · rw [List.mem_singleton.mp hx]
      have hfuel₁ := card_unseen_cons hvertex hnew
      obtain ⟨s₂, hs₂, hleaves, hsucc⟩ := edges_end (fun x s => ih x s)
        (fun x hx => ⟨hx, hclosed b hvertex x hx⟩) hpath₁ (by dsimp only; omega)
      have hstack : s₂.stack = s.stack ++ [b] := hleaves.stack
      have hb : b ∈ s₂.seen := hleaves.seen b List.mem_cons_self
      refine ⟨{ s₂ with stack := s.stack }, ?_, ⟨rfl, ?_, hleaves.found, ?_⟩, hb⟩
      · rw [visit, hs₂]
        change some { s₂ with stack := s₂.stack.dropLast } = _
        rw [hstack, List.dropLast_concat]
      · intro x hx
        exact hleaves.seen x (List.mem_cons_of_mem b hx)
      · intro hclean
        refine (hleaves.clean hclean.push).imp_left fun hclean₂ => ?_
        exact hclean₂.pop hstack (hsucc hclean₂.found)

/-- The search ends.  If it notes an edge, a cycle can be reached; if not, everything that can be
reached is in a topological order. -/
theorem backEdges_spec (hclosed : ∀ a ∈ vertices, ∀ x ∈ succ a, x ∈ vertices)
    (hroot : root ∈ vertices) {fuel : Nat} (hfuel : vertices.card ≤ fuel) :
    ∃ found, backEdges succ fuel root = some found ∧
      (found ≠ [] ∧ Cyclic (Edge succ) root ∨
        found = [] ∧ ∃ order, Topological (Edge succ) order ∧ root ∈ order) := by
  have hle : (unseen vertices []).card ≤ fuel :=
    (Finset.card_le_card (Finset.filter_subset _ _)).trans hfuel
  obtain ⟨s', hs', hleaves, hseen⟩ := visit_ends hclosed fuel root
    { seen := [], stack := [], found := [] } ⟨ReflTransGen.refl, fun _ h => nomatch h⟩ hroot
    List.not_mem_nil hle
  refine ⟨s'.found, by rw [backEdges, hs', Option.map_some], ?_⟩
  have hstart : Clean succ { seen := [], stack := [], found := [] } :=
    ⟨rfl, [], topological_nil, fun _ h => (nomatch h)⟩
  rcases hleaves.clean hstart with hclean | hcyclic
  · obtain ⟨order, htop, hall⟩ := hclean.order
    refine Or.inr ⟨hclean.found, order, htop, (hall root hseen).resolve_right ?_⟩
    rw [hleaves.stack]
    exact List.not_mem_nil
  · exact Or.inl hcyclic

end Search

end DepthFirst
end LiveSurface
