import LiveSurface.Library.DepthFirst
import LiveSurface.Library.Dict

/-!
# Longest walks

Every vertex has a cost, and a walk costs the sum of its vertices.  Where no cycle can be reached,
the greatest cost of a walk is that of a walk which ends in a vertex without successors, and a
recursion with a memo finds it.

The vertices of a graph may be gathered into blocks, runs of vertices that follow each other without
a choice.  The graph of the blocks has walks of the same costs.

Main results:

- Theorem {lit}`longestPath_spec`: the recursion ends with the greatest cost.
- Theorem {lit}`Longest.not_cyclic`: a greatest cost leaves no room for a cycle.
- Theorem {lit}`Gathered.longest` and theorem {lit}`Gathered.cyclic`: blocks keep the greatest cost,
  and a cycle of blocks is one of vertices.
-/

namespace LiveSurface
namespace DepthFirst

open Relation

/-! ## Walks -/

section Walks

variable {α : Type} {r : α → α → Prop} {w : α → Nat} {a b : α} {v m : Nat}

/-- The cost of a walk. -/
def cost (w : α → Nat) (walk : List α) : Nat := (walk.map w).sum

@[simp]
theorem cost_nil : cost w [] = 0 := rfl

@[simp]
theorem cost_cons (a : α) (walk : List α) : cost w (a :: walk) = w a + cost w walk := by
  simp [cost]

@[simp]
theorem cost_append (walk walk' : List α) :
    cost w (walk ++ walk') = cost w walk + cost w walk' := by
  simp [cost]

/-- A walk that cannot go on. -/
def Complete (r : α → α → Prop) (walk : List α) : Prop :=
  walk.IsChain r ∧ ∀ x ∈ walk.getLast?, ∀ y, ¬r x y

/-- The greatest cost of a walk from a vertex, which a walk has that cannot go on. -/
structure Longest (r : α → α → Prop) (w : α → Nat) (a : α) (v : Nat) : Prop where
  attained : ∃ walk, Complete r (a :: walk) ∧ cost w (a :: walk) = v
  bound : ∀ walk, (a :: walk).IsChain r → cost w (a :: walk) ≤ v

/-- The greatest cost, from those of the successors. -/
theorem longest_of_successors (hle : ∀ b, r a b → ∃ v, Longest r w b v ∧ v ≤ m)
    (hm : (∀ b, ¬r a b) ∧ m = 0 ∨ ∃ b, r a b ∧ Longest r w b m) : Longest r w a (w a + m) := by
  constructor
  · rcases hm with ⟨hnone, rfl⟩ | ⟨b, hab, hlongest⟩
    · refine ⟨[], ⟨List.IsChain.singleton a, ?_⟩, rfl⟩
      intro x hx
      obtain rfl : a = x := by simpa using hx
      exact hnone
    · obtain ⟨walk, ⟨hchain, hlast⟩, hcost⟩ := hlongest.attained
      refine ⟨b :: walk, ⟨List.IsChain.cons_cons hab hchain, ?_⟩, ?_⟩
      · rwa [List.getLast?_cons_cons]
      · rw [cost_cons, hcost]
  · intro walk hchain
    cases walk with
    | nil =>
        rw [cost_cons, cost_nil]
        omega
    | cons b walk =>
        obtain ⟨hab, hrest⟩ := List.isChain_cons_cons.mp hchain
        obtain ⟨v, hlongest, hv⟩ := hle b hab
        have hbound := hlongest.bound walk hrest
        rw [cost_cons]
        omega

/-- From a vertex on a cycle there are walks of every length. -/
theorem exists_walk_of_cycle (n : Nat) :
    ∀ a, TransGen r a a → ∃ walk, (a :: walk).IsChain r ∧ walk.length = n := by
  induction n with
  | zero => exact fun a _ => ⟨[], List.IsChain.singleton a, rfl⟩
  | succ n ih =>
      intro a hcycle
      obtain ⟨b, hab, hba⟩ := (TransGen.head'_iff).mp hcycle
      obtain ⟨walk, hchain, hlength⟩ := ih b (TransGen.tail' hba hab)
      exact ⟨b :: walk, List.IsChain.cons_cons hab hchain, by rw [List.length_cons, hlength]⟩

theorem exists_walk_of_cyclic (hcyclic : Cyclic r a) (n : Nat) :
    ∃ walk, (a :: walk).IsChain r ∧ n ≤ walk.length := by
  obtain ⟨x, hax, hx⟩ := hcyclic
  induction hax using ReflTransGen.head_induction_on with
  | refl =>
      obtain ⟨walk, hchain, hlength⟩ := exists_walk_of_cycle n x hx
      exact ⟨walk, hchain, hlength.ge⟩
  | @head b c hbc _ ih =>
      obtain ⟨walk, hchain, hlength⟩ := ih
      exact ⟨c :: walk, List.IsChain.cons_cons hbc hchain, hlength.trans (Nat.le_succ _)⟩

theorem length_le_cost (hw : ∀ x, 0 < w x) (walk : List α) : walk.length ≤ cost w walk := by
  induction walk with
  | nil => exact Nat.le_refl 0
  | cons a walk ih =>
      have hpos := hw a
      rw [cost_cons, List.length_cons]
      omega

/-- A greatest cost leaves no room for a cycle, when every vertex costs something. -/
theorem Longest.not_cyclic (h : Longest r w a v) (hw : ∀ x, 0 < w x) : ¬Cyclic r a := by
  intro hcyclic
  obtain ⟨walk, hchain, hlength⟩ := exists_walk_of_cyclic hcyclic v
  have hcost := length_le_cost hw (a :: walk)
  have hbound := h.bound walk hchain
  rw [List.length_cons] at hcost
  omega

end Walks

/-! ## The recursion -/

section Recursion

variable {α : Type} [DecidableEq α]

/-- One successor; {lit}`best` is the recursion from it. -/
def raise (best : α → Dict α Nat → Option (Nat × Dict α Nat)) (acc : Nat × Dict α Nat) (x : α) :
    Option (Nat × Dict α Nat) := do
  let (v, memo) ← best x acc.2
  pure (max acc.1 v, memo)

/-- The greatest cost from a vertex, with fuel; what the memo has is not computed again. -/
def best (succ : α → List α) (w : α → Nat) : Nat → α → Dict α Nat → Option (Nat × Dict α Nat)
  | 0, _, _ => none
  | n + 1, b, memo =>
      match memo.get? b with
      | some v => some (v, memo)
      | none => do
          let (most, memo) ← (succ b).foldlM (raise (best succ w n)) (0, memo.set b (w b))
          pure (w b + most, memo.set b (w b + most))

def longestPath (succ : α → List α) (w : α → Nat) (fuel : Nat) (root : α) : Option Nat :=
  (best succ w fuel root .empty).map Prod.fst

/-- What the memo has is right, except for the vertices that are still open. -/
def Right (succ : α → List α) (w : α → Nat) (opened : List α) (memo : Dict α Nat) : Prop :=
  ∀ x v, memo.get? x = some v → x ∈ opened ∨ Longest (Edge succ) w x v

/-- The vertices that the memo does not have. -/
def missing (vertices : Finset α) (memo : Dict α Nat) : Finset α :=
  vertices.filter fun x => memo.get? x = none

variable {succ : α → List α} {w : α → Nat} {vertices : Finset α} {order opened : List α}
  {memo memo' : Dict α Nat} {b : α} {n : Nat}

theorem missing_subset (h : ∀ x, memo'.get? x = none → memo.get? x = none) :
    missing vertices memo' ⊆ missing vertices memo := by
  intro x hx
  rw [missing, Finset.mem_filter] at hx ⊢
  exact ⟨hx.1, h x hx.2⟩

theorem get?_of_get?_set {v : Nat} {x : α} (h : (memo.set b v).get? x = none) :
    memo.get? x = none := by
  rw [Dict.get?_set] at h
  split at h
  · contradiction
  · exact h

theorem card_missing_set {v : Nat} (hb : b ∈ vertices) (hnone : memo.get? b = none) :
    (missing vertices (memo.set b v)).card < (missing vertices memo).card := by
  apply Finset.card_lt_card
  rw [Finset.ssubset_iff_of_subset (missing_subset fun x => get?_of_get?_set)]
  refine ⟨b, Finset.mem_filter.mpr ⟨hb, hnone⟩, fun hmem => ?_⟩
  have hget := (Finset.mem_filter.mp hmem).2
  rw [Dict.get?_set_self] at hget
  contradiction

/-- The recursion from a vertex ends with its greatest cost, and with a memo that is as right. -/
def Finds (succ : α → List α) (w : α → Nat) (n : Nat) (b : α) (opened : List α)
    (memo : Dict α Nat) : Prop :=
  ∃ v memo', best succ w n b memo = some (v, memo') ∧ Longest (Edge succ) w b v ∧
    Right succ w opened memo' ∧ ∀ x, memo'.get? x = none → memo.get? x = none

/-- The loop over the successors. -/
theorem successors_found {xs : List α} (most : Nat)
    (hbest : ∀ x ∈ xs, ∀ memo, Right succ w opened memo → (missing vertices memo).card < n →
      Finds succ w n x opened memo)
    (hright : Right succ w opened memo) (hfuel : (missing vertices memo).card < n) :
    ∃ most' memo', xs.foldlM (raise (best succ w n)) (most, memo) = some (most', memo') ∧
      Right succ w opened memo' ∧ (∀ x, memo'.get? x = none → memo.get? x = none) ∧
      most ≤ most' ∧ (∀ x ∈ xs, ∃ v, Longest (Edge succ) w x v ∧ v ≤ most') ∧
      (most' = most ∨ ∃ x ∈ xs, Longest (Edge succ) w x most') := by
  induction xs generalizing most memo with
  | nil =>
      exact ⟨most, memo, rfl, hright, fun _ h => h, Nat.le_refl most, fun _ h => (nomatch h),
        Or.inl rfl⟩
  | cons x xs ih =>
      obtain ⟨v, memo₁, hv, hlongest, hright₁, hkeeps⟩ :=
        hbest x List.mem_cons_self memo hright hfuel
      obtain ⟨most', memo', hrest, hright', hkeeps', hle, hall, hone⟩ :=
        ih (max most v) (fun y hy => hbest y (List.mem_cons_of_mem x hy)) hright₁
          ((Finset.card_le_card (missing_subset hkeeps)).trans_lt hfuel)
      refine ⟨most', memo', ?_, hright', fun y hy => hkeeps y (hkeeps' y hy), ?_, ?_, ?_⟩
      · rw [List.foldlM_cons, raise, hv]
        exact hrest
      · exact (Nat.le_max_left most v).trans hle
      · intro y hy
        rcases List.mem_cons.mp hy with rfl | hy
        · exact ⟨v, hlongest, (Nat.le_max_right most v).trans hle⟩
        · exact hall y hy
      · rcases hone with hsame | ⟨y, hy, hlongest'⟩
        · rcases Nat.le_total most v with hge | hge
          · rw [Nat.max_eq_right hge] at hsame
            exact Or.inr ⟨x, List.mem_cons_self, hsame ▸ hlongest⟩
          · rw [Nat.max_eq_left hge] at hsame
            exact Or.inl hsame
        · exact Or.inr ⟨y, List.mem_cons_of_mem x hy, hlongest'⟩

/-- In a topological order the recursion never meets a vertex that is still open. -/
theorem best_finds (htop : Topological (Edge succ) order)
    (hclosed : ∀ a ∈ vertices, ∀ x ∈ succ a, x ∈ vertices) :
    ∀ n b opened memo, b ∈ order → b ∈ vertices → (∀ x ∈ opened, TransGen (Edge succ) x b) →
      Right succ w opened memo → (missing vertices memo).card < n →
        Finds succ w n b opened memo := by
  intro n
  induction n with
  | zero => exact fun _ _ _ _ _ _ _ hfuel => absurd hfuel (Nat.not_lt_zero _)
  | succ n ih =>
      intro b opened memo hb hvertex hopened hright hfuel
      have hclose : b ∉ opened := fun hmem => htop.acyclic hb (hopened b hmem)
      unfold Finds
      rw [best]
      cases hget : memo.get? b with
      | some v => exact ⟨v, memo, rfl, (hright b v hget).resolve_left hclose, hright, fun _ h => h⟩
      | none =>
          have hright₁ : Right succ w (b :: opened) (memo.set b (w b)) := by
            intro x v hx
            rw [Dict.get?_set] at hx
            split at hx
            · rename_i heq
              exact Or.inl (heq ▸ List.mem_cons_self)
            · exact (hright x v hx).imp_left (List.mem_cons_of_mem b)
          have hfuel₁ := card_missing_set (v := w b) hvertex hget
          obtain ⟨most, memo₂, hloop, hright₂, hkeeps, -, hall, hone⟩ :=
            successors_found 0 (fun x (hx : x ∈ succ b) memo => ih x (b :: opened) memo
              (htop.mem hb hx) (hclosed b hvertex x hx) (fun y hy => by
                rcases List.mem_cons.mp hy with rfl | hy
                · exact TransGen.single hx
                · exact (hopened y hy).tail hx)) hright₁ (by omega)
          have hlongest : Longest (Edge succ) w b (w b + most) := by
            refine longest_of_successors hall ?_
            rcases hone with rfl | hone
            · rcases List.eq_nil_or_concat (succ b) with hnil | ⟨xs, x, hlast⟩
              · refine Or.inl ⟨fun y hy => ?_, rfl⟩
                rw [Edge, hnil] at hy
                exact absurd hy List.not_mem_nil
              · -- a successor whose greatest cost is nothing
                have hx : x ∈ succ b := by
                  rw [hlast]
                  simp
                obtain ⟨v, hlongest, hv⟩ := hall x hx
                obtain rfl := Nat.le_zero.mp hv
                exact Or.inr ⟨x, hx, hlongest⟩
            · exact Or.inr hone
          refine ⟨w b + most, memo₂.set b (w b + most), ?_, hlongest, ?_, ?_⟩
          · dsimp only
            rw [hloop]
            rfl
          · intro x v hx
            rw [Dict.get?_set] at hx
            split at hx
            · rename_i heq
              rw [heq, ← Option.some.inj hx]
              exact Or.inr hlongest
            · rename_i hne
              refine (hright₂ x v hx).imp_left fun hmem => ?_
              exact (List.mem_cons.mp hmem).resolve_left hne
          · intro x hx
            exact get?_of_get?_set (hkeeps x (get?_of_get?_set hx))

/-- Where everything that can be reached is in a topological order, the recursion ends with the
greatest cost. -/
theorem longestPath_spec {root : α} {fuel : Nat} (htop : Topological (Edge succ) order)
    (horder : root ∈ order) (hclosed : ∀ a ∈ vertices, ∀ x ∈ succ a, x ∈ vertices)
    (hroot : root ∈ vertices) (hfuel : vertices.card < fuel) :
    ∃ v, longestPath succ w fuel root = some v ∧ Longest (Edge succ) w root v := by
  obtain ⟨v, memo, hbest, hlongest, -⟩ := best_finds (w := w) htop hclosed fuel root [] .empty
    horder hroot (fun _ h => (nomatch h)) (fun x v hx => by
      rw [Dict.get?_empty] at hx
      contradiction)
    ((Finset.card_le_card (Finset.filter_subset _ _)).trans_lt hfuel)
  exact ⟨v, by rw [longestPath, hbest, Option.map_some], hlongest⟩

end Recursion

/-! ## Blocks -/

section Blocks

variable {α β : Type} {r : α → α → Prop} {s : β → β → Prop} {body : β → List α} {w : α → Nat}
  {out : α → Prop} {blocks : β → Prop}

/-- Vertices of which each has the next as its only successor; the last has those of a set. -/
def Straight (r : α → α → Prop) (out : α → Prop) : List α → Prop
  | [] => False
  | [x] => ∀ y, r x y ↔ out y
  | x :: y :: rest => (∀ z, r x z ↔ z = y) ∧ Straight r out (y :: rest)

/-- The successors of the last vertex of a block are the first vertices of the blocks that follow
it. -/
structure Gathered (r : α → α → Prop) (s : β → β → Prop) (body : β → List α) (blocks : β → Prop) :
    Prop where
  closed : ∀ b, blocks b → ∀ b', s b b' → blocks b'
  straight : ∀ b, blocks b → Straight r (fun y => ∃ b', s b b' ∧ (body b').head? = some y) (body b)

theorem Straight.isChain {run : List α} (h : Straight r out run) : run.IsChain r := by
  induction run with
  | nil => exact List.IsChain.nil
  | cons x run ih =>
      cases run with
      | nil => exact List.IsChain.singleton x
      | cons y run => exact List.IsChain.cons_cons ((h.1 y).mpr rfl) (ih h.2)

theorem Straight.getLast? {run : List α} (h : Straight r out run) :
    ∃ x, run.getLast? = some x ∧ ∀ y, r x y ↔ out y := by
  induction run with
  | nil => exact h.elim
  | cons x run ih =>
      cases run with
      | nil => exact ⟨x, rfl, h⟩
      | cons y run =>
          obtain ⟨z, hz, hout⟩ := ih h.2
          exact ⟨z, by rwa [List.getLast?_cons_cons], hout⟩

theorem Straight.head? {run : List α} (h : Straight r out run) : ∃ x, run.head? = some x := by
  cases run with
  | nil => exact h.elim
  | cons x run => exact ⟨x, rfl⟩

/-- A walk stays in the run or goes through all of it. -/
theorem Straight.split {run walk : List α} (h : Straight r out run) (hwalk : walk.IsChain r)
    (hhead : walk.head? = run.head?) :
    walk <+: run ∨ ∃ y rest, walk = run ++ y :: rest ∧ out y := by
  induction run generalizing walk with
  | nil => exact h.elim
  | cons x run ih =>
      cases walk with
      | nil => exact Or.inl List.nil_prefix
      | cons a walk =>
          obtain rfl : a = x := Option.some.inj hhead
          cases walk with
          | nil => exact Or.inl ((List.prefix_cons_inj a).mpr List.nil_prefix)
          | cons c walk =>
              obtain ⟨hac, hrest⟩ := List.isChain_cons_cons.mp hwalk
              cases run with
              | nil => exact Or.inr ⟨c, walk, rfl, (h c).mp hac⟩
              | cons y run =>
                  obtain rfl : c = y := (h.1 c).mp hac
                  rcases ih h.2 hrest rfl with hprefix | ⟨z, rest, hsplit, hout⟩
                  · exact Or.inl ((List.prefix_cons_inj a).mpr hprefix)
                  · exact Or.inr ⟨z, rest, by rw [hsplit]; rfl, hout⟩

theorem cost_le_of_prefix {walk run : List α} (h : walk <+: run) : cost w walk ≤ cost w run := by
  obtain ⟨rest, rfl⟩ := h
  rw [cost_append]
  omega

theorem transGen_of_isChain {a b : α} {walk : List α} (h : (a :: (walk ++ [b])).IsChain r) :
    TransGen r a b := by
  induction walk generalizing a with
  | nil => exact TransGen.single (List.isChain_cons_cons.mp h).1
  | cons x walk ih =>
      obtain ⟨hax, hrest⟩ := List.isChain_cons_cons.mp h
      exact TransGen.head hax (ih hrest)

variable (hg : Gathered r s body blocks)

include hg

theorem Gathered.head? {b : β} (hb : blocks b) : ∃ x, (body b).head? = some x :=
  (hg.straight b hb).head?

/-- A block leads to the first vertex of a block that follows it. -/
theorem Gathered.transGen {b b' : β} {x y : α} (hb : blocks b) (hbb : s b b')
    (hx : (body b).head? = some x) (hy : (body b').head? = some y) : TransGen r x y := by
  have hstraight := hg.straight b hb
  obtain ⟨z, hz, hout⟩ := hstraight.getLast?
  have hchain : (body b ++ [y]).IsChain r := by
    refine List.isChain_append.mpr ⟨hstraight.isChain, List.IsChain.singleton y, ?_⟩
    intro u hu v hv
    obtain rfl : z = u := Option.some.inj (hz.symm.trans hu)
    obtain rfl : y = v := Option.some.inj hv
    exact (hout y).mpr ⟨b', hbb, hy⟩
  cases hbody : body b with
  | nil =>
      rw [hbody] at hx
      contradiction
  | cons u run =>
      rw [hbody] at hx hchain
      obtain rfl : u = x := Option.some.inj hx
      exact transGen_of_isChain hchain

theorem Gathered.of_reflTransGen {b c : β} (hb : blocks b) (h : ReflTransGen s b c) : blocks c := by
  induction h with
  | refl => exact hb
  | tail _ hstep ih => exact hg.closed _ ih _ hstep

theorem Gathered.lift_transGen {b c : β} {x z : α} (hb : blocks b) (h : TransGen s b c)
    (hx : (body b).head? = some x) (hz : (body c).head? = some z) : TransGen r x z := by
  induction h generalizing z with
  | single hstep => exact hg.transGen hb hstep hx hz
  | @tail c d hbc hstep ih =>
      have hc := hg.of_reflTransGen hb hbc.to_reflTransGen
      obtain ⟨y, hy⟩ := hg.head? hc
      exact (ih hy).trans (hg.transGen hc hstep hy hz)

/-- A cycle of blocks is a cycle of vertices. -/
theorem Gathered.cyclic {b : β} {x : α} (hb : blocks b) (hx : (body b).head? = some x)
    (h : Cyclic s b) : Cyclic r x := by
  obtain ⟨c, hbc, hcycle⟩ := h
  have hc := hg.of_reflTransGen hb hbc
  obtain ⟨z, hz⟩ := hg.head? hc
  refine ⟨z, ?_, hg.lift_transGen hc hcycle hz hz⟩
  rcases Relation.reflTransGen_iff_eq_or_transGen.mp hbc with rfl | hbc
  · rw [Option.some.inj (hz.symm.trans hx)]
  · exact (hg.lift_transGen hb hbc hx hz).to_reflTransGen

/-- A walk of vertices costs at most what a walk of blocks does. -/
theorem Gathered.project (n : Nat) : ∀ (b : β) (walk : List α), blocks b → walk.length ≤ n →
    walk.IsChain r → walk.head? = (body b).head? →
      ∃ bs, (b :: bs).IsChain s ∧ cost w walk ≤ cost (fun b => cost w (body b)) (b :: bs) := by
  induction n with
  | zero =>
      intro b walk _ hlength _ _
      refine ⟨[], List.IsChain.singleton b, ?_⟩
      rw [List.length_eq_zero_iff.mp (Nat.le_zero.mp hlength)]
      exact Nat.zero_le _
  | succ n ih =>
      intro b walk hb hlength hwalk hhead
      have hstraight := hg.straight b hb
      rcases hstraight.split hwalk hhead with hprefix | ⟨y, rest, rfl, b', hbb, hy⟩
      · refine ⟨[], List.IsChain.singleton b, ?_⟩
        rw [cost_cons, cost_nil, Nat.add_zero]
        exact cost_le_of_prefix hprefix
      · have hpos : 0 < (body b).length := by
          obtain ⟨x, hx⟩ := hstraight.head?
          exact List.length_pos_of_mem (List.mem_of_mem_head? hx)
        rw [List.length_append] at hlength
        obtain ⟨bs, hchain, hcost⟩ := ih b' (y :: rest) (hg.closed b hb b' hbb) (by omega)
          (List.isChain_append.mp hwalk).2.1 hy.symm
        refine ⟨b' :: bs, List.IsChain.cons_cons hbb hchain, ?_⟩
        rw [cost_append, cost_cons (w := fun b => cost w (body b)) b]
        omega

/-- A walk of blocks is a walk of their vertices. -/
theorem Gathered.lift {b : β} {bs : List β} (hb : blocks b) (h : (b :: bs).IsChain s) :
    ((b :: bs).flatMap body).IsChain r ∧
      cost w ((b :: bs).flatMap body) = cost (fun b => cost w (body b)) (b :: bs) ∧
      (Complete s (b :: bs) → Complete r ((b :: bs).flatMap body)) := by
  induction bs generalizing b with
  | nil =>
      have hstraight := hg.straight b hb
      obtain ⟨z, hz, hout⟩ := hstraight.getLast?
      rw [List.flatMap_singleton]
      refine ⟨hstraight.isChain, by simp, fun hcomplete => ⟨hstraight.isChain, ?_⟩⟩
      intro x hx y hxy
      obtain rfl : z = x := Option.some.inj (hz.symm.trans hx)
      obtain ⟨b', hbb, -⟩ := (hout y).mp hxy
      exact hcomplete.2 b rfl b' hbb
  | cons c bs ih =>
      obtain ⟨hbc, hrest⟩ := List.isChain_cons_cons.mp h
      have hc := hg.closed b hb c hbc
      obtain ⟨hchain, hcost, hcomplete⟩ := ih hc hrest
      have hstraight := hg.straight b hb
      obtain ⟨z, hz, hout⟩ := hstraight.getLast?
      obtain ⟨y, hy⟩ := hg.head? hc
      have hfirst : ((c :: bs).flatMap body).head? = some y := by
        rw [List.flatMap_cons, List.head?_append, hy, Option.some_or]
      have hall : (body b ++ (c :: bs).flatMap body).IsChain r := by
        refine List.isChain_append.mpr ⟨hstraight.isChain, hchain, ?_⟩
        intro u hu v hv
        obtain rfl : z = u := Option.some.inj (hz.symm.trans hu)
        obtain rfl : y = v := Option.some.inj (hfirst.symm.trans hv)
        exact (hout y).mpr ⟨c, hbc, hy⟩
      rw [List.flatMap_cons]
      refine ⟨hall, ?_, fun hends => ⟨hall, ?_⟩⟩
      · rw [cost_append, hcost, cost_cons (w := fun b => cost w (body b)) b]
      · have hlast : (body b ++ (c :: bs).flatMap body).getLast? =
            ((c :: bs).flatMap body).getLast? := by
          rw [List.getLast?_append]
          obtain ⟨x, hx⟩ : ∃ x, ((c :: bs).flatMap body).getLast? = some x := by
            apply Option.isSome_iff_exists.mp
            rw [List.getLast?_isSome]
            rintro hnil
            rw [hnil] at hfirst
            contradiction
          rw [hx, Option.some_or]
        rw [hlast]
        refine (hcomplete ⟨hrest, ?_⟩).2
        have hend := hends.2
        rwa [List.getLast?_cons_cons] at hend

/-- The greatest cost of a walk of blocks is that of a walk of vertices. -/
theorem Gathered.longest {b : β} {x : α} {v : Nat} (hb : blocks b) (hx : (body b).head? = some x)
    (h : Longest s (fun b => cost w (body b)) b v) : Longest r w x v := by
  constructor
  · obtain ⟨bs, hcomplete, hcost⟩ := h.attained
    obtain ⟨-, hsum, hlift⟩ := hg.lift hb hcomplete.1
    have hwalk := hlift hcomplete
    cases hflat : (b :: bs).flatMap body with
    | nil =>
        rw [List.flatMap_cons] at hflat
        rw [(List.append_eq_nil_iff.mp hflat).1] at hx
        contradiction
    | cons y walk =>
        have hfirst : ((b :: bs).flatMap body).head? = some x := by
          rw [List.flatMap_cons, List.head?_append, hx, Option.some_or]
        rw [hflat] at hfirst hwalk hsum
        obtain rfl : y = x := Option.some.inj hfirst
        exact ⟨walk, hwalk, hsum.trans hcost⟩
  · intro walk hchain
    obtain ⟨bs, hbs, hle⟩ := hg.project (x :: walk).length b (x :: walk) hb (Nat.le_refl _) hchain
      hx.symm
    exact hle.trans (h.bound bs hbs)

end Blocks

end DepthFirst
end LiveSurface
