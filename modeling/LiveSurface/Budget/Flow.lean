import LiveSurface.Budget.Cfg

/-!
# Control flow and blocks

The blocks of the budget gate are runs of instructions that follow each other, and their edges are
the edges between instructions.  So the paths through the blocks are the paths through the
instructions, with the same costs.

Main results:

- Theorem {lit}`decode_follows`: every instruction begins where the one before it ends.
- Theorem {lit}`leads_iff`: an edge out of a block is one out of its last instruction.
- Theorem {lit}`gathered_blocks`: the blocks gather the control flow.
-/

namespace LiveSurface
namespace Budget

open DepthFirst Relation

/-! ## Control flow -/

/-- A conditional jump of {lit}`BPF_JMP` or {lit}`BPF_JMP32`. -/
def conditional (op : Nat) : Bool :=
  (op &&& 0x07 == 0x05 || op &&& 0x07 == 0x06) &&
    (op >>> 4 ∈ [1, 2, 3, 4, 5, 6, 7, 10, 11, 12, 13])

/-- Where the machine may go on after an instruction. -/
def Insn.leads (i : Insn) : List Int :=
  if i.op = exit then []
  else if i.op = ja then [i.target]
  else if conditional i.op then [i.target, i.pc + 1]
  else [i.pc + i.slots]

/-- The control flow between the instructions of a program. -/
def Flow (insns : List Insn) (i j : Insn) : Prop := i ∈ insns ∧ j ∈ insns ∧ (j.pc : Int) ∈ i.leads

/-- Branches have an offset, to the start of an instruction; and no path from the first instruction
falls off the end. -/
structure Enclosed (insns : List Insn) : Prop where
  branches : ∀ i ∈ insns, i.cls = .jmp →
    (i.op = ja ∨ conditional i.op = true) ∧ ∃ j ∈ insns, (j.pc : Int) = i.target
  ends : ∀ first ∈ insns.head?, ∀ i, ReflTransGen (Flow insns) first i → ∀ x ∈ i.leads,
    ∃ j ∈ insns, (j.pc : Int) = x

variable {insns : List Insn} {i j k : Insn}

theorem cls_of_conditional (h : conditional i.op = true) : i.cls = .jmp := by
  simp only [conditional, Bool.and_eq_true, Bool.or_eq_true, beq_iff_eq, decide_eq_true_eq] at h
  obtain ⟨hcls, hcode⟩ := h
  have hexit : i.op ≠ exit := by
    intro heq
    rw [heq] at hcode
    revert hcode
    decide
  have hcall : i.op ≠ call := by
    intro heq
    rw [heq] at hcode
    revert hcode
    decide
  simp only [Insn.cls, opclass]
  rw [if_neg hexit, if_neg hcall, if_pos hcls]

theorem cls_of_ja (h : i.op = ja) : i.cls = .jmp := by
  rw [Insn.cls, h]
  rfl

theorem op_of_jmp (h : i.cls = .jmp) : i.op ≠ exit ∧ i.slots = 1 := by
  refine ⟨fun hexit => ?_, ?_⟩
  · rw [Insn.cls, hexit] at h
    contradiction
  · unfold Insn.slots Insn.wide
    rw [if_neg]
    intro hwide
    rw [Insn.cls, beq_iff_eq.mp hwide] at h
    contradiction

theorem leads_of_jmp (h : i.cls = .jmp) (hop : i.op = ja ∨ conditional i.op = true) :
    i.leads = i.target :: if i.op ≠ ja then [(i.pc : Int) + 1] else [] := by
  unfold Insn.leads
  rw [if_neg (op_of_jmp h).1]
  by_cases hja : i.op = ja
  · rw [if_pos hja, if_neg (not_not.mpr hja)]
  · rw [if_neg hja, if_pos (hop.resolve_left hja), if_pos hja]

theorem leads_of_other (h : i.cls ≠ .jmp) (hexit : i.op ≠ exit) :
    i.leads = [(i.pc : Int) + i.slots] := by
  unfold Insn.leads
  rw [if_neg hexit, if_neg fun hja => h (cls_of_ja hja), if_neg fun hc => h (cls_of_conditional hc)]

/-! ## Decoding -/

/-- An instruction begins where another ends. -/
def Follows (i j : Insn) : Prop := j.pc = i.pc + i.slots

theorem slots_pos (i : Insn) : 0 < i.slots := by
  unfold Insn.slots
  split <;> decide

theorem decodeFrom_follows (text : Buffer) (off pc : Nat) :
    (decodeFrom text off pc).IsChain Follows ∧ ∀ i ∈ (decodeFrom text off pc).head?, i.pc = pc := by
  fun_induction decodeFrom text off pc with
  | case1 off pc hle i ih =>
      refine ⟨List.isChain_cons.mpr ⟨fun j hj => ?_, ih.1⟩, fun j hj => ?_⟩
      · exact ih.2 j hj
      · rw [← Option.some.inj hj]
        rfl
  | case2 off pc hlt => exact ⟨List.IsChain.nil, fun j hj => (nomatch hj)⟩

/-- Every instruction begins where the one before it ends. -/
theorem decode_follows (text : Buffer) : (decode text).IsChain Follows :=
  (decodeFrom_follows text 0 0).1

section Order

variable (hf : insns.IsChain Follows)

include hf

theorem pairwise_pc : insns.Pairwise fun i j => i.pc < j.pc := by
  have hlt : insns.IsChain fun i j => i.pc < j.pc := by
    refine hf.imp fun i j hij => ?_
    rw [hij]
    exact Nat.lt_add_of_pos_right (slots_pos i)
  exact List.isChain_iff_pairwise.mp hlt

theorem nodup_byPc : (byPc insns).Nodup :=
  List.pairwise_map.mpr ((pairwise_pc hf).imp Nat.ne_of_lt)

theorem eq_of_pc (hi : i ∈ insns) (hj : j ∈ insns) (h : i.pc = j.pc) : i = j :=
  List.inj_on_of_nodup_map (nodup_byPc hf) hi hj h

/-- Nothing begins inside an instruction. -/
theorem le_of_pc_lt (hi : i ∈ insns) (hj : j ∈ insns) (h : i.pc < j.pc) :
    i.pc + i.slots ≤ j.pc := by
  have hsorted := pairwise_pc hf
  obtain ⟨before, after, rfl⟩ := List.append_of_mem hi
  have hchain := (List.isChain_append.mp hf).2.1
  rw [List.pairwise_append] at hsorted
  rcases List.mem_append.mp hj with hj | hj
  · have hlt := hsorted.2.2 j hj i List.mem_cons_self
    omega
  · rcases List.mem_cons.mp hj with rfl | hj
    · omega
    · cases after with
      | nil => exact absurd hj List.not_mem_nil
      | cons k after =>
          have hk : k.pc = i.pc + i.slots := (List.isChain_cons_cons.mp hchain).1
          rcases List.mem_cons.mp hj with rfl | hj
          · exact hk.ge
          · have hlt := (List.pairwise_cons.mp (List.pairwise_cons.mp hsorted.2.1).2).1 j hj
            omega

end Order

/-! ## Leaders -/

theorem mem_known {keys : List Nat} {x : Int} {n : Nat} :
    n ∈ known keys x ↔ (n : Int) = x ∧ n ∈ keys := by
  unfold known
  split
  · rename_i h
    rw [List.mem_singleton]
    constructor
    · rintro rfl
      exact ⟨Int.toNat_of_nonneg h.1, h.2⟩
    · rintro ⟨rfl, -⟩
      exact (Int.toNat_natCast n).symm
  · rename_i h
    refine ⟨fun hmem => absurd hmem List.not_mem_nil, fun ⟨hx, hkey⟩ => (h ?_).elim⟩
    subst hx
    exact ⟨Int.natCast_nonneg n, by rwa [Int.toNat_natCast]⟩

theorem mem_byPc {n : Nat} : n ∈ byPc insns ↔ ∃ i ∈ insns, i.pc = n := List.mem_map

theorem mem_leaders {n : Nat} :
    n ∈ leaders insns ↔ (∃ i ∈ insns.head?, i.pc = n) ∨ ∃ i ∈ insns, n ∈ marks (byPc insns) i := by
  simp only [leaders, List.mem_insertionSort, List.mem_dedup, List.mem_append, List.mem_map,
    Option.mem_toList, List.mem_flatMap, Option.mem_def]

/-- A position that can be a leader is one where an instruction begins. -/
theorem leaders_subset {n : Nat} (h : n ∈ leaders insns) : n ∈ byPc insns := by
  rcases mem_leaders.mp h with ⟨i, hi, rfl⟩ | ⟨i, -, hi⟩
  · exact mem_byPc.mpr ⟨i, List.mem_of_mem_head? hi, rfl⟩
  · unfold marks at hi
    split at hi
    · exact (mem_known.mp hi).2
    · split at hi
      · rcases List.mem_append.mp hi with hi | hi
        · exact (mem_known.mp hi).2
        · exact (mem_known.mp hi).2
      · exact absurd hi List.not_mem_nil

theorem pairwise_leaders (insns : List Insn) : (leaders insns).Pairwise (· < ·) := by
  have hsorted := List.pairwise_insertionSort (· ≤ ·)
    (insns.head?.toList.map Insn.pc ++ insns.flatMap (marks (byPc insns))).dedup
  have hnodup : (leaders insns).Nodup :=
    (List.perm_insertionSort _ _).nodup_iff.mpr (List.nodup_dedup _)
  exact (hsorted.and hnodup).imp fun h => lt_of_le_of_ne h.1 h.2

/-- A branch makes its targets leaders, and what follows it. -/
theorem leader_of_jmp (hi : i ∈ insns) (hj : j ∈ insns) (hcls : i.cls = .jmp)
    (h : (j.pc : Int) = i.target ∨ j.pc = i.pc + 1) : j.pc ∈ leaders insns := by
  refine mem_leaders.mpr (Or.inr ⟨i, hi, ?_⟩)
  unfold marks
  rw [if_neg (op_of_jmp hcls).1, if_pos hcls]
  have hkey : j.pc ∈ byPc insns := mem_byPc.mpr ⟨j, hj, rfl⟩
  rcases h with h | h
  · exact List.mem_append_left _ (mem_known.mpr ⟨h, hkey⟩)
  · exact List.mem_append_right _ (mem_known.mpr ⟨by omega, hkey⟩)

theorem leader_of_exit (hi : i ∈ insns) (hj : j ∈ insns) (hop : i.op = exit)
    (h : j.pc = i.pc + i.slots) : j.pc ∈ leaders insns := by
  refine mem_leaders.mpr (Or.inr ⟨i, hi, ?_⟩)
  unfold marks
  rw [if_pos hop]
  exact mem_known.mpr ⟨by omega, mem_byPc.mpr ⟨j, hj, rfl⟩⟩

/-! ## Bodies -/

theorem keys_blocksFrom (leads : List Nat) : (blocksFrom insns leads).map Prod.fst = leads := by
  induction leads with
  | nil => rfl
  | cons start rest ih => rw [blocksFrom, List.map_cons, ih]

theorem lookup_blocksFrom {before after : List Nat} {b : Nat} (hb : b ∉ before) :
    (blocksFrom insns (before ++ b :: after)).lookup b =
      some (blockBody insns b after.head?) := by
  induction before with
  | nil => rw [List.nil_append, blocksFrom, List.lookup_cons_self]
  | cons start before ih =>
      rw [List.mem_cons, not_or] at hb
      rw [List.cons_append, blocksFrom, List.lookup_cons, beq_eq_false_iff_ne.mpr hb.1]
      exact ih hb.2

theorem mem_blockBody {start : Nat} {stop : Option Nat} :
    i ∈ blockBody insns start stop ↔ i ∈ insns ∧ start ≤ i.pc ∧ ∀ e ∈ stop, i.pc < e := by
  rw [blockBody, List.mem_filter, decide_eq_true_eq]

/-- In a sorted list the instructions before a position come first. -/
theorem filter_pc_split (hsorted : insns.Pairwise fun i j => i.pc < j.pc) (n : Nat) :
    insns = insns.filter (fun i => i.pc < n) ++ insns.filter fun i => n ≤ i.pc := by
  induction insns with
  | nil => rfl
  | cons i insns ih =>
      obtain ⟨hall, hrest⟩ := List.pairwise_cons.mp hsorted
      by_cases hi : i.pc < n
      · rw [List.filter_cons, if_pos (by simpa using hi), List.filter_cons,
          if_neg (by simpa using hi), List.cons_append, ← ih hrest]
      · have hnone : insns.filter (fun i => i.pc < n) = [] := by
          refine List.filter_eq_nil_iff.mpr fun j hj => ?_
          have hlt := hall j hj
          rw [decide_eq_true_eq]
          omega
        have hall' : insns.filter (fun i => n ≤ i.pc) = insns := by
          refine List.filter_eq_self.mpr fun j hj => ?_
          have hlt := hall j hj
          rw [decide_eq_true_eq]
          omega
        rw [List.filter_cons, if_neg (by simpa using hi), hnone, List.nil_append,
          List.filter_cons, if_pos (by simpa using hi), hall']

/-- A body is a part of the program. -/
theorem blockBody_infix (hf : insns.IsChain Follows) (start : Nat) (stop : Option Nat) :
    ∃ before after, insns = before ++ blockBody insns start stop ++ after := by
  have hsorted := pairwise_pc hf
  have hfirst := filter_pc_split hsorted start
  cases stop with
  | none =>
      refine ⟨insns.filter fun i => i.pc < start, [], ?_⟩
      rw [List.append_nil, blockBody]
      simpa using hfirst
  | some e =>
      have hrest : (insns.filter fun i => start ≤ i.pc).Pairwise fun i j => i.pc < j.pc :=
        hsorted.filter _
      have hsecond := filter_pc_split hrest e
      refine ⟨insns.filter fun i => i.pc < start,
        (insns.filter fun i => start ≤ i.pc).filter fun i => e ≤ i.pc, ?_⟩
      have hbody : blockBody insns start (some e) =
          (insns.filter fun i => start ≤ i.pc).filter fun i => i.pc < e := by
        rw [List.filter_filter, blockBody]
        apply List.filter_congr
        intro i _
        simp [Bool.and_comm]
      rw [hbody, List.append_assoc, ← hsecond, ← hfirst]

/-! ## One block -/

/-- A leader in the list of all: the leaders before it, and those after. -/
structure Leads (insns : List Insn) (b : Nat) (above : List Nat) : Prop where
  split : ∃ below, leaders insns = below ++ b :: above
  all : ∀ n ∈ leaders insns, n < b ∨ n = b ∨ n ∈ above
  lt : ∀ n ∈ above, b < n
  next : ∀ e ∈ above.head?, ∀ n ∈ above, e ≤ n

theorem leads_of_mem {b : Nat} (hb : b ∈ leaders insns) : ∃ above, Leads insns b above := by
  obtain ⟨below, above, hsplit⟩ := List.append_of_mem hb
  have hsorted := pairwise_leaders insns
  rw [hsplit, List.pairwise_append, List.pairwise_cons] at hsorted
  obtain ⟨-, ⟨habove, hrest⟩, hbelow⟩ := hsorted
  refine ⟨above, ⟨below, hsplit⟩, ?_, habove, ?_⟩
  · intro n hn
    rw [hsplit, List.mem_append, List.mem_cons] at hn
    rcases hn with hn | rfl | hn
    · exact Or.inl (hbelow n hn b List.mem_cons_self)
    · exact Or.inr (Or.inl rfl)
    · exact Or.inr (Or.inr hn)
  · intro e he n hn
    cases above with
    | nil => exact absurd hn List.not_mem_nil
    | cons x above =>
        obtain rfl : x = e := Option.some.inj he
        rcases List.mem_cons.mp hn with rfl | hn
        · exact Nat.le_refl n
        · exact ((List.pairwise_cons.mp hrest).1 n hn).le

section Block

variable {b : Nat} {above : List Nat}

theorem Leads.mem (h : Leads insns b above) : b ∈ leaders insns := by
  obtain ⟨below, hsplit⟩ := h.split
  rw [hsplit]
  exact List.mem_append_right below List.mem_cons_self

theorem Leads.mem_above (h : Leads insns b above) {n : Nat} (hn : n ∈ above) :
    n ∈ leaders insns := by
  obtain ⟨below, hsplit⟩ := h.split
  rw [hsplit]
  exact List.mem_append_right below (List.mem_cons_of_mem b hn)

theorem Leads.lookup (h : Leads insns b above) :
    (blocksFrom insns (leaders insns)).lookup b = some (blockBody insns b above.head?) := by
  obtain ⟨below, hsplit⟩ := h.split
  have hsorted := pairwise_leaders insns
  rw [hsplit] at hsorted ⊢
  refine lookup_blocksFrom fun hmem => ?_
  exact Nat.lt_irrefl b ((List.pairwise_append.mp hsorted).2.2 b hmem b List.mem_cons_self)

theorem body_of_leads (h : Leads insns b above) :
    (buildCfg insns).body b = blockBody insns b above.head? := by
  rw [Cfg.body, buildCfg, h.lookup, Option.getD_some]

theorem lookup_map_snd {β γ : Type} {entries : List (Nat × β)} (f : β → γ) (b : Nat) :
    (entries.map fun entry => (entry.1, f entry.2)).lookup b = (entries.lookup b).map f := by
  induction entries with
  | nil => rfl
  | cons entry entries ih =>
      rw [List.map_cons, List.lookup_cons, List.lookup_cons]
      cases b == entry.1 with
      | true => rfl
      | false => exact ih

theorem succ_of_leads (h : Leads insns b above) :
    (buildCfg insns).succ b =
      blockSuccessors (leaders insns) (blockBody insns b above.head?) := by
  rw [Cfg.succ, buildCfg]
  dsimp only
  rw [lookup_map_snd, h.lookup, keys_blocksFrom]
  rfl

/-- Inside a block there is no other leader. -/
theorem Leads.not_leader (h : Leads insns b above) (hi : i ∈ blockBody insns b above.head?)
    (hne : i.pc ≠ b) : i.pc ∉ leaders insns := by
  obtain ⟨-, hle, hlt⟩ := mem_blockBody.mp hi
  intro hleader
  rcases h.all i.pc hleader with hbelow | rfl | habove
  · omega
  · exact hne rfl
  · cases hhead : above.head? with
    | none =>
        rw [List.head?_eq_none_iff.mp hhead] at habove
        exact absurd habove List.not_mem_nil
    | some e =>
        have hlt' := hlt e hhead
        have hle' := h.next e hhead i.pc habove
        omega

variable (hf : insns.IsChain Follows)

include hf

/-- A block begins with its leader. -/
theorem Leads.head? (h : Leads insns b above) :
    (blockBody insns b above.head?).head? = some i ↔ i ∈ insns ∧ i.pc = b := by
  have hsorted : (blockBody insns b above.head?).Pairwise fun i j => i.pc < j.pc :=
    (pairwise_pc hf).filter _
  obtain ⟨first, hfirst, hpc⟩ := mem_byPc.mp (leaders_subset h.mem)
  have hmem : first ∈ blockBody insns b above.head? := by
    refine mem_blockBody.mpr ⟨hfirst, hpc.ge, fun e he => ?_⟩
    rw [hpc]
    exact h.lt e (List.mem_of_mem_head? he)
  have hhead : (blockBody insns b above.head?).head? = some first := by
    cases hbody : blockBody insns b above.head? with
    | nil =>
        rw [hbody] at hmem
        exact absurd hmem List.not_mem_nil
    | cons x rest =>
        rw [hbody] at hmem hsorted
        rcases List.mem_cons.mp hmem with rfl | hrest
        · rfl
        · have hlt := (List.pairwise_cons.mp hsorted).1 first hrest
          have hle := (mem_blockBody.mp (hbody ▸ List.mem_cons_self : x ∈ _)).2.1
          omega
  rw [hhead, Option.some.injEq]
  constructor
  · rintro rfl
    exact ⟨hfirst, hpc⟩
  · rintro ⟨hi, hi'⟩
    exact eq_of_pc hf hfirst hi (hpc.trans hi'.symm)

/-- What follows the last instruction of a block is a leader. -/
theorem Leads.leader_after (h : Leads insns b above)
    (hlast : (blockBody insns b above.head?).getLast? = some i) (hj : j ∈ insns)
    (hpc : j.pc = i.pc + i.slots) : j.pc ∈ leaders insns := by
  have hsorted : (blockBody insns b above.head?).Pairwise fun i j => i.pc < j.pc :=
    (pairwise_pc hf).filter _
  have hi := List.mem_of_getLast? hlast
  obtain ⟨hmem, hle, hlt⟩ := mem_blockBody.mp hi
  have hpos := slots_pos i
  have hout : j ∉ blockBody insns b above.head? := by
    intro hbody
    obtain ⟨init, hinit⟩ := List.getLast?_eq_some_iff.mp hlast
    rw [hinit] at hbody hsorted
    rcases List.mem_append.mp hbody with hbody | hbody
    · have hlt := (List.pairwise_append.mp hsorted).2.2 j hbody i List.mem_cons_self
      omega
    · rw [List.mem_singleton.mp hbody] at hpc
      omega
  rw [mem_blockBody, not_and, not_and, not_forall] at hout
  obtain ⟨e, he⟩ := hout hj (by omega)
  rw [not_forall] at he
  obtain ⟨he, hge⟩ := he
  -- the next leader begins no later than what follows
  have hleader := h.mem_above (List.mem_of_mem_head? he)
  obtain ⟨k, hk, hkpc⟩ := mem_byPc.mp (leaders_subset hleader)
  have hbetween := le_of_pc_lt hf hmem hk (by rw [hkpc]; exact hlt e he)
  have heq : j.pc = e := by omega
  rwa [heq]

/-- An edge out of a block is one out of its last instruction. -/
theorem leads_iff (henclosed : Enclosed insns) (h : Leads insns b above)
    (hlast : (blockBody insns b above.head?).getLast? = some i) (hj : j ∈ insns) :
    (j.pc : Int) ∈ i.leads ↔ j.pc ∈ (buildCfg insns).succ b := by
  have hi : i ∈ insns := (mem_blockBody.mp (List.mem_of_getLast? hlast)).1
  rw [succ_of_leads h, blockSuccessors, hlast]
  dsimp only
  by_cases hexit : i.op = exit
  · rw [if_pos hexit, Insn.leads, if_pos hexit]
    simp
  · rw [if_neg hexit]
    by_cases hcls : i.cls = .jmp
    · obtain ⟨hop, -⟩ := henclosed.branches i hi hcls
      rw [if_pos hcls, leads_of_jmp hcls hop, List.mem_cons, List.mem_append, mem_known]
      have hleader : (j.pc : Int) = i.target ∨ j.pc = i.pc + 1 → j.pc ∈ leaders insns :=
        leader_of_jmp hi hj hcls
      by_cases hja : i.op = ja
      · rw [if_neg (not_not.mpr hja), if_neg (not_not.mpr hja)]
        simp only [List.not_mem_nil, or_false]
        exact ⟨fun htarget => ⟨htarget, hleader (Or.inl htarget)⟩, And.left⟩
      · rw [if_pos hja, if_pos hja, List.mem_singleton, mem_known]
        constructor
        · rintro (htarget | hnext)
          · exact Or.inl ⟨htarget, hleader (Or.inl htarget)⟩
          · exact Or.inr ⟨hnext, hleader (Or.inr (by omega))⟩
        · exact Or.imp And.left And.left
    · rw [if_neg hcls, leads_of_other hcls hexit, List.mem_singleton, mem_known]
      constructor
      · intro hpc
        exact ⟨hpc, h.leader_after hf hlast hj (by omega)⟩
      · exact And.left

omit hf in
theorem blockSuccessors_subset {keys : List Nat} {body : List Insn} {n : Nat}
    (h : n ∈ blockSuccessors keys body) : n ∈ keys := by
  unfold blockSuccessors at h
  split at h
  · exact absurd h List.not_mem_nil
  · split at h
    · exact absurd h List.not_mem_nil
    · split at h
      · rcases List.mem_append.mp h with h | h
        · exact (mem_known.mp h).2
        · split at h
          · exact (mem_known.mp h).2
          · exact absurd h List.not_mem_nil
      · exact (mem_known.mp h).2

theorem head?_body (hb : b ∈ leaders insns) :
    ((buildCfg insns).body b).head? = some i ↔ i ∈ insns ∧ i.pc = b := by
  obtain ⟨above, h⟩ := leads_of_mem hb
  rw [body_of_leads h]
  exact h.head? hf

end Block

/-! ## All blocks -/

/-- A part of the program in which only the first instruction is a leader. -/
theorem straight_of_split {before run after : List Insn} {out : Insn → Prop}
    (hf : insns.IsChain Follows) (hsplit : insns = before ++ run ++ after) (hne : run ≠ [])
    (hinner : ∀ i ∈ run.tail, i.pc ∉ leaders insns)
    (hlast : ∀ i, run.getLast? = some i → ∀ j, Flow insns i j ↔ out j) :
    Straight (Flow insns) out run := by
  induction run generalizing before with
  | nil => exact absurd rfl hne
  | cons x run ih =>
      cases run with
      | nil => exact hlast x rfl
      | cons y run =>
          have hx : x ∈ insns := by
            rw [hsplit]
            simp
          have hy : y ∈ insns := by
            rw [hsplit]
            simp
          have hxy : y.pc = x.pc + x.slots := by
            rw [hsplit, List.append_assoc] at hf
            exact (List.isChain_cons_cons.mp (List.isChain_append.mp hf).2.1).1
          have hinside : y.pc ∉ leaders insns := hinner y List.mem_cons_self
          have hexit : x.op ≠ exit := fun hop => hinside (leader_of_exit hx hy hop hxy)
          have hcls : x.cls ≠ .jmp := by
            intro hcls
            rw [(op_of_jmp hcls).2] at hxy
            exact hinside (leader_of_jmp hx hy hcls (Or.inr hxy))
          refine ⟨fun z => ?_, ?_⟩
          · rw [Flow, leads_of_other hcls hexit, List.mem_singleton]
            constructor
            · rintro ⟨-, hz, hpc⟩
              exact eq_of_pc hf hz hy (by omega)
            · rintro rfl
              exact ⟨hx, hy, by omega⟩
          · refine @ih (before ++ [x]) ?_ (by simp) ?_ ?_
            · rw [hsplit]
              simp
            · intro i hi
              exact hinner i (List.mem_cons_of_mem y hi)
            · intro i hi
              exact hlast i (by rwa [List.getLast?_cons_cons])

/-- A block is a run of instructions that ends with its edges. -/
theorem Leads.straight {b : Nat} {above : List Nat} (h : Leads insns b above)
    (hf : insns.IsChain Follows) (henclosed : Enclosed insns) :
    Straight (Flow insns) (fun j => j ∈ insns ∧ j.pc ∈ (buildCfg insns).succ b)
      (blockBody insns b above.head?) := by
  obtain ⟨before, after, hsplit⟩ := blockBody_infix hf b above.head?
  obtain ⟨first, hfirst, hpc⟩ := mem_byPc.mp (leaders_subset h.mem)
  have hhead := (h.head? hf).mpr ⟨hfirst, hpc⟩
  refine straight_of_split hf hsplit ?_ ?_ ?_
  · intro hnil
    rw [hnil] at hhead
    contradiction
  · intro i hi
    refine h.not_leader (List.mem_of_mem_tail hi) ?_
    -- only the first instruction is at the leader
    have hsorted : (blockBody insns b above.head?).Pairwise fun i j => i.pc < j.pc :=
      (pairwise_pc hf).filter _
    cases hbody : blockBody insns b above.head? with
    | nil =>
        rw [hbody] at hi
        exact absurd hi List.not_mem_nil
    | cons x run =>
        rw [hbody] at hi hhead hsorted
        obtain rfl : x = first := Option.some.inj hhead
        have hlt := (List.pairwise_cons.mp hsorted).1 i hi
        omega
  · intro i hlast j
    have hi : i ∈ insns := (mem_blockBody.mp (List.mem_of_getLast? hlast)).1
    constructor
    · rintro ⟨-, hj, hleads⟩
      exact ⟨hj, (leads_iff hf henclosed h hlast hj).mp hleads⟩
    · rintro ⟨hj, hsucc⟩
      exact ⟨hi, hj, (leads_iff hf henclosed h hlast hj).mpr hsucc⟩

/-- The blocks gather the control flow. -/
theorem gathered_blocks (hf : insns.IsChain Follows) (henclosed : Enclosed insns) :
    Gathered (Flow insns) (Edge (buildCfg insns).succ) (buildCfg insns).body
      (· ∈ leaders insns) := by
  have hclosed : ∀ b ∈ leaders insns, ∀ b' ∈ (buildCfg insns).succ b, b' ∈ leaders insns := by
    intro b hb b' hedge
    obtain ⟨above, h⟩ := leads_of_mem hb
    rw [succ_of_leads h] at hedge
    exact blockSuccessors_subset hedge
  refine ⟨hclosed, fun b hb => ?_⟩
  obtain ⟨above, h⟩ := leads_of_mem hb
  have hout : (fun j => ∃ b', Edge (buildCfg insns).succ b b' ∧
      ((buildCfg insns).body b').head? = some j) =
        fun j => j ∈ insns ∧ j.pc ∈ (buildCfg insns).succ b := by
    funext j
    rw [eq_iff_iff]
    constructor
    · rintro ⟨b', hedge, hj⟩
      obtain ⟨hmem, rfl⟩ := (head?_body hf (hclosed b hb b' hedge)).mp hj
      exact ⟨hmem, hedge⟩
    · rintro ⟨hj, hedge⟩
      exact ⟨j.pc, hedge, (head?_body hf (hclosed b hb j.pc hedge)).mpr ⟨hj, rfl⟩⟩
  rw [hout, body_of_leads h]
  exact h.straight hf henclosed

/-! ## The first block -/

/-- The search begins with the first instruction. -/
theorem first_buildCfg (hf : insns.IsChain Follows) {first : Insn}
    (hfirst : insns.head? = some first) :
    (buildCfg insns).first = some first.pc ∧ first.pc ∈ leaders insns := by
  have hleader : first.pc ∈ leaders insns := mem_leaders.mpr (Or.inl ⟨first, hfirst, rfl⟩)
  refine ⟨?_, hleader⟩
  have hsorted := pairwise_leaders insns
  rw [Cfg.first, buildCfg]
  dsimp only
  rw [keys_blocksFrom, List.Pairwise.insertionSort_eq (hsorted.imp Nat.le_of_lt)]
  cases hleaders : leaders insns with
  | nil =>
      rw [hleaders] at hleader
      exact absurd hleader List.not_mem_nil
  | cons n rest =>
      rw [hleaders] at hleader hsorted
      rcases List.mem_cons.mp hleader with heq | hrest
      · rw [heq, List.head?_cons]
      · -- no leader is before the first instruction
        have hlt := (List.pairwise_cons.mp hsorted).1 first.pc hrest
        obtain ⟨i, hi, rfl⟩ := mem_byPc.mp (leaders_subset (hleaders ▸ List.mem_cons_self : n ∈ _))
        obtain ⟨tail, rfl⟩ := List.head?_eq_some_iff.mp hfirst
        rcases List.mem_cons.mp hi with rfl | hi
        · omega
        · have hgt := (List.pairwise_cons.mp (pairwise_pc hf)).1 i hi
          omega

end Budget
end LiveSurface
