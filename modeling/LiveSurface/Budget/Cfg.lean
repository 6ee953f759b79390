import LiveSurface.Library.Buffer
import LiveSurface.Library.Longest
import Mathlib.Data.List.Sort

/-!
# The budget gate

{lit}`budget_pass.py` prices a program before it is admitted: it decodes the instructions, cuts them
into blocks, refuses a program with a loop, and otherwise takes the most expensive path through the
blocks.

Main definitions:

- Definition {lit}`decode`: the instructions of a section.
- Definition {lit}`buildCfg`: their blocks and the edges between these.
- Definition {lit}`gateText`: the verdict.
-/

namespace LiveSurface
namespace Budget

/-! ## Instructions -/

def insnSz : Nat := 8
def lddw : Nat := 0x18
def exit : Nat := 0x95
def call : Nat := 0x85
def ja : Nat := 0x05

inductive OpClass
  | alu
  | jmp
  | ld
  | ldx
  | st
  | stx
  | call
  | exit
deriving DecidableEq

/-- The table {lit}`CYCLES`. -/
def cycles : OpClass → Nat
  | .alu => 1
  | .jmp => 2
  | .ld => 4
  | .ldx => 4
  | .st => 4
  | .stx => 4
  | .call => 6
  | .exit => 1

def opclass (op : Nat) : OpClass :=
  let cls := op &&& 0x07
  if op = exit then .exit
  else if op = call then .call
  else if cls = 0x05 ∨ cls = 0x06 then .jmp
  else if cls = 0x00 then .ld
  else if cls = 0x01 then .ldx
  else if cls = 0x02 then .st
  else if cls = 0x03 then .stx
  else .alu

/-- A decoded instruction.  Its class and its width are functions of its operation. -/
structure Insn where
  pc : Nat
  op : Nat
  off : Int
  imm : Int
deriving DecidableEq

def Insn.cls (i : Insn) : OpClass := opclass i.op

def Insn.wide (i : Insn) : Bool := i.op == lddw

/-- The number of instruction slots that an instruction takes. -/
def Insn.slots (i : Insn) : Nat := if i.wide then 2 else 1

/-- The target of a branch. -/
def Insn.target (i : Insn) : Int := i.pc + 1 + i.off

/-- {lit}`struct.unpack_from`; the byte of the registers is not kept. -/
def unpackInsn (text : Buffer) (off pc : Nat) : Insn where
  pc := pc
  op := leAt 1 text off
  off := Int.bmod (leAt 2 text (off + 2)) (2 ^ 16)
  imm := Int.bmod (leAt 4 text (off + 4)) (2 ^ 32)

/-- The loop of {lit}`decode`. -/
def decodeFrom (text : Buffer) (off pc : Nat) : List Insn :=
  if off + insnSz ≤ text.length then
    let i := unpackInsn text off pc
    i :: decodeFrom text (off + insnSz * i.slots) (pc + i.slots)
  else []
termination_by text.length - off
decreasing_by
  simp only [insnSz, Insn.slots] at *
  split <;> omega

def decode (text : Buffer) : List Insn := decodeFrom text 0 0

/-! ## The graph of the blocks -/

/-- The keys of {lit}`by_pc`. -/
def byPc (insns : List Insn) : List Nat := insns.map Insn.pc

/-- A position, if it is a key. -/
def known (keys : List Nat) (x : Int) : List Nat :=
  if 0 ≤ x ∧ x.toNat ∈ keys then [x.toNat] else []

/-- The leaders that one instruction adds; what follows a jump is one in any case. -/
def marks (index : List Nat) (i : Insn) : List Nat :=
  if i.op = exit then known index (i.pc + i.slots)
  else if i.cls = .jmp then known index i.target ++ known index (i.pc + 1)
  else []

def leaders (insns : List Insn) : List Nat :=
  ((insns.head?.toList.map Insn.pc ++ insns.flatMap (marks (byPc insns))).dedup).insertionSort
    (· ≤ ·)

/-- The instructions from one leader up to the next. -/
def blockBody (insns : List Insn) (start : Nat) (stop : Option Nat) : List Insn :=
  insns.filter fun i => i.pc ≥ start ∧ ∀ e ∈ stop, i.pc < e

def blocksFrom (insns : List Insn) : List Nat → List (Nat × List Insn)
  | [] => []
  | start :: rest => (start, blockBody insns start rest.head?) :: blocksFrom insns rest

/-- The successors of a block, by its last instruction. -/
def blockSuccessors (keys : List Nat) (body : List Insn) : List Nat :=
  match body.getLast? with
  | none => []
  | some last =>
      if last.op = exit then []
      else if last.cls = .jmp then
        known keys last.target ++ (if last.op ≠ ja then known keys (last.pc + 1) else [])
      else known keys (last.pc + last.slots)

/-- The two dictionaries, in the order of insertion. -/
structure Cfg where
  blocks : List (Nat × List Insn)
  edges : List (Nat × List Nat)

def buildCfg (insns : List Insn) : Cfg :=
  let blocks := blocksFrom insns (leaders insns)
  { blocks := blocks
    edges := blocks.map fun block =>
      (block.1, blockSuccessors (blocks.map Prod.fst) block.2) }

/-- {lit}`blocks[start]`. -/
def Cfg.body (g : Cfg) (start : Nat) : List Insn := (g.blocks.lookup start).getD []

/-- {lit}`edges.get(start, [])`. -/
def Cfg.succ (g : Cfg) (start : Nat) : List Nat := (g.edges.lookup start).getD []

/-- {lit}`sorted(blocks)[0]`, where there is one. -/
def Cfg.first (g : Cfg) : Option Nat := ((g.blocks.map Prod.fst).insertionSort (· ≤ ·)).head?

/-! ## The gate -/

def blockCost (body : List Insn) : Nat := (body.map fun i => cycles i.cls).sum

/-- {lit}`back_edges`, with a call for every block. -/
def backEdges (g : Cfg) : Option (List (Nat × Nat)) :=
  match g.first with
  | none => some []
  | some root => DepthFirst.backEdges g.succ g.blocks.length root

/-- {lit}`longest_path`, with a call for every block and one that finds its block in the memo. -/
def longestPath (g : Cfg) : Option Nat :=
  match g.first with
  | none => some 0
  | some root =>
      DepthFirst.longestPath (fun b => (g.succ b).filter (· ∈ g.blocks.map Prod.fst))
        (fun b => blockCost (g.body b)) (g.blocks.length + 1) root

inductive Verdict
  | refuse
  | ok
  | reject
deriving DecidableEq

/-- What {lit}`gate_text` returns. -/
structure Gated where
  verdict : Verdict
  insns : Nat
  blocks : Nat
  cycles : Option Nat
deriving DecidableEq

/-- {lit}`gate_text`; the name and {lit}`quiet` only matter for what it prints. -/
def gateText (text : Buffer) (budget : Int) : Option Gated := do
  let insns := decode text
  let g := buildCfg insns
  let loops ← backEdges g
  if loops ≠ [] then
    pure { verdict := .refuse, insns := insns.length, blocks := g.blocks.length, cycles := none }
  else
    let cycles ← longestPath g
    pure {
      verdict := if cycles ≤ budget then .ok else .reject
      insns := insns.length
      blocks := g.blocks.length
      cycles := some cycles }

/-! ## The cases of the self-test -/

/-- {lit}`_i`. -/
def insnBytes (op regs off imm : Nat) : List UInt8 :=
  [UInt8.ofNat op, UInt8.ofNat regs] ++ littleEndian 2 off ++ littleEndian 4 imm

/-- The program of {lit}`branch diamond`. -/
def diamond : Buffer :=
  insnBytes 0x15 0 1 0 ++ insnBytes 0xb7 0 0 1 ++ insnBytes 0xb7 0 0 2 ++ insnBytes exit 0 0 0

end Budget
end LiveSurface
