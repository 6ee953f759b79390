import LiveSurface.Library.Except
import LiveSurface.Trace.Values
import Mathlib.Data.List.Infix

/-!
# The generated trace program

{lit}`codegen` makes a C program of an expression: reads of the fields that the predicate and the
action name, a test, and what is returned.  The text is kept in pieces, so that it can be said
where an argument is read, and what is a comment.

Main definitions:

- Definition {lit}`codegen`: the source's function.
- Definition {lit}`Program.source`: the text it returns.
-/

namespace LiveSurface
namespace Trace

open Re

/-! ## Pieces -/

/-- A piece of the program's text; an argument is {lit}`c->arg[i]`. -/
inductive Piece
  | text (s : String)
  | arg (a : Arg)
  | comment (s : String)
deriving DecidableEq

def Piece.render : Piece → String
  | .text s => s
  | .arg a => "c->arg[" ++ toString a.index ++ "]"
  | .comment s => "/*" ++ s ++ "*/"

def render (pieces : List Piece) : String := String.join (pieces.map Piece.render)

def newline : Piece := .text "\n"

/-- {lit}`"\n".join(lines)`. -/
def joinLines : List (List Piece) → List Piece
  | [] => []
  | [line] => line
  | line :: rest => line ++ newline :: joinLines rest

def CType.text : CType → String
  | .u8 => "__u8"
  | .u16 => "__u16"
  | .u32 => "__u32"
  | .u64 => "__u64"
  | .struct name => "struct " ++ name

/-- The declaration of a structure. -/
def Declaration.text (d : Declaration) : String :=
  "struct " ++ d.name ++ " \x7b " ++
    String.intercalate " " (d.fields.map fun f => f.2.text ++ " " ++ f.1 ++ ";") ++
    " \x7d __attribute__((preserve_access_index));"

/-! ## Reading a value -/

/-- {lit}`sfields`, {lit}`code` and {lit}`k`. -/
structure Gen where
  sfields : SFields
  code : List (List Piece)
  k : Nat

/-- {lit}`reg`. -/
def reg (sfields : SFields) (struct field : String) (ctype : CType) : Except String SFields :=
  let fields := (sfields.get? struct).getD Dict.empty
  match fields.get? field with
  | some old =>
      if old ≠ ctype then .error ("conflicting field types for " ++ struct ++ "." ++ field)
      else .ok (sfields.set struct (fields.set field ctype))
  | none => .ok (sfields.set struct (fields.set field ctype))

def Edge.ctype : Edge → CType
  | .ptr _ => .u64
  | .embedded target => .struct target
  | .scalar type => type

/-- The lines of one hop of a chain but the last, and where the next one reads. -/
def hopLines (k h : Nat) (src : List Piece) (hop : Hop) : List (List Piece) :=
  let pv := "p" ++ toString k ++ "_" ++ toString h
  [[.text ("    struct " ++ hop.struct ++ " *" ++ pv ++ " = (struct " ++ hop.struct ++ " *)(")] ++
      src ++ [.text ");"],
    [.text ("    if (" ++ pv ++ " == 0) return 0ull;")]]

/-- The loop over the hops of a chain. -/
def readHops (k : Nat) : (h : Nat) → (src : List Piece) → List Hop → SFields →
    Except String (List (List Piece) × List Piece × SFields)
  | _, _, [], _ => .error "chain did not end in a scalar"
  | h, src, hop :: rest, sfields =>
      let pv := "p" ++ toString k ++ "_" ++ toString h
      match reg sfields hop.struct hop.field hop.edge.ctype with
      | .error msg => .error msg
      | .ok sfields =>
          match hop.edge with
          | .ptr _ =>
              let hv := "h" ++ toString k ++ "_" ++ toString h
              let lines := hopLines k h src hop ++
                [[.text ("    __u64 " ++ hv ++ " = 0;")],
                  [.text ("    if (bpf_probe_read(&" ++ hv ++ ", sizeof " ++ hv ++ ", &" ++ pv ++
                    "->" ++ hop.field ++ ") != 0 || " ++ hv ++ " == 0)")],
                  [.text "        return 0ull;   ",
                    .comment " unreadable or NULL hop --- decline "]]
              (readHops k (h + 1) [.text hv] rest sfields).map fun r => (lines ++ r.1, r.2)
          | .embedded _ =>
              (readHops k (h + 1) [.text ("&" ++ pv ++ "->" ++ hop.field)] rest sfields).map
                fun r => (hopLines k h src hop ++ r.1, r.2)
          | .scalar type =>
              let vv := "v" ++ toString k
              let lines := hopLines k h src hop ++
                [[.text ("    " ++ type.text ++ " " ++ vv ++ " = 0;")],
                  [.text ("    if (bpf_probe_read(&" ++ vv ++ ", sizeof " ++ vv ++ ", &" ++ pv ++
                    "->" ++ hop.field ++ ") != 0)")],
                  [.text "        return 0ull;"]]
              .ok (lines, [.text ("(__u64)" ++ vv)], sfields)

/-- {lit}`_read`, and what {lit}`take` does with its results. -/
def readValue (py : Python) (v : Value) (st : Gen) : Except String (List Piece × Gen) :=
  match v with
  | .scalar arg => .ok ([.arg arg], { st with k := st.k + 1 })
  | .chain arg hops =>
      (readHops st.k 0 [.arg arg] hops st.sfields).map fun r =>
        (r.2.1, {
          sfields := r.2.2
          code := st.code ++ [joinLines r.1 ++ [newline]]
          k := st.k + 1 })
  | .field struct arg field type =>
      match cType type with
      | none => .error (py.repr type)
      | some ct =>
          let n := toString st.k
          (reg st.sfields struct field ct).map fun sfields =>
            ([.text ("(__u64)v" ++ n)], {
              sfields := sfields
              code := st.code ++
                [[.text ("    struct " ++ struct ++ " *p" ++ n ++ " = (struct " ++ struct ++ " *)"),
                  .arg arg,
                  .text (";\n    " ++ ct.text ++ " v" ++ n ++ " = 0;\n    if (bpf_probe_read(&v" ++
                    n ++ ", sizeof v" ++ n ++ ", &p" ++ n ++ "->" ++ field ++
                    ") != 0)\n        return 0ull;\n")]]
              k := st.k + 1 })

/-! ## Parsing -/

section Expressions

variable (py : Python)

/-- {lit}`_PROBE`; the third group is {lit}`pred` and the fourth {lit}`act`. -/
def probeRe : Re :=
  seqs [many (chr py.space), group 1 (texts ["fentry", "fexit"]), lit "/", group 2 (identifier py),
    many (chr py.space),
    opt (seqs [lit "/", group 3 (many (chr (· ≠ '/'))), lit "/", many (chr py.space)]),
    lit "\x7b", many (chr py.space), group 4 (star false (chr (· ≠ '\n'))), many (chr py.space),
    lit "\x7d", many (chr py.space), eos]

/-- {lit}`(?:@\w+\s*=\s*)?`. -/
def named : Re :=
  opt (seqs [lit "@", many1 (chr py.word), many (chr py.space), lit "=", many (chr py.space)])

/-- {lit}`_COUNT`. -/
def countRe : Re := seqs [named py, lit "count", opt (lit "()"), eos]

/-- {lit}`\(\s*(.+?)\s*\)$`. -/
def parenthesised : Re :=
  seqs [lit "(", many (chr py.space), group 1 (lazy1 (chr (· ≠ '\n'))), many (chr py.space),
    lit ")", eos]

/-- {lit}`_HIST`. -/
def histRe : Re := seqs [named py, lit "hist", parenthesised py]

/-- {lit}`_SHIELD`. -/
def shieldRe : Re := seqs [lit "shield", parenthesised py]

/-- {lit}`_PRED`. -/
def predRe : Re :=
  seqs [group 1 (lazy1 (chr (· ≠ '\n'))), many (chr py.space),
    group 2 (texts ["==", "!=", "<=", ">=", "<", ">"]), many (chr py.space),
    group 3 (seq (opt (lit "-")) (many1 (chr py.digit))), eos]

/-- {lit}`str.strip`. -/
def strip (s : List Char) : List Char :=
  ((s.dropWhile py.space).reverse.dropWhile py.space).reverse

end Expressions

/-- What {lit}`parse` returns. -/
structure Parsed where
  probe : String
  hook : String
  pred : List Char
  action : List Char

/-- {lit}`parse`. -/
def parse (py : Python) (expr : String) : Except String Parsed :=
  match (probeRe py).fromStart expr.toList with
  | none => .error "expected  <fentry|fexit>/<hook> [/pred/] \x7b <action> \x7d"
  | some m =>
      .ok {
        probe := groupText m 1
        hook := groupText m 2
        pred := strip py ((m 3).getD [])
        action := strip py ((m 4).getD []) }

/-- {lit}`re.split(r"\|\||&&", pred)`, with the piece before the cursor. -/
def splitTerms : (piece : List Char) → List Char → List (List Char)
  | piece, [] => [piece]
  | piece, '|' :: '|' :: rest => piece :: splitTerms [] rest
  | piece, '&' :: '&' :: rest => piece :: splitTerms [] rest
  | piece, c :: rest => splitTerms (piece ++ [c]) rest

/-- The terms of a predicate. -/
def predTerms (py : Python) (pred : List Char) : List (List Char) :=
  ((splitTerms [] pred).map (strip py)).filter (· ≠ [])

/-- The action counts. -/
def Counts (py : Python) (action : List Char) : Prop :=
  ((countRe py).fromStart action).isSome ∨ ((shieldRe py).fromStart action).isSome

instance (py : Python) (action : List Char) : Decidable (Counts py action) :=
  inferInstanceAs (Decidable (_ ∨ _))

/-- The value of an action that does not count: {lit}`hist(<value>)` or a bare value. -/
def actionValue (py : Python) (action : List Char) : List Char :=
  match (histRe py).fromStart action with
  | some m => (m 1).getD []
  | none => action

/-! ## The program -/

/-- The tool with its two catalogs. -/
structure Tool where
  py : Python
  sigsPath : String
  sigs : Signatures
  types : Types

/-- A term of a predicate: its value, the operator and the integer. -/
structure Term where
  value : Value
  op : String
  rhs : String

/-- What a program returns. -/
inductive Act
  | count
  | shield
  | value (v : Value)

structure Program where
  expr : String
  /-- All lines after the first, with the ends of line before them. -/
  body : List Piece
  fn : String
  probe : String
  hook : String

/-- The first line of the program. -/
def Program.head (p : Program) : String := "/* generated by tmmtrace from:  " ++ p.expr ++ " */"

def Program.source (p : Program) : String := p.head ++ render p.body

section Generate

variable (tool : Tool)

def resolve (hook : String) (tok : List Char) : Except String Value :=
  resolveValue tool.py tool.sigsPath tool.sigs tool.types hook tok

/-- {lit}`take`. -/
def take (hook : String) (tok : List Char) (st : Gen) : Except String (List Piece × Gen) :=
  match resolve tool hook tok with
  | .error msg => .error msg
  | .ok v => readValue tool.py v st

/-- One term of the predicate. -/
def takeTerm (hook : String) (t : List Char) (st : Gen) : Except String (List Piece × Gen) :=
  match (predRe tool.py).fromStart t with
  | none =>
      .error ("predicate term must be  <value> <op> <int>  (got " ++
        tool.py.repr (String.ofList t) ++ ")")
  | some m =>
      (take tool hook (strip tool.py ((m 1).getD [])) st).map fun r =>
        (r.1 ++ [.text (" " ++ groupText m 2 ++ " " ++ groupText m 3)], r.2)

/-- The loop over the terms. -/
def takeTerms (hook : String) : List (List Char) → Gen →
    Except String (List (List Piece) × Gen)
  | [], st => .ok ([], st)
  | t :: ts, st =>
      match takeTerm tool hook t st with
      | .error msg => .error msg
      | .ok (part, st) => (takeTerms hook ts st).map fun r => (part :: r.1, r.2)

/-- {lit}`(" %s " % join).join("(%s)" % x for x in parts)`, of one part the part itself. -/
def joined (join : String) : List (List Piece) → List Piece
  | [part] => part
  | parts =>
      (parts.map fun part => .text "(" :: (part ++ [Piece.text ")"])).intersperse
        [.text (" " ++ join ++ " ")] |>.flatten

/-- A structure with fields that a parameter points at. -/
def firstField (types : Types) (p : Param) : Option (String × String × String) :=
  p.blob.bind fun struct =>
    (types.scalars.get? struct).bind fun fields =>
      fields.entries.head?.map fun e => (struct, e.1, e.2)

/-- The canary: a read of a first field, where the program has no other. -/
def canary (hook : String) (st : Gen) : Except String Gen :=
  if st.code ≠ [] then .ok st
  else
    let params := (hookParams tool.py tool.sigs hook).getD []
    match params.zipIdx.find? fun e => (firstField tool.types e.1).isSome with
    | none => .ok st
    | some (p, i) =>
        let (struct, field, type) := (firstField tool.types p).getD ("", "", "")
        match cType type with
        | none => .error (tool.py.repr type)
        | some ct =>
            (reg st.sfields struct field ct).map fun sfields => {
              sfields := sfields
              code := st.code ++
                [[.text ("    struct " ++ struct ++ " *pc = (struct " ++ struct ++ " *)"),
                  .arg ⟨i, p.position⟩,
                  .text (";\n    " ++ ct.text ++
                    " vc = 0;\n    (void)bpf_probe_read(&vc, sizeof vc, &pc->" ++ field ++ ");  "),
                  .comment " canary: relocation only ", newline]]
              k := st.k }

/-- What is returned by a program that counts. -/
def countRet (isShield : Bool) : Option (List Piece) → List Piece
  | none =>
      [.text "    return 1ull;                 ",
        .comment " count every invocation (safe_returns) "]
  | some cond =>
      [.text "    return ("] ++ cond ++ [.text ") ? 1ull : 0ull;   ",
        .comment (if isShield then " MATCH -> SAFE_RETURN; under ENFORCE the host skips the body " ++
          "and returns the arm-time safe value " else " SAFE_RETURN on match; safe_returns = count ")]

/-- What is returned by a program that gives a value. -/
def valueRet (ex : List Piece) : Option (List Piece) → List Piece
  | none =>
      [.text "    return "] ++ ex ++ [.text ";                 ", .comment " value; host samples it "]
  | some cond =>
      [.text "    if (!("] ++ cond ++ [.text ")) return 0ull;\n    return "] ++ ex ++
        [.text ";   ", .comment " value; host samples it "]

/-- The action, after the predicate. -/
def takeAction (hook : String) (action : List Char) (cond : Option (List Piece)) (st : Gen) :
    Except String (List Piece × Gen) :=
  if Counts tool.py action then
    if ((shieldRe tool.py).fromStart action).isSome ∧ cond = none then
      .error ("shield(...) needs a predicate to gate the SAFE_RETURN: " ++
        "fentry/<hook> /field op N/ \x7b shield(<safe value>) \x7d")
    else
      (canary tool hook st).map fun st =>
        (countRet ((shieldRe tool.py).fromStart action).isSome cond, st)
  else (take tool hook (actionValue tool.py action) st).map fun r => (valueRet r.1 cond, r.2)

/-- The lines before the declarations. -/
def preamble : List (List Piece) :=
  [[.text "typedef unsigned char __u8; typedef unsigned short __u16;"],
    [.text "typedef unsigned int __u32; typedef unsigned long long __u64;"],
    [.text "static long (*bpf_probe_read)(void *, __u32, const void *) = (void *)4;"]]

/-- The lines up to the name of the program, and those from there on. -/
def frontLines (probe hook : String) (structs : List Declaration) : List (List Piece) :=
  preamble ++ structs.map (fun d => [.text d.text]) ++
    [[.text (if probe = "fexit" then "struct ls_ctx_exit \x7b __u64 arg[5]; __u64 ret; \x7d;"
      else "struct ls_ctx_generic \x7b __u64 arg[5]; \x7d;")], [],
    [.text ("__attribute__((section(\"" ++ probe ++ "/" ++ hook ++ "\"), used))")]]

def fnLine (probe fn : String) : List Piece :=
  [.text "__u64 ", .text fn,
    .text ("(struct " ++ (if probe = "fexit" then "ls_ctx_exit" else "ls_ctx_generic") ++ " *c)")]

def backLines (code : List (List Piece)) (ret : List Piece) : List (List Piece) :=
  [.text "\x7b"] :: code ++ [ret, [.text "\x7d"], []]

/-- The program of a state and what it returns. -/
def assemble (p : Parsed) (fn : String) (ret : List Piece) (st : Gen) :
    Except String (List Piece) :=
  match (emission st.sfields).run with
  | none => .error ""
  | some (.error msg) => .error msg
  | some (.ok e) =>
      .ok ((frontLines p.probe p.hook e.structs ++ [fnLine p.probe fn] ++
        backLines st.code ret).flatMap fun line => newline :: line)

/-- The predicate. -/
def takePred (hook : String) (pred : List Char) (st : Gen) :
    Except String (Option (List Piece) × Gen) :=
  if pred = [] then .ok (none, st)
  else
    let hasAnd := decide (['&', '&'] <:+: pred)
    let hasOr := decide (['|', '|'] <:+: pred)
    if hasAnd ∧ hasOr then
      .error ("predicate mixes '&&' and '||'; precedence is deliberately not guessed here --- use " ++
        "one or the other, or split into two probes")
    else if predTerms tool.py pred = [] then .error "empty predicate"
    else
      (takeTerms tool hook (predTerms tool.py pred) st).map fun r =>
        (some (joined (if hasOr then "||" else "&&") r.1), r.2)

/-- {lit}`codegen`. -/
def codegen (expr : String) : Except String Program :=
  match parse tool.py expr with
  | .error msg => .error msg
  | .ok p =>
      let fn := tool.py.ident expr p.hook (String.ofList p.action)
      match takePred tool p.hook p.pred { sfields := Dict.empty, code := [], k := 0 } with
      | .error msg => .error msg
      | .ok (cond, st) =>
          match takeAction tool p.hook p.action cond st with
          | .error msg => .error msg
          | .ok (ret, st) =>
              (assemble p fn ret st).map fun body =>
                { expr, body, fn, probe := p.probe, hook := p.hook }

end Generate

end Trace
end LiveSurface
