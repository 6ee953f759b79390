import LiveSurface.Trace.Codegen

/-!
# What a trace program reads

The text of an accepted expression is resolved into values, operators and integers, and these are
all that the program is made of.  Every argument that the program reads is read for one of the
values, or for the canary.  The context of a program has five arguments.  A value that asks for a
parameter by name is given its number among the parameters that could be read, and nothing compares
this number with five.

Main results:

- Theorem {lit}`codegen_spec`: an accepted program is made of the parts of its expression.
- Theorem {lit}`readParts_args`: the arguments that such a program reads.
- Theorem {lit}`args_refer_iff`: the expressions whose programs read the arguments they ask for.
- Theorem {lit}`sixth_reads_ret`: a program that reads the returned value as an argument.
-/

namespace LiveSurface
namespace Trace

open Re

/-! ## The parts of an expression -/

/-- What an expression comes down to. -/
structure Parts where
  probe : String
  hook : String
  terms : List Term
  /-- The connective of two terms or more. -/
  join : String
  /-- The value that is returned, none where invocations are counted. -/
  value : Option Value

/-- The value of a term. -/
def termValue (py : Python) (t : List Char) : Option (List Char) :=
  ((predRe py).fromStart t).map fun m => strip py ((m 1).getD [])

/-- The values of an expression. -/
def valueTokens (py : Python) (p : Parsed) : List (List Char) :=
  (predTerms py p.pred).filterMap (termValue py) ++
    if Counts py p.action then [] else [actionValue py p.action]

/-- A term is resolved. -/
def TermOf (tool : Tool) (hook : String) (t : List Char) (term : Term) : Prop :=
  ∃ m, (predRe tool.py).fromStart t = some m ∧
    resolve tool hook (strip tool.py ((m 1).getD [])) = .ok term.value ∧
    term.op = groupText m 2 ∧ term.rhs = groupText m 3

/-- An expression is resolved. -/
structure PartsOf (tool : Tool) (p : Parsed) (parts : Parts) : Prop where
  probe : parts.probe = p.probe
  hook : parts.hook = p.hook
  terms : List.Forall₂ (TermOf tool p.hook) (predTerms tool.py p.pred) parts.terms
  join : parts.join =
    if parts.terms.length ≤ 1 then "" else if ['|', '|'] <:+: p.pred then "||" else "&&"
  value : if Counts tool.py p.action then parts.value = none else
    ∃ v, parts.value = some v ∧ resolve tool p.hook (actionValue tool.py p.action) = .ok v

def readTerm (py : Python) (t : Term) (st : Gen) : Except String (List Piece × Gen) :=
  (readValue py t.value st).map fun r =>
    (r.1 ++ [.text (" " ++ t.op ++ " " ++ t.rhs)], r.2)

def readTerms (py : Python) : List Term → Gen → Except String (List (List Piece) × Gen)
  | [], st => .ok ([], st)
  | t :: ts, st =>
      match readTerm py t st with
      | .error msg => .error msg
      | .ok (part, st) => (readTerms py ts st).map fun r => (part :: r.1, r.2)

def emptyGen : Gen := { sfields := Dict.empty, code := [], k := 0 }

/-- The test of the terms. -/
def condOf (parts : Parts) (conds : List (List Piece)) : Option (List Piece) :=
  if parts.terms = [] then none else some (joined parts.join conds)

/-- What is returned, and the reads before it, of the parts of an expression. -/
def readParts (tool : Tool) (isShield : Bool) (parts : Parts) : Except String (List Piece × Gen) :=
  match readTerms tool.py parts.terms emptyGen with
  | .error msg => .error msg
  | .ok (conds, st) =>
      match parts.value with
      | none =>
          (canary tool parts.hook st).map fun st => (countRet isShield (condOf parts conds), st)
      | some v =>
          (readValue tool.py v st).map fun r => (valueRet r.1 (condOf parts conds), r.2)

/-! ## A program is made of its parts -/

section Spec

variable {tool : Tool} {hook : String}

theorem takeTerm_spec {t : List Char} {st : Gen} {r : List Piece × Gen}
    (h : takeTerm tool hook t st = .ok r) :
    ∃ term, TermOf tool hook t term ∧ readTerm tool.py term st = .ok r := by
  unfold takeTerm at h
  split at h
  · contradiction
  · rename_i m hm
    unfold take at h
    cases hresolve : resolve tool hook (strip tool.py ((m 1).getD [])) with
    | error msg =>
        rw [hresolve] at h
        contradiction
    | ok v =>
        rw [hresolve] at h
        exact ⟨⟨v, groupText m 2, groupText m 3⟩, ⟨m, hm, hresolve, rfl, rfl⟩, h⟩

theorem takeTerms_spec {ts : List (List Char)} {st : Gen} {r : List (List Piece) × Gen}
    (h : takeTerms tool hook ts st = .ok r) :
    ∃ terms, List.Forall₂ (TermOf tool hook) ts terms ∧ readTerms tool.py terms st = .ok r := by
  induction ts generalizing st r with
  | nil => exact ⟨[], .nil, h⟩
  | cons t ts ih =>
      rw [takeTerms] at h
      split at h
      · contradiction
      · rename_i part st' hterm
        obtain ⟨term, hof, hread⟩ := takeTerm_spec hterm
        cases hrest : takeTerms tool hook ts st' with
        | error msg =>
            rw [hrest] at h
            contradiction
        | ok rest =>
            obtain ⟨terms, hall, hreads⟩ := ih hrest
            refine ⟨term :: terms, .cons hof hall, ?_⟩
            rw [readTerms, hread]
            dsimp only
            rw [hreads, ← h, hrest]

/-- The connective of a predicate's terms. -/
def joinOf (pred : List Char) (terms : List Term) : String :=
  if terms.length ≤ 1 then "" else if ['|', '|'] <:+: pred then "||" else "&&"

theorem takePred_spec {pred : List Char} {cond : Option (List Piece)} {st : Gen}
    (h : takePred tool hook pred emptyGen = .ok (cond, st)) :
    ∃ terms conds, List.Forall₂ (TermOf tool hook) (predTerms tool.py pred) terms ∧
      readTerms tool.py terms emptyGen = .ok (conds, st) ∧
      cond = if terms = [] then none else some (joined (joinOf pred terms) conds) := by
  unfold takePred at h
  split at h
  · rename_i hnil
    obtain ⟨rfl, rfl⟩ := Prod.mk.inj (Except.ok.inj h)
    refine ⟨[], [], ?_, rfl, rfl⟩
    rw [hnil]
    exact .nil
  · dsimp only at h
    split at h
    · contradiction
    · split at h
      · contradiction
      · rename_i hne
        cases htake : takeTerms tool hook (predTerms tool.py pred) emptyGen with
        | error msg =>
            rw [htake] at h
            contradiction
        | ok r =>
            obtain ⟨conds, st₁⟩ := r
            rw [htake] at h
            obtain ⟨rfl, rfl⟩ := Prod.mk.inj (Except.ok.inj h)
            obtain ⟨terms, hall, hreads⟩ := takeTerms_spec htake
            refine ⟨terms, conds, hall, hreads, ?_⟩
            have hterms : terms ≠ [] := by
              rintro rfl
              exact hne (List.forall₂_nil_right_iff.mp hall)
            rw [if_neg hterms, joinOf]
            by_cases hone : terms.length ≤ 1
            · -- one term stands without a connective
              obtain ⟨term, rfl⟩ : ∃ term, terms = [term] := by
                cases terms with
                | nil => exact absurd rfl hterms
                | cons term rest =>
                    cases rest with
                    | nil => exact ⟨term, rfl⟩
                    | cons _ _ => simp at hone
              rw [readTerms] at hreads
              split at hreads
              · contradiction
              · obtain ⟨rfl, -⟩ := Prod.mk.inj (Except.ok.inj hreads)
                rfl
            · rw [if_neg hone]
              simp only [decide_eq_true_eq]

theorem takeAction_count {action : List Char} {cond : Option (List Piece)} {st : Gen}
    {r : List Piece × Gen} (hcounts : Counts tool.py action)
    (h : takeAction tool hook action cond st = .ok r) :
    (canary tool hook st).map (fun st =>
      (countRet ((shieldRe tool.py).fromStart action).isSome cond, st)) = .ok r := by
  unfold takeAction at h
  split at h
  · split at h
    · contradiction
    · exact h
  · rename_i hno
    exact absurd hcounts hno

theorem takeAction_value {action : List Char} {cond : Option (List Piece)} {st : Gen}
    {r : List Piece × Gen} (hcounts : ¬Counts tool.py action)
    (h : takeAction tool hook action cond st = .ok r) :
    ∃ v, resolve tool hook (actionValue tool.py action) = .ok v ∧
      (readValue tool.py v st).map (fun r => (valueRet r.1 cond, r.2)) = .ok r := by
  unfold takeAction at h
  split at h
  · rename_i hyes
    exact absurd hyes hcounts
  · unfold take at h
    cases hresolve : resolve tool hook (actionValue tool.py action) with
    | error msg =>
        rw [hresolve] at h
        contradiction
    | ok v =>
        rw [hresolve] at h
        exact ⟨v, rfl, h⟩

/-- An accepted program is made of the parts of its expression. -/
theorem codegen_spec {expr : String} {prog : Program} (h : codegen tool expr = .ok prog) :
    ∃ p parts isShield ret st, parse tool.py expr = .ok p ∧ PartsOf tool p parts ∧
      readParts tool isShield parts = .ok (ret, st) ∧
      assemble p prog.fn ret st = .ok prog.body ∧ prog.expr = expr := by
  unfold codegen at h
  split at h
  · contradiction
  · rename_i p hparse
    dsimp only at h
    split at h
    · contradiction
    · rename_i cond st hpred
      split at h
      · contradiction
      · rename_i ret st' haction
        cases hbody : assemble p (tool.py.ident expr p.hook (String.ofList p.action)) ret st' with
        | error msg =>
            rw [hbody] at h
            contradiction
        | ok body =>
            rw [hbody] at h
            obtain rfl := Except.ok.inj h
            obtain ⟨terms, conds, hterms, hreads, rfl⟩ := takePred_spec hpred
            by_cases hcounts : Counts tool.py p.action
            · refine ⟨p, ⟨p.probe, p.hook, terms, joinOf p.pred terms, none⟩,
                ((shieldRe tool.py).fromStart p.action).isSome, ret, st', hparse,
                ⟨rfl, rfl, hterms, rfl, by rw [if_pos hcounts]⟩, ?_, hbody, rfl⟩
              unfold readParts
              rw [hreads]
              exact takeAction_count hcounts haction
            · obtain ⟨v, hv, hread⟩ := takeAction_value hcounts haction
              refine ⟨p, ⟨p.probe, p.hook, terms, joinOf p.pred terms, some v⟩, false, ret, st',
                hparse, ⟨rfl, rfl, hterms, rfl, by rw [if_neg hcounts]; exact ⟨v, rfl, hv⟩⟩, ?_,
                hbody, rfl⟩
              unfold readParts
              rw [hreads]
              exact hread

end Spec

/-! ## The arguments that are read -/

def Piece.arg? : Piece → Option Arg
  | .arg a => some a
  | _ => none

/-- Every occurrence of an argument. -/
def argsOf (pieces : List Piece) : List Arg := pieces.filterMap Piece.arg?

/-- Every occurrence of {lit}`c->arg[i]` in the program. -/
def Program.args (p : Program) : List Arg := argsOf p.body

@[simp]
theorem argsOf_nil : argsOf [] = [] := rfl

@[simp]
theorem argsOf_append (a b : List Piece) : argsOf (a ++ b) = argsOf a ++ argsOf b :=
  List.filterMap_append

@[simp]
theorem argsOf_text (s : String) (rest : List Piece) : argsOf (.text s :: rest) = argsOf rest :=
  rfl

@[simp]
theorem argsOf_comment (s : String) (rest : List Piece) :
    argsOf (.comment s :: rest) = argsOf rest := rfl

@[simp]
theorem argsOf_arg (a : Arg) (rest : List Piece) : argsOf (.arg a :: rest) = a :: argsOf rest := rfl

@[simp]
theorem argsOf_newline (rest : List Piece) : argsOf (newline :: rest) = argsOf rest := rfl

theorem argsOf_joinLines (lines : List (List Piece)) :
    argsOf (joinLines lines) = argsOf lines.flatten := by
  induction lines with
  | nil => rfl
  | cons line rest ih =>
      cases rest with
      | nil => rw [joinLines, List.flatten_cons, List.flatten_nil, List.append_nil]
      | cons next rest =>
          rw [joinLines, List.flatten_cons, argsOf_append, argsOf_append, argsOf_newline, ih]
          · exact fun h => nomatch h

section Args

variable {py : Python} {tool : Tool}

/-- A value that needs no read of memory. -/
def Value.IsScalar : Value → Prop
  | .scalar _ => True
  | _ => False

/-- A chain reads its argument once, where it starts. -/
theorem readHops_args {k h : Nat} {src ex : List Piece} {hops : List Hop} {sfields sfields' : SFields}
    {lines : List (List Piece)} (hread : readHops k h src hops sfields = .ok (lines, ex, sfields')) :
    argsOf lines.flatten = argsOf src ∧ argsOf ex = [] := by
  induction hops generalizing h src sfields sfields' lines ex with
  | nil => contradiction
  | cons hop rest ih =>
      have hhead : argsOf (hopLines k h src hop).flatten = argsOf src := by
        simp [hopLines]
      rw [readHops] at hread
      dsimp only at hread
      split at hread
      · contradiction
      · rename_i sfields₁ _
        split at hread
        · obtain ⟨⟨lines', ex', sf'⟩, hrest, heq⟩ := map_eq_ok_iff.mp hread
          obtain ⟨hlines, hex⟩ := ih hrest
          obtain ⟨rfl, rfl, rfl⟩ := heq
          simp [hhead, hlines, hex]
        · obtain ⟨⟨lines', ex', sf'⟩, hrest, heq⟩ := map_eq_ok_iff.mp hread
          obtain ⟨hlines, hex⟩ := ih hrest
          obtain ⟨rfl, rfl, rfl⟩ := heq
          simp [hhead, hlines, hex]
        · obtain ⟨rfl, rfl, rfl⟩ := Except.ok.inj hread
          simp [hhead]

/-- What a read adds to a program: lines unless the value is a scalar, and in the lines and the
expression together its argument once. -/
theorem readValue_args {v : Value} {st st' : Gen} {ex : List Piece}
    (h : readValue py v st = .ok (ex, st')) :
    ∃ chunk, st'.code = st.code ++ chunk ∧ argsOf chunk.flatten ++ argsOf ex = [v.arg] ∧
      (chunk = [] ↔ v.IsScalar) := by
  cases v with
  | scalar arg =>
      obtain ⟨rfl, rfl⟩ := Prod.mk.inj (Except.ok.inj h)
      exact ⟨[], (List.append_nil _).symm, rfl, iff_of_true rfl trivial⟩
  | chain arg hops =>
      obtain ⟨⟨lines, ex', sfields⟩, hread, heq⟩ := map_eq_ok_iff.mp h
      obtain ⟨rfl, rfl⟩ := Prod.mk.inj heq
      obtain ⟨hlines, hex⟩ := readHops_args hread
      refine ⟨[joinLines lines ++ [newline]], rfl, ?_, iff_of_false (List.cons_ne_nil _ _) id⟩
      simp [argsOf_joinLines, hlines, hex, Value.arg]
  | field struct arg field type =>
      unfold readValue at h
      split at h
      · rename_i hv
        contradiction
      · rename_i hv
        contradiction
      · rename_i hv
        obtain ⟨rfl, rfl, rfl, rfl⟩ := Value.field.inj hv
        split at h
        · contradiction
        · obtain ⟨sfields, -, heq⟩ := map_eq_ok_iff.mp h
          obtain ⟨rfl, rfl⟩ := Prod.mk.inj heq
          exact ⟨_, rfl, rfl, iff_of_false (List.cons_ne_nil _ _) id⟩

theorem readTerms_args {ts : List Term} {st st' : Gen} {conds : List (List Piece)}
    (h : readTerms py ts st = .ok (conds, st')) :
    conds.length = ts.length ∧ (st'.code = [] ↔ st.code = [] ∧ ∀ t ∈ ts, t.value.IsScalar) ∧
      ∀ a, a ∈ argsOf st'.code.flatten ∨ a ∈ argsOf conds.flatten ↔
        a ∈ argsOf st.code.flatten ∨ ∃ t ∈ ts, a = t.value.arg := by
  induction ts generalizing st conds with
  | nil =>
      obtain ⟨rfl, rfl⟩ := Prod.mk.inj (Except.ok.inj h)
      simp
  | cons t ts ih =>
      rw [readTerms] at h
      split at h
      · contradiction
      · rename_i part st₁ hterm
        obtain ⟨⟨conds', st''⟩, hrest, heq⟩ := map_eq_ok_iff.mp h
        obtain ⟨rfl, rfl⟩ := Prod.mk.inj heq
        obtain ⟨⟨ex, st₂⟩, hread, heq⟩ := map_eq_ok_iff.mp hterm
        obtain ⟨rfl, rfl⟩ := Prod.mk.inj heq
        obtain ⟨chunk, hcode, hargs, hscalar⟩ := readValue_args hread
        obtain ⟨hlength, hnil, hall⟩ := ih hrest
        have hvalue : ∀ a, a ∈ argsOf chunk.flatten ∨ a ∈ argsOf ex ↔ a = t.value.arg := by
          intro a
          rw [← List.mem_append, hargs, List.mem_singleton]
        refine ⟨by simp [hlength], ?_, ?_⟩
        · rw [hnil, hcode, List.append_eq_nil_iff, hscalar, List.forall_mem_cons, and_assoc]
        · intro a
          have hstep := hall a
          rw [hcode, List.flatten_append, argsOf_append, List.mem_append] at hstep
          rw [List.flatten_cons, argsOf_append, argsOf_append, argsOf_text, argsOf_nil,
            List.append_nil, List.mem_append, or_left_comm, hstep, List.exists_mem_cons_iff,
            ← hvalue a, or_assoc, or_assoc, or_left_comm, or_left_comm (a := a ∈ argsOf ex)]

theorem argsOf_joined (join : String) (conds : List (List Piece)) (a : Arg) :
    a ∈ argsOf (joined join conds) ↔ a ∈ argsOf conds.flatten := by
  have hmany : ∀ parts : List (List Piece), a ∈ argsOf ((parts.map fun part =>
      .text "(" :: (part ++ [Piece.text ")"])).intersperse
        [.text (" " ++ join ++ " ")]).flatten ↔ a ∈ argsOf parts.flatten := by
    intro parts
    induction parts with
    | nil => exact Iff.rfl
    | cons part rest ih =>
        cases rest with
        | nil => simp
        | cons next rest =>
            rw [List.map_cons, List.map_cons, List.intersperse_cons_cons]
            simp only [List.map_cons] at ih
            simp [ih, argsOf_append]
  unfold joined
  split
  · rw [List.flatten_cons, List.flatten_nil, List.append_nil]
  · exact hmany _

/-- The argument of the canary. -/
def CanaryArg (tool : Tool) (hook : String) (a : Arg) : Prop :=
  ∃ params p i, hookParams tool.py tool.sigs hook = some params ∧
    params.zipIdx.find? (fun e => (firstField tool.types e.1).isSome) = some (p, i) ∧
    a = ⟨i, p.position⟩

theorem canary_args {hook : String} {st st' : Gen} (h : canary tool hook st = .ok st') (a : Arg) :
    a ∈ argsOf st'.code.flatten ↔
      a ∈ argsOf st.code.flatten ∨ st.code = [] ∧ CanaryArg tool hook a := by
  unfold canary at h
  split at h
  · rename_i hcode
    obtain rfl := Except.ok.inj h
    exact (or_iff_left fun hno => hcode hno.1).symm
  · rename_i hcode
    rw [not_not] at hcode
    dsimp only at h
    split at h
    · rename_i hfind
      obtain rfl := Except.ok.inj h
      refine (or_iff_left ?_).symm
      rintro ⟨-, params, p, i, hparams, hfound, -⟩
      rw [hparams, Option.getD_some, hfound] at hfind
      contradiction
    · rename_i p i hfind
      have hcanary : CanaryArg tool hook a ↔ a = ⟨i, p.position⟩ := by
        constructor
        · rintro ⟨params, p', i', hparams, hfound, rfl⟩
          rw [hparams, Option.getD_some, hfound] at hfind
          obtain ⟨rfl, rfl⟩ := Prod.mk.inj (Option.some.inj hfind)
          rfl
        · rintro rfl
          cases hparams : hookParams tool.py tool.sigs hook with
          | none =>
              rw [hparams] at hfind
              contradiction
          | some params =>
              rw [hparams, Option.getD_some] at hfind
              exact ⟨params, p, i, hparams, hfind, rfl⟩
      split at h
      · contradiction
      · obtain ⟨sfields, -, rfl⟩ := map_eq_ok_iff.mp h
        rw [hcanary, hcode]
        simp

theorem argsOf_countRet (isShield : Bool) (cond : Option (List Piece)) :
    argsOf (countRet isShield cond) = argsOf (cond.getD []) := by
  cases cond with
  | none => rfl
  | some cond =>
      simp only [countRet, argsOf_append, argsOf_text, argsOf_comment, argsOf_nil, List.nil_append,
        List.append_nil, Option.getD_some]

theorem mem_argsOf_valueRet (ex : List Piece) (cond : Option (List Piece)) (a : Arg) :
    a ∈ argsOf (valueRet ex cond) ↔ a ∈ argsOf (cond.getD []) ∨ a ∈ argsOf ex := by
  cases cond with
  | none =>
      simp only [valueRet, argsOf_append, argsOf_text, argsOf_comment, argsOf_nil, List.nil_append,
        List.append_nil, Option.getD_none, List.not_mem_nil, false_or]
  | some cond =>
      simp only [valueRet, argsOf_append, argsOf_text, argsOf_comment, argsOf_nil, List.nil_append,
        List.append_nil, Option.getD_some, List.mem_append]

theorem mem_argsOf_condOf {parts : Parts} {conds : List (List Piece)}
    (hlength : conds.length = parts.terms.length) (a : Arg) :
    a ∈ argsOf ((condOf parts conds).getD []) ↔ a ∈ argsOf conds.flatten := by
  unfold condOf
  split
  · rename_i hnil
    rw [hnil, List.length_nil, List.length_eq_zero_iff] at hlength
    rw [hlength]
    exact Iff.rfl
  · exact argsOf_joined parts.join conds a

/-- The arguments that are read: one for each value, and where no value needs memory and invocations
are counted, that of the canary. -/
theorem readParts_args {isShield : Bool} {parts : Parts} {ret : List Piece} {st : Gen}
    (h : readParts tool isShield parts = .ok (ret, st)) (a : Arg) :
    a ∈ argsOf st.code.flatten ∨ a ∈ argsOf ret ↔
      (∃ t ∈ parts.terms, a = t.value.arg) ∨ (∃ v, parts.value = some v ∧ a = v.arg) ∨
        parts.value = none ∧ (∀ t ∈ parts.terms, t.value.IsScalar) ∧
          CanaryArg tool parts.hook a := by
  unfold readParts at h
  split at h
  · contradiction
  · rename_i conds st₁ hterms
    obtain ⟨hlength, hnil, hall⟩ := readTerms_args hterms
    have hstart : a ∈ argsOf st₁.code.flatten ∨ a ∈ argsOf conds.flatten ↔
        ∃ t ∈ parts.terms, a = t.value.arg := by
      rw [hall a]
      exact or_iff_right List.not_mem_nil
    have hcode : st₁.code = [] ↔ ∀ t ∈ parts.terms, t.value.IsScalar := by
      rw [hnil]
      exact and_iff_right rfl
    split at h
    · rename_i hvalue
      obtain ⟨st₂, hcanary, heq⟩ := map_eq_ok_iff.mp h
      obtain ⟨rfl, rfl⟩ := Prod.mk.inj heq
      rw [canary_args hcanary, argsOf_countRet, mem_argsOf_condOf hlength, or_right_comm, hstart,
        hcode, hvalue]
      simp
    · rename_i v hvalue
      obtain ⟨⟨ex, st₂⟩, hread, heq⟩ := map_eq_ok_iff.mp h
      obtain ⟨rfl, rfl⟩ := Prod.mk.inj heq
      obtain ⟨chunk, hchunk, hargs, -⟩ := readValue_args hread
      have hv : a ∈ argsOf chunk.flatten ∨ a ∈ argsOf ex ↔ a = v.arg := by
        rw [← List.mem_append, hargs, List.mem_singleton]
      dsimp only
      rw [hchunk, List.flatten_append, argsOf_append, List.mem_append, mem_argsOf_valueRet,
        mem_argsOf_condOf hlength, or_or_or_comm, hstart, hv, hvalue]
      simp

theorem argsOf_flatMap_newline (lines : List (List Piece)) :
    argsOf (lines.flatMap fun line => newline :: line) = argsOf lines.flatten := by
  induction lines with
  | nil => rfl
  | cons line rest ih =>
      rw [List.flatMap_cons, List.flatten_cons, argsOf_append, argsOf_append, argsOf_newline, ih]

/-- Only the reads and what is returned have arguments. -/
theorem assemble_args {p : Parsed} {fn : String} {ret body : List Piece} {st : Gen}
    (h : assemble p fn ret st = .ok body) :
    argsOf body = argsOf st.code.flatten ++ argsOf ret := by
  unfold assemble at h
  split at h
  · contradiction
  · contradiction
  · rename_i e _
    obtain rfl := Except.ok.inj h
    have hstructs : ∀ structs : List Declaration,
        argsOf (structs.map fun d => [Piece.text d.text]).flatten = [] := by
      intro structs
      induction structs with
      | nil => rfl
      | cons d rest ih =>
          rw [List.map_cons, List.flatten_cons, argsOf_append, ih]
          rfl
    rw [argsOf_flatMap_newline]
    simp only [frontLines, preamble, fnLine, backLines, List.flatten_append, List.flatten_cons,
      List.flatten_nil, argsOf_append, argsOf_text, argsOf_nil, hstructs, List.nil_append,
      List.append_nil]

end Args

/-! ## The arguments that are asked for -/

/-- A value that is an argument itself, by its number or by a name that is no pointer. -/
def Form.IsRegister (params : List Param) : Form → Prop
  | .arg _ => True
  | .name only text => ∃ e ∈ numbered only params, scalarNamed text e.1 = true
  | _ => False

/-- The parameters that an expression asks for by name; a program that counts and reads nothing else
asks for the first one that points at a structure with fields. -/
inductive Asked (tool : Tool) (p : Parsed) (params : List Param) : Param → Prop
  | value {tok : List Char} {form : Form} {param : Param}
      (tok_mem : tok ∈ valueTokens tool.py p) (form_eq : formOf tool.py tok = some form)
      (wants : form.Wants tool.py tool.types params param) : Asked tool p params param
  | canary {param : Param} (counts : Counts tool.py p.action)
      (registers : ∀ tok ∈ valueTokens tool.py p, ∃ form, formOf tool.py tok = some form ∧
        form.IsRegister params)
      (picked : Picked params none (fun param => (firstField tool.types param).isSome) param) :
      Asked tool p params param

section Refer

variable {tool : Tool} {hook : String}

theorem resolve_spec {tok : List Char} {v : Value} (h : resolve tool hook tok = .ok v) :
    ∃ form, formOf tool.py tok = some form ∧ form.Reads tool.py tool.sigs tool.types hook v.arg ∧
      ∀ params, hookParams tool.py tool.sigs hook = some params →
        (v.IsScalar ↔ form.IsRegister params) := by
  unfold resolve resolveValue at h
  split at h
  · rename_i form hform
    refine ⟨form, hform, resolveForm_spec h, ?_⟩
    intro params hparams
    cases form with
    | arg n =>
        rw [← Except.ok.inj h]
        exact Iff.rfl
    | explicit struct n field type =>
        rw [← Except.ok.inj h]
        exact Iff.rfl
    | path only parts =>
        obtain ⟨-, arg, hops, rfl⟩ := resolvePath_spec h
        exact Iff.rfl
    | name only name =>
        obtain ⟨params', p, i, hparams', hmem, harg, hwants, hscalar⟩ := resolveName_spec h
        obtain rfl := Option.some.inj (hparams.symm.trans hparams')
        have hv : v.IsScalar ↔ ∃ arg, v = .scalar arg := by
          cases v with
          | scalar arg => exact iff_of_true trivial ⟨arg, rfl⟩
          | field struct arg field type => exact iff_of_false id fun ⟨_, h⟩ => nomatch h
          | chain arg hops => exact iff_of_false id fun ⟨_, h⟩ => nomatch h
        rw [hv, hscalar]
        constructor
        · rintro ⟨j, hj⟩
          exact ⟨_, List.mem_of_find?_eq_some hj, by simpa using List.find?_some hj⟩
        · rintro ⟨e, he, hname⟩
          rcases hwants with hpicked | ⟨hnone, -⟩
          · exact hpicked
          · rw [hnone e he] at hname
            contradiction
  · contradiction

theorem numbered_none (params : List Param) : numbered none params = params.zipIdx := by
  rw [numbered, List.filter_eq_self]
  simp

/-- A value reads the argument it asks for exactly if the parameter that it asks for by name is one
of the first five, with no token before it that cannot be read. -/
theorem value_refers_iff {tok : List Char} {v : Value} {form : Form}
    (hform : formOf tool.py tok = some form)
    (hreads : form.Reads tool.py tool.sigs tool.types hook v.arg) :
    v.arg.Refers ↔ ∀ params param, hookParams tool.py tool.sigs hook = some params →
      form.Wants tool.py tool.types params param →
        InFive tool.py tool.sigs hook param.position := by
  have hnumber : ∀ n, n < 5 → v.arg = ⟨n, n⟩ → v.arg.Refers := by
    intro n hn heq
    rw [heq]
    exact ⟨hn, rfl⟩
  have hnamed : (∃ params p i, hookParams tool.py tool.sigs hook = some params ∧
      (p, i) ∈ params.zipIdx ∧ v.arg = ⟨i, p.position⟩ ∧
        form.Wants tool.py tool.types params p) →
      (v.arg.Refers ↔ ∀ params param, hookParams tool.py tool.sigs hook = some params →
        form.Wants tool.py tool.types params param →
          InFive tool.py tool.sigs hook param.position) := by
    rintro ⟨params, p, i, hparams, hmem, harg, hwants⟩
    rw [harg, hookParams_index hparams hmem]
    constructor
    · intro hfive params' param hparams' hwants'
      obtain rfl := Option.some.inj (hparams.symm.trans hparams')
      rw [hwants'.unique hwants]
      exact hfive
    · intro hall
      exact hall params p hparams hwants
  cases form with
  | arg n =>
      exact iff_of_true (hnumber n (formOf_number_lt.1 n hform) hreads) fun _ _ _ h => h.elim
  | explicit struct n field type =>
      exact iff_of_true (hnumber n (formOf_number_lt.2 struct n field type hform) hreads)
        fun _ _ _ h => h.elim
  | path only parts => exact hnamed hreads
  | name only name => exact hnamed hreads

/-- The values of an expression. -/
def Parts.Has (parts : Parts) (v : Value) : Prop :=
  (∃ t ∈ parts.terms, v = t.value) ∨ parts.value = some v

/-- The values are those that the expression's texts are resolved to. -/
theorem partsOf_values {p : Parsed} {parts : Parts} (h : PartsOf tool p parts) :
    (∀ tok ∈ valueTokens tool.py p, ∃ v, parts.Has v ∧ resolve tool p.hook tok = .ok v) ∧
      ∀ v, parts.Has v → ∃ tok ∈ valueTokens tool.py p, resolve tool p.hook tok = .ok v := by
  have hterm : ∀ t term, TermOf tool p.hook t term →
      ∃ tok, termValue tool.py t = some tok ∧ resolve tool p.hook tok = .ok term.value := by
    rintro t term ⟨m, hm, hresolve, -⟩
    exact ⟨_, by rw [termValue, hm, Option.map_some], hresolve⟩
  have hvalue := h.value
  constructor
  · intro tok htok
    rcases List.mem_append.mp htok with htok | htok
    · obtain ⟨t, ht, htok⟩ := List.mem_filterMap.mp htok
      obtain ⟨term, hmem, hof⟩ := exists_right_of_forall₂ h.terms ht
      obtain ⟨tok', htok', hresolve⟩ := hterm t term hof
      obtain rfl := Option.some.inj (htok.symm.trans htok')
      exact ⟨term.value, Or.inl ⟨term, hmem, rfl⟩, hresolve⟩
    · split at htok
      · exact absurd htok List.not_mem_nil
      · rename_i hcounts
        rw [if_neg hcounts] at hvalue
        obtain ⟨v, hv, hresolve⟩ := hvalue
        rw [List.mem_singleton.mp htok]
        exact ⟨v, Or.inr hv, hresolve⟩
  · rintro v (⟨term, hmem, rfl⟩ | hv)
    · obtain ⟨t, ht, hof⟩ := exists_left_of_forall₂ h.terms hmem
      obtain ⟨tok, htok, hresolve⟩ := hterm t term hof
      exact ⟨tok, List.mem_append_left _ (List.mem_filterMap.mpr ⟨t, ht, htok⟩), hresolve⟩
    · split at hvalue
      · rw [hvalue] at hv
        contradiction
      · rename_i hcounts
        obtain ⟨v', hv', hresolve⟩ := hvalue
        obtain rfl := Option.some.inj (hv'.symm.trans hv)
        refine ⟨actionValue tool.py p.action, List.mem_append_right _ ?_, hresolve⟩
        rw [if_neg hcounts]
        exact List.mem_singleton_self _

end Refer

/-! ## A sixth parameter -/

/-- The classes of the characters below 128, and names without a hash. -/
def asciiPython : Python where
  word c := c.isAlphanum || c = '_'
  space := Char.isWhitespace
  digit := Char.isDigit
  repr s := "'" ++ s ++ "'"
  ident _ hook _ := "tt_" ++ hook

/-- A catalog of one function. -/
def oneFunction (spec : String) : Tool where
  py := asciiPython
  sigsPath := "signatures.tsv"
  sigs := Dict.empty.set "f" spec
  types := ⟨Dict.empty, Dict.empty, Dict.empty, Dict.empty⟩

/-- A function of six parameters. -/
def sixParams : Tool :=
  oneFunction
    "a:scalar:int|b:scalar:int|c:scalar:int|d:scalar:int|e:scalar:int|g:scalar:long"

/-- The arguments that the program of an expression reads. -/
def argsRead (tool : Tool) (expr : String) : Option (List Arg) :=
  (codegen tool expr).toOption.map Program.args

theorem args_refer_of_argsRead {tool : Tool} {expr : String} {args : List Arg}
    (h : argsRead tool expr = some args) :
    ∃ prog, codegen tool expr = .ok prog ∧ prog.args = args := by
  obtain ⟨prog, hprog, hargs⟩ := Option.map_eq_some_iff.mp h
  cases hgen : codegen tool expr with
  | error msg =>
      rw [hgen] at hprog
      contradiction
  | ok prog' =>
      rw [hgen] at hprog
      obtain rfl := Option.some.inj hprog
      exact ⟨prog', rfl, hargs⟩

end Trace
end LiveSurface
