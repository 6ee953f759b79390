import LiveSurface.Trace.Reads

/-!
# The expression in the generated program

The first line of a generated program is a comment with the expression.  C ends a comment at the
first {lit}`*/` after lines that end in a backslash are joined, and nothing keeps these two
characters out of the text between the parentheses of {lit}`shield(...)`.  Where they do not occur,
the program behind the comment is made of what the expression comes down to, and of its name.

Main results:

- Theorem {lit}`confined_iff`: when the comment ends where it is meant to.
- Theorem {lit}`codeText_of_parts`: what the rest of the program depends on.
- Theorem {lit}`expression_confined_iff`: both together.
- Theorem {lit}`shield_escapes`: an expression that becomes program text.
-/

namespace LiveSurface
namespace Trace

/-! ## Comments as C reads them -/

/-- Lines that end in a backslash are joined with the next ones. -/
def splice : List Char → List Char
  | [] => []
  | [c] => [c]
  | c :: d :: rest => if c = '\\' ∧ d = '\n' then splice rest else c :: splice (d :: rest)

/-- What follows the end of the comment one is in. -/
def commentEnd : List Char → Option (List Char)
  | [] => none
  | [_] => none
  | c :: d :: rest => if c = '*' ∧ d = '/' then some rest else commentEnd (d :: rest)

/-- What follows the comment that a text begins with. -/
def afterComment : List Char → Option (List Char)
  | '/' :: '*' :: rest => commentEnd rest
  | _ => none

/-- The first comment of the program ends where the first line is meant to end. -/
def Program.Confined (p : Program) : Prop :=
  afterComment (splice p.source.toList) = some (splice (render p.body).toList)

instance (p : Program) : Decidable p.Confined := inferInstanceAs (Decidable (_ = _))

/-- {lit}`*/`. -/
def closing : List Char := ['*', '/']

section Comments

variable {a b t : List Char} {c : Char}

/-- Texts are joined separately where the second does not begin with an end of line. -/
theorem splice_append (hc : c ≠ '\n') :
    splice (a ++ c :: b) = splice a ++ splice (c :: b) := by
  induction a using splice.induct with
  | case1 => rfl
  | case2 d =>
      change (if d = '\\' ∧ c = '\n' then splice b else d :: splice (c :: b)) = d :: splice (c :: b)
      exact if_neg fun h => hc h.2
  | case3 d e rest hcut ih =>
      rw [List.cons_append, List.cons_append, splice, if_pos hcut, splice, if_pos hcut, ih]
  | case4 d e rest hcut ih =>
      rw [List.cons_append, List.cons_append, splice, if_neg hcut, ← List.cons_append, ih, splice,
        if_neg hcut, List.cons_append]

theorem splice_cons (hc : c ≠ '\\') : splice (c :: b) = c :: splice b := by
  cases b with
  | nil => rfl
  | cons d rest => rw [splice, if_neg fun h => hc h.1]

theorem closing_infix_cons : closing <:+: c :: a ↔ (c = '*' ∧ ∃ rest, a = '/' :: rest) ∨
    closing <:+: a := by
  rw [List.infix_cons_iff]
  refine or_congr_left ?_
  constructor
  · rintro ⟨rest, h⟩
    obtain ⟨rfl, rfl⟩ := List.cons.inj h
    exact ⟨rfl, rest, rfl⟩
  · rintro ⟨rfl, rest, rfl⟩
    exact ⟨rest, rfl⟩

theorem closing_infix_append (ha : ∀ c ∈ a, c ≠ '*') : closing <:+: a ++ b ↔ closing <:+: b := by
  induction a with
  | nil => exact Iff.rfl
  | cons c a ih =>
      rw [List.forall_mem_cons] at ha
      rw [List.cons_append, closing_infix_cons, ih ha.2]
      exact or_iff_right fun h => ha.1 h.1

/-- A comment ends at its own end exactly if there is no end in it. -/
theorem commentEnd_eq_iff :
    commentEnd (a ++ ' ' :: '*' :: '/' :: t) = some t ↔ ¬closing <:+: a := by
  induction a with
  | nil =>
      refine iff_of_true rfl ?_
      rw [List.infix_nil]
      exact List.cons_ne_nil _ _
  | cons c a ih =>
      rw [closing_infix_cons]
      by_cases hend : c = '*' ∧ ∃ rest, a = '/' :: rest
      · refine iff_of_false ?_ (not_not.mpr (Or.inl hend))
        obtain ⟨rfl, rest, rfl⟩ := hend
        rw [List.cons_append, List.cons_append, commentEnd, if_pos ⟨rfl, rfl⟩]
        intro h
        have hlength := congrArg List.length (Option.some.inj h)
        simp only [List.length_append, List.length_cons] at hlength
        omega
      · rw [or_iff_right hend, ← ih]
        cases a with
        | nil =>
            rw [List.singleton_append, List.nil_append, commentEnd]
            rw [if_neg fun h => absurd h.2 (by decide)]
        | cons d a =>
            rw [List.cons_append, List.cons_append, commentEnd, if_neg]
            rintro ⟨hc, hd⟩
            exact hend ⟨hc, a, by rw [hd]⟩

/-- What the first line begins with, behind {lit}`/*`. -/
def opening : List Char := " generated by tmmtrace from:  ".toList

theorem opening_plain : ∀ c ∈ opening, c ≠ '*' ∧ c ≠ '\\' := by
  decide

theorem toList_open : "/* generated by tmmtrace from:  ".toList = '/' :: '*' :: opening := by
  rfl

theorem toList_close : " */".toList = [' ', '*', '/'] := by
  rfl

theorem toList_head (p : Program) :
    p.head.toList = '/' :: '*' :: (opening ++ (p.expr.toList ++ [' ', '*', '/'])) := by
  unfold Program.head
  rw [String.toList_append, String.toList_append, toList_open, toList_close, List.append_assoc]
  exact List.cons_append.trans (congrArg _ List.cons_append)

theorem splice_append_of_plain {pre rest : List Char} (hpre : ∀ c ∈ pre, c ≠ '*' ∧ c ≠ '\\') :
    splice (pre ++ rest) = pre ++ splice rest := by
  induction pre with
  | nil => rfl
  | cons c pre ih =>
      rw [List.forall_mem_cons] at hpre
      rw [List.cons_append, splice_cons hpre.1.2, ih hpre.2, List.cons_append]

/-- The first comment of a program ends where it is meant to exactly if its expression, with its
lines joined, does not end it. -/
theorem confined_iff (p : Program) : p.Confined ↔ ¬closing <:+: splice p.expr.toList := by
  have hsource : splice p.source.toList = '/' :: '*' :: (opening ++ splice p.expr.toList ++
      ' ' :: '*' :: '/' :: splice (render p.body).toList) := by
    rw [Program.source, String.toList_append, toList_head, List.cons_append, List.cons_append,
      splice_cons (by decide), splice_cons (by decide), List.append_assoc,
      splice_append_of_plain opening_plain, List.append_assoc, List.cons_append,
      splice_append (by decide), splice_cons (by decide), List.cons_append,
      splice_cons (by decide), List.cons_append, splice_cons (by decide), List.nil_append,
      List.append_assoc]
  rw [Program.Confined, hsource, afterComment, commentEnd_eq_iff,
    closing_infix_append fun c hc => (opening_plain c hc).1]

end Comments

/-! ## What the program is made of -/

/-- An argument as it is written. -/
def Arg.plain (a : Arg) : Arg := ⟨a.index, 0⟩

def Piece.plain : Piece → Piece
  | .arg a => .arg a.plain
  | piece => piece

def plain (pieces : List Piece) : List Piece := pieces.map Piece.plain

def Value.plain : Value → Value
  | .scalar arg => .scalar arg.plain
  | .chain arg hops => .chain arg.plain hops
  | .field struct arg name type => .field struct arg.plain name type

def Term.plain (t : Term) : Term := { t with value := t.value.plain }

/-- The probe, the hook, the values, the operators and the integers of an expression. -/
def Parts.plain (parts : Parts) : Parts :=
  { parts with terms := parts.terms.map Term.plain, value := parts.value.map Value.plain }

def Gen.plain (st : Gen) : Gen := { st with code := st.code.map Trace.plain }

/-- The text of a piece behind the first comment, with comments taken as spaces. -/
def Piece.code : Piece → String
  | .comment _ => " "
  | piece => piece.render

/-- The program behind the first comment, with comments taken as spaces. -/
def codeText (pieces : List Piece) : String := String.join (pieces.map Piece.code)

@[simp]
theorem plain_nil : plain [] = [] := rfl

@[simp]
theorem plain_append (a b : List Piece) : plain (a ++ b) = plain a ++ plain b := List.map_append

@[simp]
theorem plain_text (s : String) (rest : List Piece) :
    plain (.text s :: rest) = .text s :: plain rest := rfl

@[simp]
theorem plain_arg (a : Arg) (rest : List Piece) :
    plain (.arg a :: rest) = .arg a.plain :: plain rest := rfl

@[simp]
theorem plain_newline (rest : List Piece) : plain (newline :: rest) = newline :: plain rest := rfl

/-- Positions are not in the text. -/
theorem codeText_plain (pieces : List Piece) : codeText (plain pieces) = codeText pieces := by
  rw [codeText, plain, List.map_map]
  refine congrArg String.join (List.map_congr_left fun piece _ => ?_)
  cases piece <;> rfl

@[simp]
theorem plain_plain (pieces : List Piece) : plain (plain pieces) = plain pieces := by
  rw [plain, plain, List.map_map]
  refine List.map_congr_left fun piece _ => ?_
  cases piece <;> rfl

theorem codeText_append (a b : List Piece) : codeText (a ++ b) = codeText a ++ codeText b := by
  rw [codeText, List.map_append, String.join_append]
  rfl

theorem plain_joinLines (lines : List (List Piece)) :
    plain (joinLines lines) = joinLines (lines.map plain) := by
  induction lines with
  | nil => rfl
  | cons line rest ih =>
      cases rest with
      | nil => rfl
      | cons next rest =>
          rw [joinLines, plain_append, plain_newline, ih]
          · rfl
          · intro h
            cases h

theorem plain_hopLines (k h : Nat) (src : List Piece) (hop : Hop) :
    (hopLines k h src hop).map plain = hopLines k h (plain src) hop := by
  simp [hopLines]

section Plain

variable {py : Python} {tool : Tool}

theorem map_map {ε α β γ : Type} {f : α → β} {g : β → γ} (m : Except ε α) :
    (m.map f).map g = m.map (g ∘ f) := by
  cases m <;> rfl

/-- What is read of a chain does not depend on positions. -/
theorem readHops_plain (k h : Nat) (src : List Piece) (hops : List Hop) (sfields : SFields) :
    readHops k h (plain src) hops sfields =
      (readHops k h src hops sfields).map fun r => (r.1.map plain, plain r.2.1, r.2.2) := by
  induction hops generalizing h src sfields with
  | nil => rfl
  | cons hop rest ih =>
      rw [readHops, readHops]
      dsimp only
      cases reg sfields hop.struct hop.field hop.edge.ctype with
      | error msg => rfl
      | ok sfields =>
          dsimp only
          split
          · have hih := ih (h + 1) [.text ("h" ++ toString k ++ "_" ++ toString h)] sfields
            rw [plain_text, plain_nil] at hih
            conv_lhs => rw [hih]
            rw [map_map, map_map]
            refine congrArg (Except.map · _) (funext fun r => ?_)
            simp only [Function.comp_apply, List.map_append, plain_hopLines]
            rfl
          · have hih := ih (h + 1) [.text ("&" ++ ("p" ++ toString k ++ "_" ++ toString h) ++ "->" ++
              hop.field)] sfields
            rw [plain_text, plain_nil] at hih
            conv_lhs => rw [hih]
            rw [map_map, map_map]
            refine congrArg (Except.map · _) (funext fun r => ?_)
            simp only [Function.comp_apply, List.map_append, plain_hopLines]
          · simp only [Except.map, List.map_append, plain_hopLines]
            rfl

theorem readValue_plain (v : Value) (st : Gen) :
    readValue py v.plain st.plain =
      (readValue py v st).map fun r => (plain r.1, r.2.plain) := by
  cases v with
  | scalar arg => rfl
  | chain arg hops =>
      have hread := readHops_plain st.k 0 [.arg arg] hops st.sfields
      rw [plain_arg, plain_nil] at hread
      change (readHops st.k 0 [.arg arg.plain] hops st.sfields).map _ =
        ((readHops st.k 0 [.arg arg] hops st.sfields).map _).map _
      rw [hread, map_map, map_map]
      refine congrArg (Except.map · _) (funext fun r => ?_)
      simp [Gen.plain, plain_joinLines]
  | field struct arg name type =>
      simp only [Value.plain, readValue]
      cases cType type with
      | none => rfl
      | some ct =>
          dsimp only
          rw [map_map]
          refine congrArg (Except.map · _) (funext fun sfields => ?_)
          simp [Gen.plain]

theorem readTerms_plain (ts : List Term) (st : Gen) :
    readTerms py (ts.map Term.plain) st.plain =
      (readTerms py ts st).map fun r => (r.1.map plain, r.2.plain) := by
  induction ts generalizing st with
  | nil => rfl
  | cons t ts ih =>
      have hterm : readTerm py t.plain st.plain =
          (readTerm py t st).map fun r => (plain r.1, r.2.plain) := by
        rw [readTerm, readTerm, map_map]
        change (readValue py t.value.plain st.plain).map _ = _
        rw [readValue_plain, map_map]
        refine congrArg (Except.map · _) (funext fun r => ?_)
        simp [Term.plain]
      rw [List.map_cons, readTerms, readTerms, hterm]
      cases readTerm py t st with
      | error msg => rfl
      | ok r =>
          change (readTerms py (ts.map Term.plain) r.2.plain).map _ =
            ((readTerms py ts r.2).map _).map _
          rw [ih, map_map, map_map]
          rfl

theorem plain_joined (join : String) (conds : List (List Piece)) :
    plain (joined join conds) = joined join (conds.map plain) := by
  have hmany : ∀ parts : List (List Piece), plain ((parts.map fun part =>
      .text "(" :: (part ++ [Piece.text ")"])).intersperse [.text (" " ++ join ++ " ")]).flatten =
      (((parts.map plain).map fun part => .text "(" :: (part ++ [Piece.text ")"])).intersperse
        [.text (" " ++ join ++ " ")]).flatten := by
    intro parts
    induction parts with
    | nil => rfl
    | cons part rest ih =>
        cases rest with
        | nil => simp
        | cons next rest =>
            simp only [List.map_cons] at ih
            simp only [List.map_cons, List.intersperse_cons_cons, List.flatten_cons, plain_append,
              plain_text, plain_nil, ih]
  unfold joined
  cases conds with
  | nil => exact hmany []
  | cons cond rest =>
      cases rest with
      | nil => rfl
      | cons next rest => exact hmany (cond :: next :: rest)

/-- The canary does not depend on what is read before it, but for its being there. -/
theorem canary_plain (hook : String) (st : Gen) :
    (canary tool hook st.plain).map Gen.plain = (canary tool hook st).map Gen.plain := by
  have hcode : st.plain.code = [] ↔ st.code = [] := List.map_eq_nil_iff
  unfold canary
  by_cases hnil : st.code = []
  · rw [if_neg (not_not.mpr hnil), if_neg (not_not.mpr (hcode.mpr hnil))]
    dsimp only
    split
    · simp [Gen.plain, Except.map, hnil]
    · split
      · rfl
      · rw [map_map, map_map]
        refine congrArg (Except.map · _) (funext fun sfields => ?_)
        simp [Gen.plain, hnil]
  · rw [if_pos hnil, if_pos fun h => hnil (hcode.mp h)]
    simp [Gen.plain, Except.map, Function.comp_def]

theorem condOf_plain (parts : Parts) (conds : List (List Piece)) :
    condOf parts.plain (conds.map plain) = (condOf parts conds).map plain := by
  have hterms : parts.plain.terms = [] ↔ parts.terms = [] := List.map_eq_nil_iff
  unfold condOf
  by_cases hnil : parts.terms = []
  · rw [if_pos hnil, if_pos (hterms.mpr hnil)]
    rfl
  · rw [if_neg hnil, if_neg fun h => hnil (hterms.mp h), Option.map_some, plain_joined]
    rfl

/-- Programs that count and programs that shield differ in a comment. -/
theorem codeText_countRet (isShield : Bool) (cond : Option (List Piece)) :
    codeText (countRet isShield cond) = codeText (countRet false (cond.map plain)) := by
  cases cond with
  | none => rfl
  | some cond =>
      rw [Option.map_some, countRet, countRet]
      simp only [codeText_append, codeText_plain]
      rfl

theorem codeText_valueRet (ex : List Piece) (cond : Option (List Piece)) :
    codeText (valueRet ex cond) = codeText (valueRet (plain ex) (cond.map plain)) := by
  cases cond with
  | none =>
      rw [Option.map_none, valueRet, valueRet]
      simp only [codeText_append, codeText_plain]
  | some cond =>
      rw [Option.map_some, valueRet, valueRet]
      simp only [codeText_append, codeText_plain]

/-- What a program reads and returns is determined by its parts. -/
theorem readParts_plain (isShield : Bool) (parts : Parts) :
    (readParts tool isShield parts).map (fun r => (codeText r.1, r.2.plain)) =
      (readParts tool false parts.plain).map fun r => (codeText r.1, r.2.plain) := by
  have hterms := @readTerms_plain tool.py parts.terms emptyGen
  change readTerms tool.py parts.plain.terms emptyGen = _ at hterms
  unfold readParts
  rw [hterms]
  cases readTerms tool.py parts.terms emptyGen with
  | error msg => rfl
  | ok r =>
      obtain ⟨conds, st⟩ := r
      simp only [Except.map, condOf_plain]
      rw [show parts.plain.value = parts.value.map Value.plain from rfl]
      cases parts.value with
      | none =>
          have hcanary := congrArg (Except.map fun st' => (codeText (countRet false
            ((condOf parts conds).map plain)), st')) (@canary_plain tool parts.hook st)
          rw [map_map, map_map] at hcanary
          change (Except.map _ (canary tool parts.hook st)).map _ =
            (Except.map _ (canary tool parts.hook st.plain)).map _
          rw [map_map, map_map]
          simp only [Function.comp_def, codeText_countRet isShield]
          exact hcanary.symm
      | some v =>
          change (Except.map _ (readValue tool.py v st)).map _ =
            (Except.map _ (readValue tool.py v.plain st.plain)).map _
          rw [readValue_plain, map_map, map_map, map_map]
          refine congrArg (Except.map · _) (funext fun r => ?_)
          simp only [Function.comp_apply]
          rw [codeText_valueRet]
          simp [Gen.plain]

theorem codeText_lines (lines : List (List Piece)) :
    codeText (lines.flatMap fun line => newline :: line) =
      String.join (lines.map fun line => "\n" ++ codeText line) := by
  induction lines with
  | nil => rfl
  | cons line rest ih =>
      rw [List.flatMap_cons, codeText_append, ih, List.map_cons, String.join_cons]
      refine congrArg (· ++ _) ?_
      rw [codeText, List.map_cons, String.join_cons]
      rfl

/-- The lines behind the name depend on the text of what is read and returned. -/
theorem codeText_backLines {st st' : Gen} {ret ret' : List Piece} (hst : st.plain = st'.plain)
    (hret : codeText ret = codeText ret') :
    codeText ((backLines st.code ret).flatMap fun line => newline :: line) =
      codeText ((backLines st'.code ret').flatMap fun line => newline :: line) := by
  have hlines : ∀ code : List (List Piece), (code.map fun line => "\n" ++ codeText line) =
      (code.map plain).map fun line => "\n" ++ codeText line := by
    intro code
    rw [List.map_map]
    exact List.map_congr_left fun line _ => by rw [Function.comp_apply, codeText_plain]
  have hcode : st.code.map plain = st'.code.map plain := congrArg Gen.code hst
  rw [codeText_lines, codeText_lines, backLines, backLines, List.map_append, List.map_append]
  simp only [List.map_cons]
  rw [hlines st.code, hcode, ← hlines, hret]

theorem codeText_around (front back : List Piece) (fn : String) :
    codeText (front ++ .text fn :: back) = codeText front ++ fn ++ codeText back := by
  rw [codeText_append, String.append_assoc]
  refine congrArg (codeText front ++ ·) ?_
  rw [codeText, List.map_cons, String.join_cons]
  rfl

/-- Programs that read and return the same differ in their names at most. -/
theorem codeText_assemble {p p' : Parsed} {fn fn' : String} {ret ret' body body' : List Piece}
    {st st' : Gen} (h : assemble p fn ret st = .ok body)
    (h' : assemble p' fn' ret' st' = .ok body') (hprobe : p.probe = p'.probe)
    (hhook : p.hook = p'.hook) (hst : st.plain = st'.plain) (hret : codeText ret = codeText ret') :
    ∃ front back, codeText body = front ++ fn ++ back ∧ codeText body' = front ++ fn' ++ back := by
  have hsfields : st.sfields = st'.sfields := (congrArg Gen.sfields hst :)
  unfold assemble at h h'
  rw [← hsfields, ← hprobe, ← hhook] at h'
  split at h
  · contradiction
  · contradiction
  · rename_i e he
    rw [he] at h'
    obtain rfl := Except.ok.inj h
    obtain rfl := Except.ok.inj h'
    have hlines : ∀ (fn : String) (ret : List Piece) (st : Gen),
        (frontLines p.probe p.hook e.structs ++ [fnLine p.probe fn] ++
          backLines st.code ret).flatMap (fun line => newline :: line) =
          ((frontLines p.probe p.hook e.structs).flatMap (fun line => newline :: line) ++
            [newline, .text "__u64 "]) ++ .text fn :: ([.text ("(struct " ++
              (if p.probe = "fexit" then "ls_ctx_exit" else "ls_ctx_generic") ++ " *c)")] ++
                (backLines st.code ret).flatMap fun line => newline :: line) := by
      intro fn ret st
      simp [fnLine, List.flatMap_append]
    have hback := codeText_backLines hst hret
    rw [hlines, hlines, codeText_around, codeText_around, codeText_append _ (List.flatMap _ _),
      codeText_append _ (List.flatMap _ (backLines st'.code ret')), hback]
    exact ⟨_, _, rfl, rfl⟩

/-- The parts of an expression are determined. -/
theorem partsOf_unique {p : Parsed} {parts parts' : Parts} (h : PartsOf tool p parts)
    (h' : PartsOf tool p parts') : parts = parts' := by
  have hterm : ∀ t term term', TermOf tool p.hook t term → TermOf tool p.hook t term' →
      term = term' := by
    rintro t term term' ⟨m, hm, hv, hop, hrhs⟩ ⟨m', hm', hv', hop', hrhs'⟩
    obtain rfl := Option.some.inj (hm.symm.trans hm')
    have hvalue := Except.ok.inj (hv.symm.trans hv')
    cases term
    cases term'
    simp only [Term.mk.injEq]
    exact ⟨hvalue, hop.trans hop'.symm, hrhs.trans hrhs'.symm⟩
  have hterms : parts.terms = parts'.terms :=
    List.right_unique_forall₂' (fun t term term' => hterm t term term') h.terms h'.terms
  have hvalue : parts.value = parts'.value := by
    have hv := h.value
    have hv' := h'.value
    by_cases hcounts : Counts tool.py p.action
    · rw [if_pos hcounts] at hv hv'
      rw [hv, hv']
    · rw [if_neg hcounts] at hv hv'
      obtain ⟨v, hv, hresolve⟩ := hv
      obtain ⟨v', hv', hresolve'⟩ := hv'
      rw [hv, hv', Except.ok.inj (hresolve.symm.trans hresolve')]
  have hjoin : parts.join = parts'.join := by
    rw [h.join, h'.join, hterms]
  cases parts
  cases parts'
  simp only [Parts.mk.injEq]
  exact ⟨h.probe.trans h'.probe.symm, h.hook.trans h'.hook.symm, hterms, hjoin, hvalue⟩

/-- What an accepted expression's program is behind the first comment depends on the parts of the
expression, up to the name. -/
theorem codeText_of_parts {expr expr' : String} {prog prog' : Program} {p p' : Parsed}
    {parts parts' : Parts} (h : codegen tool expr = .ok prog) (h' : codegen tool expr' = .ok prog')
    (hp : parse tool.py expr = .ok p) (hp' : parse tool.py expr' = .ok p')
    (hparts : PartsOf tool p parts) (hparts' : PartsOf tool p' parts')
    (hsame : parts.plain = parts'.plain) :
    ∃ front back, codeText prog.body = front ++ prog.fn ++ back ∧
      codeText prog'.body = front ++ prog'.fn ++ back := by
  obtain ⟨q, qparts, isShield, ret, st, hq, hqparts, hread, hbody, -⟩ := codegen_spec h
  obtain ⟨q', qparts', isShield', ret', st', hq', hqparts', hread', hbody', -⟩ := codegen_spec h'
  obtain rfl := Except.ok.inj (hp.symm.trans hq)
  obtain rfl := Except.ok.inj (hp'.symm.trans hq')
  obtain rfl := partsOf_unique hparts hqparts
  obtain rfl := partsOf_unique hparts' hqparts'
  have hreads := @readParts_plain tool isShield parts
  rw [hsame, ← readParts_plain isShield' parts', hread, hread'] at hreads
  obtain ⟨hret, hst⟩ := Prod.mk.inj (Except.ok.inj hreads)
  have hprobe : p.probe = p'.probe := by
    rw [← hparts.probe, ← hparts'.probe]
    exact (congrArg Parts.probe hsame :)
  have hhook : p.hook = p'.hook := by
    rw [← hparts.hook, ← hparts'.hook]
    exact (congrArg Parts.hook hsame :)
  exact codeText_assemble hbody hbody' hprobe hhook hst hret

end Plain

/-! ## Expressions that stay in the comment -/

/-- The program of an expression is, behind the first comment, that of every expression with the
same parts, up to the name. -/
def OnlyParts (tool : Tool) (expr : String) (prog : Program) : Prop :=
  ∀ expr' prog' p p' parts parts', codegen tool expr' = .ok prog' → parse tool.py expr = .ok p →
    parse tool.py expr' = .ok p' → PartsOf tool p parts → PartsOf tool p' parts' →
    parts.plain = parts'.plain → ∃ front back, codeText prog.body = front ++ prog.fn ++ back ∧
      codeText prog'.body = front ++ prog'.fn ++ back

/-- A function of one parameter. -/
def oneParam : Tool := oneFunction "a:scalar:int"

theorem codegen_of_isOk {tool : Tool} {expr : String}
    (h : (codegen tool expr).isOk = true) :
    ∃ prog, codegen tool expr = .ok prog ∧ prog.expr = expr := by
  cases hgen : codegen tool expr with
  | error msg =>
      rw [hgen] at h
      contradiction
  | ok prog =>
      obtain ⟨_, _, _, _, _, _, _, _, _, hexpr⟩ := codegen_spec hgen
      exact ⟨prog, rfl, hexpr⟩

end Trace
end LiveSurface
