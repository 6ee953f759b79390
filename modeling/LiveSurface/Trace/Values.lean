import LiveSurface.Library.Dict
import LiveSurface.Library.Regex
import LiveSurface.Trace.Declarations

/-!
# The values of a trace expression

A value of a trace expression names an argument of the hooked function: by its number, or by what
the catalogs know, the name of a parameter, of a field or of a path of fields.  The parameters of a
function come from one line of a catalog, a token for each; tokens that cannot be read are passed
over.  An argument that is found by name is numbered by where it stands among those that were read.

A parameter carries here where its token stands in the line, and a value what argument it asks for;
the source has no use for either.

Main results:

- Theorem {lit}`hookParams_index`: the number of a parameter, and where its token stands.
- Theorem {lit}`formOf_number_lt`: a number in an expression is one of the five.
- Theorem {lit}`resolveForm_spec`: which argument a value reads, and which it asks for.
-/

namespace LiveSurface
namespace Trace

open Re

/-! ## The source's expressions -/

/-- What a program of the tool's language finds in its library: the classes of characters,
{lit}`repr`, and the name that is made of a hash. -/
structure Python where
  word : Char → Bool
  space : Char → Bool
  digit : Char → Bool
  repr : String → String
  ident : (expr hook action : String) → String

/-- {lit}`[A-Za-z_]`. -/
def letter (c : Char) : Bool :=
  ('A' ≤ c && c ≤ 'Z') || ('a' ≤ c && c ≤ 'z') || c = '_'

/-- {lit}`[0-4]`. -/
def argDigit (c : Char) : Bool := '0' ≤ c && c ≤ '4'

section Expressions

variable (py : Python)

/-- {lit}`[A-Za-z_]\w*`. -/
def identifier : Re := seq (chr letter) (many (chr py.word))

/-- {lit}`[A-Za-z_]\w*(?:\.[A-Za-z_]\w*)+`. -/
def dotted : Re := seq (identifier py) (many1 (seq (lit ".") (identifier py)))

/-- {lit}`_STRUCT_PTR`. -/
def structPtr : Re :=
  seqs [lit "struct", many1 (chr py.space), group 1 (many1 (chr py.word)), many (chr py.space),
    lit "*"]

/-- {lit}`_FIELD`. -/
def fieldRe : Re :=
  seqs [group 1 (identifier py), lit "(arg", group 2 (chr argDigit), lit ").",
    group 3 (identifier py),
    opt (seq (lit ":") (group 4 (texts ["u8", "u16", "u32", "u64"]))), eos]

/-- {lit}`_ARG`. -/
def argRe : Re := seqs [lit "arg", group 1 (chr argDigit), eos]

/-- {lit}`_ARGSDOT`. -/
def argsDotRe : Re := seqs [lit "args.", group 1 (identifier py), eos]

/-- {lit}`_ARGNDOT`. -/
def argNDotRe : Re :=
  seqs [lit "arg", group 1 (chr argDigit), lit ".", group 2 (identifier py), eos]

/-- {lit}`_ARGSPATH`. -/
def argsPathRe : Re := seqs [lit "args.", group 1 (dotted py), eos]

/-- {lit}`_ARGNPATH`. -/
def argNPathRe : Re :=
  seqs [lit "arg", group 1 (chr argDigit), lit ".", group 2 (dotted py), eos]

end Expressions

/-- The text of a group. -/
def groupText (g : Groups) (n : Nat) : String := String.ofList ((g n).getD [])

/-- {lit}`int` of a group that holds a digit. -/
def groupNumber (g : Groups) (n : Nat) : Nat :=
  match g n with
  | some [c] => c.toNat - 48
  | _ => 0

/-! ## The catalogs -/

/-- A parameter; {lit}`position` is where its token stands in the line. -/
structure Param where
  name : String
  kind : String
  struct : Option String
  detail : String
  position : Nat

/-- The functions and their parameters. -/
abbrev Signatures := Dict String String

structure Bitfield where
  unit : String
  byte : Nat
  shift : Nat
  width : Nat

/-- The type catalog: fields and their types, and under the reserved names the other members. -/
structure Types where
  scalars : Dict String (Dict String String)
  ptrTargets : Dict String (Dict String String)
  embedded : Dict String (Dict String String)
  bitfields : Dict String (Dict String Bitfield)

/-- What is left and right of the first colon. -/
def splitColon (t : List Char) : Option (List Char × List Char) :=
  if ':' ∈ t then some (t.takeWhile (· ≠ ':'), (t.dropWhile (· ≠ ':')).drop 1) else none

/-- One token, {lit}`name:kind:detail`. -/
def param (py : Python) (token : List Char × Nat) : Option Param := do
  let (name, rest) ← splitColon token.1
  let (kind, detail) ← splitColon rest
  return {
    name := String.ofList name
    kind := String.ofList kind
    struct := ((structPtr py).search detail).map fun g => groupText g 1
    detail := String.ofList detail
    position := token.2 }

/-- {lit}`spec.split("|")`. -/
def tokens (spec : String) : List (List Char) := spec.toList.splitOn '|'

/-- The tokens of a hook, none where the catalog does not have it. -/
def hookTokens (sigs : Signatures) (hook : String) : List (List Char) :=
  ((sigs.get? hook).map tokens).getD []

/-- {lit}`hook_params`. -/
def hookParams (py : Python) (sigs : Signatures) (hook : String) : Option (List Param) :=
  match sigs.get? hook with
  | none => none
  | some spec => if spec = "" then none else some ((tokens spec).zipIdx.filterMap (param py))

/-- {lit}`CTYPE`. -/
def cType : String → Option CType
  | "u8" => some .u8
  | "u16" => some .u16
  | "u32" => some .u32
  | "u64" => some .u64
  | _ => none

/-- A member by its structure; an empty name counts as none. -/
def member (d : Dict String (Dict String String)) (struct field : String) : Option String :=
  ((d.get? struct).bind fun fields => fields.get? field).filter (· ≠ "")

/-- {lit}`_bitfield_refusal`. -/
def bitfieldRefusal (types : Types) (struct field : String) : Option String :=
  ((types.bitfields.get? struct).bind fun fields => fields.get? field).map fun bf =>
    "'" ++ struct ++ "." ++ field ++ "' is a BITFIELD (" ++ toString bf.width ++ " bit(s) at bit " ++
      toString bf.shift ++ " of a " ++ bf.unit ++ " unit at byte " ++ toString bf.byte ++
      ") --- refusing to read it as a scalar. A plain read returns the whole unit with the flags " ++
      "packed beside it, and because this field is byte-aligned the relocator does NOT catch it: " ++
      "the read succeeds and the value is silently wrong. Correct support needs clang's " ++
      "bitfield relocation kinds (byte size + left/right shift) in ls_core_relo.c. Until " ++
      "then, predicate on a non-bitfield field."

/-! ## Paths -/

/-- How a path goes on from a field. -/
inductive Edge
  | ptr (target : String)
  | embedded (target : String)
  | scalar (type : CType)
deriving DecidableEq

structure Hop where
  struct : String
  field : String
  edge : Edge
deriving DecidableEq

/-- The argument that is read, by its number; {lit}`asks` is where the token of the parameter stands
that the value asks for, or the number itself. -/
structure Arg where
  index : Nat
  asks : Nat
deriving DecidableEq

inductive Value
  | scalar (arg : Arg)
  | field (struct : String) (arg : Arg) (field type : String)
  | chain (arg : Arg) (hops : List Hop)

def Value.arg : Value → Arg
  | .scalar arg => arg
  | .field _ arg _ _ => arg
  | .chain arg _ => arg

/-- The loop over the fields of a path.  It raises, gives up with a reason, or arrives. -/
def walk (py : Python) (types : Types) : (cur : String) → (parts : List String) →
    Except String (Except String (List Hop))
  | _, [] => .ok (.ok [])
  | cur, [f] =>
      match member types.scalars cur f with
      | none =>
          match bitfieldRefusal types cur f with
          | some msg => .error msg
          | none => .ok (.error (cur ++ " has no scalar '" ++ f ++ "'"))
      | some ty =>
          match cType ty with
          | none => .error (py.repr ty)
          | some ct => .ok (.ok [⟨cur, f, .scalar ct⟩])
  | cur, f :: rest =>
      match member types.ptrTargets cur f, member types.embedded cur f with
      | some _, some _ =>
          .error ("ambiguous pointer/embedded metadata for " ++ cur ++ "." ++ f)
      | none, none =>
          match bitfieldRefusal types cur f with
          | some msg => .error msg
          | none =>
              .ok (.error (cur ++ " has no pointer or named embedded struct field '" ++ f ++ "'"))
      | some target, none =>
          (walk py types target rest).map fun r => r.map (⟨cur, f, .ptr target⟩ :: ·)
      | none, some target =>
          (walk py types target rest).map fun r => r.map (⟨cur, f, .embedded target⟩ :: ·)

/-- The structure a parameter points at. -/
def Param.blob (p : Param) : Option String :=
  if p.kind = "blob" then p.struct.filter (· ≠ "") else none

/-- The loop over the parameters to start from. -/
def firstPath (py : Python) (types : Types) (parts : List String) :
    List (Param × Nat) → (tried : List String) → Except String (List String ⊕ Value)
  | [], tried => .ok (.inl tried)
  | (p, i) :: rest, tried =>
      match p.blob with
      | none => firstPath py types parts rest tried
      | some s0 =>
          match walk py types s0 parts with
          | .error msg => .error msg
          | .ok (.error why) => firstPath py types parts rest (tried ++ [why])
          | .ok (.ok hops) => .ok (.inr (.chain ⟨i, p.position⟩ hops))

/-- The parameters, of which one may be meant by its number. -/
def numbered (only : Option Nat) (params : List Param) : List (Param × Nat) :=
  params.zipIdx.filter fun e => only = none ∨ only = some e.2

section Resolve

variable (py : Python) (sigsPath : String) (sigs : Signatures) (types : Types) (hook : String)

/-- {lit}`resolve_path`. -/
def resolvePath (argidx : Option Nat) (parts : List String) : Except String Value :=
  match hookParams py sigs hook with
  | none => .error ("no signature for '" ++ hook ++ "' (need " ++ sigsPath ++ ")")
  | some params =>
      let starts := (numbered argidx params).filter fun e => e.1.blob.isSome
      if starts = [] then
        .error ("no struct-typed argument to start '" ++ String.intercalate "." parts ++
          "' from at " ++ hook)
      else
        match firstPath py types parts starts [] with
        | .error msg => .error msg
        | .ok (.inr value) => .ok value
        | .ok (.inl tried) =>
            .error ("could not resolve path '" ++ String.intercalate "." parts ++ "' at " ++ hook ++
              " (" ++ String.intercalate "; " (tried.take 3) ++ "). Needs pointer/embedded " ++
              "targets in the catalog --- regenerate types.json with gen_type_catalog.py")

/-- {lit}`types[struct].get(name)`. -/
def fieldType (types : Types) (struct name : String) : Option String :=
  (types.scalars.get? struct).bind fun fields => fields.get? name

/-- A parameter of the name that is no pointer to a structure. -/
def scalarNamed (name : String) (p : Param) : Bool :=
  p.name = name && (p.kind = "scalar" || p.kind = "string")

/-- A parameter that points at a structure with the field. -/
def fieldNamed (types : Types) (name : String) (p : Param) : Bool :=
  match p.blob with
  | none => false
  | some s => (fieldType types s name).isSome

/-- {lit}`args.<name>` and {lit}`arg<N>.<name>` in {lit}`resolve_value`. -/
def resolveName (only : Option Nat) (name : String) : Except String Value :=
  match hookParams py sigs hook with
  | none =>
      .error ("no signature for '" ++ hook ++ "' (need " ++ sigsPath ++ "); use the explicit " ++
        "<struct>(argN).<field>:ty form")
  | some params =>
      match (numbered only params).find? fun e => scalarNamed name e.1 with
      | some (p, i) => .ok (.scalar ⟨i, p.position⟩)
      | none =>
          match (numbered only params).find? fun e => fieldNamed types name e.1 with
          | some (p, i) =>
              let s := p.blob.getD ""
              .ok (.field s ⟨i, p.position⟩ name ((fieldType types s name).getD ""))
          | none =>
              match (numbered only params).findSome? fun e =>
                e.1.blob.bind fun s => bitfieldRefusal types s name with
              | some msg => .error msg
              | none =>
                  .error ("could not resolve '" ++ name ++ "' at " ++ hook ++ "; params: " ++
                    String.intercalate ", " (params.map fun p =>
                      p.name ++ "(" ++ (p.struct.getD p.kind) ++ ")"))

end Resolve

/-- The forms of a value, and what they hold. -/
inductive Form
  | arg (n : Nat)
  | explicit (struct : String) (n : Nat) (field type : String)
  | path (only : Option Nat) (parts : List String)
  | name (only : Option Nat) (name : String)

/-- The parts of a dotted path. -/
def pathParts (g : Groups) (n : Nat) : List String :=
  (((g n).getD []).splitOn '.').map String.ofList

/-- The matches in {lit}`resolve_value`. -/
def formOf (py : Python) (tok : List Char) : Option Form :=
  match argRe.fromStart tok with
  | some m => some (.arg (groupNumber m 1))
  | none =>
      match (fieldRe py).fromStart tok with
      | some fe =>
          let type := if fe 4 = none then "u64" else groupText fe 4
          some (.explicit (groupText fe 1) (groupNumber fe 2) (groupText fe 3) type)
      | none =>
          match (argNPathRe py).fromStart tok, (argsPathRe py).fromStart tok with
          | some np, _ => some (.path (some (groupNumber np 1)) (pathParts np 2))
          | none, some ap => some (.path none (pathParts ap 1))
          | none, none =>
              match (argNDotRe py).fromStart tok, (argsDotRe py).fromStart tok with
              | some an, _ => some (.name (some (groupNumber an 1)) (groupText an 2))
              | none, some ad => some (.name none (groupText ad 1))
              | none, none => none

section Resolve

variable (py : Python) (sigsPath : String) (sigs : Signatures) (types : Types) (hook : String)

def resolveForm : Form → Except String Value
  | .arg n => .ok (.scalar ⟨n, n⟩)
  | .explicit struct n field type => .ok (.field struct ⟨n, n⟩ field type)
  | .path only parts => resolvePath py sigsPath sigs types hook only parts
  | .name only name => resolveName py sigsPath sigs types hook only name

/-- {lit}`resolve_value`. -/
def resolveValue (tok : List Char) : Except String Value :=
  match formOf py tok with
  | some form => resolveForm py sigsPath sigs types hook form
  | none =>
      .error ("bad value '" ++ String.ofList tok ++
        "' (want args.<field> | arg<N>[.<field>] | <struct>(argN).<field>)")

end Resolve

/-! ## Numbers in the expression -/

theorem groupNumber_lt {g : Groups} {n : Nat}
    (h : ∀ t, g n = some t → ∃ c, argDigit c = true ∧ t = [c]) : groupNumber g n < 5 := by
  unfold groupNumber
  split
  · rename_i c hc
    obtain ⟨d, hd, heq⟩ := h _ hc
    obtain rfl := List.head_eq_of_cons_eq heq
    have hle : c ≤ '4' := by
      simp only [argDigit, Bool.and_eq_true, decide_eq_true_eq] at hd
      exact hd.2
    have hnat : c.toNat ≤ '4'.toNat := hle
    have hfour : '4'.toNat = 52 := rfl
    omega
  · decide

/-- A number of an argument in an expression is one of the five. -/
theorem formOf_number_lt {py : Python} {tok : List Char} :
    (∀ n, formOf py tok = some (.arg n) → n < 5) ∧
      ∀ struct n field type, formOf py tok = some (.explicit struct n field type) → n < 5 := by
  have harg : ∀ g, argRe.fromStart tok = some g → groupNumber g 1 < 5 := by
    intro g hg
    refine groupNumber_lt (fromStart_keeps
      (P := fun g => ∀ t, g 1 = some t → ∃ c, argDigit c = true ∧ t = [c]) ?_ ?_ hg)
    · refine ⟨keeps_lit "arg", ?_, trivial⟩
      intro g c hc _ t ht
      rw [Function.update_self] at ht
      exact ⟨c, hc, (Option.some.inj ht).symm⟩
    · exact fun t ht => nomatch ht
  have hfield : ∀ g, (fieldRe py).fromStart tok = some g → groupNumber g 2 < 5 := by
    intro g hg
    refine groupNumber_lt (fromStart_keeps
      (P := fun g => ∀ t, g 2 = some t → ∃ c, argDigit c = true ∧ t = [c]) ?_ ?_ hg)
    · have hother : ∀ (n : Nat), n ≠ 2 → ∀ (g : Groups) (t : List Char),
          (∀ t, g 2 = some t → ∃ c, argDigit c = true ∧ t = [c]) →
          ∀ t', Function.update g n (some t) 2 = some t' → ∃ c, argDigit c = true ∧ t' = [c] := by
        intro n hn g t hg t' ht'
        rw [Function.update_of_ne (Ne.symm hn)] at ht'
        exact hg t' ht'
      refine ⟨⟨⟨trivial, trivial⟩, hother 1 (by decide)⟩, keeps_lit "(arg", ?_, keeps_lit ").",
        ⟨⟨trivial, trivial⟩, hother 3 (by decide)⟩, ⟨⟨keeps_lit ":", ?_, hother 4 (by decide)⟩,
          trivial⟩, trivial⟩
      · intro g c hc _ t ht
        rw [Function.update_self] at ht
        exact ⟨c, hc, (Option.some.inj ht).symm⟩
      · exact ⟨keeps_lit "u8", keeps_lit "u16", keeps_lit "u32", keeps_lit "u64"⟩
    · exact fun t ht => nomatch ht
  constructor
  · intro n h
    unfold formOf at h
    split at h
    · rename_i m hm
      obtain rfl := Form.arg.inj (Option.some.inj h)
      exact harg m hm
    · split at h
      · exact nomatch Option.some.inj h
      · split at h
        · exact nomatch Option.some.inj h
        · exact nomatch Option.some.inj h
        · split at h
          · exact nomatch Option.some.inj h
          · exact nomatch Option.some.inj h
          · contradiction
  · intro struct n field type h
    unfold formOf at h
    split at h
    · exact nomatch Option.some.inj h
    · split at h
      · rename_i fe hfe
        obtain ⟨-, rfl, -, -⟩ := Form.explicit.inj (Option.some.inj h)
        exact hfield fe hfe
      · split at h
        · exact nomatch Option.some.inj h
        · exact nomatch Option.some.inj h
        · split at h
          · exact nomatch Option.some.inj h
          · exact nomatch Option.some.inj h
          · contradiction

/-! ## Where a parameter stands -/

/-- The token of a parameter can be read. -/
def Readable (py : Python) (token : List Char) : Prop := (param py (token, 0)).isSome

/-- The first five tokens have this one, and all those before it can be read. -/
def InFive (py : Python) (sigs : Signatures) (hook : String) (position : Nat) : Prop :=
  position < 5 ∧ ∀ token ∈ (hookTokens sigs hook).take position, Readable py token

/-- An argument is one of the five, and the one that is asked for. -/
def Arg.Refers (a : Arg) : Prop := a.index < 5 ∧ a.index = a.asks

theorem param_isSome (py : Python) (token : List Char) (n : Nat) :
    (param py (token, n)).isSome ↔ Readable py token := by
  unfold Readable param
  cases splitColon token with
  | none => exact Iff.rfl
  | some s =>
      obtain ⟨name, rest⟩ := s
      cases h : splitColon rest with
      | none => simp [h]
      | some s => simp [h]

theorem param_position {py : Python} {token : List Char} {n : Nat} {p : Param}
    (h : param py (token, n) = some p) : p.position = n := by
  unfold param at h
  obtain ⟨⟨name, rest⟩, -, h⟩ := Option.bind_eq_some_iff.mp h
  obtain ⟨⟨kind, detail⟩, -, h⟩ := Option.bind_eq_some_iff.mp h
  rw [← Option.some.inj h]

/-- An element of a list with something left out has come forward by what was left out before it. -/
theorem filterMap_index {py : Python} {xs : List (List Char)} {n i : Nat} {p : Param}
    (h : ((xs.zipIdx n).filterMap (param py))[i]? = some p) :
    ∃ r, p.position = n + r ∧ i ≤ r ∧ (i = r ↔ ∀ token ∈ xs.take r, Readable py token) := by
  induction xs generalizing n i with
  | nil => simp at h
  | cons x xs ih =>
      rw [List.zipIdx_cons] at h
      cases hx : param py (x, n) with
      | none =>
          rw [List.filterMap_cons_none hx] at h
          obtain ⟨r, hpos, hle, -⟩ := ih h
          refine ⟨r + 1, by omega, by omega, iff_of_false (by omega) fun hall => ?_⟩
          have hreadable := hall x List.mem_cons_self
          rw [← param_isSome py x n, hx] at hreadable
          contradiction
      | some p₀ =>
          have hreadable : Readable py x := by
            rw [← param_isSome py x n, hx]
            rfl
          rw [List.filterMap_cons_some hx] at h
          cases i with
          | zero =>
              rw [List.getElem?_cons_zero] at h
              obtain rfl := Option.some.inj h
              exact ⟨0, param_position hx, Nat.le_refl 0, iff_of_true rfl fun _ h => nomatch h⟩
          | succ i =>
              rw [List.getElem?_cons_succ] at h
              obtain ⟨r, hpos, hle, hiff⟩ := ih h
              refine ⟨r + 1, by omega, by omega, ?_⟩
              rw [Nat.add_right_cancel_iff, hiff, List.take_succ_cons, List.forall_mem_cons]
              exact (and_iff_right hreadable).symm

/-- The number of a parameter among those that were read is where its token stands exactly if every
token before it can be read. -/
theorem hookParams_index {py : Python} {sigs : Signatures} {hook : String} {params : List Param}
    {p : Param} {i : Nat} (hparams : hookParams py sigs hook = some params)
    (hp : (p, i) ∈ params.zipIdx) :
    Arg.Refers ⟨i, p.position⟩ ↔ InFive py sigs hook p.position := by
  have htokens : params = (hookTokens sigs hook).zipIdx.filterMap (param py) := by
    unfold hookParams at hparams
    unfold hookTokens
    split at hparams
    · contradiction
    · rename_i spec hspec
      split at hparams
      · contradiction
      · rw [hspec]
        exact (Option.some.inj hparams).symm
  have hget : params[i]? = some p := (List.mem_zipIdx_iff_getElem?.mp hp)
  rw [htokens] at hget
  obtain ⟨r, hpos, hle, hiff⟩ := filterMap_index hget
  rw [Nat.zero_add] at hpos
  unfold Arg.Refers InFive
  dsimp only
  rw [hpos, ← hiff]
  constructor
  · rintro ⟨hfive, rfl⟩
    exact ⟨hfive, rfl⟩
  · rintro ⟨hfive, rfl⟩
    exact ⟨hfive, rfl⟩

/-! ## What a value asks for -/

/-- The first parameter with a property, of those that may be meant. -/
def Picked (params : List Param) (only : Option Nat) (q : Param → Bool) (p : Param) : Prop :=
  ∃ i, (numbered only params).find? (fun e => q e.1) = some (p, i)

/-- A path leads from the parameter to a scalar. -/
def arrives (py : Python) (types : Types) (parts : List String) (p : Param) : Bool :=
  match p.blob with
  | none => false
  | some s =>
      match walk py types s parts with
      | .ok (.ok _) => true
      | _ => false

/-- The parameter that a value asks for by name: the first of that name that is no pointer to a
structure, else the first whose structure has the field; for a path, the first that it leads from. -/
def Form.Wants (py : Python) (types : Types) (params : List Param) : Form → Param → Prop
  | .arg _, _ => False
  | .explicit _ _ _ _, _ => False
  | .path only parts, p => Picked params only (arrives py types parts) p
  | .name only text, p =>
      Picked params only (scalarNamed text) p ∨
        (∀ e ∈ numbered only params, scalarNamed text e.1 = false) ∧
          Picked params only (fieldNamed types text) p

/-- A value reads the argument of a number that the expression has, or of a parameter. -/
def Form.Reads (py : Python) (sigs : Signatures) (types : Types) (hook : String) (arg : Arg) :
    Form → Prop
  | .arg n => arg = ⟨n, n⟩
  | .explicit _ n _ _ => arg = ⟨n, n⟩
  | form => ∃ params p i, hookParams py sigs hook = some params ∧ (p, i) ∈ params.zipIdx ∧
      arg = ⟨i, p.position⟩ ∧ form.Wants py types params p

section Spec

variable {py : Python} {sigsPath : String} {sigs : Signatures} {types : Types} {hook : String}
  {params : List Param}

theorem Picked.unique {only : Option Nat} {q : Param → Bool} {p p' : Param}
    (h : Picked params only q p) (h' : Picked params only q p') : p = p' := by
  obtain ⟨i, hi⟩ := h
  obtain ⟨i', hi'⟩ := h'
  exact congrArg Prod.fst (Option.some.inj (hi.symm.trans hi'))

/-- A form asks for one parameter at most. -/
theorem Form.Wants.unique {form : Form} {p p' : Param} (h : form.Wants py types params p)
    (h' : form.Wants py types params p') : p = p' := by
  have hno : ∀ {only name p}, Picked params only (scalarNamed name) p →
      ¬∀ e ∈ numbered only params, scalarNamed name e.1 = false := by
    rintro only name p ⟨i, hi⟩ hall
    have hp := List.find?_some hi
    rw [hall _ (List.mem_of_find?_eq_some hi)] at hp
    contradiction
  cases form with
  | arg n => exact h.elim
  | explicit struct n field type => exact h.elim
  | path only parts => exact Picked.unique h h'
  | name only name =>
      rcases h with h | ⟨hnone, h⟩
      · rcases h' with h' | ⟨hnone', h'⟩
        · exact Picked.unique h h'
        · exact absurd hnone' (hno h)
      · rcases h' with h' | ⟨hnone', h'⟩
        · exact absurd hnone (hno h')
        · exact Picked.unique h h'

/-- The loop stops at the first parameter that the path leads from. -/
theorem firstPath_spec {parts : List String} {starts : List (Param × Nat)} {tried : List String}
    {v : Value} (h : firstPath py types parts starts tried = .ok (.inr v)) :
    ∃ p i hops, starts.find? (fun e => arrives py types parts e.1) = some (p, i) ∧
      v = .chain ⟨i, p.position⟩ hops := by
  induction starts generalizing tried with
  | nil => exact nomatch Except.ok.inj h
  | cons e rest ih =>
      obtain ⟨p, i⟩ := e
      rw [firstPath] at h
      split at h
      · rename_i hblob
        rw [List.find?_cons_of_neg (by simp [arrives, hblob])]
        exact ih h
      · rename_i s hblob
        split at h
        · contradiction
        · rename_i why hwalk
          rw [List.find?_cons_of_neg (by simp [arrives, hblob, hwalk])]
          exact ih h
        · rename_i hops hwalk
          refine ⟨p, i, hops, ?_, (Sum.inr.inj (Except.ok.inj h)).symm⟩
          rw [List.find?_cons_of_pos (by simp [arrives, hblob, hwalk])]

theorem mem_zipIdx_of_numbered {only : Option Nat} {e : Param × Nat}
    (h : e ∈ numbered only params) : e ∈ params.zipIdx :=
  List.mem_of_mem_filter h

theorem resolvePath_spec {only : Option Nat} {parts : List String} {v : Value}
    (h : resolvePath py sigsPath sigs types hook only parts = .ok v) :
    (∃ params p i, hookParams py sigs hook = some params ∧ (p, i) ∈ params.zipIdx ∧
      v.arg = ⟨i, p.position⟩ ∧ Picked params only (arrives py types parts) p) ∧
      ∃ arg hops, v = .chain arg hops := by
  unfold resolvePath at h
  split at h
  · contradiction
  · rename_i params hparams
    dsimp only at h
    split at h
    · contradiction
    · split at h
      · contradiction
      · rename_i value hfirst
        obtain rfl := Except.ok.inj h
        obtain ⟨p, i, hops, hfind, rfl⟩ := firstPath_spec hfirst
        have hsame : (numbered only params).find? (fun e => arrives py types parts e.1) =
            some (p, i) := by
          rw [List.find?_filter] at hfind
          rw [← hfind]
          congr 1
          funext e
          unfold arrives
          cases e.1.blob with
          | none => rfl
          | some s => simp
        have hmem := mem_zipIdx_of_numbered (List.mem_of_find?_eq_some hsame)
        exact ⟨⟨params, p, i, hparams, hmem, rfl, i, hsame⟩, _, hops, rfl⟩
      · contradiction

theorem resolveName_spec {only : Option Nat} {name : String} {v : Value}
    (h : resolveName py sigsPath sigs types hook only name = .ok v) :
    ∃ params p i, hookParams py sigs hook = some params ∧ (p, i) ∈ params.zipIdx ∧
      v.arg = ⟨i, p.position⟩ ∧ (Form.name only name).Wants py types params p ∧
      ((∃ arg, v = .scalar arg) ↔ Picked params only (scalarNamed name) p) := by
  unfold resolveName at h
  split at h
  · contradiction
  · rename_i params hparams
    split at h
    · rename_i p i hfind
      obtain rfl := Except.ok.inj h
      refine ⟨params, p, i, hparams, ?_, rfl, Or.inl ⟨i, hfind⟩, iff_of_true ⟨_, rfl⟩ ⟨i, hfind⟩⟩
      exact mem_zipIdx_of_numbered (List.mem_of_find?_eq_some hfind)
    · rename_i hnone
      split at h
      · rename_i p i hfind
        obtain rfl := Except.ok.inj h
        have hno : ∀ e ∈ numbered only params, scalarNamed name e.1 = false := by
          intro e he
          simpa using List.find?_eq_none.mp hnone e he
        refine ⟨params, p, i, hparams, ?_, rfl, Or.inr ⟨hno, i, hfind⟩, iff_of_false ?_ ?_⟩
        · exact mem_zipIdx_of_numbered (List.mem_of_find?_eq_some hfind)
        · rintro ⟨arg, heq⟩
          contradiction
        · rintro ⟨j, hj⟩
          rw [hnone] at hj
          contradiction
      · split at h
        · contradiction
        · contradiction

/-- Which argument a value reads, and which it asks for. -/
theorem resolveForm_spec {form : Form} {v : Value}
    (h : resolveForm py sigsPath sigs types hook form = .ok v) :
    form.Reads py sigs types hook v.arg := by
  cases form with
  | arg n =>
      rw [← Except.ok.inj h]
      rfl
  | explicit struct n field type =>
      rw [← Except.ok.inj h]
      rfl
  | path only parts => exact (resolvePath_spec h).1
  | name only name =>
      obtain ⟨params, p, i, hparams, hmem, harg, hwants, -⟩ := resolveName_spec h
      exact ⟨params, p, i, hparams, hmem, harg, hwants⟩

end Spec

end Trace
end LiveSurface
