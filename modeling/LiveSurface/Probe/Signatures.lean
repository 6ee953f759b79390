import LiveSurface.Library.Lines
import LiveSurface.Metadata.Decode
import LiveSurface.Trace.Values

/-!
# The index of signatures

The functions of a build and their parameters are written to a file of lines: a name, a number and
the parameters, with tabs between them, a bar between two parameters and colons inside of one.  Two
readers take the file apart again, and pass over what they cannot read.

Main results:

- Theorem {lit}`loadIndex_buildIndex`: what the generator of probes reads back.
- Theorem {lit}`hookParams_buildIndex`: what the generator of trace programs reads back.
- Theorem {lit}`index_keeps_signatures`: both, for every function of the index.
- Theorem {lit}`carriage_return_cuts`: a type name that is not read back.
-/

namespace LiveSurface
namespace Probe

open Lines Metadata

/-! ## Writing the index -/

/-- A parameter; one without a name has the empty one. -/
structure Formal where
  name : String
  kind : String
  detail : String
deriving DecidableEq

/-- A function as the debug information describes it, {lit}`definition` if it has an address. -/
structure Subprogram where
  name : Option String
  definition : Bool
  params : List Formal

/-- What prefers a definition, and then one with more names. -/
def Subprogram.score (s : Subprogram) : Nat × Nat :=
  (if s.definition then 1 else 0, s.params.countP fun p => p.name ≠ "")

/-- {lit}`score > seen[nm][0]`. -/
def better (a b : Nat × Nat) : Bool := b.1 < a.1 || (b.1 = a.1 && b.2 < a.2)

/-- The functions that were found, by name. -/
abbrev Seen := Dict String ((Nat × Nat) × List Formal)

/-- One turn of the loop of {lit}`build_index`. -/
def see (seen : Seen) (s : Subprogram) : Seen :=
  match s.name with
  | none => seen
  | some nm =>
      if nm = "" ∨ s.params = [] then seen
      else
        match seen.get? nm with
        | none => seen.set nm (s.score, s.params)
        | some old => if better s.score old.1 then seen.set nm (s.score, s.params) else seen

def collect (subprograms : List Subprogram) : Seen := subprograms.foldl see Dict.empty

/-- {lit}`s.replace(c, "_")`. -/
def replaced (c : Char) (s : List Char) : List Char := s.map fun d => if d = c then '_' else d

/-- The detail as it is written. -/
def Formal.written (p : Formal) : List Char := replaced '|' (replaced ':' p.detail.toList)

/-- {lit}`name:kind:detail`. -/
def Formal.encoded (p : Formal) : List Char :=
  replaced ':' p.name.toList ++ ':' :: (p.kind.toList ++ ':' :: p.written)

/-- The parameters of a line. -/
def spec (params : List Formal) : List Char := ['|'].intercalate (params.map Formal.encoded)

/-- The line of a function, without its end. -/
def indexLine (nm : String) (params : List Formal) : List Char :=
  nm.toList ++ '\t' :: ((toString params.length).toList ++ '\t' :: spec params)

def headLines (buildId : List UInt8) : List (List Char) :=
  ["#ls-sig-index\t1".toList, "#build_id\t".toList ++ (hex buildId).toList,
    "#name\tnparams\tname:kind:detail|...".toList]

/-- The functions in the order of their names. -/
def sortedEntries (seen : Seen) : List (String × (Nat × Nat) × List Formal) :=
  seen.entries.mergeSort fun a b => decide (a.1 ≤ b.1)

/-- The file that {lit}`build_index` writes. -/
def buildIndex (buildId : List UInt8) (subprograms : List Subprogram) : List Char :=
  written (headLines buildId ++
    (sortedEntries (collect subprograms)).map fun e => indexLine e.1 e.2.2)

/-! ## Reading the index -/

/-- A parameter as {lit}`load_index` returns it. -/
structure Loaded where
  name : Option String
  kind : String
  detail : String
deriving DecidableEq

/-- A token, in three parts. -/
def loadToken (tok : List Char) : Option Loaded := do
  let (name, rest) ← Trace.splitColon tok
  let (kind, detail) ← Trace.splitColon rest
  return {
    name := if name = [] then none else some (String.ofList name)
    kind := String.ofList kind
    detail := String.ofList detail }

/-- What a line says of a function. -/
def loadLine (want : String) (line : List Char) : Option (List Loaded) :=
  if line.head? = some '#' then none
  else
    match line.splitOn '\t' with
    | nm :: _ :: spec :: _ =>
        if nm = want.toList then some ((spec.splitOn '|').filterMap loadToken) else none
    | _ => none

/-- {lit}`load_index`. -/
def loadIndex (file : List Char) (want : String) : Option (List Loaded) :=
  (textLines [] file).findSome? (loadLine want)

/-- One line of the file, for {lit}`hook_params`. -/
def cacheLine (sigs : Trace.Signatures) (line : List Char) : Trace.Signatures :=
  if line.head? = some '#' then sigs
  else
    match line.splitOn '\t' with
    | nm :: _ :: spec :: _ => sigs.set (String.ofList nm) (String.ofList spec)
    | _ => sigs

/-- The cache that {lit}`hook_params` fills. -/
def readSignatures (file : List Char) : Trace.Signatures :=
  (textLines [] file).foldl cacheLine Dict.empty

/-! ## What is written -/

/-- {lit}`[A-Za-z_][A-Za-z0-9_]*`. -/
def IsIdentifier (s : String) : Prop :=
  ∃ c rest, s.toList = c :: rest ∧ Trace.letter c = true ∧
    ∀ d ∈ rest, Trace.letter d = true ∨ d.isDigit = true

/-- The kinds that {lit}`resolve` returns. -/
def kinds : List String := ["scalar", "string", "blob", "opaque", "unknown"]

/-- A parameter with an identifier or no name, a kind, and a detail on one line without a tab. -/
structure Formal.Ok (p : Formal) : Prop where
  name : p.name = "" ∨ IsIdentifier p.name
  kind : p.kind ∈ kinds
  detail : OneLine p.detail.toList ∧ '\t' ∉ p.detail.toList

/-- A function with such parameters and an identifier, if it has a name. -/
structure Subprogram.Ok (s : Subprogram) : Prop where
  name : ∀ nm, s.name = some nm → nm = "" ∨ IsIdentifier nm
  params : ∀ p ∈ s.params, p.Ok

/-! ## Separators -/

/-- A letter, an underscore or a digit. -/
def IdentChar (c : Char) : Prop := Trace.letter c = true ∨ c.isDigit = true

instance (c : Char) : Decidable (IdentChar c) := inferInstanceAs (Decidable (_ ∨ _))

theorem notMem_of_identChar {s : List Char} (h : ∀ c ∈ s, IdentChar c) {d : Char}
    (hd : ¬IdentChar d) : d ∉ s := fun hmem => hd (h d hmem)

theorem oneLine_of_identChar {s : List Char} (h : ∀ c ∈ s, IdentChar c) : OneLine s :=
  ⟨notMem_of_identChar h (by decide), notMem_of_identChar h (by decide)⟩

theorem identChar_of_isIdentifier {s : String} (h : IsIdentifier s) :
    ∀ c ∈ s.toList, IdentChar c := by
  obtain ⟨c, rest, hs, hc, hrest⟩ := h
  rw [hs, List.forall_mem_cons]
  exact ⟨Or.inl hc, hrest⟩

theorem identChar_of_kind {kind : String} (h : kind ∈ kinds) : ∀ c ∈ kind.toList, IdentChar c := by
  revert kind
  decide +kernel

theorem identChar_of_toString (n : Nat) : ∀ c ∈ (toString n).toList, IdentChar c := by
  intro c hc
  refine Or.inr ?_
  rw [Nat.toString_eq_repr, Nat.toList_repr] at hc
  exact Nat.isDigit_of_mem_toDigits (by decide) (by decide) hc

theorem mem_replaced {c d : Char} {s : List Char} (h : d ∈ replaced c s) :
    d = '_' ∨ d ∈ s ∧ d ≠ c := by
  obtain ⟨e, he, rfl⟩ := List.mem_map.mp h
  by_cases hec : e = c
  · exact Or.inl (if_pos hec)
  · rw [if_neg hec]
    exact Or.inr ⟨he, hec⟩

theorem notMem_replaced {c d : Char} {s : List Char} (hd : d ≠ '_') (h : d ∉ s ∨ d = c) :
    d ∉ replaced c s := by
  intro hmem
  rcases mem_replaced hmem with hunderscore | ⟨hs, hc⟩
  · exact hd hunderscore
  · exact h.elim (fun hno => hno hs) fun heq => hc heq

theorem replaced_of_notMem {c : Char} {s : List Char} (h : c ∉ s) : replaced c s = s := by
  rw [replaced]
  refine (List.map_congr_left fun d hd => ?_).trans (List.map_id s)
  refine if_neg ?_
  rintro rfl
  exact h hd

theorem splitColon_append {a b : List Char} (h : ':' ∉ a) :
    Trace.splitColon (a ++ ':' :: b) = some (a, b) := by
  have htake : ∀ c ∈ a, decide (c ≠ ':') = true := by
    intro c hc
    rw [decide_eq_true_eq]
    rintro rfl
    exact h hc
  rw [Trace.splitColon, if_pos (List.mem_append_right _ List.mem_cons_self),
    List.takeWhile_append_of_pos htake, List.dropWhile_append_of_pos htake]
  simp

theorem notMem_written {p : Formal} {d : Char} (hd : d ≠ '_')
    (h : d ∉ p.detail.toList ∨ d = ':' ∨ d = '|') : d ∉ p.written := by
  rcases h with hdetail | hcolon | hbar
  · exact notMem_replaced hd (Or.inl (notMem_replaced hd (Or.inl hdetail)))
  · exact notMem_replaced hd (Or.inl (notMem_replaced hd (Or.inr hcolon)))
  · exact notMem_replaced hd (Or.inr hbar)

section Token

variable {p : Formal} (hp : p.Ok)

include hp

theorem Formal.Ok.identChar_name : ∀ c ∈ p.name.toList, IdentChar c := by
  rcases hp.name with hname | hname
  · rw [hname]
    exact fun c hc => absurd hc List.not_mem_nil
  · exact identChar_of_isIdentifier hname

theorem Formal.Ok.encoded_eq :
    p.encoded = p.name.toList ++ ':' :: (p.kind.toList ++ ':' :: p.written) := by
  rw [Formal.encoded, replaced_of_notMem (notMem_of_identChar hp.identChar_name (by decide))]

/-- A sign that may not stand in a token does not. -/
theorem Formal.Ok.notMem_encoded {d : Char} (hident : ¬IdentChar d) (hcolon : d ≠ ':')
    (hdetail : d ∉ p.written) : d ∉ p.encoded := by
  rw [hp.encoded_eq, List.mem_append, List.mem_cons, List.mem_append, List.mem_cons]
  rintro (hmem | hmem | hmem | hmem | hmem)
  · exact notMem_of_identChar hp.identChar_name hident hmem
  · exact hcolon hmem
  · exact notMem_of_identChar (identChar_of_kind hp.kind) hident hmem
  · exact hcolon hmem
  · exact hdetail hmem

theorem Formal.Ok.oneLine_encoded : OneLine p.encoded :=
  ⟨hp.notMem_encoded (by decide) (by decide)
      (notMem_written (by decide) (Or.inl hp.detail.1.1)),
    hp.notMem_encoded (by decide) (by decide)
      (notMem_written (by decide) (Or.inl hp.detail.1.2))⟩

theorem Formal.Ok.bar_notMem_encoded : '|' ∉ p.encoded :=
  hp.notMem_encoded (by decide) (by decide) (notMem_written (by decide) (Or.inr (Or.inr rfl)))

theorem Formal.Ok.tab_notMem_encoded : '\t' ∉ p.encoded :=
  hp.notMem_encoded (by decide) (by decide) (notMem_written (by decide) (Or.inl hp.detail.2))

/-- What is read of a token. -/
def Formal.loaded (p : Formal) : Loaded where
  name := if p.name = "" then none else some p.name
  kind := p.kind
  detail := String.ofList p.written

/-- A token is read as it was written. -/
theorem Formal.Ok.loadToken_encoded : loadToken p.encoded = some p.loaded := by
  have hname : ':' ∉ p.name.toList := notMem_of_identChar hp.identChar_name (by decide)
  have hkind : ':' ∉ p.kind.toList := notMem_of_identChar (identChar_of_kind hp.kind) (by decide)
  have hempty : p.name.toList = [] ↔ p.name = "" := String.toList_eq_nil_iff
  rw [hp.encoded_eq, loadToken, splitColon_append hname]
  simp only [Option.bind_eq_bind, Option.bind_some, splitColon_append hkind, String.ofList_toList,
    hempty]
  rfl

theorem Formal.Ok.param_encoded (py : Trace.Python) (i : Nat) :
    ∃ q, Trace.param py (p.encoded, i) = some q ∧ q.name = p.name ∧ q.kind = p.kind ∧
      q.detail = String.ofList p.written ∧ q.position = i := by
  have hname : ':' ∉ p.name.toList := notMem_of_identChar hp.identChar_name (by decide)
  have hkind : ':' ∉ p.kind.toList := notMem_of_identChar (identChar_of_kind hp.kind) (by decide)
  rw [hp.encoded_eq, Trace.param, splitColon_append hname]
  simp only [Option.bind_eq_bind, Option.bind_some, splitColon_append hkind, String.ofList_toList]
  exact ⟨_, rfl, rfl, rfl, rfl, rfl⟩

end Token

/-! ## Lines -/

theorem mem_intercalate {d c : Char} {ls : List (List Char)} (h : d ∈ [c].intercalate ls) :
    d = c ∨ ∃ l ∈ ls, d ∈ l := by
  induction ls with
  | nil => exact absurd h List.not_mem_nil
  | cons l ls ih =>
      cases ls with
      | nil =>
          rw [List.intercalate_singleton] at h
          exact Or.inr ⟨l, List.mem_singleton_self l, h⟩
      | cons l' ls =>
          rw [List.intercalate_cons_cons, List.mem_append, List.mem_append] at h
          rcases h with (h | h) | h
          · exact Or.inr ⟨l, List.mem_cons_self, h⟩
          · exact Or.inl (List.mem_singleton.mp h)
          · rcases ih h with hc | ⟨m, hm, hd⟩
            · exact Or.inl hc
            · exact Or.inr ⟨m, List.mem_cons_of_mem _ hm, hd⟩

theorem notMem_spec {params : List Formal} {d : Char} (hd : d ≠ '|') (h : ∀ p ∈ params, d ∉ p.encoded) :
    d ∉ spec params := by
  intro hmem
  rcases mem_intercalate hmem with hbar | ⟨l, hl, hdl⟩
  · exact hd hbar
  · obtain ⟨p, hp, rfl⟩ := List.mem_map.mp hl
    exact h p hp hdl

section Line

variable {nm : String} {params : List Formal} (hnm : IsIdentifier nm) (hparams : ∀ p ∈ params, p.Ok)

include hparams

theorem oneLine_spec : OneLine (spec params) :=
  ⟨notMem_spec (by decide) fun p hp => (hparams p hp).oneLine_encoded.1,
    notMem_spec (by decide) fun p hp => (hparams p hp).oneLine_encoded.2⟩

theorem tab_notMem_spec : '\t' ∉ spec params :=
  notMem_spec (by decide) fun p hp => (hparams p hp).tab_notMem_encoded

/-- The parameters of a line are taken apart where they were put together. -/
theorem splitOn_spec (hne : params ≠ []) :
    (spec params).splitOn '|' = params.map Formal.encoded := by
  refine List.splitOn_intercalate '|' ?_ (mt List.map_eq_nil_iff.mp hne)
  intro l hl
  obtain ⟨p, hp, rfl⟩ := List.mem_map.mp hl
  exact (hparams p hp).bar_notMem_encoded

include hnm

theorem oneLine_indexLine : OneLine (indexLine nm params) := by
  refine oneLine_append (oneLine_of_identChar (identChar_of_isIdentifier hnm)) ?_
  refine oneLine_cons (by decide) (oneLine_append ?_ (oneLine_cons (by decide) ?_))
  · exact oneLine_of_identChar (identChar_of_toString _)
  · exact oneLine_spec hparams

theorem splitOn_indexLine : (indexLine nm params).splitOn '\t' =
    [nm.toList, (toString params.length).toList, spec params] := by
  rw [indexLine, List.splitOn_append_cons_self_of_not_mem
      (notMem_of_identChar (identChar_of_isIdentifier hnm) (by decide)),
    List.splitOn_append_cons_self_of_not_mem (notMem_of_identChar (identChar_of_toString _)
      (by decide)), List.splitOn_eq_singleton (tab_notMem_spec hparams)]

omit hparams in
theorem head_indexLine : (indexLine nm params).head? ≠ some '#' := by
  obtain ⟨c, rest, hs, hc, -⟩ := hnm
  rw [indexLine, hs, List.cons_append, List.head?_cons, Ne, Option.some.injEq]
  rintro rfl
  exact absurd hc (by decide)

theorem loadLine_indexLine (hne : params ≠ []) (want : String) :
    loadLine want (indexLine nm params) =
      if nm = want then some (params.map Formal.loaded) else none := by
  rw [loadLine, if_neg (head_indexLine hnm), splitOn_indexLine hnm hparams]
  dsimp only
  rw [splitOn_spec hparams hne]
  have htokens : (params.map Formal.encoded).filterMap loadToken = params.map Formal.loaded := by
    rw [List.filterMap_map, ← List.filterMap_eq_map]
    exact List.filterMap_congr fun p hp => (hparams p hp).loadToken_encoded
  rw [htokens]
  exact if_congr String.toList_inj rfl rfl

theorem cacheLine_indexLine (sigs : Trace.Signatures) :
    cacheLine sigs (indexLine nm params) = sigs.set nm (String.ofList (spec params)) := by
  rw [cacheLine, if_neg (head_indexLine hnm), splitOn_indexLine hnm hparams]
  dsimp only
  rw [String.ofList_toList]

end Line

/-! ## The functions of the index -/

/-- What is known of an entry. -/
structure EntryOk (nm : String) (params : List Formal) : Prop where
  name : IsIdentifier nm
  formals : ∀ p ∈ params, p.Ok
  ne_nil : params ≠ []

theorem see_ok {seen : Seen} {s : Subprogram} (hs : s.Ok)
    (h : ∀ e ∈ seen.entries, EntryOk e.1 e.2.2) : ∀ e ∈ (see seen s).entries, EntryOk e.1 e.2.2 := by
  have hset : ∀ nm, s.name = some nm → ¬(nm = "" ∨ s.params = []) →
      ∀ e ∈ (seen.set nm (s.score, s.params)).entries, EntryOk e.1 e.2.2 := by
    intro nm hname hno e he
    rw [not_or] at hno
    rcases Dict.mem_set.mp he with rfl | ⟨he, -⟩
    · exact ⟨(hs.name nm hname).resolve_left hno.1, hs.params, hno.2⟩
    · exact h e he
  unfold see
  split
  · exact h
  · rename_i nm hname
    split
    · exact h
    · rename_i hno
      split
      · exact hset nm hname hno
      · split
        · exact hset nm hname hno
        · exact h

theorem collect_ok {subprograms : List Subprogram} (h : ∀ s ∈ subprograms, s.Ok) :
    ∀ e ∈ (collect subprograms).entries, EntryOk e.1 e.2.2 := by
  have hfold : ∀ (seen : Seen) (ss : List Subprogram), (∀ s ∈ ss, s.Ok) →
      (∀ e ∈ seen.entries, EntryOk e.1 e.2.2) →
        ∀ e ∈ (ss.foldl see seen).entries, EntryOk e.1 e.2.2 := by
    intro seen ss hss hseen
    induction ss generalizing seen with
    | nil => exact hseen
    | cons s ss ih =>
        rw [List.forall_mem_cons] at hss
        exact ih (see seen s) hss.2 (see_ok hss.1 hseen)
  exact hfold Dict.empty subprograms h fun e he => absurd he List.not_mem_nil

section Index

variable {buildId : List UInt8} {subprograms : List Subprogram} (hok : ∀ s ∈ subprograms, s.Ok)

theorem oneLine_headLines (buildId : List UInt8) :
    ∀ line ∈ headLines buildId, OneLine line ∧ line.head? = some '#' := by
  have hdigit : ∀ n, n < 16 → IdentChar (hexDigit n) := by decide +kernel
  have hhex : ∀ c ∈ (hex buildId).toList, IdentChar c := by
    rw [hex, String.toList_ofList]
    intro c hc
    obtain ⟨b, -, hb⟩ := List.mem_flatMap.mp hc
    have hlt := b.toNat_lt
    simp only [List.mem_cons, List.not_mem_nil, or_false] at hb
    rcases hb with rfl | rfl
    · exact hdigit _ (by omega)
    · exact hdigit _ (by omega)
  have hkey : OneLine "#build_id\t".toList ∧ "#build_id\t".toList.head? = some '#' := by
    decide +kernel
  intro line hline
  simp only [headLines, List.mem_cons, List.not_mem_nil, or_false] at hline
  rcases hline with rfl | rfl | rfl
  · decide +kernel
  · exact ⟨oneLine_append hkey.1 (oneLine_of_identChar hhex), by rw [List.head?_append, hkey.2]; rfl⟩
  · decide +kernel

theorem mem_sortedEntries {seen : Seen} {e : String × (Nat × Nat) × List Formal} :
    e ∈ sortedEntries seen ↔ e ∈ seen.entries := by
  rw [sortedEntries, List.mem_mergeSort]

theorem nodup_sortedEntries (seen : Seen) : ((sortedEntries seen).map Prod.fst).Nodup :=
  (((List.mergeSort_perm _ _).map Prod.fst).nodup_iff).mpr seen.nodup

include hok

/-- The file is read in the lines it was written in. -/
theorem textLines_buildIndex : textLines [] (buildIndex buildId subprograms) =
    headLines buildId ++
      (sortedEntries (collect subprograms)).map fun e => indexLine e.1 e.2.2 := by
  refine textLines_written fun line hline => ?_
  rcases List.mem_append.mp hline with hline | hline
  · exact (oneLine_headLines buildId line hline).1
  · obtain ⟨e, he, rfl⟩ := List.mem_map.mp hline
    have hentry := collect_ok hok e (mem_sortedEntries.mp he)
    exact oneLine_indexLine hentry.name hentry.formals

/-- The parameters of a function are read back. -/
theorem loadIndex_buildIndex {nm : String} {score : Nat × Nat} {params : List Formal}
    (h : (collect subprograms).get? nm = some (score, params)) :
    loadIndex (buildIndex buildId subprograms) nm = some (params.map Formal.loaded) := by
  have hmem := Dict.get?_eq_some_iff.mp h
  have hentry := collect_ok hok _ hmem
  rw [loadIndex, textLines_buildIndex hok]
  refine findSome?_eq_of_unique (a := indexLine nm params) ?_ ?_ ?_
  · refine List.mem_append_right _ (List.mem_map.mpr ⟨_, mem_sortedEntries.mpr hmem, rfl⟩)
  · rw [loadLine_indexLine hentry.name hentry.formals hentry.ne_nil, if_pos rfl]
  · intro line hline
    rcases List.mem_append.mp hline with hline | hline
    · refine Or.inl ?_
      rw [loadLine, if_pos (oneLine_headLines buildId line hline).2]
    · obtain ⟨e, he, rfl⟩ := List.mem_map.mp hline
      have hemem := mem_sortedEntries.mp he
      have heok := collect_ok hok e hemem
      rw [loadLine_indexLine heok.name heok.formals heok.ne_nil]
      by_cases hnm : e.1 = nm
      · have hget : (collect subprograms).get? e.1 = some e.2 := Dict.get?_eq_some_iff.mpr hemem
        rw [hnm, h] at hget
        rw [if_pos hnm, ← Option.some.inj hget]
        exact Or.inr rfl
      · exact Or.inl (if_neg hnm)

/-- The line of a function is the last one of its name. -/
theorem readSignatures_buildIndex {nm : String} {score : Nat × Nat} {params : List Formal}
    (h : (collect subprograms).get? nm = some (score, params)) :
    (readSignatures (buildIndex buildId subprograms)).get? nm =
      some (String.ofList (spec params)) := by
  have hmem := mem_sortedEntries.mpr (Dict.get?_eq_some_iff.mp h)
  have hskip : ∀ (lines : List (List Char)) (sigs : Trace.Signatures),
      (∀ line ∈ lines, line.head? = some '#') → lines.foldl cacheLine sigs = sigs := by
    intro lines sigs hlines
    induction lines with
    | nil => rfl
    | cons line rest ih =>
        rw [List.forall_mem_cons] at hlines
        rw [List.foldl_cons, cacheLine, if_pos hlines.1]
        exact ih hlines.2
  have hfold : ∀ (es : List (String × (Nat × Nat) × List Formal)) (sigs : Trace.Signatures),
      (∀ e ∈ es, EntryOk e.1 e.2.2) → (es.map Prod.fst).Nodup →
      (nm, score, params) ∈ es ∨
        nm ∉ es.map Prod.fst ∧ sigs.get? nm = some (String.ofList (spec params)) →
      ((es.map fun e => indexLine e.1 e.2.2).foldl cacheLine sigs).get? nm =
        some (String.ofList (spec params)) := by
    intro es
    induction es with
    | nil => exact fun sigs _ _ hor => (hor.resolve_left List.not_mem_nil).2
    | cons e es ih =>
        intro sigs hes hnodup hor
        rw [List.forall_mem_cons] at hes
        rw [List.map_cons, List.nodup_cons] at hnodup
        rw [List.map_cons, List.foldl_cons, cacheLine_indexLine hes.1.name hes.1.formals]
        refine ih _ hes.2 hnodup.2 ?_
        rcases hor with hor | ⟨hnot, hsigs⟩
        · rcases List.mem_cons.mp hor with rfl | hor
          · exact Or.inr ⟨hnodup.1, Dict.get?_set_self _ _ _⟩
          · exact Or.inl hor
        · rw [List.map_cons, List.mem_cons, not_or] at hnot
          refine Or.inr ⟨hnot.2, ?_⟩
          rw [Dict.get?_set, if_neg hnot.1, hsigs]
  rw [readSignatures, textLines_buildIndex hok, List.foldl_append,
    hskip _ _ fun line hline => (oneLine_headLines buildId line hline).2]
  exact hfold _ _ (fun e he => collect_ok hok e (mem_sortedEntries.mp he))
    (nodup_sortedEntries _) (Or.inl hmem)

/-- The parameters of a function are read for trace programs. -/
theorem hookParams_buildIndex (py : Trace.Python) {nm : String} {score : Nat × Nat}
    {params : List Formal} (h : (collect subprograms).get? nm = some (score, params)) :
    ∃ out, Trace.hookParams py (readSignatures (buildIndex buildId subprograms)) nm = some out ∧
      out.map (fun q => (q.name, q.kind, q.detail)) =
        params.map fun p => (p.name, p.kind, String.ofList p.written) := by
  have hentry := collect_ok hok _ (Dict.get?_eq_some_iff.mp h)
  have hspec : String.ofList (spec params) ≠ "" := by
    intro hnil
    have hspec : spec params = [] := by
      rw [← String.toList_ofList (l := spec params), hnil]
      rfl
    have hsplit := splitOn_spec hentry.formals hentry.ne_nil
    rw [hspec, List.splitOn_nil] at hsplit
    obtain ⟨p, hp, henc⟩ := List.mem_map.mp (hsplit ▸ List.mem_singleton_self [])
    rw [(hentry.formals p hp).encoded_eq] at henc
    exact List.append_ne_nil_of_right_ne_nil _ (List.cons_ne_nil _ _) henc
  have htokens : ∀ (ps : List Formal) (n : Nat), (∀ p ∈ ps, p.Ok) →
      (((ps.map Formal.encoded).zipIdx n).filterMap (Trace.param py)).map
          (fun q => (q.name, q.kind, q.detail)) =
        ps.map fun p => (p.name, p.kind, String.ofList p.written) := by
    intro ps
    induction ps with
    | nil => exact fun n _ => rfl
    | cons p ps ih =>
        intro n hps
        rw [List.forall_mem_cons] at hps
        obtain ⟨q, hq, hname, hkind, hdetail, -⟩ := hps.1.param_encoded py n
        rw [List.map_cons, List.zipIdx_cons, List.filterMap_cons_some hq, List.map_cons,
          ih (n + 1) hps.2, hname, hkind, hdetail, List.map_cons]
  refine ⟨_, ?_, htokens params 0 hentry.formals⟩
  rw [Trace.hookParams, readSignatures_buildIndex hok h]
  dsimp only
  rw [if_neg hspec, Trace.tokens, String.toList_ofList,
    splitOn_spec hentry.formals hentry.ne_nil]

end Index

/-- Every function of the index is read back by both readers, with its parameters in their places:
their names, their kinds, and their details with colons and bars made underscores. -/
theorem index_keeps_signatures (py : Trace.Python) {buildId : List UInt8}
    {subprograms : List Subprogram} (hok : ∀ s ∈ subprograms, s.Ok) {nm : String}
    {score : Nat × Nat} {params : List Formal}
    (h : (collect subprograms).get? nm = some (score, params)) :
    loadIndex (buildIndex buildId subprograms) nm = some (params.map fun p => {
      name := if p.name = "" then none else some p.name
      kind := p.kind
      detail := String.ofList (replaced '|' (replaced ':' p.detail.toList)) }) ∧
    ∃ out, Trace.hookParams py (readSignatures (buildIndex buildId subprograms)) nm = some out ∧
      out.map (fun q => (q.name, q.kind)) = params.map fun p => (p.name, p.kind) := by
  refine ⟨loadIndex_buildIndex hok h, ?_⟩
  obtain ⟨out, hout, hparams⟩ := @hookParams_buildIndex buildId subprograms hok py nm score params h
  refine ⟨out, hout, ?_⟩
  have hfront := congrArg (List.map fun q : String × String × String => (q.1, q.2.1)) hparams
  rw [List.map_map, List.map_map] at hfront
  exact hfront

/-- A function of two parameters, one of them without a name. -/
def sample : Subprogram where
  name := some "f"
  definition := true
  params := [⟨"a", "scalar", "int"⟩, ⟨"", "blob", "struct a:b|c *"⟩]

theorem sample_ok : ∀ s ∈ [sample], s.Ok := by
  have hident : ∀ nm, nm ∈ ["f", "a"] → IsIdentifier nm := by
    intro nm hnm
    simp only [List.mem_cons, List.not_mem_nil, or_false] at hnm
    rcases hnm with rfl | rfl
    · exact ⟨'f', [], by decide +kernel, by decide, by decide⟩
    · exact ⟨'a', [], by decide +kernel, by decide, by decide⟩
  intro s hs
  obtain rfl := List.mem_singleton.mp hs
  refine ⟨fun nm hnm => Or.inr (hident nm ?_), ?_⟩
  · obtain rfl := Option.some.inj hnm
    decide
  · intro p hp
    simp only [sample, List.mem_cons, List.not_mem_nil, or_false] at hp
    rcases hp with rfl | rfl
    · exact ⟨Or.inr (hident "a" (by decide)), by decide, by decide +kernel⟩
    · exact ⟨Or.inl rfl, by decide, by decide +kernel⟩

/-- Both parameters are read back, the second one without a name. -/
theorem index_keeps_sample : loadIndex (buildIndex [0xab, 0xcd] [sample]) "f" =
    some [⟨some "a", "scalar", "int"⟩, ⟨none, "blob", "struct a_b_c *"⟩] := by
  have h : (collect [sample]).get? "f" = some (sample.score, sample.params) := by
    decide +kernel
  rw [(index_keeps_signatures ⟨fun _ => false, fun _ => false, fun _ => false, id,
    fun _ _ _ => ""⟩ sample_ok h).1]
  decide +kernel

/-- A type name with a carriage return, which is neither a tab nor a line feed, is cut. -/
theorem carriage_return_cuts :
    let subprogram : Subprogram := ⟨some "f", true, [⟨"a", "scalar", "x\ry"⟩]⟩
    '\t' ∉ "x\ry".toList ∧ '\n' ∉ "x\ry".toList ∧
      loadIndex (buildIndex [0xab, 0xcd] [subprogram]) "f" = some [⟨some "a", "scalar", "x"⟩] := by
  decide +kernel

end Probe
end LiveSurface
