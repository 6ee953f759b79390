import Mathlib.Data.List.Basic

/-!
# Lines of fields

A line that is a tag, fields of the form name=value with a separator before each, and at last a
field whose value is quoted.  A reader splits the line at the separators, as far as the last field,
and takes for its value what is between the first quote and the last one.

Main results:

- Theorems {lit}`tokens_rendered` and {lit}`fieldsOf_rendered`: the tag and the fields are read
  back.
- Theorem {lit}`quoted_rendered`: so is the quoted value, whatever is in it.
-/

namespace LiveSurface
namespace Logline

structure NamedValue (α : Type) where
  name : List α
  value : List α
deriving DecidableEq

variable {α : Type} [DecidableEq α] {sep eq quote : α} {tag last verdict ending : List α}
  {fields : List (NamedValue α)}

def NamedValue.text (eq : α) (f : NamedValue α) : List α := f.name ++ eq :: f.value

/-- The tag and the fields. -/
def head (sep eq : α) (tag : List α) (fields : List (NamedValue α)) : List α :=
  tag ++ fields.flatMap fun f => sep :: f.text eq

/-- The line. -/
def rendered (sep eq quote : α) (tag : List α) (fields : List (NamedValue α))
    (last verdict ending : List α) : List α :=
  head sep eq tag fields ++ sep :: (last ++ eq :: quote :: (verdict ++ quote :: ending))

/-- The pieces before the one that begins in a given way. -/
def tokens (sep : α) (stop line : List α) : List (List α) :=
  (line.splitOn sep).takeWhile fun t => !stop.isPrefixOf t

/-- A piece is parted where the first sign between name and value is. -/
def valueOf (eq : α) (t : List α) : NamedValue α :=
  ⟨t.takeWhile (· ≠ eq), (t.dropWhile (· ≠ eq)).drop 1⟩

/-- The fields before the one that begins in a given way, without the tag. -/
def fieldsOf (sep eq : α) (stop line : List α) : List (NamedValue α) :=
  ((tokens sep stop line).drop 1).map (valueOf eq)

/-- What is between the first quote and the last one. -/
def quoted (quote : α) (line : List α) : List α :=
  ((((line.dropWhile (· ≠ quote)).drop 1).reverse.dropWhile (· ≠ quote)).drop 1).reverse

/-! ## Pieces -/

/-- The first piece begins with what is before the first separator. -/
theorem splitOn_append_of_notMem {a : α} {before : List α} (h : a ∉ before) (rest : List α) :
    ∃ first others, (before ++ rest).splitOn a = (before ++ first) :: others := by
  induction before with
  | nil =>
      obtain ⟨first, others, hsplit⟩ := List.exists_cons_of_ne_nil (List.splitOn_ne_nil a rest)
      exact ⟨first, others, hsplit⟩
  | cons b before ih =>
      rw [List.mem_cons, not_or] at h
      obtain ⟨first, others, hsplit⟩ := ih h.2
      refine ⟨first, others, ?_⟩
      have hb : (b == a) = false := beq_eq_false_iff_ne.mpr (Ne.symm h.1)
      rw [List.cons_append, List.splitOn_cons_eq_if_modifyHead, if_neg (by simp [hb]), hsplit,
        List.modifyHead_cons, List.cons_append]

theorem splitOn_pieces {a : α} {first : List α} {pieces : List (List α)} (hfirst : a ∉ first)
    (hpieces : ∀ p ∈ pieces, a ∉ p) (rest : List α) :
    (first ++ (pieces.flatMap (a :: ·) ++ a :: rest)).splitOn a =
      first :: (pieces ++ rest.splitOn a) := by
  induction pieces generalizing first with
  | nil =>
      rw [List.flatMap_nil, List.nil_append, List.splitOn_append_cons_self,
        List.splitOn_eq_singleton hfirst]
      rfl
  | cons p pieces ih =>
      rw [List.forall_mem_cons] at hpieces
      rw [List.flatMap_cons, List.cons_append, List.cons_append, List.append_assoc,
        List.splitOn_append_cons_self, List.splitOn_eq_singleton hfirst,
        ih hpieces.1 hpieces.2]
      rfl

/-! ## Reading a line -/

/-- The tag and the fields are read back. -/
theorem tokens_rendered (htag : sep ∉ tag) (hfields : ∀ f ∈ fields, sep ∉ f.text eq)
    (hlast : sep ∉ last) (heq : eq ≠ sep)
    (hstop : ∀ t ∈ tag :: fields.map (NamedValue.text eq), ¬last ++ [eq] <+: t) :
    tokens sep (last ++ [eq]) (rendered sep eq quote tag fields last verdict ending) =
      tag :: fields.map (NamedValue.text eq) := by
  have hnotMem : sep ∉ last ++ [eq] := by
    rw [List.mem_append, List.mem_singleton, not_or]
    exact ⟨hlast, Ne.symm heq⟩
  obtain ⟨first, others, hsplit⟩ :=
    splitOn_append_of_notMem hnotMem (quote :: (verdict ++ quote :: ending))
  have hline : rendered sep eq quote tag fields last verdict ending =
      tag ++ ((fields.map (NamedValue.text eq)).flatMap (sep :: ·) ++
        sep :: (last ++ [eq] ++ quote :: (verdict ++ quote :: ending))) := by
    simp only [rendered, head, List.flatMap_map, List.append_assoc, List.singleton_append]
  have hpieces : ∀ p ∈ fields.map (NamedValue.text eq), sep ∉ p := by
    intro p hp
    obtain ⟨f, hf, rfl⟩ := List.mem_map.mp hp
    exact hfields f hf
  rw [tokens, hline, splitOn_pieces htag hpieces, hsplit, ← List.cons_append,
    List.takeWhile_append_of_pos, List.takeWhile_cons_of_neg, List.append_nil]
  · rw [Bool.not_eq_true', Bool.not_eq_false, List.isPrefixOf_iff_prefix]
    exact List.prefix_append _ first
  · intro t ht
    rw [Bool.not_eq_true', ← Bool.not_eq_true, List.isPrefixOf_iff_prefix]
    exact hstop t ht

theorem valueOf_text {f : NamedValue α} (h : eq ∉ f.name) : valueOf eq (f.text eq) = f := by
  have hname : ∀ x ∈ f.name, decide (x ≠ eq) := by
    intro x hx
    rw [decide_eq_true_iff]
    rintro rfl
    exact h hx
  rw [valueOf, NamedValue.text, List.takeWhile_append_of_pos hname,
    List.takeWhile_cons_of_neg (by simp), List.append_nil, List.dropWhile_append_of_pos hname,
    List.dropWhile_cons_of_neg (by simp), List.drop_succ_cons, List.drop_zero]

theorem fieldsOf_rendered (htag : sep ∉ tag) (hfields : ∀ f ∈ fields, sep ∉ f.text eq)
    (hlast : sep ∉ last) (heq : eq ≠ sep)
    (hstop : ∀ t ∈ tag :: fields.map (NamedValue.text eq), ¬last ++ [eq] <+: t)
    (hnames : ∀ f ∈ fields, eq ∉ f.name) :
    fieldsOf sep eq (last ++ [eq]) (rendered sep eq quote tag fields last verdict ending) =
      fields := by
  rw [fieldsOf, tokens_rendered htag hfields hlast heq hstop, List.drop_succ_cons, List.drop_zero,
    List.map_map]
  calc fields.map (valueOf eq ∘ NamedValue.text eq)
    _ = fields.map id := List.map_congr_left fun f hf => valueOf_text (hnames f hf)
    _ = fields := List.map_id fields

/-- The quoted value is read back. -/
theorem quoted_rendered (hhead : quote ∉ head sep eq tag fields) (hlast : quote ∉ last)
    (hsep : quote ≠ sep) (heq : quote ≠ eq) (hending : quote ∉ ending) :
    quoted quote (rendered sep eq quote tag fields last verdict ending) = verdict := by
  have hline : rendered sep eq quote tag fields last verdict ending =
      (head sep eq tag fields ++ sep :: (last ++ [eq])) ++
        quote :: (verdict ++ quote :: ending) := by
    simp only [rendered, List.append_assoc, List.cons_append, List.nil_append]
  have hbefore : ∀ x ∈ head sep eq tag fields ++ sep :: (last ++ [eq]), decide (x ≠ quote) := by
    intro x hx
    rw [decide_eq_true_iff]
    rintro rfl
    simp only [List.mem_append, List.mem_cons, List.not_mem_nil, or_false] at hx
    rcases hx with hx | hx | hx | hx
    · exact hhead hx
    · exact hsep hx
    · exact hlast hx
    · exact heq hx
  have hafter : ∀ x ∈ ending.reverse, decide (x ≠ quote) := by
    intro x hx
    rw [decide_eq_true_iff]
    rintro rfl
    exact hending (List.mem_reverse.mp hx)
  rw [quoted, hline, List.dropWhile_append_of_pos hbefore, List.dropWhile_cons_of_neg (by simp),
    List.drop_succ_cons, List.drop_zero, List.reverse_append, List.reverse_cons,
    List.append_assoc, List.dropWhile_append_of_pos hafter, List.singleton_append,
    List.dropWhile_cons_of_neg (by simp), List.drop_succ_cons, List.drop_zero,
    List.reverse_reverse]

end Logline
end LiveSurface
