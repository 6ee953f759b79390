import LiveSurface.Library.StableSort
import LiveSurface.Probe.Signatures

/-!
# The record of a generated probe

Of the parameters of a function the first five can be reached.  Each of them gets a field of the
record, as long as there is room: first those that are in a register, then texts, then the heads of
structures.

Main results:

- Theorem {lit}`fold_sized`: parameters of one size get a field as long as there is room.
- Theorem {lit}`layout_eq`: the fields in closed form.
- Theorem {lit}`layout_accounts`: every parameter is a field or dropped, and only once.
- Theorem {lit}`mem_fields_iff`: which parameters have a field.
-/

namespace LiveSurface
namespace Probe

open StableSort

/-! ## The source's layout -/

def strBytes : Nat := 24
def blobBytes : Nat := 16
def ctxMax : Nat := 96

/-- A parameter with its number and the name of its field. -/
structure Numbered where
  index : Nat
  name : String
  kind : String
  detail : String
deriving DecidableEq

/-- A field of the record. -/
structure Field where
  index : Nat
  name : String
  kind : String
  detail : String
  bytes : Nat
deriving DecidableEq

/-- {lit}`n or ("arg%d" % i)`. -/
def fieldName (i : Nat) (name : Option String) : String :=
  match name with
  | none => "arg" ++ toString i
  | some n => if n = "" then "arg" ++ toString i else n

def numbered (params : List Loaded) : List Numbered :=
  params.zipIdx.map fun e => ⟨e.2, fieldName e.2 e.1.name, e.1.kind, e.1.detail⟩

/-- {lit}`order.get(kind, 3)`. -/
def order (kind : String) : Nat :=
  if kind = "scalar" then 0
  else if kind = "string" then 1
  else if kind = "blob" then 2
  else if kind = "opaque" then 0
  else 3

/-- The size of a field of a kind. -/
def want (kind : String) : Option Nat :=
  if kind = "scalar" then some 8
  else if kind = "opaque" then some 8
  else if kind = "string" then some strBytes
  else if kind = "blob" then some blobBytes
  else none

/-- A field of this kind needs a read of memory. -/
def Reads (kind : String) : Prop := kind = "string" ∨ kind = "blob"

instance (kind : String) : Decidable (Reads kind) := inferInstanceAs (Decidable (_ ∨ _))

/-- A field of this kind is a register. -/
def Register (kind : String) : Prop := kind = "scalar" ∨ kind = "opaque"

instance (kind : String) : Decidable (Register kind) := inferInstanceAs (Decidable (_ ∨ _))

structure Layout where
  fields : List Field
  dropped : List Numbered
  used : Nat

def Layout.drop (l : Layout) (a : Numbered) : Layout := { l with dropped := l.dropped ++ [a] }

/-- One turn of the loop of {lit}`layout`. -/
def Layout.step (noProbeRead : Bool) (l : Layout) (a : Numbered) : Layout :=
  if noProbeRead = true ∧ Reads a.kind then l.drop a
  else
    match want a.kind with
    | none => l.drop a
    | some w =>
        if l.used + w > ctxMax then l.drop a
        else {
          fields := l.fields ++ [⟨a.index, a.name, a.kind, a.detail, w⟩]
          dropped := l.dropped
          used := l.used + w }

/-- {lit}`layout`. -/
def layout (params : List Loaded) (noProbeRead : Bool) : Layout :=
  (sortBy (fun a => order a.kind) ((numbered params).take 5)).foldl (Layout.step noProbeRead)
    ⟨[], (numbered params).drop 5, 4⟩

/-! ## Blocks -/

/-- The kinds of a place in the order, and the size of their fields. -/
theorem want_of_order (kind : String) :
    (order kind = 0 → want kind = some 8 ∧ ¬Reads kind) ∧ (order kind = 1 ↔ kind = "string") ∧
      (order kind = 2 ↔ kind = "blob") ∧ (order kind = 3 → want kind = none) ∧ order kind < 4 := by
  unfold order want Reads
  split_ifs <;> simp_all

def Numbered.field (w : Nat) (a : Numbered) : Field := ⟨a.index, a.name, a.kind, a.detail, w⟩

section Fold

variable {noProbeRead : Bool} {xs : List Numbered}

/-- Parameters that have no field. -/
theorem fold_dropped (h : ∀ a ∈ xs, noProbeRead = true ∧ Reads a.kind ∨ want a.kind = none)
    (l : Layout) :
    xs.foldl (Layout.step noProbeRead) l = { l with dropped := l.dropped ++ xs } := by
  induction xs generalizing l with
  | nil =>
      rw [List.append_nil]
      rfl
  | cons a xs ih =>
      rw [List.forall_mem_cons] at h
      have hstep : l.step noProbeRead a = l.drop a := by
        rcases h.1 with hread | hnone
        · exact if_pos hread
        · unfold Layout.step
          split
          · rfl
          · rw [hnone]
      rw [List.foldl_cons, hstep, ih h.2, Layout.drop, List.append_assoc, List.singleton_append]

/-- Parameters of one size, as many as there is room for. -/
theorem fold_sized {w : Nat} (hw : 0 < w)
    (h : ∀ a ∈ xs, ¬(noProbeRead = true ∧ Reads a.kind) ∧ want a.kind = some w) (l : Layout)
    (hl : l.used ≤ 96) :
    xs.foldl (Layout.step noProbeRead) l = {
      fields := l.fields ++ (xs.take ((96 - l.used) / w)).map (Numbered.field w)
      dropped := l.dropped ++ xs.drop ((96 - l.used) / w)
      used := l.used + w * min xs.length ((96 - l.used) / w) } := by
  induction xs generalizing l with
  | nil => simp
  | cons a xs ih =>
      rw [List.forall_mem_cons] at h
      have hstep : l.step noProbeRead a =
          if l.used + w > ctxMax then l.drop a
          else ⟨l.fields ++ [a.field w], l.dropped, l.used + w⟩ := by
        unfold Layout.step
        rw [if_neg h.1.1, h.1.2]
        rfl
      rw [List.foldl_cons, hstep]
      by_cases hroom : l.used + w > ctxMax
      · have hzero : (96 - l.used) / w = 0 := Nat.div_eq_of_lt (by rw [ctxMax] at hroom; omega)
        rw [if_pos hroom, ih h.2 (l.drop a) hl]
        simp [Layout.drop, hzero]
      · rw [if_neg hroom]
        rw [ctxMax, Nat.not_lt] at hroom
        have hsucc : (96 - l.used) / w = (96 - (l.used + w)) / w + 1 := by
          have hsub : 96 - l.used = 96 - (l.used + w) + w := by omega
          rw [hsub, Nat.add_div_right _ hw]
        rw [ih h.2 ⟨l.fields ++ [a.field w], l.dropped, l.used + w⟩ hroom, hsucc]
        simp only [List.take_succ_cons, List.map_cons, List.drop_succ_cons, List.length_cons,
          List.append_assoc, List.singleton_append, Layout.mk.injEq, true_and]
        rw [Nat.add_min_add_right, Nat.mul_succ]
        omega

end Fold

/-! ## The layout in closed form -/

/-- The parameters that can be reached. -/
def reach (params : List Loaded) : List Numbered := (numbered params).take 5

/-- Those of a place in the order. -/
def reachOf (params : List Loaded) (k : Nat) : List Numbered :=
  block (fun a => order a.kind) (reach params) k

/-- How many texts there is room for behind some registers. -/
def textRoom (noProbeRead : Bool) (registers : Nat) : Nat :=
  if noProbeRead then 0 else (92 - 8 * registers) / 24

/-- How many heads there is room for behind some registers and texts. -/
def headRoom (noProbeRead : Bool) (registers texts : Nat) : Nat :=
  if noProbeRead then 0
  else (92 - 8 * registers - 24 * min texts (textRoom noProbeRead registers)) / 16

section Closed

variable (params : List Loaded) (noProbeRead : Bool)

def texts : List Numbered := (reachOf params 1).take (textRoom noProbeRead (reachOf params 0).length)

def heads : List Numbered :=
  (reachOf params 2).take
    (headRoom noProbeRead (reachOf params 0).length (reachOf params 1).length)

/-- The parameters that can be reached, in the order they are laid out in. -/
theorem sorted_reach : sortBy (fun a => order a.kind) (reach params) =
    reachOf params 0 ++ (reachOf params 1 ++ (reachOf params 2 ++ reachOf params 3)) := by
  rw [sortBy_eq_blocks fun a _ => (want_of_order a.kind).2.2.2.2]
  change reachOf params 0 ++ (reachOf params 1 ++ (reachOf params 2 ++ (reachOf params 3 ++ []))) = _
  rw [List.append_nil]

theorem length_reach_le : (reachOf params 0).length + (reachOf params 1).length +
    (reachOf params 2).length ≤ 5 := by
  have hperm : (sortBy (fun a => order a.kind) (reach params)).length = (reach params).length :=
    (List.perm_insertionSort _ _).length_eq
  have hfive : (reach params).length ≤ 5 := List.length_take_le 5 _
  rw [sorted_reach, List.length_append, List.length_append, List.length_append] at hperm
  omega

theorem kind_of_reachOf {k : Nat} {a : Numbered} (h : a ∈ reachOf params k) : order a.kind = k :=
  @key_of_mem_block Numbered (fun a => order a.kind) (reach params) k a h

/-- The texts and the heads that have a field, where memory may be read. -/
theorem fold_reads (l : Layout) (hused : l.used = 4 + 8 * (reachOf params 0).length) :
    let r := (reachOf params 2).foldl (Layout.step noProbeRead)
      ((reachOf params 1).foldl (Layout.step noProbeRead) l)
    r.fields = l.fields ++ (texts params noProbeRead).map (Numbered.field 24) ++
      (heads params noProbeRead).map (Numbered.field 16) ∧
    r.dropped = l.dropped ++
      (reachOf params 1).drop (textRoom noProbeRead (reachOf params 0).length) ++
      (reachOf params 2).drop
        (headRoom noProbeRead (reachOf params 0).length (reachOf params 1).length) ∧
    r.used = l.used + 24 * (texts params noProbeRead).length +
      16 * (heads params noProbeRead).length := by
  have hfive := length_reach_le params
  have htext : ∀ a ∈ reachOf params 1, Reads a.kind ∧ want a.kind = some 24 := by
    intro a ha
    have hkind := (want_of_order a.kind).2.1.mp (kind_of_reachOf params ha)
    rw [hkind]
    decide
  have hhead : ∀ a ∈ reachOf params 2, Reads a.kind ∧ want a.kind = some 16 := by
    intro a ha
    have hkind := (want_of_order a.kind).2.2.1.mp (kind_of_reachOf params ha)
    rw [hkind]
    decide
  cases noProbeRead with
  | true =>
      rw [fold_dropped (fun a ha => Or.inl ⟨rfl, (htext a ha).1⟩),
        fold_dropped (fun a ha => Or.inl ⟨rfl, (hhead a ha).1⟩)]
      simp [texts, heads, textRoom, headRoom]
  | false =>
      have hroom : (96 - l.used) / 24 = textRoom false (reachOf params 0).length := by
        rw [hused, textRoom]
        simp only [Bool.false_eq_true, if_false]
        congr 1
        omega
      rw [fold_sized (by decide) (fun a ha => ⟨by simp, (htext a ha).2⟩) l (by omega), hroom]
      have hmin : 24 * min (reachOf params 1).length (textRoom false (reachOf params 0).length) ≤
          92 - 8 * (reachOf params 0).length := by
        rw [textRoom]
        simp only [Bool.false_eq_true, if_false]
        omega
      have hroom2 : (96 - (l.used + 24 * min (reachOf params 1).length
          (textRoom false (reachOf params 0).length))) / 16 =
            headRoom false (reachOf params 0).length (reachOf params 1).length := by
        rw [hused, headRoom]
        simp only [Bool.false_eq_true, if_false]
        congr 1
        omega
      rw [fold_sized (by decide) (fun a ha => ⟨by simp, (hhead a ha).2⟩) _ (by dsimp only; omega)]
      dsimp only
      rw [hroom2]
      refine ⟨rfl, rfl, ?_⟩
      rw [texts, heads, List.length_take, List.length_take, Nat.min_comm (textRoom _ _),
        Nat.min_comm (headRoom _ _ _)]

/-- The fields in closed form, and the space they take. -/
theorem layout_eq :
    (layout params noProbeRead).fields = (reachOf params 0).map (Numbered.field 8) ++
      (texts params noProbeRead).map (Numbered.field 24) ++
      (heads params noProbeRead).map (Numbered.field 16) ∧
    (layout params noProbeRead).dropped = (numbered params).drop 5 ++
      (reachOf params 1).drop (textRoom noProbeRead (reachOf params 0).length) ++
      (reachOf params 2).drop
        (headRoom noProbeRead (reachOf params 0).length (reachOf params 1).length) ++
      reachOf params 3 ∧
    (layout params noProbeRead).used = 4 + 8 * (reachOf params 0).length +
      24 * (texts params noProbeRead).length + 16 * (heads params noProbeRead).length := by
  have hfive := length_reach_le params
  have hreg : ∀ a ∈ reachOf params 0,
      ¬(noProbeRead = true ∧ Reads a.kind) ∧ want a.kind = some 8 := by
    intro a ha
    have hkind := (want_of_order a.kind).1 (kind_of_reachOf params ha)
    exact ⟨fun hread => hkind.2 hread.2, hkind.1⟩
  have hnone : ∀ a ∈ reachOf params 3, noProbeRead = true ∧ Reads a.kind ∨ want a.kind = none :=
    fun a ha => Or.inr ((want_of_order a.kind).2.2.2.1 (kind_of_reachOf params ha))
  have hall : (reachOf params 0).length ≤ 11 := by omega
  have hsorted := sorted_reach params
  rw [reach] at hsorted
  rw [layout, hsorted, List.foldl_append, List.foldl_append, List.foldl_append,
    fold_sized (by decide) hreg _ (by change 4 ≤ 96; decide), fold_dropped hnone]
  have hreads := fold_reads params noProbeRead ⟨(reachOf params 0).map (Numbered.field 8),
    (numbered params).drop 5, 4 + 8 * (reachOf params 0).length⟩ rfl
  simp only [show (96 - 4) / 8 = 11 from rfl, List.take_of_length_le hall,
    List.drop_eq_nil_of_le hall, Nat.min_eq_left hall, List.nil_append, List.append_nil] at hreads ⊢
  obtain ⟨hfields, hdropped, hused⟩ := hreads
  exact ⟨hfields, by rw [hdropped], hused⟩

/-! ## Every parameter is accounted for -/

theorem map_index_numbered : (numbered params).map Numbered.index = List.range params.length := by
  rw [numbered, List.map_map]
  change params.zipIdx.map Prod.snd = _
  rw [List.zipIdx_map_snd, List.range_eq_range']

/-- The parameter behind a number. -/
theorem mem_numbered_iff {a : Numbered} : a ∈ numbered params ↔
    ∃ p, params[a.index]? = some p ∧ a = ⟨a.index, fieldName a.index p.name, p.kind, p.detail⟩ := by
  rw [numbered, List.mem_map]
  constructor
  · rintro ⟨⟨p, i⟩, hmem, rfl⟩
    exact ⟨p, List.mem_zipIdx_iff_getElem?.mp hmem, rfl⟩
  · rintro ⟨p, hp, ha⟩
    exact ⟨(p, a.index), List.mem_zipIdx_iff_getElem?.mpr hp, ha.symm⟩

/-- The parameters that have a field, in the order of the record. -/
def captured : List Numbered :=
  reachOf params 0 ++ texts params noProbeRead ++ heads params noProbeRead

/-- The fields and the dropped parameters are all of them. -/
theorem captured_perm :
    (captured params noProbeRead ++ (layout params noProbeRead).dropped).Perm (numbered params) := by
  have hsort : (reachOf params 0 ++ (reachOf params 1 ++ (reachOf params 2 ++ reachOf params 3))).Perm
      (reach params) := by
    rw [← sorted_reach]
    exact List.perm_insertionSort _ _
  rw [List.perm_iff_count] at hsort ⊢
  intro a
  have hreach := hsort a
  have hall : (numbered params).count a =
      (reach params).count a + ((numbered params).drop 5).count a := by
    rw [reach, ← List.count_append, List.take_append_drop]
  have htexts : (reachOf params 1).count a = (texts params noProbeRead).count a +
      ((reachOf params 1).drop (textRoom noProbeRead (reachOf params 0).length)).count a := by
    rw [texts, ← List.count_append, List.take_append_drop]
  have hheads : (reachOf params 2).count a = (heads params noProbeRead).count a +
      ((reachOf params 2).drop
        (headRoom noProbeRead (reachOf params 0).length (reachOf params 1).length)).count a := by
    rw [heads, ← List.count_append, List.take_append_drop]
  rw [captured, (layout_eq params noProbeRead).2.1]
  simp only [List.count_append] at hreach ⊢
  omega

theorem map_index_fields :
    (layout params noProbeRead).fields.map Field.index =
      (captured params noProbeRead).map Numbered.index := by
  rw [(layout_eq params noProbeRead).1, captured]
  simp only [List.map_append, List.map_map]
  rfl

/-- Every parameter has a field or is dropped, and only once. -/
theorem layout_accounts :
    ((layout params noProbeRead).fields.map Field.index ++
      (layout params noProbeRead).dropped.map Numbered.index).Perm (List.range params.length) := by
  rw [map_index_fields, ← List.map_append, ← map_index_numbered]
  exact (captured_perm params noProbeRead).map _

theorem nodup_index_fields : ((layout params noProbeRead).fields.map Field.index).Nodup := by
  have hnodup := (layout_accounts params noProbeRead).nodup_iff.mpr List.nodup_range
  exact (List.nodup_append.mp hnodup).1

/-! ## Which parameters have a field -/

/-- Of the parameters that can be reached, how many are registers. -/
def registerCount : Nat := (params.take 5).countP fun p => Register p.kind

/-- Of the parameters that can be reached, how many are texts. -/
def textCount : Nat := (params.take 5).countP fun p => p.kind = "string"

/-- A parameter has a field, by the kinds of the parameters alone. -/
def Kept (i : Nat) : Prop :=
  i < 5 ∧ ∃ p, params[i]? = some p ∧
    (Register p.kind ∨
      p.kind = "string" ∧
        (params.take i).countP (fun q => q.kind = "string") <
          textRoom noProbeRead (registerCount params) ∨
      p.kind = "blob" ∧
        (params.take i).countP (fun q => q.kind = "blob") <
          headRoom noProbeRead (registerCount params) (textCount params))

theorem order_eq_zero_iff (kind : String) : order kind = 0 ↔ Register kind := by
  unfold order Register
  split_ifs <;> simp_all

/-- The kinds stay with their numbers. -/
theorem countP_numbered (q : String → Bool) (i : Nat) :
    ((numbered params).take i).countP (fun a => q a.kind) =
      (params.take i).countP fun p => q p.kind := by
  have hkinds : (numbered params).map Numbered.kind = params.map Loaded.kind := by
    rw [numbered, List.map_map]
    change params.zipIdx.map (Loaded.kind ∘ Prod.fst) = _
    rw [← List.map_map, List.zipIdx_map_fst]
  have hleft := @List.countP_map _ _ q Numbered.kind ((numbered params).take i)
  have hright := @List.countP_map _ _ q Loaded.kind (params.take i)
  rw [List.map_take, hkinds, ← List.map_take, hright] at hleft
  exact hleft.symm

theorem length_reachOf (k : Nat) :
    (reachOf params k).length = (params.take 5).countP fun p => order p.kind = k := by
  rw [reachOf, block, ← List.countP_eq_length_filter]
  exact countP_numbered params (fun kind => order kind = k) 5

/-- A parameter that can be reached is at its number. -/
theorem getElem?_reach {i : Nat} {a : Numbered} :
    (reach params)[i]? = some a ↔ i < 5 ∧ a.index = i ∧ a ∈ numbered params := by
  have hget : (numbered params)[i]? = some a ↔ a.index = i ∧ a ∈ numbered params := by
    have hindex : (numbered params)[i]?.map Numbered.index = (List.range params.length)[i]? := by
      rw [← List.getElem?_map, map_index_numbered]
    constructor
    · intro ha
      rw [ha, Option.map_some, eq_comm, List.getElem?_eq_some_iff] at hindex
      obtain ⟨hi, hrange⟩ := hindex
      rw [List.getElem_range] at hrange
      exact ⟨hrange.symm, List.mem_of_getElem? ha⟩
    · rintro ⟨rfl, hmem⟩
      obtain ⟨j, hj⟩ := List.getElem?_of_mem hmem
      have hindexj : (numbered params)[j]?.map Numbered.index = (List.range params.length)[j]? := by
        rw [← List.getElem?_map, map_index_numbered]
      rw [hj, Option.map_some, eq_comm, List.getElem?_eq_some_iff] at hindexj
      obtain ⟨hlt, hrange⟩ := hindexj
      rw [List.getElem_range] at hrange
      rw [← hrange]
      exact hj
  rw [reach, List.getElem?_take]
  split
  next hi => rw [hget]; simp [hi]
  next hi => simp [hi]

/-- A parameter has a field exactly if it is kept. -/
theorem mem_captured_iff {a : Numbered} :
    a ∈ captured params noProbeRead ↔ Kept params noProbeRead a.index ∧ a ∈ numbered params := by
  have hfirst : ∀ k n, a ∈ (reachOf params k).take n ↔ a.index < 5 ∧ a ∈ numbered params ∧
      order a.kind = k ∧
        (params.take a.index).countP (fun p => order p.kind = k) < n := by
    intro k n
    rw [reachOf, mem_take_block_iff]
    constructor
    · rintro ⟨i, hi, hkind, hcount⟩
      obtain ⟨hlt, rfl, hmem⟩ := (getElem?_reach params).mp hi
      rw [reach, List.take_take, Nat.min_eq_left (by omega),
        countP_numbered params (fun kind => order kind = k)] at hcount
      exact ⟨hlt, hmem, hkind, hcount⟩
    · rintro ⟨hlt, hmem, hkind, hcount⟩
      refine ⟨a.index, (getElem?_reach params).mpr ⟨hlt, rfl, hmem⟩, hkind, ?_⟩
      rw [reach, List.take_take, Nat.min_eq_left (by omega),
        countP_numbered params (fun kind => order kind = k)]
      exact hcount
  have hzero : a ∈ reachOf params 0 ↔
      a.index < 5 ∧ a ∈ numbered params ∧ order a.kind = 0 := by
    rw [reachOf, block, List.mem_filter]
    constructor
    · rintro ⟨hmem, hkind⟩
      obtain ⟨i, hi⟩ := List.getElem?_of_mem hmem
      obtain ⟨hlt, rfl, hnum⟩ := (getElem?_reach params).mp hi
      exact ⟨hlt, hnum, by simpa using hkind⟩
    · rintro ⟨hlt, hnum, hkind⟩
      exact ⟨List.mem_of_getElem? ((getElem?_reach params).mpr ⟨hlt, rfl, hnum⟩),
        by simpa using hkind⟩
  have hone : ∀ kind, order kind = 1 ↔ kind = "string" := fun kind => (want_of_order kind).2.1
  have htwo : ∀ kind, order kind = 2 ↔ kind = "blob" := fun kind => (want_of_order kind).2.2.1
  rw [captured, List.mem_append, List.mem_append, texts, heads, hfirst, hfirst, hzero,
    length_reachOf, length_reachOf, Kept, registerCount, textCount]
  simp only [order_eq_zero_iff, hone, htwo]
  constructor
  · rintro ((⟨hlt, hmem, hkind⟩ | ⟨hlt, hmem, hkind, hcount⟩) | ⟨hlt, hmem, hkind, hcount⟩)
    all_goals
      obtain ⟨p, hp, ha⟩ := (mem_numbered_iff params).mp hmem
      have hpkind : a.kind = p.kind := by rw [ha]
      rw [hpkind] at hkind
    · exact ⟨⟨hlt, p, hp, Or.inl hkind⟩, hmem⟩
    · exact ⟨⟨hlt, p, hp, Or.inr (Or.inl ⟨hkind, hcount⟩)⟩, hmem⟩
    · exact ⟨⟨hlt, p, hp, Or.inr (Or.inr ⟨hkind, hcount⟩)⟩, hmem⟩
  · rintro ⟨⟨hlt, p, hp, hkept⟩, hmem⟩
    obtain ⟨q, hq, ha⟩ := (mem_numbered_iff params).mp hmem
    rw [hp, Option.some.injEq] at hq
    subst hq
    have hpkind : a.kind = p.kind := by rw [ha]
    rw [hpkind]
    rcases hkept with hkind | ⟨hkind, hcount⟩ | ⟨hkind, hcount⟩
    · exact Or.inl (Or.inl ⟨hlt, hmem, hkind⟩)
    · exact Or.inl (Or.inr ⟨hlt, hmem, hkind, hcount⟩)
    · exact Or.inr ⟨hlt, hmem, hkind, hcount⟩

/-- The fields are the kept parameters, each with the size of its kind. -/
theorem mem_fields_iff {f : Field} :
    f ∈ (layout params noProbeRead).fields ↔
      Kept params noProbeRead f.index ∧ ∃ p, params[f.index]? = some p ∧
        f.name = fieldName f.index p.name ∧ f.kind = p.kind ∧ f.detail = p.detail ∧
          want p.kind = some f.bytes := by
  have hcaptured : f ∈ (layout params noProbeRead).fields ↔
      ∃ a ∈ captured params noProbeRead, want a.kind = some f.bytes ∧ f = a.field f.bytes := by
    have hmem : ∀ {w : Nat} {l : List Numbered}, (∀ a ∈ l, want a.kind = some w) →
        (f ∈ l.map (Numbered.field w) ↔
          ∃ a ∈ l, want a.kind = some f.bytes ∧ f = a.field f.bytes) := by
      intro w l hl
      rw [List.mem_map]
      constructor
      · rintro ⟨a, ha, rfl⟩
        exact ⟨a, ha, hl a ha, rfl⟩
      · rintro ⟨a, ha, hwant, hf⟩
        rw [hl a ha, Option.some.injEq] at hwant
        exact ⟨a, ha, by rw [hwant]; exact hf.symm⟩
    have hreg : ∀ a ∈ reachOf params 0, want a.kind = some 8 := fun a ha =>
      ((want_of_order a.kind).1 (kind_of_reachOf params ha)).1
    have htext : ∀ a ∈ texts params noProbeRead, want a.kind = some 24 := by
      intro a ha
      rw [(want_of_order a.kind).2.1.mp (kind_of_reachOf params (List.mem_of_mem_take ha))]
      rfl
    have hhead : ∀ a ∈ heads params noProbeRead, want a.kind = some 16 := by
      intro a ha
      rw [(want_of_order a.kind).2.2.1.mp (kind_of_reachOf params (List.mem_of_mem_take ha))]
      rfl
    rw [(layout_eq params noProbeRead).1, captured, List.mem_append, List.mem_append,
      hmem hreg, hmem htext, hmem hhead]
    simp only [List.mem_append, or_and_right, exists_or]
  rw [hcaptured]
  constructor
  · rintro ⟨a, ha, hwant, hf⟩
    obtain ⟨hkept, hnum⟩ := (mem_captured_iff params noProbeRead).mp ha
    obtain ⟨p, hp, haeq⟩ := (mem_numbered_iff params).mp hnum
    have hindex : f.index = a.index := by rw [hf]; rfl
    rw [haeq] at hwant hf
    rw [hindex]
    exact ⟨hkept, p, hp, by rw [hf]; rfl, by rw [hf]; rfl, by rw [hf]; rfl, hwant⟩
  · rintro ⟨hkept, p, hp, hname, hkind, hdetail, hwant⟩
    refine ⟨⟨f.index, fieldName f.index p.name, p.kind, p.detail⟩, ?_, hwant, ?_⟩
    · exact (mem_captured_iff params noProbeRead).mpr
        ⟨hkept, (mem_numbered_iff params).mpr ⟨p, hp, rfl⟩⟩
    · cases f
      simp only at hname hkind hdetail
      rw [hname, hkind, hdetail]
      rfl

/-- The fields of the record take ninety-six bytes at most, without padding. -/
theorem used_le : (layout params noProbeRead).used ≤ 96 := by
  have hfive := length_reach_le params
  have htexts : (texts params noProbeRead).length ≤
      textRoom noProbeRead (reachOf params 0).length := List.length_take_le _ _
  have hheads : (heads params noProbeRead).length ≤
      headRoom noProbeRead (reachOf params 0).length (reachOf params 1).length :=
    List.length_take_le _ _
  have hmin : (texts params noProbeRead).length =
      min (reachOf params 1).length (textRoom noProbeRead (reachOf params 0).length) := by
    rw [texts, List.length_take, Nat.min_comm]
  rw [(layout_eq params noProbeRead).2.2]
  cases noProbeRead with
  | true =>
      simp only [textRoom, headRoom, if_true] at htexts hheads
      omega
  | false =>
      simp only [headRoom, textRoom, Bool.false_eq_true, if_false] at htexts hheads hmin
      omega

end Closed

end Probe
end LiveSurface
