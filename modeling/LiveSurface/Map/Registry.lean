import LiveSurface.Config.Store
import LiveSurface.Map.Refinement
import Mathlib.Data.Nat.Bitwise

/-!
# Map references

A program names its maps.  When its object is loaded every reference to a map
symbol is relocated: the name is looked up in a registry, entered there if it is
new, and the reference that the program will pass to the helpers is the
registry's generation with the entry's index below it.  Legacy programs share one
registry; every managed program has a registry of its own.  A registry is emptied
by starting its next generation.

A symbol name is a string without zero bytes; the data a relocation may read is
the list of its bytes.  The handle of a relocation is the callback's context, the
configuration handle of the instance that is being loaded.

Main results:

- Theorem {lit}`strncmpEq_nameArray`: two stored names compare equal exactly when
  they are the same.
- Theorem {lit}`lsMapReloc_replay`: relocating a second time gives the same
  answer and changes nothing.
- Theorem {lit}`Registry.Ok.reloc`: a relocation keeps what a registry satisfies.
- Theorem {lit}`Registry.Answers.reloc`: an answer stands whatever is relocated
  after it.
-/

namespace LiveSurface
namespace Map

open Config

/-! ## Names -/

def lsMapNameMax : Nat := 32
def lsMapNamespaces : Nat := 8

/-- The bytes of a string, without its terminator. -/
structure CString where
  bytes : List UInt8
  noNul : (0 : UInt8) ∉ bytes
deriving DecidableEq

/-- The bytes of {lit}`ls_config_v1`. -/
def lsConfigMapName : List UInt8 := [108, 115, 95, 99, 111, 110, 102, 105, 103, 95, 118, 49]

def strnlen (name : CString) (n : Nat) : Nat := min name.bytes.length n

/-- {lit}`strncmp` finds no difference. -/
def strncmpEq : Nat → List UInt8 → List UInt8 → Bool
  | 0, _, _ => true
  | n + 1, a :: as, b :: bs => a == b && (a == 0 || strncmpEq n as bs)
  | _ + 1, _, _ => false

/-- The array a name is kept in: cleared, then filled from the front. -/
def nameArray (name : CString) : List UInt8 :=
  name.bytes.take (strnlen name (lsMapNameMax - 1)) ++
    List.replicate (lsMapNameMax - strnlen name (lsMapNameMax - 1)) 0

/-- Comparison stops at the first terminator. -/
theorem strncmpEq_terminated {n : Nat} {as bs rest : List UInt8} (hn : as.length < n)
    (has : (0 : UInt8) ∉ as) (hbs : (0 : UInt8) ∉ bs) :
    strncmpEq n (as ++ 0 :: rest) (bs ++ [0]) = true ↔ as = bs := by
  induction as generalizing n bs with
  | nil =>
      obtain ⟨n, rfl⟩ := Nat.exists_eq_succ_of_ne_zero (by omega : n ≠ 0)
      cases bs with
      | nil => simp [strncmpEq]
      | cons b bs =>
          have hb : b ≠ 0 := fun h => hbs (h ▸ List.mem_cons_self)
          simp [strncmpEq, Ne.symm hb]
  | cons a as ih =>
      obtain ⟨n, rfl⟩ := Nat.exists_eq_succ_of_ne_zero (by omega : n ≠ 0)
      have ha : a ≠ 0 := fun h => has (h ▸ List.mem_cons_self)
      have has' : (0 : UInt8) ∉ as := fun h => has (List.mem_cons_of_mem a h)
      cases bs with
      | nil => simp [strncmpEq, ha]
      | cons b bs =>
          have hbs' : (0 : UInt8) ∉ bs := fun h => hbs (List.mem_cons_of_mem b h)
          have hlen : as.length < n := by simpa using hn
          simp only [List.cons_append, strncmpEq, Bool.and_eq_true, beq_iff_eq, Bool.or_eq_true,
            ha, false_or, ih hlen has' hbs', List.cons.injEq]

/-- A name that fits its array, with room for the terminator. -/
def CString.Fits (name : CString) : Prop := name.bytes.length < lsMapNameMax

theorem nameArray_of_fits {name : CString} (h : name.Fits) :
    ∃ rest, nameArray name = name.bytes ++ 0 :: rest := by
  have hlen : strnlen name (lsMapNameMax - 1) = name.bytes.length := by
    simp only [CString.Fits, lsMapNameMax] at h
    simp only [strnlen, lsMapNameMax]
    omega
  obtain ⟨k, hk⟩ : ∃ k, lsMapNameMax - name.bytes.length = k + 1 :=
    ⟨lsMapNameMax - name.bytes.length - 1, by simp only [CString.Fits] at h; omega⟩
  refine ⟨List.replicate k 0, ?_⟩
  rw [nameArray, hlen, hk, List.take_length, List.replicate_succ]

/-- Two stored names compare equal exactly when they are the same. -/
theorem strncmpEq_nameArray {name name' : CString} (h : name.Fits) :
    strncmpEq lsMapNameMax (nameArray name) (name'.bytes ++ [0]) = true ↔ name = name' := by
  obtain ⟨rest, hrest⟩ := nameArray_of_fits h
  rw [hrest, strncmpEq_terminated h name.noNul name'.noNul]
  constructor
  · intro hbytes
    cases name
    cases name'
    simpa using hbytes
  · rintro rfl
    rfl

/-! ## Registries -/

/-- The names and shapes that relocation has recorded. -/
structure Registry where
  shapes : Nat → LsMapDef
  names : Nat → List UInt8
  count : Nat
  generation : UInt64

/-- The last generation; its references stay below the handle bit. -/
def generationMax : UInt64 := UInt64.ofNat (2 ^ 55 - 1)

def LsMapDef.zero : LsMapDef where
  type := 0
  keySize := 0
  valueSize := 0
  maxEntries := 0
  mapFlags := 0

def Registry.zero : Registry where
  shapes _ := .zero
  names _ := List.replicate lsMapNameMax 0
  count := 0
  generation := 0

/-- {lit}`ls_map_reset_shapes` where nobody else is resetting; {lit}`readers`
tells whether a program is running.  The shapes stay behind. -/
def lsMapResetShapes (g : Registry) (readers : Bool) : Bool × Registry :=
  if readers || g.generation == generationMax then (false, g)
  else
    (true,
      { g with
        names := fun _ => List.replicate lsMapNameMax 0
        count := 0
        generation := g.generation + 1 })

/-- How {lit}`ls_program_load` starts a program's registry afresh. -/
def namespaceLoad (g : Registry) : Bool × Registry :=
  if g.generation == generationMax then (false, g)
  else (true, { Registry.zero with generation := g.generation + 1 })

/-! ## Relocation -/

/-- The arguments of {lit}`ls_map_reloc`. -/
structure Relocation where
  handle : UInt64
  data : Option (List UInt8)
  symbolName : Option CString
  symbolOffset : Nat
  symbolSize : Nat
deriving DecidableEq

def lsMapDefSize : Nat := 20

/-- The descriptor that starts a byte string. -/
def mapDefOfBytes (bytes : List UInt8) : LsMapDef where
  type := ofLittleEndian (bytes.take 4)
  keySize := ofLittleEndian ((bytes.drop 4).take 4)
  valueSize := ofLittleEndian ((bytes.drop 8).take 4)
  maxEntries := ofLittleEndian ((bytes.drop 12).take 4)
  mapFlags := ofLittleEndian ((bytes.drop 16).take 4)

/-- The descriptor at the symbol's offset, unless it is missing or truncated. -/
def Relocation.descriptor (r : Relocation) : Option LsMapDef :=
  match r.data with
  | none => none
  | some data =>
      if r.symbolOffset > data.length ∨ lsMapDefSize > data.length - r.symbolOffset ∨
          r.symbolSize < lsMapDefSize then none
      else some (mapDefOfBytes (data.drop r.symbolOffset))

/-- What a relocation returns, the registry after it, and whether it raised
{lit}`load_error`. -/
structure Relocated where
  reference : UInt64
  registry : Registry
  refused : Bool

/-- An index that no registry has. -/
def refusedReference : UInt64 := UInt64.ofNat (lsMapMax + 1)

def mapReference (generation : UInt64) (i : Nat) : UInt64 := generation <<< 8 ||| UInt64.ofNat i

def refuse (g : Registry) : Relocated where
  reference := refusedReference
  registry := g
  refused := true

/-- The declaration of the configuration view, as every program has to write it. -/
def configDeclared (name : CString) (d : LsMapDef) (handle : UInt64) : Bool :=
  !(name.bytes != lsConfigMapName || d.type != 2 || d.keySize != 4 ||
    d.valueSize != lsConfigValueSize || d.maxEntries != lsConfigRows + 1 ||
    d.mapFlags != 128 || !isHandle handle)

/-- The entry recorded under a name. -/
def Registry.find (g : Registry) (name : CString) : Option Nat :=
  (List.range g.count).find? fun i =>
    strncmpEq lsMapNameMax (g.names i) (name.bytes ++ [0])

/-- Record a shape and its name. -/
def Registry.enter (g : Registry) (name : CString) (d : LsMapDef) : Registry :=
  { g with
    shapes := Function.update g.shapes g.count d
    names := Function.update g.names g.count (nameArray name)
    count := g.count + 1 }

/-- Relocate a map of the registry: one that is not the configuration view. -/
def relocateMap (g : Registry) (name : CString) (d : LsMapDef) : Relocated :=
  match g.find name with
  | some i =>
      if g.shapes i = d then
        { reference := mapReference g.generation i, registry := g, refused := false }
      else refuse g
  | none =>
      if lsMapCheckDescriptor d = false ∨ g.count ≥ lsMapMax then refuse g
      else
        { reference := mapReference g.generation g.count
          registry := g.enter name d
          refused := false }

/-- Resolve a reference to a map symbol to the value that is planted in the
instruction. -/
def lsMapReloc (g : Registry) (r : Relocation) : Relocated :=
  match r.descriptor, r.symbolName with
  | some d, some name =>
      if name.bytes = [] then refuse g
      else if strnlen name lsMapNameMax ≥ lsMapNameMax then refuse g
      else if d.type = 2 ∨ name.bytes = lsConfigMapName then
        if configDeclared name d r.handle then
          { reference := r.handle, registry := g, refused := false }
        else refuse g
      else relocateMap g name d
  | _, _ => refuse g

/-! ## Reference arithmetic -/

section References

variable {generation : UInt64} {i : Nat}

theorem toNat_generationMax : generationMax.toNat = 2 ^ 55 - 1 := by decide

theorem mapReference_toNat (hg : generation ≤ generationMax) (hi : i < 256) :
    (mapReference generation i).toNat = generation.toNat * 256 + i := by
  have hle : generation.toNat ≤ 2 ^ 55 - 1 := by
    rw [← toNat_generationMax]
    exact hg
  have hshift : generation.toNat <<< 8 % 2 ^ 64 = generation.toNat * 256 := by
    rw [Nat.shiftLeft_eq]
    omega
  have hor : generation.toNat * 2 ^ 8 ||| i = generation.toNat * 2 ^ 8 + i := by
    rw [Nat.mul_comm]
    exact (Nat.two_pow_add_eq_or_of_lt (by simpa using hi) generation.toNat).symm
  have hsmall : i % 2 ^ 64 = i := Nat.mod_eq_of_lt (by omega)
  simp only [mapReference, UInt64.toNat_or, UInt64.toNat_shiftLeft, UInt64.toNat_ofNat']
  have h8 : UInt64.toNat 8 % 64 = 8 := by decide
  rw [h8, hshift, hsmall]
  exact hor

/-- The generation is above the index. -/
theorem mapReference_shift (hg : generation ≤ generationMax) (hi : i < 256) :
    mapReference generation i >>> 8 = generation := by
  apply UInt64.toNat_inj.mp
  have h8 : UInt64.toNat 8 % 64 = 8 := by decide
  rw [UInt64.toNat_shiftRight, h8, mapReference_toNat hg hi, Nat.shiftRight_eq_div_pow]
  omega

theorem mapReference_index (hg : generation ≤ generationMax) (hi : i < 256) :
    (mapReference generation i &&& 255).toNat = i := by
  have h255 : UInt64.toNat 255 = 2 ^ 8 - 1 := by decide
  rw [UInt64.toNat_and, h255, Nat.and_two_pow_sub_one_eq_mod, mapReference_toNat hg hi]
  omega

theorem mapReference_inj {generation' : UInt64} {j : Nat} (hg : generation ≤ generationMax)
    (hi : i < 256) (hg' : generation' ≤ generationMax) (hj : j < 256)
    (h : mapReference generation i = mapReference generation' j) :
    generation = generation' ∧ i = j := by
  refine ⟨?_, ?_⟩
  · rw [← mapReference_shift hg hi, h, mapReference_shift hg' hj]
  · rw [← mapReference_index hg hi, h, mapReference_index hg' hj]

theorem isHandle_iff (handle : UInt64) : isHandle handle = true ↔ 2 ^ 63 ≤ handle.toNat := by
  have hlt : handle.toNat < 2 ^ 64 := handle.toNat_lt
  have hbit : handle.toNat &&& 2 ^ 63 = if 2 ^ 63 ≤ handle.toNat then 2 ^ 63 else 0 := by
    rw [Nat.and_two_pow, Nat.testBit_eq_decide_div_mod_eq]
    split
    · rename_i hge
      have hone : handle.toNat / 2 ^ 63 % 2 = 1 := by omega
      rw [hone]
      rfl
    · rename_i hnot
      have hzero : handle.toNat / 2 ^ 63 % 2 = 0 := by omega
      rw [hzero]
      rfl
  simp only [isHandle, lsConfigHandleBit, bne_iff_ne, hbit, ne_eq, ite_eq_right_iff, not_forall,
    exists_prop, and_iff_left_iff_imp]
  intro _
  decide

/-- A reference to a map stays below the bit of configuration handles. -/
theorem isHandle_mapReference (hg : generation ≤ generationMax) (hi : i < 256) :
    isHandle (mapReference generation i) = false := by
  have hle : generation.toNat ≤ 2 ^ 55 - 1 := by
    rw [← toNat_generationMax]
    exact hg
  rw [← Bool.not_eq_true, isHandle_iff, mapReference_toNat hg hi]
  omega

theorem mapReference_ne_refused (hg : generation ≤ generationMax) (hi : i < lsMapMax) :
    mapReference generation i ≠ refusedReference := by
  simp only [lsMapMax] at hi
  intro h
  have hnat := congrArg UInt64.toNat h
  rw [mapReference_toNat hg (by omega)] at hnat
  have hrefused : refusedReference.toNat = 5 := by decide
  omega

end References

/-! ## What a registry satisfies -/

structure Registry.Ok (g : Registry) : Prop where
  count_le : g.count ≤ lsMapMax
  generation_le : g.generation ≤ generationMax
  named : ∀ i < g.count, ∃ name : CString, name.Fits ∧ g.names i = nameArray name
  distinct : ∀ i < g.count, ∀ j < g.count, g.names i = g.names j → i = j
  checked : ∀ i < g.count, lsMapCheckDescriptor (g.shapes i) = true

/-- An empty registry. -/
theorem Registry.ok_of_empty {g : Registry} (hcount : g.count = 0)
    (hgeneration : g.generation ≤ generationMax) : g.Ok := by
  have hno : ∀ i, ¬ i < g.count := by
    intro i
    omega
  refine ⟨by omega, hgeneration, ?_, ?_, ?_⟩
  · intro i hi
    exact absurd hi (hno i)
  · intro i hi
    exact absurd hi (hno i)
  · intro i hi
    exact absurd hi (hno i)

/-- The next generation is not past the last one. -/
theorem next_generation_le {generation : UInt64} (hle : generation ≤ generationMax)
    (hne : generation ≠ generationMax) :
    generation < generation + 1 ∧ generation + 1 ≤ generationMax := by
  have hmax := toNat_generationMax
  have hnat : generation.toNat ≤ generationMax.toNat := hle
  have hnat' : generation.toNat ≠ generationMax.toNat := fun h => hne (UInt64.toNat_inj.mp h)
  have hsum : (generation + 1).toNat = generation.toNat + 1 := by
    rw [UInt64.toNat_add]
    have hone : UInt64.toNat 1 = 1 := rfl
    omega
  refine ⟨UInt64.lt_iff_toNat_lt.mpr ?_, UInt64.le_iff_toNat_le.mpr ?_⟩ <;> omega

theorem nameArray_inj {name name' : CString} (h : name.Fits) (h' : name'.Fits)
    (heq : nameArray name = nameArray name') : name = name' := by
  have hself : strncmpEq lsMapNameMax (nameArray name') (name'.bytes ++ [0]) = true :=
    (strncmpEq_nameArray h').mpr rfl
  rw [← heq, strncmpEq_nameArray h] at hself
  exact hself

/-- The entry {lit}`i` is this name with this shape. -/
def Registry.Records (g : Registry) (i : Nat) (name : CString) (d : LsMapDef) : Prop :=
  i < g.count ∧ g.names i = nameArray name ∧ g.shapes i = d

/-- A relocation of this name with this shape makes a new entry. -/
def Registry.Open (g : Registry) (name : CString) (d : LsMapDef) : Prop :=
  lsMapCheckDescriptor d = true ∧ g.count < lsMapMax ∧
    ∀ i < g.count, g.names i ≠ nameArray name

section Entries

variable {g : Registry} {name name' : CString} {d d' : LsMapDef} {i : Nat}

theorem Registry.Ok.matches (h : g.Ok) (hi : i < g.count) :
    strncmpEq lsMapNameMax (g.names i) (name.bytes ++ [0]) = true → g.names i = nameArray name := by
  obtain ⟨stored, hfits, hstored⟩ := h.named i hi
  rw [hstored, strncmpEq_nameArray hfits]
  rintro rfl
  rfl

theorem Registry.find_spec (h : g.find name = some i) :
    i < g.count ∧ strncmpEq lsMapNameMax (g.names i) (name.bytes ++ [0]) = true := by
  unfold Registry.find at h
  have hmatch := List.find?_some h
  exact ⟨List.mem_range.mp (List.mem_of_find?_eq_some h), hmatch⟩

/-- The loop over the names finds the entry of a name. -/
theorem Registry.Ok.find_eq_some (h : g.Ok) (hfits : name.Fits) :
    g.find name = some i ↔ i < g.count ∧ g.names i = nameArray name := by
  constructor
  · intro hfind
    obtain ⟨hi, hmatch⟩ := Registry.find_spec hfind
    exact ⟨hi, h.matches hi hmatch⟩
  · rintro ⟨hi, hname⟩
    have hmatch : strncmpEq lsMapNameMax (g.names i) (name.bytes ++ [0]) = true := by
      rw [hname, strncmpEq_nameArray hfits]
    cases hfind : g.find name with
    | none =>
        have hnone := List.find?_eq_none.mp hfind i (List.mem_range.mpr hi)
        exact absurd hmatch hnone
    | some j =>
        obtain ⟨hj, hmatch'⟩ := Registry.find_spec hfind
        have hname' := h.matches hj hmatch'
        rw [h.distinct j hj i hi (hname'.trans hname.symm)]

theorem Registry.Ok.find_eq_none (h : g.Ok) (hfits : name.Fits) :
    g.find name = none ↔ ∀ i < g.count, g.names i ≠ nameArray name := by
  rw [Option.eq_none_iff_forall_ne_some]
  constructor
  · intro hne i hi hname
    exact hne i ((h.find_eq_some hfits).mpr ⟨hi, hname⟩)
  · intro hne i hfind
    obtain ⟨hi, hname⟩ := (h.find_eq_some hfits).mp hfind
    exact hne i hi hname

theorem Registry.Ok.records_unique (h : g.Ok) {j : Nat} (hi : g.Records i name d)
    (hj : g.Records j name d') : i = j ∧ d = d' := by
  have hij := h.distinct i hi.1 j hj.1 (hi.2.1.trans hj.2.1.symm)
  subst hij
  exact ⟨rfl, hi.2.2.symm.trans hj.2.2⟩

theorem relocateMap_of_records (h : g.Ok) (hfits : name.Fits) (hi : g.Records i name d) :
    relocateMap g name d =
      { reference := mapReference g.generation i, registry := g, refused := false } := by
  have hfind := (h.find_eq_some hfits).mpr ⟨hi.1, hi.2.1⟩
  simp only [relocateMap, hfind, hi.2.2, if_pos]

theorem relocateMap_of_open (h : g.Ok) (hfits : name.Fits) (hopen : g.Open name d) :
    relocateMap g name d =
      { reference := mapReference g.generation g.count
        registry := g.enter name d
        refused := false } := by
  have hfind := (h.find_eq_none hfits).mpr hopen.2.2
  have hnot : ¬ (lsMapCheckDescriptor d = false ∨ g.count ≥ lsMapMax) := by
    have hlt := hopen.2.1
    rw [hopen.1]
    simp only [Bool.true_eq_false, false_or]
    omega
  simp only [relocateMap, hfind, if_neg hnot]

theorem relocateMap_of_neither (h : g.Ok) (hfits : name.Fits) (hno : ∀ i, ¬ g.Records i name d)
    (hclosed : ¬ g.Open name d) : relocateMap g name d = refuse g := by
  cases hfind : g.find name with
  | some i =>
      obtain ⟨hi, hname⟩ := (h.find_eq_some hfits).mp hfind
      have hshape : g.shapes i ≠ d := fun hd => hno i ⟨hi, hname, hd⟩
      simp only [relocateMap, hfind, if_neg hshape]
  | none =>
      have hnames := (h.find_eq_none hfits).mp hfind
      have hbad : lsMapCheckDescriptor d = false ∨ g.count ≥ lsMapMax := by
        by_contra hgood
        simp only [not_or, Bool.not_eq_false, ge_iff_le, not_le] at hgood
        exact hclosed ⟨hgood.1, hgood.2, hnames⟩
      simp only [relocateMap, hfind, if_pos hbad]

/-- How a relocation of a map ends. -/
theorem relocateMap_cases (h : g.Ok) (hfits : name.Fits) (d : LsMapDef) :
    (∃ i, g.Records i name d ∧ relocateMap g name d =
      { reference := mapReference g.generation i, registry := g, refused := false }) ∨
    (g.Open name d ∧ relocateMap g name d =
      { reference := mapReference g.generation g.count
        registry := g.enter name d
        refused := false }) ∨
    ((∀ i, ¬ g.Records i name d) ∧ ¬ g.Open name d ∧ relocateMap g name d = refuse g) := by
  by_cases hrec : ∃ i, g.Records i name d
  · obtain ⟨i, hi⟩ := hrec
    exact .inl ⟨i, hi, relocateMap_of_records h hfits hi⟩
  · have hno : ∀ i, ¬ g.Records i name d := fun i hi => hrec ⟨i, hi⟩
    by_cases hopen : g.Open name d
    · exact .inr (.inl ⟨hopen, relocateMap_of_open h hfits hopen⟩)
    · exact .inr (.inr ⟨hno, hopen, relocateMap_of_neither h hfits hno hopen⟩)

/-! ## A new entry -/

theorem Registry.records_enter :
    (g.enter name' d').Records i name d ↔
      g.Records i name d ∨ (i = g.count ∧ nameArray name' = nameArray name ∧ d' = d) := by
  simp only [Registry.Records, Registry.enter]
  by_cases hi : i = g.count
  · subst hi
    simp
  · simp only [Function.update_of_ne hi, hi, false_and, or_false]
    constructor
    · rintro ⟨hlt, hname, hd⟩
      exact ⟨by omega, hname, hd⟩
    · rintro ⟨hlt, hname, hd⟩
      exact ⟨by omega, hname, hd⟩

/-- What was closed stays closed. -/
theorem Registry.open_of_enter (h : (g.enter name' d').Open name d) : g.Open name d := by
  obtain ⟨hcheck, hcount, hnames⟩ := h
  simp only [Registry.enter] at hcount hnames
  refine ⟨hcheck, by omega, ?_⟩
  intro i hi
  have hname := hnames i (by omega)
  rwa [Function.update_of_ne (by omega)] at hname

theorem Registry.Ok.enter (h : g.Ok) (hfits : name.Fits) (hopen : g.Open name d) :
    (g.enter name d).Ok := by
  obtain ⟨hcheck, hcount, hnames⟩ := hopen
  have hlast : ∀ i, i < g.count + 1 → i ≠ g.count → i < g.count := by
    intro i hi hne
    omega
  refine ⟨hcount, h.generation_le, ?_, ?_, ?_⟩
  · intro i hi
    simp only [Registry.enter] at hi ⊢
    by_cases hne : i = g.count
    · subst hne
      exact ⟨name, hfits, by simp⟩
    · rw [Function.update_of_ne hne]
      exact h.named i (hlast i hi hne)
  · intro i hi j hj heq
    simp only [Registry.enter] at hi hj heq
    by_cases hi' : i = g.count
    · by_cases hj' : j = g.count
      · rw [hi', hj']
      · rw [hi', Function.update_self, Function.update_of_ne hj'] at heq
        exact absurd heq.symm (hnames j (hlast j hj hj'))
    · by_cases hj' : j = g.count
      · rw [hj', Function.update_self, Function.update_of_ne hi'] at heq
        exact absurd heq (hnames i (hlast i hi hi'))
      · rw [Function.update_of_ne hi', Function.update_of_ne hj'] at heq
        exact h.distinct i (hlast i hi hi') j (hlast j hj hj') heq
  · intro i hi
    simp only [Registry.enter] at hi ⊢
    by_cases hne : i = g.count
    · subst hne
      simpa using hcheck
    · rw [Function.update_of_ne hne]
      exact h.checked i (hlast i hi hne)

/-! ## Relocating again -/

/-- The relocation asks for a map of the registry. -/
def Relocation.AsksFor (r : Relocation) (name : CString) (d : LsMapDef) : Prop :=
  r.descriptor = some d ∧ r.symbolName = some name ∧ name.bytes ≠ [] ∧ name.Fits ∧
    d.type ≠ 2 ∧ name.bytes ≠ lsConfigMapName

/-- What a relocation asks for does not depend on the registry. -/
theorem lsMapReloc_cases (r : Relocation) :
    (∀ g, lsMapReloc g r = refuse g) ∨
    (isHandle r.handle = true ∧ r.symbolName.map CString.bytes = some lsConfigMapName ∧
      ∀ g, lsMapReloc g r = { reference := r.handle, registry := g, refused := false }) ∨
    (∃ name d, r.AsksFor name d ∧ ∀ g, lsMapReloc g r = relocateMap g name d) := by
  cases hd : r.descriptor with
  | none =>
      left
      intro g
      simp only [lsMapReloc, hd]
  | some d =>
      cases hname : r.symbolName with
      | none =>
          left
          intro g
          simp only [lsMapReloc, hd, hname]
      | some name =>
          by_cases hempty : name.bytes = []
          · left
            intro g
            simp only [lsMapReloc, hd, hname, if_pos hempty]
          by_cases hlong : strnlen name lsMapNameMax ≥ lsMapNameMax
          · left
            intro g
            simp only [lsMapReloc, hd, hname, if_neg hempty, if_pos hlong]
          by_cases hconfig : d.type = 2 ∨ name.bytes = lsConfigMapName
          · cases hdeclared : configDeclared name d r.handle with
            | true =>
                right
                left
                have hparts := hdeclared
                simp only [configDeclared, Bool.not_eq_true', Bool.or_eq_false_iff,
                  bne_eq_false_iff_eq, Bool.not_eq_false'] at hparts
                refine ⟨hparts.2, by simp [hparts.1], ?_⟩
                intro g
                simp only [lsMapReloc, hd, hname, if_neg hempty, if_neg hlong, if_pos hconfig,
                  hdeclared, if_true]
            | false =>
                left
                intro g
                simp only [lsMapReloc, hd, hname, if_neg hempty, if_neg hlong, if_pos hconfig,
                  hdeclared, Bool.false_eq_true, if_false]
          · right
            right
            have hfits : name.Fits := by
              simp only [strnlen, ge_iff_le, not_le] at hlong
              simp only [CString.Fits]
              omega
            rw [not_or] at hconfig
            refine ⟨name, d, ⟨hd, hname, hempty, hfits, hconfig.1, hconfig.2⟩, ?_⟩
            intro g
            simp only [lsMapReloc, hd, hname, if_neg hempty, if_neg hlong, hconfig.1, hconfig.2,
              or_self, if_false]

theorem lsMapReloc_of_asksFor {r : Relocation} (h : r.AsksFor name d) :
    lsMapReloc g r = relocateMap g name d := by
  obtain ⟨hd, hname, hempty, hfits, htype, hconfig⟩ := h
  have hlong : ¬ strnlen name lsMapNameMax ≥ lsMapNameMax := by
    simp only [CString.Fits] at hfits
    simp only [strnlen]
    omega
  simp only [lsMapReloc, hd, hname, if_neg hempty, if_neg hlong, htype, hconfig, or_self, if_false]

/-- The relocation makes a new entry. -/
def Registry.Enters (g : Registry) (r : Relocation) : Prop :=
  ∃ name d, r.AsksFor name d ∧ g.find name = none ∧ lsMapCheckDescriptor d = true ∧
    g.count < lsMapMax

/-- A relocation leaves the registry alone, or makes one entry. -/
theorem lsMapReloc_registry (g : Registry) (r : Relocation) :
    (lsMapReloc g r).registry = g ∧ ¬ g.Enters r ∨
      (lsMapReloc g r).registry.count = g.count + 1 ∧ g.Enters r := by
  by_cases henters : g.Enters r
  · refine .inr ⟨?_, henters⟩
    obtain ⟨name, d, hasks, hfind, hcheck, hcount⟩ := henters
    have hgood : ¬ (lsMapCheckDescriptor d = false ∨ g.count ≥ lsMapMax) := by
      rw [hcheck, not_or]
      exact ⟨Bool.noConfusion, Nat.not_le.mpr hcount⟩
    rw [lsMapReloc_of_asksFor hasks]
    simp only [relocateMap, hfind, if_neg hgood]
    rfl
  · refine .inl ⟨?_, henters⟩
    rcases lsMapReloc_cases r with hr | ⟨_, _, hr⟩ | ⟨name, d, hasks, hr⟩
    · rw [hr]
      rfl
    · rw [hr]
    · rw [hr]
      unfold relocateMap
      split
      · split
        · rfl
        · rfl
      · rename_i hfind
        split
        · rfl
        · rename_i hgood
          simp only [not_or, Bool.not_eq_false, ge_iff_le, not_le] at hgood
          exact absurd ⟨name, d, hasks, hfind, hgood.1, hgood.2⟩ henters

/-- Of a handle only its bit counts. -/
theorem lsMapReloc_handle (g : Registry) (r : Relocation) {handle handle' : UInt64}
    (h : isHandle handle = isHandle handle') :
    (lsMapReloc g { r with handle := handle }).registry =
        (lsMapReloc g { r with handle := handle' }).registry ∧
      (lsMapReloc g { r with handle := handle }).refused =
        (lsMapReloc g { r with handle := handle' }).refused := by
  have hdescriptor : ∀ x, Relocation.descriptor { r with handle := x } = r.descriptor := fun _ => rfl
  have hdeclared : ∀ name d, configDeclared name d handle = configDeclared name d handle' := by
    intro name d
    simp only [configDeclared, h]
  simp only [lsMapReloc, hdescriptor, hdeclared]
  cases r.descriptor with
  | none => exact ⟨rfl, rfl⟩
  | some d =>
      cases r.symbolName with
      | none => exact ⟨rfl, rfl⟩
      | some name =>
          dsimp only
          split
          · exact ⟨rfl, rfl⟩
          split
          · exact ⟨rfl, rfl⟩
          split
          · cases configDeclared name d handle' with
            | false => exact ⟨rfl, rfl⟩
            | true => exact ⟨rfl, rfl⟩
          · exact ⟨rfl, rfl⟩

/-- A missing, empty or over-long name is refused. -/
theorem lsMapReloc_of_badName {r : Relocation}
    (h : ∀ name, r.symbolName = some name → name.bytes = [] ∨ ¬ name.Fits) :
    lsMapReloc g r = refuse g := by
  rcases lsMapReloc_cases r with hr | ⟨_, hname, _⟩ | ⟨name, d, hasks, _⟩
  · exact hr g
  · obtain ⟨name, hsymbol, hbytes⟩ := Option.map_eq_some_iff.mp hname
    rcases h name hsymbol with hempty | hlong
    · rw [hempty] at hbytes
      exact absurd hbytes (by decide)
    · have hshort : name.Fits := by
        unfold CString.Fits
        rw [hbytes]
        decide
      exact absurd hshort hlong
  · obtain ⟨_, hsymbol, hne, hfits, _⟩ := hasks
    rcases h name hsymbol with hempty | hlong
    · exact absurd hempty hne
    · exact absurd hfits hlong

theorem Registry.Ok.reloc (h : g.Ok) (r : Relocation) : (lsMapReloc g r).registry.Ok := by
  rcases lsMapReloc_cases r with hr | ⟨_, _, hr⟩ | ⟨name, d, hasks, hr⟩
  · rw [hr]
    exact h
  · rw [hr]
    exact h
  · have hfits := hasks.2.2.2.1
    rw [hr]
    rcases relocateMap_cases h hfits d with ⟨i, _, heq⟩ | ⟨hopen, heq⟩ | ⟨_, _, heq⟩
    · rw [heq]
      exact h
    · rw [heq]
      exact h.enter hfits hopen
    · rw [heq]
      exact h

/-- The registry would answer this way again, and stay as it is. -/
def Registry.Answers (g : Registry) (r : Relocation) (reference : UInt64) (refused : Bool) :
    Prop :=
  lsMapReloc g r = { reference := reference, registry := g, refused := refused }

/-- Relocating a second time gives the same answer and changes nothing. -/
theorem lsMapReloc_replay (h : g.Ok) (r : Relocation) :
    (lsMapReloc g r).registry.Answers r (lsMapReloc g r).reference (lsMapReloc g r).refused := by
  unfold Registry.Answers
  rcases lsMapReloc_cases r with hr | ⟨_, _, hr⟩ | ⟨name, d, hasks, hr⟩
  · simp only [hr, refuse]
  · simp only [hr]
  · have hfits := hasks.2.2.2.1
    rw [hr, hr]
    rcases relocateMap_cases h hfits d with ⟨i, _, heq⟩ | ⟨hopen, heq⟩ | ⟨_, _, heq⟩
    · rw [heq]
      exact heq
    · rw [heq]
      have hrecords : (g.enter name d).Records g.count name d :=
        Registry.records_enter.mpr (.inr ⟨rfl, rfl, rfl⟩)
      exact relocateMap_of_records (h.enter hfits hopen) hfits hrecords
    · rw [heq]
      exact heq

/-- An answer stands whatever is entered after it. -/
theorem Registry.Answers.enter {r : Relocation} {reference : UInt64} {refused : Bool}
    (h : g.Ok) (hfits' : name'.Fits) (hopen' : g.Open name' d')
    (hanswers : g.Answers r reference refused) :
    (g.enter name' d').Answers r reference refused := by
  unfold Registry.Answers at hanswers ⊢
  rcases lsMapReloc_cases r with hr | ⟨_, _, hr⟩ | ⟨name, d, hasks, hr⟩
  · rw [hr, refuse, Relocated.mk.injEq] at hanswers
    rw [hr, refuse, hanswers.1, hanswers.2.2]
  · rw [hr, Relocated.mk.injEq] at hanswers
    rw [hr, hanswers.1, hanswers.2.2]
  · have hfits := hasks.2.2.2.1
    have hok' := h.enter hfits' hopen'
    rw [hr] at hanswers ⊢
    rcases relocateMap_cases h hfits d with ⟨i, hi, heq⟩ | ⟨hopen, heq⟩ | ⟨hno, hclosed, heq⟩
    · rw [heq, Relocated.mk.injEq] at hanswers
      rw [relocateMap_of_records hok' hfits (Registry.records_enter.mpr (.inl hi)), ← hanswers.1,
        ← hanswers.2.2]
      rfl
    · -- a registry that answers does not change
      rw [heq, Relocated.mk.injEq] at hanswers
      have hcount := congrArg Registry.count hanswers.2.1
      simp only [Registry.enter] at hcount
      omega
    · rw [heq, refuse, Relocated.mk.injEq] at hanswers
      rw [relocateMap_of_neither hok' hfits, refuse, hanswers.1, hanswers.2.2]
      · intro i hi
        rcases Registry.records_enter.mp hi with hold | ⟨_, hname, hd⟩
        · exact hno i hold
        · subst hd
          rw [Registry.Open, hname] at hopen'
          exact hclosed hopen'
      · intro hopen
        exact hclosed (Registry.open_of_enter hopen)

theorem Registry.Answers.reloc {r r' : Relocation} {reference : UInt64} {refused : Bool}
    (h : g.Ok) (hanswers : g.Answers r reference refused) :
    (lsMapReloc g r').registry.Answers r reference refused := by
  rcases lsMapReloc_cases r' with hr | ⟨_, _, hr⟩ | ⟨name, d, hasks, hr⟩
  · rw [hr]
    exact hanswers
  · rw [hr]
    exact hanswers
  · have hfits := hasks.2.2.2.1
    rw [hr]
    rcases relocateMap_cases h hfits d with ⟨i, _, heq⟩ | ⟨hopen, heq⟩ | ⟨_, _, heq⟩
    · rw [heq]
      exact hanswers
    · rw [heq]
      exact hanswers.enter h hfits hopen
    · rw [heq]
      exact hanswers

theorem lsMapReloc_generation (g : Registry) (r : Relocation) :
    (lsMapReloc g r).registry.generation = g.generation := by
  rcases lsMapReloc_cases r with hr | ⟨_, _, hr⟩ | ⟨name, d, _, hr⟩
  · rw [hr]
    rfl
  · rw [hr]
  · rw [hr]
    unfold relocateMap
    split
    · split <;> rfl
    · split <;> rfl

/-- The answer to a relocation of the configuration view that is not refused is
the handle it was made with. -/
theorem Registry.Answers.config {r : Relocation} {reference : UInt64}
    (hanswers : g.Answers r reference false)
    (hname : r.symbolName.map CString.bytes = some lsConfigMapName) :
    reference = r.handle ∧ isHandle reference = true := by
  unfold Registry.Answers at hanswers
  rcases lsMapReloc_cases r with hr | ⟨hbit, _, hr⟩ | ⟨name, d, hasks, hr⟩
  · rw [hr, refuse, Relocated.mk.injEq] at hanswers
    exact absurd hanswers.2.2 (by simp)
  · rw [hr, Relocated.mk.injEq] at hanswers
    rw [← hanswers.1]
    exact ⟨rfl, hbit⟩
  · obtain ⟨_, hsymbol, _, _, _, hne⟩ := hasks
    rw [hsymbol, Option.map_some, Option.some.injEq] at hname
    exact absurd hname hne

/-- The answer to any other relocation that is not refused is the reference of
an entry. -/
theorem Registry.Answers.records {r : Relocation} {reference : UInt64} (h : g.Ok)
    (hanswers : g.Answers r reference false)
    (hname : r.symbolName.map CString.bytes ≠ some lsConfigMapName) :
    ∃ i name d, r.AsksFor name d ∧ g.Records i name d ∧
      reference = mapReference g.generation i := by
  unfold Registry.Answers at hanswers
  rcases lsMapReloc_cases r with hr | ⟨_, hconfig, _⟩ | ⟨name, d, hasks, hr⟩
  · rw [hr, refuse, Relocated.mk.injEq] at hanswers
    exact absurd hanswers.2.2 (by simp)
  · exact absurd hconfig hname
  · rw [hr] at hanswers
    rcases relocateMap_cases h hasks.2.2.2.1 d with ⟨i, hi, heq⟩ | ⟨_, heq⟩ | ⟨_, _, heq⟩
    · rw [heq, Relocated.mk.injEq] at hanswers
      exact ⟨i, name, d, hasks, hi, hanswers.1.symm⟩
    · rw [heq, Relocated.mk.injEq] at hanswers
      have hcount := congrArg Registry.count hanswers.2.1
      simp only [Registry.enter] at hcount
      omega
    · rw [heq, refuse, Relocated.mk.injEq] at hanswers
      exact absurd hanswers.2.2 (by simp)

/-- A relocation that is refused, and only that, returns the index no registry
has. -/
theorem lsMapReloc_refused_iff (h : g.Ok) (r : Relocation) :
    (lsMapReloc g r).refused = true ↔ (lsMapReloc g r).reference = refusedReference := by
  rcases lsMapReloc_cases r with hr | ⟨hbit, _, hr⟩ | ⟨name, d, hasks, hr⟩
  · simp [hr, refuse]
  · rw [hr]
    simp only [Bool.false_eq_true, false_iff]
    intro heq
    rw [heq] at hbit
    exact absurd hbit (by decide)
  · have hle := h.generation_le
    rw [hr]
    rcases relocateMap_cases h hasks.2.2.2.1 d with ⟨i, hi, heq⟩ | ⟨hopen, heq⟩ | ⟨_, _, heq⟩
    · rw [heq]
      simp only [Bool.false_eq_true, false_iff]
      exact mapReference_ne_refused hle (lt_of_lt_of_le hi.1 h.count_le)
    · rw [heq]
      simp only [Bool.false_eq_true, false_iff]
      exact mapReference_ne_refused hle hopen.2.1
    · simp [heq, refuse]

end Entries

end Map
end LiveSurface
