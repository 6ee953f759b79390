import LiveSurface.Library.Struct
import LiveSurface.Probe.Layout

/-!
# The program of a generated probe

The probe declares a record with one member for each field behind a word {lit}`present`, sets the
whole record to zero, fills in what it can and hands the record out.  A bit of {lit}`present` says
that a parameter was captured.

Main results:

- Theorem {lit}`sizeof_recMembers`: the size of the record, with padding.
- Theorem {lit}`run_body`: what stands in the record after the fields were filled in.
- Theorem {lit}`record_well_formed_iff`: the record is well formed exactly if the names of its
  members are.
- Theorem {lit}`present_collides`: a parameter that is called {lit}`present`.
-/

namespace LiveSurface
namespace Probe

open Struct

/-! ## The generated program -/

/-- {lit}`__u64 name;` or {lit}`char name[n];`. -/
def Field.member (f : Field) : Member :=
  if Register f.kind then ⟨f.name, 8, 8⟩ else ⟨f.name, f.bytes, 1⟩

/-- The members of {lit}`struct rec`. -/
def recMembers (fields : List Field) : List Member := ⟨"present", 4, 4⟩ :: fields.map Field.member

/-- The statements that a probe is made of. -/
inductive Stmt where
  /-- {lit}`((char *)&r)[i] = 0` for every byte. -/
  | zero
  /-- {lit}`r.present = 0`. -/
  | clear
  /-- {lit}`r.name = c->arg[i]`. -/
  | load (name : String) (arg : Nat)
  /-- {lit}`r.present |= 1u << i`. -/
  | mark (bit : Nat)
  /-- {lit}`if (bpf_probe_read(r.name, sizeof r.name, c->arg[i]) == 0) r.present |= 1u << i`. -/
  | read (name : String) (arg : Nat)
  /-- {lit}`bpf_perf_event_output(c, &map, 0, &r, sizeof r)`. -/
  | output

def Field.body (f : Field) : List Stmt :=
  if Register f.kind then [.load f.name f.index, .mark f.index] else [.read f.name f.index]

/-- {lit}`map_name`, for a digest of the name of the function. -/
def mapName (digest : String → String) (fn : String) : String := "probe_" ++ digest fn ++ "_out"

structure Generated where
  map : String
  declaresRead : Bool
  members : List Member
  bound : Nat
  attach : String
  body : List Stmt

/-- {lit}`generate`. -/
def generate (digest : String → String) (fn : String) (fields : List Field) : Generated where
  map := mapName digest fn
  declaresRead := fields.any fun f => Reads f.kind
  members := recMembers fields
  bound := ctxMax
  attach := "fentry/" ++ fn
  body := [.zero, .clear] ++ fields.flatMap Field.body ++ [.output]

/-- Names that the file itself defines away. -/
def macros : List String := ["BPF_MAP_TYPE_HASH", "BPF_MAP_TYPE_PERF_EVENT_ARRAY"]

/-! ## Running it -/

def lsProbeReadMax : Nat := 256

/-- What {lit}`ls_h_probe_read` refuses. -/
def Refused (readable : Nat → Nat → Bool) (dst size src : Nat) : Prop :=
  dst = 0 ∨ src = 0 ∨ size = 0 ∨ size > lsProbeReadMax ∨ readable src size = false

instance (readable : Nat → Nat → Bool) (dst size src : Nat) : Decidable (Refused readable dst size src) :=
  inferInstanceAs (Decidable (_ ∨ _))

/-- {lit}`ls_h_probe_read`. -/
def lsHProbeRead (readable : Nat → Nat → Bool) (m : Memory) (dst size src : Nat) :
    Memory × UInt64 :=
  if Refused readable dst size src then (m, -1) else (m.store dst (m.load src size), 0)

/-- A call of the probed function: where the record is, the registers, and which memory can be
read. -/
structure Call where
  base : Nat
  base_pos : 0 < base
  arg : Vector UInt64 5
  readable : Nat → Nat → Bool

namespace Call

variable (c : Call) (ms : List Member)

/-- {lit}`c->arg[i]`. -/
def argument (i : Nat) : UInt64 := (c.arg[i]?).getD 0

/-- The address of a member. -/
def addr (name : String) : Nat := c.base + offset ms name

def present (m : Memory) : Nat := ofLittleEndian (m.load (c.addr ms "present") 4)

def setPresent (m : Memory) (v : Nat) : Memory := m.store (c.addr ms "present") (littleEndian 4 v)

def setBit (m : Memory) (i : Nat) : Memory := c.setPresent ms m (c.present ms m ||| 1 <<< i)

/-- The memory, and what was handed out. -/
structure Run where
  mem : Memory
  output : List (List UInt8)

def exec (r : Run) : Stmt → Run
  | .zero => { r with mem := r.mem.store c.base (List.replicate (sizeof ms) 0) }
  | .clear => { r with mem := c.setPresent ms r.mem 0 }
  | .load name i =>
      { r with mem := r.mem.store (c.addr ms name) (littleEndian 8 (c.argument i).toNat) }
  | .mark i => { r with mem := c.setBit ms r.mem i }
  | .read name i =>
      let (m, ret) := lsHProbeRead c.readable r.mem (c.addr ms name) (sizeOfMember ms name)
        (c.argument i).toNat
      { r with mem := if ret = 0 then c.setBit ms m i else m }
  | .output => { r with output := r.output ++ [r.mem.load c.base (sizeof ms)] }

def run (g : Generated) (m : Memory) : Run := g.body.foldl (c.exec g.members) ⟨m, []⟩

/-- A field is captured: it is a register, or its read succeeds. -/
def Captured (f : Field) : Prop :=
  Register f.kind ∨ ¬Refused c.readable (c.addr ms f.name) f.bytes (c.argument f.index).toNat

end Call

/-! ## The size of the record -/

section Size

variable {fs : List Field} {off : Nat}

@[simp]
theorem name_member (f : Field) : f.member.name = f.name := by
  unfold Field.member
  split <;> rfl

theorem endOf_registers (hfs : ∀ f ∈ fs, Register f.kind) (hoff : 8 ∣ off) :
    endOf off (fs.map Field.member) = off + 8 * fs.length := by
  induction fs generalizing off with
  | nil => rfl
  | cons f fs ih =>
      rw [List.forall_mem_cons] at hfs
      have hmember : f.member = ⟨f.name, 8, 8⟩ := if_pos hfs.1
      rw [List.map_cons, hmember, endOf, alignUp_of_dvd (by decide) hoff,
        ih hfs.2 ((Nat.dvd_add_right hoff).mpr (Nat.dvd_refl 8)), List.length_cons]
      omega

theorem endOf_arrays {w : Nat} (hfs : ∀ f ∈ fs, ¬Register f.kind ∧ f.bytes = w) :
    endOf off (fs.map Field.member) = off + w * fs.length := by
  induction fs generalizing off with
  | nil => rfl
  | cons f fs ih =>
      rw [List.forall_mem_cons] at hfs
      have hmember : f.member = ⟨f.name, w, 1⟩ := by
        rw [← hfs.1.2]
        exact if_neg hfs.1.1
      rw [List.map_cons, hmember, endOf, alignUp_of_dvd (by decide) (Nat.one_dvd off), ih hfs.2,
        List.length_cons, Nat.mul_succ]
      dsimp only
      omega

theorem alignment_registers (hfs : ∀ f ∈ fs, Register f.kind) (hne : fs ≠ []) {a : Nat}
    (ha : a ≤ 8) : ((fs.map Field.member).map Member.align).foldr max a = 8 := by
  induction fs with
  | nil => exact absurd rfl hne
  | cons f fs ih =>
      rw [List.forall_mem_cons] at hfs
      have hmember : f.member = ⟨f.name, 8, 8⟩ := if_pos hfs.1
      rw [List.map_cons, List.map_cons, List.foldr_cons, hmember]
      by_cases hnil : fs = []
      · rw [hnil]
        exact Nat.max_eq_left ha
      · rw [ih hfs.2 hnil]
        rfl

theorem alignment_arrays (hfs : ∀ f ∈ fs, ¬Register f.kind) :
    ((fs.map Field.member).map Member.align).foldr max 1 = 1 := by
  induction fs with
  | nil => rfl
  | cons f fs ih =>
      rw [List.forall_mem_cons] at hfs
      have hmember : f.member = ⟨f.name, f.bytes, 1⟩ := if_neg hfs.1
      rw [List.map_cons, List.map_cons, List.foldr_cons, ih hfs.2, hmember]
      rfl

end Size

section Record

variable (params : List Loaded) (noProbeRead : Bool)

/-- The fields of a record, in three groups. -/
theorem fields_groups :
    (∀ f ∈ (reachOf params 0).map (Numbered.field 8), Register f.kind) ∧
    (∀ f ∈ (texts params noProbeRead).map (Numbered.field 24), ¬Register f.kind ∧ f.bytes = 24) ∧
    ∀ f ∈ (heads params noProbeRead).map (Numbered.field 16), ¬Register f.kind ∧ f.bytes = 16 := by
  refine ⟨?_, ?_, ?_⟩
  · rintro f hf
    obtain ⟨a, ha, rfl⟩ := List.mem_map.mp hf
    exact (order_eq_zero_iff a.kind).mp (kind_of_reachOf params ha)
  · rintro f hf
    obtain ⟨a, ha, rfl⟩ := List.mem_map.mp hf
    have hkind := kind_of_reachOf params (List.mem_of_mem_take ha)
    refine ⟨fun hreg => ?_, rfl⟩
    rw [(order_eq_zero_iff a.kind).mpr hreg] at hkind
    contradiction
  · rintro f hf
    obtain ⟨a, ha, rfl⟩ := List.mem_map.mp hf
    have hkind := kind_of_reachOf params (List.mem_of_mem_take ha)
    refine ⟨fun hreg => ?_, rfl⟩
    rw [(order_eq_zero_iff a.kind).mpr hreg] at hkind
    contradiction

/-- The size of the record: the registers are moved behind four bytes of padding. -/
theorem sizeof_recMembers : sizeof (recMembers (layout params noProbeRead).fields) =
    (layout params noProbeRead).used + if reachOf params 0 = [] then 0 else 4 := by
  obtain ⟨hregs, htexts, hheads⟩ := fields_groups params noProbeRead
  have hlayout := layout_eq params noProbeRead
  rw [sizeof, recMembers, alignment, hlayout.1, hlayout.2.2, endOf, List.map_append,
    List.map_append, endOf_append, endOf_append, endOf_arrays hheads, endOf_arrays htexts,
    List.map_cons, List.foldr_cons, List.map_append, List.map_append, List.foldr_append,
    List.foldr_append, alignment_arrays (fun f hf => (hheads f hf).1),
    alignment_arrays (fun f hf => (htexts f hf).1), List.length_map, List.length_map]
  by_cases hnil : reachOf params 0 = []
  · rw [if_pos hnil, hnil]
    change alignUp (4 + 24 * _ + 16 * _) 4 = 4 + 8 * 0 + 24 * _ + 16 * _ + 0
    rw [alignUp_of_dvd (by decide) (by omega)]
    omega
  · rw [if_neg hnil, alignment_registers hregs (by simpa using hnil) (by decide)]
    have hend : endOf (alignUp 0 4 + 4) (((reachOf params 0).map (Numbered.field 8)).map Field.member) =
        8 + 8 * (reachOf params 0).length := by
      cases hcons : reachOf params 0 with
      | nil => exact absurd hcons hnil
      | cons a as =>
          rw [hcons, List.map_cons, List.forall_mem_cons] at hregs
          have hmember : (a.field 8).member = ⟨a.name, 8, 8⟩ := if_pos hregs.1
          have hstart : alignUp (alignUp 0 4 + 4) 8 + 8 = 16 := by decide
          rw [List.map_cons, List.map_cons, hmember, endOf]
          dsimp only
          rw [hstart, endOf_registers hregs.2 (by decide), List.length_map, List.length_cons]
          omega
    rw [hend]
    change alignUp _ 8 = _
    rw [alignUp_of_dvd (by decide) (by omega)]
    omega

/-- The static assertion of the generated program holds. -/
theorem sizeof_le : sizeof (recMembers (layout params noProbeRead).fields) ≤ ctxMax := by
  have hused := used_le params noProbeRead
  have hlayout := (layout_eq params noProbeRead).2.2
  rw [sizeof_recMembers, ctxMax]
  split <;> omega

/-- What is known of a field. -/
theorem field_facts {f : Field} (hf : f ∈ (layout params noProbeRead).fields) :
    f.index < 5 ∧ f.member.size = f.bytes ∧ 0 < f.member.align := by
  obtain ⟨hkept, p, -, -, hkind, -, hwant⟩ := (mem_fields_iff params noProbeRead).mp hf
  refine ⟨hkept.1, ?_⟩
  rw [← hkind] at hwant
  by_cases hreg : Register f.kind
  · have hmember : f.member = ⟨f.name, 8, 8⟩ := if_pos hreg
    have height := ((want_of_order f.kind).1 ((order_eq_zero_iff f.kind).mpr hreg)).1
    rw [hwant, Option.some.injEq] at height
    rw [hmember, height]
    exact ⟨rfl, Nat.succ_pos 7⟩
  · have hmember : f.member = ⟨f.name, f.bytes, 1⟩ := if_neg hreg
    rw [hmember]
    exact ⟨rfl, Nat.one_pos⟩

end Record

/-! ## Filling in the record -/

section Run

variable {c : Call} {fs : List Field}

/-- The members have different names, and every field is of the size of its member. -/
structure Declared (fs : List Field) : Prop where
  names : ((recMembers fs).map Member.name).Nodup
  index : ∀ f ∈ fs, f.index < 5
  size : ∀ f ∈ fs, f.member.size = f.bytes
  align : ∀ f ∈ fs, 0 < f.member.align

namespace Declared

variable (hd : Declared fs)

include hd

theorem aligned : Aligned (recMembers fs) := by
  intro m hm
  rcases List.mem_cons.mp hm with rfl | hm
  · exact Nat.succ_pos 3
  · obtain ⟨f, hf, rfl⟩ := List.mem_map.mp hm
    exact hd.align f hf

theorem mem_place {f : Field} (hf : f ∈ fs) :
    (f.member, offset (recMembers fs) f.name) ∈ place 0 (recMembers fs) := by
  have hplace := mem_place_offset hd.names
    (List.mem_cons_of_mem ⟨"present", 4, 4⟩ (List.mem_map_of_mem (f := Field.member) hf))
  rwa [name_member] at hplace

theorem mem_place_present :
    (⟨"present", 4, 4⟩, offset (recMembers fs) "present") ∈ place 0 (recMembers fs) :=
  mem_place_offset hd.names List.mem_cons_self

/-- No field is called {lit}`present`. -/
theorem name_ne_present {f : Field} (hf : f ∈ fs) : f.name ≠ "present" := by
  have hnodup := hd.names
  rw [recMembers, List.map_cons, List.nodup_cons] at hnodup
  intro hname
  refine hnodup.1 ?_
  have hmem := List.mem_map_of_mem (f := Member.name) (List.mem_map_of_mem (f := Field.member) hf)
  rwa [name_member, hname] at hmem

theorem eq_of_name {f g : Field} (hf : f ∈ fs) (hg : g ∈ fs) (h : f.name = g.name) : f = g := by
  have hnodup := hd.names
  rw [recMembers, List.map_cons, List.nodup_cons, List.map_map] at hnodup
  refine List.inj_on_of_nodup_map hnodup.2 hf hg ?_
  rw [Function.comp_apply, Function.comp_apply, name_member, name_member, h]

/-- Two fields do not overlap. -/
theorem apart {f g : Field} (hf : f ∈ fs) (hg : g ∈ fs) (h : f ≠ g) :
    c.addr (recMembers fs) g.name + g.bytes ≤ c.addr (recMembers fs) f.name ∨
      c.addr (recMembers fs) f.name + f.bytes ≤ c.addr (recMembers fs) g.name := by
  have hne : f.member.name ≠ g.member.name := by
    rw [name_member, name_member]
    exact fun hname => h (hd.eq_of_name hf hg hname)
  have hplace := place_disjoint hd.aligned (hd.mem_place hf) (hd.mem_place hg) hne
  rw [hd.size f hf, hd.size g hg] at hplace
  rw [Call.addr, Call.addr]
  omega

/-- No field overlaps {lit}`present`. -/
theorem apart_present {f : Field} (hf : f ∈ fs) :
    c.addr (recMembers fs) f.name + f.bytes ≤ c.addr (recMembers fs) "present" ∨
      c.addr (recMembers fs) "present" + 4 ≤ c.addr (recMembers fs) f.name := by
  have hne : f.member.name ≠ "present" := by
    rw [name_member]
    exact hd.name_ne_present hf
  have hplace := place_disjoint hd.aligned (hd.mem_place hf) hd.mem_place_present hne
  rw [hd.size f hf] at hplace
  dsimp only at hplace
  rw [Call.addr, Call.addr]
  omega

end Declared

/-- Some of the fields are done: the bits say which of them were captured, and all others are
zero. -/
structure Progress (c : Call) (fs ready : List Field) (m : Memory) : Prop where
  present : ∀ i, (c.present (recMembers fs) m).testBit i = true ↔
    ∃ f ∈ ready, f.index = i ∧ c.Captured (recMembers fs) f
  zero : ∀ f ∈ fs, ¬(f ∈ ready ∧ c.Captured (recMembers fs) f) →
    m.load (c.addr (recMembers fs) f.name) f.bytes = List.replicate f.bytes 0

/-- A bit is set and the others stay. -/
theorem present_setBit (ms : List Member) (m : Memory) {i : Nat} (hi : i < 5) :
    c.present ms (c.setBit ms m i) = c.present ms m ||| 1 <<< i := by
  have hlow : c.present ms m < 2 ^ 32 := by
    have hlt := ofLittleEndian_lt (m.load (c.addr ms "present") 4)
    rw [Memory.length_load] at hlt
    exact hlt
  have hbit : 1 <<< i < 2 ^ 32 := by
    rw [Nat.one_shiftLeft]
    exact Nat.pow_lt_pow_right (by decide) (by omega)
  have hload := Memory.load_store_self m (c.addr ms "present")
    (littleEndian 4 (c.present ms m ||| 1 <<< i))
  rw [length_littleEndian] at hload
  rw [Call.setBit, Call.setPresent, Call.present, hload]
  exact ofLittleEndian_littleEndian_of_lt (Nat.or_lt_two_pow hlow hbit)

/-- A field that is not captured stays as it is. -/
theorem Progress.skip {ready : List Field} {m : Memory} {f : Field}
    (h : Progress c fs ready m) (hf : ¬c.Captured (recMembers fs) f) :
    Progress c fs (ready ++ [f]) m := by
  constructor
  · intro i
    rw [h.present i]
    constructor
    · rintro ⟨g, hg, hcaptured⟩
      exact ⟨g, List.mem_append_left _ hg, hcaptured⟩
    · rintro ⟨g, hg, hindex, hcaptured⟩
      rcases List.mem_append.mp hg with hg | hg
      · exact ⟨g, hg, hindex, hcaptured⟩
      · rw [List.mem_singleton.mp hg] at hcaptured
        exact absurd hcaptured hf
  · intro g hg hnot
    refine h.zero g hg ?_
    rintro ⟨hready, hcaptured⟩
    exact hnot ⟨List.mem_append_left _ hready, hcaptured⟩

variable (hd : Declared fs) {ready : List Field} {m : Memory} {f : Field}

include hd

/-- A field is filled in and its bit is set. -/
theorem Progress.capture (h : Progress c fs ready m) (hmem : f ∈ fs)
    (hf : c.Captured (recMembers fs) f) {bs : List UInt8} (hlen : bs.length = f.bytes) :
    Progress c fs (ready ++ [f]) (c.setBit (recMembers fs)
      (m.store (c.addr (recMembers fs) f.name) bs) f.index) := by
  have hpresent : c.present (recMembers fs) (m.store (c.addr (recMembers fs) f.name) bs) =
      c.present (recMembers fs) m := by
    have hapart := hd.apart_present (c := c) hmem
    rw [Call.present, Call.present, Memory.load_store_of_disjoint (by omega)]
  constructor
  · intro i
    rw [present_setBit _ _ (hd.index f hmem), hpresent, Nat.testBit_or, Nat.one_shiftLeft,
      Nat.testBit_two_pow, Bool.or_eq_true, h.present i, decide_eq_true_iff]
    constructor
    · rintro (⟨g, hg, hcaptured⟩ | rfl)
      · exact ⟨g, List.mem_append_left _ hg, hcaptured⟩
      · exact ⟨f, List.mem_append_right _ (List.mem_singleton_self f), rfl, hf⟩
    · rintro ⟨g, hg, hindex, hcaptured⟩
      rcases List.mem_append.mp hg with hg | hg
      · exact Or.inl ⟨g, hg, hindex, hcaptured⟩
      · rw [List.mem_singleton.mp hg] at hindex
        exact Or.inr hindex
  · intro g hg hnot
    have hne : f ≠ g := by
      rintro rfl
      exact hnot ⟨List.mem_append_right _ (List.mem_singleton_self f), hf⟩
    have hapart := hd.apart (c := c) hmem hg hne
    have hbits := hd.apart_present (c := c) hg
    rw [Call.setBit, Call.setPresent,
      Memory.load_store_of_disjoint (by rw [length_littleEndian]; omega),
      Memory.load_store_of_disjoint (by omega)]
    refine h.zero g hg ?_
    rintro ⟨hready, hcaptured⟩
    exact hnot ⟨List.mem_append_left _ hready, hcaptured⟩

/-- The statements of one field. -/
theorem Progress.field {r : Call.Run} (h : Progress c fs ready r.mem) (hmem : f ∈ fs) :
    Progress c fs (ready ++ [f]) (f.body.foldl (c.exec (recMembers fs)) r).mem ∧
      (f.body.foldl (c.exec (recMembers fs)) r).output = r.output := by
  have hsize := hd.size f hmem
  by_cases hreg : Register f.kind
  · have hbody : f.body = [.load f.name f.index, .mark f.index] := if_pos hreg
    have hmember : f.member = ⟨f.name, 8, 8⟩ := if_pos hreg
    rw [hmember] at hsize
    rw [hbody]
    refine ⟨h.capture hd hmem (Or.inl hreg) ?_, rfl⟩
    rw [length_littleEndian]
    exact hsize
  · have hbody : f.body = [.read f.name f.index] := if_neg hreg
    have hread : sizeOfMember (recMembers fs) f.name = f.bytes := by
      have hname := sizeOfMember_eq hd.names
        (List.mem_cons_of_mem ⟨"present", 4, 4⟩ (List.mem_map_of_mem (f := Field.member) hmem))
      rwa [name_member, hsize] at hname
    rw [hbody, List.foldl_cons, List.foldl_nil, Call.exec, hread, lsHProbeRead]
    by_cases hrefused : Refused c.readable (c.addr (recMembers fs) f.name) f.bytes
        (c.argument f.index).toNat
    · have hnot : ¬c.Captured (recMembers fs) f := by
        rintro (hkind | hok)
        · exact hreg hkind
        · exact hok hrefused
      rw [if_pos hrefused]
      exact ⟨h.skip hnot, rfl⟩
    · rw [if_neg hrefused]
      exact ⟨h.capture hd hmem (Or.inr hrefused) (Memory.length_load _ _ _), rfl⟩

/-- The statements of all fields that are left. -/
theorem Progress.fields {rest : List Field} (hrest : ∀ f ∈ rest, f ∈ fs) {r : Call.Run}
    (h : Progress c fs ready r.mem) :
    Progress c fs (ready ++ rest)
      ((rest.flatMap Field.body).foldl (c.exec (recMembers fs)) r).mem ∧
      ((rest.flatMap Field.body).foldl (c.exec (recMembers fs)) r).output = r.output := by
  induction rest generalizing ready r with
  | nil =>
      rw [List.append_nil]
      exact ⟨h, rfl⟩
  | cons f rest ih =>
      rw [List.forall_mem_cons] at hrest
      obtain ⟨hprogress, houtput⟩ := h.field hd hrest.1
      obtain ⟨hall, hsame⟩ := ih hrest.2 hprogress
      rw [List.flatMap_cons, List.foldl_append]
      rw [List.append_assoc, List.singleton_append] at hall
      exact ⟨hall, hsame.trans houtput⟩

/-- A record that is zero. -/
theorem progress_zero (m : Memory) :
    Progress c fs [] (c.setPresent (recMembers fs)
      (m.store c.base (List.replicate (sizeof (recMembers fs)) 0)) 0) := by
  constructor
  · intro i
    have hload := Memory.load_store_self
      (m.store c.base (List.replicate (sizeof (recMembers fs)) 0))
      (c.addr (recMembers fs) "present") (littleEndian 4 0)
    rw [length_littleEndian] at hload
    rw [Call.present, Call.setPresent, hload, ofLittleEndian_littleEndian_of_lt (by decide),
      Nat.zero_testBit]
    simp
  · intro g hg _
    have hbits := hd.apart_present (c := c) hg
    have hfits := le_sizeof hd.aligned (hd.mem_place hg)
    rw [hd.size g hg] at hfits
    rw [Call.setPresent, Memory.load_store_of_disjoint (by rw [length_littleEndian]; omega),
      Call.addr, Memory.load_store_replicate hfits]

end Run

/-! ## The record -/

/-- The record that a probe hands out: a bit for every field that was captured, and zero in the
others. -/
def Faithful (c : Call) (g : Generated) (fs : List Field) (bytes : List UInt8) : Prop :=
  bytes.length = sizeof g.members ∧
    (∀ i, (ofLittleEndian ((bytes.drop (offset g.members "present")).take 4)).testBit i = true ↔
      ∃ f ∈ fs, f.index = i ∧ c.Captured g.members f) ∧
    ∀ f ∈ fs, ¬c.Captured g.members f →
      (bytes.drop (offset g.members f.name)).take f.bytes = List.replicate f.bytes 0

/-- What stands in the record after the fields were filled in. -/
theorem run_body {c : Call} {fs : List Field} (hd : Declared fs) (digest : String → String)
    (fn : String) (m : Memory) : ∃ bytes,
      (c.run (generate digest fn fs) m).output = [bytes] ∧
        Faithful c (generate digest fn fs) fs bytes := by
  obtain ⟨start, hstart⟩ : ∃ start : Call.Run, start = ⟨c.setPresent (recMembers fs)
    (m.store c.base (List.replicate (sizeof (recMembers fs)) 0)) 0, []⟩ := ⟨_, rfl⟩
  have hzero : Progress c fs [] start.mem := by
    rw [hstart]
    exact progress_zero hd m
  obtain ⟨hprogress, houtput⟩ := hzero.fields hd fun f hf => hf
  rw [List.nil_append] at hprogress
  have houtput : ((fs.flatMap Field.body).foldl (c.exec (recMembers fs)) start).output = [] := by
    rw [houtput, hstart]
  have hslice : ∀ (m : Memory) {e : Member × Nat}, e ∈ place 0 (recMembers fs) →
      ((m.load c.base (sizeof (recMembers fs))).drop e.2).take e.1.size =
        m.load (c.base + e.2) e.1.size := by
    intro m e he
    have hfits := le_sizeof hd.aligned he
    rw [Memory.drop_load (by omega), Memory.take_load (by omega)]
  obtain ⟨last, hlast⟩ : ∃ last, last = (fs.flatMap Field.body).foldl (c.exec (recMembers fs)) start :=
    ⟨_, rfl⟩
  rw [← hlast] at hprogress houtput
  refine ⟨last.mem.load c.base (sizeof (recMembers fs)), ?_, Memory.length_load _ _ _, ?_, ?_⟩
  · have hrun : c.run (generate digest fn fs) m = c.exec (recMembers fs) last .output := by
      rw [hlast, hstart, Call.run, generate, List.foldl_append, List.foldl_append]
      rfl
    rw [hrun, Call.exec, houtput]
    rfl
  · intro i
    have hmem := hslice last.mem hd.mem_place_present
    dsimp only at hmem
    rw [generate]
    dsimp only
    rw [hmem]
    exact hprogress.present i
  · intro f hf hnot
    have hmem := hslice last.mem (hd.mem_place hf)
    rw [hd.size f hf] at hmem
    rw [generate]
    dsimp only at hmem ⊢
    rw [hmem]
    exact hprogress.zero f hf fun hready => hnot hready.2

section WellFormed

variable (digest : String → String) (fn : String) (params : List Loaded) (noProbeRead : Bool)

def probeOf : Generated := generate digest fn (layout params noProbeRead).fields

/-- The record of a generated probe is well formed and accounts for every parameter. -/
structure RecordOk : Prop where
  accounts : ((layout params noProbeRead).fields.map Field.index ++
    (layout params noProbeRead).dropped.map Numbered.index).Perm (List.range params.length)
  reachable : ∀ f ∈ (layout params noProbeRead).fields, f.index < 5
  names : ((probeOf digest fn params noProbeRead).members.map Member.name).Nodup
  declared : ∀ m ∈ (probeOf digest fn params noProbeRead).members, m.name ∉ macros
  fits : sizeof (probeOf digest fn params noProbeRead).members ≤
    (probeOf digest fn params noProbeRead).bound
  record : ∀ (c : Call) (m : Memory), ∃ bytes,
    (c.run (probeOf digest fn params noProbeRead) m).output = [bytes] ∧
      Faithful c (probeOf digest fn params noProbeRead) (layout params noProbeRead).fields bytes

/-- The parameters that have a field are called differently, and none of them as something that
the file declares itself. -/
structure NamesOk : Prop where
  distinct : ∀ i j p q, Kept params noProbeRead i → Kept params noProbeRead j →
    params[i]? = some p → params[j]? = some q → fieldName i p.name = fieldName j q.name → i = j
  free : ∀ i p, Kept params noProbeRead i → params[i]? = some p →
    fieldName i p.name ≠ "present" ∧ fieldName i p.name ∉ macros

/-- A parameter that is kept has a field of its name. -/
theorem exists_field {i : Nat} {p : Loaded} (hkept : Kept params noProbeRead i)
    (hp : params[i]? = some p) :
    ∃ f ∈ (layout params noProbeRead).fields, f.index = i ∧ f.name = fieldName i p.name := by
  have hwant : ∃ w, want p.kind = some w := by
    obtain ⟨-, q, hq, hkind⟩ := hkept
    rw [hp, Option.some.injEq] at hq
    subst hq
    rcases hkind with hreg | ⟨hkind, -⟩ | ⟨hkind, -⟩
    · exact ⟨8, ((want_of_order p.kind).1 ((order_eq_zero_iff p.kind).mpr hreg)).1⟩
    · exact ⟨24, by rw [hkind]; rfl⟩
    · exact ⟨16, by rw [hkind]; rfl⟩
  obtain ⟨w, hw⟩ := hwant
  refine ⟨⟨i, fieldName i p.name, p.kind, p.detail, w⟩, ?_, rfl, rfl⟩
  exact (mem_fields_iff params noProbeRead).mpr ⟨hkept, p, hp, rfl, rfl, rfl, hw⟩

theorem map_name_recMembers (fs : List Field) :
    (recMembers fs).map Member.name = "present" :: fs.map Field.name := by
  rw [recMembers, List.map_cons, List.map_map]
  refine congrArg (List.cons _) (List.map_congr_left fun f _ => ?_)
  exact name_member f

/-- The names of the members differ exactly if those of the parameters do. -/
theorem names_iff : NamesOk params noProbeRead ↔
    ((recMembers (layout params noProbeRead).fields).map Member.name).Nodup ∧
      ∀ m ∈ recMembers (layout params noProbeRead).fields, m.name ∉ macros := by
  rw [map_name_recMembers, List.nodup_cons]
  constructor
  · intro hnames
    have hfield : ∀ f ∈ (layout params noProbeRead).fields, ∃ p,
        Kept params noProbeRead f.index ∧ params[f.index]? = some p ∧
          f.name = fieldName f.index p.name := by
      intro f hf
      obtain ⟨hkept, p, hp, hname, -⟩ := (mem_fields_iff params noProbeRead).mp hf
      exact ⟨p, hkept, hp, hname⟩
    have hindex := nodup_index_fields params noProbeRead
    refine ⟨⟨?_, ?_⟩, ?_⟩
    · intro hmem
      obtain ⟨f, hf, hpresent⟩ := List.mem_map.mp hmem
      obtain ⟨p, hkept, hp, hname⟩ := hfield f hf
      exact (hnames.free f.index p hkept hp).1 (hname.symm.trans hpresent)
    · refine List.Nodup.map_on ?_ (List.Nodup.of_map _ hindex)
      intro f hf g hg hsame
      obtain ⟨p, hkeptf, hp, hnamef⟩ := hfield f hf
      obtain ⟨q, hkeptg, hq, hnameg⟩ := hfield g hg
      rw [hnamef, hnameg] at hsame
      exact List.inj_on_of_nodup_map hindex hf hg
        (hnames.distinct f.index g.index p q hkeptf hkeptg hp hq hsame)
    · intro m hm
      rcases List.mem_cons.mp hm with rfl | hm
      · decide
      · obtain ⟨f, hf, rfl⟩ := List.mem_map.mp hm
        obtain ⟨p, hkept, hp, hname⟩ := hfield f hf
        rw [name_member, hname]
        exact (hnames.free f.index p hkept hp).2
  · rintro ⟨⟨hpresent, hnodup⟩, hmacros⟩
    constructor
    · intro i j p q hi hj hp hq hsame
      obtain ⟨f, hf, rfl, hnamef⟩ := exists_field params noProbeRead hi hp
      obtain ⟨g, hg, rfl, hnameg⟩ := exists_field params noProbeRead hj hq
      rw [← hnamef, ← hnameg] at hsame
      rw [List.inj_on_of_nodup_map hnodup hf hg hsame]
    · intro i p hi hp
      obtain ⟨f, hf, rfl, hname⟩ := exists_field params noProbeRead hi hp
      rw [← hname]
      refine ⟨?_, ?_⟩
      · rintro heq
        exact hpresent (List.mem_map.mpr ⟨f, hf, heq⟩)
      · have hmem := hmacros f.member (List.mem_cons_of_mem _ (List.mem_map_of_mem hf))
        rwa [name_member] at hmem

/-- The record is well formed exactly if the names of the captured parameters are. -/
theorem record_well_formed_iff :
    RecordOk digest fn params noProbeRead ↔ NamesOk params noProbeRead := by
  rw [names_iff]
  constructor
  · intro h
    exact ⟨h.names, h.declared⟩
  · rintro ⟨hnames, hmacros⟩
    have hd : Declared (layout params noProbeRead).fields := {
      names := hnames
      index := fun f hf => (field_facts params noProbeRead hf).1
      size := fun f hf => (field_facts params noProbeRead hf).2.1
      align := fun f hf => (field_facts params noProbeRead hf).2.2 }
    exact {
      accounts := layout_accounts params noProbeRead
      reachable := fun f hf => (field_facts params noProbeRead hf).1
      names := hnames
      declared := hmacros
      fits := sizeof_le params noProbeRead
      record := fun c m => run_body hd digest fn m }

end WellFormed

/-- A parameter that is called {lit}`present` has the name of the record's first member. -/
theorem present_collides :
    ¬RecordOk (fun _ => "252f10c8") "f" [⟨some "present", "scalar", "int"⟩] false := by
  intro h
  have hnames := h.names
  revert hnames
  decide +kernel

end Probe
end LiveSurface
