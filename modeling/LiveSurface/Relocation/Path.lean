import LiveSurface.Relocation.Offset

/-!
# Fields by their names

What the relocator looks a field up for, said without its loops: a type behind qualifiers, the
first of a list that has a name, and a path through members of the same names in the types of the
program and in those of the target.

Main results:

- Theorem {lit}`skipMods_eq_some_iff`: the type behind qualifiers.
- Theorem {lit}`walk_eq_some_iff`: the walk follows a path, and adds the offsets along it.
- Theorem {lit}`fieldOffset_eq_some_iff`: the offset that is found is that of the field.
-/

namespace LiveSurface
namespace Relocation

/-! ## Specification -/

/-- Behind so many qualifiers there is a type. -/
inductive Behind (g : TypeGraph) : Nat → Nat → BtfType → Prop
  | real {id : Nat} {t : BtfType} : g id = some t → ¬IsMod (kindOf t.info) → Behind g 0 id t
  | link {n id : Nat} {q t : BtfType} :
      g id = some q → IsMod (kindOf q.info) → Behind g n q.ref t → Behind g (n + 1) id t

/-- The first element of which a test that reads a buffer is true; of those before it the test is
false. -/
inductive FirstOf {α : Type} (test : α → Option Bool) : List α → α → Prop
  | here {x : α} {xs : List α} : test x = some true → FirstOf test (x :: xs) x
  | later {x y : α} {xs : List α} :
      test y = some false → FirstOf test xs x → FirstOf test (y :: xs) x

/-- A type is a struct or a union of a name. -/
def structIs (g : TypeGraph) (name : List UInt8) (id : Nat) : Option Bool :=
  match g id with
  | none => some false
  | some t => if IsComposite (kindOf t.info) then strcmp t.name name else some false

/-- A member of a type of the program and the first member of its name in a type of the target. -/
structure Selects (lt tt : BtfType) (midx : Nat) (lm tm : Member) : Prop where
  localKind : IsComposite (kindOf lt.info)
  targetKind : IsComposite (kindOf tt.info)
  selected : lt.members[midx]? = some lm
  found : FirstOf (fun m => memberIs m.name lm.name) tt.members tm

/-- A path through members, and the sum of the offsets in the target along it. -/
inductive Path (lg tg : TypeGraph) : List Nat → BtfType → BtfType → Nat → Prop
  | nil (lt tt : BtfType) : Path lg tg [] lt tt 0
  | last {midx : Nat} {lt tt : BtfType} {lm tm : Member} :
      Selects lt tt midx lm tm → Path lg tg [midx] lt tt (memberBits tt.info tm.offset)
  | more {midx next n n' bits : Nat} {path : List Nat} {lt tt lt' tt' : BtfType} {lm tm : Member} :
      Selects lt tt midx lm tm → n ≤ modGuard → Behind lg n lm.type lt' → n' ≤ modGuard →
      Behind tg n' tm.type tt' → Path lg tg (next :: path) lt' tt' bits →
      Path lg tg (midx :: next :: path) lt tt (memberBits tt.info tm.offset + bits)

/-- The bit offset of a field: the access string selects the type itself and then members, from
the struct or union behind a type of the program, and from the first of its name in the target. -/
def Field (lg tg : TypeGraph) (tids : List Nat) (localId : Nat) (comps : List Nat) (bits : Nat) :
    Prop :=
  ∃ path n lt c tid tt, comps = 0 :: path ∧ n ≤ modGuard ∧ Behind lg n localId lt ∧
    IsComposite (kindOf lt.info) ∧ firstByte lt.name = some c ∧ c ≠ 0 ∧
    FirstOf (structIs tg lt.name) tids tid ∧ tg tid = some tt ∧ Path lg tg path lt tt bits

/-! ## The loops -/

section Loops

variable {g lg tg : TypeGraph}

theorem IsComposite.not_mod {kind : Nat} (h : IsComposite kind) : ¬IsMod kind := by
  rcases h with rfl | rfl <;> decide

theorem Behind.skipMods {n id : Nat} {t : BtfType} (h : Behind g n id t) :
    ∀ guard, n ≤ guard → skipMods g guard id = some t := by
  induction h with
  | real hid hreal =>
      intro guard _
      cases guard with
      | zero => exact hid
      | succ guard => simp only [Relocation.skipMods, hid, if_neg hreal]
  | link hid hmod _ ih =>
      intro guard hle
      cases guard with
      | zero => contradiction
      | succ guard =>
          simp only [Relocation.skipMods, hid, if_pos hmod]
          exact ih guard (Nat.le_of_succ_le_succ hle)

/-- The type behind qualifiers is found when there are not too many of them. -/
theorem skipMods_eq_some_iff {guard id : Nat} {t : BtfType} (ht : ¬IsMod (kindOf t.info)) :
    skipMods g guard id = some t ↔ ∃ n, n ≤ guard ∧ Behind g n id t := by
  constructor
  · intro h
    induction guard generalizing id with
    | zero => exact ⟨0, Nat.le_refl 0, .real h ht⟩
    | succ guard ih =>
        unfold skipMods at h
        cases hid : g id with
        | none =>
            rw [hid] at h
            contradiction
        | some q =>
            rw [hid] at h
            dsimp only at h
            by_cases hmod : IsMod (kindOf q.info)
            · rw [if_pos hmod] at h
              obtain ⟨n, hn, hbehind⟩ := ih h
              exact ⟨n + 1, Nat.succ_le_succ hn, .link hid hmod hbehind⟩
            · rw [if_neg hmod] at h
              obtain rfl := Option.some.inj h
              exact ⟨0, Nat.zero_le _, .real hid ht⟩
  · rintro ⟨n, hn, hbehind⟩
    exact hbehind.skipMods guard hn

theorem firstOf_cons_iff {α : Type} {test : α → Option Bool} {x y : α} {xs : List α} :
    FirstOf test (y :: xs) x ↔
      test y = some true ∧ y = x ∨ test y = some false ∧ FirstOf test xs x := by
  constructor
  · intro h
    cases h with
    | here htrue => exact Or.inl ⟨htrue, rfl⟩
    | later hfalse hrest => exact Or.inr ⟨hfalse, hrest⟩
  · rintro (⟨htrue, rfl⟩ | ⟨hfalse, hrest⟩)
    · exact .here htrue
    · exact .later hfalse hrest

theorem findMember_eq_some_iff {name : List UInt8} {ms : List Member} {tm : Member} :
    findMember name ms = some (some tm) ↔ FirstOf (fun m => memberIs m.name name) ms tm := by
  induction ms with
  | nil =>
      refine iff_of_false (fun h => nomatch Option.some.inj h) fun h => ?_
      cases h
  | cons m rest ih =>
      rw [findMember, firstOf_cons_iff, ← ih]
      cases memberIs m.name name with
      | none => simp
      | some equal => cases equal <;> simp

theorem findStruct_eq_some_iff {name : List UInt8} {ids : List Nat} {tid : Nat}
    (hids : 0 ∉ ids) (htid : tid ≠ 0) :
    findStruct g name ids = some tid ↔ FirstOf (structIs g name) ids tid := by
  induction ids with
  | nil =>
      refine iff_of_false (fun h => htid (Option.some.inj h).symm) fun h => ?_
      cases h
  | cons id rest ih =>
      rw [List.mem_cons, not_or] at hids
      rw [findStruct, firstOf_cons_iff, structIs, ← ih hids.2]
      cases g id with
      | none => simp
      | some t =>
          dsimp only
          by_cases hkind : IsComposite (kindOf t.info)
          · rw [if_pos hkind, if_pos hkind]
            cases strcmp t.name name with
            | none => simp
            | some equal => cases equal <;> simp
          · rw [if_neg hkind, if_neg hkind]
            simp

theorem FirstOf.holds {α : Type} {test : α → Option Bool} {x : α} {xs : List α}
    (h : FirstOf test xs x) : test x = some true := by
  induction h with
  | here htrue => exact htrue
  | later _ _ ih => exact ih

theorem structIs_eq_true {name : List UInt8} {id : Nat} (h : structIs g name id = some true) :
    ∃ t, g id = some t ∧ IsComposite (kindOf t.info) ∧ strcmp t.name name = some true := by
  unfold structIs at h
  cases hid : g id with
  | none =>
      rw [hid] at h
      exact nomatch Option.some.inj h
  | some t =>
      rw [hid] at h
      dsimp only at h
      split at h
      · rename_i hkind
        exact ⟨t, rfl, hkind, h⟩
      · exact nomatch Option.some.inj h

theorem FirstOf.mem {α : Type} {test : α → Option Bool} {x : α} {xs : List α}
    (h : FirstOf test xs x) : x ∈ xs := by
  induction h with
  | here _ => exact List.mem_cons_self
  | later _ _ ih => exact List.mem_cons_of_mem _ ih

/-! ## The walk -/

/-- One number of the path selects a member on both sides. -/
theorem walk_cons_iff {midx bits found : Nat} {path : List Nat} {lt tt : BtfType} :
    walk lg tg (midx :: path) (some lt) (some tt) bits = some (some found) ↔
      ∃ lm tm, Selects lt tt midx lm tm ∧
        walk lg tg path (skipMods lg modGuard lm.type) (skipMods tg modGuard tm.type)
          (bits + memberBits tt.info tm.offset) = some (some found) := by
  rw [walk_step]
  generalize modGuard = guard
  constructor
  · intro h
    split at h
    · exact nomatch Option.some.inj h
    · rename_i hkinds
      rw [not_or, not_not, not_not] at hkinds
      cases hlm : lt.members[midx]? with
      | none =>
          rw [hlm] at h
          exact nomatch Option.some.inj h
      | some lm =>
          rw [hlm] at h
          obtain ⟨tm, htm, h⟩ := Option.bind_eq_some_iff.mp h
          cases tm with
          | none => exact nomatch Option.some.inj h
          | some tm =>
              exact ⟨lm, tm, ⟨hkinds.1, hkinds.2, hlm, findMember_eq_some_iff.mp htm⟩, h⟩
  · rintro ⟨lm, tm, hselects, h⟩
    rw [if_neg (not_or.mpr ⟨not_not.mpr hselects.localKind, not_not.mpr hselects.targetKind⟩),
      hselects.selected]
    dsimp only
    rw [findMember_eq_some_iff.mpr hselects.found]
    exact h

/-- The walk follows a path, and adds the offsets along it. -/
theorem walk_eq_some_iff (path : List Nat) :
    ∀ {lt tt : BtfType} {bits found : Nat},
      walk lg tg path (some lt) (some tt) bits = some (some found) ↔
        ∃ more, Path lg tg path lt tt more ∧ found = bits + more := by
  induction path with
  | nil =>
      intro lt tt bits found
      constructor
      · intro h
        exact ⟨0, .nil lt tt, (Option.some.inj (Option.some.inj h)).symm⟩
      · rintro ⟨more, hpath, rfl⟩
        cases hpath
        rfl
  | cons midx path ih =>
      intro lt tt bits found
      rw [walk_cons_iff]
      cases path with
      | nil =>
          constructor
          · rintro ⟨lm, tm, hselects, h⟩
            exact ⟨_, .last hselects, (Option.some.inj (Option.some.inj h)).symm⟩
          · rintro ⟨more, hpath, rfl⟩
            cases hpath with
            | last hselects => exact ⟨_, _, hselects, rfl⟩
      | cons next path =>
          constructor
          · rintro ⟨lm, tm, hselects, h⟩
            cases hlt : skipMods lg modGuard lm.type with
            | none =>
                rw [hlt, walk_none (Or.inl rfl)] at h
                exact nomatch Option.some.inj h
            | some lt' =>
                cases htt : skipMods tg modGuard tm.type with
                | none =>
                    rw [htt, walk_none (Or.inr rfl)] at h
                    exact nomatch Option.some.inj h
                | some tt' =>
                    rw [hlt, htt] at h
                    obtain ⟨lm', tm', hselects', -⟩ := walk_cons_iff.mp h
                    obtain ⟨more, hpath, rfl⟩ := ih.mp h
                    obtain ⟨n, hn, hbehind⟩ :=
                      (skipMods_eq_some_iff hselects'.localKind.not_mod).mp hlt
                    obtain ⟨n', hn', hbehind'⟩ :=
                      (skipMods_eq_some_iff hselects'.targetKind.not_mod).mp htt
                    exact ⟨_, .more hselects hn hbehind hn' hbehind' hpath, Nat.add_assoc _ _ _⟩
          · rintro ⟨more, hpath, rfl⟩
            cases hpath with
            | more hselects hn hbehind hn' hbehind' hpath =>
                refine ⟨_, _, hselects, ?_⟩
                rw [hbehind.skipMods modGuard hn, hbehind'.skipMods modGuard hn', ih]
                exact ⟨_, hpath, (Nat.add_assoc _ _ _).symm⟩

/-- The offset that is found is that of the field, in whole bytes. -/
theorem fieldOffset_eq_some_iff {tids : List Nat} (htids : 0 ∉ tids) {localId off : Nat}
    {comps : List Nat} :
    fieldOffset lg tg tids localId comps = some (some off) ↔
      ∃ bits, Field lg tg tids localId comps bits ∧ bits % 8 = 0 ∧ off = bits / 8 := by
  have hwhole : ∀ bits, wholeBytes bits = some off ↔ bits % 8 = 0 ∧ off = bits / 8 := by
    intro bits
    unfold wholeBytes
    by_cases hbits : bits % 8 = 0
    · simp [hbits, eq_comm]
    · simp [hbits]
  constructor
  · intro h
    unfold fieldOffset at h
    split at h
    · rename_i path
      cases hlt : skipMods lg modGuard localId with
      | none =>
          rw [hlt] at h
          exact nomatch Option.some.inj h
      | some lt =>
          rw [hlt] at h
          dsimp only at h
          split at h
          · exact nomatch Option.some.inj h
          · rename_i hkind
            rw [not_not] at hkind
            obtain ⟨c, hc, h⟩ := Option.bind_eq_some_iff.mp h
            split at h
            · exact nomatch Option.some.inj h
            · rename_i hne
              obtain ⟨tid, htid, h⟩ := Option.bind_eq_some_iff.mp h
              split at h
              · exact nomatch Option.some.inj h
              · rename_i htid0
                have hfirst := (findStruct_eq_some_iff htids htid0).mp htid
                obtain ⟨bits, hwalk, h⟩ := Option.map_eq_some_iff.mp h
                obtain ⟨found, rfl, hoff⟩ := Option.bind_eq_some_iff.mp h
                obtain ⟨n, hn, hbehind⟩ := (skipMods_eq_some_iff hkind.not_mod).mp hlt
                obtain ⟨tt, htt, -⟩ := structIs_eq_true hfirst.holds
                rw [htt] at hwalk
                obtain ⟨more, hpath, rfl⟩ := (walk_eq_some_iff path).mp hwalk
                rw [Nat.zero_add] at hoff
                obtain ⟨hmod, rfl⟩ := (hwhole more).mp hoff
                exact ⟨more, ⟨path, n, lt, c, tid, tt, rfl, hn, hbehind, hkind, hc, hne, hfirst,
                  htt, hpath⟩, hmod, rfl⟩
    · exact nomatch Option.some.inj h
  · rintro ⟨bits, ⟨path, n, lt, c, tid, tt, rfl, hn, hbehind, hkind, hc, hne, hfirst, htt, hpath⟩,
      hmod, rfl⟩
    have htid0 : tid ≠ 0 := fun h => htids (h ▸ hfirst.mem)
    have hwalk := (walk_eq_some_iff path).mpr ⟨bits, hpath, (Nat.zero_add bits).symm⟩
    simp only [fieldOffset, hbehind.skipMods modGuard hn, hkind, not_true_eq_false, if_false, hc,
      Option.bind_some, hne, (findStruct_eq_some_iff htids htid0).mpr hfirst, htid0, htt, hwalk,
      Option.map_some, (hwhole bits).mpr ⟨hmod, rfl⟩]

end Loops

end Relocation
end LiveSurface
