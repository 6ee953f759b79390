import LiveSurface.Library.Layout
import LiveSurface.Map.Rows

/-!
# The state that the parser programs share

Four programs observe a header parser.  They count their calls in one row of
{lit}`life_state`, keep one row for each parser address in {lit}`life_objects`, and the
recogniser keeps its own rows in {lit}`candidate_store`.

Main results:

- Theorem {lit}`LifeState.ofBytes_bytes` and theorem {lit}`LifeObject.ofBytes_bytes`: a row
  is read as it was written.
-/

namespace LiveSurface
namespace Lifetime

open Map

/-! ## Configuration -/

/-- {lit}`struct ls_cfg_meta`, as far as it is read. -/
structure CfgMeta where
  schema : UInt32
  entries : UInt32

/-- What the two lookups of a program's configuration return. -/
structure ProbeConfig where
  cfgMeta : Option CfgMeta
  row : Option (Fin 4 → UInt64)

/-- The run token of a configuration that is accepted. -/
def ProbeConfig.run (config : ProbeConfig) : Option UInt64 :=
  match config.cfgMeta, config.row with
  | some head, some row =>
      if head.schema ≠ 1 ∨ head.entries ≠ 1 ∨ row 0 = 0 ∨ row 1 ≠ 0 ∨ row 2 ≠ 0 ∨ row 3 ≠ 0 then
        none
      else some (row 0)
  | _, _ => none

/-! ## Rows -/

/-- The bytes of four 64-bit words. -/
def quadBytes (a b c d : UInt64) : List UInt8 :=
  Layout.pack [(8, a.toNat), (8, b.toNat), (8, c.toNat), (8, d.toNat)]

/-- The four 64-bit words of a row. -/
def quadWords (row : List UInt8) : List UInt64 :=
  (Layout.unpack [8, 8, 8, 8] row).map UInt64.ofNat

theorem length_quadBytes (a b c d : UInt64) : (quadBytes a b c d).length = 32 := by
  simp [quadBytes]

theorem quadWords_quadBytes (a b c d : UInt64) : quadWords (quadBytes a b c d) = [a, b, c, d] := by
  have hfits : Layout.Fits [(8, a.toNat), (8, b.toNat), (8, c.toNat), (8, d.toNat)] := by
    simp only [Layout.Fits, List.forall_mem_cons]
    exact ⟨a.toNat_lt, b.toNat_lt, c.toNat_lt, d.toNat_lt, by simp⟩
  have hunpack := Layout.unpack_pack_of_fits hfits []
  rw [List.append_nil] at hunpack
  simp only [List.map_cons, List.map_nil] at hunpack
  rw [quadWords, quadBytes, hunpack]
  simp

/-- {lit}`struct life_state`, and {lit}`struct counter`. -/
structure LifeState where
  run : UInt64
  calls : UInt64
  births : UInt64
  failures : UInt64
deriving DecidableEq

/-- The bytes of a counter row. -/
def LifeState.bytes (s : LifeState) : List UInt8 := quadBytes s.run s.calls s.births s.failures

/-- The counters that a row holds. -/
def LifeState.ofBytes (row : List UInt8) : LifeState where
  run := (quadWords row).getD 0 0
  calls := (quadWords row).getD 1 0
  births := (quadWords row).getD 2 0
  failures := (quadWords row).getD 3 0

@[simp]
theorem LifeState.length_bytes (s : LifeState) : s.bytes.length = 32 := length_quadBytes _ _ _ _

@[simp]
theorem LifeState.ofBytes_bytes (s : LifeState) : ofBytes s.bytes = s := by
  rw [ofBytes, bytes, quadWords_quadBytes]
  rfl

/-- {lit}`struct life_object`, and {lit}`struct object`. -/
structure LifeObject where
  run : UInt64
  lifetime : UInt64
  attempt : UInt64
  state : UInt64
deriving DecidableEq

/-- The bytes of an object row. -/
def LifeObject.bytes (o : LifeObject) : List UInt8 :=
  quadBytes o.run o.lifetime o.attempt o.state

/-- The object that a row holds. -/
def LifeObject.ofBytes (row : List UInt8) : LifeObject where
  run := (quadWords row).getD 0 0
  lifetime := (quadWords row).getD 1 0
  attempt := (quadWords row).getD 2 0
  state := (quadWords row).getD 3 0

@[simp]
theorem LifeObject.length_bytes (o : LifeObject) : o.bytes.length = 32 := length_quadBytes _ _ _ _

@[simp]
theorem LifeObject.ofBytes_bytes (o : LifeObject) : ofBytes o.bytes = o := by
  rw [ofBytes, bytes, quadWords_quadBytes]
  rfl

/-! ## Tables -/

/-- The maps of the thread that the parser runs on. -/
structure LifeMaps where
  state : LsMap
  objects : LsMap
  store : LsMap

/-- {lit}`life_state`. -/
def lifeStateDef : LsMapDef where
  type := lsMapTypeHash
  keySize := 4
  valueSize := 32
  maxEntries := 1
  mapFlags := 0

/-- {lit}`life_objects`. -/
def lifeObjectsDef : LsMapDef where
  type := lsMapTypeHash
  keySize := 8
  valueSize := 32
  maxEntries := 256
  mapFlags := 0

/-- {lit}`candidate_store`. -/
def candidateStoreDef : LsMapDef where
  type := lsMapTypeHash
  keySize := 8
  valueSize := 32
  maxEntries := 256
  mapFlags := 0

/-- The maps before the first call. -/
def LifeMaps.empty : LifeMaps where
  state := mapOfDescriptor lifeStateDef
  objects := mapOfDescriptor lifeObjectsDef
  store := mapOfDescriptor candidateStoreDef

/-- The key of the only row of {lit}`life_state`. -/
def zeroKey : List UInt8 := littleEndian 4 0

/-- The bytes of a 64-bit key. -/
def keyBytes (k : UInt64) : List UInt8 := littleEndian 8 k.toNat

@[simp]
theorem length_zeroKey : zeroKey.length = 4 := length_littleEndian 4 0

@[simp]
theorem length_keyBytes (k : UInt64) : (keyBytes k).length = 8 := length_littleEndian 8 _

/-- Different keys have different bytes. -/
theorem keyBytes_injective {j k : UInt64} (h : keyBytes j = keyBytes k) : j = k := by
  have hwords := congrArg ofLittleEndian h
  rw [keyBytes, keyBytes, ofLittleEndian_littleEndian_of_lt j.toNat_lt,
    ofLittleEndian_littleEndian_of_lt k.toNat_lt] at hwords
  exact UInt64.toNat_inj.mp hwords

/-- The counters at a pointer. -/
def stateAt (m : LsMap) (off : Nat) : LifeState := .ofBytes (rowOf m off)

/-- The object at a pointer. -/
def objectAt (m : LsMap) (off : Nat) : LifeObject := .ofBytes (rowOf m off)

end Lifetime
end LiveSurface
