import LiveSurface.Metadata.Lifecycle
import LiveSurface.Metadata.Method

/-!
# Every record is accepted

The session, route, method, boundary and initialization programs against their decoders.

Main results:

- Theorem {lit}`records_accepted`: no record of the five programs is refused, and what a record
  says comes from its source.
- Theorem {lit}`untagged_resets`: two records of one address without a tag.
-/

namespace LiveSurface
namespace Metadata

/-- The records of the session, route and method programs decode, to the front of their source or
to nothing. -/
structure ValueRecords : Prop where
  session : ∀ call, ∃ d, sessionRoutingDecode (sessionRouting call).bytes = .ok d ∧
    d.valueHex = hex ((sessionRouting call).field.value.take (sessionRouting call).field.copiedLength)
  sessionNone : ∀ call,
    ¬((sessionRouting call).field.status = 1 ∨ (sessionRouting call).field.status = 2) →
      (sessionRouting call).field.value = List.replicate 64 0
  sessionSome : ∀ call,
    (sessionRouting call).field.status = 1 ∨ (sessionRouting call).field.status = 2 → ∃ bs,
      (sessionRouting call).field.copiedLength = bs.length ∧
      (sessionRouting call).field.value = padded bs ∧ call.Sourced (sessionRouting call).field bs
  method : ∀ call, ∃ d, methodDecode (jsonMethod call).bytes = .ok d ∧
    d.valueHex = hex ((jsonMethod call).value.take (jsonMethod call).copiedLength)
  methodNone : ∀ call, ¬((jsonMethod call).status = 1 ∨ (jsonMethod call).status = 2) →
    (jsonMethod call).value = List.replicate 64 0
  methodSome : ∀ call, (jsonMethod call).status = 1 ∨ (jsonMethod call).status = 2 → ∃ bs,
    (jsonMethod call).copiedLength = bs.length ∧ (jsonMethod call).value = padded bs ∧
      call.Value (jsonMethod call) bs

/-- The record of a frame decodes, and a completed one passed the guards of its entry under a
configuration that did not change before its return. -/
def FrameRecord (frame : JiFrame) : Prop :=
  ∃ d, jsonInitializationDecode (jsonInitialization frame).bytes = .ok d ∧
    (d.initializationCompleted = true → frame.Guarded ∧ ∃ head row head' row',
      frame.entryConfig.accepted = some (head, row) ∧
      frame.returnConfig.accepted = some (head', row') ∧ head'.instanceId = head.instanceId ∧
      head'.revision = head.revision ∧ row' 0 = row 0)

theorem valueRecords : ValueRecords where
  session call := by
    obtain ⟨d, hdecode, hvalue, -⟩ := (sound_sessionRouting call).decodes
    exact ⟨d, hdecode, hvalue⟩
  sessionNone call := (sessionRouting_value call).1
  sessionSome call := (sessionRouting_value call).2
  method call := by
    obtain ⟨d, hdecode, hvalue, -⟩ := jsonMethod_decodes call
    exact ⟨d, hdecode, hvalue⟩
  methodNone call := (jsonMethod_value call).1
  methodSome call := (jsonMethod_value call).2

theorem frameRecord (frame : JiFrame) : FrameRecord frame := by
  obtain ⟨d, hdecode, -, hcomplete⟩ := (sound_jsonInitialization frame).decodes
  refine ⟨d, hdecode, fun hdone => ?_⟩
  obtain ⟨hstatus, hflags⟩ := hcomplete hdone
  exact guarded_of_complete frame hstatus hflags

/-- No record of the five programs is refused.  A value is the front of its source, the tags of a
boundary run tell the storage addresses apart, and a completed initialization passed its guards. -/
theorem records_accepted : ValueRecords ∧ (∀ s, boundaryMachine.Reachable s → s.Law) ∧
    ∀ frame, FrameRecord frame := by
  refine ⟨valueRecords, fun s hs => ?_, frameRecord⟩
  exact law_of_reachable hs

/-- A configuration of run 1. -/
def oneSnapshot : SnapshotConfig where
  head := some { revision := 1, instanceId := 1, schema := 1, entries := 1 }
  row := some fun i => if i = 0 then 1 else 0

/-- A reset of the storage at address 64. -/
def resetCall : JlCall where
  kind := .reset
  arg i := if i = 0 then 64 else 0
  clock := 1
  config := oneSnapshot
  mem _ := none
  state := ⟨true, true, true⟩
  objects := ⟨true, true, true⟩
  emitted := true

/-- Two resets of one storage. -/
def twoResets : JlSystem :=
  let (e, maps) := jsonLifecycle resetCall JlMaps.empty
  let (e', maps') := jsonLifecycle resetCall maps
  ⟨maps', [(resetCall, e'), (resetCall, e)]⟩

theorem reachable_twoResets : boundaryMachine.Reachable twoResets :=
  @Machine.reachable_of_run _ _ boundaryMachine [resetCall, resetCall] _ _ (.start rfl) rfl

theorem records_accepted_twoResets : boundaryMachine.Reachable twoResets ∧ twoResets.Law :=
  ⟨reachable_twoResets, records_accepted.2.1 twoResets reachable_twoResets⟩

/-- Two records of one run and one storage address need not carry a tag: a reset does not give
one to an address that has none. -/
theorem untagged_resets : ¬∀ s, boundaryMachine.Reachable s → ∀ r ∈ s.log, ∀ r' ∈ s.log,
    r.2.run = r'.2.run →
      (r.2.contextTag = r'.2.contextTag ∧ r.2.contextTag ≠ 0 ↔ r.1.address = r'.1.address) := by
  intro hall
  have hfirst : (twoResets.log.map fun r => (r.2.run, r.2.contextTag)) = [(1, 0), (1, 0)] := by
    decide +kernel
  obtain ⟨r, r', hlog⟩ : ∃ r r', twoResets.log = [r, r'] := ⟨_, _, rfl⟩
  rw [hlog] at hfirst
  simp only [List.map_cons, List.map_nil, List.cons.injEq, Prod.mk.injEq, and_true] at hfirst
  obtain ⟨⟨hrun, htag⟩, ⟨hrun', -⟩⟩ := hfirst
  have hcalls : (twoResets.log.map Prod.fst) = [resetCall, resetCall] := rfl
  rw [hlog] at hcalls
  simp only [List.map_cons, List.map_nil, List.cons.injEq, and_true] at hcalls
  have hiff := hall twoResets reachable_twoResets r (by rw [hlog]; simp) r' (by rw [hlog]; simp)
    (hrun.trans hrun'.symm)
  exact (hiff.mpr (by rw [hcalls.1, hcalls.2])).2 htag

end Metadata
end LiveSurface
