import LiveSurface.Metadata.Decode

/-!
# The opening of a metadata reader

Every metadata reader starts a call in the same way: it takes the time, reads its
configuration, finds or makes the one row of its counters and numbers the call.  Only a call
that comes through reads the application's memory.  What the helpers return is data of the
call here, so that a result holds for every outcome.

Main results:

- Theorem {lit}`Outcomes.flags_opening_le`: the flags of a call stay within four bits.
- Theorem {lit}`Outcomes.opened_iff`: which calls come through.
-/

namespace LiveSurface
namespace Metadata

/-- {lit}`struct ls_cfg_meta`. -/
structure CfgMeta where
  revision : UInt64
  instanceId : UInt64
  schema : UInt32
  entries : UInt32

/-- The row of a reader's counters. -/
structure ReaderState where
  instanceId : UInt64
  calls : UInt64
  failures : UInt64
deriving DecidableEq

/-- What the helpers return to one call: the clock, the two rows of the configuration, the
first lookup of the counters, the update and the second lookup, and the output. -/
structure Outcomes where
  clock : UInt64
  head : Option CfgMeta
  policy : Option (Fin 4 → UInt64)
  found : Option ReaderState
  stored : Bool
  again : Option ReaderState
  emitted : Bool

/-- The part of a record that the opening fills. -/
structure Opening where
  instanceId : UInt64
  revision : UInt64
  run : UInt64
  monotonicNs : UInt64
  sequence : UInt64
  outputFailures : UInt64
  flags : Nat
  /-- The counters, where the call comes through. -/
  state : Option ReaderState

/-- Both rows of a configuration are accepted. -/
def CfgMeta.Accepts (head : CfgMeta) (policy : Fin 4 → UInt64) : Prop :=
  head.schema = 1 ∧ head.entries = 1 ∧ policy 0 ≠ 0 ∧ policy 1 = 0 ∧ policy 2 = 0 ∧ policy 3 = 0

instance (head : CfgMeta) (policy : Fin 4 → UInt64) : Decidable (head.Accepts policy) := by
  unfold CfgMeta.Accepts
  infer_instance

namespace Outcomes

variable (o : Outcomes)

/-- The counters of the instance, with new ones where there are none. -/
def counters (instanceId : UInt64) : Option ReaderState :=
  match o.found.filter fun s => s.instanceId = instanceId with
  | some s => some s
  | none => if o.stored then o.again else none

/-- The flags of a call whose clock failed. -/
def clockFlags : Nat := if o.clock = 0 then 8 else 0

/-- A call before its configuration is read. -/
def blank : Opening where
  instanceId := 0
  revision := 0
  run := 0
  monotonicNs := o.clock
  sequence := 0
  outputFailures := 0
  flags := o.clockFlags
  state := none

/-- The opening of a call. -/
def opening : Opening :=
  match o.head with
  | none => { o.blank with flags := o.clockFlags ||| 1 }
  | some head =>
      let e := { o.blank with instanceId := head.instanceId, revision := head.revision }
      match o.policy.filter fun policy => head.Accepts policy with
      | none => { e with flags := o.clockFlags ||| 1 }
      | some policy =>
          let e := { e with run := policy 0 }
          match o.counters head.instanceId with
          | none => { e with flags := o.clockFlags ||| 2 }
          | some s =>
              if s.calls = 0xffffffffffffffff then
                { e with
                  outputFailures := s.failures
                  flags := o.clockFlags ||| 4
                  state := some s }
              else
                { e with
                  outputFailures := s.failures
                  sequence := s.calls + 1
                  state := some { s with calls := s.calls + 1 } }

/-- The counters after the output. -/
def closing : Option ReaderState :=
  o.opening.state.map fun s =>
    if o.emitted = false ∧ s.failures ≠ 0xffffffffffffffff then
      { s with failures := s.failures + 1 }
    else s

/-- The flags of a call stay within four bits. -/
theorem flags_opening_le : o.opening.flags ≤ 15 := by
  have hclock : o.clockFlags = 0 ∨ o.clockFlags = 8 := by
    unfold clockFlags
    split
    · exact Or.inr rfl
    · exact Or.inl rfl
  unfold opening
  split
  · rcases hclock with h | h <;> simp [h]
  dsimp only
  split
  · rcases hclock with h | h <;> simp [h]
  split
  · rcases hclock with h | h <;> simp [h]
  · split
    · rcases hclock with h | h <;> simp [h]
    · rcases hclock with h | h <;> simp [h, blank]

/-- The configuration of a call is accepted, and it has counters. -/
def Opened : Prop :=
  ∃ head policy s, o.head = some head ∧ o.policy = some policy ∧ head.Accepts policy ∧
    o.counters head.instanceId = some s

/-- A call comes through when its configuration is accepted and it has counters. -/
theorem opened_iff : o.opening.state.isSome = true ↔ o.Opened := by
  unfold opening Opened
  cases hhead : o.head with
  | none => simp [blank]
  | some head =>
      cases hpolicy : o.policy.filter fun policy => head.Accepts policy with
      | none =>
          simp only [hpolicy, blank, Option.isSome_none, Bool.false_eq_true, false_iff]
          rintro ⟨_, policy, s, hsome, hrow, haccepts, -⟩
          obtain rfl := Option.some.inj hsome
          rw [hrow, Option.filter_some_pos (by simpa using haccepts)] at hpolicy
          exact Option.some_ne_none _ hpolicy
      | some policy =>
          obtain ⟨hrow, haccepts⟩ := Option.filter_eq_some_iff.mp hpolicy
          have haccepts : head.Accepts policy := by simpa using haccepts
          cases hcounters : o.counters head.instanceId with
          | none =>
              simp only [hcounters, hpolicy, blank, Option.isSome_none, Bool.false_eq_true, false_iff]
              rintro ⟨_, policy, s, hsome, -, -, hsome'⟩
              obtain rfl := Option.some.inj hsome
              exact Option.some_ne_none _ (hsome'.symm.trans hcounters)
          | some s =>
              simp only [hcounters, hpolicy]
              refine ⟨fun _ => ⟨head, policy, s, rfl, hrow, haccepts, hcounters⟩, fun _ => ?_⟩
              split <;> rfl

end Outcomes

end Metadata
end LiveSurface
