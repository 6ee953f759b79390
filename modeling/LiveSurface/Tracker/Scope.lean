import LiveSurface.Tracker.Table
import LiveSurface.Library.Probe

/-!
# The scope of a record

Before a record is emitted, the tracker looks at the flow its hook was called for
and finds the exchange the record belongs to.  An exchange starts with a method of
the client, is confirmed by the client's request event, and ends with the client's
response, an abort, a teardown or a new request on the same flow.

Main results:

- Definition {lit}`activityScope`: the source's function.
- Theorem {lit}`activityScope_scoped`: everything that one call can do, as a step on
  the finite map of exchanges; the table never evicts.
-/

namespace LiveSurface
namespace Tracker

open Map

/-! ## The call -/

/-- {lit}`struct ag_ctx`, as far as it is read. -/
structure AgCtx where
  arg : Fin 5 → UInt64

/-- {lit}`struct ag_header`: the front of every event. -/
structure AgHeader where
  magic : UInt32
  instanceId : UInt64
  revision : UInt64
  run : UInt64
  clock : UInt64
  sequence : UInt64
  failures : UInt64

/-- {lit}`struct ag_frame` without its constants and its payload. -/
structure AgFrame where
  side : Nat
  owner : UInt64
  exchange : UInt64
  status : Nat
  phase : Nat
  invocation : UInt64
deriving DecidableEq

/-- A frame of zeros. -/
def AgFrame.zero : AgFrame where
  side := 0
  owner := 0
  exchange := 0
  status := 0
  phase := 0
  invocation := 0

/-- The magic of an HTTP record. -/
def httpMagic : UInt32 := 0x5253504d

/-- The magic of a method record. -/
def methodMagic : UInt32 := 0x544d4554

/-- One call of {lit}`activity_scope`: its context, the event, and the memory it reads. -/
structure ScopeCall where
  ctx : AgCtx
  event : AgHeader
  mem : ProbeMemory

/-- {lit}`http`. -/
def ScopeCall.Http (call : ScopeCall) : Prop := call.event.magic = httpMagic

instance (call : ScopeCall) : Decidable call.Http := inferInstanceAs (Decidable (_ = _))

/-- {lit}`code`: the event code of an HTTP record. -/
def ScopeCall.code (call : ScopeCall) : Nat :=
  if call.Http then (call.ctx.arg 1).toNat % 2 ^ 32 else 0

/-- The place of the record among the calls of its producer. -/
def ScopeCall.invocation (call : ScopeCall) : UInt64 :=
  if call.Http then call.event.sequence else (call.event.sequence - 1) / 4 + 1

/-- The event is not one of a working producer. -/
def ScopeCall.Invalid (call : ScopeCall) : Prop :=
  call.event.instanceId = 0 ∨ call.event.run = 0 ∨ call.event.sequence = 0 ∨
    call.event.failures ≠ 0

instance (call : ScopeCall) : Decidable call.Invalid := inferInstanceAs (Decidable (_ ∨ _))

/-! ## The flow -/

/-- A flow address that is not aligned or too high. -/
def badFlow (flow : UInt64) : Prop := flow &&& 63 ≠ 0 ∨ flow > 0xffffffffffffffff - 80

instance (flow : UInt64) : Decidable (badFlow flow) := inferInstanceAs (Decidable (_ ∨ _))

/-- The side of a flow, by its type word: 1 is the client's, 2 the server's, 0 another. -/
def flowSide (type : Nat) : Nat :=
  if (type >>> 8) &&& 0xc0 = 0x40 then 1 else if (type >>> 8) &&& 0xc0 = 0x80 then 2 else 0

/-- The type word is that of a flow. -/
def flowType (type : Nat) : Prop := type &&& 255 = 6

instance (type : Nat) : Decidable (flowType type) := inferInstanceAs (Decidable (_ = _))

/-- A little-endian word of memory. -/
def readWord (mem : ProbeMemory) (a n : Nat) : Option Nat := (probe mem a n).map ofLittleEndian

/-- The first part of {lit}`activity_scope`: the client flow and the frame so far, or the
frame it returns with. -/
def flowScope (call : ScopeCall) : Except AgFrame (UInt64 × AgFrame) :=
  let flow := call.ctx.arg 2
  if call.Invalid then .error { AgFrame.zero with status := 6 }
  else
    let frame := { AgFrame.zero with invocation := call.invocation }
    if call.ctx.arg 0 = 0 ∨ flow = 0 then .error frame
    else if badFlow flow then .error { frame with status := 2 }
    else
      match readWord call.mem (flow.toNat + 36) 2 with
      | none => .error { frame with status := 3 }
      | some type =>
          if ¬flowType type ∨ (type >>> 8) &&& 0xc0 = 0xc0 then .error { frame with status := 2 }
          else
            let frame := { frame with side := flowSide type }
            if flowSide type = 0 then .error { frame with status := 2 }
            else if flowSide type = 2 then
              match readWord call.mem (flow.toNat + 72) 8 with
              | none => .error { frame with status := 3 }
              | some word =>
                  let client := UInt64.ofNat word
                  if client = 0 ∨ badFlow client then .error { frame with status := 2 }
                  else
                    match readWord call.mem (client.toNat + 36) 2,
                        readWord call.mem (client.toNat + 72) 8 with
                    | some type, some back =>
                        if ¬flowType type ∨ (type >>> 8) &&& 0xc0 ≠ 0x40 ∨
                            UInt64.ofNat back ≠ flow then
                          .error { frame with status := 2 }
                        else .ok (client, frame)
                    | _, _ => .error { frame with status := 3 }
            else .ok (flow, frame)

/-! ## The exchange -/

/-- {lit}`activity_forget`. -/
def activityForget (m : LsMap) (client : UInt64) : LsMap :=
  let (limit, m) := lsMapLookup m (wordBytes 0)
  match limit with
  | none => m
  | some limit =>
      if (entryAt m limit).number ≠ 0 then
        let (deleted, m) := lsMapDelete m (wordBytes client)
        if deleted then setWord m limit 2 ((entryAt m limit).number - 1) else m
      else m

/-- An exchange of zeros. -/
def AgExchange.zero : AgExchange where
  run := 0
  owner := 0
  number := 0
  state := 0

/-- The value of key zero, made of zeros where it is not there. -/
def activityLimit (m : LsMap) : Option Nat × LsMap :=
  let (limit, m) := lsMapLookup m (wordBytes 0)
  match limit with
  | some limit => (some limit, m)
  | none =>
      let (stored, m) := lsMapUpdate m (wordBytes 0) AgExchange.zero.bytes
      if stored then lsMapLookup m (wordBytes 0) else (none, m)

/-- The admission of one more flow: {lit}`false` is a refusal. -/
def activityAdmit (m : LsMap) : Bool × LsMap :=
  let (limit, m) := activityLimit m
  match limit with
  | none => (false, m)
  | some limit =>
      if (entryAt m limit).number ≥ 127 then (false, m)
      else (true, setWord m limit 2 ((entryAt m limit).number + 1))

/-- The exchange that a method of the client starts. -/
def startedBy (event : AgHeader) : AgExchange where
  run := event.run
  owner := event.instanceId
  number := event.sequence
  state := 1

/-- A method of the client: it poisons the exchange it overlaps, or starts one. -/
def activityStart (m : LsMap) (client : UInt64) (entry : Option Nat) (event : AgHeader)
    (frame : AgFrame) : AgFrame × LsMap :=
  let overlaps := entry.filter fun off =>
    (entryAt m off).run = event.run ∧ (entryAt m off).owner = event.instanceId ∧
      (entryAt m off).state ≠ 0
  match overlaps with
  | some off =>
      ({ frame with
        owner := (entryAt m off).owner
        exchange := (entryAt m off).number
        phase := 4
        status := 4 }, setWord m off 3 3)
  | none =>
      let (admitted, m) :=
        match entry with
        | some off => (true, setWord (setWord m off 2 0) off 3 0)
        | none => activityAdmit m
      if admitted then
        let (stored, m) := lsMapUpdate m (wordBytes client) (startedBy event).bytes
        if stored then
          ({ frame with
            owner := event.instanceId
            exchange := event.sequence
            phase := 1
            status := 1 }, m)
        else ({ frame with status := 5 }, m)
      else ({ frame with status := 5 }, m)

/-- A client's request event: it confirms the exchange, or poisons it. -/
def activityConfirm (m : LsMap) (off : Nat) (call : ScopeCall) (frame : AgFrame) :
    AgFrame × LsMap :=
  let info := call.ctx.arg 3
  let frame := { frame with phase := 4, status := 2 }
  if (entryAt m off).state = 1 ∧ info ≠ 0 ∧ info ≤ 0xffffffffffffffff - 29 then
    match readWord call.mem (info.toNat + 28) 1 with
    | none => ({ frame with status := 3 }, setWord m off 3 3)
    | some flags =>
        if flags &&& 3 = 2 then ({ frame with phase := 2, status := 1 }, setWord m off 3 2)
        else (frame, setWord m off 3 3)
  else (frame, setWord m off 3 3)

/-- Everything after the lookup of the client's exchange. -/
def activityExchange (m : LsMap) (client : UInt64) (entry : Option Nat) (call : ScopeCall)
    (frame : AgFrame) : AgFrame × LsMap :=
  let event := call.event
  let code := call.code
  if code = 57 ∧ frame.side = 1 then
    match entry with
    | none => (frame, m)
    | some off =>
        let e := entryAt m off
        (if e.run = event.run ∧ e.number ≠ 0 then
          { frame with owner := e.owner, exchange := e.number, phase := 4, status := 1 }
        else frame, activityForget m client)
  else if event.magic = methodMagic ∧ frame.side = 1 then
    activityStart m client entry event frame
  else
    match entry with
    | none => (frame, m)
    | some off =>
        let e := entryAt m off
        if e.run ≠ event.run ∨ e.number = 0 then (frame, m)
        else if ¬call.Http ∧ e.owner ≠ event.instanceId then (frame, m)
        else
          let keyed := { frame with owner := e.owner, exchange := e.number }
          if code = 1 ∨ code = 5 then
            ({ keyed with phase := 4, status := 1 }, activityForget m client)
          else if e.state = 3 then ({ frame with status := 4 }, m)
          else if code = 142 ∧ frame.side = 1 then activityConfirm m off call keyed
          else if frame.side = 2 ∧ e.state ≠ 2 then (frame, m)
          else if code = 29 ∧ frame.side = 1 then
            ({ keyed with phase := 3, status := 1 }, activityForget m client)
          else ({ keyed with phase := 2, status := 1 }, m)

/-- What a call of {lit}`activity_scope` leaves: the frame, the client flow it was about,
if it came that far, and the table. -/
structure ScopeResult where
  frame : AgFrame
  client : Option UInt64
  map : LsMap

/-- {lit}`activity_scope`. -/
def activityScope (call : ScopeCall) (m : LsMap) : ScopeResult :=
  match flowScope call with
  | .error frame => { frame, client := none, map := m }
  | .ok (client, frame) =>
      let (entry, m) := lsMapLookup m (wordBytes client)
      let (frame, m) := activityExchange m client entry call frame
      { frame, client := some client, map := m }

/-! ## Counted tables -/

/-- The count under key zero is that of the other cells, and bounded. -/
structure Counted (m : LsMap) : Prop where
  shape : Shape m
  empty : exchanges m 0 = none → cells m = 0
  count : ∀ z, exchanges m 0 = some z → cells m = z.number.toNat + 1 ∧ z.number.toNat ≤ 127

section CountedTables

variable {m : LsMap} {client : UInt64}

/-- A key that is there has a cell. -/
theorem cells_pos (hm : Shape m) {k : UInt64} (h : exchanges m k ≠ none) : 0 < cells m := by
  obtain ⟨-, -, -, -, hcells⟩ := remove_spec hm k h
  omega

/-- A key beside key zero means that key zero counts it. -/
theorem Counted.number_pos (h : Counted m) (hclient : client ≠ 0)
    (hpresent : exchanges m client ≠ none) :
    ∃ z, exchanges m 0 = some z ∧ 1 ≤ z.number.toNat := by
  cases hzero : exchanges m 0 with
  | none =>
      have hpos := cells_pos h.shape hpresent
      rw [h.empty hzero] at hpos
      contradiction
  | some z =>
      refine ⟨z, rfl, ?_⟩
      obtain ⟨-, hshape, hexchanges, -, hcells⟩ := remove_spec h.shape client hpresent
      have hzero' : exchanges (lsMapDelete m (wordBytes client)).2 0 ≠ none := by
        rw [hexchanges, Function.update_of_ne hclient.symm, hzero]
        simp
      have hpos := cells_pos hshape hzero'
      have hcount := (h.count z hzero).1
      omega

/-- A lookup keeps a table counted. -/
theorem Counted.lookup (h : Counted m) (k : UInt64) :
    Counted (lsMapLookup m (wordBytes k)).2 := by
  obtain ⟨hshape, hexchanges, -, hcells, -⟩ := lookup_spec h.shape k
  refine ⟨hshape, ?_, ?_⟩
  · rw [hexchanges, hcells]
    exact h.empty
  · rw [hexchanges, hcells]
    exact h.count

/-- A write to a client's exchange keeps a table counted. -/
theorem Counted.setWord (h : Counted m) (hclient : client ≠ 0) {off i : Nat}
    (hpoints : Points m client off) (hi : i < 4) (x : UInt64) :
    Counted (setWord m off i x) := by
  obtain ⟨hshape, -, hexchanges, -, hcells⟩ := setWord_spec h.shape hpoints hi x
  refine ⟨hshape, ?_, ?_⟩
  · rw [hexchanges, hcells, Function.update_of_ne hclient.symm]
    exact h.empty
  · rw [hexchanges, hcells, Function.update_of_ne hclient.symm]
    exact h.count

/-- What one operation does to the exchange of a client, and to nothing else. -/
structure Becomes (m m' : LsMap) (client : UInt64) (after : Option AgExchange) : Prop where
  counted : Counted m'
  exchange : exchanges m' client = after
  frame : ∀ k, k ≠ 0 → k ≠ client → exchanges m' k = exchanges m k
  evictions : m'.evictions = m.evictions

/-- Forgetting a client that has an exchange deletes it and counts it down. -/
theorem activityForget_spec (h : Counted m) (hclient : client ≠ 0)
    (hpresent : exchanges m client ≠ none) :
    Becomes m (activityForget m client) client none := by
  obtain ⟨z, hz, hpos⟩ := h.number_pos hclient hpresent
  obtain ⟨hcells, hle⟩ := h.count z hz
  obtain ⟨hshape, hexchanges, hevictions, hsame, hnone, hsome⟩ := lookup_spec h.shape 0
  rw [activityForget]
  generalize lsMapLookup m (wordBytes 0) = found at *
  obtain ⟨limit, m₁⟩ := found
  cases limit with
  | none =>
      rw [hnone rfl] at hz
      contradiction
  | some limit =>
      obtain ⟨⟨s, hs, hlimit⟩, hentry⟩ := hsome limit rfl
      simp only at hshape hexchanges hevictions hsame hs hentry
      have hentryZ : entryAt m₁ limit = z := Option.some.inj (hentry.symm.trans hz)
      have hnumber : (entryAt m₁ limit).number ≠ 0 := by
        rw [hentryZ]
        intro hzero
        rw [hzero] at hpos
        contradiction
      have hpresent₁ : exchanges m₁ client ≠ none := by
        rw [hexchanges]
        exact hpresent
      obtain ⟨hdeleted, hshape₂, hexchanges₂, hevictions₂, hcells₂⟩ :=
        remove_spec hshape client hpresent₁
      have hpoints₂ : Points (lsMapDelete m₁ (wordBytes client)).2 0 limit :=
        Points.remove hshape ⟨s, hs, hlimit⟩ hclient.symm
      obtain ⟨hshape₃, hpoints₃, hexchanges₃, hevictions₃, hcells₃⟩ :=
        setWord_spec hshape₂ hpoints₂ (i := 2) (by omega)
          ((entryAt (lsMapDelete m₁ (wordBytes client)).2 limit).number - 1)
      have hentry₂ : entryAt (lsMapDelete m₁ (wordBytes client)).2 limit = z := by
        have hzero := hpoints₂.entry hshape₂
        rw [hexchanges₂, Function.update_of_ne hclient.symm, hexchanges, hz] at hzero
        exact (Option.some.inj hzero).symm
      simp only [if_pos hnumber, hdeleted, if_true]
      rw [hentry₂] at hexchanges₃ hcells₃ hevictions₃ hshape₃ ⊢
      have hsub : (z.number - 1).toNat = z.number.toNat - 1 := by
        rw [UInt64.toNat_sub_of_le]
        · rfl
        · exact hpos
      refine ⟨⟨hshape₃, ?_, ?_⟩, ?_, ?_, ?_⟩
      · intro hzero
        rw [hexchanges₃, Function.update_self] at hzero
        exact (Option.some_ne_none _ hzero).elim
      · intro z' hz'
        rw [hexchanges₃, Function.update_self] at hz'
        have hz'eq : z'.number = z.number - 1 := by
          rw [← Option.some.inj hz']
          rfl
        rw [hz'eq, hsub, hcells₃]
        omega
      · rw [hexchanges₃, Function.update_of_ne hclient, hexchanges₂, Function.update_self]
      · intro k hk hkclient
        rw [hexchanges₃, Function.update_of_ne hk, hexchanges₂, Function.update_of_ne hkclient,
          hexchanges]
      · rw [hevictions₃, hevictions₂, hevictions]

/-- The value of key zero is there, or is made; other keys keep their exchanges. -/
theorem activityLimit_spec (h : Counted m) :
    ∃ limit, (activityLimit m).1 = some limit ∧ Counted (activityLimit m).2 ∧
      Points (activityLimit m).2 0 limit ∧
      (∀ k, k ≠ 0 → exchanges (activityLimit m).2 k = exchanges m k) ∧
      (activityLimit m).2.evictions = m.evictions := by
  have hlookup := h.lookup 0
  obtain ⟨hshape, hexchanges, hevictions, hcells, hnone, hsome⟩ := lookup_spec h.shape 0
  rw [activityLimit]
  generalize lsMapLookup m (wordBytes 0) = found at *
  obtain ⟨limit, m₁⟩ := found
  cases limit with
  | some limit =>
      exact ⟨limit, rfl, hlookup, (hsome limit rfl).1, fun k _ => by rw [hexchanges], hevictions⟩
  | none =>
      simp only at hshape hexchanges hevictions hcells hlookup
      have hzero : exchanges m₁ 0 = none := by
        rw [hexchanges]
        exact hnone rfl
      have hroom : exchanges m₁ 0 ≠ none ∨ cells m₁ < 128 := by
        rw [hlookup.empty hzero]
        exact .inr (by omega)
      obtain ⟨hok, hshape₂, hexchanges₂, hevictions₂, hcells₂⟩ :=
        put_spec hshape 0 AgExchange.zero hroom
      rw [if_pos hzero, hlookup.empty hzero] at hcells₂
      have hcounted₂ : Counted (lsMapUpdate m₁ (wordBytes 0) AgExchange.zero.bytes).2 := by
        refine ⟨hshape₂, ?_, ?_⟩
        · intro hnone₂
          rw [hexchanges₂, Function.update_self] at hnone₂
          exact (Option.some_ne_none _ hnone₂).elim
        · intro z hz
          rw [hexchanges₂, Function.update_self] at hz
          rw [← Option.some.inj hz, hcells₂]
          exact ⟨rfl, Nat.zero_le _⟩
      obtain ⟨-, hexchanges₃, hevictions₃, -, hnone₃, hsome₃⟩ := lookup_spec hshape₂ 0
      have hcounted₃ := hcounted₂.lookup 0
      simp only [hok, if_true]
      cases hlimit : (lsMapLookup (lsMapUpdate m₁ (wordBytes 0) AgExchange.zero.bytes).2
          (wordBytes 0)).1 with
      | none =>
          have hgone := hnone₃ hlimit
          rw [hexchanges₂, Function.update_self] at hgone
          exact (Option.some_ne_none _ hgone).elim
      | some limit =>
          refine ⟨limit, rfl, hcounted₃, (hsome₃ limit hlimit).1, ?_, ?_⟩
          · intro k hk
            rw [hexchanges₃, hexchanges₂, Function.update_of_ne hk, hexchanges]
          · rw [hevictions₃, hevictions₂, hevictions]

/-- A table in which the count is one ahead of the cells. -/
structure Admitted (m m' : LsMap) : Prop where
  shape : Shape m'
  count : ∃ z, exchanges m' 0 = some z ∧ z.number.toNat = cells m' ∧ cells m' ≤ 127
  frame : ∀ k, k ≠ 0 → exchanges m' k = exchanges m k
  evictions : m'.evictions = m.evictions

/-- An admission counts one cell ahead; a refusal changes no exchange. -/
theorem activityAdmit_spec (h : Counted m) :
    ((activityAdmit m).1 = true ∧ Admitted m (activityAdmit m).2) ∨
      ((activityAdmit m).1 = false ∧ Counted (activityAdmit m).2 ∧
        (∀ k, k ≠ 0 → exchanges (activityAdmit m).2 k = exchanges m k) ∧
        (activityAdmit m).2.evictions = m.evictions) := by
  obtain ⟨limit, hlimit, hcounted, hpoints, hframe, hevictions⟩ := activityLimit_spec h
  rw [activityAdmit]
  generalize activityLimit m = found at *
  obtain ⟨limit', m₁⟩ := found
  simp only at hlimit hcounted hpoints hframe hevictions
  subst hlimit
  have hentry := hpoints.entry hcounted.shape
  obtain ⟨hcells, hle⟩ := hcounted.count _ hentry
  by_cases hfull : (entryAt m₁ limit).number ≥ 127
  · refine .inr ?_
    simp only [if_pos hfull]
    exact ⟨trivial, hcounted, hframe, hevictions⟩
  · refine .inl ?_
    simp only [if_neg hfull]
    obtain ⟨hshape₂, -, hexchanges₂, hevictions₂, hcells₂⟩ :=
      setWord_spec hcounted.shape hpoints (i := 2) (by omega) ((entryAt m₁ limit).number + 1)
    have hlt : (entryAt m₁ limit).number.toNat < 127 := by
      have := UInt64.not_le.mp hfull
      exact UInt64.lt_iff_toNat_lt.mp this
    have hsucc : ((entryAt m₁ limit).number + 1).toNat = (entryAt m₁ limit).number.toNat + 1 := by
      rw [UInt64.toNat_add]
      exact Nat.mod_eq_of_lt (by simp; omega)
    refine ⟨trivial, hshape₂, ⟨_, by rw [hexchanges₂, Function.update_self], ?_, ?_⟩, ?_, ?_⟩
    · rw [hcells₂, hcells, ← hsucc]
      rfl
    · rw [hcells₂, hcells]
      omega
    · intro k hk
      rw [hexchanges₂, Function.update_of_ne hk]
      exact hframe k hk
    · rw [hevictions₂, hevictions]

/-- A store for an admitted client completes the count. -/
theorem Admitted.put {m' : LsMap} (h : Admitted m m') (hclient : client ≠ 0)
    (habsent : exchanges m client = none) (e : AgExchange) :
    (lsMapUpdate m' (wordBytes client) e.bytes).1 = true ∧
      Becomes m (lsMapUpdate m' (wordBytes client) e.bytes).2 client (some e) := by
  obtain ⟨z, hz, hnumber, hle⟩ := h.count
  obtain ⟨hok, hshape, hexchanges, hevictions, hcells⟩ :=
    put_spec h.shape client e (.inr (by omega))
  have habsent' : exchanges m' client = none := by
    rw [h.frame client hclient]
    exact habsent
  rw [if_pos habsent'] at hcells
  refine ⟨hok, ⟨hshape, ?_, ?_⟩, ?_, ?_, ?_⟩
  · intro hnone
    rw [hexchanges, Function.update_of_ne hclient.symm, hz] at hnone
    exact (Option.some_ne_none _ hnone).elim
  · intro z' hz'
    rw [hexchanges, Function.update_of_ne hclient.symm, hz] at hz'
    rw [← Option.some.inj hz', hcells]
    omega
  · rw [hexchanges, Function.update_self]
  · intro k hk hkclient
    rw [hexchanges, Function.update_of_ne hkclient]
    exact h.frame k hk
  · rw [hevictions, h.evictions]

/-- A store for a client that has an exchange replaces it. -/
theorem Counted.put (h : Counted m) (hclient : client ≠ 0)
    (hpresent : exchanges m client ≠ none) (e : AgExchange) :
    (lsMapUpdate m (wordBytes client) e.bytes).1 = true ∧
      Becomes m (lsMapUpdate m (wordBytes client) e.bytes).2 client (some e) := by
  obtain ⟨hok, hshape, hexchanges, hevictions, hcells⟩ :=
    put_spec h.shape client e (.inl hpresent)
  rw [if_neg hpresent] at hcells
  refine ⟨hok, ⟨hshape, ?_, ?_⟩, ?_, ?_, hevictions⟩
  · rw [hexchanges, Function.update_of_ne hclient.symm, hcells]
    exact h.empty
  · rw [hexchanges, Function.update_of_ne hclient.symm, hcells]
    exact h.count
  · rw [hexchanges, Function.update_self]
  · intro k _ hkclient
    rw [hexchanges, Function.update_of_ne hkclient]

/-- A write to a word of the client's exchange. -/
theorem Counted.becomes_setWord (h : Counted m) (hclient : client ≠ 0) {off i : Nat}
    (hpoints : Points m client off) (hi : i < 4) (x : UInt64) :
    Becomes m (Tracker.setWord m off i x) client (some ((entryAt m off).set i x)) := by
  obtain ⟨-, -, hexchanges, hevictions, -⟩ := setWord_spec h.shape hpoints hi x
  refine ⟨h.setWord hclient hpoints hi x, ?_, ?_, hevictions⟩
  · rw [hexchanges, Function.update_self]
  · intro k _ hkclient
    rw [hexchanges, Function.update_of_ne hkclient]

/-- Two operations on the same client. -/
theorem Becomes.trans {m' m'' : LsMap} {middle after : Option AgExchange}
    (h : Becomes m m' client middle) (h' : Becomes m' m'' client after) :
    Becomes m m'' client after :=
  ⟨h'.counted, h'.exchange, fun k hk hkclient =>
    (h'.frame k hk hkclient).trans (h.frame k hk hkclient), h'.evictions.trans h.evictions⟩

end CountedTables

/-! ## What a call can do -/

/-- The frame of an exchange. -/
def AgFrame.keyed (frame : AgFrame) (e : AgExchange) (phase status : Nat) : AgFrame :=
  { frame with owner := e.owner, exchange := e.number, phase, status }

/-- A method record from the client's side. -/
def Starts (call : ScopeCall) (side : Nat) : Prop :=
  call.event.magic = methodMagic ∧ side = 1

/-- One call, as a step on the exchange of its client: what was there, the frame, and
what is there after. -/
inductive Scoped (call : ScopeCall) (base : AgFrame) :
    Option AgExchange → AgFrame → Option AgExchange → Prop
  /-- The frame carries no exchange. -/
  | quiet (before : Option AgExchange) (status : Nat) :
      Scoped call base before { base with status } before
  /-- A new request on the flow clears an exchange of another run. -/
  | cleared (e : AgExchange) : Scoped call base (some e) base none
  /-- A new request on the flow, an abort or a teardown. -/
  | ended {e : AgExchange} (hrun : e.run = call.event.run) (hnumber : e.number ≠ 0)
      (hcode : call.code = 57 ∧ base.side = 1 ∨ call.code = 1 ∨ call.code = 5) :
      Scoped call base (some e) (base.keyed e 4 1) none
  /-- The client's response. -/
  | finished {e : AgExchange} (hrun : e.run = call.event.run) (hnumber : e.number ≠ 0)
      (hstate : e.state ≠ 3) (hcode : call.code = 29) (hside : base.side = 1) :
      Scoped call base (some e) (base.keyed e 3 1) none
  /-- A second start poisons the first. -/
  | overlapped {e : AgExchange} (hrun : e.run = call.event.run)
      (howner : e.owner = call.event.instanceId) (hstate : e.state ≠ 0) (hstarts : Starts call base.side) :
      Scoped call base (some e) (base.keyed e 4 4) (some { e with state := 3 })
  | started {before : Option AgExchange} (hstarts : Starts call base.side) :
      Scoped call base before (base.keyed (startedBy call.event) 1 1)
        (some (startedBy call.event))
  | confirmed {e : AgExchange} (hrun : e.run = call.event.run) (hnumber : e.number ≠ 0)
      (hstate : e.state = 1) (hcode : call.code = 142) (hside : base.side = 1) :
      Scoped call base (some e) (base.keyed e 2 1) (some { e with state := 2 })
  | rejected {e : AgExchange} (status : Nat) (hrun : e.run = call.event.run)
      (hnumber : e.number ≠ 0) (hcode : call.code = 142) (hside : base.side = 1) :
      Scoped call base (some e) (base.keyed e 4 status) (some { e with state := 3 })
  | field {e : AgExchange} (hrun : e.run = call.event.run) (hnumber : e.number ≠ 0)
      (howner : call.Http ∨ e.owner = call.event.instanceId) (hstate : e.state ≠ 3)
      (hside : base.side = 2 → e.state = 2) :
      Scoped call base (some e) (base.keyed e 2 1) (some e)

section Exchange

variable {m : LsMap} {client : UInt64} {entry : Option Nat} {call : ScopeCall} {base : AgFrame}

/-- The result of the lookup of a client's exchange. -/
structure Found (m : LsMap) (client : UInt64) (entry : Option Nat) : Prop where
  absent : entry = none → exchanges m client = none
  points : ∀ off, entry = some off → Points m client off

/-- What a step leaves, with nothing else changed. -/
def Leaves (call : ScopeCall) (base : AgFrame) (m : LsMap) (client : UInt64)
    (result : AgFrame × LsMap) : Prop :=
  ∃ after, Scoped call base (exchanges m client) result.1 after ∧
    Becomes m result.2 client after

/-- A step that leaves the table as it was. -/
theorem Leaves.same (h : Counted m) {frame : AgFrame}
    (hscoped : Scoped call base (exchanges m client) frame (exchanges m client)) :
    Leaves call base m client (frame, m) :=
  ⟨exchanges m client, hscoped, ⟨h, rfl, fun _ _ _ => rfl, rfl⟩⟩

/-- A step that writes the state of the client's exchange. -/
theorem Leaves.poke (h : Counted m) (hclient : client ≠ 0) {off : Nat}
    (hpoints : Points m client off) {frame : AgFrame} (x : UInt64)
    (hscoped : Scoped call base (some (entryAt m off)) frame
      (some { entryAt m off with state := x })) :
    Leaves call base m client (frame, setWord m off 3 x) := by
  refine ⟨some { entryAt m off with state := x }, ?_, ?_⟩
  · rw [hpoints.entry h.shape]
    exact hscoped
  · exact h.becomes_setWord hclient hpoints (by omega) x

/-- A step that forgets the client's exchange. -/
theorem Leaves.forget (h : Counted m) (hclient : client ≠ 0) {off : Nat}
    (hpoints : Points m client off) {frame : AgFrame}
    (hscoped : Scoped call base (some (entryAt m off)) frame none) :
    Leaves call base m client (frame, activityForget m client) := by
  have hentry := hpoints.entry h.shape
  refine ⟨none, ?_, ?_⟩
  · rw [hentry]
    exact hscoped
  · refine activityForget_spec h hclient ?_
    rw [hentry]
    exact Option.some_ne_none _

/-- A method of the client. -/
theorem activityStart_leaves (h : Counted m) (hclient : client ≠ 0)
    (hfound : Found m client entry) (hstarts : Starts call base.side) :
    Leaves call base m client (activityStart m client entry call.event base) := by
  cases entry with
  | none =>
      have habsent := hfound.absent rfl
      simp only [activityStart, Option.filter_none]
      rcases activityAdmit_spec h with ⟨hok, hadmitted⟩ | ⟨hno, hcounted, hframe, hevictions⟩
      · obtain ⟨hstored, hbecomes⟩ := hadmitted.put hclient habsent (startedBy call.event)
        simp only [hok, hstored, if_true]
        exact ⟨_, .started hstarts, hbecomes⟩
      · simp only [hno, Bool.false_eq_true, if_false]
        exact ⟨_, .quiet _ 5, ⟨hcounted, hframe client hclient, fun k hk _ => hframe k hk,
          hevictions⟩⟩
  | some off =>
      have hpoints := hfound.points off rfl
      by_cases hoverlaps : (entryAt m off).run = call.event.run ∧
          (entryAt m off).owner = call.event.instanceId ∧ (entryAt m off).state ≠ 0
      · simp only [activityStart, Option.filter_some, hoverlaps, ne_eq, not_false_eq_true,
          and_self, decide_true, if_true]
        rw [← hoverlaps.2.1]
        exact Leaves.poke h hclient hpoints 3
          (.overlapped hoverlaps.1 hoverlaps.2.1 hoverlaps.2.2 hstarts)
      · have hnumber := h.becomes_setWord hclient hpoints (i := 2) (by omega) 0
        obtain ⟨-, hpoints₂, -⟩ := setWord_spec h.shape hpoints (i := 2) (by omega) 0
        have hstate := hnumber.counted.becomes_setWord hclient hpoints₂ (i := 3) (by omega) 0
        have hpresent : exchanges (setWord (setWord m off 2 0) off 3 0) client ≠ none := by
          rw [hstate.exchange]
          exact Option.some_ne_none _
        obtain ⟨hstored, hbecomes⟩ :=
          hstate.counted.put hclient hpresent (startedBy call.event)
        have hfilter : (some off).filter (fun off => decide ((entryAt m off).run = call.event.run ∧
            (entryAt m off).owner = call.event.instanceId ∧ (entryAt m off).state ≠ 0)) = none := by
          rw [Option.filter_some, if_neg]
          simpa using hoverlaps
        simp only [activityStart, hfilter, hstored, if_true]
        exact ⟨_, .started hstarts, (hnumber.trans hstate).trans hbecomes⟩

/-- A client's request event. -/
theorem activityConfirm_leaves (h : Counted m) (hclient : client ≠ 0) {off : Nat}
    (hpoints : Points m client off) (hrun : (entryAt m off).run = call.event.run)
    (hnumber : (entryAt m off).number ≠ 0) (hcode : call.code = 142) (hside : base.side = 1) :
    Leaves call base m client (activityConfirm m off call
      { base with owner := (entryAt m off).owner, exchange := (entryAt m off).number }) := by
  have hpoison : ∀ status, Leaves call base m client
      (base.keyed (entryAt m off) 4 status, setWord m off 3 3) := fun status =>
    Leaves.poke h hclient hpoints 3 (.rejected status hrun hnumber hcode hside)
  rw [activityConfirm]
  by_cases hready : (entryAt m off).state = 1 ∧ call.ctx.arg 3 ≠ 0 ∧
      call.ctx.arg 3 ≤ 0xffffffffffffffff - 29
  · simp only [if_pos hready]
    cases readWord call.mem ((call.ctx.arg 3).toNat + 28) 1 with
    | none => exact hpoison 3
    | some flags =>
        by_cases hflags : flags &&& 3 = 2
        · simp only [if_pos hflags]
          exact Leaves.poke h hclient hpoints 2
            (.confirmed hrun hnumber hready.1 hcode hside)
        · simp only [if_neg hflags]
          exact hpoison 2
  · simp only [if_neg hready]
    exact hpoison 2

/-- Everything after the lookup is one step on the client's exchange. -/
theorem activityExchange_leaves (h : Counted m) (hclient : client ≠ 0)
    (hfound : Found m client entry) (hstatus : base.status = 0) :
    Leaves call base m client (activityExchange m client entry call base) := by
  have hquiet : ∀ status, Leaves call base m client ({ base with status }, m) := fun status =>
    Leaves.same h (.quiet _ status)
  have hbase : Leaves call base m client (base, m) := by
    have hzero := hquiet 0
    rwa [← hstatus] at hzero
  unfold activityExchange
  simp only
  by_cases hreset : call.code = 57 ∧ base.side = 1
  · rw [if_pos hreset]
    cases entry with
    | none => exact hbase
    | some off =>
        have hpoints := hfound.points off rfl
        by_cases hlive : (entryAt m off).run = call.event.run ∧ (entryAt m off).number ≠ 0
        · simp only [if_pos hlive]
          exact Leaves.forget h hclient hpoints (.ended hlive.1 hlive.2 (.inl hreset))
        · simp only [if_neg hlive]
          exact Leaves.forget h hclient hpoints (.cleared _)
  · rw [if_neg hreset]
    by_cases hstarts : call.event.magic = methodMagic ∧ base.side = 1
    · rw [if_pos hstarts]
      exact activityStart_leaves h hclient hfound hstarts
    · rw [if_neg hstarts]
      cases entry with
      | none => exact hbase
      | some off =>
          have hpoints := hfound.points off rfl
          simp only
          by_cases hother : (entryAt m off).run ≠ call.event.run ∨ (entryAt m off).number = 0
          · rw [if_pos hother]
            exact hbase
          rw [if_neg hother]
          obtain ⟨hrun, hnumber⟩ := not_or.mp hother
          rw [not_ne_iff] at hrun
          by_cases howner : ¬call.Http ∧ (entryAt m off).owner ≠ call.event.instanceId
          · rw [if_pos howner]
            exact hbase
          rw [if_neg howner]
          by_cases hend : call.code = 1 ∨ call.code = 5
          · rw [if_pos hend]
            exact Leaves.forget h hclient hpoints (.ended hrun hnumber (.inr hend))
          rw [if_neg hend]
          by_cases hpoisoned : (entryAt m off).state = 3
          · rw [if_pos hpoisoned]
            exact hquiet 4
          rw [if_neg hpoisoned]
          by_cases hconfirm : call.code = 142 ∧ base.side = 1
          · rw [if_pos hconfirm]
            exact activityConfirm_leaves h hclient hpoints hrun hnumber hconfirm.1 hconfirm.2
          rw [if_neg hconfirm]
          by_cases hserver : base.side = 2 ∧ (entryAt m off).state ≠ 2
          · rw [if_pos hserver]
            exact hbase
          rw [if_neg hserver]
          by_cases hfinish : call.code = 29 ∧ base.side = 1
          · rw [if_pos hfinish]
            exact Leaves.forget h hclient hpoints (.finished hrun hnumber hpoisoned hfinish.1 hfinish.2)
          rw [if_neg hfinish]
          refine Leaves.same h ?_
          rw [hpoints.entry h.shape]
          have hreader : call.Http ∨ (entryAt m off).owner = call.event.instanceId := by
            rw [not_and_or, not_not, not_ne_iff] at howner
            exact howner
          refine .field hrun hnumber hreader hpoisoned ?_
          intro hside
          by_contra hstate
          exact hserver ⟨hside, hstate⟩

/-- The frame of a call that reaches the table, before anything is known of its exchange. -/
structure Base (call : ScopeCall) (base : AgFrame) : Prop where
  valid : ¬call.Invalid
  side : base.side = 1 ∨ base.side = 2
  owner : base.owner = 0
  exchange : base.exchange = 0
  status : base.status = 0
  phase : base.phase = 0
  invocation : base.invocation = call.invocation

/-- A call that does not reach the table leaves a frame without an exchange. -/
theorem flowScope_error {frame : AgFrame} (h : flowScope call = .error frame) :
    frame.exchange = 0 := by
  simp only [flowScope] at h
  repeat' split at h
  all_goals
    first
    | contradiction
    | rw [← Except.error.inj h]; rfl

/-- The front of {lit}`activity_scope`. -/
theorem flowScope_ok (h : flowScope call = .ok (client, base)) : client ≠ 0 ∧ Base call base := by
  rw [flowScope] at h
  by_cases hinvalid : call.Invalid
  · simp only [if_pos hinvalid] at h
    contradiction
  simp only [if_neg hinvalid] at h
  by_cases harg : call.ctx.arg 0 = 0 ∨ call.ctx.arg 2 = 0
  · simp only [if_pos harg] at h
    contradiction
  simp only [if_neg harg] at h
  by_cases hbad : badFlow (call.ctx.arg 2)
  · simp only [if_pos hbad] at h
    contradiction
  simp only [if_neg hbad] at h
  cases htype : readWord call.mem ((call.ctx.arg 2).toNat + 36) 2 with
  | none =>
      simp only [htype] at h
      contradiction
  | some type =>
      simp only [htype] at h
      by_cases hkind : ¬flowType type ∨ (type >>> 8) &&& 0xc0 = 0xc0
      · simp only [if_pos hkind] at h
        contradiction
      simp only [if_neg hkind] at h
      by_cases hnone : flowSide type = 0
      · simp only [if_pos hnone] at h
        contradiction
      simp only [if_neg hnone] at h
      by_cases hserver : flowSide type = 2
      · simp only [if_pos hserver] at h
        cases hword : readWord call.mem ((call.ctx.arg 2).toNat + 72) 8 with
        | none =>
            simp only [hword] at h
            contradiction
        | some word =>
            simp only [hword] at h
            by_cases hclient : UInt64.ofNat word = 0 ∨ badFlow (UInt64.ofNat word)
            · simp only [if_pos hclient] at h
              contradiction
            simp only [if_neg hclient] at h
            repeat' split at h
            all_goals
              first
              | contradiction
              | skip
            obtain ⟨rfl, rfl⟩ := Prod.mk.inj (Except.ok.inj h)
            exact ⟨(not_or.mp hclient).1, hinvalid, .inr hserver, rfl, rfl, rfl, rfl, rfl⟩
      · simp only [if_neg hserver] at h
        obtain ⟨rfl, rfl⟩ := Prod.mk.inj (Except.ok.inj h)
        have hclientSide : flowSide type = 1 := by
          revert hnone hserver
          rw [flowSide]
          split
          · intro _ _
            rfl
          · split
            · intro _ hne
              exact absurd rfl hne
            · intro hne
              exact absurd rfl hne
        exact ⟨(not_or.mp harg).2, hinvalid, .inl hclientSide, rfl, rfl, rfl, rfl, rfl⟩

/-- One call of {lit}`activity_scope` is one step on the exchange of one client, or leaves
the table and carries no exchange. -/
theorem activityScope_scoped (h : Counted m) :
    ((activityScope call m).client = none ∧ (activityScope call m).frame.exchange = 0 ∧
        (activityScope call m).map = m) ∨
      ∃ client base, (activityScope call m).client = some client ∧ client ≠ 0 ∧ Base call base ∧
        Leaves call base m client ((activityScope call m).frame, (activityScope call m).map) := by
  rw [activityScope]
  cases hflow : flowScope call with
  | error frame => exact .inl ⟨rfl, flowScope_error hflow, rfl⟩
  | ok reached =>
      obtain ⟨client, base⟩ := reached
      obtain ⟨hclient, hbase⟩ := flowScope_ok hflow
      obtain ⟨-, hexchanges, hevictions, -, hnone, hsome⟩ := lookup_spec h.shape client
      have hfound : Found (lsMapLookup m (wordBytes client)).2 client
          (lsMapLookup m (wordBytes client)).1 := by
        refine ⟨?_, fun off hoff => (hsome off hoff).1⟩
        intro habsent
        rw [hexchanges]
        exact hnone habsent
      obtain ⟨after, hscoped, hbecomes⟩ :=
        activityExchange_leaves (h.lookup client) hclient hfound hbase.status
      refine .inr ⟨client, base, rfl, hclient, hbase, after, ?_, ?_⟩
      · rw [← hexchanges]
        exact hscoped
      · refine ⟨hbecomes.counted, hbecomes.exchange, ?_, hbecomes.evictions.trans hevictions⟩
        intro k hk hkclient
        rw [hbecomes.frame k hk hkclient, hexchanges]

end Exchange


end Tracker
end LiveSurface
