import LiveSurface.Metadata.Session

/-!
# Method values

After the application's getter returns, a program finds the member that the getter returned in
its root object and reports the string of a member named {lit}`method`.

Main results:

- Definition {lit}`jsonMethod`: the record of a call.
- Theorem {lit}`jsonMethod_decodes`: every record decodes, to the front of its source.
-/

namespace LiveSurface
namespace Metadata

/-- One call of the program: the arguments of the getter and what it returned. -/
structure JmCall where
  arg : Fin 5 → UInt64
  result : UInt64
  mem : ProbeMemory
  outcomes : Outcomes

def jmMagic : Nat := 0x4a4d4554

/-- The bytes of {lit}`method`. -/
def methodKey : List UInt8 := [109, 101, 116, 104, 111, 100]

/-- The integer in {lit}`n` bytes of a buffer. -/
def fieldAt (bs : List UInt8) (offset n : Nat) : Nat := ofLittleEndian ((bs.drop offset).take n)

/-- The pointer in a buffer. -/
def pointerAt (bs : List UInt8) (offset : Nat) : UInt64 := UInt64.ofNat (fieldAt bs offset 8)

/-- {lit}`read_field`. -/
def jmReadField (mem : ProbeMemory) (n : Nat) (a : UInt64) : Early JmEvent (List UInt8) := fun e =>
  (readBytes mem a n, { e with reads := e.reads + 1, sourceBytes := e.sourceBytes + n })

/-- {lit}`n && read_field`. -/
def jmReadValue (mem : ProbeMemory) (n : Nat) (a : UInt64) : Early JmEvent (List UInt8) :=
  if n = 0 then pure [] else jmReadField mem n a

/-- A record with another status. -/
def withStatus (status : Nat) (e : JmEvent) : JmEvent := { e with status }

namespace JmCall

variable (call : JmCall)

/-- The string of the member that the getter returned. -/
def methodValue (member : List UInt8) : Early JmEvent Unit := do
  Early.stopIf (fieldAt member 20 4 &&& 1 = 0 ∨ fieldAt member 8 4 ≠ 6) (withStatus jmOutOfScope)
  let key ← jmReadField call.mem 6 (pointerAt member 0)
  Early.stopIf (key ≠ methodKey) (withStatus jmOutOfScope)
  let string ← jmReadField call.mem 12 (call.arg 1)
  Early.modify fun e => { e with originalLength := fieldAt string 8 4 }
  let bytes ← jmReadValue call.mem (if fieldAt string 8 4 > 64 then 64 else fieldAt string 8 4)
    (pointerAt string 0)
  Early.modify (keepValue bytes (fieldAt string 8 4))

/-- The members of the root object from {lit}`current` on, with {lit}`left` of the four steps
left. -/
def members (last : UInt64) : Nat → UInt64 → Early JmEvent Unit
  | 0, _ => Early.stopWith (withStatus jmBudget)
  | left + 1, current => do
      let member ← jmReadField call.mem 40 current
      if pointerAt member 24 = call.arg 0 then call.methodValue member
      else do
        Early.stopIf (current = last) (withStatus jmUnavailable)
        members last left (pointerAt member 32)

/-- The root object. -/
def rootMembers : Early JmEvent Unit := do
  let owner ← jmReadField call.mem 8 (call.arg 0 + 40)
  Early.stopIf (pointerAt owner 0 = 0) (withStatus jmOutOfScope)
  let root ← jmReadField call.mem 48 (pointerAt owner 0)
  Early.stopIf (pointerAt root 40 ≠ 0 ∨ fieldAt root 0 4 ≠ 1 ∨ fieldAt root 24 4 &&& 1 = 0)
    (withStatus jmOutOfScope)
  let last ← jmReadField call.mem 8 (pointerAt root 8 + 16)
  Early.stopIf (pointerAt last 0 = 0) (withStatus jmUnavailable)
  let current ← jmReadField call.mem 8 (pointerAt last 0 + 32)
  call.members (pointerAt last 0) 4 (pointerAt current 0)

/-- The record before the object is read. -/
def blank : JmEvent where
  magic := jmMagic
  abi := 1
  instanceId := call.outcomes.opening.instanceId.toNat
  revision := call.outcomes.opening.revision.toNat
  run := call.outcomes.opening.run.toNat
  monotonicNs := call.outcomes.opening.monotonicNs.toNat
  sequence := call.outcomes.opening.sequence.toNat
  outputFailures := call.outcomes.opening.outputFailures.toNat
  status := jmUnavailable
  getterResult := call.result.toNat % 2 ^ 32
  originalLength := 0
  copiedLength := 0
  flags := call.outcomes.opening.flags
  reads := 0
  sourceBytes := 0
  value := List.replicate 64 0

/-- {lit}`extract`. -/
def extract (e : JmEvent) : JmEvent :=
  if e.getterResult ≠ 0 then withStatus jmGetterError e
  else (call.rootMembers (withStatus jmReadFailed e)).2

end JmCall

/-- {lit}`json_method`: the record that a call emits. -/
def jsonMethod (call : JmCall) : JmEvent :=
  if call.outcomes.opening.state.isSome then call.extract call.blank else call.blank

/-! ## What a call reads -/

/-- A record without a value, after at most so many reads and bytes. -/
def JmBare (b : JmEvent) (reads bytes : Nat) (e : JmEvent) : Prop :=
  b.Extends e ∧ e.reads ≤ reads ∧ e.sourceBytes ≤ bytes ∧ e.originalLength < 2 ^ 32 ∧
    e.copiedLength = 0 ∧ e.value = List.replicate 64 0

/-- A record whose source could not be read. -/
def JmShut (b e : JmEvent) : Prop := JmBare b 12 320 e ∧ 3 ≤ e.status ∧ e.status ≤ 7

/-- A record whose source is being read. -/
def JmOpen (b : JmEvent) (reads bytes : Nat) (e : JmEvent) : Prop :=
  JmBare b reads bytes e ∧ e.status = jmReadFailed

section Reads

variable {b e : JmEvent} {mem : ProbeMemory} {n reads bytes : Nat} {a : UInt64}

theorem JmBare.mono {reads' bytes' : Nat} (h : JmBare b reads bytes e) (hreads : reads ≤ reads')
    (hbytes : bytes ≤ bytes') : JmBare b reads' bytes' e :=
  ⟨h.1, h.2.1.trans hreads, h.2.2.1.trans hbytes, h.2.2.2⟩

theorem JmOpen.shut (h : JmOpen b reads bytes e) (hreads : reads ≤ 12) (hbytes : bytes ≤ 320) :
    JmShut b e := by
  obtain ⟨hbare, hstatus⟩ := h
  unfold jmReadFailed at hstatus
  exact ⟨hbare.mono hreads hbytes, by omega, by omega⟩

theorem ends_jmReadField (h : JmOpen b reads bytes e) (hreads : reads + 1 ≤ 12)
    (hbytes : bytes + n ≤ 320) : (jmReadField mem n a).Ends e (JmShut b) fun bs e' =>
      readBytes mem a n = some bs ∧ JmOpen b (reads + 1) (bytes + n) e' := by
  obtain ⟨⟨hhead, hr, hs, hrest⟩, hstatus⟩ := h
  have hopen : JmOpen b (reads + 1) (bytes + n)
      { e with reads := e.reads + 1, sourceBytes := e.sourceBytes + n } :=
    ⟨⟨hhead, Nat.succ_le_succ hr, Nat.add_le_add_right hs n, hrest⟩, hstatus⟩
  unfold Early.Ends jmReadField
  cases readBytes mem a n with
  | none => exact hopen.shut hreads hbytes
  | some bs => exact ⟨rfl, hopen⟩

/-- A call stops with another status. -/
theorem ends_status {c : Prop} [Decidable c] {status : Nat} (h : JmOpen b reads bytes e)
    (hreads : reads ≤ 12) (hbytes : bytes ≤ 320) (hstatus : 3 ≤ status ∧ status ≤ 7) :
    (Early.stopIf c (withStatus status)).Ends e (JmShut b) fun _ e' => e' = e :=
  Early.ends_stopIf (fun _ => ⟨h.1.mono hreads hbytes, hstatus⟩) fun _ => rfl

end Reads

namespace JmCall

variable (call : JmCall)

/-- Where the string is, and its length. -/
def Source (base : UInt64) (length : Nat) : Prop :=
  ∃ string, readBytes call.mem (call.arg 1) 12 = some string ∧ base = pointerAt string 0 ∧
    length = fieldAt string 8 4

/-- A reported value is the front of the string. -/
def Value (e : JmEvent) (bs : List UInt8) : Prop :=
  ∃ base, call.Source base e.originalLength ∧ bs.length = min e.originalLength 64 ∧
    readBytes call.mem base bs.length = some bs

variable {call} {b e : JmEvent}

theorem fieldAt_lt (bs : List UInt8) (offset n : Nat) : fieldAt bs offset n < 256 ^ n := by
  refine (ofLittleEndian_lt _).trans_le (Nat.pow_le_pow_right (by decide) ?_)
  exact List.length_take_le _ _

/-- A record that carries a value of the string. -/
def Reports (call : JmCall) (b e : JmEvent) : Prop :=
  ∃ bs, Carries b e bs ∧ e.reads ≤ 12 ∧ e.sourceBytes ≤ 320 ∧ call.Value e bs

theorem ends_methodValue {member : List UInt8} {reads bytes : Nat} (h : JmOpen b reads bytes e)
    (hreads : reads ≤ 8) (hbytes : bytes ≤ 232) :
    (call.methodValue member).Ends e (JmShut b) fun _ e' => call.Reports b e' := by
  refine (ends_status h (by omega) (by omega) (by decide)).bind fun _ e₁ h₁ => ?_
  subst h₁
  refine (ends_jmReadField h (by omega) (by omega)).bind fun key e₂ h₂ => ?_
  refine (ends_status h₂.2 (by omega) (by omega) (by decide)).bind fun _ e₃ h₃ => ?_
  subst h₃
  refine (ends_jmReadField h₂.2 (by omega) (by omega)).bind fun string e₄ h₄ => ?_
  obtain ⟨hstring, hopen⟩ := h₄
  have hsmall : fieldAt string 8 4 < 2 ^ 32 := fieldAt_lt string 8 4
  generalize hlength : fieldAt string 8 4 = length at hsmall
  have hstored : (Early.modify fun e : JmEvent => { e with originalLength := length }).Ends e₄
      (JmShut b) fun _ e' => JmOpen b (reads + 1 + 1) (bytes + 6 + 12) e' := by
    obtain ⟨⟨hhead, hr, hs, -, hrest⟩, hstatus⟩ := hopen
    exact Early.ends_modify ⟨⟨hhead, hr, hs, hsmall, hrest⟩, hstatus⟩
  refine hstored.bind fun _ e₅ h₅ => ?_
  generalize hn : (if length > 64 then 64 else length) = n
  have hmin : n = min length 64 := by
    rw [← hn]
    split <;> omega
  have hread : (jmReadValue call.mem n (pointerAt string 0)).Ends e₅ (JmShut b) fun bs e' =>
      readBytes call.mem (pointerAt string 0) n = some bs ∧
        JmBare b (reads + 3) (bytes + 18 + n) e' := by
    refine Early.ends_ite (fun hzero => Early.ends_pure ⟨?_, h₅.1.mono (by omega) (by omega)⟩)
      fun _ => ?_
    · rw [hzero]
      rfl
    · refine (ends_jmReadField h₅ (by omega) (by omega)).mono (fun _ hs => hs) fun bs e' hdone => ?_
      exact ⟨hdone.1, hdone.2.1⟩
  refine hread.bind fun bs e₆ h₆ => Early.ends_modify ⟨bs, ?_, ?_, ?_, pointerAt string 0,
    ⟨string, hstring, rfl, hlength.symm⟩, ?_, ?_⟩
  · exact carries_keepValue h₆.2.1 ((length_readBytes h₆.1).trans hmin) hsmall
  · have hr := h₆.2.2.1
    change e₆.reads ≤ 12
    omega
  · have hs := h₆.2.2.2.1
    change e₆.sourceBytes ≤ 320
    omega
  · exact (length_readBytes h₆.1).trans hmin
  · rw [length_readBytes h₆.1]
    exact h₆.1

/-- The loop over the members reads within its part of the budget. -/
theorem ends_members {last current : UInt64} {left : Nat} (hleft : left ≤ 4)
    (h : JmOpen b (8 - left) (232 - 40 * left) e) :
    (call.members last left current).Ends e (JmShut b) fun _ e' => call.Reports b e' := by
  induction left generalizing current e with
  | zero =>
      have hstatus : 3 ≤ jmBudget ∧ jmBudget ≤ 7 := by decide
      exact Early.ends_stopWith ⟨h.1.mono (by decide) (by decide), hstatus⟩
  | succ left ih =>
      refine (ends_jmReadField h (by omega) (by omega)).bind fun member e₁ h₁ => ?_
      obtain ⟨-, hopen⟩ := h₁
      have hopen : JmOpen b (8 - left) (232 - 40 * left) e₁ :=
        ⟨hopen.1.mono (by omega) (by omega), hopen.2⟩
      refine Early.ends_ite (fun _ => ends_methodValue hopen (by omega) (by omega)) fun _ => ?_
      refine (ends_status hopen (by omega) (by omega) (by decide)).bind fun _ e₂ h₂ => ?_
      subst h₂
      exact ih (by omega) hopen

theorem ends_rootMembers (h : JmOpen b 0 0 e) :
    call.rootMembers.Ends e (JmShut b) fun _ e' => call.Reports b e' := by
  refine (ends_jmReadField h (by decide) (by decide)).bind fun owner e₁ h₁ => ?_
  refine (ends_status h₁.2 (by decide) (by decide) (by decide)).bind fun _ e₂ h₂ => ?_
  subst h₂
  refine (ends_jmReadField h₁.2 (by decide) (by decide)).bind fun root e₃ h₃ => ?_
  refine (ends_status h₃.2 (by decide) (by decide) (by decide)).bind fun _ e₄ h₄ => ?_
  subst h₄
  refine (ends_jmReadField h₃.2 (by decide) (by decide)).bind fun last e₅ h₅ => ?_
  refine (ends_status h₅.2 (by decide) (by decide) (by decide)).bind fun _ e₆ h₆ => ?_
  subst h₆
  refine (ends_jmReadField h₅.2 (by decide) (by decide)).bind fun current e₇ h₇ => ?_
  exact ends_members (by decide) h₇.2

theorem fits_blank : call.blank.Fits := by
  have hflags := call.outcomes.flags_opening_le
  have hresult : call.result.toNat % 2 ^ 32 < 256 ^ 4 := Nat.mod_lt _ (by decide)
  refine ⟨?_, rfl⟩
  simp only [Layout.Fits, JmEvent.words, List.forall_mem_cons, blank]
  refine ⟨(by decide : jmMagic < 256 ^ 4), (by decide : 1 < 256 ^ 4), UInt64.toNat_lt _,
    UInt64.toNat_lt _, UInt64.toNat_lt _, UInt64.toNat_lt _, UInt64.toNat_lt _, UInt64.toNat_lt _,
    (by decide : jmUnavailable < 256 ^ 4), hresult, by decide, by decide, ?_, by decide, by decide,
    by simp⟩
  omega

/-- A record has no value, or one of the string. -/
theorem shut_or_reports (call : JmCall) :
    JmShut call.blank (jsonMethod call) ∨ call.Reports call.blank (jsonMethod call) := by
  have hbare : JmBare call.blank 0 0 call.blank :=
    ⟨⟨rfl, rfl, rfl, rfl, rfl, rfl, rfl, rfl, rfl, rfl⟩, Nat.le_refl 0, Nat.le_refl 0,
      (by decide : 0 < 2 ^ 32), rfl, rfl⟩
  have hstatus : ∀ status, 3 ≤ status ∧ status ≤ 7 →
      JmShut call.blank (withStatus status call.blank) := fun status hle =>
    ⟨hbare.mono (by decide) (by decide), hle⟩
  unfold jsonMethod extract
  split
  · split
    · exact Or.inl (hstatus jmGetterError (by decide))
    · have hopen : JmOpen call.blank 0 0 (withStatus jmReadFailed call.blank) := ⟨hbare, rfl⟩
      have hends : call.rootMembers.Ends (withStatus jmReadFailed call.blank)
          (fun e => JmShut call.blank e ∨ call.Reports call.blank e)
          fun _ e => JmShut call.blank e ∨ call.Reports call.blank e :=
        (ends_rootMembers hopen).mono (fun _ hs => Or.inl hs) fun _ _ hd => Or.inr hd
      exact hends.state
  · exact Or.inl (hstatus jmUnavailable (by decide))

end JmCall

theorem isSome_methodStatuses {m : Nat} (h : 1 ≤ m ∧ m ≤ 7) : ∃ name, methodStatuses m = some name := by
  unfold methodStatuses
  split <;> grind

/-- A record that passes the checks of the method decoder decodes, to the value it carries. -/
theorem methodDecode_ok {e : JmEvent} (hfits : e.Fits) (hmagic : e.magic = jmMagic) (habi : e.abi = 1)
    (hstatus : 1 ≤ e.status ∧ e.status ≤ 7) (hreads : e.reads ≤ 12) (hbytes : e.sourceBytes ≤ 320)
    (hvalue : e.ValueOk) : ∃ d, methodDecode e.bytes = .ok d ∧
      d.valueHex = hex (e.value.take e.copiedLength) ∧ methodStatuses e.status = some d.statusName := by
  obtain ⟨name, hname⟩ := isSome_methodStatuses hstatus
  have hle : e.copiedLength ≤ e.originalLength := by
    by_cases hone : e.status = 1
    · exact Nat.le_of_eq (hvalue.complete hone)
    · by_cases htwo : e.status = 2
      · have htruncated := hvalue.truncated htwo
        omega
      · have hnone := hvalue.none (by omega)
        omega
  have hcopied := hvalue.copied
  have hbounds : ¬(e.copiedLength > 64 ∨ e.copiedLength > e.originalLength ∨ e.reads > 12 ∨
      e.sourceBytes > 320) := by omega
  have hconsistent : ¬((e.status = 1 ∧ e.copiedLength ≠ e.originalLength) ∨
      (e.status = 2 ∧ ¬(e.copiedLength = 64 ∧ e.originalLength > 64)) ∨
      (e.status ≠ 1 ∧ e.status ≠ 2 ∧ e.copiedLength ≠ 0)) := by
    rintro (⟨hone, hbad⟩ | ⟨htwo, hbad⟩ | ⟨hone, htwo, hbad⟩)
    · exact hbad (hvalue.complete hone)
    · exact hbad (hvalue.truncated htwo)
    · exact hbad (hvalue.none fun hsome => hsome.elim hone htwo)
  have hschema : ¬(e.magic ≠ 0x4A4D4554 ∨ e.abi ≠ 1) := by
    rintro (hbad | hbad)
    · exact hbad hmagic
    · exact hbad habi
  have hclear : ¬(anyFrom e.value e.copiedLength = true) := by
    rw [hvalue.clear]
    decide
  unfold methodDecode
  rw [if_neg (not_not_intro hfits.length_bytes), JmEvent.unpack_bytes hfits]
  simp only [if_neg hschema, hname, if_neg hbounds, if_neg hconsistent, if_neg hclear]
  exact ⟨_, rfl, rfl, rfl⟩

/-- Every record decodes, to the value it carries. -/
theorem jsonMethod_decodes (call : JmCall) : ∃ d, methodDecode (jsonMethod call).bytes = .ok d ∧
    d.valueHex = hex ((jsonMethod call).value.take (jsonMethod call).copiedLength) ∧
      methodStatuses (jsonMethod call).status = some d.statusName := by
  rcases call.shut_or_reports with ⟨⟨hhead, hreads, hbytes, horiginal, hcopied, hvalue⟩, hstatus⟩ |
    ⟨bs, hcarries, hreads, hbytes, -⟩
  · have hfits : (jsonMethod call).Fits := by
      refine hhead.fits JmCall.fits_blank (hreads.trans (by decide)) hbytes horiginal hstatus.2 ?_ ?_
      · omega
      · rw [hvalue]
        rfl
    refine methodDecode_ok hfits hhead.1 hhead.2.1 (by omega) hreads hbytes ?_
    refine ⟨by omega, ?_, fun _ => hcopied, fun hone => by omega, fun htwo => by omega⟩
    rw [hvalue, hcopied]
    decide
  · have hstatus := hcarries.status
    exact methodDecode_ok (hcarries.fits JmCall.fits_blank (hreads.trans (by decide)) hbytes)
      hcarries.head.1 hcarries.head.2.1 (by omega) hreads hbytes hcarries.valueOk

/-- A reported value is the front of the string, and no other record has value bytes. -/
theorem jsonMethod_value (call : JmCall) :
    (¬((jsonMethod call).status = 1 ∨ (jsonMethod call).status = 2) →
      (jsonMethod call).value = List.replicate 64 0) ∧
    ((jsonMethod call).status = 1 ∨ (jsonMethod call).status = 2 → ∃ bs,
      (jsonMethod call).copiedLength = bs.length ∧ (jsonMethod call).value = padded bs ∧
        call.Value (jsonMethod call) bs) := by
  rcases call.shut_or_reports with ⟨⟨-, -, -, -, -, hvalue⟩, hstatus⟩ | ⟨bs, hcarries, -, -, hsource⟩
  · exact ⟨fun _ => hvalue, fun hsome => by omega⟩
  · have hstatus := hcarries.status
    exact ⟨fun hnone => by omega, fun _ => ⟨bs, hcarries.copied, hcarries.value, hsource⟩⟩

end Metadata
end LiveSurface
