import LiveSurface.Library.Machine
import LiveSurface.Config.Store
import Mathlib.Data.List.Nodup

/-!
# The configuration store as a compare-and-swap register

The control path issues instance tokens, binds them to slots, publishes images
and revokes them, one operation at a time.  A run of these operations is
recorded in a log of what succeeded, newest first; what holds of a run is stated
over that log.

Main results:

- Theorem {lit}`applyOp_cases`: everything one operation can do.
- Theorem {lit}`registered_of_reachable`: the invariant that ties the log to the
  store in every reachable state.
- Theorem {lit}`configStore_register`: tokens never repeat, a publication is
  accepted exactly when it agrees with the slot, and the revisions of one
  binding only grow.
-/

namespace LiveSurface
namespace Config

/-! ## Runs of the control path -/

/-- One request to the control path. -/
inductive ConfigOp
  | newInstance (slot : Nat)
  | bind (slot : Nat) (instanceId : UInt64) (sha : List UInt8)
  | publish (slot : Nat) (body : Option (List UInt8))
  | revoke (slot : Nat)

/-- What a successful request did.  A refused request leaves no event. -/
inductive ConfigEvent
  | issued (slot : Nat) (token : UInt64)
  | bound (slot : Nat) (instanceId : UInt64)
  | published (slot : Nat) (instanceId revision : UInt64)
  | revoked (slot : Nat)
deriving DecidableEq

/-- The store together with the log of successful requests, newest first. -/
structure RegisterState where
  store : LsConfigStore
  log : List ConfigEvent

/-- Run one request. -/
def applyOp (st : RegisterState) : ConfigOp → RegisterState
  | .newInstance slot =>
      let (token, store) := lsConfigNewInstance st.store slot
      { store := store
        log := if token = 0 then st.log else .issued slot token :: st.log }
  | .bind slot instanceId sha =>
      let (done, store) := lsConfigBind st.store slot instanceId sha
      { store := store
        log := if done then .bound slot instanceId :: st.log else st.log }
  | .publish slot body =>
      let (refusal, store) := lsConfigPublish st.store slot body
      let r := LsConfigRequest.ofBody (body.getD [])
      { store := store
        log := if refusal = none then .published slot r.instanceId r.revision :: st.log
          else st.log }
  | .revoke slot =>
      let (done, store) := lsConfigRevoke st.store slot
      { store := store
        log := if done then .revoked slot :: st.log else st.log }

/-- The control path over one store, from start-up on. -/
def configMachine (session : UInt64) : Machine RegisterState ConfigOp where
  init st := st = { store := .initial session, log := [] }
  next st op := some (applyOp st op)

/-! ## Reading the log -/

/-- The tokens issued so far, with the slot each was issued for. -/
def issuedTokens (log : List ConfigEvent) : List (Nat × UInt64) :=
  log.filterMap fun
    | .issued slot token => some (slot, token)
    | _ => none

/-- The instance whose bind of {lit}`slot` has not been followed by a revoke. -/
def bindingOf (slot : Nat) : List ConfigEvent → Option UInt64
  | [] => none
  | .bound k instanceId :: rest => if k = slot then some instanceId else bindingOf slot rest
  | .revoked k :: rest => if k = slot then none else bindingOf slot rest
  | .issued _ _ :: rest => bindingOf slot rest
  | .published _ _ _ :: rest => bindingOf slot rest

/-- Revisions accepted for {lit}`slot` since its last bind or revoke. -/
def bindingRevisions (slot : Nat) : List ConfigEvent → List UInt64
  | [] => []
  | .bound k _ :: rest => if k = slot then [] else bindingRevisions slot rest
  | .revoked k :: rest => if k = slot then [] else bindingRevisions slot rest
  | .issued _ _ :: rest => bindingRevisions slot rest
  | .published k _ revision :: rest =>
      if k = slot then revision :: bindingRevisions slot rest else bindingRevisions slot rest

/-- Every revision accepted for an instance, across all its binds. -/
def instanceRevisions (instanceId : UInt64) (log : List ConfigEvent) : List UInt64 :=
  log.filterMap fun
    | .published _ i revision => if i = instanceId then some revision else none
    | _ => none

/-! ## Tokens -/

/-- The three fields of a token do not overlap. -/
theorem token_toNat {n slot : Nat} (hslot : slot < 64) (hn : n < 2 ^ 57) :
    (UInt64.ofNat (lsConfigHandleBit ||| (n <<< 6) ||| slot)).toNat =
      2 ^ 63 + 64 * n + slot := by
  have hshift : n <<< 6 = 2 ^ 6 * n := by rw [Nat.shiftLeft_eq, Nat.mul_comm]
  have hhandle : lsConfigHandleBit ||| (n <<< 6) = 2 ^ 6 * (2 ^ 57 + n) := by
    have hor := Nat.two_pow_add_eq_or_of_lt (i := 63) (b := n <<< 6) (by omega) 1
    rw [Nat.mul_one] at hor
    rw [lsConfigHandleBit, ← hor, hshift]
    omega
  have hslot' := Nat.two_pow_add_eq_or_of_lt (i := 6) hslot (2 ^ 57 + n)
  rw [hhandle, ← hslot', UInt64.toNat_ofNat']
  omega

/-- A value with the handle bit is not zero. -/
theorem ne_zero_of_bindAllowed {slot : Nat} {instanceId : UInt64}
    (h : bindAllowed slot instanceId = true) : instanceId ≠ 0 := by
  rintro rfl
  simp [bindAllowed, isHandle] at h

/-! ## What one request can do -/

/-- The event that accompanies a write of {lit}`image` into {lit}`slot`. -/
inductive WriteEvent (slot : Nat) : LsConfigSlot → LsConfigImage → ConfigEvent → Prop
  | bound {cur : LsConfigSlot} (instanceId : UInt64) (hset : instanceId ≠ 0) :
      WriteEvent slot cur (boundImage instanceId) (.bound slot instanceId)
  | published {cur : LsConfigSlot} (r : LsConfigRequest)
      (hinst : r.instanceId = cur.current.instanceId)
      (hnewer : cur.current.revision < r.revision) :
      WriteEvent slot cur (publishedImage r) (.published slot r.instanceId r.revision)
  | revoked {cur : LsConfigSlot} : WriteEvent slot cur .empty (.revoked slot)

/-- A request does nothing, issues the next token, or writes one slot whose
sequence can advance. -/
theorem applyOp_cases (st : RegisterState) (op : ConfigOp) :
    applyOp st op = st ∨
    (∃ slot, slot < lsConfigSlots ∧
      st.store.nextInstance < (lsConfigHandleBit >>> 6) - 1 ∧
      applyOp st op =
        { store := { st.store with nextInstance := st.store.nextInstance + 1 }
          log := .issued slot (UInt64.ofNat
            (lsConfigHandleBit ||| ((st.store.nextInstance + 1) <<< 6) ||| slot)) ::
              st.log }) ∨
    (∃ slot image event sha, Writable (st.store.slots slot) ∧
      WriteEvent slot (st.store.slots slot) image event ∧
      applyOp st op =
        { store := st.store.setSlot slot
            { written (st.store.slots slot) image with programSha256 := sha }
          log := event :: st.log }) := by
  cases op with
  | newInstance slot =>
      by_cases hguard : slot ≥ lsConfigSlots ∨
          st.store.nextInstance ≥ (lsConfigHandleBit >>> 6) - 1
      · left
        simp only [applyOp, lsConfigNewInstance, if_pos hguard, if_pos]
      · right; left
        have hslot : slot < lsConfigSlots := by omega
        have hcount : st.store.nextInstance < (lsConfigHandleBit >>> 6) - 1 := by omega
        refine ⟨slot, hslot, hcount, ?_⟩
        have hbound : st.store.nextInstance + 1 < 2 ^ 57 := by
          simp only [lsConfigHandleBit] at hcount
          omega
        have hne : UInt64.ofNat (lsConfigHandleBit |||
            ((st.store.nextInstance + 1) <<< 6) ||| slot) ≠ 0 := by
          intro hzero
          have hnat := token_toNat hslot hbound
          rw [hzero, UInt64.toNat_zero] at hnat
          omega
        simp only [applyOp, lsConfigNewInstance, if_neg hguard, if_neg hne]
  | bind slot instanceId sha =>
      by_cases hguard : bindAllowed slot instanceId = true
      · by_cases hw : Writable (st.store.slots slot)
        · right; right
          refine ⟨slot, _, _, sha, hw, .bound instanceId (ne_zero_of_bindAllowed hguard), ?_⟩
          simp [applyOp, lsConfigBind, hguard, lsConfigWrite_of_writable hw]
        · left
          simp [applyOp, lsConfigBind, hguard, lsConfigWrite_of_not_writable hw]
      · left
        simp [applyOp, lsConfigBind, hguard]
  | publish slot body =>
      by_cases haccept : (lsConfigPublish st.store slot body).1 = none
      · right; right
        rcases lsConfigPublish_eq_none_iff.mp haccept with ⟨bytes, rfl, hacc, hw⟩
        have hnewer := hacc.newer
        rw [hacc.expected] at hnewer
        refine ⟨slot, _, _, (st.store.slots slot).programSha256, hw,
          .published (LsConfigRequest.ofBody bytes) hacc.instanceId hnewer, ?_⟩
        simp only [applyOp, lsConfigPublish_accepted hacc hw, if_pos, Option.getD_some]
        rfl
      · left
        simp only [applyOp, if_neg haccept, lsConfigPublish_refused haccept]
  | revoke slot =>
      by_cases hguard : slot ≥ lsConfigSlots
      · left
        simp [applyOp, lsConfigRevoke, hguard]
      · by_cases hw : Writable (st.store.slots slot)
        · right; right
          refine ⟨slot, _, _, (st.store.slots slot).programSha256, hw, .revoked, ?_⟩
          simp only [applyOp, lsConfigRevoke, if_neg hguard, lsConfigWrite_of_writable hw,
            if_pos]
          rfl
        · left
          simp [applyOp, lsConfigRevoke, hguard, lsConfigWrite_of_not_writable hw]

/-! ## Unused rows -/

/-- Word {lit}`j` of row {lit}`i` reads the row bytes past the metadata. -/
theorem LsConfigImage.word_row (image : LsConfigImage) (i j : Nat) :
    image.word (4 + 4 * i + j) =
      ofLittleEndian ((image.rows.drop (32 * i + 8 * j)).take 8) := by
  have hsplit : 8 * (4 + 4 * i + j) = image.metadata.bytes.length + (32 * i + 8 * j) := by
    rw [LsConfigMeta.length_bytes]
    omega
  rw [LsConfigImage.word, LsConfigImage.bytes, hsplit, List.drop_length_add_append]

/-- Every row an image does not use is zero. -/
def LsConfigImage.ZeroTail (image : LsConfigImage) : Prop :=
  ∀ i, image.metadata.entries.toNat ≤ i → ∀ j, image.word (4 + 4 * i + j) = 0

theorem zeroTail_empty_rows {image : LsConfigImage}
    (hrows : image.rows = List.replicate (lsConfigRows * lsConfigValueSize) 0) :
    image.ZeroTail := by
  intro i _ j
  rw [LsConfigImage.word_row, hrows, List.drop_replicate, List.take_replicate,
    ofLittleEndian_replicate_zero]

theorem zeroTail_publishedImage (r : LsConfigRequest) : (publishedImage r).ZeroTail := by
  intro i hi j
  have hlen : ((r.rows.take (r.entries.toNat * lsConfigValueSize)).take
      (lsConfigRows * lsConfigValueSize)).length ≤ 32 * i + 8 * j := by
    have hentries : r.entries.toNat ≤ i := hi
    simp only [List.length_take, lsConfigValueSize, lsConfigRows]
    omega
  rw [LsConfigImage.word_row]
  simp only [publishedImage, publishedRows]
  rw [List.drop_append, List.drop_eq_nil_of_le hlen, List.nil_append, List.drop_replicate,
    List.take_replicate, ofLittleEndian_replicate_zero]

/-- A write event never stores bytes beyond the rows the image declares. -/
theorem WriteEvent.zeroTail {slot : Nat} {cur : LsConfigSlot} {image : LsConfigImage}
    {event : ConfigEvent} (h : WriteEvent slot cur image event) : image.ZeroTail := by
  cases h with
  | bound _ _ => exact zeroTail_empty_rows rfl
  | published r _ _ => exact zeroTail_publishedImage r
  | revoked => exact zeroTail_empty_rows rfl

/-! ## The invariant -/

/-- What the log says about one slot. -/
structure SlotRegistered (log : List ConfigEvent) (slot : Nat) (cur : LsConfigSlot) :
    Prop where
  even : cur.sequence % 2 = 0
  binding : (bindingOf slot log).getD 0 = cur.current.instanceId
  increasing : (bindingRevisions slot log).Pairwise (· > ·)
  newest : ∀ r ∈ bindingRevisions slot log, r ≤ cur.current.revision
  zeroTail : ∀ i, cur.current.entries.toNat ≤ i → i < lsConfigRows →
    ∀ j < 4, cur.words (4 + 4 * i + j) = 0

/-- The log describes the store: its tokens were numbered by the instance
counter, and its events give the state of every slot. -/
structure Registered (st : RegisterState) : Prop where
  counter : st.store.nextInstance < 2 ^ 57
  tokens : ∀ p ∈ issuedTokens st.log, p.1 < lsConfigSlots ∧
    ∃ n, n ≤ st.store.nextInstance ∧ p.2.toNat = 2 ^ 63 + 64 * n + p.1
  distinct : ((issuedTokens st.log).map Prod.snd).Nodup
  slots : ∀ slot, SlotRegistered st.log slot (st.store.slots slot)

/-- An event about another slot does not change what the log says here. -/
theorem WriteEvent.log_other {slot other : Nat} {cur : LsConfigSlot}
    {image : LsConfigImage} {event : ConfigEvent} (h : WriteEvent slot cur image event)
    (hne : other ≠ slot) (log : List ConfigEvent) :
    bindingOf other (event :: log) = bindingOf other log ∧
      bindingRevisions other (event :: log) = bindingRevisions other log := by
  cases h <;> simp [bindingOf, bindingRevisions, hne.symm]

/-- A write issues no token. -/
theorem WriteEvent.issuedTokens_cons {slot : Nat} {cur : LsConfigSlot}
    {image : LsConfigImage} {event : ConfigEvent} (h : WriteEvent slot cur image event)
    (log : List ConfigEvent) : issuedTokens (event :: log) = issuedTokens log := by
  cases h <;> rfl

/-- A write keeps its own slot in step with the log. -/
theorem SlotRegistered.write {log : List ConfigEvent} {slot : Nat} {cur : LsConfigSlot}
    {image : LsConfigImage} {event : ConfigEvent} (sha : List UInt8)
    (hreg : SlotRegistered log slot cur) (hevent : WriteEvent slot cur image event) :
    SlotRegistered (event :: log) slot
      { written cur image with programSha256 := sha } := by
  have heven : (cur.sequence + 2) % 2 = 0 := by
    have := hreg.even
    omega
  have htail : ∀ i, image.metadata.entries.toNat ≤ i → i < lsConfigRows →
      ∀ j < 4, (written cur image).words (4 + 4 * i + j) = 0 := by
    intro i hi hrow j hj
    have hlt : 4 + 4 * i + j < lsConfigWords := by
      simp only [lsConfigRows] at hrow
      simp only [lsConfigWords]
      omega
    simp only [written, if_pos hlt]
    exact hevent.zeroTail i hi j
  cases hevent with
  | bound instanceId hset =>
      refine ⟨heven, ?_, ?_, ?_, htail⟩
      · simp [bindingOf, written, boundImage]
      · simp [bindingRevisions]
      · simp [bindingRevisions]
  | published r hinst hnewer =>
      have hbelow : ∀ x ∈ bindingRevisions slot log, x < r.revision := by
        intro x hx
        exact UInt64.lt_of_le_of_lt (hreg.newest x hx) hnewer
      refine ⟨heven, ?_, ?_, ?_, htail⟩
      · simpa [bindingOf, written, publishedImage, hinst] using hreg.binding
      · simp only [bindingRevisions, if_pos, List.pairwise_cons]
        exact ⟨hbelow, hreg.increasing⟩
      · intro x hx
        simp only [bindingRevisions, if_pos, List.mem_cons] at hx
        rcases hx with rfl | hx
        · exact UInt64.le_refl _
        · exact UInt64.le_of_lt (hbelow x hx)
  | revoked =>
      refine ⟨heven, ?_, ?_, ?_, htail⟩
      · simp [bindingOf, written, LsConfigImage.empty, LsConfigMeta.zero]
      · simp [bindingRevisions]
      · simp [bindingRevisions]

/-- A slot that was not written keeps its entry in the log. -/
theorem SlotRegistered.of_log_eq {log log' : List ConfigEvent} {slot : Nat}
    {cur : LsConfigSlot} (hreg : SlotRegistered log slot cur)
    (hbinding : bindingOf slot log' = bindingOf slot log)
    (hrevisions : bindingRevisions slot log' = bindingRevisions slot log) :
    SlotRegistered log' slot cur := by
  refine ⟨hreg.even, ?_, ?_, ?_, hreg.zeroTail⟩
  · rw [hbinding]
    exact hreg.binding
  · rw [hrevisions]
    exact hreg.increasing
  · rw [hrevisions]
    exact hreg.newest

theorem registered_initial (session : UInt64) :
    Registered { store := .initial session, log := [] } := by
  refine ⟨by simp [LsConfigStore.initial], ?_, ?_, ?_⟩
  · simp [issuedTokens]
  · simp [issuedTokens]
  · intro slot
    refine ⟨rfl, rfl, ?_, ?_, ?_⟩
    · simp [bindingRevisions]
    · simp [bindingRevisions]
    · intro i _ _ j _
      rfl

/-- Issuing the next token keeps the invariant. -/
theorem Registered.issue {st : RegisterState} {slot : Nat} (hreg : Registered st)
    (hslot : slot < lsConfigSlots)
    (hcount : st.store.nextInstance < (lsConfigHandleBit >>> 6) - 1) :
    Registered
      { store := { st.store with nextInstance := st.store.nextInstance + 1 }
        log := .issued slot (UInt64.ofNat
          (lsConfigHandleBit ||| ((st.store.nextInstance + 1) <<< 6) ||| slot)) ::
            st.log } := by
  have hbound : st.store.nextInstance + 1 < 2 ^ 57 := by
    simp only [lsConfigHandleBit] at hcount
    omega
  have htoken := token_toNat hslot hbound
  refine ⟨hbound, ?_, ?_, ?_⟩
  · intro p hp
    simp only [issuedTokens, List.filterMap_cons, List.mem_cons] at hp
    rcases hp with rfl | hp
    · exact ⟨hslot, _, Nat.le_refl _, htoken⟩
    · rcases hreg.tokens p hp with ⟨hlt, n, hn, heq⟩
      exact ⟨hlt, n, Nat.le_succ_of_le hn, heq⟩
  · simp only [issuedTokens, List.filterMap_cons, List.map_cons, List.nodup_cons]
    refine ⟨?_, hreg.distinct⟩
    intro hmem
    rcases List.mem_map.mp hmem with ⟨p, hp, heq⟩
    rcases hreg.tokens p hp with ⟨hlt, n, hn, hnat⟩
    rw [heq, htoken] at hnat
    simp only [lsConfigSlots] at hlt hslot
    omega
  · intro k
    exact (hreg.slots k).of_log_eq rfl rfl

/-- A write keeps the invariant. -/
theorem Registered.write {st : RegisterState} {slot : Nat} {image : LsConfigImage}
    {event : ConfigEvent} (sha : List UInt8) (hreg : Registered st)
    (hevent : WriteEvent slot (st.store.slots slot) image event) :
    Registered
      { store := st.store.setSlot slot
          { written (st.store.slots slot) image with programSha256 := sha }
        log := event :: st.log } := by
  refine ⟨hreg.counter, ?_, ?_, ?_⟩
  · rw [hevent.issuedTokens_cons]
    exact hreg.tokens
  · rw [hevent.issuedTokens_cons]
    exact hreg.distinct
  · intro k
    by_cases hk : k = slot
    · subst hk
      rw [LsConfigStore.setSlot_same]
      exact (hreg.slots k).write sha hevent
    · rw [LsConfigStore.setSlot_other _ _ hk]
      rcases hevent.log_other hk st.log with ⟨hbinding, hrevisions⟩
      exact (hreg.slots k).of_log_eq hbinding hrevisions

/-- One request keeps the invariant. -/
theorem Registered.applyOp {st : RegisterState} (hreg : Registered st) (op : ConfigOp) :
    Registered (applyOp st op) := by
  rcases applyOp_cases st op with hsame | ⟨slot, hslot, hcount, heq⟩ |
    ⟨slot, image, event, sha, _, hevent, heq⟩
  · rw [hsame]
    exact hreg
  · rw [heq]
    exact hreg.issue hslot hcount
  · rw [heq]
    exact hreg.write sha hevent

/-- The invariant holds after every run of the control path. -/
theorem registered_of_reachable {session : UInt64} :
    ∀ st, (configMachine session).Reachable st → Registered st := by
  apply Machine.Reachable.invariant
  · rintro st rfl
    exact registered_initial session
  · intro st op st' _ hreg hnext
    cases hnext
    exact hreg.applyOp op

/-! ## The register -/

/-- A token carries the handle bit and its slot's number. -/
theorem token_fields {token : UInt64} {n slot : Nat} (hslot : slot < lsConfigSlots)
    (hn : n < 2 ^ 57) (htoken : token.toNat = 2 ^ 63 + 64 * n + slot) :
    token.toNat.testBit 63 = true ∧ token.toNat % 64 = slot := by
  simp only [lsConfigSlots] at hslot
  constructor
  · rw [Nat.testBit_eq_decide_div_mod_eq, decide_eq_true_eq]
    omega
  · omega

/-- A fresh token is one that its slot can be bound to. -/
theorem bindAllowed_newInstance {s : LsConfigStore} {slot : Nat}
    (hset : (lsConfigNewInstance s slot).1 ≠ 0) :
    bindAllowed slot (lsConfigNewInstance s slot).1 = true := by
  unfold lsConfigNewInstance at hset ⊢
  by_cases hrefused : slot ≥ lsConfigSlots ∨ s.nextInstance ≥ (lsConfigHandleBit >>> 6) - 1
  · rw [if_pos hrefused] at hset
    contradiction
  · rw [if_neg hrefused]
    obtain ⟨hslot, hnext⟩ := not_or.mp hrefused
    have hlt : slot < lsConfigSlots := Nat.lt_of_not_le hslot
    have hn : s.nextInstance + 1 < 2 ^ 57 := by
      change ¬ s.nextInstance ≥ 2 ^ 57 - 1 at hnext
      omega
    obtain ⟨hbit, hmod⟩ := token_fields hlt hn (token_toNat hlt hn)
    simp only [bindAllowed, isHandle, Bool.and_eq_true, decide_eq_true_eq, bne_iff_ne]
    refine ⟨⟨hlt, ?_⟩, ?_⟩
    · intro hzero
      have hclear := congrArg (fun x => Nat.testBit x 63) hzero
      simp only [Nat.testBit_and, lsConfigHandleBit, Nat.testBit_two_pow_self,
        Nat.zero_testBit, Bool.and_true] at hclear
      rw [← lsConfigHandleBit, hbit] at hclear
      contradiction
    · rw [Nat.and_two_pow_sub_one_eq_mod _ 6]
      exact hmod

/-- An instance is refused only once the numbers are used up. -/
theorem lsConfigNewInstance_eq_zero_iff {s : LsConfigStore} {slot : Nat}
    (hslot : slot < lsConfigSlots) :
    (lsConfigNewInstance s slot).1 = 0 ↔ (lsConfigHandleBit >>> 6) - 1 ≤ s.nextInstance := by
  unfold lsConfigNewInstance
  by_cases hused : (lsConfigHandleBit >>> 6) - 1 ≤ s.nextInstance
  · rw [if_pos (.inr hused)]
    exact iff_of_true rfl hused
  · rw [if_neg (not_or.mpr ⟨Nat.not_le.mpr hslot, hused⟩)]
    refine iff_of_false ?_ hused
    have hn : s.nextInstance + 1 < 2 ^ 57 := by
      change ¬ 2 ^ 57 - 1 ≤ s.nextInstance at hused
      omega
    intro hzero
    have htoken := token_toNat hslot hn
    dsimp only at hzero
    rw [hzero] at htoken
    have hnat : (0 : UInt64).toNat = 0 := rfl
    omega

theorem lsConfigNewInstance_nextInstance {s : LsConfigStore} {slot : Nat}
    (hslot : slot < lsConfigSlots) :
    (lsConfigNewInstance s slot).2.nextInstance =
      if (lsConfigHandleBit >>> 6) - 1 ≤ s.nextInstance then s.nextInstance
      else s.nextInstance + 1 := by
  unfold lsConfigNewInstance
  by_cases hused : (lsConfigHandleBit >>> 6) - 1 ≤ s.nextInstance
  · rw [if_pos (.inr hused), if_pos hused]
  · rw [if_neg (not_or.mpr ⟨Nat.not_le.mpr hslot, hused⟩), if_neg hused]

/-- An even sequence stops a write only when the counter is used up. -/
theorem SlotRegistered.writable_iff {log : List ConfigEvent} {slot : Nat}
    {cur : LsConfigSlot} (hreg : SlotRegistered log slot cur) :
    Writable cur ↔ cur.sequence ≤ uint64Max - 2 := by
  constructor
  · exact fun h => h.2
  · exact fun h => ⟨hreg.even, h⟩

/-- After every run of the control path: tokens are pairwise distinct and carry
the handle bit and their slot; a publication is accepted exactly when it agrees
with the slot it names and the sequence is not exhausted, and then it stores its
image; the revisions accepted under one binding are strictly increasing (newest
first in the log); an unbound or revoked slot accepts nothing; rows beyond the
current entries are zero; and a refusal changes nothing. -/
theorem configStore_register (session : UInt64) (st : RegisterState)
    (hst : (configMachine session).Reachable st) :
    ((issuedTokens st.log).map Prod.snd).Nodup ∧
    (∀ p ∈ issuedTokens st.log,
      p.2.toNat.testBit 63 = true ∧ p.2.toNat % 64 = p.1) ∧
    (∀ slot body, (lsConfigPublish st.store slot body).1 = none ↔
      ∃ bytes, body = some bytes ∧ Acceptable st.store slot bytes ∧
        (st.store.slots slot).sequence ≤ uint64Max - 2) ∧
    (∀ slot bytes, (lsConfigPublish st.store slot (some bytes)).1 = none →
      (lsConfigPublish st.store slot (some bytes)).2 = st.store.setSlot slot
        (written (st.store.slots slot) (publishedImage (LsConfigRequest.ofBody bytes)))) ∧
    (∀ slot, (bindingRevisions slot st.log).Pairwise (· > ·)) ∧
    (∀ slot, bindingOf slot st.log = none →
      ∀ body, (lsConfigPublish st.store slot body).1 ≠ none) ∧
    (∀ slot i, (st.store.slots slot).current.entries.toNat ≤ i → i < lsConfigRows →
      ∀ j < 4, (st.store.slots slot).words (4 + 4 * i + j) = 0) ∧
    (∀ slot body, (lsConfigPublish st.store slot body).1 ≠ none →
      (lsConfigPublish st.store slot body).2 = st.store) := by
  have hreg := registered_of_reachable st hst
  refine ⟨hreg.distinct, ?_, ?_, ?_, fun slot => (hreg.slots slot).increasing, ?_,
    fun slot => (hreg.slots slot).zeroTail, fun _ _ => lsConfigPublish_refused⟩
  · intro p hp
    rcases hreg.tokens p hp with ⟨hslot, n, hn, htoken⟩
    exact token_fields hslot (Nat.lt_of_le_of_lt hn hreg.counter) htoken
  · intro slot body
    rw [lsConfigPublish_eq_none_iff]
    simp only [(hreg.slots slot).writable_iff]
  · intro slot bytes haccept
    rcases lsConfigPublish_eq_none_iff.mp haccept with ⟨bytes', hbytes, hacc, hw⟩
    cases hbytes
    rw [lsConfigPublish_accepted hacc hw]
  · intro slot hunbound body haccept
    rcases lsConfigPublish_eq_none_iff.mp haccept with ⟨bytes, _, hacc, _⟩
    apply hacc.bound
    rw [← (hreg.slots slot).binding, hunbound]
    rfl

/-! ## Two guards that agreement alone does not show -/

/-- The body that a controller sends for a request. -/
def LsConfigRequest.toBody (r : LsConfigRequest) : List UInt8 :=
  littleEndian 4 r.abi.toNat ++ littleEndian 4 r.schema.toNat ++
    littleEndian 8 r.session.toNat ++ littleEndian 8 r.instanceId.toNat ++
    littleEndian 8 r.expectedRevision.toNat ++ littleEndian 8 r.revision.toNat ++
    littleEndian 4 r.entries.toNat ++ littleEndian 4 r.reserved.toNat ++
    r.programSha256 ++ r.rows.take (r.entries.toNat * lsConfigValueSize)

/-- A one-row request for the first token of slot 5. -/
def rowRequest (session expectedRevision revision : UInt64) : LsConfigRequest where
  abi := lsConfigAbi
  schema := 1
  session := session
  instanceId := UInt64.ofNat (2 ^ 63 + 64 + 5)
  expectedRevision := expectedRevision
  revision := revision
  entries := 1
  reserved := 0
  programSha256 := List.replicate 32 7
  rows := List.replicate (lsConfigRows * lsConfigValueSize) 9

/-- Issue the first token, for slot 5, and bind it. -/
def bindFive : List ConfigOp :=
  [.newInstance 5, .bind 5 (UInt64.ofNat (2 ^ 63 + 64 + 5)) (List.replicate 32 7)]

/-- Publish the row request for slot 5. -/
def publishFive (session expectedRevision revision : UInt64) : ConfigOp :=
  .publish 5 (some (rowRequest session expectedRevision revision).toBody)

/-- The control path after a fixed list of requests. -/
def stateAfter (session : UInt64) (ops : List ConfigOp) : RegisterState :=
  ops.foldl applyOp { store := .initial session, log := [] }

theorem reachable_foldl {session : UInt64} (ops : List ConfigOp) :
    ∀ st, (configMachine session).Reachable st →
      (configMachine session).Reachable (ops.foldl applyOp st) := by
  induction ops with
  | nil => exact fun _ hst => hst
  | cons op rest ih => exact fun st hst => ih _ (hst.next rfl)

theorem reachable_stateAfter (session : UInt64) (ops : List ConfigOp) :
    (configMachine session).Reachable (stateAfter session ops) :=
  reachable_foldl ops _ (.start rfl)

/-- Two accepted revisions and a refused stale one: the register at work. -/
theorem configStore_register_publishTwice :
    bindingRevisions 5 (stateAfter 42
      (bindFive ++ [publishFive 42 0 5, publishFive 42 5 7, publishFive 42 0 6])).log =
        [7, 5] ∧
    ((issuedTokens (stateAfter 42
      (bindFive ++ [publishFive 42 0 5, publishFive 42 5 7, publishFive 42 0 6])).log).map
        Prod.snd).Nodup :=
  ⟨by decide +kernel, (configStore_register 42 _ (reachable_stateAfter 42 _)).1⟩

/-- Agreement of a request with the store, without the guards against a session
that was never set and a slot that is not bound. -/
def Agrees (s : LsConfigStore) (slot : Nat) (bytes : List UInt8) : Prop :=
  let r := LsConfigRequest.ofBody bytes
  slot < lsConfigSlots ∧ r.abi = lsConfigAbi ∧ r.reserved = 0 ∧ r.schema ≠ 0 ∧
    r.entries.toNat ≤ lsConfigRows ∧
    bytes.length = lsConfigRequestHeader + r.entries.toNat * lsConfigValueSize ∧
    r.session = s.session ∧ r.instanceId = (s.slots slot).current.instanceId ∧
    r.programSha256 = (s.slots slot).programSha256 ∧
    r.expectedRevision = (s.slots slot).current.revision ∧ r.expectedRevision < r.revision

instance (s : LsConfigStore) (slot : Nat) (bytes : List UInt8) :
    Decidable (Agrees s slot bytes) :=
  inferInstanceAs (Decidable (_ ∧ _))

/-- Binding an instance again restarts its revisions, so one instance can be
given revision 5 and then revision 1; and while no session is set, a request
that agrees with the store in every field is refused. -/
theorem rebind_restarts_and_unset_session_refuses :
    instanceRevisions (UInt64.ofNat (2 ^ 63 + 64 + 5)) (stateAfter 42
      (bindFive ++ [publishFive 42 0 5] ++ bindFive.drop 1 ++ [publishFive 42 0 1])).log =
        [1, 5] ∧
    (configMachine 42).Reachable (stateAfter 42
      (bindFive ++ [publishFive 42 0 5] ++ bindFive.drop 1 ++ [publishFive 42 0 1])) ∧
    (configMachine 0).Reachable (stateAfter 0 bindFive) ∧
    Agrees (stateAfter 0 bindFive).store 5 (rowRequest 0 0 1).toBody ∧
    ((stateAfter 0 bindFive).store.slots 5).sequence ≤ uint64Max - 2 ∧
    (lsConfigPublish (stateAfter 0 bindFive).store 5 (some (rowRequest 0 0 1).toBody)).1 ≠
      none :=
  ⟨by decide +kernel, reachable_stateAfter 42 _, reachable_stateAfter 0 _,
    by decide +kernel, by decide +kernel, by decide +kernel⟩

end Config
end LiveSurface
