import LiveSurface.Library.Probe
import LiveSurface.Metadata.Frames
import Mathlib.Data.Nat.Bitwise

/-!
# The TLS reading

At the request header of a client connection the HTTP reader walks the chain of filters,
looks for the one SSL filter and takes bit fields from its context.  Every read can fail.

The reading of a context is stated below without the walk: a chain of filters as a list, the
filters of it that are SSL filters, and the words of the one context.  The walk is shown to
find exactly this.

Main results:

- Theorem {lit}`tlsWalk_eq_iff`: a walk that ends has seen a whole chain.
- Theorem {lit}`plain_or_reading`: the block of a flow without a reading has no values.
- Theorem {lit}`accepted_tlsMode_iff`: which blocks the decoder takes.
-/

namespace LiveSurface
namespace Metadata

/-! ## Reads -/

/-- {lit}`read_mem` into an array of bytes. -/
def readBytes (mem : ProbeMemory) (a : UInt64) (n : Nat) : Option (List UInt8) :=
  probe mem a.toNat n

/-- {lit}`read_mem` into an integer of {lit}`n` bytes. -/
def readWord (mem : ProbeMemory) (n : Nat) (a : UInt64) : Option Nat :=
  (readBytes mem a n).map ofLittleEndian

/-- {lit}`read_mem` into a pointer. -/
def readPointer (mem : ProbeMemory) (a : UInt64) : Option UInt64 :=
  (readWord mem 8 a).map UInt64.ofNat

/-! ## The walk -/

def rmTlsNa : Nat := 0
def rmTlsTerminated : Nat := 1
def rmTlsNotDecrypting : Nat := 2
def rmTlsNoFilter : Nat := 3
def rmTlsUnknown : Nat := 4
def rmTlsNodesMax : Nat := 16

def rmTlsHsok : Nat := 1
def rmTlsPassthru : Nat := 2
def rmTlsChain : Nat := 4
def rmTlsSessionCert : Nat := 8
def rmTlsRetain : Nat := 16
def rmTlsStResume : Nat := 32
def rmTlsSsResume : Nat := 64
def rmTlsAllowNonssl : Nat := 128

/-- {lit}`RM_SSL_NAME`. -/
def rmSslName : Nat := 0x004c5353

/-- {lit}`struct rm_walk`. -/
structure RmWalk where
  node : UInt64
  ssl : UInt64

/-- A block before the reading. -/
def TlsBlock.zero : TlsBlock where
  mode := rmTlsNa
  reason := 0
  nodes := 0
  bits := 0
  proto := 0
  suite := 0
  pcm := 0
  vfy := 0

/-- The first word of the type name of a filter node. -/
def typeName (mem : ProbeMemory) (node : UInt64) : Option Nat :=
  if node &&& 7 ≠ 0 ∨ node > 0xffffffffffffffff - 64 then none
  else
    (readPointer mem (node + 48)).bind fun link =>
      if link < 72 then none
      else
        (readPointer mem (link - 72)).bind fun link =>
          if link = 0 then none
          else
            (readPointer mem link).bind fun link =>
              if link = 0 then none else readWord mem 4 link

/-- {lit}`tls_step`, and whether it failed. -/
def tlsStep (mem : ProbeMemory) (w : RmWalk) (t : TlsBlock) : Bool × RmWalk × TlsBlock :=
  if w.node = 0 then (false, w, t)
  else
    let t := { t with nodes := t.nodes + 1 }
    match typeName mem w.node with
    | none => (true, w, { t with reason := 1 })
    | some name =>
        if name = rmSslName ∧ w.ssl ≠ 0 then (true, w, { t with reason := 3 })
        else
          let ssl := if name = rmSslName then w.node else w.ssl
          match readPointer mem (w.node + 24) with
          | none => (true, { w with ssl }, { t with reason := 1 })
          | some next => (false, ⟨next, ssl⟩, t)

/-- The steps of the walk up to the first that fails. -/
def tlsWalk (mem : ProbeMemory) : Nat → RmWalk → TlsBlock → Bool × RmWalk × TlsBlock
  | 0, w, t => (false, w, t)
  | n + 1, w, t =>
      match tlsStep mem w t with
      | (true, w, t) => (true, w, t)
      | (false, w, t) => tlsWalk mem n w t

/-! ## The context of an SSL filter -/

/-- The words of an SSL context. -/
structure SslWords where
  w : List Nat
  pointers : List UInt64
  suite : List Nat

namespace SslWords

variable (c : SslWords)

/-- {lit}`SSL_E_CLIENT`. -/
def client : Bool := (c.w.getD 3 0).testBit 0

def vfy : Nat := (c.w.getD 0 0) >>> 22 &&& 127

def pcm : Nat := (c.w.getD 1 0) >>> 15 &&& 3

def suiteId : Nat := (c.suite.getD 1 0) &&& 0xffff

def proto : Nat := (c.suite.getD 1 0) >>> 40 % 2 ^ 32 &&& 15

/-- A flag, or nothing. -/
def flag (b : Bool) (bit : Nat) : Nat := if b then bit else 0

/-- The flags that the words of the context carry. -/
def bits : Nat :=
  flag ((c.w.getD 3 0).testBit 26) rmTlsHsok ||| flag ((c.w.getD 3 0).testBit 16) rmTlsPassthru |||
    flag ((c.w.getD 5 0).testBit 9) rmTlsStResume |||
    flag ((c.w.getD 5 0).testBit 11) rmTlsSsResume |||
    flag ((c.w.getD 10 0).testBit 20) rmTlsAllowNonssl |||
    flag (c.pointers.getD 4 0 ≠ 0) rmTlsChain

/-- {lit}`ssl_pcb.session`. -/
def session : UInt64 := c.pointers.getD 1 0

/-- {lit}`ssl_pcb.prf`. -/
def profile : UInt64 := c.pointers.getD 0 0

/-- The certificate message of the session: nothing when its read fails. -/
def certmsg (mem : ProbeMemory) : Option UInt64 :=
  if c.session = 0 then some 0 else readPointer mem (c.session + 216)

/-- The flags of the profile: nothing when their read fails. -/
def retain (mem : ProbeMemory) : Option Nat :=
  if c.profile = 0 then some 0 else readWord mem 4 (c.profile + 716)

end SslWords

/-- The reads of an SSL context. -/
def readSsl (mem : ProbeMemory) (ssl : UInt64) : Option SslWords :=
  (readBytes mem (ssl + 64) 44).bind fun w =>
    (readBytes mem (ssl + 64 + 72) 40).bind fun pointers =>
      (readBytes mem (ssl + 64 + 520) 16).map fun suite =>
        { w := Layout.unpack [4, 4, 4, 4, 4, 4, 4, 4, 4, 4, 4] w
          pointers := (Layout.unpack [8, 8, 8, 8, 8] pointers).map UInt64.ofNat
          suite := Layout.unpack [8, 8] suite }

/-- The values of a client context, and the reads through its two pointers. -/
def tlsValues (mem : ProbeMemory) (c : SslWords) (t : TlsBlock) : TlsBlock :=
  let t := { t with vfy := c.vfy, pcm := c.pcm, suite := c.suiteId, proto := c.proto, bits := c.bits }
  match c.certmsg mem with
  | none => { t with reason := 1, mode := rmTlsUnknown }
  | some link =>
      let t := { t with bits := t.bits ||| SslWords.flag (link ≠ 0) rmTlsSessionCert }
      match c.retain mem with
      | none => { t with reason := 1 }
      | some retain =>
          let t := { t with bits := t.bits ||| SslWords.flag (retain.testBit 19) rmTlsRetain }
          { t with mode :=
              if t.bits &&& rmTlsHsok ≠ 0 ∧ t.bits &&& rmTlsPassthru = 0 then rmTlsTerminated
              else rmTlsNotDecrypting }

/-- The part of {lit}`tls_mode` after the walk, for the node it found. -/
def tlsContext (mem : ProbeMemory) (ssl : UInt64) (t : TlsBlock) : TlsBlock :=
  match readWord mem 4 (ssl + 44) with
  | none => { t with reason := 1 }
  | some flags =>
      if flags &&& 3 <<< 22 ≠ 3 <<< 22 then { t with reason := 5 }
      else
        match readSsl mem ssl with
        | none => { t with reason := 1 }
        | some c => if c.client then tlsValues mem c t else { t with reason := 4 }

/-- {lit}`tls_mode`. -/
def tlsMode (mem : ProbeMemory) (flow : UInt64) : TlsBlock :=
  let t := { TlsBlock.zero with mode := rmTlsUnknown }
  if flow = 0 ∨ flow &&& 63 ≠ 0 ∨ flow > 0xffffffffffffffff - 96 then { t with reason := 6 }
  else
    match readWord mem 2 (flow + 36) with
    | none => { t with reason := 1 }
    | some type =>
        if type &&& 255 ≠ 6 ∨ type >>> 8 &&& 0xc0 ≠ 0x40 then { t with mode := rmTlsNa }
        else
          match readPointer mem (flow + 80) with
          | none => { t with reason := 1 }
          | some node =>
              match tlsWalk mem rmTlsNodesMax ⟨node, 0⟩ t with
              | (true, _, t) => t
              | (false, w, t) =>
                  if w.node ≠ 0 then { t with reason := 2 }
                  else if w.ssl = 0 then { t with mode := rmTlsNoFilter }
                  else tlsContext mem w.ssl t

/-! ## Chains -/

/-- The filters of a chain from a node to its end, each with the first word of its type name. -/
def Chain (mem : ProbeMemory) : UInt64 → List (UInt64 × Nat) → Prop
  | node, [] => node = 0
  | node, (a, name) :: rest =>
      a = node ∧ node ≠ 0 ∧ typeName mem node = some name ∧
        ∃ next, readPointer mem (node + 24) = some next ∧ Chain mem next rest

/-- The SSL filters of a chain. -/
def sslNodes (nodes : List (UInt64 × Nat)) : List UInt64 :=
  (nodes.filter fun n => n.2 = rmSslName).map Prod.fst

/-- The SSL filter that a walk has seen. -/
def seen (ssl : UInt64) : List UInt64 := if ssl = 0 then [] else [ssl]

theorem sslNodes_cons (node : UInt64) (name : Nat) (rest : List (UInt64 × Nat)) :
    sslNodes ((node, name) :: rest) =
      (if name = rmSslName then [node] else []) ++ sslNodes rest := by
  by_cases hname : name = rmSslName
  · simp [sslNodes, hname]
  · simp [sslNodes, hname]

theorem seen_injective {a b : UInt64} (h : seen a = seen b) : a = b := by
  unfold seen at h
  split at h <;> split at h <;> simp_all

theorem length_seen_le (a : UInt64) : (seen a).length ≤ 1 := by
  unfold seen
  split <;> simp

section Walk

variable {mem : ProbeMemory} {node ssl found : UInt64} {t t' : TlsBlock} {n : Nat}

/-- The chain from no node is empty. -/
theorem Chain.eq_nil {nodes : List (UInt64 × Nat)} (h : Chain mem 0 nodes) : nodes = [] := by
  cases nodes with
  | nil => rfl
  | cons first rest => exact (h.2.1 rfl).elim

/-- The first node of a chain. -/
theorem Chain.eq_cons {nodes : List (UInt64 × Nat)} (h : Chain mem node nodes) (hnode : node ≠ 0) :
    ∃ name rest next, nodes = (node, name) :: rest ∧ typeName mem node = some name ∧
      readPointer mem (node + 24) = some next ∧ Chain mem next rest := by
  cases nodes with
  | nil => exact (hnode h).elim
  | cons first rest =>
      obtain ⟨a, name⟩ := first
      obtain ⟨rfl, -, hname, next, hnext, hrest⟩ := h
      exact ⟨name, rest, next, rfl, hname, hnext, hrest⟩

/-- What a walk adds to the SSL filter it has seen. -/
theorem seen_append (name : Nat) (hnode : node ≠ 0) (hone : ¬(name = rmSslName ∧ ssl ≠ 0))
    (rest : List (UInt64 × Nat)) :
    seen ssl ++ sslNodes ((node, name) :: rest) =
      seen (if name = rmSslName then node else ssl) ++ sslNodes rest := by
  rw [sslNodes_cons, ← List.append_assoc]
  congr 1
  by_cases hname : name = rmSslName
  · have hssl : ssl = 0 := by
      by_contra hssl
      exact hone ⟨hname, hssl⟩
    simp [hname, hssl, seen, hnode]
  · simp [hname]

/-- A walk that ends has seen a whole chain, with at most one SSL filter. -/
theorem tlsWalk_eq_iff : tlsWalk mem n ⟨node, ssl⟩ t = (false, ⟨0, found⟩, t') ↔
    ∃ nodes, Chain mem node nodes ∧ nodes.length ≤ n ∧ seen ssl ++ sslNodes nodes = seen found ∧
      t' = { t with nodes := t.nodes + nodes.length } := by
  induction n generalizing node ssl t with
  | zero =>
      simp only [tlsWalk, Prod.mk.injEq, true_and, RmWalk.mk.injEq]
      constructor
      · rintro ⟨⟨rfl, rfl⟩, rfl⟩
        exact ⟨[], rfl, Nat.le_refl 0, List.append_nil _, rfl⟩
      · rintro ⟨nodes, hchain, hlength, hseen, rfl⟩
        obtain rfl := List.length_eq_zero_iff.mp (Nat.le_zero.mp hlength)
        exact ⟨⟨hchain, seen_injective (by simpa [sslNodes] using hseen)⟩, rfl⟩
  | succ n ih =>
      by_cases hnode : node = 0
      · subst hnode
        have hstep : tlsStep mem ⟨0, ssl⟩ t = (false, ⟨0, ssl⟩, t) := if_pos rfl
        rw [tlsWalk, hstep, ih]
        constructor
        · rintro ⟨nodes, hchain, hlength, hrest⟩
          exact ⟨nodes, hchain, Nat.le_succ_of_le hlength, hrest⟩
        · rintro ⟨nodes, hchain, -, hrest⟩
          have hnil := hchain.eq_nil
          subst hnil
          exact ⟨[], hchain, Nat.zero_le n, hrest⟩
      · rw [tlsWalk, tlsStep, if_neg hnode]
        cases hname : typeName mem node with
        | none =>
            simp only [Prod.mk.injEq, Bool.true_eq_false, false_and, false_iff]
            rintro ⟨nodes, hchain, -⟩
            obtain ⟨name, rest, next, -, hsome, -⟩ := hchain.eq_cons hnode
            rw [hname] at hsome
            exact Option.some_ne_none _ hsome.symm
        | some name =>
            by_cases hone : name = rmSslName ∧ ssl ≠ 0
            · simp only [if_pos hone, Prod.mk.injEq, Bool.true_eq_false, false_and, false_iff]
              rintro ⟨nodes, hchain, -, hseen, -⟩
              obtain ⟨name', rest, next, rfl, hsome, -⟩ := hchain.eq_cons hnode
              rw [hname] at hsome
              obtain rfl := Option.some.inj hsome
              -- two SSL filters do not fit one variable
              have hlength := congrArg List.length hseen
              rw [sslNodes_cons, if_pos hone.1, seen, if_neg hone.2] at hlength
              have hle := length_seen_le found
              simp only [List.length_append, List.length_singleton] at hlength
              omega
            · simp only [if_neg hone]
              cases hnext : readPointer mem (node + 24) with
              | none =>
                  simp only [Prod.mk.injEq, Bool.true_eq_false, false_and, false_iff]
                  rintro ⟨nodes, hchain, -⟩
                  obtain ⟨_, rest, next, -, -, hsome, -⟩ := hchain.eq_cons hnode
                  rw [hnext] at hsome
                  exact Option.some_ne_none _ hsome.symm
              | some next =>
                  simp only [ih]
                  constructor
                  · rintro ⟨rest, hchain, hlength, hseen, rfl⟩
                    refine ⟨(node, name) :: rest, ⟨rfl, hnode, hname, next, hnext, hchain⟩,
                      Nat.succ_le_succ hlength, ?_, ?_⟩
                    · rw [seen_append name hnode hone]
                      exact hseen
                    · rw [List.length_cons, Nat.succ_add_eq_add_succ]
                  · rintro ⟨nodes, hchain, hlength, hseen, rfl⟩
                    obtain ⟨name', rest, next', rfl, hsome, hsome', hrest⟩ := hchain.eq_cons hnode
                    rw [hname] at hsome
                    rw [hnext] at hsome'
                    obtain rfl := Option.some.inj hsome
                    obtain rfl := Option.some.inj hsome'
                    rw [seen_append name hnode hone] at hseen
                    refine ⟨rest, hrest, Nat.le_of_succ_le_succ hlength, hseen, ?_⟩
                    rw [List.length_cons, Nat.succ_add_eq_add_succ]

/-- What a walk changes in the block. -/
theorem tlsWalk_block {failed : Bool} {w w' : RmWalk}
    (h : tlsWalk mem n w t = (failed, w', t')) :
    ∃ k reason, k ≤ n ∧ t' = { t with nodes := t.nodes + k, reason } ∧
      (if failed then reason = 1 ∨ reason = 3 else reason = t.reason) := by
  induction n generalizing w t with
  | zero =>
      simp only [tlsWalk, Prod.mk.injEq] at h
      obtain ⟨rfl, -, rfl⟩ := h
      exact ⟨0, t.reason, Nat.le_refl 0, rfl, rfl⟩
  | succ n ih =>
      rw [tlsWalk] at h
      unfold tlsStep at h
      by_cases hnode : w.node = 0
      · simp only [if_pos hnode] at h
        obtain ⟨k, reason, hk, ht, hreason⟩ := ih h
        exact ⟨k, reason, Nat.le_succ_of_le hk, ht, hreason⟩
      · simp only [if_neg hnode] at h
        cases hname : typeName mem w.node with
        | none =>
            simp only [hname, Prod.mk.injEq] at h
            obtain ⟨rfl, -, rfl⟩ := h
            exact ⟨1, 1, Nat.succ_le_succ (Nat.zero_le n), rfl, Or.inl rfl⟩
        | some name =>
            simp only [hname] at h
            by_cases hone : name = rmSslName ∧ w.ssl ≠ 0
            · simp only [if_pos hone, Prod.mk.injEq] at h
              obtain ⟨rfl, -, rfl⟩ := h
              exact ⟨1, 3, Nat.succ_le_succ (Nat.zero_le n), rfl, Or.inr rfl⟩
            · simp only [if_neg hone] at h
              cases hnext : readPointer mem (w.node + 24) with
              | none =>
                  simp only [hnext, Prod.mk.injEq] at h
                  obtain ⟨rfl, -, rfl⟩ := h
                  exact ⟨1, 1, Nat.succ_le_succ (Nat.zero_le n), rfl, Or.inl rfl⟩
              | some next =>
                  simp only [hnext] at h
                  obtain ⟨k, reason, hk, rfl, hreason⟩ := ih h
                  refine ⟨k + 1, reason, Nat.succ_le_succ hk, ?_, hreason⟩
                  rw [Nat.succ_add_eq_add_succ]

end Walk

/-! ## Readings -/

/-- The reading of a flow: a client-side TCP flow, its whole chain with one SSL filter, and the
words of the active client context there. -/
structure TlsReading (mem : ProbeMemory) (flow : UInt64) (nodes : List (UInt64 × Nat))
    (ssl : UInt64) (c : SslWords) : Prop where
  address : ¬(flow = 0 ∨ flow &&& 63 ≠ 0 ∨ flow > 0xffffffffffffffff - 96)
  side : ∃ type, readWord mem 2 (flow + 36) = some type ∧
    ¬(type &&& 255 ≠ 6 ∨ type >>> 8 &&& 0xc0 ≠ 0x40)
  chain : ∃ node, readPointer mem (flow + 80) = some node ∧ Chain mem node nodes
  length : nodes.length ≤ rmTlsNodesMax
  one : sslNodes nodes = [ssl]
  active : ∃ flags, readWord mem 4 (ssl + 44) = some flags ∧ flags &&& 3 <<< 22 = 3 <<< 22
  words : readSsl mem ssl = some c
  entity : c.client = true

/-- A block without values. -/
structure TlsBlock.Plain (t : TlsBlock) : Prop where
  nodes : t.nodes ≤ rmTlsNodesMax
  values : t.bits = 0 ∧ t.proto = 0 ∧ t.suite = 0 ∧ t.pcm = 0 ∧ t.vfy = 0
  mode : (t.mode = rmTlsNa ∧ t.reason = 0 ∧ t.nodes = 0) ∨ (t.mode = rmTlsNoFilter ∧ t.reason = 0) ∨
    (t.mode = rmTlsUnknown ∧ 1 ≤ t.reason ∧ t.reason ≤ 6)

/-- The block of an unknown mode after {lit}`k` nodes. -/
def unknownAt (k reason : Nat) : TlsBlock :=
  { TlsBlock.zero with mode := rmTlsUnknown, nodes := k, reason }

theorem plain_unknownAt {k reason : Nat} (hk : k ≤ rmTlsNodesMax) (hlow : 1 ≤ reason)
    (hhigh : reason ≤ 6) : (unknownAt k reason).Plain :=
  ⟨hk, ⟨rfl, rfl, rfl, rfl, rfl⟩, Or.inr (Or.inr ⟨rfl, hlow, hhigh⟩)⟩

section Mode

variable {mem : ProbeMemory} {flow ssl : UInt64} {nodes : List (UInt64 × Nat)} {c : SslWords}

/-- A filter of a chain is at an address. -/
theorem Chain.ne_zero_of_mem {node a : UInt64} (h : Chain mem node nodes) (ha : a ∈ sslNodes nodes) :
    a ≠ 0 := by
  induction nodes generalizing node with
  | nil => exact (List.not_mem_nil ha).elim
  | cons first rest ih =>
      obtain ⟨b, name⟩ := first
      obtain ⟨rfl, hnode, -, next, -, hrest⟩ := h
      rw [sslNodes_cons, List.mem_append] at ha
      rcases ha with ha | ha
      · split at ha
        · rw [List.mem_singleton.mp ha]
          exact hnode
        · exact (List.not_mem_nil ha).elim
      · exact ih hrest ha

/-- The block of a flow that has a reading. -/
theorem TlsReading.tlsMode_eq (h : TlsReading mem flow nodes ssl c) :
    tlsMode mem flow = tlsValues mem c (unknownAt nodes.length 0) := by
  obtain ⟨type, htype, hside⟩ := h.side
  obtain ⟨node, hnode, hchain⟩ := h.chain
  obtain ⟨flags, hflags, hactive⟩ := h.active
  have hssl : ssl ≠ 0 := hchain.ne_zero_of_mem (by rw [h.one]; exact List.mem_singleton_self ssl)
  have hseen : seen 0 ++ sslNodes nodes = seen ssl := by
    rw [h.one, seen, seen, if_pos rfl, if_neg hssl, List.nil_append]
  have hwalk : tlsWalk mem rmTlsNodesMax ⟨node, 0⟩ { TlsBlock.zero with mode := rmTlsUnknown } =
      (false, ⟨0, ssl⟩, unknownAt nodes.length 0) := by
    refine tlsWalk_eq_iff.mpr ⟨nodes, hchain, h.length, hseen, ?_⟩
    simp [unknownAt, TlsBlock.zero]
  simp only [tlsMode, if_neg h.address, htype, if_neg hside, hnode, hwalk]
  simp only [ne_eq, not_true_eq_false, if_false, if_neg hssl, tlsContext, hflags, hactive, h.words,
    h.entity, if_true]

/-- A filter whose context cannot be read as a client's gives a block without values. -/
theorem plain_or_context (mem : ProbeMemory) (ssl : UInt64) {k : Nat} (hk : k ≤ rmTlsNodesMax) :
    (tlsContext mem ssl (unknownAt k 0)).Plain ∨ ∃ c,
      (∃ flags, readWord mem 4 (ssl + 44) = some flags ∧ flags &&& 3 <<< 22 = 3 <<< 22) ∧
        readSsl mem ssl = some c ∧ c.client = true := by
  have hunknown : ∀ {reason}, 1 ≤ reason → reason ≤ 6 → (unknownAt k reason).Plain :=
    plain_unknownAt hk
  unfold tlsContext
  cases hflags : readWord mem 4 (ssl + 44) with
  | none => exact Or.inl (hunknown (by decide) (by decide))
  | some flags =>
      by_cases hactive : flags &&& 3 <<< 22 = 3 <<< 22
      · simp only [ne_eq, hactive, not_true_eq_false, if_false]
        cases hwords : readSsl mem ssl with
        | none => exact Or.inl (hunknown (by decide) (by decide))
        | some c =>
            cases hentity : c.client with
            | true => exact Or.inr ⟨c, ⟨flags, rfl, hactive⟩, rfl, hentity⟩
            | false =>
                left
                simp only [hentity, Bool.false_eq_true, if_false]
                exact hunknown (by decide) (by decide)
      · simp only [ne_eq, hactive, not_false_eq_true, if_true]
        exact Or.inl (hunknown (by decide) (by decide))

/-- A flow without a reading has a block without values. -/
theorem plain_or_reading (mem : ProbeMemory) (flow : UInt64) :
    (tlsMode mem flow).Plain ∨ ∃ nodes ssl c, TlsReading mem flow nodes ssl c := by
  have hunknown : ∀ {k reason}, k ≤ rmTlsNodesMax → 1 ≤ reason → reason ≤ 6 →
      (unknownAt k reason).Plain := plain_unknownAt
  unfold tlsMode
  by_cases hflow : flow = 0 ∨ flow &&& 63 ≠ 0 ∨ flow > 0xffffffffffffffff - 96
  · rw [if_pos hflow]
    exact Or.inl (hunknown (Nat.zero_le _) (by decide) (by decide))
  rw [if_neg hflow]
  cases htype : readWord mem 2 (flow + 36) with
  | none => exact Or.inl (hunknown (Nat.zero_le _) (by decide) (by decide))
  | some type =>
      by_cases hside : type &&& 255 ≠ 6 ∨ type >>> 8 &&& 0xc0 ≠ 0x40
      · simp only [if_pos hside]
        exact Or.inl ⟨Nat.zero_le _, ⟨rfl, rfl, rfl, rfl, rfl⟩, Or.inl ⟨rfl, rfl, rfl⟩⟩
      simp only [if_neg hside]
      cases hnode : readPointer mem (flow + 80) with
      | none => exact Or.inl (hunknown (Nat.zero_le _) (by decide) (by decide))
      | some node =>
          simp only
          split
          · rename_i w t hwalk
            obtain ⟨k, reason, hk, rfl, hreason⟩ := tlsWalk_block hwalk
            left
            have hreason : reason = 1 ∨ reason = 3 := hreason
            refine ⟨?_, ⟨rfl, rfl, rfl, rfl, rfl⟩, Or.inr (Or.inr ⟨rfl, ?_⟩)⟩
            · simpa [TlsBlock.zero] using hk
            · dsimp only
              omega
          · rename_i w t hwalk
            obtain ⟨k, reason, hk, rfl, hreason⟩ := tlsWalk_block hwalk
            obtain rfl : reason = 0 := hreason
            have hk : k ≤ rmTlsNodesMax := hk
            obtain ⟨last, found⟩ := w
            by_cases hlast : last = 0
            · subst hlast
              obtain ⟨nodes, hchain, hlength, hseen, -⟩ := tlsWalk_eq_iff.mp hwalk
              simp only [ne_eq, not_true_eq_false, if_false]
              by_cases hfound : found = 0
              · rw [if_pos hfound]
                exact Or.inl ⟨by simpa [TlsBlock.zero] using hk, ⟨rfl, rfl, rfl, rfl, rfl⟩,
                  Or.inr (Or.inl ⟨rfl, rfl⟩)⟩
              · rw [if_neg hfound]
                have hone : sslNodes nodes = [found] := by
                  rw [seen, if_pos rfl, List.nil_append, seen, if_neg hfound] at hseen
                  exact hseen
                rcases plain_or_context mem found hk with hplain | ⟨c, hactive, hwords, hentity⟩
                · exact Or.inl (by simpa [TlsBlock.zero, unknownAt] using hplain)
                · exact Or.inr ⟨nodes, found, c, hflow, ⟨type, htype, hside⟩, ⟨node, hnode, hchain⟩,
                    hlength, hone, hactive, hwords, hentity⟩
            · left
              simp only [ne_eq, hlast, not_false_eq_true, if_true]
              have hplain : (unknownAt k 2).Plain := hunknown hk (by decide) (by decide)
              simpa [TlsBlock.zero, unknownAt] using hplain

end Mode

/-! ## What the decoder accepts -/

/-- The checks of {lit}`decode_tls`. -/
structure TlsBlock.Accepted (t : TlsBlock) : Prop where
  mode : t.mode ≤ 4
  reason : t.reason ≤ 6
  proto : t.proto ≤ 9
  pcm : t.pcm ≤ 2
  nodes : t.nodes ≤ 16
  bits : t.bits < 256
  suite : t.suite ≤ 0xffff
  vfy : t.vfy ≤ 127
  reasoned : t.mode = 4 ↔ t.reason ≠ 0
  values : ¬(t.mode = 1 ∨ t.mode = 2) →
    t.bits = 0 ∧ t.proto = 0 ∧ t.suite = 0 ∧ t.pcm = 0 ∧ t.vfy = 0
  walked : t.mode = 0 → t.nodes = 0
  terminated : t.mode = 1 → t.bits.testBit 0 = true ∧ t.bits.testBit 1 = false
  clear : t.mode = 2 → ¬(t.bits.testBit 0 = true ∧ t.bits.testBit 1 = false)

theorem isSome_tlsModes (m : Nat) : (∃ name, tlsModes m = some name) ↔ m ≤ 4 := by
  unfold tlsModes
  split <;> grind

theorem isSome_tlsReasons (m : Nat) : (∃ name, tlsReasons m = some name) ↔ m ≤ 6 := by
  unfold tlsReasons
  split <;> grind

theorem isSome_protocols (m : Nat) : (∃ name, protocols m = some name) ↔ m ≤ 9 := by
  unfold protocols
  split <;> grind

theorem isSome_certModes (m : Nat) : (∃ name, certModes m = some name) ↔ m ≤ 2 := by
  unfold certModes
  split <;> grind

theorem shiftRight_eight_eq_zero (b : Nat) : b >>> 8 = 0 ↔ b < 256 := by
  rw [Nat.shiftRight_eq_div_pow]
  omega

/-- The decoder accepts a block when all its checks pass. -/
theorem decodeTls_ok_iff {t : TlsBlock} (h : t.Fits) :
    (∃ tls, decodeTls t.bytes = .ok tls) ↔ t.Accepted := by
  unfold decodeTls
  rw [TlsBlock.unpack_bytes h]
  constructor
  · rintro ⟨tls, htls⟩
    dsimp only at htls
    split at htls
    case h_2 => contradiction
    case h_1 mode reason proto pcm hmode hreason hproto hpcm =>
      split at htls
      · contradiction
      split at htls
      · contradiction
      split at htls
      · contradiction
      split at htls
      · contradiction
      split at htls
      · contradiction
      split at htls
      · contradiction
      rename_i hbounds hreasoned hvalues hwalked hterminated hclear
      simp only [not_or, Nat.not_lt, not_not, gt_iff_lt, ne_eq] at hbounds
      obtain ⟨hnodes, hbits, hsuite, hvfy⟩ := hbounds
      refine ⟨(isSome_tlsModes _).mp ⟨mode, hmode⟩, (isSome_tlsReasons _).mp ⟨reason, hreason⟩,
        (isSome_protocols _).mp ⟨proto, hproto⟩, (isSome_certModes _).mp ⟨pcm, hpcm⟩, hnodes,
        (shiftRight_eight_eq_zero _).mp hbits, hsuite, hvfy, Classical.not_not.mp hreasoned,
        fun hdetail => ?_, fun hzero => ?_, fun hone => ?_, fun htwo hflags => ?_⟩
      · by_contra hnone
        refine hvalues ⟨hdetail, ?_⟩
        simp only [not_and_or] at hnone
        exact hnone
      · by_contra hnone
        exact hwalked ⟨hzero, hnone⟩
      · have hflags := fun hbad => hterminated ⟨hone, hbad⟩
        simpa [TlsFlags.ofBits, not_or] using hflags
      · exact hclear ⟨htwo, hflags.1, by simpa [TlsFlags.ofBits] using hflags.2⟩
  · intro ha
    obtain ⟨mode, hmode⟩ := (isSome_tlsModes t.mode).mpr ha.mode
    obtain ⟨reason, hreason⟩ := (isSome_tlsReasons t.reason).mpr ha.reason
    obtain ⟨proto, hproto⟩ := (isSome_protocols t.proto).mpr ha.proto
    obtain ⟨pcm, hpcm⟩ := (isSome_certModes t.pcm).mpr ha.pcm
    have hbounds : ¬(t.nodes > 16 ∨ t.bits >>> 8 ≠ 0 ∨ t.suite > 0xffff ∨ t.vfy > 127) := by
      have hbits := (shiftRight_eight_eq_zero _).mpr ha.bits
      have hnodes := ha.nodes
      have hsuite := ha.suite
      have hvfy := ha.vfy
      omega
    have hvalues : ¬(¬(t.mode = 1 ∨ t.mode = 2) ∧
        (t.bits ≠ 0 ∨ t.proto ≠ 0 ∨ t.suite ≠ 0 ∨ t.pcm ≠ 0 ∨ t.vfy ≠ 0)) := by
      rintro ⟨hdetail, hsome⟩
      have hnone := ha.values hdetail
      omega
    have hwalked : ¬(t.mode = 0 ∧ t.nodes ≠ 0) := fun hbad => hbad.2 (ha.walked hbad.1)
    have hterminated : ¬(t.mode = 1 ∧ (¬(TlsFlags.ofBits t.bits).handshakeOk ∨
        (TlsFlags.ofBits t.bits).passthru)) := by
      rintro ⟨hone, hbad⟩
      obtain ⟨hok, hpass⟩ := ha.terminated hone
      simp [TlsFlags.ofBits, hok, hpass] at hbad
    have hclear : ¬(t.mode = 2 ∧ (TlsFlags.ofBits t.bits).handshakeOk ∧
        ¬(TlsFlags.ofBits t.bits).passthru) := by
      rintro ⟨htwo, hok, hpass⟩
      exact ha.clear htwo ⟨hok, by simpa [TlsFlags.ofBits] using hpass⟩
    simp only [hmode, hreason, hproto, hpcm]
    rw [if_neg hbounds, if_neg (not_not_intro ha.reasoned), if_neg hvalues, if_neg hwalked,
      if_neg hterminated, if_neg hclear]
    exact ⟨_, rfl⟩

theorem TlsBlock.Plain.accepted {t : TlsBlock} (h : t.Plain) : t.Accepted := by
  obtain ⟨hnodes, hvalues, hmode⟩ := h
  unfold rmTlsNodesMax rmTlsNa rmTlsNoFilter rmTlsUnknown at *
  refine ⟨?_, ?_, ?_, ?_, hnodes, ?_, ?_, ?_, ?_, fun _ => hvalues, ?_, ?_, ?_⟩
  all_goals omega

/-! ## Contexts that the decoder can take -/

/-- The values that the block of a context can carry are known to the decoder, and both late
reads succeed where there are values. -/
structure SslWords.Lucid (c : SslWords) (mem : ProbeMemory) : Prop where
  proto : c.proto ≤ 9
  pcm : c.pcm ≤ 2
  late : c.certmsg mem = none ∨ c.retain mem = none →
    c.bits = 0 ∧ c.proto = 0 ∧ c.suiteId = 0 ∧ c.pcm = 0 ∧ c.vfy = 0 ∧
      ∀ link, c.certmsg mem = some link → link = 0

section Values

variable (c : SslWords)

theorem SslWords.vfy_le : c.vfy ≤ 127 := Nat.and_le_right

theorem SslWords.pcm_le : c.pcm ≤ 3 := Nat.and_le_right

theorem SslWords.suiteId_le : c.suiteId ≤ 0xffff := Nat.and_le_right

theorem SslWords.proto_le : c.proto ≤ 15 := Nat.and_le_right

theorem SslWords.flag_lt {b : Bool} {bit : Nat} (h : bit < 256) : SslWords.flag b bit < 256 := by
  cases b with
  | false => exact Nat.zero_lt_succ 255
  | true => exact h

theorem SslWords.bits_lt : c.bits < 256 := by
  unfold SslWords.bits
  refine Nat.or_lt_two_pow (n := 8) (Nat.or_lt_two_pow (Nat.or_lt_two_pow (Nat.or_lt_two_pow
    (Nat.or_lt_two_pow ?_ ?_) ?_) ?_) ?_) ?_
  all_goals exact SslWords.flag_lt (by decide)

/-- The mode that the flags of a context give, as the decoder reads the flags. -/
theorem terminated_iff (bits : Nat) : (bits &&& rmTlsHsok ≠ 0 ∧ bits &&& rmTlsPassthru = 0) ↔
    bits.testBit 0 = true ∧ bits.testBit 1 = false := by
  have hone : bits &&& rmTlsHsok = (bits.testBit 0).toNat * 2 ^ 0 := Nat.and_two_pow bits 0
  have htwo : bits &&& rmTlsPassthru = (bits.testBit 1).toNat * 2 ^ 1 := Nat.and_two_pow bits 1
  rw [hone, htwo]
  cases bits.testBit 0 <;> cases bits.testBit 1 <;> decide

variable {c} {mem : ProbeMemory} {k bits proto suite pcm vfy : Nat}

/-- A late failure is accepted when it leaves no values. -/
theorem accepted_unknown_iff (hk : k ≤ 16) :
    (⟨4, 1, k, bits, proto, suite, pcm, vfy⟩ : TlsBlock).Accepted ↔
      bits = 0 ∧ proto = 0 ∧ suite = 0 ∧ pcm = 0 ∧ vfy = 0 := by
  constructor
  · intro ha
    exact ha.values (by simp)
  · rintro ⟨rfl, rfl, rfl, rfl, rfl⟩
    refine ⟨?_, ?_, ?_, ?_, hk, ?_, ?_, ?_, ?_, ?_, ?_, ?_, ?_⟩
    all_goals simp

/-- A reading is accepted when its values are in the decoder's tables. -/
theorem accepted_reading_iff (hk : k ≤ 16) (hbits : bits < 256) (hsuite : suite ≤ 0xffff)
    (hvfy : vfy ≤ 127) :
    (⟨if bits &&& rmTlsHsok ≠ 0 ∧ bits &&& rmTlsPassthru = 0 then rmTlsTerminated
      else rmTlsNotDecrypting, 0, k, bits, proto, suite, pcm, vfy⟩ : TlsBlock).Accepted ↔
      proto ≤ 9 ∧ pcm ≤ 2 := by
  constructor
  · intro ha
    exact ⟨ha.proto, ha.pcm⟩
  · rintro ⟨hproto, hpcm⟩
    simp only [terminated_iff]
    split
    case isTrue hflags =>
      refine ⟨?_, ?_, hproto, hpcm, hk, hbits, hsuite, hvfy, ?_, ?_, ?_, fun _ => hflags, ?_⟩
      all_goals simp [rmTlsTerminated]
    case isFalse hflags =>
      refine ⟨?_, ?_, hproto, hpcm, hk, hbits, hsuite, hvfy, ?_, ?_, ?_, ?_, fun _ => hflags⟩
      all_goals simp [rmTlsNotDecrypting]

/-- The block of a context is accepted when the context is lucid. -/
theorem accepted_tlsValues_iff (hk : k ≤ rmTlsNodesMax) :
    (tlsValues mem c (unknownAt k 0)).Accepted ↔ c.Lucid mem := by
  cases hcert : c.certmsg mem with
  | none =>
      have hblock : tlsValues mem c (unknownAt k 0) =
          ⟨4, 1, k, c.bits, c.proto, c.suiteId, c.pcm, c.vfy⟩ := by
        simp only [tlsValues, hcert]
        rfl
      rw [hblock, accepted_unknown_iff hk]
      constructor
      · rintro ⟨hb, hp, hs, hm, hv⟩
        refine ⟨by omega, by omega, fun _ => ⟨hb, hp, hs, hm, hv, fun link hlink => ?_⟩⟩
        exact (Option.some_ne_none _ (hlink.symm.trans hcert)).elim
      · intro hl
        obtain ⟨hb, hp, hs, hm, hv, -⟩ := hl.late (Or.inl hcert)
        exact ⟨hb, hp, hs, hm, hv⟩
  | some link =>
      cases hretain : c.retain mem with
      | none =>
          have hblock : tlsValues mem c (unknownAt k 0) =
              ⟨4, 1, k, c.bits ||| SslWords.flag (link ≠ 0) rmTlsSessionCert, c.proto, c.suiteId,
                c.pcm, c.vfy⟩ := by
            simp only [tlsValues, hcert, hretain]
            rfl
          have hzero : c.bits ||| SslWords.flag (link ≠ 0) rmTlsSessionCert = 0 ↔
              c.bits = 0 ∧ link = 0 := by
            rw [Nat.or_eq_zero_iff]
            by_cases hlink : link = 0 <;> simp [SslWords.flag, hlink, rmTlsSessionCert]
          rw [hblock, accepted_unknown_iff hk, hzero]
          constructor
          · rintro ⟨⟨hb, hlink⟩, hp, hs, hm, hv⟩
            refine ⟨by omega, by omega, fun _ => ⟨hb, hp, hs, hm, hv, fun other hother => ?_⟩⟩
            rw [hcert] at hother
            rw [← Option.some.inj hother]
            exact hlink
          · intro hl
            obtain ⟨hb, hp, hs, hm, hv, hlink⟩ := hl.late (Or.inr hretain)
            exact ⟨⟨hb, hlink link hcert⟩, hp, hs, hm, hv⟩
      | some retain =>
          have hlt : c.bits ||| SslWords.flag (link ≠ 0) rmTlsSessionCert |||
              SslWords.flag (retain.testBit 19) rmTlsRetain < 256 :=
            Nat.or_lt_two_pow (n := 8) (Nat.or_lt_two_pow c.bits_lt (SslWords.flag_lt (by decide)))
              (SslWords.flag_lt (by decide))
          have haccepted := @accepted_reading_iff k _ c.proto c.suiteId c.pcm c.vfy hk hlt
            c.suiteId_le c.vfy_le
          simp only [tlsValues, hcert, hretain]
          refine haccepted.trans ⟨fun hl => ⟨hl.1, hl.2, fun hlate => ?_⟩,
            fun hl => ⟨hl.proto, hl.pcm⟩⟩
          rcases hlate with hlate | hlate
          · exact (Option.some_ne_none _ (hcert.symm.trans hlate)).elim
          · exact (Option.some_ne_none _ (hretain.symm.trans hlate)).elim

/-- A block whose fields are small fits its words. -/
theorem TlsBlock.fits_of_small {t : TlsBlock} (hmode : t.mode ≤ 4) (hreason : t.reason ≤ 6)
    (hnodes : t.nodes ≤ rmTlsNodesMax) (hbits : t.bits < 256) (hproto : t.proto ≤ 15)
    (hsuite : t.suite ≤ 0xffff) (hpcm : t.pcm ≤ 3) (hvfy : t.vfy ≤ 127) : t.Fits := by
  unfold rmTlsNodesMax at hnodes
  simp only [TlsBlock.Fits, Layout.Fits, TlsBlock.words, List.forall_mem_cons]
  refine ⟨?_, ?_, ?_, ?_, ?_, ?_, ?_, ?_, by simp⟩
  all_goals omega

/-- The fields of a context's block fit their words. -/
theorem fits_tlsValues (hk : k ≤ rmTlsNodesMax) : (tlsValues mem c (unknownAt k 0)).Fits := by
  have hsession : ∀ b, c.bits ||| SslWords.flag b rmTlsSessionCert < 2 ^ 8 :=
    fun b => Nat.or_lt_two_pow c.bits_lt (SslWords.flag_lt (by decide))
  have hreason : 1 ≤ 6 := by decide
  unfold tlsValues
  cases c.certmsg mem with
  | none =>
      exact TlsBlock.fits_of_small (Nat.le_refl 4) hreason hk c.bits_lt c.proto_le c.suiteId_le
        c.pcm_le c.vfy_le
  | some link =>
      dsimp only
      cases c.retain mem with
      | none =>
          exact TlsBlock.fits_of_small (Nat.le_refl 4) hreason hk (hsession _) c.proto_le
            c.suiteId_le c.pcm_le c.vfy_le
      | some retain =>
          have hbits := fun b b' => Nat.or_lt_two_pow (n := 8) (hsession b)
            (@SslWords.flag_lt b' rmTlsRetain (by decide))
          refine TlsBlock.fits_of_small ?_ (Nat.zero_le 6) hk (hbits _ _) c.proto_le c.suiteId_le
            c.pcm_le c.vfy_le
          dsimp only
          split <;> decide

end Values

/-- The block of any flow fits its words. -/
theorem fits_tlsMode (mem : ProbeMemory) (flow : UInt64) : (tlsMode mem flow).Fits := by
  rcases plain_or_reading mem flow with hplain | ⟨nodes, ssl, c, hreading⟩
  · obtain ⟨hnodes, ⟨hb, hp, hs, hm, hv⟩, hmode⟩ := hplain
    unfold rmTlsNa rmTlsNoFilter rmTlsUnknown at hmode
    exact TlsBlock.fits_of_small (by omega) (by omega) hnodes (by omega) (by omega) (by omega)
      (by omega) (by omega)
  · rw [hreading.tlsMode_eq]
    exact fits_tlsValues hreading.length

/-- The block of a flow is accepted when every reading of the flow is lucid. -/
theorem accepted_tlsMode_iff (mem : ProbeMemory) (flow : UInt64) : (tlsMode mem flow).Accepted ↔
    ∀ nodes ssl c, TlsReading mem flow nodes ssl c → c.Lucid mem := by
  constructor
  · intro haccepted nodes ssl c hreading
    rw [hreading.tlsMode_eq] at haccepted
    exact (accepted_tlsValues_iff hreading.length).mp haccepted
  · intro hlucid
    rcases plain_or_reading mem flow with hplain | ⟨nodes, ssl, c, hreading⟩
    · exact hplain.accepted
    · rw [hreading.tlsMode_eq]
      exact (accepted_tlsValues_iff hreading.length).mpr (hlucid nodes ssl c hreading)

/-- A terminated flow has a reading. -/
theorem reading_of_terminated {mem : ProbeMemory} {flow : UInt64}
    (h : (tlsMode mem flow).mode = rmTlsTerminated) :
    ∃ nodes ssl c, TlsReading mem flow nodes ssl c := by
  rcases plain_or_reading mem flow with hplain | hreading
  · have hmode := hplain.mode
    rw [h] at hmode
    exact absurd hmode (by unfold rmTlsTerminated rmTlsNa rmTlsNoFilter rmTlsUnknown; omega)
  · exact hreading

end Metadata
end LiveSurface
