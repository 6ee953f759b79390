import LiveSurface.Metadata.Method

/-!
# Values in a reply

A reply is spelled by a chain of fragments, and a table of tokens says where its members lie.  The
reader of replies copies the few bytes of a token and takes them for a truth value or for an error
code.  A read, a copy and a value either succeed or give a status, and count what they have read.

Main results:

- Theorem {lit}`bytes_spelled`: what is copied is that part of the text.
- Theorem {lit}`integer_eq_some_iff`: which bytes are an error code, and which one.
- Theorem {lit}`value_integer`: an error code is taken exactly or not at all.
-/

namespace LiveSurface
namespace Metadata

/-! ## Statuses -/

def tmInvalidCache : Nat := 9
def rpWrongType : Nat := 10

/-- A step of the reader: a status where it fails, and the record. -/
abbrev Reply (α : Type) := ExceptT Nat (StateM RpEvent) α

namespace Reply

/-- The integer that a function of the source returns. -/
def returned : Except Nat Unit → Nat
  | .ok _ => jmComplete
  | .error status => status

/-! ## Reads -/

/-- {lit}`field`. -/
def rpField (mem : ProbeMemory) (n : Nat) (address : UInt64) : Reply (List UInt8) := fun e =>
  if e.reads ≥ 80 ∨ n > 32 ∨ e.sourceBytes > 2048 - n then (.error jmBudget, e)
  else
    let e := { e with reads := e.reads + 1, sourceBytes := e.sourceBytes + n }
    match readBytes mem address n with
    | none => (.error jmReadFailed, e)
    | some bs => (.ok bs, e)

/-- {lit}`struct tm_frag`: the length of its data, where they are, and the next one. -/
def fragLen (frag : List UInt8) : Nat := fieldAt frag 4 2

def fragData (frag : List UInt8) : UInt64 :=
  pointerAt frag 8 + UInt64.ofNat (fieldAt frag 6 2)

def fragNext (frag : List UInt8) : UInt64 := pointerAt frag 16

/-- The loop of {lit}`bytes`, with {lit}`left` of the four fragments left. -/
def bytesFrom (mem : ProbeMemory) (length : Nat) :
    (left : Nat) → (head : UInt64) → (offset : Nat) → (copied : List UInt8) → Reply (List UInt8)
  | 0, _, _, copied => if copied.length = length then pure copied else throw jmBudget
  | left + 1, head, offset, copied =>
      if copied.length = length then pure copied
      else if head = 0 then throw tmInvalidCache
      else do
        let frag ← rpField mem 24 head
        if offset < fragLen frag then
          let n := min (fragLen frag - offset) (length - copied.length)
          if copied.length > 15 ∨ n > 16 - copied.length then throw tmInvalidCache
          else
            let data ← rpField mem n (fragData frag + UInt64.ofNat offset)
            bytesFrom mem length left (fragNext frag) 0 (copied ++ data)
        else bytesFrom mem length left (fragNext frag) (offset - fragLen frag) copied

/-- {lit}`bytes`. -/
def bytes (mem : ProbeMemory) (head : UInt64) (offset length : Nat) : Reply (List UInt8) :=
  if length > 16 then throw jmOutOfScope else bytesFrom mem length 4 head offset []

/-- {lit}`struct rp_view`. -/
structure RpView where
  head : UInt64
  tokens : UInt64
  used : Nat
  length : Nat

/-- {lit}`struct tm_token`. -/
structure TmToken where
  type : Int
  start : Int
  stop : Int
  size : Int
  sibling : Int

def TmToken.unpack (bs : List UInt8) : TmToken where
  type := intOfWord (fieldAt bs 0 4)
  start := intOfWord (fieldAt bs 4 4)
  stop := intOfWord (fieldAt bs 8 4)
  size := intOfWord (fieldAt bs 12 4)
  sibling := intOfWord (fieldAt bs 16 4)

/-- {lit}`token`. -/
def token (mem : ProbeMemory) (v : RpView) (index : Nat) : Reply TmToken :=
  if index ≥ v.used then throw tmInvalidCache
  else do
    let bs ← rpField mem 20 (v.tokens + UInt64.ofNat index * 20)
    let t := TmToken.unpack bs
    if t.start < 0 ∨ t.stop < t.start ∨ t.stop > v.length ∨ t.size < 0 then throw tmInvalidCache
    else pure t

/-! ## Values -/

/-- {lit}`true` and {lit}`false`. -/
def trueBytes : List UInt8 := [116, 114, 117, 101]

def falseBytes : List UInt8 := [102, 97, 108, 115, 101]

/-- {lit}`negative ? 2147483648ull : 2147483647ull`. -/
def limit (negative : Bool) : UInt64 := if negative then 2147483648 else 2147483647

/-- The loop over the digits: {lit}`none` where it is out of scope. -/
def digits (negative : Bool) (start n : Nat) :
    (i : Nat) → List UInt8 → (number : UInt64) → Option UInt64
  | _, [], number => some number
  | i, c :: rest, number =>
      if i < start then digits negative start n (i + 1) rest number
      else if c < 48 ∨ c > 57 then none
      else if i = start ∧ c = 48 ∧ n > start + 1 then none
      else
        let number := number * 10 + c.toUInt64 - 48
        if number > limit negative then none else digits negative start n (i + 1) rest number

/-- The products and the sums of the loop, as numbers without a bound. -/
def intermediate (negative : Bool) (start n : Nat) :
    (i : Nat) → List UInt8 → (number : UInt64) → List Nat
  | _, [], _ => []
  | i, c :: rest, number =>
      if i < start then intermediate negative start n (i + 1) rest number
      else if c < 48 ∨ c > 57 then []
      else if i = start ∧ c = 48 ∧ n > start + 1 then []
      else
        let next := number * 10 + c.toUInt64 - 48
        number.toNat * 10 :: (number.toNat * 10 + c.toNat) ::
          if next > limit negative then []
          else intermediate negative start n (i + 1) rest next

/-- {lit}`buf[0] == '-'`. -/
def negative (buf : List UInt8) : Bool := buf.head? = some 45

def digitsStart (buf : List UInt8) : Nat := if negative buf then 1 else 0

/-- The error code in the bytes of a token. -/
def integer (buf : List UInt8) : Option Int :=
  if buf.length = digitsStart buf then none
  else
    (digits (negative buf) (digitsStart buf) buf.length 0 (buf.take 11) 0).map fun number =>
      intOfWord ((if negative buf then 0 - number else number).toNat % 2 ^ 32)

/-- What is made of the bytes of a token. -/
def kept (boolean : Bool) (buf : List UInt8) : Reply Unit :=
  if boolean then
    if buf = trueBytes then modify fun e => { e with toolError := 1 }
    else if buf = falseBytes then pure ()
    else throw rpWrongType
  else
    match integer buf with
    | none => throw jmOutOfScope
    | some code => modify fun e => { e with errorCode := code }

/-- {lit}`value`. -/
def value (mem : ProbeMemory) (v : RpView) (index : Nat) (boolean : Bool) : Reply Unit := do
  let t ← token mem v index
  if t.type ≠ 4 then throw rpWrongType
  else if (t.stop - t.start).toNat = 0 ∨
      (t.stop - t.start).toNat > (if boolean then 5 else 11) then
    throw jmOutOfScope
  else
    let buf ← bytes mem v.head t.start.toNat (t.stop - t.start).toNat
    kept boolean buf

/-! ## Steps that leave the error code alone -/

theorem run_bind {α β : Type} (m : Reply α) (f : α → Reply β) (e : RpEvent) :
    (m >>= f) e =
      match m e with
      | (.ok a, e') => f a e'
      | (.error status, e') => (.error status, e') := by
  change (match m e with | (r, e') => ExceptT.bindCont f r e') = _
  rcases m e with ⟨r, e'⟩
  cases r <;> rfl

/-- The error code stays, and a failure is not reported as complete. -/
structure Quiet {α : Type} (m : Reply α) : Prop where
  keeps : ∀ e, (m e).2.errorCode = e.errorCode
  fails : ∀ e status, (m e).1 = .error status → status ≠ jmComplete

theorem quiet_pure {α : Type} (a : α) : Quiet (pure a : Reply α) where
  keeps _ := rfl
  fails _ _ h := nomatch h

theorem quiet_throw {α : Type} {status : Nat} (h : status ≠ jmComplete) :
    Quiet (throw status : Reply α) where
  keeps _ := rfl
  fails _ _ hstatus := Except.error.inj hstatus ▸ h

theorem Quiet.bind {α β : Type} {m : Reply α} {f : α → Reply β} (hm : Quiet m)
    (hf : ∀ a, Quiet (f a)) : Quiet (m >>= f) where
  keeps e := by
    have hkeeps := hm.keeps e
    rw [run_bind]
    rcases hrun : m e with ⟨r, e'⟩
    rw [hrun] at hkeeps
    cases r with
    | ok a => exact ((hf a).keeps e').trans hkeeps
    | error status => exact hkeeps
  fails e status h := by
    have hfails := hm.fails e
    rw [run_bind] at h
    rcases hrun : m e with ⟨r, e'⟩
    rw [hrun] at h hfails
    cases r with
    | ok a => exact (hf a).fails e' status h
    | error status' => exact hfails status (congrArg Except.error (Except.error.inj h))

theorem Quiet.ite {α : Type} {c : Prop} [Decidable c] {m m' : Reply α} (hm : Quiet m)
    (hm' : Quiet m') : Quiet (if c then m else m') := by
  split
  · exact hm
  · exact hm'

theorem quiet_rpField (mem : ProbeMemory) (n : Nat) (address : UInt64) :
    Quiet (rpField mem n address) := by
  constructor
  · intro e
    unfold rpField
    split
    · rfl
    · cases readBytes mem address n <;> rfl
  · intro e status h
    unfold rpField at h
    split at h
    · exact Except.error.inj h ▸ (by decide)
    · cases hread : readBytes mem address n with
      | none =>
          simp only [hread] at h
          exact Except.error.inj h ▸ (by decide)
      | some bs =>
          simp only [hread] at h
          exact nomatch h

theorem quiet_bytesFrom (mem : ProbeMemory) (length left : Nat) (head : UInt64) (offset : Nat)
    (copied : List UInt8) : Quiet (bytesFrom mem length left head offset copied) := by
  induction left generalizing head offset copied with
  | zero => exact (quiet_pure _).ite (quiet_throw (by decide))
  | succ left ih =>
      rw [bytesFrom]
      refine (quiet_pure _).ite ((quiet_throw (by decide)).ite ?_)
      refine (quiet_rpField _ _ _).bind fun frag => Quiet.ite ?_ (ih _ _ _)
      exact (quiet_throw (by decide)).ite ((quiet_rpField _ _ _).bind fun data => ih _ _ _)

theorem quiet_bytes (mem : ProbeMemory) (head : UInt64) (offset length : Nat) :
    Quiet (bytes mem head offset length) :=
  (quiet_throw (by decide)).ite (quiet_bytesFrom _ _ _ _ _ _)

theorem quiet_token (mem : ProbeMemory) (v : RpView) (index : Nat) : Quiet (token mem v index) :=
  (quiet_throw (by decide)).ite
    ((quiet_rpField _ _ _).bind fun _ => (quiet_throw (by decide)).ite (quiet_pure _))

/-! ## The text of a token -/

/-- From a fragment on, the chain spells a text, or more. -/
inductive Spelled (mem : ProbeMemory) : UInt64 → List UInt8 → Prop
  | stop (head : UInt64) : Spelled mem head []
  | link {head : UInt64} {frag data rest : List UInt8} : head ≠ 0 →
      readBytes mem head 24 = some frag →
      readBytes mem (fragData frag) (fragLen frag) = some data →
      (fragData frag).toNat + fragLen frag ≤ 2 ^ 64 →
      Spelled mem (fragNext frag) rest → Spelled mem head (data ++ rest)

/-- The text of a token in the reply. -/
def TokenText (mem : ProbeMemory) (v : RpView) (t : TmToken) (text : List UInt8) : Prop :=
  ∃ whole, Spelled mem v.head whole ∧ t.stop.toNat ≤ whole.length ∧
    text = (whole.drop t.start.toNat).take (t.stop - t.start).toNat

/-- A read that succeeds returns what is there. -/
theorem rpField_ok {mem : ProbeMemory} {n : Nat} {address : UInt64} {e e' : RpEvent}
    {bs : List UInt8} (h : rpField mem n address e = (.ok bs, e')) :
    readBytes mem address n = some bs := by
  unfold rpField at h
  split at h
  · exact absurd (congrArg Prod.fst h) nofun
  · cases hread : readBytes mem address n with
    | none =>
        simp only [hread] at h
        exact absurd (congrArg Prod.fst h) nofun
    | some bs' =>
        simp only [hread] at h
        rw [Except.ok.inj (congrArg Prod.fst h)]

theorem run_bind_ok {α β : Type} {m : Reply α} {f : α → Reply β} {e e' : RpEvent} {b : β}
    (h : (m >>= f) e = (.ok b, e')) : ∃ a e₁, m e = (.ok a, e₁) ∧ f a e₁ = (.ok b, e') := by
  rw [run_bind] at h
  rcases hrun : m e with ⟨r, e₁⟩
  rw [hrun] at h
  cases r with
  | ok a => exact ⟨a, e₁, rfl, h⟩
  | error status => exact absurd (congrArg Prod.fst h) nofun

theorem run_pure_ok {α : Type} {a b : α} {e e' : RpEvent}
    (h : (pure a : Reply α) e = (.ok b, e')) : b = a :=
  (Except.ok.inj (congrArg Prod.fst h)).symm

/-- A read inside of what is there returns that part of it. -/
theorem readBytes_part {mem : ProbeMemory} {a : UInt64} {len offset n : Nat}
    {data bs : List UInt8} (hdata : readBytes mem a len = some data)
    (hfits : a.toNat + len ≤ 2 ^ 64) (hn : offset + n ≤ len) (hoffset : offset < len)
    (h : readBytes mem (a + UInt64.ofNat offset) n = some bs) :
    bs = (data.drop offset).take n := by
  obtain ⟨hlength, hdata⟩ := probe_eq_some_iff.mp hdata
  obtain ⟨hcount, hbytes⟩ := probe_eq_some_iff.mp h
  have haddress : (a + UInt64.ofNat offset).toNat = a.toNat + offset := by
    rw [UInt64.toNat_add, UInt64.toNat_ofNat', Nat.add_mod_mod, Nat.mod_eq_of_lt (by omega)]
  apply List.ext_getElem
  · rw [List.length_take, List.length_drop]
    omega
  · intro i hi hi'
    have hpart := hbytes i hi
    rw [haddress, Nat.add_assoc, hdata (offset + i) (by omega)] at hpart
    rw [List.getElem_take, List.getElem_drop]
    exact (Option.some.inj hpart).symm

/-- What is copied is the next part of the text. -/
theorem bytesFrom_spelled {mem : ProbeMemory} {length left : Nat} {head : UInt64} {offset : Nat}
    {copied whole buf : List UInt8} {e e' : RpEvent} (hwhole : Spelled mem head whole)
    (hcopied : copied.length ≤ length) (hfits : offset + (length - copied.length) ≤ whole.length)
    (h : bytesFrom mem length left head offset copied e = (.ok buf, e')) :
    buf = copied ++ (whole.drop offset).take (length - copied.length) := by
  induction left generalizing head offset copied whole e with
  | zero =>
      rw [bytesFrom] at h
      split at h
      · rename_i hlength
        rw [run_pure_ok h, hlength, Nat.sub_self, List.take_zero, List.append_nil]
      · exact absurd (congrArg Prod.fst h) nofun
  | succ left ih =>
      rw [bytesFrom] at h
      by_cases hlength : copied.length = length
      · rw [if_pos hlength] at h
        rw [run_pure_ok h, hlength, Nat.sub_self, List.take_zero, List.append_nil]
      · rw [if_neg hlength] at h
        by_cases hhead : head = 0
        · rw [if_pos hhead] at h
          exact absurd (congrArg Prod.fst h) nofun
        · rw [if_neg hhead] at h
          obtain ⟨frag, e₁, hfrag, h⟩ := run_bind_ok h
          have hfrag := rpField_ok hfrag
          cases hwhole with
          | stop =>
              rw [List.length_nil] at hfits
              omega
          | @link _ frag' data rest _ hfrag' hdata hspace hrest =>
              obtain rfl := Option.some.inj (hfrag'.symm.trans hfrag)
              have hdataLength : data.length = fragLen frag' := length_of_probe hdata
              rw [List.length_append] at hfits
              by_cases hoffset : offset < fragLen frag'
              · rw [if_pos hoffset] at h
                split at h
                · exact absurd (congrArg Prod.fst h) nofun
                · obtain ⟨bs, e₂, hbs, h⟩ := run_bind_ok h
                  have hbs := readBytes_part hdata hspace (by omega) hoffset (rpField_ok hbs)
                  have hcount : bs.length = min (fragLen frag' - offset) (length - copied.length) := by
                    rw [hbs, List.length_take, List.length_drop, hdataLength]
                    omega
                  have hnext := ih hrest (by rw [List.length_append]; omega)
                    (by rw [List.length_append]; omega) h
                  rw [hnext, List.drop_zero, List.append_assoc, List.length_append,
                    List.drop_append_of_le_length (by omega), List.take_append, List.length_drop,
                    hdataLength, hbs]
                  refine congrArg (copied ++ ·) ?_
                  rw [hbs] at hcount
                  congr 1
                  · rw [Nat.min_def]
                    split
                    · rw [List.take_of_length_le (by rw [List.length_drop]; omega),
                        List.take_of_length_le (by rw [List.length_drop]; omega)]
                    · rfl
                  · rw [hcount]
                    congr 1
                    omega
              · rw [if_neg hoffset] at h
                have hdrop : (data ++ rest).drop offset = rest.drop (offset - fragLen frag') := by
                  rw [List.drop_append, List.drop_of_length_le (by omega), List.nil_append,
                    hdataLength]
                rw [hdrop]
                exact ih hrest hcopied (by omega) h

/-- What is copied is that part of the text. -/
theorem bytes_spelled {mem : ProbeMemory} {head : UInt64} {offset length : Nat}
    {whole buf : List UInt8} {e e' : RpEvent} (hwhole : Spelled mem head whole)
    (hfits : offset + length ≤ whole.length)
    (h : bytes mem head offset length e = (.ok buf, e')) :
    buf = (whole.drop offset).take length := by
  unfold bytes at h
  split at h
  · exact absurd (congrArg Prod.fst h) nofun
  · exact bytesFrom_spelled hwhole (Nat.zero_le _) hfits h

/-! ## Numerals -/

def IsDigit (c : UInt8) : Prop := 48 ≤ c.toNat ∧ c.toNat ≤ 57

instance (c : UInt8) : Decidable (IsDigit c) := inferInstanceAs (Decidable (_ ∧ _))

/-- The value of digits after others. -/
def decimal (n : Nat) (ds : List UInt8) : Nat := ds.foldl (fun n c => 10 * n + (c.toNat - 48)) n

/-- A decimal integer: an optional minus sign, and digits without a leading zero. -/
def Numeral (text : List UInt8) (x : Int) : Prop :=
  ∃ sign ds, text = sign ++ ds ∧ (sign = [] ∨ sign = [45]) ∧ ds ≠ [] ∧ (∀ c ∈ ds, IsDigit c) ∧
    (1 < ds.length → ds.head? ≠ some 48) ∧
    x = if sign = [] then (decimal 0 ds : Int) else -(decimal 0 ds : Int)

theorem isDigit_iff {c : UInt8} : IsDigit c ↔ ¬(c < 48 ∨ c > 57) := by
  rw [IsDigit, not_or, UInt8.not_lt, gt_iff_lt, UInt8.not_lt, UInt8.le_iff_toNat_le,
    UInt8.le_iff_toNat_le]
  rfl

theorem decimal_cons (n : Nat) (c : UInt8) (ds : List UInt8) :
    decimal n (c :: ds) = decimal (10 * n + (c.toNat - 48)) ds := by
  simp only [decimal, List.foldl_cons]

theorem le_decimal (n : Nat) (ds : List UInt8) : n ≤ decimal n ds := by
  induction ds generalizing n with
  | nil => exact Nat.le_refl n
  | cons c ds ih =>
      rw [decimal_cons]
      exact Nat.le_trans (by omega) (ih _)

theorem toNat_limit_le (negative : Bool) : (limit negative).toNat ≤ 2 ^ 31 := by
  cases negative <;> simp [limit]

/-- Below the limit a step of the loop does not overflow. -/
theorem toNat_step {number : UInt64} {c : UInt8} (hnumber : number.toNat ≤ 2 ^ 31)
    (hc : IsDigit c) :
    (number * 10 + c.toUInt64 - 48).toNat = 10 * number.toNat + (c.toNat - 48) := by
  obtain ⟨hlow, hhigh⟩ := hc
  have hsum : (number * 10 + c.toUInt64).toNat = 10 * number.toNat + c.toNat := by
    rw [UInt64.toNat_add, UInt64.toNat_mul, UInt8.toNat_toUInt64]
    change (number.toNat * 10 % 2 ^ 64 + c.toNat) % 2 ^ 64 = _
    omega
  have hle : (48 : UInt64) ≤ number * 10 + c.toUInt64 := by
    rw [UInt64.le_iff_toNat_le, hsum]
    change 48 ≤ _
    omega
  rw [UInt64.toNat_sub_of_le _ _ hle, hsum]
  change _ - 48 = _
  omega

/-- What the loop finds in the digits after the first. -/
theorem digits_eq_some_iff {negative : Bool} {start n i : Nat} {cs : List UInt8} {number r : UInt64}
    (hi : start < i) (hnumber : number.toNat ≤ (limit negative).toNat) :
    digits negative start n i cs number = some r ↔
      (∀ c ∈ cs, IsDigit c) ∧ decimal number.toNat cs ≤ (limit negative).toNat ∧
        r.toNat = decimal number.toNat cs := by
  induction cs generalizing i number with
  | nil =>
      rw [digits, Option.some.injEq, eq_comm, ← UInt64.toNat_inj]
      exact ⟨fun h => ⟨fun c hc => (nomatch hc), hnumber, h⟩, fun h => h.2.2⟩
  | cons c cs ih =>
      rw [digits, if_neg (by omega), List.forall_mem_cons, isDigit_iff]
      by_cases hc : c < 48 ∨ c > 57
      · rw [if_pos hc]
        exact iff_of_false nofun fun h => h.1.1 hc
      · have hdigit := isDigit_iff.mpr hc
        have hstep := toNat_step (Nat.le_trans hnumber (toNat_limit_le _)) hdigit
        rw [if_neg hc, if_neg (by omega), decimal_cons, ← hstep]
        by_cases hlimit : number * 10 + c.toUInt64 - 48 > limit negative
        · rw [if_pos hlimit]
          refine iff_of_false nofun fun h => ?_
          have hle := le_decimal (number * 10 + c.toUInt64 - 48).toNat cs
          have hlt := UInt64.lt_iff_toNat_lt.mp hlimit
          omega
        · rw [if_neg hlimit, ih (by omega) (UInt64.not_lt.mp hlimit)]
          exact ⟨fun h => ⟨⟨hc, h.1⟩, h.2⟩, fun h => ⟨h.1.2, h.2⟩⟩

/-- What the loop finds in all the digits. -/
theorem digits_start_iff {negative : Bool} {start n : Nat} {ds : List UInt8} {r : UInt64}
    (hn : n = start + ds.length) (hds : ds ≠ []) :
    digits negative start n start ds 0 = some r ↔
      (∀ c ∈ ds, IsDigit c) ∧ (1 < ds.length → ds.head? ≠ some 48) ∧
        decimal 0 ds ≤ (limit negative).toNat ∧ r.toNat = decimal 0 ds := by
  obtain ⟨c, cs, rfl⟩ := List.exists_cons_of_ne_nil hds
  rw [digits, if_neg (Nat.lt_irrefl start), List.forall_mem_cons, isDigit_iff]
  by_cases hc : c < 48 ∨ c > 57
  · rw [if_pos hc]
    exact iff_of_false nofun fun h => h.1.1 hc
  · have hdigit := isDigit_iff.mpr hc
    have hstep : (0 * 10 + c.toUInt64 - 48).toNat = 10 * 0 + (c.toNat - 48) :=
      toNat_step (Nat.zero_le _) hdigit
    rw [if_neg hc]
    by_cases hzero : c = 48 ∧ n > start + 1
    · rw [if_pos ⟨rfl, hzero⟩]
      refine iff_of_false nofun fun h => h.2.1 ?_ (congrArg some hzero.1)
      rw [hn] at hzero
      omega
    · have hlead : 1 < (c :: cs).length → (c :: cs).head? ≠ some 48 := by
        intro hlength hhead
        exact hzero ⟨Option.some.inj hhead, by omega⟩
      rw [if_neg fun h => hzero h.2, decimal_cons, ← hstep]
      by_cases hlimit : 0 * 10 + c.toUInt64 - 48 > limit negative
      · rw [if_pos hlimit]
        refine iff_of_false nofun fun h => ?_
        have hle := le_decimal (0 * 10 + c.toUInt64 - 48).toNat cs
        have hlt := UInt64.lt_iff_toNat_lt.mp hlimit
        have hbound := h.2.2.1
        omega
      · rw [if_neg hlimit, digits_eq_some_iff (Nat.lt_succ_self _) (UInt64.not_lt.mp hlimit)]
        exact ⟨fun h => ⟨⟨hc, h.1⟩, hlead, h.2⟩, fun h => ⟨h.1.2, h.2.2⟩⟩

/-- No product and no sum of the loop overflows. -/
theorem intermediate_lt {negative : Bool} {start n i : Nat} {cs : List UInt8} {number : UInt64}
    (hnumber : number.toNat ≤ (limit negative).toNat) :
    ∀ p ∈ intermediate negative start n i cs number, p < 2 ^ 64 := by
  induction cs generalizing i number with
  | nil => exact fun p hp => nomatch hp
  | cons c cs ih =>
      rw [intermediate]
      by_cases hskip : i < start
      · rw [if_pos hskip]
        exact ih hnumber
      · rw [if_neg hskip]
        split
        · exact fun p hp => nomatch hp
        · split
          · exact fun p hp => nomatch hp
          · have hle := Nat.le_trans hnumber (toNat_limit_le negative)
            have hc := c.toNat_lt
            rw [List.forall_mem_cons, List.forall_mem_cons]
            refine ⟨by omega, by omega, ?_⟩
            by_cases hlimit : number * 10 + c.toUInt64 - 48 > limit negative
            · rw [if_pos hlimit]
              exact fun p hp => nomatch hp
            · rw [if_neg hlimit]
              exact ih (UInt64.not_lt.mp hlimit)

/-- A negative number of 64 bits is narrowed to itself. -/
theorem intOfWord_neg {r : UInt64} (h : r.toNat ≤ 2 ^ 31) :
    intOfWord ((0 - r).toNat % 2 ^ 32) = -(r.toNat : Int) := by
  have hneg : (0 - r).toNat = (2 ^ 64 - r.toNat) % 2 ^ 64 := by
    rw [UInt64.toNat_sub]
    change (2 ^ 64 - r.toNat + 0) % 2 ^ 64 = _
    rw [Nat.add_zero]
  rw [hneg, intOfWord]
  split <;> omega

theorem intOfWord_pos {r : UInt64} (h : r.toNat < 2 ^ 31) :
    intOfWord (r.toNat % 2 ^ 32) = (r.toNat : Int) := by
  rw [intOfWord]
  split <;> omega

/-- A number of many digits is large. -/
theorem mul_pow_le_decimal (n : Nat) (ds : List UInt8) : n * 10 ^ ds.length ≤ decimal n ds := by
  induction ds generalizing n with
  | nil => simp [decimal]
  | cons c ds ih =>
      rw [decimal_cons, List.length_cons]
      calc n * 10 ^ (ds.length + 1)
        _ = 10 * n * 10 ^ ds.length := by rw [Nat.pow_succ]; ring
        _ ≤ (10 * n + (c.toNat - 48)) * 10 ^ ds.length := Nat.mul_le_mul_right _ (by omega)
        _ ≤ decimal (10 * n + (c.toNat - 48)) ds := ih _

/-- An integer of 32 bits has at most eleven characters. -/
theorem numeral_length_le {text : List UInt8} {x : Int} (h : Numeral text x) (hlow : -2 ^ 31 ≤ x)
    (hhigh : x < 2 ^ 31) : text.length ≤ 11 := by
  obtain ⟨sign, ds, rfl, hsign, hne, hall, hlead, hx⟩ := h
  have hbound : decimal 0 ds ≤ 2 ^ 31 := by
    split at hx <;> omega
  have hsign : sign.length ≤ 1 := by
    rcases hsign with rfl | rfl <;> simp
  obtain ⟨c, cs, rfl⟩ := List.exists_cons_of_ne_nil hne
  rw [List.length_append, List.length_cons]
  by_cases hcs : cs = []
  · rw [hcs, List.length_nil]
    omega
  · have hpos := List.length_pos_of_ne_nil hcs
    have hzero : c ≠ 48 := fun hc =>
      hlead (by rw [List.length_cons]; omega) (congrArg some hc)
    have hdigit := (List.forall_mem_cons.mp hall).1
    have hfirst : 1 ≤ c.toNat - 48 := by
      have : c.toNat ≠ 48 := fun hc => hzero (UInt8.toNat_inj.mp hc)
      have := hdigit.1
      omega
    have hpow : 10 ^ cs.length ≤ 2 ^ 31 := by
      calc 10 ^ cs.length
        _ = 1 * 10 ^ cs.length := (Nat.one_mul _).symm
        _ ≤ (10 * 0 + (c.toNat - 48)) * 10 ^ cs.length := Nat.mul_le_mul_right _ (by omega)
        _ ≤ decimal 0 (c :: cs) := mul_pow_le_decimal _ _
        _ ≤ 2 ^ 31 := hbound
    by_contra hlong
    have hten : 10 ^ 10 ≤ 10 ^ cs.length := Nat.pow_le_pow_right (by decide) (by omega)
    omega

/-- Which bytes are an error code, and which one. -/
theorem integer_eq_some_iff {buf : List UInt8} (h : buf.length ≤ 11) (x : Int) :
    integer buf = some x ↔ Numeral buf x ∧ -2 ^ 31 ≤ x ∧ x < 2 ^ 31 := by
  rw [integer, List.take_of_length_le h, digitsStart]
  by_cases hsign : negative buf = true
  · obtain ⟨ds, rfl⟩ : ∃ ds, buf = 45 :: ds := by
      rw [negative, decide_eq_true_iff] at hsign
      exact ⟨buf.tail, (List.cons_head?_tail hsign).symm⟩
    have hnumeral : Numeral (45 :: ds) x ↔ ds ≠ [] ∧ (∀ c ∈ ds, IsDigit c) ∧
        (1 < ds.length → ds.head? ≠ some 48) ∧ x = -(decimal 0 ds : Int) := by
      constructor
      · rintro ⟨sign, ds', htext, rfl | rfl, hne, hall, hlead, hx⟩
        · rw [List.nil_append] at htext
          rw [← htext, List.forall_mem_cons] at hall
          exact absurd hall.1 (by decide)
        · obtain rfl := (List.cons.inj htext).2
          exact ⟨hne, hall, hlead, hx⟩
      · rintro ⟨hne, hall, hlead, hx⟩
        exact ⟨[45], ds, rfl, .inr rfl, hne, hall, hlead, hx⟩
    rw [hnumeral, hsign, if_pos rfl]
    by_cases hds : ds = []
    · subst hds
      exact iff_of_false nofun fun hall => hall.1.1 rfl
    · have hlength : ¬(45 :: ds).length = 1 := by
        have := List.length_pos_of_ne_nil hds
        rw [List.length_cons]
        omega
      rw [if_neg hlength, digits, if_pos Nat.zero_lt_one, Option.map_eq_some_iff]
      simp only [digits_start_iff (show (45 :: ds).length = 1 + ds.length by
        rw [List.length_cons, Nat.add_comm]) hds, if_true]
      constructor
      · rintro ⟨r, ⟨hall, hlead, hbound, hr⟩, rfl⟩
        have hr' : r.toNat ≤ 2 ^ 31 := hr ▸ hbound
        rw [intOfWord_neg hr', hr]
        exact ⟨⟨hds, hall, hlead, rfl⟩, by omega, by omega⟩
      · rintro ⟨⟨-, hall, hlead, rfl⟩, hlow, -⟩
        have hbound : decimal 0 ds ≤ 2 ^ 31 := by omega
        have hr : (UInt64.ofNat (decimal 0 ds)).toNat = decimal 0 ds := by
          rw [UInt64.toNat_ofNat', Nat.mod_eq_of_lt (by omega)]
        refine ⟨UInt64.ofNat (decimal 0 ds), ⟨hall, hlead, hbound, hr⟩, ?_⟩
        rw [intOfWord_neg (by omega), hr]
  · have hhead : buf.head? ≠ some 45 := by
      rw [negative, decide_eq_true_iff] at hsign
      exact hsign
    have hnumeral : Numeral buf x ↔ buf ≠ [] ∧ (∀ c ∈ buf, IsDigit c) ∧
        (1 < buf.length → buf.head? ≠ some 48) ∧ x = (decimal 0 buf : Int) := by
      constructor
      · rintro ⟨sign, ds, rfl, rfl | rfl, hne, hall, hlead, hx⟩
        · exact ⟨hne, hall, hlead, hx⟩
        · exact absurd rfl hhead
      · rintro ⟨hne, hall, hlead, hx⟩
        exact ⟨[], buf, rfl, .inl rfl, hne, hall, hlead, hx⟩
    rw [hnumeral, (Bool.not_eq_true _).mp hsign, if_neg Bool.false_ne_true]
    by_cases hbuf : buf = []
    · subst hbuf
      exact iff_of_false nofun fun hall => hall.1.1 rfl
    · rw [if_neg fun hlength => hbuf (List.length_eq_zero_iff.mp hlength), Option.map_eq_some_iff]
      simp only [digits_start_iff (Nat.zero_add buf.length).symm hbuf, Bool.false_eq_true, if_false]
      constructor
      · rintro ⟨r, ⟨hall, hlead, hbound, hr⟩, rfl⟩
        have hr' : r.toNat ≤ 2147483647 := hr ▸ hbound
        rw [intOfWord_pos (by omega), hr]
        exact ⟨⟨hbuf, hall, hlead, rfl⟩, by omega, by omega⟩
      · rintro ⟨⟨-, hall, hlead, rfl⟩, -, hhigh⟩
        have hbound : decimal 0 buf ≤ 2147483647 := by omega
        have hr : (UInt64.ofNat (decimal 0 buf)).toNat = decimal 0 buf := by
          rw [UInt64.toNat_ofNat', Nat.mod_eq_of_lt (by omega)]
        refine ⟨UInt64.ofNat (decimal 0 buf), ⟨hall, hlead, hbound, hr⟩, ?_⟩
        rw [intOfWord_pos (by omega), hr]

/-! ## Error codes -/

theorem token_ok {mem : ProbeMemory} {v : RpView} {index : Nat} {e e' : RpEvent} {t : TmToken}
    (h : token mem v index e = (.ok t, e')) : 0 ≤ t.start ∧ t.start ≤ t.stop := by
  unfold token at h
  split at h
  · exact absurd (congrArg Prod.fst h) nofun
  · obtain ⟨bs, e₁, -, h⟩ := run_bind_ok h
    dsimp only at h
    split at h
    · exact absurd (congrArg Prod.fst h) nofun
    · rename_i hbounds
      rw [run_pure_ok h]
      omega

/-- The error code stays where a step is not complete. -/
def Careful (m : Reply Unit) : Prop :=
  ∀ e, returned (m e).1 ≠ jmComplete → (m e).2.errorCode = e.errorCode

theorem careful_throw (status : Nat) : Careful (throw status) := fun _ _ => rfl

theorem Careful.ite {c : Prop} [Decidable c] {m m' : Reply Unit} (hm : Careful m)
    (hm' : Careful m') : Careful (if c then m else m') := by
  split
  · exact hm
  · exact hm'

theorem Quiet.careful_bind {α : Type} {m : Reply α} {f : α → Reply Unit} (hm : Quiet m)
    (hf : ∀ a, Careful (f a)) : Careful (m >>= f) := by
  intro e h
  have hkeeps := hm.keeps e
  rw [run_bind] at h ⊢
  rcases hrun : m e with ⟨r, e'⟩
  rw [hrun] at h hkeeps
  cases r with
  | ok a => exact (hf a e' h).trans hkeeps
  | error status => exact hkeeps

theorem careful_kept (boolean : Bool) (buf : List UInt8) : Careful (kept boolean buf) := by
  intro e h
  unfold kept at h ⊢
  cases boolean with
  | true =>
      rw [if_pos rfl]
      split
      · rfl
      · split <;> rfl
  | false =>
      rw [if_neg Bool.false_ne_true] at h ⊢
      cases hinteger : integer buf with
      | none => rfl
      | some code =>
          rw [hinteger] at h
          exact absurd rfl h

/-- A value that is not complete leaves the error code as it was. -/
theorem careful_value (mem : ProbeMemory) (v : RpView) (index : Nat) (boolean : Bool) :
    Careful (value mem v index boolean) :=
  (quiet_token mem v index).careful_bind fun _ =>
    (careful_throw _).ite ((careful_throw _).ite
      ((quiet_bytes _ _ _ _).careful_bind fun buf => careful_kept boolean buf))

theorem outOfScope_ne {e : RpEvent} :
    ¬returned ((throw jmOutOfScope : Reply Unit) e).1 = jmComplete :=
  fun h => absurd (show jmOutOfScope = jmComplete from h) (by decide)

/-- What is made of the bytes of an error code. -/
theorem kept_integer_iff {buf : List UInt8} (hlength : buf.length ≤ 11) (e : RpEvent) (x : Int) :
    returned (kept false buf e).1 = jmComplete ∧ (kept false buf e).2.errorCode = x ↔
      Numeral buf x ∧ -2 ^ 31 ≤ x ∧ x < 2 ^ 31 := by
  rw [← integer_eq_some_iff hlength, kept, if_neg Bool.false_ne_true]
  cases integer buf with
  | none => exact iff_of_false (fun h => outOfScope_ne h.1) nofun
  | some code =>
      rw [Option.some.injEq]
      exact ⟨fun h => h.2, fun h => ⟨rfl, h⟩⟩

/-- An error code is taken exactly or not at all: the reader is done with a text that can be read
just if that is a decimal integer of 32 bits, which is then the error code; otherwise the error code
stays.  Nothing overflows on the way. -/
theorem value_integer {mem : ProbeMemory} {v : RpView} {index : Nat} {e e₁ : RpEvent}
    {t : TmToken} {text : List UInt8} (htoken : token mem v index e = (.ok t, e₁))
    (htype : t.type = 4) (htext : TokenText mem v t text)
    (hread : text ≠ [] → text.length ≤ 11 →
      ∃ buf e₂, bytes mem v.head t.start.toNat text.length e₁ = (.ok buf, e₂)) :
    (∀ x, returned (value mem v index false e).1 = jmComplete ∧
        (value mem v index false e).2.errorCode = x ↔
      Numeral text x ∧ -2 ^ 31 ≤ x ∧ x < 2 ^ 31) ∧
    (returned (value mem v index false e).1 ≠ jmComplete →
      (value mem v index false e).2.errorCode = e.errorCode) ∧
    ∀ p ∈ intermediate (negative text) (digitsStart text) text.length 0 text 0, p < 2 ^ 64 := by
  refine ⟨fun x => ?_, careful_value mem v index false e, intermediate_lt (Nat.zero_le _)⟩
  obtain ⟨hstart, hstop⟩ := token_ok htoken
  obtain ⟨whole, hwhole, hfits, htext⟩ := htext
  have hlength : text.length = (t.stop - t.start).toNat := by
    rw [htext, List.length_take, List.length_drop]
    omega
  have hvalue : value mem v index false e =
      (if text.length = 0 ∨ text.length > 11 then throw jmOutOfScope
      else bytes mem v.head t.start.toNat text.length >>= kept false) e₁ := by
    unfold value
    rw [run_bind, htoken, hlength]
    dsimp only
    rw [if_neg (not_not.mpr htype)]
    rfl
  rw [hvalue]
  by_cases hempty : text = []
  · rw [if_pos (.inl (List.length_eq_zero_iff.mpr hempty))]
    refine iff_of_false (fun h => outOfScope_ne h.1) ?_
    rintro ⟨⟨sign, ds, hds, -, hne, -⟩, -⟩
    rw [hempty] at hds
    exact hne (List.append_eq_nil_iff.mp hds.symm).2
  · have hpos := List.length_pos_of_ne_nil hempty
    by_cases hlong : text.length ≤ 11
    · obtain ⟨buf, e₂, hbytes⟩ := hread hempty hlong
      have hbuf := bytes_spelled hwhole (by omega) hbytes
      rw [hlength, ← htext] at hbuf
      subst hbuf
      rw [if_neg (by omega), run_bind, hbytes]
      exact kept_integer_iff hlong e₂ x
    · rw [if_pos (.inr (by omega))]
      refine iff_of_false (fun h => outOfScope_ne h.1) ?_
      rintro ⟨hnumeral, hlow, hhigh⟩
      exact hlong (numeral_length_le hnumeral hlow hhigh)

/-- A reply of one fragment that holds the least error code, and its token. -/
def leastMemory : ProbeMemory := fun a =>
  if 0x1000 ≤ a ∧ a < 0x1014 then
    ([4, 0, 0, 0, 2, 0, 0, 0, 13, 0, 0, 0, 0, 0, 0, 0, 0, 0, 0, 0] : List UInt8)[a - 0x1000]?
  else if 0x2000 ≤ a ∧ a < 0x2018 then
    ([0, 0, 0, 0, 13, 0, 0, 0, 0, 0x30, 0, 0, 0, 0, 0, 0, 0, 0, 0, 0, 0, 0, 0, 0] :
      List UInt8)[a - 0x2000]?
  else if 0x3000 ≤ a ∧ a < 0x300d then
    ([32, 32, 45, 50, 49, 52, 55, 52, 56, 51, 54, 52, 56] : List UInt8)[a - 0x3000]?
  else none

/-- The view of it, and a record before it is read. -/
def leastView : RpView where
  head := 0x2000
  tokens := 0x1000
  used := 1
  length := 13

def blankReply : RpEvent := RpEvent.unpack []

/-- The bytes of {lit}`-2147483648`. -/
def leastText : List UInt8 := [45, 50, 49, 52, 55, 52, 56, 51, 54, 52, 56]

theorem value_integer_least :
    (∀ x, returned (value leastMemory leastView 0 false blankReply).1 = jmComplete ∧
        (value leastMemory leastView 0 false blankReply).2.errorCode = x ↔
      Numeral leastText x ∧ -2 ^ 31 ≤ x ∧ x < 2 ^ 31) ∧
    (returned (value leastMemory leastView 0 false blankReply).1 ≠ jmComplete →
      (value leastMemory leastView 0 false blankReply).2.errorCode = blankReply.errorCode) ∧
    ∀ p ∈ intermediate (negative leastText) (digitsStart leastText) leastText.length 0 leastText 0,
      p < 2 ^ 64 := by
  have hread : readBytes leastMemory 0x1000 20 =
      some [4, 0, 0, 0, 2, 0, 0, 0, 13, 0, 0, 0, 0, 0, 0, 0, 0, 0, 0, 0] := by decide +kernel
  have hfrag : readBytes leastMemory 0x2000 24 =
      some [0, 0, 0, 0, 13, 0, 0, 0, 0, 0x30, 0, 0, 0, 0, 0, 0, 0, 0, 0, 0, 0, 0, 0, 0] := by
    decide +kernel
  have hdata : readBytes leastMemory 0x3000 13 =
      some [32, 32, 45, 50, 49, 52, 55, 52, 56, 51, 54, 52, 56] := by decide +kernel
  have hwhole : Spelled leastMemory 0x2000
      ([32, 32, 45, 50, 49, 52, 55, 52, 56, 51, 54, 52, 56] ++ []) :=
    .link (by decide) hfrag hdata (by decide) (.stop _)
  refine @value_integer leastMemory leastView 0 blankReply
    { blankReply with reads := 1, sourceBytes := 20 } ⟨4, 2, 13, 0, 0⟩ leastText ?_ rfl
    ⟨_, hwhole, by decide, by decide⟩ ?_
  · rfl
  · exact fun _ _ => ⟨_, _, rfl⟩

end Reply
end Metadata
end LiveSurface
