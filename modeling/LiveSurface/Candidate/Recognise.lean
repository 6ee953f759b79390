import LiveSurface.Candidate.Grammar

/-!
# What the recogniser accepts

The recogniser is run over each part of a header, and each state that it reaches is
explained by the bytes it has read.

Main results:

- Theorem {lit}`feed_header`: a header is read to its last byte and is complete there.
- Theorem {lit}`scan_feed`: whatever is complete is a header.
- Theorem {lit}`recognises_iff`: the recogniser accepts exactly the headers, unless a
  folded carriage return makes a difference.
-/

namespace LiveSurface
namespace Candidate

/-! ## Runs -/

/-- A running state after the request line. -/
def Progress.inLine (s : Progress) (path seen : Nat) (mode : Mode) (n : Nat) : Progress :=
  { s with flags := 0, mode, n, matched := 1, path, seen }

section Runs

variable {s : Progress} {data : List UInt8} {path seen : Nat} {line name nonce : List UInt8}

theorem nameByte_eq {k : Nat} (hk : k < 13) : some (nameByte k) = headerName[k]? := by
  have hall : ∀ k < 13, some (nameByte k) = headerName[k]? := by decide
  exact hall k hk

/-- One more byte stored after the first ones. -/
theorem take_set_succ {α : Type} {data : List α} {k : Nat} (hk : k < data.length) (c : α) :
    (data.set k c).take (k + 1) = data.take k ++ [c] := by
  have hlt : k < (data.set k c).length := by
    rw [List.length_set]
    exact hk
  rw [← List.take_append_getElem hlt, List.getElem_set_self, List.take_set_of_le (Nat.le_refl k)]

/-- What is stored by a byte and then by the bytes after it. -/
theorem stored_cons {c : UInt8} {rest : List UInt8} {k : Nat} (hk : k < data.length) :
    (data.set k c).take (k + 1) ++ rest ++ (data.set k c).drop (k + 1 + rest.length) =
      data.take k ++ c :: rest ++ data.drop (k + (c :: rest).length) := by
  rw [take_set_succ hk, List.drop_set_of_lt (by omega), List.length_cons, Nat.add_right_comm,
    Nat.add_assoc k rest.length 1, List.append_assoc (data.take k), List.singleton_append]

/-- The first bytes of a request line are stored. -/
theorem feed_first (bs : List UInt8) : ∀ (s : Progress) (data : List UInt8) (k : Nat),
    data.length = 32 → s.mode = .first → s.flags = 0 → s.n = k →
    (k = 0 → bs ≠ [] → bs.head? = some 0x50) → lf ∉ bs → k + bs.length ≤ 31 →
    feed (s, data) bs =
      ({ s with n := k + bs.length }, data.take k ++ bs ++ data.drop (k + bs.length)) := by
  induction bs with
  | nil =>
      intro s data k _ _ _ hk _ _ _
      rw [feed, List.append_nil, List.length_nil, Nat.add_zero, List.take_append_drop, ← hk]
  | cons c rest ih =>
      intro s data k hdata hmode hflags hk hfirst hlf hle
      have hrunning : ¬s.Stopped := by
        rw [Progress.Stopped, hmode, hflags]
        decide
      rw [List.mem_cons, not_or] at hlf
      rw [List.length_cons] at hle
      have hstep : consume s data c = ({ s with n := k + 1 }, data.set k c) := by
        simp only [consume, hmode, hk]
        rw [if_neg, if_pos (Ne.symm hlf.1), Nat.mod_eq_of_lt (by omega)]
        rintro (⟨hzero, hne⟩ | hge)
        · exact hne (Option.some.inj (hfirst hzero (by simp)))
        · omega
      rw [feed_cons hrunning, hstep, ih { s with n := k + 1 } (data.set k c) (k + 1)
        (by rw [List.length_set, hdata]) hmode hflags rfl (fun h => by omega) hlf.2 (by omega),
        stored_cons (by omega), List.length_cons, Nat.add_assoc k 1, Nat.add_comm 1]

/-- A request line leads to the first header line. -/
theorem feed_request {request : List UInt8} (hs : s.mode = .first) (hflags : s.flags = 0)
    (hn : s.n = 0) (hrequest : requestLine path = some request) (hdata : data.length = 32) :
    feed (s, data) (request ++ crlf) = (s.inLine path s.seen .name 0, noBytes) := by
  have hline : request.head? = some 0x50 ∧ lf ∉ request ++ [cr] ∧
      request.length + 1 ≤ 30 ∧ ∀ rest, requestPath (request.length + 1) (request ++ [cr] ++ rest) =
        some path := by
    match path, hrequest with
    | 1, rfl => exact ⟨by decide, by decide, by decide, fun rest => rfl⟩
    | 2, rfl => exact ⟨by decide, by decide, by decide, fun rest => rfl⟩
    | 3, rfl => exact ⟨by decide, by decide, by decide, fun rest => rfl⟩
  obtain ⟨hhead, hlf, hlength, hpath⟩ := hline
  have hfront : (request ++ [cr]).head? = some 0x50 := by
    rw [List.head?_append, hhead]
    rfl
  have hfirst := feed_first (request ++ [cr]) s data 0 hdata hs hflags hn (fun _ _ => hfront) hlf
    (by rw [List.length_append, List.length_singleton]; omega)
  rw [Nat.zero_add, List.length_append, List.length_singleton, List.take_zero,
    List.nil_append] at hfirst
  have hsplit : request ++ crlf = (request ++ [cr]) ++ [lf] := by simp [crlf]
  have hrunning : ¬({ s with n := request.length + 1 } : Progress).Stopped := by
    rw [Progress.Stopped, hs, hflags]
    decide
  have hstep : consume { s with n := request.length + 1 }
      (request ++ [cr] ++ data.drop (request.length + 1)) lf =
        (s.inLine path s.seen .name 0, noBytes) := by
    simp only [consume, hs, hpath]
    rw [if_neg, if_neg (by simp)]
    · rw [Progress.inLine, hflags]
    · rintro (⟨hzero, -⟩ | hge)
      · omega
      · omega
  rw [hsplit, feed_append, hfirst, feed_cons hrunning, hstep, feed]

/-- A running state is not stopped. -/
theorem running {mode : Mode} (hdone : mode ≠ .done) (hbad : mode ≠ .bad) (n : Nat) :
    ¬(s.inLine path seen mode n).Stopped := by
  rw [Progress.Stopped]
  rintro (h | h | h)
  · exact hdone h
  · exact hbad h
  · exact h rfl

theorem running_name (n : Nat) : ¬(s.inLine path seen .name n).Stopped :=
  running (by decide) (by decide) n

/-- {lit}`consume` inside the name of a header line. -/
theorem consume_name (k : Nat) (c : UInt8) : consume (s.inLine path seen .name k) data c =
    if k = 0 ∧ c = cr then (s.inLine path seen .endLf k, data)
    else if c = colon ∧ k = 13 then
      if seen ≠ 0 then ((s.inLine path seen .name k).stop flagDuplicate, data)
      else (s.inLine path 1 .space k, data)
    else if k ≥ 13 ∨ c ||| 32 ≠ nameByte k then
      ({ s.inLine path seen (if c = cr then .skipLf else .skip) k with
        flags := if c = lf then flagUnsupported else 0 }, data)
    else (s.inLine path seen .name (k + 1), data) := by
  have hmatched : ((1 : Nat) ≠ 0) = True := by simp
  unfold consume Progress.inLine
  simp only [hmatched, and_true]

/-- {lit}`consume` inside the nonce. -/
theorem consume_value (k : Nat) (c : UInt8) : consume (s.inLine path seen .value k) data c =
    if k = 32 ∧ c = cr then (s.inLine path seen .valueLf k, data)
    else if k ≥ 32 ∨ hexByte c = false then
      ((s.inLine path seen .value k).stop flagInvalid, data)
    else (s.inLine path seen .value (k + 1), data.set (k % 32) c) :=
  rfl

/-- {lit}`consume` inside a line that is skipped. -/
theorem consume_skip (k : Nat) (c : UInt8) : consume (s.inLine path seen .skip k) data c =
    if c = cr then (s.inLine path seen .skipLf k, data)
    else if c = lf then ({ s.inLine path seen .skip k with flags := flagUnsupported }, data)
    else (s.inLine path seen .skip k, data) :=
  rfl

/-- Bytes that are compared equal to the name are counted. -/
theorem feed_name (front : List UInt8) : ∀ k,
    front.map (· ||| 32) = (headerName.drop k).take front.length → k + front.length ≤ 13 →
    feed (s.inLine path seen .name k, data) front =
      (s.inLine path seen .name (k + front.length), data) := by
  induction front with
  | nil =>
      intro k _ _
      rfl
  | cons c rest ih =>
      intro k hfold hle
      rw [List.length_cons] at hle
      have hlt : k < headerName.length := by
        have : headerName.length = 13 := rfl
        omega
      rw [List.drop_eq_getElem_cons hlt, List.length_cons, List.take_succ_cons, List.map_cons,
        List.cons.injEq] at hfold
      have hbyte : c ||| 32 = nameByte k := by
        have hname := nameByte_eq (k := k) (by omega)
        rw [List.getElem?_eq_getElem hlt] at hname
        rw [hfold.1, Option.some.inj hname]
      have hcr : ¬(k = 0 ∧ c = cr) := by
        rintro ⟨rfl, rfl⟩
        revert hbyte
        decide
      have hstep : consume (s.inLine path seen .name k) data c =
          (s.inLine path seen .name (k + 1), data) := by
        rw [consume_name, if_neg hcr, if_neg (by rintro ⟨-, h⟩; omega), if_neg]
        rintro (h | h)
        · omega
        · exact h hbyte
      rw [feed_cons (running_name k), hstep, ih (k + 1) hfold.2 (by omega), List.length_cons,
        Nat.add_assoc k 1, Nat.add_comm 1]

/-- The line end after a skipped line. -/
theorem feed_skipLf (n : Nat) :
    feed (s.inLine path seen .skipLf n, data) [lf] =
      (s.inLine path seen .name 0, data) := by
  rw [feed_cons (running (by decide) (by decide) n)]
  rfl

/-- A line is skipped to its end. -/
theorem feed_skip (n : Nat) (hends : ∀ c ∈ line, ¬LineEnd c) :
    feed (s.inLine path seen .skip n, data) (line ++ crlf) =
      (s.inLine path seen .name 0, data) := by
  have hrunning : ¬(s.inLine path seen .skip n).Stopped := running (by decide) (by decide) n
  induction line with
  | nil =>
      rw [List.nil_append, crlf, feed_cons hrunning]
      exact feed_skipLf n
  | cons c rest ih =>
      have hc := hends c List.mem_cons_self
      rw [List.cons_append, feed_cons hrunning]
      have hstep : consume (s.inLine path seen .skip n) data c =
          (s.inLine path seen .skip n, data) := by
        rw [consume_skip, if_neg (fun h => hc (.inl h)), if_neg (fun h => hc (.inr h))]
      rw [hstep]
      exact ih (fun d hd => hends d (List.mem_cons_of_mem c hd))

/-- Another header line leads to the next one. -/
theorem feed_other (h : FoldedOther line) :
    feed (s.inLine path seen .name 0, data) (line ++ crlf) = (s.inLine path seen .name 0, data) := by
  obtain ⟨hall, hends, hcolon⟩ := h
  have hle := nameLength_le line headerName
  have hfold := map_take_nameLength line headerName
  generalize hk : nameLength line headerName = k at hall hends hcolon hle hfold
  have hthirteen : headerName.length = 13 := rfl
  have hfront := @feed_name s data path seen (line.take k) 0
    (by rw [List.length_take, Nat.min_eq_left hle.1, List.drop_zero]; exact hfold)
    (by rw [List.length_take, Nat.min_eq_left hle.1]; omega)
  rw [List.length_take, Nat.min_eq_left hle.1, Nat.zero_add] at hfront
  rw [← List.take_append_drop k line, List.append_assoc, feed_append, hfront]
  cases hrest : line.drop k with
  | nil =>
      have hlength : line.length = k := by
        have := List.drop_eq_nil_iff.mp hrest
        omega
      obtain ⟨hzero, hone, hseven⟩ := hall hlength
      have hstep : consume (s.inLine path seen .name k) data cr =
          (s.inLine path seen .skipLf k, data) := by
        rw [consume_name, if_neg (by rintro ⟨h, -⟩; omega),
          if_neg (by rintro ⟨h, -⟩; revert h; decide), if_pos]
        · rfl
        · by_cases hfull : k ≥ 13
          · exact .inl hfull
          · refine .inr ?_
            have hhyphen : ∀ j < 13, j ≠ 1 → j ≠ 7 → cr ||| 32 ≠ nameByte j := by decide
            exact hhyphen k (by omega) (by omega) (by omega)
      rw [List.nil_append, crlf, feed_cons (running_name k), hstep]
      exact feed_skipLf k
  | cons c rest =>
      have hc := hends c (by rw [hrest]; exact List.mem_cons_self)
      have hlt : k < line.length := by
        by_contra hge
        rw [List.drop_eq_nil_of_le (by omega)] at hrest
        contradiction
      have hget : (line)[k]? = some c := by
        rw [← List.head?_drop, hrest]
        rfl
      have hdiffer : k ≥ 13 ∨ c ||| 32 ≠ nameByte k := by
        by_cases hfull : k ≥ 13
        · exact .inl hfull
        · refine .inr ?_
          intro hbyte
          -- one more byte would have been compared equal
          have hname := nameByte_eq (k := k) (by omega)
          have hnext : (line.take (k + 1)).map (· ||| 32) = headerName.take (k + 1) := by
            rw [List.take_add_one, hget, List.map_append, hfold, List.take_add_one, ← hname, ← hbyte]
            rfl
          have hgo := nameLength_append (line.take (k + 1)) [] headerName
            (by rw [List.length_take, Nat.min_eq_left (by omega)]; exact hnext)
            (by rw [List.length_take, Nat.min_eq_left (by omega)]; omega)
            (by intro c x hc; contradiction)
          rw [List.append_nil, List.length_take, Nat.min_eq_left (by omega)] at hgo
          have hmono := nameLength_mono (line.take (k + 1)) (line.drop (k + 1)) headerName
          rw [List.take_append_drop, hgo, hk] at hmono
          omega
      have hstep : consume (s.inLine path seen .name k) data c =
          (s.inLine path seen .skip k, data) := by
        rw [consume_name, if_neg (fun h => hc (.inl h.2)), if_neg, if_pos hdiffer,
          if_neg (fun h => hc (.inl h)), if_neg (fun h => hc (.inr h))]
        · rfl
        · rintro ⟨rfl, rfl⟩
          exact hcolon ⟨rfl, hget⟩
      rw [List.cons_append, feed_cons (running_name k), hstep]
      exact feed_skip k (fun d hd => hends d (by rw [hrest]; exact List.mem_cons_of_mem c hd))

/-- The digits of a nonce are stored. -/
theorem feed_value (bs : List UInt8) : ∀ (data : List UInt8) (k : Nat), data.length = 32 →
    (∀ c ∈ bs, hexByte c = true) → k + bs.length ≤ 32 →
    feed (s.inLine path 1 .value k, data) bs =
      (s.inLine path 1 .value (k + bs.length),
        data.take k ++ bs ++ data.drop (k + bs.length)) := by
  induction bs with
  | nil =>
      intro data k _ _ _
      rw [feed, List.append_nil, List.length_nil, Nat.add_zero, List.take_append_drop]
  | cons c rest ih =>
      intro data k hdata hhex hle
      rw [List.length_cons] at hle
      have hrunning : ¬(s.inLine path 1 .value k).Stopped := running (by decide) (by decide) k
      have hc := hhex c List.mem_cons_self
      have hstep : consume (s.inLine path 1 .value k) data c =
          (s.inLine path 1 .value (k + 1), data.set k c) := by
        rw [consume_value, if_neg (by rintro ⟨h, -⟩; omega), if_neg, Nat.mod_eq_of_lt (by omega)]
        rintro (h | h)
        · omega
        · rw [hc] at h
          contradiction
      rw [feed_cons hrunning, hstep, ih (data.set k c) (k + 1) (by rw [List.length_set, hdata])
        (fun d hd => hhex d (List.mem_cons_of_mem c hd)) (by omega), stored_cons (by omega),
        List.length_cons, Nat.add_assoc k 1, Nat.add_comm 1]

/-- The first nonce's line leaves its nonce. -/
theorem feed_nonce (h : NonceLine FoldedName line nonce) (hdata : data.length = 32) :
    feed (s.inLine path 0 .name 0, data) (line ++ crlf) = (s.inLine path 1 .name 0, nonce) := by
  obtain ⟨name, hname, rfl, hlength, hhex⟩ := h
  have hfront := @feed_name s data path 0 name 0
    (by rw [hname.length, List.drop_zero, List.take_of_length_le (by decide)]; exact hname)
    (Nat.le_of_eq ((Nat.zero_add _).trans hname.length))
  rw [hname.length] at hfront
  have hcolon : consume (s.inLine path 0 .name (0 + 13)) data colon =
      (s.inLine path 1 .space 13, data) := rfl
  have hspace : consume (s.inLine path 1 .space 13) data 0x20 =
      (s.inLine path 1 .value 0, data) := rfl
  have hreturn : consume (s.inLine path 1 .value 32) nonce cr =
      (s.inLine path 1 .valueLf 32, nonce) := rfl
  have hend : consume (s.inLine path 1 .valueLf 32) nonce lf =
      (s.inLine path 1 .name 0, nonce) := rfl
  have hvalue := @feed_value s path nonce data 0 hdata hhex (by omega)
  rw [Nat.zero_add, hlength, List.take_zero, List.nil_append,
    List.drop_eq_nil_of_le (Nat.le_of_eq hdata), List.append_nil] at hvalue
  rw [List.append_assoc, List.append_assoc, feed_append, hfront, List.cons_append,
    List.cons_append, List.nil_append, feed_cons (running_name _), hcolon,
    feed_cons (running (by decide) (by decide) 13), hspace, feed_append, hvalue, crlf,
    feed_cons (running (by decide) (by decide) 32), hreturn,
    feed_cons (running (by decide) (by decide) 32), hend, feed]

/-- Other header lines leave the state before them. -/
theorem feed_others {lines : List (List UInt8)} (h : ∀ l ∈ lines, FoldedOther l) :
    feed (s.inLine path seen .name 0, data) (lineBytes lines) = (s.inLine path seen .name 0, data) := by
  induction lines with
  | nil => rfl
  | cons l lines ih =>
      rw [lineBytes, List.flatMap_cons, feed_append, feed_other (h l List.mem_cons_self)]
      exact ih (fun l' hl' => h l' (List.mem_cons_of_mem l hl'))

/-- A header is read to its last byte, and is complete there. -/
theorem feed_header {bytes : List UInt8} {before after : List (List UInt8)}
    (h : FoldedHeader bytes before line after path nonce) (hmode : s.mode = .first)
    (hflags : s.flags = 0) (hn : s.n = 0) (hseen : s.seen = 0) (hdata : data.length = 32) :
    ∃ front, bytes = front ++ [lf] ∧ feed (s, data) front = (s.inLine path 1 .endLf 0, nonce) ∧
      feed (s, data) bytes =
        ({ s.inLine path 1 .done 0 with flags := flagComplete }, nonce) := by
  obtain ⟨⟨request, hrequest, rfl⟩, hothers, hnonce⟩ := h
  have hlines : feed (s, data) (request ++ crlf ++ lineBytes (before ++ line :: after)) =
      (s.inLine path 1 .name 0, nonce) := by
    have hbytes : lineBytes (before ++ line :: after) =
        lineBytes before ++ ((line ++ crlf) ++ lineBytes after) := by
      simp [lineBytes]
    rw [feed_append, feed_request hmode hflags hn hrequest hdata, hseen, hbytes, feed_append,
      feed_others (fun l hl => hothers l (List.mem_append_left _ hl)), feed_append,
      feed_nonce hnonce (by decide),
      feed_others (fun l hl => hothers l (List.mem_append_right _ hl))]
  have hreturn : consume (s.inLine path 1 .name 0) nonce cr = (s.inLine path 1 .endLf 0, nonce) :=
    rfl
  have hend : consume (s.inLine path 1 .endLf 0) nonce lf =
      ({ s.inLine path 1 .done 0 with flags := flagComplete }, nonce) := rfl
  have hfront : feed (s, data) (request ++ crlf ++ lineBytes (before ++ line :: after) ++ [cr]) =
      (s.inLine path 1 .endLf 0, nonce) := by
    rw [feed_append, hlines, feed_cons (running_name 0), hreturn, feed]
  refine ⟨_, ?_, hfront, ?_⟩
  · rw [List.append_assoc _ [cr]]
    rfl
  · have hsplit : ∀ bs : List UInt8, bs ++ crlf = bs ++ [cr] ++ [lf] := by
      intro bs
      rw [List.append_assoc]
      rfl
    rw [hsplit (request ++ crlf ++ lineBytes (before ++ line :: after)), feed_append, hfront,
      feed_cons (running (by decide) (by decide) 0), hend, feed]

end Runs

/-! ## What has been read -/

/-- The header lines so far: none of them is the nonce's, or one is. -/
def Collected (seen : Nat) (data : List UInt8) (lines : List (List UInt8)) : Prop :=
  (seen = 0 ∧ ∀ l ∈ lines, FoldedOther l) ∨
    (seen = 1 ∧ ∃ before line after, lines = before ++ line :: after ∧
      (∀ l ∈ before ++ after, FoldedOther l) ∧ NonceLine FoldedName line data)

/-- What the bytes of the current line say, by mode. -/
def Current (s : Progress) (data : List UInt8) (lines : List (List UInt8))
    (current : List UInt8) : Prop :=
  match s.mode with
  | .name => Collected s.seen data lines ∧ current.length = s.n ∧ s.n ≤ 13 ∧
      current.map (· ||| 32) = headerName.take s.n
  | .space => s.seen = 1 ∧ (∀ l ∈ lines, FoldedOther l) ∧
      ∃ name, FoldedName name ∧ current = name ++ [colon]
  | .value => s.seen = 1 ∧ (∀ l ∈ lines, FoldedOther l) ∧ s.n ≤ 32 ∧
      (∀ c ∈ data.take s.n, hexByte c = true) ∧
      ∃ name, FoldedName name ∧ current = name ++ [colon, 0x20] ++ data.take s.n
  | .skip => Collected s.seen data lines ∧ nameLength current headerName < current.length ∧
      (∀ c ∈ current.drop (nameLength current headerName), ¬LineEnd c) ∧
      ¬(nameLength current headerName = 13 ∧ current[13]? = some colon)
  | .valueLf | .skipLf => ∃ line, current = line ++ [cr] ∧ Collected s.seen data (lines ++ [line])
  | .endLf => Collected s.seen data lines ∧ current = [cr]
  | .first | .done | .bad => False

/-- What the bytes so far say about a state that is not stopped. -/
def Scan (bytes : List UInt8) (s : Progress) (data : List UInt8) : Prop :=
  s.flags = 0 ∧ data.length = 32 ∧
    ((s.mode = .first ∧ s.seen = 0 ∧ s.n = bytes.length ∧ s.n ≤ 31 ∧ data.take s.n = bytes) ∨
      (s.matched = 1 ∧ ∃ request lines current, requestLine s.path = some request ∧
        bytes = request ++ crlf ++ lineBytes lines ++ current ∧ Current s data lines current))

/-- What the bytes so far say about any state. -/
def Outcome (bytes : List UInt8) (st : State) : Prop :=
  (st.1.Stopped ∧ st.1.flags ≠ flagComplete) ∨ Scan bytes st.1 st.2 ∨
    (st.1.Stopped ∧ st.1.flags = flagComplete ∧
      ∃ before line after, FoldedHeader bytes before line after st.1.path st.2)

section Scanning

variable {bytes : List UInt8} {s : Progress} {data : List UInt8} {lines : List (List UInt8)}
  {request current : List UInt8} {c : UInt8}

/-- A refusal. -/
theorem Outcome.refused {flags : Nat} (h : flags ≠ flagComplete) :
    Outcome bytes (s.stop flags, data) :=
  .inl ⟨.inr (.inl rfl), h⟩

/-- One more byte of the current line. -/
theorem Outcome.step {s' : Progress} {data' : List UInt8} (mode : Mode) (hflags : s'.flags = 0)
    (hdata : data'.length = 32) (hmatched : s'.matched = 1)
    (hrequest : requestLine s'.path = some request)
    (hbytes : bytes = request ++ crlf ++ lineBytes lines ++ current)
    (hmode : s'.mode = mode) (hcurrent : Current { s' with mode } data' lines (current ++ [c])) :
    Outcome (bytes ++ [c]) (s', data') := by
  subst hmode
  refine .inr (.inl ⟨hflags, hdata, .inr ⟨hmatched, request, lines, current ++ [c], hrequest, ?_,
    hcurrent⟩⟩)
  rw [hbytes, List.append_assoc]

/-- The last byte of a line. -/
theorem Outcome.nextLine {line : List UInt8} (hflags : s.flags = 0) (hdata : data.length = 32)
    (hrequest : requestLine s.path = some request)
    (hbytes : bytes = request ++ crlf ++ lineBytes lines ++ (line ++ [cr]))
    (hcollected : Collected s.seen data (lines ++ [line])) :
    Outcome (bytes ++ [lf]) ({ s with mode := .name, n := 0, matched := 1 }, data) := by
  refine .inr (.inl ⟨hflags, hdata, .inr ⟨rfl, request, lines ++ [line], [], hrequest, ?_,
    hcollected, rfl, Nat.zero_le 13, rfl⟩⟩)
  rw [hbytes]
  simp [lineBytes, crlf]

/-- A comparison that has ended stays where it is. -/
theorem nameLength_append_of_lt (line rest name : List UInt8)
    (h : nameLength line name < line.length) :
    nameLength (line ++ rest) name = nameLength line name := by
  induction line generalizing name with
  | nil => contradiction
  | cons c line ih =>
      cases name with
      | nil => rfl
      | cons x name =>
          rw [nameLength] at h
          rw [List.cons_append, nameLength, nameLength]
          by_cases hc : c ||| 32 = x
          · rw [if_pos hc, List.length_cons] at h
            rw [if_pos hc, if_pos hc, ih name (by omega)]
          · rw [if_neg hc, if_neg hc]

theorem Collected.snoc {seen : Nat} {line : List UInt8} (h : Collected seen data lines)
    (hline : FoldedOther line) : Collected seen data (lines ++ [line]) := by
  rcases h with ⟨hseen, hothers⟩ | ⟨hseen, before, nonce, after, rfl, hothers, hnonce⟩
  · refine .inl ⟨hseen, ?_⟩
    intro l hl
    rcases List.mem_append.mp hl with hl | hl
    · exact hothers l hl
    · rw [List.mem_singleton.mp hl]
      exact hline
  · refine .inr ⟨hseen, before, nonce, after ++ [line], by simp, ?_, hnonce⟩
    intro l hl
    rw [← List.append_assoc, List.mem_append] at hl
    rcases hl with hl | hl
    · exact hothers l hl
    · rw [List.mem_singleton.mp hl]
      exact hline

/-- The request line, byte by byte. -/
theorem scan_first (h : Scan bytes s data) (hmode : s.mode = .first) :
    Outcome (bytes ++ [c]) (consume s data c) := by
  obtain ⟨hflags, hdata, ⟨-, hseen, hn, hle, htake⟩ | ⟨-, request, lines, current, -, -, hcurrent⟩⟩ := h
  swap
  · rw [Current, hmode] at hcurrent
    exact hcurrent.elim
  simp only [consume, hmode]
  by_cases hbad : (s.n = 0 ∧ c ≠ 0x50) ∨ s.n ≥ 31
  · rw [if_pos hbad]
    exact .refused (by decide)
  rw [if_neg hbad]
  rw [not_or] at hbad
  by_cases hc : c ≠ lf
  · rw [if_pos hc]
    refine .inr (.inl ⟨hflags, by rw [List.length_set, hdata], .inl ⟨rfl, hseen, ?_, ?_, ?_⟩⟩)
    · rw [List.length_append, List.length_singleton, ← hn]
    · have := hbad.2
      simp only
      omega
    · have hlt : s.n < data.length := by omega
      simp only
      rw [Nat.mod_eq_of_lt (by omega), take_set_succ hlt, htake]
  rw [if_neg hc]
  rw [not_ne_iff] at hc
  have hpath : ∀ path, requestPath s.n data = some path →
      ∃ request, requestLine path = some request ∧ data.take s.n = request ++ [cr] := by
    intro path hpath
    simp only [requestPath] at hpath
    split at hpath
    · rename_i hline
      obtain rfl := Option.some.inj hpath
      exact ⟨_, rfl, by rw [hline.1, hline.2]; decide⟩
    · split at hpath
      · rename_i hline
        obtain rfl := Option.some.inj hpath
        exact ⟨_, rfl, by rw [hline.1, hline.2]; decide⟩
      · split at hpath
        · rename_i hline
          obtain rfl := Option.some.inj hpath
          exact ⟨_, rfl, by rw [hline.1, hline.2]; decide⟩
        · contradiction
  cases hrequest : requestPath s.n data with
  | none => exact .refused (by decide)
  | some path =>
      obtain ⟨request, hline, hbytes⟩ := hpath path hrequest
      refine .inr (.inl ⟨hflags, rfl, .inr ⟨rfl, request, [], [], hline, ?_, ?_⟩⟩)
      · rw [← htake, hbytes, hc]
        simp [lineBytes, crlf]
      · exact ⟨.inl ⟨hseen, by simp⟩, rfl, Nat.zero_le 13, rfl⟩

/-- A header line, up to where it differs from the name. -/
theorem scan_name (hflags : s.flags = 0) (hdata : data.length = 32) (hmatched : s.matched = 1)
    (hrequest : requestLine s.path = some request)
    (hbytes : bytes = request ++ crlf ++ lineBytes lines ++ current) (hmode : s.mode = .name)
    (hcurrent : Current s data lines current) : Outcome (bytes ++ [c]) (consume s data c) := by
  rw [Current, hmode] at hcurrent
  obtain ⟨hcollected, hlength, hle, hfold⟩ := hcurrent
  have hall : nameLength current headerName = current.length := by
    have hgo := nameLength_append current [] headerName (by rw [hlength]; exact hfold)
      (by rw [hlength]; exact hle) (by intro c x hc; contradiction)
    rwa [List.append_nil] at hgo
  simp only [consume, hmode]
  by_cases hempty : s.n = 0 ∧ c = cr
  · rw [if_pos hempty]
    refine .step .endLf hflags hdata hmatched hrequest hbytes rfl ⟨hcollected, ?_⟩
    rw [List.length_eq_zero_iff.mp (hlength.trans hempty.1), hempty.2, List.nil_append]
  rw [if_neg hempty]
  by_cases hcolon : c = colon ∧ s.n = 13 ∧ s.matched ≠ 0
  · rw [if_pos hcolon]
    by_cases hseen : s.seen ≠ 0
    · rw [if_pos hseen]
      exact .refused (by decide)
    · rw [if_neg hseen]
      refine .step .space hflags hdata hmatched hrequest hbytes rfl ⟨rfl, ?_, current, ?_, ?_⟩
      · rcases hcollected with ⟨-, hothers⟩ | ⟨hone, -⟩
        · exact hothers
        · omega
      · rw [FoldedName, hfold, hcolon.2.1]
        decide
      · rw [hcolon.1]
  rw [if_neg hcolon]
  by_cases hdiffer : s.n ≥ 13 ∨ c ||| 32 ≠ nameByte s.n
  · rw [if_pos hdiffer]
    by_cases hlf : c = lf
    · refine .inl ⟨.inr (.inr ?_), ?_⟩
      · simp only [if_pos hlf]
        decide
      · simp only [if_pos hlf]
        decide
    by_cases hcr : c = cr
    · refine .step .skipLf ?_ hdata hmatched hrequest hbytes ?_ ?_
      · simp only [if_neg hlf, hflags]
      · simp only [if_pos hcr]
      · refine ⟨current, by rw [hcr], hcollected.snoc ⟨?_, ?_, ?_⟩⟩
        · intro _
          have hplace : ∀ j < 13, cr ||| 32 ≠ nameByte j → j ≠ 1 ∧ j ≠ 7 := by decide
          rw [hlength]
          refine ⟨fun hzero => hempty ⟨hzero, hcr⟩, ?_⟩
          rcases hdiffer with hlong | hbyte
          · omega
          · rw [hcr] at hbyte
            by_cases hlong : s.n < 13
            · exact hplace s.n hlong hbyte
            · omega
        · rw [hall, List.drop_length]
          intro c hc
          contradiction
        · rintro ⟨hthirteen, hget⟩
          rw [List.getElem?_eq_none (by omega)] at hget
          contradiction
    · have hnext : nameLength (current ++ [c]) headerName = current.length := by
        refine nameLength_append current [c] headerName (by rw [hlength]; exact hfold)
          (by rw [hlength]; exact hle) ?_
        intro c' x hc' hx hsame
        rw [← Option.some.inj hc'] at hsame
        rw [hlength] at hx
        rcases hdiffer with hlong | hbyte
        · rw [List.getElem?_eq_none hlong] at hx
          contradiction
        · by_cases hlong : s.n < 13
          · rw [← nameByte_eq hlong] at hx
            exact hbyte (hsame.trans (Option.some.inj hx).symm)
          · rw [List.getElem?_eq_none (Nat.le_of_not_lt hlong)] at hx
            contradiction
      refine .step .skip ?_ hdata hmatched hrequest hbytes ?_ ?_
      · simp only [if_neg hlf, hflags]
      · simp only [if_neg hcr]
      · refine ⟨hcollected, ?_, ?_, ?_⟩
        · rw [hnext, List.length_append, List.length_singleton]
          exact Nat.lt_succ_self _
        · rw [hnext, List.drop_left]
          intro d hd
          rw [List.mem_singleton.mp hd]
          rintro (h | h)
          · exact hcr h
          · exact hlf h
        · rintro ⟨hthirteen, hget⟩
          rw [hnext] at hthirteen
          rw [List.getElem?_append_right (by omega), hthirteen, Nat.sub_self] at hget
          refine hcolon ⟨Option.some.inj hget, by omega, ?_⟩
          rw [hmatched]
          decide
  · rw [if_neg hdiffer]
    rw [not_or, Nat.not_le, not_ne_iff] at hdiffer
    refine .step .name hflags hdata hmatched hrequest hbytes rfl ⟨hcollected, ?_, hdiffer.1, ?_⟩
    · rw [List.length_append, List.length_singleton, hlength]
    · rw [List.map_append, hfold, List.take_add_one, ← nameByte_eq hdiffer.1, ← hdiffer.2]
      rfl

/-- The nonce, digit by digit. -/
theorem scan_value (hflags : s.flags = 0) (hdata : data.length = 32) (hmatched : s.matched = 1)
    (hrequest : requestLine s.path = some request)
    (hbytes : bytes = request ++ crlf ++ lineBytes lines ++ current) (hmode : s.mode = .value)
    (hcurrent : Current s data lines current) : Outcome (bytes ++ [c]) (consume s data c) := by
  rw [Current, hmode] at hcurrent
  obtain ⟨hseen, hothers, hle, hhex, name, hname, hline⟩ := hcurrent
  simp only [consume, hmode]
  by_cases hend : s.n = 32 ∧ c = cr
  · rw [if_pos hend]
    refine .step .valueLf hflags hdata hmatched hrequest hbytes rfl ⟨current, by rw [hend.2], ?_⟩
    rw [hend.1, List.take_of_length_le (Nat.le_of_eq hdata)] at hline hhex
    exact .inr ⟨hseen, lines, current, [], rfl, by simpa using hothers, name, hname, hline, hdata,
      hhex⟩
  rw [if_neg hend]
  by_cases hbad : s.n ≥ 32 ∨ hexByte c = false
  · rw [if_pos hbad]
    exact .refused (by decide)
  rw [if_neg hbad]
  rw [not_or, Nat.not_le, Bool.not_eq_false] at hbad
  have htake : (data.set (s.n % 32) c).take (s.n + 1) = data.take s.n ++ [c] := by
    rw [Nat.mod_eq_of_lt hbad.1, take_set_succ (by omega)]
  refine .step .value hflags (by rw [List.length_set, hdata]) hmatched hrequest hbytes rfl
    ⟨hseen, hothers, hbad.1, ?_, name, hname, ?_⟩
  · intro d hd
    simp only [htake, List.mem_append, List.mem_singleton] at hd
    rcases hd with hd | rfl
    · exact hhex d hd
    · exact hbad.2
  · simp only [htake]
    rw [hline, List.append_assoc]

/-- A line that is skipped. -/
theorem scan_skip (hflags : s.flags = 0) (hdata : data.length = 32) (hmatched : s.matched = 1)
    (hrequest : requestLine s.path = some request)
    (hbytes : bytes = request ++ crlf ++ lineBytes lines ++ current) (hmode : s.mode = .skip)
    (hcurrent : Current s data lines current) : Outcome (bytes ++ [c]) (consume s data c) := by
  rw [Current, hmode] at hcurrent
  obtain ⟨hcollected, hlt, hends, hcolon⟩ := hcurrent
  simp only [consume, hmode]
  by_cases hcr : c = cr
  · rw [if_pos hcr]
    refine .step .skipLf hflags hdata hmatched hrequest hbytes rfl ⟨current, by rw [hcr], ?_⟩
    exact hcollected.snoc ⟨fun hall => by omega, hends, hcolon⟩
  rw [if_neg hcr]
  by_cases hlf : c = lf
  · rw [if_pos hlf]
    exact .inl ⟨.inr (.inr (by decide : flagUnsupported ≠ 0)),
      (by decide : flagUnsupported ≠ flagComplete)⟩
  rw [if_neg hlf]
  have hnext := nameLength_append_of_lt current [c] headerName hlt
  refine .step .skip hflags hdata hmatched hrequest hbytes hmode ⟨hcollected, ?_, ?_, ?_⟩
  · rw [hnext, List.length_append]
    omega
  · intro d hd
    rw [hnext, List.drop_append_of_le_length (Nat.le_of_lt hlt), List.mem_append,
      List.mem_singleton] at hd
    rcases hd with hd | rfl
    · exact hends d hd
    · rintro (h | h)
      · exact hcr h
      · exact hlf h
  · rintro ⟨hthirteen, hget⟩
    rw [hnext] at hthirteen
    rw [List.getElem?_append_left (by omega)] at hget
    exact hcolon ⟨hthirteen, hget⟩

/-- A state that is not stopped is explained by one more byte. -/
theorem scan_consume (h : Scan bytes s data) : Outcome (bytes ++ [c]) (consume s data c) := by
  obtain ⟨hflags, hdata, ⟨hmode, -⟩ | ⟨hmatched, request, lines, current, hrequest, hbytes,
    hcurrent⟩⟩ := id h
  · exact scan_first h hmode
  have hlineEnd : ∀ {line}, current = line ++ [cr] → Collected s.seen data (lines ++ [line]) →
      Outcome (bytes ++ [c])
        (if c ≠ lf then (s.stop flagUnsupported, data)
        else ({ s with mode := .name, n := 0, matched := 1 }, data)) := by
    intro line hline hcollected
    by_cases hlf : c ≠ lf
    · rw [if_pos hlf]
      exact .refused (by decide)
    · rw [if_neg hlf, not_ne_iff.mp hlf]
      rw [hline] at hbytes
      exact .nextLine hflags hdata hrequest hbytes hcollected
  cases hmode : s.mode with
  | first => exact scan_first h hmode
  | name => exact scan_name hflags hdata hmatched hrequest hbytes hmode hcurrent
  | space =>
      rw [Current, hmode] at hcurrent
      obtain ⟨hseen, hothers, name, hname, hline⟩ := hcurrent
      simp only [consume, hmode]
      by_cases hc : c ≠ 0x20
      · rw [if_pos hc]
        exact .refused (by decide)
      · rw [if_neg hc]
        refine .step .value hflags hdata hmatched hrequest hbytes rfl
          ⟨hseen, hothers, Nat.zero_le 32, by simp, name, hname, ?_⟩
        rw [hline, not_ne_iff.mp hc]
        simp
  | value => exact scan_value hflags hdata hmatched hrequest hbytes hmode hcurrent
  | valueLf =>
      rw [Current, hmode] at hcurrent
      obtain ⟨line, hline, hcollected⟩ := hcurrent
      simp only [consume, hmode]
      exact hlineEnd hline hcollected
  | skip => exact scan_skip hflags hdata hmatched hrequest hbytes hmode hcurrent
  | skipLf =>
      rw [Current, hmode] at hcurrent
      obtain ⟨line, hline, hcollected⟩ := hcurrent
      simp only [consume, hmode]
      exact hlineEnd hline hcollected
  | endLf =>
      rw [Current, hmode] at hcurrent
      obtain ⟨hcollected, hline⟩ := hcurrent
      simp only [consume, hmode]
      by_cases hlf : c ≠ lf
      · rw [if_pos hlf]
        exact .refused (by decide)
      rw [if_neg hlf]
      rcases hcollected with ⟨hseen, -⟩ | ⟨hseen, before, line, after, rfl, hothers, hnonce⟩
      · rw [if_neg (by rw [hseen]; decide)]
        exact .inl ⟨.inl rfl, (by decide : flagMissing ≠ flagComplete)⟩
      · rw [if_pos (by rw [hseen]; decide)]
        refine .inr (.inr ⟨.inl rfl, rfl, before, line, after, ⟨request, hrequest, ?_⟩, hothers,
          hnonce⟩)
        rw [hbytes, hline, not_ne_iff.mp hlf]
        simp [crlf]
  | done =>
      rw [Current, hmode] at hcurrent
      exact hcurrent.elim
  | bad =>
      rw [Current, hmode] at hcurrent
      exact hcurrent.elim

theorem Scan.not_stopped (h : Scan bytes s data) : ¬s.Stopped := by
  obtain ⟨hflags, -, ⟨hmode, -⟩ | ⟨-, request, lines, current, -, -, hcurrent⟩⟩ := h
  · rw [Progress.Stopped, hmode, hflags]
    decide
  · rintro (hmode | hmode | hne)
    · rw [Current, hmode] at hcurrent
      exact hcurrent
    · rw [Current, hmode] at hcurrent
      exact hcurrent
    · exact hne hflags

/-- Whatever the bytes are, the state is explained by those up to the stop. -/
theorem scan_feed (h : Scan bytes s data) (rest : List UInt8) :
    ∃ front, front <+: rest ∧ Outcome (bytes ++ front) (feed (s, data) rest) := by
  induction rest generalizing bytes s data with
  | nil => exact ⟨[], List.nil_prefix, by rw [List.append_nil]; exact .inr (.inl h)⟩
  | cons c rest ih =>
      rw [feed_cons h.not_stopped]
      have hstep := scan_consume (c := c) h
      by_cases hstopped : (consume s data c).1.Stopped
      · refine ⟨[c], ?_, ?_⟩
        · exact ⟨rest, rfl⟩
        · rw [feed_stopped hstopped]
          exact hstep
      · rcases hstep with ⟨hs, -⟩ | hscan | ⟨hs, -⟩
        · exact (hstopped hs).elim
        · obtain ⟨front, hfront, houtcome⟩ := ih hscan
          refine ⟨c :: front, ?_, ?_⟩
          · obtain ⟨tail, rfl⟩ := hfront
            exact ⟨tail, rfl⟩
          · rw [List.append_assoc] at houtcome
            exact houtcome
        · exact (hstopped hs).elim

end Scanning

/-! ## The language -/

/-- The state after the bytes of an attempt. -/
def recognise (lifetime attempt : UInt64) (bytes : List UInt8) : State :=
  feed (.initial lifetime attempt, noBytes) bytes

section Language

variable {lifetime attempt : UInt64} {bytes front : List UInt8} {before after : List (List UInt8)}
  {line nonce : List UInt8} {path : Nat}

/-- What is complete is a header, as the recogniser reads it. -/
theorem header_of_complete (h : (recognise lifetime attempt bytes).1.flags = flagComplete) :
    ∃ front before line after, front <+: bytes ∧
      FoldedHeader front before line after (recognise lifetime attempt bytes).1.path
        (recognise lifetime attempt bytes).2 := by
  have hstart : Scan [] (.initial lifetime attempt) noBytes :=
    ⟨rfl, rfl, .inl ⟨rfl, rfl, rfl, Nat.zero_le 31, rfl⟩⟩
  obtain ⟨front, hfront, houtcome⟩ := scan_feed hstart bytes
  rw [List.nil_append] at houtcome
  rw [recognise] at h ⊢
  rcases houtcome with ⟨-, hne⟩ | hscan | ⟨-, -, before, line, after, hheader⟩
  · exact (hne h).elim
  · have hflags := hscan.1
    rw [h] at hflags
    contradiction
  · exact ⟨front, before, line, after, hfront, hheader⟩

/-- What the recogniser does with a header and the bytes after it. -/
theorem complete_of_header (h : FoldedHeader front before line after path nonce)
    (hpre : front <+: bytes) :
    (recognise lifetime attempt bytes).1.flags = flagComplete ∧
      (recognise lifetime attempt bytes).1.path = path ∧
      (recognise lifetime attempt bytes).2 = nonce := by
  obtain ⟨-, -, -, hfeed⟩ := feed_header h
    (rfl : (Progress.initial lifetime attempt).mode = .first) rfl rfl rfl
    (rfl : noBytes.length = 32)
  have hstopped : (feed (.initial lifetime attempt, noBytes) front).1.Stopped := by
    rw [hfeed]
    exact .inl rfl
  rw [recognise, stopped_of_prefix hstopped hpre, hfeed]
  exact ⟨rfl, rfl, rfl⟩

/-- A carriage return with another byte than a line feed after it. -/
def Stray (bytes : List UInt8) : Prop :=
  ∃ before c after, bytes = before ++ cr :: c :: after ∧ c ≠ lf

theorem Stray.append (h : Stray bytes) (before after : List UInt8) :
    Stray (before ++ bytes ++ after) := by
  obtain ⟨left, c, right, rfl, hc⟩ := h
  exact ⟨before ++ left, c, right ++ after, by simp, hc⟩

/-- Bytes without a carriage return, and a line end, have no stray one. -/
theorem not_stray_line {bs : List UInt8} (hbs : cr ∉ bs) (h : ¬Stray bytes) :
    ¬Stray (bs ++ crlf ++ bytes) := by
  induction bs with
  | nil =>
      rintro ⟨left, c, right, heq, hc⟩
      match left, heq with
      | [], heq =>
          obtain ⟨-, hsecond, -⟩ := heq
          exact hc rfl
      | [d], heq =>
          obtain ⟨-, hsecond, -⟩ := heq
      | d :: d' :: left, heq =>
          simp only [List.nil_append, crlf, List.cons_append, List.cons.injEq] at heq
          exact h ⟨left, c, right, heq.2.2, hc⟩
  | cons b bs ih =>
      rw [List.mem_cons, not_or] at hbs
      rintro ⟨left, c, right, heq, hc⟩
      match left, heq with
      | [], heq =>
          simp only [List.cons_append, List.nil_append, List.cons.injEq] at heq
          exact hbs.1 heq.1.symm
      | d :: left, heq =>
          simp only [List.cons_append, List.cons.injEq] at heq
          exact ih hbs.2 ⟨left, c, right, by simpa using heq.2, hc⟩

theorem hexByte_not_lineEnd {c : UInt8} (h : hexByte c = true) : ¬LineEnd c := by
  rintro (rfl | rfl)
  · revert h
    decide
  · revert h
    decide

/-- A nonce's line holds no line end. -/
theorem NonceLine.not_lineEnd (h : NonceLine PlainName line nonce) : ∀ c ∈ line, ¬LineEnd c := by
  obtain ⟨name, hname, rfl, -, hhex⟩ := h
  have hnames : ∀ c ∈ name, ¬LineEnd c := by
    have hgen : ∀ names : List UInt8, (∀ x ∈ names, x ∈ headerName) → ∀ name : List UInt8,
        List.Forall₂ SameByte name names → ∀ c ∈ name, ¬LineEnd c := by
      intro names hnames name hname
      induction hname with
      | nil =>
          intro c hc
          contradiction
      | cons hsame _ ih =>
          intro d hd
          rcases List.mem_cons.mp hd with rfl | hd
          · exact sameByte_not_lineEnd (hnames _ List.mem_cons_self) hsame
          · exact ih (fun x hx => hnames x (List.mem_cons_of_mem _ hx)) d hd
    exact hgen headerName (fun _ hx => hx) name hname
  intro c hc
  rw [List.mem_append, List.mem_append] at hc
  rcases hc with (hc | hc) | hc
  · exact hnames c hc
  · revert c
    decide
  · exact hexByte_not_lineEnd (hhex c hc)

/-- A header as it should be has no stray carriage return. -/
theorem not_stray_of_plain (h : PlainHeader bytes before line after path nonce) :
    ¬Stray bytes := by
  obtain ⟨⟨request, hrequest, rfl⟩, hothers, hnonce⟩ := h
  have hlines : ∀ l ∈ before ++ line :: after, cr ∉ l := by
    intro l hl hcr
    rw [List.mem_append, List.mem_cons] at hl
    rcases hl with hl | rfl | hl
    · exact (hothers l (List.mem_append_left _ hl)).2.1 cr hcr (.inl rfl)
    · exact hnonce.not_lineEnd cr hcr (.inl rfl)
    · exact (hothers l (List.mem_append_right _ hl)).2.1 cr hcr (.inl rfl)
  have hrequestCr : cr ∉ request := by
    match path, hrequest with
    | 1, rfl => decide
    | 2, rfl => decide
    | 3, rfl => decide
  rw [List.append_assoc]
  refine not_stray_line hrequestCr ?_
  generalize before ++ line :: after = lines at hlines
  induction lines with
  | nil =>
      have hnil : ¬Stray [] := by
        rintro ⟨left, c, right, heq, -⟩
        cases left with
        | nil => contradiction
        | cons d left => contradiction
      have h : ¬Stray ([] ++ crlf ++ []) := not_stray_line List.not_mem_nil hnil
      rwa [List.nil_append, List.append_nil] at h
  | cons l lines ih =>
      rw [lineBytes, List.flatMap_cons, List.append_assoc]
      exact not_stray_line (hlines l List.mem_cons_self)
        (ih (fun l' hl' => hlines l' (List.mem_cons_of_mem l hl')))

/-- A carriage return inside a line is stray. -/
theorem stray_line (hcr : cr ∈ line) (hlf : lf ∉ line) : Stray (line ++ crlf) := by
  obtain ⟨left, right, rfl⟩ := List.append_of_mem hcr
  cases right with
  | nil => exact ⟨left, cr, [lf], by simp [crlf], by decide⟩
  | cons c right =>
      refine ⟨left, c, right ++ crlf, by simp, ?_⟩
      rintro rfl
      exact hlf (List.mem_append_right _ (List.mem_cons_of_mem _ List.mem_cons_self))

/-- A folded carriage return that the recogniser reads past is stray. -/
theorem stray_of_folded (h : FoldedHeader bytes before line after path nonce)
    {l : List UInt8} (hl : l ∈ before ++ line :: after) (hreturn : FoldedReturn l) :
    Stray bytes := by
  obtain ⟨⟨request, hrequest, rfl⟩, hothers, hnonce⟩ := h
  have hline : Stray (l ++ crlf) := by
    have hcases : FoldedOther l ∨ l = line := by
      rw [List.mem_append, List.mem_cons] at hl
      rcases hl with hl | hl | hl
      · exact .inl (hothers l (List.mem_append_left _ hl))
      · exact .inr hl
      · exact .inl (hothers l (List.mem_append_right _ hl))
    rcases hcases with hother | rfl
    · have hmem := hother.return_mem hreturn
      refine stray_line (List.mem_of_mem_take hmem) ?_
      intro hlf
      rw [← List.take_append_drop (nameLength l headerName) l, List.mem_append] at hlf
      rcases hlf with htake | hdrop
      · exact lf_not_mem_take l htake
      · exact hother.2.1 lf hdrop (.inr rfl)
    · obtain ⟨name, hname, rfl, hlength, hhex⟩ := hnonce
      have hname13 := hname.nameLength_append ([colon, 0x20] ++ nonce)
      rw [← List.append_assoc] at hname13
      rcases hreturn.cases with hmem | ⟨-, hplace⟩
      · refine stray_line (List.mem_of_mem_take hmem) ?_
        intro hlf
        have hnot := lf_not_mem_take (name ++ [colon, 0x20] ++ nonce)
        rw [hname13, List.append_assoc, List.take_left' hname.length] at hnot
        rw [List.mem_append, List.mem_append] at hlf
        rcases hlf with (hlf | hlf) | hlf
        · exact hnot hlf
        · revert hlf
          decide
        · exact hexByte_not_lineEnd (hhex lf hlf) (.inr rfl)
      · have hlong := hname.length
        rw [List.length_append, List.length_append, hlong, hlength] at hplace
        simp at hplace
  obtain ⟨left, right, hsplit⟩ := List.append_of_mem hl
  have hbytes : request ++ crlf ++ lineBytes (before ++ line :: after) ++ crlf =
      (request ++ crlf ++ lineBytes left) ++ (l ++ crlf) ++ (lineBytes right ++ crlf) := by
    rw [hsplit]
    simp [lineBytes]
  rw [hbytes]
  exact hline.append _ _

/-- A line that is the name up to a hyphen is refused. -/
theorem feed_returned {s : Progress} {data : List UInt8} {seen : Nat}
    (h : line.length = nameLength line headerName) (hplace : line.length = 1 ∨ line.length = 7) :
    (feed (s.inLine path seen .name 0, data) (line ++ crlf)).1.flags = flagUnsupported := by
  have hfold := map_take_nameLength line headerName
  rw [← h, List.take_length] at hfold
  have hfront := @feed_name s data path seen line 0 (by rw [List.drop_zero]; exact hfold) (by omega)
  rw [Nat.zero_add] at hfront
  have hhyphen : ∀ j, j = 1 ∨ j = 7 →
      consume (s.inLine path seen .name j) data cr = (s.inLine path seen .name (j + 1), data) := by
    rintro j (rfl | rfl)
    · rw [consume_name, if_neg (by decide), if_neg (by decide), if_neg (by decide)]
    · rw [consume_name, if_neg (by decide), if_neg (by decide), if_neg (by decide)]
  have hend : ∀ j, j = 1 ∨ j = 7 →
      (consume (s.inLine path seen .name (j + 1)) data lf).1.flags = flagUnsupported := by
    rintro j (rfl | rfl)
    · rw [consume_name, if_neg (by decide), if_neg (by decide), if_pos (by decide)]
      rfl
    · rw [consume_name, if_neg (by decide), if_neg (by decide), if_pos (by decide)]
      rfl
  rw [feed_append, hfront, crlf, feed_cons (running_name _), hhyphen _ hplace,
    feed_cons (running_name _), feed]
  exact hend _ hplace

/-- A second nonce's line is refused. -/
theorem feed_duplicate {s : Progress} {data : List UInt8} (h : NonceLine FoldedName line nonce) :
    (feed (s.inLine path 1 .name 0, data) (line ++ crlf)).1.flags = flagDuplicate := by
  obtain ⟨name, hname, rfl, -, -⟩ := h
  have hfront := @feed_name s data path 1 name 0
    (by rw [hname.length, List.drop_zero, List.take_of_length_le (by decide)]; exact hname)
    (Nat.le_of_eq ((Nat.zero_add _).trans hname.length))
  rw [hname.length] at hfront
  have hcolon : consume (s.inLine path 1 .name (0 + 13)) data colon =
      ((s.inLine path 1 .name 13).stop flagDuplicate, data) := rfl
  rw [List.append_assoc, List.append_assoc, feed_append, hfront, List.cons_append,
    feed_cons (running_name _), hcolon, feed_stopped (.inr (.inl rfl))]
  rfl

/-- Header lines as they should be, one of them with a folded carriage return, are refused. -/
theorem feed_returned_lines {s : Progress} {lines : List (List UInt8)} {rest : List UInt8}
    (hlines : ∀ l ∈ lines, PlainOther l ∨ ∃ nonce, NonceLine PlainName l nonce)
    (hreturn : ∃ l ∈ lines, FoldedReturn l) : ∀ seen data, data.length = 32 → seen = 0 ∨ seen = 1 →
      (feed (s.inLine path seen .name 0, data) (lineBytes lines ++ rest)).1.flags ≠
        flagComplete := by
  induction lines with
  | nil =>
      obtain ⟨l, hl, -⟩ := hreturn
      contradiction
  | cons l lines ih =>
      intro seen data hdata hseen
      have hstop : ∀ flags, flags ≠ 0 → flags ≠ flagComplete →
          (feed (s.inLine path seen .name 0, data) (l ++ crlf)).1.flags = flags →
          (feed (s.inLine path seen .name 0, data) (lineBytes (l :: lines) ++ rest)).1.flags ≠
            flagComplete := by
        intro flags hzero hne hflags
        rw [lineBytes, List.flatMap_cons, List.append_assoc, feed_append,
          feed_stopped (.inr (.inr (by rw [hflags]; exact hzero))), hflags]
        exact hne
      by_cases hl : FoldedReturn l
      · have hnot : cr ∉ l := by
          intro hcr
          rcases hlines l List.mem_cons_self with hother | ⟨nonce, hnonce⟩
          · exact hother.2.1 cr hcr (.inl rfl)
          · exact hnonce.not_lineEnd cr hcr (.inl rfl)
        rcases hl.cases with hmem | ⟨hall, hplace⟩
        · exact (hnot (List.mem_of_mem_take hmem)).elim
        · exact hstop _ (by decide) (by decide) (feed_returned hall hplace)
      · have htail : ∃ l ∈ lines, FoldedReturn l := by
          obtain ⟨l', hl', hreturn'⟩ := hreturn
          rcases List.mem_cons.mp hl' with rfl | hl'
          · exact (hl hreturn').elim
          · exact ⟨l', hl', hreturn'⟩
        have hgo := ih (fun l' hl' => hlines l' (List.mem_cons_of_mem l hl')) htail
        rcases hlines l List.mem_cons_self with hother | ⟨nonce, hnonce⟩
        · rw [lineBytes, List.flatMap_cons, List.append_assoc, feed_append,
            feed_other ((plain_iff_folded hl).mp hother)]
          exact hgo seen data hdata hseen
        · rcases hseen with rfl | rfl
          · rw [lineBytes, List.flatMap_cons, List.append_assoc, feed_append,
              feed_nonce hnonce.folded hdata]
            obtain ⟨-, -, -, hlength, -⟩ := hnonce
            exact hgo 1 nonce hlength (.inr rfl)
          · exact hstop _ (by decide) (by decide) (feed_duplicate hnonce.folded)

/-- A header as it should be with a folded carriage return is refused. -/
theorem not_complete_of_return (h : PlainHeader front before line after path nonce)
    (hpre : front <+: bytes) {l : List UInt8} (hl : l ∈ before ++ line :: after)
    (hreturn : FoldedReturn l) :
    (recognise lifetime attempt bytes).1.flags ≠ flagComplete := by
  obtain ⟨⟨request, hrequest, rfl⟩, hothers, hnonce⟩ := h
  obtain ⟨rest, rfl⟩ := hpre
  have hlines : ∀ l ∈ before ++ line :: after,
      PlainOther l ∨ ∃ nonce, NonceLine PlainName l nonce := by
    intro l hl
    rw [List.mem_append, List.mem_cons] at hl
    rcases hl with hl | rfl | hl
    · exact .inl (hothers l (List.mem_append_left _ hl))
    · exact .inr ⟨nonce, hnonce⟩
    · exact .inl (hothers l (List.mem_append_right _ hl))
  have hempty : noBytes.length = 32 := rfl
  have hstart := feed_request (rfl : (Progress.initial lifetime attempt).mode = .first) rfl rfl
    hrequest hempty
  rw [recognise, List.append_assoc, List.append_assoc, feed_append, hstart]
  exact feed_returned_lines hlines ⟨l, hl, hreturn⟩ _ _ rfl (.inl rfl)

/-- The recogniser reads the same in both grammars where no line has a folded return. -/
theorem folded_of_plainHeader (h : PlainHeader bytes before line after path nonce)
    (hreturn : ∀ l ∈ before ++ line :: after, ¬FoldedReturn l) :
    FoldedHeader bytes before line after path nonce := by
  refine ⟨h.bytes_eq, ?_, h.nonceLine.folded⟩
  intro l hl
  have hmem : l ∈ before ++ line :: after := by
    rw [List.mem_append, List.mem_cons]
    rcases List.mem_append.mp hl with hl | hl
    · exact .inl hl
    · exact .inr (.inr hl)
  exact (plain_iff_folded (hreturn l hmem)).mp (h.others l hl)

theorem plain_of_foldedHeader (h : FoldedHeader bytes before line after path nonce)
    (hreturn : ∀ l ∈ before ++ line :: after, ¬FoldedReturn l) :
    PlainHeader bytes before line after path nonce := by
  refine ⟨h.bytes_eq, ?_, h.nonceLine.plain (hreturn line (by simp))⟩
  intro l hl
  have hmem : l ∈ before ++ line :: after := by
    rw [List.mem_append, List.mem_cons]
    rcases List.mem_append.mp hl with hl | hl
    · exact .inl hl
    · exact .inr (.inr hl)
  exact (plain_iff_folded (hreturn l hmem)).mpr (h.others l hl)

/-- Bytes that start with a header as the recogniser reads it, with a folded carriage return,
start with no header as it should be. -/
theorem not_plain_of_return (h : FoldedHeader front before line after path nonce)
    (hpre : front <+: bytes) {l : List UInt8} (hl : l ∈ before ++ line :: after)
    (hreturn : FoldedReturn l) {front' : List UInt8} {before' after' : List (List UInt8)}
    {line' nonce' : List UInt8} {path' : Nat} (hpre' : front' <+: bytes) :
    ¬PlainHeader front' before' line' after' path' nonce' := by
  intro h'
  have hclean := not_stray_of_plain h'
  have hstray := stray_of_folded h hl hreturn
  have hfolded' : FoldedHeader front' before' line' after' path' nonce' := by
    refine folded_of_plainHeader h' ?_
    intro l' hl' hreturn'
    have hcomplete : (recognise 0 0 bytes).1.flags = flagComplete := (complete_of_header h hpre).1
    exact not_complete_of_return h' hpre' hl' hreturn' hcomplete
  have hinitial : (Progress.initial 0 0).mode = .first := rfl
  obtain ⟨body, hbody, hbefore, -⟩ := feed_header h hinitial rfl rfl rfl (rfl : noBytes.length = 32)
  obtain ⟨-, -, -, hend⟩ := feed_header hfolded' hinitial rfl rfl rfl (rfl : noBytes.length = 32)
  rcases List.prefix_or_prefix_of_prefix hpre hpre' with hle | hle
  · obtain ⟨rest, rfl⟩ := hle
    exact hclean (by simpa using hstray.append [] rest)
  · -- the recogniser stops at the end of the shorter header, and is still running there
    rw [hbody] at hle
    rcases List.prefix_concat_iff.mp hle with heq | hshort
    · rw [heq, ← hbody] at hclean
      exact hclean hstray
    · have hstopped : (feed (Progress.initial 0 0, noBytes) front').1.Stopped := by
        rw [hend]
        exact .inl rfl
      have hsame := stopped_of_prefix hstopped hshort
      rw [hbefore, hend] at hsame
      have hmode := congrArg (fun st : State => st.1.mode) hsame
      contradiction

/-- The recogniser is complete exactly on the headers, with the path and the nonce of each. -/
def Recognises (lifetime attempt : UInt64) (bytes : List UInt8) : Prop :=
  ((recognise lifetime attempt bytes).1.flags = flagComplete →
      ∃ front before line after, front <+: bytes ∧
        PlainHeader front before line after (recognise lifetime attempt bytes).1.path
          (recognise lifetime attempt bytes).2) ∧
    ∀ front before line after path nonce, front <+: bytes →
      PlainHeader front before line after path nonce →
        (recognise lifetime attempt bytes).1.flags = flagComplete ∧
          (recognise lifetime attempt bytes).1.path = path ∧
          (recognise lifetime attempt bytes).2 = nonce

/-- No header at the front of the bytes, read in either grammar, has a line that starts with
the name up to a hyphen and then a carriage return. -/
def NoFoldedReturn (bytes : List UInt8) : Prop :=
  ∀ front before line after path nonce, front <+: bytes →
    PlainHeader front before line after path nonce ∨
      FoldedHeader front before line after path nonce →
    ∀ l ∈ before ++ line :: after, ¬FoldedReturn l

/-- The recogniser accepts exactly the headers, where no folded carriage return makes a
difference, and nowhere else. -/
theorem recognises_iff (lifetime attempt : UInt64) (bytes : List UInt8) :
    Recognises lifetime attempt bytes ↔ NoFoldedReturn bytes := by
  constructor
  · rintro ⟨hcomplete, hheader⟩ front before line after path nonce hpre
      (hplain | hfolded) l hl hreturn
    · exact not_complete_of_return hplain hpre hl hreturn
        (hheader front before line after path nonce hpre hplain).1
    · obtain ⟨front', before', line', after', hpre', hplain'⟩ :=
        hcomplete (complete_of_header hfolded hpre).1
      exact not_plain_of_return hfolded hpre hl hreturn hpre' hplain'
  · intro hno
    constructor
    · intro hcomplete
      obtain ⟨front, before, line, after, hpre, hfolded⟩ := header_of_complete hcomplete
      exact ⟨front, before, line, after, hpre, plain_of_foldedHeader hfolded
        (hno front before line after _ _ hpre (.inr hfolded))⟩
    · intro front before line after path nonce hpre hplain
      exact complete_of_header (folded_of_plainHeader hplain
        (hno front before line after path nonce hpre (.inl hplain))) hpre

/-- A header in which a carriage return stands for the first hyphen of the name. -/
def returnedHeader : List UInt8 :=
  ascii "POST /mcp HTTP/1.1\r\nx\rproof-nonce: 0123456789abcdef0123456789abcdef\r\n\r\n"

/-- The recogniser takes a carriage return for a hyphen. -/
theorem carriage_return_is_hyphen : ¬Recognises 1 1 returnedHeader := by
  rintro ⟨hcomplete, -⟩
  obtain ⟨front, before, line, after, hpre, hplain⟩ := hcomplete (by decide +kernel)
  have hfolded : FoldedHeader returnedHeader []
      (ascii "x\rproof-nonce: 0123456789abcdef0123456789abcdef") [] 1
      (ascii "0123456789abcdef0123456789abcdef") := by
    refine ⟨⟨_, rfl, by decide⟩, by simp, ascii "x\rproof-nonce", by decide, by decide, by decide,
      by decide⟩
  exact not_plain_of_return hfolded (List.prefix_refl _) List.mem_cons_self (by decide) hpre
    hplain

end Language

end Candidate
end LiveSurface
