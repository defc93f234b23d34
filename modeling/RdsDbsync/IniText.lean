/-
  What a configuration file says, and that `ini.c` reads it.

  `iniItems` are the headers and assignments of a text; the buffer that `split_data` leaves
  holds their strings, one after the other (`splitData_strings`).
-/
import Mathlib.Data.List.DropRight
import RdsDbsync.Ini
import RdsDbsync.Lib.CStrings

namespace RdsDbsync

open Bytes

/-! ## The text -/

/-- A header, or a value that is assigned to a key. -/
inductive IniItem where
  | header (name : Bytes)
  | entry (key value : Bytes)
  deriving DecidableEq

/-- The strings of an item in the buffer. -/
def IniItem.strings : IniItem → List Bytes
  | header name => [ch '[' :: name]
  | entry key value => Bytes.strings key ++ Bytes.strings value

def inLine (c : UInt8) : Bool := c != ch '\n'

/-- The text without the rest of its first line. -/
def restOfLine (t : Bytes) : Bytes := t.dropWhile inLine

/-- The text without blanks at its end. -/
def trimEnd (t : Bytes) : Bytes := t.rdropWhile isPadding

/-- What a text behind a quote stands for. -/
def unescaped : Bytes → Bytes
  | [] => []
  | c :: r =>
    if c = ch '"' ∨ c = ch '\r' ∨ c = ch '\n' then []
    else if c = ch '\\' then
      match r with
      | [] => []
      | d :: r =>
        match IniT.escaped d with
        | none => []
        | some e => e :: unescaped r
    else c :: unescaped r

/-- The characters that end a quoted value. -/
abbrev endsQuoted (c : UInt8) : Prop := c = ch '"' ∨ c = ch '\r' ∨ c = ch '\n'

section
variable {c d e : UInt8} {r : Bytes}

theorem unescaped_end (h : endsQuoted c) : unescaped (c :: r) = [] := by
  rw [unescaped.eq_def]
  exact if_pos h

theorem unescaped_char (h : ¬endsQuoted c) (hc : c ≠ ch '\\') :
    unescaped (c :: r) = c :: unescaped r := by
  rw [unescaped.eq_def]
  exact (if_neg h).trans (if_neg hc)

theorem unescaped_backslash : unescaped [ch '\\'] = [] := by decide

theorem unescaped_none (h : IniT.escaped d = none) : unescaped (ch '\\' :: d :: r) = [] := by
  rw [unescaped.eq_def]
  simp [h]

theorem unescaped_escape (h : IniT.escaped d = some e) :
    unescaped (ch '\\' :: d :: r) = e :: unescaped r := by
  rw [unescaped.eq_def]
  dsimp only
  rw [if_neg (by decide), if_pos rfl, h]

end

/-- The value behind `=` and the blanks, and the text behind it. -/
def valueOf : Bytes → Option (Bytes × Bytes)
  | [] => none
  | c :: w =>
    if c = ch '\n' ∨ c = 0 then none
    else if c = ch '"' then
      if unescaped w = [] then none else some (unescaped w, restOfLine w)
    else some (trimEnd ((c :: w).takeWhile (spans [ch '\n'])), (c :: w).dropWhile (spans [ch '\n']))

/-- The value that a line assigns to a key, and the text behind it. -/
def assignment (t : Bytes) : Option (Bytes × Bytes × Bytes) :=
  match t.dropWhile (spans [ch '=', ch '\n']) with
  | [] => none
  | c :: v =>
    if c = ch '=' then
      (valueOf (v.dropWhile isPadding)).map fun r =>
        (trimEnd (t.takeWhile (spans [ch '=', ch '\n'])), r)
    else none

theorem valueOf_quoted {w : Bytes} : valueOf (ch '"' :: w) =
    if unescaped w = [] then none else some (unescaped w, restOfLine w) := by
  rw [valueOf, if_neg (by decide), if_pos rfl]

theorem restOfLine_suffix (t : Bytes) : restOfLine t <:+ t := List.dropWhile_suffix _

theorem valueOf_suffix {v value rest : Bytes} (h : valueOf v = some (value, rest)) : rest <:+ v := by
  cases v with
  | nil => cases h
  | cons c w =>
    rw [valueOf] at h
    split_ifs at h
    · obtain ⟨-, rfl⟩ := Prod.mk.inj (Option.some.inj h)
      exact (restOfLine_suffix w).trans (List.suffix_cons c w)
    · obtain ⟨-, rfl⟩ := Prod.mk.inj (Option.some.inj h)
      exact List.dropWhile_suffix _

theorem assignment_eq_some {t key value rest : Bytes}
    (h : assignment t = some (key, value, rest)) : ∃ v,
      t.dropWhile (spans [ch '=', ch '\n']) = ch '=' :: v ∧
        key = trimEnd (t.takeWhile (spans [ch '=', ch '\n'])) ∧
          valueOf (v.dropWhile isPadding) = some (value, rest) := by
  rw [assignment] at h
  split at h
  · cases h
  next c v hv =>
    split_ifs at h with hc
    obtain ⟨r, hr, heq⟩ := Option.map_eq_some_iff.1 h
    obtain ⟨rfl, rfl⟩ := Prod.mk.inj heq
    exact ⟨v, hc ▸ hv, rfl, hr⟩

theorem length_of_assignment {t key value rest : Bytes}
    (h : assignment t = some (key, value, rest)) : rest.length < t.length := by
  obtain ⟨v, hv, -, hvalue⟩ := assignment_eq_some h
  have hafter := (List.dropWhile_suffix (spans [ch '=', ch '\n']) (l := t)).length_le
  have hrest := ((valueOf_suffix hvalue).trans (List.dropWhile_suffix isPadding)).length_le
  rw [hv, List.length_cons] at hafter
  omega

/-- **The items of a text.** -/
def iniItems (t : Bytes) : List IniItem :=
  match t with
  | [] => []
  | c :: r =>
    if isPadding c ∨ c = ch '\n' ∨ c = 0 then iniItems r
    else if c = ch '[' then
      let name := r.takeWhile (spans [ch ']', ch '\n'])
      .header name :: iniItems (r.drop (name.length + 1))
    else if c = ch ';' then iniItems (restOfLine r)
    else
      match _h : assignment (c :: r) with
      | some (key, value, rest) => .entry key value :: iniItems rest
      | none => iniItems (restOfLine r)
termination_by t.length
decreasing_by
  · simp
  · simp only [List.length_drop, List.length_cons]
    omega
  · exact Nat.lt_succ_of_le (restOfLine_suffix r).length_le
  · exact length_of_assignment _h
  · exact Nat.lt_succ_of_le (restOfLine_suffix r).length_le

/-- The first character of a line with an assignment, or of one that is skipped. -/
structure StartsLine (c : UInt8) : Prop where
  noBlank : ¬(isPadding c ∨ c = ch '\n' ∨ c = 0)
  noHeader : c ≠ ch '['
  noComment : c ≠ ch ';'

section
variable {c : UInt8} {r key value rest : Bytes}

@[simp] theorem iniItems_nil : iniItems [] = [] := by rw [iniItems]

theorem iniItems_blank (h : isPadding c ∨ c = ch '\n' ∨ c = 0) :
    iniItems (c :: r) = iniItems r := by
  rw [iniItems, if_pos h]

theorem iniItems_header : iniItems (ch '[' :: r) =
    .header (r.takeWhile (spans [ch ']', ch '\n'])) ::
      iniItems (r.drop ((r.takeWhile (spans [ch ']', ch '\n'])).length + 1)) := by
  rw [iniItems, if_neg (by decide), if_pos rfl]

theorem iniItems_comment : iniItems (ch ';' :: r) = iniItems (restOfLine r) := by
  rw [iniItems, if_neg (by decide), if_neg (by decide), if_pos rfl]

theorem StartsLine.iniItems_entry (h : StartsLine c)
    (hline : assignment (c :: r) = some (key, value, rest)) :
    iniItems (c :: r) = .entry key value :: iniItems rest := by
  rw [iniItems, if_neg h.noBlank, if_neg h.noHeader, if_neg h.noComment]
  split
  · next hline' =>
    obtain ⟨rfl, hrest⟩ := Prod.mk.inj (Option.some.inj (hline'.symm.trans hline))
    obtain ⟨rfl, rfl⟩ := Prod.mk.inj hrest
    rfl
  · next hnone =>
    rw [hnone] at hline
    cases hline

theorem StartsLine.iniItems_none (h : StartsLine c) (hline : assignment (c :: r) = none) :
    iniItems (c :: r) = iniItems (restOfLine r) := by
  rw [iniItems, if_neg h.noBlank, if_neg h.noHeader, if_neg h.noComment]
  split
  · next hsome =>
    rw [hsome] at hline
    cases hline
  · rfl

end

/-- The strings of the items of a text. -/
def itemStrings (t : Bytes) : List Bytes := (iniItems t).flatMap IniItem.strings

/-! ## The buffer around a pointer -/

/-- What is left of a text when the blanks at its end are made NULs. -/
def trimmed (t : Bytes) : Bytes := trimEnd t ++ zeros (t.length - (trimEnd t).length)

@[simp] theorem length_trimmed (t : Bytes) : (trimmed t).length = t.length := by
  have := (List.rdropWhile_prefix isPadding (l := t)).length_le
  rw [trimmed, trimEnd, List.length_append, length_zeros]
  omega

theorem strings_trimmed (t : Bytes) : Bytes.strings (trimmed t) = Bytes.strings (trimEnd t) := by
  rw [trimmed, Separated.strings_append, strings_zeros, List.append_nil]
  generalize t.length - (trimEnd t).length = n
  rcases n with _ | n
  · exact Or.inl rfl
  · exact Or.inr ⟨zeros n, rfl⟩

theorem all_inLine_zeros (n : ℕ) : (zeros n).all inLine := by
  rw [List.all_eq_true]
  intro c hc
  rw [List.eq_of_mem_replicate hc]
  rfl

theorem all_inLine_trimmed {t : Bytes} (h : t.all inLine) : (trimmed t).all inLine := by
  rw [trimmed, List.all_append, Bool.and_eq_true]
  refine ⟨?_, all_inLine_zeros _⟩
  rw [List.all_eq_true] at h ⊢
  intro c hc
  exact h c ((List.rdropWhile_prefix isPadding t).subset hc)

theorem restOfLine_append {s : Bytes} (h : s.all inLine) (t : Bytes) :
    restOfLine (s ++ t) = restOfLine t :=
  List.dropWhile_append_of_pos (List.all_eq_true.1 h)

theorem takeWhile_append_inLine {s : Bytes} (h : s.all inLine) (t : Bytes) :
    (s ++ t).takeWhile inLine = s ++ t.takeWhile inLine :=
  List.takeWhile_append_of_pos (List.all_eq_true.1 h)

theorem inLine_of_spans {reject : List UInt8} (h : ch '\n' ∈ reject) (t : Bytes) :
    (t.takeWhile (spans reject)).all inLine := by
  rw [List.all_eq_true]
  intro c hc
  have hspan := List.all_eq_true.1 List.all_takeWhile c hc
  rw [inLine, bne_iff_ne]
  rintro rfl
  simp [spans, h] at hspan

namespace IniT

/-- The buffer with `a` before a pointer, and `t` from there to the end. -/
def cut (a t : Bytes) : IniT := ⟨a ++ (t ++ [0])⟩

variable (a t : Bytes) (c d : UInt8)

theorem cut_append (s : Bytes) : cut a (s ++ t) = cut (a ++ s) t := by simp [cut]

@[simp] theorem endPos_cut : (cut a t).endPos = a.length + t.length := by
  simp only [endPos, cut, List.length_append, List.length_singleton]
  omega

@[simp] theorem read_cut : (cut a (c :: t)).read a.length = .ok c := by simp [read, cut]

@[simp] theorem read_cut_nil : (cut a []).read a.length = .ok 0 := by simp [read, cut]

@[simp] theorem write_cut : (cut a (c :: t)).write a.length d = .ok (cut (a ++ [d]) t) := by
  simp [write, cut]

@[simp] theorem write_cut_nil : (cut a []).write a.length 0 = .ok (cut a []) := by
  simp [write, cut]

theorem strcspn_cut (reject : List UInt8) :
    (cut a t).strcspn a.length reject = .ok (t.takeWhile (spans reject)).length := by
  have hzero : ([0] : Bytes).takeWhile (spans reject) = [] := by simp [spans]
  have hspan : ((cut a t).data.drop a.length).takeWhile (spans reject) = t.takeWhile (spans reject) := by
    rw [cut, List.drop_left, List.takeWhile_append, hzero, List.append_nil]
    split_ifs with h
    · exact ((List.takeWhile_prefix _).eq_of_length h).symm
    · rfl
  have hle := (List.takeWhile_prefix (spans reject) (l := t)).length_le
  rw [strcspn, hspan, if_pos]
  simp only [cut, List.length_append, List.length_singleton]
  omega

theorem discardFrom_cut : discardFrom t.length (cut a t) a.length =
    .ok (cut (a ++ zeros (t.takeWhile inLine).length) (restOfLine t),
      (a ++ zeros (t.takeWhile inLine).length).length) := by
  induction t generalizing a with
  | nil => simp [discardFrom, restOfLine, zeros]
  | cons c t ih =>
    rw [List.length_cons, discardFrom, read_cut, ok_bind]
    by_cases hc : c = ch '\n'
    · have hin : inLine c = false := by simp [inLine, hc]
      rw [restOfLine, List.takeWhile_cons_of_neg (by simp [hin]),
        List.dropWhile_cons_of_neg (by simp [hin]), if_neg (by simpa using hc)]
      simp [zeros]
    · have hin : inLine c = true := by simpa [inLine] using hc
      have hpos : a.length + 1 = (a ++ [0]).length := by simp
      rw [restOfLine, List.takeWhile_cons_of_pos hin, List.dropWhile_cons_of_pos hin, if_pos hc,
        write_cut, ok_bind, hpos, ih, ← restOfLine, List.length_cons, append_zero_zeros]

/-- **`discard_line`** makes NULs of the rest of a line. -/
theorem discardLine_cut : (cut a t).discardLine a.length =
    .ok (cut (a ++ zeros (t.takeWhile inLine).length) (restOfLine t),
      (a ++ zeros (t.takeWhile inLine).length).length) := by
  rw [discardLine, endPos_cut, Nat.add_sub_cancel_left, discardFrom_cut]

/-- **`trim_back`** makes NULs of the blanks before `p`, back to a NUL. -/
theorem trimBack_cut {a : Bytes} (ha : Closed a) (s t : Bytes) :
    (cut (a ++ s) t).trimBack (a ++ s).length = .ok (cut (a ++ trimmed s) t) := by
  induction s using List.reverseRecOn generalizing t with
  | nil =>
    rcases ha with rfl | ⟨a, rfl⟩
    · simp [trimBack, trimmed, trimEnd, zeros]
    · have hread : (cut (a ++ [0]) t).read a.length = .ok 0 := by
        rw [← cut_append, List.singleton_append, read_cut]
      rw [List.append_nil, List.length_append, List.length_singleton, trimBack, hread, ok_bind,
        if_neg (by decide)]
      simp [trimmed, trimEnd, zeros]
  | append_singleton s c ih =>
    have hcut : cut (a ++ (s ++ [c])) t = cut (a ++ s) (c :: t) := by
      rw [← List.append_assoc, ← cut_append, List.singleton_append]
    have hpos : (a ++ (s ++ [c])).length = (a ++ s).length + 1 := by simp [Nat.add_assoc]
    rw [hcut, hpos, trimBack, read_cut, ok_bind]
    split_ifs with hc
    · rw [write_cut, ok_bind, ← cut_append, ih]
      have hlen := (List.rdropWhile_prefix isPadding (l := s)).length_le
      have htrim : trimmed (s ++ [c]) = trimmed s ++ [0] := by
        have hsub : s.length + 1 - (s.rdropWhile isPadding).length =
            s.length - (s.rdropWhile isPadding).length + 1 := by omega
        rw [trimmed, trimEnd, List.rdropWhile_concat_pos _ _ _ hc, List.length_append,
          List.length_singleton, hsub, ← zeros_concat, trimmed, trimEnd, List.append_assoc]
      rw [htrim, cut_append, List.append_assoc]
    · have htrim : trimmed (s ++ [c]) = s ++ [c] := by
        rw [trimmed, trimEnd, List.rdropWhile_concat_neg _ _ _ hc, Nat.sub_self]
        simp [zeros]
      rw [htrim, hcut]

theorem skipEquals_cut : skipEquals (t.length + 1) (cut a (c :: t)) a.length =
    .ok (cut (a ++ zeros ((t.takeWhile isPadding).length + 1)) (t.dropWhile isPadding),
      (a ++ zeros ((t.takeWhile isPadding).length + 1)).length) := by
  have hpos : a.length + 1 = (a ++ [0]).length := by simp
  induction t generalizing a c with
  | nil =>
    rw [skipEquals, write_cut, ok_bind, hpos, read_cut_nil, ok_bind, if_neg (by decide)]
    rfl
  | cons d t ih =>
    rw [skipEquals, write_cut, ok_bind, hpos, read_cut, ok_bind]
    split_ifs with hd
    · rw [List.length_cons, ih _ _ (by simp), List.takeWhile_cons_of_pos hd,
        List.dropWhile_cons_of_pos hd, append_zero_zeros, List.length_cons]
    · rw [List.takeWhile_cons_of_neg hd, List.dropWhile_cons_of_neg hd]
      rfl

/-- **`unescape_quoted_value`**: `p` is ahead of `q`, on the same line. -/
theorem unescapeFrom_cut {n : ℕ} {m : Bytes} (hn : t.length ≤ n) (hm : m ≠ [])
    (hline : m.all inLine) : ∃ m' t', m' ≠ [] ∧ m'.all inLine ∧ restOfLine t' = restOfLine t ∧
      unescapeFrom n (cut a (m ++ t)) a.length (a ++ m).length =
        .ok (cut (a ++ unescaped t) (m' ++ t'), (a ++ unescaped t).length) := by
  induction n generalizing a m t with
  | zero =>
    obtain rfl := List.eq_nil_of_length_eq_zero (Nat.le_zero.1 hn)
    exact ⟨m, [], hm, hline, rfl, by simp [unescapeFrom, unescaped]⟩
  | succ n ih =>
    obtain ⟨x, m, rfl⟩ := List.exists_cons_of_ne_nil hm
    have hx : inLine x ∧ m.all inLine := by simpa using hline
    -- `s` is read, and `e` is written for it
    have hnext : ∀ (s t : Bytes) (e : UInt8), s.all inLine → s ≠ [] → t.length ≤ n →
        ∃ m' t', m' ≠ [] ∧ m'.all inLine ∧ restOfLine t' = restOfLine (s ++ t) ∧
          ((cut a (x :: m ++ (s ++ t))).write a.length e >>= fun ini =>
            unescapeFrom n ini (a.length + 1) ((a ++ x :: m).length + s.length)) =
              .ok (cut (a ++ e :: unescaped t) (m' ++ t'), (a ++ e :: unescaped t).length) := by
      intro s t e hs hne hlen
      have hwrite : (cut a (x :: m ++ (s ++ t))).write a.length e =
          .ok (cut (a ++ [e]) (m ++ s ++ t)) := by
        rw [List.cons_append, write_cut, List.append_assoc]
      have hq : a.length + 1 = (a ++ [e]).length := by simp
      have hp : (a ++ x :: m).length + s.length = (a ++ [e] ++ (m ++ s)).length := by
        simp only [List.length_append, List.length_cons, List.length_nil]
        omega
      obtain ⟨m', t', hm', hline', hrest, heq⟩ := ih (a ++ [e]) t (m := m ++ s) hlen
        (by simp [hne]) (by simp [hx.2, hs])
      refine ⟨m', t', hm', hline', ?_, ?_⟩
      · rw [hrest, restOfLine, restOfLine, List.dropWhile_append_of_pos (by simpa using hs)]
      · rw [hwrite, ok_bind, hq, hp, heq]
        simp
    cases t with
    | nil =>
      refine ⟨x :: m, [], hm, hline, rfl, ?_⟩
      rw [unescapeFrom, if_neg (by simp)]
      simp [unescaped]
    | cons c t =>
      rw [List.length_cons] at hn
      have hread : (cut a (x :: m ++ c :: t)).read (a ++ x :: m).length = .ok c := by
        rw [cut_append, read_cut]
      have hread' : (cut a (x :: m ++ c :: t)).read ((a ++ x :: m).length + 1) =
          .ok (t.headD 0) := by
        have hpos : (a ++ x :: m).length + 1 = (a ++ x :: m ++ [c]).length := by
          simp [Nat.add_assoc]
        have hcut : cut a (x :: m ++ c :: t) = cut (a ++ x :: m ++ [c]) t := by simp [cut]
        rw [hpos, hcut]
        cases t with
        | nil => exact read_cut_nil _
        | cons d t => exact read_cut _ _ _
      rw [unescapeFrom, if_pos (by simp), hread, ok_bind]
      by_cases hend : endsQuoted c
      · refine ⟨x :: m, c :: t, hm, hline, rfl, ?_⟩
        rw [if_pos hend, unescaped_end hend]
        simp
      have hc : inLine c = true := by
        simp only [endsQuoted, not_or] at hend
        simpa [inLine] using hend.2.2
      rw [if_neg hend]
      by_cases hesc : c = ch '\\'
      · subst hesc
        rw [if_pos rfl, hread', ok_bind]
        cases t with
        | nil =>
          refine ⟨x :: m, [ch '\\'], hm, hline, rfl, ?_⟩
          have hnul : escaped 0 = none := by decide
          rw [List.headD_nil, hnul, unescaped_backslash]
          simp
        | cons d t =>
          rw [List.headD_cons]
          cases he : escaped d with
          | none =>
            refine ⟨x :: m, _, hm, hline, rfl, ?_⟩
            rw [unescaped_none he]
            simp
          | some e =>
            have hd : inLine d = true := by
              rw [inLine, bne_iff_ne]
              rintro rfl
              cases he
            have := hnext [ch '\\', d] t e (by simp [hc, hd]) (by simp) (by simp at hn; omega)
            rw [unescaped_escape he]
            exact this
      · rw [if_neg hesc, unescaped_char hend hesc]
        exact hnext [c] t c (by simp [hc]) (by simp) (by omega)

/-! ## A step -/

/-- The pointer goes from behind `a` to a later part of the text, and the buffer is cut on the way. -/
def Splits (a t : Bytes) (r : Except Fault (IniT × ℕ)) : Prop :=
  ∃ o t', r = .ok (cut (a ++ o) t', (a ++ o).length) ∧ t'.length < t.length ∧
    itemStrings t = strings o ++ itemStrings t' ∧
      ((∃ o', o = o' ++ [0]) ∨ ∀ c ∈ t'.head?, c = ch '\n' ∨ c = 0)

variable {a t} {c}

/-- A line is discarded, of which `s` may have been changed. -/
theorem splits_discardLine {r s t' : Bytes} (hs : s.all inLine) (hne : s ≠ [])
    (hrest : restOfLine t' = restOfLine r)
    (hitems : iniItems (c :: r) = iniItems (restOfLine r)) :
    Splits a (c :: r) ((cut a (s ++ t')).discardLine a.length) := by
  refine ⟨zeros ((s ++ t').takeWhile inLine).length, restOfLine (s ++ t'), discardLine_cut _ _, ?_, ?_,
    Or.inl ?_⟩
  · rw [restOfLine_append hs, hrest]
    exact Nat.lt_succ_of_le (restOfLine_suffix r).length_le
  · rw [strings_zeros, restOfLine_append hs, hrest, itemStrings, hitems]
    rfl
  · obtain ⟨n, hn⟩ : ∃ n, ((s ++ t').takeWhile inLine).length = n + 1 := by
      rw [takeWhile_append_inLine hs, List.length_append]
      have := List.length_pos_of_ne_nil hne
      exact ⟨s.length + (t'.takeWhile inLine).length - 1, by omega⟩
    exact ⟨zeros n, by rw [hn, zeros_concat]⟩

/-- The value `v` of the line `c :: r`, and the cut text `s` of the line before it. -/
structure ValueBehind (c : UInt8) (r s v key : Bytes) : Prop where
  line : s.all inLine
  closed : ∃ s', s = s' ++ [0]
  strings_eq : strings s = strings key
  rest : restOfLine v = restOfLine r
  length : v.length ≤ r.length
  none : valueOf v = none → iniItems (c :: r) = iniItems (restOfLine r)
  entry : ∀ value rest, valueOf v = some (value, rest) →
    iniItems (c :: r) = .entry key value :: iniItems rest

section
variable {r s v w key : Bytes} {d : UInt8}

theorem ValueBehind.ne_nil (h : ValueBehind c r s v key) : s ≠ [] := by
  obtain ⟨s', rfl⟩ := h.closed
  simp

theorem ValueBehind.itemStrings_eq (h : ValueBehind c r s v key) {value rest : Bytes}
    (hvalue : valueOf v = some (value, rest)) :
    itemStrings (c :: r) = strings key ++ strings value ++ itemStrings rest := by
  rw [itemStrings, h.entry _ _ hvalue]
  rfl

theorem ValueBehind.strings_append (h : ValueBehind c r s v key) (b : Bytes) :
    strings (s ++ b) = strings key ++ strings b := by
  rw [← h.strings_eq]
  exact Closed.strings_append (Or.inr h.closed) b

/-- A quoted value. -/
theorem splits_quoted (h : ValueBehind c r s (ch '"' :: w) key) :
    Splits a (c :: r) ((cut (a ++ s) (ch '"' :: w)).unescapeQuotedValue (a ++ s).length >>=
      fun (ini, q) => if q = (a ++ s).length then ini.discardLine a.length else ini.discardLine q) := by
  have hsteps : (cut (a ++ s) (ch '"' :: w)).endPos - (a ++ s).length = w.length + 1 := by
    rw [endPos_cut, Nat.add_sub_cancel_left, List.length_cons]
  have hp : (a ++ s).length + 1 = (a ++ s ++ [ch '"']).length := by
    simp [Nat.add_assoc]
  have hrest : restOfLine w = restOfLine r := by
    rw [← h.rest, restOfLine, restOfLine, List.dropWhile_cons_of_pos (by decide)]
  obtain ⟨m, t, hm, hmline, htrest, heq⟩ := unescapeFrom_cut (a ++ s) w (n := w.length + 1)
    (m := [ch '"']) (Nat.le_succ _) (by simp) (by decide)
  rw [List.singleton_append] at heq
  rw [unescapeQuotedValue, hsteps, hp, heq, ok_bind]
  dsimp only
  by_cases hempty : unescaped w = []
  · have hvalue : valueOf (ch '"' :: w) = .none := valueOf_quoted.trans (if_pos hempty)
    rw [hempty, List.append_nil, if_pos rfl, ← cut_append, ← List.append_assoc]
    exact splits_discardLine (by rw [List.all_append, h.line, hmline]; rfl)
      (List.append_ne_nil_of_left_ne_nil h.ne_nil _) (htrest.trans hrest) (h.none hvalue)
  · have hvalue : valueOf (ch '"' :: w) = some (unescaped w, restOfLine w) :=
      valueOf_quoted.trans (if_neg hempty)
    obtain ⟨n, hn⟩ : ∃ n, ((m ++ t).takeWhile inLine).length = n + 1 := by
      have := List.length_pos_of_ne_nil hm
      rw [takeWhile_append_inLine hmline, List.length_append]
      exact ⟨m.length + (t.takeWhile inLine).length - 1, by omega⟩
    rw [if_neg (by simp [hempty]), discardLine_cut, restOfLine_append hmline, htrest, hn]
    refine ⟨s ++ (unescaped w ++ zeros (n + 1)), restOfLine w, ?_, ?_, ?_, Or.inl ?_⟩
    · simp only [List.append_assoc]
    · rw [hrest]
      exact Nat.lt_succ_of_le (restOfLine_suffix r).length_le
    · rw [h.itemStrings_eq hvalue, h.strings_append, zeros_succ, strings_append_zero, strings_zeros,
        List.append_nil]
    · exact ⟨s ++ (unescaped w ++ zeros n), by simp only [List.append_assoc, zeros_concat]⟩

/-- A value without quotes. -/
theorem splits_plain (h : ValueBehind c r s (d :: w) key) (hend : ¬(d = ch '\n' ∨ d = 0))
    (hquote : d ≠ ch '"') :
    Splits a (c :: r) ((cut (a ++ s) (d :: w)).strcspn (a ++ s).length [ch '\n'] >>= fun n =>
      (cut (a ++ s) (d :: w)).trimBack ((a ++ s).length + n) >>= fun ini =>
        .ok (ini, (a ++ s).length + n)) := by
  have hclosed : Closed (a ++ s) := by
    obtain ⟨s', rfl⟩ := h.closed
    exact Or.inr ⟨a ++ s', by rw [List.append_assoc]⟩
  obtain ⟨value, hvalue⟩ : ∃ value, value = (d :: w).takeWhile (spans [ch '\n']) := ⟨_, rfl⟩
  obtain ⟨rest, hrest⟩ : ∃ rest, rest = (d :: w).dropWhile (spans [ch '\n']) := ⟨_, rfl⟩
  have hline : d :: w = value ++ rest := by rw [hvalue, hrest, List.takeWhile_append_dropWhile]
  have hof : valueOf (d :: w) = some (trimEnd value, rest) := by
    rw [hvalue, hrest]
    exact (if_neg hend).trans (if_neg hquote)
  rw [strcspn_cut, ok_bind, ← hvalue, ← List.length_append, hline, cut_append,
    trimBack_cut hclosed, ok_bind]
  refine ⟨s ++ trimmed value, rest, ?_, ?_, ?_, Or.inr ?_⟩
  · simp
  · have hlen := (List.dropWhile_suffix (spans [ch '\n']) (l := d :: w)).length_le
    rw [← hrest] at hlen
    exact Nat.lt_succ_of_le (hlen.trans h.length)
  · rw [h.itemStrings_eq hof, h.strings_append, strings_trimmed]
  · intro e he
    have hstop := List.head?_dropWhile_not (spans [ch '\n']) (d :: w)
    rw [← hrest, Option.mem_def.1 he] at hstop
    simpa [spans, or_comm, imp_iff_not_or] using hstop

/-- **A value** is cut off the line. -/
theorem splits_splitValue (h : ValueBehind c r s v key) :
    Splits a (c :: r) ((cut (a ++ s) v).splitValue a.length (a ++ s).length) := by
  have hdiscard : valueOf v = .none → Splits a (c :: r) ((cut (a ++ s) v).discardLine a.length) := by
    intro hnone
    rw [← cut_append]
    exact splits_discardLine h.line h.ne_nil h.rest (h.none hnone)
  rw [splitValue]
  cases v with
  | nil =>
    rw [read_cut_nil, ok_bind, if_pos (Or.inr rfl)]
    exact hdiscard rfl
  | cons d w =>
    rw [read_cut, ok_bind]
    split_ifs with hend hquote
    · exact hdiscard (if_pos hend)
    · subst hquote
      exact splits_quoted h
    · exact splits_plain h hend hquote

end

theorem splits_splitLine {r : Bytes} (ha : Closed a) (hc : StartsLine c) :
    Splits a (c :: r) ((cut a (c :: r)).splitLine a.length) := by
  have hin : inLine c := by
    rw [inLine, bne_iff_ne]
    exact fun h => hc.noBlank (Or.inr (Or.inl h))
  obtain ⟨key, hkey⟩ : ∃ key, key = (c :: r).takeWhile (spans [ch '=', ch '\n']) := ⟨_, rfl⟩
  obtain ⟨after, hafter⟩ : ∃ after, after = (c :: r).dropWhile (spans [ch '=', ch '\n']) := ⟨_, rfl⟩
  have hline : c :: r = key ++ after := by rw [hkey, hafter, List.takeWhile_append_dropWhile]
  have hkeyLine : key.all inLine := hkey ▸ inLine_of_spans (by simp) _
  have hcut : cut a (c :: r) = cut (a ++ key) after := by rw [hline, cut_append]
  have hread : (cut a (c :: r)).read (a ++ key).length = .ok (after.headD 0) := by
    rw [hcut]
    cases after with
    | nil => exact read_cut_nil _
    | cons d v => exact read_cut _ _ _
  rw [splitLine, strcspn_cut, ok_bind, ← hkey, ← List.length_append, hread, ok_bind]
  split_ifs with heq
  · -- there is no `=` in the line
    refine splits_discardLine (s := [c]) (by simp [hin]) (by simp) rfl (hc.iniItems_none ?_)
    rw [assignment, ← hafter]
    cases after with
    | nil => rfl
    | cons d v => exact if_neg heq
  · obtain ⟨v, rfl⟩ : ∃ v, after = ch '=' :: v := by
      cases after with
      | nil => exact absurd (show (0 : UInt8) ≠ ch '=' by decide) heq
      | cons d v => exact ⟨v, congrArg (· :: v) (not_not.1 heq)⟩
    have hassign : assignment (c :: r) =
        (valueOf (v.dropWhile isPadding)).map fun r => (trimEnd key, r) := by
      rw [assignment, ← hafter, ← hkey]
      exact if_pos rfl
    have hvalue : ValueBehind c r (trimmed key ++ zeros ((v.takeWhile isPadding).length + 1))
        (v.dropWhile isPadding) (trimEnd key) := {
      line := by rw [List.all_append, all_inLine_trimmed hkeyLine, all_inLine_zeros]; rfl
      closed := ⟨trimmed key ++ zeros (v.takeWhile isPadding).length, by
        rw [List.append_assoc, zeros_concat]⟩
      strings_eq := by
        rw [zeros_succ, strings_append_zero, strings_zeros, List.append_nil, strings_trimmed]
      rest := by
        have hpadding : (v.takeWhile isPadding).all inLine := by
          rw [List.all_eq_true]
          intro e he
          have hpad := List.all_eq_true.1 List.all_takeWhile e he
          rw [inLine, bne_iff_ne]
          rintro rfl
          cases hpad
        calc restOfLine (v.dropWhile isPadding)
            = restOfLine (v.takeWhile isPadding ++ v.dropWhile isPadding) :=
              (restOfLine_append hpadding _).symm
          _ = restOfLine (key ++ ch '=' :: v) := by
              rw [List.takeWhile_append_dropWhile, restOfLine_append hkeyLine]
              exact (List.dropWhile_cons_of_pos (by decide)).symm
          _ = restOfLine r := by
              rw [← hline]
              exact List.dropWhile_cons_of_pos hin
      length := by
        have hlen := congrArg List.length hline
        have hle := (List.dropWhile_suffix isPadding (l := v)).length_le
        simp only [List.length_append, List.length_cons] at hlen
        omega
      none := fun h => hc.iniItems_none (by rw [hassign, h]; rfl)
      entry := fun value rest h => hc.iniItems_entry (by rw [hassign, h]; rfl) }
    have hlen : (a ++ key).length = (a ++ trimmed key).length := by simp
    have hsteps : (cut (a ++ trimmed key) (ch '=' :: v)).endPos - (a ++ trimmed key).length =
        v.length + 1 := by
      rw [endPos_cut, Nat.add_sub_cancel_left, List.length_cons]
    rw [hcut, trimBack_cut ha, ok_bind, hlen, hsteps, skipEquals_cut, ok_bind, List.append_assoc]
    exact splits_splitValue hvalue

/-! ## The loop -/

/-- A blank, the end of a line or a NUL. -/
theorem splitStep_blank (h : isPadding c ∨ c = ch '\n' ∨ c = 0) :
    (cut a (c :: t)).splitStep a.length = .ok (cut (a ++ [0]) t, (a ++ [0]).length) := by
  have hpos : a.length + 1 = (a ++ [0]).length := by simp
  rw [splitStep, read_cut, ok_bind]
  split_ifs with hblank hnul
  · rw [write_cut, ok_bind, hpos]
  · rw [hnul, ← hpos, ← cut_append, List.singleton_append]
  all_goals
    refine absurd h ?_
    simp only [isPadding, Bool.or_eq_true, beq_iff_eq]
    tauto

/-- A header. -/
theorem splits_header {r : Bytes} :
    Splits a (ch '[' :: r) ((cut a (ch '[' :: r)).strcspn a.length [ch ']', ch '\n'] >>= fun n =>
      (cut a (ch '[' :: r)).write (a.length + n) 0 >>= fun ini => .ok (ini, a.length + n)) := by
  obtain ⟨name, hname⟩ : ∃ name, name = r.takeWhile (spans [ch ']', ch '\n']) := ⟨_, rfl⟩
  obtain ⟨after, hafter⟩ : ∃ after, after = r.dropWhile (spans [ch ']', ch '\n']) := ⟨_, rfl⟩
  have hr : r = name ++ after := by rw [hname, hafter, List.takeWhile_append_dropWhile]
  have hspan : (ch '[' :: r).takeWhile (spans [ch ']', ch '\n']) = ch '[' :: name := by
    rw [List.takeWhile_cons_of_pos (by decide), hname]
  have hcut : cut a (ch '[' :: r) = cut (a ++ ch '[' :: name) after := by
    rw [← cut_append, hr]
    rfl
  have hnul : NulFree (ch '[' :: name) := by
    rw [← hspan]
    intro hmem
    have := List.all_eq_true.1 List.all_takeWhile 0 hmem
    cases this
  have hitems : itemStrings (ch '[' :: r) = strings (ch '[' :: name) ++ itemStrings after.tail := by
    rw [itemStrings, iniItems_header, ← hname, strings_of_nulFree hnul (List.cons_ne_nil _ _),
      hr, ← List.drop_drop, List.drop_left, List.drop_one]
    rfl
  rw [strcspn_cut, ok_bind, hspan, ← List.length_append, hcut]
  cases after with
  | nil =>
    rw [write_cut_nil, ok_bind]
    refine ⟨ch '[' :: name, [], rfl, by simp, ?_, Or.inr (by simp)⟩
    rw [hitems]
    rfl
  | cons d after =>
    refine ⟨ch '[' :: name, 0 :: after, ?_, ?_, ?_, Or.inr (by simp)⟩
    · rw [write_cut, ok_bind, ← cut_append]
      rfl
    · simp only [hr, List.length_cons, List.length_append]
      omega
    · rw [hitems, itemStrings, itemStrings, iniItems_blank (Or.inr (Or.inr rfl))]
      rfl

/-- **A header, a comment or a line** is cut. -/
theorem splits_splitStep {r : Bytes} (ha : Closed a) (h : ¬(isPadding c ∨ c = ch '\n' ∨ c = 0)) :
    Splits a (c :: r) ((cut a (c :: r)).splitStep a.length) := by
  rw [splitStep, read_cut, ok_bind]
  split_ifs with hblank hnul hheader hcomment
  · refine absurd ?_ h
    simp only [isPadding, Bool.or_eq_true, beq_iff_eq]
    tauto
  · exact absurd (Or.inr (Or.inr hnul)) h
  · subst hheader
    exact splits_header
  · subst hcomment
    exact splits_discardLine (s := [ch ';']) (by decide) (by simp) rfl iniItems_comment
  · exact splits_splitLine ha ⟨h, hheader, hcomment⟩

/-- What the buffer from a pointer on becomes. -/
theorem splitFrom_cut {fuel : ℕ} (hfuel : t.length < fuel)
    (ha : Closed a ∨ ∀ c ∈ t.head?, c = ch '\n' ∨ c = 0) :
    ∃ out, splitFrom fuel (cut a t) a.length = .ok (cut (a ++ out) []) ∧
      strings out = itemStrings t ∧
        ((∀ c ∈ t.head?, c = ch '\n' ∨ c = 0) → Separated out) := by
  induction fuel generalizing a t with
  | zero => cases hfuel
  | succ fuel ih =>
    cases t with
    | nil =>
      refine ⟨[], ?_, by simp [itemStrings], fun _ => Or.inl rfl⟩
      rw [splitFrom, if_neg (by simp), List.append_nil]
    | cons c t =>
      rw [List.length_cons] at hfuel
      rw [splitFrom, if_pos (by simp)]
      by_cases hblank : isPadding c ∨ c = ch '\n' ∨ c = 0
      · obtain ⟨out, heq, hstrings, -⟩ := ih (a := a ++ [0]) (t := t) (by omega)
          (Or.inl (Or.inr ⟨a, rfl⟩))
        refine ⟨0 :: out, ?_, ?_, fun _ => Or.inr ⟨out, rfl⟩⟩
        · rw [splitStep_blank hblank, ok_bind]
          exact heq.trans (by rw [List.append_assoc, List.singleton_append])
        · rw [strings_zero_cons, hstrings, itemStrings, itemStrings, iniItems_blank hblank]
      · have hnotEnd : ¬∀ d ∈ (c :: t).head?, d = ch '\n' ∨ d = 0 := fun hend =>
          hblank (Or.inr (hend c rfl))
        obtain ⟨o, t', hstep, hlen, hitems, hnext⟩ := splits_splitStep (r := t) (ha.resolve_right hnotEnd) hblank
        rw [List.length_cons] at hlen
        obtain ⟨out, heq, hstrings, hsep⟩ := ih (a := a ++ o) (t := t') (by omega)
          (hnext.imp_left fun ⟨o', ho⟩ => Or.inr ⟨a ++ o', by rw [ho, List.append_assoc]⟩)
        refine ⟨o ++ out, ?_, ?_, fun hend => absurd hend hnotEnd⟩
        · rw [hstep, ok_bind]
          exact heq.trans (by rw [List.append_assoc])
        · rw [hitems, ← hstrings]
          rcases hnext with hclosed | hend
          · exact Closed.strings_append (Or.inr hclosed) _
          · exact (hsep hend).strings_append _

/-- **`split_data` cuts a text into the strings of its items.** -/
theorem splitData_strings (t : Bytes) :
    ∃ out, splitData ⟨t ++ [0]⟩ = .ok ⟨out ++ [0]⟩ ∧ strings out = itemStrings t := by
  obtain ⟨out, heq, hstrings, -⟩ := splitFrom_cut (a := []) (Nat.lt_succ_self t.length)
    (Or.inl (Or.inl rfl))
  refine ⟨out, ?_, hstrings⟩
  have hsteps : endPos ⟨t ++ [0]⟩ + 1 = t.length + 1 := by simp [endPos]
  rw [splitData, hsteps]
  exact heq

end IniT

end RdsDbsync
