/-
  Constants in PostgreSQL's SQL text under either setting of
  `standard_conforming_strings`, and the operators before them.

  A string ends at its quote if the text behind it does not go on with it: neither with
  a quote, nor with one behind blanks and line comments with a line end among them.
  `readOperator` cuts operators as the server's lexer does: before a comment, and before
  a sign at the end unless one of some characters comes earlier.
-/
import RdsDbsync.Lib.SqlItems

namespace SqlLex

open Bytes Csv

/-! ## Strings -/

/-- Where the reader is behind a string, and whether a line has ended there. -/
inductive GapMode where
  | blank (lineEnd : Bool)
  | comment (lineEnd : Bool)

/-- The string goes on with another quote. -/
def goesOn : GapMode → Bytes → Bool
  | _, [] => false
  | .blank lineEnd, c :: r =>
    if c = squote then lineEnd
    else if isLineEnd c then goesOn (.blank true) r
    else if isSpace c then goesOn (.blank lineEnd) r
    else if c = ch '-' ∧ r.head? = some (ch '-') then goesOn (.comment lineEnd) r
    else false
  | .comment lineEnd, c :: r =>
    if isLineEnd c then goesOn (.blank true) r else goesOn (.comment lineEnd) r

/-- A string has ended before the text. -/
def StringEnds (rest : Bytes) : Prop :=
  rest.head? ≠ some squote ∧ goesOn (.blank false) rest = false

instance (rest : Bytes) : Decidable (StringEnds rest) := inferInstanceAs (Decidable (_ ∧ _))

def Token.isString : Token → Bool
  | .string _ => true
  | _ => false

section
variable (scs : Bool)

/-- The token that starts with `c`; where `standard_conforming_strings` is off, all strings have
escapes. -/
def readTokenIn (c : UInt8) (r : Bytes) : Option (Token × Bytes) :=
  if c = squote ∧ scs = false then (readEscaped r).map fun (t, r) => (.string t, r)
  else readToken c r

/-- The next token of a text, and what follows it.  A string that goes on is not read at all. -/
def nextIn (t : Bytes) : Option (Token × Bytes) :=
  (skip .space t).bind fun
    | [] => none
    | c :: r => (readTokenIn scs c r).filter fun p => !(p.1.isString && goesOn (.blank false) p.2)

variable {scs} {rest : Bytes}

theorem nextIn_atToken {c : UInt8} {r : Bytes} (h : AtToken (c :: r)) :
    nextIn scs (c :: r) =
      (readTokenIn scs c r).filter fun p => !(p.1.isString && goesOn (.blank false) p.2) := by
  rw [nextIn, skip_atToken h]
  rfl

theorem readTokenIn_of_ne {c : UInt8} (hc : c ≠ squote) (r : Bytes) :
    readTokenIn scs c r = readToken c r := if_neg fun h => hc h.1

/-- The setting matters for strings only. -/
theorem nextIn_of_next {c : UInt8} {r : Bytes} {tok : Token} (hat : AtToken (c :: r))
    (hc : c ≠ squote) (h : next (c :: r) = some (tok, rest))
    (hends : tok.isString → goesOn (.blank false) rest = false) :
    nextIn scs (c :: r) = some (tok, rest) := by
  rw [next_atToken hat] at h
  rw [nextIn_atToken hat, readTokenIn_of_ne hc, h, Option.filter_some]
  refine if_pos ?_
  dsimp only
  cases hs : tok.isString
  · rfl
  · rw [hends hs]
    rfl

/-- What is read of a string without E. -/
theorem nextIn_squote (r : Bytes) :
    nextIn scs (squote :: r) =
      ((if scs then readDelimited squote r else readEscaped r).filter fun p =>
        !goesOn (.blank false) p.2).map fun (t, r) => (.string t, r) := by
  have hread : readTokenIn scs squote r =
      (if scs then readDelimited squote r else readEscaped r).map fun (t, r) => (.string t, r) := by
    cases scs
    · exact if_pos ⟨rfl, rfl⟩
    · rw [readTokenIn, if_neg (by simp), readToken, if_neg (by decide), if_neg (by decide),
        if_pos rfl]
      rfl
  rw [nextIn_atToken (atToken_cons rfl (by decide) (by decide)), hread]
  cases (if scs then readDelimited squote r else readEscaped r) with
  | none => rfl
  | some p => simp [Option.filter_some, Token.isString, apply_ite]

/-- **A doubled text is read back**, under either setting if it has no backslash. -/
theorem nextIn_doubled (hr : StringEnds rest) {t : Bytes} (ht : scs = false → backslash ∉ t) :
    nextIn scs (squote :: doubled squote t ++ [squote] ++ rest) = some (.string t, rest) := by
  have hread : (if scs then readDelimited squote (doubled squote t ++ squote :: rest)
      else readEscaped (doubled squote t ++ squote :: rest)) = some (t, rest) := by
    cases scs
    · rw [← escaped_of_not_mem (ht rfl)]
      exact readEscaped_escaped hr.1 t
    · exact readDelimited_doubled hr.1 t
  rw [List.append_assoc, List.cons_append, List.singleton_append, nextIn_squote, hread,
    Option.filter_some, if_pos (by simp [hr.2])]
  rfl

/-- **An escaped text with an E is read back**, under either setting. -/
theorem nextIn_escaped (hr : StringEnds rest) (t : Bytes) :
    nextIn scs (ch 'E' :: squote :: escaped t ++ [squote] ++ rest) = some (.string t, rest) :=
  nextIn_of_next (atToken_wordStart (by decide) _) (by decide) (next_escaped hr.1 t)
    fun _ => hr.2

end

theorem escaped_cons (c : UInt8) (t : Bytes) :
    escaped (c :: t) = (if c = squote ∨ c = backslash then [c, c] else [c]) ++ escaped t := by
  simp only [escaped, List.flatMap_cons, Bool.or_eq_true, beq_iff_eq]

/-- A string with escapes is the escaped one, and its quote. -/
theorem readEscaped_eq {rest t r : Bytes} (h : readEscaped rest = some (t, r)) :
    rest = escaped t ++ squote :: r := by
  induction rest using readEscaped.induct generalizing t r with
  | case1 => cases h
  | case2 =>
    simp only [readEscaped, if_true, Option.some.injEq, Prod.mk.injEq] at h
    obtain ⟨rfl, rfl⟩ := h
    rfl
  | case3 c hc => simp [readEscaped, hc] at h
  | case4 c d r' hc =>
    rw [readEscaped, if_pos hc] at h
    cases h
    rw [hc.1]
    rfl
  | case5 c r' hc hc' ih =>
    rw [readEscaped, if_neg hc, if_pos hc', if_pos rfl] at h
    obtain ⟨⟨t', r''⟩, hread, heq⟩ := Option.map_eq_some_iff.1 h
    cases heq
    rw [ih hread, escaped_cons, if_pos hc']
    rfl
  | case6 c d r' hc hc' hd => simp [readEscaped, hc, hc', hd] at h
  | case7 c d r' hc hc' ih =>
    rw [readEscaped, if_neg hc, if_neg hc'] at h
    obtain ⟨⟨t', r''⟩, hread, heq⟩ := Option.map_eq_some_iff.1 h
    cases heq
    rw [ih hread, escaped_cons, if_neg hc']
    rfl

/-- Escapes make a text longer. -/
theorem length_escaped (t : Bytes) :
    (escaped t).length = t.length + t.count squote + t.count backslash := by
  induction t with
  | nil => rfl
  | cons c t ih =>
    rw [escaped_cons, List.length_append, ih, List.count_cons, List.count_cons, List.length_cons]
    rcases eq_or_ne c squote with rfl | hq
    · simp [squote, backslash]
      omega
    rcases eq_or_ne c backslash with rfl | hb
    · simp [squote, backslash]
      omega
    · simp [hq, hb]
      omega

/-- **A text that is only put between quotes** is read as itself if and only if it has no quotes
and, where strings have escapes, no backslashes. -/
theorem nextIn_between_iff {scs : Bool} {t rest : Bytes} (hr : StringEnds rest) :
    nextIn scs (squote :: t ++ [squote] ++ rest) = some (.string t, rest) ↔
      squote ∉ t ∧ (scs = false → backslash ∉ t) := by
  constructor
  · intro h
    rw [List.append_assoc, List.cons_append, List.singleton_append, nextIn_squote] at h
    obtain ⟨⟨u, r⟩, hread, heq⟩ := Option.map_eq_some_iff.1 h
    obtain ⟨hread, -⟩ := Option.filter_eq_some_iff.1 hread
    cases heq
    cases scs with
    | true => exact ⟨not_mem_of_doubled hr.1 (readDelimited_eq hread), nofun⟩
    | false =>
      have hlen := congrArg List.length (readEscaped_eq hread)
      rw [List.length_append, List.length_append, length_escaped] at hlen
      exact ⟨List.count_eq_zero.1 (by omega), fun _ => List.count_eq_zero.1 (by omega)⟩
  · rintro ⟨hq, hb⟩
    have h := nextIn_doubled hr hb
    rwa [doubled_of_not_mem hq] at h

/-! ## Operators -/

def isOpChar (c : UInt8) : Bool :=
  (ascii "~!@#^&|`?+-*/%<>=").contains c

/-- The characters that let an operator end in a sign. -/
def isSpecialOpChar (c : UInt8) : Bool := (ascii "~!@#^&|`?%").contains c

/-- The operator characters up to a comment. -/
def opRun : Bytes → Bytes
  | [] => []
  | c :: r =>
    if isOpChar c ∧ ¬ (c = ch '-' ∧ r.head? = some (ch '-')) ∧
      ¬ (c = ch '/' ∧ r.head? = some (ch '*')) then c :: opRun r
    else []

/-- An operator without the signs that it may not end in, from its last character on. -/
def trimSigns : Bytes → Bytes
  | c :: d :: r =>
    if (c = ch '+' ∨ c = ch '-') ∧ (d :: r).any isSpecialOpChar = false then trimSigns (d :: r)
    else c :: d :: r
  | t => t

/-- The operator at the front of the text, and what follows it. -/
def readOperator (t : Bytes) : Bytes × Bytes :=
  let op := (trimSigns (opRun t).reverse).reverse
  (op, t.drop op.length)

/-- No operator character at the front. -/
def NoOp (t : Bytes) : Prop := ∀ c ∈ t.head?, isOpChar c = false

section
variable {c : UInt8} {t : Bytes}

theorem opRun_noOp (h : NoOp t) : opRun t = [] := by
  rcases t with _ | ⟨c, t⟩
  · rfl
  · rw [opRun, if_neg fun hc => Bool.false_ne_true ((h c rfl).symm.trans hc.1)]

/-- A character before a text that is no operator. -/
theorem opRun_cons (hc : isOpChar c) (h : NoOp t) : opRun (c :: t) = [c] := by
  have hhead : ∀ d, isOpChar d → t.head? ≠ some d := fun d hd ht =>
    Bool.false_ne_true ((h d ht).symm.trans hd)
  rw [opRun, if_pos ⟨hc, fun hm => hhead _ rfl hm.2, fun hd => hhead _ rfl hd.2⟩, opRun_noOp h]

theorem readOperator_cons (hc : isOpChar c) (h : NoOp t) : readOperator (c :: t) = ([c], t) := by
  rw [readOperator, opRun_cons hc h]
  rfl

/-- **A sign is not drawn to the equals sign before it.** -/
theorem readOperator_sign (h : NoOp t) :
    readOperator (ch '=' :: ch '-' :: t) = ([ch '='], ch '-' :: t) := by
  have hrun : opRun (ch '=' :: ch '-' :: t) = [ch '=', ch '-'] := by
    have heq : ch '=' ≠ ch '-' ∧ ch '=' ≠ ch '/' := by decide
    rw [opRun, if_pos ⟨rfl, fun hm => heq.1 hm.1, fun hd => heq.2 hd.1⟩, opRun_cons rfl h]
  rw [readOperator, hrun]
  rfl

end

/-! ## Constants -/

/-- The text starts with a constant that denotes `v`: a string, a number, or a number behind a
minus sign that is an operator by itself; `rest` follows. -/
def ConstThen (scs : Bool) (v t rest : Bytes) : Prop :=
  nextIn scs t = some (.string v, rest) ∨ nextIn scs t = some (.number v, rest) ∨
    ∃ u r, v = ch '-' :: u ∧ readOperator t = ([ch '-'], r) ∧
      nextIn scs r = some (.number u, rest)

/-- An operator `c` before the text ends there. -/
def Apart (c : UInt8) (t : Bytes) : Prop := isOpChar c → readOperator (c :: t) = ([c], t)

section
variable {scs : Bool} {v rest : Bytes}

theorem startsNumber_of_isNumber (h : isNumber v) : startsNumber v :=
  ((Bool.and_eq_true_iff).1 h).1

theorem nextIn_isNumber (hr : Breaks rest) (h : isNumber v) :
    nextIn scs (v ++ rest) = some (.number v, rest) := by
  have hstart := startsNumber_of_isNumber h
  rcases v with _ | ⟨c, v⟩
  · cases hstart
  obtain ⟨hat, -, -, hq⟩ := atToken_startsNumber (r := v ++ rest) (readNumber_starts hstart).1
  exact nextIn_of_next hat hq (next_isNumber hr h) nofun

/-- No operator starts a number. -/
theorem noOp_isNumber (h : isNumber v) (rest : Bytes) : NoOp (v ++ rest) := by
  have hstart := startsNumber_of_isNumber h
  rcases v with _ | ⟨c, v⟩
  · cases hstart
  have hop : ∀ c, isDigit c ∨ c = ch '.' → isOpChar c = false := forall_byte (by decide +kernel)
  intro d hd
  obtain rfl := Option.some.inj hd
  exact hop _ (readNumber_starts hstart).1

/-- **A number with or without a minus sign** is a constant. -/
theorem constThen_isSigned (hr : Breaks rest) (h : isSigned v) :
    ConstThen scs v (v ++ rest) rest := by
  rw [isSigned, Bool.or_eq_true, Bool.and_eq_true] at h
  rcases h with h | ⟨hminus, h⟩
  · exact Or.inr (Or.inl (nextIn_isNumber hr h))
  · rcases v with _ | ⟨c, v⟩
    · cases hminus
    obtain rfl : c = ch '-' := Option.some.inj (beq_iff_eq.1 hminus)
    refine Or.inr (Or.inr ⟨v, v ++ rest, rfl, ?_, nextIn_isNumber hr h⟩)
    exact readOperator_cons rfl (noOp_isNumber h rest)

theorem apart_isSigned (h : isSigned v) (rest : Bytes) : Apart (ch '=') (v ++ rest) := by
  rw [isSigned, Bool.or_eq_true, Bool.and_eq_true] at h
  intro _
  rcases h with h | ⟨hminus, h⟩
  · exact readOperator_cons rfl (noOp_isNumber h rest)
  · rcases v with _ | ⟨c, v⟩
    · cases hminus
    obtain rfl : c = ch '-' := Option.some.inj (beq_iff_eq.1 hminus)
    exact readOperator_sign (noOp_isNumber h rest)

/-- A word with or without a minus sign is no constant. -/
theorem not_constThen_word {c : UInt8} {w : Bytes} (hc : isWordStart c) (hw : w.all isWordChar)
    (hr : EndsWord rest) :
    ¬ ConstThen scs (c :: w) (c :: w ++ rest) rest ∧
      ¬ ConstThen scs (ch '-' :: c :: w) (ch '-' :: c :: w ++ rest) rest := by
  have hsquote : ∀ c, isWordStart c → c ≠ squote ∧ c ≠ ch '-' ∧ isOpChar c = false :=
    forall_byte (by decide +kernel)
  obtain ⟨hq, hm, hop⟩ := hsquote c hc
  have hword : nextIn scs (c :: w ++ rest) = some (.word (fold (c :: w)), rest) :=
    nextIn_of_next (atToken_wordStart hc _) hq (next_word hc (List.all_eq_true.1 hw) hr) nofun
  have hminus : nextIn scs (ch '-' :: c :: w ++ rest) =
      some (.symbol (ch '-'), c :: w ++ rest) := by
    have hat : AtToken (ch '-' :: (c :: w ++ rest)) := by
      refine ⟨rfl, fun h => hm (Option.some.inj h.2), fun h => ?_⟩
      exact absurd h.1 (by decide)
    refine nextIn_of_next hat (by decide) ?_ nofun
    change next (ch '-' :: (c :: w ++ rest)) = _
    exact next_symbol hat (by decide) fun h => absurd h (by decide)
  constructor
  · rintro (h | h | ⟨u, r, h, -⟩)
    · rw [hword] at h
      cases h
    · rw [hword] at h
      cases h
    · exact hm (List.cons.inj h).1
  · rintro (h | h | ⟨u, r, -, hread, h⟩)
    · rw [hminus] at h
      cases h
    · rw [hminus] at h
      cases h
    · have hno : NoOp (c :: w ++ rest) := by
        intro d hd
        obtain rfl := Option.some.inj hd
        exact hop
      rw [List.cons_append, readOperator_cons rfl hno] at hread
      cases hread
      rw [hword] at h
      cases h

end

/-! ## Decimal numbers -/

/-- One digit or more. -/
def Digits (t : Bytes) : Prop := t ≠ [] ∧ ∀ c ∈ t, isDigit c

/-- Digits, perhaps with a fraction and an exponent. -/
def IsDecimal (t : Bytes) : Prop :=
  ∃ whole fraction exponent, t = whole ++ fraction ++ exponent ∧ Digits whole ∧
    (fraction = [] ∨ ∃ ds, Digits ds ∧ fraction = ch '.' :: ds) ∧
    (exponent = [] ∨ ∃ sign ds, (sign = [] ∨ sign = [ch '+'] ∨ sign = [ch '-']) ∧ Digits ds ∧
      exponent = ch 'e' :: sign ++ ds)

section
variable {t : Bytes}

theorem Digits.takeWhile {rest : Bytes} (h : Digits t) (hr : ∀ c ∈ rest.head?, isDigit c = false) :
    (t ++ rest).takeWhile isDigit = t ∧ (t ++ rest).dropWhile isDigit = rest := by
  obtain ⟨htake, hdrop⟩ := takeWhile_stops hr t
  rw [List.takeWhile_eq_self_iff.2 h.2] at htake
  rw [List.dropWhile_eq_nil_iff.2 h.2, List.nil_append] at hdrop
  exact ⟨htake, hdrop⟩

theorem Digits.isDecimal (h : Digits t) : IsDecimal t :=
  ⟨t, [], [], by rw [List.append_nil, List.append_nil], h, Or.inl rfl, Or.inl rfl⟩

theorem readExponent_self {sign ds : Bytes}
    (hsign : sign = [] ∨ sign = [ch '+'] ∨ sign = [ch '-']) (hds : Digits ds) :
    readExponent (ch 'e' :: sign ++ ds) = (ch 'e' :: sign ++ ds, []) := by
  have hlen : signLength (sign ++ ds) = sign.length := by
    rcases hsign with rfl | rfl | rfl
    · obtain ⟨d, ds, rfl⟩ := List.exists_cons_of_ne_nil hds.1
      have hd : ∀ d, isDigit d → d ≠ ch '+' ∧ d ≠ ch '-' := forall_byte (by decide +kernel)
      obtain ⟨hplus, hminus⟩ := hd d (hds.2 d List.mem_cons_self)
      simp [signLength, hplus, hminus]
    · rfl
    · rfl
  have hnil : ∀ c ∈ ([] : Bytes).head?, isDigit c = false := by
    intro c hc
    cases hc
  obtain ⟨htake, hdrop⟩ := hds.takeWhile hnil
  rw [List.append_nil] at htake hdrop
  rw [List.cons_append, readExponent, hlen, List.drop_left, List.take_left, htake, hdrop]
  exact if_pos ⟨rfl, hds.1⟩

/-- **A decimal number is a number.** -/
theorem isNumber_of_isDecimal (h : IsDecimal t) : isNumber t := by
  obtain ⟨whole, fraction, exponent, rfl, hwhole, hfraction, hexponent⟩ := h
  have hexp : ∀ c ∈ exponent.head?, c = ch 'e' := by
    rcases hexponent with rfl | ⟨sign, ds, -, -, rfl⟩
    · intro c hc
      cases hc
    · exact fun c hc => (Option.some.inj hc).symm
  have hexpdigit : ∀ c ∈ exponent.head?, isDigit c = false := by
    intro c hc
    rw [hexp c hc]
    rfl
  have hreadexp : readExponent exponent = (exponent, []) := by
    rcases hexponent with rfl | ⟨sign, ds, hsign, hds, rfl⟩
    · rfl
    · exact readExponent_self hsign hds
  have hreadfrac : readFraction (fraction ++ exponent) = (fraction, exponent) := by
    rcases hfraction with rfl | ⟨ds, hds, rfl⟩
    · rcases exponent with _ | ⟨c, exponent⟩
      · rfl
      · rw [List.nil_append, readFraction, if_neg]
        rw [hexp c rfl]
        decide
    · obtain ⟨htake, hdrop⟩ := hds.takeWhile hexpdigit
      rw [List.cons_append, readFraction, if_pos rfl, htake, hdrop]
  have hstop : ∀ c ∈ (fraction ++ exponent).head?, isDigit c = false := by
    rcases hfraction with rfl | ⟨ds, -, rfl⟩
    · exact hexpdigit
    · intro c hc
      obtain rfl := Option.some.inj hc
      rfl
  obtain ⟨htake, hdrop⟩ := hwhole.takeWhile hstop
  obtain ⟨d, ds, rfl⟩ := List.exists_cons_of_ne_nil hwhole.1
  have hd : isDigit d := hwhole.2 d List.mem_cons_self
  rw [List.append_assoc, isNumber, Bool.and_eq_true]
  constructor
  · rw [List.cons_append, startsNumber, hd, Bool.true_or]
  · simp only [readNumber, htake, hdrop, hreadfrac, hreadexp, List.isEmpty_nil]

end

end SqlLex
