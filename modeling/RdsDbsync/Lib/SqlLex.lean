/-
  The lexical rules of PostgreSQL's SQL text, for a server encoding in which the bytes
  from 128 on are never those of ASCII characters, and strings that have no escapes
  unless they start with an E.

  Comments nest and count as blanks.  Operators are read one character at a time, and
  words are not cut off.  What starts a dollar quote, a parameter, a bit string, a
  national or a Unicode string, and escapes other than a doubled backslash, are not read
  at all.
-/
import Mathlib.Data.List.TakeWhile
import RdsDbsync.Lib.Csv

namespace SqlLex

open Bytes Csv

/-! ## Characters -/

def dquote : UInt8 := 34

def squote : UInt8 := 39

def backslash : UInt8 := 92

/-- The blank, and tab to carriage return. -/
def isSpace (c : UInt8) : Bool := c == 32 || (9 ≤ c && c ≤ 13)

def isLineEnd (c : UInt8) : Bool := c == 10 || c == 13

def isDigit (c : UInt8) : Bool := ch '0' ≤ c && c ≤ ch '9'

/-- A character that can start an unquoted word. -/
def isWordStart (c : UInt8) : Bool :=
  (ch 'a' ≤ c && c ≤ ch 'z') || (ch 'A' ≤ c && c ≤ ch 'Z') || c == ch '_' || 128 ≤ c

/-- A character that can go on with it. -/
def isWordChar (c : UInt8) : Bool := isWordStart c || isDigit c || c == ch '$'

def lower (c : UInt8) : UInt8 := if ch 'A' ≤ c ∧ c ≤ ch 'Z' then c + 32 else c

/-- The text in lower case. -/
def fold (t : Bytes) : Bytes := t.map lower

/-- What holds of the 256 bytes. -/
theorem forall_byte {P : UInt8 → Prop} (h : ∀ n < 256, P (UInt8.ofNat n)) (c : UInt8) : P c := by
  simpa using h c.toNat c.toNat_lt

/-! ## Readers -/

inductive Token where
  /-- a keyword or an unquoted identifier, in lower case -/
  | word (w : Bytes)
  | quoted (t : Bytes)
  | string (t : Bytes)
  | number (t : Bytes)
  | symbol (c : UInt8)
  deriving DecidableEq

/-- Where the reader is between two tokens. -/
inductive SkipMode where
  | space
  | line
  /-- at the second character of an opening -/
  | opening (depth : ℕ)
  /-- inside `depth` comments besides this one -/
  | block (depth : ℕ)
  /-- at the second character of a closing -/
  | closing (depth : ℕ)

/-- The text at the next token; `none` if a comment is not closed. -/
def skip : SkipMode → Bytes → Option Bytes
  | .space, [] | .line, [] => some []
  | _, [] => none
  | .space, c :: r =>
    if isSpace c then skip .space r
    else if c = ch '-' ∧ r.head? = some (ch '-') then skip .line r
    else if c = ch '/' ∧ r.head? = some (ch '*') then skip (.opening 0) r
    else some (c :: r)
  | .line, c :: r => if isLineEnd c then skip .space r else skip .line r
  | .opening depth, _ :: r => skip (.block depth) r
  | .block depth, c :: r =>
    if c = ch '*' ∧ r.head? = some (ch '/') then skip (.closing depth) r
    else if c = ch '/' ∧ r.head? = some (ch '*') then skip (.opening (depth + 1)) r
    else skip (.block depth) r
  | .closing 0, _ :: r => skip .space r
  | .closing (depth + 1), _ :: r => skip (.block depth) r

/-- The text up to a `q` that is not doubled, and what follows it. -/
def readDelimited (q : UInt8) : Bytes → Option (Bytes × Bytes)
  | [] => none
  | [c] => if c = q then some ([], []) else none
  | c :: d :: r =>
    if c = q then
      if d = q then (readDelimited q r).map fun (t, r) => (q :: t, r) else some ([], d :: r)
    else (readDelimited q (d :: r)).map fun (t, r) => (c :: t, r)

/-- The rest of a string with escapes. -/
def readEscaped : Bytes → Option (Bytes × Bytes)
  | [] => none
  | [c] => if c = squote then some ([], []) else none
  | c :: d :: r =>
    if c = squote ∧ d ≠ squote then some ([], d :: r)
    else if c = squote ∨ c = backslash then
      if d = c then (readEscaped r).map fun (t, r) => (c :: t, r) else none
    else (readEscaped (d :: r)).map fun (t, r) => (c :: t, r)

/-- The digits after a point. -/
def readFraction : Bytes → Bytes × Bytes
  | [] => ([], [])
  | c :: r => if c = ch '.' then (c :: r.takeWhile isDigit, r.dropWhile isDigit) else ([], c :: r)

/-- The length of a sign. -/
def signLength (t : Bytes) : ℕ :=
  if t.head? = some (ch '+') ∨ t.head? = some (ch '-') then 1 else 0

def readExponent : Bytes → Bytes × Bytes
  | [] => ([], [])
  | c :: r =>
    let digits := (r.drop (signLength r)).takeWhile isDigit
    if lower c = ch 'e' ∧ digits ≠ [] then
      (c :: r.take (signLength r) ++ digits, (r.drop (signLength r)).dropWhile isDigit)
    else ([], c :: r)

/-- A number without sign. -/
def readNumber (t : Bytes) : Bytes × Bytes :=
  let (f, r) := readFraction (t.dropWhile isDigit)
  let (e, r) := readExponent r
  (t.takeWhile isDigit ++ f ++ e, r)

/-- The characters that start a number: a digit, or a point before one. -/
def startsNumber (t : Bytes) : Bool :=
  match t with
  | [] => false
  | c :: r => isDigit c || (c == ch '.' && r.head?.any isDigit)

/-- The token that starts with `c`. -/
def readToken (c : UInt8) (r : Bytes) : Option (Token × Bytes) :=
  if isWordStart c then
    let w := fold (c :: r.takeWhile isWordChar)
    let r := r.dropWhile isWordChar
    if r.head? = some squote ∧ w = ascii "e" then
      (readEscaped r.tail).map fun (t, r) => (.string t, r)
    else if r.head? = some squote ∧ (w = ascii "b" ∨ w = ascii "x" ∨ w = ascii "n") then none
    else if r.head? = some (ch '&') ∧ w = ascii "u" then none
    else some (.word w, r)
  else if c = dquote then
    (readDelimited dquote r).bind fun (t, r) => if t = [] then none else some (.quoted t, r)
  else if c = squote then (readDelimited squote r).map fun (t, r) => (.string t, r)
  else if startsNumber (c :: r) then
    let (t, r) := readNumber (c :: r)
    some (.number t, r)
  else if c = ch '$' then none
  else some (.symbol c, r)

/-- The next token of a text, and what follows it. -/
def next (t : Bytes) : Option (Token × Bytes) :=
  (skip .space t).bind fun
    | [] => none
    | c :: r => readToken c r

/-! ## What is skipped -/

/-- The text starts neither with a blank nor with a comment. -/
def AtToken : Bytes → Prop
  | [] => False
  | c :: r => isSpace c = false ∧ ¬ (c = ch '-' ∧ r.head? = some (ch '-')) ∧
    ¬ (c = ch '/' ∧ r.head? = some (ch '*'))

theorem skip_atToken {t : Bytes} (h : AtToken t) : skip .space t = some t := by
  cases t with
  | nil => exact h.elim
  | cons c r =>
    obtain ⟨hs, hl, hb⟩ := h
    rw [skip, if_neg (by simp [hs]), if_neg hl, if_neg hb]

/-- A character that is none of these starts a token. -/
theorem atToken_cons {c : UInt8} {r : Bytes} (hs : isSpace c = false) (hm : c ≠ ch '-')
    (hd : c ≠ ch '/') : AtToken (c :: r) := ⟨hs, fun h => hm h.1, fun h => hd h.1⟩

theorem skip_space {c : UInt8} (h : isSpace c) (t : Bytes) :
    skip .space (c :: t) = skip .space t := by
  rw [skip, if_pos h]

/-- What is skipped is at the front of the text. -/
theorem skip_suffix {mode : SkipMode} {t r : Bytes} (h : skip mode t = some r) :
    ∃ p, t = p ++ r := by
  have step : ∀ {mode : SkipMode} {c : UInt8} {t : Bytes}, (skip mode t = some r → ∃ p, t = p ++ r) →
      skip mode t = some r → ∃ p, c :: t = p ++ r := by
    intro mode c t ih h
    obtain ⟨p, rfl⟩ := ih h
    exact ⟨c :: p, rfl⟩
  induction t generalizing mode with
  | nil =>
    rcases mode with _ | _ | depth | depth | depth <;> rw [skip] at h <;>
      first
      | exact ⟨[], Option.some.inj h⟩
      | cases h
  | cons c t ih =>
    rcases mode with _ | _ | depth | depth | _ | depth <;> rw [skip] at h
    · split_ifs at h
      · exact step ih h
      · exact step ih h
      · exact step ih h
      · exact ⟨[], Option.some.inj h⟩
    · split_ifs at h <;> exact step ih h
    · exact step ih h
    · split_ifs at h <;> exact step ih h
    · exact step ih h
    · exact step ih h

/-! ## Delimited texts -/

section
variable {q : UInt8} {t r rest : Bytes}

/-- A delimited text is the doubled one, and its delimiter. -/
theorem readDelimited_eq (h : readDelimited q rest = some (t, r)) :
    rest = doubled q t ++ q :: r := by
  induction rest using readDelimited.induct q generalizing t r with
  | case1 => cases h
  | case2 => simp_all [readDelimited, doubled]
  | case3 c hc => simp [readDelimited, hc] at h
  | case4 r' ih =>
    rw [readDelimited, if_pos rfl, if_pos rfl] at h
    obtain ⟨⟨t', r''⟩, hread, heq⟩ := Option.map_eq_some_iff.1 h
    cases heq
    rw [ih hread, doubled_cons, if_pos rfl]
    rfl
  | case5 d r' hd =>
    rw [readDelimited, if_pos rfl, if_neg hd] at h
    cases h
    rfl
  | case6 c d r' hc ih =>
    rw [readDelimited, if_neg hc] at h
    obtain ⟨⟨t', r''⟩, hread, heq⟩ := Option.map_eq_some_iff.1 h
    cases heq
    rw [ih hread, doubled_cons, if_neg hc]
    rfl

/-- **A doubled text is read back.** -/
theorem readDelimited_doubled (hr : rest.head? ≠ some q) (t : Bytes) :
    readDelimited q (doubled q t ++ q :: rest) = some (t, rest) := by
  have hend : readDelimited q (q :: rest) = some ([], rest) := by
    rcases rest with _ | ⟨d, rest⟩
    · rw [readDelimited, if_pos rfl]
    · rw [readDelimited, if_pos rfl, if_neg fun h => hr (by rw [h]; rfl)]
  induction t with
  | nil => exact hend
  | cons c t ih =>
    rw [doubled_cons]
    by_cases hc : c = q
    · subst hc
      rw [if_pos rfl, List.append_assoc]
      change readDelimited c (c :: c :: (doubled c t ++ c :: rest)) = _
      rw [readDelimited, if_pos rfl, if_pos rfl, ih]
      rfl
    · rw [if_neg hc, List.append_assoc]
      obtain ⟨d, l, hl⟩ := List.exists_cons_of_ne_nil
        (List.append_ne_nil_of_right_ne_nil (doubled q t) (List.cons_ne_nil q rest))
      rw [hl] at ih ⊢
      change readDelimited q (c :: d :: l) = _
      rw [readDelimited, if_neg hc, ih]
      rfl

/-- A text between delimiters that is read as itself has none of them inside. -/
theorem not_mem_of_doubled (hr : rest.head? ≠ some q) (h : t ++ q :: rest = doubled q t ++ q :: r) :
    q ∉ t := by
  have key : ∀ (t : Bytes) (n : ℕ), t ++ q :: rest = List.replicate n q ++ (doubled q t ++ q :: r) →
      n = 0 ∧ q ∉ t := by
    intro t
    induction t with
    | nil =>
      intro n hn
      rcases n with _ | n
      · exact ⟨rfl, List.not_mem_nil⟩
      · rw [List.replicate_succ, List.cons_append, List.nil_append] at hn
        have hrest : rest = List.replicate n q ++ q :: r := (List.cons.inj hn).2
        exfalso
        rcases n with _ | n <;> exact hr (by rw [hrest]; rfl)
    | cons c t ih =>
      intro n hn
      by_cases hc : c = q
      · -- one delimiter of the text stands against two, or more
        subst hc
        rw [doubled_cons, if_pos rfl] at hn
        have hn' : t ++ c :: rest = List.replicate (n + 1) c ++ (doubled c t ++ c :: r) := by
          have hcomm : List.replicate n c ++ ([c, c] ++ doubled c t ++ c :: r) =
              c :: (List.replicate (n + 1) c ++ (doubled c t ++ c :: r)) := by
            rw [← List.cons_append, ← List.replicate_succ, List.replicate_succ', List.replicate_succ']
            simp
          exact (List.cons.inj (hn.trans hcomm)).2
        exact absurd (ih (n + 1) hn').1 (Nat.succ_ne_zero n)
      · rcases n with _ | n
        · rw [doubled_cons, if_neg hc] at hn
          obtain ⟨-, hnot⟩ := ih 0 (List.cons.inj hn).2
          refine ⟨rfl, ?_⟩
          rintro (_ | ⟨_, hmem⟩)
          · exact hc rfl
          · exact hnot hmem
        · exact absurd (List.cons.inj hn).1 hc
  exact (key t 0 h).2

end

/-! ## Strings with escapes -/

/-- The text with every quote and backslash doubled. -/
def escaped (t : Bytes) : Bytes :=
  t.flatMap fun c => if c == squote || c == backslash then [c, c] else [c]

theorem escaped_of_not_mem {t : Bytes} (h : backslash ∉ t) : escaped t = doubled squote t := by
  refine List.flatMap_congr ?_
  intro c hc
  have hne : (c == backslash) = false := by
    rw [beq_eq_false_iff_ne]
    rintro rfl
    exact h hc
  rw [hne, Bool.or_false]
  simp

/-- **An escaped text is read back.** -/
theorem readEscaped_escaped {rest : Bytes} (hr : rest.head? ≠ some squote) (t : Bytes) :
    readEscaped (escaped t ++ squote :: rest) = some (t, rest) := by
  have hend : readEscaped (squote :: rest) = some ([], rest) := by
    rcases rest with _ | ⟨d, rest⟩
    · rw [readEscaped, if_pos rfl]
    · rw [readEscaped, if_pos ⟨rfl, fun h => hr (by rw [h]; rfl)⟩]
  induction t with
  | nil => exact hend
  | cons c t ih =>
    by_cases hc : c = squote ∨ c = backslash
    · have htext : escaped (c :: t) ++ squote :: rest =
          c :: c :: (escaped t ++ squote :: rest) := by
        rw [escaped, List.flatMap_cons, if_pos (by simpa using hc)]
        rfl
      rw [htext, readEscaped, if_neg fun h => h.2 h.1, if_pos hc, if_pos rfl, ih]
      rfl
    · have htext : escaped (c :: t) ++ squote :: rest = c :: (escaped t ++ squote :: rest) := by
        rw [escaped, List.flatMap_cons, if_neg (by simpa using hc)]
        rfl
      obtain ⟨d, l, hl⟩ := List.exists_cons_of_ne_nil
        (List.append_ne_nil_of_right_ne_nil (escaped t) (List.cons_ne_nil squote rest))
      rw [htext]
      rw [hl] at ih ⊢
      rw [readEscaped, if_neg fun h => hc (Or.inl h.1), if_neg hc, ih]
      rfl

/-! ## Weights -/

/-- A character that counts: neither a blank, nor one that quoting may add. -/
def isSolid (c : UInt8) : Bool :=
  !(isSpace c || c == dquote || c == squote || c == backslash || lower c == ch 'e')

/-- How many characters of a text count. -/
def weight (t : Bytes) : ℕ := t.countP isSolid

@[simp] theorem weight_append (t r : Bytes) : weight (t ++ r) = weight t + weight r :=
  List.countP_append

theorem weight_cons (c : UInt8) (t : Bytes) : weight (c :: t) = weight [c] + weight t :=
  weight_append [c] t

theorem isSolid_lower : ∀ c, isSolid (lower c) = isSolid c := forall_byte (by decide +kernel)

@[simp] theorem weight_fold (t : Bytes) : weight (fold t) = weight t := by
  induction t with
  | nil => rfl
  | cons c t ih =>
    rw [fold, List.map_cons, weight_cons, weight_cons c, ← fold, ih]
    congr 1
    simp [weight, isSolid_lower]

/-- Doubling a character that does not count. -/
theorem weight_doubled {q : UInt8} (hq : isSolid q = false) (t : Bytes) :
    weight (doubled q t) = weight t := by
  induction t with
  | nil => rfl
  | cons c t ih =>
    rw [doubled_cons, weight_append, ih, weight_cons]
    by_cases hc : c = q
    · subst hc
      simp [weight, hq]
    · rw [if_neg hc]

theorem weight_escaped (t : Bytes) : weight (escaped t) = weight t := by
  induction t with
  | nil => rfl
  | cons c t ih =>
    rw [escaped, List.flatMap_cons, weight_append, ← escaped, ih, weight_cons]
    by_cases hc : c == squote || c == backslash
    · rw [if_pos hc]
      have hsolid : isSolid c = false := by
        rcases Bool.or_eq_true_iff.1 hc with h | h <;> rw [beq_iff_eq.1 h] <;> rfl
      simp [weight, hsolid]
    · rw [if_neg hc]

/-- A string with escapes is no heavier than the text it is read from, and shorter. -/
theorem readEscaped_le {rest t r : Bytes} (h : readEscaped rest = some (t, r)) :
    ∃ p, rest = p ++ r ∧ weight t ≤ weight p ∧ t.length < p.length := by
  induction rest using readEscaped.induct generalizing t r with
  | case1 => cases h
  | case2 =>
    simp only [readEscaped, if_true, Option.some.injEq, Prod.mk.injEq] at h
    obtain ⟨rfl, rfl⟩ := h
    exact ⟨[squote], rfl, Nat.zero_le _, Nat.one_pos⟩
  | case3 c hc => simp [readEscaped, hc] at h
  | case4 c d r' hc =>
    rw [readEscaped, if_pos hc] at h
    cases h
    exact ⟨[c], rfl, Nat.zero_le _, Nat.one_pos⟩
  | case5 c r' hc hc' ih =>
    rw [readEscaped, if_neg hc, if_pos hc', if_pos rfl] at h
    obtain ⟨⟨t', r''⟩, hread, heq⟩ := Option.map_eq_some_iff.1 h
    cases heq
    obtain ⟨p, rfl, hw, hl⟩ := ih hread
    refine ⟨c :: c :: p, rfl, ?_, ?_⟩
    · rw [weight_cons c t', weight_cons c (c :: p), weight_cons c p]
      omega
    · simp only [List.length_cons]
      omega
  | case6 c d r' hc hc' hd => simp [readEscaped, hc, hc', hd] at h
  | case7 c d r' hc hc' ih =>
    rw [readEscaped, if_neg hc, if_neg hc'] at h
    obtain ⟨⟨t', r''⟩, hread, heq⟩ := Option.map_eq_some_iff.1 h
    cases heq
    obtain ⟨p, hp, hw, hl⟩ := ih hread
    refine ⟨c :: p, by rw [hp]; rfl, ?_, ?_⟩
    · rw [weight_cons c t', weight_cons c p]
      omega
    · simp only [List.length_cons]
      omega

/-! ## Numbers -/

/-- No token goes on with the first character of the text. -/
def Breaks (rest : Bytes) : Prop :=
  ∀ c ∈ rest.head?, isWordChar c = false ∧ c ≠ dquote ∧ c ≠ squote ∧ c ≠ ch '&' ∧ c ≠ ch '.' ∧
    c ≠ ch '+' ∧ c ≠ ch '-'

instance : ∀ rest : Bytes, Decidable (Breaks rest)
  | [] => .isTrue nofun
  | c :: _ => decidable_of_iff (isWordChar c = false ∧ c ≠ dquote ∧ c ≠ squote ∧ c ≠ ch '&' ∧
      c ≠ ch '.' ∧ c ≠ ch '+' ∧ c ≠ ch '-') ⟨fun h _ hc => Option.some.inj hc ▸ h, fun h => h c rfl⟩

section
variable {p : UInt8 → Bool} {rest : Bytes}

/-- Taking while `p` stops before a text whose first character is not `p`. -/
theorem takeWhile_stops (h : ∀ c ∈ rest.head?, p c = false) (t : Bytes) :
    (t ++ rest).takeWhile p = t.takeWhile p ∧ (t ++ rest).dropWhile p = t.dropWhile p ++ rest := by
  induction t with
  | nil =>
    rcases rest with _ | ⟨c, rest⟩
    · exact ⟨rfl, rfl⟩
    · have hc : p c = false := h c rfl
      simp [hc]
  | cons c t ih =>
    rw [List.cons_append, List.takeWhile_cons, List.takeWhile_cons, List.dropWhile_cons,
      List.dropWhile_cons]
    by_cases hc : p c
    · rw [if_pos hc, if_pos hc, if_pos hc, if_pos hc, ih.1, ih.2]
      exact ⟨rfl, rfl⟩
    · rw [if_neg hc, if_neg hc, if_neg hc, if_neg hc]
      exact ⟨rfl, rfl⟩

theorem isDigit_of_not_wordChar {c : UInt8} (h : isWordChar c = false) : isDigit c = false := by
  rw [isWordChar, Bool.or_eq_false_iff, Bool.or_eq_false_iff] at h
  exact h.1.2

theorem Breaks.digit (hr : Breaks rest) : ∀ c ∈ rest.head?, isDigit c = false :=
  fun c hc => isDigit_of_not_wordChar (hr c hc).1

theorem readFraction_append (hr : Breaks rest) (t : Bytes) :
    readFraction (t ++ rest) = ((readFraction t).1, (readFraction t).2 ++ rest) := by
  rcases t with _ | ⟨c, t⟩
  · rcases rest with _ | ⟨d, rest⟩
    · rfl
    · obtain ⟨-, -, -, -, hpoint, -⟩ := hr d rfl
      change readFraction (d :: rest) = ([], d :: rest)
      rw [readFraction, if_neg hpoint]
  · rw [List.cons_append, readFraction, readFraction]
    split_ifs
    · rw [(takeWhile_stops hr.digit t).1, (takeWhile_stops hr.digit t).2]
    · rfl

theorem readExponent_append (hr : Breaks rest) (t : Bytes) :
    readExponent (t ++ rest) = ((readExponent t).1, (readExponent t).2 ++ rest) := by
  have hexp : ∀ c, isWordChar c = false → lower c ≠ ch 'e' := forall_byte (by decide +kernel)
  rcases t with _ | ⟨c, t⟩
  · rcases rest with _ | ⟨d, rest⟩
    · rfl
    · change readExponent (d :: rest) = ([], d :: rest)
      rw [readExponent, if_neg fun h => hexp d (hr d rfl).1 h.1]
  · have hsign : signLength (t ++ rest) = signLength t := by
      rcases t with _ | ⟨d, t⟩
      · rcases rest with _ | ⟨d, rest⟩
        · rfl
        · obtain ⟨-, -, -, -, -, hplus, hminus⟩ := hr d rfl
          simp [signLength, hplus, hminus]
      · rfl
    have hlen : signLength t ≤ t.length := by
      rcases t with _ | ⟨d, t⟩
      · exact le_of_eq rfl
      · rw [signLength, List.length_cons]
        split_ifs <;> omega
    rw [List.cons_append, readExponent, readExponent, hsign, List.drop_append_of_le_length hlen,
      List.take_append_of_le_length hlen, (takeWhile_stops hr.digit _).1,
      (takeWhile_stops hr.digit _).2]
    split_ifs <;> rfl

/-- **A number ends where it ends**: what follows does not change how it is read. -/
theorem readNumber_append (hr : Breaks rest) (t : Bytes) :
    readNumber (t ++ rest) = ((readNumber t).1, (readNumber t).2 ++ rest) := by
  simp only [readNumber]
  rw [(takeWhile_stops hr.digit t).1, (takeWhile_stops hr.digit t).2, readFraction_append hr,
    readExponent_append hr]

theorem readFraction_eq (t : Bytes) : t = (readFraction t).1 ++ (readFraction t).2 := by
  rcases t with _ | ⟨c, t⟩
  · rfl
  · rw [readFraction]
    split_ifs
    · rw [List.cons_append, List.takeWhile_append_dropWhile]
    · rfl

theorem readExponent_eq (t : Bytes) : t = (readExponent t).1 ++ (readExponent t).2 := by
  rcases t with _ | ⟨c, t⟩
  · rfl
  · rw [readExponent]
    split_ifs
    · dsimp only
      rw [List.cons_append, List.cons_append, List.append_assoc, List.takeWhile_append_dropWhile,
        List.take_append_drop]
    · rfl

theorem readNumber_eq (t : Bytes) : t = (readNumber t).1 ++ (readNumber t).2 := by
  simp only [readNumber, List.append_assoc]
  rw [← readExponent_eq, ← readFraction_eq, List.takeWhile_append_dropWhile]

end

theorem readNumber_starts {c : UInt8} {r : Bytes} (h : startsNumber (c :: r)) :
    (isDigit c ∨ c = ch '.') ∧ ∃ r', (readNumber (c :: r)).1 = c :: r' := by
  by_cases hc : isDigit c
  · refine ⟨Or.inl hc, ?_⟩
    simp only [readNumber, List.takeWhile_cons_of_pos hc, List.cons_append]
    exact ⟨_, rfl⟩
  · have hpoint : c = ch '.' := by
      rw [startsNumber, Bool.or_eq_true, Bool.and_eq_true] at h
      exact beq_iff_eq.1 (h.resolve_left hc).1
    refine ⟨Or.inr hpoint, ?_⟩
    simp only [readNumber, List.takeWhile_cons_of_neg hc, List.dropWhile_cons_of_neg hc,
      readFraction, if_pos hpoint, List.nil_append, List.cons_append]
    exact ⟨_, rfl⟩

/-- The text is a number without sign. -/
def isNumber (t : Bytes) : Bool := startsNumber t && (readNumber t).2.isEmpty

/-! ## Tokens -/

/-- The text `u` is a way to write the token before `r`. -/
def Token.Spelled (u r : Bytes) : Token → Prop
  | .word w => fold u = w ∧ (∃ c v, u = c :: v ∧ isWordStart c) ∧ ∀ c ∈ u, isWordChar c
  | .quoted t => t ≠ [] ∧ u = dquote :: doubled dquote t ++ [dquote]
  | .string t => weight t ≤ weight u ∧ t.length + 2 ≤ u.length
  | .number t => u = t ∧ startsNumber (u ++ r) ∧ readNumber (u ++ r) = (u, r)
  | .symbol c => u = [c]

/-- **A token is spelled by the text it is read from.** -/
theorem next_spelled {t r : Bytes} {tok : Token} (h : next t = some (tok, r)) :
    ∃ u, skip .space t = some (u ++ r) ∧ tok.Spelled u r := by
  obtain ⟨l, hskip, h⟩ := Option.bind_eq_some_iff.1 h
  rw [hskip]
  rcases l with _ | ⟨c, l⟩
  · cases h
  dsimp only at h
  rw [readToken] at h
  dsimp only at h
  have hword : c :: l = (c :: l.takeWhile isWordChar) ++ l.dropWhile isWordChar := by
    rw [List.cons_append, List.takeWhile_append_dropWhile]
  split_ifs at h with hstart hescaped hother hunicode hquoted hstring hnumber hdollar
  · -- a string with escapes
    obtain ⟨⟨t', r'⟩, hread, heq⟩ := Option.map_eq_some_iff.1 h
    cases heq
    obtain ⟨p, hp, hw, hl⟩ := readEscaped_le hread
    obtain ⟨l', hl'⟩ : ∃ l', l.dropWhile isWordChar = squote :: l' := by
      rcases hd : l.dropWhile isWordChar with _ | ⟨d, l'⟩
      · rw [hd] at hescaped
        cases hescaped.1
      · rw [hd] at hescaped
        exact ⟨l', by rw [Option.some.inj hescaped.1]⟩
    rw [hl', List.tail_cons] at hp
    refine ⟨c :: l.takeWhile isWordChar ++ squote :: p, ?_, ?_, ?_⟩
    · rw [hword, hl', hp, List.append_assoc]
      rfl
    · change weight t' ≤ _
      rw [weight_append, weight_cons squote]
      omega
    · simp only [List.length_append, List.length_cons]
      omega
  · cases h
    refine ⟨_, congrArg some hword, rfl, ⟨c, _, rfl, hstart⟩, ?_⟩
    rintro d (_ | ⟨_, hd⟩)
    · rw [isWordChar, hstart, Bool.true_or, Bool.true_or]
    · exact List.mem_takeWhile_imp hd
  · -- a quoted identifier
    obtain ⟨⟨t', r'⟩, hread, heq⟩ := Option.bind_eq_some_iff.1 h
    dsimp only at heq
    split_ifs at heq with hempty
    cases heq
    refine ⟨_, ?_, hempty, rfl⟩
    rw [readDelimited_eq hread, hquoted]
    simp
  · obtain ⟨⟨t', r'⟩, hread, heq⟩ := Option.map_eq_some_iff.1 h
    cases heq
    refine ⟨squote :: doubled squote t' ++ [squote], ?_, ?_, ?_⟩
    · rw [readDelimited_eq hread, hstring]
      simp
    · change weight t' ≤ _
      rw [weight_append, weight_cons, weight_doubled rfl]
      omega
    · rw [List.length_append, List.length_cons, length_doubled]
      simp only [List.length_cons, List.length_nil]
      omega
  · cases h
    refine ⟨_, congrArg some (readNumber_eq (c :: l)), rfl, ?_⟩
    rw [← readNumber_eq]
    exact ⟨hnumber, rfl⟩
  · cases h
    exact ⟨[c], rfl, rfl⟩

/-- How much of a token counts. -/
def Token.weight : Token → ℕ
  | .word t | .quoted t | .string t | .number t => SqlLex.weight t
  | .symbol c => SqlLex.weight [c]

theorem Token.Spelled.weight_le {tok : Token} {u r : Bytes} (h : tok.Spelled u r) :
    tok.weight ≤ SqlLex.weight u := by
  cases tok with
  | word w =>
    obtain ⟨rfl, -⟩ := h
    exact (weight_fold u).le
  | quoted t =>
    rw [h.2]
    change SqlLex.weight t ≤ _
    rw [weight_append, weight_cons, weight_doubled rfl]
    omega
  | string t => exact h.1
  | number t => rw [h.1]; exact le_rfl
  | symbol c => rw [h]; exact le_rfl

/-- A word ends before the text. -/
def EndsWord (rest : Bytes) : Prop :=
  ∀ c ∈ rest.head?, isWordChar c = false ∧ c ≠ squote ∧ c ≠ ch '&'

instance : ∀ rest : Bytes, Decidable (EndsWord rest)
  | [] => .isTrue nofun
  | c :: _ => decidable_of_iff (isWordChar c = false ∧ c ≠ squote ∧ c ≠ ch '&')
      ⟨fun h _ hc => Option.some.inj hc ▸ h, fun h => h c rfl⟩

section
variable {rest : Bytes}

theorem Breaks.endsWord (hr : Breaks rest) : EndsWord rest := fun c hc =>
  have h := hr c hc
  ⟨h.1, h.2.2.1, h.2.2.2.1⟩

theorem Breaks.head_ne_dquote (hr : Breaks rest) : rest.head? ≠ some dquote :=
  fun h => (hr dquote h).2.1 rfl

theorem Breaks.head_ne_squote (hr : Breaks rest) : rest.head? ≠ some squote :=
  fun h => (hr squote h).2.2.1 rfl

theorem atToken_wordStart {c : UInt8} (hc : isWordStart c) (r : Bytes) : AtToken (c :: r) := by
  have h : ∀ c, isWordStart c → isSpace c = false ∧ c ≠ ch '-' ∧ c ≠ ch '/' :=
    forall_byte (by decide +kernel)
  obtain ⟨hs, hm, hd⟩ := h c hc
  exact atToken_cons hs hm hd

theorem next_atToken {c : UInt8} {r : Bytes} (h : AtToken (c :: r)) :
    next (c :: r) = readToken c r := by
  rw [next, skip_atToken h]
  rfl

/-- A character that is a token of its own, unless it is a point before a digit. -/
def isSymbol (c : UInt8) : Bool :=
  !isWordStart c && c != dquote && c != squote && !isDigit c && c != ch '$'

theorem next_symbol {c : UInt8} {r : Bytes} (hat : AtToken (c :: r)) (hc : isSymbol c)
    (hpoint : c = ch '.' → r.head?.any isDigit = false) :
    next (c :: r) = some (.symbol c, r) := by
  simp only [isSymbol, Bool.and_eq_true, Bool.not_eq_true', bne_iff_ne] at hc
  obtain ⟨⟨⟨⟨hword, hdquote⟩, hsquote⟩, hdigit⟩, hdollar⟩ := hc
  have hnumber : ¬ startsNumber (c :: r) := by
    intro h
    rw [startsNumber, hdigit, Bool.false_or, Bool.and_eq_true, beq_iff_eq] at h
    rw [hpoint h.1] at h
    exact Bool.false_ne_true h.2
  rw [next_atToken hat, readToken, hword, if_neg Bool.false_ne_true, if_neg hdquote,
    if_neg hsquote, if_neg hnumber, if_neg hdollar]

/-- A blank before a token. -/
theorem next_space (t : Bytes) : next (ch ' ' :: t) = next t := by
  rw [next, skip_space rfl, next]

theorem next_word {c : UInt8} {w : Bytes} (hc : isWordStart c) (hw : ∀ d ∈ w, isWordChar d)
    (hr : EndsWord rest) : next (c :: w ++ rest) = some (.word (fold (c :: w)), rest) := by
  obtain ⟨htake, hdrop⟩ := takeWhile_stops (fun d hd => (hr d hd).1) w
  rw [List.takeWhile_eq_self_iff.2 hw] at htake
  rw [List.dropWhile_eq_nil_iff.2 hw, List.nil_append] at hdrop
  rw [List.cons_append, next_atToken (atToken_wordStart hc _), readToken, if_pos hc, htake, hdrop]
  dsimp only
  have hsquote : rest.head? ≠ some squote := fun h => (hr squote h).2.1 rfl
  have hamp : rest.head? ≠ some (ch '&') := fun h => (hr (ch '&') h).2.2 rfl
  rw [if_neg fun h => hsquote h.1, if_neg fun h => hsquote h.1, if_neg fun h => hamp h.1]

theorem next_quoted (hr : rest.head? ≠ some dquote) {t : Bytes} (ht : t ≠ []) :
    next (dquote :: doubled dquote t ++ [dquote] ++ rest) = some (.quoted t, rest) := by
  rw [List.append_assoc, List.cons_append, List.singleton_append,
    next_atToken (atToken_cons rfl (by decide) (by decide)), readToken, if_neg (by decide),
    if_pos rfl, readDelimited_doubled hr]
  exact if_neg ht

theorem next_string (hr : rest.head? ≠ some squote) (t : Bytes) :
    next (squote :: doubled squote t ++ [squote] ++ rest) = some (.string t, rest) := by
  rw [List.append_assoc, List.cons_append, List.singleton_append,
    next_atToken (atToken_cons rfl (by decide) (by decide)), readToken, if_neg (by decide),
    if_neg (by decide), if_pos rfl, readDelimited_doubled hr]
  rfl

theorem next_escaped (hr : rest.head? ≠ some squote) (t : Bytes) :
    next (ch 'E' :: squote :: escaped t ++ [squote] ++ rest) = some (.string t, rest) := by
  have hq : ¬ isWordChar squote := by decide
  rw [List.append_assoc, List.cons_append, List.cons_append, List.singleton_append,
    next_atToken (atToken_wordStart (by decide) _), readToken, if_pos (by decide),
    List.takeWhile_cons_of_neg hq, List.dropWhile_cons_of_neg hq]
  dsimp only
  rw [if_pos ⟨rfl, by decide⟩, List.tail_cons, readEscaped_escaped hr]
  rfl

theorem startsNumber_append {t : Bytes} (h : startsNumber t) (rest : Bytes) :
    startsNumber (t ++ rest) := by
  rcases t with _ | ⟨c, _ | ⟨d, t⟩⟩
  · cases h
  · rw [startsNumber, Bool.or_eq_true, Bool.and_eq_true] at h
    have hc : isDigit c := h.resolve_right fun h => by cases h.2
    rw [List.singleton_append, startsNumber, hc, Bool.true_or]
  · exact h

theorem atToken_startsNumber {c : UInt8} {r : Bytes} (hc : isDigit c ∨ c = ch '.') :
    AtToken (c :: r) ∧ isWordStart c = false ∧ c ≠ dquote ∧ c ≠ squote := by
  have h : ∀ c, isDigit c ∨ c = ch '.' → isSpace c = false ∧ c ≠ ch '-' ∧ c ≠ ch '/' ∧
      isWordStart c = false ∧ c ≠ dquote ∧ c ≠ squote := forall_byte (by decide +kernel)
  obtain ⟨hs, hm, hd, hw, hq, hsq⟩ := h c hc
  exact ⟨atToken_cons hs hm hd, hw, hq, hsq⟩

theorem next_number (hr : Breaks rest) {t : Bytes} (ht : startsNumber t) :
    next (t ++ rest) = some (.number (readNumber t).1, (readNumber t).2 ++ rest) := by
  rcases t with _ | ⟨c, t⟩
  · cases ht
  obtain ⟨hskip, hw, hq, hsq⟩ := atToken_startsNumber (r := t ++ rest) (readNumber_starts ht).1
  rw [List.cons_append, next_atToken hskip, readToken, if_neg (by simp [hw]), if_neg hq, if_neg hsq,
    ← List.cons_append, if_pos (startsNumber_append ht rest), readNumber_append hr]

/-- **A number is read as itself.** -/
theorem next_isNumber (hr : Breaks rest) {t : Bytes} (ht : isNumber t) :
    next (t ++ rest) = some (.number t, rest) := by
  obtain ⟨hstart, hend⟩ := (Bool.and_eq_true_iff).1 ht
  have hend : (readNumber t).2 = [] := List.isEmpty_iff.1 hend
  have ht : (readNumber t).1 = t := by
    conv_rhs => rw [readNumber_eq t]
    rw [hend, List.append_nil]
  rw [next_number hr hstart, ht, hend, List.nil_append]

end

end SqlLex
