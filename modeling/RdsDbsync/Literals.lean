/-
  The literals of `quote_literal_local` and `quote_literal_internal` in the text of a
  statement, where `standard_conforming_strings` is on or off.

  `literalReadsBack_iff`: what is written with escapes is one string with its value, if it
  fits the buffer in which it is made.
  `validConstant_iff`: what is written as it is, or only put between quotes, is one
  constant, except for the numbers that are none and for quotes in amounts of money.
-/
import RdsDbsync.SqlNames
import RdsDbsync.Lib.SqlConst

namespace RdsDbsync

open Bytes SqlLex

/-! ## Where literals stand -/

/-- What follows a literal in a statement. -/
def literalEnds : List Bytes :=
  [ascii ", ", ascii ");", ascii " , ", ascii " AND ", ascii " WHERE ", ascii ";"]

/-- A text that can follow a literal. -/
def FollowsLiteral (rest : Bytes) : Prop := ∃ follow ∈ literalEnds, ∃ more, rest = follow ++ more

/-- The characters before a literal. -/
def literalStarts : List UInt8 := [ch '=', ch '(', ch ' ']

section
variable {rest : Bytes}

theorem FollowsLiteral.breaks (h : FollowsLiteral rest) : Breaks rest := by
  obtain ⟨follow, hfollow, more, rfl⟩ := h
  have hall : ∀ follow ∈ literalEnds, follow ≠ [] ∧ Breaks (follow.take 1) := by decide
  obtain ⟨hne, hbreaks⟩ := hall follow hfollow
  obtain ⟨c, follow, rfl⟩ := List.exists_cons_of_ne_nil hne
  exact hbreaks.cons _

theorem FollowsLiteral.stringEnds (h : FollowsLiteral rest) : StringEnds rest := by
  refine ⟨h.breaks.head_ne_squote, ?_⟩
  obtain ⟨follow, hfollow, more, rfl⟩ := h
  simp only [literalEnds, List.mem_cons, List.not_mem_nil, or_false] at hfollow
  rcases hfollow with rfl | rfl | rfl | rfl | rfl | rfl <;> rfl

end

/-! ## Strings -/

/-- Whatever follows, the text is read as one string with the value `v`, up to its last byte. -/
def ReadsBack (v text : Bytes) : Prop :=
  ∀ scs rest, StringEnds rest → nextIn scs (text ++ rest) = some (.string v, rest)

section
variable (v : CString)

/-- The literal of `quote_literal_internal` is one string, under either setting. -/
theorem readsBack_quoteLiteral : ReadsBack v.val (quoteLiteralInternal v.val) := by
  intro scs rest hr
  rw [quoteLiteralInternal]
  by_cases hb : backslash ∈ v.val
  · rw [if_pos hb]
    exact nextIn_escaped hr v.val
  · have htext : (v.val.flatMap fun c => if sqlStrDouble c then [c, c] else [c]) =
        Csv.doubled squote v.val := escaped_of_not_mem hb
    rw [if_neg hb, htext]
    exact nextIn_doubled hr fun _ => hb

theorem nulFree_quoteLiteral : NulFree (quoteLiteralInternal v.val) := by
  intro hzero
  have hchars : ∀ c : UInt8, (0 : UInt8) ∈ (if sqlStrDouble c then [c, c] else [c]) → c = 0 := by
    intro c hc
    split_ifs at hc <;> simp at hc <;> exact hc.symm
  simp only [quoteLiteralInternal, List.mem_append, List.mem_singleton, List.mem_flatMap] at hzero
  rcases hzero with ((h | h) | ⟨c, hc, h⟩) | h
  · split_ifs at h <;> simp at h
    exact absurd h (by decide)
  · exact absurd h (by decide)
  · exact v.property (hchars c h ▸ hc)
  · exact absurd h (by decide)

theorem head_quoteLiteral : (quoteLiteralInternal v.val).head? =
    some (if backslash ∈ v.val then ch 'E' else singleQuote) := by
  rw [quoteLiteralInternal]
  by_cases hb : backslash ∈ v.val
  · rw [if_pos hb, if_pos hb]
    rfl
  · rw [if_neg hb, if_neg hb]
    rfl

end

/-- **The literal of a value reads back**: `quote_literal_local` writes one, which is that of
`quote_literal_internal`, and it is one string with the value, with the prefix E exactly if the
value has a backslash. -/
structure LiteralReadsBack (v : CString) (type b : Bytes) : Prop where
  written : quoteLiteralLocal (some v.val) (some type) = .ok b
  internal : b = quoteLiteralInternal v.val
  reads : ReadsBack v.val b
  nulFree : NulFree b
  head : b.head? = some (if backslash ∈ v.val then ch 'E' else singleQuote)

/-- **Literals read back**, of the types whose values are escaped, if and only if they fit the
buffer in which they are made. -/
theorem literalReadsBack_iff (v : CString) {type : Bytes} (hbare : type ∉ bareTypes)
    (hquoted : type ∉ plainQuotedTypes) :
    (∃ b, LiteralReadsBack v type b) ↔ v.val.length * 2 + 3 < MaxAllocSize := by
  have hwritten : quoteLiteralLocal (some v.val) (some type) =
      if MaxAllocSize ≤ v.val.length * 2 + 3 then .error .bufferOverrun
      else .ok (quoteLiteralInternal v.val) := by
    rw [quoteLiteralLocal, str, str, ok_bind, ok_bind, if_neg hbare, if_neg hquoted]
  constructor
  · rintro ⟨b, h⟩
    by_contra hlen
    have hok := h.written
    rw [hwritten, if_pos (not_lt.1 hlen)] at hok
    cases hok
  · intro hlen
    rw [if_neg (not_le.2 hlen)] at hwritten
    exact ⟨_, hwritten, rfl, readsBack_quoteLiteral v, nulFree_quoteLiteral v, head_quoteLiteral v⟩

/-- A quote and a backslash. -/
theorem literalReadsBack_quoteBackslash :
    quoteLiteralInternal (lit "'\\").val = ascii "E'''\\\\'" ∧
      ∃ b, LiteralReadsBack (lit "'\\") (ascii "text") b :=
  ⟨by decide, (literalReadsBack_iff (lit "'\\") (by decide) (by decide)).2 (by decide)⟩

/-- A text of 512 MiB has no literal. -/
theorem not_literalReadsBack_halfGiB :
    quoteLiteralLocal (some (letters (2 ^ 29)).val) (some (ascii "text")) =
        .error .bufferOverrun ∧
      ¬ ∃ b, LiteralReadsBack (letters (2 ^ 29)) (ascii "text") b := by
  have hlength : (letters (2 ^ 29)).val.length = 2 ^ 29 := List.length_replicate
  have hoverrun : quoteLiteralLocal (some (letters (2 ^ 29)).val) (some (ascii "text")) =
      .error .bufferOverrun := by
    rw [quoteLiteralLocal, str, str, ok_bind, ok_bind, if_neg (by decide), if_neg (by decide),
      hlength]
    rfl
  refine ⟨hoverrun, ?_⟩
  rintro ⟨b, h⟩
  have hok := h.written
  rw [hoverrun] at hok
  cases hok

/-! ## Numbers, dates and amounts -/

/-- The types of numbers that have values besides the numbers. -/
def floatTypes : List Bytes := [ascii "real", ascii "double precision", ascii "numeric"]

def notFinite : List Bytes := [ascii "NaN", ascii "Infinity", ascii "-Infinity"]

def signs : List Bytes := [[], [ch '-']]

/-- The characters of dates, times and intervals, in every style. -/
def isDateTimeChar (c : UInt8) : Bool := isWordChar c || (ascii " :+-./,@").contains c

/-- The texts that the output functions of the types return; an amount of money is written as the
locale asks for. -/
inductive OutputText : Bytes → Bytes → Prop
  | integer {type sign ds : Bytes}
    (type_mem : type ∈ [ascii "smallint", ascii "integer", ascii "bigint"])
    (sign_mem : sign ∈ signs) (digits : Digits ds) : OutputText type (sign ++ ds)
  | oid {ds : Bytes} (digits : Digits ds) : OutputText (ascii "oid") ds
  | finite {type sign t : Bytes} (type_mem : type ∈ floatTypes) (sign_mem : sign ∈ signs)
    (decimal : IsDecimal t) : OutputText type (sign ++ t)
  | notFinite {type t : Bytes} (type_mem : type ∈ floatTypes) (text_mem : t ∈ notFinite) :
    OutputText type t
  | dateTime {type t : Bytes} (type_mem : type ∈ plainQuotedTypes) (type_ne : type ≠ ascii "money")
    (chars : ∀ c ∈ t, isDateTimeChar c) : OutputText type t
  | money {t : Bytes} : OutputText (ascii "money") t

section
variable (scs : Bool) (type t : Bytes)

/-- **The literal is a constant**: after an equals sign, in brackets and behind a blank, it is a
string or a number, perhaps with a sign, that denotes `t`, and what stands before and behind it is
read by itself. -/
def ValidConstant : Prop :=
  ∃ b, quoteLiteralLocal (some t) (some type) = .ok b ∧ ∀ rest, FollowsLiteral rest →
    (∀ before ∈ literalStarts, Apart before (b ++ rest)) ∧ ConstThen scs t (b ++ rest) rest

/-- The value is a number, or the amount has no quote and, where strings have escapes, no
backslash. -/
def SafeUnescaped : Prop :=
  (type ∈ floatTypes → t ∉ notFinite) ∧
    (type = ascii "money" → squote ∉ t ∧ (scs = false → backslash ∉ t))

instance : Decidable (SafeUnescaped scs type t) := inferInstanceAs (Decidable (_ ∧ _))

variable {scs type t} {rest : Bytes}

theorem quoteLiteralLocal_bare (h : type ∈ bareTypes) :
    quoteLiteralLocal (some t) (some type) = .ok t := by
  rw [quoteLiteralLocal, str, str, ok_bind, ok_bind, if_pos h]

theorem quoteLiteralLocal_plainQuoted (h : type ∈ plainQuotedTypes) :
    quoteLiteralLocal (some t) (some type) = .ok (squote :: t ++ [squote]) := by
  have hdisjoint : ∀ type ∈ plainQuotedTypes, type ∉ bareTypes := by decide
  rw [quoteLiteralLocal, str, str, ok_bind, ok_bind, if_neg (hdisjoint type h), if_pos h]
  rfl

/-- Of the characters before a literal, only the equals sign is an operator. -/
theorem apart_literalStarts (h : Apart (ch '=') t) : ∀ before ∈ literalStarts, Apart before t := by
  intro before hbefore hop
  simp only [literalStarts, List.mem_cons, List.not_mem_nil, or_false] at hbefore
  rcases hbefore with rfl | rfl | rfl
  · exact h hop
  · exact absurd hop (by decide)
  · exact absurd hop (by decide)

/-- **A number is a constant.** -/
theorem validConstant_isSigned (h : type ∈ bareTypes) (ht : isSigned t) :
    ValidConstant scs type t :=
  ⟨t, quoteLiteralLocal_bare h, fun rest hr =>
    ⟨apart_literalStarts (apart_isSigned ht rest), constThen_isSigned hr.breaks ht⟩⟩

/-- **A value that is no number is a name.** -/
theorem not_validConstant_notFinite (h : type ∈ bareTypes) (ht : t ∈ notFinite) :
    ¬ ValidConstant scs type t := by
  rintro ⟨b, hb, hvalid⟩
  rw [quoteLiteralLocal_bare h] at hb
  cases hb
  have hr : FollowsLiteral (ascii ";") :=
    ⟨ascii ";", by decide, [], (List.append_nil _).symm⟩
  obtain ⟨-, hconst⟩ := hvalid (ascii ";") hr
  have hends := hr.breaks.endsWord
  simp only [notFinite, List.mem_cons, List.not_mem_nil, or_false] at ht
  rcases ht with rfl | rfl | rfl
  · exact (not_constThen_word (c := ch 'N') (w := ascii "aN") (by decide) (by decide) hends).1
      hconst
  · exact (not_constThen_word (c := ch 'I') (w := ascii "nfinity") (by decide) (by decide)
      hends).1 hconst
  · exact (not_constThen_word (c := ch 'I') (w := ascii "nfinity") (by decide) (by decide)
      hends).2 hconst

/-- **A text between quotes** is a constant if it has none inside. -/
theorem validConstant_plainQuoted (h : type ∈ plainQuotedTypes) :
    ValidConstant scs type t ↔ squote ∉ t ∧ (scs = false → backslash ∉ t) := by
  have hsquote : ∀ rest, NoOp (squote :: rest) := by
    intro rest c hc
    obtain rfl := Option.some.inj hc
    rfl
  constructor
  · rintro ⟨b, hb, hvalid⟩
    rw [quoteLiteralLocal_plainQuoted h] at hb
    cases hb
    have hr : FollowsLiteral (ascii ";") :=
      ⟨ascii ";", by decide, [], (List.append_nil _).symm⟩
    obtain ⟨-, hstring | hnumber | ⟨u, r, -, hop, -⟩⟩ := hvalid (ascii ";") hr
    · exact (nextIn_between_iff hr.stringEnds).1 hstring
    · rw [List.append_assoc, List.cons_append, nextIn_squote] at hnumber
      obtain ⟨p, -, hp⟩ := Option.map_eq_some_iff.1 hnumber
      cases hp
    · rw [List.append_assoc, List.cons_append, readOperator, opRun_noOp (hsquote _)] at hop
      cases hop
  · intro hsafe
    refine ⟨_, quoteLiteralLocal_plainQuoted h, fun rest hr => ⟨?_, ?_⟩⟩
    · exact apart_literalStarts fun _ => readOperator_cons rfl (hsquote _)
    · exact Or.inl ((nextIn_between_iff hr.stringEnds).2 hsafe)

/-- A sign before a decimal number. -/
theorem isSigned_append {sign : Bytes} (hsign : sign ∈ signs) (ht : IsDecimal t) :
    isSigned (sign ++ t) := by
  have hnumber := isNumber_of_isDecimal ht
  simp only [signs, List.mem_cons, List.not_mem_nil, or_false] at hsign
  rcases hsign with rfl | rfl
  · rw [List.nil_append, isSigned, hnumber, Bool.true_or]
  · have hsigned : (([ch '-'] ++ t).head? == some (ch '-') &&
        isNumber ([ch '-'] ++ t).tail) = true := hnumber
    rw [isSigned, hsigned, Bool.or_true]

theorem isSigned_ne_notFinite (h : isSigned t) : t ∉ notFinite := by
  have hall : ∀ t ∈ notFinite, ¬ isSigned t := by decide
  exact fun hmem => hall t hmem h

end

/-- **The values that are written without escapes are constants** exactly if they are finite and,
of money, without quotes. -/
theorem validConstant_iff {type t : Bytes} (h : OutputText type t) (scs : Bool) :
    ValidConstant scs type t ↔ SafeUnescaped scs type t := by
  have hmoney : ∀ type ∈ bareTypes, type ≠ ascii "money" := by decide
  have hfloat : ∀ type ∈ floatTypes, type ∈ bareTypes ∧ type ∉ plainQuotedTypes := by decide
  have hnumber : ∀ {type t : Bytes}, type ∈ bareTypes → isSigned t →
      (ValidConstant scs type t ↔ SafeUnescaped scs type t) := by
    intro type t htype ht
    exact iff_of_true (validConstant_isSigned htype ht)
      ⟨fun _ => isSigned_ne_notFinite ht, fun he => absurd he (hmoney type htype)⟩
  have hquoted : ∀ {type : Bytes}, type ∈ plainQuotedTypes → type ∉ floatTypes :=
    fun hq hf => (hfloat _ hf).2 hq
  cases h with
  | integer type_mem sign_mem digits =>
    have hbare : ∀ type ∈ [ascii "smallint", ascii "integer", ascii "bigint"],
        type ∈ bareTypes := by decide
    exact hnumber (hbare _ type_mem) (isSigned_append sign_mem digits.isDecimal)
  | oid digits =>
    exact hnumber (by decide) (isSigned_append (List.mem_cons_self (a := [])) digits.isDecimal)
  | finite type_mem sign_mem decimal =>
    exact hnumber (hfloat _ type_mem).1 (isSigned_append sign_mem decimal)
  | notFinite type_mem text_mem =>
    exact iff_of_false (not_validConstant_notFinite (hfloat _ type_mem).1 text_mem)
      fun hsafe => hsafe.1 type_mem text_mem
  | dateTime type_mem type_ne chars =>
    have hplain : squote ∉ t ∧ (scs = false → backslash ∉ t) :=
      ⟨fun hmem => absurd (chars _ hmem) (by decide),
        fun _ hmem => absurd (chars _ hmem) (by decide)⟩
    exact iff_of_true ((validConstant_plainQuoted type_mem).2 hplain)
      ⟨fun hf => absurd hf (hquoted type_mem), fun he => absurd he type_ne⟩
  | money =>
    have hmem : ascii "money" ∈ plainQuotedTypes := by decide
    rw [validConstant_plainQuoted hmem]
    exact ⟨fun hsafe => ⟨fun hf => absurd hf (hquoted hmem), fun _ => hsafe⟩,
      fun hsafe => hsafe.2 rfl⟩

/-- A negative number with an exponent. -/
theorem validConstant_exponent :
    OutputText (ascii "real") (ascii "-1.5e+10") ∧
      ValidConstant true (ascii "real") (ascii "-1.5e+10") := by
  have hdecimal : IsDecimal (ascii "1.5e+10") :=
    ⟨ascii "1", ascii ".5", ascii "e+10", rfl, ⟨by decide, List.all_eq_true.1 rfl⟩,
      Or.inr ⟨ascii "5", ⟨by decide, List.all_eq_true.1 rfl⟩, rfl⟩,
      Or.inr ⟨ascii "+", ascii "10", Or.inr (Or.inl rfl), ⟨by decide, List.all_eq_true.1 rfl⟩,
        rfl⟩⟩
  have hsign : ascii "-" ∈ signs := by decide
  have hout : OutputText (ascii "real") (ascii "-1.5e+10") := .finite (by decide) hsign hdecimal
  exact ⟨hout, (validConstant_iff hout true).2 (by decide)⟩

/-- A numeric that is no number. -/
theorem notConstant_nan :
    OutputText (ascii "numeric") (ascii "NaN") ∧
      quoteLiteralLocal (some (ascii "NaN")) (some (ascii "numeric")) = .ok (ascii "NaN") ∧
      nextIn true (ascii "NaN") = some (.word (ascii "nan"), []) ∧
      ¬ ValidConstant true (ascii "numeric") (ascii "NaN") :=
  ⟨.notFinite (by decide) (by decide), by decide, by decide,
    not_validConstant_notFinite (by decide) (by decide)⟩

end RdsDbsync
