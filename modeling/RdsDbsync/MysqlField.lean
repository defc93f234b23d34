/-
  The columns of `mysql2pgsql` (`fetch_colmum_info`) and the field that
  `quote_literal_local_withoid` writes for a value.

  The values are NUL-terminated, as `strlen` measures them.  The command that
  reads the fields is `COPY .. DELIMITERS '|' with csv QUOTE ''''`.

  `textSurvives_iff`: which values of the quoted types are read back as they are.
-/
import RdsDbsync.Generator
import RdsDbsync.Lib.Csv

namespace RdsDbsync

open Bytes

/-! ## Column types -/

/-- The types of MySQL columns that `fetch_colmum_info` tells apart. -/
inductive MysqlType where
  | varchar | varString | string | bit | blob | longBlob
  | timestamp
  | date | time | datetime | year | newdate
  | short | tiny | long | longlong | int24
  | float | double
  | decimal | newdecimal
  | unsupported
deriving DecidableEq

/-- The types of the target columns. -/
inductive Oid where
  | int2 | int4 | int8 | float4 | float8 | numeric | timestamp | timestamptz | text
deriving DecidableEq

/-- The `switch` of `fetch_colmum_info`, which returns NULL if there is a column of an unsupported
type. -/
def colType : MysqlType → Option Oid
  | .varchar | .varString | .string | .bit | .blob | .longBlob => some .text
  | .timestamp => some .timestamptz
  | .date | .time | .datetime | .year | .newdate => some .timestamp
  | .short => some .int2
  | .tiny | .long | .int24 => some .int4
  | .longlong => some .int8
  | .float => some .float4
  | .double => some .float8
  | .decimal | .newdecimal => some .numeric
  | .unsupported => none

/-- The texts that `quote_literal_local_withoid` leaves out of a timestamp column. -/
def zeroDates : List Bytes :=
  [ascii "0000-00-00", ascii "00:00:00", ascii "0000-00-00 00:00:00", ascii "0000"]

/-! ## Fields -/

/-- `quote_literal_local_withoid`: what it appends.  A text that is quoted is first written to the
buffer `s`; one that is too long for `appendStringInfoSpaces`, or whose length is no `int`, is
written past its end. -/
def quoteLiteralLocalWithoid (rawstr : Bytes) : Oid → Except Fault Bytes
  | .int2 | .int4 | .int8 | .float4 | .float8 | .numeric => .ok rawstr
  | .timestamp => .ok (if zeroDates.contains rawstr then [] else rawstr)
  | .timestamptz | .text =>
    let len := toInt (rawstr.length % 0x100000000)
    if len < 0 ∨ (MaxAllocSize : ℤ) ≤ len * 2 + 3 then .error .bufferOverrun
    else .ok (quoteLiteralInternal (rawstr.take len.toNat))

/-- `|` -/
def delimiter : UInt8 := ch '|'

/-- The field that the target reads at the start of a line's rest. -/
def readField (line : Bytes) : Option (Option Bytes × Bytes) :=
  Csv.readField delimiter singleQuote line

/-- The text, blob and timestamp columns, whose values are quoted. -/
def MysqlType.Quoted (ty : MysqlType) : Prop :=
  colType ty = some .text ∨ colType ty = some .timestamptz

/-- What is appended for `v` in a column of type `ty` is read back as one field, not NULL, with
the value `v`, whatever follows the field. -/
def TextSurvives (v : Bytes) (ty : MysqlType) : Prop :=
  ∃ oid t, colType ty = some oid ∧ quoteLiteralLocalWithoid v oid = .ok t ∧
    ∀ rest, Csv.EndsField delimiter rest → readField (t ++ rest) = some (some v, rest)

/-! ## What the target reads -/

theorem flatMap_sqlStrDouble (t : Bytes) :
    (t.flatMap fun c => if sqlStrDouble c then [c, c] else [c]) =
      Csv.doubled singleQuote (Csv.doubled backslash t) := by
  induction t with
  | nil => rfl
  | cons c t ih =>
    have hne : backslash ≠ singleQuote := by decide
    rw [List.flatMap_cons, ih, Csv.doubled_cons]
    by_cases hb : c = backslash
    · subst hb
      simp [sqlStrDouble, Csv.doubled_cons, hne]
    · by_cases hq : c = singleQuote
      · subst hq
        simp [sqlStrDouble, Csv.doubled_cons, hne.symm]
      · simp [sqlStrDouble, Csv.doubled_cons, hb, hq]

/-- What the target reads where `quote_literal_internal` wrote `t`: a text without backslash is
itself; of any other the backslashes are doubled, behind an `E`. -/
theorem readField_quoteLiteralInternal (t : Bytes) {rest : Bytes}
    (hr : Csv.EndsField delimiter rest) :
    readField (quoteLiteralInternal t ++ rest) =
      some (some (if backslash ∈ t then ch 'E' :: Csv.doubled backslash t else t), rest) := by
  have hq : ¬ (singleQuote = delimiter) := by decide
  have hl : Csv.isLineEnd singleQuote = false := by decide
  rw [quoteLiteralInternal, flatMap_sqlStrDouble]
  by_cases hb : backslash ∈ t
  · have hE : ch 'E' ≠ singleQuote := by decide
    have hd : ¬ (ch 'E' = delimiter ∨ Csv.isLineEnd (ch 'E')) := by decide
    rw [if_pos hb, if_pos hb]
    have h := Csv.readField_cons_quoted hE hd hq hl hr (Csv.doubled backslash t)
    simpa [readField] using h
  · rw [if_neg hb, if_neg hb, Csv.doubled_of_not_mem hb]
    simpa [readField] using Csv.readField_quoted hq hl hr t

theorem toInt_mod_of_lt {n : ℕ} (h : n < 2 ^ 31) : toInt (n % 0x100000000) = n := by
  rw [Nat.mod_eq_of_lt (by omega), toInt, if_pos h]

theorem quoteLiteralLocalWithoid_quoted {v : Bytes} {ty : MysqlType} (hq : ty.Quoted) :
    ∃ oid, colType ty = some oid ∧ quoteLiteralLocalWithoid v oid =
      if toInt (v.length % 0x100000000) < 0 ∨
          (MaxAllocSize : ℤ) ≤ toInt (v.length % 0x100000000) * 2 + 3 then .error .bufferOverrun
      else .ok (quoteLiteralInternal (v.take (toInt (v.length % 0x100000000)).toNat)) := by
  rcases hq with h | h
  · exact ⟨_, h, rfl⟩
  · exact ⟨_, h, rfl⟩

/-- A text that is not quoted as a whole is not read back: what is read is shorter. -/
theorem not_textSurvives_of_long {v : Bytes} {ty : MysqlType} (hq : ty.Quoted)
    (hl : MaxAllocSize ≤ v.length * 2 + 3) : ¬ TextSurvives v ty := by
  rintro ⟨oid, t, hoid, ht, hread⟩
  obtain ⟨oid', hoid', heq⟩ := quoteLiteralLocalWithoid_quoted (v := v) hq
  obtain rfl : oid = oid' := Option.some.inj (hoid.symm.trans hoid')
  rw [heq] at ht
  split_ifs at ht with hlen
  obtain rfl := Except.ok.inj ht
  rw [not_or, not_lt, not_le] at hlen
  obtain ⟨h0, hmax⟩ := hlen
  set n := (toInt (v.length % 0x100000000)).toNat with hn
  -- the wrapped length is a small number, so the length is at least 2 ^ 32
  have hsmall : n * 2 + 3 < MaxAllocSize := by omega
  have hlong : 0x100000000 ≤ v.length := by
    by_contra hlt
    rw [not_le] at hlt
    rw [Nat.mod_eq_of_lt hlt] at hn h0 hmax
    unfold toInt at hn h0 hmax
    split_ifs at hn h0 hmax <;> omega
  have hval := hread [] (by intro c hc; cases hc)
  rw [readField_quoteLiteralInternal _ (by intro c hc; cases hc)] at hval
  have hlen : ∀ w : Bytes, w.length ≤ n → (if backslash ∈ w then ch 'E' :: Csv.doubled backslash w
      else w).length ≤ 2 * n + 1 := by
    intro w hw
    have := List.count_le_length (a := backslash) (l := w)
    split_ifs
    · rw [List.length_cons, Csv.length_doubled]
      omega
    · omega
  have hle := hlen (v.take n) (by simp)
  simp only [Option.some.injEq, Prod.mk.injEq, and_true] at hval
  rw [hval] at hle
  have : MaxAllocSize = 0x3fffffff := rfl
  omega

/-- **A text survives the CSV field exactly if it has no backslash**, as long as it fits the
buffer in which it is quoted. -/
theorem textSurvives_iff (v : CString) (ty : MysqlType) (hq : ty.Quoted) :
    TextSurvives v ty ↔ backslash ∉ v.1 ∧ v.1.length * 2 + 3 < MaxAllocSize := by
  by_cases hl : MaxAllocSize ≤ v.1.length * 2 + 3
  · constructor
    · intro h
      exact absurd h (not_textSurvives_of_long hq hl)
    · rintro ⟨-, h⟩
      omega
  · have hlt : v.1.length * 2 + 3 < MaxAllocSize := by omega
    have hmax : MaxAllocSize = 0x3fffffff := rfl
    obtain ⟨oid, hoid, heq⟩ := quoteLiteralLocalWithoid_quoted (v := v.1) hq
    rw [toInt_mod_of_lt (by omega), if_neg (by omega), Int.toNat_natCast, List.take_length] at heq
    constructor
    · rintro ⟨oid', t, hoid', ht, hread⟩
      obtain rfl : oid = oid' := Option.some.inj (hoid.symm.trans hoid')
      obtain rfl := Except.ok.inj (heq.symm.trans ht)
      refine ⟨?_, hlt⟩
      intro hb
      have hval := hread [] (by intro c hc; cases hc)
      rw [readField_quoteLiteralInternal _ (by intro c hc; cases hc), if_pos hb] at hval
      simp only [Option.some.injEq, Prod.mk.injEq, and_true] at hval
      have := congrArg List.length hval
      rw [List.length_cons, Csv.length_doubled] at this
      omega
    · rintro ⟨hb, -⟩
      refine ⟨oid, _, hoid, heq, ?_⟩
      intro rest hr
      rw [readField_quoteLiteralInternal _ hr, if_neg hb]

/-- The empty text of a text column, and `a'|b` with a line end in a blob column, survive. -/
theorem textSurvives_samples : TextSurvives [] .varchar ∧
    TextSurvives (ascii "a'|\nb") .blob :=
  ⟨(textSurvives_iff ⟨[], by decide⟩ .varchar (.inl rfl)).2 (by decide),
    (textSurvives_iff ⟨ascii "a'|\nb", by decide⟩ .blob (.inl rfl)).2 (by decide)⟩

/-- The text `\` of a text column: `E'\\'` is appended, and read as `E\\`. -/
theorem backslash_changed : NulFree (ascii "\\") ∧ ¬ TextSurvives (ascii "\\") .varchar ∧
    quoteLiteralLocalWithoid (ascii "\\") .text = .ok (ascii "E'\\\\'") ∧
    readField (ascii "E'\\\\'") = some (some (ascii "E\\\\"), []) := by
  have hread : readField (ascii "E'\\\\'") = some (some (ascii "E\\\\"), []) := by decide
  refine ⟨by decide, ?_, rfl, hread⟩
  rintro ⟨oid, t, hoid, ht, hsurv⟩
  obtain rfl : Oid.text = oid := Option.some.inj hoid
  obtain rfl : ascii "E'\\\\'" = t := Except.ok.inj ht
  have := hsurv [] (by intro c hc; cases hc)
  rw [List.append_nil, hread] at this
  exact absurd this (by decide)

end RdsDbsync
