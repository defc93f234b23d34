/-
  Identifiers in PostgreSQL's SQL text.

  `quoteIdentifier` is the server's `quote_identifier` with
  `quote_all_identifiers` off; the keywords that must be quoted are a parameter.
-/
import RdsDbsync.Lib.Bytes

namespace SqlText

open Bytes

/-- `a` to `z` and the underscore. -/
def isIdentStart (c : UInt8) : Bool := (ch 'a' ≤ c && c ≤ ch 'z') || c == ch '_'

/-- The characters an unquoted identifier keeps unchanged. -/
def isIdentChar (c : UInt8) : Bool := isIdentStart c || (ch '0' ≤ c && c ≤ ch '9')

/-- The names that need no quotes; `kw` tells the keywords. -/
def isPlain (kw : Bytes → Bool) (ident : Bytes) : Bool :=
  ident.head?.any isIdentStart && ident.all isIdentChar && !kw ident

/-- The text with every double quote doubled. -/
def doubleQuotes (t : Bytes) : Bytes := t.flatMap fun c => if c = ch '"' then [c, c] else [c]

/-- The identifier `ident` as SQL text. -/
def quoteIdentifier (kw : Bytes → Bool) (ident : Bytes) : Bytes :=
  if isPlain kw ident then ident else ch '"' :: doubleQuotes ident ++ [ch '"']

variable {kw : Bytes → Bool} {t : Bytes}

theorem length_le_doubleQuotes (t : Bytes) : t.length ≤ (doubleQuotes t).length := by
  induction t with
  | nil => simp [doubleQuotes]
  | cons c t ih =>
    simp only [doubleQuotes, List.flatMap_cons, List.length_append, List.length_cons] at ih ⊢
    split_ifs <;> simp only [List.length_cons, List.length_nil] <;> omega

theorem nulFree_doubleQuotes (h : NulFree t) : NulFree (doubleQuotes t) := by
  intro hm
  obtain ⟨c, hc, hm⟩ := List.mem_flatMap.1 hm
  have : (0 : UInt8) = c := by split_ifs at hm <;> simpa using hm
  exact h (this ▸ hc)

theorem quoteIdentifier_of_plain (h : isPlain kw t) : quoteIdentifier kw t = t := if_pos h

theorem quoteIdentifier_of_not_plain (h : ¬ isPlain kw t) :
    quoteIdentifier kw t = ch '"' :: doubleQuotes t ++ [ch '"'] := if_neg h

theorem nulFree_quoteIdentifier (h : NulFree t) : NulFree (quoteIdentifier kw t) := by
  unfold quoteIdentifier
  split_ifs with hp
  · exact h
  · intro hm
    simp only [List.cons_append, List.mem_cons, List.mem_append, List.mem_nil_iff, or_false] at hm
    rcases hm with h0 | hm | h0
    · exact absurd h0 (by decide)
    · exact nulFree_doubleQuotes h hm
    · exact absurd h0 (by decide)

/-- Quoting makes a name longer. -/
theorem length_lt_quoteIdentifier (h : ¬ isPlain kw t) : t.length < (quoteIdentifier kw t).length := by
  rw [quoteIdentifier_of_not_plain h]
  have := length_le_doubleQuotes t
  simp; omega

/-- A plain name is not the quoted form of any name. -/
theorem quoteIdentifier_eq_plain {p : Bytes} (hp : isPlain kw p) (h : quoteIdentifier kw t = p) :
    t = p := by
  by_cases ht : isPlain kw t
  · rwa [quoteIdentifier_of_plain ht] at h
  · rw [quoteIdentifier_of_not_plain ht] at h
    rw [← h] at hp
    simp [isPlain, isIdentStart, ch] at hp

end SqlText
