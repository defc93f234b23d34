/-
  Reading one field of a CSV line, as PostgreSQL's COPY .. CSV does when the
  escape character is the quote character.

  A quoted section may start and end anywhere in a field.  Inside it a doubled
  quote stands for one quote, and delimiters and line ends are ordinary.  Every
  other character, the backslash included, stands for itself.
-/
import RdsDbsync.Lib.Bytes

namespace Csv

open Bytes

/-- A field as read: its text, and whether some part of it was quoted. -/
structure Field where
  text : Bytes
  quoted : Bool
deriving DecidableEq

/-- Where the reader is in a field: outside a quoted section, inside one, or behind a quote inside
one. -/
inductive Mode where
  | bare
  | quoted
  | behindQuote
deriving DecidableEq

/-- `\n` and `\r` -/
def isLineEnd (c : UInt8) : Bool := c == 10 || c == 13

def Field.cons (c : UInt8) (f : Field) : Field := { f with text := c :: f.text }

def Field.quote (f : Field) : Field := { f with quoted := true }

section
variable (delim quote : UInt8)

/-- The field that starts here, with what follows it; `none` if a quoted section is not closed. -/
def scan : Mode → Bytes → Option (Field × Bytes)
  | .quoted, [] => none
  | _, [] => some (⟨[], false⟩, [])
  | .quoted, c :: cs =>
    if c = quote then scan .behindQuote cs
    else (scan .quoted cs).map fun (f, rest) => (f.cons c, rest)
  | mode, c :: cs =>
    if mode = .behindQuote ∧ c = quote then
      (scan .quoted cs).map fun (f, rest) => (f.cons c, rest)
    else if c = quote then (scan .quoted cs).map fun (f, rest) => (f.quote, rest)
    else if c = delim ∨ isLineEnd c then some (⟨[], false⟩, c :: cs)
    else (scan .bare cs).map fun (f, rest) => (f.cons c, rest)

/-- The value of a field: NULL if it is empty and nothing of it was quoted. -/
def Field.value (f : Field) : Option Bytes :=
  if f.quoted = false ∧ f.text = [] then none else some f.text

/-- A field's value, with what follows the field. -/
def readField (line : Bytes) : Option (Option Bytes × Bytes) :=
  (scan delim quote .bare line).map fun (f, rest) => (f.value, rest)

/-- What can follow a field: nothing, a delimiter or a line end. -/
def EndsField (rest : Bytes) : Prop := ∀ c ∈ rest.head?, c = delim ∨ isLineEnd c

end

/-! ## Quoted texts -/

/-- The text with every `q` doubled. -/
def doubled (q : UInt8) (t : Bytes) : Bytes := t.flatMap fun c => if c = q then [c, c] else [c]

theorem doubled_cons (q c : UInt8) (t : Bytes) :
    doubled q (c :: t) = (if c = q then [c, c] else [c]) ++ doubled q t := rfl

theorem doubled_of_not_mem {q : UInt8} {t : Bytes} (h : q ∉ t) : doubled q t = t := by
  induction t with
  | nil => rfl
  | cons c t ih =>
    rw [List.mem_cons, not_or] at h
    rw [doubled_cons, if_neg (Ne.symm h.1), ih h.2, List.singleton_append]

theorem length_doubled (q : UInt8) (t : Bytes) : (doubled q t).length = t.length + t.count q := by
  induction t with
  | nil => rfl
  | cons c t ih =>
    rw [doubled_cons, List.length_append, ih, List.length_cons, List.count_cons]
    by_cases hc : c = q
    · simp only [if_pos hc, beq_iff_eq, List.length_cons, List.length_nil]
      omega
    · simp only [if_neg hc, beq_iff_eq, List.length_cons, List.length_nil]
      omega

variable {delim quote : UInt8} {rest : Bytes}

theorem scan_endsField {mode : Mode} (hmode : mode ≠ .quoted) (hq : ¬ (quote = delim))
    (hl : isLineEnd quote = false) (hr : EndsField delim rest) :
    scan delim quote mode rest = some (⟨[], false⟩, rest) := by
  cases rest with
  | nil => cases mode <;> first | rfl | exact absurd rfl hmode
  | cons c cs =>
    have hc : c = delim ∨ isLineEnd c := hr c rfl
    have hcq : c ≠ quote := by
      rintro rfl
      rcases hc with h | h
      · exact hq h
      · rw [hl] at h
        exact Bool.false_ne_true h
    cases mode with
    | quoted => exact absurd rfl hmode
    | bare => simp only [scan, reduceCtorEq, false_and, if_false, if_neg hcq, if_pos hc]
    | behindQuote => simp only [scan, true_and, if_neg hcq, if_pos hc]

/-- Inside a quoted section, doubled quotes give back the text. -/
theorem scan_quoted (t : Bytes) :
    scan delim quote .quoted (doubled quote t ++ quote :: rest) =
      (scan delim quote .behindQuote rest).map fun (f, rest) =>
        ({ f with text := t ++ f.text }, rest) := by
  induction t with
  | nil => simp [doubled, scan]
  | cons c t ih =>
    rw [doubled_cons]
    by_cases hc : c = quote
    · subst hc
      simp only [if_pos, List.cons_append, List.nil_append, scan, true_and]
      rw [ih, Option.map_map]
      rfl
    · simp only [if_neg hc, List.cons_append, List.nil_append, scan]
      rw [ih, Option.map_map]
      rfl

/-- **A quoted text is read back as itself**, and never as NULL. -/
theorem readField_quoted (hq : ¬ (quote = delim)) (hl : isLineEnd quote = false)
    (hr : EndsField delim rest) (t : Bytes) :
    readField delim quote (quote :: doubled quote t ++ quote :: rest) = some (some t, rest) := by
  have hb : scan delim quote .behindQuote rest = some (⟨[], false⟩, rest) :=
    scan_endsField nofun hq hl hr
  simp [readField, scan, scan_quoted, hb, Field.quote, Field.value]

/-- Characters before a quoted section belong to the text. -/
theorem readField_cons_quoted {c : UInt8} (hc : c ≠ quote) (hd : ¬ (c = delim ∨ isLineEnd c))
    (hq : ¬ (quote = delim)) (hl : isLineEnd quote = false) (hr : EndsField delim rest)
    (t : Bytes) :
    readField delim quote (c :: quote :: doubled quote t ++ quote :: rest) =
      some (some (c :: t), rest) := by
  have hb : scan delim quote .behindQuote rest = some (⟨[], false⟩, rest) :=
    scan_endsField nofun hq hl hr
  simp [readField, scan, hc, hd, scan_quoted, hb, Field.quote, Field.cons, Field.value]

end Csv
