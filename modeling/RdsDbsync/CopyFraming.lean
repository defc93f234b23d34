/-
  The rows of a table in the COPY stream of `mysql2pgsql` (`mysql2pgsql_copy_data`): the
  text that is appended for each row, the payloads in which it is sent, and the records
  that the target reads.

  All sends succeed, and the buffer `query` never runs out of memory; it was reset behind
  the COPY command.

  `framed_iff`: when each row is one record, field by field.
-/
import RdsDbsync.Lib.CsvText
import RdsDbsync.MysqlField
import RdsDbsync.RowCounts

namespace RdsDbsync

open Bytes

/-! ## The stream -/

/-- The types whose values are quoted. -/
def Oid.isQuoted : Oid → Bool
  | .timestamptz | .text => true
  | .int2 | .int4 | .int8 | .float4 | .float8 | .numeric | .timestamp => false

/-- What is assumed of the texts of numbers and timestamps: something, and nothing that CSV treats
specially. -/
def PlainText (v : Bytes) : Prop :=
  v ≠ [] ∧ ∀ c ∈ v, c ≠ singleQuote ∧ c ≠ delimiter ∧ Csv.isLineEnd c = false

/-- A result set: the target types of its columns, and its rows. -/
structure MysqlResult where
  types : List Oid
  rows : List (List (Option CString))
  length_eq : ∀ row ∈ rows, row.length = types.length
  plainText : ∀ row ∈ rows, ∀ c ∈ types.zip row, ∀ v ∈ c.2, c.1.isQuoted = false → PlainText v.val

/-- What is appended for a cell. -/
def writeCell (oid : Oid) : Option CString → Except Fault Bytes
  | none => .ok []
  | some v => quoteLiteralLocalWithoid v.val oid

/-- The loop over the cells of a row from `i` on. -/
def appendCells : (i : ℕ) → List (Oid × Option CString) → Except Fault Bytes
  | _, [] => .ok []
  | i, (oid, cell) :: cells => do
    let field ← writeCell oid cell
    let rest ← appendCells (i + 1) cells
    .ok ((if i ≠ 0 then [delimiter] else []) ++ field ++ rest)

/-- The buffer `query`, the payloads that were sent, and `row_count`, an `int`. -/
structure CopyBuffer where
  query : Bytes := []
  payloads : List Bytes := []
  rowCount : ℤ := 0

/-- A row is fetched; the buffer is sent if it is full. -/
def fetchRow (types : List Oid) (bufferSize : ℕ) (s : CopyBuffer) (row : List (Option CString)) :
    Except Fault CopyBuffer := do
  let cells ← appendCells 0 (types.zip row)
  let query := s.query ++ cells ++ ascii "\n"
  let rowCount := (s.rowCount + 1).bmod (2 ^ 32)
  if bufferSize ≤ query.length then
    .ok { query := [], payloads := s.payloads ++ [query], rowCount }
  else .ok { s with query, rowCount }

def fetchRows (types : List Oid) (bufferSize : ℕ) :
    List (List (Option CString)) → CopyBuffer → Except Fault CopyBuffer
  | [], s => .ok s
  | row :: rows, s => do fetchRows types bufferSize rows (← fetchRow types bufferSize s row)

/-- All rows are fetched, and what is left in the buffer is sent. -/
def copyData (result : MysqlResult) (bufferSize : ℕ) : Except Fault CopyBuffer := do
  let s ← fetchRows result.types bufferSize result.rows {}
  if 0 < s.query.length then .ok { s with query := [], payloads := s.payloads ++ [s.query] }
  else .ok s

/-! ## The property -/

/-- A cell that is NULL, or a zero date that is recognised. -/
def sentNull (oid : Oid) : Option CString → Prop
  | none => True
  | some v => oid = .timestamp ∧ v.val ∈ zeroDates

/-- The field that a cell becomes: an unquoted one, or a quoted one with the text that
`quote_literal_internal` makes of it. -/
def cellField : Oid × Option CString → Csv.Field
  | (_, none) => ⟨[], false⟩
  | (oid, some v) =>
    if oid.isQuoted then
      let t := v.val.take (toInt (v.val.length % 0x100000000)).toNat
      ⟨if backslash ∈ t then ch 'E' :: Csv.doubled backslash t else t, true⟩
    else if oid = .timestamp ∧ zeroDates.contains v.val then ⟨[], false⟩
    else ⟨v.val, false⟩

/-- **The record of a row**: its cells' fields in their order, as many as there are columns; a field
is unquoted and empty exactly if the cell is sent as NULL. -/
structure RowRecord (types : List Oid) (row : List (Option CString)) (record : List Csv.Field) :
    Prop where
  fields : record = (types.zip row).map cellField
  length_eq : record.length = types.length
  null_iff : ∀ (i : ℕ) (oid : Oid) (cell : Option CString) (field : Csv.Field),
    types[i]? = some oid → row[i]? = some cell → record[i]? = some field →
    (field = ⟨[], false⟩ ↔ sentNull oid cell)

/-- **The payloads are the rows, one by one**, and `row_count` is their number. -/
def Framed (result : MysqlResult) (bufferSize : ℕ) : Prop :=
  ∃ s, copyData result bufferSize = .ok s ∧ s.rowCount = result.rows.length ∧
    ∃ records, Csv.records delimiter singleQuote result.types.length s.payloads.flatten =
        some records ∧ List.Forall₂ (RowRecord result.types) result.rows records

/-- The text can be quoted in the buffer `s`. -/
def FitsBuffer (v : Bytes) : Prop :=
  0 ≤ toInt (v.length % 0x100000000) ∧ toInt (v.length % 0x100000000) * 2 + 3 < MaxAllocSize

/-- All texts can be quoted; the rows can be counted; and no row of a single number is the marker
for the end of the data. -/
structure Sendable (result : MysqlResult) : Prop where
  texts : ∀ row ∈ result.rows, ∀ c ∈ result.types.zip row, ∀ v ∈ c.2, c.1.isQuoted →
    FitsBuffer v.val
  count : result.rows.length < 2 ^ 31
  marker : ∀ row ∈ result.rows, ∀ oid v, result.types.zip row = [(oid, some v)] →
    oid.isQuoted = false → v.val ≠ Csv.endMarker

/-! ## A row -/

theorem renders_quoteLiteralInternal (t : Bytes) :
    Csv.Renders delimiter singleQuote (quoteLiteralInternal t)
      ⟨if backslash ∈ t then ch 'E' :: Csv.doubled backslash t else t, true⟩ := by
  have hq : ¬ (singleQuote = delimiter) := by decide
  have hl : Csv.isLineEnd singleQuote = false := by decide
  rw [quoteLiteralInternal, flatMap_sqlStrDouble]
  by_cases hb : backslash ∈ t
  · rw [if_pos hb, if_pos hb]
    exact Csv.renders_cons_quoted (by decide) (by decide) (by decide) hq hl
      (Csv.doubled backslash t)
  · rw [if_neg hb, if_neg hb, Csv.doubled_of_not_mem hb]
    exact Csv.renders_quoted hq hl t

theorem Oid.isQuoted_iff {oid : Oid} : oid.isQuoted ↔ oid = .timestamptz ∨ oid = .text := by
  cases oid <;> decide

theorem quoteLiteralLocalWithoid_fits {v : Bytes} {oid : Oid} (hq : oid.isQuoted)
    (hfits : FitsBuffer v) :
    quoteLiteralLocalWithoid v oid =
      .ok (quoteLiteralInternal (v.take (toInt (v.length % 0x100000000)).toNat)) := by
  obtain ⟨h0, hmax⟩ := hfits
  rcases Oid.isQuoted_iff.1 hq with rfl | rfl
  · exact if_neg (by omega)
  · exact if_neg (by omega)

theorem quoteLiteralLocalWithoid_not_fits {v : Bytes} {oid : Oid} (hq : oid.isQuoted)
    (hfits : ¬ FitsBuffer v) : quoteLiteralLocalWithoid v oid = .error .bufferOverrun := by
  unfold FitsBuffer at hfits
  rcases Oid.isQuoted_iff.1 hq with rfl | rfl
  · exact if_pos (by omega)
  · exact if_pos (by omega)

theorem quoteLiteralLocalWithoid_bare {v : Bytes} {oid : Oid} (hq : oid.isQuoted = false) :
    quoteLiteralLocalWithoid v oid =
      .ok (if oid = .timestamp ∧ v ∈ zeroDates then [] else v) := by
  cases oid with
  | timestamptz | text => exact absurd hq Bool.true_eq_false_eq_False
  | int2 | int4 | int8 | float4 | float8 | numeric | timestamp => simp [quoteLiteralLocalWithoid]

theorem cellField_bare {v : CString} {oid : Oid} (hq : oid.isQuoted = false) :
    cellField (oid, some v) =
      if oid = .timestamp ∧ v.val ∈ zeroDates then ⟨[], false⟩ else ⟨v.val, false⟩ := by
  rw [cellField, if_neg (Bool.eq_false_iff.1 hq)]
  simp only [List.contains_iff_mem]

/-- **The text of a cell is read back as its field**, if it could be quoted. -/
theorem writeCell_renders {c : Oid × Option CString}
    (hplain : ∀ v ∈ c.2, c.1.isQuoted = false → PlainText v.val)
    (hfits : ∀ v ∈ c.2, c.1.isQuoted → FitsBuffer v.val) :
    ∃ t, writeCell c.1 c.2 = .ok t ∧ Csv.Renders delimiter singleQuote t (cellField c) := by
  have hq : ¬ (singleQuote = delimiter) := by decide
  have hl : Csv.isLineEnd singleQuote = false := by decide
  have hnil : Csv.Renders delimiter singleQuote [] ⟨[], false⟩ :=
    Csv.renders_bare hq hl (by intro c hc; cases hc)
  obtain ⟨oid, _ | v⟩ := c
  · exact ⟨[], rfl, hnil⟩
  by_cases hquoted : oid.isQuoted
  · refine ⟨_, quoteLiteralLocalWithoid_fits hquoted (hfits v rfl hquoted), ?_⟩
    rw [cellField, if_pos hquoted]
    exact renders_quoteLiteralInternal _
  · have hbare : oid.isQuoted = false := Bool.eq_false_iff.2 hquoted
    refine ⟨_, quoteLiteralLocalWithoid_bare hbare, ?_⟩
    rw [cellField_bare hbare]
    by_cases hzero : oid = .timestamp ∧ v.val ∈ zeroDates
    · rw [if_pos hzero, if_pos hzero]
      exact hnil
    · rw [if_neg hzero, if_neg hzero]
      exact Csv.renders_bare hq hl (hplain v rfl hbare).2

/-- A field is unquoted and empty exactly if its cell is sent as NULL. -/
theorem cellField_eq_null_iff {oid : Oid} {cell : Option CString}
    (hplain : ∀ v ∈ cell, oid.isQuoted = false → PlainText v.val) :
    cellField (oid, cell) = ⟨[], false⟩ ↔ sentNull oid cell := by
  rcases cell with _ | v
  · exact iff_of_true rfl trivial
  by_cases hquoted : oid.isQuoted
  · rw [cellField, if_pos hquoted]
    apply iff_of_false
    · intro h
      exact Bool.true_eq_false_eq_False (congrArg Csv.Field.quoted h)
    · rintro ⟨rfl, -⟩
      cases hquoted
  · have hbare : oid.isQuoted = false := Bool.eq_false_iff.2 hquoted
    have hne : v.val ≠ [] := (hplain v rfl hbare).1
    rw [cellField_bare hbare]
    by_cases hzero : oid = .timestamp ∧ v.val ∈ zeroDates
    · rw [if_pos hzero]
      exact iff_of_true rfl hzero
    · rw [if_neg hzero]
      exact iff_of_false (fun h => hne (congrArg Csv.Field.text h)) hzero

/-- The row's texts stand between delimiters. -/
theorem appendCells_ok {cells : List (Oid × Option CString)} {ts : List Bytes}
    (h : List.Forall₂ (fun c t => writeCell c.1 c.2 = .ok t) cells ts) (i : ℕ) :
    appendCells i cells = .ok
      ((if i ≠ 0 ∧ cells ≠ [] then [delimiter] else []) ++ [delimiter].intercalate ts) := by
  induction h generalizing i with
  | nil => simp [appendCells]
  | @cons c t cells ts hc hts ih =>
    rw [appendCells, hc, ok_bind, ih, ok_bind]
    have hcons : c :: cells ≠ [] := List.cons_ne_nil c cells
    rcases hts with _ | ⟨hd, hts⟩
    · simp
    · simp [List.intercalate_cons_of_ne_nil]

/-- Every cell of a row was written. -/
theorem writeCell_of_appendCells {cells : List (Oid × Option CString)} {i : ℕ} {t : Bytes}
    (h : appendCells i cells = .ok t) : ∀ c ∈ cells, ∃ field, writeCell c.1 c.2 = .ok field := by
  induction cells generalizing i t with
  | nil =>
    intro c hc
    cases hc
  | cons c cells ih =>
    obtain ⟨field, hfield, h⟩ := bind_eq_ok h
    obtain ⟨rest, hrest, -⟩ := bind_eq_ok h
    rintro d (_ | ⟨_, hd⟩)
    · exact ⟨field, hfield⟩
    · exact ih hrest d hd

/-- The text of a row: its cells' texts between delimiters, each of which is read back. -/
structure RowText (cells : List (Oid × Option CString)) (ts : List Bytes) : Prop where
  written : List.Forall₂ (fun c t => writeCell c.1 c.2 = .ok t) cells ts
  renders : List.Forall₂ (Csv.Renders delimiter singleQuote) ts (cells.map cellField)

theorem forall_mem_iff_of_forall₂ {α β : Type} {R : α → β → Prop} {l : List α} {l' : List β}
    (h : List.Forall₂ R l l') {P : α → Prop} {Q : β → Prop} (hR : ∀ a b, R a b → (P a ↔ Q b)) :
    (∀ a ∈ l, P a) ↔ ∀ b ∈ l', Q b := by
  induction h with
  | nil => exact iff_of_true (List.forall_mem_nil P) (List.forall_mem_nil Q)
  | cons hab _ ih => rw [List.forall_mem_cons, List.forall_mem_cons, hR _ _ hab, ih]

theorem exists_rowText {cells : List (Oid × Option CString)}
    (hplain : ∀ c ∈ cells, ∀ v ∈ c.2, c.1.isQuoted = false → PlainText v.val)
    (hfits : ∀ c ∈ cells, ∀ v ∈ c.2, c.1.isQuoted → FitsBuffer v.val) :
    ∃ ts, RowText cells ts := by
  have hcells : ∀ c ∈ cells, ∃ t, writeCell c.1 c.2 = .ok t ∧
      Csv.Renders delimiter singleQuote t (cellField c) :=
    fun c hc => writeCell_renders (hplain c hc) (hfits c hc)
  obtain ⟨ts, hts⟩ := exists_forall₂_iff.2 hcells
  refine ⟨ts, hts.imp fun c t h => h.1, ?_⟩
  rw [List.forall₂_map_right_iff]
  exact (hts.imp fun c t h => h.2).flip

section
variable {cells : List (Oid × Option CString)} {ts : List Bytes}

/-- **A row is one line**, whatever its texts contain. -/
theorem RowText.passes (h : RowText cells ts) :
    Csv.Passes singleQuote ([delimiter].intercalate ts) := by
  apply Csv.passes_intercalate (by decide) (by decide)
  exact (forall_mem_iff_of_forall₂ h.renders fun _ _ ht => iff_of_true ht.passes trivial).2
    fun _ _ => trivial

theorem RowText.record (h : RowText cells ts) :
    Csv.record delimiter singleQuote cells.length ([delimiter].intercalate ts) =
      some (cells.map cellField) := by
  rw [h.written.length_eq]
  exact Csv.record_intercalate h.renders

/-- The text of a quoted cell is not the marker. -/
theorem quoteLiteralInternal_ne_endMarker (t : Bytes) :
    quoteLiteralInternal t ≠ Csv.endMarker := by
  intro h
  rw [quoteLiteralInternal] at h
  split_ifs at h
  · have hhead : some (ch 'E') = some backslash := congrArg List.head? h
    exact absurd hhead (by decide)
  · have hhead : some singleQuote = some backslash := congrArg List.head? h
    exact absurd hhead (by decide)

/-- A row is the marker if its only cell is. -/
theorem RowText.eq_endMarker_iff (h : RowText cells ts) :
    [delimiter].intercalate ts = Csv.endMarker ↔
      ∃ oid v, cells = [(oid, some v)] ∧ oid.isQuoted = false ∧ v.val = Csv.endMarker := by
  constructor
  · intro heq
    rcases h.written with _ | ⟨hc, hcells⟩
    · exact absurd heq (by decide)
    rename_i c t cells ts
    rcases hcells with _ | ⟨hd, hcells⟩
    · rw [List.intercalate_singleton] at heq
      subst heq
      obtain ⟨oid, _ | v⟩ := c
      · exact absurd (Except.ok.inj hc) (by decide)
      by_cases hquoted : oid.isQuoted
      · by_cases hfits : FitsBuffer v.val
        · have := hc.symm.trans (quoteLiteralLocalWithoid_fits hquoted hfits)
          exact absurd (Except.ok.inj this).symm (quoteLiteralInternal_ne_endMarker _)
        · have := hc.symm.trans (quoteLiteralLocalWithoid_not_fits hquoted hfits)
          cases this
      · have hbare : oid.isQuoted = false := Bool.eq_false_iff.2 hquoted
        have := Except.ok.inj (hc.symm.trans (quoteLiteralLocalWithoid_bare hbare))
        split_ifs at this
        · exact absurd this (by decide)
        · exact ⟨oid, v, rfl, hbare, this.symm⟩
    · -- there is a delimiter between two cells
      rename_i d u cells us
      have hmem : delimiter ∈ Csv.endMarker := by
        rw [← heq, List.intercalate_cons_of_ne_nil (List.cons_ne_nil u us)]
        simp
      exact absurd hmem (by decide)
  · rintro ⟨oid, v, rfl, hbare, hv⟩
    have hzero : ¬ (oid = .timestamp ∧ v.val ∈ zeroDates) := by
      rintro ⟨-, hmem⟩
      rw [hv] at hmem
      exact absurd hmem (by decide)
    have hwritten := h.written
    rcases hwritten with _ | ⟨hc, hnil⟩
    cases hnil
    have := Except.ok.inj (hc.symm.trans (quoteLiteralLocalWithoid_bare hbare))
    rw [if_neg hzero] at this
    rw [List.intercalate_singleton, this, hv]

end

/-! ## The rows -/

/-- What was appended so far, sent or not. -/
def CopyBuffer.stream (s : CopyBuffer) : Bytes := s.payloads.flatten ++ s.query

section
variable {types : List Oid} {bufferSize : ℕ} {s s' : CopyBuffer}

/-- **A row is appended to the stream and counted**, whether the buffer is sent or not. -/
theorem fetchRow_ok (bufferSize : ℕ) (s : CopyBuffer) {row : List (Option CString)} {t : Bytes}
    (ht : appendCells 0 (types.zip row) = .ok t) :
    ∃ s', fetchRow types bufferSize s row = .ok s' ∧ s'.stream = s.stream ++ (t ++ [10]) ∧
      s'.rowCount = (s.rowCount + 1).bmod (2 ^ 32) := by
  rw [fetchRow, ht, ok_bind]
  by_cases hfull : bufferSize ≤ (s.query ++ t ++ ascii "\n").length
  · rw [if_pos hfull]
    refine ⟨_, rfl, ?_, rfl⟩
    simp [CopyBuffer.stream]
    rfl
  · rw [if_neg hfull]
    refine ⟨_, rfl, ?_, rfl⟩
    simp [CopyBuffer.stream]
    rfl

/-- **No row is lost or sent twice** by the loop over the rows. -/
theorem fetchRows_ok (bufferSize : ℕ) {rows : List (List (Option CString))} {texts : List Bytes}
    (h : List.Forall₂ (fun row t => appendCells 0 (types.zip row) = .ok t) rows texts) {n : ℕ}
    (hn : s.rowCount = rowCount n) :
    ∃ s', fetchRows types bufferSize rows s = .ok s' ∧
      s'.stream = s.stream ++ texts.flatMap (fun t => t ++ [10]) ∧
      s'.rowCount = rowCount (n + rows.length) := by
  induction h generalizing s n with
  | nil => exact ⟨s, rfl, (List.append_nil _).symm, hn⟩
  | @cons row t rows texts ht _ ih =>
    obtain ⟨s₁, hs₁, hstream₁, hcount₁⟩ := fetchRow_ok bufferSize s ht
    rw [hn, rowCount_succ] at hcount₁
    obtain ⟨s₂, hs₂, hstream₂, hcount₂⟩ := ih hcount₁
    refine ⟨s₂, ?_, ?_, ?_⟩
    · rw [fetchRows, hs₁, ok_bind, hs₂]
    · rw [hstream₂, hstream₁, List.flatMap_cons, List.append_assoc]
    · rw [hcount₂, List.length_cons, Nat.add_assoc, Nat.add_comm 1]

/-- The first row fills the buffer, which is sent; the second stays in it. -/
example : (fetchRows [.text, .timestamp] 4 [[some (lit "a|\n"), some (lit "0000")], [none, none]]
      {}).map (fun s => (s.payloads, s.query)) =
    .ok ([ascii "'a|\n'|\n"], ascii "|\n") := rfl

/-- Every row was written. -/
theorem appendCells_of_fetchRows {rows : List (List (Option CString))}
    (h : fetchRows types bufferSize rows s = .ok s') :
    ∀ row ∈ rows, ∃ t, appendCells 0 (types.zip row) = .ok t := by
  induction rows generalizing s with
  | nil =>
    intro row hrow
    cases hrow
  | cons row rows ih =>
    obtain ⟨s₁, hs₁, h⟩ := bind_eq_ok h
    obtain ⟨t, ht, -⟩ := bind_eq_ok hs₁
    rintro r (_ | ⟨_, hr⟩)
    · exact ⟨t, ht⟩
    · exact ih h r hr

end

section
variable {result : MysqlResult} {bufferSize : ℕ}

/-- **The payloads are the rows' lines**, the last one included. -/
theorem copyData_ok (bufferSize : ℕ) {texts : List Bytes}
    (h : List.Forall₂ (fun row t => appendCells 0 (result.types.zip row) = .ok t) result.rows
      texts) :
    ∃ s, copyData result bufferSize = .ok s ∧
      s.payloads.flatten = texts.flatMap (fun t => t ++ [10]) ∧
      s.rowCount = rowCount result.rows.length := by
  have hzero : ({} : CopyBuffer).rowCount = rowCount 0 := (rowCount_of_lt (by decide)).symm
  obtain ⟨s, hs, hstream, hcount⟩ := fetchRows_ok bufferSize h hzero
  rw [Nat.zero_add] at hcount
  rw [CopyBuffer.stream, CopyBuffer.stream, List.flatten_nil, List.nil_append,
    List.nil_append] at hstream
  rw [copyData, hs, ok_bind]
  by_cases hleft : 0 < s.query.length
  · rw [if_pos hleft]
    refine ⟨_, rfl, ?_, hcount⟩
    rw [List.flatten_append, List.flatten_singleton, hstream]
  · rw [if_neg hleft]
    refine ⟨s, rfl, ?_, hcount⟩
    rw [List.length_eq_zero_iff.1 (Nat.eq_zero_of_not_pos hleft), List.append_nil] at hstream
    exact hstream

/-- If all rows were sent, their texts were quoted. -/
theorem fitsBuffer_of_copyData {s : CopyBuffer} (h : copyData result bufferSize = .ok s) :
    ∀ row ∈ result.rows, ∀ c ∈ result.types.zip row, ∀ v ∈ c.2, c.1.isQuoted →
      FitsBuffer v.val := by
  obtain ⟨s, hs, -⟩ := bind_eq_ok h
  rintro row hrow ⟨oid, cell⟩ hc v rfl hquoted
  obtain ⟨t, ht⟩ := appendCells_of_fetchRows hs row hrow
  obtain ⟨field, hfield⟩ := writeCell_of_appendCells ht _ hc
  by_contra hfits
  rw [writeCell, quoteLiteralLocalWithoid_not_fits hquoted hfits] at hfield
  cases hfield

/-- The line of a row. -/
structure RowLine (result : MysqlResult) (row : List (Option CString)) (t : Bytes) : Prop where
  appended : appendCells 0 (result.types.zip row) = .ok t
  passes : Csv.Passes singleQuote t
  record : Csv.record delimiter singleQuote result.types.length t =
    some ((result.types.zip row).map cellField)
  eq_endMarker_iff : t = Csv.endMarker ↔ ∃ oid v, result.types.zip row = [(oid, some v)] ∧
    oid.isQuoted = false ∧ v.val = Csv.endMarker

theorem exists_rowLine {row : List (Option CString)} (hrow : row ∈ result.rows)
    (hfits : ∀ c ∈ result.types.zip row, ∀ v ∈ c.2, c.1.isQuoted → FitsBuffer v.val) :
    ∃ t, RowLine result row t := by
  obtain ⟨ts, hts⟩ := exists_rowText (result.plainText row hrow) hfits
  have hlength : (result.types.zip row).length = result.types.length := by
    rw [List.length_zip, result.length_eq row hrow, Nat.min_self]
  refine ⟨[delimiter].intercalate ts, ?_, hts.passes, ?_, hts.eq_endMarker_iff⟩
  · rw [appendCells_ok hts.written, if_neg fun h => h.1 rfl, List.nil_append]
  · rw [← hlength]
    exact hts.record

/-- The record of a row of the result set. -/
theorem rowRecord_map_cellField {row : List (Option CString)} (hrow : row ∈ result.rows) :
    RowRecord result.types row ((result.types.zip row).map cellField) := by
  have hlength := result.length_eq row hrow
  refine ⟨rfl, ?_, ?_⟩
  · rw [List.length_map, List.length_zip, hlength, Nat.min_self]
  · intro i oid cell field htype hcell hfield
    have hzip : (result.types.zip row)[i]? = some (oid, cell) :=
      List.getElem?_zip_eq_some.2 ⟨htype, hcell⟩
    rw [List.getElem?_map, hzip] at hfield
    obtain rfl := Option.some.inj hfield
    exact cellField_eq_null_iff (result.plainText row hrow _ (List.mem_of_getElem? hzip))

section
variable {ts : List Bytes} (hts : List.Forall₂ (RowLine result) result.rows ts)
include hts

theorem lines_pass : ∀ t ∈ ts, Csv.Passes singleQuote t :=
  (forall_mem_iff_of_forall₂ hts fun _ _ h => iff_of_true trivial h.passes).1 fun _ _ => trivial

/-- None of the lines is the marker if none of the rows is. -/
theorem lines_ne_endMarker_iff :
    (∀ row ∈ result.rows, ∀ oid v, result.types.zip row = [(oid, some v)] →
      oid.isQuoted = false → v.val ≠ Csv.endMarker) ↔ ∀ t ∈ ts, t ≠ Csv.endMarker := by
  apply forall_mem_iff_of_forall₂ hts
  intro row t h
  rw [Ne, h.eq_endMarker_iff]
  simp only [not_exists, not_and, Ne]

theorem lines_records : List.Forall₂
    (fun t r => Csv.record delimiter singleQuote result.types.length t = some r) ts
    (result.rows.map fun row => (result.types.zip row).map cellField) := by
  rw [List.forall₂_map_right_iff]
  exact (hts.imp fun row t h => h.record).flip

end

end

/-- **Each row becomes one record, in which exactly the NULLs are NULL, and all rows are counted**,
if and only if all texts can be quoted, the rows can be counted, and no row is the marker for the
end of the data. -/
theorem framed_iff (result : MysqlResult) (bufferSize : ℕ) :
    Framed result bufferSize ↔ Sendable result := by
  have hquote : singleQuote ≠ 10 := by decide
  constructor
  · rintro ⟨s, hs, hcount, records, hrecords, hrows⟩
    have hfits := fitsBuffer_of_copyData hs
    obtain ⟨ts, hts⟩ := exists_forall₂_iff.2 fun row hrow => exists_rowLine hrow (hfits row hrow)
    obtain ⟨s', hs', hstream, hcount'⟩ := copyData_ok bufferSize (hts.imp fun row t h => h.appended)
    obtain rfl := Except.ok.inj (hs.symm.trans hs')
    rw [hstream] at hrecords
    have hmarker := Csv.ne_endMarker_of_records hquote (lines_pass hts) hrecords
      (hrows.length_eq.symm.trans hts.length_eq)
    exact ⟨hfits, rowCount_eq_iff.1 (hcount'.symm.trans hcount),
      (lines_ne_endMarker_iff hts).2 hmarker⟩
  · rintro ⟨hfits, hcount, hmarker⟩
    obtain ⟨ts, hts⟩ := exists_forall₂_iff.2 fun row hrow => exists_rowLine hrow (hfits row hrow)
    obtain ⟨s, hs, hstream, hcount'⟩ := copyData_ok bufferSize (hts.imp fun row t h => h.appended)
    refine ⟨s, hs, hcount'.trans (rowCount_eq_iff.2 hcount),
      result.rows.map fun row => (result.types.zip row).map cellField, ?_, ?_⟩
    · rw [hstream]
      exact Csv.records_flatMap hquote (lines_pass hts) ((lines_ne_endMarker_iff hts).1 hmarker)
        (lines_records hts)
    · rw [List.forall₂_map_right_iff, List.forall₂_same]
      intro row hrow
      exact rowRecord_map_cellField hrow

/-- A result set of one text. -/
def oneText (v : CString) : MysqlResult where
  types := [.text]
  rows := [[some v]]
  length_eq := by
    intro row hrow
    rw [List.mem_singleton.1 hrow]
    rfl
  plainText := by
    intro row hrow c hc w hw hbare
    rw [List.mem_singleton.1 hrow] at hc
    rw [List.mem_singleton.1 hc] at hbare
    cases hbare

/-- A text that does not fit is written past the end of the buffer. -/
theorem copyData_oneText {v : CString} (hfits : ¬ FitsBuffer v.val) (bufferSize : ℕ) :
    copyData (oneText v) bufferSize = .error .bufferOverrun := by
  have hquoted : Oid.text.isQuoted := rfl
  have hcell : writeCell .text (some v) = .error .bufferOverrun :=
    quoteLiteralLocalWithoid_not_fits hquoted hfits
  have hcells : appendCells 0 ((oneText v).types.zip [some v]) = .error .bufferOverrun := by
    rw [oneText, List.zip_cons_cons, appendCells, hcell, error_bind]
  rw [copyData, oneText, fetchRows, fetchRow]
  rw [oneText] at hcells
  rw [hcells, error_bind, error_bind, error_bind]

/-- A text of 512 MiB cannot be quoted. -/
theorem not_framed_halfGiB :
    copyData (oneText (letters (2 ^ 29))) 1024 = .error .bufferOverrun ∧
      ¬ Framed (oneText (letters (2 ^ 29))) 1024 := by
  have hlength : (letters (2 ^ 29)).val.length = 2 ^ 29 := List.length_replicate
  have hfits : ¬ FitsBuffer (letters (2 ^ 29)).val := by
    unfold FitsBuffer
    rw [hlength, toInt_mod_of_lt (by decide)]
    unfold MaxAllocSize
    omega
  have hoverrun := copyData_oneText hfits 1024
  refine ⟨hoverrun, ?_⟩
  rintro ⟨s, hs, -⟩
  rw [hoverrun] at hs
  cases hs

end RdsDbsync
