/-
  The statements of a relation's UPDATEs and DELETEs: which columns of its tuples they
  assign and constrain.
-/
import RdsDbsync.Identity

namespace RdsDbsync

open Bytes

/-! ## Cells of a relation's tuples -/

/-- The cell that a column value becomes. -/
def Datum.cell : Datum → Cell
  | null => .null
  | external => .unchanged
  | value t => .value t

namespace Relation

variable (rel : Relation)

/-- The cell of a column in a decoded tuple. -/
def cell (tuple : HeapTuple) (i : ℕ) : Cell := ((rel.cells tuple)[i]?.map Datum.cell).getD .null

/-- The type of a column. -/
def typname (i : ℕ) : Bytes := (rel.attrs[i]?.map fun a => a.typname.val).getD []

variable {rel}

theorem lt_of_live {i : ℕ} (h : rel.live i) : i < rel.attrs.length := by
  obtain ⟨a, ha, -⟩ := live_iff.1 h
  exact (List.getElem?_eq_some_iff.1 ha).1

end Relation

theorem tupleData_cell (rel : Relation) (tuple : HeapTuple) (i : ℕ) :
    (rel.tupleData tuple).cell i = rel.cell tuple i := by
  rcases h : (rel.cells tuple)[i]? with _ | d
  · simp [DecodeTupleData.cell, DecodeTupleData.isNullCell, Relation.tupleData, Relation.cell, h]
  · cases d <;> simp [DecodeTupleData.cell, DecodeTupleData.isNullCell, Relation.tupleData,
      Relation.cell, h, Datum.isnull, Datum.changed, Datum.svalue, Datum.cell]

section
variable {kw : Bytes → Bool} {rel : Relation} {change : ReorderBufferChange}

/-- The entries of a statement over the columns of `rel`. -/
theorem mem_selected_tupleData {tuple : HeapTuple} {sel : ℕ → Bool} {c : ColumnCell} :
    c ∈ selected (rel.tupleData tuple) sel rel.attrs.length 0 ↔
      c.1 < rel.attrs.length ∧ sel c.1 = true ∧ c.2 = rel.cell tuple c.1 := by
  simp [mem_selected, tupleData_cell]

end

/-! ## Keyed updates -/

section
variable {kw : Bytes → Bool} {rel : Relation} {old : Option HeapTuple} {new : HeapTuple}

theorem printable_ne_unchanged {type : Bytes} {c : Cell} (h : c.Printable type) :
    c ≠ .unchanged := by
  rintro rfl; exact h

end

/-! ## The old row -/

section
variable (rel : Relation) (tuple : HeapTuple) (i : ℕ)

theorem tupleData_isNullCell :
    (rel.tupleData tuple).isNullCell i = decide (rel.cell tuple i = .null) := by
  rcases h : (rel.cells tuple)[i]? with _ | d
  · simp [DecodeTupleData.isNullCell, Relation.tupleData, Relation.cell, h]
  · cases d <;> simp [DecodeTupleData.isNullCell, Relation.tupleData, Relation.cell, h,
      Datum.isnull, Datum.changed, Datum.svalue, Datum.cell]

theorem tupleData_svalues : (rel.tupleData tuple).svalues i = (rel.cell tuple i).svalue := by
  rcases h : (rel.cells tuple)[i]? with _ | d
  · simp [Relation.tupleData, Relation.cell, h, Cell.svalue]
  · cases d <;> simp [Relation.tupleData, Relation.cell, h, Datum.svalue, Datum.cell, Cell.svalue]

theorem tupleData_isUnchangedCell :
    (rel.tupleData tuple).isUnchangedCell i = decide (rel.cell tuple i = .unchanged) := by
  rcases h : (rel.cells tuple)[i]? with _ | d
  · simp [DecodeTupleData.isUnchangedCell, Relation.tupleData, Relation.cell, h]
  · cases d <;> simp [DecodeTupleData.isUnchangedCell, Relation.tupleData, Relation.cell, h,
      Datum.isnull, Datum.changed, Datum.svalue, Datum.cell]

end

section
variable {kw : Bytes → Bool} {rel : Relation} {change : ReorderBufferChange} {old : HeapTuple}

/-- **What a full-row update finds changed**: a NULL cell that was not NULL, and a text that
was neither marked unchanged nor the same text. -/
theorem columnChanged_iff {new : HeapTuple} {i : ℕ} :
    columnChanged (changeMessage kw rel change) (rel.tupleData new) (rel.tupleData old) i ↔
      rel.live i ∧ match rel.cell new i with
        | .null => rel.cell old i ≠ .null
        | .unchanged => False
        | .value t => rel.cell old i ≠ .unchanged ∧ rel.cell old i ≠ .value t := by
  rw [columnChanged, changeMessage_live, Bool.and_eq_true, fullRowChange]
  simp only [tupleData_isNullCell, tupleData_isUnchangedCell, tupleData_svalues]
  refine and_congr_right ?_
  intro _
  rcases rel.cell new i with _ | _ | t <;> rcases rel.cell old i with _ | _ | t'
  case value.value => simpa [Cell.svalue] using not_congr eq_comm
  all_goals simp

/-- A change whose old tuple can be the complete old row: a DELETE or an update without a key. -/
def FullOldTuple (rel : Relation) (old : HeapTuple) (change : ReorderBufferChange) : Prop :=
  change = .delete (some old) ∨
    ∃ new, change = .update (some old) new ∧ rel.keyNames change = []

theorem attrs_of_rowStmt (hc : FullOldTuple rel old change) {stmt : RowStmt}
    (hs : rowStmt (changeMessage kw rel change) = some stmt) : rel.attrs.length ≠ 0 := by
  intro h0
  rcases hc with rfl | ⟨new, rfl, -⟩ <;>
    simp [rowStmt, checktuple, changeMessage, Relation.message, Relation.tupleData, h0] at hs

end

/-- Two columns of the table `e` of the tests, whose replica identity is the full row. -/
def tableE : Relation where
  nspname := lit "test_case"
  relname := lit "e"
  attrs := [⟨lit "a", false, 1, lit "integer"⟩, ⟨lit "b", false, 2, lit "text"⟩]
  replidindex := none
  attnum_eq := by decide
  attname_nodup := by decide
  indkey_live := by intro ks h; cases h
  indkey_length := by intro ks h; cases h

/-- A row of `e`. -/
def rowE (b : Datum) : HeapTuple := [.value (lit "1"), b]

end RdsDbsync
