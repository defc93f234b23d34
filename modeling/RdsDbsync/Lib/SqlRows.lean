/-
  What INSERT, UPDATE and DELETE do to tables, which are multisets of rows.

  A WHERE clause may be true of any number of rows: `onRows_update_of_only` and
  `onRows_delete_of_only` are about one that is true of a single row.
-/
import Mathlib.Data.Multiset.Filter
import Mathlib.Data.Multiset.MapFold
import RdsDbsync.Lib.RowSql
import RdsDbsync.Lib.SqlReader

namespace SqlLex

open Bytes RowSql

/-! ## Tables -/

/-- A value or NULL for each column. -/
abbrev TableRow := Bytes → Option Bytes

/-- The rows of each table. -/
abbrev Database := TableName → Multiset TableRow

/-- The columns of the tables, and the rows that their constraints admit. -/
structure Catalog where
  columns : TableName → List Bytes
  admits : TableName → Multiset TableRow → Bool

namespace Dml

def table : Dml → TableName
  | insert table _ _ | update table _ _ | delete table _ => table

/-- The columns of the table are there, none is given two values, and there are as many values as
columns. -/
def Accepted (cat : Catalog) : Dml → Prop
  | insert table columns values =>
    (∀ n ∈ columns, n ∈ cat.columns table) ∧ columns.Nodup ∧ columns.length = values.length
  | update table set conditions =>
    (∀ e ∈ set ++ conditions, e.1 ∈ cat.columns table) ∧ (set.map Prod.fst).Nodup
  | delete table conditions => ∀ e ∈ conditions, e.1 ∈ cat.columns table

instance (cat : Catalog) : ∀ d : Dml, Decidable (d.Accepted cat)
  | insert _ _ _ => inferInstanceAs (Decidable (_ ∧ _ ∧ _))
  | update _ _ _ => inferInstanceAs (Decidable (_ ∧ _))
  | delete _ _ => inferInstanceAs (Decidable (∀ _ ∈ _, _))

/-- The rows of the table after the statement. -/
def onRows : Dml → Multiset TableRow → Multiset TableRow
  | insert _ columns values, rows => assign (columns.zip values) (fun _ => none) ::ₘ rows
  | update _ set conditions, rows =>
    rows.map fun row => if holds conditions row = some true then assign set row else row
  | delete _ conditions, rows => rows.filter fun row => ¬ holds conditions row = some true

/-- The tables after the statement, unless it fails. -/
def exec (cat : Catalog) (d : Dml) (db : Database) : Option Database :=
  if d.Accepted cat ∧ cat.admits d.table (d.onRows (db d.table)) then
    some (Function.update db d.table (d.onRows (db d.table)))
  else none

variable {cat : Catalog} {db db' : Database}

theorem exec_eq_some {d : Dml} : d.exec cat db = some db' ↔
    d.Accepted cat ∧ cat.admits d.table (d.onRows (db d.table)) ∧
      db' = Function.update db d.table (d.onRows (db d.table)) := by
  rw [exec, Option.ite_none_right_eq_some, and_assoc, Option.some.injEq, eq_comm (a := db')]

/-! ## One row -/

section
variable {table : TableName} {set conditions : List Entry} {row : TableRow}
  {rest : Multiset TableRow}

/-- An UPDATE of none of the rows. -/
theorem onRows_update_of_none (h : ∀ row ∈ rest, holds conditions row ≠ some true) :
    (update table set conditions).onRows rest = rest := by
  rw [onRows]
  conv_rhs => rw [← Multiset.map_id' rest]
  exact Multiset.map_congr rfl fun row hrow => if_neg (h row hrow)

/-- **An UPDATE of a single row.** -/
theorem onRows_update_of_only (hrow : holds conditions row = some true)
    (hrest : ∀ row ∈ rest, holds conditions row ≠ some true) :
    (update table set conditions).onRows (row ::ₘ rest) = assign set row ::ₘ rest := by
  have hnone := @onRows_update_of_none table set conditions rest hrest
  rw [onRows] at hnone
  rw [onRows, Multiset.map_cons, hnone, if_pos hrow]

/-- A DELETE of none of the rows. -/
theorem onRows_delete_of_none (h : ∀ row ∈ rest, holds conditions row ≠ some true) :
    (delete table conditions).onRows rest = rest :=
  Multiset.filter_eq_self.2 h

/-- **A DELETE of a single row.** -/
theorem onRows_delete_of_only (hrow : holds conditions row = some true)
    (hrest : ∀ row ∈ rest, holds conditions row ≠ some true) :
    (delete table conditions).onRows (row ::ₘ rest) = rest := by
  have hnone := @onRows_delete_of_none table conditions rest hrest
  rw [onRows] at hnone ⊢
  rw [Multiset.filter_cons_of_neg, hnone]
  exact not_not.2 hrow

end

end Dml

end SqlLex
