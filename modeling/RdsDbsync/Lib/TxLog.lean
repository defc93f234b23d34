/-
  A table that is only inserted into, seen through one session: its committed local
  transactions in order, and the open one.
-/
import Mathlib.Data.List.Basic

universe u

/-- The transactions of a session; a row's id is its position in `committed.flatten`. -/
structure TxLog (α : Type u) where
  committed : List (List α) := []
  current : Option (List α) := none
  deriving DecidableEq

namespace TxLog

variable {α : Type u} (l : TxLog α)

/-- BEGIN; inside a transaction it is a warning. -/
def start : TxLog α := { l with current := some (l.current.getD []) }

/-- INSERT; outside a transaction it commits by itself. -/
def insert (a : α) : TxLog α :=
  match l.current with
  | some rows => { l with current := some (rows ++ [a]) }
  | none => { l with committed := l.committed ++ [[a]] }

/-- COMMIT; outside a transaction it is a warning. -/
def commit : TxLog α :=
  match l.current with
  | some rows => ⟨l.committed ++ [rows], none⟩
  | none => l

/-- The session ends. -/
def rollback : TxLog α := { l with current := none }

/-- All rows, those of the open transaction last. -/
def rows : List α := l.committed.flatten ++ l.current.getD []

variable {l}

theorem insert_of_current {rows : List α} (h : l.current = some rows) (a : α) :
    l.insert a = ⟨l.committed, some (rows ++ [a])⟩ := by simp [insert, h]

theorem commit_of_current {rows : List α} (h : l.current = some rows) :
    l.commit = ⟨l.committed ++ [rows], none⟩ := by simp [commit, h]

theorem rows_insert (a : α) : (l.insert a).rows = l.rows ++ [a] := by
  rcases l with ⟨committed, _ | rows⟩ <;> simp [insert, TxLog.rows]

@[simp] theorem rows_commit : l.commit.rows = l.rows := by
  rcases l with ⟨committed, _ | rows⟩ <;> simp [commit, TxLog.rows]

/-- What is committed stays. -/
theorem committed_insert (a : α) : l.committed <+: (l.insert a).committed := by
  rcases l with ⟨committed, _ | rows⟩
  · exact List.prefix_append _ _
  · exact List.prefix_rfl

theorem committed_commit : l.committed <+: l.commit.committed := by
  rcases l with ⟨committed, _ | rows⟩
  · exact List.prefix_rfl
  · exact List.prefix_append _ _

theorem rows_rollback_subset : l.rollback.rows ⊆ l.rows := by
  intro a h
  rw [rollback, rows, Option.getD_none, List.append_nil] at h
  exact List.mem_append_left _ h

end TxLog
