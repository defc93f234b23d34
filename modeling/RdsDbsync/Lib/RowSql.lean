/-
  Rows under SQL's three-valued logic: conjunctions of equations as WHERE clauses,
  lists of assignments as SET clauses.

  Columns are indexed by `ι`; a row gives each column a value or NULL (`none`).
-/
import Mathlib.Data.List.Basic
import Mathlib.Data.List.Nodup
import Mathlib.Logic.Function.Basic

namespace RowSql

universe u v
variable {ι : Type u} {α : Type v}

/-! ## Truth values -/

/-- A truth value; `none` is unknown. -/
abbrev Truth := Option Bool

/-- SQL's AND. -/
def and3 : Truth → Truth → Truth
  | some false, _ => some false
  | _, some false => some false
  | some true, some true => some true
  | _, _ => none

/-- SQL's `=`: unknown if an operand is NULL. -/
def eq3 [DecidableEq α] : Option α → Option α → Truth
  | some a, some b => some (a = b)
  | _, _ => none

theorem and3_eq_true {p q : Truth} : and3 p q = some true ↔ p = some true ∧ q = some true := by
  rcases p with _ | _ | _ <;> rcases q with _ | _ | _ <;> simp [and3]

theorem eq3_eq_true [DecidableEq α] {a b : Option α} :
    eq3 a b = some true ↔ ∃ v, a = some v ∧ b = some v := by
  rcases a with _ | a <;> rcases b with _ | b <;> simp [eq3, eq_comm]

/-! ## WHERE clauses -/

section
variable [DecidableEq α]

/-- The truth value of `c₁ = v₁ AND ... AND cₙ = vₙ` in a row. -/
def holds (conditions : List (ι × Option α)) (row : ι → Option α) : Truth :=
  conditions.foldr (fun c p => and3 (eq3 (row c.1) c.2) p) (some true)

theorem holds_eq_true {conditions : List (ι × Option α)} {row : ι → Option α} :
    holds conditions row = some true ↔ ∀ c ∈ conditions, ∃ v, row c.1 = some v ∧ c.2 = some v := by
  induction conditions with
  | nil => simp [holds]
  | cons c cs ih =>
    simp only [holds, List.foldr_cons, and3_eq_true, eq3_eq_true, List.forall_mem_cons] at ih ⊢
    rw [ih]

end

/-! ## SET clauses -/

section
variable [DecidableEq ι]

/-- The row after the assignments. -/
def assign (assignments : List (ι × Option α)) (row : ι → Option α) : ι → Option α :=
  assignments.foldl (fun r a => Function.update r a.1 a.2) row

theorem assign_of_notMem {assignments : List (ι × Option α)} {i : ι}
    (h : i ∉ assignments.map Prod.fst) (row : ι → Option α) : assign assignments row i = row i := by
  induction assignments generalizing row with
  | nil => rfl
  | cons a as ih =>
    simp only [List.map_cons, List.mem_cons, not_or] at h
    simp only [assign, List.foldl_cons]
    rw [← assign, ih h.2, Function.update_of_ne h.1]

/-- What is assigned does not depend on the row. -/
theorem assign_congr_of_mem {assignments : List (ι × Option α)} {i : ι}
    (h : i ∈ assignments.map Prod.fst) (row row' : ι → Option α) :
    assign assignments row i = assign assignments row' i := by
  induction assignments generalizing row row' with
  | nil => cases h
  | cons a as ih =>
    simp only [assign, List.foldl_cons]
    rw [← assign, ← assign]
    by_cases ha : i ∈ as.map Prod.fst
    · exact ih ha _ _
    · obtain rfl : i = a.1 := by simpa [ha] using h
      rw [assign_of_notMem ha, assign_of_notMem ha, Function.update_self, Function.update_self]

theorem assign_of_mem {assignments : List (ι × Option α)} {i : ι} {v : Option α}
    (hn : (assignments.map Prod.fst).Nodup) (h : (i, v) ∈ assignments) (row : ι → Option α) :
    assign assignments row i = v := by
  induction assignments generalizing row with
  | nil => cases h
  | cons a as ih =>
    rw [List.map_cons, List.nodup_cons] at hn
    simp only [assign, List.foldl_cons]
    rcases List.mem_cons.1 h with rfl | h
    · rw [← assign, assign_of_notMem hn.1, Function.update_self]
    · exact ih hn.2 h _

end

end RowSql
