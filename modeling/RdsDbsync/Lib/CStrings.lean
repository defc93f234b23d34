/-
  A buffer that holds one string after the other, with one NUL or more between them.
-/
import Mathlib.Data.List.TakeWhile
import RdsDbsync.Lib.Bytes

namespace Bytes

/-- The strings in a buffer, without the empty ones. -/
def strings (m : Bytes) : List Bytes := (m.splitOn 0).filter (· ≠ [])

theorem NulFree.mono {s t : Bytes} (h : NulFree t) (hs : s ⊆ t) : NulFree s := fun hmem => h (hs hmem)

/-- NULs over what was there. -/
def zeros (n : ℕ) : Bytes := List.replicate n 0

/-- What is stored behind the buffer is a string of its own. -/
def Closed (m : Bytes) : Prop := m = [] ∨ ∃ a, m = a ++ [0]

/-- What is stored before the buffer is a string of its own. -/
def Separated (m : Bytes) : Prop := m = [] ∨ ∃ b, m = 0 :: b

@[simp] theorem strings_nil : strings [] = [] := by simp [strings]

theorem strings_append_zero (a b : Bytes) : strings (a ++ 0 :: b) = strings a ++ strings b := by
  rw [strings, List.splitOn_append_cons_self, List.filter_append]
  rfl

@[simp] theorem strings_zero_cons (b : Bytes) : strings (0 :: b) = strings b :=
  strings_append_zero [] b

theorem strings_concat_zero (a : Bytes) : strings (a ++ [0]) = strings a := by
  rw [strings_append_zero]
  simp

theorem strings_of_nulFree {t : Bytes} (h : NulFree t) (hne : t ≠ []) : strings t = [t] := by
  rw [strings, List.splitOn_eq_singleton h]
  simp [hne]

@[simp] theorem length_zeros (n : ℕ) : (zeros n).length = n := List.length_replicate

theorem zeros_succ (n : ℕ) : zeros (n + 1) = 0 :: zeros n := rfl

theorem zeros_concat (n : ℕ) : zeros n ++ [0] = zeros (n + 1) := List.replicate_succ'.symm

theorem append_zero_zeros (a : Bytes) (n : ℕ) : a ++ [0] ++ zeros n = a ++ zeros (n + 1) := by
  rw [zeros_succ, List.append_assoc, List.singleton_append]

@[simp] theorem strings_zeros (n : ℕ) : strings (zeros n) = [] := by
  induction n with
  | zero => exact strings_nil
  | succ n ih => rw [zeros_succ, strings_zero_cons, ih]

theorem Closed.strings_append {a : Bytes} (h : Closed a) (b : Bytes) :
    strings (a ++ b) = strings a ++ strings b := by
  rcases h with rfl | ⟨a, rfl⟩
  · simp
  · rw [List.append_assoc, List.singleton_append, strings_append_zero, strings_concat_zero]

theorem Separated.strings_append {b : Bytes} (h : Separated b) (a : Bytes) :
    strings (a ++ b) = strings a ++ strings b := by
  rcases h with rfl | ⟨b, rfl⟩
  · simp
  · rw [strings_append_zero, strings_zero_cons]

theorem cstr_concat_zero (t : Bytes) : cstr (t ++ [0]) = cstr t := by
  induction t with
  | nil => rfl
  | cons c t ih =>
    rw [List.cons_append, cstr, cstr, List.takeWhile_cons, List.takeWhile_cons]
    split_ifs
    · exact congrArg (c :: ·) ih
    · rfl

theorem separated_dropWhile (m : Bytes) : Separated (m.dropWhile (· ≠ 0)) := by
  induction m with
  | nil => exact Or.inl rfl
  | cons c m ih =>
    by_cases hc : c = 0
    · rw [hc, List.dropWhile_cons_of_neg (by simp)]
      exact Or.inr ⟨m, rfl⟩
    · rwa [List.dropWhile_cons_of_pos (by simpa using hc)]

/-- **The first string**, and the rest of the buffer. -/
theorem strings_eq_cons {m : Bytes} (h : cstr m ≠ []) :
    strings m = cstr m :: strings (m.dropWhile (· ≠ 0)) := by
  calc strings m = strings (cstr m ++ m.dropWhile (· ≠ 0)) := by
        rw [cstr, List.takeWhile_append_dropWhile]
    _ = strings (cstr m) ++ strings (m.dropWhile (· ≠ 0)) := (separated_dropWhile m).strings_append _
    _ = cstr m :: strings (m.dropWhile (· ≠ 0)) := by
        rw [strings_of_nulFree (nulFree_cstr m) h]
        rfl

/-- NULs at the start are no strings. -/
theorem strings_dropWhile_zero (m : Bytes) : strings (m.dropWhile (· = 0)) = strings m := by
  induction m with
  | nil => rfl
  | cons c m ih =>
    by_cases hc : c = 0
    · rw [hc, List.dropWhile_cons_of_pos (by simp), ih, strings_zero_cons]
    · rw [List.dropWhile_cons_of_neg (by simpa using hc)]

end Bytes
