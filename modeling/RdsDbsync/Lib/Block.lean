/-
  A block of memory of a given size, with stores that are checked against its end.
-/
import Mathlib.Data.List.Basic
import Mathlib.Logic.Function.Basic

universe u

/-- A block of `size` cells.  What `cells` says from there on is what a larger block finds. -/
structure Block (α : Type u) (size : ℕ) where
  cells : ℕ → α

namespace Block

variable {α : Type u} {size : ℕ}

/-- A store to the cell `i`. -/
def put (b : Block α size) (i : ℕ) (a : α) : Option (Block α size) :=
  if i < size then some ⟨Function.update b.cells i a⟩ else none

/-- Stores to the cells from `i` on. -/
def putAll : Block α size → ℕ → List α → Option (Block α size)
  | b, _, [] => some b
  | b, i, a :: l => (b.put i a).bind fun b => putAll b (i + 1) l

/-- What is in the block. -/
def contents (b : Block α size) : List α := (List.range size).map b.cells

/-- The block, reallocated. -/
def resize (b : Block α size) (n : ℕ) : Block α n := ⟨b.cells⟩

@[simp] theorem length_contents (b : Block α size) : b.contents.length = size := by
  simp [contents]

/-- Stores that fit overwrite the cells from `i` on, and no others. -/
theorem putAll_of_le (b : Block α size) {i : ℕ} {l : List α} (h : i + l.length ≤ size) :
    b.putAll i l = some ⟨fun j => if i ≤ j then l[j - i]?.getD (b.cells j) else b.cells j⟩ := by
  induction l generalizing b i with
  | nil =>
    rw [putAll]
    simp
  | cons a l ih =>
    rw [List.length_cons] at h
    rw [putAll, put, if_pos (by omega), Option.bind_some, ih _ (by omega)]
    congr 2
    ext j
    dsimp only
    rcases Nat.lt_trichotomy i j with hj | rfl | hj
    · obtain ⟨k, rfl⟩ : ∃ k, j = i + 1 + k := ⟨j - (i + 1), by omega⟩
      have hk : i + 1 + k - i = k + 1 := by omega
      rw [if_pos (by omega), if_pos (by omega), Function.update_of_ne (by omega), hk,
        List.getElem?_cons_succ, Nat.add_sub_cancel_left]
    · rw [if_neg (by omega), if_pos (Nat.le_refl i), Function.update_self, Nat.sub_self]
      rfl
    · rw [if_neg (by omega), if_neg (by omega), Function.update_of_ne (by omega)]

/-- Stores that do not fit run past the end. -/
theorem putAll_of_lt (b : Block α size) {i : ℕ} {l : List α} (hl : l ≠ [])
    (h : size < i + l.length) : b.putAll i l = none := by
  induction l generalizing b i with
  | nil => exact absurd rfl hl
  | cons a l ih =>
    rw [List.length_cons] at h
    rw [putAll, put]
    split_ifs with hi
    · refine ih _ ?_ (by omega)
      rintro rfl
      simp only [List.length_nil] at h
      omega
    · rfl

theorem le_of_putAll {b b' : Block α size} {i : ℕ} {l : List α} (hl : l ≠ [])
    (h : b.putAll i l = some b') : i + l.length ≤ size := by
  by_contra hlt
  rw [b.putAll_of_lt hl (by omega)] at h
  cases h

/-- What is stored at the start of a block stands at the start of its contents. -/
theorem contents_putAll {b : Block α size} {l : List α} (h : l.length ≤ size) :
    ∃ b' rest, b.putAll 0 l = some b' ∧ b'.contents = l ++ rest := by
  refine ⟨_, (b.contents).drop l.length, b.putAll_of_le (by omega), ?_⟩
  refine List.ext_getElem ?_ ?_
  · simp only [length_contents, List.length_append, List.length_drop]
    omega
  · intro j hj _
    rw [length_contents] at hj
    simp only [contents, List.getElem_map, List.getElem_range, Nat.zero_le, if_true, Nat.sub_zero,
      List.getElem_append, List.getElem_drop]
    split_ifs with hjl
    · rw [List.getElem?_eq_getElem hjl, Option.getD_some]
    · rw [List.getElem?_eq_none (by omega), Option.getD_none]
      congr 1
      omega

end Block
