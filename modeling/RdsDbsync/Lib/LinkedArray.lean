/-
  Singly linked lists whose nodes are the entries of an array.

  A pointer is the index of an entry, or NULL; `next` is the array of links.
-/
import Mathlib.Data.List.Range
import Mathlib.Logic.Function.Basic

namespace LinkedArray

/-- The list that starts at a pointer: it visits these entries and ends at NULL. -/
inductive Chain (next : ℕ → Option ℕ) (size : ℕ) : Option ℕ → List ℕ → Prop where
  | nil : Chain next size none []
  | cons {i : ℕ} {l : List ℕ} (lt : i < size) (tail : Chain next size (next i) l) :
    Chain next size (some i) (i :: l)

/-- Every entry is linked to the one after it, the last one to nothing. -/
def Linked (size : ℕ) (next : ℕ → Option ℕ) : Prop :=
  ∀ i, next i = if i + 1 < size then some (i + 1) else none

variable {next : ℕ → Option ℕ} {size : ℕ} {p : Option ℕ} {l l' : List ℕ}

/-- There is only one list at a pointer. -/
theorem Chain.unique (h : Chain next size p l) (h' : Chain next size p l') : l = l' := by
  induction h generalizing l' with
  | nil =>
    cases h'
    rfl
  | cons _ _ ih =>
    cases h' with
    | cons _ tail' => rw [ih tail']

/-- The rest of a fully linked array. -/
theorem Linked.chain_from (h : Linked size next) {i : ℕ} (n : ℕ) (hi : i + n + 1 = size) :
    Chain next size (some i) (List.range' i (n + 1)) := by
  induction n generalizing i with
  | zero =>
    refine .cons (by omega) ?_
    rw [h i, if_neg (by omega)]
    exact .nil
  | succ n ih =>
    refine .cons (by omega) ?_
    rw [h i, if_pos (by omega)]
    exact ih (by omega)

/-- A fully linked array is the list of its entries in order. -/
theorem Linked.chain (h : Linked size next) (hpos : 0 < size) :
    Chain next size (some 0) (List.range size) := by
  obtain ⟨n, rfl⟩ : ∃ n, size = n + 1 := ⟨size - 1, by omega⟩
  rw [List.range_eq_range']
  exact h.chain_from n (by omega)

end LinkedArray
