/-
  Tokens that several holders take from a pool and put down: if no step of one holder makes
  tokens, there are never more of them.
-/
import Mathlib.Algebra.BigOperators.Group.Finset.Basic
import Mathlib.Algebra.Order.Group.Multiset
import Mathlib.Tactic.Abel

namespace Tokens

universe u v w
variable {σ : Type u} {M : Type v} [AddCommMonoid M]

/-! ## One holder's part of the whole -/

/-- The holders are a list. -/
theorem sum_set (f : σ → M) {holders : List σ} {i : ℕ} {h : σ} (hi : holders[i]? = some h) :
    ∃ others, (holders.map f).sum = f h + others ∧
      ∀ h', ((holders.set i h').map f).sum = f h' + others := by
  induction holders generalizing i with
  | nil => cases hi
  | cons holder holders ih =>
    cases i with
    | zero =>
      obtain rfl := Option.some.inj hi
      exact ⟨_, rfl, fun _ => rfl⟩
    | succ i =>
      obtain ⟨others, hsum, hset⟩ := ih hi
      refine ⟨f holder + others, ?_, ?_⟩
      · rw [List.map_cons, List.sum_cons, hsum, add_left_comm]
      · intro h'
        rw [List.set_cons_succ, List.map_cons, List.sum_cons, hset, add_left_comm]

/-- The holders are a family. -/
theorem sum_update {ι : Type w} [Fintype ι] [DecidableEq ι] (f : σ → M) (holders : ι → σ) (k : ι) :
    ∃ others, ∑ i, f (holders i) = f (holders k) + others ∧
      ∀ h', ∑ i, f (Function.update holders k h' i) = f h' + others := by
  refine ⟨∑ i ∈ Finset.univ.erase k, f (holders i), ?_, ?_⟩
  · exact (Finset.add_sum_erase _ _ (Finset.mem_univ k)).symm
  · intro h'
    have hrest : ∑ i ∈ Finset.univ.erase k, f (Function.update holders k h' i) =
        ∑ i ∈ Finset.univ.erase k, f (holders i) := by
      refine Finset.sum_congr rfl fun i hi => ?_
      rw [Function.update_of_ne (Finset.ne_of_mem_erase hi)]
    rw [← Finset.add_sum_erase _ _ (Finset.mem_univ k), hrest, Function.update_self]

/-! ## A step -/

variable [Preorder M] [AddLeftMono M]

/-- **A step of one holder**: it takes from the pool, and puts more down. -/
theorem total_le {pool pool' held held' more : M} (h : pool' + held' + more ≤ pool + held)
    (others done : M) : pool' + (held' + others) + (done + more) ≤ pool + (held + others) + done :=
  calc pool' + (held' + others) + (done + more)
      = pool' + held' + more + (others + done) := by abel
    _ = others + done + (pool' + held' + more) := add_comm _ _
    _ ≤ others + done + (pool + held) := by gcongr
    _ = pool + (held + others) + done := by abel

end Tokens
