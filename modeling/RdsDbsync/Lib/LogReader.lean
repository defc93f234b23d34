/-
  A reader of a log that resumes at a saved position: the positions it reads, in the
  order in which it reads them.
-/
import Mathlib.Data.List.Range

namespace LogReader

/-- The position after the last one. -/
def next (ks : List ℕ) : ℕ := (ks.getLast?.map (· + 1)).getD 0

/-- **In order**: no position is skipped.  From each the reader goes on to the one after it, or
back. -/
def InOrder (ks : List ℕ) : Prop := ∀ pre k post, ks = pre ++ k :: post → k ≤ next pre

@[simp] theorem next_nil : next [] = 0 := rfl

@[simp] theorem next_concat (ks : List ℕ) (k : ℕ) : next (ks ++ [k]) = k + 1 := by
  simp [next]

theorem inOrder_nil : InOrder [] := by
  intro pre k post h
  simp at h

/-- One more position keeps the order if it is not after the next one. -/
theorem inOrder_concat {ks : List ℕ} {k : ℕ} :
    InOrder (ks ++ [k]) ↔ InOrder ks ∧ k ≤ next ks := by
  constructor
  · intro h
    refine ⟨?_, h ks k [] rfl⟩
    rintro pre j post rfl
    exact h pre j (post ++ [k]) (by simp)
  · rintro ⟨h, hk⟩
    intro pre j post heq
    rcases List.eq_nil_or_concat post with rfl | ⟨post, last, rfl⟩
    · obtain ⟨rfl, hlast⟩ := List.append_inj' heq rfl
      rw [List.singleton_inj] at hlast
      exact hlast ▸ hk
    · refine h pre j post ?_
      rw [List.concat_eq_append, ← List.cons_append, ← List.append_assoc] at heq
      exact (List.append_inj' heq rfl).1

/-- **No gap**: every position before the next one was read. -/
theorem InOrder.mem {ks : List ℕ} (h : InOrder ks) {j : ℕ} (hj : j < next ks) : j ∈ ks := by
  induction ks using List.reverseRecOn with
  | nil => simp at hj
  | append_singleton ks k ih =>
    obtain ⟨h, hk⟩ := inOrder_concat.1 h
    rw [next_concat] at hj
    rcases Nat.lt_or_eq_of_le (Nat.le_of_lt_succ hj) with hj | rfl
    · exact List.mem_append_left _ (ih h (hj.trans_le hk))
    · exact List.mem_append_right _ (List.mem_singleton_self _)

/-! ## The reader -/

/-- A reader: the position it resumes at, the position it is at, and what it has read. -/
structure Reader where
  running : Bool := false
  saved : ℕ := 0
  applied : ℕ := 0
  executed : List ℕ := []

namespace Reader

/-- What a reader does. -/
inductive Step (r : Reader) : Reader → Prop where
  | start (running : r.running = false) : Step r { r with running := true, applied := r.saved }
  | execute (running : r.running = true) :
    Step r { r with executed := r.executed ++ [r.applied], applied := r.applied + 1 }
  /-- It stops before it knows that the entry was read. -/
  | lose (running : r.running = true) :
    Step r { r with executed := r.executed ++ [r.applied], running := false }
  | save (running : r.running = true) : Step r { r with saved := r.applied }
  | stop (running : r.running = true) : Step r { r with running := false }

/-- The invariant. -/
structure Inv (r : Reader) : Prop where
  inOrder : InOrder r.executed
  saved : r.saved ≤ next r.executed
  running : r.running = true → r.saved ≤ r.applied ∧ r.applied ≤ next r.executed

theorem inv_init : Inv {} := ⟨inOrder_nil, Nat.le_refl _, fun h => by cases h⟩

variable {r r' : Reader}

/-- **One step** keeps the order. -/
theorem Inv.step (hI : Inv r) (h : Step r r') : Inv r' := by
  cases h with
  | start running => exact ⟨hI.inOrder, hI.saved, fun _ => ⟨Nat.le_refl _, hI.saved⟩⟩
  | execute running =>
    obtain ⟨hsaved, happlied⟩ := hI.running running
    refine ⟨inOrder_concat.2 ⟨hI.inOrder, happlied⟩, ?_, ?_⟩
    · rw [next_concat]
      exact Nat.le_succ_of_le hsaved
    · intro _
      rw [next_concat]
      exact ⟨Nat.le_succ_of_le hsaved, Nat.le_refl _⟩
  | lose running =>
    obtain ⟨hsaved, happlied⟩ := hI.running running
    refine ⟨inOrder_concat.2 ⟨hI.inOrder, happlied⟩, ?_, fun h => by cases h⟩
    rw [next_concat]
    exact Nat.le_succ_of_le hsaved
  | save running =>
    obtain ⟨-, happlied⟩ := hI.running running
    exact ⟨hI.inOrder, happlied, fun _ => ⟨Nat.le_refl _, happlied⟩⟩
  | stop running => exact ⟨hI.inOrder, hI.saved, fun h => by cases h⟩

/-- A reader that goes on running is at most one position further. -/
theorem Step.applied_le (h : Step r r') (hr : r.running = true) (hr' : r'.running = true) :
    r'.applied ≤ r'.saved ∨ r'.applied ≤ r.applied + 1 ∧ r'.saved = r.saved := by
  cases h with
  | start running =>
    rw [hr] at running
    cases running
  | execute _ => exact Or.inr ⟨Nat.le_refl _, rfl⟩
  | lose _ => cases hr'
  | save _ => exact Or.inl (Nat.le_refl _)
  | stop _ => cases hr'

theorem Step.executed_eq (h : Step r r') (hlen : r'.executed.length = r.executed.length) :
    r'.executed = r.executed := by
  cases h with
  | start _ | save _ | stop _ => rfl
  | execute _ | lose _ => simp at hlen

/-- No more than `w` positions from the saved one on were read. -/
def Within (w : ℕ) (r : Reader) : Prop := ∀ k ∈ r.executed, k < r.saved + w

/-- **A reader that saves its position often enough** goes back a bounded way. -/
theorem Within.step {w : ℕ} (hI : Inv r) (hw : Within w r) (h : Step r r')
    (hpos : r.running = true → r'.executed ≠ r.executed → r.applied < r.saved + w) :
    Within w r' := by
  have hconcat : r.running = true → r'.executed = r.executed ++ [r.applied] →
      ∀ k ∈ r.executed ++ [r.applied], k < r.saved + w := by
    intro running heq k hk
    rcases List.mem_append.1 hk with hk | hk
    · exact hw k hk
    · rw [List.mem_singleton.1 hk]
      exact hpos running (by simp [heq])
  cases h with
  | start _ => exact hw
  | execute running => exact hconcat running rfl
  | lose running => exact hconcat running rfl
  | save running =>
    intro k hk
    exact (hw k hk).trans_le (Nat.add_le_add_right (hI.running running).1 w)
  | stop _ => exact hw

/-- Every position before that of the reader was read once. -/
structure Once (r : Reader) : Prop where
  executed : r.executed = List.range r.executed.length
  running : r.running = true → r.applied = r.executed.length

/-- **A reader that starts only behind everything that was read** reads everything once. -/
theorem Once.step (ho : Once r) (h : Step r r')
    (hstart : r.running = false → r'.running = true → r.saved = r.executed.length) : Once r' := by
  have hconcat : r.running = true →
      r.executed ++ [r.applied] = List.range (r.executed ++ [r.applied]).length := by
    intro running
    rw [List.length_append, List.length_singleton, List.range_succ, ← ho.executed,
      ho.running running]
  cases h with
  | start running => exact ⟨ho.executed, fun _ => hstart running rfl⟩
  | execute running =>
    refine ⟨hconcat running, ?_⟩
    intro _
    simp [ho.running running]
  | lose running => exact ⟨hconcat running, fun h => by cases h⟩
  | save running => exact ⟨ho.executed, ho.running⟩
  | stop _ => exact ⟨ho.executed, fun h => by cases h⟩

end Reader

end LogReader
