/-
  Lists in the order of a position: what lies at or after a position is a suffix.
-/
import Mathlib.Data.List.Basic
import Mathlib.Data.List.TakeDrop
import Mathlib.Order.Lattice

namespace OrderedLog

universe u v
variable {α : Type u} {κ : Type v} [LinearOrder κ] (key : α → κ)

/-- The entries at or after the position `pos`. -/
def since (pos : κ) (l : List α) : List α := l.filter fun a => pos ≤ key a

/-- The entries before it. -/
def before (pos : κ) (l : List α) : List α := l.filter fun a => key a < pos

/-- The entries after it. -/
def after (pos : κ) (l : List α) : List α := l.filter fun a => pos < key a

/-- The entries up to and at it. -/
def upTo (pos : κ) (l : List α) : List α := l.filter fun a => key a ≤ pos

variable {key} {pos : κ} {l l' : List α}

/-- **Resuming an ordered log** at a position skips exactly the entries before it. -/
theorem since_eq_drop (h : l.Pairwise fun a b => key a < key b) :
    since key pos l = l.drop (before key pos l).length := by
  induction l with
  | nil => rfl
  | cons a l ih =>
    rw [List.pairwise_cons] at h
    by_cases ha : key a < pos
    · rw [since, before, List.filter_cons_of_neg (by simpa using ha),
        List.filter_cons_of_pos (by simpa using ha), List.length_cons, List.drop_succ_cons]
      exact ih h.2
    · have hall : ∀ b ∈ l, pos ≤ key b := fun b hb => le_trans (not_lt.1 ha) (le_of_lt (h.1 b hb))
      have hnone : l.filter (fun b => decide (key b < pos)) = [] :=
        List.filter_eq_nil_iff.2 fun b hb => by simpa using hall b hb
      rw [since, before, List.filter_cons_of_pos (by simpa using ha),
        List.filter_cons_of_neg (by simpa using ha), hnone,
        List.filter_eq_self.2 fun b hb => by simpa using hall b hb]
      rfl

/-- An ordered log whose entries from the `d`-th on are not before a position has at most `d`
entries before it. -/
theorem length_before_le {d : ℕ} (h : ∀ a ∈ l.drop d, pos ≤ key a) :
    (before key pos l).length ≤ d := by
  have hnone : (l.drop d).filter (fun a => decide (key a < pos)) = [] :=
    List.filter_eq_nil_iff.2 fun a ha => by simpa using h a ha
  calc (before key pos l).length
      = ((l.take d ++ l.drop d).filter fun a => decide (key a < pos)).length := by
        rw [List.take_append_drop]; rfl
    _ = ((l.take d).filter fun a => decide (key a < pos)).length := by
        rw [List.filter_append, hnone, List.append_nil]
    _ ≤ (l.take d).length := List.length_filter_le _ _
    _ ≤ d := by rw [List.length_take]; exact Nat.min_le_left _ _

theorem after_append (h : ∀ a ∈ l, key a ≤ pos) (h' : ∀ a ∈ l', pos < key a) :
    after key pos (l ++ l') = l' := by
  have hnone : l.filter (fun a => decide (pos < key a)) = [] :=
    List.filter_eq_nil_iff.2 fun a ha => by simpa using h a ha
  rw [after, List.filter_append, hnone, List.nil_append]
  exact List.filter_eq_self.2 fun a ha => by simpa using h' a ha

theorem upTo_append (h : ∀ a ∈ l, key a ≤ pos) (h' : ∀ a ∈ l', pos < key a) :
    upTo key pos (l ++ l') = l := by
  have hnone : l'.filter (fun a => decide (key a ≤ pos)) = [] :=
    List.filter_eq_nil_iff.2 fun a ha => by simpa using h' a ha
  rw [upTo, List.filter_append, hnone, List.append_nil]
  exact List.filter_eq_self.2 fun a ha => by simpa using h a ha

/-- What is after a position ends the log. -/
theorem after_suffix (h : l.Pairwise fun a b => key a < key b) : after key pos l <:+ l := by
  induction l with
  | nil => exact List.suffix_rfl
  | cons a l ih =>
    rw [List.pairwise_cons] at h
    by_cases ha : pos < key a
    · have hall : after key pos (a :: l) = a :: l := by
        refine List.filter_eq_self.2 ?_
        intro b hb
        rcases List.mem_cons.1 hb with rfl | hb
        · simpa using ha
        · simpa using ha.trans (h.1 b hb)
      exact ⟨[], hall⟩
    · rw [after, List.filter_cons_of_neg (by simpa using ha)]
      exact (ih h.2).trans (List.suffix_cons a l)

/-- What is before an entry and after it. -/
theorem around {a : α} (h : (l ++ a :: l').Pairwise fun a b => key a < key b) :
    before key (key a) (l ++ a :: l') = l ∧ after key (key a) (l ++ a :: l') = l' := by
  obtain ⟨-, ht, hlt⟩ := List.pairwise_append.1 h
  have hafter := (List.pairwise_cons.1 ht).1
  have hbefore : ∀ b ∈ l, key b < key a := fun b hb => hlt b hb a List.mem_cons_self
  constructor
  · have hnone : (a :: l').filter (fun b => decide (key b < key a)) = [] := by
      refine List.filter_eq_nil_iff.2 ?_
      intro b hb
      rcases List.mem_cons.1 hb with rfl | hb
      · simp
      · simpa using le_of_lt (hafter b hb)
    rw [before, List.filter_append, hnone, List.append_nil]
    exact List.filter_eq_self.2 fun b hb => by simpa using hbefore b hb
  · rw [List.append_cons]
    refine after_append ?_ hafter
    intro b hb
    rcases List.mem_append.1 hb with hb | hb
    · exact le_of_lt (hbefore b hb)
    · rw [List.mem_singleton.1 hb]

end OrderedLog
