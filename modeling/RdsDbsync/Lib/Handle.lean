/-
  A variable that points to a resource which is opened, used and closed.

  The resources are numbered in the order in which they are opened; the log has what
  happens to each of them.  A use or a close behind the close, and a pointer that is
  overwritten before its resource is closed, show in the log.
-/
import Mathlib.Data.List.Basic

universe u

/-- What happens to a resource. -/
inductive HandleEvent (κ : Type u) where
  | opened (id : ℕ)
  | call (c : κ) (id : ℕ)
  | closed (id : ℕ)
  /-- the variable no longer points to it -/
  | dropped (id : ℕ)
  deriving DecidableEq

namespace HandleEvent

variable {κ : Type u}

/-- Whether an event may follow the events `before`. -/
def Allowed (before : List (HandleEvent κ)) : HandleEvent κ → Prop
  | opened _ => True
  | call _ id | closed id => .opened id ∈ before ∧ .closed id ∉ before
  | dropped id => .closed id ∈ before

/-- Every event of a log was allowed when it happened. -/
def WellUsed (log : List (HandleEvent κ)) : Prop :=
  ∀ before e after, log = before ++ e :: after → e.Allowed before

theorem wellUsed_nil : WellUsed ([] : List (HandleEvent κ)) := by
  intro before e after h
  simp at h

theorem wellUsed_concat {log : List (HandleEvent κ)} {e : HandleEvent κ} :
    WellUsed (log ++ [e]) ↔ WellUsed log ∧ e.Allowed log := by
  constructor
  · intro h
    refine ⟨?_, h log e [] rfl⟩
    intro before e' after hlog
    refine h before e' (after ++ [e]) ?_
    rw [hlog, List.append_assoc, List.cons_append]
  · rintro ⟨hlog, he⟩ before e' after heq
    rcases List.eq_nil_or_concat after with rfl | ⟨after, x, rfl⟩
    · obtain ⟨rfl, h⟩ := List.append_inj' heq rfl
      obtain rfl := List.cons.inj h |>.1
      exact he
    · rw [List.concat_eq_append, ← List.cons_append, ← List.append_assoc] at heq
      exact hlog before e' after (List.append_inj' heq rfl).1

theorem WellUsed.of_append {log more : List (HandleEvent κ)} (h : WellUsed (log ++ more)) :
    WellUsed log := by
  intro before e after hlog
  refine h before e (after ++ more) ?_
  rw [hlog, List.append_assoc, List.cons_append]

end HandleEvent

open HandleEvent

/-- A variable that is NULL or points to a resource. -/
structure Handle (κ : Type u) where
  target : Option ℕ
  /-- the number of resources that have been opened -/
  count : ℕ
  log : List (HandleEvent κ)
  target_lt : ∀ id, target = some id → id < count
  closed_lt : ∀ id, .closed id ∈ log → id < count

namespace Handle

variable {κ : Type u}

/-- A variable that is NULL, before any resource has been opened. -/
def null : Handle κ where
  target := none
  count := 0
  log := []
  target_lt := by intro id h; cases h
  closed_lt := by intro id h; cases h

/-- What it means for the resource in the variable that another value is assigned to it. -/
def drops (h : Handle κ) : List (HandleEvent κ) := (h.target.map .dropped).toList

theorem closed_notMem_drops (h : Handle κ) (id : ℕ) : .closed id ∉ h.drops := by
  unfold drops
  cases h.target <;> simp

/-- NULL is assigned. -/
def clear (h : Handle κ) : Handle κ where
  target := none
  count := h.count
  log := h.log ++ h.drops
  target_lt := by intro id hid; cases hid
  closed_lt := by
    intro id hid
    rcases List.mem_append.1 hid with hid | hid
    · exact h.closed_lt id hid
    · exact absurd hid (h.closed_notMem_drops id)

/-- A resource is opened and assigned. -/
def openNew (h : Handle κ) : Handle κ where
  target := some h.count
  count := h.count + 1
  log := h.log ++ h.drops ++ [.opened h.count]
  target_lt := by
    intro id hid
    cases hid
    exact Nat.lt_succ_self _
  closed_lt := by
    intro id hid
    rcases List.mem_append.1 hid with hid | hid
    · rcases List.mem_append.1 hid with hid | hid
      · exact Nat.lt_succ_of_lt (h.closed_lt id hid)
      · exact absurd hid (h.closed_notMem_drops id)
    · rw [List.mem_singleton] at hid
      cases hid

/-- A call on the resource; on NULL it does nothing. -/
def call (h : Handle κ) (c : κ) : Handle κ where
  target := h.target
  count := h.count
  log := h.log ++ (h.target.map (.call c)).toList
  target_lt := h.target_lt
  closed_lt := by
    intro id hid
    rcases List.mem_append.1 hid with hid | hid
    · exact h.closed_lt id hid
    · cases ht : h.target <;> simp [ht] at hid

/-- The resource is closed; on NULL this does nothing, and the variable stays as it is. -/
def close (h : Handle κ) : Handle κ where
  target := h.target
  count := h.count
  log := h.log ++ (h.target.map .closed).toList
  target_lt := h.target_lt
  closed_lt := by
    intro id hid
    rcases List.mem_append.1 hid with hid | hid
    · exact h.closed_lt id hid
    · cases ht : h.target with
      | none => simp [ht] at hid
      | some t =>
        simp only [ht, Option.map_some, Option.toList_some, List.mem_singleton] at hid
        cases hid
        exact h.target_lt id ht

/-- Calls, one after the other. -/
def calls (h : Handle κ) (cs : List κ) : Handle κ := cs.foldl call h

/-- The variable is NULL or points to an open resource, and the log shows no misuse. -/
structure Sound (h : Handle κ) : Prop where
  live : ∀ id, h.target = some id → .opened id ∈ h.log ∧ .closed id ∉ h.log
  wellUsed : WellUsed h.log

/-! ## What keeps a handle sound -/

variable {h : Handle κ}

@[simp] theorem target_call (h : Handle κ) (c : κ) : (h.call c).target = h.target := rfl

@[simp] theorem target_close (h : Handle κ) : h.close.target = h.target := rfl

@[simp] theorem target_calls (h : Handle κ) (cs : List κ) : (h.calls cs).target = h.target := by
  induction cs generalizing h with
  | nil => rfl
  | cons c cs ih => exact ih (h.call c)

theorem Sound.of_null (ht : h.target = none) (hw : WellUsed h.log) : h.Sound := by
  refine ⟨?_, hw⟩
  intro id hid
  rw [ht] at hid
  cases hid

theorem sound_null : (null : Handle κ).Sound := .of_null rfl wellUsed_nil

theorem Sound.call (hs : h.Sound) (c : κ) : (h.call c).Sound := by
  cases ht : h.target with
  | none =>
    have hlog : (h.call c).log = h.log := by simp [Handle.call, ht]
    exact .of_null ht (hlog ▸ hs.wellUsed)
  | some id =>
    have hlive := hs.live id ht
    have hlog : (h.call c).log = h.log ++ [.call c id] := by simp [Handle.call, ht]
    constructor
    · intro id' hid'
      rw [target_call, ht] at hid'
      cases hid'
      rw [hlog]
      exact ⟨List.mem_append_left _ hlive.1, by simpa using hlive.2⟩
    · rw [hlog, wellUsed_concat]
      exact ⟨hs.wellUsed, hlive⟩

theorem Sound.calls (hs : h.Sound) (cs : List κ) : (h.calls cs).Sound := by
  induction cs generalizing h with
  | nil => exact hs
  | cons c cs ih => exact ih (hs.call c)

theorem log_openNew (ht : h.target = none) : h.openNew.log = h.log ++ [.opened h.count] := by
  simp [Handle.openNew, Handle.drops, ht]

/-- What is opened is fresh. -/
theorem Sound.openNew (hs : h.Sound) (ht : h.target = none) : h.openNew.Sound := by
  constructor
  · intro id hid
    cases hid
    rw [log_openNew ht]
    refine ⟨by simp, ?_⟩
    intro hclosed
    rcases List.mem_append.1 hclosed with hclosed | hclosed
    · exact absurd (h.closed_lt _ hclosed) (Nat.lt_irrefl _)
    · simp at hclosed
  · rw [log_openNew ht, wellUsed_concat]
    exact ⟨hs.wellUsed, trivial⟩

theorem Sound.clear (hs : h.Sound) (ht : h.target = none) : h.clear.Sound := by
  have hlog : h.clear.log = h.log := by simp [Handle.clear, Handle.drops, ht]
  exact .of_null rfl (hlog ▸ hs.wellUsed)

/-- A resource is closed before NULL is assigned. -/
theorem Sound.close_clear (hs : h.Sound) : h.close.clear.Sound := by
  refine .of_null rfl ?_
  cases ht : h.target with
  | none =>
    have hlog : h.close.clear.log = h.log := by
      simp [Handle.close, Handle.clear, Handle.drops, ht]
    exact hlog ▸ hs.wellUsed
  | some id =>
    have hlog : h.close.clear.log = h.log ++ [.closed id] ++ [.dropped id] := by
      simp [Handle.close, Handle.clear, Handle.drops, ht]
    rw [hlog, wellUsed_concat, wellUsed_concat]
    exact ⟨⟨hs.wellUsed, hs.live id ht⟩, List.mem_append_right _ List.mem_cons_self⟩

/-! ## What does not -/

/-- Calls add to the log. -/
theorem log_calls (h : Handle κ) (cs : List κ) : h.log <+: (h.calls cs).log := by
  induction cs generalizing h with
  | nil => exact List.prefix_refl _
  | cons c cs ih => exact (List.prefix_append _ _).trans (ih (h.call c))

/-- They keep the traces of what went wrong before. -/
theorem wellUsed_of_calls (cs : List κ) (hw : WellUsed (h.calls cs).log) : WellUsed h.log := by
  obtain ⟨more, hmore⟩ := h.log_calls cs
  rw [← hmore] at hw
  exact hw.of_append

/-- A resource that has been closed is still pointed to. -/
theorem not_sound_calls_close {id : ℕ} (ht : h.target = some id) (cs : List κ) :
    ¬ (h.close.calls cs).Sound := by
  intro hs
  refine (hs.live id ?_).2 ((h.close.log_calls cs).subset ?_)
  · rw [target_calls, target_close, ht]
  · simp [Handle.close, ht]

/-- A resource that is open is lost when the variable is overwritten. -/
theorem Sound.not_wellUsed_openNew (hs : h.Sound) {id : ℕ} (ht : h.target = some id) :
    ¬ WellUsed h.openNew.log := by
  have hlog : h.openNew.log = h.log ++ [.dropped id] ++ [.opened h.count] := by
    simp [Handle.openNew, Handle.drops, ht]
  rw [hlog, wellUsed_concat, wellUsed_concat]
  rintro ⟨⟨-, hclosed⟩, -⟩
  exact (hs.live id ht).2 hclosed

theorem Sound.not_wellUsed_clear (hs : h.Sound) {id : ℕ} (ht : h.target = some id) :
    ¬ WellUsed h.clear.log := by
  have hlog : h.clear.log = h.log ++ [.dropped id] := by
    simp [Handle.clear, Handle.drops, ht]
  rw [hlog, wellUsed_concat]
  rintro ⟨-, hclosed⟩
  exact (hs.live id ht).2 hclosed

end Handle
