/-
  Tables of rows under a key, and statements that name their row by the key.

  A list of statements takes a table through a list of tables.  A table is ahead of that
  list if under each key it holds what some of the later tables hold, column by column.
  Statements that are run once more take a table that is ahead to one that is ahead, and
  at the end of the list to the last table, as long as no statement acts on a row that
  the list has moved away.
-/
import Mathlib.Data.Fintype.Defs
import Mathlib.Logic.Function.Basic
import Mathlib.Tactic.SplitIfs

universe u v w

/-- The row under each key. -/
abbrev KeyedTable (K : Type u) (C : Type v) (V : Type w) := K → Option (C → V)

/-- A statement on the row under a key. -/
inductive KeyedStmt (K : Type u) (C : Type v) (V : Type w) where
  | insert (key : K) (row : C → V)
  /-- The new key, and the columns that are set. -/
  | update (key newKey : K) (set : C → Option V)
  | delete (key : K)

/-- The keys that a statement can touch. -/
def KeyedStmt.keys {K : Type u} {C : Type v} {V : Type w} : KeyedStmt K C V → List K
  | .insert k _ | .delete k => [k]
  | .update k k' _ => [k, k']

/-- The statement is an INSERT. -/
def KeyedStmt.isInsert {K : Type u} {C : Type v} {V : Type w} : KeyedStmt K C V → Bool
  | .insert _ _ => true
  | .delete _ | .update _ _ _ => false

/-- The statement is a DELETE. -/
def KeyedStmt.isDelete {K : Type u} {C : Type v} {V : Type w} : KeyedStmt K C V → Bool
  | .delete _ => true
  | .insert _ _ | .update _ _ _ => false

namespace KeyedTable

variable {K : Type u} {C : Type v} {V : Type w}

/-! ## Statements -/

/-- The row after the columns are set. -/
def overwrite (set : C → Option V) (row : C → V) : C → V := fun c => (set c).getD (row c)

section
variable [DecidableEq K]

/-- The table after a statement; `none` is a duplicate key. -/
def exec (t : KeyedTable K C V) : KeyedStmt K C V → Option (KeyedTable K C V)
  | .insert k row => if t k = none then some (Function.update t k (some row)) else none
  | .update k k' set =>
    match t k with
    | none => some t
    | some row =>
      if k' = k ∨ t k' = none then
        some (Function.update (Function.update t k none) k' (some (overwrite set row)))
      else none
  | .delete k => some (Function.update t k none)

/-- The table after a statement that changes nothing if it fails. -/
def attempt (t : KeyedTable K C V) (s : KeyedStmt K C V) : KeyedTable K C V := (t.exec s).getD t

/-- The table after the statements, if none fails. -/
def execAll : KeyedTable K C V → List (KeyedStmt K C V) → Option (KeyedTable K C V)
  | t, [] => some t
  | t, s :: ss => (t.exec s).bind fun t' => execAll t' ss

/-- The tables that the statements lead through. -/
def states : KeyedTable K C V → List (KeyedStmt K C V) → List (KeyedTable K C V)
  | t, [] => [t]
  | t, s :: ss => t :: ((t.exec s).map fun t' => states t' ss).getD []

variable {t t' : KeyedTable K C V} {s : KeyedStmt K C V} {ss ss' : List (KeyedStmt K C V)}

theorem attempt_of_exec (h : t.exec s = some t') : t.attempt s = t' := by simp [attempt, h]

theorem attempt_of_notMem {x : K} (h : x ∉ s.keys) : t.attempt s x = t x := by
  cases s with
  | insert k row =>
    have hx : x ≠ k := by simpa [KeyedStmt.keys] using h
    by_cases hk : t k = none <;> simp [attempt, exec, hk, hx]
  | delete k =>
    have hx : x ≠ k := by simpa [KeyedStmt.keys] using h
    simp [attempt, exec, hx]
  | update k k' set =>
    obtain ⟨hx, hx'⟩ : x ≠ k ∧ x ≠ k' := by simpa [KeyedStmt.keys] using h
    cases hk : t k with
    | none => simp [attempt, exec, hk]
    | some row => by_cases hf : k' = k ∨ t k' = none <;> simp [attempt, exec, hk, hf, hx, hx']

@[simp] theorem attempt_insert (k : K) (row : C → V) :
    t.attempt (.insert k row) k = some ((t k).getD row) := by
  cases hk : t k <;> simp [attempt, exec, hk]

@[simp] theorem attempt_delete (k : K) : t.attempt (.delete k) k = none := by simp [attempt, exec]

@[simp] theorem attempt_update_self (k : K) (set : C → Option V) :
    t.attempt (.update k k set) k = (t k).map (overwrite set) := by
  cases hk : t k <;> simp [attempt, exec, hk]

/-- An update of the key moves the row if there is one and its place is free. -/
theorem attempt_update {k k' : K} (hne : k' ≠ k) (set : C → Option V) :
    (t.attempt (.update k k' set) k, t.attempt (.update k k' set) k') =
      match t k, t k' with
      | some row, none => (none, some (overwrite set row))
      | row, row' => (row, row') := by
  cases hk : t k <;> cases hk' : t k' <;> simp [attempt, exec, hk, hk', hne, hne.symm]

theorem execAll_append (t : KeyedTable K C V) (ss ss' : List (KeyedStmt K C V)) :
    t.execAll (ss ++ ss') = (t.execAll ss).bind fun t' => t'.execAll ss' := by
  induction ss generalizing t with
  | nil => rfl
  | cons s ss ih =>
    cases h : t.exec s with
    | none => simp [execAll, h]
    | some t' => simp [execAll, h, ih t']

theorem states_cons (h : t.exec s = some t') (ss : List (KeyedStmt K C V)) :
    t.states (s :: ss) = t :: t'.states ss := by simp [states, h]

theorem mem_states (t : KeyedTable K C V) (ss : List (KeyedStmt K C V)) : t ∈ t.states ss := by
  cases ss <;> simp [states]

/-- What the later statements lead through, the whole list does. -/
theorem states_subset_append (h : t.execAll ss = some t') (ss' : List (KeyedStmt K C V)) :
    t'.states ss' ⊆ t.states (ss ++ ss') := by
  induction ss generalizing t with
  | nil =>
    cases h
    exact List.Subset.refl _
  | cons s ss ih =>
    obtain ⟨t₁, h₁, h₂⟩ := Option.bind_eq_some_iff.1 h
    rw [List.cons_append, states_cons h₁]
    intro u hu
    exact List.mem_cons_of_mem _ (ih h₂ hu)

end

/-! ## Tables that are ahead -/

/-- Some of the tables have no row under `k`; or some have one, and each column of `row` is the
column of one of those. -/
def Held (ts : List (KeyedTable K C V)) (k : K) : Option (C → V) → Prop
  | none => ∃ t ∈ ts, t k = none
  | some row => (∃ t ∈ ts, t k ≠ none) ∧ ∀ c, ∃ t ∈ ts, ∃ r, t k = some r ∧ r c = row c

instance [Fintype C] [DecidableEq V] (ts : List (KeyedTable K C V)) (k : K) :
    ∀ o, Decidable (Held ts k o)
  | none => inferInstanceAs (Decidable (∃ t ∈ ts, t k = none))
  | some row =>
    have (t : KeyedTable K C V) (c : C) : Decidable (∃ r, t k = some r ∧ r c = row c) :=
      decidable_of_iff ((t k).map (fun r => r c) = some (row c)) Option.map_eq_some_iff
    inferInstanceAs (Decidable ((∃ t ∈ ts, t k ≠ none) ∧
      ∀ c, ∃ t ∈ ts, ∃ r, t k = some r ∧ r c = row c))

/-- Under each key the table has what some of the tables have. -/
def Ahead (ts : List (KeyedTable K C V)) (t : KeyedTable K C V) : Prop := ∀ k, Held ts k (t k)

section
variable {ts ts' : List (KeyedTable K C V)} {t t' : KeyedTable K C V} {k : K} {o : Option (C → V)}

theorem Held.mono (h : Held ts k o) (hs : ts ⊆ ts') : Held ts' k o := by
  cases o with
  | none =>
    obtain ⟨t, ht, hk⟩ := h
    exact ⟨t, hs ht, hk⟩
  | some row =>
    obtain ⟨⟨t, ht, hk⟩, hc⟩ := h
    refine ⟨⟨t, hs ht, hk⟩, ?_⟩
    intro c
    obtain ⟨t, ht, hr⟩ := hc c
    exact ⟨t, hs ht, hr⟩

theorem held_of_mem (h : t ∈ ts) (hk : t k = o) : Held ts k o := by
  cases o with
  | none => exact ⟨t, h, hk⟩
  | some row => exact ⟨⟨t, h, by simp [hk]⟩, fun c => ⟨t, h, row, hk, rfl⟩⟩

/-- The first table adds nothing where a later one has the same. -/
theorem Held.tail (h : Held (t :: ts) k o) (ht : t' ∈ ts) (hk : t' k = t k) : Held ts k o := by
  cases o with
  | none =>
    obtain ⟨u, hu, hn⟩ := h
    rcases List.mem_cons.1 hu with rfl | hu
    · exact ⟨t', ht, hk.trans hn⟩
    · exact ⟨u, hu, hn⟩
  | some row =>
    obtain ⟨⟨u, hu, hn⟩, hc⟩ := h
    constructor
    · rcases List.mem_cons.1 hu with rfl | hu
      · exact ⟨t', ht, fun h => hn (hk ▸ h)⟩
      · exact ⟨u, hu, hn⟩
    · intro c
      obtain ⟨u, hu, r, hr, hrc⟩ := hc c
      rcases List.mem_cons.1 hu with rfl | hu
      · exact ⟨t', ht, r, hk.trans hr, hrc⟩
      · exact ⟨u, hu, r, hr, hrc⟩

/-- The first table holds no row that it does not have. -/
theorem Held.of_row {row : C → V} (h : Held (t :: ts) k (some row)) (hn : t k = none) :
    Held ts k (some row) := by
  obtain ⟨⟨u, hu, hk⟩, hc⟩ := h
  constructor
  · rcases List.mem_cons.1 hu with rfl | hu
    · exact absurd hn hk
    · exact ⟨u, hu, hk⟩
  · intro c
    obtain ⟨u, hu, r, hr, hrc⟩ := hc c
    rcases List.mem_cons.1 hu with rfl | hu
    · rw [hn] at hr
      cases hr
    · exact ⟨u, hu, r, hr, hrc⟩

theorem ahead_self (h : t ∈ ts) : Ahead ts t := fun _ => held_of_mem h rfl

theorem Ahead.mono (h : Ahead ts t) (hs : ts ⊆ ts') : Ahead ts' t := fun k => (h k).mono hs

/-- The columns that are set are those of the table after the statement, the others stay. -/
theorem held_overwrite {set : C → Option V} {r row : C → V} (hl : t' ∈ ts)
    (ht : t' k = some (overwrite set r))
    (hrow : ∀ c, set c = none → ∃ u ∈ ts, ∃ r', u k = some r' ∧ r' c = row c) :
    Held ts k (some (overwrite set row)) := by
  refine ⟨⟨t', hl, by simp [ht]⟩, ?_⟩
  intro c
  cases hc : set c with
  | none =>
    obtain ⟨u, hu, r', hr', hrc⟩ := hrow c hc
    exact ⟨u, hu, r', hr', by simp [overwrite, hc, hrc]⟩
  | some v => exact ⟨t', hl, _, ht, by simp [overwrite, hc]⟩

/-- Ahead of a single table is that table. -/
theorem Ahead.eq (h : Ahead [t'] t) : t = t' := by
  funext k
  have hk := h k
  cases ht : t k with
  | none =>
    rw [ht] at hk
    obtain ⟨u, hu, hn⟩ := hk
    rw [← List.mem_singleton.1 hu, hn]
  | some row =>
    rw [ht] at hk
    obtain ⟨⟨u, hu, hn⟩, hc⟩ := hk
    obtain rfl := List.mem_singleton.1 hu
    obtain ⟨r, hr⟩ := Option.ne_none_iff_exists'.1 hn
    rw [hr]
    congr 1
    funext c
    obtain ⟨v, hv, r', hr', hrc⟩ := hc c
    rw [List.mem_singleton.1 hv, hr] at hr'
    rw [← hrc, Option.some.inj hr']

end

/-! ## Statements that are run once more -/

/-- The list takes `t` on to `later` through the statement, which is run on `cur` once more:
an update of a row in place finds it in `t` if in `cur`; one that moves a row finds the row of
`t` where it keeps its columns, and otherwise leaves something that the list comes to. -/
def Harmless (t cur : KeyedTable K C V) (later : List (KeyedTable K C V)) : KeyedStmt K C V → Prop
  | .insert _ _ | .delete _ => True
  | .update k k' set =>
    (k' = k → t k = none → cur k = none) ∧
    (k' ≠ k → match cur k, cur k' with
      | none, there => Held later k' there
      | some row, none => ∃ r, t k = some r ∧ ∀ c, set c = none → row c = r c
      | some row, some _ => Held later k (some row))

instance [DecidableEq K] [Fintype C] [DecidableEq V] (t cur : KeyedTable K C V)
    (later : List (KeyedTable K C V)) : ∀ s, Decidable (Harmless t cur later s)
  | .insert _ _ | .delete _ => inferInstanceAs (Decidable True)
  | .update k k' set =>
    have : Decidable (match cur k, cur k' with
        | none, there => Held later k' there
        | some row, none => ∃ r, t k = some r ∧ ∀ c, set c = none → row c = r c
        | some row, some _ => Held later k (some row)) :=
      match cur k, cur k', t k with
      | none, there, _ => inferInstanceAs (Decidable (Held later k' there))
      | some row, none, some r =>
        decidable_of_iff (∀ c, set c = none → row c = r c) (by simp)
      | some _, none, none => isFalse (by simp)
      | some row, some _, _ => inferInstanceAs (Decidable (Held later k (some row)))
    inferInstanceAs (Decidable ((k' = k → t k = none → cur k = none) ∧ (k' ≠ k → _)))

section
variable [DecidableEq K] {t t' cur : KeyedTable K C V} {later : List (KeyedTable K C V)} {k k' : K}
  {s : KeyedStmt K C V}

/-- Only the keys of the statement matter. -/
theorem Ahead.of_keys (ha : Ahead (t :: later) cur) (hs : t.exec s = some t') (hl : t' ∈ later)
    (hkeys : ∀ x ∈ s.keys, Held later x (cur.attempt s x)) : Ahead later (cur.attempt s) := by
  intro x
  by_cases hx : x ∈ s.keys
  · exact hkeys x hx
  · rw [attempt_of_notMem hx]
    refine (ha x).tail hl ?_
    rw [← attempt_of_exec hs, attempt_of_notMem hx]

theorem Ahead.insert {row : C → V} (ha : Ahead (t :: later) cur)
    (hs : t.exec (.insert k row) = some t') (hl : t' ∈ later) :
    Ahead later (cur.attempt (.insert k row)) := by
  refine ha.of_keys hs hl ?_
  intro x hx
  obtain rfl := List.mem_singleton.1 hx
  have hfree : t x = none := by
    by_contra hx
    simp [exec, hx] at hs
  rw [attempt_insert]
  cases hc : cur x with
  | none => exact held_of_mem hl (by simp [← attempt_of_exec hs, hfree])
  | some r =>
    -- the row that is there is a later one
    exact (hc ▸ ha x).of_row hfree

theorem Ahead.delete (ha : Ahead (t :: later) cur) (hs : t.exec (.delete k) = some t')
    (hl : t' ∈ later) : Ahead later (cur.attempt (.delete k)) := by
  refine ha.of_keys hs hl ?_
  intro x hx
  obtain rfl := List.mem_singleton.1 hx
  exact held_of_mem hl (by simp [← attempt_of_exec hs])

theorem Ahead.updateInPlace {set : C → Option V} (ha : Ahead (t :: later) cur)
    (hs : t.exec (.update k k set) = some t') (hl : t' ∈ later) (hh : t k = none → cur k = none) :
    Ahead later (cur.attempt (.update k k set)) := by
  refine ha.of_keys hs hl ?_
  intro x hx
  obtain rfl : x = k := by simpa [KeyedStmt.keys] using hx
  have hx' : t' x = (t x).map (overwrite set) := by rw [← attempt_of_exec hs, attempt_update_self]
  rw [attempt_update_self]
  cases hc : cur x with
  | none =>
    obtain ⟨u, hu, hn⟩ := hc ▸ ha x
    rcases List.mem_cons.1 hu with rfl | hu
    · exact held_of_mem hl (by simp [hx', hn])
    · exact held_of_mem hu hn
  | some row =>
    obtain ⟨r, hr⟩ : ∃ r, t x = some r :=
      Option.ne_none_iff_exists'.1 fun h => by simp [hh h] at hc
    rw [hr] at hx'
    refine held_overwrite hl hx' ?_
    intro c hcn
    obtain ⟨u, hu, q, hq, hqc⟩ := (hc ▸ ha x).2 c
    rcases List.mem_cons.1 hu with rfl | hu
    · -- the column is the one that the statement keeps
      obtain rfl : r = q := Option.some.inj (hr.symm.trans hq)
      exact ⟨_, hl, overwrite set r, hx', by simp [overwrite, hcn, hqc]⟩
    · exact ⟨u, hu, q, hq, hqc⟩

/-- What an update of the key does to the list's table: nothing, or it moves the row. -/
theorem exec_updateKey {set : C → Option V} (hne : k' ≠ k)
    (h : t.exec (.update k k' set) = some t') : t k = none ∧ t' = t ∨
      ∃ row, t k = some row ∧ t k' = none ∧ t' k = none ∧ t' k' = some (overwrite set row) := by
  have hpair := attempt_update (t := t) hne set
  rw [attempt_of_exec h] at hpair
  cases hk : t k with
  | none => exact Or.inl ⟨rfl, by simpa [exec, hk] using h.symm⟩
  | some row =>
    cases hk' : t k' with
    | none =>
      simp only [hk, hk', Prod.mk.injEq] at hpair
      exact Or.inr ⟨row, rfl, rfl, hpair⟩
    | some row' => simp [exec, hk, hk', hne] at h

theorem Ahead.updateKey {set : C → Option V} (hne : k' ≠ k) (ha : Ahead (t :: later) cur)
    (hs : t.exec (.update k k' set) = some t') (hl : t' ∈ later)
    (hh : match cur k, cur k' with
      | none, there => Held later k' there
      | some row, none => ∃ r, t k = some r ∧ ∀ c, set c = none → row c = r c
      | some row, some _ => Held later k (some row)) :
    Ahead later (cur.attempt (.update k k' set)) := by
  have hstay : ∀ x, t' = t → Held later x (cur x) := fun x h => (ha x).tail hl (congrFun h x)
  have hpair := attempt_update (t := cur) hne set
  suffices h : Held later k (cur.attempt (.update k k' set) k) ∧
      Held later k' (cur.attempt (.update k k' set) k') by
    refine ha.of_keys hs hl ?_
    intro x hx
    rcases List.mem_pair.1 hx with rfl | rfl
    exacts [h.1, h.2]
  cases hc : cur k with
  | none =>
    -- there is nothing to move
    simp only [hc, Prod.mk.injEq] at hpair hh
    rw [hpair.1, hpair.2]
    refine ⟨?_, hh⟩
    rcases exec_updateKey hne hs with ⟨-, heq⟩ | ⟨r, -, -, hgone, -⟩
    · exact hc ▸ hstay k heq
    · exact held_of_mem hl hgone
  | some row =>
    cases hc' : cur k' with
    | none =>
      -- the row is moved
      simp only [hc, hc', Prod.mk.injEq] at hpair hh
      obtain ⟨r, hr, hrow⟩ := hh
      rcases exec_updateKey hne hs with ⟨hn, -⟩ | ⟨q, hq, -, hgone, hmoved⟩
      · cases hn.symm.trans hr
      · obtain rfl : r = q := Option.some.inj (hr.symm.trans hq)
        rw [hpair.1, hpair.2]
        refine ⟨held_of_mem hl hgone, held_overwrite hl hmoved ?_⟩
        intro c hcn
        exact ⟨t', hl, _, hmoved, by simp [overwrite, hcn, hrow c hcn]⟩
    | some row' =>
      -- the statement is skipped
      simp only [hc, hc', Prod.mk.injEq] at hpair hh
      rw [hpair.1, hpair.2]
      refine ⟨hh, ?_⟩
      rcases exec_updateKey hne hs with ⟨-, heq⟩ | ⟨r, -, hfree, -, -⟩
      · exact hc' ▸ hstay k' heq
      · exact (hc' ▸ ha k').of_row hfree

/-- **A statement that is run once more** keeps the table ahead. -/
theorem Ahead.rerun (ha : Ahead (t :: later) cur) (hs : t.exec s = some t') (hl : t' ∈ later)
    (hh : Harmless t cur later s) : Ahead later (cur.attempt s) := by
  cases s with
  | insert k row => exact ha.insert hs hl
  | delete k => exact ha.delete hs hl
  | update k k' set =>
    by_cases hk : k' = k
    · subst hk
      exact ha.updateInPlace hs hl (hh.1 rfl)
    · exact ha.updateKey hk hs hl (hh.2 hk)

end

end KeyedTable
