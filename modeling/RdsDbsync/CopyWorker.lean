/-
  What `all_ok` of a worker of the full copy says about the tables that it took.

  One worker runs on its own; the shared list of tables and the number of source
  transactions are what the rest of the system makes of them by the time of each step.
-/
import RdsDbsync.EndMark

namespace RdsDbsync

universe u v
variable {Tbl : Type u} {Row : Type v}

/-! ## Runs of one worker -/

/-- A worker with what it has taken and committed so far. -/
structure CopyWorker (Tbl : Type u) (Row : Type v) where
  thread : CopyThread Tbl Row := {}
  committed : List (TableCopy Tbl Row) := []
  /-- The tables that it took from the list, which no step reads. -/
  popped : List Tbl := []

/-- A step of the worker, with the list of tables and the source as it finds them. -/
structure CopyMoment (Tbl : Type u) where
  tasks : List Tbl := []
  commits : ℕ := 0
  event : CopyEvent

/-- One step; the source's rows, `snapshot` and `desc_is_greenplum` are those of `env`. -/
def CopyWorker.step (env : CopyEnv Tbl Row) (s : CopyWorker Tbl Row) (m : CopyMoment Tbl) :
    Option (CopyWorker Tbl Row) :=
  (s.thread.step { env with commits := m.commits } m.tasks m.event).map fun r =>
    { thread := r.thread
      committed := s.committed ++ r.committed
      popped := s.popped ++ if m.event = .take then m.tasks.head?.toList else [] }

/-! ## The property -/

/-- **Success is truthful**: if `all_ok` is set, every table that the worker took is completely
copied and committed. -/
def SuccessTruthful (rows : Tbl → ℕ → List Row) (s : CopyWorker Tbl Row) : Prop :=
  s.thread.pc = .finished true → ∀ t ∈ s.popped, Copied rows s.committed t

/-- The rows that the source has still to send. -/
def CopyPc.left : CopyPc Tbl Row → List Row
  | .copying _ _ _ left => left
  | _ => []

/-- The source's COPY does not end with an error while rows are left, and the COMMIT of a
transaction with a copy in it does not fail. -/
def NoHiddenFailure (s : CopyWorker Tbl Row) (m : CopyMoment Tbl) : Prop :=
  match m.event with
  | .noRow .serverError => s.thread.pc.left.isEmpty = true
  | .finishTarget answer => s.thread.target.isActive = true → answer = .ok
  | _ => True

instance (s : CopyWorker Tbl Row) : ∀ m, Decidable (NoHiddenFailure s m)
  | ⟨_, _, .noRow .serverError⟩ => inferInstanceAs (Decidable (_ = true))
  | ⟨_, _, .finishTarget _⟩ => inferInstanceAs (Decidable (_ → _))
  | ⟨_, _, .noRow .done⟩ | ⟨_, _, .noRow .failed⟩ | ⟨_, _, .connect _⟩ | ⟨_, _, .take⟩
  | ⟨_, _, .beginOrigin _⟩ | ⟨_, _, .beginTarget _⟩ | ⟨_, _, .copyTo _⟩ | ⟨_, _, .copyFrom _⟩
  | ⟨_, _, .row _⟩ | ⟨_, _, .putEnd _⟩ | ⟨_, _, .getResult _⟩ | ⟨_, _, .finishOrigin _⟩ =>
    inferInstanceAs (Decidable True)

/-! ## The invariant -/

/-- Every table that was taken is being copied or is copied. -/
structure WorkerInv (rows : Tbl → ℕ → List Row) (s : CopyWorker Tbl Row) : Prop where
  valid : s.thread.Valid rows s.committed []
  popped : s.thread.pc = .finished false ∨
    ∀ t ∈ s.popped, s.thread.pc.table = some t ∨ Copied rows s.committed t

section
variable {env : CopyEnv Tbl Row} {s s' : CopyWorker Tbl Row} {m : CopyMoment Tbl}

/-- Without a hidden failure, a worker that drops its table gives up. -/
theorem step_dropped {tasks : List Tbl} {r : CopyStep Tbl Row} (hok : NoHiddenFailure s m)
    (h : s.thread.step env tasks m.event = some r) :
    r.dropped = [] ∨ r.thread.pc = .finished false := by
  cases hpc : s.thread.pc <;> cases he : m.event <;>
    simp only [CopyThread.step, hpc, he, reduceCtorEq] at h
  case connecting.connect ok => cases h; exact Or.inl rfl
  case taking.take =>
    cases tasks with
    | nil => cases h; exact Or.inl rfl
    | cons => cases h; exact Or.inl rfl
  case beginOrigin.beginOrigin t answer =>
    obtain ⟨_, -, rfl⟩ := Option.map_eq_some_iff.1 h
    exact Or.inl rfl
  case beginTarget.beginTarget t answer =>
    obtain ⟨_, -, rfl⟩ := Option.map_eq_some_iff.1 h
    exact Or.inl rfl
  case copyTo.copyTo t ok =>
    split_ifs at h
    · obtain ⟨_, -, rfl⟩ := Option.map_eq_some_iff.1 h
      exact Or.inl rfl
    · cases h; exact Or.inr rfl
  case copyFrom.copyFrom t p ok =>
    split_ifs at h
    · split at h
      · cases h
      · cases h; exact Or.inl rfl
    · cases h; exact Or.inr rfl
  case copying.row t p sent left ok =>
    cases left with
    | nil => cases h
    | cons row left =>
      cases ok <;> cases h
      · exact Or.inr rfl
      · exact Or.inl rfl
  case copying.noRow t p sent left reason =>
    cases reason <;> cases left <;> cases h
    case serverError.cons =>
      simp only [NoHiddenFailure, hpc, he, CopyPc.left, List.isEmpty_cons, Bool.false_eq_true] at hok
    all_goals first | exact Or.inl rfl | exact Or.inr rfl
  case putEnd.putEnd t p sent ok =>
    split_ifs at h <;> cases h
    · exact Or.inl rfl
    · exact Or.inr rfl
  case getResult.getResult t p sent ok =>
    split_ifs at h
    · obtain ⟨_, -, rfl⟩ := Option.map_eq_some_iff.1 h
      exact Or.inl rfl
    · cases h; exact Or.inr rfl
  case finishOrigin.finishOrigin t ok => cases h; exact Or.inl rfl
  case finishTarget.finishTarget t answer =>
    obtain ⟨_, -, rfl⟩ := Option.map_eq_some_iff.1 h
    simp only [NoHiddenFailure, he] at hok
    exact Or.inl (if_neg fun hd => hd.2 (hok hd.1))

/-- A step keeps the table that the worker has, unless it is copied or the worker gives up. -/
theorem step_table {tasks : List Tbl} {r : CopyStep Tbl Row} {t : Tbl}
    (hok : NoHiddenFailure s m) (h : s.thread.step env tasks m.event = some r)
    (hv : s.thread.Valid env.rows s.committed []) (ht : s.thread.pc.table = some t) :
    r.thread.pc = .finished false ∨ r.thread.pc.table = some t ∨
      Copied env.rows (s.committed ++ r.committed) t := by
  generalize he : m.event = e at h
  cases CopyThread.step_cases h with
  | connected pc | notConnected pc | noTask pc | took pc =>
    rw [pc] at ht
    cases ht
  | gaveUp => exact Or.inl rfl
  | originBegun pc | targetBegun pc | reading pc | opened pc | sentRow pc | lastRow pc | cutOff pc
  | endSent pc | result pc | originFinished pc =>
    rw [pc] at ht
    exact Or.inr (Or.inl ht)
  | targetFinished pc finish =>
    rw [pc] at ht
    obtain rfl := Option.some.inj ht
    simp only [CopyThread.Valid, pc, List.not_mem_nil, false_or] at hv
    refine Or.inr (Or.inr ?_)
    rcases hv with hcopied | ⟨copies, htx, hcopied⟩
    · exact hcopied.mono _
    · -- the COMMIT of the transaction succeeded
      have hactive : s.thread.target.isActive = true := by rw [htx]; rfl
      simp only [NoHiddenFailure, he] at hok
      rw [hok hactive, htx] at finish
      obtain ⟨-, rfl⟩ := Prod.mk.inj (Option.some.inj finish)
      exact hcopied.append_right _

/-- A worker takes a table from the list only at the head of its loop. -/
theorem step_popped {tasks : List Tbl} {r : CopyStep Tbl Row} {t : Tbl}
    (h : s.thread.step env tasks .take = some r) (ht : tasks.head? = some t) :
    r.thread.pc.table = some t := by
  cases hpc : s.thread.pc <;> simp only [CopyThread.step, hpc, reduceCtorEq] at h
  cases tasks with
  | nil => cases ht
  | cons t' rest =>
    cases h
    exact ht

/-- **One step keeps the invariant.** -/
theorem workerInv_step (hI : WorkerInv env.rows s) (hok : NoHiddenFailure s m)
    (h : s.step env m = some s') : WorkerInv env.rows s' := by
  obtain ⟨r, hr, rfl⟩ := Option.map_eq_some_iff.1 h
  by_cases hgave : r.thread.pc = .finished false
  · refine ⟨?_, Or.inl hgave⟩
    simp only [CopyThread.Valid, hgave]
  have hdropped := (step_dropped hok hr).resolve_right hgave
  have hv : r.thread.Valid env.rows (s.committed ++ r.committed) ([] ++ r.dropped) :=
    (CopyThread.step_cases hr).valid hI.valid
  rw [hdropped] at hv
  refine ⟨hv, Or.inr ?_⟩
  intro t ht
  rcases List.mem_append.1 ht with ht | ht
  · -- a table that was taken before
    rcases hI.popped with hfalse | hpopped
    · have hend := (CopyThread.step_cases hr).not_finished
      rw [hfalse] at hend
      cases hend
    · rcases hpopped t ht with htable | hcopied
      · exact (step_table hok hr hI.valid htable).resolve_left hgave
      · exact Or.inr (hcopied.mono _)
  · split_ifs at ht with htake
    · rw [htake] at hr
      exact Or.inl (step_popped hr (Option.mem_toList.1 ht))
    · cases ht

theorem workerInv_init (rows : Tbl → ℕ → List Row) : WorkerInv rows {} where
  valid := trivial
  popped := Or.inr nofun

/-- **A worker that reports success copied every table that it took**, in every run without a
hidden failure. -/
theorem successTruthful_of_run {ms : List (CopyMoment Tbl)}
    (hm : StepMachine.Meets (CopyWorker.step env) NoHiddenFailure {} ms)
    (hr : StepMachine.run (CopyWorker.step env) {} ms = some s) :
    SuccessTruthful env.rows s := by
  intro hpc t ht
  have hI : WorkerInv env.rows s := StepMachine.run_invariant
    (fun _ _ _ hI hok h => workerInv_step hI hok h) (workerInv_init env.rows) hm hr
  rcases hI.popped with hfalse | hpopped
  · rw [hpc] at hfalse
    cases hfalse
  · rcases hpopped t ht with htable | hcopied
    · rw [hpc] at htable
      cases htable
    · exact hcopied

end

/-! ## A table of three rows -/

/-- The table 0 has the rows 0, 1 and 2. -/
def threeRows : CopyEnv ℕ ℕ where
  rows _ _ := [0, 1, 2]
  commits := 0
  snapshot := none
  descIsGreenplum := false

/-- The worker takes the table, reads as many rows as it gets, and commits them. -/
def copyThreeRows (answers : List CopyEvent) : List (CopyMoment ℕ) :=
  let events : List CopyEvent :=
    [.beginOrigin .ok, .beginTarget .ok, .copyTo true, .copyFrom true] ++ answers ++
      [.putEnd true, .getResult true, .finishOrigin true, .finishTarget .ok, .take]
  ⟨[], 0, .connect true⟩ :: ⟨[0], 0, .take⟩ :: events.map fun event => { event }

theorem successTruthful_threeRows :
    ∃ s, StepMachine.run (CopyWorker.step threeRows) {}
        (copyThreeRows [.row true, .row true, .row true, .noRow .done]) = some s ∧
      (s.thread.pc = .finished true ∧ s.popped = [0]) ∧ SuccessTruthful threeRows.rows s := by
  have hr : (StepMachine.run (CopyWorker.step threeRows) {}
      (copyThreeRows [.row true, .row true, .row true, .noRow .done])).map
        (fun s => (s.thread.pc, s.popped)) = some (.finished true, [0]) := by decide
  obtain ⟨s, hs, h⟩ := Option.map_eq_some_iff.1 hr
  exact ⟨s, hs, Prod.mk.inj h, successTruthful_of_run (by decide) hs⟩

/-- The source's COPY fails after the first row. -/
theorem truncated_threeRows :
    ∃ s, StepMachine.run (CopyWorker.step threeRows) {}
        (copyThreeRows [.row true, .noRow .serverError]) = some s ∧
      (s.thread.pc = .finished true ∧ s.popped = [0] ∧ s.committed = [⟨0, 0, [0]⟩]) ∧
      ¬ SuccessTruthful threeRows.rows s := by
  have hr : (StepMachine.run (CopyWorker.step threeRows) {}
      (copyThreeRows [.row true, .noRow .serverError])).map
        (fun s => (s.thread.pc, s.popped, s.committed)) =
      some (.finished true, [0], [⟨0, 0, [0]⟩]) := by decide
  obtain ⟨s, hs, h⟩ := Option.map_eq_some_iff.1 hr
  simp only [Prod.mk.injEq] at h
  refine ⟨s, hs, h, ?_⟩
  intro htrue
  obtain ⟨copy, hmem, -, hrows⟩ := htrue h.1 0 (by rw [h.2.1]; exact List.mem_singleton_self _)
  rw [h.2.2] at hmem
  obtain rfl := List.mem_singleton.1 hmem
  cases hrows

end RdsDbsync
