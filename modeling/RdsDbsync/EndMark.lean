/-
  The end of the full sync: what `full_s_end` says about the tables that were copied.
-/
import RdsDbsync.FullSync

namespace RdsDbsync

universe u v
variable {Tbl : Type u} {Row : Type v}

/-! ## The property -/

/-- A copy has all rows of its snapshot. -/
def TableCopy.Complete (rows : Tbl → ℕ → List Row) (copy : TableCopy Tbl Row) : Prop :=
  copy.rows = rows copy.table copy.snapshot

/-- The table is completely copied and committed on the target. -/
def Copied (rows : Tbl → ℕ → List Row) (target : List (TableCopy Tbl Row)) (t : Tbl) : Prop :=
  ∃ copy ∈ target, copy.table = t ∧ copy.Complete rows

/-- **The end mark is truthful**: if `full_s_end` is set, every table of the lists it was set for is
completely copied and committed. -/
def EndTruthful (c : SyncConfig Tbl Row) (s : SyncSystem Tbl Row) : Prop :=
  s.fullEnd = true → ∀ t ∈ s.endTasks, Copied c.rows s.target t

/-- When `full_s_end` is set, all tables of the list were taken, and none of the steps of a worker
between the `COPY .. TO` of a table and its COMMIT failed. -/
def DrainedAtEnd (s : SyncSystem Tbl Row) : SyncEvent Tbl → Prop
  | .writeEnd ok => (ok && s.main.localConn) = true → s.queue = [] ∧ s.dropped = []
  | _ => True

instance [DecidableEq Tbl] (s : SyncSystem Tbl Row) : ∀ e, Decidable (DrainedAtEnd s e)
  | .writeEnd _ => inferInstanceAs (Decidable (_ → _ ∧ _))
  | .worker _ _ | .sourceCommit | .start _ | .connect _ | .connectLocal _ | .readStatus _
  | .findSlot _ | .createSlot _ | .beginCopy _ | .exportSnapshot _ | .listTables _ | .createThread
  | .writeStart _ | .joined | .kill => inferInstanceAs (Decidable True)

/-! ## A worker -/

/-- What a worker has copied of the table that it took, if the table is not dropped. -/
def CopyThread.Valid (rows : Tbl → ℕ → List Row) (target : List (TableCopy Tbl Row))
    (dropped : List Tbl) (w : CopyThread Tbl Row) : Prop :=
  match w.pc with
  | .copying t p sent left => sent ++ left = rows t p
  | .putEnd t p sent | .getResult t p sent => t ∈ dropped ∨ sent = rows t p
  | .finishOrigin t | .finishTarget t => t ∈ dropped ∨ Copied rows target t ∨
      ∃ copies, w.target = .active copies ∧ Copied rows copies t
  | _ => True

/-- The table is left, dropped, being copied, or copied. -/
def Accounted (rows : Tbl → ℕ → List Row) (target : List (TableCopy Tbl Row))
    (queue dropped : List Tbl) (threads : List (CopyThread Tbl Row)) (t : Tbl) : Prop :=
  t ∈ queue ∨ t ∈ dropped ∨ (∃ w ∈ threads, w.pc.table = some t) ∨ Copied rows target t

section
variable {rows : Tbl → ℕ → List Row} {target more : List (TableCopy Tbl Row)}
  {tasks dropped gone : List Tbl} {t : Tbl} {w : CopyThread Tbl Row}

theorem Copied.mono (h : Copied rows target t) (more : List (TableCopy Tbl Row)) :
    Copied rows (target ++ more) t := by
  obtain ⟨copy, hmem, hcopy⟩ := h
  exact ⟨copy, List.mem_append_left _ hmem, hcopy⟩

theorem Copied.append_right (h : Copied rows more t) (target : List (TableCopy Tbl Row)) :
    Copied rows (target ++ more) t := by
  obtain ⟨copy, hmem, hcopy⟩ := h
  exact ⟨copy, List.mem_append_right _ hmem, hcopy⟩

namespace CopyThread

theorem Valid.mono (h : w.Valid rows target dropped) (more : List (TableCopy Tbl Row))
    (gone : List Tbl) : w.Valid rows (target ++ more) (dropped ++ gone) := by
  unfold Valid at h ⊢
  split
  · rename_i hpc
    simpa only [hpc] using h
  · rename_i hpc
    simp only [hpc] at h
    exact h.imp_left (List.mem_append_left _)
  · rename_i hpc
    simp only [hpc] at h
    exact h.imp_left (List.mem_append_left _)
  · rename_i hpc
    simp only [hpc] at h
    exact h.imp (List.mem_append_left _) (Or.imp_left (Copied.mono · _))
  · rename_i hpc
    simp only [hpc] at h
    exact h.imp (List.mem_append_left _) (Or.imp_left (Copied.mono · _))
  · trivial

variable {env : CopyEnv Tbl Row} {e : CopyEvent} {r : CopyStep Tbl Row}

/-- **A completed COPY** is in the transaction, or committed at once. -/
theorem put_cases {tx tx' : TargetTx Tbl Row} {copy : TableCopy Tbl Row}
    {committed : List (TableCopy Tbl Row)} (h : tx.put copy = some (tx', committed)) :
    copy ∈ committed ∨ ∃ copies, tx' = .active copies ∧ copy ∈ copies := by
  cases tx with
  | idle =>
    obtain ⟨-, rfl⟩ := Prod.mk.inj (Option.some.inj h)
    exact Or.inl (List.mem_singleton_self _)
  | active copies =>
    obtain ⟨rfl, -⟩ := Prod.mk.inj (Option.some.inj h)
    exact Or.inr ⟨_, rfl, List.mem_append_right _ (List.mem_singleton_self _)⟩
  | lost => cases h

/-- **One step of a worker** keeps what it has copied. -/
theorem Step.valid (h : Step env tasks w e r) (hv : w.Valid env.rows target dropped) :
    r.thread.Valid env.rows (target ++ r.committed) (dropped ++ r.dropped) := by
  cases h with
  | connected | notConnected | noTask | took | originBegun | targetBegun | gaveUp | reading =>
    trivial
  | opened pc => rfl
  | sentRow pc =>
    simp only [Valid, pc] at hv
    show _ ++ _ = _
    rw [← hv, List.append_assoc]
    rfl
  | lastRow pc =>
    simp only [Valid, pc, List.append_nil] at hv
    exact Or.inr hv
  | cutOff pc => exact Or.inl (List.mem_append_right _ (List.mem_singleton_self _))
  | endSent pc =>
    simp only [Valid, pc] at hv
    exact hv.imp_left (List.mem_append_left _)
  | result pc put =>
    simp only [Valid, pc] at hv
    refine hv.imp (List.mem_append_left _) ?_
    intro hsent
    rcases put_cases put with hmem | ⟨copies, htx, hmem⟩
    · exact Or.inl (Copied.append_right ⟨_, hmem, rfl, hsent⟩ _)
    · exact Or.inr ⟨copies, htx, _, hmem, rfl, hsent⟩
  | originFinished pc =>
    simp only [Valid, pc] at hv
    exact hv.imp (List.mem_append_left _) (Or.imp_left (Copied.mono · _))
  | targetFinished => trivial

/-- **One step of a worker** loses no table. -/
theorem Step.accounted (h : Step env tasks w e r) (hv : w.Valid env.rows target dropped)
    (ht : t ∈ tasks ∨ w.pc.table = some t) :
    Accounted env.rows (target ++ r.committed) r.tasks (dropped ++ r.dropped) [r.thread] t := by
  have hsame : r.tasks = tasks → r.thread.pc.table = w.pc.table →
      Accounted env.rows (target ++ r.committed) r.tasks (dropped ++ r.dropped) [r.thread] t := by
    intro htasks htable
    rcases ht with ht | ht
    · exact Or.inl (htasks ▸ ht)
    · exact Or.inr (Or.inr (Or.inl ⟨_, List.mem_singleton_self _, htable.trans ht⟩))
  cases h with
  | connected pc | notConnected pc | noTask pc | originBegun pc | targetBegun pc | reading pc
  | opened pc | sentRow pc | lastRow pc | cutOff pc | endSent pc | result pc | originFinished pc =>
    exact hsame rfl (by rw [pc]; rfl)
  | took pc some =>
    rcases ht with ht | ht
    · rw [some] at ht
      rcases List.mem_cons.1 ht with rfl | ht
      · exact Or.inr (Or.inr (Or.inl ⟨_, List.mem_singleton_self _, rfl⟩))
      · exact Or.inl ht
    · rw [pc] at ht
      cases ht
  | gaveUp taken =>
    rcases ht with ht | ht
    · exact Or.inl ht
    · obtain rfl := Option.some.inj (taken.symm.trans ht)
      exact Or.inr (Or.inl (List.mem_append_right _ (List.mem_singleton_self _)))
  | @targetFinished t' answer tx committed gone pc finish drop =>
    rcases ht with ht | ht
    · exact Or.inl ht
    · rw [pc] at ht
      obtain rfl := Option.some.inj ht
      simp only [Valid, pc] at hv
      rcases drop with rfl | ⟨rfl, hok⟩
      · exact Or.inr (Or.inl (List.mem_append_right _ (List.mem_singleton_self _)))
      rcases hv with hdropped | hcopied | ⟨copies, htx, hcopied⟩
      · exact Or.inr (Or.inl (List.mem_append_left _ hdropped))
      · exact Or.inr (Or.inr (Or.inr (hcopied.mono _)))
      · -- the COMMIT of the transaction succeeded
        obtain rfl := hok (by rw [htx]; rfl)
        rw [htx] at finish
        obtain ⟨-, rfl⟩ := Prod.mk.inj (Option.some.inj finish)
        exact Or.inr (Or.inr (Or.inr (hcopied.append_right _)))

/-- A worker that has finished takes no step. -/
theorem Step.not_finished (h : Step env tasks w e r) : w.pc.isFinished = false := by
  cases h with
  | gaveUp taken => cases hpc : w.pc <;> simp_all [CopyPc.table, CopyPc.isFinished]
  | connected pc | notConnected pc | noTask pc | took pc | originBegun pc | targetBegun pc
  | reading pc | opened pc | sentRow pc | lastRow pc | cutOff pc | endSent pc | result pc
  | originFinished pc | targetFinished pc => rw [pc]; rfl

theorem not_table_of_finished (h : w.pc.isFinished) : w.pc.table = none := by
  cases hpc : w.pc <;> simp_all [CopyPc.table, CopyPc.isFinished]

end CopyThread

end

/-! ## The invariant -/

/-- Every table of the list is accounted for. -/
structure EndInv (c : SyncConfig Tbl Row) (s : SyncSystem Tbl Row) : Prop where
  threads : s.main.pc.beforeThreads → s.threads = [] ∧ s.main.tasks = []
  valid : ∀ w ∈ s.threads, w.Valid c.rows s.target s.dropped
  tasks : ∀ t ∈ s.main.tasks, Accounted c.rows s.target s.queue s.dropped s.threads t
  joined : s.main.pc = .writingEnd → ∀ w ∈ s.threads, w.pc.isFinished
  ended : ∀ t ∈ s.endTasks, Copied c.rows s.target t

section
variable {c : SyncConfig Tbl Row} {s s' : SyncSystem Tbl Row}

/-- The process ends. -/
theorem EndInv.exit (h : EndInv c s) : EndInv c s.exit where
  threads _ := ⟨rfl, rfl⟩
  valid := nofun
  tasks := nofun
  joined := nofun
  ended := h.ended

/-- **A worker's step** keeps the invariant. -/
theorem EndInv.worker (h : EndInv c s) {i : ℕ} {e : CopyEvent} {w : CopyThread Tbl Row}
    {r : CopyStep Tbl Row} (hw : s.threads[i]? = some w)
    (hstep : CopyThread.Step (s.copyEnv c) s.queue w e r) : EndInv c (s.afterWorker i r) := by
  have hmem : w ∈ s.threads := List.mem_of_getElem? hw
  have hi : i < s.threads.length := (List.getElem?_eq_some_iff.1 hw).1
  have hv := h.valid w hmem
  have hr : r.thread ∈ s.threads.set i r.thread := List.mem_set hi _
  constructor
  · intro hpc
    rw [(h.threads hpc).1] at hmem
    cases hmem
  · intro w' hw'
    rcases List.mem_or_eq_of_mem_set hw' with hw' | rfl
    · exact (h.valid w' hw').mono _ _
    · exact hstep.valid hv
  · -- the table was left, or in this worker's hands, or is elsewhere
    intro t ht
    have hown : t ∈ s.queue ∨ w.pc.table = some t →
        Accounted c.rows (s.target ++ r.committed) r.tasks (s.dropped ++ r.dropped)
          (s.threads.set i r.thread) t := by
      intro hq
      refine (hstep.accounted hv hq).imp_right (Or.imp_right (Or.imp_left ?_))
      rintro ⟨w', hw', htable⟩
      exact ⟨r.thread, hr, List.mem_singleton.1 hw' ▸ htable⟩
    rcases h.tasks t ht with hq | hd | ⟨w', hw', htable⟩ | hc
    · exact hown (Or.inl hq)
    · exact Or.inr (Or.inl (List.mem_append_left _ hd))
    · obtain ⟨j, hj⟩ := List.mem_iff_getElem?.1 hw'
      by_cases hij : i = j
      · subst hij
        obtain rfl := Option.some.inj (hw.symm.trans hj)
        exact hown (Or.inr htable)
      · refine Or.inr (Or.inr (Or.inl ⟨w', ?_, htable⟩))
        exact List.mem_of_getElem? ((List.getElem?_set_ne hij).trans hj)
    · exact Or.inr (Or.inr (Or.inr (hc.mono _)))
  · intro hpc
    have hrunning := h.joined hpc w hmem
    rw [hstep.not_finished] at hrunning
    cases hrunning
  · intro t ht
    exact (h.ended t ht).mono _

/-- **One step keeps the invariant.** -/
theorem endInv_step {e : SyncEvent Tbl} (hI : EndInv c s) (hok : DrainedAtEnd s e)
    (h : s.step c e = some s') : EndInv c s' := by
  cases SyncSystem.step_cases h with
  | sourceCommit => exact { hI with ended := hI.ended }
  | start nth pc =>
    exact { hI with
      threads := fun _ => ⟨(hI.threads (by rw [pc]; rfl)).1, rfl⟩
      tasks := nofun
      joined := nofun }
  | kill => exact hI.exit
  | quit => exact hI.exit
  | @moved _ m moves =>
    have hbefore := SyncSystem.beforeThreads_of_beforeExport moves.pc
    refine { hI with
      threads := fun _ => ⟨(hI.threads hbefore).1, moves.tasks.trans (hI.threads hbefore).2⟩
      tasks := fun t ht => hI.tasks t (moves.tasks ▸ ht)
      joined := ?_ }
    intro hpc
    rcases moves.next with ⟨hnext, -⟩ | hnext
    · rw [show m.pc = .writingEnd from hpc] at hnext
      cases hnext
    · cases hnext.symm.trans hpc
  | slotCreated pc hnext =>
    exact { hI with
      threads := fun _ => hI.threads (by rw [pc]; rfl)
      joined := by rcases hnext with rfl | rfl <;> nofun }
  | exported pc =>
    exact { hI with threads := fun _ => hI.threads (by rw [pc]; rfl), joined := nofun }
  | listed => exact { hI with threads := nofun, tasks := fun t ht => Or.inl ht, joined := nofun }
  | createThread pc =>
    refine { hI with
      threads := fun hpc => absurd hpc (by rw [pc]; nofun)
      valid := ?_
      tasks := ?_
      joined := fun hpc => absurd hpc (by rw [pc]; nofun) }
    · intro w hw
      rcases List.mem_append.1 hw with hw | hw
      · exact hI.valid w hw
      · rw [List.mem_singleton.1 hw]
        trivial
    · intro t ht
      refine (hI.tasks t ht).imp_right (Or.imp_right (Or.imp_left ?_))
      rintro ⟨w, hw, htable⟩
      exact ⟨w, List.mem_append_left _ hw, htable⟩
  | writeStart => exact { hI with threads := nofun, joined := nofun }
  | joined pc all => exact { hI with threads := nofun, joined := fun _ => all }
  | writeEnd ok pc =>
    refine { hI with threads := nofun, joined := nofun, ended := ?_ }
    intro t ht
    change t ∈ (if ok && s.main.localConn then s.endTasks ++ s.main.tasks else s.endTasks) at ht
    split_ifs at ht with hw
    · rcases List.mem_append.1 ht with ht | ht
      · exact hI.ended t ht
      · -- nothing is left, nothing is dropped, and no worker has a table
        obtain ⟨hqueue, hdropped⟩ := hok hw
        rcases hI.tasks t ht with hq | hd | ⟨w, hmem, htable⟩ | hc
        · rw [hqueue] at hq
          cases hq
        · rw [hdropped] at hd
          cases hd
        · rw [CopyThread.not_table_of_finished (hI.joined pc w hmem)] at htable
          cases htable
        · exact hc
    · exact hI.ended t ht
  | worker thread step => exact hI.worker thread (CopyThread.step_cases step)

theorem endInv_init (c : SyncConfig Tbl Row) : EndInv c {} where
  threads _ := ⟨rfl, rfl⟩
  valid := nofun
  tasks := nofun
  joined := nofun
  ended := nofun

/-- **The end mark is truthful** in every sequence of runs in which it is set only when the list is
drained and no worker failed on a table that it took. -/
theorem endTruthful_of_run {es : List (SyncEvent Tbl)}
    (hm : StepMachine.Meets (SyncSystem.step c) DrainedAtEnd {} es)
    (hr : StepMachine.run (SyncSystem.step c) {} es = some s) : EndTruthful c s :=
  fun _ => (StepMachine.run_invariant (fun _ _ _ hI hok h => endInv_step hI hok h)
    (endInv_init c) hm hr).ended

end

/-- Two tables are copied by two workers. -/
theorem endTruthful_growingTable :
    ∃ s, StepMachine.run (SyncSystem.step growingTable) {}
        (.sourceCommit :: firstProcess ++ .writeStart true :: copyTables ++ markEnd) = some s ∧
      (s.fullEnd = true ∧ s.endTasks = [0, 1]) ∧ EndTruthful growingTable s := by
  have hr : (StepMachine.run (SyncSystem.step growingTable) {}
      (.sourceCommit :: firstProcess ++ .writeStart true :: copyTables ++ markEnd)).map
        (fun s => (s.fullEnd, s.endTasks)) = some (true, [0, 1]) := by decide
  obtain ⟨s, hs, h⟩ := Option.map_eq_some_iff.1 hr
  exact ⟨s, hs, Prod.mk.inj h, endTruthful_of_run (by decide) hs⟩

/-- One worker copies a table, and the other does not write its own. -/
theorem tableDropped_growingTable :
    ∃ s, StepMachine.run (SyncSystem.step growingTable) {}
        (.sourceCommit :: firstProcess ++ .writeStart true :: readTable 0 ++ readTable 1 ++
          writeTable 1 ++ [.worker 0 (.copyFrom false), .worker 1 .take, .joined, .writeEnd true]) =
            some s ∧
      (s.fullEnd = true ∧ s.endTasks = [0, 1] ∧ s.target = [⟨1, 1, [0]⟩]) ∧
        ¬ EndTruthful growingTable s := by
  have hr : (StepMachine.run (SyncSystem.step growingTable) {}
      (.sourceCommit :: firstProcess ++ .writeStart true :: readTable 0 ++ readTable 1 ++
        writeTable 1 ++ [.worker 0 (.copyFrom false), .worker 1 .take, .joined, .writeEnd true])).map
          (fun s => (s.fullEnd, s.endTasks, s.target)) = some (true, [0, 1], [⟨1, 1, [0]⟩]) := by
    decide
  obtain ⟨s, hs, h⟩ := Option.map_eq_some_iff.1 hr
  simp only [Prod.mk.injEq] at h
  refine ⟨s, hs, h, ?_⟩
  intro htrue
  obtain ⟨copy, hmem, htable, -⟩ := htrue h.1 0 (by rw [h.2.1]; exact List.mem_cons_self)
  rw [h.2.2, List.mem_singleton] at hmem
  rw [hmem] at htable
  cases htable

end RdsDbsync
