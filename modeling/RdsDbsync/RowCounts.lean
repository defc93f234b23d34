/-
  The row counts of `mysql2pgsql`: all workers and the list that they share, the count of
  each worker and of each task, and the totals that `mysql2pgsql_sync_main` reports.

  `balanced_of_run`: in which runs the totals are the number of rows that were copied; a
  worker's count is that of its last table.
-/
import Mathlib.Algebra.BigOperators.Fin
import RdsDbsync.Lib.Tokens
import RdsDbsync.MysqlCopy

namespace RdsDbsync

universe u v
variable {Tbl : Type u} {Row : Type v}

/-! ## Counting -/

namespace MysqlPc

/-- `all_ok` -/
def allOk : MysqlPc Row → Bool
  | .finished allOk => allOk
  | _ => false

/-- The task that is taken, until its rows are counted. -/
def uncounted : MysqlPc Row → Option ℕ
  | .beginTarget t | .querying t | .describing t _ | .copyFrom t _ | .fetching t _ _ _ _
  | .flushing t _ _ _ => some t
  | _ => none

/-- The rows that are counted while their COPY has not ended. -/
def pending : MysqlPc Row → ℕ
  | .putEnd _ _ sent | .getResult _ _ sent => sent.length
  | _ => 0

end MysqlPc

/-- `row_count`, an `int`, after `n` rows. -/
def rowCount (n : ℕ) : ℤ := (n : ℤ).bmod (2 ^ 32)

namespace MysqlWorker

/-- The task and the number of rows for which a step sets `args->count` and `curr->count`: behind
the last `PQputCopyData`, and when the worker is told to stop. -/
def counted (env : MysqlEnv Row) (w : MysqlWorker Tbl Row) : MysqlEvent → Option (ℕ × ℕ)
  | .flush ok =>
    match w.pc with
    | .flushing task _ sent buffered =>
      if 0 < env.bufferLen buffered ∧ ok = false then none
      else some (task, sent.length + buffered.length)
    | _ => none
  | .row put abort =>
    match w.pc with
    | .fetching task _ sent buffered (row :: _) =>
      if env.bufferSize ≤ env.bufferLen (buffered ++ [row]) ∧ put = false then none
      else if abort then some (task, sent.length + buffered.length + 1)
      else none
    | _ => none
  | _ => none

/-- The rows of the COPY that the target completes at a step. -/
def copiedRows (w : MysqlWorker Tbl Row) : MysqlEvent → ℕ
  | .getResult (.done _) =>
    match w.pc with
    | .getResult _ _ sent => sent.length
    | _ => 0
  | _ => 0

end MysqlWorker

/-- A worker with its `args->count`, and the number of rows that it copied. -/
structure CountingWorker (Tbl : Type u) (Row : Type v) where
  worker : MysqlWorker Tbl Row
  count : ℤ := 0
  copied : ℕ := 0

/-- All workers, the list that they share, and the counts of the tasks. -/
structure MysqlSystem (Tbl : Type u) (Row : Type v) (nth : ℕ) where
  queue : TaskQueue Tbl
  workers : Fin nth → CountingWorker Tbl Row
  taskCount : ℕ → ℤ := fun _ => 0

namespace MysqlSystem

variable {nth : ℕ}

/-- One step of the `k`-th worker. -/
def step (env : MysqlEnv Row) (s : MysqlSystem Tbl Row nth) (e : Fin nth × MysqlEvent) :
    Option (MysqlSystem Tbl Row nth) :=
  if e.2 = .otherTakes then none
  else
    let c := s.workers e.1
    (MysqlWorker.step env { c.worker with queue := s.queue } e.2).map fun w =>
      let counted := c.worker.counted env e.2
      { queue := w.queue
        workers := Function.update s.workers e.1
          { worker := w
            count := (counted.map fun r => rowCount r.2).getD c.count
            copied := c.copied + c.worker.copiedRows e.2 }
        taskCount :=
          match counted with
          | some (task, rows) => Function.update s.taskCount task (rowCount rows)
          | none => s.taskCount }

/-- The workers are created. -/
def init (tables : List Tbl) (nth : ℕ) : MysqlSystem Tbl Row nth where
  queue := .init .mysql2pgsql tables
  workers _ := { worker := .init tables }

variable (s : MysqlSystem Tbl Row nth)

/-- `s_count`: the "number of rows migrated". -/
def sCount : ℤ := ∑ k, if (s.workers k).worker.pc.allOk then (s.workers k).count else 0

/-- `t_count`: the "number of source tables' rows". -/
def tCount (ntask : ℕ) : ℤ := ∑ task ∈ Finset.range ntask, s.taskCount task

/-- The rows that were copied. -/
def rowsCopied : ℕ := ∑ k, (s.workers k).copied

/-- **The account balances** when all workers have finished without an error: the sum of their
counts is that of the tables, and is the number of rows that were copied. -/
def Balanced (ntask : ℕ) : Prop :=
  (∀ k, (s.workers k).worker.pc.allOk) → s.sCount = s.tCount ntask ∧ s.tCount ntask = s.rowsCopied

end MysqlSystem

/-- A worker that has copied a table has counted no rows before, and the table has fewer rows than
an `int` can count. -/
def CountsOnce {nth : ℕ} (env : MysqlEnv Row) (s : MysqlSystem Tbl Row nth) :
    Fin nth × MysqlEvent → Prop
  | (k, .flush ok) => ∀ r ∈ (s.workers k).worker.counted env (.flush ok),
    (s.workers k).count = 0 ∧ r.2 < 2 ^ 31
  | _ => True

instance {nth : ℕ} (env : MysqlEnv Row) (s : MysqlSystem Tbl Row nth) :
    ∀ e, Decidable (CountsOnce env s e)
  | (k, .flush ok) => inferInstanceAs (Decidable (∀ r ∈ (s.workers k).worker.counted env
    (.flush ok), (s.workers k).count = 0 ∧ r.2 < 2 ^ 31))
  | (_, .otherTakes) | (_, .connect _) | (_, .take) | (_, .beginTarget _) | (_, .query _ _)
  | (_, .describe _) | (_, .copyFrom _) | (_, .row _ _) | (_, .noRow _) | (_, .putEnd _)
  | (_, .getResult _) | (_, .finishTarget _) => inferInstanceAs (Decidable True)

/-! ## Totals -/

theorem rowCount_of_lt {n : ℕ} (h : n < 2 ^ 31) : rowCount n = n := by
  unfold rowCount
  exact Int.bmod_eq_of_le (by omega) (by omega)

theorem rowCount_eq_iff {n : ℕ} : rowCount n = n ↔ n < 2 ^ 31 := by
  constructor
  · intro h
    have hlt : rowCount n < (2 ^ 32 + 1) / 2 := Int.bmod_lt (by decide)
    rw [h] at hlt
    omega
  · exact rowCount_of_lt

theorem rowCount_succ (n : ℕ) : (rowCount n + 1).bmod (2 ^ 32) = rowCount (n + 1) := by
  have hcast : ((n + 1 : ℕ) : ℤ) = n + 1 := Nat.cast_succ n
  unfold rowCount
  rw [hcast, Int.bmod_add_bmod]

section
variable {ι : Type u} {α : Type v} [DecidableEq ι]

/-- What one entry has in common with the one that it replaces, all entries keep. -/
theorem apply_update_of_eq {β : Type*} (f : α → β) {a : ι → α} {k : ι} {x : α}
    (h : f x = f (a k)) (i : ι) : f (Function.update a k x i) = f (a i) := by
  rcases eq_or_ne i k with rfl | hi
  · rw [Function.update_self, h]
  · rw [Function.update_of_ne hi]

theorem sum_range_update {a : ℕ → ℤ} {n k : ℕ} (hk : k < n) (x : ℤ) :
    ∑ i ∈ Finset.range n, Function.update a k x i = (∑ i ∈ Finset.range n, a i) - a k + x := by
  have hmem : k ∈ Finset.range n := Finset.mem_range.2 hk
  rw [Finset.sum_update_of_mem hmem, Finset.sdiff_singleton_eq_erase,
    ← Finset.sum_erase_add _ _ hmem]
  omega

end

/-! ## What a step does -/

/-- What a step does to the counts and to the list. -/
inductive MysqlWorker.Effect (env : MysqlEnv Row) (w : MysqlWorker Tbl Row) (e : MysqlEvent)
    (w' : MysqlWorker Tbl Row) : Prop
  | kept (uncounted : w'.pc.uncounted = w.pc.uncounted)
    (rows : w.copiedRows e + w'.pc.pending = w.pc.pending) (counted : w.counted env e = none)
    (queue : w'.queue = w.queue ∨ w.queue.pop = .ok (none, w'.queue))
  | took (task : ℕ) (pop : w.queue.pop = .ok (some task, w'.queue))
    (uncounted : w'.pc.uncounted = some task) (rows : w.copiedRows e = 0)
    (pending : w.pc.pending = 0 ∧ w'.pc.pending = 0) (counted : w.counted env e = none)
  | counts (task rows : ℕ) (flush : ∃ ok, e = .flush ok) (taken : w.pc.uncounted = some task)
    (uncounted : w'.pc.uncounted = none) (counted : w.counted env e = some (task, rows))
    (copied : w.copiedRows e = 0) (pending : w.pc.pending = 0 ∧ w'.pc.pending = rows)
    (queue : w'.queue = w.queue)
  | gaveUp (pc : w'.pc = .finished false)
    (counted : ∀ task rows, w.counted env e = some (task, rows) → w.pc.uncounted = some task)
    (queue : w'.queue = w.queue)

section
variable {env : MysqlEnv Row} {w w' : MysqlWorker Tbl Row} {e : MysqlEvent}

namespace MysqlWorker

/-- A count is the one of the task that is taken. -/
theorem uncounted_of_counted {task rows : ℕ} (h : w.counted env e = some (task, rows)) :
    w.pc.uncounted = some task := by
  cases e <;> simp only [counted, reduceCtorEq] at h
  case row put abort =>
    cases hpc : w.pc <;> simp only [hpc, reduceCtorEq] at h
    case fetching t source sent buffered left =>
      cases left with
      | nil => cases h
      | cons row left =>
        dsimp only at h
        split_ifs at h
        cases h
        rfl
  case flush ok =>
    cases hpc : w.pc <;> simp only [hpc, reduceCtorEq] at h
    case flushing t source sent buffered =>
      split_ifs at h
      cases h
      rfl

/-- While rows are fetched, none are counted. -/
theorem counted_fetched {task source : ℕ} {sent buffered left : List Row} {row : Row}
    {put abort : Bool} (hpc : w.pc = .fetching task source sent buffered (row :: left))
    (h : w.step env (.row put abort) = some w') (hpc' : w'.pc ≠ .finished false) :
    w.counted env (.row put abort) = none := by
  simp only [step, hpc] at h
  cases abort with
  | false => simp [counted, hpc]
  | true =>
    -- the worker is told to stop
    simp only [Bool.or_true, if_true, ite_self, Option.some.injEq] at h
    rw [← h] at hpc'
    exact absurd rfl hpc'

/-- **The last rows are sent** and all rows of the table counted, or the worker gives up. -/
theorem effect_flush {task source : ℕ} {sent buffered : List Row} {ok : Bool}
    (hpc : w.pc = .flushing task source sent buffered) (h : w.step env (.flush ok) = some w') :
    Effect env w (.flush ok) w' := by
  have htask : w.pc.uncounted = some task := by rw [hpc]; rfl
  have hpending : w.pc.pending = 0 := by rw [hpc]; rfl
  simp only [step, hpc] at h
  by_cases hlen : 0 < env.bufferLen buffered
  · rw [if_pos hlen] at h
    cases ok with
    | false =>
      cases h
      exact .gaveUp rfl (fun _ _ => uncounted_of_counted) rfl
    | true =>
      cases h
      refine .counts task (sent.length + buffered.length) ⟨true, rfl⟩ htask rfl ?_ rfl
        ⟨hpending, List.length_append⟩ rfl
      simp [counted, hpc]
  · rw [if_neg hlen] at h
    cases h
    obtain rfl := eq_nil_of_bufferLen hlen
    refine .counts task sent.length ⟨ok, rfl⟩ htask rfl ?_ rfl ⟨hpending, rfl⟩ rfl
    simp [counted, hpc, hlen]

/-- **What a step does** to the counts and to the list. -/
theorem effect_of_step (ho : e ≠ .otherTakes) (h : w.step env e = some w') :
    Effect env w e w' := by
  have hquiet : ∀ {e : MysqlEvent}, (∀ put abort, e ≠ .row put abort) → (∀ ok, e ≠ .flush ok) →
      w.counted env e = none := by
    intro e hrow hflush
    cases e <;> first | rfl | exact absurd rfl (hrow _ _) | exact absurd rfl (hflush _)
  cases step_cases h with
  | otherTakes pop => exact absurd rfl ho
  | connected pc | notConnected pc | begun pc _ | queried pc | described pc | opened pc
  | noRow pc _ =>
    exact .kept (by rw [pc]; rfl) (by rw [pc]; rfl) (hquiet nofun nofun) (Or.inl rfl)
  | took pc pop =>
    exact .took _ pop rfl rfl ⟨by rw [pc]; rfl, rfl⟩ (hquiet nofun nofun)
  | noTask pc pop =>
    exact .kept (by rw [pc]; rfl) (by rw [pc]; rfl) (hquiet nofun nofun) (Or.inr pop)
  | gaveUp taken early => exact .gaveUp rfl (fun _ _ => uncounted_of_counted) rfl
  | fetched pc kept =>
    exact .kept (by rw [pc]; rfl) (by rw [pc]; rfl) (counted_fetched pc h nofun) (Or.inl rfl)
  | flushed pc => exact effect_flush pc h
  | endSent pc =>
    exact .kept (by rw [pc]; rfl) (by rw [pc]; exact Nat.zero_add _) (hquiet nofun nofun)
      (Or.inl rfl)
  | result pc accepts put =>
    exact .kept (by rw [pc]; rfl) (by simp [copiedRows, pc, MysqlPc.pending]) (hquiet nofun nofun)
      (Or.inl rfl)
  | unheard pc put => exact .gaveUp rfl (fun _ _ => uncounted_of_counted) rfl
  | targetFinished pc finish =>
    exact .kept (by rw [pc]; rfl) (by rw [pc]; rfl) (hquiet nofun nofun) (Or.inl rfl)

end MysqlWorker

end

/-! ## The invariant -/

/-- The rows that a worker has counted, unless it gave up. -/
def CountingWorker.rows (c : CountingWorker Tbl Row) : ℤ := c.copied + c.worker.pc.pending

section
variable {nth : ℕ}

/-- A task is taken by one worker, and its count is 0 until then. -/
structure UncountedTasks (ntask : ℕ) (s : MysqlSystem Tbl Row nth) : Prop where
  left : ∃ rest, s.queue.Remaining rest ∧ rest.Nodup ∧ ∀ t ∈ rest, t < ntask ∧
    s.taskCount t = 0 ∧ ∀ k, (s.workers k).worker.pc.uncounted ≠ some t
  taken : ∀ k t, (s.workers k).worker.pc.uncounted = some t → t < ntask ∧ s.taskCount t = 0
  apart : ∀ k k' t, (s.workers k).worker.pc.uncounted = some t →
    (s.workers k').worker.pc.uncounted = some t → k = k'

/-- A worker's count is that of all rows it copied, and the tasks' counts are together those of
the workers. -/
structure CountInv (ntask : ℕ) (s : MysqlSystem Tbl Row nth) : Prop where
  tasks : UncountedTasks ntask s
  worker : ∀ k, (s.workers k).worker.pc ≠ .finished false → (s.workers k).count = (s.workers k).rows
  total : (∀ k, (s.workers k).worker.pc ≠ .finished false) →
    s.tCount ntask = ∑ k, (s.workers k).rows

variable {env : MysqlEnv Row} {s s' : MysqlSystem Tbl Row nth} {ntask : ℕ} {k : Fin nth}
  {c : CountingWorker Tbl Row} {queue : TaskQueue Tbl} {taskCount : ℕ → ℤ}

/-- The tasks that are left after one was taken, or none. -/
theorem remaining_of_pop {q q' : TaskQueue Tbl} {rest : List ℕ} {curr : Option ℕ}
    (hrest : q.Remaining rest) (hpop : q.pop = .ok (curr, q')) :
    curr = rest.head? ∧ q'.Remaining rest.tail := by
  obtain ⟨q'', hpop', hrest', -⟩ := hrest.pop
  rw [hpop'] at hpop
  cases hpop
  exact ⟨rfl, hrest'⟩

namespace UncountedTasks

/-- **No task is taken or counted**, and perhaps none is left. -/
theorem kept (hI : UncountedTasks ntask s)
    (huncounted : c.worker.pc.uncounted = (s.workers k).worker.pc.uncounted)
    (hqueue : queue = s.queue ∨ s.queue.pop = .ok (none, queue)) :
    UncountedTasks ntask { s with queue, workers := Function.update s.workers k c } := by
  have hsame : ∀ k', (Function.update s.workers k c k').worker.pc.uncounted =
      (s.workers k').worker.pc.uncounted :=
    apply_update_of_eq (fun c : CountingWorker Tbl Row => c.worker.pc.uncounted) huncounted
  obtain ⟨rest, hrest, hnodup, hzero⟩ := hI.left
  constructor <;> simp only [hsame]
  case left =>
    rcases hqueue with rfl | hpop
    · exact ⟨rest, hrest, hnodup, hzero⟩
    · obtain ⟨hhead, hrest'⟩ := remaining_of_pop hrest hpop
      have hnil : rest = [] := List.head?_eq_none_iff.1 hhead.symm
      subst hnil
      exact ⟨[], hrest', List.nodup_nil, nofun⟩
  case taken => exact hI.taken
  case apart => exact hI.apart

/-- **The first task of the list is taken**: no other worker has it. -/
theorem took (hI : UncountedTasks ntask s) {task : ℕ}
    (huncounted : c.worker.pc.uncounted = some task)
    (hpop : s.queue.pop = .ok (some task, queue)) :
    UncountedTasks ntask { s with queue, workers := Function.update s.workers k c } := by
  obtain ⟨rest, hrest, hnodup, hzero⟩ := hI.left
  obtain ⟨hhead, hrest'⟩ := remaining_of_pop hrest hpop
  obtain ⟨rest, rfl⟩ := List.head?_eq_some_iff.1 hhead.symm
  obtain ⟨hlt, hcount0, hfree⟩ := hzero task List.mem_cons_self
  obtain ⟨hnotin, hnodup⟩ := List.nodup_cons.1 hnodup
  have hother : ∀ k' t, (Function.update s.workers k c k').worker.pc.uncounted = some t →
      k' = k ∧ t = task ∨ (s.workers k').worker.pc.uncounted = some t := by
    intro k' t h
    rcases eq_or_ne k' k with rfl | hk
    · rw [Function.update_self, huncounted] at h
      exact Or.inl ⟨rfl, (Option.some.inj h).symm⟩
    · rw [Function.update_of_ne hk] at h
      exact Or.inr h
  refine ⟨⟨rest, hrest', hnodup, fun t ht => ?_⟩, ?_, ?_⟩
  · obtain ⟨hlt, h0, hfree'⟩ := hzero t (List.mem_cons_of_mem _ ht)
    refine ⟨hlt, h0, fun k' h => ?_⟩
    rcases hother k' t h with ⟨-, rfl⟩ | h
    · exact hnotin ht
    · exact hfree' k' h
  · intro k' t h
    rcases hother k' t h with ⟨-, rfl⟩ | h
    · exact ⟨hlt, hcount0⟩
    · exact hI.taken k' t h
  · intro k' k'' t h h'
    rcases hother k' t h with ⟨rfl, rfl⟩ | h
    · rcases hother k'' t h' with ⟨rfl, -⟩ | h'
      · rfl
      · exact absurd h' (hfree k'')
    · rcases hother k'' t h' with ⟨-, rfl⟩ | h'
      · exact absurd h (hfree k')
      · exact hI.apart k' k'' t h h'

/-- **A worker is done with its task**: no other task's count has changed. -/
theorem released (hI : UncountedTasks ntask s) (huncounted : c.worker.pc.uncounted = none)
    (hcounts : ∀ t, taskCount t = s.taskCount t ∨ (s.workers k).worker.pc.uncounted = some t) :
    UncountedTasks ntask
      { queue := s.queue, workers := Function.update s.workers k c, taskCount } := by
  have hother : ∀ k' t, (Function.update s.workers k c k').worker.pc.uncounted = some t →
      k' ≠ k ∧ (s.workers k').worker.pc.uncounted = some t := by
    intro k' t h
    rcases eq_or_ne k' k with rfl | hk
    · rw [Function.update_self, huncounted] at h
      cases h
    · rw [Function.update_of_ne hk] at h
      exact ⟨hk, h⟩
  obtain ⟨rest, hrest, hnodup, hzero⟩ := hI.left
  refine ⟨⟨rest, hrest, hnodup, fun t ht => ?_⟩, ?_, ?_⟩
  · obtain ⟨hlt, h0, hfree⟩ := hzero t ht
    refine ⟨hlt, ?_, fun k' h => hfree k' (hother k' t h).2⟩
    exact (hcounts t).elim (fun h => h.trans h0) fun h => absurd h (hfree k)
  · intro k' t h
    obtain ⟨hk, h⟩ := hother k' t h
    obtain ⟨hlt, h0⟩ := hI.taken k' t h
    exact ⟨hlt, (hcounts t).elim (fun h => h.trans h0) fun h' => absurd (hI.apart _ _ t h h') hk⟩
  · intro k' k'' t h h'
    exact hI.apart k' k'' t (hother k' t h).2 (hother k'' t h').2

end UncountedTasks

namespace CountInv

/-- The running workers of the state behind a step ran before it. -/
theorem running_of_update (hfailed : (s.workers k).worker.pc ≠ .finished false) {k' : Fin nth}
    (h : (Function.update s.workers k c k').worker.pc ≠ .finished false) :
    (s.workers k').worker.pc ≠ .finished false := by
  rcases eq_or_ne k' k with rfl | hk
  · exact hfailed
  · rwa [Function.update_of_ne hk] at h

/-- The totals are kept by a step that counts nothing. -/
theorem sameRows (hI : CountInv ntask s)
    (htasks : UncountedTasks ntask { s with queue, workers := Function.update s.workers k c })
    (hcount : c.count = (s.workers k).count) (hrows : c.rows = (s.workers k).rows)
    (hfailed : (s.workers k).worker.pc ≠ .finished false) :
    CountInv ntask { s with queue, workers := Function.update s.workers k c } := by
  have hrow : ∀ k', (Function.update s.workers k c k').rows = (s.workers k').rows :=
    apply_update_of_eq CountingWorker.rows hrows
  have hcounts : ∀ k', (Function.update s.workers k c k').count = (s.workers k').count :=
    apply_update_of_eq CountingWorker.count hcount
  refine ⟨htasks, fun k' h => ?_, fun h => ?_⟩
  · rw [hrow k', hcounts k', hI.worker k' (running_of_update hfailed h)]
  · simp only [hrow]
    exact hI.total fun k' => running_of_update hfailed (h k')

/-- **The rows of a table are counted**, by a worker that has counted none before. -/
theorem counts (hI : CountInv ntask s) {task rows : ℕ}
    (htaken : (s.workers k).worker.pc.uncounted = some task)
    (huncounted : c.worker.pc.uncounted = none) (hcount : c.count = rows)
    (hrows : c.rows = (s.workers k).rows + rows) (hzero : (s.workers k).count = 0)
    (hfailed : (s.workers k).worker.pc ≠ .finished false) :
    CountInv ntask
      { queue := s.queue, workers := Function.update s.workers k c
        taskCount := Function.update s.taskCount task rows } := by
  obtain ⟨hlt, htask⟩ := hI.tasks.taken k task htaken
  have hbefore : (s.workers k).rows = 0 := (hI.worker k hfailed).symm.trans hzero
  refine ⟨hI.tasks.released huncounted fun t => ?_, fun k' h => ?_, fun h => ?_⟩
  · rcases eq_or_ne t task with rfl | ht
    · exact Or.inr htaken
    · exact Or.inl (Function.update_of_ne ht _ _)
  · dsimp only at h ⊢
    rcases eq_or_ne k' k with rfl | hk
    · rw [Function.update_self, hcount, hrows, hbefore, zero_add]
    · rw [Function.update_of_ne hk] at h ⊢
      exact hI.worker k' h
  · have htotal : s.tCount ntask = ∑ k', (s.workers k').rows :=
      hI.total fun k' => running_of_update hfailed (h k')
    obtain ⟨others, hsum, hupdate⟩ := Tokens.sum_update CountingWorker.rows s.workers k
    calc ∑ t ∈ Finset.range ntask, Function.update s.taskCount task (rows : ℤ) t
        = s.tCount ntask + rows := by rw [sum_range_update hlt, htask, sub_zero]; rfl
      _ = ∑ k', (Function.update s.workers k c k').rows := by
          rw [hupdate, htotal, hsum, hrows, hbefore]
          omega

/-- **A worker gives up.** -/
theorem gaveUp (hI : CountInv ntask s) (hpc : c.worker.pc = .finished false)
    (hcounts : ∀ t, taskCount t = s.taskCount t ∨ (s.workers k).worker.pc.uncounted = some t) :
    CountInv ntask
      { queue := s.queue, workers := Function.update s.workers k c, taskCount } := by
  refine ⟨hI.tasks.released (by rw [hpc]; rfl) hcounts, fun k' h => ?_, fun h => ?_⟩
  · dsimp only at h ⊢
    rcases eq_or_ne k' k with rfl | hk
    · rw [Function.update_self] at h
      exact absurd hpc h
    · rw [Function.update_of_ne hk] at h ⊢
      exact hI.worker k' h
  · refine absurd hpc ?_
    have hrunning := h k
    dsimp only at hrunning
    rwa [Function.update_self] at hrunning

end CountInv

/-- A step of a system is one of a worker on the shared list. -/
theorem MysqlSystem.step_cases {e : Fin nth × MysqlEvent} (h : s.step env e = some s') :
    e.2 ≠ .otherTakes ∧ ∃ w,
      MysqlWorker.step env { (s.workers e.1).worker with queue := s.queue } e.2 = some w ∧
      s'.queue = w.queue ∧
      s'.workers = Function.update s.workers e.1
        { worker := w
          count := (((s.workers e.1).worker.counted env e.2).map fun r => rowCount r.2).getD
            (s.workers e.1).count
          copied := (s.workers e.1).copied + (s.workers e.1).worker.copiedRows e.2 } ∧
      s'.taskCount =
        match (s.workers e.1).worker.counted env e.2 with
        | some (task, rows) => Function.update s.taskCount task (rowCount rows)
        | none => s.taskCount := by
  unfold step at h
  split_ifs at h with ho
  obtain ⟨w, hw, rfl⟩ := Option.map_eq_some_iff.1 h
  exact ⟨ho, w, hw, rfl, rfl, rfl⟩

/-- A worker that has finished does nothing. -/
theorem MysqlWorker.running_of_step {w w' : MysqlWorker Tbl Row} {e : MysqlEvent}
    (ho : e ≠ .otherTakes) (h : w.step env e = some w') : w.pc ≠ .finished false := by
  intro hpc
  cases e <;> first | exact absurd rfl ho | simp [step, hpc] at h

theorem countInv_step (e : Fin nth × MysqlEvent) (hI : CountInv ntask s)
    (hok : CountsOnce env s e) (h : s.step env e = some s') : CountInv ntask s' := by
  obtain ⟨k, e⟩ := e
  obtain ⟨ho, w, hw, hqueue, hworkers, htasks⟩ := MysqlSystem.step_cases h
  obtain ⟨queue, workers, taskCount⟩ := s'
  dsimp only at ho hw hqueue hworkers htasks
  have hrunning : ({ (s.workers k).worker with queue := s.queue }).pc ≠ .finished false :=
    MysqlWorker.running_of_step ho hw
  have heffect := MysqlWorker.effect_of_step ho hw
  subst hqueue hworkers
  cases heffect with
  | kept uncounted rows counted queue =>
    have hcounted : (s.workers k).worker.counted env e = none := counted
    rw [hcounted] at htasks ⊢
    subst htasks
    refine hI.sameRows (hI.tasks.kept uncounted queue) rfl ?_ hrunning
    simp only [CountingWorker.rows]
    push_cast
    have hrows : (s.workers k).worker.copiedRows e + w.pc.pending =
      (s.workers k).worker.pc.pending := rows
    omega
  | took task pop uncounted rows pending counted =>
    have hcounted : (s.workers k).worker.counted env e = none := counted
    rw [hcounted] at htasks ⊢
    subst htasks
    refine hI.sameRows (hI.tasks.took uncounted pop) rfl ?_ hrunning
    have hrows : (s.workers k).worker.copiedRows e = 0 := rows
    have hpending : (s.workers k).worker.pc.pending = 0 := pending.1
    simp [CountingWorker.rows, hrows, hpending, pending.2]
  | counts task rows flush taken uncounted counted copied pending queue =>
    have hcounted : (s.workers k).worker.counted env e = some (task, rows) := counted
    obtain ⟨ok, rfl⟩ := flush
    obtain ⟨hzero, hlt⟩ := hok (task, rows) hcounted
    have hcount : rowCount rows = rows := rowCount_of_lt hlt
    rw [hcounted] at htasks ⊢
    dsimp only at htasks
    rw [hcount] at htasks
    subst htasks
    rw [queue, Option.map_some, Option.getD_some, hcount]
    have hcopied : (s.workers k).worker.copiedRows (.flush ok) = 0 := copied
    have hpending : (s.workers k).worker.pc.pending = 0 := pending.1
    refine hI.counts taken uncounted rfl ?_ hzero hrunning
    simp [CountingWorker.rows, hcopied, hpending, pending.2]
  | gaveUp pc counted queue =>
    rw [queue]
    refine hI.gaveUp pc fun t => ?_
    rw [htasks]
    split
    · rename_i task rows hcounted
      rcases eq_or_ne t task with rfl | ht
      · exact Or.inr (counted t rows hcounted)
      · exact Or.inl (Function.update_of_ne ht _ _)
    · exact Or.inl rfl

theorem countInv_init (tables : List Tbl) (nth : ℕ) :
    CountInv tables.length (MysqlSystem.init tables nth : MysqlSystem Tbl Row nth) where
  tasks.left := ⟨_, TaskQueue.remaining_init .mysql2pgsql tables, List.nodup_range, fun _ ht =>
    ⟨List.mem_range.1 ht, rfl, nofun⟩⟩
  tasks.taken := nofun
  tasks.apart := nofun
  worker _ _ := rfl
  total _ := by simp [MysqlSystem.tCount, MysqlSystem.init, CountingWorker.rows, MysqlWorker.init,
    MysqlPc.pending]

/-- **The account balances** in every run in which a worker counts the rows of a table only while
its count is 0, and of no table more than an `int` can count. -/
theorem balanced_of_run (tables : List Tbl) {es : List (Fin nth × MysqlEvent)}
    (hm : StepMachine.Meets (MysqlSystem.step env) (CountsOnce env) (.init tables nth) es)
    (hr : StepMachine.run (MysqlSystem.step env) (.init tables nth) es = some s) :
    s.Balanced tables.length := by
  have hI : CountInv tables.length s :=
    StepMachine.run_invariant (fun _ e _ hI hok h => countInv_step e hI hok h)
      (countInv_init tables nth) hm hr
  intro hall
  have hpc : ∀ k, (s.workers k).worker.pc = .finished true := by
    intro k
    have hk := hall k
    cases hw : (s.workers k).worker.pc <;> simp_all [MysqlPc.allOk]
  have hrows : ∀ k, (s.workers k).rows = (s.workers k).copied := by
    intro k
    rw [CountingWorker.rows, hpc k]
    exact add_zero _
  have htotal := hI.total fun k => by rw [hpc k]; nofun
  constructor
  · rw [htotal, MysqlSystem.sCount]
    refine Finset.sum_congr rfl fun k _ => ?_
    rw [if_pos (hall k)]
    exact hI.worker k (by rw [hpc k]; nofun)
  · rw [htotal, MysqlSystem.rowsCopied, Nat.cast_sum]
    exact Finset.sum_congr rfl fun k _ => hrows k

end

/-! ## Two tables of three rows -/

/-- Two workers copy a table each, in lockstep. -/
theorem balanced_twoWorkers :
    ∃ s, StepMachine.run (MysqlSystem.step threeRowsMysql) (.init ["t", "u"] 2) ((copyTask
        [.row true false, .row true false, .row true false, .noRow false]).flatMap
          fun e => [(0, e), (1, e)]) = some s ∧
      ((∀ k, (s.workers k).worker.pc.allOk) ∧ s.sCount = 6) ∧ s.Balanced 2 := by
  have hr : (StepMachine.run (MysqlSystem.step threeRowsMysql) (.init ["t", "u"] 2) ((copyTask
      [.row true false, .row true false, .row true false, .noRow false]).flatMap
        fun e => [(0, e), (1, e)])).map
          (fun s => (decide (∀ k, (s.workers k).worker.pc.allOk), s.sCount)) =
      some (true, 6) := by decide +kernel
  obtain ⟨s, hs, h⟩ := Option.map_eq_some_iff.1 hr
  obtain ⟨hall, hcount⟩ := Prod.mk.inj h
  exact ⟨s, hs, ⟨of_decide_eq_true hall, hcount⟩,
    balanced_of_run ["t", "u"] (by decide +kernel) hs⟩

/-- One worker copies both tables; its count is that of the second one. -/
theorem overwritten_oneWorker :
    ∃ s, StepMachine.run (MysqlSystem.step threeRowsMysql) (.init ["t", "u"] 1)
        ((copyTask [.row true false, .row true false, .row true false, .noRow false] ++
          (copyTask [.row true false, .row true false, .row true false, .noRow false]).drop 2).map
            fun e => (0, e)) = some s ∧
      ((∀ k, (s.workers k).worker.pc.allOk) ∧ s.sCount = 3 ∧ s.tCount 2 = 6 ∧
        s.rowsCopied = 6) ∧ ¬ s.Balanced 2 := by
  have hr : (StepMachine.run (MysqlSystem.step threeRowsMysql) (.init ["t", "u"] 1)
      ((copyTask [.row true false, .row true false, .row true false, .noRow false] ++
        (copyTask [.row true false, .row true false, .row true false, .noRow false]).drop 2).map
          fun e => (0, e))).map
            (fun s => (decide (∀ k, (s.workers k).worker.pc.allOk), s.sCount, s.tCount 2,
              s.rowsCopied)) =
      some (true, 3, 6, 6) := by decide +kernel
  obtain ⟨s, hs, h⟩ := Option.map_eq_some_iff.1 hr
  simp only [Prod.mk.injEq, decide_eq_true_eq] at h
  obtain ⟨hall, hsum, htasks, hcopied⟩ := h
  refine ⟨s, hs, ⟨hall, hsum, htasks, hcopied⟩, fun hbalanced => ?_⟩
  have hbad := (hbalanced hall).1
  rw [hsum, htasks] at hbad
  exact absurd hbad (by decide)

end RdsDbsync
