/-
  The shared list of tasks: how `db_sync_main` and `mysql2pgsql_sync_main` build it,
  and how the workers take tasks from it.

  `task` is an array of entries that are linked by `next`; `l_task` is the head of the
  tasks that are left, and `ntask` counts them.  A worker reads and changes both under
  `t_lock`, in one step of the system.

  `handedOut_of_run`: over all interleavings, every task is handed out at most once and in
  order, and all of them if a worker sees the end of the list.
-/
import Mathlib.Data.List.Nodup
import RdsDbsync.CopyThread
import RdsDbsync.Message
import RdsDbsync.Lib.LinkedArray
import RdsDbsync.Lib.StepMachine

namespace RdsDbsync

open LinkedArray

universe u v
variable {Tbl : Type u} {Row : Type v}

/-! ## The list -/

/-- `task`, `l_task` and `ntask` of the shared handle. -/
structure TaskQueue (Tbl : Type u) where
  /-- What the entries of the array name: a table, and the query that reads it. -/
  tables : List Tbl
  /-- The `next` fields of the array. -/
  next : ℕ → Option ℕ
  lTask : Option ℕ
  ntask : ℕ

/-- The links that the loop of `db_sync_main` sets. -/
def linkForward (ntask : ℕ) : ℕ → Option ℕ :=
  (List.range ntask).foldl
    (fun next i => if i ≠ ntask - 1 then Function.update next i (some (i + 1)) else next)
    fun _ => none

/-- The links that the loops of `mysql2pgsql_sync_main` set. -/
def linkBackward (ntask : ℕ) : ℕ → Option ℕ :=
  (List.range ntask).foldl
    (fun next i => if i ≠ 0 then Function.update next (i - 1) (some i) else next)
    fun _ => none

/-- The two programs. -/
inductive Program where
  | pgsql2pgsql
  | mysql2pgsql
  deriving DecidableEq

def Program.links : Program → ℕ → ℕ → Option ℕ
  | .pgsql2pgsql => linkForward
  | .mysql2pgsql => linkBackward

/-- The list before the workers start.  `l_task` points at the array even if it is empty. -/
def TaskQueue.init (program : Program) (tables : List Tbl) : TaskQueue Tbl where
  tables
  next := program.links tables.length
  lTask := some 0
  ntask := tables.length

/-- What a worker does under `t_lock`: `curr`, and the list that it leaves. -/
def TaskQueue.pop (q : TaskQueue Tbl) : Except Fault (Option ℕ × TaskQueue Tbl) :=
  if q.ntask = 1 then .ok (q.lTask, { q with lTask := none, ntask := 0 })
  else if 1 < q.ntask then
    match q.lTask with
    | none => .error .nullPointer
    | some i =>
      if i < q.tables.length then
        .ok (some i, { q with lTask := q.next i, ntask := q.ntask - 1 })
      else .error .bufferOverrun
  else .ok (none, q)

/-! ## The workers -/

/-- Where a worker is: `copy_table_data` and `mysql2pgsql_copy_data` alike. -/
inductive WorkerPc where
  | connecting
  | taking
  | working (task : ℕ)
  /-- It found no task, and sets `all_ok`. -/
  | drained
  | exited
  deriving DecidableEq

/-- A step of a worker. -/
inductive WorkerEvent where
  | connect (ok : Bool)
  | take
  /-- Anything it does with its task. -/
  | work
  /-- The task is complete. -/
  | next
  /-- `goto exit` -/
  | giveUp
  deriving DecidableEq

/-- The list, the workers, and which worker was given which task, oldest first. -/
structure WorkSystem (Tbl : Type u) where
  queue : TaskQueue Tbl
  workers : List WorkerPc
  claimed : List (ℕ × ℕ) := []
  /-- The process has crashed. -/
  fault : Option Fault := none

namespace WorkSystem

variable (s : WorkSystem Tbl)

def goto (k : ℕ) (pc : WorkerPc) : WorkSystem Tbl := { s with workers := s.workers.set k pc }

/-- A worker takes a task. -/
def take (k : ℕ) : WorkSystem Tbl :=
  match s.queue.pop with
  | .error fault => { s with fault := some fault }
  | .ok (none, queue) => goto { s with queue } k .drained
  | .ok (some task, queue) =>
    goto { s with queue, claimed := s.claimed ++ [(k, task)] } k (.working task)

/-- One step of the `k`-th worker. -/
def step (s : WorkSystem Tbl) (e : ℕ × WorkerEvent) : Option (WorkSystem Tbl) :=
  if s.fault.isSome then none
  else
    match s.workers[e.1]?, e.2 with
    | some .connecting, .connect ok => some (s.goto e.1 (if ok then .taking else .exited))
    | some .taking, .take => some (s.take e.1)
    | some (.working _), .work => some s
    | some (.working _), .next => some (s.goto e.1 .taking)
    | some (.working _), .giveUp => some (s.goto e.1 .exited)
    | _, _ => none

/-- The workers are created. -/
def init (program : Program) (tables : List Tbl) (nth : ℕ) : WorkSystem Tbl where
  queue := .init program tables
  workers := List.replicate nth .connecting

end WorkSystem

/-! ## The property -/

/-- The tasks that are left: those of the list while the counter is positive. -/
def TaskQueue.Remaining (q : TaskQueue Tbl) (rest : List ℕ) : Prop :=
  q.ntask = rest.length ∧ (rest ≠ [] → Chain q.next q.tables.length q.lTask rest)

/-- **Every task is handed out once.** -/
structure HandedOut (ntasks : ℕ) (s : WorkSystem Tbl) : Prop where
  /-- `ntask` is the length of the list while it is positive. -/
  counted : 0 < s.queue.ntask →
    ∃ rest, Chain s.queue.next s.queue.tables.length s.queue.lTask rest ∧
      s.queue.ntask = rest.length
  /-- `l_task` is not dereferenced when it is NULL or outside the array. -/
  sound : s.fault = none
  /-- The tasks given out and the tasks left are all tasks, in order. -/
  ordered : ∃ rest, s.queue.Remaining rest ∧ s.claimed.map Prod.snd ++ rest = List.range ntasks
  /-- No task is given to two workers, or twice to one. -/
  once : (s.claimed.map Prod.snd).Nodup
  /-- If a worker has seen the end of the list, every task was given to exactly one worker. -/
  drained : .drained ∈ s.workers → ∀ task < ntasks, ∃! k, (k, task) ∈ s.claimed

/-! ## The list and its array -/

theorem linkForward_linked (n : ℕ) : Linked n (linkForward n) := by
  -- the links after `m` rounds of the loop
  have hloop : ∀ m, m ≤ n → ∀ i, (List.range m).foldl
      (fun (next : ℕ → Option ℕ) i =>
        if i ≠ n - 1 then Function.update next i (some (i + 1)) else next)
      (fun _ => none) i = if i < m ∧ i + 1 < n then some (i + 1) else none := by
    intro m
    induction m with
    | zero =>
      intro _ i
      simp
    | succ m ih =>
      intro hm i
      rw [List.range_succ, List.foldl_append, List.foldl_cons, List.foldl_nil]
      have hi := ih (by omega) i
      by_cases hlast : m = n - 1
      · rw [if_neg (not_not.2 hlast), hi]
        exact if_congr (by omega) rfl rfl
      · rw [if_pos hlast]
        by_cases him : i = m
        · subst him
          rw [Function.update_self, if_pos (by omega)]
        · rw [Function.update_of_ne him, hi]
          exact if_congr (by omega) rfl rfl
  intro i
  rw [linkForward, hloop n le_rfl i]
  exact if_congr (by omega) rfl rfl

theorem linkBackward_linked (n : ℕ) : Linked n (linkBackward n) := by
  have hloop : ∀ m i, (List.range m).foldl
      (fun (next : ℕ → Option ℕ) i =>
        if i ≠ 0 then Function.update next (i - 1) (some i) else next)
      (fun _ => none) i = if i + 1 < m then some (i + 1) else none := by
    intro m
    induction m with
    | zero =>
      intro i
      simp
    | succ m ih =>
      intro i
      rw [List.range_succ, List.foldl_append, List.foldl_cons, List.foldl_nil]
      by_cases hfirst : m = 0
      · subst hfirst
        rw [if_neg (not_not.2 rfl), ih i]
        exact if_congr (by omega) rfl rfl
      · rw [if_pos hfirst]
        by_cases him : i = m - 1
        · subst him
          rw [Function.update_self, if_pos (by omega), Nat.sub_add_cancel (by omega)]
        · rw [Function.update_of_ne him, ih i]
          exact if_congr (by omega) rfl rfl
  intro i
  exact hloop n i

/-- Both programs link the array in order. -/
theorem Program.links_linked (program : Program) (n : ℕ) : Linked n (program.links n) := by
  cases program with
  | pgsql2pgsql => exact linkForward_linked n
  | mysql2pgsql => exact linkBackward_linked n

namespace TaskQueue

theorem remaining_init (program : Program) (tables : List Tbl) :
    (init program tables).Remaining (List.range tables.length) := by
  refine ⟨(List.length_range).symm, ?_⟩
  intro hne
  have hpos : 0 < tables.length := Nat.pos_of_ne_zero fun h => hne (by rw [h]; rfl)
  exact (program.links_linked tables.length).chain hpos

variable {q : TaskQueue Tbl} {rest : List ℕ}

/-- A task that is left is an entry of the array. -/
theorem Remaining.lt (h : q.Remaining rest) {i : ℕ} (hi : i ∈ rest) : i < q.tables.length := by
  have hchain := h.2 (List.ne_nil_of_mem hi)
  clear h
  generalize q.lTask = p at hchain
  induction hchain with
  | nil => cases hi
  | cons lt _ ih =>
    rcases List.mem_cons.1 hi with rfl | hi
    · exact lt
    · exact ih hi

/-- The queue determines the tasks that are left. -/
theorem Remaining.unique {rest' : List ℕ} (h : q.Remaining rest) (h' : q.Remaining rest') :
    rest = rest' := by
  have hlength : rest.length = rest'.length := h.1.symm.trans h'.1
  by_cases hnil : rest = []
  · rw [hnil, List.length_nil] at hlength
    rw [hnil, List.length_eq_zero_iff.1 hlength.symm]
  · have hnil' : rest' ≠ [] := by
      rintro rfl
      exact hnil (List.length_eq_zero_iff.1 hlength)
    exact (h.2 hnil).unique (h'.2 hnil')

/-- **Taking a task**: it is the first of those left, and the others stay. -/
theorem Remaining.pop (h : q.Remaining rest) :
    ∃ q', q.pop = .ok (rest.head?, q') ∧ q'.Remaining rest.tail ∧ q'.tables = q.tables := by
  obtain ⟨hcount, hchain⟩ := h
  match rest with
  | [] =>
    have h0 : q.ntask = 0 := hcount
    exact ⟨q, by simp [TaskQueue.pop, h0], ⟨hcount, nofun⟩, rfl⟩
  | [i] =>
    have h1 : q.ntask = 1 := hcount
    have hhead : q.lTask = some i := by
      generalize q.lTask = p at hchain
      cases hchain nofun
      rfl
    refine ⟨{ q with lTask := none, ntask := 0 }, ?_, ⟨rfl, nofun⟩, rfl⟩
    rw [TaskQueue.pop, if_pos h1, hhead]
    rfl
  | i :: j :: rest =>
    have hn : q.ntask = rest.length + 1 + 1 := hcount
    have hchain := hchain nofun
    cases hp : q.lTask with
    | none =>
      rw [hp] at hchain
      cases hchain
    | some i' =>
      rw [hp] at hchain
      cases hchain with
      | cons lt tail =>
        refine ⟨{ q with lTask := q.next i, ntask := q.ntask - 1 }, ?_, ⟨?_, fun _ => tail⟩, rfl⟩
        · rw [TaskQueue.pop, if_neg (by omega), if_pos (by omega), hp]
          exact if_pos lt
        · exact Nat.sub_eq_of_eq_add hn

/-- The worker of `copy_table_data` sees the list as the tables that are left. -/
theorem Remaining.step_take (h : q.Remaining rest) {env : CopyEnv Tbl Row} {w : CopyThread Tbl Row}
    (hpc : w.pc = .taking) : ∃ curr q', q.pop = .ok (curr, q') ∧
      q'.Remaining rest.tail ∧ ∃ thread, w.step env (rest.filterMap (q.tables[·]?)) .take =
        some { thread, tasks := rest.tail.filterMap (q'.tables[·]?) } ∧
      thread.pc.table = curr.bind (q.tables[·]?) := by
  obtain ⟨q', hpop, hrest, htables⟩ := h.pop
  refine ⟨_, q', hpop, hrest, ?_⟩
  rw [htables]
  match rest with
  | [] => exact ⟨⟨.finished true, .idle, .idle⟩, by simp only [CopyThread.step, hpc]; rfl, rfl⟩
  | i :: rest =>
    have hi : i < q.tables.length := h.lt (List.mem_cons_self ..)
    have htable : q.tables[i]? = some q.tables[i] := List.getElem?_eq_getElem hi
    refine ⟨{ w with pc := .beginOrigin q.tables[i] }, ?_, htable.symm⟩
    simp only [CopyThread.step, hpc, List.filterMap_cons_some htable]
    rfl

end TaskQueue

/-! ## The invariant -/

/-- The tasks that are left follow those given out; a worker that found no task left none. -/
structure WorkInv (ntasks : ℕ) (s : WorkSystem Tbl) : Prop where
  sound : s.fault = none
  ordered : ∃ rest, s.queue.Remaining rest ∧ s.claimed.map Prod.snd ++ rest = List.range ntasks
  drained : .drained ∈ s.workers → s.queue.ntask = 0

section
variable {ntasks : ℕ} {s s' : WorkSystem Tbl}

/-- A step that leaves the list alone. -/
theorem WorkInv.goto (h : WorkInv ntasks s) {k : ℕ} {pc : WorkerPc} (hpc : pc ≠ .drained) :
    WorkInv ntasks (s.goto k pc) where
  sound := h.sound
  ordered := h.ordered
  drained hmem := by
    rcases List.mem_or_eq_of_mem_set hmem with hmem | heq
    · exact h.drained hmem
    · exact absurd heq.symm hpc

/-- **A worker takes a task.** -/
theorem WorkInv.take (h : WorkInv ntasks s) (k : ℕ) : WorkInv ntasks (s.take k) := by
  obtain ⟨rest, hrest, hordered⟩ := h.ordered
  obtain ⟨q', hpop, hrest', -⟩ := hrest.pop
  cases rest with
  | nil =>
    have hq : s.take k = WorkSystem.goto { s with queue := q' } k .drained := by
      simp only [WorkSystem.take, hpop, List.head?_nil]
    rw [hq]
    exact ⟨h.sound, ⟨[], hrest', hordered⟩, fun _ => hrest'.1⟩
  | cons i rest =>
    have hq : s.take k = WorkSystem.goto
        { s with queue := q', claimed := s.claimed ++ [(k, i)] } k (.working i) := by
      simp only [WorkSystem.take, hpop, List.head?_cons]
    rw [hq]
    refine ⟨h.sound, ⟨rest, hrest', ?_⟩, ?_⟩
    · show (s.claimed ++ [(k, i)]).map Prod.snd ++ rest = _
      rw [← hordered, List.map_append, List.append_assoc]
      rfl
    · -- no worker has seen the end while a task was left
      intro hmem
      rcases List.mem_or_eq_of_mem_set hmem with hmem | heq
      · have h0 := h.drained hmem
        rw [hrest.1] at h0
        cases h0
      · cases heq

/-- **One step keeps the invariant.** -/
theorem workInv_step {e : ℕ × WorkerEvent} (hI : WorkInv ntasks s) (h : s.step e = some s') :
    WorkInv ntasks s' := by
  unfold WorkSystem.step at h
  rw [hI.sound] at h
  obtain ⟨k, e⟩ := e
  cases hw : s.workers[k]? with
  | none => simp [hw] at h
  | some pc =>
    cases pc <;> cases e <;> simp only [hw, Option.isSome_none, Bool.false_eq_true, if_false,
      reduceCtorEq, Option.some.injEq] at h
    case connecting.connect ok =>
      subst h
      cases ok
      · exact hI.goto nofun
      · exact hI.goto nofun
    case taking.take =>
      subst h
      exact hI.take k
    case working.work =>
      subst h
      exact hI
    case working.next =>
      subst h
      exact hI.goto nofun
    case working.giveUp =>
      subst h
      exact hI.goto nofun

theorem workInv_init (program : Program) (tables : List Tbl) (nth : ℕ) :
    WorkInv tables.length (.init program tables nth : WorkSystem Tbl) where
  sound := rfl
  ordered := ⟨_, TaskQueue.remaining_init program tables, rfl⟩
  drained hmem := by cases List.eq_of_mem_replicate hmem

/-- What the invariant says about the tasks given out. -/
theorem WorkInv.handedOut (h : WorkInv ntasks s) : HandedOut ntasks s := by
  obtain ⟨rest, hrest, hordered⟩ := h.ordered
  have hnodup : (s.claimed.map Prod.snd).Nodup := by
    have := List.nodup_range (n := ntasks)
    rw [← hordered] at this
    exact (List.nodup_append.1 this).1
  refine ⟨?_, h.sound, h.ordered, hnodup, ?_⟩
  · intro hpos
    refine ⟨rest, hrest.2 ?_, hrest.1⟩
    rintro rfl
    rw [hrest.1] at hpos
    cases hpos
  · intro hdrained task htask
    -- nothing is left
    have hnil : rest = [] := List.eq_nil_of_length_eq_zero (hrest.1.symm.trans (h.drained hdrained))
    rw [hnil, List.append_nil] at hordered
    have hmem : task ∈ s.claimed.map Prod.snd := hordered ▸ List.mem_range.2 htask
    obtain ⟨⟨k, task'⟩, hk, rfl⟩ := List.mem_map.1 hmem
    refine ⟨k, hk, ?_⟩
    intro k' hk'
    have := List.inj_on_of_nodup_map hnodup hk' hk rfl
    exact (Prod.mk.inj this).1

/-- **The list hands out each task exactly once**, in both programs, for every number of tasks and
of workers and in every interleaving. -/
theorem handedOut_of_run (program : Program) (tables : List Tbl) (nth : ℕ)
    {es : List (ℕ × WorkerEvent)} {s : WorkSystem Tbl}
    (hr : StepMachine.run WorkSystem.step (.init program tables nth) es = some s) :
    HandedOut tables.length s :=
  (StepMachine.run_preserves (fun _ _ _ hI h => workInv_step hI h)
    (workInv_init program tables nth) hr).handedOut

end

/-- Two workers share three tables; the first gives up on its table, the other sees the end. -/
def sharedTables : List (ℕ × WorkerEvent) :=
  [(1, .connect true), (0, .connect true), (0, .take), (1, .take), (0, .giveUp), (1, .work),
    (1, .next), (1, .take), (1, .next), (1, .take)]

theorem handedOut_sharedTables :
    ∃ s, StepMachine.run WorkSystem.step (.init .mysql2pgsql [10, 20, 30] 2) sharedTables = some s ∧
      (s.claimed = [(0, 0), (1, 1), (1, 2)] ∧ s.workers = [.exited, .drained]) ∧
      HandedOut 3 s := by
  have hr : (StepMachine.run WorkSystem.step (.init .mysql2pgsql [10, 20, 30] 2) sharedTables).map
      (fun s => (s.claimed, s.workers)) = some ([(0, 0), (1, 1), (1, 2)], [.exited, .drained]) := by
    decide
  obtain ⟨s, hs, h⟩ := Option.map_eq_some_iff.1 hr
  exact ⟨s, hs, Prod.mk.inj h, handedOut_of_run .mysql2pgsql [10, 20, 30] 2 hs⟩

end RdsDbsync
