/-
  `db_sync_main` up to the start of the apply thread: the decision on a full sync, the
  slot, the list of tables, the workers, and the two marks of `db_sync_status`; run after
  run against the same databases.
-/
import RdsDbsync.CopyThread
import RdsDbsync.Lib.StepMachine

namespace RdsDbsync

universe u v
variable {Tbl : Type u} {Row : Type v}

/-! ## State -/

/-- The databases: the rows that each snapshot of a table sees, and the server versions. -/
structure SyncConfig (Tbl : Type u) (Row : Type v) where
  rows : Tbl → ℕ → List Row
  srcIsGreenplum : Bool
  srcVersion : ℕ
  descIsGreenplum : Bool

/-- `replication_sync`. -/
def SyncConfig.replicationSync (c : SyncConfig Tbl Row) : Bool :=
  !c.srcIsGreenplum && 90400 ≤ c.srcVersion

/-- Where the main thread is in `db_sync_main`. -/
inductive MainPc where
  /-- There is no process. -/
  | down
  | connecting
  | connectingLocal
  | readingStatus
  | findingSlot
  | creatingSlot
  | beginningCopy
  | exportingSnapshot
  | listingTables
  /-- In the loop over `ThreadCreate`. -/
  | creatingThreads
  | waiting
  | writingEnd
  /-- The full sync is over, or was not needed. -/
  | syncing
  deriving DecidableEq

/-- Before the list of tables is known, hence before any worker. -/
def MainPc.beforeThreads : MainPc → Bool
  | .creatingThreads | .waiting | .writingEnd | .syncing => false
  | _ => true

/-- Past the status row. -/
def MainPc.pastStatus : MainPc → Bool
  | .down | .connecting | .connectingLocal | .readingStatus => false
  | _ => true

/-- Before the snapshot of the main transaction is exported, if it is. -/
def MainPc.beforeExport : MainPc → Bool
  | .listingTables | .creatingThreads | .waiting | .writingEnd | .syncing => false
  | _ => true

/-- The variables of `db_sync_main`. -/
structure MainThread (Tbl : Type u) where
  pc : MainPc := .down
  nth : ℕ := 0
  /-- `local_conn` is not NULL. -/
  localConn : Bool := false
  needFullSync : Bool := false
  /-- `snapshot`, as what it sees. -/
  snapshot : Option ℕ := none
  /-- `snapshot` of the shared handle. -/
  hdSnapshot : Option ℕ := none
  /-- The list of tables. -/
  tasks : List Tbl := []
  /-- This process created the slot; no step reads it. -/
  createdSlot : Bool := false

/-- A COPY of a process that created the slot, with what the slot's stream starts from. -/
structure HandOff (Tbl : Type u) where
  slot : ℕ
  table : Tbl
  snapshot : ℕ
  deriving DecidableEq

/-- The source, the status row, the target, and a process. -/
structure SyncSystem (Tbl : Type u) (Row : Type v) where
  /-- Transactions committed on the source. -/
  commits : ℕ := 0
  /-- The slot delivers the transactions from this one on. -/
  slot : Option ℕ := none
  /-- `full_s_start` is not NULL. -/
  fullStart : Bool := false
  /-- `full_s_end` is not NULL. -/
  fullEnd : Bool := false
  /-- What is copied and committed on the target. -/
  target : List (TableCopy Tbl Row) := []
  main : MainThread Tbl := {}
  /-- `l_task`. -/
  queue : List Tbl := []
  threads : List (CopyThread Tbl Row) := []
  /-- Tables of this process that were taken and are not copied, or not in full. -/
  dropped : List Tbl := []
  -- histories, which no step reads
  /-- The COPYs of processes that created the slot. -/
  handOffs : List (HandOff Tbl) := []
  /-- The tasks of the processes that set `full_s_end`. -/
  endTasks : List Tbl := []
  /-- What earlier processes committed on the target. -/
  earlier : List (TableCopy Tbl Row) := []

/-! ## Steps -/

/-- What happens next. -/
inductive SyncEvent (Tbl : Type u) where
  | sourceCommit
  /-- A process starts, with a number of workers. -/
  | start (nth : ℕ)
  /-- The process is killed, or ends. -/
  | kill
  /-- The connections to the source and the target. -/
  | connect (ok : Bool)
  | connectLocal (ok : Bool)
  /-- `get_task_status`; if its query fails all variables stay NULL. -/
  | readStatus (ok : Bool)
  /-- `is_slot_exists`; if its query fails the answer is no. -/
  | findSlot (ok : Bool)
  | createSlot (ok : Bool)
  /-- `BEGIN`, and `SET TRANSACTION SNAPSHOT` if there is a snapshot. -/
  | beginCopy (ok : Bool)
  /-- `get_synchronized_snapshot`. -/
  | exportSnapshot (ok : Bool)
  | listTables (tables : Option (List Tbl))
  | createThread
  /-- `update_task_status`; its failure is ignored. -/
  | writeStart (ok : Bool)
  /-- `WaitThreadEnd` returns. -/
  | joined
  | writeEnd (ok : Bool)
  /-- A step of the `i`-th worker. -/
  | worker (i : ℕ) (e : CopyEvent)
  deriving DecidableEq

namespace SyncSystem

variable (c : SyncConfig Tbl Row) (s : SyncSystem Tbl Row)

/-- The process ends; its transactions are rolled back. -/
def exit : SyncSystem Tbl Row :=
  { s with main := {}, queue := [], threads := [], dropped := [] }

def goto (pc : MainPc) : SyncSystem Tbl Row := { s with main := { s.main with pc } }

/-- Past the slot. -/
def afterSlot : SyncSystem Tbl Row := s.goto (if s.main.needFullSync then .beginningCopy else .syncing)

/-- Past the decision on the full sync. -/
def afterStatus : SyncSystem Tbl Row :=
  if c.replicationSync then s.goto .findingSlot else s.afterSlot

/-- What the workers see. -/
def copyEnv : CopyEnv Tbl Row where
  rows := c.rows
  commits := s.commits
  snapshot := s.main.hdSnapshot
  descIsGreenplum := c.descIsGreenplum

/-- The system after a step of the `i`-th worker. -/
def afterWorker (i : ℕ) (r : CopyStep Tbl Row) : SyncSystem Tbl Row :=
  { s with
    threads := s.threads.set i r.thread
    queue := r.tasks
    target := s.target ++ r.committed
    dropped := s.dropped ++ r.dropped
    handOffs := s.handOffs ++ if s.main.createdSlot then
      r.read.map fun (table, snapshot) => ⟨s.slot.getD 0, table, snapshot⟩ else [] }

/-- One step. -/
def step : SyncEvent Tbl → Option (SyncSystem Tbl Row)
  | .sourceCommit => some { s with commits := s.commits + 1 }
  | .start nth =>
    if s.main.pc = .down then
      some { s with main := { pc := .connecting, nth }, earlier := s.target }
    else none
  | .kill => if s.main.pc = .down then none else some s.exit
  | .connect ok =>
    if s.main.pc = .connecting then some (if ok then s.goto .connectingLocal else s.exit)
    else none
  | .connectLocal ok =>
    if s.main.pc = .connectingLocal then
      some (if ok then goto { s with main := { s.main with localConn := true } } .readingStatus
        else afterStatus c { s with main := { s.main with needFullSync := true } })
    else none
  | .readStatus ok =>
    if s.main.pc = .readingStatus then
      let fullStart := ok && s.fullStart
      let fullEnd := ok && s.fullEnd
      some (if fullStart ∧ ¬fullEnd then s.exit
        else afterStatus c { s with main := { s.main with needFullSync := !fullStart && !fullEnd } })
    else none
  | .findSlot ok =>
    if s.main.pc = .findingSlot then
      some (if ok ∧ s.slot ≠ none then s.afterSlot else s.goto .creatingSlot)
    else none
  | .createSlot ok =>
    if s.main.pc = .creatingSlot then
      if ok then
        if s.slot = none then
          some (afterSlot { s with
            slot := some s.commits
            main := { s.main with snapshot := some s.commits, createdSlot := true } })
        else none
      else some s.exit
    else none
  | .beginCopy ok =>
    if s.main.pc = .beginningCopy then
      some (if ok then
        s.goto (if s.main.snapshot = none ∧ 90200 ≤ c.srcVersion then .exportingSnapshot
          else .listingTables)
        else s.exit)
    else none
  | .exportSnapshot ok =>
    if s.main.pc = .exportingSnapshot then
      let snapshot := if ok then some s.commits else none
      some { s with main := { s.main with pc := .listingTables, snapshot, hdSnapshot := snapshot } }
    else none
  | .listTables tables =>
    if s.main.pc = .listingTables then
      match tables with
      | some tasks =>
        some { s with main := { s.main with pc := .creatingThreads, tasks }, queue := tasks }
      | none => some s.exit
    else none
  | .createThread =>
    if s.main.pc = .creatingThreads ∧ s.threads.length < s.main.nth then
      some { s with threads := s.threads ++ [{}] }
    else none
  | .writeStart ok =>
    if s.main.pc = .creatingThreads ∧ ¬s.threads.length < s.main.nth then
      some (goto { s with fullStart := s.fullStart || (ok && s.main.localConn) } .waiting)
    else none
  | .joined =>
    if s.main.pc = .waiting ∧ s.threads.all fun w => w.pc.isFinished then some (s.goto .writingEnd)
    else none
  | .writeEnd ok =>
    if s.main.pc = .writingEnd then
      let written := ok && s.main.localConn
      some (goto { s with
        fullEnd := s.fullEnd || written
        endTasks := if written then s.endTasks ++ s.main.tasks else s.endTasks } .syncing)
    else none
  | .worker i e =>
    match s.threads[i]? with
    | some w => (w.step (s.copyEnv c) s.queue e).map (s.afterWorker i)
    | none => none

/-! ## What a step does -/

/-- A step that only changes variables of the main thread, up to the export of its snapshot. -/
structure Moves (e : SyncEvent Tbl) (m : MainThread Tbl) : Prop where
  pc : s.main.pc.beforeExport
  alive : s.main.pc ≠ .down
  next : m.pc.beforeThreads ∧ m.pc ≠ .down ∨ m.pc = .syncing
  exporting : m.pc = .exportingSnapshot → m.snapshot = none
  tasks : m.tasks = s.main.tasks
  snapshots : m.snapshot = s.main.snapshot ∧ m.hdSnapshot = s.main.hdSnapshot ∧
    m.createdSlot = s.main.createdSlot
  /-- Why a full sync is needed. -/
  decides : m.needFullSync = true → s.main.needFullSync = true ∨ e = .connectLocal false ∨
    ∃ ok, e = .readStatus ok ∧ (ok = true → s.fullStart = false)
  /-- How the status row is passed. -/
  passes : m.pc.pastStatus → s.main.pc.pastStatus ∨ e = .connectLocal false ∨
    ∃ ok, e = .readStatus ok ∧ (ok = true → s.fullStart = true → s.fullEnd = true)

/-- The steps, with what they need. -/
inductive Step : SyncEvent Tbl → SyncSystem Tbl Row → Prop
  | sourceCommit : Step .sourceCommit { s with commits := s.commits + 1 }
  | start (nth : ℕ) (pc : s.main.pc = .down) :
    Step (.start nth) { s with main := { pc := .connecting, nth }, earlier := s.target }
  | kill (pc : s.main.pc ≠ .down) : Step .kill s.exit
  /-- `return 1`. -/
  | quit {e : SyncEvent Tbl} (pc : s.main.pc.beforeThreads) (alive : s.main.pc ≠ .down) : Step e s.exit
  | moved {e : SyncEvent Tbl} {m : MainThread Tbl} (moves : Moves s e m) : Step e { s with main := m }
  | slotCreated {next : MainPc} (pc : s.main.pc = .creatingSlot)
    (hnext : next = .beginningCopy ∨ next = .syncing) : Step (.createSlot true) { s with
      slot := some s.commits
      main := { s.main with pc := next, snapshot := some s.commits, createdSlot := true } }
  | exported {ok : Bool} {snapshot : Option ℕ} (pc : s.main.pc = .exportingSnapshot) :
    Step (.exportSnapshot ok) { s with
      main := { s.main with pc := .listingTables, snapshot, hdSnapshot := snapshot } }
  | listed (tasks : List Tbl) (pc : s.main.pc = .listingTables) : Step (.listTables (some tasks))
    { s with main := { s.main with pc := .creatingThreads, tasks }, queue := tasks }
  | createThread (pc : s.main.pc = .creatingThreads) :
    Step .createThread { s with threads := s.threads ++ [{}] }
  | writeStart (ok : Bool) (pc : s.main.pc = .creatingThreads) : Step (.writeStart ok)
    (goto { s with fullStart := s.fullStart || (ok && s.main.localConn) } .waiting)
  | joined (pc : s.main.pc = .waiting) (all : ∀ w ∈ s.threads, w.pc.isFinished) :
    Step .joined (s.goto .writingEnd)
  | writeEnd (ok : Bool) (pc : s.main.pc = .writingEnd) : Step (.writeEnd ok)
    (goto { s with
      fullEnd := s.fullEnd || (ok && s.main.localConn)
      endTasks := if ok && s.main.localConn then s.endTasks ++ s.main.tasks else s.endTasks }
      .syncing)
  | worker {i : ℕ} {e : CopyEvent} {w : CopyThread Tbl Row} {r : CopyStep Tbl Row}
    (thread : s.threads[i]? = some w) (step : w.step (s.copyEnv c) s.queue e = some r) :
    Step (.worker i e) (s.afterWorker i r)

theorem afterSlot_eq : ∃ next, (next = .beginningCopy ∨ next = .syncing) ∧
    s.afterSlot = s.goto next := by
  refine ⟨_, ?_, rfl⟩
  split_ifs
  · exact Or.inl rfl
  · exact Or.inr rfl

theorem afterStatus_eq : ∃ next, (next = .findingSlot ∨ next = .beginningCopy ∨ next = .syncing) ∧
    s.afterStatus c = s.goto next := by
  unfold afterStatus
  split_ifs
  · exact ⟨.findingSlot, Or.inl rfl, rfl⟩
  · obtain ⟨next, hnext, h⟩ := s.afterSlot_eq
    exact ⟨next, Or.inr hnext, h⟩

variable {c s} {s' : SyncSystem Tbl Row}

theorem beforeThreads_of_beforeExport {pc : MainPc} (h : pc.beforeExport) : pc.beforeThreads := by
  cases pc <;> first | rfl | cases h

/-- A step that only changes `pc`. -/
theorem Moves.goto {e : SyncEvent Tbl} {pc next : MainPc} (hpc : s.main.pc = pc)
    (hbefore : pc.beforeExport ∧ pc ≠ .down)
    (hnext : next.beforeThreads ∧ next ≠ .down ∨ next = .syncing)
    (hexporting : next = .exportingSnapshot → s.main.snapshot = none)
    (hpast : next.pastStatus → pc.pastStatus) :
    Moves s e { s.main with pc := next } where
  pc := hpc ▸ hbefore.1
  alive := hpc ▸ hbefore.2
  next := hnext
  exporting := hexporting
  tasks := rfl
  snapshots := ⟨rfl, rfl, rfl⟩
  decides := Or.inl
  passes h := Or.inl (hpc ▸ hpast h)

/-- The decision on the full sync. -/
theorem Moves.decided {e : SyncEvent Tbl} {pc next : MainPc} {need : Bool} (hpc : s.main.pc = pc)
    (hbefore : pc.beforeExport ∧ pc ≠ .down)
    (hnext : next = .findingSlot ∨ next = .beginningCopy ∨ next = .syncing)
    (hdecides : need = true → e = .connectLocal false ∨
      ∃ ok, e = .readStatus ok ∧ (ok = true → s.fullStart = false))
    (hpasses : e = .connectLocal false ∨
      ∃ ok, e = .readStatus ok ∧ (ok = true → s.fullStart = true → s.fullEnd = true)) :
    Moves s e { s.main with pc := next, needFullSync := need } where
  pc := hpc ▸ hbefore.1
  alive := hpc ▸ hbefore.2
  next := by rcases hnext with rfl | rfl | rfl <;> simp [MainPc.beforeThreads]
  exporting h := by rcases hnext with rfl | rfl | rfl <;> cases h
  tasks := rfl
  snapshots := ⟨rfl, rfl, rfl⟩
  decides h := Or.inr (hdecides h)
  passes _ := Or.inr hpasses

theorem step_cases {e : SyncEvent Tbl} (h : s.step c e = some s') : Step c s e s' := by
  cases e with
  | sourceCommit => exact Option.some.inj h ▸ .sourceCommit
  | start nth =>
    obtain ⟨pc, rfl⟩ : s.main.pc = .down ∧ _ = s' := by
      simpa only [step, Option.ite_none_right_eq_some, Option.some.injEq] using h
    exact .start nth pc
  | kill =>
    obtain ⟨pc, rfl⟩ : s.main.pc ≠ .down ∧ _ = s' := by
      simpa only [step, Option.ite_none_left_eq_some, Option.some.injEq] using h
    exact .kill pc
  | connect ok =>
    obtain ⟨pc, rfl⟩ : s.main.pc = .connecting ∧ _ = s' := by
      simpa only [step, Option.ite_none_right_eq_some, Option.some.injEq] using h
    cases ok
    · exact .quit (by rw [pc]; rfl) (by rw [pc]; nofun)
    · exact .moved (.goto pc (by decide) (by decide) nofun (by decide))
  | connectLocal ok =>
    obtain ⟨pc, rfl⟩ : s.main.pc = .connectingLocal ∧ _ = s' := by
      simpa only [step, Option.ite_none_right_eq_some, Option.some.injEq] using h
    cases ok
    · obtain ⟨next, hnext, heq⟩ := afterStatus_eq c
        { s with main := { s.main with needFullSync := true } }
      exact heq ▸ .moved (.decided pc (by decide) hnext (fun _ => Or.inl rfl) (Or.inl rfl))
    · exact .moved ⟨by rw [pc]; rfl, by rw [pc]; nofun, Or.inl ⟨rfl, nofun⟩, nofun, rfl,
        ⟨rfl, rfl, rfl⟩, Or.inl, nofun⟩
  | readStatus ok =>
    obtain ⟨pc, rfl⟩ : s.main.pc = .readingStatus ∧ _ = s' := by
      simpa only [step, Option.ite_none_right_eq_some, Option.some.injEq] using h
    split_ifs with hrefused
    · exact .quit (by rw [pc]; rfl) (by rw [pc]; nofun)
    · obtain ⟨next, hnext, heq⟩ := afterStatus_eq c { s with
        main := { s.main with needFullSync := !(ok && s.fullStart) && !(ok && s.fullEnd) } }
      refine heq ▸ .moved (.decided pc (by decide) hnext ?_ (Or.inr ⟨ok, rfl, ?_⟩))
      · refine fun hneed => Or.inr ⟨ok, rfl, fun hok => ?_⟩
        simpa [hok] using (Bool.and_eq_true_iff.1 hneed).1
      · intro hok hstart
        simpa [hok, hstart] using hrefused
  | findSlot ok =>
    obtain ⟨pc, rfl⟩ : s.main.pc = .findingSlot ∧ _ = s' := by
      simpa only [step, Option.ite_none_right_eq_some, Option.some.injEq] using h
    split_ifs with hok
    · obtain ⟨next, hnext, heq⟩ := afterSlot_eq s
      rw [heq]
      rcases hnext with rfl | rfl
      · exact .moved (.goto pc (by decide) (by decide) nofun (by decide))
      · exact .moved (.goto pc (by decide) (by decide) nofun (by decide))
    · exact .moved (.goto pc (by decide) (by decide) nofun (by decide))
  | createSlot ok =>
    obtain ⟨pc, h⟩ : s.main.pc = .creatingSlot ∧ _ = some s' := by
      simpa only [step, Option.ite_none_right_eq_some] using h
    cases ok
    · obtain rfl := Option.some.inj h
      exact .quit (by rw [pc]; rfl) (by rw [pc]; nofun)
    · obtain ⟨-, rfl⟩ : s.slot = none ∧ _ = s' := by
        simpa only [if_true, Option.ite_none_right_eq_some, Option.some.injEq] using h
      obtain ⟨next, hnext, heq⟩ := afterSlot_eq { s with
        slot := some s.commits
        main := { s.main with snapshot := some s.commits, createdSlot := true } }
      exact heq ▸ .slotCreated pc hnext
  | beginCopy ok =>
    obtain ⟨pc, rfl⟩ : s.main.pc = .beginningCopy ∧ _ = s' := by
      simpa only [step, Option.ite_none_right_eq_some, Option.some.injEq] using h
    cases ok
    · exact .quit (by rw [pc]; rfl) (by rw [pc]; nofun)
    · rw [if_pos rfl]
      split_ifs with hs
      · exact .moved (.goto pc (by decide) (by decide) (fun _ => hs.1) (by decide))
      · exact .moved (.goto pc (by decide) (by decide) nofun (by decide))
  | exportSnapshot ok =>
    obtain ⟨pc, rfl⟩ : s.main.pc = .exportingSnapshot ∧ _ = s' := by
      simpa only [step, Option.ite_none_right_eq_some, Option.some.injEq] using h
    exact .exported pc
  | listTables tables =>
    obtain ⟨pc, h⟩ : s.main.pc = .listingTables ∧ _ = some s' := by
      simpa only [step, Option.ite_none_right_eq_some] using h
    cases tables with
    | none =>
      obtain rfl := Option.some.inj h
      exact .quit (by rw [pc]; rfl) (by rw [pc]; nofun)
    | some tasks =>
      obtain rfl := Option.some.inj h
      exact .listed tasks pc
  | createThread =>
    obtain ⟨⟨pc, -⟩, rfl⟩ : (s.main.pc = .creatingThreads ∧ _) ∧ _ = s' := by
      simpa only [step, Option.ite_none_right_eq_some, Option.some.injEq] using h
    exact .createThread pc
  | writeStart ok =>
    obtain ⟨⟨pc, -⟩, rfl⟩ : (s.main.pc = .creatingThreads ∧ _) ∧ _ = s' := by
      simpa only [step, Option.ite_none_right_eq_some, Option.some.injEq] using h
    exact .writeStart ok pc
  | joined =>
    obtain ⟨⟨pc, all⟩, rfl⟩ : (s.main.pc = .waiting ∧ _) ∧ _ = s' := by
      simpa only [step, Option.ite_none_right_eq_some, Option.some.injEq] using h
    exact .joined pc (List.all_eq_true.1 all)
  | writeEnd ok =>
    obtain ⟨pc, rfl⟩ : s.main.pc = .writingEnd ∧ _ = s' := by
      simpa only [step, Option.ite_none_right_eq_some, Option.some.injEq] using h
    exact .writeEnd ok pc
  | worker i e =>
    cases hw : s.threads[i]? with
    | none => simp [step, hw] at h
    | some w =>
      simp only [step, hw] at h
      obtain ⟨r, hr, rfl⟩ := Option.map_eq_some_iff.1 h
      exact .worker hw hr

end SyncSystem

/-! ## A table that grows with each commit -/

/-- The table 0 has as many rows as transactions were committed. -/
def growingTable : SyncConfig ℕ ℕ where
  rows _ n := List.range n
  srcIsGreenplum := false
  srcVersion := 90600
  descIsGreenplum := false

/-- The first process: it creates the slot, lists two tables and starts two workers. -/
def firstProcess : List (SyncEvent ℕ) :=
  [.start 2, .connect true, .connectLocal true, .readStatus true, .findSlot true, .createSlot true,
    .beginCopy true, .listTables (some [0, 1]), .createThread, .createThread]

/-- A worker takes a table and reads it. -/
def readTable (i : ℕ) : List (SyncEvent ℕ) :=
  [.connect true, .take, .beginOrigin .ok, .beginTarget .ok, .copyTo true].map (.worker i)

/-- It writes the one row that it reads, and commits it. -/
def writeTable (i : ℕ) : List (SyncEvent ℕ) :=
  [.copyFrom true, .row true, .noRow .done, .putEnd true, .getResult true, .finishOrigin true,
    .finishTarget .ok].map (.worker i)

/-- Both workers copy a table. -/
def copyTables : List (SyncEvent ℕ) :=
  readTable 0 ++ readTable 1 ++ writeTable 1 ++ writeTable 0

/-- They find no other one, and the main thread marks the end. -/
def markEnd : List (SyncEvent ℕ) := [.worker 0 .take, .worker 1 .take, .joined, .writeEnd true]

/-- The next process, up to its decision. -/
def nextProcess : List (SyncEvent ℕ) :=
  [.start 1, .connect true, .connectLocal true, .readStatus true]

end RdsDbsync
