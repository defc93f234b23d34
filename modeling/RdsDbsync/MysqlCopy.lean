/-
  A worker of `mysql2pgsql` (`mysql2pgsql_copy_data`) that transfers data
  (`get_ddl_only` is false).

  The worker takes tasks from the shared list, other workers take theirs in between.
  The copy of a task is labelled with the state of the source that its query read.

  `taskTruthful_of_run`: in which runs a complete task is committed as a whole, and a
  task on which the worker stopped not at all.
-/
import RdsDbsync.WorkQueue

namespace RdsDbsync

universe u v
variable {Tbl : Type u} {Row : Type v}

/-! ## The worker -/

/-- What does not change while the worker runs. -/
structure MysqlEnv (Row : Type v) where
  /-- The rows that the query of a task returns in a state of the source. -/
  rows : ℕ → ℕ → List Row
  /-- The length of the fields and separators that are appended for a row. -/
  fieldsLen : Row → ℕ
  bufferSize : ℕ
  /-- `isgp` -/
  isGreenplum : Bool
  ignoreErrorCount : ℕ

/-- Where a worker is in `mysql2pgsql_copy_data`. -/
inductive MysqlPc (Row : Type v) where
  | connecting
  /-- At the head of the loop. -/
  | taking
  | beginTarget (task : ℕ)
  | querying (task : ℕ)
  /-- The result set is there, and the types of its columns are looked up. -/
  | describing (task source : ℕ)
  | copyFrom (task source : ℕ)
  /-- The rows sent, those in the buffer `query`, and those to be fetched. -/
  | fetching (task source : ℕ) (sent buffered left : List Row)
  | flushing (task source : ℕ) (sent buffered : List Row)
  | putEnd (task source : ℕ) (sent : List Row)
  | getResult (task source : ℕ) (sent : List Row)
  | finishTarget (task : ℕ)
  | finished (allOk : Bool)
  deriving DecidableEq

/-- The task that is taken. -/
def MysqlPc.task : MysqlPc Row → Option ℕ
  | .beginTarget t | .querying t | .describing t _ | .copyFrom t _ | .fetching t _ _ _ _
  | .flushing t _ _ _ | .putEnd t _ _ | .getResult t _ _ | .finishTarget t => some t
  | .connecting | .taking | .finished _ => none

/-- What `PQgetResult` returns for the COPY. -/
inductive CopyResult where
  /-- The target took the rows but for those at these positions. -/
  | done (rejected : List ℕ)
  | failed
  /-- The target took all rows, but the connection broke before it said so. -/
  | unheard
  deriving DecidableEq

/-- The next step of the worker, or of the others. -/
inductive MysqlEvent where
  /-- Another worker takes a task. -/
  | otherTakes
  | connect (ok : Bool)
  | take
  | beginTarget (answer : Answer)
  /-- `mysql_query`, in a state of the source. -/
  | query (source : ℕ) (ok : Bool)
  /-- `fetch_colmum_info`; it fails as well if there is no result set, as then the process
  crashes. -/
  | describe (ok : Bool)
  | copyFrom (ok : Bool)
  /-- `mysql_fetch_row` returns a row; if the buffer is full, `PQputCopyData` succeeds or not;
  `time_to_abort` is set or not. -/
  | row (put abort : Bool)
  /-- `mysql_fetch_row` returns NULL, behind the last row or because of an error. -/
  | noRow (error : Bool)
  /-- The last `PQputCopyData`, if there is something in the buffer. -/
  | flush (ok : Bool)
  | putEnd (ok : Bool)
  | getResult (result : CopyResult)
  | finishTarget (answer : Answer)
  deriving DecidableEq

/-- The worker, the shared list, and what the worker has done. -/
structure MysqlWorker (Tbl : Type u) (Row : Type v) where
  queue : TaskQueue Tbl
  pc : MysqlPc Row := .connecting
  target : TargetTx ℕ Row := .idle
  /-- What this worker committed on the target. -/
  committed : List (TableCopy ℕ Row) := []
  /-- The tasks whose `complete` flag it set. -/
  complete : List ℕ := []
  /-- The task on which it stopped early. -/
  stopped : Option ℕ := none

namespace MysqlEnv

variable (env : MysqlEnv Row)

/-- `query->len`; a line end follows each row. -/
def bufferLen (buffered : List Row) : ℕ := (buffered.map fun row => env.fieldsLen row + 1).sum

/-- The rows that the target takes.  It rejects rows only under a SEGMENT REJECT LIMIT. -/
def accepts (sent : List Row) (rejected : List ℕ) : Option (List Row) :=
  if rejected = [] then some sent
  else if env.isGreenplum ∧ 0 < env.ignoreErrorCount then
    some ((sent.zipIdx.filter fun (_, i) => i ∉ rejected).map Prod.fst)
  else none

end MysqlEnv

namespace MysqlWorker

variable (env : MysqlEnv Row) (w : MysqlWorker Tbl Row)

/-- `goto exit` while a task is worked on; an open transaction is rolled back. -/
def giveUp (task : ℕ) : MysqlWorker Tbl Row :=
  { w with pc := .finished false, target := .idle, stopped := some task }

/-- One step of `mysql2pgsql_copy_data`. -/
def step (e : MysqlEvent) : Option (MysqlWorker Tbl Row) :=
  match w.pc, e with
  | _, .otherTakes =>
    match w.queue.pop with
    | .ok (_, queue) => some { w with queue }
    | .error _ => none
  | .connecting, .connect ok => some { w with pc := if ok then .taking else .finished false }
  | .taking, .take =>
    match w.queue.pop with
    | .ok (some task, queue) => some { w with pc := .beginTarget task, queue }
    | .ok (none, queue) => some { w with pc := .finished true, target := .idle, queue }
    | .error _ => none
  | .beginTarget task, .beginTarget answer =>
    (startCopyTargetTx w.target answer).map fun target => { w with pc := .querying task, target }
  | .querying task, .query source ok =>
    some (if ok then { w with pc := .describing task source } else w.giveUp task)
  | .describing task source, .describe ok =>
    some (if ok then { w with pc := .copyFrom task source } else w.giveUp task)
  | .copyFrom task source, .copyFrom ok =>
    if ok then
      match w.target with
      | .lost => none
      | _ => some { w with pc := .fetching task source [] [] (env.rows task source) }
    else some (w.giveUp task)
  | .fetching task source sent buffered (row :: left), .row put abort =>
    let buffered := buffered ++ [row]
    if env.bufferSize ≤ env.bufferLen buffered then
      if !put || abort then some (w.giveUp task)
      else some { w with pc := .fetching task source (sent ++ buffered) [] left }
    else if abort then some (w.giveUp task)
    else some { w with pc := .fetching task source sent buffered left }
  | .fetching task source sent buffered left, .noRow error =>
    if error ∨ left.isEmpty then some { w with pc := .flushing task source sent buffered } else none
  | .flushing task source sent buffered, .flush ok =>
    if 0 < env.bufferLen buffered then
      if ok then some { w with pc := .putEnd task source (sent ++ buffered) }
      else some (w.giveUp task)
    else some { w with pc := .putEnd task source sent }
  | .putEnd task source sent, .putEnd ok =>
    some (if ok then { w with pc := .getResult task source sent } else w.giveUp task)
  | .getResult task source sent, .getResult result =>
    match result with
    | .done rejected =>
      (env.accepts sent rejected).bind fun rows =>
        (w.target.put ⟨task, source, rows⟩).map fun (target, committed) =>
          { w with pc := .finishTarget task, target, committed := w.committed ++ committed }
    | .failed => some (w.giveUp task)
    | .unheard =>
      (w.target.put ⟨task, source, sent⟩).map fun (_, committed) =>
        { w.giveUp task with committed := w.committed ++ committed }
  | .finishTarget task, .finishTarget answer =>
    -- `complete` is set and the loop goes on, whatever the answer is
    (finishCopyTargetTx w.target answer).map fun (target, committed) =>
      { w with
        pc := .taking, target, committed := w.committed ++ committed
        complete := w.complete ++ [task] }
  | _, _ => none

/-- The worker before its first step. -/
def init (tables : List Tbl) : MysqlWorker Tbl Row where
  queue := .init .mysql2pgsql tables

/-! ## What a step does -/

/-- The steps, with what they need. -/
inductive Step : MysqlEvent → MysqlWorker Tbl Row → Prop
  | otherTakes {curr : Option ℕ} {queue : TaskQueue Tbl} (pop : w.queue.pop = .ok (curr, queue)) :
    Step .otherTakes { w with queue }
  | connected (pc : w.pc = .connecting) : Step (.connect true) { w with pc := .taking }
  | notConnected (pc : w.pc = .connecting) : Step (.connect false) { w with pc := .finished false }
  | took {task : ℕ} {queue : TaskQueue Tbl} (pc : w.pc = .taking)
    (pop : w.queue.pop = .ok (some task, queue)) :
    Step .take { w with pc := .beginTarget task, queue }
  | noTask {queue : TaskQueue Tbl} (pc : w.pc = .taking)
    (pop : w.queue.pop = .ok (none, queue)) :
    Step .take { w with pc := .finished true, target := .idle, queue }
  | begun {task : ℕ} {answer : Answer} {target : TargetTx ℕ Row} (pc : w.pc = .beginTarget task)
    (begun : startCopyTargetTx w.target answer = some target) :
    Step (.beginTarget answer) { w with pc := .querying task, target }
  | gaveUp {task : ℕ} {e : MysqlEvent} (taken : w.pc.task = some task)
    (early : w.pc ≠ .finishTarget task) : Step e (w.giveUp task)
  | queried {task source : ℕ} (pc : w.pc = .querying task) :
    Step (.query source true) { w with pc := .describing task source }
  | described {task source : ℕ} (pc : w.pc = .describing task source) :
    Step (.describe true) { w with pc := .copyFrom task source }
  | opened {task source : ℕ} (pc : w.pc = .copyFrom task source) :
    Step (.copyFrom true) { w with pc := .fetching task source [] [] (env.rows task source) }
  | fetched {task source : ℕ} {sent buffered sent' buffered' left : List Row} {row : Row}
    {put abort : Bool} (pc : w.pc = .fetching task source sent buffered (row :: left))
    (kept : sent' ++ buffered' = sent ++ buffered ++ [row]) :
    Step (.row put abort) { w with pc := .fetching task source sent' buffered' left }
  | noRow {task source : ℕ} {sent buffered left : List Row} {error : Bool}
    (pc : w.pc = .fetching task source sent buffered left) (ended : error = true ∨ left = []) :
    Step (.noRow error) { w with pc := .flushing task source sent buffered }
  | flushed {task source : ℕ} {sent buffered : List Row} {ok : Bool}
    (pc : w.pc = .flushing task source sent buffered) :
    Step (.flush ok) { w with pc := .putEnd task source (sent ++ buffered) }
  | endSent {task source : ℕ} {sent : List Row} (pc : w.pc = .putEnd task source sent) :
    Step (.putEnd true) { w with pc := .getResult task source sent }
  | result {task source : ℕ} {sent rows : List Row} {rejected : List ℕ} {target : TargetTx ℕ Row}
    {committed : List (TableCopy ℕ Row)} (pc : w.pc = .getResult task source sent)
    (accepts : env.accepts sent rejected = some rows)
    (put : w.target.put ⟨task, source, rows⟩ = some (target, committed)) :
    Step (.getResult (.done rejected))
      { w with pc := .finishTarget task, target, committed := w.committed ++ committed }
  | unheard {task source : ℕ} {sent : List Row} {target : TargetTx ℕ Row}
    {committed : List (TableCopy ℕ Row)} (pc : w.pc = .getResult task source sent)
    (put : w.target.put ⟨task, source, sent⟩ = some (target, committed)) :
    Step (.getResult .unheard) { w.giveUp task with committed := w.committed ++ committed }
  | targetFinished {task : ℕ} {answer : Answer} {target : TargetTx ℕ Row}
    {committed : List (TableCopy ℕ Row)} (pc : w.pc = .finishTarget task)
    (finish : finishCopyTargetTx w.target answer = some (target, committed)) :
    Step (.finishTarget answer) { w with
      pc := .taking, target, committed := w.committed ++ committed
      complete := w.complete ++ [task] }

variable {env w} {w' : MysqlWorker Tbl Row}

/-- A buffer without text has no rows in it. -/
theorem eq_nil_of_bufferLen {buffered : List Row} (h : ¬ 0 < env.bufferLen buffered) :
    buffered = [] := by
  cases buffered with
  | nil => rfl
  | cons row buffered =>
    simp only [MysqlEnv.bufferLen, List.map_cons, List.sum_cons] at h
    omega

theorem Step.stops {e : MysqlEvent} {pc : MysqlPc Row} {task : ℕ} (hpc : w.pc = pc)
    (taken : pc.task = some task) (early : pc ≠ .finishTarget task) :
    Step env w e (w.giveUp task) := by
  subst hpc
  exact .gaveUp taken early

theorem step_cases {e : MysqlEvent} (h : w.step env e = some w') : Step env w e w' := by
  by_cases ho : e = .otherTakes
  · subst ho
    simp only [step] at h
    split at h
    · cases h
      exact .otherTakes ‹_›
    · cases h
  cases hpc : w.pc <;> cases e <;> simp only [step, hpc, reduceCtorEq] at h
  all_goals first | exact absurd rfl ho | skip
  case connecting.connect ok =>
    cases ok <;> cases h
    · exact .notConnected hpc
    · exact .connected hpc
  case taking.take =>
    split at h
    · cases h
      exact .took hpc ‹_›
    · cases h
      exact .noTask hpc ‹_›
    · cases h
  case beginTarget.beginTarget task answer =>
    obtain ⟨target, hbegin, rfl⟩ := Option.map_eq_some_iff.1 h
    exact .begun hpc hbegin
  case querying.query task source ok =>
    cases ok <;> cases h
    · exact .stops hpc rfl nofun
    · exact .queried hpc
  case describing.describe task source ok =>
    cases ok <;> cases h
    · exact .stops hpc rfl nofun
    · exact .described hpc
  case copyFrom.copyFrom task source ok =>
    cases ok
    · cases h
      exact .stops hpc rfl nofun
    · cases ht : w.target <;> simp only [ht, if_true, reduceCtorEq] at h
      all_goals rw [← ht] at h; cases h; exact .opened hpc
  case fetching.row task source sent buffered left put abort =>
    cases left with
    | nil => cases h
    | cons row left =>
      dsimp only at h
      split_ifs at h with hfull hstop habort
      · cases h
        exact .stops hpc rfl nofun
      · cases h
        exact .fetched hpc (by rw [List.append_nil, List.append_assoc])
      · cases h
        exact .stops hpc rfl nofun
      · cases h
        exact .fetched hpc (by rw [List.append_assoc])
  case fetching.noRow task source sent buffered left error =>
    split_ifs at h with hend
    cases h
    exact .noRow hpc (hend.imp_right List.isEmpty_iff.1)
  case flushing.flush task source sent buffered ok =>
    split_ifs at h with hlen hok
    · cases h
      exact .flushed hpc
    · cases h
      exact .stops hpc rfl nofun
    · cases h
      have := eq_nil_of_bufferLen hlen
      subst this
      have hflushed : Step env w (.flush ok) { w with pc := .putEnd task source (sent ++ []) } :=
        .flushed hpc
      rwa [List.append_nil] at hflushed
  case putEnd.putEnd task source sent ok =>
    cases ok <;> cases h
    · exact .stops hpc rfl nofun
    · exact .endSent hpc
  case getResult.getResult task source sent result =>
    cases result with
    | done rejected =>
      obtain ⟨rows, hrows, h⟩ := Option.bind_eq_some_iff.1 h
      obtain ⟨⟨target, committed⟩, hput, rfl⟩ := Option.map_eq_some_iff.1 h
      exact .result hpc hrows hput
    | failed =>
      cases h
      exact .stops hpc rfl nofun
    | unheard =>
      obtain ⟨⟨target, committed⟩, hput, rfl⟩ := Option.map_eq_some_iff.1 h
      exact .unheard hpc hput
  case finishTarget.finishTarget task answer =>
    obtain ⟨⟨target, committed⟩, hfinish, rfl⟩ := Option.map_eq_some_iff.1 h
    exact .targetFinished hpc hfinish

end MysqlWorker

/-! ## The property -/

/-- The copies of a task that are committed. -/
def MysqlWorker.copies (w : MysqlWorker Tbl Row) (task : ℕ) : List (TableCopy ℕ Row) :=
  w.committed.filter fun copy => copy.table = task

/-- **A complete task is committed as a whole**, once, with the rows of its result set; of a task
on which the worker stopped nothing is committed. -/
structure TaskTruthful (rows : ℕ → ℕ → List Row) (w : MysqlWorker Tbl Row) : Prop where
  complete : ∀ task ∈ w.complete, ∃ source, w.copies task = [⟨task, source, rows task source⟩]
  stopped : ∀ task, w.stopped = some task → w.copies task = []

/-- The rows that are still to be fetched. -/
def MysqlPc.left : MysqlPc Row → List Row
  | .fetching _ _ _ _ left => left
  | _ => []

/-- No fetch fails while rows are left; the target rejects no row; it is told of a COPY that it
completed outside a transaction; and the COMMIT of a transaction with a copy in it does not
fail. -/
def NoHiddenLoss (w : MysqlWorker Tbl Row) : MysqlEvent → Prop
  | .noRow error => error = true → w.pc.left.isEmpty = true
  | .getResult (.done rejected) => rejected = []
  | .getResult .unheard => w.target.isActive = true
  | .finishTarget answer => w.target.isActive = true → answer = .ok
  | _ => True

instance (w : MysqlWorker Tbl Row) : ∀ e, Decidable (NoHiddenLoss w e)
  | .noRow _ | .finishTarget _ => inferInstanceAs (Decidable (_ → _))
  | .getResult (.done _) | .getResult .unheard => inferInstanceAs (Decidable (_ = _))
  | .getResult .failed | .otherTakes | .connect _ | .take | .beginTarget _ | .query _ _
  | .describe _ | .copyFrom _ | .row _ _ | .flush _ | .putEnd _ => inferInstanceAs (Decidable True)

/-! ## The invariant -/

/-- No copy is in the transaction. -/
def TargetTx.IsEmpty (tx : TargetTx ℕ Row) : Prop := ∀ copies, tx = .active copies → copies = []

/-- What the worker has done of its task. -/
def MysqlWorker.Valid (rows : ℕ → ℕ → List Row) (w : MysqlWorker Tbl Row) : Prop :=
  match w.pc with
  | .connecting | .taking | .beginTarget _ => w.target.isActive = false
  | .querying _ | .describing _ _ | .copyFrom _ _ => w.target.IsEmpty
  | .fetching t p sent buffered left => w.target.IsEmpty ∧ sent ++ buffered ++ left = rows t p
  | .flushing t p sent buffered => w.target.IsEmpty ∧ sent ++ buffered = rows t p
  | .putEnd t p sent | .getResult t p sent => w.target.IsEmpty ∧ sent = rows t p
  | .finishTarget t => ∃ p, w.target = .active [⟨t, p, rows t p⟩] ∧ w.copies t = [] ∨
      w.target.isActive = false ∧ w.copies t = [⟨t, p, rows t p⟩]
  | .finished _ => True

/-- The worker has not touched the task. -/
structure MysqlWorker.Untouched (w : MysqlWorker Tbl Row) (task : ℕ) : Prop where
  copies : w.copies task = []
  complete : task ∉ w.complete
  taken : w.pc.task ≠ some task
  stopped : w.stopped ≠ some task

structure MysqlInv (rows : ℕ → ℕ → List Row) (w : MysqlWorker Tbl Row) : Prop where
  valid : w.Valid rows
  truthful : TaskTruthful rows w
  /-- The task in work. -/
  taken : ∀ task, w.pc.task = some task →
    task ∉ w.complete ∧ (w.pc ≠ .finishTarget task → w.copies task = [])
  running : w.stopped ≠ none → w.pc = .finished false
  /-- The tasks of the list. -/
  left : ∃ rest, w.queue.Remaining rest ∧ rest.Nodup ∧ ∀ task ∈ rest, w.Untouched task

section
variable {env : MysqlEnv Row} {w w' : MysqlWorker Tbl Row}

theorem isEmpty_of_begun {tx tx' : TargetTx ℕ Row} {answer : Answer}
    (h : startCopyTargetTx tx answer = some tx') : tx'.IsEmpty := by
  rintro copies rfl
  unfold startCopyTargetTx at h
  split at h <;> cases h
  rfl

theorem not_active_of_finished {tx tx' : TargetTx ℕ Row} {answer : Answer}
    {committed : List (TableCopy ℕ Row)} (h : finishCopyTargetTx tx answer = some (tx', committed)) :
    tx'.isActive = false := by
  unfold finishCopyTargetTx at h
  split at h <;> cases h <;> rfl

/-- A completed COPY is the only one of its transaction, or is committed at once. -/
theorem put_of_isEmpty {tx tx' : TargetTx ℕ Row} {copy : TableCopy ℕ Row}
    {committed : List (TableCopy ℕ Row)} (he : tx.IsEmpty) (h : tx.put copy = some (tx', committed)) :
    tx' = .active [copy] ∧ committed = [] ∧ tx.isActive = true ∨
      tx'.isActive = false ∧ committed = [copy] ∧ tx.isActive = false := by
  cases tx with
  | idle =>
    obtain ⟨rfl, rfl⟩ := Prod.mk.inj (Option.some.inj h)
    exact Or.inr ⟨rfl, rfl, rfl⟩
  | active copies =>
    obtain ⟨rfl, rfl⟩ := Prod.mk.inj (Option.some.inj h)
    obtain rfl := he copies rfl
    exact Or.inl ⟨rfl, rfl, rfl⟩
  | lost => cases h

/-- The copies of a task after more were committed. -/
theorem copies_append (w : MysqlWorker Tbl Row) {w' : MysqlWorker Tbl Row}
    {committed : List (TableCopy ℕ Row)} (h : w'.committed = w.committed ++ committed) (task : ℕ) :
    w'.copies task = w.copies task ++ committed.filter fun copy => copy.table = task := by
  rw [MysqlWorker.copies, h, List.filter_append]
  rfl

/-- A step within a task that commits nothing. -/
theorem MysqlInv.within (hI : MysqlInv env.rows w) {pc₀ pc : MysqlPc Row}
    {target : TargetTx ℕ Row} (hpc : w.pc = pc₀)
    (hvalid : ({ w with pc, target } : MysqlWorker Tbl Row).Valid env.rows)
    (htask : pc.task = pc₀.task) (hearly : ∀ task, pc₀ ≠ .finishTarget task)
    (hrunning : pc₀ ≠ .finished false) :
    MysqlInv env.rows { w with pc, target } := by
  subst hpc
  refine ⟨hvalid, ⟨hI.truthful.complete, hI.truthful.stopped⟩, ?_, ?_, ?_⟩
  · intro task ht
    obtain ⟨hcomplete, hcopies⟩ := hI.taken task (htask ▸ ht)
    exact ⟨hcomplete, fun _ => hcopies (hearly task)⟩
  · intro hne
    exact absurd (hI.running hne) hrunning
  · obtain ⟨rest, hrest, hnodup, huntouched⟩ := hI.left
    refine ⟨rest, hrest, hnodup, ?_⟩
    intro task ht
    have h := huntouched task ht
    exact ⟨h.copies, h.complete, by show pc.task ≠ some task; rw [htask]; exact h.taken, h.stopped⟩

/-- The copies of the other tasks. -/
theorem copies_of_ne {w' : MysqlWorker Tbl Row} {committed : List (TableCopy ℕ Row)} {task t : ℕ}
    (h : w'.committed = w.committed ++ committed) (hall : ∀ copy ∈ committed, copy.table = task)
    (hne : t ≠ task) : w'.copies t = w.copies t := by
  have hnil : (committed.filter fun copy => copy.table = t) = [] := by
    rw [List.filter_eq_nil_iff]
    intro copy hcopy hcopyt
    rw [decide_eq_true_eq] at hcopyt
    exact hne (hcopyt.symm.trans (hall copy hcopy))
  rw [copies_append w h, hnil, List.append_nil]

/-- A step that commits copies of the task in work, whatever it makes of the worker. -/
theorem MysqlInv.commit (hI : MysqlInv env.rows w) {committed : List (TableCopy ℕ Row)} {task : ℕ}
    (htask : w.pc.task = some task) (hall : ∀ copy ∈ committed, copy.table = task)
    (hcommitted : w'.committed = w.committed ++ committed) (hqueue : w'.queue = w.queue)
    (hvalid : w'.Valid env.rows)
    (hcomplete : w'.complete = w.complete ∧ (w'.pc.task = none ∨ w'.pc = .finishTarget task) ∨
      w'.complete = w.complete ++ [task] ∧ w'.pc.task = none ∧
        ∃ p, w'.copies task = [⟨task, p, env.rows task p⟩])
    (hstopped : w'.stopped = none ∨
      w'.stopped = some task ∧ w'.pc = .finished false ∧ w'.copies task = []) :
    MysqlInv env.rows w' := by
  have htaken := hI.taken task htask
  have hcomp : ∀ t ∈ w'.complete, t ∈ w.complete ∨ t = task := by
    intro t ht
    rcases hcomplete with ⟨hc, -⟩ | ⟨hc, -⟩
    · exact Or.inl (hc ▸ ht)
    · rw [hc, List.mem_append, List.mem_singleton] at ht
      exact ht
  have htask' : ∀ t, w'.pc.task = some t →
      t = task ∧ w'.pc = .finishTarget task ∧ w'.complete = w.complete := by
    intro t ht
    rcases hcomplete with ⟨hc, hnone | hpc⟩ | ⟨-, hnone, -⟩
    · rw [hnone] at ht
      cases ht
    · rw [hpc] at ht
      exact ⟨(Option.some.inj ht).symm, hpc, hc⟩
    · rw [hnone] at ht
      cases ht
  have hstop : ∀ t, w'.stopped = some t → t = task ∧ w'.copies task = [] := by
    intro t ht
    rcases hstopped with hnone | ⟨hsome, -, hcopies⟩
    · rw [hnone] at ht
      cases ht
    · exact ⟨Option.some.inj (ht.symm.trans hsome), hcopies⟩
  refine ⟨hvalid, ⟨?_, ?_⟩, ?_, ?_, ?_⟩
  · intro t ht
    by_cases hne : t = task
    · subst hne
      rcases hcomplete with ⟨hc, -⟩ | ⟨-, -, hcopies⟩
      · exact absurd (hc ▸ ht) htaken.1
      · exact hcopies
    · rw [copies_of_ne hcommitted hall hne]
      exact hI.truthful.complete t ((hcomp t ht).resolve_right hne)
  · intro t ht
    obtain ⟨rfl, hcopies⟩ := hstop t ht
    exact hcopies
  · intro t ht
    obtain ⟨rfl, hpc, hc⟩ := htask' t ht
    exact ⟨hc ▸ htaken.1, fun hne => absurd hpc hne⟩
  · intro hne
    rcases hstopped with hnone | ⟨-, hpc, -⟩
    · exact absurd hnone hne
    · exact hpc
  · obtain ⟨rest, hrest, hnodup, huntouched⟩ := hI.left
    refine ⟨rest, hqueue ▸ hrest, hnodup, ?_⟩
    intro t ht
    have h := huntouched t ht
    have hne : t ≠ task := by
      rintro rfl
      exact h.taken htask
    refine ⟨(copies_of_ne hcommitted hall hne).trans h.copies, ?_, ?_, ?_⟩
    · intro hmem
      exact (hcomp t hmem).elim h.complete hne
    · intro hs
      exact hne (htask' t hs).1
    · intro hs
      exact hne (hstop t hs).1

theorem stopped_eq_none (hI : MysqlInv env.rows w) (hpc : w.pc ≠ .finished false) :
    w.stopped = none := by
  by_contra hne
  exact hpc (hI.running hne)

/-- The worker stops on its task. -/
theorem MysqlInv.giveUp (hI : MysqlInv env.rows w) {task : ℕ} (htask : w.pc.task = some task)
    (hearly : w.pc ≠ .finishTarget task) : MysqlInv env.rows (w.giveUp task) := by
  have hcopies := (hI.taken task htask).2 hearly
  refine hI.commit htask (List.forall_mem_nil _) (List.append_nil _).symm rfl trivial
    (Or.inl ⟨rfl, Or.inl rfl⟩) (Or.inr ⟨rfl, rfl, hcopies⟩)

/-- A worker takes a task. -/
theorem MysqlInv.took (hI : MysqlInv env.rows w) {task : ℕ} {queue : TaskQueue Tbl}
    (hpc : w.pc = .taking) (hpop : w.queue.pop = .ok (some task, queue)) :
    MysqlInv env.rows { w with pc := .beginTarget task, queue } := by
  obtain ⟨rest, hrest, hnodup, huntouched⟩ := hI.left
  obtain ⟨queue', hpop', hrest', -⟩ := hrest.pop
  obtain ⟨hhead, rfl⟩ := Prod.mk.inj (Except.ok.inj (hpop.symm.trans hpop'))
  cases rest with
  | nil => cases hhead
  | cons t rest =>
    obtain rfl := Option.some.inj hhead
    have ht := huntouched task (List.mem_cons_self ..)
    obtain ⟨hnot, hnodup⟩ := List.nodup_cons.1 hnodup
    have hv := hI.valid
    simp only [MysqlWorker.Valid, hpc] at hv
    refine ⟨hv, ⟨hI.truthful.complete, hI.truthful.stopped⟩, ?_, ?_, rest, hrest', hnodup, ?_⟩
    · intro t htask
      obtain rfl := Option.some.inj htask
      exact ⟨ht.complete, fun _ => ht.copies⟩
    · intro hne
      exact absurd (stopped_eq_none hI (by rw [hpc]; nofun)) hne
    · intro t hmem
      have h := huntouched t (List.mem_cons_of_mem _ hmem)
      refine ⟨h.copies, h.complete, ?_, h.stopped⟩
      intro htask
      exact hnot (Option.some.inj htask ▸ hmem)

/-- The list changes only by what is taken from it. -/
theorem MysqlInv.popped (hI : MysqlInv env.rows w) {curr : Option ℕ} {queue : TaskQueue Tbl}
    (hpop : w.queue.pop = .ok (curr, queue)) : MysqlInv env.rows { w with queue } := by
  obtain ⟨rest, hrest, hnodup, huntouched⟩ := hI.left
  obtain ⟨queue', hpop', hrest', -⟩ := hrest.pop
  obtain ⟨-, rfl⟩ := Prod.mk.inj (Except.ok.inj (hpop.symm.trans hpop'))
  refine ⟨hI.valid, ⟨hI.truthful.complete, hI.truthful.stopped⟩, hI.taken, hI.running,
    rest.tail, hrest', hnodup.tail, ?_⟩
  intro task ht
  have h := huntouched task (List.mem_of_mem_tail ht)
  exact ⟨h.copies, h.complete, h.taken, h.stopped⟩

/-- The target completed the COPY of all rows. -/
theorem MysqlInv.result (hI : MysqlInv env.rows w) {task source : ℕ} {sent : List Row}
    {target : TargetTx ℕ Row} {committed : List (TableCopy ℕ Row)}
    (hpc : w.pc = .getResult task source sent)
    (hput : w.target.put ⟨task, source, sent⟩ = some (target, committed)) :
    MysqlInv env.rows
      { w with pc := .finishTarget task, target, committed := w.committed ++ committed } := by
  have hv := hI.valid
  simp only [MysqlWorker.Valid, hpc] at hv
  obtain ⟨hempty, rfl⟩ := hv
  have htask : w.pc.task = some task := by rw [hpc]; rfl
  have hcopies := (hI.taken task htask).2 (by rw [hpc]; nofun)
  have hstopped := stopped_eq_none hI (by rw [hpc]; nofun)
  rcases put_of_isEmpty hempty hput with ⟨rfl, rfl, -⟩ | ⟨hidle, rfl, -⟩
  · refine hI.commit htask (List.forall_mem_nil _) rfl rfl ⟨source, Or.inl ⟨rfl, ?_⟩⟩
      (Or.inl ⟨rfl, Or.inr rfl⟩) (Or.inl hstopped)
    rw [copies_append w rfl, hcopies]
    rfl
  · refine hI.commit htask ?_ rfl rfl ⟨source, Or.inr ⟨hidle, ?_⟩⟩ (Or.inl ⟨rfl, Or.inr rfl⟩)
      (Or.inl hstopped)
    · intro copy hcopy
      rw [List.mem_singleton.1 hcopy]
    · rw [copies_append w rfl, hcopies]
      simp

/-- The transaction of the copy is committed, or there was none. -/
theorem MysqlInv.finished (hI : MysqlInv env.rows w) {task : ℕ} {answer : Answer}
    {target : TargetTx ℕ Row} {committed : List (TableCopy ℕ Row)}
    (hpc : w.pc = .finishTarget task) (hok : w.target.isActive = true → answer = .ok)
    (hfinish : finishCopyTargetTx w.target answer = some (target, committed)) :
    MysqlInv env.rows { w with
      pc := .taking, target, committed := w.committed ++ committed
      complete := w.complete ++ [task] } := by
  have hv := hI.valid
  simp only [MysqlWorker.Valid, hpc] at hv
  have htask : w.pc.task = some task := by rw [hpc]; rfl
  have hstopped := stopped_eq_none hI (by rw [hpc]; nofun)
  obtain ⟨p, ⟨htx, hcopies⟩ | ⟨hidle, hcopies⟩⟩ := hv
  · -- the COMMIT succeeded
    obtain rfl := hok (by rw [htx]; rfl)
    have hdone := hfinish
    rw [htx] at hdone
    obtain ⟨-, rfl⟩ := Prod.mk.inj (Option.some.inj hdone)
    refine hI.commit htask ?_ rfl rfl (not_active_of_finished hfinish)
      (Or.inr ⟨rfl, rfl, p, ?_⟩) (Or.inl hstopped)
    · intro copy hcopy
      rw [List.mem_singleton.1 hcopy]
    · rw [copies_append w rfl, hcopies]
      simp
  · -- the COPY committed by itself
    have hnil : committed = [] := by
      unfold finishCopyTargetTx at hfinish
      cases htx : w.target <;> rw [htx] at hfinish hidle
      case active => cases hidle
      all_goals cases answer <;> cases hfinish <;> rfl
    subst hnil
    refine hI.commit htask (List.forall_mem_nil _) rfl rfl (not_active_of_finished hfinish)
      (Or.inr ⟨rfl, rfl, p, ?_⟩) (Or.inl hstopped)
    rw [copies_append w rfl, hcopies]
    rfl

/-- **One step keeps the invariant.** -/
theorem mysqlInv_step {e : MysqlEvent} (hI : MysqlInv env.rows w) (hok : NoHiddenLoss w e)
    (h : w.step env e = some w') : MysqlInv env.rows w' := by
  have hv := hI.valid
  cases MysqlWorker.step_cases h with
  | otherTakes pop => exact hI.popped pop
  | connected pc =>
    simp only [MysqlWorker.Valid, pc] at hv
    exact hI.within pc hv rfl nofun nofun
  | notConnected pc => exact hI.within pc trivial rfl nofun nofun
  | took pc pop => exact hI.took pc pop
  | noTask pc pop =>
    exact (hI.popped pop).within pc trivial rfl nofun nofun
  | begun pc begun =>
    exact hI.within pc (isEmpty_of_begun begun) rfl nofun nofun
  | gaveUp taken early => exact hI.giveUp taken early
  | queried pc | described pc =>
    simp only [MysqlWorker.Valid, pc] at hv
    exact hI.within pc hv rfl nofun nofun
  | opened pc =>
    simp only [MysqlWorker.Valid, pc] at hv
    exact hI.within pc ⟨hv, rfl⟩ rfl nofun nofun
  | fetched pc kept =>
    simp only [MysqlWorker.Valid, pc] at hv
    refine hI.within pc ⟨hv.1, ?_⟩ rfl nofun nofun
    rw [kept, ← hv.2, List.append_assoc]
    rfl
  | @noRow task source sent buffered left error pc ended =>
    simp only [MysqlWorker.Valid, pc] at hv
    refine hI.within pc ⟨hv.1, ?_⟩ rfl nofun nofun
    -- an error is met only behind the last row
    have hleft : left = [] := by
      rcases ended with herror | hnil
      · have hempty := hok herror
        rw [pc] at hempty
        exact List.isEmpty_iff.1 hempty
      · exact hnil
    rw [← hv.2, hleft, List.append_nil]
  | flushed pc =>
    simp only [MysqlWorker.Valid, pc] at hv
    exact hI.within pc hv rfl nofun nofun
  | endSent pc =>
    simp only [MysqlWorker.Valid, pc] at hv
    exact hI.within pc hv rfl nofun nofun
  | result pc accepts put =>
    obtain rfl : _ = [] := hok
    obtain rfl := Option.some.inj accepts
    exact hI.result pc put
  | @unheard task source sent target committed pc put =>
    -- the transaction is rolled back
    simp only [MysqlWorker.Valid, pc] at hv
    rcases put_of_isEmpty hv.1 put with ⟨-, rfl, -⟩ | ⟨-, -, hidle⟩
    · rw [List.append_nil]
      exact hI.giveUp (by rw [pc]; rfl) (by rw [pc]; nofun)
    · rw [show w.target.isActive = true from hok] at hidle
      cases hidle
  | targetFinished pc finish => exact hI.finished pc hok finish

theorem mysqlInv_init (rows : ℕ → ℕ → List Row) (tables : List Tbl) :
    MysqlInv rows (.init tables) where
  valid := rfl
  truthful := ⟨nofun, nofun⟩
  taken := nofun
  running hne := absurd rfl hne
  left := ⟨_, TaskQueue.remaining_init .mysql2pgsql tables, List.nodup_range, fun _ _ =>
    ⟨rfl, nofun, nofun, nofun⟩⟩

/-- **A complete task is committed as a whole, and one that was given up not at all**, in every run
without a hidden loss. -/
theorem taskTruthful_of_run (tables : List Tbl) {es : List MysqlEvent}
    (hm : StepMachine.Meets (MysqlWorker.step env) NoHiddenLoss (.init tables) es)
    (hr : StepMachine.run (MysqlWorker.step env) (.init tables) es = some w) :
    TaskTruthful env.rows w :=
  (StepMachine.run_invariant (fun _ _ _ hI hok h => mysqlInv_step hI hok h)
    (mysqlInv_init env.rows tables) hm hr).truthful

end

/-! ## A table of three rows -/

/-- Each query returns the rows 0, 1 and 2; two rows fill the buffer. -/
def threeRowsMysql : MysqlEnv ℕ where
  rows _ _ := [0, 1, 2]
  fieldsLen _ := 1
  bufferSize := 4
  isGreenplum := false
  ignoreErrorCount := 0

/-- The worker takes the only task, fetches as many rows as it gets, and commits them. -/
def copyTask (answers : List MysqlEvent) : List MysqlEvent :=
  [.connect true, .take, .beginTarget .ok, .query 0 true, .describe true, .copyFrom true] ++
    answers ++ [.flush true, .putEnd true, .getResult (.done []), .finishTarget .ok, .take]

theorem taskTruthful_threeRows :
    ∃ w, StepMachine.run (MysqlWorker.step threeRowsMysql) (.init ["t"])
        (copyTask [.row true false, .row true false, .row true false, .noRow false]) = some w ∧
      (w.pc = .finished true ∧ w.complete = [0]) ∧ TaskTruthful threeRowsMysql.rows w := by
  have hr : (StepMachine.run (MysqlWorker.step threeRowsMysql) (.init ["t"])
      (copyTask [.row true false, .row true false, .row true false, .noRow false])).map
        (fun w => (w.pc, w.complete)) = some (.finished true, [0]) := by decide
  obtain ⟨w, hw, h⟩ := Option.map_eq_some_iff.1 hr
  exact ⟨w, hw, Prod.mk.inj h, taskTruthful_of_run ["t"] (by decide) hw⟩

/-- The second fetch fails. -/
theorem truncated_threeRowsMysql :
    ∃ w, StepMachine.run (MysqlWorker.step threeRowsMysql) (.init ["t"])
        (copyTask [.row true false, .noRow true]) = some w ∧
      (w.pc = .finished true ∧ w.complete = [0] ∧ w.committed = [⟨0, 0, [0]⟩]) ∧
      ¬ TaskTruthful threeRowsMysql.rows w := by
  have hr : (StepMachine.run (MysqlWorker.step threeRowsMysql) (.init ["t"])
      (copyTask [.row true false, .noRow true])).map
        (fun w => (w.pc, w.complete, w.committed)) =
      some (.finished true, [0], [⟨0, 0, [0]⟩]) := by decide
  obtain ⟨w, hw, h⟩ := Option.map_eq_some_iff.1 hr
  simp only [Prod.mk.injEq] at h
  refine ⟨w, hw, h, ?_⟩
  intro htrue
  obtain ⟨source, hcopies⟩ := htrue.complete 0 (by rw [h.2.1]; exact List.mem_singleton_self _)
  rw [MysqlWorker.copies, h.2.2] at hcopies
  cases hcopies

end RdsDbsync
