/-
  The apply thread: it reads the committed rows of `sync_sqls` after `apply_id` through a
  cursor, executes each on the target, and saves `apply_id` after every fifth
  transaction and at the end of the cursor.
-/
import RdsDbsync.Lib.KeyedTable
import RdsDbsync.Lib.OrderedLog
import RdsDbsync.Lib.Session
import RdsDbsync.Lib.StepMachine

namespace RdsDbsync

universe u v w
variable {K : Type u} {C : Type v} {V : Type w}

/-! ## The log -/

/-- The text of a row: `begin;`, `commit;`, or a statement. -/
inductive LoggedSql (K : Type u) (C : Type v) (V : Type w) where
  | begin
  | commit
  | statement (s : KeyedStmt K C V)

/-- The statement of a row. -/
def LoggedSql.statement? : LoggedSql K C V → Option (KeyedStmt K C V)
  | .statement s => some s
  | _ => none

/-- A row of `sync_sqls`. -/
structure SyncSql (K : Type u) (C : Type v) (V : Type w) where
  id : ℕ
  sql : LoggedSql K C V

/-- The rows of statements. -/
def statementRows (statements : List (ℕ × KeyedStmt K C V)) : List (SyncSql K C V) :=
  statements.map fun s => ⟨s.1, .statement s.2⟩

/-- The rows of one transaction. -/
structure SqlGroup (K : Type u) (C : Type v) (V : Type w) where
  beginId : ℕ
  statements : List (ℕ × KeyedStmt K C V)
  commitId : ℕ

namespace SqlGroup

variable (g : SqlGroup K C V)

def rows : List (SyncSql K C V) :=
  ⟨g.beginId, .begin⟩ :: (statementRows g.statements ++ [⟨g.commitId, .commit⟩])

def stmts : List (KeyedStmt K C V) := g.statements.map Prod.snd

end SqlGroup

/-- The committed content of `sync_sqls` once the source is at rest: groups in id order. -/
structure SyncLog (K : Type u) (C : Type v) (V : Type w) where
  groups : List (SqlGroup K C V)
  ordered : (groups.flatMap SqlGroup.rows).Pairwise fun a b => a.id < b.id
  positive : ∀ r ∈ groups.flatMap SqlGroup.rows, 0 < r.id

namespace SyncLog

variable (log : SyncLog K C V)

/-- The rows when the first `visible` transactions are committed. -/
def rowsOf (visible : ℕ) : List (SyncSql K C V) := (log.groups.take visible).flatMap SqlGroup.rows

def rows : List (SyncSql K C V) := log.groups.flatMap SqlGroup.rows

def stmts : List (KeyedStmt K C V) := log.groups.flatMap SqlGroup.stmts

end SyncLog

/-- `PQexec` of a row on the target. -/
def LoggedSql.exec [DecidableEq K] (sql : LoggedSql K C V) (s : Session (KeyedTable K C V)) :
    Session (KeyedTable K C V) × Reply :=
  match sql with
  | .begin => s.start
  | .commit => s.commit
  | .statement st => s.exec (KeyedTable.exec · st)

/-! ## The thread -/

/-- `SQL_TYPE_*`. -/
inductive SqlType where
  | begin
  | commit
  | firstStatement
  | otherStatement
  deriving DecidableEq

/-- `sqltype` of the next row. -/
def LoggedSql.sqltype (previous : SqlType) : LoggedSql K C V → SqlType
  | .begin => .begin
  | .commit => .commit
  | .statement _ => if previous = .begin then .firstStatement else .otherStatement

/-- Where the process is. -/
inductive ApplyPc where
  /-- There is none. -/
  | down
  /-- At the head of the outer loop. -/
  | opening
  /-- At the head of the inner loop. -/
  | fetching
  /-- In `update_task_status` after the fifth transaction. -/
  | savingFifth
  /-- In `update_task_status` at the end of the cursor. -/
  | savingRest
  /-- The thread gave up. -/
  | exited
  deriving DecidableEq

/-- The target, the saved `apply_id`, and the thread. -/
structure Applier (K : Type u) (C : Type v) (V : Type w) where
  pc : ApplyPc := .down
  target : Session (KeyedTable K C V)
  /-- `apply_id` of `db_sync_status`. -/
  saved : Option ℕ := none
  applyId : ℕ := 0
  cursor : List (SyncSql K C V) := []
  nCommit : ℕ := 0
  sqltype : SqlType := .begin
  /-- The last `commit;` row ever executed; no step reads it. -/
  reached : ℕ := 0

/-- What happens next. -/
inductive ApplyEvent where
  /-- The process starts the thread. -/
  | start
  /-- The cursor is declared when `visible` transactions are committed to the log. -/
  | declareCursor (visible : ℕ)
  | fetch
  /-- `update_task_status`; its failure is ignored. -/
  | save (ok : Bool)
  /-- The process is killed, or the thread sees `time_to_abort`. -/
  | kill
  deriving DecidableEq

namespace Applier

variable (s : Applier K C V)

def init (t : KeyedTable K C V) : Applier K C V := { target := ⟨t, .idle⟩ }

/-- `goto exit`. -/
def exit : Applier K C V := { s with pc := .exited, target := s.target.close }

/-- The end of the inner loop's body. -/
def executed (id : ℕ) : Applier K C V :=
  if s.sqltype = .commit then
    let s := { s with nCommit := s.nCommit + 1, applyId := id, reached := max s.reached id }
    if s.nCommit = 5 then { s with nCommit := 0, pc := .savingFifth } else s
  else s

/-- The first statement failed on a duplicate key: it is skipped in a new transaction. -/
def skip : Applier K C V :=
  match s.target.commit with
  | (target, .commandOk) =>
    match target.start with
    | (target, .commandOk) => { s with target, sqltype := .begin }
    | (target, _) => exit { s with target }
  | (target, _) => exit { s with target }

section
variable [DecidableEq K]

/-- The inner loop's body on the row that `FETCH` returned. -/
def applyRow (row : SyncSql K C V) (rest : List (SyncSql K C V)) : Applier K C V :=
  let s := { s with cursor := rest, sqltype := row.sql.sqltype s.sqltype }
  match row.sql.exec s.target with
  | (target, .commandOk) => executed { s with target } row.id
  | (target, .duplicateKey) =>
    if s.sqltype = .firstStatement then executed (skip { s with target }) row.id
    else exit { s with target }
  | (target, .inFailedTransaction) => exit { s with target }

/-- One step of the thread or of the world around it. -/
def step (log : SyncLog K C V) (s : Applier K C V) : ApplyEvent → Option (Applier K C V)
  | .start =>
    if s.pc = .down ∨ s.pc = .exited then
      some { s with pc := .opening, applyId := s.saved.getD 0, cursor := [] }
    else none
  | .declareCursor visible =>
    if s.pc = .opening then
      some { s with
        pc := .fetching
        cursor := OrderedLog.after SyncSql.id s.applyId (log.rowsOf visible)
        nCommit := 0
        sqltype := .begin }
    else none
  | .fetch =>
    if s.pc = .fetching then
      match s.cursor with
      | [] =>
        if s.nCommit ≠ 0 then some { s with nCommit := 0, pc := .savingRest }
        else some { s with pc := .opening }
      | row :: rest => some (s.applyRow row rest)
    else none
  | .save ok =>
    let saved := if ok then some s.applyId else s.saved
    match s.pc with
    | .savingFifth => some { s with saved, pc := .fetching }
    | .savingRest => some { s with saved, pc := .opening }
    | _ => none
  | .kill =>
    if s.pc = .down ∨ s.pc = .exited then none
    else some { s with pc := .down, target := s.target.close }

/-! ## What a step does -/

/-- The steps, with what they need. -/
inductive Step (log : SyncLog K C V) (s : Applier K C V) : ApplyEvent → Applier K C V → Prop
  | start (pc : s.pc = .down ∨ s.pc = .exited) :
    Step log s .start { s with pc := .opening, applyId := s.saved.getD 0, cursor := [] }
  | declareCursor (visible : ℕ) (pc : s.pc = .opening) :
    Step log s (.declareCursor visible) { s with
      pc := .fetching, cursor := OrderedLog.after SyncSql.id s.applyId (log.rowsOf visible)
      nCommit := 0, sqltype := .begin }
  | row {row : SyncSql K C V} {rest : List (SyncSql K C V)} (pc : s.pc = .fetching)
    (cursor : s.cursor = row :: rest) : Step log s .fetch (s.applyRow row rest)
  | noRow {next : ApplyPc} (pc : s.pc = .fetching) (cursor : s.cursor = [])
    (hnext : next = .opening ∨ next = .savingRest) :
    Step log s .fetch { s with nCommit := 0, cursor := [], pc := next }
  | save (ok : Bool) {next : ApplyPc}
    (pc : s.pc = .savingFifth ∧ next = .fetching ∨ s.pc = .savingRest ∧ next = .opening) :
    Step log s (.save ok) { s with saved := if ok then some s.applyId else s.saved, pc := next }
  | kill (pc : s.pc ≠ .down ∧ s.pc ≠ .exited) :
    Step log s .kill { s with pc := .down, target := s.target.close }

theorem step_cases {log : SyncLog K C V} {s s' : Applier K C V} {e : ApplyEvent}
    (h : s.step log e = some s') : Step log s e s' := by
  cases e with
  | start =>
    obtain ⟨hpc, rfl⟩ : (s.pc = .down ∨ s.pc = .exited) ∧ _ = s' := by
      simpa only [step, Option.ite_none_right_eq_some, Option.some.injEq] using h
    exact .start hpc
  | declareCursor visible =>
    obtain ⟨hpc, rfl⟩ : s.pc = .opening ∧ _ = s' := by
      simpa only [step, Option.ite_none_right_eq_some, Option.some.injEq] using h
    exact .declareCursor visible hpc
  | fetch =>
    obtain ⟨hpc, h⟩ : s.pc = .fetching ∧ _ = some s' := by
      simpa only [step, Option.ite_none_right_eq_some] using h
    cases hc : s.cursor with
    | nil =>
      simp only [hc] at h
      by_cases hn : s.nCommit = 0
      · obtain rfl := Option.some.inj (h.symm.trans (if_neg (not_not.2 hn)))
        have hstep : Step log s .fetch { s with nCommit := 0, cursor := [], pc := .opening } :=
          .noRow hpc hc (Or.inl rfl)
        rwa [← hn] at hstep
      · obtain rfl := Option.some.inj (h.symm.trans (if_pos hn))
        exact .noRow hpc hc (Or.inr rfl)
    | cons row rest =>
      simp only [hc, Option.some.injEq] at h
      exact h ▸ .row hpc hc
  | save ok =>
    cases hpc : s.pc <;> simp only [step, hpc, reduceCtorEq, Option.some.injEq] at h
    · exact h ▸ .save ok (Or.inl ⟨hpc, rfl⟩)
    · exact h ▸ .save ok (Or.inr ⟨hpc, rfl⟩)
  | kill =>
    obtain ⟨hpc, rfl⟩ : ¬(s.pc = .down ∨ s.pc = .exited) ∧ _ = s' := by
      simpa only [step, Option.ite_none_left_eq_some, Option.some.injEq] using h
    exact .kill (not_or.1 hpc)

/-! ## What a row does -/

variable {s} {work work' : KeyedTable K C V} {st : KeyedStmt K C V}
  (id : ℕ) (rest : List (SyncSql K C V))

theorem applyRow_begin (h : s.target.transaction = .idle) :
    s.applyRow ⟨id, .begin⟩ rest = { s with
      cursor := rest, sqltype := .begin, target := ⟨s.target.saved, .active s.target.saved⟩ } := by
  simp [applyRow, LoggedSql.exec, Session.start_of_idle h, executed, LoggedSql.sqltype]

theorem applyRow_statement (h : s.target.transaction = .active work)
    (hw : work.exec st = some work') :
    ∃ sqltype, sqltype ≠ .begin ∧ s.applyRow ⟨id, .statement st⟩ rest = { s with
      cursor := rest, sqltype, target := ⟨s.target.saved, .active work'⟩ } := by
  have hexec : LoggedSql.exec (.statement st) s.target =
      (⟨s.target.saved, .active work'⟩, .commandOk) :=
    show s.target.exec (KeyedTable.exec · st) = _ from Session.exec_of_some h hw
  refine ⟨_, ?_, by
    simp only [applyRow, hexec, executed, LoggedSql.sqltype]
    exact if_neg (by split_ifs <;> nofun)⟩
  split_ifs <;> nofun

/-- A duplicate key at the first statement undoes the transaction. -/
theorem applyRow_skip (h : s.target.transaction = .active work) (hw : work.exec st = none)
    (hfirst : s.sqltype = .begin) :
    s.applyRow ⟨id, .statement st⟩ rest = { s with
      cursor := rest, sqltype := .begin, target := ⟨s.target.saved, .active s.target.saved⟩ } := by
  have hexec : LoggedSql.exec (.statement st) s.target =
      (⟨s.target.saved, .aborted⟩, .duplicateKey) :=
    show s.target.exec (KeyedTable.exec · st) = _ from Session.exec_of_none h hw
  simp [applyRow, hexec, executed, LoggedSql.sqltype, hfirst, skip,
    Session.commit_of_aborted, Session.start_of_idle]

theorem applyRow_commit (h : s.target.transaction = .active work) :
    ∃ pc nCommit, (pc = s.pc ∨ pc = .savingFifth) ∧ s.applyRow ⟨id, .commit⟩ rest = { s with
      pc, nCommit, cursor := rest, sqltype := .commit, target := ⟨work, .idle⟩, applyId := id
      reached := max s.reached id } := by
  have hexec : LoggedSql.exec .commit s.target = (⟨work, .idle⟩, .commandOk) :=
    Session.commit_of_active h
  by_cases h5 : s.nCommit + 1 = 5
  · exact ⟨.savingFifth, 0, Or.inr rfl, by
      simp [applyRow, hexec, executed, LoggedSql.sqltype, h5]⟩
  · exact ⟨s.pc, s.nCommit + 1, Or.inl rfl, by
      simp [applyRow, hexec, executed, LoggedSql.sqltype, show s.nCommit ≠ 4 by omega]⟩

end

end Applier

end RdsDbsync
