/-
  The apply thread against a target that may answer anything: `logical_decoding_apply_thread`
  over a log that grows while it runs.

  `Apply` runs the same loop over keyed tables, which decide the answers; here they are
  part of the event, and the target records what is committed.
-/
import RdsDbsync.Apply
import RdsDbsync.Lib.EffectSession

namespace RdsDbsync

universe u
variable {E : Type u}

/-! ## The log -/

/-- The text of a row of `sync_sqls`. -/
inductive QueuedSql (E : Type u) where
  | begin
  | commit
  | statement (e : E)
  deriving DecidableEq

/-- A row of `sync_sqls`. -/
structure QueuedRow (E : Type u) where
  id : ℕ
  sql : QueuedSql E
  deriving DecidableEq

/-- The rows of one transaction: `begin;`, the statements, `commit;`. -/
structure QueuedGroup (E : Type u) where
  beginId : ℕ
  statements : List (ℕ × E)
  commitId : ℕ
  deriving DecidableEq

namespace QueuedGroup

variable (g : QueuedGroup E)

/-- The rows after `begin;`, with only these statements. -/
def tailRows (statements : List (ℕ × E)) : List (QueuedRow E) :=
  statements.map (fun s => ⟨s.1, .statement s.2⟩) ++ [⟨g.commitId, .commit⟩]

def rows : List (QueuedRow E) := ⟨g.beginId, .begin⟩ :: g.tailRows g.statements

/-- What the statements do. -/
def effects : List E := g.statements.map Prod.snd

end QueuedGroup

/-- The rows of groups. -/
def queuedRows (groups : List (QueuedGroup E)) : List (QueuedRow E) :=
  groups.flatMap QueuedGroup.rows

/-- Rows in the order of their ids, which are positive. -/
def InIdOrder (rows : List (QueuedRow E)) : Prop :=
  (rows.Pairwise fun a b => a.id < b.id) ∧ ∀ r ∈ rows, 0 < r.id

instance (rows : List (QueuedRow E)) : Decidable (InIdOrder rows) :=
  inferInstanceAs (Decidable (_ ∧ _))

/-! ## The thread -/

/-- What the target answers while a row is applied. -/
structure RowAnswers where
  /-- The answer to the row. -/
  exec : Outcome
  /-- The row is a COMMIT that succeeded, whatever was answered. -/
  unheard : Bool := false
  /-- The answers to END and BEGIN, if the row is skipped. -/
  finish : Outcome := .ok
  start : Outcome := .ok
  deriving DecidableEq

/-- `PQexec` of a row on the target. -/
def QueuedRow.exec (row : QueuedRow E) (answers : RowAnswers) (target : EffectSession ℕ E) :
    EffectSession ℕ E × Outcome :=
  match row.sql with
  | .begin => target.start answers.exec
  | .commit => target.commit (some row.id) answers.exec answers.unheard
  | .statement e => target.exec e answers.exec

/-- `sqltype` of the next row. -/
def QueuedSql.sqltype (previous : SqlType) : QueuedSql E → SqlType
  | .begin => .begin
  | .commit => .commit
  | .statement _ => if previous = .begin then .firstStatement else .otherStatement

/-- The log, the target, the saved `apply_id`, and the thread. -/
structure ApplyLoop (E : Type u) where
  pc : ApplyPc := .down
  /-- What the receiver has committed to `sync_sqls`. -/
  log : List (QueuedGroup E) := []
  target : EffectSession ℕ E := {}
  /-- `apply_id` of `db_sync_status`. -/
  saved : Option ℕ := none
  applyId : ℕ := 0
  cursor : List (QueuedRow E) := []
  nCommit : ℕ := 0
  sqltype : SqlType := .begin

/-- What happens next. -/
inductive LoopEvent (E : Type u) where
  /-- The receiver commits a group. -/
  | receive (g : QueuedGroup E)
  | start
  | declareCursor
  | fetch (answers : RowAnswers)
  /-- `update_task_status`; its failure is ignored. -/
  | save (ok : Bool)
  /-- The process is killed, or the thread sees `time_to_abort`. -/
  | kill
  deriving DecidableEq

namespace ApplyLoop

variable (s : ApplyLoop E)

/-- `goto exit`. -/
def exit : ApplyLoop E := { s with pc := .exited, target := s.target.close }

/-- The end of the inner loop's body. -/
def executed (id : ℕ) : ApplyLoop E :=
  if s.sqltype = .commit then
    let s := { s with nCommit := s.nCommit + 1, applyId := id }
    if s.nCommit = 5 then { s with nCommit := 0, pc := .savingFifth } else s
  else s

/-- The first statement failed on a duplicate key: it is skipped in a new transaction. -/
def skip (answers : RowAnswers) : ApplyLoop E :=
  match s.target.commit none answers.finish false with
  | (target, .ok) =>
    match target.start answers.start with
    | (target, .ok) => { s with target, sqltype := .begin }
    | (target, _) => exit { s with target }
  | (target, _) => exit { s with target }

/-- The inner loop's body on the row that `FETCH` returned. -/
def applyRow (answers : RowAnswers) (row : QueuedRow E) (rest : List (QueuedRow E)) :
    ApplyLoop E :=
  let s := { s with cursor := rest, sqltype := row.sql.sqltype s.sqltype }
  match row.exec answers s.target with
  | (target, .ok) => executed { s with target } row.id
  | (target, .duplicateKey) =>
    if s.sqltype = .firstStatement then executed (skip { s with target } answers) row.id
    else exit { s with target }
  | (target, .otherError) => exit { s with target }

/-- One step of the thread or of the world around it. -/
def step (s : ApplyLoop E) : LoopEvent E → Option (ApplyLoop E)
  | .receive g =>
    if InIdOrder (queuedRows (s.log ++ [g])) then some { s with log := s.log ++ [g] } else none
  | .start =>
    if s.pc = .down ∨ s.pc = .exited then
      some { s with pc := .opening, applyId := s.saved.getD 0, cursor := [] }
    else none
  | .declareCursor =>
    if s.pc = .opening then
      some { s with
        pc := .fetching
        cursor := OrderedLog.after QueuedRow.id s.applyId (queuedRows s.log)
        nCommit := 0
        sqltype := .begin }
    else none
  | .fetch answers =>
    if s.pc = .fetching then
      match s.cursor with
      | [] =>
        if s.nCommit ≠ 0 then some { s with nCommit := 0, pc := .savingRest }
        else some { s with pc := .opening }
      | row :: rest => some (s.applyRow answers row rest)
    else none
  | .save ok =>
    let saved := if ok then some s.applyId else s.saved
    match s.pc with
    | .savingFifth => some { s with saved, pc := .fetching }
    | .savingRest => some { s with saved, pc := .opening }
    | _ => none
  | .kill =>
    if s.pc = .down ∨ s.pc = .exited then none
    else some { s with pc := .down, target := s.target.close }

/-! ## What a step does -/

/-- The steps, with what they need. -/
inductive Step (s : ApplyLoop E) : LoopEvent E → ApplyLoop E → Prop
  | receive {g : QueuedGroup E} (ordered : InIdOrder (queuedRows (s.log ++ [g]))) :
    Step s (.receive g) { s with log := s.log ++ [g] }
  | start (pc : s.pc = .down ∨ s.pc = .exited) :
    Step s .start { s with pc := .opening, applyId := s.saved.getD 0, cursor := [] }
  | declareCursor (pc : s.pc = .opening) : Step s .declareCursor { s with
      pc := .fetching, cursor := OrderedLog.after QueuedRow.id s.applyId (queuedRows s.log)
      nCommit := 0, sqltype := .begin }
  | row {answers : RowAnswers} {row : QueuedRow E} {rest : List (QueuedRow E)}
    (pc : s.pc = .fetching) (cursor : s.cursor = row :: rest) :
    Step s (.fetch answers) (s.applyRow answers row rest)
  | noRow {answers : RowAnswers} {next : ApplyPc} (pc : s.pc = .fetching) (cursor : s.cursor = [])
    (hnext : next = .opening ∨ next = .savingRest) :
    Step s (.fetch answers) { s with nCommit := 0, cursor := [], pc := next }
  | save (ok : Bool) {next : ApplyPc}
    (pc : s.pc = .savingFifth ∧ next = .fetching ∨ s.pc = .savingRest ∧ next = .opening) :
    Step s (.save ok) { s with saved := if ok then some s.applyId else s.saved, pc := next }
  | kill (pc : s.pc ≠ .down ∧ s.pc ≠ .exited) :
    Step s .kill { s with pc := .down, target := s.target.close }

theorem step_cases {s s' : ApplyLoop E} {e : LoopEvent E} (h : s.step e = some s') :
    Step s e s' := by
  cases e with
  | receive g =>
    obtain ⟨hordered, rfl⟩ : InIdOrder (queuedRows (s.log ++ [g])) ∧ _ = s' := by
      simpa only [step, Option.ite_none_right_eq_some, Option.some.injEq] using h
    exact .receive hordered
  | start =>
    obtain ⟨hpc, rfl⟩ : (s.pc = .down ∨ s.pc = .exited) ∧ _ = s' := by
      simpa only [step, Option.ite_none_right_eq_some, Option.some.injEq] using h
    exact .start hpc
  | declareCursor =>
    obtain ⟨hpc, rfl⟩ : s.pc = .opening ∧ _ = s' := by
      simpa only [step, Option.ite_none_right_eq_some, Option.some.injEq] using h
    exact .declareCursor hpc
  | fetch answers =>
    obtain ⟨hpc, h⟩ : s.pc = .fetching ∧ _ = some s' := by
      simpa only [step, Option.ite_none_right_eq_some] using h
    cases hc : s.cursor with
    | nil =>
      simp only [hc] at h
      by_cases hn : s.nCommit = 0
      · obtain rfl := Option.some.inj (h.symm.trans (if_neg (not_not.2 hn)))
        have hstep : Step s (.fetch answers)
            { s with nCommit := 0, cursor := [], pc := .opening } := .noRow hpc hc (Or.inl rfl)
        rwa [← hn] at hstep
      · obtain rfl := Option.some.inj (h.symm.trans (if_pos hn))
        exact .noRow hpc hc (Or.inr rfl)
    | cons row rest =>
      simp only [hc, Option.some.injEq] at h
      exact h ▸ .row hpc hc
  | save ok =>
    cases hpc : s.pc <;> simp only [step, hpc, reduceCtorEq, Option.some.injEq] at h
    · exact h ▸ .save ok (Or.inl ⟨hpc, rfl⟩)
    · exact h ▸ .save ok (Or.inr ⟨hpc, rfl⟩)
  | kill =>
    obtain ⟨hpc, rfl⟩ : ¬(s.pc = .down ∨ s.pc = .exited) ∧ _ = s' := by
      simpa only [step, Option.ite_none_left_eq_some, Option.some.injEq] using h
    exact .kill (not_or.1 hpc)

/-! ## What a row does -/

/-- The thread gave up, after it committed some transactions. -/
structure Gone (s s' : ApplyLoop E) (more : List (Option ℕ × List E)) : Prop where
  pc : s'.pc = .exited
  log : s'.log = s.log
  saved : s'.saved = s.saved
  applyId : s'.applyId = s.applyId
  tx : s'.target.tx = .idle
  committed : s'.target.committed = s.target.committed ++ more
  undone : s'.target.undone = s.target.undone

variable {s} {work : List E} {e : E} (answers : RowAnswers) (id : ℕ) (rest : List (QueuedRow E))

/-- `goto exit` with the target as it was but for its transaction. -/
theorem gone_exit {s' : ApplyLoop E} {more : List (Option ℕ × List E)} (hlog : s'.log = s.log)
    (hsaved : s'.saved = s.saved) (happly : s'.applyId = s.applyId)
    (hcommitted : s'.target.committed = s.target.committed ++ more)
    (hundone : s'.target.undone = s.target.undone) : Gone s s'.exit more :=
  ⟨rfl, hlog, hsaved, happly, rfl, hcommitted, hundone⟩

/-- A row that failed and is not skipped. -/
theorem applyRow_fails {row : QueuedRow E} {target : EffectSession ℕ E} {outcome : Outcome}
    (hexec : row.exec answers s.target = (target, outcome)) (ho : outcome ≠ .ok)
    (hskip : outcome = .duplicateKey → row.sql.sqltype s.sqltype ≠ .firstStatement) :
    s.applyRow answers row rest =
      exit { s with cursor := rest, sqltype := row.sql.sqltype s.sqltype, target } := by
  rw [applyRow, hexec]
  cases outcome with
  | ok => exact absurd rfl ho
  | duplicateKey => exact if_neg (hskip rfl)
  | otherError => rfl

theorem applyRow_begin (h : s.target.tx = .idle) :
    answers.exec = .ok ∧ s.applyRow answers ⟨id, .begin⟩ rest = { s with
        cursor := rest, sqltype := .begin, target := { s.target with tx := .active [] } } ∨
      answers.exec ≠ .ok ∧ Gone s (s.applyRow answers ⟨id, .begin⟩ rest) [] := by
  by_cases ha : answers.exec = .ok
  · refine Or.inl ⟨ha, ?_⟩
    simp [applyRow, QueuedRow.exec, ha, EffectSession.start_of_idle h, executed, QueuedSql.sqltype]
  · refine Or.inr ⟨ha, ?_⟩
    have hexec : QueuedRow.exec ⟨id, .begin⟩ answers s.target = (s.target, answers.exec) :=
      EffectSession.start_of_idle_fails h ha
    rw [applyRow_fails answers rest hexec ha fun _ => nofun]
    exact gone_exit rfl rfl rfl (List.append_nil _).symm rfl

/-- END rolls back nothing but the statement that failed, or the thread gives up. -/
theorem skip_cases (h : s.target.tx = .aborted []) :
    s.skip answers = { s with sqltype := .begin, target := { s.target with tx := .active [] } } ∨
      ∃ target, s.skip answers = exit { s with target } ∧
        target.committed = s.target.committed ∧ target.undone = s.target.undone := by
  by_cases hf : answers.finish = .ok
  · have hcommit : s.target.commit none answers.finish false =
        ({ s.target with tx := .idle }, .ok) := by
      simpa [hf] using EffectSession.commit_of_aborted h
    by_cases hb : answers.start = .ok
    · refine Or.inl ?_
      simp [skip, hcommit, hb, EffectSession.start_of_idle]
    · have hstart : EffectSession.start { s.target with tx := .idle } answers.start =
          ({ s.target with tx := .idle }, answers.start) := EffectSession.start_of_idle_fails rfl hb
      refine Or.inr ⟨{ s.target with tx := .idle }, ?_, rfl, rfl⟩
      rw [skip, hcommit]
      dsimp only
      rw [hstart]
      cases hx : answers.start with
      | ok => exact absurd hx hb
      | duplicateKey => rfl
      | otherError => rfl
  · have hcommit : s.target.commit none answers.finish false =
        ({ s.target with tx := .idle }, answers.finish) :=
      EffectSession.commit_of_aborted_fails h hf
    refine Or.inr ⟨{ s.target with tx := .idle }, ?_, rfl, rfl⟩
    rw [skip, hcommit]
    cases hx : answers.finish with
    | ok => exact absurd hx hf
    | duplicateKey => rfl
    | otherError => rfl

theorem applyRow_statement (h : s.target.tx = .active work) (hw : s.sqltype = .begin → work = []) :
    answers.exec = .ok ∧ (∃ sqltype, sqltype ≠ .begin ∧
      s.applyRow answers ⟨id, .statement e⟩ rest = { s with
        cursor := rest, sqltype, target := { s.target with tx := .active (work ++ [e]) } }) ∨
    (answers.exec = .duplicateKey ∧ s.sqltype = .begin ∧
      s.applyRow answers ⟨id, .statement e⟩ rest = { s with
        cursor := rest, sqltype := .begin, target := { s.target with tx := .active [] } }) ∨
    answers.exec ≠ .ok ∧ Gone s (s.applyRow answers ⟨id, .statement e⟩ rest) [] := by
  by_cases ha : answers.exec = .ok
  · have hexec : QueuedRow.exec ⟨id, .statement e⟩ answers s.target =
        ({ s.target with tx := .active (work ++ [e]) }, .ok) := by
      simpa [QueuedRow.exec, ha] using EffectSession.exec_of_active h
    refine Or.inl ⟨ha, _, ?_, by
      simp only [applyRow, hexec, executed, QueuedSql.sqltype]
      exact if_neg (by split_ifs <;> nofun)⟩
    split_ifs <;> nofun
  have hexec : QueuedRow.exec ⟨id, .statement e⟩ answers s.target =
      ({ s.target with tx := .aborted work }, answers.exec) := EffectSession.exec_of_active_fails h ha
  by_cases hskip : answers.exec = .duplicateKey ∧ s.sqltype = .begin
  · -- END and BEGIN
    obtain ⟨hdup, hbegin⟩ := hskip
    obtain rfl := hw hbegin
    have hrow : s.applyRow answers ⟨id, .statement e⟩ rest = executed (skip { s with
        cursor := rest, sqltype := .firstStatement
        target := { s.target with tx := .aborted [] } } answers) id := by
      simp [applyRow, hexec, hdup, QueuedSql.sqltype, hbegin]
    rw [hrow]
    rcases skip_cases (s := { s with
      cursor := rest, sqltype := .firstStatement
      target := { s.target with tx := .aborted [] } }) answers rfl with
      hskip | ⟨target, hskip, hcommitted, hundone⟩
    · rw [hskip]
      exact Or.inr (Or.inl ⟨hdup, hbegin, rfl⟩)
    · rw [hskip]
      refine Or.inr (Or.inr ⟨ha, ?_⟩)
      exact gone_exit rfl rfl rfl (hcommitted.trans (List.append_nil _).symm) hundone
  · refine Or.inr (Or.inr ⟨ha, ?_⟩)
    have hfirst : answers.exec = .duplicateKey →
        QueuedSql.sqltype s.sqltype (.statement e) ≠ .firstStatement := by
      intro hdup
      have hbegin : s.sqltype ≠ .begin := fun hb => hskip ⟨hdup, hb⟩
      simp [QueuedSql.sqltype, hbegin]
    rw [applyRow_fails answers rest hexec ha hfirst]
    exact gone_exit rfl rfl rfl (List.append_nil _).symm rfl

theorem applyRow_commit (h : s.target.tx = .active work) :
    answers.exec = .ok ∧ (∃ pc nCommit, (pc = s.pc ∨ pc = .savingFifth) ∧
      s.applyRow answers ⟨id, .commit⟩ rest = { s with
        pc, nCommit, cursor := rest, sqltype := .commit, applyId := id
        target := { s.target with
          committed := s.target.committed ++ [(some id, work)], tx := .idle } }) ∨
    answers.exec ≠ .ok ∧ Gone s (s.applyRow answers ⟨id, .commit⟩ rest)
      (if answers.unheard then [(some id, work)] else []) := by
  by_cases ha : answers.exec = .ok
  · have hexec : QueuedRow.exec ⟨id, .commit⟩ answers s.target = ({ s.target with
        committed := s.target.committed ++ [(some id, work)], tx := .idle }, .ok) := by
      simpa [QueuedRow.exec, ha] using EffectSession.commit_of_active h
    refine Or.inl ⟨ha, ?_⟩
    by_cases h5 : s.nCommit + 1 = 5
    · exact ⟨.savingFifth, 0, Or.inr rfl, by
        simp [applyRow, hexec, executed, QueuedSql.sqltype, h5]⟩
    · exact ⟨s.pc, s.nCommit + 1, Or.inl rfl, by
        simp [applyRow, hexec, executed, QueuedSql.sqltype, show s.nCommit ≠ 4 by omega]⟩
  · have hexec : QueuedRow.exec ⟨id, .commit⟩ answers s.target = ({ s.target with
        committed := s.target.committed ++ if answers.unheard then [(some id, work)] else []
        tx := .idle }, answers.exec) := EffectSession.commit_of_active_fails h ha
    refine Or.inr ⟨ha, ?_⟩
    rw [applyRow_fails answers rest hexec ha fun _ => nofun]
    exact gone_exit rfl rfl rfl rfl rfl

end ApplyLoop

/-! ## The loop over keyed tables -/

section
universe v w
variable {K : Type u} {C : Type v} {V : Type w}

/-- A row of statements on keyed tables. -/
def SyncSql.queued (row : SyncSql K C V) : QueuedRow (KeyedStmt K C V) :=
  ⟨row.id, match row.sql with
    | .begin => .begin
    | .commit => .commit
    | .statement st => .statement st⟩

/-- The answer that a reply is. -/
def outcomeOf : Reply → Outcome
  | .commandOk => .ok
  | .duplicateKey => .duplicateKey
  | .inFailedTransaction => .otherError

variable [DecidableEq K]

/-- The table is what the recorded statements make of `t₀`. -/
structure SessionMatches (t₀ : KeyedTable K C V) (a : Session (KeyedTable K C V))
    (b : EffectSession ℕ (KeyedStmt K C V)) : Prop where
  saved : t₀.execAll (b.committed.flatMap Prod.snd) = some a.saved
  tx : match a.transaction, b.tx with
    | .idle, .idle => True
    | .active work, .active statements => a.saved.execAll statements = some work
    | .aborted, .aborted _ => True
    | _, _ => False

/-- The thread over keyed tables is in the same place as the loop. -/
structure LoopMatches (t₀ : KeyedTable K C V) (s : Applier K C V)
    (l : ApplyLoop (KeyedStmt K C V)) : Prop where
  pc : l.pc = s.pc
  saved : l.saved = s.saved
  applyId : l.applyId = s.applyId
  cursor : l.cursor = s.cursor.map SyncSql.queued
  nCommit : l.nCommit = s.nCommit
  sqltype : l.sqltype = s.sqltype
  target : SessionMatches t₀ s.target l.target

variable {t₀ : KeyedTable K C V} {a : Session (KeyedTable K C V)}
  {b : EffectSession ℕ (KeyedStmt K C V)}

theorem execAll_singleton (t : KeyedTable K C V) (st : KeyedStmt K C V) :
    t.execAll [st] = t.exec st := by
  rw [KeyedTable.execAll]
  cases t.exec st <;> rfl

/-- **A row does the same** to the table as to the record, with the table's answer. -/
theorem SessionMatches.exec (h : SessionMatches t₀ a b) {row : SyncSql K C V}
    {a' : Session (KeyedTable K C V)} {reply : Reply} (hr : row.sql.exec a = (a', reply)) :
    ∃ b', row.queued.exec { exec := outcomeOf reply } b = (b', outcomeOf reply) ∧
      SessionMatches t₀ a' b' := by
  obtain ⟨saved, transaction⟩ := a
  obtain ⟨committed, undone, tx⟩ := b
  obtain ⟨hsaved, htx⟩ := h
  obtain ⟨id, sql⟩ := row
  cases sql with
  | begin =>
    cases transaction <;> cases tx <;> first | exact htx.elim | cases hr
    · exact ⟨_, rfl, hsaved, rfl⟩
    · exact ⟨_, rfl, hsaved, htx⟩
    · exact ⟨_, rfl, hsaved, trivial⟩
  | commit =>
    cases transaction <;> cases tx <;> first | exact htx.elim | cases hr
    · exact ⟨_, rfl, hsaved, trivial⟩
    · refine ⟨_, rfl, ?_, trivial⟩
      rw [List.flatMap_append, KeyedTable.execAll_append, hsaved]
      simpa using htx
    · exact ⟨_, rfl, hsaved, trivial⟩
  | statement st =>
    cases transaction with
    | idle =>
      cases tx <;> first | exact htx.elim | skip
      -- outside a transaction the statement commits by itself
      cases hst : saved.exec st <;> simp only [LoggedSql.exec, Session.exec, hst] at hr <;> cases hr
      · exact ⟨_, rfl, hsaved, trivial⟩
      · refine ⟨_, rfl, ?_, trivial⟩
        rw [List.flatMap_append, KeyedTable.execAll_append, hsaved]
        exact (execAll_singleton saved st).trans hst
    | active work =>
      cases tx <;> first | exact htx.elim | skip
      cases hst : work.exec st <;> simp only [LoggedSql.exec, Session.exec, hst] at hr <;> cases hr
      · exact ⟨_, rfl, hsaved, trivial⟩
      · refine ⟨_, rfl, hsaved, ?_⟩
        show saved.execAll _ = _
        rw [KeyedTable.execAll_append, show saved.execAll _ = some work from htx]
        exact (execAll_singleton work st).trans hst
    | aborted =>
      cases tx <;> first | exact htx.elim | cases hr
      exact ⟨_, rfl, hsaved, trivial⟩

/-- The end of a session keeps what is committed. -/
theorem SessionMatches.close (h : SessionMatches t₀ a b) : SessionMatches t₀ a.close b.close :=
  ⟨h.saved, trivial⟩

omit [DecidableEq K] in
theorem sqltype_queued (previous : SqlType) (row : SyncSql K C V) :
    row.queued.sql.sqltype previous = row.sql.sqltype previous := by
  obtain ⟨id, sql⟩ := row
  cases sql <;> rfl

variable {s : Applier K C V} {l : ApplyLoop (KeyedStmt K C V)}

theorem LoopMatches.exit (h : LoopMatches t₀ s l) : LoopMatches t₀ s.exit l.exit :=
  { h with pc := rfl, target := h.target.close }

theorem LoopMatches.executed (h : LoopMatches t₀ s l) (id : ℕ) :
    LoopMatches t₀ (s.executed id) (l.executed id) := by
  unfold Applier.executed ApplyLoop.executed
  by_cases hcommit : s.sqltype = .commit
  · rw [if_pos hcommit, if_pos (h.sqltype.trans hcommit)]
    dsimp only
    rw [h.nCommit]
    split_ifs
    · exact { h with pc := rfl, applyId := rfl, nCommit := rfl }
    · exact { h with applyId := rfl, nCommit := rfl }
  · rw [if_neg hcommit, if_neg (fun hl => hcommit (h.sqltype.symm.trans hl))]
    exact h

/-- END and BEGIN succeed on a table. -/
theorem LoopMatches.skip (h : LoopMatches t₀ s l) (exec : Outcome) :
    LoopMatches t₀ s.skip (l.skip { exec }) := by
  have hcommit : ∃ saved b, s.target.commit = (⟨saved, .idle⟩, .commandOk) ∧
      l.target.commit none .ok false = (b, .ok) ∧ b.tx = .idle ∧
      t₀.execAll (b.committed.flatMap Prod.snd) = some saved := by
    have ht := h.target
    obtain ⟨⟨saved, transaction⟩, htarget⟩ : ∃ a, s.target = a := ⟨_, rfl⟩
    obtain ⟨⟨committed, undone, tx⟩, ltarget⟩ : ∃ b, l.target = b := ⟨_, rfl⟩
    rw [htarget, ltarget] at ht ⊢
    obtain ⟨hsaved, htx⟩ := ht
    cases transaction <;> cases tx <;> first | exact htx.elim | skip
    · exact ⟨_, _, rfl, rfl, rfl, hsaved⟩
    · refine ⟨_, _, rfl, rfl, rfl, ?_⟩
      rw [List.flatMap_append, KeyedTable.execAll_append, hsaved]
      simpa using htx
    · exact ⟨_, _, rfl, rfl, rfl, hsaved⟩
  obtain ⟨saved, b, hs, hl, htx, hsaved⟩ := hcommit
  simp only [Applier.skip, ApplyLoop.skip, hs, hl, EffectSession.start_of_idle htx,
    Session.start_of_idle]
  exact { h with sqltype := rfl, target := ⟨hsaved, rfl⟩ }

/-- **The inner loop over keyed tables** is the inner loop with the answers that the tables give. -/
theorem LoopMatches.applyRow (h : LoopMatches t₀ s l) (row : SyncSql K C V)
    (rest : List (SyncSql K C V)) :
    LoopMatches t₀ (s.applyRow row rest)
      (l.applyRow { exec := outcomeOf (row.sql.exec s.target).2 } row.queued
        (rest.map SyncSql.queued)) := by
  obtain ⟨⟨target, reply⟩, hr⟩ : ∃ r, row.sql.exec s.target = r := ⟨_, rfl⟩
  obtain ⟨target', hexec, hmatches⟩ := h.target.exec hr
  have hsqltype : row.queued.sql.sqltype l.sqltype = row.sql.sqltype s.sqltype := by
    rw [h.sqltype]
    exact sqltype_queued _ row
  have hnext : LoopMatches t₀
      { s with cursor := rest, sqltype := row.sql.sqltype s.sqltype, target }
      { l with
        cursor := rest.map SyncSql.queued, sqltype := row.queued.sql.sqltype l.sqltype
        target := target' } :=
    { h with
      cursor := rfl
      sqltype := hsqltype
      target := hmatches }
  simp only [Applier.applyRow, ApplyLoop.applyRow, hr, hexec]
  cases reply with
  | commandOk => exact hnext.executed row.id
  | duplicateKey =>
    by_cases hfirst : row.sql.sqltype s.sqltype = .firstStatement
    · simp only [outcomeOf, hfirst, hsqltype.trans hfirst, if_true]
      rw [hfirst, hsqltype.trans hfirst] at hnext
      exact (hnext.skip .duplicateKey).executed row.id
    · simp only [outcomeOf, hsqltype, hfirst, if_false]
      rw [hsqltype] at hnext
      exact hnext.exit
  | inFailedTransaction => exact hnext.exit

end

end RdsDbsync
