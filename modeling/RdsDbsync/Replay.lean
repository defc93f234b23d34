/-
  Crash-safe apply: when the transactions that are applied once more after a restart
  leave the target as it would be without the crash.
-/
import Mathlib.Data.Fintype.Basic
import RdsDbsync.Apply

namespace RdsDbsync

universe u v w
variable {K : Type u} {C : Type v} {V : Type w}

open KeyedTable OrderedLog

/-! ## The property -/

/-- All rows of the log are applied. -/
def Applier.Exhausted (log : SyncLog K C V) (s : Applier K C V) : Prop :=
  s.pc ≠ .down ∧ ∀ r ∈ log.rows, r.id ≤ s.applyId

/-- **Crash-safe apply**: the thread does not give up, and once the log is exhausted the target
is as it is after every group was applied once. -/
def CrashSafe (log : SyncLog K C V) (final : KeyedTable K C V) (s : Applier K C V) : Prop :=
  s.pc ≠ .exited ∧ (s.Exhausted log → s.target.saved = final)

/-- The statements of rows. -/
def statementsOf (rows : List (SyncSql K C V)) : List (KeyedStmt K C V) :=
  rows.filterMap fun r => r.sql.statement?

section
variable [DecidableEq K]

/-- A statement that was executed before, in a transaction that was committed, meets a duplicate
key only where the thread skips it, and is harmless: `t` is the table that the log gives before
it, and the tables after it up to the last such transaction are the later ones. -/
def ReplayHarmless (log : SyncLog K C V) (t₀ : KeyedTable K C V) (s : Applier K C V) :
    ApplyEvent → Prop
  | .fetch => ∀ row ∈ s.cursor.head?, ∀ st ∈ row.sql.statement?, ∀ work ∈ s.target.transaction.work?,
      row.id ≤ s.reached →
        (work.exec st = none → s.sqltype = .begin) ∧
        ∀ t ∈ t₀.execAll (statementsOf (before SyncSql.id row.id log.rows)), ∀ t' ∈ t.exec st,
          Harmless t work (t'.states (statementsOf
            (upTo SyncSql.id s.reached (after SyncSql.id row.id log.rows)))) st
  | _ => True

instance [Fintype C] [DecidableEq V] (log : SyncLog K C V) (t₀ : KeyedTable K C V)
    (s : Applier K C V) : ∀ e, Decidable (ReplayHarmless log t₀ s e)
  | .fetch => inferInstanceAs (Decidable (∀ row ∈ s.cursor.head?, _))
  | .start | .declareCursor _ | .save _ | .kill => inferInstanceAs (Decidable True)

end

/-! ## Groups and rows -/

/-- The id of the last row of the groups. -/
def lastId (gs : List (SqlGroup K C V)) : ℕ := (gs.getLast?.map SqlGroup.commitId).getD 0

@[simp] theorem lastId_concat (gs : List (SqlGroup K C V)) (g : SqlGroup K C V) :
    lastId (gs ++ [g]) = g.commitId := by simp [lastId]

@[simp] theorem statementsOf_nil : statementsOf ([] : List (SyncSql K C V)) = [] := rfl

@[simp] theorem statementsOf_begin (id : ℕ) (rows : List (SyncSql K C V)) :
    statementsOf (⟨id, .begin⟩ :: rows) = statementsOf rows := rfl

@[simp] theorem statementsOf_commit (id : ℕ) (rows : List (SyncSql K C V)) :
    statementsOf (⟨id, .commit⟩ :: rows) = statementsOf rows := rfl

@[simp] theorem statementsOf_append (a b : List (SyncSql K C V)) :
    statementsOf (a ++ b) = statementsOf a ++ statementsOf b := List.filterMap_append

@[simp] theorem statementsOf_statementRows (l : List (ℕ × KeyedStmt K C V)) :
    statementsOf (statementRows l) = l.map Prod.snd := by
  induction l with
  | nil => rfl
  | cons a l ih => exact congrArg (a.2 :: ·) ih

theorem SqlGroup.statementsOf_rows (g : SqlGroup K C V) : statementsOf g.rows = g.stmts := by
  simp [rows, stmts]

@[simp] theorem statementsOf_groups (gs : List (SqlGroup K C V)) :
    statementsOf (gs.flatMap SqlGroup.rows) = gs.flatMap SqlGroup.stmts := by
  induction gs with
  | nil => rfl
  | cons g gs ih => simp [List.flatMap_cons, g.statementsOf_rows, ih]

theorem SqlGroup.commit_mem (g : SqlGroup K C V) : ⟨g.commitId, .commit⟩ ∈ g.rows := by
  simp [rows]

namespace SyncLog

variable {log : SyncLog K C V} {past rest : List (SqlGroup K C V)}

/-- The rows of the first groups end at their last id. -/
theorem le_lastId (h : log.groups = past ++ rest) :
    ∀ r ∈ past.flatMap SqlGroup.rows, r.id ≤ lastId past := by
  intro r hr
  rcases List.eq_nil_or_concat past with rfl | ⟨gs, g, rfl⟩
  · cases hr
  · have ho := log.ordered
    rw [h, List.flatMap_append, List.pairwise_append] at ho
    rw [List.concat_eq_append] at hr ho ⊢
    rw [lastId_concat]
    have hsplit : (gs ++ [g]).flatMap SqlGroup.rows =
        (gs.flatMap SqlGroup.rows ++ ⟨g.beginId, .begin⟩ :: statementRows g.statements) ++
          [⟨g.commitId, .commit⟩] := by
      simp [List.flatMap_append, SqlGroup.rows]
    rw [hsplit] at hr ho
    rcases List.mem_append.1 hr with hr | hr
    · exact ((List.pairwise_append.1 ho.1).2.2 r hr _ (List.mem_singleton_self _)).le
    · rw [List.mem_singleton.1 hr]

/-- The rows of the other groups come after it. -/
theorem lastId_lt (h : log.groups = past ++ rest) :
    ∀ r ∈ rest.flatMap SqlGroup.rows, lastId past < r.id := by
  intro r hr
  rcases List.eq_nil_or_concat past with rfl | ⟨gs, g, rfl⟩
  · exact log.positive r (by rw [h]; exact hr)
  · have ho := log.ordered
    rw [h, List.flatMap_append, List.pairwise_append] at ho
    rw [List.concat_eq_append] at ho ⊢
    rw [lastId_concat]
    refine ho.2.2 ⟨g.commitId, .commit⟩ ?_ r hr
    rw [List.flatMap_append]
    exact List.mem_append_right _ (by simpa using g.commit_mem)

/-- What the cursor reads after the first groups. -/
theorem after_rowsOf (h : log.groups = past ++ rest) (visible : ℕ) :
    ∃ ahead, ahead <+: rest ∧
      after SyncSql.id (lastId past) (log.rowsOf visible) = ahead.flatMap SqlGroup.rows := by
  refine ⟨rest.take (visible - past.length), List.take_prefix _ _, ?_⟩
  rw [rowsOf, h, List.take_append, List.flatMap_append]
  refine after_append (fun r hr => ?_) fun r hr => ?_
  all_goals obtain ⟨g, hg, hr⟩ := List.mem_flatMap.1 hr
  · exact le_lastId h r (List.mem_flatMap.2 ⟨g, List.mem_of_mem_take hg, hr⟩)
  · exact lastId_lt h r (List.mem_flatMap.2 ⟨g, List.mem_of_mem_take hg, hr⟩)

end SyncLog

/-! ## The invariant -/

section
variable [DecidableEq K]

/-- The transactions behind the thread, those ahead of it that were committed before, and the
rest: the target is ahead of the log. -/
structure Behind (log : SyncLog K C V) (t₀ : KeyedTable K C V) (s : Applier K C V)
    (past window fresh : List (SqlGroup K C V)) : Prop where
  groups : log.groups = past ++ (window ++ fresh)
  reached : s.reached = lastId (past ++ window)
  saved : ∃ p, p <+: past ∧ s.saved.getD 0 = lastId p
  ahead : ∃ t, t₀.execAll (past.flatMap SqlGroup.stmts) = some t ∧
    Ahead (t.states (window.flatMap SqlGroup.stmts)) s.target.saved

/-- The statements ahead that were committed before, when `todo` is left of the next group. -/
def inWindow (window : List (SqlGroup K C V)) (todo : List (ℕ × KeyedStmt K C V)) :
    List (KeyedStmt K C V) :=
  match window with
  | [] => []
  | _ :: later => todo.map Prod.snd ++ later.flatMap SqlGroup.stmts

/-- The thread is in the next group: `done` of its statements are executed, `todo` are not. -/
structure Inside (t₀ : KeyedTable K C V) (s : Applier K C V)
    (past window fresh : List (SqlGroup K C V)) (g : SqlGroup K C V)
    (done todo : List (ℕ × KeyedStmt K C V)) (t work : KeyedTable K C V) : Prop where
  pc : s.pc = .fetching
  next : ∃ more visible, window ++ fresh = g :: more ∧ visible <+: more ∧
    s.cursor = statementRows todo ++ ⟨g.commitId, .commit⟩ :: visible.flatMap SqlGroup.rows
  statements : g.statements = done ++ todo
  active : s.target.transaction = .active work
  first : s.sqltype = .begin → work = s.target.saved
  table : t₀.execAll (past.flatMap SqlGroup.stmts ++ done.map Prod.snd) = some t
  ahead : Ahead (t.states (inWindow window todo)) work

/-- Where the thread is. -/
inductive Place (t₀ : KeyedTable K C V) (s : Applier K C V)
    (past window fresh : List (SqlGroup K C V)) : Prop where
  | down (pc : s.pc = .down) (idle : s.target.transaction = .idle)
    (saved : s.saved.getD 0 = lastId past)
  | between (pc : s.pc = .opening ∨ s.pc = .savingRest) (idle : s.target.transaction = .idle)
    (applyId : s.applyId = lastId past)
  | reading (pc : s.pc = .fetching ∨ s.pc = .savingFifth) (idle : s.target.transaction = .idle)
    (applyId : s.applyId = lastId past) {visible : List (SqlGroup K C V)}
    (sub : visible <+: window ++ fresh) (cursor : s.cursor = visible.flatMap SqlGroup.rows)
  | inside (applyId : s.applyId = lastId past) {g done todo t work}
    (inside : Inside t₀ s past window fresh g done todo t work)

/-- The invariant. -/
def ReplayInv (log : SyncLog K C V) (t₀ : KeyedTable K C V) (s : Applier K C V) : Prop :=
  ∃ past window fresh, Behind log t₀ s past window fresh ∧ Place t₀ s past window fresh

variable {log : SyncLog K C V} {t₀ final t work : KeyedTable K C V} {s s' : Applier K C V}
  {past window fresh : List (SqlGroup K C V)} {g : SqlGroup K C V}
  {done todo : List (ℕ × KeyedStmt K C V)} {rest : List (SyncSql K C V)}

/-- What concerns the target, `reached` and the saved `apply_id` only. -/
theorem Behind.congr (h : Behind log t₀ s past window fresh)
    (ht : s'.target.saved = s.target.saved) (hr : s'.reached = s.reached)
    (hs : s'.saved = s.saved ∨ s'.saved = some (lastId past)) :
    Behind log t₀ s' past window fresh where
  groups := h.groups
  reached := hr ▸ h.reached
  saved := by
    rcases hs with hs | hs
    · exact hs ▸ h.saved
    · exact ⟨past, List.prefix_rfl, by rw [hs]; rfl⟩
  ahead := ht ▸ h.ahead

/-- **A restart** goes back to the saved `apply_id`: the transactions after it are run again. -/
theorem replayInv_kill (h : Behind log t₀ s past window fresh) (hpc : s'.pc = .down)
    (ht : s'.target = s.target.close) (hr : s'.reached = s.reached) (hs : s'.saved = s.saved) :
    ReplayInv log t₀ s' := by
  obtain ⟨p, ⟨q, rfl⟩, hp⟩ := h.saved
  obtain ⟨t, hexec, hahead⟩ := h.ahead
  rw [List.flatMap_append, execAll_append] at hexec
  obtain ⟨t', ht', hq⟩ := Option.bind_eq_some_iff.1 hexec
  refine ⟨p, q ++ window, fresh, ⟨?_, ?_, ⟨p, List.prefix_rfl, hs ▸ hp⟩, t', ht', ?_⟩, ?_⟩
  · simpa [List.append_assoc] using h.groups
  · rw [hr, h.reached, List.append_assoc]
  · rw [ht, List.flatMap_append]
    exact hahead.mono (states_subset_append hq _)
  · exact .down hpc (by rw [ht]; rfl) (hs ▸ hp)

/-- **The first row of a group.** -/
theorem Inside.of_begin (h : Behind log t₀ s past window fresh)
    (hg : ∃ more visible, window ++ fresh = g :: more ∧ visible <+: more ∧
      rest = statementRows g.statements ++ ⟨g.commitId, .commit⟩ :: visible.flatMap SqlGroup.rows)
    (hpc : s.pc = .fetching) :
    ∃ t, Inside t₀ { s with
      cursor := rest, sqltype := .begin, target := ⟨s.target.saved, .active s.target.saved⟩ }
      past window fresh g [] g.statements t s.target.saved := by
  obtain ⟨t, hexec, hahead⟩ := h.ahead
  obtain ⟨more, visible, hnext, hvis, hrest⟩ := hg
  refine ⟨t, hpc, ⟨more, visible, hnext, hvis, hrest⟩, rfl, rfl, fun _ => rfl, ?_, ?_⟩
  · simpa using hexec
  · cases window with
    | nil => exact hahead
    | cons g' later =>
      obtain ⟨rfl, -⟩ := List.cons.inj hnext
      exact hahead

/-- The statement succeeds in the table that the log gives. -/
theorem Inside.exec_log (honce : t₀.execAll log.stmts = some final)
    (h : Behind log t₀ s past window fresh) {st : ℕ × KeyedStmt K C V}
    (hi : Inside t₀ s past window fresh g done (st :: todo) t work) :
    ∃ t', t.exec st.2 = some t' := by
  obtain ⟨more, -, hnext, -⟩ := hi.next
  have hstmts : log.stmts = (past.flatMap SqlGroup.stmts ++ done.map Prod.snd) ++
      st.2 :: (todo.map Prod.snd ++ more.flatMap SqlGroup.stmts) := by
    rw [SyncLog.stmts, h.groups, hnext]
    simp [List.flatMap_append, List.flatMap_cons, SqlGroup.stmts, hi.statements]
  rw [hstmts, execAll_append, hi.table] at honce
  obtain ⟨t', ht', -⟩ := Option.bind_eq_some_iff.1 (show t.execAll _ = some final from honce)
  exact ⟨t', ht'⟩

/-- The rows around a statement of a group that was committed before. -/
theorem Inside.rows_around {later : List (SqlGroup K C V)} {st : ℕ × KeyedStmt K C V}
    (h : Behind log t₀ s past (g :: later) fresh) (hst : g.statements = done ++ st :: todo) :
    statementsOf (before SyncSql.id st.1 log.rows) =
        past.flatMap SqlGroup.stmts ++ done.map Prod.snd ∧
      st.1 ≤ s.reached ∧
      statementsOf (upTo SyncSql.id s.reached (after SyncSql.id st.1 log.rows)) =
        todo.map Prod.snd ++ later.flatMap SqlGroup.stmts := by
  have hgroups : log.groups = (past ++ g :: later) ++ fresh := by
    rw [h.groups, List.append_assoc]
  have hle := SyncLog.le_lastId hgroups
  have hlt := SyncLog.lastId_lt hgroups
  rw [← h.reached] at hle hlt
  let pre := past.flatMap SqlGroup.rows ++ ⟨g.beginId, .begin⟩ :: statementRows done
  let mid := statementRows todo ++ ⟨g.commitId, .commit⟩ :: later.flatMap SqlGroup.rows
  have hwindow : (past ++ g :: later).flatMap SqlGroup.rows =
      pre ++ ⟨st.1, .statement st.2⟩ :: mid := by
    simp [pre, mid, SqlGroup.rows, hst, statementRows]
  have hrows : log.rows = pre ++ ⟨st.1, .statement st.2⟩ :: (mid ++ fresh.flatMap SqlGroup.rows) := by
    rw [SyncLog.rows, hgroups, List.flatMap_append, hwindow]
    simp
  rw [hwindow] at hle
  have hord : log.rows.Pairwise fun a b => a.id < b.id := log.ordered
  rw [hrows] at hord ⊢
  obtain ⟨hbefore, hafter⟩ := around hord
  refine ⟨?_, hle ⟨st.1, .statement st.2⟩ (by simp), ?_⟩
  · rw [hbefore]
    simp [pre]
  · rw [hafter, upTo_append (fun r hr => hle r (by simp [hr])) hlt]
    simp [mid]

/-- **A statement that is run for the first time** finds the table of the log. -/
theorem Inside.runOnce {st : ℕ × KeyedStmt K C V} {t' : KeyedTable K C V} (ht : t.exec st.2 = some t')
    (hi : Inside t₀ s past [] fresh g done (st :: todo) t work) :
    work.exec st.2 = some t' ∧ Ahead (t'.states (inWindow [] todo)) t' := by
  rw [Ahead.eq hi.ahead]
  exact ⟨ht, ahead_self (mem_states _ _)⟩

/-- **A statement that is run once more** leaves the target ahead, if it is harmless. -/
theorem Inside.rerun {later : List (SqlGroup K C V)} {st : ℕ × KeyedStmt K C V}
    {t' : KeyedTable K C V} (h : Behind log t₀ s past (g :: later) fresh)
    (ht : t.exec st.2 = some t')
    (hi : Inside t₀ s past (g :: later) fresh g done (st :: todo) t work)
    (hcursor : s.cursor = ⟨st.1, .statement st.2⟩ :: rest)
    (hok : ReplayHarmless log t₀ s .fetch) :
    (work.exec st.2 = none → s.sqltype = .begin) ∧
      Ahead (t'.states (inWindow (g :: later) todo)) (work.attempt st.2) := by
  obtain ⟨hbefore, hreached, hlater⟩ := Inside.rows_around h hi.statements
  obtain ⟨hskip, hharmless⟩ := hok ⟨st.1, .statement st.2⟩ (by rw [hcursor]; rfl) st.2 rfl work
    (by rw [hi.active]; rfl) hreached
  rw [hbefore, hlater] at hharmless
  have hahead := hi.ahead
  rw [show inWindow (g :: later) (st :: todo) = st.2 :: inWindow (g :: later) todo from rfl,
    states_cons ht] at hahead
  exact ⟨hskip, hahead.rerun ht (mem_states _ _) (hharmless t hi.table t' ht)⟩

/-- **A statement** keeps the invariant. -/
theorem replayInv_statement (honce : t₀.execAll log.stmts = some final)
    (h : Behind log t₀ s past window fresh) {st : ℕ × KeyedStmt K C V}
    (happly : s.applyId = lastId past)
    (hi : Inside t₀ s past window fresh g done (st :: todo) t work)
    (hcursor : s.cursor = ⟨st.1, .statement st.2⟩ :: rest)
    (hok : ReplayHarmless log t₀ s .fetch) :
    ReplayInv log t₀ (s.applyRow ⟨st.1, .statement st.2⟩ rest) := by
  obtain ⟨t', ht'⟩ := hi.exec_log honce h
  obtain ⟨more, visible, hnext, hvis, hcur⟩ := hi.next
  have hrest : rest = statementRows todo ++ ⟨g.commitId, .commit⟩ ::
      visible.flatMap SqlGroup.rows := (List.cons.inj (hcursor.symm.trans hcur)).2
  have hstep : (work.exec st.2 = none → s.sqltype = .begin) ∧
      Ahead (t'.states (inWindow window todo)) (work.attempt st.2) := by
    cases window with
    | nil =>
      obtain ⟨hw, ha⟩ := hi.runOnce ht'
      exact ⟨fun hn => absurd (hw.symm.trans hn) nofun, by rw [attempt_of_exec hw]; exact ha⟩
    | cons g' later =>
      obtain ⟨rfl, -⟩ := List.cons.inj hnext
      exact hi.rerun h ht' hcursor hok
  have hstatements : g.statements = (done ++ [st]) ++ todo := by simp [hi.statements]
  have htable : t₀.execAll (past.flatMap SqlGroup.stmts ++ (done ++ [st]).map Prod.snd) =
      some t' := by
    rw [List.map_append, ← List.append_assoc, execAll_append, hi.table]
    simp [execAll, ht']
  obtain ⟨hskip, hahead⟩ := hstep
  cases hw : work.exec st.2 with
  | some work' =>
    obtain ⟨sqltype, hne, happ⟩ := Applier.applyRow_statement st.1 rest hi.active hw
    rw [attempt_of_exec hw] at hahead
    rw [happ]
    exact ⟨past, window, fresh, h.congr rfl rfl (Or.inl rfl), .inside happly
      ⟨hi.pc, ⟨more, visible, hnext, hvis, hrest⟩, hstatements, rfl, fun hb => absurd hb hne,
        htable, hahead⟩⟩
  | none =>
    -- nothing was done in this transaction yet
    obtain rfl : work = s.target.saved := hi.first (hskip hw)
    rw [Applier.applyRow_skip _ _ hi.active hw (hskip hw)]
    rw [attempt, hw] at hahead
    exact ⟨past, window, fresh, h.congr rfl rfl (Or.inl rfl), .inside happly
      ⟨hi.pc, ⟨more, visible, hnext, hvis, hrest⟩, hstatements, rfl, fun _ => rfl, htable, hahead⟩⟩

/-- **The last row of a group.** -/
theorem replayInv_commit (h : Behind log t₀ s past window fresh)
    (hi : Inside t₀ s past window fresh g done [] t work)
    (hcursor : s.cursor = ⟨g.commitId, .commit⟩ :: rest) :
    ReplayInv log t₀ (s.applyRow ⟨g.commitId, .commit⟩ rest) := by
  obtain ⟨more, visible, hnext, hvis, hcur⟩ := hi.next
  obtain rfl : rest = visible.flatMap SqlGroup.rows := (List.cons.inj (hcursor.symm.trans hcur)).2
  obtain ⟨pc, nCommit, hpc, happ⟩ :=
    Applier.applyRow_commit g.commitId (visible.flatMap SqlGroup.rows) hi.active
  obtain ⟨p, hp, hsaved⟩ := h.saved
  have hgroups : log.groups = (past ++ [g]) ++ more := by
    rw [h.groups, hnext]; simp
  have htable : t₀.execAll ((past ++ [g]).flatMap SqlGroup.stmts) = some t := by
    have := hi.statements
    rw [List.append_nil] at this
    simpa [SqlGroup.stmts, this] using hi.table
  rw [happ]
  have hplace : ∀ window' fresh', more = window' ++ fresh' → Place t₀ { s with
      pc, nCommit, cursor := visible.flatMap SqlGroup.rows, sqltype := .commit
      target := ⟨work, .idle⟩, applyId := g.commitId, reached := max s.reached g.commitId }
      (past ++ [g]) window' fresh' := by
    rintro window' fresh' rfl
    exact .reading (hpc.imp_left fun e => e.trans hi.pc) rfl (lastId_concat past g).symm hvis rfl
  cases window with
  | nil =>
    have hlt : s.reached < g.commitId := by
      rw [h.reached, List.append_nil]
      exact SyncLog.lastId_lt (h.groups.trans (congrArg _ hnext)) _
        (List.mem_flatMap.2 ⟨g, List.mem_cons_self, g.commit_mem⟩)
    refine ⟨past ++ [g], [], more, ⟨hgroups, ?_, ⟨p, hp.trans (List.prefix_append _ _), hsaved⟩,
      t, htable, hi.ahead⟩, hplace [] more rfl⟩
    simpa using hlt.le
  | cons g' later =>
    obtain ⟨rfl, rfl⟩ := List.cons.inj hnext
    have hle : g'.commitId ≤ s.reached := by
      rw [h.reached]
      have hgroups' : log.groups = (past ++ g' :: later) ++ fresh := by
        rw [h.groups, List.append_assoc]
      exact SyncLog.le_lastId hgroups' _ (List.mem_flatMap.2 ⟨g', by simp, g'.commit_mem⟩)
    refine ⟨past ++ [g'], later, fresh, ⟨hgroups, ?_, ⟨p, hp.trans (List.prefix_append _ _), hsaved⟩,
      t, htable, hi.ahead⟩, hplace later fresh rfl⟩
    rw [max_eq_left hle, h.reached]
    simp

/-- **One row** keeps the invariant. -/
theorem replayInv_row (honce : t₀.execAll log.stmts = some final)
    (h : Behind log t₀ s past window fresh) (hp : Place t₀ s past window fresh)
    (hpc : s.pc = .fetching) {row : SyncSql K C V} (hcursor : s.cursor = row :: rest)
    (hok : ReplayHarmless log t₀ s .fetch) : ReplayInv log t₀ (s.applyRow row rest) := by
  rcases hp with ⟨hpc', -, -⟩ | ⟨hpc', -, -⟩ | ⟨-, hidle, happly, hsub, hcur⟩ | ⟨happly, hi⟩
  · cases hpc.symm.trans hpc'
  · rcases hpc' with hpc' | hpc' <;> cases hpc.symm.trans hpc'
  · -- between two groups: the row is `begin;`
    rename_i visible
    cases visible with
    | nil => cases hcursor.symm.trans hcur
    | cons g visible =>
      obtain ⟨more, hmore⟩ := hsub
      rw [List.flatMap_cons, SqlGroup.rows, List.cons_append, List.append_assoc] at hcur
      obtain ⟨rfl, rfl⟩ := List.cons.inj (hcursor.symm.trans hcur)
      rw [Applier.applyRow_begin _ _ hidle]
      obtain ⟨t, hi⟩ := Inside.of_begin (g := g) h
        ⟨visible ++ more, visible, hmore.symm, List.prefix_append _ _, rfl⟩ hpc
      exact ⟨past, window, fresh, h.congr rfl rfl (Or.inl rfl), .inside happly hi⟩
  · rename_i g done todo t work
    obtain ⟨more, visible, -, -, hcur⟩ := hi.next
    cases todo with
    | nil =>
      obtain ⟨rfl, -⟩ := List.cons.inj (hcursor.symm.trans hcur)
      exact replayInv_commit h hi hcursor
    | cons st todo =>
      obtain ⟨rfl, -⟩ := List.cons.inj (hcursor.symm.trans hcur)
      exact replayInv_statement honce h happly hi hcursor hok

/-- A thread that does not read a row is between two groups. -/
theorem Place.boundary (hp : Place t₀ s past window fresh) (hdown : s.pc ≠ .down)
    (hread : s.pc = .fetching → s.cursor = []) :
    s.target.transaction = .idle ∧ s.applyId = lastId past := by
  rcases hp with ⟨hpc, -, -⟩ | ⟨-, hidle, happly⟩ | ⟨-, hidle, happly, -, -⟩ | ⟨-, hi⟩
  · exact absurd hpc hdown
  · exact ⟨hidle, happly⟩
  · exact ⟨hidle, happly⟩
  · obtain ⟨more, visible, -, -, hcur⟩ := hi.next
    rw [hread hi.pc] at hcur
    exact absurd hcur.symm (by simp)

/-- **One step** keeps the invariant. -/
theorem replayInv_step (honce : t₀.execAll log.stmts = some final) {e : ApplyEvent}
    (hI : ReplayInv log t₀ s) (hok : ReplayHarmless log t₀ s e) (h : s.step log e = some s') :
    ReplayInv log t₀ s' := by
  obtain ⟨past, window, fresh, hb, hp⟩ := hI
  cases Applier.step_cases h with
  | kill => exact replayInv_kill hb rfl rfl rfl rfl
  | start pc =>
    have hdown : s.target.transaction = .idle ∧ s.saved.getD 0 = lastId past := by
      rcases hp with ⟨-, hidle, hsaved⟩ | ⟨hpc, -, -⟩ | ⟨hpc, -, -, -, -⟩ | ⟨-, hi⟩
      · exact ⟨hidle, hsaved⟩
      · rcases hpc with hpc | hpc <;> simp [hpc] at pc
      · rcases hpc with hpc | hpc <;> simp [hpc] at pc
      · simp [hi.pc] at pc
    exact ⟨past, window, fresh, hb.congr rfl rfl (Or.inl rfl),
      .between (Or.inl rfl) hdown.1 hdown.2⟩
  | declareCursor visible pc =>
    have hopen := hp.boundary (by rw [pc]; nofun) (by rw [pc]; nofun)
    obtain ⟨ahead, hsub, hcur⟩ := SyncLog.after_rowsOf hb.groups visible
    exact ⟨past, window, fresh, hb.congr rfl rfl (Or.inl rfl),
      .reading (Or.inl rfl) hopen.1 hopen.2 hsub (by rw [← hcur, hopen.2])⟩
  | row pc cursor => exact replayInv_row honce hb hp pc cursor hok
  | noRow pc cursor hnext =>
    have hend := hp.boundary (by rw [pc]; nofun) fun _ => cursor
    exact ⟨past, window, fresh, hb.congr rfl rfl (Or.inl rfl), .between hnext hend.1 hend.2⟩
  | save ok pc =>
    have hsave : s.target.transaction = .idle ∧ s.applyId = lastId past := by
      rcases pc with ⟨hpc, -⟩ | ⟨hpc, -⟩
      · exact hp.boundary (by rw [hpc]; nofun) (by rw [hpc]; nofun)
      · exact hp.boundary (by rw [hpc]; nofun) (by rw [hpc]; nofun)
    have hsaved : ∀ next, Behind log t₀ { s with
        saved := if ok then some s.applyId else s.saved, pc := next } past window fresh :=
      fun _ => hb.congr rfl rfl (by cases ok <;> simp [hsave.2])
    rcases pc with ⟨hpc, rfl⟩ | ⟨hpc, rfl⟩
    · obtain ⟨visible, hsub, hcur⟩ : ∃ visible, visible <+: window ++ fresh ∧
          s.cursor = visible.flatMap SqlGroup.rows := by
        rcases hp with ⟨hpc', -, -⟩ | ⟨hpc', -, -⟩ | ⟨-, -, -, hsub, hcur⟩ | ⟨-, hi⟩
        · cases hpc.symm.trans hpc'
        · rcases hpc' with hpc' | hpc' <;> cases hpc.symm.trans hpc'
        · exact ⟨_, hsub, hcur⟩
        · cases hpc.symm.trans hi.pc
      exact ⟨past, window, fresh, hsaved _,
        .reading (Or.inl rfl) hsave.1 hsave.2 hsub hcur⟩
    · exact ⟨past, window, fresh, hsaved _,
        .between (Or.inl rfl) hsave.1 hsave.2⟩

theorem replayInv_init (log : SyncLog K C V) (t₀ : KeyedTable K C V) :
    ReplayInv log t₀ (.init t₀) :=
  ⟨[], [], log.groups, ⟨rfl, rfl, ⟨[], List.prefix_rfl, rfl⟩, t₀, rfl, ahead_self (mem_states _ _)⟩,
    .down rfl rfl rfl⟩

/-- Once no row is left, nothing is left to be run again. -/
theorem ReplayInv.crashSafe (honce : t₀.execAll log.stmts = some final) (h : ReplayInv log t₀ s) :
    CrashSafe log final s := by
  obtain ⟨past, window, fresh, hb, hp⟩ := h
  have hpc : s.pc ≠ .exited ∧ (s.pc ≠ .down → s.applyId = lastId past) := by
    rcases hp with ⟨hpc, -, -⟩ | ⟨hpc, -, happly⟩ | ⟨hpc, -, happly, -, -⟩ | ⟨happly, hi⟩
    · exact ⟨by simp [hpc], fun hn => absurd hpc hn⟩
    · exact ⟨by rcases hpc with hpc | hpc <;> simp [hpc], fun _ => happly⟩
    · exact ⟨by rcases hpc with hpc | hpc <;> simp [hpc], fun _ => happly⟩
    · exact ⟨by simp [hi.pc], fun _ => happly⟩
  refine ⟨hpc.1, fun ⟨hlive, hall⟩ => ?_⟩
  have hnil : window ++ fresh = [] := by
    refine List.eq_nil_iff_forall_not_mem.2 ?_
    intro g hg
    have hrow := hall ⟨g.commitId, .commit⟩ (List.mem_flatMap.2
      ⟨g, by rw [hb.groups]; exact List.mem_append_right _ hg, g.commit_mem⟩)
    have hlt := SyncLog.lastId_lt hb.groups ⟨g.commitId, .commit⟩
      (List.mem_flatMap.2 ⟨g, hg, g.commit_mem⟩)
    rw [hpc.2 hlive] at hrow
    exact absurd hlt (not_lt.2 hrow)
  obtain ⟨hwindow, hfresh⟩ := List.append_eq_nil_iff.1 hnil
  obtain ⟨t, hexec, hahead⟩ := hb.ahead
  have hgroups : log.groups = past := by rw [hb.groups, hnil, List.append_nil]
  rw [SyncLog.stmts, hgroups, hexec] at honce
  rw [hwindow] at hahead
  rw [← Option.some.inj honce]
  exact Ahead.eq hahead

/-- **Crash-safe apply** in every run in which each statement that is run once more is
harmless. -/
theorem crashSafe_of_run (honce : t₀.execAll log.stmts = some final) {es : List ApplyEvent}
    (hm : StepMachine.Meets (Applier.step log) (ReplayHarmless log t₀) (.init t₀) es)
    (hr : StepMachine.run (Applier.step log) (.init t₀) es = some s) : CrashSafe log final s :=
  ReplayInv.crashSafe honce (StepMachine.run_invariant
    (fun _ _ _ hI hok h => replayInv_step honce hI hok h) (replayInv_init log t₀) hm hr)

end

/-! ## A row that is inserted, and another statement -/

/-- The row 1 is inserted by the first transaction; the second has one statement. -/
def insertThen (st : KeyedStmt ℕ Unit ℕ) : SyncLog ℕ Unit ℕ where
  groups := [⟨1, [(2, .insert 1 fun _ => 7)], 3⟩, ⟨4, [(5, st)], 6⟩]
  ordered := by simp [SqlGroup.rows, statementRows]
  positive := by simp [SqlGroup.rows, statementRows]

/-- Both transactions are applied, the process is killed before it saves `apply_id`, and both are
applied again. -/
def killedRun : List ApplyEvent :=
  [.start, .declareCursor 2, .fetch, .fetch, .fetch, .fetch, .fetch, .fetch, .kill,
    .start, .declareCursor 2, .fetch, .fetch, .fetch, .fetch, .fetch, .fetch]

theorem crashSafe_insertThen_update :
    ∃ s, StepMachine.run (Applier.step (insertThen (.update 1 1 fun _ => some 8)))
        (.init fun _ => none) killedRun = some s ∧
      CrashSafe (insertThen (.update 1 1 fun _ => some 8))
        (Function.update (fun _ => none) 1 (some fun _ => 8)) s := by
  let log := insertThen (.update 1 1 fun _ => some 8)
  have hr : (StepMachine.run (Applier.step log) (.init fun _ => none) killedRun).isSome := by decide
  obtain ⟨s, hs⟩ := Option.isSome_iff_exists.1 hr
  refine ⟨s, hs, crashSafe_of_run ?_ (by decide) hs⟩
  refine congrArg some (funext ?_)
  intro k
  by_cases hk : k = 1
  · subst hk
    rfl
  · simp [hk]

/-- The insertion of the old key is not undone by the update that moved it, which is skipped. -/
theorem movedTwice_insertThen :
    ∃ s, StepMachine.run (Applier.step (insertThen (.update 1 2 fun _ => some 8)))
        (.init fun _ => none) killedRun = some s ∧
      ∃ final, execAll (fun _ => none) (insertThen (.update 1 2 fun _ => some 8)).stmts = some final ∧
        ¬ CrashSafe (insertThen (.update 1 2 fun _ => some 8)) final s := by
  let log := insertThen (.update 1 2 fun _ => some 8)
  have hr : (StepMachine.run (Applier.step log) (.init fun _ => none) killedRun).map
      (fun s => (decide (s.target.saved 1 = none), s.pc, s.applyId)) =
        some (false, .fetching, 6) := by decide
  obtain ⟨s, hs, h⟩ := Option.map_eq_some_iff.1 hr
  simp only [Prod.mk.injEq, decide_eq_false_iff_not] at h
  obtain ⟨h1, hpc, hid⟩ := h
  refine ⟨s, hs, _, rfl, fun hsafe => h1 ?_⟩
  have hexhausted : s.Exhausted log := ⟨by simp [hpc], by rw [hid]; decide⟩
  rw [hsafe.2 hexhausted]
  decide

end RdsDbsync
