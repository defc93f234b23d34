/-
  The whole decoder over keyed tables: the target's tables against those of the source.

  `converged_of_run`: whenever the apply thread has applied what is stored, the target holds
  the tables that the stored transactions make, each statement executed once, and those are
  all transactions of the source once the stream is read to its end.
-/
import RdsDbsync.Pipeline
import RdsDbsync.Replay

namespace RdsDbsync

open Bytes KeyedTable OrderedLog

universe u v w
variable {K : Type u} {C : Type v} {V : Type w}

/-! ## The table that is read -/

section
variable (parse : Bytes → KeyedStmt K C V)

/-- A row as the target takes it: `parse` is what the target makes of a statement's text. -/
def QueuedRow.toSql (r : QueuedRow Bytes) : SyncSql K C V :=
  ⟨r.id, match r.sql with
    | .begin => .begin
    | .commit => .commit
    | .statement text => .statement (parse text)⟩

/-- A group as the target takes it. -/
def QueuedGroup.toSql (g : QueuedGroup Bytes) : SqlGroup K C V where
  beginId := g.beginId
  statements := g.statements.map fun s => (s.1, parse s.2)
  commitId := g.commitId

/-- The committed rows of `sync_sqls`. -/
def readSyncSqls (ids : RowIds) (db : TxLog Bytes) : List (SyncSql K C V) :=
  (readRows ids 0 db.committed.flatten).map (QueuedRow.toSql parse)

/-- What transactions of the source do. -/
def sourceStmts (txns : List StreamTxn) : List (KeyedStmt K C V) :=
  txns.flatMap fun t => t.statements.map parse

theorem QueuedGroup.rows_toSql (g : QueuedGroup Bytes) :
    (g.toSql parse).rows = g.rows.map (QueuedRow.toSql parse) := by
  simp only [SqlGroup.rows, statementRows, toSql, rows, tailRows, List.map_cons, List.map_append,
    List.map_map, List.map_nil]
  rfl

theorem flatMap_rows_toSql (groups : List (QueuedGroup Bytes)) :
    (groups.map (QueuedGroup.toSql parse)).flatMap SqlGroup.rows =
      (queuedRows groups).map (QueuedRow.toSql parse) := by
  simp only [queuedRows, List.flatMap_map, List.map_flatMap, QueuedGroup.rows_toSql]

/-- The log of `sync_sqls` when all transactions of the history are stored. -/
def History.syncLog (H : History) (ids : RowIds) : SyncLog K C V where
  groups := (queuedTxns ids 0 H.txns).map (QueuedGroup.toSql parse)
  ordered := by
    rw [flatMap_rows_toSql, ← readRows_txns, List.pairwise_map]
    exact (inIdOrder_readRows _).1
  positive := by
    rw [flatMap_rows_toSql, ← readRows_txns]
    intro r hr
    obtain ⟨row, hrow, rfl⟩ := List.mem_map.1 hr
    exact (inIdOrder_readRows _).2 row hrow

theorem take_queuedTxns {ids : RowIds} {i : ℕ} (ts : List StreamTxn) (n : ℕ) :
    (queuedTxns ids i ts).take n = queuedTxns ids i (ts.take n) := by
  induction ts generalizing i n with
  | nil => simp [queuedTxns]
  | cons t ts ih =>
    cases n with
    | zero => rfl
    | succ n => rw [queuedTxns, List.take_succ_cons, ih, List.take_succ_cons, queuedTxns]

/-- **An exact local log is read as the log of its transactions.** -/
theorem OnceInv.readSyncSqls {H : History} {s : System} (hI : OnceInv H s) (ids : RowIds) :
    readSyncSqls parse ids s.receiver.db =
      (H.syncLog parse ids).rowsOf s.receiver.db.committed.length := by
  obtain ⟨n, hn, hc, -⟩ := hI
  have hlen : s.receiver.db.committed.length = n := by
    rw [hc, List.length_map, List.length_take, Nat.min_eq_left hn]
  rw [RdsDbsync.readSyncSqls, SyncLog.rowsOf, History.syncLog, hlen, hc, readRows_txns, ← List.map_take,
    take_queuedTxns, flatMap_rows_toSql]

theorem stmts_toSql (g : QueuedGroup Bytes) :
    (g.toSql parse).stmts = g.effects.map parse := by
  simp [SqlGroup.stmts, QueuedGroup.toSql, QueuedGroup.effects]

theorem stmts_take_syncLog (H : History) (ids : RowIds) (n : ℕ) :
    ((H.syncLog parse ids).groups.take n).flatMap SqlGroup.stmts =
      sourceStmts parse (H.txns.take n) := by
  have hgroups : ∀ (ts : List StreamTxn) (i : ℕ),
      ((queuedTxns ids i ts).map (QueuedGroup.toSql parse)).flatMap SqlGroup.stmts =
        sourceStmts parse ts := by
    intro ts
    induction ts with
    | nil =>
      intro i
      rfl
    | cons t ts ih =>
      intro i
      rw [queuedTxns, List.map_cons, List.flatMap_cons, ih, stmts_toSql, effects_queued]
      rfl
  rw [History.syncLog, ← List.map_take, take_queuedTxns]
  exact hgroups _ _

theorem stmts_syncLog (H : History) (ids : RowIds) :
    (H.syncLog parse ids).stmts = sourceStmts parse H.txns := by
  have hstmts := stmts_take_syncLog parse H ids H.txns.length
  rwa [List.take_length, List.take_of_length_le] at hstmts
  simp [History.syncLog, length_queuedTxns]

end

/-! ## The process -/

/-- The receive thread with the server it streams from, and the apply thread with the tables of
the target. -/
structure TablePipeline (K : Type u) (C : Type v) (V : Type w) where
  source : System
  apply : Applier K C V

inductive TableEvent where
  /-- A step of the receive thread or its server. -/
  | receive (e : StreamEvent)
  /-- The apply thread opens its cursor on what is committed. -/
  | declareCursor
  /-- Another step of the apply thread. -/
  | apply (e : ApplyEvent)
  /-- The process is killed, and another one is started. -/
  | restart

namespace TablePipeline

variable (H : History) (ids : RowIds) (parse : Bytes → KeyedStmt K C V)

/-- Both sides hold the tables `t₀`. -/
def init (t₀ : KeyedTable K C V) : TablePipeline K C V := ⟨.init H, .init t₀⟩

variable [DecidableEq K]

/-- One step of either thread. -/
def step (p : TablePipeline K C V) : TableEvent → Option (TablePipeline K C V)
  | .receive e => (p.source.step H e).map fun source => { p with source }
  | .declareCursor =>
    if p.apply.pc = .opening then
      some { p with
        apply := { p.apply with
          pc := .fetching
          cursor := after SyncSql.id p.apply.applyId (readSyncSqls parse ids p.source.receiver.db)
          nCommit := 0
          sqltype := .begin } }
    else none
  | .apply (.declareCursor _) => none
  | .apply e => (p.apply.step (H.syncLog parse ids) e).map fun apply => { p with apply }
  | .restart =>
    some ⟨p.source.restart, { p.apply with pc := .down, target := p.apply.target.close }⟩

end TablePipeline

/-! ## The property -/

section
variable [DecidableEq K] (H : History) (ids : RowIds) (parse : Bytes → KeyedStmt K C V)
  (t₀ : KeyedTable K C V)

/-- **The target converges to the source**: the apply thread does not give up.  When it has applied
what is stored, the target holds the tables that the stored transactions make of `t₀`, where each of
their statements is executed once and does what the target takes its text for (`parse`); at the end
of the stream, those are all the transactions of the source. -/
structure Converged (p : TablePipeline K C V) : Prop where
  applies : p.apply.pc ≠ .exited
  tables : p.apply.pc ≠ .down →
    (∀ r ∈ readSyncSqls parse ids p.source.receiver.db, r.id ≤ p.apply.applyId) →
    t₀.execAll (sourceStmts parse (H.txns.take p.source.receiver.db.committed.length)) =
      some p.apply.target.saved
  all : p.source.receiver.pc.live → p.source.receiver.handler.conn = .streaming →
    p.source.queue = [] → p.source.receiver.db.committed.length = H.txns.length

/-- Streams start at the first transaction that is not committed locally, and statements that are
run once more are harmless. -/
def HarmlessStep (p : TablePipeline K C V) : TableEvent → Prop
  | .receive e => ResumesAfterCommitted H p.source e
  | .apply e => ReplayHarmless (H.syncLog parse ids) t₀ p.apply e
  | _ => True

instance [Fintype C] [DecidableEq V] (p : TablePipeline K C V) :
    ∀ e, Decidable (HarmlessStep H ids parse t₀ p e)
  | .receive e => inferInstanceAs (Decidable (ResumesAfterCommitted H p.source e))
  | .apply e => inferInstanceAs (Decidable (ReplayHarmless (H.syncLog parse ids) t₀ p.apply e))
  | .declareCursor | .restart => inferInstanceAs (Decidable True)

end

/-! ## What is read is stored -/

namespace Applier

variable {s s' : Applier K C V}

/-- The cursor and the last `commit;` row are among some rows. -/
structure Sees (s : Applier K C V) (rows : List (SyncSql K C V)) : Prop where
  cursor : ∀ r ∈ s.cursor, r ∈ rows
  reached : s.reached = 0 ∨ ∃ r ∈ rows, r.id = s.reached

theorem Sees.mono {rows rows' : List (SyncSql K C V)} (h : s.Sees rows)
    (hsub : ∀ r ∈ rows, r ∈ rows') : s.Sees rows' :=
  ⟨fun r hr => hsub r (h.cursor r hr),
    h.reached.imp_right fun ⟨r, hr, heq⟩ => ⟨r, hsub r hr, heq⟩⟩

theorem sees_executed {rows : List (SyncSql K C V)} {row : SyncSql K C V} (h : s.Sees rows)
    (hrow : row ∈ rows) : (s.executed row.id).Sees rows := by
  have hmax : max s.reached row.id = 0 ∨ ∃ r ∈ rows, r.id = max s.reached row.id := by
    rcases le_total s.reached row.id with hle | hle
    · rw [max_eq_right hle]
      exact Or.inr ⟨row, hrow, rfl⟩
    · rw [max_eq_left hle]
      exact h.reached
  unfold executed
  dsimp only
  split_ifs
  · exact ⟨h.cursor, hmax⟩
  · exact ⟨h.cursor, hmax⟩
  · exact h

theorem sees_skip {rows : List (SyncSql K C V)} (h : s.Sees rows) : s.skip.Sees rows := by
  unfold skip
  rcases s.target.commit with ⟨target, _ | _ | _⟩
  · dsimp only
    rcases target.start with ⟨target, _ | _ | _⟩ <;> exact ⟨h.cursor, h.reached⟩
  · exact ⟨h.cursor, h.reached⟩
  · exact ⟨h.cursor, h.reached⟩

variable [DecidableEq K]

/-- A row is read from the cursor. -/
theorem sees_applyRow {rows rest : List (SyncSql K C V)} {row : SyncSql K C V} (h : s.Sees rows)
    (hcursor : s.cursor = row :: rest) : (s.applyRow row rest).Sees rows := by
  have hrow : row ∈ rows := h.cursor row (by rw [hcursor]; exact List.mem_cons_self)
  have hrest : ∀ r ∈ rest, r ∈ rows := by
    intro r hr
    exact h.cursor r (by rw [hcursor]; exact List.mem_cons_of_mem _ hr)
  unfold applyRow
  dsimp only
  rcases row.sql.exec s.target with ⟨target, _ | _ | _⟩
  · exact sees_executed ⟨hrest, h.reached⟩ hrow
  · dsimp only
    split_ifs
    · exact sees_executed (sees_skip ⟨hrest, h.reached⟩) hrow
    · exact ⟨hrest, h.reached⟩
  · exact ⟨hrest, h.reached⟩

/-- **A step of the thread** reads nothing but its cursor. -/
theorem sees_step {log : SyncLog K C V} {rows : List (SyncSql K C V)} {e : ApplyEvent}
    (hs : s.Sees rows) (he : ∀ visible, e ≠ .declareCursor visible)
    (h : s.step log e = some s') : s'.Sees rows := by
  cases step_cases h with
  | declareCursor visible _ => exact absurd rfl (he visible)
  | row _ cursor => exact sees_applyRow hs cursor
  | start _ | noRow _ _ _ => exact ⟨by rintro r ⟨⟩, hs.reached⟩
  | save _ _ | kill _ => exact ⟨hs.cursor, hs.reached⟩

end Applier

/-! ## Groups that are applied and stored -/

/-- Groups whose last row was reached are stored. -/
theorem length_le_of_reached {log : SyncLog K C V} {s : Applier K C V}
    {gs rest : List (SqlGroup K C V)} {n : ℕ} (hgroups : log.groups = gs ++ rest)
    (hreached : s.reached = lastId gs)
    (hsees : s.reached = 0 ∨ ∃ r ∈ log.rowsOf n, r.id = s.reached) : gs.length ≤ n := by
  rcases List.eq_nil_or_concat gs with rfl | ⟨gs, g, rfl⟩
  · exact Nat.zero_le _
  rw [List.concat_eq_append] at hgroups hreached ⊢
  by_contra hn
  have hlen : n ≤ gs.length := by
    rw [List.length_append, List.length_singleton] at hn
    omega
  have hgroups' : log.groups = gs ++ (g :: rest) := by
    rw [hgroups, List.append_assoc]
    rfl
  have hlt : lastId gs < s.reached := by
    rw [hreached, lastId_concat]
    exact SyncLog.lastId_lt hgroups' ⟨g.commitId, .commit⟩
      (List.mem_flatMap.2 ⟨g, List.mem_cons_self, g.commit_mem⟩)
  rcases hsees with hzero | ⟨r, hr, heq⟩
  · rw [hzero] at hlt
    exact Nat.not_lt_zero _ hlt
  · have hle : r.id ≤ lastId gs := by
      refine SyncLog.le_lastId hgroups' r ?_
      rw [SyncLog.rowsOf, hgroups', List.take_append_of_le_length hlen] at hr
      obtain ⟨g', hg', hr⟩ := List.mem_flatMap.1 hr
      exact List.mem_flatMap.2 ⟨g', List.mem_of_mem_take hg', hr⟩
    rw [heq] at hle
    exact absurd hle (Nat.not_le.2 hlt)

/-- Groups that are stored and behind the last row are applied. -/
theorem length_ge_of_applied {log : SyncLog K C V} {past rest : List (SqlGroup K C V)} {n : ℕ}
    (hgroups : log.groups = past ++ rest) (hn : n ≤ log.groups.length)
    (happlied : ∀ r ∈ log.rowsOf n, r.id ≤ lastId past) : n ≤ past.length := by
  by_contra hlt
  cases rest with
  | nil =>
    rw [hgroups, List.append_nil] at hn
    exact hlt hn
  | cons g rest =>
    have hmem : ⟨g.commitId, .commit⟩ ∈ log.rowsOf n := by
      rw [SyncLog.rowsOf, hgroups, List.take_append, List.flatMap_append]
      refine List.mem_append_right _ (List.mem_flatMap.2 ⟨g, ?_, g.commit_mem⟩)
      rw [show n - past.length = n - past.length - 1 + 1 by omega, List.take_succ_cons]
      exact List.mem_cons_self
    have := SyncLog.lastId_lt hgroups ⟨g.commitId, .commit⟩
      (List.mem_flatMap.2 ⟨g, List.mem_cons_self, g.commit_mem⟩)
    exact absurd (happlied _ hmem) (Nat.not_le.2 this)

/-! ## The invariant -/

theorem mem_readSyncSqls_mono {ids : RowIds} {parse : Bytes → KeyedStmt K C V}
    {db db' : TxLog Bytes} (h : db.committed <+: db'.committed) :
    ∀ r ∈ readSyncSqls parse ids db, r ∈ readSyncSqls parse ids db' := by
  obtain ⟨more, hmore⟩ := h
  intro r hr
  rw [readSyncSqls, ← hmore, List.flatten_append, readRows_append, List.map_append]
  exact List.mem_append_left _ hr

section
variable [DecidableEq K] {H : History} {ids : RowIds} {parse : Bytes → KeyedStmt K C V}
  {t₀ final : KeyedTable K C V} {p p' : TablePipeline K C V}

structure TableInv (H : History) (ids : RowIds) (parse : Bytes → KeyedStmt K C V)
    (t₀ : KeyedTable K C V) (p : TablePipeline K C V) : Prop where
  once : OnceInv H p.source
  replay : ReplayInv (H.syncLog parse ids) t₀ p.apply
  sees : p.apply.Sees (readSyncSqls parse ids p.source.receiver.db)

/-- The apply thread has done nothing. -/
theorem tableInv_fresh {source : System} (honce : OnceInv H source) :
    TableInv H ids parse t₀ ⟨source, .init t₀⟩ :=
  ⟨honce, replayInv_init _ t₀, by rintro r ⟨⟩, Or.inl rfl⟩

theorem tableInv_init : TableInv H ids parse t₀ (.init H t₀) := tableInv_fresh (onceInv_init H)

/-- The process is killed. -/
theorem TableInv.restart (hI : TableInv H ids parse t₀ p) : TableInv H ids parse t₀
    ⟨p.source.restart, { p.apply with pc := .down, target := p.apply.target.close }⟩ := by
  obtain ⟨past, window, fresh, hb, -⟩ := hI.replay
  exact ⟨hI.once.restart, replayInv_kill hb rfl rfl rfl rfl, hI.sees.cursor, hI.sees.reached⟩

/-- **One step of either thread** keeps the invariant. -/
theorem tableInv_step (hsource : t₀.execAll (H.syncLog parse ids).stmts = some final)
    {e : TableEvent} (hI : TableInv H ids parse t₀ p) (hok : HarmlessStep H ids parse t₀ p e)
    (h : p.step H ids parse e = some p') : TableInv H ids parse t₀ p' := by
  cases e with
  | receive e =>
    obtain ⟨source, hsrc, rfl⟩ := Option.map_eq_some_iff.1 h
    obtain ⟨e', requests, hr⟩ := System.receiver_step hsrc
    exact ⟨onceInv_step_any hI.once hok hsrc, hI.replay,
      hI.sees.mono (mem_readSyncSqls_mono (Receiver.step_prefix hr))⟩
  | declareCursor =>
    obtain ⟨hpc, h⟩ : p.apply.pc = .opening ∧ _ = some p' := by
      simpa only [TablePipeline.step, Option.ite_none_right_eq_some] using h
    obtain rfl := Option.some.inj h
    refine ⟨hI.once, ?_, ?_, hI.sees.reached⟩
    · -- the rows that are stored are those of the first transactions of the log
      have hrows := hI.once.readSyncSqls parse ids
      refine replayInv_step hsource (e := .declareCursor p.source.receiver.db.committed.length)
        hI.replay trivial ?_
      rw [hrows]
      exact if_pos hpc
    · intro r hr
      exact (List.mem_filter.1 hr).1
  | apply e =>
    have happly : (∀ visible, e ≠ .declareCursor visible) ∧ ∃ apply,
        p.apply.step (H.syncLog parse ids) e = some apply ∧
          ({ p with apply } : TablePipeline K C V) = p' := by
      cases e with
      | declareCursor visible => cases h
      | start | fetch | save _ | kill =>
        exact ⟨fun _ => by rintro ⟨⟩, Option.map_eq_some_iff.1 h⟩
    obtain ⟨hne, apply, happly, rfl⟩ := happly
    exact ⟨hI.once, replayInv_step hsource hI.replay hok happly,
      Applier.sees_step hI.sees hne happly⟩
  | restart =>
    obtain rfl := Option.some.inj h
    exact hI.restart

theorem TableInv.converged (hI : TableInv H ids parse t₀ p) : Converged H ids parse t₀ p := by
  obtain ⟨honce, hreplay, hsees⟩ := hI
  have hstored := honce.readSyncSqls parse ids
  have hn : p.source.receiver.db.committed.length ≤ H.txns.length := by
    obtain ⟨n, hn, hc, -⟩ := honce
    rw [hc, List.length_map, List.length_take]
    exact Nat.min_le_right _ _
  have hall : p.source.receiver.pc.live → p.source.receiver.handler.conn = .streaming →
      p.source.queue = [] → p.source.receiver.db.committed.length = H.txns.length := by
    intro hl hs hq
    obtain ⟨n, hn, hc, hst⟩ := honce
    have hdrop := List.drop_eq_nil_iff.1 ((hst hl hs).1.symm.trans hq)
    rw [hc, List.length_map, List.length_take]
    omega
  obtain ⟨past, window, fresh, hb, hp⟩ := hreplay
  have hpc : p.apply.pc ≠ .exited ∧ (p.apply.pc ≠ .down → p.apply.applyId = lastId past) := by
    rcases hp with ⟨hpc, -, -⟩ | ⟨hpc, -, happly⟩ | ⟨hpc, -, happly, -, -⟩ | ⟨happly, hi⟩
    · exact ⟨by simp [hpc], fun hn => absurd hpc hn⟩
    · exact ⟨by rcases hpc with hpc | hpc <;> simp [hpc], fun _ => happly⟩
    · exact ⟨by rcases hpc with hpc | hpc <;> simp [hpc], fun _ => happly⟩
    · exact ⟨by simp [hi.pc], fun _ => happly⟩
  refine ⟨hpc.1, ?_, hall⟩
  intro hdown happlied
  rw [hstored, hpc.2 hdown] at happlied
  rw [hstored] at hsees
  have hgroups : (H.syncLog parse ids).groups = (past ++ window) ++ fresh := by
    rw [hb.groups, List.append_assoc]
  have hle := length_le_of_reached hgroups hb.reached hsees.reached
  have hge := length_ge_of_applied hb.groups
    (by simpa [History.syncLog, length_queuedTxns] using hn) happlied
  -- nothing is left to be run again
  obtain rfl : window = [] := by
    rw [List.length_append] at hle
    exact List.length_eq_zero_iff.1 (by omega)
  rw [List.append_nil] at hle
  obtain ⟨t, hexec, hahead⟩ := hb.ahead
  have hpast : (H.syncLog parse ids).groups.take p.source.receiver.db.committed.length = past := by
    rw [hb.groups, ← Nat.le_antisymm hle hge, List.take_left]
  rw [← stmts_take_syncLog parse H ids, hpast, hexec]
  exact congrArg some hahead.eq.symm

/-- The invariant holds in every such run. -/
theorem tableInv_of_run (hsource : t₀.execAll (sourceStmts parse H.txns) = some final)
    {es : List TableEvent}
    (hm : StepMachine.Meets (TablePipeline.step H ids parse) (HarmlessStep H ids parse t₀)
      (.init H t₀) es)
    (hr : StepMachine.run (TablePipeline.step H ids parse) (.init H t₀) es = some p) :
    TableInv H ids parse t₀ p := by
  have hlog : t₀.execAll (H.syncLog parse ids).stmts = some final := by
    rw [stmts_syncLog]
    exact hsource
  exact StepMachine.run_invariant (fun _ _ _ hI hok h => tableInv_step hlog hI hok h)
    tableInv_init hm hr

/-- **The target converges to the source** in every run in which every stream starts at the first
transaction that is not committed locally and statements that are run once more are harmless. -/
theorem converged_of_run (hsource : t₀.execAll (sourceStmts parse H.txns) = some final)
    {es : List TableEvent}
    (hm : StepMachine.Meets (TablePipeline.step H ids parse) (HarmlessStep H ids parse t₀)
      (.init H t₀) es)
    (hr : StepMachine.run (TablePipeline.step H ids parse) (.init H t₀) es = some p) :
    Converged H ids parse t₀ p := (tableInv_of_run hsource hm hr).converged

end

/-! ## The row is deleted twice -/

/-- What the target makes of the statement of `deleteHistory`. -/
def deleteFirst : Bytes → KeyedStmt ℕ Unit ℕ := fun _ => .delete 1

/-- The row 1. -/
def oneRow : KeyedTable ℕ Unit ℕ := fun k => if k = 1 then some fun _ => 7 else none

/-- The process is killed behind the transaction, before it saves `apply_id`. -/
def deleteTwice : List TableEvent :=
  [.receive (.client (.connect .started)), .receive (.client (.wake 0 ⟨true, true⟩)),
    .receive (.data (envAt 0 true) ⟨true, true, true⟩), .receive (.client (.wake 0 ⟨true, true⟩)),
    .receive (.data (envAt 0 true) ⟨true, true, true⟩), .receive (.client (.wake 0 ⟨true, true⟩)),
    .receive (.data (envAt 0 true) ⟨true, true, true⟩), .apply .start, .declareCursor,
    .apply .fetch, .apply .fetch, .apply .fetch, .restart, .apply .start, .declareCursor,
    .apply .fetch, .apply .fetch, .apply .fetch]

theorem converged_deleteTwice :
    ∃ p, StepMachine.run (TablePipeline.step deleteHistory evenIds deleteFirst)
        (.init deleteHistory oneRow) deleteTwice = some p ∧
      p.apply.applyId = 6 ∧ Converged deleteHistory evenIds deleteFirst oneRow p := by
  have hr : (StepMachine.run (TablePipeline.step deleteHistory evenIds deleteFirst)
      (.init deleteHistory oneRow) deleteTwice).map (fun p => p.apply.applyId) = some 6 := by
    decide +kernel
  obtain ⟨p, hp, hid⟩ := Option.map_eq_some_iff.1 hr
  exact ⟨p, hp, hid, converged_of_run rfl (by decide +kernel) hp⟩

end RdsDbsync
