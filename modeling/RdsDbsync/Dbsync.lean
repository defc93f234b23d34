/-
  The whole program: the full copy, the receive thread and the apply thread of one process
  after another, between one source, its slot, and one target.
-/
import RdsDbsync.Crash
import RdsDbsync.ExactCopy

namespace RdsDbsync

open Bytes KeyedTable SqlLex

/-! ## The source -/

/-- The source: its tables, its transactions in commit order, and what a COPY reads after some of
them. -/
structure Source (kw : Bytes → Bool) (cat : Catalog) where
  config : SyncConfig TableName TableRow
  tables : List TableName
  txns : List (SourceTxn kw)
  /-- Where the stream of a slot starts that is created after some of the transactions. -/
  position : ℕ → ℕ
  ordered : (txns.map SourceTxn.stream).Pairwise fun a b => a.finish.data.lsn ≤ b.commitLsn
  position_le : ∀ n, ∀ t ∈ txns.drop n, position n ≤ t.commitLsn.toNat
  replicates : config.replicationSync = true
  runs : ∀ n t, txns[n]? = some t →
    SourceRun cat t.changes (fun table => ↑(config.rows table n)) fun table =>
      ↑(config.rows table (n + 1))
  admits : ∀ n table, cat.admits table ↑(config.rows table n)
  listed : ∀ n table, table ∉ tables → config.rows table n = []

namespace Source

variable {kw : Bytes → Bool} {cat : Catalog} (src : Source kw cat)

/-- The tables after `n` transactions. -/
def db (n : ℕ) : Database := fun table => ↑(src.config.rows table n)

/-- What a slot streams that is created after `n` transactions. -/
def history (n : ℕ) : History where
  txns := (src.txns.drop n).map SourceTxn.stream
  slot := src.position n
  ordered := by
    rw [List.map_drop]
    exact src.ordered.sublist (List.drop_sublist _ _)
  slot_le := by
    intro t ht
    obtain ⟨txn, htxn, rfl⟩ := List.mem_map.1 ht
    exact src.position_le n txn htxn

end Source

/-! ## The target -/

/-- The COPYs that are committed. -/
def loadCopies (keys : TableName → List Bytes) (t : KeyedRows)
    (copies : List (TableCopy TableName TableRow)) : KeyedRows :=
  copies.foldl (fun t copy => loadRows keys t copy.table copy.rows) t

/-- **COPYs of different tables**, each of which was empty. -/
theorem represents_loadCopies {keys : TableName → List Bytes} {t : KeyedRows} {db db' : Database}
    {copies : List (TableCopy TableName TableRow)} (hr : Represents keys t db)
    (honce : (copies.map TableCopy.table).Nodup) (hempty : ∀ copy ∈ copies, db copy.table = 0)
    (hkeyed : ∀ copy ∈ copies, (copy.rows.map (keyOf keys copy.table)).Nodup)
    (hcopied : ∀ copy ∈ copies, db' copy.table = ↑copy.rows)
    (hothers : ∀ table, table ∉ copies.map TableCopy.table → db' table = db table) :
    Represents keys (loadCopies keys t copies) db' := by
  induction copies generalizing t db with
  | nil =>
    obtain rfl : db' = db := funext fun table => hothers table List.not_mem_nil
    exact hr
  | cons copy copies ih =>
    rw [List.map_cons, List.nodup_cons] at honce
    refine ih (hr.loadRows (hempty copy List.mem_cons_self) (hkeyed copy List.mem_cons_self))
      honce.2 ?_ ?_ ?_ ?_
    · intro other hother
      rw [Function.update_of_ne, hempty other (List.mem_cons_of_mem _ hother)]
      intro htable
      exact honce.1 (htable ▸ List.mem_map_of_mem hother)
    · exact fun other hother => hkeyed other (List.mem_cons_of_mem _ hother)
    · exact fun other hother => hcopied other (List.mem_cons_of_mem _ hother)
    · intro table htable
      by_cases hcopy : table = copy.table
      · rw [hcopy, Function.update_self]
        exact hcopied copy List.mem_cons_self
      · rw [Function.update_of_ne hcopy]
        refine hothers table ?_
        rw [List.map_cons, List.mem_cons, not_or]
        exact ⟨hcopy, htable⟩

/-! ## The program -/

/-- The main thread with its workers, and the two decoder threads. -/
structure Dbsync where
  sync : SyncSystem TableName TableRow := {}
  decoder : TablePipeline RowKey Bytes (Option Bytes)

inductive DbsyncEvent where
  /-- A step of the main thread, of a worker, or of the source. -/
  | sync (e : SyncEvent TableName)
  /-- A step of a decoder thread. -/
  | decoder (e : TableEvent)

/-- The receive thread is created before the workers are waited for. -/
def MainPc.receives : MainPc → Bool
  | .waiting | .writingEnd | .syncing => true
  | _ => false

namespace Dbsync

section
variable {kw : Bytes → Bool} {cat : Catalog} (keys : TableName → List Bytes) (src : Source kw cat)
  (ids : RowIds) (parse : Bytes → KeyedStmt RowKey Bytes (Option Bytes))

/-- Nothing is copied, and there is no slot. -/
def init : Dbsync := { decoder := .init (src.history 0) fun _ => none }

/-- What the source does: it commits its transactions, and lists its tables. -/
def SourceDoes (s : Dbsync) : SyncEvent TableName → Prop
  | .sourceCommit => s.sync.commits < src.txns.length
  | .listTables (some tables) => tables.Perm src.tables
  | _ => True

/-- The threads that there are, and the messages that can be sent. -/
def DecoderDoes (s : Dbsync) : TableEvent → Prop
  | .receive (.data _ _) => s.sync.main.pc.receives ∧
      src.txns.length < s.decoder.source.queue.length + s.sync.commits
  | .receive _ => s.sync.main.pc.receives
  | .declareCursor | .apply _ => s.sync.main.pc = .syncing
  | .restart => False

instance (s : Dbsync) : ∀ e, Decidable (s.SourceDoes src e)
  | .sourceCommit => inferInstanceAs (Decidable (_ < _))
  | .listTables (some tables) => inferInstanceAs (Decidable (tables.Perm src.tables))
  | .listTables none | .worker _ _ | .start _ | .kill | .connect _ | .connectLocal _ | .readStatus _
  | .findSlot _ | .createSlot _ | .beginCopy _ | .exportSnapshot _ | .createThread | .writeStart _
  | .joined | .writeEnd _ => inferInstanceAs (Decidable True)

instance (s : Dbsync) : ∀ e, Decidable (s.DecoderDoes src e)
  | .receive (.data _ _) => inferInstanceAs (Decidable (_ ∧ _))
  | .receive (.client _) | .receive (.keepalive _ _ _ _) =>
    inferInstanceAs (Decidable (s.sync.main.pc.receives = true))
  | .declareCursor | .apply _ => inferInstanceAs (Decidable (_ = _))
  | .restart => inferInstanceAs (Decidable False)

/-- The decoder beside a step of the main thread: a slot may be created, COPYs may be committed, and
the process may end. -/
def follow (before after : SyncSystem TableName TableRow)
    (p : TablePipeline RowKey Bytes (Option Bytes)) : TablePipeline RowKey Bytes (Option Bytes) :=
  let source := match before.slot, after.slot with
    | none, some n => System.init (src.history n)
    | _, _ => p.source
  let target := { p.apply.target with
    saved := loadCopies keys p.apply.target.saved (after.target.drop before.target.length) }
  if before.main.pc ≠ .down ∧ after.main.pc = .down then
    ⟨source.restart, { p.apply with pc := .down, target := target.close }⟩
  else ⟨source, { p.apply with target }⟩

/-- One step. -/
def step (s : Dbsync) : DbsyncEvent → Option Dbsync
  | .sync e =>
    if s.SourceDoes src e then
      (s.sync.step src.config e).map fun sync => ⟨sync, follow keys src s.sync sync s.decoder⟩
    else none
  | .decoder e =>
    match s.sync.slot with
    | some n =>
      if s.DecoderDoes src e then
        (s.decoder.step (src.history n) ids parse e).map fun decoder => { s with decoder }
      else none
    | none => none

end

end Dbsync

/-! ## What the source was -/

namespace Source

variable {kw : Bytes → Bool} {cat : Catalog} (src : Source kw cat)

/-- The source makes its changes. -/
theorem sourceRun {n k : ℕ} (h : n + k ≤ src.txns.length) :
    SourceRun cat (sourceChanges ((src.txns.drop n).take k)) (src.db n) (src.db (n + k)) := by
  induction k with
  | zero => exact .nil _
  | succ k ih =>
    have hlt : n + k < src.txns.length := h
    have hget : (src.txns.drop n)[k]? = some src.txns[n + k] := by
      rw [List.getElem?_drop, List.getElem?_eq_getElem hlt]
    rw [List.take_add_one, hget, sourceChanges, List.flatMap_append, sourceRun_append]
    refine ⟨_, ih (Nat.le_of_succ_le h), ?_⟩
    rw [Option.toList_some, List.flatMap_singleton]
    exact src.runs _ _ (List.getElem?_eq_getElem hlt)

/-- All that it changes behind the slot. -/
theorem sourceRun_drop {n : ℕ} (h : n ≤ src.txns.length) :
    SourceRun cat (sourceChanges (src.txns.drop n)) (src.db n) (src.db src.txns.length) := by
  have hrun := src.sourceRun (Nat.add_sub_cancel' h).le
  rwa [Nat.add_sub_cancel' h, List.take_of_length_le (by rw [List.length_drop])] at hrun

/-- The tables have a key at all times. -/
theorem nodup_keyOf {keys : TableName → List Bytes} (hcat : cat.Keyed keys) (n : ℕ)
    (table : TableName) : ((src.config.rows table n).map (keyOf keys table)).Nodup :=
  Multiset.coe_nodup.1 (hcat table _ (src.admits n table))

/-- **An exact copy has the tables of the source** at the slot's position. -/
theorem represents_exactCopy {keys : TableName → List Bytes} (hcat : cat.Keyed keys)
    {s : SyncSystem TableName TableRow} {n : ℕ} (h : ExactCopy src.config s) (hend : s.fullEnd = true)
    (hslot : s.slot = some n) (htasks : s.endTasks.Perm src.tables) :
    Represents keys (loadCopies keys (fun _ => none) s.target) (src.db n) := by
  have hwhole := h.whole hend n hslot
  have hcopy : ∀ copy ∈ s.target, copy.rows = src.config.rows copy.table n := by
    intro copy hmem
    obtain ⟨t, -, rfl⟩ := List.mem_map.1 (hwhole.subset hmem)
    rfl
  refine represents_loadCopies represents_empty h.once (fun _ _ => rfl) ?_ ?_ ?_
  · intro copy hmem
    rw [hcopy copy hmem]
    exact src.nodup_keyOf hcat n _
  · intro copy hmem
    rw [hcopy copy hmem]
    rfl
  · intro table htable
    have hnot : table ∉ src.tables := by
      intro hmem
      refine htable (List.mem_map.2 ⟨⟨table, n, src.config.rows table n⟩, ?_, rfl⟩)
      exact hwhole.symm.subset (List.mem_map_of_mem (htasks.symm.subset hmem))
    rw [db, src.listed n table hnot]
    rfl

end Source

/-! ## What a step of the main thread or a worker does -/

section
variable {kw : Bytes → Bool} {cat : Catalog} {src : Source kw cat}
  {s s' : SyncSystem TableName TableRow} {e : SyncEvent TableName}

/-- What the decoder sees of a step: nothing, a slot, COPYs that are committed, or the end mark. -/
inductive Seen (s s' : SyncSystem TableName TableRow) : Prop
  | nothing (slot : s'.slot = s.slot) (target : s'.target = s.target)
    (ended : s'.fullEnd = s.fullEnd ∧ s'.endTasks = s.endTasks)
  | slot (none : s.slot = none) (some : s'.slot = some s.commits) (target : s'.target = s.target)
    (running : s.fullEnd = false ∧ s'.fullEnd = false) (pc : s'.main.pc ≠ .down)
  | copied (more : List (TableCopy TableName TableRow)) (slot : s'.slot = s.slot)
    (target : s'.target = s.target ++ more) (running : s.fullEnd = false ∧ s'.fullEnd = false)
    (pc : s'.main.pc = s.main.pc)
  | marked (slot : s'.slot = s.slot) (target : s'.target = s.target) (running : s.fullEnd = false)
    (ended : s'.fullEnd = true ∧ s'.endTasks = s.main.tasks) (pc : s.main.pc = .writingEnd)
    (next : s'.main.pc = .syncing)

theorem CleanInv.seen (hI : CleanInv src.config s) (h : s.step src.config e = some s') :
    Seen s s' := by
  cases SyncSystem.step_cases h with
  | sourceCommit | start | kill | quit | moved | exported | listed | createThread | writeStart
  | joined => exact .nothing rfl rfl ⟨rfl, rfl⟩
  | slotCreated pc hnext =>
    have hslot := SyncSystem.slot_of_createSlot h
    have hfull := hI.copy.unmarked hslot
    exact .slot hslot rfl rfl ⟨hfull, hfull⟩ (by rcases hnext with rfl | rfl <;> nofun)
  | writeEnd ok pc =>
    have hm := (hI.new.created (by rw [pc]; nofun) (by rw [pc]; nofun)).2
    have hfull := hI.copy.copying hm (by rw [pc]; nofun)
    cases hwritten : ok && s.main.localConn with
    | false => exact .nothing rfl rfl ⟨Bool.or_false _, rfl⟩
    | true =>
      refine .marked rfl rfl hfull ⟨Bool.or_true _, ?_⟩ pc rfl
      show s.endTasks ++ s.main.tasks = s.main.tasks
      rw [hI.copy.unended hfull, List.nil_append]
  | worker thread step =>
    have hfull := (hI.copy.working thread (CopyThread.step_cases step)).2.2
    exact .copied _ rfl rfl ⟨hfull, hfull⟩ rfl

/-- The list of tables is that of the source. -/
def ListsAll (src : Source kw cat) (s : SyncSystem TableName TableRow) : Prop :=
  s.main.pc.beforeThreads = false → s.main.pc ≠ .syncing → s.main.tasks.Perm src.tables

theorem listsAll_step {d : Dbsync} (hsource : d.SourceDoes src e)
    (hI : ListsAll src s) (h : s.step src.config e = some s') : ListsAll src s' := by
  intro hbefore hne
  cases SyncSystem.step_cases h with
  | sourceCommit | createThread | worker => exact hI hbefore hne
  | start | kill | quit | exported => cases hbefore
  | moved moves =>
    rcases moves.next with ⟨hb, -⟩ | hsyncing
    · cases hb.symm.trans hbefore
    · exact absurd hsyncing hne
  | slotCreated pc hnext =>
    rcases hnext with rfl | rfl
    · cases hbefore
    · exact absurd rfl hne
  | listed tasks => exact hsource
  | writeStart ok pc | joined pc => exact hI (by rw [pc]; rfl) (by rw [pc]; nofun)
  | writeEnd => exact absurd rfl hne

end

/-! ## The property -/

section
variable {kw : Bytes → Bool} {cat : Catalog} (keys : TableName → List Bytes) (src : Source kw cat)
  (ids : RowIds) (parse : Bytes → KeyedStmt RowKey Bytes (Option Bytes))

/-- **The target mirrors the source**: the apply thread does not give up.  When it has applied what
is stored, the tables of the target are those of the source after the transactions before the slot
and those that are stored; at the end of the stream, those are all. -/
structure DbsyncMirrors (s : Dbsync) (n : ℕ) : Prop where
  applies : s.decoder.apply.pc ≠ .exited
  tables : s.decoder.apply.pc ≠ .down →
    (∀ r ∈ readSyncSqls parse ids s.decoder.source.receiver.db, r.id ≤ s.decoder.apply.applyId) →
      Represents keys s.decoder.apply.target.saved
        (src.db (n + s.decoder.source.receiver.db.committed.length))
  all : s.decoder.source.receiver.pc.live → s.decoder.source.receiver.handler.conn = .streaming →
    s.decoder.source.queue = [] →
      n + s.decoder.source.receiver.db.committed.length = src.txns.length

/-- The copy is clean, streams start at the first transaction that is not committed locally, and the
apply thread is started when `full_s_end` is set. -/
def CleanStep (s : Dbsync) : DbsyncEvent → Prop
  | .sync e => CleanCopy s.sync e
  | .decoder (.receive e) =>
    ∀ n ∈ s.sync.slot, ResumesAfterCommitted (src.history n) s.decoder.source e
  | .decoder (.apply .start) => s.sync.fullEnd = true
  | .decoder _ => True

instance (s : Dbsync) : ∀ e, Decidable (CleanStep src s e)
  | .sync e => inferInstanceAs (Decidable (CleanCopy s.sync e))
  | .decoder (.receive e) =>
    inferInstanceAs (Decidable (∀ n ∈ s.sync.slot, ResumesAfterCommitted (src.history n) _ e))
  | .decoder (.apply .start) => inferInstanceAs (Decidable (_ = _))
  | .decoder (.apply (.declareCursor _)) | .decoder (.apply .fetch) | .decoder (.apply (.save _))
  | .decoder (.apply .kill) | .decoder .declareCursor | .decoder .restart =>
    inferInstanceAs (Decidable True)

/-- The tables that were copied to the target. -/
def Dbsync.copied (s : Dbsync) : KeyedRows := loadCopies keys (fun _ => none) s.sync.target

/-- The copy is clean; until its end is marked the apply thread has done nothing, and from then on
the decoder works on what was copied. -/
structure DbsyncInv (s : Dbsync) : Prop where
  clean : CleanInv src.config s.sync
  bound : s.sync.commits ≤ src.txns.length ∧ ∀ n, s.sync.slot = some n → n ≤ s.sync.commits
  lists : ListsAll src s.sync
  ended : s.sync.fullEnd = true → s.sync.endTasks.Perm src.tables
  once : ∀ n, s.sync.slot = some n → OnceInv (src.history n) s.decoder.source
  fresh : s.sync.fullEnd = false → s.decoder.apply = .init (s.copied keys)
  table : ∀ n, s.sync.slot = some n → s.sync.fullEnd = true →
    TableInv (src.history n) ids parse (s.copied keys) s.decoder
  cursor : ∀ n, s.sync.slot = some n → s.sync.fullEnd = true →
    CursorInv ((src.history n).syncLog parse ids) s.decoder.apply

end

section
variable {kw reserved : Bytes → Bool} {cat : Catalog} {keys : TableName → List Bytes}
  {src : Source kw cat} {ids : RowIds} {parse : Bytes → KeyedStmt RowKey Bytes (Option Bytes)}
  {s s' : Dbsync}

/-- Beside the steps of the main thread, the decoder goes on or is stopped. -/
theorem Dbsync.follow_same {before after : SyncSystem TableName TableRow}
    (p : TablePipeline RowKey Bytes (Option Bytes)) (hslot : after.slot = before.slot)
    (htarget : after.target = before.target) :
    Dbsync.follow keys src before after p = p ∨ Dbsync.follow keys src before after p =
      ⟨p.source.restart, { p.apply with pc := .down, target := p.apply.target.close }⟩ := by
  unfold follow
  rw [hslot, htarget, List.drop_length]
  have hsource : (match before.slot, before.slot with
      | none, some n => System.init (src.history n)
      | _, _ => p.source) = p.source := by
    cases before.slot <;> rfl
  rw [hsource]
  split_ifs
  · exact Or.inr rfl
  · exact Or.inl rfl

/-- Beside the creation of a slot. -/
theorem Dbsync.follow_slot {before after : SyncSystem TableName TableRow} {n : ℕ}
    (p : TablePipeline RowKey Bytes (Option Bytes)) (hnone : before.slot = none)
    (hsome : after.slot = some n) (htarget : after.target = before.target)
    (hpc : after.main.pc ≠ .down) :
    Dbsync.follow keys src before after p = { p with source := System.init (src.history n) } := by
  unfold follow
  rw [hnone, hsome, htarget, List.drop_length, if_neg fun h => hpc h.2]
  rfl

/-- Beside a COMMIT of a worker. -/
theorem Dbsync.follow_copied {before after : SyncSystem TableName TableRow}
    {more : List (TableCopy TableName TableRow)} {source : System} {t : KeyedRows}
    (hslot : after.slot = before.slot) (htarget : after.target = before.target ++ more)
    (hpc : after.main.pc = before.main.pc) :
    Dbsync.follow keys src before after ⟨source, .init t⟩ =
      ⟨source, .init (loadCopies keys t more)⟩ := by
  unfold follow
  rw [hslot, htarget, List.drop_left, hpc, if_neg fun h => h.1 h.2]
  cases before.slot <;> rfl

theorem loadCopies_append (t : KeyedRows) (copies more : List (TableCopy TableName TableRow)) :
    loadCopies keys t (copies ++ more) = loadCopies keys (loadCopies keys t copies) more :=
  List.foldl_append

/-! ## Steps of the main thread and of the workers -/

/-- The decoder is stopped. -/
theorem DbsyncInv.stopped (hI : DbsyncInv keys src ids parse s) : DbsyncInv keys src ids parse
    { s with decoder := ⟨s.decoder.source.restart,
      { s.decoder.apply with pc := .down, target := s.decoder.apply.target.close }⟩ } where
  clean := hI.clean
  bound := hI.bound
  lists := hI.lists
  ended := hI.ended
  once n hn := (hI.once n hn).restart
  fresh hfull := by
    dsimp only
    rw [hI.fresh hfull]
    rfl
  table n hn hfull := (hI.table n hn hfull).restart
  cursor n hn hfull := (hI.cursor n hn hfull).congr rfl rfl

theorem bound_step {e : SyncEvent TableName} {sync : SyncSystem TableName TableRow}
    (hsource : s.SourceDoes src e)
    (hI : s.sync.commits ≤ src.txns.length ∧ ∀ n, s.sync.slot = some n → n ≤ s.sync.commits)
    (h : s.sync.step src.config e = some sync) :
    sync.commits ≤ src.txns.length ∧ ∀ n, sync.slot = some n → n ≤ sync.commits := by
  cases SyncSystem.step_cases h with
  | sourceCommit => exact ⟨hsource, fun n hn => (hI.2 n hn).trans (Nat.le_succ _)⟩
  | slotCreated =>
    refine ⟨hI.1, ?_⟩
    rintro _ ⟨⟩
    exact le_rfl
  | _ => exact hI

/-- **A step of the main thread, of a worker, or of the source** keeps the invariant. -/
theorem DbsyncInv.sync {e : SyncEvent TableName} {sync : SyncSystem TableName TableRow}
    (hI : DbsyncInv keys src ids parse s) (hok : CleanCopy s.sync e)
    (hsource : s.SourceDoes src e) (h : s.sync.step src.config e = some sync) :
    DbsyncInv keys src ids parse ⟨sync, Dbsync.follow keys src s.sync sync s.decoder⟩ := by
  have hclean := cleanInv_step src.replicates hI.clean hok h
  have hbound := bound_step hsource hI.bound h
  have hlists := listsAll_step hsource hI.lists h
  cases hI.clean.seen h with
  | nothing slot target ended =>
    have hcopied : loadCopies keys (fun _ => none) sync.target = s.copied keys := by
      rw [target]
      rfl
    have hkeep : ∀ decoder, DbsyncInv keys src ids parse ⟨s.sync, decoder⟩ →
        DbsyncInv keys src ids parse ⟨sync, decoder⟩ := by
      intro decoder hI
      obtain ⟨hfullEnd, htasks⟩ := ended
      refine ⟨hclean, hbound, hlists, ?_, ?_, ?_, ?_, ?_⟩
      · intro hfull
        dsimp only
        rw [htasks]
        exact hI.ended (hfullEnd ▸ hfull)
      · exact fun n hn => hI.once n (slot ▸ hn)
      · intro hfull
        rw [Dbsync.copied, hcopied]
        exact hI.fresh (hfullEnd ▸ hfull)
      · intro n hn hfull
        rw [Dbsync.copied, hcopied]
        exact hI.table n (slot ▸ hn) (hfullEnd ▸ hfull)
      · exact fun n hn hfull => hI.cursor n (slot ▸ hn) (hfullEnd ▸ hfull)
    rcases Dbsync.follow_same s.decoder slot target with hsame | hstopped
    · rw [hsame]
      exact hkeep _ hI
    · rw [hstopped]
      exact hkeep _ hI.stopped
  | slot none some target running pc =>
    rw [Dbsync.follow_slot s.decoder none some target pc]
    obtain ⟨hrunning, hrunning'⟩ := running
    have hnot : ¬ sync.fullEnd = true := by
      rw [hrunning']
      nofun
    refine ⟨hclean, hbound, hlists, fun hfull => absurd hfull hnot, ?_, ?_,
      fun _ _ hfull => absurd hfull hnot, fun _ _ hfull => absurd hfull hnot⟩
    · intro n hn
      obtain rfl := Option.some.inj (some.symm.trans hn)
      exact onceInv_init _
    · intro _
      rw [Dbsync.copied, target]
      exact hI.fresh hrunning
  | copied more slot target running pc =>
    obtain ⟨hrunning, hrunning'⟩ := running
    have hnot : ¬ sync.fullEnd = true := by
      rw [hrunning']
      nofun
    have hdecoder : s.decoder = ⟨s.decoder.source, .init (s.copied keys)⟩ := by
      rw [← hI.fresh hrunning]
    rw [hdecoder, Dbsync.follow_copied slot target pc]
    refine ⟨hclean, hbound, hlists, fun hfull => absurd hfull hnot,
      fun n hn => hI.once n (slot ▸ hn), ?_,
      fun _ _ hfull => absurd hfull hnot, fun _ _ hfull => absurd hfull hnot⟩
    intro _
    show _ = Applier.init (loadCopies keys _ sync.target)
    rw [target, loadCopies_append]
    rfl
  | marked slot target running ended pc next =>
    obtain ⟨hfullEnd, htasks⟩ := ended
    have hdecoder : DbsyncInv keys src ids parse
        ⟨s.sync, Dbsync.follow keys src s.sync sync s.decoder⟩ := by
      rcases Dbsync.follow_same s.decoder slot target with hsame | hstopped
      · rw [hsame]
        exact hI
      · rw [hstopped]
        exact hI.stopped
    generalize Dbsync.follow keys src s.sync sync s.decoder = decoder at hdecoder ⊢
    have hcopied : loadCopies keys (fun _ => none) sync.target = s.copied keys := by
      rw [target]
      rfl
    have happly : decoder.apply = .init (s.copied keys) := hdecoder.fresh running
    refine ⟨hclean, hbound, hlists, ?_, fun n hn => hdecoder.once n (slot ▸ hn), ?_, ?_, ?_⟩
    · intro _
      dsimp only
      rw [htasks]
      exact hI.lists (by rw [pc]; rfl) (by rw [pc]; nofun)
    · intro hfull
      cases hfullEnd.symm.trans hfull
    · intro n hn _
      rw [Dbsync.copied, hcopied]
      have hfresh : TableInv (src.history n) ids parse (s.copied keys)
          ⟨decoder.source, .init (s.copied keys)⟩ := tableInv_fresh (hdecoder.once n (slot ▸ hn))
      rwa [← happly] at hfresh
    · intro n hn _
      refine cursorInv_nil _ ?_
      dsimp only
      rw [happly]
      rfl

/-! ## Steps of the decoder -/

theorem Rerunnable.drop {txns : List (SourceTxn kw)} (h : Rerunnable txns) (n : ℕ) :
    Rerunnable (txns.drop n) where
  inserts t ht := h.inserts t (List.mem_of_mem_drop ht)
  updates c hc := by
    obtain ⟨t, ht, hmem⟩ := List.mem_flatMap.1 hc
    exact h.updates c (List.mem_flatMap.2 ⟨t, List.mem_of_mem_drop ht, hmem⟩)

/-- **What was copied** are the tables of the source at the slot's position. -/
theorem DbsyncInv.represents (hI : DbsyncInv keys src ids parse s) (hcat : cat.Keyed keys) {n : ℕ}
    (hslot : s.sync.slot = some n) (hfull : s.sync.fullEnd = true) :
    Represents keys (s.copied keys) (src.db n) :=
  src.represents_exactCopy hcat hI.clean.exactCopy hfull hslot (hI.ended hfull)

/-- Before the end of the copy is marked, only the receive thread does anything. -/
theorem DbsyncInv.receives (hI : DbsyncInv keys src ids parse s) {e : TableEvent}
    {decoder : TablePipeline RowKey Bytes (Option Bytes)} {n : ℕ}
    (hok : CleanStep src s (.decoder e)) (hdoes : s.DecoderDoes src e)
    (hfull : s.sync.fullEnd = false) (h : s.decoder.step (src.history n) ids parse e = some decoder) :
    decoder.apply = s.decoder.apply ∧
      ∃ e', e = .receive e' ∧ s.decoder.source.step (src.history n) e' = some decoder.source := by
  have happly := hI.fresh hfull
  cases e with
  | receive e =>
    obtain ⟨source, hsource, rfl⟩ := Option.map_eq_some_iff.1 h
    exact ⟨rfl, e, rfl, hsource⟩
  | declareCursor =>
    have hpc := (Option.ite_none_right_eq_some.1 h).1
    rw [happly] at hpc
    cases hpc
  | apply e =>
    cases e with
    | start => cases hfull.symm.trans hok
    | declareCursor => cases h
    | fetch | save | kill =>
      obtain ⟨apply, hstep, -⟩ := Option.map_eq_some_iff.1 h
      rw [happly] at hstep
      cases hstep
  | restart => exact hdoes.elim

/-- **A step of the decoder** keeps the invariant. -/
theorem DbsyncInv.decoder (hkw : ∀ w, reserved w → kw w) (hcat : cat.Keyed keys)
    (hparse : ParsesKeyed reserved keys parse)
    (hmirror : ∀ c ∈ sourceChanges src.txns, Mirrorable kw reserved cat keys c.rel c.change)
    (hrerunnable : Rerunnable src.txns) (hI : DbsyncInv keys src ids parse s) {e : TableEvent}
    {decoder : TablePipeline RowKey Bytes (Option Bytes)} {n : ℕ} (hslot : s.sync.slot = some n)
    (hok : CleanStep src s (.decoder e)) (hdoes : s.DecoderDoes src e)
    (h : s.decoder.step (src.history n) ids parse e = some decoder) :
    DbsyncInv keys src ids parse { s with decoder } := by
  cases hfull : s.sync.fullEnd with
  | false =>
    obtain ⟨happly, e, rfl, hsource⟩ := hI.receives hok hdoes hfull h
    have hnot : ¬ s.sync.fullEnd = true := by
      rw [hfull]
      nofun
    refine { hI with
      once := ?_
      fresh := fun hfull => happly.trans (hI.fresh hfull)
      table := fun _ _ hfull => absurd hfull hnot
      cursor := fun _ _ hfull => absurd hfull hnot }
    intro m hm
    obtain rfl := Option.some.inj (hslot.symm.trans hm)
    exact onceInv_step_any (hI.once n hslot) (hok n hslot) hsource
  | true =>
    have hr₀ := hI.represents hcat hslot hfull
    have hrun := src.sourceRun_drop ((hI.bound.2 n hslot).trans hI.bound.1)
    have hmirror : ∀ c ∈ sourceChanges (src.txns.drop n),
        Mirrorable kw reserved cat keys c.rel c.change := by
      intro c hc
      obtain ⟨t, ht, hmem⟩ := List.mem_flatMap.1 hc
      exact hmirror c (List.mem_flatMap.2 ⟨t, List.mem_of_mem_drop ht, hmem⟩)
    obtain ⟨final, hfinal, -⟩ := execAll_rows hkw hcat hparse hmirror hr₀ hrun
    have hH : (src.history n).txns = (src.txns.drop n).map SourceTxn.stream := rfl
    rw [← sourceStmts_stream, ← hH, ← stmts_syncLog parse (src.history n) ids] at hfinal
    have hreplayable :=
      (hrerunnable.drop n).replayable hkw hcat hparse hmirror hrun hr₀ hH ids
    have hresumes : StreamsResume (src.history n) s.decoder e := by
      cases e with
      | receive e => exact hok n hslot
      | declareCursor | apply | restart => trivial
    have hharmless : HarmlessStep (src.history n) ids parse (s.copied keys) s.decoder e := by
      cases e with
      | receive e => exact hok n hslot
      | apply e => exact hreplayable.harmless (hI.cursor n hslot hfull) e
      | declareCursor | restart => trivial
    have htable := tableInv_step hfinal (hI.table n hslot hfull) hharmless h
    have hcrash := crashInv_step ⟨hI.once n hslot, hI.cursor n hslot hfull⟩ hresumes h
    refine { hI with once := ?_, fresh := ?_, table := ?_, cursor := ?_ }
    · intro m hm
      obtain rfl := Option.some.inj (hslot.symm.trans hm)
      exact htable.once
    · intro hnot
      cases hfull.symm.trans hnot
    · intro m hm _
      obtain rfl := Option.some.inj (hslot.symm.trans hm)
      exact htable
    · intro m hm _
      obtain rfl := Option.some.inj (hslot.symm.trans hm)
      exact hcrash.cursor

/-! ## Runs -/

theorem dbsyncInv_init : DbsyncInv keys src ids parse (.init src) where
  clean := cleanInv_init _
  bound := ⟨Nat.zero_le _, nofun⟩
  lists := nofun
  ended := nofun
  once := nofun
  fresh _ := rfl
  table := nofun
  cursor := nofun

/-- **One step of the program** keeps the invariant. -/
theorem dbsyncInv_step (hkw : ∀ w, reserved w → kw w) (hcat : cat.Keyed keys)
    (hparse : ParsesKeyed reserved keys parse)
    (hmirror : ∀ c ∈ sourceChanges src.txns, Mirrorable kw reserved cat keys c.rel c.change)
    (hrerunnable : Rerunnable src.txns) {e : DbsyncEvent} (hI : DbsyncInv keys src ids parse s)
    (hok : CleanStep src s e) (h : s.step keys src ids parse e = some s') :
    DbsyncInv keys src ids parse s' := by
  cases e with
  | sync e =>
    obtain ⟨hsource, h⟩ := Option.ite_none_right_eq_some.1 h
    obtain ⟨sync, hstep, rfl⟩ := Option.map_eq_some_iff.1 h
    exact hI.sync hok hsource hstep
  | decoder e =>
    cases hslot : s.sync.slot with
    | none => simp [Dbsync.step, hslot] at h
    | some n =>
      simp only [Dbsync.step, hslot] at h
      obtain ⟨hdoes, h⟩ := Option.ite_none_right_eq_some.1 h
      obtain ⟨decoder, hstep, rfl⟩ := Option.map_eq_some_iff.1 h
      exact hI.decoder hkw hcat hparse hmirror hrerunnable hslot hok hdoes hstep

theorem DbsyncInv.mirrors (hkw : ∀ w, reserved w → kw w) (hcat : cat.Keyed keys)
    (hparse : ParsesKeyed reserved keys parse)
    (hmirror : ∀ c ∈ sourceChanges src.txns, Mirrorable kw reserved cat keys c.rel c.change)
    (hI : DbsyncInv keys src ids parse s) (hfull : s.sync.fullEnd = true) :
    ∃ n, s.sync.slot = some n ∧ DbsyncMirrors keys src ids parse s n := by
  obtain ⟨n, hslot⟩ : ∃ n, s.sync.slot = some n := by
    refine Option.ne_none_iff_exists'.1 ?_
    intro hnone
    cases (hI.clean.copy.unmarked hnone).symm.trans hfull
  obtain ⟨happlies, htables, hall⟩ := (hI.table n hslot hfull).converged
  have hn : n ≤ src.txns.length := (hI.bound.2 n hslot).trans hI.bound.1
  have hlength : (src.history n).txns.length = src.txns.length - n := by
    rw [Source.history, List.length_map, List.length_drop]
  refine ⟨n, hslot, happlies, ?_, ?_⟩
  · intro hdown happlied
    have hexec := htables hdown happlied
    have hstored : n + s.decoder.source.receiver.db.committed.length ≤ src.txns.length := by
      obtain ⟨m, hm, hc, -⟩ := hI.once n hslot
      rw [hc, List.length_map, List.length_take, Nat.min_eq_left hm]
      omega
    generalize s.decoder.source.receiver.db.committed.length = k at hexec hstored ⊢
    rw [Source.history, ← List.map_take, sourceStmts_stream] at hexec
    obtain ⟨t, ht, hrepresents⟩ := execAll_rows hkw hcat hparse (by
      intro c hc
      obtain ⟨t, ht, hmem⟩ := List.mem_flatMap.1 hc
      refine hmirror c (List.mem_flatMap.2 ⟨t, ?_, hmem⟩)
      exact List.mem_of_mem_drop (List.mem_of_mem_take ht))
      (hI.represents hcat hslot hfull) (src.sourceRun hstored)
    obtain rfl := Option.some.inj (ht.symm.trans hexec)
    exact hrepresents
  · intro hl hs hq
    rw [hall hl hs hq, hlength, Nat.add_sub_cancel' hn]

/-- **The program mirrors the source**: in every sequence of processes, with every interleaving of
the source, the workers and the decoder threads and every crash, in which the full copy is clean,
the streams resume where they should, and the apply thread waits for `full_s_end`, the target has
the tables that the source had after the transactions that were applied.  Every change can be
mirrored, in each transaction only the first change inserts a row, and no update changes a key. -/
theorem dbsyncMirrors_of_run (hkw : ∀ w, reserved w → kw w) (hcat : cat.Keyed keys)
    (hparse : ParsesKeyed reserved keys parse)
    (hmirror : ∀ c ∈ sourceChanges src.txns, Mirrorable kw reserved cat keys c.rel c.change)
    (hrerunnable : Rerunnable src.txns) {es : List DbsyncEvent}
    (hm : StepMachine.Meets (Dbsync.step keys src ids parse) (CleanStep src) (.init src) es)
    (hr : StepMachine.run (Dbsync.step keys src ids parse) (.init src) es = some s)
    (hfull : s.sync.fullEnd = true) :
    ∃ n, s.sync.slot = some n ∧ DbsyncMirrors keys src ids parse s n :=
  DbsyncInv.mirrors hkw hcat hparse hmirror (StepMachine.run_invariant
    (fun _ _ _ hI hok h => dbsyncInv_step hkw hcat hparse hmirror hrerunnable hI hok h)
    dbsyncInv_init hm hr) hfull

end

/-! ## A row of the table `e` is copied, and replaced -/

/-- The row after the first transactions. -/
def textE (n : ℕ) : Bytes := if n = 0 then ascii "test" else ascii "it's"

/-- One row, which the first transaction replaces. -/
def rowsE (table : TableName) (n : ℕ) : List TableRow :=
  if table = tableE.table then [rowOne (textE n)] else []

theorem coe_rowsE (n : ℕ) : (fun table => ↑(rowsE table n) : Database) = databaseE (textE n) := by
  funext table
  rw [rowsE, databaseE]
  split_ifs <;> rfl

def sourceE : Source (fun _ => false) catalogE where
  config := { rows := rowsE, srcIsGreenplum := false, srcVersion := 90600, descIsGreenplum := false }
  tables := [tableE.table]
  txns := [replaceTxn]
  position _ := 0
  ordered := replaceHistory.ordered
  position_le _ _ _ := Nat.zero_le _
  replicates := rfl
  runs := by
    intro n t ht
    cases n with
    | zero =>
      obtain rfl : replaceTxn = t := Option.some.inj ht
      have hrun := sourceRun_replaceTxn
      rwa [sourceChanges, List.flatMap_singleton, show ascii "test" = textE 0 from rfl,
        show ascii "it's" = textE (0 + 1) from rfl, ← coe_rowsE, ← coe_rowsE] at hrun
    | succ n => cases ht
  admits := by
    intro n table
    refine decide_eq_true ?_
    dsimp only
    rw [rowsE]
    split_ifs
    · exact Multiset.nodup_singleton _
    · exact Multiset.nodup_zero
  listed := by
    intro n table htable
    rw [List.mem_singleton] at htable
    exact if_neg htable

/-- The first process copies the table, while the row is replaced on the source. -/
def copyE : List DbsyncEvent :=
  List.map .sync ([.start 1, .connect true, .connectLocal true, .readStatus true, .findSlot true,
    .createSlot true, .beginCopy true, .listTables (some [tableE.table]), .createThread,
    .writeStart true] ++ List.map (.worker 0) [.connect true, .take, .beginOrigin .ok,
      .beginTarget .ok, .copyTo true]) ++
  [.sync .sourceCommit, .decoder (.receive (.client (.connect .started))),
    .decoder (.receive (.client (.wake 0 ⟨true, true⟩))),
    .decoder (.receive (.data (envAt 0 true) ⟨true, true, true⟩))] ++
  List.map .sync (List.map (.worker 0) [.copyFrom true, .row true, .noRow .done, .putEnd true,
    .getResult true, .finishOrigin true, .finishTarget .ok, .take] ++ [.joined, .writeEnd true])

/-- It is killed, and the next process receives the transaction again and applies it. -/
def applyE : List DbsyncEvent :=
  List.map .sync [.kill, .start 1, .connect true, .connectLocal true, .readStatus true,
    .findSlot true] ++
  List.map .decoder [.receive (.client (.connect .started)),
    .receive (.client (.wake 0 ⟨true, true⟩)), .receive (.data (envAt 0 true) ⟨true, true, true⟩),
    .receive (.client (.wake 0 ⟨true, true⟩)), .receive (.data (envAt 0 true) ⟨true, true, true⟩),
    .receive (.client (.wake 0 ⟨true, true⟩)), .receive (.data (envAt 0 true) ⟨true, true, true⟩),
    .receive (.client (.wake 0 ⟨true, true⟩)), .receive (.data (envAt 0 true) ⟨true, true, true⟩),
    .apply .start, .declareCursor, .apply .fetch, .apply .fetch, .apply .fetch, .apply .fetch]

theorem dbsyncMirrors_sourceE :
    ∃ s, StepMachine.run (Dbsync.step keysE sourceE evenIds parseE) (.init sourceE)
        (copyE ++ applyE) = some s ∧ s.decoder.apply.applyId = 8 ∧
      ∃ n, s.sync.slot = some n ∧ DbsyncMirrors keysE sourceE evenIds parseE s n := by
  have hr : (StepMachine.run (Dbsync.step keysE sourceE evenIds parseE) (.init sourceE)
      (copyE ++ applyE)).map (fun s => (s.sync.fullEnd, s.decoder.apply.applyId)) =
        some (true, 8) := by
    decide +kernel
  have hm : StepMachine.Meets (Dbsync.step keysE sourceE evenIds parseE) (CleanStep sourceE)
      (.init sourceE) (copyE ++ applyE) := by
    decide +kernel
  obtain ⟨s, hs, h⟩ := Option.map_eq_some_iff.1 hr
  obtain ⟨hfull, hid⟩ := Prod.mk.inj h
  exact ⟨s, hs, hid, dbsyncMirrors_of_run (fun _ h => h) keyed_catalogE parsesKeyed_parseE
    mirrorable_replaceTxn rerunnable_replaceTxn hm hs hfull⟩

end RdsDbsync
