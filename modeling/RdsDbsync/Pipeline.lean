/-
  The two threads of the decoder and the table between them: the receive thread writes
  `sync_sqls` from the stream while the apply thread reads it to the target.

  `deliveredInOrder_of_run`: the target gets the transactions of the source in commit order
  and without a gap, in every interleaving of the two threads, whatever the local database
  and the target answer and wherever the process is killed.
-/
import Mathlib.Order.Monotone.Basic
import RdsDbsync.ApplyOrder
import RdsDbsync.ExactlyOnce
import RdsDbsync.OnlyStatements

namespace RdsDbsync

open Bytes LogReader

/-! ## The table between the threads -/

/-- The `strcmp` of a row with `begin;` and `commit;`. -/
def QueuedSql.ofText (text : Bytes) : QueuedSql Bytes :=
  if text = ascii "begin;" then .begin
  else if text = ascii "commit;" then .commit
  else .statement text

/-- The values of the sequence `sync_sqls_id_seq` that the committed rows got.  Values may be
lost. -/
structure RowIds where
  id : ℕ → ℕ
  strictMono : StrictMono id
  pos : 0 < id 0

/-- The rows from the `i`-th on. -/
def readRows (ids : RowIds) : ℕ → List Bytes → List (QueuedRow Bytes)
  | _, [] => []
  | i, text :: texts => ⟨ids.id i, .ofText text⟩ :: readRows ids (i + 1) texts

section
universe u
variable {E : Type u}

/-- The groups that rows are made of, the `begin;` and the statements of the first one having been
read. -/
def cutRows : Option (ℕ × List (ℕ × E)) → List (QueuedRow E) → Option (List (QueuedGroup E))
  | none, [] => some []
  | some _, [] => none
  | none, ⟨id, .begin⟩ :: rows => cutRows (some (id, [])) rows
  | none, _ :: _ => none
  | some (beginId, statements), ⟨id, .statement e⟩ :: rows =>
    cutRows (some (beginId, statements ++ [(id, e)])) rows
  | some (beginId, statements), ⟨id, .commit⟩ :: rows =>
    (cutRows none rows).map (⟨beginId, statements, id⟩ :: ·)
  | some _, ⟨_, .begin⟩ :: _ => none

end

/-! ## The process -/

/-- The receive thread with the server it streams from, and the apply thread with its target. -/
structure Pipeline where
  source : System
  apply : ApplyLoop Bytes := {}

inductive PipelineEvent where
  /-- A step of the receive thread or its server. -/
  | receive (e : StreamEvent)
  /-- A step of the apply thread. -/
  | apply (e : LoopEvent Bytes)
  /-- The process is killed, and another one is started. -/
  | restart

/-- The receive thread is started again on the table that the last one has left. -/
def System.restart (s : System) : System :=
  { s with receiver := { db := s.receiver.db.rollback } }

namespace Pipeline

variable (H : History) (ids : RowIds)

def init : Pipeline := { source := .init H }

/-- The apply thread sees the rows that are committed. -/
def readLog (db : TxLog Bytes) : Option (List (QueuedGroup Bytes)) :=
  cutRows none (readRows ids 0 db.committed.flatten)

/-- One step of either thread. -/
def step (p : Pipeline) : PipelineEvent → Option Pipeline
  | .receive e => do
    let source ← p.source.step H e
    let log ← readLog ids source.receiver.db
    some ⟨source, { p.apply with log }⟩
  | .apply (.receive _) => none
  | .apply e => (p.apply.step e).map fun apply => { p with apply }
  | .restart =>
    some ⟨p.source.restart, { p.apply with pc := .down, target := p.apply.target.close }⟩

/-- The stream is read to its end, and the apply thread has applied what was read. -/
structure CaughtUp (p : Pipeline) : Prop where
  live : p.source.receiver.pc.live
  conn : p.source.receiver.handler.conn = .streaming
  queue : p.source.queue = []
  running : p.apply.pc.running = true
  applied : ∀ r ∈ queuedRows p.apply.log, r.id ≤ p.apply.applyId

end Pipeline

/-! ## The property -/

/-- The statements of a transaction. -/
def StreamTxn.statements (t : StreamTxn) : List Bytes := t.changes.map StreamItem.row

/-- **Delivered in order**: every transaction of the target is one of the source, but for
statements that were skipped at its head, and a transaction may be applied once more after a
restart; each comes behind all that were committed before it on the source.  Once the threads have
caught up, none is missing. -/
def DeliveredInOrder (H : History) (p : Pipeline) : Prop :=
  ∃ ks : List ℕ, InOrder ks ∧
    List.Forall₂ (fun k tx => ∃ t, H.txns[k]? = some t ∧ tx.2 <:+ t.statements) ks
      p.apply.target.committed ∧
    (p.CaughtUp → ∀ k < H.txns.length, k ∈ ks)

/-- When a stream starts, the server goes back to the first transaction that is not committed
locally. -/
def StreamResumes (H : History) (p : Pipeline) : PipelineEvent → Prop
  | .receive e => ResumesAfterCommitted H p.source e
  | _ => True

instance (H : History) (p : Pipeline) : ∀ e, Decidable (StreamResumes H p e)
  | .receive e => inferInstanceAs (Decidable (ResumesAfterCommitted H p.source e))
  | .apply _ | .restart => inferInstanceAs (Decidable True)

/-! ## Rows and groups -/

section
universe u
variable {E : Type u}

theorem cutRows_statements (beginId : ℕ) (done left : List (ℕ × E)) (id : ℕ)
    (rest : List (QueuedRow E)) :
    cutRows (some (beginId, done))
        (left.map (fun s => ⟨s.1, .statement s.2⟩) ++ ⟨id, .commit⟩ :: rest) =
      (cutRows none rest).map (⟨beginId, done ++ left, id⟩ :: ·) := by
  induction left generalizing done with
  | nil => simp [cutRows]
  | cons st left ih =>
    rw [List.map_cons, List.cons_append, cutRows, ih, List.append_assoc]
    rfl

/-- **The rows of groups are cut into the groups.** -/
theorem cutRows_queuedRows (groups : List (QueuedGroup E)) :
    cutRows none (queuedRows groups) = some groups := by
  induction groups with
  | nil => rfl
  | cons g groups ih =>
    have hrows : queuedRows (g :: groups) = ⟨g.beginId, .begin⟩ ::
        (g.statements.map (fun s => ⟨s.1, .statement s.2⟩) ++
          ⟨g.commitId, .commit⟩ :: queuedRows groups) := by
      simp [queuedRows, QueuedGroup.rows, QueuedGroup.tailRows]
    rw [hrows, cutRows, cutRows_statements, ih]
    rfl

end

section
variable {ids : RowIds} {i : ℕ}

theorem readRows_append (a b : List Bytes) :
    readRows ids i (a ++ b) = readRows ids i a ++ readRows ids (i + a.length) b := by
  induction a generalizing i with
  | nil => rfl
  | cons text a ih =>
    simp only [List.cons_append, readRows, ih, List.length_cons]
    rw [Nat.add_assoc, Nat.add_comm 1]

theorem le_of_mem_readRows {texts : List Bytes} {r : QueuedRow Bytes}
    (h : r ∈ readRows ids i texts) : ids.id i ≤ r.id := by
  induction texts generalizing i with
  | nil => simp [readRows] at h
  | cons text texts ih =>
    rcases List.mem_cons.1 h with rfl | h
    · exact le_rfl
    · exact (ids.strictMono (Nat.lt_succ_self i)).le.trans (ih h)

/-- The rows are in the order of their ids. -/
theorem inIdOrder_readRows (texts : List Bytes) : InIdOrder (readRows ids i texts) := by
  constructor
  · induction texts generalizing i with
    | nil => exact .nil
    | cons text texts ih =>
      refine List.pairwise_cons.2 ⟨?_, ih⟩
      intro r hr
      exact (ids.strictMono (Nat.lt_succ_self i)).trans_le (le_of_mem_readRows hr)
  · intro r hr
    exact (ids.pos.trans_le (ids.strictMono.monotone (Nat.zero_le i))).trans_le
      (le_of_mem_readRows hr)

/-- The statements of a transaction with their ids. -/
def numbered (ids : RowIds) : ℕ → List Bytes → List (ℕ × Bytes)
  | _, [] => []
  | i, text :: texts => (ids.id i, text) :: numbered ids (i + 1) texts

theorem map_snd_numbered (texts : List Bytes) : (numbered ids i texts).map Prod.snd = texts := by
  induction texts generalizing i with
  | nil => rfl
  | cons text texts ih => rw [numbered, List.map_cons, ih]

/-- The group of a transaction whose `begin;` is the `i`-th row. -/
def StreamTxn.queued (ids : RowIds) (i : ℕ) (t : StreamTxn) : QueuedGroup Bytes where
  beginId := ids.id i
  statements := numbered ids (i + 1) t.statements
  commitId := ids.id (i + 1 + t.statements.length)

/-- The groups of transactions, whose first row is the `i`-th. -/
def queuedTxns (ids : RowIds) : ℕ → List StreamTxn → List (QueuedGroup Bytes)
  | _, [] => []
  | i, t :: ts => t.queued ids i :: queuedTxns ids (i + t.rows.length) ts

theorem effects_queued (t : StreamTxn) : (t.queued ids i).effects = t.statements :=
  map_snd_numbered _

theorem getElem?_queuedTxns {ts : List StreamTxn} {k : ℕ} {g : QueuedGroup Bytes}
    (h : (queuedTxns ids i ts)[k]? = some g) : ∃ t, ts[k]? = some t ∧ g.effects = t.statements := by
  induction ts generalizing i k with
  | nil => simp [queuedTxns] at h
  | cons t ts ih =>
    cases k with
    | zero =>
      obtain rfl := Option.some.inj h
      exact ⟨t, rfl, effects_queued t⟩
    | succ k => exact ih h

end

/-! ### No change is taken for `begin;` or `commit;` -/

/-- A text that begins with another letter. -/
theorem ofText_word {word rest : Bytes} (hb : word.head? ≠ some (ch 'b'))
    (hc : word.head? ≠ some (ch 'c')) (hne : word ≠ []) :
    QueuedSql.ofText (word ++ rest) = .statement (word ++ rest) := by
  have hhead : (word ++ rest).head? = word.head? := by
    cases word with
    | nil => exact absurd rfl hne
    | cons c word => rfl
  have hbegin : word ++ rest ≠ ascii "begin;" := by
    intro h
    rw [h] at hhead
    exact hb (hhead.symm.trans (by decide))
  have hcommit : word ++ rest ≠ ascii "commit;" := by
    intro h
    rw [h] at hhead
    exact hc (hhead.symm.trans (by decide))
  rw [QueuedSql.ofText, if_neg hbegin, if_neg hcommit]

/-- **The row of a change is read as a statement.** -/
theorem ofText_change {msg : AliPgDecodeMessage} {rc : ℕ} {row : Bytes}
    (hb : msg.type ≠ some .begin) (hc : msg.type ≠ some .commit)
    (h : outPutTupleToSql msg = .ok (rc, row)) : QueuedSql.ofText row = .statement row := by
  have hnil : QueuedSql.ofText [] = .statement [] := by decide
  unfold outPutTupleToSql at h
  split_ifs at h with hcheck
  · cases h
    exact hnil
  · rcases ht : msg.type with _ | kind
    · rw [ht] at h
      cases h
    · rw [ht] at h hb hc
      cases kind with
      | begin => exact absurd rfl hb
      | commit => exact absurd rfl hc
      | insert =>
        obtain ⟨values, -, h⟩ := bind_eq_ok h
        obtain ⟨schemaname, -, h⟩ := bind_eq_ok h
        obtain ⟨relname, -, h⟩ := bind_eq_ok h
        cases h
        simp only [List.append_assoc]
        exact ofText_word (by decide) (by decide) (by decide)
      | update =>
        obtain ⟨text, h, htext⟩ := bind_eq_ok h
        cases htext
        unfold appendUpdateStatement at h
        have hhead : ∀ {f : Except Fault Bytes} {row : Bytes}, (do
            .ok ((← (do .ok (ascii "UPDATE " ++ (← str msg.schemaname) ++ ascii "." ++
              (← str msg.relname) ++ ascii " "))) ++ (← f))) = (.ok row : Except Fault Bytes) →
            QueuedSql.ofText row = .statement row := by
          intro f row h
          obtain ⟨head, hh, h⟩ := bind_eq_ok h
          obtain ⟨schemaname, -, hh⟩ := bind_eq_ok hh
          obtain ⟨relname, -, hh⟩ := bind_eq_ok hh
          obtain ⟨clauses, -, h⟩ := bind_eq_ok h
          cases hh
          cases h
          simp only [List.append_assoc]
          exact ofText_word (by decide) (by decide) (by decide)
        split_ifs at h
        · cases h
          exact hnil
        · exact hhead h
        · cases h
          exact hnil
        · exact hhead h
        · exact hhead h
      | delete =>
        obtain ⟨conds, -, h⟩ := bind_eq_ok h
        obtain ⟨schemaname, -, h⟩ := bind_eq_ok h
        obtain ⟨relname, -, h⟩ := bind_eq_ok h
        cases h
        simp only [List.append_assoc]
        exact ofText_word (by decide) (by decide) (by decide)

theorem StreamItem.ofText_row {item : StreamItem} (hb : item.kind ≠ .begin)
    (hc : item.kind ≠ .commit) : QueuedSql.ofText item.row = .statement item.row := by
  obtain ⟨-, hd⟩ := item.delivers
  obtain ⟨s, msg, -, ht, rc, hrow⟩ := hd fun _ => 0
  refine ofText_change ?_ ?_ hrow
  · rw [ht]
    exact fun h => hb (Option.some.inj h)
  · rw [ht]
    exact fun h => hc (Option.some.inj h)

section
variable {ids : RowIds} {i : ℕ}

theorem readRows_statements {texts : List Bytes}
    (h : ∀ text ∈ texts, QueuedSql.ofText text = .statement text) :
    readRows ids i texts = (numbered ids i texts).map fun s => ⟨s.1, .statement s.2⟩ := by
  induction texts generalizing i with
  | nil => rfl
  | cons text texts ih =>
    rw [readRows, numbered, List.map_cons, h text List.mem_cons_self,
      ih fun text ht => h text (List.mem_cons_of_mem _ ht)]

/-- **The rows of a transaction are read as its group.** -/
theorem readRows_rows (t : StreamTxn) : readRows ids i t.rows = (t.queued ids i).rows := by
  have hstatements : ∀ text ∈ t.statements, QueuedSql.ofText text = .statement text := by
    intro text ht
    obtain ⟨item, hitem, rfl⟩ := List.mem_map.1 ht
    obtain ⟨hb, hc⟩ := t.changes_kind item hitem
    exact StreamItem.ofText_row hb hc
  have hbegin : QueuedSql.ofText (ascii "begin;") = .begin := by decide
  have hcommit : QueuedSql.ofText (ascii "commit;") = .commit := by decide
  rw [t.rows_eq_group, StreamTxn.group, List.cons_append, readRows, hbegin, readRows_append]
  rw [show t.changes.map StreamItem.row = t.statements from rfl, readRows_statements hstatements]
  simp only [readRows, hcommit]
  rfl

theorem readRows_txns (ts : List StreamTxn) :
    readRows ids i (ts.map StreamTxn.rows).flatten = queuedRows (queuedTxns ids i ts) := by
  induction ts generalizing i with
  | nil => rfl
  | cons t ts ih =>
    rw [List.map_cons, List.flatten_cons, readRows_append, readRows_rows, ih]
    rfl

theorem queuedTxns_append (a b : List StreamTxn) : ∃ j,
    queuedTxns ids i (a ++ b) = queuedTxns ids i a ++ queuedTxns ids j b := by
  induction a generalizing i with
  | nil => exact ⟨i, rfl⟩
  | cons t a ih =>
    obtain ⟨j, hj⟩ := ih (i := i + t.rows.length)
    exact ⟨j, by rw [List.cons_append, queuedTxns, hj]; rfl⟩

theorem length_queuedTxns (ts : List StreamTxn) : (queuedTxns ids i ts).length = ts.length := by
  induction ts generalizing i with
  | nil => rfl
  | cons t ts ih => rw [queuedTxns, List.length_cons, ih, List.length_cons]

end

/-! ## The receive thread -/

namespace Receiver

variable {r r' : Receiver} {requests : List Request}

/-- If the thread goes on, the local statements that it made have succeeded. -/
theorem store_live {msg : AliPgDecodeMessage} {outcome : LocalOutcome}
    (h : (r.store msg outcome).pc.live) : r.store msg outcome = r.store msg ⟨true, true, true⟩ := by
  obtain ⟨b, i, e⟩ := outcome
  obtain ⟨result, htext⟩ : ∃ result, outPutTupleToSql msg = result := ⟨_, rfl⟩
  simp only [store, htext] at h ⊢
  rcases result with fault | ⟨rc, text⟩
  · cases fault <;> rfl
  · dsimp only at h ⊢
    by_cases hbegin : msg.type = some .begin
    · cases b <;> cases i <;> simp_all [Pc.live]
    · by_cases hcommit : msg.type = some .commit
      · cases i <;> cases e <;> simp_all [Pc.live]
      · cases i <;> simp_all [Pc.live]

/-- A thread that ends while it stores a message of an open local transaction commits nothing. -/
theorem store_committed {msg : AliPgDecodeMessage} {outcome : LocalOutcome}
    (hopen : msg.type = some .begin ∨ ∃ rows, r.db.current = some rows)
    (h : ¬ (r.store msg outcome).pc.live) :
    (r.store msg outcome).db.committed = r.db.committed := by
  have hinsert : ∀ text, (TxLog.insert
      (if msg.type = some .begin then r.db.start else r.db) text).committed = r.db.committed := by
    intro text
    by_cases hbegin : msg.type = some .begin
    · rw [if_pos hbegin, TxLog.insert_of_current rfl]
      rfl
    · obtain ⟨rows, hrows⟩ := hopen.resolve_left hbegin
      rw [if_neg hbegin, TxLog.insert_of_current hrows]
  have hstart : (if msg.type = some .begin then r.db.start else r.db).committed =
      r.db.committed := by
    split_ifs <;> rfl
  obtain ⟨result, htext⟩ : ∃ result, outPutTupleToSql msg = result := ⟨_, rfl⟩
  simp only [store, htext] at h ⊢
  rcases result with fault | ⟨rc, text⟩
  · cases fault <;> rfl
  · dsimp only at h ⊢
    generalize (if msg.type = some .begin then r.db.start else r.db) = db at h hstart hinsert ⊢
    split_ifs at h ⊢
    · rfl
    · exact hstart
    · exact hinsert text
    · exact absurd trivial h
    · exact absurd trivial h

/-- The committed local transactions stay. -/
theorem store_prefix (r : Receiver) (msg : AliPgDecodeMessage) (outcome : LocalOutcome) :
    r.db.committed <+: (r.store msg outcome).db.committed := by
  have hstart : (if msg.type = some .begin then r.db.start else r.db).committed =
      r.db.committed := by
    split_ifs <;> rfl
  obtain ⟨result, htext⟩ : ∃ result, outPutTupleToSql msg = result := ⟨_, rfl⟩
  simp only [store, htext]
  rcases result with fault | ⟨rc, text⟩
  · cases fault <;> exact List.prefix_rfl
  · dsimp only
    generalize (if msg.type = some .begin then r.db.start else r.db) = db at hstart
    rw [← hstart]
    split_ifs
    · exact hstart ▸ List.prefix_rfl
    · exact List.prefix_rfl
    · exact TxLog.committed_insert text
    · exact (TxLog.committed_insert text).trans TxLog.committed_commit
    · exact TxLog.committed_insert text

/-- **What a frame does to the table**: nothing, or what the generator makes of its message is
stored. -/
theorem step_frame_stores {f : Frame} {outcome : LocalOutcome}
    (hs : r.step (.frame f outcome) = some (r', requests)) :
    r'.db = r.db ∧ r.step (.frame f ⟨true, true, true⟩) = some (r', requests) ∨
      ∃ msg h', (execFrame r.handler f).1 = .message msg ∧
        r' = ({ r with handler := h' } : Receiver).store msg outcome ∧
        r.step (.frame f ⟨true, true, true⟩) =
          some (({ r with handler := h' } : Receiver).store msg ⟨true, true, true⟩, requests) := by
  rcases hpc : r.pc with first | inRedo | inRedo | _ | _ <;>
    simp only [step, hpc, read, reduceCtorEq] at hs
  simp only [step, hpc, read]
  split_ifs at hs ⊢ with hc
  generalize execFrame r.handler f = done at hs ⊢
  obtain ⟨result, h', requests'⟩ := done
  rcases result with _ | msg | _ | fault
  · exact Or.inl ⟨by cases hs; rfl, hs⟩
  · cases hs
    exact Or.inr ⟨msg, h', rfl, rfl, rfl⟩
  · exact Or.inl ⟨by cases hs; rfl, hs⟩
  · cases fault <;> exact Or.inl ⟨by cases hs; rfl, hs⟩

/-- The committed local transactions stay. -/
theorem step_prefix {e : Event} (hs : r.step e = some (r', requests)) :
    r.db.committed <+: r'.db.committed := by
  rcases e with outcome | _ | ⟨now, send⟩ | select | commandOk | _ | ⟨f, outcome⟩
  case connect => exact (step_connect hs).1 ▸ List.prefix_rfl
  case frame =>
    rcases step_frame_stores hs with ⟨hdb, -⟩ | ⟨msg, h', -, hr, -⟩
    · exact hdb ▸ List.prefix_rfl
    · rw [hr]
      exact store_prefix { r with handler := h' } msg outcome
  all_goals exact (step_quiet hs trivial).2.2.1 ▸ List.prefix_rfl

end Receiver

namespace System

variable {H : History} {s s' : System}

theorem receiver_serve (committed : List (List Bytes)) (r : Receiver) (requests : List Request) :
    (requests.foldl (serve H committed r) s).receiver = s.receiver := by
  induction requests generalizing s with
  | nil => rfl
  | cons request requests ih =>
    rw [List.foldl_cons, ih]
    cases request <;> simp only [serve] <;> split_ifs <;> rfl

/-- The client's part of a step. -/
theorem receiver_step {e : StreamEvent} (h : s.step H e = some s') :
    ∃ e' requests, s.receiver.step e' = some (s'.receiver, requests) := by
  have hclient : ∀ {t : System} {e' : Event}, t.receiver = s.receiver →
      t.clientStep H e' = some s' → ∃ e' requests,
        s.receiver.step e' = some (s'.receiver, requests) := by
    intro t e' ht hc
    obtain ⟨r', requests, hr, rfl⟩ := clientStep_cases hc
    refine ⟨e', requests, ?_⟩
    rw [receiver_serve, ← ht]
    exact hr
  rcases e with e | ⟨env, outcome⟩ | ⟨walEnd, sendTime, reply, env⟩
  · have h : s.clientStep H e = some s' := by
      cases e <;> first | exact h | cases h
    exact hclient rfl h
  · obtain ⟨item, -, h⟩ := Option.bind_eq_some_iff.1 h
    exact hclient (by rw [advance_eq]) h
  · simp only [step] at h
    split_ifs at h
    exact hclient rfl h

/-- If the thread goes on, or makes no local statement, these succeeded. -/
theorem step_data_ok {env : FrameEnv} {outcome : LocalOutcome}
    (h : s.step H (.data env outcome) = some s') :
    s.step H (.data env ⟨true, true, true⟩) = some s' ∨
      ∃ item msg h', s.next = some item ∧ s.receiver.handler.conn = .streaming ∧
        msg.type = some item.kind ∧ ¬ s'.receiver.pc.live ∧
        s'.receiver = ({ s.receiver with handler := h' } : Receiver).store msg outcome := by
  obtain ⟨item, hi, hc⟩ := Option.bind_eq_some_iff.1 h
  obtain ⟨r', requests, hr, rfl⟩ := clientStep_cases hc
  have hstep : s.advance.receiver.step (.frame (env.frame item.data.bytes) ⟨true, true, true⟩) =
      some (r', requests) →
      s.step H (.data env ⟨true, true, true⟩) = some (requests.foldl
        (serve H s.advance.receiver.db.committed r') { s.advance with receiver := r' }) := by
    intro hr'
    simp only [step, hi, Option.bind_some, clientStep, hr', Option.map_some]
  rcases Receiver.step_frame_stores hr with ⟨-, hok⟩ | ⟨msg, h', hexec, hstore, hok⟩
  · exact Or.inl (hstep hok)
  · by_cases hlive : r'.pc.live
    · rw [hstore] at hlive
      rw [← Receiver.store_live hlive, ← hstore] at hok
      exact Or.inl (hstep hok)
    · rw [receiver_serve]
      have hconn := (Receiver.step_frame hr).1
      rw [advance_eq] at hconn hexec hstore
      obtain ⟨msg', ht, -, hframe⟩ := execFrame_data env s.receiver.handler item.delivers
      have hmsg : msg' = msg := by
        have hframe := congrArg Prod.fst hframe
        rw [hexec] at hframe
        dsimp only at hframe
        split_ifs at hframe
        exact (FrameResult.message.inj hframe).symm
      exact Or.inr ⟨item, msg, h', hi, hconn, hmsg ▸ ht, hlive, hstore⟩

end System

/-- **A restart** keeps the local log. -/
theorem OnceInv.restart {H : History} {s : System} (hI : OnceInv H s) : OnceInv H s.restart := by
  obtain ⟨n, hn, hc, -⟩ := hI
  refine ⟨n, hn, hc, ?_⟩
  rintro - ⟨⟩

/-- **One step of the receive thread or its server** keeps the local log exact, whatever the local
database answers. -/
theorem onceInv_step_any {H : History} {s s' : System} {e : StreamEvent} (hI : OnceInv H s)
    (hok : ResumesAfterCommitted H s e) (h : s.step H e = some s') : OnceInv H s' := by
  by_cases hlocal : LocalOk e
  · exact onceInv_step hI ⟨hlocal, hok⟩ h
  cases e with
  | client e => exact absurd trivial hlocal
  | keepalive walEnd sendTime reply env => exact absurd trivial hlocal
  | data env outcome =>
    rcases System.step_data_ok h with hdata | ⟨item, msg, h', hi, hconn, ht, hlive, hstore⟩
    · exact onceInv_step (e := .data env ⟨true, true, true⟩) hI ⟨rfl, trivial⟩ hdata
    · -- the thread ends, and the server is not asked for more
      obtain ⟨n, hn, hc, hst⟩ := hI
      obtain ⟨-, hopen⟩ := hst (System.live_of_step h) hconn
      refine ⟨n, hn, ?_, fun hl => absurd hl hlive⟩
      rw [← hc, hstore]
      refine Receiver.store_committed ?_ (hstore ▸ hlive)
      rcases hopen with ⟨hsent, -⟩ | ⟨t, rest, -, -, -, hcurrent⟩
      · left
        obtain ⟨t, hhead, hitem⟩ := Option.bind_eq_some_iff.1 hi
        rw [hsent] at hitem
        obtain rfl : t.start = item := Option.some.inj hitem
        rw [ht, t.start_kind]
      · exact Or.inr ⟨_, hcurrent⟩

/-! ## The invariant -/

section
universe u
variable {E : Type u} {s s' : ApplyLoop E}

/-- More groups are received. -/
theorem OrderInv.receive (hI : OrderInv s) {more : List (QueuedGroup E)}
    (hordered : InIdOrder (queuedRows (s.log ++ more))) :
    OrderInv { s with log := s.log ++ more } := by
  induction more using List.reverseRecOn with
  | nil => rwa [List.append_nil]
  | append_singleton more g ih =>
    rw [← List.append_assoc] at hordered ⊢
    have hpre : InIdOrder (queuedRows (s.log ++ more)) := by
      rw [queuedRows_append] at hordered
      refine ⟨(List.pairwise_append.1 hordered.1).1, ?_⟩
      intro r hr
      exact hordered.2 r (List.mem_append_left _ hr)
    refine orderInv_step (e := .receive g) (ih hpre) ?_
    exact if_pos hordered

/-- The process is killed. -/
theorem OrderInv.down (hI : OrderInv s) :
    OrderInv { s with pc := .down, target := s.target.close } := by
  obtain ⟨⟨hloop, hcommitted, -⟩, hreader⟩ := hI
  refine ⟨⟨⟨hloop.ordered, hloop.saved, hloop.applied, hloop.undone, fun _ => rfl, nofun⟩,
    hcommitted, nofun⟩, ?_⟩
  exact ⟨hreader.inOrder, hreader.saved, nofun⟩

theorem ApplyLoop.log_executed (s : ApplyLoop E) (id : ℕ) : (s.executed id).log = s.log := by
  unfold executed
  dsimp only
  split_ifs <;> rfl

theorem ApplyLoop.log_skip (s : ApplyLoop E) (answers : RowAnswers) :
    (s.skip answers).log = s.log := by
  unfold skip
  rcases s.target.commit none answers.finish false with ⟨target, _ | _ | _⟩
  · dsimp only
    rcases target.start answers.start with ⟨target, _ | _ | _⟩ <;> rfl
  · rfl
  · rfl

/-- Only the receive thread writes the log. -/
theorem ApplyLoop.log_of_step {e : LoopEvent E} (h : s.step e = some s')
    (he : ∀ g, e ≠ .receive g) : s'.log = s.log := by
  cases step_cases h with
  | @receive g _ => exact absurd rfl (he g)
  | @row answers row rest _ _ =>
    unfold applyRow
    dsimp only
    rcases row.exec answers s.target with ⟨target, _ | _ | _⟩
    · exact log_executed _ _
    · dsimp only
      split_ifs
      · rw [log_executed, log_skip]
      · rfl
    · rfl
  | start _ | declareCursor _ | noRow _ _ _ | save _ _ | kill _ => rfl

end

/-- The local log is exact, the target follows it, and the apply thread sees what is committed. -/
structure PipelineInv (H : History) (ids : RowIds) (p : Pipeline) : Prop where
  once : OnceInv H p.source
  order : OrderInv p.apply
  log : Pipeline.readLog ids p.source.receiver.db = some p.apply.log

section
variable {H : History} {ids : RowIds} {p p' : Pipeline}

/-- An exact local log is read as the groups of the first transactions of the history. -/
theorem OnceInv.readLog {s : System} (hI : OnceInv H s) (ids : RowIds) :
    ∃ n ≤ H.txns.length, s.receiver.db.committed = (H.txns.take n).map StreamTxn.rows ∧
      Pipeline.readLog ids s.receiver.db = some (queuedTxns ids 0 (H.txns.take n)) := by
  obtain ⟨n, hn, hc, -⟩ := hI
  refine ⟨n, hn, hc, ?_⟩
  rw [Pipeline.readLog, hc, readRows_txns, cutRows_queuedRows]

theorem pipelineInv_init (H : History) (ids : RowIds) : PipelineInv H ids (.init H) :=
  ⟨onceInv_init H, orderInv_init, rfl⟩

/-- **The table that is read only grows.** -/
theorem PipelineInv.receive (hI : PipelineInv H ids p) {source : System}
    (hpre : p.source.receiver.db.committed <+: source.receiver.db.committed)
    (honce : OnceInv H source) : ∃ log, Pipeline.readLog ids source.receiver.db = some log ∧
      PipelineInv H ids ⟨source, { p.apply with log }⟩ := by
  obtain ⟨n, hn, hc, hlog⟩ := hI.once.readLog ids
  obtain ⟨m, hm, hc', hlog'⟩ := honce.readLog ids
  have hle : n ≤ m := by
    have := hpre.length_le
    rw [hc, hc', List.length_map, List.length_map, List.length_take, List.length_take] at this
    omega
  have htake : H.txns.take m = H.txns.take n ++ (H.txns.drop n).take (m - n) := by
    rw [← List.take_add, Nat.add_sub_cancel' hle]
  obtain ⟨j, happend⟩ : ∃ j, queuedTxns ids 0 (H.txns.take n ++ (H.txns.drop n).take (m - n)) =
      queuedTxns ids 0 (H.txns.take n) ++ queuedTxns ids j ((H.txns.drop n).take (m - n)) :=
    queuedTxns_append _ _
  have hold : p.apply.log = queuedTxns ids 0 (H.txns.take n) :=
    Option.some.inj (hI.log.symm.trans hlog)
  have hnew : queuedTxns ids 0 (H.txns.take m) =
      p.apply.log ++ queuedTxns ids j ((H.txns.drop n).take (m - n)) := by
    rw [htake, happend, hold]
  refine ⟨_, hlog', honce, ?_, hlog'⟩
  rw [hnew]
  refine hI.order.receive ?_
  rw [← hnew, ← readRows_txns]
  exact inIdOrder_readRows _

/-- **One step of either thread** keeps the invariant. -/
theorem pipelineInv_step {e : PipelineEvent} (hI : PipelineInv H ids p)
    (hok : StreamResumes H p e) (h : p.step H ids e = some p') : PipelineInv H ids p' := by
  cases e with
  | receive e =>
    obtain ⟨source, hsource, h⟩ := Option.bind_eq_some_iff.1 h
    obtain ⟨log, hlog, h⟩ := Option.bind_eq_some_iff.1 h
    obtain rfl := Option.some.inj h
    obtain ⟨e', requests, hr⟩ := System.receiver_step hsource
    obtain ⟨log', hlog', hI'⟩ := hI.receive (Receiver.step_prefix hr)
      (onceInv_step_any hI.once hok hsource)
    obtain rfl := Option.some.inj (hlog.symm.trans hlog')
    exact hI'
  | apply e =>
    have happly : (∀ g, e ≠ .receive g) ∧ ∃ apply, p.apply.step e = some apply ∧
        ({ p with apply } : Pipeline) = p' := by
      cases e with
      | receive g => cases h
      | start | declareCursor | fetch _ | save _ | kill =>
        exact ⟨fun _ => by rintro ⟨⟩, Option.map_eq_some_iff.1 h⟩
    obtain ⟨hne, apply, happly, rfl⟩ := happly
    refine ⟨hI.once, orderInv_step hI.order happly, ?_⟩
    show _ = some apply.log
    rw [ApplyLoop.log_of_step happly hne]
    exact hI.log
  | restart =>
    obtain rfl := Option.some.inj h
    exact ⟨hI.once.restart, hI.order.down, hI.log⟩

/-- **The threads do not block each other**: whatever the receive thread can do, it can do beside
the apply thread. -/
theorem PipelineInv.receive_isSome (hI : PipelineInv H ids p) {e : StreamEvent}
    (hok : ResumesAfterCommitted H p.source e) {source : System}
    (h : p.source.step H e = some source) : (p.step H ids (.receive e)).isSome := by
  obtain ⟨e', requests, hr⟩ := System.receiver_step h
  obtain ⟨log, hlog, -⟩ := hI.receive (Receiver.step_prefix hr) (onceInv_step_any hI.once hok h)
  rw [Pipeline.step, h]
  simp [hlog]

theorem PipelineInv.deliveredInOrder (hI : PipelineInv H ids p) : DeliveredInOrder H p := by
  obtain ⟨n, hn, hc, hlog⟩ := hI.once.readLog ids
  have happly : p.apply.log = queuedTxns ids 0 (H.txns.take n) :=
    Option.some.inj (hI.log.symm.trans hlog)
  refine ⟨p.apply.numbers, hI.order.2.inOrder, ?_, ?_⟩
  · refine hI.order.groups.imp ?_
    rintro k tx ⟨g, hg, -, hwork⟩
    rw [happly] at hg
    obtain ⟨t, ht, heffects⟩ := getElem?_queuedTxns hg
    refine ⟨t, ?_, heffects ▸ hwork⟩
    rw [List.getElem?_take] at ht
    split_ifs at ht
    exact ht
  · intro hup k hk
    have hall : n = H.txns.length := by
      obtain ⟨n', hn', hc', hst⟩ := hI.once
      have hqueue := (hst hup.live hup.conn).1.symm.trans hup.queue
      have hn'' : n' = n := by
        have := congrArg List.length (hc'.symm.trans hc)
        rw [List.length_map, List.length_map, List.length_take, List.length_take] at this
        omega
      exact Nat.le_antisymm hn (hn'' ▸ List.drop_eq_nil_iff.1 hqueue)
    have hposition : position p.apply.log p.apply.applyId = n := by
      have hlen : p.apply.log.countP (fun g => g.commitId ≤ p.apply.applyId) =
          p.apply.log.length := by
        refine List.countP_eq_length.2 ?_
        intro g hg
        exact decide_eq_true (hup.applied _ (mem_queuedRows hg g.commit_mem))
      rw [position, hlen, happly, length_queuedTxns, List.length_take, Nat.min_eq_left hn]
    refine hI.order.2.inOrder.mem ?_
    have hnext := (hI.order.2.running hup.running).2
    rw [show p.apply.reader.applied = position p.apply.log p.apply.applyId from rfl,
      hposition] at hnext
    rw [← hall] at hk
    exact hk.trans_le hnext

/-- **The target gets the transactions of the source in commit order**, but for what is skipped and
what is applied once more, and none of them is missing, in every interleaving of the threads in
which every stream starts at the first transaction that is not committed locally. -/
theorem deliveredInOrder_of_run {es : List PipelineEvent}
    (hm : StepMachine.Meets (Pipeline.step H ids) (StreamResumes H) (.init H) es)
    (hr : StepMachine.run (Pipeline.step H ids) (.init H) es = some p) : DeliveredInOrder H p :=
  PipelineInv.deliveredInOrder (StepMachine.run_invariant
    (fun _ _ _ hI hok h => pipelineInv_step hI hok h) (pipelineInv_init H ids) hm hr)

end

/-! ## A row of the table `e` is deleted -/

/-- The row is deleted by one transaction of the source. -/
def deleteHistory : History :=
  historyE (.delete (some (rowE (.value (lit "test")))))
    (ascii "DELETE FROM test_case.e WHERE a=1 AND b='test';") (by decide) ⟨0, by decide⟩

/-- Every second value of the sequence is lost. -/
def evenIds : RowIds where
  id := fun i => 2 * i + 2
  strictMono := by
    intro i j hij
    dsimp only
    omega
  pos := by decide

/-- A message is received. -/
def receiveOne : List PipelineEvent :=
  [.receive (.client (.wake 0 ⟨true, true⟩)), .receive (.data (envAt 0 true) ⟨true, true, true⟩)]

/-- A row is applied. -/
def applyOne : List PipelineEvent := [.apply (.fetch ⟨.ok, false, .ok, .ok⟩)]

/-- The process is killed after the first message, and again before `apply_id` is saved. -/
def deleteRun : List PipelineEvent :=
  [.receive (.client (.connect .started))] ++ receiveOne ++
    [.restart, .apply .start, .receive (.client (.connect .started))] ++ receiveOne ++ receiveOne ++
    receiveOne ++ [.apply .declareCursor] ++ applyOne ++ applyOne ++ applyOne ++ [.restart]

theorem deliveredInOrder_deleteRun :
    ∃ p, StepMachine.run (Pipeline.step deleteHistory evenIds) (.init deleteHistory) deleteRun =
        some p ∧
      p.apply.target.committed =
        [(some 6, [ascii "DELETE FROM test_case.e WHERE a=1 AND b='test';"])] ∧
      DeliveredInOrder deleteHistory p := by
  have hr : (StepMachine.run (Pipeline.step deleteHistory evenIds) (.init deleteHistory)
      deleteRun).map (fun p => p.apply.target.committed) =
        some [(some 6, [ascii "DELETE FROM test_case.e WHERE a=1 AND b='test';"])] := by
    decide +kernel
  obtain ⟨p, hp, hc⟩ := Option.map_eq_some_iff.1 hr
  exact ⟨p, hp, hc, deliveredInOrder_of_run (by decide +kernel) hp⟩

end RdsDbsync
