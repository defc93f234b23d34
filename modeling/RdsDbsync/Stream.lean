/-
  The receive thread and the server it streams from.

  The server is modelled by what is assumed of it: it sends the frames of the committed
  transactions in commit order, `START_REPLICATION` goes back to the first transaction
  whose commit record is at or after the requested and the confirmed position, and a
  keepalive does not pass the commit record of a transaction that is still to come.
-/
import RdsDbsync.Lib.OrderedLog
import RdsDbsync.Receive
import RdsDbsync.Wire

namespace RdsDbsync

open Bytes

/-! ## Frames and transactions -/

/-- An XLogData message. -/
structure XLogData where
  dataStart : UInt64
  walEnd : UInt64
  sendTime : UInt64
  payload : Bytes

namespace XLogData

def bytes (x : XLogData) : Bytes :=
  [ch 'w'] ++ pqSendint64 x.dataStart ++ pqSendint64 x.walEnd ++ pqSendint64 x.sendTime ++ x.payload

/-- The position of the message. -/
def lsn (x : XLogData) : ℕ := max x.dataStart.toNat x.walEnd.toNat

end XLogData

/-- A keepalive message. -/
def keepalive (walEnd sendTime : UInt64) (replyRequested : UInt8) : Bytes :=
  [ch 'k'] ++ pqSendint64 walEnd ++ pqSendint64 sendTime ++ [replyRequested]

/-- The payload is decoded to a message of the kind, for which the row is generated. -/
def Delivers (x : XLogData) (kind : MsgKind) (row : Bytes) : Prop :=
  x.payload ≠ [] ∧ ∀ stale, ∃ s msg,
    bdrProcessRemoteAction ⟨x.payload, stale⟩ {} = .ok (true, s, msg) ∧ msg.type = some kind ∧
      ∃ rc, outPutTupleToSql msg = .ok (rc, row)

/-- A message of a transaction, with what the client makes of it. -/
structure StreamItem where
  kind : MsgKind
  data : XLogData
  row : Bytes
  delivers : Delivers data kind row

/-- A committed transaction of the source as it is streamed: a begin message, changes, and a
commit message at the transaction's end position, past its commit record. -/
structure StreamTxn where
  start : StreamItem
  changes : List StreamItem
  finish : StreamItem
  commitLsn : ℕ
  start_kind : start.kind = .begin
  changes_kind : ∀ c ∈ changes, c.kind ≠ .begin ∧ c.kind ≠ .commit
  finish_kind : finish.kind = .commit
  start_lt : start.data.lsn < commitLsn
  changes_lt : ∀ c ∈ changes, c.data.lsn < commitLsn
  lt_finish : commitLsn < finish.data.lsn

namespace StreamTxn

/-- The messages of the transaction. -/
def items (t : StreamTxn) : List StreamItem := t.start :: t.changes ++ [t.finish]

/-- The group of rows that stands for the transaction in `sync_sqls`. -/
def rows (t : StreamTxn) : List Bytes := t.items.map StreamItem.row

end StreamTxn

/-! ### Transactions that the plugin writes -/

section
variable (kw : Bytes → Bool)

/-- A change of a transaction, with the row that the client makes of it. -/
structure SourceChange where
  lsn : UInt64
  rel : Relation
  change : ReorderBufferChange
  row : Bytes
  fits : change.Fits kw rel
  generated : ∃ rc, outPutTupleToSql (changeMessage kw rel change) = .ok (rc, row)

/-- The kind of a change. -/
def ReorderBufferChange.kind : ReorderBufferChange → MsgKind
  | insert _ => .insert
  | update _ _ => .update
  | delete _ => .delete

/-- A committed transaction of the source. -/
structure SourceTxn where
  txn : ReorderBufferTXN
  firstLsn : UInt64
  commitLsn : UInt64
  changes : List (SourceChange kw)
  first_lt : firstLsn.toNat < commitLsn.toNat
  changes_lt : ∀ c ∈ changes, c.lsn.toNat < commitLsn.toNat
  lt_end : commitLsn.toNat < txn.endLsn.toNat

theorem ne_nil_of_decoded {p : Bytes} {st : ℕ → UInt32} {s : StringInfo} {msg : AliPgDecodeMessage}
    (h : bdrProcessRemoteAction ⟨p, st⟩ {} = .ok (true, s, msg)) : p ≠ [] := by
  rintro rfl; cases h

/-- A message of the plugin, sent at the position `lsn`. -/
def pluginItem (kind : MsgKind) (row : Bytes) (payload : Bytes) (msg : AliPgDecodeMessage)
    (lsn sendTime : UInt64)
    (hd : ∀ stale, bdrProcessRemoteAction ⟨payload, stale⟩ {} = .ok (true, ⟨[], stale⟩, msg))
    (hk : msg.type = some kind) (hrow : ∃ rc, outPutTupleToSql msg = .ok (rc, row)) :
    StreamItem where
  kind := kind
  data := ⟨lsn, lsn, sendTime, payload⟩
  row := row
  delivers := ⟨ne_nil_of_decoded (hd fun _ => 0), fun stale => ⟨_, msg, hd stale, hk, hrow⟩⟩

variable {kw}

def SourceChange.item (c : SourceChange kw) : StreamItem :=
  pluginItem c.change.kind c.row (pgDecodeChange kw pgDecodeStartup c.rel c.change)
    (changeMessage kw c.rel c.change) c.lsn 0 (changeMessage_roundTrip c.fits)
    (by cases c.change <;> rfl) c.generated

/-- **The transactions that the plugin writes are streamed as assumed.** -/
def SourceTxn.stream (t : SourceTxn kw) : StreamTxn where
  start := pluginItem .begin (ascii "begin;") (pgDecodeBeginTxn t.txn) _ t.firstLsn 0
    (begin_roundTrip t.txn) rfl ⟨0, rfl⟩
  changes := t.changes.map SourceChange.item
  finish := pluginItem .commit (ascii "commit;") (pgDecodeCommitTxn t.txn t.commitLsn) _
    t.txn.endLsn 0 (commit_roundTrip t.txn t.commitLsn) rfl ⟨0, rfl⟩
  commitLsn := t.commitLsn.toNat
  start_kind := rfl
  changes_kind := by
    intro c hc
    obtain ⟨c, -, rfl⟩ := List.mem_map.1 hc
    change c.change.kind ≠ _ ∧ c.change.kind ≠ _
    cases c.change <;> exact ⟨nofun, nofun⟩
  finish_kind := rfl
  start_lt := by simpa [pluginItem, XLogData.lsn] using t.first_lt
  changes_lt := by
    intro c hc
    obtain ⟨c, hm, rfl⟩ := List.mem_map.1 hc
    simpa [SourceChange.item, pluginItem, XLogData.lsn] using t.changes_lt c hm
  lt_finish := by simpa [pluginItem, XLogData.lsn] using t.lt_end

end

/-- What a slot streams: transactions in commit order whose commit records do not overlap, none of
them before the position at which the slot was created. -/
structure History where
  txns : List StreamTxn
  slot : ℕ
  ordered : txns.Pairwise fun a b => a.finish.data.lsn ≤ b.commitLsn
  slot_le : ∀ t ∈ txns, slot ≤ t.commitLsn

/-! ## The system -/

/-- The thread, and the server: the transactions still to be sent, the number of messages of the
first of them that are sent, and the last confirmed position.  `acks` records every position up to
which the client has declared the stream durable, with the groups committed at that moment. -/
structure System where
  receiver : Receiver := {}
  queue : List StreamTxn := []
  sent : ℕ := 0
  confirmed : ℕ
  acks : List (ℕ × List (List Bytes)) := []

/-- What the environment chooses while a frame is worked on. -/
structure FrameEnv where
  beyond : ℕ → UInt8
  stale : ℕ → UInt32
  now : ℤ
  send : Send

def FrameEnv.frame (env : FrameEnv) (data : Bytes) : Frame :=
  ⟨data, env.beyond, env.stale, env.now, env.send⟩

inductive StreamEvent where
  /-- a step of the client without a frame -/
  | client (e : Event)
  /-- the next message of the stream arrives -/
  | data (env : FrameEnv) (outcome : LocalOutcome)
  | keepalive (walEnd sendTime : UInt64) (replyRequested : UInt8) (env : FrameEnv)

namespace System

variable (H : History)

/-- The server gets a request; `r` is the client after the step. -/
def serve (committed : List (List Bytes)) (r : Receiver) (s : System) : Request → System
  | .startReplication pos =>
    let s := { s with acks := s.acks ++ [(pos, committed)] }
    if r.handler.conn = .streaming then
      { s with
        queue := OrderedLog.since StreamTxn.commitLsn (max pos s.confirmed) H.txns
        sent := 0 }
    else s
  | .feedback packet delivered =>
    if delivered then
      { s with
        confirmed := if packet.flush = 0 then s.confirmed else packet.flush
        acks := s.acks ++ [(packet.flush, committed)] }
    else s

/-- The client makes a step. -/
def clientStep (s : System) (e : Event) : Option System :=
  (s.receiver.step e).map fun (r, requests) =>
    requests.foldl (serve H s.receiver.db.committed r) { s with receiver := r }

/-- The message that the server sends next. -/
def next (s : System) : Option StreamItem := s.queue.head?.bind fun t => t.items[s.sent]?

/-- The server has sent it. -/
def advance (s : System) : System :=
  match s.queue with
  | t :: rest =>
    if s.sent + 1 < t.items.length then { s with sent := s.sent + 1 }
    else { s with queue := rest, sent := 0 }
  | [] => s

/-- One step of the system. -/
def step (s : System) : StreamEvent → Option System
  | .client (.frame _ _) => none
  | .client e => s.clientStep H e
  | .data env outcome =>
    s.next.bind fun item => s.advance.clientStep H (.frame (env.frame item.data.bytes) outcome)
  | .keepalive walEnd sendTime replyRequested env =>
    if ∀ t ∈ s.queue, walEnd.toNat ≤ t.commitLsn then
      s.clientStep H
        (.frame (env.frame (RdsDbsync.keepalive walEnd sendTime replyRequested)) ⟨true, true, true⟩)
    else none

/-- The thread starts, on a slot of which nothing is confirmed. -/
def init : System := { confirmed := H.slot }

end System

/-! ## What the client makes of a frame -/

theorem decodeBE_pqSendint64 (i : UInt64) : decodeBE (pqSendint64 i) = i.toNat := by
  have hi := i.toNat_lt
  have hh : i.toNat / 2 ^ 32 < 256 ^ 4 := by omega
  have hl : i.toNat % 2 ^ 32 < 256 ^ 4 := by omega
  rw [pqSendint64, decodeBE_append, decodeBE_encodeBE hh, decodeBE_encodeBE hl, length_encodeBE]
  omega

@[simp] theorem length_pqSendint64 (i : UInt64) : (pqSendint64 i).length = 8 := by
  simp [pqSendint64]

section
variable (env : FrameEnv) (h : DecoderHandler)

/-- The status message is due. -/
def feedbackDue (h : DecoderHandler) (now : ℤ) : Prop :=
  standbyMessageTimeout > 0 ∧ feTimestampDifferenceExceeds h.lastStatus now standbyMessageTimeout

instance (now : ℤ) : Decidable (feedbackDue h now) := inferInstanceAs (Decidable (_ ∧ _))

/-- The handler after a status message was tried. -/
def DecoderHandler.confirm (h : DecoderHandler) (now : ℤ) (ok : Bool) : DecoderHandler :=
  { h with
    startpos := h.recvpos
    lastRecvpos := h.recvpos
    lastStatus := if ok then now else h.lastStatus }

/-- The status message of the handler. -/
def DecoderHandler.status (h : DecoderHandler) (now : ℤ) (delivered : Bool) : Request :=
  .feedback ⟨h.recvpos, h.flushpos, 0, now, false⟩ delivered

theorem sendFeedback_streaming {h : DecoderHandler} (hc : h.conn = .streaming) (now : ℤ)
    (send : Send) :
    sendFeedback h now true false send =
      (send.ok, { h with startpos := h.recvpos, lastRecvpos := h.recvpos },
        [h.status now send.delivered]) := by
  simp [sendFeedback, hc, DecoderHandler.status]

theorem timedFeedback_of_due {h : DecoderHandler} (hc : h.conn = .streaming) {now : ℤ}
    (hd : feedbackDue h now) (send : Send) :
    timedFeedback h now send =
      (send.ok, h.confirm now send.ok, [h.status now send.delivered]) := by
  have hd' : standbyMessageTimeout > 0 ∧
      feTimestampDifferenceExceeds h.lastStatus now standbyMessageTimeout := hd
  rw [timedFeedback, if_pos hd', sendFeedback_streaming hc]
  rcases hs : send.ok <;> simp [DecoderHandler.confirm]

theorem timedFeedback_of_not_due {now : ℤ} (hd : ¬ feedbackDue h now) (send : Send) :
    timedFeedback h now send = (true, h, []) := if_neg hd

/-- **A message that is delivered** moves the receive position to its own, may send a status
message, and is handed to the thread unless that fails. -/
theorem execFrame_data {x : XLogData} {kind : MsgKind} {row : Bytes} (hd : Delivers x kind row) :
    ∃ msg, msg.type = some kind ∧ (∃ rc, outPutTupleToSql msg = .ok (rc, row)) ∧
      execFrame h (env.frame x.bytes) =
        (if (timedFeedback { h with recvpos := x.lsn } env.now env.send).1 then
          FrameResult.message msg else .error,
          (timedFeedback { h with recvpos := x.lsn } env.now env.send).2) := by
  obtain ⟨hne, hdec⟩ := hd
  obtain ⟨s, msg, hs, ht, hrow⟩ := hdec env.stale
  refine ⟨msg, ht, hrow, ?_⟩
  have hlen : ¬ (env.frame x.bytes).data.length < 1 + 8 + 8 + 8 + 1 := by
    have := List.length_pos_of_ne_nil hne
    simp [FrameEnv.frame, XLogData.bytes]; omega
  have hget : pqGetmsgbyte ⟨(env.frame x.bytes).data, (env.frame x.bytes).stale⟩ =
      (ch 'w', ⟨pqSendint64 x.dataStart ++ (pqSendint64 x.walEnd ++
        (pqSendint64 x.sendTime ++ x.payload)), env.stale⟩) := by
    simp [FrameEnv.frame, XLogData.bytes]
  rw [execFrame, hget]
  simp only [if_neg (show ¬ ch 'w' = ch 'k' by decide), if_true]
  rw [execXLogData, if_neg hlen]
  simp only [pqGetmsgint64_send, hs, if_true]
  rfl

theorem map_copybuf (a b c : Bytes) :
    (List.range' a.length b.length).map (env.frame (a ++ b ++ c)).copybuf = b := by
  refine List.ext_getElem (by simp) ?_
  intro i hi hb
  simp only [List.getElem_map, List.getElem_range', Frame.copybuf, FrameEnv.frame]
  rw [List.append_assoc, Nat.one_mul, List.getElem?_append_right (by omega), Nat.add_sub_cancel_left,
    List.getElem?_append_left (by omega), List.getElem?_eq_getElem hb]
  rfl

/-- **A keepalive** raises the receive position, and sends a status message if one is asked for. -/
theorem execFrame_keepalive {h : DecoderHandler} (hc : h.conn = .streaming)
    (walEnd sendTime : UInt64) (reply : UInt8) :
    execFrame h (env.frame (keepalive walEnd sendTime reply)) =
      if reply = 0 then (.redo, { h with recvpos := max walEnd.toNat h.recvpos }, [])
      else
        (if env.send.ok then .redo else .error,
          DecoderHandler.confirm { h with recvpos := max walEnd.toNat h.recvpos } env.now
            env.send.ok,
          [DecoderHandler.status { h with recvpos := max walEnd.toNat h.recvpos } env.now
            env.send.delivered]) := by
  have hlen : ¬ (env.frame (keepalive walEnd sendTime reply)).data.length < 1 + 8 + 8 + 1 := by
    simp [FrameEnv.frame, keepalive]
  have hwal : (env.frame (keepalive walEnd sendTime reply)).feRecvint64 1 = walEnd.toNat := by
    have := map_copybuf env [ch 'k'] (pqSendint64 walEnd) (pqSendint64 sendTime ++ [reply])
    rw [Frame.feRecvint64, ← decodeBE_pqSendint64 walEnd, ← this]
    simp [keepalive]
  have hreply : (env.frame (keepalive walEnd sendTime reply)).copybuf (1 + 8 + 8) = reply := by
    have : (keepalive walEnd sendTime reply)[1 + 8 + 8]? = some reply := by
      rw [keepalive, List.getElem?_append_right (by simp)]
      simp
    simp only [Frame.copybuf, FrameEnv.frame, this, Option.getD_some]
  have hget : (pqGetmsgbyte ⟨(env.frame (keepalive walEnd sendTime reply)).data,
      (env.frame (keepalive walEnd sendTime reply)).stale⟩).1 = ch 'k' := rfl
  simp only [execFrame, hget, if_true, execKeepalive]
  rw [if_neg hlen, hwal, hreply]
  by_cases hr : reply = 0
  · simp only [hr, ne_eq, not_true_eq_false, if_false, if_true]
  · have hc' : ({ h with recvpos := max walEnd.toNat h.recvpos } : DecoderHandler).conn =
      .streaming := hc
    rw [if_pos hr, if_neg hr, sendFeedback_streaming hc']
    rcases hs : env.send.ok <;> simp [DecoderHandler.confirm, FrameEnv.frame, hs]

end

end RdsDbsync
