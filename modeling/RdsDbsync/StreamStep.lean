/-
  What one step of the receive thread and of its server can do.
-/
import RdsDbsync.Stream

namespace RdsDbsync

open Bytes

/-! ## Positions -/

/-- The positions of a handler that has at most tried to send a status message. -/
structure Kept (h h' : DecoderHandler) : Prop where
  recvpos : h'.recvpos = h.recvpos
  flushpos : h'.flushpos = h.flushpos
  startpos : h'.startpos = h.startpos ∨ h'.startpos = h.recvpos
  lastRecvpos : h'.lastRecvpos = h.lastRecvpos ∨ h'.lastRecvpos = h.recvpos
  conn : h'.conn = .streaming → h.conn = .streaming

theorem Kept.refl (h : DecoderHandler) : Kept h h :=
  ⟨rfl, rfl, Or.inl rfl, Or.inl rfl, id⟩

theorem Kept.setConn {h h' : DecoderHandler} (hk : Kept h h') {conn : Conn}
    (hc : conn ≠ .streaming) : Kept h { h' with conn } :=
  ⟨hk.recvpos, hk.flushpos, hk.startpos, hk.lastRecvpos, fun h => absurd h hc⟩

/-- The requests of a step that may have sent a status message. -/
def Feeds (h : DecoderHandler) (requests : List Request) : Prop :=
  requests = [] ∨ ∃ packet delivered, requests = [.feedback packet delivered] ∧
    packet.flush = h.flushpos

theorem kept_confirm (h : DecoderHandler) (now : ℤ) (ok : Bool) : Kept h (h.confirm now ok) :=
  ⟨rfl, rfl, Or.inr rfl, Or.inr rfl, id⟩

theorem feeds_status (h : DecoderHandler) (now : ℤ) (delivered : Bool) :
    Feeds h [h.status now delivered] := Or.inr ⟨_, _, rfl, rfl⟩

/-- Trying a status message keeps the positions and the connection. -/
theorem timedFeedback_kept (h : DecoderHandler) (now : ℤ) (send : Send) :
    Kept h (timedFeedback h now send).2.1 ∧ Feeds h (timedFeedback h now send).2.2 ∧
      (timedFeedback h now send).2.1.conn = h.conn := by
  by_cases hd : feedbackDue h now
  · have hd' : standbyMessageTimeout > 0 ∧
        feTimestampDifferenceExceeds h.lastStatus now standbyMessageTimeout := hd
    rw [timedFeedback, if_pos hd', sendFeedback]
    by_cases hc : h.conn = .streaming
    · rcases send.ok <;> simp only [hc, Bool.not_true, Bool.false_eq_true, false_and, if_false,
        if_true, and_true]
      all_goals exact ⟨⟨rfl, rfl, Or.inr rfl, Or.inr rfl, fun _ => hc⟩, Or.inr ⟨_, _, rfl, rfl⟩⟩
    · simp only [hc, Bool.not_true, Bool.false_eq_true, false_and, if_false, and_true]
      exact ⟨⟨rfl, rfl, Or.inr rfl, Or.inr rfl, id⟩, Or.inl rfl⟩
  · rw [timedFeedback_of_not_due h hd]
    exact ⟨.refl h, Or.inl rfl, rfl⟩

/-- On a stream a status message fails only if it is due and cannot be sent. -/
theorem timedFeedback_fails {h : DecoderHandler} (hc : h.conn = .streaming) {now : ℤ} {send : Send}
    (hf : (timedFeedback h now send).1 = false) : feedbackDue h now ∧ send.ok = false := by
  by_cases hd : feedbackDue h now
  · rw [timedFeedback_of_due hc hd] at hf
    exact ⟨hd, hf⟩
  · rw [timedFeedback_of_not_due h hd] at hf
    exact absurd hf (by simp)

/-! ## The client -/

/-- The thread is running. -/
def Pc.live : Pc → Prop
  | exited | crashed => False
  | _ => True

instance : ∀ pc : Pc, Decidable pc.live
  | .exited | .crashed => inferInstanceAs (Decidable False)
  | .connect _ | .redo _ | .read _ => inferInstanceAs (Decidable True)

/-- The table after the row of a message is stored. -/
def putRow (l : TxLog Bytes) (kind : MsgKind) (row : Bytes) : TxLog Bytes :=
  match kind with
  | .begin => l.start.insert row
  | .commit => (l.insert row).commit
  | _ => l.insert row

/-- The events between the connects and the frames. -/
def Event.Quiet : Event → Prop
  | .connect _ | .frame _ _ => False
  | _ => True

namespace Receiver

variable {r r' : Receiver} {requests : List Request}

/-- The state after a message is stored. -/
def stored (r : Receiver) (kind : MsgKind) (row : Bytes) : Receiver :=
  ⟨.redo false, { r.handler with flushpos := r.handler.recvpos }, putRow r.db kind row⟩

theorem store_cases {msg : AliPgDecodeMessage} {kind : MsgKind} {row : Bytes}
    (ht : msg.type = some kind) (hrow : ∃ rc, outPutTupleToSql msg = .ok (rc, row))
    (outcome : LocalOutcome) :
    ¬ (r.store msg outcome).pc.live ∧ outcome ≠ ⟨true, true, true⟩ ∨
      r.store msg outcome = r.stored kind row := by
  obtain ⟨rc, hrow⟩ := hrow
  obtain ⟨b, i, e⟩ := outcome
  simp only [store, hrow, ht, stored, putRow]
  cases kind <;> cases b <;> cases i <;> cases e <;> simp [Pc.live]

/-- What a step between the connects and the frames can do. -/
inductive QuietStep (r : Receiver) : Receiver → List Request → Prop
  | stop : QuietStep r { r with pc := .exited, db := r.db.rollback } []
  | goto (pc : Pc) : QuietStep r { r with pc } []
  | leave (pc : Pc) {conn : Conn} (conn_ne : conn ≠ .streaming) :
    QuietStep r { r with pc, handler := { r.handler with conn } } []
  | fed (now : ℤ) (send : Send) (pc : Pc) :
    QuietStep r { r with pc, handler := (timedFeedback r.handler now send).2.1 }
      (timedFeedback r.handler now send).2.2
  | feedFailed (now : ℤ) (send : Send) :
    QuietStep r ({ r with handler := (timedFeedback r.handler now send).2.1 } : Receiver).error
      (timedFeedback r.handler now send).2.2

theorem quietStep {e : Event} (hs : r.step e = some (r', requests)) (he : e.Quiet) :
    QuietStep r r' requests := by
  rcases hpc : r.pc with first | inRedo | inRedo | _ | _ <;> cases e <;>
    simp only [step, hpc, read, reduceCtorEq] at hs
  case connect.timeToAbort =>
    cases first <;> simp only [Option.some.injEq, reduceCtorEq] at hs
    cases hs
    exact .stop
  case redo.timeToAbort =>
    cases hs
    exact .stop
  case redo.wake now send =>
    cases inRedo
    · cases hs
      exact .goto _
    · rcases hrc : (timedFeedback r.handler now send).1 <;> simp only [hrc, if_true] at hs <;>
        cases hs
      · exact .feedFailed now send
      · exact .fed now send _
  case read.noData select =>
    split_ifs at hs
    rcases select with _ | _ | _ | _ <;> cases hs
    · exact .goto _
    · exact .leave _ nofun
    · exact .leave _ nofun
    · exact .goto _
  case read.endOfCopy commandOk =>
    split_ifs at hs <;> cases hs
    · exact .leave _ nofun
    · exact .leave _ nofun
  case read.readFailed =>
    cases hs
    exact .leave _ nofun
  case read.frame => exact he.elim
  case connect.connect => exact he.elim

/-- **A step between the connects and the frames** keeps the positions and the table. -/
theorem step_quiet {e : Event} (hs : r.step e = some (r', requests)) (he : e.Quiet) :
    Kept r.handler r'.handler ∧ Feeds r.handler requests ∧
      r'.db.committed = r.db.committed ∧ (r'.pc.live → r'.db = r.db) := by
  cases quietStep hs he with
  | stop => exact ⟨.refl _, Or.inl rfl, rfl, nofun⟩
  | goto pc => exact ⟨.refl _, Or.inl rfl, rfl, fun _ => rfl⟩
  | leave pc hconn => exact ⟨(Kept.refl _).setConn hconn, Or.inl rfl, rfl, fun _ => rfl⟩
  | fed now send pc =>
    obtain ⟨hk, hf, -⟩ := timedFeedback_kept r.handler now send
    exact ⟨hk, hf, rfl, fun _ => rfl⟩
  | feedFailed now send =>
    obtain ⟨hk, hf, -⟩ := timedFeedback_kept r.handler now send
    exact ⟨hk.setConn nofun, hf, rfl, fun _ => rfl⟩

/-- **A connect** keeps the positions and the table, and starts the stream at `startpos`. -/
theorem step_connect {outcome : ConnectOutcome}
    (hs : r.step (.connect outcome) = some (r', requests)) :
    r'.db = r.db ∧
      ((requests = [] ∧ (r'.pc.live → r'.handler = { r.handler with conn := .null })) ∨
        (requests = [.startReplication r.handler.startpos] ∧
          r'.handler = { r.handler with
            conn := if outcome = .started then .streaming else .idle })) := by
  rcases hpc : r.pc with first | inRedo | inRedo | _ | _ <;>
    simp only [step, hpc, read, reduceCtorEq, Option.some.injEq] at hs
  cases outcome <;> cases first <;>
    simp only [connect, initStreaming, reduceCtorEq, if_false, if_true, Prod.mk.injEq] at hs <;>
    obtain ⟨rfl, rfl⟩ := hs <;> simp [Pc.live]

/-- A frame is read on a stream. -/
theorem step_frame {f : Frame} {outcome : LocalOutcome}
    (hs : r.step (.frame f outcome) = some (r', requests)) :
    r.handler.conn = .streaming ∧ ∃ inRedo, r.read inRedo (.frame f outcome) = some (r', requests) := by
  rcases hpc : r.pc with first | inRedo | inRedo | _ | _ <;>
    simp only [step, hpc, reduceCtorEq] at hs
  · refine ⟨?_, inRedo, hs⟩
    simp only [read] at hs
    split_ifs at hs with hc
    exact hc

/-- **A message of the stream** moves the receive position; unless a status message is due and
fails, its row is stored. -/
theorem step_data {x : XLogData} {kind : MsgKind} {row : Bytes} (hd : Delivers x kind row)
    {env : FrameEnv} {outcome : LocalOutcome}
    (hs : r.step (.frame (env.frame x.bytes) outcome) = some (r', requests)) :
    r.handler.conn = .streaming ∧ Feeds r.handler requests ∧
      ∃ h', Kept { r.handler with recvpos := x.lsn } h' ∧ h'.conn = .streaming ∧
        (r' = ({ r with handler := h' } : Receiver).error ∧
            feedbackDue r.handler env.now ∧ env.send.ok = false ∨
          ¬ r'.pc.live ∧ outcome ≠ ⟨true, true, true⟩ ∨
          r' = ({ r with handler := h' } : Receiver).stored kind row) := by
  obtain ⟨hc, inRedo, hs⟩ := step_frame hs
  obtain ⟨msg, ht, hrow, hexec⟩ := execFrame_data env r.handler hd
  obtain ⟨hk, hf, hc'⟩ := timedFeedback_kept { r.handler with recvpos := x.lsn } env.now env.send
  have hfail := @timedFeedback_fails { r.handler with recvpos := x.lsn } hc env.now env.send
  simp only [read] at hs
  rw [if_pos hc, hexec] at hs
  refine ⟨hc, ?_⟩
  rcases hrc : (timedFeedback { r.handler with recvpos := x.lsn } env.now env.send).1 <;>
    simp only [hrc, if_true, Bool.false_eq_true, if_false, Option.some.injEq, Prod.mk.injEq] at hs <;>
    obtain ⟨rfl, rfl⟩ := hs
  · exact ⟨hf, _, hk, hc'.trans hc, Or.inl ⟨rfl, hfail hrc⟩⟩
  · exact ⟨hf, _, hk, hc'.trans hc, Or.inr (store_cases ht hrow outcome)⟩

/-- **A keepalive** raises the receive position. -/
theorem step_keepalive {walEnd sendTime : UInt64} {reply : UInt8} {env : FrameEnv}
    {outcome : LocalOutcome}
    (hs : r.step (.frame (env.frame (keepalive walEnd sendTime reply)) outcome) =
      some (r', requests)) :
    r.handler.conn = .streaming ∧ Feeds r.handler requests ∧ r'.db = r.db ∧
      Kept { r.handler with recvpos := max walEnd.toNat r.handler.recvpos } r'.handler := by
  obtain ⟨hc, inRedo, hs⟩ := step_frame hs
  simp only [read] at hs
  rw [if_pos hc, execFrame_keepalive env hc] at hs
  refine ⟨hc, ?_⟩
  by_cases hr : reply = 0
  · simp only [hr, if_true] at hs
    cases hs
    exact ⟨Or.inl rfl, rfl, .refl _⟩
  · simp only [hr, if_false] at hs
    rcases hok : env.send.ok <;>
      simp only [hok, if_true, Bool.false_eq_true, if_false] at hs <;> cases hs
    · exact ⟨feeds_status _ _ _, rfl, (kept_confirm _ _ _).setConn nofun⟩
    · exact ⟨feeds_status _ _ _, rfl, kept_confirm _ _ _⟩

end Receiver

/-! ## The system -/

namespace System

/-- A status message reached the server, or none did. -/
def Fed (s s' : System) : Prop :=
  (s'.acks = s.acks ∧ s'.confirmed = s.confirmed) ∨
    (s'.acks = s.acks ++ [(s.receiver.handler.flushpos, s.receiver.db.committed)] ∧
      (s'.confirmed = s.confirmed ∨ s'.confirmed = s.receiver.handler.flushpos))

/-- **The steps of the system**, by event, with what each can do. -/
inductive Step (H : History) (s : System) : StreamEvent → System → Prop
  | quiet {e s'} (kept : Kept s.receiver.handler s'.receiver.handler) (fed : Fed s s')
      (queue : s'.queue = s.queue ∧ s'.sent = s.sent)
      (committed : s'.receiver.db.committed = s.receiver.db.committed)
      (db : s'.receiver.pc.live → s'.receiver.db = s.receiver.db) : Step H s (.client e) s'
  | down {outcome s'} (db : s'.receiver.db = s.receiver.db)
      (handler : s'.receiver.pc.live →
        s'.receiver.handler = { s.receiver.handler with conn := .null })
      (server : s'.acks = s.acks ∧ s'.confirmed = s.confirmed) :
      Step H s (.client (.connect outcome)) s'
  | start {outcome s'} (db : s'.receiver.db = s.receiver.db)
      (handler : s'.receiver.handler = { s.receiver.handler with
        conn := if outcome = .started then .streaming else .idle })
      (acks : s'.acks = s.acks ++ [(s.receiver.handler.startpos, s.receiver.db.committed)])
      (confirmed : s'.confirmed = s.confirmed)
      (queue : outcome = .started → s'.sent = 0 ∧
        s'.queue = OrderedLog.since StreamTxn.commitLsn
          (max s.receiver.handler.startpos s.confirmed) H.txns) :
      Step H s (.client (.connect outcome)) s'
  | data {env outcome s'} (item : StreamItem) (next : s.next = some item)
      (conn : s.receiver.handler.conn = .streaming) (fed : Fed s s')
      (queue : s'.queue = s.advance.queue ∧ s'.sent = s.advance.sent) (h' : DecoderHandler)
      (kept : Kept { s.receiver.handler with recvpos := item.data.lsn } h')
      (conn' : h'.conn = .streaming)
      (result : s'.receiver = ({ s.receiver with handler := h' } : Receiver).error ∧
          feedbackDue s.receiver.handler env.now ∧ env.send.ok = false ∨
        ¬ s'.receiver.pc.live ∧ outcome ≠ ⟨true, true, true⟩ ∨
        s'.receiver = ({ s.receiver with handler := h' } : Receiver).stored item.kind item.row) :
      Step H s (.data env outcome) s'
  | keepalive {walEnd sendTime reply env s'} (bound : ∀ t ∈ s.queue, walEnd.toNat ≤ t.commitLsn)
      (conn : s.receiver.handler.conn = .streaming) (fed : Fed s s')
      (queue : s'.queue = s.queue ∧ s'.sent = s.sent) (db : s'.receiver.db = s.receiver.db)
      (kept : Kept { s.receiver.handler with
        recvpos := max walEnd.toNat s.receiver.handler.recvpos } s'.receiver.handler) :
      Step H s (.keepalive walEnd sendTime reply env) s'

variable {H : History} {s s' : System}

theorem serve_feeds {requests : List Request} (hf : Feeds s.receiver.handler requests)
    (r r' : Receiver) (queue : List StreamTxn) (sent : ℕ) :
    ∃ acks confirmed, requests.foldl (serve H s.receiver.db.committed r')
        ⟨r, queue, sent, s.confirmed, s.acks⟩ = ⟨r, queue, sent, confirmed, acks⟩ ∧
      Fed s ⟨r, queue, sent, confirmed, acks⟩ := by
  rcases hf with rfl | ⟨packet, _ | _, rfl, hflush⟩
  · exact ⟨_, _, rfl, Or.inl ⟨rfl, rfl⟩⟩
  · exact ⟨_, _, rfl, Or.inl ⟨rfl, rfl⟩⟩
  · refine ⟨_, _, rfl, Or.inr ⟨by rw [hflush], ?_⟩⟩
    rw [hflush]
    split_ifs
    · exact Or.inl rfl
    · exact Or.inr rfl

/-- The client's part of a step, and the server's answer to it. -/
theorem clientStep_cases {e : Event} (h : s.clientStep H e = some s') :
    ∃ r' requests, s.receiver.step e = some (r', requests) ∧
      s' = requests.foldl (serve H s.receiver.db.committed r') { s with receiver := r' } := by
  obtain ⟨⟨r', requests⟩, hr, hs⟩ := Option.map_eq_some_iff.1 h
  exact ⟨r', requests, hr, hs.symm⟩

theorem advance_eq : s.advance =
    ⟨s.receiver, s.advance.queue, s.advance.sent, s.confirmed, s.acks⟩ := by
  unfold advance
  rcases s.queue with _ | ⟨t, rest⟩
  · rfl
  · dsimp only; split_ifs <;> rfl

/-- Only a running thread makes a step. -/
theorem live_of_step {e : StreamEvent} (h : s.step H e = some s') : s.receiver.pc.live := by
  have hr : ∀ {r : Receiver} {e : Event} {p}, r.step e = some p → r.pc.live := by
    intro r e p hp
    rcases hpc : r.pc <;> first | trivial | (simp only [Receiver.step, hpc, reduceCtorEq] at hp)
  rcases e with e | ⟨env, outcome⟩ | ⟨walEnd, sendTime, reply, env⟩
  · have h : s.clientStep H e = some s' := by
      cases e <;> first | exact h | cases h
    obtain ⟨p, hp, -⟩ := Option.map_eq_some_iff.1 h
    exact hr hp
  · obtain ⟨item, -, h⟩ := Option.bind_eq_some_iff.1 h
    obtain ⟨p, hp, -⟩ := Option.map_eq_some_iff.1 h
    rw [advance_eq] at hp
    exact hr hp
  · simp only [step] at h
    split_ifs at h
    obtain ⟨p, hp, -⟩ := Option.map_eq_some_iff.1 h
    exact hr hp

theorem step_cases {e : StreamEvent} (h : s.step H e = some s') : Step H s e s' := by
  rcases e with e | ⟨env, outcome⟩ | ⟨walEnd, sendTime, reply, env⟩
  · by_cases hq : e.Quiet
    · have h : s.clientStep H e = some s' := by
        cases e <;> first | exact hq.elim | exact h
      obtain ⟨r', requests, hr, rfl⟩ := clientStep_cases h
      obtain ⟨hk, hf, hc, hdb⟩ := Receiver.step_quiet hr hq
      obtain ⟨acks, confirmed, hserve, hfed⟩ := serve_feeds hf r' r' s.queue s.sent
      rw [hserve]
      exact .quiet hk hfed ⟨rfl, rfl⟩ hc hdb
    · cases e with
      | connect outcome =>
        obtain ⟨r', requests, hr, rfl⟩ := clientStep_cases h
        obtain ⟨hdb, ⟨rfl, hh⟩ | ⟨rfl, hh⟩⟩ := Receiver.step_connect hr
        · exact .down hdb hh ⟨rfl, rfl⟩
        · have hconn : r'.handler.conn = .streaming ↔ outcome = .started := by
            rw [hh]; by_cases ho : outcome = .started <;> simp [ho]
          by_cases ho : outcome = .started
          · simp only [List.foldl_cons, List.foldl_nil, serve]
            rw [if_pos (hconn.2 ho)]
            exact .start hdb hh rfl rfl fun _ => ⟨rfl, rfl⟩
          · simp only [List.foldl_cons, List.foldl_nil, serve]
            rw [if_neg (mt hconn.1 ho)]
            exact .start hdb hh rfl rfl fun h => absurd h ho
      | frame f outcome => cases h
      | timeToAbort | wake _ _ | noData _ | endOfCopy _ | readFailed => exact absurd trivial hq
  · obtain ⟨item, hi, h⟩ := Option.bind_eq_some_iff.1 h
    obtain ⟨r', requests, hr, rfl⟩ := clientStep_cases h
    rw [advance_eq] at hr ⊢
    obtain ⟨hc, hf, h', hk, hc', hres⟩ := Receiver.step_data item.delivers hr
    obtain ⟨acks, confirmed, hserve, hfed⟩ := serve_feeds hf r' r' s.advance.queue s.advance.sent
    rw [hserve]
    exact .data item hi hc hfed ⟨rfl, rfl⟩ h' hk hc' hres
  · simp only [step] at h
    split_ifs at h with hb
    obtain ⟨r', requests, hr, rfl⟩ := clientStep_cases h
    obtain ⟨hc, hf, hdb, hk⟩ := Receiver.step_keepalive hr
    obtain ⟨acks, confirmed, hserve, hfed⟩ := serve_feeds hf r' r' s.queue s.sent
    rw [hserve]
    exact .keepalive hb hc hfed ⟨rfl, rfl⟩ hdb hk

end System

end RdsDbsync
