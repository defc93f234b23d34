/-
  The order of the feedback positions: what the status messages of the receive thread tell
  the server, and where they move the slot.

  The thread reads frames of any kind in any order.  A data frame sets the receive
  position to its own, where a keepalive only raises it.

  `feedbackMonotone_of_run`: the positions never move backwards in a run in which no data
  frame is behind the receive position, or behind a transaction that is stored and
  confirmed.
-/
import RdsDbsync.Durability

namespace RdsDbsync

open Bytes

/-! ## The thread and its slot -/

/-- A position of the slot, with the positions of the local transactions stored at the time. -/
structure Confirmation where
  pos : ℕ
  stored : List ℕ

/-- The thread, with the status messages it has sent, the positions of the transactions that are
stored locally, and those of the slot; the newest come last. -/
structure FeedbackLoop where
  receiver : Receiver := {}
  packets : List StatusUpdate := []
  stored : List ℕ
  confirmed : ℕ
  confirmations : List Confirmation

namespace FeedbackLoop

/-- The server gets a request. -/
def serve (s : FeedbackLoop) : Request → FeedbackLoop
  | .startReplication _ => s
  | .feedback packet delivered =>
    let s := { s with packets := s.packets ++ [packet] }
    if delivered ∧ packet.flush ≠ 0 then
      { s with
        confirmed := packet.flush
        confirmations := s.confirmations ++ [⟨packet.flush, s.stored⟩] }
    else s

/-- One step of the thread: its requests come before the rows it stores. -/
def step (s : FeedbackLoop) (e : Event) : Option FeedbackLoop :=
  (s.receiver.step e).map fun (r, requests) =>
    { requests.foldl serve s with
      receiver := r
      stored := if r.db.committed.length = s.receiver.db.committed.length then s.stored
        else s.stored ++ [r.handler.flushpos] }

/-- The thread starts on a slot at `slot`; `earlier` are the positions of the transactions that
earlier processes have stored in `log`. -/
def init (slot : ℕ) (earlier : List ℕ) (log : List (List Bytes)) : FeedbackLoop where
  receiver := { db := ⟨log, none⟩ }
  stored := earlier
  confirmed := slot
  confirmations := [⟨slot, earlier⟩]

end FeedbackLoop

/-- **Feedback positions never move backwards**: not those of successive status messages, and the
slot never goes back behind a transaction that was stored and confirmed. -/
structure FeedbackMonotone (s : FeedbackLoop) : Prop where
  packets : s.packets.Pairwise fun p q => p.write ≤ q.write ∧ p.flush ≤ q.flush
  confirmed : s.confirmations.Pairwise fun a b => ∀ l ∈ a.stored, l ≤ a.pos → l ≤ b.pos

/-- The position of a data frame that has a payload. -/
def Frame.xLogPos (f : Frame) : Option ℕ :=
  let (c, s) := pqGetmsgbyte ⟨f.data, f.stale⟩
  if c = ch 'w' ∧ ¬ f.data.length < 1 + 8 + 8 + 8 + 1 then
    let (startLsn, s) := pqGetmsgint64 s
    let (endLsn, _) := pqGetmsgint64 s
    some (max startLsn.toNat endLsn.toNat)
  else none

/-- The position of a data frame that arrives. -/
def Event.xLogPos : Event → Option ℕ
  | .frame f _ => f.xLogPos
  | _ => none

/-- A data frame that arrives is not behind the receive position, nor behind a stored transaction
that is confirmed. -/
def FrameAhead (s : FeedbackLoop) (e : Event) : Prop :=
  ∀ pos ∈ e.xLogPos, s.receiver.handler.recvpos ≤ pos ∧
    ∀ l ∈ s.stored, l ≤ s.confirmed → l ≤ pos

instance (s : FeedbackLoop) (e : Event) : Decidable (FrameAhead s e) :=
  inferInstanceAs (Decidable (∀ pos ∈ e.xLogPos, _))

/-! ## What a step does to the positions -/

/-- The requests of a step that may have sent the positions of `h`. -/
def Sends (h : DecoderHandler) (requests : List Request) : Prop :=
  requests = [] ∨ ∃ packet delivered, requests = [.feedback packet delivered] ∧
    packet.write = h.recvpos ∧ packet.flush = h.flushpos

theorem sendFeedback_sends (h : DecoderHandler) (now : ℤ) (force reply : Bool) (send : Send) :
    (sendFeedback h now force reply send).2.1.recvpos = h.recvpos ∧
      (sendFeedback h now force reply send).2.1.flushpos = h.flushpos ∧
      Sends h (sendFeedback h now force reply send).2.2 := by
  rw [sendFeedback]
  by_cases hskip : !force ∧ h.lastRecvpos = h.recvpos
  · rw [if_pos hskip]
    exact ⟨rfl, rfl, Or.inl rfl⟩
  · rw [if_neg hskip]
    by_cases hconn : h.conn = .streaming
    · simp only [hconn, if_true]
      exact ⟨trivial, trivial, Or.inr ⟨_, _, rfl, rfl, rfl⟩⟩
    · simp only [hconn, if_false]
      exact ⟨trivial, trivial, Or.inl rfl⟩

theorem timedFeedback_sends (h : DecoderHandler) (now : ℤ) (send : Send) :
    (timedFeedback h now send).2.1.recvpos = h.recvpos ∧
      (timedFeedback h now send).2.1.flushpos = h.flushpos ∧
      Sends h (timedFeedback h now send).2.2 := by
  have hsends := sendFeedback_sends h now true false send
  by_cases hdue : feedbackDue h now
  · have heq : timedFeedback h now send = if (sendFeedback h now true false send).1 then
        (true, { (sendFeedback h now true false send).2.1 with lastStatus := now },
          (sendFeedback h now true false send).2.2)
        else (false, (sendFeedback h now true false send).2) := if_pos hdue
    rw [heq]
    split_ifs
    · exact hsends
    · exact hsends
  · rw [timedFeedback_of_not_due h hdue]
    exact ⟨rfl, rfl, Or.inl rfl⟩

/-- Whether a frame, or another event, may move the receive position to `q`. -/
def MovesTo (h : DecoderHandler) (pos : Option ℕ) (q : ℕ) : Prop :=
  pos = some q ∨ pos = none ∧ h.recvpos ≤ q

theorem execKeepalive_sends (h : DecoderHandler) (f : Frame) :
    (execKeepalive h f).2.1.recvpos = max (f.feRecvint64 1) h.recvpos ∧
      (execKeepalive h f).2.1.flushpos = h.flushpos ∧
      Sends { h with recvpos := max (f.feRecvint64 1) h.recvpos } (execKeepalive h f).2.2 ∧
      ∀ msg, (execKeepalive h f).1 ≠ .message msg := by
  rw [execKeepalive]
  generalize max (f.feRecvint64 1) h.recvpos = pos
  obtain ⟨hr, hf, hs⟩ := sendFeedback_sends { h with recvpos := pos } f.now true false f.send
  dsimp only
  split_ifs
  · exact ⟨rfl, rfl, Or.inl rfl, fun _ h => FrameResult.noConfusion h⟩
  · exact ⟨hr, hf, hs, fun _ h => FrameResult.noConfusion h⟩
  · exact ⟨hr, hf, hs, fun _ h => FrameResult.noConfusion h⟩
  · exact ⟨rfl, rfl, Or.inl rfl, fun _ h => FrameResult.noConfusion h⟩

/-- The position that is read from a data frame. -/
def xLogDataPos (s : StringInfo) : ℕ :=
  max (pqGetmsgint64 s).1.toNat (pqGetmsgint64 (pqGetmsgint64 s).2).1.toNat

theorem execXLogData_sends (h : DecoderHandler) {f : Frame} (s : StringInfo)
    (hlen : ¬ f.data.length < 1 + 8 + 8 + 8 + 1) :
    (execXLogData h f s).2.1.recvpos = xLogDataPos s ∧
      (execXLogData h f s).2.1.flushpos = h.flushpos ∧
      Sends { h with recvpos := xLogDataPos s } (execXLogData h f s).2.2 := by
  rw [xLogDataPos, execXLogData, if_neg hlen]
  rcases pqGetmsgint64 s with ⟨startLsn, s₁⟩
  dsimp only
  rcases pqGetmsgint64 s₁ with ⟨endLsn, s₂⟩
  dsimp only
  obtain ⟨hr, hf, hs⟩ := timedFeedback_sends
    { h with recvpos := max startLsn.toNat endLsn.toNat } f.now f.send
  generalize bdrProcessRemoteAction (pqGetmsgint64 s₂).2 {} = result
  rcases result with fault | ⟨rc, s', msg⟩
  · exact ⟨rfl, rfl, Or.inl rfl⟩
  · cases rc
    · exact ⟨rfl, rfl, Or.inl rfl⟩
    · exact ⟨hr, hf, hs⟩

/-- **A frame** moves the receive position, and may send it; a message is one of a data frame. -/
theorem execFrame_sends (h : DecoderHandler) (f : Frame) :
    ∃ pos, MovesTo h f.xLogPos pos ∧ (execFrame h f).2.1.recvpos = pos ∧
      (execFrame h f).2.1.flushpos = h.flushpos ∧
      Sends { h with recvpos := pos } (execFrame h f).2.2 ∧
      ∀ msg, (execFrame h f).1 = .message msg → f.xLogPos = some pos := by
  rw [execFrame, Frame.xLogPos]
  rcases pqGetmsgbyte ⟨f.data, f.stale⟩ with ⟨c, s⟩
  dsimp only
  by_cases hk : c = ch 'k'
  · have hw : ¬ (c = ch 'w' ∧ ¬ f.data.length < 1 + 8 + 8 + 8 + 1) :=
      fun h => absurd (hk.symm.trans h.1) (by decide)
    rw [if_pos hk, if_neg hw]
    obtain ⟨hr, hf, hs, hm⟩ := execKeepalive_sends h f
    exact ⟨_, Or.inr ⟨rfl, le_max_right _ _⟩, hr, hf, hs, fun msg h => absurd h (hm msg)⟩
  · rw [if_neg hk]
    by_cases hw : c = ch 'w'
    · rw [if_pos hw]
      by_cases hlen : f.data.length < 1 + 8 + 8 + 8 + 1
      · rw [execXLogData, if_pos hlen, if_neg fun h => h.2 hlen]
        exact ⟨_, Or.inr ⟨rfl, le_rfl⟩, rfl, rfl, Or.inl rfl, fun _ h => FrameResult.noConfusion h⟩
      · rw [if_pos ⟨hw, hlen⟩]
        obtain ⟨hr, hf, hs⟩ := execXLogData_sends h s hlen
        exact ⟨_, Or.inl rfl, hr, hf, hs, fun _ _ => rfl⟩
    · rw [if_neg hw, if_neg fun h => hw h.1]
      exact ⟨_, Or.inr ⟨rfl, le_rfl⟩, rfl, rfl, Or.inl rfl, fun _ h => FrameResult.noConfusion h⟩

namespace Receiver

variable {r r' : Receiver} {requests : List Request}

/-- Storing a message declares the receive position as flushed, or leaves the positions. -/
theorem store_positions (r : Receiver) (msg : AliPgDecodeMessage) (outcome : LocalOutcome) :
    (r.store msg outcome).handler.recvpos = r.handler.recvpos ∧
      ((r.store msg outcome).handler.flushpos = r.handler.flushpos ∨
        (r.store msg outcome).handler.flushpos = r.handler.recvpos) := by
  rw [store]
  rcases outPutTupleToSql msg with fault | ⟨rc, text⟩
  · cases fault <;> exact ⟨rfl, Or.inl rfl⟩
  · dsimp only
    by_cases hbegin : msg.type = some .begin ∧ !outcome.beginOk
    · rw [if_pos hbegin]
      exact ⟨rfl, Or.inl rfl⟩
    · rw [if_neg hbegin]
      by_cases hinsert : !outcome.insertOk
      · rw [if_pos hinsert]
        exact ⟨rfl, Or.inl rfl⟩
      · rw [if_neg hinsert]
        split_ifs <;> exact ⟨rfl, Or.inr rfl⟩

/-- What a step does to the positions: it may move the receive position, then send a status
message, then declare the receive position as flushed. -/
structure Moves (r r' : Receiver) (requests : List Request) (pos : Option ℕ) : Prop where
  recvpos : MovesTo r.handler pos r'.handler.recvpos
  sends : (∃ startpos, requests = [.startReplication startpos]) ∨
    Sends { r.handler with recvpos := r'.handler.recvpos } requests
  flushpos : r'.handler.flushpos = r.handler.flushpos ∨
    pos = some r'.handler.recvpos ∧ r'.handler.flushpos = r'.handler.recvpos

/-- A step that leaves the positions and may send them. -/
theorem Moves.still (hr : r'.handler.recvpos = r.handler.recvpos)
    (hf : r'.handler.flushpos = r.handler.flushpos) (hs : Sends r.handler requests) :
    Moves r r' requests none := by
  refine ⟨Or.inr ⟨rfl, hr.ge⟩, Or.inr ?_, Or.inl hf⟩
  rw [hr]
  exact hs

theorem connect_moves (r : Receiver) (first : Bool) (outcome : ConnectOutcome) :
    Moves r (r.connect first outcome).1 (r.connect first outcome).2 none := by
  have still : ∀ {r' : Receiver}, r'.handler.recvpos = r.handler.recvpos →
      r'.handler.flushpos = r.handler.flushpos → Moves r r' [] none :=
    fun hr hf => .still hr hf (Or.inl rfl)
  rcases outcome with _ | _ | _ | _ | _
  · exact still rfl rfl
  · cases first <;> exact still rfl rfl
  · cases first <;> exact still rfl rfl
  · exact ⟨Or.inr ⟨rfl, le_rfl⟩, Or.inl ⟨_, rfl⟩, Or.inl rfl⟩
  · exact ⟨Or.inr ⟨rfl, le_rfl⟩, Or.inl ⟨_, rfl⟩, Or.inl rfl⟩

/-- The step at a frame. -/
theorem frame_moves {f : Frame} {outcome : LocalOutcome}
    (hs : r.step (.frame f outcome) = some (r', requests)) : Moves r r' requests f.xLogPos := by
  obtain ⟨hc, inRedo, hs⟩ := step_frame hs
  obtain ⟨pos, hto, hr, hf, hsends, hmsg⟩ := execFrame_sends r.handler f
  simp only [read] at hs
  rw [if_pos hc] at hs
  generalize execFrame r.handler f = done at hs hr hf hsends hmsg
  obtain ⟨result, h', requests'⟩ := done
  obtain rfl : h'.recvpos = pos := hr
  have quiet : ∀ {t : Receiver}, t.handler.recvpos = h'.recvpos → t.handler.flushpos = h'.flushpos →
      Moves r t requests' f.xLogPos := by
    intro t hr' hf'
    refine ⟨hr'.symm ▸ hto, Or.inr ?_, Or.inl (hf'.trans hf)⟩
    rw [hr']
    exact hsends
  rcases result with _ | msg | _ | fault
  · cases hs
    exact quiet rfl rfl
  · cases hs
    obtain ⟨hr', hf'⟩ := store_positions { r with handler := h' } msg outcome
    rcases hf' with hf' | hf'
    · exact quiet hr' hf'
    · refine ⟨hr'.symm ▸ hto, Or.inr ?_, Or.inr ⟨?_, hf'.trans hr'.symm⟩⟩
      · rw [hr']
        exact hsends
      · rw [hr']
        exact hmsg msg rfl
  · cases hs
    exact quiet rfl rfl
  · cases fault <;> cases hs <;> exact quiet rfl rfl

theorem QuietStep.moves (h : QuietStep r r' requests) : Moves r r' requests none := by
  cases h with
  | stop => exact .still rfl rfl (Or.inl rfl)
  | goto pc => exact .still rfl rfl (Or.inl rfl)
  | leave pc hconn => exact .still rfl rfl (Or.inl rfl)
  | fed now send pc =>
    obtain ⟨hr, hf, hsends⟩ := timedFeedback_sends r.handler now send
    exact .still hr hf hsends
  | feedFailed now send =>
    obtain ⟨hr, hf, hsends⟩ := timedFeedback_sends r.handler now send
    exact .still hr hf hsends

/-- **One step of the thread**, on any event. -/
theorem step_moves {e : Event} (hs : r.step e = some (r', requests)) :
    Moves r r' requests e.xLogPos := by
  cases e with
  | frame f outcome => exact frame_moves hs
  | connect outcome =>
    rcases hpc : r.pc with first | inRedo | inRedo | _ | _ <;>
      simp only [step, hpc, read, reduceCtorEq, Option.some.injEq] at hs
    have hmoves := connect_moves r first outcome
    rw [hs] at hmoves
    exact hmoves
  | wake _ _ | timeToAbort | noData _ | endOfCopy _ | readFailed =>
    exact (quietStep hs trivial).moves

end Receiver

/-! ## The invariant -/

/-- The positions sent so far and those of the slot are in order, and the next ones are not behind
them. -/
structure FeedbackInv (s : FeedbackLoop) : Prop where
  monotone : FeedbackMonotone s
  sent : ∀ p ∈ s.packets,
    p.write ≤ s.receiver.handler.recvpos ∧ p.flush ≤ s.receiver.handler.flushpos
  flush_le : s.receiver.handler.flushpos ≤ s.receiver.handler.recvpos
  vouched : ∀ a ∈ s.confirmations, ∀ l ∈ a.stored, l ≤ a.pos →
    l ∈ s.stored ∧ l ≤ s.confirmed ∧
      (s.receiver.handler.flushpos ≠ 0 → l ≤ s.receiver.handler.flushpos)

namespace FeedbackInv

variable {s s' : FeedbackLoop}

/-- Positions that move forward, with nothing sent. -/
theorem forward (hI : FeedbackInv s) (hpackets : s'.packets = s.packets)
    (hconfirmed : s'.confirmed = s.confirmed) (hconfirmations : s'.confirmations = s.confirmations)
    (hstored : s.stored ⊆ s'.stored)
    (hrecv : s.receiver.handler.recvpos ≤ s'.receiver.handler.recvpos)
    (hflush : s'.receiver.handler.flushpos = s.receiver.handler.flushpos ∨
      s'.receiver.handler.flushpos = s'.receiver.handler.recvpos ∧
        ∀ l ∈ s.stored, l ≤ s.confirmed → l ≤ s'.receiver.handler.recvpos) : FeedbackInv s' := by
  have hle : s.receiver.handler.flushpos ≤ s'.receiver.handler.flushpos := by
    rcases hflush with h | ⟨h, -⟩
    · exact h.ge
    · exact h ▸ hI.flush_le.trans hrecv
  refine ⟨⟨hpackets ▸ hI.monotone.packets, hconfirmations ▸ hI.monotone.confirmed⟩, ?_, ?_, ?_⟩
  · intro p hp
    obtain ⟨hw, hf⟩ := hI.sent p (hpackets ▸ hp)
    exact ⟨hw.trans hrecv, hf.trans hle⟩
  · rcases hflush with h | ⟨h, -⟩
    · exact h ▸ hI.flush_le.trans hrecv
    · exact h.le
  · intro a ha l hl hpos
    obtain ⟨hmem, hconf, hflush'⟩ := hI.vouched a (hconfirmations ▸ ha) l hl hpos
    refine ⟨hstored hmem, hconfirmed ▸ hconf, ?_⟩
    intro hne
    rcases hflush with h | ⟨h, hahead⟩
    · rw [h] at hne ⊢
      exact hflush' hne
    · exact h ▸ hahead l hmem hconf

/-- A status message is sent, which the server may get. -/
theorem status (hI : FeedbackInv s) {packet : StatusUpdate}
    (hwrite : packet.write = s.receiver.handler.recvpos)
    (hflush : packet.flush = s.receiver.handler.flushpos) (delivered : Bool) :
    FeedbackInv (s.serve (.feedback packet delivered)) := by
  have hpackets : (s.packets ++ [packet]).Pairwise fun p q =>
      p.write ≤ q.write ∧ p.flush ≤ q.flush := by
    refine List.pairwise_append.2 ⟨hI.monotone.packets, List.pairwise_singleton _ _, ?_⟩
    intro p hp q hq
    obtain rfl := List.mem_singleton.1 hq
    rw [hwrite, hflush]
    exact hI.sent p hp
  have hsent : ∀ p ∈ s.packets ++ [packet],
      p.write ≤ s.receiver.handler.recvpos ∧ p.flush ≤ s.receiver.handler.flushpos := by
    intro p hp
    rcases List.mem_append.1 hp with hp | hp
    · exact hI.sent p hp
    · obtain rfl := List.mem_singleton.1 hp
      exact ⟨hwrite.le, hflush.le⟩
  rw [FeedbackLoop.serve]
  dsimp only
  by_cases hconfirm : delivered ∧ packet.flush ≠ 0
  · rw [if_pos hconfirm]
    have hne : s.receiver.handler.flushpos ≠ 0 := hflush ▸ hconfirm.2
    refine ⟨⟨hpackets, ?_⟩, hsent, hI.flush_le, ?_⟩
    · refine List.pairwise_append.2 ⟨hI.monotone.confirmed, List.pairwise_singleton _ _, ?_⟩
      intro a ha b hb l hl hpos
      obtain rfl := List.mem_singleton.1 hb
      exact hflush.ge.trans' ((hI.vouched a ha l hl hpos).2.2 hne)
    · intro a ha l hl hpos
      rcases List.mem_append.1 ha with ha | ha
      · obtain ⟨hmem, -, hle⟩ := hI.vouched a ha l hl hpos
        exact ⟨hmem, (hle hne).trans hflush.ge, hle⟩
      · obtain rfl := List.mem_singleton.1 ha
        exact ⟨hl, hpos, fun _ => hpos.trans hflush.le⟩
  · rw [if_neg hconfirm]
    exact ⟨⟨hpackets, hI.monotone.confirmed⟩, hsent, hI.flush_le, hI.vouched⟩

/-- The requests of a step, of which one may be a status message. -/
theorem requests (hI : FeedbackInv s) {requests : List Request}
    (hs : (∃ startpos, requests = [.startReplication startpos]) ∨
      Sends s.receiver.handler requests) :
    FeedbackInv (requests.foldl FeedbackLoop.serve s) := by
  rcases hs with ⟨startpos, rfl⟩ | rfl | ⟨packet, delivered, rfl, hwrite, hflush⟩
  · exact hI
  · exact hI
  · exact hI.status hwrite hflush delivered

end FeedbackInv

namespace FeedbackLoop

variable {s s' : FeedbackLoop}

/-- The server does not look at the thread. -/
theorem serve_receiver (s : FeedbackLoop) (r : Receiver) (request : Request) :
    serve { s with receiver := r } request = { s.serve request with receiver := r } := by
  cases request with
  | startReplication pos => rfl
  | feedback packet delivered =>
    rw [serve, serve]
    dsimp only
    split_ifs <;> rfl

theorem foldl_serve_receiver (s : FeedbackLoop) (r : Receiver) (requests : List Request) :
    requests.foldl serve { s with receiver := r } =
      { requests.foldl serve s with receiver := r } := by
  induction requests generalizing s with
  | nil => rfl
  | cons request requests ih => rw [List.foldl_cons, List.foldl_cons, serve_receiver, ih]

/-- A request leaves the local transactions, and may confirm what is flushed. -/
theorem foldl_serve {h : DecoderHandler} {requests : List Request}
    (hs : (∃ startpos, requests = [.startReplication startpos]) ∨ Sends h requests) :
    (requests.foldl serve s).stored = s.stored ∧
      ((requests.foldl serve s).confirmed = s.confirmed ∨
        (requests.foldl serve s).confirmed = h.flushpos) := by
  rcases hs with ⟨startpos, rfl⟩ | rfl | ⟨packet, delivered, rfl, -, hflush⟩
  · exact ⟨rfl, Or.inl rfl⟩
  · exact ⟨rfl, Or.inl rfl⟩
  · rw [List.foldl_cons, List.foldl_nil, serve]
    dsimp only
    split_ifs
    · exact ⟨rfl, Or.inr hflush⟩
    · exact ⟨rfl, Or.inl rfl⟩

/-- **One step keeps the invariant**, unless a data frame is behind. -/
theorem feedbackInv_step {e : Event} (hI : FeedbackInv s) (hok : FrameAhead s e)
    (h : s.step e = some s') : FeedbackInv s' := by
  obtain ⟨⟨r, requests⟩, hr, rfl⟩ := Option.map_eq_some_iff.1 h
  obtain ⟨hto, hsends, hflush⟩ := Receiver.step_moves hr
  have hle : s.receiver.handler.recvpos ≤ r.handler.recvpos := by
    rcases hto with hpos | ⟨-, hle⟩
    · exact (hok _ hpos).1
    · exact hle
  -- the receive position moves, then the requests are sent, then the rows are stored
  have hmoved : FeedbackInv { s with receiver := { s.receiver with
      handler := { s.receiver.handler with recvpos := r.handler.recvpos } } } :=
    hI.forward rfl rfl rfl (List.Subset.refl _) hle (Or.inl rfl)
  have hsent := hmoved.requests hsends
  obtain ⟨hstored, hconfirmed⟩ := foldl_serve (s := s) hsends
  rw [foldl_serve_receiver] at hsent
  refine hsent.forward rfl rfl rfl ?_ le_rfl ?_
  · dsimp only
    rw [hstored]
    split_ifs
    · exact List.Subset.refl _
    · exact List.subset_append_left _ _
  · rcases hflush with hflush | ⟨hpos, hflush⟩
    · exact Or.inl hflush
    · refine Or.inr ⟨hflush, ?_⟩
      dsimp only
      rw [hstored]
      intro l hl hconf
      rcases hconfirmed with hc | hc
      · exact (hok _ hpos).2 l hl (hc ▸ hconf)
      · exact (hc ▸ hconf).trans (hI.flush_le.trans hle)

theorem feedbackInv_init (slot : ℕ) (earlier : List ℕ) (log : List (List Bytes)) :
    FeedbackInv (init slot earlier log) := by
  refine ⟨⟨List.Pairwise.nil, List.pairwise_singleton _ _⟩, nofun, le_rfl, ?_⟩
  intro a ha l hl hpos
  obtain rfl := List.mem_singleton.1 ha
  exact ⟨hl, hpos, fun hne => absurd rfl hne⟩

end FeedbackLoop

/-- **Feedback positions never move backwards** in a run in which no data frame is behind the
receive position, or behind a transaction that is stored and confirmed. -/
theorem feedbackMonotone_of_run {slot : ℕ} {earlier : List ℕ} {log : List (List Bytes)}
    {es : List Event} {s : FeedbackLoop}
    (hm : StepMachine.Meets FeedbackLoop.step FrameAhead (.init slot earlier log) es)
    (hr : StepMachine.run FeedbackLoop.step (.init slot earlier log) es = some s) :
    FeedbackMonotone s :=
  (StepMachine.run_invariant (fun _ _ _ hI hok h => FeedbackLoop.feedbackInv_step hI hok h)
    (FeedbackLoop.feedbackInv_init slot earlier log) hm hr).monotone

/-! ## Transactions without changes -/

/-- A transaction whose first record is at `first`; its commit record is at `commit`, and ends at
`finish`. -/
def emptyTxnAt (first commit finish : UInt64) (hfirst : first.toNat < commit.toNat)
    (hfinish : commit.toNat < finish.toNat) : SourceTxn fun _ => false where
  txn := ⟨commit, finish, 0, 7⟩
  firstLsn := first
  commitLsn := commit
  changes := []
  first_lt := hfirst
  changes_lt := nofun
  lt_end := hfinish

/-- A history of two transactions in commit order: the first ends at 120, the second begins at
`begin₂` and ends at 150. -/
def twoTxns (begin₂ : UInt64) (h : begin₂.toNat < (140 : UInt64).toNat) : History where
  txns := [(emptyTxnAt 100 110 120 (by decide) (by decide)).stream,
    (emptyTxnAt begin₂ 140 150 h (by decide)).stream]
  slot := 0
  ordered := by simp [emptyTxnAt, SourceTxn.stream, pluginItem, XLogData.lsn]
  slot_le := fun _ _ => Nat.zero_le _

/-- All messages of the history arrive, ten seconds apart. -/
def streamRun (H : History) : List Event :=
  .connect .started :: (H.txns.flatMap StreamTxn.items).zipIdx.flatMap fun (item, k) =>
    [.wake 0 ⟨true, true⟩,
      .frame ((envAt (10000000 * k) true).frame item.data.bytes) ⟨true, true, true⟩]

theorem feedbackMonotone_twoTxns :
    ∃ s, StepMachine.run FeedbackLoop.step (.init 0 [] []) (streamRun (twoTxns 130 (by decide))) =
        some s ∧
      s.packets.map (fun p => (p.write, p.flush)) = [(120, 100), (130, 120), (150, 130)] ∧
      FeedbackMonotone s := by
  have hr : (StepMachine.run FeedbackLoop.step (.init 0 [] [])
      (streamRun (twoTxns 130 (by decide)))).map
        (fun s => s.packets.map fun p => (p.write, p.flush)) =
      some [(120, 100), (130, 120), (150, 130)] := by decide
  obtain ⟨s, hs, hp⟩ := Option.map_eq_some_iff.1 hr
  exact ⟨s, hs, hp, feedbackMonotone_of_run (by decide) hs⟩

/-- The second transaction began before the first one ended, as concurrent ones do: its begin
message takes both positions back, and the slot with them. -/
theorem feedbackBackwards_twoTxns :
    ∃ s, StepMachine.run FeedbackLoop.step (.init 0 [] []) (streamRun (twoTxns 105 (by decide))) =
        some s ∧
      s.packets.map (fun p => (p.write, p.flush)) = [(120, 100), (105, 120), (150, 105)] ∧
      ¬ FeedbackMonotone s := by
  have hr : (StepMachine.run FeedbackLoop.step (.init 0 [] [])
      (streamRun (twoTxns 105 (by decide)))).map
        (fun s => s.packets.map fun p => (p.write, p.flush)) =
      some [(120, 100), (105, 120), (150, 105)] := by decide
  obtain ⟨s, hs, hp⟩ := Option.map_eq_some_iff.1 hr
  refine ⟨s, hs, hp, ?_⟩
  intro h
  have hmono : (s.packets.map fun p => (p.write, p.flush)).Pairwise fun a b =>
      a.1 ≤ b.1 ∧ a.2 ≤ b.2 := List.pairwise_map.2 h.packets
  rw [hp] at hmono
  exact absurd hmono (by decide)

end RdsDbsync
