/-
  The replication connection of the receive thread: what the functions that
  `logical_decoding_receive_thread` calls do with `hander->conn`.

  `conn_sound_iff`: in which runs the connection is used properly.
-/
import RdsDbsync.Lib.Handle
import RdsDbsync.StreamStep

namespace RdsDbsync

/-! ## The functions -/

/-- The calls on `hander->conn`.  A call stands for itself and for the `PQerrorMessage` that may
follow it. -/
inductive LibpqCall where
  | exec
  | getCopyData
  /-- `PQputCopyData` and `PQflush` -/
  | putCopyData
  | socket
  | consumeInput
  | getResult
  deriving DecidableEq

/-- `hander->conn` -/
abbrev ConnHandle := Handle LibpqCall

namespace ConnHandle

/-- `disconnect` -/
def disconnect (conn : ConnHandle) : ConnHandle := conn.close

/-- `initialize_connection` -/
def initializeConnection (conn : ConnHandle) : ConnectOutcome → ConnHandle
  | .exits => conn
  | .noConnection => conn.clear
  | .identifyFailed => disconnect (conn.openNew.call .exec)
  | .startFailed | .started => conn.openNew.call .exec

/-- `init_streaming` -/
def initStreaming (conn : ConnHandle) : ConnHandle := conn.call .exec

/-- `initialize_connection` and, unless the process exits before it, `init_streaming`. -/
def connect (conn : ConnHandle) (first : Bool) (outcome : ConnectOutcome) : ConnHandle :=
  match outcome with
  | .exits => conn.initializeConnection outcome
  | .noConnection | .identifyFailed =>
    if first then conn.initializeConnection outcome
    else (conn.initializeConnection outcome).initStreaming
  | .startFailed | .started => (conn.initializeConnection outcome).initStreaming

/-- The label `error` of `exec_logical_decoder`. -/
def error (conn : ConnHandle) : ConnHandle := conn.close.clear

/-- What the loop does with the connection when it is told to stop. -/
def abort (conn : ConnHandle) : ConnHandle := conn.close.clear

/-- From `redo` to `PQgetCopyData`. -/
def wake (conn : ConnHandle) (h : DecoderHandler) (now : ℤ) (send : Send) : ConnHandle :=
  if feedbackDue h now then
    let conn := conn.calls [.putCopyData]
    if (timedFeedback h now send).1 then conn else error conn
  else conn

/-- `PQgetCopyData` has found no data. -/
def noData (conn : ConnHandle) : SelectOutcome → ConnHandle
  | .timeout => conn.calls [.getCopyData, .socket]
  | .failed => error (conn.calls [.getCopyData, .socket])
  | .ready consumed =>
    let conn := conn.calls [.getCopyData, .socket, .consumeInput]
    if consumed then conn else error conn

/-- The stream has ended. -/
def endOfCopy (conn : ConnHandle) (commandOk : Bool) : ConnHandle :=
  let conn := conn.calls [.getCopyData, .getResult]
  if commandOk then conn else error conn

/-- A frame has been read; every request that the work on it makes is a status message. -/
def frame (conn : ConnHandle) (h : DecoderHandler) (f : Frame) : ConnHandle :=
  let (result, _, requests) := execFrame h f
  let conn := conn.calls (.getCopyData :: requests.map fun _ => .putCopyData)
  match result with
  | .error => error conn
  | _ => conn

/-- What a step of the thread does with the connection. -/
def step (conn : ConnHandle) (s : Receiver) : Event → ConnHandle
  | .connect outcome => conn.connect (s.pc = .connect true) outcome
  | .timeToAbort => conn.abort
  | .wake now send => if s.pc = .redo true then conn.wake s.handler now send else conn
  | .readFailed => error (conn.calls [.getCopyData])
  | .noData select => conn.noData select
  | .endOfCopy commandOk => conn.endOfCopy commandOk
  | .frame f _ => conn.frame s.handler f

end ConnHandle

/-- The thread and its connection. -/
structure ConnRun where
  thread : Receiver
  conn : ConnHandle

namespace ConnRun

/-- The thread before its first connect. -/
def start (h : DecoderHandler) (db : TxLog Bytes) : ConnRun :=
  ⟨⟨.connect true, { h with conn := .null }, db⟩, .null⟩

/-- One step of the thread. -/
def step (s : ConnRun) (e : Event) : Option ConnRun :=
  (s.thread.step e).map fun r => ⟨r.1, s.conn.step s.thread e⟩

/-- The steps after which the connection is still used properly: `IDENTIFY_SYSTEM` succeeds, and
the thread does not connect again while it has a connection whose stream has ended. -/
def ConnKept (s : ConnRun) : Event → Prop
  | .connect outcome =>
    outcome ≠ .identifyFailed ∧ (outcome = .exits ∨ s.thread.handler.conn ≠ .ended)
  | _ => True

instance (s : ConnRun) : ∀ e, Decidable (s.ConnKept e)
  | .connect _ => inferInstanceAs (Decidable (_ ∧ _))
  | .timeToAbort | .wake _ _ | .noData _ | .endOfCopy _ | .readFailed | .frame _ _ =>
    inferInstanceAs (Decidable True)

end ConnRun

/-! ## What a step does -/

theorem sendFeedback_conn (h : DecoderHandler) (now : ℤ) (force reply : Bool) (send : Send) :
    (sendFeedback h now force reply send).2.1.conn = h.conn := by
  unfold sendFeedback
  dsimp only
  split_ifs <;> rfl

theorem execKeepalive_conn (h : DecoderHandler) (f : Frame) :
    (execKeepalive h f).2.1.conn = h.conn := by
  rw [execKeepalive]
  generalize max (f.feRecvint64 1) h.recvpos = pos
  have hsend := sendFeedback_conn { h with recvpos := pos } f.now true false f.send
  dsimp only
  split_ifs
  · rfl
  · exact hsend
  · exact hsend
  · rfl

theorem execXLogData_conn (h : DecoderHandler) (f : Frame) (s : StringInfo) :
    (execXLogData h f s).2.1.conn = h.conn := by
  rw [execXLogData]
  by_cases hlen : f.data.length < 1 + 8 + 8 + 8 + 1
  · rw [if_pos hlen]
  · rw [if_neg hlen]
    rcases pqGetmsgint64 s with ⟨startLsn, s₁⟩
    dsimp only
    rcases pqGetmsgint64 s₁ with ⟨endLsn, s₂⟩
    dsimp only
    have htimed := (timedFeedback_kept
      { h with recvpos := max startLsn.toNat endLsn.toNat } f.now f.send).2.2
    generalize bdrProcessRemoteAction (pqGetmsgint64 s₂).2 {} = result
    rcases result with fault | ⟨rc, _, msg⟩
    · rfl
    · cases rc with
      | false => rfl
      | true => exact htimed

theorem execFrame_conn (h : DecoderHandler) (f : Frame) : (execFrame h f).2.1.conn = h.conn := by
  unfold execFrame
  dsimp only
  split_ifs
  · exact execKeepalive_conn h f
  · exact execXLogData_conn h f _
  · rfl

namespace Receiver

/-- A message that is stored leaves the connection as it is and the thread inside the loop. -/
theorem store_conn (r : Receiver) (msg : AliPgDecodeMessage) (outcome : LocalOutcome) :
    (r.store msg outcome).handler.conn = r.handler.conn ∧
      ∀ first, (r.store msg outcome).pc ≠ .connect first := by
  unfold store
  split
  · exact ⟨rfl, by rintro _ ⟨⟩⟩
  · exact ⟨rfl, by rintro _ ⟨⟩⟩
  · dsimp only
    split_ifs <;> exact ⟨rfl, by rintro _ ⟨⟩⟩

end Receiver

/-- What a step of the thread other than a connect does with the pointer, and what the thread
takes it for. -/
inductive ConnMove (s : ConnRun) : ConnRun → Prop
  /-- the thread goes on, or stops, with the connection that it has -/
  | used (thread : Receiver) (cs : List LibpqCall)
    (conn : thread.handler.conn = s.thread.handler.conn)
    (pc : ∀ first, thread.pc ≠ .connect first) : ConnMove s ⟨thread, s.conn.calls cs⟩
  /-- the connection is closed -/
  | closed (thread : Receiver) (cs : List LibpqCall)
    (conn : thread.pc.live → thread.handler.conn = .null) :
    ConnMove s ⟨thread, (s.conn.calls cs).close.clear⟩
  /-- the stream has ended -/
  | ended (thread : Receiver) (cs : List LibpqCall)
    (streaming : s.thread.handler.conn = .streaming) (conn : thread.handler.conn = .ended) :
    ConnMove s ⟨thread, s.conn.calls cs⟩

theorem connMove_wake {s : ConnRun} {inRedo : Bool} {now : ℤ} {send : Send} {t : Receiver}
    {requests : List Request} (hpc : s.thread.pc = .redo inRedo)
    (ht : s.thread.step (.wake now send) = some (t, requests)) :
    ConnMove s ⟨t, s.conn.step s.thread (.wake now send)⟩ := by
  have hconn := (timedFeedback_kept s.thread.handler now send).2.2
  unfold ConnHandle.step
  simp only [Receiver.step, hpc] at ht ⊢
  cases inRedo with
  | false =>
    cases ht
    exact .used _ [] rfl (by rintro _ ⟨⟩)
  | true =>
    rw [if_pos rfl]
    unfold ConnHandle.wake
    by_cases hd : feedbackDue s.thread.handler now
    · rw [if_pos hd]
      simp only [if_true] at ht ⊢
      split_ifs at ht ⊢
      · cases ht
        exact .used _ [.putCopyData] hconn (by rintro _ ⟨⟩)
      · cases ht
        exact .closed _ [.putCopyData] fun _ => rfl
    · rw [if_neg hd]
      rw [timedFeedback_of_not_due _ hd] at ht
      cases ht
      exact .used _ [] rfl (by rintro _ ⟨⟩)

theorem connMove_frame {s : ConnRun} {inRedo : Bool} {f : Frame} {outcome : LocalOutcome}
    {t : Receiver} {requests : List Request} (hpc : s.thread.pc = .read inRedo)
    (ht : s.thread.step (.frame f outcome) = some (t, requests)) :
    ConnMove s ⟨t, s.conn.step s.thread (.frame f outcome)⟩ := by
  have hconn := execFrame_conn s.thread.handler f
  unfold ConnHandle.step ConnHandle.frame
  simp only [Receiver.step, Receiver.read, hpc] at ht ⊢
  split_ifs at ht
  generalize execFrame s.thread.handler f = done at ht hconn ⊢
  obtain ⟨result, h', sent⟩ := done
  cases result with
  | redo =>
    cases ht
    exact .used _ _ hconn (by rintro _ ⟨⟩)
  | message msg =>
    cases ht
    have hstore := Receiver.store_conn { s.thread with handler := h' } msg outcome
    exact .used _ _ (hstore.1.trans hconn) hstore.2
  | error =>
    cases ht
    exact .closed _ _ fun _ => rfl
  | fault fault =>
    cases fault <;> cases ht <;> exact .used _ _ hconn (by rintro _ ⟨⟩)

theorem connMove_noData {s : ConnRun} {inRedo : Bool} {select : SelectOutcome} {t : Receiver}
    {requests : List Request} (hpc : s.thread.pc = .read inRedo)
    (ht : s.thread.step (.noData select) = some (t, requests)) :
    ConnMove s ⟨t, s.conn.step s.thread (.noData select)⟩ := by
  simp only [Receiver.step, Receiver.read, hpc] at ht
  split_ifs at ht
  rcases select with _ | _ | consumed
  · cases ht
    exact .used _ [.getCopyData, .socket] rfl (by rintro _ ⟨⟩)
  · cases ht
    exact .closed _ [.getCopyData, .socket] fun _ => rfl
  · cases consumed with
    | false =>
      cases ht
      exact .closed _ [.getCopyData, .socket, .consumeInput] fun _ => rfl
    | true =>
      cases ht
      exact .used _ [.getCopyData, .socket, .consumeInput] rfl (by rintro _ ⟨⟩)

theorem connMove_endOfCopy {s : ConnRun} {inRedo commandOk : Bool} {t : Receiver}
    {requests : List Request} (hpc : s.thread.pc = .read inRedo)
    (ht : s.thread.step (.endOfCopy commandOk) = some (t, requests)) :
    ConnMove s ⟨t, s.conn.step s.thread (.endOfCopy commandOk)⟩ := by
  simp only [Receiver.step, Receiver.read, hpc] at ht
  split_ifs at ht with hstreaming hok
  · cases ht
    subst hok
    exact .ended _ [.getCopyData, .getResult] hstreaming rfl
  · cases ht
    obtain rfl : commandOk = false := Bool.eq_false_iff.2 hok
    exact .closed _ [.getCopyData, .getResult] fun _ => rfl

/-- **A step of the thread other than a connect.** -/
theorem connMove {s s' : ConnRun} {e : Event} (hs : s.step e = some s')
    (he : ∀ outcome, e ≠ .connect outcome) : ConnMove s s' := by
  obtain ⟨⟨t, requests⟩, ht, rfl⟩ := Option.map_eq_some_iff.1 hs
  rcases hpc : s.thread.pc with first | inRedo | inRedo | _ | _ <;> cases e
  case connect.connect outcome => exact absurd rfl (he outcome)
  case redo.wake now send => exact connMove_wake hpc ht
  case read.frame f outcome => exact connMove_frame hpc ht
  case read.noData select => exact connMove_noData hpc ht
  case read.endOfCopy commandOk => exact connMove_endOfCopy hpc ht
  all_goals simp only [Receiver.step, Receiver.read, hpc, reduceCtorEq] at ht
  case connect.timeToAbort =>
    cases first <;> simp only [reduceCtorEq] at ht
    cases ht
    exact .closed _ [] (by rintro ⟨⟩)
  case redo.timeToAbort =>
    cases ht
    exact .closed _ [] (by rintro ⟨⟩)
  case read.readFailed =>
    cases ht
    exact .closed _ [.getCopyData] fun _ => rfl

/-- Only a running thread makes a step. -/
theorem live_of_connStep {s s' : ConnRun} {e : Event} (hs : s.step e = some s') :
    s.thread.pc.live := by
  obtain ⟨r, hr, -⟩ := Option.map_eq_some_iff.1 hs
  cases hpc : s.thread.pc with
  | connect | redo | read => trivial
  | exited | crashed => simp only [Receiver.step, hpc, reduceCtorEq] at hr

/-! ## The invariant -/

/-- What holds of the thread and its connection: the pointer is what the thread takes it for. -/
structure ConnInv (s : ConnRun) : Prop where
  sound : s.conn.Sound
  null_iff : s.thread.pc.live → (s.thread.handler.conn = .null ↔ s.conn.target = none)
  connecting : ∀ first, s.thread.pc = .connect first →
    s.thread.handler.conn = .null ∨ s.thread.handler.conn = .ended

theorem connInv_start (h : DecoderHandler) (db : TxLog Bytes) : ConnInv (.start h db) where
  sound := Handle.sound_null
  null_iff := by
    intro _
    exact iff_of_true rfl rfl
  connecting := by
    intro _ _
    exact Or.inl rfl

theorem ConnInv.move {s s' : ConnRun} (hI : ConnInv s) (hm : ConnMove s s')
    (hlive : s.thread.pc.live) : ConnInv s' := by
  cases hm with
  | used thread cs hconn hpc =>
    refine ⟨hI.sound.calls cs, ?_, ?_⟩
    · intro _
      rw [hconn, Handle.target_calls]
      exact hI.null_iff hlive
    · intro first hfirst
      exact absurd hfirst (hpc first)
  | closed thread cs hconn =>
    refine ⟨(hI.sound.calls cs).close_clear, ?_, ?_⟩
    · intro hl
      exact iff_of_true (hconn hl) rfl
    · intro first hfirst
      refine Or.inl (hconn ?_)
      show thread.pc.live
      rw [show thread.pc = .connect first from hfirst]
      trivial
  | ended thread cs hstreaming hconn =>
    refine ⟨hI.sound.calls cs, ?_, ?_⟩
    · intro _
      have hnull : s.conn.target ≠ none := by
        rw [Ne, ← hI.null_iff hlive, hstreaming]
        intro h
        cases h
      rw [hconn, Handle.target_calls]
      exact iff_of_false (by intro h; cases h) hnull
    · intro first _
      exact Or.inr hconn

/-! ## Connecting -/

theorem step_connect_eq {s s' : ConnRun} {outcome : ConnectOutcome}
    (hs : s.step (.connect outcome) = some s') : ∃ first, s.thread.pc = .connect first ∧
      s' = ⟨(s.thread.connect first outcome).1, s.conn.connect first outcome⟩ := by
  obtain ⟨⟨t, requests⟩, ht, rfl⟩ := Option.map_eq_some_iff.1 hs
  rcases hpc : s.thread.pc with first | inRedo | inRedo | _ | _ <;>
    simp only [Receiver.step, Receiver.read, hpc, reduceCtorEq] at ht
  refine ⟨first, rfl, ?_⟩
  unfold ConnHandle.step
  cases first <;> simp [hpc, (Option.some.inj ht)]

/-- A connect that keeps the connection keeps the invariant. -/
theorem ConnInv.connect {s : ConnRun} (hI : ConnInv s) {first : Bool} {outcome : ConnectOutcome}
    (hpc : s.thread.pc = .connect first) (hok : s.ConnKept (.connect outcome)) :
    ConnInv ⟨(s.thread.connect first outcome).1, s.conn.connect first outcome⟩ := by
  obtain ⟨hidentify, hended⟩ := hok
  have hlive : s.thread.pc.live := by
    rw [hpc]
    trivial
  -- a connect that assigns the pointer finds it NULL
  have hnull : outcome ≠ .exits → s.conn.target = none := by
    intro hne
    rw [← hI.null_iff hlive]
    exact (hI.connecting first hpc).resolve_right (hended.resolve_left hne)
  cases outcome with
  | exits => exact ⟨hI.sound, by rintro ⟨⟩, by rintro _ ⟨⟩⟩
  | noConnection =>
    have hclear := hI.sound.clear (hnull (by rintro ⟨⟩))
    cases first with
    | true => exact ⟨hclear, by rintro ⟨⟩, by rintro _ ⟨⟩⟩
    | false => exact ⟨hclear.call _, fun _ => iff_of_true rfl rfl, by rintro _ ⟨⟩⟩
  | identifyFailed => exact absurd rfl hidentify
  | startFailed =>
    have hopen := hI.sound.openNew (hnull (by rintro ⟨⟩))
    refine ⟨(hopen.call _).call _, ?_, by rintro _ ⟨⟩⟩
    intro _
    exact iff_of_false (by rintro ⟨⟩) (by rintro ⟨⟩)
  | started =>
    have hopen := hI.sound.openNew (hnull (by rintro ⟨⟩))
    refine ⟨(hopen.call _).call _, ?_, by rintro _ ⟨⟩⟩
    intro _
    exact iff_of_false (by rintro ⟨⟩) (by rintro ⟨⟩)

/-- Behind any other connect the connection is finished, or an open one is lost. -/
theorem ConnInv.not_sound_connect {s : ConnRun} (hI : ConnInv s) {first : Bool}
    {outcome : ConnectOutcome} (hpc : s.thread.pc = .connect first)
    (hok : ¬ s.ConnKept (.connect outcome)) : ¬ (s.conn.connect first outcome).Sound := by
  have hlive : s.thread.pc.live := by
    rw [hpc]
    trivial
  by_cases hidentify : outcome = .identifyFailed
  · subst hidentify
    have hfinished := Handle.not_sound_calls_close (h := s.conn.openNew.call .exec) rfl
    cases first with
    | true => exact hfinished []
    | false => exact hfinished [.exec]
  · have hconn : outcome ≠ .exits ∧ s.thread.handler.conn = .ended := by
      by_contra hne
      refine hok ⟨hidentify, ?_⟩
      rwa [not_and_or, not_not] at hne
    obtain ⟨hexits, hended⟩ := hconn
    obtain ⟨id, hid⟩ : ∃ id, s.conn.target = some id := by
      rw [← Option.ne_none_iff_exists', Ne, ← hI.null_iff hlive, hended]
      rintro ⟨⟩
    intro hs
    cases outcome with
    | exits => exact hexits rfl
    | noConnection =>
      have hlost := hI.sound.not_wellUsed_clear hid
      cases first with
      | true => exact hlost hs.wellUsed
      | false => exact hlost (Handle.wellUsed_of_calls [.exec] hs.wellUsed)
    | identifyFailed => exact hidentify rfl
    | startFailed | started =>
      have hlost := hI.sound.not_wellUsed_openNew hid
      exact hlost (Handle.wellUsed_of_calls [.exec, .exec] hs.wellUsed)

/-! ## Runs -/

theorem connInv_step {s s' : ConnRun} {e : Event} (hI : ConnInv s) (hok : s.ConnKept e)
    (hs : s.step e = some s') : ConnInv s' := by
  by_cases he : ∃ outcome, e = .connect outcome
  · obtain ⟨outcome, rfl⟩ := he
    obtain ⟨first, hpc, rfl⟩ := step_connect_eq hs
    exact hI.connect hpc hok
  · exact hI.move (connMove hs fun outcome h => he ⟨outcome, h⟩) (live_of_connStep hs)

theorem not_sound_step {s s' : ConnRun} {e : Event} (hI : ConnInv s) (hok : ¬ s.ConnKept e)
    (hs : s.step e = some s') : ¬ s'.conn.Sound := by
  cases e with
  | connect outcome =>
    obtain ⟨first, hpc, rfl⟩ := step_connect_eq hs
    exact hI.not_sound_connect hpc hok
  | timeToAbort | wake _ _ | noData _ | endOfCopy _ | readFailed | frame _ _ =>
    exact absurd trivial hok

/-- **The connection is used properly all along a run exactly if no `IDENTIFY_SYSTEM` fails in it
and the thread never connects again behind a clean end of the stream.** -/
theorem conn_sound_iff (h : DecoderHandler) (db : TxLog Bytes) {es : List Event} {s : ConnRun}
    (hr : StepMachine.run ConnRun.step (.start h db) es = some s) :
    StepMachine.Always ConnRun.step (fun s => s.conn.Sound) (.start h db) es ↔
      StepMachine.Meets ConnRun.step ConnRun.ConnKept (.start h db) es :=
  StepMachine.always_iff_meets (fun _ hI => hI.sound) (fun _ _ _ => connInv_step)
    (fun _ _ _ => not_sound_step) (connInv_start h db) hr

/-- A run in which the connection fails and is opened again. -/
def reconnectRun : List Event :=
  [.connect .started, .wake 0 ⟨true, true⟩, .readFailed, .connect .startFailed,
    .wake 0 ⟨true, true⟩, .readFailed, .connect .noConnection, .timeToAbort]

theorem conn_sound_reconnectRun :
    StepMachine.Always ConnRun.step (fun s => s.conn.Sound) (.start {} {}) reconnectRun :=
  (@conn_sound_iff {} {} reconnectRun _ rfl).2 (by decide)

/-- Behind an `IDENTIFY_SYSTEM` that fails, `init_streaming` uses the finished connection; behind a
clean end of the stream the open connection is lost. -/
theorem conn_not_sound :
    (∃ s, StepMachine.run ConnRun.step (.start {} {})
        [.connect .started, .wake 0 ⟨true, true⟩, .readFailed, .connect .identifyFailed] = some s ∧
      s.conn.log = [.opened 0, .call .exec 0, .call .exec 0, .call .getCopyData 0, .closed 0,
        .dropped 0, .opened 1, .call .exec 1, .closed 1, .call .exec 1] ∧ ¬ s.conn.Sound) ∧
    (∃ s, StepMachine.run ConnRun.step (.start {} {})
        [.connect .started, .wake 0 ⟨true, true⟩, .endOfCopy true, .connect .started] = some s ∧
      s.conn.log = [.opened 0, .call .exec 0, .call .exec 0, .call .getCopyData 0,
        .call .getResult 0, .dropped 0, .opened 1, .call .exec 1, .call .exec 1] ∧
      ¬ s.conn.Sound) := by
  constructor
  · refine ⟨_, rfl, rfl, ?_⟩
    intro hs
    exact (hs.live 1 rfl).2 (by decide)
  · refine ⟨_, rfl, rfl, ?_⟩
    intro hs
    have hdropped := hs.wellUsed [.opened 0, .call .exec 0, .call .exec 0, .call .getCopyData 0,
      .call .getResult 0] (.dropped 0) [.opened 1, .call .exec 1, .call .exec 1] rfl
    revert hdropped
    show HandleEvent.closed 0 ∉ _
    decide

end RdsDbsync
