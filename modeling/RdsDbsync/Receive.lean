/-
  The receive thread (`logical_decoding_receive_thread` in `pgsync.c`, with
  `exec_logical_decoder` and what it calls in `utils.c`).

  One step is one outcome of a library call the thread waits for; the event carries
  what the environment chose: results of libpq calls, the clock, the bytes of a frame.
-/
import RdsDbsync.Generator
import RdsDbsync.Lib.StepMachine
import RdsDbsync.Lib.TxLog

namespace RdsDbsync

open Bytes

/-! ## The handler -/

/-- What `hander->conn` points to. -/
inductive Conn where
  | null
  /-- connected, not streaming -/
  | idle
  | streaming
  /-- the server has ended the stream -/
  | ended
  /-- a connection that `disconnect` has finished -/
  | finished
  deriving DecidableEq

/-- `Decoder_handler`; the defaults are those of `init_hander`. -/
structure DecoderHandler where
  conn : Conn := .null
  recvpos : ℕ := 0
  flushpos : ℕ := 0
  startpos : ℕ := 0
  lastRecvpos : ℕ := 0
  lastStatus : ℤ := -1
  deriving DecidableEq

/-- `standby_message_timeout`, in milliseconds. -/
def standbyMessageTimeout : ℤ := 5 * 1000

/-- `feTimestampDifferenceExceeds` -/
def feTimestampDifferenceExceeds (startTime stopTime msec : ℤ) : Bool :=
  stopTime - startTime ≥ msec * 1000

/-- A standby status update. -/
structure StatusUpdate where
  write : ℕ
  flush : ℕ
  apply : ℕ
  sendTime : ℤ
  replyRequested : Bool
  deriving DecidableEq

/-- The outcome of a send: what the client is told, and whether the server gets the packet. -/
structure Send where
  ok : Bool
  delivered : Bool
  deriving DecidableEq

/-- What the client asks of the server. -/
inductive Request where
  | startReplication (pos : ℕ)
  | feedback (packet : StatusUpdate) (delivered : Bool)
  deriving DecidableEq

/-- `sendFeedback`; a send fails on a connection that is not streaming. -/
def sendFeedback (h : DecoderHandler) (now : ℤ) (force replyRequested : Bool) (send : Send) :
    Bool × DecoderHandler × List Request :=
  if !force ∧ h.lastRecvpos = h.recvpos then (true, h, [])
  else
    let packet := ⟨h.recvpos, h.flushpos, 0, now, replyRequested⟩
    let h := { h with startpos := h.recvpos, lastRecvpos := h.recvpos }
    if h.conn = .streaming then (send.ok, h, [.feedback packet send.delivered])
    else (false, h, [])

/-- The status message that is sent when the last one is old enough. -/
def timedFeedback (h : DecoderHandler) (now : ℤ) (send : Send) :
    Bool × DecoderHandler × List Request :=
  if standbyMessageTimeout > 0 ∧
      feTimestampDifferenceExceeds h.lastStatus now standbyMessageTimeout then
    let (rc, h, requests) := sendFeedback h now true false send
    if rc then (true, { h with lastStatus := now }, requests) else (false, h, requests)
  else (true, h, [])

/-! ## Frames -/

/-- A frame that `PQgetCopyData` returned, and what the code finds while it works on it: the
memory behind the frame, the values of uninitialised variables, the clock and a send. -/
structure Frame where
  data : Bytes
  beyond : ℕ → UInt8
  stale : ℕ → UInt32
  now : ℤ
  send : Send

/-- `hander->copybuf[i]` -/
def Frame.copybuf (f : Frame) (i : ℕ) : UInt8 := f.data[i]?.getD (f.beyond i)

/-- `fe_recvint64(&hander->copybuf[pos])` -/
def Frame.feRecvint64 (f : Frame) (pos : ℕ) : ℕ :=
  decodeBE ((List.range' pos 8).map f.copybuf)

/-- How the work on a frame ends. -/
inductive FrameResult where
  /-- `goto redo` -/
  | redo
  | message (msg : AliPgDecodeMessage)
  /-- `goto error` -/
  | error
  | fault (f : Fault)

/-- A frame of type `k`. -/
def execKeepalive (h : DecoderHandler) (f : Frame) : FrameResult × DecoderHandler × List Request :=
  let walEnd := f.feRecvint64 1
  let h := { h with recvpos := max walEnd h.recvpos }
  if f.data.length < 1 + 8 + 8 + 1 then (.error, h, [])
  else if f.copybuf (1 + 8 + 8) ≠ 0 then
    let (rc, h, requests) := sendFeedback h f.now true false f.send
    if rc then (.redo, { h with lastStatus := f.now }, requests) else (.error, h, requests)
  else (.redo, h, [])

/-- A frame of type `w`; the type has been read from `s`. -/
def execXLogData (h : DecoderHandler) (f : Frame) (s : StringInfo) :
    FrameResult × DecoderHandler × List Request :=
  if f.data.length < 1 + 8 + 8 + 8 + 1 then (.error, h, [])
  else
    let (startLsn, s) := pqGetmsgint64 s
    let (endLsn, s) := pqGetmsgint64 s
    let (_, s) := pqGetmsgint64 s
    let h := { h with recvpos := max startLsn.toNat endLsn.toNat }
    match bdrProcessRemoteAction s {} with
    | .error e => (.fault e, h, [])
    | .ok (rc, _, msg) =>
      if rc then
        let (sent, h, requests) := timedFeedback h f.now f.send
        (if sent then .message msg else .error, h, requests)
      else (.error, h, [])

/-- The part of `exec_logical_decoder` that follows the receipt of a frame. -/
def execFrame (h : DecoderHandler) (f : Frame) : FrameResult × DecoderHandler × List Request :=
  let (c, s) := pqGetmsgbyte ⟨f.data, f.stale⟩
  if c = ch 'k' then execKeepalive h f
  else if c = ch 'w' then execXLogData h f s
  else (.error, h, [])

/-! ## The thread -/

/-- Where the thread is. -/
inductive Pc where
  /-- before `initialize_connection` and `init_streaming`, for the first time or again -/
  | connect (first : Bool)
  /-- at the label `redo` of `exec_logical_decoder` -/
  | redo (inRedo : Bool)
  /-- at `PQgetCopyData` -/
  | read (inRedo : Bool)
  /-- the thread or the process has exited -/
  | exited
  /-- the behaviour is undefined -/
  | crashed
  deriving DecidableEq

/-- The outcome of `GetConnection`, `IDENTIFY_SYSTEM` and `START_REPLICATION`. -/
inductive ConnectOutcome where
  /-- `GetConnection` calls `exit` -/
  | exits
  | noConnection
  | identifyFailed
  | startFailed
  | started
  deriving DecidableEq

/-- The outcome of `select` and `PQconsumeInput`. -/
inductive SelectOutcome where
  | timeout
  | failed
  | ready (consumed : Bool)

/-- Which of the local statements succeed. -/
structure LocalOutcome where
  beginOk : Bool
  insertOk : Bool
  endOk : Bool
  deriving DecidableEq

inductive Event where
  | connect (outcome : ConnectOutcome)
  | timeToAbort
  /-- from `redo` to `PQgetCopyData` -/
  | wake (now : ℤ) (send : Send)
  | noData (select : SelectOutcome)
  | endOfCopy (commandOk : Bool)
  | readFailed
  | frame (f : Frame) (outcome : LocalOutcome)

/-- The state of the thread and of the table `sync_sqls` it writes. -/
structure Receiver where
  pc : Pc := .connect true
  handler : DecoderHandler := {}
  db : TxLog Bytes := {}

namespace Receiver

/-- The label `error` of `exec_logical_decoder`, and the way back to the connect. -/
def error (s : Receiver) : Receiver :=
  { s with pc := .connect false, handler := { s.handler with conn := .null } }

/-- `init_streaming` -/
def initStreaming (s : Receiver) (outcome : ConnectOutcome) : Receiver × List Request :=
  match s.handler.conn with
  | .null => ({ s with pc := .redo false }, [])
  | .finished => ({ s with pc := .crashed }, [])
  | _ =>
    let conn := if outcome = .started then .streaming else s.handler.conn
    ({ s with pc := .redo false, handler := { s.handler with conn } },
      [.startReplication s.handler.startpos])

/-- `initialize_connection` and `init_streaming`. -/
def connect (s : Receiver) (first : Bool) (outcome : ConnectOutcome) : Receiver × List Request :=
  match outcome with
  | .exits => ({ s with pc := .exited }, [])
  | .noConnection =>
    let s := { s with handler := { s.handler with conn := .null } }
    if first then ({ s with pc := .exited }, []) else s.initStreaming outcome
  | .identifyFailed =>
    let s := { s with handler := { s.handler with conn := .finished } }
    if first then ({ s with pc := .exited }, []) else s.initStreaming outcome
  | .startFailed | .started =>
    { s with handler := { s.handler with conn := .idle } }.initStreaming outcome

/-- What the thread does with a message. -/
def store (s : Receiver) (msg : AliPgDecodeMessage) (outcome : LocalOutcome) : Receiver :=
  match outPutTupleToSql msg with
  | .error .exit => { s with pc := .exited }
  | .error _ => { s with pc := .crashed }
  | .ok (_, text) =>
    if msg.type = some .begin ∧ !outcome.beginOk then { s with pc := .exited }
    else
      let db := if msg.type = some .begin then s.db.start else s.db
      if !outcome.insertOk then { s with pc := .exited, db }
      else
        let db := db.insert text
        let handler := { s.handler with flushpos := s.handler.recvpos }
        if msg.type = some .commit then
          if !outcome.endOk then { s with pc := .exited, handler, db }
          else { s with pc := .redo false, handler, db := db.commit }
        else { s with pc := .redo false, handler, db }

/-- The step at `PQgetCopyData`. -/
def read (s : Receiver) (inRedo : Bool) : Event → Option (Receiver × List Request)
  | .readFailed => some (s.error, [])
  | .noData select =>
    if s.handler.conn = .streaming then
      match select with
      | .timeout | .ready true => some ({ s with pc := .redo true }, [])
      | .failed | .ready false => some (s.error, [])
    else none
  | .endOfCopy commandOk =>
    if s.handler.conn = .streaming then
      if commandOk then
        some ({ s with pc := .connect false, handler := { s.handler with conn := .ended } }, [])
      else some (s.error, [])
    else none
  | .frame f outcome =>
    if s.handler.conn = .streaming then
      let (result, handler, requests) := execFrame s.handler f
      let s := { s with handler }
      match result with
      | .redo => some ({ s with pc := .redo inRedo }, requests)
      | .message msg => some (s.store msg outcome, requests)
      | .error => some (s.error, requests)
      | .fault .exit => some ({ s with pc := .exited }, requests)
      | .fault _ => some ({ s with pc := .crashed }, requests)
    else none
  | _ => none

/-- One step of `logical_decoding_receive_thread`. -/
def step (s : Receiver) (e : Event) : Option (Receiver × List Request) :=
  match s.pc, e with
  | .connect first, .connect outcome => some (s.connect first outcome)
  | .connect false, .timeToAbort | .redo _, .timeToAbort =>
    some ({ s with pc := .exited, db := s.db.rollback }, [])
  | .redo inRedo, .wake now send =>
    if inRedo then
      let (rc, handler, requests) := timedFeedback s.handler now send
      if rc then some ({ s with pc := .read inRedo, handler }, requests)
      else some ({ s with handler }.error, requests)
    else some ({ s with pc := .read inRedo }, [])
  | .read inRedo, e => s.read inRedo e
  | _, _ => none

end Receiver

end RdsDbsync
