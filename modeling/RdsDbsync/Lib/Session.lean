/-
  A database session: the committed state, the open transaction, and what BEGIN, COMMIT
  and a statement do to them and answer.
-/

universe u

/-- The transaction of a session. -/
inductive Transaction (T : Type u) where
  | idle
  /-- Open; what it sees of the database. -/
  | active (work : T)
  /-- A statement failed. -/
  | aborted

/-- What the open transaction sees. -/
def Transaction.work? {T : Type u} : Transaction T → Option T
  | .active work => some work
  | _ => none

/-- The answer to a command. -/
inductive Reply where
  | commandOk
  | duplicateKey
  /-- The current transaction is aborted. -/
  | inFailedTransaction
  deriving DecidableEq

/-- A session, and the committed state of the database. -/
structure Session (T : Type u) where
  saved : T
  transaction : Transaction T := .idle

namespace Session

variable {T : Type u} (s : Session T)

/-- BEGIN; inside a transaction it is a warning. -/
def start : Session T × Reply :=
  match s.transaction with
  | .idle => ({ s with transaction := .active s.saved }, .commandOk)
  | .active _ => (s, .commandOk)
  | .aborted => (s, .inFailedTransaction)

/-- COMMIT; it rolls an aborted transaction back, and is a warning outside a transaction. -/
def commit : Session T × Reply :=
  match s.transaction with
  | .idle => (s, .commandOk)
  | .active work => (⟨work, .idle⟩, .commandOk)
  | .aborted => (⟨s.saved, .idle⟩, .commandOk)

/-- A statement, which fails on a duplicate key; outside a transaction it commits by itself. -/
def exec (statement : T → Option T) : Session T × Reply :=
  match s.transaction with
  | .idle =>
    match statement s.saved with
    | some saved => (⟨saved, .idle⟩, .commandOk)
    | none => (s, .duplicateKey)
  | .active work =>
    match statement work with
    | some work => ({ s with transaction := .active work }, .commandOk)
    | none => ({ s with transaction := .aborted }, .duplicateKey)
  | .aborted => (s, .inFailedTransaction)

/-- The session ends. -/
def close : Session T := ⟨s.saved, .idle⟩

variable {s} {work work' : T} {statement : T → Option T}

theorem start_of_idle (h : s.transaction = .idle) :
    s.start = (⟨s.saved, .active s.saved⟩, .commandOk) := by simp [start, h]

theorem commit_of_active (h : s.transaction = .active work) :
    s.commit = (⟨work, .idle⟩, .commandOk) := by simp [commit, h]

theorem commit_of_aborted (h : s.transaction = .aborted) :
    s.commit = (⟨s.saved, .idle⟩, .commandOk) := by simp [commit, h]

theorem exec_of_some (h : s.transaction = .active work) (hw : statement work = some work') :
    s.exec statement = (⟨s.saved, .active work'⟩, .commandOk) := by simp [exec, h, hw]

theorem exec_of_none (h : s.transaction = .active work) (hw : statement work = none) :
    s.exec statement = (⟨s.saved, .aborted⟩, .duplicateKey) := by simp [exec, h, hw]

end Session
