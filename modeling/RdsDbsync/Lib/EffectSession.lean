/-
  A database session as it is seen through what it commits: every command is given the
  answer that it gets, and the transactions committed are recorded.
-/

universe u v

/-- The answer to a command. -/
inductive Outcome where
  | ok
  | duplicateKey
  | otherError
  deriving DecidableEq

/-- The transaction of a session, with the statements that succeeded in it. -/
inductive EffectTx (E : Type u) where
  | idle
  | active (work : List E)
  | aborted (work : List E)
  deriving DecidableEq

/-- A session.  A COMMIT carries a label under which its transaction is recorded. -/
structure EffectSession (L : Type v) (E : Type u) where
  /-- The transactions committed, oldest first. -/
  committed : List (Option L × List E) := []
  /-- The statements that succeeded and that a COMMIT rolled back. -/
  undone : List E := []
  tx : EffectTx E := .idle
  deriving DecidableEq

namespace EffectSession

variable {L : Type v} {E : Type u} (s : EffectSession L E)

/-- BEGIN; inside a transaction it is a warning, in an aborted one an error. -/
def start (answer : Outcome) : EffectSession L E × Outcome :=
  match s.tx, answer with
  | .aborted _, _ => (s, .otherError)
  | .idle, .ok => ({ s with tx := .active [] }, .ok)
  | .active work, answer =>
    (if answer = .ok then s else { s with tx := .aborted work }, answer)
  | .idle, answer => (s, answer)

/-- COMMIT; it rolls an aborted transaction back.  It may have succeeded although it is answered
with an error (`unheard`). -/
def commit (label : Option L) (answer : Outcome) (unheard : Bool) : EffectSession L E × Outcome :=
  match s.tx with
  | .idle => (s, answer)
  | .active work =>
    if answer = .ok ∨ unheard then
      ({ s with committed := s.committed ++ [(label, work)], tx := .idle }, answer)
    else ({ s with tx := .idle }, answer)
  | .aborted work =>
    if answer = .ok then ({ s with undone := s.undone ++ work, tx := .idle }, answer)
    else ({ s with tx := .idle }, answer)

/-- A statement; outside a transaction it commits by itself. -/
def exec (e : E) (answer : Outcome) : EffectSession L E × Outcome :=
  match s.tx with
  | .idle =>
    if answer = .ok then ({ s with committed := s.committed ++ [(none, [e])] }, answer)
    else (s, answer)
  | .active work =>
    if answer = .ok then ({ s with tx := .active (work ++ [e]) }, answer)
    else ({ s with tx := .aborted work }, answer)
  | .aborted _ => (s, .otherError)

/-- The session ends. -/
def close : EffectSession L E := { s with tx := .idle }

variable {s} {label : Option L} {work : List E} {e : E} {answer : Outcome} {unheard : Bool}

theorem start_of_idle (h : s.tx = .idle) : s.start .ok = ({ s with tx := .active [] }, .ok) := by
  simp [start, h]

theorem start_of_idle_fails (h : s.tx = .idle) (ha : answer ≠ .ok) : s.start answer = (s, answer) := by
  cases answer <;> simp_all [start]

theorem commit_of_active (h : s.tx = .active work) : s.commit label .ok unheard =
    ({ s with committed := s.committed ++ [(label, work)], tx := .idle }, .ok) := by
  simp [commit, h]

theorem commit_of_active_fails (h : s.tx = .active work) (ha : answer ≠ .ok) :
    s.commit label answer unheard =
      ({ s with
        committed := s.committed ++ if unheard then [(label, work)] else [], tx := .idle },
        answer) := by
  cases unheard <;> simp [commit, h, ha]

theorem commit_of_aborted (h : s.tx = .aborted work) :
    s.commit label .ok unheard = ({ s with undone := s.undone ++ work, tx := .idle }, .ok) := by
  simp [commit, h]

theorem commit_of_aborted_fails (h : s.tx = .aborted work) (ha : answer ≠ .ok) :
    s.commit label answer unheard = ({ s with tx := .idle }, answer) := by
  simp [commit, h, ha]

theorem exec_of_active (h : s.tx = .active work) :
    s.exec e .ok = ({ s with tx := .active (work ++ [e]) }, .ok) := by
  simp [exec, h]

theorem exec_of_active_fails (h : s.tx = .active work) (ha : answer ≠ .ok) :
    s.exec e answer = ({ s with tx := .aborted work }, answer) := by
  simp [exec, h, ha]

end EffectSession
