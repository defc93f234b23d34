/-
  A worker of the full copy: it takes tables from the shared list and copies each inside
  a transaction on the source and one on the target.

  A snapshot is the number of source transactions it sees.
-/
import Mathlib.Data.List.Basic
import Mathlib.Tactic.SplitIfs

namespace RdsDbsync

universe u v
variable {Tbl : Type u} {Row : Type v}

/-! ## Connections -/

/-- The transaction on the source connection. -/
inductive OriginTx where
  | idle
  /-- Open, with an imported snapshot or one of its own at the first query. -/
  | active (snapshot : Option ℕ)
  | aborted
  /-- The connection is lost. -/
  | lost
  deriving DecidableEq

/-- The rows that a worker copied from a snapshot of a table. -/
structure TableCopy (Tbl : Type u) (Row : Type v) where
  table : Tbl
  snapshot : ℕ
  rows : List Row
  deriving DecidableEq

/-- The transaction on the target connection, with what it has copied. -/
inductive TargetTx (Tbl : Type u) (Row : Type v) where
  | idle
  | active (copies : List (TableCopy Tbl Row))
  | lost
  deriving DecidableEq

def TargetTx.isActive : TargetTx Tbl Row → Bool
  | .active _ => true
  | _ => false

/-- The answer to a command. -/
inductive Answer where
  | ok
  | refused
  | lost
  deriving DecidableEq

/-- The answer to `BEGIN; SET TRANSACTION SNAPSHOT`. -/
inductive BeginAnswer where
  | ok
  /-- No transaction was opened. -/
  | refused
  /-- One was opened, but the snapshot was not imported. -/
  | snapshotRefused
  | lost
  deriving DecidableEq

/-- `start_copy_origin_tx`; on Greenplum the text `BEGIN` runs into `SET`. -/
def startCopyOriginTx (snapshot : Option ℕ) (isGreenplum : Bool) :
    OriginTx → BeginAnswer → Option OriginTx
  | .idle, .ok => if isGreenplum ∧ snapshot ≠ none then none else some (.active snapshot)
  | .idle, .refused => some .idle
  | .idle, .snapshotRefused => if isGreenplum ∨ snapshot = none then none else some .aborted
  | _, .lost => some .lost
  | _, _ => none

/-- An open transaction has the given snapshot, or none. -/
theorem startCopyOriginTx_active {snapshot p : Option ℕ} {isGreenplum : Bool} {tx : OriginTx}
    {answer : BeginAnswer}
    (h : startCopyOriginTx snapshot isGreenplum tx answer = some (.active p)) : p = snapshot := by
  unfold startCopyOriginTx at h
  split at h
  · split_ifs at h
    cases h
    rfl
  · cases h
  · split_ifs at h
    cases h
  · cases h
  · cases h

/-- `start_copy_target_tx`. -/
def startCopyTargetTx : TargetTx Tbl Row → Answer → Option (TargetTx Tbl Row)
  | .idle, .ok => some (.active [])
  | .idle, .refused => some .idle
  | _, .lost => some .lost
  | _, _ => none

/-- `finish_copy_target_tx`: the transaction after COMMIT, and what it committed. -/
def finishCopyTargetTx :
    TargetTx Tbl Row → Answer → Option (TargetTx Tbl Row × List (TableCopy Tbl Row))
  | .active copies, .ok => some (.idle, copies)
  | .idle, .ok => some (.idle, [])
  | .active _, .refused | .idle, .refused => some (.idle, [])
  | _, .lost => some (.lost, [])
  | .lost, _ => none

/-- The snapshot of a `COPY .. TO`, which fails in an aborted transaction. -/
def OriginTx.copySnapshot (commits : ℕ) : OriginTx → Option ℕ
  | .idle => some commits
  | .active snapshot => some (snapshot.getD commits)
  | .aborted | .lost => none

/-- A completed `COPY .. FROM`: outside a transaction it commits by itself. -/
def TargetTx.put (copy : TableCopy Tbl Row) :
    TargetTx Tbl Row → Option (TargetTx Tbl Row × List (TableCopy Tbl Row))
  | .idle => some (.idle, [copy])
  | .active copies => some (.active (copies ++ [copy]), [])
  | .lost => none

/-- What was copied in the transaction. -/
def TargetTx.copies : TargetTx Tbl Row → List (TableCopy Tbl Row)
  | .active copies => copies
  | .idle | .lost => []

/-- A BEGIN copies nothing. -/
theorem copies_startCopyTargetTx {tx tx' : TargetTx Tbl Row} {answer : Answer}
    (h : startCopyTargetTx tx answer = some tx') : tx'.copies = [] := by
  cases tx <;> cases answer <;> cases h <;> rfl

/-- A COMMIT commits what was copied, or nothing. -/
theorem copies_finishCopyTargetTx {tx tx' : TargetTx Tbl Row} {answer : Answer}
    {committed : List (TableCopy Tbl Row)}
    (h : finishCopyTargetTx tx answer = some (tx', committed)) :
    tx'.copies = [] ∧ (committed = tx.copies ∨ committed = []) := by
  cases tx <;> cases answer <;> cases h
  all_goals first
    | exact ⟨rfl, Or.inl rfl⟩
    | exact ⟨rfl, Or.inr rfl⟩

/-- A completed COPY is one more copy of the transaction, or is committed at once. -/
theorem copies_put {tx tx' : TargetTx Tbl Row} {copy : TableCopy Tbl Row}
    {committed : List (TableCopy Tbl Row)} (h : tx.put copy = some (tx', committed)) :
    tx'.copies ++ committed = tx.copies ++ [copy] := by
  cases tx with
  | idle | active =>
    obtain ⟨rfl, rfl⟩ := Prod.mk.inj (Option.some.inj h)
    simp [TargetTx.copies]
  | lost => cases h

/-! ## The worker -/

/-- Where a worker is in `copy_table_data`. -/
inductive CopyPc (Tbl : Type u) (Row : Type v) where
  | connecting
  /-- At the head of the loop. -/
  | taking
  | beginOrigin (table : Tbl)
  | beginTarget (table : Tbl)
  | copyTo (table : Tbl)
  | copyFrom (table : Tbl) (snapshot : ℕ)
  /-- The rows sent, and the rows the source has still to send. -/
  | copying (table : Tbl) (snapshot : ℕ) (sent left : List Row)
  | putEnd (table : Tbl) (snapshot : ℕ) (sent : List Row)
  | getResult (table : Tbl) (snapshot : ℕ) (sent : List Row)
  | finishOrigin (table : Tbl)
  | finishTarget (table : Tbl)
  | finished (allOk : Bool)
  deriving DecidableEq

/-- The table that is taken. -/
def CopyPc.table : CopyPc Tbl Row → Option Tbl
  | .beginOrigin t | .beginTarget t | .copyTo t | .copyFrom t _ | .copying t _ _ _
  | .putEnd t _ _ | .getResult t _ _ | .finishOrigin t | .finishTarget t => some t
  | .connecting | .taking | .finished _ => none

def CopyPc.isFinished : CopyPc Tbl Row → Bool
  | .finished _ => true
  | _ => false

structure CopyThread (Tbl : Type u) (Row : Type v) where
  pc : CopyPc Tbl Row := .connecting
  origin : OriginTx := .idle
  target : TargetTx Tbl Row := .idle
  deriving DecidableEq

/-- Why `PQgetCopyData` returns no row. -/
inductive NoRow where
  /-- -1 after the last row. -/
  | done
  /-- -1 as well: the server ended the COPY with an error. -/
  | serverError
  /-- -2. -/
  | failed
  deriving DecidableEq

/-- The next step of a worker, with the answers it gets. -/
inductive CopyEvent where
  /-- Both connections are made, or not. -/
  | connect (ok : Bool)
  | take
  | beginOrigin (answer : BeginAnswer)
  | beginTarget (answer : Answer)
  | copyTo (ok : Bool)
  | copyFrom (ok : Bool)
  /-- `PQgetCopyData` returns a row; `PQputCopyData` succeeds or not. -/
  | row (ok : Bool)
  | noRow (reason : NoRow)
  | putEnd (ok : Bool)
  | getResult (ok : Bool)
  | finishOrigin (ok : Bool)
  | finishTarget (answer : Answer)
  deriving DecidableEq

/-- What a step of a worker reads, and what it does to the rest of the system. -/
structure CopyStep (Tbl : Type u) (Row : Type v) where
  thread : CopyThread Tbl Row
  /-- The shared list of tables. -/
  tasks : List Tbl
  /-- Copies committed on the target. -/
  committed : List (TableCopy Tbl Row) := []
  /-- The table that a `COPY .. TO` reads, and its snapshot. -/
  read : List (Tbl × ℕ) := []
  /-- A table that was taken and is not copied, or not in full; no step reads it. -/
  dropped : List Tbl := []

/-- What the workers see: the rows of each table in each snapshot, the commits of the source so
far, and `snapshot` and `desc_is_greenplum` of the shared handle. -/
structure CopyEnv (Tbl : Type u) (Row : Type v) where
  rows : Tbl → ℕ → List Row
  commits : ℕ
  snapshot : Option ℕ
  descIsGreenplum : Bool

namespace CopyThread

variable (env : CopyEnv Tbl Row) (tasks : List Tbl) (w : CopyThread Tbl Row)

/-- `goto exit` while a table is being copied. -/
def giveUp (table : Tbl) : CopyStep Tbl Row :=
  { thread := ⟨.finished false, .idle, .idle⟩, tasks, dropped := [table] }

/-- One step of `copy_table_data`. -/
def step (e : CopyEvent) : Option (CopyStep Tbl Row) :=
  match w.pc, e with
  | .connecting, .connect ok =>
    some { thread := { w with pc := if ok then .taking else .finished false }, tasks }
  | .taking, .take =>
    match tasks with
    | [] => some { thread := ⟨.finished true, .idle, .idle⟩, tasks }
    | table :: rest => some { thread := { w with pc := .beginOrigin table }, tasks := rest }
  | .beginOrigin table, .beginOrigin answer =>
    (startCopyOriginTx env.snapshot env.descIsGreenplum w.origin answer).map fun origin =>
      { thread := { w with pc := .beginTarget table, origin }, tasks }
  | .beginTarget table, .beginTarget answer =>
    (startCopyTargetTx w.target answer).map fun target =>
      { thread := { w with pc := .copyTo table, target }, tasks }
  | .copyTo table, .copyTo ok =>
    if ok then
      (w.origin.copySnapshot env.commits).map fun snapshot =>
        { thread := { w with pc := .copyFrom table snapshot }, tasks, read := [(table, snapshot)] }
    else some (giveUp tasks table)
  | .copyFrom table snapshot, .copyFrom ok =>
    if ok then
      match w.target with
      | .lost => none
      | _ => some { thread := { w with pc := .copying table snapshot [] (env.rows table snapshot) }, tasks }
    else some (giveUp tasks table)
  | .copying table snapshot sent (row :: left), .row ok =>
    if ok then some { thread := { w with pc := .copying table snapshot (sent ++ [row]) left }, tasks }
    else some (giveUp tasks table)
  | .copying table snapshot sent left, .noRow reason =>
    let next : CopyThread Tbl Row := { w with pc := .putEnd table snapshot sent }
    match reason, left with
    | .done, [] | .serverError, [] => some { thread := next, tasks }
    | .done, _ :: _ => none
    | .serverError, _ :: _ => some { thread := next, tasks, dropped := [table] }
    | .failed, _ => some (giveUp tasks table)
  | .putEnd table snapshot sent, .putEnd ok =>
    if ok then some { thread := { w with pc := .getResult table snapshot sent }, tasks }
    else some (giveUp tasks table)
  | .getResult table snapshot sent, .getResult ok =>
    if ok then
      (w.target.put ⟨table, snapshot, sent⟩).map fun (target, committed) =>
        { thread := { w with pc := .finishOrigin table, target }, tasks, committed }
    else some (giveUp tasks table)
  | .finishOrigin table, .finishOrigin ok =>
    let origin : OriginTx := if ok then .idle else .lost
    some { thread := { w with pc := .finishTarget table, origin }, tasks }
  | .finishTarget table, .finishTarget answer =>
    -- `complete` is set and the loop goes on, whatever the answer is
    (finishCopyTargetTx w.target answer).map fun (target, committed) =>
      let dropped := if w.target.isActive ∧ answer ≠ .ok then [table] else []
      { thread := { w with pc := .taking, target }, tasks, committed, dropped }
  | _, _ => none

/-! ## What a step does -/

/-- The steps, with what they need. -/
inductive Step : CopyEvent → CopyStep Tbl Row → Prop
  | connected (pc : w.pc = .connecting) :
    Step (.connect true) { thread := { w with pc := .taking }, tasks }
  | notConnected (pc : w.pc = .connecting) :
    Step (.connect false) { thread := { w with pc := .finished false }, tasks }
  | noTask (pc : w.pc = .taking) (none : tasks = []) :
    Step .take { thread := ⟨.finished true, .idle, .idle⟩, tasks }
  | took {t : Tbl} {rest : List Tbl} (pc : w.pc = .taking) (some : tasks = t :: rest) :
    Step .take { thread := { w with pc := .beginOrigin t }, tasks := rest }
  | originBegun {t : Tbl} {answer : BeginAnswer} {origin : OriginTx} (pc : w.pc = .beginOrigin t)
    (begun : startCopyOriginTx env.snapshot env.descIsGreenplum w.origin answer = some origin) :
    Step (.beginOrigin answer) { thread := { w with pc := .beginTarget t, origin }, tasks }
  | targetBegun {t : Tbl} {answer : Answer} {target : TargetTx Tbl Row} (pc : w.pc = .beginTarget t)
    (begun : startCopyTargetTx w.target answer = some target) :
    Step (.beginTarget answer) { thread := { w with pc := .copyTo t, target }, tasks }
  | gaveUp {t : Tbl} {e : CopyEvent} (taken : w.pc.table = some t) (other : e ≠ .copyTo true) :
    Step e (giveUp tasks t)
  | reading {t : Tbl} {snapshot : ℕ} (pc : w.pc = .copyTo t)
    (snap : w.origin.copySnapshot env.commits = some snapshot) :
    Step (.copyTo true)
      { thread := { w with pc := .copyFrom t snapshot }, tasks, read := [(t, snapshot)] }
  | opened {t : Tbl} {snapshot : ℕ} (pc : w.pc = .copyFrom t snapshot) :
    Step (.copyFrom true)
      { thread := { w with pc := .copying t snapshot [] (env.rows t snapshot) }, tasks }
  | sentRow {t : Tbl} {snapshot : ℕ} {sent left : List Row} {row : Row}
    (pc : w.pc = .copying t snapshot sent (row :: left)) :
    Step (.row true) { thread := { w with pc := .copying t snapshot (sent ++ [row]) left }, tasks }
  | lastRow {t : Tbl} {snapshot : ℕ} {sent : List Row} {reason : NoRow}
    (pc : w.pc = .copying t snapshot sent []) :
    Step (.noRow reason) { thread := { w with pc := .putEnd t snapshot sent }, tasks }
  | cutOff {t : Tbl} {snapshot : ℕ} {sent left : List Row}
    (pc : w.pc = .copying t snapshot sent left) :
    Step (.noRow .serverError)
      { thread := { w with pc := .putEnd t snapshot sent }, tasks, dropped := [t] }
  | endSent {t : Tbl} {snapshot : ℕ} {sent : List Row} (pc : w.pc = .putEnd t snapshot sent) :
    Step (.putEnd true) { thread := { w with pc := .getResult t snapshot sent }, tasks }
  | result {t : Tbl} {snapshot : ℕ} {sent : List Row} {target : TargetTx Tbl Row}
    {committed : List (TableCopy Tbl Row)} (pc : w.pc = .getResult t snapshot sent)
    (put : w.target.put ⟨t, snapshot, sent⟩ = some (target, committed)) :
    Step (.getResult true) { thread := { w with pc := .finishOrigin t, target }, tasks, committed }
  | originFinished {t : Tbl} {ok : Bool} {origin : OriginTx} (pc : w.pc = .finishOrigin t)
    (idle : origin = .idle ∨ origin = .lost) :
    Step (.finishOrigin ok) { thread := { w with pc := .finishTarget t, origin }, tasks }
  | targetFinished {t : Tbl} {answer : Answer} {target : TargetTx Tbl Row}
    {committed : List (TableCopy Tbl Row)} {dropped : List Tbl} (pc : w.pc = .finishTarget t)
    (finish : finishCopyTargetTx w.target answer = some (target, committed))
    (drop : dropped = [t] ∨ dropped = [] ∧ (w.target.isActive → answer = .ok)) :
    Step (.finishTarget answer)
      { thread := { w with pc := .taking, target }, tasks, committed, dropped }

variable {env tasks w} {r : CopyStep Tbl Row}

theorem step_cases {e : CopyEvent} (h : w.step env tasks e = some r) : Step env tasks w e r := by
  cases hpc : w.pc <;> cases e <;> simp only [step, hpc, reduceCtorEq] at h
  case connecting.connect ok =>
    cases ok <;> cases h
    · exact .notConnected hpc
    · exact .connected hpc
  case taking.take =>
    cases tasks with
    | nil => cases h; exact .noTask hpc rfl
    | cons t rest => cases h; exact .took hpc rfl
  case beginOrigin.beginOrigin t answer =>
    obtain ⟨origin, hbegin, rfl⟩ := Option.map_eq_some_iff.1 h
    exact .originBegun hpc hbegin
  case beginTarget.beginTarget t answer =>
    obtain ⟨target, hbegin, rfl⟩ := Option.map_eq_some_iff.1 h
    exact .targetBegun hpc hbegin
  case copyTo.copyTo t ok =>
    cases ok
    · cases h; exact .gaveUp (by rw [hpc]; rfl) nofun
    · obtain ⟨snapshot, hsnap, rfl⟩ := Option.map_eq_some_iff.1 h
      exact .reading hpc hsnap
  case copyFrom.copyFrom t snapshot ok =>
    cases ok
    · cases h; exact .gaveUp (by rw [hpc]; rfl) nofun
    · cases ht : w.target <;> simp only [ht, if_true, reduceCtorEq] at h
      all_goals rw [← ht] at h; cases h; exact .opened hpc
  case copying.row t snapshot sent left ok =>
    cases left with
    | nil => cases h
    | cons row left =>
      cases ok <;> cases h
      · exact .gaveUp (by rw [hpc]; rfl) nofun
      · exact .sentRow hpc
  case copying.noRow t snapshot sent left reason =>
    cases reason <;> cases left <;> cases h
    · exact .lastRow hpc
    · exact .lastRow hpc
    · exact .cutOff hpc
    · exact .gaveUp (by rw [hpc]; rfl) nofun
    · exact .gaveUp (by rw [hpc]; rfl) nofun
  case putEnd.putEnd t snapshot sent ok =>
    cases ok <;> cases h
    · exact .gaveUp (by rw [hpc]; rfl) nofun
    · exact .endSent hpc
  case getResult.getResult t snapshot sent ok =>
    cases ok
    · cases h; exact .gaveUp (by rw [hpc]; rfl) nofun
    · obtain ⟨⟨target, committed⟩, hput, rfl⟩ := Option.map_eq_some_iff.1 h
      exact .result hpc hput
  case finishOrigin.finishOrigin t ok =>
    cases ok <;> cases h
    · exact .originFinished hpc (Or.inr rfl)
    · exact .originFinished hpc (Or.inl rfl)
  case finishTarget.finishTarget t answer =>
    obtain ⟨⟨target, committed⟩, hfinish, rfl⟩ := Option.map_eq_some_iff.1 h
    refine .targetFinished hpc hfinish ?_
    split_ifs with hd
    · exact Or.inl rfl
    · exact Or.inr ⟨rfl, fun ha => not_not.1 fun hne => hd ⟨ha, hne⟩⟩

end CopyThread

end RdsDbsync
