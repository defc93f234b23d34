/-
  The apply thread and the groups of the log: which groups the saved `apply_id` vouches
  for, and which statements of a group are committed.

  `persistedBehind_of_run`: the saved `apply_id` is never ahead of the target.
  `groupApplied_of_run`: of a group, nothing is committed, or all but a prefix of
  statements that failed on a duplicate key.
-/
import RdsDbsync.ApplyLoop

namespace RdsDbsync

open OrderedLog

universe u
variable {E : Type u}

/-! ## The properties -/

/-- The COMMIT of the group was executed in a transaction that was not aborted. -/
def ApplyLoop.Committed (s : ApplyLoop E) (g : QueuedGroup E) : Prop :=
  ∃ work, (some g.commitId, work) ∈ s.target.committed

/-- **The saved position is behind the target**: every group whose `commit;` row is at or before
the saved `apply_id` was committed. -/
def PersistedBehind (s : ApplyLoop E) : Prop :=
  ∀ applyId ∈ s.saved, ∀ g ∈ s.log, g.commitId ≤ applyId → s.Committed g

/-- The answer to the `i`-th statement of a group, whose first row is `begin;`. -/
def statementAnswer (answers : List RowAnswers) (i : ℕ) : Option Outcome :=
  answers[i + 1]?.map RowAnswers.exec

/-- **What became of a group** whose rows were given these answers: the thread gave up on it and
committed nothing, or it committed all statements behind those that failed on a duplicate key. -/
structure GroupApplied (g : QueuedGroup E) (answers : List RowAnswers) (s s' : ApplyLoop E) :
    Prop where
  committed : s'.pc = .exited ∧ s'.target.committed = s.target.committed ∨
    ∃ k ≤ g.statements.length,
      s'.target.committed = s.target.committed ++ [(some g.commitId, g.effects.drop k)] ∧
      ∀ i < g.statements.length,
        statementAnswer answers i = some (if i < k then .duplicateKey else .ok)
  /-- END never rolls back a statement that had succeeded. -/
  kept : s'.target.undone = []
  /-- A duplicate key after a success aborts the whole group. -/
  aborts : ∀ i j, i < j → j < g.statements.length → statementAnswer answers i = some .ok →
    statementAnswer answers j = some .duplicateKey →
    s'.pc = .exited ∧ s'.target.committed = s.target.committed

/-! ## The invariant -/

/-- What the cursor has left, of groups of the log: whole groups, or the rest of one before. -/
inductive LoopPlace (s : ApplyLoop E) : List (QueuedGroup E) → Prop where
  | boundary {todo : List (QueuedGroup E)} (cursor : s.cursor = queuedRows todo)
    (tx : s.target.tx = .idle) : LoopPlace s todo
  /-- The statements of the open group that were skipped, those that succeeded, and the others. -/
  | inside {g : QueuedGroup E} {todo : List (QueuedGroup E)} {skipped done left : List (ℕ × E)}
    (statements : g.statements = skipped ++ (done ++ left))
    (cursor : s.cursor = g.tailRows left ++ queuedRows todo)
    (tx : s.target.tx = .active (done.map Prod.snd)) (first : s.sqltype = .begin → done = []) :
    LoopPlace s (g :: todo)

/-- Every group up to a position is committed, and the position is not ahead of the log. -/
structure Vouched (log : List (QueuedGroup E)) (committed : List (Option ℕ × List E))
    (applyId : ℕ) : Prop where
  committed : ∀ g ∈ log, g.commitId ≤ applyId → ∃ work, (some g.commitId, work) ∈ committed
  old : applyId = 0 ∨ ∃ g ∈ log, g.commitId = applyId

/-- The thread is in the inner loop. -/
def ApplyPc.inCursor : ApplyPc → Bool
  | .fetching | .savingFifth => true
  | _ => false

structure LoopInv (s : ApplyLoop E) : Prop where
  ordered : InIdOrder (queuedRows s.log)
  saved : ∀ applyId ∈ s.saved, Vouched s.log s.target.committed applyId
  applied : Vouched s.log s.target.committed s.applyId
  undone : s.target.undone = []
  idle : s.pc.inCursor = false → s.target.tx = .idle
  place : s.pc.inCursor = true → ∃ past todo later, s.log = past ++ (todo ++ later) ∧
    (∀ g ∈ past, g.commitId ≤ s.applyId) ∧ LoopPlace s todo

section
variable {s s' : ApplyLoop E} {g : QueuedGroup E} {log past todo later : List (QueuedGroup E)}
  {committed : List (Option ℕ × List E)} {applyId : ℕ}

theorem QueuedGroup.commit_mem (g : QueuedGroup E) : ⟨g.commitId, .commit⟩ ∈ g.rows := by
  simp [rows, tailRows]

theorem mem_queuedRows {r : QueuedRow E} {groups : List (QueuedGroup E)} (hg : g ∈ groups)
    (hr : r ∈ g.rows) : r ∈ queuedRows groups := List.mem_flatMap.2 ⟨g, hg, hr⟩

theorem queuedRows_append (a b : List (QueuedGroup E)) :
    queuedRows (a ++ b) = queuedRows a ++ queuedRows b := List.flatMap_append

/-- Groups that come later in the log have greater ids. -/
theorem InIdOrder.lt {a b : List (QueuedGroup E)} (h : InIdOrder (queuedRows (a ++ b)))
    {r r' : QueuedRow E} (hr : r ∈ queuedRows a) (hr' : r' ∈ queuedRows b) : r.id < r'.id := by
  have hp := h.1
  rw [queuedRows_append, List.pairwise_append] at hp
  exact hp.2.2 r hr r' hr'

/-- The groups up to one that ends at a position. -/
theorem InIdOrder.commitId_le {a b : List (QueuedGroup E)}
    (h : InIdOrder (queuedRows (a ++ g :: b))) {r : QueuedRow E}
    (hr : r ∈ queuedRows (a ++ [g])) : r.id ≤ g.commitId := by
  have hlast : ∃ init, queuedRows (a ++ [g]) = init ++ [⟨g.commitId, .commit⟩] := by
    refine ⟨queuedRows a ++ ⟨g.beginId, .begin⟩ ::
      g.statements.map fun s => ⟨s.1, .statement s.2⟩, ?_⟩
    simp [queuedRows, QueuedGroup.rows, QueuedGroup.tailRows]
  obtain ⟨init, hinit⟩ := hlast
  have hp := h.1
  rw [List.append_cons, queuedRows_append, hinit] at hp
  rw [hinit] at hr
  rcases List.mem_append.1 hr with hr | hr
  · have hp := (List.pairwise_append.1 hp).1
    exact ((List.pairwise_append.1 hp).2.2 r hr _ (List.mem_singleton_self _)).le
  · rw [List.mem_singleton.1 hr]

/-- The groups after it. -/
theorem InIdOrder.commitId_lt {a b : List (QueuedGroup E)}
    (h : InIdOrder (queuedRows (a ++ g :: b))) {r : QueuedRow E} (hr : r ∈ queuedRows b) :
    g.commitId < r.id := by
  rw [List.append_cons] at h
  have hmem : ⟨g.commitId, .commit⟩ ∈ queuedRows (a ++ [g]) :=
    mem_queuedRows (List.mem_append_right _ (List.mem_singleton_self g)) g.commit_mem
  exact h.lt hmem hr

theorem Vouched.more (h : Vouched log committed applyId) (more : List (Option ℕ × List E)) :
    Vouched log (committed ++ more) applyId := by
  refine ⟨?_, h.old⟩
  intro g hg hle
  obtain ⟨work, hwork⟩ := h.committed g hg hle
  exact ⟨work, List.mem_append_left _ hwork⟩

/-- A new group is after every position that is not ahead of the log. -/
theorem Vouched.receive (h : Vouched log committed applyId)
    (hordered : InIdOrder (queuedRows (log ++ [g]))) :
    Vouched (log ++ [g]) committed applyId := by
  constructor
  · intro g' hg' hle
    rcases List.mem_append.1 hg' with hg' | hg'
    · exact h.committed g' hg' hle
    · obtain rfl := List.mem_singleton.1 hg'
      have hmem : ⟨g'.commitId, .commit⟩ ∈ queuedRows [g'] :=
        mem_queuedRows (List.mem_singleton_self _) g'.commit_mem
      rcases h.old with rfl | ⟨old, hold, rfl⟩
      · have := hordered.2 _ (by rw [queuedRows_append]; exact List.mem_append_right _ hmem)
        exact absurd hle (Nat.not_le.2 this)
      · have := hordered.lt (mem_queuedRows hold old.commit_mem) hmem
        exact absurd hle (Nat.not_le.2 this)
  · exact h.old.imp_right fun ⟨old, hold, heq⟩ => ⟨old, List.mem_append_left _ hold, heq⟩

/-- The position moves to the group that was just committed. -/
theorem Vouched.commit (h : Vouched log committed applyId) (hordered : InIdOrder (queuedRows log))
    (hsplit : log = past ++ (g :: todo ++ later)) (hpast : ∀ g ∈ past, g.commitId ≤ applyId)
    (work : List E) : Vouched log (committed ++ [(some g.commitId, work)]) g.commitId := by
  constructor
  · intro g' hg' hle
    rw [hsplit, List.mem_append, List.cons_append, List.mem_cons] at hg'
    rcases hg' with hg' | rfl | hg'
    · have hin : g' ∈ log := hsplit ▸ List.mem_append_left _ hg'
      obtain ⟨work, hwork⟩ := h.committed g' hin (hpast g' hg')
      exact ⟨work, List.mem_append_left _ hwork⟩
    · exact ⟨work, List.mem_append_right _ (List.mem_singleton_self _)⟩
    · rw [hsplit, List.cons_append] at hordered
      have := hordered.commitId_lt (mem_queuedRows hg' g'.commit_mem)
      exact absurd hle (Nat.not_le.2 this)
  · refine Or.inr ⟨g, ?_, rfl⟩
    rw [hsplit]
    exact List.mem_append_right _ List.mem_cons_self

theorem LoopPlace.congr (h : LoopPlace s todo) (hcursor : s'.cursor = s.cursor)
    (htx : s'.target.tx = s.target.tx) (hsqltype : s'.sqltype = s.sqltype) : LoopPlace s' todo := by
  cases h with
  | boundary cursor tx => exact .boundary (hcursor.trans cursor) (htx.trans tx)
  | inside statements cursor tx first =>
    exact .inside statements (hcursor.trans cursor) (htx.trans tx) fun h => first (hsqltype ▸ h)

/-- The cursor after a position starts at a group. -/
theorem Vouched.split (h : Vouched log committed applyId) (hordered : InIdOrder (queuedRows log)) :
    ∃ past todo, log = past ++ todo ∧ (∀ g ∈ past, g.commitId ≤ applyId) ∧
      after QueuedRow.id applyId (queuedRows log) = queuedRows todo := by
  rcases h.old with rfl | ⟨g, hg, rfl⟩
  · refine ⟨[], log, rfl, nofun, ?_⟩
    exact List.filter_eq_self.2 fun r hr => decide_eq_true (hordered.2 r hr)
  · obtain ⟨a, b, hsplit⟩ := List.append_of_mem hg
    refine ⟨a ++ [g], b, by rw [hsplit, List.append_cons], ?_, ?_⟩
    · intro g' hg'
      rw [hsplit] at hordered
      exact hordered.commitId_le (mem_queuedRows hg' g'.commit_mem)
    · rw [hsplit] at hordered ⊢
      rw [List.append_cons, queuedRows_append]
      exact after_append (fun r hr => hordered.commitId_le hr)
        fun r hr => hordered.commitId_lt hr

/-- The thread gave up; what it committed stays. -/
theorem LoopInv.gone (hI : LoopInv s) {more : List (Option ℕ × List E)}
    (h : ApplyLoop.Gone s s' more) : LoopInv s' where
  ordered := by rw [h.log]; exact hI.ordered
  saved applyId ha := by
    rw [h.saved] at ha
    rw [h.log, h.committed]
    exact (hI.saved applyId ha).more more
  applied := by
    rw [h.log, h.committed, h.applyId]
    exact hI.applied.more more
  undone := h.undone.trans hI.undone
  idle _ := h.tx
  place hpc := by
    rw [h.pc] at hpc
    cases hpc

/-- A step that stays in the cursor and commits nothing. -/
theorem LoopInv.within (hI : LoopInv s) {cursor : List (QueuedRow E)} {sqltype : SqlType}
    {tx : EffectTx E} (hsplit : s.log = past ++ (todo ++ later))
    (hpast : ∀ g ∈ past, g.commitId ≤ s.applyId) (hpc : s.pc = .fetching)
    (hplace : LoopPlace { s with cursor, sqltype, target := { s.target with tx } } todo) :
    LoopInv { s with cursor, sqltype, target := { s.target with tx } } where
  ordered := hI.ordered
  saved := hI.saved
  applied := hI.applied
  undone := hI.undone
  idle h := by
    change s.pc.inCursor = false at h
    rw [hpc] at h
    cases h
  place _ := ⟨past, todo, later, hsplit, hpast, hplace⟩

/-- **A row is applied.** -/
theorem LoopInv.row (hI : LoopInv s) (hpc : s.pc = .fetching) (answers : RowAnswers)
    {row : QueuedRow E} {rest : List (QueuedRow E)} (hcursor : s.cursor = row :: rest) :
    LoopInv (s.applyRow answers row rest) := by
  obtain ⟨past, todo, later, hsplit, hpast, hplace⟩ := hI.place (by rw [hpc]; rfl)
  cases hplace with
  | boundary cursor tx =>
    cases todo with
    | nil =>
      rw [hcursor] at cursor
      cases cursor
    | cons g todo =>
      -- the row is `begin;`
      have hrow : row = ⟨g.beginId, .begin⟩ ∧ rest = g.tailRows g.statements ++ queuedRows todo := by
        rw [hcursor] at cursor
        exact List.cons.inj cursor
      obtain ⟨rfl, rfl⟩ := hrow
      rcases ApplyLoop.applyRow_begin answers g.beginId _ tx with ⟨-, heq⟩ | ⟨-, hgone⟩
      · rw [heq]
        exact hI.within hsplit hpast hpc (.inside (List.nil_append _).symm rfl rfl fun _ => rfl)
      · exact hI.gone hgone
  | @inside g todo skipped done left statements cursor tx first =>
    have hwork : s.sqltype = .begin → done.map Prod.snd = [] := fun hb => by rw [first hb]; rfl
    cases left with
    | nil =>
      -- the row is `commit;`
      have hrow : row = ⟨g.commitId, .commit⟩ ∧ rest = queuedRows todo := by
        rw [hcursor] at cursor
        exact List.cons.inj cursor
      obtain ⟨rfl, rfl⟩ := hrow
      rcases ApplyLoop.applyRow_commit answers g.commitId (queuedRows todo) tx with
        ⟨-, pc, nCommit, hnext, heq⟩ | ⟨-, hgone⟩
      · rw [heq]
        refine ⟨hI.ordered, fun applyId ha => (hI.saved applyId ha).more _,
          hI.applied.commit hI.ordered hsplit hpast _, hI.undone, fun _ => rfl, fun _ => ?_⟩
        · refine ⟨past ++ [g], todo, later, ?_, ?_, .boundary rfl rfl⟩
          · rw [hsplit, List.append_assoc]
            rfl
          · intro g' hg'
            have hord := hI.ordered
            rw [hsplit, List.cons_append] at hord
            exact hord.commitId_le (mem_queuedRows hg' g'.commit_mem)
      · exact hI.gone hgone
    | cons st left =>
      have hrow : row = ⟨st.1, .statement st.2⟩ ∧ rest = g.tailRows left ++ queuedRows todo := by
        rw [hcursor] at cursor
        exact List.cons.inj cursor
      obtain ⟨rfl, rfl⟩ := hrow
      rcases ApplyLoop.applyRow_statement (e := st.2) answers st.1
          (g.tailRows left ++ queuedRows todo) tx hwork with
        ⟨-, sqltype, hne, heq⟩ | ⟨-, hbegin, heq⟩ | ⟨-, hgone⟩
      · rw [heq]
        refine hI.within hsplit hpast hpc
          (@LoopPlace.inside _ _ g todo skipped (done ++ [st]) left ?_ rfl ?_
            fun hb => absurd hb hne)
        · rw [statements, List.append_assoc]
          rfl
        · simp
      · rw [heq]
        refine hI.within hsplit hpast hpc
          (@LoopPlace.inside _ _ g todo (skipped ++ [st]) [] left ?_ rfl rfl fun _ => rfl)
        rw [statements, first hbegin, List.append_assoc]
        rfl
      · exact hI.gone hgone

/-- **One step keeps the invariant.** -/
theorem loopInv_step {e : LoopEvent E} (hI : LoopInv s) (h : s.step e = some s') : LoopInv s' := by
  cases ApplyLoop.step_cases h with
  | @receive g ordered =>
    refine ⟨ordered, fun applyId ha => (hI.saved applyId ha).receive ordered,
      hI.applied.receive ordered, hI.undone, hI.idle, ?_⟩
    intro hpc
    obtain ⟨past, todo, later, hsplit, hpast, hplace⟩ := hI.place hpc
    refine ⟨past, todo, later ++ [g], ?_, hpast, hplace.congr rfl rfl rfl⟩
    show s.log ++ [g] = _
    rw [hsplit, List.append_assoc, List.append_assoc]
  | start pc =>
    refine ⟨hI.ordered, hI.saved, ?_, hI.undone, ?_, nofun⟩
    · cases hs : s.saved with
      | none =>
        refine ⟨?_, Or.inl rfl⟩
        intro g hg hle
        have := hI.ordered.2 _ (mem_queuedRows hg g.commit_mem)
        exact absurd hle (Nat.not_le.2 this)
      | some applyId => exact hI.saved applyId hs
    · intro _
      exact hI.idle (by rcases pc with pc | pc <;> rw [pc] <;> rfl)
  | declareCursor pc =>
    have hidle := hI.idle (by rw [pc]; rfl)
    refine ⟨hI.ordered, hI.saved, hI.applied, hI.undone, nofun, ?_⟩
    intro _
    obtain ⟨past, todo, hsplit, hpast, hafter⟩ := hI.applied.split hI.ordered
    exact ⟨past, todo, [], by rw [List.append_nil]; exact hsplit, hpast, .boundary hafter hidle⟩
  | row pc cursor => exact hI.row pc _ cursor
  | @noRow answers next pc cursor hnext =>
    refine ⟨hI.ordered, hI.saved, hI.applied, hI.undone, ?_, ?_⟩
    · -- the cursor ends between two groups
      intro _
      obtain ⟨past, todo, later, -, -, hplace⟩ := hI.place (by rw [pc]; rfl)
      cases hplace with
      | boundary _ tx => exact tx
      | inside _ cursor' =>
        rw [cursor] at cursor'
        simp [QueuedGroup.tailRows] at cursor'
    · intro hin
      rcases hnext with rfl | rfl
      · cases hin
      · cases hin
  | @save ok next pc =>
    refine ⟨hI.ordered, ?_, hI.applied, hI.undone, ?_, ?_⟩
    · intro applyId ha
      cases ok with
      | true =>
        obtain rfl := Option.some.inj ha
        exact hI.applied
      | false => exact hI.saved applyId ha
    · intro hin
      rcases pc with ⟨-, rfl⟩ | ⟨pc, -⟩
      · cases hin
      · exact hI.idle (by rw [pc]; rfl)
    · intro hin
      rcases pc with ⟨pc, rfl⟩ | ⟨-, rfl⟩
      · obtain ⟨past, todo, later, hsplit, hpast, hplace⟩ := hI.place (by rw [pc]; rfl)
        exact ⟨past, todo, later, hsplit, hpast, hplace.congr rfl rfl rfl⟩
      · cases hin
  | kill pc =>
    exact ⟨hI.ordered, hI.saved, hI.applied, hI.undone, fun _ => rfl, nofun⟩

theorem loopInv_init : LoopInv ({} : ApplyLoop E) where
  ordered := ⟨.nil, nofun⟩
  saved := nofun
  applied := ⟨nofun, Or.inl rfl⟩
  undone := rfl
  idle _ := rfl
  place := nofun

theorem loopInv_of_run {es : List (LoopEvent E)}
    (hr : StepMachine.run ApplyLoop.step {} es = some s) : LoopInv s :=
  StepMachine.run_preserves (fun _ _ _ hI h => loopInv_step hI h) loopInv_init hr

/-- **The saved position is never ahead of the target**, whatever the target answers and wherever
the process is killed. -/
theorem persistedBehind_of_run {es : List (LoopEvent E)}
    (hr : StepMachine.run ApplyLoop.step {} es = some s) : PersistedBehind s :=
  fun applyId ha => ((loopInv_of_run hr).saved applyId ha).committed

/-! ## One group -/

/-- A thread that has given up applies no more rows. -/
theorem run_exited {answers : List RowAnswers} (hpc : s.pc = .exited)
    (hr : StepMachine.run ApplyLoop.step s (answers.map .fetch) = some s') : s' = s := by
  cases answers with
  | nil =>
    cases hr
    rfl
  | cons a answers =>
    obtain ⟨t, ht, -⟩ := StepMachine.run_cons hr
    simp [ApplyLoop.step, hpc] at ht

/-- What is committed of the statements that are left, of which the first `k` are skipped. -/
def LeftApplied (g : QueuedGroup E) (done left : List (ℕ × E)) (answers : List RowAnswers)
    (s s' : ApplyLoop E) : Prop :=
  s'.pc = .exited ∧ s'.target.committed = s.target.committed ∨
    ∃ k ≤ left.length, (k = 0 ∨ done = []) ∧
      s'.target.committed =
        s.target.committed ++ [(some g.commitId, (done ++ left.drop k).map Prod.snd)] ∧
      ∀ i < left.length,
        answers[i]?.map RowAnswers.exec = some (if i < k then .duplicateKey else .ok)

theorem fetch_row {answers : RowAnswers} {row : QueuedRow E} {rest : List (QueuedRow E)}
    {t : ApplyLoop E} (hpc : s.pc = .fetching) (hcursor : s.cursor = row :: rest)
    (ht : s.step (.fetch answers) = some t) : t = s.applyRow answers row rest := by
  simpa [ApplyLoop.step, hpc, hcursor] using ht.symm

/-- A thread that has not given up has an answer for the next row. -/
theorem exists_answer {answers : List RowAnswers} {n : ℕ} (hpc : s.pc = .fetching)
    (hr : StepMachine.run ApplyLoop.step s (answers.map .fetch) = some s')
    (hend : answers.length = n + 1 ∨ s'.pc = .exited) :
    ∃ a answers', answers = a :: answers' := by
  cases answers with
  | nil =>
    cases hr
    rcases hend with hend | hend
    · cases hend
    · rw [hpc] at hend
      cases hend
  | cons a answers => exact ⟨a, answers, rfl⟩

namespace LeftApplied

variable {done left : List (ℕ × E)} {answers : List RowAnswers} {a : RowAnswers} {st : ℕ × E}
  {t : ApplyLoop E}

/-- Behind a statement that succeeds no later one is skipped. -/
theorem succeeded (hok : a.exec = .ok) (ht : t.target.committed = s.target.committed)
    (h : LeftApplied g (done ++ [st]) left answers t s') :
    LeftApplied g done (st :: left) (a :: answers) s s' := by
  rw [LeftApplied, ht] at h
  rcases h with hgone | ⟨k, -, hk, hcommitted, hanswers⟩
  · exact Or.inl hgone
  · obtain rfl := hk.resolve_right (by simp)
    refine Or.inr ⟨0, Nat.zero_le _, Or.inl rfl, ?_, ?_⟩
    · rw [hcommitted]
      simp
    · intro i hi
      cases i with
      | zero => simp [hok]
      | succ i => simpa using hanswers i (Nat.lt_of_succ_lt_succ hi)

/-- A statement is skipped, as all before it. -/
theorem skipped (hdup : a.exec = .duplicateKey) (ht : t.target.committed = s.target.committed)
    (h : LeftApplied g [] left answers t s') :
    LeftApplied g [] (st :: left) (a :: answers) s s' := by
  rw [LeftApplied, ht] at h
  rcases h with hgone | ⟨k, hk, -, hcommitted, hanswers⟩
  · exact Or.inl hgone
  · refine Or.inr ⟨k + 1, Nat.succ_le_succ hk, Or.inr rfl, ?_, ?_⟩
    · rw [hcommitted]
      rfl
    · intro i hi
      cases i with
      | zero => simp [hdup]
      | succ i => simpa using hanswers i (Nat.lt_of_succ_lt_succ hi)

end LeftApplied

/-- **The rows behind the `begin;` of a group**, from any of its statements on. -/
theorem leftApplied {rest : List (QueuedRow E)} {done left : List (ℕ × E)}
    {answers : List RowAnswers} (hpc : s.pc = .fetching)
    (hcursor : s.cursor = g.tailRows left ++ rest)
    (htx : s.target.tx = .active (done.map Prod.snd)) (hfirst : s.sqltype = .begin → done = [])
    (hle : answers.length ≤ left.length + 1)
    (hr : StepMachine.run ApplyLoop.step s (answers.map .fetch) = some s')
    (hend : answers.length = left.length + 1 ∨ s'.pc = .exited) :
    LeftApplied g done left answers s s' := by
  have hwork : s.sqltype = .begin → done.map Prod.snd = [] := fun hb => by rw [hfirst hb]; rfl
  induction left generalizing s done answers with
  | nil =>
    obtain ⟨a, answers, rfl⟩ := exists_answer hpc hr hend
    -- `commit;` is the last row
    obtain rfl : answers = [] := List.eq_nil_of_length_eq_zero (by simpa using hle)
    have hcursor : s.cursor = ⟨g.commitId, .commit⟩ :: rest := hcursor
    obtain ⟨t, ht, hr⟩ := StepMachine.run_cons hr
    cases hr
    obtain rfl := fetch_row hpc hcursor ht
    rcases ApplyLoop.applyRow_commit a g.commitId rest htx with
      ⟨-, pc, nCommit, -, heq⟩ | ⟨-, hgone⟩
    · refine Or.inr ⟨0, le_rfl, Or.inl rfl, ?_, nofun⟩
      rw [heq, List.drop_zero, List.append_nil]
    · by_cases hu : a.unheard = true
      · refine Or.inr ⟨0, le_rfl, Or.inl rfl, ?_, nofun⟩
        rw [hgone.committed, if_pos hu, List.drop_zero, List.append_nil]
      · refine Or.inl ⟨hgone.pc, ?_⟩
        rw [hgone.committed, if_neg hu, List.append_nil]
  | cons st left ih =>
    obtain ⟨a, answers, rfl⟩ := exists_answer hpc hr hend
    have hcursor : s.cursor = ⟨st.1, .statement st.2⟩ :: (g.tailRows left ++ rest) := hcursor
    obtain ⟨t, ht, hr⟩ := StepMachine.run_cons hr
    have ht := fetch_row hpc hcursor ht
    have hle' : answers.length ≤ left.length + 1 := by simpa using hle
    have hend' : answers.length = left.length + 1 ∨ s'.pc = .exited := by simpa using hend
    rcases ApplyLoop.applyRow_statement (e := st.2) a st.1 (g.tailRows left ++ rest)
        htx hwork with ⟨hok, sqltype, hne, heq⟩ | ⟨hdup, hbegin, heq⟩ | ⟨-, hgone⟩
    · have ht := ht.trans heq
      have htx : t.target.tx = .active ((done ++ [st]).map Prod.snd) := by rw [ht]; simp
      have hbegin : ¬ t.sqltype = .begin := by rw [ht]; exact hne
      have hleft : LeftApplied g (done ++ [st]) left answers t s' :=
        ih (by rw [ht]; exact hpc) (by rw [ht]) htx (fun hb => absurd hb hbegin) hle' hr hend'
          fun hb => absurd hb hbegin
      exact hleft.succeeded hok (by rw [ht])
    · have ht := ht.trans heq
      obtain rfl := hfirst hbegin
      have hleft : LeftApplied g [] left answers t s' :=
        ih (by rw [ht]; exact hpc) (by rw [ht]) (by rw [ht]; rfl) (fun _ => rfl) hle' hr hend'
          fun _ => rfl
      exact hleft.skipped hdup (by rw [ht])
    · rw [← ht] at hgone
      obtain rfl := run_exited hgone.pc hr
      refine Or.inl ⟨hgone.pc, ?_⟩
      rw [hgone.committed, List.append_nil]

/-- Between two groups no transaction is open on the target. -/
theorem LoopInv.idle_at_begin (hI : LoopInv s) (hpc : s.pc = .fetching)
    {rest : List (QueuedRow E)} (hcursor : s.cursor = g.rows ++ rest) : s.target.tx = .idle := by
  obtain ⟨past, todo, later, -, -, hplace⟩ := hI.place (by rw [hpc]; rfl)
  cases hplace with
  | boundary _ tx => exact tx
  | @inside g' todo' skipped done left _ cursor =>
    -- inside a group the next row is no `begin;`
    rw [hcursor] at cursor
    cases left with
    | nil => cases congrArg QueuedRow.sql (List.cons.inj cursor).1
    | cons st left => cases congrArg QueuedRow.sql (List.cons.inj cursor).1

/-- **What is committed of a group** is nothing, if the thread gives up on it, or everything but a
prefix of statements that failed on a duplicate key: in every run, from the `begin;` of a group on,
whatever the target answers to the rows of the group. -/
theorem groupApplied_of_run {es : List (LoopEvent E)} {rest : List (QueuedRow E)}
    {answers : List RowAnswers} (hr : StepMachine.run ApplyLoop.step {} es = some s)
    (hpc : s.pc = .fetching) (hcursor : s.cursor = g.rows ++ rest)
    (hg : StepMachine.run ApplyLoop.step s (answers.map .fetch) = some s')
    (hle : answers.length ≤ g.rows.length)
    (hend : answers.length = g.rows.length ∨ s'.pc = .exited) : GroupApplied g answers s s' := by
  have hcommitted : s'.pc = .exited ∧ s'.target.committed = s.target.committed ∨
      ∃ k ≤ g.statements.length,
        s'.target.committed = s.target.committed ++ [(some g.commitId, g.effects.drop k)] ∧
        ∀ i < g.statements.length,
          statementAnswer answers i = some (if i < k then .duplicateKey else .ok) := by
    have hidle := (loopInv_of_run hr).idle_at_begin hpc hcursor
    have hlen : g.rows.length = g.statements.length + 1 + 1 := by
      simp [QueuedGroup.rows, QueuedGroup.tailRows]
    rw [hlen] at hle hend
    obtain ⟨a, answers, rfl⟩ := exists_answer hpc hg hend
    have hcursor : s.cursor = ⟨g.beginId, .begin⟩ :: (g.tailRows g.statements ++ rest) := hcursor
    obtain ⟨t, ht, hg⟩ := StepMachine.run_cons hg
    have ht := fetch_row hpc hcursor ht
    rcases ApplyLoop.applyRow_begin a g.beginId (g.tailRows g.statements ++ rest)
        hidle with ⟨-, heq⟩ | ⟨-, hgone⟩
    · have ht := ht.trans heq
      have hleft : LeftApplied g [] g.statements answers t s' :=
        leftApplied (by rw [ht]; exact hpc) (by rw [ht]) (by rw [ht]; rfl) (fun _ => rfl)
          (by simpa using hle) hg (by simpa using hend)
      rw [LeftApplied, show t.target.committed = s.target.committed by rw [ht]] at hleft
      rcases hleft with hgone | ⟨k, hk, -, hcommitted, hanswers⟩
      · exact Or.inl hgone
      · refine Or.inr ⟨k, hk, ?_, hanswers⟩
        rw [hcommitted, List.nil_append, List.map_drop]
        rfl
    · rw [← ht] at hgone
      obtain rfl := run_exited hgone.pc hg
      refine Or.inl ⟨hgone.pc, ?_⟩
      rw [hgone.committed, List.append_nil]
  refine ⟨hcommitted, ?_, ?_⟩
  · exact (loopInv_of_run ((StepMachine.run_append hr _).trans hg)).undone
  · intro i j hij hj hi hdup
    rcases hcommitted with hgone | ⟨k, -, -, hanswers⟩
    · exact hgone
    · -- the answers are duplicate keys first
      rw [hanswers i (hij.trans hj)] at hi
      rw [hanswers j hj] at hdup
      by_cases hik : i < k
      · rw [if_pos hik] at hi
        cases hi
      · rw [if_neg (by omega)] at hdup
        cases hdup

end

/-! ## A group of two statements -/

/-- The statements "a" and "b". -/
def groupAB : QueuedGroup String := ⟨1, [(2, "a"), (3, "b")], 4⟩

/-- The thread is about to apply the group. -/
def beforeAB : List (LoopEvent String) := [.receive groupAB, .start, .declareCursor]

/-- "a" fails on a duplicate key. -/
def skipA : List RowAnswers := [⟨.ok, false, .ok, .ok⟩, ⟨.duplicateKey, false, .ok, .ok⟩,
  ⟨.ok, false, .ok, .ok⟩, ⟨.ok, false, .ok, .ok⟩]

theorem groupApplied_groupAB :
    ∃ s s', StepMachine.run ApplyLoop.step {} beforeAB = some s ∧
      StepMachine.run ApplyLoop.step s (skipA.map .fetch) = some s' ∧
      s'.target.committed = [(some 4, ["b"])] ∧ GroupApplied groupAB skipA s s' := by
  have hs : (StepMachine.run ApplyLoop.step {} beforeAB).map (fun s => (s.pc, s.cursor)) =
      some (.fetching, groupAB.rows) := by decide
  obtain ⟨s, hr, h⟩ := Option.map_eq_some_iff.1 hs
  have hs' : ((StepMachine.run ApplyLoop.step {} (beforeAB ++ skipA.map .fetch)).map
      fun s => s.target.committed) = some [(some 4, ["b"])] := by decide
  rw [StepMachine.run_append hr] at hs'
  obtain ⟨s', hg, hcommitted⟩ := Option.map_eq_some_iff.1 hs'
  obtain ⟨hpc, hcursor⟩ := Prod.mk.inj h
  exact ⟨s, s', hr, hg, hcommitted, groupApplied_of_run hr hpc
    (hcursor.trans (List.append_nil _).symm) hg (by decide) (Or.inl rfl)⟩

theorem persistedBehind_groupAB :
    ∃ s, StepMachine.run ApplyLoop.step {} (beforeAB ++ skipA.map .fetch ++
        [.fetch ⟨.ok, false, .ok, .ok⟩, .save true, .kill]) = some s ∧
      (s.saved = some 4 ∧ s.target.committed = [(some 4, ["b"])]) ∧ PersistedBehind s := by
  have hs : (StepMachine.run ApplyLoop.step {} (beforeAB ++ skipA.map .fetch ++
      [.fetch ⟨.ok, false, .ok, .ok⟩, .save true, .kill])).map
        (fun s => (s.saved, s.target.committed)) = some (some 4, [(some 4, ["b"])]) := by decide
  obtain ⟨s, hr, h⟩ := Option.map_eq_some_iff.1 hs
  exact ⟨s, hr, Prod.mk.inj h, persistedBehind_of_run hr⟩

end RdsDbsync
