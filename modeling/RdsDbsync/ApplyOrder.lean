/-
  The apply thread as a reader of the log that resumes at a saved position.

  `appliedInOrder_of_run`: whatever the target answers and wherever the process is killed,
  the target gets the groups of the log in its order and without a gap.
  `replayBounded_of_run`: at most five of them are applied once more after a restart.
-/
import RdsDbsync.ApplyGroups
import RdsDbsync.Lib.LogReader

namespace RdsDbsync

open OrderedLog LogReader

universe u
variable {E : Type u}

/-! ## The reader -/

/-- The thread is in its loops. -/
def ApplyPc.running : ApplyPc → Bool
  | .down | .exited => false
  | _ => true

/-- The number of groups that end at or before a row. -/
def position (log : List (QueuedGroup E)) (id : ℕ) : ℕ := log.countP fun g => g.commitId ≤ id

/-- The number of groups that end before it. -/
def groupNumber (log : List (QueuedGroup E)) (id : ℕ) : ℕ := log.countP fun g => g.commitId < id

namespace ApplyLoop

variable (s : ApplyLoop E)

/-- The numbers of the groups that are committed on the target, in the order of the commits. -/
def numbers : List ℕ := s.target.committed.map fun tx => groupNumber s.log (tx.1.getD 0)

/-- The thread, as a reader of the groups. -/
def reader : Reader where
  running := s.pc.running
  saved := position s.log (s.saved.getD 0)
  applied := position s.log s.applyId
  executed := s.numbers

end ApplyLoop

/-! ## The properties -/

/-- A transaction of the target is the group with the number `k`, but for the statements that were
skipped at its head. -/
def IsGroup (log : List (QueuedGroup E)) (k : ℕ) (tx : Option ℕ × List E) : Prop :=
  ∃ g, log[k]? = some g ∧ tx.1 = some g.commitId ∧ tx.2 <:+ g.effects

/-- **Applied in order**: the transactions of the target are groups of the log.  Each comes behind
all groups before it: it is the one after its predecessor, or an earlier one.  What is before the
saved `apply_id` is committed. -/
structure AppliedInOrder (s : ApplyLoop E) : Prop where
  groups : List.Forall₂ (IsGroup s.log) s.numbers s.target.committed
  inOrder : InOrder s.numbers
  saved : ∀ applyId ∈ s.saved, ∀ j < position s.log applyId, j ∈ s.numbers

/-- **At most five transactions are applied again** when the thread is started next. -/
def ReplayBounded (s : ApplyLoop E) : Prop :=
  ∀ k ∈ s.numbers, k < position s.log (s.saved.getD 0) + 5

/-- **Applied once**: the transactions of the target are the first groups of the log, but for the
statements that were skipped at their heads. -/
def AppliedOnce (s : ApplyLoop E) : Prop :=
  List.Forall₂ (IsGroup s.log) (List.range s.target.committed.length) s.target.committed

/-- `update_task_status` does not fail. -/
def SaveOk : LoopEvent E → Prop
  | .save ok => ok = true
  | _ => True

/-- The thread is started only where `apply_id` is saved behind all that is committed. -/
def ResumesBehindApplied (s : ApplyLoop E) : LoopEvent E → Prop
  | .start => position s.log (s.saved.getD 0) = s.target.committed.length
  | _ => True

instance : ∀ e : LoopEvent E, Decidable (SaveOk e)
  | .save _ => inferInstanceAs (Decidable (_ = _))
  | .receive _ | .start | .declareCursor | .fetch _ | .kill => inferInstanceAs (Decidable True)

instance (s : ApplyLoop E) : ∀ e, Decidable (ResumesBehindApplied s e)
  | .start => inferInstanceAs (Decidable (_ = _))
  | .receive _ | .save _ | .declareCursor | .fetch _ | .kill => inferInstanceAs (Decidable True)

/-! ## Positions -/

section
variable {log past rest : List (QueuedGroup E)} {g : QueuedGroup E} {id : ℕ}

theorem position_eq (hpast : ∀ g ∈ past, g.commitId ≤ id) (hrest : ∀ g ∈ rest, id < g.commitId) :
    position (past ++ rest) id = past.length := by
  have hp : past.countP (fun g => g.commitId ≤ id) = past.length :=
    List.countP_eq_length.2 fun g hg => decide_eq_true (hpast g hg)
  have hr : rest.countP (fun g => g.commitId ≤ id) = 0 :=
    List.countP_eq_zero.2 fun g hg => by simpa using hrest g hg
  rw [position, List.countP_append, hp, hr, Nat.add_zero]

theorem groupNumber_eq (hpast : ∀ g ∈ past, g.commitId < id) (hrest : ∀ g ∈ rest, id ≤ g.commitId) :
    groupNumber (past ++ rest) id = past.length := by
  have hp : past.countP (fun g => g.commitId < id) = past.length :=
    List.countP_eq_length.2 fun g hg => decide_eq_true (hpast g hg)
  have hr : rest.countP (fun g => g.commitId < id) = 0 :=
    List.countP_eq_zero.2 fun g hg => by simpa using hrest g hg
  rw [groupNumber, List.countP_append, hp, hr, Nat.add_zero]

/-- The groups before one, and those after it. -/
theorem InIdOrder.around (h : InIdOrder (queuedRows (past ++ g :: rest))) :
    (∀ g' ∈ past, g'.commitId < g.commitId) ∧ ∀ g' ∈ rest, g.commitId < g'.commitId := by
  constructor
  · intro g' hg'
    exact h.lt (mem_queuedRows hg' g'.commit_mem) (mem_queuedRows List.mem_cons_self g.commit_mem)
  · intro g' hg'
    exact h.commitId_lt (mem_queuedRows hg' g'.commit_mem)

theorem position_commitId (h : InIdOrder (queuedRows (past ++ g :: rest))) :
    position (past ++ g :: rest) g.commitId = past.length + 1 := by
  obtain ⟨hpast, hrest⟩ := h.around
  rw [List.append_cons, position_eq _ hrest, List.length_append, List.length_singleton]
  intro g' hg'
  rcases List.mem_append.1 hg' with hg' | hg'
  · exact (hpast g' hg').le
  · rw [List.mem_singleton.1 hg']

theorem groupNumber_commitId (h : InIdOrder (queuedRows (past ++ g :: rest))) :
    groupNumber (past ++ g :: rest) g.commitId = past.length := by
  obtain ⟨hpast, hrest⟩ := h.around
  refine groupNumber_eq hpast ?_
  intro g' hg'
  rcases List.mem_cons.1 hg' with rfl | hg'
  · exact le_rfl
  · exact (hrest g' hg').le

theorem isGroup_number (h : InIdOrder (queuedRows log)) {tx : Option ℕ × List E} (hg : g ∈ log)
    (hid : tx.1 = some g.commitId) (hwork : tx.2 <:+ g.effects) :
    IsGroup log (groupNumber log (tx.1.getD 0)) tx := by
  obtain ⟨past, rest, rfl⟩ := List.append_of_mem hg
  refine ⟨g, ?_, hid, hwork⟩
  rw [hid, Option.getD_some, groupNumber_commitId h]
  simp

/-- A position that is not ahead of the log does not move when the log grows. -/
theorem position_receive (h : InIdOrder (queuedRows (log ++ [g])))
    (hid : id = 0 ∨ ∃ old ∈ log, old.commitId = id) : position (log ++ [g]) id = position log id := by
  have hlt : id < g.commitId := by
    have hmem : ⟨g.commitId, .commit⟩ ∈ queuedRows [g] :=
      mem_queuedRows (List.mem_singleton_self _) g.commit_mem
    rcases hid with rfl | ⟨old, hold, rfl⟩
    · exact h.2 _ (by rw [queuedRows_append]; exact List.mem_append_right _ hmem)
    · exact h.lt (mem_queuedRows hold old.commit_mem) hmem
  simp [position, List.countP_append, hlt]

theorem groupNumber_receive (h : InIdOrder (queuedRows (log ++ [g]))) {old : QueuedGroup E}
    (hold : old ∈ log) : groupNumber (log ++ [g]) old.commitId = groupNumber log old.commitId := by
  have hlt : old.commitId < g.commitId :=
    h.lt (mem_queuedRows hold old.commit_mem) (mem_queuedRows (List.mem_singleton_self _) g.commit_mem)
  simp [groupNumber, List.countP_append, hlt.le]

end

/-! ## The invariant -/

/-- Everything committed is a group of the log, and in the inner loop the groups before the cursor
are those up to `apply_id`. -/
structure ReaderInv (s : ApplyLoop E) : Prop where
  loop : LoopInv s
  committed : ∀ tx ∈ s.target.committed, ∃ g ∈ s.log, tx.1 = some g.commitId ∧ tx.2 <:+ g.effects
  place : s.pc.inCursor = true → ∃ past todo later, s.log = past ++ (todo ++ later) ∧
    past.length = position s.log s.applyId ∧ LoopPlace s todo

section
variable {s s' : ApplyLoop E} {g : QueuedGroup E} {past todo later : List (QueuedGroup E)}

theorem readerInv_init : ReaderInv ({} : ApplyLoop E) :=
  ⟨loopInv_init, nofun, nofun⟩

/-- The saved `apply_id` is not ahead of the log. -/
theorem LoopInv.saved_old (hI : LoopInv s) :
    s.saved.getD 0 = 0 ∨ ∃ g ∈ s.log, g.commitId = s.saved.getD 0 := by
  cases hs : s.saved with
  | none => exact Or.inl rfl
  | some applyId => exact (hI.saved applyId hs).old

/-- The thread gave up on a row, and nothing was committed, or only the last row was. -/
theorem ReaderInv.gone (hI : ReaderInv s) (hpc : s.pc = .fetching)
    {more : List (Option ℕ × List E)} (h : ApplyLoop.Gone s s' more)
    (hmore : more = [] ∨ ∃ past rest g work, s.log = past ++ g :: rest ∧
      past.length = position s.log s.applyId ∧ work <:+ g.effects ∧
      more = [(some g.commitId, work)]) :
    ReaderInv s' ∧ Reader.Step s.reader s'.reader := by
  have hrun : s.reader.running = true := by rw [ApplyLoop.reader, hpc]; rfl
  have hplace : s'.pc.inCursor = true → ∃ past todo later, s'.log = past ++ (todo ++ later) ∧
      past.length = position s'.log s'.applyId ∧ LoopPlace s' todo := by
    intro hin
    rw [h.pc] at hin
    cases hin
  rcases hmore with rfl | ⟨past, rest, g, work, hlog, hlen, hwork, rfl⟩
  · have hcommitted : s'.target.committed = s.target.committed := by
      rw [h.committed, List.append_nil]
    refine ⟨⟨hI.loop.gone h, by rw [hcommitted, h.log]; exact hI.committed, hplace⟩, ?_⟩
    have hreader : s'.reader = { s.reader with running := false } := by
      simp only [ApplyLoop.reader, ApplyLoop.numbers, h.pc, h.log, h.saved, h.applyId, hcommitted]
      rfl
    rw [hreader]
    exact .stop hrun
  · refine ⟨⟨hI.loop.gone h, ?_, hplace⟩, ?_⟩
    · intro tx htx
      rw [h.committed] at htx
      rw [h.log]
      rcases List.mem_append.1 htx with htx | htx
      · exact hI.committed tx htx
      · rw [List.mem_singleton.1 htx]
        exact ⟨g, by rw [hlog]; simp, rfl, hwork⟩
    · have hnum : groupNumber s.log g.commitId = position s.log s.applyId := by
        have hord := hI.loop.ordered
        rw [hlog] at hord
        rw [← hlen, hlog]
        exact groupNumber_commitId hord
      have hreader : s'.reader = { s.reader with
          executed := s.reader.executed ++ [s.reader.applied], running := false } := by
        simp only [ApplyLoop.reader, ApplyLoop.numbers, h.pc, h.log, h.saved, h.applyId,
          h.committed, List.map_append, List.map_cons, List.map_nil, Option.getD_some, hnum]
        rfl
      rw [hreader]
      exact .lose hrun

/-- A step that stays in the cursor and commits nothing. -/
theorem ReaderInv.within (hI : ReaderInv s) (hloop : LoopInv s') (hpc : s'.pc = s.pc)
    (hlog : s'.log = s.log) (hsaved : s'.saved = s.saved) (happlied : s'.applyId = s.applyId)
    (hcommitted : s'.target.committed = s.target.committed)
    (hsplit : s.log = past ++ (todo ++ later)) (hlen : past.length = position s.log s.applyId)
    (hplace : LoopPlace s' todo) : ReaderInv s' ∧ s'.reader = s.reader := by
  refine ⟨⟨hloop, by rw [hcommitted, hlog]; exact hI.committed, ?_⟩, ?_⟩
  · intro _
    rw [hlog, happlied]
    exact ⟨past, todo, later, hsplit, hlen, hplace⟩
  · simp only [ApplyLoop.reader, ApplyLoop.numbers, hpc, hlog, hsaved, happlied, hcommitted]

/-- **A row** is a step of the reader, or none. -/
theorem ReaderInv.row (hI : ReaderInv s) (hpc : s.pc = .fetching) (answers : RowAnswers)
    {row : QueuedRow E} {rest : List (QueuedRow E)} (hcursor : s.cursor = row :: rest) :
    ReaderInv (s.applyRow answers row rest) ∧
      ((s.applyRow answers row rest).reader = s.reader ∨
        Reader.Step s.reader (s.applyRow answers row rest).reader) := by
  have hloop := hI.loop.row hpc answers hcursor
  have hrun : s.reader.running = true := by rw [ApplyLoop.reader, hpc]; rfl
  obtain ⟨past, todo, later, hsplit, hlen, hplace⟩ := hI.place (by rw [hpc]; rfl)
  cases hplace with
  | boundary cursor tx =>
    cases todo with
    | nil =>
      rw [hcursor] at cursor
      cases cursor
    | cons g todo =>
      -- the row is `begin;`
      have hrow : row = ⟨g.beginId, .begin⟩ ∧ rest = g.tailRows g.statements ++ queuedRows todo := by
        rw [hcursor] at cursor
        exact List.cons.inj cursor
      obtain ⟨rfl, rfl⟩ := hrow
      rcases ApplyLoop.applyRow_begin answers g.beginId _ tx with ⟨-, heq⟩ | ⟨-, hgone⟩
      · rw [heq] at hloop ⊢
        have := hI.within hloop rfl rfl rfl rfl rfl hsplit hlen
          (.inside (List.nil_append _).symm rfl rfl fun _ => rfl)
        exact ⟨this.1, Or.inl this.2⟩
      · have := hI.gone hpc hgone (Or.inl rfl)
        exact ⟨this.1, Or.inr this.2⟩
  | @inside g todo skipped done left statements cursor tx first =>
    have hwork : s.sqltype = .begin → done.map Prod.snd = [] := fun hb => by rw [first hb]; rfl
    cases left with
    | nil =>
      -- the row is `commit;`
      have hrow : row = ⟨g.commitId, .commit⟩ ∧ rest = queuedRows todo := by
        rw [hcursor] at cursor
        exact List.cons.inj cursor
      obtain ⟨rfl, rfl⟩ := hrow
      have hsuffix : done.map Prod.snd <:+ g.effects := by
        rw [QueuedGroup.effects, statements, List.append_nil, List.map_append]
        exact List.suffix_append _ _
      have hord := hI.loop.ordered
      rw [hsplit, List.cons_append] at hord
      rcases ApplyLoop.applyRow_commit answers g.commitId (queuedRows todo) tx with
        ⟨-, pc, nCommit, hnext, heq⟩ | ⟨-, hgone⟩
      · rw [heq] at hloop ⊢
        refine ⟨⟨hloop, ?_, ?_⟩, Or.inr ?_⟩
        · intro tx htx
          rcases List.mem_append.1 htx with htx | htx
          · exact hI.committed tx htx
          · rw [List.mem_singleton.1 htx]
            exact ⟨g, by rw [hsplit]; simp, rfl, hsuffix⟩
        · intro _
          refine ⟨past ++ [g], todo, later, by simp [hsplit], ?_, .boundary rfl rfl⟩
          show _ = position s.log g.commitId
          rw [hsplit, List.cons_append, position_commitId hord]
          simp
        · have hpos : position s.log g.commitId = position s.log s.applyId + 1 := by
            rw [← hlen, hsplit, List.cons_append, position_commitId hord]
          have hnum : groupNumber s.log g.commitId = position s.log s.applyId := by
            rw [← hlen, hsplit, List.cons_append, groupNumber_commitId hord]
          have hpc' : pc.running = s.pc.running := by
            rcases hnext with rfl | rfl
            · rfl
            · rw [hpc]
              rfl
          have hreader : ApplyLoop.reader { s with
              pc, nCommit, cursor := queuedRows todo, sqltype := .commit, applyId := g.commitId
              target := { s.target with
                committed := s.target.committed ++ [(some g.commitId, done.map Prod.snd)],
                tx := .idle } } =
              { s.reader with
                executed := s.reader.executed ++ [s.reader.applied],
                applied := s.reader.applied + 1 } := by
            simp only [ApplyLoop.reader, ApplyLoop.numbers, List.map_append, List.map_cons,
              List.map_nil, Option.getD_some, hnum, hpos, hpc']
          rw [hreader]
          exact .execute hrun
      · have hmore := hI.gone hpc hgone
        by_cases hu : answers.unheard = true
        · rw [if_pos hu] at hmore
          have := hmore (Or.inr ⟨past, todo ++ later, g, _, hsplit, hlen, hsuffix, rfl⟩)
          exact ⟨this.1, Or.inr this.2⟩
        · rw [if_neg hu] at hmore
          have := hmore (Or.inl rfl)
          exact ⟨this.1, Or.inr this.2⟩
    | cons st left =>
      have hrow : row = ⟨st.1, .statement st.2⟩ ∧ rest = g.tailRows left ++ queuedRows todo := by
        rw [hcursor] at cursor
        exact List.cons.inj cursor
      obtain ⟨rfl, rfl⟩ := hrow
      rcases ApplyLoop.applyRow_statement (e := st.2) answers st.1
          (g.tailRows left ++ queuedRows todo) tx hwork with
        ⟨-, sqltype, hne, heq⟩ | ⟨-, hbegin, heq⟩ | ⟨-, hgone⟩
      · rw [heq] at hloop ⊢
        have hplace' : LoopPlace { s with
            cursor := g.tailRows left ++ queuedRows todo, sqltype
            target := { s.target with tx := .active (done.map Prod.snd ++ [st.2]) } }
              (g :: todo) := by
          refine @LoopPlace.inside _ _ g todo skipped (done ++ [st]) left ?_ rfl (by simp)
            fun hb => absurd hb hne
          rw [statements, List.append_assoc]
          rfl
        have := hI.within hloop rfl rfl rfl rfl rfl hsplit hlen hplace'
        exact ⟨this.1, Or.inl this.2⟩
      · rw [heq] at hloop ⊢
        have hplace' : LoopPlace { s with
            cursor := g.tailRows left ++ queuedRows todo, sqltype := .begin
            target := { s.target with tx := .active [] } } (g :: todo) := by
          refine @LoopPlace.inside _ _ g todo (skipped ++ [st]) [] left ?_ rfl rfl fun _ => rfl
          rw [statements, first hbegin, List.append_assoc]
          rfl
        have := hI.within hloop rfl rfl rfl rfl rfl hsplit hlen hplace'
        exact ⟨this.1, Or.inl this.2⟩
      · have := hI.gone hpc hgone (Or.inl rfl)
        exact ⟨this.1, Or.inr this.2⟩

theorem lt_commitId_of_after {log : List (QueuedGroup E)} {id : ℕ}
    (h : after QueuedRow.id id (queuedRows log) = queuedRows todo) (hg : g ∈ todo) :
    id < g.commitId := by
  have hmem := mem_queuedRows hg g.commit_mem
  rw [← h] at hmem
  simpa using (List.mem_filter.1 hmem).2

/-- A group that is received is behind the reader. -/
theorem ReaderInv.reader_receive (hI : ReaderInv s)
    (hordered : InIdOrder (queuedRows (s.log ++ [g]))) :
    ApplyLoop.reader { s with log := s.log ++ [g] } = s.reader := by
  have hsaved := position_receive hordered hI.loop.saved_old
  have happlied := position_receive hordered hI.loop.applied.old
  have hnumbers : ApplyLoop.numbers { s with log := s.log ++ [g] } = s.numbers := by
    refine List.map_congr_left ?_
    intro tx htx
    obtain ⟨old, hold, hid, -⟩ := hI.committed tx htx
    rw [hid]
    exact groupNumber_receive hordered hold
  simp only [ApplyLoop.reader, hnumbers, hsaved, happlied]

/-- **One step of the thread** is a step of the reader, or none. -/
theorem readerInv_step {e : LoopEvent E} (hI : ReaderInv s) (h : s.step e = some s') :
    ReaderInv s' ∧ (s'.reader = s.reader ∨ Reader.Step s.reader s'.reader) := by
  have hloop := loopInv_step hI.loop h
  cases ApplyLoop.step_cases h with
  | @receive g ordered =>
    refine ⟨⟨hloop, ?_, ?_⟩, Or.inl (hI.reader_receive ordered)⟩
    · intro tx htx
      obtain ⟨g', hg', hid, hwork⟩ := hI.committed tx htx
      exact ⟨g', List.mem_append_left _ hg', hid, hwork⟩
    · intro hin
      obtain ⟨past, todo, later, hsplit, hlen, hplace⟩ := hI.place hin
      have happlied : past.length = position (s.log ++ [g]) s.applyId :=
        hlen.trans (position_receive ordered hI.loop.applied.old).symm
      refine ⟨past, todo, later ++ [g], ?_, happlied, hplace.congr rfl rfl rfl⟩
      show s.log ++ [g] = _
      rw [hsplit, List.append_assoc, List.append_assoc]
  | start pc =>
    refine ⟨⟨hloop, hI.committed, nofun⟩, Or.inr ?_⟩
    exact .start (by rcases pc with pc | pc <;> rw [ApplyLoop.reader, pc] <;> rfl)
  | declareCursor pc =>
    have hidle := hI.loop.idle (by rw [pc]; rfl)
    refine ⟨⟨hloop, hI.committed, ?_⟩, Or.inl ?_⟩
    · intro _
      obtain ⟨past, todo, hsplit, hpast, hafter⟩ := hI.loop.applied.split hI.loop.ordered
      refine ⟨past, todo, [], by rw [List.append_nil]; exact hsplit, ?_, .boundary hafter hidle⟩
      show past.length = position s.log s.applyId
      rw [hsplit, position_eq hpast fun g hg => lt_commitId_of_after hafter hg]
    · simp only [ApplyLoop.reader, pc]
      rfl
  | row pc cursor => exact hI.row pc _ cursor
  | noRow pc cursor hnext =>
    rcases hnext with rfl | rfl
    · refine ⟨⟨hloop, hI.committed, nofun⟩, Or.inl ?_⟩
      simp only [ApplyLoop.reader, pc]
      rfl
    · refine ⟨⟨hloop, hI.committed, nofun⟩, Or.inl ?_⟩
      simp only [ApplyLoop.reader, pc]
      rfl
  | @save ok next pc =>
    have hpc : next.running = s.pc.running ∧ s.pc.running = true := by
      rcases pc with ⟨pc, rfl⟩ | ⟨pc, rfl⟩
      · rw [pc]
        exact ⟨rfl, rfl⟩
      · rw [pc]
        exact ⟨rfl, rfl⟩
    refine ⟨⟨hloop, hI.committed, ?_⟩, ?_⟩
    · intro hin
      rcases pc with ⟨pc, rfl⟩ | ⟨-, rfl⟩
      · obtain ⟨past, todo, later, hsplit, hlen, hplace⟩ := hI.place (by rw [pc]; rfl)
        exact ⟨past, todo, later, hsplit, hlen, hplace.congr rfl rfl rfl⟩
      · cases hin
    · cases ok with
      | true =>
        refine Or.inr ?_
        have hreader : ApplyLoop.reader { s with saved := some s.applyId, pc := next } =
            { s.reader with saved := s.reader.applied } := by
          simp only [ApplyLoop.reader, ApplyLoop.numbers, Option.getD_some, hpc.1]
        show Reader.Step s.reader (ApplyLoop.reader { s with saved := some s.applyId, pc := next })
        rw [hreader]
        exact .save hpc.2
      | false =>
        refine Or.inl ?_
        show ApplyLoop.reader { s with saved := s.saved, pc := next } = s.reader
        simp only [ApplyLoop.reader, ApplyLoop.numbers, hpc.1]
  | kill pc =>
    refine ⟨⟨hloop, hI.committed, nofun⟩, Or.inr (.stop ?_)⟩
    obtain ⟨hdown, hexited⟩ := pc
    show s.pc.running = true
    cases hpc : s.pc <;> first | rfl | exact absurd hpc hdown | exact absurd hpc hexited

/-! ## In order -/

/-- The invariants of the thread and of the reader. -/
def OrderInv (s : ApplyLoop E) : Prop := ReaderInv s ∧ s.reader.Inv

theorem orderInv_init : OrderInv ({} : ApplyLoop E) := ⟨readerInv_init, Reader.inv_init⟩

theorem orderInv_step {e : LoopEvent E} (hI : OrderInv s) (h : s.step e = some s') :
    OrderInv s' := by
  obtain ⟨hinv, hreader | hreader⟩ := readerInv_step hI.1 h
  · exact ⟨hinv, hreader ▸ hI.2⟩
  · exact ⟨hinv, hI.2.step hreader⟩

theorem OrderInv.groups (hI : OrderInv s) :
    List.Forall₂ (IsGroup s.log) s.numbers s.target.committed := by
  rw [ApplyLoop.numbers, List.forall₂_map_left_iff]
  refine List.forall₂_same.2 ?_
  intro tx htx
  obtain ⟨g, hg, hid, hwork⟩ := hI.1.committed tx htx
  exact isGroup_number hI.1.loop.ordered hg hid hwork

theorem OrderInv.appliedInOrder (hI : OrderInv s) : AppliedInOrder s where
  groups := hI.groups
  inOrder := hI.2.inOrder
  saved := by
    intro applyId ha j hj
    refine hI.2.inOrder.mem (hj.trans_le ?_)
    have hsaved := hI.2.saved
    rwa [ApplyLoop.reader, ha] at hsaved

/-- **The target gets the groups of the log in order**, whatever it answers and wherever the
process is killed. -/
theorem appliedInOrder_of_run {es : List (LoopEvent E)}
    (hr : StepMachine.run ApplyLoop.step {} es = some s) : AppliedInOrder s :=
  OrderInv.appliedInOrder
    (StepMachine.run_preserves (fun _ _ _ hI h => orderInv_step hI h) orderInv_init hr)

/-! ## At most five transactions are applied again -/

/-- How many transactions may be committed behind the saved `apply_id`. -/
def ApplyLoop.unsaved (s : ApplyLoop E) : ℕ :=
  match s.pc with
  | .fetching => s.nCommit
  | .savingFifth => 5
  | .savingRest => 4
  | _ => 0

/-- `n_commit` counts the transactions behind the saved `apply_id`. -/
structure SavedInv (s : ApplyLoop E) : Prop where
  order : OrderInv s
  within : s.reader.Within 5
  unsaved : s.pc.running = true → s.reader.applied ≤ s.reader.saved + s.unsaved
  nCommit : s.pc.inCursor = true → s.nCommit ≤ 4

theorem savedInv_init : SavedInv ({} : ApplyLoop E) :=
  ⟨orderInv_init, nofun, nofun, nofun⟩

/-- What the body of the inner loop does with the count. -/
theorem ApplyLoop.applyRow_counts (s : ApplyLoop E) (answers : RowAnswers) (row : QueuedRow E)
    (rest : List (QueuedRow E)) :
    (s.applyRow answers row rest).pc = .exited ∨
      (s.applyRow answers row rest).pc = s.pc ∧
        (s.applyRow answers row rest).nCommit = s.nCommit ∧
        (s.applyRow answers row rest).applyId = s.applyId ∧
        (s.applyRow answers row rest).log = s.log ∨
      (s.applyRow answers row rest).pc = s.pc ∧
        (s.applyRow answers row rest).nCommit = s.nCommit + 1 ∧ s.nCommit ≠ 4 ∨
      (s.applyRow answers row rest).pc = .savingFifth ∧
        (s.applyRow answers row rest).nCommit = 0 ∧ s.nCommit = 4 := by
  have hexecuted : ∀ t : ApplyLoop E, t.pc = s.pc → t.nCommit = s.nCommit →
      t.applyId = s.applyId → t.log = s.log →
      (t.executed row.id).pc = s.pc ∧ (t.executed row.id).nCommit = s.nCommit ∧
          (t.executed row.id).applyId = s.applyId ∧ (t.executed row.id).log = s.log ∨
        (t.executed row.id).pc = s.pc ∧ (t.executed row.id).nCommit = s.nCommit + 1 ∧
          s.nCommit ≠ 4 ∨
        (t.executed row.id).pc = .savingFifth ∧ (t.executed row.id).nCommit = 0 ∧
          s.nCommit = 4 := by
    intro t hpc hn hid hlog
    unfold executed
    by_cases hc : t.sqltype = .commit
    · by_cases h4 : s.nCommit = 4
      · simp [hc, hn, h4]
      · simp [hc, hn, h4, hpc]
    · simp [hc, hpc, hn, hid, hlog]
  unfold applyRow
  obtain ⟨⟨target, outcome⟩, hexec⟩ : ∃ r, row.exec answers s.target = r := ⟨_, rfl⟩
  simp only [hexec]
  cases outcome with
  | ok => exact Or.inr (hexecuted _ rfl rfl rfl rfl)
  | otherError => exact Or.inl rfl
  | duplicateKey =>
    by_cases hfirst : row.sql.sqltype s.sqltype = .firstStatement
    · simp only [if_pos hfirst]
      unfold skip
      dsimp only
      obtain ⟨⟨target', outcome'⟩, hcommit⟩ :
          ∃ r, target.commit none answers.finish false = r := ⟨_, rfl⟩
      simp only [hcommit]
      have hgone : ∀ t : EffectSession ℕ E, ((exit { s with
          cursor := rest, sqltype := row.sql.sqltype s.sqltype, target := t }).executed
            row.id).pc = .exited := by
        intro t
        have hne : ¬ row.sql.sqltype s.sqltype = .commit := by rw [hfirst]; nofun
        unfold executed exit
        dsimp only
        rw [if_neg hne]
      cases outcome' with
      | ok =>
        obtain ⟨⟨target'', outcome''⟩, hstart⟩ : ∃ r, target'.start answers.start = r := ⟨_, rfl⟩
        simp only [hstart]
        cases outcome'' with
        | ok => exact Or.inr (hexecuted _ rfl rfl rfl rfl)
        | duplicateKey => exact Or.inl (hgone _)
        | otherError => exact Or.inl (hgone _)
      | duplicateKey => exact Or.inl (hgone _)
      | otherError => exact Or.inl (hgone _)
    · simp only [if_neg hfirst]
      exact Or.inl rfl

/-- Only a row can be a COMMIT. -/
theorem length_numbers_of_step {e : LoopEvent E} (h : s.step e = some s')
    (hpc : s.pc ≠ .fetching) : s'.numbers.length = s.numbers.length := by
  have hlen : ∀ t : ApplyLoop E, t.numbers.length = t.target.committed.length := by
    intro t
    rw [ApplyLoop.numbers, List.length_map]
  rw [hlen, hlen]
  cases ApplyLoop.step_cases h with
  | row pc _ => exact absurd pc hpc
  | noRow pc _ _ => exact absurd pc hpc
  | receive _ | start _ | declareCursor _ | save _ _ | kill _ => rfl

/-- What is committed stays within five positions of the saved one. -/
theorem SavedInv.within_step {e : LoopEvent E} (hI : SavedInv s) (h : s.step e = some s') :
    s'.reader.Within 5 := by
  obtain ⟨-, hreader | hreader⟩ := readerInv_step hI.order.1 h
  · rw [hreader]
    exact hI.within
  · refine hI.within.step hI.order.2 hreader ?_
    intro hrun hne
    have hpc : s.pc = .fetching := by
      by_contra hpc
      exact hne (hreader.executed_eq (length_numbers_of_step h hpc))
    have hun := hI.unsaved hrun
    have hn := hI.nCommit (by rw [hpc]; rfl)
    rw [ApplyLoop.unsaved, hpc] at hun
    dsimp only at hun
    omega

/-- **A row** is counted. -/
theorem SavedInv.unsaved_row (hI : SavedInv s) (hpc : s.pc = .fetching) (answers : RowAnswers)
    {row : QueuedRow E} {rest : List (QueuedRow E)} (hcursor : s.cursor = row :: rest) :
    ((s.applyRow answers row rest).pc.running = true →
      (s.applyRow answers row rest).reader.applied ≤
        (s.applyRow answers row rest).reader.saved + (s.applyRow answers row rest).unsaved) ∧
    ((s.applyRow answers row rest).pc.inCursor = true →
      (s.applyRow answers row rest).nCommit ≤ 4) := by
  have hrun : s.reader.running = true := by rw [ApplyLoop.reader, hpc]; rfl
  have hn := hI.nCommit (by rw [hpc]; rfl)
  have hun := hI.unsaved hrun
  rw [ApplyLoop.unsaved, hpc] at hun
  dsimp only at hun
  obtain ⟨-, hreader⟩ := hI.order.1.row hpc answers hcursor
  have hle : (s.applyRow answers row rest).pc.running = true →
      (s.applyRow answers row rest).reader.applied ≤ (s.applyRow answers row rest).reader.saved ∨
        (s.applyRow answers row rest).reader.applied ≤ s.reader.applied + 1 ∧
          (s.applyRow answers row rest).reader.saved = s.reader.saved := by
    intro hrun'
    rcases hreader with hreader | hreader
    · rw [hreader]
      exact Or.inr ⟨Nat.le_succ _, rfl⟩
    · exact hreader.applied_le hrun hrun'
  rcases s.applyRow_counts answers row rest with
    hgone | ⟨hpc', hn', hid, hlog⟩ | ⟨hpc', hn', h4⟩ | ⟨hpc', hn', h4⟩
  · rw [hgone]
    exact ⟨nofun, nofun⟩
  · have happlied : (s.applyRow answers row rest).reader.applied = s.reader.applied := by
      simp only [ApplyLoop.reader, hid, hlog]
    refine ⟨?_, fun _ => hn' ▸ hn⟩
    intro hrun'
    rw [ApplyLoop.unsaved, hpc', hpc, hn']
    rcases hle hrun' with hle | ⟨-, hsaved⟩
    · exact Nat.le_add_right_of_le hle
    · rw [happlied, hsaved]
      exact hun
  · refine ⟨?_, fun _ => by omega⟩
    intro hrun'
    rw [ApplyLoop.unsaved, hpc', hpc, hn']
    dsimp only
    rcases hle hrun' with hle | ⟨hle, hsaved⟩ <;> omega
  · refine ⟨?_, fun _ => by omega⟩
    intro hrun'
    rw [ApplyLoop.unsaved, hpc']
    dsimp only
    rcases hle hrun' with hle | ⟨hle, hsaved⟩ <;> omega

theorem savedInv_step {e : LoopEvent E} (hI : SavedInv s) (hok : SaveOk e)
    (h : s.step e = some s') : SavedInv s' := by
  have hrest : (s'.pc.running = true → s'.reader.applied ≤ s'.reader.saved + s'.unsaved) ∧
      (s'.pc.inCursor = true → s'.nCommit ≤ 4) := by
    cases ApplyLoop.step_cases h with
    | receive ordered =>
      refine ⟨?_, hI.nCommit⟩
      rw [hI.order.1.reader_receive ordered]
      exact hI.unsaved
    | start _ => exact ⟨fun _ => Nat.le_refl _, by rintro ⟨⟩⟩
    | declareCursor pc =>
      refine ⟨?_, fun _ => Nat.zero_le _⟩
      intro _
      have hun := hI.unsaved (by rw [pc]; rfl)
      rw [ApplyLoop.unsaved, pc] at hun
      exact hun
    | row pc cursor => exact hI.unsaved_row pc _ cursor
    | @noRow answers next pc cursor hnext =>
      have hun := hI.unsaved (by rw [pc]; rfl)
      have hn := hI.nCommit (by rw [pc]; rfl)
      rw [ApplyLoop.unsaved, pc] at hun
      dsimp only at hun
      refine ⟨fun _ => ?_, fun _ => Nat.zero_le _⟩
      show s.reader.applied ≤ s.reader.saved + _
      by_cases hzero : s.nCommit = 0
      · rw [hzero] at hun
        exact Nat.le_add_right_of_le hun
      · -- the thread saves before it opens the cursor again
        have hsaving : next = .savingRest := by
          simp only [ApplyLoop.step, pc, cursor, if_true, ne_eq, hzero, not_false_eq_true,
            Option.some.injEq, ApplyLoop.mk.injEq] at h
          exact h.1.symm
        rw [hsaving]
        exact hun.trans (Nat.add_le_add_left hn _)
    | @save ok next pc =>
      obtain rfl : ok = true := hok
      refine ⟨fun _ => Nat.le_add_right _ _, ?_⟩
      intro hin
      rcases pc with ⟨pc, -⟩ | ⟨-, rfl⟩
      · exact hI.nCommit (by rw [pc]; rfl)
      · cases hin
    | kill _ => exact ⟨by rintro ⟨⟩, by rintro ⟨⟩⟩
  exact ⟨orderInv_step hI.order h, hI.within_step h, hrest.1, hrest.2⟩

/-- **At most five transactions are applied again** after a restart, in every run in which
`apply_id` is saved whenever the thread asks for it. -/
theorem replayBounded_of_run {es : List (LoopEvent E)}
    (hm : StepMachine.Meets ApplyLoop.step (fun _ e => SaveOk e) {} es)
    (hr : StepMachine.run ApplyLoop.step {} es = some s) : ReplayBounded s :=
  (StepMachine.run_invariant (I := SavedInv) (fun _ _ _ hI hok h => savedInv_step hI hok h)
    savedInv_init hm hr).within

/-! ## Applied once -/

/-- The thread is started by `start` only. -/
theorem start_of_running {e : LoopEvent E} (h : s.step e = some s') (hs : s.pc.running = false)
    (hs' : s'.pc.running = true) : e = .start := by
  cases ApplyLoop.step_cases h with
  | start _ => rfl
  | receive _ =>
    rw [hs] at hs'
    cases hs'
  | declareCursor pc | row pc _ | noRow pc _ _ =>
    rw [pc] at hs
    cases hs
  | save _ pc => rcases pc with ⟨pc, -⟩ | ⟨pc, -⟩ <;> rw [pc] at hs <;> cases hs
  | kill _ => cases hs'

/-- **Every transaction is applied once**, but for what is skipped at its head, in every run in which
the thread is started only where `apply_id` is saved behind all that is committed. -/
theorem appliedOnce_of_run {es : List (LoopEvent E)}
    (hm : StepMachine.Meets ApplyLoop.step ResumesBehindApplied {} es)
    (hr : StepMachine.run ApplyLoop.step {} es = some s) : AppliedOnce s := by
  have hI : OrderInv s ∧ s.reader.Once := by
    refine StepMachine.run_invariant (I := fun s => OrderInv s ∧ s.reader.Once) ?_
      ⟨orderInv_init, rfl, nofun⟩ hm hr
    rintro s e s' ⟨hI, ho⟩ hok h
    refine ⟨orderInv_step hI h, ?_⟩
    obtain ⟨-, hreader | hreader⟩ := readerInv_step hI.1 h
    · rw [hreader]
      exact ho
    · refine ho.step hreader ?_
      intro hs hs'
      obtain rfl := start_of_running h hs hs'
      have hresumes : s.reader.saved = s.target.committed.length := hok
      rw [hresumes]
      exact (List.length_map _).symm
  have hnumbers : s.numbers = List.range s.target.committed.length := by
    have := hI.2.executed
    rwa [show s.reader.executed = s.numbers from rfl, ApplyLoop.numbers, List.length_map] at this
  rw [AppliedOnce, ← hnumbers]
  exact hI.1.groups

end

/-! ## Two groups -/

/-- The four rows of a group are applied. -/
def applyFour : List (LoopEvent String) :=
  [.fetch ⟨.ok, false, .ok, .ok⟩, .fetch ⟨.ok, false, .ok, .ok⟩, .fetch ⟨.ok, false, .ok, .ok⟩,
    .fetch ⟨.ok, false, .ok, .ok⟩]

/-- A second group arrives while the first is applied, and the process is killed before it saves
`apply_id`. -/
def replayAB : List (LoopEvent String) :=
  beforeAB ++ applyFour ++ [.receive ⟨5, [(6, "c"), (7, "d")], 9⟩, .kill, .start, .declareCursor] ++
    applyFour ++ applyFour

/-- The end of the cursor saves `apply_id` before the process is killed. -/
def resumeAB : List (LoopEvent String) :=
  beforeAB ++ applyFour ++ [.receive ⟨5, [(6, "c"), (7, "d")], 9⟩,
    .fetch ⟨.ok, false, .ok, .ok⟩, .save true, .kill, .start, .declareCursor] ++ applyFour

theorem appliedInOrder_replayAB :
    ∃ s, StepMachine.run ApplyLoop.step {} replayAB = some s ∧ s.numbers = [0, 0, 1] ∧
      AppliedInOrder s := by
  have hs : (StepMachine.run ApplyLoop.step {} replayAB).map ApplyLoop.numbers =
      some [0, 0, 1] := by decide
  obtain ⟨s, hr, h⟩ := Option.map_eq_some_iff.1 hs
  exact ⟨s, hr, h, appliedInOrder_of_run hr⟩

theorem replayBounded_replayAB :
    ∃ s, StepMachine.run ApplyLoop.step {} replayAB = some s ∧ s.saved = none ∧
      ReplayBounded s := by
  have hs : (StepMachine.run ApplyLoop.step {} replayAB).map ApplyLoop.saved = some none := by
    decide
  obtain ⟨s, hr, h⟩ := Option.map_eq_some_iff.1 hs
  exact ⟨s, hr, h, replayBounded_of_run (by decide) hr⟩

theorem appliedOnce_resumeAB :
    ∃ s, StepMachine.run ApplyLoop.step {} resumeAB = some s ∧
      s.target.committed = [(some 4, ["a", "b"]), (some 9, ["c", "d"])] ∧ AppliedOnce s := by
  have hs : (StepMachine.run ApplyLoop.step {} resumeAB).map (fun s => s.target.committed) =
      some [(some 4, ["a", "b"]), (some 9, ["c", "d"])] := by decide
  obtain ⟨s, hr, h⟩ := Option.map_eq_some_iff.1 hs
  exact ⟨s, hr, h, appliedOnce_of_run (by decide) hr⟩

end RdsDbsync
