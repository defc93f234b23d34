/-
  The full copy as a whole: the target gets each table of the list once, with the rows
  that the source had when the slot was created.
-/
import RdsDbsync.EndMark
import RdsDbsync.HandOff
import RdsDbsync.Lib.Tokens

namespace RdsDbsync

universe u v
variable {Tbl : Type u} {Row : Type v}

/-! ## The property -/

/-- **The copy is exact**: no table is copied twice, every copy is what the slot's stream starts
from, and once `full_s_end` is set the target has all tables of the list, with all their rows. -/
structure ExactCopy (c : SyncConfig Tbl Row) (s : SyncSystem Tbl Row) : Prop where
  once : (s.target.map TableCopy.table).Nodup
  atSlot : ∀ copy ∈ s.target, s.slot = some copy.snapshot
  whole : s.fullEnd = true → ∀ n, s.slot = some n →
    s.target.Perm (s.endTasks.map fun t => ⟨t, n, c.rows t n⟩)

/-- A process that needs a full sync finds no slot, and the list of tables has each of them once. -/
def NewSlot (s : SyncSystem Tbl Row) : SyncEvent Tbl → Prop
  | .findSlot _ => s.main.needFullSync = true → s.slot = none
  | .listTables (some tables) => tables.Nodup
  | _ => True

instance [DecidableEq Tbl] (s : SyncSystem Tbl Row) : ∀ e, Decidable (NewSlot s e)
  | .findSlot _ => inferInstanceAs (Decidable (_ → _))
  | .listTables (some tables) => inferInstanceAs (Decidable tables.Nodup)
  | .listTables none | .worker _ _ | .sourceCommit | .start _ | .kill | .connect _
  | .connectLocal _ | .readStatus _ | .createSlot _ | .beginCopy _ | .exportSnapshot _
  | .createThread | .writeStart _ | .joined | .writeEnd _ => inferInstanceAs (Decidable True)

/-- The process that copies created the slot, reads the tables before the source commits again, and
sets `full_s_end` only if no worker failed on a table. -/
def CleanCopy (s : SyncSystem Tbl Row) (e : SyncEvent Tbl) : Prop :=
  NewSlot s e ∧ CopiesAtSlot s e ∧ DrainedAtEnd s e

instance [DecidableEq Tbl] (s : SyncSystem Tbl Row) (e : SyncEvent Tbl) :
    Decidable (CleanCopy s e) := inferInstanceAs (Decidable (_ ∧ _ ∧ _))

/-! ## What a worker may still commit -/

/-- The table whose COPY is not completed. -/
def CopyPc.uncopied : CopyPc Tbl Row → List Tbl
  | .beginOrigin t | .beginTarget t | .copyTo t | .copyFrom t _ | .copying t _ _ _
  | .putEnd t _ _ | .getResult t _ _ => [t]
  | .connecting | .taking | .finishOrigin _ | .finishTarget _ | .finished _ => []

/-- The snapshot that is being copied. -/
def CopyPc.snapshot : CopyPc Tbl Row → Option ℕ
  | .copyFrom _ p | .copying _ p _ _ | .putEnd _ p _ | .getResult _ p _ => some p
  | .connecting | .taking | .beginOrigin _ | .beginTarget _ | .copyTo _ | .finishOrigin _
  | .finishTarget _ | .finished _ => none

namespace CopyThread

/-- The tables that the worker may still commit. -/
def owes (w : CopyThread Tbl Row) : Multiset Tbl :=
  ↑w.pc.uncopied + ↑(w.target.copies.map TableCopy.table)

/-- All that the worker copies is from one snapshot. -/
structure ReadsAt (slot : Option ℕ) (w : CopyThread Tbl Row) : Prop where
  pc : ∀ p, w.pc.snapshot = some p → slot = some p
  copies : ∀ copy ∈ w.target.copies, slot = some copy.snapshot

section
variable {env : CopyEnv Tbl Row} {tasks : List Tbl} {w : CopyThread Tbl Row} {e : CopyEvent}
  {r : CopyStep Tbl Row} {slot : Option ℕ}

/-- **A worker commits no table twice**: what it takes from the list is once its own. -/
theorem Step.owes_le (h : Step env tasks w e r) :
    ↑r.tasks + r.thread.owes + ↑(r.committed.map TableCopy.table) ≤ ↑tasks + w.owes := by
  have hsame : r.tasks = tasks → r.committed = [] → r.thread.target = w.target →
      r.thread.pc.uncopied = w.pc.uncopied →
        ↑r.tasks + r.thread.owes + ↑(r.committed.map TableCopy.table) ≤ ↑tasks + w.owes := by
    intro htasks hcommitted htarget hpc
    rw [htasks, hcommitted, owes, owes, htarget, hpc, List.map_nil, Multiset.coe_nil, add_zero]
  cases h with
  | connected pc | notConnected pc | originBegun pc | reading pc | opened pc | sentRow pc
  | lastRow pc | cutOff pc | endSent pc | originFinished pc =>
    exact hsame rfl rfl rfl (by rw [pc]; rfl)
  | noTask pc none =>
    show (↑tasks + 0 + 0 : Multiset Tbl) ≤ _
    rw [add_zero, add_zero]
    exact Multiset.le_add_right _ _
  | @took t rest pc some =>
    simp only [owes, pc, some, CopyPc.uncopied, List.map_nil, Multiset.coe_nil, add_zero, zero_add]
    rw [← add_assoc, Multiset.coe_add]
    exact add_le_add_left (Multiset.coe_le.2 List.perm_append_comm.subperm) _
  | @targetBegun t answer target pc begun =>
    simp only [owes, pc, CopyPc.uncopied, copies_startCopyTargetTx begun, List.map_nil,
      Multiset.coe_nil, add_zero]
    rw [← add_assoc]
    exact Multiset.le_add_right _ _
  | gaveUp taken =>
    show (↑tasks + 0 + 0 : Multiset Tbl) ≤ _
    rw [add_zero, add_zero]
    exact Multiset.le_add_right _ _
  | @result t p sent target committed pc put =>
    have hput := congrArg (List.map TableCopy.table) (copies_put put)
    rw [List.map_append, List.map_append, List.map_cons, List.map_nil] at hput
    simp only [owes, pc, CopyPc.uncopied, Multiset.coe_nil, zero_add]
    rw [add_assoc, Multiset.coe_add, hput, Multiset.coe_add]
    exact add_le_add_right (Multiset.coe_le.2 List.perm_append_comm.subperm) _
  | @targetFinished t answer target committed dropped pc finish drop =>
    obtain ⟨hnone, hcommitted⟩ := copies_finishCopyTargetTx finish
    simp only [owes, pc, CopyPc.uncopied, hnone, List.map_nil, Multiset.coe_nil, zero_add, add_zero]
    refine add_le_add_right ?_ _
    rcases hcommitted with rfl | rfl
    · exact le_rfl
    · exact Multiset.zero_le _

/-- **A worker copies from one snapshot**, and commits copies of it. -/
theorem Step.readsAt (h : Step env tasks w e r) (hw : w.ReadsAt slot)
    (hread : ∀ a ∈ r.read, slot = some a.2) :
    r.thread.ReadsAt slot ∧ ∀ copy ∈ r.committed, slot = some copy.snapshot := by
  cases h with
  | connected | notConnected | took | originBegun =>
    exact ⟨⟨nofun, hw.copies⟩, nofun⟩
  | noTask | gaveUp => exact ⟨⟨nofun, nofun⟩, nofun⟩
  | targetBegun pc begun =>
    refine ⟨⟨nofun, ?_⟩, nofun⟩
    rw [copies_startCopyTargetTx begun]
    nofun
  | reading pc snap =>
    refine ⟨⟨?_, hw.copies⟩, nofun⟩
    rintro _ ⟨⟩
    exact hread _ (List.mem_singleton_self _)
  | opened pc | sentRow pc | lastRow pc | cutOff pc | endSent pc =>
    refine ⟨⟨?_, hw.copies⟩, nofun⟩
    rintro _ ⟨⟩
    exact hw.pc _ (by rw [pc]; rfl)
  | @result t p sent target committed pc put =>
    have hall : ∀ copy ∈ target.copies ++ committed, slot = some copy.snapshot := by
      rw [copies_put put]
      intro copy hcopy
      rcases List.mem_append.1 hcopy with hcopy | hcopy
      · exact hw.copies copy hcopy
      · rw [List.mem_singleton.1 hcopy]
        exact hw.pc _ (by rw [pc]; rfl)
    exact ⟨⟨nofun, fun copy hcopy => hall copy (List.mem_append_left _ hcopy)⟩,
      fun copy hcopy => hall copy (List.mem_append_right _ hcopy)⟩
  | originFinished => exact ⟨⟨nofun, hw.copies⟩, nofun⟩
  | targetFinished pc finish =>
    obtain ⟨hnone, hcommitted⟩ := copies_finishCopyTargetTx finish
    refine ⟨⟨nofun, ?_⟩, ?_⟩
    · rw [hnone]
      nofun
    · rcases hcommitted with rfl | rfl
      · exact hw.copies
      · nofun

end

end CopyThread

/-! ## The process that copies -/

/-- Before the slot is found or created. -/
def MainPc.beforeSlot : MainPc → Bool
  | .down | .connecting | .connectingLocal | .readingStatus | .findingSlot | .creatingSlot => true
  | _ => false

/-- A process past the slot created it, or has nothing to copy. -/
def CopierIsNew (s : SyncSystem Tbl Row) : Prop :=
  s.main.pc.beforeSlot ∨ s.slot ≠ none ∧ (s.main.createdSlot = true ∨ s.main.pc = .syncing)

section
variable {c : SyncConfig Tbl Row} {s s' : SyncSystem Tbl Row} {e : SyncEvent Tbl}

theorem CopierIsNew.created (h : CopierIsNew s) (hbefore : ¬ s.main.pc.beforeSlot)
    (hne : s.main.pc ≠ .syncing) : s.slot ≠ none ∧ s.main.createdSlot = true := by
  obtain ⟨hslot, hcreated | hsyncing⟩ := h.resolve_left hbefore
  · exact ⟨hslot, hcreated⟩
  · exact absurd hsyncing hne

/-- The moves of a process before the slot. -/
theorem beforeSlot_of_moved {m : MainThread Tbl} (hc : c.replicationSync = true)
    (hb : s.main.pc.beforeSlot) (hok : NewSlot s e)
    (h : s.step c e = some { s with main := m }) :
    m.pc.beforeSlot ∨ s.slot ≠ none ∧ m.pc = .syncing := by
  cases e with
  | sourceCommit =>
    obtain rfl : s.main = m := congrArg SyncSystem.main (Option.some.inj h)
    exact Or.inl hb
  | start nth =>
    obtain ⟨-, h⟩ := Option.ite_none_right_eq_some.1 h
    obtain rfl : _ = m := congrArg SyncSystem.main (Option.some.inj h)
    exact Or.inl rfl
  | kill =>
    obtain ⟨-, h⟩ := Option.ite_none_left_eq_some.1 h
    obtain rfl : _ = m := congrArg SyncSystem.main (Option.some.inj h)
    exact Or.inl rfl
  | connect ok =>
    obtain ⟨-, h⟩ := Option.ite_none_right_eq_some.1 h
    obtain rfl : _ = m := congrArg SyncSystem.main (Option.some.inj h)
    cases ok <;> exact Or.inl rfl
  | connectLocal ok =>
    obtain ⟨-, h⟩ := Option.ite_none_right_eq_some.1 h
    obtain rfl : _ = m := congrArg SyncSystem.main (Option.some.inj h)
    simp only [SyncSystem.afterStatus, hc]
    cases ok <;> exact Or.inl rfl
  | readStatus ok =>
    obtain ⟨-, h⟩ := Option.ite_none_right_eq_some.1 h
    obtain rfl : _ = m := congrArg SyncSystem.main (Option.some.inj h)
    simp only [SyncSystem.afterStatus, hc]
    split_ifs <;> exact Or.inl rfl
  | findSlot ok =>
    obtain ⟨-, h⟩ := Option.ite_none_right_eq_some.1 h
    obtain rfl : _ = m := congrArg SyncSystem.main (Option.some.inj h)
    split_ifs with hfound
    · -- nothing is to be copied
      have hneed : ¬ s.main.needFullSync = true := fun hneed => hfound.2 (hok hneed)
      rw [SyncSystem.afterSlot, if_neg hneed]
      exact Or.inr ⟨hfound.2, rfl⟩
    · exact Or.inl rfl
  | createSlot ok =>
    obtain ⟨-, h⟩ := Option.ite_none_right_eq_some.1 h
    cases ok
    · obtain rfl : _ = m := congrArg SyncSystem.main (Option.some.inj h)
      exact Or.inl rfl
    · obtain ⟨hslot, h⟩ := Option.ite_none_right_eq_some.1 h
      have hslot' : some s.commits = s.slot := congrArg SyncSystem.slot (Option.some.inj h)
      cases hslot'.trans hslot
  | beginCopy | exportSnapshot | listTables | writeEnd =>
    obtain ⟨hpc, -⟩ := Option.ite_none_right_eq_some.1 h
    rw [hpc] at hb
    cases hb
  | createThread | writeStart | joined =>
    obtain ⟨⟨hpc, -⟩, -⟩ := Option.ite_none_right_eq_some.1 h
    rw [hpc] at hb
    cases hb
  | worker i e =>
    cases hw : s.threads[i]? with
    | none => simp [SyncSystem.step, hw] at h
    | some w =>
      simp only [SyncSystem.step, hw] at h
      obtain ⟨r, -, hr⟩ := Option.map_eq_some_iff.1 h
      obtain rfl : s.main = m := congrArg SyncSystem.main hr
      exact Or.inl hb

/-- **A step that gets past the slot** creates it, or leads to no full sync. -/
theorem copierIsNew_step (hc : c.replicationSync = true) (hI : CopierIsNew s) (hok : NewSlot s e)
    (h : s.step c e = some s') : CopierIsNew s' := by
  have hlater : ¬ s.main.pc.beforeSlot → s.main.pc ≠ .syncing → s'.slot = s.slot →
      s'.main.createdSlot = s.main.createdSlot → CopierIsNew s' := by
    intro hbefore hne hslot hcreated
    obtain ⟨hs, hm⟩ := hI.created hbefore hne
    exact Or.inr ⟨hslot ▸ hs, Or.inl (hcreated.trans hm)⟩
  cases SyncSystem.step_cases h with
  | sourceCommit | worker => exact hI
  | start | kill | quit => exact Or.inl rfl
  | slotCreated => exact Or.inr ⟨nofun, Or.inl rfl⟩
  | moved moves =>
    by_cases hb : s.main.pc.beforeSlot
    · exact (beforeSlot_of_moved hc hb hok h).imp_right (And.imp_right Or.inr)
    · refine hlater hb ?_ rfl moves.snapshots.2.2
      intro hpc
      have hexport := moves.pc
      rw [hpc] at hexport
      cases hexport
  | exported pc | listed tasks pc | createThread pc | writeStart ok pc | joined pc
  | writeEnd ok pc => exact hlater (by rw [pc]; nofun) (by rw [pc]; nofun) rfl rfl

end

/-! ## The invariant -/

/-- What is left, what the workers may still commit, and what is committed. -/
def SyncSystem.owed (s : SyncSystem Tbl Row) : Multiset Tbl :=
  ↑s.queue + (s.threads.map CopyThread.owes).sum + ↑(s.target.map TableCopy.table)

/-- One process copies, every table once, and all from the slot's position. -/
structure CopyInv (s : SyncSystem Tbl Row) : Prop where
  down : s.main.pc = .down → s.main.createdSlot = false
  idle : s.main.createdSlot = false → s.threads = [] ∧ s.queue = []
  finished : s.main.pc = .writingEnd ∨ s.main.pc = .syncing → ∀ w ∈ s.threads, w.pc.isFinished
  atSlot : ∀ copy ∈ s.target, s.slot = some copy.snapshot
  readsAt : ∀ w ∈ s.threads, w.ReadsAt s.slot
  once : (s.target.map TableCopy.table).Nodup
  owed : s.main.createdSlot = true → s.main.tasks.Nodup ∧ s.owed ≤ ↑s.main.tasks
  unmarked : s.slot = none → s.fullEnd = false
  copying : s.main.createdSlot = true → s.main.pc ≠ .syncing → s.fullEnd = false
  unended : s.fullEnd = false → s.endTasks = []
  ended : s.fullEnd = true → s.endTasks.Nodup ∧
    (↑(s.target.map TableCopy.table) : Multiset Tbl) ≤ ↑s.endTasks

section
variable {c : SyncConfig Tbl Row} {s s' : SyncSystem Tbl Row}

/-- A slot is created where there is none. -/
theorem SyncSystem.slot_of_createSlot (h : s.step c (.createSlot true) = some s') :
    s.slot = none := by
  obtain ⟨-, h⟩ := Option.ite_none_right_eq_some.1 h
  exact (Option.ite_none_right_eq_some.1 h).1

theorem SyncSystem.target_le_owed (s : SyncSystem Tbl Row) :
    (↑(s.target.map TableCopy.table) : Multiset Tbl) ≤ s.owed :=
  Multiset.le_add_left _ _

/-- A new worker owes nothing. -/
theorem SyncSystem.owed_createThread (s : SyncSystem Tbl Row) :
    SyncSystem.owed { s with threads := s.threads ++ [{}] } = s.owed := by
  have hsum : ((s.threads ++ [({} : CopyThread Tbl Row)]).map CopyThread.owes).sum =
      (s.threads.map CopyThread.owes).sum := by
    rw [List.map_append, List.sum_append]
    exact add_zero _
  rw [owed, owed, hsum]

/-- A worker's step takes nothing from elsewhere. -/
theorem SyncSystem.owed_afterWorker {i : ℕ} {e : CopyEvent} {w : CopyThread Tbl Row}
    {r : CopyStep Tbl Row} (hw : s.threads[i]? = some w)
    (hstep : CopyThread.Step (s.copyEnv c) s.queue w e r) : (s.afterWorker i r).owed ≤ s.owed := by
  obtain ⟨others, hsum, hset⟩ := Tokens.sum_set CopyThread.owes hw
  simp only [owed, afterWorker, hsum, hset, List.map_append, ← Multiset.coe_add]
  exact Tokens.total_le hstep.owes_le _ _

/-- The process ends. -/
theorem CopyInv.exit (hI : CopyInv s) : CopyInv s.exit where
  down _ := rfl
  idle _ := ⟨rfl, rfl⟩
  finished := nofun
  atSlot := hI.atSlot
  readsAt := nofun
  once := hI.once
  owed := nofun
  unmarked := hI.unmarked
  copying := nofun
  unended := hI.unended
  ended := hI.ended

/-- A worker works for the process that created the slot, before the end is marked. -/
theorem CopyInv.working (hI : CopyInv s) {i : ℕ} {e : CopyEvent} {w : CopyThread Tbl Row}
    {r : CopyStep Tbl Row} (hw : s.threads[i]? = some w)
    (hstep : CopyThread.Step (s.copyEnv c) s.queue w e r) :
    s.main.createdSlot = true ∧ ¬ (s.main.pc = .writingEnd ∨ s.main.pc = .syncing) ∧
      s.fullEnd = false := by
  have hmem : w ∈ s.threads := List.mem_of_getElem? hw
  have hcreated : s.main.createdSlot = true := by
    by_contra hne
    rw [(hI.idle (Bool.eq_false_iff.2 hne)).1] at hmem
    cases hmem
  have hrunning : ¬ (s.main.pc = .writingEnd ∨ s.main.pc = .syncing) := by
    intro hpc
    have hfinished := hI.finished hpc w hmem
    rw [hstep.not_finished] at hfinished
    cases hfinished
  exact ⟨hcreated, hrunning, hI.copying hcreated fun hpc => hrunning (Or.inr hpc)⟩

/-- **A worker's step** keeps the invariant, if it reads the tables at the slot's position. -/
theorem CopyInv.worker (hI : CopyInv s) {i : ℕ} {e : CopyEvent} {w : CopyThread Tbl Row}
    {r : CopyStep Tbl Row} (hw : s.threads[i]? = some w)
    (hstep : CopyThread.Step (s.copyEnv c) s.queue w e r)
    (hread : ∀ a ∈ r.read, s.slot = some a.2) : CopyInv (s.afterWorker i r) := by
  have hmem : w ∈ s.threads := List.mem_of_getElem? hw
  obtain ⟨hcreated, hrunning, hend⟩ := hI.working hw hstep
  obtain ⟨hthread, hcommitted⟩ := hstep.readsAt (hI.readsAt w hmem) hread
  obtain ⟨hnodup, howed⟩ := hI.owed hcreated
  have hle := (SyncSystem.owed_afterWorker hw hstep).trans howed
  refine { hI with
    idle := fun hne => ?_
    finished := fun hpc => absurd hpc hrunning
    atSlot := ?_
    readsAt := ?_
    once := ?_
    owed := fun _ => ⟨hnodup, hle⟩
    ended := fun htrue => ?_ }
  · cases hcreated.symm.trans hne
  · intro copy hcopy
    exact (List.mem_append.1 hcopy).elim (hI.atSlot copy) (hcommitted copy)
  · intro w' hw'
    rcases List.mem_or_eq_of_mem_set hw' with hw' | rfl
    · exact hI.readsAt w' hw'
    · exact hthread
  · exact Multiset.coe_nodup.1
      (Multiset.nodup_of_le ((s.afterWorker i r).target_le_owed.trans hle) (Multiset.coe_nodup.2 hnodup))
  · cases hend.symm.trans htrue

/-- **One step keeps the invariant**, next to what is known of hand-over, end mark and slot. -/
theorem copyInv_step {e : SyncEvent Tbl} (hhand : HandOffInv s) (hend : EndInv c s)
    (hnew : CopierIsNew s) (hI : CopyInv s) (hok : CleanCopy s e) (h : s.step c e = some s') :
    CopyInv s' := by
  obtain ⟨hlist, hread, -⟩ := hok
  cases SyncSystem.step_cases h with
  | sourceCommit => exact { hI with owed := hI.owed }
  | start nth pc =>
    obtain ⟨hthreads, hqueue⟩ := hI.idle (hI.down pc)
    exact { hI with
      down := fun _ => rfl
      idle := fun _ => ⟨hthreads, hqueue⟩
      finished := by simp
      owed := nofun
      copying := nofun }
  | kill => exact hI.exit
  | quit => exact hI.exit
  | @moved _ m moves =>
    have hthreads := hhand.threads (SyncSystem.beforeThreads_of_beforeExport moves.pc)
    obtain ⟨-, -, hcreated⟩ := moves.snapshots
    have hrunning : s.main.pc ≠ .syncing := by
      intro hpc
      have hexport := moves.pc
      rw [hpc] at hexport
      cases hexport
    refine { hI with down := ?_, idle := ?_, finished := ?_, owed := ?_, copying := ?_ }
    · intro hpc
      rcases moves.next with ⟨-, hne⟩ | hsyncing
      · exact absurd hpc hne
      · cases hsyncing.symm.trans hpc
    · exact fun hne => hI.idle (hcreated ▸ hne)
    · intro _ w hw
      rw [show s.threads = [] from hthreads] at hw
      cases hw
    · intro hm
      show m.tasks.Nodup ∧ s.owed ≤ ↑m.tasks
      rw [moves.tasks]
      exact hI.owed (hcreated ▸ hm)
    · exact fun hm _ => hI.copying (hcreated ▸ hm) hrunning
  | @slotCreated next pc hnext =>
    have hslot := SyncSystem.slot_of_createSlot h
    have hidle : s.main.createdSlot = false := by
      by_contra hne
      exact (hhand.created (Bool.eq_true_of_not_eq_false hne)).2.2 hslot
    obtain ⟨hthreads, hqueue⟩ := hI.idle hidle
    have htasks : s.main.tasks = [] := (hend.threads (by rw [pc]; rfl)).2
    have htarget : s.target = [] := by
      refine List.eq_nil_iff_forall_not_mem.2 ?_
      intro copy hcopy
      cases hslot.symm.trans (hI.atSlot copy hcopy)
    have howed : s.owed = 0 := by
      rw [SyncSystem.owed, hthreads, hqueue, htarget]
      rfl
    exact { hI with
      down := by rcases hnext with rfl | rfl <;> nofun
      idle := nofun
      finished := by
        rw [hthreads]
        nofun
      atSlot := by
        rw [htarget]
        nofun
      readsAt := by
        rw [hthreads]
        nofun
      owed := by
        intro _
        show s.main.tasks.Nodup ∧ s.owed ≤ ↑s.main.tasks
        rw [htasks, howed]
        exact ⟨List.nodup_nil, le_rfl⟩
      unmarked := nofun
      copying := fun _ _ => hI.unmarked hslot }
  | exported pc =>
    exact { hI with
      down := nofun
      finished := by simp
      owed := hI.owed
      copying := fun hm _ => hI.copying hm (by rw [pc]; nofun) }
  | listed tasks pc =>
    obtain ⟨-, hm⟩ := hnew.created (by rw [pc]; nofun) (by rw [pc]; nofun)
    obtain ⟨hthreads, htasks⟩ := hend.threads (by rw [pc]; rfl)
    have htarget : (↑(s.target.map TableCopy.table) : Multiset Tbl) = 0 := by
      have hle := s.target_le_owed.trans (hI.owed hm).2
      rw [htasks] at hle
      exact le_antisymm hle (Multiset.zero_le _)
    exact { hI with
      down := nofun
      idle := fun hne => by cases hm.symm.trans hne
      finished := by simp
      owed := by
        intro _
        refine ⟨hlist, ?_⟩
        show (↑tasks + (s.threads.map CopyThread.owes).sum + ↑(s.target.map TableCopy.table) :
          Multiset Tbl) ≤ ↑tasks
        rw [hthreads, htarget, List.map_nil, List.sum_nil, add_zero, add_zero]
      copying := fun _ _ => hI.copying hm (by rw [pc]; nofun) }
  | createThread pc =>
    obtain ⟨-, hm⟩ := hnew.created (by rw [pc]; nofun) (by rw [pc]; nofun)
    refine { hI with idle := ?_, finished := ?_, readsAt := ?_, owed := ?_ }
    · intro hne
      cases hm.symm.trans hne
    · intro hpc
      rw [show s.main.pc = .creatingThreads from pc] at hpc
      rcases hpc with hpc | hpc <;> cases hpc
    · intro w hw
      rcases List.mem_append.1 hw with hw | hw
      · exact hI.readsAt w hw
      · rw [List.mem_singleton.1 hw]
        exact ⟨nofun, nofun⟩
    · intro hm
      rw [SyncSystem.owed_createThread]
      exact hI.owed hm
  | writeStart ok pc =>
    exact { hI with
      down := nofun
      finished := by simp [SyncSystem.goto]
      owed := hI.owed
      copying := fun hm _ => hI.copying hm (by rw [pc]; nofun) }
  | joined pc all =>
    exact { hI with
      down := nofun
      finished := fun _ => all
      owed := hI.owed
      copying := fun hm _ => hI.copying hm (by rw [pc]; nofun) }
  | writeEnd ok pc =>
    obtain ⟨hslot, hm⟩ := hnew.created (by rw [pc]; nofun) (by rw [pc]; nofun)
    have hfull : s.fullEnd = false := hI.copying hm (by rw [pc]; nofun)
    have htasks : s.endTasks = [] := hI.unended hfull
    obtain ⟨hnodup, howed⟩ := hI.owed hm
    refine { hI with
      down := nofun
      finished := fun _ => hI.finished (Or.inl pc)
      owed := hI.owed
      unmarked := fun hnone => absurd hnone hslot
      copying := fun _ hpc => absurd rfl hpc
      unended := ?_
      ended := ?_ }
    · show (s.fullEnd || _) = false → (if _ then _ else _) = []
      rw [hfull, Bool.false_or, htasks]
      intro hwritten
      rw [if_neg (by rw [hwritten]; nofun)]
    · show (s.fullEnd || _) = true → (if _ then _ else _ : List Tbl).Nodup ∧
        _ ≤ (↑(if _ then _ else _ : List Tbl) : Multiset Tbl)
      rw [hfull, Bool.false_or, htasks]
      intro hwritten
      rw [if_pos hwritten, List.nil_append]
      exact ⟨hnodup, s.target_le_owed.trans howed⟩
  | @worker i e w r thread step =>
    have hstep := CopyThread.step_cases step
    obtain ⟨hm, -, -⟩ := hI.working thread hstep
    refine hI.worker thread hstep ?_
    intro a ha
    obtain ⟨rfl, hcommits⟩ := hstep.read_snapshot
      (hhand.imports w (List.mem_of_getElem? thread)) (hhand.created hm).2.1 a ha
    rw [hcommits]
    exact hread hm

/-- All that is known of a clean copy. -/
structure CleanInv (c : SyncConfig Tbl Row) (s : SyncSystem Tbl Row) : Prop where
  handOff : HandOffInv s
  endInv : EndInv c s
  new : CopierIsNew s
  copy : CopyInv s

theorem cleanInv_init (c : SyncConfig Tbl Row) : CleanInv c {} where
  handOff := handOffInv_init
  endInv := endInv_init c
  new := Or.inl rfl
  copy :=
    { down := fun _ => rfl
      idle := fun _ => ⟨rfl, rfl⟩
      finished := nofun
      atSlot := nofun
      readsAt := nofun
      once := List.nodup_nil
      owed := nofun
      unmarked := fun _ => rfl
      copying := nofun
      unended := fun _ => rfl
      ended := nofun }

theorem cleanInv_step {e : SyncEvent Tbl} (hc : c.replicationSync = true) (hI : CleanInv c s)
    (hok : CleanCopy s e) (h : s.step c e = some s') : CleanInv c s' where
  handOff := handOffInv_step hI.handOff hok.2.1 h
  endInv := endInv_step hI.endInv hok.2.2 h
  new := copierIsNew_step hc hI.new hok.1 h
  copy := copyInv_step hI.handOff hI.endInv hI.new hI.copy hok h

theorem CleanInv.exactCopy (hI : CleanInv c s) : ExactCopy c s where
  once := hI.copy.once
  atSlot := hI.copy.atSlot
  whole := by
    intro hfull n hslot
    obtain ⟨hnodup, hle⟩ := hI.copy.ended hfull
    have hcopied := hI.endInv.ended
    have hmem : ∀ t, t ∈ s.target.map TableCopy.table ↔ t ∈ s.endTasks := by
      intro t
      constructor
      · exact fun ht => Multiset.mem_of_le hle ht
      · intro ht
        obtain ⟨copy, hcopy, rfl, -⟩ := hcopied t ht
        exact List.mem_map_of_mem hcopy
    -- each copy is the complete copy of its table
    have hcopy : ∀ copy ∈ s.target, copy = ⟨copy.table, n, c.rows copy.table n⟩ := by
      intro copy hcopy
      obtain ⟨full, hfull, htable, hcomplete⟩ :=
        hcopied copy.table ((hmem _).1 (List.mem_map_of_mem hcopy))
      obtain rfl := List.inj_on_of_nodup_map hI.copy.once hfull hcopy htable
      obtain ⟨t, p, rows⟩ := full
      obtain rfl : n = p := Option.some.inj (hslot.symm.trans (hI.copy.atSlot _ hcopy))
      rw [show rows = c.rows t n from hcomplete]
    have hperm := (List.perm_ext_iff_of_nodup hI.copy.once hnodup).2 hmem
    have htarget : s.target = (s.target.map TableCopy.table).map fun t => ⟨t, n, c.rows t n⟩ := by
      rw [List.map_map]
      exact (List.map_id _).symm.trans (List.map_congr_left hcopy)
    rw [htarget]
    exact hperm.map _

/-- What is known of a clean copy holds in every such run. -/
theorem cleanInv_of_run (hc : c.replicationSync = true) {es : List (SyncEvent Tbl)}
    (hm : StepMachine.Meets (SyncSystem.step c) CleanCopy {} es)
    (hr : StepMachine.run (SyncSystem.step c) {} es = some s) : CleanInv c s :=
  StepMachine.run_invariant (fun _ _ _ hI hok h => cleanInv_step hc hI hok h) (cleanInv_init c) hm hr

/-- **The full copy is exact** in every sequence of runs, with any number of workers and in every
order of their steps, in which a process that copies creates its slot, no COPY is read behind the
slot, and `full_s_end` is set only if no worker failed. -/
theorem exactCopy_of_run (hc : c.replicationSync = true) {es : List (SyncEvent Tbl)}
    (hm : StepMachine.Meets (SyncSystem.step c) CleanCopy {} es)
    (hr : StepMachine.run (SyncSystem.step c) {} es = some s) : ExactCopy c s :=
  (cleanInv_of_run hc hm hr).exactCopy

end

/-- Two tables are copied, and another transaction is committed on the source. -/
theorem exactCopy_growingTable :
    ∃ s, StepMachine.run (SyncSystem.step growingTable) {}
        (.sourceCommit :: firstProcess ++ .writeStart true :: copyTables ++ markEnd ++
          [.sourceCommit, .kill] ++ nextProcess) = some s ∧
      (s.fullEnd = true ∧ s.target = [⟨1, 1, [0]⟩, ⟨0, 1, [0]⟩]) ∧ ExactCopy growingTable s := by
  have hr : (StepMachine.run (SyncSystem.step growingTable) {}
      (.sourceCommit :: firstProcess ++ .writeStart true :: copyTables ++ markEnd ++
        [.sourceCommit, .kill] ++ nextProcess)).map (fun s => (s.fullEnd, s.target)) =
          some (true, [⟨1, 1, [0]⟩, ⟨0, 1, [0]⟩]) := by decide
  obtain ⟨s, hs, h⟩ := Option.map_eq_some_iff.1 hr
  exact ⟨s, hs, Prod.mk.inj h, exactCopy_of_run rfl (by decide) hs⟩

end RdsDbsync
