/-
  The hand-off between the full copy and the stream: which source transactions the COPYs
  see, and which the new slot delivers.
-/
import Mathlib.Order.Lattice
import RdsDbsync.FullSync

namespace RdsDbsync

universe u v
variable {Tbl : Type u} {Row : Type v}

/-! ## The property -/

/-- **Consistent hand-off**: for each table that a process with a new slot copies, every source
transaction is either visible to the COPY or delivered by the slot, and not both. -/
def HandedOver (s : SyncSystem Tbl Row) : Prop :=
  ∀ h ∈ s.handOffs, ∀ i : ℕ, Xor (i < h.snapshot) (h.slot ≤ i)

/-- A COPY of a process that created the slot reads before the source commits again. -/
def CopiesAtSlot (s : SyncSystem Tbl Row) : SyncEvent Tbl → Prop
  | .worker _ (.copyTo true) => s.main.createdSlot = true → s.slot = some s.commits
  | _ => True

instance (s : SyncSystem Tbl Row) : ∀ e, Decidable (CopiesAtSlot s e)
  | .worker _ (.copyTo true) => inferInstanceAs (Decidable (_ → _))
  | .worker _ (.copyTo false) | .worker _ (.connect _) | .worker _ .take | .worker _ (.beginOrigin _)
  | .worker _ (.beginTarget _) | .worker _ (.copyFrom _) | .worker _ (.row _)
  | .worker _ (.noRow _) | .worker _ (.putEnd _) | .worker _ (.getResult _)
  | .worker _ (.finishOrigin _) | .worker _ (.finishTarget _) | .sourceCommit | .start _ | .kill
  | .connect _ | .connectLocal _ | .readStatus _ | .findSlot _ | .createSlot _ | .beginCopy _
  | .exportSnapshot _ | .listTables _ | .createThread | .writeStart _ | .joined | .writeEnd _ =>
    inferInstanceAs (Decidable True)

/-- One point in the order of commits hands over exactly. -/
theorem xor_iff_eq {snapshot slot : ℕ} :
    (∀ i : ℕ, Xor (i < snapshot) (slot ≤ i)) ↔ snapshot = slot := by
  constructor
  · intro h
    rcases Nat.lt_trichotomy snapshot slot with hlt | heq | hgt
    · -- seen by neither
      rcases h snapshot with ⟨h1, -⟩ | ⟨h1, -⟩
      · exact absurd h1 (lt_irrefl _)
      · exact absurd h1 (not_le.2 hlt)
    · exact heq
    · -- seen by both
      rcases h slot with ⟨-, h2⟩ | ⟨-, h2⟩
      · exact absurd le_rfl h2
      · exact absurd hgt h2
  · rintro rfl i
    rcases Nat.lt_or_ge i snapshot with hi | hi
    · exact Or.inl ⟨hi, not_le.2 hi⟩
    · exact Or.inr ⟨hi, not_lt.2 hi⟩

/-! ## The snapshot of the shared handle -/

/-- A worker imports the snapshot of the shared handle, or none. -/
def CopyThread.Imports (snapshot : Option ℕ) (w : CopyThread Tbl Row) : Prop :=
  ∀ p, w.origin = .active p → p = snapshot

/-- The snapshot of the slot does not get into the shared handle. -/
structure HandOffInv (s : SyncSystem Tbl Row) : Prop where
  threads : s.main.pc.beforeThreads → s.threads = []
  unset : s.main.pc.beforeExport → s.main.hdSnapshot = none
  exporting : s.main.pc = .exportingSnapshot → s.main.snapshot = none
  created : s.main.createdSlot → s.main.snapshot ≠ none ∧ s.main.hdSnapshot = none ∧ s.slot ≠ none
  imports : ∀ w ∈ s.threads, w.Imports s.main.hdSnapshot
  equal : ∀ h ∈ s.handOffs, h.snapshot = h.slot

section
variable {c : SyncConfig Tbl Row} {s s' : SyncSystem Tbl Row}

theorem HandOffInv.handedOver (h : HandOffInv s) : HandedOver s :=
  fun a ha => xor_iff_eq.2 (h.equal a ha)

/-- The process ends. -/
theorem HandOffInv.exit (h : HandOffInv s) : HandOffInv s.exit where
  threads _ := rfl
  unset _ := rfl
  exporting := nofun
  created := nofun
  imports := nofun
  equal := h.equal

/-- A worker's transaction has the snapshot of the shared handle. -/
theorem CopyThread.Step.imports {env : CopyEnv Tbl Row} {tasks : List Tbl} {w : CopyThread Tbl Row}
    {e : CopyEvent} {r : CopyStep Tbl Row} (h : CopyThread.Step env tasks w e r)
    (hw : w.Imports env.snapshot) : r.thread.Imports env.snapshot := by
  cases h with
  | originBegun pc begun =>
    rintro p rfl
    exact startCopyOriginTx_active begun
  | originFinished pc idle =>
    intro p hp
    rcases idle with rfl | rfl <;> cases hp
  | noTask | gaveUp => intro p hp; cases hp
  | _ => exact hw

/-- **A COPY** of a process that created the slot reads what is committed at that moment. -/
theorem CopyThread.Step.read_snapshot {env : CopyEnv Tbl Row} {tasks : List Tbl}
    {w : CopyThread Tbl Row} {e : CopyEvent} {r : CopyStep Tbl Row}
    (h : CopyThread.Step env tasks w e r) (hw : w.Imports env.snapshot) (hnone : env.snapshot = none) :
    ∀ a ∈ r.read, e = .copyTo true ∧ a.2 = env.commits := by
  cases h with
  | reading pc snap =>
    intro a ha
    rw [List.mem_singleton.1 ha]
    refine ⟨rfl, ?_⟩
    cases horigin : w.origin with
    | idle => simpa [horigin, OriginTx.copySnapshot] using snap.symm
    | active p =>
      rw [hnone] at hw
      obtain rfl := hw p horigin
      simpa [horigin, OriginTx.copySnapshot] using snap.symm
    | aborted => simp [horigin, OriginTx.copySnapshot] at snap
    | lost => simp [horigin, OriginTx.copySnapshot] at snap
  | _ => nofun

/-- **A worker's step** keeps the invariant, if a COPY after the slot was created reads what is
committed at the slot's position. -/
theorem HandOffInv.worker (hI : HandOffInv s) {i : ℕ} {e : CopyEvent} {w : CopyThread Tbl Row}
    {r : CopyStep Tbl Row} (hw : s.threads[i]? = some w)
    (hstep : CopyThread.Step (s.copyEnv c) s.queue w e r)
    (hok : s.main.createdSlot → e = .copyTo true → s.slot = some s.commits) :
    HandOffInv (s.afterWorker i r) := by
  have hmem : w ∈ s.threads := List.mem_of_getElem? hw
  refine { hI with threads := ?_, imports := ?_, equal := ?_ }
  · intro hpc
    rw [hI.threads hpc] at hmem
    cases hmem
  · intro w' hw'
    rcases List.mem_or_eq_of_mem_set hw' with hw' | rfl
    · exact hI.imports w' hw'
    · exact hstep.imports (hI.imports w hmem)
  · intro a ha
    rcases List.mem_append.1 ha with ha | ha
    · exact hI.equal a ha
    · -- the COPY of a worker that imports no snapshot
      split_ifs at ha with hc
      · obtain ⟨⟨t, p⟩, hread, rfl⟩ := List.mem_map.1 ha
        obtain ⟨he, hp⟩ := hstep.read_snapshot (hI.imports w hmem) (hI.created hc).2.1 _ hread
        show p = s.slot.getD 0
        rw [hok hc he]
        exact hp
      · cases ha

/-- **One step keeps the invariant.** -/
theorem handOffInv_step {e : SyncEvent Tbl} (hI : HandOffInv s) (hok : CopiesAtSlot s e)
    (h : s.step c e = some s') : HandOffInv s' := by
  cases SyncSystem.step_cases h with
  | sourceCommit => exact { hI with equal := hI.equal }
  | start nth pc =>
    have hthreads : s.threads = [] := hI.threads (by rw [pc]; rfl)
    exact { hI with
      threads := fun _ => hthreads
      unset := fun _ => rfl
      exporting := nofun
      created := nofun
      imports := by
        rw [hthreads]
        nofun }
  | kill => exact hI.exit
  | quit => exact hI.exit
  | moved moves =>
    obtain ⟨hsnapshot, hhandle, hcreated⟩ := moves.snapshots
    exact { hI with
      threads := fun _ => hI.threads (SyncSystem.beforeThreads_of_beforeExport moves.pc)
      unset := fun _ => hhandle.trans (hI.unset moves.pc)
      exporting := moves.exporting
      created := by
        intro hc
        rw [hsnapshot, hhandle]
        exact hI.created (hcreated ▸ hc)
      imports := hhandle ▸ hI.imports }
  | slotCreated pc hnext =>
    have hunset : s.main.hdSnapshot = none := hI.unset (by rw [pc]; rfl)
    exact { hI with
      threads := fun _ => hI.threads (by rw [pc]; rfl)
      unset := fun _ => hunset
      exporting := by rcases hnext with rfl | rfl <;> nofun
      created := fun _ => ⟨nofun, hunset, nofun⟩ }
  | exported pc =>
    have hthreads : s.threads = [] := hI.threads (by rw [pc]; rfl)
    exact { hI with
      threads := fun _ => hthreads
      unset := nofun
      exporting := nofun
      created := fun hc => absurd (hI.exporting pc) (hI.created hc).1
      imports := by
        rw [hthreads]
        nofun }
  | listed => exact { hI with threads := nofun, unset := nofun, exporting := nofun }
  | createThread pc =>
    refine { hI with
      threads := fun hpc => absurd hpc (by rw [pc]; nofun)
      imports := ?_ }
    intro w hw
    rcases List.mem_append.1 hw with hw | hw
    · exact hI.imports w hw
    · rw [List.mem_singleton.1 hw]
      intro p hp
      cases hp
  | writeStart | joined | writeEnd =>
    exact { hI with threads := nofun, unset := nofun, exporting := nofun }
  | worker thread step =>
    refine hI.worker thread (CopyThread.step_cases step) ?_
    rintro hc rfl
    exact hok hc

theorem handOffInv_init : HandOffInv ({} : SyncSystem Tbl Row) where
  threads _ := rfl
  unset _ := rfl
  exporting := nofun
  created := nofun
  imports := nofun
  equal := nofun

/-- **Consistent hand-off** in every run in which no transaction commits between the creation of
a slot and the COPYs of the process that created it. -/
theorem handedOver_of_run {es : List (SyncEvent Tbl)}
    (hm : StepMachine.Meets (SyncSystem.step c) CopiesAtSlot {} es)
    (hr : StepMachine.run (SyncSystem.step c) {} es = some s) : HandedOver s :=
  HandOffInv.handedOver (StepMachine.run_invariant
    (fun _ _ _ hI hok h => handOffInv_step hI hok h) handOffInv_init hm hr)

end

theorem handedOver_growingTable :
    ∃ s, StepMachine.run (SyncSystem.step growingTable) {}
        (.sourceCommit :: firstProcess ++ readTable 0) = some s ∧
      s.handOffs = [⟨1, 0, 1⟩] ∧ HandedOver s := by
  have hr : (StepMachine.run (SyncSystem.step growingTable) {}
      (.sourceCommit :: firstProcess ++ readTable 0)).map SyncSystem.handOffs =
        some [⟨1, 0, 1⟩] := by decide
  obtain ⟨s, hs, hh⟩ := Option.map_eq_some_iff.1 hr
  exact ⟨s, hs, hh, handedOver_of_run (by decide) hs⟩

/-- A transaction that commits after the slot is created is copied, and delivered as well. -/
theorem copiedTwice_growingTable :
    ∃ s, StepMachine.run (SyncSystem.step growingTable) {}
        (firstProcess ++ .sourceCommit :: readTable 0) = some s ∧
      s.handOffs = [⟨0, 0, 1⟩] ∧ ¬ HandedOver s := by
  have hr : (StepMachine.run (SyncSystem.step growingTable) {}
      (firstProcess ++ .sourceCommit :: readTable 0)).map SyncSystem.handOffs =
        some [⟨0, 0, 1⟩] := by decide
  obtain ⟨s, hs, hh⟩ := Option.map_eq_some_iff.1 hr
  refine ⟨s, hs, hh, ?_⟩
  intro h
  have heq : (1 : ℕ) = 0 := xor_iff_eq.1 (h ⟨0, 0, 1⟩ (by rw [hh]; exact List.mem_singleton_self _))
  cases heq

end RdsDbsync
