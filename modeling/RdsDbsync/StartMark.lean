/-
  A fresh full copy and an untouched target: what `full_s_start` tells the next process.
-/
import RdsDbsync.FullSync

namespace RdsDbsync

universe u v
variable {Tbl : Type u} {Row : Type v}

/-! ## The property -/

/-- **A fresh copy starts on an untouched target**: a process that decides on a full sync follows
no process that committed a copied table; one that follows such a process is refused at the status
row, unless the copy was marked as ended. -/
structure FreshTarget (s : SyncSystem Tbl Row) : Prop where
  decides : s.main.needFullSync = true → s.earlier = []
  refuses : s.main.pc.pastStatus → s.earlier ≠ [] → s.fullEnd = true

/-- The process does not end while there are copies on the target and `full_s_start` is NULL; if
there are copies, the status row is read. -/
def MarkedBeforeEnd (s : SyncSystem Tbl Row) : SyncEvent Tbl → Prop
  | .kill => s.target = [] ∨ s.fullStart = true
  | .connectLocal ok | .readStatus ok => s.target = [] ∨ ok = true
  | _ => True

instance (s : SyncSystem Tbl Row) : ∀ e, Decidable (MarkedBeforeEnd s e)
  | .kill | .connectLocal _ | .readStatus _ => inferInstanceAs (Decidable (_ ∨ _))
  | .worker _ _ | .sourceCommit | .start _ | .connect _ | .findSlot _ | .createSlot _
  | .beginCopy _ | .exportSnapshot _ | .listTables _ | .createThread | .writeStart _ | .joined
  | .writeEnd _ => inferInstanceAs (Decidable True)

/-! ## The invariant -/

/-- What the processes leave behind is marked. -/
structure StartInv (s : SyncSystem Tbl Row) : Prop where
  threads : s.main.pc.beforeThreads → s.threads = []
  untouched : s.main.pc.beforeThreads → s.main.pc ≠ .down → s.target = s.earlier
  down : s.main.pc = .down → s.target ≠ [] → s.fullStart = true
  earlier : s.earlier ≠ [] → s.fullStart = true
  decides : s.main.needFullSync = true → s.earlier = []
  refuses : s.main.pc.pastStatus → s.earlier ≠ [] → s.fullEnd = true

section
variable {c : SyncConfig Tbl Row} {s s' : SyncSystem Tbl Row}

/-- The process ends. -/
theorem StartInv.exit (h : StartInv s) (hmarked : s.target ≠ [] → s.fullStart = true) :
    StartInv s.exit where
  threads _ := rfl
  untouched _ hne := absurd rfl hne
  down _ := hmarked
  earlier := h.earlier
  decides := nofun
  refuses := nofun

/-- **One step keeps the invariant.** -/
theorem startInv_step {e : SyncEvent Tbl} (hI : StartInv s) (hok : MarkedBeforeEnd s e)
    (h : s.step c e = some s') : StartInv s' := by
  cases SyncSystem.step_cases h with
  | sourceCommit => exact { hI with earlier := hI.earlier }
  | start nth pc =>
    exact {
      threads := fun _ => hI.threads (by rw [pc]; rfl)
      untouched := fun _ _ => rfl
      down := nofun
      earlier := hI.down pc
      decides := nofun
      refuses := nofun }
  | kill => exact hI.exit fun hne => hok.resolve_left hne
  | quit pc alive => exact hI.exit fun hne => hI.earlier (hI.untouched pc alive ▸ hne)
  | moved moves =>
    have hbefore := SyncSystem.beforeThreads_of_beforeExport moves.pc
    have huntouched := hI.untouched hbefore moves.alive
    refine { hI with
      threads := fun _ => hI.threads hbefore
      untouched := fun _ _ => huntouched
      down := ?_
      decides := ?_
      refuses := ?_ }
    · intro hdown
      rcases moves.next with ⟨-, hne⟩ | hpc
      · exact absurd hdown hne
      · cases hpc.symm.trans hdown
    · intro hneed
      rcases moves.decides hneed with hneed | rfl | ⟨ok, rfl, hrow⟩
      · exact hI.decides hneed
      · exact huntouched ▸ hok.resolve_right nofun
      · rcases hok with hempty | rfl
        · exact huntouched ▸ hempty
        · -- the row says that nothing was started
          by_contra hne
          cases (hrow rfl).symm.trans (hI.earlier hne)
    · intro hpast hne
      rcases moves.passes hpast with hpast | rfl | ⟨ok, rfl, hrow⟩
      · exact hI.refuses hpast hne
      · exact absurd (huntouched.symm.trans (hok.resolve_right nofun)) hne
      · rcases hok with hempty | rfl
        · exact absurd (huntouched.symm.trans hempty) hne
        · -- the row says that a copy was started
          exact hrow rfl (hI.earlier hne)
  | slotCreated pc hnext =>
    exact { hI with
      threads := fun _ => hI.threads (by rw [pc]; rfl)
      untouched := fun _ _ => hI.untouched (by rw [pc]; rfl) (by rw [pc]; nofun)
      down := by rcases hnext with rfl | rfl <;> nofun
      refuses := fun _ => hI.refuses (by rw [pc]; rfl) }
  | exported pc =>
    exact { hI with
      threads := fun _ => hI.threads (by rw [pc]; rfl)
      untouched := fun _ _ => hI.untouched (by rw [pc]; rfl) (by rw [pc]; nofun)
      down := nofun
      refuses := fun _ => hI.refuses (by rw [pc]; rfl) }
  | listed _ pc =>
    exact { hI with
      threads := nofun
      untouched := nofun
      down := nofun
      refuses := fun _ => hI.refuses (by rw [pc]; rfl) }
  | createThread pc => exact { hI with threads := fun hpc => absurd hpc (by rw [pc]; nofun) }
  | writeStart ok pc =>
    refine { hI with
      threads := nofun
      untouched := nofun
      down := nofun
      earlier := ?_
      refuses := fun _ => hI.refuses (by rw [pc]; rfl) }
    intro hne
    show (s.fullStart || _) = true
    rw [hI.earlier hne, Bool.true_or]
  | joined pc =>
    exact { hI with
      threads := nofun
      untouched := nofun
      down := nofun
      refuses := fun _ => hI.refuses (by rw [pc]; rfl) }
  | writeEnd ok pc =>
    refine { hI with threads := nofun, untouched := nofun, down := nofun, refuses := ?_ }
    intro _ hne
    show (s.fullEnd || _) = true
    rw [hI.refuses (by rw [pc]; rfl) hne, Bool.true_or]
  | worker thread step =>
    have hthreads : ¬ s.main.pc.beforeThreads := by
      intro hpc
      rw [hI.threads hpc] at thread
      cases thread
    have hup : s.main.pc ≠ .down := by
      intro hpc
      rw [hpc] at hthreads
      exact hthreads rfl
    exact { hI with
      threads := fun hpc => absurd hpc hthreads
      untouched := fun hpc => absurd hpc hthreads
      down := fun hpc => absurd hpc hup }

theorem StartInv.freshTarget (h : StartInv s) : FreshTarget s := ⟨h.decides, h.refuses⟩

theorem startInv_init : StartInv ({} : SyncSystem Tbl Row) where
  threads _ := rfl
  untouched _ _ := rfl
  down := nofun
  earlier := nofun
  decides := nofun
  refuses := nofun

/-- **A fresh full copy starts on an untouched target** in every sequence of runs in which no
process ends between a COMMIT on the target and the update of `full_s_start`, and in which the
status row is read. -/
theorem freshTarget_of_run {es : List (SyncEvent Tbl)}
    (hm : StepMachine.Meets (SyncSystem.step c) MarkedBeforeEnd {} es)
    (hr : StepMachine.run (SyncSystem.step c) {} es = some s) : FreshTarget s :=
  (StepMachine.run_invariant (fun _ _ _ hI hok h => startInv_step hI hok h)
    startInv_init hm hr).freshTarget

end

/-- The process is killed behind the COMMITs, and the next one is refused. -/
theorem freshTarget_growingTable :
    ∃ s, StepMachine.run (SyncSystem.step growingTable) {}
        (.sourceCommit :: firstProcess ++ .writeStart true :: copyTables ++ .kill :: nextProcess) =
          some s ∧
      (s.main.pc = .down ∧ s.earlier = [⟨1, 1, [0]⟩, ⟨0, 1, [0]⟩]) ∧ FreshTarget s := by
  have hr : (StepMachine.run (SyncSystem.step growingTable) {}
      (.sourceCommit :: firstProcess ++ .writeStart true :: copyTables ++ .kill :: nextProcess)).map
        (fun s => (s.main.pc, s.earlier)) = some (.down, [⟨1, 1, [0]⟩, ⟨0, 1, [0]⟩]) := by decide
  obtain ⟨s, hs, h⟩ := Option.map_eq_some_iff.1 hr
  exact ⟨s, hs, Prod.mk.inj h, freshTarget_of_run (by decide) hs⟩

/-- A worker commits before the main thread, which created it, marks the start. -/
theorem unmarkedCopy_growingTable :
    ∃ s, StepMachine.run (SyncSystem.step growingTable) {}
        (.sourceCommit :: firstProcess ++ readTable 0 ++ writeTable 0 ++ .kill :: nextProcess) =
          some s ∧
      (s.main.needFullSync = true ∧ s.earlier = [⟨0, 1, [0]⟩]) ∧ ¬ FreshTarget s := by
  have hr : (StepMachine.run (SyncSystem.step growingTable) {}
      (.sourceCommit :: firstProcess ++ readTable 0 ++ writeTable 0 ++ .kill :: nextProcess)).map
        (fun s => (s.main.needFullSync, s.earlier)) = some (true, [⟨0, 1, [0]⟩]) := by decide
  obtain ⟨s, hs, h⟩ := Option.map_eq_some_iff.1 hr
  obtain ⟨hneed, hearlier⟩ := Prod.mk.inj h
  refine ⟨s, hs, ⟨hneed, hearlier⟩, ?_⟩
  intro hfresh
  rw [hfresh.decides hneed] at hearlier
  cases hearlier

end RdsDbsync
