/-
  Histories that survive every crash: what the apply thread runs again after a restart is
  harmless, wherever the process was killed.

  `mirrors_of_crashes`: the target mirrors the source in every run in which the streams resume
  where they should, if a transaction inserts a row with its first statement at most and no
  update changes a key.
-/
import RdsDbsync.Mirror

namespace RdsDbsync

open KeyedTable OrderedLog

universe u v w
variable {K : Type u} {C : Type v} {V : Type w}

/-! ## The rows around the cursor -/

section
variable {log : SyncLog K C V} {s s' : Applier K C V}

/-- The cursor reads a part of the log, and where it comes to the first statement of a transaction,
its `begin;` was executed last. -/
structure CursorInv (log : SyncLog K C V) (s : Applier K C V) : Prop where
  rows : s.cursor <:+: log.rows
  first : ∀ g ∈ log.groups, ∀ st rest, g.statements.head? = some st →
    s.cursor = ⟨st.1, .statement st.2⟩ :: rest → s.sqltype = .begin

theorem cursorInv_nil (log : SyncLog K C V) (h : s.cursor = []) : CursorInv log s := by
  refine ⟨h ▸ List.nil_infix, ?_⟩
  intro g _ st rest _ hcursor
  rw [h] at hcursor
  cases hcursor

theorem CursorInv.congr (hI : CursorInv log s) (hc : s'.cursor = s.cursor)
    (hs : s'.sqltype = s.sqltype) : CursorInv log s' :=
  ⟨hc ▸ hI.rows, fun g hg st rest hst hcursor => hs ▸ hI.first g hg st rest hst (hc ▸ hcursor)⟩

/-- Before the first statement of a transaction is its `begin;`. -/
theorem SyncLog.begin_before {g : SqlGroup K C V} (hg : g ∈ log.groups) {st : ℕ × KeyedStmt K C V}
    (hst : g.statements.head? = some st) {row : SyncSql K C V} {rest : List (SyncSql K C V)}
    (h : row :: ⟨st.1, .statement st.2⟩ :: rest <:+: log.rows) : row = ⟨g.beginId, .begin⟩ := by
  obtain ⟨pre, post, heq⟩ := h
  obtain ⟨past, later, hgroups⟩ := List.append_of_mem hg
  obtain ⟨more, hmore⟩ : ∃ more, g.statements = st :: more :=
    ⟨g.statements.tail, List.eq_cons_of_mem_head? hst⟩
  have hord : log.rows.Pairwise fun a b => a.id < b.id := log.ordered
  have hleft : log.rows = (pre ++ [row]) ++ ⟨st.1, .statement st.2⟩ :: (rest ++ post) := by
    rw [← heq]
    simp
  have hright : log.rows = (past.flatMap SqlGroup.rows ++ [⟨g.beginId, .begin⟩]) ++
      ⟨st.1, .statement st.2⟩ :: (statementRows more ++ ⟨g.commitId, .commit⟩ ::
        later.flatMap SqlGroup.rows) := by
    rw [SyncLog.rows, hgroups]
    simp [SqlGroup.rows, statementRows, hmore]
  have hpre := (around (hleft ▸ hord)).1
  rw [← hleft, hright, (around (hright ▸ hord)).1] at hpre
  exact (List.head_eq_of_cons_eq (List.append_inj' hpre rfl).2).symm

namespace Applier

@[simp] theorem executed_cursor (id : ℕ) : (s.executed id).cursor = s.cursor := by
  unfold executed
  dsimp only
  split_ifs <;> rfl

@[simp] theorem executed_sqltype (id : ℕ) : (s.executed id).sqltype = s.sqltype := by
  unfold executed
  dsimp only
  split_ifs <;> rfl

@[simp] theorem skip_cursor : s.skip.cursor = s.cursor := by
  unfold skip
  rcases s.target.commit with ⟨target, _ | _ | _⟩
  · dsimp only
    rcases target.start with ⟨target, _ | _ | _⟩ <;> rfl
  · rfl
  · rfl

theorem skip_sqltype : s.skip.sqltype = s.sqltype ∨ s.skip.sqltype = .begin := by
  unfold skip
  rcases s.target.commit with ⟨target, _ | _ | _⟩
  · dsimp only
    rcases target.start with ⟨target, _ | _ | _⟩
    · exact Or.inr rfl
    · exact Or.inl rfl
    · exact Or.inl rfl
  · exact Or.inl rfl
  · exact Or.inl rfl

variable [DecidableEq K]

/-- **A row** is read from the cursor, and its kind is remembered unless it is skipped. -/
theorem applyRow_read (row : SyncSql K C V) (rest : List (SyncSql K C V)) :
    (s.applyRow row rest).cursor = rest ∧
      ((s.applyRow row rest).sqltype = row.sql.sqltype s.sqltype ∨
        (s.applyRow row rest).sqltype = .begin) := by
  unfold applyRow
  dsimp only
  rcases row.sql.exec s.target with ⟨target, _ | _ | _⟩
  · simp
  · dsimp only
    split_ifs
    · simpa using skip_sqltype
    · exact ⟨rfl, Or.inl rfl⟩
  · exact ⟨rfl, Or.inl rfl⟩

end Applier

theorem SyncLog.rowsOf_isPrefix (log : SyncLog K C V) (visible : ℕ) :
    log.rowsOf visible <+: log.rows := by
  refine ⟨(log.groups.drop visible).flatMap SqlGroup.rows, ?_⟩
  rw [SyncLog.rowsOf, SyncLog.rows, ← List.flatMap_append, List.take_append_drop]

/-- What a cursor reads is a part of the log. -/
theorem SyncLog.after_isInfix (log : SyncLog K C V) (visible applyId : ℕ) :
    after SyncSql.id applyId (log.rowsOf visible) <:+: log.rows := by
  have hord : log.rows.Pairwise fun a b => a.id < b.id := log.ordered
  have hsuffix : after SyncSql.id applyId (log.rowsOf visible) <:+ log.rowsOf visible :=
    after_suffix (hord.sublist (log.rowsOf_isPrefix visible).sublist)
  exact hsuffix.isInfix.trans (log.rowsOf_isPrefix visible).isInfix

/-- **One step of the thread** keeps the invariant. -/
theorem cursorInv_step [DecidableEq K] {e : ApplyEvent} (hI : CursorInv log s)
    (h : s.step log e = some s') : CursorInv log s' := by
  cases Applier.step_cases h with
  | start _ | noRow _ _ _ => exact cursorInv_nil log rfl
  | save _ _ | kill _ => exact hI.congr rfl rfl
  | declareCursor visible _ =>
    exact ⟨log.after_isInfix visible s.applyId, fun _ _ _ _ _ _ => rfl⟩
  | @row row rest _ cursor =>
    obtain ⟨hcursor, hsqltype⟩ := Applier.applyRow_read (s := s) row rest
    have hrows := hI.rows
    rw [cursor] at hrows
    refine ⟨?_, ?_⟩
    · rw [hcursor]
      exact (List.suffix_cons row rest).isInfix.trans hrows
    · intro g hg st more hst hnext
      rw [hcursor] at hnext
      rw [hnext] at hrows
      obtain rfl := SyncLog.begin_before hg hst hrows
      rcases hsqltype with hsqltype | hsqltype
      · exact hsqltype
      · exact hsqltype

end

/-! ## What can always be run once more -/

theorem SyncLog.statementsOf_rows (log : SyncLog K C V) : statementsOf log.rows = log.stmts :=
  statementsOf_groups log.groups

/-- The transaction of a statement. -/
theorem SyncLog.mem_statements {log : SyncLog K C V} {id : ℕ} {st : KeyedStmt K C V}
    (h : ⟨id, .statement st⟩ ∈ log.rows) : ∃ g ∈ log.groups, (id, st) ∈ g.statements := by
  obtain ⟨g, hg, hrow⟩ := List.mem_flatMap.1 h
  refine ⟨g, hg, ?_⟩
  simpa [SqlGroup.rows, statementRows] using hrow

section
variable [DecidableEq K]

/-- **The log can always be run once more**: only the first statement of a transaction inserts a
row, and each update leaves the key of its row, which is there, as it is. -/
structure SyncLog.Replayable (log : SyncLog K C V) (t₀ : KeyedTable K C V) : Prop where
  inserts : ∀ g ∈ log.groups, ∀ st ∈ g.statements.tail, st.2.isInsert = false
  updates : ∀ pre post k k' set, log.stmts = pre ++ .update k k' set :: post → k' = k ∧
    ∀ t, t₀.execAll pre = some t → t k ≠ none

variable {log : SyncLog K C V} {t₀ : KeyedTable K C V} {s : Applier K C V}

/-- **Whatever is run once more is harmless.** -/
theorem SyncLog.Replayable.harmless (hlog : log.Replayable t₀) (hI : CursorInv log s)
    (e : ApplyEvent) : ReplayHarmless log t₀ s e := by
  cases e with
  | start | declareCursor | save | kill => trivial
  | fetch =>
    intro row hrow st hst work _ _
    obtain ⟨id, sql⟩ := row
    obtain ⟨rest, hcursor⟩ : ∃ rest, s.cursor = ⟨id, sql⟩ :: rest :=
      ⟨s.cursor.tail, List.eq_cons_of_mem_head? hrow⟩
    obtain rfl : sql = .statement st := by
      cases sql with
      | statement st' => exact congrArg _ (Option.some.inj hst)
      | begin | commit => cases hst
    have hmem : ⟨id, .statement st⟩ ∈ log.rows :=
      hI.rows.subset (by rw [hcursor]; exact List.mem_cons_self)
    obtain ⟨pre, post, hsplit⟩ := List.append_of_mem hmem
    have hstmts : log.stmts = statementsOf pre ++ st :: statementsOf post := by
      rw [← log.statementsOf_rows, hsplit, statementsOf_append]
      rfl
    have hord : log.rows.Pairwise fun a b => a.id < b.id := log.ordered
    have hbefore : before SyncSql.id id log.rows = pre := by
      rw [hsplit]
      exact (around (hsplit ▸ hord)).1
    constructor
    · intro hfail
      cases st with
      | delete k => cases hfail
      | update k k' set =>
        obtain ⟨rfl, -⟩ := hlog.updates _ _ k k' set hstmts
        cases hk : work k' <;> simp [exec, hk] at hfail
      | insert k row =>
        obtain ⟨g, hg, hst⟩ := SyncLog.mem_statements hmem
        obtain ⟨first, more, hfirst⟩ := List.exists_cons_of_ne_nil (List.ne_nil_of_mem hst)
        rw [hfirst] at hst
        rcases List.mem_cons.1 hst with rfl | htail
        · exact hI.first g hg _ rest (by rw [hfirst]; rfl) hcursor
        · have hinsert := hlog.inserts g hg (id, .insert k row) (by rw [hfirst]; exact htail)
          cases hinsert
    · intro t ht t' _
      rw [hbefore] at ht
      cases st with
      | insert | delete => trivial
      | update k k' set =>
        obtain ⟨rfl, hthere⟩ := hlog.updates _ _ k k' set hstmts
        exact ⟨fun _ hnone => absurd hnone (hthere t ht), fun hne => absurd rfl hne⟩

end

/-! ## Statements of the source -/

section
open Bytes SqlLex RowSql

variable {kw reserved : Bytes → Bool} {cat : Catalog} {keys : TableName → List Bytes}
  {parse : Bytes → KeyedStmt RowKey Bytes (Option Bytes)} {t₀ : KeyedRows} {db₀ db : Database}

/-- Only inserted rows are inserted. -/
theorem parse_isInsert (hkw : ∀ w, reserved w → kw w) (hparse : ParsesKeyed reserved keys parse)
    {c : SourceChange kw} (hok : Mirrorable kw reserved cat keys c.rel c.change)
    (hc : ∀ new, c.change ≠ .insert new) : (parse c.row).isInsert = false := by
  obtain ⟨d, hmeaning, hs⟩ := parse_row hkw hparse hok
  cases hrow : parse c.row with
  | delete | update => rfl
  | insert key row =>
    rw [hrow] at hs
    obtain ⟨table, columns, values, rfl⟩ := Dml.keyed_insert hs
    obtain ⟨new, hnew⟩ := hmeaning.inserted table columns values rfl
    exact absurd hnew (hc new)

/-- An update that leaves the key as it is finds its row under it. -/
theorem parse_update (hkw : ∀ w, reserved w → kw w) (hparse : ParsesKeyed reserved keys parse)
    {c : SourceChange kw} (hok : Mirrorable kw reserved cat keys c.rel c.change)
    (hkeeps : c.change.keepsKey) {key key' : RowKey} {set : Bytes → Option (Option Bytes)}
    (hrow : parse c.row = .update key key' set) : key' = key ∧ ∀ (t : KeyedRows) (db' : Database),
      Represents keys t db → c.rel.Changes cat c.change db db' → t key ≠ none := by
  obtain ⟨d, hmeaning, hs⟩ := parse_row hkw hparse hok
  rw [hrow] at hs
  obtain ⟨table, set, conditions, rfl, hby, rfl, rfl⟩ := Dml.keyed_update hs
  obtain rfl : table = c.rel.table := hmeaning.table
  refine ⟨by rw [newKey_of_notMem (hmeaning.sameKey _ _ _ rfl hkeeps)], ?_⟩
  intro t db' hr hchange hnone
  obtain ⟨row, hmem, htrue⟩ := hmeaning.found _ _ _ rfl _ _ hchange.rows
  have hthere := (hr.row_iff _ _ row).2 ⟨hmem, (holds_byKey hby).1 htrue⟩
  rw [hnone] at hthere
  cases hthere

/-- **A workload that can always be run once more**: in each transaction, only the first change
inserts a row, and no update changes a key. -/
structure Rerunnable (txns : List (SourceTxn kw)) : Prop where
  inserts : ∀ t ∈ txns, ∀ c ∈ t.changes.tail, ∀ new, c.change ≠ .insert new
  updates : ∀ c ∈ sourceChanges txns, c.change.keepsKey

/-- Its log can be run once more. -/
theorem Rerunnable.replayable {txns : List (SourceTxn kw)} (h : Rerunnable txns)
    (hkw : ∀ w, reserved w → kw w) (hcat : cat.Keyed keys)
    (hparse : ParsesKeyed reserved keys parse)
    (hok : ∀ c ∈ sourceChanges txns, Mirrorable kw reserved cat keys c.rel c.change)
    (hsource : SourceRun cat (sourceChanges txns) db₀ db) (hr₀ : Represents keys t₀ db₀)
    {H : History} (hH : H.txns = txns.map SourceTxn.stream) (ids : RowIds) :
    (H.syncLog parse ids).Replayable t₀ where
  inserts g hg st hst := by
    obtain ⟨g, hqueued, rfl⟩ := List.mem_map.1 hg
    obtain ⟨k, hk⟩ := List.getElem?_of_mem hqueued
    obtain ⟨t, ht, heffects⟩ := getElem?_queuedTxns hk
    rw [hH] at ht
    obtain ⟨txn, htxn, rfl⟩ := List.mem_map.1 (List.mem_of_getElem? ht)
    rw [QueuedGroup.toSql, ← List.map_tail] at hst
    obtain ⟨row, hrow, rfl⟩ := List.mem_map.1 hst
    have htext : row.2 ∈ (txn.changes.map SourceChange.row).tail := by
      have htail := List.mem_map_of_mem (f := Prod.snd) hrow
      rw [List.map_tail] at htail
      have heq : g.statements.map Prod.snd = txn.changes.map SourceChange.row := by
        rw [← QueuedGroup.effects, heffects, StreamTxn.statements, SourceTxn.stream, List.map_map]
        rfl
      rwa [heq] at htail
    rw [← List.map_tail] at htext
    obtain ⟨c, hc, hrow⟩ := List.mem_map.1 htext
    have hmem : c ∈ sourceChanges txns :=
      List.mem_flatMap.2 ⟨txn, htxn, List.mem_of_mem_tail hc⟩
    dsimp only
    rw [← hrow]
    exact parse_isInsert hkw hparse (hok c hmem) (h.inserts txn htxn c hc)
  updates pre post key key' set hsplit := by
    rw [stmts_syncLog, hH, sourceStmts_stream] at hsplit
    obtain ⟨cs, cs', hcs, rfl, hrest⟩ := List.map_eq_append_iff.1 hsplit
    obtain ⟨c, cs', rfl, hrow, -⟩ := List.map_eq_cons_iff.1 hrest
    rw [hcs] at hsource
    obtain ⟨db', hpre, hpost⟩ := sourceRun_append.1 hsource
    have hmem : c ∈ sourceChanges txns := by
      rw [hcs]
      exact List.mem_append_right _ List.mem_cons_self
    cases hpost with
    | cons hchange _ =>
      obtain ⟨hkey, hthere⟩ := parse_update hkw hparse (hok c hmem) (h.updates c hmem) hrow
      refine ⟨hkey, ?_⟩
      intro t ht
      obtain ⟨t', ht', hr⟩ := execAll_rows hkw hcat hparse
        (fun c hc => hok c (by rw [hcs]; exact List.mem_append_left _ hc)) hr₀ hpre
      obtain rfl := Option.some.inj (ht.symm.trans ht')
      exact hthere t _ hr hchange

/-! ## The process -/

/-- Streams start at the first transaction that is not committed locally. -/
def StreamsResume (H : History) (p : TablePipeline K C V) : TableEvent → Prop
  | .receive e => ResumesAfterCommitted H p.source e
  | _ => True

instance (H : History) (p : TablePipeline K C V) : ∀ e, Decidable (StreamsResume H p e)
  | .receive e => inferInstanceAs (Decidable (ResumesAfterCommitted H p.source e))
  | .declareCursor | .apply _ | .restart => inferInstanceAs (Decidable True)

/-- The local log is exact, and the apply thread reads it. -/
structure CrashInv (H : History) (ids : RowIds) (parse : Bytes → KeyedStmt K C V)
    (p : TablePipeline K C V) : Prop where
  once : OnceInv H p.source
  cursor : CursorInv (H.syncLog parse ids) p.apply

theorem crashInv_step [DecidableEq K] {H : History} {ids : RowIds}
    {parse : Bytes → KeyedStmt K C V} {p p' : TablePipeline K C V} {e : TableEvent}
    (hI : CrashInv H ids parse p) (hok : StreamsResume H p e)
    (h : p.step H ids parse e = some p') : CrashInv H ids parse p' := by
  cases e with
  | receive e =>
    obtain ⟨source, hsrc, rfl⟩ := Option.map_eq_some_iff.1 h
    exact ⟨onceInv_step_any hI.once hok hsrc, hI.cursor⟩
  | declareCursor =>
    obtain ⟨hpc, h⟩ : p.apply.pc = .opening ∧ _ = some p' := by
      simpa only [TablePipeline.step, Option.ite_none_right_eq_some] using h
    obtain rfl := Option.some.inj h
    refine ⟨hI.once, ?_, fun _ _ _ _ _ _ => rfl⟩
    show after SyncSql.id _ (readSyncSqls parse ids _) <:+: _
    rw [hI.once.readSyncSqls parse ids]
    exact (H.syncLog parse ids).after_isInfix _ _
  | apply e =>
    cases e with
    | declareCursor visible => cases h
    | start | fetch | save _ | kill =>
      obtain ⟨apply, happly, rfl⟩ := Option.map_eq_some_iff.1 h
      exact ⟨hI.once, cursorInv_step hI.cursor happly⟩
  | restart =>
    obtain rfl := Option.some.inj h
    exact ⟨hI.once.restart, hI.cursor.congr rfl rfl⟩

/-- **The target mirrors the source wherever the process is killed**: in every run in which every
stream starts at the first transaction that is not committed locally, if every change can be
mirrored, in each transaction only the first change inserts a row, and no update changes a key. -/
theorem mirrors_of_crashes (hkw : ∀ w, reserved w → kw w) (hcat : cat.Keyed keys)
    (hparse : ParsesKeyed reserved keys parse) {txns : List (SourceTxn kw)}
    (hok : ∀ c ∈ sourceChanges txns, Mirrorable kw reserved cat keys c.rel c.change)
    (hrerunnable : Rerunnable txns) (hsource : SourceRun cat (sourceChanges txns) db₀ db)
    (hr₀ : Represents keys t₀ db₀) {H : History} (hH : H.txns = txns.map SourceTxn.stream)
    {ids : RowIds} {p : TablePipeline RowKey Bytes (Option Bytes)} {es : List TableEvent}
    (hm : StepMachine.Meets (TablePipeline.step H ids parse) (StreamsResume H) (.init H t₀) es)
    (hr : StepMachine.run (TablePipeline.step H ids parse) (.init H t₀) es = some p) :
    Mirrors cat keys txns db₀ db ids parse p := by
  have hreplayable := hrerunnable.replayable hkw hcat hparse hok hsource hr₀ hH ids
  have hharmless : StepMachine.Meets (TablePipeline.step H ids parse)
      (HarmlessStep H ids parse t₀) (.init H t₀) es := by
    refine hm.imp (I := CrashInv H ids parse) (fun _ _ _ hI hok h => crashInv_step hI hok h) ?_
      ⟨onceInv_init H, cursorInv_nil _ rfl⟩
    intro p e hI hresumes
    cases e with
    | receive e => exact hresumes
    | apply e => exact hreplayable.harmless hI.cursor e
    | declareCursor | restart => trivial
  obtain ⟨final, hfinal⟩ := exec_sourceStmts hkw hcat hparse hok hsource hr₀ hH
  exact (tableInv_of_run hfinal hharmless hr).converged.mirrors hkw hcat hparse hok hsource hr₀ hH

theorem rerunnable_replaceTxn : Rerunnable [replaceTxn] := by
  constructor
  · intro t ht c hc new
    obtain rfl := List.mem_singleton.1 ht
    obtain rfl := List.mem_singleton.1 hc
    rintro ⟨⟩
  · intro c hc
    rcases List.mem_cons.1 hc with rfl | hc
    · rfl
    · obtain rfl := List.mem_singleton.1 hc
      rfl

theorem mirrors_of_crashes_replaceTwice :
    ∃ p, StepMachine.run (TablePipeline.step replaceHistory evenIds parseE)
        (.init replaceHistory keyedE) replaceTwice = some p ∧
      Mirrors catalogE keysE [replaceTxn] (databaseE (ascii "test")) (databaseE (ascii "it's")) evenIds
        parseE p := by
  have hr : (StepMachine.run (TablePipeline.step replaceHistory evenIds parseE)
      (.init replaceHistory keyedE) replaceTwice).isSome := by
    decide +kernel
  have hm : StepMachine.Meets (TablePipeline.step replaceHistory evenIds parseE)
      (StreamsResume replaceHistory) (.init replaceHistory keyedE) replaceTwice := by
    decide +kernel
  obtain ⟨p, hp⟩ := Option.isSome_iff_exists.1 hr
  exact ⟨p, hp, mirrors_of_crashes (fun _ h => h) keyed_catalogE parsesKeyed_parseE
    mirrorable_replaceTxn rerunnable_replaceTxn sourceRun_replaceTxn represents_keyedE rfl hm hp⟩

end

end RdsDbsync
