/-
  The whole way from the tables of the source to those of the target: changes, messages,
  generated SQL, the local table `sync_sqls`, and the statements that the target reads.

  `mirrors_of_run`: whenever the apply thread has applied what is stored, the tables of the
  target are those of the source after the transactions that are stored.
-/
import RdsDbsync.Convergence
import RdsDbsync.Meaning

namespace RdsDbsync

open Bytes KeyedTable SqlLex

/-! ## The source -/

section
variable {kw : Bytes → Bool} (cat : Catalog)

/-- The source makes its changes, one after the other. -/
inductive SourceRun : List (SourceChange kw) → Database → Database → Prop where
  | nil (db : Database) : SourceRun [] db db
  | cons {c : SourceChange kw} {cs : List (SourceChange kw)} {db db' db'' : Database}
      (first : c.rel.Changes cat c.change db db') (rest : SourceRun cs db' db'') :
      SourceRun (c :: cs) db db''

variable {cat}

theorem sourceRun_append {cs cs' : List (SourceChange kw)} {db db'' : Database} :
    SourceRun cat (cs ++ cs') db db'' ↔
      ∃ db', SourceRun cat cs db db' ∧ SourceRun cat cs' db' db'' := by
  induction cs generalizing db with
  | nil =>
    constructor
    · intro h
      exact ⟨db, .nil db, h⟩
    · rintro ⟨_, ⟨⟩, h⟩
      exact h
  | cons c cs ih =>
    constructor
    · rintro (_ | ⟨hfirst, hrest⟩)
      obtain ⟨db', hcs, hcs'⟩ := ih.1 hrest
      exact ⟨db', .cons hfirst hcs, hcs'⟩
    · rintro ⟨db', _ | ⟨hfirst, hrest⟩, hcs'⟩
      exact .cons hfirst (ih.2 ⟨db', hrest, hcs'⟩)

end

/-- The changes of transactions. -/
def sourceChanges {kw : Bytes → Bool} (txns : List (SourceTxn kw)) : List (SourceChange kw) :=
  txns.flatMap SourceTxn.changes

/-- **The change can be mirrored**: it can be replicated, its table is in the catalog, and the key of
the table is its replica identity. -/
structure Mirrorable (kw reserved : Bytes → Bool) (cat : Catalog) (keys : TableName → List Bytes)
    (rel : Relation) (change : ReorderBufferChange) : Prop where
  replicable : Replicable kw reserved rel change
  named : rel.ColumnsNamed
  columns : ∀ i, rel.live i → rel.columnName i ∈ cat.columns rel.table
  keys : keys rel.table = rel.identityNames

/-- What the target makes of texts: a text that is read as a statement on the row under a key is
that statement. -/
def ParsesKeyed (reserved : Bytes → Bool) (keys : TableName → List Bytes)
    (parse : Bytes → KeyedStmt RowKey Bytes (Option Bytes)) : Prop :=
  ∀ text d s, readDml reserved text = some d → d.keyed keys = some s → parse text = s

section
variable {kw reserved : Bytes → Bool} {cat : Catalog} {keys : TableName → List Bytes}
  {parse : Bytes → KeyedStmt RowKey Bytes (Option Bytes)} {t₀ : KeyedRows} {db₀ db : Database}

/-- What the target makes of the text of a change. -/
theorem parse_row (hkw : ∀ w, reserved w → kw w) (hparse : ParsesKeyed reserved keys parse)
    {c : SourceChange kw} (hok : Mirrorable kw reserved cat keys c.rel c.change) :
    ∃ d, SameMeaning c.rel c.change d ∧ d.keyed keys = some (parse c.row) := by
  obtain ⟨text, d, hout, hread, hmeaning⟩ := hok.replicable.reads hkw hok.named
  obtain ⟨rc, hrow⟩ := c.generated
  obtain rfl : text = c.row := (Prod.mk.inj (Except.ok.inj (hout.symm.trans hrow))).2
  obtain ⟨s, hs⟩ := hmeaning.keyed keys hok.keys
  rw [hparse _ d s hread hs]
  exact ⟨d, hmeaning, hs⟩

/-- **The text of a change** does to the tables under their keys what the change does. -/
theorem exec_row (hkw : ∀ w, reserved w → kw w) (hcat : cat.Keyed keys)
    (hparse : ParsesKeyed reserved keys parse) {c : SourceChange kw}
    (hok : Mirrorable kw reserved cat keys c.rel c.change) {t : KeyedRows} {db' : Database}
    (hr : Represents keys t db) (hchange : c.rel.Changes cat c.change db db') :
    ∃ t', t.exec (parse c.row) = some t' ∧ Represents keys t' db' := by
  obtain ⟨d, hmeaning, hs⟩ := parse_row hkw hparse hok
  exact hr.exec hcat hs (hmeaning.exec hok.columns hchange)

/-- The texts of a run of the source. -/
theorem execAll_rows (hkw : ∀ w, reserved w → kw w) (hcat : cat.Keyed keys)
    (hparse : ParsesKeyed reserved keys parse) {cs : List (SourceChange kw)}
    (hok : ∀ c ∈ cs, Mirrorable kw reserved cat keys c.rel c.change) {t : KeyedRows}
    {db' : Database} (hr : Represents keys t db) (hrun : SourceRun cat cs db db') :
    ∃ t', t.execAll (cs.map fun c => parse c.row) = some t' ∧ Represents keys t' db' := by
  induction hrun generalizing t with
  | nil db => exact ⟨t, rfl, hr⟩
  | @cons c cs _ _ _ hfirst _ ih =>
    obtain ⟨t₁, hexec, hr₁⟩ := exec_row hkw hcat hparse (hok c List.mem_cons_self) hr hfirst
    obtain ⟨t', hall, hr'⟩ := ih (fun c hc => hok c (List.mem_cons_of_mem _ hc)) hr₁
    refine ⟨t', ?_, hr'⟩
    rw [List.map_cons, execAll, hexec]
    exact hall

theorem sourceStmts_stream (txns : List (SourceTxn kw)) :
    sourceStmts parse (txns.map SourceTxn.stream) =
      (sourceChanges txns).map fun c => parse c.row := by
  have htxn : ∀ t : SourceTxn kw, t.stream.statements.map parse =
      t.changes.map fun c => parse c.row := by
    intro t
    rw [StreamTxn.statements, SourceTxn.stream, List.map_map, List.map_map]
    rfl
  rw [sourceStmts, sourceChanges, List.flatMap_map, List.map_flatMap]
  simp only [htxn]

/-! ## The property -/

/-- **The target mirrors the source**: the apply thread does not give up.  When it has applied what
is stored, the tables of the target are those that the source had after the transactions that are
stored, on its way from `db₀` to `db`; at the end of the stream, those are all. -/
structure Mirrors (cat : Catalog) (keys : TableName → List Bytes) (txns : List (SourceTxn kw))
    (db₀ db : Database) (ids : RowIds) (parse : Bytes → KeyedStmt RowKey Bytes (Option Bytes))
    (p : TablePipeline RowKey Bytes (Option Bytes)) : Prop where
  applies : p.apply.pc ≠ .exited
  tables : p.apply.pc ≠ .down →
    (∀ r ∈ readSyncSqls parse ids p.source.receiver.db, r.id ≤ p.apply.applyId) →
      ∃ db', SourceRun cat (sourceChanges (txns.take p.source.receiver.db.committed.length)) db₀ db' ∧
        SourceRun cat (sourceChanges (txns.drop p.source.receiver.db.committed.length)) db' db ∧
          Represents keys p.apply.target.saved db'
  all : p.source.receiver.pc.live → p.source.receiver.handler.conn = .streaming →
    p.source.queue = [] → p.source.receiver.db.committed.length = txns.length

/-- The stored statements of a run of the source can be executed. -/
theorem exec_sourceStmts (hkw : ∀ w, reserved w → kw w) (hcat : cat.Keyed keys)
    (hparse : ParsesKeyed reserved keys parse) {txns : List (SourceTxn kw)}
    (hok : ∀ c ∈ sourceChanges txns, Mirrorable kw reserved cat keys c.rel c.change)
    (hsource : SourceRun cat (sourceChanges txns) db₀ db) (hr₀ : Represents keys t₀ db₀)
    {H : History} (hH : H.txns = txns.map SourceTxn.stream) :
    ∃ final, t₀.execAll (sourceStmts parse H.txns) = some final := by
  obtain ⟨final, hfinal, -⟩ := execAll_rows hkw hcat hparse hok hr₀ hsource
  rw [← sourceStmts_stream, ← hH] at hfinal
  exact ⟨final, hfinal⟩

/-- **A target that converges** to what the stored statements make mirrors the source. -/
theorem Converged.mirrors (hkw : ∀ w, reserved w → kw w) (hcat : cat.Keyed keys)
    (hparse : ParsesKeyed reserved keys parse) {txns : List (SourceTxn kw)}
    (hok : ∀ c ∈ sourceChanges txns, Mirrorable kw reserved cat keys c.rel c.change)
    (hsource : SourceRun cat (sourceChanges txns) db₀ db) (hr₀ : Represents keys t₀ db₀)
    {H : History} (hH : H.txns = txns.map SourceTxn.stream) {ids : RowIds}
    {p : TablePipeline RowKey Bytes (Option Bytes)} (h : Converged H ids parse t₀ p) :
    Mirrors cat keys txns db₀ db ids parse p := by
  refine ⟨h.applies, ?_, ?_⟩
  · intro hdown happlied
    have hexec := h.tables hdown happlied
    generalize p.source.receiver.db.committed.length = n at hexec ⊢
    rw [hH, ← List.map_take, sourceStmts_stream] at hexec
    have hsplit : sourceChanges txns = sourceChanges (txns.take n) ++ sourceChanges (txns.drop n) := by
      rw [sourceChanges, sourceChanges, sourceChanges, ← List.flatMap_append, List.take_append_drop]
    rw [hsplit] at hsource hok
    obtain ⟨db', hstored, hrest⟩ := sourceRun_append.1 hsource
    obtain ⟨t, ht, hrepresents⟩ := execAll_rows hkw hcat hparse
      (fun c hc => hok c (List.mem_append_left _ hc)) hr₀ hstored
    obtain rfl := Option.some.inj (ht.symm.trans hexec)
    exact ⟨db', hstored, hrest, hrepresents⟩
  · intro hl hs hq
    rw [h.all hl hs hq, hH, List.length_map]

/-- **The target mirrors the source** in every run of the decoder in which every stream starts at
the first transaction that is not committed locally and statements that are run once more are
harmless, if every change can be mirrored and the target starts with the tables of the source. -/
theorem mirrors_of_run (hkw : ∀ w, reserved w → kw w) (hcat : cat.Keyed keys)
    (hparse : ParsesKeyed reserved keys parse) {txns : List (SourceTxn kw)}
    (hok : ∀ c ∈ sourceChanges txns, Mirrorable kw reserved cat keys c.rel c.change)
    (hsource : SourceRun cat (sourceChanges txns) db₀ db) (hr₀ : Represents keys t₀ db₀)
    {H : History} (hH : H.txns = txns.map SourceTxn.stream) {ids : RowIds}
    {p : TablePipeline RowKey Bytes (Option Bytes)} {es : List TableEvent}
    (hm : StepMachine.Meets (TablePipeline.step H ids parse) (HarmlessStep H ids parse t₀)
      (.init H t₀) es)
    (hr : StepMachine.run (TablePipeline.step H ids parse) (.init H t₀) es = some p) :
    Mirrors cat keys txns db₀ db ids parse p := by
  obtain ⟨final, hfinal⟩ := exec_sourceStmts hkw hcat hparse hok hsource hr₀ hH
  exact (tableInv_of_run hfinal hm hr).converged.mirrors hkw hcat hparse hok hsource hr₀ hH

end

/-! ## A row of the table `e` is replaced -/

/-- All columns of `e` are its key. -/
def keysE : TableName → List Bytes := fun _ => [ascii "a", ascii "b"]

/-- Its rows are distinct. -/
def catalogE : Catalog where
  columns := keysE
  admits _ rows := decide (rows.map (keyOf keysE tableE.table)).Nodup

/-- The one row, under its key. -/
def keyedE : KeyedRows := fun key =>
  if key = (tableE.table, [some (ascii "1"), some (ascii "test")]) then some (rowOne (ascii "test"))
  else none

/-- What is no statement is taken for a DELETE of nothing. -/
def parseE (text : Bytes) : KeyedStmt RowKey Bytes (Option Bytes) :=
  ((readDml (fun _ => false) text).bind (Dml.keyed keysE)).getD (.delete (([], []), []))

theorem represents_keyedE : Represents keysE keyedE (databaseE (ascii "test")) := by
  constructor
  · intro table
    rw [databaseE]
    split_ifs
    · exact Multiset.nodup_singleton _
    · exact Multiset.nodup_zero
  · intro table key row
    have hkey : ∀ table, keyOf keysE table (rowOne (ascii "test")) =
        [some (ascii "1"), some (ascii "test")] := by
      intro table
      exact show [_, _] = _ by decide
    rw [databaseE, keyedE, Option.ite_none_right_eq_some, Option.some.injEq]
    constructor
    · rintro ⟨heq, rfl⟩
      obtain ⟨rfl, rfl⟩ := Prod.mk.inj heq
      rw [if_pos rfl]
      exact ⟨Multiset.mem_singleton_self _, hkey _⟩
    · rintro ⟨hmem, rfl⟩
      split_ifs at hmem with htable
      · obtain rfl := Multiset.mem_singleton.1 hmem
        exact ⟨by rw [htable, hkey], rfl⟩
      · exact absurd hmem (Multiset.notMem_zero _)

theorem keyed_catalogE : catalogE.Keyed keysE := by
  intro table rows h
  exact of_decide_eq_true h

theorem parsesKeyed_parseE : ParsesKeyed (fun _ => false) keysE parseE := by
  intro text d s hread hs
  rw [parseE, hread, Option.bind_some, hs]
  rfl

theorem fits_deleteE :
    (ReorderBufferChange.delete (some (rowE (.value (lit "test"))))).Fits (fun _ => false)
      tableE := by
  decide

theorem generated_deleteE : ∃ rc, outPutTupleToSql (changeMessage (fun _ => false) tableE
    (.delete (some (rowE (.value (lit "test")))))) =
      .ok (rc, ascii "DELETE FROM test_case.e WHERE a=1 AND b='test';") :=
  ⟨0, by decide⟩

/-- A row is inserted, and the one that was there is deleted. -/
def replaceTxn : SourceTxn fun _ => false where
  txn := ⟨2010, 2020, 0, 7⟩
  firstLsn := 2000
  commitLsn := 2010
  changes := [⟨2005, tableE, .insert (rowE (.value (lit "it's"))),
      ascii "INSERT INTO test_case.e (a,b) VALUES(1, 'it''s');", by decide, 0, by decide⟩,
    ⟨2006, tableE, .delete (some (rowE (.value (lit "test")))),
      ascii "DELETE FROM test_case.e WHERE a=1 AND b='test';", fits_deleteE, generated_deleteE⟩]
  first_lt := by decide
  changes_lt := by decide
  lt_end := by decide

def replaceHistory : History where
  txns := [replaceTxn.stream]
  slot := 0
  ordered := List.pairwise_singleton _ _
  slot_le := fun _ _ => Nat.zero_le _

theorem mirrorable_replaceTxn (c : SourceChange fun _ => false)
    (hc : c ∈ sourceChanges [replaceTxn]) :
    Mirrorable (fun _ => false) (fun _ => false) catalogE keysE c.rel c.change := by
  have hcolumns : ∀ i < 2, tableE.columnName i ∈ [ascii "a", ascii "b"] := by decide
  have hlive : ∀ i, tableE.live i → tableE.columnName i ∈ [ascii "a", ascii "b"] :=
    fun i hi => hcolumns i (Relation.lt_of_live hi)
  rcases List.mem_cons.1 hc with rfl | hc
  · exact ⟨⟨by decide, ⟨by decide, by decide, by decide⟩, by rintro _ ⟨⟩, by rintro _ ⟨⟩⟩, by decide,
      hlive, by decide⟩
  · obtain rfl := List.mem_singleton.1 hc
    refine ⟨⟨by decide, ⟨by decide, by decide, by decide⟩, by rintro _ ⟨⟩, ?_⟩, by decide, hlive,
      by decide⟩
    rintro _ ⟨⟩
    exact identity_rowE _

theorem sourceRun_replaceTxn : SourceRun catalogE (sourceChanges [replaceTxn])
    (databaseE (ascii "test")) (databaseE (ascii "it's")) := by
  have hinserted : tableE.Changes catalogE (.insert (rowE (.value (lit "it's"))))
      (databaseE (ascii "test")) (Function.update (databaseE (ascii "test")) tableE.table
        (rowOne (ascii "it's") ::ₘ {rowOne (ascii "test")})) := by
    refine ⟨?_, by rw [Function.update_self]; decide, ?_⟩
    · rw [Function.update_self]
      have happlies : tableE.Applies (.insert (rowE (.value (lit "it's"))))
          (databaseE (ascii "test") tableE.table) _ := .insert _ fun i hi => ?_
      · rwa [insertedRow_rowE] at happlies
      · obtain ⟨t, ht⟩ := identity_rowE (lit "it's") i hi
        rw [ht]
        exact nofun
    · intro table htable
      exact Function.update_of_ne htable _ _
  have hdeleted : tableE.Changes catalogE (.delete (some (rowE (.value (lit "test")))))
      (Function.update (databaseE (ascii "test")) tableE.table
        (rowOne (ascii "it's") ::ₘ {rowOne (ascii "test")})) (databaseE (ascii "it's")) := by
    have hswap : rowOne (ascii "it's") ::ₘ {rowOne (ascii "test")} =
        rowOne (ascii "test") ::ₘ {rowOne (ascii "it's")} := Multiset.pair_comm _ _
    refine ⟨?_, by decide, ?_⟩
    · rw [Function.update_self, hswap]
      refine .delete ⟨identifies_rowOne.own, ?_⟩
      intro other hother
      obtain rfl := Multiset.mem_singleton.1 hother
      exact ⟨1, by decide, by decide⟩
    · intro table htable
      rw [Function.update_of_ne htable, databaseE, databaseE, if_neg htable, if_neg htable]
  exact .cons hinserted (.cons hdeleted (.nil _))

/-- No row is updated, and INSERTs are only executed behind `begin;`. -/
def InsertsFirst (H : History) (p : TablePipeline RowKey Bytes (Option Bytes)) : TableEvent → Prop
  | .receive e => ResumesAfterCommitted H p.source e
  | .apply .fetch => ∀ row ∈ p.apply.cursor.head?, ∀ st ∈ row.sql.statement?,
      st.isDelete ∨ st.isInsert ∧ p.apply.sqltype = .begin
  | _ => True

instance (H : History) (p : TablePipeline RowKey Bytes (Option Bytes)) :
    ∀ e, Decidable (InsertsFirst H p e)
  | .receive e => inferInstanceAs (Decidable (ResumesAfterCommitted H p.source e))
  | .apply .fetch => inferInstanceAs (Decidable (∀ row ∈ p.apply.cursor.head?,
      ∀ st ∈ row.sql.statement?, st.isDelete ∨ st.isInsert ∧ p.apply.sqltype = .begin))
  | .apply .start | .apply (.declareCursor _) | .apply (.save _) | .apply .kill | .declareCursor
  | .restart => inferInstanceAs (Decidable True)

/-- Both can be run once more: an INSERT that fails there is skipped. -/
theorem InsertsFirst.harmless {H : History} {ids : RowIds}
    {parse : Bytes → KeyedStmt RowKey Bytes (Option Bytes)} {t₀ : KeyedRows}
    {p : TablePipeline RowKey Bytes (Option Bytes)} {e : TableEvent} (h : InsertsFirst H p e) :
    HarmlessStep H ids parse t₀ p e := by
  cases e with
  | receive e => exact h
  | declareCursor | restart => trivial
  | apply e =>
    cases e with
    | fetch =>
      intro row hrow st hst work _ _
      rcases h row hrow st hst with hdelete | ⟨hinsert, hbegin⟩
      · cases st with
        | insert | update => cases hdelete
        | delete k =>
          refine ⟨?_, fun _ _ _ _ => trivial⟩
          rintro ⟨⟩
      · cases st with
        | update | delete => cases hinsert
        | insert k row => exact ⟨fun _ => hbegin, fun _ _ _ _ => trivial⟩
    | start | declareCursor | save | kill => trivial

/-- A message is received by the process. -/
def receivedOne : List TableEvent :=
  [.receive (.client (.wake 0 ⟨true, true⟩)), .receive (.data (envAt 0 true) ⟨true, true, true⟩)]

/-- The apply thread reads the transaction. -/
def applyReplace : List TableEvent :=
  [.apply .start, .declareCursor, .apply .fetch, .apply .fetch, .apply .fetch, .apply .fetch]

/-- The process is killed behind the transaction, before it saves `apply_id`. -/
def replaceTwice : List TableEvent :=
  [.receive (.client (.connect .started))] ++ receivedOne ++ receivedOne ++ receivedOne ++
    receivedOne ++ applyReplace ++ [.restart] ++ applyReplace

theorem mirrors_replaceTwice :
    ∃ p, StepMachine.run (TablePipeline.step replaceHistory evenIds parseE)
        (.init replaceHistory keyedE) replaceTwice = some p ∧ p.apply.applyId = 8 ∧
      Mirrors catalogE keysE [replaceTxn] (databaseE (ascii "test")) (databaseE (ascii "it's")) evenIds
        parseE p := by
  have hr : (StepMachine.run (TablePipeline.step replaceHistory evenIds parseE)
      (.init replaceHistory keyedE) replaceTwice).map (fun p => p.apply.applyId) = some 8 := by
    decide +kernel
  have hm : StepMachine.Meets (TablePipeline.step replaceHistory evenIds parseE)
      (InsertsFirst replaceHistory) (.init replaceHistory keyedE) replaceTwice := by
    decide +kernel
  obtain ⟨p, hp, hid⟩ := Option.map_eq_some_iff.1 hr
  refine ⟨p, hp, hid, mirrors_of_run (fun _ h => h) keyed_catalogE parsesKeyed_parseE
    mirrorable_replaceTxn sourceRun_replaceTxn represents_keyedE rfl ?_ hp⟩
  exact hm.imp (I := fun _ => True) (fun _ _ _ _ _ _ => trivial) (fun _ _ _ h => h.harmless) trivial

end RdsDbsync
