/-
  What the generated SQL means: the change of a source table against the statement that is
  read from the text, on tables that are multisets of rows.

  `meaning_of_change`: the text that is generated for a change takes the tables to those that
  the change takes them to, if one statement can be made of the change, its names and values
  are read as they are meant, and no identity is NULL.
-/
import RdsDbsync.Lib.SqlKeys
import RdsDbsync.SqlNames

namespace RdsDbsync

open Bytes SqlLex RowSql

/-! ## Statements with the names of the source -/

namespace Relation

variable (rel : Relation)

/-- The table, with its schema. -/
def table : TableName := (rel.nspname, rel.relname)

/-- Cells, with the names of their columns. -/
def entries (cs : List ColumnCell) : List Entry :=
  cs.map fun c => (rel.columnName c.1, c.2.svalue)

end Relation

section
variable (rel : Relation) (msg : AliPgDecodeMessage)

/-- The statement about rows that a message asks for. -/
def SqlStmt.dml : SqlStmt → Option Dml
  | begin | commit => none
  | insert columns => some (.insert rel.table (columns.map rel.columnName)
      (columns.map fun i => (msg.newtuple.cell i).svalue))
  | row (.update set conditions) =>
    some (.update rel.table (rel.entries set) (rel.entries conditions))
  | row (.delete conditions) => some (.delete rel.table (rel.entries conditions))

variable {rel msg}

theorem valueItem_svalue (c : Cell) : valueItem c.svalue = c.item := by cases c <;> rfl

theorem entryItems_entries (cs : List ColumnCell) :
    (rel.entries cs).map entryItems = cs.map (cellItems rel) := by
  rw [Relation.entries, List.map_map]
  refine List.map_congr_left ?_
  intro c _
  rw [Function.comp_apply, entryItems, valueItem_svalue]
  rfl

theorem SqlStmt.items_dml {stmt : SqlStmt} {d : Dml} (h : stmt.dml rel msg = some d) :
    d.items = stmt.items rel msg := by
  rcases stmt with _ | _ | columns | ⟨set, conditions⟩ | conditions
  · cases h
  · cases h
  · cases h
    simp only [Dml.items, SqlStmt.items, separated, List.map_map, Function.comp_def,
      valueItem_svalue, List.append_assoc]
    rfl
  · cases h
    simp only [Dml.items, SqlStmt.items, separated, entryItems_entries, List.append_assoc]
    rfl
  · cases h
    simp only [Dml.items, SqlStmt.items, separated, entryItems_entries, List.append_assoc]
    rfl

theorem SqlStmt.complete_dml {stmt : SqlStmt} {d : Dml} (h : stmt.dml rel msg = some d)
    (hc : stmt.Complete) : d.Complete := by
  rcases stmt with _ | _ | columns | ⟨set, conditions⟩ | conditions
  · cases h
  · cases h
  · cases h
    have hne : columns ≠ [] := hc
    simp [Dml.Complete, hne]
  · cases h
    obtain ⟨hset, hconditions⟩ : set ≠ [] ∧ conditions ≠ [] := hc
    simp [Dml.Complete, Relation.entries, hset, hconditions]
  · cases h
    have hne : conditions ≠ [] := hc
    simp [Dml.Complete, Relation.entries, hne]

end

/-! ## Changes of the source -/

/-- The tuple that tells which row is changed. -/
def ReorderBufferChange.identityTuple : ReorderBufferChange → Option HeapTuple
  | insert _ => none
  | update old new => some (old.getD new)
  | delete old => old

/-- The change leaves the identity of the row as it is: the server sends no old tuple. -/
def ReorderBufferChange.keepsKey : ReorderBufferChange → Bool
  | update (some _) _ => false
  | _ => true

namespace Relation

variable (rel : Relation)

/-- The columns that tell the rows apart: those of the replica identity index, or all. -/
def identity (i : ℕ) : Bool :=
  match rel.replidindex with
  | some indkey => rel.inIndex indkey i
  | none => rel.live i

/-- The live column of a name. -/
def columnOf (n : Bytes) : Option ℕ :=
  (List.range rel.attrs.length).find? fun i => rel.live i && rel.columnName i == n

/-- The row that a tuple is inserted as. -/
def insertedRow (new : HeapTuple) : TableRow := fun n =>
  (rel.columnOf n).bind fun i => (rel.cell new i).svalue

/-- The row after an update to a tuple; a column that is not sent keeps its value. -/
def updatedRow (new : HeapTuple) (row : TableRow) : TableRow := fun n =>
  match rel.columnOf n with
  | none => row n
  | some i => if rel.cell new i = .unchanged then row n else (rel.cell new i).svalue

/-- The row has the identity of the tuple, and no other row has it. -/
structure Identifies (tuple : HeapTuple) (row : TableRow) (rest : Multiset TableRow) : Prop where
  own : ∀ i, rel.identity i → row (rel.columnName i) = (rel.cell tuple i).svalue
  only : ∀ other ∈ rest, ∃ i, rel.identity i ∧
    other (rel.columnName i) ≠ row (rel.columnName i)

/-- What a change makes of the rows of the table.  The server sends inserted rows whole. -/
inductive Applies : ReorderBufferChange → Multiset TableRow → Multiset TableRow → Prop where
  | insert {new : HeapTuple} (rows : Multiset TableRow)
      (whole : ∀ i, rel.live i → rel.cell new i ≠ .unchanged) :
      Applies (.insert new) rows (rel.insertedRow new ::ₘ rows)
  | update {old : Option HeapTuple} {new : HeapTuple} {row : TableRow} {rest : Multiset TableRow}
      (row_eq : rel.Identifies (old.getD new) row rest) :
      Applies (.update old new) (row ::ₘ rest) (rel.updatedRow new row ::ₘ rest)
  | delete {old : HeapTuple} {row : TableRow} {rest : Multiset TableRow}
      (row_eq : rel.Identifies old row rest) :
      Applies (.delete (some old)) (row ::ₘ rest) rest

/-- **A change of the source**: its constraints admit the rows of the table after the change. -/
structure Changes (cat : Catalog) (change : ReorderBufferChange) (db db' : Database) : Prop where
  rows : rel.Applies change (db rel.table) (db' rel.table)
  admits : cat.admits rel.table (db' rel.table)
  others : ∀ table, table ≠ rel.table → db' table = db table

variable {rel}

theorem columnName_inj {i j : ℕ} (hi : rel.live i) (hj : rel.live j)
    (h : rel.columnName i = rel.columnName j) : i = j := by
  obtain ⟨a, ha, hla⟩ := live_iff.1 hi
  obtain ⟨b, hb, hlb⟩ := live_iff.1 hj
  have hname : a.attname = b.attname := by
    simpa [columnName, ha, hb, Subtype.ext_iff] using h
  obtain rfl := attname_inj (List.mem_of_getElem? ha) (List.mem_of_getElem? hb) hla hlb hname
  obtain ⟨hi, rfl⟩ := List.getElem?_eq_some_iff.1 ha
  obtain ⟨hj, hb⟩ := List.getElem?_eq_some_iff.1 hb
  have hnum := rel.attnum_eq j hj
  rw [hb, rel.attnum_eq i hi] at hnum
  omega

theorem columnOf_columnName {i : ℕ} (hi : rel.live i) :
    rel.columnOf (rel.columnName i) = some i := by
  rw [columnOf]
  cases hfind : (List.range rel.attrs.length).find? fun j =>
      rel.live j && rel.columnName j == rel.columnName i with
  | none =>
    have := List.find?_eq_none.1 hfind i (List.mem_range.2 (lt_of_live hi))
    simp [hi] at this
  | some j =>
    have hj := List.find?_some hfind
    rw [Bool.and_eq_true, beq_iff_eq] at hj
    rw [columnName_inj hj.1 hi hj.2]

theorem columnOf_eq_some {n : Bytes} {i : ℕ} (h : rel.columnOf n = some i) :
    rel.live i ∧ rel.columnName i = n := by
  have hi := List.find?_some h
  rwa [Bool.and_eq_true, beq_iff_eq] at hi

theorem columnOf_eq_none {n : Bytes} (h : rel.columnOf n = none) {i : ℕ} (hi : rel.live i) :
    rel.columnName i ≠ n := by
  rintro rfl
  rw [columnOf_columnName hi] at h
  cases h

theorem live_of_identity {i : ℕ} (h : rel.identity i) : rel.live i := by
  rw [identity] at h
  cases hk : rel.replidindex with
  | none => rwa [hk] at h
  | some indkey =>
    rw [hk] at h
    obtain ⟨a, ha, hl, -⟩ := inIndex_iff.1 h
    exact live_iff.2 ⟨a, ha, hl⟩

end Relation

/-! ## Rows under a statement -/

section
variable {rel : Relation} {tuple new : HeapTuple} {sel : ℕ → Bool} {row : TableRow}

/-- The entries of the selected columns of a tuple. -/
def Relation.tupleEntries (rel : Relation) (tuple : HeapTuple) (sel : ℕ → Bool) : List Entry :=
  rel.entries (selected (rel.tupleData tuple) sel rel.attrs.length 0)

theorem mem_tupleEntries {e : Entry} : e ∈ rel.tupleEntries tuple sel ↔
    ∃ i < rel.attrs.length, sel i ∧ e = (rel.columnName i, (rel.cell tuple i).svalue) := by
  rw [Relation.tupleEntries, Relation.entries, List.mem_map]
  constructor
  · rintro ⟨c, hc, rfl⟩
    obtain ⟨hlt, hsel, hcell⟩ := mem_selected_tupleData.1 hc
    exact ⟨c.1, hlt, hsel, by rw [hcell]⟩
  · rintro ⟨i, hlt, hsel, rfl⟩
    exact ⟨(i, rel.cell tuple i), mem_selected_tupleData.2 ⟨hlt, hsel, rfl⟩, rfl⟩

theorem map_fst_tupleEntries : (rel.tupleEntries tuple sel).map Prod.fst =
    ((List.range rel.attrs.length).filter sel).map rel.columnName := by
  rw [← map_fst_selected (rel.tupleData tuple), Relation.tupleEntries, Relation.entries,
    List.map_map, List.map_map]
  rfl

theorem nodup_columnNames (hsel : ∀ i, sel i → rel.live i) :
    (((List.range rel.attrs.length).filter sel).map rel.columnName).Nodup := by
  refine List.Nodup.map_on ?_ (List.nodup_range.filter _)
  intro i hi j hj h
  exact Relation.columnName_inj (hsel i (List.mem_filter.1 hi).2) (hsel j (List.mem_filter.1 hj).2) h

/-- **A WHERE clause on the identity** is true of the rows that have the identity. -/
theorem holds_identity (hvalue : ∀ i, sel i → ∃ t, rel.cell tuple i = .value t)
    (hsel : ∀ i, sel i → rel.live i) :
    holds (rel.tupleEntries tuple sel) row = some true ↔
      ∀ i, sel i → row (rel.columnName i) = (rel.cell tuple i).svalue := by
  rw [holds_eq_true]
  constructor
  · intro h i hi
    obtain ⟨v, hrow, hv⟩ := h _ (mem_tupleEntries.2 ⟨i, Relation.lt_of_live (hsel i hi), hi, rfl⟩)
    exact hrow.trans hv.symm
  · intro h e he
    obtain ⟨i, -, hi, rfl⟩ := mem_tupleEntries.1 he
    obtain ⟨t, ht⟩ := hvalue i hi
    have hrow := h i hi
    rw [ht] at hrow ⊢
    exact ⟨t, hrow, rfl⟩

/-- **A SET clause makes the new row** if it assigns no column that was not sent, and the columns
that it leaves out have their new values. -/
theorem assign_tupleEntries (hsel : ∀ i, sel i → rel.live i)
    (hsent : ∀ i, sel i → rel.cell new i ≠ .unchanged)
    (hkept : ∀ i, rel.live i → sel i = false → rel.cell new i = .unchanged ∨
      row (rel.columnName i) = (rel.cell new i).svalue) :
    assign (rel.tupleEntries new sel) row = rel.updatedRow new row := by
  funext n
  rw [Relation.updatedRow]
  cases hn : rel.columnOf n with
  | none =>
    refine assign_of_notMem ?_ row
    rw [map_fst_tupleEntries, List.mem_map]
    rintro ⟨i, hi, rfl⟩
    exact Relation.columnOf_eq_none hn (hsel i (List.mem_filter.1 hi).2) rfl
  | some i =>
    obtain ⟨hlive, rfl⟩ := Relation.columnOf_eq_some hn
    dsimp only
    by_cases hi : sel i
    · rw [if_neg (hsent i hi)]
      refine assign_of_mem ?_ (mem_tupleEntries.2 ⟨i, Relation.lt_of_live hlive, hi, rfl⟩) row
      rw [map_fst_tupleEntries]
      exact nodup_columnNames hsel
    · rw [assign_of_notMem]
      · split_ifs with hcell
        · rfl
        · exact (hkept i hlive (Bool.eq_false_iff.2 hi)).resolve_left hcell
      · rw [map_fst_tupleEntries, List.mem_map]
        rintro ⟨j, hj, hname⟩
        obtain ⟨-, hj⟩ := List.mem_filter.1 hj
        obtain rfl := Relation.columnName_inj (hsel j hj) hlive hname
        exact hi hj

end

/-! ## The condition -/

/-- **The change can be replicated**: one complete statement can be made of it, the names and values
of the statement are read as they are meant, the names of the identity columns need no quotes, and
no column of the identity is NULL. -/
structure Replicable (kw reserved : Bytes → Bool) (rel : Relation) (change : ReorderBufferChange) :
    Prop where
  generable : Generable (changeMessage kw rel change)
  names : NamesSafe reserved rel (changeMessage kw rel change)
  index : ∀ indkey, rel.replidindex = some indkey → indexColumns rel indkey ≠ [] ∧
    ∀ a ∈ rel.attrs, a.attnum ∈ indkey → SqlText.isPlain kw a.attname
  identity : ∀ tuple, change.identityTuple = some tuple → ∀ i, rel.identity i →
    ∃ t, rel.cell tuple i = .value t

section
variable {kw reserved : Bytes → Bool} {rel : Relation} {change : ReorderBufferChange}

/-- **The WHERE clause constrains the identity.** -/
theorem Replicable.constrained_eq (hr : Replicable kw reserved rel change) (hc : change.Keyed) :
    (changeMessage kw rel change).constrained = rel.identity := by
  funext i
  cases hk : rel.replidindex with
  | none =>
    have hnames : rel.keyNames change = [] := by
      cases change <;> simp [Relation.keyNames, hk]
    rw [AliPgDecodeMessage.constrained, changeMessage_live, changeMessage_kNatt, hnames,
      Relation.identity, hk]
    simp
  | some indkey =>
    obtain ⟨hne, hplain⟩ := hr.index indkey hk
    rw [constrained_of_keyed (kNatt_pos hc hk hne), isKey_eq_inIndex hc hk hplain,
      Relation.identity, hk]

/-- The statement of a DELETE. -/
theorem Replicable.rowStmt_delete {old : HeapTuple}
    (hr : Replicable kw reserved rel (.delete (some old))) {stmt : RowStmt}
    (hs : rowStmt (changeMessage kw rel (.delete (some old))) = some stmt) :
    stmt = .delete (selected (rel.tupleData old) rel.identity rel.attrs.length 0) := by
  rw [RdsDbsync.rowStmt_delete (attrs_of_rowStmt (Or.inl rfl) hs), hr.constrained_eq trivial] at hs
  exact (Option.some.inj hs).symm

/-- The statement of an UPDATE: what it leaves out keeps its value. -/
theorem Replicable.rowStmt_update {old : Option HeapTuple} {new : HeapTuple}
    (hr : Replicable kw reserved rel (.update old new)) {stmt : RowStmt}
    (hs : rowStmt (changeMessage kw rel (.update old new)) = some stmt) : ∃ sel,
      stmt = .update (selected (rel.tupleData new) sel rel.attrs.length 0)
        (selected (rel.tupleData (old.getD new)) rel.identity rel.attrs.length 0) ∧
      (∀ i, sel i → rel.live i) ∧ (old = none → ∀ i, sel i → rel.identity i = false) ∧
      ∀ i, rel.live i → sel i = false → rel.cell new i = .unchanged ∨
        rel.identity i ∧ (rel.cell (old.getD new) i).svalue = (rel.cell new i).svalue := by
  have hconstrained := hr.constrained_eq trivial
  cases hk : rel.replidindex with
  | none =>
    have hzero : (changeMessage kw rel (.update old new)).kNatt = 0 := by
      simp [changeMessage_kNatt, Relation.keyNames, hk]
    have hidentity : rel.identity = rel.live := by
      funext i
      rw [Relation.identity, hk]
    cases old with
    | none =>
      rw [rowStmt] at hs
      split_ifs at hs
      simp [changeMessage, Relation.message, updateStmt, hk, Relation.keyNames] at hs
    | some old =>
      have hn := attrs_of_rowStmt (Or.inr ⟨new, rfl, by simp [Relation.keyNames, hk]⟩) hs
      rw [rowStmt_update_full hn hzero] at hs
      refine ⟨_, by rw [hidentity]; exact (Option.some.inj hs).symm, ?_, by rintro ⟨⟩, ?_⟩
      · intro i hi
        exact (columnChanged_iff.1 hi).1
      · intro i hi hsame
        obtain ⟨t, ht⟩ := hr.identity old rfl i (hidentity ▸ hi)
        rw [hidentity]
        have hnot := mt columnChanged_iff.2 (Bool.eq_false_iff.1 hsame)
        simp only [hi, true_and, ht, Option.getD_some] at hnot ⊢
        rcases hcell : rel.cell new i with _ | _ | t'
        · simp [hcell] at hnot
        · exact Or.inl rfl
        · simp only [hcell] at hnot
          refine Or.inr ?_
          simpa [Cell.svalue] using hnot
  | some indkey =>
    obtain ⟨hne, hplain⟩ := hr.index indkey hk
    have hkn : 0 < (changeMessage kw rel (.update old new)).kNatt := kNatt_pos trivial hk hne
    have hn := attrs_of_indexColumns hne
    rw [constrained_of_keyed hkn] at hconstrained
    cases old with
    | none =>
      rw [rowStmt_update_none hn hkn, hconstrained] at hs
      refine ⟨_, (Option.some.inj hs).symm, ?_, ?_, ?_⟩
      · intro i hi
        exact (Bool.and_eq_true_iff.1 hi).1
      · intro _ i hi
        simpa using (Bool.and_eq_true_iff.1 hi).2
      · intro i hi hkey
        refine Or.inr ⟨?_, rfl⟩
        simpa [hi] using hkey
    | some old =>
      rw [rowStmt_update_some hn hkn, hconstrained] at hs
      refine ⟨_, (Option.some.inj hs).symm, fun i hi => hi, by rintro ⟨⟩, ?_⟩
      intro i hi hnot
      rw [hi] at hnot
      cases hnot

/-! ## The statement and the change -/

variable {cat : Catalog} {rows rows' : Multiset TableRow}

/-- The names of the columns that tell the rows apart. -/
def Relation.identityNames (rel : Relation) : List Bytes :=
  ((List.range rel.attrs.length).filter rel.identity).map rel.columnName

/-- The statement names the table, of its columns live ones, and its row by the identity; it does
to the rows what the change does. -/
structure SameMeaning (rel : Relation) (change : ReorderBufferChange) (d : Dml) : Prop where
  table : d.table = rel.table
  keyed : ∀ keys : TableName → List Bytes, keys rel.table = rel.identityNames →
    ∃ s, d.keyed keys = some s
  accepted : ∀ cat : Catalog, (∀ i, rel.live i → rel.columnName i ∈ cat.columns rel.table) →
    d.Accepted cat
  onRows : ∀ rows rows', rel.Applies change rows rows' → d.onRows rows = rows'
  inserted : ∀ table columns values, d = .insert table columns values →
    ∃ new, change = .insert new
  found : ∀ table set conditions, d = .update table set conditions →
    ∀ rows rows', rel.Applies change rows rows' → ∃ row ∈ rows, holds conditions row = some true
  sameKey : ∀ table set conditions, d = .update table set conditions → change.keepsKey →
    ∀ e ∈ conditions, e.1 ∉ set.map Prod.fst

theorem updatedRow_none {new : HeapTuple} (whole : ∀ i, rel.live i → rel.cell new i ≠ .unchanged) :
    rel.updatedRow new (fun _ => none) = rel.insertedRow new := by
  funext n
  rw [Relation.updatedRow, Relation.insertedRow]
  cases hn : rel.columnOf n with
  | none => rfl
  | some i => exact if_neg (whole i (Relation.columnOf_eq_some hn).1)

theorem sameMeaning_insert {new : HeapTuple} :
    SameMeaning rel (.insert new) (.insert rel.table
      (((List.range rel.attrs.length).filter rel.live).map rel.columnName)
      (((List.range rel.attrs.length).filter rel.live).map fun i => (rel.cell new i).svalue)) where
  table := rfl
  keyed _ _ := ⟨_, rfl⟩
  accepted cat hcols := by
    refine ⟨?_, nodup_columnNames fun i hi => hi, by simp⟩
    intro n hn
    obtain ⟨i, hi, rfl⟩ := List.mem_map.1 hn
    exact hcols i (List.mem_filter.1 hi).2
  onRows rows rows' h := by
    cases h with
    | insert _ whole =>
      have hentries : (((List.range rel.attrs.length).filter rel.live).map rel.columnName).zip
          (((List.range rel.attrs.length).filter rel.live).map fun i => (rel.cell new i).svalue) =
            rel.tupleEntries new rel.live := by
        rw [Relation.tupleEntries, Relation.entries, selected, List.map_map, List.zip_map',
          List.range_eq_range']
        simp only [Function.comp_def, tupleData_cell]
      rw [Dml.onRows, hentries, assign_tupleEntries (fun i hi => hi) whole, updatedRow_none whole]
      intro i hi hnot
      rw [hi] at hnot
      cases hnot
  inserted _ _ _ _ := ⟨new, rfl⟩
  found := by rintro _ _ _ ⟨⟩
  sameKey := by rintro _ _ _ ⟨⟩

/-- The rows that have the identity of the tuple. -/
theorem Replicable.holds_iff (hr : Replicable kw reserved rel change) {tuple : HeapTuple}
    (ht : change.identityTuple = some tuple) {row : TableRow} :
    holds (rel.tupleEntries tuple rel.identity) row = some true ↔
      ∀ i, rel.identity i → row (rel.columnName i) = (rel.cell tuple i).svalue :=
  holds_identity (hr.identity tuple ht) fun _ => Relation.live_of_identity

/-- **The WHERE clause selects the changed row**, and no other one. -/
theorem Replicable.selects (hr : Replicable kw reserved rel change) {tuple : HeapTuple}
    (ht : change.identityTuple = some tuple) {row : TableRow} {rest : Multiset TableRow}
    (h : rel.Identifies tuple row rest) :
    holds (rel.tupleEntries tuple rel.identity) row = some true ∧
      ∀ other ∈ rest, holds (rel.tupleEntries tuple rel.identity) other ≠ some true := by
  refine ⟨(hr.holds_iff ht).2 h.own, ?_⟩
  intro other hother htrue
  obtain ⟨i, hi, hne⟩ := h.only other hother
  exact hne (((hr.holds_iff ht).1 htrue i hi).trans (h.own i hi).symm)

theorem mem_columns_entries (hcols : ∀ i, rel.live i → rel.columnName i ∈ cat.columns rel.table)
    {tuple : HeapTuple} {sel : ℕ → Bool} (hsel : ∀ i, sel i → rel.live i) :
    ∀ e ∈ rel.tupleEntries tuple sel, e.1 ∈ cat.columns rel.table := by
  intro e he
  obtain ⟨i, -, hi, rfl⟩ := mem_tupleEntries.1 he
  exact hcols i (hsel i hi)

/-- The WHERE clause names its row by the identity. -/
theorem Replicable.byKey (hr : Replicable kw reserved rel change) {tuple : HeapTuple}
    (ht : change.identityTuple = some tuple) {keys : TableName → List Bytes}
    (hkeys : keys rel.table = rel.identityNames) :
    ByKey keys rel.table (rel.tupleEntries tuple rel.identity) := by
  refine ⟨map_fst_tupleEntries.trans hkeys.symm, ?_⟩
  intro e he
  obtain ⟨i, -, hi, rfl⟩ := mem_tupleEntries.1 he
  obtain ⟨t, hcell⟩ := hr.identity tuple ht i hi
  rw [hcell]
  exact Option.some_ne_none t

theorem Replicable.sameMeaning_delete {old : HeapTuple}
    (hr : Replicable kw reserved rel (.delete (some old))) :
    SameMeaning rel (.delete (some old))
      (.delete rel.table (rel.tupleEntries old rel.identity)) where
  table := rfl
  keyed _ hkeys := ⟨_, if_pos (hr.byKey rfl hkeys)⟩
  accepted cat hcols := mem_columns_entries hcols fun _ => Relation.live_of_identity
  onRows rows rows' h := by
    cases h with
    | delete hrow =>
      obtain ⟨hrow, hrest⟩ := hr.selects rfl hrow
      exact Dml.onRows_delete_of_only hrow hrest
  inserted := by rintro _ _ _ ⟨⟩
  found := by rintro _ _ _ ⟨⟩
  sameKey := by rintro _ _ _ ⟨⟩

theorem Replicable.sameMeaning_update {old : Option HeapTuple} {new : HeapTuple}
    (hr : Replicable kw reserved rel (.update old new)) {sel : ℕ → Bool}
    (hsel : ∀ i, sel i → rel.live i) (hsent : ∀ i, sel i → rel.cell new i ≠ .unchanged)
    (hkey : old = none → ∀ i, sel i → rel.identity i = false)
    (hkept : ∀ i, rel.live i → sel i = false → rel.cell new i = .unchanged ∨
      rel.identity i ∧ (rel.cell (old.getD new) i).svalue = (rel.cell new i).svalue) :
    SameMeaning rel (.update old new) (.update rel.table (rel.tupleEntries new sel)
      (rel.tupleEntries (old.getD new) rel.identity)) where
  table := rfl
  keyed _ hkeys := ⟨_, if_pos (hr.byKey rfl hkeys)⟩
  accepted cat hcols := by
    refine ⟨?_, ?_⟩
    · intro e he
      rcases List.mem_append.1 he with he | he
      · exact mem_columns_entries hcols hsel e he
      · exact mem_columns_entries hcols (fun _ => Relation.live_of_identity) e he
    · rw [map_fst_tupleEntries]
      exact nodup_columnNames hsel
  onRows rows rows' h := by
    cases h with
    | @update _ _ row rest hident =>
      obtain ⟨hrow, hrest⟩ := hr.selects rfl hident
      rw [Dml.onRows_update_of_only hrow hrest, assign_tupleEntries hsel hsent]
      intro i hi hnot
      refine (hkept i hi hnot).imp_right ?_
      rintro ⟨hidentity, hvalue⟩
      exact (hident.own i hidentity).trans hvalue
  inserted := by rintro _ _ _ ⟨⟩
  found := by
    rintro _ _ _ ⟨⟩ rows rows' h
    cases h with
    | update hident => exact ⟨_, Multiset.mem_cons_self _ _, (hr.selects rfl hident).1⟩
  sameKey := by
    rintro _ _ _ ⟨⟩ hkeeps e he hset
    obtain ⟨i, -, hi, rfl⟩ := mem_tupleEntries.1 he
    rw [map_fst_tupleEntries] at hset
    obtain ⟨j, hj, hname⟩ := List.mem_map.1 hset
    have hj := (List.mem_filter.1 hj).2
    obtain rfl := Relation.columnName_inj (hsel j hj) (Relation.live_of_identity hi) hname
    cases old with
    | some old => cases hkeeps
    | none =>
      rw [hkey rfl j hj] at hi
      cases hi

/-- What is written was sent. -/
theorem writable_sent {c : ColumnCell} {msg : AliPgDecodeMessage} (h : Writable msg c) :
    c.2 ≠ .unchanged := by
  rcases h with hnull | ⟨type, -, hprintable⟩
  · rw [hnull]
    simp
  · exact printable_ne_unchanged hprintable

/-- **The statement of a change has its meaning.** -/
theorem Replicable.sameMeaning (hr : Replicable kw reserved rel change) {stmt : SqlStmt}
    (hs : sqlStmt (changeMessage kw rel change) = some stmt) :
    ∃ d, stmt.dml rel (changeMessage kw rel change) = some d ∧ SameMeaning rel change d := by
  have hgenerable := hr.generable
  rcases sqlStmt_change hs with rfl | ⟨row, rfl, hrow⟩
  · cases change with
    | insert new =>
      refine ⟨_, rfl, ?_⟩
      have hcolumns : insertColumns (changeMessage kw rel (.insert new)) =
          (List.range rel.attrs.length).filter rel.live := by
        rw [insertColumns, funext changeMessage_live]
        rfl
      have hcells : ∀ i, (changeMessage kw rel (.insert new)).newtuple.cell i = rel.cell new i :=
        tupleData_cell rel new
      simp only [hcolumns, hcells]
      exact sameMeaning_insert
    | update old new =>
      rw [sqlStmt_row (Or.inl rfl)] at hs
      obtain ⟨_, -, heq⟩ := Option.map_eq_some_iff.1 hs
      cases heq
    | delete old =>
      rw [sqlStmt_row (Or.inr rfl)] at hs
      obtain ⟨_, -, heq⟩ := Option.map_eq_some_iff.1 hs
      cases heq
  · cases change with
    | insert new =>
      rw [rowStmt] at hrow
      split_ifs at hrow
      cases hrow
    | update old new =>
      obtain ⟨-, -, stmt, hstmt, -, hwritable⟩ := hgenerable
      obtain rfl := Option.some.inj (hrow.symm.trans hstmt)
      obtain ⟨sel, rfl, hsel, hkey, hkept⟩ := hr.rowStmt_update hrow
      refine ⟨_, rfl, hr.sameMeaning_update hsel ?_ hkey hkept⟩
      intro i hi
      have hmem : (i, rel.cell new i) ∈ selected (rel.tupleData new) sel rel.attrs.length 0 :=
        mem_selected_tupleData.2 ⟨Relation.lt_of_live (hsel i hi), hi, rfl⟩
      exact writable_sent (hwritable _ (List.mem_append_right _ hmem))
    | delete old =>
      cases old with
      | none =>
        rw [rowStmt] at hrow
        split_ifs at hrow with hc
        exact absurd one_ne_zero hc
      | some old =>
        obtain rfl := hr.rowStmt_delete hrow
        exact ⟨_, rfl, hr.sameMeaning_delete⟩

/-- A change with one complete statement passes the check. -/
theorem checktuple_of_generable (h : Generable (changeMessage kw rel change)) :
    checktuple (changeMessage kw rel change) (changeMessage kw rel change).type
      (changeMessage kw rel change).newtuple (changeMessage kw rel change).oldtuple = 0 := by
  by_contra hc
  cases change with
  | insert new =>
    have hpos : 0 < rel.attrs.length := Int.natCast_pos.1 h.2.1
    exact hc (by simp [checktuple, changeMessage, Relation.message, Relation.tupleData, hpos.ne'])
  | update old new =>
    obtain ⟨-, -, stmt, hstmt, -⟩ := h
    rw [rowStmt, if_pos hc] at hstmt
    cases hstmt
  | delete old =>
    obtain ⟨-, -, stmt, hstmt, -⟩ := h
    rw [rowStmt, if_pos hc] at hstmt
    cases hstmt

/-- The text of a change is read as a statement with its meaning. -/
theorem Replicable.reads (hkw : ∀ w, reserved w → kw w) (hnames : rel.ColumnsNamed)
    (hr : Replicable kw reserved rel change) : ∃ text d,
      outPutTupleToSql (changeMessage kw rel change) = .ok (0, text) ∧
        readDml reserved text = some d ∧ SameMeaning rel change d := by
  have hc := checktuple_of_generable hr.generable
  obtain ⟨stmt, text, hs, hcomplete, ht, hout⟩ :=
    (oneStatement_iff_asked hc).1 (oneStatement_generable.2 (Or.inr hr.generable))
  obtain ⟨d, hd, hmeaning⟩ := hr.sameMeaning hs
  refine ⟨text, d, hout, readDml_of_reads (SqlStmt.complete_dml hd hcomplete) ?_, hmeaning⟩
  rw [SqlStmt.items_dml hd]
  exact (reads_iff_safe hkw hnames hs ht).2 hr.names

/-- A statement with the meaning of a change does what the change did. -/
theorem SameMeaning.exec {d : Dml} (h : SameMeaning rel change d)
    (hcols : ∀ i, rel.live i → rel.columnName i ∈ cat.columns rel.table) {db db' : Database}
    (hchange : rel.Changes cat change db db') : d.exec cat db = some db' := by
  have hrows : d.onRows (db d.table) = db' d.table := by
    rw [h.table]
    exact h.onRows _ _ hchange.rows
  rw [Dml.exec_eq_some, hrows, h.table]
  refine ⟨h.accepted cat hcols, hchange.admits, ?_⟩
  funext table
  by_cases htable : table = rel.table
  · rw [htable, Function.update_self]
  · rw [Function.update_of_ne htable]
    exact hchange.others table htable

/-- **The generated SQL means the change**: from the plugin over the wire to the text that
PostgreSQL reads, a statement on the table arrives that takes the tables to those that the change
took them to.  Values are compared as texts. -/
theorem meaning_of_change (hkw : ∀ w, reserved w → kw w) (hnames : rel.ColumnsNamed)
    (hf : change.Fits kw rel) (hr : Replicable kw reserved rel change) {stale : ℕ → UInt32}
    {s : StringInfo} {msg : AliPgDecodeMessage}
    (hd : bdrProcessRemoteAction ⟨pgDecodeChange kw pgDecodeStartup rel change, stale⟩ {} =
      .ok (true, s, msg)) : ∃ text d, outPutTupleToSql msg = .ok (0, text) ∧
      readDml reserved text = some d ∧ d.table = rel.table ∧ ∀ cat : Catalog,
        (∀ i, rel.live i → rel.columnName i ∈ cat.columns rel.table) →
          ∀ db db', rel.Changes cat change db db' → d.exec cat db = some db' := by
  rw [changeMessage_roundTrip hf stale] at hd
  obtain rfl := (Prod.mk.inj (Prod.mk.inj (Except.ok.inj hd)).2).2
  obtain ⟨text, d, hout, hread, hmeaning⟩ := hr.reads hkw hnames
  refine ⟨text, d, hout, hread, hmeaning.table, ?_⟩
  intro cat hcols db db' hchange
  exact hmeaning.exec hcols hchange

end

/-! ## The row of `e` is updated -/

/-- The row with the number 1. -/
def rowOne (b : Bytes) : TableRow := fun n =>
  if n = ascii "a" then some (ascii "1") else if n = ascii "b" then some b else none

/-- It is the only one. -/
def databaseE (b : Bytes) : Database := fun table => if table = tableE.table then {rowOne b} else 0

/-- No column of such a row is NULL. -/
theorem identity_rowE (b : CString) : ∀ i, tableE.identity i →
    ∃ t, tableE.cell (rowE (.value b)) i = .value t := by
  intro i hi
  rcases i with _ | _ | i
  · exact ⟨_, rfl⟩
  · exact ⟨_, rfl⟩
  · have hlt : i + 2 < 2 := Relation.lt_of_live (Relation.live_of_identity hi)
    omega

/-- Its text is changed. -/
def changeE : ReorderBufferChange :=
  .update (some (rowE (.value (lit "test")))) (rowE (.value (lit "it's")))

theorem identifies_rowOne :
    tableE.Identifies (rowE (.value (lit "test"))) (rowOne (ascii "test")) 0 := by
  have hown : ∀ i < 2, rowOne (ascii "test") (tableE.columnName i) =
      (tableE.cell (rowE (.value (lit "test"))) i).svalue := by decide
  refine ⟨?_, by simp⟩
  intro i hi
  exact hown i (Relation.lt_of_live (Relation.live_of_identity hi))

theorem columnOf_tableE (n : Bytes) : tableE.columnOf n =
    if n = ascii "a" then some 0 else if n = ascii "b" then some 1 else none := by
  split_ifs with ha hb
  · rw [ha]
    decide
  · rw [hb]
    decide
  · rw [Relation.columnOf, List.find?_eq_none]
    have hnames : ∀ i < 2, tableE.columnName i = ascii "a" ∨ tableE.columnName i = ascii "b" := by
      decide
    intro i hi htrue
    rw [Bool.and_eq_true, beq_iff_eq] at htrue
    rcases hnames i (List.mem_range.1 hi) with h | h
    · exact ha (htrue.2 ▸ h)
    · exact hb (htrue.2 ▸ h)

theorem insertedRow_rowE (b : CString) : tableE.insertedRow (rowE (.value b)) = rowOne b.val := by
  funext n
  rw [Relation.insertedRow, columnOf_tableE, rowOne]
  split_ifs <;> rfl

theorem changes_changeE (cat : Catalog) (h : ∀ table rows, cat.admits table rows) :
    tableE.Changes cat changeE (databaseE (ascii "test")) (databaseE (ascii "it's")) where
  rows := by
    have hrow : tableE.updatedRow (rowE (.value (lit "it's"))) (rowOne (ascii "test")) =
        rowOne (ascii "it's") := by
      funext n
      rw [Relation.updatedRow, columnOf_tableE, rowOne, rowOne]
      split_ifs <;> rfl
    have happlies : tableE.Applies changeE (rowOne (ascii "test") ::ₘ 0) _ :=
      .update identifies_rowOne
    rw [hrow] at happlies
    exact happlies
  admits := h _ _
  others table htable := by
    rw [databaseE, databaseE, if_neg htable, if_neg htable]

theorem meaning_changeE : ∃ text d,
    outPutTupleToSql (changeMessage (fun _ => false) tableE changeE) = .ok (0, text) ∧
      readDml (fun _ => false) text = some d ∧
        d.exec ⟨fun _ => [ascii "a", ascii "b"], fun _ _ => true⟩ (databaseE (ascii "test")) =
          some (databaseE (ascii "it's")) := by
  have hd := @changeMessage_roundTrip (fun _ => false) tableE changeE (by decide) fun _ => 0
  have hreplicable : Replicable (fun _ => false) (fun _ => false) tableE changeE := by
    refine ⟨by decide, ⟨by decide, by decide, by decide⟩, by rintro _ ⟨⟩, ?_⟩
    rintro _ ⟨⟩
    exact identity_rowE _
  obtain ⟨text, d, hout, hread, -, hexec⟩ :=
    meaning_of_change (fun _ h => h) (by decide) (by decide) hreplicable hd
  have hcolumns : ∀ i < 2, tableE.columnName i ∈ [ascii "a", ascii "b"] := by decide
  exact ⟨text, d, hout, hread, hexec _ (fun i hi => hcolumns i (Relation.lt_of_live hi)) _ _
    (changes_changeE _ fun _ _ => rfl)⟩

end RdsDbsync
