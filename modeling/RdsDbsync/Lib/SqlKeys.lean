/-
  Tables that have a key, as tables under their keys.

  `Represents.exec`: a statement that names its row by the key does to the table under the
  keys what it does to the rows.
-/
import RdsDbsync.Lib.KeyedTable
import RdsDbsync.Lib.SqlRows

namespace SqlLex

open RowSql KeyedTable

/-- A table, and the values of its key columns. -/
abbrev RowKey := TableName × List (Option Bytes)

/-- The tables under their keys. -/
abbrev KeyedRows := KeyedTable RowKey Bytes (Option Bytes)

section
variable (keys : TableName → List Bytes)

/-- The key of a row. -/
def keyOf (table : TableName) (row : TableRow) : List (Option Bytes) := (keys table).map row

/-! ## Statements -/

/-- The columns that are set. -/
def setColumns (set : List Entry) : Bytes → Option (Option Bytes) := fun n =>
  if (set.map Prod.fst).contains n then some (assign set (fun _ => none) n) else none

/-- The equations give a value to each column of the key, and to no other one. -/
def ByKey (table : TableName) (conditions : List Entry) : Prop :=
  conditions.map Prod.fst = keys table ∧ ∀ e ∈ conditions, e.2 ≠ none

instance (table : TableName) (conditions : List Entry) : Decidable (ByKey keys table conditions) :=
  inferInstanceAs (Decidable (_ ∧ _))

/-- The key after the columns are set. -/
def newKey (set conditions : List Entry) : List (Option Bytes) :=
  conditions.map fun e => (setColumns set e.1).getD e.2

/-- The statement on the row under a key, if it names its row by the key. -/
def Dml.keyed : Dml → Option (KeyedStmt RowKey Bytes (Option Bytes))
  | insert table columns values =>
    let row := assign (columns.zip values) fun _ => none
    some (.insert (table, keyOf keys table row) row)
  | update table set conditions =>
    if ByKey keys table conditions then
      some (.update (table, conditions.map Prod.snd) (table, newKey set conditions)
        (setColumns set))
    else none
  | delete table conditions =>
    if ByKey keys table conditions then some (.delete (table, conditions.map Prod.snd)) else none

/-- **The tables are those of the database**: under each key is the one row that has it. -/
structure Represents (t : KeyedRows) (db : Database) : Prop where
  nodup : ∀ table, ((db table).map (keyOf keys table)).Nodup
  row_iff : ∀ table key row, t (table, key) = some row ↔
    row ∈ db table ∧ keyOf keys table row = key

/-- The constraints admit no two rows with one key. -/
def Catalog.Keyed (cat : Catalog) : Prop :=
  ∀ table rows, cat.admits table rows → (rows.map (keyOf keys table)).Nodup

end

/-! ## Rows under statements -/

section
variable {keys : TableName → List Bytes} {table : TableName} {set conditions : List Entry}
  {row : TableRow} {rest : Multiset TableRow}

/-- **A WHERE clause on the key** is true of the rows that have the key. -/
theorem holds_byKey (h : ByKey keys table conditions) :
    holds conditions row = some true ↔ keyOf keys table row = conditions.map Prod.snd := by
  rw [holds_eq_true, keyOf, ← h.1, List.map_map, List.map_inj_left]
  constructor
  · intro hall e he
    obtain ⟨v, hrow, hv⟩ := hall e he
    exact hrow.trans hv.symm
  · intro hall e he
    obtain ⟨v, hv⟩ := Option.ne_none_iff_exists'.1 (h.2 e he)
    exact ⟨v, (hall e he).trans hv, hv⟩

theorem overwrite_setColumns (set : List Entry) (row : TableRow) :
    overwrite (setColumns set) row = assign set row := by
  funext n
  rw [overwrite, setColumns]
  split_ifs with hn
  · exact assign_congr_of_mem (List.contains_iff_mem.1 hn) _ _
  · exact (assign_of_notMem (mt List.contains_iff_mem.2 hn) row).symm

/-- The key of the row after an UPDATE. -/
theorem keyOf_assign (h : ByKey keys table conditions)
    (hrow : keyOf keys table row = conditions.map Prod.snd) :
    keyOf keys table (assign set row) = newKey set conditions := by
  rw [keyOf, ← h.1, List.map_map, List.map_inj_left] at hrow
  rw [keyOf, newKey, ← h.1, List.map_map, List.map_inj_left]
  intro e he
  rw [Function.comp_apply, ← overwrite_setColumns, overwrite, ← hrow e he]
  rfl

/-- An UPDATE that sets no key column keeps the key. -/
theorem newKey_of_notMem (h : ∀ e ∈ conditions, e.1 ∉ set.map Prod.fst) :
    newKey set conditions = conditions.map Prod.snd := by
  refine List.map_congr_left ?_
  intro e he
  rw [setColumns, if_neg (mt List.contains_iff_mem.1 (h e he))]
  rfl

/-- The rows beside one with a key have other keys. -/
theorem keyOf_ne_of_nodup (h : ((row ::ₘ rest).map (keyOf keys table)).Nodup) {other : TableRow}
    (hother : other ∈ rest) : keyOf keys table other ≠ keyOf keys table row := by
  rw [Multiset.map_cons, Multiset.nodup_cons] at h
  intro heq
  exact h.1 (heq ▸ Multiset.mem_map_of_mem _ hother)

end

/-- What an INSERT under a key is made of. -/
theorem Dml.keyed_insert {d : Dml} {key : RowKey} {row : TableRow}
    (h : d.keyed keys = some (.insert key row)) :
    ∃ table columns values, d = .insert table columns values := by
  cases d with
  | insert table columns values => exact ⟨table, columns, values, rfl⟩
  | update | delete =>
    rw [Dml.keyed, Option.ite_none_right_eq_some] at h
    cases Option.some.inj h.2

/-- What an UPDATE under a key is made of. -/
theorem Dml.keyed_update {d : Dml} {key key' : RowKey} {columns : Bytes → Option (Option Bytes)}
    (h : d.keyed keys = some (.update key key' columns)) :
    ∃ table set conditions, d = .update table set conditions ∧ ByKey keys table conditions ∧
      key = (table, conditions.map Prod.snd) ∧ key' = (table, newKey set conditions) := by
  cases d with
  | update table set conditions =>
    rw [Dml.keyed, Option.ite_none_right_eq_some] at h
    cases Option.some.inj h.2
    exact ⟨table, set, conditions, rfl, h.1, rfl, rfl⟩
  | insert => cases Option.some.inj h
  | delete =>
    rw [Dml.keyed, Option.ite_none_right_eq_some] at h
    cases Option.some.inj h.2

/-! ## The simulation -/

section
variable {keys : TableName → List Bytes} {t t' : KeyedRows} {db : Database} {table : TableName}
  {rows : Multiset TableRow}

/-- Empty tables. -/
theorem represents_empty : Represents keys (fun _ => none) fun _ => 0 :=
  ⟨fun _ => Multiset.nodup_zero, by simp⟩

/-- Only one table changes. -/
theorem Represents.of_table (hr : Represents keys t db)
    (hnodup : (rows.map (keyOf keys table)).Nodup)
    (hothers : ∀ table' key, table' ≠ table → t' (table', key) = t (table', key))
    (hrows : ∀ key row, t' (table, key) = some row ↔ row ∈ rows ∧ keyOf keys table row = key) :
    Represents keys t' (Function.update db table rows) := by
  constructor
  · intro table'
    by_cases h : table' = table
    · subst h
      rw [Function.update_self]
      exact hnodup
    · rw [Function.update_of_ne h]
      exact hr.nodup table'
  · intro table' key row
    by_cases h : table' = table
    · subst h
      rw [Function.update_self]
      exact hrows key row
    · rw [Function.update_of_ne h, hothers table' key h]
      exact hr.row_iff table' key row

/-- There is no row under the key of none. -/
theorem Represents.eq_none (hr : Represents keys t db) {key : List (Option Bytes)}
    (h : ∀ row ∈ db table, keyOf keys table row ≠ key) : t (table, key) = none := by
  by_contra hsome
  obtain ⟨row, hrow⟩ := Option.ne_none_iff_exists'.1 hsome
  obtain ⟨hmem, hkey⟩ := (hr.row_iff table key row).1 hrow
  exact h row hmem hkey

/-- **An INSERT.** -/
theorem Represents.insert (hr : Represents keys t db) {row : TableRow}
    (hnodup : ((row ::ₘ db table).map (keyOf keys table)).Nodup) :
    ∃ t', KeyedTable.exec t (.insert (table, keyOf keys table row) row) = some t' ∧
      Represents keys t' (Function.update db table (row ::ₘ db table)) := by
  have hfree : t (table, keyOf keys table row) = none :=
    hr.eq_none fun other hother => keyOf_ne_of_nodup hnodup hother
  refine ⟨_, if_pos hfree, hr.of_table hnodup ?_ ?_⟩
  · intro table' key hne
    exact Function.update_of_ne (fun h => hne (Prod.mk.inj h).1) _ _
  · intro key other
    rw [Multiset.mem_cons]
    by_cases hkey : key = keyOf keys table row
    · subst hkey
      rw [Function.update_self, Option.some.injEq]
      constructor
      · rintro rfl
        exact ⟨Or.inl rfl, rfl⟩
      · rintro ⟨rfl | hmem, hkey⟩
        · rfl
        · exact absurd hkey (keyOf_ne_of_nodup hnodup hmem)
    · rw [Function.update_of_ne fun h => hkey (Prod.mk.inj h).2, hr.row_iff]
      refine and_congr_left ?_
      rintro rfl
      refine (or_iff_right ?_).symm
      rintro rfl
      exact hkey rfl

/-- **A DELETE.** -/
theorem Represents.delete (hr : Represents keys t db) {conditions : List Entry}
    (hby : ByKey keys table conditions) :
    Represents keys (Function.update t (table, conditions.map Prod.snd) none)
      (Function.update db table ((Dml.delete table conditions).onRows (db table))) := by
  refine hr.of_table ?_ ?_ ?_
  · exact Multiset.nodup_of_le (Multiset.map_le_map (Multiset.filter_le _ _)) (hr.nodup table)
  · intro table' key hne
    exact Function.update_of_ne (fun h => hne (Prod.mk.inj h).1) _ _
  · intro key row
    rw [Dml.onRows, Multiset.mem_filter, holds_byKey hby]
    by_cases hkey : key = conditions.map Prod.snd
    · subst hkey
      rw [Function.update_self]
      refine iff_of_false (by simp) ?_
      rintro ⟨⟨-, hne⟩, heq⟩
      exact hne heq
    · rw [Function.update_of_ne fun h => hkey (Prod.mk.inj h).2, hr.row_iff]
      refine and_congr_left ?_
      rintro rfl
      exact (and_iff_left hkey).symm

/-- **An UPDATE.** -/
theorem Represents.update (hr : Represents keys t db) {set conditions : List Entry}
    (hby : ByKey keys table conditions)
    (hnodup : (((Dml.update table set conditions).onRows (db table)).map (keyOf keys table)).Nodup) :
    ∃ t', KeyedTable.exec t (.update (table, conditions.map Prod.snd)
        (table, newKey set conditions) (setColumns set)) = some t' ∧
      Represents keys t'
        (Function.update db table ((Dml.update table set conditions).onRows (db table))) := by
  cases hrow : t (table, conditions.map Prod.snd) with
  | none =>
    have hnone : (Dml.update table set conditions).onRows (db table) = db table := by
      refine Dml.onRows_update_of_none ?_
      intro row hmem htrue
      have hsome := (hr.row_iff table _ row).2 ⟨hmem, (holds_byKey hby).1 htrue⟩
      rw [hrow] at hsome
      cases hsome
    rw [hnone, Function.update_eq_self]
    refine ⟨t, ?_, hr⟩
    rw [exec, hrow]
  | some row =>
    obtain ⟨hmem, hkey⟩ := (hr.row_iff table _ row).1 hrow
    obtain ⟨rest, hrest⟩ := Multiset.exists_cons_of_mem hmem
    have hold := hr.nodup table
    rw [hrest] at hold
    have hne : ∀ other ∈ rest, keyOf keys table other ≠ conditions.map Prod.snd := by
      intro other hother
      rw [← hkey]
      exact keyOf_ne_of_nodup hold hother
    have honRows : (Dml.update table set conditions).onRows (db table) =
        assign set row ::ₘ rest := by
      rw [hrest]
      exact Dml.onRows_update_of_only ((holds_byKey hby).2 hkey)
        fun other hother => mt (holds_byKey hby).1 (hne other hother)
    rw [honRows] at hnodup ⊢
    have hnew : keyOf keys table (assign set row) = newKey set conditions := keyOf_assign hby hkey
    have hfresh : ∀ other ∈ rest, keyOf keys table other ≠ newKey set conditions := by
      intro other hother
      rw [← hnew]
      exact keyOf_ne_of_nodup hnodup hother
    -- the place of the row under its new key is free
    have hplace : (table, newKey set conditions) = (table, conditions.map Prod.snd) ∨
        t (table, newKey set conditions) = none := by
      by_cases hsame : newKey set conditions = conditions.map Prod.snd
      · exact Or.inl (by rw [hsame])
      · refine Or.inr (hr.eq_none ?_)
        intro other hother
        rw [hrest, Multiset.mem_cons] at hother
        rcases hother with rfl | hother
        · rw [hkey]
          exact Ne.symm hsame
        · exact hfresh other hother
    refine ⟨Function.update (Function.update t (table, conditions.map Prod.snd) none)
      (table, newKey set conditions) (some (assign set row)), ?_, hr.of_table hnodup ?_ ?_⟩
    · rw [exec, hrow]
      dsimp only
      rw [if_pos hplace, overwrite_setColumns]
    · intro table' key hother
      rw [Function.update_of_ne fun h => hother (Prod.mk.inj h).1,
        Function.update_of_ne fun h => hother (Prod.mk.inj h).1]
    · intro key other
      rw [Multiset.mem_cons]
      by_cases hkeyNew : key = newKey set conditions
      · subst hkeyNew
        rw [Function.update_self, Option.some.injEq]
        constructor
        · rintro rfl
          exact ⟨Or.inl rfl, hnew⟩
        · rintro ⟨rfl | hother, heq⟩
          · rfl
          · exact absurd heq (hfresh other hother)
      · rw [Function.update_of_ne fun h => hkeyNew (Prod.mk.inj h).2]
        have hassigned : ¬ (other = assign set row ∧ keyOf keys table other = key) := by
          rintro ⟨rfl, heq⟩
          exact hkeyNew (heq.symm.trans hnew)
        by_cases hkeyOld : key = conditions.map Prod.snd
        · subst hkeyOld
          rw [Function.update_self]
          refine iff_of_false (by simp) ?_
          rintro ⟨hother | hother, heq⟩
          · exact hassigned ⟨hother, heq⟩
          · exact hne other hother heq
        · rw [Function.update_of_ne fun h => hkeyOld (Prod.mk.inj h).2, hr.row_iff, hrest,
            Multiset.mem_cons]
          refine and_congr_left ?_
          intro heq
          rw [or_iff_right fun h => hassigned ⟨h, heq⟩, or_iff_right]
          rintro rfl
          exact hkeyOld (heq.symm.trans hkey)

/-- **A statement that names its row by the key** does to the tables under their keys what it does
to the rows. -/
theorem Represents.exec (hr : Represents keys t db) {cat : Catalog} (hcat : cat.Keyed keys)
    {d : Dml} {s : KeyedStmt RowKey Bytes (Option Bytes)} (hs : d.keyed keys = some s)
    {db' : Database} (hexec : d.exec cat db = some db') :
    ∃ t', KeyedTable.exec t s = some t' ∧ Represents keys t' db' := by
  obtain ⟨-, hadmits, rfl⟩ := Dml.exec_eq_some.1 hexec
  have hnodup := hcat _ _ hadmits
  cases d with
  | insert table columns values =>
    obtain rfl := Option.some.inj hs
    exact hr.insert hnodup
  | update table set conditions =>
    rw [Dml.keyed, Option.ite_none_right_eq_some] at hs
    obtain ⟨hby, hs⟩ := hs
    obtain rfl := Option.some.inj hs
    exact hr.update hby hnodup
  | delete table conditions =>
    rw [Dml.keyed, Option.ite_none_right_eq_some] at hs
    obtain ⟨hby, hs⟩ := hs
    obtain rfl := Option.some.inj hs
    exact ⟨_, rfl, hr.delete hby⟩

/-! ## Rows that are loaded -/

/-- Rows are added to a table. -/
def loadRows (keys : TableName → List Bytes) (t : KeyedRows) (table : TableName)
    (rows : List TableRow) : KeyedRows := fun key =>
  if key.1 = table then (rows.find? fun row => keyOf keys table row = key.2).or (t key) else t key

/-- The row that has a key. -/
theorem find?_keyOf {rows : List TableRow} (hnodup : (rows.map (keyOf keys table)).Nodup)
    {key : List (Option Bytes)} {row : TableRow} :
    (rows.find? fun row => keyOf keys table row = key) = some row ↔
      row ∈ rows ∧ keyOf keys table row = key := by
  constructor
  · intro h
    exact ⟨List.mem_of_find?_eq_some h, by simpa using List.find?_some h⟩
  · rintro ⟨hmem, rfl⟩
    have hsome : (rows.find? fun other => keyOf keys table other = keyOf keys table row).isSome :=
      List.find?_isSome.2 ⟨row, hmem, decide_eq_true rfl⟩
    obtain ⟨other, hother⟩ := Option.isSome_iff_exists.1 hsome
    have hkey : keyOf keys table other = keyOf keys table row := by
      simpa using List.find?_some hother
    rw [hother, List.inj_on_of_nodup_map hnodup (List.mem_of_find?_eq_some hother) hmem hkey]

/-- **Rows that are loaded into an empty table.** -/
theorem Represents.loadRows (hr : Represents keys t db) (hempty : db table = 0)
    {rows : List TableRow} (hnodup : (rows.map (keyOf keys table)).Nodup) :
    Represents keys (loadRows keys t table rows) (Function.update db table ↑rows) := by
  refine hr.of_table (Multiset.coe_nodup.2 hnodup) ?_ ?_
  · intro table' key hne
    exact if_neg hne
  · intro key row
    have hnone : t (table, key) = none := by
      refine hr.eq_none ?_
      intro other hother
      rw [hempty] at hother
      cases Multiset.notMem_zero _ hother
    rw [SqlLex.loadRows, if_pos rfl, hnone, Option.or_none, Multiset.mem_coe]
    exact find?_keyOf hnodup

end

end SqlLex
