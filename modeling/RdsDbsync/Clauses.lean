/-
  The lists inside the generated statements: the names and values of an INSERT, the
  assignments of an UPDATE.
-/
import RdsDbsync.OnlyStatements

namespace RdsDbsync

open Bytes

/-! ## The lists of an INSERT -/

section
variable (msg : AliPgDecodeMessage)

/-- **The lists of an INSERT are aligned**: the names of the live columns in their order, and as
many values, each made of the cell of the column at its place. -/
structure InsertLists (names values : List Bytes) : Prop where
  listed : names.map some = (insertColumns msg).map msg.attname
  length : values.length = names.length
  value : ∀ j i : ℕ, (insertColumns msg)[j]? = some i →
    ∃ t, values[j]? = some t ∧ insertValue msg i = .ok t

/-- The INSERT with these lists, each with its separator between two entries only. -/
def insertText (schemaname relname : Bytes) (names values : List Bytes) : Bytes :=
  ascii "INSERT INTO " ++ schemaname ++ ascii "." ++ relname ++ ascii " " ++
    (ascii "(" ++ joinItems (ascii ",") true names ++ ascii ") ") ++
    (ascii "VALUES(" ++ joinItems (ascii ", ") true values ++ ascii ");")

/-- The generated statement is an INSERT with aligned lists. -/
def InsertAligned : Prop :=
  ∃ schemaname relname names values, msg.schemaname = some schemaname ∧
    msg.relname = some relname ∧ InsertLists msg names values ∧
    outPutTupleToSql msg = .ok (0, insertText schemaname relname names values)

end

section
variable {msg : AliPgDecodeMessage}

theorem mapM_getElem? {f : ℕ → Except Fault Bytes} {l : List ℕ} {ts : List Bytes} :
    l.mapM f = .ok ts ↔ ts.length = l.length ∧
      ∀ j i : ℕ, l[j]? = some i → ∃ t, ts[j]? = some t ∧ f i = .ok t := by
  rw [mapM_eq_ok_iff, List.forall₂_iff_get, eq_comm (a := l.length)]
  refine and_congr_right ?_
  intro hlen
  constructor
  · intro hall j i hj
    obtain ⟨hlt, rfl⟩ := List.getElem?_eq_some_iff.1 hj
    exact ⟨_, List.getElem?_eq_getElem (hlen ▸ hlt), hall j hlt (hlen ▸ hlt)⟩
  · intro hall j hl hts
    obtain ⟨t, ht, hf⟩ := hall j _ (List.getElem?_eq_getElem hl)
    obtain ⟨_, rfl⟩ := List.getElem?_eq_some_iff.1 ht
    exact hf

theorem names_eq_iff {names : List Bytes} :
    names.map some = (insertColumns msg).map msg.attname ↔
      names = (insertColumns msg).map (columnName msg) := by
  have hattname : (insertColumns msg).map msg.attname =
      ((insertColumns msg).map (columnName msg)).map some := by
    rw [List.map_map]
    refine List.map_congr_left ?_
    intro i hi
    obtain ⟨name, hname⟩ := Option.isSome_iff_exists.1 (List.mem_filter.1 hi).2
    simp [columnName, hname]
  rw [hattname]
  exact List.map_inj_right fun _ _ => Option.some.inj

/-- The text of an INSERT statement is made of aligned lists. -/
theorem insert_text_ok {text : Bytes} :
    (SqlStmt.insert (insertColumns msg)).text msg = .ok text ↔
      ∃ schemaname relname names values, msg.schemaname = some schemaname ∧
        msg.relname = some relname ∧ InsertLists msg names values ∧
        text = insertText schemaname relname names values := by
  rw [SqlStmt.text, names_insertColumns]
  constructor
  · intro h
    obtain ⟨values, hvalues, h⟩ := bind_eq_ok h
    rcases hs : msg.schemaname with _ | schemaname
    · rw [hs] at h
      cases h
    rcases hr : msg.relname with _ | relname
    · rw [hs, hr] at h
      cases h
    rw [hs, hr] at h
    cases h
    obtain ⟨hlen, hall⟩ := mapM_getElem?.1 hvalues
    exact ⟨schemaname, relname, _, values, rfl, rfl,
      ⟨names_eq_iff.2 rfl, by rw [hlen, List.length_map], hall⟩, rfl⟩
  · rintro ⟨schemaname, relname, names, values, hs, hr, ⟨hnames, hlen, hall⟩, rfl⟩
    obtain rfl := names_eq_iff.1 hnames
    rw [List.length_map] at hlen
    rw [mapM_getElem?.2 ⟨hlen, hall⟩, hs, hr]
    rfl

/-- **The lists of an INSERT are aligned** if and only if the last column is live and the text is
written at all: the table has names and the live cells can be quoted. -/
theorem insertAligned_iff (ht : msg.type = some .insert)
    (hc : checktuple msg msg.type msg.newtuple msg.oldtuple = 0) (hne : insertColumns msg ≠ []) :
    InsertAligned msg ↔ msg.live (msg.newtuple.natt.toNat - 1) ∧
      msg.Named ∧ ∀ i ∈ insertColumns msg, Insertable msg i := by
  have htext : InsertAligned msg ↔ ∃ text,
      (SqlStmt.insert (insertColumns msg)).text msg = .ok text ∧
        outPutTupleToSql msg = .ok (0, text) := by
    constructor
    · rintro ⟨schemaname, relname, names, values, hs, hr, hlists, h⟩
      exact ⟨_, insert_text_ok.2 ⟨_, _, _, _, hs, hr, hlists, rfl⟩, h⟩
    · rintro ⟨text, htext, h⟩
      obtain ⟨schemaname, relname, names, values, hs, hr, hlists, rfl⟩ := insert_text_ok.1 htext
      exact ⟨_, _, _, _, hs, hr, hlists, h⟩
  have hpos : 0 < msg.newtuple.natt := by
    rcases lt_or_ge 0 msg.newtuple.natt with h | h
    · exact h
    · exact absurd (by rw [insertColumns, Int.toNat_of_nonpos h]; rfl) hne
  rw [htext, insert_text_iff hc ht]
  constructor
  · rintro ⟨hnamed, hcells, hnames⟩
    exact ⟨(insertColnames_iff.1 ⟨hne, hnames⟩).2, hnamed, hcells⟩
  · rintro ⟨hl, hnamed, hcells⟩
    exact ⟨hnamed, hcells, (insertColnames_iff.2 ⟨hpos, hl⟩).2⟩

end

/-- A table of which a column between others or the last one may be dropped. -/
def tableAltered (b d : Bool) : Relation where
  nspname := lit "public"
  relname := lit "msql_1"
  attrs := [⟨lit "a", false, 1, lit "integer"⟩, ⟨lit "b", b, 2, lit "text"⟩,
    ⟨lit "d", d, 3, lit "integer"⟩]
  replidindex := none
  attnum_eq := by cases b <;> cases d <;> decide
  attname_nodup := by cases b <;> cases d <;> decide
  indkey_live := by intro ks h; cases h
  indkey_length := tableE.indkey_length

theorem insertAligned_altered :
    InsertAligned (changeMessage (fun _ => false) (tableAltered true false)
      (.insert [.value (lit "2"), .null, .value (lit "1")])) := by
  exact (insertAligned_iff rfl (by decide) (by decide)).2 ⟨by decide, by decide, by decide⟩

/-- After the last column was dropped a comma follows the last name. -/
theorem trailingComma_altered :
    outPutTupleToSql (changeMessage (fun _ => false) (tableAltered false true)
        (.insert [.value (lit "2"), .value (lit "test"), .null])) =
      .ok (0, ascii "INSERT INTO public.msql_1 (a,b,) VALUES(2, 'test');") ∧
    insertColumns (changeMessage (fun _ => false) (tableAltered false true)
        (.insert [.value (lit "2"), .value (lit "test"), .null])) = [0, 1] ∧
    ¬ InsertAligned (changeMessage (fun _ => false) (tableAltered false true)
        (.insert [.value (lit "2"), .value (lit "test"), .null])) := by
  have htext : outPutTupleToSql (changeMessage (fun _ => false) (tableAltered false true)
        (.insert [.value (lit "2"), .value (lit "test"), .null])) =
      .ok (0, ascii "INSERT INTO public.msql_1 (a,b,) VALUES(2, 'test');") := by decide
  refine ⟨htext, by decide, ?_⟩
  rintro ⟨schemaname, relname, names, values, hs, hr, hlists, h⟩
  have hwritten : (SqlStmt.insert [0, 1]).text (changeMessage (fun _ => false)
        (tableAltered false true) (.insert [.value (lit "2"), .value (lit "test"), .null])) =
      .ok (ascii "INSERT INTO public.msql_1 (a,b) VALUES(2, 'test');") := by decide
  have hlisted := insert_text_ok.2 ⟨_, _, _, _, hs, hr, hlists, rfl⟩
  rw [show insertColumns _ = [0, 1] by decide, hwritten] at hlisted
  rw [htext] at h
  rw [← Except.ok.inj hlisted] at h
  revert h
  decide

/-! ## The columns that an UPDATE assigns -/

/-- The cells of a column tell that its value was changed: it became NULL, or it has a text, which
is not the one it had. -/
def CellChanged (newTuple oldTuple : DecodeTupleData) (i : ℕ) : Prop :=
  if newTuple.isNullCell i then ¬ oldTuple.isNullCell i
  else if newTuple.isUnchangedCell i then False
  else oldTuple.isNullCell i ∨ ¬ oldTuple.isUnchangedCell i ∧
    ∃ new ∈ newTuple.svalues i, ∃ old ∈ oldTuple.svalues i, new ≠ old

section
variable (msg : AliPgDecodeMessage)

/-- An accepted update takes the whole old row for its key. -/
def FullRowMode : Prop :=
  msg.hasKeyOrOld = true ∧ msg.oldtuple.natt ≠ 0 ∧
    msg.natt = msg.newtuple.natt ∧ msg.natt = msg.oldtuple.natt

/-- There is a column to assign: in the full-row mode one that was changed, with an unchanged key
one outside the key, and with a changed key any. -/
def ColumnToAssign : Prop :=
  if msg.kNatt = 0 then
    ∃ i < msg.newtuple.natt.toNat, msg.live i ∧ CellChanged msg.newtuple msg.oldtuple i
  else if msg.oldtuple.natt = 0 then
    ∃ i < msg.newtuple.natt.toNat, msg.live i ∧ ¬ (0 < msg.kNatt ∧ msg.isKey i)
  else ∃ i < msg.newtuple.natt.toNat, msg.live i

/-- The appended text is nothing, or the UPDATE of the message with an assignment at least. -/
def AssignsOrNothing (text : Bytes) : Prop :=
  text = [] ∨ ∃ set conditions, updateStmt msg = some (.update set conditions) ∧
    (RowStmt.update set conditions).text msg = .ok text ∧ set ≠ []

end

section
variable {msg : AliPgDecodeMessage}

theorem fullRowChange_iff {newTuple oldTuple : DecodeTupleData} {i : ℕ} :
    fullRowChange ⟨fun _ => false, oldTuple.isNullCell, oldTuple.isUnchangedCell⟩
      newTuple oldTuple i ↔ CellChanged newTuple oldTuple i := by
  rw [fullRowChange, CellChanged]
  by_cases hnull : newTuple.isNullCell i
  · by_cases hold : oldTuple.isNullCell i <;> simp [hnull, hold]
  by_cases hext : newTuple.isUnchangedCell i
  · by_cases hold : oldTuple.isNullCell i <;> simp [hnull, hext, hold]
  by_cases hold : oldTuple.isNullCell i
  · simp [hnull, hext, hold]
  by_cases huold : oldTuple.isUnchangedCell i
  · simp [hnull, hext, hold, huold]
  rcases newTuple.svalues i with _ | new <;> rcases oldTuple.svalues i with _ | old <;>
    simp [hnull, hext, hold, huold]

theorem columnChanged_iff_cells {i : ℕ} :
    columnChanged msg msg.newtuple msg.oldtuple i ↔
      msg.live i ∧ CellChanged msg.newtuple msg.oldtuple i := by
  rw [columnChanged, Bool.and_eq_true, fullRowChange_iff]

theorem selected_ne_nil_iff {tuple : DecodeTupleData} {sel : ℕ → Bool} {n : ℕ} :
    selected tuple sel n 0 ≠ [] ↔ ∃ i < n, sel i := by
  rw [← List.length_pos_iff_ne_nil, List.length_pos_iff_exists_mem]
  constructor
  · rintro ⟨c, hc⟩
    obtain ⟨-, hlt, hsel, -⟩ := mem_selected.1 hc
    exact ⟨c.1, by omega, hsel⟩
  · rintro ⟨i, hi, hsel⟩
    exact ⟨(i, tuple.cell i), mem_selected.2 ⟨Nat.zero_le i, by omega, hsel, rfl⟩⟩

/-- **An UPDATE assigns a column** if and only if there is one to assign. -/
theorem set_ne_nil_iff {set conditions : List ColumnCell}
    (h : updateStmt msg = some (.update set conditions)) : set ≠ [] ↔ ColumnToAssign msg := by
  dsimp only [updateStmt] at h
  rw [ColumnToAssign]
  split_ifs at h ⊢ with hk hold hw ho
  · cases h
    simp only [selected_ne_nil_iff, columnChanged_iff_cells]
  · cases h
    rw [selected_ne_nil_iff]
    refine exists_congr fun i => and_congr_right ?_
    intro _
    simp only [Bool.and_eq_true, Bool.not_eq_true', ← Bool.not_eq_true, decide_eq_true_eq, gt_iff_lt]
  · cases h
    exact selected_ne_nil_iff

theorem updateStmt_eq_none : updateStmt msg = none ↔ msg.kNatt = 0 ∧ ¬ FullRowMode msg := by
  dsimp only [updateStmt]
  rw [FullRowMode]
  split_ifs with hk hold hw ho
  · simp only [true_iff]
    refine ⟨hk, ?_⟩
    rintro ⟨hhas, hn, -⟩
    rcases hold with hold | hold
    · exact absurd hold (by simp [hhas])
    · exact hn hold
  · simp only [false_iff]
    rintro ⟨-, h⟩
    obtain ⟨hhas, hn⟩ := not_or.1 hold
    exact h ⟨by simpa using hhas, hn, hw⟩
  · simp only [true_iff]
    exact ⟨hk, fun h => hw h.2.2⟩
  · simp [hk]
  · simp [hk]

/-- The statement of an UPDATE is an UPDATE. -/
theorem updateStmt_update {stmt : RowStmt} (h : updateStmt msg = some stmt) :
    ∃ set conditions, stmt = .update set conditions := by
  dsimp only [updateStmt] at h
  split_ifs at h <;> cases h <;> exact ⟨_, _, rfl⟩

/-- **What is appended for an UPDATE** assigns a column, or is nothing, if and only if the update
is not accepted or there is a column to assign. -/
theorem assignsOrNothing_iff {text : Bytes} (h : appendUpdateStatement msg = .ok text) :
    AssignsOrNothing msg text ↔
      (msg.kNatt = 0 ∧ ¬ FullRowMode msg) ∨ ColumnToAssign msg := by
  rw [← updateStmt_eq_none]
  rcases hs : updateStmt msg with _ | stmt
  · rw [appendUpdateStatement_none hs] at h
    cases h
    exact iff_of_true (Or.inl rfl) (Or.inl rfl)
  obtain ⟨set, conditions, rfl⟩ := updateStmt_update hs
  have htext : (RowStmt.update set conditions).text msg = .ok text :=
    (appendUpdateStatement_eq (keysReadable_of_update h) hs).symm.trans h
  rw [or_iff_right (by simp), ← set_ne_nil_iff hs]
  constructor
  · rintro (rfl | ⟨set', conditions', hs', -, hne⟩)
    · exact absurd rfl (@SqlStmt.text_ne_nil msg (.row (.update set conditions)) [] htext)
    · rw [hs] at hs'
      cases hs'
      exact hne
  · intro hne
    exact Or.inr ⟨set, conditions, hs, htext, hne⟩

end

/-- A full-row update of `e`. -/
def fullRowE (old new : Datum) : AliPgDecodeMessage :=
  changeMessage (fun _ => false) tableE (.update (some (rowE old)) (rowE new))

theorem assignsOrNothing_fullRowE :
    AssignsOrNothing (fullRowE .null (.value (lit "test")))
      (ascii "UPDATE test_case.e  SET b='test' WHERE a=1 AND b=null;") := by
  refine (assignsOrNothing_iff (by decide)).2 (Or.inr ?_)
  rw [ColumnToAssign, if_pos (by decide)]
  refine ⟨1, by decide, by decide, ?_⟩
  rw [CellChanged, if_neg (by decide), if_neg (by decide)]
  exact Or.inl (by decide)

/-- An update that changes no column is logged, and its UPDATE has no assignments. -/
theorem emptySet_fullRowE :
    appendUpdateStatement (fullRowE (.value (lit "test")) (.value (lit "test"))) =
      .ok (ascii "UPDATE test_case.e  SET  WHERE a=1 AND b='test';") ∧
    ¬ AssignsOrNothing (fullRowE (.value (lit "test")) (.value (lit "test")))
      (ascii "UPDATE test_case.e  SET  WHERE a=1 AND b='test';") := by
  refine ⟨by decide, ?_⟩
  rintro (h | ⟨set, conditions, hs, -, hne⟩)
  · revert h
    decide
  · have hstmt : updateStmt (fullRowE (.value (lit "test")) (.value (lit "test"))) =
        some (.update [] [(0, .value (ascii "1")), (1, .value (ascii "test"))]) := by decide
    rw [hstmt] at hs
    cases hs
    exact hne rfl

end RdsDbsync
