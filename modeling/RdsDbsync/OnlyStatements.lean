/-
  Only real statements reach the queue: for which messages the generator writes one
  complete statement, and which rows the receive thread stores.

  `onlyStatements_iff`: the generator does what its return code says exactly for the
  messages it rejects and for those that are `Generable`; the thread, which does not look
  at the code, stores complete statements only while every message that it decodes is
  accepted and generable.
-/
import RdsDbsync.FeedbackOrder
import RdsDbsync.Rows

namespace RdsDbsync

open Bytes

/-! ## Statements -/

section
variable (msg : AliPgDecodeMessage)

/-- The value of a column in an INSERT. -/
def insertValue (i : ℕ) : Except Fault Bytes :=
  if msg.newtuple.isNullCell i ∨ msg.newtuple.isUnchangedCell i then .ok (ascii "null")
  else quoteLiteralLocal (msg.newtuple.svalues i) (msg.atttype i)

/-- The statements that are made of a message. -/
inductive SqlStmt where
  | begin
  | commit
  | insert (columns : List ℕ)
  | row (stmt : RowStmt)

namespace SqlStmt

/-- The statement as SQL text. -/
def text : SqlStmt → Except Fault Bytes
  | begin => .ok (ascii "begin;")
  | commit => .ok (ascii "commit;")
  | insert columns => do
    let values ← columns.mapM (insertValue msg)
    let schemaname ← str msg.schemaname
    let relname ← str msg.relname
    let names ← columns.mapM fun i => str (msg.attname i)
    .ok (ascii "INSERT INTO " ++ schemaname ++ ascii "." ++ relname ++ ascii " " ++
      (ascii "(" ++ joinItems (ascii ",") true names ++ ascii ") ") ++
      (ascii "VALUES(" ++ joinItems (ascii ", ") true values ++ ascii ");"))
  | row stmt => stmt.text msg

/-- Its lists are not empty. -/
def Complete : SqlStmt → Prop
  | begin | commit => True
  | insert columns => columns ≠ []
  | row (.update set conditions) => set ≠ [] ∧ conditions ≠ []
  | row (.delete conditions) => conditions ≠ []

instance : ∀ stmt : SqlStmt, Decidable stmt.Complete
  | begin | commit => inferInstanceAs (Decidable True)
  | insert _ => inferInstanceAs (Decidable (_ ≠ _))
  | row (.update _ _) => inferInstanceAs (Decidable (_ ∧ _))
  | row (.delete _) => inferInstanceAs (Decidable (_ ≠ _))

end SqlStmt

/-- The live columns of the new tuple. -/
def insertColumns : List ℕ := (List.range msg.newtuple.natt.toNat).filter msg.live

/-- The statement that a message asks for, if it is accepted. -/
def sqlStmt : Option SqlStmt :=
  match msg.type with
  | none => none
  | some .begin => some .begin
  | some .commit => some .commit
  | some .insert =>
    if checktuple msg msg.type msg.newtuple msg.oldtuple ≠ 0 then none
    else some (.insert (insertColumns msg))
  | some .update | some .delete => (rowStmt msg).map .row

/-- The one complete statement that the message asks for. -/
def Asked (text : Bytes) : Prop :=
  text ≠ [] ∧ ∃ stmt, sqlStmt msg = some stmt ∧ stmt.Complete ∧ stmt.text msg = .ok text

/-- **The return code tells what is appended**: one complete statement, or nothing. -/
def OneStatement : Prop :=
  ∃ rc text, outPutTupleToSql msg = .ok (rc, text) ∧
    (rc = 0 ∧ Asked msg text ∨ rc ≠ 0 ∧ text = [])

/-- A row that is the complete statement of a message. -/
def StoredStatement (row : Bytes) : Prop :=
  ∃ msg, Asked msg row ∧ outPutTupleToSql msg = .ok (0, row)

/-! ## When there is one -/

/-- The cell can be written in an INSERT. -/
def Insertable (i : ℕ) : Prop :=
  (msg.newtuple.isNullCell i ∨ msg.newtuple.isUnchangedCell i) ∨
    ∃ type ∈ msg.atttype i, ∃ t ∈ msg.newtuple.svalues i, Quotable type t

instance (i : ℕ) : Decidable (Insertable msg i) :=
  inferInstanceAs (Decidable (_ ∨ ∃ type ∈ msg.atttype i, ∃ t ∈ msg.newtuple.svalues i, _))

/-- The cell can be written in a SET or WHERE clause. -/
def Writable (c : ColumnCell) : Prop :=
  c.2 = .null ∨ ∃ type ∈ msg.atttype c.1, c.2.Printable type

instance (c : ColumnCell) : Decidable (Writable msg c) :=
  inferInstanceAs (Decidable (_ ∨ ∃ type ∈ msg.atttype c.1, _))

/-- An INSERT: the last column is live, and every live cell can be written. -/
def InsertGenerable : Prop :=
  msg.Named ∧ 0 < msg.newtuple.natt ∧ msg.live (msg.newtuple.natt.toNat - 1) ∧
    ∀ i ∈ insertColumns msg, Insertable msg i

instance : Decidable (InsertGenerable msg) := inferInstanceAs (Decidable (_ ∧ _ ∧ _ ∧ _))

/-- An UPDATE or DELETE: it identifies its row, changes a column, and all that it needs of the
message is there. -/
def RowGenerable : Prop :=
  msg.Named ∧ msg.KeysReadable (conditionNatt msg) ∧
    ∃ stmt ∈ rowStmt msg, (SqlStmt.row stmt).Complete ∧
      ∀ c ∈ stmt.conditions ++ stmt.set, Writable msg c

instance decidableIsOk {α : Type} : ∀ x : Except Fault α, Decidable (∃ a, x = .ok a)
  | .ok a => .isTrue ⟨a, rfl⟩
  | .error _ => .isFalse nofun

instance (n : ℕ) : Decidable (msg.KeysReadable n) :=
  inferInstanceAs (Decidable (_ → ∀ i < n, msg.live i → ∃ b, isKeyColumn msg (msg.attname i) = .ok b))

instance : Decidable (RowGenerable msg) :=
  inferInstanceAs (Decidable (_ ∧ _ ∧ ∃ stmt ∈ rowStmt msg, (SqlStmt.row stmt).Complete ∧
    ∀ c ∈ stmt.conditions ++ stmt.set, Writable msg c))

/-- A message of which one complete statement can be made. -/
def Generable : Prop :=
  match msg.type with
  | none => False
  | some .begin | some .commit => True
  | some .insert => InsertGenerable msg
  | some .update | some .delete => RowGenerable msg

instance : Decidable (Generable msg) :=
  match h : msg.type with
  | none => .isFalse (by rw [Generable, h]; exact id)
  | some .begin => .isTrue (by rw [Generable, h]; trivial)
  | some .commit => .isTrue (by rw [Generable, h]; trivial)
  | some .insert => decidable_of_iff (InsertGenerable msg) (by rw [Generable, h])
  | some .update => decidable_of_iff (RowGenerable msg) (by rw [Generable, h])
  | some .delete => decidable_of_iff (RowGenerable msg) (by rw [Generable, h])

end

/-! ## Lists -/

section
variable {α : Type}

theorem mapM_ok {f : α → Except Fault Bytes} {l : List α} :
    (∃ ts, l.mapM f = .ok ts) ↔ ∀ a ∈ l, ∃ t, f a = .ok t := by
  simp only [mapM_eq_ok_iff]
  exact exists_forall₂_iff

/-- A loop that ends well did so for every column. -/
theorem appendItems_ok {sep : Bytes} {item : ℕ → Except Fault (Option Bytes)} {n i : ℕ}
    {first : Bool} {text : Bytes} (h : appendItems sep item n i first = .ok text) :
    ∀ j, i ≤ j → j < i + n → ∃ r, item j = .ok r := by
  induction n generalizing i first text with
  | zero =>
    intro j h1 h2
    omega
  | succ n ih =>
    rw [appendItems] at h
    rcases hi : item i with e | r
    · rw [hi] at h
      cases h
    · have hrest : ∃ first text, appendItems sep item n (i + 1) first = .ok text := by
        rw [hi, ok_bind] at h
        rcases r with _ | t
        · exact ⟨_, _, h⟩
        · rcases hr : appendItems sep item n (i + 1) false with e | rest
          · rw [hr] at h
            cases h
          · exact ⟨_, _, hr⟩
      obtain ⟨first, text, hrest⟩ := hrest
      intro j h1 h2
      rcases Nat.eq_or_lt_of_le h1 with rfl | h1
      · exact ⟨r, hi⟩
      · exact ih hrest j h1 (by omega)

end

/-! ## UPDATE and DELETE -/

section
variable {msg : AliPgDecodeMessage}

/-- The entries of a statement are live columns. -/
theorem live_of_rowStmt {stmt : RowStmt} (hs : rowStmt msg = some stmt) :
    ∀ c ∈ stmt.conditions ++ stmt.set, msg.live c.1 := by
  have hlive : ∀ {tuple sel n} {c : ColumnCell}, c ∈ selected tuple sel n 0 →
      (∀ i, sel i → msg.live i) → msg.live c.1 :=
    fun hc hsel => hsel _ (mem_selected.1 hc).2.2.1
  have hconstrained : ∀ i, msg.constrained i → msg.live i :=
    fun i h => (Bool.and_eq_true_iff.1 h).1
  intro c hc
  rw [rowStmt] at hs
  split_ifs at hs
  rcases ht : msg.type with _ | kind
  · rw [ht] at hs
    cases hs
  cases kind <;> rw [ht] at hs <;> try cases hs
  · dsimp only [updateStmt] at hs
    split_ifs at hs <;> cases hs <;> rcases List.mem_append.1 hc with hc | hc
    · exact hlive hc fun i h => h
    · exact hlive hc fun i h => (Bool.and_eq_true_iff.1 h).1
    · exact hlive hc hconstrained
    · exact hlive hc fun i h => (Bool.and_eq_true_iff.1 h).1
    · exact hlive hc hconstrained
    · exact hlive hc fun i h => h
  · rcases List.mem_append.1 hc with hc | hc
    · exact hlive hc hconstrained
    · cases hc

theorem writable_iff {c : ColumnCell} (hl : msg.live c.1) :
    (∃ t, ColumnCell.text msg c = .ok t) ↔ Writable msg c := by
  obtain ⟨name, hname⟩ := Option.isSome_iff_exists.1 hl
  rcases htype : msg.atttype c.1 with _ | type
  · rw [ColumnCell.text, hname, Writable, htype]
    by_cases hnull : c.2 = .null
    · simp [str, hnull]
    · simp [str, hnull, quoteLiteralLocal]
  · rw [ColumnCell.text_ok hname htype, Writable, htype]
    rcases c with ⟨i, _ | _ | t⟩ <;> simp [Cell.Printable]

/-- A key entry is written only if the key names that it needs are there. -/
theorem keyItem_readable {tuple : DecodeTupleData} {j : ℕ} (hl : msg.live j)
    (h : ∃ r, keyItem msg tuple j = .ok r) : ∃ b, isKeyColumn msg (msg.attname j) = .ok b := by
  obtain ⟨r, h⟩ := h
  rw [keyItem, isNone_attname, hl] at h
  obtain ⟨b, hb, -⟩ := bind_eq_ok h
  exact ⟨b, hb⟩

/-- The key names are there if the generator comes to the end of an UPDATE. -/
theorem keysReadable_of_update {text : Bytes} (h : appendUpdateStatement msg = .ok text) :
    msg.KeysReadable
      (if msg.oldtuple.natt = 0 then msg.newtuple.natt.toNat else msg.oldtuple.natt.toNat) := by
  intro hk i hi hl
  rw [appendUpdateStatement, if_neg hk.ne'] at h
  by_cases ho : msg.oldtuple.natt = 0
  · rw [if_pos ho] at h hi
    obtain ⟨head, -, h⟩ := bind_eq_ok h
    obtain ⟨clauses, h, -⟩ := bind_eq_ok h
    obtain ⟨conds, h, -⟩ := bind_eq_ok h
    exact keyItem_readable hl (appendItems_ok h i (Nat.zero_le i) (by omega))
  · rw [if_neg ho] at h hi
    obtain ⟨head, -, h⟩ := bind_eq_ok h
    obtain ⟨clauses, h, -⟩ := bind_eq_ok h
    obtain ⟨conds, h, -⟩ := bind_eq_ok h
    exact keyItem_readable hl (appendItems_ok h i (Nat.zero_le i) (by omega))

/-- **The key names are there** if the generator comes to an end. -/
theorem keysReadable_of_ok {rc : ℕ} {text : Bytes}
    (hc : checktuple msg msg.type msg.newtuple msg.oldtuple = 0)
    (ht : msg.type = some .update ∨ msg.type = some .delete)
    (h : outPutTupleToSql msg = .ok (rc, text)) : msg.KeysReadable (conditionNatt msg) := by
  rw [outPutTupleToSql, if_neg (not_not.2 hc)] at h
  rcases ht with ht | ht <;> simp only [ht, conditionNatt, true_and] at h ⊢
  · obtain ⟨text', h, -⟩ := bind_eq_ok h
    exact keysReadable_of_update h
  · intro hk i hi hl
    rw [if_neg fun h => by cases h.1] at hi
    obtain ⟨conds, h, -⟩ := bind_eq_ok h
    obtain ⟨items, h, -⟩ := bind_eq_ok h
    exact keyItem_readable hl (appendItems_ok h i (Nat.zero_le i) (by omega))

/-- A message that passes the check is not rejected later. -/
theorem rc_eq_zero {rc : ℕ} {text : Bytes}
    (hc : checktuple msg msg.type msg.newtuple msg.oldtuple = 0)
    (h : outPutTupleToSql msg = .ok (rc, text)) : rc = 0 := by
  rw [outPutTupleToSql, if_neg (not_not.2 hc)] at h
  rcases ht : msg.type with _ | kind
  · rw [ht] at h
    cases h
  cases kind <;> rw [ht] at h
  · cases h
    rfl
  · cases h
    rfl
  · obtain ⟨values, -, h⟩ := bind_eq_ok h
    obtain ⟨schemaname, -, h⟩ := bind_eq_ok h
    obtain ⟨relname, -, h⟩ := bind_eq_ok h
    cases h
    rfl
  · obtain ⟨text, -, h⟩ := bind_eq_ok h
    cases h
    rfl
  · obtain ⟨conds, -, h⟩ := bind_eq_ok h
    obtain ⟨schemaname, -, h⟩ := bind_eq_ok h
    obtain ⟨relname, -, h⟩ := bind_eq_ok h
    cases h
    rfl

/-- No statement has an empty text. -/
theorem SqlStmt.text_ne_nil {stmt : SqlStmt} {text : Bytes} (h : stmt.text msg = .ok text) :
    text ≠ [] := by
  have hne : ∀ {word rest : Bytes}, word ≠ [] → word ++ rest ≠ [] :=
    fun hw he => hw (List.append_eq_nil_iff.1 he).1
  have hupdate : ascii "UPDATE " ≠ [] := by decide
  have hdelete : ascii "DELETE FROM " ≠ [] := by decide
  have hinsert : ascii "INSERT INTO " ≠ [] := by decide
  rcases stmt with _ | _ | columns | ⟨set, conditions⟩ | conditions
  · cases h
    decide
  · cases h
    decide
  · obtain ⟨values, -, h⟩ := bind_eq_ok h
    obtain ⟨schemaname, -, h⟩ := bind_eq_ok h
    obtain ⟨relname, -, h⟩ := bind_eq_ok h
    obtain ⟨names, -, h⟩ := bind_eq_ok h
    cases h
    simp only [List.append_assoc]
    exact hne hinsert
  · obtain ⟨schemaname, -, h⟩ := bind_eq_ok h
    obtain ⟨relname, -, h⟩ := bind_eq_ok h
    obtain ⟨clauses, -, h⟩ := bind_eq_ok h
    cases h
    simp only [List.append_assoc]
    exact hne hupdate
  · obtain ⟨conds, -, h⟩ := bind_eq_ok h
    obtain ⟨schemaname, -, h⟩ := bind_eq_ok h
    obtain ⟨relname, -, h⟩ := bind_eq_ok h
    cases h
    simp only [List.append_assoc]
    exact hne hdelete

/-- **One statement**, of a message that passes the check. -/
theorem oneStatement_iff_asked (hc : checktuple msg msg.type msg.newtuple msg.oldtuple = 0) :
    OneStatement msg ↔ ∃ stmt text, sqlStmt msg = some stmt ∧ stmt.Complete ∧
      stmt.text msg = .ok text ∧ outPutTupleToSql msg = .ok (0, text) := by
  constructor
  · rintro ⟨rc, text, h, ⟨rfl, -, stmt, hs, hcomplete, htext⟩ | ⟨hrc, -⟩⟩
    · exact ⟨stmt, text, hs, hcomplete, htext, h⟩
    · exact absurd (rc_eq_zero hc h) hrc
  · rintro ⟨stmt, text, hs, hcomplete, htext, h⟩
    exact ⟨0, text, h, Or.inl ⟨rfl, SqlStmt.text_ne_nil htext, stmt, hs, hcomplete, htext⟩⟩

theorem sqlStmt_row (ht : msg.type = some .update ∨ msg.type = some .delete) :
    sqlStmt msg = (rowStmt msg).map .row := by
  rw [sqlStmt]
  rcases ht with ht | ht <;> rw [ht]

/-- **An UPDATE or DELETE.** -/
theorem oneStatement_row (hc : checktuple msg msg.type msg.newtuple msg.oldtuple = 0)
    (ht : msg.type = some .update ∨ msg.type = some .delete) :
    OneStatement msg ↔ RowGenerable msg := by
  rw [oneStatement_iff_asked hc, sqlStmt_row ht]
  constructor
  · rintro ⟨_, text, hs, hcomplete, htext, h⟩
    obtain ⟨stmt, hrow, rfl⟩ := Option.map_eq_some_iff.1 hs
    obtain ⟨hnamed, hentries⟩ := RowStmt.text_isOk.1 ⟨text, htext⟩
    refine ⟨hnamed, keysReadable_of_ok hc ht h, stmt, hrow, hcomplete, fun c hmem => ?_⟩
    exact (writable_iff (live_of_rowStmt hrow c hmem)).1 (hentries c hmem)
  · rintro ⟨hnamed, hkeys, stmt, hs, hcomplete, hwritable⟩
    have htext : ∃ t, stmt.text msg = .ok t :=
      RowStmt.text_isOk.2 ⟨hnamed, fun c hmem =>
        (writable_iff (live_of_rowStmt hs c hmem)).2 (hwritable c hmem)⟩
    obtain ⟨text, htext⟩ := htext
    refine ⟨.row stmt, text, Option.map_eq_some_iff.2 ⟨stmt, hs, rfl⟩, hcomplete, htext, ?_⟩
    rw [outPutTupleToSql_stmt hkeys ht hs, htext, ok_bind]

/-! ## INSERT -/

/-- What follows the columns of `l` in the list of names, if the tuple has `natt` columns. -/
theorem insertColnames_eq (natt : ℤ) (n i : ℕ) :
    insertColnames msg natt n i = ((List.range' i n).filter msg.live).flatMap fun j =>
      (msg.attname j).getD [] ++ if (j : ℤ) ≠ natt - 1 then ascii "," else [] := by
  induction n generalizing i with
  | zero => rfl
  | succ n ih =>
    rw [insertColnames, List.range'_succ]
    rcases hn : msg.attname i with _ | name
    · have hl : ¬ msg.live i := by simp [AliPgDecodeMessage.live, hn]
      rw [List.filter_cons_of_neg hl]
      exact ih (i + 1)
    · have hl : msg.live i := by simp [AliPgDecodeMessage.live, hn]
      rw [List.filter_cons_of_pos hl, List.flatMap_cons, hn, ih (i + 1)]
      rfl

theorem joinItems_concat (sep : Bytes) (first : Bool) (ts : List Bytes) (t : Bytes) :
    joinItems sep first (ts ++ [t]) =
      (if first then [] else sep) ++ ts.flatMap (fun u => u ++ sep) ++ t := by
  induction ts generalizing first with
  | nil => simp [joinItems]
  | cons u ts ih => simp [joinItems, ih]

/-- The name of a column. -/
def columnName (msg : AliPgDecodeMessage) (i : ℕ) : Bytes := (msg.attname i).getD []

/-- **The list of names** is the names with commas between them if the last column is live. -/
theorem insertColnames_of_live {n : ℕ} (hl : msg.live n) :
    insertColnames msg (n + 1 : ℕ) (n + 1) 0 =
      joinItems (ascii ",") true (((List.range (n + 1)).filter msg.live).map (columnName msg)) := by
  rw [insertColnames_eq, ← List.range_eq_range', List.range_succ, List.filter_append,
    List.filter_cons_of_pos hl, List.filter_nil, List.map_append, List.map_singleton,
    joinItems_concat, List.flatMap_append, if_pos rfl, List.nil_append, List.flatMap_map]
  have hlast : ¬ (n : ℤ) ≠ ((n + 1 : ℕ) : ℤ) - 1 := by omega
  rw [List.flatMap_singleton, if_neg hlast, List.append_nil]
  refine congrArg (fun l => l ++ columnName msg n) (List.flatMap_congr ?_)
  intro j hj
  have hlt : j < n := List.mem_range.1 (List.mem_of_mem_filter hj)
  have hne : (j : ℤ) ≠ ((n + 1 : ℕ) : ℤ) - 1 := by omega
  rw [if_pos hne, columnName]

/-- If the last column is dropped, there is a comma too many. -/
theorem insertColnames_of_dropped {n : ℕ} (hl : ¬ msg.live n)
    (hne : (List.range (n + 1)).filter msg.live ≠ []) :
    insertColnames msg (n + 1 : ℕ) (n + 1) 0 =
      joinItems (ascii ",") true (((List.range (n + 1)).filter msg.live).map (columnName msg)) ++
        ascii "," := by
  rw [List.range_succ, List.filter_append, List.filter_cons_of_neg hl, List.filter_nil,
    List.append_nil] at hne ⊢
  have htext : insertColnames msg (n + 1 : ℕ) (n + 1) 0 =
      ((List.range n).filter msg.live).flatMap fun j => columnName msg j ++ ascii "," := by
    rw [insertColnames_eq, ← List.range_eq_range', List.range_succ, List.filter_append,
      List.filter_cons_of_neg hl, List.filter_nil, List.append_nil]
    refine List.flatMap_congr ?_
    intro j hj
    have hlt : j < n := List.mem_range.1 (List.mem_of_mem_filter hj)
    have hne : (j : ℤ) ≠ ((n + 1 : ℕ) : ℤ) - 1 := by omega
    rw [if_pos hne, columnName]
  rw [htext]
  generalize (List.range n).filter msg.live = l at hne
  obtain ⟨l, j, rfl⟩ := (List.eq_nil_or_concat' l).resolve_left hne
  rw [List.map_append, List.map_singleton, joinItems_concat, List.flatMap_append, if_pos rfl,
    List.nil_append, List.flatMap_map, List.flatMap_singleton, List.append_assoc]

theorem quoteLiteralLocal_isOk {raw type : Option Bytes} :
    (∃ t, quoteLiteralLocal raw type = .ok t) ↔ ∃ ty ∈ type, ∃ v ∈ raw, Quotable ty v := by
  rcases type with _ | ty
  · simp [quoteLiteralLocal, str]
  rcases raw with _ | v
  · simp [quoteLiteralLocal, str]
  simp only [quoteLiteralLocal, str, ok_bind, Option.mem_def, Option.some.injEq, exists_eq_left',
    Quotable]
  by_cases hb : ty ∈ bareTypes
  · simp [hb]
  by_cases hq : ty ∈ plainQuotedTypes
  · simp [hb, hq]
  by_cases hlen : MaxAllocSize ≤ v.length * 2 + 3
  · simp [hb, hq, hlen, not_lt.2 hlen]
  · simp [hb, hq, hlen, not_le.1 hlen]

theorem insertValue_isOk {i : ℕ} : (∃ t, insertValue msg i = .ok t) ↔ Insertable msg i := by
  rw [insertValue, Insertable]
  by_cases hnull : msg.newtuple.isNullCell i ∨ msg.newtuple.isUnchangedCell i
  · rw [if_pos hnull]
    exact ⟨fun _ => Or.inl hnull, fun _ => ⟨_, rfl⟩⟩
  · rw [if_neg hnull, quoteLiteralLocal_isOk]
    exact ⟨Or.inr, fun h => h.resolve_left hnull⟩

theorem appendInsertValues_eq :
    appendInsertValues msg msg.newtuple =
      ((insertColumns msg).mapM (insertValue msg) >>= fun values =>
        .ok (ascii "VALUES(" ++ joinItems (ascii ", ") true values ++ ascii ");")) := by
  rw [appendInsertValues, appendItems_mapM (ascii ", ") msg.live (insertValue msg) _ 0 true ?_,
    insertColumns, List.range_eq_range', bind_assoc]
  · rfl
  · intro i _ _
    rw [isNone_attname, insertValue]
    by_cases hl : msg.live i
    · by_cases hnull : msg.newtuple.isNullCell i
      · simp [hl, hnull]
      by_cases hext : msg.newtuple.isUnchangedCell i
      · simp [hl, hnull, hext]
      · simp [hl, hnull, hext]
    · simp [hl]

theorem mapM_eq_map {f : ℕ → Except Fault Bytes} {g : ℕ → Bytes} {l : List ℕ}
    (h : ∀ i ∈ l, f i = .ok (g i)) : l.mapM f = .ok (l.map g) := by
  rw [mapM_eq_ok_iff, List.forall₂_map_right_iff]
  exact List.forall₂_same.2 h

theorem names_insertColumns :
    ((insertColumns msg).mapM fun i => str (msg.attname i)) =
      .ok ((insertColumns msg).map (columnName msg)) := by
  refine mapM_eq_map fun i hi => ?_
  have hl : msg.live i := (List.mem_filter.1 hi).2
  obtain ⟨name, hname⟩ := Option.isSome_iff_exists.1 hl
  rw [columnName, hname]
  rfl

theorem sqlStmt_insert (hc : checktuple msg msg.type msg.newtuple msg.oldtuple = 0)
    (ht : msg.type = some .insert) : sqlStmt msg = some (.insert (insertColumns msg)) := by
  rw [sqlStmt, if_neg (not_not.2 hc), ht]

/-- The two texts of an INSERT differ in the list of names only. -/
theorem insert_text_iff (hc : checktuple msg msg.type msg.newtuple msg.oldtuple = 0)
    (ht : msg.type = some .insert) :
    (∃ text, (SqlStmt.insert (insertColumns msg)).text msg = .ok text ∧
        outPutTupleToSql msg = .ok (0, text)) ↔
      msg.Named ∧ (∀ i ∈ insertColumns msg, Insertable msg i) ∧
        insertColnames msg msg.newtuple.natt msg.newtuple.natt.toNat 0 =
          joinItems (ascii ",") true ((insertColumns msg).map (columnName msg)) := by
  have hvalues : (∃ values, (insertColumns msg).mapM (insertValue msg) = .ok values) ↔
      ∀ i ∈ insertColumns msg, Insertable msg i := by
    simp only [mapM_ok, insertValue_isOk]
  rw [← hvalues, AliPgDecodeMessage.Named, outPutTupleToSql, if_neg (not_not.2 hc), ht,
    SqlStmt.text, names_insertColumns]
  dsimp only
  rw [appendInsertValues_eq]
  rcases (insertColumns msg).mapM (insertValue msg) with e | values
  · simp
  rcases msg.schemaname with _ | schemaname
  · simp [str]
  rcases msg.relname with _ | relname
  · simp [str]
  simp only [str, ok_bind, Option.isSome_some, true_and, and_self, Except.ok.injEq,
    exists_eq_left', Prod.mk.injEq, exists_eq', appendInsertColname, List.append_assoc,
    List.append_cancel_left_eq, List.append_cancel_right_eq]

/-- **The list of names is complete** if the last column is live, and only then. -/
theorem insertColnames_iff :
    (insertColumns msg ≠ [] ∧ insertColnames msg msg.newtuple.natt msg.newtuple.natt.toNat 0 =
        joinItems (ascii ",") true ((insertColumns msg).map (columnName msg))) ↔
      0 < msg.newtuple.natt ∧ msg.live (msg.newtuple.natt.toNat - 1) := by
  rw [insertColumns]
  rcases Nat.eq_zero_or_pos msg.newtuple.natt.toNat with hzero | hpos
  · rw [hzero]
    refine ⟨fun h => absurd rfl h.1, fun h => ?_⟩
    omega
  obtain ⟨n, hn⟩ := Nat.exists_eq_add_of_lt hpos
  have hn : msg.newtuple.natt.toNat = n + 1 := by omega
  have hnatt : msg.newtuple.natt = (n + 1 : ℕ) := by omega
  rw [hn, hnatt, Nat.add_sub_cancel]
  by_cases hl : msg.live n
  · have hmem : n ∈ (List.range (n + 1)).filter msg.live :=
      List.mem_filter.2 ⟨List.mem_range.2 (Nat.lt_succ_self n), hl⟩
    exact ⟨fun _ => ⟨by omega, hl⟩,
      fun _ => ⟨List.ne_nil_of_mem hmem, insertColnames_of_live hl⟩⟩
  · refine ⟨fun ⟨hne, h⟩ => ?_, fun h => absurd h.2 hl⟩
    -- the text is longer by the comma
    rw [insertColnames_of_dropped hl hne] at h
    have hlen := congrArg List.length h
    rw [List.length_append] at hlen
    exact absurd hlen (Nat.ne_of_gt (Nat.lt_add_of_pos_right (by decide)))

/-- **An INSERT.** -/
theorem oneStatement_insert (hc : checktuple msg msg.type msg.newtuple msg.oldtuple = 0)
    (ht : msg.type = some .insert) : OneStatement msg ↔ InsertGenerable msg := by
  rw [oneStatement_iff_asked hc, sqlStmt_insert hc ht, InsertGenerable]
  constructor
  · rintro ⟨stmt, text, hs, hcomplete, htext, h⟩
    obtain rfl := Option.some.inj hs
    obtain ⟨hnamed, hcells, hnames⟩ := (insert_text_iff hc ht).1 ⟨text, htext, h⟩
    obtain ⟨hpos, hl⟩ := insertColnames_iff.1 ⟨hcomplete, hnames⟩
    exact ⟨hnamed, hpos, hl, hcells⟩
  · rintro ⟨hnamed, hpos, hl, hcells⟩
    obtain ⟨hcomplete, hnames⟩ := insertColnames_iff.2 ⟨hpos, hl⟩
    obtain ⟨text, htext, h⟩ := (insert_text_iff hc ht).2 ⟨hnamed, hcells, hnames⟩
    exact ⟨_, text, rfl, hcomplete, htext, h⟩

/-- **One statement**, or none and a return code that says so. -/
theorem oneStatement_generable : OneStatement msg ↔
    checktuple msg msg.type msg.newtuple msg.oldtuple ≠ 0 ∨ Generable msg := by
  by_cases hc : checktuple msg msg.type msg.newtuple msg.oldtuple = 0
  · rw [or_iff_right (not_not.2 hc), Generable]
    rcases ht : msg.type with _ | kind
    · refine ⟨?_, nofun⟩
      rintro ⟨rc, text, h, -⟩
      rw [outPutTupleToSql, if_neg (not_not.2 hc), ht] at h
      cases h
    cases kind with
    | begin =>
      refine iff_of_true ((oneStatement_iff_asked hc).2 ⟨.begin, _, ?_, trivial, rfl, ?_⟩) trivial
      · rw [sqlStmt, ht]
      · rw [outPutTupleToSql, if_neg (not_not.2 hc), ht]
    | commit =>
      refine iff_of_true ((oneStatement_iff_asked hc).2 ⟨.commit, _, ?_, trivial, rfl, ?_⟩) trivial
      · rw [sqlStmt, ht]
      · rw [outPutTupleToSql, if_neg (not_not.2 hc), ht]
    | insert => exact oneStatement_insert hc ht
    | update => exact oneStatement_row hc (Or.inl ht)
    | delete => exact oneStatement_row hc (Or.inr ht)
  · refine iff_of_true ⟨1, [], ?_, Or.inr ⟨one_ne_zero, rfl⟩⟩ (Or.inl hc)
    rw [outPutTupleToSql, if_pos hc]

end

/-! ## The receive thread -/

/-- The message that a data frame is decoded to. -/
def Frame.message (f : Frame) : Option AliPgDecodeMessage :=
  let (c, s) := pqGetmsgbyte ⟨f.data, f.stale⟩
  if c = ch 'w' ∧ ¬ f.data.length < 1 + 8 + 8 + 8 + 1 then
    let (_, s) := pqGetmsgint64 s
    let (_, s) := pqGetmsgint64 s
    let (_, s) := pqGetmsgint64 s
    match bdrProcessRemoteAction s {} with
    | .ok (true, _, msg) => some msg
    | _ => none
  else none

theorem execXLogData_message {h : DecoderHandler} {f : Frame} {s : StringInfo}
    {msg : AliPgDecodeMessage} (hlen : ¬ f.data.length < 1 + 8 + 8 + 8 + 1)
    (hm : (execXLogData h f s).1 = .message msg) :
    ∃ s', bdrProcessRemoteAction (pqGetmsgint64 (pqGetmsgint64 (pqGetmsgint64 s).2).2).2 {} =
      .ok (true, s', msg) := by
  rw [execXLogData, if_neg hlen] at hm
  dsimp only at hm
  generalize bdrProcessRemoteAction (pqGetmsgint64 (pqGetmsgint64 (pqGetmsgint64 s).2).2).2 {} =
    result at hm ⊢
  generalize timedFeedback _ f.now f.send = sent at hm
  rcases result with fault | ⟨rc, s', msg'⟩
  · exact FrameResult.noConfusion hm
  · dsimp only at hm
    split_ifs at hm with hrc hsent
    obtain rfl := FrameResult.message.inj hm
    exact ⟨s', by rw [hrc]⟩

/-- A message that is handed to the thread is the one of the frame. -/
theorem execFrame_message {h : DecoderHandler} {f : Frame} {msg : AliPgDecodeMessage}
    (hm : (execFrame h f).1 = .message msg) : f.message = some msg := by
  rcases hget : pqGetmsgbyte ⟨f.data, f.stale⟩ with ⟨c, s⟩
  rw [execFrame, hget] at hm
  rw [Frame.message, hget]
  dsimp only at hm ⊢
  by_cases hk : c = ch 'k'
  · rw [if_pos hk] at hm
    exact absurd hm ((execKeepalive_sends h f).2.2.2 msg)
  rw [if_neg hk] at hm
  by_cases hw : c = ch 'w'
  · rw [if_pos hw] at hm
    by_cases hlen : f.data.length < 1 + 8 + 8 + 8 + 1
    · rw [execXLogData, if_pos hlen] at hm
      exact FrameResult.noConfusion hm
    · obtain ⟨s', hdecoded⟩ := execXLogData_message hlen hm
      rw [if_pos ⟨hw, hlen⟩, hdecoded]
  · rw [if_neg hw] at hm
    exact FrameResult.noConfusion hm

namespace Receiver

variable {r r' : Receiver} {requests : List Request}

/-- What is stored is what the generator has appended, whatever it returns. -/
theorem store_rows {msg : AliPgDecodeMessage} {outcome : LocalOutcome} {row : Bytes}
    (h : row ∈ (r.store msg outcome).db.rows) :
    row ∈ r.db.rows ∨ ∃ rc, outPutTupleToSql msg = .ok (rc, row) := by
  rw [store] at h
  rcases htext : outPutTupleToSql msg with fault | ⟨rc, text⟩
  · rw [htext] at h
    cases fault <;> exact Or.inl h
  rw [htext] at h
  dsimp only at h
  have hdb : (if msg.type = some .begin then r.db.start else r.db).rows = r.db.rows := by
    split_ifs <;> rfl
  generalize (if msg.type = some .begin then r.db.start else r.db) = db at h hdb
  have hinsert : row ∈ (db.insert text).rows →
      row ∈ r.db.rows ∨ ∃ rc', Except.ok (rc, text) = (.ok (rc', row) : Except Fault _) := by
    intro hrow
    rw [TxLog.rows_insert, hdb] at hrow
    rcases List.mem_append.1 hrow with hrow | hrow
    · exact Or.inl hrow
    · rw [List.mem_singleton.1 hrow]
      exact Or.inr ⟨rc, rfl⟩
  split_ifs at h
  · exact Or.inl h
  · exact Or.inl (hdb ▸ h)
  · exact hinsert h
  · exact hinsert (TxLog.rows_commit ▸ h)
  · exact hinsert h

/-- The rows after a step without a frame. -/
theorem QuietStep.rows (h : QuietStep r r' requests) : r'.db.rows ⊆ r.db.rows := by
  cases h with
  | stop => exact TxLog.rows_rollback_subset
  | goto | leave | fed | feedFailed => exact List.Subset.refl _

/-- The rows after a frame: one more at most, what the generator has made of its message. -/
theorem step_frame_rows {f : Frame} {outcome : LocalOutcome}
    (hs : r.step (.frame f outcome) = some (r', requests)) {row : Bytes} (h : row ∈ r'.db.rows) :
    row ∈ r.db.rows ∨ ∃ msg rc, f.message = some msg ∧ outPutTupleToSql msg = .ok (rc, row) := by
  obtain ⟨hc, inRedo, hs⟩ := step_frame hs
  have hmsg := fun msg => @execFrame_message r.handler f msg
  simp only [read] at hs
  rw [if_pos hc] at hs
  generalize execFrame r.handler f = done at hs hmsg
  obtain ⟨result, h', requests'⟩ := done
  rcases result with _ | msg | _ | fault
  · cases hs
    exact Or.inl h
  · cases hs
    rcases store_rows h with h | ⟨rc, h⟩
    · exact Or.inl h
    · exact Or.inr ⟨msg, rc, hmsg msg rfl, h⟩
  · cases hs
    exact Or.inl h
  · cases fault <;> cases hs <;> exact Or.inl h

/-- The step of the thread, without its requests. -/
def next (s : Receiver) (e : Event) : Option Receiver := (s.step e).map Prod.fst

end Receiver

/-- A message that a frame brings is accepted by the check, and a statement can be made of it. -/
def FrameAccepted (_ : Receiver) : Event → Prop
  | .frame f _ => ∀ msg ∈ f.message,
    checktuple msg msg.type msg.newtuple msg.oldtuple = 0 ∧ Generable msg
  | _ => True

instance (r : Receiver) : ∀ e, Decidable (FrameAccepted r e)
  | .frame f _ => inferInstanceAs (Decidable (∀ msg ∈ f.message, _))
  | .connect _ | .timeToAbort | .wake _ _ | .noData _ | .endOfCopy _ | .readFailed =>
    inferInstanceAs (Decidable True)

/-- A row that is stored for an accepted message is its statement. -/
theorem storedStatement_of_generable {msg : AliPgDecodeMessage} {rc : ℕ} {row : Bytes}
    (hc : checktuple msg msg.type msg.newtuple msg.oldtuple = 0) (hg : Generable msg)
    (h : outPutTupleToSql msg = .ok (rc, row)) : StoredStatement row := by
  obtain ⟨stmt, text, hs, hcomplete, htext, h'⟩ :=
    (oneStatement_iff_asked hc).1 (oneStatement_generable.2 (Or.inr hg))
  rw [h'] at h
  cases h
  exact ⟨msg, ⟨SqlStmt.text_ne_nil htext, stmt, hs, hcomplete, htext⟩, h'⟩

/-- **One step of the thread** adds complete statements only. -/
theorem Receiver.next_rows {log : List (List Bytes)} {r r' : Receiver} {e : Event}
    (hI : ∀ row ∈ r.db.rows, row ∈ log.flatten ∨ StoredStatement row) (hok : FrameAccepted r e)
    (h : r.next e = some r') : ∀ row ∈ r'.db.rows, row ∈ log.flatten ∨ StoredStatement row := by
  obtain ⟨⟨r', requests⟩, hs, rfl⟩ := Option.map_eq_some_iff.1 h
  intro row hrow
  rcases e with outcome | _ | ⟨now, send⟩ | select | commandOk | _ | ⟨f, outcome⟩
  case connect => exact hI row ((step_connect hs).1 ▸ hrow)
  case frame =>
    rcases step_frame_rows hs hrow with hrow | ⟨msg, rc, hmsg, htext⟩
    · exact hI row hrow
    · obtain ⟨hc, hg⟩ := hok msg hmsg
      exact Or.inr (storedStatement_of_generable hc hg htext)
  all_goals exact hI row ((quietStep hs trivial).rows hrow)

/-- **Only real statements reach the queue**: the generator writes one and says so exactly for the
messages that are rejected or generable, and the thread, which stores what it finds in the buffer,
stores statements only in a run in which every message is accepted and generable. -/
theorem onlyStatements_iff (log : List (List Bytes)) :
    (∀ msg, OneStatement msg ↔
      checktuple msg msg.type msg.newtuple msg.oldtuple ≠ 0 ∨ Generable msg) ∧
    ∀ es s, StepMachine.Meets Receiver.next FrameAccepted { db := ⟨log, none⟩ } es →
      StepMachine.run Receiver.next { db := ⟨log, none⟩ } es = some s →
      ∀ row ∈ s.db.rows, row ∈ log.flatten ∨ StoredStatement row := by
  refine ⟨fun msg => oneStatement_generable, ?_⟩
  intro es s hm hr
  refine StepMachine.run_invariant (fun _ _ _ hI hok h => Receiver.next_rows hI hok h) ?_ hm hr
  intro row hrow
  rw [TxLog.rows, Option.getD_none, List.append_nil] at hrow
  exact Or.inl hrow

/-- A transaction with one change of the table `e`, for which `row` is generated. -/
def historyE (change : ReorderBufferChange) (row : Bytes)
    (fits : change.Fits (fun _ => false) tableE)
    (generated : ∃ rc, outPutTupleToSql (changeMessage (fun _ => false) tableE change) =
      .ok (rc, row)) : History where
  txns := [(⟨⟨1010, 1020, 0, 7⟩, 1000, 1010, [⟨1005, tableE, change, row, fits, generated⟩], by decide,
    by simp, by decide⟩ : SourceTxn fun _ => false).stream]
  slot := 0
  ordered := List.pairwise_singleton _ _
  slot_le := fun _ _ => Nat.zero_le _

theorem onlyStatements_deleteE :
    ∃ s, StepMachine.run Receiver.next { db := ⟨[], none⟩ }
        (streamRun (historyE (.delete (some (rowE (.value (lit "test")))))
          (ascii "DELETE FROM test_case.e WHERE a=1 AND b='test';") (by decide) ⟨0, by decide⟩)) =
          some s ∧
      s.db.rows = [ascii "begin;", ascii "DELETE FROM test_case.e WHERE a=1 AND b='test';",
        ascii "commit;"] ∧
      ∀ row ∈ s.db.rows, row ∈ [].flatten ∨ StoredStatement row := by
  have hr : (StepMachine.run Receiver.next { db := ⟨[], none⟩ }
      (streamRun (historyE (.delete (some (rowE (.value (lit "test")))))
        (ascii "DELETE FROM test_case.e WHERE a=1 AND b='test';") (by decide)
        ⟨0, by decide⟩))).map (fun s => s.db.rows) =
      some [ascii "begin;", ascii "DELETE FROM test_case.e WHERE a=1 AND b='test';",
        ascii "commit;"] := by decide
  obtain ⟨s, hs, hrows⟩ := Option.map_eq_some_iff.1 hr
  exact ⟨s, hs, hrows, (onlyStatements_iff []).2 _ s (by decide) hs⟩

/-- An UPDATE of `e` when it has no replica identity: no key list and no old tuple. -/
def updateE : ReorderBufferChange := .update none (rowE (.value (lit "test")))

/-- Nothing is appended for it, the return code says that all is well, and the thread stores an
empty row. -/
theorem emptyStatement_updateE :
    outPutTupleToSql (changeMessage (fun _ => false) tableE updateE) = .ok (0, []) ∧
      ¬ OneStatement (changeMessage (fun _ => false) tableE updateE) ∧
      ∃ s, StepMachine.run Receiver.next { db := ⟨[], none⟩ }
          (streamRun (historyE updateE [] (by decide) ⟨0, by decide⟩)) = some s ∧
        s.db.rows = [ascii "begin;", [], ascii "commit;"] ∧ ¬ StoredStatement [] := by
  have he : outPutTupleToSql (changeMessage (fun _ => false) tableE updateE) = .ok (0, []) := by
    decide
  refine ⟨he, ?_, ?_⟩
  · rintro ⟨rc, text, h, ⟨-, hasked⟩ | ⟨hrc, -⟩⟩
    · rw [he] at h
      cases h
      exact hasked.1 rfl
    · rw [he] at h
      cases h
      exact hrc rfl
  · have hr : (StepMachine.run Receiver.next { db := ⟨[], none⟩ }
        (streamRun (historyE updateE [] (by decide) ⟨0, by decide⟩))).map (fun s => s.db.rows) =
        some [ascii "begin;", [], ascii "commit;"] := by decide
    obtain ⟨s, hs, hrows⟩ := Option.map_eq_some_iff.1 hr
    refine ⟨s, hs, hrows, ?_⟩
    rintro ⟨msg, hasked, -⟩
    exact hasked.1 rfl

end RdsDbsync
