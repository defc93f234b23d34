/-
  The statements the generator writes: an UPDATE or DELETE as columns and cells, and the
  proof that the text is its rendering.
-/
import Mathlib.Control.Basic
import RdsDbsync.Generator
import RdsDbsync.Lib.RowSql

namespace RdsDbsync

open Bytes

/-! ## Cells -/

/-- A cell of a decoded tuple. -/
inductive Cell where
  | null
  | unchanged
  | value (t : Bytes)
  deriving DecidableEq

/-- The value of a cell in SQL. -/
def Cell.svalue : Cell → Option Bytes
  | value t => some t
  | _ => none

/-- The cell of a column; a NULL `svalues` entry that is not marked NULL is used as a string. -/
def DecodeTupleData.cell (tuple : DecodeTupleData) (i : ℕ) : Cell :=
  if tuple.isNullCell i then .null
  else match tuple.svalues i with
    | some t => .value t
    | none => .unchanged

/-- A column with a cell. -/
abbrev ColumnCell := ℕ × Cell

variable (msg : AliPgDecodeMessage)

/-- `column=value` -/
def ColumnCell.text (c : ColumnCell) : Except Fault Bytes := do
  let name ← str (msg.attname c.1)
  if c.2 = .null then .ok (name ++ ascii "=" ++ ascii "null")
  else
    let value ← quoteLiteralLocal c.2.svalue (msg.atttype c.1)
    .ok (name ++ ascii "=" ++ value)

theorem appendValues_eq (tuple : DecodeTupleData) (i : ℕ) :
    appendValues msg tuple i =
      (ColumnCell.text msg (i, tuple.cell i) >>= fun t => .ok (t, tuple.isNullCell i)) := by
  unfold appendValues ColumnCell.text DecodeTupleData.cell
  rcases str (msg.attname i) with e | name
  · rfl
  by_cases hn : tuple.isNullCell i
  · simp [hn]
  · rcases hs : tuple.svalues i with _ | t <;>
      rcases hq : quoteLiteralLocal (tuple.svalues i) (msg.atttype i) with e | q <;>
      rw [hs] at hq <;> simp [hn, hq, Cell.svalue]

/-! ## Lists -/

/-- The texts `ts` with `sep` between them, and before them unless they are the first. -/
def joinItems (sep : Bytes) : Bool → List Bytes → Bytes
  | _, [] => []
  | first, t :: ts => (if first then [] else sep) ++ t ++ joinItems sep false ts

/-- The list of `column=value` entries of `cs`. -/
def listText (sep : Bytes) (first : Bool) (cs : List ColumnCell) : Except Fault Bytes := do
  let ts ← cs.mapM (ColumnCell.text msg)
  .ok (joinItems sep first ts)

theorem listText_cons (sep : Bytes) (first : Bool) (c : ColumnCell) (cs : List ColumnCell) :
    listText msg sep first (c :: cs) =
      (ColumnCell.text msg c >>= fun t => listText msg sep false cs >>= fun rest =>
        .ok ((if first then [] else sep) ++ t ++ rest)) := by
  simp only [listText, List.mapM_cons]
  rcases ColumnCell.text msg c with e | t
  · rfl
  rcases cs.mapM (ColumnCell.text msg) with e | ts <;> rfl

/-- The columns from `i` on, `n` of them, that satisfy `sel`, with their cells. -/
def selected (tuple : DecodeTupleData) (sel : ℕ → Bool) (n i : ℕ) : List ColumnCell :=
  ((List.range' i n).filter sel).map fun j => (j, tuple.cell j)

theorem selected_succ (tuple : DecodeTupleData) (sel : ℕ → Bool) (n i : ℕ) :
    selected tuple sel (n + 1) i =
      if sel i then (i, tuple.cell i) :: selected tuple sel n (i + 1)
      else selected tuple sel n (i + 1) := by
  by_cases h : sel i <;> simp [selected, List.range'_succ, h]

theorem mem_selected {tuple : DecodeTupleData} {sel : ℕ → Bool} {n i : ℕ} {c : ColumnCell} :
    c ∈ selected tuple sel n i ↔
      i ≤ c.1 ∧ c.1 < i + n ∧ sel c.1 = true ∧ c.2 = tuple.cell c.1 := by
  simp only [selected, List.mem_map, List.mem_filter, List.mem_range'_1]
  constructor
  · rintro ⟨j, ⟨⟨h1, h2⟩, h3⟩, rfl⟩
    exact ⟨h1, h2, h3, rfl⟩
  · rintro ⟨h1, h2, h3, h4⟩
    exact ⟨c.1, ⟨⟨h1, h2⟩, h3⟩, by rw [← h4]⟩

theorem map_fst_selected (tuple : DecodeTupleData) (sel : ℕ → Bool) (n : ℕ) :
    (selected tuple sel n 0).map Prod.fst = (List.range n).filter sel := by
  simp [selected, List.range_eq_range', Function.comp_def]

/-- **A list loop writes the entries of the columns it selects.** -/
theorem appendItems_mapM (sep : Bytes) (sel : ℕ → Bool) (entry : ℕ → Except Fault Bytes)
    {item : ℕ → Except Fault (Option Bytes)} (n i : ℕ) (first : Bool)
    (h : ∀ j, i ≤ j → j < i + n → item j =
      if sel j then entry j >>= fun t => .ok (some t) else .ok none) :
    appendItems sep item n i first =
      (((List.range' i n).filter sel).mapM entry >>= fun ts => .ok (joinItems sep first ts)) := by
  induction n generalizing i first with
  | zero => rfl
  | succ n ih =>
    have ih := fun first => ih (i + 1) first fun j h1 h2 => h j (by omega) (by omega)
    rw [appendItems, h i le_rfl (by omega), List.range'_succ]
    by_cases hs : sel i
    · rw [if_pos hs, List.filter_cons_of_pos hs, List.mapM_cons]
      rcases entry i with e | t
      · rfl
      · simp only [ok_bind, ih]
        rcases List.mapM entry _ with e | ts <;> rfl
    · rw [if_neg hs, List.filter_cons_of_neg hs]
      exact ih first

theorem appendItems_eq (sep : Bytes) (tuple : DecodeTupleData) (sel : ℕ → Bool)
    {item : ℕ → Except Fault (Option Bytes)} (n i : ℕ) (first : Bool)
    (h : ∀ j, i ≤ j → j < i + n → item j =
      if sel j then ColumnCell.text msg (j, tuple.cell j) >>= fun t => .ok (some t)
      else .ok none) :
    appendItems sep item n i first = listText msg sep first (selected tuple sel n i) := by
  rw [appendItems_mapM sep sel (fun j => ColumnCell.text msg (j, tuple.cell j)) n i first h,
    listText, selected, List.mapM_map]
  rfl

/-! ## Keys -/

namespace AliPgDecodeMessage

/-- The column is live: it has a name. -/
def live (i : ℕ) : Bool := (msg.attname i).isSome

/-- The column's name is in the key list. -/
def isKey (i : ℕ) : Bool :=
  match msg.attname i with
  | none => false
  | some name => (List.range msg.kNatt.toNat).any fun j => msg.kAttname j = some name

/-- A column that a WHERE clause by key constrains. -/
def constrained (i : ℕ) : Bool := msg.live i && (msg.kNatt ≤ 0 || msg.isKey i)

/-- The message has names for its relation and for every entry of its key list. -/
structure Described : Prop where
  schemaname : ∃ t, msg.schemaname = some t
  relname : ∃ t, msg.relname = some t
  kAttname : ∀ j < msg.kNatt.toNat, ∃ k, msg.kAttname j = some k

end AliPgDecodeMessage

variable {msg}

theorem isNone_attname (i : ℕ) : (msg.attname i).isNone = !msg.live i := by
  rw [AliPgDecodeMessage.live]; cases msg.attname i <;> rfl

/-- The answer of the loop is whether one of the key names is the column's. -/
theorem findKeyColumn_of_ok {colname : Bytes} {n j : ℕ} {b : Bool}
    (h : findKeyColumn msg colname n j = .ok b) :
    b = (List.range' j n).any fun k => msg.kAttname k = some colname := by
  induction n generalizing j with
  | zero =>
    cases h
    rfl
  | succ n ih =>
    rw [findKeyColumn] at h
    rw [List.range'_succ, List.any_cons]
    rcases hk : msg.kAttname j with _ | k
    · rw [hk] at h
      cases h
    · rw [hk, str, ok_bind] at h
      by_cases hc : colname = k
      · rw [if_pos hc] at h
        cases h
        simp [hc]
      · rw [if_neg hc] at h
        rw [ih h]
        simp [Ne.symm hc]

theorem isKeyColumn_of_ok {i : ℕ} {b : Bool} (h : isKeyColumn msg (msg.attname i) = .ok b) :
    b = msg.isKey i := by
  unfold AliPgDecodeMessage.isKey
  rcases hn : msg.attname i with _ | name <;> rw [hn] at h
  · cases h
    rfl
  · rw [findKeyColumn_of_ok h]
    simp [List.range_eq_range']

theorem findKeyColumn_described (hd : msg.Described) (colname : Bytes) (n j : ℕ)
    (h : j + n = msg.kNatt.toNat) : ∃ b, findKeyColumn msg colname n j = .ok b := by
  induction n generalizing j with
  | zero => exact ⟨false, rfl⟩
  | succ n ih =>
    obtain ⟨k, hk⟩ := hd.kAttname j (by omega)
    rw [findKeyColumn, hk, str, ok_bind]
    split_ifs
    · exact ⟨true, rfl⟩
    · exact ih (j + 1) (by omega)

theorem isKeyColumn_described (hd : msg.Described) (i : ℕ) :
    ∃ b, isKeyColumn msg (msg.attname i) = .ok b := by
  unfold isKeyColumn
  rcases msg.attname i with _ | name
  · exact ⟨false, rfl⟩
  · exact findKeyColumn_described hd name msg.kNatt.toNat 0 (by omega)

theorem isKeyColumn_eq (hd : msg.Described) (i : ℕ) :
    isKeyColumn msg (msg.attname i) = .ok (msg.isKey i) := by
  obtain ⟨b, hb⟩ := isKeyColumn_described hd i
  rw [hb, isKeyColumn_of_ok hb]

/-- The key names that are compared with the names of the first `n` columns are there. -/
def AliPgDecodeMessage.KeysReadable (msg : AliPgDecodeMessage) (n : ℕ) : Prop :=
  0 < msg.kNatt → ∀ i < n, msg.live i → ∃ b, isKeyColumn msg (msg.attname i) = .ok b

theorem AliPgDecodeMessage.Described.keysReadable (hd : msg.Described) (n : ℕ) :
    msg.KeysReadable n := fun _ i _ _ => isKeyColumn_described hd i

theorem AliPgDecodeMessage.KeysReadable.eq {n : ℕ} (h : msg.KeysReadable n) (hk : 0 < msg.kNatt)
    {i : ℕ} (hi : i < n) (hl : msg.live i) :
    isKeyColumn msg (msg.attname i) = .ok (msg.isKey i) := by
  obtain ⟨b, hb⟩ := h hk i hi hl
  rw [hb, isKeyColumn_of_ok hb]

theorem live_of_isKey {i : ℕ} (h : msg.isKey i) : msg.live i := by
  unfold AliPgDecodeMessage.isKey at h
  unfold AliPgDecodeMessage.live
  rcases hn : msg.attname i with _ | name
  · simp [hn] at h
  · rfl

/-- Under a key list the constrained columns are the key columns. -/
theorem constrained_of_keyed (hk : 0 < msg.kNatt) : msg.constrained = msg.isKey := by
  funext i
  have h : decide (msg.kNatt ≤ 0) = false := by simpa using hk
  rw [AliPgDecodeMessage.constrained, h, Bool.false_or]
  by_cases hi : msg.isKey i
  · rw [live_of_isKey hi, hi]; rfl
  · simp [hi]

/-- Without a key list no column is a key column. -/
theorem isKeyColumn_unkeyed (hk : ¬ 0 < msg.kNatt) (colname : Option Bytes) :
    isKeyColumn msg colname = .ok false := by
  have hzero : msg.kNatt.toNat = 0 := by omega
  rcases colname with _ | name
  · rfl
  · rw [isKeyColumn, hzero]
    rfl

theorem keyItem_eq (tuple : DecodeTupleData) {n j : ℕ} (h : msg.KeysReadable n) (hj : j < n) :
    keyItem msg tuple j =
      if msg.constrained j then ColumnCell.text msg (j, tuple.cell j) >>= fun t => .ok (some t)
      else .ok none := by
  simp only [keyItem, isNone_attname, appendValues_eq, AliPgDecodeMessage.constrained]
  by_cases hl : msg.live j
  · by_cases hk : 0 < msg.kNatt
    · rw [h.eq hk hj hl]
      rcases ColumnCell.text msg (j, tuple.cell j) with e | t <;> by_cases hi : msg.isKey j <;>
        simp [hl, hk, hi]
    · rcases ColumnCell.text msg (j, tuple.cell j) with e | t <;>
        simp [hl, hk, not_lt.1 hk, isKeyColumn_unkeyed hk]
  · simp [hl]

/-! ## Statements -/

/-- The clauses of an UPDATE as text. -/
def clausesText (msg : AliPgDecodeMessage) (set conditions : List ColumnCell) :
    Except Fault Bytes := do
  let conds ← listText msg (ascii " AND ") true conditions
  let sets ← listText msg (ascii " , ") true set
  .ok (ascii " SET " ++ sets ++ (ascii " WHERE " ++ conds ++ ascii ";"))

/-- An UPDATE or DELETE of the relation a message names. -/
inductive RowStmt where
  | update (set conditions : List ColumnCell)
  | delete (conditions : List ColumnCell)
  deriving DecidableEq

namespace RowStmt

/-- The clauses of a statement. -/
def set : RowStmt → List ColumnCell
  | update set _ => set
  | delete _ => []

def conditions : RowStmt → List ColumnCell
  | update _ conditions => conditions
  | delete conditions => conditions

/-- The statement as SQL text. -/
def text (msg : AliPgDecodeMessage) : RowStmt → Except Fault Bytes
  | update set conditions => do
    let schemaname ← str msg.schemaname
    let relname ← str msg.relname
    let clauses ← clausesText msg set conditions
    .ok (ascii "UPDATE " ++ schemaname ++ ascii "." ++ relname ++ ascii " " ++ clauses)
  | delete conditions => do
    let conds ← listText msg (ascii " AND ") true conditions
    let schemaname ← str msg.schemaname
    let relname ← str msg.relname
    .ok (ascii "DELETE FROM " ++ schemaname ++ ascii "." ++ relname ++ ascii " " ++
      (ascii "WHERE " ++ conds ++ ascii ";"))

end RowStmt

/-- A live column whose cell a full-row update finds changed. -/
def columnChanged (msg : AliPgDecodeMessage) (newTuple oldTuple : DecodeTupleData) (i : ℕ) : Bool :=
  msg.live i && fullRowChange ⟨fun _ => false, oldTuple.isNullCell, oldTuple.isUnchangedCell⟩
    newTuple oldTuple i

/-- The statement an UPDATE message asks for, if it is accepted. -/
def updateStmt (msg : AliPgDecodeMessage) : Option RowStmt :=
  let new := selected msg.newtuple
  let old := selected msg.oldtuple
  let newNatt := msg.newtuple.natt.toNat
  let oldNatt := msg.oldtuple.natt.toNat
  if msg.kNatt = 0 then
    if msg.hasKeyOrOld = false ∨ msg.oldtuple.natt = 0 then none
    else if msg.natt = msg.newtuple.natt ∧ msg.natt = msg.oldtuple.natt then
      some (.update (new (columnChanged msg msg.newtuple msg.oldtuple) newNatt 0)
        (old msg.live oldNatt 0))
    else none
  else if msg.oldtuple.natt = 0 then
    some (.update (new (fun i => msg.live i && !(msg.kNatt > 0 && msg.isKey i)) newNatt 0)
      (new msg.constrained newNatt 0))
  else
    some (.update (new msg.live newNatt 0) (old msg.constrained oldNatt 0))

theorem updateStmt_keyNotChange (hk : 0 < msg.kNatt) (ho : msg.oldtuple.natt = 0) :
    updateStmt msg = some (.update
      (selected msg.newtuple (fun i => msg.live i && !msg.isKey i) msg.newtuple.natt.toNat 0)
      (selected msg.newtuple msg.isKey msg.newtuple.natt.toNat 0)) := by
  have hd : decide (msg.kNatt > 0) = true := by simpa using hk
  simp only [updateStmt]
  rw [if_neg hk.ne', if_pos ho, constrained_of_keyed hk, hd]
  rfl

theorem updateStmt_keyChange (hk : 0 < msg.kNatt) (ho : msg.oldtuple.natt ≠ 0) :
    updateStmt msg = some (.update
      (selected msg.newtuple msg.live msg.newtuple.natt.toNat 0)
      (selected msg.oldtuple msg.isKey msg.oldtuple.natt.toNat 0)) := by
  simp only [updateStmt]
  rw [if_neg hk.ne', if_neg ho, constrained_of_keyed hk]

theorem updateStmt_fullRow (hk : msg.kNatt = 0) (ho : msg.hasKeyOrOld = true)
    (hn : msg.oldtuple.natt ≠ 0) (hw : msg.natt = msg.newtuple.natt ∧ msg.natt = msg.oldtuple.natt) :
    updateStmt msg = some (.update
      (selected msg.newtuple (columnChanged msg msg.newtuple msg.oldtuple)
        msg.newtuple.natt.toNat 0)
      (selected msg.oldtuple msg.live msg.oldtuple.natt.toNat 0)) := by
  simp only [updateStmt]
  rw [if_pos hk, if_neg (by simp [ho, hn]), if_pos hw]

/-- The statement an UPDATE or DELETE message asks for, if it is accepted. -/
def rowStmt (msg : AliPgDecodeMessage) : Option RowStmt :=
  if checktuple msg msg.type msg.newtuple msg.oldtuple ≠ 0 then none
  else match msg.type with
    | some .update => updateStmt msg
    | some .delete =>
      some (.delete (selected msg.oldtuple msg.constrained msg.oldtuple.natt.toNat 0))
    | _ => none

theorem appendDeleteWhereStatement_eq (tuple : DecodeTupleData)
    (h : msg.KeysReadable tuple.natt.toNat) :
    appendDeleteWhereStatement msg tuple =
      (listText msg (ascii " AND ") true (selected tuple msg.constrained tuple.natt.toNat 0) >>=
        fun conds => .ok (ascii "WHERE " ++ conds ++ ascii ";")) := by
  rw [appendDeleteWhereStatement, appendItems_eq msg _ tuple msg.constrained _ 0 true
    fun j _ hj => keyItem_eq tuple h (by omega)]

theorem appendUpdateStatementKeyChange_eq (h : msg.KeysReadable msg.oldtuple.natt.toNat) :
    appendUpdateStatementKeyChange msg =
      clausesText msg (selected msg.newtuple msg.live msg.newtuple.natt.toNat 0)
        (selected msg.oldtuple msg.constrained msg.oldtuple.natt.toNat 0) := by
  rw [appendUpdateStatementKeyChange, clausesText]
  simp only []
  rw [appendItems_eq msg _ msg.oldtuple msg.constrained _ 0 true
      fun j _ hj => keyItem_eq msg.oldtuple h (by omega),
    appendItems_eq msg _ msg.newtuple msg.live _ 0 true fun j _ _ => ?_]
  simp only [isNone_attname, appendValues_eq]
  rcases ColumnCell.text msg (j, msg.newtuple.cell j) with e | t <;>
    by_cases hl : msg.live j <;> simp [hl]

theorem appendUpdateStatementKeyNotChange_eq (h : msg.KeysReadable msg.newtuple.natt.toNat) :
    appendUpdateStatementKeyNotChange msg =
      clausesText msg
        (selected msg.newtuple (fun i => msg.live i && !(msg.kNatt > 0 && msg.isKey i))
          msg.newtuple.natt.toNat 0)
        (selected msg.newtuple msg.constrained msg.newtuple.natt.toNat 0) := by
  rw [appendUpdateStatementKeyNotChange, clausesText]
  simp only []
  rw [appendItems_eq msg _ msg.newtuple msg.constrained _ 0 true
      fun j _ hj => keyItem_eq msg.newtuple h (by omega),
    appendItems_eq msg _ msg.newtuple _ _ 0 true fun j _ hj => ?_]
  simp only [isNone_attname, appendValues_eq]
  by_cases hl : msg.live j
  · by_cases hk : 0 < msg.kNatt
    · rw [h.eq hk (by omega) hl]
      rcases ColumnCell.text msg (j, msg.newtuple.cell j) with e | t <;>
        by_cases hi : msg.isKey j <;> simp [hl, hk, hi]
    · rcases ColumnCell.text msg (j, msg.newtuple.cell j) with e | t <;>
        simp [hl, hk, isKeyColumn_unkeyed hk]
  · simp [hl]

/-! ## The full-row update -/

/-- The arrays after the WHERE loop went over the columns from `i` on, `n` of them. -/
def RowFlags.fill (flags : RowFlags) (msg : AliPgDecodeMessage) (oldTuple : DecodeTupleData)
    (n i : ℕ) : RowFlags where
  droped j := if i ≤ j ∧ j < i + n ∧ !msg.live j then true else flags.droped j
  oldIsnull j := if i ≤ j ∧ j < i + n ∧ msg.live j then oldTuple.isNullCell j else flags.oldIsnull j
  uchangeToast j :=
    if i ≤ j ∧ j < i + n ∧ msg.live j ∧ oldTuple.isUnchangedCell j then true
    else flags.uchangeToast j

section
variable (flags : RowFlags) (oldTuple : DecodeTupleData) (n : ℕ) {i : ℕ}

theorem RowFlags.fill_zero (i : ℕ) : flags.fill msg oldTuple 0 i = flags := by
  have h : ∀ j, ¬ (i ≤ j ∧ j < i) := by omega
  simp only [RowFlags.fill, Nat.add_zero, ← and_assoc, h, false_and, if_false]

/-- The columns from the next one on are the others. -/
theorem from_succ_iff {i j n : ℕ} (hj : j ≠ i) :
    (i + 1 ≤ j ∧ j < i + 1 + n) ↔ (i ≤ j ∧ j < i + (n + 1)) := by omega

theorem RowFlags.fill_dropped (hl : msg.live i = false) :
    RowFlags.fill { flags with droped := Function.update flags.droped i true } msg oldTuple n (i + 1) =
      flags.fill msg oldTuple (n + 1) i := by
  simp only [RowFlags.fill, RowFlags.mk.injEq]
  refine ⟨?_, ?_, ?_⟩ <;> funext j <;> rcases eq_or_ne j i with rfl | hj
  · simp [hl]
  · simp only [← and_assoc, from_succ_iff hj, Function.update_of_ne hj]
  · simp [hl]
  · simp only [← and_assoc, from_succ_iff hj]
  · simp [hl]
  · simp only [← and_assoc, from_succ_iff hj]

theorem RowFlags.fill_live (hl : msg.live i = true) :
    RowFlags.fill
        { flags with
          oldIsnull := Function.update flags.oldIsnull i (oldTuple.isNullCell i)
          uchangeToast :=
            if oldTuple.isUnchangedCell i then Function.update flags.uchangeToast i true
            else flags.uchangeToast } msg oldTuple n (i + 1) =
      flags.fill msg oldTuple (n + 1) i := by
  simp only [RowFlags.fill, RowFlags.mk.injEq]
  refine ⟨?_, ?_, ?_⟩ <;> funext j <;> rcases eq_or_ne j i with rfl | hj
  · simp [hl]
  · simp only [← and_assoc, from_succ_iff hj]
  · simp [hl]
  · simp only [← and_assoc, from_succ_iff hj, Function.update_of_ne hj]
  · by_cases hu : oldTuple.isUnchangedCell j <;> simp [hl, hu]
  · simp only [← and_assoc, from_succ_iff hj]
    by_cases hu : oldTuple.isUnchangedCell i <;> simp [hu, Function.update_of_ne hj]

end

theorem fullRowWhere_eq (oldTuple : DecodeTupleData) (n i : ℕ) (first : Bool) (flags : RowFlags) :
    fullRowWhere msg oldTuple n i first flags =
      (listText msg (ascii " AND ") first (selected oldTuple msg.live n i) >>= fun t =>
        .ok (t, flags.fill msg oldTuple n i)) := by
  induction n generalizing i first flags with
  | zero =>
    rw [RowFlags.fill_zero]
    rfl
  | succ n ih =>
    rw [fullRowWhere, selected_succ, isNone_attname]
    by_cases hl : msg.live i
    · simp only [hl, Bool.not_true, Bool.false_eq_true, if_false, if_true, appendValues_eq,
        listText_cons]
      rcases ColumnCell.text msg (i, oldTuple.cell i) with e | t
      · rfl
      simp only [ok_bind, ih, RowFlags.fill_live _ _ _ hl]
      rcases listText msg (ascii " AND ") false (selected oldTuple msg.live n (i + 1)) with e | rest
        <;> rfl
    · simp only [hl, Bool.not_false, Bool.false_eq_true, if_false, if_true, ih,
        RowFlags.fill_dropped _ _ _ (Bool.eq_false_iff.2 hl)]

/-- What a full-row update finds changed depends on the arrays at the column only. -/
theorem fullRowChange_fill (newTuple oldTuple : DecodeTupleData) {n i : ℕ} (h : i < n)
    (hl : msg.live i = true) :
    fullRowChange (RowFlags.fill {} msg oldTuple n 0) newTuple oldTuple i =
      columnChanged msg newTuple oldTuple i := by
  simp [columnChanged, fullRowChange, RowFlags.fill, h, hl]

theorem appendUpdateStatementFullRow_eq (hw : msg.newtuple.natt = msg.oldtuple.natt) :
    appendUpdateStatementFullRow msg =
      clausesText msg
        (selected msg.newtuple (columnChanged msg msg.newtuple msg.oldtuple)
          msg.newtuple.natt.toNat 0)
        (selected msg.oldtuple msg.live msg.oldtuple.natt.toNat 0) := by
  rw [appendUpdateStatementFullRow, clausesText]
  simp only [fullRowWhere_eq, bind_assoc, ok_bind]
  congr; funext conds
  rw [appendItems_eq msg _ msg.newtuple (columnChanged msg msg.newtuple msg.oldtuple) _ 0 true
    fun j _ hj => ?_]
  rw [Nat.zero_add, hw] at hj
  by_cases hl : msg.live j
  · have hd : (RowFlags.fill {} msg msg.oldtuple msg.oldtuple.natt.toNat 0).droped j = false := by
      simp [RowFlags.fill, hl]
    simp only [hd, Bool.false_eq_true, if_false, fullRowChange_fill _ _ hj hl, appendValues_eq]
    rcases ColumnCell.text msg (j, msg.newtuple.cell j) with e | t <;>
      by_cases hc : columnChanged msg msg.newtuple msg.oldtuple j <;> simp [hc]
  · have hd : (RowFlags.fill {} msg msg.oldtuple msg.oldtuple.natt.toNat 0).droped j = true := by
      simp only [RowFlags.fill]
      rw [if_pos ⟨Nat.zero_le j, by omega, by simp [hl]⟩]
    have hc : columnChanged msg msg.newtuple msg.oldtuple j = false := by simp [columnChanged, hl]
    simp [hd, hc]

/-! ## The generator -/

/-- The columns of the tuple that the WHERE clause is made of. -/
def conditionNatt (msg : AliPgDecodeMessage) : ℕ :=
  if msg.type = some .update ∧ msg.oldtuple.natt = 0 then msg.newtuple.natt.toNat
  else msg.oldtuple.natt.toNat

/-- What is appended for an UPDATE is its rendering, if the key names that it needs are there. -/
theorem appendUpdateStatement_eq
    (h : msg.KeysReadable
      (if msg.oldtuple.natt = 0 then msg.newtuple.natt.toNat else msg.oldtuple.natt.toNat))
    {stmt : RowStmt} (hs : updateStmt msg = some stmt) :
    appendUpdateStatement msg = stmt.text msg := by
  unfold updateStmt at hs
  unfold appendUpdateStatement
  split_ifs at hs ⊢ with hk hold hw hw <;> cases hs <;> simp only [RowStmt.text, bind_assoc]
  · rw [appendUpdateStatementFullRow_eq (hw.1.symm.trans hw.2)]
    rfl
  · rw [if_pos hw] at h
    rw [appendUpdateStatementKeyNotChange_eq h]
    rfl
  · rw [if_neg hw] at h
    rw [appendUpdateStatementKeyChange_eq h]
    rfl

/-- Nothing is appended for an UPDATE that is not accepted. -/
theorem appendUpdateStatement_none (hs : updateStmt msg = none) :
    appendUpdateStatement msg = .ok [] := by
  unfold updateStmt at hs
  unfold appendUpdateStatement
  split_ifs at hs ⊢ <;> rfl

/-- The generated text is the rendering of the statement the message asks for, if the key names
that it needs are there. -/
theorem outPutTupleToSql_stmt (h : msg.KeysReadable (conditionNatt msg))
    (ht : msg.type = some .update ∨ msg.type = some .delete) {stmt : RowStmt}
    (hs : rowStmt msg = some stmt) :
    outPutTupleToSql msg = (stmt.text msg >>= fun t => .ok (0, t)) := by
  unfold rowStmt at hs
  by_cases hc : checktuple msg msg.type msg.newtuple msg.oldtuple ≠ 0
  · rw [if_pos hc] at hs; cases hs
  rw [if_neg hc] at hs
  rw [outPutTupleToSql, if_neg hc]
  rcases ht with ht | ht <;> simp only [ht, conditionNatt, true_and] at h hs ⊢
  · rw [appendUpdateStatement_eq h hs]
  · cases hs
    rw [if_neg fun h => by cases h.1] at h
    simp only [RowStmt.text, appendDeleteWhereStatement_eq msg.oldtuple h, bind_assoc, ok_bind]

/-- **The generated text is the rendering of the statement the message asks for.** -/
theorem outPutTupleToSql_eq (hd : msg.Described)
    (ht : msg.type = some .update ∨ msg.type = some .delete) {stmt : RowStmt}
    (hs : rowStmt msg = some stmt) :
    outPutTupleToSql msg = (stmt.text msg >>= fun t => .ok (0, t)) :=
  outPutTupleToSql_stmt (hd.keysReadable _) ht hs

/-- A message that is not accepted appends nothing. -/
theorem outPutTupleToSql_none (ht : msg.type = some .update ∨ msg.type = some .delete)
    (hs : rowStmt msg = none) : ∃ rc, outPutTupleToSql msg = .ok (rc, []) := by
  unfold rowStmt at hs
  by_cases hc : checktuple msg msg.type msg.newtuple msg.oldtuple ≠ 0
  · exact ⟨1, by rw [outPutTupleToSql, if_pos hc]⟩
  rw [if_neg hc] at hs
  refine ⟨0, ?_⟩
  rw [outPutTupleToSql, if_neg hc]
  rcases ht with ht | ht <;> simp only [ht] at hs ⊢
  · rw [appendUpdateStatement_none hs]
    rfl
  · cases hs

/-! ## When there is a text -/

/-- A value that `quote_literal_local` can write. -/
def Quotable (type t : Bytes) : Prop :=
  type ∈ bareTypes ∨ type ∈ plainQuotedTypes ∨ t.length * 2 + 3 < MaxAllocSize

instance (type t : Bytes) : Decidable (Quotable type t) := inferInstanceAs (Decidable (_ ∨ _))

/-- A cell that can be written: not marked unchanged, and a text that fits the quoting buffer. -/
def Cell.Printable (type : Bytes) : Cell → Prop
  | null => True
  | unchanged => False
  | value t => Quotable type t

instance (type : Bytes) : ∀ c : Cell, Decidable (c.Printable type)
  | .null => inferInstanceAs (Decidable True)
  | .unchanged => inferInstanceAs (Decidable False)
  | .value t => inferInstanceAs (Decidable (Quotable type t))

theorem ColumnCell.text_ok {c : ColumnCell} {name type : Bytes}
    (hn : msg.attname c.1 = some name) (ht : msg.atttype c.1 = some type) :
    (∃ t, ColumnCell.text msg c = .ok t) ↔ c.2.Printable type := by
  obtain ⟨i, c⟩ := c
  rw [ColumnCell.text, hn, str, ok_bind]
  cases c with
  | null => simp [Cell.Printable]
  | unchanged => simp [ht, Cell.svalue, Cell.Printable, quoteLiteralLocal, str]
  | value t =>
    simp only [ht, Cell.svalue, Cell.Printable, quoteLiteralLocal, str, ok_bind, Quotable,
      reduceCtorEq, if_false]
    by_cases hb : type ∈ bareTypes
    · simp [hb]
    by_cases hq : type ∈ plainQuotedTypes
    · simp [hb, hq]
    by_cases hl : MaxAllocSize ≤ t.length * 2 + 3
    · simp [hb, hq, hl, not_lt.2 hl]
    · simp [hb, hq, hl, not_le.1 hl]

theorem listText_ok {sep : Bytes} {cs : List ColumnCell} :
    ∀ {first : Bool}, (∃ t, listText msg sep first cs = .ok t) ↔
      ∀ c ∈ cs, ∃ t, ColumnCell.text msg c = .ok t := by
  induction cs with
  | nil => simp [listText]
  | cons c cs ih =>
    intro first
    rw [listText_cons, List.forall_mem_cons, ← @ih false]
    rcases ColumnCell.text msg c with e | t
    · simp
    rcases listText msg sep false cs with e | rest <;> simp

/-- The table has names. -/
def AliPgDecodeMessage.Named (msg : AliPgDecodeMessage) : Prop :=
  msg.schemaname.isSome ∧ msg.relname.isSome

instance : Decidable msg.Named := inferInstanceAs (Decidable (_ ∧ _))

theorem AliPgDecodeMessage.Described.named (hd : msg.Described) : msg.Named := by
  obtain ⟨schemaname, hsn⟩ := hd.schemaname
  obtain ⟨relname, hrn⟩ := hd.relname
  exact ⟨by rw [hsn]; rfl, by rw [hrn]; rfl⟩

theorem RowStmt.text_isOk {stmt : RowStmt} :
    (∃ t, stmt.text msg = .ok t) ↔
      msg.Named ∧ ∀ c ∈ stmt.conditions ++ stmt.set, ∃ t, ColumnCell.text msg c = .ok t := by
  have hall : (∀ c ∈ stmt.conditions ++ stmt.set, ∃ t, ColumnCell.text msg c = .ok t) ↔
      (∃ t, listText msg (ascii " AND ") true stmt.conditions = .ok t) ∧
        ∃ t, listText msg (ascii " , ") true stmt.set = .ok t := by
    simp only [listText_ok, List.forall_mem_append]
  rw [hall, AliPgDecodeMessage.Named]
  cases stmt with
  | update set conditions =>
    simp only [RowStmt.text, clausesText, RowStmt.conditions, RowStmt.set]
    rcases msg.schemaname with _ | schemaname <;> rcases msg.relname with _ | relname <;>
      rcases listText msg (ascii " AND ") true conditions with e | t <;>
      rcases listText msg (ascii " , ") true set with e' | t' <;> simp [str]
  | delete conditions =>
    simp only [RowStmt.text, RowStmt.conditions, RowStmt.set]
    rcases msg.schemaname with _ | schemaname <;> rcases msg.relname with _ | relname <;>
      rcases listText msg (ascii " AND ") true conditions with e | t <;> simp [str, listText]

/-- **A statement has a text if and only if each of its entries has one.** -/
theorem RowStmt.text_ok (hd : msg.Described) {stmt : RowStmt} :
    (∃ t, stmt.text msg = .ok t) ↔
      ∀ c ∈ stmt.conditions ++ stmt.set, ∃ t, ColumnCell.text msg c = .ok t := by
  rw [RowStmt.text_isOk]
  exact and_iff_right hd.named

end RdsDbsync
