/-
  The SQL generator of the client (`out_put_tuple_to_sql` in `utils.c` and what it
  calls).

  A function that appends to a `PQExpBuffer` is modelled by the text it appends;
  the buffer itself is taken never to run out of memory.  NULL given to `%s` is a
  fault, as it is undefined in C.
-/
import RdsDbsync.Message

namespace RdsDbsync

open Bytes

/-! ## Literals -/

/-- A pointer that is used as a string. -/
def str : Option Bytes → Except Fault Bytes
  | some t => .ok t
  | none => .error .nullPointer

/-- `'` and `\` -/
def singleQuote : UInt8 := 39

def backslash : UInt8 := 92

/-- `SQL_STR_DOUBLE(ch, true)` -/
def sqlStrDouble (c : UInt8) : Bool := c == singleQuote || c == backslash

/-- `quote_literal_internal` -/
def quoteLiteralInternal (src : Bytes) : Bytes :=
  (if backslash ∈ src then [ch 'E'] else []) ++ [singleQuote] ++
    (src.flatMap fun c => if sqlStrDouble c then [c, c] else [c]) ++ [singleQuote]

def MaxAllocSize : ℕ := 0x3fffffff

/-- The types whose values `quote_literal_local` writes as they are. -/
def bareTypes : List Bytes :=
  [ascii "smallint", ascii "integer", ascii "bigint", ascii "oid", ascii "real",
    ascii "double precision", ascii "numeric"]

/-- The types whose values it puts between quotes. -/
def plainQuotedTypes : List Bytes :=
  [ascii "timestamp without time zone", ascii "timestamp with time zone",
    ascii "time without time zone", ascii "time with time zone", ascii "money", ascii "date",
    ascii "interval"]

/-- `quote_literal_local`.  The literals of other types are made in `hander->buffer`, which
`appendStringInfoSpaces` cannot bring to `MaxAllocSize` bytes and then writes past. -/
def quoteLiteralLocal (rawstr type : Option Bytes) : Except Fault Bytes := do
  let type ← str type
  let rawstr ← str rawstr
  if type ∈ bareTypes then .ok rawstr
  else if type ∈ plainQuotedTypes then .ok ([singleQuote] ++ rawstr ++ [singleQuote])
  else if MaxAllocSize ≤ rawstr.length * 2 + 3 then .error .bufferOverrun
  else .ok (quoteLiteralInternal rawstr)

/-! ## Columns -/

/-- The test for a NULL cell. -/
def DecodeTupleData.isNullCell (tuple : DecodeTupleData) (i : ℕ) : Bool :=
  tuple.isnull i && tuple.changed i && (tuple.svalues i).isNone

/-- The test for an unchanged cell. -/
def DecodeTupleData.isUnchangedCell (tuple : DecodeTupleData) (i : ℕ) : Bool :=
  tuple.isnull i && !tuple.changed i && (tuple.svalues i).isNone

/-- The loop of `is_key_column` over the key names from `j` on, `n` of them. -/
def findKeyColumn (msg : AliPgDecodeMessage) (colname : Bytes) : ℕ → ℕ → Except Fault Bool
  | 0, _ => .ok false
  | n + 1, j => do
    let k ← str (msg.kAttname j)
    if colname = k then .ok true else findKeyColumn msg colname n (j + 1)

/-- `is_key_column` -/
def isKeyColumn (msg : AliPgDecodeMessage) (colname : Option Bytes) : Except Fault Bool :=
  match colname with
  | none => .ok false
  | some colname => findKeyColumn msg colname msg.kNatt.toNat 0

/-- `append_values`, with its result. -/
def appendValues (msg : AliPgDecodeMessage) (tuple : DecodeTupleData) (i : ℕ) :
    Except Fault (Bytes × Bool) := do
  let name ← str (msg.attname i)
  if tuple.isNullCell i then .ok (name ++ ascii "=" ++ ascii "null", true)
  else
    let value ← quoteLiteralLocal (tuple.svalues i) (msg.atttype i)
    .ok (name ++ ascii "=" ++ value, false)

/-- The loops over the columns from `i` on, `n` of them, that write a list with separators.
`item` is a column's entry, `none` where the loop goes on to the next column. -/
def appendItems (sep : Bytes) (item : ℕ → Except Fault (Option Bytes)) :
    ℕ → ℕ → Bool → Except Fault Bytes
  | 0, _, _ => .ok []
  | n + 1, i, first => do
    match ← item i with
    | none => appendItems sep item n (i + 1) first
    | some t =>
      let rest ← appendItems sep item n (i + 1) false
      .ok ((if first then [] else sep) ++ t ++ rest)

/-- An entry of a WHERE clause by key: every live column if the message has no key list, the key
columns otherwise. -/
def keyItem (msg : AliPgDecodeMessage) (tuple : DecodeTupleData) (i : ℕ) :
    Except Fault (Option Bytes) := do
  if (msg.attname i).isNone then .ok none
  else if msg.kNatt > 0 ∧ !(← isKeyColumn msg (msg.attname i)) then .ok none
  else
    let (t, _) ← appendValues msg tuple i
    .ok (some t)

/-! ## Statements -/

/-- `checktuple` -/
def checktuple (msg : AliPgDecodeMessage) (kind : Option MsgKind)
    (newTuple oldTuple : DecodeTupleData) : ℕ :=
  if kind = some .delete ∧ msg.hasKeyOrOld = false then 1
  else if (kind = some .insert ∨ kind = some .update) ∧ newTuple.natt = 0 then 1
  else if kind = some .delete ∧ oldTuple.natt = 0 then 1
  else if (kind = some .insert ∨ kind = some .update) ∧ newTuple.natt ≠ msg.natt then 1
  else 0

/-- The loop of `append_insert_colname`: a comma follows every column but the last one of the
tuple, live or not. -/
def insertColnames (msg : AliPgDecodeMessage) (natt : ℤ) : ℕ → ℕ → Bytes
  | 0, _ => []
  | n + 1, i =>
    match msg.attname i with
    | none => insertColnames msg natt n (i + 1)
    | some name =>
      name ++ (if (i : ℤ) ≠ natt - 1 then ascii "," else []) ++ insertColnames msg natt n (i + 1)

/-- `append_insert_colname` -/
def appendInsertColname (msg : AliPgDecodeMessage) (tuple : DecodeTupleData) : Bytes :=
  ascii "(" ++ insertColnames msg tuple.natt tuple.natt.toNat 0 ++ ascii ") "

/-- `append_insert_values` -/
def appendInsertValues (msg : AliPgDecodeMessage) (tuple : DecodeTupleData) :
    Except Fault Bytes := do
  let values ← appendItems (ascii ", ") (fun i => do
    if (msg.attname i).isNone then .ok none
    else if tuple.isNullCell i then .ok (some (ascii "null"))
    else if tuple.isUnchangedCell i then .ok (some (ascii "null"))
    else .ok (some (← quoteLiteralLocal (tuple.svalues i) (msg.atttype i)))) tuple.natt.toNat 0 true
  .ok (ascii "VALUES(" ++ values ++ ascii ");")

/-- `append_delete_where_statement` -/
def appendDeleteWhereStatement (msg : AliPgDecodeMessage) (tuple : DecodeTupleData) :
    Except Fault Bytes := do
  let conds ← appendItems (ascii " AND ") (keyItem msg tuple) tuple.natt.toNat 0 true
  .ok (ascii "WHERE " ++ conds ++ ascii ";")

/-- `append_update_statement_key_change` -/
def appendUpdateStatementKeyChange (msg : AliPgDecodeMessage) : Except Fault Bytes := do
  let newTuple := msg.newtuple
  let oldTuple := msg.oldtuple
  let conds ← appendItems (ascii " AND ") (keyItem msg oldTuple) oldTuple.natt.toNat 0 true
  let sets ← appendItems (ascii " , ") (fun i => do
    if (msg.attname i).isNone then .ok none
    else
      let (t, _) ← appendValues msg newTuple i
      .ok (some t)) newTuple.natt.toNat 0 true
  .ok (ascii " SET " ++ sets ++ (ascii " WHERE " ++ conds ++ ascii ";"))

/-- `append_update_statement_key_not_change` -/
def appendUpdateStatementKeyNotChange (msg : AliPgDecodeMessage) : Except Fault Bytes := do
  let newTuple := msg.newtuple
  let conds ← appendItems (ascii " AND ") (keyItem msg newTuple) newTuple.natt.toNat 0 true
  let sets ← appendItems (ascii " , ") (fun i => do
    if (msg.attname i).isNone then .ok none
    else if msg.kNatt > 0 ∧ (← isKeyColumn msg (msg.attname i)) then .ok none
    else
      let (t, _) ← appendValues msg newTuple i
      .ok (some t)) newTuple.natt.toNat 0 true
  .ok (ascii " SET " ++ sets ++ (ascii " WHERE " ++ conds ++ ascii ";"))

/-- The arrays `droped`, `old_isnull` and `uchange_toast` of a full-row update. -/
structure RowFlags where
  droped : ℕ → Bool := fun _ => false
  oldIsnull : ℕ → Bool := fun _ => false
  uchangeToast : ℕ → Bool := fun _ => false

/-- The WHERE loop of `append_update_statement_full_row`. -/
def fullRowWhere (msg : AliPgDecodeMessage) (oldTuple : DecodeTupleData) :
    ℕ → ℕ → Bool → RowFlags → Except Fault (Bytes × RowFlags)
  | 0, _, _, flags => .ok ([], flags)
  | n + 1, i, first, flags => do
    if (msg.attname i).isNone then
      fullRowWhere msg oldTuple n (i + 1) first
        { flags with droped := Function.update flags.droped i true }
    else
      let (t, isnull) ← appendValues msg oldTuple i
      let uchangeToast :=
        if oldTuple.isUnchangedCell i then Function.update flags.uchangeToast i true
        else flags.uchangeToast
      let (rest, flags) ← fullRowWhere msg oldTuple n (i + 1) false
        { flags with oldIsnull := Function.update flags.oldIsnull i isnull, uchangeToast }
      .ok ((if first then [] else ascii " AND ") ++ t ++ rest, flags)

/-- `change[i]` for a live column of `append_update_statement_full_row`. -/
def fullRowChange (flags : RowFlags) (newTuple oldTuple : DecodeTupleData) (i : ℕ) : Bool :=
  if newTuple.isNullCell i then
    if flags.oldIsnull i then false
    else if flags.uchangeToast i then true
    else true
  else if newTuple.isUnchangedCell i then
    if flags.oldIsnull i then false
    else if flags.uchangeToast i then false
    else false
  else
    if flags.oldIsnull i then true
    else if flags.uchangeToast i then false
    else
      match newTuple.svalues i, oldTuple.svalues i with
      | some new, some old => new ≠ old
      | _, _ => false

/-- `append_update_statement_full_row`; its caller has checked that both tuples are as wide as
the message, so that the arrays are not overrun. -/
def appendUpdateStatementFullRow (msg : AliPgDecodeMessage) : Except Fault Bytes := do
  let newTuple := msg.newtuple
  let oldTuple := msg.oldtuple
  let (conds, flags) ← fullRowWhere msg oldTuple oldTuple.natt.toNat 0 true {}
  let sets ← appendItems (ascii " , ") (fun i => do
    if flags.droped i then .ok none
    else if fullRowChange flags newTuple oldTuple i then
      let (t, _) ← appendValues msg newTuple i
      .ok (some t)
    else .ok none) newTuple.natt.toNat 0 true
  .ok (ascii " SET " ++ sets ++ (ascii " WHERE " ++ conds ++ ascii ";"))

/-- `append_update_statement` -/
def appendUpdateStatement (msg : AliPgDecodeMessage) : Except Fault Bytes :=
  let head : Except Fault Bytes := do
    .ok (ascii "UPDATE " ++ (← str msg.schemaname) ++ ascii "." ++ (← str msg.relname) ++ ascii " ")
  if msg.kNatt = 0 then
    if msg.hasKeyOrOld = false ∨ msg.oldtuple.natt = 0 then .ok []
    else if msg.natt = msg.newtuple.natt ∧ msg.natt = msg.oldtuple.natt then do
      .ok ((← head) ++ (← appendUpdateStatementFullRow msg))
    else .ok []
  else if msg.oldtuple.natt = 0 then do
    .ok ((← head) ++ (← appendUpdateStatementKeyNotChange msg))
  else do
    .ok ((← head) ++ (← appendUpdateStatementKeyChange msg))

/-- `out_put_tuple_to_sql`: its result and the text it appends. -/
def outPutTupleToSql (msg : AliPgDecodeMessage) : Except Fault (ℕ × Bytes) := do
  if checktuple msg msg.type msg.newtuple msg.oldtuple ≠ 0 then .ok (1, [])
  else
    match msg.type with
    | some .begin => .ok (0, ascii "begin;")
    | some .commit => .ok (0, ascii "commit;")
    | some .insert =>
      let values ← appendInsertValues msg msg.newtuple
      .ok (0, ascii "INSERT INTO " ++ (← str msg.schemaname) ++ ascii "." ++ (← str msg.relname) ++
        ascii " " ++ appendInsertColname msg msg.newtuple ++ values)
    | some .update => .ok (0, ← appendUpdateStatement msg)
    | some .delete =>
      let conds ← appendDeleteWhereStatement msg msg.oldtuple
      .ok (0, ascii "DELETE FROM " ++ (← str msg.schemaname) ++ ascii "." ++ (← str msg.relname) ++
        ascii " " ++ conds)
    | none => .error .exit

end RdsDbsync
