/-
  The output plugin on the source server (`ali_decoding.c`).

  A callback is modelled by the bytes it writes to `ctx->out`.  Values of type
  `CString` are NUL-free by construction, as every name and every result of a
  type's output function is on the server.
-/
import RdsDbsync.Lib.SqlText

namespace RdsDbsync

open Bytes SqlText

/-! ## What the plugin reads -/

/-- `Form_pg_attribute`; `typname` is `format_type_be(atttypid)`. -/
structure Attribute where
  attname : CString
  attisdropped : Bool
  attnum : ℤ
  typname : CString
  deriving DecidableEq

/-- The attribute number of the `oid` system column. -/
def ObjectIdAttributeNumber : ℤ := -2

/-- The server's bound on the columns of an index. -/
def IndexMaxKeys : ℕ := 32

/-- A relation with its namespace's name, its tuple descriptor and the columns (`indkey`) of its
replica identity index, `none` if `rd_replidindex` is invalid.  The fields after these are what the
system catalogs guarantee. -/
structure Relation where
  nspname : CString
  relname : CString
  attrs : List Attribute
  replidindex : Option (List ℤ)
  /-- user columns are numbered from 1 -/
  attnum_eq : ∀ i (h : i < attrs.length), attrs[i].attnum = i + 1
  /-- live columns have distinct names -/
  attname_nodup : ((attrs.filter fun a => !a.attisdropped).map Attribute.attname).Nodup
  /-- an index has no dropped columns and, of the system columns, at most `oid` -/
  indkey_live : ∀ ks, replidindex = some ks → ∀ k ∈ ks, k = ObjectIdAttributeNumber ∨
    ∃ a ∈ attrs, a.attnum = k ∧ a.attisdropped = false
  indkey_length : ∀ ks, replidindex = some ks → ks.length ≤ IndexMaxKeys

/-- A column value in a tuple: NULL, a pointer to an out-of-line TOAST value, or the text its
type's output function gives. -/
inductive Datum where
  | null
  | external
  | value (t : CString)
  deriving DecidableEq

/-- A heap tuple; it may be shorter than the descriptor. -/
abbrev HeapTuple := List Datum

/-- `heap_deform_tuple`: columns added after the tuple was written are NULL. -/
def heapDeformTuple (tuple : HeapTuple) (natts : ℕ) : List Datum :=
  (List.range natts).map fun i => tuple.getD i .null

/-- `ReorderBufferTXN` -/
structure ReorderBufferTXN where
  finalLsn : UInt64
  endLsn : UInt64
  commitTime : UInt64
  xid : UInt32

/-- `ReorderBufferChange` -/
inductive ReorderBufferChange where
  | insert (newtuple : HeapTuple)
  | update (oldtuple : Option HeapTuple) (newtuple : HeapTuple)
  | delete (oldtuple : Option HeapTuple)

/-- `Ali_OutputData` -/
structure AliOutputData where
  outputKeyInfo : Bool
  outputColumnInfo : Bool
  outputTypeAsName : Bool

/-- The settings `pg_decode_startup` leaves for a streaming session. -/
def pgDecodeStartup : AliOutputData := ⟨true, true, true⟩

/-! ## What it writes -/

/-- `pq_sendint` -/
def pqSendint (i b : ℕ) : Bytes := encodeBE b i

/-- `pq_sendint64` -/
def pqSendint64 (i : UInt64) : Bytes :=
  encodeBE 4 (i.toNat / 2 ^ 32) ++ encodeBE 4 (i.toNat % 2 ^ 32)

/-- A length field of `b` bytes, then the string with its terminator. -/
def sendCounted (b : ℕ) (t : Bytes) : Bytes := pqSendint (t.length + 1) b ++ cbytes t

variable (kw : Bytes → Bool)

/-- The column loop's body in `write_colum_info`. -/
def writeAttribute (data : AliOutputData) (att : Attribute) : Bytes :=
  if att.attisdropped then pqSendint 0 2
  else if att.attnum < 0 then pqSendint 0 2
  else
    sendCounted 2 (quoteIdentifier kw att.attname) ++
      if data.outputTypeAsName then sendCounted 2 att.typname else []

/-- `get_relid_attribute_name` -/
def getRelidAttributeName (rel : Relation) (attno : ℤ) : Option CString :=
  (rel.attrs.find? fun a => a.attnum = attno).map Attribute.attname

/-- The names of the columns of an index; the `oid` column is skipped. -/
def indexColumns (rel : Relation) (indkey : List ℤ) : List CString :=
  indkey.filterMap fun attno => if attno < 0 then none else getRelidAttributeName rel attno

/-- The key block of `write_colum_info`. -/
def writeKeys (rel : Relation) (indkey : List ℤ) : Bytes :=
  let latt := indexColumns rel indkey
  [ch 'M'] ++ pqSendint latt.length 2 ++ latt.flatMap fun col => sendCounted 2 col.val

/-- `write_colum_info` -/
def writeColumInfo (data : AliOutputData) (rel : Relation) (change : ReorderBufferChange) : Bytes :=
  [ch 'C'] ++ pqSendint rel.attrs.length 2 ++ rel.attrs.flatMap (writeAttribute kw data) ++
    match change, data.outputKeyInfo, rel.replidindex with
    | .insert _, _, _ | _, false, _ | _, _, none => [ch 'P']
    | _, true, some indkey => writeKeys rel indkey

/-- `write_rel` -/
def writeRel (data : AliOutputData) (rel : Relation) (change : ReorderBufferChange) : Bytes :=
  sendCounted 2 rel.nspname ++ sendCounted 2 rel.relname ++
    if data.outputColumnInfo then writeColumInfo kw data rel change else []

/-- The column loop's body in `write_tuple`. -/
def writeDatum (att : Attribute) : Datum → Bytes
  | .null => [ch 'n']
  | .external => if att.attisdropped then [ch 'n'] else [ch 'u']
  | .value t => if att.attisdropped then [ch 'n'] else [ch 't'] ++ sendCounted 4 t

/-- `write_tuple` -/
def writeTuple (rel : Relation) (tuple : HeapTuple) : Bytes :=
  [ch 'T'] ++ pqSendint rel.attrs.length 4 ++
    (rel.attrs.zip (heapDeformTuple tuple rel.attrs.length)).flatMap fun p => writeDatum p.1 p.2

/-- `pg_decode_begin_txn` -/
def pgDecodeBeginTxn (txn : ReorderBufferTXN) : Bytes :=
  [ch 'B'] ++ pqSendint 0 4 ++ pqSendint64 txn.finalLsn ++ pqSendint64 txn.commitTime ++
    pqSendint txn.xid.toNat 4

/-- `pg_decode_commit_txn` -/
def pgDecodeCommitTxn (txn : ReorderBufferTXN) (commitLsn : UInt64) : Bytes :=
  [ch 'C'] ++ pqSendint 0 4 ++ pqSendint64 commitLsn ++ pqSendint64 txn.endLsn ++
    pqSendint64 txn.commitTime

/-- `pg_decode_change` -/
def pgDecodeChange (data : AliOutputData) (rel : Relation) (change : ReorderBufferChange) : Bytes :=
  match change with
  | .insert newtuple =>
    [ch 'I'] ++ writeRel kw data rel change ++ [ch 'N'] ++ writeTuple rel newtuple
  | .update oldtuple newtuple =>
    [ch 'U'] ++ writeRel kw data rel change ++
      (match oldtuple with
        | some t => [ch 'K'] ++ writeTuple rel t
        | none => []) ++
      [ch 'N'] ++ writeTuple rel newtuple
  | .delete oldtuple =>
    [ch 'D'] ++ writeRel kw data rel change ++
      match oldtuple with
      | some t => [ch 'K'] ++ writeTuple rel t
      | none => [ch 'E']

end RdsDbsync
