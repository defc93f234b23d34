/-
  The decoder of the stream's messages (`pg_logicaldecode.c`, with the readers of
  `pqformat.c` it calls).

  A message buffer is represented by its unread part `data[cursor .. len)`.  A
  pointer that `pq_getmsgbytes` returns is represented by the C string it denotes:
  the buffer outlives the message, is not written to, and libpq puts a NUL after
  its last byte.
-/
import Mathlib.Data.List.Forall2
import Mathlib.Logic.Function.Basic
import RdsDbsync.Lib.Bytes

namespace RdsDbsync

open Bytes

/-! ## Reading a buffer -/

/-- The ways in which the code leaves the language's defined behaviour or ends the process. -/
inductive Fault where
  /-- a write past the end of a `MaxTupleAttributeNumber` array -/
  | arrayIndex (i : ℕ)
  /-- a NULL pointer used as a string -/
  | nullPointer
  /-- a write past the end of the quoting buffer -/
  | bufferOverrun
  /-- a call of `exit` -/
  | exit
  deriving DecidableEq

section
variable {α β : Type}

@[simp] theorem ok_bind (a : α) (f : α → Except Fault β) : (Except.ok a >>= f) = f a := rfl

@[simp] theorem error_bind (e : Fault) (f : α → Except Fault β) :
    (Except.error e >>= f) = .error e := rfl

theorem bind_eq_ok {x : Except Fault α} {f : α → Except Fault β} {b : β}
    (h : (x >>= f) = .ok b) : ∃ a, x = .ok a ∧ f a = .ok b := by
  rcases x with e | a
  · cases h
  · exact ⟨a, rfl, h⟩

theorem mapM_eq_ok_iff {f : α → Except Fault β} {l : List α} {l' : List β} :
    l.mapM f = .ok l' ↔ List.Forall₂ (fun a b => f a = .ok b) l l' := by
  induction l generalizing l' with
  | nil =>
    rw [List.mapM_nil, List.forall₂_nil_left_iff]
    exact ⟨fun h => (Except.ok.inj h).symm, fun h => h ▸ rfl⟩
  | cons a l ih =>
    rw [List.mapM_cons, List.forall₂_cons_left_iff]
    constructor
    · intro h
      obtain ⟨b, hb, h⟩ := bind_eq_ok h
      obtain ⟨bs, hbs, h⟩ := bind_eq_ok h
      exact ⟨b, bs, hb, ih.1 hbs, (Except.ok.inj h).symm⟩
    · rintro ⟨b, bs, hb, hbs, rfl⟩
      rw [hb, ih.2 hbs]
      rfl

theorem exists_forall₂_iff {R : α → β → Prop} {l : List α} :
    (∃ l', List.Forall₂ R l l') ↔ ∀ a ∈ l, ∃ b, R a b := by
  induction l with
  | nil => exact iff_of_true ⟨[], .nil⟩ (List.forall_mem_nil _)
  | cons a l ih =>
    rw [List.forall_mem_cons, ← ih]
    constructor
    · rintro ⟨_, _ | ⟨hb, hl⟩⟩
      exact ⟨⟨_, hb⟩, _, hl⟩
    · rintro ⟨⟨b, hb⟩, l', hl⟩
      exact ⟨b :: l', .cons hb hl⟩

end

/-- A `StringInfo` that is being read.  A reader that fails leaves its caller's local variable
uninitialised; `stale` are the values these variables turn out to have, in order. -/
structure StringInfo where
  unread : Bytes
  stale : ℕ → UInt32

/-- `pq_getmsgbyte`, its `-1` at the end of the message cut to a `char`. -/
def pqGetmsgbyte (s : StringInfo) : UInt8 × StringInfo :=
  match s.unread with
  | [] => (255, s)
  | b :: r => (b, { s with unread := r })

/-- `pq_copymsgbytes` into a local variable of the caller. -/
def pqCopymsgbytes (s : StringInfo) (datalen : ℕ) : Bytes × StringInfo :=
  if s.unread.length < datalen then
    (encodeBE datalen (s.stale 0).toNat, { s with stale := fun k => s.stale (k + 1) })
  else (s.unread.take datalen, { s with unread := s.unread.drop datalen })

/-- `pq_getmsgint`; every caller passes 2 or 4. -/
def pqGetmsgint (s : StringInfo) (b : ℕ) : ℕ × StringInfo :=
  let (n, s) := pqCopymsgbytes s b
  (decodeBE n, s)

/-- `pq_getmsgint64`; `int64`, `XLogRecPtr` and `TimestampTz` values share their 64 bits.
(`TimestampTz` is an `int64` under `HAVE_INT64_TIMESTAMP`, the default of the server's headers.) -/
def pqGetmsgint64 (s : StringInfo) : UInt64 × StringInfo :=
  let (h32, s) := pqCopymsgbytes s 4
  let (l32, s) := pqCopymsgbytes s 4
  ((decodeBE h32 * 2 ^ 32 + decodeBE l32).toUInt64, s)

/-- `pq_getmsgbytes`: the string at the cursor, or NULL. -/
def pqGetmsgbytes (s : StringInfo) (datalen : ℤ) : Option Bytes × StringInfo :=
  if datalen < 0 ∨ (s.unread.length : ℤ) < datalen then (none, s)
  else (some (cstr s.unread), { s with unread := s.unread.drop datalen.toNat })

/-- An `unsigned int` assigned to an `int`. -/
def toInt (n : ℕ) : ℤ := if n < 2 ^ 31 then n else (n : ℤ) - 2 ^ 32

/-- The `int` that is left of `x`. -/
def asInt (x : ℤ) : ℤ := x.bmod (2 ^ 32)

theorem asInt_of_lt {x : ℤ} (hlo : -2 ^ 31 ≤ x) (hhi : x < 2 ^ 31) : asInt x = x :=
  Int.bmod_eq_of_le (by omega) (by omega)

/-! ## The message -/

/-- The size of the arrays of a message. -/
def MaxTupleAttributeNumber : ℕ := 1664

/-- `a[i] = v` on one of these arrays. -/
def setAt {α : Type} (a : ℕ → α) (i : ℕ) (v : α) : Except Fault (ℕ → α) :=
  if i < MaxTupleAttributeNumber then .ok (Function.update a i v) else .error (.arrayIndex i)

/-- `MSGKIND_*`; a zeroed message has none of them. -/
inductive MsgKind where
  | begin | commit | insert | update | delete
  deriving DecidableEq

/-- `Decode_TupleData`; the defaults are those of a zeroed message. -/
structure DecodeTupleData where
  natt : ℤ := 0
  isnull : ℕ → Bool := fun _ => false
  changed : ℕ → Bool := fun _ => false
  svalues : ℕ → Option Bytes := fun _ => none

/-- `ALI_PG_DECODE_MESSAGE`; the defaults are those of a zeroed message. -/
structure AliPgDecodeMessage where
  type : Option MsgKind := none
  lsn : UInt64 := 0
  tm : UInt64 := 0
  xid : UInt32 := 0
  endLsn : UInt64 := 0
  relname : Option Bytes := none
  schemaname : Option Bytes := none
  natt : ℤ := 0
  attname : ℕ → Option Bytes := fun _ => none
  atttype : ℕ → Option Bytes := fun _ => none
  kNatt : ℤ := 0
  kAttname : ℕ → Option Bytes := fun _ => none
  hasKeyOrOld : Bool := false
  newtuple : DecodeTupleData := {}
  oldtuple : DecodeTupleData := {}

/-! ## Decoding -/

/-- The loop of `read_tuple_parts` over the columns from `i` on, `n` of them. -/
def readCells : ℕ → ℕ → StringInfo → DecodeTupleData →
    Except Fault (Bool × StringInfo × DecodeTupleData)
  | 0, _, s, tup => .ok (true, s, tup)
  | n + 1, i, s, tup => do
    let (kind, s) := pqGetmsgbyte s
    if kind = ch 'n' then
      let svalues ← setAt tup.svalues i none
      readCells n (i + 1) s { tup with svalues }
    else if kind = ch 'u' then
      let isnull ← setAt tup.isnull i true
      let changed ← setAt tup.changed i false
      let svalues ← setAt tup.svalues i none
      readCells n (i + 1) s { tup with isnull, changed, svalues }
    else if kind = ch 't' then
      let isnull ← setAt tup.isnull i false
      let (len, s) := pqGetmsgint s 4
      let (data, s) := pqGetmsgbytes s (toInt len)
      let svalues ← setAt tup.svalues i data
      readCells n (i + 1) s { tup with isnull, svalues }
    else .ok (false, s, tup)

/-- `read_tuple_parts` -/
def readTupleParts (s : StringInfo) (tup : DecodeTupleData) :
    Except Fault (Bool × StringInfo × DecodeTupleData) :=
  let (action, s) := pqGetmsgbyte s
  if action ≠ ch 'T' then .ok (false, s, tup)
  else
    let (rnatts, s) := pqGetmsgint s 4
    readCells (toInt rnatts).toNat 0 s
      { tup with natt := toInt rnatts, isnull := fun _ => true, changed := fun _ => true }

/-- The first loop of `process_read_colunm_info`: column names and types. -/
def readColumns : ℕ → ℕ → StringInfo → AliPgDecodeMessage →
    Except Fault (StringInfo × AliPgDecodeMessage)
  | 0, _, s, msg => .ok (s, msg)
  | n + 1, i, s, msg => do
    let (len, s) := pqGetmsgint s 2
    if len = 0 then readColumns n (i + 1) s msg
    else
      let (tmp, s) := pqGetmsgbytes s len
      let attname ← setAt msg.attname i tmp
      let (len, s) := pqGetmsgint s 2
      let (tmp, s) := pqGetmsgbytes s len
      let atttype ← setAt msg.atttype i tmp
      readColumns n (i + 1) s { msg with attname, atttype }

/-- The second loop of `process_read_colunm_info`: key column names. -/
def readKeys : ℕ → ℕ → StringInfo → AliPgDecodeMessage →
    Except Fault (StringInfo × AliPgDecodeMessage)
  | 0, _, s, msg => .ok (s, msg)
  | n + 1, i, s, msg => do
    let (len, s) := pqGetmsgint s 2
    let (tmp, s) := pqGetmsgbytes s len
    let kAttname ← setAt msg.kAttname i tmp
    readKeys n (i + 1) s { msg with kAttname }

/-- `process_read_colunm_info` -/
def processReadColunmInfo (s : StringInfo) (msg : AliPgDecodeMessage) :
    Except Fault (Bool × StringInfo × AliPgDecodeMessage) := do
  let (natt, s) := pqGetmsgint s 2
  let (s, msg) ← readColumns natt 0 s { msg with natt := natt }
  let (action, s) := pqGetmsgbyte s
  if action ≠ ch 'M' ∧ action ≠ ch 'P' then .ok (false, s, msg)
  else if action = ch 'P' then .ok (true, s, msg)
  else
    let (natt, s) := pqGetmsgint s 2
    let (s, msg) ← readKeys natt 0 s { msg with kNatt := natt }
    .ok (true, s, msg)

/-- The schema and relation names that open every row change. -/
def readRelname (s : StringInfo) (msg : AliPgDecodeMessage) : StringInfo × AliPgDecodeMessage :=
  let (nspnamelen, s) := pqGetmsgint s 2
  let (schemaname, s) := pqGetmsgbytes s nspnamelen
  let (relnamelen, s) := pqGetmsgint s 2
  let (relname, s) := pqGetmsgbytes s relnamelen
  (s, { msg with relname, schemaname })

/-- The column block of a row change, if the byte `action` announces one, and the byte after
it.  The result of `process_read_colunm_info` is dropped here, as in its three callers. -/
def skipColumnInfo (action : UInt8) (s : StringInfo) (msg : AliPgDecodeMessage) :
    Except Fault (UInt8 × StringInfo × AliPgDecodeMessage) := do
  if action = ch 'C' then
    let (_, s, msg) ← processReadColunmInfo s msg
    let (action, s) := pqGetmsgbyte s
    .ok (action, s, msg)
  else .ok (action, s, msg)

/-- `process_remote_begin` -/
def processRemoteBegin (s : StringInfo) (msg : AliPgDecodeMessage) :
    Bool × StringInfo × AliPgDecodeMessage :=
  let (_flags, s) := pqGetmsgint s 4
  let (origlsn, s) := pqGetmsgint64 s
  let (committime, s) := pqGetmsgint64 s
  let (remoteXid, s) := pqGetmsgint s 4
  (true, s, { msg with
    type := some .begin, lsn := origlsn, tm := committime, xid := remoteXid.toUInt32 })

/-- `process_remote_commit` -/
def processRemoteCommit (s : StringInfo) (msg : AliPgDecodeMessage) :
    Bool × StringInfo × AliPgDecodeMessage :=
  let (flags, s) := pqGetmsgint s 4
  if flags ≠ 0 then (false, s, msg)
  else
    let (commitLsn, s) := pqGetmsgint64 s
    let (endLsn, s) := pqGetmsgint64 s
    let (committime, s) := pqGetmsgint64 s
    (true, s, { msg with type := some .commit, lsn := commitLsn, tm := committime, endLsn })

/-- `process_remote_insert` -/
def processRemoteInsert (s : StringInfo) (msg : AliPgDecodeMessage) :
    Except Fault (Bool × StringInfo × AliPgDecodeMessage) := do
  let (s, msg) := readRelname s { msg with type := some .insert }
  let (action, s) := pqGetmsgbyte s
  if action ≠ ch 'N' ∧ action ≠ ch 'C' then .ok (false, s, msg)
  else
    let (action, s, msg) ← skipColumnInfo action s msg
    if action ≠ ch 'N' then .ok (false, s, msg)
    else
      let (rc, s, newtuple) ← readTupleParts s msg.newtuple
      .ok (rc, s, { msg with newtuple })

/-- `process_remote_update` -/
def processRemoteUpdate (s : StringInfo) (msg : AliPgDecodeMessage) :
    Except Fault (Bool × StringInfo × AliPgDecodeMessage) := do
  let (s, msg) := readRelname s { msg with type := some .update }
  let (action, s) := pqGetmsgbyte s
  if action ≠ ch 'K' ∧ action ≠ ch 'N' ∧ action ≠ ch 'C' then .ok (false, s, msg)
  else
    let (action, s, msg) ← skipColumnInfo action s msg
    if action ≠ ch 'K' ∧ action ≠ ch 'N' then .ok (false, s, msg)
    else
      -- the result of reading the old tuple is dropped
      let (action, s, msg) ←
        if action = ch 'K' then do
          let (_, s, oldtuple) ← readTupleParts s msg.oldtuple
          let (action, s) := pqGetmsgbyte s
          .ok (action, s, { msg with hasKeyOrOld := true, oldtuple })
        else .ok (action, s, msg)
      if action ≠ ch 'N' then .ok (false, s, msg)
      else
        let (rc, s, newtuple) ← readTupleParts s msg.newtuple
        .ok (rc, s, { msg with newtuple })

/-- `process_remote_delete` -/
def processRemoteDelete (s : StringInfo) (msg : AliPgDecodeMessage) :
    Except Fault (Bool × StringInfo × AliPgDecodeMessage) := do
  let (s, msg) := readRelname s { msg with type := some .delete }
  let (action, s) := pqGetmsgbyte s
  if action ≠ ch 'K' ∧ action ≠ ch 'E' ∧ action ≠ ch 'C' then .ok (false, s, msg)
  else
    let (action, s, msg) ← skipColumnInfo action s msg
    if action ≠ ch 'K' ∧ action ≠ ch 'E' then .ok (false, s, msg)
    else if action = ch 'E' then .ok (true, s, msg)
    else
      let (rc, s, oldtuple) ← readTupleParts s msg.oldtuple
      .ok (rc, s, { msg with hasKeyOrOld := true, oldtuple })

/-- `bdr_process_remote_action`.  The results of the five readers are assigned to `rc`, which
nothing reads. -/
def bdrProcessRemoteAction (s : StringInfo) (msg : AliPgDecodeMessage) :
    Except Fault (Bool × StringInfo × AliPgDecodeMessage) := do
  let (action, s) := pqGetmsgbyte s
  if action = ch 'B' then
    let (_rc, s, msg) := processRemoteBegin s msg
    .ok (true, s, msg)
  else if action = ch 'C' then
    let (_rc, s, msg) := processRemoteCommit s msg
    .ok (true, s, msg)
  else if action = ch 'I' then
    let (_rc, s, msg) ← processRemoteInsert s msg
    .ok (true, s, msg)
  else if action = ch 'U' then
    let (_rc, s, msg) ← processRemoteUpdate s msg
    .ok (true, s, msg)
  else if action = ch 'D' then
    let (_rc, s, msg) ← processRemoteDelete s msg
    .ok (true, s, msg)
  else .ok (false, s, msg)

end RdsDbsync
