/-
  The format of the messages, and what the decoder makes of a payload that is not of it.

  `WireMessage.read` reads a payload strictly: every tag is one that its position allows,
  every integer and every string lies inside the payload, counts and lengths are at least
  one and fit the decoder's arrays and integers.

  `bdrProcessRemoteAction_read`: the decoder makes of a message what the format says.
  `malformedRejected_iff`: of the other payloads it rejects those alone that start with
  no action.
-/
import RdsDbsync.Lib.Reader
import RdsDbsync.Wire

namespace RdsDbsync

open Bytes

/-! ## The format -/

/-- The largest `int`. -/
def intMax : ℕ := 2 ^ 31 - 1

/-- The table of a row change.  A column is its name and its type, or dropped; the lists are empty
if they are not sent. -/
structure TableInfo where
  schemaname : CString
  relname : CString
  columns : List (Option (CString × CString)) := []
  keys : List CString := []

/-- A message; the cells of a tuple are the plugin's. -/
inductive WireMessage where
  | begin (lsn tm : UInt64) (xid : UInt32)
  | commit (lsn endLsn tm : UInt64)
  | insert (table : TableInfo) (newtuple : List Datum)
  | update (table : TableInfo) (oldtuple : Option (List Datum)) (newtuple : List Datum)
  | delete (table : TableInfo) (oldtuple : Option (List Datum))

namespace WireMessage

open Reader

/-- An integer of 64 bits. -/
def readInt64 (p : Bytes) : Option (UInt64 × Bytes) := do
  let (high, r) ← uint 4 p
  let (low, r) ← uint 4 r
  some ((high * 2 ^ 32 + low).toUInt64, r)

/-- A column: its name and its type, or the length zero of a dropped one. -/
def readColumn (p : Bytes) : Option (Option (CString × CString) × Bytes) := do
  let (len, r) ← uint 2 p
  if len = 0 then some (none, r)
  else
    let (name, r) ← counted 2 intMax p
    let (type, r) ← counted 2 intMax r
    some (some (name, type), r)

/-- The columns, and the names of the key columns if there are any. -/
def readColumnInfo (p : Bytes) :
    Option ((List (Option (CString × CString)) × List CString) × Bytes) := do
  let (natt, r) ← count 2 MaxTupleAttributeNumber p
  let (columns, r) ← times readColumn natt r
  let (action, r) ← tag [ch 'P', ch 'M'] r
  if action = ch 'P' then some ((columns, []), r)
  else
    let (natt, r) ← count 2 MaxTupleAttributeNumber r
    let (keys, r) ← times (counted 2 intMax) natt r
    some ((columns, keys), r)

/-- The table, up to the tag that says what follows, one of `allowed`. -/
def readTable (allowed : List UInt8) (p : Bytes) : Option ((TableInfo × UInt8) × Bytes) := do
  let (schemaname, r) ← counted 2 intMax p
  let (relname, r) ← counted 2 intMax r
  let (action, r) ← tag (ch 'C' :: allowed) r
  if action = ch 'C' then
    let ((columns, keys), r) ← readColumnInfo r
    let (action, r) ← tag allowed r
    some (({ schemaname, relname, columns, keys }, action), r)
  else some (({ schemaname, relname }, action), r)

/-- A cell of a tuple. -/
def readCell (p : Bytes) : Option (Datum × Bytes) := do
  let (kind, r) ← tag [ch 'n', ch 'u', ch 't'] p
  if kind = ch 'n' then some (.null, r)
  else if kind = ch 'u' then some (.external, r)
  else
    let (t, r) ← counted 4 intMax r
    some (.value t, r)

def readTuple (p : Bytes) : Option (List Datum × Bytes) := do
  let (_, r) ← tag [ch 'T'] p
  let (natt, r) ← count 4 MaxTupleAttributeNumber r
  times readCell natt r

def readBegin (p : Bytes) : Option (WireMessage × Bytes) := do
  let (_flags, r) ← uint 4 p
  let (lsn, r) ← readInt64 r
  let (tm, r) ← readInt64 r
  let (xid, r) ← uint 4 r
  some (.begin lsn tm xid.toUInt32, r)

/-- A commit message; its flags are zero. -/
def readCommit (p : Bytes) : Option (WireMessage × Bytes) := do
  let (flags, r) ← uint 4 p
  if flags = 0 then
    let (lsn, r) ← readInt64 r
    let (endLsn, r) ← readInt64 r
    let (tm, r) ← readInt64 r
    some (.commit lsn endLsn tm, r)
  else none

def readInsert (p : Bytes) : Option (WireMessage × Bytes) := do
  let ((table, _), r) ← readTable [ch 'N'] p
  let (newtuple, r) ← readTuple r
  some (.insert table newtuple, r)

/-- An update message; the old tuple may be missing. -/
def readUpdate (p : Bytes) : Option (WireMessage × Bytes) := do
  let ((table, action), r) ← readTable [ch 'K', ch 'N'] p
  if action = ch 'N' then
    let (newtuple, r) ← readTuple r
    some (.update table none newtuple, r)
  else
    let (oldtuple, r) ← readTuple r
    let (_, r) ← tag [ch 'N'] r
    let (newtuple, r) ← readTuple r
    some (.update table (some oldtuple) newtuple, r)

/-- A delete message; the old tuple may be missing. -/
def readDelete (p : Bytes) : Option (WireMessage × Bytes) := do
  let ((table, action), r) ← readTable [ch 'K', ch 'E'] p
  if action = ch 'E' then some (.delete table none, r)
  else
    let (oldtuple, r) ← readTuple r
    some (.delete table (some oldtuple), r)

/-- The actions. -/
def actions : List UInt8 := [ch 'B', ch 'C', ch 'I', ch 'U', ch 'D']

/-- **A message of the format** at the start of a payload. -/
def read (p : Bytes) : Option (WireMessage × Bytes) := do
  let (action, r) ← tag actions p
  if action = ch 'B' then readBegin r
  else if action = ch 'C' then readCommit r
  else if action = ch 'I' then readInsert r
  else if action = ch 'U' then readUpdate r
  else readDelete r

end WireMessage

/-! ## The decoded message -/

/-- The part of a decoded message that describes the table. -/
def TableInfo.message (table : TableInfo) (type : MsgKind) : AliPgDecodeMessage where
  type := some type
  relname := some table.relname
  schemaname := some table.schemaname
  natt := table.columns.length
  attname i := table.columns[i]?.bind (Option.map fun c => c.1.val)
  atttype i := table.columns[i]?.bind (Option.map fun c => c.2.val)
  kNatt := table.keys.length
  kAttname i := table.keys[i]?.map Subtype.val

/-- The decoded form of a tuple. -/
def tupleData (cells : List Datum) : DecodeTupleData where
  natt := cells.length
  isnull i := (cells[i]?.map Datum.isnull).getD true
  changed i := (cells[i]?.map Datum.changed).getD true
  svalues i := cells[i]?.bind Datum.svalue

/-- What the decoder has to make of a message. -/
def WireMessage.message : WireMessage → AliPgDecodeMessage
  | .begin lsn tm xid => { type := some .begin, lsn, tm, xid }
  | .commit lsn endLsn tm => { type := some .commit, lsn, endLsn, tm }
  | .insert table newtuple => { table.message .insert with newtuple := tupleData newtuple }
  | .update table oldtuple newtuple =>
    { table.message .update with
      hasKeyOrOld := oldtuple.isSome
      oldtuple := (oldtuple.map tupleData).getD {}
      newtuple := tupleData newtuple }
  | .delete table oldtuple =>
    { table.message .delete with
      hasKeyOrOld := oldtuple.isSome
      oldtuple := (oldtuple.map tupleData).getD {} }

/-- **Malformed messages are rejected**: a payload that is of the format is decoded to its message,
and on any other the decoder returns false. -/
def MalformedRejected (p : Bytes) : Prop :=
  ∀ stale, match WireMessage.read p with
    | some (m, _) => ∃ s, bdrProcessRemoteAction ⟨p, stale⟩ {} = .ok (true, s, m.message)
    | none => ∃ s msg, bdrProcessRemoteAction ⟨p, stale⟩ {} = .ok (false, s, msg)

/-! ## What the decoder reads -/

section
variable {p r : Bytes} (st : ℕ → UInt32) {w n i : ℕ}

theorem pqGetmsgbyte_tag {allowed : List UInt8} {b : UInt8}
    (h : Reader.tag allowed p = some (b, r)) :
    pqGetmsgbyte ⟨p, st⟩ = (b, ⟨r, st⟩) ∧ b ∈ allowed := by
  obtain ⟨rfl, hb⟩ := Reader.tag_some h
  exact ⟨rfl, hb⟩

theorem pqGetmsgint_uint (h : Reader.uint w p = some (n, r)) :
    pqGetmsgint ⟨p, st⟩ w = (n, ⟨r, st⟩) := by
  obtain ⟨hw, rfl, rfl⟩ := Reader.uint_some h
  rw [pqGetmsgint, pqCopymsgbytes, if_neg (not_lt.2 hw)]

theorem pqGetmsgint_count {max : ℕ} (h : Reader.count w max p = some (n, r)) :
    pqGetmsgint ⟨p, st⟩ w = (n, ⟨r, st⟩) ∧ 1 ≤ n ∧ n ≤ max := by
  obtain ⟨hu, hn⟩ := Reader.count_some h
  exact ⟨pqGetmsgint_uint st hu, hn⟩

theorem pqGetmsgint64_read {v : UInt64} (h : WireMessage.readInt64 p = some (v, r)) :
    pqGetmsgint64 ⟨p, st⟩ = (v, ⟨r, st⟩) := by
  obtain ⟨⟨high, r₁⟩, hh, h⟩ := Option.bind_eq_some_iff.1 h
  obtain ⟨⟨low, r₂⟩, hl, h⟩ := Option.bind_eq_some_iff.1 h
  cases h
  obtain ⟨hlen, rfl, rfl⟩ := Reader.uint_some hh
  obtain ⟨hlen', rfl, rfl⟩ := Reader.uint_some hl
  rw [pqGetmsgint64, pqCopymsgbytes, if_neg (not_lt.2 hlen)]
  dsimp only
  rw [pqCopymsgbytes, if_neg (not_lt.2 hlen')]

/-- A string and its length. -/
theorem pqGetmsgbytes_counted_read {t : CString} (h : Reader.counted w intMax p = some (t, r)) :
    ∃ n r', pqGetmsgint ⟨p, st⟩ w = (n, ⟨r', st⟩) ∧ n ≠ 0 ∧ n < 2 ^ 31 ∧
      pqGetmsgbytes ⟨r', st⟩ n = (some t.val, ⟨r, st⟩) := by
  obtain ⟨n, r', hu, h1, hmax, hn, ht, rfl⟩ := Reader.counted_some h
  refine ⟨n, r', pqGetmsgint_uint st hu, by omega, ?_, ?_⟩
  · rw [intMax] at hmax
    omega
  · have hin : ¬ ((n : ℤ) < 0 ∨ (r'.length : ℤ) < n) := by omega
    rw [pqGetmsgbytes, if_neg hin, ht, Int.toNat_natCast]

/-- **The column loop.** -/
theorem readColumns_read {columns : List (Option (CString × CString))} {msg : AliPgDecodeMessage}
    (h : Reader.times WireMessage.readColumn n p = some (columns, r))
    (hi : i + n ≤ MaxTupleAttributeNumber)
    (hm : ∀ j, i ≤ j → msg.attname j = none ∧ msg.atttype j = none) :
    readColumns n i ⟨p, st⟩ msg = .ok (⟨r, st⟩, { msg with
      attname := overlay msg.attname i (columns.map (Option.map fun c => c.1.val))
      atttype := overlay msg.atttype i (columns.map (Option.map fun c => c.2.val)) }) := by
  induction n generalizing i p columns msg with
  | zero =>
    obtain ⟨rfl, rfl⟩ := Reader.times_zero h
    simp [readColumns]
  | succ n ih =>
    obtain ⟨column, r', columns, hc, hcs, rfl⟩ := Reader.times_succ h
    have hi' : i < MaxTupleAttributeNumber := by omega
    obtain ⟨hin, hit⟩ := hm i le_rfl
    obtain ⟨⟨len, r₁⟩, hlen, hc⟩ := Option.bind_eq_some_iff.1 hc
    dsimp only at hc
    by_cases h0 : len = 0
    · -- a dropped column
      rw [if_pos h0] at hc
      cases hc
      rw [readColumns, pqGetmsgint_uint st hlen]
      dsimp only
      rw [if_pos h0, ih hcs (by omega) fun j hj => hm j (by omega), overlay_same _ _ hin,
        overlay_same _ _ hit]
      rfl
    · rw [if_neg h0] at hc
      obtain ⟨⟨name, r₂⟩, hname, hc⟩ := Option.bind_eq_some_iff.1 hc
      obtain ⟨⟨type, r₃⟩, htype, hc⟩ := Option.bind_eq_some_iff.1 hc
      cases hc
      obtain ⟨n₁, q₁, hn₁, hne, -, hname⟩ := pqGetmsgbytes_counted_read st hname
      obtain ⟨n₂, q₂, hn₂, -, -, htype⟩ := pqGetmsgbytes_counted_read st htype
      have hup : ∀ (f : ℕ → Option Bytes) (b : Option Bytes) (j : ℕ), i + 1 ≤ j →
          Function.update f i b j = f j := fun f b j hj => Function.update_of_ne (by omega) _ _
      rw [readColumns, hn₁]
      dsimp only
      rw [if_neg hne, hname]
      dsimp only
      rw [setAt_of_lt _ hi', ok_bind, hn₂]
      dsimp only
      rw [htype]
      dsimp only
      rw [setAt_of_lt _ hi', ok_bind, ih hcs (by omega)]
      · simp only [overlay_update]
        rfl
      · intro j hj
        simp only [hup _ _ j hj]
        exact hm j (by omega)

/-- **The key loop.** -/
theorem readKeys_read {keys : List CString} {msg : AliPgDecodeMessage}
    (h : Reader.times (Reader.counted 2 intMax) n p = some (keys, r))
    (hi : i + n ≤ MaxTupleAttributeNumber) :
    readKeys n i ⟨p, st⟩ msg = .ok (⟨r, st⟩, { msg with
      kAttname := overlay msg.kAttname i (keys.map fun k => some k.val) }) := by
  induction n generalizing i p keys msg with
  | zero =>
    obtain ⟨rfl, rfl⟩ := Reader.times_zero h
    simp [readKeys]
  | succ n ih =>
    obtain ⟨key, r', keys, hk, hks, rfl⟩ := Reader.times_succ h
    have hi' : i < MaxTupleAttributeNumber := by omega
    obtain ⟨len, q, hlen, -, -, hk⟩ := pqGetmsgbytes_counted_read st hk
    rw [readKeys, hlen]
    dsimp only
    rw [hk]
    dsimp only
    rw [setAt_of_lt _ hi', ok_bind, ih hks (by omega)]
    simp only [overlay_update]
    rfl

/-- **The cell loop.** -/
theorem readCells_read {cells : List Datum} {tup : DecodeTupleData}
    (h : Reader.times WireMessage.readCell n p = some (cells, r))
    (hi : i + n ≤ MaxTupleAttributeNumber)
    (ht : ∀ j, i ≤ j → tup.isnull j ∧ tup.changed j) :
    readCells n i ⟨p, st⟩ tup = .ok (true, ⟨r, st⟩, { tup with
      isnull := overlay tup.isnull i (cells.map Datum.isnull)
      changed := overlay tup.changed i (cells.map Datum.changed)
      svalues := overlay tup.svalues i (cells.map Datum.svalue) }) := by
  induction n generalizing i p cells tup with
  | zero =>
    obtain ⟨rfl, rfl⟩ := Reader.times_zero h
    simp [readCells]
  | succ n ih =>
    obtain ⟨cell, r', cells, hc, hcs, rfl⟩ := Reader.times_succ h
    have hi' : i < MaxTupleAttributeNumber := by omega
    obtain ⟨hin, hic⟩ := ht i le_rfl
    have hup : ∀ (a : ℕ → Bool) (b : Bool) (j : ℕ), i + 1 ≤ j → Function.update a i b j = a j :=
      fun a b j hj => Function.update_of_ne (by omega) _ _
    obtain ⟨⟨kind, r₁⟩, hkind, hc⟩ := Option.bind_eq_some_iff.1 hc
    obtain ⟨hbyte, hallowed⟩ := pqGetmsgbyte_tag st hkind
    rw [readCells, hbyte]
    dsimp only at hc ⊢
    by_cases hnull : kind = ch 'n'
    · rw [if_pos hnull] at hc ⊢
      cases hc
      rw [setAt_of_lt _ hi', ok_bind, ih hcs (by omega)]
      · simp only [overlay_update, overlay_same _ _ hin, overlay_same _ _ hic, List.map_cons,
          Datum.isnull, Datum.changed, Datum.svalue]
      · intro j hj
        exact ht j (by omega)
    · rw [if_neg hnull] at hc ⊢
      by_cases hext : kind = ch 'u'
      · rw [if_pos hext] at hc ⊢
        cases hc
        rw [setAt_of_lt _ hi', ok_bind, setAt_of_lt _ hi', ok_bind, setAt_of_lt _ hi', ok_bind,
          ih hcs (by omega)]
        · simp only [overlay_update]
          rfl
        · intro j hj
          simp only [hup _ _ j hj]
          exact ht j (by omega)
      · have htext : kind = ch 't' := by
          simp only [List.mem_cons, hnull, hext, List.not_mem_nil, or_false, false_or] at hallowed
          exact hallowed
        rw [if_neg hext] at hc ⊢
        rw [if_pos htext]
        obtain ⟨⟨t, r₂⟩, htext, hc⟩ := Option.bind_eq_some_iff.1 hc
        cases hc
        obtain ⟨len, q, hlen, -, hlt, hdata⟩ := pqGetmsgbytes_counted_read st htext
        rw [setAt_of_lt _ hi', ok_bind, hlen]
        dsimp only
        rw [toInt_of_lt hlt, hdata]
        dsimp only
        rw [setAt_of_lt _ hi', ok_bind, ih hcs (by omega)]
        · simp only [overlay_update, overlay_same _ _ hic, List.map_cons, Datum.isnull,
            Datum.changed, Datum.svalue]
        · intro j hj
          simp only [hup _ _ j hj]
          exact ht j (by omega)

theorem readTupleParts_read {cells : List Datum} {tup : DecodeTupleData}
    (h : WireMessage.readTuple p = some (cells, r)) (ht : tup.svalues = fun _ => none) :
    readTupleParts ⟨p, st⟩ tup = .ok (true, ⟨r, st⟩, tupleData cells) := by
  obtain ⟨⟨action, r₁⟩, haction, h⟩ := Option.bind_eq_some_iff.1 h
  obtain ⟨⟨natt, r₂⟩, hnatt, h⟩ := Option.bind_eq_some_iff.1 h
  obtain ⟨hbyte, hT⟩ := pqGetmsgbyte_tag st haction
  obtain ⟨hint, -, hmax⟩ := pqGetmsgint_count st hnatt
  have h31 : natt < 2 ^ 31 := lt_of_le_of_lt hmax (by decide)
  rw [readTupleParts, hbyte]
  dsimp only
  rw [if_neg (not_not.2 (List.mem_singleton.1 hT)), hint]
  dsimp only
  rw [toInt_of_lt h31, Int.toNat_natCast, readCells_read st h (by omega) (by simp)]
  simp only [overlay_zero, List.getElem?_map, ht, tupleData, Reader.length_times h]
  congr
  funext j
  cases cells[j]? <;> simp [Datum.svalue]

/-- The message after the names of the table are read. -/
def TableInfo.header (table : TableInfo) (type : MsgKind) : AliPgDecodeMessage where
  type := some type
  relname := some table.relname
  schemaname := some table.schemaname

theorem overlay_none {α β : Type} (l : List α) (f : α → Option β) :
    overlay (fun _ => none) 0 (l.map f) = fun i => l[i]?.bind f := by
  rw [overlay_zero]
  funext i
  cases h : l[i]? <;> simp [h]

theorem processReadColunmInfo_read {t : TableInfo} (type : MsgKind)
    (h : WireMessage.readColumnInfo p = some ((t.columns, t.keys), r)) :
    processReadColunmInfo ⟨p, st⟩ (t.header type) = .ok (true, ⟨r, st⟩, t.message type) := by
  obtain ⟨⟨natt, r₁⟩, hnatt, h⟩ := Option.bind_eq_some_iff.1 h
  obtain ⟨⟨columns, r₂⟩, hcolumns, h⟩ := Option.bind_eq_some_iff.1 h
  obtain ⟨⟨action, r₃⟩, haction, h⟩ := Option.bind_eq_some_iff.1 h
  obtain ⟨hint, -, hmax⟩ := pqGetmsgint_count st hnatt
  obtain ⟨hbyte, hallowed⟩ := pqGetmsgbyte_tag st haction
  have hlength := Reader.length_times hcolumns
  dsimp only at h hcolumns
  rw [processReadColunmInfo, hint]
  dsimp only
  rw [readColumns_read st hcolumns (by omega) fun j _ => ⟨rfl, rfl⟩, ok_bind, hbyte]
  dsimp only
  have hPM : ¬ (action ≠ ch 'M' ∧ action ≠ ch 'P') := by
    rcases List.mem_cons.1 hallowed with h | h
    · exact fun hne => hne.2 h
    · exact fun hne => hne.1 (List.mem_singleton.1 h)
  rw [if_neg hPM]
  by_cases hP : action = ch 'P'
  · rw [if_pos hP] at h ⊢
    obtain ⟨schemaname, relname, columns, keys⟩ := t
    cases h
    simp [TableInfo.header, TableInfo.message, overlay_none, hlength]
  · rw [if_neg hP] at h ⊢
    obtain ⟨⟨nkeys, r₄⟩, hnkeys, h⟩ := Option.bind_eq_some_iff.1 h
    obtain ⟨⟨keys, r₅⟩, hkeys, h⟩ := Option.bind_eq_some_iff.1 h
    obtain ⟨hint', -, hmax'⟩ := pqGetmsgint_count st hnkeys
    have hlength' := Reader.length_times hkeys
    obtain ⟨schemaname, relname, columns, keys⟩ := t
    cases h
    rw [hint']
    dsimp only
    rw [readKeys_read st hkeys (by omega), ok_bind]
    simp [TableInfo.header, TableInfo.message, overlay_none, hlength, hlength']

/-- **The names and the columns of a row change**, up to the tag that follows. -/
theorem readTable_read {allowed : List UInt8} {table : TableInfo} {action : UInt8}
    (h : WireMessage.readTable allowed p = some ((table, action), r))
    (type : MsgKind) :
    ∃ s first s', readRelname ⟨p, st⟩ { type := some type } = (s, table.header type) ∧
      pqGetmsgbyte s = (first, s') ∧ first ∈ ch 'C' :: allowed ∧ action ∈ allowed ∧
      skipColumnInfo first s' (table.header type) =
        .ok (action, ⟨r, st⟩, table.message type) := by
  obtain ⟨⟨schemaname, r₁⟩, hschema, h⟩ := Option.bind_eq_some_iff.1 h
  obtain ⟨⟨relname, r₂⟩, hrel, h⟩ := Option.bind_eq_some_iff.1 h
  obtain ⟨⟨first, r₃⟩, htag, h⟩ := Option.bind_eq_some_iff.1 h
  obtain ⟨n₁, q₁, hn₁, -, -, hschema⟩ := pqGetmsgbytes_counted_read st hschema
  obtain ⟨n₂, q₂, hn₂, -, -, hrel⟩ := pqGetmsgbytes_counted_read st hrel
  obtain ⟨hbyte, hallowed⟩ := pqGetmsgbyte_tag st htag
  have hnames : ∀ columns keys, readRelname ⟨p, st⟩ { type := some type } =
      (⟨r₂, st⟩, (TableInfo.mk schemaname relname columns keys).header type) := by
    intro columns keys
    rw [readRelname, hn₁]
    dsimp only
    rw [hschema]
    dsimp only
    rw [hn₂]
    dsimp only
    rw [hrel]
    rfl
  dsimp only at h
  by_cases hfirst : first = ch 'C'
  · rw [if_pos hfirst] at h
    obtain ⟨⟨⟨columns, keys⟩, r₄⟩, hinfo, h⟩ := Option.bind_eq_some_iff.1 h
    obtain ⟨⟨action', r₅⟩, haction, h⟩ := Option.bind_eq_some_iff.1 h
    cases h
    dsimp only at haction
    obtain ⟨hbyte', hallowed'⟩ := pqGetmsgbyte_tag st haction
    refine ⟨_, first, _, hnames columns keys, hbyte, hallowed, hallowed', ?_⟩
    have hread := processReadColunmInfo_read st (t := ⟨schemaname, relname, columns, keys⟩)
      type hinfo
    rw [skipColumnInfo, if_pos hfirst, hread, ok_bind]
    dsimp only
    rw [hbyte']
  · have hallowed' : first ∈ allowed := by
      rcases List.mem_cons.1 hallowed with h | h
      · exact absurd h hfirst
      · exact h
    rw [if_neg hfirst] at h
    cases h
    refine ⟨_, _, _, hnames [] [], hbyte, hallowed, hallowed', ?_⟩
    rw [skipColumnInfo, if_neg hfirst]
    rfl

variable {m : WireMessage}

theorem processRemoteBegin_read (h : WireMessage.readBegin p = some (m, r)) :
    processRemoteBegin ⟨p, st⟩ {} = (true, ⟨r, st⟩, m.message) := by
  obtain ⟨⟨flags, r₁⟩, hflags, h⟩ := Option.bind_eq_some_iff.1 h
  obtain ⟨⟨lsn, r₂⟩, hlsn, h⟩ := Option.bind_eq_some_iff.1 h
  obtain ⟨⟨tm, r₃⟩, htm, h⟩ := Option.bind_eq_some_iff.1 h
  obtain ⟨⟨xid, r₄⟩, hxid, h⟩ := Option.bind_eq_some_iff.1 h
  cases h
  rw [processRemoteBegin, pqGetmsgint_uint st hflags]
  dsimp only
  rw [pqGetmsgint64_read st hlsn]
  dsimp only
  rw [pqGetmsgint64_read st htm]
  dsimp only
  rw [pqGetmsgint_uint st hxid]
  rfl

theorem processRemoteCommit_read (h : WireMessage.readCommit p = some (m, r)) :
    processRemoteCommit ⟨p, st⟩ {} = (true, ⟨r, st⟩, m.message) := by
  obtain ⟨⟨flags, r₁⟩, hflags, h⟩ := Option.bind_eq_some_iff.1 h
  dsimp only at h
  rw [Option.ite_none_right_eq_some] at h
  obtain ⟨hzero, h⟩ := h
  obtain ⟨⟨lsn, r₂⟩, hlsn, h⟩ := Option.bind_eq_some_iff.1 h
  obtain ⟨⟨endLsn, r₃⟩, hend, h⟩ := Option.bind_eq_some_iff.1 h
  obtain ⟨⟨tm, r₄⟩, htm, h⟩ := Option.bind_eq_some_iff.1 h
  cases h
  rw [processRemoteCommit, pqGetmsgint_uint st hflags]
  dsimp only
  rw [if_neg (not_not.2 hzero), pqGetmsgint64_read st hlsn]
  dsimp only
  rw [pqGetmsgint64_read st hend]
  dsimp only
  rw [pqGetmsgint64_read st htm]
  rfl

theorem processRemoteInsert_read (h : WireMessage.readInsert p = some (m, r)) :
    processRemoteInsert ⟨p, st⟩ {} = .ok (true, ⟨r, st⟩, m.message) := by
  obtain ⟨⟨⟨table, action⟩, r₁⟩, htable, h⟩ := Option.bind_eq_some_iff.1 h
  obtain ⟨⟨newtuple, r₂⟩, hnew, h⟩ := Option.bind_eq_some_iff.1 h
  cases h
  obtain ⟨s, first, s', hnames, hbyte, hfirst, haction, hskip⟩ :=
    readTable_read st htable .insert
  have hfirst' : ¬ (first ≠ ch 'N' ∧ first ≠ ch 'C') := by
    rcases List.mem_cons.1 hfirst with h | h
    · exact fun hne => hne.2 h
    · exact fun hne => hne.1 (List.mem_singleton.1 h)
  rw [processRemoteInsert]
  dsimp only
  rw [hnames]
  dsimp only
  rw [hbyte]
  dsimp only
  rw [if_neg hfirst', hskip, ok_bind]
  dsimp only
  rw [if_neg (not_not.2 (List.mem_singleton.1 haction)), readTupleParts_read st hnew rfl]
  rfl

theorem processRemoteUpdate_read (h : WireMessage.readUpdate p = some (m, r)) :
    processRemoteUpdate ⟨p, st⟩ {} = .ok (true, ⟨r, st⟩, m.message) := by
  obtain ⟨⟨⟨table, action⟩, r₁⟩, htable, h⟩ := Option.bind_eq_some_iff.1 h
  obtain ⟨s, first, s', hnames, hbyte, hfirst, haction, hskip⟩ :=
    readTable_read st htable .update
  have hfirst' : ¬ (first ≠ ch 'K' ∧ first ≠ ch 'N' ∧ first ≠ ch 'C') := by
    rintro ⟨hK, hN, hC⟩
    simp only [List.mem_cons, hK, hN, hC, List.not_mem_nil, or_false] at hfirst
  have haction' : ¬ (action ≠ ch 'K' ∧ action ≠ ch 'N') := by
    rintro ⟨hK, hN⟩
    simp only [List.mem_cons, hK, hN, List.not_mem_nil, or_false] at haction
  rw [processRemoteUpdate]
  dsimp only at h ⊢
  rw [hnames]
  dsimp only
  rw [hbyte]
  dsimp only
  rw [if_neg hfirst', hskip, ok_bind]
  dsimp only
  rw [if_neg haction']
  by_cases hN : action = ch 'N'
  · rw [if_pos hN] at h
    obtain ⟨⟨newtuple, r₂⟩, hnew, h⟩ := Option.bind_eq_some_iff.1 h
    cases h
    have hK : action ≠ ch 'K' := fun hK => absurd (hN.symm.trans hK) (by decide)
    rw [if_neg hK, ok_bind]
    dsimp only
    rw [if_neg (not_not.2 hN), readTupleParts_read st hnew rfl]
    rfl
  · rw [if_neg hN] at h
    have hK : action = ch 'K' := by
      simp only [List.mem_cons, hN, List.not_mem_nil, or_false] at haction
      exact haction
    obtain ⟨⟨oldtuple, r₂⟩, hold, h⟩ := Option.bind_eq_some_iff.1 h
    obtain ⟨⟨action', r₃⟩, hN', h⟩ := Option.bind_eq_some_iff.1 h
    obtain ⟨⟨newtuple, r₄⟩, hnew, h⟩ := Option.bind_eq_some_iff.1 h
    cases h
    obtain ⟨hbyte', hmem⟩ := pqGetmsgbyte_tag st hN'
    rw [if_pos hK, readTupleParts_read st hold rfl, ok_bind]
    dsimp only
    rw [hbyte', ok_bind]
    dsimp only
    rw [if_neg (not_not.2 (List.mem_singleton.1 hmem)), readTupleParts_read st hnew rfl]
    rfl

theorem processRemoteDelete_read (h : WireMessage.readDelete p = some (m, r)) :
    processRemoteDelete ⟨p, st⟩ {} = .ok (true, ⟨r, st⟩, m.message) := by
  obtain ⟨⟨⟨table, action⟩, r₁⟩, htable, h⟩ := Option.bind_eq_some_iff.1 h
  obtain ⟨s, first, s', hnames, hbyte, hfirst, haction, hskip⟩ :=
    readTable_read st htable .delete
  have hfirst' : ¬ (first ≠ ch 'K' ∧ first ≠ ch 'E' ∧ first ≠ ch 'C') := by
    rintro ⟨hK, hE, hC⟩
    simp only [List.mem_cons, hK, hE, hC, List.not_mem_nil, or_false] at hfirst
  have haction' : ¬ (action ≠ ch 'K' ∧ action ≠ ch 'E') := by
    rintro ⟨hK, hE⟩
    simp only [List.mem_cons, hK, hE, List.not_mem_nil, or_false] at haction
  rw [processRemoteDelete]
  dsimp only at h ⊢
  rw [hnames]
  dsimp only
  rw [hbyte]
  dsimp only
  rw [if_neg hfirst', hskip, ok_bind]
  dsimp only
  rw [if_neg haction']
  by_cases hE : action = ch 'E'
  · rw [if_pos hE] at h ⊢
    cases h
    rfl
  · rw [if_neg hE] at h ⊢
    obtain ⟨⟨oldtuple, r₂⟩, hold, h⟩ := Option.bind_eq_some_iff.1 h
    cases h
    rw [readTupleParts_read st hold rfl]
    rfl

/-- The last of the actions. -/
theorem eq_delete_of_action {action : UInt8} (hmem : action ∈ WireMessage.actions)
    (hB : action ≠ ch 'B') (hC : action ≠ ch 'C') (hI : action ≠ ch 'I') (hU : action ≠ ch 'U') :
    action = ch 'D' := by
  simpa only [WireMessage.actions, List.mem_cons, hB, hC, hI, hU, List.not_mem_nil, or_false,
    false_or] using hmem

/-- **The decoder makes of a message what the format says**, and reads all of it. -/
theorem bdrProcessRemoteAction_read (h : WireMessage.read p = some (m, r)) :
    bdrProcessRemoteAction ⟨p, st⟩ {} = .ok (true, ⟨r, st⟩, m.message) := by
  obtain ⟨⟨action, r₁⟩, haction, h⟩ := Option.bind_eq_some_iff.1 h
  obtain ⟨hbyte, hmem⟩ := pqGetmsgbyte_tag st haction
  rw [bdrProcessRemoteAction, hbyte]
  dsimp only at h ⊢
  by_cases hB : action = ch 'B'
  · rw [if_pos hB] at h ⊢
    rw [processRemoteBegin_read st h]
  rw [if_neg hB] at h ⊢
  by_cases hC : action = ch 'C'
  · rw [if_pos hC] at h ⊢
    rw [processRemoteCommit_read st h]
  rw [if_neg hC] at h ⊢
  by_cases hI : action = ch 'I'
  · rw [if_pos hI] at h ⊢
    rw [processRemoteInsert_read st h, ok_bind]
  rw [if_neg hI] at h ⊢
  by_cases hU : action = ch 'U'
  · rw [if_pos hU] at h ⊢
    rw [processRemoteUpdate_read st h, ok_bind]
  rw [if_neg hU] at h ⊢
  have hD : action = ch 'D' := eq_delete_of_action hmem hB hC hI hU
  rw [if_pos hD, processRemoteDelete_read st h, ok_bind]

end

/-! ## What it rejects -/

/-- The payload starts with an action. -/
def StartsWithAction (p : Bytes) : Prop :=
  ∃ action ∈ p.head?, action ∈ WireMessage.actions

instance (p : Bytes) : Decidable (StartsWithAction p) :=
  inferInstanceAs (Decidable (∃ action ∈ p.head?, _))

section
variable {rc : Bool} {s s' : StringInfo} {msg msg' : AliPgDecodeMessage}

theorem rc_of_ok
    (h : (Except.ok (true, s', msg') : Except Fault _) = .ok (rc, s, msg)) : rc = true :=
  (Prod.mk.inj (Except.ok.inj h)).1.symm

theorem rc_of_dropped {x : Except Fault (Bool × StringInfo × AliPgDecodeMessage)}
    (h : (x >>= fun p => Except.ok (true, p.2.1, p.2.2)) = .ok (rc, s, msg)) : rc = true := by
  rcases x with fault | ⟨rc', s', msg'⟩
  · cases h
  · exact rc_of_ok h

end

/-- **What starts with an action is accepted**, unless the process fails on the way: the results of
the readers are dropped. -/
theorem bdrProcessRemoteAction_action {p : Bytes} (h : StartsWithAction p) {st : ℕ → UInt32}
    {rc : Bool} {s : StringInfo} {msg : AliPgDecodeMessage}
    (hd : bdrProcessRemoteAction ⟨p, st⟩ {} = .ok (rc, s, msg)) : rc = true := by
  obtain ⟨action, haction, hmem⟩ := h
  obtain ⟨r, rfl⟩ := List.head?_eq_some_iff.1 haction
  rw [bdrProcessRemoteAction, pqGetmsgbyte_cons] at hd
  dsimp only at hd
  by_cases hB : action = ch 'B'
  · rw [if_pos hB] at hd
    exact rc_of_ok hd
  rw [if_neg hB] at hd
  by_cases hC : action = ch 'C'
  · rw [if_pos hC] at hd
    exact rc_of_ok hd
  rw [if_neg hC] at hd
  by_cases hI : action = ch 'I'
  · rw [if_pos hI] at hd
    exact rc_of_dropped hd
  rw [if_neg hI] at hd
  by_cases hU : action = ch 'U'
  · rw [if_pos hU] at hd
    exact rc_of_dropped hd
  rw [if_neg hU] at hd
  have hD : action = ch 'D' := eq_delete_of_action hmem hB hC hI hU
  rw [if_pos hD] at hd
  exact rc_of_dropped hd

/-- **What does not is rejected.** -/
theorem bdrProcessRemoteAction_noAction {p : Bytes} (h : ¬ StartsWithAction p)
    (st : ℕ → UInt32) : ∃ s, bdrProcessRemoteAction ⟨p, st⟩ {} = .ok (false, s, {}) := by
  rcases p with _ | ⟨action, r⟩
  · exact ⟨_, rfl⟩
  · have hmem : action ∉ WireMessage.actions := fun hmem => h ⟨action, rfl, hmem⟩
    simp only [WireMessage.actions, List.mem_cons, List.not_mem_nil, or_false, not_or] at hmem
    obtain ⟨hB, hC, hI, hU, hD⟩ := hmem
    refine ⟨⟨r, st⟩, ?_⟩
    rw [bdrProcessRemoteAction, pqGetmsgbyte_cons]
    dsimp only
    rw [if_neg hB, if_neg hC, if_neg hI, if_neg hU, if_neg hD]

theorem WireMessage.startsWithAction_of_read {p r : Bytes} {m : WireMessage}
    (h : WireMessage.read p = some (m, r)) : StartsWithAction p := by
  obtain ⟨⟨action, r₁⟩, haction, -⟩ := Option.bind_eq_some_iff.1 h
  obtain ⟨rfl, hmem⟩ := Reader.tag_some haction
  exact ⟨action, rfl, hmem⟩

/-- **Malformed messages are rejected** exactly where the payload starts with no action or is of
the format. -/
theorem malformedRejected_iff (p : Bytes) :
    MalformedRejected p ↔ (StartsWithAction p → (WireMessage.read p).isSome) := by
  constructor
  · intro h haction
    rcases hread : WireMessage.read p with _ | m
    · have hrej := h fun _ => 0
      rw [hread] at hrej
      obtain ⟨s, msg, hd⟩ := hrej
      cases bdrProcessRemoteAction_action haction hd
    · rfl
  · intro h stale
    by_cases haction : StartsWithAction p
    · obtain ⟨⟨m, r⟩, hread⟩ := Option.isSome_iff_exists.1 (h haction)
      rw [hread]
      exact ⟨_, bdrProcessRemoteAction_read _ hread⟩
    · have hread : WireMessage.read p = none := by
        rcases hread : WireMessage.read p with _ | ⟨m, r⟩
        · rfl
        · exact absurd (WireMessage.startsWithAction_of_read hread) haction
      obtain ⟨s, hd⟩ := bdrProcessRemoteAction_noAction haction stale
      rw [hread]
      exact ⟨s, {}, hd⟩

/-- A begin message of which only the action has arrived. -/
theorem truncatedBegin_accepted : ¬ MalformedRejected [ch 'B'] := by
  intro h
  obtain ⟨s, msg, hd⟩ := h fun _ => 0
  cases bdrProcessRemoteAction_action ⟨ch 'B', rfl, by decide⟩ hd

/-! ## What the plugin writes -/

section
variable {w n max : ℕ} {r : Bytes}

theorem uint_send (h : n < 256 ^ w) : Reader.uint w (pqSendint n w ++ r) = some (n, r) :=
  Reader.uint_encodeBE h

theorem count_send (h : n < 256 ^ w) (h1 : 1 ≤ n) (hmax : n ≤ max) :
    Reader.count w max (pqSendint n w ++ r) = some (n, r) := Reader.count_encodeBE h h1 hmax

theorem counted_send {t : CString} (h : t.val.length + 1 < 256 ^ w)
    (hmax : t.val.length + 1 ≤ max) :
    Reader.counted w max (sendCounted w t ++ r) = some (t, r) := by
  have hle : t.val.length + 1 ≤ (cbytes t.val ++ r).length := by simp
  have hdrop : (cbytes t.val ++ r).drop (t.val.length + 1) = r := by
    rw [← length_cbytes, List.drop_left]
  rw [Reader.counted, sendCounted, List.append_assoc, count_send h (by omega) hmax]
  dsimp only [Option.bind_eq_bind, Option.bind_some]
  rw [if_pos hle, hdrop]
  exact congrArg (fun t => some (t, r)) (Subtype.ext (cstr_cbytes t.2 r))

theorem readInt64_send (v : UInt64) : WireMessage.readInt64 (pqSendint64 v ++ r) = some (v, r) := by
  have hv := v.toNat_lt
  have hh : v.toNat / 2 ^ 32 < 256 ^ 4 := by omega
  have hl : v.toNat % 2 ^ 32 < 256 ^ 4 := by omega
  have hsum : v.toNat / 2 ^ 32 * 2 ^ 32 + v.toNat % 2 ^ 32 = v.toNat := by omega
  have hhigh := uint_send (r := encodeBE 4 (v.toNat % 2 ^ 32) ++ r) hh
  have hlow := uint_send (r := r) hl
  rw [pqSendint] at hhigh hlow
  rw [WireMessage.readInt64, pqSendint64, List.append_assoc, hhigh]
  dsimp only [Option.bind_eq_bind, Option.bind_some]
  rw [hlow]
  dsimp only [Option.bind_some]
  rw [hsum]
  simp

theorem readCell_encode {d : Datum} (hf : d.Fits) (r : Bytes) :
    WireMessage.readCell (d.encode ++ r) = some (d, r) := by
  cases d with
  | null => rfl
  | external => rfl
  | value t =>
    have hfit : t.val.length + 1 < 2 ^ 31 := hf
    have hmax : t.val.length + 1 ≤ intMax := by rw [intMax]; omega
    have hread : WireMessage.readCell (Datum.encode (.value t) ++ r) =
        (Reader.counted 4 intMax (sendCounted 4 t ++ r)).bind fun p => some (.value p.1, p.2) := rfl
    rw [hread, counted_send (by omega) hmax]
    rfl

theorem readTuple_write {rel : Relation} {tuple : HeapTuple} (hne : rel.attrs ≠ [])
    (hn : rel.attrs.length ≤ MaxTupleAttributeNumber) (hf : ∀ d ∈ rel.cells tuple, d.Fits)
    (r : Bytes) :
    WireMessage.readTuple (writeTuple rel tuple ++ r) = some (rel.cells tuple, r) := by
  have h4 : rel.attrs.length < 256 ^ 4 := lt_of_le_of_lt hn (by decide)
  have hcells := Reader.times_flatMap WireMessage.readCell Datum.encode id (r := r)
    fun d hd => readCell_encode (hf d hd)
  rw [length_cells, List.map_id] at hcells
  rw [writeTuple_eq, WireMessage.readTuple]
  simp only [List.cons_append, List.nil_append, List.append_assoc]
  rw [Reader.tag_cons (List.mem_singleton_self _)]
  dsimp only [Option.bind_eq_bind, Option.bind_some]
  rw [count_send h4 (List.length_pos_of_ne_nil hne) hn]
  exact hcells

variable {kw : Bytes → Bool} {rel : Relation}

/-- A column on the wire. -/
def Attribute.wire (kw : Bytes → Bool) (a : Attribute) : Option (CString × CString) :=
  if a.attisdropped then none
  else some (⟨SqlText.quoteIdentifier kw a.attname, SqlText.nulFree_quoteIdentifier a.attname.2⟩,
    a.typname)

theorem readColumn_write {a : Attribute} (hf : a.Fits kw) (hp : 0 < a.attnum) (r : Bytes) :
    WireMessage.readColumn (writeAttribute kw pgDecodeStartup a ++ r) = some (a.wire kw, r) := by
  by_cases hd : a.attisdropped
  · rw [writeAttribute_dropped kw hd, WireMessage.readColumn, uint_send (by decide),
      Attribute.wire, if_pos hd]
    rfl
  · obtain ⟨hname, htype⟩ := hf
    have hname' : (SqlText.quoteIdentifier kw a.attname).length + 1 ≤ intMax :=
      hname.le.trans (by decide)
    have htype' : a.typname.val.length + 1 ≤ intMax := htype.le.trans (by decide)
    have hlen : Reader.uint 2 (sendCounted 2 (SqlText.quoteIdentifier kw a.attname) ++
        (sendCounted 2 a.typname ++ r)) = some ((SqlText.quoteIdentifier kw a.attname).length + 1,
          cbytes (SqlText.quoteIdentifier kw a.attname) ++ (sendCounted 2 a.typname ++ r)) := by
      rw [sendCounted, List.append_assoc, uint_send hname]
    rw [writeAttribute_live kw hd hp, List.append_assoc, WireMessage.readColumn, hlen]
    dsimp only [Option.bind_eq_bind, Option.bind_some]
    rw [if_neg (Nat.succ_ne_zero _),
      counted_send (t := ⟨_, SqlText.nulFree_quoteIdentifier a.attname.2⟩) hname hname']
    dsimp only [Option.bind_some]
    rw [counted_send htype htype', Attribute.wire, if_neg hd]
    rfl

/-- No count of the relation is zero. -/
structure Relation.Counted (rel : Relation) : Prop where
  attrs : rel.attrs ≠ []
  keys : ∀ indkey, rel.replidindex = some indkey → indexColumns rel indkey ≠ []

/-- The table of a change on the wire. -/
def Relation.wire (kw : Bytes → Bool) (rel : Relation) (change : ReorderBufferChange) :
    TableInfo where
  schemaname := rel.nspname
  relname := rel.relname
  columns := rel.attrs.map (Attribute.wire kw)
  keys := rel.keyNames change

theorem readColumnInfo_write (hf : rel.Fits kw) (hc : rel.Counted) (change : ReorderBufferChange)
    (r : Bytes) :
    ∃ p, writeColumInfo kw pgDecodeStartup rel change = ch 'C' :: p ∧
      WireMessage.readColumnInfo (p ++ r) =
        some (((rel.wire kw change).columns, (rel.wire kw change).keys), r) := by
  have h2 : rel.attrs.length < 256 ^ 2 := lt_of_le_of_lt hf.natts (by decide)
  have hpos := List.length_pos_of_ne_nil hc.attrs
  have hcolumns := fun r => Reader.times_flatMap WireMessage.readColumn
    (writeAttribute kw pgDecodeStartup) (Attribute.wire kw) (r := r) fun a ha =>
      readColumn_write (hf.attrs a ha) (rel.attnum_pos ha)
  obtain ⟨keys, hw, ⟨rfl, hn⟩ | ⟨indkey, hk, rfl, hn⟩⟩ := writeColumInfo_eq kw rel change
  · refine ⟨_, hw, ?_⟩
    rw [WireMessage.readColumnInfo, List.append_assoc, count_send h2 hpos hf.natts]
    dsimp only [Option.bind_eq_bind, Option.bind_some]
    rw [List.append_assoc, hcolumns]
    dsimp only [Option.bind_some, Relation.wire]
    rw [hn]
    rfl
  · refine ⟨_, hw, ?_⟩
    have hmax := length_indexColumns hk
    have hkey : ∀ k ∈ indexColumns rel indkey, ∀ r,
        Reader.counted 2 intMax (sendCounted 2 k.val ++ r) = some (k, r) := by
      intro k hk r
      have hfit : k.val.length + 1 < 256 ^ 2 := indexColumns_fits hf hk
      have hmax : k.val.length + 1 ≤ intMax := hfit.le.trans (by decide)
      exact counted_send hfit hmax
    have hkeys := Reader.times_flatMap (Reader.counted 2 intMax)
      (fun k : CString => sendCounted 2 k.val) id (r := r) hkey
    rw [WireMessage.readColumnInfo, List.append_assoc, count_send h2 hpos hf.natts]
    dsimp only [Option.bind_eq_bind, Option.bind_some]
    rw [List.append_assoc, hcolumns, writeKeys]
    simp only [Option.bind_some, List.cons_append, List.nil_append, List.append_assoc]
    rw [Reader.tag_cons (by decide)]
    dsimp only [Option.bind_some]
    rw [if_neg (by decide), count_send (lt_of_le_of_lt hmax (by decide))
      (List.length_pos_of_ne_nil (hc.keys indkey hk)) hmax]
    dsimp only [Option.bind_some]
    rw [hkeys, List.map_id]
    dsimp only [Option.bind_some, Relation.wire]
    rw [hn]

/-- **The names, columns and keys that the plugin writes**, up to the tag that follows. -/
theorem readTable_write (hf : rel.Fits kw) (hc : rel.Counted) (change : ReorderBufferChange)
    {allowed : List UInt8} {action : UInt8} (h : action ∈ allowed) (r : Bytes) :
    WireMessage.readTable allowed (writeRel kw pgDecodeStartup rel change ++ action :: r) =
      some ((rel.wire kw change, action), r) := by
  obtain ⟨p, hw, hp⟩ := readColumnInfo_write hf hc change (action :: r)
  have hnsp : rel.nspname.val.length + 1 ≤ intMax := hf.nspname.le.trans (by decide)
  have hrel : rel.relname.val.length + 1 ≤ intMax := hf.relname.le.trans (by decide)
  have hwrite : writeRel kw pgDecodeStartup rel change =
      sendCounted 2 rel.nspname ++ (sendCounted 2 rel.relname ++ ch 'C' :: p) := by
    rw [← hw, ← List.append_assoc]
    rfl
  rw [hwrite, WireMessage.readTable]
  simp only [List.append_assoc, List.cons_append]
  rw [counted_send hf.nspname hnsp]
  dsimp only [Option.bind_eq_bind, Option.bind_some]
  rw [counted_send hf.relname hrel]
  dsimp only [Option.bind_some]
  rw [Reader.tag_cons List.mem_cons_self]
  dsimp only [Option.bind_some]
  rw [if_pos rfl, hp]
  dsimp only [Option.bind_some]
  rw [Reader.tag_cons h]
  rfl

end

section
variable {kw : Bytes → Bool} {rel : Relation}

theorem readTuple_change {change : ReorderBufferChange} (hf : change.Fits kw rel)
    (hc : rel.Counted) (tuple : HeapTuple) (ht : tuple ∈ change.tuples) (r : Bytes) :
    WireMessage.readTuple (writeTuple rel tuple ++ r) = some (rel.cells tuple, r) := by
  refine readTuple_write hc.attrs hf.relation.natts ?_ r
  intro d hd
  rcases mem_cells hd with rfl | hd
  · trivial
  · exact hf.cells tuple ht d hd

theorem read_insert {newtuple : HeapTuple} (hf : (ReorderBufferChange.insert newtuple).Fits kw rel)
    (hc : rel.Counted) :
    WireMessage.read (pgDecodeChange kw pgDecodeStartup rel (.insert newtuple)) =
      some (.insert (rel.wire kw (.insert newtuple)) (rel.cells newtuple), []) := by
  have htable := readTable_write hf.relation hc (.insert newtuple)
    (List.mem_singleton_self (ch 'N')) (writeTuple rel newtuple)
  have hnew := readTuple_change hf hc newtuple (by simp [ReorderBufferChange.tuples]) []
  rw [List.append_nil] at hnew
  have hread : WireMessage.read (pgDecodeChange kw pgDecodeStartup rel (.insert newtuple)) =
      WireMessage.readInsert (writeRel kw pgDecodeStartup rel (.insert newtuple) ++
        ch 'N' :: writeTuple rel newtuple) := by
    rw [pgDecodeChange]
    simp only [List.cons_append, List.nil_append, List.append_assoc]
    rfl
  rw [hread, WireMessage.readInsert, htable]
  dsimp only [Option.bind_eq_bind, Option.bind_some]
  rw [hnew]
  rfl

theorem read_update {oldtuple : Option HeapTuple} {newtuple : HeapTuple}
    (hf : (ReorderBufferChange.update oldtuple newtuple).Fits kw rel) (hc : rel.Counted) :
    WireMessage.read (pgDecodeChange kw pgDecodeStartup rel (.update oldtuple newtuple)) =
      some (.update (rel.wire kw (.update oldtuple newtuple)) (oldtuple.map rel.cells)
        (rel.cells newtuple), []) := by
  have hnew := readTuple_change hf hc newtuple (by simp [ReorderBufferChange.tuples]) []
  rw [List.append_nil] at hnew
  rcases oldtuple with _ | old
  · have htable := readTable_write hf.relation hc (.update none newtuple)
      (show ch 'N' ∈ [ch 'K', ch 'N'] by decide) (writeTuple rel newtuple)
    have hread : WireMessage.read (pgDecodeChange kw pgDecodeStartup rel (.update none newtuple)) =
        WireMessage.readUpdate (writeRel kw pgDecodeStartup rel (.update none newtuple) ++
          ch 'N' :: writeTuple rel newtuple) := by
      rw [pgDecodeChange]
      simp only [List.cons_append, List.nil_append, List.append_assoc]
      rfl
    rw [hread, WireMessage.readUpdate, htable]
    dsimp only [Option.bind_eq_bind, Option.bind_some]
    rw [if_pos rfl, hnew]
    rfl
  · have htable := readTable_write hf.relation hc (.update (some old) newtuple)
      (show ch 'K' ∈ [ch 'K', ch 'N'] by decide)
      (writeTuple rel old ++ ch 'N' :: writeTuple rel newtuple)
    have hold := readTuple_change hf hc old (by simp [ReorderBufferChange.tuples])
      (ch 'N' :: writeTuple rel newtuple)
    have hread : WireMessage.read
        (pgDecodeChange kw pgDecodeStartup rel (.update (some old) newtuple)) =
        WireMessage.readUpdate (writeRel kw pgDecodeStartup rel (.update (some old) newtuple) ++
          ch 'K' :: (writeTuple rel old ++ ch 'N' :: writeTuple rel newtuple)) := by
      rw [pgDecodeChange]
      simp only [List.cons_append, List.nil_append, List.append_assoc]
      rfl
    rw [hread, WireMessage.readUpdate, htable]
    dsimp only [Option.bind_eq_bind, Option.bind_some]
    rw [if_neg (by decide), hold]
    dsimp only [Option.bind_some]
    rw [Reader.tag_cons (List.mem_singleton_self _)]
    dsimp only [Option.bind_some]
    rw [hnew]
    rfl

theorem read_delete {oldtuple : Option HeapTuple}
    (hf : (ReorderBufferChange.delete oldtuple).Fits kw rel) (hc : rel.Counted) :
    WireMessage.read (pgDecodeChange kw pgDecodeStartup rel (.delete oldtuple)) =
      some (.delete (rel.wire kw (.delete oldtuple)) (oldtuple.map rel.cells), []) := by
  rcases oldtuple with _ | old
  · have htable := readTable_write hf.relation hc (.delete none)
      (show ch 'E' ∈ [ch 'K', ch 'E'] by decide) []
    have hread : WireMessage.read (pgDecodeChange kw pgDecodeStartup rel (.delete none)) =
        WireMessage.readDelete (writeRel kw pgDecodeStartup rel (.delete none) ++ [ch 'E']) := by
      rw [pgDecodeChange]
      simp only [List.cons_append, List.nil_append]
      rfl
    rw [hread, WireMessage.readDelete, htable]
    rfl
  · have htable := readTable_write hf.relation hc (.delete (some old))
      (show ch 'K' ∈ [ch 'K', ch 'E'] by decide) (writeTuple rel old)
    have hold := readTuple_change hf hc old (by simp [ReorderBufferChange.tuples]) []
    rw [List.append_nil] at hold
    have hread : WireMessage.read (pgDecodeChange kw pgDecodeStartup rel (.delete (some old))) =
        WireMessage.readDelete (writeRel kw pgDecodeStartup rel (.delete (some old)) ++
          ch 'K' :: writeTuple rel old) := by
      rw [pgDecodeChange]
      simp only [List.cons_append, List.nil_append]
      rfl
    rw [hread, WireMessage.readDelete, htable]
    dsimp only [Option.bind_eq_bind, Option.bind_some]
    rw [if_neg (by decide), hold]
    rfl

theorem read_begin (txn : ReorderBufferTXN) :
    WireMessage.read (pgDecodeBeginTxn txn) =
      some (.begin txn.finalLsn txn.commitTime txn.xid, []) := by
  have hx : txn.xid.toNat < 256 ^ 4 := txn.xid.toNat_lt
  have hxid := uint_send (r := []) hx
  rw [List.append_nil] at hxid
  have hread : WireMessage.read (pgDecodeBeginTxn txn) = WireMessage.readBegin (pqSendint 0 4 ++
      (pqSendint64 txn.finalLsn ++ (pqSendint64 txn.commitTime ++ pqSendint txn.xid.toNat 4))) := by
    have haction : ∀ p, WireMessage.read (ch 'B' :: p) = WireMessage.readBegin p := fun _ => rfl
    rw [pgDecodeBeginTxn]
    simp only [List.cons_append, List.nil_append, List.append_assoc, haction]
  rw [hread, WireMessage.readBegin, uint_send (by decide)]
  dsimp only [Option.bind_eq_bind, Option.bind_some]
  rw [readInt64_send]
  dsimp only [Option.bind_some]
  rw [readInt64_send]
  dsimp only [Option.bind_some]
  rw [hxid]
  simp

theorem read_commit (txn : ReorderBufferTXN) (commitLsn : UInt64) :
    WireMessage.read (pgDecodeCommitTxn txn commitLsn) =
      some (.commit commitLsn txn.endLsn txn.commitTime, []) := by
  have htm := readInt64_send (r := []) txn.commitTime
  rw [List.append_nil] at htm
  have hread : WireMessage.read (pgDecodeCommitTxn txn commitLsn) =
      WireMessage.readCommit (pqSendint 0 4 ++ (pqSendint64 commitLsn ++
        (pqSendint64 txn.endLsn ++ pqSendint64 txn.commitTime))) := by
    have haction : ∀ p, WireMessage.read (ch 'C' :: p) = WireMessage.readCommit p := fun _ => rfl
    rw [pgDecodeCommitTxn]
    simp only [List.cons_append, List.nil_append, List.append_assoc, haction]
  rw [hread, WireMessage.readCommit, uint_send (by decide)]
  dsimp only [Option.bind_eq_bind, Option.bind_some]
  rw [if_pos rfl, readInt64_send]
  dsimp only [Option.bind_some]
  rw [readInt64_send]
  dsimp only [Option.bind_some]
  rw [htm]
  rfl

/-- No count of the message is zero. -/
def Callback.Counted : Callback → Prop
  | .begin _ | .commit _ _ => True
  | .change rel _ => rel.Counted

/-- **What the plugin writes is of the format**, and the decoder makes of it what was sent. -/
theorem Callback.read_payload (kw : Bytes → Bool) {cb : Callback} (hf : cb.Fits kw)
    (hc : cb.Counted) :
    ∃ m, WireMessage.read (cb.payload kw) = some (m, []) ∧ m.message = cb.message kw := by
  have hread : ∃ m, WireMessage.read (cb.payload kw) = some (m, []) := by
    cases cb with
    | begin txn => exact ⟨_, read_begin txn⟩
    | commit txn commitLsn => exact ⟨_, read_commit txn commitLsn⟩
    | change rel change =>
      cases change with
      | insert newtuple => exact ⟨_, read_insert hf hc⟩
      | update oldtuple newtuple => exact ⟨_, read_update hf hc⟩
      | delete oldtuple => exact ⟨_, read_delete hf hc⟩
  obtain ⟨m, hread⟩ := hread
  have hdecoded := (bdrProcessRemoteAction_read (fun _ => 0) hread).symm.trans
    (Callback.roundTrip kw hf fun _ => 0)
  exact ⟨m, hread, (Prod.mk.inj (Prod.mk.inj (Except.ok.inj hdecoded)).2).2⟩

end

end RdsDbsync
