/-
  The wire format: what the decoder makes of what the plugin writes.
-/
import RdsDbsync.Message
import RdsDbsync.Plugin

namespace RdsDbsync

open Bytes SqlText

/-! ## Fields -/

section
variable (r : Bytes) (st : ℕ → UInt32)

@[simp] theorem pqGetmsgbyte_cons (b : UInt8) : pqGetmsgbyte ⟨b :: r, st⟩ = (b, ⟨r, st⟩) := rfl

theorem pqCopymsgbytes_append {p : Bytes} {n : ℕ} (h : p.length = n) :
    pqCopymsgbytes ⟨p ++ r, st⟩ n = (p, ⟨r, st⟩) := by
  subst h; simp [pqCopymsgbytes]

theorem pqGetmsgint_send {i b : ℕ} (h : i < 256 ^ b) :
    pqGetmsgint ⟨pqSendint i b ++ r, st⟩ b = (i, ⟨r, st⟩) := by
  simp [pqGetmsgint, pqSendint, pqCopymsgbytes_append, decodeBE_encodeBE h]

theorem pqGetmsgint64_send (i : UInt64) :
    pqGetmsgint64 ⟨pqSendint64 i ++ r, st⟩ = (i, ⟨r, st⟩) := by
  have hi := i.toNat_lt
  have hh : i.toNat / 2 ^ 32 < 256 ^ 4 := by omega
  have hl : i.toNat % 2 ^ 32 < 256 ^ 4 := by omega
  have hv : i.toNat / 2 ^ 32 * 2 ^ 32 + i.toNat % 2 ^ 32 = i.toNat := by omega
  simp only [pqGetmsgint64, pqSendint64, List.append_assoc,
    pqCopymsgbytes_append _ _ (length_encodeBE 4 _), decodeBE_encodeBE hh, decodeBE_encodeBE hl, hv]
  simp

theorem pqGetmsgbytes_cbytes (t : CString) {n : ℤ} (hn : n = (t.val.length + 1 : ℕ)) :
    pqGetmsgbytes ⟨cbytes t ++ r, st⟩ n = (some t.val, ⟨r, st⟩) := by
  subst hn
  have hd : (cbytes t.val ++ r).drop (t.val.length + 1) = r := by
    rw [← length_cbytes, List.drop_left]
  simp only [pqGetmsgbytes, cstr_cbytes t.2, Int.toNat_natCast, hd, List.length_append,
    length_cbytes]
  rw [if_neg (by omega)]

theorem toInt_of_lt {n : ℕ} (h : n < 2 ^ 31) : toInt n = n := if_pos h

end

/-! ## Arrays -/

/-- The array `f` with the entries from `i` on overwritten by `l`. -/
def overlay {α : Type} (f : ℕ → α) (i : ℕ) (l : List α) : ℕ → α :=
  fun j => if j < i then f j else l[j - i]?.getD (f j)

section
variable {α : Type} (f : ℕ → α) (i : ℕ)

@[simp] theorem overlay_nil : overlay f i [] = f := by funext j; simp [overlay]

theorem overlay_zero (l : List α) : overlay f 0 l = fun j => l[j]?.getD (f j) := by
  funext j; simp [overlay]

theorem overlay_update (a : α) (l : List α) :
    overlay (Function.update f i a) (i + 1) l = overlay f i (a :: l) := by
  funext j
  rcases Nat.lt_trichotomy j i with h | rfl | h
  · simp [overlay, h, Nat.lt_succ_of_lt h, Function.update_of_ne (Nat.ne_of_lt h)]
  · simp [overlay]
  · obtain ⟨d, rfl⟩ := Nat.exists_eq_add_of_lt h
    have hd : i + d + 1 - i = d + 1 := by omega
    have hs : i + d + 1 - (i + 1) = d := by omega
    simp [overlay, hd, hs, Function.update_of_ne (show i + d + 1 ≠ i by omega),
      show ¬ i + d + 1 < i by omega, show ¬ i + d < i by omega]

/-- An entry that the array already holds may be written or not. -/
theorem overlay_same {a : α} (h : f i = a) (l : List α) :
    overlay f (i + 1) l = overlay f i (a :: l) := by
  rw [← overlay_update, ← h, Function.update_eq_self]

theorem setAt_of_lt {i : ℕ} (h : i < MaxTupleAttributeNumber) (a : α) :
    setAt f i a = .ok (Function.update f i a) := if_pos h

end

/-! ## Tuples -/

/-- The cells of a tuple as they are sent: a dropped column is NULL. -/
def Relation.cells (rel : Relation) (tuple : HeapTuple) : List Datum :=
  (rel.attrs.zip (heapDeformTuple tuple rel.attrs.length)).map fun p =>
    if p.1.attisdropped then .null else p.2

namespace Datum

/-- `isnull`, `changed` and `svalues` of a cell. -/
def isnull : Datum → Bool
  | value _ => false
  | _ => true

def changed : Datum → Bool
  | external => false
  | _ => true

def svalue : Datum → Option Bytes
  | value t => some t
  | _ => none

/-- A length that fits its field, which the decoder reads as an `int`. -/
def Fits : Datum → Prop
  | value t => t.val.length + 1 < 2 ^ 31
  | _ => True

instance : ∀ d : Datum, Decidable d.Fits
  | value _ => inferInstanceAs (Decidable (_ < _))
  | null | external => inferInstanceAs (Decidable True)

/-- The bytes of a cell. -/
def encode : Datum → Bytes
  | null => [ch 'n']
  | external => [ch 'u']
  | value t => [ch 't'] ++ sendCounted 4 t

end Datum

theorem writeDatum_eq (att : Attribute) (d : Datum) :
    writeDatum att d = (if att.attisdropped then Datum.null else d).encode := by
  cases d <;> by_cases h : att.attisdropped <;> simp [writeDatum, Datum.encode, h]

theorem writeTuple_eq (rel : Relation) (tuple : HeapTuple) :
    writeTuple rel tuple =
      [ch 'T'] ++ pqSendint rel.attrs.length 4 ++ (rel.cells tuple).flatMap Datum.encode := by
  simp [writeTuple, Relation.cells, writeDatum_eq, List.flatMap_map]

@[simp] theorem length_cells (rel : Relation) (tuple : HeapTuple) :
    (rel.cells tuple).length = rel.attrs.length := by
  simp [Relation.cells, heapDeformTuple]

/-- **The cell loop reads what was written.** -/
theorem readCells_encode (r : Bytes) (st : ℕ → UInt32) (ds : List Datum) (i : ℕ)
    (tup : DecodeTupleData) (hf : ∀ d ∈ ds, d.Fits) (hi : i + ds.length ≤ MaxTupleAttributeNumber)
    (ht : ∀ j, i ≤ j → tup.isnull j ∧ tup.changed j) :
    readCells ds.length i ⟨ds.flatMap Datum.encode ++ r, st⟩ tup =
      .ok (true, ⟨r, st⟩, { tup with
        isnull := overlay tup.isnull i (ds.map Datum.isnull)
        changed := overlay tup.changed i (ds.map Datum.changed)
        svalues := overlay tup.svalues i (ds.map Datum.svalue) }) := by
  induction ds generalizing i tup with
  | nil => simp [readCells]
  | cons d ds ih =>
    have hi' : i < MaxTupleAttributeNumber := by simp only [List.length_cons] at hi; omega
    obtain ⟨hin, hic⟩ := ht i le_rfl
    have ih := fun tup h => ih (i + 1) tup (fun e he => hf e (by simp [he]))
      (by simp only [List.length_cons] at hi; omega) h
    have hup : ∀ (a : ℕ → Bool) (b : Bool) (j : ℕ), i + 1 ≤ j → Function.update a i b j = a j :=
      fun a b j hj => Function.update_of_ne (by omega) _ _
    cases d with
    | null =>
      simp only [List.length_cons, List.flatMap_cons, Datum.encode, List.cons_append,
        List.nil_append, readCells, pqGetmsgbyte_cons, setAt_of_lt _ hi', if_true, ok_bind]
      refine (ih _ ?_).trans ?_
      · intro j hj
        exact ht j (by omega)
      · simp [overlay_update, overlay_same _ _ hin, overlay_same _ _ hic, Datum.isnull,
          Datum.changed, Datum.svalue]
    | external =>
      simp (disch := decide) only [List.length_cons, List.flatMap_cons, Datum.encode,
        List.cons_append, List.nil_append, readCells, pqGetmsgbyte_cons, setAt_of_lt _ hi', ok_bind,
        ch_inj, Char.reduceEq, if_true, if_false]
      refine (ih _ ?_).trans ?_
      · intro j hj
        simp only [hup _ _ j hj]; exact ht j (by omega)
      · simp [overlay_update, Datum.isnull, Datum.changed, Datum.svalue]
    | value t =>
      have hl : t.val.length + 1 < 2 ^ 31 := hf (.value t) (by simp)
      have hl' : t.val.length + 1 < 256 ^ 4 := by omega
      simp (disch := decide) only [List.length_cons, List.flatMap_cons, Datum.encode, sendCounted,
        List.cons_append, List.nil_append, List.append_assoc, readCells, pqGetmsgbyte_cons,
        setAt_of_lt _ hi', pqGetmsgint_send _ _ hl', toInt_of_lt hl, pqGetmsgbytes_cbytes _ _ t rfl,
        ok_bind, ch_inj, Char.reduceEq, if_true, if_false]
      refine (ih _ ?_).trans ?_
      · intro j hj
        simp only [hup _ _ j hj]; exact ht j (by omega)
      · simp [overlay_update, overlay_same _ _ hic, Datum.isnull, Datum.changed, Datum.svalue]

/-- The decoded form of a tuple of `rel`. -/
def Relation.tupleData (rel : Relation) (tuple : HeapTuple) : DecodeTupleData where
  natt := rel.attrs.length
  isnull i := ((rel.cells tuple)[i]?.map Datum.isnull).getD true
  changed i := ((rel.cells tuple)[i]?.map Datum.changed).getD true
  svalues i := (rel.cells tuple)[i]?.bind Datum.svalue

theorem readTupleParts_writeTuple (rel : Relation) (tuple : HeapTuple) (r : Bytes)
    (st : ℕ → UInt32) (hn : rel.attrs.length ≤ MaxTupleAttributeNumber)
    (hf : ∀ d ∈ rel.cells tuple, d.Fits) {tup : DecodeTupleData}
    (ht : tup.svalues = fun _ => none) :
    readTupleParts ⟨writeTuple rel tuple ++ r, st⟩ tup = .ok (true, ⟨r, st⟩, rel.tupleData tuple) := by
  have h4 : rel.attrs.length < 256 ^ 4 := lt_of_le_of_lt hn (by decide)
  have h31 : rel.attrs.length < 2 ^ 31 := lt_of_le_of_lt hn (by decide)
  simp only [writeTuple_eq, readTupleParts, List.cons_append, List.nil_append, List.append_assoc,
    pqGetmsgbyte_cons, ne_eq, not_true_eq_false, if_false, pqGetmsgint_send _ _ h4,
    toInt_of_lt h31, Int.toNat_natCast]
  rw [← length_cells rel tuple, readCells_encode r st _ 0 _ hf (by simpa using hn) (by simp)]
  simp only [overlay_zero, List.getElem?_map, ht, Relation.tupleData, length_cells]
  congr
  funext j
  cases (rel.cells tuple)[j]? <;> simp [Datum.svalue]

theorem mem_cells {rel : Relation} {tuple : HeapTuple} {d : Datum} (h : d ∈ rel.cells tuple) :
    d = .null ∨ d ∈ tuple := by
  obtain ⟨⟨att, d'⟩, hp, rfl⟩ := List.mem_map.1 h
  obtain ⟨i, -, hi⟩ := List.mem_map.1 (List.of_mem_zip hp).2
  dsimp only at hi ⊢
  split_ifs
  · exact Or.inl rfl
  · rw [← hi, List.getD_eq_getElem?_getD]
    rcases ht : tuple[i]? with _ | d
    · exact Or.inl rfl
    · exact Or.inr (List.mem_of_getElem? ht)

/-! ## Column and key blocks -/

section
variable (kw : Bytes → Bool)

/-- The name and the type of a column on the wire; a dropped column has none. -/
def Attribute.wireName (a : Attribute) : Option Bytes :=
  if a.attisdropped then none else some (quoteIdentifier kw a.attname)

def Attribute.wireType (a : Attribute) : Option Bytes :=
  if a.attisdropped then none else some a.typname

/-- The column's name and type fit their length fields. -/
def Attribute.Fits (a : Attribute) : Prop :=
  (quoteIdentifier kw a.attname).length + 1 < 2 ^ 16 ∧ a.typname.val.length + 1 < 2 ^ 16

instance (a : Attribute) : Decidable (a.Fits kw) := inferInstanceAs (Decidable (_ ∧ _))

theorem Relation.attnum_pos (rel : Relation) {a : Attribute} (h : a ∈ rel.attrs) : 0 < a.attnum := by
  obtain ⟨i, hi, rfl⟩ := List.getElem_of_mem h
  rw [rel.attnum_eq i hi]; omega

theorem pqGetmsgbytes_counted (t : CString) (r : Bytes) (st : ℕ → UInt32) {w : ℕ}
    (h : t.val.length + 1 < 256 ^ w) :
    pqGetmsgint ⟨sendCounted w t ++ r, st⟩ w = (t.val.length + 1, ⟨cbytes t ++ r, st⟩) ∧
      pqGetmsgbytes ⟨cbytes t ++ r, st⟩ (t.val.length + 1 : ℕ) = (some t.val, ⟨r, st⟩) := by
  refine ⟨?_, pqGetmsgbytes_cbytes r st t rfl⟩
  rw [sendCounted, List.append_assoc, pqGetmsgint_send _ _ h]

theorem writeAttribute_dropped {a : Attribute} (h : a.attisdropped) :
    writeAttribute kw pgDecodeStartup a = pqSendint 0 2 := if_pos h

theorem writeAttribute_live {a : Attribute} (h : ¬ a.attisdropped) (hp : 0 < a.attnum) :
    writeAttribute kw pgDecodeStartup a =
      sendCounted 2 (quoteIdentifier kw a.attname) ++ sendCounted 2 a.typname := by
  rw [writeAttribute, if_neg h, if_neg (by omega)]; rfl

/-- **The column loop reads what was written.** -/
theorem readColumns_write (r : Bytes) (st : ℕ → UInt32) (as : List Attribute) (i : ℕ)
    (msg : AliPgDecodeMessage) (hf : ∀ a ∈ as, a.Fits kw) (hp : ∀ a ∈ as, 0 < a.attnum)
    (hi : i + as.length ≤ MaxTupleAttributeNumber)
    (hm : ∀ j, i ≤ j → msg.attname j = none ∧ msg.atttype j = none) :
    readColumns as.length i ⟨as.flatMap (writeAttribute kw pgDecodeStartup) ++ r, st⟩ msg =
      .ok (⟨r, st⟩, { msg with
        attname := overlay msg.attname i (as.map (Attribute.wireName kw))
        atttype := overlay msg.atttype i (as.map Attribute.wireType) }) := by
  induction as generalizing i msg with
  | nil => simp [readColumns]
  | cons a as ih =>
    have hi' : i < MaxTupleAttributeNumber := by simp only [List.length_cons] at hi; omega
    obtain ⟨hin, hit⟩ := hm i le_rfl
    have ih := fun msg h => ih (i + 1) msg (fun b hb => hf b (by simp [hb]))
      (fun b hb => hp b (by simp [hb])) (by simp only [List.length_cons] at hi; omega) h
    by_cases hd : a.attisdropped
    · have h0 : (0 : ℕ) < 256 ^ 2 := by decide
      simp only [List.length_cons, List.flatMap_cons, writeAttribute_dropped kw hd,
        List.append_assoc, readColumns, pqGetmsgint_send _ _ h0, if_true]
      refine (ih _ fun j hj => hm j (by omega)).trans ?_
      simp [overlay_same _ _ hin, overlay_same _ _ hit, Attribute.wireName, Attribute.wireType, hd]
    · obtain ⟨hq, ht⟩ := hf a (by simp)
      have hup : ∀ (f : ℕ → Option Bytes) (b : Option Bytes) (j : ℕ), i + 1 ≤ j →
          Function.update f i b j = f j := fun f b j hj => Function.update_of_ne (by omega) _ _
      have hnf : NulFree (quoteIdentifier kw a.attname) := nulFree_quoteIdentifier a.attname.2
      obtain ⟨n1, n2⟩ := pqGetmsgbytes_counted ⟨_, hnf⟩
        (sendCounted 2 a.typname ++ (as.flatMap (writeAttribute kw pgDecodeStartup) ++ r)) st
        (w := 2) hq
      obtain ⟨t1, t2⟩ := pqGetmsgbytes_counted a.typname
        (as.flatMap (writeAttribute kw pgDecodeStartup) ++ r) st (w := 2) ht
      simp only [List.length_cons, List.flatMap_cons, writeAttribute_live kw hd (hp a (by simp)),
        List.append_assoc, readColumns] at n1 n2 t1 t2 ⊢
      simp only [n1, n2, t1, t2, setAt_of_lt _ hi', ok_bind, Nat.add_one_ne_zero, if_false]
      refine (ih _ ?_).trans ?_
      · intro j hj
        simp only [hup _ _ j hj]; exact hm j (by omega)
      · simp [overlay_update, Attribute.wireName, Attribute.wireType, hd]

/-- **The key loop reads what was written.** -/
theorem readKeys_write (r : Bytes) (st : ℕ → UInt32) (ks : List CString) (i : ℕ)
    (msg : AliPgDecodeMessage) (hf : ∀ k ∈ ks, k.val.length + 1 < 2 ^ 16)
    (hi : i + ks.length ≤ MaxTupleAttributeNumber) :
    readKeys ks.length i ⟨ks.flatMap (fun k => sendCounted 2 k.val) ++ r, st⟩ msg =
      .ok (⟨r, st⟩, { msg with
        kAttname := overlay msg.kAttname i (ks.map fun k => some k.val) }) := by
  induction ks generalizing i msg with
  | nil => simp [readKeys]
  | cons k ks ih =>
    have hi' : i < MaxTupleAttributeNumber := by simp only [List.length_cons] at hi; omega
    obtain ⟨k1, k2⟩ := pqGetmsgbytes_counted k (ks.flatMap (fun k => sendCounted 2 k.val) ++ r) st
      (w := 2) (hf k (by simp))
    simp only [List.length_cons, List.flatMap_cons, List.append_assoc, readKeys, k1, k2,
      setAt_of_lt _ hi', ok_bind]
    refine (ih (i + 1) _ (fun b hb => hf b (by simp [hb]))
      (by simp only [List.length_cons] at hi; omega)).trans ?_
    simp [overlay_update]

/-! ## Messages -/

/-- The columns fit the decoder's arrays, and the names and types their length fields. -/
structure Relation.Fits (rel : Relation) : Prop where
  nspname : rel.nspname.val.length + 1 < 2 ^ 16
  relname : rel.relname.val.length + 1 < 2 ^ 16
  natts : rel.attrs.length ≤ MaxTupleAttributeNumber
  attrs : ∀ a ∈ rel.attrs, a.Fits kw

instance (rel : Relation) : Decidable (rel.Fits kw) :=
  decidable_of_iff
    (rel.nspname.val.length + 1 < 2 ^ 16 ∧ rel.relname.val.length + 1 < 2 ^ 16 ∧
      rel.attrs.length ≤ MaxTupleAttributeNumber ∧ ∀ a ∈ rel.attrs, a.Fits kw)
    ⟨fun ⟨h1, h2, h3, h4⟩ => ⟨h1, h2, h3, h4⟩, fun ⟨h1, h2, h3, h4⟩ => ⟨h1, h2, h3, h4⟩⟩

/-- The tuples of a change. -/
def ReorderBufferChange.tuples : ReorderBufferChange → List HeapTuple
  | insert newtuple => [newtuple]
  | update oldtuple newtuple => newtuple :: oldtuple.toList
  | delete oldtuple => oldtuple.toList

/-- The key names sent with a change. -/
def Relation.keyNames (rel : Relation) : ReorderBufferChange → List CString
  | .insert _ => []
  | _ => (rel.replidindex.map (indexColumns rel)).getD []

/-- The part of a message that describes the relation. -/
def Relation.message (rel : Relation) (type : MsgKind) (keys : List CString) :
    AliPgDecodeMessage where
  type := some type
  relname := some rel.relname
  schemaname := some rel.nspname
  natt := rel.attrs.length
  attname i := rel.attrs[i]?.bind (Attribute.wireName kw)
  atttype i := rel.attrs[i]?.bind Attribute.wireType
  kNatt := keys.length
  kAttname i := keys[i]?.map Subtype.val

/-- The message of a row change. -/
def changeMessage (rel : Relation) (change : ReorderBufferChange) : AliPgDecodeMessage :=
  match change with
  | .insert newtuple =>
    { rel.message kw .insert [] with newtuple := rel.tupleData newtuple }
  | .update oldtuple newtuple =>
    { rel.message kw .update (rel.keyNames change) with
      hasKeyOrOld := oldtuple.isSome
      oldtuple := (oldtuple.map rel.tupleData).getD {}
      newtuple := rel.tupleData newtuple }
  | .delete oldtuple =>
    { rel.message kw .delete (rel.keyNames change) with
      hasKeyOrOld := oldtuple.isSome
      oldtuple := (oldtuple.map rel.tupleData).getD {} }

theorem overlay_bind {β : Type} (l : List Attribute) (f : Attribute → Option β) :
    overlay (fun _ => none) 0 (l.map f) = fun i => l[i]?.bind f := by
  rw [overlay_zero]; funext i
  cases h : l[i]? <;> simp [h]

variable {kw} {rel : Relation}

theorem length_indexColumns {ks : List ℤ} (hk : rel.replidindex = some ks) :
    (indexColumns rel ks).length ≤ MaxTupleAttributeNumber :=
  (List.length_filterMap_le _ _).trans ((rel.indkey_length ks hk).trans (by decide))

theorem indexColumns_fits (hf : rel.Fits kw) {ks : List ℤ} {k : CString}
    (h : k ∈ indexColumns rel ks) : k.val.length + 1 < 2 ^ 16 := by
  obtain ⟨n, -, hn⟩ := List.mem_filterMap.1 h
  split_ifs at hn
  obtain ⟨a, ha, rfl⟩ := Option.map_eq_some_iff.1 hn
  have hle : a.attname.val.length ≤ (quoteIdentifier kw a.attname).length := by
    by_cases hp : isPlain kw a.attname
    · rw [quoteIdentifier_of_plain hp]
    · exact (length_lt_quoteIdentifier hp).le
  have := (hf.attrs a (List.mem_of_find?_eq_some ha)).1
  omega

theorem readRelname_writeRel (hf : rel.Fits kw) (r : Bytes) (st : ℕ → UInt32)
    (msg : AliPgDecodeMessage) :
    readRelname ⟨sendCounted 2 rel.nspname ++ (sendCounted 2 rel.relname ++ r), st⟩ msg =
      (⟨r, st⟩, { msg with relname := some rel.relname, schemaname := some rel.nspname }) := by
  obtain ⟨n1, n2⟩ := pqGetmsgbytes_counted rel.nspname (sendCounted 2 rel.relname ++ r) st
    (w := 2) hf.nspname
  obtain ⟨r1, r2⟩ := pqGetmsgbytes_counted rel.relname r st (w := 2) hf.relname
  simp only [readRelname, n1, n2, r1, r2]

/-- The message after the names of the relation are read. -/
def Relation.header (rel : Relation) (type : MsgKind) : AliPgDecodeMessage where
  type := some type
  relname := some rel.relname
  schemaname := some rel.nspname

theorem readColumns_header (hf : rel.Fits kw) (type : MsgKind) (r : Bytes) (st : ℕ → UInt32) :
    readColumns rel.attrs.length 0
        ⟨rel.attrs.flatMap (writeAttribute kw pgDecodeStartup) ++ r, st⟩
        { rel.header type with natt := rel.attrs.length } =
      .ok (⟨r, st⟩, rel.message kw type []) := by
  rw [readColumns_write kw r st rel.attrs 0 _ hf.attrs (fun a ha => rel.attnum_pos ha)
    (by simpa using hf.natts) (fun j _ => ⟨rfl, rfl⟩)]
  simp [Relation.header, Relation.message, overlay_bind]

theorem readKeys_message (hf : rel.Fits kw) (type : MsgKind) {indkey : List ℤ}
    (hk : rel.replidindex = some indkey) (r : Bytes) (st : ℕ → UInt32) :
    readKeys (indexColumns rel indkey).length 0
        ⟨(indexColumns rel indkey).flatMap (fun k => sendCounted 2 k.val) ++ r, st⟩
        { rel.message kw type [] with kNatt := (indexColumns rel indkey).length } =
      .ok (⟨r, st⟩, rel.message kw type (indexColumns rel indkey)) := by
  rw [readKeys_write r st _ 0 _ (fun k hk => indexColumns_fits hf hk)
    (by simpa using length_indexColumns hk)]
  simp only [Relation.message, overlay_zero, List.getElem?_map]
  congr
  funext i
  cases (indexColumns rel indkey)[i]? <;> rfl

/-- The key block is `P` for a change without key names, `M` with the names otherwise. -/
theorem writeColumInfo_eq (kw : Bytes → Bool) (rel : Relation) (change : ReorderBufferChange) :
    ∃ keys, writeColumInfo kw pgDecodeStartup rel change =
        ch 'C' :: (pqSendint rel.attrs.length 2 ++
          (rel.attrs.flatMap (writeAttribute kw pgDecodeStartup) ++ keys)) ∧
      (keys = [ch 'P'] ∧ rel.keyNames change = [] ∨
        ∃ indkey, rel.replidindex = some indkey ∧ keys = writeKeys rel indkey ∧
          rel.keyNames change = indexColumns rel indkey) := by
  rcases hk : rel.replidindex with _ | indkey
  · refine ⟨[ch 'P'], ?_, Or.inl ⟨rfl, ?_⟩⟩
    · cases change <;> simp only [writeColumInfo, hk, pgDecodeStartup, List.append_assoc] <;> rfl
    · cases change <;> simp [Relation.keyNames, hk]
  · rcases change with nt | ⟨ot, nt⟩ | ot
    · refine ⟨[ch 'P'], ?_, Or.inl ⟨rfl, rfl⟩⟩
      simp only [writeColumInfo, List.append_assoc]; rfl
    all_goals
      refine ⟨writeKeys rel indkey, ?_, Or.inr ⟨indkey, rfl, rfl, ?_⟩⟩
      · simp only [writeColumInfo, hk, pgDecodeStartup, List.append_assoc]; rfl
      · simp [Relation.keyNames, hk]

/-- **The column and key block of a change is read back.** -/
theorem processReadColunmInfo_write (hf : rel.Fits kw) (change : ReorderBufferChange)
    (type : MsgKind) (r : Bytes) (st : ℕ → UInt32) :
    ∃ p, writeColumInfo kw pgDecodeStartup rel change = ch 'C' :: p ∧
      processReadColunmInfo ⟨p ++ r, st⟩ (rel.header type) =
        .ok (true, ⟨r, st⟩, rel.message kw type (rel.keyNames change)) := by
  have h2 : rel.attrs.length < 256 ^ 2 := lt_of_le_of_lt hf.natts (by decide)
  obtain ⟨keys, hw, ⟨rfl, hn⟩ | ⟨indkey, hk, rfl, hn⟩⟩ := writeColumInfo_eq kw rel change
  · refine ⟨_, hw, ?_⟩
    simp only [processReadColunmInfo, List.append_assoc, pqGetmsgint_send _ _ h2,
      readColumns_header hf, ok_bind, hn]
    rfl
  · have hl : (indexColumns rel indkey).length < 256 ^ 2 :=
      lt_of_le_of_lt (length_indexColumns hk) (by decide)
    refine ⟨_, hw, ?_⟩
    simp (disch := decide) only [processReadColunmInfo, List.append_assoc, pqGetmsgint_send _ _ h2,
      readColumns_header hf, ok_bind, writeKeys, List.cons_append, List.nil_append,
      pqGetmsgbyte_cons, pqGetmsgint_send _ _ hl, readKeys_message hf type hk, hn, ch_inj,
      Char.reduceEq, ne_eq, not_true_eq_false, false_and, if_false]

/-- **The names, columns and key of a change are read back**, up to the byte that follows. -/
theorem read_writeRel (hf : rel.Fits kw) (change : ReorderBufferChange) (type : MsgKind)
    (r : Bytes) (st : ℕ → UInt32) :
    ∃ p, readRelname ⟨writeRel kw pgDecodeStartup rel change ++ r, st⟩ { type := some type } =
        (⟨ch 'C' :: (p ++ r), st⟩, rel.header type) ∧
      ∀ b r', r = b :: r' → skipColumnInfo (ch 'C') ⟨p ++ r, st⟩ (rel.header type) =
        .ok (b, ⟨r', st⟩, rel.message kw type (rel.keyNames change)) := by
  obtain ⟨p, hw, hp⟩ := processReadColunmInfo_write hf change type r st
  refine ⟨p, ?_, ?_⟩
  · simp only [writeRel, show pgDecodeStartup.outputColumnInfo = true from rfl, if_true, hw,
      List.append_assoc, readRelname_writeRel hf]
    rfl
  · intro b r' hr
    subst hr
    simp only [skipColumnInfo, if_true, hp, ok_bind, pqGetmsgbyte_cons]

/-- The counts and lengths of a relation and of a change over it fit. -/
structure ReorderBufferChange.Fits (kw : Bytes → Bool) (rel : Relation)
    (change : ReorderBufferChange) : Prop where
  relation : rel.Fits kw
  cells : ∀ t ∈ change.tuples, ∀ d ∈ t, d.Fits

instance (change : ReorderBufferChange) : Decidable (change.Fits kw rel) :=
  decidable_of_iff (rel.Fits kw ∧ ∀ t ∈ change.tuples, ∀ d ∈ t, d.Fits)
    ⟨fun ⟨h1, h2⟩ => ⟨h1, h2⟩, fun ⟨h1, h2⟩ => ⟨h1, h2⟩⟩

theorem ReorderBufferChange.Fits.tuple {change : ReorderBufferChange} (hf : change.Fits kw rel)
    {t : HeapTuple} (ht : t ∈ change.tuples) (r : Bytes) (st : ℕ → UInt32) :
    readTupleParts ⟨writeTuple rel t ++ r, st⟩ {} = .ok (true, ⟨r, st⟩, rel.tupleData t) := by
  refine readTupleParts_writeTuple rel t r st hf.relation.natts ?_ rfl
  intro d hd
  rcases mem_cells hd with rfl | hd
  · trivial
  · exact hf.cells t ht d hd

theorem insert_roundTrip {newtuple : HeapTuple}
    (hf : (ReorderBufferChange.insert newtuple).Fits kw rel) (st : ℕ → UInt32) :
    bdrProcessRemoteAction
        ⟨pgDecodeChange kw pgDecodeStartup rel (.insert newtuple), st⟩ {} =
      .ok (true, ⟨[], st⟩, changeMessage kw rel (.insert newtuple)) := by
  obtain ⟨p, hn, hs⟩ := read_writeRel hf.relation (.insert newtuple) .insert
    (ch 'N' :: writeTuple rel newtuple) st
  have ht := hf.tuple (t := newtuple) (by simp [ReorderBufferChange.tuples]) [] st
  rw [List.append_nil] at ht
  simp (disch := decide) only [pgDecodeChange, List.cons_append, List.nil_append, List.append_assoc,
    bdrProcessRemoteAction, pqGetmsgbyte_cons, processRemoteInsert, hn, hs _ _ rfl, ok_bind, ch_inj,
    Char.reduceEq, ne_eq, not_true_eq_false, not_false_eq_true, and_false, if_true, if_false]
  have hz : (rel.message kw .insert (rel.keyNames (.insert newtuple))).newtuple = {} := rfl
  rw [hz, ht]
  rfl

theorem update_roundTrip {oldtuple : Option HeapTuple} {newtuple : HeapTuple}
    (hf : (ReorderBufferChange.update oldtuple newtuple).Fits kw rel) (st : ℕ → UInt32) :
    bdrProcessRemoteAction
        ⟨pgDecodeChange kw pgDecodeStartup rel (.update oldtuple newtuple), st⟩ {} =
      .ok (true, ⟨[], st⟩, changeMessage kw rel (.update oldtuple newtuple)) := by
  have ht := hf.tuple (t := newtuple) (by simp [ReorderBufferChange.tuples]) [] st
  rw [List.append_nil] at ht
  have hz : ∀ c, (rel.message kw .update (rel.keyNames c)).newtuple = {} ∧
      (rel.message kw .update (rel.keyNames c)).oldtuple = {} := fun c => ⟨rfl, rfl⟩
  rcases oldtuple with _ | old
  · obtain ⟨p, hn, hs⟩ := read_writeRel hf.relation (.update none newtuple) .update
      (ch 'N' :: writeTuple rel newtuple) st
    simp (disch := decide) only [pgDecodeChange, List.cons_append, List.nil_append,
      List.append_assoc, bdrProcessRemoteAction, pqGetmsgbyte_cons, processRemoteUpdate, hn,
      hs _ _ rfl, ok_bind, (hz _).1, ht, ch_inj, Char.reduceEq, ne_eq, not_true_eq_false,
      not_false_eq_true, and_false, if_true, if_false]
    rfl
  · obtain ⟨p, hn, hs⟩ := read_writeRel hf.relation (.update (some old) newtuple) .update
      (ch 'K' :: (writeTuple rel old ++ ch 'N' :: writeTuple rel newtuple)) st
    have ho := hf.tuple (t := old) (by simp [ReorderBufferChange.tuples])
      (ch 'N' :: writeTuple rel newtuple) st
    simp (disch := decide) only [pgDecodeChange, List.cons_append, List.nil_append,
      List.append_assoc, bdrProcessRemoteAction, pqGetmsgbyte_cons, processRemoteUpdate, hn,
      hs _ _ rfl, ok_bind, (hz _).2, ho, (hz _).1, ht, ch_inj, Char.reduceEq, ne_eq,
      not_true_eq_false, not_false_eq_true, and_false, if_true, if_false]
    rfl

theorem delete_roundTrip {oldtuple : Option HeapTuple}
    (hf : (ReorderBufferChange.delete oldtuple).Fits kw rel) (st : ℕ → UInt32) :
    bdrProcessRemoteAction
        ⟨pgDecodeChange kw pgDecodeStartup rel (.delete oldtuple), st⟩ {} =
      .ok (true, ⟨[], st⟩, changeMessage kw rel (.delete oldtuple)) := by
  have hz : ∀ c, (rel.message kw .delete (rel.keyNames c)).oldtuple = {} := fun c => rfl
  rcases oldtuple with _ | old
  · obtain ⟨p, hn, hs⟩ := read_writeRel hf.relation (.delete none) .delete [ch 'E'] st
    simp (disch := decide) only [pgDecodeChange, List.cons_append, List.nil_append,
      bdrProcessRemoteAction, pqGetmsgbyte_cons, processRemoteDelete, hn, hs _ _ rfl, ok_bind,
      ch_inj, Char.reduceEq, ne_eq, not_true_eq_false, not_false_eq_true, and_false, if_true,
      if_false]
    rfl
  · obtain ⟨p, hn, hs⟩ := read_writeRel hf.relation (.delete (some old)) .delete
      (ch 'K' :: writeTuple rel old) st
    have ho := hf.tuple (t := old) (by simp [ReorderBufferChange.tuples]) [] st
    rw [List.append_nil] at ho
    simp (disch := decide) only [pgDecodeChange, List.cons_append, List.nil_append,
      bdrProcessRemoteAction, pqGetmsgbyte_cons, processRemoteDelete, hn, hs _ _ rfl, ok_bind, hz,
      ho, ch_inj, Char.reduceEq, ne_eq, not_true_eq_false, not_false_eq_true, and_false, if_true,
      if_false]
    rfl

/-- **A row change is read back.** -/
theorem changeMessage_roundTrip {change : ReorderBufferChange}
    (hf : change.Fits kw rel) (stale : ℕ → UInt32) :
    bdrProcessRemoteAction ⟨pgDecodeChange kw pgDecodeStartup rel change, stale⟩ {} =
      .ok (true, ⟨[], stale⟩, changeMessage kw rel change) := by
  cases change with
  | insert newtuple => exact insert_roundTrip hf stale
  | update oldtuple newtuple => exact update_roundTrip hf stale
  | delete oldtuple => exact delete_roundTrip hf stale

end

/-! ## The callbacks -/

theorem begin_roundTrip (txn : ReorderBufferTXN) (st : ℕ → UInt32) :
    bdrProcessRemoteAction ⟨pgDecodeBeginTxn txn, st⟩ {} =
      .ok (true, ⟨[], st⟩,
        { type := some .begin, lsn := txn.finalLsn, tm := txn.commitTime, xid := txn.xid }) := by
  have h0 : (0 : ℕ) < 256 ^ 4 := by decide
  have hx : txn.xid.toNat < 256 ^ 4 := txn.xid.toNat_lt
  have hl := pqGetmsgint_send [] st hx
  rw [List.append_nil] at hl
  simp only [pgDecodeBeginTxn, List.cons_append, List.nil_append, List.append_assoc,
    bdrProcessRemoteAction, pqGetmsgbyte_cons, if_true, processRemoteBegin,
    pqGetmsgint_send _ _ h0, pqGetmsgint64_send, hl]
  simp

theorem commit_roundTrip (txn : ReorderBufferTXN) (commitLsn : UInt64) (st : ℕ → UInt32) :
    bdrProcessRemoteAction ⟨pgDecodeCommitTxn txn commitLsn, st⟩ {} =
      .ok (true, ⟨[], st⟩,
        { type := some .commit, lsn := commitLsn, tm := txn.commitTime, endLsn := txn.endLsn }) := by
  have h0 : (0 : ℕ) < 256 ^ 4 := by decide
  have hl := pqGetmsgint64_send [] st txn.commitTime
  rw [List.append_nil] at hl
  simp (disch := decide) only [pgDecodeCommitTxn, List.cons_append, List.nil_append,
    List.append_assoc, bdrProcessRemoteAction, pqGetmsgbyte_cons, processRemoteCommit,
    pqGetmsgint_send _ _ h0, pqGetmsgint64_send, hl, ch_inj, Char.reduceEq, ne_eq,
    not_true_eq_false, if_true, if_false]

/-- The plugin's callbacks that write a message. -/
inductive Callback where
  | begin (txn : ReorderBufferTXN)
  | commit (txn : ReorderBufferTXN) (commitLsn : UInt64)
  | change (rel : Relation) (change : ReorderBufferChange)

namespace Callback

variable (kw : Bytes → Bool)

/-- What the callback writes. -/
def payload : Callback → Bytes
  | begin txn => pgDecodeBeginTxn txn
  | commit txn commitLsn => pgDecodeCommitTxn txn commitLsn
  | change rel c => pgDecodeChange kw pgDecodeStartup rel c

/-- What the decoder has to make of it. -/
def message : Callback → AliPgDecodeMessage
  | begin txn => { type := some .begin, lsn := txn.finalLsn, tm := txn.commitTime, xid := txn.xid }
  | commit txn commitLsn =>
    { type := some .commit, lsn := commitLsn, tm := txn.commitTime, endLsn := txn.endLsn }
  | change rel c => changeMessage kw rel c

/-- The counts and lengths fit. -/
def Fits : Callback → Prop
  | begin _ | commit _ _ => True
  | change rel c => c.Fits kw rel

instance : ∀ cb : Callback, Decidable (cb.Fits kw)
  | begin _ | commit _ _ => inferInstanceAs (Decidable True)
  | change rel c => inferInstanceAs (Decidable (c.Fits kw rel))

/-- **Wire round trip.**  The decoder accepts what a callback writes, reads all of it and fills a
zeroed message with what was sent. -/
theorem roundTrip {cb : Callback} (hf : cb.Fits kw) (stale : ℕ → UInt32) :
    bdrProcessRemoteAction ⟨cb.payload kw, stale⟩ {} =
      .ok (true, ⟨[], stale⟩, cb.message kw) := by
  cases cb with
  | begin txn => exact begin_roundTrip txn stale
  | commit txn commitLsn => exact commit_roundTrip txn commitLsn stale
  | change rel c => exact changeMessage_roundTrip hf stale

end Callback

/-- The table `d` of the tests, its key on `a` and `d`, after its column `b` was dropped. -/
def tableD : Relation where
  nspname := lit "test_case"
  relname := lit "d"
  attrs :=
    [⟨lit "a", false, 1, lit "integer"⟩, ⟨lit "........pg.dropped.2........", true, 2, lit "-"⟩,
      ⟨lit "c", false, 3, lit "timestamp with time zone"⟩, ⟨lit "d", false, 4, lit "bigint"⟩]
  replidindex := some [1, 4]
  attnum_eq := by decide
  attname_nodup := by decide
  indkey_live := by intro ks h; cases h; decide
  indkey_length := by intro ks h; cases h; decide

/-- The key of a row of `d`, and the row after `a` was set to 5. -/
def oldD : HeapTuple := [.value (lit "1"), .null, .null, .value (lit "3")]

def newD (c : Datum) : HeapTuple := [.value (lit "5"), .null, c, .value (lit "3")]

/-- That update, of a row with an out-of-line value in `c`. -/
def updateD : ReorderBufferChange := .update (some oldD) (newD .external)

theorem roundTrip_updateD :
    bdrProcessRemoteAction ⟨(Callback.change tableD updateD).payload fun _ => false, fun _ => 0⟩ {} =
      .ok (true, ⟨[], fun _ => 0⟩, (Callback.change tableD updateD).message fun _ => false) :=
  Callback.roundTrip _ (by decide) _

end RdsDbsync
