/-
  The replica identity across the wire: column names are sent quoted, key names are
  not, and the client compares the two.
-/
import RdsDbsync.Statement
import RdsDbsync.Wire

namespace RdsDbsync

open Bytes SqlText

/-! ## Columns of a relation -/

namespace Relation

variable (rel : Relation)

/-- The `i`-th column is live. -/
def live (i : ℕ) : Bool := rel.attrs[i]?.any fun a => !a.attisdropped

/-- The `i`-th column is live and belongs to the index. -/
def inIndex (indkey : List ℤ) (i : ℕ) : Bool :=
  rel.attrs[i]?.any fun a => !a.attisdropped && a.attnum ∈ indkey

/-- The positions of the index columns. -/
def indexPositions (indkey : List ℤ) : List ℕ :=
  (List.range rel.attrs.length).filter (rel.inIndex indkey)

variable {rel}

theorem live_iff {i : ℕ} : rel.live i ↔ ∃ a, rel.attrs[i]? = some a ∧ a.attisdropped = false := by
  rcases h : rel.attrs[i]? with _ | a <;> simp [live, h]

theorem inIndex_iff {indkey : List ℤ} {i : ℕ} : rel.inIndex indkey i ↔
    ∃ a, rel.attrs[i]? = some a ∧ a.attisdropped = false ∧ a.attnum ∈ indkey := by
  rcases h : rel.attrs[i]? with _ | a <;> simp [inIndex, h]

theorem attnum_inj {a b : Attribute} (ha : a ∈ rel.attrs) (hb : b ∈ rel.attrs)
    (h : a.attnum = b.attnum) : a = b := by
  obtain ⟨i, hi, rfl⟩ := List.getElem_of_mem ha
  obtain ⟨j, hj, rfl⟩ := List.getElem_of_mem hb
  rw [rel.attnum_eq i hi, rel.attnum_eq j hj] at h
  have : i = j := by omega
  subst this; rfl

theorem attname_inj {a b : Attribute} (ha : a ∈ rel.attrs) (hb : b ∈ rel.attrs)
    (hla : a.attisdropped = false) (hlb : b.attisdropped = false) (h : a.attname = b.attname) :
    a = b :=
  List.inj_on_of_nodup_map rel.attname_nodup (List.mem_filter.2 ⟨ha, by simp [hla]⟩)
    (List.mem_filter.2 ⟨hb, by simp [hlb]⟩) h

/-- An index column is live. -/
theorem live_of_mem_indkey {indkey : List ℤ} (hk : rel.replidindex = some indkey) {a : Attribute}
    (ha : a ∈ rel.attrs) (hi : a.attnum ∈ indkey) : a.attisdropped = false := by
  rcases rel.indkey_live indkey hk _ hi with h | ⟨b, hb, hn, hl⟩
  · have := rel.attnum_pos ha
    rw [h, ObjectIdAttributeNumber] at this
    omega
  · rwa [attnum_inj ha hb hn.symm]

theorem mem_indexColumns {indkey : List ℤ} {c : CString} :
    c ∈ indexColumns rel indkey ↔ ∃ a ∈ rel.attrs, a.attnum ∈ indkey ∧ a.attname = c := by
  simp only [indexColumns, List.mem_filterMap, getRelidAttributeName]
  constructor
  · rintro ⟨k, hk, hc⟩
    split_ifs at hc
    obtain ⟨a, ha, rfl⟩ := Option.map_eq_some_iff.1 hc
    have hn : a.attnum = k := by simpa using List.find?_some ha
    exact ⟨a, List.mem_of_find?_eq_some ha, hn ▸ hk, rfl⟩
  · rintro ⟨a, ha, hi, rfl⟩
    refine ⟨a.attnum, hi, ?_⟩
    rw [if_neg (by have := rel.attnum_pos ha; omega)]
    rcases hf : rel.attrs.find? fun b => b.attnum = a.attnum with _ | b
    · have := List.find?_eq_none.1 hf a ha
      simp at this
    · have hn : b.attnum = a.attnum := by simpa using List.find?_some hf
      rw [hf, Option.map_some, attnum_inj (List.mem_of_find?_eq_some hf) ha hn]

end Relation

/-! ## The decoded message -/

section
variable {kw : Bytes → Bool} {rel : Relation} {change : ReorderBufferChange}

theorem changeMessage_attname (i : ℕ) :
    (changeMessage kw rel change).attname i = rel.attrs[i]?.bind (Attribute.wireName kw) := by
  cases change <;> rfl

theorem changeMessage_kNatt :
    (changeMessage kw rel change).kNatt = (rel.keyNames change).length := by
  cases change <;> rfl

theorem changeMessage_kAttname (j : ℕ) :
    (changeMessage kw rel change).kAttname j = (rel.keyNames change)[j]?.map Subtype.val := by
  cases change <;> rfl

theorem changeMessage_described : (changeMessage kw rel change).Described where
  schemaname := by cases change <;> exact ⟨_, rfl⟩
  relname := by cases change <;> exact ⟨_, rfl⟩
  kAttname j hj := by
    rw [changeMessage_kNatt, Int.toNat_natCast] at hj
    exact ⟨(rel.keyNames change)[j].val, by rw [changeMessage_kAttname]; simp [hj]⟩

theorem changeMessage_live (i : ℕ) : (changeMessage kw rel change).live i = rel.live i := by
  rw [AliPgDecodeMessage.live, changeMessage_attname, Relation.live]
  rcases rel.attrs[i]? with _ | a
  · rfl
  · by_cases hd : a.attisdropped <;> simp [Attribute.wireName, hd]

/-- **What the client takes for a key column**: a live column whose quoted name is a key name. -/
theorem changeMessage_isKey {i : ℕ} : (changeMessage kw rel change).isKey i ↔
    ∃ a, rel.attrs[i]? = some a ∧ a.attisdropped = false ∧
      ∃ k ∈ rel.keyNames change, k.val = quoteIdentifier kw a.attname := by
  have hm : ∀ t, ((List.range (changeMessage kw rel change).kNatt.toNat).any fun j =>
      (changeMessage kw rel change).kAttname j = some t) = true ↔
        ∃ k ∈ rel.keyNames change, k.val = t := by
    intro t
    simp only [changeMessage_kNatt, changeMessage_kAttname, Int.toNat_natCast, List.any_eq_true,
      List.mem_range, decide_eq_true_eq, Option.map_eq_some_iff]
    constructor
    · rintro ⟨j, -, k, hk, ht⟩
      exact ⟨k, List.mem_of_getElem? hk, ht⟩
    · rintro ⟨k, hk, ht⟩
      obtain ⟨j, hj, rfl⟩ := List.getElem_of_mem hk
      exact ⟨j, hj, _, List.getElem?_eq_getElem hj, ht⟩
  rw [AliPgDecodeMessage.isKey, changeMessage_attname]
  rcases rel.attrs[i]? with _ | a
  · simp
  · by_cases hd : a.attisdropped
    · simp [Attribute.wireName, hd]
    · simp [Attribute.wireName, hd, hm]

end

/-! ## The key -/

section
variable {kw : Bytes → Bool} {rel : Relation} {change : ReorderBufferChange} {indkey : List ℤ}

/-- **The key survives**: the client takes exactly the index columns for key columns, and the
statement it generates constrains them, of which there are some, and nothing else. -/
structure KeySurvives (rel : Relation) (indkey : List ℤ) (msg : AliPgDecodeMessage) : Prop where
  isKeyColumn : ∀ i, isKeyColumn msg (msg.attname i) = .ok (rel.inIndex indkey i)
  conditions : ∀ text, outPutTupleToSql msg = .ok (0, text) →
    ∃ stmt, rowStmt msg = some stmt ∧ stmt.text msg = .ok text ∧
      stmt.conditions.map Prod.fst = rel.indexPositions indkey ∧ rel.indexPositions indkey ≠ []

/-- A change that carries the key: an UPDATE or a DELETE. -/
def ReorderBufferChange.Keyed : ReorderBufferChange → Prop
  | insert _ => False
  | update _ _ | delete _ => True

theorem keyNames_of_keyed (hc : change.Keyed) (hk : rel.replidindex = some indkey) :
    rel.keyNames change = indexColumns rel indkey := by
  cases change
  · exact hc.elim
  all_goals simp [Relation.keyNames, hk]

/-- The key columns of the message are those whose quoted name is the name of an index column. -/
theorem isKey_iff (hc : change.Keyed) (hk : rel.replidindex = some indkey) {i : ℕ} :
    (changeMessage kw rel change).isKey i ↔
      ∃ a, rel.attrs[i]? = some a ∧ a.attisdropped = false ∧
        ∃ b ∈ rel.attrs, b.attnum ∈ indkey ∧ b.attname.val = quoteIdentifier kw a.attname := by
  rw [changeMessage_isKey, keyNames_of_keyed hc hk]
  simp only [Relation.mem_indexColumns]
  constructor
  · rintro ⟨a, ha, hl, _, ⟨b, hb, hi, rfl⟩, hn⟩
    exact ⟨a, ha, hl, b, hb, hi, hn⟩
  · rintro ⟨a, ha, hl, b, hb, hi, hn⟩
    exact ⟨a, ha, hl, _, ⟨b, hb, hi, rfl⟩, hn⟩

/-- With plain key names the client finds exactly the index columns. -/
theorem isKey_eq_inIndex (hc : change.Keyed) (hk : rel.replidindex = some indkey)
    (hp : ∀ a ∈ rel.attrs, a.attnum ∈ indkey → isPlain kw a.attname) (i : ℕ) :
    (changeMessage kw rel change).isKey i = rel.inIndex indkey i := by
  rw [Bool.eq_iff_iff, isKey_iff hc hk, Relation.inIndex_iff]
  constructor
  · rintro ⟨a, ha, hl, b, hb, hi, hn⟩
    have hm := List.mem_of_getElem? ha
    have hab : a.attname = b.attname :=
      Subtype.ext (quoteIdentifier_eq_plain (hp b hb hi) hn.symm)
    obtain rfl := Relation.attname_inj hm hb hl (Relation.live_of_mem_indkey hk hb hi) hab
    exact ⟨a, ha, hl, hi⟩
  · rintro ⟨a, ha, hl, hi⟩
    have hm := List.mem_of_getElem? ha
    exact ⟨a, ha, hl, a, hm, hi, (quoteIdentifier_of_plain (hp a hm hi)).symm⟩

/-- If the client finds every index column, the key names are plain: a longest key name that is
not plain would be the quoted form of a shorter one. -/
theorem plain_of_isKey (hc : change.Keyed) (hk : rel.replidindex = some indkey)
    (h : ∀ i, rel.inIndex indkey i → (changeMessage kw rel change).isKey i) :
    ∀ a ∈ rel.attrs, a.attnum ∈ indkey → isPlain kw a.attname := by
  -- `n` counts down the lengths a longer key name may have
  have key : ∀ n, ∀ a ∈ rel.attrs, a.attnum ∈ indkey → ¬ isPlain kw a.attname →
      (∀ b ∈ rel.attrs, b.attname.val.length < a.attname.val.length + n) → False := by
    intro n
    induction n with
    | zero => exact fun a ha _ _ hn => lt_irrefl _ (hn a ha)
    | succ n ih =>
      intro a ha hi hp hn
      obtain ⟨i, hlt, rfl⟩ := List.getElem_of_mem ha
      obtain ⟨a', ha', -, b, hb, hbi, hbn⟩ := (isKey_iff hc hk).1 (h i (Relation.inIndex_iff.2
        ⟨_, List.getElem?_eq_getElem hlt, Relation.live_of_mem_indkey hk ha hi, hi⟩))
      rw [List.getElem?_eq_getElem hlt, Option.some.injEq] at ha'
      subst ha'
      have hl := length_lt_quoteIdentifier hp
      rw [← hbn] at hl
      refine ih b hb hbi ?_ ?_
      · intro hpb
        exact hp (quoteIdentifier_eq_plain hpb hbn.symm ▸ hpb)
      · intro c hc
        have := hn c hc; omega
  intro a ha hi
  by_contra hp
  have hm : a.attname.val.length ∈ rel.attrs.map fun b => b.attname.val.length :=
    List.mem_map_of_mem ha
  refine key (((rel.attrs.map fun b => b.attname.val.length).max (List.ne_nil_of_mem hm)) + 1) a ha
    hi hp ?_
  intro b hb
  have := List.le_max_of_mem (List.mem_map_of_mem (f := fun b => b.attname.val.length) hb)
  omega

theorem kNatt_pos (hc : change.Keyed) (hk : rel.replidindex = some indkey)
    (hne : indexColumns rel indkey ≠ []) : 0 < (changeMessage kw rel change).kNatt := by
  rw [changeMessage_kNatt, keyNames_of_keyed hc hk]
  exact_mod_cast List.length_pos_of_ne_nil hne

/-- An UPDATE message is accepted by `checktuple`. -/
theorem rowStmt_update (hn : rel.attrs.length ≠ 0) (old : Option HeapTuple) (new : HeapTuple) :
    rowStmt (changeMessage kw rel (.update old new)) =
      updateStmt (changeMessage kw rel (.update old new)) := by
  rw [rowStmt, if_neg (by simp [checktuple, changeMessage, Relation.message, Relation.tupleData, hn])]
  rfl

/-- The statement of an UPDATE that leaves the key as it is. -/
theorem rowStmt_update_none (hn : rel.attrs.length ≠ 0) {new : HeapTuple}
    (hk : 0 < (changeMessage kw rel (.update none new)).kNatt) :
    rowStmt (changeMessage kw rel (.update none new)) = some (.update
      (selected (rel.tupleData new)
        (fun i => rel.live i && !(changeMessage kw rel (.update none new)).isKey i)
        rel.attrs.length 0)
      (selected (rel.tupleData new) (changeMessage kw rel (.update none new)).isKey
        rel.attrs.length 0)) := by
  rw [rowStmt_update hn, updateStmt_keyNotChange hk rfl, funext changeMessage_live]
  rfl

/-- The statement of an UPDATE of the key. -/
theorem rowStmt_update_some (hn : rel.attrs.length ≠ 0) {old new : HeapTuple}
    (hk : 0 < (changeMessage kw rel (.update (some old) new)).kNatt) :
    rowStmt (changeMessage kw rel (.update (some old) new)) = some (.update
      (selected (rel.tupleData new) rel.live rel.attrs.length 0)
      (selected (rel.tupleData old) (changeMessage kw rel (.update (some old) new)).isKey
        rel.attrs.length 0)) := by
  have ho : (changeMessage kw rel (.update (some old) new)).oldtuple.natt ≠ 0 :=
    Int.natCast_ne_zero.2 hn
  rw [rowStmt_update hn, updateStmt_keyChange hk ho, funext changeMessage_live]
  rfl

/-- The statement of an UPDATE without a key. -/
theorem rowStmt_update_full (hn : rel.attrs.length ≠ 0) {old new : HeapTuple}
    (hk : (changeMessage kw rel (.update (some old) new)).kNatt = 0) :
    rowStmt (changeMessage kw rel (.update (some old) new)) = some (.update
      (selected (rel.tupleData new)
        (columnChanged (changeMessage kw rel (.update (some old) new)) (rel.tupleData new)
          (rel.tupleData old)) rel.attrs.length 0)
      (selected (rel.tupleData old) rel.live rel.attrs.length 0)) := by
  have ho : (changeMessage kw rel (.update (some old) new)).oldtuple.natt ≠ 0 :=
    Int.natCast_ne_zero.2 hn
  rw [rowStmt_update hn, updateStmt_fullRow hk rfl ho ⟨rfl, rfl⟩, funext changeMessage_live]
  rfl

/-- The statement of a DELETE. -/
theorem rowStmt_delete (hn : rel.attrs.length ≠ 0) (old : HeapTuple) :
    rowStmt (changeMessage kw rel (.delete (some old))) = some (.delete
      (selected (rel.tupleData old) (changeMessage kw rel (.delete (some old))).constrained
        rel.attrs.length 0)) := by
  rw [rowStmt, if_neg (by simp [checktuple, changeMessage, Relation.message, Relation.tupleData, hn])]
  rfl

/-- A relation with an index has columns. -/
theorem attrs_of_indexColumns (hne : indexColumns rel indkey ≠ []) : rel.attrs.length ≠ 0 := by
  obtain ⟨c, hc⟩ := List.exists_mem_of_ne_nil _ hne
  obtain ⟨a, ha, -⟩ := Relation.mem_indexColumns.1 hc
  exact (List.length_pos_of_mem ha).ne'

/-- **A keyed change asks for a statement whose WHERE clause constrains the key columns of the
message**, unless it is a DELETE without its old key. -/
theorem rowStmt_conditions (hc : change.Keyed) (hk : rel.replidindex = some indkey)
    (hne : indexColumns rel indkey ≠ []) (hd : change ≠ .delete none) :
    ∃ stmt, rowStmt (changeMessage kw rel change) = some stmt ∧
      stmt.conditions.map Prod.fst =
        (List.range rel.attrs.length).filter (changeMessage kw rel change).isKey := by
  have hkn : 0 < (changeMessage kw rel change).kNatt := kNatt_pos hc hk hne
  have hn := attrs_of_indexColumns hne
  rcases change with new | ⟨_ | old, new⟩ | _ | old
  · exact hc.elim
  · exact ⟨_, rowStmt_update_none hn hkn, map_fst_selected _ _ _⟩
  · exact ⟨_, rowStmt_update_some hn hkn, map_fst_selected _ _ _⟩
  · exact absurd rfl hd
  · refine ⟨_, rowStmt_delete hn old, ?_⟩
    rw [constrained_of_keyed hkn]
    exact map_fst_selected _ _ _

theorem changeMessage_type (hc : change.Keyed) :
    (changeMessage kw rel change).type = some .update ∨
      (changeMessage kw rel change).type = some .delete := by
  cases change
  · exact hc.elim
  · exact Or.inl rfl
  · exact Or.inr rfl

/-- **The replica identity key survives the wire** if and only if `quote_identifier` leaves the
name of every key column as it is. -/
theorem keySurvives_iff (hf : change.Fits kw rel) (hc : change.Keyed)
    (hk : rel.replidindex = some indkey) (hne : indexColumns rel indkey ≠ [])
    {stale : ℕ → UInt32} {s : StringInfo} {msg : AliPgDecodeMessage}
    (hdec : bdrProcessRemoteAction ⟨pgDecodeChange kw pgDecodeStartup rel change, stale⟩ {} =
      .ok (true, s, msg)) :
    KeySurvives rel indkey msg ↔
      ∀ a ∈ rel.attrs, a.attnum ∈ indkey → isPlain kw a.attname := by
  rw [changeMessage_roundTrip hf] at hdec
  obtain ⟨-, -, rfl⟩ := by simpa using hdec
  have hd : (changeMessage kw rel change).Described := changeMessage_described
  constructor
  · intro h
    refine plain_of_isKey hc hk ?_
    intro i hi
    have := h.isKeyColumn i
    rw [isKeyColumn_eq hd i, hi] at this
    simpa using this
  · intro hp
    have hkey : ∀ i, (changeMessage kw rel change).isKey i = rel.inIndex indkey i :=
      isKey_eq_inIndex hc hk hp
    refine ⟨fun i => by rw [isKeyColumn_eq hd i, hkey i], ?_⟩
    intro text ht
    have hdel : change ≠ .delete none := by rintro rfl; cases ht
    obtain ⟨stmt, hs, hcond⟩ : ∃ stmt, rowStmt (changeMessage kw rel change) = some stmt ∧ _ :=
      rowStmt_conditions hc hk hne hdel
    rw [outPutTupleToSql_eq changeMessage_described (changeMessage_type hc) hs] at ht
    have hpos : rel.indexPositions indkey ≠ [] := by
      obtain ⟨c, hcm⟩ := List.exists_mem_of_ne_nil _ hne
      obtain ⟨a, ha, hi, -⟩ := Relation.mem_indexColumns.1 hcm
      obtain ⟨i, hlt, rfl⟩ := List.getElem_of_mem ha
      refine List.ne_nil_of_mem (a := i) (List.mem_filter.2 ⟨List.mem_range.2 hlt, ?_⟩)
      exact Relation.inIndex_iff.2
        ⟨_, List.getElem?_eq_getElem hlt, Relation.live_of_mem_indkey hk ha hi, hi⟩
    refine ⟨stmt, hs, ?_, ?_, hpos⟩
    · rcases htx : stmt.text (changeMessage kw rel change) with e | t <;> rw [htx] at ht
      · cases ht
      · cases ht; rfl
    · rw [hcond, Relation.indexPositions, funext hkey]

end

theorem keySurvives_updateD :
    KeySurvives tableD [1, 4] (changeMessage (fun _ => false) tableD updateD) :=
  have hf : updateD.Fits (fun _ => false) tableD := by decide
  (keySurvives_iff hf trivial rfl (by decide) (update_roundTrip hf fun _ => 0)).2 (by decide)

/-- A table whose key is on a mixed-case and a plain column. -/
def tableMixed : Relation where
  nspname := lit "public"
  relname := lit "t"
  attrs := [⟨lit "ID", false, 1, lit "integer"⟩, ⟨lit "k", false, 2, lit "integer"⟩]
  replidindex := some [1, 2]
  attnum_eq := by decide
  attname_nodup := by decide
  indkey_live := by intro ks h; cases h; decide
  indkey_length := by intro ks h; cases h; decide

/-- The WHERE clause of a DELETE loses the mixed-case key column and selects further rows. -/
theorem keyLost_tableMixed :
    ∃ msg, bdrProcessRemoteAction
        ⟨pgDecodeChange (fun _ => false) pgDecodeStartup tableMixed
          (.delete (some [.value (lit "1"), .value (lit "2")])), fun _ => 0⟩ {} =
        .ok (true, ⟨[], fun _ => 0⟩, msg) ∧
      outPutTupleToSql msg = .ok (0, ascii "DELETE FROM public.t WHERE k=2;") ∧
      ¬ KeySurvives tableMixed [1, 2] msg := by
  refine ⟨_, delete_roundTrip (by decide) _, by decide, ?_⟩
  intro h
  have h0 := h.isKeyColumn 0
  revert h0
  decide

end RdsDbsync
