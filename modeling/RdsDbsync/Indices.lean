/-
  The indices of the decoder: the counts in a payload drive its loops, and it compares
  none of them with the size of the arrays.

  `payloadCounts` are the counts that the decoder comes to, found by passing over the
  fields of a payload without any arrays.  `indicesInside_iff`: they alone decide whether
  an index leaves the arrays, in the decoder or in a later loop.
-/
import RdsDbsync.Format
import RdsDbsync.OnlyStatements

namespace RdsDbsync

open Bytes

/-! ## The counts of a payload -/

/-- Passes over the cells of a tuple, `n` of them. -/
def skipCells : ℕ → StringInfo → StringInfo
  | 0, s => s
  | n + 1, s =>
    let (kind, s) := pqGetmsgbyte s
    if kind = ch 'n' ∨ kind = ch 'u' then skipCells n s
    else if kind = ch 't' then
      let (len, s) := pqGetmsgint s 4
      let (_, s) := pqGetmsgbytes s (toInt len)
      skipCells n s
    else s

/-- Passes over a tuple: its count, if it is one, and what follows it. -/
def skipTuple (s : StringInfo) : List ℤ × StringInfo :=
  let (action, s) := pqGetmsgbyte s
  if action ≠ ch 'T' then ([], s)
  else
    let (rnatts, s) := pqGetmsgint s 4
    ([toInt rnatts], skipCells (toInt rnatts).toNat s)

/-- Passes over columns, `n` of them. -/
def skipColumns : ℕ → StringInfo → StringInfo
  | 0, s => s
  | n + 1, s =>
    let (len, s) := pqGetmsgint s 2
    if len = 0 then skipColumns n s
    else
      let (_, s) := pqGetmsgbytes s len
      let (len, s) := pqGetmsgint s 2
      let (_, s) := pqGetmsgbytes s len
      skipColumns n s

/-- Passes over key columns, `n` of them. -/
def skipKeys : ℕ → StringInfo → StringInfo
  | 0, s => s
  | n + 1, s =>
    let (len, s) := pqGetmsgint s 2
    let (_, s) := pqGetmsgbytes s len
    skipKeys n s

/-- Passes over a column block: the number of columns and, if they are listed, of key columns. -/
def skipColumnBlock (s : StringInfo) : List ℤ × StringInfo :=
  let (natt, s) := pqGetmsgint s 2
  let (action, s) := pqGetmsgbyte (skipColumns natt s)
  if action ≠ ch 'M' then ([natt], s)
  else
    let (kNatt, s) := pqGetmsgint s 2
    ([natt, kNatt], skipKeys kNatt s)

/-- Passes over the column block, if `action` announces one, and the byte after it. -/
def skipBlock (action : UInt8) (s : StringInfo) : List ℤ × UInt8 × StringInfo :=
  if action = ch 'C' then
    let (counts, s) := skipColumnBlock s
    let (action, s) := pqGetmsgbyte s
    (counts, action, s)
  else ([], action, s)

/-- The counts of a row change, whose first tag is one of `allowed` or announces a column block;
`tuples` are those of the tuples that follow a tag. -/
def changeCounts (allowed : List UInt8) (tuples : UInt8 → StringInfo → List ℤ) (s : StringInfo) :
    List ℤ :=
  let (s, _) := readRelname s {}
  let (action, s) := pqGetmsgbyte s
  if action ∉ ch 'C' :: allowed then []
  else
    let (counts, action, s) := skipBlock action s
    if action ∉ allowed then counts
    else counts ++ tuples action s

/-- Passes over the old tuple of an UPDATE, if `action` announces one, and the byte after it. -/
def skipOldTuple (action : UInt8) (s : StringInfo) : List ℤ × UInt8 × StringInfo :=
  if action = ch 'K' then
    let (old, s) := skipTuple s
    let (action, s) := pqGetmsgbyte s
    (old, action, s)
  else ([], action, s)

/-- The counts of the tuples of an UPDATE. -/
def updateTuples (action : UInt8) (s : StringInfo) : List ℤ :=
  let (old, action, s) := skipOldTuple action s
  if action ≠ ch 'N' then old else old ++ (skipTuple s).1

/-- The counts that the decoder comes to in a payload. -/
def payloadCounts (s : StringInfo) : List ℤ :=
  let (action, s) := pqGetmsgbyte s
  if action = ch 'I' then changeCounts [ch 'N'] (fun _ s => (skipTuple s).1) s
  else if action = ch 'U' then changeCounts [ch 'K', ch 'N'] updateTuples s
  else if action = ch 'D' then
    changeCounts [ch 'K', ch 'E'] (fun action s => if action = ch 'E' then [] else (skipTuple s).1) s
  else []

/-! ## Indices -/

/-- The counts of a message. -/
def AliPgDecodeMessage.counts (msg : AliPgDecodeMessage) : List ℤ :=
  [msg.natt, msg.kNatt, msg.oldtuple.natt, msg.newtuple.natt]

/-- A count that the arrays can hold. -/
def InArrays (c : ℤ) : Prop := 0 ≤ c ∧ c ≤ MaxTupleAttributeNumber

/-- **Every index is inside the arrays**: no write of the decoder is outside, and after a
successful decode the counts are such that no loop over them can be. -/
structure IndicesInside (p : Bytes) (stale : ℕ → UInt32) : Prop where
  writes : ∀ i, bdrProcessRemoteAction ⟨p, stale⟩ {} ≠ .error (.arrayIndex i)
  counts : ∀ s msg, bdrProcessRemoteAction ⟨p, stale⟩ {} = .ok (true, s, msg) →
    ∀ c ∈ msg.counts, InArrays c
  loops : ∀ s msg, bdrProcessRemoteAction ⟨p, stale⟩ {} = .ok (true, s, msg) →
    ∀ c ∈ msg.counts, ∀ i < c.toNat, i < MaxTupleAttributeNumber

/-- Two lists with the same counts, apart from zeros. -/
def SameCounts (l l' : List ℤ) : Prop := ∀ c ≠ 0, c ∈ l ↔ c ∈ l'

section
variable {s s' : StringInfo} {tup tup' : DecodeTupleData} {msg msg' : AliPgDecodeMessage}
  {rc : Bool} {n i : ℕ}

/-! ## Tuples -/

theorem readCells_ok (h : readCells n i s tup = .ok (rc, s', tup')) :
    s' = skipCells n s ∧ tup'.natt = tup.natt := by
  induction n generalizing i s tup with
  | zero =>
    cases h
    exact ⟨rfl, rfl⟩
  | succ n ih =>
    rw [readCells] at h
    rw [skipCells]
    generalize pqGetmsgbyte s = got at h ⊢
    obtain ⟨kind, s₁⟩ := got
    dsimp only at h ⊢
    by_cases hn : kind = ch 'n'
    · rw [if_pos hn] at h
      rw [if_pos (Or.inl hn)]
      obtain ⟨svalues, -, h⟩ := bind_eq_ok h
      obtain ⟨hs, hn⟩ := ih h
      exact ⟨hs, hn⟩
    rw [if_neg hn] at h
    by_cases hu : kind = ch 'u'
    · rw [if_pos hu] at h
      rw [if_pos (Or.inr hu)]
      obtain ⟨isnull, -, h⟩ := bind_eq_ok h
      obtain ⟨changed, -, h⟩ := bind_eq_ok h
      obtain ⟨svalues, -, h⟩ := bind_eq_ok h
      obtain ⟨hs, hn⟩ := ih h
      exact ⟨hs, hn⟩
    rw [if_neg hu] at h
    rw [if_neg fun h => h.elim hn hu]
    by_cases ht : kind = ch 't'
    · rw [if_pos ht] at h ⊢
      obtain ⟨isnull, -, h⟩ := bind_eq_ok h
      obtain ⟨svalues, -, h⟩ := bind_eq_ok h
      obtain ⟨hs, hn⟩ := ih h
      exact ⟨hs, hn⟩
    · rw [if_neg ht] at h ⊢
      cases h
      exact ⟨rfl, rfl⟩

theorem readCells_total (hlen : i + n ≤ MaxTupleAttributeNumber) :
    ∃ r, readCells n i s tup = .ok r := by
  induction n generalizing i s tup with
  | zero => exact ⟨_, rfl⟩
  | succ n ih =>
    rw [readCells]
    have hi : i < MaxTupleAttributeNumber := by omega
    simp only [setAt_of_lt _ hi, ok_bind]
    split_ifs
    · exact ih (by omega)
    · exact ih (by omega)
    · exact ih (by omega)
    · exact ⟨_, rfl⟩

/-- What a tuple records is its count. -/
theorem readTupleParts_ok (hzero : tup.natt = 0)
    (h : readTupleParts s tup = .ok (rc, s', tup')) :
    s' = (skipTuple s).2 ∧ SameCounts (skipTuple s).1 [tup'.natt] := by
  rw [readTupleParts] at h
  rw [skipTuple]
  generalize pqGetmsgbyte s = got at h ⊢
  obtain ⟨action, s₁⟩ := got
  dsimp only at h ⊢
  by_cases hT : action ≠ ch 'T'
  · rw [if_pos hT] at h ⊢
    cases h
    refine ⟨rfl, fun c hc => ?_⟩
    simp [hzero, hc]
  · rw [if_neg hT] at h ⊢
    obtain ⟨hs, hn⟩ := readCells_ok h
    refine ⟨hs, fun c _ => ?_⟩
    rw [hn]

theorem readTupleParts_total (h : ∀ c ∈ (skipTuple s).1, InArrays c) :
    ∃ r, readTupleParts s tup = .ok r := by
  rw [skipTuple] at h
  rw [readTupleParts]
  generalize pqGetmsgbyte s = got at h ⊢
  obtain ⟨action, s₁⟩ := got
  dsimp only at h ⊢
  by_cases hT : action ≠ ch 'T'
  · rw [if_pos hT]
    exact ⟨_, rfl⟩
  · rw [if_neg hT] at h ⊢
    refine readCells_total ?_
    obtain ⟨-, hle⟩ := h _ (List.mem_singleton_self _)
    omega

/-! ## Columns -/

/-- The counts of the parts of a message that columns leave as they are. -/
structure SameTuples (msg msg' : AliPgDecodeMessage) : Prop where
  oldNatt : msg'.oldtuple.natt = msg.oldtuple.natt
  newNatt : msg'.newtuple.natt = msg.newtuple.natt

theorem SameTuples.trans {msg'' : AliPgDecodeMessage} (h : SameTuples msg msg')
    (h' : SameTuples msg' msg'') : SameTuples msg msg'' :=
  ⟨h'.oldNatt.trans h.oldNatt, h'.newNatt.trans h.newNatt⟩

theorem readColumns_ok (h : readColumns n i s msg = .ok (s', msg')) :
    s' = skipColumns n s ∧ msg'.natt = msg.natt ∧ msg'.kNatt = msg.kNatt ∧ SameTuples msg msg' := by
  induction n generalizing i s msg with
  | zero =>
    cases h
    exact ⟨rfl, rfl, rfl, rfl, rfl⟩
  | succ n ih =>
    rw [readColumns] at h
    rw [skipColumns]
    generalize pqGetmsgint s 2 = got at h ⊢
    obtain ⟨len, s₁⟩ := got
    dsimp only at h ⊢
    by_cases hlen : len = 0
    · rw [if_pos hlen] at h ⊢
      exact ih h
    · rw [if_neg hlen] at h ⊢
      obtain ⟨attname, -, h⟩ := bind_eq_ok h
      obtain ⟨atttype, -, h⟩ := bind_eq_ok h
      obtain ⟨hs, hn, hk, ht⟩ := ih h
      exact ⟨hs, hn, hk, ht.oldNatt, ht.newNatt⟩

theorem readColumns_total (hlen : i + n ≤ MaxTupleAttributeNumber) :
    ∃ r, readColumns n i s msg = .ok r := by
  induction n generalizing i s msg with
  | zero => exact ⟨_, rfl⟩
  | succ n ih =>
    rw [readColumns]
    have hi : i < MaxTupleAttributeNumber := by omega
    simp only [setAt_of_lt _ hi, ok_bind]
    split_ifs
    · exact ih (by omega)
    · exact ih (by omega)

theorem readKeys_ok (h : readKeys n i s msg = .ok (s', msg')) :
    s' = skipKeys n s ∧ msg'.natt = msg.natt ∧ msg'.kNatt = msg.kNatt ∧ SameTuples msg msg' := by
  induction n generalizing i s msg with
  | zero =>
    cases h
    exact ⟨rfl, rfl, rfl, rfl, rfl⟩
  | succ n ih =>
    rw [readKeys] at h
    rw [skipKeys]
    obtain ⟨kAttname, -, h⟩ := bind_eq_ok h
    obtain ⟨hs, hn, hk, ht⟩ := ih h
    exact ⟨hs, hn, hk, ht.oldNatt, ht.newNatt⟩

theorem readKeys_total (hlen : i + n ≤ MaxTupleAttributeNumber) :
    ∃ r, readKeys n i s msg = .ok r := by
  induction n generalizing i s msg with
  | zero => exact ⟨_, rfl⟩
  | succ n ih =>
    rw [readKeys]
    have hi : i < MaxTupleAttributeNumber := by omega
    simp only [setAt_of_lt _ hi, ok_bind]
    exact ih (by omega)

/-- What a column block records are its counts. -/
theorem processReadColunmInfo_ok (hzero : msg.kNatt = 0)
    (h : processReadColunmInfo s msg = .ok (rc, s', msg')) :
    s' = (skipColumnBlock s).2 ∧ SameCounts (skipColumnBlock s).1 [msg'.natt, msg'.kNatt] ∧
      SameTuples msg msg' := by
  rw [processReadColunmInfo] at h
  rw [skipColumnBlock]
  generalize pqGetmsgint s 2 = got at h ⊢
  obtain ⟨natt, s₁⟩ := got
  dsimp only at h ⊢
  obtain ⟨⟨s₂, msg₁⟩, hcolumns, h⟩ := bind_eq_ok h
  obtain ⟨rfl, hn, hk, ht⟩ := readColumns_ok hcolumns
  dsimp only at h hn hk
  have ht : SameTuples msg msg₁ := ⟨ht.oldNatt, ht.newNatt⟩
  generalize pqGetmsgbyte (skipColumns natt s₁) = got at h ⊢
  obtain ⟨action, s₃⟩ := got
  dsimp only at h ⊢
  by_cases hM : action = ch 'M'
  · rw [if_neg fun h => h.1 hM, if_neg (by rw [hM]; decide)] at h
    rw [if_neg (not_not.2 hM)]
    generalize pqGetmsgint s₃ 2 = got at h ⊢
    obtain ⟨kNatt, s₄⟩ := got
    dsimp only at h ⊢
    obtain ⟨⟨s₅, msg₂⟩, hkeys, h⟩ := bind_eq_ok h
    obtain ⟨rfl, hn', hk', ht'⟩ := readKeys_ok hkeys
    dsimp only at hn' hk'
    cases h
    refine ⟨rfl, fun c _ => ?_, ht.trans ⟨ht'.oldNatt, ht'.newNatt⟩⟩
    rw [hn', hn, hk']
  · rw [if_pos hM]
    have hok : ∃ rc', (.ok (rc', s₃, msg₁) : Except Fault _) = .ok (rc, s', msg') := by
      split_ifs at h
      · exact ⟨_, h⟩
      · exact ⟨_, h⟩
      · exact absurd h fun _ => by tauto
    obtain ⟨rc', hok⟩ := hok
    cases hok
    refine ⟨rfl, fun c hc => ?_, ht⟩
    rw [hn, hk, hzero]
    simp [hc]

theorem processReadColunmInfo_total (h : ∀ c ∈ (skipColumnBlock s).1, InArrays c) :
    ∃ r, processReadColunmInfo s msg = .ok r := by
  rw [skipColumnBlock] at h
  rw [processReadColunmInfo]
  generalize pqGetmsgint s 2 = got at h ⊢
  obtain ⟨natt, s₁⟩ := got
  dsimp only at h ⊢
  have hnatt : (natt : ℤ) ≤ MaxTupleAttributeNumber := by
    split_ifs at h
    · exact (h _ List.mem_cons_self).2
    · exact (h _ List.mem_cons_self).2
  obtain ⟨⟨s₂, msg₁⟩, hcolumns⟩ :=
    @readColumns_total s₁ { msg with natt := natt } natt 0 (by omega)
  obtain ⟨rfl, -⟩ := readColumns_ok hcolumns
  rw [hcolumns, ok_bind]
  dsimp only
  generalize pqGetmsgbyte (skipColumns natt s₁) = got at h ⊢
  obtain ⟨action, s₃⟩ := got
  dsimp only at h ⊢
  by_cases hM : action = ch 'M'
  · rw [if_neg (not_not.2 hM)] at h
    rw [if_neg fun h => h.1 hM, if_neg (by rw [hM]; decide)]
    generalize pqGetmsgint s₃ 2 = got at h ⊢
    obtain ⟨kNatt, s₄⟩ := got
    dsimp only at h ⊢
    have hk : (kNatt : ℤ) ≤ MaxTupleAttributeNumber :=
      (h _ (List.mem_cons_of_mem _ (List.mem_singleton_self _))).2
    obtain ⟨⟨s₅, msg₂⟩, hkeys⟩ :=
      @readKeys_total s₄ { msg₁ with kNatt := kNatt } kNatt 0 (by omega)
    rw [hkeys]
    exact ⟨_, rfl⟩
  · by_cases hP : action = ch 'P'
    · rw [if_neg fun h => h.2 hP, if_pos hP]
      exact ⟨_, rfl⟩
    · rw [if_pos ⟨hM, hP⟩]
      exact ⟨_, rfl⟩

/-! ## Row changes -/

/-- The message of a row change before its columns and tuples are read. -/
structure NoCounts (msg : AliPgDecodeMessage) : Prop where
  natt : msg.natt = 0
  kNatt : msg.kNatt = 0
  oldNatt : msg.oldtuple.natt = 0
  newNatt : msg.newtuple.natt = 0

theorem skipColumnInfo_ok {action action' : UInt8} (hno : NoCounts msg)
    (h : skipColumnInfo action s msg = .ok (action', s', msg')) :
    (skipBlock action s).2 = (action', s') ∧
      SameCounts (skipBlock action s).1 [msg'.natt, msg'.kNatt] ∧ SameTuples msg msg' := by
  rw [skipColumnInfo] at h
  rw [skipBlock]
  by_cases hC : action = ch 'C'
  · rw [if_pos hC] at h ⊢
    obtain ⟨⟨rc, s₁, msg₁⟩, hinfo, h⟩ := bind_eq_ok h
    obtain ⟨rfl, hcounts, ht⟩ := processReadColunmInfo_ok hno.kNatt hinfo
    cases h
    exact ⟨rfl, hcounts, ht⟩
  · rw [if_neg hC] at h ⊢
    cases h
    refine ⟨rfl, fun c hc => ?_, rfl, rfl⟩
    rw [hno.natt, hno.kNatt]
    simp [hc]

theorem skipColumnInfo_total {action : UInt8} (h : ∀ c ∈ (skipBlock action s).1, InArrays c) :
    ∃ r, skipColumnInfo action s msg = .ok r := by
  rw [skipBlock] at h
  rw [skipColumnInfo]
  by_cases hC : action = ch 'C'
  · rw [if_pos hC] at h ⊢
    obtain ⟨⟨rc, s₁, msg₁⟩, hinfo⟩ := @processReadColunmInfo_total s msg h
    rw [hinfo]
    exact ⟨_, rfl⟩
  · rw [if_neg hC]
    exact ⟨_, rfl⟩

theorem SameCounts.append {l l' m m' : List ℤ} (h : SameCounts l l') (h' : SameCounts m m') :
    SameCounts (l ++ m) (l' ++ m') := by
  intro c hc
  rw [List.mem_append, List.mem_append, h c hc, h' c hc]

theorem SameCounts.forall_iff {l l' : List ℤ} (h : SameCounts l l') :
    (∀ c ∈ l, InArrays c) ↔ ∀ c ∈ l', InArrays c := by
  have hzero : InArrays 0 := ⟨le_rfl, by decide⟩
  constructor
  · intro hall c hc
    rcases eq_or_ne c 0 with rfl | hne
    · exact hzero
    · exact hall c ((h c hne).2 hc)
  · intro hall c hc
    rcases eq_or_ne c 0 with rfl | hne
    · exact hzero
    · exact hall c ((h c hne).1 hc)

end

/-- The part that the readers of the row changes have in common: the names, the column block, and
then `tail` from a tag on that is one of `allowed`. -/
def readChange (type : MsgKind) (allowed : List UInt8)
    (tail : UInt8 → StringInfo → AliPgDecodeMessage →
      Except Fault (Bool × StringInfo × AliPgDecodeMessage))
    (s : StringInfo) (msg : AliPgDecodeMessage) :
    Except Fault (Bool × StringInfo × AliPgDecodeMessage) := do
  let (s, msg) := readRelname s { msg with type := some type }
  let (action, s) := pqGetmsgbyte s
  if action ∉ ch 'C' :: allowed then .ok (false, s, msg)
  else
    let (action, s, msg) ← skipColumnInfo action s msg
    if action ∉ allowed then .ok (false, s, msg)
    else tail action s msg

/-- What `tail` records are the counts `tuples`, and it reads well what the arrays can hold. -/
structure TailCounts (tail : UInt8 → StringInfo → AliPgDecodeMessage →
      Except Fault (Bool × StringInfo × AliPgDecodeMessage))
    (tuples : UInt8 → StringInfo → List ℤ) : Prop where
  ok : ∀ action s msg rc s' msg', msg.oldtuple.natt = 0 → msg.newtuple.natt = 0 →
    tail action s msg = .ok (rc, s', msg') →
      msg'.natt = msg.natt ∧ msg'.kNatt = msg.kNatt ∧
        SameCounts (tuples action s) [msg'.oldtuple.natt, msg'.newtuple.natt]
  total : ∀ action s msg, msg.oldtuple.natt = 0 → msg.newtuple.natt = 0 →
    (∀ c ∈ tuples action s, InArrays c) → ∃ r, tail action s msg = .ok r

section
variable {s s' : StringInfo} {msg msg' : AliPgDecodeMessage} {rc : Bool} {type : MsgKind}
  {allowed : List UInt8} {tuples : UInt8 → StringInfo → List ℤ}
  {tail : UInt8 → StringInfo → AliPgDecodeMessage →
    Except Fault (Bool × StringInfo × AliPgDecodeMessage)}

/-- The names come first; they leave the counts as they are. -/
theorem readChange_eq (type : MsgKind) (allowed : List UInt8) (tuples : UInt8 → StringInfo → List ℤ)
    (tail : UInt8 → StringInfo → AliPgDecodeMessage →
      Except Fault (Bool × StringInfo × AliPgDecodeMessage)) (s : StringInfo) (hno : NoCounts msg) :
    ∃ action s₁ msg₁, NoCounts msg₁ ∧
      readChange type allowed tail s msg =
        (if action ∉ ch 'C' :: allowed then .ok (false, s₁, msg₁)
        else skipColumnInfo action s₁ msg₁ >>= fun r =>
          if r.1 ∉ allowed then .ok (false, r.2) else tail r.1 r.2.1 r.2.2) ∧
      changeCounts allowed tuples s =
        if action ∉ ch 'C' :: allowed then []
        else if (skipBlock action s₁).2.1 ∉ allowed then (skipBlock action s₁).1
        else (skipBlock action s₁).1 ++
          tuples (skipBlock action s₁).2.1 (skipBlock action s₁).2.2 := by
  rw [readChange, changeCounts]
  have hs : (readRelname s { msg with type := some type }).1 = (readRelname s {}).1 := rfl
  have hno' : NoCounts (readRelname s { msg with type := some type }).2 :=
    ⟨hno.natt, hno.kNatt, hno.oldNatt, hno.newNatt⟩
  generalize readRelname s { msg with type := some type } = read at hs hno' ⊢
  generalize readRelname s {} = read' at hs ⊢
  obtain ⟨s₁, msg₁⟩ := read
  obtain ⟨s₁', msg₁'⟩ := read'
  obtain rfl : s₁ = s₁' := hs
  exact ⟨_, _, _, hno', rfl, rfl⟩

/-- **What a row change records** are its counts. -/
theorem readChange_ok (ht : TailCounts tail tuples) (hno : NoCounts msg)
    (h : readChange type allowed tail s msg = .ok (rc, s', msg')) :
    SameCounts (changeCounts allowed tuples s) msg'.counts := by
  obtain ⟨action, s₂, msg₁, hno', hread, hcounts⟩ := readChange_eq type allowed tuples tail s hno
  rw [hread] at h
  rw [hcounts]
  by_cases hmem : action ∉ ch 'C' :: allowed
  · rw [if_pos hmem] at h ⊢
    cases h
    intro c hc
    simp [AliPgDecodeMessage.counts, hno'.natt, hno'.kNatt, hno'.oldNatt, hno'.newNatt, hc]
  rw [if_neg hmem] at h ⊢
  obtain ⟨⟨action', s₃, msg₂⟩, hinfo, h⟩ := bind_eq_ok h
  obtain ⟨hskip, hcounts, hsame⟩ := skipColumnInfo_ok hno' hinfo
  have hold : msg₂.oldtuple.natt = 0 := hsame.oldNatt.trans hno'.oldNatt
  have hnew : msg₂.newtuple.natt = 0 := hsame.newNatt.trans hno'.newNatt
  generalize skipBlock action s₂ = block at hskip hcounts ⊢
  obtain ⟨counts, tag, s₄⟩ := block
  cases hskip
  dsimp only at h hcounts ⊢
  by_cases hmem' : action' ∉ allowed
  · rw [if_pos hmem'] at h ⊢
    cases h
    intro c hc
    rw [hcounts c hc]
    simp [AliPgDecodeMessage.counts, hold, hnew, hc]
  · rw [if_neg hmem'] at h ⊢
    obtain ⟨hn, hk, htuples⟩ := ht.ok _ _ _ _ _ _ hold hnew h
    rw [← hn, ← hk] at hcounts
    exact hcounts.append htuples

theorem readChange_total (ht : TailCounts tail tuples) (hno : NoCounts msg)
    (h : ∀ c ∈ changeCounts allowed tuples s, InArrays c) :
    ∃ r, readChange type allowed tail s msg = .ok r := by
  obtain ⟨action, s₂, msg₁, hno', hread, hcounts⟩ := readChange_eq type allowed tuples tail s hno
  rw [hcounts] at h
  rw [hread]
  by_cases hmem : action ∉ ch 'C' :: allowed
  · rw [if_pos hmem]
    exact ⟨_, rfl⟩
  rw [if_neg hmem] at h ⊢
  have hblock : ∀ c ∈ (skipBlock action s₂).1, InArrays c := by
    intro c hc
    refine h c ?_
    split_ifs
    · exact List.mem_append_left _ hc
    · exact hc
  obtain ⟨⟨action', s₃, msg₂⟩, hinfo⟩ := @skipColumnInfo_total s₂ msg₁ action hblock
  obtain ⟨hskip, -, hsame⟩ := skipColumnInfo_ok hno' hinfo
  rw [hinfo, ok_bind]
  generalize skipBlock action s₂ = block at h hskip
  obtain ⟨counts, tag, s₄⟩ := block
  cases hskip
  dsimp only at h ⊢
  by_cases hmem' : action' ∉ allowed
  · rw [if_pos hmem']
    exact ⟨_, rfl⟩
  · rw [if_neg hmem'] at h ⊢
    exact ht.total _ _ _ (hsame.oldNatt.trans hno'.oldNatt) (hsame.newNatt.trans hno'.newNatt)
      fun c hc => h c (List.mem_append_right _ hc)

end

/-! ## The actions -/

/-- The new tuple, at the end of an INSERT or UPDATE. -/
def readNewTuple (s : StringInfo) (msg : AliPgDecodeMessage) :
    Except Fault (Bool × StringInfo × AliPgDecodeMessage) := do
  let (rc, s, newtuple) ← readTupleParts s msg.newtuple
  .ok (rc, s, { msg with newtuple })

section
variable {s s' : StringInfo} {msg msg' : AliPgDecodeMessage} {rc : Bool}

theorem readNewTuple_ok (hnew : msg.newtuple.natt = 0)
    (h : readNewTuple s msg = .ok (rc, s', msg')) :
    msg'.natt = msg.natt ∧ msg'.kNatt = msg.kNatt ∧ msg'.oldtuple = msg.oldtuple ∧
      SameCounts (skipTuple s).1 [msg'.newtuple.natt] := by
  obtain ⟨⟨rc, s₁, newtuple⟩, htuple, h⟩ := bind_eq_ok h
  obtain ⟨-, hcounts⟩ := readTupleParts_ok hnew htuple
  cases h
  exact ⟨rfl, rfl, rfl, hcounts⟩

theorem readNewTuple_total (h : ∀ c ∈ (skipTuple s).1, InArrays c) :
    ∃ r, readNewTuple s msg = .ok r := by
  obtain ⟨⟨rc, s₁, newtuple⟩, htuple⟩ := @readTupleParts_total s msg.newtuple h
  rw [readNewTuple, htuple]
  exact ⟨_, rfl⟩

theorem sameCounts_zero_left {l : List ℤ} {c : ℤ} (h : SameCounts l [c]) : SameCounts l [0, c] := by
  intro d hd
  rw [h d hd]
  simp [hd]

theorem sameCounts_zero_right {l : List ℤ} {c : ℤ} (h : SameCounts l [c]) :
    SameCounts l [c, 0] := by
  intro d hd
  rw [h d hd]
  simp [hd]

theorem processRemoteInsert_eq (s : StringInfo) (msg : AliPgDecodeMessage) :
    processRemoteInsert s msg =
      readChange .insert [ch 'N'] (fun _ s msg => readNewTuple s msg) s msg := by
  simp only [processRemoteInsert, readChange, readNewTuple, List.mem_cons, List.not_mem_nil,
    or_false, not_or, and_comm, ne_eq]

theorem insert_tailCounts :
    TailCounts (fun _ s msg => readNewTuple s msg) (fun _ s => (skipTuple s).1) where
  ok action s msg rc s' msg' hold hnew h := by
    obtain ⟨hn, hk, ho, hcounts⟩ := readNewTuple_ok hnew h
    rw [ho, hold]
    exact ⟨hn, hk, sameCounts_zero_left hcounts⟩
  total action s msg _ _ h := readNewTuple_total h

/-- The old tuple of an UPDATE, and the byte after it. -/
def readOldTuple (action : UInt8) (s : StringInfo) (msg : AliPgDecodeMessage) :
    Except Fault (UInt8 × StringInfo × AliPgDecodeMessage) := do
  if action = ch 'K' then
    let (_, s, oldtuple) ← readTupleParts s msg.oldtuple
    let (action, s) := pqGetmsgbyte s
    .ok (action, s, { msg with hasKeyOrOld := true, oldtuple })
  else .ok (action, s, msg)

/-- The tuples of an UPDATE. -/
def readUpdateTuples (action : UInt8) (s : StringInfo) (msg : AliPgDecodeMessage) :
    Except Fault (Bool × StringInfo × AliPgDecodeMessage) := do
  let (action, s, msg) ← readOldTuple action s msg
  if action ≠ ch 'N' then .ok (false, s, msg) else readNewTuple s msg

theorem processRemoteUpdate_eq (s : StringInfo) (msg : AliPgDecodeMessage) :
    processRemoteUpdate s msg = readChange .update [ch 'K', ch 'N'] readUpdateTuples s msg := by
  have hmem : ∀ action, (action ≠ ch 'K' ∧ action ≠ ch 'N' ∧ action ≠ ch 'C') ↔
      action ∉ [ch 'C', ch 'K', ch 'N'] := by
    intro action
    simp only [List.mem_cons, List.not_mem_nil, or_false, not_or, ne_eq]
    tauto
  have hmem' : ∀ action, (action ≠ ch 'K' ∧ action ≠ ch 'N') ↔ action ∉ [ch 'K', ch 'N'] := by
    intro action
    simp only [List.mem_cons, List.not_mem_nil, or_false, not_or, ne_eq]
  simp only [processRemoteUpdate, readChange, hmem, hmem']
  -- the bytes after the old tuple are read in each of the two branches of the source's `if`
  have htuples : ∀ action s msg, readUpdateTuples action s msg =
      if action = ch 'K' then readOldTuple (ch 'K') s msg >>= fun r =>
        if r.1 ≠ ch 'N' then .ok (false, r.2.1, r.2.2) else readNewTuple r.2.1 r.2.2
      else if action ≠ ch 'N' then .ok (false, s, msg) else readNewTuple s msg := by
    intro action s msg
    rw [readUpdateTuples]
    by_cases hK : action = ch 'K'
    · rw [hK, if_pos rfl]
    · rw [if_neg hK, readOldTuple, if_neg hK, ok_bind]
  simp only [htuples, readOldTuple, if_true, bind_assoc, ok_bind]
  rfl

theorem readOldTuple_ok {action action' : UInt8} (hold : msg.oldtuple.natt = 0)
    (h : readOldTuple action s msg = .ok (action', s', msg')) :
    (skipOldTuple action s).2 = (action', s') ∧ msg'.natt = msg.natt ∧ msg'.kNatt = msg.kNatt ∧
      msg'.newtuple = msg.newtuple ∧ SameCounts (skipOldTuple action s).1 [msg'.oldtuple.natt] := by
  rw [readOldTuple] at h
  rw [skipOldTuple]
  by_cases hK : action = ch 'K'
  · rw [if_pos hK] at h ⊢
    obtain ⟨⟨rc, s₁, oldtuple⟩, htuple, h⟩ := bind_eq_ok h
    obtain ⟨rfl, hcounts⟩ := readTupleParts_ok hold htuple
    cases h
    exact ⟨rfl, rfl, rfl, rfl, hcounts⟩
  · rw [if_neg hK] at h ⊢
    cases h
    refine ⟨rfl, rfl, rfl, rfl, fun c hc => ?_⟩
    simp [hold, hc]

theorem readOldTuple_total {action : UInt8} (h : ∀ c ∈ (skipOldTuple action s).1, InArrays c) :
    ∃ r, readOldTuple action s msg = .ok r := by
  rw [skipOldTuple] at h
  rw [readOldTuple]
  by_cases hK : action = ch 'K'
  · rw [if_pos hK] at h ⊢
    obtain ⟨⟨rc, s₁, oldtuple⟩, htuple⟩ := @readTupleParts_total s msg.oldtuple h
    rw [htuple]
    exact ⟨_, rfl⟩
  · rw [if_neg hK]
    exact ⟨_, rfl⟩

theorem update_tailCounts : TailCounts readUpdateTuples updateTuples where
  ok action s msg rc s' msg' hold hnew h := by
    rw [readUpdateTuples] at h
    rw [updateTuples]
    obtain ⟨⟨action', s₁, msg₁⟩, hread, h⟩ := bind_eq_ok h
    obtain ⟨hskip, hn, hk, ht, hcounts⟩ := readOldTuple_ok hold hread
    generalize skipOldTuple action s = skipped at hskip hcounts ⊢
    obtain ⟨old, tag, s₂⟩ := skipped
    cases hskip
    dsimp only at h hcounts ⊢
    by_cases hN : action' ≠ ch 'N'
    · rw [if_pos hN] at h ⊢
      cases h
      rw [ht, hnew]
      exact ⟨hn, hk, sameCounts_zero_right hcounts⟩
    · rw [if_neg hN] at h ⊢
      obtain ⟨hn', hk', ho', hcounts'⟩ := readNewTuple_ok (by rw [ht, hnew]) h
      rw [ho']
      exact ⟨hn'.trans hn, hk'.trans hk, hcounts.append hcounts'⟩
  total action s msg hold hnew h := by
    rw [updateTuples] at h
    rw [readUpdateTuples]
    have hfirst : ∀ c ∈ (skipOldTuple action s).1, InArrays c := by
      intro c hc
      refine h c ?_
      dsimp only
      split_ifs
      · exact hc
      · exact List.mem_append_left _ hc
    obtain ⟨⟨action', s₁, msg₁⟩, hread⟩ := @readOldTuple_total s msg action hfirst
    obtain ⟨hskip, -⟩ := readOldTuple_ok hold hread
    rw [hread, ok_bind]
    generalize skipOldTuple action s = skipped at hskip h
    obtain ⟨old, tag, s₂⟩ := skipped
    cases hskip
    dsimp only at h ⊢
    by_cases hN : action' ≠ ch 'N'
    · rw [if_pos hN]
      exact ⟨_, rfl⟩
    · rw [if_neg hN] at h ⊢
      exact readNewTuple_total fun c hc => h c (List.mem_append_right _ hc)

/-- The old tuple of a DELETE. -/
def readDeleteTuple (action : UInt8) (s : StringInfo) (msg : AliPgDecodeMessage) :
    Except Fault (Bool × StringInfo × AliPgDecodeMessage) := do
  if action = ch 'E' then .ok (true, s, msg)
  else
    let (rc, s, oldtuple) ← readTupleParts s msg.oldtuple
    .ok (rc, s, { msg with hasKeyOrOld := true, oldtuple })

theorem processRemoteDelete_eq (s : StringInfo) (msg : AliPgDecodeMessage) :
    processRemoteDelete s msg = readChange .delete [ch 'K', ch 'E'] readDeleteTuple s msg := by
  have hmem : ∀ action, (action ≠ ch 'K' ∧ action ≠ ch 'E' ∧ action ≠ ch 'C') ↔
      action ∉ [ch 'C', ch 'K', ch 'E'] := by
    intro action
    simp only [List.mem_cons, List.not_mem_nil, or_false, not_or, ne_eq]
    tauto
  have hmem' : ∀ action, (action ≠ ch 'K' ∧ action ≠ ch 'E') ↔ action ∉ [ch 'K', ch 'E'] := by
    intro action
    simp only [List.mem_cons, List.not_mem_nil, or_false, not_or, ne_eq]
  simp only [processRemoteDelete, readChange, readDeleteTuple, hmem, hmem']

theorem delete_tailCounts :
    TailCounts readDeleteTuple fun action s => if action = ch 'E' then [] else (skipTuple s).1 where
  ok action s msg rc s' msg' hold hnew h := by
    rw [readDeleteTuple] at h
    by_cases hE : action = ch 'E'
    · rw [if_pos hE] at h ⊢
      cases h
      refine ⟨rfl, rfl, fun c hc => ?_⟩
      simp [hold, hnew, hc]
    · rw [if_neg hE] at h ⊢
      obtain ⟨⟨rc, s₁, oldtuple⟩, htuple, h⟩ := bind_eq_ok h
      obtain ⟨-, hcounts⟩ := readTupleParts_ok hold htuple
      cases h
      rw [hnew]
      exact ⟨rfl, rfl, sameCounts_zero_right hcounts⟩
  total action s msg _ _ h := by
    rw [readDeleteTuple]
    by_cases hE : action = ch 'E'
    · rw [if_pos hE]
      exact ⟨_, rfl⟩
    · rw [if_neg hE] at h ⊢
      obtain ⟨⟨rc, s₁, oldtuple⟩, htuple⟩ := @readTupleParts_total s msg.oldtuple h
      rw [htuple]
      exact ⟨_, rfl⟩

end

/-! ## Faults -/

/-- The only way in which a reader fails is a write outside an array. -/
def IndexFault {α : Type} (x : Except Fault α) : Prop :=
  ∀ fault, x = .error fault → ∃ i, fault = .arrayIndex i

section
variable {α β : Type}

theorem IndexFault.ok (a : α) : IndexFault (.ok a) := by
  intro fault h
  cases h

theorem IndexFault.bind {x : Except Fault α} {f : α → Except Fault β} (hx : IndexFault x)
    (hf : ∀ a, IndexFault (f a)) : IndexFault (x >>= f) := by
  rcases x with fault | a
  · intro fault' h
    cases h
    exact hx fault rfl
  · exact hf a

theorem setAt_indexFault (a : ℕ → α) (i : ℕ) (v : α) : IndexFault (setAt a i v) := by
  rw [setAt]
  split_ifs
  · exact .ok _
  · intro fault h
    cases h
    exact ⟨i, rfl⟩

end

theorem readCells_indexFault (n i : ℕ) (s : StringInfo) (tup : DecodeTupleData) :
    IndexFault (readCells n i s tup) := by
  induction n generalizing i s tup with
  | zero => exact .ok _
  | succ n ih =>
    rw [readCells]
    dsimp only
    split_ifs
    · exact (setAt_indexFault _ _ _).bind fun _ => ih _ _ _
    · exact (setAt_indexFault _ _ _).bind fun _ => (setAt_indexFault _ _ _).bind fun _ =>
        (setAt_indexFault _ _ _).bind fun _ => ih _ _ _
    · exact (setAt_indexFault _ _ _).bind fun _ => (setAt_indexFault _ _ _).bind fun _ => ih _ _ _
    · exact .ok _

theorem readTupleParts_indexFault (s : StringInfo) (tup : DecodeTupleData) :
    IndexFault (readTupleParts s tup) := by
  rw [readTupleParts]
  dsimp only
  split_ifs
  · exact .ok _
  · exact readCells_indexFault _ _ _ _

theorem readColumns_indexFault (n i : ℕ) (s : StringInfo) (msg : AliPgDecodeMessage) :
    IndexFault (readColumns n i s msg) := by
  induction n generalizing i s msg with
  | zero => exact .ok _
  | succ n ih =>
    rw [readColumns]
    dsimp only
    split_ifs
    · exact ih _ _ _
    · exact (setAt_indexFault _ _ _).bind fun _ => (setAt_indexFault _ _ _).bind fun _ => ih _ _ _

theorem readKeys_indexFault (n i : ℕ) (s : StringInfo) (msg : AliPgDecodeMessage) :
    IndexFault (readKeys n i s msg) := by
  induction n generalizing i s msg with
  | zero => exact .ok _
  | succ n ih =>
    rw [readKeys]
    exact (setAt_indexFault _ _ _).bind fun _ => ih _ _ _

theorem skipColumnInfo_indexFault (action : UInt8) (s : StringInfo) (msg : AliPgDecodeMessage) :
    IndexFault (skipColumnInfo action s msg) := by
  rw [skipColumnInfo]
  split_ifs
  · refine .bind ?_ fun _ => .ok _
    rw [processReadColunmInfo]
    refine .bind (readColumns_indexFault _ _ _ _) fun _ => ?_
    dsimp only
    split_ifs
    · exact .ok _
    · exact .ok _
    · exact .bind (readKeys_indexFault _ _ _ _) fun _ => .ok _
  · exact .ok _

theorem readNewTuple_indexFault (s : StringInfo) (msg : AliPgDecodeMessage) :
    IndexFault (readNewTuple s msg) := by
  rw [readNewTuple]
  exact .bind (readTupleParts_indexFault _ _) fun _ => .ok _

theorem readUpdateTuples_indexFault (action : UInt8) (s : StringInfo) (msg : AliPgDecodeMessage) :
    IndexFault (readUpdateTuples action s msg) := by
  rw [readUpdateTuples]
  refine .bind ?_ fun _ => ?_
  · rw [readOldTuple]
    split_ifs
    · exact .bind (readTupleParts_indexFault _ _) fun _ => .ok _
    · exact .ok _
  · dsimp only
    split_ifs
    · exact .ok _
    · exact readNewTuple_indexFault _ _

theorem readDeleteTuple_indexFault (action : UInt8) (s : StringInfo) (msg : AliPgDecodeMessage) :
    IndexFault (readDeleteTuple action s msg) := by
  rw [readDeleteTuple]
  split_ifs
  · exact .ok _
  · exact .bind (readTupleParts_indexFault _ _) fun _ => .ok _

theorem readChange_indexFault {type : MsgKind} {allowed : List UInt8}
    {tail : UInt8 → StringInfo → AliPgDecodeMessage →
      Except Fault (Bool × StringInfo × AliPgDecodeMessage)}
    (ht : ∀ action s msg, IndexFault (tail action s msg)) (s : StringInfo)
    (msg : AliPgDecodeMessage) : IndexFault (readChange type allowed tail s msg) := by
  rw [readChange]
  dsimp only
  split_ifs
  · refine .bind (skipColumnInfo_indexFault _ _ _) fun _ => ?_
    split_ifs
    · exact ht _ _ _
    · exact .ok _
  · exact .ok _

/-- **The decoder fails at an array only.** -/
theorem bdrProcessRemoteAction_indexFault (s : StringInfo) (msg : AliPgDecodeMessage) :
    IndexFault (bdrProcessRemoteAction s msg) := by
  rw [bdrProcessRemoteAction]
  simp only [processRemoteInsert_eq, processRemoteUpdate_eq, processRemoteDelete_eq]
  split_ifs
  · exact .ok _
  · exact .ok _
  · exact .bind (readChange_indexFault (fun _ => readNewTuple_indexFault) _ _) fun _ => .ok _
  · exact .bind (readChange_indexFault readUpdateTuples_indexFault _ _) fun _ => .ok _
  · exact .bind (readChange_indexFault readDeleteTuple_indexFault _ _) fun _ => .ok _
  · exact .ok _

/-! ## The decoder -/

/-- The message that the decoder starts with. -/
theorem noCounts_zeroed : NoCounts {} := ⟨rfl, rfl, rfl, rfl⟩

/-- What a decoded row change records are the counts of the payload. -/
theorem change_ok {x : Except Fault (Bool × StringInfo × AliPgDecodeMessage)}
    {counts : List ℤ} (hx : ∀ rc s msg, x = .ok (rc, s, msg) → SameCounts counts msg.counts)
    {rc : Bool} {s : StringInfo} {msg : AliPgDecodeMessage}
    (h : (x >>= fun r => Except.ok (true, r.2.1, r.2.2)) = .ok (rc, s, msg)) :
    SameCounts counts msg.counts := by
  obtain ⟨⟨rc', s', msg'⟩, hr, h⟩ := bind_eq_ok h
  cases h
  exact hx _ _ _ hr

theorem noChange_ok {s s' : StringInfo} {b rc : Bool} {msg msg' : AliPgDecodeMessage}
    (hzero : msg'.counts = [0, 0, 0, 0])
    (h : (Except.ok (b, s, msg') : Except Fault _) = .ok (rc, s', msg)) :
    SameCounts [] msg.counts := by
  obtain rfl := (Prod.mk.inj (Prod.mk.inj (Except.ok.inj h)).2).2
  intro c hc
  simp [hzero, hc]

theorem processRemoteBegin_counts (s : StringInfo) (msg : AliPgDecodeMessage) :
    (processRemoteBegin s msg).2.2.counts = msg.counts := by
  rw [processRemoteBegin]
  dsimp only
  rfl

theorem processRemoteCommit_counts (s : StringInfo) (msg : AliPgDecodeMessage) :
    (processRemoteCommit s msg).2.2.counts = msg.counts := by
  rw [processRemoteCommit]
  dsimp only
  split_ifs <;> rfl

/-- **What the decoder records** are the counts of the payload. -/
theorem bdrProcessRemoteAction_ok {s s' : StringInfo} {rc : Bool} {msg : AliPgDecodeMessage}
    (h : bdrProcessRemoteAction s {} = .ok (rc, s', msg)) :
    SameCounts (payloadCounts s) msg.counts := by
  rw [bdrProcessRemoteAction] at h
  rw [payloadCounts]
  generalize pqGetmsgbyte s = got at h ⊢
  obtain ⟨action, s₁⟩ := got
  dsimp only at h ⊢
  by_cases hI : action = ch 'I'
  · rw [hI, if_neg (by decide), if_neg (by decide), if_pos rfl] at h
    rw [if_pos hI]
    refine change_ok (fun rc s' msg hr => ?_) h
    rw [processRemoteInsert_eq] at hr
    exact readChange_ok insert_tailCounts noCounts_zeroed hr
  rw [if_neg hI] at h ⊢
  by_cases hU : action = ch 'U'
  · rw [hU, if_neg (by decide), if_neg (by decide), if_pos rfl] at h
    rw [if_pos hU]
    refine change_ok (fun rc s' msg hr => ?_) h
    rw [processRemoteUpdate_eq] at hr
    exact readChange_ok update_tailCounts noCounts_zeroed hr
  rw [if_neg hU] at h ⊢
  by_cases hD : action = ch 'D'
  · rw [hD, if_neg (by decide), if_neg (by decide), if_pos rfl] at h
    rw [if_pos hD]
    refine change_ok (fun rc s' msg hr => ?_) h
    rw [processRemoteDelete_eq] at hr
    exact readChange_ok delete_tailCounts noCounts_zeroed hr
  rw [if_neg hD] at h ⊢
  split_ifs at h
  · have hzero := processRemoteBegin_counts s₁ {}
    generalize processRemoteBegin s₁ {} = begin at h hzero
    exact noChange_ok hzero h
  · have hzero := processRemoteCommit_counts s₁ {}
    generalize processRemoteCommit s₁ {} = commit at h hzero
    exact noChange_ok hzero h
  · have hzero : ({} : AliPgDecodeMessage).counts = [0, 0, 0, 0] := rfl
    exact noChange_ok hzero h

/-- The decoder comes to an end if the arrays can hold the counts of the payload. -/
theorem bdrProcessRemoteAction_total {s : StringInfo} (h : ∀ c ∈ payloadCounts s, InArrays c) :
    ∃ r, bdrProcessRemoteAction s {} = .ok r := by
  rw [payloadCounts] at h
  rw [bdrProcessRemoteAction]
  generalize pqGetmsgbyte s = got at h ⊢
  obtain ⟨action, s₁⟩ := got
  dsimp only at h ⊢
  by_cases hI : action = ch 'I'
  · rw [if_pos hI] at h
    rw [hI, if_neg (by decide), if_neg (by decide), if_pos rfl, processRemoteInsert_eq]
    obtain ⟨r, hr⟩ := @readChange_total s₁ {} .insert _ _ _ insert_tailCounts noCounts_zeroed h
    rw [hr]
    exact ⟨_, rfl⟩
  rw [if_neg hI] at h ⊢
  by_cases hU : action = ch 'U'
  · rw [if_pos hU] at h
    rw [hU, if_neg (by decide), if_neg (by decide), if_pos rfl, processRemoteUpdate_eq]
    obtain ⟨r, hr⟩ := @readChange_total s₁ {} .update _ _ _ update_tailCounts noCounts_zeroed h
    rw [hr]
    exact ⟨_, rfl⟩
  rw [if_neg hU] at h ⊢
  by_cases hD : action = ch 'D'
  · rw [if_pos hD] at h
    rw [hD, if_neg (by decide), if_neg (by decide), if_pos rfl, processRemoteDelete_eq]
    obtain ⟨r, hr⟩ := @readChange_total s₁ {} .delete _ _ _ delete_tailCounts noCounts_zeroed h
    rw [hr]
    exact ⟨_, rfl⟩
  rw [if_neg hD]
  split_ifs
  · exact ⟨_, rfl⟩
  · exact ⟨_, rfl⟩
  · exact ⟨_, rfl⟩

/-- A payload that has counts starts with an action. -/
theorem startsWithAction_of_counts {p : Bytes} {stale : ℕ → UInt32} {c : ℤ}
    (h : c ∈ payloadCounts ⟨p, stale⟩) : StartsWithAction p := by
  rcases p with _ | ⟨action, r⟩
  · cases h
  refine ⟨action, rfl, ?_⟩
  rw [payloadCounts, pqGetmsgbyte_cons] at h
  dsimp only at h
  split_ifs at h with hI hU hD
  · simp [WireMessage.actions, hI]
  · simp [WireMessage.actions, hU]
  · simp [WireMessage.actions, hD]
  · cases h

/-- **The indices are inside the arrays** if and only if each count that the decoder comes to is
one that the arrays can hold. -/
theorem indicesInside_iff (p : Bytes) (stale : ℕ → UInt32) :
    IndicesInside p stale ↔ ∀ c ∈ payloadCounts ⟨p, stale⟩, InArrays c := by
  constructor
  · intro hin c hc
    rcases hd : bdrProcessRemoteAction ⟨p, stale⟩ {} with fault | ⟨rc, s, msg⟩
    · obtain ⟨i, rfl⟩ := bdrProcessRemoteAction_indexFault _ _ fault hd
      exact absurd hd (hin.writes i)
    · obtain rfl := bdrProcessRemoteAction_action (startsWithAction_of_counts hc) hd
      exact (bdrProcessRemoteAction_ok hd).forall_iff.2 (hin.counts s msg hd) c hc
  · intro hall
    have hcounts : ∀ s msg, bdrProcessRemoteAction ⟨p, stale⟩ {} = .ok (true, s, msg) →
        ∀ c ∈ msg.counts, InArrays c :=
      fun s msg hd => (bdrProcessRemoteAction_ok hd).forall_iff.1 hall
    refine ⟨fun i he => ?_, hcounts, fun s msg hd c hc i hi => ?_⟩
    · obtain ⟨r, hr⟩ := bdrProcessRemoteAction_total hall
      rw [hr] at he
      cases he
    · obtain ⟨-, hle⟩ := hcounts s msg hd c hc
      omega

/-- An INSERT without names of a tuple with `n` columns that are NULL. -/
def wideInsert (n : ℕ) : Bytes :=
  [ch 'I', 0, 0, 0, 0, ch 'N', ch 'T'] ++ encodeBE 4 n ++ List.replicate n (ch 'n')

theorem readCells_replicate {n i : ℕ} (hi : i ≤ MaxTupleAttributeNumber)
    (hn : MaxTupleAttributeNumber < i + n) (st : ℕ → UInt32) (tup : DecodeTupleData) :
    readCells n i ⟨List.replicate n (ch 'n'), st⟩ tup = .error (.arrayIndex 1664) := by
  induction n generalizing i tup with
  | zero => omega
  | succ n ih =>
    rw [readCells, List.replicate_succ, pqGetmsgbyte_cons]
    dsimp only
    rw [if_pos rfl]
    rcases Nat.eq_or_lt_of_le hi with rfl | hlt
    · rfl
    · rw [setAt_of_lt _ hlt, ok_bind]
      exact ih hlt (by omega) _

theorem readRelname_empty (r : Bytes) (st : ℕ → UInt32) (msg : AliPgDecodeMessage) :
    (readRelname ⟨0 :: 0 :: 0 :: 0 :: r, st⟩ msg).1 = ⟨r, st⟩ := by
  have hlen : ∀ r, pqGetmsgint ⟨0 :: 0 :: r, st⟩ 2 = (0, ⟨r, st⟩) :=
    fun r => @pqGetmsgint_send r st 0 2 (by decide)
  have hnone : ∀ r, pqGetmsgbytes ⟨r, st⟩ (0 : ℕ) = (some (cstr r), ⟨r, st⟩) := by
    intro r
    rw [pqGetmsgbytes, if_neg (by omega)]
    rfl
  simp only [readRelname, hlen, hnone]

theorem decode_wideInsert (stale : ℕ → UInt32) :
    bdrProcessRemoteAction ⟨wideInsert 1665, stale⟩ {} = .error (.arrayIndex 1664) := by
  have hlen : (1665 : ℕ) < 2 ^ 31 := by decide
  have hbytes : (1665 : ℕ) < 256 ^ 4 := by decide
  have hcells := fun tup => @readCells_replicate 1665 0 (by decide) (by decide) stale tup
  rw [wideInsert, List.append_assoc]
  generalize hn : (1665 : ℕ) = n at hlen hbytes hcells
  rw [bdrProcessRemoteAction]
  simp only [List.cons_append, List.nil_append, pqGetmsgbyte_cons, processRemoteInsert_eq]
  rw [if_neg (by decide), if_neg (by decide), if_pos trivial, readChange]
  have hs := readRelname_empty (ch 'N' :: ch 'T' :: (encodeBE 4 n ++ List.replicate n (ch 'n')))
    stale { ({} : AliPgDecodeMessage) with type := some .insert }
  generalize readRelname _ _ = read at hs
  obtain ⟨s, msg⟩ := read
  obtain rfl := hs
  dsimp only
  rw [pqGetmsgbyte_cons]
  dsimp only
  rw [if_neg (by decide), skipColumnInfo, if_neg (by decide), ok_bind]
  dsimp only
  rw [if_neg (by decide), readNewTuple, readTupleParts, pqGetmsgbyte_cons]
  dsimp only
  rw [if_neg (by decide), show encodeBE 4 n = pqSendint n 4 from rfl,
    pqGetmsgint_send _ _ hbytes]
  dsimp only
  rw [toInt_of_lt hlen, Int.toNat_natCast, hcells]
  rfl

/-- The first column too many is written behind the array. -/
theorem overrun_wideInsert :
    bdrProcessRemoteAction ⟨wideInsert 1665, fun _ => 0⟩ {} = .error (.arrayIndex 1664) ∧
      ¬ IndicesInside (wideInsert 1665) fun _ => 0 :=
  ⟨decode_wideInsert _, fun hin => hin.writes _ (decode_wideInsert _)⟩

end RdsDbsync
