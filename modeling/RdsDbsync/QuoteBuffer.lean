/-
  The buffer in which literals are quoted (`stringinfo.c`, with the ends of
  `quote_literal_local` in `utils.c` and `quote_literal_local_withoid` in `mysql2pgsql.c`).

  `scratchFits_iff`: for which lengths it is large enough; `quoteInBuffer_eq_withoid` and
  `quoteInBuffer_eq_local`: what the two functions append, byte by byte through the buffer.
-/
import RdsDbsync.Lib.Block
import RdsDbsync.MysqlField

namespace RdsDbsync

open Bytes

/-! ## The buffer -/

/-- A `StringInfo` that is written to. -/
structure StringInfoData where
  maxlen : ℕ
  data : Block UInt8 maxlen
  len : ℕ
  len_lt : len < maxlen
  maxlen_le : maxlen ≤ MaxAllocSize

theorem StringInfoData.maxlen_pos (str : StringInfoData) : 0 < str.maxlen :=
  Nat.zero_lt_of_lt str.len_lt

/-- `resetStringInfo` -/
def resetStringInfo (str : StringInfoData) : StringInfoData where
  maxlen := str.maxlen
  data := ⟨Function.update str.data.cells 0 0⟩
  len := 0
  len_lt := str.maxlen_pos
  maxlen_le := str.maxlen_le

/-- `initStringInfo`; `cells` is what the allocated memory holds. -/
def initStringInfo (cells : ℕ → UInt8) : StringInfoData :=
  resetStringInfo ⟨1024, ⟨cells⟩, 0, Nat.zero_lt_succ _, by decide⟩

/-- The `while` loop of `enlargeStringInfo`. -/
def doubledNewlen (needed newlen : ℕ) (h : 0 < newlen) : ℕ :=
  if needed > newlen then doubledNewlen needed (2 * newlen) (Nat.mul_pos Nat.two_pos h) else newlen
termination_by needed - newlen
decreasing_by omega

theorem le_doubledNewlen (needed newlen : ℕ) (h : 0 < newlen) :
    newlen ≤ doubledNewlen needed newlen h := by
  fun_induction doubledNewlen needed newlen h with
  | case1 newlen h hgt ih => omega
  | case2 => exact le_rfl

theorem needed_le_doubledNewlen (needed newlen : ℕ) (h : 0 < newlen) :
    needed ≤ doubledNewlen needed newlen h := by
  fun_induction doubledNewlen needed newlen h with
  | case1 newlen h hgt ih => exact ih
  | case2 newlen h hle => omega

/-- The loop stops before `newlen` is no `int`, since `MaxAllocSize` is below `INT_MAX / 2`. -/
theorem doubledNewlen_lt {needed newlen : ℕ} (h : 0 < newlen) (hneeded : needed ≤ MaxAllocSize)
    (hnewlen : newlen < 2 ^ 31) : doubledNewlen needed newlen h < 2 ^ 31 := by
  have hmax : MaxAllocSize = 0x3fffffff := rfl
  fun_induction doubledNewlen needed newlen h with
  | case1 newlen h hgt ih => exact ih (by omega)
  | case2 newlen h hle => exact hnewlen

/-- What `enlargeStringInfo` reallocates to. -/
def newMaxlen (maxlen needed : ℕ) (h : 0 < maxlen) : ℕ :=
  min (doubledNewlen needed (2 * maxlen) (Nat.mul_pos Nat.two_pos h)) MaxAllocSize

theorem le_newMaxlen {maxlen needed : ℕ} (h : 0 < maxlen) (hle : maxlen ≤ MaxAllocSize) :
    maxlen ≤ newMaxlen maxlen needed h := by
  have := le_doubledNewlen needed (2 * maxlen) (Nat.mul_pos Nat.two_pos h)
  exact le_min (by omega) hle

theorem needed_le_newMaxlen {maxlen needed : ℕ} (h : 0 < maxlen) (hle : needed ≤ MaxAllocSize) :
    needed ≤ newMaxlen maxlen needed h :=
  le_min (needed_le_doubledNewlen _ _ _) hle

/-- `enlargeStringInfo`; `none` if it only prints a message. -/
def enlargeStringInfo (str : StringInfoData) (needed : ℤ) : Option StringInfoData :=
  if needed < 0 then none
  else if needed.toNat ≥ MaxAllocSize - str.len then none
  -- the space that is needed in all
  else if needed.toNat + str.len + 1 ≤ str.maxlen then some str
  else some {
    maxlen := newMaxlen str.maxlen (needed.toNat + str.len + 1) str.maxlen_pos
    data := str.data.resize _
    len := str.len
    len_lt := Nat.lt_of_lt_of_le str.len_lt (le_newMaxlen str.maxlen_pos str.maxlen_le)
    maxlen_le := Nat.min_le_right _ _ }

/-- Stores to the buffer from `data[i]` on. -/
def StringInfoData.store (str : StringInfoData) (i : ℕ) (l : Bytes) :
    Except Fault StringInfoData :=
  match str.data.putAll i l with
  | some data => .ok { str with data }
  | none => .error .bufferOverrun

/-- The spaces that `appendStringInfoSpaces` stores, and the NUL. -/
def spaces (count : ℕ) : Bytes := List.replicate count (ch ' ') ++ [0]

theorem lt_of_putAll_spaces {n i count : ℕ} {b b' : Block UInt8 n}
    (h : b.putAll i (spaces count) = some b') : i + count < n := by
  have := Block.le_of_putAll (by simp [spaces]) h
  rw [spaces, List.length_append, List.length_replicate, List.length_singleton] at this
  omega

/-- The loop of `appendStringInfoSpaces`. -/
def StringInfoData.storeSpaces (str : StringInfoData) (count : ℕ) :
    Except Fault StringInfoData :=
  match h : str.data.putAll str.len (spaces count) with
  | some data => .ok ⟨str.maxlen, data, str.len + count, lt_of_putAll_spaces h, str.maxlen_le⟩
  | none => .error .bufferOverrun

/-- `appendStringInfoSpaces`; it does not learn whether the buffer has been enlarged. -/
def appendStringInfoSpaces (str : StringInfoData) (count : ℤ) : Except Fault StringInfoData :=
  if count > 0 then ((enlargeStringInfo str count).getD str).storeSpaces count.toNat
  else .ok str

/-- How a text is quoted in the buffer `s`, and what of it is then appended.  A negative length
is, as a `size_t`, beyond all memory. -/
def quoteInBuffer (s : StringInfoData) (rawstr : Bytes) :
    Except Fault (StringInfoData × Bytes) := do
  let len := toInt (rawstr.length % 0x100000000)
  let s ← appendStringInfoSpaces (resetStringInfo s) (asInt (len * 2 + 3))
  if len < 0 then .error .bufferOverrun
  else
    let s ← s.store 0 (cbytes (quoteLiteralInternal (rawstr.take len.toNat)))
    .ok (s, cstr s.data.contents)

/-- The buffer has room for a value of length `len`. -/
structure ScratchFits (s : StringInfoData) (len : ℕ) : Prop where
  /-- All the spaces are stored; then there is room for the longest literal and the NUL, and the
  literal of every value of this length is stored. -/
  room : ∃ s', appendStringInfoSpaces (resetStringInfo s) (asInt (len * 2 + 3)) = .ok s' ∧
    1 + 2 + 2 * len + 1 ≤ s'.maxlen ∧
    ∀ v : CString, v.1.length = len →
      ∃ s'', s'.store 0 (cbytes (quoteLiteralInternal v.1)) = .ok s''
  /-- Nothing is stored when the buffer cannot be enlarged. -/
  refused : enlargeStringInfo (resetStringInfo s) (asInt (len * 2 + 3)) = none →
    appendStringInfoSpaces (resetStringInfo s) (asInt (len * 2 + 3)) = .ok (resetStringInfo s)

/-! ## Enlarging -/

theorem enlargeStringInfo_eq_none_iff (str : StringInfoData) (needed : ℤ) :
    enlargeStringInfo str needed = none ↔
      needed < 0 ∨ (MaxAllocSize : ℤ) ≤ needed + str.len := by
  have hlen := str.len_lt
  have hmax := str.maxlen_le
  unfold enlargeStringInfo
  split_ifs with hneg hlarge
  · exact iff_of_true rfl (Or.inl hneg)
  · exact iff_of_true rfl (Or.inr (by omega))
  · refine iff_of_false ?_ (by omega)
    intro h
    cases h
  · refine iff_of_false ?_ (by omega)
    intro h
    cases h

/-- An enlarged buffer has room for what is needed and a NUL, and holds what it held. -/
theorem enlargeStringInfo_spec {str str' : StringInfoData} {needed : ℤ}
    (h : enlargeStringInfo str needed = some str') :
    str'.len = str.len ∧ str.len + needed < str'.maxlen ∧ str'.data.cells = str.data.cells := by
  have hlen := str.len_lt
  have hmax := str.maxlen_le
  unfold enlargeStringInfo at h
  split_ifs at h with hneg hlarge
  · obtain rfl := Option.some.inj h
    exact ⟨rfl, by omega, rfl⟩
  · obtain rfl := Option.some.inj h
    have hle : needed.toNat + str.len + 1 ≤ MaxAllocSize := by omega
    have hroom := needed_le_newMaxlen str.maxlen_pos hle
    refine ⟨rfl, ?_, rfl⟩
    show str.len + needed < (newMaxlen str.maxlen (needed.toNat + str.len + 1) str.maxlen_pos : ℕ)
    omega

/-! ## Storing -/

theorem StringInfoData.store_of_le (str : StringInfoData) {i : ℕ} {l : Bytes}
    (h : i + l.length ≤ str.maxlen) :
    ∃ str', str.store i l = .ok str' ∧ str'.maxlen = str.maxlen := by
  unfold StringInfoData.store
  rw [str.data.putAll_of_le h]
  exact ⟨_, rfl, rfl⟩

theorem StringInfoData.store_of_lt {str : StringInfoData} {i : ℕ} {l : Bytes} (hl : l ≠ [])
    (h : str.maxlen < i + l.length) : str.store i l = .error .bufferOverrun := by
  unfold StringInfoData.store
  rw [str.data.putAll_of_lt hl h]

/-- A C string that is stored at the start of the buffer is what is read from there. -/
theorem StringInfoData.store_cbytes (str : StringInfoData) {t : Bytes} (ht : NulFree t)
    (h : t.length < str.maxlen) :
    ∃ str', str.store 0 (cbytes t) = .ok str' ∧ cstr str'.data.contents = t := by
  obtain ⟨data, rest, hput, hcontents⟩ :=
    Block.contents_putAll (b := str.data) (l := cbytes t) (by rw [length_cbytes]; omega)
  unfold StringInfoData.store
  rw [hput]
  refine ⟨_, rfl, ?_⟩
  show cstr data.contents = t
  rw [hcontents, cstr_cbytes ht]

theorem StringInfoData.storeSpaces_of_lt (str : StringInfoData) {count : ℕ}
    (h : str.len + count < str.maxlen) :
    ∃ str', str.storeSpaces count = .ok str' ∧ str'.maxlen = str.maxlen := by
  unfold StringInfoData.storeSpaces
  split
  · exact ⟨_, rfl, rfl⟩
  · next hput =>
    rw [Block.putAll_of_le _ (by simp [spaces]; omega)] at hput
    cases hput

theorem StringInfoData.storeSpaces_of_le {str : StringInfoData} {count : ℕ}
    (h : str.maxlen ≤ str.len + count) : str.storeSpaces count = .error .bufferOverrun := by
  unfold StringInfoData.storeSpaces
  split
  · next hput =>
    have := lt_of_putAll_spaces hput
    omega
  · rfl

/-- Spaces for which the buffer can be enlarged are stored. -/
theorem appendStringInfoSpaces_ok (str : StringInfoData) {count : ℤ} (hpos : 0 < count)
    (h : count + str.len < MaxAllocSize) :
    ∃ str', appendStringInfoSpaces str count = .ok str' ∧ str.len + count < str'.maxlen := by
  obtain ⟨big, hbig⟩ : ∃ big, enlargeStringInfo str count = some big := by
    rw [← Option.ne_none_iff_exists', Ne, enlargeStringInfo_eq_none_iff]
    omega
  obtain ⟨hlen, hroom, -⟩ := enlargeStringInfo_spec hbig
  unfold appendStringInfoSpaces
  rw [if_pos hpos, hbig, Option.getD_some]
  obtain ⟨str', hstr', hmaxlen⟩ := big.storeSpaces_of_lt (show big.len + count.toNat < big.maxlen by omega)
  exact ⟨str', hstr', by omega⟩

/-- Spaces for which it cannot be enlarged are stored past its end. -/
theorem appendStringInfoSpaces_overrun {str : StringInfoData} {count : ℤ}
    (h : (MaxAllocSize : ℤ) ≤ count + str.len) (hpos : 0 < count) :
    appendStringInfoSpaces str count = .error .bufferOverrun := by
  have hmax := str.maxlen_le
  unfold appendStringInfoSpaces
  rw [if_pos hpos, (enlargeStringInfo_eq_none_iff str count).2 (Or.inr h), Option.getD_none]
  exact StringInfoData.storeSpaces_of_le (by omega)

theorem appendStringInfoSpaces_error {str : StringInfoData} {count : ℤ} {e : Fault}
    (h : appendStringInfoSpaces str count = .error e) : e = .bufferOverrun := by
  unfold appendStringInfoSpaces at h
  split_ifs at h
  obtain ⟨big, hbig⟩ : ∃ big, big = (enlargeStringInfo str count).getD str := ⟨_, rfl⟩
  rw [← hbig] at h
  by_cases hroom : big.len + count.toNat < big.maxlen
  · obtain ⟨str', hstr', -⟩ := big.storeSpaces_of_lt hroom
    rw [hstr'] at h
    cases h
  · rw [StringInfoData.storeSpaces_of_le (by omega)] at h
    exact (Except.error.inj h).symm

/-! ## Literals -/

/-- The shortest and the longest literal of a text. -/
theorem length_quoteLiteralInternal_bounds (v : Bytes) :
    v.length + 2 ≤ (quoteLiteralInternal v).length ∧
      (quoteLiteralInternal v).length ≤ 2 * v.length + 3 := by
  have hbody : v.length ≤ (v.flatMap fun c => if sqlStrDouble c then [c, c] else [c]).length ∧
      (v.flatMap fun c => if sqlStrDouble c then [c, c] else [c]).length ≤ 2 * v.length := by
    induction v with
    | nil => exact ⟨le_rfl, le_rfl⟩
    | cons c v ih =>
      rw [List.flatMap_cons, List.length_append, List.length_cons]
      split_ifs
      · rw [List.length_cons, List.length_singleton]
        omega
      · rw [List.length_singleton]
        omega
  unfold quoteLiteralInternal
  rw [List.length_append, List.length_append, List.length_append]
  split_ifs
  · rw [List.length_singleton, List.length_singleton]
    omega
  · rw [List.length_singleton, List.length_nil]
    omega

theorem nulFree_quoteLiteralInternal {v : Bytes} (h : NulFree v) :
    NulFree (quoteLiteralInternal v) := by
  intro h0
  unfold quoteLiteralInternal at h0
  simp only [List.mem_append, List.mem_flatMap, List.mem_singleton] at h0
  rcases h0 with ((h0 | h0) | ⟨c, hc, h0⟩) | h0
  · split_ifs at h0
    · rw [List.mem_singleton] at h0
      revert h0
      decide
    · cases h0
  · revert h0
    decide
  · have : (0 : UInt8) = c := by
      split_ifs at h0 <;> simpa using h0
    exact h (this ▸ hc)
  · revert h0
    decide

/-! ## The lengths that fit -/

/-- The buffer after the spaces that are asked for a value of length `len`. -/
theorem spaces_room (s : StringInfoData) (len : ℕ) (h : len * 2 + 3 < MaxAllocSize) :
    ∃ s', appendStringInfoSpaces (resetStringInfo s) (asInt (len * 2 + 3)) = .ok s' ∧
      2 * len + 3 < s'.maxlen := by
  have hmax : MaxAllocSize = 0x3fffffff := rfl
  have hreset : (resetStringInfo s).len = 0 := rfl
  rw [asInt_of_lt (by omega) (by omega)]
  obtain ⟨s', hs', hroom⟩ := appendStringInfoSpaces_ok (resetStringInfo s)
    (show (0 : ℤ) < len * 2 + 3 by omega) (by omega)
  exact ⟨s', hs', by omega⟩

/-- The spaces for a value that is too long run past the end, or there are none or a single one
of them: their number has left the `int` range. -/
theorem spaces_of_long (s : StringInfoData) (len : ℕ) (h31 : len < 2 ^ 31)
    (h : MaxAllocSize ≤ len * 2 + 3) :
    appendStringInfoSpaces (resetStringInfo s) (asInt (len * 2 + 3)) = .error .bufferOverrun ∨
      2 ^ 30 - 1 ≤ len := by
  have hreset : (resetStringInfo s).len = 0 := rfl
  by_cases hint : len * 2 + 3 < 2 ^ 31
  · left
    rw [asInt_of_lt (by omega) (by omega)]
    exact appendStringInfoSpaces_overrun (by omega) (by omega)
  · right
    omega

/-- A refused request for a value whose length is an `int` is one for too long a value. -/
theorem refused_of_fits (s : StringInfoData) {len : ℕ} (h : len * 2 + 3 < MaxAllocSize) :
    enlargeStringInfo (resetStringInfo s) (asInt (len * 2 + 3)) ≠ none := by
  have hmax : MaxAllocSize = 0x3fffffff := rfl
  have hreset : (resetStringInfo s).len = 0 := rfl
  rw [Ne, enlargeStringInfo_eq_none_iff, asInt_of_lt (by omega) (by omega)]
  omega

/-- **The buffer has room for a value exactly if its spaces are fewer than `MaxAllocSize`.** -/
theorem scratchFits_iff (s : StringInfoData) {len : ℕ} (h31 : len < 2 ^ 31) :
    ScratchFits s len ↔ len * 2 + 3 < MaxAllocSize := by
  have hmax : MaxAllocSize = 0x3fffffff := rfl
  constructor
  · rintro ⟨⟨s', hs', hroom, -⟩, -⟩
    by_contra hlong
    have hle := s'.maxlen_le
    rcases spaces_of_long s len h31 (by omega) with hoverrun | hlen
    · rw [hoverrun] at hs'
      cases hs'
    · omega
  · intro hlen
    obtain ⟨s', hs', hroom⟩ := spaces_room s len hlen
    constructor
    · refine ⟨s', hs', by omega, ?_⟩
      intro v hv
      have hbounds := length_quoteLiteralInternal_bounds v.1
      obtain ⟨s'', hs'', -⟩ := s'.store_of_le (i := 0)
        (l := cbytes (quoteLiteralInternal v.1)) (by rw [length_cbytes]; omega)
      exact ⟨s'', hs''⟩
    · intro hrefused
      exact absurd hrefused (refused_of_fits s hlen)

/-- A value of five bytes fits a new buffer. -/
theorem scratchFits_five : ScratchFits (initStringInfo fun _ => 0) 5 :=
  (scratchFits_iff _ (by decide)).2 (by decide)

/-- The shortest value that does not fit has `(MaxAllocSize - 3) / 2` bytes. -/
theorem not_scratchFits_halfGiB : ¬ ScratchFits (initStringInfo fun _ => 0) 536870910 := by
  rintro ⟨⟨s', hs', -⟩, -⟩
  rcases spaces_of_long (initStringInfo fun _ => 0) 536870910 (by decide) (by decide) with
    hoverrun | hlen
  · rw [hoverrun] at hs'
    cases hs'
  · revert hlen
    decide

/-! ## What the two functions append -/

theorem nulFree_take {t : Bytes} (h : NulFree t) (n : ℕ) : NulFree (t.take n) :=
  fun h0 => h (List.mem_of_mem_take h0)

/-- Quoting a C string, whatever the state of the buffer, comes to its literal or to a store past
the end. -/
theorem quoteInBuffer_eq (s : StringInfoData) (rawstr : CString) {len : ℤ}
    (hlen : len = toInt (rawstr.1.length % 0x100000000)) :
    (quoteInBuffer s rawstr.1).map Prod.snd =
      if len < 0 ∨ (MaxAllocSize : ℤ) ≤ len * 2 + 3 then .error .bufferOverrun
      else .ok (quoteLiteralInternal (rawstr.1.take len.toNat)) := by
  have hmax : MaxAllocSize = 0x3fffffff := rfl
  have hrange : len < 2 ^ 31 ∧ len ≤ rawstr.1.length := by
    rw [hlen]
    unfold toInt
    split_ifs <;> omega
  unfold quoteInBuffer
  rw [← hlen]
  dsimp only
  cases hspaces : appendStringInfoSpaces (resetStringInfo s) (asInt (len * 2 + 3)) with
  | error e =>
    obtain rfl := appendStringInfoSpaces_error hspaces
    rw [if_pos]
    · rfl
    · by_contra hfits
      obtain ⟨n, rfl⟩ := Int.eq_ofNat_of_zero_le (a := len) (by omega)
      obtain ⟨s', hs', -⟩ := spaces_room s n (by omega)
      rw [hs'] at hspaces
      cases hspaces
  | ok s' =>
    rw [ok_bind]
    by_cases hneg : len < 0
    · rw [if_pos hneg, if_pos (Or.inl hneg)]
      rfl
    · obtain ⟨n, rfl⟩ := Int.eq_ofNat_of_zero_le (a := len) (by omega)
      have hbounds := length_quoteLiteralInternal_bounds (rawstr.1.take n)
      rw [List.length_take, Nat.min_eq_left (by omega)] at hbounds
      rw [if_neg hneg, Int.toNat_natCast]
      by_cases hlong : MaxAllocSize ≤ n * 2 + 3
      · -- the buffer has hardly grown, and even the shortest literal is larger
        rw [if_pos (by omega)]
        have hle := s'.maxlen_le
        rcases spaces_of_long s n (by omega) hlong with hoverrun | hn
        · rw [hoverrun] at hspaces
          cases hspaces
        · rw [StringInfoData.store_of_lt (by simp [cbytes]) (by rw [length_cbytes]; omega)]
          rfl
      · rw [if_neg (by omega)]
        obtain ⟨t, ht, hroom⟩ := spaces_room s n (by omega)
        obtain rfl : t = s' := Except.ok.inj (ht.symm.trans hspaces)
        obtain ⟨s'', hs'', htext⟩ := t.store_cbytes
          (nulFree_quoteLiteralInternal (nulFree_take rawstr.2 n)) (by omega)
        rw [hs'', ok_bind, ← htext]
        rfl

/-- **What `quote_literal_local_withoid` appends is what comes out of the buffer.** -/
theorem quoteInBuffer_eq_withoid (s : StringInfoData) (rawstr : CString) {type : Oid}
    (h : type = .text ∨ type = .timestamptz) :
    (quoteInBuffer s rawstr.1).map Prod.snd = quoteLiteralLocalWithoid rawstr.1 type := by
  rw [quoteInBuffer_eq s rawstr rfl]
  rcases h with rfl | rfl
  · rfl
  · rfl

/-- **What `quote_literal_local` appends is what comes out of the buffer**, as long as the length
of the value is an `int`. -/
theorem quoteInBuffer_eq_local (s : StringInfoData) (rawstr : CString) {type : Bytes}
    (hbare : type ∉ bareTypes) (hplain : type ∉ plainQuotedTypes)
    (h31 : rawstr.1.length < 2 ^ 31) :
    (quoteInBuffer s rawstr.1).map Prod.snd = quoteLiteralLocal (some rawstr.1) (some type) := by
  rw [quoteInBuffer_eq s rawstr rfl, toInt_mod_of_lt h31]
  unfold quoteLiteralLocal str
  rw [ok_bind, ok_bind, if_neg hbare, if_neg hplain, Int.toNat_natCast, List.take_length]
  congr 1
  rw [eq_iff_iff]
  omega

/-! ## One value after the other -/

/-- The literals of the values `vs`, quoted one after the other in one buffer. -/
def quoteAll : StringInfoData → List CString → Except Fault (List Bytes)
  | _, [] => .ok []
  | s, v :: vs => do
    let (s, literal) ← quoteInBuffer s v.1
    let literals ← quoteAll s vs
    .ok (literal :: literals)

/-- Values that fit can follow each other in any order and number: the buffer needs no room for
what it held before. -/
theorem quoteAll_eq (s : StringInfoData) {vs : List CString}
    (h : ∀ v ∈ vs, v.1.length * 2 + 3 < MaxAllocSize) :
    quoteAll s vs = .ok (vs.map fun v => quoteLiteralInternal v.1) := by
  have hmax : MaxAllocSize = 0x3fffffff := rfl
  induction vs generalizing s with
  | nil => rfl
  | cons v vs ih =>
    rw [List.forall_mem_cons] at h
    have hv := quoteInBuffer_eq s v rfl
    rw [toInt_mod_of_lt (by omega), if_neg (by omega), Int.toNat_natCast, List.take_length] at hv
    unfold quoteAll
    cases hq : quoteInBuffer s v.1 with
    | error e =>
      rw [hq] at hv
      cases hv
    | ok r =>
      obtain ⟨s', literal⟩ := r
      rw [hq] at hv
      obtain rfl : literal = quoteLiteralInternal v.1 := Except.ok.inj hv
      rw [ok_bind]
      dsimp only
      rw [ih s' h.2, ok_bind, List.map_cons]

end RdsDbsync
