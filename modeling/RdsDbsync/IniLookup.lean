/-
  What `ini_get` finds in a configuration file.

  `iniGet_of_iniLoad`: for every file, the string that follows the key; for a text file
  with a key for every value, the first value that is assigned to it.
-/
import RdsDbsync.IniText

namespace RdsDbsync

open Bytes

/-! ## Names -/

theorem toLower_eq_zero {c : UInt8} (h : toLower c = 0) : c = 0 := by
  unfold toLower at h
  split_ifs at h with hupper
  · have hsum := congrArg UInt8.toNat h
    have hle : c.toNat ≤ 90 := hupper.2
    have hge : 65 ≤ c.toNat := hupper.1
    rw [UInt8.toNat_add] at hsum
    simp at hsum
    omega
  · exact h

/-- **Names are compared without regard to case.** -/
theorem sameName_iff {a b : Bytes} (ha : NulFree a) (hb : NulFree b) :
    sameName a b ↔ a.map toLower = b.map toLower := by
  rw [sameName, beq_iff_eq]
  fun_induction strcmpci a b with
  | case1 => simp
  | case2 b t =>
    have hne : (toLower b).toNat ≠ 0 := fun h =>
      hb (by rw [toLower_eq_zero (UInt8.toNat_inj.1 h)]; exact List.mem_cons_self)
    simp
    omega
  | case3 a s =>
    have hne : (toLower a).toNat ≠ 0 := fun h =>
      ha (by rw [toLower_eq_zero (UInt8.toNat_inj.1 h)]; exact List.mem_cons_self)
    simp
    omega
  | case4 a s b t d hd =>
    have hne : toLower a ≠ toLower b := fun h => hd (by simp [d, h])
    simp [hd, hne]
  | case5 a s b t d hd ih =>
    have heq : toLower a = toLower b := by
      refine UInt8.toNat_inj.1 ?_
      omega
    simp only [NulFree, List.mem_cons, not_or] at ha hb
    rw [ih ha.2 hb.2, List.map_cons, List.map_cons, heq, List.cons_inj_right]

/-! ## Walking over the strings -/

section
variable (sect : Option CString) (key : CString)

/-- The value that is found in the strings of a file, within the section `current`. -/
def findValue : (current : Bytes) → List Bytes → Option Bytes
  | _, [] => none
  | current, [s] =>
    if s.head? = some (ch '[') then none
    else if IniT.inSection sect current && sameName s key.1 then some [] else none
  | current, s :: val :: rest =>
    if s.head? = some (ch '[') then findValue s.tail (val :: rest)
    else if IniT.inSection sect current && sameName s key.1 then some val
    else findValue current rest

variable {sect key} {current : Bytes} {s : Bytes} {rest : List Bytes}

theorem findValue_header : findValue sect key current ((ch '[' :: s) :: rest) =
    findValue sect key s rest := by
  cases rest with
  | nil => rfl
  | cons val rest => exact if_pos rfl

theorem findValue_entry (h : s.head? ≠ some (ch '[')) :
    findValue sect key current (s :: rest) =
      if IniT.inSection sect current && sameName s key.1 then some (rest.headD [])
      else findValue sect key current rest.tail := by
  cases rest with
  | nil => exact if_neg h
  | cons val rest => exact if_neg h

end

/-- The buffer behind its first string. -/
def afterString (t : Bytes) : Bytes := (t.dropWhile (· ≠ 0)).dropWhile (· = 0)

/-- The text is empty, or starts with a string. -/
def AtString (t : Bytes) : Prop := t.head? ≠ some 0

theorem length_afterString_le (t : Bytes) : (afterString t).length ≤ t.length :=
  ((List.dropWhile_suffix _).trans (List.dropWhile_suffix _)).length_le

theorem atString_afterString (t : Bytes) : AtString (afterString t) := by
  have := List.head?_dropWhile_not (· = 0) (t.dropWhile (· ≠ 0))
  intro h
  rw [afterString] at h
  rw [h] at this
  cases this

theorem strings_afterString (t : Bytes) : strings (afterString t) = strings (t.dropWhile (· ≠ 0)) :=
  strings_dropWhile_zero _

theorem strings_headD {t : Bytes} (h : AtString t) : (strings t).headD [] = cstr t := by
  cases t with
  | nil => rfl
  | cons c t =>
    have hc : c ≠ 0 := fun hc => h (by rw [hc]; rfl)
    rw [strings_eq_cons (by simp [cstr, hc])]
    rfl

theorem strings_tail {t : Bytes} (h : AtString t) : (strings t).tail = strings (afterString t) := by
  cases t with
  | nil => rfl
  | cons c t =>
    have hc : c ≠ 0 := fun hc => h (by rw [hc]; rfl)
    rw [strings_eq_cons (by simp [cstr, hc]), strings_afterString]
    rfl

namespace IniT

variable (a t : Bytes)

theorem stringAt_cut : (cut a t).stringAt a.length = cstr t := by
  rw [stringAt, cut, List.drop_left, cstr_concat_zero]

theorem skipNuls_cut : (cut a t).skipNuls t.length a.length =
    .ok (a ++ t.takeWhile (· = 0)).length := by
  induction t generalizing a with
  | nil => simp [skipNuls]
  | cons c t ih =>
    have hpos : a.length + 1 = (a ++ [c]).length := by simp
    rw [List.length_cons, skipNuls, read_cut, ok_bind]
    split_ifs with hc
    · rw [← List.singleton_append, cut_append, hpos, ih, List.singleton_append,
        List.takeWhile_cons_of_pos (by simpa using hc), List.append_assoc]
      rfl
    · rw [List.takeWhile_cons_of_neg (by simpa using hc), List.append_nil]

/-- **`next`** goes to the next string. -/
theorem next_cut : ∃ s, cut a t = cut (a ++ s) (afterString t) ∧
    (cut a t).next a.length = .ok (a ++ s).length := by
  have hspans : spans [] = fun c => decide (c ≠ 0) := by
    funext c
    simp [spans]
  have hsplit : t = t.takeWhile (· ≠ 0) ++ t.dropWhile (· ≠ 0) := List.takeWhile_append_dropWhile.symm
  refine ⟨t.takeWhile (· ≠ 0) ++ (t.dropWhile (· ≠ 0)).takeWhile (· = 0), ?_, ?_⟩
  · rw [← cut_append, List.append_assoc, afterString, List.takeWhile_append_dropWhile, ← hsplit]
  · have hcut : cut a t = cut (a ++ t.takeWhile (· ≠ 0)) (t.dropWhile (· ≠ 0)) := by
      rw [← cut_append, ← hsplit]
    rw [next, strcspn_cut, ok_bind, hspans, ← List.length_append, hcut, endPos_cut,
      Nat.add_sub_cancel_left, skipNuls_cut, List.append_assoc]

variable {sect : Option CString} {key : CString}

/-- **The loop of `ini_get`** finds what is in the strings. -/
theorem getFrom_cut {fuel : ℕ} (hfuel : t.length < fuel) (ht : AtString t) (current : Bytes) :
    (cut a t).getFrom sect key fuel a.length current =
      .ok (findValue sect key current (strings t)) := by
  induction fuel generalizing a t current with
  | zero => cases hfuel
  | succ fuel ih =>
    cases t with
    | nil =>
      rw [getFrom, if_neg (by simp), strings_nil, findValue]
    | cons c r =>
      have hc : c ≠ 0 := fun hc => ht (by rw [hc]; rfl)
      have hcstr : cstr (c :: r) = c :: cstr r := List.takeWhile_cons_of_pos (by simpa using hc)
      have hstrings : strings (c :: r) = cstr (c :: r) :: strings (afterString (c :: r)) := by
        rw [strings_eq_cons (by rw [hcstr]; exact List.cons_ne_nil _ _), strings_afterString]
      obtain ⟨s, hcut, hnext⟩ := next_cut a (c :: r)
      have hlen : (afterString (c :: r)).length < fuel := by
        have hafter : afterString (c :: r) = afterString r := by
          rw [afterString, List.dropWhile_cons_of_pos (by simpa using hc)]
          rfl
        have hle := length_afterString_le r
        rw [List.length_cons] at hfuel
        rw [hafter]
        omega
      rw [getFrom, if_pos (by simp), read_cut, ok_bind, hnext, stringAt_cut, hstrings]
      by_cases hheader : c = ch '['
      · subst hheader
        have hpos : a.length + 1 = (a ++ [ch '[']).length := by simp
        have hname : (cut a (ch '[' :: r)).stringAt (a.length + 1) = cstr r := by
          rw [hpos, ← List.singleton_append, cut_append, stringAt_cut]
        rw [if_pos rfl, ok_bind, hname, hcut, hcstr, findValue_header]
        exact ih _ _ hlen (atString_afterString _) _
      · have hhead : (cstr (c :: r)).head? ≠ some (ch '[') := by
          rw [hcstr, List.head?_cons]
          exact fun h => hheader (Option.some.inj h)
        have hrest := atString_afterString (c :: r)
        rw [if_neg hheader, ok_bind, findValue_entry hhead, hcut]
        split_ifs with hfound
        · rw [stringAt_cut, strings_headD hrest]
        · obtain ⟨s', hcut', hnext'⟩ := next_cut (a ++ s) (afterString (c :: r))
          have hle := length_afterString_le (afterString (c :: r))
          rw [hnext', ok_bind, strings_tail hrest, hcut']
          exact ih _ _ (by omega) (atString_afterString _) _

/-- **`ini_get`** finds what is in the strings. -/
theorem iniGet_eq (out : Bytes) : iniGet ⟨out ++ [0]⟩ sect key =
    .ok (findValue sect key [] (strings out)) := by
  have hsteps : (cut [] out).endPos + 1 = out.length + 1 := by simp
  have hget : ∀ s t, cut [] out = cut s t → AtString t → strings t = strings out →
      (cut [] out).getFrom sect key (out.length + 1) s.length [] =
        .ok (findValue sect key [] (strings out)) := by
    intro s t hcut ht hstrings
    have hlen : t.length < out.length + 1 := by
      have := congrArg endPos hcut
      simp only [endPos_cut, List.length_nil] at this
      omega
    rw [hcut, getFrom_cut s t hlen ht, hstrings]
  show (cut [] out).iniGet sect key = _
  rw [iniGet, hsteps]
  by_cases hout : AtString out ∧ out ≠ []
  · obtain ⟨hout, hne⟩ := hout
    obtain ⟨c, r, rfl⟩ := List.exists_cons_of_ne_nil hne
    have hread : (cut [] (c :: r)).read 0 = .ok c := read_cut [] r c
    rw [hread, ok_bind, if_neg fun hc => hout (by rw [hc]; rfl), ok_bind]
    exact hget [] (c :: r) rfl hout rfl
  · have hread : (cut [] out).read 0 = .ok 0 := by
      cases out with
      | nil => exact read_cut_nil []
      | cons c r =>
        have hc : c = 0 := by simpa [AtString] using hout
        exact hc ▸ read_cut [] r c
    have hstrings : strings (afterString out) = strings out := by
      rw [strings_afterString]
      cases out with
      | nil => rfl
      | cons c r =>
        have hc : c = 0 := by simpa [AtString] using hout
        rw [hc, List.dropWhile_cons_of_neg (by simp)]
    obtain ⟨s, hcut, hnext⟩ := next_cut [] out
    rw [List.length_nil] at hnext
    rw [hread, ok_bind, if_pos rfl, hnext, ok_bind]
    exact hget s _ hcut (atString_afterString out) hstrings

end IniT

/-! ## Items -/

section
variable (sect : Option CString) (key : CString)

/-- The value of the first assignment to the key in the section. -/
def lookup : (current : Bytes) → List IniItem → Option Bytes
  | _, [] => none
  | _, .header name :: rest => lookup name rest
  | current, .entry k v :: rest =>
    if IniT.inSection sect current && sameName k key.1 then some v else lookup current rest

/-- An assignment is two strings in the buffer, unless it has no key. -/
def IniItem.WellFormed : IniItem → Prop
  | header _ => True
  | entry k v => (NulFree k ∧ k.head? ≠ some (ch '[')) ∧ NulFree v ∧ v ≠ []

variable {sect key}

/-- **The strings of assignments with keys** are found as the assignments are. -/
theorem findValue_strings {items : List IniItem} (hok : ∀ i ∈ items, i.WellFormed)
    (hkeys : ∀ v, .entry [] v ∉ items) (current : Bytes) :
    findValue sect key current (items.flatMap IniItem.strings) = lookup sect key current items := by
  induction items generalizing current with
  | nil => rfl
  | cons i items ih =>
    have hrest := ih (fun j hj => hok j (List.mem_cons_of_mem _ hj))
      fun v hv => hkeys v (List.mem_cons_of_mem _ hv)
    cases i with
    | header name =>
      rw [List.flatMap_cons, IniItem.strings, List.singleton_append, findValue_header, lookup]
      exact hrest name
    | entry k v =>
      have hk : k ≠ [] := by
        rintro rfl
        exact hkeys v List.mem_cons_self
      obtain ⟨⟨hnul, hhead⟩, hvnul, hv⟩ := hok _ List.mem_cons_self
      rw [List.flatMap_cons, IniItem.strings, strings_of_nulFree hnul hk, strings_of_nulFree hvnul hv,
        List.append_assoc, List.singleton_append, List.singleton_append, findValue_entry hhead, lookup,
        ← hrest current]
      rfl

/-- Escapes stand for no NUL. -/
theorem nulFree_unescaped {t : Bytes} (h : NulFree t) : NulFree (unescaped t) := by
  induction t using unescaped.induct with
  | case1 => exact h
  | case2 c r hend =>
    rw [unescaped_end hend]
    exact List.not_mem_nil
  | case3 => exact List.not_mem_nil
  | case4 d r hnone =>
    rw [unescaped_none hnone]
    exact List.not_mem_nil
  | case5 d r e he _ ih =>
    rw [unescaped_escape he]
    simp only [NulFree, List.mem_cons, not_or] at h ⊢
    refine ⟨?_, ih h.2.2⟩
    rintro rfl
    unfold IniT.escaped at he
    split_ifs at he with hr hn ht hstop
    · cases he
    · cases he
    · cases he
    · exact hstop (Or.inr (Or.inr (Option.some.inj he)))
  | case6 c r hend hc ih =>
    rw [unescaped_char hend hc]
    simp only [NulFree, List.mem_cons, not_or] at h ⊢
    exact ⟨h.1, ih h.2⟩

theorem trimEnd_ne_nil {c : UInt8} {t : Bytes} (hc : isPadding c = false) (hmem : c ∈ t) :
    trimEnd t ≠ [] := by
  intro h
  rw [trimEnd, List.rdropWhile_eq_nil_iff] at h
  have := h c hmem
  rw [hc] at this
  cases this

/-- A value is a string in the buffer. -/
theorem valueOf_nulFree {v value rest : Bytes} (h : NulFree v)
    (hv : valueOf (v.dropWhile isPadding) = some (value, rest)) : NulFree value ∧ value ≠ [] := by
  have hdrop := h.mono (List.dropWhile_suffix isPadding).subset
  cases hw : v.dropWhile isPadding with
  | nil =>
    rw [hw] at hv
    cases hv
  | cons c w =>
    have hc : isPadding c = false := by
      have := List.head?_dropWhile_not isPadding v
      rw [hw] at this
      simpa using this
    rw [hw] at hv hdrop
    rw [valueOf] at hv
    split_ifs at hv with hend hquote hempty
    · obtain ⟨rfl, -⟩ := Prod.mk.inj (Option.some.inj hv)
      exact ⟨nulFree_unescaped (hdrop.mono (List.suffix_cons c w).subset), hempty⟩
    · obtain ⟨rfl, -⟩ := Prod.mk.inj (Option.some.inj hv)
      refine ⟨hdrop.mono ((List.rdropWhile_prefix _ _).trans (List.takeWhile_prefix _)).subset,
        trimEnd_ne_nil hc ?_⟩
      rw [List.takeWhile_cons_of_pos (by simpa [spans, not_or, and_comm] using hend)]
      exact List.mem_cons_self

/-- **The assignments of a text file** are strings in the buffer. -/
theorem iniItems_wellFormed {t : Bytes} (h : NulFree t) : ∀ i ∈ iniItems t, i.WellFormed := by
  induction t using iniItems.induct with
  | case1 => simp
  | case2 c r hblank ih =>
    rw [iniItems_blank hblank]
    exact ih (h.mono (List.suffix_cons c r).subset)
  | case3 r _ _ ih =>
    rw [iniItems_header, List.forall_mem_cons]
    exact ⟨trivial, ih (h.mono ((List.drop_suffix _ r).trans (List.suffix_cons _ r)).subset)⟩
  | case4 r _ _ ih =>
    rw [iniItems_comment]
    exact ih (h.mono ((restOfLine_suffix r).trans (List.suffix_cons _ r)).subset)
  | case5 c r hblank hheader hcomment key value rest hline ih =>
    rw [StartsLine.iniItems_entry ⟨hblank, hheader, hcomment⟩ hline, List.forall_mem_cons]
    obtain ⟨v, hv, rfl, hvalue⟩ := assignment_eq_some hline
    have hsuffix : v <:+ c :: r :=
      (List.suffix_cons _ v).trans (hv ▸ List.dropWhile_suffix (spans [ch '=', ch '\n']))
    have hrest := (valueOf_suffix hvalue).trans ((List.dropWhile_suffix isPadding).trans hsuffix)
    have hkey : trimEnd ((c :: r).takeWhile (spans [ch '=', ch '\n'])) <+: c :: r :=
      (List.rdropWhile_prefix _ _).trans (List.takeWhile_prefix _)
    refine ⟨⟨⟨h.mono hkey.subset, ?_⟩, valueOf_nulFree (h.mono hsuffix.subset) hvalue⟩,
      ih (h.mono hrest.subset)⟩
    intro hhead
    obtain ⟨k, hk⟩ : ∃ k, trimEnd ((c :: r).takeWhile (spans [ch '=', ch '\n'])) = ch '[' :: k :=
      List.head?_eq_some_iff.1 hhead
    rw [hk] at hkey
    exact hheader (List.cons_prefix_cons.1 hkey).1.symm
  | case6 c r hblank hheader hcomment hline ih =>
    rw [StartsLine.iniItems_none ⟨hblank, hheader, hcomment⟩ hline]
    exact ih (h.mono ((restOfLine_suffix r).trans (List.suffix_cons _ r)).subset)

end

/-! ## Loading a file -/

section
variable {content : Bytes}

theorem iniLoad_eq (hsize : content.length + 1 < 2 ^ 31) :
    ∃ out, iniLoad content = .ok (some ⟨out ++ [0]⟩) ∧ strings out = itemStrings content := by
  obtain ⟨out, hsplit, hstrings⟩ := IniT.splitData_strings content
  refine ⟨out, ?_, hstrings⟩
  have hsz : toInt (content.length % 2 ^ 32) = content.length := by
    rw [Nat.mod_eq_of_lt (by omega), toInt, if_pos (by omega)]
  rw [iniLoad, hsz, if_neg (by omega), if_neg (by omega), Int.toNat_natCast, List.take_length, hsplit]
  rfl

/-- **A file is read as it is written**: loading it and looking up a key end, and stay within the
buffer, for every file.  The value is that which follows the key in the strings of the items.  For a
text file in which every value has a key, it is the first that is assigned to the key. -/
theorem iniGet_of_iniLoad (hsize : content.length + 1 < 2 ^ 31) :
    ∃ ini, iniLoad content = .ok (some ini) ∧
      (∀ sect key, ini.iniGet sect key = .ok (findValue sect key [] (itemStrings content))) ∧
      (NulFree content → (∀ v, .entry [] v ∉ iniItems content) →
        ∀ sect key, ini.iniGet sect key = .ok (lookup sect key [] (iniItems content))) := by
  obtain ⟨out, hload, hstrings⟩ := iniLoad_eq hsize
  have hget : ∀ sect key, IniT.iniGet ⟨out ++ [0]⟩ sect key =
      .ok (findValue sect key [] (itemStrings content)) := by
    intro sect key
    rw [IniT.iniGet_eq, hstrings]
  refine ⟨_, hload, hget, ?_⟩
  intro hnul hkeys sect key
  rw [hget, itemStrings, findValue_strings (iniItems_wellFormed hnul) hkeys]

end

/-- A section with one assignment. -/
def sectionA : Bytes := ascii "[a]\nb = c ;\n"

theorem iniItems_sectionA : iniItems sectionA = [.header (ascii "a"), .entry (ascii "b") (ascii "c ;")] := by
  have hline : assignment (ascii "b = c ;\n") = some (ascii "b", ascii "c ;", ascii "\n") := by decide
  have hstart : StartsLine (ch 'b') := ⟨by decide, by decide, by decide⟩
  calc iniItems sectionA = .header (ascii "a") :: iniItems (ascii "\nb = c ;\n") := iniItems_header
    _ = .header (ascii "a") :: iniItems (ascii "b = c ;\n") :=
        congrArg _ (iniItems_blank (Or.inr (Or.inl rfl)))
    _ = .header (ascii "a") :: .entry (ascii "b") (ascii "c ;") :: iniItems (ascii "\n") :=
        congrArg _ (hstart.iniItems_entry hline)
    _ = [.header (ascii "a"), .entry (ascii "b") (ascii "c ;")] :=
        congrArg _ (congrArg _ ((iniItems_blank (Or.inr (Or.inl rfl))).trans iniItems_nil))

theorem iniGet_sectionA : ∃ ini, iniLoad sectionA = .ok (some ini) ∧
    ini.iniGet (some (lit "A")) (lit "B") = .ok (some (ascii "c ;")) := by
  obtain ⟨ini, hload, -, hlookup⟩ := @iniGet_of_iniLoad sectionA (by decide)
  have hkeys : ∀ v, .entry [] v ∉ iniItems sectionA := by
    have hb : ascii "b" ≠ [] := by decide
    simp [iniItems_sectionA, hb]
  refine ⟨ini, hload, ?_⟩
  rw [hlookup (by decide) hkeys, iniItems_sectionA]
  decide

end RdsDbsync
