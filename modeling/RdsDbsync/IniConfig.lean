/-
  The values that are written to a configuration file are read back.

  `getConfig_configText`: a file with quoted values, as `my.cfg`.
-/
import RdsDbsync.IniLookup

namespace RdsDbsync

open Bytes

/-! ## Writing a file -/

/-- An assignment of a text to a key. -/
structure IniEntry where
  key : Bytes
  value : Bytes
  key_chars : key.all (spans [ch '=', ch '\n'])
  key_start : ∃ c r, key = c :: r ∧ StartsLine c
  key_end : trimEnd key = key
  value_nulFree : NulFree value
  value_ne : value ≠ []

/-- A section of a file. -/
structure IniSection where
  name : Bytes
  entries : List IniEntry
  name_chars : name.all (spans [ch ']', ch '\n'])

/-- A character between quotes. -/
def escape (c : UInt8) : Bytes :=
  if c = ch '"' ∨ c = ch '\\' then [ch '\\', c]
  else if c = ch '\n' then [ch '\\', ch 'n']
  else if c = ch '\r' then [ch '\\', ch 'r']
  else [c]

/-- The line of an assignment. -/
def IniEntry.text (e : IniEntry) : Bytes :=
  e.key ++ [ch ' ', ch '=', ch ' ', ch '"'] ++ e.value.flatMap escape ++ [ch '"', ch '\n']

/-- The lines of a section. -/
def IniSection.text (s : IniSection) : Bytes :=
  [ch '['] ++ s.name ++ [ch ']', ch '\n'] ++ s.entries.flatMap IniEntry.text

def configText (sections : List IniSection) : Bytes := sections.flatMap IniSection.text

/-- The items of a section. -/
def IniSection.items (s : IniSection) : List IniItem :=
  .header s.name :: s.entries.map fun e => .entry e.key e.value

theorem escape_cases (c : UInt8) :
    (∃ d, escape c = [ch '\\', d] ∧ IniT.escaped d = some c ∧ inLine d) ∨
      escape c = [c] ∧ ¬endsQuoted c ∧ c ≠ ch '\\' := by
  unfold escape
  split_ifs with hself hnl hcr
  · refine Or.inl ⟨c, rfl, ?_⟩
    rcases hself with rfl | rfl <;> decide
  · exact Or.inl ⟨_, rfl, by rw [hnl]; decide⟩
  · exact Or.inl ⟨_, rfl, by rw [hcr]; decide⟩
  · exact Or.inr ⟨rfl, by tauto, by tauto⟩

/-- **What is escaped is read back.** -/
theorem unescaped_escape_append (v t : Bytes) :
    unescaped (v.flatMap escape ++ ch '"' :: t) = v := by
  induction v with
  | nil => exact unescaped_end (Or.inl rfl)
  | cons c v ih =>
    rw [List.flatMap_cons]
    rcases escape_cases c with ⟨d, hd, he, -⟩ | ⟨hc, hend, hesc⟩
    · rw [hd]
      exact (unescaped_escape he).trans (congrArg (c :: ·) ih)
    · rw [hc]
      exact (unescaped_char hend hesc).trans (congrArg (c :: ·) ih)

theorem all_inLine_escape (v : Bytes) : (v.flatMap escape).all inLine := by
  rw [List.all_eq_true]
  intro d hd
  obtain ⟨c, -, hd⟩ := List.mem_flatMap.1 hd
  rcases escape_cases c with ⟨e, he, -, hline⟩ | ⟨hc, hend, -⟩
  · rw [he] at hd
    rcases List.mem_pair.1 hd with rfl | rfl
    · decide
    · exact hline
  · rw [hc] at hd
    obtain rfl := List.mem_singleton.1 hd
    rw [inLine, bne_iff_ne]
    exact fun hnl => hend (Or.inr (Or.inr hnl))

/-- **The line of an assignment** is read as the assignment. -/
theorem iniItems_entryText (e : IniEntry) (t : Bytes) :
    iniItems (e.text ++ t) = .entry e.key e.value :: iniItems t := by
  obtain ⟨body, hbody⟩ : ∃ body, body = e.value.flatMap escape ++ ch '"' :: ch '\n' :: t := ⟨_, rfl⟩
  have htext : e.text ++ t = e.key ++ ch ' ' :: ch '=' :: ch ' ' :: ch '"' :: body := by
    simp [IniEntry.text, hbody]
  have hkey : ∀ c ∈ e.key, spans [ch '=', ch '\n'] c = true := List.all_eq_true.1 e.key_chars
  have hvalue : valueOf (ch '"' :: body) = some (e.value, ch '\n' :: t) := by
    have hrest : restOfLine body = ch '\n' :: t := by
      rw [hbody, restOfLine_append (all_inLine_escape _), restOfLine,
        List.dropWhile_cons_of_pos (by decide), List.dropWhile_cons_of_neg (by decide)]
    rw [valueOf_quoted, hrest, hbody, unescaped_escape_append, if_neg e.value_ne]
  obtain ⟨c, r, hstart, hc⟩ := e.key_start
  have hassign : assignment (e.text ++ t) = some (e.key, e.value, ch '\n' :: t) := by
    have htrim : trimEnd (e.key ++ [ch ' ']) = e.key :=
      (List.rdropWhile_concat_pos _ _ _ (by decide)).trans e.key_end
    have hpadding : (ch ' ' :: ch '"' :: body).dropWhile isPadding = ch '"' :: body := by
      rw [List.dropWhile_cons_of_pos (by decide), List.dropWhile_cons_of_neg (by decide)]
    rw [assignment, htext, List.dropWhile_append_of_pos hkey, List.takeWhile_append_of_pos hkey,
      List.dropWhile_cons_of_pos (by decide), List.dropWhile_cons_of_neg (by decide),
      List.takeWhile_cons_of_pos (by decide), List.takeWhile_cons_of_neg (by decide), htrim]
    dsimp only
    rw [if_pos rfl, hpadding, hvalue]
    rfl
  have hhead : ∃ r, e.text ++ t = c :: r := ⟨_, by rw [htext, hstart, List.cons_append]⟩
  obtain ⟨r', hr'⟩ := hhead
  rw [hr'] at hassign ⊢
  rw [hc.iniItems_entry hassign, iniItems_blank (Or.inr (Or.inl rfl))]

theorem iniItems_entriesText (entries : List IniEntry) (t : Bytes) :
    iniItems (entries.flatMap IniEntry.text ++ t) =
      entries.map (fun e => .entry e.key e.value) ++ iniItems t := by
  induction entries with
  | nil => rfl
  | cons e entries ih =>
    rw [List.flatMap_cons, List.append_assoc, iniItems_entryText, ih]
    rfl

theorem iniItems_sectionText (s : IniSection) (t : Bytes) :
    iniItems (s.text ++ t) = s.items ++ iniItems t := by
  have htext : s.text ++ t =
      ch '[' :: (s.name ++ ch ']' :: ch '\n' :: (s.entries.flatMap IniEntry.text ++ t)) := by
    simp [IniSection.text]
  have hname : (s.name ++ ch ']' :: ch '\n' :: (s.entries.flatMap IniEntry.text ++ t)).takeWhile
      (spans [ch ']', ch '\n']) = s.name := by
    rw [List.takeWhile_append_of_pos (List.all_eq_true.1 s.name_chars),
      List.takeWhile_cons_of_neg (by decide), List.append_nil]
  rw [htext, iniItems_header, hname, ← List.drop_drop, List.drop_left, List.drop_one, List.tail_cons,
    iniItems_blank (Or.inr (Or.inl rfl)), iniItems_entriesText]
  rfl

/-- **The items of a written file** are those that were written. -/
theorem iniItems_configText (sections : List IniSection) :
    iniItems (configText sections) = sections.flatMap IniSection.items := by
  induction sections with
  | nil => exact iniItems_nil
  | cons s sections ih =>
    rw [configText, List.flatMap_cons, iniItems_sectionText, List.flatMap_cons, ← ih]
    rfl

/-! ## Reading it back -/

section
variable {sec key : CString}

/-- The assignments of a file, with their sections. -/
def assignments (sections : List IniSection) : List (Bytes × IniEntry) :=
  sections.flatMap fun s => s.entries.map (s.name, ·)

/-- The names of the section and of the key are those that are looked up, but for case. -/
def isAskedFor (sec key : CString) (p : Bytes × IniEntry) : Bool :=
  p.1.map toLower == sec.1.map toLower && p.2.key.map toLower == key.1.map toLower

theorem IniEntry.key_nulFree (e : IniEntry) : NulFree e.key := by
  intro hmem
  have hspan := List.all_eq_true.1 e.key_chars 0 hmem
  cases hspan

theorem IniSection.name_nulFree (s : IniSection) : NulFree s.name := by
  intro hmem
  have hspan := List.all_eq_true.1 s.name_chars 0 hmem
  cases hspan

theorem isAskedFor_eq {current : Bytes} (hcurrent : NulFree current) (e : IniEntry) :
    (IniT.inSection (some sec) current && sameName e.key key.1) =
      isAskedFor sec key (current, e) := by
  have hsec : IniT.inSection (some sec) current ↔ current.map toLower = sec.1.map toLower :=
    (sameName_iff sec.2 hcurrent).trans eq_comm
  have hkey := sameName_iff e.key_nulFree key.2
  rw [Bool.eq_iff_iff, Bool.and_eq_true, hsec, hkey, isAskedFor, Bool.and_eq_true, beq_iff_eq,
    beq_iff_eq]

theorem lookup_entries {current : Bytes} (hcurrent : NulFree current) (entries : List IniEntry)
    (items : List IniItem) :
    lookup (some sec) key current (entries.map (fun e => .entry e.key e.value) ++ items) =
      (((entries.map (current, ·)).find? (isAskedFor sec key)).map fun p => p.2.value).or
        (lookup (some sec) key current items) := by
  induction entries with
  | nil => rfl
  | cons e entries ih =>
    rw [List.map_cons, List.cons_append, lookup, List.map_cons, List.find?_cons, ih,
      isAskedFor_eq hcurrent]
    cases isAskedFor sec key (current, e)
    · rfl
    · rfl

theorem lookup_items (current : Bytes) (sections : List IniSection) :
    lookup (some sec) key current (sections.flatMap IniSection.items) =
      ((assignments sections).find? (isAskedFor sec key)).map fun p => p.2.value := by
  induction sections generalizing current with
  | nil => rfl
  | cons s sections ih =>
    have hassign : assignments (s :: sections) = s.entries.map (s.name, ·) ++ assignments sections :=
      List.flatMap_cons
    rw [List.flatMap_cons, IniSection.items, List.cons_append, lookup, lookup_entries s.name_nulFree,
      ih, hassign, List.find?_append, Option.map_or]

end

theorem IniEntry.key_ne (e : IniEntry) : e.key ≠ [] := by
  obtain ⟨c, r, hkey, -⟩ := e.key_start
  rw [hkey]
  exact List.cons_ne_nil c r

theorem IniEntry.wellFormed (e : IniEntry) : (IniItem.entry e.key e.value).WellFormed := by
  obtain ⟨c, r, hkey, hc⟩ := e.key_start
  refine ⟨⟨e.key_nulFree, ?_⟩, e.value_nulFree, e.value_ne⟩
  rw [hkey, List.head?_cons]
  exact fun h => hc.noHeader (Option.some.inj h)

theorem mem_items {sections : List IniSection} {i : IniItem}
    (h : i ∈ sections.flatMap IniSection.items) :
    (∃ name, i = .header name) ∨ ∃ e : IniEntry, i = .entry e.key e.value := by
  obtain ⟨s, -, hi⟩ := List.mem_flatMap.1 h
  rcases List.mem_cons.1 hi with rfl | hi
  · exact Or.inl ⟨_, rfl⟩
  · obtain ⟨e, -, rfl⟩ := List.mem_map.1 hi
    exact Or.inr ⟨e, rfl⟩

/-- **What is written to a configuration file is read back**: `get_config` finds the value that is
first assigned to the key in the section, up to the case of letters in the two names, and nothing if
none is. -/
theorem getConfig_configText (sections : List IniSection)
    (hsize : (configText sections).length + 1 < 2 ^ 31) :
    ∃ ini, iniLoad (configText sections) = .ok (some ini) ∧
      ∀ sec key : CString, sec.1 ≠ [] → key.1 ≠ [] → getConfig ini sec key =
        .ok (((assignments sections).find? (isAskedFor sec key)).map fun p => p.2.value) := by
  obtain ⟨out, hload, hstrings⟩ := iniLoad_eq hsize
  refine ⟨_, hload, ?_⟩
  intro sec key hsec hkey
  have hok : ∀ i ∈ sections.flatMap IniSection.items, i.WellFormed := by
    intro i hi
    rcases mem_items hi with ⟨name, rfl⟩ | ⟨e, rfl⟩
    · trivial
    · exact e.wellFormed
  have hkeys : ∀ v, .entry [] v ∉ sections.flatMap IniSection.items := by
    intro v hv
    rcases mem_items hv with ⟨name, hname⟩ | ⟨e, he⟩
    · cases hname
    · exact e.key_ne (IniItem.entry.inj he).1.symm
  have hget : IniT.iniGet ⟨out ++ [0]⟩ (some sec) key =
      .ok (((assignments sections).find? (isAskedFor sec key)).map fun p => p.2.value) := by
    rw [IniT.iniGet_eq, hstrings, itemStrings, iniItems_configText, findValue_strings hok hkeys,
      lookup_items]
  rw [getConfig, configGet, if_neg (not_or.2 ⟨hkey, hsec⟩), hget, ok_bind]
  cases hfind : (assignments sections).find? (isAskedFor sec key) with
  | none => rfl
  | some p => exact if_neg p.2.value_ne

/-! ## The file `my.cfg` -/

/-- Two connection strings, as in `my.cfg`. -/
def myCfg : List IniSection :=
  [⟨ascii "src.pgsql", [⟨ascii "connect_string", ascii "host=192.168.1.1 dbname=test port=5432", by decide,
      ⟨_, _, rfl, ⟨by decide, by decide, by decide⟩⟩, by decide, by decide, by decide⟩], by decide⟩,
    ⟨ascii "local.pgsql", [⟨ascii "connect_string", ascii "host=192.168.1.1 dbname=test port=5433",
      by decide, ⟨_, _, rfl, ⟨by decide, by decide, by decide⟩⟩, by decide, by decide, by decide⟩],
      by decide⟩]

theorem getConfig_myCfg : ∃ ini, iniLoad (configText myCfg) = .ok (some ini) ∧
    getConfig ini (lit "Local.PgSQL") (lit "connect_string") =
      .ok (some (ascii "host=192.168.1.1 dbname=test port=5433")) := by
  obtain ⟨ini, hload, hget⟩ := getConfig_configText myCfg (by decide +kernel)
  refine ⟨ini, hload, ?_⟩
  rw [hget _ _ (by decide) (by decide)]
  decide +kernel

end RdsDbsync
