/-
  INSERT, UPDATE and DELETE of constants, as syntax and as text.

  `readDml_of_reads`: a text that consists of the items of a statement is read as that
  statement and as no other.
-/
import RdsDbsync.Lib.SqlTarget

namespace SqlLex

open Bytes

/-! ## Statements -/

/-- A table, with its schema. -/
abbrev TableName := Bytes × Bytes

/-- A column with a constant; `none` is NULL. -/
abbrev Entry := Bytes × Option Bytes

/-- A statement about rows of one table; WHERE clauses are conjunctions of equations. -/
inductive Dml where
  | insert (table : TableName) (columns : List Bytes) (values : List (Option Bytes))
  | update (table : TableName) (set conditions : List Entry)
  | delete (table : TableName) (conditions : List Entry)
  deriving DecidableEq

/-- A constant, or the keyword for NULL. -/
def valueItem : Option Bytes → Item
  | some v => .const v
  | none => .keyword (ascii "null")

/-- `column=value` -/
def entryItems (e : Entry) : List Item := [.name e.1, .symbol (ch '='), valueItem e.2]

/-- `schema.table` -/
def qualifiedItems (table : TableName) : List Item :=
  [.name table.1, .symbol (ch '.'), .name table.2]

/-- The lists of items with the separator between them. -/
def separated (sep : Item) (ls : List (List Item)) : List Item := [sep].intercalate ls

namespace Dml

/-- The items that a text of the statement consists of. -/
def items : Dml → List Item
  | insert table columns values =>
    [.keyword (ascii "insert"), .keyword (ascii "into")] ++ (qualifiedItems table ++
      ([.symbol (ch '(')] ++ (separated (.symbol (ch ',')) (columns.map fun n => [.name n]) ++
        ([.symbol (ch ')'), .keyword (ascii "values"), .symbol (ch '(')] ++
          (separated (.symbol (ch ',')) (values.map fun v => [valueItem v]) ++
            [.symbol (ch ')'), .symbol (ch ';')])))))
  | update table set conditions =>
    [.keyword (ascii "update")] ++ (qualifiedItems table ++ ([.keyword (ascii "set")] ++
      (separated (.symbol (ch ',')) (set.map entryItems) ++ ([.keyword (ascii "where")] ++
        (separated (.keyword (ascii "and")) (conditions.map entryItems) ++ [.symbol (ch ';')])))))
  | delete table conditions =>
    [.keyword (ascii "delete"), .keyword (ascii "from")] ++ (qualifiedItems table ++
      ([.keyword (ascii "where")] ++
        (separated (.keyword (ascii "and")) (conditions.map entryItems) ++ [.symbol (ch ';')])))

/-- Its lists are not empty. -/
def Complete : Dml → Prop
  | insert _ columns values => columns ≠ [] ∧ values ≠ []
  | update _ set conditions => set ≠ [] ∧ conditions ≠ []
  | delete _ conditions => conditions ≠ []

end Dml

/-! ## Readers -/

section
variable (reserved : Bytes → Bool) {α : Type}

/-- What follows the items, if the text starts with them. -/
def readItems : List Item → Bytes → Option Bytes
  | [], t => some t
  | it :: its, t => (it.read reserved t).bind (readItems its)

/-- A string, a number that may have a minus sign, or the keyword for NULL. -/
def readValue (t : Bytes) : Option (Option Bytes × Bytes) :=
  match next t with
  | some (.string v, r) | some (.number v, r) => some (some v, r)
  | some (.word w, r) => if w = ascii "null" then some (none, r) else none
  | some (.symbol c, r) =>
    match next r with
    | some (.number v, r') => if c = ch '-' then some (some (c :: v), r') else none
    | _ => none
  | _ => none

def readEntry (t : Bytes) : Option (Entry × Bytes) := do
  let (n, t) ← readName reserved t
  let t ← readItems reserved [.symbol (ch '=')] t
  let (v, t) ← readValue t
  some ((n, v), t)

/-- A relation that is given with its schema. -/
def readTable (t : Bytes) : Option (TableName × Bytes) :=
  match readRelation reserved t with
  | some ((some s, n), r) => some ((s, n), r)
  | _ => none

/-- Entries between separators, as many as there are but at most `fuel`. -/
def readList (sep : Item) (entry : Bytes → Option (α × Bytes)) :
    ℕ → Bytes → Option (List α × Bytes)
  | 0, _ => none
  | fuel + 1, t => do
    let (a, t) ← entry t
    match sep.read reserved t with
    | none => some ([a], t)
    | some t => do
      let (as, t) ← readList sep entry fuel t
      some (a :: as, t)

/-- Each separator takes a character of the text. -/
def readSeparated (sep : Item) (entry : Bytes → Option (α × Bytes)) (t : Bytes) :
    Option (List α × Bytes) := readList reserved sep entry (t.length + 1) t

/-- The statement, if nothing follows it. -/
def atEnd (d : Dml) (t : Bytes) : Option Dml := if skip .space t = some [] then some d else none

def readInsert (t : Bytes) : Option Dml := do
  let t ← readItems reserved [.keyword (ascii "insert"), .keyword (ascii "into")] t
  let (table, t) ← readTable reserved t
  let t ← readItems reserved [.symbol (ch '(')] t
  let (columns, t) ← readSeparated reserved (.symbol (ch ',')) (readName reserved) t
  let t ← readItems reserved [.symbol (ch ')'), .keyword (ascii "values"), .symbol (ch '(')] t
  let (values, t) ← readSeparated reserved (.symbol (ch ',')) readValue t
  let t ← readItems reserved [.symbol (ch ')'), .symbol (ch ';')] t
  atEnd (.insert table columns values) t

def readUpdate (t : Bytes) : Option Dml := do
  let t ← readItems reserved [.keyword (ascii "update")] t
  let (table, t) ← readTable reserved t
  let t ← readItems reserved [.keyword (ascii "set")] t
  let (set, t) ← readSeparated reserved (.symbol (ch ',')) (readEntry reserved) t
  let t ← readItems reserved [.keyword (ascii "where")] t
  let (conditions, t) ← readSeparated reserved (.keyword (ascii "and")) (readEntry reserved) t
  let t ← readItems reserved [.symbol (ch ';')] t
  atEnd (.update table set conditions) t

def readDelete (t : Bytes) : Option Dml := do
  let t ← readItems reserved [.keyword (ascii "delete"), .keyword (ascii "from")] t
  let (table, t) ← readTable reserved t
  let t ← readItems reserved [.keyword (ascii "where")] t
  let (conditions, t) ← readSeparated reserved (.keyword (ascii "and")) (readEntry reserved) t
  let t ← readItems reserved [.symbol (ch ';')] t
  atEnd (.delete table conditions) t

/-- **The statement that a text is.** -/
def readDml (t : Bytes) : Option Dml :=
  (readInsert reserved t).orElse fun _ =>
    (readUpdate reserved t).orElse fun _ => readDelete reserved t

end

/-! ## Items -/

section
variable {reserved : Bytes → Bool} {its its' : List Item} {it : Item} {t r : Bytes}

theorem readItems_append : readItems reserved (its ++ its') t = some r ↔
    ∃ u, readItems reserved its t = some u ∧ readItems reserved its' u = some r := by
  induction its generalizing t with
  | nil => simp [readItems]
  | cons it its ih =>
    rw [List.cons_append, readItems, readItems]
    cases it.read reserved t with
    | none => simp
    | some u => exact ih

theorem readItems_singleton : readItems reserved [it] t = it.read reserved t := by
  simp [readItems]

theorem reads_iff_readItems : Reads reserved its t ↔
    ∃ r, readItems reserved its t = some r ∧ skip .space r = some [] := by
  induction its generalizing t with
  | nil => simp [Reads, readItems]
  | cons it its ih =>
    rw [Reads, readItems]
    cases it.read reserved t with
    | none => simp
    | some u => simp [ih]

theorem readItems_weight (h : readItems reserved its t = some r) :
    itemsWeight its + weight r ≤ weight t := by
  induction its generalizing t with
  | nil =>
    cases h
    exact (Nat.zero_add _).le
  | cons it its ih =>
    obtain ⟨u, hread, h⟩ := Option.bind_eq_some_iff.1 h
    have h1 := Item.read_weight hread
    have h2 := ih h
    simp only [itemsWeight, List.map_cons, List.sum_cons] at h2 ⊢
    omega

/-- The token of an item that is always written in the same way. -/
def Item.fixed : Item → Option Token
  | keyword w => some (.word w)
  | symbol c => some (.symbol c)
  | _ => none

theorem next_of_read_fixed {tok : Token} (hf : it.fixed = some tok)
    (h : it.read reserved t = some r) : next t = some (tok, r) := by
  cases it with
  | keyword w =>
    cases hf
    exact read_keyword h
  | symbol c =>
    cases hf
    exact read_symbol h
  | name _ | const _ => cases hf

/-- Where one keyword or symbol stands, no other does. -/
theorem read_eq_none {sep : Item} {tok tok' : Token} (hf : it.fixed = some tok)
    (hsep : sep.fixed = some tok') (hne : tok ≠ tok') (h : it.read reserved t = some r) :
    sep.read reserved t = none := by
  by_contra hsome
  obtain ⟨u, hu⟩ := Option.ne_none_iff_exists'.1 hsome
  have hnext := (next_of_read_fixed hf h).symm.trans (next_of_read_fixed hsep hu)
  exact hne (Prod.mk.inj (Option.some.inj hnext)).1

/-! ## Names and values -/

/-- The reader takes what is written for `f a` as `a`. -/
def ReadsAs {α : Type} (reserved : Bytes → Bool) (f : α → List Item)
    (entry : Bytes → Option (α × Bytes)) : Prop :=
  ∀ a t r, readItems reserved (f a) t = some r → entry t = some (a, r)

theorem readName_of_read {n : Bytes} (h : (Item.name n).read reserved t = some r) :
    readName reserved t = some (n, r) := by
  rw [readName]
  rcases read_name h with ⟨hnext, hn⟩ | hnext <;> rw [hnext]
  simp [hn]

theorem readsAs_name : ReadsAs reserved (fun n => [.name n]) (readName reserved) := by
  intro n t r h
  rw [readItems_singleton] at h
  exact readName_of_read h

theorem readValue_of_read {v : Option Bytes} (h : (valueItem v).read reserved t = some r) :
    readValue t = some (v, r) := by
  rw [readValue]
  cases v with
  | none => simp [read_keyword h]
  | some v =>
    rcases read_const h with hnext | hnext | ⟨u, r', rfl, hminus, hnext⟩
    · simp [hnext]
    · simp [hnext]
    · simp [hminus, hnext]

theorem readsAs_value : ReadsAs reserved (fun v => [valueItem v]) readValue := by
  intro v t r h
  rw [readItems_singleton] at h
  exact readValue_of_read h

theorem readsAs_entry : ReadsAs reserved entryItems (readEntry reserved) := by
  rintro ⟨n, v⟩ t r h
  rw [entryItems, readItems] at h
  obtain ⟨t₁, hname, h⟩ := Option.bind_eq_some_iff.1 h
  obtain ⟨t₂, hequal, h⟩ := Option.bind_eq_some_iff.1 h
  rw [readItems_singleton] at h
  rw [readEntry, readName_of_read hname]
  simp [readItems, hequal, readValue_of_read h]

theorem readsAs_table : ReadsAs reserved qualifiedItems (readTable reserved) := by
  rintro ⟨s, n⟩ t r h
  rw [qualifiedItems, readItems] at h
  obtain ⟨t₁, hschema, h⟩ := Option.bind_eq_some_iff.1 h
  obtain ⟨t₂, hpoint, h⟩ := Option.bind_eq_some_iff.1 h
  rw [readItems_singleton] at h
  have hname : readName (fun _ => false) t₂ = some (n, r) := by
    rw [readName]
    rcases read_name h with ⟨hnext, -⟩ | hnext <;> rw [hnext]
    rfl
  have hrelation : readRelation reserved t = some ((some s, n), r) := by
    rw [readRelation, readName_of_read hschema]
    simp [readPoint, read_symbol hpoint, hname]
  rw [readTable, hrelation]

/-! ## Lists -/

section
variable {α : Type} {f : α → List Item} {entry : Bytes → Option (α × Bytes)} {sep : Item}

theorem separated_cons (l : List Item) {ls : List (List Item)} (hls : ls ≠ []) :
    separated sep (l :: ls) = l ++ ([sep] ++ separated sep ls) := by
  rw [separated, List.intercalate_cons_of_ne_nil hls, List.append_assoc]
  rfl

/-- **A list is read up to its end**, where no separator stands. -/
theorem readList_of_items (hentry : ReadsAs reserved f entry) {as : List α} (has : as ≠ [])
    (h : readItems reserved (separated sep (as.map f)) t = some r)
    (hend : sep.read reserved r = none) {fuel : ℕ} (hfuel : as.length ≤ fuel) :
    readList reserved sep entry fuel t = some (as, r) := by
  induction as generalizing t fuel with
  | nil => exact absurd rfl has
  | cons a as ih =>
    obtain ⟨fuel, rfl⟩ : ∃ n, fuel = n + 1 := ⟨fuel - 1, by rw [List.length_cons] at hfuel; omega⟩
    rw [readList]
    by_cases hnil : as = []
    · subst hnil
      have h : readItems reserved (f a) t = some r := by simpa [separated] using h
      simp [hentry a t r h, hend]
    · rw [List.map_cons, separated_cons _ (by simpa using hnil)] at h
      obtain ⟨t₁, ha, h⟩ := readItems_append.1 h
      obtain ⟨t₂, hsep, h⟩ := readItems_append.1 h
      rw [readItems_singleton] at hsep
      have hrest := ih hnil h (Nat.le_of_succ_le_succ hfuel)
      simp [hentry a t t₁ ha, hsep, hrest]

/-- The separators take a character each. -/
theorem length_le_of_items (hsep : 0 < sep.weight) {as : List α}
    (h : readItems reserved (separated sep (as.map f)) t = some r) : as.length ≤ t.length + 1 := by
  have hle : ∀ as : List α, as.length ≤ itemsWeight (separated sep (as.map f)) + 1 := by
    intro as
    induction as with
    | nil => exact Nat.zero_le _
    | cons a as ih =>
      by_cases hnil : as = []
      · simp [hnil]
      · rw [List.map_cons, separated_cons _ (by simpa using hnil), List.length_cons]
        simp only [itemsWeight, List.map_append, List.sum_append, List.map_cons, List.map_nil,
          List.sum_cons, List.sum_nil] at ih ⊢
        omega
  have hweight := readItems_weight h
  have hlength : weight t ≤ t.length := List.countP_le_length
  have := hle as
  omega

theorem readSeparated_of_items (hentry : ReadsAs reserved f entry) (hsep : 0 < sep.weight)
    {as : List α} (has : as ≠ [])
    (h : readItems reserved (separated sep (as.map f)) t = some r)
    (hend : sep.read reserved r = none) :
    readSeparated reserved sep entry t = some (as, r) :=
  readList_of_items hentry has h hend (length_le_of_items hsep h)

end

/-! ## Statements are read back -/

/-- The text starts with another keyword. -/
theorem readItems_keyword_eq_none {w w' : Bytes} (hne : w ≠ w')
    (h : (Item.keyword w).read reserved t = some r) :
    readItems reserved (.keyword w' :: its) t = none := by
  rw [readItems, read_eq_none rfl rfl (fun heq => hne (Token.word.inj heq)) h]
  rfl

theorem readInsert_of_reads {table : TableName} {columns : List Bytes}
    {values : List (Option Bytes)} (hc : (Dml.insert table columns values).Complete)
    (h : Reads reserved (Dml.insert table columns values).items t) :
    readInsert reserved t = some (.insert table columns values) := by
  obtain ⟨r, h, hend⟩ := reads_iff_readItems.1 h
  obtain ⟨t₁, hhead, h⟩ := readItems_append.1 h
  obtain ⟨t₂, htable, h⟩ := readItems_append.1 h
  obtain ⟨t₃, hopen, h⟩ := readItems_append.1 h
  obtain ⟨t₄, hcolumns, h⟩ := readItems_append.1 h
  obtain ⟨t₅, hmiddle, h⟩ := readItems_append.1 h
  obtain ⟨t₆, hvalues, hclose⟩ := readItems_append.1 h
  obtain ⟨_, hparen, -⟩ := Option.bind_eq_some_iff.1 hmiddle
  obtain ⟨_, hparen', -⟩ := Option.bind_eq_some_iff.1 hclose
  have hcolumns := readSeparated_of_items readsAs_name (by decide) hc.1 hcolumns
    (read_eq_none rfl rfl (by decide) hparen)
  have hvalues := readSeparated_of_items readsAs_value (by decide) hc.2 hvalues
    (read_eq_none rfl rfl (by decide) hparen')
  rw [readInsert, hhead]
  simp [readsAs_table _ _ _ htable, hopen, hcolumns, hmiddle, hvalues, hclose, atEnd, hend]

/-- The end of an UPDATE or a DELETE. -/
theorem readConditions_of_items {conditions : List Entry} (hc : conditions ≠ [])
    (h : readItems reserved ([.keyword (ascii "where")] ++
      (separated (.keyword (ascii "and")) (conditions.map entryItems) ++ [.symbol (ch ';')])) t =
        some r) :
    ∃ t₁ t₂, readItems reserved [.keyword (ascii "where")] t = some t₁ ∧
      readSeparated reserved (.keyword (ascii "and")) (readEntry reserved) t₁ =
        some (conditions, t₂) ∧ readItems reserved [.symbol (ch ';')] t₂ = some r := by
  obtain ⟨t₁, hwhere, h⟩ := readItems_append.1 h
  obtain ⟨t₂, hconditions, hclose⟩ := readItems_append.1 h
  have hsemicolon := hclose
  rw [readItems_singleton] at hsemicolon
  exact ⟨t₁, t₂, hwhere, readSeparated_of_items readsAs_entry (by decide) hc hconditions
    (read_eq_none rfl rfl (by decide) hsemicolon), hclose⟩

theorem readUpdate_of_reads {table : TableName} {set conditions : List Entry}
    (hc : (Dml.update table set conditions).Complete)
    (h : Reads reserved (Dml.update table set conditions).items t) :
    readUpdate reserved t = some (.update table set conditions) := by
  obtain ⟨r, h, hend⟩ := reads_iff_readItems.1 h
  obtain ⟨t₁, hhead, h⟩ := readItems_append.1 h
  obtain ⟨t₂, htable, h⟩ := readItems_append.1 h
  obtain ⟨t₃, hword, h⟩ := readItems_append.1 h
  obtain ⟨t₄, hset, h⟩ := readItems_append.1 h
  obtain ⟨t₅, t₆, hwhere, hconditions, hclose⟩ := readConditions_of_items hc.2 h
  have hkeyword := hwhere
  rw [readItems_singleton] at hkeyword
  have hset := readSeparated_of_items readsAs_entry (by decide) hc.1 hset
    (read_eq_none rfl rfl (by decide) hkeyword)
  rw [readUpdate, hhead]
  simp [readsAs_table _ _ _ htable, hword, hset, hwhere, hconditions, hclose, atEnd, hend]

theorem readDelete_of_reads {table : TableName} {conditions : List Entry}
    (hc : (Dml.delete table conditions).Complete)
    (h : Reads reserved (Dml.delete table conditions).items t) :
    readDelete reserved t = some (.delete table conditions) := by
  obtain ⟨r, h, hend⟩ := reads_iff_readItems.1 h
  obtain ⟨t₁, hhead, h⟩ := readItems_append.1 h
  obtain ⟨t₂, htable, h⟩ := readItems_append.1 h
  obtain ⟨t₃, t₄, hwhere, hconditions, hclose⟩ := readConditions_of_items hc h
  rw [readDelete, hhead]
  simp [readsAs_table _ _ _ htable, hwhere, hconditions, hclose, atEnd, hend]

/-- **A text that consists of the items of a statement is read as it.** -/
theorem readDml_of_reads {d : Dml} (hc : d.Complete) (h : Reads reserved d.items t) :
    readDml reserved t = some d := by
  have hfirst : ∀ {w : Bytes} {its : List Item}, Reads reserved (.keyword w :: its) t →
      ∃ r, (Item.keyword w).read reserved t = some r := by
    rintro w its ⟨r, hr, -⟩
    exact ⟨r, hr⟩
  rw [readDml]
  cases d with
  | insert table columns values =>
    rw [readInsert_of_reads hc h]
    rfl
  | update table set conditions =>
    obtain ⟨r, hr⟩ := hfirst h
    have hinsert : readInsert reserved t = none := by
      rw [readInsert, readItems_keyword_eq_none (by decide) hr]
      rfl
    rw [hinsert, readUpdate_of_reads hc h]
    rfl
  | delete table conditions =>
    obtain ⟨r, hr⟩ := hfirst h
    have hinsert : readInsert reserved t = none := by
      rw [readInsert, readItems_keyword_eq_none (by decide) hr]
      rfl
    have hupdate : readUpdate reserved t = none := by
      rw [readUpdate, readItems_keyword_eq_none (by decide) hr]
      rfl
    rw [hinsert, hupdate, readDelete_of_reads hc h]
    rfl

end

example : readDml (fun _ => false) (ascii "DELETE FROM test_case.e WHERE a=1 AND b='it''s';") =
    some (.delete (ascii "test_case", ascii "e")
      [(ascii "a", some (ascii "1")), (ascii "b", some (ascii "it's"))]) := by decide

end SqlLex
