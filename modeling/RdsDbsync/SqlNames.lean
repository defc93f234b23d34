/-
  The names in the generated SQL: how they pass from the server through the plugin and the
  decoder into the text, and what they denote when PostgreSQL reads it.

  The plugin quotes the names of columns, but not those of the schema and the table.
  `namesObjects_iff`: a statement names its objects exactly if these two denote themselves
  without quotes, and the values that are written without escapes are constants.
-/
import RdsDbsync.OnlyStatements
import RdsDbsync.Lib.SqlItems

namespace RdsDbsync

open Bytes SqlLex

/-! ## The items of a statement -/

/-- The name of a column on the source. -/
def Relation.columnName (rel : Relation) (i : ℕ) : Bytes :=
  (rel.attrs[i]?.map fun a => a.attname.val).getD []

def Cell.item : Cell → Item
  | .value t => .const t
  | _ => .keyword (ascii "null")

section
variable (rel : Relation) (msg : AliPgDecodeMessage)

def tableItems : List Item :=
  [.name rel.nspname, .symbol (ch '.'), .name rel.relname]

/-- `column=value` -/
def cellItems (c : ColumnCell) : List Item :=
  [.name (rel.columnName c.1), .symbol (ch '='), c.2.item]

/-- The items of a statement about the table, with the names that its objects have on the source. -/
def SqlStmt.items : SqlStmt → List Item
  | begin => [.keyword (ascii "begin"), .symbol (ch ';')]
  | commit => [.keyword (ascii "commit"), .symbol (ch ';')]
  | insert columns =>
    [.keyword (ascii "insert"), .keyword (ascii "into")] ++ tableItems rel ++ [.symbol (ch '(')] ++
      [Item.symbol (ch ',')].intercalate (columns.map fun i => [.name (rel.columnName i)]) ++
      [.symbol (ch ')'), .keyword (ascii "values"), .symbol (ch '(')] ++
      [Item.symbol (ch ',')].intercalate (columns.map fun i => [(msg.newtuple.cell i).item]) ++
      [.symbol (ch ')'), .symbol (ch ';')]
  | row (.update set conditions) =>
    [.keyword (ascii "update")] ++ tableItems rel ++ [.keyword (ascii "set")] ++
      [Item.symbol (ch ',')].intercalate (set.map (cellItems rel)) ++ [.keyword (ascii "where")] ++
      [Item.keyword (ascii "and")].intercalate (conditions.map (cellItems rel)) ++
      [.symbol (ch ';')]
  | row (.delete conditions) =>
    [.keyword (ascii "delete"), .keyword (ascii "from")] ++ tableItems rel ++
      [.keyword (ascii "where")] ++
      [Item.keyword (ascii "and")].intercalate (conditions.map (cellItems rel)) ++
      [.symbol (ch ';')]

/-- **The text names the source objects and nothing else**: it is the one complete statement that
the message asks for, and read by the rules of the language it consists of the statement's
keywords, constants and the names of that schema, that table and those columns. -/
def NamesObjects (reserved : Bytes → Bool) (text : Bytes) : Prop :=
  ∃ stmt, sqlStmt msg = some stmt ∧ stmt.Complete ∧ stmt.text msg = .ok text ∧
    Reads reserved (stmt.items rel msg) text

end

/-! ## The condition -/

/-- A value that is written as it is must be a number, and one that is only put between quotes must
not have any inside. -/
def SelfDelimiting (type t : Bytes) : Prop :=
  (type ∈ bareTypes → isSigned t) ∧ (type ∈ plainQuotedTypes → singleQuote ∉ t)

instance (type t : Bytes) : Decidable (SelfDelimiting type t) := inferInstanceAs (Decidable (_ ∧ _))

/-- The cells of a statement. -/
def SqlStmt.cells (msg : AliPgDecodeMessage) : SqlStmt → List ColumnCell
  | begin | commit => []
  | insert columns => columns.map fun i => (i, msg.newtuple.cell i)
  | row stmt => stmt.set ++ stmt.conditions

/-- The value of a cell ends where it ends. -/
def CellDelimited (msg : AliPgDecodeMessage) (c : ColumnCell) : Prop :=
  ∀ t, c.2 = .value t → SelfDelimiting ((msg.atttype c.1).getD []) t

instance (msg : AliPgDecodeMessage) : ∀ c : ColumnCell, Decidable (CellDelimited msg c)
  | (_, .null) | (_, .unchanged) => .isTrue nofun
  | (i, .value t) => decidable_of_iff (SelfDelimiting ((msg.atttype i).getD []) t)
      ⟨fun h _ ht => Cell.value.inj ht ▸ h, fun h => h t rfl⟩

/-- The names that have no quotes denote themselves, and the values of the statement end where they
end. -/
structure NamesSafe (reserved : Bytes → Bool) (rel : Relation) (msg : AliPgDecodeMessage) :
    Prop where
  nspname : OwnName reserved rel.nspname.val
  relname : OwnName reserved rel.relname.val
  values : ∀ stmt ∈ sqlStmt msg, ∀ c ∈ stmt.cells msg, CellDelimited msg c

/-! ## The text in pieces -/

/-- The literal of a value that is not NULL. -/
def literal (type t : Bytes) : Bytes :=
  if bareTypes.contains type then t
  else if plainQuotedTypes.contains type then [singleQuote] ++ t ++ [singleQuote]
  else quoteLiteralInternal t

theorem quoteLiteralLocal_literal {type t b : Bytes}
    (h : quoteLiteralLocal (some t) (some type) = .ok b) : b = literal type t := by
  rw [quoteLiteralLocal, str, str, ok_bind, ok_bind] at h
  simp only [literal, List.contains_iff_mem]
  split_ifs at h ⊢ <;> cases h <;> rfl

def Cell.body (type : Bytes) : Cell → Bytes
  | .value t => literal type t
  | _ => ascii "null"

def Cell.piece (type : Bytes) (c : Cell) : Piece := .token (c.body type) c.item

/-- No value is written past its end. -/
theorem settles_literal {reserved : Bytes → Bool} (type t : Bytes) :
    Settles reserved ConstEnds [.token (literal type t) (.const t)] (SelfDelimiting type t) := by
  have hdisjoint : ∀ type ∈ bareTypes, type ∉ plainQuotedTypes := by decide
  by_cases hb : type ∈ bareTypes
  · rw [literal, if_pos (List.contains_iff_mem.2 hb)]
    refine settles_bare.congr ?_
    rw [SelfDelimiting]
    exact ⟨fun h => ⟨fun _ => h, fun hq => absurd hq (hdisjoint type hb)⟩, fun h => h.1 hb⟩
  · rw [literal, if_neg (mt List.contains_iff_mem.1 hb)]
    by_cases hq : type ∈ plainQuotedTypes
    · rw [if_pos (List.contains_iff_mem.2 hq)]
      refine (settles_between.mono fun _ h => h.1).congr ?_
      exact ⟨fun h => ⟨fun h' => absurd h' hb, fun _ => h⟩, fun h => h.2 hq⟩
    · rw [if_neg (mt List.contains_iff_mem.1 hq)]
      have hsafe : SelfDelimiting type t := ⟨fun h => absurd h hb, fun h => absurd h hq⟩
      rw [quoteLiteralInternal]
      by_cases he : backslash ∈ t
      · rw [if_pos he]
        exact (settles_escaped.mono fun _ h => h.1).congr (iff_of_true trivial hsafe)
      · have htext : (t.flatMap fun c => if sqlStrDouble c then [c, c] else [c]) =
            Csv.doubled squote t := escaped_of_not_mem he
        rw [if_neg he, htext]
        exact (settles_doubled.mono fun _ h => h.1).congr (iff_of_true trivial hsafe)

/-- A symbol that is always a token. -/
def symbolPiece (c : Char) : Piece := .token [ch c] (.symbol (ch c))

/-- A keyword. -/
def keywordPiece (w : Bytes) : Piece := .token w (.keyword (fold w))

section
variable (rel : Relation) (msg : AliPgDecodeMessage)

def tablePieces : List Piece :=
  [.token rel.nspname (.name rel.nspname), .token [ch '.'] (.symbol (ch '.')),
    .token rel.relname (.name rel.relname)]

def namePiece (i : ℕ) : Piece := .token (columnName msg i) (.name (rel.columnName i))

/-- `column=value` -/
def cellPieces (c : ColumnCell) : List Piece :=
  [namePiece rel msg c.1, symbolPiece '=', c.2.piece ((msg.atttype c.1).getD [])]

def valuePiece (i : ℕ) : Piece := (msg.newtuple.cell i).piece ((msg.atttype i).getD [])

def insertPieces (columns : List ℕ) : List Piece :=
  [keywordPiece (ascii "INSERT"), .space] ++ [keywordPiece (ascii "INTO"), .space] ++
    tablePieces rel ++ [.space, symbolPiece '('] ++
    joinPieces [symbolPiece ','] true (columns.map fun i => [namePiece rel msg i]) ++
    [symbolPiece ')', .space] ++ [keywordPiece (ascii "VALUES"), symbolPiece '('] ++
    joinPieces [symbolPiece ',', .space] true (columns.map fun i => [valuePiece msg i]) ++
    [symbolPiece ')', symbolPiece ';']

/-- The entries of a WHERE clause, and the end of the statement. -/
def wherePieces (conditions : List ColumnCell) : List Piece :=
  [keywordPiece (ascii "WHERE"), .space] ++
    joinPieces [.space, keywordPiece (ascii "AND"), .space] true
      (conditions.map (cellPieces rel msg)) ++ [symbolPiece ';']

def rowPieces : RowStmt → List Piece
  | .update set conditions =>
    [keywordPiece (ascii "UPDATE"), .space] ++ tablePieces rel ++
      ([.space, .space] ++ [keywordPiece (ascii "SET"), .space]) ++
      joinPieces [.space, symbolPiece ',', .space] true (set.map (cellPieces rel msg)) ++
      ([.space] ++ wherePieces rel msg conditions)
  | .delete conditions =>
    [keywordPiece (ascii "DELETE"), .space] ++ [keywordPiece (ascii "FROM"), .space] ++
      tablePieces rel ++ ([.space] ++ wherePieces rel msg conditions)

end

/-! ### The text is that of the pieces -/

section
variable {rel : Relation} {msg : AliPgDecodeMessage} {text : Bytes}

theorem text_joinPieces (sep : List Piece) (ls : List (List Piece)) (first : Bool) :
    SqlLex.text (joinPieces sep first ls) =
      joinItems (SqlLex.text sep) first (ls.map SqlLex.text) := by
  induction ls generalizing first with
  | nil => rfl
  | cons l ls ih =>
    rw [joinPieces, text_append, text_append, ih, List.map_cons, joinItems]
    cases first <;> rfl

theorem mapM_ok_eq {α : Type} {f : α → Except Fault Bytes} {g : α → Bytes} {l : List α}
    {ts : List Bytes} (h : l.mapM f = .ok ts) (hg : ∀ a ∈ l, ∀ t, f a = .ok t → t = g a) :
    ts = l.map g := by
  rw [mapM_eq_ok_iff] at h
  induction h with
  | nil => rfl
  | @cons a t l ts ht _ ih =>
    rw [List.map_cons, hg a List.mem_cons_self t ht,
      ih fun b hb => hg b (List.mem_cons_of_mem a hb)]

theorem quoteLiteralLocal_ok {raw type : Option Bytes} {b : Bytes}
    (h : quoteLiteralLocal raw type = .ok b) : ∃ t, raw = some t ∧ b = literal (type.getD []) t := by
  rcases type with _ | type
  · cases h
  rcases raw with _ | t
  · cases h
  exact ⟨t, rfl, quoteLiteralLocal_literal h⟩

theorem cell_text {c : ColumnCell} (h : ColumnCell.text msg c = .ok text) :
    text = SqlLex.text (cellPieces rel msg c) := by
  rw [ColumnCell.text] at h
  obtain ⟨name, hname, h⟩ := bind_eq_ok h
  have hcolumn : columnName msg c.1 = name := by
    rw [columnName]
    rcases hn : msg.attname c.1 with _ | n
    · rw [hn] at hname
      cases hname
    · rw [hn] at hname
      exact Except.ok.inj hname
  have hpieces : SqlLex.text (cellPieces rel msg c) =
      name ++ ascii "=" ++ c.2.body ((msg.atttype c.1).getD []) := by
    rw [← hcolumn]
    simp only [cellPieces, SqlLex.text, List.flatMap_cons, List.flatMap_nil, List.append_nil,
      List.append_assoc]
    rfl
  rw [hpieces]
  by_cases hnull : c.2 = .null
  · rw [if_pos hnull] at h
    cases h
    rw [hnull]
    rfl
  · rw [if_neg hnull] at h
    obtain ⟨value, hvalue, h⟩ := bind_eq_ok h
    cases h
    obtain ⟨t, ht, rfl⟩ := quoteLiteralLocal_ok hvalue
    rcases hc : c.2 with _ | _ | t'
    · exact absurd hc hnull
    · rw [hc] at ht
      cases ht
    · rw [hc] at ht
      cases ht
      rfl

theorem listText_pieces {cs : List ColumnCell} {sep : List Piece}
    (h : listText msg (SqlLex.text sep) true cs = .ok text) :
    text = SqlLex.text (joinPieces sep true (cs.map (cellPieces rel msg))) := by
  rw [listText] at h
  obtain ⟨ts, hts, h⟩ := bind_eq_ok h
  cases h
  rw [text_joinPieces, List.map_map, mapM_ok_eq hts fun c _ t ht => cell_text ht]
  rfl

theorem text_tablePieces : SqlLex.text (tablePieces rel) =
    rel.nspname.val ++ (ascii "." ++ rel.relname.val) := by
  rw [← List.append_nil rel.relname.val]
  rfl

theorem text_wherePieces (conditions : List ColumnCell) :
    SqlLex.text (wherePieces rel msg conditions) = ascii "WHERE " ++
      (SqlLex.text (joinPieces [.space, keywordPiece (ascii "AND"), .space] true
        (conditions.map (cellPieces rel msg))) ++ ascii ";") := by
  rw [wherePieces, text_append, text_append, List.append_assoc]
  rfl

/-- **The text of an UPDATE or DELETE** is the one of its pieces. -/
theorem row_text {stmt : RowStmt} (hs : msg.schemaname = some rel.nspname.val)
    (hr : msg.relname = some rel.relname.val) (h : stmt.text msg = .ok text) :
    text = SqlLex.text (rowPieces rel msg stmt) := by
  cases stmt with
  | update set conditions =>
    rw [RowStmt.text, hs, hr, str, str, ok_bind, ok_bind] at h
    obtain ⟨clauses, hclauses, h⟩ := bind_eq_ok h
    rw [clausesText] at hclauses
    obtain ⟨conds, hconds, hclauses⟩ := bind_eq_ok hclauses
    obtain ⟨sets, hsets, hclauses⟩ := bind_eq_ok hclauses
    cases hclauses
    cases h
    simp only [rowPieces, text_append, List.append_assoc]
    rw [text_tablePieces, text_wherePieces, ← listText_pieces hsets, ← listText_pieces hconds]
    simp only [List.append_assoc]
    rfl
  | delete conditions =>
    rw [RowStmt.text, hs, hr] at h
    obtain ⟨conds, hconds, h⟩ := bind_eq_ok h
    cases h
    simp only [rowPieces, text_append, List.append_assoc]
    rw [text_tablePieces, text_wherePieces, ← listText_pieces hconds]
    simp only [List.append_assoc]
    rfl

theorem insertValue_text {i : ℕ} (h : insertValue msg i = .ok text) :
    text = SqlLex.text [valuePiece msg i] := by
  have hpiece : SqlLex.text [valuePiece msg i] =
      (msg.newtuple.cell i).body ((msg.atttype i).getD []) := List.append_nil _
  rw [hpiece, DecodeTupleData.cell]
  rw [insertValue] at h
  by_cases hnull : msg.newtuple.isNullCell i
  · rw [if_pos (Or.inl hnull)] at h
    rw [if_pos hnull]
    cases h
    rfl
  · rw [if_neg hnull]
    by_cases hext : msg.newtuple.isUnchangedCell i
    · rw [if_pos (Or.inr hext)] at h
      cases h
      rw [DecodeTupleData.isUnchangedCell, Bool.and_eq_true, Option.isNone_iff_eq_none] at hext
      rw [hext.2]
      rfl
    · rw [if_neg (not_or_intro hnull hext)] at h
      obtain ⟨t, ht, rfl⟩ := quoteLiteralLocal_ok h
      rw [ht]
      rfl

/-- **The text of an INSERT** is the one of its pieces. -/
theorem insert_text {columns : List ℕ} (hs : msg.schemaname = some rel.nspname.val)
    (hr : msg.relname = some rel.relname.val) (hl : ∀ i ∈ columns, msg.live i)
    (h : (SqlStmt.insert columns).text msg = .ok text) :
    text = SqlLex.text (insertPieces rel msg columns) := by
  rw [SqlStmt.text, hs, hr] at h
  obtain ⟨values, hvalues, h⟩ := bind_eq_ok h
  rw [str, str, ok_bind, ok_bind] at h
  obtain ⟨names, hnames, h⟩ := bind_eq_ok h
  cases h
  have hnamesEq : names = columns.map fun i => SqlLex.text [namePiece rel msg i] := by
    refine mapM_ok_eq hnames fun i hi t ht => ?_
    have hname : SqlLex.text [namePiece rel msg i] = columnName msg i := List.append_nil _
    obtain ⟨name, hn⟩ := Option.isSome_iff_exists.1 (hl i hi)
    rw [hn] at ht
    rw [hname, columnName, hn]
    exact (Except.ok.inj ht).symm
  have hvaluesEq := mapM_ok_eq hvalues fun i _ t ht => insertValue_text ht
  simp only [insertPieces, text_append, List.append_assoc]
  rw [text_tablePieces, text_joinPieces, text_joinPieces, List.map_map, List.map_map, hnamesEq,
    hvaluesEq]
  simp only [List.append_assoc]
  rfl

/-! ### The items are those of the statement -/

theorem items_insertPieces (columns : List ℕ) :
    SqlLex.items (insertPieces rel msg columns) = (SqlStmt.insert columns).items rel msg := by
  simp only [insertPieces, items_append, items_joinPieces, List.map_map, true_or, if_true,
    List.nil_append, List.append_assoc, SqlStmt.items]
  rfl

theorem items_rowPieces (stmt : RowStmt) :
    SqlLex.items (rowPieces rel msg stmt) = (SqlStmt.row stmt).items rel msg := by
  cases stmt with
  | update set conditions =>
    simp only [rowPieces, wherePieces, items_append, items_joinPieces, List.map_map, true_or,
      if_true, List.nil_append, List.append_assoc, SqlStmt.items]
    rfl
  | delete conditions =>
    simp only [rowPieces, wherePieces, items_append, items_joinPieces, List.map_map, true_or,
      if_true, List.nil_append, List.append_assoc, SqlStmt.items]
    rfl

end

/-! ### When the pieces are read in place -/

section
variable {kw reserved : Bytes → Bool} {rel : Relation} {msg : AliPgDecodeMessage}

/-- The column has its source name, quoted where that is needed. -/
def NameQuoted (kw : Bytes → Bool) (rel : Relation) (msg : AliPgDecodeMessage) (i : ℕ) : Prop :=
  columnName msg i = SqlText.quoteIdentifier kw (rel.columnName i) ∧ rel.columnName i ≠ []

theorem settles_symbolPiece {c : Char} (hc : isPunctuation (ch c)) :
    Settles reserved (fun _ => True) [symbolPiece c] True := settles_symbol hc

/-- A symbol with a blank behind it. -/
theorem settles_symbolSpace {c : Char} (hc : isPunctuation (ch c)) :
    Settles reserved (fun _ => True) [symbolPiece c, .space] True :=
  ((settles_symbolPiece hc).append Settles.nil.space fun _ _ => trivial).congr (and_self_iff)

/-- A keyword with a blank behind it. -/
theorem settles_keywordSpace {w : Bytes} (hhead : w.head?.any isWordStart)
    (hall : w.all isWordChar) :
    Settles reserved (fun _ => True) [keywordPiece w, .space] True :=
  settles_keyword_space hhead hall rfl

theorem endsWord_blank (rest : Bytes) : EndsWord (ch ' ' :: rest) :=
  (Breaks.cons (by decide) rest).endsWord

theorem settles_tablePieces : Settles reserved NameEnds (tablePieces rel)
    (OwnName reserved rel.nspname.val ∧ OwnName reserved rel.relname.val) := by
  refine settles_name.append settles_qualified ?_
  intro rest _
  refine ⟨?_, @weight_drop_lt (ch '.') (by decide) 3 [] (by decide) _⟩
  intro c hc
  obtain rfl := Option.some.inj hc
  decide

theorem settles_namePiece (hkw : ∀ w, reserved w → kw w) {i : ℕ} (hi : NameQuoted kw rel msg i) :
    Settles reserved Breaks [namePiece rel msg i] True := by
  rw [namePiece, hi.1]
  exact settles_quoteIdentifier hkw hi.2

theorem settles_piece (type : Bytes) (c : Cell) :
    Settles reserved ConstEnds [c.piece type] (∀ t, c = .value t → SelfDelimiting type t) := by
  have hnull : Settles reserved ConstEnds [.token (ascii "null") (.keyword (ascii "null"))] True :=
    (settles_keyword (by decide) (by decide) (by decide)).mono fun _ h => h.1.endsWord
  rcases c with _ | _ | t
  · exact hnull.congr (iff_of_true trivial nofun)
  · exact hnull.congr (iff_of_true trivial nofun)
  · refine (settles_literal type t).congr ⟨?_, fun h => h t rfl⟩
    rintro h _ ⟨⟩
    exact h

theorem settles_cellPieces (hkw : ∀ w, reserved w → kw w) {c : ColumnCell}
    (hc : NameQuoted kw rel msg c.1) :
    Settles reserved ConstEnds (cellPieces rel msg c) (CellDelimited msg c) := by
  have hname := settles_namePiece hkw hc
  have hequal : Settles reserved (fun _ => True) [symbolPiece '='] True :=
    settles_symbolPiece (by decide)
  have hvalue := @settles_piece reserved ((msg.atttype c.1).getD []) c.2
  have hnamed := hname.append hequal fun rest _ => Breaks.cons (by decide) rest
  refine (hnamed.append hvalue fun _ _ => trivial).congr ?_
  rw [and_self_iff, true_and, CellDelimited]

/-- The entries of a WHERE clause. -/
theorem settles_wherePieces (hkw : ∀ w, reserved w → kw w) {conditions : List ColumnCell}
    (hc : ∀ c ∈ conditions, NameQuoted kw rel msg c.1) :
    Settles reserved (· = []) (wherePieces rel msg conditions)
      (∀ c ∈ conditions, CellDelimited msg c) := by
  have hand : Settles reserved (fun _ => True) [.space, keywordPiece (ascii "AND"), .space] True :=
    (settles_keywordSpace (by decide) (by decide)).space
  have hentries := Settles.join hand (fun rest => constEnds_cons (by decide) (by decide) _)
    (fun c h => settles_cellPieces hkw (hc c h)) true
  have hend : Settles reserved (· = []) [symbolPiece ';'] True :=
    (settles_symbolPiece (by decide)).mono fun _ _ => trivial
  have hwhere : Settles reserved (fun _ => True) [keywordPiece (ascii "WHERE"), .space] True :=
    settles_keywordSpace (by decide) (by decide)
  have hclause := hwhere.append hentries fun _ _ => trivial
  refine (hclause.append hend ?_).congr ?_
  · rintro rest rfl
    decide
  · rw [true_and, and_true]

/-- **An UPDATE or DELETE.** -/
theorem settles_rowPieces (hkw : ∀ w, reserved w → kw w) {stmt : RowStmt}
    (hc : ∀ c ∈ stmt.set ++ stmt.conditions, NameQuoted kw rel msg c.1) :
    Settles reserved (· = []) (rowPieces rel msg stmt)
      ((OwnName reserved rel.nspname.val ∧ OwnName reserved rel.relname.val) ∧
        ∀ c ∈ stmt.set ++ stmt.conditions, CellDelimited msg c) := by
  cases stmt with
  | update set conditions =>
    have hset : ∀ c ∈ set, NameQuoted kw rel msg c.1 :=
      fun c h => hc c (List.mem_append_left _ h)
    have hconditions : ∀ c ∈ conditions, NameQuoted kw rel msg c.1 :=
      fun c h => hc c (List.mem_append_right _ h)
    have hcomma : Settles reserved (fun _ => True) [.space, symbolPiece ',', .space] True :=
      (settles_symbolSpace (by decide)).space
    have hentries := Settles.join hcomma (fun rest => constEnds_cons (by decide) (by decide) _)
      (fun c h => settles_cellPieces hkw (hset c h)) true
    have hupdate : Settles reserved (fun _ => True) [keywordPiece (ascii "UPDATE"), .space] True :=
      settles_keywordSpace (by decide) (by decide)
    have hword : Settles reserved (fun _ => True) [keywordPiece (ascii "SET"), .space] True :=
      settles_keywordSpace (by decide) (by decide)
    have hhead := hupdate.append (@settles_tablePieces reserved rel) fun _ _ => trivial
    have hset := hhead.append hword.space.space
      fun _ _ => ⟨endsWord_blank _,
        @weight_drop_lt (ch 'S') (by decide) 3 [ch ' ', ch ' '] (by decide) _⟩
    have hsets := hset.append hentries fun _ _ => trivial
    refine (hsets.append (settles_wherePieces hkw hconditions).space ?_).congr ?_
    · rintro rest rfl
      exact constEnds_cons (by decide) (Or.inr (by decide)) _
    · simp only [RowStmt.set, RowStmt.conditions, List.forall_mem_append, true_and, and_true,
        and_assoc]
  | delete conditions =>
    have hdelete : Settles reserved (fun _ => True) [keywordPiece (ascii "DELETE"), .space] True :=
      settles_keywordSpace (by decide) (by decide)
    have hfrom : Settles reserved (fun _ => True) [keywordPiece (ascii "FROM"), .space] True :=
      settles_keywordSpace (by decide) (by decide)
    have hhead := (hdelete.append hfrom fun _ _ => trivial).append
      (@settles_tablePieces reserved rel) fun _ _ => trivial
    have hwhere := settles_wherePieces hkw (show ∀ c ∈ conditions, _ from fun c h => hc c h)
    refine (hhead.append hwhere.space ?_).congr ?_
    · rintro rest rfl
      exact ⟨endsWord_blank _, @weight_drop_lt (ch 'W') (by decide) 3 [ch ' '] (by decide) _⟩
    · simp only [RowStmt.set, RowStmt.conditions, List.nil_append, true_and]

/-- **An INSERT.** -/
theorem settles_insertPieces (hkw : ∀ w, reserved w → kw w) {columns : List ℕ}
    (hc : ∀ i ∈ columns, NameQuoted kw rel msg i) :
    Settles reserved (· = []) (insertPieces rel msg columns)
      ((OwnName reserved rel.nspname.val ∧ OwnName reserved rel.relname.val) ∧
        ∀ i ∈ columns, CellDelimited msg (i, msg.newtuple.cell i)) := by
  have hinsert : Settles reserved (fun _ => True) [keywordPiece (ascii "INSERT"), .space] True :=
    settles_keywordSpace (by decide) (by decide)
  have hinto : Settles reserved (fun _ => True) [keywordPiece (ascii "INTO"), .space] True :=
    settles_keywordSpace (by decide) (by decide)
  have hsymbol : ∀ c, isPunctuation (ch c) →
      Settles reserved (fun _ => True) [symbolPiece c] True := fun c => settles_symbolPiece
  have hvalues : Settles reserved (fun _ => True) [keywordPiece (ascii "VALUES"), symbolPiece '(']
      True := by
    refine ((settles_keyword (by decide) (by decide) rfl).append (hsymbol '(' (by decide))
      fun rest _ => (Breaks.cons ?_ rest).endsWord).congr (and_self_iff)
    decide
  have hend : Settles reserved (· = []) [symbolPiece ')', symbolPiece ';'] True :=
    (((hsymbol ')' (by decide)).append (hsymbol ';' (by decide)) fun _ _ => trivial).mono
      fun _ _ => trivial).congr (and_self_iff)
  have hnames := Settles.join (hsymbol ',' (by decide))
    (fun rest => Breaks.cons (by decide) rest) (fun i h => settles_namePiece hkw (hc i h)) true
  have hconst : ∀ i ∈ columns, Settles reserved ConstEnds [valuePiece msg i]
      (CellDelimited msg (i, msg.newtuple.cell i)) :=
    fun i _ => settles_piece ((msg.atttype i).getD []) (msg.newtuple.cell i)
  have hcomma : Settles reserved (fun _ => True) [symbolPiece ',', .space] True :=
    settles_symbolSpace (by decide)
  have hparen : Settles reserved (fun _ => True) [symbolPiece ')', .space] True :=
    settles_symbolSpace (by decide)
  have hconsts := Settles.join hcomma
    (fun rest => constEnds_cons (by decide) (by decide) _) hconst true
  have hhead := (hinsert.append hinto fun _ _ => trivial).append
    (@settles_tablePieces reserved rel) fun _ _ => trivial
  have hopen := hhead.append (hsymbol '(' (by decide)).space fun _ _ =>
    ⟨(Breaks.cons (by decide) _).endsWord, @weight_drop_lt (ch '(') (by decide) 3 [ch ' ']
      (by decide) _⟩
  have hclose := (hopen.append hnames fun _ _ => trivial).append hparen
    fun _ _ => Breaks.cons (by decide) _
  have hlist := (hclose.append hvalues fun _ _ => trivial).append hconsts fun _ _ => trivial
  refine (hlist.append hend ?_).congr ?_
  · rintro rest rfl
    exact constEnds_cons (by decide) (Or.inl (by decide)) _
  · simp only [true_and, and_true, implies_true]

end

/-! ## Statements about the source -/

section
variable {kw reserved : Bytes → Bool} {rel : Relation} {change : ReorderBufferChange}

/-- The server does not admit empty names of columns. -/
def Relation.ColumnsNamed (rel : Relation) : Prop :=
  ∀ a ∈ rel.attrs, a.attisdropped = false → a.attname.val ≠ []

instance (rel : Relation) : Decidable rel.ColumnsNamed :=
  inferInstanceAs (Decidable (∀ a ∈ rel.attrs, _))

/-- **The plugin quotes the names of columns.** -/
theorem nameQuoted_of_live (hnames : rel.ColumnsNamed) {i : ℕ}
    (hl : (changeMessage kw rel change).live i) :
    NameQuoted kw rel (changeMessage kw rel change) i := by
  rw [changeMessage_live] at hl
  obtain ⟨a, ha, hd⟩ := Relation.live_iff.1 hl
  have hsource : rel.columnName i = a.attname.val := by rw [Relation.columnName, ha]; rfl
  refine ⟨?_, ?_⟩
  · rw [columnName, changeMessage_attname, ha, hsource]
    simp [Attribute.wireName, hd]
  · rw [hsource]
    exact hnames a (List.mem_of_getElem? ha) hd

theorem changeMessage_names : (changeMessage kw rel change).schemaname = some rel.nspname.val ∧
    (changeMessage kw rel change).relname = some rel.relname.val := by
  cases change <;> exact ⟨rfl, rfl⟩

/-- The statement of a change is an INSERT of all live columns, or one with a WHERE clause. -/
theorem sqlStmt_change {stmt : SqlStmt} (hs : sqlStmt (changeMessage kw rel change) = some stmt) :
    stmt = .insert (insertColumns (changeMessage kw rel change)) ∨
      ∃ row, stmt = .row row ∧ rowStmt (changeMessage kw rel change) = some row := by
  cases change with
  | insert newtuple =>
    have htype : (changeMessage kw rel (.insert newtuple)).type = some .insert := rfl
    rw [sqlStmt, htype] at hs
    dsimp only at hs
    split_ifs at hs
    exact Or.inl (Option.some.inj hs).symm
  | update oldtuple newtuple =>
    rw [sqlStmt_row (Or.inl rfl)] at hs
    obtain ⟨row, hrow, rfl⟩ := Option.map_eq_some_iff.1 hs
    exact Or.inr ⟨row, rfl, hrow⟩
  | delete oldtuple =>
    rw [sqlStmt_row (Or.inr rfl)] at hs
    obtain ⟨row, hrow, rfl⟩ := Option.map_eq_some_iff.1 hs
    exact Or.inr ⟨row, rfl, hrow⟩

/-- **What a statement's text names.** -/
theorem reads_iff_safe (hkw : ∀ w, reserved w → kw w) (hnames : rel.ColumnsNamed) {stmt : SqlStmt}
    {text : Bytes} (hs : sqlStmt (changeMessage kw rel change) = some stmt)
    (ht : stmt.text (changeMessage kw rel change) = .ok text) :
    Reads reserved (stmt.items rel (changeMessage kw rel change)) text ↔
      NamesSafe reserved rel (changeMessage kw rel change) := by
  obtain ⟨hschema, htable⟩ := @changeMessage_names kw rel change
  have hquoted : ∀ {i}, (changeMessage kw rel change).live i →
      NameQuoted kw rel (changeMessage kw rel change) i := nameQuoted_of_live hnames
  have hsafe : NamesSafe reserved rel (changeMessage kw rel change) ↔
      (OwnName reserved rel.nspname.val ∧ OwnName reserved rel.relname.val) ∧
        ∀ c ∈ stmt.cells (changeMessage kw rel change),
          CellDelimited (changeMessage kw rel change) c := by
    constructor
    · rintro ⟨hnsp, hrel, hvalues⟩
      exact ⟨⟨hnsp, hrel⟩, hvalues stmt hs⟩
    · rintro ⟨⟨hnsp, hrel⟩, hvalues⟩
      refine ⟨hnsp, hrel, fun stmt' hs' => ?_⟩
      obtain rfl := Option.some.inj (hs.symm.trans hs')
      exact hvalues
  rw [hsafe]
  rcases sqlStmt_change hs with rfl | ⟨row, rfl, hrow⟩
  · have hlive : ∀ i ∈ insertColumns (changeMessage kw rel change),
        (changeMessage kw rel change).live i := fun i hi => (List.mem_filter.1 hi).2
    rw [insert_text hschema htable hlive ht, ← items_insertPieces, SqlStmt.cells,
      List.forall_mem_map]
    exact (settles_insertPieces hkw fun i hi => hquoted (hlive i hi)).reads rfl
  · have hlive : ∀ c ∈ row.set ++ row.conditions, (changeMessage kw rel change).live c.1 := by
      intro c hc
      exact live_of_rowStmt hrow c (List.mem_append.2 (List.mem_append.1 hc).symm)
    rw [row_text hschema htable ht, ← items_rowPieces]
    exact (settles_rowPieces hkw fun c hc => hquoted (hlive c hc)).reads rfl

/-- **The generated SQL names the source objects and nothing else** if and only if one statement
can be made of the change, the names of the schema and the table denote themselves without quotes,
and the values that are written as they are, or only put between quotes, end where they end. -/
theorem namesObjects_iff (hkw : ∀ w, reserved w → kw w) (hnames : rel.ColumnsNamed)
    (hf : change.Fits kw rel) {stale : ℕ → UInt32} {s : StringInfo} {msg : AliPgDecodeMessage}
    (hd : bdrProcessRemoteAction ⟨pgDecodeChange kw pgDecodeStartup rel change, stale⟩ {} =
      .ok (true, s, msg)) {text : Bytes} (h : outPutTupleToSql msg = .ok (0, text)) :
    NamesObjects rel msg reserved text ↔ Generable msg ∧ NamesSafe reserved rel msg := by
  rw [changeMessage_roundTrip hf stale] at hd
  obtain rfl := (Prod.mk.inj (Prod.mk.inj (Except.ok.inj hd)).2).2
  have hc : checktuple (changeMessage kw rel change) (changeMessage kw rel change).type
      (changeMessage kw rel change).newtuple (changeMessage kw rel change).oldtuple = 0 := by
    by_contra hc
    rw [outPutTupleToSql, if_pos hc] at h
    cases h
  have hone : OneStatement (changeMessage kw rel change) ↔ Generable (changeMessage kw rel change) :=
    oneStatement_generable.trans (or_iff_right (not_not.2 hc))
  rw [← hone, oneStatement_iff_asked hc]
  constructor
  · rintro ⟨stmt, hs, hcomplete, ht, hreads⟩
    exact ⟨⟨stmt, text, hs, hcomplete, ht, h⟩, (reads_iff_safe hkw hnames hs ht).1 hreads⟩
  · rintro ⟨⟨stmt, text', hs, hcomplete, ht, h'⟩, hsafe⟩
    obtain rfl : text' = text := (Prod.mk.inj (Except.ok.inj (h'.symm.trans h))).2
    exact ⟨stmt, hs, hcomplete, ht, (reads_iff_safe hkw hnames hs ht).2 hsafe⟩

end

theorem namesObjects_deleteE :
    NamesObjects tableE
      (changeMessage (fun _ => false) tableE (.delete (some (rowE (.value (lit "test"))))))
      (fun _ => false) (ascii "DELETE FROM test_case.e WHERE a=1 AND b='test';") := by
  have hd := @changeMessage_roundTrip (fun _ => false) tableE
    (.delete (some (rowE (.value (lit "test"))))) (by decide) fun _ => 0
  refine (namesObjects_iff (fun w h => h) (by decide) (by decide) hd (by decide)).2 ⟨by decide, ?_⟩
  exact ⟨by decide, by decide, by decide⟩

/-- Such a table whose name has an upper-case letter. -/
def tableUpperE : Relation := { tableE with relname := lit "E" }

/-- What is written for a change of that table is a statement about the other one. -/
theorem wrongTable_deleteUpperE :
    outPutTupleToSql (changeMessage (fun _ => false) tableUpperE
        (.delete (some (rowE (.value (lit "test")))))) =
      .ok (0, ascii "DELETE FROM test_case.E WHERE a=1 AND b='test';") ∧
    ¬ NamesObjects tableUpperE
      (changeMessage (fun _ => false) tableUpperE (.delete (some (rowE (.value (lit "test"))))))
      (fun _ => false) (ascii "DELETE FROM test_case.E WHERE a=1 AND b='test';") ∧
    Reads (fun _ => false)
      ((SqlStmt.row (.delete [(0, .value (ascii "1")), (1, .value (ascii "test"))])).items tableE
        (changeMessage (fun _ => false) tableE (.delete (some (rowE (.value (lit "test")))))))
      (ascii "DELETE FROM test_case.E WHERE a=1 AND b='test';") := by
  refine ⟨by decide, ?_, by decide⟩
  rintro ⟨stmt, hs, -, -, hreads⟩
  have hrow : rowStmt (changeMessage (fun _ => false) tableUpperE
      (.delete (some (rowE (.value (lit "test")))))) =
      some (.delete [(0, .value (ascii "1")), (1, .value (ascii "test"))]) := by decide
  rw [sqlStmt_row (Or.inr rfl), hrow] at hs
  obtain rfl := Option.some.inj hs
  revert hreads
  decide

end RdsDbsync
