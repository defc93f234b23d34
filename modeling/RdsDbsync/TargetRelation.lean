/-
  The target relation of `mysql2pgsql`: the CREATE TABLE that `fetch_colmum_info` prints,
  and the COPY with which `mysql2pgsql_copy_data` loads the rows.

  `targetsAgree_iff`: the two statements are about the same relation, whatever the columns
  are, exactly if the names denote themselves without quotes.
-/
import RdsDbsync.Lib.SqlTarget
import RdsDbsync.MysqlField

namespace RdsDbsync

open Bytes SqlLex Csv

/-! ## The texts -/

/-- A column of the result set. -/
structure MysqlColumn where
  orgName : CString
  type : MysqlType

/-- The global variables that shape the DDL. -/
structure DdlOptions where
  getDdlOnly : Bool
  simpleWoPart : Bool
  firstColAsDistKey : Bool

/-- The name of the type, in the DDL. -/
def Oid.name : Oid → Bytes
  | .int2 => ascii "int2"
  | .int4 => ascii "int4"
  | .int8 => ascii "int8"
  | .float4 => ascii "float4"
  | .float8 => ascii "float8"
  | .numeric => ascii "numeric"
  | .timestamp => ascii "timestamp"
  | .timestamptz => ascii "timestamptz"
  | .text => ascii "text"

/-- A column in the DDL. -/
def MysqlColumn.ddl (field : MysqlColumn) : Option Bytes :=
  (colType field.type).map fun type => field.orgName.1 ++ ascii " " ++ type.name

/-- What follows the columns. -/
def ddlEnd (o : DdlOptions) (firstColName : Bytes) (isTargetGp : Bool) : Bytes :=
  if isTargetGp then
    ascii ") with (APPENDONLY=true, ORIENTATION=column, COMPRESSTYPE=zlib, COMPRESSLEVEL=1, " ++
      ascii "BLOCKSIZE=1048576, OIDS=false) DISTRIBUTED BY (" ++
      (if o.firstColAsDistKey then firstColName else ascii "<distribution key>") ++ ascii ")" ++
      (if o.simpleWoPart then [] else
        ascii " PARTITION BY RANGE (<partition key>) (START (date '<YYYY-MM-DD>') INCLUSIVE " ++
          ascii "END (date '<YYYY-MM-DD>') EXCLUSIVE EVERY (INTERVAL '<1 month>' ))")
  else ascii ")"

/-- The text that `fetch_colmum_info` prints; none if a column has an unsupported type. -/
def createTableText (o : DdlOptions) (schemaname : Option CString) (tabname : CString)
    (fields : List MysqlColumn) (isTargetGp : Bool) : Option Bytes :=
  (fields.mapM MysqlColumn.ddl).map fun columns =>
    (if o.getDdlOnly then [] else ascii "-- Reference DDL to create the target table:\n") ++
      ascii "CREATE TABLE " ++ (if isTargetGp then [] else ascii "IF NOT EXISTS ") ++
      (match schemaname with
        | some schema => schema.1 ++ ascii "."
        | none => []) ++
      tabname.1 ++ ascii " (" ++ (ascii ", ").intercalate columns ++
      ddlEnd o ((fields.head?.map fun field => field.orgName.1).getD []) isTargetGp ++
      ascii ";\n\n"

/-- `PQescapeIdentifier` -/
def pqEscapeIdentifier (name : CString) : Bytes := dquote :: doubled dquote name.1 ++ [dquote]

/-- The COPY of `mysql2pgsql_copy_data`. -/
def copyText (schemaname : Option CString) (relname : CString) (isgp : Bool)
    (ignoreErrorCount : ℕ) : Bytes :=
  ascii "COPY " ++
    (match schemaname with
      | some schema => pqEscapeIdentifier schema ++ ascii "."
      | none => []) ++
    pqEscapeIdentifier relname ++ ascii " FROM stdin DELIMITERS '|' with csv QUOTE ''''" ++
    (if isgp ∧ 0 < ignoreErrorCount then
      ascii " SEGMENT REJECT LIMIT " ++ ascii (toString ignoreErrorCount)
    else [])

/-- The relation that the source's names stand for. -/
def targetName (schemaname : Option CString) (tabname : CString) : RelationName :=
  (schemaname.map Subtype.val, tabname.1)

/-- **The DDL and the COPY agree on the target**: whatever the columns of the table are, the CREATE
TABLE creates the relation that the COPY loads into. -/
def TargetsAgree (reserved : Bytes → Bool) (o : DdlOptions) (schemaname : Option CString)
    (tabname : CString) (isTargetGp : Bool) (ignoreErrorCount : ℕ) : Prop :=
  ∀ fields ddl, createTableText o schemaname tabname fields isTargetGp = some ddl →
    ∃ rel, createdRelation reserved ddl = some rel ∧
      copiedRelation reserved (copyText schemaname tabname isTargetGp ignoreErrorCount) = some rel

/-! ## The COPY -/

section
variable {reserved : Bytes → Bool}

/-- A name that is escaped is read literally, unless it is empty. -/
theorem readName_pqEscapeIdentifier (reserved : Bytes → Bool) (name : CString) {c : UInt8}
    (hc : c ≠ dquote) (t : Bytes) :
    readName reserved (pqEscapeIdentifier name ++ c :: t) =
      if name.1 = [] then none else some (name.1, c :: t) := by
  refine readName_quoted reserved ?_
  intro h
  exact hc (Option.some.inj h)

/-- What follows the names in the COPY. -/
def copyEnd (isgp : Bool) (ignoreErrorCount : ℕ) : Bytes :=
  ascii "stdin DELIMITERS '|' with csv QUOTE ''''" ++
    (if isgp ∧ 0 < ignoreErrorCount then
      ascii " SEGMENT REJECT LIMIT " ++ ascii (toString ignoreErrorCount)
    else [])

/-- The names in the COPY. -/
def copyNames (schemaname : Option CString) (relname : CString) : Bytes :=
  (match schemaname with
    | some schema => pqEscapeIdentifier schema ++ ascii "."
    | none => []) ++
  pqEscapeIdentifier relname

theorem copyText_eq (schemaname : Option CString) (relname : CString) (isgp : Bool)
    (ignoreErrorCount : ℕ) :
    copyText schemaname relname isgp ignoreErrorCount =
      ascii "COPY" ++ ch ' ' :: (copyNames schemaname relname ++
        ch ' ' :: (ascii "FROM" ++ ch ' ' :: copyEnd isgp ignoreErrorCount)) := by
  simp only [copyText, copyNames, copyEnd, List.append_assoc]
  rfl

/-- The names are read literally, unless one of them is empty. -/
theorem readRelation_copyNames (reserved : Bytes → Bool) (schemaname : Option CString)
    (relname : CString) (t : Bytes) :
    readRelation reserved (copyNames schemaname relname ++
        ch ' ' :: (ascii "FROM" ++ ch ' ' :: t)) =
      if (∃ schema ∈ schemaname, schema.1 = []) ∨ relname.1 = [] then none
      else some (targetName schemaname relname, ch ' ' :: (ascii "FROM" ++ ch ' ' :: t)) := by
  have hend : readPoint (ch ' ' :: (ascii "FROM" ++ ch ' ' :: t)) = none :=
    readPoint_word (w := ascii "FROM") (by decide) (endsWord_space _)
  have hname (kw : Bytes → Bool) := readName_pqEscapeIdentifier kw relname
    (show ch ' ' ≠ dquote by decide) (ascii "FROM" ++ ch ' ' :: t)
  cases schemaname with
  | none =>
    rw [copyNames, List.nil_append]
    by_cases hrel : relname.1 = []
    · rw [if_pos hrel] at hname
      rw [readRelation_of_none (hname _), if_pos (Or.inr hrel)]
    · rw [if_neg hrel] at hname
      rw [readRelation_of_name (hname _) hend, if_neg (by simp [hrel])]
      rfl
  | some schema =>
    have hpoint (t : Bytes) : readPoint (ch '.' :: (pqEscapeIdentifier relname ++ t)) =
        some (pqEscapeIdentifier relname ++ t) := readPoint_point (by decide) _
    have hschema := readName_pqEscapeIdentifier reserved schema (show ch '.' ≠ dquote by decide)
      (pqEscapeIdentifier relname ++ ch ' ' :: (ascii "FROM" ++ ch ' ' :: t))
    rw [copyNames, List.append_assoc, List.append_assoc, show ascii "." = [ch '.'] from rfl,
      List.singleton_append]
    by_cases hempty : schema.1 = []
    · rw [if_pos hempty] at hschema
      rw [readRelation_of_none hschema, if_pos (Or.inl ⟨schema, rfl, hempty⟩)]
    · rw [if_neg hempty] at hschema
      rw [readRelation_of_point hschema (hpoint _), hname]
      by_cases hrel : relname.1 = []
      · rw [if_pos hrel, if_pos (Or.inr hrel)]
        rfl
      · rw [if_neg hrel, if_neg (by simp [hempty, hrel])]
        rfl

/-- **The COPY loads into the relation of the literal names**, which must not be empty. -/
theorem copiedRelation_copyText (reserved : Bytes → Bool) (schemaname : Option CString)
    (relname : CString) (isgp : Bool) (ignoreErrorCount : ℕ) :
    copiedRelation reserved (copyText schemaname relname isgp ignoreErrorCount) =
      if (∃ schema ∈ schemaname, schema.1 = []) ∨ relname.1 = [] then none
      else some (targetName schemaname relname) := by
  have hcopy (t : Bytes) : readKeywords reserved [ascii "copy"] (ascii "COPY" ++ ch ' ' :: t) =
      some (ch ' ' :: t) := by
    rw [← readKeywords_congr reserved (next_space _)]
    exact readKeywords_words reserved [ascii "COPY"] (by decide) t
  have hfrom : readKeywords reserved [ascii "from"]
      (ch ' ' :: (ascii "FROM" ++ ch ' ' :: copyEnd isgp ignoreErrorCount)) =
      some (ch ' ' :: copyEnd isgp ignoreErrorCount) :=
    readKeywords_words reserved [ascii "FROM"] (by decide) _
  rw [copyText_eq]
  unfold copiedRelation
  rw [hcopy, Option.bind_some, readRelation_congr (next_space _), readRelation_copyNames]
  split_ifs with hempty
  · rfl
  · rw [Option.bind_some]
    dsimp only
    rw [hfrom]
    rfl

theorem not_empty_of_ownRelation {schemaname : Option CString} {relname : CString}
    (h : OwnRelation reserved (targetName schemaname relname)) :
    ¬ ((∃ schema ∈ schemaname, schema.1 = []) ∨ relname.1 = []) := by
  rintro (⟨schema, hschema, hempty⟩ | hempty)
  · cases hschema
    obtain ⟨c, w, hcons, -⟩ := h.1.cons
    rw [hempty] at hcons
    cases hcons
  · cases schemaname with
    | none =>
      obtain ⟨c, w, hcons, -⟩ := OwnName.cons h
      rw [hempty] at hcons
      cases hcons
    | some schema =>
      obtain ⟨c, w, hcons, -⟩ := h.2.cons
      rw [hempty] at hcons
      cases hcons

/-! ## The DDL -/

/-- What follows the opening parenthesis in the DDL. -/
def ddlRest (o : DdlOptions) (fields : List MysqlColumn) (columns : List Bytes)
    (isTargetGp : Bool) : Bytes :=
  (ascii ", ").intercalate columns ++
    (ddlEnd o ((fields.head?.map fun field => field.orgName.1).getD []) isTargetGp ++
      ascii ";\n\n")

theorem createTableText_eq {o : DdlOptions} {schemaname : Option CString} {tabname : CString}
    {fields : List MysqlColumn} {isTargetGp : Bool} {columns : List Bytes}
    (h : fields.mapM MysqlColumn.ddl = some columns) :
    createTableText o schemaname tabname fields isTargetGp =
      some ((if o.getDdlOnly then [] else ascii "-- Reference DDL to create the target table:\n") ++
        (ascii "CREATE TABLE " ++ ((if isTargetGp then [] else ascii "IF NOT EXISTS ") ++
          (relationText (targetName schemaname tabname) ++
            opened (ddlRest o fields columns isTargetGp))))) := by
  unfold createTableText
  rw [h, Option.map_some]
  cases schemaname with
  | none => simp only [List.append_assoc, targetName, relationText, Option.map_none]; rfl
  | some schema => simp only [List.append_assoc, targetName, relationText, Option.map_some]; rfl

theorem readKeywords_create (o : DdlOptions) (t : Bytes) :
    readKeywords reserved [ascii "create", ascii "table"]
      ((if o.getDdlOnly then [] else ascii "-- Reference DDL to create the target table:\n") ++
        (ascii "CREATE TABLE " ++ t)) = some (ch ' ' :: t) := by
  have hwords := readKeywords_words reserved [ascii "CREATE", ascii "TABLE"] (by decide) t
  have hspace := readKeywords_congr reserved (next_space (ascii "CREATE TABLE " ++ t))
    (ascii "create") [ascii "table"]
  by_cases hd : o.getDdlOnly
  · rw [if_pos hd, List.nil_append, ← hspace]
    exact hwords
  · have hcomment := readKeywords_congr reserved
      (next_lineComment (c := ascii " Reference DDL to create the target table:") (by decide)
        (ascii "CREATE TABLE " ++ t)) (ascii "create") [ascii "table"]
    rw [if_neg hd]
    exact hcomment.trans (hspace.symm.trans hwords)

theorem readIfNotExists_words (t : Bytes) :
    readIfNotExists reserved (ch ' ' :: (ascii "IF NOT EXISTS " ++ t)) = some (ch ' ' :: t) := by
  have hif : readKeywords reserved [ascii "if", ascii "not"]
      (ch ' ' :: (ascii "IF NOT EXISTS " ++ t)) = some (ch ' ' :: (ascii "EXISTS " ++ t)) :=
    readKeywords_words reserved [ascii "IF", ascii "NOT"] (by decide) (ascii "EXISTS " ++ t)
  unfold readIfNotExists
  rw [hif]
  exact readKeywords_words reserved [ascii "EXISTS"] (by decide) t

/-- What the CREATE TABLE is read as, up to the columns. -/
theorem createdRelation_createTableText (reserved : Bytes → Bool) (o : DdlOptions)
    (schemaname : Option CString) (tabname : CString) (isTargetGp : Bool)
    {fields : List MysqlColumn} {columns : List Bytes}
    (h : fields.mapM MysqlColumn.ddl = some columns) :
    ∃ ddl, createTableText o schemaname tabname fields isTargetGp = some ddl ∧
      createdRelation reserved ddl =
        if isTargetGp then (readIfNotExists reserved (relationText (targetName schemaname tabname) ++
          opened (ddlRest o fields columns isTargetGp))).bind (readTarget reserved)
        else readTarget reserved (relationText (targetName schemaname tabname) ++
          opened (ddlRest o fields columns isTargetGp)) := by
  refine ⟨_, createTableText_eq h, ?_⟩
  unfold createdRelation
  rw [readKeywords_create, Option.bind_some]
  by_cases hgp : isTargetGp
  · rw [if_pos hgp, if_pos hgp, List.nil_append, readIfNotExists_space]
  · rw [if_neg hgp, if_neg hgp, readIfNotExists_words, Option.bind_some,
      readTarget_congr (next_space _)]

/-- A column of which the DDL quotes nothing. -/
def plainColumn : MysqlColumn := ⟨lit "a", .long⟩

theorem inert_ddlRest (o : DdlOptions) (isTargetGp : Bool) :
    Inert (ddlRest o [plainColumn] [ascii "a int4"] isTargetGp) := by
  have hend : (ddlEnd o (ascii "a") isTargetGp).all isInert := by
    by_cases hgp : isTargetGp
    · rw [ddlEnd, if_pos hgp]
      simp only [List.all_append, Bool.and_eq_true]
      refine ⟨⟨⟨⟨by decide +kernel, by decide +kernel⟩, ?_⟩, by decide +kernel⟩, ?_⟩
      · split_ifs <;> decide +kernel
      · split_ifs <;> decide +kernel
    · rw [ddlEnd, if_neg hgp]
      decide +kernel
  have hline : (ascii "a int4" ++ (ddlEnd o (ascii "a") isTargetGp ++ ascii ";")).all isInert := by
    rw [List.all_append, List.all_append, hend]
    decide +kernel
  have htext : ddlRest o [plainColumn] [ascii "a int4"] isTargetGp =
      ascii "a int4" ++ (ddlEnd o (ascii "a") isTargetGp ++ ascii ";") ++ [10, 10] := by
    rw [List.append_assoc, List.append_assoc]
    rfl
  rw [htext]
  exact Inert.of_line hline

end

/-- **The two statements are about the same relation exactly if the names denote themselves without
quotes**: they are words in lower case, and the first one is not reserved. -/
theorem targetsAgree_iff (reserved : Bytes → Bool) (o : DdlOptions) (schemaname : Option CString)
    (tabname : CString) (isTargetGp : Bool) (ignoreErrorCount : ℕ) :
    TargetsAgree reserved o schemaname tabname isTargetGp ignoreErrorCount ↔
      OwnRelation reserved (targetName schemaname tabname) := by
  have hcopied := copiedRelation_copyText reserved schemaname tabname isTargetGp
    ignoreErrorCount
  constructor
  · intro hagree
    -- a column of a plain name cannot make up for what the names lack
    obtain ⟨ddl, hddl, hcreated⟩ := createdRelation_createTableText reserved o schemaname tabname
      isTargetGp (show [plainColumn].mapM MysqlColumn.ddl = some [ascii "a int4"] from rfl)
    obtain ⟨rel, hrel, hcopy⟩ := hagree _ ddl hddl
    rw [hcopied] at hcopy
    split_ifs at hcopy
    obtain rfl := Option.some.inj hcopy
    rw [hcreated] at hrel
    have hinert := inert_ddlRest o isTargetGp
    split_ifs at hrel
    · exact ownRelation_of_readIfNotExists hinert hrel
    · exact ownRelation_of_readTarget hinert hrel
  · intro hown fields ddl hddl
    obtain ⟨columns, hcolumns, -⟩ := Option.map_eq_some_iff.1 hddl
    obtain ⟨ddl', hddl', hcreated⟩ := createdRelation_createTableText reserved o schemaname tabname
      isTargetGp hcolumns
    obtain rfl : ddl' = ddl := Option.some.inj (hddl'.symm.trans hddl)
    refine ⟨_, ?_, hcopied.trans (if_neg (not_empty_of_ownRelation hown))⟩
    rw [hcreated, readIfNotExists_ownRelation hown, Option.bind_some,
      readTarget_ownRelation hown, ite_self]

/-- A table `Users`: the DDL creates `users`, the COPY loads into `Users`. -/
theorem not_targetsAgree_upperCase :
    ¬ TargetsAgree (fun _ => false) ⟨false, false, false⟩ none (lit "Users") false 0 := by
  intro h
  obtain ⟨rel, hcreated, hcopied⟩ := h [plainColumn] _ rfl
  have hddl : createdRelation (fun _ => false) (ascii ("-- Reference DDL to create the target " ++
      "table:\nCREATE TABLE IF NOT EXISTS Users (a int4);\n\n")) = some (none, ascii "users") := by
    decide +kernel
  have hcopy : copiedRelation (fun _ => false) (ascii ("COPY \"Users\" FROM stdin DELIMITERS '|' " ++
      "with csv QUOTE ''''")) = some (none, ascii "Users") := by
    decide +kernel
  have hrel := Option.some.inj (hcreated.symm.trans hddl)
  have hrel' := Option.some.inj (hcopied.symm.trans hcopy)
  exact absurd (hrel.symm.trans hrel') (by decide +kernel)

end RdsDbsync
