/-
  The table list of `mysql2pgsql` (`load_table_list_file` in `dbsync-mysql2pgsql.c`), for
  a file that can be read.

  The file is loaded into a buffer, and its lines are cut into names and queries in
  place.  `listsTables_iff`: the lists are those of the file's lines, unless its size does
  not fit an `int`.
-/
import Mathlib.Data.List.DropRight
import Mathlib.Data.List.Forall2
import RdsDbsync.Message

namespace RdsDbsync

open Bytes

/-! ## The buffer -/

def newline : UInt8 := 10

def colon : UInt8 := ch ':'

def isBlank (c : UInt8) : Bool := c == ch ' ' || c == 9

/-- The bytes that `palloc0` returned, and the one that happens to follow them. -/
structure ListBuffer where
  mem : Bytes
  after : UInt8

namespace ListBuffer

variable (b : ListBuffer)

/-- `*p` -/
def read (p : ℕ) : Except Fault UInt8 :=
  if h : p < b.mem.length then .ok b.mem[p]
  else if p = b.mem.length then .ok b.after
  else .error .bufferOverrun

/-- `*p = '\0'` -/
def terminate (p : ℕ) : Except Fault ListBuffer :=
  if p < b.mem.length then .ok { b with mem := b.mem.set p 0 } else .error .bufferOverrun

/-- The first loop: `table_begin` goes on to a character that is no blank.  The buffer ends before
`fuel` steps do. -/
def skipBlanks : (fuel tableBegin : ℕ) → Except Fault ℕ
  | 0, _ => .error .bufferOverrun
  | fuel + 1, tableBegin => do
    if isBlank (← b.read tableBegin) then skipBlanks fuel (tableBegin + 1) else .ok tableBegin

/-- The second loop: `table_end` goes on to a colon, or to `p`. -/
def findColon (p : ℕ) : (fuel tableEnd : ℕ) → Except Fault ℕ
  | 0, _ => .error .bufferOverrun
  | fuel + 1, tableEnd => do
    if (← b.read tableEnd) ≠ colon ∧ tableEnd ≠ p then findColon p fuel (tableEnd + 1)
    else .ok tableEnd

/-- The third loop: blanks before `tableEnd` are dropped, back to `tableBegin`.  `tableEnd` is
`table_end + 1` of the source. -/
def trimBlanks (tableBegin : ℕ) : (tableEnd : ℕ) → Except Fault ℕ
  | 0 => .ok 0
  | tableEnd + 1 => do
    if tableBegin ≤ tableEnd then
      if isBlank (← b.read tableEnd) then trimBlanks tableBegin tableEnd else .ok (tableEnd + 1)
    else .ok (tableEnd + 1)

/-- The fourth loop: `query_begin` goes on over blanks, up to `p`; the character is read first. -/
def skipQueryBlanks (p : ℕ) : (fuel queryBegin : ℕ) → Except Fault ℕ
  | 0, _ => .error .bufferOverrun
  | fuel + 1, queryBegin => do
    if isBlank (← b.read queryBegin) ∧ queryBegin < p then skipQueryBlanks p fuel (queryBegin + 1)
    else .ok queryBegin

/-- The name of the line that ends at `p`, and `query_begin` behind its colon. -/
def lineName (p tableBegin : ℕ) : Except Fault (ListBuffer × Option ℕ × ℕ) := do
  let fuel := b.mem.length + 2
  let tableBegin ← b.skipBlanks fuel tableBegin
  let tableEnd ← b.findColon p fuel tableBegin
  let queryBegin := tableEnd + 1
  let tableEnd ← b.trimBlanks tableBegin tableEnd
  if tableEnd ≤ tableBegin then .ok (b, none, queryBegin)
  else .ok (← b.terminate tableEnd, some tableBegin, queryBegin)

/-- The query of the line that ends at `p`. -/
def lineQuery (p queryBegin : ℕ) : Except Fault (ListBuffer × Option ℕ) := do
  let queryBegin ← b.skipQueryBlanks p (b.mem.length + 2) queryBegin
  if p ≤ queryBegin then .ok (b, none) else .ok (← b.terminate p, some queryBegin)

end ListBuffer

/-! ## The lists -/

/-- The variables of the loop over the buffer; the arrays hold positions in it, or NULL. -/
structure ListParser where
  buffer : ListBuffer
  p : ℕ := 0
  tableBegin : ℕ := 0
  curTable : ℕ := 0
  tableArray : List (Option ℕ)
  queryArray : List (Option ℕ)

namespace ListParser

/-- `table_array[cur_table]` and `query_array[cur_table]` are set. -/
def add (s : ListParser) (table query : Option ℕ) : Except Fault ListParser :=
  if s.curTable < s.tableArray.length then
    .ok { s with
      tableArray := s.tableArray.set s.curTable table
      queryArray := s.queryArray.set s.curTable query
      curTable := s.curTable + 1 }
  else .error .bufferOverrun

/-- The line that ends at `p`. -/
def endLine (s : ListParser) : Except Fault ListParser := do
  let (buffer, table, queryBegin) ← s.buffer.lineName s.p s.tableBegin
  let (buffer, query) ← buffer.lineQuery s.p queryBegin
  let s := { s with buffer, tableBegin := s.p + 1 }
  if table.isSome then s.add table query else .ok s

/-- The loop over the buffer from `p` on, `n` steps of it. -/
def run (tail : ℕ) : ℕ → ListParser → Except Fault ListParser
  | 0, s => .ok s
  | n + 1, s => do
    let s ← if (← s.buffer.read s.p) = newline ∨ s.p = tail then s.endLine else .ok s
    run tail n { s with p := s.p + 1 }

end ListParser

/-- The number of line ends; `none` if there is a NUL. -/
def countLines : Bytes → Option ℕ
  | [] => some 0
  | c :: r =>
    if c = 0 then none
    else (countLines r).map fun n => if c = newline then n + 1 else n

/-- `*p_tables` and `*p_queries`, with the strings that they point to. -/
structure TableLists where
  tables : List (Option Bytes)
  queries : List (Option Bytes)
  deriving DecidableEq

/-- `load_table_list_file`; `none` for the result -1.  `palloc0` exits if a size overflowed, as it
is then too large. -/
def loadTableListFile (content : Bytes) (after : UInt8) : Except Fault (Option TableLists) :=
  let sz := toInt (content.length % 2 ^ 32)
  if sz < 0 then .ok none
  else if sz + 1 = 2 ^ 31 then .error .exit
  else
    let loaded := content.take sz.toNat
    match countLines loaded with
    | none => .ok none
    | some n =>
      let numLines := n + 1
      if numLines + 1 = 2 ^ 31 then .error .exit
      else do
        let array := List.replicate (numLines + 1) none
        let s ← ListParser.run loaded.length (loaded.length + 1)
          { buffer := ⟨loaded ++ [0], after⟩, tableArray := array, queryArray := array }
        let text := fun p => cstr (s.buffer.mem.drop p)
        .ok (some ⟨s.tableArray.map (Option.map text), s.queryArray.map (Option.map text)⟩)

/-! ## The property -/

/-- The text without blanks around it. -/
def trim (t : Bytes) : Bytes := (t.dropWhile isBlank).rdropWhile isBlank

/-- The table and the query of a line, if it names a table. -/
def lineEntry (line : Bytes) : Option (Bytes × Option Bytes) :=
  let name := trim (line.takeWhile (· ≠ colon))
  let query := (line.dropWhile (· ≠ colon)).tail.dropWhile isBlank
  if name = [] then none else some (name, if query = [] then none else some query)

/-- The tables of a file, line by line. -/
def fileEntries (content : Bytes) : List (Bytes × Option Bytes) :=
  (content.splitOn newline).filterMap lineEntry

/-- The arrays for the tables `entries`, which end with NULL `n + 1` times. -/
def TableLists.ofEntries (entries : List (Bytes × Option Bytes)) (n : ℕ) : TableLists where
  tables := entries.map (fun entry => some entry.1) ++ List.replicate (n + 1) none
  queries := entries.map Prod.snd ++ List.replicate (n + 1) none

/-- **The lists are those of the file's lines**, at most one table for each, for a file without NUL;
with one, the result is -1. -/
def ListsTables (content : Bytes) (after : UInt8) : Prop :=
  if 0 ∈ content then loadTableListFile content after = .ok none
  else (fileEntries content).length ≤ (content.splitOn newline).length ∧
    ∃ n, loadTableListFile content after = .ok (some (.ofEntries (fileEntries content) n))

/-- What the `int` variables do to the size does no harm: the bytes that are loaded have the
file's tables, and a NUL if the file has one. -/
def SizeHarmless (content : Bytes) : Prop :=
  let sz := content.length % 2 ^ 32
  let loaded := content.take sz
  if 2 ^ 31 ≤ sz then 0 ∈ content
  else if sz + 1 = 2 ^ 31 then False
  else if 0 ∈ content then 0 ∈ loaded
  else fileEntries loaded = fileEntries content ∧ loaded.count newline + 2 < 2 ^ 31

/-- The sizes that an `int` can hold do no harm. -/
theorem sizeHarmless_of_lt {content : Bytes} (hlt : content.length + 1 < 2 ^ 31)
    (hlines : content.count newline + 2 < 2 ^ 31) : SizeHarmless content := by
  have hmod : content.length % 2 ^ 32 = content.length := Nat.mod_eq_of_lt (by omega)
  unfold SizeHarmless
  dsimp only
  rw [hmod, List.take_length, if_neg (by omega), if_neg (by omega)]
  split_ifs with h
  · exact h
  · exact ⟨rfl, hlines⟩

/-! ## The loops over a line -/

/-- The string `t` starts at `p` and ends with a NUL. -/
def StringAt (mem : Bytes) (p : ℕ) (t : Bytes) : Prop :=
  NulFree t ∧ ∃ front back, mem = front ++ t ++ 0 :: back ∧ front.length = p

theorem StringAt.append {mem t : Bytes} {p : ℕ} (h : StringAt mem p t) (more : Bytes) :
    StringAt (mem ++ more) p t := by
  obtain ⟨hfree, front, back, rfl, hp⟩ := h
  exact ⟨hfree, front, back ++ more, by simp, hp⟩

theorem StringAt.cstr_eq {mem t : Bytes} {p : ℕ} (h : StringAt mem p t) :
    cstr (mem.drop p) = t := by
  obtain ⟨hfree, front, back, rfl, rfl⟩ := h
  have hbytes : t ++ 0 :: back = cbytes t ++ back := by simp [cbytes]
  rw [List.append_assoc, List.drop_left, hbytes, cstr_cbytes hfree]

namespace ListBuffer

variable {b : ListBuffer} {pre bs t rest : Bytes} {c : UInt8} {p fuel : ℕ}

theorem read_eq (hmem : b.mem = pre ++ c :: rest) : b.read pre.length = .ok c := by
  have hlt : pre.length < b.mem.length := by
    rw [hmem, List.length_append, List.length_cons]
    omega
  rw [read, dif_pos hlt]
  simp [hmem]

theorem terminate_eq (hmem : b.mem = pre ++ c :: rest) :
    b.terminate pre.length = .ok { b with mem := pre ++ 0 :: rest } := by
  have hlt : pre.length < b.mem.length := by
    rw [hmem, List.length_append, List.length_cons]
    omega
  rw [terminate, if_pos hlt, hmem, List.set_append_right _ _ le_rfl, Nat.sub_self,
    List.set_cons_zero]

/-- A loop that goes on over `t`, while `go` holds of a character and its position. -/
theorem scan_eq (loop : ℕ → ℕ → Except Fault ℕ) (go : UInt8 → ℕ → Prop)
    (hgo : ∀ {fuel q d}, b.read q = .ok d → go d q → loop (fuel + 1) q = loop fuel (q + 1))
    (hstop : ∀ {fuel q d}, b.read q = .ok d → ¬ go d q → loop (fuel + 1) q = .ok q)
    (hmem : b.mem = pre ++ t ++ c :: rest) (ht : ∀ d ∈ t, ∀ q < (pre ++ t).length, go d q)
    (hc : ¬ go c (pre ++ t).length) (hfuel : t.length < fuel) :
    loop fuel pre.length = .ok (pre ++ t).length := by
  induction t generalizing pre fuel with
  | nil =>
    obtain ⟨fuel, rfl⟩ := Nat.exists_eq_succ_of_ne_zero (Nat.ne_zero_of_lt hfuel)
    rw [List.append_nil] at hmem hc ⊢
    exact hstop (read_eq hmem) hc
  | cons d t ih =>
    obtain ⟨fuel, rfl⟩ := Nat.exists_eq_succ_of_ne_zero (Nat.ne_zero_of_lt hfuel)
    have hsplit : pre ++ [d] ++ t = pre ++ d :: t := by simp
    have hhere : b.mem = pre ++ d :: (t ++ c :: rest) := by rw [hmem, List.append_assoc]; rfl
    have hlt : pre.length < (pre ++ d :: t).length := by
      rw [List.length_append, List.length_cons]
      omega
    have hnext := ih (hsplit ▸ hmem)
      (fun e he => hsplit ▸ ht e (List.mem_cons_of_mem d he)) (hsplit ▸ hc)
      (Nat.lt_of_succ_lt_succ hfuel)
    rw [hgo (read_eq hhere) (ht d List.mem_cons_self _ hlt)]
    rwa [hsplit, List.length_append] at hnext

theorem skipBlanks_eq (hmem : b.mem = pre ++ bs ++ c :: rest) (hbs : ∀ d ∈ bs, isBlank d)
    (hc : isBlank c = false) (hfuel : bs.length < fuel) :
    b.skipBlanks fuel pre.length = .ok (pre ++ bs).length := by
  refine scan_eq b.skipBlanks (fun d _ => isBlank d) ?_ ?_ hmem (fun d hd _ _ => hbs d hd)
    (Bool.eq_false_iff.1 hc) hfuel
  · intro fuel q d hread hblank
    rw [skipBlanks, hread, ok_bind, if_pos hblank]
  · intro fuel q d hread hblank
    rw [skipBlanks, hread, ok_bind, if_neg hblank]

theorem findColon_eq (hmem : b.mem = pre ++ t ++ c :: rest) (ht : colon ∉ t)
    (hp : (pre ++ t).length ≤ p) (hc : c = colon ∨ (pre ++ t).length = p)
    (hfuel : t.length < fuel) : b.findColon p fuel pre.length = .ok (pre ++ t).length := by
  refine scan_eq (b.findColon p) (fun d q => d ≠ colon ∧ q ≠ p) ?_ ?_ hmem ?_ ?_ hfuel
  · intro fuel q d hread hgo
    rw [findColon, hread, ok_bind, if_pos hgo]
  · intro fuel q d hread hgo
    rw [findColon, hread, ok_bind, if_neg hgo]
  · intro d hd q hq
    exact ⟨fun h => ht (h ▸ hd), by omega⟩
  · rintro ⟨hne, hpne⟩
    exact hc.elim hne hpne

theorem trimBlanks_eq (hmem : b.mem = pre ++ t ++ bs ++ rest) (hbs : ∀ d ∈ bs, isBlank d)
    (ht : ∀ h : t ≠ [], isBlank (t.getLast h) = false) :
    b.trimBlanks pre.length (pre ++ t ++ bs).length = .ok (pre ++ t).length := by
  induction bs using List.reverseRecOn generalizing rest with
  | nil =>
    rw [List.append_nil] at hmem ⊢
    rcases List.eq_nil_or_concat' t with rfl | ⟨t, d, rfl⟩
    · rw [List.append_nil]
      cases hlen : pre.length with
      | zero => rfl
      | succ n =>
        rw [trimBlanks, if_neg (by omega)]
    · have hlen : (pre ++ (t ++ [d])).length = (pre ++ t).length + 1 := by
        rw [← List.append_assoc, List.length_append, List.length_singleton]
      have hd : isBlank d = false := by simpa using ht (by simp)
      have hhere : b.mem = pre ++ t ++ d :: rest := by rw [hmem]; simp
      rw [hlen, trimBlanks, if_pos (by rw [List.length_append]; omega), read_eq hhere, ok_bind, hd]
      rfl
  | append_singleton bs d ih =>
    have hlen : (pre ++ t ++ (bs ++ [d])).length = (pre ++ t ++ bs).length + 1 := by
      rw [← List.append_assoc, List.length_append, List.length_singleton]
    have hd : isBlank d := hbs d (List.mem_append_right _ (List.mem_singleton_self d))
    have hmem' : b.mem = pre ++ t ++ bs ++ d :: rest := by rw [hmem]; simp
    rw [hlen, trimBlanks, if_pos (by simp only [List.length_append]; omega), read_eq hmem', ok_bind,
      if_pos hd]
    exact ih hmem' fun e he => hbs e (List.mem_append_left _ he)

theorem skipQueryBlanks_eq (hmem : b.mem = pre ++ bs ++ c :: rest) (hbs : ∀ d ∈ bs, isBlank d)
    (hp : (pre ++ bs).length ≤ p) (hc : isBlank c = false ∨ (pre ++ bs).length = p)
    (hfuel : bs.length < fuel) :
    b.skipQueryBlanks p fuel pre.length = .ok (pre ++ bs).length := by
  refine scan_eq (b.skipQueryBlanks p) (fun d q => isBlank d ∧ q < p) ?_ ?_ hmem ?_ ?_ hfuel
  · intro fuel q d hread hgo
    rw [skipQueryBlanks, hread, ok_bind, if_pos hgo]
  · intro fuel q d hread hgo
    rw [skipQueryBlanks, hread, ok_bind, if_neg hgo]
  · intro d hd q hq
    exact ⟨hbs d hd, by omega⟩
  · rintro ⟨hblank, hlt⟩
    rcases hc with hc | hc
    · exact Bool.false_ne_true (hc.symm.trans hblank)
    · omega

/-- Behind the line nothing is skipped, whatever is read there. -/
theorem skipQueryBlanks_behind {q : ℕ} (hp : p < q) (hq : q ≤ b.mem.length) :
    b.skipQueryBlanks p (fuel + 1) q = .ok q := by
  have hread : ∃ c, b.read q = .ok c := by
    rw [read]
    split_ifs with hlt heq
    · exact ⟨_, rfl⟩
    · exact ⟨_, rfl⟩
    · omega
  obtain ⟨c, hc⟩ := hread
  rw [skipQueryBlanks, hc, ok_bind, if_neg (by omega)]

/-- **The name of a line** between blanks, before a colon or at the line's end.  A byte `y` follows
it, which is the terminator if there is a name. -/
theorem lineName_eq {bs' u : Bytes} {x : UInt8} (hmem : b.mem = pre ++ bs ++ (t ++ bs') ++ x :: u)
    (hbs : ∀ d ∈ bs, isBlank d) (hbs' : ∀ d ∈ bs', isBlank d)
    (hhead : ∀ d ∈ t.head?, isBlank d = false)
    (hlast : ∀ h : t ≠ [], isBlank (t.getLast h) = false) (hnil : t = [] → bs' = [])
    (hcolon : colon ∉ t ++ bs') (hx : isBlank x = false)
    (hp : (pre ++ bs ++ (t ++ bs')).length ≤ p)
    (hend : x = colon ∨ (pre ++ bs ++ (t ++ bs')).length = p) :
    ∃ y, (t ≠ [] → y = 0) ∧ b.lineName p pre.length =
      .ok ({ b with mem := pre ++ bs ++ t ++ y :: (bs' ++ x :: u).tail },
        if t = [] then none else some (pre ++ bs).length,
        (pre ++ bs ++ (t ++ bs')).length + 1) := by
  have hlen : b.mem.length = (pre ++ bs ++ (t ++ bs')).length + (u.length + 1) := by
    rw [hmem, List.length_append, List.length_cons]
  have hlt : bs.length < b.mem.length + 2 ∧ (t ++ bs').length < b.mem.length + 2 := by
    rw [hlen]
    simp only [List.length_append]
    omega
  obtain ⟨c, r, hcr, hc⟩ : ∃ c r, t ++ bs' ++ x :: u = c :: r ∧ isBlank c = false := by
    rcases t with _ | ⟨d, t⟩
    · rw [hnil rfl]
      exact ⟨x, u, rfl, hx⟩
    · exact ⟨d, _, rfl, hhead d rfl⟩
  have hskip := skipBlanks_eq (hmem.trans (by rw [List.append_assoc, hcr])) hbs hc hlt.1
  have hfind := findColon_eq hmem hcolon hp hend hlt.2
  have hsplit : pre ++ bs ++ (t ++ bs') = pre ++ bs ++ t ++ bs' := (List.append_assoc _ _ _).symm
  have htrim := trimBlanks_eq (hsplit ▸ hmem) hbs' hlast
  rw [hsplit] at hfind ⊢
  rw [lineName, hskip, ok_bind, hfind, ok_bind, htrim, ok_bind]
  by_cases ht : t = []
  · refine ⟨x, fun h => absurd ht h, ?_⟩
    have hmem' : b.mem = pre ++ bs ++ t ++ x :: (bs' ++ x :: u).tail := by
      rw [hmem, ht, hnil ht]
      simp
    rw [if_pos (by simp [ht]), if_pos ht, ← hmem']
  · refine ⟨0, fun _ => rfl, ?_⟩
    obtain ⟨y, w, hyw⟩ := List.exists_cons_of_ne_nil
      (List.append_ne_nil_of_right_ne_nil bs' (List.cons_ne_nil x u))
    have hmem' : b.mem = pre ++ bs ++ t ++ y :: w := by
      rw [hmem, ← hyw]
      simp
    have hpos := List.length_pos_of_ne_nil ht
    rw [if_neg (by simp only [List.length_append]; omega), if_neg ht, terminate_eq hmem', hyw]
    rfl

/-- **The query of a line** behind blanks, before the line's end. -/
theorem lineQuery_eq {x : UInt8} (hmem : b.mem = pre ++ bs ++ t ++ x :: rest)
    (hbs : ∀ d ∈ bs, isBlank d) (hhead : ∀ d ∈ t.head?, isBlank d = false) :
    ∃ z, (t ≠ [] → z = 0) ∧ b.lineQuery (pre ++ bs ++ t).length pre.length =
      .ok ({ b with mem := pre ++ bs ++ t ++ z :: rest },
        if t = [] then none else some (pre ++ bs).length) := by
  have hlt : bs.length < b.mem.length + 2 := by
    rw [hmem]
    simp only [List.length_append]
    omega
  have hle : (pre ++ bs).length ≤ (pre ++ bs ++ t).length := by
    simp only [List.length_append]
    omega
  by_cases ht : t = []
  · subst ht
    rw [List.append_nil] at hmem hle ⊢
    refine ⟨x, fun h => absurd rfl h, ?_⟩
    rw [lineQuery, skipQueryBlanks_eq hmem hbs hle (Or.inr rfl) hlt, ok_bind, if_pos le_rfl,
      if_pos rfl, ← hmem]
  · obtain ⟨d, r, rfl⟩ := List.exists_cons_of_ne_nil ht
    refine ⟨0, fun _ => rfl, ?_⟩
    have hmem' : b.mem = pre ++ bs ++ d :: (r ++ x :: rest) := by
      rw [hmem, List.append_assoc]
      rfl
    rw [lineQuery, skipQueryBlanks_eq hmem' hbs hle (Or.inl (hhead d rfl)) hlt, ok_bind,
      if_neg (by simp only [List.length_append, List.length_cons]; omega), if_neg ht,
      terminate_eq hmem]
    rfl

end ListBuffer

/-! ## A line -/

/-- The positions of a table's name and of its query, or NULL. -/
def TableAt (mem : Bytes) (ptrs : ℕ × Option ℕ) (entry : Bytes × Option Bytes) : Prop :=
  StringAt mem ptrs.1 entry.1 ∧ Option.Rel (StringAt mem) ptrs.2 entry.2

/-- The positions that are found in a line, against its entry. -/
def EntryAt (mem : Bytes) (table query : Option ℕ) : Option (Bytes × Option Bytes) → Prop
  | none => table = none
  | some entry => ∃ p, table = some p ∧ TableAt mem (p, query) entry

theorem head?_dropWhile {p : UInt8 → Bool} (l : Bytes) :
    ∀ d ∈ (l.dropWhile p).head?, p d = false := by
  intro d hd
  have h := List.head?_dropWhile_not p l
  rw [Option.mem_def.1 hd] at h
  exact h

/-- A line is blanks, a name, blanks, and perhaps a colon with what follows it. -/
structure LineParts (line bs t bs' tl : Bytes) : Prop where
  eq : line = bs ++ (t ++ bs') ++ tl
  blank : ∀ d ∈ bs, isBlank d
  blank' : ∀ d ∈ bs', isBlank d
  head : ∀ d ∈ t.head?, isBlank d = false
  last : ∀ h : t ≠ [], isBlank (t.getLast h) = false
  nil : t = [] → bs' = []
  noColon : colon ∉ t ++ bs'
  colon : ∀ c ∈ tl.head?, c = colon
  entry : lineEntry line = if t = [] then none else
    some (t, if tl.tail.dropWhile isBlank = [] then none else some (tl.tail.dropWhile isBlank))

theorem exists_lineParts (line : Bytes) : ∃ bs t bs' tl, LineParts line bs t bs' tl := by
  obtain ⟨raw, tl, hraw, htl⟩ : ∃ raw tl, raw = line.takeWhile (· ≠ colon) ∧
      tl = line.dropWhile (· ≠ colon) := ⟨_, _, rfl, rfl⟩
  obtain ⟨core, hcore⟩ : ∃ core, core = raw.dropWhile isBlank := ⟨_, rfl⟩
  have hparts : core.rdropWhile isBlank ++ core.rtakeWhile isBlank = core :=
    List.rdropWhile_append_rtakeWhile
  have hhead : ∀ d ∈ core.head?, isBlank d = false := hcore ▸ head?_dropWhile raw
  refine ⟨raw.takeWhile isBlank, core.rdropWhile isBlank, core.rtakeWhile isBlank, tl, ?_⟩
  constructor
  case eq =>
    rw [hparts, hcore, List.takeWhile_append_dropWhile, hraw, htl, List.takeWhile_append_dropWhile]
  case blank => exact fun d hd => List.mem_takeWhile_imp hd
  case blank' => exact fun d hd => List.mem_rtakeWhile_imp hd
  case head =>
    intro d hd
    refine hhead d ?_
    rw [← hparts, List.head?_append, Option.mem_def.1 hd]
    rfl
  case last => exact fun h => Bool.eq_false_iff.2 (List.rdropWhile_last_not isBlank core h)
  case nil =>
    intro h
    have hall := List.rdropWhile_eq_nil_iff.1 h
    rcases core with _ | ⟨d, core⟩
    · rfl
    · exact absurd (hall d List.mem_cons_self) (by rw [hhead d rfl]; decide)
  case noColon =>
    rw [hparts, hcore]
    intro hmem
    have h := List.mem_takeWhile_imp (hraw ▸ (List.dropWhile_sublist isBlank).mem hmem)
    simp at h
  case colon =>
    intro c hc
    have h := head?_dropWhile (p := (· ≠ colon)) line c (htl ▸ hc)
    simpa using h
  case entry =>
    rw [lineEntry, ← hraw, ← htl, trim, ← hcore]

/-- **A line is cut in place**: only its own bytes change, and the positions found in them are those
of its name and its query. -/
def CutsLine (b : ListBuffer) (pre line rest : Bytes) : Prop :=
  ∃ b' qb table query seg, b.lineName (pre ++ line).length pre.length = .ok (b', table, qb) ∧
    b'.lineQuery (pre ++ line).length qb = .ok ({ b with mem := pre ++ seg ++ rest }, query) ∧
    seg.length = line.length + 1 ∧ EntryAt (pre ++ seg) table query (lineEntry line)

section
variable {b : ListBuffer} {pre line rest bs t bs' : Bytes} {x : UInt8}

/-- Without a colon there is no query, and what is read behind the line is not used. -/
theorem cutsLine_noColon (hparts : LineParts line bs t bs' [])
    (hmem : b.mem = pre ++ line ++ x :: rest) (hline : NulFree line) (hx : isBlank x = false) :
    CutsLine b pre line rest := by
  have hfree : NulFree t := fun h => hline (by rw [hparts.eq]; simp [h])
  rw [CutsLine, hparts.entry]
  have hsplit : line = bs ++ (t ++ bs') := by rw [hparts.eq, List.append_nil]
  rw [hsplit, ← List.append_assoc] at hmem ⊢
  obtain ⟨y, hy, hcut⟩ := ListBuffer.lineName_eq hmem hparts.blank hparts.blank' hparts.head
    hparts.last hparts.nil hparts.noColon hx le_rfl (Or.inr rfl)
  have htail : (bs' ++ x :: rest).tail = (bs' ++ [x]).tail ++ rest := by cases bs' <;> simp
  rw [htail] at hcut
  refine ⟨_, _, _, none, bs ++ t ++ y :: (bs' ++ [x]).tail, hcut, ?_, ?_, ?_⟩
  · rw [ListBuffer.lineQuery, ListBuffer.skipQueryBlanks_behind (Nat.lt_succ_self _), ok_bind,
      if_pos (Nat.le_succ _)]
    · simp
    · simp only [List.length_append, List.length_cons, List.length_tail, List.length_nil]
      omega
  · simp only [List.length_append, List.length_cons, List.length_tail, List.length_nil]
    omega
  · by_cases ht : t = []
    · rw [if_pos ht, if_pos ht]
      rfl
    · rw [if_neg ht, if_neg ht, hy ht]
      refine ⟨_, rfl, ⟨hfree, pre ++ bs, (bs' ++ [x]).tail, by simp, rfl⟩, ?_⟩
      exact .none

/-- The query starts behind the colon. -/
theorem cutsLine_colon {qs : Bytes} (hparts : LineParts line bs t bs' (colon :: qs))
    (hmem : b.mem = pre ++ line ++ x :: rest) (hline : NulFree line) :
    CutsLine b pre line rest := by
  have hfree : NulFree t := fun h => hline (by rw [hparts.eq]; simp [h])
  rw [CutsLine, hparts.entry]
  obtain ⟨qbs, q, hqbs, hq⟩ : ∃ qbs q, qbs = qs.takeWhile isBlank ∧ q = qs.dropWhile isBlank :=
    ⟨_, _, rfl, rfl⟩
  have hqs : qs = qbs ++ q := by rw [hqbs, hq, List.takeWhile_append_dropWhile]
  have hqfree : NulFree q := fun h => hline (by rw [hparts.eq, hqs]; simp [h])
  rw [List.tail_cons, ← hq]
  have hmem' : b.mem = pre ++ bs ++ (t ++ bs') ++ colon :: (qs ++ x :: rest) := by
    rw [hmem, hparts.eq]
    simp
  have hp : (pre ++ bs ++ (t ++ bs')).length ≤ (pre ++ line).length := by
    rw [hparts.eq]
    simp only [List.length_append]
    omega
  obtain ⟨y, hy, hcut⟩ := ListBuffer.lineName_eq hmem' hparts.blank hparts.blank' hparts.head
    hparts.last hparts.nil hparts.noColon rfl hp (Or.inl rfl)
  -- what is before the query when it is looked for
  obtain ⟨pre', hpre'⟩ : ∃ pre', pre' = pre ++ bs ++ t ++ y :: (bs' ++ [colon]).tail := ⟨_, rfl⟩
  have hlen' : pre'.length = (pre ++ bs ++ (t ++ bs')).length + 1 := by
    rw [hpre']
    simp only [List.length_append, List.length_cons, List.length_tail, List.length_nil]
    omega
  have hend : (pre ++ line).length = (pre' ++ qbs ++ q).length := by
    rw [hparts.eq, hqs]
    simp only [List.length_append, List.length_cons, hlen']
    omega
  have hbuffer : pre ++ bs ++ t ++ y :: (bs' ++ colon :: (qs ++ x :: rest)).tail =
      pre' ++ qbs ++ q ++ x :: rest := by
    rw [hpre', hqs]
    cases bs' <;> simp
  rw [← hlen', hbuffer] at hcut
  obtain ⟨z, hz, hquery⟩ := ListBuffer.lineQuery_eq
    (b := { b with mem := pre' ++ qbs ++ q ++ x :: rest }) rfl
    (fun d hd => List.mem_takeWhile_imp (hqbs ▸ hd)) (hq ▸ head?_dropWhile qs)
  have hseg : pre' ++ qbs ++ q ++ z :: rest =
      pre ++ (bs ++ t ++ y :: (bs' ++ [colon]).tail ++ qbs ++ q ++ [z]) ++ rest := by
    rw [hpre']
    simp
  rw [← hend, hseg] at hquery
  refine ⟨_, _, _, _, _, hcut, hquery, ?_, ?_⟩
  · rw [hparts.eq, hqs]
    simp only [List.length_append, List.length_cons, List.length_tail, List.length_nil]
    omega
  · by_cases ht : t = []
    · rw [if_pos ht, if_pos ht]
      rfl
    · rw [if_neg ht, if_neg ht, hy ht]
      refine ⟨_, rfl, ⟨hfree, pre ++ bs, (bs' ++ [colon]).tail ++ qbs ++ q ++ [z], by simp, rfl⟩,
        ?_⟩
      by_cases hq0 : q = []
      · rw [if_pos hq0, if_pos hq0]
        exact .none
      · rw [if_neg hq0, if_neg hq0, hz hq0]
        refine .some ⟨hqfree, pre' ++ qbs, [], ?_, rfl⟩
        rw [hpre', hy ht]
        simp

theorem cutsLine (hmem : b.mem = pre ++ line ++ x :: rest) (hline : NulFree line)
    (hx : isBlank x = false) : CutsLine b pre line rest := by
  obtain ⟨bs, t, bs', tl, hparts⟩ := exists_lineParts line
  rcases tl with _ | ⟨c, qs⟩
  · exact cutsLine_noColon hparts hmem hline hx
  · obtain rfl := hparts.colon c rfl
    exact cutsLine_colon hparts hmem hline

end

/-! ## The loop over the buffer -/

theorem TableAt.append {mem : Bytes} {ptrs : ℕ × Option ℕ} {entry : Bytes × Option Bytes}
    (h : TableAt mem ptrs entry) (more : Bytes) : TableAt (mem ++ more) ptrs entry := by
  obtain ⟨p, query⟩ := ptrs
  obtain ⟨name, text⟩ := entry
  obtain ⟨hname, hquery⟩ := h
  refine ⟨hname.append more, ?_⟩
  cases hquery with
  | none => exact .none
  | some h => exact .some (h.append more)

/-- The arrays hold the positions of the tables `entries`, and NULL behind them `free` times. -/
structure StoredTables (s : ListParser) (mem : Bytes) (entries : List (Bytes × Option Bytes))
    (free : ℕ) : Prop where
  exists_ptrs : ∃ ptrs : List (ℕ × Option ℕ), s.curTable = ptrs.length ∧
    s.tableArray = ptrs.map (fun ptr => some ptr.1) ++ List.replicate free none ∧
    s.queryArray = ptrs.map Prod.snd ++ List.replicate free none ∧
    List.Forall₂ (TableAt mem) ptrs entries

section
variable {s : ListParser} {mem pre line rest : Bytes} {entries : List (Bytes × Option Bytes)}
  {free tail : ℕ}

theorem StoredTables.append (h : StoredTables s mem entries free) (more : Bytes) :
    StoredTables s (mem ++ more) entries free := by
  obtain ⟨ptrs, hcur, htables, hqueries, hall⟩ := h
  exact ⟨ptrs, hcur, htables, hqueries, hall.imp fun _ _ h => h.append more⟩

/-- A table is added while there is room. -/
theorem StoredTables.add (h : StoredTables s mem entries (free + 1)) {p : ℕ} {query : Option ℕ}
    {entry : Bytes × Option Bytes} (hat : TableAt mem (p, query) entry) :
    ∃ s', s.add (some p) query = .ok s' ∧ StoredTables s' mem (entries ++ [entry]) free ∧
      s'.buffer = s.buffer ∧ s'.p = s.p ∧ s'.tableBegin = s.tableBegin := by
  obtain ⟨ptrs, hcur, htables, hqueries, hall⟩ := h
  have hlt : s.curTable < s.tableArray.length := by
    rw [hcur, htables, List.length_append, List.length_map, List.length_replicate]
    omega
  refine ⟨_, if_pos hlt, ⟨ptrs ++ [(p, query)], ?_, ?_, ?_, ?_⟩, rfl, rfl, rfl⟩
  · simp [hcur]
  · simp [hcur, htables, List.set_append_right, List.replicate_succ]
  · simp [hcur, hqueries, List.set_append_right, List.replicate_succ]
  · exact List.rel_append hall (.cons hat .nil)

namespace ListParser

/-- Inside a line only `p` goes on. -/
theorem run_inside (hmem : s.buffer.mem = pre ++ line ++ rest) (hp : s.p = pre.length)
    (hline : newline ∉ line) (htail : (pre ++ line).length ≤ tail) (n : ℕ) :
    run tail (line.length + n) s = run tail n { s with p := (pre ++ line).length } := by
  induction line generalizing pre s with
  | nil =>
    rw [List.append_nil, ← hp, List.length_nil, Nat.zero_add]
  | cons c line ih =>
    obtain ⟨hc, hline⟩ := not_or.1 (mt List.mem_cons.2 hline)
    have hsplit : pre ++ [c] ++ line = pre ++ c :: line := by simp
    have hhere : s.buffer.mem = pre ++ c :: (line ++ rest) := by rw [hmem, List.append_assoc]; rfl
    have hlt : s.p ≠ tail := by
      rw [hp]
      simp only [List.length_append, List.length_cons] at htail
      omega
    have hstep : run tail (line.length + n + 1) s =
        run tail (line.length + n) { s with p := s.p + 1 } := by
      have hread : s.buffer.read s.p = .ok c := by rw [hp, ListBuffer.read_eq hhere]
      rw [run, hread, ok_bind, if_neg]
      · rfl
      · rintro (h | h)
        · exact hc h.symm
        · exact hlt h
    have hnext := @ih { s with p := s.p + 1 } (pre ++ [c]) (hmem.trans (by rw [← hsplit]))
      (by rw [hp, List.length_append]; rfl) hline (hsplit ▸ htail)
    rw [hsplit] at hnext
    rw [List.length_cons, Nat.add_right_comm, hstep, hnext]

/-- **The end of a line**: the line's table is stored, if it names one. -/
theorem endLine_eq {x : UInt8} (hmem : s.buffer.mem = pre ++ line ++ x :: rest)
    (hbegin : s.tableBegin = pre.length) (hp : s.p = (pre ++ line).length)
    (hline : NulFree line) (hx : isBlank x = false) (hs : StoredTables s pre entries (free + 1)) :
    ∃ s' seg free', s.endLine = .ok s' ∧ s'.buffer.mem = pre ++ seg ++ rest ∧ s'.p = s.p ∧
      s'.tableBegin = s.p + 1 ∧ seg.length = line.length + 1 ∧ free ≤ free' ∧
      StoredTables s' (pre ++ seg) (entries ++ (lineEntry line).toList) free' := by
  obtain ⟨b', qb, table, query, seg, hname, hquery, hseg, hentry⟩ := cutsLine hmem hline hx
  rw [← hp, ← hbegin] at hname
  rw [← hp] at hquery
  have hstored : StoredTables { s with
      buffer := { s.buffer with mem := pre ++ seg ++ rest }, tableBegin := s.p + 1 }
      (pre ++ seg) entries (free + 1) := ⟨(hs.append seg).exists_ptrs⟩
  rw [endLine, hname, ok_bind]
  dsimp only
  rw [hquery, ok_bind]
  dsimp only
  cases he : lineEntry line with
  | none =>
    rw [he] at hentry
    obtain rfl : table = none := hentry
    refine ⟨_, seg, free + 1, rfl, rfl, rfl, rfl, hseg, Nat.le_succ free, ?_⟩
    simpa using hstored
  | some entry =>
    rw [he] at hentry
    obtain ⟨p, rfl, hat⟩ := hentry
    obtain ⟨s', hadd, hs', hbuffer, hp', hbegin'⟩ := hstored.add hat
    refine ⟨s', seg, free, hadd, ?_, hp', hbegin', hseg, le_rfl, hs'⟩
    rw [hbuffer]

/-- **The loop at the end of a line**, which is the end of the buffer or a line end. -/
theorem run_endLine {x : UInt8} {n : ℕ} (hmem : s.buffer.mem = pre ++ line ++ x :: rest)
    (hp : s.p = pre.length) (hbegin : s.tableBegin = pre.length) (hline : NulFree line)
    (hnl : newline ∉ line) (hx : isBlank x = false) (htail : (pre ++ line).length ≤ tail)
    (hend : x = newline ∨ (pre ++ line).length = tail)
    (hs : StoredTables s pre entries (free + 1)) :
    ∃ s' seg free', run tail (line.length + (n + 1)) s = run tail n s' ∧
      s'.buffer.mem = pre ++ seg ++ rest ∧ s'.p = (pre ++ seg).length ∧
      s'.tableBegin = (pre ++ seg).length ∧ seg.length = line.length + 1 ∧ free ≤ free' ∧
      StoredTables s' (pre ++ seg) (entries ++ (lineEntry line).toList) free' := by
  obtain ⟨s₁, hs₁⟩ : ∃ s₁, s₁ = { s with p := (pre ++ line).length } := ⟨_, rfl⟩
  have hmem₁ : s₁.buffer.mem = pre ++ line ++ x :: rest := by rw [hs₁, hmem]
  have hp₁ : s₁.p = (pre ++ line).length := by rw [hs₁]
  have hstored : StoredTables s₁ pre entries (free + 1) := by
    rw [hs₁]
    exact ⟨hs.exists_ptrs⟩
  obtain ⟨s', seg, free', hcut, hbuffer, hp', hbegin', hseg, hle, hs'⟩ :=
    endLine_eq hmem₁ (by rw [hs₁, hbegin]) hp₁ hline hx hstored
  have hread : s₁.buffer.read s₁.p = .ok x := by rw [hp₁, ListBuffer.read_eq hmem₁]
  have hpos : s₁.p + 1 = (pre ++ seg).length := by
    rw [hp₁, List.length_append, List.length_append, hseg]
    rfl
  refine ⟨{ s' with p := s'.p + 1 }, seg, free', ?_, hbuffer, ?_, ?_, hseg, hle,
    ⟨hs'.exists_ptrs⟩⟩
  · rw [run_inside hmem hp hnl htail, ← hs₁, run, hread, ok_bind, if_pos (hp₁ ▸ hend), hcut,
      ok_bind]
  · exact (congrArg (· + 1) hp').trans hpos
  · exact hbegin'.trans hpos

/-- **The loop stores the tables of the lines from `p` on**, if the arrays have room for one table a
line. -/
theorem run_eq {content : Bytes} (hmem : s.buffer.mem = pre ++ content ++ [0])
    (hcontent : NulFree content) (hp : s.p = pre.length) (hbegin : s.tableBegin = pre.length)
    (hs : StoredTables s pre entries (free + (content.splitOn newline).length)) :
    ∃ s' free', run (pre ++ content).length (content.length + 1) s = .ok s' ∧ free ≤ free' ∧
      StoredTables s' s'.buffer.mem (entries ++ fileEntries content) free' := by
  induction hn : content.length using Nat.strong_induction_on generalizing content pre s entries
    free with
  | _ n ih =>
  subst hn
  by_cases hnl : newline ∈ content
  · obtain ⟨line, rest, rfl, hline⟩ := List.eq_append_cons_of_mem hnl
    have hlines : (line ++ newline :: rest).splitOn newline = line :: rest.splitOn newline :=
      List.splitOn_append_cons_self_of_not_mem hline rest
    have hroom : StoredTables s pre entries (free + (rest.splitOn newline).length + 1) := by
      rwa [hlines] at hs
    have hmem' : s.buffer.mem = pre ++ line ++ newline :: (rest ++ [0]) := by
      rw [hmem]
      simp
    have hbound : (pre ++ line).length ≤ (pre ++ (line ++ newline :: rest)).length := by
      simp only [List.length_append]
      omega
    obtain ⟨s₁, seg, free₁, hrun, hmem₁, hp₁, hbegin₁, hseg, hle, hs₁⟩ := run_endLine
      (n := rest.length + 1) hmem' hp hbegin (fun h => hcontent (List.mem_append_left _ h)) hline
      rfl hbound (Or.inl rfl) hroom
    obtain ⟨free₂, rfl⟩ : ∃ free₂, free₁ = free₂ + (rest.splitOn newline).length :=
      Nat.exists_eq_add_of_le' (Nat.le_of_add_left_le hle)
    obtain ⟨s', free', hrun', hle', hs'⟩ := ih rest.length
      (by simp only [List.length_append, List.length_cons]; omega)
      (hmem₁.trans (List.append_assoc _ _ _).symm)
      (fun h => hcontent (List.mem_append_right _ (List.mem_cons_of_mem _ h))) hp₁ hbegin₁ hs₁ rfl
    have htail : (pre ++ (line ++ newline :: rest)).length = (pre ++ seg ++ rest).length := by
      simp only [List.length_append, List.length_cons, hseg]
      omega
    have hsteps : (line ++ newline :: rest).length + 1 = line.length + (rest.length + 1 + 1) := by
      rw [List.length_append, List.length_cons, Nat.add_assoc]
    have hentries : fileEntries (line ++ newline :: rest) =
        (lineEntry line).toList ++ fileEntries rest := by
      rw [fileEntries, hlines, List.filterMap_cons]
      cases lineEntry line <;> rfl
    refine ⟨s', free', ?_, by omega, ?_⟩
    · rw [hsteps, hrun, htail, hrun']
    · rwa [hentries, ← List.append_assoc]
  · have hlines : content.splitOn newline = [content] := List.splitOn_eq_singleton hnl
    rw [hlines] at hs
    obtain ⟨s', seg, free', hrun, hmem', -, -, -, hle, hs'⟩ := run_endLine
      (n := 0) hmem hp hbegin hcontent hnl rfl le_rfl (Or.inr rfl) hs
    have hentries : fileEntries content = (lineEntry content).toList := by
      rw [fileEntries, hlines]
      cases h : lineEntry content <;> simp [h]
    refine ⟨s', free', hrun, hle, ?_⟩
    rwa [hmem', List.append_nil, hentries]

end ListParser

end

/-! ## The file -/

theorem countLines_eq (t : Bytes) :
    countLines t = if 0 ∈ t then none else some (t.count newline) := by
  induction t with
  | nil => rfl
  | cons c t ih =>
    rw [countLines, ih, List.count_cons]
    by_cases hc : c = 0
    · rw [if_pos hc, if_pos (List.mem_cons.2 (Or.inl hc.symm))]
    · by_cases ht : 0 ∈ t
      · rw [if_neg hc, if_pos ht, if_pos (List.mem_cons_of_mem c ht)]
        rfl
      · have hnot : 0 ∉ c :: t := fun h => (List.mem_cons.1 h).elim (fun h => hc h.symm) ht
        rw [if_neg hc, if_neg ht, if_neg hnot, Option.map_some]
        by_cases hn : c = newline <;> simp [hn]

theorem length_splitOn (t : Bytes) : (t.splitOn newline).length = t.count newline + 1 := by
  induction t with
  | nil => rfl
  | cons c t ih =>
    rw [List.splitOn_cons_eq_if_modifyHead, List.count_cons]
    by_cases hc : c == newline
    · rw [if_pos hc, if_pos hc, List.length_cons, ih]
    · rw [if_neg hc, if_neg hc, List.length_modifyHead, ih]

theorem length_fileEntries (t : Bytes) :
    (fileEntries t).length ≤ (t.splitOn newline).length := List.length_filterMap_le _ _

/-- The strings at the positions that are stored. -/
theorem StoredTables.lists {s : ListParser} {entries : List (Bytes × Option Bytes)} {n : ℕ}
    (h : StoredTables s s.buffer.mem entries (n + 1)) :
    TableLists.mk (s.tableArray.map (Option.map fun p => cstr (s.buffer.mem.drop p)))
      (s.queryArray.map (Option.map fun p => cstr (s.buffer.mem.drop p))) =
    .ofEntries entries n := by
  obtain ⟨ptrs, -, htables, hqueries, hall⟩ := h
  have hmap : ptrs.map (fun ptr => (cstr (s.buffer.mem.drop ptr.1),
      ptr.2.map fun p => cstr (s.buffer.mem.drop p))) = entries := by
    clear htables hqueries
    induction hall with
    | nil => rfl
    | @cons ptr entry _ _ hat _ ih =>
      obtain ⟨p, query⟩ := ptr
      obtain ⟨name, text⟩ := entry
      obtain ⟨hname, hquery⟩ := hat
      have hq : (query.map fun p => cstr (s.buffer.mem.drop p)) = text := by
        cases hquery with
        | none => rfl
        | some h => exact congrArg some h.cstr_eq
      rw [List.map_cons, ih, hname.cstr_eq, hq]
  rw [TableLists.ofEntries, htables, hqueries, ← hmap]
  simp [Function.comp_def]

/-- Of arrays that end with NULL the tables can be read off. -/
theorem TableLists.ofEntries_inj {es es' : List (Bytes × Option Bytes)} {n n' : ℕ}
    (h : TableLists.ofEntries es n = .ofEntries es' n') : es = es' := by
  obtain ⟨htables, hqueries⟩ := TableLists.mk.inj h
  have hnames : ∀ (es : List (Bytes × Option Bytes)) (n : ℕ),
      (es.map (fun entry : Bytes × Option Bytes => some entry.1) ++
        List.replicate (n + 1) none).takeWhile Option.isSome =
          es.map fun entry => some entry.1 := by
    intro es n
    rw [List.takeWhile_append_of_pos, List.replicate_succ, List.takeWhile_cons_of_neg (by simp),
      List.append_nil]
    intro name hname
    obtain ⟨entry, -, rfl⟩ := List.mem_map.1 hname
    rfl
  have hfst : es.map (fun entry => some entry.1) = es'.map fun entry => some entry.1 := by
    rw [← hnames es n, htables, hnames]
  have hlen : es.length = es'.length := by simpa using congrArg List.length hfst
  have hsnd : es.map Prod.snd = es'.map Prod.snd :=
    (List.append_inj hqueries (by simpa using hlen)).1
  refine List.ext_getElem hlen fun i hi hi' => ?_
  have h1 := List.getElem_of_eq hfst (i := i) (by simpa using hi)
  have h2 := List.getElem_of_eq hsnd (i := i) (by simpa using hi)
  simp only [List.getElem_map, Option.some.injEq] at h1 h2
  exact Prod.ext h1 h2

section
variable {content : Bytes}

theorem load_negative (h : 2 ^ 31 ≤ content.length % 2 ^ 32) (after : UInt8) :
    loadTableListFile content after = .ok none := by
  have hneg : toInt (content.length % 2 ^ 32) < 0 := by
    rw [toInt, if_neg (by omega)]
    omega
  rw [loadTableListFile]
  exact if_pos hneg

theorem load_exit (h : content.length % 2 ^ 32 + 1 = 2 ^ 31) (after : UInt8) :
    loadTableListFile content after = .error .exit := by
  have hsz : toInt (content.length % 2 ^ 32) = 2 ^ 31 - 1 := by
    rw [toInt, if_pos (by omega)]
    omega
  rw [loadTableListFile, hsz]
  rfl

/-- **A file whose size is not too large** is loaded up to it, and the lists are those of the loaded
bytes. -/
theorem load_eq (h : content.length % 2 ^ 32 + 1 < 2 ^ 31) (after : UInt8) :
    ∃ n, loadTableListFile content after =
      let loaded := content.take (content.length % 2 ^ 32)
      if 0 ∈ loaded then .ok none
      else if loaded.count newline + 2 = 2 ^ 31 then .error .exit
      else .ok (some (.ofEntries (fileEntries loaded) n)) := by
  have hsz : toInt (content.length % 2 ^ 32) = ((content.length % 2 ^ 32 : ℕ) : ℤ) :=
    if_pos (by omega)
  obtain ⟨loaded, hloaded⟩ : ∃ loaded, loaded = content.take (content.length % 2 ^ 32) :=
    ⟨_, rfl⟩
  rw [loadTableListFile]
  dsimp only
  rw [hsz, if_neg (by omega), if_neg (by omega), Int.toNat_natCast, ← hloaded, countLines_eq]
  by_cases hzero : 0 ∈ loaded
  · exact ⟨0, by rw [if_pos hzero, if_pos hzero]⟩
  by_cases hcount : loaded.count newline + 2 = 2 ^ 31
  · refine ⟨0, ?_⟩
    rw [if_neg hzero, if_neg hzero, if_pos hcount]
    exact if_pos hcount
  obtain ⟨array, harray⟩ : ∃ array : List (Option ℕ),
      array = List.replicate (loaded.count newline + 1 + 1) none := ⟨_, rfl⟩
  obtain ⟨s, hs⟩ : ∃ s : ListParser, s = ⟨⟨loaded ++ [0], after⟩, 0, 0, 0, array, array⟩ :=
    ⟨_, rfl⟩
  have hstored : StoredTables s [] [] (1 + (loaded.splitOn newline).length) := by
    refine ⟨[], by rw [hs]; rfl, ?_, ?_, .nil⟩ <;>
      rw [hs, length_splitOn, Nat.add_comm 1] <;> exact harray
  obtain ⟨s', free, hrun, hpos, hs'⟩ := ListParser.run_eq (s := s) (by rw [hs]; rfl) hzero
    (by rw [hs]; rfl) (by rw [hs]; rfl) hstored
  obtain ⟨n, rfl⟩ := Nat.exists_eq_add_of_le' hpos
  rw [List.nil_append] at hrun hs'
  refine ⟨n, ?_⟩
  rw [if_neg hzero, if_neg hzero, if_neg hcount]
  dsimp only
  rw [if_neg hcount, ← harray, ← hs, hrun, ok_bind, hs'.lists]

end

/-- **The lists are those of the file's lines**, whatever follows the buffer, exactly if its size
does no harm. -/
theorem listsTables_iff (content : Bytes) (after : UInt8) :
    ListsTables content after ↔ SizeHarmless content := by
  unfold ListsTables SizeHarmless
  dsimp only
  by_cases hneg : 2 ^ 31 ≤ content.length % 2 ^ 32
  · rw [if_pos hneg, load_negative hneg]
    split_ifs with hzero
    · exact iff_of_true rfl hzero
    · refine iff_of_false ?_ hzero
      rintro ⟨-, n, h⟩
      cases h
  rw [if_neg hneg]
  by_cases hexit : content.length % 2 ^ 32 + 1 = 2 ^ 31
  · rw [if_pos hexit, load_exit hexit]
    refine iff_of_false ?_ id
    split_ifs
    · nofun
    · rintro ⟨-, n, h⟩
      cases h
  rw [if_neg hexit]
  have hlt : content.length % 2 ^ 32 + 1 < 2 ^ 31 := by omega
  obtain ⟨n, hload⟩ := load_eq hlt after
  rw [hload]
  dsimp only
  have hcount : (content.take (content.length % 2 ^ 32)).count newline ≤ content.length % 2 ^ 32 :=
    List.count_le_length.trans (List.length_take_le _ _)
  by_cases hzero : 0 ∈ content.take (content.length % 2 ^ 32)
  · have hmem : 0 ∈ content := List.mem_of_mem_take hzero
    rw [if_pos hmem, if_pos hmem, if_pos hzero]
    exact iff_of_true rfl hzero
  by_cases hlines : (content.take (content.length % 2 ^ 32)).count newline + 2 = 2 ^ 31
  · rw [if_neg hzero, if_pos hlines]
    split_ifs
    · exact iff_of_false nofun hzero
    · refine iff_of_false ?_ fun h => absurd h.2 (by omega)
      rintro ⟨-, n', h⟩
      cases h
  rw [if_neg hzero, if_neg hlines]
  split_ifs
  · exact iff_of_false nofun hzero
  · constructor
    · rintro ⟨-, n', h⟩
      exact ⟨TableLists.ofEntries_inj (Option.some.inj (Except.ok.inj h)), by omega⟩
    · rintro ⟨heq, -⟩
      exact ⟨length_fileEntries content, n, by rw [heq]⟩

/-- Two tables, one with a query. -/
example : loadTableListFile (ascii "t1 : select 1\n\n :x\n\tt 2 ") (ch ' ') =
    .ok (some (.ofEntries [(ascii "t1", some (ascii "select 1")), (ascii "t 2", none)] 2)) := by
  decide +kernel

/-- A file of 2 GiB without a NUL. -/
theorem tooLarge_twoGiB :
    loadTableListFile (List.replicate (2 ^ 31) (ch 'a')) 0 = .ok none ∧
      ¬ ListsTables (List.replicate (2 ^ 31) (ch 'a')) 0 := by
  obtain ⟨content, hcontent⟩ : ∃ content, content = List.replicate (2 ^ 31) (ch 'a') := ⟨_, rfl⟩
  have hlen : content.length = 2 ^ 31 := by rw [hcontent, List.length_replicate]
  have hzero : 0 ∉ content := by
    rw [hcontent]
    intro h
    exact absurd (List.eq_of_mem_replicate h) (by decide)
  rw [← hcontent]
  have hneg : 2 ^ 31 ≤ content.length % 2 ^ 32 := by omega
  have hload := load_negative hneg 0
  refine ⟨hload, fun h => ?_⟩
  rw [ListsTables, if_neg hzero, hload] at h
  obtain ⟨-, n, h⟩ := h
  cases h

end RdsDbsync
