/-
  A text against the list of items that it should consist of: keywords, symbols, names
  and constants.

  The text is written in pieces, each with the item that it stands for.  `reads_iff`:
  where a piece can stand for its item in its place only, the text reads as the items
  exactly if every piece stands for its own.
-/
import RdsDbsync.Lib.SqlLex
import RdsDbsync.Lib.SqlText

namespace SqlLex

open Bytes Csv

/-! ## Items -/

inductive Item where
  | keyword (w : Bytes)
  | symbol (c : UInt8)
  | name (n : Bytes)
  /-- a string, or a number that may have a minus sign -/
  | const (v : Bytes)
  deriving DecidableEq

/-- How much of an item counts. -/
def Item.weight : Item → ℕ
  | keyword t | name t | const t => SqlLex.weight t
  | symbol c => SqlLex.weight [c]

section
variable (reserved : Bytes → Bool)

/-- What follows the item, if the text starts with it.  An unquoted name is not a reserved word. -/
def Item.read (t : Bytes) : Item → Option Bytes
  | keyword w =>
    match next t with
    | some (.word u, r) => if u = w then some r else none
    | _ => none
  | symbol c =>
    match next t with
    | some (.symbol d, r) => if d = c then some r else none
    | _ => none
  | name n =>
    match next t with
    | some (.word u, r) => if u = n ∧ reserved n = false then some r else none
    | some (.quoted u, r) => if u = n then some r else none
    | _ => none
  | const v =>
    match next t with
    | some (.string u, r) | some (.number u, r) => if u = v then some r else none
    | some (.symbol c, r) =>
      match next r with
      | some (.number u, r) => if c = ch '-' ∧ c :: u = v then some r else none
      | _ => none
    | _ => none

/-- **The text, token by token, is the list of items**, and nothing follows. -/
def Reads : List Item → Bytes → Prop
  | [], t => skip .space t = some []
  | it :: its, t => ∃ r ∈ it.read reserved t, Reads its r

instance decidableReads : ∀ (its : List Item) (t : Bytes), Decidable (Reads reserved its t)
  | [], _ => inferInstanceAs (Decidable (_ = _))
  | it :: its, t =>
    have : ∀ r, Decidable (Reads reserved its r) := decidableReads its
    inferInstanceAs (Decidable (∃ r ∈ it.read reserved t, _))

variable {reserved}

theorem read_keyword {w t r : Bytes} (h : (Item.keyword w).read reserved t = some r) :
    next t = some (.word w, r) := by
  rw [Item.read] at h
  split at h
  · split_ifs at h with hu
    rw [← hu, ← Option.some.inj h]
    assumption
  · cases h

theorem read_symbol {c : UInt8} {t r : Bytes} (h : (Item.symbol c).read reserved t = some r) :
    next t = some (.symbol c, r) := by
  rw [Item.read] at h
  split at h
  · split_ifs at h with hu
    rw [← hu, ← Option.some.inj h]
    assumption
  · cases h

theorem read_name {n t r : Bytes} (h : (Item.name n).read reserved t = some r) :
    next t = some (.word n, r) ∧ reserved n = false ∨ next t = some (.quoted n, r) := by
  rw [Item.read] at h
  split at h
  · split_ifs at h with hu
    rw [← hu.1, ← Option.some.inj h]
    refine Or.inl ⟨by assumption, ?_⟩
    rw [hu.1]
    exact hu.2
  · split_ifs at h with hu
    rw [← hu, ← Option.some.inj h]
    exact Or.inr (by assumption)
  · cases h

theorem read_const {v t r : Bytes} (h : (Item.const v).read reserved t = some r) :
    next t = some (.string v, r) ∨ next t = some (.number v, r) ∨
      ∃ u r', v = ch '-' :: u ∧ next t = some (.symbol (ch '-'), r') ∧
        next r' = some (.number u, r) := by
  rw [Item.read] at h
  split at h
  · split_ifs at h with hu
    rw [← hu, ← Option.some.inj h]
    exact Or.inl (by assumption)
  · split_ifs at h with hu
    rw [← hu, ← Option.some.inj h]
    exact Or.inr (Or.inl (by assumption))
  · split at h
    · split_ifs at h with hu
      obtain ⟨rfl, rfl⟩ := hu
      rw [← Option.some.inj h]
      exact Or.inr (Or.inr ⟨_, _, rfl, by assumption, by assumption⟩)
    · cases h
  · cases h

/-- A token takes at least its weight from the text. -/
theorem next_weight {t r : Bytes} {tok : Token} (h : next t = some (tok, r)) :
    tok.weight + weight r ≤ weight t := by
  obtain ⟨u, hskip, hu⟩ := next_spelled h
  obtain ⟨p, rfl⟩ := skip_suffix hskip
  rw [weight_append, weight_append]
  have := hu.weight_le
  omega

theorem Item.read_weight {it : Item} {t r : Bytes} (h : it.read reserved t = some r) :
    it.weight + SqlLex.weight r ≤ SqlLex.weight t := by
  cases it with
  | keyword w => exact next_weight (read_keyword h)
  | symbol c => exact next_weight (read_symbol h)
  | name n => rcases read_name h with ⟨h, -⟩ | h <;> exact next_weight h
  | const v =>
    rcases read_const h with h | h | ⟨u, r', rfl, hm, hn⟩
    · exact next_weight h
    · exact next_weight h
    · have h1 := next_weight hm
      have h2 := next_weight hn
      rw [Item.weight, weight_cons]
      change SqlLex.weight [ch '-'] + _ ≤ _ at h1
      change SqlLex.weight u + _ ≤ _ at h2
      omega

def itemsWeight (its : List Item) : ℕ := (its.map Item.weight).sum

theorem Reads.weight_le {its : List Item} {t : Bytes} (h : Reads reserved its t) :
    itemsWeight its ≤ weight t := by
  induction its generalizing t with
  | nil => exact Nat.zero_le _
  | cons it its ih =>
    obtain ⟨r, hread, h⟩ := h
    have h1 := Item.read_weight hread
    have h2 := ih h
    simp only [itemsWeight, List.map_cons, List.sum_cons] at h2 ⊢
    omega

theorem Item.read_space (it : Item) (t : Bytes) :
    it.read reserved (ch ' ' :: t) = it.read reserved t := by
  cases it <;> simp only [Item.read, next_space]

end

/-! ## Pieces -/

/-- A part of a text: a blank, or what is written for an item. -/
inductive Piece where
  | space
  | token (body : Bytes) (item : Item)
  deriving DecidableEq

def Piece.text : Piece → Bytes
  | space => [ch ' ']
  | token body _ => body

def Piece.item : Piece → Option Item
  | space => none
  | token _ item => some item

def text (ps : List Piece) : Bytes := ps.flatMap Piece.text

def items (ps : List Piece) : List Item := ps.filterMap Piece.item

@[simp] theorem text_append (ps qs : List Piece) : text (ps ++ qs) = text ps ++ text qs :=
  List.flatMap_append

@[simp] theorem items_append (ps qs : List Piece) : items (ps ++ qs) = items ps ++ items qs :=
  List.filterMap_append

variable (reserved : Bytes → Bool)

/-- Every piece is read as its item, where it stands; `rest` follows the last one. -/
def InPlace : List Piece → Bytes → Prop
  | [], _ => True
  | .space :: ps, rest => InPlace ps rest
  | .token body it :: ps, rest =>
    it.read reserved (body ++ (text ps ++ rest)) = some (text ps ++ rest) ∧ InPlace ps rest

/-- What is written for an item counts as much as the item, and if the item is read from there and
leaves as much as follows, then it is what was written. -/
structure Exact (body : Bytes) (it : Item) (follow : Bytes) : Prop where
  weight : weight body = it.weight
  tight : ∀ r, it.read reserved (body ++ follow) = some r → SqlLex.weight follow ≤ SqlLex.weight r →
    r = follow

/-- Every piece is exact, where it stands. -/
def AllExact : List Piece → Bytes → Prop
  | [], _ => True
  | .space :: ps, rest => AllExact ps rest
  | .token body it :: ps, rest => Exact reserved body it (text ps ++ rest) ∧ AllExact ps rest

variable {reserved}

theorem AllExact.weight {ps : List Piece} {rest : Bytes} (h : AllExact reserved ps rest) :
    weight (text ps) = itemsWeight (items ps) := by
  induction ps with
  | nil => rfl
  | cons p ps ih =>
    cases p with
    | space => exact ih h
    | token body it =>
      obtain ⟨hexact, h⟩ := h
      change SqlLex.weight (body ++ text ps) = it.weight + itemsWeight (items ps)
      rw [weight_append, hexact.weight, ih h]

/-- **Reading in place.**  A text of exact pieces reads as their items if and only if every piece
is read as its own. -/
theorem reads_iff {ps : List Piece} (hexact : AllExact reserved ps []) :
    Reads reserved (items ps) (text ps) ↔ InPlace reserved ps [] := by
  induction ps with
  | nil => exact ⟨fun _ => trivial, fun _ => rfl⟩
  | cons p ps ih =>
    cases p with
    | space =>
      have hspace : Reads reserved (items ps) (ch ' ' :: text ps) ↔
          Reads reserved (items ps) (text ps) := by
        rcases items ps with _ | ⟨it, its⟩
        · rw [Reads, Reads, skip_space rfl]
        · rw [Reads, Reads, Item.read_space]
      exact hspace.trans (ih hexact)
    | token body it =>
      obtain ⟨hit, hexact⟩ := hexact
      change (∃ r ∈ it.read reserved (body ++ text ps), Reads reserved (items ps) r) ↔
        it.read reserved (body ++ (text ps ++ [])) = some (text ps ++ []) ∧ InPlace reserved ps []
      rw [← ih hexact, List.append_nil]
      constructor
      · rintro ⟨r, hread, h⟩
        have hr : r = text ps := by
          have hle := h.weight_le
          rw [← hexact.weight] at hle
          rw [List.append_nil] at hit
          exact hit.tight r hread hle
        rw [hr] at hread h
        exact ⟨hread, h⟩
      · rintro ⟨hread, h⟩
        exact ⟨_, hread, h⟩

/-! ## Texts that settle on a condition -/

variable (reserved)

/-- Before every text of `F` the pieces are exact, and are read in place exactly if `C` holds. -/
def Settles (F : Bytes → Prop) (ps : List Piece) (C : Prop) : Prop :=
  ∀ rest, F rest → AllExact reserved ps rest ∧ (InPlace reserved ps rest ↔ C)

variable {reserved}

theorem settles_append_iff {ps qs : List Piece} {rest : Bytes} :
    (AllExact reserved (ps ++ qs) rest ↔
      AllExact reserved ps (text qs ++ rest) ∧ AllExact reserved qs rest) ∧
    (InPlace reserved (ps ++ qs) rest ↔
      InPlace reserved ps (text qs ++ rest) ∧ InPlace reserved qs rest) := by
  induction ps with
  | nil => exact ⟨(and_iff_right trivial).symm, (and_iff_right trivial).symm⟩
  | cons p ps ih =>
    cases p with
    | space => exact ih
    | token body it =>
      simp only [List.cons_append, AllExact, InPlace, text_append, List.append_assoc, ih.1, ih.2,
        and_assoc, and_self]

namespace Settles

variable {F G : Bytes → Prop} {ps qs : List Piece} {C D : Prop}

theorem nil : Settles reserved F [] True := fun _ _ => ⟨trivial, Iff.rfl⟩

theorem append (hp : Settles reserved F ps C) (hq : Settles reserved G qs D)
    (hF : ∀ rest, G rest → F (text qs ++ rest)) : Settles reserved G (ps ++ qs) (C ∧ D) := by
  intro rest hrest
  obtain ⟨he, hi⟩ := hp _ (hF rest hrest)
  obtain ⟨he', hi'⟩ := hq rest hrest
  rw [settles_append_iff.1, settles_append_iff.2, hi, hi']
  exact ⟨⟨he, he'⟩, Iff.rfl⟩

theorem space (hp : Settles reserved F ps C) : Settles reserved F (.space :: ps) C := hp

theorem congr (hp : Settles reserved F ps C) (h : C ↔ D) : Settles reserved F ps D := by
  rwa [← h]

/-- Fewer texts may follow. -/
theorem mono (hp : Settles reserved F ps C) (h : ∀ rest, G rest → F rest) :
    Settles reserved G ps C := fun rest hrest => hp rest (h rest hrest)

/-- A text that nothing follows. -/
theorem reads (hp : Settles reserved F ps C) (hF : F []) :
    Reads reserved (items ps) (text ps) ↔ C := by
  obtain ⟨he, hi⟩ := hp [] hF
  rw [reads_iff he, hi]

end Settles

/-- The lists of `ls` with `sep` between them, and before them unless they are the first. -/
def joinPieces (sep : List Piece) : Bool → List (List Piece) → List Piece
  | _, [] => []
  | first, l :: ls => (if first then [] else sep) ++ l ++ joinPieces sep false ls

theorem items_joinPieces {sep : List Piece} (ls : List (List Piece)) (first : Bool) :
    items (joinPieces sep first ls) =
      (if first ∨ ls = [] then [] else items sep) ++ (items sep).intercalate (ls.map items) := by
  induction ls generalizing first with
  | nil => simp [joinPieces, items]
  | cons l ls ih =>
    rw [joinPieces, items_append, items_append, ih, List.map_cons]
    rcases ls with _ | ⟨l', ls⟩
    · cases first <;> simp [items]
    · cases first <;> simp [items, List.intercalate_cons_of_ne_nil]

/-- A list of entries between separators that are always read in place. -/
theorem Settles.join {α : Type} {F : Bytes → Prop} {sep : List Piece} {f : α → List Piece}
    {C : α → Prop} (hsep : Settles reserved (fun _ => True) sep True)
    (hF : ∀ rest, F (text sep ++ rest)) {cs : List α} (h : ∀ a ∈ cs, Settles reserved F (f a) (C a))
    (first : Bool) : Settles reserved F (joinPieces sep first (cs.map f)) (∀ a ∈ cs, C a) := by
  induction cs generalizing first with
  | nil => exact Settles.nil.congr (by simp)
  | cons a cs ih =>
    have hhead : Settles reserved (fun _ => True) (if first then [] else sep) True := by
      cases first
      · exact hsep
      · exact Settles.nil
    have hrest : ∀ rest, F rest → F (text (joinPieces sep false (cs.map f)) ++ rest) := by
      intro rest hrest
      rcases cs with _ | ⟨b, cs⟩
      · exact hrest
      · change F (text (sep ++ f b ++ joinPieces sep false (cs.map f)) ++ rest)
        rw [text_append, text_append, List.append_assoc, List.append_assoc]
        exact hF _
    have hcons := (hhead.append (h a List.mem_cons_self) fun _ _ => trivial).append
      (ih (fun b hb => h b (List.mem_cons_of_mem a hb)) false) hrest
    refine hcons.congr ?_
    rw [List.forall_mem_cons, true_and]

/-! ## Keywords and symbols -/

section
variable {F : Bytes → Prop} {body : Bytes} {it : Item}

/-- What is always read in place. -/
theorem settles_of_read (hw : weight body = it.weight)
    (h : ∀ rest, F rest → it.read reserved (body ++ rest) = some rest) :
    Settles reserved F [.token body it] True := by
  intro rest hrest
  have hread := h rest hrest
  refine ⟨⟨⟨hw, ?_⟩, trivial⟩, iff_of_true ⟨hread, trivial⟩ trivial⟩
  intro r hr _
  exact Option.some.inj (hr.symm.trans hread)

/-- A piece by itself. -/
theorem settles_token {C : Prop} (hw : weight body = it.weight)
    (htight : ∀ rest r, F rest → it.read reserved (body ++ rest) = some r →
      SqlLex.weight rest ≤ SqlLex.weight r → r = rest)
    (h : ∀ rest, F rest → (it.read reserved (body ++ rest) = some rest ↔ C)) :
    Settles reserved F [.token body it] C := by
  intro rest hrest
  exact ⟨⟨⟨hw, fun r => htight rest r hrest⟩, trivial⟩, (and_iff_left trivial).trans (h rest hrest)⟩

theorem settles_keyword {w : Bytes} (hhead : body.head?.any isWordStart)
    (hall : body.all isWordChar) (hfold : fold body = w) :
    Settles reserved EndsWord [.token body (.keyword w)] True := by
  subst hfold
  refine settles_of_read (weight_fold _).symm ?_
  intro rest hrest
  rcases body with _ | ⟨c, w⟩
  · cases hhead
  · rw [Item.read,
      next_word hhead (fun d hd => List.all_eq_true.1 hall d (List.mem_cons_of_mem c hd)) hrest]
    exact if_pos rfl

/-- A keyword with a blank behind it. -/
theorem settles_keyword_space {w : Bytes} (hhead : body.head?.any isWordStart)
    (hall : body.all isWordChar) (hfold : fold body = w) :
    Settles reserved (fun _ => True) [.token body (.keyword w), .space] True := by
  have hblank : Settles reserved (fun _ => True) [.space] True := Settles.nil.space
  refine ((settles_keyword hhead hall hfold).append hblank ?_).congr (and_self_iff)
  intro rest _ c hc
  obtain rfl := Option.some.inj hc
  decide

/-- The symbols that are tokens whatever follows them. -/
def isPunctuation (c : UInt8) : Bool :=
  c == ch '(' || c == ch ')' || c == ch ',' || c == ch ';' || c == ch '='

theorem settles_symbol {c : UInt8} (hc : isPunctuation c) :
    Settles reserved (fun _ => True) [.token [c] (.symbol c)] True := by
  have h : ∀ c, isPunctuation c → isSpace c = false ∧ c ≠ ch '-' ∧ c ≠ ch '/' ∧ isSymbol c ∧
      c ≠ ch '.' := forall_byte (by decide +kernel)
  obtain ⟨hs, hm, hd, hsymbol, hpoint⟩ := h c hc
  refine settles_of_read rfl ?_
  intro rest _
  rw [Item.read, List.singleton_append,
    next_symbol (atToken_cons hs hm hd) hsymbol fun h => absurd h hpoint]
  exact if_pos rfl

end

/-! ## Names -/

/-- A word ends before the text, and one of its first three characters counts. -/
def NameEnds (rest : Bytes) : Prop := EndsWord rest ∧ weight (rest.drop 3) < weight rest

instance (rest : Bytes) : Decidable (NameEnds rest) := inferInstanceAs (Decidable (_ ∧ _))

variable (reserved) in
/-- Without quotes, the name denotes itself: it is a word, in lower case and not reserved. -/
def OwnName (n : Bytes) : Prop :=
  n.head?.any isWordStart ∧ n.all isWordChar ∧ fold n = n ∧ reserved n = false

instance (n : Bytes) : Decidable (OwnName reserved n) := inferInstanceAs (Decidable (_ ∧ _ ∧ _ ∧ _))

/-- One of the characters that are dropped counts. -/
theorem weight_drop_lt {c : UInt8} (hc : isSolid c) {k : ℕ} {x : Bytes} (hk : x.length < k)
    (y : Bytes) : weight ((x ++ c :: y).drop k) < weight (x ++ c :: y) := by
  have hdrop : (x ++ c :: y).drop k = y.drop (k - x.length - 1) := by
    rw [List.drop_append, List.drop_eq_nil_of_le hk.le, List.nil_append]
    obtain ⟨n, hn⟩ := Nat.exists_eq_add_of_lt hk
    have hsub : k - x.length = n + 1 := by omega
    rw [hsub, List.drop_succ_cons, Nat.add_sub_cancel]
  have hle : weight (y.drop (k - x.length - 1)) ≤ weight y := (List.drop_sublist _ _).countP_le
  have hone : weight [c] = 1 := by simp [weight, hc]
  rw [hdrop, weight_append, weight_cons c y, hone]
  omega

section
variable {n v rest r u : Bytes}

/-- Text that is `k` characters longer leaves less behind. -/
theorem weight_lt_of_length {k : ℕ} (hw : weight (rest.drop k) < weight rest) {p : Bytes}
    (h : v ++ rest = p ++ u ++ r) (hlen : v.length + k ≤ p.length + u.length) :
    weight r < weight rest := by
  have hdrop : r = rest.drop (p.length + u.length - v.length) := by
    have hr : r = (v ++ rest).drop (p.length + u.length) := by
      rw [h, ← List.length_append, List.drop_left]
    rw [hr, List.drop_append, List.drop_eq_nil_of_le (by omega), List.nil_append]
  have hsplit : p.length + u.length - v.length = k + (p.length + u.length - v.length - k) := by
    omega
  rw [hdrop, hsplit, ← List.drop_drop]
  exact ((List.drop_sublist _ _).countP_le).trans_lt hw

theorem OwnName.cons (h : OwnName reserved n) : ∃ c w, n = c :: w ∧ isWordStart c ∧
    ∀ d ∈ w, isWordChar d := by
  obtain ⟨hstart, hall, -, -⟩ := h
  rcases n with _ | ⟨c, w⟩
  · cases hstart
  · exact ⟨c, w, rfl, hstart, fun d hd => List.all_eq_true.1 hall d (List.mem_cons_of_mem c hd)⟩

theorem next_ownName (h : OwnName reserved n) (hr : EndsWord rest) :
    next (n ++ rest) = some (.word n, rest) := by
  obtain ⟨c, w, rfl, hc, hw⟩ := h.cons
  have hnext := next_word hc hw hr
  rw [h.2.2.1] at hnext
  exact hnext

/-- **A name as it is** is read in its place if and only if it denotes itself; and elsewhere, it
takes too much of the text. -/
theorem settles_name : Settles reserved NameEnds [.token n (.name n)] (OwnName reserved n) := by
  have hquoted : ∀ {rest r : Bytes}, NameEnds rest → next (n ++ rest) = some (.quoted n, r) →
      weight r < weight rest := by
    intro rest r hrest h
    obtain ⟨u, hskip, hn, rfl⟩ := next_spelled h
    obtain ⟨p, hp⟩ := skip_suffix hskip
    rw [← List.append_assoc] at hp
    refine weight_lt_of_length hrest.2 hp ?_
    rw [List.length_append, List.length_cons, length_doubled]
    simp only [List.length_cons, List.length_nil]
    rcases p with _ | ⟨d, p⟩
    · -- the name starts with a quote, which is doubled
      obtain ⟨c, n, rfl⟩ := List.exists_cons_of_ne_nil hn
      obtain rfl : c = dquote := (List.cons.inj hp).1
      rw [List.count_cons_self, List.length_nil]
      omega
    · rw [List.length_cons]
      omega
  have hword : ∀ {rest r : Bytes}, next (n ++ rest) = some (.word n, r) →
      r = rest ∧ n.head?.any isWordStart ∧ n.all isWordChar ∧ fold n = n := by
    intro rest r h
    obtain ⟨u, hskip, hfold, ⟨c, v, rfl, hc⟩, hall⟩ := next_spelled h
    have hlower : ∀ c, isWordStart c → isWordStart (lower c) := forall_byte (by decide +kernel)
    -- the name starts as a word does, so that nothing is skipped before it
    have hn : n = lower c :: fold v := hfold.symm
    have hat : skip .space (n ++ rest) = some (n ++ rest) := by
      rw [hn]
      exact skip_atToken (atToken_wordStart (hlower c hc) _)
    have heq : n ++ rest = (c :: v) ++ r := Option.some.inj (hat.symm.trans hskip)
    have hlen : n.length = (c :: v).length := by
      rw [hn, List.length_cons, fold, List.length_map]
      rfl
    obtain ⟨hnu, hr⟩ := List.append_inj heq hlen
    refine ⟨hr.symm, ?_, List.all_eq_true.2 (hnu ▸ hall), ?_⟩
    · rw [hnu]
      exact hc
    · conv_lhs => rw [hnu]
      exact hfold
  refine settles_token rfl ?_ ?_
  · intro rest r hrest hread hle
    rcases read_name hread with ⟨h, -⟩ | h
    · exact (hword h).1
    · exact absurd (hquoted hrest h) (not_lt.2 hle)
  · intro rest hrest
    constructor
    · intro hread
      rcases read_name hread with ⟨h, hres⟩ | h
      · obtain ⟨-, hstart, hall, hfold⟩ := hword h
        exact ⟨hstart, hall, hfold, hres⟩
      · exact absurd (hquoted hrest h) (lt_irrefl _)
    · intro h
      rw [Item.read, next_ownName h hrest.1]
      exact if_pos ⟨rfl, h.2.2.2⟩

theorem isDigit_of_wordStart {c : UInt8} (hc : isWordStart c) : isDigit c = false := by
  have h : ∀ c, isWordStart c → isDigit c = false := forall_byte (by decide +kernel)
  exact h c hc

/-- A point before a character that is no digit. -/
theorem next_point {c : UInt8} (hc : isDigit c = false) (t : Bytes) :
    next (ch '.' :: c :: t) = some (.symbol (ch '.'), c :: t) :=
  next_symbol (atToken_cons rfl (by decide) (by decide)) (by decide) fun _ => hc

/-- A name behind a point. -/
theorem settles_qualified : Settles reserved NameEnds
    [.token [ch '.'] (.symbol (ch '.')), .token n (.name n)] (OwnName reserved n) := by
  intro rest hrest
  obtain ⟨⟨hname, -⟩, hplace⟩ := @settles_name reserved n rest hrest
  have hat : ∀ t, AtToken (ch '.' :: t) := fun t => atToken_cons rfl (by decide) (by decide)
  refine ⟨⟨⟨rfl, ?_⟩, hname, trivial⟩, ?_⟩
  · intro r hread _
    obtain ⟨u, hskip, rfl⟩ := next_spelled (read_symbol hread)
    rw [List.singleton_append, skip_atToken (hat _)] at hskip
    exact (List.cons.inj (Option.some.inj hskip)).2.symm
  · rw [← hplace]
    refine ⟨fun h => h.2, fun h => ⟨?_, h⟩⟩
    -- the name does not start with a digit
    obtain ⟨c, w, hn, hc, -⟩ := (hplace.1 h).cons
    have htext : text [.token n (.name n)] ++ rest = c :: (w ++ rest) := by
      rw [hn]
      simp [text, Piece.text]
    rw [Item.read, List.singleton_append, htext, next_point (isDigit_of_wordStart hc)]
    exact if_pos rfl

end

/-- **A quoted name** is read in its place, if every reserved word is quoted. -/
theorem settles_quoteIdentifier {kw : Bytes → Bool} (hkw : ∀ w, reserved w → kw w) {n : Bytes}
    (hn : n ≠ []) :
    Settles reserved Breaks [.token (SqlText.quoteIdentifier kw n) (.name n)] True := by
  by_cases hp : SqlText.isPlain kw n
  · rw [SqlText.quoteIdentifier_of_plain hp]
    refine settles_of_read rfl ?_
    intro rest hrest
    have hown : OwnName reserved n := by
      have hstart : ∀ c, SqlText.isIdentStart c → isWordStart c := forall_byte (by decide +kernel)
      have hchar : ∀ c, SqlText.isIdentChar c → isWordChar c ∧ lower c = c :=
        forall_byte (by decide +kernel)
      rw [SqlText.isPlain, Bool.and_eq_true, Bool.and_eq_true] at hp
      obtain ⟨⟨hhead, hall⟩, hnotkw⟩ := hp
      have hall := List.all_eq_true.1 hall
      refine ⟨?_, List.all_eq_true.2 fun c hc => (hchar c (hall c hc)).1, ?_, ?_⟩
      · obtain ⟨c, hc, hstart'⟩ := (Option.any_eq_true _ _).1 hhead
        exact (Option.any_eq_true _ _).2 ⟨c, hc, hstart c hstart'⟩
      · exact (List.map_congr_left fun c hc => (hchar c (hall c hc)).2).trans (List.map_id n)
      · rw [Bool.eq_false_iff]
        intro hres
        rw [hkw n hres] at hnotkw
        cases hnotkw
    rw [Item.read, next_ownName hown hrest.endsWord]
    exact if_pos ⟨rfl, hown.2.2.2⟩
  · rw [SqlText.quoteIdentifier_of_not_plain hp]
    refine settles_of_read ?_ ?_
    · change weight (dquote :: doubled dquote n ++ [dquote]) = weight n
      rw [weight_append, weight_cons, weight_doubled rfl]
      exact (Nat.add_zero _).trans (Nat.zero_add _)
    · intro rest hrest
      have hnext := next_quoted hrest.head_ne_dquote hn
      change (Item.name n).read reserved (dquote :: doubled dquote n ++ [dquote] ++ rest) = _
      rw [Item.read, hnext]
      exact if_pos rfl

/-! ## Constants -/

/-- No token goes on with the text, and one of its first two characters counts. -/
def ConstEnds (rest : Bytes) : Prop := Breaks rest ∧ weight (rest.drop 2) < weight rest

instance (rest : Bytes) : Decidable (ConstEnds rest) := inferInstanceAs (Decidable (_ ∧ _))

theorem Breaks.cons {a : UInt8} (ha : Breaks [a]) (r : Bytes) : Breaks (a :: r) :=
  fun c hc => ha c hc

theorem constEnds_cons {a b : UInt8} (ha : Breaks [a]) (h : isSolid a ∨ isSolid b) (r : Bytes) :
    ConstEnds (a :: b :: r) := by
  refine ⟨ha.cons _, ?_⟩
  rcases h with h | h
  · exact @weight_drop_lt a h 2 [] (by decide) (b :: r)
  · exact @weight_drop_lt b h 2 [a] (Nat.lt_succ_self 1) r

/-- The text is a number, with or without a minus sign. -/
def isSigned (v : Bytes) : Bool := isNumber v || (v.head? == some (ch '-') && isNumber v.tail)

section
variable {v rest r : Bytes}

theorem read_string (h : next rest = some (.string v, r)) :
    (Item.const v).read reserved rest = some r := by
  rw [Item.read, h]
  exact if_pos rfl

theorem settles_escaped :
    Settles reserved Breaks [.token (ch 'E' :: squote :: escaped v ++ [squote]) (.const v)]
      True := by
  refine settles_of_read ?_ fun rest hrest => read_string (next_escaped hrest.head_ne_squote v)
  rw [weight_append, weight_cons, weight_cons squote, weight_escaped]
  exact (Nat.add_zero _).trans ((Nat.zero_add _).trans (Nat.zero_add _))

theorem settles_doubled :
    Settles reserved Breaks [.token (squote :: doubled squote v ++ [squote]) (.const v)] True := by
  refine settles_of_read ?_ fun rest hrest => read_string (next_string hrest.head_ne_squote v)
  rw [weight_append, weight_cons, weight_doubled rfl]
  exact (Nat.add_zero _).trans (Nat.zero_add _)

/-- **A text between quotes**, with nothing doubled, is read in its place if and only if it has no
quote inside. -/
theorem settles_between :
    Settles reserved Breaks [.token (squote :: v ++ [squote]) (.const v)] (squote ∉ v) := by
  have hat : ∀ t, AtToken (squote :: t) := fun t => atToken_cons rfl (by decide) (by decide)
  have hread : ∀ {rest r : Bytes}, Breaks rest →
      (Item.const v).read reserved (squote :: v ++ [squote] ++ rest) = some r →
        squote ∉ v ∧ r = rest := by
    intro rest r hrest h
    rw [List.append_assoc, List.cons_append, List.singleton_append] at h
    have htoken : ∀ {tok : Token} {r : Bytes},
        next (squote :: (v ++ squote :: rest)) = some (tok, r) →
          ∃ w, tok = .string w ∧ v ++ squote :: rest = doubled squote w ++ squote :: r := by
      intro tok r h
      rw [next_atToken (hat _), readToken, if_neg (by decide), if_neg (by decide), if_pos rfl] at h
      obtain ⟨⟨w, r'⟩, hread, heq⟩ := Option.map_eq_some_iff.1 h
      cases heq
      exact ⟨w, rfl, readDelimited_eq hread⟩
    rcases read_const h with h | h | ⟨u, r', -, h, -⟩
    · obtain ⟨w, hw, heq⟩ := htoken h
      obtain rfl := Token.string.inj hw
      have hnot := not_mem_of_doubled hrest.head_ne_squote heq
      rw [doubled_of_not_mem hnot] at heq
      exact ⟨hnot, (List.cons.inj (List.append_cancel_left heq)).2.symm⟩
    · obtain ⟨w, hw, -⟩ := htoken h
      cases hw
    · obtain ⟨w, hw, -⟩ := htoken h
      cases hw
  refine settles_token ?_ (fun rest r hrest h _ => (hread hrest h).2) ?_
  · rw [weight_append, weight_cons]
    exact (Nat.add_zero _).trans (Nat.zero_add _)
  · intro rest hrest
    refine ⟨fun h => (hread hrest h).1, ?_⟩
    intro hnot
    have hnext := next_string hrest.head_ne_squote v
    rw [doubled_of_not_mem hnot] at hnext
    exact read_string hnext

/-- A number starts with a digit or a point. -/
theorem number_cons {t u : Bytes} (h : next t = some (.number u, r)) :
    ∃ c w, u = c :: w ∧ (isDigit c ∨ c = ch '.') := by
  obtain ⟨u', -, rfl, hstart, hread⟩ := next_spelled h
  rcases hu : u' ++ r with _ | ⟨c, l⟩
  · rw [hu] at hstart
    cases hstart
  · rw [hu] at hstart hread
    obtain ⟨hc, w, hw⟩ := readNumber_starts hstart
    rw [hread] at hw
    exact ⟨c, w, hw, hc⟩

theorem startsNumber_of_append (hr : Breaks rest) (hv : v ≠ []) (h : startsNumber (v ++ rest)) :
    startsNumber v := by
  rcases v with _ | ⟨c, _ | ⟨d, v⟩⟩
  · exact absurd rfl hv
  · rcases rest with _ | ⟨d, rest⟩
    · exact h
    · have hd : isDigit d = false := hr.digit d rfl
      rw [List.singleton_append, startsNumber] at h
      rw [startsNumber]
      simpa [hd] using h
  · exact h

/-- **A number that is read at its own text** is one, and nothing more is read. -/
theorem isNumber_of_next (hr : Breaks rest) (h : next (v ++ rest) = some (.number v, r)) :
    isNumber v ∧ r = rest := by
  obtain ⟨c, w, hv, hc⟩ := number_cons h
  obtain ⟨u, hskip, rfl, hstart, hread⟩ := next_spelled h
  have hat : AtToken (u ++ rest) := by
    rw [hv]
    exact (atToken_startsNumber hc).1
  rw [skip_atToken hat] at hskip
  have hskip := Option.some.inj hskip
  rw [← hskip] at hstart hread
  rw [readNumber_append hr] at hread
  have hrest : rest = r := List.append_cancel_left hskip
  have hnil : (readNumber u).2 = [] := List.append_left_eq_self.1
    ((Prod.mk.inj hread).2.trans hrest.symm)
  refine ⟨?_, hrest.symm⟩
  rw [isNumber, startsNumber_of_append hr (by simp [hv]) hstart, hnil]
  rfl

/-- A minus sign before a number. -/
theorem next_minus {c : UInt8} {w : Bytes} (hc : isDigit c ∨ c = ch '.') :
    next (ch '-' :: c :: w) = some (.symbol (ch '-'), c :: w) := by
  have hne : c ≠ ch '-' := by
    rintro rfl
    revert hc
    decide
  have hat : AtToken (ch '-' :: c :: w) :=
    ⟨rfl, fun h => hne (Option.some.inj h.2), fun h => absurd h.1 (by decide)⟩
  exact next_symbol hat (by decide) fun h => absurd h (by decide)

/-- **A constant as it is** is read in its place if and only if it is a number. -/
theorem settles_bare : Settles reserved ConstEnds [.token v (.const v)] (isSigned v) := by
  have hread : ∀ {rest r : Bytes}, ConstEnds rest →
      (Item.const v).read reserved (v ++ rest) = some r → weight rest ≤ weight r →
        isSigned v ∧ r = rest := by
    rintro rest r ⟨hbreaks, hheavy⟩ h hle
    rcases read_const h with h | h | ⟨u, r', rfl, hm, hn⟩
    · obtain ⟨u, hskip, -, hlen⟩ := next_spelled h
      obtain ⟨p, hp⟩ := skip_suffix hskip
      rw [← List.append_assoc] at hp
      exact absurd (weight_lt_of_length hheavy hp (by omega)) (not_lt.2 hle)
    · obtain ⟨hnumber, hr⟩ := isNumber_of_next hbreaks h
      exact ⟨by rw [isSigned, hnumber, Bool.true_or], hr⟩
    · obtain ⟨c, w, rfl, hc⟩ := number_cons hn
      rw [List.cons_append, List.cons_append, next_minus hc] at hm
      obtain rfl := (Prod.mk.inj (Option.some.inj hm)).2
      obtain ⟨hnumber, hr⟩ := isNumber_of_next (v := c :: w) hbreaks hn
      refine ⟨?_, hr⟩
      rw [isSigned, List.tail_cons, hnumber]
      simp
  refine settles_token rfl (fun rest r hrest h hle => (hread hrest h hle).2) ?_
  intro rest hrest
  refine ⟨fun h => (hread hrest h le_rfl).1, ?_⟩
  intro hsigned
  rw [isSigned, Bool.or_eq_true, Bool.and_eq_true] at hsigned
  rcases hsigned with hnumber | ⟨hminus, hnumber⟩
  · rw [Item.read, next_isNumber hrest.1 hnumber]
    exact if_pos rfl
  · rcases v with _ | ⟨d, u⟩
    · cases hminus
    obtain rfl : d = ch '-' := Option.some.inj (beq_iff_eq.1 hminus)
    rw [List.tail_cons] at hnumber
    have hnext := next_isNumber hrest.1 hnumber
    obtain ⟨c, w, rfl, hc⟩ := number_cons hnext
    have hsign : next (ch '-' :: c :: w ++ rest) = some (.symbol (ch '-'), c :: w ++ rest) :=
      next_minus hc
    rw [Item.read, hsign]
    dsimp only
    rw [hnext]
    exact if_pos ⟨rfl, rfl⟩

end

end SqlLex
