/-
  The relation that a statement is about: the qualified name in a CREATE TABLE and in a
  COPY.

  `readRelation_within`: a name that is read from the front of a text, before an opening
  parenthesis whose tail neither quotes nor ends a comment, takes at least its own length;
  it takes no more than that only if it denotes itself without quotes.
-/
import RdsDbsync.Lib.SqlItems

namespace SqlLex

open Bytes Csv

/-! ## Readers -/

/-- A relation, with its schema if the name is qualified. -/
abbrev RelationName := Option Bytes × Bytes

section
variable (reserved : Bytes → Bool)

/-- A name, which without quotes is not a reserved word. -/
def readName (t : Bytes) : Option (Bytes × Bytes) :=
  match next t with
  | some (.word w, r) => if reserved w then none else some (w, r)
  | some (.quoted w, r) => some (w, r)
  | _ => none

/-- The text behind a point. -/
def readPoint (t : Bytes) : Option Bytes :=
  match next t with
  | some (.symbol c, r) => if c = ch '.' then some r else none
  | _ => none

/-- A name, and behind a point a second one, which may be a reserved word. -/
def readRelation (t : Bytes) : Option (RelationName × Bytes) :=
  (readName reserved t).bind fun (n, r) =>
    match readPoint r with
    | some r' => (readName (fun _ => false) r').map fun (m, r'') => ((some n, m), r'')
    | none => some ((none, n), r)

/-- The text behind the keywords. -/
def readKeywords : List Bytes → Bytes → Option Bytes
  | [], t => some t
  | w :: ws, t => ((Item.keyword w).read reserved t).bind (readKeywords ws)

/-- The text behind IF NOT EXISTS, if it starts with that. -/
def readIfNotExists (t : Bytes) : Option Bytes :=
  match readKeywords reserved [ascii "if", ascii "not"] t with
  | some r => readKeywords reserved [ascii "exists"] r
  | none => some t

/-- The relation before an opening parenthesis. -/
def readTarget (t : Bytes) : Option RelationName :=
  (readRelation reserved t).bind fun (rel, r) =>
    ((Item.symbol (ch '(')).read reserved r).map fun _ => rel

/-- The relation that a CREATE TABLE creates. -/
def createdRelation (t : Bytes) : Option RelationName :=
  (readKeywords reserved [ascii "create", ascii "table"] t).bind fun r =>
    (readIfNotExists reserved r).bind (readTarget reserved)

/-- The relation that a COPY FROM loads into. -/
def copiedRelation (t : Bytes) : Option RelationName :=
  (readKeywords reserved [ascii "copy"] t).bind fun r =>
    (readRelation reserved r).bind fun (rel, r) =>
      (readKeywords reserved [ascii "from"] r).map fun _ => rel

end

/-! ## What stays behind a text -/

/-- The text quotes no name, and a comment that is open before it does not end in it. -/
structure Inert (more : Bytes) : Prop where
  quote : dquote ∉ more
  line : skip .line more = some []
  block : ∀ depth, skip (.block depth) more = none

/-- A blank, an opening parenthesis, and a text that is inert. -/
def opened (more : Bytes) : Bytes := ch ' ' :: ch '(' :: more

section
variable {more : Bytes}

theorem skip_block_of_notMem {t : Bytes} (h : ch '*' ∉ t) (depth : ℕ) :
    skip (.block depth) t = none := by
  induction t with
  | nil => rfl
  | cons c t ih =>
    rw [List.mem_cons, not_or] at h
    have hstar : t.head? ≠ some (ch '*') := by
      intro hhead
      exact h.2 (List.mem_of_mem_head? hhead)
    rw [skip, if_neg fun hc => h.1 hc.1.symm, if_neg fun hc => hstar hc.2]
    exact ih h.2

/-- A comment up to the end of its line. -/
theorem skip_line {c : Bytes} (hc : c.all fun d => !isLineEnd d) (t : Bytes) :
    skip .line (c ++ 10 :: t) = skip .space t := by
  induction c with
  | nil => rfl
  | cons d c ih =>
    rw [List.all_cons, Bool.and_eq_true] at hc
    rw [List.cons_append, skip, if_neg (by simpa using hc.1)]
    exact ih hc.2

/-- A character of a line that quotes no name and ends no comment. -/
def isInert (c : UInt8) : Bool := c != dquote && c != ch '*' && !isLineEnd c

/-- The last line of a text, and an empty one. -/
theorem Inert.of_line {t : Bytes} (h : t.all isInert) : Inert (t ++ [10, 10]) := by
  have hall : ∀ c ∈ t, (c ≠ dquote ∧ c ≠ ch '*') ∧ isLineEnd c = false := by
    simpa [isInert] using h
  refine ⟨?_, ?_, skip_block_of_notMem ?_⟩
  · rw [List.mem_append, not_or]
    exact ⟨fun hmem => (hall _ hmem).1.1 rfl, by decide⟩
  · refine skip_line (List.all_eq_true.2 ?_) [10]
    intro c hc
    rw [(hall c hc).2]
    rfl
  · rw [List.mem_append, not_or]
    exact ⟨fun hmem => (hall _ hmem).1.2 rfl, by decide⟩

theorem skip_parenthesis (t : Bytes) : skip .space (ch '(' :: t) = some (ch '(' :: t) :=
  skip_atToken (atToken_cons rfl (by decide) (by decide))

theorem Inert.block_cons (h : Inert more) {c : UInt8} (hstar : c ≠ ch '*') (hslash : c ≠ ch '/')
    (depth : ℕ) : skip (.block depth) (c :: more) = none := by
  rw [skip, if_neg fun hc => hstar hc.1, if_neg fun hc => hslash hc.1]
  exact h.block depth

/-- What is skipped in front of the parenthesis ends before it, unless it takes everything. -/
theorem skip_opened (h : Inert more) {mode : SkipMode} {x r : Bytes}
    (hskip : skip mode (x ++ opened more) = some r) :
    r = [] ∨ r = ch '(' :: more ∨ ∃ p y, x = p ++ y ∧ r = y ++ opened more := by
  have hblock := h.block_cons (c := ch '(') (by decide) (by decide)
  induction x generalizing mode with
  | nil =>
    rw [List.nil_append, opened] at hskip
    rcases mode with _ | _ | depth | depth | _ | depth
    · rw [skip_space rfl, skip_parenthesis] at hskip
      exact Or.inr (Or.inl (Option.some.inj hskip).symm)
    · have hline : skip .line (ch ' ' :: ch '(' :: more) = skip .line more := rfl
      rw [hline, h.line] at hskip
      exact Or.inl (Option.some.inj hskip).symm
    · rw [skip, hblock] at hskip
      cases hskip
    · have hspace : skip (.block depth) (ch ' ' :: ch '(' :: more) =
          skip (.block depth) (ch '(' :: more) := rfl
      rw [hspace, hblock] at hskip
      cases hskip
    · rw [skip, skip_parenthesis] at hskip
      exact Or.inr (Or.inl (Option.some.inj hskip).symm)
    · rw [skip, hblock] at hskip
      cases hskip
  | cons c x ih =>
    have hstep : ∀ {mode : SkipMode}, skip mode (x ++ opened more) = some r →
        r = [] ∨ r = ch '(' :: more ∨ ∃ p y, c :: x = p ++ y ∧ r = y ++ opened more := by
      intro mode hskip
      rcases ih hskip with hnil | hparen | ⟨p, y, rfl, hr⟩
      · exact Or.inl hnil
      · exact Or.inr (Or.inl hparen)
      · exact Or.inr (Or.inr ⟨c :: p, y, rfl, hr⟩)
    rcases mode with _ | _ | depth | depth | _ | depth <;> rw [List.cons_append, skip] at hskip
    · split_ifs at hskip
      · exact hstep hskip
      · exact hstep hskip
      · exact hstep hskip
      · exact Or.inr (Or.inr ⟨[], c :: x, rfl, (Option.some.inj hskip).symm⟩)
    · split_ifs at hskip <;> exact hstep hskip
    · exact hstep hskip
    · split_ifs at hskip <;> exact hstep hskip
    · exact hstep hskip
    · exact hstep hskip

/-! ## Tokens in front of the parenthesis -/

/-- A token of a qualified name or a keyword. -/
def Token.InTarget (tok : Token) : Prop :=
  (∃ w, tok = .word w) ∨ (∃ n, tok = .quoted n) ∨ tok = .symbol (ch '.')

/-- What such a token starts with is neither a blank nor a parenthesis. -/
theorem Token.InTarget.head {tok : Token} (htok : tok.InTarget) {u r : Bytes}
    (hu : tok.Spelled u r) : ∃ c v, u = c :: v ∧ c ≠ ch ' ' ∧ c ≠ ch '(' := by
  rcases htok with ⟨w, rfl⟩ | ⟨n, rfl⟩ | rfl
  · obtain ⟨-, ⟨c, v, rfl, hc⟩, -⟩ := hu
    refine ⟨c, v, rfl, ?_, ?_⟩
    · rintro rfl
      revert hc
      decide
    · rintro rfl
      revert hc
      decide
  · obtain ⟨-, rfl⟩ := hu
    exact ⟨dquote, _, rfl, by decide, by decide⟩
  · obtain rfl := hu
    exact ⟨_, _, rfl, by decide, by decide⟩

/-- It does not reach into what starts with the blank before the parenthesis. -/
theorem Token.InTarget.eq_nil (h : Inert more) {tok : Token} (htok : tok.InTarget)
    {u z w t r : Bytes} (hu : tok.Spelled u r) (hw : u = z ++ w) (hopened : opened more = w ++ t)
    (hz : z ≠ []) : w = [] := by
  rcases w with _ | ⟨d, w⟩
  · rfl
  exfalso
  obtain rfl : ch ' ' = d := (List.cons.inj hopened).1
  rcases htok with ⟨_, rfl⟩ | ⟨n, rfl⟩ | rfl
  · have hblank := hu.2.2 (ch ' ') (hw ▸ List.mem_append_right _ List.mem_cons_self)
    revert hblank
    decide
  · -- the closing quote would stand in what follows
    have hlast : dquote ∈ ch ' ' :: w := by
      have := congrArg List.getLast? (hu.2.symm.trans hw)
      rw [List.getLast?_concat, List.getLast?_append_cons] at this
      exact List.mem_of_getLast? this.symm
    have hmem : dquote ∈ opened more := hopened ▸ List.mem_append_left _ hlast
    rcases List.mem_cons.1 hmem with hd | hmem
    · revert hd
      decide
    · rcases List.mem_cons.1 hmem with hd | hmem
      · revert hd
        decide
      · exact h.quote hmem
  · obtain rfl := hu
    rcases z with _ | ⟨e, z⟩
    · exact hz rfl
    · have := (List.cons.inj hw).2
      simp at this

/-- A token other than a parenthesis that is read in front of it ends before it. -/
theorem next_opened (h : Inert more) {x r : Bytes} {tok : Token}
    (hnext : next (x ++ opened more) = some (tok, r)) (htok : tok.InTarget) :
    ∃ p u y, x = p ++ u ++ y ∧ r = y ++ opened more ∧ tok.Spelled u r := by
  obtain ⟨u, hskip, hu⟩ := next_spelled hnext
  obtain ⟨c, v, hcv, hblank, hparen⟩ := htok.head hu
  rcases skip_opened h hskip with hnil | hpar | ⟨p, z, rfl, hz⟩
  · rw [hcv] at hnil
    cases hnil
  · rw [hcv] at hpar
    exact absurd (List.cons.inj hpar).1 hparen
  · rcases List.append_eq_append_iff.1 hz with ⟨y, rfl, hr⟩ | ⟨w, hw, hopened⟩
    · exact ⟨p, u, y, by rw [List.append_assoc], hr, hu⟩
    · have hne : z ≠ [] := by
        rintro rfl
        rw [hcv, List.cons_append] at hz
        exact hblank (List.cons.inj hz).1
      obtain rfl := htok.eq_nil h hu hw hopened hne
      rw [List.append_nil] at hw
      subst hw
      exact ⟨p, u, [], by rw [List.append_nil], hopened.symm, hu⟩

/-- **A name that is read** takes at least its length; a name that it takes no more than is the
text at that place, and denotes itself. -/
theorem readName_opened (h : Inert more) {reserved : Bytes → Bool} {x n r : Bytes}
    (hread : readName reserved (x ++ opened more) = some (n, r)) :
    ∃ y, r = y ++ opened more ∧ n.length + y.length ≤ x.length ∧
      ∀ z, x = n ++ z → z.length ≤ y.length → y = z ∧ OwnName reserved n := by
  unfold readName at hread
  split at hread
  · next w r' hnext =>
    split_ifs at hread with hres
    cases hread
    obtain ⟨p, u, y, rfl, hr, hfold, ⟨c, v, hcv, hc⟩, hall⟩ :=
      next_opened h hnext (Or.inl ⟨_, rfl⟩)
    have hlen : n.length = u.length := by
      rw [← hfold, fold, List.length_map]
    refine ⟨y, hr, ?_, ?_⟩
    · simp only [List.length_append]
      omega
    · intro z heq hle
      have hlengths := congrArg List.length heq
      simp only [List.length_append] at hlengths
      obtain rfl : p = [] := List.length_eq_zero_iff.1 (by omega)
      rw [List.nil_append] at heq
      obtain ⟨rfl, rfl⟩ := List.append_inj heq hlen.symm
      refine ⟨rfl, ?_, List.all_eq_true.2 hall, hfold, Bool.eq_false_iff.2 hres⟩
      rw [hcv]
      exact hc
  · next w r' hnext =>
    cases hread
    obtain ⟨p, u, y, rfl, hr, -, rfl⟩ := next_opened h hnext (Or.inr (Or.inl ⟨_, rfl⟩))
    have hlen := length_doubled dquote n
    refine ⟨y, hr, ?_, ?_⟩
    · simp only [List.length_append, List.length_cons, List.length_nil]
      omega
    · intro z heq hle
      have hlengths := congrArg List.length heq
      simp only [List.length_append, List.length_cons, List.length_nil] at hlengths
      omega
  · cases hread

theorem readPoint_opened (h : Inert more) {x r : Bytes}
    (hread : readPoint (x ++ opened more) = some r) :
    ∃ y, r = y ++ opened more ∧ 1 + y.length ≤ x.length ∧
      ∀ z, x = ch '.' :: z → z.length ≤ y.length → y = z := by
  unfold readPoint at hread
  split at hread
  · next c r' hnext =>
    split_ifs at hread with hc
    subst hc
    cases hread
    obtain ⟨p, u, y, rfl, hr, rfl⟩ := next_opened h hnext (Or.inr (Or.inr rfl))
    refine ⟨y, hr, ?_, ?_⟩
    · simp only [List.length_append, List.length_singleton]
      omega
    · intro z heq hle
      have hlengths := congrArg List.length heq
      simp only [List.length_append, List.length_cons, List.length_nil] at hlengths
      obtain rfl : p = [] := List.length_eq_zero_iff.1 (by omega)
      exact (List.cons.inj heq).2
  · cases hread

theorem readKeyword_opened (h : Inert more) {reserved : Bytes → Bool} {w x r : Bytes}
    (hread : (Item.keyword w).read reserved (x ++ opened more) = some r) :
    ∃ y, r = y ++ opened more ∧ w.length + y.length ≤ x.length := by
  obtain ⟨p, u, y, rfl, hr, hfold, -⟩ := next_opened h (read_keyword hread) (Or.inl ⟨_, rfl⟩)
  refine ⟨y, hr, ?_⟩
  rw [← hfold, fold, List.length_map]
  simp only [List.length_append]
  omega

theorem readKeywords_opened (h : Inert more) {reserved : Bytes → Bool} {ws : List Bytes}
    {x r : Bytes} (hread : readKeywords reserved ws (x ++ opened more) = some r) :
    ∃ y, r = y ++ opened more ∧ (ws.map List.length).sum + y.length ≤ x.length := by
  induction ws generalizing x with
  | nil =>
    cases hread
    exact ⟨x, rfl, by simp⟩
  | cons w ws ih =>
    obtain ⟨r', hw, hread⟩ := Option.bind_eq_some_iff.1 hread
    obtain ⟨y, rfl, hy⟩ := readKeyword_opened h hw
    obtain ⟨z, hr, hz⟩ := ih hread
    refine ⟨z, hr, ?_⟩
    rw [List.map_cons, List.sum_cons]
    omega

/-- What is read of IF NOT EXISTS is taken from the text, if it is read. -/
theorem readIfNotExists_opened (h : Inert more) {reserved : Bytes → Bool} {x r : Bytes}
    (hread : readIfNotExists reserved (x ++ opened more) = some r) :
    r = x ++ opened more ∨ ∃ y, r = y ++ opened more ∧ y.length < x.length := by
  unfold readIfNotExists at hread
  split at hread
  · next r' hif =>
    right
    obtain ⟨y, rfl, hy⟩ := readKeywords_opened h hif
    obtain ⟨z, hr, hz⟩ := readKeywords_opened h hread
    have hlen : ([ascii "if", ascii "not"].map List.length).sum = 5 := rfl
    exact ⟨z, hr, by omega⟩
  · exact Or.inl (Option.some.inj hread).symm

end

/-! ## Relations that denote themselves -/

/-- The text of a relation's name, as it is. -/
def relationText : RelationName → Bytes
  | (none, n) => n
  | (some s, n) => s ++ ch '.' :: n

/-- Without quotes, the relation denotes itself: both names do, and the first one is not
reserved. -/
def OwnRelation (reserved : Bytes → Bool) : RelationName → Prop
  | (none, n) => OwnName reserved n
  | (some s, n) => OwnName reserved s ∧ OwnName (fun _ => false) n

instance (reserved : Bytes → Bool) : ∀ rel, Decidable (OwnRelation reserved rel)
  | (none, _) => inferInstanceAs (Decidable (OwnName _ _))
  | (some _, _) => inferInstanceAs (Decidable (_ ∧ _))

section
variable {more : Bytes} {reserved : Bytes → Bool}

/-- **A relation that is read in front of a parenthesis**, from a text no longer than its name, is
one that denotes itself. -/
theorem readRelation_within (h : Inert more) {x r : Bytes} {rel : RelationName}
    (hread : readRelation reserved (x ++ opened more) = some (rel, r)) :
    (relationText rel).length ≤ x.length ∧ (x = relationText rel → OwnRelation reserved rel) := by
  obtain ⟨⟨n, r₁⟩, hn, hread⟩ := Option.bind_eq_some_iff.1 hread
  obtain ⟨y₁, rfl, hy₁, hown₁⟩ := readName_opened h hn
  dsimp only at hread
  split at hread
  · next r₂ hpoint =>
    obtain ⟨y₂, rfl, hy₂, hown₂⟩ := readPoint_opened h hpoint
    obtain ⟨⟨m, r₃⟩, hm, heq⟩ := Option.map_eq_some_iff.1 hread
    obtain ⟨y₃, rfl, hy₃, hown₃⟩ := readName_opened h hm
    cases heq
    simp only [relationText, List.length_append, List.length_cons]
    refine ⟨by omega, ?_⟩
    intro hx
    have hlen := congrArg List.length hx
    simp only [List.length_append, List.length_cons] at hlen
    obtain ⟨rfl, hs⟩ := hown₁ _ hx (by simp only [List.length_cons]; omega)
    obtain rfl := hown₂ _ rfl (by simp only [List.length_cons] at hy₂ ⊢; omega)
    exact ⟨hs, (hown₃ [] (by simp) (Nat.zero_le _)).2⟩
  · cases hread
    simp only [relationText]
    refine ⟨by omega, ?_⟩
    intro hx
    exact (hown₁ [] (by simpa using hx) (Nat.zero_le _)).2

theorem readRelation_of_none {t : Bytes} (hname : readName reserved t = none) :
    readRelation reserved t = none := by
  unfold readRelation
  rw [hname]
  rfl

/-- A name that no point follows. -/
theorem readRelation_of_name {t n r : Bytes} (hname : readName reserved t = some (n, r))
    (hpoint : readPoint r = none) : readRelation reserved t = some ((none, n), r) := by
  unfold readRelation
  rw [hname, Option.bind_some]
  dsimp only
  rw [hpoint]

theorem readRelation_of_point {t n r r' : Bytes} (hname : readName reserved t = some (n, r))
    (hpoint : readPoint r = some r') :
    readRelation reserved t =
      (readName (fun _ => false) r').map fun (m, r'') => ((some n, m), r'') := by
  unfold readRelation
  rw [hname, Option.bind_some]
  dsimp only
  rw [hpoint]

/-- A text that is a word. -/
def isWord (w : Bytes) : Bool := w.head?.any isWordStart && w.all isWordChar

theorem next_isWord {w rest : Bytes} (hw : isWord w) (hr : EndsWord rest) :
    next (w ++ rest) = some (.word (fold w), rest) := by
  obtain ⟨c, v, rfl⟩ : ∃ c v, w = c :: v := by
    rcases w with _ | ⟨c, v⟩
    · cases hw
    · exact ⟨c, v, rfl⟩
  rw [isWord, Bool.and_eq_true] at hw
  have hall := List.all_eq_true.1 hw.2
  exact next_word hw.1 (fun d hd => hall d (List.mem_cons_of_mem c hd)) hr

/-- A word is no point. -/
theorem readPoint_word {w rest : Bytes} (hw : isWord w) (hr : EndsWord rest) :
    readPoint (ch ' ' :: (w ++ rest)) = none := by
  unfold readPoint
  rw [next_space, next_isWord hw hr]

theorem next_parenthesis (t : Bytes) : next (opened t) = some (.symbol (ch '('), t) := by
  rw [opened, next_space]
  exact next_symbol (atToken_cons rfl (by decide) (by decide)) (by decide)
    fun h => absurd h (by decide)

theorem readPoint_parenthesis (t : Bytes) : readPoint (opened t) = none := by
  unfold readPoint
  rw [next_parenthesis]
  exact if_neg (by decide)

/-- A relation of which a CREATE TABLE says nothing but its name denotes itself. -/
theorem ownRelation_of_readTarget (h : Inert more) {rel : RelationName}
    (hread : readTarget reserved (relationText rel ++ opened more) = some rel) :
    OwnRelation reserved rel := by
  obtain ⟨⟨rel', r⟩, hrel, hread⟩ := Option.bind_eq_some_iff.1 hread
  obtain ⟨r', -, rfl⟩ := Option.map_eq_some_iff.1 hread
  exact (readRelation_within h hrel).2 rfl

/-- The words IF NOT EXISTS cannot be a part of the name. -/
theorem ownRelation_of_readIfNotExists (h : Inert more) {rel : RelationName}
    (hread : (readIfNotExists reserved (relationText rel ++ opened more)).bind
      (readTarget reserved) = some rel) : OwnRelation reserved rel := by
  obtain ⟨r, hif, hread⟩ := Option.bind_eq_some_iff.1 hread
  rcases readIfNotExists_opened h hif with rfl | ⟨y, rfl, hy⟩
  · exact ownRelation_of_readTarget h hread
  · obtain ⟨⟨rel', r⟩, hrel, hread⟩ := Option.bind_eq_some_iff.1 hread
    obtain ⟨r', -, rfl⟩ := Option.map_eq_some_iff.1 hread
    have hle := (readRelation_within h hrel).1
    omega

theorem readName_ownName {n rest : Bytes} (hn : OwnName reserved n) (hr : EndsWord rest) :
    readName reserved (n ++ rest) = some (n, rest) := by
  unfold readName
  rw [next_ownName hn hr]
  exact if_neg (by rw [hn.2.2.2]; decide)

theorem readPoint_point {c : UInt8} (hc : isDigit c = false) (t : Bytes) :
    readPoint (ch '.' :: c :: t) = some (c :: t) := by
  unfold readPoint
  rw [next_point hc]
  exact if_pos rfl

theorem endsWord_opened (t : Bytes) : EndsWord (opened t) := by
  intro c hc
  obtain rfl := Option.some.inj hc
  decide

theorem endsWord_point (t : Bytes) : EndsWord (ch '.' :: t) := by
  intro c hc
  obtain rfl := Option.some.inj hc
  decide

/-- **A relation that denotes itself is read back.** -/
theorem readRelation_ownRelation {rel : RelationName} (h : OwnRelation reserved rel) (t : Bytes) :
    readRelation reserved (relationText rel ++ opened t) = some (rel, opened t) := by
  obtain ⟨s, n⟩ := rel
  cases s with
  | none =>
    exact readRelation_of_name (readName_ownName h (endsWord_opened t)) (readPoint_parenthesis t)
  | some s =>
    obtain ⟨hs, hn⟩ := h
    obtain ⟨c, w, rfl, hc, -⟩ := hn.cons
    have hpoint : readPoint (ch '.' :: c :: w ++ opened t) = some (c :: w ++ opened t) :=
      readPoint_point (isDigit_of_wordStart hc) _
    have hrel := readRelation_of_point
      (readName_ownName hs (endsWord_point (c :: w ++ opened t))) hpoint
    rw [readName_ownName hn (endsWord_opened t)] at hrel
    rw [relationText, List.append_assoc]
    exact hrel

theorem readTarget_ownRelation {rel : RelationName} (h : OwnRelation reserved rel) (t : Bytes) :
    readTarget reserved (relationText rel ++ opened t) = some rel := by
  unfold readTarget
  rw [readRelation_ownRelation h, Option.bind_some]
  dsimp only
  rw [Item.read, next_parenthesis]
  rfl

/-- Behind the first name of a relation there is no NOT. -/
theorem readIfNotExists_ownRelation {rel : RelationName} (h : OwnRelation reserved rel)
    (t : Bytes) : readIfNotExists reserved (relationText rel ++ opened t) =
      some (relationText rel ++ opened t) := by
  obtain ⟨w, r, hw, c, r', hc⟩ : ∃ w r, next (relationText rel ++ opened t) = some (.word w, r) ∧
      ∃ c r', next r = some (.symbol c, r') := by
    obtain ⟨s, n⟩ := rel
    cases s with
    | none => exact ⟨n, _, next_ownName h (endsWord_opened t), _, _, next_parenthesis t⟩
    | some s =>
      obtain ⟨hs, hn⟩ := h
      obtain ⟨c, w, rfl, hc, -⟩ := hn.cons
      refine ⟨s, ch '.' :: c :: w ++ opened t, ?_, ch '.', _, next_point (isDigit_of_wordStart hc) _⟩
      rw [relationText, List.append_assoc]
      exact next_ownName hs (endsWord_point _)
  have hnot : (Item.keyword (ascii "not")).read reserved r = none := by
    rw [Item.read, hc]
  have hkeywords : readKeywords reserved [ascii "if", ascii "not"]
      (relationText rel ++ opened t) = none := by
    unfold readKeywords
    rw [Item.read, hw]
    dsimp only
    split_ifs
    · rw [Option.bind_some, readKeywords, hnot]
      rfl
    · rfl
  unfold readIfNotExists
  rw [hkeywords]

end

/-! ## The text in front of a relation -/

section
variable {reserved : Bytes → Bool}

/-- A reader that looks at the next token only. -/
theorem readKeywords_congr (reserved : Bytes → Bool) {t t' : Bytes} (h : next t = next t')
    (w : Bytes) (ws : List Bytes) :
    readKeywords reserved (w :: ws) t = readKeywords reserved (w :: ws) t' := by
  unfold readKeywords
  rw [Item.read, Item.read, h]

theorem endsWord_space (t : Bytes) : EndsWord (ch ' ' :: t) := by
  intro c hc
  obtain rfl := Option.some.inj hc
  decide

theorem readName_congr {t t' : Bytes} (h : next t = next t') :
    readName reserved t = readName reserved t' := by
  unfold readName
  rw [h]

theorem readRelation_congr {t t' : Bytes} (h : next t = next t') :
    readRelation reserved t = readRelation reserved t' := by
  unfold readRelation
  rw [readName_congr h]

theorem readTarget_congr {t t' : Bytes} (h : next t = next t') :
    readTarget reserved t = readTarget reserved t' := by
  unfold readTarget
  rw [readRelation_congr h]

theorem readIfNotExists_space (t : Bytes) :
    (readIfNotExists reserved (ch ' ' :: t)).bind (readTarget reserved) =
      (readIfNotExists reserved t).bind (readTarget reserved) := by
  unfold readIfNotExists
  rw [readKeywords_congr reserved (next_space t)]
  split
  · rfl
  · exact readTarget_congr (next_space t)

/-- A line that is a comment. -/
theorem next_lineComment {c : Bytes} (hc : c.all fun d => !isLineEnd d) (t : Bytes) :
    next (ch '-' :: ch '-' :: c ++ 10 :: t) = next t := by
  have hskip : skip .space (ch '-' :: ch '-' :: c ++ 10 :: t) =
      skip .line (ch '-' :: c ++ 10 :: t) := rfl
  have hdash : skip .line (ch '-' :: c ++ 10 :: t) = skip .line (c ++ 10 :: t) := rfl
  rw [next, hskip, hdash, skip_line hc, next]

/-- Keywords, each behind a blank, and a blank behind the last one. -/
theorem readKeywords_words (reserved : Bytes → Bool) (ws : List Bytes) (h : ws.all isWord)
    (t : Bytes) :
    readKeywords reserved (ws.map fold) (ws.flatMap (ch ' ' :: ·) ++ ch ' ' :: t) =
      some (ch ' ' :: t) := by
  induction ws with
  | nil => rfl
  | cons w ws ih =>
    rw [List.all_cons, Bool.and_eq_true] at h
    obtain ⟨hw, hws⟩ := h
    have hends : EndsWord (ws.flatMap (ch ' ' :: ·) ++ ch ' ' :: t) := by
      intro c hc
      obtain rfl : ch ' ' = c := by
        cases ws with
        | nil => exact Option.some.inj hc
        | cons v ws => exact Option.some.inj hc
      decide
    rw [List.map_cons, List.flatMap_cons, List.append_assoc, List.cons_append, readKeywords,
      Item.read_space, Item.read, next_isWord hw hends]
    dsimp only
    rw [if_pos rfl, Option.bind_some]
    exact ih hws

/-- A quoted name. -/
theorem readName_quoted (reserved : Bytes → Bool) {n rest : Bytes} (hr : rest.head? ≠ some dquote) :
    readName reserved (dquote :: doubled dquote n ++ [dquote] ++ rest) =
      if n = [] then none else some (n, rest) := by
  unfold readName
  split_ifs with hn
  · subst hn
    have hread := readDelimited_doubled hr []
    rw [List.append_assoc, List.cons_append, List.singleton_append,
      next_atToken (atToken_cons rfl (by decide) (by decide)), readToken, if_neg (by decide),
      if_pos rfl, hread]
    rfl
  · rw [next_quoted hr hn]

end

end SqlLex
