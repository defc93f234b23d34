/-
  A CSV text as PostgreSQL's COPY .. CSV reads it when the escape character is the quote
  character and lines end with a newline: first the lines, then the fields of each.

  A line end inside a quoted section belongs to the line.  The line `\.` ends the data.
  A carriage return outside of quoted sections is not read at all.
-/
import Mathlib.Data.List.Forall2
import Mathlib.Data.List.TakeWhile
import RdsDbsync.Lib.Csv

namespace Csv

open Bytes

/-! ## Reading -/

def endMarker : Bytes := ascii "\\."

section
variable (delim quote : UInt8)

/-- The lines of a text; `line` is what was read of the first one, which may be inside a quoted
section. -/
def splitLines : (inQuote : Bool) → (line text : Bytes) → Option (List Bytes)
  | true, _, [] => none
  | false, line, [] => some (if line = [] ∨ line = endMarker then [] else [line])
  | inQuote, line, c :: cs =>
    if c = quote then splitLines (!inQuote) (line ++ [c]) cs
    else if inQuote then splitLines true (line ++ [c]) cs
    else if c = 10 then
      if line = endMarker then some [] else (splitLines false [] cs).map (line :: ·)
    else if c = 13 then none
    else splitLines false (line ++ [c]) cs

/-- The fields of a line.  There are no more than `fuel`. -/
def fields : (fuel : ℕ) → Bytes → Option (List Field)
  | 0, _ => none
  | fuel + 1, line =>
    (scan delim quote .bare line).bind fun (f, rest) =>
      match rest with
      | [] => some [f]
      | _ :: rest => (fields fuel rest).map (f :: ·)

/-- The fields of a line of a table with `n` columns. -/
def record (n : ℕ) (line : Bytes) : Option (List Field) :=
  if n = 0 ∧ line = [] then some [] else fields delim quote (line.length + 1) line

/-- The records of a text for a table with `n` columns. -/
def records (n : ℕ) (text : Bytes) : Option (List (List Field)) :=
  (splitLines quote false [] text).bind fun lines => lines.mapM (record delim quote n)

end

/-! ## Lines -/

/-- The text leaves the reader of lines outside of quoted sections, in the same line. -/
def Passes (quote : UInt8) (t : Bytes) : Prop :=
  ∀ line rest, splitLines quote false line (t ++ rest) = splitLines quote false (line ++ t) rest

section
variable {delim quote : UInt8} {t u : Bytes}

theorem passes_nil : Passes quote [] := by
  intro line rest
  rw [List.append_nil, List.nil_append]

theorem Passes.append (ht : Passes quote t) (hu : Passes quote u) : Passes quote (t ++ u) := by
  intro line rest
  rw [List.append_assoc, ht, hu, List.append_assoc]

theorem passes_singleton {c : UInt8} (hc : c ≠ quote) (hl : isLineEnd c = false) :
    Passes quote [c] := by
  intro line rest
  rw [isLineEnd, Bool.or_eq_false_iff, beq_eq_false_iff_ne, beq_eq_false_iff_ne] at hl
  rw [List.singleton_append, splitLines, if_neg hc, if_neg Bool.false_ne_true, if_neg hl.1,
    if_neg hl.2]

/-- A text without quotes and line ends. -/
theorem passes_bare (h : ∀ c ∈ t, c ≠ quote ∧ isLineEnd c = false) : Passes quote t := by
  induction t with
  | nil => exact passes_nil
  | cons c t ih =>
    obtain ⟨hc, hl⟩ := h c List.mem_cons_self
    exact (passes_singleton hc hl).append (ih fun d hd => h d (List.mem_cons_of_mem c hd))

theorem splitLines_inQuote (t line rest : Bytes) :
    splitLines quote true line (doubled quote t ++ quote :: rest) =
      splitLines quote false (line ++ doubled quote t ++ [quote]) rest := by
  induction t generalizing line with
  | nil =>
    change splitLines quote true line (quote :: rest) = _
    rw [splitLines, if_pos rfl, doubled, List.flatMap_nil, List.append_nil]
    rfl
  | cons c t ih =>
    rw [doubled_cons]
    by_cases hc : c = quote
    · -- a doubled quote leaves the section and opens it again
      subst hc
      rw [if_pos rfl]
      change splitLines c true line (c :: c :: (doubled c t ++ c :: rest)) = _
      rw [splitLines, if_pos rfl, splitLines, if_pos rfl]
      change splitLines c true _ (doubled c t ++ c :: rest) = _
      rw [ih]
      simp
    · rw [if_neg hc]
      change splitLines quote true line (c :: (doubled quote t ++ quote :: rest)) = _
      rw [splitLines, if_neg hc, if_pos rfl, ih]
      simp

/-- **A quoted text stays in its line**, whatever it contains. -/
theorem passes_quoted (t : Bytes) : Passes quote (quote :: doubled quote t ++ [quote]) := by
  intro line rest
  rw [List.append_assoc, List.cons_append, List.singleton_append, splitLines, if_pos rfl]
  change splitLines quote true _ (doubled quote t ++ quote :: rest) = _
  rw [splitLines_inQuote]
  simp

/-- **Each text with a newline behind it is a line**, up to the marker for the end of the data. -/
theorem splitLines_flatMap {ts : List Bytes} (hq : quote ≠ 10) (h : ∀ t ∈ ts, Passes quote t) :
    splitLines quote false [] (ts.flatMap fun t => t ++ [10]) =
      some (ts.takeWhile (· ≠ endMarker)) := by
  induction ts with
  | nil => rfl
  | cons t ts ih =>
    rw [List.flatMap_cons, List.append_assoc, h t List.mem_cons_self, List.singleton_append,
      List.nil_append, splitLines, if_neg (Ne.symm hq), if_neg Bool.false_ne_true, if_pos rfl,
      ih fun u hu => h u (List.mem_cons_of_mem t hu), List.takeWhile_cons]
    by_cases ht : t = endMarker
    · rw [if_pos ht, if_neg (by simp [ht])]
    · rw [if_neg ht, if_pos (by simp [ht])]
      rfl

end

/-! ## Fields -/

/-- The text is written for the field `f`: it stays in its line and is read back as `f`. -/
structure Renders (delim quote : UInt8) (t : Bytes) (f : Field) : Prop where
  passes : Passes quote t
  scan : ∀ rest, EndsField delim rest → scan delim quote .bare (t ++ rest) = some (f, rest)

section
variable {delim quote : UInt8} {t : Bytes}

theorem scan_bare_cons (c : UInt8) (cs : Bytes) :
    Csv.scan delim quote .bare (c :: cs) =
      if c = quote then (Csv.scan delim quote .quoted cs).map fun (f, rest) => (f.quote, rest)
      else if c = delim ∨ isLineEnd c then some (⟨[], false⟩, c :: cs)
      else (Csv.scan delim quote .bare cs).map fun (f, rest) => (f.cons c, rest) := by
  rw [Csv.scan, if_neg (by simp)]
  intro h
  cases h

/-- A text of ordinary characters. -/
theorem renders_bare (hq : ¬ (quote = delim)) (hl : isLineEnd quote = false)
    (h : ∀ c ∈ t, c ≠ quote ∧ c ≠ delim ∧ isLineEnd c = false) :
    Renders delim quote t ⟨t, false⟩ := by
  refine ⟨passes_bare fun c hc => ⟨(h c hc).1, (h c hc).2.2⟩, ?_⟩
  intro rest hr
  induction t with
  | nil => exact scan_endsField nofun hq hl hr
  | cons c t ih =>
    obtain ⟨hc, hd, hle⟩ := h c List.mem_cons_self
    have hend : ¬ (c = delim ∨ isLineEnd c) := by simp [hd, hle]
    rw [List.cons_append, scan_bare_cons, if_neg hc, if_neg hend,
      ih fun d hd => h d (List.mem_cons_of_mem c hd)]
    rfl

/-- A quoted text. -/
theorem renders_quoted (hq : ¬ (quote = delim)) (hl : isLineEnd quote = false) (t : Bytes) :
    Renders delim quote (quote :: doubled quote t ++ [quote]) ⟨t, true⟩ := by
  refine ⟨passes_quoted t, ?_⟩
  intro rest hr
  have hb : Csv.scan delim quote .behindQuote rest = some (⟨[], false⟩, rest) :=
    scan_endsField nofun hq hl hr
  rw [List.append_assoc, List.cons_append, List.singleton_append, scan_bare_cons, if_pos rfl,
    scan_quoted, hb]
  simp [Field.quote]

/-- A quoted text with a character before it, which belongs to the field. -/
theorem renders_cons_quoted {c : UInt8} (hc : c ≠ quote) (hd : c ≠ delim)
    (hle : isLineEnd c = false) (hq : ¬ (quote = delim)) (hl : isLineEnd quote = false)
    (t : Bytes) :
    Renders delim quote (c :: quote :: doubled quote t ++ [quote]) ⟨c :: t, true⟩ := by
  obtain ⟨hpasses, hscan⟩ : Renders delim quote _ _ := renders_quoted hq hl t
  refine ⟨(passes_singleton hc hle).append hpasses, ?_⟩
  intro rest hr
  have hend : ¬ (c = delim ∨ isLineEnd c) := by simp [hd, hle]
  change Csv.scan delim quote .bare (c :: (quote :: doubled quote t ++ [quote] ++ rest)) = _
  rw [scan_bare_cons, if_neg hc, if_neg hend, hscan rest hr]
  rfl

/-- **The fields between delimiters** are read back. -/
theorem fields_intercalate {ts : List Bytes} {fs : List Field}
    (h : List.Forall₂ (Renders delim quote) ts fs) (hne : ts ≠ []) {fuel : ℕ}
    (hfuel : ts.length ≤ fuel) : fields delim quote fuel ([delim].intercalate ts) = some fs := by
  induction h generalizing fuel with
  | nil => exact absurd rfl hne
  | @cons t f ts fs ht hts ih =>
    obtain ⟨fuel, rfl⟩ := Nat.exists_eq_succ_of_ne_zero (Nat.ne_zero_of_lt hfuel)
    rcases ts with _ | ⟨u, ts⟩
    · cases hts
      have hscan := ht.scan [] (by intro c hc; cases hc)
      rw [List.append_nil] at hscan
      rw [List.intercalate_singleton, fields, hscan]
      rfl
    · have hends : EndsField delim ([delim] ++ [delim].intercalate (u :: ts)) := by
        intro c hc
        exact Or.inl (Option.some.inj hc).symm
      have hnext := ih (List.cons_ne_nil u ts) (Nat.le_of_succ_le_succ hfuel)
      rw [List.intercalate_cons_of_ne_nil (List.cons_ne_nil u ts), fields, List.append_assoc,
        ht.scan _ hends]
      change (fields delim quote fuel ([delim].intercalate (u :: ts))).map _ = _
      rw [hnext]
      rfl

theorem passes_intercalate (hd : delim ≠ quote) (hl : isLineEnd delim = false) {ts : List Bytes}
    (h : ∀ t ∈ ts, Passes quote t) : Passes quote ([delim].intercalate ts) := by
  induction ts with
  | nil => exact passes_nil
  | cons t ts ih =>
    have ht := h t List.mem_cons_self
    rcases ts with _ | ⟨u, ts⟩
    · rwa [List.intercalate_singleton]
    · rw [List.intercalate_cons_of_ne_nil (List.cons_ne_nil u ts)]
      exact (ht.append (passes_singleton hd hl)).append
        (ih fun v hv => h v (List.mem_cons_of_mem t hv))

/-- There are no more texts than characters and delimiters. -/
theorem length_le_intercalate (ts : List Bytes) :
    ts.length ≤ ([delim].intercalate ts).length + 1 := by
  induction ts with
  | nil => exact Nat.zero_le _
  | cons t ts ih =>
    rcases ts with _ | ⟨u, ts⟩
    · rw [List.length_singleton]
      omega
    · rw [List.intercalate_cons_of_ne_nil (List.cons_ne_nil u ts), List.length_append,
        List.length_append, List.length_singleton, List.length_cons]
      omega

/-- **A record is read back** from its fields between delimiters. -/
theorem record_intercalate {ts : List Bytes} {fs : List Field}
    (h : List.Forall₂ (Renders delim quote) ts fs) :
    record delim quote ts.length ([delim].intercalate ts) = some fs := by
  by_cases hne : ts = []
  · subst hne
    cases h
    rfl
  · rw [record, if_neg fun hn => hne (List.length_eq_zero_iff.1 hn.1)]
    exact fields_intercalate h hne (length_le_intercalate ts)

end

/-! ## Records -/

theorem mapM_eq_some_iff {α β : Type} {f : α → Option β} {l : List α} {l' : List β} :
    l.mapM f = some l' ↔ List.Forall₂ (fun a b => f a = some b) l l' := by
  induction l generalizing l' with
  | nil => simp [eq_comm]
  | cons a l ih =>
    rw [List.mapM_cons, List.forall₂_cons_left_iff]
    constructor
    · intro h
      obtain ⟨b, hb, h⟩ := Option.bind_eq_some_iff.1 h
      obtain ⟨bs, hbs, h⟩ := Option.bind_eq_some_iff.1 h
      exact ⟨b, bs, hb, ih.1 hbs, (Option.some.inj h).symm⟩
    · rintro ⟨b, bs, hb, hbs, rfl⟩
      rw [hb, ih.2 hbs]
      rfl

section
variable {delim quote : UInt8} {n : ℕ} {ts : List Bytes}

/-- **Lines that are records are read back**, one record a line, if none of them is the marker. -/
theorem records_flatMap {rs : List (List Field)} (hq : quote ≠ 10)
    (hpasses : ∀ t ∈ ts, Passes quote t) (hmarker : ∀ t ∈ ts, t ≠ endMarker)
    (hrecords : List.Forall₂ (fun t r => record delim quote n t = some r) ts rs) :
    records delim quote n (ts.flatMap fun t => t ++ [10]) = some rs := by
  have hall : ts.takeWhile (· ≠ endMarker) = ts :=
    List.takeWhile_eq_self_iff.2 fun t ht => decide_eq_true (hmarker t ht)
  rw [records, splitLines_flatMap hq hpasses, hall]
  exact mapM_eq_some_iff.2 hrecords

/-- If there are as many records as lines, none of the lines is the marker. -/
theorem ne_endMarker_of_records {rs : List (List Field)} (hq : quote ≠ 10)
    (hpasses : ∀ t ∈ ts, Passes quote t)
    (h : records delim quote n (ts.flatMap fun t => t ++ [10]) = some rs)
    (hlength : rs.length = ts.length) : ∀ t ∈ ts, t ≠ endMarker := by
  rw [records, splitLines_flatMap hq hpasses] at h
  have hle : (ts.takeWhile (· ≠ endMarker)).length = rs.length :=
    (mapM_eq_some_iff.1 h).length_eq
  have hall : ts.takeWhile (· ≠ endMarker) = ts :=
    (List.takeWhile_prefix _).eq_of_length (hle.trans hlength)
  intro t ht
  exact of_decide_eq_true (List.takeWhile_eq_self_iff.1 hall t ht)

end

end Csv
