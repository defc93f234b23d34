/-
  Readers of a binary format that stay inside the data: a reader returns what it has read
  and the bytes that follow, or nothing.
-/
import RdsDbsync.Lib.Bytes

namespace Reader

open Bytes

variable {α : Type}

/-- A byte that is one of `allowed`. -/
def tag (allowed : List UInt8) : Bytes → Option (UInt8 × Bytes)
  | [] => none
  | b :: r => if b ∈ allowed then some (b, r) else none

/-- A big-endian integer of `w` bytes. -/
def uint (w : ℕ) (p : Bytes) : Option (ℕ × Bytes) :=
  if p.length < w then none else some (decodeBE (p.take w), p.drop w)

/-- An integer of `w` bytes from 1 to `max`. -/
def count (w max : ℕ) (p : Bytes) : Option (ℕ × Bytes) := do
  let (n, r) ← uint w p
  if 1 ≤ n ∧ n ≤ max then some (n, r) else none

/-- A string behind its length, which is from 1 to `max`. -/
def counted (w max : ℕ) (p : Bytes) : Option (CString × Bytes) := do
  let (n, r) ← count w max p
  if n ≤ r.length then some (⟨cstr r, nulFree_cstr r⟩, r.drop n) else none

/-- `n` times what `read` reads. -/
def times (read : Bytes → Option (α × Bytes)) : ℕ → Bytes → Option (List α × Bytes)
  | 0, p => some ([], p)
  | n + 1, p => do
    let (a, r) ← read p
    let (as, r) ← times read n r
    some (a :: as, r)

section
variable {p r : Bytes} {w n max : ℕ}

theorem tag_some {allowed : List UInt8} {b : UInt8} (h : tag allowed p = some (b, r)) :
    p = b :: r ∧ b ∈ allowed := by
  rcases p with _ | ⟨c, p⟩
  · cases h
  · rw [tag, Option.ite_none_right_eq_some] at h
    obtain ⟨hc, h⟩ := h
    cases h
    exact ⟨rfl, hc⟩

theorem uint_some (h : uint w p = some (n, r)) :
    w ≤ p.length ∧ n = decodeBE (p.take w) ∧ r = p.drop w := by
  rw [uint, Option.ite_none_left_eq_some] at h
  obtain ⟨hw, h⟩ := h
  cases h
  exact ⟨not_lt.1 hw, rfl, rfl⟩

theorem count_some (h : count w max p = some (n, r)) :
    uint w p = some (n, r) ∧ 1 ≤ n ∧ n ≤ max := by
  obtain ⟨⟨m, r'⟩, hu, h⟩ := Option.bind_eq_some_iff.1 h
  rw [Option.ite_none_right_eq_some] at h
  obtain ⟨hm, h⟩ := h
  cases h
  exact ⟨hu, hm⟩

theorem counted_some {t : CString} (h : counted w max p = some (t, r)) :
    ∃ n r', uint w p = some (n, r') ∧ 1 ≤ n ∧ n ≤ max ∧ n ≤ r'.length ∧
      t.val = cstr r' ∧ r = r'.drop n := by
  obtain ⟨⟨n, r'⟩, hc, h⟩ := Option.bind_eq_some_iff.1 h
  obtain ⟨hu, h1, hmax⟩ := count_some hc
  rw [Option.ite_none_right_eq_some] at h
  obtain ⟨hn, h⟩ := h
  cases h
  exact ⟨n, r', hu, h1, hmax, hn, rfl, rfl⟩

variable {read : Bytes → Option (α × Bytes)} {as : List α}

theorem times_zero (h : times read 0 p = some (as, r)) : as = [] ∧ r = p := by
  cases h
  exact ⟨rfl, rfl⟩

theorem times_succ (h : times read (n + 1) p = some (as, r)) :
    ∃ a r' bs, read p = some (a, r') ∧ times read n r' = some (bs, r) ∧ as = a :: bs := by
  obtain ⟨⟨a, r'⟩, ha, h⟩ := Option.bind_eq_some_iff.1 h
  obtain ⟨⟨bs, r''⟩, hb, h⟩ := Option.bind_eq_some_iff.1 h
  cases h
  exact ⟨a, r', bs, ha, hb, rfl⟩

theorem length_times (h : times read n p = some (as, r)) : as.length = n := by
  induction n generalizing p as with
  | zero =>
    obtain ⟨rfl, -⟩ := times_zero h
    rfl
  | succ n ih =>
    obtain ⟨a, r', bs, -, hb, rfl⟩ := times_succ h
    rw [List.length_cons, ih hb]

/-! ## Reading what was written -/

theorem tag_cons {allowed : List UInt8} {b : UInt8} (h : b ∈ allowed) :
    tag allowed (b :: r) = some (b, r) := if_pos h

theorem uint_encodeBE (h : n < 256 ^ w) : uint w (encodeBE w n ++ r) = some (n, r) := by
  have hlen : ¬ (encodeBE w n ++ r).length < w := by simp
  rw [uint, if_neg hlen, List.take_left' (length_encodeBE w n),
    List.drop_left' (length_encodeBE w n), decodeBE_encodeBE h]

theorem count_encodeBE (h : n < 256 ^ w) (h1 : 1 ≤ n) (hmax : n ≤ max) :
    count w max (encodeBE w n ++ r) = some (n, r) := by
  rw [count, uint_encodeBE h]
  exact if_pos ⟨h1, hmax⟩

/-- What reads each of `l` reads all of them. -/
theorem times_flatMap {β : Type} (read : Bytes → Option (β × Bytes)) (encode : α → Bytes)
    (f : α → β) {l : List α} (h : ∀ a ∈ l, ∀ r, read (encode a ++ r) = some (f a, r)) :
    times read l.length (l.flatMap encode ++ r) = some (l.map f, r) := by
  induction l with
  | nil => rfl
  | cons a l ih =>
    have ih := ih fun b hb => h b (List.mem_cons_of_mem _ hb)
    rw [List.length_cons, times, List.flatMap_cons, List.append_assoc, h a List.mem_cons_self]
    dsimp only [Option.bind_eq_bind, Option.bind_some]
    rw [ih]
    rfl

end

end Reader
