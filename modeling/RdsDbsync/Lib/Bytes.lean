/-
  Byte strings: NUL-terminated C strings and big-endian integers.
-/
import Mathlib.Data.List.Basic
import Mathlib.Tactic.Common
import Mathlib.Tactic.Ring

/-- A byte string. -/
abbrev Bytes := List UInt8

namespace Bytes

/-- The bytes of an ASCII literal. -/
def ascii (s : String) : Bytes := s.toList.map fun c => c.toNat.toUInt8

/-- The byte of an ASCII character. -/
def ch (c : Char) : UInt8 := c.toNat.toUInt8

/-- Different ASCII characters have different bytes. -/
theorem ch_inj {a b : Char} (ha : a.toNat < 256) (hb : b.toNat < 256) : ch a = ch b ↔ a = b := by
  refine ⟨?_, fun h => h ▸ rfl⟩
  intro h
  have hn : a.toNat % 256 = b.toNat % 256 := by simpa [ch] using congrArg UInt8.toNat h
  rw [Nat.mod_eq_of_lt ha, Nat.mod_eq_of_lt hb] at hn
  exact Char.toNat_inj.1 hn

/-! ## C strings -/

/-- The C string that a pointer to the bytes `p` denotes: everything up to the first NUL. -/
def cstr (p : Bytes) : Bytes := p.takeWhile (· ≠ 0)

/-- A text that can be a C string. -/
def NulFree (t : Bytes) : Prop := (0 : UInt8) ∉ t

instance (t : Bytes) : Decidable (NulFree t) := inferInstanceAs (Decidable (_ ∉ _))

/-- A C string as a value. -/
abbrev CString := {t : Bytes // NulFree t}

theorem nulFree_cstr (p : Bytes) : NulFree (cstr p) := by
  intro h
  have := List.all_eq_true.1 (List.all_takeWhile : (cstr p).all (· ≠ 0) = true) 0 h
  simp at this

/-- A string literal. -/
def lit (s : String) : CString := ⟨cstr (ascii s), nulFree_cstr _⟩

/-- A C string of `n` letters. -/
def letters (n : ℕ) : CString :=
  ⟨List.replicate n (ch 'a'), fun h => absurd (List.eq_of_mem_replicate h) (by decide)⟩

/-- The bytes of the C string `t`, terminator included. -/
def cbytes (t : Bytes) : Bytes := t ++ [0]

@[simp] theorem length_cbytes (t : Bytes) : (cbytes t).length = t.length + 1 := by simp [cbytes]

theorem cstr_cbytes {t : Bytes} (h : NulFree t) (r : Bytes) : cstr (cbytes t ++ r) = t := by
  induction t with
  | nil => simp [cbytes, cstr]
  | cons b t ih =>
    simp only [NulFree, List.mem_cons, not_or] at h
    have hb : b ≠ 0 := fun h0 => h.1 h0.symm
    have := ih h.2
    simp only [cbytes, cstr, List.cons_append] at this ⊢
    rw [List.takeWhile_cons_of_pos (by simpa using hb), this]

/-! ## Big-endian integers -/

/-- The last `w` big-endian bytes of `n`. -/
def encodeBE : ℕ → ℕ → Bytes
  | 0, _ => []
  | w + 1, n => (n / 256 ^ w).toUInt8 :: encodeBE w n

/-- The number whose big-endian bytes are `bs`. -/
def decodeBE (bs : Bytes) : ℕ := bs.foldl (fun a b => a * 256 + b.toNat) 0

@[simp] theorem length_encodeBE (w n : ℕ) : (encodeBE w n).length = w := by
  induction w with
  | zero => rfl
  | succ w ih => simp [encodeBE, ih]

theorem foldl_decodeBE (bs : Bytes) (a : ℕ) :
    bs.foldl (fun a b => a * 256 + b.toNat) a = a * 256 ^ bs.length + decodeBE bs := by
  induction bs generalizing a with
  | nil => simp [decodeBE]
  | cons b bs ih =>
    simp only [decodeBE, List.foldl_cons, List.length_cons]
    rw [ih, ih (0 * 256 + b.toNat)]
    ring

theorem decodeBE_cons (b : UInt8) (bs : Bytes) :
    decodeBE (b :: bs) = b.toNat * 256 ^ bs.length + decodeBE bs := by
  rw [decodeBE, List.foldl_cons, foldl_decodeBE, Nat.zero_mul, Nat.zero_add]

theorem decodeBE_append (a b : Bytes) :
    decodeBE (a ++ b) = decodeBE a * 256 ^ b.length + decodeBE b := by
  rw [decodeBE, List.foldl_append, foldl_decodeBE]
  rfl

theorem decodeBE_lt (bs : Bytes) : decodeBE bs < 256 ^ bs.length := by
  induction bs with
  | nil => decide
  | cons b bs ih =>
    rw [decodeBE_cons, List.length_cons, pow_succ]
    have hb : b.toNat ≤ 255 := by have := b.toNat_lt; omega
    have := Nat.mul_le_mul_right (256 ^ bs.length) hb
    omega

theorem decodeBE_encodeBE_mod (w n : ℕ) : decodeBE (encodeBE w n) = n % 256 ^ w := by
  induction w with
  | zero => simp [encodeBE, decodeBE, Nat.mod_one]
  | succ w ih =>
    rw [encodeBE, decodeBE_cons, ih, length_encodeBE, Nat.pow_succ, Nat.mod_mul, Nat.add_comm,
      Nat.mul_comm]
    simp

/-- A number that fits in `w` bytes is read back. -/
theorem decodeBE_encodeBE {w n : ℕ} (h : n < 256 ^ w) : decodeBE (encodeBE w n) = n := by
  rw [decodeBE_encodeBE_mod, Nat.mod_eq_of_lt h]

end Bytes
