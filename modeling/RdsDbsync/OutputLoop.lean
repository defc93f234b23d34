/-
  The output loop of `out_put_decode_message` (`utils.c`), which writes a buffer to a
  descriptor with as many calls of `write` as it takes.

  `writesOnce_iff`: the buffer is written once and in order exactly when no call fails.
-/
import Mathlib.Algebra.BigOperators.Group.Finset.Basic
import Mathlib.Algebra.Order.BigOperators.Group.Finset
import RdsDbsync.Message

namespace RdsDbsync

open Bytes

/-! ## The buffer and the descriptor -/

/-- A `PQExpBuffer`; libpq lets none reach `INT_MAX` bytes. -/
structure PQExpBufferData where
  data : Bytes
  length_lt : data.length < 2 ^ 31 - 1

namespace PQExpBufferData

/-- `buffer->data[i]`; `around` is the memory before the buffer and behind it. -/
def byteAt (buffer : PQExpBufferData) (around : ℤ → UInt8) (i : ℤ) : UInt8 :=
  if 0 ≤ i then buffer.data[i.toNat]?.getD (around i) else around i

end PQExpBufferData

/-- What a call of `write` comes to: `-1`, or so many bytes, or all that are asked for if these
are fewer. -/
inductive WriteResult where
  | error
  | bytes (n : ℕ)
  deriving DecidableEq

namespace WriteResult

/-- The number of bytes that the descriptor is ready to accept. -/
def ready : WriteResult → ℕ
  | error => 0
  | bytes n => n

/-- `ret`, when `count` bytes are asked for. -/
def ret (count : ℕ) : WriteResult → ℤ
  | error => -1
  | bytes n => asInt (min n count : ℕ)

end WriteResult

/-! ## The loop -/

/-- The variables of the loop, and the bytes that the descriptor has accepted. -/
structure OutputLoop where
  bytesLeft : ℤ
  bytesWritten : ℤ
  accepted : Bytes
  deriving DecidableEq

namespace OutputLoop

/-- `bytes_left` as the `size_t` that `write` gets. -/
def count (s : OutputLoop) : ℕ := (s.bytesLeft % 2 ^ 64).toNat

/-- The body of the loop. -/
def body (buffer : PQExpBufferData) (around : ℤ → UInt8) (s : OutputLoop) (r : WriteResult) :
    OutputLoop where
  bytesLeft := asInt (s.bytesLeft - r.ret s.count)
  bytesWritten := asInt (s.bytesWritten + r.ret s.count)
  accepted := s.accepted ++
    (List.range (min r.ready s.count)).map fun i : ℕ =>
      buffer.byteAt around (s.bytesWritten + i)

/-- The state before call number `n`, or at the end if the loop makes fewer calls. -/
def before (buffer : PQExpBufferData) (around : ℤ → UInt8) (results : ℕ → WriteResult) :
    ℕ → OutputLoop
  | 0 => ⟨asInt buffer.data.length, 0, []⟩
  | n + 1 =>
    let s := before buffer around results n
    if s.bytesLeft = 0 then s else s.body buffer around (results n)

end OutputLoop

open OutputLoop

/-- The loop writes the buffer once, in order. -/
structure WritesOnce (buffer : PQExpBufferData) (around : ℤ → UInt8)
    (results : ℕ → WriteResult) : Prop where
  /-- What a call asks for starts behind the accepted bytes and lies in the buffer. -/
  requested : ∀ n, (before buffer around results n).bytesLeft ≠ 0 →
    (before buffer around results n).bytesWritten =
        (before buffer around results n).accepted.length ∧
      (before buffer around results n).accepted.length + (before buffer around results n).count ≤
        buffer.data.length
  inOrder : ∀ n, (before buffer around results n).accepted <+: buffer.data
  /-- With finitely many errors, and progress again and again, the loop ends. -/
  whole : (∃ N, ∀ n ≥ N, results n ≠ .error) → (∀ N, ∃ n ≥ N, (results n).ready ≠ 0) →
    ∃ n, (before buffer around results n).bytesLeft = 0 ∧
      (before buffer around results n).accepted = buffer.data

/-! ## The loop without errors -/

/-- The state in which `k` bytes have been accepted, and no call has failed. -/
def OutputLoop.reached (buffer : PQExpBufferData) (k : ℕ) : OutputLoop :=
  ⟨(buffer.data.length : ℤ) - k, k, buffer.data.take k⟩

section
variable {buffer : PQExpBufferData} {around : ℤ → UInt8} {results : ℕ → WriteResult}

theorem PQExpBufferData.byteAt_natCast {i : ℕ} (h : i < buffer.data.length) :
    buffer.byteAt around i = buffer.data[i] := by
  unfold PQExpBufferData.byteAt
  rw [if_pos (by omega), Int.toNat_natCast, List.getElem?_eq_getElem h, Option.getD_some]

/-- What lies in the buffer is read from it. -/
theorem PQExpBufferData.map_byteAt {k c : ℕ} (h : k + c ≤ buffer.data.length) :
    ((List.range c).map fun i : ℕ => buffer.byteAt around (k + i)) =
      (buffer.data.drop k).take c := by
  refine List.ext_getElem ?_ ?_
  · simp only [List.length_map, List.length_range, List.length_take, List.length_drop]
    omega
  · intro i hi _
    rw [List.length_map, List.length_range] at hi
    have hat : buffer.byteAt around ((k + i : ℕ) : ℤ) = buffer.data[k + i] :=
      PQExpBufferData.byteAt_natCast (by omega)
    simpa using hat

theorem count_reached {k : ℕ} (hk : k ≤ buffer.data.length) :
    (reached buffer k).count = buffer.data.length - k := by
  have hlt := buffer.length_lt
  show (((buffer.data.length : ℤ) - k) % 2 ^ 64).toNat = _
  omega

theorem bytesLeft_reached {k : ℕ} :
    (reached buffer k).bytesLeft = 0 ↔ k = buffer.data.length := by
  show (buffer.data.length : ℤ) - k = 0 ↔ _
  omega

/-- A call that succeeds moves on by what is accepted. -/
theorem body_reached {k : ℕ} (hk : k ≤ buffer.data.length) (n : ℕ) :
    (reached buffer k).body buffer around (.bytes n) =
      reached buffer (min buffer.data.length (k + n)) := by
  have hlt := buffer.length_lt
  have hcount := count_reached hk
  obtain ⟨c, hc⟩ : ∃ c, c = min n (buffer.data.length - k) := ⟨_, rfl⟩
  have hfits : k + c ≤ buffer.data.length := by omega
  have hret : (WriteResult.bytes n).ret (reached buffer k).count = c := by
    rw [hcount, WriteResult.ret, ← hc]
    exact asInt_of_lt (by omega) (by omega)
  have hnext : min buffer.data.length (k + n) = k + c := by omega
  have hready : min (WriteResult.bytes n).ready (reached buffer k).count = c := by
    rw [hcount, hc]
    rfl
  unfold OutputLoop.body
  rw [hret, hready, hnext]
  unfold reached
  have hleft : asInt ((buffer.data.length : ℤ) - k - c) = buffer.data.length - (k + c : ℕ) := by
    rw [asInt_of_lt (by omega) (by omega)]
    omega
  have hwritten : asInt ((k : ℤ) + c) = (k + c : ℕ) := asInt_of_lt (by omega) (by omega)
  simp only [hleft, hwritten]
  rw [PQExpBufferData.map_byteAt hfits, ← List.take_add]

/-- While no call fails before everything is accepted, the state follows from the number of
bytes that the descriptor was ready to accept. -/
theorem before_eq {n : ℕ} (hok : ∀ m < n, results m = .error →
      buffer.data.length ≤ ∑ i ∈ Finset.range m, (results i).ready) :
    before buffer around results n =
      reached buffer (min buffer.data.length (∑ i ∈ Finset.range n, (results i).ready)) := by
  induction n with
  | zero =>
    have hlt := buffer.length_lt
    simp only [before, reached, Finset.range_zero, Finset.sum_empty, Nat.min_zero, List.take_zero,
      Nat.cast_zero, sub_zero]
    rw [asInt_of_lt (by omega) (by omega)]
  | succ n ih =>
    specialize ih fun m hm => hok m (by omega)
    rw [Finset.sum_range_succ]
    obtain ⟨k, hk⟩ : ∃ k, k = ∑ i ∈ Finset.range n, (results i).ready := ⟨_, rfl⟩
    rw [← hk] at ih ⊢
    unfold before
    simp only [ih, bytesLeft_reached]
    split_ifs with hall
    · congr 1
      omega
    · cases hr : results n with
      | error =>
        have := hok n (by omega) hr
        omega
      | bytes c =>
        rw [body_reached (by omega)]
        congr 1
        show _ = min buffer.data.length (k + c)
        omega

/-- What makes progress again and again exceeds every bound. -/
theorem exists_le_sum {f : ℕ → ℕ} (hf : ∀ N, ∃ n ≥ N, f n ≠ 0) (bound : ℕ) :
    ∃ n, bound ≤ ∑ i ∈ Finset.range n, f i := by
  induction bound with
  | zero => exact ⟨0, Nat.zero_le _⟩
  | succ bound ih =>
    obtain ⟨N, hN⟩ := ih
    obtain ⟨n, hn, hpos⟩ := hf N
    refine ⟨n + 1, ?_⟩
    have hmono : ∑ i ∈ Finset.range N, f i ≤ ∑ i ∈ Finset.range n, f i :=
      Finset.sum_le_sum_of_subset (Finset.range_mono hn)
    rw [Finset.sum_range_succ]
    omega

/-! ## The loop with errors -/

/-- Whatever the calls come to, the offset and the remaining count add up to the length: a
failed call moves both ends of what the next one asks for. -/
theorem bytesWritten_add_bytesLeft (n : ℕ) :
    asInt ((before buffer around results n).bytesWritten +
      (before buffer around results n).bytesLeft) = asInt buffer.data.length := by
  induction n with
  | zero =>
    unfold before asInt
    rw [zero_add, Int.bmod_bmod]
  | succ n ih =>
    obtain ⟨s, hs⟩ : ∃ s, s = before buffer around results n := ⟨_, rfl⟩
    unfold before
    rw [← hs] at ih ⊢
    by_cases hend : s.bytesLeft = 0
    · simpa only [hend, if_true] using ih
    · simp only [hend, if_false]
      rw [← ih]
      unfold OutputLoop.body asInt
      rw [Int.add_bmod_bmod, Int.bmod_add_bmod]
      congr 1
      omega

/-- A call that fails moves the next one back before the accepted bytes. -/
theorem body_error {k : ℕ} (hk : k < buffer.data.length) :
    (reached buffer k).body buffer around .error =
      ⟨(buffer.data.length : ℤ) - k + 1, (k : ℤ) - 1, buffer.data.take k⟩ := by
  have hlt := buffer.length_lt
  unfold OutputLoop.body reached
  simp only [WriteResult.ret, WriteResult.ready, Nat.zero_min, List.range_zero, List.map_nil,
    List.append_nil]
  rw [asInt_of_lt (by omega) (by omega), asInt_of_lt (by omega) (by omega)]
  simp only [sub_neg_eq_add, Int.add_neg_eq_sub]

/-- **The loop writes the buffer once, in order, exactly when no call of `write` fails before
the whole buffer is accepted.** -/
theorem writesOnce_iff (buffer : PQExpBufferData) (around : ℤ → UInt8)
    (results : ℕ → WriteResult) :
    WritesOnce buffer around results ↔
      ∀ n, results n = .error →
        buffer.data.length ≤ ∑ i ∈ Finset.range n, (results i).ready := by
  constructor
  · intro h n
    -- the first call that fails too early has only successful calls before it
    induction n using Nat.strong_induction_on with
    | _ n ih =>
      intro hr
      by_contra hlt
      rw [Nat.not_le] at hlt
      have hn : before buffer around results n = reached buffer
          (min buffer.data.length (∑ i ∈ Finset.range n, (results i).ready)) := before_eq ih
      rw [Nat.min_eq_right hlt.le] at hn
      have hnext : before buffer around results (n + 1) =
          (reached buffer (∑ i ∈ Finset.range n, (results i).ready)).body buffer around .error := by
        unfold before
        simp only [hn, hr, bytesLeft_reached]
        rw [if_neg hlt.ne]
      rw [body_error hlt] at hnext
      have hreq := (h.requested (n + 1)).mt
      rw [hnext] at hreq
      simp only [List.length_take, Nat.min_eq_left hlt.le] at hreq
      omega
  · intro hok
    have hall (n : ℕ) : before buffer around results n = reached buffer
        (min buffer.data.length (∑ i ∈ Finset.range n, (results i).ready)) :=
      before_eq fun m _ => hok m
    constructor
    · intro n hleft
      rw [hall] at hleft ⊢
      obtain ⟨k, hk⟩ : ∃ k, k =
        min buffer.data.length (∑ i ∈ Finset.range n, (results i).ready) := ⟨_, rfl⟩
      rw [← hk] at hleft ⊢
      rw [count_reached (by omega)]
      simp only [reached, List.length_take]
      omega
    · intro n
      rw [hall]
      exact List.take_prefix _ _
    · intro _ hprogress
      obtain ⟨n, hn⟩ := exists_le_sum hprogress buffer.data.length
      refine ⟨n, ?_⟩
      rw [hall, Nat.min_eq_left hn, bytesLeft_reached]
      exact ⟨rfl, List.take_length⟩

end

/-! ## A call that fails -/

/-- A buffer of six bytes. -/
def beginBuffer : PQExpBufferData := ⟨ascii "begin;", by decide⟩

/-- The first call fails: the second asks for seven bytes from `buffer->data - 1`. -/
theorem not_writesOnce_firstFails :
    ¬ WritesOnce beginBuffer (fun _ => 0) fun n => if n = 0 then .error else .bytes 6 := by
  intro h
  have hreq := h.requested 1 (by decide)
  revert hreq
  decide

end RdsDbsync
