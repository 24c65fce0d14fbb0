/-
# Theory.Bits -- bit streams in byte buffers

Bit `m` of a buffer is bit `m % 8` of its byte `m / 8`.  Packers or bytes into zeroed
memory (`Buffer.orAll_spec`).
-/
import VecFetch.Theory.Buffer
import Mathlib.Data.Nat.Bitwise
import Mathlib.Algebra.Ring.Nat

namespace VecFetch.Theory

set_option autoImplicit false

/-! ## Bits of bytes -/

theorem byte_testBit_high (v : UInt8) {j : ℕ} (high : 8 ≤ j) : v.toNat.testBit j = false := by
  apply Nat.testBit_lt_two_pow
  exact Nat.lt_of_lt_of_le v.toNat_lt (Nat.pow_le_pow_right (by decide) high)

/-- Bytes with the same eight bits are the same. -/
theorem byte_ext {v w : UInt8} (bits : ∀ j, j < 8 → v.toNat.testBit j = w.toNat.testBit j) :
    v = w := by
  apply UInt8.toNat_inj.1
  apply Nat.eq_of_testBit_eq
  intro j
  by_cases below : j < 8
  · exact bits j below
  · rw [byte_testBit_high v (by omega), byte_testBit_high w (by omega)]

/-- Truncation to a byte keeps the low eight bits. -/
theorem ofNat_testBit (n j : ℕ) :
    (UInt8.ofNat n).toNat.testBit j = (decide (j < 8) && n.testBit j) := by
  rw [UInt8.toNat_ofNat', Nat.testBit_mod_two_pow]

/-- A number of `n` bits has no bit from `n` on. -/
theorem testBit_of_le {v n j : ℕ} (bound : v < 2 ^ n) (high : n ≤ j) : v.testBit j = false :=
  Nat.testBit_lt_two_pow (Nat.lt_of_lt_of_le bound (Nat.pow_le_pow_right (by decide) high))

/-! ## Little-endian numbers -/

/-- The number that `n` little-endian bytes hold. -/
def leNat (bytes : ℕ → UInt8) : ℕ → ℕ
  | 0 => 0
  | n + 1 => 2 ^ (8 * n) * (bytes n).toNat + leNat bytes n

theorem leNat_lt (bytes : ℕ → UInt8) (n : ℕ) : leNat bytes n < 2 ^ (8 * n) := by
  induction n with
  | zero => exact Nat.one_pos
  | succ n ih =>
      have byte := (bytes n).toNat_lt
      have room : 2 ^ (8 * n) * (bytes n).toNat + 2 ^ (8 * n) ≤ 2 ^ (8 * n) * 2 ^ 8 := by
        rw [← Nat.mul_succ]
        exact Nat.mul_le_mul_left _ byte
      rw [leNat, show 8 * (n + 1) = 8 * n + 8 by omega, Nat.pow_add]
      omega

/-- Bit `j` of the number is bit `j % 8` of byte `j / 8`. -/
theorem leNat_testBit (bytes : ℕ → UInt8) (n j : ℕ) :
    (leNat bytes n).testBit j = (decide (j < 8 * n) && (bytes (j / 8)).toNat.testBit (j % 8)) := by
  induction n with
  | zero => simp [leNat]
  | succ n ih =>
      rw [leNat, Nat.testBit_two_pow_mul_add _ (leNat_lt bytes n)]
      by_cases low : j < 8 * n
      · rw [if_pos low, ih, decide_eq_true low, decide_eq_true (show j < 8 * (n + 1) by omega)]
      · rw [if_neg low]
        by_cases here : j < 8 * (n + 1)
        · have position : j / 8 = n := by omega
          rw [decide_eq_true here, Bool.true_and, position, show j - 8 * n = j % 8 by omega]
        · rw [decide_eq_false here, Bool.false_and, byte_testBit_high _ (by omega)]

/-- The `n` little-endian bytes of a number. -/
def leBytes (n v : ℕ) : List UInt8 := (List.range n).map fun i => UInt8.ofNat (v >>> (8 * i))

@[simp] theorem leBytes_length (n v : ℕ) : (leBytes n v).length = n := by simp [leBytes]

theorem leBytes_getD {n i : ℕ} (v : ℕ) (below : i < n) :
    (leBytes n v).getD i 0 = UInt8.ofNat (v >>> (8 * i)) := by
  simp [leBytes, List.getD, below]

/-- Reading the bytes of a number back. -/
theorem leNat_leBytes {bytes : ℕ → UInt8} {n v : ℕ} (bound : v < 2 ^ (8 * n))
    (held : ∀ i, i < n → bytes i = (leBytes n v).getD i 0) : leNat bytes n = v := by
  apply Nat.eq_of_testBit_eq
  intro j
  rw [leNat_testBit]
  by_cases below : j < 8 * n
  · have position : 8 * (j / 8) + j % 8 = j := by omega
    rw [decide_eq_true below, Bool.true_and, held _ (by omega), leBytes_getD v (by omega),
      ofNat_testBit, decide_eq_true (by omega), Bool.true_and, Nat.testBit_shiftRight, position]
  · rw [decide_eq_false below, Bool.false_and, testBit_of_le bound (by omega)]

namespace Buffer

/-! ## Buffers of given bytes -/

/-- The buffer of a list of bytes. -/
def ofList (bytes : List UInt8) : Buffer := ⟨bytes.length, fun i => bytes.getD i 0⟩

def toList (b : Buffer) : List UInt8 := (List.range b.size).map b.byte

@[simp] theorem toList_length (b : Buffer) : b.toList.length = b.size := by simp [toList]

/-- A pointer into a buffer: the bytes from an address on. -/
def drop (b : Buffer) (off : ℕ) : Buffer := ⟨b.size - off, fun i => b.byte (off + i)⟩

/-- Bit `m` of the buffer's bit stream. -/
def bit (b : Buffer) (m : ℕ) : Bool := (b.byte (m / 8)).toNat.testBit (m % 8)

/-- `b[k]`. -/
def byteAt (b : Buffer) (k : ℕ) : Option UInt8 := (b.load k 1).map fun bytes => bytes 0

theorem byteAt_inside {b : Buffer} {k : ℕ} (inside : k < b.size) : b.byteAt k = some (b.byte k) := by
  rw [byteAt, load_inside (by omega)]
  rfl

/-! ## Or-ing bytes in -/

/-- `b[k] |= v`, for `op = (k, v)`. -/
def orAt (b : Buffer) (op : ℕ × UInt8) : Option Buffer :=
  if op.1 < b.size then
    some { b with byte := fun i => if i = op.1 then b.byte i ||| op.2 else b.byte i }
  else none

/-- Or-ing one byte in sets its bits and leaves the rest. -/
theorem orAt_spec {b : Buffer} {k : ℕ} (inside : k < b.size) (v : UInt8) :
    ∃ b', b.orAt (k, v) = some b' ∧ b'.size = b.size ∧
      ∀ m, b'.bit m = (b.bit m || (decide (m / 8 = k) && v.toNat.testBit (m % 8))) := by
  refine ⟨_, if_pos inside, rfl, ?_⟩
  intro m
  by_cases here : m / 8 = k
  · simp [bit, here, UInt8.toNat_or]
  · simp [bit, here]

def orAll (b : Buffer) : List (ℕ × UInt8) → Option Buffer
  | [] => some b
  | op :: ops => (b.orAt op).bind fun b' => b'.orAll ops

/-- Or-ing inside succeeds and sets exactly the bits of the operands. -/
theorem orAll_spec {ops : List (ℕ × UInt8)} {b : Buffer} (inside : ∀ op ∈ ops, op.1 < b.size) :
    ∃ b', b.orAll ops = some b' ∧ b'.size = b.size ∧ ∀ k j,
      (b'.byte k).toNat.testBit j = true ↔
        (b.byte k).toNat.testBit j = true ∨ ∃ op ∈ ops, op.1 = k ∧ op.2.toNat.testBit j = true := by
  induction ops generalizing b with
  | nil => exact ⟨b, rfl, rfl, fun k j => by simp⟩
  | cons op ops ih =>
      have here : op.1 < b.size := inside op List.mem_cons_self
      obtain ⟨b', rest, size, bits⟩ := @ih
        { b with byte := fun i => if i = op.1 then b.byte i ||| op.2 else b.byte i }
        fun o mem => inside o (List.mem_cons_of_mem _ mem)
      refine ⟨b', by rw [orAll, orAt, if_pos here, Option.bind_some, rest], size, fun k j => ?_⟩
      rw [bits k j]
      by_cases same : k = op.1
      · subst same
        simp [UInt8.toNat_or, or_assoc]
      · have apart : ¬ op.1 = k := fun eq => same eq.symm
        simp [same, apart]

/-- Bytes or-ed in are inside. -/
theorem orAll_some {ops : List (ℕ × UInt8)} {b b' : Buffer} (ored : b.orAll ops = some b') :
    b'.size = b.size ∧ ∀ op ∈ ops, op.1 < b.size := by
  induction ops generalizing b with
  | nil =>
      cases ored
      exact ⟨rfl, fun op mem => absurd mem List.not_mem_nil⟩
  | cons op ops ih =>
      rw [orAll, orAt] at ored
      split at ored
      · next here =>
          obtain ⟨size, rest⟩ := ih ored
          exact ⟨size, List.forall_mem_cons.2 ⟨here, rest⟩⟩
      · cases ored

end Buffer

end VecFetch.Theory
