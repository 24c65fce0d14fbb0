/-
# Theory.Lanes -- registers of 16-bit lanes

A vector register is its 16-bit lanes; bytes `2i` and `2i + 1` are the low and the high
byte of lane `i`.  Adding whole lanes and, apart from that, their high bytes sums the
low bytes too: the whole minus the high sum shifted back is the low sum modulo `2 ^ 16`
(`BytePairs.Sums.low_eq`).
-/
import Mathlib.Data.Nat.Bitwise
import Mathlib.Tactic.Common

namespace VecFetch.Theory

set_option autoImplicit false

/-- A vector register, as its 16-bit lanes. -/
abbrev Register := ℕ → UInt16

namespace Register

/-- The register with the given bytes. -/
def ofBytes (bytes : ℕ → UInt8) : Register := fun i =>
  UInt16.ofNat ((bytes (2 * i)).toNat + 256 * (bytes (2 * i + 1)).toNat)

def byte (r : Register) (j : ℕ) : UInt8 :=
  UInt8.ofNat (if j % 2 = 0 then (r (j / 2)).toNat % 256 else (r (j / 2)).toNat / 256)

def zero : Register := fun _ => 0

def add (a b : Register) : Register := fun i => a i + b i

def sub (a b : Register) : Register := fun i => a i - b i

def shiftLeft (a : Register) (n : UInt16) : Register := fun i => a i <<< n

def shiftRight (a : Register) (n : UInt16) : Register := fun i => a i >>> n

/-- The bytewise conjunction with one byte. -/
def andByte (a : Register) (mask : UInt8) : Register := ofBytes fun j => a.byte j &&& mask

/-- Each byte selects one of the sixteen table bytes of its 128-bit lane, or zero if its
top bit is set. -/
def shuffle (table index : Register) : Register := ofBytes fun j =>
  if 128 ≤ (index.byte j).toNat then 0 else table.byte (16 * (j / 16) + (index.byte j).toNat % 16)

/-- `permute2f128(a, b, 0x21)`: the high half of `a` below the low half of `b`. -/
def permuteHalves (a b : Register) : Register := fun i => if i < 8 then a (i + 8) else b (i - 8)

/-- `blend_epi32(a, b, 0xF0)`: the low half of `a` below the high half of `b`. -/
def blendHalves (a b : Register) : Register := fun i => if i < 8 then a i else b i

/-- `unpacklo_epi8` (from byte 0) and `unpackhi_epi8` (from byte 8): bytes of `a` and `b`
in turn. -/
def unpack8 (first : ℕ) (a b : Register) : Register := ofBytes fun j =>
  if j % 2 = 0 then a.byte (first + j / 2) else b.byte (first + j / 2)

/-- `unpacklo_epi16` (from lane 0) and `unpackhi_epi16` (from lane 4). -/
def unpack16 (first : ℕ) (a b : Register) : Register := fun i =>
  if i % 2 = 0 then a (first + i / 2) else b (first + i / 2)

/-- The upper 256 bits of a 512-bit register. -/
def upper (a : Register) : Register := fun i => a (i + 16)

/-! ## Bytes of a register -/

theorem ofBytes_toNat (bytes : ℕ → UInt8) (i : ℕ) :
    (ofBytes bytes i).toNat = (bytes (2 * i)).toNat + 256 * (bytes (2 * i + 1)).toNat := by
  have low := (bytes (2 * i)).toNat_lt
  have high := (bytes (2 * i + 1)).toNat_lt
  rw [ofBytes, UInt16.toNat_ofNat']
  exact Nat.mod_eq_of_lt (by omega)

@[simp] theorem byte_ofBytes (bytes : ℕ → UInt8) (j : ℕ) : (ofBytes bytes).byte j = bytes j := by
  apply UInt8.toNat_inj.1
  rw [byte, UInt8.toNat_ofNat', ofBytes_toNat]
  have low := (bytes (2 * (j / 2))).toNat_lt
  have high := (bytes (2 * (j / 2) + 1)).toNat_lt
  split
  · have even : 2 * (j / 2) = j := by omega
    rw [even] at low ⊢
    omega
  · have odd : 2 * (j / 2) + 1 = j := by omega
    rw [odd] at high ⊢
    omega

theorem byte_toNat (r : Register) (j : ℕ) : (r.byte j).toNat =
    if j % 2 = 0 then (r (j / 2)).toNat % 256 else (r (j / 2)).toNat / 256 := by
  have := (r (j / 2)).toNat_lt
  rw [byte, UInt8.toNat_ofNat']
  split <;> omega

/-- Masking with `0x0F` keeps the low nibble of each byte. -/
theorem lowNibble_byte (bytes : ℕ → UInt8) (j : ℕ) :
    (((ofBytes bytes).andByte 0x0F).byte j).toNat = (bytes j).toNat % 16 := by
  rw [andByte, byte_ofBytes, byte_ofBytes, UInt8.toNat_and]
  exact Nat.and_two_pow_sub_one_eq_mod (bytes j).toNat 4

/-- Shifting lanes by four and masking with `0x0F` keeps the high nibble of each byte. -/
theorem highNibble_byte (bytes : ℕ → UInt8) (j : ℕ) :
    ((((ofBytes bytes).shiftRight 4).andByte 0x0F).byte j).toNat = (bytes j).toNat / 16 := by
  rw [andByte, byte_ofBytes, UInt8.toNat_and]
  have mask : ∀ n : ℕ, n &&& (0x0F : UInt8).toNat = n % 16 :=
    fun n => Nat.and_two_pow_sub_one_eq_mod n 4
  rw [mask, byte_toNat, shiftRight, UInt16.toNat_shiftRight, ofBytes_toNat]
  have low := (bytes (2 * (j / 2))).toNat_lt
  have high := (bytes (2 * (j / 2) + 1)).toNat_lt
  simp only [UInt16.reduceToNat, Nat.shiftRight_eq_div_pow, Nat.reduceMod, Nat.reducePow]
  split
  · have even : 2 * (j / 2) = j := by omega
    rw [even] at low ⊢
    omega
  · have odd : 2 * (j / 2) + 1 = j := by omega
    rw [odd] at high ⊢
    omega

/-- Shifting lanes and masking the low `width` bits of each byte keeps bits `shift` to
`shift + width` of it. -/
theorem field_byte (bytes : ℕ → UInt8) {shift width : ℕ} {n : UInt16} {mask : UInt8}
    (amount : n.toNat = shift) (low : mask.toNat = 2 ^ width - 1) (room : shift + width ≤ 8)
    (j t : ℕ) :
    ((((ofBytes bytes).shiftRight n).andByte mask).byte j).toNat.testBit t =
      (decide (t < width) && (bytes j).toNat.testBit (shift + t)) := by
  rw [andByte, byte_ofBytes, UInt8.toNat_and, Nat.testBit_and, low, Nat.testBit_two_pow_sub_one,
    Bool.and_comm]
  by_cases inWidth : t < width
  · rw [decide_eq_true inWidth, Bool.true_and, Bool.true_and, byte, UInt8.toNat_ofNat',
      Nat.testBit_mod_two_pow, decide_eq_true (show t < 8 by omega), Bool.true_and, shiftRight,
      UInt16.toNat_shiftRight, amount, Nat.mod_eq_of_lt (show shift < 16 by omega),
      ofBytes_toNat, Nat.add_comm,
      show (256 : ℕ) = 2 ^ 8 from rfl]
    have small := (bytes (2 * (j / 2))).toNat_lt
    split
    · rw [Nat.testBit_mod_two_pow, decide_eq_true (show t < 8 by omega), Bool.true_and,
        Nat.testBit_shiftRight, Nat.testBit_two_pow_mul_add _ small, if_pos (by omega),
        show 2 * (j / 2) = j by omega]
    · rw [← Nat.shiftRight_eq_div_pow, Nat.testBit_shiftRight, Nat.testBit_shiftRight,
        Nat.testBit_two_pow_mul_add _ small, if_neg (by omega),
        show 2 * (j / 2) + 1 = j by omega, show shift + (8 + t) - 8 = shift + t by omega]
  · rw [decide_eq_false inWidth, Bool.false_and, Bool.false_and]

/-- Shifting by nothing. -/
theorem shiftRight_zero (a : Register) : a.shiftRight 0 = a := by
  funext i
  rw [shiftRight, UInt16.shiftRight_zero]

theorem unpack8_byte (first : ℕ) (a b : Register) (j : ℕ) : (unpack8 first a b).byte j =
    if j % 2 = 0 then a.byte (first + j / 2) else b.byte (first + j / 2) :=
  byte_ofBytes _ j

theorem unpack16_byte (first : ℕ) (a b : Register) (j : ℕ) : (unpack16 first a b).byte j =
    if j / 2 % 2 = 0 then a.byte (2 * (first + j / 4) + j % 2)
    else b.byte (2 * (first + j / 4) + j % 2) := by
  have parity : (2 * (first + j / 4) + j % 2) % 2 = j % 2 := by omega
  have lane : (2 * (first + j / 4) + j % 2) / 2 = first + j / 2 / 2 := by omega
  simp only [byte, unpack16, parity, lane]
  by_cases even : j / 2 % 2 = 0
  · rw [if_pos even, if_pos even]
  · rw [if_neg even, if_neg even]

/-- A shuffle by nibbles looks each byte up in its lane's table. -/
theorem shuffle_nibbles (table : ℕ → UInt8) {index : Register}
    (nibbles : ∀ j, (index.byte j).toNat < 16) :
    (ofBytes table).shuffle index =
      ofBytes fun j => table (16 * (j / 16) + (index.byte j).toNat) := by
  unfold shuffle
  congr 1
  funext j
  have := nibbles j
  rw [if_neg (by omega), byte_ofBytes, Nat.mod_eq_of_lt this]

end Register

/-! ## Sums of byte pairs -/

/-- Two accumulators: whole lanes, and their high bytes. -/
structure BytePairs where
  whole : Register
  high : Register

namespace BytePairs

def zero : BytePairs := ⟨.zero, .zero⟩

/-- Add a register to both accumulators. -/
def accumulate (acc : BytePairs) (r : Register) : BytePairs :=
  ⟨acc.whole.add r, acc.high.add (r.shiftRight 8)⟩

/-- The accumulators hold the byte sums `sum`, up to the width of a lane. -/
structure Sums (sum : ℕ → ℕ) (acc : BytePairs) : Prop where
  whole : ∀ i, acc.whole i = UInt16.ofNat (sum (2 * i) + 256 * sum (2 * i + 1))
  high : ∀ i, acc.high i = UInt16.ofNat (sum (2 * i + 1))

theorem sums_zero : Sums (fun _ => 0) zero := ⟨fun _ => rfl, fun _ => rfl⟩

theorem Sums.accumulate {sum : ℕ → ℕ} {acc : BytePairs} (sums : Sums sum acc) (bytes : ℕ → UInt8) :
    Sums (fun j => sum j + (bytes j).toNat) (acc.accumulate (.ofBytes bytes)) := by
  constructor
  · intro i
    have whole : (acc.accumulate (.ofBytes bytes)).whole i =
        acc.whole i + Register.ofBytes bytes i := rfl
    rw [whole, sums.whole i, Register.ofBytes, ← UInt16.ofNat_add]
    congr 1
    omega
  · intro i
    have byte : Register.ofBytes bytes i >>> 8 = UInt16.ofNat (bytes (2 * i + 1)).toNat := by
      apply UInt16.toNat_inj.1
      rw [UInt16.toNat_shiftRight, Register.ofBytes_toNat, UInt16.toNat_ofNat']
      have low := (bytes (2 * i)).toNat_lt
      have high := (bytes (2 * i + 1)).toNat_lt
      simp only [UInt16.reduceToNat, Nat.shiftRight_eq_div_pow, Nat.reduceMod, Nat.reducePow]
      omega
    have high : (acc.accumulate (.ofBytes bytes)).high i =
        acc.high i + Register.ofBytes bytes i >>> 8 := rfl
    rw [high, byte, sums.high i, ← UInt16.ofNat_add]

/-- Both accumulators folded to 256 bits. -/
def fold (acc : BytePairs) : BytePairs :=
  ⟨acc.whole.add acc.whole.upper, acc.high.add acc.high.upper⟩

theorem Sums.fold {sum : ℕ → ℕ} {acc : BytePairs} (sums : Sums sum acc) :
    Sums (fun j => sum j + sum (j + 32)) acc.fold := by
  constructor
  · intro i
    have whole : acc.fold.whole i = acc.whole i + acc.whole (i + 16) := rfl
    rw [whole, sums.whole i, sums.whole (i + 16), ← UInt16.ofNat_add]
    congr 1
    rw [show 2 * (i + 16) = 2 * i + 32 by omega, show 2 * i + 32 + 1 = 2 * i + 1 + 32 by omega]
    omega
  · intro i
    have high : acc.fold.high i = acc.high i + acc.high (i + 16) := rfl
    rw [high, sums.high i, sums.high (i + 16), ← UInt16.ofNat_add,
      show 2 * (i + 16) + 1 = 2 * i + 1 + 32 by omega]

/-- The sums of the low bytes: the whole lanes less the high sums shifted back. -/
def low (acc : BytePairs) : Register := acc.whole.sub (acc.high.shiftLeft 8)

theorem Sums.low_eq {sum : ℕ → ℕ} {acc : BytePairs} (sums : Sums sum acc) (i : ℕ) :
    acc.low i = UInt16.ofNat (sum (2 * i)) := by
  have shift : ∀ x : UInt16, x <<< 8 = UInt16.ofNat 256 * x := by
    intro x
    apply UInt16.toNat_inj.1
    rw [UInt16.toNat_shiftLeft, UInt16.toNat_mul]
    simp only [UInt16.reduceToNat, Nat.shiftLeft_eq, UInt16.toNat_ofNat', Nat.reduceMod,
      Nat.reducePow]
    omega
  simp only [low, Register.sub, Register.shiftLeft]
  rw [shift, sums.whole i, sums.high i, UInt16.ofNat_add, UInt16.ofNat_mul, UInt16.add_sub_cancel]

/-- The byte of a 128-bit lane that the permuted sums hold at `i`. -/
def lanePos (i : ℕ) : ℕ := if i < 8 then 2 * i else 2 * (i - 8) + 1

/-- Blending and permuting the low and high sums brings the two 128-bit lanes together. -/
theorem Sums.lanes_toNat {sum : ℕ → ℕ} {acc : BytePairs} (sums : Sums sum acc) (i : ℕ) :
    (acc.low.permuteHalves acc.high i).toNat + (acc.low.blendHalves acc.high i).toNat =
      sum (lanePos i) % 2 ^ 16 + sum (lanePos i + 16) % 2 ^ 16 := by
  unfold Register.permuteHalves Register.blendHalves lanePos
  split
  · rw [sums.low_eq, sums.low_eq, UInt16.toNat_ofNat', UInt16.toNat_ofNat', Nat.add_comm,
      show 2 * (i + 8) = 2 * i + 16 by omega]
  · rw [sums.high, sums.high, UInt16.toNat_ofNat', UInt16.toNat_ofNat',
      show 2 * (i - 8) + 1 + 16 = 2 * i + 1 by omega]

/-- Their 16-bit sum. -/
theorem Sums.lanes_add {sum : ℕ → ℕ} {acc : BytePairs} (sums : Sums sum acc) (i : ℕ) :
    (acc.low.permuteHalves acc.high i + acc.low.blendHalves acc.high i).toNat =
      (sum (lanePos i) + sum (lanePos i + 16)) % 2 ^ 16 := by
  rw [UInt16.toNat_add, sums.lanes_toNat i, ← Nat.add_mod]

end BytePairs

end VecFetch.Theory
