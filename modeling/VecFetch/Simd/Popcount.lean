/-
# Simd.Popcount -- counting the bits in which two codes differ

The three builds of `PopcountXor`: eight words at a time with 64-bit counts, four words at a
time with a count for each byte, or word by word.  A byte counts at most eight bits a turn and
is emptied after 31 turns, so it does not overflow, and every build gives the number of set
bits of all words, in 32 bits (`popcountXor_eq`).

A code has as many words as a plane, at most `2 ^ 26`, so the counters of the loops do not wrap.
-/
import VecFetch.Simd.FastScanLut
import VecFetch.Theory.Lanes
import Mathlib.Algebra.BigOperators.Intervals
import Mathlib.Algebra.Order.BigOperators.Group.Finset
import Mathlib.Algebra.BigOperators.Ring.Finset
import Mathlib.Tactic.Ring

namespace VecFetch.Simd

open VecFetch.Theory Finset

set_option autoImplicit false

/-! ## Set bits -/

/-- The set bits below `n`. -/
def bitCount (n x : ℕ) : ℕ := ∑ d ∈ range n, (x.testBit d).toNat

theorem bitCount_le (n x : ℕ) : bitCount n x ≤ n := by
  have each : ∀ d ∈ range n, (x.testBit d).toNat ≤ 1 := fun d _ => Bool.toNat_le _
  calc bitCount n x ≤ ∑ _d ∈ range n, 1 := sum_le_sum each
    _ = n := by simp

/-- The low bits and those behind them. -/
theorem bitCount_add (m n x : ℕ) : bitCount (m + n) x = bitCount m x + bitCount n (x >>> m) := by
  rw [bitCount, sum_range_add, bitCount, bitCount]
  refine congrArg _ (sum_congr rfl fun d _ => ?_)
  rw [Nat.testBit_shiftRight]

theorem bitCount_mod (n x : ℕ) : bitCount n (x % 2 ^ n) = bitCount n x := by
  refine sum_congr rfl fun d mem => ?_
  rw [Nat.testBit_mod_two_pow, decide_eq_true (mem_range.1 mem), Bool.true_and]

/-- Byte by byte. -/
theorem bitCount_bytes (n x : ℕ) :
    bitCount (8 * n) x = ∑ j ∈ range n, bitCount 8 (x >>> (8 * j)) := by
  induction n with
  | zero => rfl
  | succ n ih => rw [Nat.mul_succ, bitCount_add, ih, sum_range_succ]

/-- `Popcount64`. -/
def popcount64 (x : UInt64) : ℕ := bitCount 64 x.toNat

/-! ## The builds -/

section Builds

variable (a b : ℕ → UInt64) (numWords : ℕ)

/-- The words that differ, from `first` on, one after the other. -/
def xorTail512 (first count : ℕ) (total : UInt64) : UInt64 :=
  (List.range count).foldl
    (fun total k => total + UInt64.ofNat (popcount64 (a (first + k) ^^^ b (first + k)))) total

/-- `_mm512_popcnt_epi64`, lane by lane; the lanes are added in halves. -/
def popcountXor512 : UInt32 :=
  let chunks := numWords / 8
  let acc := fun lane => (List.range chunks).foldl (fun (acc : UInt64) c =>
    acc + UInt64.ofNat (popcount64 (a (8 * c + lane) ^^^ b (8 * c + lane)))) 0
  let sum256 := fun lane => acc lane + acc (lane + 4)
  let sum128 := fun lane => sum256 lane + sum256 (lane + 2)
  (xorTail512 a b (8 * chunks) (numWords - 8 * chunks) (sum128 0 + sum128 1)).toUInt32

/-- `_mm256_add_epi8`. -/
def addBytes (x y : Register) : Register := .ofBytes fun j => x.byte j + y.byte j

/-- The set bits of each nibble. -/
def nibbleCounts : ℕ → UInt8 := fun j =>
  [0, 1, 1, 2, 1, 2, 2, 3, 1, 2, 2, 3, 2, 3, 3, 4].getD (j % 16) 0

/-- `PopcountVec`. -/
def popcountVec (v : Register) : Register :=
  addBytes ((Register.ofBytes nibbleCounts).shuffle (v.andByte 0x0F))
    ((Register.ofBytes nibbleCounts).shuffle ((v.shiftRight 4).andByte 0x0F))

/-- `_mm256_sad_epu8` against zero, and the sum of its lanes. -/
def horizSumBytes (v : Register) : UInt32 :=
  let sad := fun lane => ∑ j ∈ range 8, (v.byte (8 * lane + j)).toNat
  UInt32.ofNat (sad 0 + sad 2 + (sad 1 + sad 3))

/-- Four words in a register. -/
def loadWords (words : ℕ → UInt64) (first : ℕ) : Register :=
  .ofBytes fun j => UInt8.ofNat ((words (first + j / 8)).toNat >>> (8 * (j % 8)))

structure ByteCounts where
  total : UInt32 := 0
  acc : Register := .zero
  batchCount : ℕ := 0

/-- The bytes take the counts of one register; every 31 turns they go to the total. -/
def addRegister (v : Register) (st : ByteCounts) : ByteCounts :=
  let acc := addBytes st.acc (popcountVec v)
  if st.batchCount + 1 = 31 then { total := st.total + horizSumBytes acc }
  else { st with acc := acc, batchCount := st.batchCount + 1 }

def ByteCounts.turn (c : ℕ) (st : ByteCounts) : ByteCounts :=
  addRegister (loadWords (fun w => a w ^^^ b w) (4 * c)) st

def xorTail (first count : ℕ) (total : UInt32) : UInt32 :=
  (List.range count).foldl
    (fun total k => total + UInt32.ofNat (popcount64 (a (first + k) ^^^ b (first + k)))) total

def popcountXor256 : UInt32 :=
  let chunks := numWords / 4
  let st := (List.range chunks).foldl (fun st c => ByteCounts.turn a b c st) {}
  xorTail a b (4 * chunks) (numWords - 4 * chunks) (st.total + horizSumBytes st.acc)

/-- `PopcountXor`. -/
def popcountXor (build : Build) : UInt32 :=
  match build with
  | .avx512 => popcountXor512 a b numWords
  | .avx2 => popcountXor256 a b numWords
  | .scalar => xorTail a b 0 numWords 0

/-- `PopcountTotal` of the scalar build. -/
def popcountTotal : UInt32 :=
  (List.range numWords).foldl (fun total i => total + UInt32.ofNat (popcount64 (a i))) 0

end Builds

/-! ## What they count -/

section Counts

variable (a b : ℕ → UInt64)

/-- The set bits of the words from `first` on. -/
def differing (first count : ℕ) : ℕ :=
  ∑ k ∈ range count, popcount64 (a (first + k) ^^^ b (first + k))

theorem differing_add (m n : ℕ) :
    differing a b 0 (m + n) = differing a b 0 m + differing a b m n := by
  simp only [differing, sum_range_add, Nat.zero_add]

theorem xorTail_eq (first count n : ℕ) :
    xorTail a b first count (UInt32.ofNat n) = UInt32.ofNat (n + differing a b first count) := by
  induction count with
  | zero => rfl
  | succ count ih =>
      rw [xorTail, List.range_succ, List.foldl_append, List.foldl_cons, List.foldl_nil, ← xorTail,
        ih, ← UInt32.ofNat_add, differing, differing, sum_range_succ, Nat.add_assoc]

theorem xorTail512_eq (first count n : ℕ) :
    xorTail512 a b first count (UInt64.ofNat n) =
      UInt64.ofNat (n + differing a b first count) := by
  induction count with
  | zero => rfl
  | succ count ih =>
      rw [xorTail512, List.range_succ, List.foldl_append, List.foldl_cons, List.foldl_nil,
        ← xorTail512, ih, ← UInt64.ofNat_add, differing, differing, sum_range_succ, Nat.add_assoc]

/-- A lane of 64-bit counts. -/
theorem foldl_ofNat (counts : ℕ → ℕ) (n : ℕ) :
    (List.range n).foldl (fun (acc : UInt64) c => acc + UInt64.ofNat (counts c)) 0 =
      UInt64.ofNat (∑ c ∈ range n, counts c) := by
  induction n with
  | zero => rfl
  | succ n ih =>
      rw [List.range_succ, List.foldl_append, List.foldl_cons, List.foldl_nil, ih,
        ← UInt64.ofNat_add, sum_range_succ]

/-- Whole registers hold the words up to their number. -/
theorem differing_chunks (width chunks : ℕ) :
    differing a b 0 (width * chunks) = ∑ lane ∈ range width, ∑ c ∈ range chunks,
      popcount64 (a (width * c + lane) ^^^ b (width * c + lane)) := by
  rw [sum_comm]
  induction chunks with
  | zero => simp [differing]
  | succ chunks ih => rw [Nat.mul_succ, differing_add, ih, sum_range_succ, differing]

theorem popcountXor512_eq (numWords : ℕ) :
    popcountXor512 a b numWords = UInt32.ofNat (differing a b 0 numWords) := by
  have lanes := differing_chunks a b 8 (numWords / 8)
  have whole := differing_add a b (8 * (numWords / 8)) (numWords - 8 * (numWords / 8))
  rw [Nat.add_sub_cancel' (Nat.mul_div_le numWords 8)] at whole
  simp only [popcountXor512, foldl_ofNat fun c => popcount64 (a (8 * c + _) ^^^ b (8 * c + _)),
    ← UInt64.ofNat_add, xorTail512_eq]
  rw [whole, lanes]
  simp only [sum_range_succ, sum_range_zero, Nat.zero_add, UInt64.toUInt32_ofNat']
  congr 1
  ring

/-! ### Bytes -/

theorem nibbleCounts_eq {n : ℕ} (nibble : n < 16) : (nibbleCounts n).toNat = bitCount 4 n := by
  have table : ∀ n < 16, (nibbleCounts n).toNat = bitCount 4 n := by decide
  exact table n nibble

theorem popcountVec_byte (bytes : ℕ → UInt8) (j : ℕ) :
    ((popcountVec (.ofBytes bytes)).byte j).toNat = bitCount 8 (bytes j).toNat := by
  have low := Register.lowNibble_byte bytes
  have high := Register.highNibble_byte bytes
  have small := fun j => (bytes j).toNat_lt
  have index : ∀ n, nibbleCounts (16 * (j / 16) + n) = nibbleCounts n := fun n => by
    rw [nibbleCounts, nibbleCounts, Nat.mul_add_mod]
  rw [popcountVec, addBytes, Register.byte_ofBytes,
    Register.shuffle_nibbles _ fun j => by rw [low]; omega,
    Register.shuffle_nibbles _ fun j => by rw [high]; have := small j; omega,
    Register.byte_ofBytes, Register.byte_ofBytes, index, index, low, high, UInt8.toNat_add,
    nibbleCounts_eq (by omega), nibbleCounts_eq (by have := small j; omega)]
  have parts := bitCount_add 4 4 (bytes j).toNat
  have lowBits := bitCount_mod 4 (bytes j).toNat
  have le := bitCount_le 4 ((bytes j).toNat % 16)
  have le' := bitCount_le 4 ((bytes j).toNat / 16)
  rw [Nat.shiftRight_eq_div_pow] at parts
  norm_num at parts lowBits
  omega

theorem loadWords_counts (words : ℕ → UInt64) (first : ℕ) :
    ∑ j ∈ range 32, ((popcountVec (loadWords words first)).byte j).toNat =
      ∑ k ∈ range 4, popcount64 (words (first + k)) := by
  have byte : ∀ k j, j < 8 →
      ((popcountVec (loadWords words first)).byte (8 * k + j)).toNat =
        bitCount 8 ((words (first + k)).toNat >>> (8 * j)) := by
    intro k j inside
    rw [loadWords, popcountVec_byte, UInt8.toNat_ofNat', bitCount_mod,
      show (8 * k + j) / 8 = k by omega, show (8 * k + j) % 8 = j by omega]
  have word : ∀ k, ∑ j ∈ range 8, ((popcountVec (loadWords words first)).byte (8 * k + j)).toNat =
      popcount64 (words (first + k)) := by
    intro k
    rw [popcount64, show 64 = 8 * 8 from rfl, bitCount_bytes]
    exact sum_congr rfl fun j mem => byte k j (mem_range.1 mem)
  simp only [← word, sum_range_succ, sum_range_zero, Nat.zero_add, Nat.mul_zero, Nat.mul_one,
    Nat.reduceMul, Nat.reduceAdd, Nat.add_zero]
  ring

theorem horizSumBytes_eq (v : Register) :
    horizSumBytes v = UInt32.ofNat (∑ j ∈ range 32, (v.byte j).toNat) := by
  rw [horizSumBytes]
  refine congrArg UInt32.ofNat ?_
  simp only [sum_range_succ, sum_range_zero, Nat.zero_add, Nat.mul_zero, Nat.mul_one,
    Nat.reduceMul, Nat.reduceAdd, Nat.add_zero]
  ring

/-- The total and the bytes hold what was counted, and no byte more than eight a turn. -/
structure ByteCounts.Holds (sum : ℕ) (st : ByteCounts) : Prop where
  counted : ∃ n, st.total = UInt32.ofNat n ∧ n + ∑ j ∈ range 32, (st.acc.byte j).toNat = sum
  bounded : ∀ j, (st.acc.byte j).toNat ≤ 8 * st.batchCount
  batch : st.batchCount < 31

theorem ByteCounts.turn_holds {sum c : ℕ} {st : ByteCounts} (holds : st.Holds sum) :
    (st.turn a b c).Holds (sum + differing a b (4 * c) 4) := by
  obtain ⟨⟨n, total, split⟩, bounded, batch⟩ := holds
  let step := popcountVec (loadWords (fun w => a w ^^^ b w) (4 * c))
  have small : ∀ j, (step.byte j).toNat ≤ 8 := fun j => by
    dsimp only [step]
    rw [loadWords, popcountVec_byte]
    exact bitCount_le 8 _
  have byte : ∀ j, ((addBytes st.acc step).byte j).toNat =
      (st.acc.byte j).toNat + (step.byte j).toNat := fun j => by
    have old := bounded j
    have new := small j
    rw [addBytes, Register.byte_ofBytes, UInt8.toNat_add, Nat.mod_eq_of_lt (by omega)]
  have sums : ∑ j ∈ range 32, ((addBytes st.acc step).byte j).toNat =
      ∑ j ∈ range 32, (st.acc.byte j).toNat + differing a b (4 * c) 4 := by
    rw [sum_congr rfl fun j _ => byte j, sum_add_distrib]
    exact congrArg _ (loadWords_counts _ _)
  rw [turn, addRegister]
  split
  · refine ⟨⟨n + ∑ j ∈ range 32, ((addBytes st.acc step).byte j).toNat, ?_, ?_⟩, fun j => ?_,
      Nat.zero_lt_succ 30⟩
    · rw [UInt32.ofNat_add, ← horizSumBytes_eq, ← total]
    · have empty : ∑ j ∈ range 32, (Register.zero.byte j).toNat = 0 :=
        sum_eq_zero fun j _ => by simp [Register.byte_toNat, Register.zero]
      rw [empty, sums]
      omega
    · simp [Register.byte_toNat, Register.zero]
  · refine ⟨⟨n, total, ?_⟩, fun j => ?_, ?_⟩
    · dsimp only
      rw [sums]
      omega
    · have old := bounded j
      have new := small j
      dsimp only
      rw [byte]
      omega
    · dsimp only
      omega

theorem popcountXor256_eq (numWords : ℕ) :
    popcountXor256 a b numWords = UInt32.ofNat (differing a b 0 numWords) := by
  have run : ∀ chunks, ((List.range chunks).foldl (fun st c => ByteCounts.turn a b c st)
      {}).Holds (differing a b 0 (4 * chunks)) := by
    intro chunks
    induction chunks with
    | zero => exact ⟨⟨0, rfl, by simp [Register.byte_toNat, Register.zero, differing]⟩,
        fun j => by simp [Register.byte_toNat, Register.zero], Nat.zero_lt_succ 30⟩
    | succ chunks ih =>
        rw [List.range_succ, List.foldl_append, Nat.mul_succ, differing_add]
        exact ByteCounts.turn_holds a b ih
  obtain ⟨⟨n, total, split⟩, -, -⟩ := run (numWords / 4)
  have whole := differing_add a b (4 * (numWords / 4)) (numWords - 4 * (numWords / 4))
  rw [Nat.add_sub_cancel' (Nat.mul_div_le numWords 4)] at whole
  simp only [popcountXor256]
  rw [total, horizSumBytes_eq, ← UInt32.ofNat_add, split, xorTail_eq, whole]

/-- **Every build counts the bits in which the words differ**, in 32 bits. -/
theorem popcountXor_eq (build : Build) (numWords : ℕ) :
    popcountXor a b numWords build = UInt32.ofNat (differing a b 0 numWords) := by
  cases build with
  | avx512 => exact popcountXor512_eq a b numWords
  | avx2 => exact popcountXor256_eq a b numWords
  | scalar =>
      rw [popcountXor, show (0 : UInt32) = UInt32.ofNat 0 from rfl, xorTail_eq, Nat.zero_add]

/-- `PopcountTotal` counts what `PopcountXor` counts against words without a bit. -/
theorem popcountTotal_eq (numWords : ℕ) :
    popcountTotal a numWords = UInt32.ofNat (∑ k ∈ range numWords, popcount64 (a k)) := by
  have scalar : popcountTotal a numWords = xorTail a (fun _ => 0) 0 numWords 0 := by
    simp only [popcountTotal, xorTail, UInt64.xor_zero, Nat.zero_add]
  rw [scalar, show (0 : UInt32) = UInt32.ofNat 0 from rfl, xorTail_eq, differing]
  simp only [UInt64.xor_zero, Nat.zero_add]

end Counts

end VecFetch.Simd
