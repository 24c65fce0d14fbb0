/-
# Simd.PrefixSumLoop -- the loops of ExclusivePrefixSum

Blocks of eight values, then one value at a time, with 32-bit counters and every access
checked.  The test for another block, `i + 8 <= count`, is a 32-bit sum: from `2 ^ 32 - 8`
values on it holds at `2 ^ 32 - 8` too, where the sum is 0, and so at every multiple of 8.  The loop
ends, and gives the sums of the scalar one, just below that length
(`matchesScalar_iff`).
-/
import VecFetch.Theory.WhileLoop
import VecFetch.Simd.PrefixSum
import Mathlib.Data.List.GetD
import Mathlib.Data.Vector.Basic

namespace VecFetch.Simd.PrefixSumLoop

open VecFetch.Theory

set_option autoImplicit false

/-! ## Memory -/

/-- What `out` points to, also past its length. -/
abbrev Memory := ℕ → UInt32

/-- `_mm256_loadu_si256(in + i)`: eight values, all of them there. -/
def loadu (values : List UInt32) (i : ℕ) : Option Lanes8 :=
  if i + 8 ≤ values.length then some fun lane => values.getD (i + lane) 0 else none

/-- `_mm256_storeu_si256(out + i, v)`. -/
def storeu (out : Memory) (i : ℕ) (v : Lanes8) : Memory := fun j =>
  if i ≤ j ∧ j < i + 8 then v (j - i) else out j

/-! ## The loops -/

structure SumState where
  i : UInt32 := 0
  runningSum : UInt32 := 0
  out : Memory

section Loops

variable (values : List UInt32) (count : UInt32)

/-- `i + 8u <= count`. -/
def moreBlocks (s : SumState) : Bool := decide (s.i + 8 ≤ count)

/-- `i < count`. -/
def moreValues (s : SumState) : Bool := decide (s.i < count)

/-- A turn of the loop over blocks. -/
def blockTurn (s : SumState) : Option SumState :=
  (loadu values s.i.toNat).map fun v =>
    let inc := incPrefixSum8 v
    { i := s.i + 8
      runningSum := s.runningSum + inc.high 3
      out := storeu s.out s.i.toNat (incToExcl8 inc s.runningSum) }

/-- A turn of the loop over single values. -/
def valueTurn (s : SumState) : Option SumState :=
  values[s.i.toNat]?.map fun value =>
    { i := s.i + 1
      runningSum := s.runningSum + value
      out := Function.update s.out s.i.toNat s.runningSum }

/-- `ExclusivePrefixSumScalar`. -/
def exclusivePrefixSumScalar (fuel : ℕ) (out : Memory) : Option Memory :=
  (whileLoop (moreValues count) (valueTurn values) fuel { out := out }).map SumState.out

/-- `ExclusivePrefixSumAVX2`. -/
def exclusivePrefixSumAVX2 (fuel : ℕ) (out : Memory) : Option Memory :=
  (whileLoop (moreBlocks count) (blockTurn values) fuel { out := out }).bind fun s =>
    (whileLoop (moreValues count) (valueTurn values) fuel s).map SumState.out

/-- `ExclusivePrefixSum` of the AVX2 build. -/
def exclusivePrefixSum (fuel : ℕ) (out : Memory) : Option Memory :=
  if count = 0 then some out else exclusivePrefixSumAVX2 values count fuel out

end Loops

/-! ## The sums -/

/-- The sum of the values before `i`, in 32 bits. -/
def sumBefore (values : List UInt32) (i : ℕ) : UInt32 :=
  UInt32.ofNat ((values.take i).map UInt32.toNat).sum

theorem sumBefore_succ (values : List UInt32) {i : ℕ} (inside : i < values.length) :
    sumBefore values (i + 1) = sumBefore values i + values[i] := by
  have at_i : values[i]? = some values[i] := List.getElem?_eq_getElem inside
  rw [sumBefore, sumBefore, List.take_add_one, at_i, Option.toList_some, List.map_append,
    List.sum_append, UInt32.ofNat_add]
  simp

theorem prefixSum_eq_sumBefore (values : List UInt32) {i : ℕ} (inside : i ≤ values.length) :
    prefixSum (fun k => values.getD k 0) i = sumBefore values i := by
  induction i with
  | zero => rfl
  | succ i ih =>
      rw [prefixSum, ih (by omega), sumBefore_succ values inside, List.getD_eq_getElem _ _ inside]

/-- A block goes on from the sum before it. -/
theorem sumBefore_add (values : List UInt32) {i lane : ℕ} (inside : i + lane ≤ values.length) :
    sumBefore values (i + lane) =
      sumBefore values i + prefixSum (fun k => values.getD (i + k) 0) lane := by
  rw [← prefixSum_eq_sumBefore values inside, prefixSum_add,
    prefixSum_eq_sumBefore values (by omega)]

/-- The first `i` positions hold the sums, the others what they held. -/
def Written (values : List UInt32) (out : Memory) (i : ℕ) (out' : Memory) : Prop :=
  ∀ j, out' j = if j < i then sumBefore values j else out j

/-- The sums of all values are written, as the scalar loop writes them. -/
def MatchesScalar (count : UInt32) (values : List.Vector UInt32 count.toNat) (out : Memory) :
    Prop :=
  ∃ fuel out', exclusivePrefixSum values.toList count fuel out = some out' ∧
    exclusivePrefixSumScalar values.toList count fuel out = some out' ∧
    Written values.toList out count.toNat out'

/-! ## One turn -/

/-- What is summed and written before value `i`. -/
structure SumsTo (values : List UInt32) (out : Memory) (s : SumState) : Prop where
  inside : s.i.toNat ≤ values.length
  sum : s.runningSum = sumBefore values s.i.toNat
  written : Written values out s.i.toNat s.out

section Turns

variable {values : List UInt32} {out : Memory} {s : SumState}

theorem sumsTo_start (values : List UInt32) (out : Memory) : SumsTo values out { out := out } where
  inside := Nat.zero_le _
  sum := rfl
  written _ := rfl

theorem SumsTo.valueTurn (sums : SumsTo values out s) (more : s.i.toNat < values.length)
    (width : values.length < 2 ^ 32) :
    ∃ s', valueTurn values s = some s' ∧ SumsTo values out s' ∧ s'.i.toNat = s.i.toNat + 1 := by
  have next : (s.i + 1).toNat = s.i.toNat + 1 := by
    rw [UInt32.toNat_add]
    exact Nat.mod_eq_of_lt (by simp only [UInt32.reduceToNat]; omega)
  have at_i : values[s.i.toNat]? = some values[s.i.toNat] := List.getElem?_eq_getElem more
  refine ⟨_, by rw [PrefixSumLoop.valueTurn, at_i]; rfl, ⟨?_, ?_, ?_⟩, next⟩
  · dsimp only
    omega
  · dsimp only
    rw [next, sumBefore_succ values more, sums.sum]
  · intro j
    dsimp only
    rw [next]
    by_cases now : j = s.i.toNat
    · rw [now, Function.update_self, if_pos (Nat.lt_succ_self _), sums.sum]
    · rw [Function.update_of_ne now, sums.written j]
      have same : j < s.i.toNat ↔ j < s.i.toNat + 1 := by omega
      simp only [same]

theorem SumsTo.blockTurn (sums : SumsTo values out s) (more : s.i.toNat + 8 ≤ values.length)
    (width : values.length < 2 ^ 32) :
    ∃ s', blockTurn values s = some s' ∧ SumsTo values out s' ∧ s'.i.toNat = s.i.toNat + 8 := by
  have next : (s.i + 8).toNat = s.i.toNat + 8 := by
    rw [UInt32.toNat_add]
    exact Nat.mod_eq_of_lt (by simp only [UInt32.reduceToNat]; omega)
  have loaded : loadu values s.i.toNat =
      some fun lane => values.getD (s.i.toNat + lane) 0 := if_pos more
  refine ⟨_, by rw [PrefixSumLoop.blockTurn, loaded]; rfl, ⟨?_, ?_, ?_⟩, next⟩
  · dsimp only
    omega
  · dsimp only [Lanes8.high]
    rw [next, sumBefore_add values more, sums.sum, incPrefixSum8_eq _ (by omega)]
  · intro j
    dsimp only [storeu]
    rw [next]
    by_cases block : s.i.toNat ≤ j ∧ j < s.i.toNat + 8
    · rw [if_pos block, if_pos block.2, incToExcl8_eq _ _ (by omega), sums.sum,
        ← sumBefore_add values (by omega), Nat.add_sub_cancel' block.1]
    · rw [if_neg block, sums.written j]
      have same : j < s.i.toNat ↔ j < s.i.toNat + 8 := by omega
      simp only [same]

end Turns

/-! ## The runs -/

section Runs

variable {values : List UInt32} {count : UInt32} {out : Memory} {s : SumState}

theorem moreValues_iff : moreValues count s = true ↔ s.i.toNat < count.toNat := by
  rw [moreValues, decide_eq_true_eq, UInt32.lt_iff_toNat_lt]

/-- The test for a block, with its sum in 32 bits. -/
theorem moreBlocks_iff :
    moreBlocks count s = true ↔ (s.i.toNat + 8) % 2 ^ 32 ≤ count.toNat := by
  rw [moreBlocks, decide_eq_true_eq, UInt32.le_iff_toNat_le, UInt32.toNat_add]
  rfl

/-- The loop over single values writes the sums that are left. -/
theorem SumsTo.tail (sums : SumsTo values out s) (counts : values.length = count.toNat) :
    ∃ t, whileLoop (moreValues count) (PrefixSumLoop.valueTurn values) count.toNat s = some t ∧
      Written values out count.toNat t.out := by
  have width := count.toNat_lt
  have turn : ∀ s, SumsTo values out s → moreValues count s = true →
      ∃ s', PrefixSumLoop.valueTurn values s = some s' ∧ SumsTo values out s' ∧
        s.i.toNat < s'.i.toNat ∧ s'.i.toNat ≤ count.toNat := by
    intro s sums more
    rw [moreValues_iff] at more
    obtain ⟨s', turned, sums', next⟩ := sums.valueTurn (by omega) (by omega)
    exact ⟨s', turned, sums', by omega, by omega⟩
  obtain ⟨t, ends, done, stopped⟩ := whileLoop_upTo _ _ turn sums
  rw [← Bool.not_eq_true, moreValues_iff] at stopped
  have inside := done.inside
  have last : t.i.toNat = count.toNat := by omega
  exact ⟨t, ends, last ▸ done.written⟩

/-- Below the last block that 32 bits can count, the loop over blocks ends. -/
theorem blocks_end (out : Memory) (counts : values.length = count.toNat)
    (short : count.toNat < 2 ^ 32 - 8) :
    ∃ t, whileLoop (moreBlocks count) (blockTurn values) count.toNat { out := out } = some t ∧
      SumsTo values out t := by
  have turn : ∀ s, SumsTo values out s → moreBlocks count s = true →
      ∃ s', blockTurn values s = some s' ∧ SumsTo values out s' ∧
        s.i.toNat < s'.i.toNat ∧ s'.i.toNat ≤ count.toNat := by
    intro s sums more
    have inside := sums.inside
    rw [moreBlocks_iff, Nat.mod_eq_of_lt (by omega)] at more
    obtain ⟨s', turned, sums', next⟩ := sums.blockTurn (by omega) (by omega)
    exact ⟨s', turned, sums', by omega, by omega⟩
  obtain ⟨t, ends, done, -⟩ := whileLoop_upTo _ _ turn (sumsTo_start values out)
  exact ⟨t, ends, done⟩

/-- From there on every multiple of 8 passes for the start of one more block. -/
theorem blocks_never_end (values : List UInt32) (out : Memory)
    (long : 2 ^ 32 - 8 ≤ count.toNat) (fuel : ℕ) :
    whileLoop (moreBlocks count) (blockTurn values) fuel { out := out } = none := by
  refine whileLoop_never (fun s => 8 ∣ s.i.toNat) ?_ ?_ fuel (Nat.dvd_zero _)
  · intro s aligned
    have width := s.i.toNat_lt
    rw [moreBlocks_iff]
    omega
  · intro s s' aligned turned
    obtain ⟨v, -, rfl⟩ := Option.map_eq_some_iff.1 turned
    have eight : (8 : UInt32).toNat = 8 := rfl
    dsimp only
    rw [UInt32.toNat_add, eight]
    omega

theorem Written.unique {i : ℕ} {first second : Memory} (written : Written values out i first)
    (written' : Written values out i second) : first = second :=
  funext fun j => (written j).trans (written' j).symm

/-- The scalar build sums any number of values. -/
theorem scalar_writes (values : List.Vector UInt32 count.toNat) (out : Memory) :
    ∃ out', exclusivePrefixSumScalar values.toList count count.toNat out = some out' ∧
      Written values.toList out count.toNat out' := by
  obtain ⟨t, ends, written⟩ := (sumsTo_start values.toList out).tail values.toList_length
  exact ⟨t.out, by rw [exclusivePrefixSumScalar, ends, Option.map_some], written⟩

theorem avx2_writes (values : List.Vector UInt32 count.toNat) (out : Memory)
    (short : count.toNat < 2 ^ 32 - 8) :
    ∃ out', exclusivePrefixSum values.toList count count.toNat out = some out' ∧
      Written values.toList out count.toNat out' := by
  rw [exclusivePrefixSum]
  split
  · rename_i zero
    refine ⟨out, rfl, fun j => ?_⟩
    rw [if_neg (by simp [zero])]
  · obtain ⟨s, blocks, sums⟩ := blocks_end out values.toList_length short
    obtain ⟨t, ends, written⟩ := sums.tail values.toList_length
    exact ⟨t.out, by
      rw [exclusivePrefixSumAVX2, blocks, Option.bind_some, ends, Option.map_some], written⟩

theorem avx2_never_ends (values : List UInt32) (out : Memory) (long : 2 ^ 32 - 8 ≤ count.toNat)
    (fuel : ℕ) : exclusivePrefixSum values count fuel out = none := by
  have used : count ≠ 0 := fun zero => by simp [zero] at long
  rw [exclusivePrefixSum, if_neg used, exclusivePrefixSumAVX2, blocks_never_end values out long,
    Option.bind_none]

end Runs

/-- **Below `2 ^ 32 - 8` values the loops write what the counters of any width compute**
(`Simd.exclusivePrefixSum`). -/
theorem exclusivePrefixSum_refines {count : UInt32} (values : List.Vector UInt32 count.toNat)
    (out : Memory) (short : count.toNat < 2 ^ 32 - 8) :
    ∃ avx2 scalar, exclusivePrefixSum values.toList count count.toNat out = some avx2 ∧
      exclusivePrefixSumScalar values.toList count count.toNat out = some scalar ∧
      ∀ j, j < count.toNat →
        avx2 j = Simd.exclusivePrefixSum .avx2 (fun k => values.toList.getD k 0) count.toNat j ∧
        scalar j =
          Simd.exclusivePrefixSum .scalar (fun k => values.toList.getD k 0) count.toNat j := by
  obtain ⟨avx2, ran, written⟩ := avx2_writes values out short
  obtain ⟨scalar, ran', written'⟩ := scalar_writes values out
  have sums : ∀ {memory build j}, Written values.toList out count.toNat memory →
      j < count.toNat → memory j =
        Simd.exclusivePrefixSum build (fun k => values.toList.getD k 0) count.toNat j := by
    intro memory build j written inside
    have within : j ≤ values.toList.length := by
      rw [values.toList_length]
      exact inside.le
    rw [written j, if_pos inside, exclusivePrefixSum_eq, prefixSum_eq_sumBefore _ within]
  exact ⟨avx2, scalar, ran, ran', fun j inside => ⟨sums written inside, sums written' inside⟩⟩

/-- **Both builds write the same sums just below `2 ^ 32 - 8` values.** -/
theorem matchesScalar_iff (count : UInt32) (values : List.Vector UInt32 count.toNat)
    (out : Memory) : MatchesScalar count values out ↔ count.toNat < 2 ^ 32 - 8 := by
  constructor
  · rintro ⟨fuel, out', ran, -⟩
    by_contra long
    rw [avx2_never_ends values.toList out (Nat.le_of_not_lt long)] at ran
    cases ran
  · intro short
    obtain ⟨first, scalar, written⟩ := scalar_writes values out
    obtain ⟨second, avx2, written'⟩ := avx2_writes values out short
    obtain rfl := written.unique written'
    exact ⟨count.toNat, first, avx2, scalar, written⟩

/-- `2 ^ 32 - 8` zeros: the loop over blocks goes on past them. -/
theorem prefixSum_passes_end :
    ¬ MatchesScalar 0xFFFFFFF8 (List.Vector.replicate _ 0) fun _ => 0 := by
  rintro ⟨fuel, out', ran, -⟩
  rw [avx2_never_ends _ _ (by decide)] at ran
  cases ran

end VecFetch.Simd.PrefixSumLoop
