/-
# Rabitq.RotationAccess -- what Apply and ApplyInverse touch

The two calls as the list of the entries they load and store, table by table.  A rotation is
safe to apply when every entry is inside its table, and below the dimension in all tables but
the matrix; its blocks have to tile the dimension.

`Load` does not promise that.  Of what it accepts exactly those files are safe whose flags
and blocks fit the dimension (`accepted_safe_iff`): the sum of the blocks is taken in 32 bits
and wraps, a blocked rotation with the flag of FHT-Kac is fast and has no signs, and a
Hadamard rotation may have a dimension that is no power of two.
-/
import VecFetch.Rabitq.RotationFile
import Mathlib.Data.Nat.Factorization.Basic

namespace VecFetch.Rabitq

open VecFetch.Theory VecFetch.Simd

set_option autoImplicit false

/-- What the calls read and write; the signs of FHT-Kac are taken row by row. -/
inductive Table where
  | input
  | output
  | scratch
  | matrix
  | diagSigns
  | fhtKacSigns (round : ℕ)
  | permutation
  | blockSizes
  deriving DecidableEq

structure Access where
  table : Table
  index : ℕ

/-! ## The transform -/

def levelTouches (n len : ℕ) : List ℕ := (positions n len 1).flatMap fun p => [p, p + len]

/-- Two registers are loaded and stored for each position. -/
def level16Touches (n len : ℕ) : List ℕ :=
  (positions n len 16).flatMap fun p =>
    (List.range 16).map (fun i => p + i) ++ (List.range 16).map fun i => p + len + i

def levelsTouch (body : ℕ → List ℕ) (n : ℕ) : ℕ → ℕ → List ℕ
  | 0, _ => []
  | fuel + 1, len =>
      if len < n then body len ++ levelsTouch body n fuel (len * 2) else []

/-- The entries of `vec` that `FWHT_AVX512` touches. -/
def fwhtTouches (avx512 : Bool) (n : ℕ) : List ℕ :=
  levelsTouch (fun len =>
    if avx512 = false ∨ len < 16 then levelTouches n len else level16Touches n len) n 32 1

/-! ## The calls -/

section Calls

variable (avx512 : Bool)

/-- A table at the places of a list. -/
def touch (table : Table) (places : List ℕ) : List Access := places.map fun i => ⟨table, i⟩

/-- A block at its offset; the inverse touches the same entries. -/
def blockAccesses (values : Table) (offset blockSize : ℕ) : List Access :=
  touch values ((fwhtTouches avx512 blockSize).map fun i => offset + i) ++
    (touch values ((List.range blockSize).map fun i => offset + i) ++
      touch .diagSigns ((List.range blockSize).map fun i => offset + i))

/-- The loop over the blocks, the `number`th and those behind it. -/
def forBlockAccesses (values : Table) : List UInt32 → ℕ → ℕ → List Access
  | [], _, _ => []
  | size :: sizes, number, offset =>
      ⟨.blockSizes, number⟩ :: blockAccesses avx512 values offset size.toNat ++
        forBlockAccesses values sizes (number + 1) (offset + size.toNat)

def blockedFastAccesses (permutation blockSizes : List UInt32) : List Access :=
  (List.range permutation.length).flatMap (fun i =>
    [⟨.permutation, i⟩, ⟨.input, (permutation.getD i 0).toNat⟩, ⟨.output, i⟩]) ++
  forBlockAccesses avx512 .output blockSizes 0 0

def blockedFastInverseAccesses (permutation blockSizes : List UInt32) : List Access :=
  touch .scratch (List.range permutation.length) ++
    (touch .input (List.range permutation.length) ++
      (forBlockAccesses avx512 .scratch blockSizes 0 0 ++
        (List.range permutation.length).flatMap fun i =>
          [⟨.permutation, i⟩, ⟨.scratch, i⟩, ⟨.output, (permutation.getD i 0).toNat⟩]))

def windowTouches (start width : ℕ) : List ℕ :=
  if width = 0 then []
  else (fwhtTouches avx512 width).map (fun i => start + i) ++
    (List.range width).map fun i => start + i

def halfMixTouches (dim : ℕ) : List ℕ :=
  (List.range (dim / 2)).flatMap fun i => [i, i + dim / 2]

/-- One round, in either direction. -/
def roundAccesses (dim truncDim round : ℕ) : List Access :=
  touch (.fhtKacSigns round) (List.range dim) ++
    (touch .output (List.range dim) ++
      (touch .output (windowTouches avx512 (windowStart dim truncDim round) truncDim) ++
        touch .output (halfMixTouches dim)))

def fhtKacFastAccesses (dim truncDim numRounds : ℕ) : List Access :=
  touch .input (List.range dim) ++
    (touch .output (List.range dim) ++
      (List.range numRounds).flatMap (roundAccesses avx512 dim truncDim))

def hadamardAccesses (dim : ℕ) : List Access :=
  touch .input (List.range dim) ++
    (touch .output (List.range dim) ++
      (touch .output (fwhtTouches avx512 dim) ++ touch .diagSigns (List.range dim)))

def denseAccesses (dim : ℕ) : List Access :=
  touch .input (List.range dim) ++
    (touch .output (List.range dim) ++
      touch .matrix ((List.range dim).flatMap fun i => (List.range dim).map fun j => i * dim + j))

variable {K : Type}

/-- The entries that `Apply` loads and stores. -/
def RotationMatrix.applyAccesses (r : RotationMatrix K) : List Access :=
  if r.kind = .blockedHadamardPermuted ∧ r.useFastHadamard then
    blockedFastAccesses avx512 r.permutation r.blockSizes
  else if r.kind = .fhtKacRotator ∧ r.useFastHadamard then
    fhtKacFastAccesses avx512 r.dim.toNat r.fhtKacTruncDim.toNat r.fhtKacNumRounds
  else if r.useFastHadamard then hadamardAccesses avx512 r.dim.toNat
  else denseAccesses r.dim.toNat

/-- The entries that `ApplyInverse` loads and stores. -/
def RotationMatrix.applyInverseAccesses (r : RotationMatrix K) : List Access :=
  if r.kind = .blockedHadamardPermuted ∧ r.useFastHadamard then
    blockedFastInverseAccesses avx512 r.permutation r.blockSizes
  else if r.kind = .fhtKacRotator ∧ r.useFastHadamard then
    fhtKacFastAccesses avx512 r.dim.toNat r.fhtKacTruncDim.toNat r.fhtKacNumRounds
  else if r.useFastHadamard then hadamardAccesses avx512 r.dim.toNat
  else denseAccesses r.dim.toNat

/-- How many entries a table has; a row of signs ends with the table. -/
def RotationMatrix.entries (r : RotationMatrix K) : Table → ℕ
  | .input | .output => r.dim.toNat
  | .scratch | .permutation => r.permutation.length
  | .matrix => r.dim.toNat * r.dim.toNat
  | .diagSigns => r.diagSigns.length
  | .fhtKacSigns round => r.fhtKacSigns.length - round * r.dim.toNat
  | .blockSizes => r.blockSizes.length

/-- Inside its table, and below the dimension where the table is not the matrix. -/
structure Access.Safe (r : RotationMatrix K) (a : Access) : Prop where
  inside : a.index < r.entries a.table
  below : a.table ≠ .matrix → a.index < r.dim.toNat

/-- Both calls stay inside, and the blocks tile the dimension. -/
structure SafeToApply (r : RotationMatrix K) : Prop where
  apply : ∀ a ∈ r.applyAccesses avx512, a.Safe r
  applyInverse : ∀ a ∈ r.applyInverseAccesses avx512, a.Safe r
  tiles : r.kind = .blockedHadamardPermuted →
    (r.blockSizes.map UInt32.toNat).sum = r.dim.toNat

end Calls

/-! ## Where the transform goes -/

section Transform

variable {avx512 : Bool}

theorem position_lt {len step count parts : ℕ} (positive : 0 < step) (whole : len = step * parts)
    (some_part : 0 < len) {p : ℕ} (mem : p ∈ positions (2 * len * count) len step) :
    p + len + step ≤ 2 * len * count := by
  obtain ⟨m, inBlocks, j, inParts, rfl⟩ := (mem_positions positive whole some_part p).1 mem
  have inside := place_lt whole inParts
  have next := Nat.mul_le_mul_left (2 * len) (Nat.succ_le_of_lt inBlocks)
  rw [Nat.mul_succ, Nat.mul_comm _ m] at next
  omega

theorem level_size {k m : ℕ} (below : k < m) : 2 ^ m = 2 * 2 ^ k * 2 ^ (m - (k + 1)) := by
  rw [Nat.mul_comm 2, ← Nat.pow_succ, ← Nat.pow_add, Nat.add_sub_cancel' below]

theorem levelTouches_lt {k m : ℕ} (below : k < m) {i : ℕ}
    (mem : i ∈ levelTouches (2 ^ m) (2 ^ k)) : i < 2 ^ m := by
  obtain ⟨p, inPositions, here⟩ := List.mem_flatMap.1 mem
  rw [level_size below] at inPositions ⊢
  have inside := position_lt Nat.one_pos (Nat.one_mul _).symm (Nat.two_pow_pos k) inPositions
  have positive := Nat.two_pow_pos k
  simp only [List.mem_cons, List.not_mem_nil, or_false] at here
  rcases here with rfl | rfl <;> omega

theorem level16Touches_lt {k m : ℕ} (below : k < m) (wide : 16 ≤ 2 ^ k) {i : ℕ}
    (mem : i ∈ level16Touches (2 ^ m) (2 ^ k)) : i < 2 ^ m := by
  obtain ⟨p, inPositions, here⟩ := List.mem_flatMap.1 mem
  have four : 4 ≤ k := (Nat.pow_le_pow_iff_right (show 1 < 2 by decide)).1 wide
  have parts : 2 ^ k = 16 * 2 ^ (k - 4) := by
    rw [show (16 : ℕ) = 2 ^ 4 from rfl, ← Nat.pow_add, Nat.add_sub_cancel' four]
  rw [level_size below] at inPositions ⊢
  have inside := position_lt (by decide) parts (Nat.two_pow_pos k) inPositions
  simp only [List.mem_append, List.mem_map, List.mem_range] at here
  rcases here with ⟨e, small, rfl⟩ | ⟨e, small, rfl⟩ <;> omega

theorem levelsTouch_lt {body : ℕ → List ℕ} {m : ℕ}
    (each : ∀ k, k < m → ∀ i ∈ body (2 ^ k), i < 2 ^ m) (fuel k : ℕ) :
    ∀ i ∈ levelsTouch body (2 ^ m) fuel (2 ^ k), i < 2 ^ m := by
  induction fuel generalizing k with
  | zero => exact fun i mem => absurd mem List.not_mem_nil
  | succ fuel ih =>
      intro i mem
      rw [levelsTouch] at mem
      split at mem
      · rename_i inside
        rcases List.mem_append.1 mem with here | later
        · exact each k ((Nat.pow_lt_pow_iff_right (by decide)).1 inside) i here
        · rw [← Nat.pow_succ] at later
          exact ih (k + 1) i later
      · exact absurd mem List.not_mem_nil

/-- A vector whose length is a power of two is not left. -/
theorem fwhtTouches_lt {n : ℕ} (power : ∃ m, n = 2 ^ m) : ∀ i ∈ fwhtTouches avx512 n, i < n := by
  obtain ⟨m, rfl⟩ := power
  refine levelsTouch_lt (fun k below i mem => ?_) 32 0
  split at mem
  · exact levelTouches_lt below mem
  · rename_i wide
    rw [not_or, Nat.not_lt] at wide
    exact level16Touches_lt below wide.2 mem

/-- What a level touches, the transform does when it gets there. -/
theorem levelsTouch_of_level {body : ℕ → List ℕ} {n v i : ℕ} (small : 2 ^ v < n)
    (mem : i ∈ body (2 ^ v)) (fuel k : ℕ) (from_ : k ≤ v) (enough : v < k + fuel) :
    i ∈ levelsTouch body n fuel (2 ^ k) := by
  induction fuel generalizing k with
  | zero => omega
  | succ fuel ih =>
      have inside := Nat.lt_of_le_of_lt (Nat.pow_le_pow_right (show 0 < 2 by decide) from_) small
      rw [levelsTouch, if_pos inside, List.mem_append]
      by_cases here : k = v
      · exact Or.inl (here ▸ mem)
      · rw [← Nat.pow_succ]
        exact Or.inr (ih (k + 1) (by omega) (by omega))

/-- The last block of a level starts `len` before the end when `n` is an odd multiple of it. -/
theorem last_position {len half step : ℕ} (some_part : 0 < len) (positive : 0 < step) :
    len * (2 * half) ∈ positions (len * (2 * half + 1)) len step := by
  have first : ∀ {bound step : ℕ}, 0 < bound → 0 < step → 0 ∈ upTo bound step := by
    intro bound step some_ positive
    refine List.mem_map.2 ⟨0, List.mem_range.2 (Nat.div_pos (by omega) positive), Nat.zero_mul _⟩
  refine List.mem_flatMap.2 ⟨len * (2 * half), List.mem_map.2 ⟨half, ?_, by ring⟩,
    List.mem_map.2 ⟨0, first some_part positive, rfl⟩⟩
  rw [List.mem_range, ← Nat.succ_le_iff, Nat.le_div_iff_mul_le (by omega), Nat.succ_mul,
    show half * (2 * len) = len * (2 * half) by ring, Nat.mul_succ len (2 * half)]
  omega

/-- A vector of any other length is left, by its first entry behind the end. -/
theorem fwhtTouches_end {n : ℕ} (small : n < 2 ^ 32) (positive : 0 < n)
    (other : ¬ ∃ m, n = 2 ^ m) : n ∈ fwhtTouches avx512 n := by
  obtain ⟨v, odd, ⟨half, rfl⟩, size⟩ :=
    Nat.exists_eq_two_pow_mul_odd (Nat.ne_of_gt positive)
  have some_half : half ≠ 0 := by
    rintro rfl
    exact other ⟨v, by rw [size, Nat.mul_zero, Nat.zero_add, Nat.mul_one]⟩
  have shorter : 2 ^ v < n := by
    rw [size]
    exact (Nat.lt_mul_iff_one_lt_right (Nat.two_pow_pos v)).2 (by omega)
  have few : v < 32 := (Nat.pow_lt_pow_iff_right (show 1 < 2 by decide)).1
    (Nat.lt_trans shorter small)
  have last : 2 ^ v * (2 * half) + 2 ^ v = n := by
    rw [size]
    ring
  refine levelsTouch_of_level shorter ?_ 32 0 (Nat.zero_le v) (by omega)
  split
  · have start := @last_position (2 ^ v) half 1 (Nat.two_pow_pos v) Nat.one_pos
    rw [← size] at start
    exact List.mem_flatMap.2 ⟨_, start, by simp [last]⟩
  · have start := @last_position (2 ^ v) half 16 (Nat.two_pow_pos v) (by decide)
    rw [← size] at start
    refine List.mem_flatMap.2 ⟨_, start, List.mem_append_right _ (List.mem_map.2 ⟨0, by decide, ?_⟩)⟩
    rw [last, Nat.add_zero]

end Transform

/-! ## Safe rotations -/

section Safe

variable {avx512 : Bool} {K : Type} {r : RotationMatrix K}

theorem forall_touch {table : Table} {places : List ℕ} {P : Access → Prop} :
    (∀ a ∈ touch table places, P a) ↔ ∀ i ∈ places, P ⟨table, i⟩ :=
  List.forall_mem_map

/-- A table of one entry for each dimension. -/
theorem touch_safe {table : Table} {places : List ℕ} {n : ℕ} (size : r.dim.toNat = n)
    (whole : r.entries table = n) (inside : ∀ i ∈ places, i < n) :
    ∀ a ∈ touch table places, a.Safe r := by
  subst size
  exact forall_touch.2 fun i mem => ⟨whole ▸ inside i mem, fun _ => inside i mem⟩

theorem forBlockAccesses_safe {values : Table} {sizes : List UInt32} {number offset : ℕ}
    (powers : ∀ size ∈ sizes, IsPower size)
    (count : number + sizes.length ≤ r.blockSizes.length)
    (few : r.blockSizes.length ≤ r.dim.toNat)
    (tiles : offset + (sizes.map UInt32.toNat).sum ≤ r.dim.toNat)
    (whole : r.entries values = r.dim.toNat) (signs : r.diagSigns.length = r.dim.toNat) :
    ∀ a ∈ forBlockAccesses avx512 values sizes number offset, a.Safe r := by
  induction sizes generalizing number offset with
  | nil => exact fun a mem => absurd mem List.not_mem_nil
  | cons size sizes ih =>
      rw [List.map_cons, List.sum_cons] at tiles
      rw [List.length_cons] at count
      obtain ⟨⟨k, -, power⟩, others⟩ := List.forall_mem_cons.1 powers
      have shifted : ∀ places : List ℕ, (∀ i ∈ places, i < size.toNat) →
          ∀ i ∈ places.map fun i => offset + i, i < r.dim.toNat := by
        intro places inside
        refine List.forall_mem_map.2 fun i mem => ?_
        have := inside i mem
        omega
      have range : ∀ i ∈ List.range size.toNat, i < size.toNat := fun i mem =>
        List.mem_range.1 mem
      rw [forBlockAccesses, List.cons_append]
      refine List.forall_mem_cons.2 ⟨?_, List.forall_mem_append.2 ⟨?_, ?_⟩⟩
      · exact ⟨show number < r.blockSizes.length by omega,
          fun _ => show number < r.dim.toNat by omega⟩
      · refine List.forall_mem_append.2 ⟨?_, List.forall_mem_append.2 ⟨?_, ?_⟩⟩
        · exact touch_safe rfl whole (shifted _ (fwhtTouches_lt ⟨k, power⟩))
        · exact touch_safe rfl whole (shifted _ range)
        · exact touch_safe rfl signs (shifted _ range)
      · exact ih others (by omega) (by omega)

theorem length_le_sum {sizes : List UInt32} (powers : ∀ size ∈ sizes, IsPower size) :
    sizes.length ≤ (sizes.map UInt32.toNat).sum := by
  induction sizes with
  | nil => exact Nat.le_refl 0
  | cons size sizes ih =>
      obtain ⟨⟨k, -, power⟩, others⟩ := List.forall_mem_cons.1 powers
      have positive := Nat.two_pow_pos k
      have rest := ih others
      rw [List.length_cons, List.map_cons, List.sum_cons, power]
      omega

/-- A permutation that `Load` has checked. -/
structure Permuted (r : RotationMatrix K) : Prop where
  length : r.permutation.length = r.dim.toNat
  inside : ∀ p ∈ r.permutation, p < r.dim

theorem Permuted.entry_lt (permuted : Permuted r) {i : ℕ} (inside : i < r.dim.toNat) :
    (r.permutation.getD i 0).toNat < r.dim.toNat := by
  have inside' : i < r.permutation.length := permuted.length.symm ▸ inside
  rw [List.getD_eq_getElem _ _ inside']
  exact UInt32.lt_iff_toNat_lt.1 (permuted.inside _ (List.getElem_mem inside'))

theorem blockedFast_safe (permuted : Permuted r) (powers : ∀ size ∈ r.blockSizes, IsPower size)
    (tiles : (r.blockSizes.map UInt32.toNat).sum = r.dim.toNat)
    (signs : r.diagSigns.length = r.dim.toNat) :
    (∀ a ∈ blockedFastAccesses avx512 r.permutation r.blockSizes, a.Safe r) ∧
      ∀ a ∈ blockedFastInverseAccesses avx512 r.permutation r.blockSizes, a.Safe r := by
  have few := length_le_sum powers
  rw [tiles] at few
  have blocks : ∀ values, r.entries values = r.dim.toNat →
      ∀ a ∈ forBlockAccesses avx512 values r.blockSizes 0 0, a.Safe r := fun values whole =>
    forBlockAccesses_safe powers (by omega) few (by omega) whole signs
  have range : ∀ i ∈ List.range r.permutation.length, i < r.dim.toNat := fun i mem =>
    permuted.length ▸ List.mem_range.1 mem
  have entry : ∀ {table : Table} {i : ℕ}, r.entries table = r.dim.toNat → i < r.dim.toNat →
      Access.Safe r ⟨table, i⟩ := fun whole inside => ⟨whole ▸ inside, fun _ => inside⟩
  have whole : r.entries .permutation = r.dim.toNat := permuted.length
  have whole' : r.entries .scratch = r.dim.toNat := permuted.length
  constructor
  · refine List.forall_mem_append.2 ⟨List.forall_mem_flatMap.2 fun i mem => ?_, blocks _ rfl⟩
    simp only [List.forall_mem_cons]
    exact ⟨entry whole (range i mem), entry rfl (permuted.entry_lt (range i mem)),
      entry rfl (range i mem), fun a none => absurd none List.not_mem_nil⟩
  · refine List.forall_mem_append.2 ⟨touch_safe rfl whole' range, List.forall_mem_append.2
      ⟨touch_safe rfl rfl range, List.forall_mem_append.2 ⟨blocks _ whole',
        List.forall_mem_flatMap.2 fun i mem => ?_⟩⟩⟩
    simp only [List.forall_mem_cons]
    exact ⟨entry whole (range i mem), entry whole' (range i mem),
      entry rfl (permuted.entry_lt (range i mem)), fun a none => absurd none List.not_mem_nil⟩

theorem window_le {dim truncDim : ℕ} (fits : truncDim ≤ dim) (round : ℕ) :
    windowStart dim truncDim round + truncDim ≤ dim := by
  rw [windowStart]
  split <;> omega

theorem fhtKacFast_safe (power : IsPower r.fhtKacTruncDim) (fits : r.fhtKacTruncDim ≤ r.dim)
    (signs : r.fhtKacSigns.length = r.fhtKacNumRounds * r.dim.toNat) :
    ∀ a ∈ fhtKacFastAccesses avx512 r.dim.toNat r.fhtKacTruncDim.toNat r.fhtKacNumRounds,
      a.Safe r := by
  obtain ⟨k, -, size⟩ := power
  rw [UInt32.le_iff_toNat_le] at fits
  have range : ∀ {n i : ℕ}, i ∈ List.range n → i < n := fun mem => List.mem_range.1 mem
  refine List.forall_mem_append.2 ⟨touch_safe rfl rfl fun i mem => range mem,
    List.forall_mem_append.2 ⟨touch_safe rfl rfl fun i mem => range mem,
      List.forall_mem_flatMap.2 fun round mem => ?_⟩⟩
  have window := window_le fits round
  have row := Nat.mul_le_mul_right r.dim.toNat (Nat.succ_le_of_lt (range mem))
  rw [Nat.succ_mul, ← signs] at row
  refine List.forall_mem_append.2 ⟨forall_touch.2 fun i inRow => ?_, List.forall_mem_append.2
    ⟨touch_safe rfl rfl fun i mem => range mem, List.forall_mem_append.2
      ⟨touch_safe rfl rfl fun i inWindow => ?_, touch_safe rfl rfl fun i inMix => ?_⟩⟩⟩
  · have below := range inRow
    exact ⟨show i < r.fhtKacSigns.length - round * r.dim.toNat by omega, fun _ => below⟩
  · rw [windowTouches] at inWindow
    split at inWindow
    · exact absurd inWindow List.not_mem_nil
    · simp only [List.mem_append, List.mem_map] at inWindow
      rcases inWindow with ⟨e, inTransform, rfl⟩ | ⟨e, inRange, rfl⟩
      · have := fwhtTouches_lt ⟨k, size⟩ e inTransform
        omega
      · have := range inRange
        omega
  · obtain ⟨e, inRange, pair⟩ := List.mem_flatMap.1 inMix
    have := range inRange
    simp only [List.mem_cons, List.not_mem_nil, or_false] at pair
    rcases pair with rfl | rfl <;> omega

theorem hadamard_safe (power : r.dim = 0 ∨ IsPower r.dim)
    (signs : r.diagSigns.length = r.dim.toNat) :
    ∀ a ∈ hadamardAccesses avx512 r.dim.toNat, a.Safe r := by
  have range : ∀ i ∈ List.range r.dim.toNat, i < r.dim.toNat := fun i mem => List.mem_range.1 mem
  refine List.forall_mem_append.2 ⟨touch_safe rfl rfl range, List.forall_mem_append.2
    ⟨touch_safe rfl rfl range, List.forall_mem_append.2 ⟨touch_safe rfl rfl ?_,
      touch_safe rfl signs range⟩⟩⟩
  rcases power with zero | ⟨k, -, size⟩
  · rw [zero]
    exact fun i none => absurd none List.not_mem_nil
  · exact fwhtTouches_lt ⟨k, size⟩

theorem dense_safe : ∀ a ∈ denseAccesses r.dim.toNat, a.Safe r := by
  have range : ∀ {n i : ℕ}, i ∈ List.range n → i < n := fun mem => List.mem_range.1 mem
  refine List.forall_mem_append.2 ⟨touch_safe rfl rfl fun i mem => range mem,
    List.forall_mem_append.2 ⟨touch_safe rfl rfl fun i mem => range mem,
      forall_touch.2 fun t mem => ?_⟩⟩
  obtain ⟨i, row, column⟩ := List.mem_flatMap.1 mem
  obtain ⟨j, inRow, rfl⟩ := List.mem_map.1 column
  exact ⟨entry_lt (range row) (range inRow), fun other => absurd rfl other⟩

end Safe

/-! ## What Load accepts -/

section Accepted

variable {K : Type} {cells : FileCells K} {ifs rest : List cells.Cell} {n k : ℕ}

/-- The bytes of a file. -/
def fileBytes (cells : FileCells K) (ifs : List cells.Cell) : List UInt8 := ifs.map cells.byteOf

/-- The byte behind the dimension and the matrix. -/
def fileFlags (bytes : List UInt8) (dim : UInt32) : UInt8 :=
  bytes.getD (4 + dim.toNat * dim.toNat * 4) 0

/-- Where the count of the blocks is: behind the flags, the signs and the seed. -/
def countAt (bytes : List UInt8) (dim : UInt32) : ℕ :=
  4 + dim.toNat * dim.toNat * 4 + 1 +
    (if fileFlags bytes dim &&& 1 ≠ 0 ∧ fileFlags bytes dim &&& 4 = 0 then dim.toNat else 0) + 8

/-- The blocks, as many as their count says. -/
def fileBlocks (bytes : List UInt8) (dim : UInt32) : List UInt32 :=
  (List.range (word32 bytes (countAt bytes dim))).map fun i =>
    UInt32.ofNat (word32 bytes (countAt bytes dim + 4 + i * 4))

theorem bind_ok_iff {α β : Type} {e : Result α} {f : α → Result β} {y : β} :
    (e >>= f) = .ok y ↔ ∃ x, e = .ok x ∧ f x = .ok y := by
  cases e with
  | ok x => exact ⟨fun h => ⟨x, rfl, h⟩, fun ⟨_, same, h⟩ => Except.ok.inj same ▸ h⟩
  | error failure => exact ⟨fun h => (by cases h), fun ⟨_, h, _⟩ => (by cases h)⟩

theorem good_ok_iff {α : Type} {message : String} {o : Option α} {x : α} :
    good message o = .ok x ↔ o = some x := by
  cases o with
  | some y => simp [good]
  | none => exact ⟨fun h => (by cases h), fun h => (by cases h)⟩

theorem readBytes_spec {bytes : List UInt8}
    (loaded : readBytes cells n (ifs.drop k) = some (bytes, rest)) :
    bytes = slice (fileBytes cells ifs) k n ∧ bytes.length = n ∧ rest = ifs.drop (k + n) := by
  rw [readBytes, read] at loaded
  split at loaded
  · rename_i enough
    obtain ⟨rfl, rfl⟩ := Prod.mk.inj (Option.some.inj loaded)
    refine ⟨?_, ?_, by rw [List.drop_drop]⟩
    · rw [slice, fileBytes, List.map_take, List.map_drop]
    · rw [List.length_map, List.length_take, Nat.min_eq_left enough]
  · cases loaded

theorem readWord_spec {w : UInt32} (loaded : readWord cells (ifs.drop k) = some (w, rest)) :
    w = UInt32.ofNat (word32 (fileBytes cells ifs) k) ∧ rest = ifs.drop (k + 4) := by
  rw [readWord, Option.map_eq_some_iff] at loaded
  obtain ⟨⟨bytes, behind⟩, loaded, same⟩ := loaded
  obtain ⟨rfl, rfl⟩ := Prod.mk.inj same
  obtain ⟨rfl, -, rfl⟩ := readBytes_spec loaded
  exact ⟨rfl, rfl⟩

theorem readWords_spec {words : List UInt32}
    (loaded : readWords cells n (ifs.drop k) = some (words, rest)) :
    words = (List.range n).map (fun i =>
      UInt32.ofNat (word32 (fileBytes cells ifs) (k + i * 4))) ∧ rest = ifs.drop (k + n * 4) := by
  rw [readWords, Option.map_eq_some_iff] at loaded
  obtain ⟨⟨bytes, behind⟩, loaded, same⟩ := loaded
  obtain ⟨rfl, rfl⟩ := Prod.mk.inj same
  obtain ⟨rfl, -, rfl⟩ := readBytes_spec loaded
  refine ⟨List.map_congr_left fun i mem => ?_, rfl⟩
  have inside := List.mem_range.1 mem
  rw [word32, word32, slice_slice (by omega)]

theorem readSigns_spec {signs : List ℤ}
    (loaded : readSigns cells n (ifs.drop k) = some (signs, rest)) :
    signs.length = n ∧ rest = ifs.drop (k + n) := by
  rw [readSigns, Option.map_eq_some_iff] at loaded
  obtain ⟨⟨bytes, behind⟩, loaded, same⟩ := loaded
  obtain ⟨rfl, rfl⟩ := Prod.mk.inj same
  obtain ⟨-, length, rfl⟩ := readBytes_spec loaded
  exact ⟨by rw [List.length_map, length], rfl⟩

theorem readFloats_spec {data : ℕ → K}
    (loaded : readFloats cells n (ifs.drop k) = some (data, rest)) :
    rest = ifs.drop (k + n * 4) := by
  rw [readFloats, read] at loaded
  split at loaded
  · obtain ⟨-, rfl⟩ := Prod.mk.inj (Option.some.inj loaded)
    rw [List.drop_drop]
  · cases loaded

variable [Field K] [LinearOrder K] {dim : UInt32} {r result : RotationMatrix K}

/-- What `Load` has put behind the flags of a blocked rotation. -/
structure BlockedParts (blocks : List UInt32) (result r : RotationMatrix K) : Prop where
  same : r = { result with blockSizes := blocks, permutation := r.permutation }
  powers : ∀ b ∈ blocks, IsPower b
  length : r.permutation.length = result.dim.toNat
  inside : ∀ p ∈ r.permutation, p < result.dim

omit [Field K] [LinearOrder K] in
theorem loadBlocked_spec (loaded : loadBlocked cells result (ifs.drop k) = .ok r) :
    BlockedParts ((List.range (word32 (fileBytes cells ifs) (k + 8))).map fun i =>
      UInt32.ofNat (word32 (fileBytes cells ifs) (k + 8 + 4 + i * 4))) result r := by
  simp only [loadBlocked, bind_ok_iff, good_ok_iff] at loaded
  obtain ⟨⟨seed, behindSeed⟩, readSeed, ⟨count, behindCount⟩, readCount,
    ⟨blocks, behindBlocks⟩, readBlocks, ⟨permutation, behind⟩, readPermutation, total, sum,
    loaded⟩ := loaded
  obtain ⟨-, -, rfl⟩ := readBytes_spec readSeed
  obtain ⟨rfl, rfl⟩ := readWord_spec readCount
  obtain ⟨rfl, rfl⟩ := readWords_spec readBlocks
  have length := (readWords_spec readPermutation).1
  dsimp only at loaded sum
  rw [UInt32.toNat_ofNat', Nat.mod_eq_of_lt (word32_lt _ _)] at loaded sum
  split at loaded
  · cases loaded
  · split at loaded
    · rename_i valid
      cases loaded
      refine ⟨rfl, (sumBlocks_ok_iff.1 sum).1, ?_, fun p mem => ?_⟩
      · dsimp only
        rw [length, List.length_map, List.length_range]
      · exact ((permutationValid_iff.1 valid).1 p mem).1
    · cases loaded

/-- What `Load` has put behind the flags of a FHT-Kac rotation. -/
structure FhtKacParts (result r : RotationMatrix K) : Prop where
  same : r = { result with
    fhtKacPaddedDim := r.fhtKacPaddedDim
    fhtKacTruncDim := r.fhtKacTruncDim
    fhtKacNumRounds := r.fhtKacNumRounds
    fhtKacSigns := r.fhtKacSigns }
  power : IsPower r.fhtKacTruncDim
  fits : r.fhtKacTruncDim ≤ result.dim
  signs : r.fhtKacSigns.length = r.fhtKacNumRounds * result.dim.toNat

omit [Field K] [LinearOrder K] in
theorem loadFhtKac_spec (loaded : loadFhtKac cells result (ifs.drop k) = .ok r) :
    FhtKacParts result r := by
  simp only [loadFhtKac, bind_ok_iff, good_ok_iff] at loaded
  obtain ⟨⟨seed, behindSeed⟩, readSeed, ⟨paddedDim, behindPadded⟩, readPadded,
    ⟨truncDim, behindTrunc⟩, readTrunc, ⟨numRounds, behindRounds⟩, readRounds, loaded⟩ := loaded
  obtain ⟨-, -, rfl⟩ := readBytes_spec readSeed
  obtain ⟨-, rfl⟩ := readWord_spec readPadded
  obtain ⟨-, rfl⟩ := readWord_spec readTrunc
  obtain ⟨-, rfl⟩ := readWord_spec readRounds
  dsimp only at loaded
  split at loaded
  · cases loaded
  · split at loaded
    · cases loaded
    · rename_i trunc
      rw [not_or, not_not, UInt32.not_lt] at trunc
      simp only [bind_ok_iff, good_ok_iff] at loaded
      obtain ⟨⟨signs, behind⟩, readAll, loaded⟩ := loaded
      cases loaded
      exact ⟨rfl, isPowerOf2_iff.1 trunc.1, trunc.2, (readSigns_spec readAll).1⟩

/-- What is read before the parts of the kind. -/
def commonParts (flags : UInt8) (dim : UInt32) (data : ℕ → K) (diagSigns : List ℤ) :
    RotationMatrix K :=
  { dim := dim
    data := data
    kind := kindOf flags
    useFastHadamard := decide (flags &&& 1 ≠ 0 ∨ flags &&& 4 ≠ 0)
    diagSigns := diagSigns }

/-- A rotation that `Load` has accepted. -/
def Accepted (bytes : List UInt8) (dim : UInt32) (r : RotationMatrix K) : Prop :=
  ∃ data diagSigns,
    diagSigns.length = (if fileFlags bytes dim &&& 1 ≠ 0 ∧ fileFlags bytes dim &&& 4 = 0 then
      dim.toNat else 0) ∧
    if fileFlags bytes dim &&& 2 ≠ 0 then
      BlockedParts (fileBlocks bytes dim) (commonParts (fileFlags bytes dim) dim data diagSigns) r
    else if fileFlags bytes dim &&& 4 ≠ 0 then
      FhtKacParts (commonParts (fileFlags bytes dim) dim data diagSigns) r
    else r = commonParts (fileFlags bytes dim) dim data diagSigns

omit [Field K] [LinearOrder K] in
theorem loadDiagSigns_spec {flags : UInt8} {signs : List ℤ}
    (loaded : loadDiagSigns cells flags dim (ifs.drop k) = .ok (signs, rest)) :
    signs.length = (if flags &&& 1 ≠ 0 ∧ flags &&& 4 = 0 then dim.toNat else 0) ∧
      rest = ifs.drop (k + if flags &&& 1 ≠ 0 ∧ flags &&& 4 = 0 then dim.toNat else 0) := by
  rw [loadDiagSigns] at loaded
  split at loaded
  · rename_i stored
    rw [if_pos stored]
    exact readSigns_spec (good_ok_iff.1 loaded)
  · rename_i other
    obtain ⟨rfl, rfl⟩ := Prod.mk.inj (Except.ok.inj loaded)
    rw [if_neg other]
    exact ⟨rfl, rfl⟩

theorem headD_slice (l : List UInt8) (k : ℕ) : (slice l k 1).headD 0 = l.getD k 0 := by
  rw [slice, List.getD_eq_getElem?_getD, List.headD_eq_head?_getD, List.head?_take,
    if_neg Nat.one_ne_zero, List.head?_drop]

omit [Field K] [LinearOrder K] in
theorem load_accepted (loaded : RotationMatrix.load cells ifs dim = .ok r) :
    Accepted (fileBytes cells ifs) dim r := by
  rw [RotationMatrix.load, bind_ok_iff] at loaded
  obtain ⟨⟨fileDim, behindDim⟩, readDim, loaded⟩ := loaded
  rw [good_ok_iff, ← List.drop_zero (l := ifs)] at readDim
  obtain ⟨-, rfl⟩ := readWord_spec readDim
  dsimp only at loaded
  split at loaded
  · cases loaded
  · simp only [bind_ok_iff, good_ok_iff] at loaded
    obtain ⟨⟨data, behindData⟩, readData, ⟨flags, behindFlags⟩, readFlags, loaded⟩ := loaded
    obtain rfl := readFloats_spec readData
    obtain ⟨rfl, -, rfl⟩ := readBytes_spec readFlags
    dsimp only at loaded
    rw [headD_slice, Nat.zero_add, ← fileFlags, loadKind, bind_ok_iff] at loaded
    obtain ⟨⟨signs, behindSigns⟩, readSigns, loaded⟩ := loaded
    obtain ⟨length, rfl⟩ := loadDiagSigns_spec readSigns
    refine ⟨data, signs, length, ?_⟩
    dsimp only at loaded
    split at loaded
    · rename_i blocked
      rw [if_pos blocked]
      exact loadBlocked_spec loaded
    · rename_i notBlocked
      rw [if_neg notBlocked]
      split at loaded
      · rename_i fhtKac
        rw [if_pos fhtKac]
        exact loadFhtKac_spec loaded
      · rename_i plain
        rw [if_neg plain]
        exact (Except.ok.inj loaded).symm

/-! ## Which of them are safe -/

/-- The flags and the blocks of a file fit the dimension. -/
def FitsDim (bytes : List UInt8) (dim : UInt32) : Prop :=
  if fileFlags bytes dim &&& 2 ≠ 0 then
    ((fileBlocks bytes dim).map UInt32.toNat).sum = dim.toNat ∧
      (fileFlags bytes dim &&& 4 = 0 ∨ dim = 0)
  else if fileFlags bytes dim &&& 4 ≠ 0 then True
  else fileFlags bytes dim &&& 1 ≠ 0 → dim = 0 ∨ isPowerOf2 dim

instance (bytes : List UInt8) (dim : UInt32) : Decidable (FitsDim bytes dim) :=
  inferInstanceAs (Decidable (ite _ _ _))

omit [Field K] [LinearOrder K] in
theorem dense_safeToApply {avx512 : Bool} (slow : r.useFastHadamard = false)
    (tiles : r.kind = .blockedHadamardPermuted →
      (r.blockSizes.map UInt32.toNat).sum = r.dim.toNat) : SafeToApply avx512 r := by
  refine ⟨?_, ?_, tiles⟩
  · simp only [RotationMatrix.applyAccesses, slow, Bool.false_eq_true, and_false, if_false]
    exact dense_safe
  · simp only [RotationMatrix.applyInverseAccesses, slow, Bool.false_eq_true, and_false, if_false]
    exact dense_safe

/-- A fast blocked rotation that has entries looks at its first sign. -/
theorem mem_forBlockAccesses {avx512 : Bool} {sizes : List UInt32} {values : Table}
    (powers : ∀ size ∈ sizes, IsPower size) (some_ : 0 < (sizes.map UInt32.toNat).sum) :
    (⟨.diagSigns, 0⟩ : Access) ∈ forBlockAccesses avx512 values sizes 0 0 := by
  cases sizes with
  | nil => exact absurd some_ (Nat.lt_irrefl 0)
  | cons size sizes =>
      obtain ⟨k, -, power⟩ := powers size List.mem_cons_self
      have positive := Nat.two_pow_pos k
      refine List.mem_cons_of_mem _ (List.mem_append_left _ (List.mem_append_right _
        (List.mem_append_right _ (List.mem_map.2 ⟨0, List.mem_map.2 ⟨0, ?_, rfl⟩, rfl⟩))))
      exact List.mem_range.2 (power ▸ positive)

omit [Field K] [LinearOrder K] in
theorem blocked_safe_iff {avx512 : Bool} {blocks : List UInt32} {stored : Prop} [Decidable stored]
    (kind : result.kind = .blockedHadamardPermuted) (parts : BlockedParts blocks result r)
    (length : result.diagSigns.length = if stored then result.dim.toNat else 0) :
    SafeToApply avx512 r ↔ (blocks.map UInt32.toNat).sum = result.dim.toNat ∧
      (result.useFastHadamard = true → stored ∨ result.dim = 0) := by
  obtain ⟨same, powers, whole, inside⟩ := parts
  generalize r.permutation = permutation at same whole inside
  subst same
  constructor
  · intro safe
    have tiles : (blocks.map UInt32.toNat).sum = result.dim.toNat := safe.tiles kind
    refine ⟨tiles, fun fast => ?_⟩
    by_contra neither
    rw [not_or] at neither
    rw [if_neg neither.1] at length
    have positive : 0 < result.dim.toNat :=
      Nat.pos_of_ne_zero fun zero => neither.2 (UInt32.toNat_inj.1 zero)
    have touched := safe.apply ⟨.diagSigns, 0⟩ (by
      rw [RotationMatrix.applyAccesses, if_pos ⟨kind, fast⟩]
      exact List.mem_append_right _ (mem_forBlockAccesses powers (tiles ▸ positive)))
    have absent : (0 : ℕ) < result.diagSigns.length := touched.inside
    omega
  · rintro ⟨tiles, signs⟩
    by_cases fast : result.useFastHadamard = true
    · have signs' : result.diagSigns.length = result.dim.toNat := by
        rw [length]
        split
        · rfl
        · rename_i absent
          rw [(signs fast).resolve_left absent]
          rfl
      have safe := @blockedFast_safe avx512 K
        { result with blockSizes := blocks, permutation := permutation } ⟨whole, inside⟩ powers
        tiles signs'
      refine ⟨?_, ?_, fun _ => tiles⟩
      · rw [RotationMatrix.applyAccesses, if_pos ⟨kind, fast⟩]
        exact safe.1
      · rw [RotationMatrix.applyInverseAccesses, if_pos ⟨kind, fast⟩]
        exact safe.2
    · exact dense_safeToApply (Bool.not_eq_true _ ▸ fast) fun _ => tiles

omit [Field K] [LinearOrder K] in
theorem fhtKac_safeToApply {avx512 : Bool} (kind : result.kind = .fhtKacRotator)
    (fast : result.useFastHadamard = true) (parts : FhtKacParts result r) :
    SafeToApply avx512 r := by
  have same := parts.same
  have kind' : r.kind = .fhtKacRotator := by rw [same, kind]
  have fast' : r.useFastHadamard = true := by rw [same, fast]
  have size : r.dim = result.dim := by rw [same]
  have safe := @fhtKacFast_safe avx512 K r parts.power (size ▸ parts.fits) (size ▸ parts.signs)
  have other : ¬ (r.kind = .blockedHadamardPermuted ∧ r.useFastHadamard = true) := by
    rw [kind']
    simp
  refine ⟨?_, ?_, fun blocked => absurd (kind'.symm.trans blocked) (by decide)⟩
  · rw [RotationMatrix.applyAccesses, if_neg other, if_pos ⟨kind', fast'⟩]
    exact safe
  · rw [RotationMatrix.applyInverseAccesses, if_neg other, if_pos ⟨kind', fast'⟩]
    exact safe

omit [Field K] [LinearOrder K] in
theorem hadamard_safe_iff {avx512 : Bool} (kind : r.kind = .hadamard)
    (fast : r.useFastHadamard = true) (signs : r.diagSigns.length = r.dim.toNat) :
    SafeToApply avx512 r ↔ r.dim = 0 ∨ isPowerOf2 r.dim := by
  have path : r.applyAccesses avx512 = hadamardAccesses avx512 r.dim.toNat ∧
      r.applyInverseAccesses avx512 = hadamardAccesses avx512 r.dim.toNat := by
    simp [RotationMatrix.applyAccesses, RotationMatrix.applyInverseAccesses, kind, fast]
  rw [isPowerOf2_iff]
  constructor
  · intro safe
    by_contra neither
    rw [not_or] at neither
    have positive : 0 < r.dim.toNat :=
      Nat.pos_of_ne_zero fun zero => neither.1 (UInt32.toNat_inj.1 zero)
    have small := UInt32.toNat_lt r.dim
    have other : ¬ ∃ m, r.dim.toNat = 2 ^ m := by
      rintro ⟨m, power⟩
      rw [power] at small
      exact neither.2 ⟨m, ((Nat.pow_lt_pow_iff_right (by decide)).1 small).le, power⟩
    have touched := safe.apply ⟨.output, r.dim.toNat⟩ (by
      rw [path.1]
      exact List.mem_append_right _ (List.mem_append_right _ (List.mem_append_left _
        (List.mem_map.2 ⟨_, fwhtTouches_end small positive other, rfl⟩))))
    exact Nat.lt_irrefl _ touched.inside
  · intro power
    have safe := @hadamard_safe avx512 K r power signs
    refine ⟨path.1 ▸ safe, path.2 ▸ safe, fun blocked => absurd (kind.symm.trans blocked) ?_⟩
    decide

omit [Field K] [LinearOrder K] in
/-- **Which accepted files are safe to apply**: those whose flags and blocks fit. -/
theorem accepted_safe_iff (avx512 : Bool) {ifs : List cells.Cell} {dim : UInt32}
    {r : RotationMatrix K} (loaded : RotationMatrix.load cells ifs dim = .ok r) :
    SafeToApply avx512 r ↔ FitsDim (fileBytes cells ifs) dim := by
  obtain ⟨data, signs, length, parts⟩ := load_accepted loaded
  rw [FitsDim]
  generalize fileFlags (fileBytes cells ifs) dim = flags at *
  split at parts
  · rename_i blocked
    rw [if_pos blocked, blocked_safe_iff (if_pos blocked) parts length]
    have fast : (decide (flags &&& 1 ≠ 0 ∨ flags &&& 4 ≠ 0) = true →
        (flags &&& 1 ≠ 0 ∧ flags &&& 4 = 0) ∨ dim = 0) ↔ flags &&& 4 = 0 ∨ dim = 0 := by
      rw [decide_eq_true_iff]
      tauto
    exact and_congr_right fun _ => fast
  · rename_i notBlocked
    rw [if_neg notBlocked]
    split at parts
    · rename_i fhtKac
      have kind : kindOf flags = .fhtKacRotator := by
        rw [kindOf, if_neg notBlocked, if_pos fhtKac]
      rw [if_pos fhtKac, iff_true]
      exact fhtKac_safeToApply kind (decide_eq_true (Or.inr fhtKac)) parts
    · rename_i plain
      rw [if_neg plain]
      subst parts
      by_cases fast : flags &&& 1 ≠ 0
      · have kind : kindOf flags = .hadamard := by
          rw [kindOf, if_neg notBlocked, if_neg plain, if_pos fast]
        rw [if_pos ⟨fast, not_not.1 plain⟩] at length
        rw [hadamard_safe_iff kind (decide_eq_true (Or.inl fast)) length]
        exact ⟨fun fits _ => fits, fun fits => fits fast⟩
      · have kind : kindOf flags = .randomMatrix := by
          rw [kindOf, if_neg notBlocked, if_neg plain, if_neg fast]
        refine ⟨fun _ flag => absurd flag fast, fun _ => dense_safeToApply ?_ fun blocked => ?_⟩
        · exact decide_eq_false (not_or.2 ⟨fast, plain⟩)
        · exact absurd (kind.symm.trans blocked) (by decide)

end Accepted

/-- A file of bytes; what its floats are does not matter here. -/
def byteCells : FileCells ℚ where
  Cell := UInt8
  byteOf b := b
  floatOf _ := 0

/-- A file for two entries with the flag of a Hadamard rotation. -/
def twoEntries : List UInt8 := leBytes 4 2 ++ List.replicate 16 0 ++ [1, 1, 255]

theorem accepted_safe_iff_two :
    ∃ r, RotationMatrix.load byteCells twoEntries 2 = .ok r ∧ SafeToApply true r := by
  have accepted : ∃ r, RotationMatrix.load byteCells twoEntries 2 = .ok r := ⟨_, rfl⟩
  obtain ⟨r, loaded⟩ := accepted
  exact ⟨r, loaded, (accepted_safe_iff true loaded).2 (by decide)⟩

/-- A file for three entries with the flag of a Hadamard rotation. -/
def threeEntries : List UInt8 := leBytes 4 3 ++ List.replicate 36 0 ++ [1, 1, 1, 1]

/-- A file for one entry whose three blocks add up to `2 ^ 32 + 1`. -/
def wrappedBlocks : List UInt8 :=
  leBytes 4 1 ++ leBytes 4 0 ++ [3, 1] ++ leBytes 8 7 ++ leBytes 4 3 ++
    leBytes 4 2147483648 ++ leBytes 4 2147483648 ++ leBytes 4 1 ++ leBytes 4 0

/-- Both files are accepted.  The transform of the first touches a fourth entry, and the
blocks of the second do not tile its dimension. -/
theorem accepted_files_not_safe :
    (∃ r, RotationMatrix.load byteCells threeEntries 3 = .ok r ∧ ¬ SafeToApply true r) ∧
      ∃ r, RotationMatrix.load byteCells wrappedBlocks 1 = .ok r ∧ ¬ SafeToApply true r := by
  refine ⟨⟨_, rfl, fun safe => ?_⟩, ⟨_, rfl, fun safe => ?_⟩⟩
  · exact absurd ((hadamard_safe_iff rfl rfl rfl).1 safe) (by decide)
  · exact absurd (safe.tiles rfl) (by decide)

end VecFetch.Rabitq
