/-
# Simd.FastScanLut -- the FastScan lookup table

`BuildFastScanLUT` makes a sixteen-entry table of each group of four dimensions: the
sum of the quantized values a nibble selects, moved up so that the smallest is zero.
The low and the high bytes of a table lie in two planes, and the constants of the build
say where.
-/
import VecFetch.Theory.Buffer
import Mathlib.Algebra.BigOperators.Ring.Finset
import Mathlib.Tactic.IntervalCases
import Mathlib.Tactic.Linarith

namespace VecFetch.Simd

open VecFetch.Theory

set_option autoImplicit false

/-! ## Builds -/

/-- `VDB_USE_AVX512`, `VDB_USE_AVX2`, or neither. -/
inductive Build where
  | avx512
  | avx2
  | scalar
  deriving DecidableEq

def kFastScanLutPerIter : Build → ℕ
  | .avx512 => 4
  | .avx2 => 2
  | .scalar => 1

def kFastScanCodePerIter : Build → ℕ
  | .avx512 => 128
  | .avx2 => 64
  | .scalar => 32

def kFastScanCodePerLane : Build → ℕ := fun _ => 16

def kFastScanHiOffset : Build → ℕ
  | .avx512 => 64
  | .avx2 => 32
  | .scalar => 16

/-! ## One group -/

/-- A query quantized to 14 bits. -/
structure QuantQuery where
  value : ℕ → ℤ
  range : ∀ d, -8191 ≤ value d ∧ value d ≤ 8191

/-- The smallest sum of a group. -/
def lutMin (q0 q1 q2 q3 : ℤ) : ℤ := min q0 0 + min q1 0 + min q2 0 + min q3 0

/-- `BuildLut16`. -/
def buildLut16 (q0 q1 q2 q3 : ℤ) : (ℕ → UInt16) × ℤ :=
  let bias := -lutMin q0 q1 q2 q3
  (fun n => UInt16.ofInt ([
    bias,
    bias + q3,
    bias + q2,
    bias + q2 + q3,
    bias + q1,
    bias + q1 + q3,
    bias + q1 + q2,
    bias + q1 + q2 + q3,
    bias + q0,
    bias + q0 + q3,
    bias + q0 + q2,
    bias + q0 + q2 + q3,
    bias + q0 + q1,
    bias + q0 + q1 + q3,
    bias + q0 + q1 + q2,
    bias + q0 + q1 + q2 + q3].getD n 0), lutMin q0 q1 q2 q3)

/-- `BuildLut16Simd`: eight 16-bit lanes at a time, each query value behind a mask. -/
def buildLut16Simd (q0 q1 q2 q3 : ℤ) : (ℕ → UInt16) × ℤ :=
  let vbias := UInt16.ofInt (-lutMin q0 q1 q2 q3)
  let masked (q : ℤ) (mask : List Bool) (j : ℕ) : UInt16 :=
    if mask.getD j false then UInt16.ofInt q else 0
  let q1Mask := [false, false, false, false, true, true, true, true]
  let q2Mask := [false, false, true, true, false, false, true, true]
  let q3Mask := [false, true, false, true, false, true, false, true]
  let lo (j : ℕ) := vbias + masked q1 q1Mask j + masked q2 q2Mask j + masked q3 q3Mask j
  let hi (j : ℕ) :=
    vbias + UInt16.ofInt q0 + masked q1 q1Mask j + masked q2 q2Mask j + masked q3 q3Mask j
  (fun n => if n < 8 then lo n else hi (n - 8), lutMin q0 q1 q2 q3)

/-- Where a group's low bytes go. -/
def lutGroupWriteBase (build : Build) (groupIdx : ℕ) : ℕ :=
  groupIdx / kFastScanLutPerIter build * kFastScanCodePerIter build +
    groupIdx % kFastScanLutPerIter build * kFastScanCodePerLane build

/-- A signed 32-bit sum; overflow is undefined. -/
def addInt32 (a b : ℤ) : Option ℤ :=
  if -2 ^ 31 ≤ a + b ∧ a + b < 2 ^ 31 then some (a + b) else none

/-- `StoreLutBytePlanes`: both byte planes of a table. -/
def storeLutBytePlanes (build : Build) (fillLo : ℕ) (lut : ℕ → UInt16) (out : Buffer) :
    Option Buffer :=
  (out.store fillLo 16 fun j => UInt8.ofNat ((lut j).toNat % 256)).bind fun out =>
    out.store (fillLo + kFastScanHiOffset build) 16 fun j => UInt8.ofNat ((lut j).toNat / 256)

/-- `BuildLutAndStoreGroup`. -/
def buildLutAndStoreGroup (build : Build) (q : ℕ → ℤ) (groupIdx : ℕ) (st : Buffer × ℤ) :
    Option (Buffer × ℤ) :=
  let buildLut := if build = .scalar then buildLut16 else buildLut16Simd
  let group := buildLut (q (4 * groupIdx)) (q (4 * groupIdx + 1)) (q (4 * groupIdx + 2))
    (q (4 * groupIdx + 3))
  (addInt32 st.2 group.2).bind fun totalShift =>
    (storeLutBytePlanes build (lutGroupWriteBase build groupIdx) group.1 st.1).map
      fun out => (out, totalShift)

/-- `BuildFastScanLUT`, into a table of `dim * 8` bytes; with it the shift. -/
def buildFastScanLUT (build : Build) (q : ℕ → ℤ) (dim : ℕ) : Option (Buffer × ℤ) :=
  forRange (buildLutAndStoreGroup build q) (dim / 4) (.zeros (dim * 8), 0)

/-! ## What a table holds -/

section Entries

variable (q : ℕ → ℤ)

/-- The shift of group `g`. -/
def groupMin (g : ℕ) : ℤ := lutMin (q (4 * g)) (q (4 * g + 1)) (q (4 * g + 2)) (q (4 * g + 3))

/-- The sum of group `g` that a nibble selects. -/
def groupSum (g nibble : ℕ) : ℤ :=
  (if nibble / 8 % 2 = 1 then q (4 * g) else 0) + (if nibble / 4 % 2 = 1 then q (4 * g + 1) else 0) +
    (if nibble / 2 % 2 = 1 then q (4 * g + 2) else 0) + if nibble % 2 = 1 then q (4 * g + 3) else 0

/-- The table entry of group `g` for a nibble. -/
def lutEntry (g nibble : ℕ) : ℕ := (groupSum q g nibble - groupMin q g).toNat

/-- The byte of an entry in the low plane `0` or the high plane `1`. -/
def planeByte (plane : ℕ) (entry : ℕ) : ℕ := if plane = 0 then entry % 256 else entry / 256

/-- The shift of the first groups. -/
def lutShift (groups : ℕ) : ℤ := ∑ g ∈ Finset.range groups, groupMin q g

end Entries

theorem planeByte_sum (entry : ℕ) : planeByte 0 entry + 256 * planeByte 1 entry = entry := by
  simp only [planeByte, if_true, one_ne_zero, if_false]
  omega

section Table

variable (q : QuantQuery)

/-- A value that is taken or not lies above its smaller choice, by 13 bits at most. -/
theorem chosen_range (taken : Prop) [Decidable taken] {v : ℤ} (range : -8191 ≤ v ∧ v ≤ 8191) :
    min v 0 ≤ (if taken then v else 0) ∧ (if taken then v else 0) ≤ min v 0 + 8191 := by
  split <;> omega

theorem groupMin_nonpos (g : ℕ) : groupMin q.value g ≤ 0 := by
  unfold groupMin lutMin
  omega

/-- An entry is not negative and fits 15 bits. -/
theorem lutEntry_cast (g nibble : ℕ) :
    (lutEntry q.value g nibble : ℤ) = groupSum q.value g nibble - groupMin q.value g ∧
      lutEntry q.value g nibble < 32768 := by
  have first := chosen_range (nibble / 8 % 2 = 1) (q.range (4 * g))
  have second := chosen_range (nibble / 4 % 2 = 1) (q.range (4 * g + 1))
  have third := chosen_range (nibble / 2 % 2 = 1) (q.range (4 * g + 2))
  have fourth := chosen_range (nibble % 2 = 1) (q.range (4 * g + 3))
  have bounds : 0 ≤ groupSum q.value g nibble - groupMin q.value g ∧
      groupSum q.value g nibble - groupMin q.value g < 32768 := by
    rw [groupSum, groupMin, lutMin]
    constructor <;>
      linarith [first.1, first.2, second.1, second.2, third.1, third.2, fourth.1, fourth.2]
  rw [lutEntry]
  omega

theorem planeByte_lt (g nibble plane : ℕ) : planeByte plane (lutEntry q.value g nibble) < 256 := by
  have := (lutEntry_cast q g nibble).2
  unfold planeByte
  split <;> omega

theorem lutShift_antitone {m n : ℕ} (le : m ≤ n) : lutShift q.value n ≤ lutShift q.value m := by
  induction n, le using Nat.le_induction with
  | base => exact le_rfl
  | succ n _ ih =>
      rw [lutShift, Finset.sum_range_succ, ← lutShift]
      linarith [groupMin_nonpos q n]

/-- Both table builders make the same table. -/
theorem buildLut16Simd_eq (q0 q1 q2 q3 : ℤ) {n : ℕ} (nibble : n < 16) :
    (buildLut16Simd q0 q1 q2 q3).1 n = (buildLut16 q0 q1 q2 q3).1 n := by
  simp only [buildLut16Simd, buildLut16]
  interval_cases n <;>
    simp only [List.getD_cons_zero, List.getD_cons_succ, UInt16.ofInt_add, Nat.reduceLT,
      Nat.reduceSub, if_true, if_false, UInt16.add_zero, Bool.false_eq_true, Nat.lt_irrefl]

theorem buildLut16_entry (g : ℕ) {n : ℕ} (nibble : n < 16) :
    ((buildLut16 (q.value (4 * g)) (q.value (4 * g + 1)) (q.value (4 * g + 2))
      (q.value (4 * g + 3))).1 n).toNat = lutEntry q.value g n := by
  obtain ⟨cast, bound⟩ := lutEntry_cast q g n
  have entry : (buildLut16 (q.value (4 * g)) (q.value (4 * g + 1)) (q.value (4 * g + 2))
      (q.value (4 * g + 3))).1 n = UInt16.ofInt (lutEntry q.value g n : ℤ) := by
    rw [cast]
    unfold buildLut16 groupSum groupMin
    dsimp only
    congr 1
    interval_cases n <;> simp <;> omega
  rw [entry, UInt16.ofInt, UInt16.toNat_ofNat']
  omega

/-- Either builder's bytes in the two planes. -/
theorem storedTable_bytes (build : Build) (g : ℕ) {n : ℕ} (nibble : n < 16) :
    let buildLut := if build = .scalar then buildLut16 else buildLut16Simd
    let group := buildLut (q.value (4 * g)) (q.value (4 * g + 1)) (q.value (4 * g + 2))
      (q.value (4 * g + 3))
    group.2 = groupMin q.value g ∧ (group.1 n).toNat = lutEntry q.value g n := by
  dsimp only
  split
  · exact ⟨rfl, buildLut16_entry q g nibble⟩
  · exact ⟨rfl, by rw [buildLut16Simd_eq _ _ _ _ nibble, buildLut16_entry q g nibble]⟩

end Table

/-! ## The finished table -/

/-- A table with the entries of the first groups in their places. -/
structure HoldsGroups (build : Build) (q : QuantQuery) (dim groups : ℕ) (lut : Buffer) : Prop where
  size : lut.size = dim * 8
  bytes : ∀ g < groups, ∀ plane < 2, ∀ n < 16,
    (lut.byte (lutGroupWriteBase build g + plane * kFastScanHiOffset build + n)).toNat =
      planeByte plane (lutEntry q.value g n)

section Finished

variable {build : Build} {q : QuantQuery} {dim : ℕ}

/-- Storing the next group inside the table keeps what the others hold. -/
theorem HoldsGroups.store {groups : ℕ} {out : Buffer} (holds : HoldsGroups build q dim groups out)
    {lut : ℕ → UInt16} (entries : ∀ n < 16, (lut n).toNat = lutEntry q.value groups n)
    (inside : lutGroupWriteBase build groups + kFastScanHiOffset build + 16 ≤ dim * 8) :
    ∃ out', storeLutBytePlanes build (lutGroupWriteBase build groups) lut out = some out' ∧
      HoldsGroups build q dim (groups + 1) out' := by
  obtain ⟨size, bytes⟩ := holds
  obtain ⟨mid, stored₁, size₁, here₁, frame₁⟩ := Buffer.store_spec
    (show lutGroupWriteBase build groups + 16 ≤ out.size by omega)
    fun j => UInt8.ofNat ((lut j).toNat % 256)
  obtain ⟨out', stored₂, size₂, here₂, frame₂⟩ := Buffer.store_spec
    (show lutGroupWriteBase build groups + kFastScanHiOffset build + 16 ≤ mid.size by omega)
    fun j => UInt8.ofNat ((lut j).toNat / 256)
  refine ⟨out', by rw [storeLutBytePlanes, stored₁, Option.bind_some, stored₂], by omega, ?_⟩
  intro g below plane planes n nibble
  have byte := planeByte_lt q groups n plane
  rcases Nat.lt_succ_iff_lt_or_eq.1 below with earlier | rfl
  · have old := bytes g earlier plane planes n nibble
    have apart₂ : lutGroupWriteBase build g + plane * kFastScanHiOffset build + n <
        lutGroupWriteBase build groups + kFastScanHiOffset build ∨
        lutGroupWriteBase build groups + kFastScanHiOffset build + 16 ≤
          lutGroupWriteBase build g + plane * kFastScanHiOffset build + n := by
      cases build <;> simp only [lutGroupWriteBase, kFastScanLutPerIter, kFastScanCodePerIter,
        kFastScanCodePerLane, kFastScanHiOffset] <;> omega
    have apart₁ : lutGroupWriteBase build g + plane * kFastScanHiOffset build + n <
        lutGroupWriteBase build groups ∨
        lutGroupWriteBase build groups + 16 ≤
          lutGroupWriteBase build g + plane * kFastScanHiOffset build + n := by
      cases build <;> simp only [lutGroupWriteBase, kFastScanLutPerIter, kFastScanCodePerIter,
        kFastScanCodePerLane, kFastScanHiOffset] <;> omega
    rw [frame₂ _ apart₂, frame₁ _ apart₁, old]
  · obtain rfl | rfl : plane = 0 ∨ plane = 1 := by omega
    · have apart : lutGroupWriteBase build g + 0 * kFastScanHiOffset build + n <
          lutGroupWriteBase build g + kFastScanHiOffset build := by
        cases build <;> simp only [kFastScanHiOffset] <;> omega
      rw [frame₂ _ (.inl apart), Nat.zero_mul, Nat.add_zero, here₁ n nibble, entries n nibble,
        UInt8.toNat_ofNat']
      simp only [planeByte, if_true]
      omega
    · rw [Nat.one_mul, here₂ n nibble, entries n nibble, UInt8.toNat_ofNat']
      simp only [planeByte, one_ne_zero, if_false] at byte ⊢
      omega

/-- A group of a whole number of iterations fits the table. -/
theorem lutGroup_inside (whole : 4 * kFastScanLutPerIter build ∣ dim) {g : ℕ} (group : g < dim / 4) :
    lutGroupWriteBase build g + kFastScanHiOffset build + 16 ≤ dim * 8 := by
  cases build <;> simp only [lutGroupWriteBase, kFastScanLutPerIter, kFastScanCodePerIter,
    kFastScanCodePerLane, kFastScanHiOffset] at whole ⊢ <;> omega

/-- **The table is built**, for whole iterations and a shift of 32 bits. -/
theorem buildFastScanLUT_spec (whole : 4 * kFastScanLutPerIter build ∣ dim)
    (shift : -2 ^ 31 ≤ lutShift q.value (dim / 4)) :
    ∃ lut, buildFastScanLUT build q.value dim = some (lut, lutShift q.value (dim / 4)) ∧
      HoldsGroups build q dim (dim / 4) lut := by
  have loop : ∃ st, buildFastScanLUT build q.value dim = some st ∧
      st.2 = lutShift q.value (dim / 4) ∧ HoldsGroups build q dim (dim / 4) st.1 := by
    refine forRange_spec (fun n (st : Buffer × ℤ) =>
      st.2 = lutShift q.value n ∧ HoldsGroups build q dim n st.1) ⟨rfl,
        rfl, fun g none => absurd none (Nat.not_lt_zero g)⟩ ?_
    rintro g ⟨out, total⟩ below ⟨rfl, holds⟩
    have table := fun n nibble => (storedTable_bytes q build g (n := n) nibble).2
    obtain ⟨out', stored, holds'⟩ := holds.store table (lutGroup_inside whole below)
    have next : lutShift q.value g + groupMin q.value g = lutShift q.value (g + 1) :=
      (Finset.sum_range_succ _ g).symm
    have low := lutShift_antitone q (show g + 1 ≤ dim / 4 from below)
    have high := lutShift_antitone q (Nat.zero_le (g + 1))
    have zero : lutShift q.value 0 = 0 := rfl
    refine ⟨(out', lutShift q.value (g + 1)), ?_, rfl, holds'⟩
    unfold buildLutAndStoreGroup
    dsimp only at stored ⊢
    rw [(storedTable_bytes q build g (n := 0) (by decide)).1, stored, addInt32, next,
      if_pos ⟨by omega, by omega⟩]
    rfl
  obtain ⟨⟨lut, total⟩, built, rfl, holds⟩ := loop
  exact ⟨lut, built, holds⟩

/-- Groups that are stored have a shift of 32 bits. -/
theorem storedGroups_shift {groups : ℕ} {out : Buffer} {st : Buffer × ℤ}
    (built : forRange (buildLutAndStoreGroup build q.value) groups (out, 0) = some st) :
    st.2 = lutShift q.value groups ∧ -2 ^ 31 ≤ st.2 := by
  refine forRange_kept
    (fun n (st : Buffer × ℤ) => st.2 = lutShift q.value n ∧ -2 ^ 31 ≤ st.2) ⟨rfl, by simp⟩ ?_ built
  rintro g ⟨out, total⟩ ⟨out', total'⟩ - ⟨rfl, -⟩ stored
  unfold buildLutAndStoreGroup at stored
  dsimp only at stored
  rw [(storedTable_bytes q build g (n := 0) (by decide)).1, Option.bind_eq_some_iff] at stored
  obtain ⟨sum, added, rest⟩ := stored
  rw [Option.map_eq_some_iff] at rest
  obtain ⟨_, _, same⟩ := rest
  cases same
  unfold addInt32 at added
  split at added
  · rename_i bounds
    cases added
    exact ⟨(Finset.sum_range_succ _ g).symm, bounds.1⟩
  · cases added

/-- A table that is built has a shift of 32 bits. -/
theorem buildFastScanLUT_shift {lut : Buffer} {shift : ℤ}
    (built : buildFastScanLUT build q.value dim = some (lut, shift)) :
    shift = lutShift q.value (dim / 4) ∧ -2 ^ 31 ≤ shift := storedGroups_shift built

/-- A first group whose high bytes lie past the table stops the builder. -/
theorem buildFastScanLUT_none (groups : 0 < dim / 4)
    (outside : dim * 8 < kFastScanHiOffset build + 16) :
    buildFastScanLUT build q.value dim = none := by
  refine forRange_none ?_ _ groups
  unfold buildLutAndStoreGroup
  dsimp only
  rw [Option.bind_eq_none_iff]
  intro total _
  rw [Option.map_eq_none_iff, storeLutBytePlanes, Option.bind_eq_none_iff]
  intro out stored
  refine Buffer.store_outside ?_ _
  rw [Buffer.store_size stored]
  have base : lutGroupWriteBase build 0 = 0 := by cases build <;> rfl
  rw [base, Nat.zero_add]
  exact outside

end Finished

end VecFetch.Simd
