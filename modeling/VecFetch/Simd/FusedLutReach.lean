/-
# Simd.FusedLutReach -- where the fused quantiser has room

For a query that is nowhere larger than the maximum it is given, each lane becomes its rounded
value of 14 bits, whether a register or a single lane rounds it, and the groups are stored in
order.  All of them are stored exactly where the last byte of each is inside the table and the
sum of their smallest entries fits an `int32_t` (`fusedLut_some_iff`).
-/
import VecFetch.Rabitq.Official
import VecFetch.Simd.FusedLut

namespace VecFetch.Simd.FusedLut

open VecFetch.Theory VecFetch.Rabitq

set_option autoImplicit false

/-! ## Groups of integers -/

section Groups

variable {build : Build}

/-- **All groups are stored where each has room**, and their shifts can be added. -/
theorem groups_stored_iff (z : QuantQuery) (groups : ℕ) (out : Buffer) :
    (∃ st, forRange (buildLutAndStoreGroup build z.value) groups (out, 0) = some st) ↔
      (∀ g, g < groups → groupEnd build g ≤ out.size) ∧ -2 ^ 31 ≤ lutShift z.value groups := by
  constructor
  · rintro ⟨st, built⟩
    obtain ⟨total, bound⟩ := storedGroups_shift built
    exact ⟨groups_inside built, total ▸ bound⟩
  · rintro ⟨inside, shift⟩
    have loop : ∃ st, forRange (buildLutAndStoreGroup build z.value) groups (out, 0) = some st ∧
        st.2 = lutShift z.value groups ∧ st.1.size = out.size := by
      refine forRange_spec (fun n (st : Buffer × ℤ) => st.2 = lutShift z.value n ∧
        st.1.size = out.size) ⟨rfl, rfl⟩ ?_
      rintro g ⟨mid, total⟩ below ⟨rfl, size⟩
      dsimp only at size
      have room := inside g below
      unfold groupEnd at room
      have next : lutShift z.value g + groupMin z.value g = lutShift z.value (g + 1) :=
        (Finset.sum_range_succ _ g).symm
      have low := lutShift_antitone z (show g + 1 ≤ groups from below)
      have high := lutShift_antitone z (Nat.zero_le (g + 1))
      have zero : lutShift z.value 0 = 0 := rfl
      unfold buildLutAndStoreGroup
      dsimp only
      rw [(storedTable_bytes z build g (n := 0) (by decide)).1, addInt32, next,
        if_pos ⟨by omega, by omega⟩, Option.bind_some]
      generalize (if build = .scalar then buildLut16 else buildLut16Simd) (z.value (4 * g))
        (z.value (4 * g + 1)) (z.value (4 * g + 2)) (z.value (4 * g + 3)) = group
      obtain ⟨first, stored₁, size₁, -⟩ := Buffer.store_spec
        (show lutGroupWriteBase build g + 16 ≤ mid.size by omega)
        fun j => UInt8.ofNat ((group.1 j).toNat % 256)
      obtain ⟨last, stored₂, size₂, -⟩ := Buffer.store_spec
        (show lutGroupWriteBase build g + kFastScanHiOffset build + 16 ≤ first.size by omega)
        fun j => UInt8.ofNat ((group.1 j).toNat / 256)
      refine ⟨(last, lutShift z.value (g + 1)), ?_, rfl, by dsimp only; omega⟩
      rw [storeLutBytePlanes, stored₁, Option.bind_some, stored₂]
      rfl
    obtain ⟨st, built, -⟩ := loop
    exact ⟨st, built⟩

/-- A group's smallest entry. -/
theorem groupMin_ge (z : QuantQuery) (g : ℕ) : -32764 ≤ groupMin z.value g := by
  have first := z.range (4 * g)
  have second := z.range (4 * g + 1)
  have third := z.range (4 * g + 2)
  have fourth := z.range (4 * g + 3)
  unfold groupMin lutMin
  omega

theorem lutShift_ge (z : QuantQuery) (groups : ℕ) :
    -32764 * (groups : ℤ) ≤ lutShift z.value groups := by
  induction groups with
  | zero => simp [lutShift]
  | succ n ih =>
      rw [lutShift, Finset.sum_range_succ, ← lutShift]
      have next := groupMin_ge z n
      push_cast
      omega

end Groups

/-! ## Lanes -/

section Lanes

variable {K : Type} [Field K] [LinearOrder K] [IsStrictOrderedRing K] [FloorRing K]

/-- **A lane is rounded alike** in a register and by itself. -/
theorem lane_rounded {vmax q : K} (large : ¬ vmax < lit 1e-10) (below : |q| ≤ vmax) :
    quantizeLane14Bit q (1 / (vmax / lit 8191)) = some (quantValue vmax q) ∧
      simdLane (q * (1 / (vmax / lit 8191))) = quantValue vmax q := by
  have range := quantValue_range below
  rw [quantValue, if_neg large] at range ⊢
  have most : (lit 8191.0 : K) = lit 8191 := by norm_num [lit]
  rw [most] at range ⊢
  dsimp only at range ⊢
  rw [quantizeLane14Bit, roundLane, simdLane]
  generalize q * (1 / (vmax / lit 8191)) = tmp at range ⊢
  have bias : tmp + (if tmp < 0 then -lit 0.5 else lit 0.5) =
      tmp + lit 0.5 - if tmp < 0 then 1 else 0 := by
    have half : (lit 0.5 : K) + lit 0.5 = 1 := by norm_num [lit]
    split
    · linarith
    · ring
  rw [bias]
  change -8191 ≤ truncInt _ ∧ truncInt _ ≤ 8191 at range
  constructor
  · rw [toInt16, if_pos (by omega)]
    rfl
  · rw [cvtPacks, if_pos (by omega)]
    change max _ (min _ (truncInt _)) = truncInt _
    omega

variable {build : Build} {query : ℕ → K} {invWidth : K} {z : ℕ → ℤ} {groups : ℕ}

/-- The lanes of the first groups, rounded. -/
def LanesRounded (query : ℕ → K) (invWidth : K) (z : ℕ → ℤ) (groups : ℕ) : Prop :=
  ∀ i, i < 4 * groups → quantizeLane14Bit (query i) invWidth = some (z i) ∧
    simdLane (query i * invWidth) = z i

omit [IsStrictOrderedRing K] in
theorem LanesRounded.quantLane_some (lanes : LanesRounded query invWidth z groups) (n : ℕ) {i : ℕ}
    (inside : i < 4 * groups) : quantLane query build invWidth n i = some (z i) := by
  obtain ⟨alone, packed⟩ := lanes i inside
  by_cases scalar : build = .scalar
  · subst scalar
    exact alone
  · rw [quantLane_simd scalar]
    split
    · rw [packed]
    · exact alone

omit [IsStrictOrderedRing K] in
/-- The chunks store the groups in order. -/
theorem LanesRounded.chunks (lanes : LanesRounded query invWidth z groups) (st : Buffer × ℤ) :
    forRange (fusedChunk query build invWidth groups) ((groups + 3) / 4) st =
      forRange (buildLutAndStoreGroup build z) groups st := by
  have inOrder := @fusedChunks_eq build K _ _ _ query invWidth (4 * groups) (dvd_mul_right 4 groups) st
  rw [Nat.mul_div_cancel_left groups (by decide)] at inOrder
  rw [inOrder]
  exact forRange_congr
    (fun g below => laneGroup_some fun j small => lanes.quantLane_some _ (by omega)) st

end Lanes

/-! ## The table -/

/-- Every group has room, and the smallest shift there can be fits an `int32_t`. -/
def TableFits (build : Build) (dim room : ℕ) : Prop :=
  (∀ g, g < dim / 4 → groupEnd build g ≤ room) ∧ dim / 4 * 32764 ≤ 2 ^ 31

section Table

variable {K : Type} [Field K] [LinearOrder K] [IsStrictOrderedRing K] [FloorRing K]
  {build : Build} {query : ℕ → K} {vmax : K} {dim : UInt32} {out : Buffer}

/-- The query's values, as far as there are groups. -/
def tableQuery (query : ℕ → K) (vmax : K) (dim : ℕ) (below : ∀ i, i < dim → |query i| ≤ vmax) :
    QuantQuery where
  value d := if d < dim then quantValue vmax (query d) else 0
  range d := by
    split
    · exact quantValue_range (below d ‹_›)
    · decide

theorem lanesRounded (below : ∀ i, i < dim.toNat → |query i| ≤ vmax) (large : ¬ vmax < lit 1e-10) :
    LanesRounded query (1 / (vmax / lit 8191)) (tableQuery query vmax dim.toNat below).value
      (dim.toNat / 4) := by
  intro i inside
  have value : (tableQuery query vmax dim.toNat below).value i = quantValue vmax (query i) :=
    if_pos (by omega)
  rw [value]
  exact lane_rounded large (below i (by omega))

/-- A query within its maximum gets its table where the table fits. -/
theorem fusedLut_some (below : ∀ i, i < dim.toNat → |query i| ≤ vmax)
    (clear : dim.toNat * 8 ≤ out.size) (fits : TableFits build dim.toNat out.size) :
    ∃ result, quantizeQuery14BitWithMaxToFastScanLUT query build vmax dim out = some result := by
  rw [quantizeQuery14BitWithMaxToFastScanLUT]
  split
  next tiny =>
    rw [Buffer.store, if_pos (by omega)]
    exact ⟨_, rfl⟩
  next large =>
    have shift := lutShift_ge (tableQuery query vmax dim.toNat below) (dim.toNat / 4)
    have bound : ((dim.toNat / 4 : ℕ) : ℤ) * 32764 ≤ 2 ^ 31 := by exact_mod_cast fits.2
    obtain ⟨st, built⟩ := (groups_stored_iff (tableQuery query vmax dim.toNat below) (dim.toNat / 4)
      out).2 ⟨fits.1, by omega⟩
    dsimp only
    rw [(lanesRounded below large).chunks, built]
    exact ⟨_, rfl⟩

/-- A query that is at its maximum below zero everywhere gets its table only there. -/
theorem tableFits_of_lowest (low : ∀ i, i < dim.toNat → query i = -vmax)
    (large : ¬ vmax < lit 1e-10) {result : K × Buffer × ℤ}
    (built : quantizeQuery14BitWithMaxToFastScanLUT query build vmax dim out = some result) :
    TableFits build dim.toNat out.size := by
  have positive : 0 < vmax := (lit_pos (by norm_num)).trans_le (not_lt.1 large)
  have below : ∀ i, i < dim.toNat → |query i| ≤ vmax := fun i inside => by
    rw [low i inside, abs_neg, abs_of_pos positive]
  rw [quantizeQuery14BitWithMaxToFastScanLUT, if_neg large] at built
  dsimp only at built
  rw [(lanesRounded below large).chunks] at built
  obtain ⟨st, stored, -⟩ := Option.map_eq_some_iff.1 built
  obtain ⟨inside, shift⟩ := (groups_stored_iff _ _ _).1 ⟨st, stored⟩
  refine ⟨inside, ?_⟩
  have lowest : quantValue vmax (-vmax) = -8191 := by
    have most : (lit 8191.0 : K) = 8191 := by norm_num [lit]
    have half : (lit 0.5 : K) = 1 / 2 := by norm_num [lit]
    have scaled : -vmax * (1 / (vmax / 8191)) = -8191 := by
      field_simp
    rw [quantValue, if_neg large, most, half]
    dsimp only
    rw [scaled, if_pos (by norm_num), toInt, if_neg (by norm_num), Int.ceil_eq_iff]
    push_cast
    constructor <;> norm_num
  have groups : ∀ n, n ≤ dim.toNat / 4 →
      lutShift (tableQuery query vmax dim.toNat below).value n = -32764 * (n : ℤ) := by
    intro n
    induction n with
    | zero => exact fun _ => rfl
    | succ n ih =>
        intro le
        have lane : ∀ j, j < 4 →
            (tableQuery query vmax dim.toNat below).value (4 * n + j) = -8191 := by
          intro j small
          have here : (tableQuery query vmax dim.toNat below).value (4 * n + j) =
              quantValue vmax (query (4 * n + j)) := if_pos (by omega)
          rw [here, low _ (by omega), lowest]
        have first := lane 0 (by decide)
        rw [Nat.add_zero] at first
        rw [lutShift, Finset.sum_range_succ, ← lutShift, ih (Nat.le_of_succ_le le), groupMin, first,
          lane 1 (by decide), lane 2 (by decide), lane 3 (by decide)]
        push_cast
        unfold lutMin
        omega
  rw [groups _ le_rfl] at shift
  omega

/-- **Every query within its maximum gets its table exactly where the table fits.** -/
theorem fusedLut_some_iff (clear : dim.toNat * 8 ≤ out.size) :
    (∀ (query : ℕ → K) vmax, (∀ i, i < dim.toNat → |query i| ≤ vmax) →
      ∃ result, quantizeQuery14BitWithMaxToFastScanLUT query build vmax dim out = some result) ↔
      TableFits build dim.toNat out.size := by
  refine ⟨fun each => ?_, fun fits query vmax below => fusedLut_some below clear fits⟩
  obtain ⟨result, built⟩ := each (fun _ => -1) 1 fun i _ => by rw [abs_neg, abs_one]
  exact tableFits_of_lowest (fun _ _ => rfl) (by norm_num [lit]) built

end Table

end VecFetch.Simd.FusedLut
