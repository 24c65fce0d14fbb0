/-
# Simd.FusedLut -- the fused query quantiser and its two-step reference

`QuantizeQuery14BitWithMaxToFastScanLUT` quantises four groups at a time and stores their
tables at once; the reference quantises the whole query and then builds the table.  Over
exact numbers both leave the same, except for a query whose largest value counts as zero,
where the fused path clears `dim * 8` bytes and the reference the groups' places, and for a
dimension at which the reference's register counter wraps (`fusedLut_eq_iff`).
-/
import VecFetch.Common.FloatArith
import VecFetch.Simd.FastScanLut
import Mathlib.Algebra.Order.Floor.Ring
import Mathlib.Data.Rat.Floor

namespace VecFetch.Simd.FusedLut

open VecFetch.Theory

set_option autoImplicit false

/-! ## Quantising -/

section Lane

variable {K : Type} [Field K] [LinearOrder K] [FloorRing K]

/-- A conversion to an integer, toward zero. -/
def truncInt (x : K) : ℤ := if 0 ≤ x then ⌊x⌋ else ⌈x⌉

/-- `static_cast<int16_t>`; out of range it is undefined. -/
def toInt16 (x : K) : Option ℤ :=
  if -2 ^ 15 ≤ truncInt x ∧ truncInt x < 2 ^ 15 then some (truncInt x) else none

/-- `_mm_packs_epi32` of `_mm512_cvttps_epi32`: out of range the conversion gives the lowest
integer, and packing saturates. -/
def cvtPacks (x : K) : ℤ :=
  let q32 := if -2 ^ 31 ≤ truncInt x ∧ truncInt x < 2 ^ 31 then truncInt x else -2 ^ 31
  max (-2 ^ 15) (min (2 ^ 15 - 1) q32)

/-- `tmp + 0.5f - (tmp < 0.0f)`, as an `int16_t`. -/
def roundLane (tmp : K) : Option ℤ := toInt16 (tmp + lit 0.5 - if tmp < 0 then 1 else 0)

/-- A lane of a register: the bias has the sign of the value. -/
def simdLane (v : K) : ℤ := cvtPacks (v + if v < 0 then -lit 0.5 else lit 0.5)

/-- `QuantizeLane14Bit`. -/
def quantizeLane14Bit (value invWidth : K) : Option ℤ := roundLane (value * invWidth)

end Lane

/-- The lanes of a register in the quantisers. -/
def registerLanes : Build → ℕ
  | .avx512 => 16
  | .avx2 => 8
  | .scalar => 1

/-- The turns of `for (; i + lanes <= dim; i += lanes)`; where `i + lanes` wraps the loop does
not end. -/
def registerTurns (lanes : ℕ) (dim : UInt32) : Option ℕ :=
  if dim.toNat / lanes * lanes + lanes < 2 ^ 32 then some (dim.toNat / lanes) else none

section Quantize

variable {K : Type} [Field K] [LinearOrder K] [FloorRing K] (query : ℕ → K)

/-- A loop over single lanes from `first` on. -/
def quantizeTail (tmp : ℕ → K) (first count : ℕ) (quant : ℕ → ℤ) : Option (ℕ → ℤ) :=
  forRange (fun k quant => (roundLane (tmp (first + k))).map (Function.update quant (first + k)))
    count quant

/-- `QuantizeQuery14BitWithMax`, onto what `quant_out` holds. -/
def quantizeQuery14BitWithMax (build : Build) (vmax : K) (dim : UInt32) (quantOut : ℕ → ℤ) :
    Option (K × (ℕ → ℤ)) :=
  if vmax < lit 1e-10 then some (1, fun i => if i < dim.toNat then 0 else quantOut i)
  else
    let width := vmax / lit 8191
    let invWidth := 1 / width
    let lanes := registerLanes build
    (match build with
      | .scalar => quantizeTail (fun i => query i / width) 0 dim.toNat quantOut
      | _ =>
          (registerTurns lanes dim).bind fun turns =>
            quantizeTail (fun i => query i * invWidth) (lanes * turns) (dim.toNat - lanes * turns)
              fun i => if i < lanes * turns then simdLane (query i * invWidth) else quantOut i).map
      fun quant => (width, quant)

/-- `BuildFastScanLUTReference`, onto what `lut_out` holds; with it the shift. -/
def buildFastScanLUTReference (build : Build) (quant : ℕ → ℤ) (dim : UInt32) (lutOut : Buffer) :
    Option (Buffer × ℤ) :=
  forRange (buildLutAndStoreGroup build quant) (dim.toNat / 4) (lutOut, 0)

/-- The two steps: the width, the table and the shift. -/
def twoStepLut (build : Build) (vmax : K) (dim : UInt32) (lutOut : Buffer) :
    Option (K × Buffer × ℤ) :=
  (quantizeQuery14BitWithMax query build vmax dim fun _ => 0).bind fun quantised =>
    (buildFastScanLUTReference build quantised.2 dim lutOut).map fun table => (quantised.1, table)

/-! ## The fused path -/

/-- `BuildFusedLutGroup`. -/
def buildFusedLutGroup (build : Build) (groupIdx : ℕ) (q0 q1 q2 q3 : ℤ) (st : Buffer × ℤ) :
    Option (Buffer × ℤ) :=
  buildLutAndStoreGroup build (fun i => [q0, q1, q2, q3].getD (i - 4 * groupIdx) 0) groupIdx st

/-- A group whose lanes are quantised one by one. -/
def scalarGroup (build : Build) (invWidth : K) (group : ℕ) (st : Buffer × ℤ) :
    Option (Buffer × ℤ) :=
  (quantizeLane14Bit (query (4 * group)) invWidth).bind fun q0 =>
  (quantizeLane14Bit (query (4 * group + 1)) invWidth).bind fun q1 =>
  (quantizeLane14Bit (query (4 * group + 2)) invWidth).bind fun q2 =>
  (quantizeLane14Bit (query (4 * group + 3)) invWidth).bind fun q3 =>
    buildFusedLutGroup build group q0 q1 q2 q3 st

/-- The groups of one register, whose lanes start at group `first`. -/
def registerGroups (build : Build) (invWidth : K) (first count : ℕ) (st : Buffer × ℤ) :
    Option (Buffer × ℤ) :=
  let lane := fun i => simdLane (query (first * 4 + i) * invWidth)
  forRange (fun off => buildFusedLutGroup build (first + off) (lane (4 * off)) (lane (4 * off + 1))
    (lane (4 * off + 2)) (lane (4 * off + 3))) count st

/-- One turn of the chunk loop: up to four groups. -/
def fusedChunk (build : Build) (invWidth : K) (groups c : ℕ) (st : Buffer × ℤ) :
    Option (Buffer × ℤ) :=
  let group := 4 * c
  let groupsThisRound := min 4 (groups - group)
  match build with
  | .avx512 =>
      if groupsThisRound = 4 then registerGroups query build invWidth group 4 st
      else forRange (fun g => scalarGroup query build invWidth (group + g)) groupsThisRound st
  | .avx2 =>
      let pairs := groupsThisRound / 2
      (forRange (fun p => registerGroups query build invWidth (group + 2 * p) 2) pairs st).bind
        (forRange (fun g => scalarGroup query build invWidth (group + 2 * pairs + g))
          (groupsThisRound - 2 * pairs))
  | .scalar => forRange (fun g => scalarGroup query build invWidth (group + g)) groupsThisRound st

/-- `QuantizeQuery14BitWithMaxToFastScanLUT`: the width, the table and the shift. -/
def quantizeQuery14BitWithMaxToFastScanLUT (build : Build) (vmax : K) (dim : UInt32)
    (lutOut : Buffer) : Option (K × Buffer × ℤ) :=
  if vmax < lit 1e-10 then
    (lutOut.store 0 (dim.toNat * 8) fun _ => 0).map fun lut => (1, lut, 0)
  else
    let width := vmax / lit 8191
    let invWidth := 1 / width
    let groups := dim.toNat / 4
    (forRange (fusedChunk query build invWidth groups) ((groups + 3) / 4) (lutOut, 0)).map
      fun table => (width, table)

end Quantize

/-! ## Lane by lane -/

/-- A lane's value: in a register or, past the last whole one, by itself. -/
def quantLane {K : Type} [Field K] [LinearOrder K] [FloorRing K] (query : ℕ → K) (build : Build) (invWidth : K) (dim i : ℕ) : Option ℤ :=
  match build with
  | .scalar => roundLane (query i * invWidth)
  | _ =>
      if i < registerLanes build * (dim / registerLanes build) then
        some (simdLane (query i * invWidth))
      else roundLane (query i * invWidth)

/-- A group, its lanes quantised one by one. -/
def laneGroup (build : Build) (lane : ℕ → Option ℤ) (g : ℕ) (st : Buffer × ℤ) :
    Option (Buffer × ℤ) :=
  (lane (4 * g)).bind fun q0 => (lane (4 * g + 1)).bind fun q1 =>
    (lane (4 * g + 2)).bind fun q2 => (lane (4 * g + 3)).bind fun q3 =>
      buildFusedLutGroup build g q0 q1 q2 q3 st

section Lanes

variable {build : Build} {q q' : ℕ → ℤ}

theorem buildLutAndStoreGroup_congr {g : ℕ} (same : ∀ j, j < 4 → q (4 * g + j) = q' (4 * g + j)) :
    buildLutAndStoreGroup build q g = buildLutAndStoreGroup build q' g := by
  funext st
  have first := same 0 (by decide)
  rw [Nat.add_zero] at first
  unfold buildLutAndStoreGroup
  rw [first, same 1 (by decide), same 2 (by decide), same 3 (by decide)]

theorem buildFusedLutGroup_eq (g : ℕ) :
    buildFusedLutGroup build g (q (4 * g)) (q (4 * g + 1)) (q (4 * g + 2)) (q (4 * g + 3)) =
      buildLutAndStoreGroup build q g := by
  funext st
  rw [buildFusedLutGroup]
  refine congrFun (buildLutAndStoreGroup_congr fun j lane => ?_) st
  rw [Nat.add_sub_cancel_left]
  obtain rfl | rfl | rfl | rfl : j = 0 ∨ j = 1 ∨ j = 2 ∨ j = 3 := by omega
  all_goals rfl

theorem laneGroup_some {lane : ℕ → Option ℤ} {g : ℕ}
    (all : ∀ j, j < 4 → lane (4 * g + j) = some (q (4 * g + j))) :
    laneGroup build lane g = buildLutAndStoreGroup build q g := by
  funext st
  have first := all 0 (by decide)
  rw [Nat.add_zero] at first
  rw [laneGroup, first, all 1 (by decide), all 2 (by decide), all 3 (by decide)]
  exact congrFun (buildFusedLutGroup_eq g) st

theorem laneGroup_none {lane : ℕ → Option ℤ} {i : ℕ} (bad : lane i = none) (st : Buffer × ℤ) :
    laneGroup build lane (i / 4) st = none := by
  unfold laneGroup
  simp only [Option.bind_eq_none_iff]
  intro q0 first q1 second q2 third q3 fourth
  obtain at' | at' | at' | at' : i = 4 * (i / 4) ∨ i = 4 * (i / 4) + 1 ∨ i = 4 * (i / 4) + 2 ∨
    i = 4 * (i / 4) + 3 := by omega
  · rw [← at', bad] at first
    cases first
  · rw [← at', bad] at second
    cases second
  · rw [← at', bad] at third
    cases third
  · rw [← at', bad] at fourth
    cases fourth

variable {K : Type} [Field K] [LinearOrder K] [FloorRing K] {query : ℕ → K} {invWidth : K}
  (dim : ℕ)

/-- A register's groups are groups of its lanes. -/
theorem registerGroups_eq (simd : build ≠ .scalar) {first count : ℕ}
    (inside : 4 * (first + count) ≤ registerLanes build * (dim / registerLanes build)) :
    registerGroups query build invWidth first count =
      forRange (fun off => laneGroup build (quantLane query build invWidth dim) (first + off))
        count := by
  funext st
  refine forRange_congr (fun off below => ?_) st
  have lane : ∀ j, j < 4 → quantLane query build invWidth dim (4 * (first + off) + j) =
      some (simdLane (query (first * 4 + (4 * off + j)) * invWidth)) := by
    intro j small
    rw [show first * 4 + (4 * off + j) = 4 * (first + off) + j by omega]
    cases build with
    | scalar => exact absurd rfl simd
    | avx512 => exact if_pos (by omega)
    | avx2 => exact if_pos (by omega)
  rw [laneGroup_some (q := fun i => simdLane (query i * invWidth)) fun j small => by
    rw [lane j small, show first * 4 + (4 * off + j) = 4 * (first + off) + j by omega]]
  rw [← buildFusedLutGroup_eq (q := fun i => simdLane (query i * invWidth))]
  simp only [show ∀ k, first * 4 + (4 * off + k) = 4 * (first + off) + k by intro k; omega,
    show first * 4 + 4 * off = 4 * (first + off) by omega]

theorem scalarGroup_eq {g : ℕ}
    (outside : build = .scalar ∨ registerLanes build * (dim / registerLanes build) ≤ 4 * g) :
    scalarGroup query build invWidth g =
      laneGroup build (quantLane query build invWidth dim) g := by
  have lane : ∀ j, quantLane query build invWidth dim (4 * g + j) =
      quantizeLane14Bit (query (4 * g + j)) invWidth := by
    intro j
    cases build with
    | scalar => rfl
    | avx512 =>
        rcases outside with impossible | past
        · cases impossible
        · exact if_neg (by omega)
    | avx2 =>
        rcases outside with impossible | past
        · cases impossible
        · exact if_neg (by omega)
  have first := lane 0
  rw [Nat.add_zero] at first
  funext st
  rw [scalarGroup, laneGroup, first, lane, lane, lane]

/-- **A chunk of the fused path** is its groups in order. -/
theorem fusedChunk_eq (whole : 4 ∣ dim) {c : ℕ} (inside : 4 * c < dim / 4) :
    fusedChunk query build invWidth (dim / 4) c =
      forRange (fun g => laneGroup build (quantLane query build invWidth dim) (4 * c + g))
        (min 4 (dim / 4 - 4 * c)) := by
  funext st
  unfold fusedChunk
  dsimp only
  cases build with
  | scalar =>
      refine forRange_congr (fun g _ => ?_) st
      exact scalarGroup_eq dim (.inl rfl)
  | avx512 =>
      dsimp only
      split
      next full =>
        rw [registerGroups_eq dim (by decide) (by simp only [registerLanes]; omega), full]
      next short =>
        refine forRange_congr (fun g below => ?_) st
        exact scalarGroup_eq dim (.inr (by simp only [registerLanes]; omega))
  | avx2 =>
      dsimp only
      refine forRange_pairs (fun p below => ?_) (fun g below => ?_) st
      · rw [registerGroups_eq dim (by decide) (by simp only [registerLanes]; omega)]
        simp only [Nat.add_assoc]
      · rw [scalarGroup_eq dim (.inr (by simp only [registerLanes]; omega)), Nat.add_assoc]

/-- The fused path is the groups in order. -/
theorem fusedChunks_eq (whole : 4 ∣ dim) (st : Buffer × ℤ) :
    forRange (fusedChunk query build invWidth (dim / 4)) ((dim / 4 + 3) / 4) st =
      forRange (laneGroup build (quantLane query build invWidth dim)) (dim / 4) st := by
  have chunks := forRange_chunks (laneGroup build (quantLane query build invWidth dim)) 4 (dim / 4)
    ((dim / 4 + 3) / 4) st
  rw [show min (4 * ((dim / 4 + 3) / 4)) (dim / 4) = dim / 4 by omega] at chunks
  rw [← chunks]
  exact forRange_congr (fun c below => fusedChunk_eq dim whole (by omega)) st

end Lanes

/-! ## Quantising the whole query -/

section Whole

variable {K : Type} [Field K] [LinearOrder K] [FloorRing K] (tmp : ℕ → K) {first count : ℕ}

theorem quantizeTail_spec {v : ℕ → ℤ}
    (all : ∀ i, first ≤ i → i < first + count → roundLane (tmp i) = some (v i)) (quant : ℕ → ℤ) :
    quantizeTail tmp first count quant =
      some fun i => if first ≤ i ∧ i < first + count then v i else quant i := by
  have loop : ∃ out, quantizeTail tmp first count quant = some out ∧
      out = fun i => if first ≤ i ∧ i < first + count then v i else quant i := by
    refine forRange_spec
      (fun n out => out = fun i => if first ≤ i ∧ i < first + n then v i else quant i) ?_ ?_
    · funext i
      rw [if_neg (by omega)]
    rintro k out below rfl
    refine ⟨_, by rw [all (first + k) (by omega) (by omega), Option.map_some], ?_⟩
    funext i
    by_cases here : i = first + k
    · rw [here, Function.update_self, if_pos (by omega)]
    · rw [Function.update_of_ne here]
      by_cases before : first ≤ i ∧ i < first + k
      · rw [if_pos before, if_pos (by omega)]
      · rw [if_neg before, if_neg (by omega)]
  obtain ⟨out, ran, held⟩ := loop
  rw [ran, held]

theorem quantizeTail_none {i : ℕ} (above : first ≤ i) (below : i < first + count)
    (bad : roundLane (tmp i) = none) (quant : ℕ → ℤ) : quantizeTail tmp first count quant = none := by
  refine forRange_none_at (i := i - first) (fun out => ?_) (by omega) quant
  rw [Nat.add_sub_cancel' above, bad, Option.map_none]

variable {query : ℕ → K} {build : Build} {vmax : K} {dim : UInt32}

theorem registerTurns_some {lanes : ℕ} (ends : dim.toNat / lanes * lanes + lanes < 2 ^ 32) :
    registerTurns lanes dim = some (dim.toNat / lanes) ∧ lanes * (dim.toNat / lanes) ≤ dim.toNat :=
  ⟨if_pos ends, Nat.mul_div_le _ _⟩

theorem quantLane_simd (simd : build ≠ .scalar) (invWidth : K) (n i : ℕ) :
    quantLane query build invWidth n i =
      if i < registerLanes build * (n / registerLanes build) then
        some (simdLane (query i * invWidth))
      else roundLane (query i * invWidth) := by
  cases build with
  | scalar => exact absurd rfl simd
  | avx512 => rfl
  | avx2 => rfl

/-- The reference's register loop ends. -/
def RegistersEnd (build : Build) (dim : UInt32) : Prop :=
  build = .scalar ∨
    dim.toNat / registerLanes build * registerLanes build + registerLanes build < 2 ^ 32

/-- The quantised query, where every lane has a value. -/
theorem quantizeQuery_some (counted : ¬ vmax < lit 1e-10) (ends : RegistersEnd build dim) {v : ℕ → ℤ}
    (all : ∀ i, i < dim.toNat →
      quantLane query build (1 / (vmax / lit 8191)) dim.toNat i = some (v i)) (quantOut : ℕ → ℤ) :
    ∃ quant, quantizeQuery14BitWithMax query build vmax dim quantOut =
      some (vmax / lit 8191, quant) ∧ ∀ i, i < dim.toNat → quant i = v i := by
  rw [quantizeQuery14BitWithMax, if_neg counted]
  dsimp only
  have simd : build ≠ .scalar → ∃ quant,
      ((registerTurns (registerLanes build) dim).bind fun turns =>
        quantizeTail (fun i => query i * (1 / (vmax / lit 8191))) (registerLanes build * turns)
          (dim.toNat - registerLanes build * turns)
          fun i => if i < registerLanes build * turns then simdLane (query i * (1 / (vmax / lit 8191)))
            else quantOut i) = some quant ∧ ∀ i, i < dim.toNat → quant i = v i := by
    intro simd
    have ends' := ends.resolve_left simd
    obtain ⟨turns, le⟩ := registerTurns_some ends'
    rw [turns, Option.bind_some, quantizeTail_spec _ (v := v) fun i above below => by
      have value := all i (by omega)
      rwa [quantLane_simd simd, if_neg (by omega)] at value]
    refine ⟨_, rfl, fun i inside => ?_⟩
    by_cases inRegister : i < registerLanes build * (dim.toNat / registerLanes build)
    · have value := all i inside
      rw [quantLane_simd simd, if_pos inRegister] at value
      rw [if_neg (by omega), if_pos inRegister, Option.some.inj value]
    · rw [if_pos (by omega)]
  cases build with
  | scalar =>
      dsimp only
      rw [quantizeTail_spec _ (v := v) fun i _ below => by
        rw [← all i (by omega), quantLane, mul_one_div]]
      exact ⟨_, rfl, fun i inside => if_pos (by omega)⟩
  | avx512 =>
      obtain ⟨quant, ran, values⟩ := simd (by decide)
      exact ⟨quant, by rw [ran]; rfl, values⟩
  | avx2 =>
      obtain ⟨quant, ran, values⟩ := simd (by decide)
      exact ⟨quant, by rw [ran]; rfl, values⟩

/-- A lane out of range stops the reference. -/
theorem quantizeQuery_none (counted : ¬ vmax < lit 1e-10) {i : ℕ} (inside : i < dim.toNat)
    (bad : quantLane query build (1 / (vmax / lit 8191)) dim.toNat i = none) (quantOut : ℕ → ℤ) :
    quantizeQuery14BitWithMax query build vmax dim quantOut = none := by
  rw [quantizeQuery14BitWithMax, if_neg counted]
  dsimp only
  have simd : build ≠ .scalar → ((registerTurns (registerLanes build) dim).bind fun turns =>
      quantizeTail (fun i => query i * (1 / (vmax / lit 8191))) (registerLanes build * turns)
        (dim.toNat - registerLanes build * turns)
        fun i => if i < registerLanes build * turns then simdLane (query i * (1 / (vmax / lit 8191)))
          else quantOut i) = none := by
    intro simd
    have le := Nat.mul_div_le dim.toNat (registerLanes build)
    rw [quantLane_simd simd] at bad
    rw [registerTurns]
    split
    · rw [Option.bind_some]
      split at bad
      · cases bad
      · exact quantizeTail_none (fun i => query i * (1 / (vmax / lit 8191))) (by omega) (by omega) bad _
    · rfl
  cases build with
  | scalar =>
      have bad' : roundLane (query i / (vmax / lit 8191)) = none := by
        rw [div_eq_mul_one_div]
        exact bad
      dsimp only
      rw [quantizeTail_none (fun i => query i / (vmax / lit 8191)) (Nat.zero_le i) (by omega) bad',
        Option.map_none]
  | avx512 =>
      dsimp only
      rw [simd (by decide), Option.map_none]
  | avx2 =>
      dsimp only
      rw [simd (by decide), Option.map_none]

/-- **For a query that is not tiny both paths are the same**, where the reference's loop
ends. -/
theorem fused_eq_twoStep (whole : 4 ∣ dim.toNat) (counted : ¬ vmax < lit 1e-10)
    (ends : RegistersEnd build dim) (lutOut : Buffer) :
    quantizeQuery14BitWithMaxToFastScanLUT query build vmax dim lutOut =
      twoStepLut query build vmax dim lutOut := by
  rw [quantizeQuery14BitWithMaxToFastScanLUT, if_neg counted]
  dsimp only
  rw [fusedChunks_eq dim.toNat whole, twoStepLut]
  by_cases bad : ∃ i, i < dim.toNat ∧
      quantLane query build (1 / (vmax / lit 8191)) dim.toNat i = none
  · obtain ⟨i, inside, bad⟩ := bad
    rw [quantizeQuery_none counted inside bad, Option.bind_none,
      forRange_none_at (fun st => laneGroup_none bad st) (show i / 4 < dim.toNat / 4 by omega),
      Option.map_none]
  · have all : ∀ i, i < dim.toNat → quantLane query build (1 / (vmax / lit 8191)) dim.toNat i =
        some ((quantLane query build (1 / (vmax / lit 8191)) dim.toNat i).getD 0) := by
      intro i inside
      cases value : quantLane query build (1 / (vmax / lit 8191)) dim.toNat i with
      | none => exact absurd ⟨i, inside, value⟩ bad
      | some v => rfl
    obtain ⟨quant, quantised, values⟩ := quantizeQuery_some counted ends all fun _ => 0
    rw [quantised, Option.bind_some, buildFastScanLUTReference]
    congr 1
    refine forRange_congr (fun g below => ?_) _
    refine laneGroup_some fun j lane => ?_
    dsimp only
    rw [all _ (by omega), values _ (by omega)]

end Whole

/-! ## Tables of zeros -/

/-- The group a byte of the table belongs to. -/
def groupOf (build : Build) (i : ℕ) : ℕ :=
  i / kFastScanCodePerIter build * kFastScanLutPerIter build + i % kFastScanHiOffset build / 16

/-- Where a group's places end. -/
def groupEnd (build : Build) (g : ℕ) : ℕ := lutGroupWriteBase build g + kFastScanHiOffset build + 16

section Zero

variable {build : Build}

theorem groupOf_eq_iff (g i : ℕ) : groupOf build i = g ↔
    (lutGroupWriteBase build g ≤ i ∧ i < lutGroupWriteBase build g + 16) ∨
      (lutGroupWriteBase build g + kFastScanHiOffset build ≤ i ∧ i < groupEnd build g) := by
  cases build <;> simp only [groupOf, groupEnd, lutGroupWriteBase, kFastScanLutPerIter,
    kFastScanCodePerIter, kFastScanCodePerLane, kFastScanHiOffset] <;> omega

/-- The places end with the table or past it. -/
theorem groupEnd_last {dim : ℕ} (whole : 4 ∣ dim) (positive : 0 < dim) :
    dim * 8 ≤ groupEnd build (dim / 4 - 1) ∧
      (groupEnd build (dim / 4 - 1) ≤ dim * 8 → 4 * kFastScanLutPerIter build ∣ dim) := by
  cases build <;> simp only [groupEnd, lutGroupWriteBase, kFastScanLutPerIter,
    kFastScanCodePerIter, kFastScanCodePerLane, kFastScanHiOffset] <;> omega

/-- The places of whole iterations are the table. -/
theorem groupOf_lt_iff {dim : ℕ} (iterations : 4 * kFastScanLutPerIter build ∣ dim) (i : ℕ) :
    groupOf build i < dim / 4 ↔ i < dim * 8 := by
  cases build <;> simp only [groupOf, kFastScanLutPerIter, kFastScanCodePerIter,
    kFastScanHiOffset] at iterations ⊢ <;> omega

theorem groupEnd_le (g : ℕ) : groupEnd build g ≤ 32 * g + 80 := by
  cases build <;> simp only [groupEnd, lutGroupWriteBase, kFastScanLutPerIter,
    kFastScanCodePerIter, kFastScanCodePerLane, kFastScanHiOffset] <;> omega

/-- The quantised query of a tiny one. -/
def zeroQuery : QuantQuery := ⟨fun _ => 0, fun _ => by decide⟩

/-- A group of zeros clears its places. -/
theorem zeroGroup_spec {g : ℕ} {out : Buffer} (inside : groupEnd build g ≤ out.size) :
    ∃ out', buildLutAndStoreGroup build (fun _ => 0) g (out, 0) = some (out', 0) ∧
      out'.size = out.size ∧
      ∀ i, out'.byte i = if groupOf build i = g then 0 else out.byte i := by
  have table := fun n nibble => storedTable_bytes zeroQuery build g (n := n) nibble
  have entries : ∀ n, lutEntry zeroQuery.value g n = 0 := fun n => by
    simp [lutEntry, groupSum, groupMin, lutMin, zeroQuery]
  have least : groupMin zeroQuery.value g = 0 := by simp [groupMin, lutMin, zeroQuery]
  unfold buildLutAndStoreGroup
  dsimp only at table ⊢
  change ∀ n, n < 16 → _ at table
  simp only [zeroQuery] at table
  generalize (if build = .scalar then buildLut16 else buildLut16Simd) 0 0 0 0 = group at table ⊢
  have shift : group.2 = 0 := (table 0 (by decide)).1.trans least
  have low : ∀ j, j < 16 → UInt8.ofNat ((group.1 j).toNat % 256) = 0 := fun j lane => by
    rw [(table j lane).2, show lutEntry (fun _ => 0) g j = 0 from entries j]
    rfl
  have high : ∀ j, j < 16 → UInt8.ofNat ((group.1 j).toNat / 256) = 0 := fun j lane => by
    rw [(table j lane).2, show lutEntry (fun _ => 0) g j = 0 from entries j]
    rfl
  unfold groupEnd at inside
  obtain ⟨mid, stored₁, size₁, here₁, frame₁⟩ := Buffer.store_spec
    (show lutGroupWriteBase build g + 16 ≤ out.size by omega)
    fun j => UInt8.ofNat ((group.1 j).toNat % 256)
  obtain ⟨out', stored₂, size₂, here₂, frame₂⟩ := Buffer.store_spec
    (show lutGroupWriteBase build g + kFastScanHiOffset build + 16 ≤ mid.size by omega)
    fun j => UInt8.ofNat ((group.1 j).toNat / 256)
  refine ⟨out', ?_, by omega, fun i => ?_⟩
  · rw [shift, addInt32, if_pos (by decide), Option.bind_some, storeLutBytePlanes, stored₁,
      Option.bind_some, stored₂]
    rfl
  · have apart : lutGroupWriteBase build g + 16 ≤
        lutGroupWriteBase build g + kFastScanHiOffset build := by
      cases build <;> simp only [kFastScanHiOffset] <;> omega
    by_cases second : lutGroupWriteBase build g + kFastScanHiOffset build ≤ i ∧
        i < lutGroupWriteBase build g + kFastScanHiOffset build + 16
    · rw [if_pos ((groupOf_eq_iff g i).2 (.inr second))]
      have byte := here₂ (i - (lutGroupWriteBase build g + kFastScanHiOffset build)) (by omega)
      rw [Nat.add_sub_cancel' second.1] at byte
      rw [byte, high _ (by omega)]
    · rw [frame₂ i (by omega)]
      by_cases first : lutGroupWriteBase build g ≤ i ∧ i < lutGroupWriteBase build g + 16
      · rw [if_pos ((groupOf_eq_iff g i).2 (.inl first))]
        have byte := here₁ (i - lutGroupWriteBase build g) (by omega)
        rw [Nat.add_sub_cancel' first.1] at byte
        rw [byte, low _ (by omega)]
      · rw [if_neg fun mine => ((groupOf_eq_iff g i).1 mine).elim first second,
          frame₁ i (by omega)]

theorem zeroGroups_spec {groups : ℕ} {out : Buffer}
    (inside : ∀ g, g < groups → groupEnd build g ≤ out.size) :
    ∃ out', forRange (buildLutAndStoreGroup build fun _ => 0) groups (out, 0) = some (out', 0) ∧
      out'.size = out.size ∧
      ∀ i, out'.byte i = if groupOf build i < groups then 0 else out.byte i := by
  have loop : ∃ st, forRange (buildLutAndStoreGroup build fun _ => 0) groups (out, 0) = some st ∧
      st.2 = 0 ∧ st.1.size = out.size ∧
        ∀ i, st.1.byte i = if groupOf build i < groups then 0 else out.byte i := by
    refine forRange_spec (fun n (st : Buffer × ℤ) => st.2 = 0 ∧ st.1.size = out.size ∧
      ∀ i, st.1.byte i = if groupOf build i < n then 0 else out.byte i)
      ⟨rfl, rfl, fun i => (if_neg (Nat.not_lt_zero _)).symm⟩ ?_
    rintro g ⟨mid, total⟩ below ⟨rfl, size, bytes⟩
    obtain ⟨out', stored, size', bytes'⟩ := zeroGroup_spec
      (show groupEnd build g ≤ mid.size by rw [size]; exact inside g below)
    refine ⟨(out', 0), stored, rfl, size'.trans size, fun i => ?_⟩
    dsimp only at bytes ⊢
    rw [bytes', bytes]
    split
    next here => rw [if_pos (by omega)]
    next elsewhere =>
      split
      next before => rw [if_pos (by omega)]
      next after => rw [if_neg (by omega)]
  obtain ⟨⟨out', total⟩, ran, rfl, size, bytes⟩ := loop
  exact ⟨out', ran, size, bytes⟩

/-- A table that was built holds every group. -/
theorem groups_inside {quant : ℕ → ℤ} {groups : ℕ} {out : Buffer} {st : Buffer × ℤ}
    (built : forRange (buildLutAndStoreGroup build quant) groups (out, 0) = some st) :
    ∀ g, g < groups → groupEnd build g ≤ out.size := by
  refine (forRange_kept (fun n (st : Buffer × ℤ) => st.1.size = out.size ∧
    ∀ g, g < n → groupEnd build g ≤ out.size) ⟨rfl, fun g none => absurd none (Nat.not_lt_zero g)⟩
    ?_ built).2
  rintro g ⟨mid, total⟩ st' - ⟨size, before⟩ stored
  unfold buildLutAndStoreGroup at stored
  dsimp only at stored size
  obtain ⟨sum, _, mapped⟩ := Option.bind_eq_some_iff.1 stored
  obtain ⟨last, planes, rfl⟩ := Option.map_eq_some_iff.1 mapped
  rw [storeLutBytePlanes] at planes
  obtain ⟨first, stored₁, stored₂⟩ := Option.bind_eq_some_iff.1 planes
  have size₁ := Buffer.store_size stored₁
  have size₂ := Buffer.store_size stored₂
  have fits : groupEnd build g ≤ first.size := by
    by_contra outside
    rw [Buffer.store_outside (by unfold groupEnd at outside; omega)] at stored₂
    cases stored₂
  refine ⟨by dsimp only; omega, fun g' below => ?_⟩
  rcases Nat.lt_succ_iff_lt_or_eq.1 below with earlier | rfl
  · exact before g' earlier
  · omega

end Zero

/-! ## Where both paths agree -/

section Agree

variable {K : Type} [Field K] [LinearOrder K] [FloorRing K] {build : Build} {query : ℕ → K} {vmax : K} {dim : UInt32}

theorem twoStepLut_tiny (tiny : vmax < lit 1e-10) (lutOut : Buffer) :
    twoStepLut query build vmax dim lutOut =
      (forRange (buildLutAndStoreGroup build fun _ => 0) (dim.toNat / 4) (lutOut, 0)).map
        fun table => (1, table) := by
  have zeros : (fun i => if i < dim.toNat then (0 : ℤ) else 0) = fun _ => 0 := by
    funext i
    split <;> rfl
  rw [twoStepLut, quantizeQuery14BitWithMax, if_pos tiny, Option.bind_some, zeros]
  rfl

theorem buffer_ext {b b' : Buffer} (size : b.size = b'.size) (bytes : ∀ i, b.byte i = b'.byte i) :
    b = b' := by
  obtain ⟨n, f⟩ := b
  obtain ⟨n', f'⟩ := b'
  dsimp only at size bytes
  rw [size, funext bytes]

/-- A tiny query clears the same bytes on both paths, for whole iterations. -/
theorem tiny_eq_twoStep (whole : 4 ∣ dim.toNat) (tiny : vmax < lit 1e-10)
    (iterations : 4 * kFastScanLutPerIter build ∣ dim.toNat) (lutOut : Buffer) :
    quantizeQuery14BitWithMaxToFastScanLUT query build vmax dim lutOut =
      twoStepLut query build vmax dim lutOut := by
  rw [quantizeQuery14BitWithMaxToFastScanLUT, if_pos tiny, twoStepLut_tiny tiny]
  by_cases room : dim.toNat * 8 ≤ lutOut.size
  · obtain ⟨out, ran, size, bytes⟩ := zeroGroups_spec (show ∀ g, g < dim.toNat / 4 →
        groupEnd build g ≤ lutOut.size from fun g below => by
      have inside := lutGroup_inside iterations below
      unfold groupEnd
      omega)
    rw [ran, Buffer.store, if_pos (by omega), Option.map_some, Option.map_some]
    have same : (⟨lutOut.size, fun i => if 0 ≤ i ∧ i < 0 + dim.toNat * 8 then 0
        else lutOut.byte i⟩ : Buffer) = out := by
      refine buffer_ext size.symm fun i => ?_
      rw [bytes]
      dsimp only
      by_cases table : i < dim.toNat * 8
      · rw [if_pos (by omega), if_pos ((groupOf_lt_iff iterations i).2 table)]
      · rw [if_neg (by omega), if_neg (mt (groupOf_lt_iff iterations i).1 table)]
    rw [same]
  · have none' : forRange (buildLutAndStoreGroup build fun _ => 0) (dim.toNat / 4) (lutOut, 0) =
        none := by
      cases ran : forRange (buildLutAndStoreGroup build fun _ => 0) (dim.toNat / 4)
        (lutOut, 0) with
      | none => rfl
      | some st =>
          have last := groups_inside ran (dim.toNat / 4 - 1) (by omega)
          have ends := (@groupEnd_last build dim.toNat whole (by omega)).1
          omega
    rw [none', Buffer.store_outside (by omega)]
    rfl

/-- Otherwise the reference leaves the table, and the fused path does not. -/
theorem tiny_ne_twoStep (whole : 4 ∣ dim.toNat) (tiny : vmax < lit 1e-10)
    (short : ¬ 4 * kFastScanLutPerIter build ∣ dim.toNat) :
    quantizeQuery14BitWithMaxToFastScanLUT query build vmax dim (.zeros (dim.toNat * 8)) ≠
      twoStepLut query build vmax dim (.zeros (dim.toNat * 8)) := by
  intro same
  have positive : 0 < dim.toNat := Nat.pos_of_ne_zero fun zero => short (by rw [zero]; exact dvd_zero _)
  rw [quantizeQuery14BitWithMaxToFastScanLUT, if_pos tiny, twoStepLut_tiny tiny, Buffer.store,
    if_pos (show 0 + dim.toNat * 8 ≤ (Buffer.zeros (dim.toNat * 8)).size by
      rw [Nat.zero_add]; exact le_rfl), Option.map_some] at same
  obtain ⟨st, ran, _⟩ := Option.map_eq_some_iff.1 same.symm
  have last := groups_inside ran (dim.toNat / 4 - 1) (by omega)
  exact short ((groupEnd_last whole positive).2 last)

/-- A query of zeros that is not tiny gives a table of zeros, on the fused path. -/
theorem fused_zeros [IsStrictOrderedRing K] (whole : 4 ∣ dim.toNat)
    (counted : ¬ vmax < lit 1e-10) : ∃ result,
    quantizeQuery14BitWithMaxToFastScanLUT (fun _ => 0) build vmax dim
      (.zeros (8 * dim.toNat + 80)) = some result := by
  have half : (lit 0.5 : K) = 1 / 2 := by norm_num [lit]
  have rounded : roundLane (0 : K) = some 0 := by
    rw [roundLane, half]
    norm_num [toInt16, truncInt]
  have packed : simdLane (0 : K) = 0 := by
    rw [simdLane, half]
    norm_num [cvtPacks, truncInt]
  have lane : ∀ i, quantLane (fun _ => 0) build (1 / (vmax / lit 8191)) dim.toNat i = some 0 := by
    intro i
    by_cases scalar : build = .scalar
    · subst scalar
      rw [quantLane, zero_mul, rounded]
    · rw [quantLane_simd scalar, zero_mul, rounded, packed, ite_self]
  obtain ⟨out, ran, _⟩ := zeroGroups_spec (show ∀ g, g < dim.toNat / 4 →
      groupEnd build g ≤ (Buffer.zeros (8 * dim.toNat + 80)).size from fun g below => by
    have ends := @groupEnd_le build g
    rw [Buffer.zeros]
    dsimp only
    omega)
  refine ⟨(vmax / lit 8191, out, 0), ?_⟩
  rw [quantizeQuery14BitWithMaxToFastScanLUT, if_neg counted]
  dsimp only
  have groups : ∀ g, g < dim.toNat / 4 →
      laneGroup build (quantLane (fun _ => 0) build (1 / (vmax / lit 8191)) dim.toNat) g =
        buildLutAndStoreGroup build (fun _ => 0) g := fun g _ => laneGroup_some fun j _ => lane _
  rw [fusedChunks_eq dim.toNat whole, forRange_congr groups, ran, Option.map_some]

theorem twoStepLut_endless (counted : ¬ vmax < lit 1e-10) (endless : ¬ RegistersEnd build dim)
    (lutOut : Buffer) : twoStepLut query build vmax dim lutOut = none := by
  rw [RegistersEnd, not_or] at endless
  have turns : registerTurns (registerLanes build) dim = none := if_neg endless.2
  have quantised : quantizeQuery14BitWithMax query build vmax dim (fun _ => 0) = none := by
    rw [quantizeQuery14BitWithMax, if_neg counted]
    dsimp only
    cases build with
    | scalar => exact absurd rfl endless.1
    | avx512 =>
        dsimp only
        rw [turns, Option.bind_none, Option.map_none]
    | avx2 =>
        dsimp only
        rw [turns, Option.bind_none, Option.map_none]
  rw [twoStepLut, quantised, Option.bind_none]

end Agree

/-- **The fused quantiser is its reference exactly where** a tiny query has a dimension of
whole iterations, and any other one a dimension at which the reference's register loop ends:
for every query, whatever the table holds, and if either stops short so does the other. -/
theorem fusedLut_eq_iff {K : Type} [Field K] [LinearOrder K] [IsStrictOrderedRing K]
    [FloorRing K] (build : Build) (dim : UInt32) (whole : 4 ∣ dim.toNat) (vmax : K) :
    (∀ query lutOut, quantizeQuery14BitWithMaxToFastScanLUT query build vmax dim lutOut =
      twoStepLut query build vmax dim lutOut) ↔
      if vmax < lit 1e-10 then 4 * kFastScanLutPerIter build ∣ dim.toNat else RegistersEnd build dim := by
  by_cases tiny : vmax < lit 1e-10
  · rw [if_pos tiny]
    constructor
    · intro same
      by_contra short
      exact tiny_ne_twoStep whole tiny short (same (fun _ => 0) _)
    · exact fun iterations query lutOut => tiny_eq_twoStep whole tiny iterations lutOut
  · rw [if_neg tiny]
    constructor
    · intro same
      by_contra endless
      obtain ⟨result, ran⟩ := @fused_zeros K _ _ _ build vmax dim _ whole tiny
      rw [same, twoStepLut_endless tiny endless] at ran
      cases ran
    · exact fun ends query lutOut => fused_eq_twoStep whole tiny ends lutOut

/-- The law for twelve dimensions and a largest value of one. -/
theorem fusedLut_eq_iff_twelve :
    (∀ query lutOut, quantizeQuery14BitWithMaxToFastScanLUT query .avx512 (1 : ℚ) 12 lutOut =
      twoStepLut query .avx512 1 12 lutOut) ↔
      if (1 : ℚ) < lit 1e-10 then 4 * kFastScanLutPerIter .avx512 ∣ (12 : UInt32).toNat
      else RegistersEnd .avx512 12 :=
  fusedLut_eq_iff .avx512 12 (by decide) 1

/-- A query of zeros and four dimensions: the reference stores a group's high bytes past the
table of 32 bytes. -/
theorem zero_query_differs :
    quantizeQuery14BitWithMaxToFastScanLUT (fun _ => (0 : ℚ)) .avx2 0 4 (.zeros 32) ≠
      twoStepLut (fun _ => 0) .avx2 0 4 (.zeros 32) :=
  tiny_ne_twoStep (by decide) (lit_pos (by norm_num)) (by decide)

end VecFetch.Simd.FusedLut
