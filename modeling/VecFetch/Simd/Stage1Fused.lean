/-
# Simd.Stage1Fused -- the AVX-512 stage-1 kernel and its parts

The AVX-512 build evaluates a block in one pass over registers of sixteen lanes: inner
products, distances and both masks.  It leaves what `FastScanDequantize`,
`FastScanSafeOutMask` and `FastScanSafeInMask` leave one after the other, on every float type
that is exact on finite values (`stage1_eq_parts`).  Distances of lanes past the count are
not written; the record of the result is, with zeros for their inner products.
-/
import VecFetch.Simd.Stage1
import VecFetch.Common.ExactFloat
import VecFetch.Theory.Fill

namespace VecFetch.Simd.Stage1Fused

open VecFetch.Theory FloatArith

set_option autoImplicit false

variable {F : Type} [FloatArith F]

/-- `_mm512_storeu_ps`, or `_mm512_mask_storeu_ps` of the valid lanes. -/
def storeLanes (base valid : ℕ) (lane : ℕ → F) (out : ℕ → F) : ℕ → F := fun v =>
  if base ≤ v ∧ v < base + valid then lane v else out v

section Kernels

variable (args : Stage1Args F) (rawAccu : ℕ → UInt32) (blockNorms : ℕ → F) (count : ℕ)

/-- `FastScanDequantize` of the AVX-512 build, onto what `out_dist` holds: whole registers,
then the scalar tail. -/
def fastScanDequantize (outDist : ℕ → F) : ℕ → F :=
  let full := count / 16
  let out := (List.range full).foldl
    (fun out c =>
      storeLanes (16 * c) 16 (fun v => fusedDist args (rawAccu v) (blockNorms v)) out) outDist
  (List.range (count - 16 * full)).foldl
    (fun out k => Function.update out (16 * full + k)
      (dequantizedDist args (rawAccu (16 * full + k)) (blockNorms (16 * full + k)))) out

/-- `FastScanStage1EvalResult`. -/
structure FastScanStage1EvalResult (F : Type) where
  safeoutMask : UInt32
  safeinMask : UInt32
  ipX0Qr : ℕ → F

/-- What the kernel writes to. -/
structure Stage1Out (F : Type) where
  outDist : ℕ → F
  result : FastScanStage1EvalResult F

/-- One register of lanes. -/
def stage1Register (st : Stage1Out F) (c : ℕ) : Stage1Out F :=
  let base := 16 * c
  let valid := min 16 (count - base)
  let dist := fun v => fusedDist args (rawAccu v) (blockNorms v)
  { outDist := storeLanes base valid dist st.outDist
    result :=
      { ipX0Qr := storeLanes base valid (fun v => ipX0Qr args (rawAccu v)) st.result.ipX0Qr
        safeoutMask := st.result.safeoutMask |||
          maskRegister 16 count (fun v => isSafeOut args (dist v) (blockNorms v)) c
        safeinMask :=
          if args.enableSafein then
            st.result.safeinMask |||
              maskRegister 16 count (fun v => isSafeIn args (dist v) (blockNorms v)) c
          else st.result.safeinMask } }

/-- `FastScanStage1Evaluate` of the AVX-512 build: it fills a local record, which then
replaces the result. -/
def fastScanStage1Evaluate (out : Stage1Out F) : Stage1Out F :=
  (List.range ((count + 15) / 16)).foldl (stage1Register args rawAccu blockNorms count)
    { outDist := out.outDist, result := ⟨0, 0, fun _ => ofInt 0⟩ }

end Kernels

/-! ## The lanes that are written -/

section Written

variable {args : Stage1Args F} {rawAccu : ℕ → UInt32} {blockNorms : ℕ → F} {count : ℕ}

omit [FloatArith F] in
theorem storeLanes_fills {value : ℕ → F} {lane : ℕ → F} (same : ∀ v, v < count → lane v = value v)
    (c : ℕ) : Fills (fun v => v < count) value (0 + c * 16) (0 + (c + 1) * 16)
      (storeLanes (16 * c) (min 16 (count - 16 * c)) lane) := by
  intro out v
  rw [storeLanes]
  refine ⟨fun above below valid => ?_, fun outside => if_neg fun within => outside ?_⟩
  · rw [if_pos (by omega), same v valid]
  · omega

omit [FloatArith F] in
/-- A table written register by register has the lanes below the count. -/
theorem foldl_storeLanes {value lane : ℕ → F} (same : ∀ v, v < count → lane v = value v)
    (out : ℕ → F) (v : ℕ) : (List.range ((count + 15) / 16)).foldl
      (fun out c => storeLanes (16 * c) (min 16 (count - 16 * c)) lane out) out v =
        if v < count then value v else out v := by
  have fills := Fills.foldl 0 ((count + 15) / 16) 16
    (fun c => storeLanes (16 * c) (min 16 (count - 16 * c)) lane)
    (fun c _ => storeLanes_fills same c) out v
  dsimp only at fills
  split
  next valid => exact fills.1 (Nat.zero_le v) (by omega) valid
  next past => exact fills.2 fun within => past within.2.2

/-- The pass over the registers is a pass for each output. -/
theorem registers_eq (st : Stage1Out F) (n : ℕ) :
    (List.range n).foldl (stage1Register args rawAccu blockNorms count) st =
      { outDist := (List.range n).foldl
          (fun out c => storeLanes (16 * c) (min 16 (count - 16 * c))
            (fun v => fusedDist args (rawAccu v) (blockNorms v)) out) st.outDist
        result :=
          { ipX0Qr := (List.range n).foldl
              (fun out c => storeLanes (16 * c) (min 16 (count - 16 * c))
                (fun v => ipX0Qr args (rawAccu v)) out) st.result.ipX0Qr
            safeoutMask := (List.range n).foldl
              (fun mask c => mask ||| maskRegister 16 count
                (fun v => isSafeOut args (fusedDist args (rawAccu v) (blockNorms v))
                  (blockNorms v)) c) st.result.safeoutMask
            safeinMask :=
              if args.enableSafein then (List.range n).foldl
                (fun mask c => mask ||| maskRegister 16 count
                  (fun v => isSafeIn args (fusedDist args (rawAccu v) (blockNorms v))
                    (blockNorms v)) c) st.result.safeinMask
              else st.result.safeinMask } } := by
  induction n with
  | zero => simp
  | succ n ih =>
      simp only [List.range_succ, List.foldl_append, List.foldl_cons, List.foldl_nil]
      rw [ih]
      unfold stage1Register
      dsimp only
      cases args.enableSafein with
      | false => simp only [Bool.false_eq_true, if_false]
      | true => simp only [if_true]

/-- Masks with the same lanes are the same. -/
theorem mask_ext {a b : UInt32} (lanes : ∀ j, j < 32 → hasLane a j = hasLane b j) : a = b := by
  rw [← UInt32.toNat_inj]
  refine Nat.eq_of_testBit_eq fun j => ?_
  by_cases inside : j < 32
  · exact lanes j inside
  · exact (hasLane_high a (by omega)).trans (hasLane_high b (by omega)).symm

theorem chunkMask_congr {test test' : ℕ → Bool} (fits : count ≤ 32)
    (same : ∀ v, v < count → test v = test' v) :
    chunkMask 16 count test = chunkMask 16 count test' := by
  refine mask_ext fun j _ => ?_
  rw [hasLane_chunkMask (by decide) (by decide) fits, hasLane_chunkMask (by decide) (by decide) fits]
  by_cases valid : j < count
  · rw [same j valid]
  · rw [decide_eq_false valid, Bool.false_and, Bool.false_and]

end Written

/-! ## The two ways agree -/

section Exact

variable {K : Type} [Field K] [LinearOrder K] {fin : K → F} (exact : ExactOn fin)
  {args : Stage1Args F} {rawAccu : ℕ → UInt32} {blockNorms : ℕ → F} {count : ℕ}

/-- The numbers of a block are finite; thresholds and margin factors may be anything. -/
structure FiniteBlock (fin : K → F) (args : Stage1Args F) (blockNorms : ℕ → F) (count : ℕ) :
    Prop where
  fsWidth : ∃ x, args.fsWidth = fin x
  sumQ : ∃ x, args.sumQ = fin x
  invSqrtDim : ∃ x, args.invSqrtDim = fin x
  normQc : ∃ x, args.normQc = fin x
  normQcSq : ∃ x, args.normQcSq = fin x
  norms : ∀ v, v < count → ∃ x, blockNorms v = fin x

include exact

/-- Fused and unfused, a lane's distance is the same. -/
theorem fusedDist_eq (block : FiniteBlock fin args blockNorms count) {v : ℕ} (lane : v < count) :
    fusedDist args (rawAccu v) (blockNorms v) = dequantizedDist args (rawAccu v) (blockNorms v) := by
  obtain ⟨width, fsWidth⟩ := block.fsWidth
  obtain ⟨sum, sumQ⟩ := block.sumQ
  obtain ⟨inv, invSqrtDim⟩ := block.invSqrtDim
  obtain ⟨qc, normQc⟩ := block.normQc
  obtain ⟨qcSq, normQcSq⟩ := block.normQcSq
  obtain ⟨norm, norms⟩ := block.norms v lane
  have two : (ofInt 2 : F) = fin ((2 : ℤ) : K) := exact.ofInt 2
  have zero : (ofInt 0 : F) = fin ((0 : ℤ) : K) := exact.ofInt 0
  have ip : ipX0Qr args (rawAccu v) =
      fin ((((rawAccu v).toNat : ℤ) + args.fsShift : K) * width) := by
    rw [ipX0Qr, fsWidth, exact.ofInt, exact.ofInt, exact.add, exact.mul]
  unfold fusedDist dequantizedDist
  dsimp only
  rw [ip, sumQ, invSqrtDim, normQc, normQcSq, norms, two, zero]
  simp only [exact.fmsub, exact.mul, exact.fmadd, exact.fnmadd, exact.simdMax, exact.sub,
    exact.add, exact.stdMax]
  congr 2
  ring

/-- `FastScanDequantize` writes the lanes below the count. -/
theorem fastScanDequantize_eq (block : FiniteBlock fin args blockNorms count) (outDist : ℕ → F)
    (v : ℕ) : fastScanDequantize args rawAccu blockNorms count outDist v =
      if v < count then dequantizedDist args (rawAccu v) (blockNorms v) else outDist v := by
  have registers := Fills.foldl 0 (count / 16) 16
    (fun c => storeLanes (16 * c) 16 fun v => fusedDist args (rawAccu v) (blockNorms v))
    (fun c below => (show Fills (fun v => v < count)
      (fun v => dequantizedDist args (rawAccu v) (blockNorms v)) (0 + c * 16) (0 + (c + 1) * 16) _
      from by
        have fills := storeLanes_fills (fun v lane => show fusedDist args (rawAccu v)
          (blockNorms v) = _ from fusedDist_eq exact block lane) c
        rwa [Nat.min_eq_left (by omega)] at fills))
  have tail := Fills.foldl (0 + count / 16 * 16) (count - 16 * (count / 16)) 1
    (fun k out => Function.update out (16 * (count / 16) + k)
      (dequantizedDist args (rawAccu (16 * (count / 16) + k)) (blockNorms (16 * (count / 16) + k))))
    (fun k below => (show Fills (fun v => v < count)
      (fun v => dequantizedDist args (rawAccu v) (blockNorms v)) _ _ _ from by
        intro out v
        refine ⟨fun above below' valid => ?_, fun outside => ?_⟩
        · have here : v = 16 * (count / 16) + k := by omega
          subst here
          exact Function.update_self ..
        · exact Function.update_of_ne (fun here => outside (by omega)) ..))
  have both := registers.comp (by omega) (by omega) tail outDist v
  dsimp only at both
  rw [fastScanDequantize]
  split
  next valid => exact both.1 (Nat.zero_le v) (by omega) valid
  next past => exact both.2 fun within => past within.2.2

/-- **The kernel leaves what its parts leave**: their distances and masks, for any thresholds
and margin factors, and each lane's inner product.  Distances past the count keep what they
held, and the inner products there are set to zero. -/
theorem stage1_eq_parts (block : FiniteBlock fin args blockNorms count) (fits : count ≤ 32)
    (out : Stage1Out F) :
    let kernel := fastScanStage1Evaluate args rawAccu blockNorms count out
    kernel.outDist = fastScanDequantize args rawAccu blockNorms count out.outDist ∧
      kernel.result.safeoutMask =
        fastScanSafeOutMask args .avx512 count kernel.outDist blockNorms ∧
      kernel.result.safeinMask =
        (if args.enableSafein then fastScanSafeInMask args .avx512 count kernel.outDist blockNorms
          else 0) ∧
      (∀ v, v < count → kernel.result.ipX0Qr v =
        (ofInt (rawAccu v).toNat + ofInt args.fsShift) * args.fsWidth) ∧
      ∀ v, count ≤ v → kernel.outDist v = out.outDist v ∧ kernel.result.ipX0Qr v = ofInt 0 ∧
        hasLane kernel.result.safeoutMask v = false ∧
        hasLane kernel.result.safeinMask v = false := by
  have dists : ∀ v, (fastScanStage1Evaluate args rawAccu blockNorms count out).outDist v =
      if v < count then dequantizedDist args (rawAccu v) (blockNorms v) else out.outDist v := by
    intro v
    rw [fastScanStage1Evaluate, registers_eq]
    exact foldl_storeLanes (fun v lane => fusedDist_eq exact block lane) out.outDist v
  have lanes : ∀ v, v < count → fusedDist args (rawAccu v) (blockNorms v) =
      (fastScanStage1Evaluate args rawAccu blockNorms count out).outDist v := fun v lane => by
    rw [dists, if_pos lane, fusedDist_eq exact block lane]
  have safeout : (fastScanStage1Evaluate args rawAccu blockNorms count out).result.safeoutMask =
      fastScanSafeOutMask args .avx512 count
        (fastScanStage1Evaluate args rawAccu blockNorms count out).outDist blockNorms := by
    have same := chunkMask_congr fits fun v lane => show
      isSafeOut args (fusedDist args (rawAccu v) (blockNorms v)) (blockNorms v) =
        isSafeOut args ((fastScanStage1Evaluate args rawAccu blockNorms count out).outDist v)
          (blockNorms v) by rw [lanes v lane]
    rw [fastScanStage1Evaluate, registers_eq]
    rw [fastScanStage1Evaluate, registers_eq] at same
    exact same
  have safein : (fastScanStage1Evaluate args rawAccu blockNorms count out).result.safeinMask =
      if args.enableSafein then fastScanSafeInMask args .avx512 count
        (fastScanStage1Evaluate args rawAccu blockNorms count out).outDist blockNorms else 0 := by
    have same := chunkMask_congr fits fun v lane => show
      isSafeIn args (fusedDist args (rawAccu v) (blockNorms v)) (blockNorms v) =
        isSafeIn args ((fastScanStage1Evaluate args rawAccu blockNorms count out).outDist v)
          (blockNorms v) by rw [lanes v lane]
    rw [fastScanStage1Evaluate, registers_eq]
    rw [fastScanStage1Evaluate, registers_eq] at same
    dsimp only
    split
    · exact same
    · rfl
  have products : ∀ v, (fastScanStage1Evaluate args rawAccu blockNorms count out).result.ipX0Qr v =
      if v < count then ipX0Qr args (rawAccu v) else ofInt 0 := by
    intro v
    rw [fastScanStage1Evaluate, registers_eq]
    exact foldl_storeLanes (fun _ _ => rfl) _ v
  dsimp only
  refine ⟨funext fun v => ?_, safeout, safein, fun v lane => ?_, fun v past => ⟨?_, ?_, ?_, ?_⟩⟩
  · rw [dists, fastScanDequantize_eq exact block]
  · rw [products, if_pos lane, ipX0Qr]
  · rw [dists, if_neg (Nat.not_lt.2 past)]
  · rw [products, if_neg (Nat.not_lt.2 past)]
  · rw [safeout, safeOutMask_lane fits, decide_eq_false (Nat.not_lt.2 past), Bool.false_and]
  · rw [safein]
    split
    · rw [safeInMask_lane fits, decide_eq_false (Nat.not_lt.2 past), Bool.false_and]
    · exact hasLane_zero v

end Exact

/-- Arguments with no frontier yet. -/
def openArgs : Stage1Args Flt where
  fsShift := -3
  fsWidth := .fin 2
  sumQ := .fin 1
  invSqrtDim := .fin 1
  normQc := .fin 1
  normQcSq := .fin 1
  safeoutFrontierUpper := .posInf
  safeoutMarginFactor := .fin 1
  safeinThresholdBase := .negInf
  safeinMarginFactor := .fin 1
  enableSafein := true

theorem openArgs_finite (count : ℕ) :
    FiniteBlock Flt.fin openArgs (fun _ => .fin 1) count where
  fsWidth := ⟨2, rfl⟩
  sumQ := ⟨1, rfl⟩
  invSqrtDim := ⟨1, rfl⟩
  normQc := ⟨1, rfl⟩
  normQcSq := ⟨1, rfl⟩
  norms _ _ := ⟨1, rfl⟩

/-- A result that holds ones. -/
def onesOut : Stage1Out Flt := ⟨fun _ => .fin 1, ⟨0, 0, fun _ => .fin 1⟩⟩

/-- The law for seventeen lanes and infinite thresholds. -/
theorem stage1_eq_parts_seventeen :
    (fastScanStage1Evaluate openArgs (fun v => UInt32.ofNat v) (fun _ => .fin 1) 17
        onesOut).outDist =
      fastScanDequantize openArgs (fun v => UInt32.ofNat v) (fun _ => .fin 1) 17 onesOut.outDist :=
  (stage1_eq_parts Flt.exactOn (openArgs_finite 17) (by decide) onesOut).1

/-- The inner products of lanes past the count are overwritten. -/
theorem past_lanes_are_written :
    ¬ ∀ (args : Stage1Args Flt) (rawAccu : ℕ → UInt32) (blockNorms : ℕ → Flt) (count : ℕ)
      (out : Stage1Out Flt), FiniteBlock Flt.fin args blockNorms count → 1 ≤ count → count ≤ 32 →
        ∀ v, count ≤ v → v < 32 →
          (fastScanStage1Evaluate args rawAccu blockNorms count out).result.ipX0Qr v =
            out.result.ipX0Qr v := by
  intro claim
  have kept := claim openArgs (fun _ => 0) (fun _ => .fin 1) 1 onesOut (openArgs_finite 1)
    le_rfl (by decide) 1 le_rfl (by decide)
  have zero : (fastScanStage1Evaluate openArgs (fun _ => 0) (fun _ => .fin 1) 1
      onesOut).result.ipX0Qr 1 = .fin 0 := by
    rw [fastScanStage1Evaluate, registers_eq]
    exact foldl_storeLanes (fun _ _ => rfl) _ 1
  rw [zero] at kept
  exact absurd (Flt.fin.inj kept) (by decide)

end VecFetch.Simd.Stage1Fused
