/-
# Rabitq.EncoderLaws -- what an official code holds

The scale of the extra code is never negative (`computeTConst_nonneg`), so the extra codes
lie between zero and the largest code.  The first plane of an official code has the sign of
every coordinate (`OfficialEncoder.signs`), and its extra code the size, counted from the
other end where the coordinate is negative (`OfficialEncoder.exCode`).
-/
import VecFetch.Rabitq.Encoder
import VecFetch.Rabitq.RotationFast
import VecFetch.Theory.MapM

namespace VecFetch.Rabitq

open VecFetch.Theory Finset

set_option autoImplicit false

/-! ## The queue -/

section Queue

variable {K : Type} [LinearOrder K]

theorem popLeast_mem {pq others : List (K × ℕ)} {top : K × ℕ}
    (popped : popLeast pq = some (top, others)) : top ∈ pq ∧ others ⊆ pq := by
  induction pq generalizing top others with
  | nil => simp [popLeast] at popped
  | cons e rest ih =>
      cases tail : popLeast rest with
      | none =>
          simp only [popLeast, tail, Option.some.injEq, Prod.mk.injEq] at popped
          rw [← popped.1, ← popped.2]
          simp
      | some found =>
          have inTail := @ih found.2 found.1 tail
          simp only [popLeast, tail] at popped
          split at popped
          · simp only [Option.some.injEq, Prod.mk.injEq] at popped
            rw [← popped.1, ← popped.2]
            exact ⟨List.mem_cons_self, List.subset_cons_self e rest⟩
          · simp only [Option.some.injEq, Prod.mk.injEq] at popped
            rw [← popped.1, ← popped.2]
            exact ⟨List.mem_cons_of_mem e inTail.1, List.cons_subset_cons e inTail.2⟩

end Queue

variable {K : Type} [Field K] [LinearOrder K] [IsStrictOrderedRing K] [FloorRing K]

/-! ## The scale -/

section Scale

variable (arith : ExactArith K)

omit [FloorRing K] in
theorem kEps_pos : (0 : K) < kEps := lit_pos (by norm_num)

omit [IsStrictOrderedRing K] in
theorem toInt_nonneg {x : K} (nonneg : 0 ≤ x) : 0 ≤ toInt x := by
  rw [toInt, if_pos nonneg]
  exact Int.floor_nonneg.2 nonneg

theorem scaledCode_nonneg {t abs : K} {maxCode : ℤ} (scale : 0 ≤ t) (size : 0 ≤ abs)
    (room : 0 ≤ maxCode) : 0 ≤ scaledCode t maxCode abs := by
  have floor : 0 ≤ toInt (t * abs + kEps) :=
    toInt_nonneg (add_nonneg (mul_nonneg scale size) kEps_pos.le)
  unfold scaledCode
  split
  · exact room
  · exact floor

omit [IsStrictOrderedRing K] in
theorem scaledCode_le (t abs : K) (maxCode : ℤ) : scaledCode t maxCode abs ≤ maxCode := by
  unfold scaledCode
  split <;> omega

/-- What the search keeps: codes and scales from zero on. -/
structure Search.Nonneg (s : Search K) : Prop where
  codes : ∀ i, 0 ≤ s.curCode i
  best : 0 ≤ s.bestT
  queued : ∀ e ∈ s.pq, 0 ≤ e.1

theorem Search.Nonneg.turn {absRot : ℕ → K} (sizes : ∀ i, 0 ≤ absRot i) {maxCode : ℤ}
    {tEnd curT : K} {idx : ℕ} {s : Search K} (nonneg : s.Nonneg) (key : 0 ≤ curT) :
    (s.turn arith absRot maxCode tEnd curT idx).Nonneg := by
  have code := nonneg.codes idx
  refine ⟨fun i => ?_, ?_, fun e queued => ?_⟩
  · simp only [Search.turn, Function.update_apply]
    split
    · omega
    · exact nonneg.codes i
  · simp only [Search.turn]
    split
    · exact key
    · exact nonneg.best
  · simp only [Search.turn] at queued
    split at queued
    · rcases List.mem_cons.1 queued with rfl | old
      · have code' : (0 : K) ≤ ((s.curCode idx + 1 : ℤ) : K) := Int.cast_nonneg (by omega)
        exact div_nonneg (by linarith) (sizes idx)
      · exact nonneg.queued e old
    · exact nonneg.queued e queued

theorem Search.Nonneg.loop {absRot : ℕ → K} (sizes : ∀ i, 0 ≤ absRot i) (maxCode : ℤ) (tEnd : K)
    (fuel : ℕ) {s : Search K} (nonneg : s.Nonneg) :
    (Search.loop arith absRot maxCode tEnd fuel s).Nonneg := by
  induction fuel generalizing s with
  | zero => exact nonneg
  | succ fuel ih =>
      rw [Search.loop]
      cases popped : popLeast s.pq with
      | none => exact nonneg
      | some found =>
          have inQueue := @popLeast_mem _ _ s.pq found.2 found.1 popped
          refine ih (Search.Nonneg.turn arith sizes ?_ (nonneg.queued _ inQueue.1))
          exact ⟨nonneg.codes, nonneg.best, fun e queued => nonneg.queued e (inQueue.2 queued)⟩

theorem Search.Nonneg.start {absRot : ℕ → K} (sizes : ∀ i, 0 ≤ absRot i) (dim : ℕ) {maxCode : ℤ}
    (room : 0 ≤ maxCode) {tStart : K} (scale : 0 ≤ tStart) :
    (Search.start absRot dim maxCode tStart).Nonneg := by
  have codes := fun i => scaledCode_nonneg scale (sizes i) room
  refine ⟨codes, scale, fun e queued => ?_⟩
  obtain ⟨i, _, entry⟩ := List.mem_filterMap.1 queued
  dsimp only at entry
  split at entry
  · rw [← Option.some.inj entry]
    have code : (0 : K) ≤ (scaledCode tStart maxCode (absRot i) : K) := Int.cast_nonneg (codes i)
    exact div_nonneg (by linarith) (sizes i)
  · cases entry

theorem kTightStart_nonneg {exBits : ℕ} {tight : ℚ} (entry : kTightStart[exBits]? = some tight) :
    0 ≤ tight := by
  have all : ∀ q ∈ kTightStart, 0 ≤ q := by decide +kernel
  exact all tight (List.mem_of_getElem? entry)

theorem bestRescaleFactorSlow_nonneg {absRot : ℕ → K} (sizes : ∀ i, 0 ≤ absRot i) {dim exBits : ℕ}
    {t : K} (best : bestRescaleFactorSlow arith absRot dim exBits = some t) : 0 ≤ t := by
  unfold bestRescaleFactorSlow at best
  split at best
  · cases best
  · obtain ⟨tight, entry, rfl⟩ := Option.map_eq_some_iff.1 best
    have top : (0 : ℤ) ≤ 2 ^ exBits - 1 := by
      have := @Int.pow_pos 2 exBits (by decide)
      omega
    refine (Search.Nonneg.loop arith sizes _ _ _ (Search.Nonneg.start sizes dim top ?_)).best
    refine mul_nonneg (div_nonneg (Int.cast_nonneg (by omega)) ?_)
      (Rat.cast_nonneg.2 (kTightStart_nonneg entry))
    split
    · exact kEps_pos.le
    · exact kEps_pos.le.trans (not_lt.1 ‹_›)

/-- **The scale of the extra codes is not negative.** -/
theorem computeTConst_nonneg {rng : Rng K} {dim exBits : ℕ} {t : K}
    (computed : computeTConst arith rng dim exBits = some t) : 0 ≤ t := by
  obtain ⟨best, sampled, rfl⟩ := Option.map_eq_some_iff.1 computed
  refine div_nonneg (List.sum_nonneg fun t drawn => ?_) (Int.cast_nonneg (by decide))
  obtain ⟨s, _, sample⟩ := mem_of_mapM sampled drawn
  exact bestRescaleFactorSlow_nonneg arith (fun _ => abs_nonneg _) sample

omit [IsStrictOrderedRing K] in
/-- The scale is computed for up to eight bits; beyond them the table has no entry. -/
theorem computeTConst_bits {rng : Rng K} {dim exBits : ℕ} {t : K}
    (computed : computeTConst arith rng dim exBits = some t) : 0 < dim ∧ exBits ≤ 8 := by
  obtain ⟨best, sampled, _⟩ := Option.map_eq_some_iff.1 computed
  obtain ⟨t₀, first⟩ := mapM_head (x := 0) (l := List.range' 1 99) sampled
  unfold bestRescaleFactorSlow at first
  split at first
  · cases first
  next positive =>
    obtain ⟨tight, entry, _⟩ := Option.map_eq_some_iff.1 first
    have inside := (List.getElem?_eq_some_iff.1 entry).1
    have length : kTightStart.length = 9 := rfl
    omega

omit [IsStrictOrderedRing K] in
theorem computeTConst_some (rng : Rng K) {dim exBits : ℕ} (positive : 0 < dim) (few : exBits ≤ 8) :
    ∃ t, computeTConst arith rng dim exBits = some t := by
  have each : ∀ s ∈ List.range 100, ∃ t,
      bestRescaleFactorSlow arith (tConstSample arith rng dim s) dim exBits = some t := by
    intro s _
    have inside : exBits < kTightStart.length := by
      have length : kTightStart.length = 9 := rfl
      omega
    rw [bestRescaleFactorSlow, if_neg (by omega), List.getElem?_eq_getElem inside]
    exact ⟨_, rfl⟩
  obtain ⟨best, sampled⟩ := exists_mapM each
  exact ⟨best.sum / ((100 : ℤ) : K), by rw [computeTConst, sampled]; rfl⟩

end Scale

/-! ## The sign plane -/

section Plane

/-- Bit `d` of a plane. -/
def planeBit (code : List UInt64) (d : ℕ) : Bool := (code.getD (d / 64) 0).toNat.testBit (d % 64)

theorem word_bit {w : UInt64} {b : ℕ} (below : b < 64) :
    (w >>> UInt64.ofNat b) &&& 1 ≠ 0 ↔ w.toNat.testBit b = true := by
  have value : ((w >>> UInt64.ofNat b) &&& 1).toNat = w.toNat >>> b % 2 := by
    rw [UInt64.toNat_and, UInt64.toNat_shiftRight, UInt64.toNat_ofNat',
      Nat.mod_eq_of_lt (show b < 2 ^ 64 by omega), Nat.mod_eq_of_lt below,
      show UInt64.toNat 1 = 1 from rfl, Nat.and_one_is_mod]
  rw [Nat.testBit, Nat.one_and_eq_mod_two, ← value, ne_eq, ← UInt64.toNat_inj]
  simp

theorem signBit_planeBit (c : RaBitQCode) (d : ℕ) : c.signBit d = (planeBit c.code d).toNat := by
  have small : d % 64 < 2 ^ 64 := by omega
  rw [RaBitQCode.signBit, planeBit, UInt64.toNat_and, UInt64.toNat_shiftRight,
    UInt64.toNat_ofNat', Nat.mod_eq_of_lt small, Nat.mod_mod, Nat.testBit,
    show UInt64.toNat 1 = 1 from rfl, Nat.and_one_is_mod, Nat.one_and_eq_mod_two]
  generalize (c.code.getD (d / 64) 0).toNat >>> (d % 64) = shifted
  rcases Nat.mod_two_eq_zero_or_one shifted with even | odd
  · rw [even]
    rfl
  · rw [odd]
    rfl

theorem orBit_length (code : List UInt64) (word bit : ℕ) :
    (orBit code word bit).length = code.length := List.length_modify ..

theorem planeBit_orBit {code : List UInt64} {word bit : ℕ} (inside : word < code.length)
    (below : bit < 64) (d : ℕ) :
    planeBit (orBit code word bit) d = (planeBit code d || decide (d = 64 * word + bit)) := by
  have entry : (orBit code word bit).getD (d / 64) 0 =
      if d / 64 = word then code.getD (d / 64) 0 ||| (1 : UInt64) <<< UInt64.ofNat bit
      else code.getD (d / 64) 0 := by
    rw [orBit, List.getD_eq_getElem?_getD, List.getElem?_modify, List.getD_eq_getElem?_getD]
    by_cases same : d / 64 = word
    · rw [if_pos same, same, List.getElem?_eq_getElem inside]
      simp
    · have same' : ¬ word = d / 64 := fun same' => same same'.symm
      simp [same, same']
  rw [planeBit, entry]
  by_cases same : d / 64 = word
  · rw [if_pos same, UInt64.toNat_or, Nat.testBit_or, UInt64.toNat_shiftLeft,
      UInt64.toNat_ofNat', Nat.mod_eq_of_lt (show bit < 2 ^ 64 by omega),
      Nat.mod_eq_of_lt below, show UInt64.toNat 1 = 1 from rfl, Nat.testBit_mod_two_pow,
      Nat.one_shiftLeft, Nat.testBit_two_pow, decide_eq_true (show d % 64 < 64 by omega),
      Bool.true_and, planeBit]
    congr 1
    exact decide_eq_decide.2 (by omega)
  · rw [if_neg same, planeBit, decide_eq_false (show ¬ d = 64 * word + bit by omega),
      Bool.or_false]

omit [IsStrictOrderedRing K] [FloorRing K] in
/-- The loop over the signs, after `n` coordinates. -/
theorem signPlane_spec (rotated : ℕ → K) {n : ℕ} {code : List UInt64} (room : n ≤ 64 * code.length) :
    (signPlane rotated n code).length = code.length ∧
      ∀ d, planeBit (signPlane rotated n code) d =
        (planeBit code d || decide (d < n ∧ 0 ≤ rotated d)) := by
  induction n with
  | zero => exact ⟨rfl, fun d => by simp [signPlane]⟩
  | succ n ih =>
      obtain ⟨length, bits⟩ := ih (by omega)
      rw [signPlane, List.range_succ, List.foldl_append, List.foldl_cons, List.foldl_nil,
        ← signPlane]
      split
      next sign =>
        refine ⟨(orBit_length _ _ _).trans length, fun d => ?_⟩
        rw [planeBit_orBit (by omega) (by omega), bits, Bool.or_assoc, ← Bool.decide_or]
        congr 1
        rw [decide_eq_decide, below_succ_and fun d => 0 ≤ rotated d, and_iff_left sign,
          Nat.div_add_mod]
      next sign =>
        refine ⟨length, fun d => ?_⟩
        rw [bits]
        congr 1
        rw [decide_eq_decide, below_succ_and fun d => 0 ≤ rotated d,
          or_iff_left fun new => sign new.2]

/-- The planes of a coordinate: in the first plane it sets the first bit of its level. -/
theorem packBin_spec (bin : ℕ) {bits wpp i : ℕ} (inPlane : i / 64 < wpp) {code : List UInt64}
    (room : code.length = bits * wpp) {planes : ℕ} (within : planes ≤ bits) :
    (packBin bits wpp bin i planes code).length = code.length ∧
      ∀ d, d / 64 < wpp → planeBit (packBin bits wpp bin i planes code) d =
        (planeBit code d || decide (0 < planes ∧ d = i ∧ (bin >>> (bits - 1)) &&& 1 ≠ 0)) := by
  induction planes with
  | zero => exact ⟨rfl, fun d _ => by simp [packBin]⟩
  | succ p ih =>
      obtain ⟨length, bitsBelow⟩ := ih (by omega)
      have inside : p * wpp + i / 64 < (packBin bits wpp bin i p code).length := by
        have rows := Nat.mul_le_mul_right wpp within
        rw [Nat.succ_mul] at rows
        omega
      rw [packBin, List.range_succ, List.foldl_append, List.foldl_cons, List.foldl_nil, ← packBin]
      by_cases set : (bin >>> (bits - 1 - p)) &&& 1 ≠ 0
      · rw [if_pos set]
        refine ⟨(orBit_length _ _ _).trans length, fun d inPlane' => ?_⟩
        rw [planeBit_orBit inside (by omega), bitsBelow d inPlane', Bool.or_assoc,
          ← Bool.decide_or]
        congr 1
        refine decide_eq_decide.2 ?_
        -- Only the first plane reaches into the words below `wpp`.
        rcases Nat.eq_zero_or_pos p with rfl | later
        · rw [Nat.sub_zero] at set
          refine ⟨fun new => ⟨Nat.one_pos, ?_, set⟩, fun new => .inr ?_⟩
          · rcases new with none | here
            · exact absurd none.1 (lt_irrefl 0)
            · omega
          · have here := new.2.1
            omega
        · have rows := Nat.mul_le_mul_right wpp later
          have other : ¬ d = 64 * (p * wpp + i / 64) + i % 64 := by omega
          simp only [other, or_false, later, true_and, Nat.succ_pos]
      · rw [if_neg set]
        refine ⟨length, fun d inPlane' => ?_⟩
        rw [bitsBelow d inPlane']
        congr 1
        refine decide_eq_decide.2 ?_
        rcases Nat.eq_zero_or_pos p with rfl | later
        · rw [Nat.sub_zero] at set
          exact ⟨fun old => absurd old.1 (lt_irrefl 0), fun new => absurd new.2.2 set⟩
        · simp only [later, true_and, Nat.succ_pos]

omit [IsStrictOrderedRing K] in
/-- The loop over the levels, after `n` coordinates. -/
theorem bitPlanes_spec (rotated : ℕ → K) {bits wpp n : ℕ} (some : 0 < bits) (inPlane : n ≤ 64 * wpp)
    {code : List UInt64} (room : code.length = bits * wpp) :
    (bitPlanes rotated n bits wpp code).length = code.length ∧
      ∀ d, d / 64 < wpp → planeBit (bitPlanes rotated n bits wpp code) d =
        (planeBit code d ||
          decide (d < n ∧ (uniformBin bits (rotated d) >>> (bits - 1)) &&& 1 ≠ 0)) := by
  induction n with
  | zero => exact ⟨rfl, fun d _ => by simp [bitPlanes]⟩
  | succ n ih =>
      obtain ⟨length, planes⟩ := ih (by omega)
      obtain ⟨length', planes'⟩ := packBin_spec (uniformBin bits (rotated n))
        (show n / 64 < wpp by omega) (length.trans room) le_rfl
      rw [bitPlanes, List.range_succ, List.foldl_append, List.foldl_cons, List.foldl_nil,
        ← bitPlanes]
      refine ⟨length'.trans length, fun d inside => ?_⟩
      rw [planes' d inside, planes d inside, Bool.or_assoc, ← Bool.decide_or]
      congr 1
      rw [decide_eq_decide, and_iff_right some]
      exact (below_succ_and (fun d => (uniformBin bits (rotated d) >>> (bits - 1)) &&& 1 ≠ 0)
        n d).symm

/-- The first bit of a coordinate's level is its sign. -/
theorem uniformBin_sign {bits : ℕ} (some : 0 < bits) (v : K) :
    (uniformBin bits v >>> (bits - 1)) &&& 1 ≠ 0 ↔ 0 ≤ v := by
  have half : ((2 ^ bits : ℕ) : K) * lit 0.5 = 2 ^ (bits - 1) := by
    obtain ⟨b, rfl⟩ := Nat.exists_eq_succ_of_ne_zero (by omega : bits ≠ 0)
    rw [Nat.succ_sub_one, lit, pow_succ]
    push_cast
    ring
  have power : (2 : ℕ) ^ bits = 2 * 2 ^ (bits - 1) := by
    rw [← pow_succ', Nat.sub_add_cancel some]
  have power' : (2 : ℤ) ^ bits = 2 * 2 ^ (bits - 1) := by exact_mod_cast power
  have positive : (0 : ℤ) < 2 ^ (bits - 1) := by positivity
  have cast : ((2 ^ (bits - 1) : ℕ) : ℤ) = 2 ^ (bits - 1) := by push_cast; rfl
  have level : uniformBin bits v < 2 ^ bits ∧ (2 ^ (bits - 1) ≤ uniformBin bits v ↔ 0 ≤ v) := by
    rw [uniformBin, half]
    have floor : (2 : ℤ) ^ (bits - 1) ≤ ⌊(v + 1) * 2 ^ (bits - 1)⌋ ↔ 0 ≤ v := by
      rw [Int.le_floor]
      push_cast
      have room : (0 : K) < 2 ^ (bits - 1) := by positivity
      rw [le_mul_iff_one_le_left room, le_add_iff_nonneg_left]
    refine ⟨by omega, ?_⟩
    rw [← floor]
    omega
  rw [Nat.and_one_is_mod, Nat.shiftRight_eq_div_pow, ← level.2]
  have positive' : 0 < 2 ^ (bits - 1) := by positivity
  constructor
  · intro odd
    by_contra small
    rw [Nat.div_eq_of_lt (by omega)] at odd
    exact odd rfl
  · intro large
    have one : uniformBin bits v / 2 ^ (bits - 1) = 1 :=
      Nat.div_eq_of_lt_le (by omega) (by omega)
    rw [one]
    decide

/-- A loop that keeps the length keeps it to its end. -/
theorem foldl_length {α β : Type} {step : List α → β → List α} (items : List β)
    (keeps : ∀ l b, (step l b).length = l.length) (l : List α) :
    (items.foldl step l).length = l.length := by
  induction items generalizing l with
  | nil => rfl
  | cons b items ih => rw [List.foldl_cons, ih, keeps]

omit [IsStrictOrderedRing K] [FloorRing K] in
theorem signPlane_length (rotated : ℕ → K) (dim : ℕ) (code : List UInt64) :
    (signPlane rotated dim code).length = code.length := by
  refine foldl_length _ (fun l i => ?_) code
  split
  · exact orBit_length _ _ _
  · rfl

omit [IsStrictOrderedRing K] in
theorem bitPlanes_length (rotated : ℕ → K) (dim bits wpp : ℕ) (code : List UInt64) :
    (bitPlanes rotated dim bits wpp code).length = code.length := by
  refine foldl_length _ (fun l i => foldl_length _ (fun l p => ?_) l) code
  split
  · exact orBit_length _ _ _
  · rfl

omit [IsStrictOrderedRing K] in
/-- A code has the encoder's words. -/
theorem encodeRotated_words (enc : RaBitQEncoder K) (norm : K) (rotated : ℕ → K) :
    (enc.encodeRotated norm rotated).code.length = enc.totalWords := by
  rw [RaBitQEncoder.encodeRotated, RaBitQEncoder.encodePlanes]
  dsimp only
  split
  · split
    · exact (signPlane_length _ _ _).trans List.length_replicate
    · exact (signPlane_length _ _ _).trans List.length_replicate
  · split
    · exact (bitPlanes_length _ _ _ _ _).trans List.length_replicate
    · exact (bitPlanes_length _ _ _ _ _).trans List.length_replicate

end Plane

/-! ## Official codes -/

/-- An encoder of official codes with an extra code. -/
structure OfficialEncoder (enc : RaBitQEncoder K) : Prop where
  official : enc.official1PlusN = true
  some : 0 < enc.exBits
  dim_pos : 0 < enc.dim
  bits : enc.bits = enc.exBits
  few : enc.exBits.toNat ≤ 8
  wordsPerPlane : enc.wordsPerPlane = (enc.dim + 63) / 64
  totalWords : enc.totalWords = enc.bits.toNat * enc.wordsPerPlane
  maxCode : enc.maxCode = 2 ^ enc.exBits.toNat - 1
  scale : 0 ≤ enc.tConst

/-- **An encoder built from an official configuration** with extra bits has at most eight. -/
theorem officialEncoder_of_config {arith : ExactArith K} {rng : Rng K} {dim : ℕ}
    {rotation : RotationMatrix K} {config : RaBitQConfig} {enc : RaBitQEncoder K}
    (built : RaBitQEncoder.ofConfig arith rng dim rotation config = some enc)
    (official : config.usesOfficial1PlusN = true) (some : 0 < config.exBits) :
    OfficialEncoder enc ∧ enc.exBits = config.exBits ∧ enc.dim = dim := by
  have payload : config.stage2PayloadBits = config.exBits := by
    rw [RaBitQConfig.stage2PayloadBits, if_pos official]
  have active : config.activeCodeBits = config.exBits := by
    rw [RaBitQConfig.activeCodeBits, payload, if_pos some]
  obtain ⟨base, ofBits, built⟩ := Option.bind_eq_some_iff.1 built
  rw [active, RaBitQEncoder.ofBits] at ofBits
  dsimp only at ofBits
  by_cases many : 1 < config.exBits
  · rw [if_pos many] at ofBits
    obtain ⟨t, computed, rfl⟩ := Option.map_eq_some_iff.1 ofBits
    have plain : ¬ config.exBits = 1 := fun one => by
      rw [one] at many
      exact absurd many (by decide)
    dsimp only at built
    rw [if_neg fun both => plain both.2.2] at built
    obtain rfl := Option.some.inj built
    have known := computeTConst_bits arith computed
    refine ⟨⟨official, ?_, known.1, ?_, ?_, rfl, rfl, ?_, computeTConst_nonneg arith computed⟩,
      payload, rfl⟩
    · exact payload ▸ some
    · exact payload.symm
    · change config.stage2PayloadBits.toNat ≤ 8
      rw [payload]
      exact known.2
    · change (2 : ℤ) ^ config.exBits.toNat - 1 = 2 ^ config.stage2PayloadBits.toNat - 1
      rw [payload]
  · have one : config.exBits = 1 := by
      have low := UInt8.lt_iff_toNat_lt.1 some
      have high := mt UInt8.lt_iff_toNat_lt.2 many
      apply UInt8.toNat_inj.1
      change 0 < config.exBits.toNat at low
      change ¬ 1 < config.exBits.toNat at high
      change _ = 1
      omega
    rw [if_neg many] at ofBits
    obtain rfl := Option.some.inj ofBits
    dsimp only at built
    rw [if_pos ⟨official, payload ▸ some, one⟩] at built
    obtain ⟨t, computed, rfl⟩ := Option.map_eq_some_iff.1 built
    have known := computeTConst_bits arith computed
    refine ⟨⟨official, ?_, known.1, ?_, known.2, rfl, rfl, rfl, computeTConst_nonneg arith computed⟩,
      payload, rfl⟩
    · exact payload ▸ some
    · exact payload.symm

namespace OfficialEncoder

variable {enc : RaBitQEncoder K} (official : OfficialEncoder enc) (norm : K) (rotated : ℕ → K)

include official

omit [IsStrictOrderedRing K] in
/-- The fields of an official code, in either branch of the encoder. -/
theorem encoded :
    ((enc.encodeRotated norm rotated).exCode =
      foldSigns rotated enc.maxCode
        (fastQuantizeCodes (fun i => |rotated i|) enc.dim enc.maxCode enc.tConst) ∧
    (enc.encodeRotated norm rotated).xipnorm =
      fastQuantizeXipnorm (fun i => |rotated i|) enc.dim enc.maxCode enc.tConst) ∧
    (enc.encodeRotated norm rotated).norm = norm ∧
    (enc.encodeRotated norm rotated).exFactorAdd = norm * norm ∧
    (enc.encodeRotated norm rotated).exFactorRescale =
      lit (-2.0) * norm * (enc.encodeRotated norm rotated).xipnorm := by
  have top : (2 : ℤ) ^ enc.bits.toNat - 1 = enc.maxCode := by rw [official.maxCode, official.bits]
  unfold RaBitQEncoder.encodeRotated RaBitQEncoder.encodePlanes
  dsimp only
  rw [top]
  by_cases one : enc.bits = 1
  · rw [if_pos one, if_pos ⟨official.official, official.some⟩]
    exact ⟨⟨rfl, rfl⟩, rfl, rfl, rfl⟩
  · rw [if_neg one, if_pos official.official]
    exact ⟨⟨rfl, rfl⟩, rfl, rfl, rfl⟩

/-- **The first plane has the signs.** -/
theorem signs {d : ℕ} (inside : d < enc.dim) :
    planeBit (enc.encodeRotated norm rotated).code d = decide (0 ≤ rotated d) := by
  have words := official.wordsPerPlane
  have positive : 0 < enc.bits.toNat := by
    rw [official.bits]
    exact UInt8.lt_iff_toNat_lt.1 official.some
  have empty : planeBit (List.replicate enc.totalWords 0) d = false := by
    have zero : (List.replicate enc.totalWords (0 : UInt64)).getD (d / 64) 0 = 0 := by
      rw [List.getD_eq_getElem?_getD, List.getElem?_replicate]
      split <;> rfl
    rw [planeBit, zero]
    exact Nat.zero_testBit _
  have length : (List.replicate enc.totalWords (0 : UInt64)).length =
      enc.bits.toNat * enc.wordsPerPlane := by
    rw [List.length_replicate, official.totalWords]
  unfold RaBitQEncoder.encodeRotated RaBitQEncoder.encodePlanes
  dsimp only
  by_cases one : enc.bits = 1
  · rw [if_pos one, if_pos ⟨official.official, official.some⟩]
    have room : enc.dim ≤ 64 * (List.replicate enc.totalWords (0 : UInt64)).length := by
      rw [length, one, show UInt8.toNat 1 = 1 from rfl]
      omega
    exact ((signPlane_spec rotated room).2 d).trans (by simp [empty, inside])
  · rw [if_neg one, if_pos official.official]
    have planes := (bitPlanes_spec rotated positive (show enc.dim ≤ 64 * enc.wordsPerPlane by omega)
      length).2 d (by omega)
    refine planes.trans ?_
    rw [empty, Bool.false_or]
    exact decide_eq_decide.2 ((and_iff_right inside).trans (uniformBin_sign positive _))

/-- **The extra code counts from the other end** where the coordinate is negative. -/
theorem exCode {d : ℕ} (inside : d < enc.dim) :
    (((enc.encodeRotated norm rotated).exCode.getD d 0).toNat : ℤ) =
      if rotated d < 0 then enc.maxCode - scaledCode enc.tConst enc.maxCode |rotated d|
      else scaledCode enc.tConst enc.maxCode |rotated d| := by
  have top : enc.maxCode < 256 := by
    have power : (2 : ℕ) ^ enc.exBits.toNat ≤ 2 ^ 8 := Nat.pow_le_pow_right (by decide) official.few
    rw [official.maxCode]
    have cast : (2 : ℤ) ^ enc.exBits.toNat = ((2 ^ enc.exBits.toNat : ℕ) : ℤ) := by push_cast; rfl
    omega
  have room : 0 ≤ enc.maxCode := by
    have := @Int.pow_pos 2 enc.exBits.toNat (by decide)
    have := official.maxCode
    omega
  have low := scaledCode_nonneg official.scale (abs_nonneg (rotated d)) room
  have high := scaledCode_le enc.tConst |rotated d| enc.maxCode
  have byte : ∀ c : ℤ, 0 ≤ c → c < 256 → ((UInt8.ofInt c).toNat : ℤ) = c := by
    intro c nonneg small
    rw [UInt8.ofInt, UInt8.toNat_ofNat']
    omega
  rw [(official.encoded norm rotated).1.1, foldSigns, List.getD_eq_getElem?_getD,
    List.getElem?_mapIdx, fastQuantizeCodes, List.getElem?_map, List.getElem?_range inside]
  simp only [Option.map_some, Option.getD_some]
  by_cases negative : rotated d < 0
  · rw [if_pos negative, if_pos negative, byte _ low (by omega), byte _ (by omega) (by omega)]
  · rw [if_neg negative, if_neg negative, byte _ low (by omega)]

end OfficialEncoder

end VecFetch.Rabitq
