/-
# Index.Envelope -- the stage-1 envelope of a FastScan block

Before stage 1 the prober bounds the accumulators of a whole block: for each group the
largest table entry among the nibbles the block has, read off its packed bytes or off
the masks the store kept.  With the range of the block's norms that bounds the
estimates from below, and a block whose bound lies above the frontier is skipped.

The distances are exact: no value overflows or is NaN, and `std::nextafter`, which
guards the rounding of the bound, changes nothing.
-/
import VecFetch.Simd.FastScanScalar
import VecFetch.Simd.Stage1
import Mathlib.Algebra.Order.Field.Basic
import Mathlib.Order.Lattice.Nat

namespace VecFetch.Index.Envelope

open VecFetch.Theory VecFetch.Simd VecFetch.Storage VecFetch.Rabitq

set_option autoImplicit false

/-! ## The nibbles a block has -/

/-- `kFastScanInvPerm`. -/
def kFastScanInvPerm (lane : ℕ) : ℕ :=
  [0, 2, 4, 6, 8, 10, 12, 14, 1, 3, 5, 7, 9, 11, 13, 15].getD lane 0

/-- `FastScanPresenceMaskFull`. -/
def fastScanPresenceMaskFull (groupBytes : ℕ → UInt8) : ℕ :=
  (List.range 16).foldl
    (fun mask i =>
      mask ||| (1 <<< ((groupBytes i).toNat % 16) ||| 1 <<< ((groupBytes i).toNat / 16))) 0

/-- The nibble of a lane in its group's bytes. -/
def laneNibble (groupBytes : ℕ → UInt8) (lane : ℕ) : ℕ :=
  let highHalf := decide (16 ≤ lane)
  let laneInHalf := if highHalf then lane - 16 else lane
  let byte := (groupBytes (kFastScanInvPerm laneInHalf)).toNat
  if highHalf then byte / 16 else byte % 16

/-- `FastScanPresenceMaskTail`. -/
def fastScanPresenceMaskTail (groupBytes : ℕ → UInt8) (count : ℕ) : ℕ :=
  (List.range count).foldl (fun mask lane => mask ||| 1 <<< laneNibble groupBytes lane) 0

/-- `FastScanPresenceMaskForGroup`. -/
def fastScanPresenceMaskForGroup (packedCodes : Buffer) (groupIdx count : ℕ) : Option ℕ :=
  (packedCodes.load (groupIdx / 2 * 32 + if groupIdx % 2 = 1 then 16 else 0) 16).map
    fun groupBytes =>
      if 32 ≤ count then fastScanPresenceMaskFull groupBytes
      else fastScanPresenceMaskTail groupBytes count

/-! ## The bound of the accumulators -/

/-- `FastScanLutGroupBase`. -/
def fastScanLutGroupBase (build : Build) (groupIdx : ℕ) : ℕ :=
  groupIdx / kFastScanLutPerIter build * kFastScanCodePerIter build +
    groupIdx % kFastScanLutPerIter build * kFastScanCodePerLane build

/-- `FastScanLutValue`. -/
def fastScanLutValue (build : Build) (lut : Buffer) (groupIdx nibble : ℕ) : Option UInt32 :=
  let base := fastScanLutGroupBase build groupIdx
  (lut.load (base + nibble) 1).bind fun low =>
  (lut.load (base + kFastScanHiOffset build + nibble) 1).map fun high =>
    (low 0).toUInt32 ||| ((high 0).toUInt32 <<< (8 : UInt32))

/-- The loop over the nibbles of a group. -/
def groupMax (build : Build) (lut : Buffer) (group present : ℕ) : Option UInt32 :=
  foldMask
    (fun acc nibble => acc.bind fun groupMax =>
      (fastScanLutValue build lut group nibble).map fun value =>
        if groupMax < value then value else groupMax)
    present (some 0)

/-- The loop over the groups, by the mask of each. -/
def rawUpperBound (build : Build) (lut : Buffer) (dim : ℕ) (presence : ℕ → Option ℕ) :
    Option UInt32 :=
  forRange
    (fun group rawUpper => (presence group).bind fun present =>
      (groupMax build lut group present).map fun groupMax => rawUpper + groupMax)
    (dim / 4) 0

/-- `FastScanRawAccumulatorUpperBound`. -/
def fastScanRawAccumulatorUpperBound (build : Build) (packedCodes lut : Buffer) (dim count : ℕ) :
    Option UInt32 :=
  rawUpperBound build lut dim fun group => fastScanPresenceMaskForGroup packedCodes group count

/-- `FastScanRawAccumulatorUpperBoundFromPresence`. -/
def fastScanRawAccumulatorUpperBoundFromPresence (build : Build) (presenceMasks : List ℕ)
    (lut : Buffer) (dim : ℕ) : Option UInt32 :=
  rawUpperBound build lut dim fun group => presenceMasks[group]?

/-! ## The decision -/

section Decision

variable {K : Type} [Field K] [LinearOrder K]

/-- `std::min` and `std::max` into a norm that may still be infinite. -/
def minInto (acc : Option K) (norm : K) : Option K :=
  match acc with
  | none => some norm
  | some least => some (min least norm)

def maxInto (acc : Option K) (norm : K) : Option K :=
  match acc with
  | none => some norm
  | some greatest => some (max greatest norm)

/-- `Stage1BlockEnvelopeSafeOutFromSummary`; a norm that is not finite is `none`. -/
def stage1BlockEnvelopeSafeOutFromSummary (args : Stage1Args K) (sqrtDim : K) (rawUpper : UInt32)
    (normMin normMax : Option K) : Bool :=
  match normMin, normMax with
  | some rMin, some rMax =>
      let ipRawUpper := ((rawUpper.toNat : K) + (args.fsShift : K)) * args.fsWidth
      let ipUpper := (2 * ipRawUpper - args.sumQ) / sqrtDim
      let margin := args.safeoutMarginFactor
      let unconstrainedMin := args.normQc * ipUpper + 1 / 2 * margin
      let rStar := min (max unconstrainedMin rMin) rMax
      let lowerBound :=
        rStar * rStar + args.normQcSq - 2 * rStar * args.normQc * ipUpper - margin * rStar
      decide (args.safeoutFrontierUpper < lowerBound)
  | _, _ => false

/-- The inner product that a lane or a bound stands for. -/
def ipOf (args : Stage1Args K) (raw : ℕ) : K :=
  (2 * (((raw : K) + (args.fsShift : K)) * args.fsWidth) - args.sumQ) * args.invSqrtDim

/-- The loop over the norms of a block. -/
def blockNormMin (blockNorms : ℕ → K) (count : ℕ) : K :=
  (List.range' 1 (count - 1)).foldl (fun acc i => min acc (blockNorms i)) (blockNorms 0)

def blockNormMax (blockNorms : ℕ → K) (count : ℕ) : K :=
  (List.range' 1 (count - 1)).foldl (fun acc i => max acc (blockNorms i)) (blockNorms 0)

/-- `Stage1BlockEnvelopeSafeOut`. -/
def stage1BlockEnvelopeSafeOut (args : Stage1Args K) (sqrtDim : K) (build : Build)
    (packedCodes lut : Buffer) (blockNorms : ℕ → K) (count dim : ℕ) : Option Bool :=
  if count = 0 then some false
  else
    (fastScanRawAccumulatorUpperBound build packedCodes lut dim count).map fun rawUpper =>
      stage1BlockEnvelopeSafeOutFromSummary args sqrtDim rawUpper
        (some (blockNormMin blockNorms count)) (some (blockNormMax blockNorms count))

/-- What the store keeps of a block. -/
structure EnvelopeSummary (K : Type) where
  presenceMasks : List ℕ
  normMin : Option K
  normMax : Option K

/-- A block of `BuildResidentStage1EnvelopeSummary`; without a whole group there is
no summary. -/
def buildResidentStage1EnvelopeSummary (packedCodes : Buffer) (norms : ℕ → K) (count dim : ℕ) :
    Option (Option (EnvelopeSummary K)) :=
  if dim < 4 then some none
  else
    ((List.range (dim / 4)).mapM fun group =>
      fastScanPresenceMaskForGroup packedCodes group count).map fun masks =>
        some
          { presenceMasks := masks
            normMin := (List.range count).foldl (fun acc i => minInto acc (norms i)) none
            normMax := (List.range count).foldl (fun acc i => maxInto acc (norms i)) none }

/-- The prober's envelope step: the store's summary if there is one for these groups,
else the block's bytes. -/
def blockSafeout (summary : Option (EnvelopeSummary K)) (args : Stage1Args K) (sqrtDim : K)
    (build : Build) (packedCodes lut : Buffer) (blockNorms : ℕ → K) (count dim : ℕ) :
    Option Bool :=
  match summary with
  | some kept =>
      if kept.presenceMasks.length = dim / 4 then
        (fastScanRawAccumulatorUpperBoundFromPresence build kept.presenceMasks lut dim).map
          fun rawUpper =>
            stage1BlockEnvelopeSafeOutFromSummary args sqrtDim rawUpper kept.normMin kept.normMax
      else stage1BlockEnvelopeSafeOut args sqrtDim build packedCodes lut blockNorms count dim
  | none => stage1BlockEnvelopeSafeOut args sqrtDim build packedCodes lut blockNorms count dim

end Decision

/-! ## What the masks hold -/

theorem testBit_one_shiftLeft (k n : ℕ) : (1 <<< k : ℕ).testBit n = decide (k = n) := by
  rw [Nat.shiftLeft_eq, Nat.one_mul, Nat.testBit_two_pow]

/-- A mask or-ed together has the bits of its parts. -/
theorem foldl_or_testBit {α : Type} (part : α → ℕ) (l : List α) (mask n : ℕ) :
    (l.foldl (fun mask x => mask ||| part x) mask).testBit n = true ↔
      mask.testBit n = true ∨ ∃ x ∈ l, (part x).testBit n = true := by
  induction l generalizing mask with
  | nil => simp
  | cons x l ih =>
      rw [List.foldl_cons, ih, Nat.testBit_or, Bool.or_eq_true, List.exists_mem_cons_iff, or_assoc]

section Presence

variable {dim : ℕ} {codes : List RaBitQCode} {packedCodes : Buffer}

/-- `kFastScanInvPerm` finds the byte of a lane. -/
theorem kPerm_kFastScanInvPerm : ∀ lane < 16, kFastScanInvPerm lane < 16 ∧
    kPerm (kFastScanInvPerm lane) = lane := by decide

/-- **The presence mask of a group** has the nibbles of the block's codes there, and no
other: the padding of a partial block does not count. -/
theorem presenceMask_spec (holds : HoldsCodes dim codes packedCodes)
    (size : packedCodes.size = 4 * dim) (whole : 8 ∣ dim) (count : codes.length ≤ 32) {g : ℕ}
    (group : g < dim / 4) :
    ∃ mask, fastScanPresenceMaskForGroup packedCodes g codes.length = some mask ∧
      ∀ n, mask.testBit n = true ↔ ∃ v < codes.length, codeNibble dim codes v g = n := by
  have place : g / 2 * 32 + (if g % 2 = 1 then 16 else 0) = 16 * g := by
    split <;> omega
  have low : ∀ j < 16, (packedCodes.byte (16 * g + j)).toNat % 16 =
      codeNibble dim codes (kPerm j) g := fun j lane =>
    packed_nibble holds whole group lane (show 0 < 2 by decide)
  have high : ∀ j < 16, (packedCodes.byte (16 * g + j)).toNat / 16 =
      codeNibble dim codes (kPerm j + 16) g := fun j lane =>
    packed_nibble holds whole group lane (show 1 < 2 by decide)
  rw [fastScanPresenceMaskForGroup, place, Buffer.load_inside (by omega), Option.map_some]
  refine ⟨_, rfl, fun n => ?_⟩
  split
  · rename_i full
    have all : codes.length = 32 := by omega
    rw [fastScanPresenceMaskFull, foldl_or_testBit, all]
    simp only [Nat.zero_testBit, Bool.false_eq_true, false_or, List.mem_range, Nat.testBit_or,
      testBit_one_shiftLeft, Bool.or_eq_true, decide_eq_true_eq]
    constructor
    · intro ⟨j, lane, found⟩
      have order : ∀ j < 16, kPerm j < 16 := by decide
      have := order j lane
      cases found with
      | inl lower => exact ⟨kPerm j, by omega, (low j lane).symm.trans lower⟩
      | inr upper => exact ⟨kPerm j + 16, by omega, (high j lane).symm.trans upper⟩
    · intro ⟨v, below, nibble⟩
      by_cases half : 16 ≤ v
      · obtain ⟨inside, undone⟩ := kPerm_kFastScanInvPerm (v - 16) (by omega)
        refine ⟨_, inside, .inr ?_⟩
        rw [high _ inside, undone, Nat.sub_add_cancel half, nibble]
      · obtain ⟨inside, undone⟩ := kPerm_kFastScanInvPerm v (by omega)
        refine ⟨_, inside, .inl ?_⟩
        rw [low _ inside, undone, nibble]
  · rw [fastScanPresenceMaskTail, foldl_or_testBit]
    have lanes : ∀ v < codes.length,
        laneNibble (fun j => packedCodes.byte (16 * g + j)) v = codeNibble dim codes v g := by
      intro v below
      rw [laneNibble]
      by_cases half : 16 ≤ v
      · obtain ⟨inside, undone⟩ := kPerm_kFastScanInvPerm (v - 16) (by omega)
        simp only [half, decide_true, if_true]
        rw [high _ inside, undone, Nat.sub_add_cancel half]
      · obtain ⟨inside, undone⟩ := kPerm_kFastScanInvPerm v (by omega)
        simp only [half, decide_false, Bool.false_eq_true, if_false]
        rw [low _ inside, undone]
    simp only [Nat.zero_testBit, Bool.false_eq_true, false_or, List.mem_range,
      testBit_one_shiftLeft, decide_eq_true_eq]
    constructor
    · intro ⟨v, below, found⟩
      exact ⟨v, below, (lanes v below).symm.trans found⟩
    · intro ⟨v, below, nibble⟩
      exact ⟨v, below, (lanes v below).trans nibble⟩

end Presence

/-! ## What the bound is -/

section Bound

variable {build : Build} {q : QuantQuery} {dim : ℕ} {codes : List RaBitQCode}
  {packedCodes lut : Buffer}

/-- The largest entry of group `g` among the codes' nibbles. -/
def groupUpper (q : QuantQuery) (dim : ℕ) (codes : List RaBitQCode) (g : ℕ) : ℕ :=
  (Finset.range codes.length).sup fun v => lutEntry q.value g (codeNibble dim codes v g)

/-- The largest entries over all groups. -/
def upperSum (q : QuantQuery) (dim : ℕ) (codes : List RaBitQCode) : ℕ :=
  ∑ g ∈ Finset.range (dim / 4), groupUpper q dim codes g

theorem lutEntry_lt (q : QuantQuery) (g nibble : ℕ) : lutEntry q.value g nibble < 2 ^ 15 := by
  have := (lutEntry_cast q g nibble).2
  omega

/-- A table value is its entry. -/
theorem fastScanLutValue_spec (holds : HoldsGroups build q dim (dim / 4) lut)
    (whole : iterationDim build ∣ dim) {g n : ℕ} (group : g < dim / 4) (nibble : n < 16) :
    ∃ value, fastScanLutValue build lut g n = some value ∧
      value.toNat = lutEntry q.value g n := by
  have inside := @lutGroup_inside build dim whole g group
  have low := holds.bytes g group 0 (by decide) n nibble
  have high := holds.bytes g group 1 (by decide) n nibble
  rw [Nat.zero_mul, Nat.add_zero] at low
  rw [Nat.one_mul] at high
  have size := holds.size
  have base : fastScanLutGroupBase build g = lutGroupWriteBase build g := rfl
  have small := lutEntry_lt q g n
  have planes := planeByte_sum (lutEntry q.value g n)
  rw [fastScanLutValue, base, Buffer.load_inside (by omega), Option.bind_some,
    Buffer.load_inside (by omega), Option.map_some]
  refine ⟨_, rfl, ?_⟩
  dsimp only
  rw [UInt32.toNat_or, UInt32.toNat_shiftLeft, UInt8.toNat_toUInt32, UInt8.toNat_toUInt32,
    Nat.add_zero, Nat.add_zero, low, high, Nat.or_comm]
  have lowByte := planeByte_lt q g n 0
  have highByte := planeByte_lt q g n 1
  rw [show (8 : UInt32).toNat % 32 = 8 from rfl, Nat.shiftLeft_eq,
    Nat.mod_eq_of_lt (show planeByte 1 (lutEntry q.value g n) * 2 ^ 8 < 2 ^ 32 by omega),
    ← Nat.shiftLeft_eq, ← Nat.shiftLeft_add_eq_or_of_lt (show _ < 2 ^ 8 from lowByte),
    Nat.shiftLeft_eq]
  omega

/-- The loop over a mask's nibbles finds the largest value. -/
theorem groupMax_spec (holds : HoldsGroups build q dim (dim / 4) lut)
    (whole : iterationDim build ∣ dim) {g : ℕ} (group : g < dim / 4) {mask : ℕ}
    (sixteen : ∀ n, mask.testBit n = true → n < 16) :
    ∃ greatest, groupMax build lut g mask = some greatest ∧
      (∀ n, mask.testBit n = true → lutEntry q.value g n ≤ greatest.toNat) ∧
      (greatest = 0 ∨ ∃ n, mask.testBit n = true ∧ lutEntry q.value g n = greatest.toNat) := by
  have small : mask < 2 ^ 16 := Nat.lt_pow_two_of_testBit mask fun n high => by
    cases set : mask.testBit n with
    | false => rfl
    | true => exact absurd (sixteen n set) (by omega)
  rw [groupMax, foldMask_eq _ small]
  have loop : ∀ l : List ℕ, (∀ n ∈ l, n < 16) → ∃ greatest, l.foldl
      (fun acc nibble => acc.bind fun groupMax =>
        (fastScanLutValue build lut g nibble).map fun value =>
          if groupMax < value then value else groupMax) (some 0) = some greatest ∧
      (∀ n ∈ l, lutEntry q.value g n ≤ greatest.toNat) ∧
      (greatest = 0 ∨ ∃ n ∈ l, lutEntry q.value g n = greatest.toNat) := by
    intro l
    induction l using List.reverseRecOn with
    | nil =>
        intro _
        exact ⟨0, rfl, fun n none => absurd none List.not_mem_nil, .inl rfl⟩
    | append_singleton l n ih =>
        intro nibbles
        obtain ⟨before, run, above, reached⟩ :=
          ih fun m mem => nibbles m (List.mem_append_left _ mem)
        obtain ⟨value, read, entry⟩ := fastScanLutValue_spec holds whole group
          (nibbles n (List.mem_append_right _ List.mem_cons_self))
        rw [List.foldl_append, run, List.foldl_cons, List.foldl_nil, Option.bind_some, read,
          Option.map_some]
        by_cases larger : before < value
        · have below := UInt32.lt_iff_toNat_lt.1 larger
          refine ⟨value, by rw [if_pos larger], fun m mem => ?_, .inr ⟨n, by simp, entry.symm⟩⟩
          cases List.mem_append.1 mem with
          | inl earlier => exact (above m earlier).trans (Nat.le_of_lt below)
          | inr last => rw [List.mem_singleton.1 last, entry]
        · have below := UInt32.le_iff_toNat_le.1 (UInt32.not_lt.1 larger)
          refine ⟨before, by rw [if_neg larger], fun m mem => ?_, ?_⟩
          · cases List.mem_append.1 mem with
            | inl earlier => exact above m earlier
            | inr last => rwa [List.mem_singleton.1 last, ← entry]
          · cases reached with
            | inl zero => exact .inl zero
            | inr found =>
                obtain ⟨m, mem, same⟩ := found
                exact .inr ⟨m, List.mem_append_left _ mem, same⟩
  obtain ⟨greatest, run, above, reached⟩ := loop (setBits 16 mask)
    fun n mem => (mem_setBits.1 mem).1
  refine ⟨greatest, run, fun n set => above n (mem_setBits.2 ⟨sixteen n set, set⟩), ?_⟩
  cases reached with
  | inl zero => exact .inl zero
  | inr found =>
      obtain ⟨n, mem, same⟩ := found
      exact .inr ⟨n, (mem_setBits.1 mem).2, same⟩

/-- **The bound of the accumulators** is the sum of the groups' largest entries, in 32
bits. -/
theorem rawUpperBound_spec (holdsLut : HoldsGroups build q dim (dim / 4) lut)
    (iterations : iterationDim build ∣ dim) (holdsCodes : HoldsCodes dim codes packedCodes)
    (size : packedCodes.size = 4 * dim) (whole : 8 ∣ dim) (count : codes.length ≤ 32) :
    ∃ rawUpper, fastScanRawAccumulatorUpperBound build packedCodes lut dim codes.length =
        some rawUpper ∧ rawUpper.toNat = upperSum q dim codes % 2 ^ 32 := by
  refine forRange_spec (fun n (rawUpper : UInt32) => rawUpper.toNat =
    (∑ g ∈ Finset.range n, groupUpper q dim codes g) % 2 ^ 32) rfl ?_
  intro g rawUpper group sum
  obtain ⟨mask, present, bits⟩ := presenceMask_spec holdsCodes size whole count group
  have nibbles : ∀ v, codeNibble dim codes v g < 16 := fun v => codeNibble_lt v (by omega)
  have sixteen : ∀ n, mask.testBit n = true → n < 16 := by
    intro n set
    obtain ⟨v, _, same⟩ := (bits n).1 set
    exact same ▸ nibbles v
  obtain ⟨greatest, run, above, reached⟩ := groupMax_spec holdsLut iterations group sixteen
  have upper : greatest.toNat = groupUpper q dim codes g := by
    apply Nat.le_antisymm
    · cases reached with
      | inl zero =>
          rw [zero]
          exact Nat.zero_le _
      | inr found =>
          obtain ⟨n, set, same⟩ := found
          obtain ⟨v, below, nibble⟩ := (bits n).1 set
          rw [← same, ← nibble]
          exact Finset.le_sup (f := fun v => lutEntry q.value g (codeNibble dim codes v g))
            (Finset.mem_range.2 below)
    · apply Finset.sup_le
      intro v inRange
      exact above _ ((bits _).2 ⟨v, Finset.mem_range.1 inRange, rfl⟩)
  dsimp only
  rw [present, Option.bind_some, run, Option.map_some]
  refine ⟨_, rfl, ?_⟩
  rw [UInt32.toNat_add, sum, upper, Finset.sum_range_succ, Nat.mod_add_mod]

end Bound

end VecFetch.Index.Envelope
