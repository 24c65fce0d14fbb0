/-
# Storage.ClusterViews -- the views of a parsed cluster

A block that passes every check is parsed, and its views are inside it exactly if the last
FastScan block, the last record and every batch block are.  The offsets of a varying batch
block are compared with the region as they are read, so its factors are inside, but its size
is not compared with the magnitudes of the lanes it counts.
-/
import VecFetch.Storage.ClusterBounds

namespace VecFetch.Storage

open VecFetch.Theory VecFetch.Simd VecFetch.Rabitq VecFetch.Query

set_option autoImplicit false

/-! ## Parsing -/

section Parsing

variable (build : Build) {g : ReaderGeometry} {entry : LookupEntry} {block : Buffer}

/-- Where a cluster has the offsets of its batch blocks. -/
def offsetsAt (g : ReaderGeometry) (entry : LookupEntry) (block : Buffer) : Option ℕ :=
  if g.variableExBlocks then some ((regionsAt g entry block).region1Size.toNat + 8) else none

/-- The cluster of a block with these addresses. -/
def clusterAt (g : ReaderGeometry) (entry : LookupEntry) (block : Buffer)
    (decoded : List AddressEntry) : ParsedCluster :=
  parsedCluster g entry block.size (trailerSize block) (addressesAt g.fileVersion block) decoded
    (offsetsAt g entry block)

/-- What is done with a block that has a trailer. -/
theorem parseBlock_of_trailer (footer : 8 ≤ block.size)
    (trailer : HasTrailer g.fileVersion entry.numRecords block) :
    parseBlock build g entry block =
      (checkRegions "Cluster block shorter than code regions" (regionsAt g entry block)
        block.size (trailerSize block)).bind fun _ =>
        (decodeAddresses build block (regionsAt g entry block) (trailerSize block)
          entry.numRecords (addressesAt g.fileVersion block)).bind fun decoded =>
            (batchBlockOffsets g block entry.numRecords (regionsAt g entry block)).map
              fun offsets => parsedCluster g entry block.size (trailerSize block)
                (addressesAt g.fileVersion block) decoded offsets := by
  obtain ⟨magic, inside, accepts⟩ := hasTrailer_iff.1 trailer
  obtain ⟨read, -⟩ := @readTrailer_cases (storedTrailer block) entry.numRecords
    (trailerSize block) g viewMessages rfl
  rw [parseBlock, load32_inside (by omega), load32_inside (by omega)]
  simp only [Except.bind]
  have small : ¬ block.size < (wordAt block (block.size - 8)).toNat :=
    Nat.not_lt.2 inside
  rw [if_neg (not_not.2 magic), if_neg small]
  have stored : readTrailer viewMessages g entry.numRecords
      (trailerOf block (wordAt block (block.size - 8))) (wordAt block (block.size - 8)) =
        .ok (addressesAt g.fileVersion block) :=
    (read accepts).trans (congrArg _ trailerAddresses_trailer)
  rw [stored]
  rfl

/-- A block without a trailer is refused. -/
theorem parseBlock_refuses (footer : 8 ≤ block.size)
    (without : ¬ HasTrailer g.fileVersion entry.numRecords block) :
    Refuses (parseBlock build g entry block) := by
  rw [parseBlock, load32_inside (by omega), load32_inside (by omega)]
  simp only [Except.bind]
  split
  · exact refuses_corruption _
  · rename_i magic
    split
    · exact refuses_corruption _
    · rename_i inside
      obtain ⟨-, refused⟩ := @readTrailer_cases (storedTrailer block) entry.numRecords
        (trailerSize block) g viewMessages rfl
      exact (refused fun accepts => without
        (hasTrailer_iff.2 ⟨not_not.1 magic, Nat.not_lt.1 inside, accepts⟩)).bind _

/-- **A block that is not framed** is refused. -/
theorem parseBlock_unframed (footer : 8 ≤ block.size) (unframed : ¬ Framed g entry block) :
    Refuses (parseBlock build g entry block) := by
  by_cases trailer : HasTrailer g.fileVersion entry.numRecords block
  · rw [parseBlock_of_trailer build footer trailer]
    exact (checkRegions_refuses _ fun fill => unframed ⟨footer, trailer, fill⟩).bind _
  · exact parseBlock_refuses build footer trailer

/-- A block that passes every check. -/
structure Passes (g : ReaderGeometry) (entry : LookupEntry) (block : Buffer) : Prop where
  addresses : AddressesPass g entry block
  header : g.variableExBlocks = true →
    VariableHeader block entry.numRecords (regionsAt g entry block)

/-- The block is as the checks before the views need it. -/
structure ReadsFit (build : Build) (g : ReaderGeometry) (entry : LookupEntry) (block : Buffer) :
    Prop where
  addresses : AddressesFit build g entry block
  bits : AddressesPass g entry block → g.variableExBlocks = true →
    12 ≤ (regionsAt g entry block).region2Size → 0 < g.config.stage2PayloadBits

/-- **A block with trailer and regions** is parsed, refused or left. -/
theorem parseBlock_cases (footer : 8 ≤ block.size)
    (trailer : HasTrailer g.fileVersion entry.numRecords block)
    (fill : RegionsFill g entry block) :
    (ReadsFit build g entry block → Passes g entry block →
        ∃ decoded, decodeAddresses build block (regionsAt g entry block) (trailerSize block)
            entry.numRecords (addressesAt g.fileVersion block) = .ok decoded ∧
          parseBlock build g entry block = .ok (clusterAt g entry block decoded)) ∧
      (ReadsFit build g entry block → ¬ Passes g entry block →
        Refuses (parseBlock build g entry block)) ∧
      (¬ ReadsFit build g entry block → parseBlock build g entry block = .error .outOfBounds) := by
  obtain ⟨decoded, refused, left⟩ := decodeAddresses_cases build trailer fill
  rw [parseBlock_of_trailer build footer trailer, checkRegions_ok _ fill]
  simp only [Except.bind]
  refine ⟨fun fits passes => ?_, fun fits fails => ?_, fun unfit => ?_⟩
  · obtain ⟨entries, ok⟩ := decoded fits.addresses passes.addresses
    refine ⟨entries, ok, ?_⟩
    rw [ok, clusterAt, offsetsAt]
    by_cases varies : g.variableExBlocks = true
    · obtain ⟨whole, -⟩ := batchBlockOffsets_cases fill varies (fits.bits passes.addresses varies)
      simp only [whole (passes.header varies), if_pos varies]
      rfl
    · rw [batchBlockOffsets, if_neg varies, if_neg varies]
      rfl
  · by_cases pass : AddressesPass g entry block
    · obtain ⟨entries, ok⟩ := decoded fits.addresses pass
      rw [ok]
      by_cases varies : g.variableExBlocks = true
      · obtain ⟨-, cut⟩ := batchBlockOffsets_cases fill varies (fits.bits pass varies)
        exact (cut fun header => fails ⟨pass, fun _ => header⟩).map _
      · exact absurd ⟨pass, fun some => absurd some varies⟩ fails
    · exact (refused fits.addresses pass).bind _
  · by_cases fits : AddressesFit build g entry block
    · have bits : ¬ (AddressesPass g entry block → g.variableExBlocks = true →
          12 ≤ (regionsAt g entry block).region2Size → 0 < g.config.stage2PayloadBits) :=
        fun bits => unfit ⟨fits, bits⟩
      simp only [Classical.not_imp] at bits
      obtain ⟨pass, varies, room, zero⟩ := bits
      obtain ⟨entries, ok⟩ := decoded fits pass
      rw [ok, batchBlockOffsets_null varies room zero]
      rfl
    · rw [left fits]

end Parsing

/-! ## Views -/

/-- The bytes are those of the last of `n` equal steps, if there is one. -/
theorem last_step_iff {n step tail size : ℕ} :
    (∀ i, i < n → i * step + tail ≤ size) ↔ (0 < n → (n - 1) * step + tail ≤ size) := by
  constructor
  · intro each some
    exact each (n - 1) (by omega)
  · intro last i below
    have earlier : i * step ≤ (n - 1) * step := Nat.mul_le_mul_right _ (by omega)
    have fits := last (by omega)
    omega

namespace ParsedCluster

variable {pc : ParsedCluster} {block : Buffer}

/-- The view of a record is inside if its last field is. -/
theorem exrabitqView_inside {entries : ℕ} {dim : UInt32} (some : pc.exrabitqEntries = some entries)
    (version : pc.exrabitqStorageVersion < 11) (i : ℕ) :
    (pc.exrabitqView block i dim ≠ .error .outOfBounds ∧
        ∀ view, pc.exrabitqView block i dim = .ok view → view.Inside dim block.size) ↔
      entries + i * pc.exrabitqEntrySize.toNat + dim.toNat + pc.exrabitqSignBytes.toNat + 4 ≤
        block.size := by
  have unfolded : pc.exrabitqView block i dim =
      (load32 block (entries + i * pc.exrabitqEntrySize.toNat + dim.toNat +
        pc.exrabitqSignBytes.toNat)).map fun xipnorm =>
          { codeAbs := Option.some (entries + i * pc.exrabitqEntrySize.toNat)
            sign := Option.some (entries + i * pc.exrabitqEntrySize.toNat + dim.toNat)
            signBytes := pc.exrabitqSignBytes
            signPacked := pc.exrabitqSignPacked
            xipnorm := xipnorm } := by
    rw [exrabitqView, some]
    exact if_neg (UInt32.not_le.2 version)
  rw [unfolded]
  constructor
  · rintro ⟨reads, -⟩
    by_contra outside
    rw [load32_outside (by omega)] at reads
    exact reads rfl
  · intro inside
    rw [load32_inside inside]
    refine ⟨fun failed => (by cases failed), fun view same => ?_⟩
    cases same
    refine ⟨fun p at_p => ?_, fun p at_p => ?_⟩
    · cases at_p
      omega
    · cases at_p
      dsimp only
      omega

/-- No view of a record is read where there are no entries of records. -/
theorem exrabitqView_none {dim : UInt32} {i : ℕ}
    (none : pc.exrabitqEntries = none ∨ 11 ≤ pc.exrabitqStorageVersion) :
    pc.exrabitqView block i dim = .ok {} := by
  rw [exrabitqView]
  cases entries : pc.exrabitqEntries with
  | none => rfl
  | some start => exact if_pos (none.resolve_left (by simp [entries]))

theorem emptyView_inside (block : Buffer) (dim : UInt32) : pc.BatchInside {} block dim where
  abs p at_p := by cases at_p
  sign p at_p := by cases at_p
  xipnorms p at_p := by cases at_p
  factorAdds p at_p := by cases at_p
  factorRescales p at_p := by cases at_p

/-- A call that gives the view of nothing. -/
theorem ok_empty_inside (block : Buffer) (dim : UInt32) :
    (Except.ok {} : Result ExRaBitQBatchBlockView) ≠ .error .outOfBounds ∧
      ∀ view, (Except.ok {} : Result ExRaBitQBatchBlockView) = .ok view →
        pc.BatchInside view block dim := by
  refine ⟨fun failed => (by cases failed), fun view same => ?_⟩
  cases same
  exact emptyView_inside block dim

variable {batchBlockId blockBytes : UInt32} {start : ℕ}

/-- The bytes of a lane in a dim block, as the view takes them. -/
def laneBytes (pc : ParsedCluster) : UInt32 :=
  if pc.exrabitqAbsBytesPerLaneDimBlock ≠ 0 then pc.exrabitqAbsBytesPerLaneDimBlock
  else pc.exrabitqDimBlock

/-- The lanes a block with this count has. -/
def lanesOf (pc : ParsedCluster) (validCount : UInt32) : UInt32 :=
  if pc.exrabitqVariableBatchBlocks then validCount else pc.exrabitqBatchSize

def factorsOf (pc : ParsedCluster) (validCount : UInt32) : UInt32 :=
  if pc.usesOfficial1PlusN then pc.lanesOf validCount * 2 else pc.lanesOf validCount

/-- A view that is not empty. -/
def batchView (pc : ParsedCluster) (batchBlockId : UInt32) (start : ℕ)
    (blockBytes validCount : UInt32) : ExRaBitQBatchBlockView :=
  let factors := start + blockBytes.toNat - (pc.factorsOf validCount).toNat * 4
  { absBlocks := some (start + 4)
    signBlocks :=
      if pc.usesOfficial1PlusN then none
      else some (start + 4 +
        (pc.exrabitqNumDimBlocks * pc.lanesOf validCount * pc.laneBytes).toNat)
    xipnorms := if pc.usesOfficial1PlusN then none else some factors
    officialFactorAdds := if pc.usesOfficial1PlusN then some factors else none
    officialFactorRescales :=
      if pc.usesOfficial1PlusN then some (factors + (pc.lanesOf validCount).toNat * 4) else none
    validCount := validCount
    batchBlockId := batchBlockId
    absBytesPerLaneDimBlock := pc.laneBytes
    magnitudeBits := pc.exrabitqMagnitudeBits
    absPacked := pc.exrabitqMagnitudePacked
    exdataLayout := pc.rabitqExdataLayout
    batchBlockBytes := blockBytes }

/-- A block with a header that is read is viewed, or too short for its factors, or its count
is beyond the batch. -/
theorem batchViewAt_eq (enough : 4 ≤ blockBytes) (inside : start + 4 ≤ block.size) :
    pc.batchViewAt block batchBlockId start blockBytes =
      if pc.exrabitqBatchSize < wordAt block start then .ok {}
      else if blockBytes.toNat < (pc.factorsOf (wordAt block start)).toNat * 4 then .ok {}
      else .ok (pc.batchView batchBlockId start blockBytes (wordAt block start)) := by
  rw [batchViewAt, if_neg (UInt32.not_lt.2 enough), load32_inside inside]
  rfl

theorem batchViewAt_short (short : ¬ 4 ≤ blockBytes) :
    pc.batchViewAt block batchBlockId start blockBytes = .ok {} :=
  if_pos (UInt32.not_le.1 short)

theorem batchViewAt_outside (enough : 4 ≤ blockBytes) (outside : block.size < start + 4) :
    pc.batchViewAt block batchBlockId start blockBytes = .error .outOfBounds := by
  rw [batchViewAt, if_neg (UInt32.not_lt.2 enough), load32_outside outside]
  rfl

/-- The magnitudes of a block with this count, from `p` on. -/
def magnitudesAt (pc : ParsedCluster) (block : Buffer) (dim : UInt32) (storedLanes : ℕ)
    (validCount : UInt32) (p : ℕ) : ℕ :=
  magnitudeBytes pc.rabitqExdataLayout pc.exrabitqMagnitudeBits pc.laneBytes dim block storedLanes
    validCount.toNat p

section FixedBlocks

variable {validCount dim : UInt32}

/-- Fixed blocks have eight lanes, whatever their count says. -/
theorem fixed_lanes (fixed : pc.exrabitqVariableBatchBlocks = false)
    (eight : pc.exrabitqBatchSize = 8) (view : ExRaBitQBatchBlockView) :
    pc.lanesOf validCount = 8 ∧ pc.storedLanes view = 8 ∧
      ∀ p, pc.absBytes view block dim p =
        magnitudeBytes view.exdataLayout view.magnitudeBits view.absBytesPerLaneDimBlock dim block
          8 view.validCount.toNat p := by
  have stored : pc.storedLanes view = 8 := by simp [storedLanes, fixed, eight]
  refine ⟨by simp [lanesOf, fixed, eight], stored, fun p => ?_⟩
  rw [absBytes, stored]

/-- An official block of fixed size is inside with its magnitudes. -/
theorem batchView_official (fixed : pc.exrabitqVariableBatchBlocks = false)
    (eight : pc.exrabitqBatchSize = 8) (official : pc.usesOfficial1PlusN = true)
    (factors : (pc.factorsOf validCount).toNat * 4 ≤ blockBytes.toNat) :
    pc.BatchInside (pc.batchView batchBlockId start blockBytes validCount) block dim ↔
      start + blockBytes.toNat ≤ block.size ∧
        start + 4 + pc.magnitudesAt block dim 8 validCount (start + 4) ≤ block.size := by
  obtain ⟨lanes, stored, abs⟩ := @fixed_lanes pc block validCount dim fixed eight
    (pc.batchView batchBlockId start blockBytes validCount)
  have count : (pc.factorsOf validCount).toNat = 16 := by
    simp [factorsOf, official, lanes]
  rw [count] at factors
  constructor
  · intro inside
    have magnitudes := inside.abs _ rfl
    have rescales := inside.factorRescales (start + blockBytes.toNat - 16 * 4 + 8 * 4)
      (by simp [batchView, official, count, lanes])
    rw [abs] at magnitudes
    rw [stored] at rescales
    exact ⟨by omega, magnitudes⟩
  · rintro ⟨whole, magnitudes⟩
    refine ⟨fun p at_p => ?_, fun p at_p => ?_, fun p at_p => ?_, fun p at_p => ?_,
      fun p at_p => ?_⟩
    · cases at_p
      rw [abs]
      exact magnitudes
    · simp [batchView, official] at at_p
    · simp [batchView, official] at at_p
    · simp only [batchView, official, count, if_true, Option.mem_some_iff] at at_p
      rw [stored]
      omega
    · simp only [batchView, official, count, lanes, if_true, Option.mem_some_iff,
        UInt32.reduceToNat] at at_p
      rw [stored]
      omega

/-- A legacy block of fixed size is inside with its magnitudes and signs. -/
theorem batchView_legacy (fixed : pc.exrabitqVariableBatchBlocks = false)
    (eight : pc.exrabitqBatchSize = 8) (legacy : pc.usesOfficial1PlusN = false)
    (factors : (pc.factorsOf validCount).toNat * 4 ≤ blockBytes.toNat) :
    pc.BatchInside (pc.batchView batchBlockId start blockBytes validCount) block dim ↔
      start + blockBytes.toNat ≤ block.size ∧
        start + 4 + pc.magnitudesAt block dim 8 validCount (start + 4) ≤ block.size ∧
          start + 4 + (pc.exrabitqNumDimBlocks * 8 * pc.laneBytes).toNat +
            pc.exrabitqNumDimBlocks.toNat * 8 * 8 ≤ block.size := by
  obtain ⟨lanes, stored, abs⟩ := @fixed_lanes pc block validCount dim fixed eight
    (pc.batchView batchBlockId start blockBytes validCount)
  have count : (pc.factorsOf validCount).toNat = 8 := by
    simp [factorsOf, legacy, lanes]
  rw [count] at factors
  constructor
  · intro inside
    have magnitudes := inside.abs _ rfl
    have norms := inside.xipnorms (start + blockBytes.toNat - 8 * 4)
      (by simp [batchView, legacy, count])
    have signs := inside.sign (start + 4 + (pc.exrabitqNumDimBlocks * 8 * pc.laneBytes).toNat)
      (by simp [batchView, legacy, lanes])
    rw [abs] at magnitudes
    rw [stored] at norms signs
    exact ⟨by omega, magnitudes, signs⟩
  · rintro ⟨whole, magnitudes, signs⟩
    refine ⟨fun p at_p => ?_, fun p at_p => ?_, fun p at_p => ?_, fun p at_p => ?_,
      fun p at_p => ?_⟩
    · cases at_p
      rw [abs]
      exact magnitudes
    · simp only [batchView, legacy, lanes, Bool.false_eq_true, if_false,
        Option.mem_some_iff] at at_p
      rw [stored, ← at_p]
      exact signs
    · simp only [batchView, legacy, count, Bool.false_eq_true, if_false,
        Option.mem_some_iff] at at_p
      rw [stored]
      omega
    · simp [batchView, legacy] at at_p
    · simp [batchView, legacy] at at_p

/-- A batch block of fixed size is inside with its magnitudes and signs. -/
theorem batchView_fixed (fixed : pc.exrabitqVariableBatchBlocks = false)
    (eight : pc.exrabitqBatchSize = 8)
    (factors : (pc.factorsOf validCount).toNat * 4 ≤ blockBytes.toNat) :
    pc.BatchInside (pc.batchView batchBlockId start blockBytes validCount) block dim ↔
      start + blockBytes.toNat ≤ block.size ∧
        start + 4 + pc.magnitudesAt block dim 8 validCount (start + 4) ≤ block.size ∧
          (pc.usesOfficial1PlusN = false →
            start + 4 + (pc.exrabitqNumDimBlocks * 8 * pc.laneBytes).toNat +
              pc.exrabitqNumDimBlocks.toNat * 8 * 8 ≤ block.size) := by
  cases official : pc.usesOfficial1PlusN with
  | true =>
      rw [batchView_official fixed eight official factors]
      exact and_congr_right fun _ => (and_iff_left fun legacy => by cases legacy).symm
  | false =>
      rw [batchView_legacy fixed eight official factors]
      exact and_congr_right fun _ => and_congr_right fun _ =>
        ⟨fun signs _ => signs, fun signs => signs rfl⟩

end FixedBlocks

section VariableBlocks

variable {validCount dim : UInt32}

/-- The factors of a varying block end with it, so its view is inside exactly if the magnitudes
are. -/
theorem batchView_variable (varies : pc.exrabitqVariableBatchBlocks = true)
    (official : pc.usesOfficial1PlusN = true) (few : validCount ≤ 8)
    (factors : (pc.factorsOf validCount).toNat * 4 ≤ blockBytes.toNat)
    (inside : start + blockBytes.toNat ≤ block.size) :
    pc.BatchInside (pc.batchView batchBlockId start blockBytes validCount) block dim ↔
      start + 4 + pc.magnitudesAt block dim validCount.toNat validCount (start + 4) ≤ block.size := by
  have lanes : pc.lanesOf validCount = validCount := by simp [lanesOf, varies]
  have eight : validCount.toNat ≤ 8 := UInt32.le_iff_toNat_le.1 few
  have count : (pc.factorsOf validCount).toNat = 2 * validCount.toNat := by
    rw [factorsOf, if_pos official, lanes, UInt32.toNat_mul, Nat.mul_comm]
    exact Nat.mod_eq_of_lt (by simp only [UInt32.reduceToNat]; omega)
  have stored : pc.storedLanes (pc.batchView batchBlockId start blockBytes validCount) =
      validCount.toNat := by
    rw [storedLanes, if_pos varies]
    rfl
  have abs : ∀ p, pc.absBytes (pc.batchView batchBlockId start blockBytes validCount) block dim p =
      pc.magnitudesAt block dim validCount.toNat validCount p := by
    intro p
    rw [absBytes, stored]
    rfl
  rw [count] at factors
  constructor
  · intro views
    have magnitudes := views.abs _ rfl
    rwa [abs] at magnitudes
  · intro magnitudes
    refine ⟨fun p at_p => ?_, fun p at_p => ?_, fun p at_p => ?_, fun p at_p => ?_,
      fun p at_p => ?_⟩
    · cases at_p
      rw [abs]
      exact magnitudes
    · simp [batchView, official] at at_p
    · simp [batchView, official] at at_p
    · simp only [batchView, official, count, if_true, Option.mem_some_iff] at at_p
      rw [stored]
      omega
    · simp only [batchView, official, count, lanes, if_true, Option.mem_some_iff] at at_p
      rw [stored]
      omega

/-- The view of a varying batch block inside the block is inside it exactly if the magnitudes
are, where it is not empty. -/
theorem batchViewAt_variable (varies : pc.exrabitqVariableBatchBlocks = true)
    (official : pc.usesOfficial1PlusN = true) (eight : pc.exrabitqBatchSize = 8)
    (inside : start + blockBytes.toNat ≤ block.size) :
    (pc.batchViewAt block batchBlockId start blockBytes ≠ .error .outOfBounds ∧
        ∀ view, pc.batchViewAt block batchBlockId start blockBytes = .ok view →
          pc.BatchInside view block dim) ↔
      (4 ≤ blockBytes → wordAt block start ≤ 8 →
        8 * (wordAt block start).toNat ≤ blockBytes.toNat →
          start + 4 + pc.magnitudesAt block dim (wordAt block start).toNat (wordAt block start) (start + 4) ≤
            block.size) := by
  by_cases enough : 4 ≤ blockBytes
  · have four : 4 ≤ blockBytes.toNat := UInt32.le_iff_toNat_le.1 enough
    rw [batchViewAt_eq enough (by omega), eight]
    by_cases few : wordAt block start ≤ 8
    · have lanes : (wordAt block start).toNat ≤ 8 := UInt32.le_iff_toNat_le.1 few
      have count : (pc.factorsOf (wordAt block start)).toNat * 4 =
          8 * (wordAt block start).toNat := by
        have same : pc.lanesOf (wordAt block start) = wordAt block start := by
          simp [lanesOf, varies]
        rw [factorsOf, if_pos official, same, UInt32.toNat_mul]
        simp only [UInt32.reduceToNat]
        omega
      rw [if_neg (UInt32.not_lt.2 few)]
      by_cases factors : 8 * (wordAt block start).toNat ≤ blockBytes.toNat
      · rw [if_neg (by omega)]
        have views := @batchView_variable pc block batchBlockId blockBytes start
          (wordAt block start) dim varies official few (by omega) inside
        constructor
        · rintro ⟨-, given⟩ _ _ _
          exact views.1 (given _ rfl)
        · intro fits
          refine ⟨fun failed => (by cases failed), fun view same => ?_⟩
          cases same
          exact views.2 (fits enough few factors)
      · rw [if_pos (by omega)]
        exact iff_of_true (ok_empty_inside block dim) fun _ _ room => absurd room factors
    · rw [if_pos (UInt32.not_le.1 few)]
      exact iff_of_true (ok_empty_inside block dim) fun _ count => absurd count few
  · rw [batchViewAt_short enough]
    exact iff_of_true (ok_empty_inside block dim) fun room => absurd room enough

end VariableBlocks

/-- The view of a batch block of fixed size is read and given inside exactly if it is inside
where it is not empty. -/
theorem batchViewAt_fixed {dim : UInt32} (fixed : pc.exrabitqVariableBatchBlocks = false)
    (eight : pc.exrabitqBatchSize = 8) :
    (pc.batchViewAt block batchBlockId start blockBytes ≠ .error .outOfBounds ∧
        ∀ view, pc.batchViewAt block batchBlockId start blockBytes = .ok view →
          pc.BatchInside view block dim) ↔
      (4 ≤ blockBytes → start + 4 ≤ block.size ∧
        (wordAt block start ≤ 8 →
          (pc.factorsOf (wordAt block start)).toNat * 4 ≤ blockBytes.toNat →
            start + blockBytes.toNat ≤ block.size ∧
              start + 4 + pc.magnitudesAt block dim 8 (wordAt block start) (start + 4) ≤
                  block.size ∧
                (pc.usesOfficial1PlusN = false →
                  start + 4 + (pc.exrabitqNumDimBlocks * 8 * pc.laneBytes).toNat +
                    pc.exrabitqNumDimBlocks.toNat * 8 * 8 ≤ block.size))) := by
  by_cases enough : 4 ≤ blockBytes
  · by_cases header : start + 4 ≤ block.size
    · rw [batchViewAt_eq enough header, eight]
      by_cases few : wordAt block start ≤ 8
      · rw [if_neg (UInt32.not_lt.2 few)]
        by_cases factors :
            (pc.factorsOf (wordAt block start)).toNat * 4 ≤ blockBytes.toNat
        · rw [if_neg (Nat.not_lt.2 factors)]
          constructor
          · rintro ⟨-, views⟩ _
            exact ⟨header, fun _ _ => (batchView_fixed fixed eight factors).1 (views _ rfl)⟩
          · intro fits
            refine ⟨fun failed => (by cases failed), fun view same => ?_⟩
            cases same
            exact (batchView_fixed fixed eight factors).2 ((fits enough).2 few factors)
        · rw [if_pos (Nat.not_le.1 factors)]
          exact iff_of_true (ok_empty_inside block dim)
            fun _ => ⟨header, fun _ room => absurd room factors⟩
      · rw [if_pos (UInt32.not_le.1 few)]
        exact iff_of_true (ok_empty_inside block dim)
          fun _ => ⟨header, fun count => absurd count few⟩
    · rw [batchViewAt_outside enough (Nat.not_le.1 header)]
      exact iff_of_false (fun inside => inside.1 rfl) fun fits => header (fits enough).1
  · rw [batchViewAt_short enough]
    exact iff_of_true (ok_empty_inside block dim) fun room => absurd room enough

end ParsedCluster

/-! ## The cluster of a block -/

section Cluster

variable {g : ReaderGeometry} {entry : LookupEntry} {block : Buffer}
  (decoded : List AddressEntry)

theorem clusterAt_fastscan :
    (∀ b, b < (clusterAt g entry block decoded).numFastscanBlocks.toNat →
        (clusterAt g entry block decoded).fastscanBlocks +
            b * (clusterAt g entry block decoded).fastscanBlockSize.toNat +
              (clusterAt g entry block decoded).fastscanBlockSize.toNat ≤ block.size ∧
          (clusterAt g entry block decoded).normsAt b + 128 ≤ block.size) ↔
      (0 < entry.numFastscanBlocks.toNat →
        (entry.numFastscanBlocks.toNat - 1) * g.fastscanBlockBytes.toNat +
            g.fastscanBlockBytes.toNat ≤ block.size ∧
          (entry.numFastscanBlocks.toNat - 1) * g.fastscanBlockBytes.toNat +
            (g.fastscanBlockBytes - 128).toNat + 128 ≤ block.size) := by
  have codes := @last_step_iff entry.numFastscanBlocks.toNat g.fastscanBlockBytes.toNat
    g.fastscanBlockBytes.toNat block.size
  have norms := @last_step_iff entry.numFastscanBlocks.toNat g.fastscanBlockBytes.toNat
    ((g.fastscanBlockBytes - 128).toNat + 128) block.size
  simp only [clusterAt, parsedCluster, ParsedCluster.normsAt, Nat.zero_add, Nat.add_assoc] at *
  rw [forall₂_and, codes, norms, imp_and]

theorem clusterAt_records :
    (∀ i, i < (clusterAt g entry block decoded).numRecords.toNat →
        (clusterAt g entry block decoded).exrabitqView block i g.dim ≠ .error .outOfBounds ∧
          ∀ view, (clusterAt g entry block decoded).exrabitqView block i g.dim = .ok view →
            view.Inside g.dim block.size) ↔
      (g.fileVersion < 11 → 0 < g.exrabitqEntrySize → 0 < entry.numRecords.toNat →
        (regionsAt g entry block).region1Size.toNat +
          (entry.numRecords.toNat - 1) * g.exrabitqEntrySize.toNat + g.dim.toNat +
            g.exrabitqSignBytes.toNat + 4 ≤ block.size) := by
  by_cases read : g.fileVersion < 11 ∧ 0 < g.exrabitqEntrySize
  · have entries : (clusterAt g entry block decoded).exrabitqEntries =
        some (regionsAt g entry block).region1Size.toNat := if_pos read.2
    have each : ∀ i, ((clusterAt g entry block decoded).exrabitqView block i g.dim ≠
          .error .outOfBounds ∧
        ∀ view, (clusterAt g entry block decoded).exrabitqView block i g.dim = .ok view →
          view.Inside g.dim block.size) ↔
        (regionsAt g entry block).region1Size.toNat + i * g.exrabitqEntrySize.toNat +
          g.dim.toNat + g.exrabitqSignBytes.toNat + 4 ≤ block.size :=
      ParsedCluster.exrabitqView_inside entries read.1
    have records : (clusterAt g entry block decoded).numRecords = entry.numRecords := rfl
    simp only [each, records]
    have last := @last_step_iff entry.numRecords.toNat g.exrabitqEntrySize.toNat
      ((regionsAt g entry block).region1Size.toNat + g.dim.toNat + g.exrabitqSignBytes.toNat + 4)
      block.size
    have order : ∀ i, (regionsAt g entry block).region1Size.toNat +
        i * g.exrabitqEntrySize.toNat + g.dim.toNat + g.exrabitqSignBytes.toNat + 4 =
          i * g.exrabitqEntrySize.toNat + ((regionsAt g entry block).region1Size.toNat +
            g.dim.toNat + g.exrabitqSignBytes.toNat + 4) := fun i => by omega
    simp only [order]
    constructor
    · intro inside _ _
      exact last.1 inside
    · intro fits
      exact last.2 (fits read.1 read.2)
  · refine iff_of_true (fun i _ => ?_) fun version some => absurd ⟨version, some⟩ read
    have none : (clusterAt g entry block decoded).exrabitqEntries = none ∨
        11 ≤ (clusterAt g entry block decoded).exrabitqStorageVersion := by
      rcases not_and_or.1 read with version | empty
      · exact .inr (UInt32.not_lt.1 version)
      · exact .inl (if_neg empty)
    rw [ParsedCluster.exrabitqView_none none]
    refine ⟨fun failed => (by cases failed), fun view same => ?_⟩
    cases same
    exact ⟨fun p at_p => (by cases at_p), fun p at_p => (by cases at_p)⟩

/-- The region of extra codes, from version 11 on where there are any. -/
theorem clusterAt_batchBlocks : (clusterAt g entry block decoded).exrabitqBatchBlocks =
    if 11 ≤ g.fileVersion ∧ 0 < g.config.stage2PayloadBits then
      some (regionsAt g entry block).region1Size.toNat
    else none := rfl

theorem clusterAt_batch_none (stored : ¬ (11 ≤ g.fileVersion ∧ 0 < g.config.stage2PayloadBits))
    (b : UInt32) : (clusterAt g entry block decoded).batchBlock block b = .ok none := by
  have blocks : (clusterAt g entry block decoded).exrabitqBatchBlocks = none :=
    (clusterAt_batchBlocks decoded).trans (if_neg stored)
  rw [ParsedCluster.batchBlock, blocks]

/-- The batch size and the dim block are not 0. -/
theorem clusterAt_used {b : UInt32} (below : b < numBatchBlocks entry.numRecords) :
    ¬ ((clusterAt g entry block decoded).exrabitqNumBatchBlocks ≤ b ∨
      (clusterAt g entry block decoded).exrabitqBatchSize = 0 ∨
        (clusterAt g entry block decoded).exrabitqDimBlock = 0) := by
  rintro (past | none | none)
  · exact UInt32.not_le.2 below past
  · exact absurd none (show ¬ (8 : UInt32) = 0 by decide)
  · exact absurd none (show ¬ (64 : UInt32) = 0 by decide)

/-- Fixed batch blocks lie behind each other. -/
theorem clusterAt_batch_fixed (fixed : g.variableExBlocks = false)
    (stored : 11 ≤ g.fileVersion ∧ 0 < g.config.stage2PayloadBits) {b : UInt32}
    (below : b < numBatchBlocks entry.numRecords) :
    (clusterAt g entry block decoded).batchBlock block b =
      if g.exrabitqBatchBlockSize = 0 then .ok none
      else .ok (some ⟨(regionsAt g entry block).region1Size.toNat +
        b.toNat * g.exrabitqBatchBlockSize.toNat, g.exrabitqBatchBlockSize⟩) := by
  have used := @clusterAt_used g entry block decoded b below
  set pc := clusterAt g entry block decoded with pcDef
  have blocks : pc.exrabitqBatchBlocks = some (regionsAt g entry block).region1Size.toNat :=
    (clusterAt_batchBlocks decoded).trans (if_pos stored)
  have varies : pc.exrabitqVariableBatchBlocks = false := fixed
  have size : pc.exrabitqBatchBlockSize = g.exrabitqBatchBlockSize := if_neg (by simp [fixed])
  rw [ParsedCluster.batchBlock, blocks]
  dsimp only
  rw [if_neg used, if_neg (by simp [varies]), size]

/-- A fixed batch block is viewed inside exactly if it is as `BatchFits` says. -/
theorem clusterAt_batch_iff (fixed : g.variableExBlocks = false)
    (stored : 11 ≤ g.fileVersion ∧ 0 < g.config.stage2PayloadBits) {b : UInt32}
    (below : b < numBatchBlocks entry.numRecords) :
    ((clusterAt g entry block decoded).exrabitqBatchBlockView block b ≠ .error .outOfBounds ∧
        ∀ view, (clusterAt g entry block decoded).exrabitqBatchBlockView block b = .ok view →
          (clusterAt g entry block decoded).BatchInside view block g.dim) ↔
      BatchFits g block ((regionsAt g entry block).region1Size.toNat +
        b.toNat * g.exrabitqBatchBlockSize.toNat) := by
  rw [ParsedCluster.exrabitqBatchBlockView, clusterAt_batch_fixed decoded fixed stored below]
  set pc := clusterAt g entry block decoded with pcDef
  have varies : pc.exrabitqVariableBatchBlocks = false := fixed
  by_cases zero : g.exrabitqBatchBlockSize = 0
  · rw [if_pos zero]
    refine iff_of_true (ParsedCluster.ok_empty_inside block g.dim) fun room => ?_
    rw [zero] at room
    exact absurd room (by decide)
  · have factors : ∀ v, (pc.factorsOf v).toNat * 4 =
        if g.config.usesOfficial1PlusN then 64 else 32 := by
      intro v
      have lanes : pc.lanesOf v = 8 := if_neg (by simp [varies])
      have mode : pc.usesOfficial1PlusN = g.config.usesOfficial1PlusN := rfl
      rw [ParsedCluster.factorsOf, mode, lanes]
      split <;> rfl
    rw [if_neg zero]
    simp only [Except.bind]
    rw [ParsedCluster.batchViewAt_fixed varies rfl]
    simp only [factors]
    rfl

/-- Fixed batch blocks are viewed inside exactly if each is as `BatchFits` says. -/
theorem clusterAt_fixed (fixed : g.variableExBlocks = false) :
    (∀ b : UInt32, b < (clusterAt g entry block decoded).exrabitqNumBatchBlocks →
        (clusterAt g entry block decoded).exrabitqBatchBlockView block b ≠ .error .outOfBounds ∧
          ∀ view, (clusterAt g entry block decoded).exrabitqBatchBlockView block b = .ok view →
            (clusterAt g entry block decoded).BatchInside view block g.dim) ↔
      (11 ≤ g.fileVersion → 0 < g.config.stage2PayloadBits →
        ∀ b, b < (numBatchBlocks entry.numRecords).toNat →
          BatchFits g block ((regionsAt g entry block).region1Size.toNat +
            b * g.exrabitqBatchBlockSize.toNat)) := by
  by_cases stored : 11 ≤ g.fileVersion ∧ 0 < g.config.stage2PayloadBits
  · constructor
    · intro inside _ _ b below
      have small : b < 2 ^ 32 := below.trans (numBatchBlocks entry.numRecords).toNat_lt
      have same : (UInt32.ofNat b).toNat = b := UInt32.toNat_ofNat_of_lt' small
      have within : UInt32.ofNat b < numBatchBlocks entry.numRecords := by
        rw [UInt32.lt_iff_toNat_lt, same]
        exact below
      have fits := (clusterAt_batch_iff decoded fixed stored within).1 (inside _ within)
      rwa [same] at fits
    · intro fits b below
      exact (clusterAt_batch_iff decoded fixed stored below).2
        (fits stored.1 stored.2 b.toNat (UInt32.lt_iff_toNat_lt.1 below))
  · refine iff_of_true (fun b _ => ?_) fun version bits => absurd ⟨version, bits⟩ stored
    rw [ParsedCluster.exrabitqBatchBlockView, clusterAt_batch_none decoded stored b]
    exact ParsedCluster.ok_empty_inside block g.dim

/-- Varying batch blocks lie where the offsets behind the header say, if they say so in order. -/
theorem clusterAt_batch_variable (fill : RegionsFill g entry block)
    (varies : g.variableExBlocks = true) (bits : 0 < g.config.stage2PayloadBits)
    (header : VariableHeader block entry.numRecords (regionsAt g entry block)) {b : UInt32}
    (below : b < numBatchBlocks entry.numRecords) :
    let offset (k : ℕ) := wordAt block ((regionsAt g entry block).region1Size.toNat + 8 + 4 * k)
    (clusterAt g entry block decoded).batchBlock block b =
      .ok (if offset (b.toNat + 1) < offset b.toNat ∨
          (regionsAt g entry block).region2Size < offset (b.toNat + 1) then none
        else some ⟨(regionsAt g entry block).region1Size.toNat + (offset b.toNat).toNat,
          offset (b.toNat + 1) - offset b.toNat⟩) := by
  intro offset
  have used := @clusterAt_used g entry block decoded b below
  set pc := clusterAt g entry block decoded with pcDef
  have blocks : pc.exrabitqBatchBlocks = some (regionsAt g entry block).region1Size.toNat :=
    (clusterAt_batchBlocks decoded).trans (if_pos ⟨version_of_variable varies, bits⟩)
  have offsets : pc.exrabitqBatchBlockOffsets =
      some ((regionsAt g entry block).region1Size.toNat + 8) := if_pos varies
  have varying : pc.exrabitqVariableBatchBlocks = true := varies
  have region : pc.exrabitqBatchRegionBytes = (regionsAt g entry block).region2Size := rfl
  have count : pc.exrabitqNumBatchBlocks = numBatchBlocks entry.numRecords := rfl
  have within := region2_inside (version_of_variable varies) fill header.room
  have table := header.table
  rw [UInt32.lt_iff_toNat_lt] at below
  have next : (b + 1).toNat = b.toNat + 1 := by
    have width := (numBatchBlocks entry.numRecords).toNat_lt
    rw [UInt32.toNat_add]
    exact Nat.mod_eq_of_lt (by simp only [UInt32.reduceToNat]; omega)
  have last : ¬ pc.exrabitqNumBatchBlocks + 1 ≤ b + 1 := by
    rw [count, UInt32.le_iff_toNat_le, numBatchBlocks_succ, next]
    omega
  rw [numBatchBlocks_succ] at table
  rw [ParsedCluster.batchBlock, blocks, offsets, varying, region]
  dsimp only
  rw [if_neg used, if_pos rfl, if_neg last, load32_inside (by omega),
    load32_inside (by omega), next]
  rfl

/-- A varying batch block behind its header is viewed inside exactly if it is as
`VariableBatchFits` says: the offsets are compared with the region, the magnitudes are not. -/
theorem clusterAt_variable_iff (fill : RegionsFill g entry block)
    (varies : g.variableExBlocks = true) (bits : 0 < g.config.stage2PayloadBits)
    (header : VariableHeader block entry.numRecords (regionsAt g entry block)) {b : UInt32}
    (below : b < numBatchBlocks entry.numRecords) :
    ((clusterAt g entry block decoded).exrabitqBatchBlockView block b ≠ .error .outOfBounds ∧
        ∀ view, (clusterAt g entry block decoded).exrabitqBatchBlockView block b = .ok view →
          (clusterAt g entry block decoded).BatchInside view block g.dim) ↔
      VariableBatchFits g block (regionsAt g entry block) b.toNat := by
  have within := region2_inside (version_of_variable varies) fill header.room
  rw [ParsedCluster.exrabitqBatchBlockView,
    clusterAt_batch_variable decoded fill varies bits header below, VariableBatchFits]
  simp only [Except.bind]
  set offset : ℕ → UInt32 :=
    fun k => wordAt block ((regionsAt g entry block).region1Size.toNat + 8 + 4 * k) with offsetDef
  set pc := clusterAt g entry block decoded with pcDef
  by_cases ordered : offset b.toNat ≤ offset (b.toNat + 1) ∧
      offset (b.toNat + 1) ≤ (regionsAt g entry block).region2Size
  · have official : pc.usesOfficial1PlusN = true := official_of_variable varies
    have eight : pc.exrabitqBatchSize = 8 := rfl
    have size := UInt32.toNat_sub_of_le _ _ ordered.1
    rw [UInt32.le_iff_toNat_le, UInt32.le_iff_toNat_le] at ordered
    have inside : (regionsAt g entry block).region1Size.toNat + (offset b.toNat).toNat +
        (offset (b.toNat + 1) - offset b.toNat).toNat ≤ block.size := by omega
    rw [if_neg (by simp only [not_or, UInt32.not_lt, UInt32.le_iff_toNat_le]; exact ordered)]
    dsimp only
    rw [ParsedCluster.batchViewAt_variable varies official eight inside]
    constructor
    · intro fits _ _
      exact fits
    · intro fits
      exact fits (UInt32.le_iff_toNat_le.2 ordered.1) (UInt32.le_iff_toNat_le.2 ordered.2)
  · rw [if_pos (by simpa only [not_and_or, UInt32.not_le] using ordered)]
    exact iff_of_true (ParsedCluster.ok_empty_inside block g.dim)
      fun first second => absurd ⟨first, second⟩ ordered

/-- Varying batch blocks are viewed inside exactly if each is as `VariableBatchFits` says. -/
theorem clusterAt_variable (fill : RegionsFill g entry block) (varies : g.variableExBlocks = true)
    (header : VariableHeader block entry.numRecords (regionsAt g entry block)) :
    (∀ b : UInt32, b < (clusterAt g entry block decoded).exrabitqNumBatchBlocks →
        (clusterAt g entry block decoded).exrabitqBatchBlockView block b ≠ .error .outOfBounds ∧
          ∀ view, (clusterAt g entry block decoded).exrabitqBatchBlockView block b = .ok view →
            (clusterAt g entry block decoded).BatchInside view block g.dim) ↔
      (0 < g.config.stage2PayloadBits → ∀ b, b < (numBatchBlocks entry.numRecords).toNat →
        VariableBatchFits g block (regionsAt g entry block) b) := by
  by_cases bits : 0 < g.config.stage2PayloadBits
  · constructor
    · intro inside _ b below
      have small : b < 2 ^ 32 := below.trans (numBatchBlocks entry.numRecords).toNat_lt
      have same : (UInt32.ofNat b).toNat = b := UInt32.toNat_ofNat_of_lt' small
      have counted : UInt32.ofNat b < numBatchBlocks entry.numRecords := by
        rw [UInt32.lt_iff_toNat_lt, same]
        exact below
      have fits := (clusterAt_variable_iff decoded fill varies bits header counted).1
        (inside _ counted)
      rwa [same] at fits
    · intro fits b below
      exact (clusterAt_variable_iff decoded fill varies bits header below).2
        (fits bits b.toNat (UInt32.lt_iff_toNat_lt.1 below))
  · refine iff_of_true (fun b _ => ?_) fun some => absurd some bits
    rw [ParsedCluster.exrabitqBatchBlockView,
      clusterAt_batch_none decoded (fun both => bits both.2)]
    exact ParsedCluster.ok_empty_inside block g.dim

/-- **The views of a parsed cluster** are inside exactly if the last FastScan block, the last
record and the batch blocks are. -/
theorem clusterAt_inside (fill : RegionsFill g entry block) (passes : Passes g entry block) :
    (clusterAt g entry block decoded).Inside block g.dim ↔ ViewsFit g entry block := by
  constructor
  · intro inside
    refine ⟨(clusterAt_fastscan decoded).1 inside.fastscan,
      (clusterAt_records decoded).1 inside.records, fun version bits fixed => ?_,
      fun bits varies => ?_⟩
    · exact (clusterAt_fixed decoded fixed).1 inside.batches version bits
    · exact (clusterAt_variable decoded fill varies (passes.header varies)).1 inside.batches bits
  · intro fits
    refine ⟨(clusterAt_fastscan decoded).2 fits.fastscan,
      (clusterAt_records decoded).2 fits.records, ?_⟩
    cases varies : g.variableExBlocks with
    | true =>
        exact (clusterAt_variable decoded fill varies (passes.header varies)).2 fun bits =>
          fits.varying bits varies
    | false =>
        exact (clusterAt_fixed decoded varies).2 fun version bits =>
          fits.batches version bits varies

end Cluster

/-! ## The call -/

section Call

variable (build : Build) (g : ReaderGeometry)

theorem blockInside_of_refuses {entry : LookupEntry} {block : Buffer}
    (refused : Refuses (parseBlock build g entry block)) : BlockInside build g entry block := by
  obtain ⟨code, message, same⟩ := refused
  refine ⟨?_, ?_⟩
  · rw [same]
    intro failed
    cases failed
  · rw [same]
    intro pc ok
    cases ok

/-- A block with a footer is parsed inside exactly if it fits where its trailer and its regions
pass. -/
theorem blockInside_iff {entry : LookupEntry} {block : Buffer} (footer : 8 ≤ block.size) :
    BlockInside build g entry block ↔
      (HasTrailer g.fileVersion entry.numRecords block → RegionsFill g entry block →
        BlockFits build g entry block) := by
  by_cases framed : Framed g entry block
  · obtain ⟨-, trailer, fill⟩ := framed
    obtain ⟨parsed, refused, left⟩ := parseBlock_cases build footer trailer fill
    constructor
    · intro inside _ _
      have fits : ReadsFit build g entry block := by
        by_contra unfit
        exact inside.reads (left unfit)
      refine ⟨fits.addresses, fits.bits, fun pass header => ?_⟩
      obtain ⟨decoded, -, ok⟩ := parsed fits ⟨pass, header⟩
      exact (clusterAt_inside decoded fill ⟨pass, header⟩).1 (inside.views _ ok)
    · intro fits
      obtain ⟨addresses, bits, views⟩ := fits trailer fill
      by_cases passes : Passes g entry block
      · obtain ⟨decoded, -, ok⟩ := parsed ⟨addresses, bits⟩ passes
        refine ⟨?_, fun pc same => ?_⟩
        · rw [ok]
          intro failed
          cases failed
        · obtain rfl := Except.ok.inj (ok.symm.trans same)
          exact (clusterAt_inside decoded fill passes).2
            (views passes.addresses passes.header)
      · exact blockInside_of_refuses build g (refused ⟨addresses, bits⟩ passes)
  · exact iff_of_true
      (blockInside_of_refuses build g (parseBlock_unframed build footer framed))
      fun trailer fill => absurd ⟨footer, trailer, fill⟩ framed

/-- The call returns an error, or a cluster that is inside the buffer; nothing is read outside. -/
structure ParsesInside (clusterId : UInt32) (found : Option LookupEntry)
    (blockPtr : Option (ℕ → UInt8)) (blockSize : UInt64) : Prop where
  reads : parseClusterBlockView build g clusterId found blockPtr blockSize ≠ .error .outOfBounds
  views : ∀ pc, parseClusterBlockView build g clusterId found blockPtr blockSize = .ok pc →
    ∃ bytes, blockPtr = some bytes ∧ pc.Inside ⟨blockSize.toNat, bytes⟩ g.dim

/-- A block of the size that its entry says. -/
theorem parsesInside_found {clusterId : UInt32} {entry : LookupEntry} {bytes : ℕ → UInt8}
    {blockSize : UInt64} (same : blockSize.toNat = entry.blockSize) (footer : 8 ≤ blockSize) :
    ParsesInside build g clusterId (some entry) (some bytes) blockSize ↔
      BlockInside build g entry ⟨blockSize.toNat, bytes⟩ := by
  have call : parseClusterBlockView build g clusterId (some entry) (some bytes) blockSize =
      parseBlock build g entry ⟨blockSize.toNat, bytes⟩ := by
    rw [parseClusterBlockView, if_neg (not_not.2 same), if_neg (UInt64.not_lt.2 footer)]
  constructor
  · rintro ⟨reads, views⟩
    rw [call] at reads views
    refine ⟨reads, fun pc ok => ?_⟩
    obtain ⟨bytes', there, inside⟩ := views pc ok
    cases there
    exact inside
  · rintro ⟨reads, views⟩
    refine ⟨by rwa [call], fun pc ok => ⟨bytes, rfl, views pc ?_⟩⟩
    rwa [call] at ok

theorem parsesInside_of_refuses {clusterId : UInt32} {found : Option LookupEntry}
    {blockPtr : Option (ℕ → UInt8)} {blockSize : UInt64}
    (refused : Refuses (parseClusterBlockView build g clusterId found blockPtr blockSize)) :
    ParsesInside build g clusterId found blockPtr blockSize := by
  obtain ⟨code, message, same⟩ := refused
  refine ⟨?_, ?_⟩
  · rw [same]
    intro failed
    cases failed
  · rw [same]
    intro pc ok
    cases ok

end Call

/-- **`ParseClusterBlockView` stays inside the block** exactly if a block that passes the checks
of its size, trailer and regions is as `BlockFits` says. -/
theorem parseClusterBlockView_inside_iff (build : Build) (g : ReaderGeometry) (clusterId : UInt32)
    (found : Option LookupEntry) (blockPtr : Option (ℕ → UInt8)) (blockSize : UInt64) :
    ParsesInside build g clusterId found blockPtr blockSize ↔
      ∀ entry ∈ found, ∀ bytes ∈ blockPtr, blockSize.toNat = entry.blockSize → 8 ≤ blockSize →
        HasTrailer g.fileVersion entry.numRecords ⟨blockSize.toNat, bytes⟩ →
          RegionsFill g entry ⟨blockSize.toNat, bytes⟩ →
            BlockFits build g entry ⟨blockSize.toNat, bytes⟩ := by
  cases found with
  | none =>
      refine iff_of_true (parsesInside_of_refuses build g (refuses_invalid _)) ?_
      intro entry absent
      cases absent
  | some entry =>
      cases blockPtr with
      | none =>
          refine iff_of_true (parsesInside_of_refuses build g (refuses_invalid _)) ?_
          intro _ _ bytes absent
          cases absent
      | some bytes =>
          by_cases same : blockSize.toNat = entry.blockSize
          · by_cases footer : 8 ≤ blockSize
            · have eight : 8 ≤ blockSize.toNat := UInt64.le_iff_toNat_le.1 footer
              rw [parsesInside_found build g same footer,
                @blockInside_iff build g entry ⟨blockSize.toNat, bytes⟩ eight]
              constructor
              · intro fits entry' found bytes' given _ _
                cases found
                cases given
                exact fits
              · intro fits
                exact fits entry rfl bytes rfl same footer
            · refine iff_of_true (parsesInside_of_refuses build g ?_)
                fun _ _ _ _ _ large => absurd large footer
              rw [parseClusterBlockView, if_neg (not_not.2 same),
                if_pos (UInt64.not_le.1 footer)]
              exact refuses_corruption _
          · refine iff_of_true (parsesInside_of_refuses build g ?_) ?_
            · rw [parseClusterBlockView, if_pos same]
              exact refuses_invalid _
            · intro entry' found bytes' given size
              cases found
              exact absurd size same

/-- A block of version 12 with a trailer for five records, and no table of addresses. -/
def fiveRecords : ℕ → UInt8 := fun j =>
  [2, 0, 0, 0, 0, 16, 0, 0, 8, 0, 0, 0, 5, 0, 0, 0, 0, 0, 0, 0, 0, 0, 0, 0, 32, 0, 0, 0,
    0x56, 0x43, 0x4C, 0x42].getD j 0

/-- The table is read past the end of the block. -/
theorem parse_leaves_block :
    ¬ ParsesInside .scalar { fileVersion := 12, dim := 64 } 0
      (some { numRecords := 5, blockSize := 32 }) (some fiveRecords) 32 := by
  rw [parsesInside_found _ _ rfl (by decide),
    blockInside_iff _ _ (show 8 ≤ UInt64.toNat 32 by decide)]
  intro fits
  have fields : FieldsAgree 12 5 ⟨32, fiveRecords⟩ (trailerStart ⟨32, fiveRecords⟩) := by
    rw [FieldsAgree, if_pos (by decide)]
    decide
  have trailer : HasTrailer 12 5 ⟨32, fiveRecords⟩ :=
    ⟨by decide, by decide, by decide, fields, trivial⟩
  have fill : RegionsFill { fileVersion := 12, dim := 64 } { numRecords := 5, blockSize := 32 }
      ⟨32, fiveRecords⟩ := by
    rw [RegionsFill]
    decide
  have fit := (fits trailer fill).addresses
  exact absurd (fit (by decide) (by decide)) (by decide)

end VecFetch.Storage
