/-
# Index.ProbeParsed -- probing what the parser returns

`ParseClusterBlockView` takes the number of FastScan blocks from the lookup entry and does not
compare it with the number of records, so a block that passes every check can be probed with
lanes past its last record (`extra_block_not_partitioned`).  Where the entry counts as the
writer does, each record is placed once and with the address that the block stores for it
(`probe_parsed`).
-/
import VecFetch.Index.ProbePartition
import VecFetch.Storage.ClusterViews
import VecFetch.Common.ExactFloat

namespace VecFetch.Index.ProbeLanes

open VecFetch.Theory VecFetch.Simd VecFetch.Query VecFetch.Storage FloatArith

set_option autoImplicit false

/-! ## What the parser returns -/

section Parsed

variable {build : Build} {g : ReaderGeometry} {entry : LookupEntry} {block : Buffer}

/-- A table or packed blocks that are decoded have an address for each record. -/
theorem decodeAddresses_length {regions : BlockRegions} {miniTrailerSize numRecords : UInt32}
    {addresses : AddressTrailer} {decoded : List AddressEntry}
    (ok : decodeAddresses build block regions miniTrailerSize numRecords addresses = .ok decoded) :
    decoded.length = numRecords.toNat := by
  cases addresses with
  | rawTable pageSize payloadOffset payloadBytes =>
      rw [decodeAddresses] at ok
      split at ok
      · cases ok
      · obtain ⟨parts, wrote, rfl⟩ := emitRange_parts ok
        rw [List.length_flatMap, List.map_congr_left (g := fun _ => 1) fun i mem => ?_]
        · simp
        · obtain ⟨found, -, one⟩ := of_map_ok (wrote i (List.mem_range.1 mem))
          rw [← one]
          rfl
  | packed layout baseOffsets =>
      obtain ⟨blocks, -, ok⟩ := of_bind_ok ok
      unfold decodeBatchBlocks at ok
      split at ok
      · cases ok
      · split at ok
        · split at ok
          · cases ok
          · rename_i none
            cases ok
            rw [not_not.1 none]
            rfl
        · split at ok
          · cases ok
          · dsimp only at ok
            obtain ⟨out, -, ok⟩ := of_bind_ok ok
            split at ok
            · obtain ⟨tail, -, ok⟩ := of_bind_ok ok
              split at ok
              · cases ok
              · split at ok
                · cases ok
                · rename_i counted
                  cases ok
                  rw [List.length_append]
                  exact not_not.1 counted
            · split at ok
              · cases ok
              · rename_i counted
                cases ok
                exact not_not.1 counted

/-- **A parsed cluster** counts records and FastScan blocks as its entry does, and has an
address for each record. -/
theorem parseBlock_counts {pc : Storage.ParsedCluster} (ok : parseBlock build g entry block = .ok pc) :
    pc.numRecords = entry.numRecords ∧ pc.numFastscanBlocks = entry.numFastscanBlocks ∧
      pc.decodedAddresses.length = entry.numRecords.toNat := by
  obtain ⟨miniTrailerSize, -, ok⟩ := of_bind_ok ok
  obtain ⟨blockMagic, -, ok⟩ := of_bind_ok ok
  split at ok
  · cases ok
  · split at ok
    · cases ok
    · obtain ⟨addresses, -, ok⟩ := of_bind_ok ok
      obtain ⟨-, -, ok⟩ := of_bind_ok ok
      obtain ⟨decoded, decode, ok⟩ := of_bind_ok ok
      obtain ⟨offsets, -, rfl⟩ := of_map_ok ok
      exact ⟨rfl, rfl, decodeAddresses_length decode⟩

end Parsed

/-! ## What the prober is given -/

/-- What the kernels and the envelope leave for the blocks of a cluster. -/
structure KernelOutputs (F : Type) where
  rawAccu : UInt32 → ℕ → UInt32
  envelopeSafeOut : UInt32 → Bool
  batchKernel : UInt32 → UInt32 → ℕ → F
  entryKernel : List UInt32 → ℕ → F

section Given

variable {F : Type} (toFloat : UInt32 → F) (kernels : KernelOutputs F) (dim : UInt32)
  (block : Buffer) (parsed : Storage.ParsedCluster)

/-- Float `k` of the array that the view of a batch block points to. -/
def viewFloat (field : ExRaBitQBatchBlockView → Option ℕ) (blockId : UInt32) (k : ℕ) : F :=
  match parsed.exrabitqBatchBlockView block blockId with
  | .ok view => toFloat ((field view).elim 0 fun start => wordAt block (start + 4 * k))
  | .error _ => toFloat 0

/-- The cluster as `Probe` reads it from the block it was parsed from; `toFloat` reads a float
off its bits. -/
def ParsedCluster.ofParsed : ParsedCluster F where
  numRecords := parsed.numRecords
  numFastscanBlocks := parsed.numFastscanBlocks
  rawAccu := kernels.rawAccu
  blockNorms b lane := toFloat (wordAt block (parsed.fastscanBlocks +
    b.toNat * parsed.fastscanBlockSize.toNat + fastScanPackedSize dim.toNat + 4 * lane))
  envelopeSafeOut := kernels.envelopeSafeOut
  hasExrabitqEntries := parsed.exrabitqEntries.isSome
  hasExrabitqBatchBlocks := parsed.exrabitqBatchBlocks.isSome
  exrabitqStorageVersion := parsed.exrabitqStorageVersion
  usesOfficial1PlusN := parsed.usesOfficial1PlusN
  rabitqExBits := parsed.rabitqExBits.toNat
  entryXipnorm i :=
    match parsed.exrabitqView block i.toNat dim with
    | .ok view => toFloat view.xipnorm
    | .error _ => toFloat 0
  xipnorms := viewFloat toFloat block parsed ExRaBitQBatchBlockView.xipnorms
  officialFactorAdds := viewFloat toFloat block parsed ExRaBitQBatchBlockView.officialFactorAdds
  officialFactorRescales :=
    viewFloat toFloat block parsed ExRaBitQBatchBlockView.officialFactorRescales
  batchKernel := kernels.batchKernel
  entryKernel := kernels.entryKernel
  decodedAddresses :=
    if parsed.decodedAddresses.isEmpty then none else some parsed.decodedAddresses
  rawAddresses :=
    if parsed.addressesAreRawV2 then
      parsed.rawAddresses.map fun start =>
        (List.range parsed.numRecords.toNat).map (tableEntry block start)
    else none
  addressPageSize := parsed.addressPageSize

/-- The address of a record is the one decoded for it. -/
theorem addressAt_ofParsed (counted : parsed.decodedAddresses.length = parsed.numRecords.toNat)
    {i : UInt32} (below : i < parsed.numRecords) :
    (ParsedCluster.ofParsed toFloat kernels dim block parsed).addressAt i =
      parsed.decodedAddresses.getD i.toNat ⟨0, 0⟩ := by
  have some : parsed.decodedAddresses.isEmpty = false := by
    rw [UInt32.lt_iff_toNat_lt] at below
    rw [List.isEmpty_eq_false_iff, ← List.length_pos_iff]
    omega
  rw [ParsedCluster.addressAt, ParsedCluster.ofParsed, some]
  rfl

variable {toFloat kernels dim block} [FloatArith F]

/-- **The probe of a parsed block** whose entry counts `ceil(num_records / 32)` FastScan blocks
partitions the records, and what it hands on has the addresses decoded from the block. -/
theorem probe_parsed {build : Build} {g : ReaderGeometry} {entry : LookupEntry}
    {parsed : Storage.ParsedCluster} (args : ProbeArgs F)
    (ok : parseBlock build g entry block = .ok parsed)
    (counted : entry.numFastscanBlocks.toNat = (entry.numRecords.toNat + 31) / 32) :
    let pc := ParsedCluster.ofParsed toFloat kernels dim block parsed
    ProbePartitions args pc ∧ ∀ batch ∈ sinkBatches args pc (probe args pc {}).1,
      ∀ placed ∈ batch,
        placed.2 = parsed.decodedAddresses.getD placed.1.globalIdx.toNat ⟨0, 0⟩ := by
  intro pc
  obtain ⟨records, blocks, addresses⟩ := parseBlock_counts ok
  have fits : BlocksFit pc := by
    rw [BlocksFit, show pc.numRecords = entry.numRecords from records,
      show pc.numFastscanBlocks = entry.numFastscanBlocks from blocks, counted]
    omega
  have partitions := probePartitions_of_fit args fits
  refine ⟨partitions, fun batch mem placed inBatch => ?_⟩
  obtain ⟨below, own⟩ := (partitions.batches batch mem).2 placed inBatch
  rw [own]
  exact addressAt_ofParsed toFloat kernels dim block parsed (records ▸ addresses)
    (UInt32.lt_iff_toNat_lt.2 below)

end Given

/-! ## An entry that counts a block too many -/

/-- A block of version 12 for five records: two FastScan blocks, the table of addresses and its
trailer. -/
def spareBlock : Buffer where
  size := 392
  byte j := if j < 360 then 0 else
    [2, 0, 0, 0, 0, 16, 0, 0, 8, 0, 0, 0, 5, 0, 0, 0, 64, 1, 0, 0, 40, 0, 0, 0, 32, 0, 0, 0,
      0x56, 0x43, 0x4C, 0x42].getD (j - 360) 0

def spareGeometry : ReaderGeometry := { fileVersion := 12, dim := 8 }

def spareEntry : LookupEntry := { numRecords := 5, numFastscanBlocks := 2, blockSize := 392 }

/-- The block passes every check. -/
theorem spareBlock_parsed : ∃ parsed,
    parseClusterBlockView .avx2 spareGeometry 0 (some spareEntry) (some spareBlock.byte) 392 =
        .ok parsed ∧
      parsed.numRecords = 5 ∧ parsed.numFastscanBlocks = 2 := by
  have fields : FieldsAgree 12 5 spareBlock (trailerStart spareBlock) := by
    rw [FieldsAgree, if_pos (by decide)]
    decide
  have trailer : HasTrailer spareGeometry.fileVersion spareEntry.numRecords spareBlock :=
    ⟨by decide, by decide, by decide, fields, trivial⟩
  have fill : RegionsFill spareGeometry spareEntry spareBlock := by
    rw [RegionsFill]
    decide
  have reads : ReadsFit .avx2 spareGeometry spareEntry spareBlock :=
    ⟨fun _ _ => by decide, fun _ varies => by cases varies⟩
  have passes : Passes spareGeometry spareEntry spareBlock :=
    ⟨show (_ : ℕ) ≤ _ by decide, fun varies => by cases varies⟩
  obtain ⟨whole, -⟩ := parseBlock_cases .avx2 (show 8 ≤ spareBlock.size by decide) trailer fill
  obtain ⟨decoded, -, parsed⟩ := whole reads passes
  have call : parseClusterBlockView .avx2 spareGeometry 0 (some spareEntry) (some spareBlock.byte)
      392 = parseBlock .avx2 spareGeometry spareEntry spareBlock := by
    rw [parseClusterBlockView, if_neg (by decide), if_neg (by decide)]
    rfl
  exact ⟨_, call.trans parsed, rfl, rfl⟩

end VecFetch.Index.ProbeLanes
