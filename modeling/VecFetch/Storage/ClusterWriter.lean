/-
# Storage.ClusterWriter -- writing a cluster file

A cluster is begun, its vectors and its address table are written behind each other, and
ending it appends a trailer, patches its lookup entry and pads the file.  `WriteVectors`
is a sequence of units (`WriteUnit`): the bytes written up to a check, the error found on
the way, if any, and the step of the offset where the check passes.  A unit with an error
has written the bytes before it, so the put position and the offset part there.

Floats are their bits.  Offsets are 64-bit and a file stays below `2 ^ 63` bytes, so they
are natural numbers.
-/
import VecFetch.Storage.ClusterFormat
import VecFetch.Storage.AddressColumn
import VecFetch.Storage.PackCodes
import VecFetch.Simd.ExData
import VecFetch.Theory.FileStream

namespace VecFetch.Storage

open VecFetch.Theory VecFetch.Rabitq VecFetch.Simd VecFetch.Query

set_option autoImplicit false

/-! ## Addresses -/

structure RawAddressEntryV2 where
  offsetPages : UInt32
  sizePages : UInt32
  deriving DecidableEq

/-- An address column as the writer takes it, packed or as a table. -/
inductive AddressPayload where
  | v1Packed (column : EncodedAddressColumn)
  | v2RawTable (pageSize : UInt32) (rawEntries : List RawAddressEntryV2) (totalRecords : UInt32)

/-- `AddressColumn::EncodeRawTableV2`, the entries of the table. -/
def rawEntry (pageSize : UInt32) (entry : AddressEntry) : RawAddressEntryV2 :=
  ⟨(entry.offset / pageSize.toUInt64).toUInt32, entry.size / pageSize⟩

def encodeRawTableV2 (entries : List AddressEntry) (pageSize : UInt32) : AddressPayload :=
  .v2RawTable pageSize (entries.map (rawEntry pageSize)) (UInt32.ofNat entries.length)

/-! ## Bytes up to an error -/

/-- Bytes written, up to an error. -/
structure Emission where
  bytes : List UInt8 := []
  error : Option Failure := none

namespace Emission

def ofBytes (bytes : List UInt8) : Emission := ⟨bytes, none⟩

def u32 (v : UInt32) : Emission := ofBytes (leBytes 4 v.toNat)

def failed (failure : Failure) : Emission := ⟨[], some failure⟩

def invalid (message : String) : Emission := failed (.status .invalidArgument message)

def require (holds : Bool) (message : String) : Emission :=
  if holds then ofBytes [] else invalid message

def append (a b : Emission) : Emission :=
  match a.error with
  | some _ => a
  | none => ⟨a.bytes ++ b.bytes, b.error⟩

def all (parts : List Emission) : Emission := parts.foldr append (ofBytes [])

/-- The check alone, without its bytes. -/
def silent (e : Emission) : Emission := { e with bytes := [] }

end Emission

/-- What `WriteVectors` writes up to one of its checks of the stream. -/
structure WriteUnit where
  emission : Emission
  advance : ℕ
  ioMessage : String

def WriteUnit.refuse (message : String) : WriteUnit := ⟨.invalid message, 0, ""⟩

/-! ## The FastScan region -/

/-- A factor of each of `count` codes from `start` on; missing codes have zeros. -/
def factorBytes (codes : List RaBitQCode) (factor : RaBitQCode → UInt32) (start count : ℕ) :
    List UInt8 :=
  (List.range count).flatMap fun lane =>
    leBytes 4 ((codes[start + lane]?).map factor |>.getD 0).toNat

/-- The codes of 32-vector block `b`, of which `n` in all are counted. -/
def blockCodes (codes : List RaBitQCode) (n : UInt32) (b : ℕ) : List RaBitQCode :=
  (codes.drop (32 * b)).take (min 32 (n.toNat - 32 * b))

def fastScanUnit (dim : UInt32) (codes : List RaBitQCode) (n : UInt32) (b : ℕ) : WriteUnit where
  emission :=
    match packSignBitsForFastScan dim.toNat (blockCodes codes n b) with
    | some packed =>
        .ofBytes (packed.toList ++ factorBytes (blockCodes codes n b) RaBitQCode.norm 0 32)
    | none => .failed .outOfBounds
  advance := (fastScanBlockSize dim).toNat
  ioMessage := "Failed to write FastScan block"

/-- The blocks of `WriteVectors`, `n` being the 32-bit number of codes. -/
def fastScanUnits (dim : UInt32) (codes : List RaBitQCode) : List WriteUnit :=
  let n := UInt32.ofNat codes.length
  (List.range ((n + 31) / 32).toNat).map (fastScanUnit dim codes n)

/-! ## Extra codes -/

section ExData

variable (config : StoreConfig) (dim : UInt32)

/-- Dimensions `64 * db` on of a code, in a zeroed buffer of 64. -/
def absBuf (code : RaBitQCode) (db j : ℕ) : UInt8 :=
  if j < min 64 (dim.toNat - 64 * db) then code.exCode.getD (64 * db + j) 0 else 0

/-- A packer's bytes, or the message for a code it refuses. -/
def packedEmission (message : String) : Except Fault Buffer → Emission
  | .ok packed => .ofBytes packed.toList
  | .error .refused => .invalid message
  | .error .outside => .failed .outOfBounds

def outsideRange : String := "ExRaBitQ code contains value outside bit-width range"

/-- The checks of a code of an official layout. -/
def checkFolded (message : String) (code : RaBitQCode) : Emission :=
  .all [.require (code.exCode.length = dim.toNat) "ExRaBitQ code size mismatch with dim",
    .require code.exCodeSignFolded message]

/-- `(dim + dim_block - 1) / dim_block`. -/
def dimBlockCount : UInt32 := (dim + 64 - 1) / 64

def absLaneBytes : UInt32 := exRaBitQPackedMagnitudeBytes 64 config.stage2PayloadBits

def packBitplanes (code : RaBitQCode) (db : ℕ) : Emission :=
  packedEmission outsideRange (exRaBitQPackOfficialDirectBitplanes (absBuf dim code db) 64
    config.stage2PayloadBits (absLaneBytes config))

/-- The lanes of batch block `bb` that hold a code, `n` codes in all. -/
def validCount (n : UInt32) (bb : ℕ) : ℕ := min 8 (n.toNat - 8 * bb)

/-- The code of a lane below the valid count. -/
def laneCode (codes : List RaBitQCode) (bb lane : ℕ) : RaBitQCode :=
  codes.getD (8 * bb + lane) { code := [], norm := 0, sumX := 0 }

/-! ### Variable layouts -/

/-- One code after the other, each in `db` blocks. -/
def laneMajor (codes : List RaBitQCode) (n : UInt32) (bb : ℕ) (message : String)
    (pack : RaBitQCode → ℕ → Emission) : Emission :=
  .all ((List.range (validCount n bb)).map fun lane =>
    .all (checkFolded dim message (laneCode codes bb lane) ::
      (List.range (dimBlockCount dim).toNat).map (pack (laneCode codes bb lane))))

def bitMajorBody (codes : List RaBitQCode) (n : UInt32) (bb : ℕ) : Emission :=
  let vectorBytes := exRaBitQBitMajorTileVectorBytes dim config.stage2PayloadBits
  .all (.require (vectorBytes ≠ 0) "unsupported vector_bitmajor_tiles Stage2 payload width" ::
    (List.range (validCount n bb)).map fun lane =>
      let code := laneCode codes bb lane
      .all [checkFolded dim "official ExRaBitQ bit-major tile layout requires sign-folded ExData"
          code,
        packedEmission outsideRange (exRaBitQPackOfficialBitMajorTiles (code.exCode.getD · 0) dim
          config.stage2PayloadBits vectorBytes)])

/-- Groups of lanes, block by block. -/
def smallLaneBody (codes : List RaBitQCode) (n : UInt32) (bb : ℕ) : Emission :=
  let size := smallLaneBitplanesGroupSize config.effectiveExdataLayout
  .all ((List.range ((validCount n bb + size - 1) / size)).map fun group =>
    .all ((List.range (dimBlockCount dim).toNat).map fun db =>
      .all ((List.range (min size (validCount n bb - group * size))).map fun localLane =>
        let code := laneCode codes bb (group * size + localLane)
        .all [checkFolded dim "official ExRaBitQ small-lane layout requires sign-folded ExData" code,
          packBitplanes config dim code db])))

def trimmedBody (codes : List RaBitQCode) (n : UInt32) (bb : ℕ) : Emission :=
  .all ((List.range (dimBlockCount dim).toNat).map fun db =>
    .all ((List.range (validCount n bb)).map fun lane =>
      .all [checkFolded dim "official ExRaBitQ v15 requires sign-folded ExData"
          (laneCode codes bb lane),
        packBitplanes config dim (laneCode codes bb lane) db]))

/-- The word of a plane of a packed lane. -/
def laneWord (code : RaBitQCode) (db plane : ℕ) : List UInt8 :=
  slice (packBitplanes config dim code db).bytes (8 * plane) 8

/-- A plane of a block: which lanes have a word that is not zero, and those words. -/
def elidedPlane (codes : List RaBitQCode) (n : UInt32) (bb db plane : ℕ) : Emission :=
  let present := (List.range (validCount n bb)).filter fun lane =>
    (laneWord config dim (laneCode codes bb lane) db plane).any (· ≠ 0)
  .ofBytes (UInt8.ofNat (present.foldl (fun mask lane => mask ||| 1 <<< lane) 0) ::
    present.flatMap fun lane => laneWord config dim (laneCode codes bb lane) db plane)

def zeroElideBody (codes : List RaBitQCode) (n : UInt32) (bb : ℕ) : Emission :=
  .all ((List.range (dimBlockCount dim).toNat).map fun db =>
    .append
      (.all ((List.range (validCount n bb)).map fun lane =>
        Emission.silent (.all [checkFolded dim "official ExRaBitQ v15 requires sign-folded ExData"
            (laneCode codes bb lane),
          packBitplanes config dim (laneCode codes bb lane) db])))
      (.all ((List.range config.stage2PayloadBits.toNat).map (elidedPlane config dim codes n bb db))))

/-- The codes of a batch block in a variable layout. -/
def variableBody (codes : List RaBitQCode) (n : UInt32) (bb : ℕ) : Emission :=
  let layout := config.effectiveExdataLayout
  if isVectorBitplanesLayout layout then
    laneMajor dim codes n bb "official ExRaBitQ vector layout requires sign-folded ExData"
      (packBitplanes config dim)
  else if isVectorBitMajorTileLayout layout then bitMajorBody config dim codes n bb
  else if isSmallLaneBitplanesLayout layout then smallLaneBody config dim codes n bb
  else if layout = .vector2Bit then
    laneMajor dim codes n bb "official ExRaBitQ vector 2-bit layout requires sign-folded ExData"
      fun code db => packedEmission "ExRaBitQ code contains value outside 2-bit range"
        (exRaBitQPackOfficial2Bit (absBuf dim code db) 64 (absLaneBytes config))
  else if layout = .vectorNibble4 then
    laneMajor dim codes n bb "official ExRaBitQ vector nibble layout requires sign-folded ExData"
      fun code db => packedEmission "ExRaBitQ code contains value outside 4-bit range"
        (exRaBitQPackOfficialNibble4 (absBuf dim code db) 64 (absLaneBytes config))
  else if layout = .split3TrimmedBitplanes then trimmedBody config dim codes n bb
  else if layout = .split3ZeroPlaneElide then zeroElideBody config dim codes n bb
  else .ofBytes []

/-- A batch block of a variable layout: the number of codes, the codes, their factors. -/
def variableBatch (codes : List RaBitQCode) (n : UInt32) (bb : ℕ) : Emission :=
  .all [.u32 (UInt32.ofNat (validCount n bb)), variableBody config dim codes n bb,
    .ofBytes (factorBytes codes RaBitQCode.exFactorAdd (8 * bb) (validCount n bb)),
    .ofBytes (factorBytes codes RaBitQCode.exFactorRescale (8 * bb) (validCount n bb))]

/-- `(N + batch_size - 1) / batch_size`. -/
def numBatchBlocks (n : UInt32) : UInt32 := (n + 8 - 1) / 8

/-- Where each batch block of a variable region starts, and where the last one ends. -/
def batchOffsets (n : UInt32) (batches : List Emission) : List UInt32 :=
  (List.range ((numBatchBlocks n).toNat + 1)).map fun bb =>
    UInt32.ofNat ((8 + (numBatchBlocks n + 1) * 4).toNat +
      ((batches.take bb).map fun batch => batch.bytes.length).sum)

/-- The region of a variable layout: its header, the offsets and the batch blocks.  It is
put together in memory. -/
def variableRegion (codes : List RaBitQCode) : Emission :=
  let n := UInt32.ofNat codes.length
  let batches := (List.range (numBatchBlocks n).toNat).map (variableBatch config dim codes n)
  match (Emission.all batches).error with
  | some failure => .failed failure
  | none =>
      .ofBytes (leBytes 4 kVariableExRegionMagic.toNat ++ leBytes 4 (numBatchBlocks n).toNat ++
        (batchOffsets n batches).flatMap (fun offset => leBytes 4 offset.toNat) ++
        (Emission.all batches).bytes)

/-! ### Fixed layouts -/

/-- The packed magnitudes of a lane, or of nothing. -/
def packFixed (abs : ℕ → UInt8) : Emission :=
  let layout := config.effectiveExdataLayout
  if config.usesOfficial1PlusN ∧ layout.isDirect then
    if layout = .split3TwoPlusOne then
      packedEmission outsideRange (exRaBitQPackOfficialDirect3 abs 64 layout (absLaneBytes config))
    else
      packedEmission outsideRange
        (exRaBitQPackOfficialDirectBitplanes abs 64 config.stage2PayloadBits (absLaneBytes config))
  else
    packedEmission outsideRange
      (exRaBitQPackMagnitudes abs 64 config.stage2PayloadBits (absLaneBytes config))

/-- The checks of a code of a fixed layout. -/
def checkFixed (code : RaBitQCode) : Emission :=
  .all [.require (code.exCode.length = dim.toNat) "ExRaBitQ code size mismatch with dim",
    .require (!config.usesOfficial1PlusN || code.exCodeSignFolded)
      "official ExRaBitQ v13 requires sign-folded ExData",
    .require (config.usesOfficial1PlusN ||
        decide (code.exSignPacked.length = (packedSignBytes dim).toNat))
      "ExRaBitQ code/sign size mismatch with dim"]

/-- Block `db` of a lane; `packs` is whether magnitudes are packed. -/
def fixedChunk (packs : Bool) (codes : List RaBitQCode) (n : UInt32) (bb db lane : ℕ) : Emission :=
  let held := decide (lane < validCount n bb)
  let abs := if held then absBuf dim (laneCode codes bb lane) db else fun _ => 0
  .all [if held then checkFixed config dim (laneCode codes bb lane) else .ofBytes [],
    if packs then packFixed config abs else .ofBytes ((List.range 64).map abs)]

/-- The packed signs of block `db` of a lane, in eight zeroed bytes. -/
def signChunk (codes : List RaBitQCode) (n : UInt32) (bb db lane : ℕ) : List UInt8 :=
  (List.range 8).map fun j =>
    if lane < validCount n bb ∧ 8 * db + j < (packedSignBytes dim).toNat then
      (laneCode codes bb lane).exSignPacked.getD (8 * db + j) 0
    else 0

/-- A factor of eight lanes; lanes without a code have zeros. -/
def laneFactors (codes : List RaBitQCode) (factor : RaBitQCode → UInt32) (n : UInt32) (bb : ℕ) :
    List UInt8 :=
  factorBytes codes factor (8 * bb) (validCount n bb) ++
    List.replicate (4 * (8 - validCount n bb)) 0

def fixedBatch (packs : Bool) (codes : List RaBitQCode) (n : UInt32) (bb : ℕ) : Emission :=
  let blocks := List.range (dimBlockCount dim).toNat
  let lanes := List.range 8
  .all [.u32 (UInt32.ofNat (validCount n bb)),
    .all (blocks.map fun db => .all (lanes.map (fixedChunk config dim packs codes n bb db))),
    if config.usesOfficial1PlusN then
      .ofBytes (laneFactors codes RaBitQCode.exFactorAdd n bb ++
        laneFactors codes RaBitQCode.exFactorRescale n bb)
    else
      .ofBytes (blocks.flatMap (fun db => lanes.flatMap (signChunk dim codes n bb db)) ++
        laneFactors codes RaBitQCode.xipnorm n bb)]

/-- `block_bytes` of a fixed batch block. -/
def fixedBatchBytes (packs : Bool) : UInt32 :=
  let absBytes := if packs then absLaneBytes config else 64
  4 + dimBlockCount dim * 8 * absBytes +
    (if config.usesOfficial1PlusN then 0 else dimBlockCount dim * 8 * 8) +
    (if config.usesOfficial1PlusN then 16 else 8) * 4

/-- An entry of the layout before batch blocks. -/
def entryUnit (code : RaBitQCode) : WriteUnit where
  emission := .append
    (.require (code.exCode.length = dim.toNat ∧
        code.exSignPacked.length = (packedSignBytes dim).toNat)
      "ExRaBitQ code/sign size mismatch with dim")
    (.ofBytes (code.exCode ++ code.exSignPacked ++ leBytes 4 code.xipnorm.toNat))
  advance := (dim + packedSignBytes dim).toNat + 4
  ioMessage := "Failed to write ExRaBitQ entry"

/-- The extra codes of `WriteVectors` in a file of version `version`. -/
def exDataUnits (version : UInt32) (codes : List RaBitQCode) : List WriteUnit :=
  let layout := config.effectiveExdataLayout
  let bits := config.stage2PayloadBits
  let official := config.usesOfficial1PlusN
  let n := UInt32.ofNat codes.length
  if bits = 0 then []
  else if 12 ≤ version ∧ !official ∧ !supportsPackedStage2MagnitudeBits config.bits then
    [.refuse "Packed ExRaBitQ Stage2 magnitude supports only bits=2 or bits=4"]
  else if 11 ≤ version then
    let packs : Bool := decide (12 ≤ version)
    if packs ∧ absLaneBytes config = 0 then
      [.refuse "unsupported ExRaBitQ packed Stage2 payload bit width"]
    else if official ∧ usesVariableOfficialExDataLayout layout then
      if layout = .vectorNibble4 ∧ bits ≠ 4 then
        [.refuse "vector_nibble4 official ExData layout requires ex_bits=4"]
      else if layout = .vector2Bit ∧ bits ≠ 2 then
        [.refuse "vector_2bit official ExData layout requires ex_bits=2"]
      else if layout = .vectorBitMajorTiles ∧ (bits < 1 ∨ 3 < bits) then
        [.refuse "vector_bitmajor_tiles official ExData layout requires ex_bits=1,2,3"]
      else if layout ≠ .vectorNibble4 ∧ layout ≠ .vector2Bit ∧ layout ≠ .vectorBitMajorTiles ∧
          !isSmallLaneBitplanesLayout layout ∧ !isVectorBitplanesLayout layout ∧ bits ≠ 3 then
        [.refuse "variable official ExData layouts currently require ex_bits=3"]
      else
        [⟨variableRegion config dim codes, (variableRegion config dim codes).bytes.length,
          "Failed to write variable official ExRaBitQ region"⟩]
    else
      (List.range (numBatchBlocks n).toNat).map fun bb =>
        ⟨fixedBatch config dim packs codes n bb, (fixedBatchBytes config dim packs).toNat,
          "Failed to write ExRaBitQ compact block"⟩
  else codes.map (entryUnit dim)

end ExData

/-! ## The writer -/

structure LookupEntry where
  clusterId : UInt32 := 0
  numRecords : UInt32 := 0
  epsilon : UInt32 := 0
  centroid : List UInt32 := []
  blockOffset : ℕ := 0
  blockSize : ℕ := 0
  numFastscanBlocks : UInt32 := 0
  exrabitqRegionOffset : UInt32 := 0

def LookupEntry.bytes (entry : LookupEntry) : List UInt8 :=
  leBytes 4 entry.clusterId.toNat ++ leBytes 4 entry.numRecords.toNat ++
    leBytes 4 entry.epsilon.toNat ++ entry.centroid.flatMap (fun x => leBytes 4 x.toNat) ++
    leBytes 8 entry.blockOffset ++ leBytes 8 entry.blockSize ++
    leBytes 4 entry.numFastscanBlocks.toNat ++ leBytes 4 entry.exrabitqRegionOffset.toNat

structure ClusterStoreWriter where
  file : FileStream := {}
  isOpen : Bool := false
  numClusters : ℕ := 0
  dim : UInt32 := 0
  config : StoreConfig := {}
  lookupTable : List LookupEntry := []
  currentOffset : ℕ := 0
  lookupTableStart : ℕ := 0
  headerPathOffset : ℕ := 0
  currentClusterIndex : ℕ := 0
  blockStart : ℕ := 0
  inCluster : Bool := false
  vectorsWritten : Bool := false
  addressWritten : Bool := false
  finalized : Bool := false
  /-- The page size and the table of `current_address_column_`. -/
  addressPageSize : UInt32 := 4096
  rawEntries : List RawAddressEntryV2 := []
  numFastscanBlocks : UInt32 := 0
  exrabitqRegionOffset : UInt32 := 0

/-- The status of a call, `none` for OK, and the writer after it. -/
abbrev Outcome := Option Failure × ClusterStoreWriter

def Outcome.andThen (o : Outcome) (next : ClusterStoreWriter → Outcome) : Outcome :=
  match o.1 with
  | some _ => o
  | none => next o.2

namespace ClusterStoreWriter

variable (env : Option ℤ)

def refuse (w : ClusterStoreWriter) (message : String) : Outcome :=
  (some (.status .invalidArgument message), w)

/-- A check of the stream. -/
def check (w : ClusterStoreWriter) (message : String) : Outcome :=
  (if w.file.good then none else some (.status .ioError message), w)

def put (w : ClusterStoreWriter) (bytes : List UInt8) : ClusterStoreWriter :=
  { w with file := w.file.write bytes }

def seek (w : ClusterStoreWriter) (pos : ℕ) : ClusterStoreWriter :=
  { w with file := w.file.seek pos }

/-- `PadTo4K(file_, current_offset_)`. -/
def pad (w : ClusterStoreWriter) : ClusterStoreWriter :=
  { w.put (List.replicate (roundUp4K w.currentOffset - w.currentOffset) 0) with
    currentOffset := roundUp4K w.currentOffset }

/-- The entry of the current cluster. -/
def entry (w : ClusterStoreWriter) : LookupEntry := w.lookupTable.getD w.currentClusterIndex {}

def setEntry (w : ClusterStoreWriter) (entry : LookupEntry) : ClusterStoreWriter :=
  { w with lookupTable := w.lookupTable.set w.currentClusterIndex entry }

/-- The header of a file, up to the data file's path. -/
def headerBytes (version numClusters dim : UInt32) (config : StoreConfig) : List UInt8 :=
  leBytes 4 kGlobalMagic.toNat ++ leBytes 4 version.toNat ++ leBytes 4 numClusters.toNat ++
    leBytes 4 dim.toNat ++ leBytes 1 config.bits.toNat ++ leBytes 4 config.blockSize.toNat ++
    leBytes 4 config.cFactor.toNat ++
    if 13 ≤ version then
      leBytes 1 config.totalBits.toNat ++ leBytes 1 config.exBits.toNat ++
        leBytes 1 (if config.usesOfficial1PlusN then 1 else 0) ++
        if 14 ≤ version then
          leBytes 1 (RaBitQExDataLayout.stored.idxOf config.exdataLayout)
        else []
    else []

/-- `ClusterStoreWriter::Open` of a path that can be opened, on a new writer. -/
def «open» (numClusters dim : UInt32) (config : StoreConfig) (room : Option ℕ) : Outcome :=
  match config.opened env with
  | .error failure => (some failure, {})
  | .ok config =>
      let version := effectiveWriterFileVersion env config
      let header := headerBytes version numClusters dim config
      let w : ClusterStoreWriter :=
        { file := { room := room }, isOpen := true, numClusters := numClusters.toNat, dim := dim
          config := config, lookupTable := List.replicate numClusters.toNat {}
          headerPathOffset := header.length
          lookupTableStart := header.length + 4 + kMaxPathLen.toNat }
      (check (w.put (header ++ List.replicate (4 + kMaxPathLen.toNat) 0))
        "Failed to write global header").andThen fun w =>
        (check (w.put (List.replicate (numClusters.toNat * lookupEntrySize dim) 0))
          "Failed to write lookup table placeholders").andThen fun w =>
          (none, pad { w with currentOffset := w.file.pos })

/-- `BeginCluster`; the centroid is where its floats are read from. -/
def beginCluster (clusterId numRecords : UInt32) (centroid : List UInt32) (epsilon : UInt32)
    (w : ClusterStoreWriter) : Outcome :=
  if !w.isOpen then w.refuse "ClusterStoreWriter not open"
  else if w.inCluster then w.refuse "Previous cluster not ended"
  else if w.numClusters ≤ w.currentClusterIndex then w.refuse "All clusters already written"
  else if centroid.length < w.dim.toNat then (some .outOfBounds, w)
  else
    (none, { w.setEntry { w.entry with
        clusterId := clusterId, numRecords := numRecords, epsilon := epsilon
        centroid := centroid.take w.dim.toNat } with
      inCluster := true, vectorsWritten := false, addressWritten := false
      blockStart := w.currentOffset })

/-- One unit of `WriteVectors`. -/
def writeUnit (unit : WriteUnit) (w : ClusterStoreWriter) : Outcome :=
  let w := w.put unit.emission.bytes
  match unit.emission.error with
  | some failure => (some failure, w)
  | none =>
      (w.check unit.ioMessage).andThen fun w =>
        (none, { w with currentOffset := w.currentOffset + unit.advance })

def writeUnits : List WriteUnit → ClusterStoreWriter → Outcome
  | [], w => (none, w)
  | unit :: units, w => (writeUnit unit w).andThen (writeUnits units)

def writeVectors (codes : List RaBitQCode) (w : ClusterStoreWriter) : Outcome :=
  if !w.isOpen ∨ !w.inCluster then w.refuse "Not in a cluster block"
  else if w.vectorsWritten then w.refuse "Vectors already written"
  else
    let w := { w with numFastscanBlocks := (UInt32.ofNat codes.length + 31) / 32 }
    (writeUnits (fastScanUnits w.dim codes) w).andThen fun w =>
      let w := { w with exrabitqRegionOffset := UInt32.ofNat (w.currentOffset - w.blockStart) }
      (writeUnits (exDataUnits w.config w.dim (effectiveWriterFileVersion env w.config) codes)
        w).andThen fun w => (none, { w with vectorsWritten := true })

def rawTableBytes (rawEntries : List RawAddressEntryV2) : List UInt8 :=
  rawEntries.flatMap fun e => leBytes 4 e.offsetPages.toNat ++ leBytes 4 e.sizePages.toNat

/-- The page size and the table that `WriteAddressBlocks` keeps of a column; a packed one is
decoded and encoded again. -/
def rawTable (build : Build) : AddressPayload → Result (UInt32 × List RawAddressEntryV2)
  | .v2RawTable pageSize rawEntries _ => .ok (pageSize, rawEntries)
  | .v1Packed column =>
      (decodeColumn build column).map fun decoded =>
        (column.layout.pageSize, decoded.map (rawEntry column.layout.pageSize))

/-- The checks of a column against the cluster's number of records. -/
def columnError (numRecords : UInt32) : AddressPayload → Option String
  | .v1Packed column =>
      if column.totalRecords ≠ numRecords then
        some "Address column record count does not match cluster"
      else if column.blocks.length ≠ column.layout.numAddressBlocks.toNat then
        some "Address column block count does not match layout"
      else if 0 < numRecords ∧ column.layout.numAddressBlocks = 0 then
        some "Non-empty cluster requires address blocks"
      else none
  | .v2RawTable _ rawEntries totalRecords =>
      if totalRecords ≠ numRecords then
        some "Address column record count does not match cluster"
      else if rawEntries.length ≠ numRecords.toNat then
        some "Raw address table entry count mismatch"
      else none

def writeAddressBlocks (build : Build) (column : AddressPayload) (w : ClusterStoreWriter) :
    Outcome :=
  if !w.isOpen ∨ !w.inCluster then w.refuse "Not in a cluster block"
  else if !w.vectorsWritten then w.refuse "Must write vectors before address blocks"
  else if w.addressWritten then w.refuse "Address blocks already written"
  else
    match columnError w.entry.numRecords column with
    | some message => w.refuse message
    | none =>
        match rawTable build column with
        | .error failure => (some failure, w)
        | .ok (pageSize, rawEntries) =>
            let w := { w with addressPageSize := pageSize, rawEntries := rawEntries }
            let done (w : ClusterStoreWriter) : Outcome := (none, { w with addressWritten := true })
            if 0 < rawEntries.length * 8 then
              (check (w.put (rawTableBytes rawEntries)) "Failed to write raw address table").andThen
                fun w => done { w with currentOffset := w.currentOffset + rawEntries.length * 8 }
            else done w

/-- The fields of the trailer before its size. -/
structure TrailerFields where
  pageSize : UInt32
  numEntries : UInt32
  addressPayloadOffset : UInt32
  addressPayloadBytes : UInt32

def trailerFields (w : ClusterStoreWriter) : TrailerFields :=
  let numEntries := UInt32.ofNat w.rawEntries.length
  { pageSize := w.addressPageSize
    numEntries := numEntries
    addressPayloadOffset :=
      UInt32.ofNat (w.currentOffset - w.blockStart - (numEntries * 8).toNat)
    addressPayloadBytes := numEntries * 8 }

def TrailerFields.bytes (fields : TrailerFields) : List UInt8 :=
  leBytes 4 kAddressFormatV2.toNat ++ leBytes 4 fields.pageSize.toNat ++ leBytes 4 8 ++
    leBytes 4 fields.numEntries.toNat ++ leBytes 4 fields.addressPayloadOffset.toNat ++
    leBytes 4 fields.addressPayloadBytes.toNat

/-- `mini_trailer_size`, from the put position behind the fields. -/
def miniTrailerSize (w : ClusterStoreWriter) : UInt32 :=
  UInt32.ofNat ((w.put w.trailerFields.bytes).file.pos + 8 - w.currentOffset)

/-- The trailer of the current cluster. -/
def trailerBytes (w : ClusterStoreWriter) : List UInt8 :=
  w.trailerFields.bytes ++ leBytes 4 w.miniTrailerSize.toNat ++ leBytes 4 kBlockMagic.toNat

/-- The lookup entry of a cluster whose block ends at the put position. -/
def endedEntry (w : ClusterStoreWriter) : LookupEntry :=
  { w.entry with
    blockOffset := w.blockStart
    blockSize := w.file.pos - w.blockStart
    numFastscanBlocks := w.numFastscanBlocks
    exrabitqRegionOffset := w.exrabitqRegionOffset }

def endCluster (w : ClusterStoreWriter) : Outcome :=
  if !w.isOpen ∨ !w.inCluster then w.refuse "Not in a cluster block"
  else if !w.addressWritten then w.refuse "Must write address blocks before EndCluster"
  else
    (check (w.put w.trailerBytes) "Failed to write block mini-trailer").andThen fun w =>
      let w := { w.setEntry w.endedEntry with currentOffset := w.file.pos }
      let w := w.seek (w.lookupTableStart + w.currentClusterIndex * lookupEntrySize w.dim)
      (check (w.put w.entry.bytes) "Failed to patch lookup table entry").andThen fun w =>
        let w := (w.seek w.currentOffset).pad
        (none, { w with
          currentClusterIndex := w.currentClusterIndex + 1
          inCluster := false, vectorsWritten := false, addressWritten := false
          addressPageSize := 4096, rawEntries := []
          numFastscanBlocks := 0, exrabitqRegionOffset := 0 })

/-- `ClusterStoreWriter::Finalize`. -/
def finalize (path : List UInt8) (w : ClusterStoreWriter) : Outcome :=
  if !w.isOpen then w.refuse "ClusterStoreWriter not open"
  else if w.finalized then w.refuse "Already finalized"
  else if w.inCluster then w.refuse "Cluster not ended"
  else
    let w := w.seek w.headerPathOffset
    let pathLen := UInt32.ofNat path.length
    if kMaxPathLen < pathLen then w.refuse "data_file_path exceeds max length"
    else
      (check (w.put (leBytes 4 pathLen.toNat ++ path.take pathLen.toNat ++
          List.replicate (kMaxPathLen.toNat - pathLen.toNat) 0))
        "Failed to patch data_file_path").andThen fun w =>
        (none, { w with isOpen := false, finalized := true })

end ClusterStoreWriter

end VecFetch.Storage
