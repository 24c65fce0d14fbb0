/-
# Storage.ClusterReader -- what a cluster reader answers

A `ClusterStoreReader` keeps the header and the lookup table of a file, the clusters that were
loaded from it and the resident clusters.  Its queries read these fields and the version of the
file, which says how the bytes of a cluster are laid out.

What a resident view holds is handed out whole, so views and parsed clusters are of any type.
-/
import VecFetch.Storage.ClusterParse
import VecFetch.Storage.UnpackCodes
import VecFetch.Simd.Popcount

namespace VecFetch.Storage

open VecFetch.Theory VecFetch.Simd VecFetch.Rabitq VecFetch.Query

set_option autoImplicit false

/-! ## Readers -/

structure GlobalInfo where
  numClusters : UInt32 := 0
  dim : UInt32 := 0
  rabitqConfig : StoreConfig := {}
  dataFilePath : List UInt8 := []
  lookupTable : List LookupEntry := []

inductive AddressFormat where
  | v1Packed
  | v2RawTable
  deriving DecidableEq

/-- A loaded cluster. -/
structure ClusterData where
  codesOffset : ℕ
  codesLength : UInt32
  codesBuffer : Buffer
  addressFormat : AddressFormat
  addressLayout : AddressColumnLayout
  addressBlocks : List AddressBlock
  rawAddressesV2 : List RawAddressEntryV2
  decodedAddresses : List AddressEntry

/-- The memory that resident views point into: the file's buffer and the two mappings, each
with its base, its data and the sizes of both. -/
structure ResidentMemory where
  fileBuffer : List UInt8 := []
  mmapBase : Option ℕ := none
  mmapData : Option ℕ := none
  mmapMappingBytes : UInt64 := 0
  mmapDataBytes : UInt64 := 0
  codeSlabBase : Option ℕ := none
  codeSlabData : Option ℕ := none
  codeSlabMappingBytes : UInt64 := 0
  codeSlabDataBytes : UInt64 := 0

/-- What a preload reports; times are the bits of a `double`. -/
structure PreloadReport where
  ready : Bool := false
  preloadBytes : UInt64 := 0
  clusterMemBytes : UInt64 := 0
  fileSizeBytes : UInt64 := 0
  fileBufferBytes : UInt64 := 0
  codeStorageBytes : UInt64 := 0
  decodedAddressBytes : UInt64 := 0
  rawAddressBytes : UInt64 := 0
  parsedAddressDuplicateBytes : UInt64 := 0
  batchSize : UInt32 := 0
  mode : String := ""
  timeMs : UInt64 := 0
  parallelViewBytes : UInt64 := 0
  parallelViewBuildMs : UInt64 := 0
  stage1EnvelopeBytes : UInt64 := 0
  deriving DecidableEq

structure ClusterStoreReader (View Parsed : Type) where
  fd : ℤ := -1
  fileVersion : UInt32 := 0
  info : GlobalInfo := {}
  clusterIndex : UInt32 → Option ℕ := fun _ => none
  loadedClusters : UInt32 → Option ClusterData := fun _ => none
  memory : ResidentMemory := {}
  residentClusters : UInt32 → Option View := fun _ => none
  residentParsedClusters : UInt32 → Option Parsed := fun _ => none
  report : PreloadReport := {}

/-! ## Codes -/

/-- A buffer from an offset on. -/
def bytesFrom (b : Buffer) (off : ℕ) : Buffer := ⟨b.size - off, fun j => b.byte (off + j)⟩

/-- What `false` from an unpacker is reported as. -/
def unpackedOr (message : String) : Except Fault Buffer → Result Buffer
  | .ok out => .ok out
  | .error .refused => Status.corruption message
  | .error .outside => .error .outOfBounds

/-- `IsVectorContiguousOfficialLayout`. -/
def isVectorContiguousOfficialLayout (layout : RaBitQExDataLayout) : Bool :=
  isVectorBitplanesLayout layout || isVectorBitMajorTileLayout layout ||
    decide (layout.resolveSelected = .vectorNibble4) ||
      decide (layout.resolveSelected = .vector2Bit)

/-- `PopcountLow8`. -/
def popcountLow8 (v : ℕ) : ℕ := bitCount 8 v

section Codes

variable (build : Build) (g : ReaderGeometry) (codes : Buffer) (region1Size : UInt32)

/-- The batch block that `LoadCodes` reads a record from. -/
def loadedBatchBlock (blockId : UInt32) : Result BatchBlock :=
  if g.variableExBlocks then
    let region := region1Size.toNat
    (load32 codes region).bind fun magic =>
      (load32 codes (region + 4)).bind fun storedBatchBlocks =>
        if magic ≠ kVariableExRegionMagic ∨ storedBatchBlocks ≤ blockId then
          Status.corruption "Variable ExRaBitQ region header mismatch"
        else
          (load32 codes (region + 8 + 4 * blockId.toNat)).bind fun start =>
            (load32 codes (region + 8 + 4 * (blockId + 1).toNat)).bind fun stop =>
              -- `codes_buffer.size() - region1_size` is a `size_t`
              if stop < start ∨ (codes.size + 2 ^ 64 - region) % 2 ^ 64 < stop.toNat then
                Status.corruption "Variable ExRaBitQ block offset out of range"
              else .ok ⟨region + start.toNat, stop - start⟩
  else
    .ok ⟨region1Size.toNat + blockId.toNat * g.exrabitqBatchBlockSize.toNat,
      g.exrabitqBatchBlockSize⟩

/-- One plane of a lane among planes without their empty lanes; the state is the lane's planes
and the cursor. -/
def loadElidedPlane (lane plane : ℕ) (s : Buffer × ℕ) : Result (Buffer × ℕ) :=
  (Result.inBounds (codes.load s.2 1)).bind fun byte =>
    let mask := (byte 0).toNat
    let rank := popcountLow8 (mask &&& (1 <<< lane - 1))
    let laneBuf :=
      if mask.testBit lane then
        (Result.inBounds (codes.load (s.2 + 1 + rank * 8) 8)).bind fun word =>
          Result.inBounds (s.1.store (plane * 8) 8 word)
      else .ok s.1
    laneBuf.map fun laneBuf => (laneBuf, s.2 + 1 + popcountLow8 mask * 8)

/-- A lane of a batch block: the block's places, and the lane's. -/
structure BatchLane where
  block : BatchBlock
  validCount : UInt32
  laneId : ℕ

namespace BatchLane

variable (l : BatchLane)

def absBase : ℕ := l.block.offset + 4

def storedLanes : UInt32 := if g.variableExBlocks then l.validCount else 8

/-- Where the codes of a lane in a dim block start, if they have a place of their own. -/
def absPtr (db : ℕ) : ℕ :=
  let layout := g.config.effectiveExdataLayout
  let numDimBlocks := (dimBlockCount g.dim).toNat
  let absLaneBytes := g.exrabitqAbsBytesPerLaneDimBlock.toNat
  if g.variableExBlocks && isVectorContiguousOfficialLayout layout then
    l.absBase + (l.laneId * numDimBlocks + db) * absLaneBytes
  else if g.variableExBlocks && isSmallLaneBitplanesLayout layout then
    let subgroupLanes := smallLaneBitplanesGroupSize layout
    let groupStart := l.laneId / subgroupLanes * subgroupLanes
    let groupLanes := min subgroupLanes (l.validCount.toNat - groupStart)
    l.absBase + groupStart * numDimBlocks * absLaneBytes +
      (db * groupLanes + (l.laneId - groupStart)) * absLaneBytes
  else
    l.absBase + db * (l.storedLanes g).toNat * absLaneBytes + l.laneId * absLaneBytes

/-- The codes of a lane in a dim block, and the cursor behind them. -/
def absBytes (db cursor : ℕ) : Result (Buffer × ℕ) :=
  if g.variableExBlocks ∧ g.config.effectiveExdataLayout = .split3ZeroPlaneElide then
    (List.range g.config.stage2PayloadBits.toNat).foldlM
      (fun s plane => loadElidedPlane codes l.laneId plane s) (Buffer.zeros 32, cursor)
  else .ok (bytesFrom codes (l.absPtr g db), cursor)

end BatchLane

/-- The magnitudes of a dim block of one lane. -/
def unpackLane (packed : Buffer) : Result Buffer :=
  let layout := g.config.effectiveExdataLayout
  let bits := g.config.stage2PayloadBits
  unpackedOr "Failed to unpack ExRaBitQ packed magnitude block"
    (if g.config.usesOfficial1PlusN && layout.isDirect then
      if layout = .split3TwoPlusOne then
        exRaBitQUnpackOfficialDirect3 packed 64 layout (Buffer.zeros 64)
      else if layout = .vectorNibble4 then
        exRaBitQUnpackOfficialNibble4 packed 64 (Buffer.zeros 64)
      else if layout = .vector2Bit then exRaBitQUnpackOfficial2Bit packed 64 (Buffer.zeros 64)
      else exRaBitQUnpackOfficialDirectBitplanes packed 64 bits (Buffer.zeros 64)
    else exRaBitQUnpackMagnitudes build packed 64 bits (Buffer.zeros 64))

/-- `ex_code` and `ex_sign_packed` while the dim blocks of a lane are copied, and the cursor of
elided planes. -/
structure LaneCodes where
  exCode : Buffer
  exSign : Buffer
  cursor : ℕ

/-- The signs of a lane in dim block `db`, as many as `ex_sign_packed` has room for. -/
def loadSigns (l : BatchLane) (db : ℕ) (exSign : Buffer) : Result Buffer :=
  let signBase := l.absBase +
    (dimBlockCount g.dim * l.storedLanes g * g.exrabitqAbsBytesPerLaneDimBlock).toNat
  let signCopy := min 8 (exSign.size - 8 * db)
  if 0 < signCopy then
    (Result.inBounds (codes.load (signBase + db * 8 * 8 + l.laneId * 8) signCopy)).bind
      fun bytes => Result.inBounds (exSign.store (8 * db) signCopy bytes)
  else .ok exSign

/-- Dim block `db` of a lane. -/
def loadDimBlock (l : BatchLane) (s : LaneCodes) (db : ℕ) : Result LaneCodes :=
  let copy := min 64 (g.dim.toNat - 64 * db)
  (l.absBytes g codes db s.cursor).bind fun abs =>
    let magnitudes :=
      if g.exrabitqMagnitudePacked then (unpackLane build g abs.1).map Buffer.byte
      else Result.inBounds (abs.1.load 0 copy)
    magnitudes.bind fun bytes =>
      (Result.inBounds (s.exCode.store (64 * db) copy bytes)).bind fun exCode =>
        (if g.config.usesOfficial1PlusN then .ok s.exSign
          else loadSigns g codes l db s.exSign).map fun exSign => ⟨exCode, exSign, abs.2⟩

/-- All dimensions of a lane. -/
def loadLane (l : BatchLane) (s : LaneCodes) : Result LaneCodes :=
  let bits := g.config.stage2PayloadBits
  if g.variableExBlocks && isVectorBitMajorTileLayout g.config.effectiveExdataLayout then
    let vectorBytes := exRaBitQBitMajorTileVectorBytes g.dim bits
    if vectorBytes = 0 then Status.corruption "Invalid vector_bitmajor_tiles payload width"
    else
      (unpackedOr "Failed to unpack vector_bitmajor_tiles payload"
        (exRaBitQUnpackOfficialBitMajorTiles
          (bytesFrom codes (l.absBase + l.laneId * vectorBytes.toNat)) g.dim bits s.exCode)).map
        fun exCode => { s with exCode := exCode }
  else (List.range (dimBlockCount g.dim).toNat).foldlM (loadDimBlock build g codes l) s

/-- Float `k` of the `count` floats at the end of a batch block. -/
def loadFactor (block : BatchBlock) (count k : ℕ) : Result UInt32 :=
  if block.offset + block.bytes.toNat < count * 4 then .error .outOfBounds
  else load32 codes (block.offset + block.bytes.toNat - count * 4 + 4 * k)

/-- The first `n` bytes of a buffer. -/
def bytesOf (b : Buffer) (n : ℕ) : List UInt8 := (List.range n).map b.byte

/-- A vector of `n` bytes resized from a list. -/
def resized (bytes : List UInt8) (n : ℕ) : Buffer := ⟨n, fun j => bytes.getD j 0⟩

/-- The extra code of a record in a batch block; `officialXipnorm` is the float arithmetic on
norm and rescale factor. -/
def loadBatchCode (officialXipnorm : UInt32 → UInt32 → UInt32) (recordIdx : UInt32)
    (out : RaBitQCode) : Result RaBitQCode :=
  let official := g.config.usesOfficial1PlusN
  (loadedBatchBlock g codes region1Size (recordIdx / 8)).bind fun block =>
    (load32 codes block.offset).bind fun validCount =>
      let l : BatchLane := ⟨block, validCount, (recordIdx % 8).toNat⟩
      let stored := (l.storedLanes g).toNat
      if 8 < validCount ∨ validCount ≤ recordIdx % 8 then
        Status.invalidArgument "Record index points to invalid batch lane"
      else
        let signBytes := if official then 0 else (packedSignBytes g.dim).toNat
        (loadLane build g codes l
          ⟨resized out.exCode g.dim.toNat, Buffer.zeros signBytes, l.absBase⟩).bind fun lane =>
            let out := { out with
              exCode := bytesOf lane.exCode g.dim.toNat
              exSignPacked := bytesOf lane.exSign signBytes }
            if official then
              (loadFactor codes block (stored * 2) l.laneId).bind fun factorAdd =>
                (loadFactor codes block (stored * 2) (stored + l.laneId)).map fun rescale =>
                  { out with
                    exCodeSignFolded := true
                    exFactorAdd := factorAdd
                    exFactorRescale := rescale
                    xipnorm := officialXipnorm out.norm rescale }
            else
              (loadFactor codes block stored l.laneId).map fun xipnorm =>
                { out with xipnorm := xipnorm }

/-- `ex_sign_packed[d / 8] |= 1u << (d % 8)`. -/
def setSign (exSign : Buffer) (d : ℕ) : Result Buffer :=
  (Result.inBounds (exSign.load (d / 8) 1)).bind fun byte =>
    Result.inBounds (exSign.store (d / 8) 1 fun _ => byte 0 ||| UInt8.ofNat (1 <<< (d % 8)))

/-- The extra code of a record that has an entry of its own, before version 11. -/
def loadEntryCode (recordIdx : UInt32) (out : RaBitQCode) : Result RaBitQCode :=
  let dim := g.dim.toNat
  let signBytes := g.exrabitqSignBytes.toNat
  let packedBytes :=
    if g.config.usesOfficial1PlusN then 0 else (packedSignBytes g.dim).toNat
  let exPtr := region1Size.toNat + recordIdx.toNat * g.exrabitqEntrySize.toNat
  (Result.inBounds (codes.load exPtr dim)).bind fun exCode =>
    let signs : Result (List UInt8) :=
      if 10 ≤ g.fileVersion then
        (Result.inBounds (codes.load (exPtr + dim) signBytes)).map fun bytes =>
          (List.range signBytes).map bytes
      else
        ((List.range dim).foldlM (fun exSign d =>
          (Result.inBounds (codes.load (exPtr + dim + d) 1)).bind fun byte =>
            if byte 0 ≠ 0 then setSign exSign d else .ok exSign) (Buffer.zeros packedBytes)).map
          fun exSign => bytesOf exSign packedBytes
    signs.bind fun signs =>
      (load32 codes (exPtr + dim + signBytes)).map fun xipnorm =>
        { out with
          exCode := (List.range dim).map exCode
          exSignPacked := signs
          xipnorm := xipnorm }

end Codes

/-! ## Queries -/

/-- The address of a record of a loaded cluster, none past the last. -/
def ClusterData.address (data : ClusterData) (recordIdx : UInt32) : AddressEntry :=
  match data.addressFormat with
  | .v2RawTable =>
      match data.rawAddressesV2[recordIdx.toNat]? with
      | none => ⟨0, 0⟩
      | some entry => decodeRawEntryV2 entry data.addressLayout.pageSize
  | .v1Packed => data.decodedAddresses.getD recordIdx.toNat ⟨0, 0⟩

namespace ClusterStoreReader

variable {View Parsed : Type} (r : ClusterStoreReader View Parsed)

def geometry : ReaderGeometry := ⟨r.fileVersion, r.info.dim, r.info.rabitqConfig⟩

/-- The lookup entry of a cluster. -/
def entryOf (clusterId : UInt32) : Option LookupEntry :=
  (r.clusterIndex clusterId).map fun i => r.info.lookupTable.getD i {}

def clusterIds : List UInt32 := r.info.lookupTable.map LookupEntry.clusterId

def getNumRecords (clusterId : UInt32) : UInt32 :=
  match r.entryOf clusterId with
  | none => 0
  | some entry => entry.numRecords

def getCentroid (clusterId : UInt32) : Option (List UInt32) :=
  (r.entryOf clusterId).map LookupEntry.centroid

def getEpsilon (clusterId : UInt32) : UInt32 :=
  match r.entryOf clusterId with
  | none => 0
  | some entry => entry.epsilon

def totalRecords : UInt64 :=
  r.info.lookupTable.foldl (fun total e => total + e.numRecords.toUInt64) 0

/-- Offset, size and record count of a block. -/
def getBlockLocation (clusterId : UInt32) : Option (ℕ × ℕ × UInt32) :=
  (r.entryOf clusterId).map fun entry => (entry.blockOffset, entry.blockSize, entry.numRecords)

def getAddress (clusterId recordIdx : UInt32) : AddressEntry :=
  match r.loadedClusters clusterId with
  | none => ⟨0, 0⟩
  | some data => data.address recordIdx

def getAddresses (clusterId : UInt32) (indices : List UInt32) : List AddressEntry :=
  indices.map (r.getAddress clusterId)

def loadCode (clusterId recordIdx : UInt32) : Result (List UInt64) :=
  if r.fd < 0 then Status.invalidArgument "ClusterStoreReader not open"
  else
    match r.loadedClusters clusterId with
    | none => Status.invalidArgument "Cluster not loaded — call EnsureClusterLoaded first"
    | some data =>
        match r.entryOf clusterId with
        | none => Status.invalidArgument "Cluster not found"
        | some entry =>
            if entry.numRecords ≤ recordIdx then
              Status.invalidArgument "Record index out of range"
            else
              let blockData := bytesFrom data.codesBuffer
                ((recordIdx / 32).toNat * r.geometry.fastscanBlockBytes.toNat)
              (Result.inBounds (unpackSignBitsFromFastScan r.info.dim.toNat blockData
                (recordIdx % 32).toNat fun _ => 0)).map fun words =>
                  (List.range ((r.info.dim + 63) / 64).toNat).map words

/-- One turn of `LoadCodes`, onto what `out_codes` holds for the record. -/
def loadRecord (build : Build) (officialXipnorm : UInt32 → UInt32 → UInt32)
    (clusterId : UInt32) (entry : LookupEntry) (recordIdx : UInt32) (out : RaBitQCode) :
    Result RaBitQCode :=
  let g := r.geometry
  (r.loadCode clusterId recordIdx).bind fun code =>
    (Result.inBounds (r.loadedClusters clusterId)).bind fun data =>
      let normAt := (recordIdx / 32).toNat * g.fastscanBlockBytes.toNat +
        g.fastscanPackedSize.toNat + 4 * (recordIdx % 32).toNat
      (load32 data.codesBuffer normAt).bind fun norm =>
        let out := { out with
          code := code
          bits := g.config.activeCodeBits
          norm := norm
          sumX := code.foldl (fun sum w => sum + UInt32.ofNat (popcount64 w)) 0 }
        let region1Size := entry.numFastscanBlocks * g.fastscanBlockBytes
        if 0 < g.config.stage2PayloadBits ∧ (11 ≤ g.fileVersion ∨ 0 < g.exrabitqEntrySize) then
          if 11 ≤ g.fileVersion then
            loadBatchCode build g data.codesBuffer region1Size officialXipnorm recordIdx out
          else loadEntryCode g data.codesBuffer region1Size recordIdx out
        else .ok out

/-- `LoadCodes`, onto what `out_codes` holds. -/
def loadCodes (build : Build) (officialXipnorm : UInt32 → UInt32 → UInt32) (clusterId : UInt32)
    (indices : List UInt32) (outCodes : List RaBitQCode) : Result (List RaBitQCode) :=
  if r.fd < 0 then Status.invalidArgument "ClusterStoreReader not open"
  else
    match r.entryOf clusterId with
    | none => Status.invalidArgument "Cluster not found"
    | some entry =>
        indices.zipIdx.mapM fun (recordIdx, i) =>
          r.loadRecord build officialXipnorm clusterId entry recordIdx
            (outCodes.getD i { code := [], norm := 0, sumX := 0 })

/-- `GetCodePtr`: an offset among the codes of a loaded cluster. -/
def getCodePtr (clusterId recordIdx : UInt32) : Option ℕ :=
  (r.loadedClusters clusterId).bind fun data =>
    let fbBytes := r.geometry.fastscanBlockBytes
    let offset := recordIdx / 32 * fbBytes
    if data.codesBuffer.size < (offset + fbBytes).toNat then none else some offset.toNat

/-- `ParseClusterBlockView`. -/
def parse (build : Build) (clusterId : UInt32) (blockPtr : Option (ℕ → UInt8))
    (blockSize : UInt64) : Result ParsedCluster :=
  parseClusterBlockView build r.geometry clusterId (r.entryOf clusterId) blockPtr blockSize

end ClusterStoreReader

end VecFetch.Storage
