/-
# Storage.ClusterOpen -- opening a cluster file

`ClusterStoreReader::Open` reads the header, whose length depends on the version, and the lookup
table behind it.  What it has read of the header when it fails stays in the closed reader.  A
finished file is opened with the configuration, the path and the lookup table it was written with
(`open_finished`).

A `pread` gives all bytes it is asked for that the file has; what the header's buffer holds behind
them is arbitrary.  An allocation fails from `2 ^ 63` bytes on.
-/
import VecFetch.Storage.ReaderMove
import VecFetch.Storage.ClusterLoad
import VecFetch.Storage.ClusterFields
import VecFetch.Theory.Fields

namespace VecFetch.Storage

open VecFetch.Theory VecFetch.Simd VecFetch.Rabitq VecFetch.Query ClusterStoreWriter

set_option autoImplicit false

/-! ## The header -/

/-- `memcpy` of a value of `width` bytes. -/
def valueAt (file : Buffer) (width off : ℕ) : ℕ := leNat (fun j => file.byte (off + j)) width

/-- `RaBitQEstimatorModeFromByte`. -/
def raBitQEstimatorModeFromByte (mode : UInt8) : RaBitQEstimatorMode :=
  if mode = 1 then .official1PlusN else .legacySignedMagnitude

/-- `RaBitQExDataLayoutByteValid`. -/
def raBitQExDataLayoutByteValid (layout : UInt8) : Bool :=
  decide (layout.toNat < RaBitQExDataLayout.stored.length)

/-- `RaBitQExDataLayoutFromByte`. -/
def raBitQExDataLayoutFromByte (layout : UInt8) : RaBitQExDataLayout :=
  RaBitQExDataLayout.stored.getD layout.toNat .genericPacked

/-- What is read so far, and why no more, if so. -/
abbrev Reading (α : Type) := Except (Failure × α) α

def Reading.refuse {α : Type} (read : α) (code : StatusCode) (message : String) : Reading α :=
  .error (.status code message, read)

/-- The version is one of those that `Open` reads. -/
def supportedVersion (version : UInt32) : Bool := decide (7 ≤ version ∧ version ≤ 15)

/-- The configuration in a header from version 13 on. -/
def readOfficialConfig (file : Buffer) (version : UInt32) (config : StoreConfig) :
    Reading StoreConfig :=
  let config := { config with
    totalBits := file.byte 25
    exBits := file.byte 26
    estimatorMode := raBitQEstimatorModeFromByte (file.byte 27)
    exdataLayout := .genericPacked }
  if 14 ≤ version ∧ !raBitQExDataLayoutByteValid (file.byte 28) then
    .refuse config .corruption "unknown RaBitQ ExData layout byte"
  else
    let config :=
      if 14 ≤ version then
        { config with exdataLayout := raBitQExDataLayoutFromByte (file.byte 28) }
      else config
    if !config.usesOfficial1PlusN then
      .refuse config .corruption "v13 ClusterStore requires official_1_plus_n mode"
    else if !config.officialBitsValid then
      .refuse config .corruption "official RaBitQ metadata violates total_bits == ex_bits + 1"
    else if !supportsOfficialExDataBits config.exBits then
      .refuse config .notSupported "official RaBitQ ExData supports only ex_bits=0,1,2,3,4"
    else if !config.exdataLayoutValid then
      .refuse config .corruption "official RaBitQ ExData layout is incompatible with ex_bits"
    else .ok config

/-- The configuration in a header of an earlier version. -/
def readLegacyConfig (version : UInt32) (config : StoreConfig) : Reading StoreConfig :=
  let config := { config with
    estimatorMode := .legacySignedMagnitude
    totalBits := config.bits
    exBits := if 1 < config.bits then config.bits else 0
    exdataLayout := .genericPacked }
  if 12 ≤ version ∧ 1 < config.bits ∧ !supportsPackedStage2MagnitudeBits config.bits then
    .refuse config .notSupported "Packed ExRaBitQ Stage2 magnitude supports only bits=2 or bits=4"
  else .ok config

/-- The configuration in a header. -/
def readConfig (file : Buffer) (version : UInt32) (config : StoreConfig) : Reading StoreConfig :=
  let config := { config with
    bits := file.byte 16, blockSize := wordAt file 17, cFactor := wordAt file 21 }
  if 13 ≤ version then readOfficialConfig file version config else readLegacyConfig version config

/-- The bytes of a header before the path. -/
def headerSize (version : UInt32) : ℕ :=
  if 14 ≤ version then 29 else if 13 ≤ version then 28 else 25

/-- The fields of a header. -/
def readInfo (file : Buffer) (version : UInt32) (info : GlobalInfo) : Reading GlobalInfo :=
  let info := { info with numClusters := wordAt file 8, dim := wordAt file 12 }
  match readConfig file version info.rabitqConfig with
  | .error (failure, config) => .error (failure, { info with rabitqConfig := config })
  | .ok config =>
      let info := { info with rabitqConfig := config }
      let pathLen := wordAt file (headerSize version)
      if kMaxPathLen < pathLen then
        .refuse info .corruption "data_file_path length exceeds max"
      else
        .ok { info with
          dataFilePath := (List.range pathLen.toNat).map fun j =>
            file.byte (headerSize version + 4 + j) }

/-! ## The lookup table -/

/-- `lookup_table.resize`. -/
def resizeTable (table : List LookupEntry) (n : ℕ) : List LookupEntry :=
  table.take n ++ List.replicate (n - table.length) ({} : LookupEntry)

/-- An entry of the lookup table. -/
def readEntry (file : Buffer) (dim : UInt32) (start : ℕ) : LookupEntry :=
  let centroid := start + 4 + 4 + 4
  let block := centroid + dim.toNat * 4
  { clusterId := wordAt file start
    numRecords := wordAt file (start + 4)
    epsilon := wordAt file (start + 4 + 4)
    centroid := (List.range dim.toNat).map fun j => wordAt file (centroid + j * 4)
    blockOffset := valueAt file 8 block
    blockSize := valueAt file 8 (block + 8)
    numFastscanBlocks := wordAt file (block + 8 + 8)
    exrabitqRegionOffset := wordAt file (block + 8 + 8 + 4) }

/-- The lookup table at `pos`. -/
def readLookup (file : Buffer) (pos : ℕ) (info : GlobalInfo) : Reading GlobalInfo :=
  let info := { info with lookupTable := resizeTable info.lookupTable info.numClusters.toNat }
  let entries := info.numClusters.toNat * lookupEntrySize info.dim
  let totalLookupSize := entries % 2 ^ 64
  if 2 ^ 64 ≤ totalLookupSize + (kAlignSize - 1) then .error (.outOfBounds, info)
  else if 2 ^ 63 ≤ roundUp4K totalLookupSize then
    .refuse info .ioError "aligned_alloc failed for lookup"
  else if 2 ^ 63 ≤ roundUp4K (totalLookupSize + pos) then
    .refuse info .ioError "aligned_alloc failed"
  else if file.size < totalLookupSize + pos then
    .refuse info .ioError "Failed to bulk read lookup table"
  -- the entries are read out of a buffer of the wrapped size
  else if roundUp4K totalLookupSize < entries then .error (.outOfBounds, info)
  else
    .ok { info with
      lookupTable := (List.range info.numClusters.toNat).map fun i =>
        readEntry file info.dim (pos + i * lookupEntrySize info.dim) }

/-- `cluster_index_[entry.cluster_id] = i`, entry after entry. -/
def indexEntries (table : List LookupEntry) : UInt32 → Option ℕ :=
  table.zipIdx.foldl (fun index row => Function.update index row.1.clusterId (some row.2))
    fun _ => none

/-! ## Open -/

/-- What a file holds before its blocks: the version and the header with its table. -/
def readFile (file : Buffer) (info : GlobalInfo) :
    Except (Failure × GlobalInfo) (UInt32 × GlobalInfo) :=
  if min kAlignSize file.size < 285 then .error (.status .ioError "Failed to read header", info)
  else if wordAt file 0 ≠ kGlobalMagic then
    .error (.status .corruption "Invalid ClusterStore magic", info)
  else
    let version := wordAt file 4
    if !supportedVersion version then
      .error (.status .notSupported s!"Unsupported ClusterStore version: {version}", info)
    else
      ((readInfo file version info).bind (readLookup file (headerSize version + 260))).map
        fun info => (version, info)

namespace ClusterStoreReader

variable {View Parsed : Type}

/-- `ClusterStoreReader::Open`, `fd` being what the system opens the file as. -/
def «open» (path : String) (fd : ℤ) (file : Buffer) (r : ClusterStoreReader View Parsed) :
    Option Failure × ClusterStoreReader View Parsed :=
  if 0 ≤ r.fd then
    (some (.status .invalidArgument "ClusterStoreReader already open"), r)
  else if fd < 0 then
    (some (.status .ioError ("Failed to open ClusterStore: " ++ path)), { r with fd := fd })
  else
    match readFile file r.info with
    | .error (failure, info) =>
        (some failure, close { r with fd := fd, info := info })
    | .ok (version, info) =>
        (none, { r with
          fd := fd, fileVersion := version, info := info
          clusterIndex := indexEntries info.lookupTable })

end ClusterStoreReader

/-! ## What a writer wrote -/

/-- The fields of a header before the path. -/
def headerFields (version numClusters dim : UInt32) (config : StoreConfig) : Fields :=
  (4, kGlobalMagic.toNat) :: (4, version.toNat) :: (4, numClusters.toNat) :: (4, dim.toNat) ::
    (1, config.bits.toNat) :: (4, config.blockSize.toNat) :: (4, config.cFactor.toNat) ::
      if 13 ≤ version then
        (1, config.totalBits.toNat) :: (1, config.exBits.toNat) ::
          (1, if config.usesOfficial1PlusN then 1 else 0) ::
            if 14 ≤ version then [(1, RaBitQExDataLayout.stored.idxOf config.exdataLayout)] else []
      else []

theorem headerFields_bytes (version numClusters dim : UInt32) (config : StoreConfig) :
    (headerFields version numClusters dim config).bytes =
      headerBytes version numClusters dim config := by
  rw [headerFields, headerBytes]
  split_ifs <;> simp

theorem headerFields_size (version numClusters dim : UInt32) (config : StoreConfig) :
    (headerFields version numClusters dim config).size = headerSize version := by
  rw [headerFields, headerSize]
  by_cases fourteen : 14 ≤ version
  · have thirteen : 13 ≤ version := UInt32.le_trans (by decide) fourteen
    simp [thirteen, fourteen]
  · by_cases thirteen : 13 ≤ version <;> simp [thirteen, fourteen]

/-- The fields of an entry. -/
def LookupEntry.fields (entry : LookupEntry) : Fields :=
  (4, entry.clusterId.toNat) :: (4, entry.numRecords.toNat) :: (4, entry.epsilon.toNat) ::
    (entry.centroid.map (fun x => (4, x.toNat)) ++
      [(8, entry.blockOffset), (8, entry.blockSize), (4, entry.numFastscanBlocks.toNat),
        (4, entry.exrabitqRegionOffset.toNat)])

theorem LookupEntry.fields_bytes (entry : LookupEntry) :
    Fields.bytes entry.fields = entry.bytes := by
  rw [LookupEntry.fields, LookupEntry.bytes]
  simp [Fields.bytes, List.flatMap_map]

/-! ## What a reader reads of it -/

section Reads

variable {held : List UInt8} {start : ℕ} {rest : Fields}

theorem valueAt_field {width n : ℕ} (here : Fields.At held start ((width, n) :: rest))
    (small : n < 2 ^ (8 * width)) : valueAt (Buffer.ofList held) width start = n :=
  here.value small

theorem wordAt_field {v : UInt32} (here : Fields.At held start ((4, v.toNat) :: rest)) :
    wordAt (Buffer.ofList held) start = v := by
  rw [wordAt]
  exact (congrArg UInt32.ofNat (here.value v.toNat_lt)).trans UInt32.ofNat_toNat

theorem byte_field {b : UInt8} (here : Fields.At held start ((1, b.toNat) :: rest)) :
    (Buffer.ofList held).byte start = b := by
  have value := here.value b.toNat_lt
  rw [leNat, leNat, Nat.add_zero] at value
  refine UInt8.toNat_inj.1 (Eq.trans ?_ value)
  simp [Buffer.ofList]

/-- **An entry is read as it was written.** -/
theorem readEntry_fields {entry : LookupEntry} {dim : UInt32}
    (here : Fields.At held start entry.fields) (centroid : entry.centroid.length = dim.toNat)
    (offset : entry.blockOffset < 2 ^ 64) (size : entry.blockSize < 2 ^ 64) :
    readEntry (Buffer.ofList held) dim start = entry := by
  obtain ⟨floats, behind⟩ := here.tail.tail.tail.append
  rw [Fields.size_map, centroid] at behind
  have words : ((List.range dim.toNat).map fun j =>
      wordAt (Buffer.ofList held) (start + 4 + 4 + 4 + j * 4)) = entry.centroid := by
    refine List.ext_getElem (by simp [centroid]) fun j inside below => ?_
    rw [List.getElem_map, List.getElem_range]
    have word := floats.nth (List.getElem?_eq_getElem below) (UInt32.toNat_lt _)
    rw [wordAt]
    exact (congrArg UInt32.ofNat word).trans UInt32.ofNat_toNat
  simp only [readEntry]
  rw [words, wordAt_field here, wordAt_field here.tail, wordAt_field here.tail.tail,
    valueAt_field behind offset, valueAt_field behind.tail size, wordAt_field behind.tail.tail,
    wordAt_field behind.tail.tail.tail]

end Reads

/-! ## The configuration -/

section Config

variable {env : Option ℤ} {config kept : StoreConfig}

theorem resolveSelectedForBits_twice (layout : RaBitQExDataLayout) (exBits : UInt8) :
    (layout.resolveSelectedForBits exBits).resolveSelectedForBits exBits =
      layout.resolveSelectedForBits exBits := by
  by_cases selected : layout = .selectedDirect
  · subst selected
    simp only [RaBitQExDataLayout.resolveSelectedForBits]
    split_ifs <;> simp_all
  · rw [RaBitQExDataLayout.resolveSelectedForBits, RaBitQExDataLayout.resolveSelectedForBits,
      if_pos selected, if_pos selected]

/-- A version below 14 has no byte for the layout, which is the generic one there. -/
theorem generic_of_indirect {layout : RaBitQExDataLayout} (indirect : layout.isDirect = false) :
    layout = .genericPacked := by
  cases layout <;> first | rfl | cases indirect

theorem stored_getD (layout : RaBitQExDataLayout) :
    RaBitQExDataLayout.stored.getD (RaBitQExDataLayout.stored.idxOf layout) .genericPacked =
      layout := by
  cases layout <;> rfl

theorem stored_idxOf_lt (layout : RaBitQExDataLayout) :
    RaBitQExDataLayout.stored.idxOf layout < 16 := by
  cases layout <;> decide

theorem legacyVersion_lt (bits : UInt8) : effectiveLegacyWriterFileVersion env bits < 13 := by
  unfold effectiveLegacyWriterFileVersion
  cases env <;> dsimp only <;> split_ifs <;> decide

/-- What an official configuration is once a writer keeps it. -/
structure OfficialKept (env : Option ℤ) (kept : StoreConfig) : Prop where
  bits : kept.officialBitsValid = true
  supported : supportsOfficialExDataBits kept.exBits = true
  layout : kept.exdataLayoutValid = true
  thirteen : 13 ≤ effectiveWriterFileVersion env kept
  generic : ¬ 14 ≤ effectiveWriterFileVersion env kept → kept.exdataLayout = .genericPacked

theorem effectiveExdataLayout_kept (config : StoreConfig) (bits : UInt8)
    (official : config.usesOfficial1PlusN = true) :
    ({ config with exdataLayout := config.effectiveExdataLayout, bits := bits } :
      StoreConfig).effectiveExdataLayout = config.effectiveExdataLayout := by
  have effective : config.effectiveExdataLayout =
      config.exdataLayout.resolveSelectedForBits config.exBits := if_pos official
  refine (if_pos official).trans ?_
  rw [effective]
  exact resolveSelectedForBits_twice _ _

/-- A version is 13 exactly for layouts that are not direct. -/
theorem officialVersion (official : config.usesOfficial1PlusN = true) :
    13 ≤ effectiveWriterFileVersion env config ∧
      (¬ 14 ≤ effectiveWriterFileVersion env config →
        config.effectiveExdataLayout.isDirect = false) := by
  rw [effectiveWriterFileVersion, if_pos official]
  split
  · exact ⟨by decide, fun low => absurd (by decide) low⟩
  · split
    · exact ⟨by decide, fun low => absurd (by decide) low⟩
    · next indirect => exact ⟨by decide, fun _ => Bool.eq_false_iff.2 indirect⟩

theorem exdataLayoutValid_congr {a b : StoreConfig} (official : a.usesOfficial1PlusN = true)
    (official' : b.usesOfficial1PlusN = true) (exBits : a.exBits = b.exBits)
    (layout : a.effectiveExdataLayout = b.effectiveExdataLayout) :
    a.exdataLayoutValid = b.exdataLayoutValid := by
  rw [StoreConfig.exdataLayoutValid, StoreConfig.exdataLayoutValid, official, official', exBits,
    layout]
  rfl

theorem opened_official (official : config.usesOfficial1PlusN = true)
    (accepted : config.opened env = .ok kept) :
    kept.usesOfficial1PlusN = true ∧ OfficialKept env kept := by
  rw [StoreConfig.opened, if_pos official] at accepted
  split at accepted
  · cases accepted
  · next bits =>
      split at accepted
      · cases accepted
      · next supported =>
          split at accepted
          · cases accepted
          · next valid =>
              have keeps := Except.ok.inj accepted
              have mode : kept.usesOfficial1PlusN = true := by rw [← keeps]; exact official
              have same : kept.effectiveExdataLayout = config.effectiveExdataLayout := by
                rw [← keeps]
                exact effectiveExdataLayout_kept config _ official
              have layout : kept.exdataLayout = config.effectiveExdataLayout := by rw [← keeps]
              have exBits : kept.exBits = config.exBits := by rw [← keeps]
              have totalBits : kept.totalBits = config.totalBits := by rw [← keeps]
              obtain ⟨thirteen, generic⟩ := @officialVersion env kept mode
              refine ⟨mode, ?_, ?_, ?_, thirteen, fun low => ?_⟩
              · have bits : config.officialBitsValid = true := by simpa using bits
                rw [StoreConfig.officialBitsValid, official] at bits
                rwa [StoreConfig.officialBitsValid, mode, totalBits, exBits]
              · rw [exBits]
                simpa using supported
              · rw [exdataLayoutValid_congr mode official exBits same]
                simpa using valid
              · rw [layout, ← same]
                exact generic_of_indirect (generic low)

/-- What a legacy configuration is once a writer keeps it. -/
structure LegacyKept (env : Option ℤ) (kept : StoreConfig) : Prop where
  totalBits : kept.totalBits = kept.bits
  exBits : kept.exBits = if 1 < kept.bits then kept.bits else 0
  layout : kept.exdataLayout = .genericPacked
  version : ¬ 13 ≤ effectiveWriterFileVersion env kept
  supported : ¬ (12 ≤ effectiveWriterFileVersion env kept ∧ 1 < kept.bits ∧
    !supportsPackedStage2MagnitudeBits kept.bits)

theorem opened_legacy (legacy : config.usesOfficial1PlusN = false)
    (accepted : config.opened env = .ok kept) :
    kept.usesOfficial1PlusN = false ∧ LegacyKept env kept := by
  have mode : ¬ config.usesOfficial1PlusN = true := Bool.eq_false_iff.1 legacy
  rw [StoreConfig.opened, if_neg mode] at accepted
  split at accepted
  · cases accepted
  · split at accepted
    · cases accepted
    · next supported =>
        obtain rfl := Except.ok.inj accepted
        have version : effectiveWriterFileVersion env { config with
            totalBits := config.bits
            exBits := if 1 < config.bits then config.bits else 0
            exdataLayout := .genericPacked } =
              effectiveLegacyWriterFileVersion env config.bits := if_neg mode
        have same : effectiveWriterFileVersion env config =
            effectiveLegacyWriterFileVersion env config.bits := if_neg mode
        refine ⟨legacy, rfl, rfl, rfl, ?_, ?_⟩
        · rw [version]
          exact UInt32.not_le.2 (legacyVersion_lt config.bits)
        · rw [version, ← same]
          exact supported

/-! ## The header -/

section Header

variable {held : List UInt8} {numClusters dim : UInt32}

theorem config_ext {a b : StoreConfig} (bits : a.bits = b.bits)
    (totalBits : a.totalBits = b.totalBits) (exBits : a.exBits = b.exBits)
    (mode : a.estimatorMode = b.estimatorMode) (blockSize : a.blockSize = b.blockSize)
    (cFactor : a.cFactor = b.cFactor) (layout : a.exdataLayout = b.exdataLayout) : a = b := by
  rcases a with ⟨⟨_, _, _, _⟩, _, _, _⟩
  rcases b with ⟨⟨_, _, _, _⟩, _, _, _⟩
  cases bits
  cases totalBits
  cases exBits
  cases mode
  cases blockSize
  cases cFactor
  cases layout
  rfl

/-- The fields from version 13 on. -/
theorem readOfficialConfig_kept (official : kept.usesOfficial1PlusN = true)
    (holds : OfficialKept env kept)
    (here : Fields.At held 25 ((1, kept.totalBits.toNat) :: (1, kept.exBits.toNat) ::
      (1, if kept.usesOfficial1PlusN then 1 else 0) ::
        if 14 ≤ effectiveWriterFileVersion env kept then
          [(1, RaBitQExDataLayout.stored.idxOf kept.exdataLayout)] else []))
    {before : StoreConfig} (bits : before.bits = kept.bits)
    (blockSize : before.blockSize = kept.blockSize) (cFactor : before.cFactor = kept.cFactor) :
    readOfficialConfig (Buffer.ofList held) (effectiveWriterFileVersion env kept) before =
      .ok kept := by
  have modeKept : kept.estimatorMode = .official1PlusN := by
    simpa [RaBitQConfig.usesOfficial1PlusN] using official
  have totalBits : (Buffer.ofList held).byte 25 = kept.totalBits := byte_field here
  have exBits : (Buffer.ofList held).byte 26 = kept.exBits := byte_field here.tail
  have mode : (Buffer.ofList held).byte 27 = 1 := by
    have field := here.tail.tail
    rw [official] at field
    exact @byte_field held 27 _ 1 field
  have layoutByte : 14 ≤ effectiveWriterFileVersion env kept →
      ((Buffer.ofList held).byte 28).toNat = RaBitQExDataLayout.stored.idxOf kept.exdataLayout := by
    intro fourteen
    have field := here.tail.tail.tail
    rw [if_pos fourteen] at field
    have small := stored_idxOf_lt kept.exdataLayout
    have value := field.value (by omega)
    rw [leNat, leNat] at value
    simpa [Buffer.ofList] using value
  have whole : { before with
      totalBits := kept.totalBits, exBits := kept.exBits, estimatorMode := .official1PlusN
      exdataLayout := kept.exdataLayout } = kept :=
    config_ext bits rfl rfl modeKept.symm blockSize cFactor rfl
  have decoded : raBitQEstimatorModeFromByte 1 = .official1PlusN := rfl
  rw [readOfficialConfig, totalBits, exBits, mode, decoded]
  by_cases fourteen : 14 ≤ effectiveWriterFileVersion env kept
  · have valid : raBitQExDataLayoutByteValid ((Buffer.ofList held).byte 28) = true := by
      rw [raBitQExDataLayoutByteValid, layoutByte fourteen]
      exact decide_eq_true (stored_idxOf_lt _)
    have layout : raBitQExDataLayoutFromByte ((Buffer.ofList held).byte 28) =
        kept.exdataLayout := by
      rw [raBitQExDataLayoutFromByte, layoutByte fourteen, stored_getD]
    simp only [fourteen, valid, layout, whole, official, holds.bits, holds.supported, holds.layout,
      if_true, Bool.not_true, Bool.false_eq_true, and_false, if_false]
  · have layout := holds.generic fourteen
    rw [layout] at whole
    simp only [fourteen, whole, official, holds.bits, holds.supported, holds.layout,
      Bool.not_true, Bool.false_eq_true, false_and, if_false]

/-- **The configuration is read as it was kept.** -/
theorem readConfig_kept (accepted : config.opened env = .ok kept)
    (here : Fields.At held 0
      (headerFields (effectiveWriterFileVersion env kept) numClusters dim kept))
    (before : StoreConfig) :
    readConfig (Buffer.ofList held) (effectiveWriterFileVersion env kept) before = .ok kept := by
  have tail := here.tail.tail.tail.tail
  have bits : (Buffer.ofList held).byte 16 = kept.bits := byte_field tail
  have blockSize : wordAt (Buffer.ofList held) 17 = kept.blockSize := wordAt_field tail.tail
  have cFactor : wordAt (Buffer.ofList held) 21 = kept.cFactor := wordAt_field tail.tail.tail
  rw [readConfig, bits, blockSize, cFactor]
  cases mode : config.usesOfficial1PlusN with
  | true =>
      obtain ⟨official, holds⟩ := opened_official mode accepted
      have behind := tail.tail.tail.tail
      rw [if_pos holds.thirteen] at behind
      rw [if_pos holds.thirteen]
      exact readOfficialConfig_kept official holds behind rfl rfl rfl
  | false =>
      obtain ⟨legacy, holds⟩ := opened_legacy mode accepted
      have modeKept : kept.estimatorMode = .legacySignedMagnitude := by
        cases same : kept.estimatorMode with
        | legacySignedMagnitude => rfl
        | official1PlusN =>
            rw [RaBitQConfig.usesOfficial1PlusN, same] at legacy
            cases legacy
      rw [if_neg holds.version, readLegacyConfig]
      exact (if_neg holds.supported).trans (congrArg Except.ok
        (config_ext rfl holds.totalBits.symm holds.exBits.symm modeKept.symm rfl rfl
          holds.layout.symm))

end Header

end Config

/-! ## A file as it is laid out -/

/-- What opening a file needs of its bytes. -/
structure LaidFor (bytes : List UInt8) (env : Option ℤ) (numClusters dim : UInt32)
    (kept : StoreConfig) (path : List UInt8) (table : List LookupEntry) : Prop where
  accepted : ∃ config : StoreConfig, config.opened env = .ok kept
  header : Fields.At bytes 0
    (headerFields (effectiveWriterFileVersion env kept) numClusters dim kept)
  pathHere : slice bytes (headerSize (effectiveWriterFileVersion env kept)) 260 = pathBytes path
  pathShort : UInt32.ofNat path.length ≤ kMaxPathLen
  length : table.length = numClusters.toNat
  entries : ∀ i entry, table[i]? = some entry →
    Fields.At bytes (headerSize (effectiveWriterFileVersion env kept) + 260 +
        i * lookupEntrySize dim) entry.fields ∧
      entry.centroid.length = dim.toNat ∧ entry.blockOffset < 2 ^ 64 ∧ entry.blockSize < 2 ^ 64
  room : roundUp4K (headerSize (effectiveWriterFileVersion env kept) + 260 +
    numClusters.toNat * lookupEntrySize dim) ≤ bytes.length
  small : bytes.length < 2 ^ 63

/-- The bytes from a place on. -/
theorem map_byte {held : List UInt8} {start n : ℕ} (inside : start + n ≤ held.length) :
    ((List.range n).map fun j => (Buffer.ofList held).byte (start + j)) = slice held start n := by
  refine List.ext_getElem ?_ fun j below below' => ?_
  · rw [List.length_map, List.length_range, slice_length inside]
  · rw [List.getElem_map, List.getElem_range]
    rw [List.length_map, List.length_range] at below
    have here : start + j < held.length := by omega
    simp [Buffer.ofList, slice, here]

theorem headerSize_le (version : UInt32) : 25 ≤ headerSize version ∧ headerSize version ≤ 29 := by
  rw [headerSize]
  split_ifs <;> omega

theorem supportedVersion_writer (env : Option ℤ) (config : StoreConfig) :
    supportedVersion (effectiveWriterFileVersion env config) = true := by
  refine decide_eq_true ?_
  unfold effectiveWriterFileVersion effectiveLegacyWriterFileVersion
  cases env <;> dsimp only <;> split_ifs <;> decide

namespace LaidFor

variable {bytes : List UInt8} {env : Option ℤ} {numClusters dim : UInt32} {kept : StoreConfig}
variable {path : List UInt8} {table : List LookupEntry}

theorem tableEnd (laid : LaidFor bytes env numClusters dim kept path table) :
    headerSize (effectiveWriterFileVersion env kept) + 260 +
      numClusters.toNat * lookupEntrySize dim ≤ bytes.length :=
  Nat.le_trans (le_roundUp4K _) laid.room

theorem readInfo (laid : LaidFor bytes env numClusters dim kept path table) (info : GlobalInfo) :
    readInfo (Buffer.ofList bytes) (effectiveWriterFileVersion env kept) info =
      .ok { info with
        numClusters := numClusters, dim := dim, rabitqConfig := kept
        dataFilePath := path.take (UInt32.ofNat path.length).toNat } := by
  obtain ⟨config, accepted⟩ := laid.accepted
  have clusters : wordAt (Buffer.ofList bytes) 8 = numClusters := wordAt_field laid.header.tail.tail
  have dims : wordAt (Buffer.ofList bytes) 12 = dim := wordAt_field laid.header.tail.tail.tail
  have ends := laid.tableEnd
  set start := headerSize (effectiveWriterFileVersion env kept) with startDef
  have whole := laid.pathHere
  have total := pathBytes_length laid.pathShort
  rw [← total, pathBytes, List.append_assoc] at whole
  rw [List.length_append] at whole
  obtain ⟨lengthHere, rest⟩ := slice_append_inj whole
  rw [List.length_append] at rest
  obtain ⟨pathHere, -⟩ := slice_append_inj rest
  have pathLen : wordAt (Buffer.ofList bytes) start = UInt32.ofNat path.length := by
    have field : Fields.At bytes start [(4, (UInt32.ofNat path.length).toNat)] := by
      simpa [Fields.At] using lengthHere
    exact wordAt_field field
  have cut : (path.take (UInt32.ofNat path.length).toNat).length =
      (UInt32.ofNat path.length).toNat := by
    rw [List.length_take, UInt32.toNat_ofNat']
    exact Nat.min_eq_left (Nat.mod_le _ _)
  have short := laid.pathShort
  rw [UInt32.le_iff_toNat_le, kMaxPathLen] at short
  simp only [UInt32.reduceToNat] at short
  rw [leBytes_length, cut] at pathHere
  have chars := @map_byte bytes (start + 4) (UInt32.ofNat path.length).toNat (by omega)
  rw [Storage.readInfo, clusters, dims, readConfig_kept accepted laid.header]
  dsimp only
  rw [pathLen, if_neg (UInt32.not_lt.2 laid.pathShort), chars, pathHere]

theorem readLookup (laid : LaidFor bytes env numClusters dim kept path table) {info : GlobalInfo}
    (clusters : info.numClusters = numClusters) (dims : info.dim = dim) :
    readLookup (Buffer.ofList bytes) (headerSize (effectiveWriterFileVersion env kept) + 260) info =
      .ok { info with lookupTable := table } := by
  have ends := laid.tableEnd
  have small := laid.small
  have room := laid.room
  set start := headerSize (effectiveWriterFileVersion env kept) + 260 with startDef
  have rows : ((List.range numClusters.toNat).map fun i =>
      readEntry (Buffer.ofList bytes) dim (start + i * lookupEntrySize dim)) = table := by
    refine List.ext_getElem (by simp [laid.length]) fun i inside below => ?_
    rw [List.getElem_map, List.getElem_range]
    obtain ⟨here, centroid, offset, size⟩ := laid.entries i _ (List.getElem?_eq_getElem below)
    exact readEntry_fields here centroid offset size
  have wraps : numClusters.toNat * lookupEntrySize dim % 2 ^ 64 =
      numClusters.toNat * lookupEntrySize dim := Nat.mod_eq_of_lt (by omega)
  have rounded := le_roundUp4K (numClusters.toNat * lookupEntrySize dim)
  have mono : roundUp4K (numClusters.toNat * lookupEntrySize dim) ≤
      roundUp4K (start + numClusters.toNat * lookupEntrySize dim) := by
    rw [roundUp4K, roundUp4K, kAlignSize]
    omega
  have held : (Buffer.ofList bytes).size = bytes.length := rfl
  rw [Storage.readLookup]
  dsimp only
  rw [clusters, dims, wraps, Nat.add_comm _ start, held, if_neg (by rw [kAlignSize]; omega),
    if_neg (by omega), if_neg (by omega), if_neg (by omega), if_neg (by omega), rows]

/-- **A file laid out for it is opened.** -/
theorem readFile (laid : LaidFor bytes env numClusters dim kept path table) (info : GlobalInfo) :
    readFile (Buffer.ofList bytes) info = .ok (effectiveWriterFileVersion env kept,
      { numClusters := numClusters, dim := dim, rabitqConfig := kept
        dataFilePath := path.take (UInt32.ofNat path.length).toNat, lookupTable := table }) := by
  have ends := laid.tableEnd
  have header := (headerSize_le (effectiveWriterFileVersion env kept)).1
  have magic : wordAt (Buffer.ofList bytes) 0 = kGlobalMagic := wordAt_field laid.header
  have version : wordAt (Buffer.ofList bytes) 4 = effectiveWriterFileVersion env kept :=
    wordAt_field laid.header.tail
  have held : (Buffer.ofList bytes).size = bytes.length := rfl
  rw [Storage.readFile, if_neg (by rw [held, kAlignSize]; omega), magic,
    if_neg (not_not.2 rfl), version]
  dsimp only
  rw [supportedVersion_writer, laid.readInfo]
  rw [Except.bind, laid.readLookup rfl rfl]
  rfl

end LaidFor

/-! ## Finding an entry -/

/-- Entries from number `k` on are indexed over what was there. -/
def indexFrom (index : UInt32 → Option ℕ) (k : ℕ) (table : List LookupEntry) : UInt32 → Option ℕ :=
  (table.zipIdx k).foldl (fun index row => Function.update index row.1.clusterId (some row.2)) index

theorem indexFrom_absent {table : List LookupEntry} {id : UInt32}
    (absent : id ∉ table.map LookupEntry.clusterId) (index : UInt32 → Option ℕ) (k : ℕ) :
    indexFrom index k table id = index id := by
  induction table generalizing index k with
  | nil => rfl
  | cons entry table ih =>
      obtain ⟨other, behind⟩ := not_or.1 (List.mem_cons.not.1 absent)
      rw [indexFrom, List.zipIdx_cons, List.foldl_cons]
      exact (ih behind _ _).trans (Function.update_of_ne other _ _)

theorem indexFrom_present {table : List LookupEntry} {i : ℕ} {entry : LookupEntry}
    (distinct : (table.map LookupEntry.clusterId).Nodup) (row : table[i]? = some entry)
    (index : UInt32 → Option ℕ) (k : ℕ) :
    indexFrom index k table entry.clusterId = some (k + i) := by
  induction table generalizing index k i with
  | nil => cases row
  | cons first table ih =>
      obtain ⟨fresh, distinct⟩ := List.nodup_cons.1 distinct
      rw [indexFrom, List.zipIdx_cons, List.foldl_cons]
      cases i with
      | zero =>
          obtain rfl := Option.some.inj row
          exact (indexFrom_absent fresh _ _).trans (Function.update_self _ _ _)
      | succ i =>
          refine (ih distinct row _ _).trans (congrArg some ?_)
          omega

/-- **Every entry is found** by its number where numbers are distinct. -/
theorem indexEntries_entry {table : List LookupEntry} {i : ℕ} {entry : LookupEntry}
    (distinct : (table.map LookupEntry.clusterId).Nodup) (row : table[i]? = some entry) :
    indexEntries table entry.clusterId = some i :=
  (indexFrom_present distinct row (fun _ => none) 0).trans (congrArg some (Nat.zero_add i))

/-! ## A finished file -/

section Finished

variable {env : Option ℤ} {build : Build} {numClusters dim : UInt32} {config : StoreConfig}
variable {room : Option ℕ} {jobs : List ClusterJob} {path : List UInt8} {w : ClusterStoreWriter}

/-- A written file ends where its writer stands. -/
theorem writeFile_length
    (ok : writeFile env build numClusters dim config room jobs path = (none, w)) :
    w.file.bytes.length = w.currentOffset := by
  obtain ⟨v, first, rest⟩ := Outcome.andThen_ok ok
  obtain ⟨kept, -, laid, rfl⟩ := open_ok first
  obtain ⟨u, second, last⟩ := Outcome.andThen_ok rest
  obtain ⟨-, short, good, rfl⟩ := finalize_ok last
  obtain ⟨clean, bytes, -⟩ := FileStream.seek_write_good good
  have wrote := writeClusters_ok (opened_ready laid) second clean
  have ends : u.file.bytes.length = u.currentOffset := by
    obtain ⟨atEnd, offset⟩ := wrote.ready.atEnd clean
    rw [← offset, atEnd]
  have before := wrote.ready.path
  have after := wrote.ready.lookups
  have inside : u.lookupTableStart ≤ u.entryAt u.numClusters := Nat.le_add_right _ _
  have length := pathBytes_length short
  refine (congrArg List.length bytes).trans ?_
  rw [overwrite_length (by omega), ends, length]
  show max u.currentOffset (u.headerPathOffset + 260) = u.currentOffset
  omega

/-- Where a written file has its table. -/
theorem writeFile_placed
    (ok : writeFile env build numClusters dim config room jobs path = (none, w)) :
    w.lookupTable.length = numClusters.toNat ∧ w.lookupTableStart = w.headerPathOffset + 260 ∧
      roundUp4K (w.lookupTableStart + numClusters.toNat * lookupEntrySize dim) ≤
        w.file.bytes.length := by
  have length := writeFile_length ok
  obtain ⟨v, first, rest⟩ := Outcome.andThen_ok ok
  obtain ⟨kept, -, laid, rfl⟩ := open_ok first
  obtain ⟨u, second, last⟩ := Outcome.andThen_ok rest
  obtain ⟨-, short, good, rfl⟩ := finalize_ok last
  obtain ⟨clean, -, -⟩ := FileStream.seek_write_good good
  have wrote := writeClusters_ok (opened_ready laid) second clean
  obtain ⟨atEnd, zeros, count, laidBytes⟩ := laidOut_file laid
  have tableEnd : (laidOut env numClusters dim kept room).file.pos =
      (headerBytes (effectiveWriterFileVersion env kept) numClusters dim kept).length + 260 +
        numClusters.toNat * lookupEntrySize dim := by
    rw [atEnd, laidBytes, List.length_append, count]
    omega
  have placed : u.lookupTableStart =
      (headerBytes (effectiveWriterFileVersion env kept) numClusters dim kept).length + 260 :=
    wrote.same.lookupTableStart
  have pathAt : u.headerPathOffset =
      (headerBytes (effectiveWriterFileVersion env kept) numClusters dim kept).length :=
    wrote.same.headerPathOffset
  have grows : roundUp4K (laidOut env numClusters dim kept room).file.pos ≤ u.currentOffset :=
    wrote.grows
  rw [tableEnd, ← placed] at grows
  exact ⟨wrote.ready.table.trans wrote.same.numClusters,
    placed.trans (congrArg (· + 260) pathAt.symm), Nat.le_trans grows (Nat.le_of_eq length.symm)⟩

/-- A block that a file holds is inside it. -/
theorem ClusterStoreWriter.Holds.inside {bytes : List UInt8} {entryAt : ℕ} {entry : LookupEntry}
    {block : Block} (holds : Holds bytes entryAt entry block) :
    entry.blockOffset + block.bytes.length ≤ bytes.length := by
  have length := congrArg List.length holds.blockHere
  have long : 0 < block.bytes.length := by simp [Block.bytes]
  rw [slice, List.length_take, List.length_drop] at length
  omega

/-- The jobs of all clusters have an entry each. -/
theorem ClusterStoreWriter.Finished.entry {kept : StoreConfig}
    (finished : Finished env build numClusters dim config kept jobs path w)
    (all : jobs.length = numClusters.toNat) (length : w.lookupTable.length = numClusters.toNat)
    {i : ℕ} {entry : LookupEntry} (row : w.lookupTable[i]? = some entry) :
    ∃ job start block, jobs[i]? = some job ∧ BlockOf env build kept dim start job entry block ∧
      Holds w.file.bytes (w.lookupTableStart + i * lookupEntrySize dim) entry block := by
  have inside : i < jobs.length := by
    rw [all, ← length]
    exact (List.getElem?_eq_some_iff.1 row).1
  have found := List.getElem?_eq_getElem inside
  obtain ⟨start, entry', block, row', of, holds⟩ := finished.clusters i _ found
  obtain rfl := Option.some.inj (row.symm.trans row')
  exact ⟨_, start, block, found, of, holds⟩

theorem writeFile_laid
    (ok : writeFile env build numClusters dim config room jobs path = (none, w))
    (all : jobs.length = numClusters.toNat) (small : w.file.bytes.length < 2 ^ 63) :
    ∃ kept, Finished env build numClusters dim config kept jobs path w ∧
      LaidFor w.file.bytes env numClusters dim kept path w.lookupTable := by
  obtain ⟨kept, finished⟩ := writeFile_ok ok
  obtain ⟨length, placed, room⟩ := writeFile_placed ok
  have header : w.headerPathOffset = headerSize (effectiveWriterFileVersion env kept) := by
    rw [finished.headerLength, ← headerFields_bytes, Fields.bytes_length, headerFields_size]
  have path := finished.pathHere
  rw [placed, header] at room
  rw [header] at path
  refine ⟨kept, finished, ⟨config, finished.accepted⟩, ?_, path, finished.pathShort, length, ?_,
    room, small⟩
  · rw [Fields.At, headerFields_size, headerFields_bytes, ← header]
    exact finished.headerHere
  · intro i entry row
    obtain ⟨job, start, block, -, of, holds⟩ := finished.entry all length row
    have inside := holds.inside
    have blockSize : entry.blockSize = block.bytes.length := by rw [of.entry]
    have here := holds.entryHere
    rw [placed, header, ← LookupEntry.fields_bytes, Fields.bytes_length] at here
    refine ⟨here, ?_, by omega, by omega⟩
    rw [of.entry]
    exact of.centroid

/-- **A finished file is opened as it was written.** -/
theorem open_finished {View Parsed : Type}
    (ok : writeFile env build numClusters dim config room jobs path = (none, w))
    (all : jobs.length = numClusters.toNat) (small : w.file.bytes.length < 2 ^ 63)
    {r : ClusterStoreReader View Parsed} (closed : r.fd < 0) {fd : ℤ} (valid : 0 ≤ fd)
    (name : String) :
    ∃ kept, Finished env build numClusters dim config kept jobs path w ∧
      r.open name fd (Buffer.ofList w.file.bytes) = (none, { r with
        fd := fd
        fileVersion := effectiveWriterFileVersion env kept
        info :=
          { numClusters := numClusters, dim := dim, rabitqConfig := kept
            dataFilePath := path.take (UInt32.ofNat path.length).toNat
            lookupTable := w.lookupTable }
        clusterIndex := indexEntries w.lookupTable }) := by
  obtain ⟨kept, finished, laid⟩ := writeFile_laid ok all small
  refine ⟨kept, finished, ?_⟩
  rw [ClusterStoreReader.open, if_neg (by omega), if_neg (by omega), laid.readFile]

end Finished

end VecFetch.Storage
