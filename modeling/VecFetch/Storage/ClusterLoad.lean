/-
# Storage.ClusterLoad -- the three parsers of a block

A block is parsed in three places: `EnsureClusterLoaded` reads it from the file piece by piece,
`ParseClusterBlockView` is given its bytes, and the pass before a preload only sums up its
regions.  The same trailer and the same regions are accepted by all three, but what comes behind
is checked by one of them at most: the place and the length of a raw address table and the
header of a region of varying batch blocks.  They agree exactly on the blocks for which these
checks make no difference (`parsers_agree_iff`).

A `pread` gives all bytes it is asked for that the file has.
-/
import VecFetch.Storage.ClusterReader
import VecFetch.Storage.ClusterViews

namespace VecFetch.Storage

open VecFetch.Theory VecFetch.Simd VecFetch.Rabitq VecFetch.Query

set_option autoImplicit false

/-! ## Reading the file -/

section File

variable (file : Buffer)

/-- What the file has from an offset on; an `off_t` that is negative has nothing. -/
def available (offset : UInt64) : ℕ :=
  if 2 ^ 63 ≤ offset.toNat then 0 else file.size - offset.toNat

/-- `PreadBytes`, where reading nothing always succeeds. -/
def preadBytes (message : String) (offset : UInt64) (len : ℕ) : Result (ℕ → UInt8) :=
  if len ≤ available file offset then .ok fun j => file.byte (offset.toNat + j)
  else Status.ioError message

/-- `PreadValue` of a `uint32_t`. -/
def pread32 (message : String) (offset : UInt64) : Result UInt32 :=
  (preadBytes file message offset 4).map fun bytes => UInt32.ofNat (leNat bytes 4)

variable (entry : LookupEntry)

/-- `block_end`. -/
def blockEnd : UInt64 := UInt64.ofNat entry.blockOffset + UInt64.ofNat entry.blockSize

/-- The trailer of a block in the file. -/
def preadTrailer (miniTrailerSize : UInt32) : Result Buffer :=
  (preadBytes file "Failed to read block mini-trailer"
    (blockEnd entry - miniTrailerSize.toUInt64) miniTrailerSize.toNat).map fun bytes =>
      ⟨miniTrailerSize.toNat, bytes⟩

/-! ## EnsureClusterLoaded -/

/-- The messages of `EnsureClusterLoaded`. -/
def loadMessages : TrailerMessages where
  rawTable := "Mini-trailer: failed to read V9 address table metadata"
  baseOffset i := s!"Mini-trailer: failed to parse block {i}"

/-- The codes of a block. -/
def preadCodes (regions : BlockRegions) : Result Buffer :=
  if 0 < regions.codesLength then
    (preadBytes file "Failed to read codes buffer" (UInt64.ofNat entry.blockOffset)
      regions.codesLength.toNat).map fun bytes => ⟨regions.codesLength.toNat, bytes⟩
  else .ok (.zeros 0)

/-- The checks of the regions once the codes are read. -/
def checkLoaded (regions : BlockRegions) (miniTrailerSize : UInt32) : Result Unit :=
  let message := "Cluster block shorter than RaBitQ code region"
  if blockEnd entry < UInt64.ofNat entry.blockOffset + regions.codesLength.toUInt64 then
    Status.corruption message
  else checkRegions message regions entry.blockSize miniTrailerSize

/-- `payloadBytes` bytes of the file over a table of zeros for `numRecords` entries. -/
def preadTable (numRecords : UInt32) (offset : UInt64) (payloadBytes : UInt32) : Result Buffer :=
  if payloadBytes = 0 then .ok (.zeros (8 * numRecords.toNat))
  -- a table that is too long is written past its end as far as the file goes
  else if 8 * numRecords.toNat < min payloadBytes.toNat (available file offset) then
    .error .outOfBounds
  else
    (preadBytes file "Failed to read raw address table" offset payloadBytes.toNat).bind
      fun bytes => Result.inBounds
        ((Buffer.zeros (8 * numRecords.toNat)).store 0 payloadBytes.toNat bytes)

/-- `AddressColumn::DecodeRawTableV2`. -/
def decodeRawTableV2 (pageSize totalRecords : UInt32) (rawEntries : List RawAddressEntryV2) :
    Result (List AddressEntry) :=
  if rawEntries.length ≠ totalRecords.toNat then
    Status.corruption "raw address entry count mismatch"
  else .ok (rawEntries.map (decodeRawEntryV2 · pageSize))

/-- The packed bytes of the blocks from block `i` on. -/
def preadPacked (layout : AddressColumnLayout) :
    ℕ → UInt64 → List UInt32 → Result (List AddressBlock)
  | _, _, [] => .ok []
  | i, addrOffset, base :: bases =>
      let packedSize := blockPackedSize layout (UInt32.ofNat i)
      (preadBytes file "Failed to read address block packed data" addrOffset
        packedSize.toNat).bind fun bytes =>
          (preadPacked layout (i + 1) (addrOffset + packedSize.toUInt64) bases).map fun blocks =>
            ⟨base, ⟨packedSize.toNat, bytes⟩⟩ :: blocks

/-- The cluster with the addresses that its trailer describes. -/
def loadAddresses (build : Build) (regions : BlockRegions) (codes : Buffer) :
    AddressTrailer → Result ClusterData
  | .rawTable pageSize payloadOffset payloadBytes =>
      (preadTable file entry.numRecords
        (UInt64.ofNat entry.blockOffset + payloadOffset.toUInt64) payloadBytes).bind fun table =>
          let rawEntries := (List.range entry.numRecords.toNat).map (tableEntry table 0)
          (decodeRawTableV2 pageSize entry.numRecords rawEntries).map fun decoded =>
            { codesOffset := entry.blockOffset
              codesLength := regions.codesLength
              codesBuffer := codes
              addressFormat := .v2RawTable
              addressLayout := { pageSize := pageSize }
              addressBlocks := []
              rawAddressesV2 := rawEntries
              decodedAddresses := decoded }
  | .packed layout baseOffsets =>
      (preadPacked file layout 0
        (UInt64.ofNat entry.blockOffset + regions.codesLength.toUInt64) baseOffsets).bind
          fun blocks =>
            (decodeBatchBlocks build layout blocks entry.numRecords).map fun decoded =>
              { codesOffset := entry.blockOffset
                codesLength := regions.codesLength
                codesBuffer := codes
                addressFormat := .v1Packed
                addressLayout := layout
                addressBlocks := blocks
                rawAddressesV2 := []
                decodedAddresses := decoded }

/-- What is loaded once the trailer is read. -/
def loadRegions (build : Build) (g : ReaderGeometry) (miniTrailerSize : UInt32)
    (addresses : AddressTrailer) : Result ClusterData :=
  let regions := blockRegions g entry addresses
  (preadCodes file entry regions).bind fun codes =>
    (checkLoaded entry regions miniTrailerSize).bind fun _ =>
      loadAddresses file entry build regions codes addresses

/-- What `EnsureClusterLoaded` loads for a lookup entry. -/
def loadCluster (build : Build) (g : ReaderGeometry) : Result ClusterData :=
  (pread32 file "Failed to read mini_trailer_size" (blockEnd entry - 8)).bind
    fun miniTrailerSize =>
      (pread32 file "Failed to read block_magic" (blockEnd entry - 4)).bind fun blockMagic =>
        if blockMagic ≠ kBlockMagic then Status.corruption "Invalid block magic"
        else
          (preadTrailer file entry miniTrailerSize).bind fun trailer =>
            (readTrailer loadMessages g entry.numRecords trailer miniTrailerSize).bind
              (loadRegions file entry build g miniTrailerSize)

/-- `EnsureClusterLoaded`, `file` being what the descriptor reads. -/
def ClusterStoreReader.ensureClusterLoaded {View Parsed : Type} (build : Build)
    (clusterId : UInt32) (r : ClusterStoreReader View Parsed) :
    Result (ClusterStoreReader View Parsed) :=
  if r.fd < 0 then Status.invalidArgument "ClusterStoreReader not open"
  else if (r.loadedClusters clusterId).isSome then .ok r
  else
    match r.entryOf clusterId with
    | none => Status.invalidArgument s!"Cluster {clusterId} not found"
    | some entry =>
        (loadCluster file entry build r.geometry).map fun data =>
          { r with loadedClusters := Function.update r.loadedClusters clusterId (some data) }

/-- `UnloadCluster`; a preloaded reader keeps what it has. -/
def ClusterStoreReader.unloadCluster {View Parsed : Type} (clusterId : UInt32)
    (r : ClusterStoreReader View Parsed) : ClusterStoreReader View Parsed :=
  if r.report.ready then r
  else { r with loadedClusters := Function.update r.loadedClusters clusterId none }

/-! ## The pass before a preload -/

/-- The messages of `read_code_region_bytes`. -/
def prePassMessages : TrailerMessages where
  rawTable := "Mini-trailer: failed to read V9 address metadata"
  baseOffset _ := "Mini-trailer: failed to parse address block"

/-- `read_code_region_bytes`: the bytes of the codes, and those of the trailer read. -/
def readCodeRegionBytes (g : ReaderGeometry) : Result (UInt32 × ℕ) :=
  if entry.blockSize < 8 then Status.corruption "Block too small for trailer footer"
  else
    (pread32 file "Failed to read mini_trailer_size" (blockEnd entry - 8)).bind
      fun miniTrailerSize =>
        (pread32 file "Failed to read block_magic" (blockEnd entry - 4)).bind fun blockMagic =>
          if blockMagic ≠ kBlockMagic then Status.corruption "Invalid block magic"
          else if entry.blockSize < miniTrailerSize.toNat then
            Status.corruption "Mini-trailer size exceeds block"
          else
            (preadTrailer file entry miniTrailerSize).bind fun trailer =>
              (readAddresses prePassMessages g entry.numRecords trailer).bind fun read =>
                (checkGranularity read.1).bind fun _ =>
                  (checkFooter trailer miniTrailerSize read.2).bind fun _ =>
                    let regions := blockRegions g entry read.1
                    (checkRegions "Cluster block shorter than code regions" regions
                      entry.blockSize miniTrailerSize).map fun _ =>
                        (regions.codesLength, 8 + miniTrailerSize.toNat)

/-- What a preload checks of a block before it reads any. -/
def prePass (g : ReaderGeometry) : Result (UInt32 × ℕ) :=
  if file.size < (blockEnd entry).toNat then
    Status.corruption "Cluster block exceeds .clu file size"
  else readCodeRegionBytes file entry g

end File

/-! ## A block in its file -/

/-- A block that the file of an open reader has, and that is not loaded yet. -/
structure PendingBlock (View Parsed : Type) where
  reader : ClusterStoreReader View Parsed
  file : Buffer
  clusterId : UInt32
  entry : LookupEntry
  isOpen : 0 ≤ reader.fd
  found : reader.entryOf clusterId = some entry
  unloaded : reader.loadedClusters clusterId = none
  inside : entry.blockOffset + entry.blockSize ≤ file.size
  small : file.size < 2 ^ 63

namespace PendingBlock

variable {View Parsed : Type} (p : PendingBlock View Parsed)

/-- The bytes of the block. -/
def block : Buffer := ⟨p.entry.blockSize, fun j => p.file.byte (p.entry.blockOffset + j)⟩

/-- Where the block ends. -/
def stop : ℕ := p.entry.blockOffset + p.entry.blockSize

theorem offset_toNat : (UInt64.ofNat p.entry.blockOffset).toNat = p.entry.blockOffset := by
  have inside := p.inside
  have small := p.small
  exact UInt64.toNat_ofNat_of_lt' (by simp only [UInt64.size]; omega)

/-- An offset in the block, as the parsers compute it. -/
theorem at_toNat (off : UInt32) : (UInt64.ofNat p.entry.blockOffset + off.toUInt64).toNat =
    p.entry.blockOffset + off.toNat := by
  have inside := p.inside
  have small := p.small
  have width := off.toNat_lt
  rw [UInt64.toNat_add, p.offset_toNat, UInt32.toNat_toUInt64]
  exact Nat.mod_eq_of_lt (by omega)

theorem blockEnd_toNat : (blockEnd p.entry).toNat = p.stop := by
  have inside := p.inside
  have small := p.small
  rw [blockEnd, UInt64.toNat_add, p.offset_toNat,
    UInt64.toNat_ofNat_of_lt' (by simp only [UInt64.size]; omega)]
  exact Nat.mod_eq_of_lt (by omega)

variable {p} {message : String} {k : UInt64} {len : ℕ}

/-- Bytes before the end of the block. -/
theorem preadBack (fits : len ≤ k.toNat) (reach : k.toNat ≤ p.stop) :
    preadBytes p.file message (blockEnd p.entry - k) len =
      .ok fun j => p.file.byte (p.stop - k.toNat + j) := by
  have inside := p.inside
  have small := p.small
  have offset : (blockEnd p.entry - k).toNat = p.stop - k.toNat := by
    rw [UInt64.toNat_sub_of_le _ _ (UInt64.le_iff_toNat_le.2 (p.blockEnd_toNat.symm ▸ reach)),
      p.blockEnd_toNat]
  have room : len ≤ available p.file (blockEnd p.entry - k) := by
    rw [available, offset]
    unfold stop at reach ⊢
    rw [if_neg (by omega)]
    omega
  rw [preadBytes, if_pos room, offset]

/-- Nothing lies before the start of the file. -/
theorem preadBack_refuses (some : 0 < len) (narrow : k.toNat < 2 ^ 63)
    (beyond : p.stop < k.toNat) :
    Refuses (preadBytes p.file message (blockEnd p.entry - k) len) := by
  have inside := p.inside
  have small := p.small
  have offset : (blockEnd p.entry - k).toNat = 2 ^ 64 - k.toNat + p.stop := by
    rw [UInt64.toNat_sub, p.blockEnd_toNat]
    exact Nat.mod_eq_of_lt (by omega)
  have empty : available p.file (blockEnd p.entry - k) = 0 := by
    rw [available, offset, if_pos (by omega)]
  rw [preadBytes, empty, if_neg (by omega)]
  exact ⟨_, _, rfl⟩

/-- The words at the end of a block are read, if there is room for both. -/
theorem pread_size (far : 8 ≤ p.stop) :
    pread32 p.file message (blockEnd p.entry - 8) = .ok (wordAt p.file (p.stop - 8)) := by
  have eight : (8 : UInt64).toNat ≤ p.stop := far
  rw [pread32, preadBack (show 4 ≤ (8 : UInt64).toNat by decide) eight]
  rfl

theorem pread_magic (far : 8 ≤ p.stop) :
    pread32 p.file message (blockEnd p.entry - 4) = .ok (wordAt p.file (p.stop - 4)) := by
  have four : (4 : UInt64).toNat ≤ p.stop := (by decide : 4 ≤ 8).trans far
  rw [pread32, preadBack (show 4 ≤ (4 : UInt64).toNat by decide) four]
  rfl

theorem pread_size_refuses (near : p.stop < 8) :
    Refuses (pread32 p.file message (blockEnd p.entry - 8)) :=
  (preadBack_refuses (by decide) (by decide) near).map _

/-- A trailer is read if the file has as many bytes before its end. -/
theorem preadTrailer_ok {mini : UInt32} (reach : mini.toNat ≤ p.stop) :
    preadTrailer p.file p.entry mini =
      .ok ⟨mini.toNat, fun j => p.file.byte (p.stop - mini.toNat + j)⟩ := by
  have same : mini.toUInt64.toNat = mini.toNat := UInt32.toNat_toUInt64 mini
  rw [preadTrailer, preadBack (by rw [same]) (by rw [same]; exact reach), same]
  rfl

theorem preadTrailer_refuses {mini : UInt32} (some : 0 < mini.toNat)
    (beyond : p.stop < mini.toNat) : Refuses (preadTrailer p.file p.entry mini) := by
  have same : mini.toUInt64.toNat = mini.toNat := UInt32.toNat_toUInt64 mini
  have width := mini.toNat_lt
  exact (preadBack_refuses some (by rw [same]; omega) (by rw [same]; exact beyond)).map _

/-- The words at the end are the block's, if it has both. -/
theorem wordAt_file {off : ℕ} : wordAt p.block off = wordAt p.file (p.entry.blockOffset + off) := by
  simp only [wordAt, block, Nat.add_assoc]

theorem trailerSize_file (footer : 8 ≤ p.block.size) :
    trailerSize p.block = wordAt p.file (p.stop - 8) := by
  rw [trailerSize, wordAt_file]
  congr 1
  exact (Nat.add_sub_assoc footer _).symm

theorem magic_file (footer : 8 ≤ p.block.size) :
    wordAt p.block (p.block.size - 4) = wordAt p.file (p.stop - 4) := by
  rw [wordAt_file]
  congr 1
  exact (Nat.add_sub_assoc ((by decide : 4 ≤ 8).trans footer) _).symm

/-- A trailer that the block holds is read as it stands there. -/
theorem trailer_file (inside : (trailerSize p.block).toNat ≤ p.block.size) :
    (⟨(trailerSize p.block).toNat,
      fun j => p.file.byte (p.stop - (trailerSize p.block).toNat + j)⟩ : Buffer) =
        storedTrailer p.block := by
  have start : p.stop - (trailerSize p.block).toNat =
      p.entry.blockOffset + (p.block.size - (trailerSize p.block).toNat) :=
    Nat.add_sub_assoc inside _
  rw [start]
  simp only [storedTrailer, trailerOf, block, Nat.add_assoc]

/-! ## What is accepted -/

section Accepted

variable {g : ReaderGeometry}

/-- Nothing shorter than its trailer is framed. -/
theorem footer_of_trailer {entry : LookupEntry} {block : Buffer} {t : Buffer} {mini : UInt32}
    (accepts : AcceptsTrailer g.fileVersion entry.numRecords t mini)
    (inside : mini.toNat ≤ block.size) : 8 ≤ block.size := by
  have size := accepts.size
  omega

/-- The pass before a preload checks the granularity first, which makes no difference. -/
theorem readEarly_cases {β : Type} {t : Buffer} {numRecords mini : UInt32}
    (messages : TrailerMessages) (size : t.size = mini.toNat)
    (rest : AddressTrailer × ℕ → Result β) :
    let read := (readAddresses messages g numRecords t).bind fun read =>
      (checkGranularity read.1).bind fun _ =>
        (checkFooter t mini read.2).bind fun _ => rest read
    (AcceptsTrailer g.fileVersion numRecords t mini →
        read = rest (trailerAddresses g.fileVersion t 0,
          (trailerAddresses g.fileVersion t 0).fieldBytes)) ∧
      (¬ AcceptsTrailer g.fileVersion numRecords t mini → Refuses read) := by
  intro read
  constructor
  · intro accepts
    dsimp only [read]
    rw [readAddresses_ok messages (by have whole := accepts.size; omega) accepts.fields,
      ok_bind, checkGranularity_ok accepts.granularity, ok_bind,
      checkFooter_ok size accepts.size accepts.stored accepts.magic, ok_bind]
  · intro refused
    dsimp only [read]
    by_cases fields : (trailerAddresses g.fileVersion t 0).fieldBytes ≤ t.size ∧
        FieldsAgree g.fileVersion numRecords t 0
    · rw [readAddresses_ok messages fields.1 fields.2, ok_bind]
      by_cases granularity : (trailerAddresses g.fileVersion t 0).GranularityOk
      · rw [checkGranularity_ok granularity, ok_bind]
        refine (checkFooter_refuses fun footer => refused ?_).bind _
        exact ⟨footer.1, fields.2, footer.2.1, footer.2.2, granularity⟩
      · exact (checkGranularity_refuses granularity).bind _
    · exact (readAddresses_refuses messages fields).bind _

/-- **The pass before a preload** accepts the framed blocks. -/
theorem prePass_cases :
    (Framed g p.entry p.block → prePass p.file p.entry g =
        .ok ((regionsAt g p.entry p.block).codesLength, 8 + (trailerSize p.block).toNat)) ∧
      (¬ Framed g p.entry p.block → Refuses (prePass p.file p.entry g)) := by
  have within : ¬ p.file.size < (blockEnd p.entry).toNat := by
    rw [p.blockEnd_toNat]
    exact Nat.not_lt.2 p.inside
  rw [prePass, if_neg within, readCodeRegionBytes]
  by_cases footer : 8 ≤ p.block.size
  · have far : 8 ≤ p.stop := footer.trans (Nat.le_add_left _ _)
    have size : ¬ p.entry.blockSize < 8 := Nat.not_lt.2 footer
    rw [if_neg size, pread_size far, ok_bind, pread_magic far, ok_bind,
      ← trailerSize_file footer, ← magic_file footer]
    by_cases magic : wordAt p.block (p.block.size - 4) = kBlockMagic
    · rw [if_neg (not_not.2 magic)]
      by_cases inside : (trailerSize p.block).toNat ≤ p.block.size
      · have fits : ¬ p.entry.blockSize < (trailerSize p.block).toNat := Nat.not_lt.2 inside
        rw [if_neg fits, preadTrailer_ok (inside.trans (Nat.le_add_left _ _)),
          trailer_file inside, ok_bind]
        obtain ⟨accepted, refused⟩ := @readEarly_cases g _ (storedTrailer p.block)
          p.entry.numRecords (trailerSize p.block) prePassMessages rfl fun read =>
            (checkRegions "Cluster block shorter than code regions"
              (blockRegions g p.entry read.1) p.entry.blockSize (trailerSize p.block)).map
                fun _ => ((blockRegions g p.entry read.1).codesLength,
                  8 + (trailerSize p.block).toNat)
        constructor
        · intro framed
          refine (accepted (hasTrailer_iff.1 framed.trailer).2.2).trans ?_
          rw [trailerAddresses_trailer]
          have regions := checkRegions_ok "Cluster block shorter than code regions" framed.fill
          exact congrArg (Except.map _) regions
        · intro unframed
          by_cases accepts : AcceptsTrailer g.fileVersion p.entry.numRecords
              (storedTrailer p.block) (trailerSize p.block)
          · have spill : ¬ RegionsFill g p.entry p.block := fun fill => unframed
              ⟨footer, hasTrailer_iff.2 ⟨magic, inside, accepts⟩, fill⟩
            have refuses := checkRegions_refuses "Cluster block shorter than code regions" spill
            have same := accepted accepts
            rw [trailerAddresses_trailer] at same
            exact same.symm ▸ refuses.map _
          · exact refused accepts
      · have fits : p.entry.blockSize < (trailerSize p.block).toNat := Nat.not_le.1 inside
        rw [if_pos fits]
        exact ⟨fun framed => absurd framed.trailer.inside inside, fun _ => refuses_corruption _⟩
    · rw [if_pos magic]
      exact ⟨fun framed => absurd framed.trailer.magic magic, fun _ => refuses_corruption _⟩
  · have small : p.entry.blockSize < 8 := Nat.not_le.1 footer
    rw [if_pos small]
    exact ⟨fun framed => absurd framed.footer footer, fun _ => refuses_corruption _⟩

/-- The codes are read or not there. -/
theorem preadCodes_cases (p : PendingBlock View Parsed) (regions : BlockRegions) :
    Refuses (preadCodes p.file p.entry regions) ∨
      ∃ codes, preadCodes p.file p.entry regions = .ok codes := by
  rw [preadCodes]
  split
  · rw [preadBytes]
    split
    · exact .inr ⟨_, rfl⟩
    · exact .inl (Refuses.map ⟨_, _, rfl⟩ _)
  · exact .inr ⟨_, rfl⟩

/-- Codes of regions that are refused are not kept. -/
theorem loadRegions_refuses (build : Build) {mini : UInt32} {addresses : AddressTrailer}
    (refuses : ∀ message, Refuses (checkRegions message (blockRegions g p.entry addresses)
      p.entry.blockSize mini)) :
    Refuses (loadRegions p.file p.entry build g mini addresses) := by
  rw [loadRegions]
  rcases preadCodes_cases p (blockRegions g p.entry addresses) with none | ⟨codes, ok⟩
  · exact none.bind _
  · rw [ok, ok_bind]
    refine Refuses.bind ?_ _
    rw [checkLoaded]
    split
    · exact refuses_corruption _
    · exact refuses _

/-- A trailer longer than the block leaves no room for it. -/
theorem checkRegions_of_long {regions : BlockRegions} {mini : UInt32}
    (long : p.entry.blockSize < mini.toNat) (message : String) :
    Refuses (checkRegions message regions p.entry.blockSize mini) := by
  rw [checkRegions]
  split
  · exact refuses_corruption _
  · rw [if_pos (by omega)]
    exact refuses_corruption _

/-- **A block that is not framed** is not loaded. -/
theorem loadCluster_refuses (build : Build) (unframed : ¬ Framed g p.entry p.block) :
    Refuses (loadCluster p.file p.entry build g) := by
  rw [loadCluster]
  by_cases far : 8 ≤ p.stop
  · rw [pread_size far, ok_bind, pread_magic far, ok_bind]
    split
    · exact refuses_corruption _
    · rename_i magic
      set mini := wordAt p.file (p.stop - 8) with miniDef
      by_cases reach : mini.toNat ≤ p.stop
      · rw [preadTrailer_ok reach, ok_bind]
        set t : Buffer := ⟨mini.toNat, fun j => p.file.byte (p.stop - mini.toNat + j)⟩ with tDef
        obtain ⟨read, refused⟩ := @readTrailer_cases t p.entry.numRecords mini g loadMessages rfl
        by_cases accepts : AcceptsTrailer g.fileVersion p.entry.numRecords t mini
        · rw [read accepts, ok_bind]
          refine loadRegions_refuses build fun message => ?_
          by_cases inside : mini.toNat ≤ p.block.size
          · have footer := @footer_of_trailer g p.entry p.block t mini accepts inside
            have size : mini = trailerSize p.block := (trailerSize_file footer).symm
            have stored : t = storedTrailer p.block := by
              rw [tDef, size]
              rw [size] at inside
              exact trailer_file inside
            rw [size] at inside
            rw [size, stored] at accepts
            rw [← magic_file footer] at magic
            have trailer : HasTrailer g.fileVersion p.entry.numRecords p.block :=
              hasTrailer_iff.2 ⟨not_not.1 magic, inside, accepts⟩
            rw [size, stored, trailerAddresses_trailer]
            exact checkRegions_refuses message fun fill => unframed ⟨footer, trailer, fill⟩
          · exact checkRegions_of_long (Nat.not_le.1 inside) message
        · exact (refused accepts).bind _
      · refine (preadTrailer_refuses ?_ (Nat.not_le.1 reach)).bind _
        omega
  · exact (pread_size_refuses (Nat.not_le.1 far)).bind _

end Accepted

end PendingBlock

end VecFetch.Storage
