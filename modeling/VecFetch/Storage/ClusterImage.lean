/-
# Storage.ClusterImage -- what a finished cluster file holds

`writeFile` is a run of a writer whose calls all return OK.  Every cluster appends its
block and patches its entry of the lookup table, and nothing after it touches either
(`writeClusters_ok`), so a finished file holds for each of its clusters the block and the
entry that were written for it.
-/
import VecFetch.Storage.ClusterSteps

namespace VecFetch.Storage

open VecFetch.Theory VecFetch.Rabitq VecFetch.Simd VecFetch.Query

set_option autoImplicit false

/-! ## Files written -/

/-- What a caller gives for one cluster. -/
structure ClusterJob where
  clusterId : UInt32
  numRecords : UInt32
  epsilon : UInt32
  centroid : List UInt32
  codes : List RaBitQCode
  column : AddressPayload

namespace ClusterStoreWriter

variable (env : Option ℤ) (build : Build)

def writeCluster (job : ClusterJob) (w : ClusterStoreWriter) : Outcome :=
  ((w.beginCluster job.clusterId job.numRecords job.centroid job.epsilon).andThen fun w =>
    (w.writeVectors env job.codes).andThen (writeAddressBlocks build job.column)).andThen endCluster

def writeClusters : List ClusterJob → ClusterStoreWriter → Outcome
  | [], w => (none, w)
  | job :: jobs, w => (w.writeCluster env build job).andThen (writeClusters jobs)

/-- A whole file, `room` being what its device takes. -/
def writeFile (numClusters dim : UInt32) (config : StoreConfig) (room : Option ℕ)
    (jobs : List ClusterJob) (path : List UInt8) : Outcome :=
  («open» env numClusters dim config room).andThen fun w =>
    (w.writeClusters env build jobs).andThen (finalize path)

end ClusterStoreWriter

/-! ## Blocks -/

open ClusterStoreWriter

/-- The parts of a cluster's block. -/
structure Block where
  fastScan : List UInt8
  extra : List UInt8
  table : List RawAddressEntryV2
  trailer : TrailerFields
  miniTrailer : UInt32

def Block.bytes (block : Block) : List UInt8 :=
  block.fastScan ++ (block.extra ++ (rawTableBytes block.table ++
    (block.trailer.bytes ++ (leBytes 4 block.miniTrailer.toNat ++ leBytes 4 kBlockMagic.toNat))))

def unitParts (units : List WriteUnit) : List (List UInt8) :=
  units.map fun unit => unit.emission.bytes

/-- The bytes and the steps of units. -/
def unitBytes (units : List WriteUnit) : List UInt8 := (unitParts units).flatten

def unitSteps (units : List WriteUnit) : ℕ := (units.map WriteUnit.advance).sum

/-- The block and the lookup entry that the calls for a cluster write at `start`. -/
structure BlockOf (env : Option ℤ) (build : Build) (config : StoreConfig) (dim : UInt32)
    (start : ℕ) (job : ClusterJob) (entry : LookupEntry) (block : Block) : Prop where
  fastScanClean : ∀ unit ∈ fastScanUnits dim job.codes, unit.emission.error = none
  extraClean : ∀ unit ∈ exDataUnits config dim (effectiveWriterFileVersion env config) job.codes,
    unit.emission.error = none
  fastScan : block.fastScan = unitBytes (fastScanUnits dim job.codes)
  extra : block.extra =
    unitBytes (exDataUnits config dim (effectiveWriterFileVersion env config) job.codes)
  table : rawTable build job.column = .ok (block.trailer.pageSize, block.table)
  column : columnError job.numRecords job.column = none
  numEntries : block.trailer.numEntries = UInt32.ofNat block.table.length
  payloadOffset : block.trailer.addressPayloadOffset = UInt32.ofNat
    (unitSteps (fastScanUnits dim job.codes) +
      unitSteps (exDataUnits config dim (effectiveWriterFileVersion env config) job.codes) +
      block.table.length * 8 - (UInt32.ofNat block.table.length * 8).toNat)
  payloadBytes : block.trailer.addressPayloadBytes = UInt32.ofNat block.table.length * 8
  miniTrailer : block.miniTrailer = UInt32.ofNat
    (start + block.fastScan.length + block.extra.length + (rawTableBytes block.table).length + 32 -
      (start + unitSteps (fastScanUnits dim job.codes) +
        unitSteps (exDataUnits config dim (effectiveWriterFileVersion env config) job.codes) +
        block.table.length * 8))
  centroid : (job.centroid.take dim.toNat).length = dim.toNat
  entry : entry =
    { clusterId := job.clusterId, numRecords := job.numRecords, epsilon := job.epsilon
      centroid := job.centroid.take dim.toNat, blockOffset := start
      blockSize := block.bytes.length
      numFastscanBlocks := (UInt32.ofNat job.codes.length + 31) / 32
      exrabitqRegionOffset := UInt32.ofNat (unitSteps (fastScanUnits dim job.codes)) }

theorem LookupEntry.bytes_length {entry : LookupEntry} {dim : UInt32}
    (centroid : entry.centroid.length = dim.toNat) :
    entry.bytes.length = lookupEntrySize dim := by
  have floats : (entry.centroid.flatMap fun x => leBytes 4 x.toNat).length = dim.toNat * 4 := by
    rw [List.length_flatMap]
    simp [centroid]
  simp only [LookupEntry.bytes, List.length_append, leBytes_length, floats, lookupEntrySize]

theorem trailerFields_length (fields : TrailerFields) : fields.bytes.length = 24 := by
  simp [TrailerFields.bytes]

theorem rawTableBytes_length (table : List RawAddressEntryV2) :
    (rawTableBytes table).length = table.length * 8 := by
  rw [rawTableBytes, List.length_flatMap]
  simp

namespace ClusterStoreWriter

variable {w w' : ClusterStoreWriter} {env : Option ℤ} {build : Build}

/-! ## Writers between clusters -/

/-- Where the entry of cluster `i` is. -/
def entryAt (w : ClusterStoreWriter) (i : ℕ) : ℕ := w.lookupTableStart + i * lookupEntrySize w.dim

/-- The fields that stay as they are from `Open` on. -/
structure SameFile (w w' : ClusterStoreWriter) : Prop where
  numClusters : w'.numClusters = w.numClusters
  dim : w'.dim = w.dim
  config : w'.config = w.config
  lookupTableStart : w'.lookupTableStart = w.lookupTableStart
  headerPathOffset : w'.headerPathOffset = w.headerPathOffset

theorem SameFile.trans {v : ClusterStoreWriter} (first : SameFile w w') (second : SameFile w' v) :
    SameFile w v :=
  ⟨second.1.trans first.1, second.2.trans first.2, second.3.trans first.3,
    second.4.trans first.4, second.5.trans first.5⟩

theorem SameFile.entryAt (same : SameFile w w') (i : ℕ) : w'.entryAt i = w.entryAt i := by
  rw [ClusterStoreWriter.entryAt, ClusterStoreWriter.entryAt, same.dim, same.lookupTableStart]

/-- A writer between clusters: what it wrote ends at its offset. -/
structure Ready (w : ClusterStoreWriter) : Prop where
  atEnd : w.file.good = true → w.file.AtEnd ∧ w.file.pos = w.currentOffset
  table : w.lookupTable.length = w.numClusters
  path : w.headerPathOffset + 260 ≤ w.lookupTableStart
  lookups : w.entryAt w.numClusters ≤ w.currentOffset

/-- What the calls for a cluster do to the file. -/
structure Wrote (env : Option ℤ) (build : Build) (job : ClusterJob) (w w' : ClusterStoreWriter)
    (entry : LookupEntry) (block : Block) : Prop where
  same : SameFile w w'
  below : w.currentClusterIndex < w.numClusters
  index : w'.currentClusterIndex = w.currentClusterIndex + 1
  entries : w'.lookupTable = w.lookupTable.set w.currentClusterIndex entry
  good : w.file.good = true
  grows : w.currentOffset + block.bytes.length ≤ w'.currentOffset
  bytes : ∃ pad, w'.file.bytes = overwrite (w.file.bytes ++ block.bytes)
    (w.entryAt w.currentClusterIndex) entry.bytes ++ pad
  block : BlockOf env build w.config w.dim w.currentOffset job entry block

/-- The writer of a cluster whose vectors and addresses are written. -/
def filled (env : Option ℤ) (job : ClusterJob) (pageSize : UInt32)
    (table : List RawAddressEntryV2) (w : ClusterStoreWriter) : ClusterStoreWriter :=
  let fast := fastScanUnits w.dim job.codes
  let extra := exDataUnits w.config w.dim (effectiveWriterFileVersion env w.config) job.codes
  { w.setEntry { w.entry with
      clusterId := job.clusterId, numRecords := job.numRecords, epsilon := job.epsilon
      centroid := job.centroid.take w.dim.toNat } with
    file := w.file.writeAll (unitParts fast ++ (unitParts extra ++ [rawTableBytes table]))
    currentOffset := w.currentOffset + unitSteps fast + unitSteps extra + table.length * 8
    blockStart := w.currentOffset
    inCluster := true, vectorsWritten := true, addressWritten := true
    numFastscanBlocks := (UInt32.ofNat job.codes.length + 31) / 32
    exrabitqRegionOffset := UInt32.ofNat (unitSteps fast)
    addressPageSize := pageSize, rawEntries := table }

theorem filled_ok {job : ClusterJob}
    (ok : ((w.beginCluster job.clusterId job.numRecords job.centroid job.epsilon).andThen fun w =>
      (w.writeVectors env job.codes).andThen (writeAddressBlocks build job.column)) = (none, w')) :
    ∃ pageSize table, w' = w.filled env job pageSize table ∧
      w.currentClusterIndex < w.numClusters ∧
      (job.centroid.take w.dim.toNat).length = w.dim.toNat ∧
      rawTable build job.column = .ok (pageSize, table) ∧
      columnError (w'.entry).numRecords job.column = none ∧
      (∀ unit ∈ fastScanUnits w.dim job.codes, unit.emission.error = none) ∧
      (∀ unit ∈ exDataUnits w.config w.dim (effectiveWriterFileVersion env w.config) job.codes,
        unit.emission.error = none) := by
  obtain ⟨begun, first, rest⟩ := Outcome.andThen_ok ok
  obtain ⟨-, below, whole, rfl⟩ := beginCluster_ok first
  obtain ⟨held, second, third⟩ := Outcome.andThen_ok rest
  obtain ⟨-, -, rfl, fastClean, extraClean⟩ := writeVectors_ok second
  obtain ⟨pageSize, table, kept, fits, -, rfl⟩ := writeAddressBlocks_ok third
  refine ⟨pageSize, table, ?_, below, ?_, kept, fits, fastClean, extraClean⟩
  · have written (file : FileStream) (last : List UInt8) :
        ((file.writeAll (unitParts (fastScanUnits w.dim job.codes))).writeAll (unitParts
            (exDataUnits w.config w.dim (effectiveWriterFileVersion env w.config) job.codes))).write
          last = file.writeAll (unitParts (fastScanUnits w.dim job.codes) ++ (unitParts
            (exDataUnits w.config w.dim (effectiveWriterFileVersion env w.config) job.codes) ++
              [last])) := by
      simp [FileStream.writeAll, List.foldl_append]
    have table_written (file : FileStream) :
        (if table = [] then file else file.write (rawTableBytes table)) =
          file.write (rawTableBytes table) := by
      split
      · next empty =>
          subst empty
          exact (file.write_nil).symm
      · rfl
    simp only [addressed, table_written, filled, ← written]
    simp [begun, vectored, afterUnits, extraUnits, unitParts, unitSteps, setEntry, entry]
  · rw [List.length_take]
    omega

/-- The block of a cluster whose vectors and addresses are written. -/
def filledBlock (env : Option ℤ) (job : ClusterJob) (pageSize : UInt32)
    (table : List RawAddressEntryV2) (w : ClusterStoreWriter) : Block :=
  { fastScan := unitBytes (fastScanUnits w.dim job.codes)
    extra := unitBytes
      (exDataUnits w.config w.dim (effectiveWriterFileVersion env w.config) job.codes)
    table := table
    trailer := (w.filled env job pageSize table).trailerFields
    miniTrailer := (w.filled env job pageSize table).miniTrailerSize }

/-- The entry of a cluster whose block starts at the offset and is this long. -/
def filledEntry (job : ClusterJob) (length : ℕ) (w : ClusterStoreWriter) : LookupEntry :=
  { clusterId := job.clusterId, numRecords := job.numRecords, epsilon := job.epsilon
    centroid := job.centroid.take w.dim.toNat, blockOffset := w.currentOffset, blockSize := length
    numFastscanBlocks := (UInt32.ofNat job.codes.length + 31) / 32
    exrabitqRegionOffset := UInt32.ofNat (unitSteps (fastScanUnits w.dim job.codes)) }

section Filled

variable {job : ClusterJob} {pageSize : UInt32} {table : List RawAddressEntryV2}

/-- The trailer ends the block. -/
theorem filled_trailer (ready : w.Ready)
    (good : ((w.filled env job pageSize table).put
      (w.filled env job pageSize table).trailerBytes).file.good = true) :
    let ended := (w.filled env job pageSize table).put
      (w.filled env job pageSize table).trailerBytes
    w.file.good = true ∧
      ended.file.bytes = w.file.bytes ++ (w.filledBlock env job pageSize table).bytes ∧
      ended.file.pos = w.currentOffset + (w.filledBlock env job pageSize table).bytes.length := by
  have start : w.file.good = true := FileStream.good_of_writeAll (FileStream.good_of_write good)
  obtain ⟨atEnd, pos⟩ := ready.atEnd start
  obtain ⟨bytes, atEnd'⟩ := atEnd.writeAll (FileStream.good_of_write good)
  obtain ⟨bytes', atEnd''⟩ := FileStream.AtEnd.write atEnd' good
  have whole : ((w.filled env job pageSize table).put
      (w.filled env job pageSize table).trailerBytes).file.bytes =
        w.file.bytes ++ (w.filledBlock env job pageSize table).bytes := by
    refine bytes'.trans ?_
    rw [bytes]
    simp [Block.bytes, filledBlock, unitBytes, trailerBytes, List.append_assoc]
  refine ⟨start, whole, ?_⟩
  rw [FileStream.AtEnd] at atEnd atEnd''
  refine atEnd''.trans ((congrArg List.length whole).trans ?_)
  rw [List.length_append, ← atEnd, pos]

/-- The entry of the ended cluster, and the table with it. -/
theorem filled_entry (ready : w.Ready) (below : w.currentClusterIndex < w.numClusters)
    (good : ((w.filled env job pageSize table).put
      (w.filled env job pageSize table).trailerBytes).file.good = true) :
    let entry := w.filledEntry job (w.filledBlock env job pageSize table).bytes.length
    (w.filled env job pageSize table).trailed.lookupTable =
        w.lookupTable.set w.currentClusterIndex entry ∧
      (w.filled env job pageSize table).trailed.entry = entry := by
  obtain ⟨-, -, pos⟩ := filled_trailer ready good
  have inTable : w.currentClusterIndex < w.lookupTable.length := by rwa [ready.table]
  have ended : ((w.filled env job pageSize table).put
      (w.filled env job pageSize table).trailerBytes).endedEntry =
        w.filledEntry job (w.filledBlock env job pageSize table).bytes.length := by
    simp only [endedEntry, pos]
    simp [filled, filledEntry, put, setEntry, entry, inTable]
  have set : (w.filled env job pageSize table).trailed.lookupTable =
      w.lookupTable.set w.currentClusterIndex
        (w.filledEntry job (w.filledBlock env job pageSize table).bytes.length) := by
    simp only [trailed, setEntry, ended]
    simp [filled, put, setEntry]
  refine ⟨set, ?_⟩
  rw [entry, set]
  simp [trailed, filled, put, setEntry, inTable]

/-- The calls' block is the job's. -/
theorem filled_blockOf (ready : w.Ready) (below : w.currentClusterIndex < w.numClusters)
    (good : ((w.filled env job pageSize table).put
      (w.filled env job pageSize table).trailerBytes).file.good = true)
    (centroid : (job.centroid.take w.dim.toNat).length = w.dim.toNat)
    (kept : rawTable build job.column = .ok (pageSize, table))
    (fits : columnError (w.filled env job pageSize table).entry.numRecords job.column = none)
    (fastClean : ∀ unit ∈ fastScanUnits w.dim job.codes, unit.emission.error = none)
    (extraClean : ∀ unit ∈
      exDataUnits w.config w.dim (effectiveWriterFileVersion env w.config) job.codes,
      unit.emission.error = none) :
    BlockOf env build w.config w.dim w.currentOffset job
      (w.filledEntry job (w.filledBlock env job pageSize table).bytes.length)
      (w.filledBlock env job pageSize table) := by
  have inTable : w.currentClusterIndex < w.lookupTable.length := by rwa [ready.table]
  refine ⟨fastClean, extraClean, rfl, rfl, kept, ?_, rfl, ?_, rfl, ?_, centroid, rfl⟩
  · have records : (w.filled env job pageSize table).entry.numRecords = job.numRecords := by
      simp [filled, setEntry, entry, inTable]
    rwa [records] at fits
  · have cancel (a b c d : ℕ) : a + b + c + d - a = b + c + d := by omega
    exact congrArg UInt32.ofNat (congrArg (· - _) (cancel _ _ _ _))
  · have whole : ((w.filled env job pageSize table).file.write
        ((w.filled env job pageSize table).trailerFields.bytes ++
          (leBytes 4 (w.filled env job pageSize table).miniTrailerSize.toNat ++
            leBytes 4 kBlockMagic.toNat))).good = true := by
      rw [← List.append_assoc]
      exact good
    have written := FileStream.write_front_good whole
    have clean := FileStream.good_of_write written
    obtain ⟨atEnd, offset⟩ := ready.atEnd (FileStream.good_of_writeAll clean)
    obtain ⟨bytes, atEnd'⟩ := atEnd.writeAll clean
    obtain ⟨bytes', last⟩ := FileStream.AtEnd.write atEnd' written
    have pos : ((w.filled env job pageSize table).put
        (w.filled env job pageSize table).trailerFields.bytes).file.pos = w.currentOffset +
          (w.filledBlock env job pageSize table).fastScan.length +
          (w.filledBlock env job pageSize table).extra.length +
          (rawTableBytes (w.filledBlock env job pageSize table).table).length + 24 := by
      refine last.trans ((congrArg List.length bytes').trans ?_)
      rw [List.length_append, bytes, List.length_append, ← atEnd, offset, List.flatten_append,
        List.flatten_append, List.length_append, List.length_append, trailerFields_length]
      simp [filledBlock, unitBytes, Nat.add_assoc]
    show UInt32.ofNat (_ + 8 - _) = _
    rw [pos]
    rfl

end Filled

theorem le_roundUp4K (v : ℕ) : v ≤ roundUp4K v := by
  rw [roundUp4K, kAlignSize]
  omega

/-- **A cluster's block is appended and its entry patched.** -/
theorem writeCluster_ok (ready : w.Ready) {job : ClusterJob}
    (ok : w.writeCluster env build job = (none, w')) :
    w'.Ready ∧ ∃ entry block, Wrote env build job w w' entry block := by
  obtain ⟨v, first, last⟩ := Outcome.andThen_ok ok
  obtain ⟨pageSize, table, rfl, below, centroid, kept, fits, fastClean, extraClean⟩ :=
    filled_ok first
  obtain ⟨-, -, goodTrailer, goodPatch, rfl⟩ := endCluster_ok last
  obtain ⟨start, bytes, pos⟩ := filled_trailer ready goodTrailer
  obtain ⟨entries, entry⟩ := filled_entry ready below goodTrailer
  obtain ⟨-, patched, -⟩ := FileStream.seek_write_good goodPatch
  have entryLength : (w.filledEntry job
      (w.filledBlock env job pageSize table).bytes.length).bytes.length = lookupEntrySize w.dim :=
    LookupEntry.bytes_length centroid
  have inTable : w.entryAt w.currentClusterIndex + lookupEntrySize w.dim ≤ w.currentOffset := by
    have next : w.entryAt (w.currentClusterIndex + 1) ≤ w.entryAt w.numClusters :=
      Nat.add_le_add_left (Nat.mul_le_mul_right _ below) _
    have lookups := ready.lookups
    rw [entryAt, Nat.succ_mul, ← Nat.add_assoc] at next
    exact Nat.le_trans next lookups
  have ends : w.file.bytes.length = w.currentOffset := by
    obtain ⟨atEnd, offset⟩ := ready.atEnd start
    rw [← offset, atEnd]
  have placed : (w.filled env job pageSize table).patched.file.bytes =
      overwrite (w.file.bytes ++ (w.filledBlock env job pageSize table).bytes)
        (w.entryAt w.currentClusterIndex)
        (w.filledEntry job (w.filledBlock env job pageSize table).bytes.length).bytes := by
    refine patched.trans ?_
    rw [entry]
    exact congrArg (overwrite · _ _) bytes
  have length : (w.filled env job pageSize table).patched.file.bytes.length =
      w.currentOffset + (w.filledBlock env job pageSize table).bytes.length := by
    rw [placed, overwrite_length (by rw [List.length_append]; omega), List.length_append,
      entryLength, ends]
    omega
  have offset : (w.filled env job pageSize table).patched.currentOffset =
      w.currentOffset + (w.filledBlock env job pageSize table).bytes.length := pos
  have later := le_roundUp4K
    (w.currentOffset + (w.filledBlock env job pageSize table).bytes.length)
  refine ⟨⟨fun good => ?_, ?_, ready.path, ?_⟩, _, w.filledBlock env job pageSize table,
    ⟨rfl, rfl, rfl, rfl, rfl⟩, below, rfl, entries, start, ?_, ?_,
    filled_blockOf ready below goodTrailer centroid kept fits fastClean extraClean⟩
  · rw [ended_file] at good
    obtain ⟨-, padded, last⟩ := FileStream.seek_write_good good
    rw [← ended_file] at padded last
    rw [ended_currentOffset, FileStream.AtEnd, last, padded, overwrite_length (by rw [length, offset]),
      length, offset, List.length_replicate]
    omega
  · exact (congrArg List.length entries).trans (by rw [List.length_set, ready.table]; rfl)
  · rw [ended_currentOffset, offset]
    exact Nat.le_trans ready.lookups (by omega)
  · rw [ended_currentOffset, offset]
    exact later
  · obtain ⟨pad, padded⟩ := FileStream.seek_end_write
      (w.filled env job pageSize table).patched.file (List.replicate
        (roundUp4K (w.filled env job pageSize table).patched.currentOffset -
          (w.filled env job pageSize table).patched.currentOffset) 0)
    rw [length, ← offset, ← ended_file, placed] at padded
    exact ⟨pad, padded⟩

/-- The file holds a cluster's entry and its block. -/
structure Holds (bytes : List UInt8) (entryAt : ℕ) (entry : LookupEntry) (block : Block) : Prop where
  entryHere : slice bytes entryAt entry.bytes.length = entry.bytes
  blockHere : slice bytes entry.blockOffset block.bytes.length = block.bytes

namespace Wrote

variable {job : ClusterJob} {entry : LookupEntry} {block : Block}

theorem ends (ready : w.Ready) (wrote : Wrote env build job w w' entry block) :
    w.file.bytes.length = w.currentOffset := by
  obtain ⟨atEnd, offset⟩ := ready.atEnd wrote.good
  rw [← offset, atEnd]

theorem entryLength (wrote : Wrote env build job w w' entry block) :
    entry.bytes.length = lookupEntrySize w.dim := by
  have whole := wrote.block.centroid
  rw [wrote.block.entry]
  exact LookupEntry.bytes_length whole

theorem entryAt_succ (w : ClusterStoreWriter) (i : ℕ) :
    w.entryAt (i + 1) = w.entryAt i + lookupEntrySize w.dim := by
  rw [entryAt, entryAt, Nat.succ_mul, Nat.add_assoc]

theorem inTable (ready : w.Ready) (wrote : Wrote env build job w w' entry block) :
    w.entryAt (w.currentClusterIndex + 1) ≤ w.currentOffset :=
  Nat.le_trans (Nat.add_le_add_left (Nat.mul_le_mul_right _ wrote.below) _) ready.lookups

/-- The file before, apart from the entry, stays. -/
theorem frame (ready : w.Ready) (wrote : Wrote env build job w w' entry block) {off len : ℕ}
    (inside : off + len ≤ w.currentOffset)
    (apart : off + len ≤ w.entryAt w.currentClusterIndex ∨
      w.entryAt (w.currentClusterIndex + 1) ≤ off) :
    slice w'.file.bytes off len = slice w.file.bytes off len := by
  obtain ⟨pad, bytes⟩ := wrote.bytes
  have ends := wrote.ends ready
  have length := wrote.entryLength
  have next := entryAt_succ w w.currentClusterIndex
  have below := wrote.inTable ready
  have room : w.entryAt w.currentClusterIndex ≤ (w.file.bytes ++ block.bytes).length := by
    rw [List.length_append]
    omega
  rw [bytes, slice_append_left (by rw [overwrite_length room, List.length_append]; omega)]
  rcases apart with before | after
  · rw [overwrite_before room before, slice_append_left (by omega)]
  · rw [overwrite_after room (by omega), slice_append_left (by omega)]

theorem holds (ready : w.Ready) (wrote : Wrote env build job w w' entry block) :
    Holds w'.file.bytes (w.entryAt w.currentClusterIndex) entry block := by
  obtain ⟨pad, bytes⟩ := wrote.bytes
  have ends := wrote.ends ready
  have length := wrote.entryLength
  have next := entryAt_succ w w.currentClusterIndex
  have below := wrote.inTable ready
  have start : entry.blockOffset = w.currentOffset := by rw [wrote.block.entry]
  have room : w.entryAt w.currentClusterIndex ≤ (w.file.bytes ++ block.bytes).length := by
    rw [List.length_append]
    omega
  have whole : (overwrite (w.file.bytes ++ block.bytes) (w.entryAt w.currentClusterIndex)
      entry.bytes).length = w.currentOffset + block.bytes.length := by
    rw [overwrite_length room, List.length_append]
    omega
  constructor
  · rw [bytes, slice_append_left (by omega), overwrite_here room]
  · rw [bytes, start, slice_append_left (by omega), overwrite_after room (by omega)]
    have here := slice_append_right ends (rfl : block.bytes.length = _) []
    rwa [List.append_nil] at here

end Wrote

/-- What the calls for clusters do to the file. -/
structure WroteAll (env : Option ℤ) (build : Build) (jobs : List ClusterJob)
    (w w' : ClusterStoreWriter) : Prop where
  ready : w'.Ready
  same : SameFile w w'
  start : w.file.good = true
  grows : w.currentOffset ≤ w'.currentOffset
  entries : ∀ i, i < w.currentClusterIndex → w'.lookupTable[i]? = w.lookupTable[i]?
  frame : ∀ off len, off + len ≤ w.currentOffset →
    (off + len ≤ w.entryAt w.currentClusterIndex ∨ w.entryAt w.numClusters ≤ off) →
      slice w'.file.bytes off len = slice w.file.bytes off len
  clusters : ∀ i job, jobs[i]? = some job → ∃ start entry block,
    w'.lookupTable[w.currentClusterIndex + i]? = some entry ∧
      w.entryAt w.numClusters ≤ start ∧
      BlockOf env build w.config w.dim start job entry block ∧
      Holds w'.file.bytes (w.entryAt (w.currentClusterIndex + i)) entry block

/-- **Every cluster written stays in the file.** -/
theorem writeClusters_ok {jobs : List ClusterJob} (ready : w.Ready)
    (ok : w.writeClusters env build jobs = (none, w')) (good : w'.file.good = true) :
    WroteAll env build jobs w w' := by
  induction jobs generalizing w with
  | nil =>
      cases ok
      exact ⟨ready, ⟨rfl, rfl, rfl, rfl, rfl⟩, good, Nat.le_refl _, fun _ _ => rfl,
        fun _ _ _ _ => rfl, fun i job found => by simp at found⟩
  | cons job jobs ih =>
      obtain ⟨v, first, rest⟩ := Outcome.andThen_ok ok
      obtain ⟨ready', entry, block, wrote⟩ := writeCluster_ok ready first
      have later := ih ready' rest
      have inTable := wrote.inTable ready
      have last : w.entryAt (w.currentClusterIndex + 1) ≤ w.entryAt w.numClusters :=
        Nat.add_le_add_left (Nat.mul_le_mul_right _ wrote.below) _
      have next := Wrote.entryAt_succ w w.currentClusterIndex
      have grows := wrote.grows
      refine ⟨later.ready, wrote.same.trans later.same, wrote.good,
        Nat.le_trans (by omega) later.grows, fun i below => ?_, fun off len inside apart => ?_,
        fun i found => ?_⟩
      · rw [later.entries i (by rw [wrote.index]; omega), wrote.entries,
          List.getElem?_set_ne (by omega)]
      · rw [later.frame off len (by omega) ?_, wrote.frame ready inside ?_]
        · omega
        · rw [wrote.index, wrote.same.numClusters, wrote.same.entryAt, wrote.same.entryAt]
          omega
      · intro found'
        cases i with
        | zero =>
            cases found'
            have lookups := ready.lookups
            have start : entry.blockOffset = w.currentOffset := by rw [wrote.block.entry]
            have holds := wrote.holds ready
            have length := wrote.entryLength
            refine ⟨w.currentOffset, entry, block, ?_, lookups, wrote.block, ?_, ?_⟩
            · rw [Nat.add_zero, later.entries _ (by rw [wrote.index]; omega), wrote.entries]
              exact List.getElem?_set_self (by rw [ready.table]; exact wrote.below)
            · rw [Nat.add_zero, later.frame _ _ (by omega) ?_, holds.entryHere]
              rw [wrote.index, wrote.same.entryAt]
              omega
            · rw [later.frame _ _ (by omega) ?_, holds.blockHere]
              rw [wrote.same.numClusters, wrote.same.entryAt, wrote.same.entryAt]
              omega
        | succ i =>
            obtain ⟨start, entry, block, row, after, of, holds⟩ := later.clusters i _ found'
            rw [wrote.same.entryAt, wrote.index] at holds
            rw [wrote.same.numClusters, wrote.same.entryAt] at after
            rw [wrote.same.config, wrote.same.dim] at of
            rw [wrote.index] at row
            have shift : w.currentClusterIndex + 1 + i = w.currentClusterIndex + (i + 1) := by omega
            rw [shift] at row holds
            exact ⟨start, entry, block, row, after, of, holds⟩

/-! ## Whole files -/

/-- The file with its header and an empty lookup table. -/
def laidOut (env : Option ℤ) (numClusters dim : UInt32) (kept : StoreConfig) (room : Option ℕ) :
    ClusterStoreWriter :=
  let header := headerBytes (effectiveWriterFileVersion env kept) numClusters dim kept
  let w : ClusterStoreWriter :=
    { file := { room := room }, isOpen := true, numClusters := numClusters.toNat, dim := dim
      config := kept, lookupTable := List.replicate numClusters.toNat {}
      headerPathOffset := header.length
      lookupTableStart := header.length + 4 + kMaxPathLen.toNat }
  (w.put (header ++ List.replicate (4 + kMaxPathLen.toNat) 0)).put
    (List.replicate (numClusters.toNat * lookupEntrySize dim) 0)

/-- The writer after `Open`. -/
def opened (env : Option ℤ) (numClusters dim : UInt32) (kept : StoreConfig) (room : Option ℕ) :
    ClusterStoreWriter :=
  pad { laidOut env numClusters dim kept room with
    currentOffset := (laidOut env numClusters dim kept room).file.pos }

section Opened

variable {numClusters dim : UInt32} {config kept : StoreConfig} {room : Option ℕ}

theorem opened_file : (opened env numClusters dim kept room).file =
    (laidOut env numClusters dim kept room).file.write
      (List.replicate (roundUp4K (laidOut env numClusters dim kept room).file.pos -
        (laidOut env numClusters dim kept room).file.pos) 0) := rfl

theorem opened_currentOffset : (opened env numClusters dim kept room).currentOffset =
    roundUp4K (laidOut env numClusters dim kept room).file.pos := rfl

theorem open_ok (ok : «open» env numClusters dim config room = (none, w)) :
    ∃ kept, config.opened env = .ok kept ∧
      (laidOut env numClusters dim kept room).file.good = true ∧
      w = opened env numClusters dim kept room := by
  rw [«open»] at ok
  cases accepted : config.opened env with
  | error failure =>
      rw [accepted] at ok
      cases ok
  | ok kept =>
      rw [accepted] at ok
      obtain ⟨headed, first, rest⟩ := Outcome.andThen_ok ok
      obtain ⟨rfl, -⟩ := check_ok first
      obtain ⟨placed, second, last⟩ := Outcome.andThen_ok rest
      obtain ⟨rfl, good⟩ := check_ok second
      exact ⟨kept, rfl, good, (Prod.mk.inj last).2.symm⟩

theorem laidOut_file (good : (laidOut env numClusters dim kept room).file.good = true) :
    (laidOut env numClusters dim kept room).file.AtEnd ∧
      ∃ zeros : List UInt8, zeros.length = 260 + numClusters.toNat * lookupEntrySize dim ∧
        (laidOut env numClusters dim kept room).file.bytes =
          headerBytes (effectiveWriterFileVersion env kept) numClusters dim kept ++ zeros := by
  have start : ({ room := room } : FileStream).AtEnd := rfl
  obtain ⟨header, atEnd⟩ := start.write (FileStream.good_of_write good)
  obtain ⟨table, last⟩ := FileStream.AtEnd.write atEnd good
  refine ⟨last, List.replicate 260 0 ++
    List.replicate (numClusters.toNat * lookupEntrySize dim) 0, by
      rw [List.length_append, List.length_replicate, List.length_replicate], ?_⟩
  rw [← List.append_assoc]
  refine table.trans (congrArg (· ++ _) (header.trans ?_))
  rfl

theorem opened_ready (good : (laidOut env numClusters dim kept room).file.good = true) :
    (opened env numClusters dim kept room).Ready := by
  obtain ⟨atEnd, zeros, count, bytes⟩ := laidOut_file good
  have length : (laidOut env numClusters dim kept room).file.pos =
      (headerBytes (effectiveWriterFileVersion env kept) numClusters dim kept).length + 260 +
        numClusters.toNat * lookupEntrySize dim := by
    rw [atEnd, bytes, List.length_append, count]
    omega
  have later := le_roundUp4K (laidOut env numClusters dim kept room).file.pos
  constructor
  · intro good'
    rw [opened_file] at good' ⊢
    obtain ⟨padded, last⟩ := FileStream.AtEnd.write atEnd good'
    refine ⟨last, last.trans ?_⟩
    rw [padded, List.length_append, List.length_replicate, ← atEnd, opened_currentOffset]
    omega
  · exact List.length_replicate
  · exact Nat.le_refl _
  · refine Nat.le_trans (Nat.le_of_eq ?_) later
    rw [length]
    rfl

theorem opened_header (good : (opened env numClusters dim kept room).file.good = true) :
    slice (opened env numClusters dim kept room).file.bytes 0
        (opened env numClusters dim kept room).headerPathOffset =
      headerBytes (effectiveWriterFileVersion env kept) numClusters dim kept := by
  obtain ⟨atEnd, zeros, -, bytes⟩ := laidOut_file (FileStream.good_of_write good)
  obtain ⟨padded, -⟩ := FileStream.AtEnd.write atEnd good
  rw [opened_file, padded, bytes, List.append_assoc]
  exact slice_append_right (rfl : ([] : List UInt8).length = 0) rfl _

end Opened

theorem pathBytes_length {path : List UInt8} (short : UInt32.ofNat path.length ≤ kMaxPathLen) :
    (pathBytes path).length = 260 := by
  rw [UInt32.le_iff_toNat_le, kMaxPathLen] at short
  simp only [UInt32.reduceToNat] at short
  have cut := Nat.mod_le path.length (2 ^ 32)
  simp only [pathBytes, List.length_append, leBytes_length, List.length_take,
    List.length_replicate, kMaxPathLen, UInt32.reduceToNat, UInt32.toNat_ofNat'] at short ⊢
  omega

/-- A finished file, as the writer leaves it. -/
structure Finished (env : Option ℤ) (build : Build) (numClusters dim : UInt32)
    (config kept : StoreConfig) (jobs : List ClusterJob) (path : List UInt8)
    (w : ClusterStoreWriter) : Prop where
  accepted : config.opened env = .ok kept
  headerHere : slice w.file.bytes 0 w.headerPathOffset =
    headerBytes (effectiveWriterFileVersion env kept) numClusters dim kept
  headerLength : w.headerPathOffset =
    (headerBytes (effectiveWriterFileVersion env kept) numClusters dim kept).length
  pathHere : slice w.file.bytes w.headerPathOffset 260 = pathBytes path
  pathShort : UInt32.ofNat path.length ≤ kMaxPathLen
  clusters : ∀ i job, jobs[i]? = some job → ∃ start entry block,
    w.lookupTable[i]? = some entry ∧ BlockOf env build kept dim start job entry block ∧
      Holds w.file.bytes (w.lookupTableStart + i * lookupEntrySize dim) entry block

/-- **A file whose calls all return OK is finished.** -/
theorem writeFile_ok {numClusters dim : UInt32} {config : StoreConfig} {room : Option ℕ}
    {jobs : List ClusterJob} {path : List UInt8}
    (ok : writeFile env build numClusters dim config room jobs path = (none, w)) :
    ∃ kept, Finished env build numClusters dim config kept jobs path w := by
  obtain ⟨v, first, rest⟩ := Outcome.andThen_ok ok
  obtain ⟨kept, accepted, laid, rfl⟩ := open_ok first
  obtain ⟨u, second, last⟩ := Outcome.andThen_ok rest
  obtain ⟨-, short, good, rfl⟩ := finalize_ok last
  obtain ⟨clean, bytes, -⟩ := FileStream.seek_write_good good
  have wrote := writeClusters_ok (opened_ready laid) second clean
  have ends : u.file.bytes.length = u.currentOffset := by
    obtain ⟨atEnd, offset⟩ := wrote.ready.atEnd clean
    rw [← offset, atEnd]
  have path := wrote.ready.path
  have table := wrote.ready.lookups
  have tableStart : u.lookupTableStart ≤ u.entryAt u.numClusters := Nat.le_add_right _ _
  have length := pathBytes_length short
  have inside : u.headerPathOffset ≤ u.file.bytes.length := by omega
  have samePath := wrote.same.headerPathOffset
  have sameTable := wrote.same.lookupTableStart
  have before := (opened_ready laid).path
  have after := (opened_ready laid).lookups
  have tableInside : (opened env numClusters dim kept room).lookupTableStart ≤
      (opened env numClusters dim kept room).entryAt
        (opened env numClusters dim kept room).numClusters := Nat.le_add_right _ _
  have firstInside : (opened env numClusters dim kept room).lookupTableStart ≤
      (opened env numClusters dim kept room).entryAt
        (opened env numClusters dim kept room).currentClusterIndex := Nat.le_add_right _ _
  refine ⟨kept, accepted, ?_, samePath, ?_, short, fun i job found => ?_⟩
  · refine (congrArg (slice · _ _) bytes).trans ?_
    rw [overwrite_before inside (by simp [put, seek]), ← opened_header wrote.start]
    refine (wrote.frame _ _ ?_ (.inl ?_)).trans (congrArg _ samePath)
    · simp only [put, seek, Nat.zero_add]
      omega
    · simp only [put, seek, Nat.zero_add]
      omega
  · refine (congrArg (slice · _ _) bytes).trans ?_
    rw [← length]
    exact overwrite_here inside
  · obtain ⟨start, entry, block, row, behind, of, holds⟩ := wrote.clusters i job found
    have index : (opened env numClusters dim kept room).currentClusterIndex + i = i := Nat.zero_add i
    rw [index] at row holds
    have entryPlace : (opened env numClusters dim kept room).entryAt i =
        u.lookupTableStart + i * lookupEntrySize dim := by rw [sameTable]; rfl
    rw [entryPlace] at holds
    have offset : entry.blockOffset = start := by rw [of.entry]
    refine ⟨start, entry, block, row, of, ?_, ?_⟩
    · refine (congrArg (slice · _ _) bytes).trans ?_
      rw [overwrite_after inside (by simp only [put, seek]; omega)]
      exact holds.entryHere
    · refine (congrArg (slice · _ _) bytes).trans ?_
      rw [overwrite_after inside (by omega)]
      exact holds.blockHere

/-! ## Files that can be written -/

/-- A writer between clusters that can go on. -/
structure Going (w : ClusterStoreWriter) : Prop extends Live w where
  outside : w.inCluster = false
  notFinalized : w.finalized = false
  table : w.lookupTable.length = w.numClusters

/-- What the calls for a cluster accept. -/
structure Writable (env : Option ℤ) (build : Build) (config : StoreConfig) (dim : UInt32)
    (job : ClusterJob) : Prop where
  centroid : dim.toNat ≤ job.centroid.length
  fastScan : ∀ unit ∈ fastScanUnits dim job.codes, unit.emission.error = none
  extra : ∀ unit ∈ exDataUnits config dim (effectiveWriterFileVersion env config) job.codes,
    unit.emission.error = none
  column : columnError job.numRecords job.column = none
  table : ∃ kept, rawTable build job.column = .ok kept

theorem Going.writeCluster (going : w.Going) (below : w.currentClusterIndex < w.numClusters)
    {job : ClusterJob} (writable : Writable env build w.config w.dim job) :
    ∃ w', w.writeCluster env build job = (none, w') ∧ w'.Going ∧ SameFile w w' ∧
      w'.currentClusterIndex = w.currentClusterIndex + 1 := by
  obtain ⟨⟨pageSize, table⟩, kept⟩ := writable.table
  have begins := beginCluster_runs going.isOpen going.outside below job.clusterId job.numRecords
    job.epsilon writable.centroid
  have begunLive : (w.begun job.clusterId job.numRecords job.epsilon job.centroid).Live :=
    ⟨going.isOpen, going.good, going.unbounded⟩
  obtain ⟨vectors, vectoredLive⟩ := begunLive.writeVectors rfl rfl writable.fastScan writable.extra
  have records : ((w.begun job.clusterId job.numRecords job.epsilon job.centroid).vectored env
      job.codes).entry.numRecords = job.numRecords := by
    have inTable : w.currentClusterIndex < w.lookupTable.length := by rwa [going.table]
    simp [vectored, afterUnits, begun, setEntry, entry, inTable]
  obtain ⟨addresses, addressedLive⟩ := vectoredLive.writeAddressBlocks rfl rfl rfl
    (by rw [records]; exact writable.column) kept
  obtain ⟨ends, endedLive⟩ := addressedLive.endCluster rfl rfl
  refine ⟨_, ?_, ⟨endedLive, rfl, going.notFinalized, ?_⟩, ⟨rfl, rfl, rfl, rfl, rfl⟩, rfl⟩
  · refine (Outcome.andThen_run ?_).trans ends
    exact (Outcome.andThen_run begins).trans ((Outcome.andThen_run vectors).trans addresses)
  · show (List.set _ _ _).length = _
    rw [List.length_set]
    show (List.set _ _ _).length = _
    rw [List.length_set, going.table]
    rfl

/-- Clusters that are writable are written. -/
theorem Going.writeClusters (going : w.Going) {jobs : List ClusterJob}
    (room : w.currentClusterIndex + jobs.length ≤ w.numClusters)
    (writable : ∀ job ∈ jobs, Writable env build w.config w.dim job) :
    ∃ w', w.writeClusters env build jobs = (none, w') ∧ w'.Going := by
  induction jobs generalizing w with
  | nil => exact ⟨w, rfl, going⟩
  | cons job jobs ih =>
      rw [List.length_cons] at room
      obtain ⟨first, rest⟩ := List.forall_mem_cons.1 writable
      obtain ⟨v, written, going', same, index⟩ := going.writeCluster (by omega) first
      obtain ⟨w', run, last⟩ := ih going' (by rw [index, same.numClusters]; omega) (by
        rw [same.config, same.dim]
        exact rest)
      exact ⟨w', (Outcome.andThen_run written).trans run, last⟩

theorem open_runs {numClusters dim : UInt32} {config kept : StoreConfig}
    (accepted : config.opened env = .ok kept) :
    «open» env numClusters dim config none = (none, opened env numClusters dim kept none) ∧
      (opened env numClusters dim kept none).Going := by
  have laid : (laidOut env numClusters dim kept none).Live := by
    rw [laidOut]
    exact Live.put (Live.put ⟨rfl, rfl, rfl⟩ _) _
  obtain ⟨good, unbounded⟩ := FileStream.write_unbounded laid.good laid.unbounded (List.replicate
    (roundUp4K (laidOut env numClusters dim kept none).file.pos -
      (laidOut env numClusters dim kept none).file.pos) 0)
  rw [← opened_file] at good unbounded
  refine ⟨?_, ⟨rfl, good, unbounded⟩, rfl, rfl, List.length_replicate⟩
  rw [«open», accepted]
  dsimp only
  refine (Outcome.andThen_run (check_good (FileStream.good_of_write laid.good))).trans ?_
  exact Outcome.andThen_run (check_good laid.good)

/-- **Writable clusters make a file**, on a device that takes everything. -/
theorem writeFile_runs {numClusters dim : UInt32} {config kept : StoreConfig}
    {jobs : List ClusterJob} {path : List UInt8} (accepted : config.opened env = .ok kept)
    (count : jobs.length ≤ numClusters.toNat)
    (writable : ∀ job ∈ jobs, Writable env build kept dim job)
    (short : UInt32.ofNat path.length ≤ kMaxPathLen) :
    ∃ w, writeFile env build numClusters dim config none jobs path = (none, w) := by
  obtain ⟨opens, going⟩ := @open_runs env numClusters dim _ _ accepted
  obtain ⟨v, written, going'⟩ := going.writeClusters
    (Nat.le_trans (Nat.le_of_eq (Nat.zero_add _)) count) writable
  obtain ⟨w, last⟩ := going'.toLive.finalize going'.notFinalized going'.outside short
  exact ⟨w, (Outcome.andThen_run opens).trans ((Outcome.andThen_run written).trans last)⟩

end ClusterStoreWriter

end VecFetch.Storage
