/-
# Storage.ReaderMove -- moving a cluster reader

Move construction and move assignment list the fields of a reader one by one, and both leave
out the version of the file: it is what a closed reader has.  A reader therefore answers as the
one it was moved from exactly if that one had no version, which is so if it is closed
(`moved_answers_iff`).
-/
import VecFetch.Storage.ClusterReader

namespace VecFetch.Storage

open VecFetch.Rabitq VecFetch.Query

set_option autoImplicit false

namespace ClusterStoreReader

variable {View Parsed : Type}

/-! ## Moves -/

/-- `Close`: the header and the lookup table stay. -/
def close (r : ClusterStoreReader View Parsed) : ClusterStoreReader View Parsed :=
  { info := r.info, fd := if 0 ≤ r.fd then -1 else r.fd }

/-- The reader that the move constructor builds. -/
def moveConstruct (other : ClusterStoreReader View Parsed) : ClusterStoreReader View Parsed :=
  { fd := other.fd
    info := other.info
    clusterIndex := other.clusterIndex
    loadedClusters := other.loadedClusters
    memory := other.memory
    residentClusters := other.residentClusters
    residentParsedClusters := other.residentParsedClusters
    report := other.report }

/-- The reader after a move from another one was assigned to it. -/
def moveAssign (r other : ClusterStoreReader View Parsed) : ClusterStoreReader View Parsed :=
  { r.close with
    fd := other.fd
    info := other.info
    clusterIndex := other.clusterIndex
    loadedClusters := other.loadedClusters
    memory := other.memory
    residentClusters := other.residentClusters
    residentParsedClusters := other.residentParsedClusters
    report := other.report }

/-- Both moves give the source without its version. -/
theorem moveConstruct_eq (other : ClusterStoreReader View Parsed) :
    other.moveConstruct = { other with fileVersion := 0 } := rfl

theorem moveAssign_eq (r other : ClusterStoreReader View Parsed) :
    r.moveAssign other = { other with fileVersion := 0 } := rfl

/-! ## Answers -/

/-- Every query has the same answer. -/
structure AnswersAlike (r s : ClusterStoreReader View Parsed) : Prop where
  isOpen : r.fd = s.fd
  fileVersion : r.fileVersion = s.fileVersion
  numClusters : r.info.numClusters = s.info.numClusters
  dim : r.info.dim = s.info.dim
  rabitqConfig : r.info.rabitqConfig = s.info.rabitqConfig
  dataFilePath : r.info.dataFilePath = s.info.dataFilePath
  clusterIds : r.clusterIds = s.clusterIds
  numRecords : ∀ id, r.getNumRecords id = s.getNumRecords id
  centroid : ∀ id, r.getCentroid id = s.getCentroid id
  epsilon : ∀ id, r.getEpsilon id = s.getEpsilon id
  totalRecords : r.totalRecords = s.totalRecords
  blockLocation : ∀ id, r.getBlockLocation id = s.getBlockLocation id
  addresses : ∀ id indices, r.getAddresses id indices = s.getAddresses id indices
  code : ∀ id recordIdx, r.loadCode id recordIdx = s.loadCode id recordIdx
  codes : ∀ build officialXipnorm id indices outCodes,
    r.loadCodes build officialXipnorm id indices outCodes =
      s.loadCodes build officialXipnorm id indices outCodes
  codePtr : ∀ id recordIdx, r.getCodePtr id recordIdx = s.getCodePtr id recordIdx
  parse : ∀ build id blockPtr blockSize,
    r.parse build id blockPtr blockSize = s.parse build id blockPtr blockSize
  residentView : r.residentClusters = s.residentClusters
  residentParsed : r.residentParsedClusters = s.residentParsedClusters
  report : r.report = s.report

theorem AnswersAlike.refl (r : ClusterStoreReader View Parsed) : r.AnswersAlike r := by
  constructor <;> intros <;> rfl

/-- A reader without its version answers as it did exactly if it had none. -/
theorem unversioned_answers_iff (r : ClusterStoreReader View Parsed) :
    AnswersAlike { r with fileVersion := 0 } r ↔ r.fileVersion = 0 := by
  constructor
  · intro alike
    exact alike.fileVersion.symm
  · intro closed
    have same : { r with fileVersion := 0 } = r := by
      rw [← closed]
    rw [same]
    exact AnswersAlike.refl r

/-- **A moved reader answers as its source did** exactly if the source had no file version. -/
theorem moved_answers_iff (other : ClusterStoreReader View Parsed) :
    (other.moveConstruct.AnswersAlike other ∧
      ∀ r : ClusterStoreReader View Parsed, (r.moveAssign other).AnswersAlike other) ↔
      other.fileVersion = 0 := by
  rw [moveConstruct_eq]
  simp only [moveAssign_eq]
  rw [unversioned_answers_iff]
  exact ⟨fun both => both.1, fun closed => ⟨closed, fun _ => closed⟩⟩

/-- A reader of a version 12 file with one cluster, which is empty. -/
def emptyCluster : ClusterStoreReader Unit Unit where
  fd := 3
  fileVersion := 12
  info := { numClusters := 1, dim := 64, lookupTable := [{ blockSize := 32 }] }
  clusterIndex id := if id = 0 then some 0 else none

/-- The block of that cluster. -/
def emptyBlock : ℕ → UInt8 := fun j =>
  [2, 0, 0, 0, 0, 16, 0, 0, 8, 0, 0, 0, 0, 0, 0, 0, 0, 0, 0, 0, 0, 0, 0, 0, 32, 0, 0, 0,
    0x56, 0x43, 0x4C, 0x42].getD j 0

/-- Once moved, the reader takes the block for one of packed addresses, and refuses it. -/
theorem moved_refuses_block :
    ¬ (emptyCluster.moveConstruct.AnswersAlike emptyCluster ∧
      ∀ r : ClusterStoreReader Unit Unit, (r.moveAssign emptyCluster).AnswersAlike emptyCluster) ∧
      (emptyCluster.parse .scalar 0 (some emptyBlock) 32).toBool = true ∧
        (emptyCluster.moveConstruct.parse .scalar 0 (some emptyBlock) 32).toBool = false := by
  have parsed : (emptyCluster.parse .scalar 0 (some emptyBlock) 32).toBool = true := by decide
  have refused : (emptyCluster.moveConstruct.parse .scalar 0 (some emptyBlock) 32).toBool =
      false := by decide
  refine ⟨fun alike => ?_, parsed, refused⟩
  rw [alike.1.parse, parsed] at refused
  cases refused

end ClusterStoreReader

end VecFetch.Storage
