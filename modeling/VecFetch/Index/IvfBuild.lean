/-
# Index.IvfBuild -- building an index

`IvfBuilder::Build` checks its arguments, pads the rows to a dimension that a rotation serves,
clusters them or reads a clustering, and writes the files: each vector's record to `data.dat`,
then cluster by cluster the codes of its members and the addresses of their records to
`cluster.clu`.

A clustering that is read is not checked: neither that every assignment is below `nlist`, nor that
there are `nlist` centroids.  What such a build reads or writes outside its tables is a failure
here.  The calibrations are left out; they only read, and what they find goes to `segment.meta`.
-/
import VecFetch.Index.IndexOpen
import VecFetch.Rabitq.Encoder
import VecFetch.Storage.ClusterImage
import VecFetch.Storage.RawTable
import VecFetch.Theory.Buckets

namespace VecFetch.Index

open VecFetch.Theory VecFetch.Simd VecFetch.Rabitq VecFetch.Storage VecFetch.Query

set_option autoImplicit false

/-! ## Configurations -/

inductive CoarseBuilder where
  | auto
  | superKMeans
  | hierarchicalSuperKMeans
  | faissKMeans
  deriving DecidableEq

/-- `IvfBuilderConfig`, as far as the two files depend on it. -/
structure IvfBuilderConfig where
  coarseBuilder : CoarseBuilder := .auto
  nlist : UInt32 := 16
  /-- The paths of centroids and assignments are both set. -/
  precomputed : Bool := false
  rabitq : StoreConfig := {}
  payloadSchemas : List ColumnSchema := []
  pageSize : UInt32 := 1
  metric : String := "l2"

/-- The matrix that `LoadVectors` gives. -/
structure NpyArrayFloat (K : Type) where
  data : FloatVec K
  rows : UInt32
  cols : UInt32
  whole : data.size = rows.toNat * cols.toNat

/-- The matrix that `LoadIvecs` gives, each entry as it is cast to `uint32_t`. -/
structure VecsArrayInt32 where
  data : List UInt32
  rows : UInt32
  cols : UInt32
  whole : data.length = rows.toNat * cols.toNat

/-- What a build takes from elsewhere: files, clustering libraries, random engines, the bits of
floats, the environment's file version, and the room on the devices of the two files. -/
structure BuildWorld (K : Type) where
  loadVectors : Opened (NpyArrayFloat K)
  loadIvecs : Opened VecsArrayInt32
  superKMeans (hierarchical : Bool) (vectors : ℕ → K) : FloatVec K × List UInt32
  faiss (innerProduct : Bool) (working : ℕ → K) : Except String ((ℕ → K) × (ℕ → ℤ))
  rotationRng : Rng K
  tConstRng : Rng K
  pattern : K → UInt32
  version : Option ℤ
  space : ℕ
  room : Option ℕ

/-! ## Clustering -/

structure Clustering (K : Type) where
  centroids : FloatVec K
  assignments : List UInt32
  effectiveMetric : String

def statusCodeName : StatusCode → String
  | .invalidArgument => "InvalidArgument"
  | .notFound => "NotFound"
  | .alreadyExists => "AlreadyExists"
  | .ioError => "IOError"
  | .corruption => "Corruption"
  | .notSupported => "NotSupported"
  | .outOfMemory => "OutOfMemory"
  | .internal => "Internal"
  | .cancelled => "Cancelled"
  | .timeout => "Timeout"

/-- `Status::ToString`. -/
def statusString (status : StatusCode × String) : String :=
  if status.2.isEmpty then statusCodeName status.1 else statusCodeName status.1 ++ ": " ++ status.2

/-- The dimension that vectors are padded to. -/
def effectiveDim (dim : UInt32) : UInt32 :=
  if isPowerOf2 dim then dim else roundUpToMultiple dim 64

section Rows

variable {K : Type} [Zero K]

/-- `PadRowsToDim`; a row that is longer than its room runs out of the buffer. -/
def padRowsToDim (vectors : ℕ → K) (rows oldDim newDim : ℕ) : Option (FloatVec K) :=
  if newDim < oldDim ∧ 0 < rows then none
  else
    some ⟨rows * newDim, fun t =>
      if t % newDim < oldDim then vectors (t / newDim * oldDim + t % newDim) else 0⟩

/-- `build_vectors` of `Build`. -/
def paddedVectors (vectors : ℕ → K) (n dim : UInt32) : Result (ℕ → K) :=
  if effectiveDim dim = dim then .ok vectors
  else
    Result.inBounds
      ((padRowsToDim vectors n.toNat dim.toNat (effectiveDim dim).toNat).map FloatVec.get)

end Rows

section Clusterings

variable {K : Type} [Field K] [LinearOrder K] (arith : ExactArith K) (config : IvfBuilderConfig)
  (world : BuildWorld K)

/-- `RunFaissCoarseBuilder`. -/
def runFaissCoarseBuilder (vectors : ℕ → K) (n dim : UInt32) : Result (Clustering K) :=
  if n = 0 ∨ dim = 0 ∨ config.nlist = 0 then
    Status.invalidArgument "Faiss coarse builder received invalid input"
  else if n < config.nlist then
    Status.invalidArgument "Faiss coarse builder requires nlist <= num_vectors"
  else
    let innerProduct : Bool := config.metric == "cosine" || config.metric == "ip"
    let working :=
      if config.metric = "cosine" then IvfIndex.normalizedRows arith dim.toNat vectors else vectors
    match world.faiss innerProduct working with
    | .error message => .error (.status .internal message)
    | .ok (centroids, labels) =>
        if ∃ i, i < n.toNat ∧ (labels i < 0 ∨ (config.nlist.toNat : ℤ) ≤ labels i) then
          .error (.status .internal "Faiss quantizer assignment produced out-of-range label")
        else
          .ok
            { centroids := ⟨config.nlist.toNat * dim.toNat, centroids⟩
              assignments := (List.range n.toNat).map fun i => UInt32.ofNat (labels i).toNat
              effectiveMetric := if innerProduct then "ip" else "l2" }

/-- The centroids of a file, padded as the vectors are. -/
def loadedCentroids (c : NpyArrayFloat K) (dim logicalDim : UInt32) : Result (FloatVec K) :=
  if c.cols = dim then .ok c.data
  else if !isPowerOf2 logicalDim ∧ c.cols = logicalDim ∧ dim = effectiveDim logicalDim then
    Result.inBounds (padRowsToDim c.data.get c.rows.toNat c.cols.toNat dim.toNat)
  else Status.invalidArgument "Centroid dim mismatch"

/-- `RunKMeans` with precomputed files: entry `i` of the matrix is the assignment of vector `i`,
however many columns it has. -/
def precomputedClustering (n dim logicalDim : UInt32) : Result (Clustering K) :=
  match world.loadVectors with
  | .error status => Status.ioError ("Failed to load centroids: " ++ statusString status)
  | .ok c =>
      (loadedCentroids c dim logicalDim).bind fun centroids =>
        match world.loadIvecs with
        | .error status => Status.ioError ("Failed to load assignments: " ++ statusString status)
        | .ok a =>
            if a.rows ≠ n then Status.invalidArgument "Assignment count mismatch"
            else if a.data.length < n.toNat then .error .outOfBounds
            else
              .ok
                { centroids := centroids
                  assignments := a.data.take n.toNat
                  effectiveMetric :=
                    if config.metric = "cosine" ∨ config.metric = "ip" then "ip" else "l2" }

/-- `RunKMeans`. -/
def runKMeans (vectors : ℕ → K) (n dim logicalDim : UInt32) : Result (Clustering K) :=
  if config.precomputed then precomputedClustering config world n dim logicalDim
  else if config.coarseBuilder = .faissKMeans then
    runFaissCoarseBuilder arith config world vectors n dim
  else
    let hierarchical : Bool :=
      if config.coarseBuilder = .auto then decide (128 ≤ config.nlist)
      else decide (config.coarseBuilder = .hierarchicalSuperKMeans)
    let clustering :=
      if config.metric = "cosine" then
        world.superKMeans hierarchical (IvfIndex.normalizedRows arith dim.toNat vectors)
      else world.superKMeans hierarchical vectors
    .ok
      { centroids := clustering.1
        assignments := clustering.2
        effectiveMetric := if config.metric = "cosine" then "ip" else "l2" }

end Clusterings

/-! ## Writing the files -/

/-- What a build has when it comes to the cluster file; `vectors` are the padded ones. -/
structure IvfBuilder (K : Type) where
  n : UInt32
  logicalDim : UInt32
  dim : UInt32
  vectors : ℕ → K
  clustering : Clustering K
  rotation : RotationMatrix K
  usedHadamard : Bool
  rotationMode : String
  clusterMembers : List (List ℕ)
  encoder : RaBitQEncoder K
  addresses : List AddressEntry
  dataFile : List UInt8

/-- `data.dat`. -/
def dataFilePath : List UInt8 := [0x64, 0x61, 0x74, 0x61, 0x2E, 0x64, 0x61, 0x74]

section Write

variable {K : Type} [Field K] [LinearOrder K] [FloorRing K] (arith : ExactArith K) (simd : Build)
  (config : IvfBuilderConfig) (world : BuildWorld K)

/-- The rotation of a dimension: `used_hadamard`, `rotation_mode_` and the matrix. -/
def chooseRotation (dim : UInt32) : Bool × String × RotationMatrix K :=
  let r : RotationMatrix K := { dim := dim, data := fun _ => 0 }
  let avx512 : Bool := decide (simd = .avx512)
  let tried :=
    if isPowerOf2 dim then (r.generateHadamard arith world.rotationRng true, "hadamard")
    else (r.generateFhtKacRotator avx512 arith world.rotationRng true, "fht_kac_rotator")
  if tried.1.2 then (true, tried.2, tried.1.1)
  else (false, "random_matrix", tried.1.1.generateRandom arith world.rotationRng)

/-- The memory of a row of floats. -/
def floatBytes (pattern : K → UInt32) (dim : ℕ) (row : ℕ → K) : List UInt8 :=
  (List.range dim).flatMap fun j => leBytes 4 (pattern (row j)).toNat

/-- The record of a vector, as the caller gave it. -/
def recordOf (raw : ℕ → K) (logicalDim : UInt32) (payloadFn : Option (ℕ → List Datum)) (i : ℕ) :
    DataRecord where
  vec := floatBytes world.pattern logicalDim.toNat (rowOf logicalDim.toNat raw i)
  payload := match payloadFn with
    | some payload => payload i
    | none => []

namespace IvfBuilder

variable (b : IvfBuilder K)

def members (k : ℕ) : List ℕ := b.clusterMembers.getD k []

def centroid (k : ℕ) : ℕ → K := rowOf b.dim.toNat b.clustering.centroids.get k

/-- The encoding of a vector in a cluster. -/
def encode (k i : ℕ) : EncodedVector K :=
  b.encoder.encode arith (decide (simd = .avx512)) (rowOf b.dim.toNat b.vectors i)
    (some (b.centroid k))

/-- `r_max_per_cluster`. -/
def rMax (k : ℕ) : K :=
  (b.members k).foldl
    (fun best i => if best < (b.encode arith simd k i).norm then (b.encode arith simd k i).norm
      else best) 0

/-- `addr_entries_per_cluster`. -/
def addressesOf (k : ℕ) : List AddressEntry := (b.members k).map fun i => b.addresses.getD i ⟨0, 0⟩

/-- What is written of a cluster, with its address column. -/
def job (k : ℕ) (column : AddressPayload) : ClusterJob where
  clusterId := UInt32.ofNat k
  numRecords := UInt32.ofNat (b.members k).length
  epsilon := world.pattern (b.rMax arith simd k)
  centroid := (List.range b.dim.toNat).map fun j => world.pattern (b.centroid k j)
  codes := (b.members k).map fun i => (b.encode arith simd k i).stored world.pattern
  column := column

/-- The loop that writes the clusters. -/
def writeClusters : List ℕ → ClusterStoreWriter → Outcome
  | [], w => (none, w)
  | k :: ks, w =>
      match encodeRawTable (b.addressesOf k) config.pageSize with
      | none => (some .outOfBounds, w)
      | some column =>
          (w.writeCluster world.version simd (b.job arith simd world k column)).andThen
            (writeClusters ks)

/-- `cluster.clu`. -/
def writeClusterFile : Outcome :=
  (ClusterStoreWriter.open world.version config.nlist b.dim config.rabitq world.room).andThen
    fun w => (b.writeClusters arith simd config world (List.range config.nlist.toNat) w).andThen
      (ClusterStoreWriter.finalize dataFilePath)

end IvfBuilder

/-- `WriteIndex` up to the cluster file. -/
def prepareIndex (raw vectors : ℕ → K) (n dim logicalDim : UInt32)
    (payloadFn : Option (ℕ → List Datum)) (clustering : Clustering K) : Result (IvfBuilder K) :=
  let rotation := chooseRotation arith simd world dim
  if clustering.centroids.size < config.nlist.toNat * dim.toNat then .error .outOfBounds
  else
    (Result.inBounds (pushAll (fun i => clustering.assignments[i]?.map UInt32.toNat)
      config.nlist.toNat n.toNat)).bind fun clusterMembers =>
    (Result.inBounds (RaBitQEncoder.ofConfig arith world.tConstRng dim.toNat rotation.2.2
      config.rabitq.toRaBitQConfig)).bind fun encoder =>
    (DataFileWriter.writeFile world.space logicalDim config.payloadSchemas config.pageSize
      ((List.range n.toNat).map (recordOf world raw logicalDim payloadFn))).map fun written =>
        { n := n
          logicalDim := logicalDim
          dim := dim
          vectors := vectors
          clustering := clustering
          rotation := rotation.2.2
          usedHadamard := rotation.1
          rotationMode := rotation.2.1
          clusterMembers := clusterMembers
          encoder := encoder
          addresses := written.1
          dataFile := written.2 }

/-- `IvfBuilder::Build`: what it has built, and the writer of the cluster file. -/
def IvfBuilder.build (raw : ℕ → K) (n dim : UInt32) (payloadFn : Option (ℕ → List Datum)) :
    Result (IvfBuilder K × ClusterStoreWriter) :=
  if n = 0 ∨ dim = 0 then Status.invalidArgument "vectors, N, or dim is zero/null"
  else if config.nlist = 0 then Status.invalidArgument "nlist must be > 0"
  else if n < config.nlist then Status.invalidArgument "nlist must be <= N"
  else
    (paddedVectors raw n dim).bind fun vectors =>
      (runKMeans arith config world vectors n (effectiveDim dim) dim).bind fun clustering =>
        (prepareIndex arith simd config world raw vectors n (effectiveDim dim) dim payloadFn
          clustering).bind fun b =>
          match b.writeClusterFile arith simd config world with
          | (some failure, _) => .error failure
          | (none, w) => .ok (b, w)

end Write

end VecFetch.Index
