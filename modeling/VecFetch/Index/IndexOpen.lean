/-
# Index.IndexOpen -- opening an index directory

`IvfIndex::Open` sets the fields of the index one after the other, and returns an error where a
file does not pass; what was set before stays.  The cluster ids come from `segment.meta` and are
sorted, the centroids from `centroids.bin`, and nothing compares the two.

What a FlatBuffer, a rotation file, a cluster file or a data file is opened as, and how that
fails, belongs to the directory.
-/
import VecFetch.Common.Status
import VecFetch.Common.Datum
import VecFetch.Index.CoarseWellFormed

namespace VecFetch.Index

open VecFetch.Theory VecFetch.Simd VecFetch.Rabitq

set_option autoImplicit false

/-! ## Directories -/

structure IvfParams where
  nlist : UInt32
  assignmentMode : UInt8
  assignmentFactor : UInt32

/-- `segment.meta`, verified. -/
structure SegmentMeta where
  dimension : UInt32
  ivfParams : Option IvfParams
  /-- `has_rotated_centroids` of the ConANN parameters. -/
  conannParams : Option Bool
  payloadSchemas : List ColumnSchema
  clusters : List UInt32

/-- A cluster of `cluster.clu`. -/
structure ClusterRow (K : Type) where
  clusterId : UInt32
  centroid : ℕ → K

/-- What a file is opened as, or a status. -/
abbrev Opened (α : Type) := Except (StatusCode × String) α

/-- The files of an index directory. -/
structure Directory (K : Type) where
  dir : String
  segmentMeta : Opened SegmentMeta
  buildMetadata : Option (List Char)
  centroidsBin : Option (FloatVec K)
  rotationBin : UInt32 → Opened (RotationMatrix K)
  /-- How many floats `rotated_centroids.bin` has. -/
  rotatedCentroidsBin : Option ℕ
  clusterClu : Opened (List (ClusterRow K))
  dataDat : List ColumnSchema → Option UInt32 → Opened Unit

/-! ## The sidecar -/

/-- `contents.find(pattern, start)`. -/
def findFrom (contents pattern : List Char) (start : ℕ) : Option ℕ :=
  (List.range (contents.length + 1)).find? fun i =>
    decide (start ≤ i) && pattern.isPrefixOf (contents.drop i)

/-- The quotation mark. -/
def quote : Char := Char.ofNat 34

def quotedKey (key : String) : List Char := (quote :: key.toList) ++ [quote]

/-- `ExtractJsonStringField`, empty where there is no such field. -/
def extractJsonStringField (contents : List Char) (key : String) : String :=
  let value := do
    let keyPos ← findFrom contents (quotedKey key) 0
    let colon ← findFrom contents [':'] (keyPos + (quotedKey key).length)
    let firstQuote ← findFrom contents [quote] (colon + 1)
    let secondQuote ← findFrom contents [quote] (firstQuote + 1)
    some ((contents.drop (firstQuote + 1)).take (secondQuote - firstQuote - 1))
  String.ofList (value.getD [])

/-- `std::isspace`. -/
def isSpace (c : Char) : Bool := c.toNat == 32 || (decide (9 ≤ c.toNat) && decide (c.toNat ≤ 13))

/-- `std::strtoull` of decimal digits. -/
def strtoull (digits : List Char) : ℕ :=
  min (digits.foldl (fun v c => 10 * v + (c.toNat - 48)) 0) (2 ^ 64 - 1)

/-- `ExtractJsonUintField`. -/
def extractJsonUintField (contents : List Char) (key : String) (defaultValue : ℕ) : ℕ :=
  let found := do
    let keyPos ← findFrom contents (quotedKey key) 0
    let colon ← findFrom contents [':'] (keyPos + (quotedKey key).length)
    some (((contents.drop (colon + 1)).dropWhile isSpace).takeWhile Char.isDigit)
  match found with
  | none => defaultValue
  | some [] => defaultValue
  | some digits => strtoull digits

/-! ## The index -/

/-- An `IvfIndex` with what only `Open` reads and writes. -/
structure OpenIndex (K : Type) extends IvfIndex K where
  logicalDim : UInt32
  rotationMode : String
  payloadSchemas : List ColumnSchema
  /-- The segment's cluster reader has a file. -/
  segmentOpen : Bool

/-- A new index. -/
def OpenIndex.new (K : Type) [Zero K] : OpenIndex K where
  dim := 0
  nlist := 0
  centroids := ⟨0, fun _ => 0⟩
  normalizedCentroids := ⟨0, fun _ => 0⟩
  packedCentroids := ⟨⟨0, fun _ => 0⟩, 0, 0, 0⟩
  packedNormalizedCentroids := ⟨⟨0, fun _ => 0⟩, 0, 0, 0⟩
  clusterIds := []
  requestedMetric := "l2"
  effectiveMetric := "l2"
  useCoarseSelectSimd := true
  useCoarseSelectPhase2 := false
  useTwoLevelCoarseRouting := false
  twoLevelCoarseThreshold := 4096
  twoLevelCoarseSuperCount := 0
  twoLevelCoarseSuperFactor := 0
  twoLevelCoarseBudgetFactor := 8
  twoLevelCoarseExactOverlap := false
  coarseHierarchy := none
  logicalDim := 0
  rotationMode := "random_matrix"
  payloadSchemas := []
  segmentOpen := false

/-- The status of a step, `none` for OK, and the index after it. -/
abbrev Opening (K : Type) := Option Failure × OpenIndex K

def Opening.andThen {K : Type} (o : Opening K) (next : OpenIndex K → Opening K) : Opening K :=
  match o.1 with
  | some _ => o
  | none => next o.2

namespace OpenIndex

variable {K : Type}

def fail (s : OpenIndex K) (code : StatusCode) (message : String) : Opening K :=
  (some (.status code message), s)

/-- Dimension and number of lists, from `segment.meta`. -/
def openParams (segMeta : SegmentMeta) (s : OpenIndex K) : Opening K :=
  let s := { s with dim := segMeta.dimension, logicalDim := segMeta.dimension }
  if segMeta.dimension = 0 then s.fail .invalidArgument "SegmentMeta dimension is 0"
  else
    match segMeta.ivfParams with
    | none => s.fail .invalidArgument "SegmentMeta missing ivf_params"
    | some ivf =>
        let s := { s with nlist := ivf.nlist }
        if ivf.nlist = 0 then s.fail .invalidArgument "IvfParams nlist is 0"
        else if ivf.assignmentMode = 1 ∨ ivf.assignmentMode = 2 ∨ ivf.assignmentFactor ≠ 1 then
          s.fail .invalidArgument ("Legacy redundant/RAIR assignment metadata is unsupported by " ++
            "the formal resident single-assignment search path; rebuild the index with single " ++
            "assignment")
        else (none, s)

/-- A field of the sidecar, or what is taken for an empty one. -/
def sidecarField (contents : List Char) (key default : String) : String :=
  let value := extractJsonStringField contents key
  if value.isEmpty then default else value

/-- What `build_metadata.json` says, if it is there. -/
def readSidecar (d : Directory K) (s : OpenIndex K) : OpenIndex K :=
  match d.buildMetadata with
  | none => s
  | some contents =>
      { s with
        requestedMetric := sidecarField contents "requested_metric" "l2"
        effectiveMetric := sidecarField contents "effective_metric" "l2"
        logicalDim := UInt32.ofNat (extractJsonUintField contents "logical_dim" s.dim.toNat)
        rotationMode := sidecarField contents "rotation_mode" "random_matrix" }

section Centroids

variable [Field K] [LinearOrder K] (arith : ExactArith K) (build : Build)

/-- Normalised rows, for the cosine metric. -/
def normalize (s : OpenIndex K) : OpenIndex K :=
  if s.cosinePath then
    { s with normalizedCentroids :=
        ⟨s.centroids.size, IvfIndex.normalizedRows arith s.dim.toNat s.centroids.get⟩ }
  else s

/-- The packed tables. -/
def packTables (s : OpenIndex K) : Opening K :=
  match buildCoarsePackedLayout build s.centroids s.nlist s.dim with
  | none => (some .outOfBounds, s)
  | some packed =>
      let s := { s with packedCentroids := packed }
      if s.normalizedCentroids.size = 0 then (none, s)
      else
        match buildCoarsePackedLayout build s.normalizedCentroids s.nlist s.dim with
        | none => (some .outOfBounds, s)
        | some packed => (none, { s with packedNormalizedCentroids := packed })

/-- The centroids, from `centroids.bin`. -/
def openCentroids (d : Directory K) (s : OpenIndex K) : Opening K :=
  match d.centroidsBin with
  | none => s.fail .ioError ("Failed to open centroids.bin: " ++ d.dir ++ "/centroids.bin")
  | some file =>
      let rows := s.nlist.toNat * s.dim.toNat
      if file.size < rows then
        -- the vector is resized and keeps what was read
        ({ s with centroids := ⟨rows, fun t =>
            if t < file.size then file.get t
            else if t < s.centroids.size then s.centroids.get t
            else 0⟩ } : OpenIndex K).fail .ioError "Failed to read centroids.bin"
      else
        (({ s with centroids := ⟨rows, file.get⟩ } : OpenIndex K).normalize arith).packTables build

end Centroids

/-- The rotation's name, if the sidecar has none. -/
def nameRotation (rotation : RotationMatrix K) (s : OpenIndex K) (other : String) : OpenIndex K :=
  if s.rotationMode = "random_matrix" then
    { s with rotationMode :=
        if rotation.kind = .fhtKacRotator then "fht_kac_rotator"
        else if rotation.kind = .blockedHadamardPermuted then "blocked_hadamard_permuted"
        else other }
  else s

/-- What a Hadamard rotation is called. -/
def hadamardName (s : OpenIndex K) : String :=
  if s.logicalDim ≠ s.dim then "hadamard_padded" else "hadamard"

/-- The rotated centroids, if there should be any; legacy rotations are refused. -/
def openRotation (d : Directory K) (segMeta : SegmentMeta) (rotation : RotationMatrix K)
    (s : OpenIndex K) : Opening K :=
  let s := s.nameRotation rotation
    (if rotation.useFastHadamard then s.hadamardName else s.rotationMode)
  let rotated : Opening K :=
    if segMeta.conannParams = some true then
      match d.rotatedCentroidsBin with
      | none =>
          s.fail .ioError ("Index declares has_rotated_centroids=true but file is missing: " ++
            d.dir ++ "/rotated_centroids.bin")
      | some floats =>
          if floats < s.nlist.toNat * s.dim.toNat then
            s.fail .ioError "Failed to read rotated_centroids.bin"
          else (none, s.nameRotation rotation s.hadamardName)
    else (none, s)
  rotated.andThen fun s =>
    if s.rotationMode = "hadamard_padded" ∨ s.rotationMode = "blocked_hadamard_permuted" then
      s.fail .invalidArgument ("Legacy rotation mode '" ++ s.rotationMode ++
        "' is unsupported by the formal search path; rebuild with automatic FHT-Kac rotation " ++
        "for non-power-of-two dimensions")
    else (none, s)

/-- The segment: a cluster reader that has a file is not opened again. -/
def openSegment (d : Directory K) (segMeta : SegmentMeta) (s : OpenIndex K) : Opening K :=
  let s := { s with payloadSchemas := s.payloadSchemas ++ segMeta.payloadSchemas }
  if s.segmentOpen then s.fail .invalidArgument "ClusterStoreReader already open"
  else
    match d.clusterClu with
    | .error status => s.fail status.1 status.2
    | .ok _ =>
        let s := { s with segmentOpen := true }
        match d.dataDat s.payloadSchemas (if 0 < s.logicalDim then some s.logicalDim else none) with
        | .error status => s.fail status.1 status.2
        | .ok _ => (none, s)

/-- The cluster ids, behind those that are there. -/
def appendIds (segMeta : SegmentMeta) (s : OpenIndex K) : OpenIndex K :=
  { s with clusterIds := (s.clusterIds ++ segMeta.clusters).mergeSort (· ≤ ·) }

section Open

variable [Field K] [LinearOrder K] (arith : ExactArith K) (build : Build)

/-- `IvfIndex::Open`. -/
def «open» (d : Directory K) (s : OpenIndex K) : Opening K :=
  match d.segmentMeta with
  | .error status => s.fail status.1 status.2
  | .ok segMeta =>
      (s.openParams segMeta).andThen fun s =>
        ((s.readSidecar d).openCentroids arith build d).andThen fun s =>
          match d.rotationBin s.dim with
          | .error status => s.fail status.1 status.2
          | .ok rotation =>
              (s.openRotation d segMeta rotation).andThen fun s =>
                (s.openSegment d segMeta).andThen fun s => (none, s.appendIds segMeta)

end Open

end OpenIndex

end VecFetch.Index
