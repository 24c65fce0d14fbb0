/-
# Index.CoarseRouting -- the clusters a query probes

`FindNearestClusters` scores the centroids and returns the ids of the nearest.  With
two-level routing it scores super centroids first, and then the children of the best supers,
out of a hierarchy that is built from a k-means of the centroids when a query needs it and
kept for later queries.  Whenever that does not work out it scores all centroids.

What the k-means returns is arbitrary.  Arithmetic is exact; a result of `none` is an access
outside a table.
-/
import VecFetch.Index.CoarseScore
import VecFetch.Theory.CountingSort
import VecFetch.Theory.Select

namespace VecFetch.Index

open VecFetch.Theory VecFetch.Simd VecFetch.Rabitq

set_option autoImplicit false

/-! ## Selection -/

section Select

variable {K : Type} [LinearOrder K] (std : SelectAlgo) (scores : ℕ → K)

def scoreLess (lhs rhs : ℕ) : Bool := decide (scores lhs < scores rhs)

/-- `SelectTopNProbeSmall`, the first `actual_nprobe` entries of its `order`. -/
def selectTopNProbeSmall (nlist nprobe : ℕ) : List ℕ :=
  let actualNprobe := min nprobe nlist
  let order :=
    if actualNprobe < nlist then
      std.nthElement (scoreLess scores) actualNprobe (List.range nlist)
    else List.range nlist
  std.sort (scoreLess scores) (order.take actualNprobe)

/-- One turn of the loop of `SelectTopNProbeSmallSpecialized`. -/
def replaceTop (heap : List ℕ) (i : ℕ) : List ℕ :=
  match heap with
  | [] => heap
  | front :: _ =>
      if scores front ≤ scores i then heap
      else
        std.pushHeap (scoreLess scores)
          ((std.popHeap (scoreLess scores) heap).dropLast ++ [i])

/-- `SelectTopNProbeSmallSpecialized`, the first `actual_nprobe` entries of its `order`. -/
def selectTopNProbeSmallSpecialized (nlist nprobe : ℕ) : List ℕ :=
  let actualNprobe := min nprobe nlist
  if actualNprobe = 0 then []
  else if nlist ≤ actualNprobe then std.sort (scoreLess scores) (List.range nlist)
  else
    std.sortHeap (scoreLess scores)
      ((List.range' actualNprobe (nlist - actualNprobe)).foldl (replaceTop std scores)
        (std.makeHeap (scoreLess scores) (List.range actualNprobe)))

end Select

/-- `CoarseTopKEntry`. -/
structure CoarseTopKEntry (K : Type) where
  score : K
  child : ℕ

/-- `TopKScoreLess`. -/
def topKScoreLess {K : Type} [LinearOrder K] (lhs rhs : CoarseTopKEntry K) : Bool :=
  if lhs.score = rhs.score then decide (lhs.child < rhs.child) else decide (lhs.score < rhs.score)

/-- `PushChildTopK`. -/
def pushChildTopK {K : Type} [LinearOrder K] (std : StdAlgo) (capacity : ℕ)
    (heap : List (CoarseTopKEntry K)) (score : K) (child : ℕ) : List (CoarseTopKEntry K) :=
  if capacity = 0 then heap
  else (std.addBounded topKScoreLess capacity ⟨score, child⟩ heap).1

/-! ## The index and its hierarchy -/

/-- `HierarchicalCoarseIndex`, once it is ready. -/
structure HierarchicalCoarseIndex (K : Type) where
  nSuper : UInt32
  nlist : UInt32
  dim : UInt32
  childOffsets : ℕ → ℕ
  childCentroidIds : ℕ → ℕ
  packedSuperCentroids : CoarsePackedLayout K
  packedNormalizedSuperCentroids : CoarsePackedLayout K
  packedChildCentroidsBySuper : ℕ → CoarsePackedLayout K
  /-- `none` where it was not resized. -/
  packedNormalizedChildCentroidsBySuper : Option (ℕ → CoarsePackedLayout K)

structure IvfIndex (K : Type) where
  dim : UInt32
  nlist : UInt32
  centroids : FloatVec K
  normalizedCentroids : FloatVec K
  packedCentroids : CoarsePackedLayout K
  packedNormalizedCentroids : CoarsePackedLayout K
  clusterIds : List UInt32
  requestedMetric : String
  effectiveMetric : String
  useCoarseSelectSimd : Bool
  useCoarseSelectPhase2 : Bool
  useTwoLevelCoarseRouting : Bool
  twoLevelCoarseThreshold : UInt32
  twoLevelCoarseSuperCount : UInt32
  twoLevelCoarseSuperFactor : UInt32
  twoLevelCoarseBudgetFactor : UInt32
  twoLevelCoarseExactOverlap : Bool
  coarseHierarchy : Option (HierarchicalCoarseIndex K)

/-- `skmeans::SuperKMeans`; `none` is an exception. -/
structure SuperKMeans (K : Type) where
  train : (nSuper dim : UInt32) → (angular : Bool) → FloatVec K → Option (FloatVec K)
  assign : (nSuper dim : UInt32) → (angular : Bool) → FloatVec K → FloatVec K → Option (List UInt32)

def defaultTwoLevelSuperCount (nlist overrideCount nprobe factor : UInt32) : UInt32 :=
  if nlist = 0 then 0
  else
    let requested :=
      if 0 < overrideCount then overrideCount
      else if 0 < factor ∧ 0 < nprobe then
        UInt32.ofNat (min (factor.toNat * nprobe.toNat) (2 ^ 32 - 1))
      else (nlist + 127) / 128
    min (max 1 requested) nlist

def defaultTwoLevelCandidateBudget (nlist nprobe budgetFactor : UInt32) : UInt32 :=
  if nlist = 0 ∨ nprobe = 0 then 0
  else
    let budget := (max 1 budgetFactor).toNat * nprobe.toNat
    min nlist (UInt32.ofNat (min budget nlist.toNat))

namespace IvfIndex

section Plain

variable {K : Type}

def resolveTwoLevelSuperCount (idx : IvfIndex K) (nprobe : UInt32) : UInt32 :=
  defaultTwoLevelSuperCount idx.nlist idx.twoLevelCoarseSuperCount nprobe
    idx.twoLevelCoarseSuperFactor

def resolveTwoLevelCandidateBudget (idx : IvfIndex K) (nprobe : UInt32) : UInt32 :=
  defaultTwoLevelCandidateBudget idx.nlist nprobe idx.twoLevelCoarseBudgetFactor

/-- `SetTwoLevelCoarseRouting`. -/
def setTwoLevelCoarseRouting (idx : IvfIndex K) (enabled : Bool)
    (threshold superCount superFactor budgetFactor : UInt32) (exactOverlap : Bool) : IvfIndex K :=
  let changed :=
    idx.useTwoLevelCoarseRouting ≠ enabled ∨ idx.twoLevelCoarseThreshold ≠ max 1 threshold ∨
      idx.twoLevelCoarseSuperCount ≠ superCount ∨ idx.twoLevelCoarseSuperFactor ≠ superFactor ∨
      idx.twoLevelCoarseBudgetFactor ≠ max 1 budgetFactor
  { idx with
    coarseHierarchy := if changed then none else idx.coarseHierarchy
    useTwoLevelCoarseRouting := enabled
    twoLevelCoarseThreshold := max 1 threshold
    twoLevelCoarseSuperCount := superCount
    twoLevelCoarseSuperFactor := superFactor
    twoLevelCoarseBudgetFactor := max 1 budgetFactor
    twoLevelCoarseExactOverlap := exactOverlap }

/-- `effective_metric_ == "ip" && requested_metric_ == "cosine"`. -/
def cosinePath (idx : IvfIndex K) : Bool :=
  idx.effectiveMetric == "ip" && idx.requestedMetric == "cosine"

/-- The reuse test of `EnsureCoarseHierarchy`. -/
def reuses (idx : IvfIndex K) (nSuper : UInt32) (hierarchy : HierarchicalCoarseIndex K) : Bool :=
  hierarchy.nSuper == nSuper && hierarchy.nlist == idx.nlist && hierarchy.dim == idx.dim

end Plain

section Build

variable {K : Type} [Field K] [LinearOrder K] (arith : ExactArith K) (build : Build)
  (kmeans : SuperKMeans K)

/-- `NormalizeVector`. -/
def normalizeVector (dim : ℕ) (src : ℕ → K) : ℕ → K :=
  let norm := arith.sqrt (sumTo dim fun i => src i * src i)
  if norm ≤ 0 then src else fun i => src i / norm

/-- Row `i` of a table whose rows have been normalised. -/
def normalizedRows (dim : ℕ) (src : ℕ → K) (t : ℕ) : K :=
  normalizeVector arith dim (fun j => src (t / dim * dim + j)) (t % dim)

/-- `BuildCoarsePackedLayoutFromChildIds`. -/
def buildCoarsePackedLayoutFromChildIds (src : FloatVec K) (childIds : ℕ → ℕ) (first count : ℕ)
    (dim : UInt32) : Option (CoarsePackedLayout K) :=
  if ∃ i, i < count ∧ src.size < (childIds (first + i) + 1) * dim.toNat then none
  else
    buildCoarsePackedLayout build
      { size := count * dim.toNat
        get := fun t => src.get (childIds (first + t / dim.toNat) * dim.toNat + t % dim.toNat) }
      (UInt32.ofNat count) dim

/-- A layout that was never filled. -/
def emptyLayout : CoarsePackedLayout K where
  data := { size := 0, get := fun _ => 0 }
  numCentroidBlocks := 0
  numDimBlocks := 0
  packedDim := 0

/-- The layouts of all supers' children. -/
def packChildren (src : FloatVec K) (childOffsets childIds : ℕ → ℕ) (dim : UInt32) (nSuper : ℕ) :
    Option (ℕ → CoarsePackedLayout K) :=
  ((List.range nSuper).mapM fun s =>
    buildCoarsePackedLayoutFromChildIds build src childIds (childOffsets s)
      (childOffsets (s + 1) - childOffsets s) dim).map fun layouts s => layouts.getD s emptyLayout

/-- The hierarchy of an assignment of the centroids to supers. -/
def buildHierarchy (idx : IvfIndex K) (nSuper : UInt32) (trained : FloatVec K)
    (assignments : List UInt32) : Option (HierarchicalCoarseIndex K) :=
  let assign := fun child => (assignments.getD child 0).toNat
  let childOffsets := CountingSort.prefixSums nSuper.toNat
    (CountingSort.counts assign idx.nlist.toNat)
  let childIds := (CountingSort.place assign idx.nlist.toNat childOffsets).2
  let normalizedSupers : FloatVec K :=
    { size := trained.size, get := normalizedRows arith idx.dim.toNat trained.get }
  let normalized := idx.cosinePath && decide (0 < idx.normalizedCentroids.size)
  (buildCoarsePackedLayout build trained nSuper idx.dim).bind fun packedSuper =>
  (if idx.cosinePath then buildCoarsePackedLayout build normalizedSupers nSuper idx.dim
    else some emptyLayout).bind fun packedNormalizedSuper =>
  (packChildren build idx.centroids childOffsets childIds idx.dim nSuper.toNat).bind
    fun packedChild =>
  (if normalized then
      (packChildren build idx.normalizedCentroids childOffsets childIds idx.dim nSuper.toNat).map some
    else some none).map fun packedNormalizedChild =>
    { nSuper := nSuper
      nlist := idx.nlist
      dim := idx.dim
      childOffsets := childOffsets
      childCentroidIds := childIds
      packedSuperCentroids := packedSuper
      packedNormalizedSuperCentroids := packedNormalizedSuper
      packedChildCentroidsBySuper := packedChild
      packedNormalizedChildCentroidsBySuper := packedNormalizedChild }

/-- What `EnsureCoarseHierarchy` builds when it cannot reuse: nothing where a step of the
k-means fails or returns the wrong sizes or supers. -/
def newHierarchy (idx : IvfIndex K) (nSuper : UInt32) :
    Option (Option (HierarchicalCoarseIndex K)) :=
  if nSuper = 0 ∨ idx.nlist = 0 ∨ idx.centroids.size = 0 then some none
  else
    let clustering :=
      if idx.cosinePath ∧ 0 < idx.normalizedCentroids.size then idx.normalizedCentroids
      else idx.centroids
    if clustering.size ≠ idx.nlist.toNat * idx.dim.toNat then some none
    else
      match kmeans.train nSuper idx.dim idx.cosinePath clustering with
      | none => some none
      | some trained =>
          if trained.size ≠ nSuper.toNat * idx.dim.toNat then some none
          else
            match kmeans.assign nSuper idx.dim idx.cosinePath clustering trained with
            | none => some none
            | some assignments =>
                if assignments.length ≠ idx.nlist.toNat ∨ ∃ sid ∈ assignments, nSuper ≤ sid then
                  some none
                else (idx.buildHierarchy arith build nSuper trained assignments).map some

/-- `EnsureCoarseHierarchy`: the index with its hierarchy, if there is one. -/
def ensureCoarseHierarchy (idx : IvfIndex K) (nprobe : UInt32) : Option (IvfIndex K) :=
  let nSuper := idx.resolveTwoLevelSuperCount nprobe
  if idx.coarseHierarchy.any (idx.reuses nSuper) then some idx
  else
    (idx.newHierarchy arith build kmeans nSuper).map fun hierarchy =>
      { idx with coarseHierarchy := hierarchy }

end Build

end IvfIndex

/-! ## The search -/

/-- What the scratch buffers hold from earlier calls. -/
structure CoarseScratch (K : Type) where
  scores : ℕ → K
  superScores : ℕ → K
  childScores : ℕ → K

/-- What a search returns: the rows it picked with their scores, their cluster ids, and the
supers whose children it scored. -/
structure Routed (K : Type) where
  picks : List (CoarseTopKEntry K)
  ids : List UInt32
  supers : Option (List ℕ)

namespace IvfIndex

section Search

variable {K : Type} [Field K] [LinearOrder K] (arith : ExactArith K) (build : Build)
  (kmeans : SuperKMeans K) (std : SelectAlgo) (scratch : CoarseScratch K) (query : ℕ → K)

/-- `result[i] = cluster_ids_[...]`. -/
def toIds (idx : IvfIndex K) (picks : List (CoarseTopKEntry K)) (supers : Option (List ℕ)) :
    Option (Routed K) :=
  (picks.mapM fun pick => idx.clusterIds[pick.child]?).map fun ids => ⟨picks, ids, supers⟩

/-- `query_buffer.assign(packed_dim, 0)` and the copy of the query. -/
def queryBuffer (idx : IvfIndex K) (packedDim : ℕ) : Option (FloatVec K) :=
  if packedDim < idx.dim.toNat then none
  else
    some (paddedQuery idx.dim.toNat packedDim
      (if idx.requestedMetric == "cosine" then normalizeVector arith idx.dim.toNat query else query))

/-- The scores of all centroids. -/
def exactScores (idx : IvfIndex K) : Option (ℕ → K) :=
  if idx.effectiveMetric == "ip" then
    (queryBuffer arith query idx idx.packedCentroids.packedDim).bind fun queryIp =>
      let layout :=
        if idx.requestedMetric == "cosine" && !idx.packedNormalizedCentroids.empty then
          idx.packedNormalizedCentroids
        else idx.packedCentroids
      computeCoarseIPScores build queryIp layout idx.nlist scratch.scores
  else if idx.centroids.size < idx.nlist.toNat * idx.dim.toNat then none
  else
    some fun i =>
      if i < idx.nlist.toNat then
        sumTo idx.dim.toNat fun d =>
          (query d - idx.centroids.get (i * idx.dim.toNat + d)) *
            (query d - idx.centroids.get (i * idx.dim.toNat + d))
      else scratch.scores i

/-- `FindNearestClustersExact`. -/
def findNearestClustersExact (idx : IvfIndex K) (nprobe : UInt32) : Option (Routed K) :=
  if nprobe = 0 ∨ idx.clusterIds = [] then some ⟨[], [], none⟩
  else
    (exactScores arith build scratch query idx).bind fun scores =>
      let order :=
        if idx.useCoarseSelectSimd && idx.useCoarseSelectPhase2 then
          selectTopNProbeSmallSpecialized std scores idx.nlist.toNat nprobe.toNat
        else selectTopNProbeSmall std scores idx.nlist.toNat nprobe.toNat
      idx.toIds (order.map fun row => ⟨scores row, row⟩) none

/-- The layout a super's children are scored in. -/
def childLayout (hierarchy : HierarchicalCoarseIndex K) (cosine : Bool) (sid : ℕ) :
    CoarsePackedLayout K :=
  match hierarchy.packedNormalizedChildCentroidsBySuper with
  | some packed => if cosine then packed sid else hierarchy.packedChildCentroidsBySuper sid
  | none => hierarchy.packedChildCentroidsBySuper sid

/-- The children of one super, scored and offered to the heap. -/
def offerChildren (idx : IvfIndex K) (hierarchy : HierarchicalCoarseIndex K)
    (queryIp : FloatVec K) (capacity : ℕ) (st : (ℕ → K) × List (CoarseTopKEntry K)) (sid : ℕ) :
    Option ((ℕ → K) × List (CoarseTopKEntry K)) :=
  let first := hierarchy.childOffsets sid
  let count := hierarchy.childOffsets (sid + 1) - first
  if count = 0 then some st
  else
    (computeCoarseIPScores build queryIp (childLayout hierarchy (idx.requestedMetric == "cosine") sid)
      (UInt32.ofNat count) st.1).map fun childScores =>
        (childScores, (List.range count).foldl
          (fun heap i => pushChildTopK std.toStdAlgo capacity heap (childScores i)
            (hierarchy.childCentroidIds (first + i))) st.2)

/-- `super_probe`. -/
def superProbe (nlist nSuper budget : UInt32) : UInt32 :=
  let avgChildren := max 1 ((nlist + nSuper - 1) / nSuper)
  min nSuper (max 1 ((budget + avgChildren - 1) / avgChildren))

/-- The comparison with the exact order, which only counts; `none` where it reads outside. -/
def readOverlap (idx : IvfIndex K) (queryIp : FloatVec K) : Option Unit :=
  if idx.twoLevelCoarseExactOverlap then
    (computeCoarseIPScores build queryIp
      (if idx.requestedMetric == "cosine" && !idx.packedNormalizedCentroids.empty then
        idx.packedNormalizedCentroids
      else idx.packedCentroids) idx.nlist scratch.scores).map fun _ => ()
  else some ()

/-- `FindNearestClustersTwoLevel` with a hierarchy. -/
def routeTwoLevel (idx : IvfIndex K) (hierarchy : HierarchicalCoarseIndex K) (nprobe : UInt32) :
    Option (Routed K) :=
  let actualNprobe := min nprobe idx.nlist
  let budget := idx.resolveTwoLevelCandidateBudget actualNprobe
  let nSuper := hierarchy.nSuper
  let exact := findNearestClustersExact arith build std scratch query idx nprobe
  if budget < actualNprobe ∨ nSuper = 0 then exact
  else
    (queryBuffer arith query idx hierarchy.packedSuperCentroids.packedDim).bind fun queryIp =>
    let superLayout :=
      if idx.requestedMetric == "cosine" && !hierarchy.packedNormalizedSuperCentroids.empty then
        hierarchy.packedNormalizedSuperCentroids
      else hierarchy.packedSuperCentroids
    (computeCoarseIPScores build queryIp superLayout nSuper scratch.superScores).bind
      fun superScores =>
    let supers := selectTopNProbeSmall std superScores nSuper.toNat
      (superProbe idx.nlist nSuper budget).toNat
    let childCount := (supers.map fun sid =>
      hierarchy.childOffsets (sid + 1) - hierarchy.childOffsets sid).sum
    if childCount < actualNprobe.toNat then exact
    else
      (supers.foldlM (offerChildren build std idx hierarchy queryIp actualNprobe.toNat)
        (scratch.childScores, [])).bind fun gathered =>
      if gathered.2.length < actualNprobe.toNat then exact
      else
        (readOverlap build scratch idx queryIp).bind fun _ =>
        idx.toIds (std.sort topKScoreLess gathered.2) (some supers)

/-- The exact search where there is no hierarchy. -/
def routeWith (idx : IvfIndex K) (nprobe : UInt32) : Option (Routed K) :=
  match idx.coarseHierarchy with
  | none => findNearestClustersExact arith build std scratch query idx nprobe
  | some hierarchy => routeTwoLevel arith build std scratch query idx hierarchy nprobe

/-- `FindNearestClustersTwoLevel`; the index keeps the hierarchy. -/
def findNearestClustersTwoLevel (idx : IvfIndex K) (nprobe : UInt32) :
    Option (IvfIndex K × Routed K) :=
  if nprobe = 0 ∨ idx.clusterIds = [] then some (idx, ⟨[], [], none⟩)
  else
    (idx.ensureCoarseHierarchy arith build kmeans nprobe).bind fun idx =>
      (routeWith arith build std scratch query idx nprobe).map fun routed => (idx, routed)

/-- `FindNearestClusters`. -/
def findNearestClusters (idx : IvfIndex K) (nprobe : UInt32) : Option (IvfIndex K × Routed K) :=
  if idx.useTwoLevelCoarseRouting ∧ idx.twoLevelCoarseThreshold < idx.nlist ∧
      idx.effectiveMetric == "ip" then
    (findNearestClustersTwoLevel arith build kmeans std scratch query idx nprobe).bind
      fun result =>
        if result.2.ids ≠ [] ∨ nprobe = 0 ∨ idx.clusterIds = [] then some result
        else
          (findNearestClustersExact arith build std scratch query result.1 nprobe).map
            fun routed => (result.1, routed)
  else
    (findNearestClustersExact arith build std scratch query idx nprobe).map
      fun routed => (idx, routed)

/-- `PrepareTwoLevelCoarseRouting`. -/
def prepareTwoLevelCoarseRouting (idx : IvfIndex K) (nprobe : UInt32) : Option (IvfIndex K) :=
  if idx.useTwoLevelCoarseRouting ∧ idx.twoLevelCoarseThreshold < idx.nlist ∧
      idx.effectiveMetric == "ip" then
    idx.ensureCoarseHierarchy arith build kmeans nprobe
  else some idx

end Search

end IvfIndex

end VecFetch.Index
