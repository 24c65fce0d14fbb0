/-
# Index.IndexSession -- an index that is opened and searched

`Open` appends the cluster ids of a directory to those that are there, keeps normalised
centroids and a hierarchy from before, and replaces the centroids before it finds that the
segment is open.  Where it is called on an index with none of these, and the directory lists one
cluster for each centroid in the order of their ids, every search in every run reads inside its
tables and answers from the directory opened last (`session_answers`).
-/
import VecFetch.Index.IndexOpen
import VecFetch.Index.CoarseSelect

namespace VecFetch.Index

open VecFetch.Theory VecFetch.Simd VecFetch.Rabitq

set_option autoImplicit false

/-! ## What a directory says -/

namespace Directory

variable {K : Type}

/-- The rows of `centroids.bin`. -/
def rows [Zero K] (d : Directory K) : FloatVec K := d.centroidsBin.getD ⟨0, fun _ => 0⟩

/-- The cluster of that id has row `row` of the centroids for its own. -/
def BuiltAround [Zero K] (d : Directory K) (dim clusterId : UInt32) (row : ℕ) : Prop :=
  ∃ table, d.clusterClu = .ok table ∧ ∃ cluster ∈ table, cluster.clusterId = clusterId ∧
    ∀ j, j < dim.toNat → cluster.centroid j = d.rows.get (row * dim.toNat + j)

variable [Field K] [LinearOrder K] (arith : ExactArith K) (d : Directory K) (idx : IvfIndex K)

/-- The table that an index scores by inner products. -/
def table : ℕ → K :=
  if idx.requestedMetric = "cosine" then IvfIndex.normalizedRows arith idx.dim.toNat d.rows.get
  else d.rows.get

/-- The score of a row of the centroids under the metric of an index. -/
def score (query : ℕ → K) (row : ℕ) : K :=
  if idx.effectiveMetric = "ip" then
    plainScore idx.dim.toNat (idx.searchQuery arith query) (d.table arith idx) row
  else
    sumTo idx.dim.toNat fun j =>
      (query j - d.rows.get (row * idx.dim.toNat + j)) *
        (query j - d.rows.get (row * idx.dim.toNat + j))

end Directory

/-! ## Calls -/

/-- An index, and the directory that was opened last. -/
structure Session (K : Type) where
  index : OpenIndex K
  last : Option (Directory K)

inductive IndexCall (K : Type)
  | «open» (d : Directory K)
  | route (call : RoutingCall K)

section Calls

variable {K : Type} [Field K] [LinearOrder K] (arith : ExactArith K) (build : Build)
  (std : SelectAlgo)

/-- What a call does, `none` where it reads outside a table. -/
def IndexCall.apply (s : Session K) : IndexCall K → Option (Session K)
  | .open d =>
      match s.index.open arith build d with
      | (some .outOfBounds, _) => none
      | (some (.status ..), index) => some { s with index := index }
      | (none, index) => some ⟨index, some d⟩
  | .route call =>
      (call.apply arith build std s.index.toIvfIndex).map fun idx =>
        { s with index := { s.index with toIvfIndex := idx } }

/-- The picks are distinct rows of the directory, in ascending order of their scores there, and
their ids are those of the clusters that were built around them.  They are the best rows of all,
or of the children of the supers that were probed, whose hierarchy is over the same rows. -/
structure AnswersFrom (d : Directory K) (idx idx' : IvfIndex K) (query : ℕ → K)
    (nprobe : UInt32) (routed : Routed K) : Prop where
  count : routed.picks.length = min nprobe.toNat idx.nlist.toNat
  inside : ∀ p ∈ routed.picks, p.child < idx.nlist.toNat
  distinct : (routed.picks.map CoarseTopKEntry.child).Nodup
  ascending : routed.picks.Pairwise fun p p' => p.score ≤ p'.score
  scores : ∀ p ∈ routed.picks, p.score = d.score arith idx query p.child
  ids : List.Forall₂ (fun p id => d.BuiltAround idx.dim id p.child) routed.picks routed.ids
  exact : routed.supers = none → ∀ row, row < idx.nlist.toNat →
    row ∉ routed.picks.map CoarseTopKEntry.child →
      ∀ p ∈ routed.picks, p.score ≤ d.score arith idx query row
  probed : ∀ supers, routed.supers = some supers → ∃ h, idx'.coarseHierarchy = some h ∧
    ∀ sid ∈ supers, ∀ row ∈ h.children sid, row ∉ routed.picks.map CoarseTopKEntry.child →
      ∀ p ∈ routed.picks, p.score ≤ d.score arith idx query row
  hierarchy : ∀ h, idx'.coarseHierarchy = some h → HierarchyFits build idx.nlist idx.dim
    (idx.requestedMetric == "cosine") (d.table arith idx) h

/-- Every search reads inside its tables; it finds nothing before a directory is opened, and
answers from the one opened last. -/
def Answers (s : Session K) : Prop :=
  ∀ kmeans scratch query nprobe, ∃ idx' routed,
    s.index.toIvfIndex.findNearestClusters arith build kmeans std scratch query nprobe =
      some (idx', routed) ∧
    match s.last with
    | none => routed.ids = []
    | some d => AnswersFrom arith build d s.index.toIvfIndex idx' query nprobe routed

/-- The sorted clusters of `segment.meta` are those of the centroids, row by row, and the counts
of blocks do not wrap. -/
structure Listed (d : Directory K) (segMeta : SegmentMeta) (ivf : IvfParams) : Prop where
  wide : NoWrap build ivf.nlist segMeta.dimension
  length : segMeta.clusters.length = ivf.nlist.toNat
  built : ∀ row, row < ivf.nlist.toNat → d.BuiltAround segMeta.dimension
    ((segMeta.clusters.mergeSort (· ≤ ·)).getD row 0) row

/-- Nothing is left of another directory. -/
structure Blank (s : OpenIndex K) : Prop where
  segment : s.segmentOpen = false
  normalized : s.normalizedCentroids = ⟨0, fun _ => 0⟩
  hierarchy : s.coarseHierarchy = none

/-- Directories are opened on a blank index, and list their clusters by their centroids; any other
call is allowed. -/
def CallFits (s : Session K) : IndexCall K → Prop
  | .open d => Blank s.index ∧ ∀ segMeta, d.segmentMeta = .ok segMeta →
      ∀ ivf, segMeta.ivfParams = some ivf → Listed build d segMeta ivf
  | .route _ => True

end Calls

/-! ## Opening -/

section Opening

variable {K : Type} [Field K] [LinearOrder K] {arith : ExactArith K} {build : Build}
  {s : OpenIndex K}

/-- An index without clusters. -/
structure Unlisted (s : OpenIndex K) : Prop where
  ids : s.clusterIds = []
  sizes : s.normalizedCentroids.size = 0 ∨ s.normalizedCentroids.size = s.centroids.size
  packed : s.normalizedCentroids = ⟨0, fun _ => 0⟩ →
    s.packedNormalizedCentroids = IvfIndex.emptyLayout

/-- A step ends in `post`, or with a status on an index without clusters. -/
structure Opens (post : OpenIndex K → Prop) (o : Opening K) : Prop where
  passes : o.1 = none → post o.2
  fails : ∀ failure, o.1 = some failure → failure ≠ .outOfBounds ∧ Unlisted o.2

omit [LinearOrder K] in
theorem Opens.ok {post : OpenIndex K → Prop} (holds : post s) : Opens post (none, s) :=
  ⟨fun _ => holds, fun _ failed => by cases failed⟩

omit [LinearOrder K] in
theorem Opens.fail {post : OpenIndex K → Prop} (unlisted : Unlisted s) (code : StatusCode)
    (message : String) : Opens post (s.fail code message) := by
  refine ⟨fun passed => (by cases passed), fun failure failed => ⟨?_, unlisted⟩⟩
  obtain rfl := Option.some.inj failed
  intro outside
  cases outside

omit [LinearOrder K] in
theorem Opens.andThen {mid post : OpenIndex K → Prop} {o : Opening K}
    {next : OpenIndex K → Opening K} (first : Opens mid o)
    (rest : ∀ s, mid s → Opens post (next s)) : Opens post (o.andThen next) := by
  rw [Opening.andThen]
  split
  · next failure failed =>
      refine ⟨fun passed => ?_, first.fails⟩
      rw [failed] at passed
      cases passed
  · next passed => exact rest _ (first.passes passed)

/-- The dimension and the number of lists are those of `segment.meta`. -/
structure Sized (segMeta : SegmentMeta) (s : OpenIndex K) : Prop where
  dim : s.dim = segMeta.dimension
  dim_pos : 0 < s.dim
  nlist : ∃ ivf, segMeta.ivfParams = some ivf ∧ s.nlist = ivf.nlist
  nlist_pos : 0 < s.nlist

/-- A blank index without clusters. -/
structure Start (s : OpenIndex K) : Prop extends Blank s, Unlisted s

omit [LinearOrder K] in
theorem openParams_opens (start : Start s) (segMeta : SegmentMeta) :
    Opens (fun s => Start s ∧ Sized segMeta s) (s.openParams segMeta) := by
  rw [OpenIndex.openParams]
  dsimp only
  split
  · refine .fail ?_ _ _
    exact ⟨start.ids, start.sizes, start.packed⟩
  · next dim =>
      split
      · refine .fail ?_ _ _
        exact ⟨start.ids, start.sizes, start.packed⟩
      · next ivf params =>
          split
          · refine .fail ?_ _ _
            exact ⟨start.ids, start.sizes, start.packed⟩
          · next nlist =>
              split
              · refine .fail ?_ _ _
                exact ⟨start.ids, start.sizes, start.packed⟩
              · refine .ok ⟨⟨⟨start.segment, start.normalized, start.hierarchy⟩,
                  start.ids, start.sizes, start.packed⟩, rfl, UInt32.pos_iff_ne_zero.2 dim,
                  ⟨ivf, params, rfl⟩, UInt32.pos_iff_ne_zero.2 nlist⟩

omit [LinearOrder K] in
theorem readSidecar_start {segMeta : SegmentMeta} (start : Start s ∧ Sized segMeta s)
    (d : Directory K) : Start (s.readSidecar d) ∧ Sized segMeta (s.readSidecar d) := by
  rw [OpenIndex.readSidecar]
  split
  · exact start
  · obtain ⟨⟨⟨segment, normalized, hierarchy⟩, ids, sizes, packed⟩, dim, dim_pos, nlist,
      nlist_pos⟩ := start
    exact ⟨⟨⟨segment, normalized, hierarchy⟩, ids, sizes, packed⟩, dim, dim_pos, nlist, nlist_pos⟩

variable (arith build) in
/-- An index whose tables are made from the centroids of a directory. -/
structure Tabled (d : Directory K) (segMeta : SegmentMeta) (s : OpenIndex K) : Prop
    extends Sized segMeta s where
  ids : s.clusterIds = []
  hierarchy : s.coarseHierarchy = none
  centroids : s.centroids = ⟨s.nlist.toNat * s.dim.toNat, d.rows.get⟩
  normalized : s.normalizedCentroids =
    if s.cosinePath = true then
      ⟨s.centroids.size, IvfIndex.normalizedRows arith s.dim.toNat s.centroids.get⟩
    else ⟨0, fun _ => 0⟩
  packedCentroids : s.packedCentroids = packedLayout build s.centroids.get s.nlist s.dim
  packedNormalized : s.packedNormalizedCentroids =
    if s.cosinePath = true then packedLayout build s.normalizedCentroids.get s.nlist s.dim
    else IvfIndex.emptyLayout

omit [Field K] [LinearOrder K] in
theorem Sized.size_pos {segMeta : SegmentMeta} (sized : Sized segMeta s) :
    0 < s.nlist.toNat * s.dim.toNat :=
  Nat.mul_pos (UInt32.lt_iff_toNat_lt.1 sized.nlist_pos) (UInt32.lt_iff_toNat_lt.1 sized.dim_pos)

theorem Tabled.unlisted {d : Directory K} {segMeta : SegmentMeta}
    (tabled : Tabled arith build d segMeta s) : Unlisted s := by
  have normalized := tabled.normalized
  refine ⟨tabled.ids, ?_, fun none => ?_⟩
  · rw [normalized]
    split
    · exact .inr rfl
    · exact .inl rfl
  rw [tabled.packedNormalized]
  split
  · next cosine =>
      rw [none, if_pos cosine, tabled.centroids] at normalized
      have size := congrArg FloatVec.size normalized
      have positive := tabled.size_pos
      dsimp only at size
      omega
  · rfl

theorem openCentroids_opens {segMeta : SegmentMeta} (start : Start s ∧ Sized segMeta s)
    (d : Directory K) : Opens (fun s => Tabled arith build d segMeta s ∧ s.segmentOpen = false)
      (s.openCentroids arith build d) := by
  obtain ⟨⟨⟨segment, normalized, hierarchy⟩, ids, sizes, packed⟩, sized⟩ := start
  rw [OpenIndex.openCentroids]
  cases bin : d.centroidsBin with
  | none =>
      refine .fail ?_ _ _
      exact ⟨ids, sizes, packed⟩
  | some file =>
      have rows : d.rows = file := by rw [Directory.rows, bin]; rfl
      dsimp only
      split
      · refine .fail ?_ _ _
        exact ⟨ids, .inl (congrArg FloatVec.size normalized), packed⟩
      · have size := sized.size_pos
        rw [OpenIndex.normalize]
        split
        · next cosine =>
            rw [OpenIndex.packTables]
            dsimp only
            rw [packedLayout_built (Nat.le_refl _)]
            dsimp only
            rw [if_neg (Nat.ne_of_gt size), packedLayout_built (Nat.le_refl _)]
            refine .ok ⟨⟨⟨sized.dim, sized.dim_pos, sized.nlist, sized.nlist_pos⟩, ids, hierarchy,
              by rw [rows], (if_pos cosine).symm, rfl, (if_pos cosine).symm⟩, segment⟩
        · next other =>
            rw [OpenIndex.packTables]
            dsimp only
            rw [packedLayout_built (Nat.le_refl _)]
            dsimp only
            rw [if_pos (by rw [normalized])]
            refine .ok ⟨⟨⟨sized.dim, sized.dim_pos, sized.nlist, sized.nlist_pos⟩, ids, hierarchy,
              by rw [rows], normalized.trans (if_neg other).symm, rfl,
              (packed normalized).trans (if_neg other).symm⟩, segment⟩

/-- Only the name of the rotation changes. -/
theorem openRotation_opens {d : Directory K} {segMeta : SegmentMeta}
    (tabled : Tabled arith build d segMeta s ∧ s.segmentOpen = false)
    (rotation : RotationMatrix K) :
    Opens (fun s => Tabled arith build d segMeta s ∧ s.segmentOpen = false)
      (s.openRotation d segMeta rotation) := by
  have named : ∀ s : OpenIndex K, Tabled arith build d segMeta s ∧ s.segmentOpen = false →
      ∀ other, Tabled arith build d segMeta (s.nameRotation rotation other) ∧
        (s.nameRotation rotation other).segmentOpen = false := by
    intro s tabled other
    rw [OpenIndex.nameRotation]
    split
    · obtain ⟨⟨⟨dim, dim_pos, nlist, nlist_pos⟩, ids, hierarchy, centroids, normalized, packed,
        packedNormalized⟩, closed⟩ := tabled
      exact ⟨⟨⟨dim, dim_pos, nlist, nlist_pos⟩, ids, hierarchy, centroids, normalized, packed,
        packedNormalized⟩, closed⟩
    · exact tabled
  rw [OpenIndex.openRotation]
  have first := named s tabled
    (if rotation.useFastHadamard then s.hadamardName else s.rotationMode)
  generalize s.nameRotation rotation
    (if rotation.useFastHadamard then s.hadamardName else s.rotationMode) = s at first ⊢
  refine @Opens.andThen _ _ (fun s => Tabled arith build d segMeta s ∧ s.segmentOpen = false)
    _ _ _ ?_ fun s tabled => ?_
  · split
    · split
      · exact .fail first.1.unlisted _ _
      · split
        · exact .fail first.1.unlisted _ _
        · exact .ok (named _ first _)
    · exact .ok first
  · split
    · exact .fail tabled.1.unlisted _ _
    · exact .ok tabled

/-- A reader without a file is opened. -/
theorem openSegment_opens {d : Directory K} {segMeta : SegmentMeta}
    (tabled : Tabled arith build d segMeta s ∧ s.segmentOpen = false) :
    Opens (fun s => Tabled arith build d segMeta s ∧ s.segmentOpen = true)
      (s.openSegment d segMeta) := by
  obtain ⟨tabled, closed⟩ := tabled
  obtain ⟨ids, sizes, packed⟩ := tabled.unlisted
  rw [OpenIndex.openSegment]
  dsimp only
  rw [closed, if_neg Bool.false_ne_true]
  split
  · refine .fail ?_ _ _
    exact ⟨ids, sizes, packed⟩
  · split
    · refine .fail ?_ _ _
      exact ⟨ids, sizes, packed⟩
    · obtain ⟨⟨dim, dim_pos, nlist, nlist_pos⟩, ids, hierarchy, centroids, normalized, packed,
        packedNormalized⟩ := tabled
      exact .ok ⟨⟨⟨dim, dim_pos, nlist, nlist_pos⟩, ids, hierarchy, centroids, normalized, packed,
        packedNormalized⟩, rfl⟩

end Opening

/-! ## An opened index -/

section Sound

variable {K : Type} [Field K] [LinearOrder K] (arith : ExactArith K) (build : Build)

/-- An index that a directory was opened on. -/
structure OpenedOn (d : Directory K) (s : OpenIndex K) : Prop where
  segment : s.segmentOpen = true
  dim_pos : 0 < s.dim
  nlist_pos : 0 < s.nlist
  wide : NoWrap build s.nlist s.dim
  ids : s.clusterIds.length = s.nlist.toNat
  built : ∀ row, row < s.nlist.toNat → d.BuiltAround s.dim (s.clusterIds.getD row 0) row
  centroids : s.centroids = ⟨s.nlist.toNat * s.dim.toNat, d.rows.get⟩
  normalized : s.cosinePath = true → s.normalizedCentroids.get =
    IvfIndex.normalizedRows arith s.dim.toNat d.rows.get
  routing : s.effectiveMetric = "ip" → RoutingState arith build s.toIvfIndex
  plain : s.effectiveMetric ≠ "ip" → s.coarseHierarchy = none

/-- No directory is open, or the last. -/
def Sound (s : Session K) : Prop :=
  match s.last with
  | none => Unlisted s.index
  | some d => OpenedOn arith build d s.index

variable {arith build}

/-- The tables of a directory whose clusters are listed. -/
theorem Tabled.openedOn {d : Directory K} {segMeta : SegmentMeta} {ivf : IvfParams}
    {s : OpenIndex K} (tabled : Tabled arith build d segMeta s) (segment : s.segmentOpen = true)
    (params : segMeta.ivfParams = some ivf) (listed : Listed build d segMeta ivf) :
    OpenedOn arith build d (s.appendIds segMeta) := by
  obtain ⟨⟨dim, dim_pos, ⟨ivf', params', nlist⟩, nlist_pos⟩, none, hierarchy, centroids, normalized,
    packed, packedNormalized⟩ := tabled
  obtain rfl := Option.some.inj (params.symm.trans params')
  obtain ⟨wide, length, built⟩ := listed
  rw [← dim, ← nlist] at wide
  rw [← nlist] at length
  rw [← dim, ← nlist] at built
  have ids : (s.appendIds segMeta).clusterIds = segMeta.clusters.mergeSort (· ≤ ·) := by
    rw [OpenIndex.appendIds, none, List.nil_append]
  have count : (s.appendIds segMeta).clusterIds.length = s.nlist.toNat := by
    rw [ids, List.length_mergeSort, length]
  refine ⟨segment, dim_pos, nlist_pos, wide, count, ?_, centroids, fun cosine => ?_,
    fun metric => ⟨⟨metric, dim_pos, nlist_pos, ?_, ?_, ?_, ?_, count⟩, ?_⟩, fun _ => hierarchy⟩
  · rw [ids]
    exact built
  · change s.normalizedCentroids.get = _
    rw [normalized, if_pos (show s.cosinePath = true from cosine), centroids]
    rfl
  · change s.centroids.size = _
    rw [centroids]
    rfl
  · have path : s.cosinePath = decide (s.requestedMetric = "cosine") := by
      rw [IvfIndex.cosinePath, show s.effectiveMetric = "ip" from metric]
      rfl
    change s.normalizedCentroids = _
    rw [normalized, path]
    simp only [decide_eq_true_eq]
    rfl
  · exact packed
  · have path : s.cosinePath = decide (s.requestedMetric = "cosine") := by
      rw [IvfIndex.cosinePath, show s.effectiveMetric = "ip" from metric]
      rfl
    change s.packedNormalizedCentroids = _
    rw [packedNormalized, path]
    simp only [decide_eq_true_eq]
    rfl
  · intro h held
    rw [show s.coarseHierarchy = some h from held] at hierarchy
    cases hierarchy

variable {d : Directory K} {s : OpenIndex K}

/-- **An open** passes with the tables of its directory, or ends with a status on an index
without clusters. -/
theorem open_opens (start : Start s)
    (listed : ∀ segMeta, d.segmentMeta = .ok segMeta → ∀ ivf, segMeta.ivfParams = some ivf →
      Listed build d segMeta ivf) :
    Opens (OpenedOn arith build d) (s.open arith build d) := by
  rw [OpenIndex.open]
  split
  · refine .fail ?_ _ _
    exact start.toUnlisted
  · next segMeta meta_ok =>
      refine (openParams_opens start segMeta).andThen fun s started => ?_
      refine (openCentroids_opens (readSidecar_start started d) d).andThen fun s tabled => ?_
      split
      · exact .fail tabled.1.unlisted _ _
      · next rotation _ =>
          refine (openRotation_opens tabled rotation).andThen fun s tabled => ?_
          refine (openSegment_opens tabled).andThen fun s opened => .ok ?_
          obtain ⟨ivf, params, -⟩ := opened.1.nlist
          exact opened.1.openedOn opened.2 params (listed segMeta meta_ok ivf params)

end Sound

/-! ## Routing -/

section Routing

variable {K : Type} [Field K] [LinearOrder K] {arith : ExactArith K} {build : Build}
  {std : SelectAlgo} {idx idx' : IvfIndex K}

/-- What a call on an open index leaves as it is. -/
structure SameTables (idx idx' : IvfIndex K) : Prop where
  dim : idx'.dim = idx.dim
  nlist : idx'.nlist = idx.nlist
  centroids : idx'.centroids = idx.centroids
  normalized : idx'.normalizedCentroids = idx.normalizedCentroids
  packedNormalized : idx'.packedNormalizedCentroids = idx.packedNormalizedCentroids
  ids : idx'.clusterIds = idx.clusterIds
  requested : idx'.requestedMetric = idx.requestedMetric
  effective : idx'.effectiveMetric = idx.effectiveMetric

theorem ensure_sameTables {kmeans : SuperKMeans K} {nprobe : UInt32}
    (ensured : idx.ensureCoarseHierarchy arith build kmeans nprobe = some idx') :
    SameTables idx idx' := by
  rw [IvfIndex.ensureCoarseHierarchy] at ensured
  split at ensured
  · obtain rfl := Option.some.inj ensured
    exact ⟨rfl, rfl, rfl, rfl, rfl, rfl, rfl, rfl⟩
  · obtain ⟨hierarchy, -, rfl⟩ := Option.map_eq_some_iff.1 ensured
    exact ⟨rfl, rfl, rfl, rfl, rfl, rfl, rfl, rfl⟩

theorem search_sameTables {kmeans : SuperKMeans K} {scratch : CoarseScratch K} {query : ℕ → K}
    {nprobe : UInt32} {routed : Routed K}
    (found : idx.findNearestClusters arith build kmeans std scratch query nprobe =
      some (idx', routed)) : SameTables idx idx' := by
  rw [IvfIndex.findNearestClusters] at found
  split at found
  · obtain ⟨⟨reached, first⟩, two, rest⟩ := Option.bind_eq_some_iff.1 found
    have same : SameTables idx reached := by
      rw [IvfIndex.findNearestClustersTwoLevel] at two
      split at two
      · obtain ⟨rfl, -⟩ := Prod.mk.inj (Option.some.inj two)
        exact ⟨rfl, rfl, rfl, rfl, rfl, rfl, rfl, rfl⟩
      · obtain ⟨ensuredIdx, ensured, routes⟩ := Option.bind_eq_some_iff.1 two
        obtain ⟨_, -, pair⟩ := Option.map_eq_some_iff.1 routes
        obtain ⟨rfl, -⟩ := Prod.mk.inj pair
        exact ensure_sameTables ensured
    split at rest
    · obtain ⟨rfl, -⟩ := Prod.mk.inj (Option.some.inj rest)
      exact same
    · obtain ⟨_, -, pair⟩ := Option.map_eq_some_iff.1 rest
      obtain ⟨rfl, -⟩ := Prod.mk.inj pair
      exact same
  · obtain ⟨_, -, pair⟩ := Option.map_eq_some_iff.1 found
    obtain ⟨rfl, -⟩ := Prod.mk.inj pair
    exact ⟨rfl, rfl, rfl, rfl, rfl, rfl, rfl, rfl⟩

theorem call_sameTables {call : RoutingCall K}
    (applied : call.apply arith build std idx = some idx') :
    SameTables idx idx' := by
  cases call with
  | setTwoLevel enabled threshold superCount superFactor budgetFactor exactOverlap =>
      obtain rfl := Option.some.inj applied
      exact ⟨rfl, rfl, rfl, rfl, rfl, rfl, rfl, rfl⟩
  | setUseCoarseSelectSimd enabled =>
      obtain rfl := Option.some.inj applied
      exact ⟨rfl, rfl, rfl, rfl, rfl, rfl, rfl, rfl⟩
  | setUseCoarseSelectPhase2 enabled =>
      obtain rfl := Option.some.inj applied
      exact ⟨rfl, rfl, rfl, rfl, rfl, rfl, rfl, rfl⟩
  | prepare kmeans nprobe =>
      rw [RoutingCall.apply, IvfIndex.prepareTwoLevelCoarseRouting] at applied
      split at applied
      · exact ensure_sameTables applied
      · obtain rfl := Option.some.inj applied
        exact ⟨rfl, rfl, rfl, rfl, rfl, rfl, rfl, rfl⟩
  | search kmeans scratch query nprobe =>
      rw [RoutingCall.apply] at applied
      obtain ⟨⟨_, _⟩, found, rfl⟩ := Option.map_eq_some_iff.1 applied
      exact search_sameTables found

/-- Without clusters a search finds nothing, and reads nothing. -/
theorem search_nothing (none : idx.clusterIds = []) (kmeans : SuperKMeans K)
    (scratch : CoarseScratch K) (query : ℕ → K) (nprobe : UInt32) :
    idx.findNearestClusters arith build kmeans std scratch query nprobe =
      some (idx, ⟨[], [], .none⟩) := by
  have exact : IvfIndex.findNearestClustersExact arith build std scratch query idx nprobe =
      some ⟨[], [], .none⟩ := if_pos (.inr none)
  have two : idx.findNearestClustersTwoLevel arith build kmeans std scratch query nprobe =
      some (idx, ⟨[], [], .none⟩) := if_pos (.inr none)
  rw [IvfIndex.findNearestClusters, exact, two]
  split
  · rw [Option.bind_some, if_pos (.inr (.inr none))]
  · rfl

/-- The best `nprobe` rows by a score, in ascending order, with their ids. -/
structure Picked (idx : IvfIndex K) (score : ℕ → K) (nprobe : UInt32) (routed : Routed K) :
    Prop where
  count : routed.picks.length = min nprobe.toNat idx.nlist.toNat
  inside : ∀ p ∈ routed.picks, p.child < idx.nlist.toNat
  distinct : (routed.picks.map CoarseTopKEntry.child).Nodup
  ascending : routed.picks.Pairwise fun p p' => p.score ≤ p'.score
  scores : ∀ p ∈ routed.picks, p.score = score p.child
  ids : routed.ids = routed.picks.map fun p => idx.clusterIds.getD p.child 0
  best : ∀ row, row < idx.nlist.toNat → row ∉ routed.picks.map CoarseTopKEntry.child →
    ∀ p ∈ routed.picks, p.score ≤ score row

/-- The exact search picks the best rows by whatever it computes for them. -/
theorem exact_picked (ids : idx.clusterIds.length = idx.nlist.toNat) (std : SelectAlgo)
    {scratch : CoarseScratch K} {query : ℕ → K} {nprobe : UInt32}
    (asked : ¬ (nprobe = 0 ∨ idx.clusterIds = [])) {scores score : ℕ → K}
    (computed : IvfIndex.exactScores arith build scratch query idx = some scores)
    (values : ∀ row, row < idx.nlist.toNat → scores row = score row) : ∃ routed,
      IvfIndex.findNearestClustersExact arith build std scratch query idx nprobe = some routed ∧
      routed.supers = none ∧ Picked idx score nprobe routed := by
  rw [IvfIndex.findNearestClustersExact, if_neg asked, computed, Option.bind_some]
  have selects : ∃ order, (if idx.useCoarseSelectSimd && idx.useCoarseSelectPhase2 then
      selectTopNProbeSmallSpecialized std scores idx.nlist.toNat nprobe.toNat
      else selectTopNProbeSmall std scores idx.nlist.toNat nprobe.toNat) = order ∧
      Selects scores idx.nlist.toNat nprobe.toNat order := by
    refine ⟨_, rfl, ?_⟩
    split
    · exact selects_of_topK (selectTopNProbeSmallSpecialized_topK std scores _ _)
    · exact selects_of_topK (selectTopNProbeSmall_topK std scores _ _)
  obtain ⟨order, selected, selects⟩ := selects
  dsimp only
  rw [selected]
  have children : (order.map fun row => (⟨scores row, row⟩ : CoarseTopKEntry K)).map
      CoarseTopKEntry.child = order := by
    rw [List.map_map]
    exact List.map_id order
  have picked : ∀ p ∈ order.map fun row => (⟨scores row, row⟩ : CoarseTopKEntry K),
      p.child < idx.nlist.toNat ∧ p.child ∈ order ∧ p.score = score p.child := by
    intro p mem
    obtain ⟨row, inOrder, rfl⟩ := List.mem_map.1 mem
    exact ⟨selects.rows row inOrder, inOrder, values row (selects.rows row inOrder)⟩
  rw [toIds_some fun p mem => ids ▸ (picked p mem).1]
  refine ⟨_, rfl, rfl, ?_, fun p mem => (picked p mem).1, ?_, ?_, fun p mem => (picked p mem).2.2,
    rfl, ?_⟩
  · rw [List.length_map, selects.length]
  · rw [children]
    exact selects.distinct
  · exact List.pairwise_map.2 selects.ascending
  · intro row inRange out p mem
    rw [children] at out
    have best := selects.best row inRange out p.child (picked p mem).2.1
    rwa [values row inRange, values p.child (picked p mem).1, ← (picked p mem).2.2] at best

end Routing

/-! ## Searching an opened index -/

section Search

variable {K : Type} [Field K] [LinearOrder K] {arith : ExactArith K} {build : Build}
  {d : Directory K} {s : OpenIndex K}

/-- An index for inner products scores the table of its directory. -/
theorem OpenedOn.searchTable (opened : OpenedOn arith build d s)
    (metric : s.effectiveMetric = "ip") :
    s.searchTable.get = d.table arith s.toIvfIndex := by
  rw [IvfIndex.searchTable, Directory.table]
  split
  · next cosine =>
      refine opened.normalized ?_
      rw [IvfIndex.cosinePath, metric, cosine]
      rfl
  · rw [opened.centroids]

theorem OpenedOn.rowScore (opened : OpenedOn arith build d s) (metric : s.effectiveMetric = "ip")
    (query : ℕ → K) (row : ℕ) :
    s.rowScore arith query row = d.score arith s.toIvfIndex query row := by
  rw [IvfIndex.rowScore, Directory.score, if_pos metric, opened.searchTable metric]

/-- The ids of rows are those of the clusters that were built around them. -/
theorem OpenedOn.built_ids (opened : OpenedOn arith build d s)
    {picks : List (CoarseTopKEntry K)} (inside : ∀ p ∈ picks, p.child < s.nlist.toNat) :
    List.Forall₂ (fun p id => d.BuiltAround s.dim id p.child) picks
      (picks.map fun p => s.clusterIds.getD p.child 0) := by
  rw [List.forall₂_map_right_iff]
  exact List.forall₂_same.2 fun p mem => opened.built p.child (inside p mem)

theorem OpenedOn.search_ip (opened : OpenedOn arith build d s) (metric : s.effectiveMetric = "ip")
    (std : SelectAlgo) (kmeans : SuperKMeans K) (scratch : CoarseScratch K) (query : ℕ → K)
    (nprobe : UInt32) : ∃ idx' routed,
      s.toIvfIndex.findNearestClusters arith build kmeans std scratch query nprobe =
        some (idx', routed) ∧
      AnswersFrom arith build d s.toIvfIndex idx' query nprobe routed := by
  obtain ⟨hierarchy, routed, found, state, fits⟩ :=
    (opened.routing metric).search_spec opened.wide kmeans std scratch query nprobe
  refine ⟨_, routed, found, fits.count, fits.inside, fits.distinct, fits.ascending, ?_, ?_, ?_, ?_,
    ?_⟩
  · exact fun p mem => (fits.scores p mem).trans (opened.rowScore metric query p.child)
  · rw [fits.ids]
    exact opened.built_ids fits.inside
  · intro exact row inside out p mem
    rw [← opened.rowScore metric]
    exact fits.exact exact row (List.mem_range.2 inside) out p mem
  · intro supers probed
    obtain ⟨h, held, -, each⟩ := fits.probed supers probed
    refine ⟨h, held, fun sid mem row child out p picked => ?_⟩
    rw [← opened.rowScore metric]
    exact (each sid mem).2 row child out p picked
  · intro h held
    rw [← opened.searchTable metric]
    exact state.hierarchy h held

theorem OpenedOn.search_plain (opened : OpenedOn arith build d s)
    (metric : s.effectiveMetric ≠ "ip") (std : SelectAlgo) (kmeans : SuperKMeans K)
    (scratch : CoarseScratch K) (query : ℕ → K) (nprobe : UInt32) : ∃ routed,
      s.toIvfIndex.findNearestClusters arith build kmeans std scratch query nprobe =
        some (s.toIvfIndex, routed) ∧
      AnswersFrom arith build d s.toIvfIndex s.toIvfIndex query nprobe routed := by
  have none := opened.plain metric
  rw [IvfIndex.findNearestClusters, if_neg fun two => metric (beq_iff_eq.1 two.2.2)]
  by_cases idle : nprobe = 0 ∨ s.clusterIds = []
  · have zero : nprobe.toNat = 0 := by
      rcases idle with zero | empty
      · rw [zero]
        rfl
      · have count := opened.ids
        rw [empty] at count
        exact absurd count.symm (Nat.ne_of_gt (UInt32.lt_iff_toNat_lt.1 opened.nlist_pos))
    rw [IvfIndex.findNearestClustersExact, if_pos idle]
    refine ⟨_, rfl, ?_, ?_, List.nodup_nil, List.Pairwise.nil, ?_, .nil, ?_, ?_, ?_⟩
    · rw [zero, Nat.zero_min]
      rfl
    · exact fun p mem => by cases mem
    · exact fun p mem => by cases mem
    · exact fun _ row _ _ p mem => by cases mem
    · exact fun supers probed => by cases probed
    · exact fun h held => by rw [none] at held; cases held
  · have computed : IvfIndex.exactScores arith build scratch query s.toIvfIndex = some fun i =>
        if i < s.nlist.toNat then d.score arith s.toIvfIndex query i else scratch.scores i := by
      rw [IvfIndex.exactScores, if_neg fun ip => metric (beq_iff_eq.1 ip), opened.centroids,
        if_neg (Nat.lt_irrefl _)]
      refine congrArg some (funext fun i => if_congr .rfl ?_ rfl)
      exact (if_neg metric).symm
    obtain ⟨routed, found, exact, picked⟩ := exact_picked opened.ids std idle computed
      fun row inside => if_pos inside
    rw [found]
    refine ⟨routed, rfl, picked.count, picked.inside, picked.distinct, picked.ascending,
      picked.scores, ?_, fun _ => picked.best, ?_, ?_⟩
    · rw [picked.ids]
      exact opened.built_ids picked.inside
    · intro supers probed
      rw [exact] at probed
      cases probed
    · exact fun h held => by rw [none] at held; cases held

/-- **A sound session answers every search.** -/
theorem Sound.answers {session : Session K} (sound : Sound arith build session)
    (std : SelectAlgo) : Answers arith build std session := by
  intro kmeans scratch query nprobe
  unfold Sound at sound
  cases last : session.last with
  | none =>
      rw [last] at sound
      exact ⟨_, _, search_nothing sound.ids kmeans scratch query nprobe, rfl⟩
  | some d =>
      rw [last] at sound
      by_cases metric : session.index.effectiveMetric = "ip"
      · exact sound.search_ip metric std kmeans scratch query nprobe
      · exact ⟨_, sound.search_plain metric std kmeans scratch query nprobe⟩

end Search

/-! ## Sessions -/

section Run

variable {K : Type} [Field K] [LinearOrder K] {arith : ExactArith K} {build : Build}
  {session : Session K}

omit [LinearOrder K] in
theorem Unlisted.sameTables {s : OpenIndex K} (unlisted : Unlisted s) {idx : IvfIndex K}
    (same : SameTables s.toIvfIndex idx) : Unlisted { s with toIvfIndex := idx } where
  ids := same.ids.trans unlisted.ids
  sizes := by
    change idx.normalizedCentroids.size = 0 ∨ idx.normalizedCentroids.size = idx.centroids.size
    rw [same.normalized, same.centroids]
    exact unlisted.sizes
  packed none := same.packedNormalized.trans (unlisted.packed (same.normalized.symm.trans none))

/-- The directory an index was opened on stays that of the index. -/
theorem OpenedOn.sameTables {d : Directory K} {s : OpenIndex K} (opened : OpenedOn arith build d s)
    {idx : IvfIndex K} (same : SameTables s.toIvfIndex idx)
    (routing : idx.effectiveMetric = "ip" → RoutingState arith build idx)
    (plain : idx.effectiveMetric ≠ "ip" → idx.coarseHierarchy = none) :
    OpenedOn arith build d { s with toIvfIndex := idx } := by
  obtain ⟨dim, nlist, centroids, normalized, -, ids, requested, effective⟩ := same
  have path : idx.cosinePath = s.cosinePath := by
    rw [IvfIndex.cosinePath, IvfIndex.cosinePath, requested, effective]
  refine ⟨opened.segment, ?_, ?_, ?_, ?_, ?_, ?_, ?_, routing, plain⟩
  · exact dim ▸ opened.dim_pos
  · exact nlist ▸ opened.nlist_pos
  · change NoWrap build idx.nlist idx.dim
    rw [nlist, dim]
    exact opened.wide
  · change idx.clusterIds.length = idx.nlist.toNat
    rw [ids, nlist]
    exact opened.ids
  · change ∀ row, row < idx.nlist.toNat → d.BuiltAround idx.dim (idx.clusterIds.getD row 0) row
    rw [ids, nlist, dim]
    exact opened.built
  · change idx.centroids = ⟨idx.nlist.toNat * idx.dim.toNat, d.rows.get⟩
    rw [centroids, nlist, dim]
    exact opened.centroids
  · intro cosine
    change idx.normalizedCentroids.get = IvfIndex.normalizedRows arith idx.dim.toNat d.rows.get
    rw [normalized, dim]
    exact opened.normalized (path.symm.trans cosine)

/-- A call on an opened index is allowed, and leaves it opened on the same directory. -/
theorem OpenedOn.call {d : Directory K} {s : OpenIndex K} (opened : OpenedOn arith build d s)
    (std : SelectAlgo) (call : RoutingCall K) : ∃ idx,
      call.apply arith build std s.toIvfIndex = some idx ∧
      OpenedOn arith build d { s with toIvfIndex := idx } := by
  by_cases metric : s.effectiveMetric = "ip"
  · obtain ⟨idx, applied, state, -, -⟩ := (opened.routing metric).call std opened.wide call
    exact ⟨idx, applied, opened.sameTables (call_sameTables applied) (fun _ => state)
      fun other => absurd state.metric other⟩
  · have none := opened.plain metric
    have kept : ∃ idx, call.apply arith build std s.toIvfIndex = some idx ∧
        idx.coarseHierarchy = .none := by
      cases call with
      | setTwoLevel enabled threshold superCount superFactor budgetFactor exactOverlap =>
          refine ⟨_, rfl, ?_⟩
          rw [IvfIndex.setTwoLevelCoarseRouting]
          dsimp only
          rw [none, ite_self]
      | setUseCoarseSelectSimd enabled => exact ⟨_, rfl, none⟩
      | setUseCoarseSelectPhase2 enabled => exact ⟨_, rfl, none⟩
      | prepare kmeans nprobe =>
          refine ⟨s.toIvfIndex, ?_, none⟩
          rw [RoutingCall.apply, IvfIndex.prepareTwoLevelCoarseRouting,
            if_neg fun two => metric (beq_iff_eq.1 two.2.2)]
      | search kmeans scratch query nprobe =>
          obtain ⟨routed, found, -⟩ := opened.search_plain metric std kmeans scratch query nprobe
          refine ⟨s.toIvfIndex, ?_, none⟩
          rw [RoutingCall.apply, found]
          rfl
    obtain ⟨idx, applied, hierarchy⟩ := kept
    have same := call_sameTables applied
    exact ⟨idx, applied, opened.sameTables same
      (fun ip => absurd (same.effective.symm.trans ip) metric) fun _ => hierarchy⟩

/-- A call on an index without clusters. -/
theorem Unlisted.call {s : OpenIndex K} (unlisted : Unlisted s) (std : SelectAlgo)
    (call : RoutingCall K) : ∃ idx,
      call.apply arith build std s.toIvfIndex = some idx ∧
      Unlisted { s with toIvfIndex := idx } := by
  have applied : ∃ idx, call.apply arith build std s.toIvfIndex = some idx := by
    cases call with
    | setTwoLevel enabled threshold superCount superFactor budgetFactor exactOverlap =>
        exact ⟨_, rfl⟩
    | setUseCoarseSelectSimd enabled => exact ⟨_, rfl⟩
    | setUseCoarseSelectPhase2 enabled => exact ⟨_, rfl⟩
    | prepare kmeans nprobe =>
        rw [RoutingCall.apply, IvfIndex.prepareTwoLevelCoarseRouting]
        split
        · exact ensureCoarseHierarchy_inside unlisted.sizes kmeans nprobe
        · exact ⟨_, rfl⟩
    | search kmeans scratch query nprobe =>
        rw [RoutingCall.apply, search_nothing unlisted.ids]
        exact ⟨_, rfl⟩
  obtain ⟨idx, applied⟩ := applied
  exact ⟨idx, applied, unlisted.sameTables (call_sameTables applied)⟩

/-- **One call of a session.** -/
theorem Sound.call (sound : Sound arith build session) (std : SelectAlgo) {call : IndexCall K}
    (fits : CallFits build session call) : ∃ session',
      call.apply arith build std session = some session' ∧ Sound arith build session' := by
  obtain ⟨index, last⟩ := session
  cases call with
  | «open» d =>
      obtain ⟨blank, listed⟩ := fits
      have unlisted : Unlisted index ∧ last = none := by
        cases last with
        | none => exact ⟨sound, rfl⟩
        | some d => exact absurd (sound.segment.symm.trans blank.segment) Bool.noConfusion
      obtain ⟨unlisted, rfl⟩ := unlisted
      have start : Start index := ⟨blank, unlisted⟩
      obtain ⟨passes, fails⟩ : Opens (OpenedOn arith build d) (index.open arith build d) :=
        open_opens start listed
      rw [IndexCall.apply]
      split
      · next outside =>
          exact absurd rfl (fails .outOfBounds (by rw [outside])).1
      · next failed =>
          refine ⟨_, rfl, ?_⟩
          have kept := (fails _ (by rw [failed])).2
          rw [failed] at kept
          exact kept
      · next passed =>
          refine ⟨_, rfl, ?_⟩
          have holds := passes (by rw [passed])
          rw [passed] at holds
          exact holds
  | route call =>
      cases last with
      | none =>
          obtain ⟨idx, applied, unlisted⟩ : ∃ idx,
              call.apply arith build std index.toIvfIndex = some idx ∧
              Unlisted { index with toIvfIndex := idx } := Unlisted.call sound std call
          rw [IndexCall.apply, applied]
          exact ⟨_, rfl, unlisted⟩
      | some d =>
          obtain ⟨idx, applied, opened⟩ := OpenedOn.call sound std call
          rw [IndexCall.apply, applied]
          exact ⟨_, rfl, opened⟩

end Run

/-- **Opening and searching.**  In a run of calls on a new index that opens directories on a
blank index only, and only directories whose clusters are listed as their centroids are, no call
reads outside a table, and every search afterwards answers from the directory opened last. -/
theorem session_answers {K : Type} [Field K] [LinearOrder K] (arith : ExactArith K)
    (build : Build) (std : SelectAlgo) (calls : List (IndexCall K))
    (fits : Meets (IndexCall.apply arith build std) (CallFits build) ⟨OpenIndex.new K, none⟩
      calls) :
    ∃ session, run (IndexCall.apply arith build std) ⟨OpenIndex.new K, none⟩ calls = some session ∧
      Answers arith build std session := by
  have start : Sound arith build (⟨OpenIndex.new K, none⟩ : Session K) :=
    ⟨rfl, .inl rfl, fun _ => rfl⟩
  obtain ⟨session, ran, sound⟩ := fits.run start fun session call sound fits =>
    sound.call std fits
  exact ⟨session, ran, sound.answers std⟩

/-! ### A directory for the cosine metric -/

/-- The calls of a route keep the directory that was opened last. -/
theorem run_route_last {K : Type} [Field K] [LinearOrder K] {arith : ExactArith K} {build : Build}
    {std : SelectAlgo} (calls : List (RoutingCall K)) {session session' : Session K}
    (ran : run (IndexCall.apply arith build std) session (calls.map .route) = some session') :
    session'.last = session.last := by
  induction calls generalizing session with
  | nil =>
      obtain rfl := Option.some.inj ran
      rfl
  | cons call calls ih =>
      obtain ⟨next, applied, rest⟩ := Option.bind_eq_some_iff.1 ran
      rw [ih rest]
      obtain ⟨idx, -, rfl⟩ := Option.map_eq_some_iff.1 applied
      rfl

def cosineSidecar : List Char :=
  "\"requested_metric\": \"cosine\", \"effective_metric\": \"ip\"".toList

theorem cosineSidecar_fields :
    OpenIndex.sidecarField cosineSidecar "requested_metric" "l2" = "cosine" ∧
      OpenIndex.sidecarField cosineSidecar "effective_metric" "l2" = "ip" ∧
      OpenIndex.sidecarField cosineSidecar "rotation_mode" "random_matrix" = "random_matrix" := by
  decide +kernel

/-- Four clusters of two dimensions, in no order. -/
def fourClusters : Directory ℝ where
  dir := "index"
  segmentMeta := .ok ⟨2, some ⟨4, 0, 1⟩, none, [], [9, 2, 7, 5]⟩
  buildMetadata := some cosineSidecar
  centroidsBin := some ⟨8, fun t => (t : ℝ)⟩
  rotationBin _ := .ok ⟨2, fun _ => 1, .randomMatrix, false, [], [], [], 0, 0, 0, []⟩
  rotatedCentroidsBin := none
  clusterClu := .ok [⟨9, fun j => ((6 + j : ℕ) : ℝ)⟩, ⟨2, fun j => ((0 + j : ℕ) : ℝ)⟩,
    ⟨7, fun j => ((4 + j : ℕ) : ℝ)⟩, ⟨5, fun j => ((2 + j : ℕ) : ℝ)⟩]
  dataDat _ _ := .ok ()

theorem fourClusters_listed {segMeta : SegmentMeta} (read : fourClusters.segmentMeta = .ok segMeta)
    {ivf : IvfParams} (params : segMeta.ivfParams = some ivf) :
    Listed .scalar fourClusters segMeta ivf := by
  obtain rfl := Except.ok.inj read
  obtain rfl := Option.some.inj params
  have sorted : ([9, 2, 7, 5] : List UInt32).mergeSort (· ≤ ·) = [2, 5, 7, 9] := by
    simp [List.mergeSort, List.MergeSort.Internal.splitInTwo]
  refine ⟨⟨by decide, by decide⟩, rfl, fun row inside => ⟨_, rfl, ?_⟩⟩
  rw [sorted]
  have below : row < 4 := inside
  interval_cases row
  · exact ⟨_, .tail _ (.head _), rfl, fun j _ => rfl⟩
  · exact ⟨_, .tail _ (.tail _ (.tail _ (.head _))), rfl, fun j _ => rfl⟩
  · exact ⟨_, .tail _ (.tail _ (.head _)), rfl, fun j _ => rfl⟩
  · exact ⟨_, .head _, rfl, fun j _ => rfl⟩

theorem fourClusters_opens :
    ((OpenIndex.new ℝ).open realArith .scalar fourClusters).1 = none := by
  obtain ⟨requested, effective, rotation⟩ := cosineSidecar_fields
  have built : ∀ get : ℕ → ℝ, buildCoarsePackedLayout .scalar ⟨8, get⟩ 4 2 =
      some (packedLayout .scalar get 4 2) := fun get => packedLayout_built (Nat.le_refl 8)
  simp [OpenIndex.open, fourClusters, OpenIndex.openParams, Opening.andThen, OpenIndex.readSidecar,
    OpenIndex.openCentroids, OpenIndex.normalize, OpenIndex.packTables, OpenIndex.openRotation,
    OpenIndex.openSegment, OpenIndex.nameRotation, OpenIndex.new, IvfIndex.cosinePath, requested,
    effective, rotation, built]

/-- Two supers are prepared over the four clusters, and a search goes through them. -/
noncomputable def fourCalls : List (RoutingCall ℝ) :=
  [.setTwoLevel true 1 2 0 4 true,
    .prepare ⟨fun _ _ _ _ => some ⟨4, fun t => (t : ℝ)⟩, fun _ _ _ _ _ => some [0, 1, 0, 1]⟩ 3,
    .search ⟨fun _ _ _ _ => none, fun _ _ _ _ _ => none⟩ ⟨fun _ => 0, fun _ => 0, fun _ => 0⟩
      (fun j => 3 - (j : ℝ)) 3]

theorem session_answers_fourClusters : ∃ session,
    run (IndexCall.apply realArith .scalar SelectAlgo.reference) ⟨OpenIndex.new ℝ, none⟩
      (.open fourClusters :: fourCalls.map .route) = some session ∧
      session.last = some fourClusters ∧
      Answers realArith .scalar SelectAlgo.reference session := by
  obtain ⟨session, ran, answers⟩ := session_answers realArith .scalar SelectAlgo.reference
    (.open fourClusters :: fourCalls.map .route)
    ⟨⟨⟨rfl, rfl, rfl⟩, fun _ read _ params => fourClusters_listed read params⟩,
      fun _ _ => ⟨trivial, fun _ _ => ⟨trivial, fun _ _ => ⟨trivial, fun _ _ => trivial⟩⟩⟩⟩
  refine ⟨session, ran, ?_, answers⟩
  obtain ⟨next, applied, rest⟩ := Option.bind_eq_some_iff.1 ran
  rw [run_route_last _ rest]
  have opens := fourClusters_opens
  rw [IndexCall.apply] at applied
  generalize (OpenIndex.new ℝ).open realArith .scalar fourClusters = opened at applied opens
  obtain ⟨failure, index⟩ := opened
  obtain rfl : failure = none := opens
  obtain rfl := Option.some.inj applied
  rfl

end VecFetch.Index
