/-
# Index.CoarseRoutes -- what a search picks

Every way of selecting keeps the first of the scores (`TopK`), so the exact search returns
the best centroids and the two-level search the best children of the supers it probed.  The
hierarchy's children are an exact partition of the centroids, whatever the k-means assigned
(`HierarchyFits`), and stay so in every run of calls.

All of this holds as long as the counts of blocks of the packed layout, computed in 32 bits,
do not wrap; where they wrap the scores are never written (`routing_wellFormed_iff`).
-/
import VecFetch.Index.CoarseRouting
import VecFetch.Theory.MapM

namespace VecFetch.Index

open VecFetch.Theory VecFetch.Simd VecFetch.Rabitq

set_option autoImplicit false

/-! ## Selection -/

section Select

variable {K : Type} [LinearOrder K] (std : SelectAlgo) (scores : ℕ → K)

theorem scoreLess_order (l : List ℕ) : StrictWeakOn (scoreLess scores) l :=
  strictWeakOn_of_key scores l

theorem selectTopNProbeSmall_topK (nlist nprobe : ℕ) :
    TopK (scoreLess scores) nprobe (List.range nlist)
      (selectTopNProbeSmall std scores nlist nprobe) := by
  have order := scoreLess_order scores (List.range nlist)
  have length : (List.range nlist).length = nlist := List.length_range
  unfold selectTopNProbeSmall
  dsimp only
  by_cases few : min nprobe nlist < nlist
  · rw [if_pos few]
    have top := std.nthElement_topK (k := min nprobe nlist) order
    refine ⟨top.length.trans ?_, top.ascending, top.split⟩
    rw [length]
    omega
  · rw [if_neg few, List.take_of_length_le (by omega)]
    refine TopK.sorted std.toStdAlgo order [] (by omega) (by simp) ?_
    exact fun d none => by cases none

/-- With a full heap, a turn is an offer. -/
theorem replaceTop_eq {k : ℕ} {heap : List ℕ} (full : heap.length = k) (i : ℕ) :
    replaceTop std scores heap i = (std.addBounded (scoreLess scores) k i heap).1 := by
  unfold StdAlgo.addBounded replaceTop
  rw [if_neg (by omega)]
  cases heap with
  | nil => rfl
  | cons front rest =>
      dsimp only
      by_cases above : scores front ≤ scores i
      · rw [if_pos above, if_neg (by simpa [scoreLess] using above)]
      · rw [if_neg above, if_pos (by simpa [scoreLess] using above)]

theorem replaceTop_smallest {k m : ℕ} {heap : List ℕ}
    (small : std.Smallest (scoreLess scores) k (List.range k) heap) :
    std.Smallest (scoreLess scores) k (List.range (k + m))
      ((List.range' k m).foldl (replaceTop std scores) heap) := by
  induction m with
  | zero => exact small
  | succ m ih =>
      have full : ((List.range' k m).foldl (replaceTop std scores) heap).length = k := by
        rw [ih.length_eq, List.length_range]
        omega
      rw [List.range'_concat, List.foldl_append, List.foldl_cons, List.foldl_nil,
        replaceTop_eq std scores full, ← Nat.add_assoc, List.range_succ, Nat.one_mul]
      exact StdAlgo.addBounded_smallest (scoreLess_order scores _) ih

theorem selectTopNProbeSmallSpecialized_topK (nlist nprobe : ℕ) :
    TopK (scoreLess scores) nprobe (List.range nlist)
      (selectTopNProbeSmallSpecialized std scores nlist nprobe) := by
  have order := scoreLess_order scores (List.range nlist)
  have length : (List.range nlist).length = nlist := List.length_range
  unfold selectTopNProbeSmallSpecialized
  dsimp only
  by_cases none : min nprobe nlist = 0
  · rw [if_pos none]
    refine ⟨by rw [length, none]; rfl, List.Pairwise.nil, List.range nlist, .refl _, ?_⟩
    exact fun _ _ y inside => by cases inside
  rw [if_neg none]
  by_cases all : nlist ≤ min nprobe nlist
  · rw [if_pos all]
    refine TopK.sorted std.toStdAlgo order [] (by omega) (by simp) ?_
    exact fun d none => by cases none
  · rw [if_neg all]
    have start := std.makeHeap_smallest (scoreLess_order scores (List.range (min nprobe nlist)))
    rw [List.length_range] at start
    have small := replaceTop_smallest std scores (m := nlist - min nprobe nlist) start
    rw [Nat.add_sub_cancel' (Nat.min_le_right nprobe nlist)] at small
    have top := small.topK_sortHeap order
    refine ⟨top.length.trans ?_, top.ascending, top.split⟩
    rw [length]
    omega

theorem topKScoreLess_order (l : List (CoarseTopKEntry K)) : StrictWeakOn topKScoreLess l := by
  have lex : (topKScoreLess : CoarseTopKEntry K → CoarseTopKEntry K → Bool) =
      fun a b => decide (toLex (a.score, a.child) < toLex (b.score, b.child)) := by
    funext a b
    rw [topKScoreLess, Bool.eq_iff_iff, decide_eq_true_iff, Prod.Lex.toLex_lt_toLex]
    split
    next same => simp [same]
    next differ => simp [differ]
  rw [lex]
  exact strictWeakOn_of_key (fun e : CoarseTopKEntry K => toLex (e.score, e.child)) l

theorem score_le_of_not_less {a b : CoarseTopKEntry K} (above : topKScoreLess a b = false) :
    b.score ≤ a.score := by
  unfold topKScoreLess at above
  split at above
  next same => exact same.symm.le
  next => simpa using above

end Select

/-! ## The data of an index -/

section Data

variable {K : Type} [Field K] [LinearOrder K] (arith : ExactArith K) (build : Build)

/-- What an index for inner products holds besides its configuration. -/
structure RoutingData (idx : IvfIndex K) : Prop where
  metric : idx.effectiveMetric = "ip"
  dim_pos : 0 < idx.dim
  nlist_pos : 0 < idx.nlist
  centroids : idx.centroids.size = idx.nlist.toNat * idx.dim.toNat
  normalized : idx.normalizedCentroids =
    if idx.requestedMetric = "cosine" then
      ⟨idx.centroids.size, IvfIndex.normalizedRows arith idx.dim.toNat idx.centroids.get⟩
    else ⟨0, fun _ => 0⟩
  packed : idx.packedCentroids = packedLayout build idx.centroids.get idx.nlist idx.dim
  packedNormalized : idx.packedNormalizedCentroids =
    if idx.requestedMetric = "cosine" then
      packedLayout build idx.normalizedCentroids.get idx.nlist idx.dim
    else IvfIndex.emptyLayout
  ids : idx.clusterIds.length = idx.nlist.toNat

end Data

namespace IvfIndex

section Scores

variable {K : Type} [Field K] [LinearOrder K] (arith : ExactArith K) {build : Build}

/-- The query that is scored. -/
def searchQuery (idx : IvfIndex K) (query : ℕ → K) : ℕ → K :=
  if idx.requestedMetric = "cosine" then normalizeVector arith idx.dim.toNat query else query

/-- The rows that are scored. -/
def searchTable (idx : IvfIndex K) : FloatVec K :=
  if idx.requestedMetric = "cosine" then idx.normalizedCentroids else idx.centroids

/-- The plain inner-product score of a centroid. -/
def rowScore (idx : IvfIndex K) (query : ℕ → K) (row : ℕ) : K :=
  plainScore idx.dim.toNat (idx.searchQuery arith query) idx.searchTable.get row

end Scores

end IvfIndex

namespace RoutingData

variable {K : Type} [Field K] [LinearOrder K] {arith : ExactArith K} {build : Build}
  {idx : IvfIndex K} (data : RoutingData arith build idx)

include data

theorem cosinePath_eq : idx.cosinePath = decide (idx.requestedMetric = "cosine") := by
  rw [IvfIndex.cosinePath, data.metric]
  rfl

theorem size_pos : 0 < idx.nlist.toNat * idx.dim.toNat :=
  Nat.mul_pos (UInt32.lt_iff_toNat_lt.1 data.nlist_pos) (UInt32.lt_iff_toNat_lt.1 data.dim_pos)

theorem layout_size_pos (wide : NoWrap build idx.nlist idx.dim) (src : ℕ → K) :
    0 < (packedLayout build src idx.nlist idx.dim).data.size := by
  have rows := wide.rows_le
  have columns := wide.columns_le
  have nlist_pos := UInt32.lt_iff_toNat_lt.1 data.nlist_pos
  have dim_pos := UInt32.lt_iff_toNat_lt.1 data.dim_pos
  rw [show UInt32.toNat 0 = 0 from rfl] at nlist_pos dim_pos
  have blocks : 0 < (numCentroidBlocks build idx.nlist).toNat :=
    Nat.pos_of_ne_zero fun none => by rw [none] at rows; omega
  have pieces : 0 < (numDimBlocks build idx.dim).toNat :=
    Nat.pos_of_ne_zero fun none => by rw [none] at columns; omega
  exact Nat.mul_pos (Nat.mul_pos (Nat.mul_pos blocks pieces) (block_pos build)) (width_pos build)

omit data in
theorem queryBuffer_some (wide : NoWrap build idx.nlist idx.dim) (query : ℕ → K) :
    IvfIndex.queryBuffer arith query idx
        ((numDimBlocks build idx.dim).toNat * kCoarseVecWidth build) =
      some (paddedQuery idx.dim.toNat ((numDimBlocks build idx.dim).toNat * kCoarseVecWidth build)
        (idx.searchQuery arith query)) := by
  rw [IvfIndex.queryBuffer, if_neg (Nat.not_lt.2 wide.columns_le), IvfIndex.searchQuery]
  simp only [beq_iff_eq]

/-- The layout that all centroids are scored in. -/
theorem layout_eq (wide : NoWrap build idx.nlist idx.dim) :
    (if idx.requestedMetric == "cosine" && !idx.packedNormalizedCentroids.empty then
      idx.packedNormalizedCentroids else idx.packedCentroids) =
      packedLayout build idx.searchTable.get idx.nlist idx.dim := by
  rw [IvfIndex.searchTable]
  by_cases cosine : idx.requestedMetric = "cosine"
  · have filled : idx.packedNormalizedCentroids.empty = false := by
      rw [CoarsePackedLayout.empty, data.packedNormalized, if_pos cosine]
      have positive := data.layout_size_pos wide idx.normalizedCentroids.get
      exact beq_false_of_ne (by omega)
    rw [if_pos cosine, if_pos (by simp [cosine, filled]), data.packedNormalized, if_pos cosine]
  · rw [if_neg cosine, if_neg (by simp [cosine]), data.packed]

/-- **The exact search scores every centroid plainly.** -/
theorem exactScores_spec (wide : NoWrap build idx.nlist idx.dim) (scratch : CoarseScratch K)
    (query : ℕ → K) : ∃ scores,
      IvfIndex.exactScores arith build scratch query idx = some scores ∧
      ∀ row, row < idx.nlist.toNat → scores row = idx.rowScore arith query row := by
  obtain ⟨scores, computed, values⟩ := computeCoarseIPScores_spec wide
    (idx.searchQuery arith query) idx.searchTable.get scratch.scores
  refine ⟨scores, ?_, fun row inside => by rw [values, if_pos inside, IvfIndex.rowScore]⟩
  rw [IvfIndex.exactScores, if_pos (by rw [data.metric]; rfl), data.packed]
  change (IvfIndex.queryBuffer arith query idx
    ((numDimBlocks build idx.dim).toNat * kCoarseVecWidth build)).bind _ = _
  rw [queryBuffer_some wide, Option.bind_some]
  dsimp only
  rw [← data.packed, data.layout_eq wide]
  exact computed

end RoutingData

/-! ## What a search returns -/

section Returned

variable {K : Type} [Field K] [LinearOrder K] (arith : ExactArith K)

/-- The picks are distinct rows, as many as asked for, in ascending order of their plain
scores, with their ids. -/
structure WellRouted (idx : IvfIndex K) (query : ℕ → K) (nprobe : UInt32) (routed : Routed K) :
    Prop where
  count : routed.picks.length = min nprobe.toNat idx.nlist.toNat
  inside : ∀ p ∈ routed.picks, p.child < idx.nlist.toNat
  distinct : (routed.picks.map CoarseTopKEntry.child).Nodup
  ascending : routed.picks.Pairwise fun p p' => p.score ≤ p'.score
  scores : ∀ p ∈ routed.picks, p.score = idx.rowScore arith query p.child
  ids : routed.ids = routed.picks.map fun p => idx.clusterIds.getD p.child 0

/-- No row of `rows` that is not picked scores strictly better than a picked one. -/
def NoneBetter (idx : IvfIndex K) (query : ℕ → K) (routed : Routed K) (rows : List ℕ) : Prop :=
  ∀ row ∈ rows, row ∉ routed.picks.map CoarseTopKEntry.child →
    ∀ p ∈ routed.picks, p.score ≤ idx.rowScore arith query row

omit [LinearOrder K] [Field K] in
theorem toIds_some {idx : IvfIndex K} {picks : List (CoarseTopKEntry K)}
    (inside : ∀ p ∈ picks, p.child < idx.clusterIds.length) (supers : Option (List ℕ)) :
    idx.toIds picks supers =
      some ⟨picks, picks.map fun p => idx.clusterIds.getD p.child 0, supers⟩ := by
  rw [IvfIndex.toIds, mapM_eq_map (g := fun p => idx.clusterIds.getD p.child 0), Option.map_some]
  intro p mem
  rw [List.getElem?_eq_getElem (inside p mem), List.getD_eq_getElem _ _ (inside p mem)]

variable {arith} {build : Build} {idx : IvfIndex K} (data : RoutingData arith build idx)

include data

/-- **The exact search returns the best of all centroids.** -/
theorem RoutingData.exact_wellRouted (wide : NoWrap build idx.nlist idx.dim) (std : SelectAlgo)
    (scratch : CoarseScratch K) (query : ℕ → K) (nprobe : UInt32) : ∃ routed,
      IvfIndex.findNearestClustersExact arith build std scratch query idx nprobe = some routed ∧
      routed.supers = none ∧ WellRouted arith idx query nprobe routed ∧
      NoneBetter arith idx query routed (List.range idx.nlist.toNat) := by
  have nlist_pos := UInt32.lt_iff_toNat_lt.1 data.nlist_pos
  rw [show UInt32.toNat 0 = 0 from rfl] at nlist_pos
  have held : idx.clusterIds ≠ [] := by
    intro none
    have := data.ids
    rw [none, List.length_nil] at this
    omega
  rw [IvfIndex.findNearestClustersExact]
  by_cases zero : nprobe = 0
  · rw [if_pos (.inl zero)]
    refine ⟨_, rfl, rfl, ⟨?_, ?_, ?_, ?_, ?_, rfl⟩, ?_⟩
    · rw [zero]
      simp
    · exact fun p none => by cases none
    · exact List.nodup_nil
    · exact List.Pairwise.nil
    · exact fun p none => by cases none
    · exact fun row _ _ p none => by cases none
  · rw [if_neg (by simp [zero, held])]
    obtain ⟨scores, computed, values⟩ := data.exactScores_spec wide scratch query
    rw [computed, Option.bind_some]
    dsimp only
    have top : ∃ order, (if idx.useCoarseSelectSimd && idx.useCoarseSelectPhase2 then
        selectTopNProbeSmallSpecialized std scores idx.nlist.toNat nprobe.toNat
        else selectTopNProbeSmall std scores idx.nlist.toNat nprobe.toNat) = order ∧
        TopK (scoreLess scores) nprobe.toNat (List.range idx.nlist.toNat) order := by
      refine ⟨_, rfl, ?_⟩
      split
      · exact selectTopNProbeSmallSpecialized_topK std scores _ _
      · exact selectTopNProbeSmall_topK std scores _ _
    obtain ⟨order, selected, top⟩ := top
    rw [selected]
    have rows : ∀ row ∈ order, row < idx.nlist.toNat := fun row mem =>
      List.mem_range.1 (top.subset mem)
    have children : (order.map fun row => (⟨scores row, row⟩ : CoarseTopKEntry K)).map
        CoarseTopKEntry.child = order := by
      rw [List.map_map]
      exact List.map_id order
    have picked : ∀ p ∈ order.map fun row => (⟨scores row, row⟩ : CoarseTopKEntry K),
        p.child < idx.nlist.toNat ∧ p.child ∈ order ∧
          p.score = idx.rowScore arith query p.child := by
      intro p mem
      obtain ⟨row, inOrder, rfl⟩ := List.mem_map.1 mem
      exact ⟨rows row inOrder, inOrder, values row (rows row inOrder)⟩
    rw [toIds_some (fun p mem => data.ids ▸ (picked p mem).1)]
    refine ⟨_, rfl, rfl, ⟨?_, ?_, ?_, ?_, ?_, rfl⟩, ?_⟩
    · rw [List.length_map, top.length, List.length_range]
    · exact fun p mem => (picked p mem).1
    · rw [children]
      exact top.nodup List.nodup_range
    · refine List.pairwise_map.2 (top.ascending.imp fun above => ?_)
      simpa [scoreLess] using above
    · exact fun p mem => (picked p mem).2.2
    · intro row inRange out p mem
      rw [children] at out
      have above := top.not_below inRange out (picked p mem).2.1
      rw [(picked p mem).2.2, ← values p.child (picked p mem).1,
        ← values row (List.mem_range.1 inRange)]
      simpa [scoreLess] using above

end Returned

/-! ## The hierarchy -/

/-- The children of a super. -/
def HierarchicalCoarseIndex.children {K : Type} (h : HierarchicalCoarseIndex K) (s : ℕ) : List ℕ :=
  (List.range (h.childOffsets (s + 1) - h.childOffsets s)).map fun i =>
    h.childCentroidIds (h.childOffsets s + i)

/-- **The children are an exact partition** of the rows, by offsets that ascend from zero. -/
structure ChildPartition {K : Type} (nlist : ℕ) (h : HierarchicalCoarseIndex K) : Prop where
  first : h.childOffsets 0 = 0
  last : h.childOffsets h.nSuper.toNat = nlist
  ascending : ∀ s, s < h.nSuper.toNat → h.childOffsets s ≤ h.childOffsets (s + 1)
  perm : ((List.range h.nSuper.toNat).flatMap h.children).Perm (List.range nlist)

namespace ChildPartition

variable {K : Type} {nlist : ℕ} {h : HierarchicalCoarseIndex K} (parts : ChildPartition nlist h)

include parts

theorem child_lt {s row : ℕ} (inside : s < h.nSuper.toNat) (child : row ∈ h.children s) :
    row < nlist :=
  List.mem_range.1 (parts.perm.subset
    (List.mem_flatMap.2 ⟨s, List.mem_range.2 inside, child⟩))

theorem offset_le {s : ℕ} (inside : s ≤ h.nSuper.toNat) : h.childOffsets s ≤ nlist := by
  rw [← parts.last]
  obtain ⟨k, total⟩ := Nat.exists_eq_add_of_le inside
  have climb : ∀ k, s + k ≤ h.nSuper.toNat → h.childOffsets s ≤ h.childOffsets (s + k) := by
    intro k
    induction k with
    | zero => exact fun _ => le_rfl
    | succ k ih => exact fun within => (ih (by omega)).trans (parts.ascending _ (by omega))
  rw [total]
  exact climb k (by omega)

/-- The children of distinct supers are distinct. -/
theorem nodup {supers : List ℕ} (distinct : supers.Nodup)
    (inside : ∀ s ∈ supers, s < h.nSuper.toNat) : (supers.flatMap h.children).Nodup := by
  have all := parts.perm.nodup_iff.2 List.nodup_range
  obtain ⟨each, apart⟩ := List.nodup_flatMap.1 all
  refine List.nodup_flatMap.2 ⟨fun s mem => each s (List.mem_range.2 (inside s mem)), ?_⟩
  refine distinct.imp_of_mem fun {a b} aIn bIn differ => ?_
  have symm : Std.Symm (Function.onFun List.Disjoint h.children) := ⟨fun _ _ d => d.symm⟩
  exact apart.forall (List.mem_range.2 (inside a aIn)) (List.mem_range.2 (inside b bIn)) differ

end ChildPartition

/-- A hierarchy over a table of rows: its children are a partition, and what it scores is
packed from its supers and from the rows of their children. -/
structure HierarchyFits {K : Type} [Field K] (build : Build) (nlist dim : UInt32) (cosine : Bool)
    (table : ℕ → K) (h : HierarchicalCoarseIndex K) : Prop
    extends ChildPartition nlist.toNat h where
  some : 0 < h.nSuper
  le : h.nSuper ≤ nlist
  supers : ∃ trained, h.packedSuperCentroids = packedLayout build trained h.nSuper dim
  normalizedSupers : h.packedNormalizedSuperCentroids = IvfIndex.emptyLayout ∨
    ∃ table, h.packedNormalizedSuperCentroids = packedLayout build table h.nSuper dim
  children : ∀ s, s < h.nSuper.toNat → IvfIndex.childLayout h cosine s =
    packedLayout build
      (fun t => table (h.childCentroidIds (h.childOffsets s + t / dim.toNat) * dim.toNat +
        t % dim.toNat))
      (UInt32.ofNat (h.childOffsets (s + 1) - h.childOffsets s)) dim

section Build

variable {K : Type} [Field K] [LinearOrder K] {arith : ExactArith K} {build : Build}
  {idx : IvfIndex K}

omit [LinearOrder K] in
theorem packedLayout_built {src : FloatVec K} {nlist dim : UInt32}
    (whole : nlist.toNat * dim.toNat ≤ src.size) :
    buildCoarsePackedLayout build src nlist dim = some (packedLayout build src.get nlist dim) :=
  if_neg fun short => Nat.not_lt.2 whole short.2.2

omit [LinearOrder K] in
theorem packChildren_some (build : Build) (dim : UInt32) {src : FloatVec K}
    {childOffsets childIds : ℕ → ℕ}
    {nSuper nlist : ℕ} (size : src.size = nlist * dim.toNat) (small : nlist < 2 ^ 32)
    (counts : ∀ s, s < nSuper → childOffsets (s + 1) - childOffsets s ≤ nlist)
    (inside : ∀ s, s < nSuper → ∀ i, i < childOffsets (s + 1) - childOffsets s →
      childIds (childOffsets s + i) < nlist) :
    ∃ packed, IvfIndex.packChildren build src childOffsets childIds dim nSuper = some packed ∧
      ∀ s, s < nSuper → packed s = packedLayout build
        (fun t => src.get (childIds (childOffsets s + t / dim.toNat) * dim.toNat + t % dim.toNat))
        (UInt32.ofNat (childOffsets (s + 1) - childOffsets s)) dim := by
  have each : ∀ s ∈ List.range nSuper,
      IvfIndex.buildCoarsePackedLayoutFromChildIds build src childIds (childOffsets s)
        (childOffsets (s + 1) - childOffsets s) dim = some (packedLayout build
        (fun t => src.get (childIds (childOffsets s + t / dim.toNat) * dim.toNat + t % dim.toNat))
        (UInt32.ofNat (childOffsets (s + 1) - childOffsets s)) dim) := by
    intro s mem
    have inRange := List.mem_range.1 mem
    have count := counts s inRange
    rw [IvfIndex.buildCoarsePackedLayoutFromChildIds, if_neg, packedLayout_built]
    · rw [UInt32.toNat_ofNat', Nat.mod_eq_of_lt (by omega)]
    · rintro ⟨i, below, short⟩
      rw [size] at short
      have child := inside s inRange i below
      exact absurd (Nat.mul_le_mul_right dim.toNat (Nat.succ_le_of_lt child)) (Nat.not_le.2 short)
  refine ⟨_, by rw [IvfIndex.packChildren, mapM_eq_map each, Option.map_some], fun s inRange => ?_⟩
  rw [List.getD_eq_getElem?_getD, List.getElem?_map, List.getElem?_range inRange]
  rfl

/-- The children of a counting sort are rows, and no super has more of them than there are. -/
theorem placed_children {assign : ℕ → ℕ} {nlist nSuper : ℕ}
    (below : ∀ c, c < nlist → assign c < nSuper) :
    let offsets := CountingSort.prefixSums nSuper (CountingSort.counts assign nlist)
    let ids := (CountingSort.place assign nlist offsets).2
    (∀ s, s < nSuper → offsets (s + 1) - offsets s ≤ nlist) ∧
      ∀ s, s < nSuper → ∀ i, i < offsets (s + 1) - offsets s → ids (offsets s + i) < nlist := by
  intro offsets ids
  have starts : ∀ s, s ≤ nSuper → offsets s = CountingSort.bucketStart assign nlist s :=
    fun s inRange => CountingSort.prefixSums_counts _ inRange
  constructor
  · intro s inRange
    have top := CountingSort.bucketStart_mono assign nlist (show s + 1 ≤ nSuper by omega)
    rw [CountingSort.bucketStart_total below] at top
    rw [starts (s + 1) (by omega)]
    omega
  · intro s inRange i within
    have item : ids (offsets s + i) ∈ CountingSort.bucket assign nlist s := by
      rw [← CountingSort.placed_bucket below inRange]
      exact List.mem_map.2 ⟨i, List.mem_range.2 within, rfl⟩
    exact List.mem_range.1 (List.mem_of_mem_filter item)

theorem RoutingData.buildHierarchy_spec (data : RoutingData arith build idx) {nSuper : UInt32}
    {trained : FloatVec K} {assignments : List UInt32} (some : 0 < nSuper) (le : nSuper ≤ idx.nlist)
    (size : trained.size = nSuper.toNat * idx.dim.toNat)
    (length : assignments.length = idx.nlist.toNat) (inside : ∀ sid ∈ assignments, sid < nSuper) :
    ∃ h, idx.buildHierarchy arith build nSuper trained assignments = Option.some h ∧
      h.nSuper = nSuper ∧ HierarchyFits build idx.nlist idx.dim
        (idx.requestedMetric == "cosine") idx.searchTable.get h := by
  have small := idx.nlist.toNat_lt
  have below : ∀ c, c < idx.nlist.toNat → (assignments.getD c 0).toNat < nSuper.toNat := by
    intro c inRange
    rw [List.getD_eq_getElem _ _ (by omega)]
    exact UInt32.lt_iff_toNat_lt.1 (inside _ (List.getElem_mem (by omega)))
  have starts : ∀ s, s ≤ nSuper.toNat → CountingSort.prefixSums nSuper.toNat
      (CountingSort.counts (fun child => (assignments.getD child 0).toNat) idx.nlist.toNat) s =
      CountingSort.bucketStart (fun child => (assignments.getD child 0).toNat) idx.nlist.toNat s :=
    fun s inRange => CountingSort.prefixSums_counts _ inRange
  have buckets := fun s inRange => CountingSort.placed_bucket below (s := s) inRange
  have total := CountingSort.bucketStart_total below
  have items := CountingSort.buckets_perm below
  obtain ⟨counts, rows⟩ := placed_children below
  unfold IvfIndex.buildHierarchy
  dsimp only
  generalize (fun child => (assignments.getD child 0).toNat) = assign at *
  generalize CountingSort.prefixSums nSuper.toNat
    (CountingSort.counts assign idx.nlist.toNat) = offsets at *
  generalize (CountingSort.place assign idx.nlist.toNat offsets).2 = ids at *
  have ascending : ∀ s, s < nSuper.toNat → offsets s ≤ offsets (s + 1) := fun s inRange => by
    rw [starts s (by omega), starts (s + 1) (by omega)]
    exact CountingSort.bucketStart_mono _ _ (Nat.le_succ s)
  have plainSupers : ∀ get : ℕ → K,
      buildCoarsePackedLayout build ⟨trained.size, get⟩ nSuper idx.dim =
        Option.some (packedLayout build get nSuper idx.dim) := fun get => packedLayout_built size.ge
  obtain ⟨packed, packs, packedAt⟩ := packChildren_some build idx.dim
    data.centroids small counts rows
  have supers := plainSupers trained.get
  have normalizedSupers := plainSupers (IvfIndex.normalizedRows arith idx.dim.toNat trained.get)
  have partition : ∀ h : HierarchicalCoarseIndex K, h.nSuper = nSuper → h.childOffsets = offsets →
      h.childCentroidIds = ids → ChildPartition idx.nlist.toNat h := by
    intro h supersEq offsetsEq idsEq
    refine ⟨?_, ?_, ?_, ?_⟩
    · rw [offsetsEq, starts 0 (Nat.zero_le _)]
      rfl
    · rw [offsetsEq, supersEq, starts _ le_rfl, total]
    · rw [offsetsEq, supersEq]
      exact ascending
    · have same : (List.range h.nSuper.toNat).flatMap h.children =
          (List.range nSuper.toNat).flatMap (CountingSort.bucket assign idx.nlist.toNat) := by
        rw [supersEq]
        refine List.flatMap_congr fun s mem => ?_
        rw [HierarchicalCoarseIndex.children, offsetsEq, idsEq,
          buckets s (List.mem_range.1 mem)]
      rw [same]
      exact items
  change buildCoarsePackedLayout build trained nSuper idx.dim = _ at supers
  rw [supers, Option.bind_some, packs]
  by_cases cosine : idx.requestedMetric = "cosine"
  · have path : idx.cosinePath = true := by rw [data.cosinePath_eq]; exact decide_eq_true cosine
    have filled : 0 < idx.normalizedCentroids.size := by
      rw [data.normalized, if_pos cosine, data.centroids]
      exact data.size_pos
    have size' : idx.normalizedCentroids.size = idx.nlist.toNat * idx.dim.toNat := by
      rw [data.normalized, if_pos cosine, data.centroids]
    obtain ⟨packed', packs', packedAt'⟩ := packChildren_some build idx.dim
      size' small counts rows
    rw [if_pos path, normalizedSupers, Option.bind_some, Option.bind_some,
      if_pos (by rw [path, decide_eq_true filled]; rfl), packs', Option.map_some, Option.map_some]
    refine ⟨_, rfl, rfl, partition _ rfl rfl rfl, some, le, ⟨_, rfl⟩, .inr ⟨_, rfl⟩, ?_⟩
    intro s inRange
    rw [IvfIndex.childLayout, IvfIndex.searchTable, if_pos cosine]
    simp only [cosine, BEq.rfl, if_true]
    exact packedAt' s inRange
  · have path : idx.cosinePath = false := by rw [data.cosinePath_eq]; exact decide_eq_false cosine
    rw [path, if_neg Bool.false_ne_true, Option.bind_some, Option.bind_some, Bool.false_and,
      if_neg Bool.false_ne_true, Option.map_some]
    refine ⟨_, rfl, rfl, partition _ rfl rfl rfl, some, le, ⟨_, rfl⟩, .inl rfl, ?_⟩
    intro s inRange
    rw [IvfIndex.childLayout, IvfIndex.searchTable, if_neg cosine]
    exact packedAt s inRange

/-- **A hierarchy is built inside its tables**, where they have the size of the centroids. -/
theorem buildHierarchy_inside {nSuper : UInt32} {trained : FloatVec K} {assignments : List UInt32}
    (centroids : idx.centroids.size = idx.nlist.toNat * idx.dim.toNat)
    (normalized : idx.normalizedCentroids.size = 0 ∨
      idx.normalizedCentroids.size = idx.centroids.size)
    (size : trained.size = nSuper.toNat * idx.dim.toNat)
    (length : assignments.length = idx.nlist.toNat) (inside : ∀ sid ∈ assignments, sid < nSuper) :
    ∃ h, idx.buildHierarchy arith build nSuper trained assignments = some h := by
  have below : ∀ c, c < idx.nlist.toNat → (assignments.getD c 0).toNat < nSuper.toNat := by
    intro c inRange
    rw [List.getD_eq_getElem _ _ (by omega)]
    exact UInt32.lt_iff_toNat_lt.1 (inside _ (List.getElem_mem (by omega)))
  obtain ⟨counts, rows⟩ := placed_children below
  have supers : ∀ get : ℕ → K, buildCoarsePackedLayout build ⟨trained.size, get⟩ nSuper idx.dim =
      some (packedLayout build get nSuper idx.dim) := fun get => packedLayout_built size.ge
  obtain ⟨packed, packs, -⟩ := packChildren_some build idx.dim centroids idx.nlist.toNat_lt counts
    rows
  have supers' := supers trained.get
  change buildCoarsePackedLayout build trained nSuper idx.dim = _ at supers'
  unfold IvfIndex.buildHierarchy
  dsimp only at packs ⊢
  rw [supers', Option.bind_some, supers, packs]
  have plain : ∃ packedNormalizedSuper, (if idx.cosinePath = true then
      some (packedLayout build (IvfIndex.normalizedRows arith idx.dim.toNat trained.get) nSuper
        idx.dim)
      else some IvfIndex.emptyLayout) = some packedNormalizedSuper := by
    split
    · exact ⟨_, rfl⟩
    · exact ⟨_, rfl⟩
  obtain ⟨packedNormalizedSuper, plain⟩ := plain
  rw [plain, Option.bind_some, Option.bind_some]
  split
  next filled =>
    rw [Bool.and_eq_true, decide_eq_true_eq] at filled
    have same := (normalized.resolve_left filled.2.ne').trans centroids
    obtain ⟨packed', packs', -⟩ := packChildren_some build idx.dim same idx.nlist.toNat_lt counts
      rows
    rw [packs', Option.map_some, Option.map_some]
    exact ⟨_, rfl⟩
  next => exact ⟨_, rfl⟩

end Build

/-! ## Routing states -/

section Routing

variable {K : Type} [Field K] [LinearOrder K] (arith : ExactArith K) (build : Build)

/-- An index whose hierarchy, if it has one, is over its own rows. -/
structure RoutingState (idx : IvfIndex K) : Prop extends RoutingData arith build idx where
  hierarchy : ∀ h, idx.coarseHierarchy = some h →
    HierarchyFits build idx.nlist idx.dim (idx.requestedMetric == "cosine") idx.searchTable.get h

variable {arith build} {idx : IvfIndex K}

theorem u32_min_le_right (a b : UInt32) : min a b ≤ b := by
  change (if a ≤ b then a else b) ≤ b
  split
  · assumption
  · exact UInt32.le_refl b

omit [Field K] [LinearOrder K] in
theorem superCount_le (nprobe : UInt32) : idx.resolveTwoLevelSuperCount nprobe ≤ idx.nlist := by
  rw [IvfIndex.resolveTwoLevelSuperCount, defaultTwoLevelSuperCount]
  split
  · exact UInt32.zero_le
  · exact u32_min_le_right _ _

theorem RoutingState.keep (state : RoutingState arith build idx)
    {hierarchy : Option (HierarchicalCoarseIndex K)}
    (fits : ∀ h, hierarchy = some h → HierarchyFits build idx.nlist idx.dim
      (idx.requestedMetric == "cosine") idx.searchTable.get h) :
    RoutingState arith build { idx with coarseHierarchy := hierarchy } where
  toRoutingData :=
    { metric := state.metric
      dim_pos := state.dim_pos
      nlist_pos := state.nlist_pos
      centroids := state.centroids
      normalized := state.normalized
      packed := state.packed
      packedNormalized := state.packedNormalized
      ids := state.ids }
  hierarchy := fits

theorem RoutingData.newHierarchy_spec (data : RoutingData arith build idx) (kmeans : SuperKMeans K)
    {nSuper : UInt32} (le : nSuper ≤ idx.nlist) : ∃ hierarchy,
      idx.newHierarchy arith build kmeans nSuper = some hierarchy ∧
      ∀ h, hierarchy = some h → HierarchyFits build idx.nlist idx.dim
        (idx.requestedMetric == "cosine") idx.searchTable.get h := by
  have nothing : ∀ h : HierarchicalCoarseIndex K, none = some h → HierarchyFits build idx.nlist
      idx.dim (idx.requestedMetric == "cosine") idx.searchTable.get h := fun h impossible => by
    cases impossible
  unfold IvfIndex.newHierarchy
  by_cases empty : nSuper = 0 ∨ idx.nlist = 0 ∨ idx.centroids.size = 0
  · rw [if_pos empty]
    exact ⟨none, rfl, nothing⟩
  rw [if_neg empty]
  dsimp only
  have positive : 0 < nSuper := UInt32.pos_iff_ne_zero.2 fun zero => empty (.inl zero)
  generalize (if idx.cosinePath = true ∧ 0 < idx.normalizedCentroids.size then
    idx.normalizedCentroids else idx.centroids) = clustering
  split
  · exact ⟨none, rfl, nothing⟩
  split
  · exact ⟨none, rfl, nothing⟩
  split
  · exact ⟨none, rfl, nothing⟩
  next sizes =>
    split
    · exact ⟨none, rfl, nothing⟩
    split
    · exact ⟨none, rfl, nothing⟩
    next accepted =>
      rw [not_or, not_not] at accepted
      obtain ⟨h, built, _, fits⟩ := data.buildHierarchy_spec positive le (not_not.1 sizes)
        accepted.1 fun sid mem => UInt32.not_le.1 fun above => accepted.2 ⟨sid, mem, above⟩
      rw [built]
      exact ⟨some h, rfl, fun h' same => Option.some.inj same ▸ fits⟩

/-- Whatever the k-means returns, and whatever the index was opened on, the step reads inside its
tables: it checks the sizes before. -/
theorem ensureCoarseHierarchy_inside (normalized : idx.normalizedCentroids.size = 0 ∨
    idx.normalizedCentroids.size = idx.centroids.size) (kmeans : SuperKMeans K) (nprobe : UInt32) :
    ∃ idx', idx.ensureCoarseHierarchy arith build kmeans nprobe = some idx' := by
  rw [IvfIndex.ensureCoarseHierarchy]
  split
  · exact ⟨_, rfl⟩
  generalize idx.resolveTwoLevelSuperCount nprobe = nSuper
  have built : ∃ hierarchy, idx.newHierarchy arith build kmeans nSuper = some hierarchy := by
    unfold IvfIndex.newHierarchy
    split
    · exact ⟨_, rfl⟩
    dsimp only
    generalize picked : (if idx.cosinePath = true ∧ 0 < idx.normalizedCentroids.size then
      idx.normalizedCentroids else idx.centroids) = clustering
    split
    · exact ⟨_, rfl⟩
    next checked =>
      have centroids : idx.centroids.size = idx.nlist.toNat * idx.dim.toNat := by
        rw [not_not, ← picked] at checked
        split at checked
        next filled => rw [← checked, normalized.resolve_left filled.2.ne']
        next => exact checked
      split
      · exact ⟨_, rfl⟩
      split
      · exact ⟨_, rfl⟩
      next sizes =>
        split
        · exact ⟨_, rfl⟩
        split
        · exact ⟨_, rfl⟩
        next accepted =>
          rw [not_or, not_not] at accepted
          obtain ⟨h, built⟩ := buildHierarchy_inside centroids normalized (not_not.1 sizes)
            accepted.1 fun sid mem => UInt32.not_le.1 fun above => accepted.2 ⟨sid, mem, above⟩
          exact ⟨some h, by rw [built]; rfl⟩
  obtain ⟨hierarchy, built⟩ := built
  exact ⟨_, by rw [built]; rfl⟩

/-- The step keeps the routing state, and only touches the hierarchy. -/
theorem RoutingState.ensure_spec (state : RoutingState arith build idx) (kmeans : SuperKMeans K)
    (nprobe : UInt32) : ∃ hierarchy,
      idx.ensureCoarseHierarchy arith build kmeans nprobe =
        some { idx with coarseHierarchy := hierarchy } ∧
      RoutingState arith build { idx with coarseHierarchy := hierarchy } := by
  rw [IvfIndex.ensureCoarseHierarchy]
  split
  · exact ⟨idx.coarseHierarchy, rfl, state⟩
  · obtain ⟨hierarchy, built, fits⟩ := state.newHierarchy_spec kmeans (superCount_le nprobe)
    rw [built]
    exact ⟨hierarchy, rfl, state.keep fits⟩

end Routing

end VecFetch.Index
