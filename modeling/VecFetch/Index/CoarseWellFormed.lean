/-
# Index.CoarseWellFormed -- two-level routing in every run

One search keeps the routing state and returns distinct rows with their plain scores, in
ascending order, and no child of a probed super that it leaves out is better
(`RoutingState.search_spec`).  So does every search of every run of calls, exactly when the
32-bit counts of blocks do not wrap (`routing_wellFormed_iff`).
-/
import VecFetch.Index.CoarseRoutes
import VecFetch.Rabitq.RotationSound
import VecFetch.Theory.Trace

namespace VecFetch.Index

open VecFetch.Theory VecFetch.Simd VecFetch.Rabitq

set_option autoImplicit false

/-! ## The children of the probed supers -/

section Children

variable {K : Type} [Field K] [LinearOrder K] {arith : ExactArith K} {build : Build}
  {idx : IvfIndex K} {h : HierarchicalCoarseIndex K}

theorem NoWrap.mono {nlist dim : UInt32} (wide : NoWrap build nlist dim) (nlist' : UInt32)
    (le : nlist'.toNat ≤ nlist.toNat) : NoWrap build nlist' dim where
  rows := by
    have := wide.rows
    omega
  columns := wide.columns

/-- A super's children, with their plain scores. -/
def childEntries (arith : ExactArith K) (idx : IvfIndex K) (query : ℕ → K)
    (h : HierarchicalCoarseIndex K) (sid : ℕ) : List (CoarseTopKEntry K) :=
  (h.children sid).map fun row => ⟨idx.rowScore arith query row, row⟩

omit [Field K] in
theorem pushChildTopK_eq (std : StdAlgo) {capacity : ℕ} (positive : 0 < capacity)
    (heap : List (CoarseTopKEntry K)) (score : K) (child : ℕ) :
    pushChildTopK std capacity heap score child =
      (std.addBounded topKScoreLess capacity ⟨score, child⟩ heap).1 := if_neg (by omega)

variable (arith) (wide : NoWrap build idx.nlist idx.dim)
  (fits : HierarchyFits build idx.nlist idx.dim (idx.requestedMetric == "cosine")
    idx.searchTable.get h)

include wide fits

/-- A child's score in its super's layout is the plain score of its row. -/
theorem childScores_spec (query old : ℕ → K) {sid : ℕ} (inside : sid < h.nSuper.toNat) :
    ∃ scores, computeCoarseIPScores build
        (paddedQuery idx.dim.toNat ((numDimBlocks build idx.dim).toNat * kCoarseVecWidth build)
          (idx.searchQuery arith query))
        (IvfIndex.childLayout h (idx.requestedMetric == "cosine") sid)
        (UInt32.ofNat (h.childOffsets (sid + 1) - h.childOffsets sid)) old = some scores ∧
      ∀ i, i < h.childOffsets (sid + 1) - h.childOffsets sid →
        scores i = idx.rowScore arith query (h.childCentroidIds (h.childOffsets sid + i)) := by
  have small := idx.nlist.toNat_lt
  have top := fits.offset_le (show sid + 1 ≤ h.nSuper.toNat by omega)
  have count : (UInt32.ofNat (h.childOffsets (sid + 1) - h.childOffsets sid)).toNat =
      h.childOffsets (sid + 1) - h.childOffsets sid := by
    rw [UInt32.toNat_ofNat', Nat.mod_eq_of_lt (by omega)]
  rw [fits.children sid inside]
  obtain ⟨scores, computed, values⟩ := computeCoarseIPScores_spec
    (wide.mono (UInt32.ofNat (h.childOffsets (sid + 1) - h.childOffsets sid))
      (by rw [count]; omega)) (idx.searchQuery arith query)
    (fun t => idx.searchTable.get (h.childCentroidIds
      (h.childOffsets sid + t / idx.dim.toNat) * idx.dim.toNat + t % idx.dim.toNat)) old
  refine ⟨scores, computed, fun i within => ?_⟩
  rw [values, count, if_pos within, IvfIndex.rowScore, plainScore, plainScore]
  congr 1
  refine Finset.sum_congr rfl fun d column => ?_
  obtain ⟨row, rest⟩ := quotient (x := i) (Finset.mem_range.1 column)
  rw [row, rest]

theorem offerChildren_spec (std : SelectAlgo) (query : ℕ → K) {capacity : ℕ}
    (positive : 0 < capacity) {sid : ℕ} (inside : sid < h.nSuper.toNat)
    {st : (ℕ → K) × List (CoarseTopKEntry K)} {seen : List (CoarseTopKEntry K)}
    (small : std.Smallest topKScoreLess capacity seen st.2) : ∃ st',
      IvfIndex.offerChildren build std idx h
        (paddedQuery idx.dim.toNat ((numDimBlocks build idx.dim).toNat * kCoarseVecWidth build)
          (idx.searchQuery arith query)) capacity st sid = some st' ∧
      std.Smallest topKScoreLess capacity (seen ++ childEntries arith idx query h sid) st'.2 := by
  rw [IvfIndex.offerChildren]
  by_cases empty : h.childOffsets (sid + 1) - h.childOffsets sid = 0
  · rw [if_pos empty]
    refine ⟨st, rfl, ?_⟩
    rw [childEntries, HierarchicalCoarseIndex.children, empty]
    simpa using small
  · rw [if_neg empty]
    obtain ⟨scores, computed, values⟩ := childScores_spec arith wide fits query st.1 inside
    rw [computed, Option.map_some]
    refine ⟨_, rfl, ?_⟩
    have offered := StdAlgo.foldl_addBounded_smallest (childEntries arith idx query h sid)
      (topKScoreLess_order _) small
    have same : ∀ heap, (childEntries arith idx query h sid).foldl
        (fun heap x => (std.addBounded topKScoreLess capacity x heap).1) heap =
        (List.range (h.childOffsets (sid + 1) - h.childOffsets sid)).foldl
          (fun heap i => pushChildTopK std.toStdAlgo capacity heap (scores i)
            (h.childCentroidIds (h.childOffsets sid + i))) heap := by
      intro heap
      rw [childEntries, HierarchicalCoarseIndex.children, List.map_map, List.foldl_map]
      refine List.foldl_ext _ _ _ fun heap i mem => ?_
      rw [pushChildTopK_eq _ positive, values i (List.mem_range.1 mem)]
      rfl
    rwa [same] at offered

theorem gathered_spec (std : SelectAlgo) (query : ℕ → K) {capacity : ℕ} (positive : 0 < capacity)
    (supers : List ℕ) (inside : ∀ sid ∈ supers, sid < h.nSuper.toNat)
    {st : (ℕ → K) × List (CoarseTopKEntry K)} {seen : List (CoarseTopKEntry K)}
    (small : std.Smallest topKScoreLess capacity seen st.2) : ∃ st',
      supers.foldlM (IvfIndex.offerChildren build std idx h
        (paddedQuery idx.dim.toNat ((numDimBlocks build idx.dim).toNat * kCoarseVecWidth build)
          (idx.searchQuery arith query)) capacity) st = some st' ∧
      std.Smallest topKScoreLess capacity
        (seen ++ supers.flatMap (childEntries arith idx query h)) st'.2 := by
  induction supers generalizing st seen with
  | nil => exact ⟨st, rfl, by simpa using small⟩
  | cons sid rest ih =>
      obtain ⟨next, offered, small'⟩ := offerChildren_spec arith wide fits std query
        positive (inside sid List.mem_cons_self) small
      obtain ⟨last, gathered, small''⟩ := ih (fun sid mem => inside sid (List.mem_cons_of_mem _ mem))
        small'
      refine ⟨last, ?_, ?_⟩
      · rw [List.foldlM_cons, offered]
        exact gathered
      · rwa [List.flatMap_cons, ← List.append_assoc]

end Children

/-! ## One search -/

section Search

variable {K : Type} [Field K] [LinearOrder K] {arith : ExactArith K} {build : Build}
  {idx : IvfIndex K}

/-- What a search does: its result is well routed; it is the best of all centroids where no
supers were probed, and otherwise no child of a probed super is better. -/
structure SearchFits (arith : ExactArith K) (idx : IvfIndex K) (query : ℕ → K) (nprobe : UInt32)
    (routed : Routed K) : Prop extends WellRouted arith idx query nprobe routed where
  exact : routed.supers = none → NoneBetter arith idx query routed (List.range idx.nlist.toNat)
  probed : ∀ supers, routed.supers = some supers → ∃ h, idx.coarseHierarchy = some h ∧
    supers.Nodup ∧ ∀ sid ∈ supers, sid < h.nSuper.toNat ∧
      NoneBetter arith idx query routed (h.children sid)

theorem RoutingState.exact_fits (state : RoutingState arith build idx)
    (wide : NoWrap build idx.nlist idx.dim) (std : SelectAlgo) (scratch : CoarseScratch K)
    (query : ℕ → K) (nprobe : UInt32) : ∃ routed,
      IvfIndex.findNearestClustersExact arith build std scratch query idx nprobe = some routed ∧
      SearchFits arith idx query nprobe routed := by
  obtain ⟨routed, found, exact, routes, best⟩ :=
    state.exact_wellRouted wide std scratch query nprobe
  refine ⟨routed, found, routes, fun _ => best, fun supers some => ?_⟩
  rw [exact] at some
  cases some

theorem min_toNat_u32 (a b : UInt32) : (min a b).toNat = min a.toNat b.toNat := by
  change (if a ≤ b then a else b).toNat = _
  split
  next le => exact (Nat.min_eq_left (UInt32.le_iff_toNat_le.1 le)).symm
  next above =>
    exact (Nat.min_eq_right (UInt32.le_iff_toNat_le.1 (UInt32.le_of_lt (UInt32.not_le.1 above)))).symm

/-- The picks of the two-level search, from what it gathered. -/
theorem RoutingState.picks_fit (state : RoutingState arith build idx)
    {h : HierarchicalCoarseIndex K} (held : idx.coarseHierarchy = some h) {query : ℕ → K}
    {nprobe : UInt32} {supers : List ℕ} (distinct : supers.Nodup)
    (inside : ∀ sid ∈ supers, sid < h.nSuper.toNat)
    {picks : List (CoarseTopKEntry K)}
    (top : TopK topKScoreLess (min nprobe idx.nlist).toNat
      (supers.flatMap (childEntries arith idx query h)) picks)
    (many : (min nprobe idx.nlist).toNat ≤ (supers.flatMap h.children).length) :
    ∃ routed, idx.toIds picks (some supers) = some routed ∧
      SearchFits arith idx query nprobe routed := by
  have fits := state.hierarchy h held
  have entries : supers.flatMap (childEntries arith idx query h) =
      (supers.flatMap h.children).map fun row => ⟨idx.rowScore arith query row, row⟩ := by
    rw [List.map_flatMap]
    rfl
  have children : ∀ p ∈ picks, p.child ∈ supers.flatMap h.children ∧
      p.score = idx.rowScore arith query p.child := by
    intro p mem
    have seen := top.subset mem
    rw [entries] at seen
    obtain ⟨row, inChildren, rfl⟩ := List.mem_map.1 seen
    exact ⟨inChildren, rfl⟩
  have rows : ∀ p ∈ picks, p.child < idx.nlist.toNat := by
    intro p mem
    obtain ⟨sid, probed, child⟩ := List.mem_flatMap.1 (children p mem).1
    exact fits.child_lt (inside sid probed) child
  rw [toIds_some fun p mem => state.ids ▸ rows p mem]
  refine ⟨_, rfl, ⟨?_, rows, ?_, ?_, fun p mem => (children p mem).2, rfl⟩, fun exact => ?_, ?_⟩
  · change picks.length = _
    rw [top.length, entries, List.length_map, ← min_toNat_u32]
    exact Nat.min_eq_left many
  · obtain ⟨dropped, perm, _⟩ := top.split
    have all := fits.nodup distinct inside
    have same := perm.map CoarseTopKEntry.child
    rw [entries, List.map_map, List.map_append] at same
    have plain : (supers.flatMap h.children).map
        (CoarseTopKEntry.child ∘ fun row => (⟨idx.rowScore arith query row, row⟩ :
          CoarseTopKEntry K)) = supers.flatMap h.children := List.map_id _
    rw [plain] at same
    exact (List.nodup_append.1 (same.nodup_iff.2 all)).1
  · exact top.ascending.imp score_le_of_not_less
  · cases exact
  · intro supers' same
    obtain rfl := Option.some.inj same
    refine ⟨h, held, distinct, fun sid probed => ⟨inside sid probed, fun row child out p mem => ?_⟩⟩
    have seen : (⟨idx.rowScore arith query row, row⟩ : CoarseTopKEntry K) ∈
        supers.flatMap (childEntries arith idx query h) := by
      rw [entries]
      exact List.mem_map.2 ⟨row, List.mem_flatMap.2 ⟨sid, probed, child⟩, rfl⟩
    have notPicked : (⟨idx.rowScore arith query row, row⟩ : CoarseTopKEntry K) ∉ picks :=
      fun picked => out (List.mem_map.2 ⟨_, picked, rfl⟩)
    exact score_le_of_not_less (top.not_below seen notPicked mem)

/-- The layout the supers are scored in. -/
def superLayout (idx : IvfIndex K) (h : HierarchicalCoarseIndex K) : CoarsePackedLayout K :=
  if idx.requestedMetric == "cosine" && !h.packedNormalizedSuperCentroids.empty then
    h.packedNormalizedSuperCentroids
  else h.packedSuperCentroids

omit [LinearOrder K] in
theorem HierarchyFits.superLayout_eq {h : HierarchicalCoarseIndex K}
    (fits : HierarchyFits build idx.nlist idx.dim (idx.requestedMetric == "cosine")
      idx.searchTable.get h) :
    ∃ table, superLayout idx h = packedLayout build table h.nSuper idx.dim := by
  unfold superLayout
  split
  next filled =>
    rcases fits.normalizedSupers with empty | ⟨table, normalized⟩
    · rw [empty] at filled
      simp [CoarsePackedLayout.empty, IvfIndex.emptyLayout] at filled
    · exact ⟨table, normalized⟩
  · exact fits.supers

/-- The supers a search probes, by their scores. -/
def probedSupers (std : SelectAlgo) (scores : ℕ → K) (idx : IvfIndex K)
    (h : HierarchicalCoarseIndex K) (nprobe : UInt32) : List ℕ :=
  selectTopNProbeSmall std scores h.nSuper.toNat
    (IvfIndex.superProbe idx.nlist h.nSuper
      (idx.resolveTwoLevelCandidateBudget (min nprobe idx.nlist))).toNat

omit [Field K] in
theorem probedSupers_spec (std : SelectAlgo) (scores : ℕ → K) (idx : IvfIndex K)
    (h : HierarchicalCoarseIndex K) (nprobe : UInt32) :
    (probedSupers std scores idx h nprobe).Nodup ∧
      ∀ sid ∈ probedSupers std scores idx h nprobe, sid < h.nSuper.toNat := by
  have top := selectTopNProbeSmall_topK std scores h.nSuper.toNat
    (IvfIndex.superProbe idx.nlist h.nSuper
      (idx.resolveTwoLevelCandidateBudget (min nprobe idx.nlist))).toNat
  exact ⟨top.nodup List.nodup_range, fun sid mem => List.mem_range.1 (top.subset mem)⟩

/-- Too small a budget, or too few children, send the search back to all centroids. -/
def FallsBack (idx : IvfIndex K) (h : HierarchicalCoarseIndex K) (nprobe : UInt32)
    (supers : List ℕ) : Prop :=
  idx.resolveTwoLevelCandidateBudget (min nprobe idx.nlist) < min nprobe idx.nlist ∨
    (supers.flatMap h.children).length < (min nprobe idx.nlist).toNat

theorem RoutingData.asked_pos (data : RoutingData arith build idx) {nprobe : UInt32}
    (positive : nprobe ≠ 0) : 0 < (min nprobe idx.nlist).toNat := by
  have some := UInt32.lt_iff_toNat_lt.1 (UInt32.pos_iff_ne_zero.2 positive)
  have rows := UInt32.lt_iff_toNat_lt.1 data.nlist_pos
  rw [show UInt32.toNat 0 = 0 from rfl] at some rows
  rw [min_toNat_u32]
  omega

/-- What the two-level search does over a hierarchy, given a table its supers are packed from. -/
theorem RoutingState.routeTwoLevel_spec (state : RoutingState arith build idx)
    (wide : NoWrap build idx.nlist idx.dim) {h : HierarchicalCoarseIndex K}
    (held : idx.coarseHierarchy = some h) {table : ℕ → K}
    (layout : superLayout idx h = packedLayout build table h.nSuper idx.dim) (std : SelectAlgo)
    (scratch : CoarseScratch K) (query : ℕ → K) {nprobe : UInt32} (positive : nprobe ≠ 0) :
    ∃ scores : ℕ → K, (∀ sid, sid < h.nSuper.toNat →
        scores sid = plainScore idx.dim.toNat (idx.searchQuery arith query) table sid) ∧
      (FallsBack idx h nprobe (probedSupers std scores idx h nprobe) →
        IvfIndex.routeTwoLevel arith build std scratch query idx h nprobe =
          IvfIndex.findNearestClustersExact arith build std scratch query idx nprobe) ∧
      (¬ FallsBack idx h nprobe (probedSupers std scores idx h nprobe) → ∃ picks,
        TopK topKScoreLess (min nprobe idx.nlist).toNat
          ((probedSupers std scores idx h nprobe).flatMap (childEntries arith idx query h)) picks ∧
        IvfIndex.routeTwoLevel arith build std scratch query idx h nprobe =
          idx.toIds picks (some (probedSupers std scores idx h nprobe))) := by
  have fits := state.hierarchy h held
  have asked := state.asked_pos positive
  have narrow : NoWrap build h.nSuper idx.dim := wide.mono _ (UInt32.le_iff_toNat_le.1 fits.le)
  have supersSome : ¬ h.nSuper = 0 := UInt32.pos_iff_ne_zero.1 fits.some
  obtain ⟨scores, computed, values⟩ := computeCoarseIPScores_spec narrow
    (idx.searchQuery arith query) table scratch.superScores
  refine ⟨scores, fun sid inside => by rw [values, if_pos inside], ?_⟩
  obtain ⟨trained, packed⟩ := fits.supers
  have buffer := @RoutingData.queryBuffer_some _ _ _ arith build idx wide query
  have padded : h.packedSuperCentroids.packedDim =
      (numDimBlocks build idx.dim).toNat * kCoarseVecWidth build := by
    rw [packed]
    rfl
  rw [← layout, ← padded] at computed
  rw [← padded] at buffer
  unfold superLayout at computed
  obtain ⟨-, inside⟩ := probedSupers_spec std scores idx h nprobe
  have total : ((probedSupers std scores idx h nprobe).map fun sid =>
      h.childOffsets (sid + 1) - h.childOffsets sid).sum =
        ((probedSupers std scores idx h nprobe).flatMap h.children).length := by
    rw [List.length_flatMap]
    congr 1
    refine List.map_congr_left fun sid _ => ?_
    rw [HierarchicalCoarseIndex.children, List.length_map, List.length_range]
  unfold FallsBack
  unfold probedSupers at total inside ⊢
  rw [IvfIndex.routeTwoLevel]
  dsimp only
  by_cases few : idx.resolveTwoLevelCandidateBudget (min nprobe idx.nlist) < min nprobe idx.nlist
  · exact ⟨fun _ => if_pos (.inl few), fun not => absurd (.inl few) not⟩
  rw [if_neg (not_or.2 ⟨few, supersSome⟩), buffer, Option.bind_some, computed, Option.bind_some,
    total]
  by_cases short : ((selectTopNProbeSmall std scores h.nSuper.toNat
      (IvfIndex.superProbe idx.nlist h.nSuper
        (idx.resolveTwoLevelCandidateBudget (min nprobe idx.nlist))).toNat).flatMap
          h.children).length < (min nprobe idx.nlist).toNat
  · exact ⟨fun _ => if_pos short, fun not => absurd (.inr short) not⟩
  refine ⟨fun falls => absurd falls (not_or.2 ⟨few, short⟩), fun _ => ?_⟩
  rw [if_neg short]
  obtain ⟨gathered, gathers, small⟩ := gathered_spec arith wide fits std query asked _ inside
    (show std.Smallest topKScoreLess _ [] (scratch.childScores, []).2 from
      std.smallest_nil topKScoreLess _)
  rw [List.nil_append] at small
  rw [padded, gathers, Option.bind_some]
  have top := small.topK_sort (topKScoreLess_order _)
  refine ⟨_, top, ?_⟩
  have enough : ¬ gathered.2.length < (min nprobe idx.nlist).toNat := by
    have count := small.length_eq
    have entries : ∀ supers : List ℕ, (supers.flatMap (childEntries arith idx query h)).length =
        (supers.flatMap h.children).length := by
      intro supers
      rw [List.length_flatMap, List.length_flatMap]
      congr 1
      exact List.map_congr_left fun sid _ => List.length_map _
    rw [entries] at count
    omega
  have overlap : IvfIndex.readOverlap build scratch idx (paddedQuery idx.dim.toNat
      ((numDimBlocks build idx.dim).toNat * kCoarseVecWidth build)
      (idx.searchQuery arith query)) = some () := by
    rw [IvfIndex.readOverlap]
    split
    · obtain ⟨all, scored, _⟩ := computeCoarseIPScores_spec wide (idx.searchQuery arith query)
        idx.searchTable.get scratch.scores
      rw [state.layout_eq wide, scored]
      rfl
    · rfl
  rw [if_neg enough, overlap, Option.bind_some]

/-- **The two-level search over a hierarchy.** -/
theorem RoutingState.routeTwoLevel_fits (state : RoutingState arith build idx)
    (wide : NoWrap build idx.nlist idx.dim) {h : HierarchicalCoarseIndex K}
    (held : idx.coarseHierarchy = some h) (std : SelectAlgo) (scratch : CoarseScratch K)
    (query : ℕ → K) {nprobe : UInt32} (positive : nprobe ≠ 0) : ∃ routed,
      IvfIndex.routeTwoLevel arith build std scratch query idx h nprobe = some routed ∧
      SearchFits arith idx query nprobe routed := by
  obtain ⟨table, layout⟩ := (state.hierarchy h held).superLayout_eq
  obtain ⟨scores, -, falls, routes⟩ :=
    state.routeTwoLevel_spec wide held layout std scratch query positive
  obtain ⟨distinct, inside⟩ := probedSupers_spec std scores idx h nprobe
  by_cases back : FallsBack idx h nprobe (probedSupers std scores idx h nprobe)
  · rw [falls back]
    exact state.exact_fits wide std scratch query nprobe
  · obtain ⟨picks, top, routed⟩ := routes back
    rw [routed]
    exact state.picks_fit held distinct inside top (Nat.not_lt.1 (not_or.1 back).2)

/-- **A search**, on any index in a routing state: it only touches the hierarchy. -/
theorem RoutingState.search_spec (state : RoutingState arith build idx)
    (wide : NoWrap build idx.nlist idx.dim) (kmeans : SuperKMeans K) (std : SelectAlgo)
    (scratch : CoarseScratch K) (query : ℕ → K) (nprobe : UInt32) : ∃ hierarchy routed,
      IvfIndex.findNearestClusters arith build kmeans std scratch query idx nprobe =
        some ({ idx with coarseHierarchy := hierarchy }, routed) ∧
      RoutingState arith build { idx with coarseHierarchy := hierarchy } ∧
      SearchFits arith { idx with coarseHierarchy := hierarchy } query nprobe routed := by
  obtain ⟨routed, found, routes⟩ := state.exact_fits wide std scratch query nprobe
  rw [IvfIndex.findNearestClusters]
  split
  swap
  · rw [found]
    exact ⟨idx.coarseHierarchy, routed, rfl, state, routes⟩
  rw [IvfIndex.findNearestClustersTwoLevel]
  by_cases idle : nprobe = 0 ∨ idx.clusterIds = []
  · rw [if_pos idle, Option.bind_some, if_pos (.inr idle)]
    rw [IvfIndex.findNearestClustersExact, if_pos idle] at found
    exact ⟨idx.coarseHierarchy, routed, by rw [← Option.some.inj found], state, routes⟩
  · rw [if_neg idle]
    rw [not_or] at idle
    obtain ⟨hierarchy, ensured, state'⟩ := state.ensure_spec kmeans nprobe
    have two : ∃ routed, IvfIndex.routeWith arith build std scratch query
          { idx with coarseHierarchy := hierarchy } nprobe = some routed ∧
        SearchFits arith { idx with coarseHierarchy := hierarchy } query nprobe routed := by
      rw [IvfIndex.routeWith]
      split
      · exact state'.exact_fits wide std scratch query nprobe
      next h held => exact state'.routeTwoLevel_fits wide held std scratch query idle.1
    obtain ⟨routed', routes', fits'⟩ := two
    rw [ensured, Option.bind_some, routes', Option.map_some, Option.bind_some]
    refine ⟨hierarchy, ?_⟩
    split
    · exact ⟨routed', rfl, state', fits'⟩
    · obtain ⟨again, found', fits''⟩ := state'.exact_fits wide std scratch query nprobe
      rw [found']
      exact ⟨again, rfl, state', fits''⟩

end Search

/-! ## Runs -/

/-- A call on an open index.  What a k-means returns and what the scratch buffers hold may
differ from call to call. -/
inductive RoutingCall (K : Type)
  | setTwoLevel (enabled : Bool) (threshold superCount superFactor budgetFactor : UInt32)
      (exactOverlap : Bool)
  | setUseCoarseSelectSimd (enabled : Bool)
  | setUseCoarseSelectPhase2 (enabled : Bool)
  | prepare (kmeans : SuperKMeans K) (nprobe : UInt32)
  | search (kmeans : SuperKMeans K) (scratch : CoarseScratch K) (query : ℕ → K) (nprobe : UInt32)

section Runs

variable {K : Type} [Field K] [LinearOrder K] (arith : ExactArith K) (build : Build)
  (std : SelectAlgo)

/-- What a call does to the index. -/
def RoutingCall.apply (idx : IvfIndex K) : RoutingCall K → Option (IvfIndex K)
  | .setTwoLevel enabled threshold superCount superFactor budgetFactor exactOverlap =>
      some (idx.setTwoLevelCoarseRouting enabled threshold superCount superFactor budgetFactor
        exactOverlap)
  | .setUseCoarseSelectSimd enabled => some { idx with useCoarseSelectSimd := enabled }
  | .setUseCoarseSelectPhase2 enabled => some { idx with useCoarseSelectPhase2 := enabled }
  | .prepare kmeans nprobe => idx.prepareTwoLevelCoarseRouting arith build kmeans nprobe
  | .search kmeans scratch query nprobe =>
      (idx.findNearestClusters arith build kmeans std scratch query nprobe).map Prod.fst

/-- After any calls on an index of `nlist` centroids that has no hierarchy yet, the hierarchy
partitions the centroids and a search does what it should. -/
def RoutingWellFormed (nlist dim : UInt32) : Prop :=
  ∀ idx : IvfIndex K, RoutingData arith build idx → idx.nlist = nlist → idx.dim = dim →
    idx.coarseHierarchy = none → ∀ calls : List (RoutingCall K), ∃ reached,
      run (RoutingCall.apply arith build std) idx calls = some reached ∧
      ∀ kmeans scratch query nprobe, ∃ idx' routed,
        reached.findNearestClusters arith build kmeans std scratch query nprobe =
          some (idx', routed) ∧
        SearchFits arith idx' query nprobe routed ∧
        ∀ h, idx'.coarseHierarchy = some h → ChildPartition idx'.nlist.toNat h

variable {arith build std} {idx : IvfIndex K}

theorem RoutingState.setTwoLevel (state : RoutingState arith build idx) (enabled : Bool)
    (threshold superCount superFactor budgetFactor : UInt32) (exactOverlap : Bool) :
    RoutingState arith build (idx.setTwoLevelCoarseRouting enabled threshold superCount superFactor
      budgetFactor exactOverlap) where
  toRoutingData := { state.toRoutingData with }
  hierarchy := by
    intro h held
    rw [IvfIndex.setTwoLevelCoarseRouting] at held
    dsimp only at held
    split at held
    · cases held
    · exact state.hierarchy h held

/-- A call keeps the routing state and the rows. -/
theorem RoutingState.call (state : RoutingState arith build idx) (std : SelectAlgo)
    (wide : NoWrap build idx.nlist idx.dim) (c : RoutingCall K) : ∃ idx',
      c.apply arith build std idx = some idx' ∧ RoutingState arith build idx' ∧
      idx'.nlist = idx.nlist ∧ idx'.dim = idx.dim := by
  cases c with
  | setTwoLevel enabled threshold superCount superFactor budgetFactor exactOverlap =>
      exact ⟨_, rfl, state.setTwoLevel _ _ _ _ _ _, rfl, rfl⟩
  | setUseCoarseSelectSimd enabled =>
      exact ⟨_, rfl, ⟨{ state.toRoutingData with }, state.hierarchy⟩, rfl, rfl⟩
  | setUseCoarseSelectPhase2 enabled =>
      exact ⟨_, rfl, ⟨{ state.toRoutingData with }, state.hierarchy⟩, rfl, rfl⟩
  | prepare kmeans nprobe =>
      rw [RoutingCall.apply, IvfIndex.prepareTwoLevelCoarseRouting]
      split
      · obtain ⟨hierarchy, ensured, state'⟩ := state.ensure_spec kmeans nprobe
        exact ⟨_, ensured, state', rfl, rfl⟩
      · exact ⟨idx, rfl, state, rfl, rfl⟩
  | search kmeans scratch query nprobe =>
      obtain ⟨hierarchy, routed, found, state', _⟩ :=
        state.search_spec wide kmeans std scratch query nprobe
      rw [RoutingCall.apply, found]
      exact ⟨_, rfl, state', rfl, rfl⟩

theorem RoutingState.run (state : RoutingState arith build idx) (std : SelectAlgo)
    (wide : NoWrap build idx.nlist idx.dim) (calls : List (RoutingCall K)) : ∃ reached,
      Theory.run (RoutingCall.apply arith build std) idx calls = some reached ∧
      RoutingState arith build reached ∧ reached.nlist = idx.nlist ∧ reached.dim = idx.dim := by
  induction calls generalizing idx with
  | nil => exact ⟨idx, rfl, state, rfl, rfl⟩
  | cons c rest ih =>
      obtain ⟨next, called, state', rows, columns⟩ := state.call std wide c
      obtain ⟨reached, ran, last, rows', columns'⟩ := ih state' (by rwa [rows, columns])
      refine ⟨reached, ?_, last, rows'.trans rows, columns'.trans columns⟩
      rw [Theory.run, called]
      exact ran

/-! ## Where the counts of blocks wrap -/

/-- An index whose centroids are all ones. -/
def onesIndex (build : Build) (nlist dim : UInt32) : IvfIndex K where
  dim := dim
  nlist := nlist
  centroids := ⟨nlist.toNat * dim.toNat, fun _ => 1⟩
  normalizedCentroids := ⟨0, fun _ => 0⟩
  packedCentroids := packedLayout build (fun _ => 1) nlist dim
  packedNormalizedCentroids := IvfIndex.emptyLayout
  clusterIds := (List.range nlist.toNat).map UInt32.ofNat
  requestedMetric := "ip"
  effectiveMetric := "ip"
  useCoarseSelectSimd := true
  useCoarseSelectPhase2 := false
  useTwoLevelCoarseRouting := false
  twoLevelCoarseThreshold := 4096
  twoLevelCoarseSuperCount := 0
  twoLevelCoarseSuperFactor := 0
  twoLevelCoarseBudgetFactor := 8
  twoLevelCoarseExactOverlap := false
  coarseHierarchy := none

variable (arith build) in
theorem onesIndex_data {nlist dim : UInt32} (rows : 0 < nlist) (columns : 0 < dim) :
    RoutingData arith build (onesIndex (K := K) build nlist dim) where
  metric := rfl
  dim_pos := columns
  nlist_pos := rows
  centroids := rfl
  normalized := (if_neg (show ¬ "ip" = "cosine" by decide)).symm
  packed := rfl
  packedNormalized := (if_neg (show ¬ "ip" = "cosine" by decide)).symm
  ids := by rw [onesIndex, List.length_map, List.length_range]

end Runs

section Wraps

variable {K : Type} [Field K] [LinearOrder K] {arith : ExactArith K} {build : Build}
  {std : SelectAlgo}

omit [Field K] [LinearOrder K] in
theorem numCentroidBlocks_wrap {nlist : UInt32}
    (wraps : 2 ^ 32 ≤ nlist.toNat + (kCoarseCentroidBlock build - 1)) :
    numCentroidBlocks build nlist = 0 := by
  have below := nlist.toNat_lt
  have positive := block_pos build
  have small : kCoarseCentroidBlock build ≤ 8 := by cases build <;> decide
  refine UInt32.toNat_inj.1 ?_
  rw [numCentroidBlocks, UInt32.toNat_div, UInt32.toNat_sub, UInt32.toNat_add,
    UInt32.toNat_ofNat', Nat.mod_eq_of_lt (show kCoarseCentroidBlock build < 2 ^ 32 by omega),
    show UInt32.toNat 1 = 1 from rfl, show UInt32.toNat 0 = 0 from rfl]
  exact Nat.div_eq_of_lt (by omega)

theorem numDimBlocks_wrap {dim : UInt32}
    (wraps : 2 ^ 32 ≤ dim.toNat + (kCoarseVecWidth build - 1)) : numDimBlocks build dim = 0 := by
  have below := dim.toNat_lt
  have positive := width_pos build
  have small : kCoarseVecWidth build ≤ 16 := by cases build <;> decide
  refine UInt32.toNat_inj.1 ?_
  rw [numDimBlocks, UInt32.toNat_div, UInt32.toNat_sub, UInt32.toNat_add,
    UInt32.toNat_ofNat', Nat.mod_eq_of_lt (show kCoarseVecWidth build < 2 ^ 32 by omega),
    show UInt32.toNat 1 = 1 from rfl, show UInt32.toNat 0 = 0 from rfl]
  exact Nat.div_eq_of_lt (by omega)

/-- What the exact search picks has the scores it computed. -/
theorem exact_picks {idx : IvfIndex K} {scratch : CoarseScratch K} {query : ℕ → K}
    {nprobe : UInt32} {routed : Routed K} (asked : ¬ (nprobe = 0 ∨ idx.clusterIds = []))
    (found : IvfIndex.findNearestClustersExact arith build std scratch query idx nprobe =
      some routed) : ∃ scores,
    IvfIndex.exactScores arith build scratch query idx = some scores ∧
      ∀ p ∈ routed.picks, p.score = scores p.child := by
  rw [IvfIndex.findNearestClustersExact, if_neg asked] at found
  obtain ⟨scores, computed, picked⟩ := Option.bind_eq_some_iff.1 found
  obtain ⟨ids, _, rfl⟩ := Option.map_eq_some_iff.1 picked
  refine ⟨scores, computed, fun p mem => ?_⟩
  obtain ⟨row, _, rfl⟩ := List.mem_map.1 mem
  rfl

/-- Where the counts of centroid blocks wrap, a search for the first coordinate returns a
centroid with the score it found in the scratch buffer. -/
theorem onesIndex_noWrap {nlist dim : UInt32} (rows : 0 < nlist) (columns : 0 < dim)
    {kmeans : SuperKMeans K} {idx' : IvfIndex K} {routed : Routed K}
    (found : (onesIndex build nlist dim).findNearestClusters arith build kmeans std
      ⟨fun _ => 0, fun _ => 0, fun _ => 0⟩ (fun d => if d = 0 then 1 else 0) 1 =
        some (idx', routed))
    (fits : SearchFits arith idx' (fun d => if d = 0 then 1 else 0) 1 routed) :
    NoWrap build nlist dim := by
  have rows_pos := UInt32.lt_iff_toNat_lt.1 rows
  have columns_pos := UInt32.lt_iff_toNat_lt.1 columns
  rw [show UInt32.toNat 0 = 0 from rfl] at rows_pos columns_pos
  rw [IvfIndex.findNearestClusters, if_neg (by simp [onesIndex])] at found
  obtain ⟨routed', search, same⟩ := Option.map_eq_some_iff.1 found
  obtain ⟨rfl, rfl⟩ := Prod.mk.inj same
  have held : (onesIndex (K := K) build nlist dim).clusterIds ≠ [] := by
    intro none
    have length := (onesIndex_data arith build rows columns).ids
    rw [none, List.length_nil] at length
    exact absurd length (show 0 ≠ nlist.toNat by omega)
  obtain ⟨scores, computed, picked⟩ := exact_picks (by simp [held]) search
  have metric : ((onesIndex (K := K) build nlist dim).effectiveMetric == "ip") = true :=
    show ("ip" == "ip") = true by decide
  have plain : ¬ (onesIndex (K := K) build nlist dim).requestedMetric = "cosine" :=
    show ¬ "ip" = "cosine" by decide
  rw [IvfIndex.exactScores, if_pos metric] at computed
  obtain ⟨buffer, filled, scored⟩ := Option.bind_eq_some_iff.1 computed
  have wide : dim.toNat ≤ (numDimBlocks build dim).toNat * kCoarseVecWidth build := by
    rw [IvfIndex.queryBuffer] at filled
    split at filled
    · cases filled
    next enough => exact Nat.not_lt.1 enough
  refine ⟨Nat.not_le.1 fun wraps => ?_, Nat.not_le.1 fun wraps => ?_⟩
  · have unscored : scores = fun _ => 0 := by
      rw [computeCoarseIPScores, show (onesIndex (K := K) build nlist dim).nlist = nlist from rfl,
        numCentroidBlocks_wrap wraps] at scored
      exact (Option.some.inj scored).symm
    obtain ⟨p, rest, some⟩ := List.exists_cons_of_length_pos
      (show 0 < routed'.picks.length by
        rw [fits.count, show UInt32.toNat 1 = 1 from rfl]
        exact Nat.lt_min.2 ⟨Nat.one_pos, rows_pos⟩)
    have mem : p ∈ routed'.picks := some ▸ List.mem_cons_self
    have value := fits.scores p mem
    rw [picked p mem, unscored, IvfIndex.rowScore, IvfIndex.searchQuery, IvfIndex.searchTable,
      if_neg plain, if_neg plain, plainScore] at value
    simp [onesIndex, Finset.sum_ite_eq', columns_pos] at value
  · rw [numDimBlocks_wrap wraps, show UInt32.toNat 0 = 0 from rfl, Nat.zero_mul] at wide
    omega

end Wraps

/-- **Routing is well formed in every run of calls exactly when the 32-bit counts of blocks
do not wrap**: for every k-means, every scratch buffer, every query and every `nprobe`. -/
theorem routing_wellFormed_iff {K : Type} [Field K] [LinearOrder K] (arith : ExactArith K)
    (build : Build) (std : SelectAlgo) (nlist dim : UInt32) (rows : 0 < nlist)
    (columns : 0 < dim) :
    RoutingWellFormed arith build std nlist dim ↔ NoWrap build nlist dim := by
  constructor
  · intro wellFormed
    obtain ⟨reached, ran, fits⟩ := wellFormed (onesIndex build nlist dim)
      (onesIndex_data arith build rows columns) rfl rfl rfl []
    obtain rfl := Option.some.inj ran
    obtain ⟨idx', routed, found, search, _⟩ := fits ⟨fun _ _ _ _ => none, fun _ _ _ _ _ => none⟩
      ⟨fun _ => 0, fun _ => 0, fun _ => 0⟩ (fun d => if d = 0 then 1 else 0) 1
    exact onesIndex_noWrap rows columns found search
  · intro wide idx data rowsEq columnsEq fresh calls
    subst rowsEq columnsEq
    have start : RoutingState arith build idx :=
      ⟨data, fun h held => by rw [fresh] at held; cases held⟩
    obtain ⟨reached, ran, state, rowsEq, columnsEq⟩ := start.run std wide calls
    refine ⟨reached, ran, fun kmeans scratch query nprobe => ?_⟩
    obtain ⟨hierarchy, routed, found, state', search⟩ :=
      state.search_spec (by rwa [rowsEq, columnsEq]) kmeans std scratch query nprobe
    exact ⟨_, routed, found, search, fun h held => (state'.hierarchy h held).toChildPartition⟩

/-- The law for three centroids of five dimensions. -/
theorem routing_wellFormed_small :
    RoutingWellFormed realArith .avx2 SelectAlgo.reference 3 5 :=
  (routing_wellFormed_iff realArith .avx2 SelectAlgo.reference 3 5 (by decide) (by decide)).2
    ⟨by decide, by decide⟩

/-- With the most centroids a count holds, routing is not well formed. -/
theorem routing_not_wellFormed :
    ¬ RoutingWellFormed realArith .avx2 SelectAlgo.reference 4294967295 1 := by
  intro wellFormed
  obtain ⟨reached, ran, fits⟩ := wellFormed (onesIndex .avx2 4294967295 1)
    (onesIndex_data realArith .avx2 (by decide) (by decide)) rfl rfl rfl []
  obtain rfl := Option.some.inj ran
  obtain ⟨idx', routed, found, search, _⟩ := fits ⟨fun _ _ _ _ => none, fun _ _ _ _ _ => none⟩
    ⟨fun _ => 0, fun _ => 0, fun _ => 0⟩ (fun d => if d = 0 then 1 else 0) 1
  exact absurd (onesIndex_noWrap (by decide) (by decide) found search).rows (by decide)

end VecFetch.Index
