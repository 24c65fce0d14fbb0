/-
# Index.CoarseFullBudget -- two-level routing with a budget for every centroid

How many supers are probed follows from the average number of children, rounded up, so a budget
of all centroids need not reach every super.  The picks are then the best children of the supers
that were probed; they score as the exact selection does where every super with children was
(`fullBudget_scores`).
-/
import VecFetch.Index.CoarseWellFormed

namespace VecFetch.Index

open VecFetch.Theory VecFetch.Simd VecFetch.Rabitq

set_option autoImplicit false

/-- The scores of the picks, in order. -/
def Routed.scores {K : Type} (routed : Routed K) : List K := routed.picks.map CoarseTopKEntry.score

section Scores

variable {K : Type} [Field K] [LinearOrder K] {arith : ExactArith K} {build : Build}
  {idx : IvfIndex K}

/-- The exact search has the smallest scores of all rows. -/
theorem RoutingData.exact_scores (data : RoutingData arith build idx)
    (wide : NoWrap build idx.nlist idx.dim) (std : SelectAlgo) (scratch : CoarseScratch K)
    (query : ℕ → K) {nprobe : UInt32} (positive : nprobe ≠ 0) : ∃ routed,
      IvfIndex.findNearestClustersExact arith build std scratch query idx nprobe = some routed ∧
      routed.supers = none ∧ routed.scores = kSmallest (min nprobe idx.nlist).toNat
        ((List.range idx.nlist.toNat).map (idx.rowScore arith query)) := by
  have rows := UInt32.lt_iff_toNat_lt.1 data.nlist_pos
  rw [show UInt32.toNat 0 = 0 from rfl] at rows
  have held : idx.clusterIds ≠ [] := by
    intro none
    have length := data.ids
    rw [none, List.length_nil] at length
    omega
  obtain ⟨scores, computed, values⟩ := data.exactScores_spec wide scratch query
  rw [IvfIndex.findNearestClustersExact, if_neg (by simp [positive, held]), computed,
    Option.bind_some]
  dsimp only
  have top : ∃ order, (if idx.useCoarseSelectSimd && idx.useCoarseSelectPhase2 then
      selectTopNProbeSmallSpecialized std scores idx.nlist.toNat nprobe.toNat
      else selectTopNProbeSmall std scores idx.nlist.toNat nprobe.toNat) = order ∧
      TopK (scoreLess scores) nprobe.toNat (List.range idx.nlist.toNat) order := by
    refine ⟨_, rfl, ?_⟩
    split
    · exact selectTopNProbeSmallSpecialized_topK std scores _ _
    · exact selectTopNProbeSmall_topK std scores _ _
  obtain ⟨order, selected, top⟩ := top
  have inside : ∀ p ∈ order.map fun row => (⟨scores row, row⟩ : CoarseTopKEntry K),
      p.child < idx.clusterIds.length := by
    intro p mem
    obtain ⟨row, inOrder, rfl⟩ := List.mem_map.1 mem
    rw [data.ids]
    exact List.mem_range.1 (top.subset inOrder)
  rw [selected, toIds_some inside]
  refine ⟨_, rfl, rfl, ?_⟩
  have picked : (order.map fun row => (⟨scores row, row⟩ : CoarseTopKEntry K)).map
      CoarseTopKEntry.score = order.map scores := by
    rw [List.map_map]
    rfl
  have plain : (List.range idx.nlist.toNat).map scores =
      (List.range idx.nlist.toNat).map (idx.rowScore arith query) :=
    List.map_congr_left fun row mem => values row (List.mem_range.1 mem)
  have count : (min nprobe idx.nlist).toNat =
      min nprobe.toNat ((List.range idx.nlist.toNat).map (idx.rowScore arith query)).length := by
    rw [List.length_map, List.length_range, min_toNat_u32]
  have keys := TopK.map_key top
  rw [plain] at keys
  rw [Routed.scores, picked, keys, count, kSmallest_min]

/-- The picks among the children of some supers have their smallest scores. -/
theorem picks_scores {h : HierarchicalCoarseIndex K} {query : ℕ → K} {k : ℕ} {supers : List ℕ}
    {picks : List (CoarseTopKEntry K)}
    (top : TopK topKScoreLess k (supers.flatMap (childEntries arith idx query h)) picks) :
    picks.map CoarseTopKEntry.score =
      kSmallest k ((supers.flatMap h.children).map (idx.rowScore arith query)) := by
  have byScore : TopK (fun a b : CoarseTopKEntry K => decide (a.score < b.score)) k
      (supers.flatMap (childEntries arith idx query h)) picks :=
    top.mono fun a b notBelow => decide_eq_false (not_lt.2 (score_le_of_not_less notBelow))
  have entries : (supers.flatMap (childEntries arith idx query h)).map CoarseTopKEntry.score =
      (supers.flatMap h.children).map (idx.rowScore arith query) := by
    rw [List.map_flatMap, List.map_flatMap]
    refine List.flatMap_congr fun sid _ => ?_
    rw [childEntries, List.map_map]
    rfl
  rw [TopK.map_key byScore, entries]

omit [Field K] [LinearOrder K] in
/-- Supers that leave out none with children have all rows. -/
theorem ChildPartition.covered {nlist : ℕ} {h : HierarchicalCoarseIndex K}
    (parts : ChildPartition nlist h) {supers : List ℕ} (distinct : supers.Nodup)
    (inside : ∀ sid ∈ supers, sid < h.nSuper.toNat)
    (covers : ∀ sid, sid < h.nSuper.toNat → sid ∉ supers → h.children sid = []) :
    (supers.flatMap h.children).Perm (List.range nlist) := by
  have split : (supers ++ (List.range h.nSuper.toNat).filter (· ∉ supers)).Perm
      (List.range h.nSuper.toNat) := by
    refine (List.perm_ext_iff_of_nodup ?_ List.nodup_range).2 fun sid => ?_
    · refine List.nodup_append.2 ⟨distinct, List.nodup_range.filter _, ?_⟩
      rintro sid here other there rfl
      simpa [here] using (List.mem_filter.1 there).2
    · rw [List.mem_append, List.mem_filter, List.mem_range]
      constructor
      · rintro (probed | ⟨within, _⟩)
        · exact inside sid probed
        · exact within
      · intro within
        by_cases probed : sid ∈ supers
        · exact .inl probed
        · exact .inr ⟨within, by simpa using probed⟩
  have rest : ((List.range h.nSuper.toNat).filter (· ∉ supers)).flatMap h.children = [] := by
    refine List.flatMap_eq_nil_iff.2 fun sid mem => ?_
    obtain ⟨within, out⟩ := List.mem_filter.1 mem
    exact covers sid (List.mem_range.1 within) (by simpa using out)
  have whole := (split.flatMap_right h.children).trans parts.perm
  rwa [List.flatMap_append, rest, List.append_nil] at whole

/-- As many distinct supers as there are leave out none. -/
theorem all_probed {n : ℕ} {supers : List ℕ} (distinct : supers.Nodup)
    (inside : ∀ sid ∈ supers, sid < n) (many : supers.length = n) : ∀ sid, sid < n → sid ∈ supers := by
  have subset : supers ⊆ List.range n := fun sid mem => List.mem_range.2 (inside sid mem)
  have same := (distinct.subperm subset).perm_of_length_le (by rw [List.length_range, many])
  exact fun sid within => same.mem_iff.2 (List.mem_range.2 within)

end Scores

section FullBudget

variable {K : Type} [Field K] [LinearOrder K] {arith : ExactArith K} {build : Build}
  {idx : IvfIndex K}

/-- What a search whose budget is all centroids returns: the exact scores where it fell back or
every super with children was probed, and otherwise the best scores of the children of the supers
it probed. -/
structure FullBudget (arith : ExactArith K) (idx : IvfIndex K) (h : HierarchicalCoarseIndex K)
    (query : ℕ → K) (nprobe : UInt32) (routed exact : Routed K) : Prop where
  fallback : routed.supers = none → routed.scores = exact.scores
  probed : ∀ supers, routed.supers = some supers → supers.Nodup ∧
    (∀ sid ∈ supers, sid < h.nSuper.toNat) ∧
    supers.length = (IvfIndex.superProbe idx.nlist h.nSuper idx.nlist).toNat ∧
    routed.scores = kSmallest (min nprobe idx.nlist).toNat
      ((supers.flatMap h.children).map (idx.rowScore arith query)) ∧
    ((∀ sid, sid < h.nSuper.toNat → sid ∉ supers → h.children sid = []) →
      routed.scores = exact.scores)
  allSupers : IvfIndex.superProbe idx.nlist h.nSuper idx.nlist = h.nSuper →
    routed.scores = exact.scores

/-- **With a budget of all centroids the two-level search scores as the exact one, where the
supers it probes hold all children.** -/
theorem fullBudget_scores (state : RoutingState arith build idx)
    (wide : NoWrap build idx.nlist idx.dim) {h : HierarchicalCoarseIndex K}
    (held : idx.coarseHierarchy = some h) (std : SelectAlgo) (scratch : CoarseScratch K)
    (query : ℕ → K) {nprobe : UInt32}
    (full : idx.resolveTwoLevelCandidateBudget (min nprobe idx.nlist) = idx.nlist) :
    ∃ routed exact,
      IvfIndex.routeTwoLevel arith build std scratch query idx h nprobe = some routed ∧
      IvfIndex.findNearestClustersExact arith build std scratch query idx nprobe = some exact ∧
      FullBudget arith idx h query nprobe routed exact := by
  have rows := UInt32.pos_iff_ne_zero.1 state.nlist_pos
  have positive : nprobe ≠ 0 := by
    intro none
    have asked : min nprobe idx.nlist = 0 := by
      rw [← UInt32.toNat_inj, min_toNat_u32, none]
      exact Nat.zero_min _
    rw [IvfIndex.resolveTwoLevelCandidateBudget, asked, defaultTwoLevelCandidateBudget,
      if_pos (.inr rfl)] at full
    exact rows full.symm
  obtain ⟨exact, found, noSupers, best⟩ := state.exact_scores wide std scratch query positive
  have fits := state.hierarchy h held
  obtain ⟨table, layout⟩ := fits.superLayout_eq
  obtain ⟨scores, -, falls, routes⟩ :=
    state.routeTwoLevel_spec wide held layout std scratch query positive
  obtain ⟨distinct, inside⟩ := probedSupers_spec std scores idx h nprobe
  by_cases back : FallsBack idx h nprobe (probedSupers std scores idx h nprobe)
  · refine ⟨exact, exact, (falls back).trans found, found, ⟨fun _ => rfl, ?_, fun _ => rfl⟩⟩
    intro supers some
    rw [noSupers] at some
    cases some
  obtain ⟨picks, top, routed⟩ := routes back
  set supers := probedSupers std scores idx h nprobe with supersDef
  have probeLe : (IvfIndex.superProbe idx.nlist h.nSuper idx.nlist).toNat ≤ h.nSuper.toNat := by
    rw [IvfIndex.superProbe, min_toNat_u32]
    exact Nat.min_le_left _ _
  have length : supers.length = (IvfIndex.superProbe idx.nlist h.nSuper idx.nlist).toNat := by
    have count := (selectTopNProbeSmall_topK std scores h.nSuper.toNat
      (IvfIndex.superProbe idx.nlist h.nSuper
        (idx.resolveTwoLevelCandidateBudget (min nprobe idx.nlist))).toNat).length
    rw [full, List.length_range, Nat.min_eq_left probeLe] at count
    rw [supersDef, probedSupers, full]
    exact count
  have rowsInside : ∀ p ∈ picks, p.child < idx.clusterIds.length := by
    intro p mem
    obtain ⟨sid, probed, child⟩ := List.mem_flatMap.1 (top.subset mem)
    obtain ⟨row, isChild, rfl⟩ := List.mem_map.1 child
    rw [state.ids]
    exact fits.child_lt (inside sid probed) isChild
  rw [toIds_some rowsInside] at routed
  have covered : (∀ sid, sid < h.nSuper.toNat → sid ∉ supers → h.children sid = []) →
      picks.map CoarseTopKEntry.score = exact.scores := by
    intro covers
    rw [picks_scores top, best]
    exact kSmallest_perm ((fits.toChildPartition.covered distinct inside covers).map _)
  refine ⟨_, exact, routed, found, ⟨fun noneProbed => (by cases noneProbed), ?_, fun all => covered ?_⟩⟩
  · intro supers' same
    obtain rfl := Option.some.inj same
    exact ⟨distinct, inside, length, picks_scores top, covered⟩
  · rw [all] at length
    exact fun sid within out => absurd (all_probed distinct inside length sid within) out

end FullBudget

/-! ## A super that is left out -/

section FourRows

/-- What a hierarchy that is built has from the assignment. -/
theorem buildHierarchy_fields {K : Type} [Field K] [LinearOrder K] {arith : ExactArith K}
    {build : Build} {idx : IvfIndex K} {nSuper : UInt32} {trained : FloatVec K}
    {assignments : List UInt32} {h : HierarchicalCoarseIndex K}
    (built : idx.buildHierarchy arith build nSuper trained assignments = some h) :
    h.childOffsets = CountingSort.prefixSums nSuper.toNat
        (CountingSort.counts (fun child => (assignments.getD child 0).toNat) idx.nlist.toNat) ∧
      h.childCentroidIds = (CountingSort.place (fun child => (assignments.getD child 0).toNat)
        idx.nlist.toNat h.childOffsets).2 ∧
      buildCoarsePackedLayout build trained nSuper idx.dim = some h.packedSuperCentroids := by
  unfold IvfIndex.buildHierarchy at built
  dsimp only at built
  obtain ⟨supers, packed, built⟩ := Option.bind_eq_some_iff.1 built
  obtain ⟨normalizedSupers, _, built⟩ := Option.bind_eq_some_iff.1 built
  obtain ⟨children, _, built⟩ := Option.bind_eq_some_iff.1 built
  obtain ⟨normalizedChildren, _, rfl⟩ := Option.map_eq_some_iff.1 built
  exact ⟨rfl, rfl, packed⟩

/-- Four centroids: two on the first axis, and one to each side of it. -/
def fourRows : FloatVec ℝ := ⟨8, fun t => (([6, 0, 2, 0, 5, 20, 5, -20] : List ℤ).getD t 0 : ℤ)⟩

/-- Their three supers, each the mean of its children. -/
def threeSupers : FloatVec ℝ := ⟨6, fun t => (([4, 0, 5, 20, 5, -20] : List ℤ).getD t 0 : ℤ)⟩

/-- An index of four centroids, with three supers and a budget of all centroids. -/
noncomputable def fourIndex (hierarchy : Option (HierarchicalCoarseIndex ℝ)) : IvfIndex ℝ where
  dim := 2
  nlist := 4
  centroids := fourRows
  normalizedCentroids := ⟨0, fun _ => 0⟩
  packedCentroids := packedLayout .scalar fourRows.get 4 2
  packedNormalizedCentroids := IvfIndex.emptyLayout
  clusterIds := [0, 1, 2, 3]
  requestedMetric := "ip"
  effectiveMetric := "ip"
  useCoarseSelectSimd := true
  useCoarseSelectPhase2 := false
  useTwoLevelCoarseRouting := true
  twoLevelCoarseThreshold := 1
  twoLevelCoarseSuperCount := 3
  twoLevelCoarseSuperFactor := 0
  twoLevelCoarseBudgetFactor := 8
  twoLevelCoarseExactOverlap := false
  coarseHierarchy := hierarchy

theorem fourIndex_data (hierarchy : Option (HierarchicalCoarseIndex ℝ)) :
    RoutingData realArith .scalar (fourIndex hierarchy) where
  metric := rfl
  dim_pos := show (0 : UInt32) < 2 by decide
  nlist_pos := show (0 : UInt32) < 4 by decide
  centroids := rfl
  normalized := (if_neg (show ¬ "ip" = "cosine" by decide)).symm
  packed := rfl
  packedNormalized := (if_neg (show ¬ "ip" = "cosine" by decide)).symm
  ids := rfl

/-- A query along the first axis. -/
def axisQuery : ℕ → ℝ := fun d => if d = 0 then 1 else 0

theorem axis_score (table : ℕ → ℝ) (row : ℕ) : plainScore 2 axisQuery table row = -table (row * 2) := by
  simp [plainScore, axisQuery]

theorem fourIndex_rowScore (hierarchy : Option (HierarchicalCoarseIndex ℝ)) (row : ℕ) :
    (fourIndex hierarchy).rowScore realArith axisQuery row = -fourRows.get (row * 2) :=
  axis_score _ row

/-- A k-means that gives these supers. -/
def threeMeans : SuperKMeans ℝ where
  train _ _ _ _ := some threeSupers
  assign _ _ _ _ _ := some [0, 0, 1, 2]

/-- The hierarchy that is built from them. -/
theorem fourIndex_hierarchy :
    ∃ h, (fourIndex none).newHierarchy realArith .scalar threeMeans 3 = some (some h) ∧
      RoutingState realArith .scalar (fourIndex (some h)) ∧ h.nSuper = 3 ∧
      (h.children 1 = [2] ∧ h.children 2 = [3]) ∧
      superLayout (fourIndex (some h)) h = packedLayout .scalar threeSupers.get h.nSuper 2 := by
  obtain ⟨h, built, supers, fits⟩ := @RoutingData.buildHierarchy_spec ℝ _ _ realArith .scalar
    (fourIndex none) (fourIndex_data none) 3 threeSupers [0, 0, 1, 2]
    (by decide) (show (3 : UInt32) ≤ 4 by decide) rfl rfl (by simp)
  obtain ⟨offsets, ids, packed⟩ := buildHierarchy_fields built
  have state : RoutingState realArith .scalar (fourIndex (some h)) :=
    ⟨fourIndex_data (some h), fun h' same => Option.some.inj same ▸ fits⟩
  refine ⟨h, ?_, state, supers, ?_, ?_⟩
  · have empty : ¬ ((3 : UInt32) = 0 ∨ (fourIndex none).nlist = 0 ∨
        (fourIndex none).centroids.size = 0) := by
      rintro (supers | rows | size)
      · exact absurd supers (by decide)
      · exact absurd rows (show ¬ (4 : UInt32) = 0 by decide)
      · exact absurd size (show ¬ 8 = 0 by decide)
    have plain : ¬ ((fourIndex none).cosinePath = true ∧
        0 < (fourIndex none).normalizedCentroids.size) := fun both => absurd both.2 (lt_irrefl 0)
    have given : ¬ (([0, 0, 1, 2] : List UInt32).length ≠ (fourIndex none).nlist.toNat ∨
        ∃ sid ∈ ([0, 0, 1, 2] : List UInt32), 3 ≤ sid) :=
      show ¬ (4 ≠ 4 ∨ ∃ sid ∈ ([0, 0, 1, 2] : List UInt32), 3 ≤ sid) by decide
    rw [IvfIndex.newHierarchy, if_neg empty]
    dsimp only
    rw [if_neg plain, if_neg (show ¬ (fourIndex none).centroids.size ≠
      (fourIndex none).nlist.toNat * (fourIndex none).dim.toNat from not_not.2 rfl)]
    simp only [threeMeans]
    rw [if_neg (show ¬ threeSupers.size ≠ UInt32.toNat 3 * (fourIndex none).dim.toNat from
      not_not.2 rfl), if_neg given, built]
    rfl
  · unfold HierarchicalCoarseIndex.children
    rw [ids, offsets]
    exact ⟨by rfl, by rfl⟩
  · have plain : superLayout (fourIndex (some h)) h = h.packedSuperCentroids :=
      if_neg (show ¬ (("ip" == "cosine" && !h.packedNormalizedSuperCentroids.empty) = true) by
        simp)
    rw [plain, supers]
    rw [buildCoarsePackedLayout, if_neg (by rintro ⟨_, _, short⟩; exact absurd short (by decide))]
      at packed
    exact (Option.some.inj packed).symm

/-- The law for these centroids. -/
theorem fullBudget_scores_four :
    ∃ h, RoutingState realArith .scalar (fourIndex (some h)) ∧ ∃ routed exact,
      IvfIndex.routeTwoLevel realArith .scalar SelectAlgo.reference
        ⟨fun _ => 0, fun _ => 0, fun _ => 0⟩ axisQuery (fourIndex (some h)) h 1 = some routed ∧
      IvfIndex.findNearestClustersExact realArith .scalar SelectAlgo.reference
        ⟨fun _ => 0, fun _ => 0, fun _ => 0⟩ axisQuery (fourIndex (some h)) 1 = some exact ∧
      FullBudget realArith (fourIndex (some h)) h axisQuery 1 routed exact := by
  obtain ⟨h, -, state, -⟩ := fourIndex_hierarchy
  have wide : NoWrap .scalar 4 2 := ⟨by decide, by decide⟩
  exact ⟨h, state, fullBudget_scores state wide rfl SelectAlgo.reference _ _
    (show defaultTwoLevelCandidateBudget 4 (min 1 4) 8 = 4 by decide)⟩

/-- The exact search finds the first row, or one that scores as well. -/
theorem fourIndex_exact {h : HierarchicalCoarseIndex ℝ}
    (state : RoutingState realArith .scalar (fourIndex (some h))) :
    ∃ exact, IvfIndex.findNearestClustersExact realArith .scalar SelectAlgo.reference
        ⟨fun _ => 0, fun _ => 0, fun _ => 0⟩ axisQuery (fourIndex (some h)) 1 = some exact ∧
      ∃ e ∈ exact.picks, e.score ≤ -6 := by
  have wide : NoWrap .scalar 4 2 := ⟨by decide, by decide⟩
  obtain ⟨exact, found, _, wellRouted, best⟩ := state.exact_wellRouted wide SelectAlgo.reference
    ⟨fun _ => 0, fun _ => 0, fun _ => 0⟩ axisQuery 1
  obtain ⟨e, exactly⟩ := List.length_eq_one_iff.1
    (show exact.picks.length = 1 from wellRouted.count)
  have inPicks : e ∈ exact.picks := by simp [exactly]
  have row : (fourIndex (some h)).rowScore realArith axisQuery 0 = -6 := by
    rw [fourIndex_rowScore]
    norm_num [fourRows]
  refine ⟨exact, found, e, inPicks, ?_⟩
  by_cases picksFirst : e.child = 0
  · rw [wellRouted.scores e inPicks, picksFirst, row]
  · rw [← row]
    refine best 0 (List.mem_range.2 (show 0 < 4 by decide)) ?_ e inPicks
    simpa [exactly] using fun zero : 0 = e.child => picksFirst zero.symm

/-- The first super's mean is the worst, so only the others are probed, and the best centroid,
which is its child, is missed. -/
theorem full_budget_misses :
    ∃ h, (fourIndex none).newHierarchy realArith .scalar threeMeans 3 = some (some h) ∧
      RoutingState realArith .scalar (fourIndex (some h)) ∧
      (fourIndex (some h)).resolveTwoLevelCandidateBudget (min 1 4) = (fourIndex (some h)).nlist ∧
      ∃ routed exact,
        IvfIndex.routeTwoLevel realArith .scalar SelectAlgo.reference
          ⟨fun _ => 0, fun _ => 0, fun _ => 0⟩ axisQuery (fourIndex (some h)) h 1 = some routed ∧
        IvfIndex.findNearestClustersExact realArith .scalar SelectAlgo.reference
          ⟨fun _ => 0, fun _ => 0, fun _ => 0⟩ axisQuery (fourIndex (some h)) 1 = some exact ∧
        routed.scores ≠ exact.scores := by
  have wide : NoWrap .scalar 4 2 := ⟨by decide, by decide⟩
  obtain ⟨h, built, state, supers, children, layout⟩ := fourIndex_hierarchy
  refine ⟨h, built, state, show defaultTwoLevelCandidateBudget 4 (min 1 4) 8 = 4 by decide, ?_⟩
  obtain ⟨scores, values, -, routes⟩ := state.routeTwoLevel_spec wide rfl layout
    SelectAlgo.reference ⟨fun _ => 0, fun _ => 0, fun _ => 0⟩ axisQuery
    (show (1 : UInt32) ≠ 0 by decide)
  have top : TopK (scoreLess scores) 2 (List.range 3)
      (probedSupers SelectAlgo.reference scores (fourIndex (some h)) h 1) := by
    have two : IvfIndex.superProbe (fourIndex (some h)).nlist 3
        ((fourIndex (some h)).resolveTwoLevelCandidateBudget
          (min 1 (fourIndex (some h)).nlist)) = 2 :=
      show IvfIndex.superProbe 4 3 (defaultTwoLevelCandidateBudget 4 (min 1 4) 8) = 2 by decide
    rw [probedSupers, supers, two]
    exact selectTopNProbeSmall_topK SelectAlgo.reference scores 3 2
  have superScore : ∀ sid, sid < 3 → scores sid = -threeSupers.get (sid * 2) := by
    intro sid inside
    rw [values sid (by rw [supers]; exact inside)]
    exact axis_score _ sid
  generalize probedSupers SelectAlgo.reference scores (fourIndex (some h)) h 1 = probed
    at top routes
  have length : probed.length = 2 := top.length
  -- the first super scores worst of the three
  have first_out : 0 ∉ probed := by
    refine top.not_mem_of_worst List.nodup_range (by decide) ?_
    intro sid mem other
    have inside := List.mem_range.1 mem
    rw [scoreLess, decide_eq_true_eq, superScore sid inside, superScore 0 (by decide)]
    have later : sid = 1 ∨ sid = 2 := by omega
    rcases later with rfl | rfl <;> norm_num [threeSupers]
  have later : ∀ sid ∈ probed, sid = 1 ∨ sid = 2 := by
    intro sid mem
    have inside := List.mem_range.1 (top.subset mem)
    have nonzero : sid ≠ 0 := fun zero => first_out (zero ▸ mem)
    omega
  have single : ∀ sid ∈ probed, ∃ row, (row = 2 ∨ row = 3) ∧ h.children sid = [row] := by
    intro sid mem
    rcases later sid mem with rfl | rfl
    · exact ⟨2, .inl rfl, children.1⟩
    · exact ⟨3, .inr rfl, children.2⟩
  have stays : ¬ FallsBack (fourIndex (some h)) h 1 probed := by
    rintro (few | short)
    · exact absurd few (show ¬ defaultTwoLevelCandidateBudget 4 (min 1 4) 8 < min 1 4 by decide)
    · obtain ⟨sid, rest, rfl⟩ := List.exists_cons_of_length_pos (show 0 < probed.length by omega)
      obtain ⟨row, _, only⟩ := single sid List.mem_cons_self
      rw [List.flatMap_cons, only, List.length_append] at short
      exact absurd short (show ¬ 1 + _ < 1 by omega)
  obtain ⟨picks, picked, routed⟩ := routes stays
  have entry : ∀ p ∈ picks, p.child < 4 ∧ p.score = -5 := by
    intro p mem
    obtain ⟨sid, inProbed, child⟩ := List.mem_flatMap.1 (picked.subset mem)
    obtain ⟨row, isRow, only⟩ := single sid inProbed
    rw [childEntries, only, List.map_singleton, List.mem_singleton] at child
    subst child
    rw [fourIndex_rowScore]
    rcases isRow with rfl | rfl <;> norm_num [fourRows]
  have rows : ∀ p ∈ picks, p.child < (fourIndex (some h)).clusterIds.length :=
    fun p mem => (entry p mem).1
  rw [toIds_some rows] at routed
  obtain ⟨exact, found, e, inPicks, atMost⟩ := fourIndex_exact state
  refine ⟨_, exact, routed, found, fun same => ?_⟩
  have score : e.score ∈ picks.map CoarseTopKEntry.score := by
    change picks.map CoarseTopKEntry.score = exact.picks.map CoarseTopKEntry.score at same
    rw [same]
    exact List.mem_map_of_mem inPicks
  obtain ⟨p, mem, sameScore⟩ := List.mem_map.1 score
  rw [← sameScore, (entry p mem).2] at atMost
  norm_num at atMost

end FourRows

end VecFetch.Index
