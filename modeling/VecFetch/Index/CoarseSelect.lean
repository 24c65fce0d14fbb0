/-
# Index.CoarseSelect -- the nearest `nprobe` of all scores

Partition and sort, a bounded heap built in place, and the partition written out in the search
itself pick different rows where scores tie, but each picks the best rows, in ascending order,
and all three the same scores (`selections_correct`).  Scores are values of a linear order, as
floats are that are not NaN.
-/
import VecFetch.Index.CoarseRoutes

namespace VecFetch.Index

open VecFetch.Theory

set_option autoImplicit false

section Select

variable {K : Type} [LinearOrder K] (std : SelectAlgo) (scores : ℕ → K)

/-- The selection of `FindNearestClusters` without the SIMD routines. -/
def selectInline (nlist nprobe : ℕ) : List ℕ :=
  let actualNprobe := min nprobe nlist
  let order := List.range nlist
  let order :=
    if actualNprobe < nlist then std.nthElement (scoreLess scores) actualNprobe order else order
  std.sort (scoreLess scores) (order.take actualNprobe)

/-- The best `nprobe` of `nlist` rows, ascending. -/
structure Selects (nlist nprobe : ℕ) (order : List ℕ) : Prop where
  length : order.length = min nprobe nlist
  rows : ∀ i ∈ order, i < nlist
  distinct : order.Nodup
  ascending : order.Pairwise fun i j => scores i ≤ scores j
  best : ∀ i, i < nlist → i ∉ order → ∀ j ∈ order, scores j ≤ scores i

variable {scores}

theorem selects_of_topK {nlist nprobe : ℕ} {order : List ℕ}
    (top : TopK (scoreLess scores) nprobe (List.range nlist) order) :
    Selects scores nlist nprobe order where
  length := by rw [top.length, List.length_range]
  rows i mem := List.mem_range.1 (top.subset mem)
  distinct := top.nodup List.nodup_range
  ascending := top.ascending.imp fun notBelow => by simpa [scoreLess] using notBelow
  best i inside out j mem := by
    simpa [scoreLess] using top.not_below (List.mem_range.2 inside) out mem

variable (scores)

/-- **Each selection picks the best rows**, and all pick the same scores. -/
theorem selections_correct (nlist nprobe : ℕ) :
    Selects scores nlist nprobe (selectTopNProbeSmall std scores nlist nprobe) ∧
      Selects scores nlist nprobe (selectTopNProbeSmallSpecialized std scores nlist nprobe) ∧
      Selects scores nlist nprobe (selectInline std scores nlist nprobe) ∧
      (selectTopNProbeSmallSpecialized std scores nlist nprobe).map scores =
        (selectTopNProbeSmall std scores nlist nprobe).map scores ∧
      (selectInline std scores nlist nprobe).map scores =
        (selectTopNProbeSmall std scores nlist nprobe).map scores := by
  have small := selectTopNProbeSmall_topK std scores nlist nprobe
  have special := selectTopNProbeSmallSpecialized_topK std scores nlist nprobe
  have inline : TopK (scoreLess scores) nprobe (List.range nlist)
      (selectInline std scores nlist nprobe) := small
  refine ⟨selects_of_topK small, selects_of_topK special, selects_of_topK inline, ?_, ?_⟩
  · exact (TopK.map_key special).trans (TopK.map_key small).symm
  · exact (TopK.map_key inline).trans (TopK.map_key small).symm

end Select

end VecFetch.Index
