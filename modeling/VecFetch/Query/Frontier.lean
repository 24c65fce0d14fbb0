/-
# Query.Frontier -- the estimate frontiers and the dynamic SafeIn state

The SafeOut frontier is the `topK`-th smallest upper bound `d_hat + e` merged so
far, the SafeIn frontier the `topK`-th smallest finite lower bound; each is the
front of a bounded heap.  The dynamic SafeIn state watches the SafeIn frontier
from cluster to cluster and decides when its threshold is used, and when
candidates are deferred instead of planned.
-/
import VecFetch.Theory.StdAlgo
import VecFetch.Query.Types

namespace VecFetch.Query

open VecFetch.Theory

set_option autoImplicit false

variable (std : StdAlgo) (env : Env)

/-! ## Frontier heaps -/

/-- `AddSafeOutFrontierEstimate`. -/
def addSafeOutFrontierEstimate (estimate : EstimateHeapEntry) (s : Sched) : Sched :=
  if !env.useEstimateFrontier || env.config.topK == 0 then s
  else
    let entry : SafeOutFrontierEntry :=
      { distance := estimate.distance
        errorBound := estimate.errorBound
        upperBound := estimate.distance.add estimate.errorBound }
    { s with safeoutFrontierHeap :=
        (std.addBounded SafeOutFrontierEntry.lt env.config.topK.toNat entry
          s.safeoutFrontierHeap).1 }

/-- `AddSafeInFrontierEstimate`. -/
def addSafeInFrontierEstimate (lowerBound : Flt) (s : Sched) : Sched :=
  if !env.useEstimateFrontier || env.config.topK == 0 || !lowerBound.isFinite then s
  else
    { s with safeinFrontierHeap :=
        (std.addBounded SafeInFrontierEntry.lt env.config.topK.toNat ⟨lowerBound⟩
          s.safeinFrontierHeap).1 }

/-- `SafeOutFrontierUpper`: infinite until the heap is full. -/
def safeOutFrontierUpper (s : Sched) : Flt :=
  if !env.useEstimateFrontier || env.config.topK == 0 ||
      decide (s.safeoutFrontierHeap.length < env.config.topK.toNat) then .posInf
  else
    match s.safeoutFrontierHeap with
    | [] => .posInf
    | front :: _ => front.upperBound

/-- `SafeInFrontierLower`: infinite until the heap is full. -/
def safeInFrontierLower (s : Sched) : Flt :=
  if !env.useEstimateFrontier || env.config.topK == 0 ||
      decide (s.safeinFrontierHeap.length < env.config.topK.toNat) then .posInf
  else
    match s.safeinFrontierHeap with
    | [] => .posInf
    | front :: _ => front.lowerBound

/-! ## Dynamic SafeIn -/

/-- The stable count after a finite frontier: one more if it lies within the
absolute or the relative tolerance of the last finite one, else one. -/
def nextStableCount (frontier : ℚ) (s : Sched) : UInt32 :=
  match s.dynamicSafeinLastFrontier with
  | .fin last =>
      let diff := |frontier - last|
      let denom := max |last| (1 / 1000000000000)
      if (Flt.fin diff).le env.config.dynamicSafeinAbsTol ||
          (Flt.fin (diff / denom)).le env.config.dynamicSafeinRelTol then
        s.dynamicSafeinStableCount + 1
      else 1
  | _ => 1

/-- `UpdateDynamicSafeInState`.  Both modes read the SafeIn frontier as their
reference (`DynamicSafeInReferenceFrontier`). -/
def updateDynamicSafeInState (advanceProbe : Bool) (s : Sched) : Sched :=
  if !env.useDynamicSafein then s
  else
    let probesSeen := if advanceProbe then s.dynamicSafeinProbesSeen + 1
      else s.dynamicSafeinProbesSeen
    let frontier := safeInFrontierLower env s
    let stableCount :=
      match frontier with
      | .fin f => nextStableCount env f s
      | _ => 0
    let lastFrontier := if frontier.isFinite then frontier else s.dynamicSafeinLastFrontier
    let ready :=
      match env.config.dynamicSafeinMode with
      | .static => true
      | .frontier =>
          frontier.isFinite && decide (env.config.dynamicSafeinMinProbes ≤ probesSeen) &&
            decide (max 1 env.config.dynamicSafeinStableProbes ≤ stableCount)
    { s with
      dynamicSafeinProbesSeen := probesSeen
      dynamicSafeinCurrentFrontier := frontier
      dynamicSafeinStableCount := stableCount
      dynamicSafeinLastFrontier := lastFrontier
      dynamicSafeinReady := ready }

/-- `SafeInThresholdForProbe`. -/
def safeInThresholdForProbe (s : Sched) : Flt :=
  match env.config.dynamicSafeinMode with
  | .static => env.safeinDk
  | .frontier =>
      if s.dynamicSafeinReady && s.dynamicSafeinCurrentFrontier.isFinite then
        s.dynamicSafeinCurrentFrontier
      else .negInf

/-- `ShouldDeferSafeInPlans`. -/
def shouldDeferSafeInPlans (s : Sched) : Bool :=
  if !env.useDynamicSafein then false
  else if env.config.dynamicSafeinDeferInitialClusters == 0 &&
      !env.config.dynamicSafeinDeferUntilReady then false
  else if decide (0 < env.config.dynamicSafeinDeferMaxCandidates) &&
      decide (env.config.dynamicSafeinDeferMaxCandidates.toNat ≤ s.deferredSafeInPlans.length)
      then false
  else if decide (0 < env.config.dynamicSafeinDeferInitialClusters) &&
      decide (s.dynamicSafeinProbesSeen ≤ env.config.dynamicSafeinDeferInitialClusters) then true
  else if s.dynamicSafeinSmallPoolExtraDefer &&
      decide (0 < env.config.dynamicSafeinDeferInitialClusters) &&
      decide (s.dynamicSafeinProbesSeen ≤ env.config.dynamicSafeinDeferInitialClusters + 1)
      then true
  else env.config.dynamicSafeinDeferUntilReady && !s.dynamicSafeinReady

/-- `ShouldHoldDeferredSafeInPlans`; a call may set or clear the small-pool flag. -/
def shouldHoldDeferredSafeInPlans (s : Sched) : Bool × Sched :=
  let initial := env.config.dynamicSafeinDeferInitialClusters
  if !env.useDynamicSafein then (false, s)
  else if s.deferredSafeInPlans.isEmpty then (false, s)
  else if decide (0 < initial) && decide (s.dynamicSafeinProbesSeen < initial) then (true, s)
  else
    let submitBatch := if env.config.submitBatchSize == 0 then 32 else env.config.submitBatchSize
    let smallPoolLimit := max 128 (submitBatch * 4)
    if decide (0 < initial) && decide (s.dynamicSafeinProbesSeen = initial) &&
        decide (s.deferredSafeInPlans.length < smallPoolLimit.toNat) then
      (true, { s with dynamicSafeinSmallPoolExtraDefer := true })
    else if env.config.dynamicSafeinDeferUntilReady && !s.dynamicSafeinReady then (true, s)
    else (false, { s with dynamicSafeinSmallPoolExtraDefer := false })

end VecFetch.Query
