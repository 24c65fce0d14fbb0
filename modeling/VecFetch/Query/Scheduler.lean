/-
# Query.Scheduler -- the sink and the probing loop

`AsyncIOSink` turns each candidate batch into plans, deferred plans or heap
entries and keeps the batch's estimates until its cluster is finalized.
`probeCluster` wraps one call of the prober; `probeResidentClusters` runs the
clusters in order, flushes the pending queues on its triggers, and empties the
deferred pool and the budget heap at the end.

The prober is a parameter: any function from a cluster and the two thresholds to
the batches it hands to the sink.  `IvfIndex::Open` accepts only single-assignment
indexes, so the sink's `skip_dedup_` is always true and its cross-batch dedup set
is never consulted.
-/
import VecFetch.Query.Pending

namespace VecFetch.Query

open VecFetch.Theory

set_option autoImplicit false

variable (std : StdAlgo) (env : Env)

/-- The prober's side of a cluster: the batches it emits for a SafeOut frontier and
a SafeIn threshold. -/
abbrev Prober (Cluster : Type) := Cluster → Flt → Flt → List CandidateBatch

/-! ## AsyncIOSink -/

/-- The lanes `ScanAndPartitionBatch` keeps: the first of each offset. -/
def uniqueLanes : List Candidate → List Candidate → List Candidate
  | kept, [] => kept
  | kept, lane :: rest =>
      if kept.any fun u => u.decodedAddr.offset == lane.decodedAddr.offset then
        uniqueLanes kept rest
      else uniqueLanes (kept ++ [lane]) rest

/-- A whole-record read: SafeIn and small enough. -/
def useVecAll (lane : Candidate) : Bool :=
  decide (lane.cls = .safeIn) && decide (lane.decodedAddr.size ≤ env.config.safeinAllThreshold)

/-- `BuildDeferredPlans`. -/
def buildDeferredPlans (lanes : List Candidate) (s : Sched) : Sched :=
  { s with deferredSafeInPlans := s.deferredSafeInPlans ++ lanes.map fun lane =>
      ⟨lane.decodedAddr, lane.estDist, lane.safeinUpperBound⟩ }

/-- `BuildReadPlans`: the whole-record lanes first, then the vector-only ones. -/
def buildReadPlans (lanes : List Candidate) (s : Sched) : Sched :=
  let s := (lanes.filter (useVecAll env)).foldl
    (fun s lane => addPlan std env (vecAllPlan lane.decodedAddr) lane.estDist s) s
  (lanes.filter fun lane => !useVecAll env lane).foldl
    (fun s lane => addPlan std env (vecOnlyPlan env lane.decodedAddr) lane.estDist s) s

/-- `OnCandidates`: the scheduler and the sink's buffered estimates. -/
def onCandidates (st : Sched × List EstimateHeapEntry) (batch : CandidateBatch) :
    Sched × List EstimateHeapEntry :=
  let lanes := uniqueLanes [] batch.lanes
  let estimates :=
    if env.useEstimateFrontier then
      st.2 ++ lanes.map fun lane => ⟨lane.estDist, lane.estError, lane.estimateLowerBound⟩
    else st.2
  if shouldDeferSafeInPlans env st.1 then (buildDeferredPlans lanes st.1, estimates)
  else (buildReadPlans std env lanes st.1, estimates)

/-- One buffered estimate reaches both frontiers. -/
def mergeEstimate (s : Sched) (estimate : EstimateHeapEntry) : Sched :=
  addSafeInFrontierEstimate std env estimate.lowerBound
    (addSafeOutFrontierEstimate std env estimate s)

/-- `FinalizeCluster`. -/
def finalizeCluster (st : Sched × List EstimateHeapEntry) : Sched :=
  st.2.foldl (mergeEstimate std env) st.1

/-! ## ProbeCluster -/

variable {Cluster : Type}

/-- The frontier the prober is given: infinite unless dynamic SafeOut is on. -/
def probeSafeOutFrontier (s : Sched) : Flt :=
  if env.useDynamicSafeout then safeOutFrontierUpper env s else .posInf

/-- The prober's batches for a cluster in a scheduler state. -/
def probeBatches (probe : Prober Cluster) (cluster : Cluster) (s : Sched) : List CandidateBatch :=
  let probed := updateDynamicSafeInState env true s
  probe cluster (probeSafeOutFrontier env s) (safeInThresholdForProbe env probed)

/-- The hold test and the flush at the end of a cluster. -/
def settleDeferred (s : Sched) : Sched :=
  let (hold, s) := shouldHoldDeferredSafeInPlans env s
  if hold then s
  else flushDeferredSafeInPlans std env (safeInThresholdForProbe env s) false s

/-- `ProbeCluster`. -/
def probeCluster (probe : Prober Cluster) (s : Sched) (cluster : Cluster) : Sched :=
  let sunk := (probeBatches env probe cluster s).foldl (onCandidates std env)
    (updateDynamicSafeInState env true s, [])
  settleDeferred std env (updateDynamicSafeInState env false (finalizeCluster std env sunk))

/-! ## ProbeResidentClusters -/

/-- `kCrossClusterSubmitInterval`. -/
def kCrossClusterSubmitInterval : UInt32 := 4

/-- `kPendingRequestFlushThreshold`. -/
def kPendingRequestFlushThreshold : UInt32 := 32

/-- The pending count that makes a batch ready. -/
def emitThreshold : UInt32 :=
  if env.config.submitBatchSize == 0 then 0xFFFFFFFF else env.config.submitBatchSize

/-- The scheduler and the two counters of the probing loop. -/
structure ProbeLoop where
  sched : Sched
  clustersSinceSubmit : UInt32
  clustersSinceBudgetedEarlySubmit : UInt32

/-- The early-submit step after a cluster. -/
def earlySubmitStep (st : ProbeLoop) : ProbeLoop :=
  if env.config.enableBudgetedEarlySubmit && env.useNonSafeOutCandidateBudget &&
      decide (env.config.nonSafeoutCandidateBudget.toNat ≤ st.sched.budgetedReadPlanHeap.length) &&
      decide (env.config.budgetedEarlySubmitIntervalClusters ≤ st.clustersSinceBudgetedEarlySubmit)
      then
    { st with
      sched := emitTopBudgetedReadPlans std env env.config.budgetedEarlySubmitCount st.sched
      clustersSinceBudgetedEarlySubmit := 0 }
  else st

/-- Emit everything pending and hand it to the kernel. -/
def flushPending (s : Sched) : Sched :=
  (emitPendingDataRequests std env (pendingDataRequestCount s) s).call
    (.submit env.isolatedSubmissionMode)

/-- The submit step after a cluster: one body for the isolated and the shared mode,
which differ in the reader they submit and poll. -/
def submitStep (finalCluster : Bool) (st : ProbeLoop) : ProbeLoop :=
  let count := pendingDataRequestCount st.sched
  let vecBatchReady := decide (emitThreshold env ≤ count)
  let intervalHit := decide (kCrossClusterSubmitInterval ≤ st.clustersSinceSubmit)
  let pendingPressure := decide (kPendingRequestFlushThreshold ≤ count)
  if (vecBatchReady || pendingPressure || (intervalHit && decide (emitThreshold env ≤ count)) ||
      finalCluster) && decide (0 < count) then
    { st with
      sched := (flushPending std env st.sched).call (.poll env.isolatedSubmissionMode)
      clustersSinceSubmit := 0 }
  else st

/-- The body of the loop for one cluster. -/
def probeStep (probe : Prober Cluster) (st : ProbeLoop) (cluster : Cluster) (finalCluster : Bool) :
    ProbeLoop :=
  submitStep std env finalCluster
    (earlySubmitStep std env
      { sched := probeCluster std env probe st.sched cluster
        clustersSinceSubmit := st.clustersSinceSubmit + 1
        clustersSinceBudgetedEarlySubmit := st.clustersSinceBudgetedEarlySubmit + 1 })

/-- The loop over the sorted clusters. -/
def probeLoop (probe : Prober Cluster) : ProbeLoop → List Cluster → ProbeLoop
  | st, [] => st
  | st, cluster :: rest =>
      probeLoop probe (probeStep std env probe st cluster rest.isEmpty) rest

/-- What follows the loop: the deferred pool and the budget heap are emptied and the
pending queues flushed once more. -/
def probeTail (s : Sched) : Sched :=
  let s := flushDeferredSafeInPlans std env (safeInThresholdForProbe env s) true s
  let s := materializeBudgetedReadPlans std env s
  if 0 < pendingDataRequestCount s then flushPending std env s else s

/-- `ProbeResidentClusters`. -/
def probeResidentClusters (probe : Prober Cluster) (clusters : List Cluster) (s : Sched) : Sched :=
  probeTail std env (probeLoop std env probe ⟨s, 0, 0⟩ clusters).sched

end VecFetch.Query
