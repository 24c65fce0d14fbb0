/-
# Query.Types -- what the query scheduler reads, queues and prepares

Addresses, candidate batches, search settings and the query-local state of
`OverlapScheduler`.  Timers and counters of `SearchStats`, the benchmark-only truth
flags and the slot and buffer bookkeeping steer nothing here and are left out.
-/
import VecFetch.Common.Flt

namespace VecFetch.Query

set_option autoImplicit false

/-- Physical address of a record in the data file. -/
structure AddressEntry where
  offset : UInt64
  size : UInt32
  deriving DecidableEq

/-- Classification of a candidate the prober did not drop. -/
inductive CandidateClass where
  | safeIn
  | uncertain
  deriving DecidableEq

/-- One lane of a `CandidateBatch`. -/
structure Candidate where
  globalIdx : Nat
  estDist : Flt
  estError : Flt
  estimateLowerBound : Flt
  safeinUpperBound : Flt
  cls : CandidateClass
  decodedAddr : AddressEntry
  deriving DecidableEq

/-- `CandidateBatch::kMaxCandidates`. -/
def kMaxCandidates : Nat := 32

structure CandidateBatch where
  lanes : List Candidate
  count_le : lanes.length ≤ kMaxCandidates

inductive SubmissionMode where
  | shared
  | isolated
  deriving DecidableEq

inductive DynamicSafeInMode where
  | static
  | frontier
  deriving DecidableEq

/-- The settings of `SearchConfig` that steer probing and reading. -/
structure SearchConfig where
  topK : UInt32 := 10
  safeinAllThreshold : UInt32 := 256 * 1024
  submissionMode : SubmissionMode := .shared
  enableDynamicSafeout : Bool := true
  dynamicSafeinMode : DynamicSafeInMode := .static
  dynamicSafeinMinProbes : UInt32 := 0
  dynamicSafeinStableProbes : UInt32 := 2
  dynamicSafeinRelTol : Flt := .fin (5 / 1000)
  dynamicSafeinAbsTol : Flt := .fin 0
  dynamicSafeinDeferInitialClusters : UInt32 := 0
  dynamicSafeinDeferUntilReady : Bool := false
  dynamicSafeinDeferMaxCandidates : UInt32 := 0
  submitBatchSize : UInt32 := 32
  enableVecReadAddressSort : Bool := false
  vecReadAddressSortWindow : UInt32 := 64
  enableBudgetedEarlySubmit : Bool := false
  budgetedEarlySubmitIntervalClusters : UInt32 := 32
  budgetedEarlySubmitCount : UInt32 := 64
  budgetedEarlySubmitMax : UInt32 := 128
  enableStage1Safein : Bool := true
  enableStage1BlockSkipEnvelope : Bool := false
  enableStage2CollectBlockFirst : Bool := true
  enableStage2ScatterBatchClassify : Bool := true
  nonSafeoutCandidateBudget : UInt32 := 0

/-- What the scheduler is built with: its settings, the index's static SafeIn
threshold, the vector bytes of a record, and whether the two readers differ. -/
structure Env where
  config : SearchConfig
  safeinDk : Flt
  vecBytes : UInt32
  separateReaders : Bool

namespace Env

def useDynamicSafeout (env : Env) : Bool := env.config.enableDynamicSafeout

def useDynamicSafein (env : Env) : Bool := decide (env.config.dynamicSafeinMode ≠ .static)

def useEstimateFrontier (env : Env) : Bool := env.useDynamicSafeout || env.useDynamicSafein

def isolatedSubmissionMode (env : Env) : Bool :=
  env.separateReaders || decide (env.config.submissionMode = .isolated)

def useNonSafeOutCandidateBudget (env : Env) : Bool :=
  decide (0 < env.config.nonSafeoutCandidateBudget)

end Env

/-! ## Plans and reads -/

/-- `PendingIO::Type`. -/
inductive ReadType where
  | vecOnly
  | vecAll
  | payload
  deriving DecidableEq

/-- A prepared read. -/
structure PendingIO where
  type : ReadType
  addr : AddressEntry
  readOffset : UInt64
  readLength : UInt32
  deriving DecidableEq

structure ReadPlanEntry where
  type : ReadType
  addr : AddressEntry
  readLength : UInt32
  deriving DecidableEq

structure VecOnlyReadPlan where
  addr : AddressEntry
  deriving DecidableEq

structure DeferredSafeInPlan where
  addr : AddressEntry
  rankKey : Flt
  safeinUpperBound : Flt
  deriving DecidableEq

structure BudgetedReadPlan where
  rankKey : Flt
  plan : ReadPlanEntry
  deriving DecidableEq

/-- `BudgetedReadPlan::operator<`. -/
def BudgetedReadPlan.lt (a b : BudgetedReadPlan) : Bool := a.rankKey.lt b.rankKey

structure EstimateHeapEntry where
  distance : Flt
  errorBound : Flt
  lowerBound : Flt
  deriving DecidableEq

structure SafeOutFrontierEntry where
  distance : Flt
  errorBound : Flt
  upperBound : Flt
  deriving DecidableEq

/-- `SafeOutFrontierEntry::operator<`. -/
def SafeOutFrontierEntry.lt (a b : SafeOutFrontierEntry) : Bool := a.upperBound.lt b.upperBound

structure SafeInFrontierEntry where
  lowerBound : Flt
  deriving DecidableEq

/-- `SafeInFrontierEntry::operator<`. -/
def SafeInFrontierEntry.lt (a b : SafeInFrontierEntry) : Bool := a.lowerBound.lt b.lowerBound

/-- The calls the scheduler makes on its readers while it probes. -/
inductive IoCall where
  | prepRead (io : PendingIO)
  | submit (dataReader : Bool)
  | poll (dataReader : Bool)
  deriving DecidableEq

/-- The read a call prepares. -/
def IoCall.prepared? : IoCall → Option PendingIO
  | .prepRead io => some io
  | _ => none

/-- The query-local state of `OverlapScheduler`, reset by every `Search`. -/
structure Sched where
  pendingAllPlans : List ReadPlanEntry := []
  pendingVecOnlyPlans : List VecOnlyReadPlan := []
  deferredSafeInPlans : List DeferredSafeInPlan := []
  budgetedReadPlanHeap : List BudgetedReadPlan := []
  emittedBudgetedOffsets : List UInt64 := []
  budgetedEarlySubmittedCount : UInt32 := 0
  pendingVecOnlyHead : Nat := 0
  safeoutFrontierHeap : List SafeOutFrontierEntry := []
  safeinFrontierHeap : List SafeInFrontierEntry := []
  dynamicSafeinProbesSeen : UInt32 := 0
  dynamicSafeinStableCount : UInt32 := 0
  dynamicSafeinReady : Bool := false
  dynamicSafeinSmallPoolExtraDefer : Bool := false
  dynamicSafeinLastFrontier : Flt := .posInf
  dynamicSafeinCurrentFrontier : Flt := .posInf
  /-- Every reader call so far, oldest first. -/
  calls : List IoCall := []

namespace Sched

/-- The reads prepared so far, in order. -/
def emitted (s : Sched) : List PendingIO :=
  s.calls.filterMap IoCall.prepared?

/-- Record a reader call. -/
def call (c : IoCall) (s : Sched) : Sched := { s with calls := s.calls ++ [c] }

/-- The vector-only plans not yet emitted: those at or past the moving head. -/
def unsentVecOnly (s : Sched) : List VecOnlyReadPlan :=
  s.pendingVecOnlyPlans.drop s.pendingVecOnlyHead

@[simp] theorem emitted_call {c : IoCall} (notRead : c.prepared? = none) (s : Sched) :
    (s.call c).emitted = s.emitted := by
  simp [emitted, call, notRead]

end Sched

end VecFetch.Query
