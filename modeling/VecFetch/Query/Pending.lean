/-
# Query.Pending -- from plans to prepared reads

Without a budget a candidate becomes a plan in one of two queues: a deque of whole
records (`VEC_ALL`) and a vector of vector-only reads with a moving head.  With a
budget `B` it is offered to a heap that keeps the `B` best rank keys; early
submission emits the best of the heap while it is still filling, and the rest
leaves it when the run ends.  A deferred candidate waits in a pool first.

`emitPendingDataRequests` prepares the reads: whole records from the front of the
deque, then the unsent tail of the vector, sorted by offset in windows if asked.
Counts are `uint32_t`, so the pending count is a queue length modulo `2 ^ 32`.
-/
import VecFetch.Query.Frontier

namespace VecFetch.Query

open VecFetch.Theory

set_option autoImplicit false

variable (std : StdAlgo) (env : Env)

/-! ## The budget heap -/

/-- The rank key the heap sees: anything not finite ranks last. -/
def heapRankKey (rankKey : Flt) : Flt :=
  if rankKey.isFinite then rankKey else .posInf

/-- `AddBudgetedReadPlan`. -/
def addBudgetedReadPlan (plan : ReadPlanEntry) (rankKey : Flt) (s : Sched) : Sched :=
  if !env.useNonSafeOutCandidateBudget then s
  else
    { s with budgetedReadPlanHeap :=
        (std.addBounded BudgetedReadPlan.lt env.config.nonSafeoutCandidateBudget.toNat
          ⟨heapRankKey rankKey, plan⟩ s.budgetedReadPlanHeap).1 }

/-- Queue a plan by its type. -/
def pushPlan (plan : ReadPlanEntry) (s : Sched) : Sched :=
  if plan.type = .vecAll then { s with pendingAllPlans := s.pendingAllPlans ++ [plan] }
  else { s with pendingVecOnlyPlans := s.pendingVecOnlyPlans ++ [⟨plan.addr⟩] }

/-- `BudgetedPlanAlreadyEmitted`. -/
def budgetedPlanAlreadyEmitted (offset : UInt64) (s : Sched) : Bool :=
  s.emittedBudgetedOffsets.contains offset

/-- `MarkBudgetedPlanEmitted`. -/
def markBudgetedPlanEmitted (offset : UInt64) (s : Sched) : Sched :=
  if budgetedPlanAlreadyEmitted offset s then s
  else { s with emittedBudgetedOffsets := s.emittedBudgetedOffsets ++ [offset] }

/-- One entry of the sorted heap leaves it, unless it was emitted early. -/
def materializeEntry (s : Sched) (entry : BudgetedReadPlan) : Sched :=
  if budgetedPlanAlreadyEmitted entry.plan.addr.offset s then s else pushPlan entry.plan s

/-- `MaterializeBudgetedReadPlans`. -/
def materializeBudgetedReadPlans (s : Sched) : Sched :=
  if !env.useNonSafeOutCandidateBudget || s.budgetedReadPlanHeap.isEmpty then s
  else
    let sorted := std.sortHeap BudgetedReadPlan.lt s.budgetedReadPlanHeap
    { sorted.foldl materializeEntry s with budgetedReadPlanHeap := [] }

/-- The early-submit loop over the ranked entries; `left` is what `max_count` still
allows. -/
def emitRanked : List BudgetedReadPlan → Nat → Sched → Sched
  | [], _, s => s
  | _ :: _, 0, s => s
  | entry :: rest, left + 1, s =>
      if budgetedPlanAlreadyEmitted entry.plan.addr.offset s then emitRanked rest (left + 1) s
      else
        let s := markBudgetedPlanEmitted entry.plan.addr.offset (pushPlan entry.plan s)
        emitRanked rest left
          { s with budgetedEarlySubmittedCount := s.budgetedEarlySubmittedCount + 1 }

/-- `EmitTopBudgetedReadPlans`. -/
def emitTopBudgetedReadPlans (maxCount : UInt32) (s : Sched) : Sched :=
  if !env.config.enableBudgetedEarlySubmit || !env.useNonSafeOutCandidateBudget ||
      s.budgetedReadPlanHeap.isEmpty || maxCount == 0 ||
      decide (env.config.budgetedEarlySubmitMax ≤ s.budgetedEarlySubmittedCount) then s
  else
    let remainingCap := env.config.budgetedEarlySubmitMax - s.budgetedEarlySubmittedCount
    let maxCount := min maxCount remainingCap
    let ranked := s.budgetedReadPlanHeap.filter fun entry =>
      !budgetedPlanAlreadyEmitted entry.plan.addr.offset s
    emitRanked (std.sort BudgetedReadPlan.lt ranked) maxCount.toNat s

/-! ## The deferred pool -/

/-- The whole-record plan of an address. -/
def vecAllPlan (addr : AddressEntry) : ReadPlanEntry := ⟨.vecAll, addr, addr.size⟩

/-- The vector-only plan of an address. -/
def vecOnlyPlan (env : Env) (addr : AddressEntry) : ReadPlanEntry := ⟨.vecOnly, addr, env.vecBytes⟩

/-- A plan goes to the budget heap if there is a budget, to its queue otherwise. -/
def addPlan (plan : ReadPlanEntry) (rankKey : Flt) (s : Sched) : Sched :=
  if env.useNonSafeOutCandidateBudget then addBudgetedReadPlan std env plan rankKey s
  else pushPlan plan s

/-- One deferred plan leaves the pool: a whole-record read if the threshold is
active and covers it, a vector-only read otherwise. -/
def flushDeferredPlan (threshold : Flt) (s : Sched) (plan : DeferredSafeInPlan) : Sched :=
  if threshold.isFinite && decide (plan.addr.size ≤ env.config.safeinAllThreshold) &&
      plan.safeinUpperBound.lt threshold then
    addPlan std env (vecAllPlan plan.addr) plan.rankKey s
  else addPlan std env (vecOnlyPlan env plan.addr) plan.rankKey s

/-- `FlushDeferredSafeInPlans`. -/
def flushDeferredSafeInPlans (threshold : Flt) (force : Bool) (s : Sched) : Sched :=
  if s.deferredSafeInPlans.isEmpty then s
  else if !force && !threshold.isFinite then s
  else
    { s.deferredSafeInPlans.foldl (flushDeferredPlan std env threshold) s with
      deferredSafeInPlans := [] }

/-! ## Emission -/

/-- `PendingDataRequestCount`. -/
def pendingDataRequestCount (s : Sched) : UInt32 :=
  UInt32.ofNat (s.pendingAllPlans.length + (s.pendingVecOnlyPlans.length - s.pendingVecOnlyHead))

/-- The read `emit_all` prepares for a plan. -/
def ReadPlanEntry.read (plan : ReadPlanEntry) : PendingIO :=
  ⟨.vecAll, plan.addr, plan.addr.offset, plan.readLength⟩

/-- The read `emit_vec_only` prepares for a plan. -/
def VecOnlyReadPlan.read (env : Env) (plan : VecOnlyReadPlan) : PendingIO :=
  ⟨.vecOnly, plan.addr, plan.addr.offset, env.vecBytes⟩

/-- `emit_all`. -/
def emitAll (count : Nat) (s : Sched) : Sched :=
  { s with
    calls := s.calls ++ (s.pendingAllPlans.take count).map fun plan => .prepRead plan.read
    pendingAllPlans := s.pendingAllPlans.drop count }

/-- `emit_vec_only`. -/
def emitVecOnly (count : Nat) (s : Sched) : Sched :=
  { s with
    calls := s.calls ++ (s.unsentVecOnly.take count).map fun plan => .prepRead (plan.read env)
    pendingVecOnlyHead := s.pendingVecOnlyHead + count }

def byOffset (a b : VecOnlyReadPlan) : Bool := decide (a.addr.offset < b.addr.offset)

/-- Sort consecutive chunks of `window` plans. -/
def sortChunks (window : Nat) : Nat → List VecOnlyReadPlan → List VecOnlyReadPlan
  | 0, plans => plans
  | fuel + 1, plans =>
      if plans.isEmpty then plans
      else std.sort byOffset (plans.take window) ++ sortChunks window fuel (plans.drop window)

/-- `sort_vec_only_window`: the next `count` unsent plans, in one sort or in
windows. -/
def sortVecOnlyWindow (count : Nat) (s : Sched) : Sched :=
  if !env.config.enableVecReadAddressSort || decide (count ≤ 1) then s
  else
    let first := s.pendingVecOnlyHead
    let last := min s.pendingVecOnlyPlans.length (first + count)
    if last ≤ first + 1 then s
    else
      let window := env.config.vecReadAddressSortWindow.toNat
      let range := (s.pendingVecOnlyPlans.take last).drop first
      let sorted :=
        if window = 0 ∨ last - first ≤ window then std.sort byOffset range
        else sortChunks std window range.length range
      { s with pendingVecOnlyPlans :=
          s.pendingVecOnlyPlans.take first ++ sorted ++ s.pendingVecOnlyPlans.drop last }

/-- `EmitPendingDataRequests`. -/
def emitPendingDataRequests (maxCount : UInt32) (s : Sched) : Sched :=
  let remaining := min maxCount (pendingDataRequestCount s)
  if remaining == 0 then s
  else
    let allTake := min remaining (UInt32.ofNat s.pendingAllPlans.length)
    let s := emitAll allTake.toNat s
    let remaining := remaining - allTake
    emitVecOnly env remaining.toNat (sortVecOnlyWindow std env remaining.toNat s)

end VecFetch.Query
