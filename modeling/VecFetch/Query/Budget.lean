/-
# Query.Budget -- the candidate budget law

With a budget `B` the plans a run offers go to a heap of the `B` best rank keys.
Early submission sends the best of what the heap holds while it is still changing;
an entry sent early may be evicted later.  `BudgetOk` carries two ghost lists, the
plans offered so far and the plans sent early, through every step of a run: the
heap holds the `B` smallest of the first, and the reads emitted or pending are the
second.

What was sent early is pending until the next flush, and at most
`budgetedEarlySubmitMax` plans are, so here the pending count never wraps.
-/
import VecFetch.Query.Ledger

namespace VecFetch.Query

open VecFetch.Theory

set_option autoImplicit false

variable (std : StdAlgo) (env : Env)

/-! ## Rank keys -/

/-- What the heap knows of a plan: its key and its record. -/
def BudgetedReadPlan.tag (entry : BudgetedReadPlan) : Flt × AddressEntry :=
  (entry.rankKey, entry.plan.addr)

def DeferredSafeInPlan.tag (plan : DeferredSafeInPlan) : Flt × AddressEntry :=
  (heapRankKey plan.rankKey, plan.addr)

def Candidate.tag (lane : Candidate) : Flt × AddressEntry :=
  (heapRankKey lane.estDist, lane.decodedAddr)

theorem heapRankKey_ne_nan (key : Flt) : heapRankKey key ≠ .nan := by
  cases key <;> simp [heapRankKey]

/-- Keys that are numbers are ordered. -/
theorem rankKey_order {entries : List BudgetedReadPlan}
    (numbers : ∀ e ∈ entries, e.rankKey ≠ .nan) : StrictWeakOn BudgetedReadPlan.lt entries where
  asymm _ _ _ _ below := Flt.lt_asymm below
  negTrans _ _ _ inB _ _ first second := Flt.lt_negTrans (numbers _ inB) first second

/-! ## The invariant -/

/-- The state of a run with a budget that has been given the candidates `given`, has
offered the plans `seen` to the heap and has sent the plans `sent` early. -/
structure BudgetOk (given : Multiset (Flt × AddressEntry)) (seen sent : List BudgetedReadPlan)
    (s : Sched) : Prop where
  queues : QueuesOk env s
  smallest : std.Smallest BudgetedReadPlan.lt env.config.nonSafeoutCandidateBudget.toNat seen
    s.budgetedReadPlanHeap
  plans : ∀ e ∈ seen, PlanOk env e.plan
  numbers : ∀ e ∈ seen, e.rankKey ≠ .nan
  account : (seen.map BudgetedReadPlan.tag : Multiset (Flt × AddressEntry)) +
    (s.deferredSafeInPlans.map DeferredSafeInPlan.tag : Multiset (Flt × AddressEntry)) = given
  sent_seen : ∀ e ∈ sent, e ∈ seen
  ledger_eq : ledger s = (sent.map fun e => e.plan.addr : Multiset AddressEntry) +
    (s.deferredSafeInPlans.map DeferredSafeInPlan.addr : Multiset AddressEntry)
  offsets_eq : s.emittedBudgetedOffsets = sent.map fun e => e.plan.addr.offset
  offsets_nodup : s.emittedBudgetedOffsets.Nodup
  count_eq : s.budgetedEarlySubmittedCount.toNat = sent.length
  count_le : s.budgetedEarlySubmittedCount ≤ env.config.budgetedEarlySubmitMax

variable {std env} {given : Multiset (Flt × AddressEntry)} {seen sent : List BudgetedReadPlan}
  {s : Sched}

theorem BudgetOk.order (ok : BudgetOk std env given seen sent s) :
    StrictWeakOn BudgetedReadPlan.lt s.budgetedReadPlanHeap :=
  rankKey_order fun e mem => ok.numbers e (ok.smallest.mem_seen mem)

/-- What is pending was sent early. -/
theorem BudgetOk.pendingPlans_le (ok : BudgetOk std env given seen sent s) :
    pendingPlans s ≤ sent.length := by
  have := congrArg Multiset.card ok.ledger_eq
  simp only [ledger, Multiset.card_add, Multiset.coe_card, List.length_map] at this
  unfold pendingPlans
  omega

theorem BudgetOk.few (ok : BudgetOk std env given seen sent s) : pendingPlans s < 2 ^ 32 :=
  calc pendingPlans s
    _ ≤ s.budgetedEarlySubmittedCount.toNat := ok.count_eq ▸ ok.pendingPlans_le
    _ < 2 ^ 32 := s.budgetedEarlySubmittedCount.toNat_lt

theorem BudgetOk.same (ok : BudgetOk std env given seen sent s) {s' : Sched}
    (same : SameQueues s s') : BudgetOk std env given seen sent s' where
  queues := same.ok ok.queues
  smallest := same.heap ▸ ok.smallest
  plans := ok.plans
  numbers := ok.numbers
  account := same.deferred ▸ ok.account
  sent_seen := ok.sent_seen
  ledger_eq := by rw [same.ledger_eq, same.deferred, ok.ledger_eq]
  offsets_eq := same.early ▸ ok.offsets_eq
  offsets_nodup := same.early ▸ ok.offsets_nodup
  count_eq := same.earlyCount ▸ ok.count_eq
  count_le := same.earlyCount ▸ ok.count_le

/-! ## Offers -/

/-- Offering a plan to the heap. -/
theorem BudgetOk.addPlan (budget : 0 < env.config.nonSafeoutCandidateBudget)
    (ok : BudgetOk std env given seen sent s) {plan : ReadPlanEntry} (planOk : PlanOk env plan)
    (rankKey : Flt) :
    BudgetOk std env (given + {(heapRankKey rankKey, plan.addr)})
      (seen ++ [⟨heapRankKey rankKey, plan⟩]) sent (addPlan std env plan rankKey s) := by
  have budgeted : env.useNonSafeOutCandidateBudget = true := by
    simpa [Env.useNonSafeOutCandidateBudget] using budget
  have numbers : ∀ e ∈ seen ++ [⟨heapRankKey rankKey, plan⟩], e.rankKey ≠ .nan := by
    intro e mem
    rcases List.mem_append.1 mem with h | h
    · exact ok.numbers e h
    · rw [List.mem_singleton.1 h]
      exact heapRankKey_ne_nan rankKey
  have offered := StdAlgo.addBounded_smallest (x := ⟨heapRankKey rankKey, plan⟩)
    (rankKey_order fun e mem => numbers e (by simpa [or_comm] using mem)) ok.smallest
  have ledgerSame : ledger (VecFetch.Query.addPlan std env plan rankKey s) = ledger s := by
    simp [VecFetch.Query.addPlan, addBudgetedReadPlan, budgeted, ledger, Sched.emitted,
      Sched.unsentVecOnly]
  simp only [VecFetch.Query.addPlan, addBudgetedReadPlan, budgeted, Bool.not_true,
    Bool.false_eq_true, if_false, if_true] at ledgerSame ⊢
  refine
    { queues := ⟨ok.queues.emitted_ok, ok.queues.pending_ok, ok.queues.head_le⟩
      smallest := offered
      plans := ?_
      numbers := numbers
      account := ?_
      sent_seen := fun e mem => List.mem_append_left _ (ok.sent_seen e mem)
      ledger_eq := ledgerSame.trans ok.ledger_eq
      offsets_eq := ok.offsets_eq
      offsets_nodup := ok.offsets_nodup
      count_eq := ok.count_eq
      count_le := ok.count_le }
  · intro e mem
    rcases List.mem_append.1 mem with h | h
    · exact ok.plans e h
    · rw [List.mem_singleton.1 h]
      exact planOk
  · rw [← ok.account, List.map_append, ← Multiset.coe_add]
    simp only [List.map_cons, List.map_nil, BudgetedReadPlan.tag, Multiset.coe_singleton]
    abel

/-- Offering a list of plans. -/
theorem BudgetOk.foldl_addPlan (budget : 0 < env.config.nonSafeoutCandidateBudget) {α : Type}
    (plan : α → ReadPlanEntry) (key : α → Flt) (xs : List α)
    (planOk : ∀ x ∈ xs, PlanOk env (plan x)) (ok : BudgetOk std env given seen sent s) :
    ∃ seen', BudgetOk std env
      (given + (xs.map fun x => (heapRankKey (key x), (plan x).addr) :
        Multiset (Flt × AddressEntry))) seen' sent
      (xs.foldl (fun s x => VecFetch.Query.addPlan std env (plan x) (key x) s) s) := by
  induction xs generalizing given seen s with
  | nil => exact ⟨seen, by simpa using ok⟩
  | cons x xs ih =>
      obtain ⟨seen', ok'⟩ := ih (fun y mem => planOk y (List.mem_cons_of_mem _ mem))
        (ok.addPlan budget (planOk x List.mem_cons_self) (key x))
      refine ⟨seen', ?_⟩
      rw [List.map_cons, ← Multiset.cons_coe, ← Multiset.singleton_add, ← add_assoc]
      exact ok'

/-- A flush of the deferred pool offers all of it. -/
theorem BudgetOk.flushDeferred (budget : 0 < env.config.nonSafeoutCandidateBudget)
    (ok : BudgetOk std env given seen sent s) (threshold : Flt) (force : Bool) :
    ∃ seen', BudgetOk std env given seen' sent
      (flushDeferredSafeInPlans std env threshold force s) := by
  unfold flushDeferredSafeInPlans
  split
  · exact ⟨seen, ok⟩
  split
  · exact ⟨seen, ok⟩
  have offers : flushDeferredPlan std env threshold = fun s plan =>
      VecFetch.Query.addPlan std env (deferredRead env threshold plan) plan.rankKey s := by
    funext s plan
    exact flushDeferredPlan_eq std threshold s plan
  obtain ⟨seen', ok'⟩ := ok.foldl_addPlan budget (deferredRead env threshold)
    DeferredSafeInPlan.rankKey s.deferredSafeInPlans fun plan _ => deferredRead_ok threshold plan
  have kept := foldl_flushDeferredPlan_deferred std env threshold s.deferredSafeInPlans s
  rw [← offers] at ok'
  -- the fold offered the pool while the pool still held it
  have account := ok'.account
  have ledgerEq := ok'.ledger_eq
  simp only [kept, deferredRead_addr] at account ledgerEq
  refine ⟨seen',
    { queues := ⟨ok'.queues.emitted_ok, ok'.queues.pending_ok, ok'.queues.head_le⟩
      smallest := ok'.smallest
      plans := ok'.plans
      numbers := ok'.numbers
      account := ?_
      sent_seen := ok'.sent_seen
      ledger_eq := ?_
      offsets_eq := ok'.offsets_eq
      offsets_nodup := ok'.offsets_nodup
      count_eq := ok'.count_eq
      count_le := ok'.count_le }⟩
  · have := add_right_cancel account
    simpa using this
  · simp only [ledger, kept] at ledgerEq
    have := add_right_cancel ledgerEq
    simp only [ledger, List.map_nil, Multiset.coe_nil, add_zero]
    exact this

theorem BudgetOk.buildReadPlans (budget : 0 < env.config.nonSafeoutCandidateBudget)
    (ok : BudgetOk std env given seen sent s) (lanes : List Candidate) :
    ∃ seen', BudgetOk std env
      (given + (lanes.map Candidate.tag : Multiset (Flt × AddressEntry))) seen' sent
      (buildReadPlans std env lanes s) := by
  obtain ⟨seen₁, ok₁⟩ := ok.foldl_addPlan budget
    (fun lane : Candidate => vecAllPlan lane.decodedAddr) Candidate.estDist
    (lanes.filter (useVecAll env)) (fun lane mem => by
      have := (List.mem_filter.1 mem).2
      simp only [useVecAll, Bool.and_eq_true, decide_eq_true_eq] at this
      exact planOk_vecAll this.2)
  obtain ⟨seen₂, ok₂⟩ := ok₁.foldl_addPlan budget
    (fun lane : Candidate => vecOnlyPlan env lane.decodedAddr) Candidate.estDist
    (lanes.filter fun lane => !useVecAll env lane) (fun lane _ => planOk_vecOnly _)
  have parts : (lanes.map Candidate.tag : Multiset (Flt × AddressEntry)) =
      ((lanes.filter (useVecAll env)).map Candidate.tag : Multiset (Flt × AddressEntry)) +
        ((lanes.filter fun lane => !useVecAll env lane).map Candidate.tag :
          Multiset (Flt × AddressEntry)) := by
    rw [Multiset.coe_add, Multiset.coe_eq_coe, ← List.map_append]
    exact ((List.filter_append_perm (useVecAll env) lanes).map _).symm
  refine ⟨seen₂, ?_⟩
  rw [parts, ← add_assoc]
  exact ok₂

/-! ## Early submission -/

/-- Sending one plan early. -/
theorem BudgetOk.send (ok : BudgetOk std env given seen sent s) {e : BudgetedReadPlan}
    (inSeen : e ∈ seen) (fresh : budgetedPlanAlreadyEmitted e.plan.addr.offset s = false)
    (room : s.budgetedEarlySubmittedCount < env.config.budgetedEarlySubmitMax) :
    let s' := markBudgetedPlanEmitted e.plan.addr.offset (pushPlan e.plan s)
    BudgetOk std env given seen (sent ++ [e])
      { s' with budgetedEarlySubmittedCount := s'.budgetedEarlySubmittedCount + 1 } := by
  have pushed := pushPlan_ok (ok.plans e inSeen) ok.queues
  have led := @ledger_pushPlan env e.plan s ok.queues
  have fields : (pushPlan e.plan s).emittedBudgetedOffsets = s.emittedBudgetedOffsets ∧
      (pushPlan e.plan s).budgetedReadPlanHeap = s.budgetedReadPlanHeap ∧
      (pushPlan e.plan s).deferredSafeInPlans = s.deferredSafeInPlans ∧
      (pushPlan e.plan s).budgetedEarlySubmittedCount = s.budgetedEarlySubmittedCount := by
    unfold pushPlan
    split <;> exact ⟨rfl, rfl, rfl, rfl⟩
  obtain ⟨offsets, heap, deferred, count⟩ := fields
  have marked : markBudgetedPlanEmitted e.plan.addr.offset (pushPlan e.plan s) =
      { pushPlan e.plan s with
        emittedBudgetedOffsets := s.emittedBudgetedOffsets ++ [e.plan.addr.offset] } := by
    have fresh' : budgetedPlanAlreadyEmitted e.plan.addr.offset (pushPlan e.plan s) = false := by
      rw [budgetedPlanAlreadyEmitted, offsets]
      exact fresh
    rw [markBudgetedPlanEmitted, fresh', if_neg (by simp), offsets]
  have roomNat := UInt32.lt_iff_toNat_lt.1 room
  have maxNat := env.config.budgetedEarlySubmitMax.toNat_lt
  have countNat : (s.budgetedEarlySubmittedCount + 1).toNat =
      s.budgetedEarlySubmittedCount.toNat + 1 := by
    rw [UInt32.toNat_add]
    exact Nat.mod_eq_of_lt (by simp; omega)
  simp only [marked, count]
  refine
    { queues := ⟨pushed.emitted_ok, pushed.pending_ok, pushed.head_le⟩
      smallest := heap ▸ ok.smallest
      plans := ok.plans
      numbers := ok.numbers
      account := deferred ▸ ok.account
      sent_seen := ?_
      ledger_eq := ?_
      offsets_eq := by simp [ok.offsets_eq]
      offsets_nodup := ?_
      count_eq := by simp [countNat, ok.count_eq]
      count_le := UInt32.le_iff_toNat_le.2 (by rw [countNat]; omega) }
  · intro x mem
    rcases List.mem_append.1 mem with h | h
    · exact ok.sent_seen x h
    · rw [List.mem_singleton.1 h]
      exact inSeen
  · refine Eq.trans (show _ = ledger (pushPlan e.plan s) from rfl) ?_
    rw [led, ok.ledger_eq, deferred, List.map_append, ← Multiset.coe_add]
    simp only [List.map_cons, List.map_nil, Multiset.coe_singleton]
    abel
  · have notIn : e.plan.addr.offset ∉ s.emittedBudgetedOffsets := by
      simpa [budgetedPlanAlreadyEmitted] using fresh
    exact List.nodup_append.2 ⟨ok.offsets_nodup, by simp, fun a inOld b inNew same =>
      notIn (List.mem_singleton.1 inNew ▸ same ▸ inOld)⟩

/-- The early-submit loop, while the cap has room for what it may still send. -/
theorem BudgetOk.emitRanked (entries : List BudgetedReadPlan) (inSeen : ∀ e ∈ entries, e ∈ seen)
    (left : Nat) (ok : BudgetOk std env given seen sent s)
    (room : s.budgetedEarlySubmittedCount.toNat + left ≤
      env.config.budgetedEarlySubmitMax.toNat) :
    ∃ sent', BudgetOk std env given seen sent' (emitRanked entries left s) := by
  induction entries generalizing left sent s with
  | nil => exact ⟨sent, by simpa [VecFetch.Query.emitRanked] using ok⟩
  | cons e rest ih =>
      cases left with
      | zero => exact ⟨sent, by simpa [VecFetch.Query.emitRanked] using ok⟩
      | succ left =>
          have inRest : ∀ x ∈ rest, x ∈ seen := fun x mem => inSeen x (List.mem_cons_of_mem _ mem)
          unfold VecFetch.Query.emitRanked
          split
          · exact ih inRest (left + 1) ok room
          · rename_i fresh
            have sentOk := ok.send (inSeen e List.mem_cons_self) (by simpa using fresh)
              (UInt32.lt_iff_toNat_lt.2 (by omega))
            refine ih inRest left sentOk ?_
            have := sentOk.count_eq
            rw [this, List.length_append, List.length_singleton, ← ok.count_eq]
            omega

theorem BudgetOk.emitTop (ok : BudgetOk std env given seen sent s) (maxCount : UInt32) :
    ∃ sent', BudgetOk std env given seen sent'
      (emitTopBudgetedReadPlans std env maxCount s) := by
  unfold emitTopBudgetedReadPlans
  split
  · exact ⟨sent, ok⟩
  rename_i open_
  simp only [Bool.or_eq_true, decide_eq_true_eq, not_or] at open_
  set ranked := s.budgetedReadPlanHeap.filter fun entry =>
    !budgetedPlanAlreadyEmitted entry.plan.addr.offset s
  have rankedOrder : StrictWeakOn BudgetedReadPlan.lt ranked :=
    ok.order.mono fun e mem => List.mem_of_mem_filter mem
  refine ok.emitRanked _ (fun e mem => ?_) _ ?_
  · have := (std.sort_spec rankedOrder).2.subset mem
    exact ok.smallest.mem_seen (List.mem_of_mem_filter this)
  · have cap : (env.config.budgetedEarlySubmitMax - s.budgetedEarlySubmittedCount).toNat =
        env.config.budgetedEarlySubmitMax.toNat - s.budgetedEarlySubmittedCount.toNat :=
      UInt32.toNat_sub_of_le _ _ ok.count_le
    have le := UInt32.le_iff_toNat_le.1 ok.count_le
    rcases UInt32.le_total maxCount
        (env.config.budgetedEarlySubmitMax - s.budgetedEarlySubmittedCount) with h | h
    · have := UInt32.le_iff_toNat_le.1 h
      rw [min_eq_left_u32 h]
      omega
    · rw [min_eq_right_u32 h]
      omega

/-! ## A cluster, the loop -/

theorem BudgetOk.onCandidates (budget : 0 < env.config.nonSafeoutCandidateBudget)
    {st : Sched × List EstimateHeapEntry} (ok : BudgetOk std env given seen sent st.1)
    {batch : CandidateBatch}
    (distinct : (batch.lanes.map fun lane => lane.decodedAddr.offset).Nodup) :
    ∃ seen', BudgetOk std env
      (given + (batch.lanes.map Candidate.tag : Multiset (Flt × AddressEntry))) seen' sent
      (onCandidates std env st batch).1 := by
  have lanes : uniqueLanes [] batch.lanes = batch.lanes := by
    simpa using uniqueLanes_of_nodup batch.lanes [] (by simpa using distinct)
  simp only [VecFetch.Query.onCandidates, lanes]
  split
  · refine ⟨seen,
      { queues := ⟨ok.queues.emitted_ok, ok.queues.pending_ok, ok.queues.head_le⟩
        smallest := ok.smallest
        plans := ok.plans
        numbers := ok.numbers
        account := ?_
        sent_seen := ok.sent_seen
        ledger_eq := ?_
        offsets_eq := ok.offsets_eq
        offsets_nodup := ok.offsets_nodup
        count_eq := ok.count_eq
        count_le := ok.count_le }⟩
    · rw [← ok.account]
      simp only [buildDeferredPlans, List.map_append, List.map_map, ← Multiset.coe_add, add_assoc]
      rfl
    · have := ok.ledger_eq
      simp only [ledger, Sched.emitted, Sched.unsentVecOnly] at this
      simp only [ledger, buildDeferredPlans, Sched.emitted, Sched.unsentVecOnly, List.map_append,
        ← Multiset.coe_add, ← add_assoc, this]
  · exact ok.buildReadPlans budget _

theorem BudgetOk.foldl_onCandidates (budget : 0 < env.config.nonSafeoutCandidateBudget)
    (batches : List CandidateBatch) (st : Sched × List EstimateHeapEntry)
    (ok : BudgetOk std env given seen sent st.1)
    (distinct : ((lanesOf batches).map fun lane => lane.decodedAddr.offset).Nodup) :
    ∃ seen', BudgetOk std env
      (given + ((lanesOf batches).map Candidate.tag : Multiset (Flt × AddressEntry))) seen' sent
      (batches.foldl (VecFetch.Query.onCandidates std env) st).1 := by
  induction batches generalizing given seen st with
  | nil => exact ⟨seen, by simpa [lanesOf] using ok⟩
  | cons batch batches ih =>
      simp only [lanesOf, List.flatMap_cons, List.map_append, List.nodup_append] at distinct
      obtain ⟨seen₁, ok₁⟩ := ok.onCandidates budget distinct.1
      obtain ⟨seen₂, ok₂⟩ := ih _ ok₁ distinct.2.1
      refine ⟨seen₂, ?_⟩
      rw [add_assoc, Multiset.coe_add, ← List.map_append] at ok₂
      exact ok₂

theorem BudgetOk.settleDeferred (budget : 0 < env.config.nonSafeoutCandidateBudget)
    (ok : BudgetOk std env given seen sent s) :
    ∃ seen', BudgetOk std env given seen' sent (settleDeferred std env s) := by
  have held := ok.same (shouldHoldDeferredSafeInPlans_same env s)
  simp only [VecFetch.Query.settleDeferred]
  split
  · exact ⟨seen, held⟩
  · exact held.flushDeferred budget _ false

section Run

variable {Cluster : Type} {probe : Prober Cluster}

/-- **One cluster offers or defers the lanes of its batches.** -/
theorem BudgetOk.probeCluster (budget : 0 < env.config.nonSafeoutCandidateBudget)
    (cluster : Cluster) (ok : BudgetOk std env given seen sent s)
    (distinct : ((lanesOf (probeBatches env probe cluster s)).map
      fun lane => lane.decodedAddr.offset).Nodup) :
    ∃ seen', BudgetOk std env
      (given + ((lanesOf (probeBatches env probe cluster s)).map Candidate.tag :
        Multiset (Flt × AddressEntry))) seen' sent (probeCluster std env probe s cluster) := by
  have before := ok.same (updateDynamicSafeInState_same env true s)
  obtain ⟨seen₁, ok₁⟩ := BudgetOk.foldl_onCandidates budget (probeBatches env probe cluster s)
    (updateDynamicSafeInState env true s, []) before distinct
  set sunk := (probeBatches env probe cluster s).foldl (VecFetch.Query.onCandidates std env)
    (updateDynamicSafeInState env true s, [])
  have after := (finalizeCluster_same std env sunk).trans
    (updateDynamicSafeInState_same env false (finalizeCluster std env sunk))
  exact (ok₁.same after).settleDeferred budget

theorem BudgetOk.earlySubmitStep (st : ProbeLoop)
    (ok : BudgetOk std env given seen sent st.sched) :
    ∃ sent', BudgetOk std env given seen sent' (earlySubmitStep std env st).sched := by
  unfold VecFetch.Query.earlySubmitStep
  split
  · exact ok.emitTop _
  · exact ⟨sent, ok⟩

/-- Emission leaves the heap and the early-submit record alone. -/
theorem flushPending_heap (std : StdAlgo) (env : Env) (s : Sched) :
    (flushPending std env s).budgetedReadPlanHeap = s.budgetedReadPlanHeap ∧
      (flushPending std env s).emittedBudgetedOffsets = s.emittedBudgetedOffsets ∧
      (flushPending std env s).budgetedEarlySubmittedCount = s.budgetedEarlySubmittedCount := by
  have sorted : ∀ (count : Nat) (s : Sched), ∃ plans,
      sortVecOnlyWindow std env count s = { s with pendingVecOnlyPlans := plans } := by
    intro count s
    unfold sortVecOnlyWindow
    dsimp only
    split_ifs <;> exact ⟨_, rfl⟩
  unfold flushPending emitPendingDataRequests
  dsimp only
  split
  · exact ⟨rfl, rfl, rfl⟩
  · simp only [Sched.call, emitVecOnly]
    refine ⟨?_, ?_, ?_⟩
    all_goals
      obtain ⟨plans, eq⟩ := sorted
        (min (pendingDataRequestCount s) (pendingDataRequestCount s) -
          min (min (pendingDataRequestCount s) (pendingDataRequestCount s))
            (UInt32.ofNat s.pendingAllPlans.length)).toNat
        (emitAll (min (min (pendingDataRequestCount s) (pendingDataRequestCount s))
            (UInt32.ofNat s.pendingAllPlans.length)).toNat s)
      rw [eq]
      rfl

theorem BudgetOk.flushPending (ok : BudgetOk std env given seen sent s) :
    BudgetOk std env given seen sent (flushPending std env s) ∧
      pendingPlans (VecFetch.Query.flushPending std env s) = 0 := by
  obtain ⟨queues, led, deferred, noAll, noVec⟩ := flushPending_spec std ok.queues ok.few
  obtain ⟨heap, offsets, count⟩ := flushPending_heap std env s
  refine ⟨
    { queues := queues
      smallest := heap ▸ ok.smallest
      plans := ok.plans
      numbers := ok.numbers
      account := deferred ▸ ok.account
      sent_seen := ok.sent_seen
      ledger_eq := by rw [led, deferred, ok.ledger_eq]
      offsets_eq := offsets ▸ ok.offsets_eq
      offsets_nodup := offsets ▸ ok.offsets_nodup
      count_eq := count ▸ ok.count_eq
      count_le := count ▸ ok.count_le }, ?_⟩
  rw [pendingPlans, noAll, noVec]
  rfl

theorem BudgetOk.call (ok : BudgetOk std env given seen sent s) {c : IoCall}
    (notRead : c.prepared? = none) : BudgetOk std env given seen sent (s.call c) :=
  { ok with
    queues := ok.queues.call notRead
    ledger_eq := (ledger_call notRead s).trans ok.ledger_eq }

/-- The submit step after the final cluster leaves nothing pending. -/
theorem BudgetOk.submitStep {st : ProbeLoop} (ok : BudgetOk std env given seen sent st.sched)
    (finalCluster : Bool) :
    BudgetOk std env given seen sent (submitStep std env finalCluster st).sched ∧
      (finalCluster = true → pendingPlans (submitStep std env finalCluster st).sched = 0) := by
  have count := pendingDataRequestCount_toNat ok.few
  unfold VecFetch.Query.submitStep
  dsimp only
  split
  · obtain ⟨flushed, empty⟩ := ok.flushPending
    dsimp only
    generalize VecFetch.Query.flushPending std env st.sched = after at flushed empty ⊢
    exact ⟨flushed.call rfl, fun _ => empty⟩
  · rename_i idle
    refine ⟨ok, fun final => ?_⟩
    simp only [final, Bool.or_true, Bool.true_and, decide_eq_true_eq] at idle
    rw [UInt32.lt_iff_toNat_lt, count] at idle
    simpa using idle

/-- **The loop keeps the invariant**, and nothing is pending after it. -/
theorem BudgetOk.probeLoop (budget : 0 < env.config.nonSafeoutCandidateBudget)
    (clusters : List Cluster) (st : ProbeLoop) (ok : BudgetOk std env given seen sent st.sched)
    (idle : clusters = [] → pendingPlans st.sched = 0)
    (distinct : ((givenCandidates std env probe st clusters).map
      fun lane => lane.decodedAddr.offset).Nodup) :
    ∃ seen' sent', BudgetOk std env
      (given + ((givenCandidates std env probe st clusters).map Candidate.tag :
        Multiset (Flt × AddressEntry))) seen' sent' (probeLoop std env probe st clusters).sched ∧
      pendingPlans (VecFetch.Query.probeLoop std env probe st clusters).sched = 0 := by
  induction clusters generalizing given seen sent st with
  | nil => exact ⟨seen, sent, by simpa [VecFetch.Query.probeLoop, givenCandidates] using ok, idle rfl⟩
  | cons cluster rest ih =>
      simp only [givenCandidates, List.map_append, List.nodup_append] at distinct
      obtain ⟨seen₁, ok₁⟩ := ok.probeCluster budget cluster distinct.1
      obtain ⟨sent₁, ok₂⟩ := BudgetOk.earlySubmitStep
        { sched := VecFetch.Query.probeCluster std env probe st.sched cluster
          clustersSinceSubmit := st.clustersSinceSubmit + 1
          clustersSinceBudgetedEarlySubmit := st.clustersSinceBudgetedEarlySubmit + 1 } ok₁
      obtain ⟨ok₃, emptied⟩ := ok₂.submitStep rest.isEmpty
      obtain ⟨seen₂, sent₂, ok₄, empty⟩ := ih _ ok₃
        (fun last => emptied (by simp [last])) distinct.2.1
      refine ⟨seen₂, sent₂, ?_, empty⟩
      rw [add_assoc, Multiset.coe_add, ← List.map_append] at ok₄
      exact ok₄

end Run

/-! ## The end of the run -/

/-- Materialising queues the entries not sent early. -/
theorem foldl_materializeEntry (entries : List BudgetedReadPlan) (s : Sched) :
    entries.foldl materializeEntry s =
      (entries.filter fun e => !budgetedPlanAlreadyEmitted e.plan.addr.offset s).foldl
        (fun s e => pushPlan e.plan s) s := by
  have offsets : ∀ (plan : ReadPlanEntry) (offset : UInt64) (s : Sched),
      budgetedPlanAlreadyEmitted offset (pushPlan plan s) =
        budgetedPlanAlreadyEmitted offset s := by
    intro plan offset s
    unfold pushPlan
    split <;> rfl
  induction entries generalizing s with
  | nil => rfl
  | cons e rest ih =>
      rw [List.foldl_cons, ih, materializeEntry]
      split
      · rename_i already
        rw [List.filter_cons_of_neg (by simp [already])]
      · rename_i fresh
        rw [List.filter_cons_of_pos (by simpa using fresh), List.foldl_cons]
        simp only [offsets]

theorem foldl_pushPlan_frame {α : Type} (plan : α → ReadPlanEntry) (xs : List α) (s : Sched) :
    (xs.foldl (fun s x => pushPlan (plan x) s) s).emitted = s.emitted ∧
      (xs.foldl (fun s x => pushPlan (plan x) s) s).deferredSafeInPlans =
        s.deferredSafeInPlans := by
  induction xs generalizing s with
  | nil => exact ⟨rfl, rfl⟩
  | cons x xs ih =>
      obtain ⟨emitted, deferred⟩ := ih (pushPlan (plan x) s)
      rw [List.foldl_cons, emitted, deferred]
      unfold pushPlan
      split <;> exact ⟨rfl, rfl⟩

/-- With a budget a flush of the deferred pool queues nothing. -/
theorem flushDeferred_pendingPlans (std : StdAlgo) (budget : 0 < env.config.nonSafeoutCandidateBudget)
    (threshold : Flt) (force : Bool) (s : Sched) :
    pendingPlans (flushDeferredSafeInPlans std env threshold force s) = pendingPlans s := by
  have budgeted : env.useNonSafeOutCandidateBudget = true := by
    simpa [Env.useNonSafeOutCandidateBudget] using budget
  have one : ∀ (s : Sched) (plan : DeferredSafeInPlan),
      pendingPlans (flushDeferredPlan std env threshold s plan) = pendingPlans s := by
    intro s plan
    rw [flushDeferredPlan_eq]
    simp [VecFetch.Query.addPlan, addBudgetedReadPlan, budgeted, pendingPlans, Sched.unsentVecOnly]
  have all : ∀ (plans : List DeferredSafeInPlan) (s : Sched),
      pendingPlans (plans.foldl (flushDeferredPlan std env threshold) s) = pendingPlans s := by
    intro plans
    induction plans with
    | nil => exact fun _ => rfl
    | cons plan plans ih => exact fun s => (ih _).trans (one s plan)
  unfold flushDeferredSafeInPlans
  split_ifs
  · rfl
  · rfl
  · exact all s.deferredSafeInPlans s

/-- The heap's entries that were not sent early, in the order they leave it. -/
def unsent (sent sorted : List BudgetedReadPlan) : List BudgetedReadPlan :=
  sorted.filter fun e => !(sent.map fun x => x.plan.addr.offset).contains e.plan.addr.offset

/-- Materialising adds to the ledger what the heap holds and was not sent early. -/
theorem BudgetOk.materialize (budget : 0 < env.config.nonSafeoutCandidateBudget)
    (ok : BudgetOk std env given seen sent s) :
    ∃ sorted : List BudgetedReadPlan, sorted.Perm s.budgetedReadPlanHeap ∧
      QueuesOk env (materializeBudgetedReadPlans std env s) ∧
      ledger (materializeBudgetedReadPlans std env s) =
        ledger s + ((unsent sent sorted).map fun e => e.plan.addr : Multiset AddressEntry) ∧
      (materializeBudgetedReadPlans std env s).emitted = s.emitted ∧
      (materializeBudgetedReadPlans std env s).deferredSafeInPlans = s.deferredSafeInPlans := by
  have budgeted : env.useNonSafeOutCandidateBudget = true := by
    simpa [Env.useNonSafeOutCandidateBudget] using budget
  unfold materializeBudgetedReadPlans
  split
  · rename_i noHeap
    have empty : s.budgetedReadPlanHeap = [] := by simpa [budgeted] using noHeap
    exact ⟨[], by rw [empty], ok.queues, by simp [unsent], rfl, rfl⟩
  · have perm := std.sortHeap_perm BudgetedReadPlan.lt s.budgetedReadPlanHeap
    set sorted := std.sortHeap BudgetedReadPlan.lt s.budgetedReadPlanHeap
    have already : (fun e : BudgetedReadPlan => !budgetedPlanAlreadyEmitted e.plan.addr.offset s) =
        fun e => !(sent.map fun x => x.plan.addr.offset).contains e.plan.addr.offset := by
      funext e
      rw [budgetedPlanAlreadyEmitted, ok.offsets_eq]
    have planOk : ∀ e ∈ unsent sent sorted, PlanOk env e.plan := fun e mem =>
      ok.plans e (ok.smallest.mem_seen (perm.subset (List.mem_of_mem_filter mem)))
    obtain ⟨queues, led⟩ := foldl_pushPlan env BudgetedReadPlan.plan (unsent sent sorted) planOk
      ok.queues
    obtain ⟨emitted, deferred⟩ := foldl_pushPlan_frame BudgetedReadPlan.plan (unsent sent sorted) s
    dsimp only
    rw [foldl_materializeEntry, already]
    exact ⟨sorted, perm, ⟨queues.emitted_ok, queues.pending_ok, queues.head_le⟩, led, emitted,
      deferred⟩

/-- **The reads of a finished run**: what was sent early, and what the heap holds
and was not. -/
theorem BudgetOk.probeTail (budget : 0 < env.config.nonSafeoutCandidateBudget)
    (ok : BudgetOk std env given seen sent s) (idle : pendingPlans s = 0) :
    ∃ (seen : List BudgetedReadPlan) (t : Sched) (sorted : List BudgetedReadPlan),
      BudgetOk std env given seen sent t ∧ t.deferredSafeInPlans = [] ∧
        sorted.Perm t.budgetedReadPlanHeap ∧
        (∀ io ∈ (probeTail std env s).emitted, ReadOk env io) ∧
        ((probeTail std env s).emitted.map PendingIO.addr).Perm
          ((sent ++ unsent sent sorted).map fun e => e.plan.addr) := by
  obtain ⟨seen, flushed⟩ := ok.flushDeferred budget (safeInThresholdForProbe env s) true
  have noDeferred := forced_flush_empties std env (safeInThresholdForProbe env s) s
  have pending := (flushDeferred_pendingPlans std budget (safeInThresholdForProbe env s)
    true s).trans idle
  set t := flushDeferredSafeInPlans std env (safeInThresholdForProbe env s) true s with ht
  obtain ⟨sorted, perm, queues, led, emitted, deferred⟩ := flushed.materialize budget
  have tail : VecFetch.Query.probeTail std env s =
      if 0 < pendingDataRequestCount (materializeBudgetedReadPlans std env t) then
        VecFetch.Query.flushPending std env (materializeBudgetedReadPlans std env t)
      else materializeBudgetedReadPlans std env t := rfl
  set u := materializeBudgetedReadPlans std env t
  have few : pendingPlans u < 2 ^ 32 := by
    have sizes := congrArg Multiset.card led
    have heapSize := flushed.smallest.length_eq
    have unsentSize : (unsent sent sorted).length ≤ t.budgetedReadPlanHeap.length :=
      perm.length_eq ▸ List.length_filter_le _ _
    have maxNat := env.config.nonSafeoutCandidateBudget.toNat_lt
    simp only [ledger, emitted, deferred, Multiset.card_add, Multiset.coe_card,
      List.length_map] at sizes
    unfold pendingPlans at pending ⊢
    omega
  obtain ⟨queues', led', deferred', noAll, noVec⟩ := lastFlush_spec std queues few
  refine ⟨seen, t, sorted, flushed, noDeferred, perm, ?_, ?_⟩
  · rw [tail]
    exact queues'.emitted_ok
  · have total := led'.trans (led.trans (congrArg (· + _) flushed.ledger_eq))
    rw [← tail] at total deferred' noAll noVec
    simp only [ledger, noAll, noVec, deferred', deferred, noDeferred, List.map_nil,
      Multiset.coe_nil, add_zero, Multiset.coe_add] at total
    rw [List.map_append]
    exact Multiset.coe_eq_coe.1 total

/-! ## The law -/

/-- A permutation of an image is the image of a permutation. -/
theorem exists_perm_of_map {α β : Type} {f : α → β} {xs : List α} {ys : List β}
    (perm : ys.Perm (xs.map f)) : ∃ xs' : List α, xs'.Perm xs ∧ xs'.map f = ys := by
  have comp := congrFun (congrFun (List.eq_map_comp_perm f) ys) xs
  obtain ⟨xs', image, perm'⟩ := comp.mpr perm
  exact ⟨xs', perm', image.symm⟩

/-- The reads of `s` answer for the `B` best of `given`. -/
structure BudgetLaw (env : Env) (given : List Candidate) (s : Sched) : Prop where
  selected : ∃ chosen rest : List Candidate, (chosen ++ rest).Perm given ∧
    chosen.length = min env.config.nonSafeoutCandidateBudget.toNat given.length ∧
    (∀ c ∈ chosen, ∀ r ∈ rest, (heapRankKey r.estDist).lt (heapRankKey c.estDist) = false) ∧
    ∀ c ∈ chosen, ∃ io ∈ s.emitted, io.addr = c.decodedAddr
  reads_given : ∀ io ∈ s.emitted, ReadOk env io ∧ ∃ c ∈ given, io.addr = c.decodedAddr
  offsets_once : (s.emitted.map PendingIO.readOffset).Nodup
  total_le : s.emitted.length ≤
    env.config.nonSafeoutCandidateBudget.toNat + env.config.budgetedEarlySubmitMax.toNat

/-- Nothing is read twice: what was sent early is told apart by the sent offsets,
what the heap held by the candidates' own. -/
theorem sent_unsent_nodup {sent sorted : List BudgetedReadPlan}
    (sentDistinct : (sent.map fun e => e.plan.addr.offset).Nodup)
    (heapDistinct : (sorted.map fun e => e.plan.addr.offset).Nodup) :
    ((sent ++ unsent sent sorted).map fun e => e.plan.addr.offset).Nodup := by
  rw [List.map_append, List.nodup_append]
  refine ⟨sentDistinct, heapDistinct.sublist (List.filter_sublist.map _), ?_⟩
  intro offset inSent other inUnsent same
  obtain ⟨e, mem, rfl⟩ := List.mem_map.1 inUnsent
  have := (List.mem_filter.1 mem).2
  rw [same] at inSent
  simp [inSent] at this

/-- Every entry the heap held is read, early or at the end. -/
theorem heap_read {sent sorted seen : List BudgetedReadPlan} {e : BudgetedReadPlan}
    (distinct : (seen.map fun e => e.plan.addr.offset).Nodup) (sentSeen : ∀ x ∈ sent, x ∈ seen)
    (inSeen : e ∈ seen) (inHeap : e ∈ sorted) : e ∈ sent ++ unsent sent sorted := by
  by_cases early : e.plan.addr.offset ∈ sent.map fun x => x.plan.addr.offset
  · obtain ⟨x, mem, same⟩ := List.mem_map.1 early
    have : x = e := List.inj_on_of_nodup_map distinct (sentSeen x mem) inSeen same
    exact List.mem_append_left _ (this ▸ mem)
  · exact List.mem_append_right _ (List.mem_filter.2 ⟨inHeap, by simpa using early⟩)

/-- **The candidate budget law.**  Over distinct offsets, every run with a budget
reads the `B` best rank keys among its candidates, reads no offset twice, and reads
at most `B` plans and the early-submit cap. -/
theorem candidate_budget_law (std : StdAlgo) (env : Env) {Cluster : Type} (probe : Prober Cluster)
    (clusters : List Cluster) (budget : 0 < env.config.nonSafeoutCandidateBudget)
    (distinct : ((givenCandidates std env probe ⟨{}, 0, 0⟩ clusters).map
      fun lane => lane.decodedAddr.offset).Nodup) :
    BudgetLaw env (givenCandidates std env probe ⟨{}, 0, 0⟩ clusters)
      (probeResidentClusters std env probe clusters {}) := by
  have start : BudgetOk std env 0 [] [] ({} : Sched) :=
    { queues := ⟨by simp [Sched.emitted], by simp, by simp⟩
      smallest := std.smallest_nil BudgetedReadPlan.lt _
      plans := by simp
      numbers := by simp
      account := by simp
      sent_seen := by simp
      ledger_eq := by simp [ledger, Sched.emitted, Sched.unsentVecOnly]
      offsets_eq := rfl
      offsets_nodup := by simp
      count_eq := rfl
      count_le := UInt32.le_iff_toNat_le.2 (Nat.zero_le _) }
  obtain ⟨seen₁, sent, looped, idle⟩ := BudgetOk.probeLoop budget clusters ⟨{}, 0, 0⟩ start (fun _ => rfl) distinct
  obtain ⟨seen, t, sorted, ok, noDeferred, heapPerm, readsOk, reads⟩ :=
    looped.probeTail budget idle
  set given := givenCandidates std env probe ⟨{}, 0, 0⟩ clusters
  set s := probeResidentClusters std env probe clusters {}
  replace readsOk : ∀ io ∈ s.emitted, ReadOk env io := readsOk
  replace reads : (s.emitted.map PendingIO.addr).Perm
    ((sent ++ unsent sent sorted).map fun e => e.plan.addr) := reads
  -- the plans offered are the candidates given
  have offered : (seen.map BudgetedReadPlan.tag).Perm (given.map Candidate.tag) := by
    have := ok.account
    rw [noDeferred, List.map_nil, Multiset.coe_nil, add_zero, zero_add] at this
    exact Multiset.coe_eq_coe.1 this
  have seenDistinct : (seen.map fun e => e.plan.addr.offset).Nodup := by
    have := (offered.map fun tag => tag.2.offset).nodup_iff
    simp only [List.map_map, Function.comp_def, BudgetedReadPlan.tag, Candidate.tag] at this
    exact this.2 distinct
  have heapSeen : ∀ e ∈ sorted, e ∈ seen := fun e mem => ok.smallest.mem_seen (heapPerm.subset mem)
  obtain ⟨dropped, split, above⟩ := ok.smallest.split
  have heapDistinct : (sorted.map fun e => e.plan.addr.offset).Nodup := by
    have := (split.map fun e => e.plan.addr.offset).nodup_iff.2 seenDistinct
    rw [List.map_append, List.nodup_append] at this
    exact (heapPerm.map _).nodup_iff.2 this.1
  have sizes : seen.length = given.length := by simpa using offered.length_eq
  have heapSize := ok.smallest.length_eq
  refine ⟨?_, fun io mem => ⟨readsOk io mem, ?_⟩, ?_, ?_⟩
  · obtain ⟨given', given'Perm, image⟩ := exists_perm_of_map ((split.map _).trans offered)
    rw [List.map_append, List.map_eq_append_iff] at image
    obtain ⟨chosen, rest, rfl, chosenTags, restTags⟩ := image
    refine ⟨chosen, rest, given'Perm, ?_, ?_, ?_⟩
    · have := congrArg List.length chosenTags
      rw [List.length_map, List.length_map] at this
      rw [this, heapSize, sizes]
    · intro c inChosen r inRest
      obtain ⟨y, inHeap, yTag⟩ := List.mem_map.1 (chosenTags ▸ List.mem_map_of_mem inChosen)
      obtain ⟨d, inDropped, dTag⟩ := List.mem_map.1 (restTags ▸ List.mem_map_of_mem inRest)
      have := above d inDropped y inHeap
      rwa [BudgetedReadPlan.lt, show d.rankKey = heapRankKey r.estDist from congrArg Prod.fst dTag,
        show y.rankKey = heapRankKey c.estDist from congrArg Prod.fst yTag] at this
    · intro c inChosen
      obtain ⟨y, inHeap, yTag⟩ := List.mem_map.1 (chosenTags ▸ List.mem_map_of_mem inChosen)
      have inReads := heap_read seenDistinct ok.sent_seen (ok.smallest.mem_seen inHeap)
        (heapPerm.symm.subset inHeap)
      obtain ⟨io, mem, addr⟩ := List.mem_map.1 (reads.symm.subset (List.mem_map_of_mem inReads))
      exact ⟨io, mem, addr.trans (congrArg Prod.snd yTag)⟩
  · obtain ⟨e, inReads, addr⟩ := List.mem_map.1 (reads.subset (List.mem_map_of_mem mem))
    have inSeen : e ∈ seen := by
      rcases List.mem_append.1 inReads with h | h
      · exact ok.sent_seen e h
      · exact heapSeen e (List.mem_of_mem_filter h)
    obtain ⟨c, inGiven, tag⟩ := List.mem_map.1 (offered.subset (List.mem_map_of_mem inSeen))
    exact ⟨c, inGiven, addr.symm.trans (congrArg Prod.snd tag).symm⟩
  · have own : s.emitted.map PendingIO.readOffset =
        (s.emitted.map PendingIO.addr).map AddressEntry.offset := by
      rw [List.map_map]
      exact List.map_congr_left fun io mem => (readsOk io mem).1
    have sentDistinct : (sent.map fun e => e.plan.addr.offset).Nodup := by
      have := ok.offsets_nodup
      rwa [ok.offsets_eq] at this
    rw [own, (reads.map AddressEntry.offset).nodup_iff, List.map_map]
    exact sent_unsent_nodup sentDistinct heapDistinct
  · have total : s.emitted.length = sent.length + (unsent sent sorted).length := by
      simpa using reads.length_eq
    have unsentSize : (unsent sent sorted).length ≤ t.budgetedReadPlanHeap.length :=
      heapPerm.length_eq ▸ List.length_filter_le _ _
    have cap := UInt32.le_iff_toNat_le.1 ok.count_le
    have := ok.count_eq
    omega

namespace TwoOfThree

/-- Three candidates for two places; the middle one has no key. -/
def batch : CandidateBatch :=
  ⟨[⟨0, .fin 3, .fin 0, .fin 3, .fin 3, .uncertain, ⟨0, 4096⟩⟩,
    ⟨1, .nan, .fin 0, .nan, .nan, .uncertain, ⟨4096, 4096⟩⟩,
    ⟨2, .fin 1, .fin 0, .fin 1, .fin 1, .safeIn, ⟨8192, 4096⟩⟩], by decide⟩

def environment : Env :=
  ⟨{ nonSafeoutCandidateBudget := 2, enableBudgetedEarlySubmit := true }, .negInf, 512, false⟩

def probe : Prober Unit := fun _ _ _ => [batch]

end TwoOfThree

/-- The law at three candidates and a budget of two. -/
theorem candidate_budget_law_two_of_three :
    BudgetLaw TwoOfThree.environment
      (givenCandidates StdAlgo.reference TwoOfThree.environment TwoOfThree.probe ⟨{}, 0, 0⟩ [()])
      (probeResidentClusters StdAlgo.reference TwoOfThree.environment TwoOfThree.probe [()] {}) :=
  candidate_budget_law StdAlgo.reference TwoOfThree.environment TwoOfThree.probe [()] (by decide)
    (by decide)

example : (probeResidentClusters StdAlgo.reference TwoOfThree.environment TwoOfThree.probe
    [()] {}).emitted.map PendingIO.readOffset = [8192, 0] := by decide

end VecFetch.Query
