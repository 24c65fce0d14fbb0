/-
# Query.FrontierRun -- what the SafeOut frontier knows

Only `FinalizeCluster` touches the SafeOut heap: planning, deferring and emitting
leave it alone (`*_frontier`).  So after any run it holds the `topK` smallest upper
bounds of the candidates the sink was given (`frontierOk_step`), and a finite
frontier has `topK` of them at or below it (`frontier_covers`).
-/
import VecFetch.Query.Ledger

namespace VecFetch.Query

open VecFetch.Theory

set_option autoImplicit false

variable (std : StdAlgo) (env : Env)

/-! ## Frames -/

/-- What `UpdateDynamicSafeInState` reads and writes. -/
structure SafeInState where
  frontierHeap : List SafeInFrontierEntry
  probesSeen : UInt32
  stableCount : UInt32
  ready : Bool
  lastFrontier : Flt
  currentFrontier : Flt

def Sched.safeIn (s : Sched) : SafeInState where
  frontierHeap := s.safeinFrontierHeap
  probesSeen := s.dynamicSafeinProbesSeen
  stableCount := s.dynamicSafeinStableCount
  ready := s.dynamicSafeinReady
  lastFrontier := s.dynamicSafeinLastFrontier
  currentFrontier := s.dynamicSafeinCurrentFrontier

/-- What the estimates have made of the scheduler: the SafeOut heap and the SafeIn
state. -/
def Sched.estimates (s : Sched) : List SafeOutFrontierEntry × SafeInState :=
  (s.safeoutFrontierHeap, s.safeIn)

theorem pushPlan_estimates (plan : ReadPlanEntry) (s : Sched) :
    (pushPlan plan s).estimates = s.estimates := by
  unfold pushPlan
  split <;> rfl

theorem addPlan_estimates (plan : ReadPlanEntry) (key : Flt) (s : Sched) :
    (addPlan std env plan key s).estimates = s.estimates := by
  unfold addPlan addBudgetedReadPlan
  split_ifs
  · rfl
  · rfl
  · exact pushPlan_estimates plan s

theorem foldl_estimates {α : Type} {f : Sched → α → Sched}
    (frame : ∀ s x, (f s x).estimates = s.estimates) (xs : List α) (s : Sched) :
    (xs.foldl f s).estimates = s.estimates := by
  induction xs generalizing s with
  | nil => rfl
  | cons x xs ih => rw [List.foldl_cons, ih, frame]

theorem flushDeferredSafeInPlans_estimates (threshold : Flt) (force : Bool) (s : Sched) :
    (flushDeferredSafeInPlans std env threshold force s).estimates = s.estimates := by
  unfold flushDeferredSafeInPlans
  split_ifs
  · rfl
  · rfl
  · refine foldl_estimates (f := flushDeferredPlan std env threshold) (fun s plan => ?_)
      s.deferredSafeInPlans s
    rw [flushDeferredPlan_eq]
    exact addPlan_estimates std env _ _ s

theorem settleDeferred_estimates (s : Sched) :
    (settleDeferred std env s).estimates = s.estimates := by
  have hold : (shouldHoldDeferredSafeInPlans env s).2.estimates = s.estimates := by
    unfold shouldHoldDeferredSafeInPlans
    dsimp only
    split_ifs <;> rfl
  simp only [settleDeferred]
  split
  · exact hold
  · rw [flushDeferredSafeInPlans_estimates, hold]

theorem emitRanked_estimates (entries : List BudgetedReadPlan) (left : Nat) (s : Sched) :
    (emitRanked entries left s).estimates = s.estimates := by
  induction entries generalizing left s with
  | nil => rfl
  | cons e rest ih =>
      cases left with
      | zero => rfl
      | succ left =>
          unfold emitRanked
          split
          · exact ih _ s
          · rw [ih]
            unfold markBudgetedPlanEmitted
            split <;> exact pushPlan_estimates e.plan s

theorem earlySubmitStep_estimates (st : ProbeLoop) :
    (earlySubmitStep std env st).sched.estimates = st.sched.estimates := by
  unfold earlySubmitStep emitTopBudgetedReadPlans
  split_ifs
  · rfl
  · exact emitRanked_estimates _ _ _
  · rfl

theorem sortVecOnlyWindow_estimates (count : Nat) (s : Sched) :
    (sortVecOnlyWindow std env count s).estimates = s.estimates := by
  unfold sortVecOnlyWindow
  dsimp only
  split_ifs <;> rfl

theorem submitStep_estimates (finalCluster : Bool) (st : ProbeLoop) :
    (submitStep std env finalCluster st).sched.estimates = st.sched.estimates := by
  unfold submitStep flushPending emitPendingDataRequests
  dsimp only
  split_ifs
  · rfl
  · exact sortVecOnlyWindow_estimates std env _ _
  · rfl

/-- After its cluster, a step of the loop leaves the estimates alone. -/
theorem probeStep_estimates {Cluster : Type} (probe : Prober Cluster) (st : ProbeLoop)
    (cluster : Cluster) (finalCluster : Bool) :
    (probeStep std env probe st cluster finalCluster).sched.estimates =
      (probeCluster std env probe st.sched cluster).estimates := by
  rw [probeStep, submitStep_estimates, earlySubmitStep_estimates]

theorem onCandidates_estimates (st : Sched × List EstimateHeapEntry) (batch : CandidateBatch) :
    (onCandidates std env st batch).1.estimates = st.1.estimates := by
  simp only [onCandidates]
  split
  · rfl
  · simp only [buildReadPlans]
    rw [foldl_estimates (fun s lane => addPlan_estimates std env _ _ s),
      foldl_estimates (fun s lane => addPlan_estimates std env _ _ s)]

theorem foldl_onCandidates_estimates (batches : List CandidateBatch)
    (st : Sched × List EstimateHeapEntry) :
    (batches.foldl (onCandidates std env) st).1.estimates = st.1.estimates := by
  induction batches generalizing st with
  | nil => rfl
  | cons batch rest ih => rw [List.foldl_cons, ih, onCandidates_estimates]

theorem updateDynamicSafeInState_frontier (advance : Bool) (s : Sched) :
    (updateDynamicSafeInState env advance s).safeoutFrontierHeap = s.safeoutFrontierHeap := by
  unfold updateDynamicSafeInState
  split <;> rfl

/-! ## The estimates of a cluster reach the heap -/

/-- What the frontier keeps of a candidate. -/
def Candidate.frontierEntry (c : Candidate) : SafeOutFrontierEntry :=
  ⟨c.estDist, c.estError, c.estDist.add c.estError⟩

def Candidate.estimate (c : Candidate) : EstimateHeapEntry :=
  ⟨c.estDist, c.estError, c.estimateLowerBound⟩

/-- The sink keeps the estimates of a batch of distinct offsets, in order. -/
theorem onCandidates_buffered (st : Sched × List EstimateHeapEntry) {batch : CandidateBatch}
    (distinct : (batch.lanes.map fun lane => lane.decodedAddr.offset).Nodup) :
    (onCandidates std env st batch).2 =
      if env.useEstimateFrontier then st.2 ++ batch.lanes.map Candidate.estimate else st.2 := by
  have lanes : uniqueLanes [] batch.lanes = batch.lanes := by
    simpa using uniqueLanes_of_nodup batch.lanes [] (by simpa using distinct)
  simp only [onCandidates, lanes]
  split <;> rfl

theorem foldl_onCandidates_buffered (batches : List CandidateBatch)
    (st : Sched × List EstimateHeapEntry)
    (distinct : ((lanesOf batches).map fun lane => lane.decodedAddr.offset).Nodup) :
    (batches.foldl (onCandidates std env) st).2 =
      if env.useEstimateFrontier then st.2 ++ (lanesOf batches).map Candidate.estimate
      else st.2 := by
  induction batches generalizing st with
  | nil => simp [lanesOf]
  | cons batch rest ih =>
      simp only [lanesOf, List.flatMap_cons, List.map_append, List.nodup_append] at distinct
      rw [List.foldl_cons, ih (onCandidates std env st batch) distinct.2.1,
        onCandidates_buffered std env st distinct.1]
      split
      · simp [lanesOf]
      · rfl

/-- Merging an estimate offers its entry to the SafeOut heap. -/
theorem mergeEstimate_frontier (on : env.useEstimateFrontier = true) (some_k : env.config.topK ≠ 0)
    (s : Sched) (estimate : EstimateHeapEntry) :
    (mergeEstimate std env s estimate).safeoutFrontierHeap =
      (std.addBounded SafeOutFrontierEntry.lt env.config.topK.toNat
        ⟨estimate.distance, estimate.errorBound, estimate.distance.add estimate.errorBound⟩
        s.safeoutFrontierHeap).1 := by
  unfold mergeEstimate addSafeInFrontierEstimate addSafeOutFrontierEstimate
  simp only [on, some_k, Bool.not_true, Bool.false_or, beq_iff_eq, if_false, Bool.or_eq_true,
    Bool.not_eq_true']
  split_ifs <;> rfl

theorem finalizeCluster_frontier (on : env.useEstimateFrontier = true)
    (some_k : env.config.topK ≠ 0) (s : Sched) (lanes : List Candidate) :
    (finalizeCluster std env (s, lanes.map Candidate.estimate)).safeoutFrontierHeap =
      (lanes.map Candidate.frontierEntry).foldl
        (fun heap x => (std.addBounded SafeOutFrontierEntry.lt env.config.topK.toNat x heap).1)
        s.safeoutFrontierHeap := by
  unfold finalizeCluster
  induction lanes generalizing s with
  | nil => rfl
  | cons lane rest ih =>
      simp only [List.map_cons, List.foldl_cons] at ih ⊢
      rw [ih, mergeEstimate_frontier std env on some_k]
      rfl

/-! ## The invariant -/

/-- With the frontier in use, the heap holds the `topK` smallest upper bounds of the
candidates given. -/
def FrontierOk (given : List Candidate) (s : Sched) : Prop :=
  env.useEstimateFrontier = true → env.config.topK ≠ 0 →
    std.Smallest SafeOutFrontierEntry.lt env.config.topK.toNat
      (given.map Candidate.frontierEntry) s.safeoutFrontierHeap

/-- A candidate whose estimate is a number with a numeric error bound. -/
def Candidate.numeric (c : Candidate) : Prop := ∃ d e, c.estDist = .fin d ∧ c.estError = .fin e

theorem frontierEntry_order {given : List Candidate} (numeric : ∀ c ∈ given, c.numeric) :
    StrictWeakOn SafeOutFrontierEntry.lt (given.map Candidate.frontierEntry) where
  asymm _ _ _ _ below := Flt.lt_asymm below
  negTrans _ _ b inB _ _ first second := by
    refine Flt.lt_negTrans ?_ first second
    obtain ⟨c, mem, rfl⟩ := List.mem_map.1 inB
    obtain ⟨d, e, dist, error⟩ := numeric c mem
    simp [Candidate.frontierEntry, dist, error]

theorem frontierOk_start : FrontierOk std env [] {} := fun _ _ => std.smallest_nil _ _

variable {std env} {Cluster : Type} {probe : Prober Cluster}

/-- **A cluster adds its candidates to what the frontier knows.** -/
theorem frontierOk_step {given : List Candidate} {st : ProbeLoop}
    (ok : FrontierOk std env given st.sched) (cluster : Cluster) (finalCluster : Bool)
    (distinct : ((lanesOf (probeBatches env probe cluster st.sched)).map
      fun lane => lane.decodedAddr.offset).Nodup)
    (numeric : ∀ c ∈ given ++ lanesOf (probeBatches env probe cluster st.sched), c.numeric) :
    FrontierOk std env (given ++ lanesOf (probeBatches env probe cluster st.sched))
      (probeStep std env probe st cluster finalCluster).sched := by
  intro on some_k
  have heap := congrArg Prod.fst (foldl_onCandidates_estimates std env
    (probeBatches env probe cluster st.sched) (updateDynamicSafeInState env true st.sched, []))
  have estimates := foldl_onCandidates_buffered std env
    (probeBatches env probe cluster st.sched) (updateDynamicSafeInState env true st.sched, [])
    distinct
  have settled := congrArg Prod.fst (probeStep_estimates std env probe st cluster finalCluster)
  rw [probeCluster, settleDeferred_estimates] at settled
  dsimp only [Sched.estimates] at heap settled
  rw [settled, updateDynamicSafeInState_frontier]
  set sunk := (probeBatches env probe cluster st.sched).foldl (onCandidates std env)
    (updateDynamicSafeInState env true st.sched, [])
  rw [on, if_pos rfl, List.nil_append] at estimates
  have shape : sunk = (sunk.1, (lanesOf (probeBatches env probe cluster st.sched)).map
      Candidate.estimate) := Prod.ext rfl estimates
  rw [shape, finalizeCluster_frontier std env on some_k, heap, updateDynamicSafeInState_frontier,
    List.map_append]
  exact StdAlgo.foldl_addBounded_smallest _
    (by simpa using frontierEntry_order numeric) (ok on some_k)

/-! ## What a finite frontier says -/

/-- The frontier the prober is given is infinite or a number. -/
theorem probeSafeOutFrontier_cases {given : List Candidate} {s : Sched}
    (ok : FrontierOk std env given s) (numeric : ∀ c ∈ given, c.numeric) :
    probeSafeOutFrontier env s = .posInf ∨ ∃ u, probeSafeOutFrontier env s = .fin u ∧
      env.config.topK.toNat ≤
        given.countP fun c => !(Flt.fin u).lt c.frontierEntry.upperBound := by
  unfold probeSafeOutFrontier safeOutFrontierUpper
  split
  swap
  · exact .inl rfl
  split
  · exact .inl rfl
  rename_i dynamic full
  simp only [Bool.or_eq_true, Bool.not_eq_true', beq_iff_eq, decide_eq_true_eq, not_or,
    Bool.not_eq_false, not_lt] at full
  have small := ok full.1.1 full.1.2
  cases shape : s.safeoutFrontierHeap with
  | nil => exact .inl rfl
  | cons front rest =>
      rw [shape] at small full
      have inGiven : ∀ y ∈ front :: rest, ∃ c ∈ given, c.frontierEntry = y := fun y mem =>
        List.mem_map.1 (small.mem_seen mem)
      obtain ⟨c, mem, entry⟩ := inGiven front List.mem_cons_self
      obtain ⟨d, e, dist, error⟩ := numeric c mem
      have upper : front.upperBound = .fin (d + e) := by
        rw [← entry]
        simp [Candidate.frontierEntry, dist, error]
      refine .inr ⟨d + e, upper, ?_⟩
      obtain ⟨dropped, perm, -⟩ := small.split
      have order : StrictWeakOn SafeOutFrontierEntry.lt (front :: rest) :=
        (frontierEntry_order numeric).mono fun y inHeap => small.mem_seen inHeap
      have atOrBelow : (front :: rest).countP
          (fun y => !(Flt.fin (d + e)).lt y.upperBound) = (front :: rest).length := by
        rw [List.countP_eq_length]
        intro y inHeap
        rcases List.mem_cons.1 inHeap with rfl | inRest
        · simp [upper]
        · have := std.isHeap_front order small.isHeap y inRest
          rw [SafeOutFrontierEntry.lt, upper] at this
          simp [this]
      calc env.config.topK.toNat
        _ ≤ (front :: rest).countP fun y => !(Flt.fin (d + e)).lt y.upperBound := by
            rw [atOrBelow]; exact full.2
        _ ≤ (front :: rest ++ dropped).countP fun y => !(Flt.fin (d + e)).lt y.upperBound := by
            rw [List.countP_append]; omega
        _ = (given.map Candidate.frontierEntry).countP
              fun y => !(Flt.fin (d + e)).lt y.upperBound := perm.countP_eq _
        _ = given.countP fun c => !(Flt.fin (d + e)).lt c.frontierEntry.upperBound := by
            rw [List.countP_map]
            rfl

end VecFetch.Query
