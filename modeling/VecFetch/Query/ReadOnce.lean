/-
# Query.ReadOnce -- no candidate is lost or read twice

The law of a run without a budget, and the one way to break it: the pending count
is a `uint32_t`, so a final flush that finds `2 ^ 32` plans counts none.
-/
import VecFetch.Query.Ledger

namespace VecFetch.Query

open VecFetch.Theory

set_option autoImplicit false

variable (std : StdAlgo) (env : Env)

/-- Each candidate given to the sink has exactly one emitted read at its offset, a
whole-record read only if the record is small enough; no other read was emitted and
nothing is left pending or deferred. -/
structure ReadOnce (given : List Candidate) (s : Sched) : Prop where
  once : ∀ lane ∈ given, ∃ io,
    s.emitted.filter (fun io => io.readOffset == lane.decodedAddr.offset) = [io] ∧
      io.addr = lane.decodedAddr ∧ ReadOk env io
  no_more : s.emitted.length = given.length
  pendingAll_empty : s.pendingAllPlans = []
  pendingVecOnly_empty : s.unsentVecOnly = []
  deferred_empty : s.deferredSafeInPlans = []

/-- The reads at one offset, when offsets do not repeat. -/
theorem filter_offset_eq {reads : List PendingIO}
    (own : ∀ io ∈ reads, io.readOffset = io.addr.offset)
    (distinct : (reads.map fun io => io.addr.offset).Nodup) {io : PendingIO} (mem : io ∈ reads) :
    reads.filter (fun other => other.readOffset == io.addr.offset) = [io] := by
  induction reads with
  | nil => simp at mem
  | cons first rest ih =>
      rw [List.map_cons, List.nodup_cons] at distinct
      have ownRest : ∀ io ∈ rest, io.readOffset = io.addr.offset := fun io h =>
        own io (List.mem_cons_of_mem _ h)
      have ownFirst := own first List.mem_cons_self
      rcases List.mem_cons.1 mem with rfl | inRest
      · have noOther : rest.filter (fun other => other.readOffset == io.addr.offset) = [] := by
          rw [List.filter_eq_nil_iff]
          intro other h same
          rw [ownRest other h, beq_iff_eq] at same
          exact distinct.1 (List.mem_map.2 ⟨other, h, same⟩)
        rw [List.filter_cons_of_pos (by simp [ownFirst]), noOther]
      · have differs : first.addr.offset ≠ io.addr.offset := fun same =>
          distinct.1 (List.mem_map.2 ⟨io, inRest, same.symm⟩)
        rw [List.filter_cons_of_neg (by simpa [ownFirst] using differs),
          ih ownRest distinct.2 inRest]

/-- **No candidate is lost or read twice.**  Without a budget, over distinct offsets
and fewer than `2 ^ 32` candidates, every run reads every candidate exactly once. -/
theorem candidates_read_once {Cluster : Type} (probe : Prober Cluster) (clusters : List Cluster)
    (noBudget : env.config.nonSafeoutCandidateBudget = 0)
    (distinct : ((givenCandidates std env probe ⟨{}, 0, 0⟩ clusters).map
      fun lane => lane.decodedAddr.offset).Nodup)
    (few : (givenCandidates std env probe ⟨{}, 0, 0⟩ clusters).length < 2 ^ 32) :
    ReadOnce env (givenCandidates std env probe ⟨{}, 0, 0⟩ clusters)
      (probeResidentClusters std env probe clusters {}) := by
  obtain ⟨readsOk, perm, noDeferred, noAll, noVec⟩ :=
    probeResidentClusters_ledger std probe noBudget clusters distinct few
  set s := probeResidentClusters std env probe clusters {}
  set given := givenCandidates std env probe ⟨{}, 0, 0⟩ clusters
  have own : ∀ io ∈ s.emitted, io.readOffset = io.addr.offset := fun io mem => (readsOk io mem).1
  have distinctReads : (s.emitted.map fun io => io.addr.offset).Nodup := by
    have := (perm.map AddressEntry.offset).nodup_iff.2 (by simpa [Function.comp_def] using distinct)
    simpa [Function.comp_def] using this
  refine ⟨fun lane mem => ?_, ?_, noAll, noVec, noDeferred⟩
  · obtain ⟨io, inReads, sameAddr⟩ := List.mem_map.1 (perm.symm.subset (List.mem_map_of_mem mem))
    refine ⟨io, ?_, sameAddr, readsOk io inReads⟩
    rw [← sameAddr]
    exact filter_offset_eq own distinctReads inReads
  · simpa using perm.length_eq

/-! ## Two clusters, `2 ^ 32` candidates -/

namespace Wrap

/-- Static SafeIn, no SafeOut, flushing on pressure only. -/
def config : SearchConfig := { enableDynamicSafeout := false, submitBatchSize := 0 }

def environment : Env := ⟨config, .negInf, 512, false⟩

/-- The `i`-th record: an uncertain candidate of one page. -/
def lane (i : Nat) : Candidate :=
  ⟨i, .fin 0, .fin 0, .fin 0, .fin 0, .uncertain, ⟨UInt64.ofNat i, 4096⟩⟩

def batch (first count : Nat) (fits : count ≤ kMaxCandidates) : CandidateBatch :=
  ⟨(List.range' first count).map lane, by simpa using fits⟩

/-- A cluster's batches, whatever the thresholds. -/
def probe : Prober (List CandidateBatch) := fun batches _ _ => batches

def fullBatches (first n : Nat) : List CandidateBatch :=
  (List.range n).map fun i => batch (first + 32 * i) 32 (by decide)

/-- Sixteen candidates, too few to flush. -/
def small : List CandidateBatch := [batch 0 16 (by decide)]

/-- The other `2 ^ 32 - 16`. -/
def large : List CandidateBatch :=
  fullBatches 16 (2 ^ 27 - 1) ++ [batch (2 ^ 32 - 16) 16 (by decide)]

/-- `s` with the lanes queued for vector-only reads. -/
def queued (s : Sched) (lanes : List Candidate) : Sched :=
  { s with pendingVecOnlyPlans := s.pendingVecOnlyPlans ++ lanes.map fun l => ⟨l.decodedAddr⟩ }

theorem queued_queued (s : Sched) (a b : List Candidate) :
    queued (queued s a) b = queued s (a ++ b) := by
  simp [queued]

theorem lane_offsets_nodup {first count : Nat} (bound : first + count ≤ 2 ^ 64) :
    (((List.range' first count).map lane).map fun l => l.decodedAddr.offset).Nodup := by
  rw [List.map_map]
  refine (List.nodup_map_iff_inj_on List.nodup_range').2 fun a ha b hb same => ?_
  simp only [List.mem_range'_1] at ha hb
  have := congrArg UInt64.toNat same
  simp only [Function.comp_apply, lane] at this
  rwa [UInt64.toNat_ofNat_of_lt' (by change a < 2 ^ 64; omega),
    UInt64.toNat_ofNat_of_lt' (by change b < 2 ^ 64; omega)] at this

theorem fullBatches_lanes (first n : Nat) :
    lanesOf (fullBatches first n) = (List.range' first (32 * n)).map lane := by
  induction n with
  | zero => simp [fullBatches, lanesOf]
  | succ n ih =>
      have split : List.range' first (32 * (n + 1)) =
          List.range' first (32 * n) ++ List.range' (first + 32 * n) 32 := by
        rw [Nat.mul_succ, ← List.range'_append_1]
      simp only [lanesOf, fullBatches] at ih ⊢
      rw [List.range_succ, List.map_append, List.flatMap_append, ih, split, List.map_append]
      simp [batch]

theorem large_lanes : lanesOf large = (List.range' 16 (2 ^ 32 - 16)).map lane := by
  have split : List.range' 16 (2 ^ 32 - 16) =
      List.range' 16 (32 * (2 ^ 27 - 1)) ++ List.range' (2 ^ 32 - 16) 16 :=
    (List.range'_append_1 (s := 16) (m := 32 * (2 ^ 27 - 1)) (n := 16)).symm
  rw [split, List.map_append, large, lanesOf, List.flatMap_append]
  exact congrArg₂ (· ++ ·) (fullBatches_lanes _ _) (by simp [batch])

theorem foldl_pushVecOnly (lanes : List Candidate) (s : Sched) :
    lanes.foldl (fun s l => pushPlan (vecOnlyPlan environment l.decodedAddr) s) s =
      queued s lanes := by
  induction lanes generalizing s with
  | nil => simp [queued]
  | cons l rest ih =>
      rw [List.foldl_cons, ih]
      simp [queued, pushPlan, vecOnlyPlan]

theorem never_defers (s : Sched) : shouldDeferSafeInPlans environment s = false := rfl

theorem no_frontier : environment.useEstimateFrontier = false := rfl

theorem onCandidates_eq (s : Sched) {b : CandidateBatch} (uncertain : ∀ l ∈ b.lanes, ∃ i, l = lane i)
    (distinct : (b.lanes.map fun l => l.decodedAddr.offset).Nodup) :
    onCandidates std environment (s, []) b = (queued s b.lanes, []) := by
  have kept : uniqueLanes [] b.lanes = b.lanes := by
    simpa using uniqueLanes_of_nodup b.lanes [] (by simpa using distinct)
  have vecOnly : ∀ l ∈ b.lanes, useVecAll environment l = false := fun l mem => by
    obtain ⟨i, rfl⟩ := uncertain l mem
    simp [useVecAll, lane]
  have none_all : b.lanes.filter (useVecAll environment) = [] := by
    rw [List.filter_eq_nil_iff]
    exact fun l mem => by simp [vecOnly l mem]
  have all_vec : (b.lanes.filter fun l => !useVecAll environment l) = b.lanes := by
    rw [List.filter_eq_self]
    exact fun l mem => by simp [vecOnly l mem]
  have noBudget : environment.config.nonSafeoutCandidateBudget = 0 := rfl
  simp only [onCandidates, kept, never_defers, no_frontier, buildReadPlans, none_all, all_vec,
    List.foldl_nil, addPlan_of_noBudget std noBudget, foldl_pushVecOnly, Bool.false_eq_true,
    if_false]

theorem foldl_onCandidates_eq (batches : List CandidateBatch) (s : Sched)
    (uncertain : ∀ l ∈ lanesOf batches, ∃ i, l = lane i)
    (distinct : ((lanesOf batches).map fun l => l.decodedAddr.offset).Nodup) :
    batches.foldl (onCandidates std environment) (s, []) = (queued s (lanesOf batches), []) := by
  induction batches generalizing s with
  | nil => simp [lanesOf, queued]
  | cons b rest ih =>
      simp only [lanesOf, List.flatMap_cons, List.map_append, List.nodup_append] at distinct
      have onFirst := onCandidates_eq std s (b := b)
        (fun l mem => uncertain l (by simp [lanesOf, mem])) distinct.1
      have onRest := ih (queued s b.lanes)
        (fun l mem => uncertain l (by
          simp only [lanesOf, List.flatMap_cons, List.mem_append]
          exact Or.inr mem)) distinct.2.1
      rw [List.foldl_cons, onFirst, onRest, queued_queued]
      rfl

/-- Nothing is ever deferred, and the estimates are not kept. -/
theorem probeCluster_eq {s : Sched} (noDeferred : s.deferredSafeInPlans = [])
    (batches : List CandidateBatch) (uncertain : ∀ l ∈ lanesOf batches, ∃ i, l = lane i)
    (distinct : ((lanesOf batches).map fun l => l.decodedAddr.offset).Nodup) :
    probeCluster std environment probe s batches = queued s (lanesOf batches) := by
  have static : ∀ (advance : Bool) (s : Sched),
      updateDynamicSafeInState environment advance s = s := fun _ _ => rfl
  have settled : settleDeferred std environment (queued s (lanesOf batches)) =
      queued s (lanesOf batches) := by
    have notHeld : shouldHoldDeferredSafeInPlans environment (queued s (lanesOf batches)) =
        (false, queued s (lanesOf batches)) := rfl
    have empty : (queued s (lanesOf batches)).deferredSafeInPlans.isEmpty = true := by
      simp [queued, noDeferred]
    simp only [settleDeferred, notHeld, flushDeferredSafeInPlans, empty, if_true,
      Bool.false_eq_true, if_false]
  simp only [probeCluster, probeBatches, probe, static]
  rw [foldl_onCandidates_eq std batches s uncertain distinct]
  exact settled

theorem small_lanes : lanesOf small = (List.range' 0 16).map lane := by
  simp [lanesOf, small, batch]

theorem mem_lanes {first count : Nat} {l : Candidate} (mem : l ∈ (List.range' first count).map lane) :
    ∃ i, l = lane i := by
  obtain ⟨i, -, rfl⟩ := List.mem_map.1 mem
  exact ⟨i, rfl⟩

/-- The queue after both clusters: its length is `2 ^ 32`. -/
theorem both_lanes : lanesOf small ++ lanesOf large = (List.range' 0 (2 ^ 32)).map lane := by
  have split : List.range' 0 (2 ^ 32) = List.range' 0 16 ++ List.range' 16 (2 ^ 32 - 16) :=
    (List.range'_append_1 (s := 0) (m := 16) (n := 2 ^ 32 - 16)).symm
  rw [small_lanes, large_lanes, split, List.map_append]

theorem count_queued (lanes : List Candidate) :
    pendingDataRequestCount (queued {} lanes) = UInt32.ofNat lanes.length := by
  simp [pendingDataRequestCount, queued]

theorem earlySubmit_off (st : ProbeLoop) : earlySubmitStep std environment st = st := rfl

/-- Sixteen plans trigger no flush before the final cluster. -/
theorem submitStep_sixteen {st : ProbeLoop} (count : pendingDataRequestCount st.sched = 16) :
    submitStep std environment false st = st := by
  have threshold : emitThreshold environment = 0xFFFFFFFF := rfl
  simp [submitStep, count, threshold, kPendingRequestFlushThreshold]

/-- A count of zero triggers none at all. -/
theorem submitStep_zero {st : ProbeLoop} (final : Bool)
    (count : pendingDataRequestCount st.sched = 0) :
    submitStep std environment final st = st := by
  simp [submitStep, count]

theorem small_distinct : ((lanesOf small).map fun l => l.decodedAddr.offset).Nodup := by
  rw [small_lanes]
  exact lane_offsets_nodup (by decide)

theorem large_distinct : ((lanesOf large).map fun l => l.decodedAddr.offset).Nodup := by
  rw [large_lanes]
  exact lane_offsets_nodup (by decide)

theorem probeSmall : probeCluster std environment probe {} small = queued {} (lanesOf small) :=
  probeCluster_eq std rfl small
    (fun l mem => mem_lanes (by rwa [small_lanes] at mem)) small_distinct

theorem probeBoth : probeCluster std environment probe (queued {} (lanesOf small)) large =
    queued {} ((List.range' 0 (2 ^ 32)).map lane) := by
  rw [probeCluster_eq std rfl large (fun l mem => mem_lanes (by rwa [large_lanes] at mem))
    large_distinct, queued_queued, both_lanes]

theorem count_small : pendingDataRequestCount (queued {} (lanesOf small)) = 16 := by
  rw [count_queued, small_lanes, List.length_map, List.length_range']
  rfl

theorem count_both :
    pendingDataRequestCount (queued {} ((List.range' 0 (2 ^ 32)).map lane)) = 0 := by
  rw [count_queued, List.length_map, List.length_range']
  rfl

theorem loop_eq : (probeLoop std environment probe ⟨{}, 0, 0⟩ [small, large]).sched =
    queued {} ((List.range' 0 (2 ^ 32)).map lane) := by
  have first : probeStep std environment probe ⟨{}, 0, 0⟩ small false =
      ⟨queued {} (lanesOf small), 1, 1⟩ := by
    rw [probeStep, probeSmall, earlySubmit_off]
    exact submitStep_sixteen std count_small
  have second : probeStep std environment probe ⟨queued {} (lanesOf small), 1, 1⟩ large true =
      ⟨queued {} ((List.range' 0 (2 ^ 32)).map lane), 2, 2⟩ := by
    rw [probeStep, probeBoth, earlySubmit_off]
    exact submitStep_zero std true count_both
  simp only [probeLoop, List.isEmpty_cons, List.isEmpty_nil, first, second]

theorem probeTail_eq {lanes : List Candidate}
    (count : pendingDataRequestCount (queued {} lanes) = 0) :
    probeTail std environment (queued {} lanes) = queued {} lanes := by
  have flushed : ∀ threshold, flushDeferredSafeInPlans std environment threshold true
      (queued {} lanes) = queued {} lanes := fun _ => rfl
  have noHeap : materializeBudgetedReadPlans std environment (queued {} lanes) =
      queued {} lanes := rfl
  simp only [probeTail, flushed, noHeap, count]
  rfl

theorem emitted_queued (lanes : List Candidate) : (queued {} lanes).emitted = [] := rfl

/-- The lanes given in a run, whatever the scheduler's state. -/
theorem given_eq (clusters : List (List CandidateBatch)) (st : ProbeLoop) :
    givenCandidates std environment probe st clusters = clusters.flatMap lanesOf := by
  induction clusters generalizing st with
  | nil => rfl
  | cons cluster rest ih =>
      rw [givenCandidates, ih]
      rfl

/-- After the tail every plan is still queued. -/
theorem run_eq : probeResidentClusters std environment probe [small, large] {} =
    queued {} ((List.range' 0 (2 ^ 32)).map lane) := by
  rw [probeResidentClusters, loop_eq]
  exact probeTail_eq std count_both

end Wrap

/-- The smaller cluster alone is read in full. -/
theorem candidates_read_once_small :
    ReadOnce Wrap.environment
      (givenCandidates StdAlgo.reference Wrap.environment Wrap.probe ⟨{}, 0, 0⟩ [Wrap.small])
      (probeResidentClusters StdAlgo.reference Wrap.environment Wrap.probe [Wrap.small] {}) := by
  have given : givenCandidates StdAlgo.reference Wrap.environment Wrap.probe ⟨{}, 0, 0⟩
      [Wrap.small] = lanesOf Wrap.small := by
    rw [Wrap.given_eq, List.flatMap_cons, List.flatMap_nil, List.append_nil]
  refine candidates_read_once StdAlgo.reference Wrap.environment Wrap.probe [Wrap.small] rfl ?_ ?_
  · rw [given]
    exact Wrap.small_distinct
  · rw [given, Wrap.small_lanes, List.length_map, List.length_range']
    decide

/-- With `2 ^ 32` distinct candidates and no budget, the final flush counts zero and
nothing is read. -/
theorem reads_lost_at_two_pow_32 :
    Wrap.environment.config.nonSafeoutCandidateBudget = 0 ∧
      ((givenCandidates StdAlgo.reference Wrap.environment Wrap.probe ⟨{}, 0, 0⟩
        [Wrap.small, Wrap.large]).map fun lane => lane.decodedAddr.offset).Nodup ∧
      (probeResidentClusters StdAlgo.reference Wrap.environment Wrap.probe
        [Wrap.small, Wrap.large] {}).emitted = [] ∧
      ¬ ReadOnce Wrap.environment
        (givenCandidates StdAlgo.reference Wrap.environment Wrap.probe ⟨{}, 0, 0⟩
          [Wrap.small, Wrap.large])
        (probeResidentClusters StdAlgo.reference Wrap.environment Wrap.probe
          [Wrap.small, Wrap.large] {}) := by
  have given : givenCandidates StdAlgo.reference Wrap.environment Wrap.probe ⟨{}, 0, 0⟩
      [Wrap.small, Wrap.large] = (List.range' 0 (2 ^ 32)).map Wrap.lane := by
    rw [Wrap.given_eq, ← Wrap.both_lanes, List.flatMap_cons, List.flatMap_cons, List.flatMap_nil,
      List.append_nil]
  rw [given, Wrap.run_eq]
  refine ⟨rfl, Wrap.lane_offsets_nodup (by decide), Wrap.emitted_queued _, fun law => ?_⟩
  have none_read := law.no_more
  rw [Wrap.emitted_queued, List.length_map, List.length_range', List.length_nil] at none_read
  omega

end VecFetch.Query
