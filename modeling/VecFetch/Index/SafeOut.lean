/-
# Index.SafeOut -- SafeOut pruning is sound over whole queries

The frontier a cluster is probed with was built from the candidates of earlier
clusters.  If their error bounds are right, `topK` of them are no farther than the
frontier; if the margin of a SafeOut test is right, what it drops is farther.  So
every dropped record has `topK` emitted records strictly closer, and the `topK`
smallest distances survive (`safeOut_pruning_sound`).

The batch classifier of stage 2 tests with the SafeIn margin and reports the SafeOut
margin.  They agree up to the `1e-12` its guard tolerates; within that tolerance an
estimate has to be within both (`safeOut_margins_both_needed`).
-/
import VecFetch.Theory.KSmallest
import VecFetch.Index.ClusterProber
import VecFetch.Query.FrontierRun
import Mathlib.Tactic.Linarith

namespace VecFetch.Index

open VecFetch.Theory VecFetch.Query

set_option autoImplicit false

/-! ## What a block drops -/

section Block

variable (env : Env) (p : ClusterProber) (pc : ProbedCluster)
  (safeoutFrontierUpper safeinThresholdBase : Flt)

/-- The lanes of a block dropped as SafeOut: the whole block by the envelope, or some at
stage 1 and some at stage 2. -/
def droppedLanes (b : Nat) (block : ProbeBlock) : List ProbeLane :=
  if skipsBlock env pc safeoutFrontierUpper b then block.lanes b
  else
    (block.lanes b).filter (stage1SafeOut pc safeoutFrontierUpper) ++
      (stage2Lanes env p pc safeoutFrontierUpper safeinThresholdBase b block).filter
        (stage2SafeOut env p pc safeoutFrontierUpper)

/-- **A block's records are its candidates and what it drops.** -/
theorem block_partition (b : Nat) (block : ProbeBlock) :
    ((blockCandidates env p pc safeoutFrontierUpper safeinThresholdBase b block).map
        Candidate.decodedAddr ++
      (droppedLanes env p pc safeoutFrontierUpper safeinThresholdBase b block).map
        fun lane => lane.record.addr).Perm
      (block.records.map ProbeRecord.addr) := by
  have records : (block.lanes b).map (fun lane => lane.record.addr) =
      block.records.map ProbeRecord.addr := by
    rw [ProbeBlock.lanes, List.map_map]
    have : (fun lane : ProbeLane => lane.record.addr) ∘
        (fun x : ProbeRecord × Nat => (⟨x.2, b * 32 + x.2, x.1⟩ : ProbeLane)) =
          ProbeRecord.addr ∘ Prod.fst := rfl
    rw [this, ← List.map_map, List.zipIdx_map_fst]
  rw [← records]
  unfold blockCandidates droppedLanes
  split
  · simp
  · set kept := maybeIn pc safeoutFrontierUpper b block with hkept
    set out₁ := (block.lanes b).filter (stage1SafeOut pc safeoutFrontierUpper)
    set lanes₂ := stage2Lanes env p pc safeoutFrontierUpper safeinThresholdBase b block with hlanes₂
    have stage1 : (out₁ ++ kept).Perm (block.lanes b) := List.filter_append_perm _ _
    have survivors : (lanes₂ ++ kept.filter fun lane =>
        !toStage2 env p pc safeinThresholdBase lane).Perm kept := List.filter_append_perm _ _
    have stage2 := List.filter_append_perm (stage2SafeOut env p pc safeoutFrontierUpper) lanes₂
    have candidates := (stage2_candidates_perm env p pc safeoutFrontierUpper safeinThresholdBase b
      block).map Candidate.decodedAddr
    rw [← hlanes₂, List.map_map] at candidates
    rw [List.map_append, List.map_append, List.map_map]
    have addr₁ : Candidate.decodedAddr ∘ stage1Candidate env pc safeinThresholdBase =
        fun lane => lane.record.addr := rfl
    have addr₂ : Candidate.decodedAddr ∘ stage2Candidate p pc safeinThresholdBase =
        fun lane => lane.record.addr := rfl
    rw [addr₂] at candidates
    rw [addr₁]
    classical
    have c₁ := List.perm_iff_count.1 (stage1.map fun lane => lane.record.addr)
    have c₂ := List.perm_iff_count.1 (survivors.map fun lane => lane.record.addr)
    have c₃ := List.perm_iff_count.1 (stage2.map fun lane => lane.record.addr)
    have c₄ := List.perm_iff_count.1 candidates
    rw [List.perm_iff_count]
    intro addr
    have h₁ := c₁ addr
    have h₂ := c₂ addr
    have h₃ := c₃ addr
    have h₄ := c₄ addr
    simp only [List.map_append, List.count_append] at h₁ h₂ h₃ h₄ ⊢
    omega

/-! ## What a cluster drops -/

/-- The records of a cluster. -/
def ProbedCluster.records (pc : ProbedCluster) : List ProbeRecord :=
  pc.blocks.flatMap ProbeBlock.records

def droppedRecords : List ProbeRecord :=
  pc.blocks.zipIdx.flatMap fun (block, b) =>
    (droppedLanes env p pc safeoutFrontierUpper safeinThresholdBase b block).map ProbeLane.record

theorem lanesOf_probe : lanesOf (p.probe env pc safeoutFrontierUpper safeinThresholdBase) =
    pc.blocks.zipIdx.flatMap fun (block, b) =>
      blockCandidates env p pc safeoutFrontierUpper safeinThresholdBase b block := by
  unfold ClusterProber.probe lanesOf
  induction pc.blocks.zipIdx with
  | nil => rfl
  | cons x rest ih =>
      obtain ⟨block, b⟩ := x
      rw [List.filterMap_cons, List.flatMap_cons, ← ih]
      by_cases none :
          blockCandidates env p pc safeoutFrontierUpper safeinThresholdBase b block = []
      · simp [probeBlock, none]
      · simp [probeBlock, none]

theorem cluster_partition :
    ((lanesOf (p.probe env pc safeoutFrontierUpper safeinThresholdBase)).map
        Candidate.decodedAddr ++
      (droppedRecords env p pc safeoutFrontierUpper safeinThresholdBase).map ProbeRecord.addr).Perm
      (pc.records.map ProbeRecord.addr) := by
  have blocks : pc.records = pc.blocks.zipIdx.flatMap fun x => x.1.records := by
    have := List.flatMap_map Prod.fst ProbeBlock.records (l := pc.blocks.zipIdx)
    rw [List.zipIdx_map_fst] at this
    exact this
  rw [lanesOf_probe, blocks]
  unfold droppedRecords
  induction pc.blocks.zipIdx with
  | nil => simp
  | cons x rest ih =>
      obtain ⟨block, b⟩ := x
      have here := block_partition env p pc safeoutFrontierUpper safeinThresholdBase b block
      classical
      rw [List.perm_iff_count] at ih here ⊢
      intro addr
      have h₁ := ih addr
      have h₂ := here addr
      simp only [List.flatMap_cons, List.map_append, List.map_map, List.count_append,
        Function.comp_def] at h₁ h₂ ⊢
      omega

end Block

/-! ## Estimates and their margins -/

/-- Every estimate of the cluster's records is within the margins used with it: the one
its SafeOut test uses, and the error it reports to the frontier.  A block's envelope
bounds its stage-1 lower bounds. -/
structure EstimatesOk (env : Env) (p : ClusterProber) (trueDist : AddressEntry → ℚ)
    (pc : ProbedCluster) : Prop where
  stage1 : ∀ r ∈ pc.records, |r.estDistS1 - trueDist r.addr| ≤ safeoutMarginS1 pc r
  stage2_reported : ∀ r ∈ pc.records, |r.estDistS2 - trueDist r.addr| ≤ safeoutMarginS2 p pc r
  stage2_tested : ∀ r ∈ pc.records, |r.estDistS2 - trueDist r.addr| ≤ stage2TestMargin env p pc r
  envelope : ∀ b block, (block, b) ∈ pc.blocks.zipIdx →
    ∀ lowerBound, pc.blockEnvelopeLowerBound b = some lowerBound →
      ∀ r ∈ block.records, lowerBound ≤ r.estDistS1 - safeoutMarginS1 pc r

section Sound

variable {env : Env} {p : ClusterProber} {trueDist : AddressEntry → ℚ} {pc : ProbedCluster}

/-- Above the frontier and a margin, an estimate within that margin is of a record
farther than the frontier. -/
theorem farther_of_test {u margin est true_ : ℚ} (within : |est - true_| ≤ margin)
    (test : ((Flt.fin u).add (.fin margin)).lt (.fin est) = true) : u < true_ := by
  simp only [Flt.add_fin, Flt.lt_fin, decide_eq_true_eq] at test
  have := (abs_le.1 within).2
  linarith

theorem lane_record_inBlock {b : Nat} {block : ProbeBlock} {lane : ProbeLane}
    (mem : lane ∈ block.lanes b) : lane.record ∈ block.records := by
  obtain ⟨⟨record, j⟩, inZip, rfl⟩ := List.mem_map.1 mem
  exact List.mem_of_getElem? (List.mem_zipIdx_iff_getElem?.1 inZip)

theorem lane_record_mem {b : Nat} {block : ProbeBlock} (inCluster : (block, b) ∈ pc.blocks.zipIdx)
    {lane : ProbeLane} (mem : lane ∈ block.lanes b) : lane.record ∈ pc.records := by
  have inBlocks : block ∈ pc.blocks :=
    List.mem_of_getElem? (List.mem_zipIdx_iff_getElem?.1 inCluster)
  exact List.mem_flatMap.2 ⟨block, inBlocks, lane_record_inBlock mem⟩

/-- A block the envelope skips is one that stage 1 would drop whole. -/
theorem stage1SafeOut_of_skipsBlock (ok : EstimatesOk env p trueDist pc) {frontier : Flt} {b : Nat}
    {block : ProbeBlock} (inCluster : (block, b) ∈ pc.blocks.zipIdx)
    (skipped : skipsBlock env pc frontier b = true) {lane : ProbeLane}
    (mem : lane ∈ block.lanes b) : stage1SafeOut pc frontier lane = true := by
  unfold skipsBlock at skipped
  rw [Bool.and_eq_true] at skipped
  split at skipped
  · rename_i lowerBound upper bound
    have below : upper < lowerBound := of_decide_eq_true skipped.2
    have := ok.envelope b block inCluster lowerBound bound lane.record (lane_record_inBlock mem)
    simp only [stage1SafeOut, Flt.add_fin, Flt.lt_fin, decide_eq_true_eq]
    linarith
  · exact absurd skipped.2 Bool.false_ne_true

/-- A dropped record failed one of the two SafeOut tests. -/
theorem dropped_cases (ok : EstimatesOk env p trueDist pc) {frontier base : Flt} {r : ProbeRecord}
    (dropped : r ∈ droppedRecords env p pc frontier base) :
    r ∈ pc.records ∧
      ((frontier.add (.fin (safeoutMarginS1 pc r))).lt (.fin r.estDistS1) = true ∨
        (frontier.add (.fin (stage2TestMargin env p pc r))).lt (.fin r.estDistS2) = true) := by
  obtain ⟨⟨block, b⟩, inCluster, inBlock⟩ := List.mem_flatMap.1 dropped
  obtain ⟨lane, mem, rfl⟩ := List.mem_map.1 inBlock
  unfold droppedLanes at mem
  split at mem
  · rename_i skipped
    exact ⟨lane_record_mem inCluster mem,
      .inl (stage1SafeOut_of_skipsBlock ok inCluster skipped mem)⟩
  · rcases List.mem_append.1 mem with atStage1 | atStage2
    · obtain ⟨inLanes, out⟩ := List.mem_filter.1 atStage1
      exact ⟨lane_record_mem inCluster inLanes, .inl out⟩
    · obtain ⟨inStage2, out⟩ := List.mem_filter.1 atStage2
      have inLanes := List.mem_of_mem_filter (List.mem_of_mem_filter inStage2)
      exact ⟨lane_record_mem inCluster inLanes, .inr out⟩

/-- **What is dropped is farther than the frontier**, and an infinite frontier drops
nothing. -/
theorem dropped_farther (ok : EstimatesOk env p trueDist pc) {frontier base : Flt} {r : ProbeRecord}
    (dropped : r ∈ droppedRecords env p pc frontier base) :
    frontier ≠ .posInf ∧ ∀ u, frontier = .fin u → u < trueDist r.addr := by
  obtain ⟨inCluster, test⟩ := dropped_cases ok dropped
  constructor
  · rintro rfl
    simp at test
  · rintro u rfl
    rcases test with test | test
    · exact farther_of_test (ok.stage1 r inCluster) test
    · exact farther_of_test (ok.stage2_tested r inCluster) test

/-- **What is emitted reports a right error bound.** -/
theorem emitted_within (ok : EstimatesOk env p trueDist pc) {frontier base : Flt} {c : Candidate}
    (emitted : c ∈ lanesOf (p.probe env pc frontier base)) :
    ∃ d e, c.estDist = .fin d ∧ c.estError = .fin e ∧ trueDist c.decodedAddr ≤ d + e := by
  rw [lanesOf_probe] at emitted
  obtain ⟨⟨block, b⟩, inCluster, inBlock⟩ := List.mem_flatMap.1 emitted
  dsimp only at inBlock
  unfold blockCandidates at inBlock
  split at inBlock
  · cases inBlock
  · rcases List.mem_append.1 inBlock with atStage1 | atStage2
    · obtain ⟨lane, mem, rfl⟩ := List.mem_map.1 atStage1
      have inRecords := lane_record_mem inCluster
        (List.mem_of_mem_filter (List.mem_of_mem_filter mem))
      have := (abs_le.1 (ok.stage1 lane.record inRecords)).1
      exact ⟨_, _, rfl, rfl, by simp only [stage1Candidate]; linarith⟩
    · have := (stage2_candidates_perm env p pc frontier base b block).subset atStage2
      obtain ⟨lane, mem, rfl⟩ := List.mem_map.1 this
      have inRecords := lane_record_mem inCluster (List.mem_of_mem_filter
        (List.mem_of_mem_filter (List.mem_of_mem_filter mem)))
      have := (abs_le.1 (ok.stage2_reported lane.record inRecords)).1
      exact ⟨_, _, rfl, rfl, by simp only [stage2Candidate]; linarith⟩

end Sound

/-! ## The run -/

section Run

variable (std : StdAlgo) (env : Env) (p : ClusterProber)

/-- The records dropped as SafeOut over the clusters of a run. -/
def droppedInRun : ProbeLoop → List ProbedCluster → List ProbeRecord
  | _, [] => []
  | st, pc :: rest =>
      droppedRecords env p pc (probeSafeOutFrontier env st.sched)
          (safeInThresholdForProbe env (updateDynamicSafeInState env true st.sched)) ++
        droppedInRun (probeStep std env (p.probe env) st pc rest.isEmpty) rest

/-- The records of the probed clusters. -/
def allRecords (clusters : List ProbedCluster) : List ProbeRecord :=
  clusters.flatMap ProbedCluster.records

/-- A run's records are its candidates and what it drops. -/
theorem run_partition (clusters : List ProbedCluster) (st : ProbeLoop) :
    ((givenCandidates std env (p.probe env) st clusters).map Candidate.decodedAddr ++
      (droppedInRun std env p st clusters).map ProbeRecord.addr).Perm
      ((allRecords clusters).map ProbeRecord.addr) := by
  induction clusters generalizing st with
  | nil => simp [givenCandidates, droppedInRun, allRecords]
  | cons pc rest ih =>
      have later := ih (probeStep std env (p.probe env) st pc rest.isEmpty)
      have here := cluster_partition env p pc (probeSafeOutFrontier env st.sched)
        (safeInThresholdForProbe env (updateDynamicSafeInState env true st.sched))
      classical
      rw [List.perm_iff_count] at later here ⊢
      intro addr
      have h₁ := later addr
      have h₂ := here addr
      simp only [givenCandidates, probeBatches, droppedInRun, allRecords, List.flatMap_cons,
        List.map_append, List.count_append] at h₁ h₂ ⊢
      omega

variable {std env p} {trueDist : AddressEntry → ℚ}

/-- Candidates whose reported error bounds are right. -/
def Within (trueDist : AddressEntry → ℚ) (given : List Candidate) : Prop :=
  ∀ c ∈ given, ∃ d e, c.estDist = .fin d ∧ c.estError = .fin e ∧ trueDist c.decodedAddr ≤ d + e

theorem Within.numeric {given : List Candidate} (within : Within trueDist given) :
    ∀ c ∈ given, c.numeric := fun c mem => by
  obtain ⟨d, e, dist, error, -⟩ := within c mem
  exact ⟨d, e, dist, error⟩

/-- **Every record a run drops has `topK` given candidates strictly closer.** -/
theorem droppedInRun_covered (clusters : List ProbedCluster) (before : List Candidate)
    (st : ProbeLoop) (ok : FrontierOk std env before st.sched) (within : Within trueDist before)
    (distinct : ((givenCandidates std env (p.probe env) st clusters).map
      fun lane => lane.decodedAddr.offset).Nodup)
    (estimates : ∀ pc ∈ clusters, EstimatesOk env p trueDist pc) :
    ∀ r ∈ droppedInRun std env p st clusters, env.config.topK.toNat ≤
      (before ++ givenCandidates std env (p.probe env) st clusters).countP
        fun c => decide (trueDist c.decodedAddr < trueDist r.addr) := by
  induction clusters generalizing before st with
  | nil => intro r mem; cases mem
  | cons pc rest ih =>
      intro r mem
      have pcOk := estimates pc List.mem_cons_self
      set here := lanesOf (probeBatches env (p.probe env) pc st.sched) with hhere
      simp only [givenCandidates, List.map_append, List.nodup_append] at distinct
      have withinHere : Within trueDist (before ++ here) := by
        intro c inBoth
        rcases List.mem_append.1 inBoth with h | h
        · exact within c h
        · exact emitted_within pcOk h
      rcases List.mem_append.1 mem with now | later
      · obtain ⟨finite, farther⟩ := dropped_farther pcOk now
        rcases probeSafeOutFrontier_cases ok within.numeric with inf | ⟨u, frontier, many⟩
        · exact absurd inf finite
        · have closer : (before.countP fun c => !(Flt.fin u).lt c.frontierEntry.upperBound) ≤
              before.countP fun c => decide (trueDist c.decodedAddr < trueDist r.addr) := by
            refine List.countP_mono_left fun c inBefore notAbove => ?_
            obtain ⟨d, e, dist, error, bound⟩ := within c inBefore
            simp only [Candidate.frontierEntry, dist, error, Flt.add_fin, Flt.lt_fin,
              Bool.not_eq_true', decide_eq_false_iff_not, not_lt] at notAbove
            have := farther u frontier
            exact decide_eq_true (by linarith)
          rw [List.countP_append]
          omega
      · have := ih _ _ (frontierOk_step ok pc rest.isEmpty distinct.1 withinHere.numeric) withinHere
          distinct.2.1 (fun pc' inRest => estimates pc' (List.mem_cons_of_mem _ inRest)) r later
        rw [List.append_assoc] at this
        exact this

/-! ## Soundness -/

/-- SafeOut pruning lost nothing: what was dropped has `k` other records strictly
closer, and the `k` smallest distances are among the emitted candidates. -/
structure SafeOutSound (k : Nat) (trueDist : AddressEntry → ℚ) (records dropped : List ProbeRecord)
    (emitted : List Candidate) : Prop where
  partition : (emitted.map Candidate.decodedAddr ++ dropped.map ProbeRecord.addr).Perm
    (records.map ProbeRecord.addr)
  covered : ∀ r ∈ dropped, k ≤ records.countP
    fun x => decide (x.addr ≠ r.addr ∧ trueDist x.addr < trueDist r.addr)
  k_smallest : kSmallest k (emitted.map fun c => trueDist c.decodedAddr) =
    kSmallest k (records.map fun r => trueDist r.addr)

end Run

/-- **SafeOut pruning is sound over whole queries**, in exact arithmetic, for estimates
within their margins and every record stored in one probed cluster. -/
theorem safeOut_pruning_sound (std : StdAlgo) (env : Env) (p : ClusterProber)
    (clusters : List ProbedCluster) (trueDist : AddressEntry → ℚ)
    (distinct : ((allRecords clusters).map fun r => r.addr.offset).Nodup)
    (estimates : ∀ pc ∈ clusters, EstimatesOk env p trueDist pc) :
    SafeOutSound env.config.topK.toNat trueDist (allRecords clusters)
      (droppedInRun std env p ⟨{}, 0, 0⟩ clusters)
      (givenCandidates std env (p.probe env) ⟨{}, 0, 0⟩ clusters) := by
  have partition := run_partition std env p clusters ⟨{}, 0, 0⟩
  set emitted := givenCandidates std env (p.probe env) ⟨{}, 0, 0⟩ clusters
  set dropped := droppedInRun std env p ⟨{}, 0, 0⟩ clusters
  have emittedDistinct : (emitted.map fun lane => lane.decodedAddr.offset).Nodup := by
    have := (partition.map AddressEntry.offset).nodup_iff.2 (by simpa [Function.comp_def] using distinct)
    rw [List.map_append, List.nodup_append, List.map_map] at this
    exact this.1
  have below : ∀ r ∈ dropped, env.config.topK.toNat ≤
      emitted.countP fun c => decide (trueDist c.decodedAddr < trueDist r.addr) := by
    have within : Within trueDist [] := by simp [Within]
    have := droppedInRun_covered clusters [] ⟨{}, 0, 0⟩ (frontierOk_start std env) within
      emittedDistinct estimates
    simpa using this
  refine ⟨partition, fun r mem => ?_, ?_⟩
  · have counts := (partition.map trueDist).countP_eq fun d => decide (d < trueDist r.addr)
    have other : ((allRecords clusters).countP fun x =>
        decide (x.addr ≠ r.addr ∧ trueDist x.addr < trueDist r.addr)) =
          (allRecords clusters).countP fun x => decide (trueDist x.addr < trueDist r.addr) := by
      refine List.countP_congr fun x _ => ?_
      simp only [decide_eq_true_eq, and_iff_right_iff_imp]
      exact fun closer same => absurd closer (by rw [same]; exact lt_irrefl _)
    rw [other]
    have := below r mem
    simp only [List.map_append, List.map_map, List.countP_append, List.countP_map,
      Function.comp_def] at counts
    omega
  · have all := kSmallest_perm (k := env.config.topK.toNat) (partition.map trueDist)
    rw [List.map_append, kSmallest_append_of_below (by
      intro d mem
      simp only [List.map_map, List.mem_map, Function.comp_apply] at mem
      obtain ⟨r, inDropped, rfl⟩ := mem
      have := below r inDropped
      rw [List.map_map, List.countP_map]
      exact this)] at all
    simpa [Function.comp_def] using all

/-! ### One result, two clusters of one record each -/

/-- One result is wanted. -/
def onlyBest : Env := ⟨{ topK := 1 }, .fin 0, 8, false⟩

/-- Codes with one extra bit. -/
def twoBit : ClusterProber := ⟨2⟩

/-- A cluster of one record of norm one. -/
def oneRecord (offset : UInt64) (safein safeout estDistS1 estDistS2 : ℚ) : ProbedCluster where
  blocks := [⟨[⟨⟨offset, 8⟩, 1, estDistS1, estDistS2⟩], by simp⟩]
  safeinMarginFactor := safein
  safeoutMarginFactor := safeout
  hasExRaBitQ := true
  usesOfficial1PlusN := false
  blockEnvelopeLowerBound _ := none

namespace FarSecond

/-- The second record is far off and is dropped at stage 1. -/
def clusters : List ProbedCluster := [oneRecord 0 1 1 1 1, oneRecord 1 1 1 10 10]

def trueDist (a : AddressEntry) : ℚ := if a.offset = 0 then 1 else 10

end FarSecond

theorem safeOut_pruning_sound_farSecond :
    SafeOutSound 1 FarSecond.trueDist (allRecords FarSecond.clusters)
      (droppedInRun StdAlgo.reference onlyBest twoBit ⟨{}, 0, 0⟩ FarSecond.clusters)
      (givenCandidates StdAlgo.reference onlyBest (twoBit.probe onlyBest) ⟨{}, 0, 0⟩
        FarSecond.clusters) := by
  refine safeOut_pruning_sound StdAlgo.reference onlyBest twoBit FarSecond.clusters
    FarSecond.trueDist (by decide) fun pc mem => ⟨?_, ?_, ?_, ?_⟩
  · revert pc
    decide +kernel
  · revert pc
    decide +kernel
  · revert pc
    decide +kernel
  · intro b block _ lowerBound bound
    simp only [FarSecond.clusters, List.mem_cons, List.not_mem_nil, or_false] at mem
    rcases mem with rfl | rfl <;> cases bound

/-- The run drops the second record. -/
example : (droppedInRun StdAlgo.reference onlyBest twoBit ⟨{}, 0, 0⟩ FarSecond.clusters).map
    ProbeRecord.addr = [⟨1, 8⟩] := by
  decide +kernel

namespace NearlyEqualMargins

/-- `10` and some units of `1e-13`. -/
def near (units : ℚ) : ℚ := 10 + units / 10000000000000

/-- At stage 2 the reported margin is five units and the tested one zero. -/
def reported : List ProbedCluster :=
  [oneRecord 0 0 (1 / 1000000000000) (near 0) (near 0),
    oneRecord 1 0 (1 / 1000000000000) (near 0) (near 6)]

def reportedDist (a : AddressEntry) : ℚ := if a.offset = 0 then near 5 else near 1

/-- At stage 2 the reported margin is zero and the tested one five units. -/
def tested : List ProbedCluster :=
  [oneRecord 0 (1 / 1000000000000) 0 (near 0) (near (-5)),
    oneRecord 1 (1 / 1000000000000) 0 (near (-2)) (near (-2))]

def testedDist (a : AddressEntry) : ℚ := if a.offset = 0 then near 0 else near (-2)

end NearlyEqualMargins

open NearlyEqualMargins in
/-- **Neither margin of stage 2 is enough by itself**: with each estimate within its
reported margin, or with each within its tested one, the closer record is dropped. -/
theorem safeOut_margins_both_needed :
    ((∀ pc ∈ reported, ∀ r ∈ pc.records,
        |r.estDistS1 - reportedDist r.addr| ≤ safeoutMarginS1 pc r ∧
        |r.estDistS2 - reportedDist r.addr| ≤ safeoutMarginS2 twoBit pc r) ∧
      ¬ SafeOutSound 1 reportedDist (allRecords reported)
        (droppedInRun StdAlgo.reference onlyBest twoBit ⟨{}, 0, 0⟩ reported)
        (givenCandidates StdAlgo.reference onlyBest (twoBit.probe onlyBest) ⟨{}, 0, 0⟩
          reported)) ∧
    ((∀ pc ∈ tested, ∀ r ∈ pc.records,
        |r.estDistS1 - testedDist r.addr| ≤ safeoutMarginS1 pc r ∧
        |r.estDistS2 - testedDist r.addr| ≤ stage2TestMargin onlyBest twoBit pc r) ∧
      ¬ SafeOutSound 1 testedDist (allRecords tested)
        (droppedInRun StdAlgo.reference onlyBest twoBit ⟨{}, 0, 0⟩ tested)
        (givenCandidates StdAlgo.reference onlyBest (twoBit.probe onlyBest) ⟨{}, 0, 0⟩
          tested)) := by
  refine ⟨⟨by decide +kernel, fun sound => ?_⟩, ⟨by decide +kernel, fun sound => ?_⟩⟩
  · have dropped : (⟨⟨1, 8⟩, 1, near 0, near 6⟩ : ProbeRecord) ∈
        droppedInRun StdAlgo.reference onlyBest twoBit ⟨{}, 0, 0⟩ reported := by
      decide +kernel
    exact absurd (sound.covered _ dropped) (by decide +kernel)
  · have dropped : (⟨⟨1, 8⟩, 1, near (-2), near (-2)⟩ : ProbeRecord) ∈
        droppedInRun StdAlgo.reference onlyBest twoBit ⟨{}, 0, 0⟩ tested := by
      decide +kernel
    exact absurd (sound.covered _ dropped) (by decide +kernel)

end VecFetch.Index
