/-
# Query.Readiness -- when the dynamic SafeIn threshold is ready

`UpdateDynamicSafeInState` runs before and after each probed cluster.  Before a cluster
the frontier is the one the last cluster ended with, yet each run that finds it within
tolerance counts: a cluster that ends with a finite frontier is counted again when the
next one begins.  So the threshold may be ready after half the clusters its setting asks
for, and keeps to its setting exactly when one cluster is enough or an unchanged frontier
is never stable (`readiness_law_iff`).
-/
import VecFetch.Query.FrontierRun

namespace VecFetch.Query

open VecFetch.Theory

set_option autoImplicit false

variable (std : StdAlgo) (env : Env)

/-! ## A cluster's two updates -/

section Cluster

variable {Cluster : Type} (probe : Prober Cluster)

/-- The scheduler after the update that begins a cluster. -/
def beginCluster (s : Sched) : Sched := updateDynamicSafeInState env true s

/-- The scheduler after the update that ends a cluster. -/
def endCluster (s : Sched) (cluster : Cluster) : Sched :=
  updateDynamicSafeInState env false (finalizeCluster std env
    ((probeBatches env probe cluster s).foldl (onCandidates std env) (beginCluster env s, [])))

theorem probeCluster_endCluster (s : Sched) (cluster : Cluster) :
    probeCluster std env probe s cluster =
      settleDeferred std env (endCluster std env probe s cluster) := rfl

/-- After its second update a step of the loop leaves the SafeIn state alone. -/
theorem probeStep_safeIn (st : ProbeLoop) (cluster : Cluster) (finalCluster : Bool) :
    (probeStep std env probe st cluster finalCluster).sched.safeIn =
      (endCluster std env probe st.sched cluster).safeIn := by
  have kept := congrArg Prod.snd (probeStep_estimates std env probe st cluster finalCluster)
  rw [probeCluster_endCluster, settleDeferred_estimates] at kept
  exact kept

/-- The state after an update, the reference frontiers the probed clusters ended with,
the last one first, and the number of clusters begun. -/
structure Snapshot where
  sched : Sched
  ended : List Flt
  begun : Nat

/-- The updates of the probing loop. -/
def readinessTrace : ProbeLoop → List Flt → Nat → List Cluster → List Snapshot
  | _, _, _, [] => []
  | st, ended, begun, cluster :: rest =>
      let after := endCluster std env probe st.sched cluster
      let ended' := safeInFrontierLower env after :: ended
      ⟨beginCluster env st.sched, ended, begun + 1⟩ :: ⟨after, ended', begun + 1⟩ ::
        readinessTrace (probeStep std env probe st cluster rest.isEmpty) ended' (begun + 1) rest

end Cluster

/-! ## What readiness promises -/

/-- The test of `UpdateDynamicSafeInState` on two finite frontiers. -/
def withinTolerance (frontier last : ℚ) : Bool :=
  (Flt.fin |frontier - last|).le env.config.dynamicSafeinAbsTol ||
    (Flt.fin (|frontier - last| / max |last| (1 / 1000000000000))).le
      env.config.dynamicSafeinRelTol

/-- The last `n` clusters each ended with a finite frontier within tolerance of the finite
frontier of the cluster before. -/
def StableStreak (n : Nat) (ended : List Flt) : Prop :=
  ∀ i, i < n → ∃ f last, ended[i]? = some (.fin f) ∧ ended[i + 1]? = some (.fin last) ∧
    withinTolerance env f last = true

/-- What being ready promises. -/
def ReadinessLaw (snap : Snapshot) : Prop :=
  snap.sched.dynamicSafeinReady = true →
    StableStreak env (max 1 env.config.dynamicSafeinStableProbes.toNat) snap.ended ∧
      env.config.dynamicSafeinMinProbes.toNat ≤ snap.begun

/-- An unchanged frontier is within one of the tolerances. -/
def unchangedIsStable : Bool :=
  (Flt.fin 0).le env.config.dynamicSafeinAbsTol || (Flt.fin 0).le env.config.dynamicSafeinRelTol

variable {std env}

/-! ## The update, on the SafeIn state -/

theorem safeInFrontierLower_congr {s s' : Sched} (same : s.safeIn = s'.safeIn) :
    safeInFrontierLower env s = safeInFrontierLower env s' := by
  have heap : s.safeinFrontierHeap = s'.safeinFrontierHeap :=
    congrArg SafeInState.frontierHeap same
  unfold safeInFrontierLower
  rw [heap]

/-- The update moves no estimate. -/
@[simp] theorem updateDynamicSafeInState_heap (advance : Bool) (s : Sched) :
    (updateDynamicSafeInState env advance s).safeinFrontierHeap = s.safeinFrontierHeap := by
  unfold updateDynamicSafeInState
  split <;> rfl

@[simp] theorem safeInFrontierLower_update (advance : Bool) (s : Sched) :
    safeInFrontierLower env (updateDynamicSafeInState env advance s) =
      safeInFrontierLower env s := by
  unfold safeInFrontierLower
  rw [updateDynamicSafeInState_heap]

theorem nextStableCount_eq (frontier : ℚ) (s : Sched) :
    nextStableCount env frontier s =
      match s.dynamicSafeinLastFrontier with
      | .fin last =>
          if withinTolerance env frontier last then s.dynamicSafeinStableCount + 1 else 1
      | _ => 1 := rfl

/-- What an update leaves behind. -/
structure Updated (env : Env) (advance : Bool) (s s' : Sched) : Prop where
  probesSeen : s'.dynamicSafeinProbesSeen =
    if advance then s.dynamicSafeinProbesSeen + 1 else s.dynamicSafeinProbesSeen
  stableCount : s'.dynamicSafeinStableCount =
    match safeInFrontierLower env s with
    | .fin f => nextStableCount env f s
    | _ => 0
  lastFrontier : s'.dynamicSafeinLastFrontier =
    if (safeInFrontierLower env s).isFinite then safeInFrontierLower env s
    else s.dynamicSafeinLastFrontier
  ready : s'.dynamicSafeinReady = true ↔ (safeInFrontierLower env s).isFinite = true ∧
    env.config.dynamicSafeinMinProbes ≤ s'.dynamicSafeinProbesSeen ∧
      max 1 env.config.dynamicSafeinStableProbes ≤ s'.dynamicSafeinStableCount

theorem update_spec (mode : env.config.dynamicSafeinMode = .frontier) (advance : Bool)
    (s : Sched) : Updated env advance s (updateDynamicSafeInState env advance s) := by
  have on : env.useDynamicSafein = true := by simp [Env.useDynamicSafein, mode]
  unfold updateDynamicSafeInState
  rw [on]
  refine ⟨rfl, rfl, rfl, ?_⟩
  simp [mode, and_assoc]

theorem beginCluster_spec (mode : env.config.dynamicSafeinMode = .frontier) (s : Sched) :
    Updated env true s (beginCluster env s) := update_spec mode true s

@[simp] theorem safeInFrontierLower_begin (s : Sched) :
    safeInFrontierLower env (beginCluster env s) = safeInFrontierLower env s :=
  safeInFrontierLower_update true s

/-- The counters an update carries to the next are the same. -/
structure SameCounters (s s' : Sched) : Prop where
  probesSeen : s'.dynamicSafeinProbesSeen = s.dynamicSafeinProbesSeen
  stableCount : s'.dynamicSafeinStableCount = s.dynamicSafeinStableCount
  lastFrontier : s'.dynamicSafeinLastFrontier = s.dynamicSafeinLastFrontier

theorem SameCounters.refl (s : Sched) : SameCounters s s := ⟨rfl, rfl, rfl⟩

theorem SameCounters.trans {s s' s'' : Sched} (first : SameCounters s s')
    (second : SameCounters s' s'') : SameCounters s s'' where
  probesSeen := second.probesSeen.trans first.probesSeen
  stableCount := second.stableCount.trans first.stableCount
  lastFrontier := second.lastFrontier.trans first.lastFrontier

theorem SameCounters.of_safeIn {s s' : Sched} (same : s'.safeIn = s.safeIn) :
    SameCounters s s' where
  probesSeen := congrArg SafeInState.probesSeen same
  stableCount := congrArg SafeInState.stableCount same
  lastFrontier := congrArg SafeInState.lastFrontier same

/-- Merging estimates moves the heaps only. -/
theorem mergeEstimate_counters (s : Sched) (estimate : EstimateHeapEntry) :
    SameCounters s (mergeEstimate std env s estimate) := by
  unfold mergeEstimate addSafeInFrontierEstimate addSafeOutFrontierEstimate
  split_ifs <;> exact ⟨rfl, rfl, rfl⟩

theorem finalizeCluster_counters (st : Sched × List EstimateHeapEntry) :
    SameCounters st.1 (finalizeCluster std env st) := by
  obtain ⟨s, estimates⟩ := st
  unfold finalizeCluster
  dsimp only
  induction estimates generalizing s with
  | nil => exact SameCounters.refl s
  | cons estimate rest ih =>
      exact (mergeEstimate_counters s estimate).trans (ih (mergeEstimate std env s estimate))

/-- The scheduler before a cluster's second update. -/
def gathered (std : StdAlgo) (env : Env) {Cluster : Type} (probe : Prober Cluster) (s : Sched)
    (cluster : Cluster) : Sched :=
  finalizeCluster std env
    ((probeBatches env probe cluster s).foldl (onCandidates std env) (beginCluster env s, []))

theorem gathered_counters {Cluster : Type} (probe : Prober Cluster) (s : Sched)
    (cluster : Cluster) : SameCounters (beginCluster env s) (gathered std env probe s cluster) := by
  have sunk := congrArg Prod.snd (foldl_onCandidates_estimates std env
    (probeBatches env probe cluster s) (beginCluster env s, []))
  exact (SameCounters.of_safeIn sunk).trans (finalizeCluster_counters _)

theorem endCluster_eq {Cluster : Type} (probe : Prober Cluster) (s : Sched) (cluster : Cluster) :
    endCluster std env probe s cluster =
      updateDynamicSafeInState env false (gathered std env probe s cluster) := rfl

/-! ## What being ready tells -/

/-- The last `m` clusters each ended with a finite frontier, each of them but the first
within tolerance of the one before. -/
structure FiniteStreak (env : Env) (m : Nat) (ended : List Flt) : Prop where
  finite : ∀ i, i < m → ∃ f, ended[i]? = some (.fin f)
  stable : ∀ i f last, i + 1 < m → ended[i]? = some (.fin f) →
    ended[i + 1]? = some (.fin last) → withinTolerance env f last = true

/-- The stability count is at most `most`, of `m` clusters, and is compared with the
frontier of the last of them. -/
structure CountedOver (env : Env) (s : Sched) (ended : List Flt) (m most : Nat) : Prop where
  streak : FiniteStreak env m ended
  count : s.dynamicSafeinStableCount.toNat ≤ most
  last : (ended.headD .posInf).isFinite = true →
    0 < m ∧ s.dynamicSafeinLastFrontier = ended.headD .posInf

/-- The loop between two clusters: the frontier is the one the last cluster ended with,
no cluster was seen twice, and each was counted at most twice. -/
structure BetweenClusters (env : Env) (s : Sched) (ended : List Flt) (begun : Nat) : Prop where
  frontier : safeInFrontierLower env s = ended.headD .posInf
  seen : s.dynamicSafeinProbesSeen.toNat ≤ begun
  counted : ∃ m, CountedOver env s ended m (2 * m - 1)

theorem finiteStreak_zero (ended : List Flt) : FiniteStreak env 0 ended :=
  ⟨fun _ below => absurd below (Nat.not_lt_zero _), fun _ _ _ below => absurd below (by omega)⟩

theorem betweenClusters_start : BetweenClusters env {} [] 0 where
  frontier := by
    unfold safeInFrontierLower
    split <;> rfl
  seen := Nat.le_refl _
  counted := ⟨0, finiteStreak_zero [], Nat.le_refl _, fun finite => by cases finite⟩

theorem FiniteStreak.head {m : Nat} {ended : List Flt} (streak : FiniteStreak env m ended)
    (some_m : 0 < m) : ∃ f rest, ended = .fin f :: rest := by
  obtain ⟨f, here⟩ := streak.finite 0 some_m
  cases ended with
  | nil => cases here
  | cons first rest => exact ⟨f, rest, by rw [Option.some.inj here]⟩

theorem FiniteStreak.one (f : ℚ) (ended : List Flt) : FiniteStreak env 1 (.fin f :: ended) where
  finite i below := by
    obtain rfl : i = 0 := by omega
    exact ⟨f, rfl⟩
  stable _ _ _ below := by omega

/-- One more cluster, within tolerance of the last. -/
theorem FiniteStreak.cons {m : Nat} {f last : ℚ} {rest : List Flt}
    (streak : FiniteStreak env m (.fin last :: rest)) (within : withinTolerance env f last = true) :
    FiniteStreak env (m + 1) (.fin f :: .fin last :: rest) where
  finite i below := by
    cases i with
    | zero => exact ⟨f, rfl⟩
    | succ i => exact streak.finite i (by omega)
  stable i g g' below here next := by
    cases i with
    | zero =>
        cases here
        cases next
        exact within
    | succ i => exact streak.stable i g g' (by omega) here next

section Kept

variable {Cluster : Type} {probe : Prober Cluster} {st : ProbeLoop} {ended : List Flt}
  {begun : Nat}

theorem succ_toNat_le {x : UInt32} {n : Nat} (below : x.toNat ≤ n) : (x + 1).toNat ≤ n + 1 := by
  rw [UInt32.toNat_add]
  exact Nat.le_trans (Nat.mod_le _ _) (Nat.succ_le_succ below)

theorem nextStableCount_le (f : ℚ) {s : Sched} {n : Nat}
    (below : s.dynamicSafeinStableCount.toNat ≤ n) :
    (nextStableCount env f s).toNat ≤ n + 1 := by
  rw [nextStableCount_eq]
  cases s.dynamicSafeinLastFrontier with
  | nan | negInf | posInf => exact Nat.le_add_left 1 n
  | fin last =>
      dsimp only
      split
      · exact succ_toNat_le below
      · exact Nat.le_add_left 1 n

theorem BetweenClusters.seen_begin (mode : env.config.dynamicSafeinMode = .frontier)
    (ok : BetweenClusters env st.sched ended begun) :
    (beginCluster env st.sched).dynamicSafeinProbesSeen.toNat ≤ begun + 1 := by
  rw [(beginCluster_spec mode st.sched).probesSeen]
  exact succ_toNat_le ok.seen

theorem BetweenClusters.seen_end (mode : env.config.dynamicSafeinMode = .frontier)
    (ok : BetweenClusters env st.sched ended begun) (cluster : Cluster) :
    (endCluster std env probe st.sched cluster).dynamicSafeinProbesSeen.toNat ≤ begun + 1 := by
  have counted := (update_spec mode false (gathered std env probe st.sched cluster)).probesSeen
  rw [endCluster_eq, counted, if_neg Bool.false_ne_true, (gathered_counters probe _ _).probesSeen]
  exact ok.seen_begin mode

/-- **The update that begins a cluster** counts the last one a second time. -/
theorem BetweenClusters.counted_begin (mode : env.config.dynamicSafeinMode = .frontier)
    (ok : BetweenClusters env st.sched ended begun) :
    ∃ m, CountedOver env (beginCluster env st.sched) ended m (2 * m) := by
  obtain ⟨m, streak, count, last⟩ := ok.counted
  have first := beginCluster_spec mode st.sched
  have counts := first.stableCount
  have lasts := first.lastFrontier
  rw [ok.frontier] at counts lasts
  cases head : ended.headD .posInf with
  | nan | negInf | posInf =>
      rw [head] at counts
      refine ⟨0, finiteStreak_zero ended, ?_, fun finite => ?_⟩
      · rw [counts]
        exact Nat.le_refl _
      · rw [head] at finite
        cases finite
  | fin f =>
      rw [head] at counts lasts last
      obtain ⟨some_m, -⟩ := last rfl
      refine ⟨m, streak, ?_, fun _ => ⟨some_m, by rw [head, lasts]; rfl⟩⟩
      have more := @nextStableCount_le env f _ _ count
      rw [counts]
      exact Nat.le_trans more (by omega)

/-- **The update that ends a cluster** counts it once. -/
theorem counted_end (mode : env.config.dynamicSafeinMode = .frontier) {s : Sched} {m : Nat}
    (counted : CountedOver env s ended m (2 * m)) :
    ∃ m', CountedOver env (updateDynamicSafeInState env false s)
      (safeInFrontierLower env s :: ended) m' (2 * m' - 1) := by
  obtain ⟨streak, count, last⟩ := counted
  have second := update_spec mode false s
  have counts := second.stableCount
  have lasts := second.lastFrontier
  cases frontier : safeInFrontierLower env s with
  | nan | negInf | posInf =>
      rw [frontier] at counts
      refine ⟨0, finiteStreak_zero _, ?_, fun finite => by cases finite⟩
      rw [counts]
      exact Nat.le_refl _
  | fin f =>
      rw [frontier] at counts lasts
      have one : (updateDynamicSafeInState env false s).dynamicSafeinStableCount.toNat ≤ 1 →
          ∃ m', CountedOver env (updateDynamicSafeInState env false s) (.fin f :: ended) m'
            (2 * m' - 1) := fun small => by
        refine ⟨1, FiniteStreak.one f ended, small, fun _ => ⟨Nat.one_pos, ?_⟩⟩
        rw [lasts]
        rfl
      dsimp only at counts
      by_cases some_m : 0 < m
      · obtain ⟨f', rest, rfl⟩ := streak.head some_m
        rw [nextStableCount_eq, (last rfl).2] at counts
        dsimp only [List.headD_cons] at counts
        by_cases within : withinTolerance env f f' = true
        · refine ⟨m + 1, streak.cons within, ?_, fun _ => ⟨Nat.succ_pos m, ?_⟩⟩
          · rw [counts, if_pos within]
            have := succ_toNat_le count
            omega
          · rw [lasts]
            rfl
        · apply one
          rw [counts, if_neg within]
          exact Nat.le_refl 1
      · apply one
        rw [counts]
        exact nextStableCount_le f (by omega)

/-- The second update of a cluster of the loop. -/
theorem BetweenClusters.counted_end (mode : env.config.dynamicSafeinMode = .frontier)
    (ok : BetweenClusters env st.sched ended begun) (cluster : Cluster) :
    ∃ m, CountedOver env (endCluster std env probe st.sched cluster)
      (safeInFrontierLower env (endCluster std env probe st.sched cluster) :: ended) m
        (2 * m - 1) := by
  obtain ⟨m, streak, count, last⟩ := ok.counted_begin mode
  have same := @gathered_counters std env _ probe st.sched cluster
  rw [endCluster_eq, safeInFrontierLower_update]
  refine VecFetch.Query.counted_end mode (m := m) ⟨streak, ?_, ?_⟩
  · rw [same.stableCount]
    exact count
  · rw [same.lastFrontier]
    exact last

/-- **A step of the loop** leads from one gap between clusters to the next. -/
theorem BetweenClusters.step (mode : env.config.dynamicSafeinMode = .frontier)
    (ok : BetweenClusters env st.sched ended begun) (cluster : Cluster) (finalCluster : Bool) :
    BetweenClusters env (probeStep std env probe st cluster finalCluster).sched
      (safeInFrontierLower env (endCluster std env probe st.sched cluster) :: ended)
      (begun + 1) where
  frontier := safeInFrontierLower_congr (probeStep_safeIn std env probe st cluster finalCluster)
  seen := by
    have same := SameCounters.of_safeIn (probeStep_safeIn std env probe st cluster finalCluster)
    rw [same.probesSeen]
    exact ok.seen_end mode cluster
  counted := by
    have same := SameCounters.of_safeIn (probeStep_safeIn std env probe st cluster finalCluster)
    obtain ⟨m, streak, count, last⟩ := @BetweenClusters.counted_end std env _ probe _ _ _ mode ok cluster
    refine ⟨m, streak, ?_, ?_⟩
    · rw [same.stableCount]
      exact count
    · rw [same.lastFrontier]
      exact last

end Kept

/-- At least half the clusters asked for ended with a finite frontier, each but the first of
them within tolerance of the one before, and the minimum of clusters was begun. -/
def HalfwayLaw (env : Env) (snap : Snapshot) : Prop :=
  snap.sched.dynamicSafeinReady = true →
    FiniteStreak env ((max 1 env.config.dynamicSafeinStableProbes.toNat + 1) / 2) snap.ended ∧
      env.config.dynamicSafeinMinProbes.toNat ≤ snap.begun

theorem FiniteStreak.mono {m n : Nat} {ended : List Flt} (streak : FiniteStreak env m ended)
    (fewer : n ≤ m) : FiniteStreak env n ended :=
  ⟨fun i below => streak.finite i (by omega), fun i f last below =>
    streak.stable i f last (by omega)⟩

theorem asked_toNat : (max 1 env.config.dynamicSafeinStableProbes).toNat =
    max 1 env.config.dynamicSafeinStableProbes.toNat := by
  change (if (1 : UInt32) ≤ env.config.dynamicSafeinStableProbes then
    env.config.dynamicSafeinStableProbes else (1 : UInt32)).toNat = _
  split
  · rename_i least
    exact (Nat.max_eq_right (UInt32.le_iff_toNat_le.1 least)).symm
  · rename_i less
    have none := UInt32.lt_iff_toNat_lt.1 (UInt32.not_le.1 less)
    exact (Nat.max_eq_left (Nat.le_of_lt none)).symm

theorem Updated.halfway {advance : Bool} {s s' : Sched} {ended : List Flt} {begun m most : Nat}
    (updated : Updated env advance s s') (counted : CountedOver env s' ended m most)
    (twice : most ≤ 2 * m) (seen : s'.dynamicSafeinProbesSeen.toNat ≤ begun) :
    HalfwayLaw env ⟨s', ended, begun⟩ := by
  intro ready
  obtain ⟨-, probed, enough⟩ := updated.ready.1 ready
  have reached := UInt32.le_iff_toNat_le.1 enough
  rw [asked_toNat] at reached
  have count := counted.count
  exact ⟨counted.streak.mono (by omega), Nat.le_trans (UInt32.le_iff_toNat_le.1 probed) seen⟩

/-- From between two clusters on, ready tells half of what is asked for. -/
theorem BetweenClusters.halfway {Cluster : Type} (probe : Prober Cluster)
    (mode : env.config.dynamicSafeinMode = .frontier) (clusters : List Cluster) {st : ProbeLoop}
    {ended : List Flt} {begun : Nat} (ok : BetweenClusters env st.sched ended begun) :
    ∀ snap ∈ readinessTrace std env probe st ended begun clusters, HalfwayLaw env snap := by
  induction clusters generalizing st ended begun with
  | nil =>
      intro snap mem
      cases mem
  | cons cluster rest ih =>
      intro snap mem
      simp only [readinessTrace] at mem
      rcases List.mem_cons.1 mem with rfl | mem
      · obtain ⟨m, counted⟩ := ok.counted_begin mode
        exact (beginCluster_spec mode st.sched).halfway counted (Nat.le_refl _) (ok.seen_begin mode)
      · rcases List.mem_cons.1 mem with rfl | later
        · obtain ⟨m, counted⟩ := @BetweenClusters.counted_end std env _ probe _ _ _ mode ok cluster
          exact (update_spec mode false (gathered std env probe st.sched cluster)).halfway counted
            (by omega) (ok.seen_end mode cluster)
        · exact ih (ok.step mode cluster rest.isEmpty) snap later

/-- **Ready tells half of what is asked for**, in every run: no cluster is counted more than
twice. -/
theorem ready_halfway {Cluster : Type} (probe : Prober Cluster)
    (mode : env.config.dynamicSafeinMode = .frontier) (clusters : List Cluster) :
    ∀ snap ∈ readinessTrace std env probe ⟨{}, 0, 0⟩ [] 0 clusters, HalfwayLaw env snap :=
  betweenClusters_start.halfway probe mode clusters

/-! ## Where the promise is kept -/

/-- An unchanged frontier not being stable, nothing is: the count stays at one. -/
theorem Updated.stableCount_le_one {advance : Bool} {s s' : Sched}
    (updated : Updated env advance s s') (never : unchangedIsStable env = false) :
    s'.dynamicSafeinStableCount ≤ 1 := by
  have farther : ∀ {d : ℚ} {t : Flt}, 0 ≤ d → (Flt.fin d).le t = true →
      (Flt.fin 0).le t = true := by
    intro d t positive within
    cases t with
    | nan => cases within
    | negInf => cases within
    | fin t =>
        simp only [Flt.le, Flt.lt, Bool.not_eq_true', decide_eq_false_iff_not, not_lt] at within ⊢
        exact le_trans positive within
    | posInf => rfl
  have outside : ∀ f last : ℚ, withinTolerance env f last = false := by
    intro f last
    rw [unchangedIsStable, Bool.or_eq_false_iff] at never
    rw [withinTolerance, Bool.or_eq_false_iff]
    have scale : (0 : ℚ) ≤ max |last| (1 / 1000000000000) := le_max_of_le_left (abs_nonneg last)
    constructor
    · rw [Bool.eq_false_iff]
      intro within
      exact absurd (farther (abs_nonneg _) within) (by simp [never.1])
    · rw [Bool.eq_false_iff]
      intro within
      exact absurd (farther (div_nonneg (abs_nonneg _) scale) within) (by simp [never.2])
  rw [updated.stableCount]
  cases safeInFrontierLower env s with
  | nan | negInf | posInf => exact UInt32.zero_le
  | fin f =>
      dsimp only
      rw [nextStableCount_eq]
      cases s.dynamicSafeinLastFrontier with
      | nan | negInf | posInf => exact UInt32.le_refl 1
      | fin last =>
          dsimp only
          rw [outside, if_neg Bool.false_ne_true]
          exact UInt32.le_refl 1

/-- Without a frontier, or where two stable clusters are asked for and there is never a
second, an update leaves the threshold unready. -/
theorem Updated.unready {advance : Bool} {s s' : Sched} (updated : Updated env advance s s')
    (kept : env.config.topK = 0 ∨ (2 ≤ env.config.dynamicSafeinStableProbes ∧
      unchangedIsStable env = false)) : s'.dynamicSafeinReady = false := by
  rw [Bool.eq_false_iff]
  intro ready
  obtain ⟨finite, -, counted⟩ := updated.ready.1 ready
  rcases kept with none | ⟨two, never⟩
  · rw [show safeInFrontierLower env s = .posInf by simp [safeInFrontierLower, none]] at finite
    cases finite
  · have one := UInt32.le_iff_toNat_le.1 (updated.stableCount_le_one never)
    have asked := UInt32.le_iff_toNat_le.1 counted
    have least := UInt32.le_iff_toNat_le.1 two
    rw [asked_toNat] at asked
    simp only [UInt32.reduceToNat] at one least
    omega

/-- **Every update of such a run leaves the threshold unready.** -/
theorem readinessTrace_unready {Cluster : Type} (probe : Prober Cluster)
    (mode : env.config.dynamicSafeinMode = .frontier)
    (kept : env.config.topK = 0 ∨ (2 ≤ env.config.dynamicSafeinStableProbes ∧
      unchangedIsStable env = false)) (clusters : List Cluster) {st : ProbeLoop}
    {ended : List Flt} {begun : Nat} :
    ∀ snap ∈ readinessTrace std env probe st ended begun clusters,
      snap.sched.dynamicSafeinReady = false := by
  induction clusters generalizing st ended begun with
  | nil =>
      intro snap mem
      cases mem
  | cons cluster rest ih =>
      intro snap mem
      simp only [readinessTrace] at mem
      rcases List.mem_cons.1 mem with rfl | mem
      · exact (beginCluster_spec mode st.sched).unready kept
      · rcases List.mem_cons.1 mem with rfl | later
        · exact (update_spec mode false (gathered std env probe st.sched cluster)).unready kept
        · exact ih snap later

/-! ## A run that breaks it -/

/-- The prober that hands over a cluster's batches whatever the thresholds. -/
def givenBatches : Prober (List CandidateBatch) := fun batches _ _ => batches

/-- A candidate whose estimate has the lower bound zero. -/
def flatCandidate (i : Nat) : Candidate where
  globalIdx := i
  estDist := .fin 0
  estError := .fin 0
  estimateLowerBound := .fin 0
  safeinUpperBound := .fin 0
  cls := .uncertain
  decodedAddr := ⟨UInt64.ofNat i, 8⟩

/-- A cluster of `k` such candidates, a batch for each. -/
def flatCluster (k : Nat) : List CandidateBatch :=
  (List.range k).map fun i => ⟨[flatCandidate i], by simp [kMaxCandidates]⟩

theorem flatCluster_lanes (k : Nat) :
    lanesOf (flatCluster k) = (List.range k).map flatCandidate := by
  simp only [lanesOf, flatCluster, List.flatMap_map]
  exact List.map_eq_flatMap.symm

theorem flatCluster_distinct {k : Nat} (small : k < 2 ^ 32) :
    ((lanesOf (flatCluster k)).map fun lane => lane.decodedAddr.offset).Nodup := by
  rw [flatCluster_lanes, List.map_map]
  apply List.Nodup.map_on _ List.nodup_range
  intro i mem j mem' same
  have below := List.mem_range.1 mem
  have below' := List.mem_range.1 mem'
  have eq := congrArg UInt64.toNat same
  simp only [Function.comp_apply, flatCandidate, UInt64.toNat_ofNat'] at eq
  omega

/-- Merging estimates of finite lower bounds offers each bound to the SafeIn heap. -/
theorem finalizeCluster_safeinHeap (on : env.useEstimateFrontier = true)
    (some_k : env.config.topK ≠ 0) (s : Sched) (estimates : List EstimateHeapEntry)
    (finite : ∀ estimate ∈ estimates, estimate.lowerBound.isFinite = true) :
    (finalizeCluster std env (s, estimates)).safeinFrontierHeap =
      (estimates.map fun estimate => (⟨estimate.lowerBound⟩ : SafeInFrontierEntry)).foldl
        (fun heap x => (std.addBounded SafeInFrontierEntry.lt env.config.topK.toNat x heap).1)
        s.safeinFrontierHeap := by
  unfold finalizeCluster
  dsimp only
  induction estimates generalizing s with
  | nil => rfl
  | cons estimate rest ih =>
      have first : (mergeEstimate std env s estimate).safeinFrontierHeap =
          (std.addBounded SafeInFrontierEntry.lt env.config.topK.toNat ⟨estimate.lowerBound⟩
            s.safeinFrontierHeap).1 := by
        have here := finite estimate List.mem_cons_self
        simp [mergeEstimate, addSafeInFrontierEstimate, addSafeOutFrontierEstimate, on, some_k,
          here]
      rw [List.foldl_cons, ih _ fun e mem => finite e (List.mem_cons_of_mem _ mem), first]
      rfl

variable (std) in
/-- After a full flat cluster the frontier is zero. -/
theorem gathered_flat (mode : env.config.dynamicSafeinMode = .frontier)
    (some_k : env.config.topK ≠ 0) {s : Sched} (empty : s.safeinFrontierHeap = []) :
    safeInFrontierLower env
      (gathered std env givenBatches s (flatCluster env.config.topK.toNat)) = .fin 0 := by
  have on : env.useEstimateFrontier = true := by
    simp [Env.useEstimateFrontier, Env.useDynamicSafein, mode]
  have heap : (gathered std env givenBatches s
      (flatCluster env.config.topK.toNat)).safeinFrontierHeap =
      (List.replicate env.config.topK.toNat (⟨.fin 0⟩ : SafeInFrontierEntry)).foldl
        (fun heap x => (std.addBounded SafeInFrontierEntry.lt env.config.topK.toNat x heap).1)
        [] := by
    have sunk := foldl_onCandidates_buffered std env (flatCluster env.config.topK.toNat)
      (beginCluster env s, []) (flatCluster_distinct env.config.topK.toNat_lt)
    have kept := congrArg (fun state => state.2.frontierHeap) (foldl_onCandidates_estimates std env
      (flatCluster env.config.topK.toNat) (beginCluster env s, []))
    rw [on, if_pos rfl, List.nil_append, flatCluster_lanes] at sunk
    dsimp only [Sched.estimates, Sched.safeIn] at kept
    have shape : probeBatches env givenBatches (flatCluster env.config.topK.toNat) s =
        flatCluster env.config.topK.toNat := rfl
    have bounds : (((List.range env.config.topK.toNat).map flatCandidate).map
        Candidate.estimate).map (fun estimate => (⟨estimate.lowerBound⟩ : SafeInFrontierEntry)) =
        List.replicate env.config.topK.toNat ⟨.fin 0⟩ := by
      simp [Function.comp_def, Candidate.estimate, flatCandidate]
    rw [gathered, shape, ← Prod.mk.eta (p := List.foldl _ _ _), sunk,
      finalizeCluster_safeinHeap on some_k, kept, beginCluster, updateDynamicSafeInState_heap,
      empty, bounds]
    · intro estimate mem
      obtain ⟨lane, inLanes, rfl⟩ := List.mem_map.1 mem
      obtain ⟨i, -, rfl⟩ := List.mem_map.1 inLanes
      rfl
  have zero : ∀ x ∈ List.replicate env.config.topK.toNat (⟨.fin 0⟩ : SafeInFrontierEntry),
      x = ⟨.fin 0⟩ := fun x mem => List.eq_of_mem_replicate mem
  have order : StrictWeakOn SafeInFrontierEntry.lt
      ([] ++ List.replicate env.config.topK.toNat (⟨.fin 0⟩ : SafeInFrontierEntry)) := by
    constructor
    · intro a inA b inB _
      rw [zero a inA, zero b inB]
      rfl
    · intro a inA _ _ c inC _ _
      rw [zero a inA, zero c inC]
      rfl
  have small := StdAlgo.foldl_addBounded_smallest _ order
    (std.smallest_nil SafeInFrontierEntry.lt env.config.topK.toNat)
  rw [← heap] at small
  have length := small.length_eq
  simp only [List.nil_append, List.length_replicate, Nat.min_self] at length
  unfold safeInFrontierLower
  have full : ¬ (gathered std env givenBatches s
      (flatCluster env.config.topK.toNat)).safeinFrontierHeap.length < env.config.topK.toNat := by
    omega
  simp only [on, some_k, full, Bool.not_true, Bool.false_or, beq_iff_eq, decide_false,
    Bool.or_false, if_false]
  cases shape : (gathered std env givenBatches s
      (flatCluster env.config.topK.toNat)).safeinFrontierHeap with
  | nil =>
      rw [shape] at length
      exact absurd (UInt32.toNat_inj.1 length.symm) some_k
  | cons front rest =>
      have mem := small.mem_seen (shape ▸ List.mem_cons_self : front ∈ _)
      rw [zero front mem]

/-- No cluster so far had a candidate. -/
structure Idle (s : Sched) (ended : List Flt) (begun : Nat) : Prop where
  heap : s.safeinFrontierHeap = []
  last : s.dynamicSafeinLastFrontier = .posInf
  seen : s.dynamicSafeinProbesSeen.toNat = begun
  infinite : ∀ (i : Nat) (f : ℚ), ended[i]? ≠ some (.fin f)

/-- `j` clusters ended with the frontier zero, and all but the first counted twice. -/
structure Quiet (env : Env) (s : Sched) (ended : List Flt) (begun j : Nat) : Prop where
  frontier : safeInFrontierLower env s = .fin 0
  last : s.dynamicSafeinLastFrontier = .fin 0
  count : s.dynamicSafeinStableCount.toNat + 1 = 2 * j
  seen : s.dynamicSafeinProbesSeen.toNat = begun
  earlier : ∀ f : ℚ, ended[j]? ≠ some (.fin f)

section Broken

variable {st : ProbeLoop} {ended : List Flt} {begun : Nat}

theorem safeInFrontierLower_empty (env : Env) {s : Sched} (empty : s.safeinFrontierHeap = []) :
    safeInFrontierLower env s = .posInf := by
  unfold safeInFrontierLower
  rw [empty]
  split <;> rfl

theorem succ_toNat {x : UInt32} {n : Nat} (eq : x.toNat = n) (small : n + 1 < 2 ^ 32) :
    (x + 1).toNat = n + 1 := by
  rw [UInt32.toNat_add, eq]
  exact Nat.mod_eq_of_lt small

/-- A cluster without candidates changes nothing between its updates. -/
theorem endCluster_nil (s : Sched) :
    endCluster std env givenBatches s [] =
      updateDynamicSafeInState env false (beginCluster env s) := rfl

variable (std) in
theorem Idle.step (mode : env.config.dynamicSafeinMode = .frontier)
    (idle : Idle st.sched ended begun) (small : begun + 1 < 2 ^ 32) (finalCluster : Bool) :
    Idle (probeStep std env givenBatches st [] finalCluster).sched
      (safeInFrontierLower env (endCluster std env givenBatches st.sched []) :: ended)
      (begun + 1) := by
  have same := probeStep_safeIn std env givenBatches st [] finalCluster
  have counters := SameCounters.of_safeIn same
  have first := beginCluster_spec mode st.sched
  have second := update_spec mode false (beginCluster env st.sched)
  have frontier := safeInFrontierLower_empty env idle.heap
  have frontier' : safeInFrontierLower env (beginCluster env st.sched) = .posInf := by
    rw [safeInFrontierLower_begin, frontier]
  rw [endCluster_nil] at same counters ⊢
  constructor
  · have heap := congrArg SafeInState.frontierHeap same
    simp only [Sched.safeIn, updateDynamicSafeInState_heap, beginCluster] at heap
    rw [heap, idle.heap]
  · rw [counters.lastFrontier, second.lastFrontier, frontier']
    exact first.lastFrontier.trans (by rw [frontier]; exact idle.last)
  · rw [counters.probesSeen, second.probesSeen, if_neg Bool.false_ne_true,
      first.probesSeen, if_pos rfl]
    exact succ_toNat idle.seen small
  · intro i f
    cases i with
    | zero =>
        rw [safeInFrontierLower_update, frontier']
        intro eq
        cases eq
    | succ i => exact idle.infinite i f

variable (std) in
theorem Idle.flat (mode : env.config.dynamicSafeinMode = .frontier)
    (some_k : env.config.topK ≠ 0) (idle : Idle st.sched ended begun)
    (small : begun + 1 < 2 ^ 32) (finalCluster : Bool) :
    Quiet env (probeStep std env givenBatches st (flatCluster env.config.topK.toNat)
        finalCluster).sched
      (safeInFrontierLower env (endCluster std env givenBatches st.sched
        (flatCluster env.config.topK.toNat)) :: ended) (begun + 1) 1 := by
  have same := probeStep_safeIn std env givenBatches st (flatCluster env.config.topK.toNat)
    finalCluster
  have counters := SameCounters.of_safeIn same
  have first := beginCluster_spec mode st.sched
  have second := update_spec mode false
    (gathered std env givenBatches st.sched (flatCluster env.config.topK.toNat))
  have merged := @gathered_counters std env _ givenBatches st.sched
    (flatCluster env.config.topK.toNat)
  have before := safeInFrontierLower_empty env idle.heap
  have zero := gathered_flat std mode some_k idle.heap
  have last : (gathered std env givenBatches st.sched
      (flatCluster env.config.topK.toNat)).dynamicSafeinLastFrontier = .posInf := by
    rw [merged.lastFrontier]
    exact first.lastFrontier.trans (by rw [before]; exact idle.last)
  rw [endCluster_eq] at same counters ⊢
  constructor
  · rw [safeInFrontierLower_congr same, safeInFrontierLower_update, zero]
  · rw [counters.lastFrontier, second.lastFrontier, zero]
    rfl
  · rw [counters.stableCount, second.stableCount, zero]
    dsimp only
    rw [nextStableCount_eq, last]
    rfl
  · rw [counters.probesSeen, second.probesSeen, if_neg Bool.false_ne_true, merged.probesSeen,
      first.probesSeen, if_pos rfl]
    exact succ_toNat idle.seen small
  · exact fun f => idle.infinite 0 f

theorem withinTolerance_same (unchanged : unchangedIsStable env = true) (f : ℚ) :
    withinTolerance env f f = true := by
  rw [withinTolerance, sub_self, abs_zero, zero_div]
  exact unchanged

/-- The two counts of a quiet cluster. -/
theorem Quiet.counts (mode : env.config.dynamicSafeinMode = .frontier)
    (unchanged : unchangedIsStable env = true) {j : Nat} (quiet : Quiet env st.sched ended begun j)
    (small : 2 * j + 1 < 2 ^ 32) :
    (beginCluster env st.sched).dynamicSafeinStableCount.toNat = 2 * j ∧
      (updateDynamicSafeInState env false (beginCluster env st.sched)).dynamicSafeinStableCount.toNat =
        2 * j + 1 := by
  have first := beginCluster_spec mode st.sched
  have second := update_spec mode false (beginCluster env st.sched)
  have count := first.stableCount
  have last := first.lastFrontier
  have again := second.stableCount
  have frontier : safeInFrontierLower env (beginCluster env st.sched) = .fin 0 := by
    rw [safeInFrontierLower_begin, quiet.frontier]
  rw [quiet.frontier] at count last
  rw [frontier] at again
  dsimp only at count again
  rw [nextStableCount_eq, quiet.last] at count
  rw [nextStableCount_eq, last, if_pos (Flt.isFinite_fin 0)] at again
  dsimp only at count again
  rw [if_pos (withinTolerance_same unchanged 0)] at count again
  have started : (beginCluster env st.sched).dynamicSafeinStableCount.toNat = 2 * j := by
    rw [count, succ_toNat rfl (by have := quiet.count; omega)]
    exact quiet.count
  refine ⟨started, ?_⟩
  rw [again]
  exact succ_toNat started small

variable (std) in
theorem Quiet.step (mode : env.config.dynamicSafeinMode = .frontier)
    (unchanged : unchangedIsStable env = true) {j : Nat}
    (quiet : Quiet env st.sched ended begun j) (small : 2 * j + 1 < 2 ^ 32)
    (few : begun + 1 < 2 ^ 32) (finalCluster : Bool) :
    Quiet env (probeStep std env givenBatches st [] finalCluster).sched
      (safeInFrontierLower env (endCluster std env givenBatches st.sched []) :: ended)
      (begun + 1) (j + 1) := by
  have same := probeStep_safeIn std env givenBatches st [] finalCluster
  have counters := SameCounters.of_safeIn same
  have first := beginCluster_spec mode st.sched
  have second := update_spec mode false (beginCluster env st.sched)
  obtain ⟨-, count⟩ := quiet.counts mode unchanged small
  have frontier : safeInFrontierLower env (beginCluster env st.sched) = .fin 0 := by
    rw [safeInFrontierLower_begin, quiet.frontier]
  rw [endCluster_nil] at same counters ⊢
  constructor
  · rw [safeInFrontierLower_congr same, safeInFrontierLower_update, frontier]
  · rw [counters.lastFrontier, second.lastFrontier, frontier]
    rfl
  · rw [counters.stableCount, count]
    omega
  · rw [counters.probesSeen, second.probesSeen, if_neg Bool.false_ne_true,
      first.probesSeen, if_pos rfl]
    exact succ_toNat quiet.seen few
  · exact quiet.earlier

variable (std) in
/-- **A quiet run breaks the promise** when the counts reach the setting, halfway. -/
theorem Quiet.broken (mode : env.config.dynamicSafeinMode = .frontier)
    (unchanged : unchangedIsStable env = true) (q : Nat) {j : Nat}
    (quiet : Quiet env st.sched ended begun j)
    (half : env.config.dynamicSafeinStableProbes.toNat / 2 = j + q) (few : begun + q + 1 < 2 ^ 32)
    (probed : env.config.dynamicSafeinMinProbes.toNat ≤ begun + q + 1) :
    ∃ snap ∈ readinessTrace std env givenBatches st ended begun (List.replicate (q + 1) []),
      ¬ ReadinessLaw env snap := by
  have bound := env.config.dynamicSafeinStableProbes.toNat_lt
  have some := quiet.count
  induction q generalizing st ended begun j with
  | zero =>
      obtain ⟨early, late⟩ := quiet.counts mode unchanged (by omega)
      have frontier : safeInFrontierLower env (beginCluster env st.sched) = .fin 0 := by
        rw [safeInFrontierLower_begin, quiet.frontier]
      have first := beginCluster_spec mode st.sched
      have second := update_spec mode false (beginCluster env st.sched)
      have seen : (beginCluster env st.sched).dynamicSafeinProbesSeen.toNat = begun + 1 := by
        rw [first.probesSeen, if_pos rfl]
        exact succ_toNat quiet.seen (by omega)
      have asked : (max 1 env.config.dynamicSafeinStableProbes).toNat =
          env.config.dynamicSafeinStableProbes.toNat := by
        rw [asked_toNat]
        omega
      by_cases even : env.config.dynamicSafeinStableProbes.toNat = 2 * j
      · refine ⟨⟨beginCluster env st.sched, ended, begun + 1⟩, by simp [readinessTrace], ?_⟩
        intro law
        have ready : (beginCluster env st.sched).dynamicSafeinReady = true := by
          refine first.ready.2 ⟨by rw [quiet.frontier]; rfl, ?_, ?_⟩
          · rw [UInt32.le_iff_toNat_le, seen]
            exact probed
          · rw [UInt32.le_iff_toNat_le, asked, early, even]
        obtain ⟨f, -, here, -⟩ := (law ready).1 j (by omega)
        exact quiet.earlier f here
      · refine ⟨⟨endCluster std env givenBatches st.sched [],
          safeInFrontierLower env (endCluster std env givenBatches st.sched []) :: ended,
          begun + 1⟩, by simp [readinessTrace], ?_⟩
        intro law
        have ready : (endCluster std env givenBatches st.sched []).dynamicSafeinReady = true := by
          rw [endCluster_nil]
          refine second.ready.2 ⟨by rw [frontier]; rfl, ?_, ?_⟩
          · rw [UInt32.le_iff_toNat_le, second.probesSeen, if_neg Bool.false_ne_true, seen]
            exact probed
          · rw [UInt32.le_iff_toNat_le, asked, late]
            omega
        obtain ⟨f, -, here, -⟩ := (law ready).1 (j + 1) (by omega)
        exact quiet.earlier f here
  | succ q ih =>
      have next := quiet.step std mode unchanged (by omega) (by omega)
        (List.replicate (q + 1) ([] : List CandidateBatch)).isEmpty
      obtain ⟨snap, mem, broken⟩ := ih next (by omega) (by omega) (by omega) next.count
      refine ⟨snap, ?_, broken⟩
      rw [List.replicate_succ, readinessTrace]
      exact List.mem_cons_of_mem _ (List.mem_cons_of_mem _ mem)

variable (std) in
/-- Clusters without candidates first: the loop is idle still when the others begin. -/
theorem Idle.after (mode : env.config.dynamicSafeinMode = .frontier) (p : Nat)
    (idle : Idle st.sched ended begun) (few : begun + p < 2 ^ 32)
    (clusters : List (List CandidateBatch)) :
    ∃ (st' : ProbeLoop) (ended' : List Flt), Idle st'.sched ended' (begun + p) ∧
      ∀ snap ∈ readinessTrace std env givenBatches st' ended' (begun + p) clusters,
        snap ∈ readinessTrace std env givenBatches st ended begun
          (List.replicate p [] ++ clusters) := by
  induction p generalizing st ended begun with
  | zero => exact ⟨st, ended, idle, fun snap mem => mem⟩
  | succ p ih =>
      have next := idle.step std mode (by omega)
        (List.replicate p ([] : List CandidateBatch) ++ clusters).isEmpty
      obtain ⟨st', ended', idle', later⟩ := ih next (by omega)
      rw [Nat.add_assoc, Nat.add_comm 1 p] at idle' later
      refine ⟨st', ended', idle', fun snap mem => ?_⟩
      rw [List.replicate_succ, List.cons_append, readinessTrace]
      exact List.mem_cons_of_mem _ (List.mem_cons_of_mem _ (later snap mem))

variable (std) in
/-- **The first finite frontier breaks the promise** where one stable cluster is asked for:
there is no frontier before it. -/
theorem Idle.broken_at_once (mode : env.config.dynamicSafeinMode = .frontier)
    (some_k : env.config.topK ≠ 0) (idle : Idle st.sched ended begun)
    (one : env.config.dynamicSafeinStableProbes.toNat ≤ 1) (small : begun + 1 < 2 ^ 32)
    (probed : env.config.dynamicSafeinMinProbes.toNat ≤ begun + 1) :
    ∃ snap ∈ readinessTrace std env givenBatches st ended begun
        [flatCluster env.config.topK.toNat], ¬ ReadinessLaw env snap := by
  have flat := idle.flat std mode some_k small true
  have same := probeStep_safeIn std env givenBatches st (flatCluster env.config.topK.toNat) true
  have second := update_spec mode false
    (gathered std env givenBatches st.sched (flatCluster env.config.topK.toNat))
  refine ⟨⟨endCluster std env givenBatches st.sched (flatCluster env.config.topK.toNat), _ :: ended,
    begun + 1⟩, List.mem_cons_of_mem _ List.mem_cons_self, fun law => ?_⟩
  have ready : (endCluster std env givenBatches st.sched
      (flatCluster env.config.topK.toNat)).dynamicSafeinReady = true := by
    refine second.ready.2 ⟨by rw [gathered_flat std mode some_k idle.heap]; rfl, ?_, ?_⟩
    · rw [UInt32.le_iff_toNat_le, ← endCluster_eq,
        ← (SameCounters.of_safeIn same).probesSeen, flat.seen]
      exact probed
    · have count := flat.count
      rw [(SameCounters.of_safeIn same).stableCount] at count
      rw [UInt32.le_iff_toNat_le, ← endCluster_eq, asked_toNat]
      omega
  obtain ⟨-, last, -, before, -⟩ := (law ready).1 0 (by omega)
  exact idle.infinite 0 last before

end Broken

/-! ## The law -/

/-- Every update of every run keeps the promise. -/
def ReadinessHolds (std : StdAlgo) (env : Env) : Prop :=
  ∀ (Cluster : Type) (probe : Prober Cluster) (clusters : List Cluster),
    ∀ snap ∈ readinessTrace std env probe ⟨{}, 0, 0⟩ [] 0 clusters, ReadinessLaw env snap

/-- **Readiness keeps to its setting** in every run exactly when there is no frontier at all,
or two stable clusters are asked for and an unchanged frontier is not stable. -/
theorem readiness_law_iff (std : StdAlgo) (env : Env)
    (mode : env.config.dynamicSafeinMode = .frontier) :
    ReadinessHolds std env ↔ env.config.topK = 0 ∨
      (2 ≤ env.config.dynamicSafeinStableProbes ∧ unchangedIsStable env = false) := by
  constructor
  · intro holds
    by_contra broken
    rw [not_or] at broken
    obtain ⟨some_k, frequent⟩ := broken
    have idle : Idle ({} : Sched) [] 0 := ⟨rfl, rfl, rfl, by simp⟩
    have small := env.config.dynamicSafeinMinProbes.toNat_lt
    have small' := env.config.dynamicSafeinStableProbes.toNat_lt
    by_cases two : 2 ≤ env.config.dynamicSafeinStableProbes
    · -- the counts reach the setting halfway
      have unchanged : unchangedIsStable env = true := by
        rw [← Bool.not_eq_false]
        exact fun never => frequent ⟨two, never⟩
      have asked := UInt32.le_iff_toNat_le.1 two
      simp only [UInt32.reduceToNat] at asked
      obtain ⟨st, ended, waiting, later⟩ := @Idle.after std _ ⟨{}, 0, 0⟩ _ _ mode
        (env.config.dynamicSafeinMinProbes.toNat -
          (env.config.dynamicSafeinStableProbes.toNat / 2 + 1)) idle (by omega)
        (flatCluster env.config.topK.toNat ::
          List.replicate (env.config.dynamicSafeinStableProbes.toNat / 2) [])
      have quiet := waiting.flat std mode some_k (by omega)
        (List.replicate (env.config.dynamicSafeinStableProbes.toNat / 2)
          ([] : List CandidateBatch)).isEmpty
      obtain ⟨snap, mem, unkept⟩ := quiet.broken std mode unchanged
        (env.config.dynamicSafeinStableProbes.toNat / 2 - 1) (by omega) (by omega) (by omega)
      rw [Nat.sub_add_cancel (by omega)] at mem
      refine unkept (holds _ givenBatches _ snap (later snap ?_))
      exact List.mem_cons_of_mem _ (List.mem_cons_of_mem _ mem)
    · -- one is enough, and the first is compared with nothing
      have one := UInt32.lt_iff_toNat_lt.1 (UInt32.not_le.1 two)
      simp only [UInt32.reduceToNat] at one
      obtain ⟨st, ended, waiting, later⟩ := @Idle.after std _ ⟨{}, 0, 0⟩ _ _ mode
        (env.config.dynamicSafeinMinProbes.toNat - 1) idle (by omega)
        [flatCluster env.config.topK.toNat]
      obtain ⟨snap, mem, unkept⟩ := waiting.broken_at_once std mode some_k (by omega) (by omega)
        (by omega)
      exact unkept (holds _ givenBatches _ snap (later snap mem))
  · intro kept Cluster probe clusters snap mem ready
    rw [readinessTrace_unready probe mode kept clusters snap mem] at ready
    cases ready

/-- The default setting asks for two stable clusters and takes an unchanged frontier for
stable. -/
theorem readiness_law_iff_default :
    ReadinessHolds StdAlgo.reference ⟨{ dynamicSafeinMode := .frontier }, .posInf, 8, false⟩ ↔
      ((10 : UInt32) = 0 ∨ ((2 : UInt32) ≤ 2 ∧
        unchangedIsStable ⟨{ dynamicSafeinMode := .frontier }, .posInf, 8, false⟩ = false)) :=
  readiness_law_iff StdAlgo.reference ⟨{ dynamicSafeinMode := .frontier }, .posInf, 8, false⟩ rfl

/-- The default setting with one result. -/
def oneResult : Env := ⟨{ topK := 1, dynamicSafeinMode := .frontier }, .posInf, 8, false⟩

/-- Two stable clusters are asked for, and the threshold is ready after one: the second
cluster begins with the frontier the first ended with. -/
theorem ready_after_one_cluster :
    oneResult.config.dynamicSafeinStableProbes = 2 ∧
      ¬ ∀ snap ∈ readinessTrace StdAlgo.reference oneResult givenBatches ⟨{}, 0, 0⟩ [] 0
          [flatCluster 1, []], ReadinessLaw oneResult snap := by
  refine ⟨rfl, fun law => ?_⟩
  have third : (readinessTrace StdAlgo.reference oneResult givenBatches ⟨{}, 0, 0⟩ [] 0
      [flatCluster 1, []])[2]?.map (fun snap => (snap.sched.dynamicSafeinReady, snap.ended)) =
        some (true, [.fin 0]) := by
    decide +kernel
  obtain ⟨snap, at_two, eq⟩ := Option.map_eq_some_iff.1 third
  obtain ⟨ready, ended⟩ := Prod.mk.inj eq
  obtain ⟨f, -, second, -⟩ := (law snap (List.mem_of_getElem? at_two) ready).1 1 (by decide)
  rw [ended] at second
  cases second

end VecFetch.Query
