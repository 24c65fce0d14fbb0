/-
# Query.Ledger -- without a budget, every candidate is read exactly once

`ledger` is the multiset of addresses the scheduler answers for: reads emitted,
plans in the two pending queues, candidates in the deferred pool.  Each operation
either moves addresses inside the ledger or adds the lanes of a batch to it
(`ledger_*`), so after any run it is the candidates the sink was given; the last
flush empties everything but the emitted reads (`probeResidentClusters_ledger`).

The pending count is a `uint32_t`.  With `2 ^ 32` candidates pending it is zero and
nothing is emitted (`reads_lost_at_two_pow_32`), so the law asks for fewer.
-/
import VecFetch.Query.Scheduler
import Mathlib.Algebra.Order.Group.Multiset
import Mathlib.Tactic.Abel

namespace VecFetch.Query

open VecFetch.Theory

set_option autoImplicit false

variable (std : StdAlgo) (env : Env)

/-- The addresses the scheduler answers for. -/
def ledger (s : Sched) : Multiset AddressEntry :=
  (s.emitted.map PendingIO.addr : Multiset AddressEntry) +
    (s.pendingAllPlans.map ReadPlanEntry.addr : Multiset AddressEntry) +
    (s.unsentVecOnly.map VecOnlyReadPlan.addr : Multiset AddressEntry) +
    (s.deferredSafeInPlans.map DeferredSafeInPlan.addr : Multiset AddressEntry)

/-- A read of a record at its own offset: the whole record if it is small enough,
else its vector. -/
def ReadOk (io : PendingIO) : Prop :=
  io.readOffset = io.addr.offset ∧
    (io.type = .vecAll ∧ io.addr.size ≤ env.config.safeinAllThreshold ∧ io.readLength = io.addr.size ∨
      io.type = .vecOnly ∧ io.readLength = env.vecBytes)

/-- What every reachable state of a run without a budget satisfies. -/
structure QueuesOk (s : Sched) : Prop where
  emitted_ok : ∀ io ∈ s.emitted, ReadOk env io
  pending_ok : ∀ plan ∈ s.pendingAllPlans,
    plan = vecAllPlan plan.addr ∧ plan.addr.size ≤ env.config.safeinAllThreshold
  head_le : s.pendingVecOnlyHead ≤ s.pendingVecOnlyPlans.length

/-- The plans an operation may queue. -/
def PlanOk (plan : ReadPlanEntry) : Prop :=
  plan = vecAllPlan plan.addr ∧ plan.addr.size ≤ env.config.safeinAllThreshold ∨
    plan = vecOnlyPlan env plan.addr

theorem emitted_append_prep {α : Type} (s : Sched) (xs : List α) (read : α → PendingIO) :
    (s.calls ++ xs.map fun x => IoCall.prepRead (read x)).filterMap IoCall.prepared? =
      s.emitted ++ xs.map read := by
  rw [List.filterMap_append, List.filterMap_map]
  exact congrArg (s.emitted ++ ·) (congrFun (List.filterMap_eq_map (f := read)) xs)

/-- A submit or a poll moves nothing. -/
theorem ledger_call {c : IoCall} (notRead : c.prepared? = none) (s : Sched) :
    ledger (s.call c) = ledger s := by
  simp only [ledger, Sched.emitted_call notRead]
  rfl

theorem QueuesOk.call {env : Env} {c : IoCall} (notRead : c.prepared? = none) {s : Sched}
    (ok : QueuesOk env s) : QueuesOk env (s.call c) where
  emitted_ok := by rw [Sched.emitted_call notRead]; exact ok.emitted_ok
  pending_ok := ok.pending_ok
  head_le := ok.head_le

/-! ## Adding to the ledger -/

section Push

variable {env}

theorem ledger_pushPlan {plan : ReadPlanEntry} {s : Sched} (ok : QueuesOk env s) :
    ledger (pushPlan plan s) = ledger s + {plan.addr} := by
  unfold pushPlan
  split
  · simp only [ledger, Sched.emitted, Sched.unsentVecOnly, List.map_append, List.map_cons,
      List.map_nil, ← Multiset.coe_add, Multiset.coe_singleton]
    abel
  · simp only [ledger, Sched.emitted, Sched.unsentVecOnly, List.drop_append_of_le_length ok.head_le,
      List.map_append, List.map_cons, List.map_nil, ← Multiset.coe_add, Multiset.coe_singleton]
    abel

theorem pushPlan_ok {plan : ReadPlanEntry} {s : Sched} (planOk : PlanOk env plan)
    (ok : QueuesOk env s) : QueuesOk env (pushPlan plan s) := by
  unfold pushPlan
  split
  · rename_i isAll
    refine ⟨ok.emitted_ok, fun p mem => ?_, ok.head_le⟩
    rcases List.mem_append.1 mem with h | h
    · exact ok.pending_ok p h
    · rw [List.mem_singleton.1 h]
      rcases planOk with h | h
      · exact h
      · rw [h] at isAll
        simp [vecOnlyPlan] at isAll
  · refine ⟨ok.emitted_ok, ok.pending_ok, ?_⟩
    have := ok.head_le
    simp only [List.length_append, List.length_singleton]
    omega

theorem addPlan_of_noBudget (noBudget : env.config.nonSafeoutCandidateBudget = 0)
    (plan : ReadPlanEntry) (rankKey : Flt) (s : Sched) :
    addPlan std env plan rankKey s = pushPlan plan s := by
  simp [addPlan, Env.useNonSafeOutCandidateBudget, noBudget]

theorem planOk_vecOnly (addr : AddressEntry) : PlanOk env (vecOnlyPlan env addr) := Or.inr rfl

theorem planOk_vecAll {addr : AddressEntry} (small : addr.size ≤ env.config.safeinAllThreshold) :
    PlanOk env (vecAllPlan addr) := Or.inl ⟨rfl, small⟩

/-- Planning a list of candidates adds their addresses. -/
theorem foldl_pushPlan (env : Env) {α : Type} (plan : α → ReadPlanEntry) (xs : List α)
    (planOk : ∀ x ∈ xs, PlanOk env (plan x)) {s : Sched} (ok : QueuesOk env s) :
    QueuesOk env (xs.foldl (fun s x => pushPlan (plan x) s) s) ∧
      ledger (xs.foldl (fun s x => pushPlan (plan x) s) s) =
        ledger s + (xs.map fun x => (plan x).addr : Multiset AddressEntry) := by
  induction xs generalizing s with
  | nil => exact ⟨ok, by simp⟩
  | cons x xs ih =>
      have step := pushPlan_ok (planOk x List.mem_cons_self) ok
      obtain ⟨h1, h2⟩ := ih (fun y hy => planOk y (List.mem_cons_of_mem _ hy)) step
      refine ⟨h1, ?_⟩
      rw [List.foldl_cons, h2, ledger_pushPlan ok, List.map_cons, ← Multiset.cons_coe,
        ← Multiset.singleton_add]
      abel

end Push

/-! ## Moving inside the ledger -/

section Move

variable {env}

/-- The read a deferred plan leaves the pool as. -/
def deferredRead (env : Env) (threshold : Flt) (plan : DeferredSafeInPlan) : ReadPlanEntry :=
  if threshold.isFinite && decide (plan.addr.size ≤ env.config.safeinAllThreshold) &&
      plan.safeinUpperBound.lt threshold then vecAllPlan plan.addr
  else vecOnlyPlan env plan.addr

theorem deferredRead_addr (threshold : Flt) (plan : DeferredSafeInPlan) :
    (deferredRead env threshold plan).addr = plan.addr := by
  unfold deferredRead
  split <;> rfl

theorem deferredRead_ok (threshold : Flt) (plan : DeferredSafeInPlan) :
    PlanOk env (deferredRead env threshold plan) := by
  unfold deferredRead
  split
  · rename_i covered
    simp only [Bool.and_eq_true, decide_eq_true_eq] at covered
    exact planOk_vecAll covered.1.2
  · exact planOk_vecOnly _

theorem flushDeferredPlan_eq (threshold : Flt) (s : Sched) (plan : DeferredSafeInPlan) :
    flushDeferredPlan std env threshold s plan =
      addPlan std env (deferredRead env threshold plan) plan.rankKey s := by
  unfold flushDeferredPlan deferredRead
  split <;> rfl

theorem foldl_flushDeferredPlan (noBudget : env.config.nonSafeoutCandidateBudget = 0)
    (threshold : Flt) (plans : List DeferredSafeInPlan) {s : Sched} (ok : QueuesOk env s) :
    QueuesOk env (plans.foldl (flushDeferredPlan std env threshold) s) ∧
      ledger (plans.foldl (flushDeferredPlan std env threshold) s) =
        ledger s + (plans.map DeferredSafeInPlan.addr : Multiset AddressEntry) := by
  have pushes : flushDeferredPlan std env threshold =
      fun s plan => pushPlan (deferredRead env threshold plan) s := by
    funext s plan
    rw [flushDeferredPlan_eq, addPlan_of_noBudget std noBudget]
  have := foldl_pushPlan env (deferredRead env threshold) plans
    (fun plan _ => deferredRead_ok threshold plan) ok
  simpa only [pushes, deferredRead_addr] using this

theorem flushDeferredPlan_deferred (threshold : Flt) (s : Sched) (plan : DeferredSafeInPlan) :
    (flushDeferredPlan std env threshold s plan).deferredSafeInPlans = s.deferredSafeInPlans := by
  unfold flushDeferredPlan addPlan addBudgetedReadPlan pushPlan
  split_ifs <;> rfl

theorem foldl_flushDeferredPlan_deferred (env : Env) (threshold : Flt) (plans : List DeferredSafeInPlan)
    (s : Sched) : (plans.foldl (flushDeferredPlan std env threshold) s).deferredSafeInPlans =
      s.deferredSafeInPlans := by
  induction plans generalizing s with
  | nil => rfl
  | cons plan plans ih => rw [List.foldl_cons, ih, flushDeferredPlan_deferred]

/-- A flush empties the pool into the queues, or does nothing. -/
theorem flushDeferredSafeInPlans_ledger (noBudget : env.config.nonSafeoutCandidateBudget = 0)
    (threshold : Flt) (force : Bool) {s : Sched} (ok : QueuesOk env s) :
    QueuesOk env (flushDeferredSafeInPlans std env threshold force s) ∧
      ledger (flushDeferredSafeInPlans std env threshold force s) = ledger s := by
  unfold flushDeferredSafeInPlans
  split
  · exact ⟨ok, rfl⟩
  split
  · exact ⟨ok, rfl⟩
  obtain ⟨h1, h2⟩ := foldl_flushDeferredPlan std noBudget threshold s.deferredSafeInPlans ok
  have kept := foldl_flushDeferredPlan_deferred std env threshold s.deferredSafeInPlans s
  refine ⟨⟨h1.emitted_ok, h1.pending_ok, h1.head_le⟩, ?_⟩
  -- the fold added the pool to the queues while the pool still held it
  have := add_right_cancel (by simpa only [ledger, kept] using h2)
  simp only [ledger, List.map_nil, Multiset.coe_nil, add_zero]
  exact this

theorem forced_flush_empties (env : Env) (threshold : Flt) (s : Sched) :
    (flushDeferredSafeInPlans std env threshold true s).deferredSafeInPlans = [] := by
  unfold flushDeferredSafeInPlans
  split
  · rename_i empty
    simpa using empty
  · simp

/-! ### Emission -/

theorem byOffset_order (plans : List VecOnlyReadPlan) : StrictWeakOn byOffset plans := by
  have : byOffset = fun a b => decide (a.addr.offset.toNat < b.addr.offset.toNat) := by
    funext a b
    simp [byOffset, UInt64.lt_iff_toNat_lt]
  rw [this]
  exact strictWeakOn_of_key (fun p : VecOnlyReadPlan => p.addr.offset.toNat) plans

theorem sortChunks_perm (window : Nat) : ∀ (fuel : Nat) (plans : List VecOnlyReadPlan),
    (sortChunks std window fuel plans).Perm plans
  | 0, plans => .refl _
  | fuel + 1, plans => by
      unfold sortChunks
      split
      · exact .refl _
      · calc (std.sort byOffset (plans.take window) ++
              sortChunks std window fuel (plans.drop window))
          _ |>.Perm (plans.take window ++ plans.drop window) :=
              (std.sort_spec (byOffset_order _)).2.append (sortChunks_perm window fuel _)
          _ |>.Perm plans := by rw [List.take_append_drop]

theorem sortVecOnlyWindow_spec (env : Env) (count : Nat) {s : Sched}
    (head_le : s.pendingVecOnlyHead ≤ s.pendingVecOnlyPlans.length) :
    ∃ plans, sortVecOnlyWindow std env count s = { s with pendingVecOnlyPlans := plans } ∧
      plans.length = s.pendingVecOnlyPlans.length ∧
      (plans.drop s.pendingVecOnlyHead).Perm s.unsentVecOnly := by
  unfold sortVecOnlyWindow
  split
  · exact ⟨_, rfl, rfl, .refl _⟩
  dsimp only
  split
  · exact ⟨_, rfl, rfl, .refl _⟩
  rename_i several
  set first := s.pendingVecOnlyHead
  set last := min s.pendingVecOnlyPlans.length (first + count) with hlast
  set range := (s.pendingVecOnlyPlans.take last).drop first with hrange
  have sorted : (if env.config.vecReadAddressSortWindow.toNat = 0 ∨
        last - first ≤ env.config.vecReadAddressSortWindow.toNat then std.sort byOffset range
      else sortChunks std env.config.vecReadAddressSortWindow.toNat range.length range).Perm
        range := by
    split
    · exact (std.sort_spec (byOffset_order range)).2
    · exact sortChunks_perm std _ _ _
  have whole : s.pendingVecOnlyPlans.take first ++ range ++ s.pendingVecOnlyPlans.drop last =
      s.pendingVecOnlyPlans := by
    have : s.pendingVecOnlyPlans.take first = (s.pendingVecOnlyPlans.take last).take first := by
      rw [List.take_take, min_eq_left (by omega)]
    rw [this, hrange, List.take_append_drop, List.take_append_drop]
  refine ⟨_, rfl, ?_, ?_⟩
  · have := congrArg List.length whole
    simp only [List.length_append, sorted.length_eq] at this ⊢
    exact this
  · have len : (s.pendingVecOnlyPlans.take first).length = first := by
      rw [List.length_take, min_eq_left head_le]
    have unsent : s.unsentVecOnly = range ++ s.pendingVecOnlyPlans.drop last := by
      have := congrArg (List.drop first) whole
      rw [List.append_assoc, List.drop_left' len] at this
      exact this.symm
    rw [unsent, List.append_assoc, List.drop_left' len]
    exact sorted.append_right _

theorem emitAll_spec (count : Nat) {s : Sched} (ok : QueuesOk env s) :
    QueuesOk env (emitAll count s) ∧ ledger (emitAll count s) = ledger s := by
  have taken : ∀ plan ∈ s.pendingAllPlans.take count, ReadOk env plan.read := fun plan mem => by
    obtain ⟨eq, small⟩ := ok.pending_ok plan (List.mem_of_mem_take mem)
    exact ⟨rfl, Or.inl ⟨rfl, small, by rw [eq]; rfl⟩⟩
  have emitted : (emitAll count s).emitted =
      s.emitted ++ (s.pendingAllPlans.take count).map ReadPlanEntry.read :=
    emitted_append_prep s _ _
  refine ⟨⟨?_, fun plan mem => ok.pending_ok plan (List.mem_of_mem_drop mem), ok.head_le⟩, ?_⟩
  · intro io mem
    rw [emitted] at mem
    rcases List.mem_append.1 mem with h | h
    · exact ok.emitted_ok io h
    · obtain ⟨plan, inTake, rfl⟩ := List.mem_map.1 h
      exact taken plan inTake
  · have split : (s.pendingAllPlans.map ReadPlanEntry.addr : Multiset AddressEntry) =
        ((s.pendingAllPlans.take count).map ReadPlanEntry.addr : Multiset AddressEntry) +
          ((s.pendingAllPlans.drop count).map ReadPlanEntry.addr : Multiset AddressEntry) := by
      rw [Multiset.coe_add, ← List.map_append, List.take_append_drop]
    unfold ledger
    rw [emitted, split, List.map_append, List.map_map, ← Multiset.coe_add]
    simp only [emitAll, Sched.unsentVecOnly, ReadPlanEntry.read, Function.comp_def]
    abel

theorem emitVecOnly_spec {count : Nat} {s : Sched} (ok : QueuesOk env s)
    (enough : s.pendingVecOnlyHead + count ≤ s.pendingVecOnlyPlans.length) :
    QueuesOk env (emitVecOnly env count s) ∧ ledger (emitVecOnly env count s) = ledger s := by
  have emitted : (emitVecOnly env count s).emitted =
      s.emitted ++ (s.unsentVecOnly.take count).map (VecOnlyReadPlan.read env) :=
    emitted_append_prep s _ _
  refine ⟨⟨?_, ok.pending_ok, enough⟩, ?_⟩
  · intro io mem
    rw [emitted] at mem
    rcases List.mem_append.1 mem with h | h
    · exact ok.emitted_ok io h
    · obtain ⟨plan, -, rfl⟩ := List.mem_map.1 h
      exact ⟨rfl, Or.inr ⟨rfl, rfl⟩⟩
  · have unsent : (emitVecOnly env count s).unsentVecOnly = s.unsentVecOnly.drop count := by
      simp [emitVecOnly, Sched.unsentVecOnly]
    have split : (s.unsentVecOnly.map VecOnlyReadPlan.addr : Multiset AddressEntry) =
        ((s.unsentVecOnly.take count).map VecOnlyReadPlan.addr : Multiset AddressEntry) +
          ((s.unsentVecOnly.drop count).map VecOnlyReadPlan.addr : Multiset AddressEntry) := by
      rw [Multiset.coe_add, ← List.map_append, List.take_append_drop]
    unfold ledger
    rw [emitted, unsent, split, List.map_append, List.map_map, ← Multiset.coe_add]
    simp only [emitVecOnly, VecOnlyReadPlan.read, Function.comp_def]
    abel

theorem min_eq_left_u32 {a b : UInt32} (h : a ≤ b) : min a b = a := if_pos h

theorem min_eq_right_u32 {a b : UInt32} (h : b ≤ a) : min a b = b := by
  change (if a ≤ b then a else b) = b
  split
  · rename_i h'; exact UInt32.le_antisymm h' h
  · rfl

/-- How many plans are pending, unwrapped. -/
def pendingPlans (s : Sched) : Nat := s.pendingAllPlans.length + s.unsentVecOnly.length

theorem pendingPlans_le (s : Sched) : pendingPlans s ≤ (ledger s).card := by
  simp only [pendingPlans, ledger, Multiset.card_add, Multiset.coe_card, List.length_map]
  omega

theorem pendingPlans_zero {s : Sched} (none : pendingPlans s = 0) :
    s.pendingAllPlans = [] ∧ s.unsentVecOnly = [] := by
  unfold pendingPlans at none
  exact ⟨List.eq_nil_of_length_eq_zero (by omega), List.eq_nil_of_length_eq_zero (by omega)⟩

theorem pendingDataRequestCount_toNat {s : Sched} (few : pendingPlans s < 2 ^ 32) :
    (pendingDataRequestCount s).toNat = pendingPlans s := by
  simp only [pendingPlans, Sched.unsentVecOnly, List.length_drop] at few ⊢
  exact UInt32.toNat_ofNat_of_lt' few

/-- Emitting the whole pending count empties both queues, if the count did not
wrap. -/
theorem emitPendingDataRequests_spec {s : Sched} (ok : QueuesOk env s)
    (few : pendingPlans s < 2 ^ 32) :
    let s' := emitPendingDataRequests std env (pendingDataRequestCount s) s
    QueuesOk env s' ∧ ledger s' = ledger s ∧ s'.deferredSafeInPlans = s.deferredSafeInPlans ∧
      s'.pendingAllPlans = [] ∧ s'.unsentVecOnly = [] := by
  have count := pendingDataRequestCount_toNat few
  unfold pendingPlans at count few
  have allCount : (UInt32.ofNat s.pendingAllPlans.length).toNat = s.pendingAllPlans.length := by
    refine UInt32.toNat_ofNat_of_lt' ?_
    have : UInt32.size = 2 ^ 32 := rfl
    omega
  simp only [emitPendingDataRequests, min_eq_left_u32 (UInt32.le_refl _)]
  split
  · rename_i zero
    have : (pendingDataRequestCount s).toNat = 0 := by
      rw [beq_iff_eq.1 zero]; rfl
    exact ⟨ok, rfl, rfl, List.eq_nil_of_length_eq_zero (by omega),
      List.eq_nil_of_length_eq_zero (by omega)⟩
  · have le : UInt32.ofNat s.pendingAllPlans.length ≤ pendingDataRequestCount s := by
      rw [UInt32.le_iff_toNat_le]; omega
    have rest : (pendingDataRequestCount s - UInt32.ofNat s.pendingAllPlans.length).toNat =
        s.unsentVecOnly.length := by
      rw [UInt32.toNat_sub_of_le _ _ le]; omega
    rw [min_eq_right_u32 le, rest, allCount]
    obtain ⟨allOk, allLedger⟩ := emitAll_spec s.pendingAllPlans.length ok
    set t := emitAll s.pendingAllPlans.length s with ht
    have tUnsent : t.unsentVecOnly = s.unsentVecOnly := rfl
    have tAll : t.pendingAllPlans = [] := by simp [ht, emitAll]
    obtain ⟨plans, sorted, sameLength, perm⟩ :=
      sortVecOnlyWindow_spec std env s.unsentVecOnly.length allOk.head_le
    have sortedOk : QueuesOk env { t with pendingVecOnlyPlans := plans } :=
      ⟨allOk.emitted_ok, allOk.pending_ok, sameLength ▸ allOk.head_le⟩
    have sortedLedger : ledger { t with pendingVecOnlyPlans := plans } = ledger t := by
      have := Multiset.coe_eq_coe.2 (perm.map VecOnlyReadPlan.addr)
      simp only [ledger, Sched.emitted, Sched.unsentVecOnly] at this ⊢
      rw [this]
    have room : t.pendingVecOnlyHead + s.unsentVecOnly.length = plans.length := by
      have := allOk.head_le
      rw [← tUnsent, Sched.unsentVecOnly, List.length_drop, sameLength]
      omega
    obtain ⟨vecOk, vecLedger⟩ := emitVecOnly_spec sortedOk room.le
    rw [sorted]
    refine ⟨vecOk, by rw [vecLedger, sortedLedger, allLedger], rfl, tAll, ?_⟩
    exact List.drop_eq_nil_of_le room.ge

theorem flushPending_spec {s : Sched} (ok : QueuesOk env s) (few : pendingPlans s < 2 ^ 32) :
    let s' := flushPending std env s
    QueuesOk env s' ∧ ledger s' = ledger s ∧ s'.deferredSafeInPlans = s.deferredSafeInPlans ∧
      s'.pendingAllPlans = [] ∧ s'.unsentVecOnly = [] := by
  obtain ⟨ok', same, rest⟩ := emitPendingDataRequests_spec std ok few
  exact ⟨ok'.call rfl, (ledger_call rfl _).trans same, rest⟩

/-- The last flush of a run leaves nothing pending, whether or not it had work. -/
theorem lastFlush_spec {s : Sched} (ok : QueuesOk env s) (few : pendingPlans s < 2 ^ 32) :
    let s' := if 0 < pendingDataRequestCount s then flushPending std env s else s
    QueuesOk env s' ∧ ledger s' = ledger s ∧ s'.deferredSafeInPlans = s.deferredSafeInPlans ∧
      s'.pendingAllPlans = [] ∧ s'.unsentVecOnly = [] := by
  dsimp only
  split
  · exact flushPending_spec std ok few
  · rename_i nothing
    have zero : (pendingDataRequestCount s).toNat = 0 := by
      rw [UInt32.lt_iff_toNat_lt] at nothing
      simpa using nothing
    exact ⟨ok, rfl, rfl, pendingPlans_zero ((pendingDataRequestCount_toNat few).symm.trans zero)⟩

end Move

/-! ## A cluster, the loop, the run -/

section Run

variable {env}

/-- The sink keeps every lane of a batch whose offsets differ. -/
theorem uniqueLanes_of_nodup : ∀ (lanes kept : List Candidate),
    ((kept ++ lanes).map fun lane => lane.decodedAddr.offset).Nodup →
      uniqueLanes kept lanes = kept ++ lanes
  | [], kept, _ => by simp [uniqueLanes]
  | lane :: rest, kept, nodup => by
      have fresh : (kept.any fun u => u.decodedAddr.offset == lane.decodedAddr.offset) = false := by
        rw [List.any_eq_false]
        intro u mem same
        rw [List.map_append, List.nodup_append] at nodup
        exact nodup.2.2 _ (List.mem_map_of_mem mem) _ (List.mem_map_of_mem List.mem_cons_self)
          (beq_iff_eq.1 same)
      rw [uniqueLanes, fresh, if_neg (by simp),
        uniqueLanes_of_nodup rest (kept ++ [lane]) (by simpa using nodup)]
      simp

theorem buildReadPlans_ledger (noBudget : env.config.nonSafeoutCandidateBudget = 0)
    (lanes : List Candidate) {s : Sched} (ok : QueuesOk env s) :
    QueuesOk env (buildReadPlans std env lanes s) ∧
      ledger (buildReadPlans std env lanes s) =
        ledger s + (lanes.map Candidate.decodedAddr : Multiset AddressEntry) := by
  simp only [buildReadPlans, addPlan_of_noBudget std noBudget]
  obtain ⟨ok₁, led₁⟩ := foldl_pushPlan env
    (fun lane : Candidate => vecAllPlan lane.decodedAddr) (lanes.filter (useVecAll env))
    (fun lane mem => by
      have := (List.mem_filter.1 mem).2
      simp only [useVecAll, Bool.and_eq_true, decide_eq_true_eq] at this
      exact planOk_vecAll this.2) ok
  obtain ⟨ok₂, led₂⟩ := foldl_pushPlan env
    (fun lane : Candidate => vecOnlyPlan env lane.decodedAddr)
    (lanes.filter fun lane => !useVecAll env lane) (fun lane _ => planOk_vecOnly _) ok₁
  refine ⟨ok₂, ?_⟩
  have parts : (lanes.map Candidate.decodedAddr : Multiset AddressEntry) =
      ((lanes.filter (useVecAll env)).map Candidate.decodedAddr : Multiset AddressEntry) +
        ((lanes.filter fun lane => !useVecAll env lane).map Candidate.decodedAddr :
          Multiset AddressEntry) := by
    rw [Multiset.coe_add, Multiset.coe_eq_coe, ← List.map_append]
    exact ((List.filter_append_perm (useVecAll env) lanes).map _).symm
  rw [led₂, led₁, parts, add_assoc]
  rfl

theorem onCandidates_ledger (noBudget : env.config.nonSafeoutCandidateBudget = 0)
    {st : Sched × List EstimateHeapEntry} {batch : CandidateBatch}
    (distinct : (batch.lanes.map fun lane => lane.decodedAddr.offset).Nodup)
    (ok : QueuesOk env st.1) :
    QueuesOk env (onCandidates std env st batch).1 ∧
      ledger (onCandidates std env st batch).1 =
        ledger st.1 + (batch.lanes.map Candidate.decodedAddr : Multiset AddressEntry) := by
  have lanes : uniqueLanes [] batch.lanes = batch.lanes := by
    simpa using uniqueLanes_of_nodup batch.lanes [] (by simpa using distinct)
  simp only [onCandidates, lanes]
  split
  · refine ⟨⟨ok.emitted_ok, ok.pending_ok, ok.head_le⟩, ?_⟩
    simp only [ledger, buildDeferredPlans, Sched.emitted, Sched.unsentVecOnly, List.map_append,
      List.map_map, Function.comp_def, ← Multiset.coe_add]
    abel
  · exact buildReadPlans_ledger std noBudget _ ok

/-- The lanes of some batches. -/
def lanesOf (batches : List CandidateBatch) : List Candidate := batches.flatMap CandidateBatch.lanes

theorem foldl_onCandidates_ledger (noBudget : env.config.nonSafeoutCandidateBudget = 0)
    (batches : List CandidateBatch) (st : Sched × List EstimateHeapEntry)
    (distinct : ((lanesOf batches).map fun lane => lane.decodedAddr.offset).Nodup)
    (ok : QueuesOk env st.1) :
    QueuesOk env (batches.foldl (onCandidates std env) st).1 ∧
      ledger (batches.foldl (onCandidates std env) st).1 =
        ledger st.1 + ((lanesOf batches).map Candidate.decodedAddr : Multiset AddressEntry) := by
  induction batches generalizing st with
  | nil => exact ⟨ok, by simp [lanesOf]⟩
  | cons batch batches ih =>
      simp only [lanesOf, List.flatMap_cons, List.map_append, List.nodup_append] at distinct
      obtain ⟨ok₁, led₁⟩ := onCandidates_ledger std noBudget distinct.1 ok
      obtain ⟨ok₂, led₂⟩ := ih _ distinct.2.1 ok₁
      refine ⟨ok₂, ?_⟩
      rw [List.foldl_cons, led₂, led₁, add_assoc, Multiset.coe_add, ← List.map_append]
      rfl

/-- The operations on the frontiers and the SafeIn state leave plans and reads
alone. -/
structure SameQueues (s s' : Sched) : Prop where
  all : s'.pendingAllPlans = s.pendingAllPlans
  vecOnly : s'.pendingVecOnlyPlans = s.pendingVecOnlyPlans
  head : s'.pendingVecOnlyHead = s.pendingVecOnlyHead
  deferred : s'.deferredSafeInPlans = s.deferredSafeInPlans
  heap : s'.budgetedReadPlanHeap = s.budgetedReadPlanHeap
  early : s'.emittedBudgetedOffsets = s.emittedBudgetedOffsets
  earlyCount : s'.budgetedEarlySubmittedCount = s.budgetedEarlySubmittedCount
  calls : s'.calls = s.calls

theorem SameQueues.trans {s s' s'' : Sched} (first : SameQueues s s') (second : SameQueues s' s'') :
    SameQueues s s'' := by
  constructor
  all_goals first
    | exact second.all.trans first.all
    | exact second.vecOnly.trans first.vecOnly
    | exact second.head.trans first.head
    | exact second.deferred.trans first.deferred
    | exact second.heap.trans first.heap
    | exact second.early.trans first.early
    | exact second.earlyCount.trans first.earlyCount
    | exact second.calls.trans first.calls

theorem SameQueues.ledger_eq {s s' : Sched} (same : SameQueues s s') : ledger s' = ledger s := by
  simp only [ledger, Sched.emitted, Sched.unsentVecOnly, same.all, same.vecOnly, same.head,
    same.deferred, same.calls]

theorem SameQueues.ok {s s' : Sched} (same : SameQueues s s') (ok : QueuesOk env s) :
    QueuesOk env s' where
  emitted_ok := by simpa only [Sched.emitted, same.calls] using ok.emitted_ok
  pending_ok := by simpa only [same.all] using ok.pending_ok
  head_le := by simpa only [same.vecOnly, same.head] using ok.head_le

variable (env)

theorem updateDynamicSafeInState_same (advance : Bool) (s : Sched) :
    SameQueues s (updateDynamicSafeInState env advance s) := by
  unfold updateDynamicSafeInState
  split <;> constructor <;> rfl

theorem mergeEstimate_same (s : Sched) (estimate : EstimateHeapEntry) :
    SameQueues s (mergeEstimate std env s estimate) := by
  unfold mergeEstimate addSafeInFrontierEstimate addSafeOutFrontierEstimate
  split_ifs <;> constructor <;> rfl

theorem finalizeCluster_same (st : Sched × List EstimateHeapEntry) :
    SameQueues st.1 (finalizeCluster std env st) := by
  obtain ⟨s, estimates⟩ := st
  unfold finalizeCluster
  induction estimates generalizing s with
  | nil => constructor <;> rfl
  | cons estimate estimates ih =>
      exact (mergeEstimate_same std env s estimate).trans (ih _)

theorem shouldHoldDeferredSafeInPlans_same (s : Sched) :
    SameQueues s (shouldHoldDeferredSafeInPlans env s).2 := by
  unfold shouldHoldDeferredSafeInPlans
  dsimp only
  split_ifs <;> constructor <;> rfl

variable {env} {Cluster : Type} (probe : Prober Cluster)

theorem settleDeferred_ledger (noBudget : env.config.nonSafeoutCandidateBudget = 0) {s : Sched}
    (ok : QueuesOk env s) :
    QueuesOk env (settleDeferred std env s) ∧ ledger (settleDeferred std env s) = ledger s := by
  have same := shouldHoldDeferredSafeInPlans_same env s
  simp only [settleDeferred]
  split
  · exact ⟨same.ok ok, same.ledger_eq⟩
  · obtain ⟨ok', led⟩ := flushDeferredSafeInPlans_ledger std noBudget
      (safeInThresholdForProbe env (shouldHoldDeferredSafeInPlans env s).2) false (same.ok ok)
    exact ⟨ok', led.trans same.ledger_eq⟩

/-- **One cluster adds the lanes of its batches.** -/
theorem probeCluster_ledger (noBudget : env.config.nonSafeoutCandidateBudget = 0)
    (cluster : Cluster) {s : Sched} (ok : QueuesOk env s)
    (distinct : ((lanesOf (probeBatches env probe cluster s)).map
      fun lane => lane.decodedAddr.offset).Nodup) :
    QueuesOk env (probeCluster std env probe s cluster) ∧
      ledger (probeCluster std env probe s cluster) = ledger s +
        ((lanesOf (probeBatches env probe cluster s)).map Candidate.decodedAddr :
          Multiset AddressEntry) := by
  have before := updateDynamicSafeInState_same env true s
  obtain ⟨ok₁, led₁⟩ := foldl_onCandidates_ledger std noBudget (probeBatches env probe cluster s)
    (updateDynamicSafeInState env true s, []) distinct (before.ok ok)
  set sunk := (probeBatches env probe cluster s).foldl (onCandidates std env)
    (updateDynamicSafeInState env true s, [])
  have after := (finalizeCluster_same std env sunk).trans
    (updateDynamicSafeInState_same env false (finalizeCluster std env sunk))
  obtain ⟨ok₂, led₂⟩ := settleDeferred_ledger std noBudget (after.ok ok₁)
  refine ⟨ok₂, led₂.trans ?_⟩
  rw [after.ledger_eq, led₁, before.ledger_eq]

/-- Without a budget there is no early submission. -/
theorem earlySubmitStep_of_noBudget (noBudget : env.config.nonSafeoutCandidateBudget = 0)
    (st : ProbeLoop) : earlySubmitStep std env st = st := by
  simp [earlySubmitStep, Env.useNonSafeOutCandidateBudget, noBudget]

theorem submitStep_ledger (finalCluster : Bool) {st : ProbeLoop} (ok : QueuesOk env st.sched)
    (few : pendingPlans st.sched < 2 ^ 32) :
    QueuesOk env (submitStep std env finalCluster st).sched ∧
      ledger (submitStep std env finalCluster st).sched = ledger st.sched := by
  unfold submitStep
  dsimp only
  split
  · obtain ⟨ok', led, -⟩ := flushPending_spec std ok few
    exact ⟨ok'.call rfl, (ledger_call rfl _).trans led⟩
  · exact ⟨ok, rfl⟩

variable (env)

/-- The candidates the sink is given over the clusters of a run. -/
def givenCandidates : ProbeLoop → List Cluster → List Candidate
  | _, [] => []
  | st, cluster :: rest =>
      lanesOf (probeBatches env probe cluster st.sched) ++
        givenCandidates (probeStep std env probe st cluster rest.isEmpty) rest

variable {env}

/-- **The loop's ledger is what it started with and the candidates given.** -/
theorem probeLoop_ledger (noBudget : env.config.nonSafeoutCandidateBudget = 0)
    (clusters : List Cluster) (st : ProbeLoop) (ok : QueuesOk env st.sched)
    (distinct : ((givenCandidates std env probe st clusters).map
      fun lane => lane.decodedAddr.offset).Nodup)
    (few : (ledger st.sched).card + (givenCandidates std env probe st clusters).length < 2 ^ 32) :
    QueuesOk env (probeLoop std env probe st clusters).sched ∧
      ledger (probeLoop std env probe st clusters).sched = ledger st.sched +
        ((givenCandidates std env probe st clusters).map Candidate.decodedAddr :
          Multiset AddressEntry) := by
  induction clusters generalizing st with
  | nil => exact ⟨ok, by simp [probeLoop, givenCandidates]⟩
  | cons cluster rest ih =>
      simp only [givenCandidates, List.map_append, List.nodup_append, List.length_append]
        at distinct few
      obtain ⟨ok₁, led₁⟩ := probeCluster_ledger std probe noBudget cluster ok distinct.1
      have few₁ : pendingPlans (probeCluster std env probe st.sched cluster) < 2 ^ 32 := by
        have := pendingPlans_le (probeCluster std env probe st.sched cluster)
        rw [led₁, Multiset.card_add, Multiset.coe_card, List.length_map] at this
        omega
      have step : QueuesOk env (probeStep std env probe st cluster rest.isEmpty).sched ∧
          ledger (probeStep std env probe st cluster rest.isEmpty).sched =
            ledger (probeCluster std env probe st.sched cluster) := by
        unfold probeStep
        rw [earlySubmitStep_of_noBudget std noBudget]
        exact submitStep_ledger std _ ok₁ few₁
      obtain ⟨ok₂, led₂⟩ := ih _ step.1 distinct.2.1 (by
        rw [step.2, led₁, Multiset.card_add, Multiset.coe_card, List.length_map]
        omega)
      refine ⟨ok₂, led₂.trans ?_⟩
      rw [step.2, led₁, givenCandidates, List.map_append, ← Multiset.coe_add]
      abel

theorem probeTail_ledger (noBudget : env.config.nonSafeoutCandidateBudget = 0) {s : Sched}
    (ok : QueuesOk env s) (few : (ledger s).card < 2 ^ 32) :
    let s' := probeTail std env s
    QueuesOk env s' ∧ ledger s' = ledger s ∧ s'.deferredSafeInPlans = [] ∧
      s'.pendingAllPlans = [] ∧ s'.unsentVecOnly = [] := by
  obtain ⟨ok₁, led₁⟩ := flushDeferredSafeInPlans_ledger std noBudget
    (safeInThresholdForProbe env s) true ok
  have empty := forced_flush_empties std env (safeInThresholdForProbe env s) s
  set t := flushDeferredSafeInPlans std env (safeInThresholdForProbe env s) true s
  have noHeap : materializeBudgetedReadPlans std env t = t := by
    simp [materializeBudgetedReadPlans, Env.useNonSafeOutCandidateBudget, noBudget]
  have few' : pendingPlans t < 2 ^ 32 := by
    have := pendingPlans_le t
    rw [led₁] at this
    omega
  have tail : probeTail std env s =
      if 0 < pendingDataRequestCount t then flushPending std env t else t := by
    rw [probeTail]
    change (if 0 < pendingDataRequestCount (materializeBudgetedReadPlans std env t) then
      flushPending std env (materializeBudgetedReadPlans std env t)
      else materializeBudgetedReadPlans std env t) = _
    rw [noHeap]
  obtain ⟨ok₂, led₂, deferred, noAll, noVec⟩ := lastFlush_spec std ok₁ few'
  rw [tail]
  exact ⟨ok₂, led₂.trans led₁, deferred.trans empty, noAll, noVec⟩

/-- The final ledger is the emitted reads, and it is the candidates given. -/
theorem probeResidentClusters_ledger (noBudget : env.config.nonSafeoutCandidateBudget = 0)
    (clusters : List Cluster)
    (distinct : ((givenCandidates std env probe ⟨{}, 0, 0⟩ clusters).map
      fun lane => lane.decodedAddr.offset).Nodup)
    (few : (givenCandidates std env probe ⟨{}, 0, 0⟩ clusters).length < 2 ^ 32) :
    let s := probeResidentClusters std env probe clusters {}
    (∀ io ∈ s.emitted, ReadOk env io) ∧
      (s.emitted.map PendingIO.addr).Perm
        ((givenCandidates std env probe ⟨{}, 0, 0⟩ clusters).map Candidate.decodedAddr) ∧
      s.deferredSafeInPlans = [] ∧ s.pendingAllPlans = [] ∧ s.unsentVecOnly = [] := by
  have startOk : QueuesOk env {} := ⟨by simp [Sched.emitted], by simp, by simp⟩
  have startLedger : ledger {} = 0 := by simp [ledger, Sched.emitted, Sched.unsentVecOnly]
  obtain ⟨ok₁, led₁⟩ := probeLoop_ledger std probe noBudget clusters ⟨{}, 0, 0⟩ startOk
    distinct (by rw [startLedger]; simpa using few)
  obtain ⟨ok₂, led₂, noDeferred, noAll, noVec⟩ := probeTail_ledger std noBudget ok₁ (by
    rw [led₁, startLedger]; simpa using few)
  refine ⟨ok₂.emitted_ok, ?_, noDeferred, noAll, noVec⟩
  rw [led₁, startLedger, zero_add] at led₂
  rw [← Multiset.coe_eq_coe, ← led₂]
  simp [ledger, noDeferred, noAll, noVec, probeResidentClusters]

end Run

end VecFetch.Query
