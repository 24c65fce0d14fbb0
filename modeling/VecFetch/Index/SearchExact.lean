/-
# Index.SearchExact -- a search over its clusters gives the exact best

Without a budget, with estimates that are within their margins and reads that return all they
were asked for, a search returns the `top_k` nearest of all the records of the clusters that it
probed, in ascending order (`search_exact`).  Nothing on the way loses one: neither the two stages
that drop records, nor the pending queues, nor the order in which reads finish.
-/
import VecFetch.Index.SafeOut
import VecFetch.Query.ResultCollector
import VecFetch.Query.Timing

namespace VecFetch.Index

open VecFetch.Theory VecFetch.Query

set_option autoImplicit false

section Search

variable {std : StdAlgo} {env : Env} {p : ClusterProber} {clusters : List ProbedCluster}
  {trueDist : AddressEntry → ℚ}

/-! ## What the candidates keep -/

/-- A record as a result of the exact rerank. -/
def resultOf (trueDist : AddressEntry → ℚ) (addr : AddressEntry) : CollectorEntry :=
  ⟨.fin (trueDist addr), addr⟩

theorem resultOf_lt (a b : AddressEntry) :
    (resultOf trueDist a).lt (resultOf trueDist b) = decide (trueDist a < trueDist b) :=
  Flt.lt_fin _ _

theorem resultOf_order (addrs : List AddressEntry) :
    StrictWeakOn CollectorEntry.lt (addrs.map (resultOf trueDist)) :=
  ResultCollector.order_of_numbers fun e mem => by
    obtain ⟨a, -, rfl⟩ := List.mem_map.1 mem
    exact Flt.noConfusion

/-- What a query for at least one result probes: its records are stored once, they have room for a
vector, and their estimates are within their margins. -/
structure Probed (env : Env) (p : ClusterProber) (trueDist : AddressEntry → ℚ)
    (clusters : List ProbedCluster) : Prop where
  wanted : env.config.topK ≠ 0
  distinct : ((allRecords clusters).map fun r => r.addr.offset).Nodup
  few : (allRecords clusters).length < 2 ^ 32
  hold : ∀ r ∈ allRecords clusters, env.vecBytes ≤ r.addr.size
  estimates : ∀ pc ∈ clusters, EstimatesOk env p trueDist pc

namespace Probed

variable (probed : Probed env p trueDist clusters)

include probed

/-- The candidates of a run are distinct. -/
theorem given_distinct : ((givenCandidates std env (p.probe env) ⟨{}, 0, 0⟩ clusters).map
    fun lane => lane.decodedAddr.offset).Nodup := by
  have partition := (run_partition std env p clusters ⟨{}, 0, 0⟩).map AddressEntry.offset
  have distinct := partition.nodup_iff.2 (by
    rw [List.map_map]
    exact probed.distinct)
  rw [List.map_append, List.nodup_append, List.map_map] at distinct
  exact distinct.1

variable (std) in
/-- **The best of the candidates are the best of all records.** -/
theorem topK_given {sel : List CollectorEntry}
    (top : TopK CollectorEntry.lt env.config.topK.toNat
      (((givenCandidates std env (p.probe env) ⟨{}, 0, 0⟩ clusters).map
        Candidate.decodedAddr).map (resultOf trueDist)) sel) :
    TopK CollectorEntry.lt env.config.topK.toNat
      (((allRecords clusters).map ProbeRecord.addr).map (resultOf trueDist)) sel := by
  have within : Within trueDist [] := fun c none => by cases none
  have covered := droppedInRun_covered clusters [] ⟨{}, 0, 0⟩ (frontierOk_start std env) within
    probed.given_distinct probed.estimates
  refine TopK.perm ?_ ((run_partition std env p clusters ⟨{}, 0, 0⟩).map (resultOf trueDist))
  rw [List.map_append]
  refine top.append_of_below ?_ fun d mem => ?_
  · rw [← List.map_append]
    exact resultOf_order _
  · obtain ⟨addr, dropped, rfl⟩ := List.mem_map.1 mem
    obtain ⟨r, here, rfl⟩ := List.mem_map.1 dropped
    refine (covered r here).trans (Nat.le_of_eq ?_)
    rw [List.nil_append, List.countP_map, List.countP_map]
    exact List.countP_congr fun c _ => by
      rw [Function.comp_apply, Function.comp_apply, resultOf_lt]

end Probed

/-! ## A search -/

/-- Where a record's vector lies in the data file. -/
def vectorBytes (env : Env) (addr : AddressEntry) : List BufferByte :=
  (List.range env.vecBytes.toNat).map fun i => .file (addr.offset.toNat + i)

/-- A full read of a record is scored from its vector. -/
theorem candidateOf_full {c : ReadCompletion} (full : c.full)
    (own : c.io.readOffset = c.io.addr.offset)
    (covered : env.vecBytes.toNat ≤ c.io.readLength.toNat) :
    (candidateOf env.vecBytes c).vec = vectorBytes env c.io.addr := by
  refine List.map_congr_left fun i mem => ?_
  have inside : i < c.res.toNat := by
    rw [full, Int.toNat_natCast]
    exact Nat.lt_of_lt_of_le (List.mem_range.1 mem) covered
  rw [ReadCompletion.buffer, ReadBuffer.filled, Nat.zero_add, if_pos inside, own]

/-- The entries that are offered to the collector, each read full. -/
theorem offered_eq {distance : List BufferByte → Flt} {e : SearchEnd}
    {reads fetched : List ReadCompletion} (log : SearchLog std env distance e reads fetched)
    (readsOk : ∀ c ∈ reads, ReadOk env c.io ∧ env.vecBytes ≤ c.io.addr.size)
    (full : ∀ c ∈ reads, c.full)
    (scored : ∀ c ∈ reads, distance (vectorBytes env c.io.addr) = .fin (trueDist c.io.addr)) :
    (ranked std e.probed.reranker).map (fun c => (⟨distance c.vec, c.addr⟩ : CollectorEntry)) =
        ((ranked std e.probed.reranker).map BufferedCandidate.addr).map (resultOf trueDist) ∧
      ((ranked std e.probed.reranker).map BufferedCandidate.addr).Perm
        (e.probed.prepared.map PendingIO.addr) := by
  have isVector : ∀ c ∈ reads, c.isVector = true := by
    intro c mem
    rcases (readsOk c mem).1.2 with ⟨type, -⟩ | ⟨type, -⟩ <;> simp [ReadCompletion.isVector, type]
  have buffered : e.probed.reranker.bufferedCandidates = reads.map (candidateOf env.vecBytes) := by
    rw [log.buffered, List.filter_eq_self.2 isVector]
  constructor
  · rw [List.map_map]
    refine List.map_congr_left fun candidate mem => ?_
    have here := (ranked_perm std _).subset mem
    rw [buffered] at here
    obtain ⟨c, inReads, rfl⟩ := List.mem_map.1 here
    obtain ⟨readOk, holds⟩ := readsOk c inReads
    have covered : env.vecBytes.toNat ≤ c.io.readLength.toNat := by
      rcases readOk.2 with ⟨-, -, length⟩ | ⟨-, length⟩
      · rw [length]
        exact UInt32.le_iff_toNat_le.1 holds
      · rw [length]
    rw [candidateOf_full (full c inReads) readOk.1 covered, scored c inReads]
    rfl
  · refine ((ranked_perm std _).map BufferedCandidate.addr).trans ?_
    rw [buffered, List.map_map]
    have same := log.reads.symm.map PendingIO.addr
    rwa [List.map_map] at same

theorem assembled_distances (vecBytes : UInt32) (hasPayload : Bool)
    (results : List CollectorEntry) (r : RerankConsumer) :
    (assembleResults vecBytes hasPayload r results).map SearchResult.distance =
      results.map CollectorEntry.distance := by
  induction results generalizing r with
  | nil => rfl
  | cons entry rest ih =>
      rw [assembleResults]
      split
      · exact congrArg (entry.distance :: ·) (ih _)
      · exact congrArg (entry.distance :: ·) (ih _)

/-- The rerank of a search keeps the best of all the records that were probed. -/
theorem Probed.topResults_topK (probed : Probed env p trueDist clusters)
    {distance : List BufferByte → Flt} {start : QueryIo} {e : SearchEnd}
    (noBudget : env.config.nonSafeoutCandidateBudget = 0) (clean : Clean start)
    (ran : SearchRun std env distance start e)
    (issued : e.probed.prepared =
      (probeResidentClusters std env (p.probe env) clusters {}).emitted)
    (full : EveryReadFull false e)
    (scored : ∀ r ∈ allRecords clusters,
      distance (vectorBytes env r.addr) = .fin (trueDist r.addr)) :
    TopK CollectorEntry.lt env.config.topK.toNat
      (((allRecords clusters).map ProbeRecord.addr).map (resultOf trueDist))
      (topResults std env distance e) := by
  refine probed.topK_given std ?_
  obtain ⟨reads, fetched, log⟩ := ran.log clean
  have partition := run_partition std env p clusters ⟨{}, 0, 0⟩
  have fewer : (givenCandidates std env (p.probe env) ⟨{}, 0, 0⟩ clusters).length < 2 ^ 32 := by
    have lengths := partition.length_eq
    simp only [List.length_append, List.length_map] at lengths
    have few := probed.few
    omega
  obtain ⟨emitted, once, -, -, -⟩ := probeResidentClusters_ledger std (p.probe env) noBudget
    clusters probed.given_distinct fewer
  rw [← issued] at emitted once
  have given : ∀ c ∈ reads, ∃ r ∈ allRecords clusters, r.addr = c.io.addr := by
    intro c mem
    have inReads := log.reads.symm.subset (List.mem_map_of_mem mem)
    have inGiven := once.subset (List.mem_map_of_mem (f := PendingIO.addr) inReads)
    exact List.mem_map.1 (partition.subset (List.mem_append_left _ inGiven))
  have readsOk : ∀ c ∈ reads, ReadOk env c.io ∧ env.vecBytes ≤ c.io.addr.size := by
    intro c mem
    obtain ⟨r, inside, same⟩ := given c mem
    exact ⟨emitted _ (log.reads.symm.subset (List.mem_map_of_mem mem)),
      same ▸ probed.hold r inside⟩
  have fullReads : ∀ c ∈ reads, c.full := by
    intro c mem
    refine full c ?_ (.inl ?_)
    · rw [log.finished]
      exact List.mem_append_left _ mem
    · rcases (readsOk c mem).1.2 with ⟨type, -⟩ | ⟨type, -⟩ <;>
        simp [ReadCompletion.isVector, type]
  obtain ⟨offered, addrs⟩ := offered_eq log readsOk fullReads fun c mem => by
    obtain ⟨r, inside, same⟩ := given c mem
    exact same ▸ scored r inside
  have wanted : 1 ≤ env.config.topK := UInt32.le_iff_toNat_le.2 (by
    have := UInt32.toNat_inj.not.2 probed.wanted
    simp only [UInt32.reduceToNat] at this ⊢
    omega)
  have inserted := ResultCollector.executeBuffered_insertAll std wanted distance
    e.probed.reranker []
  rw [offered] at inserted
  have top := ResultCollector.insertAll_topK std wanted (fun entry mem => by
    obtain ⟨addr, -, rfl⟩ := List.mem_map.1 mem
    exact Flt.noConfusion) inserted
  exact top.perm ((addrs.trans once).map (resultOf trueDist))

/-- **A search gives the exact best of its clusters**, whenever and in whatever order its reads
finish. -/
theorem search_exact {distance : List BufferByte → Flt} {start : QueryIo} {e : SearchEnd}
    (noBudget : env.config.nonSafeoutCandidateBudget = 0)
    (probed : Probed env p trueDist clusters) (clean : Clean start)
    (ran : SearchRun std env distance start e)
    (issued : e.probed.prepared =
      (probeResidentClusters std env (p.probe env) clusters {}).emitted)
    (full : EveryReadFull false e)
    (scored : ∀ r ∈ allRecords clusters,
      distance (vectorBytes env r.addr) = .fin (trueDist r.addr)) (hasPayload : Bool) :
    TopK CollectorEntry.lt env.config.topK.toNat
        (((allRecords clusters).map ProbeRecord.addr).map (resultOf trueDist))
        (topResults std env distance e) ∧
      (e.assembled std env.vecBytes env.config.topK distance hasPayload).map
          SearchResult.distance =
        (topResults std env distance e).map CollectorEntry.distance :=
  ⟨probed.topResults_topK noBudget clean ran issued full scored, assembled_distances _ _ _ _⟩

end Search

/-! ### Three records, one of them too far to be read -/

namespace NearAndFar

def clusters : List ProbedCluster :=
  [oneRecord 0 1 1 5 5, oneRecord 8 1 1 3 3, oneRecord 16 1 1 10 10]

def trueDist (a : AddressEntry) : ℚ := if a.offset = 0 then 5 else if a.offset = 8 then 3 else 10

/-- The records are scored by where their bytes come from. -/
def distance (bytes : List BufferByte) : Flt :=
  if bytes.head? = some (.file 0) then .fin 5
  else if bytes.head? = some (.file 8) then .fin 3
  else .fin 10

/-- The two reads finish in the other order. -/
def reads : List QueryIoEvent :=
  [.prepRead ⟨.vecOnly, ⟨0, 8⟩, 0, 8⟩, .prepRead ⟨.vecOnly, ⟨8, 8⟩, 8, 8⟩, .finishRead 1 8,
    .finishRead 0 8, .dispatch, .dispatch]

def probed : QueryIo := (run (queryIoStep 8) {} reads).getD {}

def ending : SearchEnd :=
  ⟨probed, { probed with reranker := { probed.reranker with bufferedCandidates := [] } }⟩

theorem searchRun : SearchRun StdAlgo.reference onlyBest distance {} ending where
  probe := ⟨reads, rfl⟩
  probe_drained := ⟨rfl, rfl⟩
  fetch := ⟨[], fun event none => (by cases none), rfl⟩
  fetch_drained := ⟨rfl, rfl⟩

theorem estimates : ∀ pc ∈ clusters, EstimatesOk onlyBest twoBit trueDist pc := by
  refine fun pc mem => ⟨?_, ?_, ?_, ?_⟩
  · revert pc
    decide +kernel
  · revert pc
    decide +kernel
  · revert pc
    decide +kernel
  · intro b block _ lowerBound bound
    simp only [clusters, List.mem_cons, List.not_mem_nil, or_false] at mem
    rcases mem with rfl | rfl | rfl <;> cases bound

end NearAndFar

theorem search_exact_nearAndFar :
    (topResults StdAlgo.reference onlyBest NearAndFar.distance NearAndFar.ending).map
        CollectorEntry.addr = [⟨8, 8⟩] ∧
      TopK CollectorEntry.lt 1
        (((allRecords NearAndFar.clusters).map ProbeRecord.addr).map
          (resultOf NearAndFar.trueDist))
        (topResults StdAlgo.reference onlyBest NearAndFar.distance NearAndFar.ending) := by
  refine ⟨by decide +kernel, ?_⟩
  exact (search_exact rfl
    ⟨by decide, by decide, by decide, by decide, NearAndFar.estimates⟩ FailedRead.clean
    NearAndFar.searchRun (by decide +kernel) (by unfold EveryReadFull; decide) (by decide) false).1

end VecFetch.Index
