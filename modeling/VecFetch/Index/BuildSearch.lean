/-
# Index.BuildSearch -- a search over a build gives its nearest vectors

From the vectors that are built to the results of a query: the build writes its files, a reader
opens the cluster file and loads clusters, a query probes the clusters that are loaded and reads
from `data.dat` what it keeps.  It returns the `top_k` nearest of the vectors in these clusters,
and of all vectors if it probes every cluster (`build_search_exact`).
-/
import VecFetch.Index.BuildRoundTrip
import VecFetch.Index.SearchExact

namespace VecFetch.Index

open VecFetch.Theory VecFetch.Simd VecFetch.Rabitq VecFetch.Storage VecFetch.Query

set_option autoImplicit false

/-! ## Records in the data file -/

/-- Parts that follow each other in a file stand at their addresses. -/
theorem addressesFrom_slices {front : List UInt8} {parts : List (List UInt8)}
    (small : front.length + (parts.map List.length).sum < 2 ^ 63) :
    List.Forall₂ (fun part (a : AddressEntry) =>
        slice (front ++ parts.flatten) a.offset.toNat part.length = part ∧
          a.size = UInt32.ofNat part.length)
      parts (DataFileWriter.addressesFrom front.length parts) := by
  induction parts generalizing front with
  | nil => exact .nil
  | cons part parts ih =>
      obtain ⟨exact_, later⟩ := offset_toNat part small
      refine .cons ⟨?_, rfl⟩ ?_
      · rw [exact_, List.flatten_cons]
        exact slice_append_right rfl rfl _
      · have rest := @ih (front ++ part) (by rwa [List.length_append])
        rw [List.length_append] at rest
        rwa [List.flatten_cons, ← List.append_assoc]

section Build

variable {K : Type} [Field K] [LinearOrder K] [FloorRing K] {arith : ExactArith K} {simd : Build}
  {config : IvfBuilderConfig} {world : BuildWorld K} {raw : ℕ → K} {n dim : UInt32}
  {payloadFn : Option (ℕ → List Datum)} {kept : StoreConfig} {b : IvfBuilder K}
  {w : ClusterStoreWriter}

/-- The address of a vector's record. -/
def IvfBuilder.addressOf (b : IvfBuilder K) (i : ℕ) : AddressEntry := b.addresses.getD i ⟨0, 0⟩

namespace Built

variable (built : Built arith simd config world raw n dim payloadFn b w)
  (fits : BuildFits arith simd config world raw n dim payloadFn kept b w)

include built

/-- The vector's floats stand in the data file at the address of its record. -/
theorem record_slice {i : ℕ} (inside : i < n.toNat) :
    slice b.dataFile (b.addressOf i).offset.toNat
        (recordBytes dim config.payloadSchemas config.pageSize
          (recordOf world raw dim payloadFn i)).length =
      recordBytes dim config.payloadSchemas config.pageSize
        (recordOf world raw dim payloadFn i) ∧
    (b.addressOf i).size = UInt32.ofNat (recordBytes dim config.payloadSchemas config.pageSize
        (recordOf world raw dim payloadFn i)).length := by
  obtain ⟨there, whole, small⟩ := DataFileWriter.writeFile_spec built.records
  have flat : b.dataFile = ([] : List UInt8) ++ (((List.range n.toNat).map
      (recordOf world raw dim payloadFn)).map
        (recordBytes dim config.payloadSchemas config.pageSize)).flatten := by
    rw [whole, List.nil_append, List.flatMap_def]
  have slices := @addressesFrom_slices [] (((List.range n.toNat).map
    (recordOf world raw dim payloadFn)).map
      (recordBytes dim config.payloadSchemas config.pageSize)) (by
    rwa [flat, List.nil_append, List.length_flatten, ← Nat.zero_add (List.sum _)] at small)
  rw [List.length_nil, ← there, ← flat] at slices
  exact forall₂_range (List.forall₂_map_left_iff.1 (List.forall₂_map_left_iff.1 slices)) inside _

include fits

/-- The sizes of a record, exact. -/
theorem record_sizes {i : ℕ} (inside : i < n.toNat) :
    (vecBytesOf dim).toNat = 4 * dim.toNat ∧ 0 < dim.toNat ∧
      (rawBytes dim config.payloadSchemas (recordOf world raw dim payloadFn i)).length =
        recordSize dim (recordOf world raw dim payloadFn i) ∧
      (b.addressOf i).size.toNat = (recordBytes dim config.payloadSchemas config.pageSize
        (recordOf world raw dim payloadFn i)).length := by
  have legal := fits.legal _ (List.mem_map_of_mem (List.mem_range.2 inside))
  have size := fits.sizes i inside
  have lower := le_paddedSize config.pageSize (recordSize dim (recordOf world raw dim payloadFn i))
  have dimFits : 4 * dim.toNat < 2 ^ 32 := by
    unfold recordSize at size lower
    omega
  have raws := rawBytes_length legal dimFits fun d inPayload =>
    lengthFits_of_size inPayload (Nat.lt_of_le_of_lt lower size)
  refine ⟨?_, Nat.pos_of_ne_zero fun none => built.positive (UInt32.toNat_inj.1 none), raws, ?_⟩
  · rw [vecBytesOf_toNat, Nat.mod_eq_of_lt dimFits]
  · rw [(built.record_slice inside).2, UInt32.toNat_ofNat', recordBytes_length, raws,
      Nat.mod_eq_of_lt size]

/-- A vector's floats stand in the data file at the address of its record. -/
theorem vector_slice {i : ℕ} (inside : i < n.toNat) :
    slice b.dataFile (b.addressOf i).offset.toNat (vecBytesOf dim).toNat =
      floatBytes world.pattern dim.toNat (rowOf dim.toNat raw i) := by
  have legal := fits.legal _ (List.mem_map_of_mem (List.mem_range.2 inside))
  have written := legal.written
  have here := written.vec_slice config.pageSize
  rw [← (built.record_slice inside).1, slice_slice (by
    rw [Nat.zero_add]
    refine Nat.le_trans ?_ (WrittenRecord.raw_le _ _ config.pageSize _)
    rw [written.raw_length]
    exact Nat.le_add_right _ _), Nat.add_zero] at here
  rw [here]
  refine List.take_of_length_le (Nat.le_of_eq ?_)
  rw [(built.record_sizes fits inside).1]
  exact floatBytes_length _ _ _

theorem address_holds {i : ℕ} (inside : i < n.toNat) : vecBytesOf dim ≤ (b.addressOf i).size := by
  obtain ⟨vec, -, raws, size⟩ := built.record_sizes fits inside
  have lower := WrittenRecord.raw_le dim config.payloadSchemas config.pageSize
    (recordOf world raw dim payloadFn i)
  rw [UInt32.le_iff_toNat_le, size, vec]
  rw [raws, recordSize] at lower
  omega

/-- Records have different offsets. -/
theorem offsets_distinct {i j : ℕ} (iIn : i < n.toNat) (jIn : j < n.toNat)
    (same : (b.addressOf i).offset = (b.addressOf j).offset) : i = j := by
  obtain ⟨there, whole, small⟩ := DataFileWriter.writeFile_spec built.records
  have rising := @addressesFrom_increasing ((((List.range n.toNat).map
      (recordOf world raw dim payloadFn)).map
        (recordBytes dim config.payloadSchemas config.pageSize))) 0 (by
    rwa [Nat.zero_add, ← List.length_flatten, ← List.flatMap_def, ← whole]) (fun part mem => by
      obtain ⟨record, inRecords, rfl⟩ := List.mem_map.1 mem
      obtain ⟨i, inRange, rfl⟩ := List.mem_map.1 inRecords
      obtain ⟨-, pos, raws, -⟩ := built.record_sizes fits (List.mem_range.1 inRange)
      have lower := WrittenRecord.raw_le dim config.payloadSchemas config.pageSize
        (recordOf world raw dim payloadFn i)
      rw [raws, recordSize] at lower
      omega)
  rw [← there] at rising
  have length := built.addresses_length
  rw [List.pairwise_iff_getElem] at rising
  rw [IvfBuilder.addressOf, IvfBuilder.addressOf, List.getD_eq_getElem _ _ (by omega),
    List.getD_eq_getElem _ _ (by omega)] at same
  rcases Nat.lt_trichotomy i j with below | same' | above
  · exact absurd (rising i j (by omega) (by omega) below) (by rw [same]; exact UInt64.lt_irrefl _)
  · exact same'
  · exact absurd (rising j i (by omega) (by omega) above) (by rw [same]; exact UInt64.lt_irrefl _)

end Built

/-! ## Loaded clusters -/

variable {View Parsed : Type}

/-- A cluster's probe goes over its records, at the addresses that the reader has of them. -/
def ProbesCluster (r : ClusterStoreReader View Parsed) (clusterId : UInt32) (pc : ProbedCluster) :
    Prop :=
  pc.records.map ProbeRecord.addr =
    (List.range (r.getNumRecords clusterId).toNat).map fun p =>
      r.getAddress clusterId (UInt32.ofNat p)

/-- What is probed of a loaded cluster is its members. -/
theorem Built.probed_members (built : Built arith simd config world raw n dim payloadFn b w)
    {r : ClusterStoreReader View Parsed} {k : ℕ} (below : k < config.nlist.toNat)
    (answers : Storage.Answers kept b.dim r (b.input arith simd config world k))
    {pc : ProbedCluster} (probes : ProbesCluster r (UInt32.ofNat k) pc) :
    pc.records.map ProbeRecord.addr = (b.members k).map b.addressOf := by
  have records : r.getNumRecords (UInt32.ofNat k) = UInt32.ofNat (b.members k).length :=
    answers.records
  rw [probes, records, built.numRecords_toNat below]
  refine List.ext_getElem (by simp) fun p short short' => ?_
  rw [List.length_map, List.length_range] at short
  have index := built.place_toNat below short
  rw [List.getElem_map, List.getElem_range, List.getElem_map]
  refine answers.addresses _ _ ?_
  show (b.addressesOf k)[(UInt32.ofNat p).toNat]? = _
  rw [index, IvfBuilder.addressesOf, List.getElem?_map, List.getElem?_eq_getElem short]
  rfl

/-- What is probed of loaded clusters is their members. -/
theorem Built.probed_addresses (built : Built arith simd config world raw n dim payloadFn b w)
    {r : ClusterStoreReader View Parsed} {ks : List ℕ} {clusters : List ProbedCluster}
    (probes : List.Forall₂ (fun k pc => ProbesCluster r (UInt32.ofNat k) pc) ks clusters)
    (inside : ∀ k ∈ ks, k < config.nlist.toNat)
    (answers : ∀ k ∈ ks, Storage.Answers kept b.dim r (b.input arith simd config world k)) :
    (allRecords clusters).map ProbeRecord.addr = (ks.flatMap b.members).map b.addressOf := by
  induction probes with
  | nil => rfl
  | cons first rest ih =>
      rw [allRecords, List.flatMap_cons, List.flatMap_cons, List.map_append, List.map_append,
        built.probed_members (inside _ List.mem_cons_self) (answers _ List.mem_cons_self) first]
      exact congrArg _ (ih (fun k mem => inside k (List.mem_cons_of_mem _ mem))
        fun k mem => answers k (List.mem_cons_of_mem _ mem))

/-! ## Queries -/

/-- A query: what it is asked with, what it probes and how its reads go. -/
structure BuildQuery where
  std : StdAlgo
  env : Env
  prober : ClusterProber
  clusters : List ProbedCluster
  /-- The distance that the rerank computes from the bytes of a buffer. -/
  distance : List BufferByte → Flt
  start : QueryIo
  ending : SearchEnd

/-- A vector as a result: the score of its floats, and the address of its record. -/
def IvfBuilder.vectorResult (b : IvfBuilder K) (world : BuildWorld K) (raw : ℕ → K) (dim : UInt32)
    (score : List UInt8 → Flt) (i : ℕ) : CollectorEntry :=
  ⟨score (floatBytes world.pattern dim.toNat (rowOf dim.toNat raw i)), b.addressOf i⟩

/-- A query without a budget over clusters `ks` of a build, for at least one result.  Its
estimates are within their margins, what it scores are bytes of `data.dat`, and its reads return
all they were asked for. -/
structure BuildQuery.Over (q : BuildQuery) (config : IvfBuilderConfig) (world : BuildWorld K)
    (raw : ℕ → K) (n dim : UInt32) (b : IvfBuilder K) (r : ClusterStoreReader View Parsed)
    (ks : List ℕ) (score : List UInt8 → Flt) (trueDist : AddressEntry → ℚ) : Prop where
  distinct : ks.Nodup
  inside : ∀ k ∈ ks, k < config.nlist.toNat
  probes : List.Forall₂ (fun k pc => ProbesCluster r (UInt32.ofNat k) pc) ks q.clusters
  wanted : q.env.config.topK ≠ 0
  noBudget : q.env.config.nonSafeoutCandidateBudget = 0
  vecBytes : q.env.vecBytes = vecBytesOf dim
  estimates : ∀ pc ∈ q.clusters, EstimatesOk q.env q.prober trueDist pc
  exactDist : ∀ i, i < n.toNat →
    score (floatBytes world.pattern dim.toNat (rowOf dim.toNat raw i)) =
      .fin (trueDist (b.addressOf i))
  scored : ∀ positions : List ℕ, q.distance (positions.map .file) =
    score (positions.map fun t => b.dataFile.getD t 0)
  clean : Clean q.start
  ran : SearchRun q.std q.env q.distance q.start q.ending
  issued : q.ending.probed.prepared =
    (probeResidentClusters q.std q.env (q.prober.probe q.env) q.clusters {}).emitted
  full : EveryReadFull false q.ending

/-- A part of a file, byte by byte. -/
theorem getD_of_slice {l part : List UInt8} {off : ℕ} (here : slice l off part.length = part) :
    (List.range part.length).map (fun t => l.getD (off + t) 0) = part := by
  refine List.ext_getElem (by simp) fun t short short' => ?_
  have byte := congrArg (·[t]?) here
  rw [List.getElem_map, List.getElem_range]
  rw [slice, List.getElem?_take_of_lt short', List.getElem?_drop,
    List.getElem?_eq_getElem short'] at byte
  rw [List.getD_eq_getElem?_getD, byte, Option.getD_some]

namespace Built

variable (built : Built arith simd config world raw n dim payloadFn b w)
  (fits : BuildFits arith simd config world raw n dim payloadFn kept b w)

include built fits

/-- A vector is scored from its own floats. -/
theorem scored_own {q : BuildQuery} {r : ClusterStoreReader View Parsed} {ks : List ℕ}
    {score : List UInt8 → Flt} {trueDist : AddressEntry → ℚ}
    (asked : q.Over config world raw n dim b r ks score trueDist) {i : ℕ} (inside : i < n.toNat) :
    q.distance (vectorBytes q.env (b.addressOf i)) = .fin (trueDist (b.addressOf i)) := by
  have here := built.vector_slice fits inside
  have length : (floatBytes world.pattern dim.toNat (rowOf dim.toNat raw i)).length =
      (vecBytesOf dim).toNat := by
    rw [floatBytes_length, (built.record_sizes fits inside).1]
  rw [← length] at here
  have positions : vectorBytes q.env (b.addressOf i) =
      ((List.range (vecBytesOf dim).toNat).map fun t =>
        (b.addressOf i).offset.toNat + t).map .file := by
    rw [vectorBytes, asked.vecBytes, List.map_map]
    rfl
  rw [positions, asked.scored, List.map_map, ← asked.exactDist i inside, ← length]
  exact congrArg score (getD_of_slice here)

/-- **A query over loaded clusters** gives the best of their vectors. -/
theorem search_over {q : BuildQuery} {r : ClusterStoreReader View Parsed} {ks : List ℕ}
    {score : List UInt8 → Flt} {trueDist : AddressEntry → ℚ}
    (asked : q.Over config world raw n dim b r ks score trueDist)
    (answers : ∀ k ∈ ks, Storage.Answers kept b.dim r (b.input arith simd config world k)) :
    TopK CollectorEntry.lt q.env.config.topK.toNat
      ((ks.flatMap b.members).map (b.vectorResult world raw dim score))
      (topResults q.std q.env q.distance q.ending) := by
  have addrs := built.probed_addresses asked.probes asked.inside answers
  have members : ∀ i ∈ ks.flatMap b.members, i < n.toNat := by
    intro i mem
    obtain ⟨k, inKs, inMembers⟩ := List.mem_flatMap.1 mem
    exact built.member_inside (asked.inside k inKs) inMembers
  have nodup : (ks.flatMap b.members).Nodup := by
    rw [built.flatMap_members asked.inside]
    exact itemsOf_nodup asked.distinct _
  have record : ∀ rec ∈ allRecords q.clusters, ∃ i, i < n.toNat ∧ b.addressOf i = rec.addr := by
    intro rec mem
    have here := List.mem_map_of_mem (f := ProbeRecord.addr) mem
    rw [addrs] at here
    obtain ⟨i, inMembers, same⟩ := List.mem_map.1 here
    exact ⟨i, members i inMembers, same⟩
  have probed : Probed q.env q.prober trueDist q.clusters := by
    refine ⟨asked.wanted, ?_, ?_, fun rec mem => ?_, asked.estimates⟩
    · have offsets := congrArg (List.map AddressEntry.offset) addrs
      rw [List.map_map, List.map_map] at offsets
      rw [show ((allRecords q.clusters).map fun r => r.addr.offset) = _ from offsets]
      exact nodup.map_on fun i iIn j jIn same =>
        built.offsets_distinct fits (members i iIn) (members j jIn) same
    · have length := congrArg List.length addrs
      rw [List.length_map, List.length_map] at length
      have few := (List.subperm_of_subset nodup fun i mem =>
        List.mem_range.2 (members i mem)).length_le
      rw [List.length_range] at few
      have bound := n.toNat_lt
      omega
    · obtain ⟨i, inside, same⟩ := record rec mem
      rw [← same, asked.vecBytes]
      exact built.address_holds fits inside
  have top := probed.topResults_topK asked.noBudget asked.clean asked.ran asked.issued asked.full
    fun rec mem => by
      obtain ⟨i, inside, same⟩ := record rec mem
      rw [← same]
      exact built.scored_own fits asked inside
  have entries : ((allRecords q.clusters).map ProbeRecord.addr).map (resultOf trueDist) =
      (ks.flatMap b.members).map (b.vectorResult world raw dim score) := by
    rw [addrs, List.map_map]
    refine List.map_congr_left fun i mem => ?_
    rw [IvfBuilder.vectorResult, asked.exactDist i (members i mem)]
    rfl
  rwa [entries] at top

end Built

/-- **A search over a build gives its nearest vectors.**  Whatever clusters have been loaded and
unloaded since the cluster file was opened, a query over loaded clusters returns the best of their
vectors, and of all vectors if it goes over every cluster. -/
theorem build_search_exact
    (ok : IvfBuilder.build arith simd config world raw n dim payloadFn = .ok (b, w))
    (accepted : config.rabitq.opened world.version = .ok kept)
    (fits : BuildFits arith simd config world raw n dim payloadFn kept b w)
    {r : ClusterStoreReader View Parsed} (closed : r.fd < 0)
    (unloaded : ∀ id, r.loadedClusters id = none) {fd : ℤ} (valid : 0 ≤ fd) (name : String) :
    ∃ opened, r.open name fd (Buffer.ofList w.file.bytes) = (none, opened) ∧
      ∀ calls : List ReaderCall, (∀ call ∈ calls, call.Loads opened.clusterIds) → ∃ r',
        run (ReaderCall.apply (Buffer.ofList w.file.bytes) simd) opened calls = some r' ∧
        ∀ (q : BuildQuery) (ks : List ℕ) (score : List UInt8 → Flt) (trueDist : AddressEntry → ℚ),
          (∀ k ∈ ks,
            calls.foldl (ReaderCall.leaves r.report.ready (UInt32.ofNat k)) false = true) →
          q.Over config world raw n dim b r' ks score trueDist →
            TopK CollectorEntry.lt q.env.config.topK.toNat
              ((ks.flatMap b.members).map (b.vectorResult world raw dim score))
              (topResults q.std q.env q.distance q.ending) ∧
            ((∀ k, k < config.nlist.toNat → k ∈ ks) →
              TopK CollectorEntry.lt q.env.config.topK.toNat
                ((List.range n.toNat).map (b.vectorResult world raw dim score))
                (topResults q.std q.env q.distance q.ending)) := by
  have built := build_ok ok
  have archive := built.archive accepted fits
  have ids := archive.opened_ids fd r
  refine ⟨_, archive.opens closed valid name, fun calls known => ?_⟩
  rw [ids] at known
  obtain ⟨r', ran, answers⟩ := archive.session unloaded valid known
  refine ⟨r', ran, fun q ks score trueDist loaded asked => ?_⟩
  have top := built.search_over fits asked fun k mem => by
    have input := List.mem_map_of_mem (f := b.input arith simd config world)
      (List.mem_range.2 (asked.inside k mem))
    exact (if_pos (loaded k mem)).mp (answers _ input)
  refine ⟨top, fun every => top.perm (.map _ ?_)⟩
  have all : ks.Perm (List.range config.nlist.toNat) :=
    (List.perm_ext_iff_of_nodup asked.distinct List.nodup_range).2 fun k =>
      ⟨fun mem => List.mem_range.2 (asked.inside k mem), fun mem => every k (List.mem_range.1 mem)⟩
  refine (all.flatMap_right b.members).trans ?_
  rw [built.flatMap_members fun k mem => List.mem_range.1 mem]
  exact itemsOf_perm built.assigned

end Build

/-! ### A query over two vectors -/

namespace TwoVectors

/-- The float of a pattern. -/
def floatOf (bytes : List UInt8) : ℚ :=
  (((List.range 8).find? fun i => fourBytes i = bytes).getD 0 : ℕ)

/-- The squared distance to `1 1 2 3`. -/
def score (bytes : List UInt8) : Flt :=
  .fin (((List.range 4).zip [1, 1, 2, 3]).map fun x : ℕ × ℚ =>
    (floatOf (slice bytes (4 * x.1) 4) - x.2) * (floatOf (slice bytes (4 * x.1) 4) - x.2)).sum

def fileByte (file : List UInt8) : BufferByte → UInt8
  | .stale => 0
  | .file t => file.getD t 0

def trueDist (a : AddressEntry) : ℚ := if a.offset = 0 then 1 else 57

/-- A cluster of one record. -/
def cluster (addr : AddressEntry) : ProbedCluster where
  blocks := [⟨[⟨addr, 1, trueDist addr, trueDist addr⟩], by simp⟩]
  safeinMarginFactor := 1
  safeoutMarginFactor := 1
  hasExRaBitQ := false
  usesOfficial1PlusN := false
  blockEnvelopeLowerBound _ := none

def environment : Env := ⟨{ topK := 1 }, .fin 0, 16, false⟩

/-- The second read finishes first. -/
def reads : List QueryIoEvent :=
  [.prepRead ⟨.vecOnly, ⟨16, 16⟩, 16, 16⟩, .prepRead ⟨.vecOnly, ⟨0, 16⟩, 0, 16⟩,
    .finishRead 1 16, .dispatch, .finishRead 0 16, .dispatch]

def probed : QueryIo := (run (queryIoStep 16) {} reads).getD {}

def query : BuildQuery where
  std := StdAlgo.reference
  env := environment
  prober := ⟨1⟩
  clusters := [cluster ⟨16, 16⟩, cluster ⟨0, 16⟩]
  distance bytes := score (bytes.map (fileByte twoVectorsData.2))
  start := {}
  ending := ⟨probed, { probed with reranker := { probed.reranker with bufferedCandidates := [] } }⟩

theorem issued : query.ending.probed.prepared =
    (probeResidentClusters query.std query.env (query.prober.probe query.env)
      query.clusters {}).emitted := by
  decide +kernel

theorem scores (i : ℕ) (inside : i < 2) :
    score (floatBytes twoVectorsWorld.pattern 4 (rowOf 4 (fun t => (t : ℝ)) i)) =
      .fin (trueDist (twoVectorsBuild.addressOf i)) := by
  have floats : floatBytes twoVectorsWorld.pattern 4 (rowOf 4 (fun t => (t : ℝ)) i) =
      (List.range 4).flatMap fun j => fourBytes (i * 4 + j) :=
    congrArg DataRecord.vec (twoVectors_record i)
  rw [floats]
  rcases Nat.lt_succ_iff_lt_or_eq.1 inside with below | rfl
  · obtain rfl := Nat.lt_one_iff.1 below
    show score _ = .fin (trueDist ⟨0, 16⟩)
    decide +kernel
  · show score _ = .fin (trueDist ⟨16, 16⟩)
    decide +kernel

theorem noPayloads : missingPayloads query.env.vecBytes query.ending.probed.reranker
    (topResults query.std query.env query.distance query.ending) = [] := by
  decide +kernel

theorem asked {r : ClusterStoreReader Unit Unit}
    (probes : List.Forall₂ (fun k pc => ProbesCluster r (UInt32.ofNat k) pc) [0, 1]
      query.clusters) :
    query.Over twoVectorsConfig twoVectorsWorld (fun t => (t : ℝ)) 2 4 twoVectorsBuild r [0, 1]
      score trueDist where
  distinct := by decide
  inside := by decide
  probes := probes
  wanted := by decide
  noBudget := rfl
  vecBytes := rfl
  estimates := by
    refine fun pc mem => ⟨?_, ?_, ?_, ?_⟩
    · revert pc
      decide +kernel
    · revert pc
      decide +kernel
    · revert pc
      decide +kernel
    · intro b block _ lowerBound bound
      simp only [query, List.mem_cons, List.not_mem_nil, or_false] at mem
      rcases mem with rfl | rfl <;> cases bound
  exactDist := scores
  scored positions := congrArg score (List.map_map ..)
  clean := FailedRead.clean
  ran :=
    { probe := ⟨reads, rfl⟩
      probe_drained := ⟨rfl, rfl⟩
      fetch := ⟨[], fun event none => (by cases none), by rw [noPayloads]; rfl⟩
      fetch_drained := ⟨rfl, rfl⟩ }
  issued := issued
  full := by
    unfold EveryReadFull
    decide

end TwoVectors

theorem build_search_exact_twoVectors : ∃ opened r' : ClusterStoreReader Unit Unit,
    ({} : ClusterStoreReader Unit Unit).open "cluster.clu" 3
        (Buffer.ofList twoVectorsFile.file.bytes) = (none, opened) ∧
      run (ReaderCall.apply (Buffer.ofList twoVectorsFile.file.bytes) .scalar) opened
        [.load 1, .load 0] = some r' ∧
      TopK CollectorEntry.lt 1
        ((List.range 2).map
          (twoVectorsBuild.vectorResult twoVectorsWorld (fun t => (t : ℝ)) 4 TwoVectors.score))
        (topResults StdAlgo.reference TwoVectors.environment TwoVectors.query.distance
          TwoVectors.query.ending) := by
  have closed : ({} : ClusterStoreReader Unit Unit).fd < 0 := by decide
  have built := build_ok twoVectors_built
  have archive := built.archive rfl twoVectors_fits
  obtain ⟨opened, opens, session⟩ := build_search_exact twoVectors_built rfl twoVectors_fits
    closed (fun _ => rfl) (show (0 : ℤ) ≤ 3 by decide) "cluster.clu"
  have there := archive.opens closed (show (0 : ℤ) ≤ 3 by decide) "cluster.clu"
  obtain rfl := congrArg Prod.snd (there.symm.trans opens)
  have known : ∀ call ∈ [ReaderCall.load 1, .load 0], call.Loads [0, 1] := by
    simp only [List.mem_cons, List.not_mem_nil, or_false]
    rintro call (rfl | rfl)
    · exact List.mem_cons_of_mem _ List.mem_cons_self
    · exact List.mem_cons_self
  obtain ⟨r', ran, finds⟩ := session [.load 1, .load 0] (by
    rw [archive.opened_ids]
    exact known)
  -- what the reader answers of the loaded clusters says what is probed of them
  obtain ⟨r'', ran', answers⟩ := archive.session
    (show ∀ id, ({} : ClusterStoreReader Unit Unit).loadedClusters id = none from fun _ => rfl)
    (show (0 : ℤ) ≤ 3 by decide) known
  obtain rfl := Option.some.inj (ran.symm.trans ran')
  have first := (if_pos rfl).mp (answers _ (List.mem_map_of_mem (List.mem_range.2
    (show 0 < 2 by decide))))
  have second := (if_pos rfl).mp (answers _ (List.mem_map_of_mem (List.mem_range.2
    (show 1 < 2 by decide))))
  have probes : List.Forall₂ (fun k pc => ProbesCluster r' (UInt32.ofNat k) pc) [0, 1]
      TwoVectors.query.clusters := by
    refine .cons ?_ (.cons ?_ .nil)
    · rw [ProbesCluster, show r'.getNumRecords (UInt32.ofNat 0) = 1 from first.records]
      exact congrArg (fun a => [a]) (first.addresses 0 _ rfl).symm
    · rw [ProbesCluster, show r'.getNumRecords (UInt32.ofNat 1) = 1 from second.records]
      exact congrArg (fun a => [a]) (second.addresses 0 _ rfl).symm
  exact ⟨_, r', opens, ran, (finds _ _ _ _ (by decide) (TwoVectors.asked probes)).2 (by decide)⟩

end VecFetch.Index
