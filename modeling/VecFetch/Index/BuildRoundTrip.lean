/-
# Index.BuildRoundTrip -- every vector of a build is found again

A build that ends with OK has put each vector into one cluster, whatever clustered them.  Its
cluster file is an archive of the clusters (`Built.archive`) and its addresses lead to the records
(`Built.reads`).  So whatever clusters are loaded and unloaded once the file is open, a vector whose
cluster is loaded has its record and its code there (`build_reads_back`).
-/
import VecFetch.Index.IvfBuild
import VecFetch.Rabitq.EncoderLaws
import VecFetch.Rabitq.RotationSound
import VecFetch.Storage.StoreRoundTrip

namespace VecFetch.Index

open VecFetch.Theory VecFetch.Simd VecFetch.Rabitq VecFetch.Storage VecFetch.Query

set_option autoImplicit false

/-! ## Words -/

section Words

variable {K : Type} [Field K] [LinearOrder K] [FloorRing K]

/-- An encoder has words for a plane. -/
theorem ofConfig_words {arith : ExactArith K} {rng : Rng K} {dim : ℕ} {rotation : RotationMatrix K}
    {config : RaBitQConfig} {enc : RaBitQEncoder K}
    (built : RaBitQEncoder.ofConfig arith rng dim rotation config = some enc) :
    (dim + 63) / 64 ≤ enc.totalWords := by
  obtain ⟨base, ofBits, built⟩ := Option.bind_eq_some_iff.1 built
  have bits : 0 < config.activeCodeBits.toNat := by
    rw [RaBitQConfig.activeCodeBits]
    split
    · next some => exact UInt8.lt_iff_toNat_lt.1 some
    · decide
  have words : base.totalWords = config.activeCodeBits.toNat * ((dim + 63) / 64) := by
    rw [RaBitQEncoder.ofBits] at ofBits
    dsimp only at ofBits
    split at ofBits
    · obtain ⟨t, -, rfl⟩ := Option.map_eq_some_iff.1 ofBits
      rfl
    · obtain rfl := Option.some.inj ofBits
      rfl
  have same : enc.totalWords = base.totalWords := by
    dsimp only at built
    split at built
    · obtain ⟨t, -, rfl⟩ := Option.map_eq_some_iff.1 built
      rfl
    · obtain rfl := Option.some.inj built
      rfl
  rw [same, words]
  exact Nat.le_mul_of_pos_left _ bits

end Words

/-! ## What a build has done -/

section Built

variable {K : Type} [Field K] [LinearOrder K] [FloorRing K] {arith : ExactArith K} {simd : Build}
  {config : IvfBuilderConfig} {world : BuildWorld K} {raw : ℕ → K} {n dim : UInt32}
  {payloadFn : Option (ℕ → List Datum)} {b : IvfBuilder K} {w : ClusterStoreWriter}

/-- The cluster of a vector, as the clustering has it. -/
def IvfBuilder.assigned (b : IvfBuilder K) (i : ℕ) : Option ℕ :=
  b.clustering.assignments[i]?.map UInt32.toNat

/-- What a build that ended with OK has done. -/
structure Built (arith : ExactArith K) (simd : Build) (config : IvfBuilderConfig)
    (world : BuildWorld K) (raw : ℕ → K) (n dim : UInt32) (payloadFn : Option (ℕ → List Datum))
    (b : IvfBuilder K) (w : ClusterStoreWriter) : Prop where
  nonempty : n ≠ 0
  positive : dim ≠ 0
  sameLogical : b.logicalDim = dim
  sameDim : b.dim = effectiveDim dim
  vectors : paddedVectors raw n dim = .ok b.vectors
  centroids : config.nlist.toNat * (effectiveDim dim).toNat ≤ b.clustering.centroids.size
  assigned : ∀ i, i < n.toNat → ∃ k, b.assigned i = some k ∧ k < config.nlist.toNat
  members : b.clusterMembers = (List.range config.nlist.toNat).map (itemsOf b.assigned n.toNat)
  encoder : RaBitQEncoder.ofConfig arith world.tConstRng (effectiveDim dim).toNat b.rotation
    config.rabitq.toRaBitQConfig = some b.encoder
  records : DataFileWriter.writeFile world.space dim config.payloadSchemas config.pageSize
    ((List.range n.toNat).map (recordOf world raw dim payloadFn)) = .ok (b.addresses, b.dataFile)
  clusters : b.writeClusterFile arith simd config world = (none, w)

theorem build_ok
    (ok : IvfBuilder.build arith simd config world raw n dim payloadFn = .ok (b, w)) :
    Built arith simd config world raw n dim payloadFn b w := by
  rw [IvfBuilder.build] at ok
  split at ok
  · cases ok
  · next shape =>
      split at ok
      · cases ok
      · split at ok
        · cases ok
        · obtain ⟨vectors, padded, ok⟩ := except_bind_ok.1 ok
          obtain ⟨clustering, clustered, ok⟩ := except_bind_ok.1 ok
          obtain ⟨prepared, first, last⟩ := except_bind_ok.1 ok
          rw [prepareIndex] at first
          split at first
          · cases first
          · next whole =>
              obtain ⟨clusterMembers, grouped, first⟩ := except_bind_ok.1 first
              obtain ⟨encoder, encodes, first⟩ := except_bind_ok.1 first
              obtain ⟨written, records, rfl⟩ := except_map_ok.1 first
              split at last
              · cases last
              · next clusters =>
                  cases last
                  rw [not_or] at shape
                  have grouped := Result.inBounds_ok.1 grouped
                  obtain ⟨each, members⟩ := pushAll_eq.1 grouped
                  exact ⟨shape.1, shape.2, rfl, rfl, padded, Nat.not_lt.1 whole, each, members,
                    Result.inBounds_ok.1 encodes, records, clusters⟩

/-! ## The cluster file -/

/-- A cluster as the file has it, with the addresses of its members' records. -/
def IvfBuilder.input (arith : ExactArith K) (simd : Build) (config : IvfBuilderConfig)
    (world : BuildWorld K) (b : IvfBuilder K) (k : ℕ) : ClusterInput simd :=
  { b.job arith simd world k (encodeRawTableV2 (b.addressesOf k) config.pageSize) with
    pageSize := config.pageSize
    addresses := b.addressesOf k
    holds := .table _ _ }

/-- The clusters of a file. -/
def IvfBuilder.inputs (arith : ExactArith K) (simd : Build) (config : IvfBuilderConfig)
    (world : BuildWorld K) (b : IvfBuilder K) : List (ClusterInput simd) :=
  (List.range config.nlist.toNat).map (b.input arith simd config world)

/-- The loop over the clusters writes their inputs. -/
theorem writeClusters_inputs {ks : List ℕ} {w w' : ClusterStoreWriter}
    (ok : b.writeClusters arith simd config world ks w = (none, w')) :
    w.writeClusters world.version simd
        (ks.map fun k => (b.input arith simd config world k).toClusterJob) = (none, w') ∧
      ∀ k ∈ ks, config.pageSize = 0 → b.addressesOf k = [] := by
  induction ks generalizing w with
  | nil => exact ⟨ok, fun k none => absurd none List.not_mem_nil⟩
  | cons k ks ih =>
      rw [IvfBuilder.writeClusters, encodeRawTable] at ok
      split at ok
      · cases ok
      · next column encoded =>
          split at encoded
          · cases encoded
          · next divides =>
              obtain rfl := Option.some.inj encoded
              obtain ⟨next, first, rest⟩ := Outcome.andThen_ok ok
              obtain ⟨wrote, others⟩ := ih rest
              refine ⟨?_, ?_⟩
              · rw [List.map_cons, ClusterStoreWriter.writeClusters]
                exact (Outcome.andThen_run first).trans wrote
              · intro k' mem noPages
                rcases List.mem_cons.1 mem with rfl | behind
                · by_contra some
                  exact divides ⟨noPages, some⟩
                · exact others k' behind noPages

namespace Built

variable (built : Built arith simd config world raw n dim payloadFn b w)

include built

theorem wrote : ClusterStoreWriter.writeFile world.version simd config.nlist b.dim config.rabitq
    world.room ((b.inputs arith simd config world).map ClusterInput.toClusterJob) dataFilePath =
      (none, w) := by
  obtain ⟨v, opens, rest⟩ := Outcome.andThen_ok built.clusters
  obtain ⟨u, clusters, ends⟩ := Outcome.andThen_ok rest
  obtain ⟨wrote, -⟩ := writeClusters_inputs clusters
  rw [ClusterStoreWriter.writeFile, Outcome.andThen_run opens, IvfBuilder.inputs, List.map_map]
  exact (Outcome.andThen_run wrote).trans ends

/-- The members of a cluster are the vectors assigned to it. -/
theorem members_eq {k : ℕ} (below : k < config.nlist.toNat) :
    b.members k = itemsOf b.assigned n.toNat k := by
  rw [IvfBuilder.members, built.members, List.getD_eq_getElem?_getD, List.getElem?_map,
    List.getElem?_range below]
  rfl

theorem flatMap_members {ks : List ℕ} (inside : ∀ k ∈ ks, k < config.nlist.toNat) :
    ks.flatMap b.members = ks.flatMap (itemsOf b.assigned n.toNat) :=
  List.flatMap_congr fun k mem => built.members_eq (inside k mem)

/-- A record has pages to be counted in. -/
theorem pageSize_pos : 0 < config.pageSize.toNat := by
  obtain ⟨v, opens, rest⟩ := Outcome.andThen_ok built.clusters
  obtain ⟨u, clusters, ends⟩ := Outcome.andThen_ok rest
  obtain ⟨-, divides⟩ := writeClusters_inputs clusters
  by_contra none
  have zero : config.pageSize = 0 := UInt32.toNat_inj.1 (Nat.eq_zero_of_not_pos none)
  have some : 0 < n.toNat := Nat.pos_of_ne_zero fun none => built.nonempty (UInt32.toNat_inj.1 none)
  obtain ⟨k, there, below⟩ := built.assigned 0 some
  have empty := divides k (List.mem_range.2 below) zero
  rw [IvfBuilder.addressesOf, List.map_eq_nil_iff, built.members_eq below] at empty
  have here := mem_itemsOf.2 ⟨some, there⟩
  rw [empty] at here
  cases here

end Built

/-! ## Archives -/

/-- The records, the addresses and the codes of a build fit the fields of its files. -/
structure BuildFits (arith : ExactArith K) (simd : Build) (config : IvfBuilderConfig)
    (world : BuildWorld K) (raw : ℕ → K) (n dim : UInt32) (payloadFn : Option (ℕ → List Datum))
    (kept : StoreConfig) (b : IvfBuilder K) (w : ClusterStoreWriter) : Prop where
  payload : ∀ i, i < n.toNat →
    MatchesSchemas (recordOf world raw dim payloadFn i).payload config.payloadSchemas
  sizes : ∀ i, i < n.toNat →
    paddedSize config.pageSize (recordSize dim (recordOf world raw dim payloadFn i)) < 2 ^ 32
  pages : b.dataFile.length ≤ 2 ^ 32 * config.pageSize.toNat
  tables : ∀ k, k < config.nlist.toNat → (b.members k).length * 8 < 2 ^ 32
  regions : ∀ k, k < config.nlist.toNat →
    fastScanBytes b.dim (b.members k).length +
      extraBytes world.version kept b.dim (b.input arith simd config world k).codes < 2 ^ 32
  small : w.file.bytes.length < 2 ^ 63

omit [Field K] [LinearOrder K] [FloorRing K] in
theorem floatBytes_length (pattern : K → UInt32) (d : ℕ) (row : ℕ → K) :
    (floatBytes pattern d row).length = 4 * d := by
  rw [floatBytes, List.length_flatMap]
  simp [Nat.mul_comm]

theorem BuildFits.legal {kept : StoreConfig}
    (fits : BuildFits arith simd config world raw n dim payloadFn kept b w) :
    ∀ record ∈ (List.range n.toNat).map (recordOf world raw dim payloadFn),
      LegalRecord dim config.payloadSchemas record := by
  intro record mem
  obtain ⟨i, inside, rfl⟩ := List.mem_map.1 mem
  exact ⟨floatBytes_length _ _ _, fits.payload i (List.mem_range.1 inside)⟩

/-- What relates numbers to a list's elements, at one of them. -/
theorem forall₂_range {α : Type} {R : ℕ → α → Prop} {m : ℕ} {l : List α}
    (related : List.Forall₂ R (List.range m) l) {i : ℕ} (inside : i < m) (default : α) :
    R i (l.getD i default) := by
  obtain ⟨length, each⟩ := List.forall₂_iff_get.1 related
  rw [List.length_range] at length
  have here := each i (by rwa [List.length_range]) (by omega)
  rw [List.get_eq_getElem, List.getElem_range, List.get_eq_getElem] at here
  rwa [List.getD_eq_getElem]

theorem addressesFrom_length (offset : ℕ) (parts : List (List UInt8)) :
    (DataFileWriter.addressesFrom offset parts).length = parts.length := by
  induction parts generalizing offset with
  | nil => rfl
  | cons part parts ih => rw [DataFileWriter.addressesFrom, List.length_cons, List.length_cons, ih]

namespace Built

variable (built : Built arith simd config world raw n dim payloadFn b w)

include built

/-- Every record comes back from its address. -/
theorem reads {kept : StoreConfig}
    (fits : BuildFits arith simd config world raw n dim payloadFn kept b w) (grant : ℕ → ℕ → ℕ) :
    List.Forall₂ (ReadsBack (DataFileReader.open b.dataFile dim config.payloadSchemas) grant)
      ((List.range n.toNat).map (recordOf world raw dim payloadFn)) b.addresses := by
  obtain ⟨there, whole, small⟩ := DataFileWriter.writeFile_spec built.records
  have reads := @reads_iff dim config.payloadSchemas config.pageSize _ grant (fits.legal)
    b.dataFile [] (by rw [whole, List.nil_append]) small
  rw [List.length_nil, ← there] at reads
  refine reads.2 fun record mem => ?_
  obtain ⟨i, inside, rfl⟩ := List.mem_map.1 mem
  exact fits.sizes i (List.mem_range.1 inside)

/-- Every address fits a raw table. -/
theorem addresses_fit {kept : StoreConfig}
    (fits : BuildFits arith simd config world raw n dim payloadFn kept b w) :
    ∀ entry ∈ b.addresses, FitsTable config.pageSize entry := by
  obtain ⟨there, whole, small⟩ := DataFileWriter.writeFile_spec built.records
  have pos := built.pageSize_pos
  have stored : ∀ record ∈ (List.range n.toNat).map (recordOf world raw dim payloadFn),
      storedBytes dim config.payloadSchemas config.pageSize record =
        paddedSize config.pageSize (recordSize dim record) ∧
      storedBytes dim config.payloadSchemas config.pageSize record < 2 ^ 32 ∧
      0 < recordSize dim record := by
    intro record mem
    have legal := fits.legal record mem
    obtain ⟨i, inside, rfl⟩ := List.mem_map.1 mem
    have size := fits.sizes i (List.mem_range.1 inside)
    have lower := le_paddedSize config.pageSize
      (recordSize dim (recordOf world raw dim payloadFn i))
    have dimPos : 0 < dim.toNat :=
      Nat.pos_of_ne_zero fun none => built.positive (UInt32.toNat_inj.1 none)
    have dimFits : 4 * dim.toNat < 2 ^ 32 := by
      unfold recordSize at size lower
      omega
    have same : storedBytes dim config.payloadSchemas config.pageSize
        (recordOf world raw dim payloadFn i) = paddedSize config.pageSize
          (recordSize dim (recordOf world raw dim payloadFn i)) := by
      rw [storedBytes, rawBytes_length legal dimFits fun d inPayload =>
        lengthFits_of_size inPayload (Nat.lt_of_le_of_lt lower size)]
    refine ⟨same, by omega, ?_⟩
    unfold recordSize
    omega
  have total : (((List.range n.toNat).map (recordOf world raw dim payloadFn)).map
      (storedBytes dim config.payloadSchemas config.pageSize)).sum = b.dataFile.length := by
    rw [whole, List.length_flatMap]
    congr 1
    exact List.map_congr_left fun record _ =>
      (recordBytes_length dim config.payloadSchemas config.pageSize record).symm
  rw [there]
  refine (addresses_fit_iff pos ?_).2 fun before record after split => ?_
  · rw [whole, List.length_flatMap] at small
    rwa [List.map_map]
  · have here := stored record (by rw [split]; simp)
    have room := fits.pages
    rw [split, List.map_append, List.sum_append, List.map_cons, List.sum_cons] at total
    have lower := le_paddedSize config.pageSize (recordSize dim record)
    refine ⟨(Nat.div_lt_iff_lt_mul pos).2 (by omega), ?_⟩
    rw [Nat.mod_eq_of_lt here.2.1, here.1]
    have whole := paddedSize_dvd config.pageSize (recordSize dim record)
    rwa [Nat.max_eq_right (by omega)] at whole

theorem addresses_length : b.addresses.length = n.toNat := by
  obtain ⟨there, -, -⟩ := DataFileWriter.writeFile_spec built.records
  rw [there, addressesFrom_length, List.length_map, List.length_map, List.length_range]

/-- Every vector has an address. -/
theorem address_getElem? (i : ℕ) (inside : i < n.toNat) :
    b.addresses[i]? = some (b.addresses.getD i ⟨0, 0⟩) := by
  have length := built.addresses_length
  rw [List.getD_eq_getElem _ _ (by omega), List.getElem?_eq_getElem]

theorem member_inside {k i : ℕ} (below : k < config.nlist.toNat) (mem : i ∈ b.members k) :
    i < n.toNat := by
  rw [built.members_eq below] at mem
  exact (mem_itemsOf.1 mem).1

theorem numRecords_toNat {k : ℕ} (below : k < config.nlist.toNat) :
    (UInt32.ofNat (b.members k).length).toNat = (b.members k).length := by
  rw [UInt32.toNat_ofNat']
  refine Nat.mod_eq_of_lt (Nat.lt_of_le_of_lt ?_ n.toNat_lt)
  rw [built.members_eq below]
  exact itemsOf_length_le _ _

theorem place_toNat {k p : ℕ} (below : k < config.nlist.toNat) (short : p < (b.members k).length) :
    (UInt32.ofNat p).toNat = p := by
  have few := UInt32.toNat_lt (UInt32.ofNat (b.members k).length)
  rw [built.numRecords_toNat below] at few
  exact UInt32.toNat_ofNat_of_lt' (Nat.lt_trans short few)

/-- **The cluster file of a build** is an archive of its clusters. -/
theorem archive {kept : StoreConfig} (accepted : config.rabitq.opened world.version = .ok kept)
    (fits : BuildFits arith simd config world raw n dim payloadFn kept b w) :
    Archive world.version config.nlist b.dim config.rabitq kept
      (b.inputs arith simd config world) dataFilePath w where
  accepted := accepted
  wrote := ⟨world.room, built.wrote⟩
  all := by rw [IvfBuilder.inputs, List.length_map, List.length_range]
  distinct := by
    rw [IvfBuilder.inputs, List.map_map]
    refine List.Nodup.map_on (fun k mem k' mem' same => ?_) List.nodup_range
    have below := List.mem_range.1 mem
    have below' := List.mem_range.1 mem'
    have lt := config.nlist.toNat_lt
    have ids : UInt32.ofNat k = UInt32.ofNat k' := same
    have index := congrArg UInt32.toNat ids
    rwa [UInt32.toNat_ofNat', UInt32.toNat_ofNat', Nat.mod_eq_of_lt (by omega),
      Nat.mod_eq_of_lt (by omega)] at index
  storable := by
    intro input mem
    obtain ⟨k, inRange, rfl⟩ := List.mem_map.1 mem
    have below := List.mem_range.1 inRange
    have length : (b.input arith simd config world k).codes.length = (b.members k).length :=
      List.length_map _
    have fit : ∀ entry ∈ b.addressesOf k, FitsTable config.pageSize entry := by
      intro entry mem
      obtain ⟨i, member, rfl⟩ := List.mem_map.1 mem
      have there := built.address_getElem? i (built.member_inside below member)
      exact built.addresses_fit fits _ (List.mem_of_getElem? there)
    refine ⟨⟨?_, ?_, fun entry mem => (fit entry mem).pages⟩, ?_, built.pageSize_pos, fit, ?_⟩
    · rw [length]
      exact fits.regions k below
    · show (b.addressesOf k).length * 8 < 2 ^ 32
      rw [IvfBuilder.addressesOf, List.length_map]
      exact fits.tables k below
    · rw [length]
      exact (built.numRecords_toNat below).symm
    · intro code mem
      obtain ⟨i, -, rfl⟩ := List.mem_map.1 mem
      show _ ≤ (b.encode arith simd k i).code.length
      rw [built.sameDim]
      exact Nat.le_trans (ofConfig_words built.encoder)
        (Nat.le_of_eq (encodeRotated_words _ _ _).symm)
  small := fits.small

/-- The padded rows fill whole groups of four. -/
theorem effectiveDim_whole (one : dim ≠ 1) (two : dim ≠ 2) :
    0 < (effectiveDim dim).toNat ∧ 4 ∣ (effectiveDim dim).toNat := by
  have pos : 0 < dim.toNat := Nat.pos_of_ne_zero fun none =>
    built.positive (UInt32.toNat_inj.1 none)
  have ne_one : dim.toNat ≠ 1 := fun same => one (UInt32.toNat_inj.1 same)
  have ne_two : dim.toNat ≠ 2 := fun same => two (UInt32.toNat_inj.1 same)
  by_cases power : isPowerOf2 dim = true
  · obtain ⟨k, -, same⟩ := isPowerOf2_spec power
    rw [effectiveDim, if_pos power]
    refine ⟨pos, ?_⟩
    match k with
    | 0 => exact absurd same ne_one
    | 1 => exact absurd same ne_two
    | k + 2 => exact ⟨2 ^ k, by rw [same, Nat.pow_add, Nat.mul_comm]⟩
  · have some : 0 < n.toNat := Nat.pos_of_ne_zero fun none =>
      built.nonempty (UInt32.toNat_inj.1 none)
    have padded : effectiveDim dim = roundUpToMultiple dim 64 := if_neg power
    have whole : 4 ∣ (effectiveDim dim).toNat := by
      rw [padded, roundUpToMultiple, if_neg (by decide)]
      dsimp only
      have rem : (dim % 64).toNat = dim.toNat % 64 := UInt32.toNat_mod _ _
      split
      · next even =>
          have zero := congrArg UInt32.toNat even
          rw [rem, UInt32.toNat_zero] at zero
          omega
      · have rest : (64 - dim % 64).toNat = 64 - dim.toNat % 64 := by
          rw [UInt32.toNat_sub_of_le _ _ (UInt32.le_iff_toNat_le.2 (by
            rw [rem]
            exact (Nat.mod_lt _ (by decide)).le)), rem]
          rfl
        rw [UInt32.toNat_add, rest]
        omega
    refine ⟨Nat.pos_of_ne_zero fun none => ?_, whole⟩
    have vectors := built.vectors
    rw [paddedVectors, if_neg fun same => by rw [same] at none; omega, padRowsToDim, none,
      if_pos ⟨pos, some⟩] at vectors
    cases vectors

end Built

/-- What is found of vector `i`, record `p` of cluster `k`; of its code, where rows are padded to
whole groups of four. -/
structure Found {View Parsed : Type} (arith : ExactArith K) (simd : Build)
    (config : IvfBuilderConfig) (world : BuildWorld K) (raw : ℕ → K) (dim : UInt32)
    (payloadFn : Option (ℕ → List Datum)) (kept : StoreConfig) (b : IvfBuilder K)
    (grant : ℕ → ℕ → ℕ) (r : ClusterStoreReader View Parsed) (i k p : ℕ) : Prop where
  records : r.getNumRecords (UInt32.ofNat k) = UInt32.ofNat (b.members k).length
  centroid : r.getCentroid (UInt32.ofNat k) =
    some ((List.range b.dim.toNat).map fun j => world.pattern (b.centroid k j))
  record : ReadsBack (DataFileReader.open b.dataFile dim config.payloadSchemas) grant
    (recordOf world raw dim payloadFn i) (r.getAddress (UInt32.ofNat k) (UInt32.ofNat p))
  code : dim ≠ 1 → dim ≠ 2 → ∀ build officialXipnorm,
    r.loadCodes build officialXipnorm (UInt32.ofNat k) [UInt32.ofNat p] [] =
      .ok [keptCode b.dim.toNat kept officialXipnorm { code := [], norm := 0, sumX := 0 }
        ((b.encode arith simd k i).stored world.pattern)]

theorem Built.found {View Parsed : Type} {kept : StoreConfig}
    (built : Built arith simd config world raw n dim payloadFn b w)
    (fits : BuildFits arith simd config world raw n dim payloadFn kept b w)
    {r : ClusterStoreReader View Parsed} {i k p : ℕ} (below : k < config.nlist.toNat)
    (place : (b.members k)[p]? = some i) (grant : ℕ → ℕ → ℕ)
    (answers : Storage.Answers kept b.dim r (b.input arith simd config world k)) :
    Found arith simd config world raw dim payloadFn kept b grant r i k p := by
  have inside := built.member_inside below (List.mem_of_getElem? place)
  obtain ⟨short, -⟩ := List.getElem?_eq_some_iff.1 place
  have index := built.place_toNat below short
  have address : (b.addressesOf k)[(UInt32.ofNat p).toNat]? = some (b.addresses.getD i ⟨0, 0⟩) := by
    rw [index, IvfBuilder.addressesOf, List.getElem?_map, place, Option.map_some]
  have code : (b.input arith simd config world k).codes[p]? =
      some ((b.encode arith simd k i).stored world.pattern) :=
    (List.getElem?_map ..).trans (by rw [place, Option.map_some])
  refine ⟨answers.records, ?_, ?_, fun one two build officialXipnorm => ?_⟩
  · refine answers.centroid.trans (congrArg some (List.take_of_length_le (Nat.le_of_eq ?_)))
    exact (List.length_map _).trans List.length_range
  · have gives : r.getAddress (UInt32.ofNat k) (UInt32.ofNat p) = b.addresses.getD i ⟨0, 0⟩ :=
      answers.addresses _ _ address
    rw [gives]
    exact forall₂_range (List.forall₂_map_left_iff.1 (built.reads fits grant)) inside _
  · obtain ⟨dims, whole⟩ := built.effectiveDim_whole one two
    rw [← built.sameDim] at dims whole
    have loads := answers.codes dims whole build officialXipnorm [UInt32.ofNat p] [] (by
      intro q mem
      rw [List.mem_singleton.1 mem, index]
      exact (List.getElem?_eq_some_iff.1 code).1)
    refine loads.trans (congrArg Except.ok ?_)
    have here : (b.input arith simd config world k).codes.getD p
        { code := [], norm := 0, sumX := 0 } = (b.encode arith simd k i).stored world.pattern := by
      rw [List.getD_eq_getElem?_getD, code, Option.getD_some]
    simp only [List.zipIdx_singleton, List.map_singleton, index, here]
    rfl

/-- **Every vector of a build is found again.**  The file of clusters is opened, and whatever
clusters are loaded and unloaded, a vector whose cluster is loaded has its record and its code. -/
theorem build_reads_back {View Parsed : Type} {kept : StoreConfig}
    (ok : IvfBuilder.build arith simd config world raw n dim payloadFn = .ok (b, w))
    (accepted : config.rabitq.opened world.version = .ok kept)
    (fits : BuildFits arith simd config world raw n dim payloadFn kept b w)
    {r : ClusterStoreReader View Parsed} (closed : r.fd < 0)
    (unloaded : ∀ id, r.loadedClusters id = none) {fd : ℤ} (valid : 0 ≤ fd) (name : String)
    (grant : ℕ → ℕ → ℕ) : ∃ opened,
      r.open name fd (Buffer.ofList w.file.bytes) = (none, opened) ∧
      opened.clusterIds = (List.range config.nlist.toNat).map UInt32.ofNat ∧
      ((List.range config.nlist.toNat).flatMap b.members).Perm (List.range n.toNat) ∧
      ∀ calls : List ReaderCall, (∀ call ∈ calls, call.Loads opened.clusterIds) → ∃ r',
        run (ReaderCall.apply (Buffer.ofList w.file.bytes) simd) opened calls = some r' ∧
        ∀ i, i < n.toNat → ∃ k p, b.assigned i = some k ∧ k < config.nlist.toNat ∧
          (b.members k)[p]? = some i ∧
          (calls.foldl (ReaderCall.leaves r.report.ready (UInt32.ofNat k)) false = true →
            Found arith simd config world raw dim payloadFn kept b grant r' i k p) := by
  have built := build_ok ok
  have archive := built.archive accepted fits
  have ids := archive.opened_ids fd r
  refine ⟨_, archive.opens closed valid name, ?_, ?_, fun calls known => ?_⟩
  · rw [ids, IvfBuilder.inputs, List.map_map]
    rfl
  · rw [built.flatMap_members fun k mem => List.mem_range.1 mem]
    exact itemsOf_perm built.assigned
  · rw [ids] at known
    obtain ⟨r', ran, answers⟩ := archive.session unloaded valid known
    refine ⟨r', ran, fun i inside => ?_⟩
    obtain ⟨k, there, below⟩ := built.assigned i inside
    obtain ⟨p, place⟩ := exists_place inside there
    rw [← built.members_eq below] at place
    refine ⟨k, p, there, below, place, fun left => built.found fits below place grant ?_⟩
    have input := List.mem_map_of_mem (f := b.input arith simd config world)
      (List.mem_range.2 below)
    exact (if_pos left).mp (answers _ input)

end Built

/-! ## Two vectors -/

section Coincide

variable {K : Type} [Field K] [LinearOrder K] [IsStrictOrderedRing K] [FloorRing K]
  {avx512 : Bool} {arith : ExactArith K}

omit [IsStrictOrderedRing K] [FloorRing K] in
/-- A rotated zero is zero. -/
theorem apply_zero {r : RotationMatrix K} (rotation : IsRotation avx512 arith r) {x : ℕ → K}
    (zero : ∀ i, i < r.dim.toNat → x i = 0) {i : ℕ} (inside : i < r.dim.toNat) :
    r.apply avx512 arith x i = 0 := by
  rw [← rotation.dense x i inside, apply_dense avx512 arith rfl]
  refine (denseApply_eq { r with useFastHadamard := false } x inside).trans ?_
  exact Finset.sum_eq_zero fun k mem => by rw [zero k (Finset.mem_range.1 mem), mul_zero]

/-- A vector at its centroid has norm zero, and every sign bit of its code is set. -/
theorem encode_self {enc : RaBitQEncoder K} (rotation : IsRotation avx512 arith enc.rotation)
    (dims : enc.rotation.dim.toNat = enc.dim) (oneBit : enc.bits = 1) (none : enc.exBits = 0)
    {vec centroid : ℕ → K} (same : ∀ i, i < enc.dim → vec i = centroid i) {code : List UInt64}
    (signs : signPlane (fun _ => (0 : K)) enc.dim (List.replicate enc.totalWords 0) = code) :
    enc.encode arith avx512 vec (some centroid) =
      { code := code
        norm := 0
        sumX := popcountTotal (fun w => code.getD w 0) enc.wordsPerPlane
        bits := 1, exCode := [], exSignPacked := [], xipnorm := 0
        exCodeSignFolded := false, exFactorAdd := 0, exFactorRescale := 0 } := by
  have norm : arith.sqrt (sumTo enc.dim fun i =>
      (vec i - centroid i) * (vec i - centroid i)) = 0 := by
    rw [sumTo_eq, Finset.sum_eq_zero fun k mem => by
      rw [same k (Finset.mem_range.1 mem), sub_self, mul_zero]]
    exact mul_self_eq_zero.1 (arith.sqrt_mul_self 0 le_rfl)
  have small : ¬ (lit 1e-30 : K) < 0 := not_lt.2 (lit_pos (by norm_num)).le
  have zero : ∀ i, i < enc.dim →
      enc.rotation.apply avx512 arith (fun i => vec i - centroid i) i = 0 := fun i inside =>
    apply_zero rotation (fun k below => by rw [same k (dims ▸ below), sub_self]) (dims ▸ inside)
  have plane : ∀ code, signPlane
      (enc.rotation.apply avx512 arith fun i => vec i - centroid i) enc.dim code =
        signPlane (fun _ => (0 : K)) enc.dim code := by
    intro code
    rw [signPlane, signPlane]
    refine List.foldl_ext _ _ _ fun code i mem => ?_
    rw [zero i (List.mem_range.1 mem)]
  have encoded : enc.encodePlanes (0 : K)
      (enc.rotation.apply avx512 arith fun i => vec i - centroid i) =
        { code := code, norm := 0, sumX := 0, bits := 1, exCode := [], exSignPacked := []
          xipnorm := 0, exCodeSignFolded := false, exFactorAdd := 0, exFactorRescale := 0 } := by
    rw [RaBitQEncoder.encodePlanes, if_pos oneBit, plane, signs, none, oneBit]
    exact if_neg fun official => absurd official.2 (by decide)
  rw [RaBitQEncoder.encode, norm, if_neg small, RaBitQEncoder.encodeRotated, encoded]

end Coincide

/-- The bits of the floats `0 … 7`. -/
def smallPattern (i : ℕ) : UInt32 :=
  [0, 0x3F800000, 0x40000000, 0x40400000, 0x40800000, 0x40A00000, 0x40C00000, 0x40E00000].getD i 0

/-- Two vectors of four floats, each the centroid of its cluster, in reverse order. -/
noncomputable def twoVectorsWorld : BuildWorld ℝ where
  loadVectors := .ok
    { data := ⟨8, fun t => ((t + 4) % 8 : ℕ)⟩, rows := 2, cols := 4, whole := rfl }
  loadIvecs := .ok { data := [1, 0], rows := 2, cols := 1, whole := rfl }
  superKMeans _ vectors := (⟨0, vectors⟩, [])
  faiss _ _ := .error ""
  rotationRng := zeroRng
  tConstRng := zeroRng
  pattern x := smallPattern ⌊x⌋₊
  version := none
  space := 4096
  room := none

def twoVectorsConfig : IvfBuilderConfig where
  nlist := 2
  precomputed := true

def fourBytes (i : ℕ) : List UInt8 := leBytes 4 (smallPattern i).toNat

/-- `data.dat` and the addresses in it. -/
def twoVectorsData : List AddressEntry × List UInt8 :=
  ([⟨0, 16⟩, ⟨16, 16⟩], (List.range 8).flatMap fourBytes)

/-- What is written of a cluster: its one vector has every sign bit set. -/
def ownCluster (id : UInt32) (centroid : List UInt32) (address : AddressEntry) : ClusterJob where
  clusterId := id
  numRecords := 1
  epsilon := 0
  centroid := centroid
  codes := [{ code := [15], norm := 0, sumX := 4, bits := 1 }]
  column := encodeRawTableV2 [address] 1

def twoVectorsJobs : List ClusterJob :=
  [ownCluster 0 ([4, 5, 6, 7].map smallPattern) ⟨16, 16⟩,
    ownCluster 1 ([0, 1, 2, 3].map smallPattern) ⟨0, 16⟩]

/-- The file of both clusters. -/
def twoVectorsFile : ClusterStoreWriter :=
  (ClusterStoreWriter.writeFile none .scalar 2 4 {} none twoVectorsJobs dataFilePath).2

theorem twoVectorsFile_ok :
    ClusterStoreWriter.writeFile none .scalar 2 4 {} none twoVectorsJobs dataFilePath =
      (none, twoVectorsFile) := by
  have ok : (ClusterStoreWriter.writeFile none .scalar 2 4 {} none twoVectorsJobs
      dataFilePath).1 = none := by decide +kernel
  rw [twoVectorsFile, ← ok]

noncomputable def twoVectorsBuild : IvfBuilder ℝ where
  n := 2
  logicalDim := 4
  dim := 4
  vectors t := (t : ℝ)
  clustering :=
    { centroids := ⟨8, fun t => ((t + 4) % 8 : ℕ)⟩, assignments := [1, 0], effectiveMetric := "l2" }
  rotation := (chooseRotation realArith .scalar twoVectorsWorld 4).2.2
  usedHadamard := true
  rotationMode := "hadamard"
  clusterMembers := [[1], [0]]
  encoder :=
    { dim := 4, rotation := (chooseRotation realArith .scalar twoVectorsWorld 4).2.2, bits := 1
      totalBits := 1, exBits := 0, official1PlusN := false, wordsPerPlane := 1, totalWords := 1
      maxCode := 0, tConst := 0 }
  addresses := twoVectorsData.1
  dataFile := twoVectorsData.2

theorem twoVectors_pattern (i : ℕ) : twoVectorsWorld.pattern (i : ℝ) = smallPattern i :=
  congrArg smallPattern (Nat.floor_natCast i)

theorem twoVectors_record (i : ℕ) : recordOf twoVectorsWorld (fun t => (t : ℝ)) 4 none i =
    ⟨(List.range 4).flatMap fun j => fourBytes (i * 4 + j), []⟩ := by
  refine congrArg (fun vec => (⟨vec, []⟩ : DataRecord)) (List.flatMap_congr fun j _ => ?_)
  exact congrArg (fun p => leBytes 4 p.toNat) (twoVectors_pattern _)

theorem twoVectors_records : DataFileWriter.writeFile 4096 4 [] 1
    ((List.range 2).map (recordOf twoVectorsWorld (fun t => (t : ℝ)) 4 none)) =
      .ok twoVectorsData := by
  rw [List.map_congr_left fun i _ => twoVectors_record i]
  rfl

theorem twoVectors_rotation :
    IsRotation false realArith (chooseRotation realArith .scalar twoVectorsWorld 4).2.2 := by
  have power : isPowerOf2 (4 : UInt32) = true := by decide
  refine @isRotation_hadamard ℝ _ _ _ false realArith { dim := 4, data := fun _ => 0 } _ zeroRng
    true ?_
  rw [chooseRotation, if_pos power]
  dsimp only
  rw [RotationMatrix.generateHadamard, if_pos power]
  rfl

theorem twoVectors_rotation_dim :
    (chooseRotation realArith .scalar twoVectorsWorld 4).2.2.dim = 4 := by
  have power : isPowerOf2 (4 : UInt32) = true := by decide
  rw [chooseRotation, if_pos power]
  dsimp only
  rw [RotationMatrix.generateHadamard, if_pos power]
  rfl

theorem twoVectors_encode {k i : ℕ} (own : ∀ j : ℕ, j < 4 → i * 4 + j = (k * 4 + j + 4) % 8) :
    twoVectorsBuild.encode realArith .scalar k i =
      { code := [15], norm := 0, sumX := 4, bits := 1, exCode := [], exSignPacked := []
        xipnorm := 0, exCodeSignFolded := false, exFactorAdd := 0, exFactorRescale := 0 } := by
  have plane : signPlane (fun _ => (0 : ℝ)) 4 (List.replicate 1 0) = [15] := by
    rw [signPlane, List.foldl_ext _ (fun code i => orBit code (i / 64) (i % 64)) _ fun code i _ =>
      if_pos le_rfl]
    decide
  have bits : popcountTotal (fun w => [(15 : UInt64)].getD w 0) 1 = 4 := by decide
  rw [← bits]
  exact encode_self twoVectors_rotation (congrArg UInt32.toNat twoVectors_rotation_dim) rfl rfl
    (fun j inside => congrArg (Nat.cast (R := ℝ)) (own j inside)) plane

theorem twoVectors_job {k i : ℕ} (member : twoVectorsBuild.members k = [i])
    (own : ∀ j : ℕ, j < 4 → i * 4 + j = (k * 4 + j + 4) % 8) :
    twoVectorsBuild.job realArith .scalar twoVectorsWorld k
        (encodeRawTableV2 [twoVectorsData.1.getD i ⟨0, 0⟩] 1) =
      ownCluster (UInt32.ofNat k) ((List.range 4).map fun j => smallPattern (i * 4 + j))
        (twoVectorsData.1.getD i ⟨0, 0⟩) := by
  have zero : twoVectorsWorld.pattern 0 = 0 :=
    (congrArg twoVectorsWorld.pattern Nat.cast_zero.symm).trans (twoVectors_pattern 0)
  have epsilon : twoVectorsBuild.rMax realArith .scalar k = 0 := by
    rw [IvfBuilder.rMax, member, List.foldl_cons, List.foldl_nil, twoVectors_encode own]
    exact if_neg (lt_irrefl 0)
  have centroid : ((List.range 4).map fun j =>
      twoVectorsWorld.pattern (twoVectorsBuild.centroid k j)) =
        (List.range 4).map fun j => smallPattern (i * 4 + j) := by
    refine List.map_congr_left fun j mem => ?_
    rw [own j (List.mem_range.1 mem)]
    exact twoVectors_pattern _
  have code : ({ code := [15], norm := 0, sumX := 4, bits := 1, exCode := [], exSignPacked := []
                 xipnorm := 0, exCodeSignFolded := false, exFactorAdd := 0, exFactorRescale := 0 } :
        EncodedVector ℝ).stored twoVectorsWorld.pattern =
      { code := [15], norm := 0, sumX := 4, bits := 1 } := by
    rw [EncodedVector.stored]
    dsimp only
    rw [zero]
  rw [IvfBuilder.job, member, epsilon, zero, List.map_singleton, twoVectors_encode own, code]
  exact congrArg (ownCluster _ · _) centroid

theorem twoVectors_clusters : twoVectorsBuild.writeClusterFile realArith .scalar twoVectorsConfig
    twoVectorsWorld = (none, twoVectorsFile) := by
  have first := @twoVectors_job 0 1 rfl (by decide)
  have second := @twoVectors_job 1 0 rfl (by decide)
  rw [← twoVectorsFile_ok, ClusterStoreWriter.writeFile, twoVectorsJobs,
    IvfBuilder.writeClusterFile]
  refine congrArg (Outcome.andThen _) (funext fun w => congrArg (Outcome.andThen · _) ?_)
  show (w.writeCluster none .scalar (twoVectorsBuild.job realArith .scalar twoVectorsWorld 0
    (encodeRawTableV2 [twoVectorsData.1.getD 1 ⟨0, 0⟩] 1))).andThen (fun w =>
      (w.writeCluster none .scalar (twoVectorsBuild.job realArith .scalar twoVectorsWorld 1
        (encodeRawTableV2 [twoVectorsData.1.getD 0 ⟨0, 0⟩] 1))).andThen fun w => (none, w)) = _
  rw [first, second]
  rfl

theorem twoVectors_prepared : prepareIndex realArith .scalar twoVectorsConfig twoVectorsWorld
    (fun t => (t : ℝ)) (fun t => (t : ℝ)) 2 4 4 none twoVectorsBuild.clustering =
      .ok twoVectorsBuild := by
  rw [prepareIndex, if_neg (by show ¬ 8 < 2 * 4; decide)]
  have mode : chooseRotation realArith .scalar twoVectorsWorld 4 =
      (true, "hadamard", twoVectorsBuild.rotation) := by
    have power : isPowerOf2 (4 : UInt32) = true := by decide
    have chosen : (chooseRotation realArith .scalar twoVectorsWorld 4).1 = true ∧
        (chooseRotation realArith .scalar twoVectorsWorld 4).2.1 = "hadamard" := by
      rw [chooseRotation, if_pos power]
      dsimp only
      rw [RotationMatrix.generateHadamard, if_pos power]
      exact ⟨rfl, rfl⟩
    exact Prod.ext chosen.1 (Prod.ext chosen.2 rfl)
  have encoder : RaBitQEncoder.ofConfig realArith zeroRng 4 twoVectorsBuild.rotation
      twoVectorsConfig.rabitq.toRaBitQConfig = some twoVectorsBuild.encoder := rfl
  have grouped : pushAll (fun i => twoVectorsBuild.clustering.assignments[i]?.map UInt32.toNat) 2
      2 = some [[1], [0]] := rfl
  rw [mode]
  exact except_bind_ok.2 ⟨_, congrArg Result.inBounds grouped, except_bind_ok.2
    ⟨_, congrArg Result.inBounds encoder, except_map_ok.2 ⟨_, twoVectors_records, rfl⟩⟩⟩

theorem twoVectors_built : IvfBuilder.build realArith .scalar twoVectorsConfig twoVectorsWorld
    (fun t => (t : ℝ)) 2 4 none = .ok (twoVectorsBuild, twoVectorsFile) := by
  have power : effectiveDim 4 = 4 := by decide
  have padded : paddedVectors (fun t => (t : ℝ)) 2 4 = .ok fun t => (t : ℝ) := by
    rw [paddedVectors, power, if_pos rfl]
  rw [IvfBuilder.build, if_neg (by decide), if_neg (by decide), if_neg (by decide), padded, power]
  refine except_bind_ok.2 ⟨_, rfl, except_bind_ok.2 ⟨twoVectorsBuild.clustering, rfl,
    except_bind_ok.2 ⟨_, twoVectors_prepared, ?_⟩⟩⟩
  rw [twoVectors_clusters]

theorem twoVectors_fits : BuildFits realArith .scalar twoVectorsConfig twoVectorsWorld
    (fun t => (t : ℝ)) 2 4 none {} twoVectorsBuild twoVectorsFile where
  payload i inside := .nil
  sizes i inside := by
    show (16 : ℕ) < 2 ^ 32
    decide
  pages := by decide
  tables k below := by
    rcases Nat.lt_succ_iff_lt_or_eq.1 below with below | rfl
    · obtain rfl := Nat.lt_one_iff.1 below
      decide
    · decide
  regions k below := by
    rcases Nat.lt_succ_iff_lt_or_eq.1 below with below | rfl
    · obtain rfl := Nat.lt_one_iff.1 below
      decide
    · decide
  small := by
    rw [writeFile_length twoVectorsFile_ok]
    decide +kernel

theorem build_reads_back_twoVectors : ∃ opened r' : ClusterStoreReader Unit Unit,
    ({} : ClusterStoreReader Unit Unit).open "cluster.clu" 3
        (Buffer.ofList twoVectorsFile.file.bytes) = (none, opened) ∧
      opened.clusterIds = [0, 1] ∧
      run (ReaderCall.apply (Buffer.ofList twoVectorsFile.file.bytes) .scalar) opened
        [.load 1, .load 0, .unload 1] = some r' ∧
      Found realArith .scalar twoVectorsConfig twoVectorsWorld (fun t => (t : ℝ)) 4 none {}
        twoVectorsBuild (fun _ count => count) r' 1 0 0 := by
  obtain ⟨opened, opens, ids, -, session⟩ := build_reads_back twoVectors_built rfl twoVectors_fits
    (show ({} : ClusterStoreReader Unit Unit).fd < 0 by decide)
    (fun _ => rfl) (show (0 : ℤ) ≤ 3 by decide) "cluster.clu" fun _ count => count
  have known : ∀ call ∈ [ReaderCall.load 1, .load 0, .unload 1],
      call.Loads opened.clusterIds := by
    intro call mem
    rw [ids]
    simp only [List.mem_cons, List.not_mem_nil, or_false] at mem
    rcases mem with rfl | rfl | rfl
    · exact List.mem_cons_of_mem _ List.mem_cons_self
    · exact List.mem_cons_self
    · trivial
  obtain ⟨r', ran, finds⟩ := session _ known
  obtain ⟨k, p, there, -, place, found⟩ := finds 1 (by decide)
  obtain rfl : 0 = k := Option.some.inj there
  obtain ⟨short, -⟩ := List.getElem?_eq_some_iff.1 place
  obtain rfl := Nat.lt_one_iff.1 short
  exact ⟨opened, r', opens, ids, ran, found rfl⟩

end VecFetch.Index
