/-
# Storage.StoreRoundTrip -- a cluster file comes back as it was written

A file that a writer finished is opened by a closed reader, and all three parsers accept each of
its blocks and agree on it (`parsers_agree_on_written`).  Clusters are loaded from it and unloaded
in any order, and what the reader then answers of a loaded cluster is what was written of it
(`store_reads_back`): its centroid, its addresses, and the codes of any of its records, as far
as the file keeps them.
-/
import VecFetch.Storage.StoreCodes
import VecFetch.Theory.Trace

namespace VecFetch.Storage

open VecFetch.Theory VecFetch.Simd VecFetch.Rabitq VecFetch.Query ClusterStoreWriter

set_option autoImplicit false

/-! ## Archives -/

/-- What a cluster has to be to come back as it was. -/
structure Storable {build : Build} (env : Option ℤ) (kept : StoreConfig) (dim : UInt32)
    (input : ClusterInput build) : Prop where
  fits : Fits env kept dim input
  records : input.codes.length = input.numRecords.toNat
  pageSize : 0 < input.pageSize.toNat
  addresses : ∀ address ∈ input.addresses, FitsTable input.pageSize address
  planes : ∀ code ∈ input.codes, (dim.toNat + 63) / 64 ≤ code.code.length

/-- A finished file of clusters that come back. -/
structure Archive {build : Build} (env : Option ℤ) (numClusters dim : UInt32)
    (config kept : StoreConfig) (inputs : List (ClusterInput build)) (path : List UInt8)
    (w : ClusterStoreWriter) : Prop where
  accepted : config.opened env = .ok kept
  wrote : ∃ room, writeFile env build numClusters dim config room
    (inputs.map ClusterInput.toClusterJob) path = (none, w)
  all : inputs.length = numClusters.toNat
  distinct : (inputs.map fun input => input.clusterId).Nodup
  storable : ∀ input ∈ inputs, Storable env kept dim input
  small : w.file.bytes.length < 2 ^ 63

section Archive

variable {build : Build} {env : Option ℤ} {numClusters dim : UInt32} {config kept : StoreConfig}
variable {inputs : List (ClusterInput build)} {path : List UInt8} {w : ClusterStoreWriter}
variable {View Parsed : Type}

/-- What a closed reader is once it has opened the file. -/
def openedReader (env : Option ℤ) (numClusters dim : UInt32) (kept : StoreConfig)
    (path : List UInt8) (w : ClusterStoreWriter) (fd : ℤ) (r : ClusterStoreReader View Parsed) :
    ClusterStoreReader View Parsed :=
  { r with
    fd := fd
    fileVersion := effectiveWriterFileVersion env kept
    info :=
      { numClusters := numClusters, dim := dim, rabitqConfig := kept
        dataFilePath := path.take (UInt32.ofNat path.length).toNat
        lookupTable := w.lookupTable }
    clusterIndex := indexEntries w.lookupTable }

namespace Archive

theorem finished (archive : Archive env numClusters dim config kept inputs path w) :
    Finished env build numClusters dim config kept (inputs.map ClusterInput.toClusterJob) path w ∧
      w.lookupTable.length = inputs.length := by
  obtain ⟨room, wrote⟩ := archive.wrote
  obtain ⟨kept', finished⟩ := writeFile_ok wrote
  obtain rfl : kept = kept' := Except.ok.inj (archive.accepted.symm.trans finished.accepted)
  exact ⟨finished, (writeFile_placed wrote).1.trans archive.all.symm⟩

theorem opens (archive : Archive env numClusters dim config kept inputs path w)
    {r : ClusterStoreReader View Parsed} (closed : r.fd < 0) {fd : ℤ} (valid : 0 ≤ fd)
    (name : String) : r.open name fd (Buffer.ofList w.file.bytes) =
      (none, openedReader env numClusters dim kept path w fd r) := by
  obtain ⟨room, wrote⟩ := archive.wrote
  obtain ⟨kept', finished, opens⟩ := open_finished wrote (by rw [List.length_map, archive.all])
    archive.small closed valid name
  obtain rfl : kept = kept' := Except.ok.inj (archive.accepted.symm.trans finished.accepted)
  exact opens

theorem clusterIds (archive : Archive env numClusters dim config kept inputs path w) :
    w.lookupTable.map LookupEntry.clusterId = inputs.map fun input => input.clusterId := by
  obtain ⟨finished, length⟩ := archive.finished
  have lengths : (w.lookupTable.map LookupEntry.clusterId).length =
      (inputs.map fun input => input.clusterId).length := by
    rw [List.length_map, List.length_map, length]
  refine List.ext_getElem lengths fun i below inside => ?_
  rw [List.length_map] at below inside
  have job : (inputs.map ClusterInput.toClusterJob)[i]? = some inputs[i].toClusterJob := by
    rw [List.getElem?_map, List.getElem?_eq_getElem inside, Option.map_some]
  obtain ⟨start, entry, block, row, of, -⟩ := finished.clusters i _ job
  rw [List.getElem_map, List.getElem_map, (List.getElem?_eq_some_iff.1 row).2, of.entry]

theorem opened_ids (archive : Archive env numClusters dim config kept inputs path w) (fd : ℤ)
    (r : ClusterStoreReader View Parsed) :
    (openedReader env numClusters dim kept path w fd r).clusterIds =
      inputs.map fun input => input.clusterId :=
  archive.clusterIds

/-- **Each cluster has its entry and its block** in the file. -/
theorem written (archive : Archive env numClusters dim config kept inputs path w)
    {input : ClusterInput build} (mem : input ∈ inputs) (fd : ℤ)
    (r : ClusterStoreReader View Parsed) : ∃ entry block,
      (openedReader env numClusters dim kept path w fd r).entryOf input.clusterId = some entry ∧
        Written env kept dim w.file.bytes input entry block := by
  obtain ⟨finished, -⟩ := archive.finished
  have storable := archive.storable input mem
  obtain ⟨i, found⟩ := List.mem_iff_getElem?.1 mem
  have job : (inputs.map ClusterInput.toClusterJob)[i]? = some input.toClusterJob := by
    rw [List.getElem?_map, found, Option.map_some]
  obtain ⟨start, entry, block, row, of, holds⟩ := finished.clusters i _ job
  obtain rfl : entry.blockOffset = start := by rw [of.entry]
  have id : entry.clusterId = input.clusterId := by rw [of.entry]
  have index := indexEntries_entry (by rw [archive.clusterIds]; exact archive.distinct) row
  refine ⟨entry, block, ?_, ⟨config, archive.accepted⟩, of, ⟨_, holds⟩, storable.fits,
    storable.records, archive.small⟩
  show (indexEntries w.lookupTable input.clusterId).map (fun i => w.lookupTable.getD i {}) = _
  rw [← id, index, Option.map_some, List.getD_eq_getElem?_getD, row, Option.getD_some]

end Archive

/-- **All three parsers accept each block of a written file** and agree on it. -/
theorem parsers_agree_on_written (archive : Archive env numClusters dim config kept inputs path w)
    {r : ClusterStoreReader View Parsed} (closed : r.fd < 0)
    (unloaded : ∀ id, r.loadedClusters id = none) {fd : ℤ} (valid : 0 ≤ fd) (name : String) :
    ∃ opened, r.open name fd (Buffer.ofList w.file.bytes) = (none, opened) ∧
      opened.clusterIds = inputs.map (fun input => input.clusterId) ∧
      ∀ input ∈ inputs, ∃ p : PendingBlock View Parsed,
        p.reader = opened ∧ p.file = Buffer.ofList w.file.bytes ∧ p.clusterId = input.clusterId ∧
        ∃ loaded parsed codeRegion,
          opened.ensureClusterLoaded p.file build input.clusterId = .ok loaded ∧
          opened.parse build input.clusterId (some p.block.byte)
            (UInt64.ofNat p.entry.blockSize) = .ok parsed ∧
          prePass p.file p.entry opened.geometry = .ok codeRegion ∧
          SameCluster p loaded parsed ∧ codeRegion.1.toNat = parsed.codeRegionBytes := by
  refine ⟨_, archive.opens closed valid name, archive.clusterIds, fun input mem => ?_⟩
  obtain ⟨entry, block, found, written⟩ := archive.written mem fd r
  exact ⟨written.pending _ valid found (unloaded _), rfl, rfl, rfl,
    written.accepted_alike valid found (unloaded _) rfl⟩

/-! ## Sessions -/

/-- A call that changes what a reader has loaded. -/
inductive ReaderCall where
  | load (clusterId : UInt32)
  | unload (clusterId : UInt32)

namespace ReaderCall

/-- The call on a reader; a load that fails ends the session. -/
def apply (file : Buffer) (build : Build) (r : ClusterStoreReader View Parsed) :
    ReaderCall → Option (ClusterStoreReader View Parsed)
  | load id => (r.ensureClusterLoaded file build id).toOption
  | unload id => some (r.unloadCluster id)

/-- Every cluster that is loaded is one of these. -/
def Loads (ids : List UInt32) : ReaderCall → Prop
  | load id => id ∈ ids
  | unload _ => True

/-- Whether a cluster is loaded after a call; a preloaded reader unloads nothing. -/
def leaves (preloaded : Bool) (id : UInt32) (loaded : Bool) : ReaderCall → Bool
  | load other => loaded || decide (id = other)
  | unload other => loaded && (preloaded || decide (id ≠ other))

end ReaderCall

/-- A reader with these clusters loaded. -/
def withLoaded (opened : ClusterStoreReader View Parsed) (loaded : UInt32 → Option ClusterData) :
    ClusterStoreReader View Parsed :=
  { opened with loadedClusters := loaded }

/-- What is loaded is what was written. -/
def Serves (env : Option ℤ) (kept : StoreConfig) (dim : UInt32) (bytes : List UInt8)
    (inputs : List (ClusterInput build)) (opened : ClusterStoreReader View Parsed)
    (loaded : UInt32 → Option ClusterData) : Prop :=
  ∀ input ∈ inputs, ∀ data, loaded input.clusterId = some data → ∃ entry block,
    opened.entryOf input.clusterId = some entry ∧
      Written env kept dim bytes input entry block ∧ Written.LoadedAs input block data

/-- **Loading a cluster** loads what was written, and leaves the others. -/
theorem Serves.load (archive : Archive env numClusters dim config kept inputs path w)
    {r : ClusterStoreReader View Parsed} {fd : ℤ} (valid : 0 ≤ fd)
    {loaded : UInt32 → Option ClusterData}
    (serves : Serves env kept dim w.file.bytes inputs
      (openedReader env numClusters dim kept path w fd r) loaded)
    {input : ClusterInput build} (mem : input ∈ inputs) : ∃ loaded',
      (withLoaded (openedReader env numClusters dim kept path w fd r) loaded).ensureClusterLoaded
          (Buffer.ofList w.file.bytes) build input.clusterId =
        .ok (withLoaded (openedReader env numClusters dim kept path w fd r) loaded') ∧
      Serves env kept dim w.file.bytes inputs
        (openedReader env numClusters dim kept path w fd r) loaded' ∧
      ∀ id, (loaded' id).isSome = ((loaded id).isSome || decide (id = input.clusterId)) := by
  have isOpen : ¬ (withLoaded (openedReader env numClusters dim kept path w fd r) loaded).fd < 0 :=
    Int.not_lt.2 valid
  cases before : loaded input.clusterId with
  | some data =>
      refine ⟨loaded, ?_, serves, fun id => ?_⟩
      · rw [ClusterStoreReader.ensureClusterLoaded, if_neg isOpen]
        exact if_pos (by show (loaded input.clusterId).isSome = true; rw [before]; rfl)
      · by_cases same : id = input.clusterId
        · rw [same, before]
          rfl
        · rw [decide_eq_false same, Bool.or_false]
  | none =>
      obtain ⟨entry, block, found, written⟩ := archive.written mem fd r
      obtain ⟨data, loads, as⟩ := @Written.loads _ _ _ _ _ _ _ _ View Parsed
        (withLoaded (openedReader env numClusters dim kept path w fd r) loaded) written valid found
        before rfl
      refine ⟨Function.update loaded input.clusterId (some data), loads, ?_, fun id => ?_⟩
      · intro other otherMem data' there
        by_cases same : other.clusterId = input.clusterId
        · obtain rfl := List.inj_on_of_nodup_map archive.distinct otherMem mem same
          rw [Function.update_self] at there
          obtain rfl := Option.some.inj there
          exact ⟨entry, block, found, written, as⟩
        · rw [Function.update_of_ne same] at there
          exact serves other otherMem data' there
      · by_cases same : id = input.clusterId
        · rw [same, Function.update_self, decide_eq_true rfl, Bool.or_true]
          rfl
        · rw [Function.update_of_ne same, decide_eq_false same, Bool.or_false]

/-- Unloading a cluster leaves the others. -/
theorem Serves.unload {opened : ClusterStoreReader View Parsed} {bytes : List UInt8}
    {loaded : UInt32 → Option ClusterData}
    (serves : Serves env kept dim bytes inputs opened loaded) (id : UInt32) : ∃ loaded',
      (withLoaded opened loaded).unloadCluster id = withLoaded opened loaded' ∧
      Serves env kept dim bytes inputs opened loaded' ∧
      ∀ other, (loaded' other).isSome =
        ((loaded other).isSome && (opened.report.ready || decide (other ≠ id))) := by
  by_cases ready : opened.report.ready = true
  · refine ⟨loaded, if_pos ready, serves, fun other => ?_⟩
    rw [ready, Bool.true_or, Bool.and_true]
  · refine ⟨Function.update loaded id none, if_neg ready, ?_, fun other => ?_⟩
    · intro input mem data there
      by_cases same : input.clusterId = id
      · rw [same, Function.update_self] at there
        cases there
      · rw [Function.update_of_ne same] at there
        exact serves input mem data there
    · rw [Bool.eq_false_iff.2 ready, Bool.false_or]
      by_cases same : other = id
      · rw [same, Function.update_self, decide_eq_false (not_not.2 rfl), Bool.and_false]
        rfl
      · rw [Function.update_of_ne same, decide_eq_true same, Bool.and_true]

/-- One call of a session. -/
theorem Serves.call (archive : Archive env numClusters dim config kept inputs path w)
    {r : ClusterStoreReader View Parsed} {fd : ℤ} (valid : 0 ≤ fd)
    {loaded : UInt32 → Option ClusterData}
    (serves : Serves env kept dim w.file.bytes inputs
      (openedReader env numClusters dim kept path w fd r) loaded)
    {call : ReaderCall} (known : call.Loads (inputs.map fun input => input.clusterId)) :
    ∃ loaded',
      call.apply (Buffer.ofList w.file.bytes) build
          (withLoaded (openedReader env numClusters dim kept path w fd r) loaded) =
        some (withLoaded (openedReader env numClusters dim kept path w fd r) loaded') ∧
      Serves env kept dim w.file.bytes inputs
        (openedReader env numClusters dim kept path w fd r) loaded' ∧
      ∀ id, (loaded' id).isSome = call.leaves r.report.ready id (loaded id).isSome := by
  cases call with
  | load id =>
      obtain ⟨input, mem, rfl⟩ := List.mem_map.1 known
      obtain ⟨loaded', loads, served, leaves⟩ := serves.load archive valid mem
      exact ⟨loaded', by rw [ReaderCall.apply, loads]; rfl, served, leaves⟩
  | unload id =>
      obtain ⟨loaded', unloads, served, leaves⟩ := serves.unload id
      exact ⟨loaded', congrArg some unloads, served, leaves⟩

/-- **Clusters are loaded and unloaded in any order**, any number of times. -/
theorem Serves.session (archive : Archive env numClusters dim config kept inputs path w)
    {r : ClusterStoreReader View Parsed} {fd : ℤ} (valid : 0 ≤ fd) {calls : List ReaderCall}
    (known : ∀ call ∈ calls, call.Loads (inputs.map fun input => input.clusterId))
    {loaded : UInt32 → Option ClusterData}
    (serves : Serves env kept dim w.file.bytes inputs
      (openedReader env numClusters dim kept path w fd r) loaded) : ∃ loaded',
      run (ReaderCall.apply (Buffer.ofList w.file.bytes) build)
          (withLoaded (openedReader env numClusters dim kept path w fd r) loaded) calls =
        some (withLoaded (openedReader env numClusters dim kept path w fd r) loaded') ∧
      Serves env kept dim w.file.bytes inputs
        (openedReader env numClusters dim kept path w fd r) loaded' ∧
      ∀ id, (loaded' id).isSome =
        calls.foldl (ReaderCall.leaves r.report.ready id) (loaded id).isSome := by
  induction calls generalizing loaded with
  | nil => exact ⟨loaded, rfl, serves, fun _ => rfl⟩
  | cons call calls ih =>
      obtain ⟨next, first, served, step⟩ := serves.call archive valid (known _ List.mem_cons_self)
      obtain ⟨loaded', rest, servedAll, leaves⟩ :=
        ih (fun call behind => known call (List.mem_cons_of_mem _ behind)) served
      refine ⟨loaded', ?_, servedAll, fun id => ?_⟩
      · rw [run, first]
        exact rest
      · rw [leaves, step, List.foldl_cons]

/-- What a reader answers of a cluster that it has loaded; of its codes, where the dimension is a
positive multiple of four. -/
structure Answers (kept : StoreConfig) (dim : UInt32) (r : ClusterStoreReader View Parsed)
    (input : ClusterInput build) : Prop where
  records : r.getNumRecords input.clusterId = input.numRecords
  centroid : r.getCentroid input.clusterId = some (input.centroid.take dim.toNat)
  epsilon : r.getEpsilon input.clusterId = input.epsilon
  addresses : ∀ i : UInt32, ∀ address, input.addresses[i.toNat]? = some address →
    r.getAddress input.clusterId i = address
  codes : 0 < dim.toNat → 4 ∣ dim.toNat → ∀ build' officialXipnorm, ∀ indices : List UInt32,
    ∀ outCodes : List RaBitQCode, (∀ i ∈ indices, i.toNat < input.codes.length) →
      r.loadCodes build' officialXipnorm input.clusterId indices outCodes =
        .ok (indices.zipIdx.map fun row =>
          keptCode dim.toNat kept officialXipnorm
            (outCodes.getD row.2 { code := [], norm := 0, sumX := 0 })
            (input.codes.getD row.1.toNat { code := [], norm := 0, sumX := 0 }))

/-- The code regions of a loaded cluster. -/
theorem Written.codesHeld {bytes : List UInt8} {input : ClusterInput build} {entry : LookupEntry}
    {block : Block} {data : ClusterData} (written : Written env kept dim bytes input entry block)
    (as : Written.LoadedAs input block data) (dims : 0 < dim.toNat) (whole : 4 ∣ dim.toNat) :
    CodesHeld env kept dim input.codes data.codesBuffer := by
  have fits := written.fits.regions
  obtain ⟨⟨fast, -⟩, extra, -⟩ := written.fits.sizes written.of
  have has : data.codesBuffer.Has 0 (block.fastScan ++ block.extra) := by
    refine ⟨by rw [as.size, Nat.zero_add], fun j below => ?_⟩
    rw [Nat.zero_add]
    exact as.bytes j (by rw [as.size]; exact below)
  have first : block.fastScan =
      (fastScanUnits dim input.codes).flatMap fun unit => unit.emission.bytes := by
    rw [written.of.fastScan, unitBytes, unitParts, List.flatMap_def]
  have second : block.extra = (exDataUnits kept dim (effectiveWriterFileVersion env kept)
      input.codes).flatMap fun unit => unit.emission.bytes := by
    rw [written.of.extra, unitBytes, unitParts, List.flatMap_def]
  have front := has.left
  have back := has.right
  rw [fast, Nat.zero_add, second] at back
  rw [first] at front
  refine ⟨written.kept, dims, fits, ⟨whole, by omega, written.of.fastScanClean, front⟩,
    written.of.extraClean, back, ?_⟩
  rw [as.size, List.length_append, fast, extra]

theorem Written.answers {bytes : List UInt8} {input : ClusterInput build} {entry : LookupEntry}
    {block : Block} {data : ClusterData} (written : Written env kept dim bytes input entry block)
    (as : Written.LoadedAs input block data) (storable : Storable env kept dim input)
    {r : ClusterStoreReader View Parsed} (isOpen : 0 ≤ r.fd)
    (geometry : r.geometry = fileGeometry env kept dim)
    (found : r.entryOf input.clusterId = some entry)
    (loaded : r.loadedClusters input.clusterId = some data) : Answers kept dim r input := by
  have fields := written.of.entry
  have records : entry.numRecords = input.numRecords := congrArg LookupEntry.numRecords fields
  refine ⟨?_, ?_, ?_, fun i address there => ?_,
    fun dims whole build' officialXipnorm indices outCodes inside => ?_⟩
  · rw [ClusterStoreReader.getNumRecords, found]
    exact records
  · rw [ClusterStoreReader.getCentroid, found]
    exact congrArg some (congrArg LookupEntry.centroid fields)
  · rw [ClusterStoreReader.getEpsilon, found]
    exact congrArg LookupEntry.epsilon fields
  · rw [ClusterStoreReader.getAddress, loaded]
    exact (as.addresses i address there).trans ((decodeRawEntryV2_rawEntry storable.pageSize _).2
      (storable.addresses _ (List.mem_of_getElem? there)))
  · exact (written.codesHeld as dims whole).loads_codes
      ⟨isOpen, geometry, found, loaded, by rw [records, storable.records], written.region1Size⟩
      build' officialXipnorm inside outCodes

/-- A session on the opened file: each cluster is as it was written, or not loaded. -/
theorem Archive.session (archive : Archive env numClusters dim config kept inputs path w)
    {r : ClusterStoreReader View Parsed} (unloaded : ∀ id, r.loadedClusters id = none) {fd : ℤ}
    (valid : 0 ≤ fd) {calls : List ReaderCall}
    (known : ∀ call ∈ calls, call.Loads (inputs.map fun input => input.clusterId)) : ∃ r',
      run (ReaderCall.apply (Buffer.ofList w.file.bytes) build)
          (openedReader env numClusters dim kept path w fd r) calls = some r' ∧
        ∀ input ∈ inputs,
          if calls.foldl (ReaderCall.leaves r.report.ready input.clusterId) false
          then Answers kept dim r' input
          else r'.loadedClusters input.clusterId = none := by
  have start : Serves env kept dim w.file.bytes inputs
      (openedReader env numClusters dim kept path w fd r)
      (openedReader env numClusters dim kept path w fd r).loadedClusters := by
    intro input mem data there
    have none : r.loadedClusters input.clusterId = some data := there
    rw [unloaded] at none
    cases none
  obtain ⟨loaded, ran, serves, leaves⟩ := Serves.session archive valid known start
  refine ⟨_, ran, fun input mem => ?_⟩
  have first : ((openedReader env numClusters dim kept path w fd r).loadedClusters
      input.clusterId).isSome = false := congrArg Option.isSome (unloaded input.clusterId)
  have here := leaves input.clusterId
  rw [first] at here
  split
  · rename_i left
    obtain ⟨data, there⟩ := Option.isSome_iff_exists.1 (here.trans left)
    obtain ⟨entry, block, found, written, as⟩ := serves input mem data there
    exact written.answers as (archive.storable input mem) valid rfl found there
  · rename_i gone
    exact Option.not_isSome_iff_eq_none.1 fun there => gone (here.symm.trans there)

/-- **A cluster file comes back as it was written**, whatever clusters are loaded and unloaded and
in whatever order. -/
theorem store_reads_back (archive : Archive env numClusters dim config kept inputs path w)
    {r : ClusterStoreReader View Parsed} (closed : r.fd < 0)
    (unloaded : ∀ id, r.loadedClusters id = none) {fd : ℤ} (valid : 0 ≤ fd) (name : String) :
    ∃ opened,
      r.open name fd (Buffer.ofList w.file.bytes) = (none, opened) ∧
      opened.clusterIds = inputs.map (fun input => input.clusterId) ∧
      ∀ calls : List ReaderCall, (∀ call ∈ calls, call.Loads opened.clusterIds) → ∃ r',
        run (ReaderCall.apply (Buffer.ofList w.file.bytes) build) opened calls = some r' ∧
        ∀ input ∈ inputs,
          if calls.foldl (ReaderCall.leaves r.report.ready input.clusterId) false
          then Answers kept dim r' input
          else r'.loadedClusters input.clusterId = none := by
  refine ⟨_, archive.opens closed valid name, archive.clusterIds, fun calls known => ?_⟩
  refine archive.session unloaded valid ?_
  rw [← archive.clusterIds]
  exact known

end Archive

/-! ## Two records -/

/-- The file of two records. -/
def twoRecordsFile : ClusterStoreWriter :=
  (writeFile none .scalar 1 8 elidedConfig none [twoRecords.toClusterJob] [0x61]).2

theorem twoRecordsFile_ok :
    writeFile none .scalar 1 8 elidedConfig none [twoRecords.toClusterJob] [0x61] =
      (none, twoRecordsFile) := by
  have ok : (writeFile none .scalar 1 8 elidedConfig none [twoRecords.toClusterJob] [0x61]).1 =
      none := by decide +kernel
  rw [twoRecordsFile, ← ok]

theorem twoRecords_archive : Archive none 1 8 elidedConfig elidedConfig [twoRecords] [0x61]
    twoRecordsFile where
  accepted := rfl
  wrote := ⟨none, twoRecordsFile_ok⟩
  all := rfl
  distinct := List.nodup_singleton _
  storable := by
    intro input mem
    obtain rfl := List.mem_singleton.1 mem
    refine ⟨⟨by decide +kernel, by decide, by decide⟩, rfl, by decide, ?_, ?_⟩
    · intro address mem
      simp only [twoRecords, List.mem_cons, List.not_mem_nil, or_false] at mem
      rcases mem with rfl | rfl <;> exact ⟨by decide, by decide, by decide⟩
    · intro code mem
      simp only [twoRecords, List.mem_cons, List.not_mem_nil, or_false] at mem
      rcases mem with rfl | rfl <;> decide
  small := by
    rw [writeFile_length twoRecordsFile_ok]
    decide +kernel

theorem parsers_agree_twoRecords :
    ∃ opened : ClusterStoreReader Unit Unit,
      ({} : ClusterStoreReader Unit Unit).open "a.clu" 3 (Buffer.ofList twoRecordsFile.file.bytes) =
        (none, opened) ∧ opened.clusterIds = [7] ∧
      ∃ p : PendingBlock Unit Unit,
        p.reader = opened ∧ p.file = Buffer.ofList twoRecordsFile.file.bytes ∧ p.clusterId = 7 ∧
        ∃ loaded parsed codeRegion,
          opened.ensureClusterLoaded p.file .scalar 7 = .ok loaded ∧
          opened.parse .scalar 7 (some p.block.byte) (UInt64.ofNat p.entry.blockSize) = .ok parsed ∧
          prePass p.file p.entry opened.geometry = .ok codeRegion ∧
          SameCluster p loaded parsed ∧ codeRegion.1.toNat = parsed.codeRegionBytes := by
  obtain ⟨opened, opens, ids, each⟩ := parsers_agree_on_written twoRecords_archive
    (show ({} : ClusterStoreReader Unit Unit).fd < 0 by decide) (fun _ => rfl)
    (show (0 : ℤ) ≤ 3 by decide) "a.clu"
  exact ⟨opened, opens, ids, each twoRecords (List.mem_singleton.2 rfl)⟩

/-- The records are read back in reverse order, and one of them twice, once their cluster has been
loaded, unloaded and loaded again. -/
theorem store_reads_back_twoRecords :
    ∃ opened r' : ClusterStoreReader Unit Unit,
      ({} : ClusterStoreReader Unit Unit).open "a.clu" 3 (Buffer.ofList twoRecordsFile.file.bytes) =
        (none, opened) ∧
      run (ReaderCall.apply (Buffer.ofList twoRecordsFile.file.bytes) .scalar) opened
        [.load 7, .unload 7, .load 7] = some r' ∧
      r'.getAddress 7 1 = ⟨8192, 8192⟩ ∧
      (r'.loadCodes .avx512 (fun _ rescale => rescale) 7 [1, 0, 1] []).map
          (fun codes => codes.map RaBitQCode.exCode) =
        .ok [[1, 0, 1, 0, 1, 0, 1, 0], [0, 1, 2, 3, 4, 5, 6, 7], [1, 0, 1, 0, 1, 0, 1, 0]] := by
  obtain ⟨opened, opens, ids, session⟩ := store_reads_back twoRecords_archive
    (show ({} : ClusterStoreReader Unit Unit).fd < 0 by decide) (fun _ => rfl)
    (show (0 : ℤ) ≤ 3 by decide) "a.clu"
  have known : ∀ call ∈ [ReaderCall.load 7, .unload 7, .load 7], call.Loads opened.clusterIds := by
    intro call mem
    rw [ids]
    simp only [List.mem_cons, List.not_mem_nil, or_false] at mem
    rcases mem with rfl | rfl | rfl
    · exact List.mem_cons_self
    · trivial
    · exact List.mem_cons_self
  obtain ⟨r', ran, answers⟩ := session _ known
  have here : Answers elidedConfig 8 r' twoRecords :=
    (if_pos rfl).mp (answers twoRecords (List.mem_singleton.2 rfl))
  refine ⟨opened, r', opens, ran, here.addresses 1 _ rfl, ?_⟩
  have codes := here.codes (by decide) (by decide) .avx512 (fun _ rescale => rescale) [1, 0, 1] [] fun i mem => by
    simp only [List.mem_cons, List.not_mem_nil, or_false] at mem
    rcases mem with rfl | rfl | rfl <;> decide
  exact (congrArg (Except.map (List.map RaBitQCode.exCode)) codes).trans rfl

end VecFetch.Storage
