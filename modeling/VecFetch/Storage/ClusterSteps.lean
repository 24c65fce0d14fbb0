/-
# Storage.ClusterSteps -- what the writer's calls do

One lemma for each call that returns OK says all of what it does to the writer.  A writer
whose stream is good stands at its offset (`Live`), whatever the calls before returned; only
`Finalize` moves the put position away.
-/
import VecFetch.Storage.ClusterWriter

namespace VecFetch.Storage

open VecFetch.Theory VecFetch.Rabitq VecFetch.Simd VecFetch.Query

set_option autoImplicit false

/-! ## Statuses -/

theorem Outcome.andThen_ok {o : Outcome} {next : ClusterStoreWriter → Outcome}
    {w' : ClusterStoreWriter} (ok : o.andThen next = (none, w')) :
    ∃ w, o = (none, w) ∧ next w = (none, w') := by
  obtain ⟨status, w⟩ := o
  cases status with
  | none => exact ⟨w, rfl, ok⟩
  | some failure => cases ok

theorem Outcome.andThen_run {o : Outcome} {next : ClusterStoreWriter → Outcome}
    {w : ClusterStoreWriter} (ok : o = (none, w)) : o.andThen next = next w := by
  rw [ok]
  rfl

namespace ClusterStoreWriter

variable {w w' : ClusterStoreWriter} {env : Option ℤ} {build : Build}

theorem refuse_ok {message : String} : w.refuse message ≠ (none, w') := by
  intro ok
  cases ok

theorem check_ok {message : String} (ok : w.check message = (none, w')) :
    w' = w ∧ w.file.good = true := by
  rw [check] at ok
  obtain ⟨status, rfl⟩ := Prod.mk.inj ok
  split at status
  · next good => exact ⟨rfl, good⟩
  · cases status

theorem check_good {message : String} (good : w.file.good = true) :
    w.check message = (none, w) := by
  rw [check, if_pos good]

/-! ## Units -/

/-- The writer after units that all pass. -/
def afterUnits (units : List WriteUnit) (w : ClusterStoreWriter) : ClusterStoreWriter :=
  { w with
    file := w.file.writeAll (units.map fun unit => unit.emission.bytes)
    currentOffset := w.currentOffset + (units.map WriteUnit.advance).sum }

theorem writeUnit_ok {unit : WriteUnit} (ok : writeUnit unit w = (none, w')) :
    w' = afterUnits [unit] w ∧ unit.emission.error = none ∧ w'.file.good = true := by
  rw [writeUnit] at ok
  split at ok
  · cases ok
  · next clean =>
      obtain ⟨written, passed, last⟩ := Outcome.andThen_ok ok
      obtain ⟨rfl, good⟩ := check_ok passed
      cases last
      exact ⟨rfl, clean, good⟩

theorem writeUnits_ok {units : List WriteUnit} (ok : writeUnits units w = (none, w')) :
    w' = afterUnits units w ∧ (∀ unit ∈ units, unit.emission.error = none) ∧
      (units ≠ [] → w'.file.good = true) := by
  induction units generalizing w with
  | nil =>
      cases ok
      exact ⟨rfl, fun unit mem => absurd mem List.not_mem_nil, fun some => absurd rfl some⟩
  | cons unit units ih =>
      obtain ⟨next, first, rest⟩ := Outcome.andThen_ok ok
      obtain ⟨rfl, clean, good⟩ := writeUnit_ok first
      obtain ⟨rfl, later, last⟩ := ih rest
      refine ⟨?_, List.forall_mem_cons.2 ⟨clean, later⟩, fun _ => ?_⟩
      · simp only [afterUnits, FileStream.writeAll, List.map_cons, List.map_nil, List.sum_cons,
          List.sum_nil, List.foldl_cons, List.foldl_nil, Nat.add_zero, Nat.add_assoc]
      · cases units with
        | nil => exact good
        | cons unit units => exact last (List.cons_ne_nil _ _)

/-! ## Calls -/

/-- The writer after `BeginCluster`. -/
def begun (clusterId numRecords epsilon : UInt32) (centroid : List UInt32)
    (w : ClusterStoreWriter) : ClusterStoreWriter :=
  { w.setEntry { w.entry with
      clusterId := clusterId, numRecords := numRecords, epsilon := epsilon
      centroid := centroid.take w.dim.toNat } with
    inCluster := true, vectorsWritten := false, addressWritten := false
    blockStart := w.currentOffset }

theorem beginCluster_ok {clusterId numRecords epsilon : UInt32} {centroid : List UInt32}
    (ok : w.beginCluster clusterId numRecords centroid epsilon = (none, w')) :
    w.inCluster = false ∧ w.currentClusterIndex < w.numClusters ∧
      w.dim.toNat ≤ centroid.length ∧ w' = w.begun clusterId numRecords epsilon centroid := by
  rw [beginCluster] at ok
  split at ok
  · exact absurd ok refuse_ok
  · split at ok
    · exact absurd ok refuse_ok
    · next outside =>
        split at ok
        · exact absurd ok refuse_ok
        · next more =>
            split at ok
            · cases ok
            · next whole =>
                exact ⟨by simpa using outside, by omega, by omega, (Prod.mk.inj ok).2.symm⟩

/-- The units of the extra codes for the writer's file. -/
def extraUnits (env : Option ℤ) (w : ClusterStoreWriter) (codes : List RaBitQCode) :
    List WriteUnit :=
  exDataUnits w.config w.dim (effectiveWriterFileVersion env w.config) codes

/-- The writer after `WriteVectors`. -/
def vectored (env : Option ℤ) (codes : List RaBitQCode) (w : ClusterStoreWriter) :
    ClusterStoreWriter :=
  let offset := w.currentOffset + ((fastScanUnits w.dim codes).map WriteUnit.advance).sum
  { afterUnits (extraUnits env w codes) (afterUnits (fastScanUnits w.dim codes) w) with
    numFastscanBlocks := (UInt32.ofNat codes.length + 31) / 32
    exrabitqRegionOffset := UInt32.ofNat (offset - w.blockStart)
    vectorsWritten := true }

theorem writeVectors_ok {codes : List RaBitQCode} (ok : w.writeVectors env codes = (none, w')) :
    w.inCluster = true ∧ w.vectorsWritten = false ∧ w' = w.vectored env codes ∧
      (∀ unit ∈ fastScanUnits w.dim codes, unit.emission.error = none) ∧
      (∀ unit ∈ extraUnits env w codes, unit.emission.error = none) := by
  rw [writeVectors] at ok
  split at ok
  · exact absurd ok refuse_ok
  · next inside =>
      split at ok
      · exact absurd ok refuse_ok
      · next fresh =>
          obtain ⟨blocks, first, rest⟩ := Outcome.andThen_ok ok
          obtain ⟨rfl, blocksPass, -⟩ := writeUnits_ok first
          obtain ⟨extra, second, last⟩ := Outcome.andThen_ok rest
          obtain ⟨rfl, extraPass, -⟩ := writeUnits_ok second
          refine ⟨?_, by simpa using fresh, (Prod.mk.inj last).2.symm, blocksPass, extraPass⟩
          simp only [Bool.not_eq_true', not_or, Bool.not_eq_false] at inside
          exact inside.2

/-- The writer after `WriteAddressBlocks`. -/
def addressed (pageSize : UInt32) (rawEntries : List RawAddressEntryV2) (w : ClusterStoreWriter) :
    ClusterStoreWriter :=
  { w with
    file := if rawEntries = [] then w.file else w.file.write (rawTableBytes rawEntries)
    currentOffset := w.currentOffset + rawEntries.length * 8
    addressPageSize := pageSize, rawEntries := rawEntries, addressWritten := true }

theorem writeAddressBlocks_ok {column : AddressPayload}
    (ok : w.writeAddressBlocks build column = (none, w')) :
    ∃ pageSize rawEntries, rawTable build column = .ok (pageSize, rawEntries) ∧
      columnError w.entry.numRecords column = none ∧ w.addressWritten = false ∧
      w' = w.addressed pageSize rawEntries := by
  rw [writeAddressBlocks] at ok
  split at ok
  · exact absurd ok refuse_ok
  · split at ok
    · exact absurd ok refuse_ok
    · split at ok
      · exact absurd ok refuse_ok
      · next fresh =>
          split at ok
          · exact absurd ok refuse_ok
          · next fits =>
              split at ok
              · cases ok
              · next pageSize rawEntries table =>
                  refine ⟨pageSize, rawEntries, table, fits, by simpa using fresh, ?_⟩
                  dsimp only at ok
                  split at ok
                  · next some =>
                      obtain ⟨written, passed, last⟩ := Outcome.andThen_ok ok
                      obtain ⟨rfl, -⟩ := check_ok passed
                      have nonempty : rawEntries ≠ [] := by
                        intro none
                        rw [none] at some
                        exact absurd some (by decide)
                      rw [addressed, if_neg nonempty]
                      exact (Prod.mk.inj last).2.symm
                  · next none =>
                      have empty : rawEntries = [] := List.eq_nil_of_length_eq_zero (by omega)
                      subst empty
                      exact (Prod.mk.inj ok).2.symm

/-- The writer of a cluster whose trailer is written. -/
def trailed (w : ClusterStoreWriter) : ClusterStoreWriter :=
  let ended := w.put w.trailerBytes
  { ended.setEntry ended.endedEntry with currentOffset := ended.file.pos }

/-- The writer after the lookup entry is patched. -/
def patched (w : ClusterStoreWriter) : ClusterStoreWriter :=
  (w.trailed.seek (w.lookupTableStart + w.currentClusterIndex * lookupEntrySize w.dim)).put
    w.trailed.entry.bytes

/-- The writer after `EndCluster`. -/
def ended (w : ClusterStoreWriter) : ClusterStoreWriter :=
  { (w.patched.seek w.patched.currentOffset).pad with
    currentClusterIndex := w.currentClusterIndex + 1
    inCluster := false, vectorsWritten := false, addressWritten := false
    addressPageSize := 4096, rawEntries := []
    numFastscanBlocks := 0, exrabitqRegionOffset := 0 }

theorem ended_currentOffset : w.ended.currentOffset = roundUp4K w.patched.currentOffset := rfl

theorem ended_file : w.ended.file = (w.patched.file.seek w.patched.currentOffset).write
    (List.replicate (roundUp4K w.patched.currentOffset - w.patched.currentOffset) 0) := rfl

theorem endCluster_ok (ok : w.endCluster = (none, w')) :
    w.inCluster = true ∧ w.addressWritten = true ∧ (w.put w.trailerBytes).file.good = true ∧
      w.patched.file.good = true ∧ w' = w.ended := by
  rw [endCluster] at ok
  split at ok
  · exact absurd ok refuse_ok
  · next inside =>
      split at ok
      · exact absurd ok refuse_ok
      · next written =>
          obtain ⟨ended, first, rest⟩ := Outcome.andThen_ok ok
          obtain ⟨rfl, good⟩ := check_ok first
          obtain ⟨entry, second, last⟩ := Outcome.andThen_ok rest
          obtain ⟨rfl, good'⟩ := check_ok second
          refine ⟨?_, by simpa using written, good, good', (Prod.mk.inj last).2.symm⟩
          simp only [Bool.not_eq_true', not_or, Bool.not_eq_false] at inside
          exact inside.2

/-- The path of the data file, as the header holds it. -/
def pathBytes (path : List UInt8) : List UInt8 :=
  let pathLen := UInt32.ofNat path.length
  leBytes 4 pathLen.toNat ++ path.take pathLen.toNat ++
    List.replicate (kMaxPathLen.toNat - pathLen.toNat) 0

theorem finalize_ok {path : List UInt8} (ok : w.finalize path = (none, w')) :
    w.inCluster = false ∧ UInt32.ofNat path.length ≤ kMaxPathLen ∧
      ((w.seek w.headerPathOffset).put (pathBytes path)).file.good = true ∧
      w' = { (w.seek w.headerPathOffset).put (pathBytes path) with
        isOpen := false, finalized := true } := by
  rw [finalize] at ok
  split at ok
  · exact absurd ok refuse_ok
  · split at ok
    · exact absurd ok refuse_ok
    · split at ok
      · exact absurd ok refuse_ok
      · next outside =>
          dsimp only at ok
          split at ok
          · exact absurd ok refuse_ok
          · next short =>
              obtain ⟨written, passed, last⟩ := Outcome.andThen_ok ok
              obtain ⟨rfl, good⟩ := check_ok passed
              exact ⟨by simpa using outside, by simpa using short, good, (Prod.mk.inj last).2.symm⟩

/-! ## Calls that return OK -/

/-- An open writer whose stream takes everything. -/
structure Live (w : ClusterStoreWriter) : Prop where
  isOpen : w.isOpen = true
  good : w.file.good = true
  unbounded : w.file.room = none

theorem Live.put (live : w.Live) (bytes : List UInt8) : (w.put bytes).Live := by
  obtain ⟨good, unbounded⟩ := FileStream.write_unbounded live.good live.unbounded bytes
  exact ⟨live.isOpen, good, unbounded⟩

theorem Live.seek (live : w.Live) (pos : ℕ) : (w.seek pos).Live := by
  have moved : w.file.seek pos = { w.file with pos := pos } := if_pos live.good
  refine ⟨live.isOpen, ?_, ?_⟩
  · show (w.file.seek pos).good = true
    rw [moved]
    exact live.good
  · show (w.file.seek pos).room = none
    rw [moved]
    exact live.unbounded

theorem Live.afterUnits (live : w.Live) (units : List WriteUnit) : (afterUnits units w).Live := by
  obtain ⟨good, unbounded⟩ := FileStream.writeAll_unbounded live.good live.unbounded
    (units.map fun unit => unit.emission.bytes)
  exact ⟨live.isOpen, good, unbounded⟩

theorem Live.writeUnits (live : w.Live) {units : List WriteUnit}
    (clean : ∀ unit ∈ units, unit.emission.error = none) :
    writeUnits units w = (none, ClusterStoreWriter.afterUnits units w) := by
  induction units generalizing w with
  | nil => rfl
  | cons unit units ih =>
      obtain ⟨first, rest⟩ := List.forall_mem_cons.1 clean
      have one : writeUnit unit w = (none, ClusterStoreWriter.afterUnits [unit] w) := by
        rw [writeUnit]
        simp only [first]
        rw [check_good (live.put unit.emission.bytes).good]
        rfl
      refine (Outcome.andThen_run one).trans ((ih (live.afterUnits [unit]) rest).trans ?_)
      simp [ClusterStoreWriter.afterUnits, FileStream.writeAll, Nat.add_assoc]

theorem Live.writeVectors (live : w.Live) (inside : w.inCluster = true)
    (fresh : w.vectorsWritten = false) {codes : List RaBitQCode}
    (blocks : ∀ unit ∈ fastScanUnits w.dim codes, unit.emission.error = none)
    (extra : ∀ unit ∈ extraUnits env w codes, unit.emission.error = none) :
    w.writeVectors env codes = (none, w.vectored env codes) ∧ (w.vectored env codes).Live := by
  have started (numBlocks : UInt32) :
      ({ w with numFastscanBlocks := numBlocks } : ClusterStoreWriter).Live :=
    ⟨live.isOpen, live.good, live.unbounded⟩
  have blocked := live.afterUnits (fastScanUnits w.dim codes)
  have done := blocked.afterUnits (extraUnits env w codes)
  refine ⟨?_, done.isOpen, done.good, done.unbounded⟩
  rw [ClusterStoreWriter.writeVectors, if_neg (by simp [live.isOpen, inside]),
    if_neg (by simp [fresh])]
  refine (Outcome.andThen_run ((started _).writeUnits blocks)).trans ?_
  refine Outcome.andThen_run (Live.writeUnits ?_ extra)
  exact ⟨blocked.isOpen, blocked.good, blocked.unbounded⟩

theorem Live.writeAddressBlocks (live : w.Live) (inside : w.inCluster = true)
    (vectors : w.vectorsWritten = true) (fresh : w.addressWritten = false)
    {column : AddressPayload} (fits : columnError w.entry.numRecords column = none)
    {pageSize : UInt32} {table : List RawAddressEntryV2}
    (kept : rawTable build column = .ok (pageSize, table)) :
    w.writeAddressBlocks build column = (none, w.addressed pageSize table) ∧
      (w.addressed pageSize table).Live := by
  rw [ClusterStoreWriter.writeAddressBlocks, if_neg (by simp [live.isOpen, inside]),
    if_neg (by simp [vectors]), if_neg (by simp [fresh])]
  simp only [fits, kept]
  have held : ({ w with addressPageSize := pageSize, rawEntries := table } :
      ClusterStoreWriter).Live := ⟨live.isOpen, live.good, live.unbounded⟩
  cases table with
  | nil => exact ⟨rfl, live.isOpen, live.good, live.unbounded⟩
  | cons row rows =>
      have written := held.put (rawTableBytes (row :: rows))
      rw [if_pos (by simp), check_good written.good]
      exact ⟨rfl, written.isOpen, written.good, written.unbounded⟩

theorem Live.trailed (live : w.Live) : w.trailed.Live := by
  have written := live.put w.trailerBytes
  exact ⟨written.isOpen, written.good, written.unbounded⟩

theorem Live.endCluster (live : w.Live) (inside : w.inCluster = true)
    (addresses : w.addressWritten = true) : w.endCluster = (none, w.ended) ∧ w.ended.Live := by
  have written := live.put w.trailerBytes
  have patched := (live.trailed.seek
    (w.lookupTableStart + w.currentClusterIndex * lookupEntrySize w.dim)).put w.trailed.entry.bytes
  have last := (patched.seek w.patched.currentOffset).put
    (List.replicate (roundUp4K w.patched.currentOffset - w.patched.currentOffset) 0)
  refine ⟨?_, last.isOpen, last.good, last.unbounded⟩
  rw [ClusterStoreWriter.endCluster, if_neg (by simp [live.isOpen, inside]),
    if_neg (by simp [addresses])]
  refine (Outcome.andThen_run (check_good written.good)).trans ?_
  exact Outcome.andThen_run (check_good patched.good)

theorem Live.finalize (live : w.Live) (ended : w.finalized = false) (outside : w.inCluster = false)
    {path : List UInt8} (short : UInt32.ofNat path.length ≤ kMaxPathLen) :
    ∃ w', w.finalize path = (none, w') := by
  rw [ClusterStoreWriter.finalize, if_neg (by simp [live.isOpen]), if_neg (by simp [ended]),
    if_neg (by simp [outside])]
  dsimp only
  rw [if_neg (by simpa using short), check_good ((live.seek _).put _).good]
  exact ⟨_, rfl⟩

theorem beginCluster_runs (isOpen : w.isOpen = true) (outside : w.inCluster = false)
    (below : w.currentClusterIndex < w.numClusters) (clusterId numRecords epsilon : UInt32)
    {centroid : List UInt32} (whole : w.dim.toNat ≤ centroid.length) :
    w.beginCluster clusterId numRecords centroid epsilon =
      (none, w.begun clusterId numRecords epsilon centroid) := by
  rw [beginCluster, if_neg (by simp [isOpen]), if_neg (by simp [outside]), if_neg (by omega),
    if_neg (by omega), begun]

end ClusterStoreWriter

end VecFetch.Storage
