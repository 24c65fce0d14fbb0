/-
# Storage.WriterProtocol -- the order in which a cluster file is written

A caller may call a writer in any order.  A call whose turn it is not is refused and changes
nothing (`out_of_turn`), so what a session writes is what the calls that returned OK wrote.  These
are whole clusters, each in four calls, and behind them the beginning of one more or `Finalize`
(`accepted_calls`); once it is finalized, the file is that of its clusters, whatever else was tried
on the way (`writer_sessions`).
-/
import VecFetch.Storage.ClusterImage
import VecFetch.Theory.Trace

namespace VecFetch.Storage

open VecFetch.Theory VecFetch.Rabitq VecFetch.Simd VecFetch.Query ClusterStoreWriter

set_option autoImplicit false

/-- A call on an open writer. -/
inductive WriterCall where
  | beginCluster (clusterId numRecords : UInt32) (centroid : List UInt32) (epsilon : UInt32)
  | writeVectors (codes : List RaBitQCode)
  | writeAddressBlocks (column : AddressPayload)
  | endCluster
  | finalize (path : List UInt8)

namespace WriterCall

variable (env : Option ℤ) (build : Build)

def outcome (w : ClusterStoreWriter) : WriterCall → Outcome
  | beginCluster clusterId numRecords centroid epsilon =>
      w.beginCluster clusterId numRecords centroid epsilon
  | writeVectors codes => w.writeVectors env codes
  | writeAddressBlocks column => w.writeAddressBlocks build column
  | endCluster => w.endCluster
  | finalize path => w.finalize path

/-- The writer after a call that returns OK. -/
def accepted (w : ClusterStoreWriter) (call : WriterCall) : Option ClusterStoreWriter :=
  match call.outcome env build w with
  | (none, w') => some w'
  | (some _, _) => none

/-- The calls that the writer's flags let through. -/
def inTurn (w : ClusterStoreWriter) : WriterCall → Bool
  | beginCluster .. => w.isOpen && !w.inCluster && decide (w.currentClusterIndex < w.numClusters)
  | writeVectors _ => w.isOpen && w.inCluster && !w.vectorsWritten
  | writeAddressBlocks _ => w.isOpen && w.inCluster && w.vectorsWritten && !w.addressWritten
  | endCluster => w.isOpen && w.inCluster && w.addressWritten
  | finalize _ => w.isOpen && !w.finalized && !w.inCluster

/-- A call of a session, which goes on after calls out of turn and ends at any other failure. -/
def attempt (w : ClusterStoreWriter) (call : WriterCall) : Option ClusterStoreWriter :=
  match call.outcome env build w with
  | (none, w') => some w'
  | (some _, w') => if call.inTurn w then none else some w'

/-- The calls of a session that return OK. -/
def taken : ClusterStoreWriter → List WriterCall → List WriterCall
  | _, [] => []
  | w, call :: calls =>
      match call.outcome env build w with
      | (none, w') => call :: taken w' calls
      | (some _, w') => taken w' calls

/-- The calls that write a cluster. -/
def ofJob (job : ClusterJob) : List WriterCall :=
  [beginCluster job.clusterId job.numRecords job.centroid job.epsilon, writeVectors job.codes,
    writeAddressBlocks job.column, endCluster]

variable {env : Option ℤ} {build : Build} {w w' : ClusterStoreWriter} {call : WriterCall}

/-! ## Turns -/

theorem accepted_iff :
    call.accepted env build w = some w' ↔ call.outcome env build w = (none, w') := by
  rw [accepted]
  split
  · next after same => rw [same, Option.some.injEq, Prod.mk.injEq, eq_self, true_and]
  · next same => rw [same]; simp

/-- **A call out of turn** is refused and changes nothing. -/
theorem out_of_turn (late : call.inTurn w = false) :
    ∃ message, call.outcome env build w = w.refuse message := by
  cases call with
  | beginCluster clusterId numRecords centroid epsilon =>
      rw [outcome, ClusterStoreWriter.beginCluster]
      split
      · exact ⟨_, rfl⟩
      · split
        · exact ⟨_, rfl⟩
        · split
          · exact ⟨_, rfl⟩
          · simp_all [inTurn]
  | writeVectors codes =>
      rw [outcome, ClusterStoreWriter.writeVectors]
      split
      · exact ⟨_, rfl⟩
      · split
        · exact ⟨_, rfl⟩
        · simp_all [inTurn]
  | writeAddressBlocks column =>
      rw [outcome, ClusterStoreWriter.writeAddressBlocks]
      split
      · exact ⟨_, rfl⟩
      · split
        · exact ⟨_, rfl⟩
        · split
          · exact ⟨_, rfl⟩
          · simp_all [inTurn]
  | endCluster =>
      rw [outcome, ClusterStoreWriter.endCluster]
      split
      · exact ⟨_, rfl⟩
      · split
        · exact ⟨_, rfl⟩
        · simp_all [inTurn]
  | finalize path =>
      rw [outcome, ClusterStoreWriter.finalize]
      split
      · exact ⟨_, rfl⟩
      · split
        · exact ⟨_, rfl⟩
        · split
          · exact ⟨_, rfl⟩
          · simp_all [inTurn]

/-- A call that returns OK has its turn. -/
theorem inTurn_of_ok (ok : call.outcome env build w = (none, w')) : call.inTurn w = true := by
  by_contra late
  obtain ⟨message, refused⟩ := out_of_turn (Bool.eq_false_iff.2 late)
  exact refuse_ok (refused.symm.trans ok)

/-- A call of a session that goes on returns OK in its turn, and is refused out of it. -/
theorem attempt_turn (stepped : call.attempt env build w = some w') :
    if call.inTurn w then call.outcome env build w = (none, w')
    else w' = w ∧ ∃ failure, call.outcome env build w = (some failure, w) := by
  rw [attempt] at stepped
  by_cases turn : call.inTurn w = true
  · rw [if_pos turn]
    split at stepped
    · next ok => rw [ok, Option.some.inj stepped]
    · cases (if_pos turn).symm.trans stepped
  · obtain ⟨message, refused⟩ := @out_of_turn env build w call (Bool.eq_false_iff.2 turn)
    rw [if_neg turn]
    rw [refused] at stepped ⊢
    exact ⟨(Option.some.inj ((if_neg turn).symm.trans stepped)).symm, _, rfl⟩

/-- **Every call of a session** returns OK in its turn; out of turn it is refused, and changes
nothing. -/
theorem session_turns {calls : List WriterCall} (ran : run (attempt env build) w calls = some w')
    {before after : List WriterCall} (split : calls = before ++ call :: after)
    {v : ClusterStoreWriter} (there : run (attempt env build) w before = some v) :
    if call.inTurn v then ∃ v', call.outcome env build v = (none, v')
    else ∃ failure, call.outcome env build v = (some failure, v) := by
  rw [split, run_append, there, Option.bind_some] at ran
  obtain ⟨next, stepped, -⟩ := Option.bind_eq_some_iff.1 ran
  have turn := attempt_turn stepped
  by_cases here : call.inTurn v = true
  · rw [if_pos here] at turn ⊢
    exact ⟨next, turn⟩
  · rw [if_neg here] at turn ⊢
    exact turn.2

/-- **A session comes to where the calls that returned OK come.** -/
theorem run_taken {calls : List WriterCall} (ran : run (attempt env build) w calls = some w') :
    run (accepted env build) w (taken env build w calls) = some w' := by
  induction calls generalizing w with
  | nil => exact ran
  | cons call calls ih =>
      obtain ⟨next, stepped, rest⟩ := Option.bind_eq_some_iff.1 ran
      have turn := attempt_turn stepped
      rw [taken]
      split at turn
      · rw [turn]
        dsimp only
        rw [run, accepted_iff.2 turn]
        exact ih rest
      · obtain ⟨rfl, failure, refused⟩ := turn
        rw [refused]
        exact ih rest

end WriterCall

/-! ## Runs -/

section Runs

variable {env : Option ℤ} {build : Build} {w₀ w w' : ClusterStoreWriter}

theorem writeClusters_snoc {jobs : List ClusterJob} {job : ClusterJob}
    (ok : w₀.writeClusters env build jobs = (none, w)) :
    w₀.writeClusters env build (jobs ++ [job]) = w.writeCluster env build job := by
  induction jobs generalizing w₀ with
  | nil =>
      obtain rfl := (Prod.mk.inj ok).2
      rw [List.nil_append, writeClusters]
      cases same : w₀.writeCluster env build job with
      | mk status last => cases status <;> rfl
  | cons first jobs ih =>
      obtain ⟨next, wrote, rest⟩ := Outcome.andThen_ok ok
      rw [List.cons_append, writeClusters, Outcome.andThen_run wrote]
      exact ih rest

theorem writeCluster_index {job : ClusterJob} (ok : w.writeCluster env build job = (none, w')) :
    w.currentClusterIndex < w.numClusters ∧ w'.numClusters = w.numClusters ∧
      w'.currentClusterIndex = w.currentClusterIndex + 1 := by
  obtain ⟨t, inside, last⟩ := Outcome.andThen_ok ok
  obtain ⟨v, begins, rest⟩ := Outcome.andThen_ok inside
  obtain ⟨u, vectors, addresses⟩ := Outcome.andThen_ok rest
  obtain ⟨-, below, -, rfl⟩ := beginCluster_ok begins
  obtain ⟨-, -, rfl, -⟩ := writeVectors_ok vectors
  obtain ⟨pageSize, rawEntries, -, -, -, rfl⟩ := writeAddressBlocks_ok addresses
  obtain ⟨-, -, -, -, rfl⟩ := endCluster_ok last
  exact ⟨below, rfl, rfl⟩

/-- A writer takes no more clusters than its table has rows. -/
theorem writeClusters_le {jobs : List ClusterJob}
    (ok : w₀.writeClusters env build jobs = (none, w))
    (room : w₀.currentClusterIndex ≤ w₀.numClusters) :
    w₀.currentClusterIndex + jobs.length ≤ w₀.numClusters := by
  induction jobs generalizing w₀ with
  | nil => exact room
  | cons job jobs ih =>
      obtain ⟨next, wrote, rest⟩ := Outcome.andThen_ok ok
      obtain ⟨below, same, index⟩ := writeCluster_index wrote
      have more := ih rest (by omega)
      rw [List.length_cons]
      omega

/-- How far the calls that returned OK have come. -/
inductive Progress (env : Option ℤ) (build : Build) (w₀ : ClusterStoreWriter) :
    List WriterCall → ClusterStoreWriter → Prop
  | between {jobs : List ClusterJob} {w : ClusterStoreWriter}
      (wrote : w₀.writeClusters env build jobs = (none, w)) (outside : w.inCluster = false)
      (fresh : w.finalized = false) : Progress env build w₀ (jobs.flatMap WriterCall.ofJob) w
  | begun {jobs : List ClusterJob} {job : ClusterJob} {v w : ClusterStoreWriter}
      (wrote : w₀.writeClusters env build jobs = (none, v)) (fresh : v.finalized = false)
      (begins : v.beginCluster job.clusterId job.numRecords job.centroid job.epsilon = (none, w)) :
      Progress env build w₀ (jobs.flatMap WriterCall.ofJob ++ (WriterCall.ofJob job).take 1) w
  | vectored {jobs : List ClusterJob} {job : ClusterJob} {v u w : ClusterStoreWriter}
      (wrote : w₀.writeClusters env build jobs = (none, v)) (fresh : v.finalized = false)
      (begins : v.beginCluster job.clusterId job.numRecords job.centroid job.epsilon = (none, u))
      (vectors : u.writeVectors env job.codes = (none, w)) :
      Progress env build w₀ (jobs.flatMap WriterCall.ofJob ++ (WriterCall.ofJob job).take 2) w
  | addressed {jobs : List ClusterJob} {job : ClusterJob} {v u t w : ClusterStoreWriter}
      (wrote : w₀.writeClusters env build jobs = (none, v)) (fresh : v.finalized = false)
      (begins : v.beginCluster job.clusterId job.numRecords job.centroid job.epsilon = (none, u))
      (vectors : u.writeVectors env job.codes = (none, t))
      (addresses : t.writeAddressBlocks build job.column = (none, w)) :
      Progress env build w₀ (jobs.flatMap WriterCall.ofJob ++ (WriterCall.ofJob job).take 3) w
  | finalized {jobs : List ClusterJob} {path : List UInt8} {v w : ClusterStoreWriter}
      (wrote : w₀.writeClusters env build jobs = (none, v)) (ends : v.finalize path = (none, w)) :
      Progress env build w₀ (jobs.flatMap WriterCall.ofJob ++ [.finalize path]) w

namespace Progress

variable {calls : List WriterCall} {call : WriterCall}

/-- The flags of a writer in a cluster. -/
structure Inside (w : ClusterStoreWriter) (vectors addresses : Bool) : Prop where
  inCluster : w.inCluster = true
  vectorsWritten : w.vectorsWritten = vectors
  addressWritten : w.addressWritten = addresses
  fresh : w.finalized = false

theorem inside_begun {v : ClusterStoreWriter} {clusterId numRecords epsilon : UInt32}
    {centroid : List UInt32} (fresh : v.finalized = false)
    (begins : v.beginCluster clusterId numRecords centroid epsilon = (none, w)) :
    Inside w false false := by
  obtain ⟨-, -, -, rfl⟩ := beginCluster_ok begins
  exact ⟨rfl, rfl, rfl, fresh⟩

theorem inside_vectored {v : ClusterStoreWriter} {codes : List RaBitQCode}
    (before : Inside v false false) (vectors : v.writeVectors env codes = (none, w)) :
    Inside w true false := by
  obtain ⟨-, -, rfl, -⟩ := writeVectors_ok vectors
  exact ⟨before.inCluster, rfl, before.addressWritten, before.fresh⟩

theorem inside_addressed {v : ClusterStoreWriter} {column : AddressPayload}
    (before : Inside v true false) (addresses : v.writeAddressBlocks build column = (none, w)) :
    Inside w true true := by
  obtain ⟨pageSize, rawEntries, -, -, -, rfl⟩ := writeAddressBlocks_ok addresses
  exact ⟨before.inCluster, before.vectorsWritten, rfl, before.fresh⟩

/-- A call in turn inside a cluster is the one that the flags say. -/
theorem turn_inside {vectors addresses : Bool} (inside : Inside w vectors addresses)
    (turn : call.inTurn w = true) :
    (∃ codes, call = .writeVectors codes ∧ vectors = false) ∨
      (∃ column, call = .writeAddressBlocks column ∧ vectors = true ∧ addresses = false) ∨
      call = .endCluster ∧ addresses = true := by
  obtain ⟨inCluster, rfl, rfl, -⟩ := inside
  cases call <;> simp_all [WriterCall.inTurn]

/-- **One more call** that returns OK. -/
theorem step (progress : Progress env build w₀ calls w)
    (ok : call.outcome env build w = (none, w')) : Progress env build w₀ (calls ++ [call]) w' := by
  have turn := WriterCall.inTurn_of_ok ok
  cases progress with
  | @between jobs w wrote outside fresh =>
      cases call with
      | beginCluster clusterId numRecords centroid epsilon =>
          exact @begun env build w₀ jobs
            ⟨clusterId, numRecords, epsilon, centroid, [], .v2RawTable 0 [] 0⟩ w w' wrote fresh ok
      | finalize path => exact .finalized wrote ok
      | writeVectors codes => simp [WriterCall.inTurn, outside] at turn
      | writeAddressBlocks column => simp [WriterCall.inTurn, outside] at turn
      | endCluster => simp [WriterCall.inTurn, outside] at turn
  | @begun jobs job v w wrote fresh begins =>
      rcases turn_inside (inside_begun fresh begins) turn with
        ⟨codes, rfl, -⟩ | ⟨column, rfl, none, -⟩ | ⟨rfl, none⟩
      · rw [List.append_assoc]
        exact @vectored env build w₀ jobs { job with codes := codes } v w w' wrote fresh begins ok
      · cases none
      · cases none
  | @vectored jobs job v u w wrote fresh begins vectors =>
      rcases turn_inside (inside_vectored (inside_begun fresh begins) vectors) turn with
        ⟨codes, rfl, none⟩ | ⟨column, rfl, -⟩ | ⟨rfl, none⟩
      · cases none
      · rw [List.append_assoc]
        exact @addressed env build w₀ jobs { job with column := column } v u w w' wrote fresh begins
          vectors ok
      · cases none
  | @addressed jobs job v u t w wrote fresh begins vectors addresses =>
      have inside := inside_addressed
        (inside_vectored (inside_begun fresh begins) vectors) addresses
      rcases turn_inside inside turn with
        ⟨codes, rfl, none⟩ | ⟨column, rfl, -, none⟩ | ⟨rfl, -⟩
      · cases none
      · cases none
      · have whole : v.writeCluster env build job = (none, w') := by
          rw [writeCluster, begins]
          refine Outcome.andThen_run ?_ |>.trans ok
          exact (Outcome.andThen_run vectors).trans addresses
        have calls : (jobs ++ [job]).flatMap WriterCall.ofJob =
            jobs.flatMap WriterCall.ofJob ++ (WriterCall.ofJob job).take 3 ++ [.endCluster] := by
          rw [List.flatMap_append, List.flatMap_singleton, List.append_assoc]
          rfl
        obtain ⟨-, -, -, -, rfl⟩ := endCluster_ok ok
        rw [← calls]
        exact .between ((writeClusters_snoc wrote).trans whole) rfl inside.fresh
  | finalized wrote ends =>
      obtain ⟨-, -, -, rfl⟩ := finalize_ok ends
      cases call <;> simp [WriterCall.inTurn] at turn

/-- A run of calls that return OK. -/
theorem run (progress : Progress env build w₀ calls w) {more : List WriterCall}
    (ran : Theory.run (WriterCall.accepted env build) w more = some w') :
    Progress env build w₀ (calls ++ more) w' := by
  induction more generalizing calls w with
  | nil =>
      obtain rfl := Option.some.inj ran
      rwa [List.append_nil]
  | cons call more ih =>
      obtain ⟨next, stepped, rest⟩ := Option.bind_eq_some_iff.1 ran
      rw [List.append_cons]
      exact ih (progress.step (WriterCall.accepted_iff.1 stepped)) rest

end Progress

end Runs

section Sessions

variable {env : Option ℤ} {build : Build} {numClusters dim : UInt32} {config : StoreConfig}
variable {room : Option ℕ} {w₀ w : ClusterStoreWriter}

/-- What the calls that returned OK are: whole clusters, and the beginning of one more or the end
of the file. -/
def InOrder (env : Option ℤ) (build : Build) (numClusters dim : UInt32) (config : StoreConfig)
    (room : Option ℕ) (calls : List WriterCall) (w : ClusterStoreWriter) : Prop :=
  ∃ jobs rest, calls = jobs.flatMap WriterCall.ofJob ++ rest ∧ jobs.length ≤ numClusters.toNat ∧
    if w.finalized then ∃ path kept, rest = [.finalize path] ∧
      writeFile env build numClusters dim config room jobs path = (none, w) ∧
      Finished env build numClusters dim config kept jobs path w
    else ∃ job, ∃ n < 4, rest = (WriterCall.ofJob job).take n

theorem Progress.inOrder {calls : List WriterCall} (progress : Progress env build w₀ calls w)
    (opens : «open» env numClusters dim config room = (none, w₀)) :
    InOrder env build numClusters dim config room calls w := by
  have start : w₀.currentClusterIndex = 0 ∧ w₀.numClusters = numClusters.toNat := by
    obtain ⟨kept, -, -, rfl⟩ := open_ok opens
    exact ⟨rfl, rfl⟩
  have few {jobs : List ClusterJob} {v : ClusterStoreWriter}
      (wrote : w₀.writeClusters env build jobs = (none, v)) : jobs.length ≤ numClusters.toNat := by
    have room := writeClusters_le wrote (by omega)
    omega
  cases progress with
  | @between jobs w wrote outside fresh =>
      refine ⟨jobs, [], (List.append_nil _).symm, few wrote, ?_⟩
      rw [if_neg (Bool.eq_false_iff.1 fresh)]
      exact ⟨⟨0, 0, 0, [], [], .v2RawTable 0 [] 0⟩, 0, by decide, rfl⟩
  | @begun jobs job v w wrote fresh begins =>
      refine ⟨jobs, _, rfl, few wrote, ?_⟩
      rw [if_neg (Bool.eq_false_iff.1 (inside_begun fresh begins).fresh)]
      exact ⟨job, 1, by decide, rfl⟩
  | @vectored jobs job v u w wrote fresh begins vectors =>
      refine ⟨jobs, _, rfl, few wrote, ?_⟩
      rw [if_neg (Bool.eq_false_iff.1 (inside_vectored (inside_begun fresh begins) vectors).fresh)]
      exact ⟨job, 2, by decide, rfl⟩
  | @addressed jobs job v u t w wrote fresh begins vectors addresses =>
      have inside := inside_addressed
        (inside_vectored (inside_begun fresh begins) vectors) addresses
      refine ⟨jobs, _, rfl, few wrote, ?_⟩
      rw [if_neg (Bool.eq_false_iff.1 inside.fresh)]
      exact ⟨job, 3, by decide, rfl⟩
  | @finalized jobs path v w wrote ends =>
      have file : writeFile env build numClusters dim config room jobs path = (none, w) := by
        rw [writeFile, Outcome.andThen_run opens, Outcome.andThen_run wrote, ends]
      obtain ⟨kept, finished⟩ := writeFile_ok file
      obtain ⟨-, -, -, rfl⟩ := finalize_ok ends
      exact ⟨jobs, _, rfl, few wrote, path, kept, rfl, file, finished⟩

/-- **Calls that all return OK** are whole clusters, and the beginning of one more or the end. -/
theorem accepted_calls (opens : «open» env numClusters dim config room = (none, w₀))
    {calls : List WriterCall} (ran : run (WriterCall.accepted env build) w₀ calls = some w) :
    InOrder env build numClusters dim config room calls w := by
  have start : Progress env build w₀ [] w₀ := by
    obtain ⟨kept, -, -, rfl⟩ := open_ok opens
    exact @Progress.between env build _ [] _ rfl rfl rfl
  exact (start.run ran).inOrder opens

/-- **Whatever is called and in whatever order**, a call out of turn is refused and changes nothing,
and the calls that return OK, if none in turn fails, write whole clusters, each in the four calls of
its own, and finalize their file or stop at one more. -/
theorem writer_sessions (opens : «open» env numClusters dim config room = (none, w₀))
    {calls : List WriterCall} (ran : run (WriterCall.attempt env build) w₀ calls = some w) :
    (∀ before call after v, calls = before ++ call :: after →
      run (WriterCall.attempt env build) w₀ before = some v →
        if call.inTurn v then ∃ v', call.outcome env build v = (none, v')
        else ∃ failure, call.outcome env build v = (some failure, v)) ∧
      run (WriterCall.accepted env build) w₀ (WriterCall.taken env build w₀ calls) = some w ∧
      InOrder env build numClusters dim config room (WriterCall.taken env build w₀ calls) w :=
  ⟨fun _ _ _ _ split there => WriterCall.session_turns ran split there, WriterCall.run_taken ran,
    accepted_calls opens (WriterCall.run_taken ran)⟩

end Sessions

/-- A cluster of one record, which the caller tries to end and to finalize too early. -/
def hastyCalls : List WriterCall :=
  [.endCluster, .beginCluster 7 1 (List.replicate 8 5) 1,
    .writeAddressBlocks (encodeRawTableV2 [⟨4096, 4096⟩] 4096),
    .writeVectors [{ code := [0x5A], norm := 1, sumX := 4 }], .endCluster,
    .writeAddressBlocks (encodeRawTableV2 [⟨4096, 4096⟩] 4096), .finalize [0x61], .endCluster,
    .finalize [0x61], .beginCluster 8 1 (List.replicate 8 5) 1]

/-- Of ten calls five return OK. -/
theorem writer_sessions_hastyCalls : ∃ w₀ w,
    «open» none 1 8 {} none = (none, w₀) ∧
      run (WriterCall.attempt none .scalar) w₀ hastyCalls = some w ∧ w.finalized = true ∧
      (WriterCall.taken none .scalar w₀ hastyCalls).length = 5 ∧
      (∃ failure, WriterCall.endCluster.outcome none .scalar w₀ = (some failure, w₀)) ∧
      InOrder none .scalar 1 8 {} none (WriterCall.taken none .scalar w₀ hastyCalls) w := by
  have status : («open» none 1 8 {} none).1 = none := by decide +kernel
  have opens : «open» none 1 8 {} none = (none, («open» none 1 8 {} none).2) := by
    rw [← status]
  have ends : (run (WriterCall.attempt none .scalar) («open» none 1 8 {} none).2 hastyCalls).map
      ClusterStoreWriter.finalized = some true := by decide +kernel
  obtain ⟨w, ran, finalized⟩ := Option.map_eq_some_iff.1 ends
  obtain ⟨turns, -, inOrder⟩ := writer_sessions opens ran
  have late : WriterCall.endCluster.inTurn («open» none 1 8 {} none).2 = false := by decide +kernel
  have five : (WriterCall.taken none .scalar («open» none 1 8 {} none).2 hastyCalls).length = 5 := by
    decide +kernel
  generalize («open» none 1 8 {} none).2 = w₀ at *
  have early := turns [] .endCluster hastyCalls.tail w₀ rfl rfl
  rw [if_neg (Bool.eq_false_iff.1 late)] at early
  exact ⟨_, w, opens, ran, finalized, five, early, inOrder⟩

end VecFetch.Storage
