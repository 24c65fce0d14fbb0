/-
# Query.ShortRead -- when no failed or short read becomes a result

`DispatchCompletion` does not look at the completion's result, so a read that failed
is consumed like one that succeeded: its candidate is scored from whatever the
recycled buffer held.  The results are sound exactly when no read fails
(`only_full_reads_iff`).
-/
import VecFetch.Query.Slots
import VecFetch.Query.Ledger

namespace VecFetch.Query

open VecFetch.Theory

set_option autoImplicit false

/-! ## The consumer over the finished reads -/

section Consume

variable {vecBytes : UInt32}

/-- The candidate a finished read buffers. -/
def candidateOf (vecBytes : UInt32) (c : ReadCompletion) : BufferedCandidate :=
  ⟨c.io.addr, c.buffer.bytes 0 vecBytes.toNat, c⟩

/-- The reads that bring a vector. -/
def ReadCompletion.isVector (c : ReadCompletion) : Bool := decide (c.io.type ≠ .payload)

/-- What one read does to the consumer. -/
theorem consume_buffered (r : RerankConsumer) (c : ReadCompletion) :
    (QueryIo.consume vecBytes r c).bufferedCandidates =
      r.bufferedCandidates ++ if c.isVector then [candidateOf vecBytes c] else [] := by
  unfold QueryIo.consume ReadCompletion.isVector
  split
  · rename_i type
    simp [type, RerankConsumer.consumeVec, candidateOf]
  · rename_i type
    simp only [type, RerankConsumer.consumeAll]
    split <;> simp [RerankConsumer.consumeVec, candidateOf]
  · rename_i type
    simp [type, RerankConsumer.consumePayload]

theorem foldl_consume_buffered (done : List ReadCompletion) (r : RerankConsumer) :
    (done.foldl (QueryIo.consume vecBytes) r).bufferedCandidates =
      r.bufferedCandidates ++ (done.filter ReadCompletion.isVector).map (candidateOf vecBytes) := by
  induction done generalizing r with
  | nil => simp
  | cons c done ih =>
      rw [List.foldl_cons, ih, consume_buffered, List.filter_cons]
      split <;> simp

/-- A read touches the cache at its own offset only, with itself as the origin. -/
theorem consume_cache (vecBytes : UInt32) (r : RerankConsumer) (c : ReadCompletion) (offset : UInt64) :
    (QueryIo.consume vecBytes r c).payloadCache offset = r.payloadCache offset ∨
      c.io.addr.offset = offset ∧
        ∃ p, (QueryIo.consume vecBytes r c).payloadCache offset = some p ∧ p.origin = c := by
  unfold QueryIo.consume
  split
  · exact .inl rfl
  · simp only [RerankConsumer.consumeAll]
    split
    · by_cases same : offset = c.io.addr.offset
      · subst same
        exact .inr ⟨rfl, _, Function.update_self .., rfl⟩
      · exact .inl (Function.update_of_ne same ..)
    · exact .inl rfl
  · by_cases same : offset = c.io.addr.offset
    · subst same
      exact .inr ⟨rfl, _, Function.update_self .., rfl⟩
    · exact .inl (Function.update_of_ne same ..)

theorem consume_payload_cached (r : RerankConsumer) {c : ReadCompletion}
    (payload : c.io.type = .payload) :
    ∃ p, (QueryIo.consume vecBytes r c).payloadCache c.io.addr.offset = some p ∧ p.origin = c := by
  simp only [QueryIo.consume, payload]
  exact ⟨_, Function.update_self .., rfl⟩

/-- What is cached was cached before or comes from one of the reads. -/
theorem foldl_consume_origin (done : List ReadCompletion) (r : RerankConsumer) {offset : UInt64}
    {p : CachedPayload}
    (cached : (done.foldl (QueryIo.consume vecBytes) r).payloadCache offset = some p) :
    r.payloadCache offset = some p ∨ p.origin ∈ done := by
  induction done generalizing r with
  | nil => exact .inl cached
  | cons c done ih =>
      rcases ih _ cached with before | inDone
      · rcases consume_cache vecBytes r c offset with same | ⟨-, p', at_offset, origin⟩
        · exact .inl (same ▸ before)
        · rw [at_offset] at before
          obtain rfl := Option.some.inj before
          exact .inr (origin ▸ List.mem_cons_self)
      · exact .inr (List.mem_cons_of_mem _ inDone)

theorem foldl_consume_other (done : List ReadCompletion) (r : RerankConsumer) {offset : UInt64}
    (other : ∀ c ∈ done, c.io.addr.offset ≠ offset) :
    (done.foldl (QueryIo.consume vecBytes) r).payloadCache offset = r.payloadCache offset := by
  induction done generalizing r with
  | nil => rfl
  | cons c done ih =>
      rw [List.foldl_cons, ih _ fun c' mem => other c' (List.mem_cons_of_mem _ mem)]
      rcases consume_cache vecBytes r c offset with same | ⟨here, -⟩
      · exact same
      · exact absurd here (other c List.mem_cons_self)

/-- Over distinct offsets, a payload read is what the cache holds at its offset. -/
theorem foldl_consume_payload (vecBytes : UInt32) (done : List ReadCompletion) (r : RerankConsumer)
    (distinct : (done.map fun c => c.io.addr.offset).Nodup) {c : ReadCompletion} (mem : c ∈ done)
    (payload : c.io.type = .payload) :
    ∃ p, (done.foldl (QueryIo.consume vecBytes) r).payloadCache c.io.addr.offset = some p ∧
      p.origin = c := by
  induction done generalizing r with
  | nil => cases mem
  | cons first done ih =>
      rw [List.map_cons, List.nodup_cons] at distinct
      rcases List.mem_cons.1 mem with rfl | inRest
      · rw [List.foldl_cons, foldl_consume_other done _ fun c' inRest same =>
          distinct.1 (List.mem_map.2 ⟨c', inRest, same⟩)]
        exact consume_payload_cached r payload
      · exact ih _ distinct.2 inRest

end Consume

/-! ## The results -/

section Results

variable (std : StdAlgo)

theorem ranked_perm (r : RerankConsumer) : (ranked std r).Perm r.bufferedCandidates := by
  have order : StrictWeakOn byCandidateOffset r.bufferedCandidates := by
    have key : byCandidateOffset = fun a b : BufferedCandidate =>
        decide (a.addr.offset.toNat < b.addr.offset.toNat) := by
      funext a b
      simp [byCandidateOffset, UInt64.lt_iff_toNat_lt]
    rw [key]
    exact strictWeakOn_of_key (fun c : BufferedCandidate => c.addr.offset.toNat) _
  exact (std.sort_spec order).2

/-- The results are addresses of buffered candidates, each once. -/
theorem results_addr (topK : UInt32) (distance : List BufferByte → Flt) (e : SearchEnd) :
    ∃ dropped, (((e.results std topK distance).map CollectorEntry.addr) ++ dropped).Perm
      (e.probed.reranker.bufferedCandidates.map BufferedCandidate.addr) := by
  obtain ⟨dropped, perm⟩ := StdAlgo.foldl_addBounded_perm std CollectorEntry.lt
    topK.toNat ((ranked std e.probed.reranker).map fun c => ⟨distance c.vec, c.addr⟩) []
  rw [List.foldl_map, List.nil_append] at perm
  refine ⟨dropped.map CollectorEntry.addr, ?_⟩
  rw [← List.map_append]
  calc ((e.results std topK distance ++ dropped).map CollectorEntry.addr)
    _ |>.Perm (((ranked std e.probed.reranker).map fun c =>
          (⟨distance c.vec, c.addr⟩ : CollectorEntry)).map CollectorEntry.addr) :=
        ((((List.reverse_perm _).trans (StdAlgo.drain_perm rfl)).append_right dropped).trans
          perm).map _
    _ |>.Perm (e.probed.reranker.bufferedCandidates.map BufferedCandidate.addr) := by
        rw [List.map_map]
        exact (ranked_perm std e.probed.reranker).map _

/-- An attached payload was in the cache. -/
theorem assembled_cached (vecBytes : UInt32) (hasPayload : Bool) (results : List CollectorEntry)
    (r : RerankConsumer) {result : SearchResult} {p : CachedPayload}
    (mem : result ∈ assembleResults vecBytes hasPayload r results)
    (attached : result.payload = some p) :
    hasPayload = true ∧ ∃ offset, r.payloadCache offset = some p := by
  induction results generalizing r with
  | nil => cases mem
  | cons entry rest ih =>
      unfold assembleResults at mem
      split at mem
      · rename_i columns
        rcases List.mem_cons.1 mem with rfl | inRest
        · dsimp only at attached
          split at attached
          · exact ⟨columns, _, attached⟩
          · cases attached
        · obtain ⟨-, offset, cached⟩ := ih _ inRest
          refine ⟨columns, offset, ?_⟩
          simp only [Function.update_apply] at cached
          split at cached
          · cases cached
          · exact cached
      · rcases List.mem_cons.1 mem with rfl | inRest
        · cases attached
        · exact ih _ inRest

/-- Over distinct offsets, what the cache holds for a result is attached to it. -/
theorem cached_assembled (vecBytes : UInt32) (results : List CollectorEntry) (r : RerankConsumer)
    (distinct : (results.map fun entry => entry.addr.offset).Nodup) {entry : CollectorEntry}
    (mem : entry ∈ results) (larger : vecBytes < entry.addr.size) {p : CachedPayload}
    (cached : r.payloadCache entry.addr.offset = some p) :
    ∃ result ∈ assembleResults vecBytes true r results, result.payload = some p := by
  induction results generalizing r with
  | nil => cases mem
  | cons first rest ih =>
      rw [List.map_cons, List.nodup_cons] at distinct
      simp only [assembleResults, if_true]
      rcases List.mem_cons.1 mem with rfl | inRest
      · refine ⟨_, List.mem_cons_self, ?_⟩
        simp only [larger, if_true, RerankConsumer.takePayload]
        exact cached
      · have differs : entry.addr.offset ≠ first.addr.offset := fun same =>
          distinct.1 (List.mem_map.2 ⟨entry, inRest, same⟩)
        obtain ⟨result, inResults, attached⟩ := ih (r.takePayload first.addr.offset).2 distinct.2
          inRest (by simpa [RerankConsumer.takePayload, Function.update_of_ne differs] using cached)
        exact ⟨result, List.mem_cons_of_mem _ inResults, attached⟩

end Results

/-! ## A search from its reads to its results -/

section Search

variable (std : StdAlgo) (env : Env) (distance : List BufferByte → Flt) (hasPayload : Bool)

/-- The state a search starts from: every slot free, nothing read yet. -/
structure Clean (q : QueryIo) : Prop where
  slots : q.SlotsOk
  idle : q.drained
  prepared : q.prepared = []
  finished : q.finished = []
  reranker : q.reranker = {}

/-- The search's results before payloads. -/
def topResults (e : SearchEnd) : List CollectorEntry := e.results std env.config.topK distance

/-- The state in which the missing payloads are fetched. -/
def afterRerank (e : SearchEnd) : QueryIo :=
  { e.probed with
    reranker := (executeBuffered std env.config.topK distance e.probed.reranker []).2 }

/-- A search's reads: any events while probing, until the final drain leaves nothing
with the reader; then the missing payloads, until nothing is left again. -/
structure SearchRun (start : QueryIo) (e : SearchEnd) : Prop where
  probe : ∃ events, run (queryIoStep env.vecBytes) start events = some e.probed
  probe_drained : e.probed.drained
  fetch : ∃ events, (∀ event ∈ events, QueryIoEvent.prepared? event = none) ∧
    run (queryIoStep env.vecBytes) (afterRerank std env distance e)
      ((missingPayloads env.vecBytes e.probed.reranker (topResults std env distance e)).map
        .prepRead ++ events) = some e.fetched
  fetch_drained : e.fetched.drained

/-- What is ranked and what is attached comes from full reads, and no stale byte is
scored. -/
structure OnlyFullReads (e : SearchEnd) : Prop where
  ranked_full : ∀ c ∈ ranked std e.probed.reranker,
    c.origin ∈ e.fetched.finished ∧ c.origin.io.addr = c.addr ∧ c.origin.full ∧
      ∀ b ∈ c.vec, b ≠ .stale
  attached_full : ∀ result ∈ e.assembled std env.vecBytes env.config.topK distance hasPayload,
    ∀ p, result.payload = some p → p.origin ∈ e.fetched.finished ∧ p.origin.full

/-- Every vector read of the search returned all it was asked for and, if the index has
payload columns, so did every payload read. -/
def EveryReadFull (e : SearchEnd) : Prop :=
  ∀ c ∈ e.fetched.finished, (c.isVector = true ∨ hasPayload = true) → c.full

/-- A full read covers the bytes that are scored. -/
theorem fresh_of_full {c : ReadCompletion} (full : c.full) {len : Nat}
    (covered : len ≤ c.io.readLength.toNat) : ∀ b ∈ c.buffer.bytes 0 len, b ≠ .stale := by
  intro b mem
  obtain ⟨i, inRange, rfl⟩ := List.mem_map.1 mem
  have inLen := List.mem_range.1 inRange
  have : i < c.res.toNat := by
    rw [full, Int.toNat_natCast]
    omega
  simp [ReadCompletion.buffer, ReadBuffer.filled, this]

/-- What a search's reads amount to: the vector reads `probed`, the payload reads
`fetched`, and the consumer's view of both. -/
structure SearchLog (e : SearchEnd) (probed fetched : List ReadCompletion) : Prop where
  finished : e.fetched.finished = probed ++ fetched
  reads : e.probed.prepared.Perm (probed.map ReadCompletion.io)
  probed_reranker : e.probed.reranker = probed.foldl (QueryIo.consume env.vecBytes) {}
  buffered : e.probed.reranker.bufferedCandidates =
    (probed.filter ReadCompletion.isVector).map (candidateOf env.vecBytes)
  probed_cache : ∀ offset p, e.probed.reranker.payloadCache offset = some p → p.origin ∈ probed
  fetched_reads : (missingPayloads env.vecBytes e.probed.reranker
    (topResults std env distance e)).Perm (fetched.map ReadCompletion.io)
  fetched_cache : e.fetched.reranker =
    fetched.foldl (QueryIo.consume env.vecBytes) (afterRerank std env distance e).reranker

variable {std env distance hasPayload}

theorem SearchRun.log {start : QueryIo} {e : SearchEnd} (ran : SearchRun std env distance start e)
    (clean : Clean start) :
    ∃ probed fetched, SearchLog std env distance e probed fetched := by
  obtain ⟨events, probe⟩ := ran.probe
  obtain ⟨probed, slots, finished, reranker, prepared, reads⟩ :=
    QueryIo.drained_run clean.slots clean.idle probe ran.probe_drained
  obtain ⟨later, quiet, fetch⟩ := ran.fetch
  have resumed : (afterRerank std env distance e).SlotsOk :=
    ⟨slots.reading, slots.completed, slots.distinct, slots.free, slots.free_distinct⟩
  obtain ⟨fetched, -, finished', reranker', -, reads'⟩ :=
    QueryIo.drained_run resumed ran.probe_drained fetch ran.fetch_drained
  have noLater : later.filterMap QueryIoEvent.prepared? = [] :=
    List.filterMap_eq_nil_iff.2 quiet
  have preps : ∀ ios : List PendingIO,
      (ios.map QueryIoEvent.prepRead).filterMap QueryIoEvent.prepared? = ios := by
    intro ios
    rw [List.filterMap_map]
    exact List.filterMap_some
  rw [List.filterMap_append, noLater, List.append_nil, preps] at reads'
  refine ⟨probed, fetched, ?_, ?_, by rw [reranker, clean.reranker], ?_, ?_, reads', reranker'⟩
  · rw [finished']
    change e.probed.finished ++ fetched = _
    rw [finished, clean.finished, List.nil_append]
  · rw [prepared, clean.prepared, List.nil_append]
    exact reads
  · rw [reranker, foldl_consume_buffered, clean.reranker]
    rfl
  · intro offset p cached
    rw [reranker] at cached
    rcases foldl_consume_origin probed _ cached with before | inProbed
    · rw [clean.reranker] at before
      cases before
    · exact inProbed

theorem results_distinct (std : StdAlgo) (env : Env) (distance : List BufferByte → Flt)
    (e : SearchEnd)
    (distinct : (e.probed.reranker.bufferedCandidates.map fun c => c.addr.offset).Nodup) :
    ((topResults std env distance e).map fun entry => entry.addr.offset).Nodup := by
  obtain ⟨dropped, perm⟩ := results_addr std env.config.topK distance e
  have := (perm.map AddressEntry.offset).nodup_iff.2 (by simpa [Function.comp_def] using distinct)
  rw [List.map_append, List.nodup_append, List.map_map] at this
  exact this.1

/-- The payload reads are of distinct records. -/
theorem SearchLog.fetched_distinct {e : SearchEnd} {probed fetched : List ReadCompletion}
    (log : SearchLog std env distance e probed fetched)
    (distinct : ((topResults std env distance e).map fun entry => entry.addr.offset).Nodup) :
    (fetched.map fun c => c.io.addr.offset).Nodup := by
  have perm := log.fetched_reads.map fun io => io.addr.offset
  rw [List.map_map] at perm
  refine perm.nodup_iff.1 ?_
  rw [missingPayloads, List.map_map]
  exact distinct.sublist (List.filter_sublist.map _)

/-- **Only full reads become results exactly when every read is full.** -/
theorem only_full_reads_iff (std : StdAlgo) (env : Env) (distance : List BufferByte → Flt)
    (hasPayload : Bool) (start : QueryIo) (e : SearchEnd) (clean : Clean start)
    (ran : SearchRun std env distance start e)
    (emitted : ∀ io ∈ e.probed.prepared, ReadOk env io ∧ env.vecBytes ≤ io.addr.size)
    (distinct : (e.probed.prepared.map fun io => io.addr.offset).Nodup) :
    OnlyFullReads std env distance hasPayload e ↔ EveryReadFull hasPayload e := by
  obtain ⟨probed, fetched, log⟩ := ran.log clean
  have isVector : ∀ c ∈ probed, c.isVector = true := by
    intro c mem
    obtain ⟨readOk, -⟩ := emitted c.io (log.reads.symm.subset (List.mem_map_of_mem mem))
    rcases readOk.2 with ⟨type, -⟩ | ⟨type, -⟩ <;> simp [ReadCompletion.isVector, type]
  have covered : ∀ c ∈ probed, env.vecBytes.toNat ≤ c.io.readLength.toNat := by
    intro c mem
    obtain ⟨readOk, holds⟩ := emitted c.io (log.reads.symm.subset (List.mem_map_of_mem mem))
    rcases readOk.2 with ⟨-, -, length⟩ | ⟨-, length⟩
    · rw [length]
      exact UInt32.le_iff_toNat_le.1 holds
    · rw [length]
  have isPayload : ∀ c ∈ fetched, c.io.type = .payload := by
    intro c mem
    obtain ⟨entry, -, read⟩ := List.mem_map.1
      (log.fetched_reads.symm.subset (List.mem_map_of_mem mem))
    rw [← read]
    rfl
  have buffered : e.probed.reranker.bufferedCandidates =
      probed.map (candidateOf env.vecBytes) := by
    rw [log.buffered, List.filter_eq_self.2 isVector]
  constructor
  · intro sound c mem wanted
    rw [log.finished] at mem
    rcases List.mem_append.1 mem with inProbed | inFetched
    · have inRanked : candidateOf env.vecBytes c ∈ ranked std e.probed.reranker := by
        refine (ranked_perm std _).symm.subset ?_
        rw [buffered]
        exact List.mem_map_of_mem inProbed
      exact (sound.ranked_full _ inRanked).2.2.1
    · have payload := isPayload c inFetched
      have columns : hasPayload = true := by
        simpa [ReadCompletion.isVector, payload] using wanted
      obtain ⟨entry, inMissing, read⟩ := List.mem_map.1
        (log.fetched_reads.symm.subset (List.mem_map_of_mem inFetched))
      obtain ⟨inResults, missing⟩ := List.mem_filter.1 inMissing
      simp only [Bool.and_eq_true, decide_eq_true_eq] at missing
      have resultsDistinct := results_distinct std env distance e (by
        have := (log.reads.map fun io => io.addr.offset).nodup_iff.1 distinct
        rw [buffered, List.map_map]
        rwa [List.map_map] at this)
      have offset : c.io.addr.offset = entry.addr.offset := by rw [← read]; rfl
      obtain ⟨p, cached, origin⟩ := foldl_consume_payload env.vecBytes fetched
        (afterRerank std env distance e).reranker
        (log.fetched_distinct resultsDistinct) inFetched payload
      rw [offset, ← log.fetched_cache] at cached
      obtain ⟨result, assembled, attached⟩ := cached_assembled env.vecBytes _ _ resultsDistinct
        inResults missing.2 cached
      have := sound.attached_full result (by rw [columns]; exact assembled) p attached
      exact origin ▸ this.2
  · intro full
    refine ⟨fun c mem => ?_, fun result mem p attached => ?_⟩
    · have inBuffered := (ranked_perm std _).subset mem
      rw [buffered] at inBuffered
      obtain ⟨read, inProbed, rfl⟩ := List.mem_map.1 inBuffered
      have finished : read ∈ e.fetched.finished := by
        rw [log.finished]
        exact List.mem_append_left _ inProbed
      have readFull := full read finished (.inl (isVector read inProbed))
      exact ⟨finished, rfl, readFull, fresh_of_full readFull (covered read inProbed)⟩
    · obtain ⟨columns, offset, cached⟩ := assembled_cached _ _ _ _ mem attached
      rw [log.fetched_cache] at cached
      have origin : p.origin ∈ e.fetched.finished := by
        rw [log.finished]
        rcases foldl_consume_origin fetched _ cached with before | inFetched
        · exact List.mem_append_left _ (log.probed_cache offset p before)
        · exact List.mem_append_right _ inFetched
      exact ⟨origin, full _ origin (.inr columns)⟩

end Search

namespace FailedRead

/-- One vector of eight bytes, in a record of its own. -/
def read : PendingIO := ⟨.vecOnly, ⟨0, 8⟩, 0, 8⟩

def environment : Env := ⟨{}, .negInf, 8, false⟩

/-- The read is prepared, finishes with `res` and is dispatched. -/
def events (res : Int) : List QueryIoEvent := [.prepRead read, .finishRead 0 res, .dispatch]

def probed (res : Int) : QueryIo := (run (queryIoStep 8) {} (events res)).getD {}

def distance : List BufferByte → Flt := fun _ => .fin 0

def ending (res : Int) : SearchEnd :=
  ⟨probed res, { probed res with reranker := { (probed res).reranker with bufferedCandidates := [] } }⟩

theorem clean : Clean {} :=
  ⟨⟨by simp, by simp, by simp, by simp, by simp⟩, ⟨rfl, rfl⟩, rfl, rfl, rfl⟩

theorem searchRun (res : Int) :
    SearchRun StdAlgo.reference environment distance {} (ending res) where
  probe := ⟨events res, rfl⟩
  probe_drained := ⟨rfl, rfl⟩
  fetch := ⟨[], by simp, rfl⟩
  fetch_drained := ⟨rfl, rfl⟩

theorem emitted (res : Int) : ∀ io ∈ (ending res).probed.prepared,
    ReadOk environment io ∧ environment.vecBytes ≤ io.addr.size := by
  intro io mem
  rw [show (ending res).probed.prepared = [read] from rfl, List.mem_singleton] at mem
  subst mem
  exact ⟨⟨rfl, .inr ⟨rfl, rfl⟩⟩, by decide⟩

theorem distinct (res : Int) :
    ((ending res).probed.prepared.map fun io => io.addr.offset).Nodup := by
  rw [show (ending res).probed.prepared = [read] from rfl]
  simp

end FailedRead

/-- The law on a search whose one read is full. -/
theorem only_full_reads_iff_one_read :
    OnlyFullReads StdAlgo.reference FailedRead.environment FailedRead.distance true
      (FailedRead.ending 8) ↔ EveryReadFull true (FailedRead.ending 8) :=
  only_full_reads_iff StdAlgo.reference FailedRead.environment FailedRead.distance true {}
    (FailedRead.ending 8) FailedRead.clean (FailedRead.searchRun 8) (FailedRead.emitted 8)
    (FailedRead.distinct 8)

/-- A read that fails with `EIO` is scored from stale bytes and becomes the result. -/
theorem failed_read_is_a_result :
    SearchRun StdAlgo.reference FailedRead.environment FailedRead.distance {}
        (FailedRead.ending (-5)) ∧
      (topResults StdAlgo.reference FailedRead.environment FailedRead.distance
        (FailedRead.ending (-5))).map CollectorEntry.addr = [FailedRead.read.addr] ∧
      (ranked StdAlgo.reference (FailedRead.ending (-5)).probed.reranker).map
        BufferedCandidate.vec = [List.replicate 8 .stale] ∧
      ¬ OnlyFullReads StdAlgo.reference FailedRead.environment FailedRead.distance true
        (FailedRead.ending (-5)) := by
  refine ⟨FailedRead.searchRun (-5), rfl, rfl, fun sound => ?_⟩
  obtain ⟨-, -, full, -⟩ := sound.ranked_full
    (candidateOf 8 ⟨FailedRead.read, -5⟩) List.mem_cons_self
  exact absurd full (by decide)

end VecFetch.Query
