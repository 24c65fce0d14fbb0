/-
# Query.Timing -- the results do not depend on when the reads finish

The order in which reads finish decides the order of the buffered candidates and of the
payload cache's updates, and which slots and buffers are reused.  Sorting by offset
erases the first, the second does not matter over distinct offsets, and nothing reads
the third: two searches that emit the same reads return the same results
(`results_independent_of_timing`).

The stale bytes of a buffer may differ from run to run, so the runs may score them
differently; only on bytes of the data file do the two distances agree.
-/
import VecFetch.Query.ShortRead

namespace VecFetch.Query

open VecFetch.Theory

set_option autoImplicit false

/-! ## The payload cache -/

section Cache

variable (vecBytes : UInt32)

/-- The payload a finished read leaves in the cache. -/
def ReadCompletion.cached? (c : ReadCompletion) : Option CachedPayload :=
  match c.io.type with
  | .vecOnly => none
  | .vecAll =>
      if vecBytes < c.io.addr.size then
        some ⟨c.buffer.bytes vecBytes.toNat (c.io.addr.size - vecBytes).toNat, c⟩
      else none
  | .payload => some ⟨c.buffer.bytes 0 c.io.readLength.toNat, c⟩

/-- What a finished read does to the cache. -/
def storePayload (cache : UInt64 → Option CachedPayload) (c : ReadCompletion) :
    UInt64 → Option CachedPayload :=
  match c.cached? vecBytes with
  | some p => Function.update cache c.io.addr.offset (some p)
  | none => cache

theorem consume_payloadCache (r : RerankConsumer) (c : ReadCompletion) :
    (QueryIo.consume vecBytes r c).payloadCache = storePayload vecBytes r.payloadCache c := by
  unfold QueryIo.consume storePayload ReadCompletion.cached?
  cases c.io.type with
  | vecOnly => rfl
  | vecAll =>
      by_cases larger : vecBytes < c.io.addr.size
      · simp [RerankConsumer.consumeAll, RerankConsumer.consumeVec, larger]
      · simp [RerankConsumer.consumeAll, RerankConsumer.consumeVec, larger]
  | payload => rfl

theorem foldl_consume_payloadCache (done : List ReadCompletion) (r : RerankConsumer) :
    (done.foldl (QueryIo.consume vecBytes) r).payloadCache =
      done.foldl (storePayload vecBytes) r.payloadCache := by
  induction done generalizing r with
  | nil => rfl
  | cons c done ih => rw [List.foldl_cons, List.foldl_cons, ih, consume_payloadCache]

theorem storePayload_comm (cache : UInt64 → Option CachedPayload) {c c' : ReadCompletion}
    (differ : c.io.addr.offset ≠ c'.io.addr.offset) :
    storePayload vecBytes (storePayload vecBytes cache c) c' =
      storePayload vecBytes (storePayload vecBytes cache c') c := by
  unfold storePayload
  cases c.cached? vecBytes with
  | none => rfl
  | some p =>
      cases c'.cached? vecBytes with
      | none => rfl
      | some p' => exact Function.update_comm differ _ _ _

/-- Over distinct offsets the order of the reads leaves no trace in the cache. -/
theorem foldl_storePayload_perm {done done' : List ReadCompletion} (perm : done.Perm done')
    (distinct : (done.map fun c => c.io.addr.offset).Nodup)
    (cache : UInt64 → Option CachedPayload) :
    done.foldl (storePayload vecBytes) cache = done'.foldl (storePayload vecBytes) cache := by
  refine perm.foldl_eq' ?_ cache
  intro c inDone c' inDone' cache
  by_cases same : c.io.addr.offset = c'.io.addr.offset
  · rw [List.inj_on_of_nodup_map distinct inDone inDone' same]
  · exact storePayload_comm vecBytes cache same

/-- No byte of a recycled buffer. -/
def Fresh (bytes : List BufferByte) : Prop := ∀ b ∈ bytes, b ≠ .stale

/-- A cached payload is of a finished read that fills it. -/
def PayloadsFresh (cache : UInt64 → Option CachedPayload) : Prop :=
  ∀ offset p, cache offset = some p → Fresh p.bytes

/-- A full read covers the bytes from `first` to its end. -/
theorem fresh_suffix {c : ReadCompletion} (full : c.full) {first len : Nat}
    (covered : first + len ≤ c.io.readLength.toNat) : Fresh (c.buffer.bytes first len) := by
  intro b mem
  obtain ⟨i, inRange, rfl⟩ := List.mem_map.1 mem
  have inLen := List.mem_range.1 inRange
  have inRead : first + i < c.res.toNat := by
    rw [full, Int.toNat_natCast]
    omega
  simp [ReadCompletion.buffer, ReadBuffer.filled, inRead]

/-- A read whose length covers the payload it may cache. -/
def CoversPayload (io : PendingIO) : Prop :=
  io.type = .vecAll → io.readLength = io.addr.size

theorem storePayload_fresh {cache : UInt64 → Option CachedPayload} {c : ReadCompletion}
    (full : c.full) (covers : CoversPayload c.io) (fresh : PayloadsFresh cache) :
    PayloadsFresh (storePayload vecBytes cache c) := by
  have cached : ∀ p, c.cached? vecBytes = some p → Fresh p.bytes := by
    intro p eq
    unfold ReadCompletion.cached? at eq
    split at eq
    · cases eq
    · rename_i type
      split at eq
      · rename_i larger
        obtain rfl := Option.some.inj eq
        refine fresh_suffix full ?_
        rw [covers type, UInt32.toNat_sub_of_le _ _ (UInt32.le_of_lt larger)]
        have := UInt32.lt_iff_toNat_lt.1 larger
        omega
      · cases eq
    · obtain rfl := Option.some.inj eq
      exact fresh_suffix full (by omega)
  unfold storePayload
  cases stored : c.cached? vecBytes with
  | none => exact fresh
  | some p =>
      intro offset p' at_offset
      dsimp only at at_offset
      by_cases same : offset = c.io.addr.offset
      · subst same
        rw [Function.update_self] at at_offset
        exact Option.some.inj at_offset ▸ cached p stored
      · rw [Function.update_of_ne same] at at_offset
        exact fresh offset p' at_offset

theorem foldl_storePayload_fresh (done : List ReadCompletion)
    {cache : UInt64 → Option CachedPayload} (full : ∀ c ∈ done, c.full)
    (covers : ∀ c ∈ done, CoversPayload c.io) (fresh : PayloadsFresh cache) :
    PayloadsFresh (done.foldl (storePayload vecBytes) cache) := by
  induction done generalizing cache with
  | nil => exact fresh
  | cons c done ih =>
      have first := storePayload_fresh vecBytes (full c List.mem_cons_self)
        (covers c List.mem_cons_self) fresh
      exact ih (fun c mem => full c (List.mem_cons_of_mem _ mem))
        (fun c mem => covers c (List.mem_cons_of_mem _ mem)) first

end Cache

/-! ## The later stages read the cache and the sorted candidates only -/

section Stages

variable (std : StdAlgo)

/-- Buffered in any order, candidates of distinct offsets are ranked in one. -/
theorem ranked_eq_of_perm {r r' : RerankConsumer}
    (perm : r.bufferedCandidates.Perm r'.bufferedCandidates)
    (distinct : (r.bufferedCandidates.map fun c => c.addr.offset).Nodup) :
    ranked std r = ranked std r' := by
  have byKey : byCandidateOffset = fun a b : BufferedCandidate =>
      decide (a.addr.offset.toNat < b.addr.offset.toNat) := by
    funext a b
    simp [byCandidateOffset, UInt64.lt_iff_toNat_lt]
  have distinctKeys : (r.bufferedCandidates.map fun c => c.addr.offset.toNat).Nodup := by
    have injective : Function.Injective UInt64.toNat := fun _ _ => UInt64.toNat_inj.1
    have := distinct.map injective
    rwa [List.map_map] at this
  unfold ranked
  rw [byKey]
  exact std.sort_eq_of_perm (fun c : BufferedCandidate => c.addr.offset.toNat) perm distinctKeys

theorem assembleResults_congr (vecBytes : UInt32) (hasPayload : Bool) {r r' : RerankConsumer}
    (same : r.payloadCache = r'.payloadCache) (results : List CollectorEntry) :
    assembleResults vecBytes hasPayload r results =
      assembleResults vecBytes hasPayload r' results := by
  induction results generalizing r r' with
  | nil => rfl
  | cons entry rest ih =>
      cases hasPayload with
      | false =>
          simp only [assembleResults, Bool.false_eq_true, if_false]
          rw [ih same]
      | true =>
          simp only [assembleResults, if_true, RerankConsumer.takePayload, same]
          congr 1
          exact ih rfl

theorem missingPayloads_congr (vecBytes : UInt32) {r r' : RerankConsumer}
    (same : r.payloadCache = r'.payloadCache) (results : List CollectorEntry) :
    missingPayloads vecBytes r results = missingPayloads vecBytes r' results := by
  simp only [missingPayloads, RerankConsumer.hasPayload, same]

/-- The distances of two runs of one query: they agree on bytes of the data file. -/
def AgreeOnFresh (distance distance' : List BufferByte → Flt) : Prop :=
  ∀ bytes, Fresh bytes → distance bytes = distance' bytes

theorem topResults_congr (env : Env) {distance distance' : List BufferByte → Flt}
    (agree : AgreeOnFresh distance distance') {e e' : SearchEnd}
    (same : ranked std e.probed.reranker = ranked std e'.probed.reranker)
    (fresh : ∀ c ∈ ranked std e.probed.reranker, Fresh c.vec) :
    topResults std env distance e = topResults std env distance' e' := by
  unfold topResults SearchEnd.results executeBuffered
  dsimp only
  rw [← same]
  congr 1
  refine List.foldl_ext _ _ _ ?_
  intro heap c mem
  rw [agree c.vec (fresh c mem)]

end Stages

/-! ## Two searches of one query -/

section TwoRuns

variable {std : StdAlgo} {env : Env}

/-- The one completion of a full read. -/
def fullRead (io : PendingIO) : ReadCompletion := ⟨io, io.readLength.toNat⟩

theorem eq_fullRead {c : ReadCompletion} (full : c.full) : c = fullRead c.io := by
  cases c with
  | mk io res =>
      rw [fullRead, ReadCompletion.mk.injEq]
      exact ⟨rfl, full⟩

/-- Full reads are determined by what was asked for. -/
theorem perm_of_full {done done' : List ReadCompletion} (full : ∀ c ∈ done, c.full)
    (full' : ∀ c ∈ done', c.full)
    (reads : (done.map ReadCompletion.io).Perm (done'.map ReadCompletion.io)) :
    done.Perm done' := by
  have asReads : ∀ {done : List ReadCompletion}, (∀ c ∈ done, c.full) →
      (done.map ReadCompletion.io).map fullRead = done := by
    intro done full
    rw [List.map_map]
    conv_rhs => rw [← List.map_id done]
    exact List.map_congr_left fun c mem => (eq_fullRead (full c mem)).symm
  have := reads.map fullRead
  rwa [asReads full, asReads full'] at this

/-- What a run of full reads at distinct offsets is, whatever the timing. -/
structure FullLog (std : StdAlgo) (env : Env) (distance : List BufferByte → Flt) (e : SearchEnd)
    (probed fetched : List ReadCompletion) : Prop where
  log : SearchLog std env distance e probed fetched
  full : ∀ c ∈ probed ++ fetched, c.full
  emitted : ∀ c ∈ probed, ReadOk env c.io ∧ env.vecBytes ≤ c.io.addr.size
  distinct : (probed.map fun c => c.io.addr.offset).Nodup
  buffered : e.probed.reranker.bufferedCandidates = probed.map (candidateOf env.vecBytes)
  cache : e.probed.reranker.payloadCache =
    probed.foldl (storePayload env.vecBytes) fun _ => none
  finalCache : e.fetched.reranker.payloadCache =
    fetched.foldl (storePayload env.vecBytes) e.probed.reranker.payloadCache

theorem SearchRun.fullLog {distance : List BufferByte → Flt} {start : QueryIo} {e : SearchEnd}
    (ran : SearchRun std env distance start e) (clean : Clean start)
    (emitted : ∀ io ∈ e.probed.prepared, ReadOk env io ∧ env.vecBytes ≤ io.addr.size)
    (distinct : (e.probed.prepared.map fun io => io.addr.offset).Nodup)
    (full : ∀ c ∈ e.fetched.finished, c.full) :
    ∃ probed fetched, FullLog std env distance e probed fetched := by
  obtain ⟨probed, fetched, log⟩ := ran.log clean
  have emitted' : ∀ c ∈ probed, ReadOk env c.io ∧ env.vecBytes ≤ c.io.addr.size := by
    intro c mem
    exact emitted c.io (log.reads.symm.subset (List.mem_map_of_mem mem))
  have isVector : ∀ c ∈ probed, c.isVector = true := by
    intro c mem
    rcases (emitted' c mem).1.2 with ⟨type, -⟩ | ⟨type, -⟩ <;> simp [ReadCompletion.isVector, type]
  refine ⟨probed, fetched, log, ?_, emitted', ?_, ?_, ?_, ?_⟩
  · rw [← log.finished]
    exact full
  · have := (log.reads.map fun io => io.addr.offset).nodup_iff.1 distinct
    rwa [List.map_map] at this
  · rw [log.buffered, List.filter_eq_self.2 isVector]
  · rw [log.probed_reranker, foldl_consume_payloadCache]
  · rw [log.fetched_cache, foldl_consume_payloadCache]
    rfl

theorem FullLog.fetched_payload {distance : List BufferByte → Flt} {e : SearchEnd}
    {probed fetched : List ReadCompletion} (ok : FullLog std env distance e probed fetched) :
    ∀ c ∈ fetched, c.io.type = .payload := by
  intro c mem
  obtain ⟨entry, -, read⟩ := List.mem_map.1
    (ok.log.fetched_reads.symm.subset (List.mem_map_of_mem mem))
  rw [← read]
  rfl

/-- Every candidate that is ranked is scored from bytes of the data file. -/
theorem FullLog.ranked_fresh {distance : List BufferByte → Flt} {e : SearchEnd}
    {probed fetched : List ReadCompletion} (ok : FullLog std env distance e probed fetched) :
    ∀ c ∈ ranked std e.probed.reranker, Fresh c.vec := by
  intro candidate mem
  have inBuffered := (ranked_perm std _).subset mem
  rw [ok.buffered] at inBuffered
  obtain ⟨c, inProbed, rfl⟩ := List.mem_map.1 inBuffered
  obtain ⟨readOk, holds⟩ := ok.emitted c inProbed
  refine fresh_of_full (ok.full c (List.mem_append_left _ inProbed)) ?_
  rcases readOk.2 with ⟨-, -, length⟩ | ⟨-, length⟩
  · rw [length]
    exact UInt32.le_iff_toNat_le.1 holds
  · rw [length]

theorem FullLog.finalCache_fresh {distance : List BufferByte → Flt} {e : SearchEnd}
    {probed fetched : List ReadCompletion} (ok : FullLog std env distance e probed fetched) :
    PayloadsFresh e.fetched.reranker.payloadCache := by
  have empty : PayloadsFresh fun _ => none := by
    intro offset p cached
    cases cached
  have covers : ∀ c ∈ probed, CoversPayload c.io := by
    intro c mem type
    rcases (ok.emitted c mem).1.2 with ⟨-, -, length⟩ | ⟨vecOnly, -⟩
    · exact length
    · rw [type] at vecOnly
      cases vecOnly
  rw [ok.finalCache, ok.cache]
  refine foldl_storePayload_fresh _ fetched (fun c mem => ok.full c (List.mem_append_right _ mem))
    ?_ (foldl_storePayload_fresh _ probed
      (fun c mem => ok.full c (List.mem_append_left _ mem)) covers empty)
  intro c mem type
  rw [ok.fetched_payload c mem] at type
  cases type

theorem FullLog.results_distinct {distance : List BufferByte → Flt} {e : SearchEnd}
    {probed fetched : List ReadCompletion} (ok : FullLog std env distance e probed fetched) :
    ((topResults std env distance e).map fun entry => entry.addr.offset).Nodup := by
  refine VecFetch.Query.results_distinct std env distance e ?_
  rw [ok.buffered, List.map_map]
  exact ok.distinct

/-- Two logs of full reads of the same records end in the same place. -/
theorem FullLog.same {distance distance' : List BufferByte → Flt} {e e' : SearchEnd}
    {probed fetched probed' fetched' : List ReadCompletion}
    (agree : AgreeOnFresh distance distance')
    (ok : FullLog std env distance e probed fetched)
    (ok' : FullLog std env distance' e' probed' fetched')
    (reads : e.probed.prepared.Perm e'.probed.prepared) :
    topResults std env distance e = topResults std env distance' e' ∧
      e.fetched.reranker.payloadCache = e'.fetched.reranker.payloadCache := by
  have probedPerm : probed.Perm probed' :=
    perm_of_full (fun c mem => ok.full c (List.mem_append_left _ mem))
      (fun c mem => ok'.full c (List.mem_append_left _ mem))
      (ok.log.reads.symm.trans (reads.trans ok'.log.reads))
  have rankedSame : ranked std e.probed.reranker = ranked std e'.probed.reranker := by
    refine ranked_eq_of_perm std ?_ ?_
    · rw [ok.buffered, ok'.buffered]
      exact probedPerm.map _
    · rw [ok.buffered, List.map_map]
      exact ok.distinct
  have topSame := topResults_congr std env agree rankedSame ok.ranked_fresh
  have cacheSame : e.probed.reranker.payloadCache = e'.probed.reranker.payloadCache := by
    rw [ok.cache, ok'.cache]
    exact foldl_storePayload_perm _ probedPerm ok.distinct _
  have fetchedPerm : fetched.Perm fetched' := by
    refine perm_of_full (fun c mem => ok.full c (List.mem_append_right _ mem))
      (fun c mem => ok'.full c (List.mem_append_right _ mem)) ?_
    refine ok.log.fetched_reads.symm.trans (.trans ?_ ok'.log.fetched_reads)
    rw [topSame, missingPayloads_congr env.vecBytes cacheSame]
  refine ⟨topSame, ?_⟩
  rw [ok.finalCache, ok'.finalCache, cacheSame]
  exact foldl_storePayload_perm _ fetchedPerm (ok.log.fetched_distinct ok.results_distinct) _

/-- **The results do not depend on I/O timing.** -/
theorem results_independent_of_timing (std : StdAlgo) (env : Env)
    (distance distance' : List BufferByte → Flt) (hasPayload : Bool) (start start' : QueryIo)
    (e e' : SearchEnd) (agree : AgreeOnFresh distance distance')
    (clean : Clean start) (clean' : Clean start')
    (ran : SearchRun std env distance start e) (ran' : SearchRun std env distance' start' e')
    (emitted : ∀ io ∈ e.probed.prepared, ReadOk env io ∧ env.vecBytes ≤ io.addr.size)
    (distinct : (e.probed.prepared.map fun io => io.addr.offset).Nodup)
    (distinct' : (e'.probed.prepared.map fun io => io.addr.offset).Nodup)
    (sameReads : ∀ io, io ∈ e.probed.prepared ↔ io ∈ e'.probed.prepared)
    (full : ∀ c ∈ e.fetched.finished, c.full) (full' : ∀ c ∈ e'.fetched.finished, c.full) :
    topResults std env distance e = topResults std env distance' e' ∧
      e.assembled std env.vecBytes env.config.topK distance hasPayload =
        e'.assembled std env.vecBytes env.config.topK distance' hasPayload ∧
      ∀ result ∈ e.assembled std env.vecBytes env.config.topK distance hasPayload,
        ∀ p, result.payload = some p → Fresh p.bytes := by
  have reads : e.probed.prepared.Perm e'.probed.prepared :=
    (List.perm_ext_iff_of_nodup distinct.of_map distinct'.of_map).2 sameReads
  obtain ⟨probed, fetched, ok⟩ := ran.fullLog clean emitted distinct full
  obtain ⟨probed', fetched', ok'⟩ := ran'.fullLog clean'
    (fun io mem => emitted io ((sameReads io).2 mem)) distinct' full'
  obtain ⟨topSame, cacheSame⟩ := ok.same agree ok' reads
  refine ⟨topSame, ?_, ?_⟩
  · unfold SearchEnd.assembled
    rw [show e.results std env.config.topK distance = e'.results std env.config.topK distance'
      from topSame]
    exact assembleResults_congr env.vecBytes hasPayload cacheSame _
  · intro result mem p attached
    obtain ⟨-, offset, cached⟩ := assembled_cached _ _ _ _ mem attached
    exact ok.finalCache_fresh offset p cached

end TwoRuns

namespace TwoOrders

/-- A record of eight bytes and one of twelve, whose last four are a payload. -/
def small : PendingIO := ⟨.vecOnly, ⟨0, 8⟩, 0, 8⟩
def large : PendingIO := ⟨.vecOnly, ⟨4096, 12⟩, 4096, 8⟩

def environment : Env := ⟨{}, .negInf, 8, false⟩

/-- Both records are as far from the query; in one of the runs stale bytes are
nearer. -/
def distance : List BufferByte → Flt := fun _ => .fin 1
def distance' : List BufferByte → Flt := fun bytes =>
  if BufferByte.stale ∈ bytes then .fin 0 else .fin 1

/-- One run reads the small record first, finished and dispatched before the large one
is prepared. -/
def probed : QueryIo :=
  (run (queryIoStep 8) {} [.prepRead small, .finishRead 0 8, .dispatch, .prepRead large,
    .finishRead 0 8, .dispatch]).getD {}

/-- The other has both in flight and the large one finishes first. -/
def probed' : QueryIo :=
  (run (queryIoStep 8) {} [.prepRead large, .prepRead small, .finishRead 0 8, .finishRead 0 8,
    .dispatch, .dispatch]).getD {}

def fetched (q : QueryIo) : QueryIo :=
  (run (queryIoStep 8) { q with reranker := { q.reranker with bufferedCandidates := [] } }
    [.prepRead (payloadRead 8 ⟨4096, 12⟩), .finishRead 0 4, .dispatch]).getD {}

def ending : SearchEnd := ⟨probed, fetched probed⟩
def ending' : SearchEnd := ⟨probed', fetched probed'⟩

theorem searchRun : SearchRun StdAlgo.reference environment distance {} ending where
  probe := ⟨[.prepRead small, .finishRead 0 8, .dispatch, .prepRead large,
    .finishRead 0 8, .dispatch], rfl⟩
  probe_drained := ⟨rfl, rfl⟩
  fetch := ⟨[.finishRead 0 4, .dispatch], by simp [QueryIoEvent.prepared?], rfl⟩
  fetch_drained := ⟨rfl, rfl⟩

theorem searchRun' : SearchRun StdAlgo.reference environment distance' {} ending' where
  probe := ⟨[.prepRead large, .prepRead small, .finishRead 0 8, .finishRead 0 8,
    .dispatch, .dispatch], rfl⟩
  probe_drained := ⟨rfl, rfl⟩
  fetch := ⟨[.finishRead 0 4, .dispatch], by simp [QueryIoEvent.prepared?], rfl⟩
  fetch_drained := ⟨rfl, rfl⟩

theorem emitted : ∀ io ∈ ending.probed.prepared,
    ReadOk environment io ∧ environment.vecBytes ≤ io.addr.size := by
  intro io mem
  rw [show ending.probed.prepared = [small, large] from rfl] at mem
  rcases List.mem_pair.1 mem with rfl | rfl
  · exact ⟨⟨rfl, .inr ⟨rfl, rfl⟩⟩, by decide⟩
  · exact ⟨⟨rfl, .inr ⟨rfl, rfl⟩⟩, by decide⟩

end TwoOrders

/-- The law on two reads that tie and finish in either order. -/
theorem results_independent_of_timing_two_orders :
    topResults StdAlgo.reference TwoOrders.environment TwoOrders.distance TwoOrders.ending =
      topResults StdAlgo.reference TwoOrders.environment TwoOrders.distance' TwoOrders.ending' :=
  (results_independent_of_timing StdAlgo.reference TwoOrders.environment TwoOrders.distance
    TwoOrders.distance' true {} {} TwoOrders.ending TwoOrders.ending'
    (by
      intro bytes fresh
      have notStale : BufferByte.stale ∉ bytes := fun mem => fresh _ mem rfl
      simp [TwoOrders.distance, TwoOrders.distance', notStale])
    FailedRead.clean FailedRead.clean TwoOrders.searchRun TwoOrders.searchRun' TwoOrders.emitted
    (by
      rw [show TwoOrders.ending.probed.prepared = [TwoOrders.small, TwoOrders.large] from rfl]
      decide)
    (by
      rw [show TwoOrders.ending'.probed.prepared = [TwoOrders.large, TwoOrders.small] from rfl]
      decide)
    (by
      intro io
      rw [show TwoOrders.ending.probed.prepared = [TwoOrders.small, TwoOrders.large] from rfl,
        show TwoOrders.ending'.probed.prepared = [TwoOrders.large, TwoOrders.small] from rfl]
      simp [or_comm])
    (by
      rw [show TwoOrders.ending.fetched.finished =
        [⟨TwoOrders.small, 8⟩, ⟨TwoOrders.large, 8⟩, ⟨payloadRead 8 ⟨4096, 12⟩, 4⟩] from rfl]
      decide)
    (by
      rw [show TwoOrders.ending'.fetched.finished =
        [⟨TwoOrders.large, 8⟩, ⟨TwoOrders.small, 8⟩, ⟨payloadRead 8 ⟨4096, 12⟩, 4⟩] from rfl]
      decide)).1

end VecFetch.Query
