/-
# Query.Payloads -- the payload a search returns against the stored payload

A result's payload was copied out of a whole-record read, or fetched by a read of its
own; either way the bytes are the record's from the end of its vector on, and parsing them
gives what `ReadRecord` gives at the record's address (`deliversStored_iff`).  That fails
for a record of `2 ^ 32` bytes or more, whose size is cut, and for a read that is longer
than any buffer the pool can give out.
-/
import VecFetch.Query.ShortRead
import VecFetch.Query.Buffers
import VecFetch.Storage.DataFileRoundTrip

namespace VecFetch.Query

open VecFetch.Theory VecFetch.Storage

set_option autoImplicit false

/-! ## What is delivered -/

/-- The byte a buffer holds: one of the file, or `old`, whatever was there before. -/
def BufferByte.value (file : List UInt8) (old : UInt8) : BufferByte → UInt8
  | .stale => old
  | .file position => file.getD position 0

/-- The buffer that was acquired for a read holds all of it: no capacity does beyond
`2 ^ 32 - 4096` bytes. -/
def ReadCompletion.InBuffer (c : ReadCompletion) : Prop :=
  c.io.readLength ≤ Buffers.BufferPool.alignedSize c.io.readLength

instance (c : ReadCompletion) : Decidable c.InBuffer := inferInstanceAs (Decidable (_ ≤ _))

/-- The payload list `AssembleResults` parses for a result; the parser's status is not
looked at. -/
def deliveredPayload (reader : DataFileReader) (old : UInt8) (vecBytes : UInt32)
    (entry : CollectorEntry) (result : SearchResult) : Result (List Datum) :=
  match result.payload with
  | none => .ok []
  | some p =>
      if p.origin.InBuffer then
        .ok (reader.parsePayload (p.bytes.map (BufferByte.value reader.file old))
          (entry.addr.size - vecBytes) 0).1
      else .error .outOfBounds

/-- The list that is delivered is the one `ReadRecord` gives. -/
def DeliversStored (reader : DataFileReader) (grant : ℕ → ℕ → ℕ) (old : UInt8)
    (vecBytes : UInt32) (entry : CollectorEntry) (result : SearchResult) : Prop :=
  ∃ vec payload, reader.readRecord grant entry.addr = .ok (vec, payload) ∧
    deliveredPayload reader old vecBytes entry result = .ok payload

/-- The record's size is not cut, and its payload's read fits its buffer. -/
structure DeliveryFits (size : ℕ) (result : SearchResult) : Prop where
  size : size < 2 ^ 32
  buffer : ∀ p, result.payload = some p → p.origin.InBuffer

/-! ## The cache -/

section Cache

variable {vecBytes : UInt32}

/-- The payload bytes a read leaves in the cache. -/
def cachedBytes (vecBytes : UInt32) (c : ReadCompletion) : List BufferByte :=
  match c.io.type with
  | .vecOnly => []
  | .vecAll => c.buffer.bytes vecBytes.toNat (c.io.addr.size - vecBytes).toNat
  | .payload => c.buffer.bytes 0 c.io.readLength.toNat

theorem consume_cached (r : RerankConsumer) (c : ReadCompletion) {offset : UInt64}
    {p : CachedPayload} (cached : (QueryIo.consume vecBytes r c).payloadCache offset = some p) :
    r.payloadCache offset = some p ∨
      c.io.addr.offset = offset ∧ c.io.type ≠ .vecOnly ∧ p = ⟨cachedBytes vecBytes c, c⟩ := by
  unfold QueryIo.consume at cached
  unfold cachedBytes
  split at cached
  · exact .inl cached
  · rename_i type
    simp only [RerankConsumer.consumeAll] at cached
    split at cached
    · simp only [Function.update_apply] at cached
      split at cached
      · rename_i here
        rw [type]
        exact .inr ⟨here.symm, by simp, (Option.some.inj cached).symm⟩
      · exact .inl cached
    · exact .inl cached
  · rename_i type
    simp only [RerankConsumer.consumePayload, Function.update_apply] at cached
    split at cached
    · rename_i here
      rw [type]
      exact .inr ⟨here.symm, by simp, (Option.some.inj cached).symm⟩
    · exact .inl cached

/-- What is cached was cached before, or is what one of the reads left. -/
theorem foldl_consume_cached (done : List ReadCompletion) (r : RerankConsumer) {offset : UInt64}
    {p : CachedPayload}
    (cached : (done.foldl (QueryIo.consume vecBytes) r).payloadCache offset = some p) :
    r.payloadCache offset = some p ∨
      ∃ c ∈ done, c.io.addr.offset = offset ∧ c.io.type ≠ .vecOnly ∧
        p = ⟨cachedBytes vecBytes c, c⟩ := by
  induction done generalizing r with
  | nil => exact .inl cached
  | cons c done ih =>
      rcases ih _ cached with before | later
      · rcases consume_cached r c before with before | here
        · exact .inl before
        · exact .inr ⟨c, List.mem_cons_self, here⟩
      · obtain ⟨c', mem, from_⟩ := later
        exact .inr ⟨c', List.mem_cons_of_mem _ mem, from_⟩

/-- Over distinct offsets each result is given what the cache holds at its offset. -/
theorem assembled_zip (vecBytes : UInt32) (hasPayload : Bool) (results : List CollectorEntry)
    (r : RerankConsumer) (distinct : (results.map fun entry => entry.addr.offset).Nodup)
    {entry : CollectorEntry} {result : SearchResult}
    (mem : (entry, result) ∈ results.zip (assembleResults vecBytes hasPayload r results)) :
    result.payload = if hasPayload = true ∧ vecBytes < entry.addr.size then
      r.payloadCache entry.addr.offset else none := by
  induction results generalizing r with
  | nil => cases mem
  | cons first rest ih =>
      rw [List.map_cons, List.nodup_cons] at distinct
      unfold assembleResults at mem
      by_cases columns : hasPayload = true
      · rw [if_pos columns] at mem
        rcases List.mem_cons.1 mem with here | inRest
        · obtain ⟨rfl, rfl⟩ := Prod.mk.inj here
          simp only [columns, true_and]
        · have inResults := (List.of_mem_zip inRest).1
          have differs : entry.addr.offset ≠ first.addr.offset := fun same =>
            distinct.1 (List.mem_map.2 ⟨entry, inResults, same⟩)
          rw [ih _ distinct.2 inRest]
          simp only [Function.update_of_ne differs]
      · rw [if_neg columns] at mem
        rw [if_neg fun both => columns both.1]
        rcases List.mem_cons.1 mem with here | inRest
        · obtain ⟨rfl, rfl⟩ := Prod.mk.inj here
          rfl
        · rw [ih _ distinct.2 inRest, if_neg fun both => columns both.1]

end Cache

/-! ## The payload of a result -/

section Search

variable {std : StdAlgo} {env : Env} {distance : List BufferByte → Flt}

/-- The read a result's payload comes from: the whole record, or the payload alone. -/
structure PayloadSource (vecBytes : UInt32) (addr : AddressEntry) (c : ReadCompletion) :
    Prop where
  record : c.io.addr = addr
  kind : c.io.type = .vecAll ∧ c.io.readOffset = addr.offset ∧ c.io.readLength = addr.size ∨
    c.io = payloadRead vecBytes addr

namespace SearchLog

variable {e : SearchEnd} {probed fetched : List ReadCompletion}

theorem probed_distinct (log : SearchLog std env distance e probed fetched)
    (distinct : (e.probed.prepared.map fun io => io.addr.offset).Nodup) :
    (probed.map fun c => c.io.addr.offset).Nodup := by
  have moved := (log.reads.map fun io => io.addr.offset).nodup_iff.1 distinct
  rwa [List.map_map] at moved

theorem probed_ok (log : SearchLog std env distance e probed fetched)
    (emitted : ∀ io ∈ e.probed.prepared, ReadOk env io) : ∀ c ∈ probed, ReadOk env c.io :=
  fun _ mem => emitted _ (log.reads.symm.subset (List.mem_map_of_mem mem))

theorem buffered_eq (log : SearchLog std env distance e probed fetched)
    (emitted : ∀ io ∈ e.probed.prepared, ReadOk env io) :
    e.probed.reranker.bufferedCandidates = probed.map (candidateOf env.vecBytes) := by
  rw [log.buffered, List.filter_eq_self.2]
  intro c mem
  rcases (log.probed_ok emitted c mem).2 with ⟨type, -⟩ | ⟨type, -⟩ <;>
    simp [ReadCompletion.isVector, type]

theorem results_distinct (log : SearchLog std env distance e probed fetched)
    (emitted : ∀ io ∈ e.probed.prepared, ReadOk env io)
    (distinct : (e.probed.prepared.map fun io => io.addr.offset).Nodup) :
    ((topResults std env distance e).map fun entry => entry.addr.offset).Nodup := by
  refine Query.results_distinct std env distance e ?_
  rw [log.buffered_eq emitted, List.map_map]
  exact log.probed_distinct distinct

end SearchLog

/-- Every result with a payload part finds it in the cache. -/
theorem SearchLog.payload {e : SearchEnd} {probed fetched : List ReadCompletion}
    (log : SearchLog std env distance e probed fetched)
    (emitted : ∀ io ∈ e.probed.prepared, ReadOk env io)
    (distinct : (e.probed.prepared.map fun io => io.addr.offset).Nodup) {entry : CollectorEntry}
    (mem : entry ∈ topResults std env distance e) (larger : env.vecBytes < entry.addr.size) :
    ∃ c ∈ e.fetched.finished, PayloadSource env.vecBytes entry.addr c ∧
      e.fetched.reranker.payloadCache entry.addr.offset =
        some ⟨cachedBytes env.vecBytes c, c⟩ := by
  have probedDistinct := log.probed_distinct distinct
  have readOk := log.probed_ok emitted
  have buffered := log.buffered_eq emitted
  have resultsDistinct := log.results_distinct emitted distinct
  -- the record was read while probing
  obtain ⟨read, inProbed, readAddr⟩ : ∃ c ∈ probed, c.io.addr = entry.addr := by
    obtain ⟨dropped, perm⟩ := results_addr std env.config.topK distance e
    have inBuffered := perm.subset (List.mem_append_left dropped (List.mem_map_of_mem mem))
    rw [buffered, List.map_map] at inBuffered
    obtain ⟨c, inProbed, same⟩ := List.mem_map.1 inBuffered
    exact ⟨c, inProbed, same⟩
  cases cached : e.probed.reranker.payloadCache entry.addr.offset with
  | some p =>
      have before := cached
      rw [log.probed_reranker] at before
      rcases foldl_consume_cached probed {} before with none | ⟨c, inProbed', offset, type, rfl⟩
      · cases none
      · -- its offset is the record's, so it is the record's read
        obtain rfl : c = read := List.inj_on_of_nodup_map probedDistinct inProbed' inProbed
          (by rw [offset, readAddr])
        refine ⟨c, ?_, ⟨readAddr, ?_⟩, ?_⟩
        · rw [log.finished]
          exact List.mem_append_left _ inProbed
        · obtain ⟨start, kind⟩ := readOk c inProbed
          rcases kind with ⟨all, -, length⟩ | ⟨only, -⟩
          · exact .inl ⟨all, by rw [start, readAddr], by rw [length, readAddr]⟩
          · exact absurd only type
        · rw [log.fetched_cache, foldl_consume_other fetched _ fun c' inFetched same => ?_]
          · exact cached
          · -- a payload that is cached is not fetched again
            obtain ⟨other, inMissing, io⟩ := List.mem_map.1
              (log.fetched_reads.symm.subset (List.mem_map_of_mem inFetched))
            obtain ⟨inResults, missing⟩ := List.mem_filter.1 inMissing
            simp only [Bool.and_eq_true, Bool.not_eq_true', RerankConsumer.hasPayload] at missing
            have sameOffset : other.addr.offset = entry.addr.offset := by
              rw [← same, ← io]
              rfl
            rw [sameOffset, cached] at missing
            cases missing.1
  | none =>
      have missing : entry ∈ (topResults std env distance e).filter fun entry =>
          !e.probed.reranker.hasPayload entry.addr.offset &&
            decide (env.vecBytes < entry.addr.size) := by
        rw [List.mem_filter]
        refine ⟨mem, ?_⟩
        simp [RerankConsumer.hasPayload, cached, larger]
      obtain ⟨c, inFetched, io⟩ := List.mem_map.1 (log.fetched_reads.subset
        (List.mem_map_of_mem missing))
      have io : c.io = payloadRead env.vecBytes entry.addr := io
      have type : c.io.type = .payload := by rw [io]; rfl
      have addr : c.io.addr = entry.addr := by rw [io]; rfl
      obtain ⟨p, at_, origin⟩ := foldl_consume_payload env.vecBytes fetched
        (afterRerank std env distance e).reranker (log.fetched_distinct resultsDistinct)
        inFetched type
      have found := at_
      rw [addr] at at_ found
      refine ⟨c, ?_, ⟨addr, .inr io⟩, ?_⟩
      · rw [log.finished]
        exact List.mem_append_right _ inFetched
      · rw [log.fetched_cache, at_]
        rcases foldl_consume_cached fetched _ found with before | ⟨c', -, -, -, rfl⟩
        · exact absurd (before.symm.trans cached) (by simp)
        · dsimp only at origin
          rw [origin]

/-- A full read's payload bytes are the file's, from the end of the vector on. -/
theorem PayloadSource.bytes {vecBytes : UInt32} {addr : AddressEntry} {c : ReadCompletion}
    (source : PayloadSource vecBytes addr c) (full : c.full) (larger : vecBytes < addr.size)
    {file : List UInt8} (small : file.length < 2 ^ 63)
    (inside : addr.offset.toNat + addr.size.toNat ≤ file.length) (old : UInt8) :
    (cachedBytes vecBytes c).map (BufferByte.value file old) =
      slice file (addr.offset.toNat + vecBytes.toNat) (addr.size.toNat - vecBytes.toNat) := by
  have below := UInt32.lt_iff_toNat_lt.1 larger
  have length : (addr.size - vecBytes).toNat = addr.size.toNat - vecBytes.toNat :=
    UInt32.toNat_sub_of_le _ _ (UInt32.le_iff_toNat_le.2 (Nat.le_of_lt below))
  have taken : ∀ first, first + (addr.size.toNat - vecBytes.toNat) ≤ c.io.readLength.toNat →
      c.io.readOffset.toNat + first = addr.offset.toNat + vecBytes.toNat →
      (c.buffer.bytes first (addr.size.toNat - vecBytes.toNat)).map (BufferByte.value file old) =
        slice file (addr.offset.toNat + vecBytes.toNat) (addr.size.toNat - vecBytes.toNat) := by
    intro first covered position
    apply List.ext_getElem
    · rw [slice_length (by omega)]
      simp [ReadBuffer.bytes]
    · intro i inBytes inSlice
      rw [slice_length (by omega)] at inSlice
      have got : first + i < c.res.toNat := by
        rw [full, Int.toNat_natCast]
        omega
      simp only [ReadBuffer.bytes, ReadCompletion.buffer, ReadBuffer.filled, List.getElem_map,
        List.getElem_range, if_pos got, BufferByte.value, slice, List.getElem_take,
        List.getElem_drop, List.getD]
      rw [← Nat.add_assoc, position, List.getElem?_eq_getElem (by omega), Option.getD_some]
  rcases source.kind with ⟨type, start, all⟩ | io
  · rw [cachedBytes, type]
    dsimp only
    rw [source.record, length]
    exact taken vecBytes.toNat (by rw [all]; omega) (by rw [start])
  · rw [cachedBytes, io]
    change (c.buffer.bytes 0 (addr.size - vecBytes).toNat).map _ = _
    rw [length]
    refine taken 0 ?_ ?_
    · rw [io]
      change 0 + _ ≤ (addr.size - vecBytes).toNat
      rw [length]
      omega
    · rw [io]
      change (addr.offset + vecBytes.toUInt64).toNat + 0 = _
      rw [UInt64.toNat_add, UInt32.toNat_toUInt64, Nat.mod_eq_of_lt (by omega), Nat.add_zero]

end Search

/-! ## The search against the data file -/

section Delivered

variable {dim : UInt32} {schemas : List ColumnSchema} {pageSize : UInt32} {record : DataRecord}

theorem datumBytes_pos (d : Datum) (schema : ColumnSchema) : 0 < (datumBytes d schema).length := by
  unfold datumBytes
  split
  · rename_i isFixed
    have size : 0 < dTypeSize schema.dtype := by simpa [dTypeIsFixedWidth] using isFixed
    have small := dTypeSize_le schema.dtype
    rw [List.length_take, Vector.length_toList]
    omega
  · dsimp only
    rw [List.length_append, leBytes_length]
    omega

/-- Where a record lies in the file, from its address. -/
theorem record_place (records : List DataRecord) (offset : ℕ) {addr : AddressEntry}
    (stored : (record, addr) ∈ records.zip (DataFileWriter.addressesFrom offset
      (records.map (recordBytes dim schemas pageSize)))) :
    record ∈ records ∧ ∃ front back, records.flatMap (recordBytes dim schemas pageSize) =
        front ++ (recordBytes dim schemas pageSize record ++ back) ∧
      addr = ⟨UInt64.ofNat (offset + front.length),
        UInt32.ofNat (recordBytes dim schemas pageSize record).length⟩ := by
  induction records generalizing offset with
  | nil => cases stored
  | cons first records ih =>
      rw [List.map_cons, DataFileWriter.addressesFrom, List.zip_cons_cons] at stored
      rw [List.flatMap_cons]
      rcases List.mem_cons.1 stored with here | later
      · obtain ⟨rfl, rfl⟩ := Prod.mk.inj here
        exact ⟨List.mem_cons_self, [], _, rfl, rfl⟩
      · obtain ⟨mem, front, back, split, place⟩ := ih _ later
        refine ⟨List.mem_cons_of_mem _ mem, recordBytes dim schemas pageSize first ++ front, back,
          by rw [split, List.append_assoc], ?_⟩
        rw [place, List.length_append, Nat.add_assoc]

/-- A record whose size is not past its vector has no payload. -/
theorem storedPayload_none (written : WrittenRecord dim schemas record)
    (none : schemas = [] ∨
      (recordBytes dim schemas pageSize record).length ≤ (vecBytesOf dim).toNat) :
    storedPayload record = [] := by
  have empty : record.payload = [] := by
    rcases none with noColumns | short
    · exact written.noColumns noColumns
    · have raw := written.raw_length
      have inside := WrittenRecord.raw_le dim schemas pageSize record
      cases columns : schemas with
      | nil => exact written.noColumns columns
      | cons schema rest =>
          cases payload : record.payload with
          | nil => rfl
          | cons d values =>
              have some := datumBytes_pos d schema
              rw [payload, columns, payloadBytes, List.length_append] at raw
              rw [columns] at inside short
              omega
  rw [storedPayload, empty, List.map_nil]

/-- What is left of a record behind its vector, as the file holds it. -/
theorem record_rest {file front back : List UInt8}
    (split : file = front ++ (recordBytes dim schemas pageSize record ++ back))
    (longer : (vecBytesOf dim).toNat ≤ (recordBytes dim schemas pageSize record).length) :
    slice file (front.length + (vecBytesOf dim).toNat)
        ((recordBytes dim schemas pageSize record).length - (vecBytesOf dim).toNat) =
      slice (recordBytes dim schemas pageSize record) (vecBytesOf dim).toNat
        ((recordBytes dim schemas pageSize record).length - (vecBytesOf dim).toNat) := by
  have here : slice file front.length (recordBytes dim schemas pageSize record).length =
      recordBytes dim schemas pageSize record := by
    rw [split, slice_append_right rfl rfl]
  have within : (vecBytesOf dim).toNat + ((recordBytes dim schemas pageSize record).length -
      (vecBytesOf dim).toNat) ≤ (recordBytes dim schemas pageSize record).length := by omega
  have inner := @slice_slice _ file front.length _ _ _ within
  rw [here] at inner
  exact inner.symm

/-- The payload is parsed from that rest. -/
theorem parse_rest (written : WrittenRecord dim schemas record) (pageSize : UInt32)
    {bufLen : UInt32} (length : bufLen.toNat =
      (recordBytes dim schemas pageSize record).length - (vecBytesOf dim).toNat) :
    DataFileReader.parseColumns (slice (recordBytes dim schemas pageSize record)
        (vecBytesOf dim).toNat
        ((recordBytes dim schemas pageSize record).length - (vecBytesOf dim).toNat))
      bufLen schemas 0 [] = (storedPayload record, .ok ()) := by
  have raw := written.raw_length
  have padded := WrittenRecord.raw_le dim schemas pageSize record
  have bufLength : (slice (recordBytes dim schemas pageSize record) (vecBytesOf dim).toNat
      ((recordBytes dim schemas pageSize record).length - (vecBytesOf dim).toNat)).length =
        bufLen.toNat := by
    rw [slice_length (by omega), length]
  refine written.parse bufLength 0 ?_ ?_
  · rw [bufLength, length]
    simp only [UInt32.reduceToNat]
    omega
  · rw [slice_slice (by simp only [UInt32.reduceToNat]; omega)]
    exact written.payload_slice pageSize

/-- **The payload list a search returns for a record is the one `ReadRecord` gives exactly
where the record's size is not cut and the read that brought the payload fits its
buffer.** -/
theorem deliversStored_iff (std : StdAlgo) (env : Env) (distance : List BufferByte → Flt)
    (start : QueryIo) (e : SearchEnd) (clean : Clean start)
    (ran : SearchRun std env distance start e)
    (emitted : ∀ io ∈ e.probed.prepared, ReadOk env io)
    (distinct : (e.probed.prepared.map fun io => io.addr.offset).Nodup)
    (full : ∀ c ∈ e.fetched.finished, c.full) (space : ℕ) (dim : UInt32)
    (schemas : List ColumnSchema) (pageSize : UInt32) (records : List DataRecord)
    (addresses : List AddressEntry) (file : List UInt8)
    (legal : ∀ record ∈ records, LegalRecord dim schemas record)
    (written : DataFileWriter.writeFile space dim schemas pageSize records =
      .ok (addresses, file))
    (vecBytes : env.vecBytes = vecBytesOf dim) (grant : ℕ → ℕ → ℕ) (old : UInt8)
    (record : DataRecord) (entry : CollectorEntry) (result : SearchResult)
    (stored : (record, entry.addr) ∈ records.zip addresses)
    (mem : (entry, result) ∈ (topResults std env distance e).zip
      (e.assembled std env.vecBytes env.config.topK distance (decide (schemas ≠ [])))) :
    DeliversStored (DataFileReader.open file dim schemas) grant old env.vecBytes entry result ↔
      DeliveryFits (recordBytes dim schemas pageSize record).length result := by
  obtain ⟨probed, fetched, log⟩ := ran.log clean
  obtain ⟨there, whole, small⟩ := DataFileWriter.writeFile_spec written
  rw [there] at stored
  obtain ⟨inRecords, front, back, split, place⟩ := record_place records 0 stored
  rw [← whole] at split
  rw [Nat.zero_add] at place
  have kept := (legal record inRecords).written
  constructor
  · intro delivers
    obtain ⟨vec, payload, read, delivered⟩ := delivers
    rw [place] at read
    refine ⟨kept.fits_of_readRecord split small read, fun p attached => ?_⟩
    rw [deliveredPayload, attached] at delivered
    dsimp only at delivered
    by_contra overran
    rw [if_neg overran] at delivered
    cases delivered
  · intro fits
    have size : entry.addr.size.toNat = (recordBytes dim schemas pageSize record).length := by
      rw [place]
      dsimp only
      rw [UInt32.toNat_ofNat', Nat.mod_eq_of_lt fits.size]
    have offset : entry.addr.offset.toNat = front.length := by
      have inside := small
      rw [split, List.length_append] at inside
      rw [place]
      dsimp only
      rw [UInt64.toNat_ofNat', Nat.mod_eq_of_lt (by omega)]
    refine ⟨_, _, by rw [place]; exact kept.readRecord grant split small fits.size, ?_⟩
    have inResults := (List.of_mem_zip mem).1
    have attached := assembled_zip env.vecBytes (decide (schemas ≠ []))
      (topResults std env distance e) e.fetched.reranker (log.results_distinct emitted distinct) mem
    by_cases wanted : schemas ≠ [] ∧ env.vecBytes < entry.addr.size
    · rw [if_pos (by simpa using wanted)] at attached
      obtain ⟨c, finished, source, cached⟩ := log.payload emitted distinct inResults wanted.2
      rw [cached] at attached
      have larger := wanted.2
      rw [vecBytes, UInt32.lt_iff_toNat_lt, size] at larger
      have inside : entry.addr.offset.toNat + entry.addr.size.toNat ≤ file.length := by
        rw [offset, size, split, List.length_append, List.length_append]
        omega
      have bytes := source.bytes (full c finished) wanted.2 small inside old
      have length : (entry.addr.size - env.vecBytes).toNat =
          (recordBytes dim schemas pageSize record).length - (vecBytesOf dim).toNat := by
        rw [UInt32.toNat_sub_of_le _ _ (UInt32.le_iff_toNat_le.2
          (Nat.le_of_lt (UInt32.lt_iff_toNat_lt.1 wanted.2))), size, vecBytes]
      rw [deliveredPayload, attached]
      dsimp only
      rw [if_pos (fits.buffer _ attached)]
      change Except.ok (DataFileReader.parseColumns ((cachedBytes env.vecBytes c).map
        (BufferByte.value file old)) (entry.addr.size - env.vecBytes) schemas 0 []).1 = _
      rw [vecBytes] at length
      rw [bytes, offset, size, vecBytes, record_rest split (Nat.le_of_lt larger),
        parse_rest kept pageSize length]
    · rw [if_neg (by simpa using wanted)] at attached
      rw [deliveredPayload, attached, storedPayload_none kept (by
        rw [not_and_or, not_not] at wanted
        refine wanted.imp_right fun short => ?_
        rw [vecBytes, UInt32.lt_iff_toNat_lt, size] at short
        exact Nat.le_of_not_lt short)]

end Delivered

namespace FetchedRecord

/-- A vector of four bytes and a number, in a record of eight bytes. -/
def record : DataRecord := ⟨[1, 2, 3, 4], [{ dtype := .int32, fixed := Datum.fixedOf [5, 6, 7, 8] }]⟩

def environment : Env := ⟨{}, .negInf, 4, false⟩

/-- The record's vector is read while probing, and its payload afterwards. -/
def events : List QueryIoEvent :=
  [.prepRead ⟨.vecOnly, ⟨0, 8⟩, 0, 4⟩, .finishRead 0 4, .dispatch]

def probed : QueryIo := (run (queryIoStep 4) {} events).getD {}

def fetched : QueryIo := (run (queryIoStep 4)
  { probed with reranker := { probed.reranker with bufferedCandidates := [] } }
  [.prepRead (payloadRead 4 ⟨0, 8⟩), .finishRead 0 4, .dispatch]).getD {}

def ending : SearchEnd := ⟨probed, fetched⟩

theorem searchRun : SearchRun StdAlgo.reference environment FailedRead.distance {} ending where
  probe := ⟨events, rfl⟩
  probe_drained := ⟨rfl, rfl⟩
  fetch := ⟨[.finishRead 0 4, .dispatch], by simp [QueryIoEvent.prepared?], rfl⟩
  fetch_drained := ⟨rfl, rfl⟩

/-- The payload that was fetched. -/
def payload : CachedPayload :=
  ⟨[.file 4, .file 5, .file 6, .file 7], ⟨payloadRead 4 ⟨0, 8⟩, 4⟩⟩

end FetchedRecord

/-- The law on a record whose payload is fetched after the rerank. -/
theorem deliversStored_iff_fetched :
    DeliversStored (DataFileReader.open [1, 2, 3, 4, 5, 6, 7, 8] 1 [⟨0, .int32⟩])
        (fun _ asked => asked) 0 4 ⟨.fin 0, ⟨0, 8⟩⟩ ⟨.fin 0, some FetchedRecord.payload⟩ ↔
      DeliveryFits (recordBytes 1 [⟨0, .int32⟩] 1 FetchedRecord.record).length
        ⟨.fin 0, some FetchedRecord.payload⟩ := by
  refine deliversStored_iff StdAlgo.reference FetchedRecord.environment FailedRead.distance {}
    FetchedRecord.ending FailedRead.clean FetchedRecord.searchRun ?_ ?_ ?_ 4096 1 [⟨0, .int32⟩] 1
    [FetchedRecord.record] [⟨0, 8⟩] [1, 2, 3, 4, 5, 6, 7, 8] ?_ rfl rfl _ 0 FetchedRecord.record
    _ _ List.mem_cons_self List.mem_cons_self
  · intro io mem
    obtain rfl := List.mem_singleton.1 mem
    exact ⟨rfl, .inr ⟨rfl, rfl⟩⟩
  · exact List.nodup_singleton _
  · intro c mem
    rcases List.mem_cons.1 mem with rfl | mem
    · exact rfl
    · obtain rfl := List.mem_singleton.1 mem
      exact rfl
  · intro record mem
    obtain rfl := List.mem_singleton.1 mem
    exact ⟨rfl, .cons rfl .nil⟩

namespace CutRecord

/-- A string of `2 ^ 32 - 7` bytes after a vector of four. -/
def record (value : List UInt8) : DataRecord :=
  ⟨[1, 2, 3, 4], [{ dtype := .string, varData := value }]⟩

variable {value : List UInt8}

/-- Padded to pages of sixteen bytes the record takes `2 ^ 32 + 16` bytes. -/
theorem bytes (long : value.length = 4294967289) :
    recordBytes 1 [⟨0, .string⟩] 16 (record value) =
      [1, 2, 3, 4, 249, 255, 255, 255] ++ (value ++ List.replicate 15 0) := by
  have columns : payloadBytes [{ dtype := .string, varData := value }] [⟨0, .string⟩] =
      [249, 255, 255, 255] ++ value := by
    have len : (UInt32.ofNat value.length).toNat = 4294967289 := by rw [long]; rfl
    change datumBytes { dtype := .string, varData := value } ⟨0, .string⟩ ++ [] = _
    rw [List.append_nil, datumBytes, if_neg (by decide)]
    dsimp only
    rw [len, ← long, List.take_length, long]
    rfl
  have raw : rawBytes 1 [⟨0, .string⟩] (record value) =
      [1, 2, 3, 4, 249, 255, 255, 255] ++ value := by
    rw [rawBytes, record, columns]
    rfl
  have length : (rawBytes 1 [⟨0, .string⟩] (record value)).length = 4294967297 := by
    rw [raw, List.length_append, long]
    rfl
  rw [recordBytes, length, raw, List.append_assoc]
  rfl

theorem length (long : value.length = 4294967289) :
    (recordBytes 1 [⟨0, .string⟩] 16 (record value)).length = 4294967312 := by
  rw [bytes long, List.length_append, List.length_append, long, List.length_replicate]
  rfl

theorem written (long : value.length = 4294967289) :
    DataFileWriter.writeFile 8589934592 1 [⟨0, .string⟩] 16 [record value] =
      .ok ([⟨0, 16⟩], recordBytes 1 [⟨0, .string⟩] 16 (record value)) := by
  rw [DataFileWriter.writeFile_ok (by simp [record]) (by
    rw [List.flatMap_singleton, length long]
    decide), List.map_singleton, List.flatMap_singleton]
  congr 3
  rw [DataFileWriter.addressesFrom, DataFileWriter.addressesFrom, length long]
  rfl

/-- The whole record is read while probing. -/
def read : PendingIO := ⟨.vecAll, ⟨0, 16⟩, 0, 16⟩

def environment : Env := ⟨{}, .negInf, 4, false⟩

def events : List QueryIoEvent := [.prepRead read, .finishRead 0 16, .dispatch]

def probed : QueryIo := (run (queryIoStep 4) {} events).getD {}

def ending : SearchEnd :=
  ⟨probed, { probed with reranker := { probed.reranker with bufferedCandidates := [] } }⟩

theorem searchRun : SearchRun StdAlgo.reference environment FailedRead.distance {} ending where
  probe := ⟨events, rfl⟩
  probe_drained := ⟨rfl, rfl⟩
  fetch := ⟨[], by simp, rfl⟩
  fetch_drained := ⟨rfl, rfl⟩

/-- The search's one result, with the payload from the cache. -/
def result : SearchResult :=
  ⟨.fin 0, some ⟨[.file 4, .file 5, .file 6, .file 7, .file 8, .file 9, .file 10, .file 11,
    .file 12, .file 13, .file 14, .file 15], ⟨read, 16⟩⟩⟩

theorem lengthBytes (long : value.length = 4294967289) :
    slice (recordBytes 1 [⟨0, .string⟩] 16 (record value)) 4 4 = [249, 255, 255, 255] := by
  rw [bytes long, slice_append_left (by decide)]
  rfl

/-- What is parsed from the string's length on. -/
theorem parse {buf : List UInt8} {bufLen offset : UInt32}
    (inside : offset.toNat + 4 ≤ bufLen.toNat) (whole : buf.length = bufLen.toNat)
    (here : slice buf offset.toNat 4 = [249, 255, 255, 255])
    (short : buf.length < (offset + 4).toNat + 4294967289) :
    DataFileReader.parseColumns buf bufLen [⟨0, .string⟩] offset [] =
      ([], if bufLen < offset + 4 + 4294967289 then
        Status.ioError "Buffer underflow reading var-length data" else .error .outOfBounds) := by
  have len : UInt32.ofNat (leValue [249, 255, 255, 255]) = 4294967289 := by decide
  rw [DataFileReader.parseColumns, if_neg (by decide), if_neg (by omega), if_neg (by omega)]
  dsimp only
  rw [here, len]
  split
  · rfl
  · exact if_pos short

/-- The parser at the start of the payload finds the buffer too short. -/
theorem delivered (long : value.length = 4294967289) (old : UInt8) :
    deliveredPayload (DataFileReader.open (recordBytes 1 [⟨0, .string⟩] 16 (record value)) 1
      [⟨0, .string⟩]) old 4 ⟨.fin 0, ⟨0, 16⟩⟩ result = .ok [] := by
  have inBuffer : (⟨read, 16⟩ : ReadCompletion).InBuffer := by decide
  unfold deliveredPayload result
  dsimp only
  rw [if_pos inBuffer]
  change Except.ok (DataFileReader.parseColumns _ 12 [⟨0, .string⟩] 0 []).1 = _
  rw [parse (by decide) rfl ?_ (show 12 < _ by decide)]
  rw [bytes long]
  rfl

/-- At the end of the vector its check of the end wraps. -/
theorem readRecord (long : value.length = 4294967289) (grant : ℕ → ℕ → ℕ) :
    (DataFileReader.open (recordBytes 1 [⟨0, .string⟩] 16 (record value)) 1
      [⟨0, .string⟩]).readRecord grant ⟨0, 16⟩ = .error .outOfBounds := by
  have size := length long
  have got : (slice (recordBytes 1 [⟨0, .string⟩] 16 (record value)) 0 16).length = 16 :=
    slice_length (by omega)
  rw [readRecord_open, DataFileReader.readRaw_inside rfl grant (by
    change 0 + 16 ≤ (recordBytes 1 [⟨0, .string⟩] 16 (record value)).length
    omega)]
  have parsed : DataFileReader.parseColumns
      (slice (DataFileReader.open (recordBytes 1 [⟨0, .string⟩] 16 (record value)) 1
        [⟨0, .string⟩]).file (0 : UInt64).toNat (16 : UInt32).toNat) 16 [⟨0, .string⟩] 4 [] =
      ([], .error .outOfBounds) := by
    refine (@parse _ 16 4 (by decide) got ?_ (lt_of_eq_of_lt got (by decide))).trans rfl
    change slice (slice _ 0 16) 4 4 = _
    rw [slice_slice (by decide)]
    exact lengthBytes long
  have vector : ¬ (⟨0, 16⟩ : AddressEntry).size < vecBytesOf 1 := by decide
  dsimp only [Except.bind]
  dsimp only at vector
  rw [if_neg vector, if_neg (List.cons_ne_nil _ _)]
  rw [show vecBytesOf 1 = 4 from rfl, parsed]
  rfl

end CutRecord

/-- A string of `2 ^ 32 - 7` bytes, whose record's size is cut to 16 bytes: `ReadRecord`
reads past its buffer, while the search returns an empty payload list. -/
theorem cut_record_is_delivered_empty :
    ∃ addresses file,
      DataFileWriter.writeFile 8589934592 1 [⟨0, .string⟩] 16
        [CutRecord.record (List.replicate 4294967289 97)] = .ok (addresses, file) ∧
      SearchRun StdAlgo.reference CutRecord.environment FailedRead.distance {}
        CutRecord.ending ∧
      (∀ c ∈ CutRecord.ending.fetched.finished, c.full) ∧
      (CutRecord.record (List.replicate 4294967289 97), CutRecord.read.addr) ∈
        [CutRecord.record (List.replicate 4294967289 97)].zip addresses ∧
      ((⟨.fin 0, CutRecord.read.addr⟩ : CollectorEntry), CutRecord.result) ∈
        (topResults StdAlgo.reference CutRecord.environment FailedRead.distance
          CutRecord.ending).zip (CutRecord.ending.assembled StdAlgo.reference 4 10
            FailedRead.distance true) ∧
      ∀ grant old,
        deliveredPayload (DataFileReader.open file 1 [⟨0, .string⟩]) old 4
            ⟨.fin 0, CutRecord.read.addr⟩ CutRecord.result = .ok [] ∧
          (DataFileReader.open file 1 [⟨0, .string⟩]).readRecord grant CutRecord.read.addr =
            .error .outOfBounds ∧
          ¬ DeliversStored (DataFileReader.open file 1 [⟨0, .string⟩]) grant old 4
            ⟨.fin 0, CutRecord.read.addr⟩ CutRecord.result := by
  have long : (List.replicate 4294967289 (97 : UInt8)).length = 4294967289 :=
    List.length_replicate
  generalize List.replicate 4294967289 (97 : UInt8) = value at long
  refine ⟨_, _, CutRecord.written long, CutRecord.searchRun, ?_, List.mem_cons_self,
    List.mem_cons_self, fun grant old => ⟨CutRecord.delivered long old,
      CutRecord.readRecord long grant, fun delivers => ?_⟩⟩
  · intro c mem
    obtain rfl := List.mem_singleton.1 mem
    exact rfl
  · obtain ⟨vec, payload, read, -⟩ := delivers
    cases read.symm.trans (CutRecord.readRecord long grant)

end VecFetch.Query
