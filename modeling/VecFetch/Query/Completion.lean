/-
# Query.Completion -- pending slots, completions and the end of a query

Each read the scheduler prepares gets a slot, and the slot's id is the read's
`user_data`.  The reader finishes reads in any order with any result; a poll hands
the completions back first in, first out, and `DispatchCompletion` looks the slot up
and consumes its buffer by the read's type.  The completion's result is not among
what it is given.

The reader may be the ring or the `pread` fallback: both finish a read with the
count of bytes it got or a negative error.
-/
import VecFetch.Theory.Trace
import VecFetch.Query.Rerank

namespace VecFetch.Query

open VecFetch.Theory

set_option autoImplicit false

/-! ## Slots -/

/-- `PendingSlot`, with the buffer's contents and, once the read is finished, what the
reader reported. -/
structure PendingSlot where
  inUse : Bool := false
  io : Option PendingIO := none
  res : Option Int := none

/-- A query's reads: the slot table, the ids the reader owns, the completions a poll
will return, and the consumer.  `prepared` and `finished` list every read prepared and
finished in the query. -/
structure QueryIo where
  pendingSlots : List PendingSlot := []
  freePendingSlots : List Nat := []
  reading : List Nat := []
  completions : List Nat := []
  reranker : RerankConsumer := {}
  prepared : List PendingIO := []
  finished : List ReadCompletion := []

namespace QueryIo

/-- `AllocatePendingSlot`: the last freed slot, or a new one. -/
def allocatePendingSlot (io : PendingIO) (q : QueryIo) : Nat × QueryIo :=
  match q.freePendingSlots.getLast? with
  | some id =>
      (id, { q with
        pendingSlots := q.pendingSlots.set id ⟨true, some io, none⟩
        freePendingSlots := q.freePendingSlots.dropLast })
  | none =>
      (q.pendingSlots.length, { q with
        pendingSlots := q.pendingSlots ++ [⟨true, some io, none⟩] })

/-- `GetPendingSlot`. -/
def getPendingSlot (id : Nat) (q : QueryIo) : Option PendingSlot :=
  match q.pendingSlots[id]? with
  | some slot => if slot.inUse then some slot else none
  | none => none

/-- `ReleasePendingSlot`. -/
def releasePendingSlot (id : Nat) (q : QueryIo) : QueryIo :=
  if q.pendingSlots.length ≤ id then q
  else
    { q with
      pendingSlots := q.pendingSlots.set id {}
      freePendingSlots := q.freePendingSlots ++ [id] }

/-- Allocate a slot for a read and hand the read to the reader, which accepts it. -/
def prepRead (io : PendingIO) (q : QueryIo) : QueryIo :=
  let (id, q) := q.allocatePendingSlot io
  { q with reading := q.reading ++ [id], prepared := q.prepared ++ [io] }

/-- The reader finishes the `i`-th read it owns with `res`. -/
def finishRead (i : Nat) (res : Int) (q : QueryIo) : Option QueryIo :=
  match q.reading[i]? with
  | none => none
  | some id =>
      match q.pendingSlots[id]? with
      | some ⟨inUse, some io, _⟩ =>
          some { q with
            reading := q.reading.eraseIdx i
            completions := q.completions ++ [id]
            pendingSlots := q.pendingSlots.set id ⟨inUse, some io, some res⟩
            finished := q.finished ++ [⟨io, res⟩] }
      | _ => none

/-- `DispatchCompletion`. -/
def dispatchCompletion (vecBytes : UInt32) (token : Nat) (q : QueryIo) : QueryIo :=
  match q.getPendingSlot token with
  | some ⟨_, some io, some res⟩ =>
      let reranker :=
        match io.type with
        | .vecOnly => q.reranker.consumeVec vecBytes ⟨io, res⟩
        | .vecAll => q.reranker.consumeAll vecBytes ⟨io, res⟩
        | .payload => q.reranker.consumePayload ⟨io, res⟩
      releasePendingSlot token { q with reranker := reranker }
  | _ => q

/-- A poll hands the first completion back and it is dispatched. -/
def dispatchNext (vecBytes : UInt32) (q : QueryIo) : Option QueryIo :=
  match q.completions with
  | [] => none
  | token :: rest => some (dispatchCompletion vecBytes token { q with completions := rest })

/-- Nothing is left with the reader: where `FinalDrain` and the payload fetch stop. -/
def drained (q : QueryIo) : Prop := q.reading = [] ∧ q.completions = []

end QueryIo

/-! ## Runs -/

inductive QueryIoEvent where
  | prepRead (io : PendingIO)
  | finishRead (i : Nat) (res : Int)
  | dispatch
  deriving DecidableEq

def queryIoStep (vecBytes : UInt32) (q : QueryIo) : QueryIoEvent → Option QueryIo
  | .prepRead io => some (q.prepRead io)
  | .finishRead i res => q.finishRead i res
  | .dispatch => q.dispatchNext vecBytes

/-! ## FetchMissingPayloads and AssembleResults -/

/-- The payload read of a result. -/
def payloadRead (vecBytes : UInt32) (addr : AddressEntry) : PendingIO :=
  { type := .payload
    addr := addr
    readOffset := addr.offset + vecBytes.toUInt64
    readLength := addr.size - vecBytes }

/-- The reads `FetchMissingPayloads` prepares. -/
def missingPayloads (vecBytes : UInt32) (r : RerankConsumer) (results : List CollectorEntry) :
    List PendingIO :=
  (results.filter fun entry =>
    !r.hasPayload entry.addr.offset && decide (vecBytes < entry.addr.size)).map
      fun entry => payloadRead vecBytes entry.addr

structure SearchResult where
  distance : Flt
  payload : Option CachedPayload
  deriving DecidableEq

/-- `AssembleResults`; `hasPayload` says that the index has payload columns. -/
def assembleResults (vecBytes : UInt32) (hasPayload : Bool) :
    RerankConsumer → List CollectorEntry → List SearchResult
  | _, [] => []
  | r, entry :: rest =>
      if hasPayload then
        let (payload, r) := r.takePayload entry.addr.offset
        let attached := if vecBytes < entry.addr.size then payload else none
        ⟨entry.distance, attached⟩ :: assembleResults vecBytes hasPayload r rest
      else ⟨entry.distance, none⟩ :: assembleResults vecBytes hasPayload r rest

/-- The part of `Search` after probing: `probed` is the state the drain left,
`fetched` the state after the payload reads. -/
structure SearchEnd where
  probed : QueryIo
  fetched : QueryIo

namespace SearchEnd

variable (std : StdAlgo) (vecBytes topK : UInt32) (distance : List BufferByte → Flt)

/-- The top results of the exact rerank. -/
def results (e : SearchEnd) : List CollectorEntry :=
  finalize std (executeBuffered std topK distance e.probed.reranker []).1

/-- The results as `Search` returns them. -/
def assembled (hasPayload : Bool) (e : SearchEnd) : List SearchResult :=
  assembleResults vecBytes hasPayload e.fetched.reranker (e.results std topK distance)

end SearchEnd

end VecFetch.Query
