/-
# Query.Rerank -- the rerank consumer and the result collector

Buffers are functions from an index to a byte, and a byte remembers where it came
from: the data file, or whatever the recycled buffer held before.  Each buffered
candidate and cached payload carries the completion it was made from; nothing reads
it, it says afterwards whose bytes were scored.
-/
import VecFetch.Theory.Select
import VecFetch.Query.Types

namespace VecFetch.Query

open VecFetch.Theory

set_option autoImplicit false

/-! ## Buffers -/

/-- A byte of a read buffer. -/
inductive BufferByte where
  | stale
  | file (position : Nat)
  deriving DecidableEq

abbrev ReadBuffer := Nat → BufferByte

/-- A buffer as it is acquired: pooled or freshly allocated. -/
def ReadBuffer.acquired : ReadBuffer := fun _ => .stale

/-- The buffer after a read returned `res`: that many bytes of the file at its front,
and nothing on an error. -/
def ReadBuffer.filled (io : PendingIO) (res : Int) : ReadBuffer := fun i =>
  if i < res.toNat then .file (io.readOffset.toNat + i) else .stale

/-- A read and what its completion reported. -/
structure ReadCompletion where
  io : PendingIO
  res : Int
  deriving DecidableEq

namespace ReadCompletion

/-- The read returned all it was asked for. -/
def full (c : ReadCompletion) : Prop := c.res = c.io.readLength.toNat

instance (c : ReadCompletion) : Decidable c.full := inferInstanceAs (Decidable (_ = _))

/-- The buffer the read left behind. -/
def buffer (c : ReadCompletion) : ReadBuffer := ReadBuffer.filled c.io c.res

end ReadCompletion

/-- `len` bytes of a buffer, from `first` on. -/
def ReadBuffer.bytes (buf : ReadBuffer) (first len : Nat) : List BufferByte :=
  (List.range len).map fun i => buf (first + i)

/-! ## RerankConsumer -/

structure BufferedCandidate where
  addr : AddressEntry
  vec : List BufferByte
  origin : ReadCompletion
  deriving DecidableEq

structure CachedPayload where
  bytes : List BufferByte
  origin : ReadCompletion
  deriving DecidableEq

structure RerankConsumer where
  bufferedCandidates : List BufferedCandidate := []
  payloadCache : UInt64 → Option CachedPayload := fun _ => none

namespace RerankConsumer

variable (vecBytes : UInt32)

/-- `ConsumeVec`. -/
def consumeVec (origin : ReadCompletion) (r : RerankConsumer) : RerankConsumer :=
  { r with bufferedCandidates := r.bufferedCandidates ++
      [⟨origin.io.addr, origin.buffer.bytes 0 vecBytes.toNat, origin⟩] }

/-- `ConsumeAll`. -/
def consumeAll (origin : ReadCompletion) (r : RerankConsumer) : RerankConsumer :=
  let addr := origin.io.addr
  let r := r.consumeVec vecBytes origin
  if vecBytes < addr.size then
    { r with
      payloadCache := Function.update r.payloadCache addr.offset
        (some ⟨origin.buffer.bytes vecBytes.toNat (addr.size - vecBytes).toNat, origin⟩) }
  else r

/-- `ConsumePayload`. -/
def consumePayload (origin : ReadCompletion) (r : RerankConsumer) : RerankConsumer :=
  { r with
    payloadCache := Function.update r.payloadCache origin.io.addr.offset
      (some ⟨origin.buffer.bytes 0 origin.io.readLength.toNat, origin⟩) }

/-- `HasPayload`. -/
def hasPayload (offset : UInt64) (r : RerankConsumer) : Bool := (r.payloadCache offset).isSome

/-- `TakePayload`. -/
def takePayload (offset : UInt64) (r : RerankConsumer) : Option CachedPayload × RerankConsumer :=
  (r.payloadCache offset, { r with payloadCache := Function.update r.payloadCache offset none })

end RerankConsumer

/-! ## ResultCollector -/

structure CollectorEntry where
  distance : Flt
  addr : AddressEntry
  deriving DecidableEq

/-- `CollectorEntry::operator<`. -/
def CollectorEntry.lt (a b : CollectorEntry) : Bool := a.distance.lt b.distance

variable (std : StdAlgo)

/-- `ResultCollector::TryInsert` on the heap of a collector of `topK`, and what it returns. -/
def tryInsert (topK : UInt32) (heap : List CollectorEntry) (entry : CollectorEntry) :
    List CollectorEntry × Bool :=
  std.addBounded CollectorEntry.lt topK.toNat entry heap

/-- `ResultCollector::Finalize`: pop the heap empty and reverse. -/
def finalize (heap : List CollectorEntry) : List CollectorEntry :=
  (std.drain CollectorEntry.lt heap.length heap).reverse

def byCandidateOffset (a b : BufferedCandidate) : Bool :=
  decide (a.addr.offset < b.addr.offset)

/-- The candidates `ExecuteBuffered` scores, in its order. -/
def ranked (r : RerankConsumer) : List BufferedCandidate :=
  std.sort byCandidateOffset r.bufferedCandidates

/-- `ExecuteBuffered`: `distance` is the exact distance of the query to the vector in
some bytes, one candidate at a time or in batches. -/
def executeBuffered (topK : UInt32) (distance : List BufferByte → Flt) (r : RerankConsumer)
    (heap : List CollectorEntry) : List CollectorEntry × RerankConsumer :=
  ((ranked std r).foldl (fun heap c => (tryInsert std topK heap ⟨distance c.vec, c.addr⟩).1) heap,
    { r with bufferedCandidates := [] })

end VecFetch.Query
