/-
# Query.Buffers -- pending slots, read buffers and who owns them

The slot table of `OverlapScheduler` with its free list, the vec-only buffers, the
buffers registered with the ring, the `BufferPool`, and the payload buffers that pass
to the rerank consumer.  A buffer is its address.  `aligned_alloc` gives an address
that is not allocated; every event that may allocate carries the address it would get.

A completion carries its read's slot id and nothing else.
-/
import VecFetch.Query.Types
import VecFetch.Theory.Table
import VecFetch.Theory.Trace

namespace VecFetch.Query.Buffers

open VecFetch.Theory

set_option autoImplicit false

/-- A buffer. -/
abbrev Address := Nat

/-! ## BufferPool -/

structure PoolEntry where
  buf : Address
  capacity : UInt32
  deriving DecidableEq

structure BufferPool where
  pool : List PoolEntry := []
  outstanding : List (Address × UInt32) := []
  deriving DecidableEq

namespace BufferPool

/-- `(size + 4095) & ~4095`. -/
def alignedSize (size : UInt32) : UInt32 := (size + 4095) &&& ~~~4095

/-- `outstanding_[raw] = cap`. -/
def hold (raw : Address) (cap : UInt32) (p : BufferPool) : BufferPool :=
  { p with outstanding := (raw, cap) :: p.outstanding.filter fun held => held.1 ≠ raw }

/-- `pool_[i] = pool_.back(); pool_.pop_back()`. -/
def swapAndPop (i : Nat) (entries : List PoolEntry) : List PoolEntry :=
  match entries.getLast? with
  | some last => (entries.set i last).dropLast
  | none => []

/-- `Acquire`: the first pooled buffer that is large enough, or `fresh`. -/
def acquire (size : UInt32) (fresh : Address) (p : BufferPool) : Address × BufferPool :=
  match p.pool.findIdx? fun entry => decide (alignedSize size ≤ entry.capacity) with
  | some i =>
      match p.pool[i]? with
      | some entry =>
          (entry.buf, { p with pool := swapAndPop i p.pool }.hold entry.buf entry.capacity)
      | none => (fresh, p.hold fresh (alignedSize size))
  | none => (fresh, p.hold fresh (alignedSize size))

/-- `Release`: a buffer that is not outstanding is left alone. -/
def release (buf : Address) (p : BufferPool) : BufferPool :=
  match p.outstanding.find? fun held => held.1 == buf with
  | some (_, cap) =>
      { pool := p.pool ++ [⟨buf, cap⟩]
        outstanding := p.outstanding.filter fun held => held.1 ≠ buf }
  | none => p

/-- `Prime`. -/
def prime (size : UInt32) (fresh : List Address) (p : BufferPool) : BufferPool :=
  { p with pool := p.pool ++ fresh.map fun raw => ⟨raw, alignedSize size⟩ }

end BufferPool

/-! ## The scheduler's slots and buffers -/

inductive PendingBufferCleanup where
  | none
  | free
  | pool
  | vecPool
  | fixedVec
  deriving DecidableEq

structure PendingSlot where
  inUse : Bool := false
  buffer : Option Address := none
  fixedBufferIndex : UInt16 := 0
  cleanup : PendingBufferCleanup := .none
  io : PendingIO := { type := .vecOnly, addr := ⟨0, 0⟩, readOffset := 0, readLength := 0 }
  deriving DecidableEq

/-- A read the reader has and has not completed, as it was prepared. -/
structure PreparedRead where
  token : UInt64
  buffer : Address
  io : PendingIO
  deriving DecidableEq

/-- One call of `ConsumeVec`, `ConsumeAll` or `ConsumePayload`. -/
structure Delivery where
  type : ReadType
  buffer : Option Address
  addr : AddressEntry
  deriving DecidableEq

/-- `allocated` are the buffers of the pool and of the payload cache that have been
allocated and not freed, `reads` the reads not yet completed, and `delivered` the calls
the consumer got, in order. -/
structure BufferState where
  pendingSlots : List PendingSlot := []
  freePendingSlots : List UInt32 := []
  fixedVecBuffers : List Address := []
  freeFixedVecBuffers : List UInt16 := []
  fixedVecBuffersEnabled : Bool := false
  vecOnlyOwnedBuffers : List Address := []
  freeVecOnlyBuffers : List Address := []
  bufferPool : BufferPool := {}
  payloadCache : List (UInt64 × Address) := []
  allocated : List Address := []
  reads : List PreparedRead := []
  delivered : List Delivery := []
  deriving DecidableEq

namespace BufferState

/-- Every buffer that is allocated. -/
def live (q : BufferState) : List Address :=
  q.fixedVecBuffers ++ q.vecOnlyOwnedBuffers ++ q.allocated

/-- `AllocatePendingSlot`: the last freed slot, or a new one. -/
def allocatePendingSlot (io : PendingIO) (buffer : Address) (cleanup : PendingBufferCleanup)
    (fixedBufferIndex : UInt16) (q : BufferState) : UInt32 × BufferState :=
  let slot : PendingSlot := ⟨true, some buffer, fixedBufferIndex, cleanup, io⟩
  match q.freePendingSlots.getLast? with
  | some slotId =>
      (slotId, { q with
        pendingSlots := q.pendingSlots.set slotId.toNat slot
        freePendingSlots := q.freePendingSlots.dropLast })
  | none =>
      let slotId := UInt32.ofNat q.pendingSlots.length
      let slots := q.pendingSlots ++ [({} : PendingSlot)]
      (slotId, { q with pendingSlots := slots.set slotId.toNat slot })

/-- `AllocateVectorOnlyPendingSlot`. -/
def allocateVectorOnlyPendingSlot (vecBytes : UInt32) (addr : AddressEntry) (buffer : Address)
    (cleanup : PendingBufferCleanup) (fixedBufferIndex : UInt16) (q : BufferState) :
    UInt32 × BufferState :=
  q.allocatePendingSlot
    { type := .vecOnly, addr := addr, readOffset := addr.offset, readLength := vecBytes }
    buffer cleanup fixedBufferIndex

/-- `GetPendingSlot`. -/
def getPendingSlot (slotToken : UInt64) (q : BufferState) : Option PendingSlot :=
  if UInt64.ofNat (2 ^ 32 - 1) < slotToken then none
  else
    match q.pendingSlots[slotToken.toUInt32.toNat]? with
    | some slot => if slot.inUse then some slot else none
    | none => none

/-- `ReleasePendingSlot`. -/
def releasePendingSlot (slotId : UInt32) (q : BufferState) : BufferState :=
  if q.pendingSlots.length ≤ slotId.toNat then q
  else
    { q with
      pendingSlots := q.pendingSlots.set slotId.toNat {}
      freePendingSlots := q.freePendingSlots ++ [slotId] }

/-- `ReleaseFixedVecBuffer`. -/
def releaseFixedVecBuffer (bufferIndex : UInt16) (q : BufferState) : BufferState :=
  { q with freeFixedVecBuffers := q.freeFixedVecBuffers ++ [bufferIndex] }

/-- `AcquireVecOnlyBuffer`: the last one given back, or `fresh`. -/
def acquireVecOnlyBuffer (fresh : Address) (q : BufferState) : Address × BufferState :=
  match q.freeVecOnlyBuffers.getLast? with
  | some buf => (buf, { q with freeVecOnlyBuffers := q.freeVecOnlyBuffers.dropLast })
  | none => (fresh, { q with vecOnlyOwnedBuffers := q.vecOnlyOwnedBuffers ++ [fresh] })

/-- `ReleaseVecOnlyBuffer`. -/
def releaseVecOnlyBuffer (buf : Address) (q : BufferState) : BufferState :=
  { q with freeVecOnlyBuffers := q.freeVecOnlyBuffers ++ [buf] }

/-- `TryAcquireFixedVecBuffer`. -/
def tryAcquireFixedVecBuffer (q : BufferState) : Option (Address × UInt16 × BufferState) :=
  if q.fixedVecBuffersEnabled then
    match q.freeFixedVecBuffers.getLast? with
    | some idx =>
        some (q.fixedVecBuffers.getD idx.toNat 0, idx,
          { q with freeFixedVecBuffers := q.freeFixedVecBuffers.dropLast })
    | none => none
  else none

/-- `buffer_pool_.Acquire`. -/
def acquirePooled (size : UInt32) (fresh : Address) (q : BufferState) : Address × BufferState :=
  let (buf, bufferPool) := q.bufferPool.acquire size fresh
  (buf, { q with
    bufferPool := bufferPool
    allocated := if buf ∈ q.allocated then q.allocated else q.allocated ++ [buf] })

/-- `std::free` of a buffer. -/
def freeBuffer (buf : Address) (q : BufferState) : BufferState :=
  { q with allocated := q.allocated.erase buf }

/-- The switch on a slot's cleanup that gives its buffer back. -/
def giveBack (cleanup : PendingBufferCleanup) (buf : Address) (index : UInt16)
    (q : BufferState) : BufferState :=
  match cleanup with
  | .fixedVec => q.releaseFixedVecBuffer index
  | .vecPool => q.releaseVecOnlyBuffer buf
  | .pool => { q with bufferPool := q.bufferPool.release buf }
  | .free => q.freeBuffer buf
  | .none => q

/-- `ReleaseVectorOnlyPendingSlot`. -/
def releaseVectorOnlyPendingSlot (slotId : UInt32) (q : BufferState) : BufferState :=
  match q.pendingSlots[slotId.toNat]? with
  | some slot =>
      if slot.inUse then
        let q :=
          match slot.buffer with
          | some buf => q.giveBack slot.cleanup buf slot.fixedBufferIndex
          | none => q
        { q with
          pendingSlots := q.pendingSlots.set slotId.toNat {}
          freePendingSlots := q.freePendingSlots ++ [slotId] }
      else q
  | none => q

/-- `CleanupPendingSlot`, of the slot with this id. -/
def cleanupPendingSlot (slotId : UInt32) (q : BufferState) : BufferState :=
  match q.pendingSlots[slotId.toNat]? with
  | some slot =>
      match slot.inUse, slot.buffer with
      | true, some buf =>
          let q := q.giveBack slot.cleanup buf slot.fixedBufferIndex
          { q with pendingSlots :=
              q.pendingSlots.set slotId.toNat { slot with buffer := none, cleanup := .none } }
      | _, _ => q
  | none => q

/-- One turn of `CleanupPendingSlots`. -/
def cleanupSlot (slotId : UInt32) (q : BufferState) : BufferState :=
  match q.pendingSlots[slotId.toNat]? with
  | some slot =>
      if slot.inUse then (q.cleanupPendingSlot slotId).releasePendingSlot slotId else q
  | none => q

/-- `CleanupPendingSlots`. -/
def cleanupPendingSlots (q : BufferState) : BufferState :=
  (List.range q.pendingSlots.length).foldl (fun q i => q.cleanupSlot (UInt32.ofNat i)) q

/-! ## The rerank consumer's payload buffers -/

/-- `payload_cache_.erase`: the entry goes and its buffer with it. -/
def dropPayload (offset : UInt64) (q : BufferState) : BufferState :=
  match q.payloadCache.find? fun entry => entry.1 == offset with
  | some (_, buf) =>
      { q.freeBuffer buf with
        payloadCache := q.payloadCache.filter fun entry => entry.1 ≠ offset }
  | none => q

/-- `payload_cache_[offset] = buf`; the buffer it replaces is freed. -/
def cachePayload (offset : UInt64) (buf : Address) (q : BufferState) : BufferState :=
  let q := q.dropPayload offset
  { q with payloadCache := q.payloadCache ++ [(offset, buf)] }

/-- The consumer gets a buffer. -/
def deliver (type : ReadType) (buf : Option Address) (addr : AddressEntry) (q : BufferState) :
    BufferState :=
  { q with delivered := q.delivered ++ [⟨type, buf, addr⟩] }

/-- `ConsumeVec`, which copies the vector. -/
def consumeVec (buf : Option Address) (addr : AddressEntry) (q : BufferState) : BufferState :=
  q.deliver .vecOnly buf addr

/-- `ConsumeAll`, which copies the vector and, into `fresh`, the payload. -/
def consumeAll (vecBytes : UInt32) (fresh : Address) (buf : Option Address) (addr : AddressEntry)
    (q : BufferState) : BufferState :=
  let q := q.deliver .vecAll buf addr
  if vecBytes < addr.size then
    { q with allocated := q.allocated ++ [fresh] }.cachePayload addr.offset fresh
  else q

/-- `ConsumePayload`, which takes the buffer. -/
def consumePayload (buf : Option Address) (addr : AddressEntry) (q : BufferState) : BufferState :=
  let q := q.deliver .payload buf addr
  match buf with
  | some buf => q.cachePayload addr.offset buf
  | none => q.dropPayload addr.offset

/-- `DispatchCompletion`. -/
def dispatchCompletion (vecBytes : UInt32) (fresh : Address) (slotToken : UInt64)
    (q : BufferState) : BufferState :=
  match q.getPendingSlot slotToken with
  | none => q
  | some slot =>
      let slotId := slotToken.toUInt32
      match slot.io.type with
      | .vecOnly => (q.consumeVec slot.buffer slot.io.addr).releaseVectorOnlyPendingSlot slotId
      | .vecAll =>
          ((q.consumeAll vecBytes fresh slot.buffer slot.io.addr).cleanupPendingSlot
            slotId).releasePendingSlot slotId
      | .payload =>
          let q := q.consumePayload slot.buffer slot.io.addr
          let q := { q with pendingSlots :=
            q.pendingSlots.set slotId.toNat { slot with buffer := none, cleanup := .none } }
          q.releasePendingSlot slotId

/-! ## Reads -/

/-- The read is handed to the reader, which accepts it. -/
def prepRead (slotId : UInt32) (buffer : Address) (io : PendingIO) (q : BufferState) :
    BufferState :=
  { q with reads := q.reads ++ [⟨slotId.toUInt64, buffer, io⟩] }

/-- One turn of `emit_all` or of `FetchMissingPayloads`. -/
def emitPooled (io : PendingIO) (fresh : Address) (q : BufferState) : BufferState :=
  let (buf, q) := q.acquirePooled io.readLength fresh
  let (slotId, q) := q.allocatePendingSlot io buf .pool 0
  q.prepRead slotId buf io

/-- One turn of `emit_all`. -/
def emitAll (plan : ReadPlanEntry) (fresh : Address) (q : BufferState) : BufferState :=
  q.emitPooled ⟨.vecAll, plan.addr, plan.addr.offset, plan.readLength⟩ fresh

/-- One turn of `FetchMissingPayloads` that reads. -/
def fetchPayload (vecBytes : UInt32) (addr : AddressEntry) (fresh : Address) (q : BufferState) :
    BufferState :=
  q.emitPooled ⟨.payload, addr, addr.offset + vecBytes.toUInt64, addr.size - vecBytes⟩ fresh

/-- One turn of `emit_vec_only`. -/
def emitVecOnly (vecBytes : UInt32) (addr : AddressEntry) (fresh : Address) (q : BufferState) :
    BufferState :=
  let io : PendingIO := ⟨.vecOnly, addr, addr.offset, vecBytes⟩
  match q.tryAcquireFixedVecBuffer with
  | some (buf, idx, q) =>
      let (slotId, q) := q.allocateVectorOnlyPendingSlot vecBytes addr buf .fixedVec idx
      q.prepRead slotId buf io
  | none =>
      let (buf, q) := q.acquireVecOnlyBuffer fresh
      let (slotId, q) := q.allocateVectorOnlyPendingSlot vecBytes addr buf .vecPool 0
      q.prepRead slotId buf io

end BufferState

/-! ## Runs -/

/-- What happens to the slots and buffers.  `complete i` dispatches the completion of
the `i`-th read that is outstanding. -/
inductive BufferEvent where
  | emitAll (plan : ReadPlanEntry) (fresh : Address)
  | emitVecOnly (addr : AddressEntry) (fresh : Address)
  | fetchPayload (addr : AddressEntry) (fresh : Address)
  | complete (i : Nat) (fresh : Address)
  | cleanupPendingSlots
  | takePayload (offset : UInt64)
  | endQuery
  deriving DecidableEq

/-- The address an event gets if it allocates. -/
def BufferEvent.fresh : BufferEvent → Option Address
  | .emitAll _ fresh => some fresh
  | .emitVecOnly _ fresh => some fresh
  | .fetchPayload _ fresh => some fresh
  | .complete _ fresh => some fresh
  | _ => none

/-- The end of `Search` destroys the consumer and its cache. -/
def BufferState.endQuery (q : BufferState) : BufferState :=
  q.payloadCache.foldl (fun q entry => q.dropPayload entry.1) q

def bufferStep (vecBytes : UInt32) (q : BufferState) (e : BufferEvent) : Option BufferState :=
  if ∃ fresh ∈ e.fresh, fresh ∈ q.live then none
  else
    match e with
    | .emitAll plan fresh => some (q.emitAll plan fresh)
    | .emitVecOnly addr fresh => some (q.emitVecOnly vecBytes addr fresh)
    | .fetchPayload addr fresh => some (q.fetchPayload vecBytes addr fresh)
    | .complete i fresh =>
        (q.reads[i]?).map fun read =>
          { q with reads := q.reads.eraseIdx i }.dispatchCompletion vecBytes fresh read.token
    | .cleanupPendingSlots => some q.cleanupPendingSlots
    | .takePayload offset => some (q.dropPayload offset)
    | .endQuery => some q.endQuery

/-- The constructor: the primed pool and, if the ring registers them, the fixed
buffers. -/
def construct (vecBytes : UInt32) (primed fixed : List Address) : BufferState :=
  { fixedVecBuffers := fixed
    freeFixedVecBuffers := (List.range fixed.length).map UInt16.ofNat
    fixedVecBuffersEnabled := !fixed.isEmpty
    bufferPool := BufferPool.prime vecBytes primed {}
    allocated := primed }

end VecFetch.Query.Buffers
