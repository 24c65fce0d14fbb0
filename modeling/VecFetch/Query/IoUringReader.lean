/-
# Query.IoUringReader -- the reader's counters over the kernel's ring

A read is in one of three places: the submission queue, the kernel, the completion
queue.  `IoUringReader` sees none of them; it keeps two `uint32_t` counters,
`prepped` and `inFlight`, which its calls move by what the ring's functions return.

`ret` is what `io_uring_submit` returns: the number of entries the kernel took from
the front of the submission queue, or a negative error and none.  The kernel posts
completions between the calls, in any order and with any result; deferred task work
only delays them.
-/
import VecFetch.Theory.Trace

namespace VecFetch.Query

open VecFetch.Theory

set_option autoImplicit false

/-! ## The ring -/

/-- A submission queue entry: one read. -/
structure Sqe where
  fd : Int
  fixedFile : Bool
  buf : UInt64
  bufIndex : Option UInt16
  len : UInt32
  offset : UInt64
  userData : UInt64
  deriving DecidableEq

/-- A completion queue entry, and the `IoCompletion` the reader makes of it. -/
structure Cqe where
  userData : UInt64
  res : Int
  deriving DecidableEq

structure Ring where
  entries : Nat
  sq : List Sqe := []
  kernel : List Sqe := []
  cq : List Cqe := []
  deriving DecidableEq

namespace Ring

/-- `io_uring_get_sqe` finds a free entry. -/
def hasRoom (ring : Ring) : Bool := decide (ring.sq.length < ring.entries)

/-- `io_uring_submit`, returning `ret`. -/
def submit (ret : Int) (ring : Ring) : Ring :=
  { ring with sq := ring.sq.drop ret.toNat, kernel := ring.kernel ++ ring.sq.take ret.toNat }

/-- `io_uring_submit` may return `ret`. -/
def mayReturn (ret : Int) (ring : Ring) : Bool := decide (ret ≤ ring.sq.length)

/-- Consume the first `count` completions. -/
def seen (count : Nat) (ring : Ring) : Ring := { ring with cq := ring.cq.drop count }

/-- The kernel completes the `i`-th read it owns. -/
def complete (i : Nat) (res : Int) (ring : Ring) : Option Ring :=
  ring.kernel[i]?.map fun sqe =>
    { ring with kernel := ring.kernel.eraseIdx i, cq := ring.cq ++ [⟨sqe.userData, res⟩] }

end Ring

/-! ## The reader -/

/-- `IoUringReader`, after `Init`, `RegisterFiles` and `RegisterBuffers`. -/
structure IoUringReader where
  ring : Ring
  inFlight : UInt32 := 0
  prepped : UInt32 := 0
  filesRegistered : Bool := false
  registeredFds : List Int := []
  buffersRegistered : Bool := false
  deriving DecidableEq

/-- Why a read was not accepted. -/
inductive PrepError where
  | autoFlushFailed (errno : Int)
  | sqFull
  | buffersNotRegistered
  | invalidFileIndex
  deriving DecidableEq

def PrepError.message (strerror : Int → String) : PrepError → String
  | .autoFlushFailed errno => "io_uring auto-flush submit failed: " ++ strerror errno
  | .sqFull => "io_uring SQ full after auto-flush"
  | .buffersNotRegistered => "registered buffer requested before registration"
  | .invalidFileIndex => "invalid registered file index"

namespace IoUringReader

/-- `AcquireSqeWithAutoFlush`: `ret` is what the submit of the flush returns, if there
is one. -/
def acquireSqeWithAutoFlush (ret : Int) (r : IoUringReader) :
    Except PrepError Unit × IoUringReader :=
  if r.ring.hasRoom then (.ok (), r)
  else if ret < 0 then (.error (.autoFlushFailed (-ret)), r)
  else
    let r := { r with
      ring := r.ring.submit ret
      inFlight := r.inFlight + r.prepped
      prepped := 0 }
    if r.ring.hasRoom then (.ok (), r) else (.error .sqFull, r)

/-- Acquire an entry and fill it: the body the `PrepRead` functions share. -/
def prepSqe (sqe : Sqe) (ret : Int) (r : IoUringReader) : Except PrepError Unit × IoUringReader :=
  match r.acquireSqeWithAutoFlush ret with
  | (.error e, r) => (.error e, r)
  | (.ok _, r) =>
      (.ok (), { r with ring := { r.ring with sq := r.ring.sq ++ [sqe] }, prepped := r.prepped + 1 })

/-- `RegisteredFileIndex`. -/
def registeredFileIndex (fd : Int) (r : IoUringReader) : Int :=
  if r.filesRegistered then
    match r.registeredFds.findIdx? (· == fd) with
    | some i => i
    | none => -1
  else -1

/-- `PrepReadTagged`. -/
def prepReadTagged (fd : Int) (buf : UInt64) (len : UInt32) (offset userData : UInt64) (ret : Int)
    (r : IoUringReader) : Except PrepError Unit × IoUringReader :=
  let fdIdx := r.registeredFileIndex fd
  let sqe : Sqe :=
    if 0 ≤ fdIdx then ⟨fdIdx, true, buf, none, len, offset, userData⟩
    else ⟨fd, false, buf, none, len, offset, userData⟩
  r.prepSqe sqe ret

/-- `PrepReadFixedTagged`. -/
def prepReadFixedTagged (fdIndex : Int) (buf : UInt64) (len : UInt32) (offset userData : UInt64)
    (ret : Int) (r : IoUringReader) : Except PrepError Unit × IoUringReader :=
  r.prepSqe ⟨fdIndex, true, buf, none, len, offset, userData⟩ ret

/-- `PrepReadFixed`. -/
def prepReadFixed (fdIndex : Int) (buf : UInt64) (len : UInt32) (offset : UInt64) (ret : Int)
    (r : IoUringReader) : Except PrepError Unit × IoUringReader :=
  r.prepReadFixedTagged fdIndex buf len offset buf ret

/-- `PrepReadRegisteredBufferFixedFileTagged`. -/
def prepReadRegisteredBufferFixedFileTagged (fdIndex : Int) (buf : UInt64) (bufIndex : UInt16)
    (len : UInt32) (offset userData : UInt64) (ret : Int) (r : IoUringReader) :
    Except PrepError Unit × IoUringReader :=
  if !r.buffersRegistered then (.error .buffersNotRegistered, r)
  else if fdIndex < 0 then (.error .invalidFileIndex, r)
  else r.prepSqe ⟨fdIndex, true, buf, some bufIndex, len, offset, userData⟩ ret

/-- `PrepReadRegisteredBufferTagged`. -/
def prepReadRegisteredBufferTagged (fd : Int) (buf : UInt64) (bufIndex : UInt16) (len : UInt32)
    (offset userData : UInt64) (ret : Int) (r : IoUringReader) :
    Except PrepError Unit × IoUringReader :=
  if !r.buffersRegistered then (.error .buffersNotRegistered, r)
  else
    let fdIdx := r.registeredFileIndex fd
    if 0 ≤ fdIdx then
      r.prepReadRegisteredBufferFixedFileTagged fdIdx buf bufIndex len offset userData ret
    else r.prepSqe ⟨fd, false, buf, some bufIndex, len, offset, userData⟩ ret

/-- `Submit`. -/
def submit (ret : Int) (r : IoUringReader) : UInt32 × IoUringReader :=
  if r.prepped == 0 then (0, r)
  else
    let submitted := if 0 < ret then UInt32.ofNat ret.toNat else 0
    (submitted,
      { r with ring := r.ring.submit ret, inFlight := r.inFlight + submitted, prepped := 0 })

/-- Take up to `maxCount` completions, each of which lowers `inFlight` by one. -/
def drain (maxCount : Nat) (r : IoUringReader) : List Cqe × IoUringReader :=
  let out := r.ring.cq.take maxCount
  (out, { r with ring := r.ring.seen maxCount, inFlight := r.inFlight - UInt32.ofNat out.length })

/-- `Poll`. -/
def poll (maxCount : UInt32) (r : IoUringReader) : List Cqe × IoUringReader :=
  r.drain maxCount.toNat

/-- `WaitAndPoll`; `waited` is what `io_uring_wait_cqe` returns.  There is no result
while the wait blocks. -/
def waitAndPoll (maxCount : UInt32) (waited : Int) (r : IoUringReader) :
    Option (List Cqe × IoUringReader) :=
  if maxCount == 0 || r.inFlight == 0 || decide (waited < 0) then some ([], r)
  else if r.ring.cq.isEmpty then none
  else some (r.drain maxCount.toNat)

end IoUringReader

/-! ## Runs -/

/-- The read a `PrepRead` call asks for. -/
inductive PrepCall where
  | tagged (fd : Int) (buf : UInt64) (len : UInt32) (offset userData : UInt64)
  | fixedTagged (fdIndex : Int) (buf : UInt64) (len : UInt32) (offset userData : UInt64)
  | fixed (fdIndex : Int) (buf : UInt64) (len : UInt32) (offset : UInt64)
  | registeredBuffer (fd : Int) (buf : UInt64) (bufIndex : UInt16) (len : UInt32)
      (offset userData : UInt64)
  | registeredBufferFixedFile (fdIndex : Int) (buf : UInt64) (bufIndex : UInt16) (len : UInt32)
      (offset userData : UInt64)

def PrepCall.run (ret : Int) (r : IoUringReader) :
    PrepCall → Except PrepError Unit × IoUringReader
  | .tagged fd buf len offset userData => r.prepReadTagged fd buf len offset userData ret
  | .fixedTagged fdIndex buf len offset userData =>
      r.prepReadFixedTagged fdIndex buf len offset userData ret
  | .fixed fdIndex buf len offset => r.prepReadFixed fdIndex buf len offset ret
  | .registeredBuffer fd buf bufIndex len offset userData =>
      r.prepReadRegisteredBufferTagged fd buf bufIndex len offset userData ret
  | .registeredBufferFixedFile fdIndex buf bufIndex len offset userData =>
      r.prepReadRegisteredBufferFixedFileTagged fdIndex buf bufIndex len offset userData ret

/-- A call on the reader with the kernel's answer, or a completion by the kernel. -/
inductive ReaderEvent where
  | prep (call : PrepCall) (ret : Int)
  | submit (ret : Int)
  | poll (maxCount : UInt32)
  | waitAndPoll (maxCount : UInt32) (waited : Int)
  | complete (i : Nat) (res : Int)

/-- The reader and what its caller has seen: the number of reads it accepted and the
completions it returned. -/
structure ReaderWorld where
  reader : IoUringReader
  accepted : Nat := 0
  returned : List Cqe := []
  deriving DecidableEq

/-- The accepted reads whose completion has not been returned. -/
def ReaderWorld.outstanding (w : ReaderWorld) : Nat := w.accepted - w.returned.length

/-- One event. -/
def readerStep (w : ReaderWorld) : ReaderEvent → Option ReaderWorld
  | .prep call ret =>
      if w.reader.ring.mayReturn ret then
        match call.run ret w.reader with
        | (.ok _, r) => some { w with reader := r, accepted := w.accepted + 1 }
        | (.error _, r) => some { w with reader := r }
      else none
  | .submit ret =>
      if w.reader.ring.mayReturn ret then some { w with reader := (w.reader.submit ret).2 }
      else none
  | .poll maxCount =>
      let (out, r) := w.reader.poll maxCount
      some { w with reader := r, returned := w.returned ++ out }
  | .waitAndPoll maxCount waited =>
      (w.reader.waitAndPoll maxCount waited).map fun (out, r) =>
        { w with reader := r, returned := w.returned ++ out }
  | .complete i res =>
      (w.reader.ring.complete i res).map fun ring =>
        { w with reader := { w.reader with ring := ring } }

/-! ## FinalDrain -/

/-- Where `drain_reader` of `OverlapScheduler::FinalDrain` stands. -/
inductive DrainPhase where
  | waiting
  | polling
  | returned

/-- `drain_reader`: wait while `InFlight()` is positive, then poll until a poll comes
back empty.  The kernel completes reads meanwhile. -/
inductive DrainStep : DrainPhase × ReaderWorld → DrainPhase × ReaderWorld → Prop
  | kernel {phase : DrainPhase} {w w' : ReaderWorld} {i : Nat} {res : Int}
      (step : readerStep w (.complete i res) = some w') : DrainStep (phase, w) (phase, w')
  | wait {w w' : ReaderWorld} {waited : Int} (busy : 0 < w.reader.inFlight)
      (step : readerStep w (.waitAndPoll 128 waited) = some w') :
      DrainStep (.waiting, w) (.waiting, w')
  | stopWaiting {w : ReaderWorld} (idle : w.reader.inFlight = 0) :
      DrainStep (.waiting, w) (.polling, w)
  | poll {w w' : ReaderWorld} (some_out : (w.reader.poll 128).1 ≠ [])
      (step : readerStep w (.poll 128) = some w') : DrainStep (.polling, w) (.polling, w')
  | finish {w w' : ReaderWorld} (no_out : (w.reader.poll 128).1 = [])
      (step : readerStep w (.poll 128) = some w') : DrainStep (.polling, w) (.returned, w')

end VecFetch.Query
