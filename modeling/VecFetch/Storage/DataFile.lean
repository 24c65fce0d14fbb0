/-
# Storage.DataFile -- the data file of records

`DataFileWriter` appends a record's vector bytes and payload columns and pads it to a
page; `DataFileReader` reads a record back from its address.  Lengths and offsets inside
a record are `uint32_t` and wrap where the code lets them.  The stream takes bytes as
long as the file has `space` for them, and `pread` may give fewer bytes than asked for
(`grant`).  Files are closed and reopened by their path, here by their bytes.
-/
import VecFetch.Theory.Bytes
import VecFetch.Common.Datum
import VecFetch.Common.Status
import VecFetch.Query.Types

namespace VecFetch.Storage

open VecFetch.Theory VecFetch.Query

set_option autoImplicit false

/-- The largest file: `off_t` is signed. -/
def kMaxFileBytes : ℕ := 2 ^ 63 - 1

/-- `raw_dim * sizeof(float)` as a `uint32_t`. -/
def vecBytesOf (dim : UInt32) : UInt32 := dim * 4

/-! ## Writing -/

/-- A record handed to the writer; `vec` is the memory of its floats. -/
structure DataRecord where
  vec : List UInt8
  payload : List Datum
  deriving DecidableEq

structure DataFileWriter where
  file : List UInt8 := []
  isOpen : Bool := false
  finalized : Bool := false
  dim : UInt32 := 0
  payloadSchemas : List ColumnSchema := []
  pageSize : UInt32 := 4096
  currentOffset : UInt64 := 0
  numRecords : UInt64 := 0

namespace DataFileWriter

/-- `DataFileWriter::Open` of a path that can be opened. -/
def «open» (dim : UInt32) (payloadSchemas : List ColumnSchema) (pageSize : UInt32) :
    DataFileWriter :=
  { isOpen := true, dim := dim, payloadSchemas := payloadSchemas, pageSize := pageSize }

variable (space : ℕ)

/-- A checked `file_.write` and the step of `current_offset_` after it. -/
def put (bytes : List UInt8) (message : String) (w : DataFileWriter) : Result DataFileWriter :=
  if w.file.length + bytes.length ≤ min space kMaxFileBytes then
    .ok { w with
      file := w.file ++ bytes
      currentOffset := w.currentOffset + UInt64.ofNat bytes.length }
  else Status.ioError message

/-- `DataFileWriter::WriteDatum`. -/
def writeDatum (datum : Datum) (schema : ColumnSchema) (w : DataFileWriter) :
    Result DataFileWriter :=
  if dTypeIsFixedWidth schema.dtype then
    w.put space (datum.fixed.toList.take (dTypeSize schema.dtype)) "Failed to write fixed datum"
  else
    let len := UInt32.ofNat datum.varData.length
    (w.put space (leBytes 4 len.toNat) "Failed to write var-length prefix").bind fun w =>
      if 0 < len then
        w.put space (datum.varData.take len.toNat) "Failed to write var-length data"
      else .ok w

/-- The loop over the payload columns. -/
def writePayload : List Datum → List ColumnSchema → DataFileWriter → Result DataFileWriter
  | datum :: payload, schema :: schemas, w =>
      (w.writeDatum space datum schema).bind (writePayload payload schemas)
  | _, _, w => .ok w

/-- Padding of the record that started at `start`. -/
def pad (start : UInt64) (w : DataFileWriter) : Result DataFileWriter :=
  if 1 < w.pageSize then
    let rawSize := w.currentOffset - start
    let padded := (rawSize + w.pageSize.toUInt64 - 1) / w.pageSize.toUInt64 * w.pageSize.toUInt64
    let padBytes := padded - rawSize
    if 0 < padBytes then
      w.put space (List.replicate padBytes.toNat 0) "Failed to write page padding"
    else .ok w
  else .ok w

/-- `DataFileWriter::WriteRecord`. -/
def writeRecord (record : DataRecord) (w : DataFileWriter) :
    Result (AddressEntry × DataFileWriter) :=
  if ¬ w.isOpen then Status.invalidArgument "DataFileWriter not open"
  else if w.finalized then Status.invalidArgument "DataFileWriter already finalized"
  else if record.payload.length ≠ w.payloadSchemas.length then
    Status.invalidArgument ("Payload size mismatch: expected " ++
      toString w.payloadSchemas.length ++ ", got " ++ toString record.payload.length)
  else
    let start := w.currentOffset
    (w.put space (record.vec.take (vecBytesOf w.dim).toNat) "Failed to write vector data").bind
      fun w => (w.writePayload space record.payload w.payloadSchemas).bind fun w =>
        (w.pad space start).map fun w =>
          (⟨start, (w.currentOffset - start).toUInt32⟩, { w with numRecords := w.numRecords + 1 })

/-- Writing records one after another; a caller stops at the first failure. -/
def writeRecords : List DataRecord → DataFileWriter →
    Result (List AddressEntry × DataFileWriter)
  | [], w => .ok ([], w)
  | record :: records, w =>
      (w.writeRecord space record).bind fun written =>
        (writeRecords records written.2).map fun later => (written.1 :: later.1, later.2)

/-- `DataFileWriter::Finalize`. -/
def finalize (w : DataFileWriter) : Result DataFileWriter :=
  if ¬ w.isOpen then Status.invalidArgument "DataFileWriter not open"
  else if w.finalized then Status.invalidArgument "DataFileWriter already finalized"
  else .ok { w with isOpen := false, finalized := true }

/-- A file written from its opening to `Finalize`: the addresses and the bytes. -/
def writeFile (dim : UInt32) (payloadSchemas : List ColumnSchema) (pageSize : UInt32)
    (records : List DataRecord) : Result (List AddressEntry × List UInt8) :=
  (writeRecords space records (DataFileWriter.open dim payloadSchemas pageSize)).bind
    fun written => written.2.finalize.map fun w => (written.1, w.file)

end DataFileWriter

/-! ## Reading -/

structure DataFileReader where
  file : List UInt8 := []
  isOpen : Bool := false
  dim : UInt32 := 0
  payloadSchemas : List ColumnSchema := []

namespace DataFileReader

/-- `DataFileReader::Open` of a file that can be opened. -/
def «open» (file : List UInt8) (dim : UInt32) (payloadSchemas : List ColumnSchema) :
    DataFileReader :=
  { file := file, isOpen := true, dim := dim, payloadSchemas := payloadSchemas }

section ReadRaw

variable (grant : ℕ → ℕ → ℕ) (file : List UInt8)

/-- The bytes one `pread` gives: none only at the end of the file or when none are asked
for, and never more than asked for. -/
def preadCount (pos asked : ℕ) : ℕ := min (max 1 (grant pos asked)) (min asked (file.length - pos))

/-- The loop of `ReadRaw`; each round reads a byte at least. -/
def readRawLoop (offset length : ℕ) : ℕ → ℕ → List UInt8 → Result (List UInt8)
  | 0, _, _ => .error .outOfBounds
  | fuel + 1, totalRead, buf =>
      if totalRead < length then
        let n := preadCount grant file (offset + totalRead) (length - totalRead)
        if n = 0 then Status.ioError "Unexpected EOF in DataFile"
        else
          readRawLoop offset length fuel (totalRead + n) (buf ++ slice file (offset + totalRead) n)
      else .ok buf

end ReadRaw

variable (r : DataFileReader)

/-- `DataFileReader::ReadRaw`. -/
def readRaw (grant : ℕ → ℕ → ℕ) (offset : UInt64) (length : UInt32) : Result (List UInt8) :=
  if ¬ r.isOpen then Status.invalidArgument "DataFileReader not open"
  else readRawLoop grant r.file offset.toNat length.toNat (length.toNat + 1) 0 []

/-- The loop of `ParsePayload`: the columns parsed so far, and the status.  The checks
compare in `size_t`, the last of them in `uint32_t`; a value that passes them and still
does not lie inside the buffer is an access outside it. -/
def parseColumns (buf : List UInt8) (bufLen : UInt32) :
    List ColumnSchema → UInt32 → List Datum → List Datum × Result Unit
  | [], _, out => (out, .ok ())
  | schema :: schemas, offset, out =>
      if dTypeIsFixedWidth schema.dtype then
        let size := dTypeSize schema.dtype
        if bufLen.toNat < offset.toNat + size then
          (out, Status.ioError "Buffer underflow reading fixed column")
        else if buf.length < offset.toNat + size then (out, .error .outOfBounds)
        else
          parseColumns buf bufLen schemas (offset + UInt32.ofNat size)
            (out ++ [{ dtype := schema.dtype
                       fixed := Datum.fixedOf (slice buf offset.toNat size) }])
      else if bufLen.toNat < offset.toNat + 4 then
        (out, Status.ioError "Buffer underflow reading var-length prefix")
      else if buf.length < offset.toNat + 4 then (out, .error .outOfBounds)
      else
        let len := UInt32.ofNat (leValue (slice buf offset.toNat 4))
        let offset := offset + 4
        if bufLen < offset + len then
          (out, Status.ioError "Buffer underflow reading var-length data")
        else if buf.length < offset.toNat + len.toNat then (out, .error .outOfBounds)
        else
          parseColumns buf bufLen schemas (offset + len)
            (out ++ [{ dtype := schema.dtype
                       varData := slice buf offset.toNat len.toNat }])

/-- `DataFileReader::ParsePayload`: `out_payload` and the status. -/
def parsePayload (buf : List UInt8) (bufLen bufOffset : UInt32) : List Datum × Result Unit :=
  parseColumns buf bufLen r.payloadSchemas bufOffset []

/-- `DataFileReader::ReadRecord`: the vector's bytes and the payload. -/
def readRecord (grant : ℕ → ℕ → ℕ) (addr : AddressEntry) : Result (List UInt8 × List Datum) :=
  if ¬ r.isOpen then Status.invalidArgument "DataFileReader not open"
  else
    (r.readRaw grant addr.offset addr.size).bind fun buf =>
      let vecBytes := vecBytesOf r.dim
      if addr.size < vecBytes then Status.invalidArgument "Record too small for vector"
      else if r.payloadSchemas = [] then .ok (slice buf 0 vecBytes.toNat, [])
      else
        let parsed := r.parsePayload buf addr.size vecBytes
        parsed.2.map fun _ => (slice buf 0 vecBytes.toNat, parsed.1)

end DataFileReader

end VecFetch.Storage
