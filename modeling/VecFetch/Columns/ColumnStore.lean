/-
# Columns.ColumnStore -- columns written side by side, addressed by locators

Every column has its own buffer while rows are ingested, and a locator is an offset into
that buffer.  The serialised form puts the columns after each other behind a header with
one region offset each, and a variable-length column is followed by its offset table;
`ReadColumn` adds the region offset to the locator and never looks at the table.

A `std::vector` that would take more than `room` bytes throws, and nothing catches it: such
a call has no outcome (`none`).
-/
import VecFetch.Common.Datum
import VecFetch.Common.Status
import VecFetch.Theory.Bytes
import Mathlib.Logic.Function.Basic

namespace VecFetch.Columns

open VecFetch.Theory

set_option autoImplicit false

abbrev ColumnId := UInt32

/-- A `std::map` from columns to values. -/
abbrev Row := ColumnId → Option Datum

/-- `std::map::emplace`: an entry that is there stays. -/
def Row.emplace (row : Row) (id : ColumnId) (datum : Datum) : Row :=
  if (row id).isSome then row else Function.update row id (some datum)

structure ColumnLocator where
  chunkId : UInt32
  dataOffset : UInt64
  dataLength : UInt32
  offsetTablePos : UInt32
  deriving DecidableEq

abbrev IngestResult := List (ColumnId × ColumnLocator)

/-! ## One column -/

structure ColumnChunkWriter where
  schema : ColumnSchema
  chunkId : UInt32
  baseOffset : UInt64
  dataBuf : List UInt8 := []
  offsets : List UInt64 := []
  numRecords : UInt32 := 0

namespace ColumnChunkWriter

/-- A fresh writer; the offset table of variable-length values starts with 0. -/
def new (schema : ColumnSchema) (chunkId : UInt32) (baseOffset : UInt64) : ColumnChunkWriter :=
  { schema := schema, chunkId := chunkId, baseOffset := baseOffset
    offsets := if dTypeIsFixedWidth schema.dtype then [] else [0] }

/-- `Append` of some bytes. -/
def appendBytes (room : ℕ) (w : ColumnChunkWriter) (data : List UInt8) :
    Option (ColumnChunkWriter × Result ColumnLocator) :=
  let fileOffset := w.baseOffset + UInt64.ofNat w.dataBuf.length
  if dTypeIsFixedWidth w.schema.dtype then
    if data.length ≠ dTypeSize w.schema.dtype then
      some (w, Status.invalidArgument ("Append: expected " ++ toString (dTypeSize w.schema.dtype) ++
        " bytes for fixed-width column, got " ++ toString data.length))
    else if room < w.dataBuf.length + data.length then none
    else
      some ({ w with dataBuf := w.dataBuf ++ data, numRecords := w.numRecords + 1 },
        .ok ⟨w.chunkId, fileOffset, UInt32.ofNat data.length, 0⟩)
  else if room < w.dataBuf.length + data.length then none
  else if room < 8 * (w.offsets.length + 1) then none
  else
    some ({ w with
        dataBuf := w.dataBuf ++ data
        offsets := w.offsets ++ [UInt64.ofNat (w.dataBuf ++ data).length]
        numRecords := w.numRecords + 1 },
      .ok ⟨w.chunkId, fileOffset, UInt32.ofNat data.length, w.numRecords⟩)

/-- `Append(datum)`: the datum's own type says where its bytes are. -/
def append (room : ℕ) (w : ColumnChunkWriter) (datum : Datum) :
    Option (ColumnChunkWriter × Result ColumnLocator) :=
  w.appendBytes room datum.data

def dataSize (w : ColumnChunkWriter) : ℕ := w.dataBuf.length

def offsetTableSize (w : ColumnChunkWriter) : ℕ :=
  if dTypeIsFixedWidth w.schema.dtype then 0 else 8 * w.offsets.length

def offsetTable (w : ColumnChunkWriter) : List UInt8 :=
  if dTypeIsFixedWidth w.schema.dtype then []
  else w.offsets.flatMap fun offset => leBytes 8 offset.toNat

/-- The column's bytes in the serialised form. -/
def region (w : ColumnChunkWriter) : List UInt8 := w.dataBuf ++ w.offsetTable

theorem region_length (w : ColumnChunkWriter) :
    w.region.length = w.dataSize + w.offsetTableSize := by
  rw [region, List.length_append, dataSize, offsetTableSize, offsetTable]
  split
  · rfl
  · rw [List.length_flatMap, List.map_congr_left (fun _ _ => leBytes_length _ _),
      List.map_const', List.sum_replicate_nat, Nat.mul_comm]

end ColumnChunkWriter

/-- A reader over memory. -/
structure ColumnChunkReader where
  memData : List UInt8
  schema : ColumnSchema
  baseOffset : UInt64

namespace ColumnChunkReader

/-- `ReadBytes`; the sum it checks may wrap. -/
def readBytes (r : ColumnChunkReader) (absOffset : UInt64) (len : UInt32) :
    Result (List UInt8) :=
  let place := absOffset - r.baseOffset
  if r.memData.length < (place + len.toUInt64).toNat then
    Status.ioError ("ReadBytes: out of bounds (local=" ++ toString place ++ " len=" ++
      toString len ++ " size=" ++ toString r.memData.length ++ ")")
  else if r.memData.length < place.toNat + len.toNat then .error .outOfBounds
  else .ok (slice r.memData place.toNat len.toNat)

/-- `ReadDatum`. -/
def readDatum (r : ColumnChunkReader) (loc : ColumnLocator) : Result Datum :=
  if dTypeIsFixedWidth r.schema.dtype then
    if 8 < loc.dataLength then .error (.status .internal "ReadDatum: fixed value too large")
    else
      (r.readBytes loc.dataOffset loc.dataLength).map fun bytes =>
        { dtype := r.schema.dtype, fixed := Datum.fixedOf bytes }
  else if loc.dataLength = 0 then .ok { dtype := r.schema.dtype }
  else
    (r.readBytes loc.dataOffset loc.dataLength).map fun bytes =>
      { dtype := r.schema.dtype, varData := bytes }

end ColumnChunkReader

/-! ## The store -/

structure ColumnStore where
  schemas : List ColumnSchema := []
  writers : List ColumnChunkWriter := []
  numRows : UInt64 := 0
  openedForWrite : Bool := false
  readBuf : List UInt8 := []
  readers : List ColumnChunkReader := []
  openedForRead : Bool := false
  regionOffsets : List UInt64 := []
  idToIdx : ColumnId → Option ℕ := fun _ => none

namespace ColumnStore

/-- `BuildIdMap`: of two columns with one id the later one counts. -/
def buildIdMap (schemas : List ColumnSchema) : ColumnId → Option ℕ :=
  schemas.zipIdx.foldl (fun map entry => Function.update map entry.1.id (some entry.2))
    fun _ => none

/-- `Open`, for writing. -/
def «open» (s : ColumnStore) (schemas : List ColumnSchema) : Result ColumnStore :=
  if schemas = [] then Status.invalidArgument "Open: schema list is empty"
  else
    .ok { s with
      schemas := schemas
      idToIdx := buildIdMap schemas
      numRows := 0
      openedForWrite := true
      writers := schemas.map fun schema => .new schema 0 0 }

/-- The loop of `Ingest`: the columns before one that fails have taken their value. -/
def ingestColumns (room : ℕ) (columns : Row) : List ColumnSchema → List ColumnChunkWriter →
    Option (List ColumnChunkWriter × Result IngestResult)
  | [], writers => some (writers, .ok [])
  | _ :: _, [] => some ([], .error .outOfBounds)
  | schema :: schemas, w :: writers =>
      match columns schema.id with
      | none =>
          some (w :: writers,
            Status.invalidArgument ("Ingest: missing column " ++ toString schema.id))
      | some datum =>
          (w.append room datum).bind fun appended =>
            match appended.2 with
            | .error failure => some (appended.1 :: writers, .error failure)
            | .ok loc =>
                (ingestColumns room columns schemas writers).map fun rest =>
                  (appended.1 :: rest.1, rest.2.map fun locs => (schema.id, loc) :: locs)

def ingest (room : ℕ) (s : ColumnStore) (columns : Row) :
    Option (ColumnStore × Result IngestResult) :=
  if s.openedForWrite then
    (ingestColumns room columns s.schemas s.writers).map fun done =>
      match done.2 with
      | .error failure => ({ s with writers := done.1 }, .error failure)
      | .ok locs => ({ s with writers := done.1, numRows := s.numRows + 1 }, .ok locs)
  else some (s, Status.invalidArgument "Ingest: store not opened for writing")

/-- The region offsets, and the cursor behind the last region. -/
def layout : List ColumnChunkWriter → UInt64 → List UInt64 × UInt64
  | [], cursor => ([], cursor)
  | w :: writers, cursor =>
      let rest := layout writers
        (cursor + UInt64.ofNat w.dataSize + UInt64.ofNat w.offsetTableSize)
      (cursor :: rest.1, rest.2)

/-- `SerialiseAll`. -/
def serialiseAll (room : ℕ) (s : ColumnStore) : Option (Result (List UInt8)) :=
  if s.openedForWrite then
    let headerSize : UInt64 := 4 + UInt64.ofNat s.writers.length * 8
    let regions := layout s.writers 0
    let totalSize := headerSize + regions.2
    let nc := UInt32.ofNat s.writers.length
    let image := leBytes 4 nc.toNat ++
      (regions.1.flatMap (fun offset => leBytes 8 offset.toNat) ++
        s.writers.flatMap ColumnChunkWriter.region)
    if room < totalSize.toNat then none
    else some (if totalSize.toNat < image.length then .error .outOfBounds else .ok image)
  else some (Status.invalidArgument "SerialiseAll: store not opened for writing")

/-- `OpenForRead` of a buffer.  A store whose buffer is refused still counts as opened. -/
def openForRead (s : ColumnStore) (data : List UInt8) (schemas : List ColumnSchema) :
    ColumnStore × Result Unit :=
  let s := { s with
    schemas := schemas, idToIdx := buildIdMap schemas, openedForRead := true, readBuf := data }
  let headerSize := 4 + schemas.length * 8
  if data.length < headerSize then
    (s, Status.invalidArgument "OpenForRead: buffer too small for header")
  else
    let storedNumCols := leValue (slice data 0 4)
    if storedNumCols ≠ schemas.length then
      (s, Status.invalidArgument ("OpenForRead: schema mismatch (expected " ++
        toString schemas.length ++ " columns, file has " ++ toString storedNumCols ++ ")"))
    else
      ({ s with
          regionOffsets := (List.range schemas.length).map fun i =>
            UInt64.ofNat (leValue (slice data (4 + i * 8) 8))
          readers := schemas.map fun schema => ⟨data.drop headerSize, schema, 0⟩ },
        .ok ())

/-- What `OpenForRead` of a path meets: `readFails` is a file of `size` bytes of which only
some could be read. -/
inductive FileRead where
  | notOpened
  | notStated
  | readFails (size : ℕ) (start : List UInt8)
  | content (data : List UInt8)

/-- `read_buf` where only the start of a file was read into it. -/
def partlyRead (buf : List UInt8) (size : ℕ) (start : List UInt8) : List UInt8 :=
  start ++ ((buf ++ List.replicate (size - buf.length) 0).take size).drop start.length

/-- `OpenForRead` of a file, with the schemas the store has. -/
def openForReadFile (s : ColumnStore) (path : String) (file : FileRead) :
    ColumnStore × Result Unit :=
  match file with
  | .notOpened => (s, Status.ioError ("OpenForRead: cannot open " ++ path))
  | .notStated => (s, Status.ioError "OpenForRead: fstat failed")
  | .readFails size start =>
      ({ s with readBuf := partlyRead s.readBuf size start },
        Status.ioError "OpenForRead: read failed")
  | .content data =>
      let s := { s with readBuf := data }
      let headerSize := 4 + s.schemas.length * 8
      if s.schemas = [] then
        (s, Status.invalidArgument ("OpenForRead(path): schemas not set.  Call Open() first or " ++
          "use the overload that accepts schemas."))
      else if data.length < headerSize then
        (s, Status.invalidArgument "OpenForRead: file too small for header")
      else
        let storedNumCols := leValue (slice data 0 4)
        if storedNumCols ≠ s.schemas.length then
          (s, Status.invalidArgument ("OpenForRead: schema mismatch (expected " ++
            toString s.schemas.length ++ " columns, file has " ++ toString storedNumCols ++ ")"))
        else
          ({ s with
              regionOffsets := (List.range s.schemas.length).map fun i =>
                UInt64.ofNat (leValue (slice data (4 + i * 8) 8))
              idToIdx := buildIdMap s.schemas
              openedForRead := true
              readers := s.schemas.map fun schema => ⟨data.drop headerSize, schema, 0⟩ },
            .ok ())

/-- `ReadColumn`. -/
def readColumn (s : ColumnStore) (id : ColumnId) (loc : ColumnLocator) : Result Datum :=
  if s.openedForRead then
    match s.idToIdx id with
    | none => .error (.status .notFound ("ReadColumn: unknown column " ++ toString id))
    | some idx =>
        let adjusted :=
          match s.regionOffsets[idx]? with
          | none => loc
          | some offset =>
              { loc with
                dataOffset := loc.dataOffset + offset
                offsetTablePos := loc.offsetTablePos + offset.toUInt32 }
        match s.readers[idx]? with
        | none => .error .outOfBounds
        | some reader => reader.readDatum adjusted
  else Status.invalidArgument "ReadColumn: store not opened for reading"

/-- The keys of `wanted`, in the order a `std::map` has them. -/
def wantedIds (columnIds : List ColumnId) : List ColumnId :=
  (columnIds.mergeSort fun a b => decide (a ≤ b)).dedup

/-- The locator `wanted` has for a column: the last one in the list. -/
def wantedLoc (locs : IngestResult) (id : ColumnId) : Option ColumnLocator :=
  (locs.reverse.find? fun entry => entry.1 = id).map (·.2)

section Rows

variable (readColumn : ColumnId → ColumnLocator → Result Datum)

/-- The loop of `Read`. -/
def readInto : IngestResult → Row → Result Row
  | [], row => .ok row
  | (id, loc) :: locs, row =>
      (readColumn id loc).bind fun datum => readInto locs (row.emplace id datum)

/-- The loop of `ReadColumns`. -/
def readWanted (locs : IngestResult) : List ColumnId → Row → Result Row
  | [], row => .ok row
  | id :: ids, row =>
      match wantedLoc locs id with
      | none =>
          .error (.status .notFound
            ("ReadColumns: locator not found for column " ++ toString id))
      | some loc =>
          (readColumn id loc).bind fun datum => readWanted locs ids (row.emplace id datum)

end Rows

def read (s : ColumnStore) (locs : IngestResult) : Result Row :=
  readInto s.readColumn locs fun _ => none

def readColumns (s : ColumnStore) (locs : IngestResult) (columnIds : List ColumnId) :
    Result Row :=
  readWanted s.readColumn locs (wantedIds columnIds) fun _ => none

/-! ## A whole store -/

/-- All rows, one after the other. -/
def ingestAll (room : ℕ) : List Row → ColumnStore → Option (Result (ColumnStore × List IngestResult))
  | [], s => some (.ok (s, []))
  | row :: rows, s =>
      (s.ingest room row).bind fun done =>
        match done.2 with
        | .error failure => some (.error failure)
        | .ok locs =>
            (ingestAll room rows done.1).map fun rest =>
              rest.map fun last => (last.1, locs :: last.2)

/-- The locators and the serialised form of some rows. -/
def writeAll (room : ℕ) (s : ColumnStore) (schemas : List ColumnSchema) (rows : List Row) :
    Option (Result (List IngestResult × List UInt8)) :=
  match s.open schemas with
  | .error failure => some (.error failure)
  | .ok opened =>
      (ingestAll room rows opened).bind fun ingested =>
        match ingested with
        | .error failure => some (.error failure)
        | .ok last => (last.1.serialiseAll room).map fun image =>
            image.map fun bytes => (last.2, bytes)

end ColumnStore

end VecFetch.Columns
