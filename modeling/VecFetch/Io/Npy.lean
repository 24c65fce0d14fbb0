/-
# Io.Npy -- arrays in NumPy's file format

A file is its bytes, and its header text is read a character a byte.  The header is a
Python dictionary that nobody parses: a key is looked for in the text, its value ends at
the first comma outside brackets, and the numbers of a shape are its runs of digits, each
kept in 32 bits.

A variable that a failed read leaves alone holds what it held (`Stale`).  A vector that
would take more than `room` bytes throws, and nothing catches it: such a call has no
outcome (`none`).
-/
import VecFetch.Common.Status
import VecFetch.Theory.Bytes
import Mathlib.Data.List.DropRight

namespace VecFetch.Io

open VecFetch.Theory

set_option autoImplicit false

/-! ## Text -/

abbrev Text := List Char

def textOf (bytes : List UInt8) : Text := bytes.map fun byte => Char.ofNat byte.toNat

def quote : Char := Char.ofNat 39

def doubleQuote : Char := Char.ofNat 34

def newline : Char := Char.ofNat 10

/-- `find`: the text from the first occurrence on. -/
def findText (pattern : Text) : Text → Option Text
  | [] => if pattern = [] then some [] else none
  | c :: text =>
      if pattern.isPrefixOf (c :: text) then some (c :: text) else findText pattern text

/-- The text up to the first comma or closing brace outside brackets, or the first bracket
that closes nothing. -/
def valueText : ℕ → Text → Text
  | _, [] => []
  | depth, c :: text =>
      if c = '(' ∨ c = '[' then c :: valueText (depth + 1) text
      else if c = ')' ∨ c = ']' then
        if 0 < depth then c :: valueText (depth - 1) text else []
      else if (c = ',' ∨ c = '}') ∧ depth = 0 then []
      else c :: valueText depth text

/-- `ExtractValue`. -/
def extractValue (header key : Text) : Text :=
  match (findText (quote :: key ++ [quote]) header).orElse
      fun _ => findText (doubleQuote :: key ++ [doubleQuote]) header with
  | none => []
  | some here =>
      match here.dropWhile fun c => c ≠ ':' with
      | [] => []
      | _ :: after =>
          (valueText 0 (after.dropWhile fun c => c = ' ')).rdropWhile fun c => c = ' '

/-- `ParseShape`, with the number it is reading; a byte above 127 is no digit. -/
def parseShapeFrom : Option UInt32 → Text → List UInt32
  | val, [] => val.toList
  | val, c :: text =>
      if c.isDigit then
        parseShapeFrom (some (val.getD 0 * 10 + UInt32.ofNat (c.toNat - 48))) text
      else val.toList ++ parseShapeFrom none text

def parseShape (text : Text) : List UInt32 := parseShapeFrom none text

/-- `StripQuotes`. -/
def stripQuotes (s : Text) : Text :=
  if 2 ≤ s.length ∧ (s.head? = some quote ∨ s.head? = some doubleQuote) then
    (s.drop 1).take (s.length - 2)
  else s

/-! ## The header -/

def kNpyMagic : List UInt8 := [0x93, 78, 85, 77, 80, 89]

/-- What the version holds before it is read. -/
structure Stale where
  major : UInt8
  minor : UInt8

structure NpyHeader where
  descr : Text
  fortranOrder : Bool
  shape : List UInt32
  dataOffset : ℕ

/-- The header text of a file, `len` bytes from `start` on, and where it ends. -/
def readHeaderText (room : ℕ) (path : String) (file : List UInt8) (start len : ℕ) :
    Option (Result (Text × ℕ)) :=
  if file.length < start then
    some (Status.ioError ("Failed to read npy header in: " ++ path))
  else if room < len then none
  else if file.length < start + len then
    some (Status.ioError ("Failed to read npy header in: " ++ path))
  else some (.ok (textOf (slice file start len), start + len))

/-- The reads of `ParseNpyHeader`. -/
def readHeader (room : ℕ) (stale : Stale) (path : String) (file : List UInt8) :
    Option (Result (Text × ℕ)) :=
  if file.take 6 ≠ kNpyMagic then
    some (Status.corruption ("Invalid npy magic in: " ++ path))
  else
    let major := file.getD 6 stale.major
    let minor := file.getD 7 stale.minor
    if major = 1 then readHeaderText room path file 10 (leValue (slice file 8 2))
    else if major = 2 then readHeaderText room path file 12 (leValue (slice file 8 4))
    else
      some (Status.invalidArgument ("Unsupported npy version: " ++ toString major ++ "." ++
        toString minor))

/-- The dictionary of `ParseNpyHeader`. -/
def parseHeader (header : Text) (dataOffset : ℕ) : NpyHeader where
  descr := stripQuotes (extractValue header "descr".toList)
  fortranOrder := decide (extractValue header "fortran_order".toList = "True".toList)
  shape := parseShape (extractValue header "shape".toList)
  dataOffset := dataOffset

/-- `ParseNpyHeader`; no file is one that could not be opened. -/
def parseNpyHeader (room : ℕ) (stale : Stale) (path : String) :
    Option (List UInt8) → Option (Result NpyHeader)
  | none => some (Status.ioError ("Failed to open npy file: " ++ path))
  | some file =>
      (readHeader room stale path file).map fun read =>
        read.map fun header => parseHeader header.1 header.2

/-! ## The loaders -/

/-- `NpyArrayFloat`, with the bits of its floats, and the two matrices of integers. -/
structure NpyArray (β : Type) where
  data : List β
  rows : UInt32
  cols : UInt32

structure NpyArrayInt64 where
  data : List Int64
  count : UInt32

/-- A `resize` to `count` elements and the read that fills them. -/
def readElements {β : Type} (room width : ℕ) (decode : ℕ → β) (path : String)
    (file : List UInt8) (dataOffset count : ℕ) : Option (Result (List β)) :=
  if room < width * count ∨ 2 ^ 63 ≤ width * count then none
  else if file.length < dataOffset + width * count then
    some (Status.ioError ("Failed to read npy data from: " ++ path))
  else
    some (.ok ((List.range count).map fun i =>
      decode (leValue (slice file (dataOffset + i * width) width))))

/-- What the loaders have in common: `extents` takes the shape for so many rows and columns. -/
def loadArray {β : Type} (room : ℕ) (stale : Stale) (path : String) (file : Option (List UInt8))
    (expected : String) (descrs : List Text) (extents : List UInt32 → Result (UInt32 × UInt32))
    (width : ℕ) (decode : ℕ → β) : Option (Result (NpyArray β)) :=
  (parseNpyHeader room stale path file).bind fun parsed =>
    match parsed with
    | .error failure => some (.error failure)
    | .ok hdr =>
        if hdr.descr ∉ descrs then
          some (Status.invalidArgument ("Expected " ++ expected ++ " dtype, got: " ++
            String.ofList hdr.descr))
        else if hdr.fortranOrder then
          some (Status.invalidArgument "Fortran order not supported")
        else
          match extents hdr.shape with
          | .error failure => some (.error failure)
          | .ok (rows, cols) =>
              (readElements room width decode path (file.getD []) hdr.dataOffset
                (rows.toNat * cols.toNat)).map fun read =>
                  read.map fun data => ⟨data, rows, cols⟩

/-- Any shape but an empty one; from the third dimension on it is not looked at. -/
def floatExtents : List UInt32 → Result (UInt32 × UInt32)
  | [] => Status.invalidArgument "Empty shape in npy file"
  | [rows] => .ok (rows, 1)
  | rows :: cols :: _ => .ok (rows, cols)

/-- Any shape but an empty one; from the second dimension on it is not looked at. -/
def vectorExtents : List UInt32 → Result (UInt32 × UInt32)
  | [] => Status.invalidArgument "Empty shape in npy file"
  | count :: _ => .ok (count, 1)

def matrixExtents (type path : String) : List UInt32 → Result (UInt32 × UInt32)
  | [rows, cols] => .ok (rows, cols)
  | _ => Status.invalidArgument ("Expected 2-D " ++ type ++ " matrix in npy file: " ++ path)

def float32Descrs : List Text := ["<f4".toList, "=f4".toList]

def int64Descrs : List Text := ["<i8".toList, "=i8".toList]

def int32Descrs : List Text := ["<i4".toList, "=i4".toList]

def loadNpyFloat32 (room : ℕ) (stale : Stale) (path : String) (file : Option (List UInt8)) :
    Option (Result (NpyArray UInt32)) :=
  loadArray room stale path file "float32 (<f4)" float32Descrs floatExtents 4 UInt32.ofNat

def loadNpyInt64 (room : ℕ) (stale : Stale) (path : String) (file : Option (List UInt8)) :
    Option (Result NpyArrayInt64) :=
  (loadArray room stale path file "int64 (<i8)" int64Descrs vectorExtents 8
    fun bits => (UInt64.ofNat bits).toInt64).map fun read =>
      read.map fun arr => ⟨arr.data, arr.rows⟩

def loadNpyInt64Matrix (room : ℕ) (stale : Stale) (path : String) (file : Option (List UInt8)) :
    Option (Result (NpyArray Int64)) :=
  loadArray room stale path file "int64 (<i8)" int64Descrs (matrixExtents "int64" path) 8
    fun bits => (UInt64.ofNat bits).toInt64

def loadNpyInt32Matrix (room : ℕ) (stale : Stale) (path : String) (file : Option (List UInt8)) :
    Option (Result (NpyArray Int32)) :=
  loadArray room stale path file "int32 (<i4)" int32Descrs (matrixExtents "int32" path) 4
    fun bits => (UInt32.ofNat bits).toInt32

/-! ## Saving -/

/-- The header text of a saved vector, without its padding. -/
def savedDict (count : ℕ) : Text :=
  "\x7b'descr': '<f4', 'fortran_order': False, 'shape': (".toList ++
    ((toString count).toList ++ ",), \x7d".toList)

/-- The blanks that fill the header up to 16 bytes, and the end of the line. -/
def padding (header : Text) : Text :=
  let totalMod := (10 + (header.length + 1)) % 16
  (if totalMod ≠ 0 then List.replicate (16 - totalMod) ' ' else []) ++ [newline]

/-- `SaveNpyFloat32Vector`: the bytes of the file, for floats given by their bits. -/
def saveNpyFloat32Vector (path : String) (values : List UInt32) : Result (List UInt8) :=
  let header := savedDict values.length ++ padding (savedDict values.length)
  if 65535 < header.length then
    Status.invalidArgument ("NPY header too large for v1.0: " ++ path)
  else
    .ok (kNpyMagic ++ ([1, 0] ++ (leBytes 2 header.length ++
      (header.map (fun c => UInt8.ofNat c.toNat) ++
        values.flatMap fun value => leBytes 4 value.toNat))))

end VecFetch.Io
