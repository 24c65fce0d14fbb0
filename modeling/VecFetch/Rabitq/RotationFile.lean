/-
# Rabitq.RotationFile -- a rotation in a file

`Save` writes the dimension, the dense matrix and one byte of flags, and behind them the
parts that only some kinds have; `Load` reads them back and checks what it reads.  A file is
a list of cells: bytes, except that four cells can hold an exact number (`ExactCells`).

What `Save` writes of a generated rotation, `Load` accepts, and the loaded rotation does
with every vector what the generated one does (`load_save_applies`).  A slow FHT-Kac
rotation is loaded as a fast one, and a slow Hadamard rotation as a random one; neither is
seen in what they compute.
-/
import VecFetch.Common.Status
import VecFetch.Rabitq.RotationSound
import VecFetch.Theory.Bytes

namespace VecFetch.Rabitq

open VecFetch.Theory VecFetch.Simd

set_option autoImplicit false

/-! ## Files -/

/-- What a file is made of: a cell read as a byte, four cells read as a `float`. -/
structure FileCells (K : Type) where
  Cell : Type
  byteOf : Cell → UInt8
  floatOf : List Cell → K

/-- Cells that hold bytes and exact numbers. -/
structure ExactCells (K : Type) extends FileCells K where
  ofByte : UInt8 → Cell
  byteOf_ofByte : ∀ b, byteOf (ofByte b) = b
  ofFloat : K → List Cell
  ofFloat_length : ∀ x, (ofFloat x).length = 4
  floatOf_ofFloat : ∀ x, floatOf (ofFloat x) = x

section Reads

variable {K : Type} (cells : FileCells K)

/-- `ifs.read(dst, n)` and what it leaves; a stream that ends before is no longer good. -/
def read (n : ℕ) (ifs : List cells.Cell) : Option (List cells.Cell × List cells.Cell) :=
  if n ≤ ifs.length then some (ifs.take n, ifs.drop n) else none

def readBytes (n : ℕ) (ifs : List cells.Cell) : Option (List UInt8 × List cells.Cell) :=
  (read cells n ifs).map fun p => (p.1.map cells.byteOf, p.2)

/-- `n` words of 32 bits. -/
def readWords (n : ℕ) (ifs : List cells.Cell) : Option (List UInt32 × List cells.Cell) :=
  (readBytes cells (n * 4) ifs).map fun p =>
    ((List.range n).map fun i => UInt32.ofNat (word32 p.1 (i * 4)), p.2)

/-- One word of 32 bits. -/
def readWord (ifs : List cells.Cell) : Option (UInt32 × List cells.Cell) :=
  (readBytes cells 4 ifs).map fun p => (UInt32.ofNat (leValue p.1), p.2)

/-- `n` entries of type `int8_t`. -/
def readSigns (n : ℕ) (ifs : List cells.Cell) : Option (List ℤ × List cells.Cell) :=
  (readBytes cells n ifs).map fun p => (p.1.map fun b => b.toInt8.toInt, p.2)

/-- A buffer of `n` floats. -/
def readFloats (n : ℕ) (ifs : List cells.Cell) : Option ((ℕ → K) × List cells.Cell) :=
  (read cells (n * 4) ifs).map fun p => (fun t => cells.floatOf (slice p.1 (t * 4) 4), p.2)

/-- `if (!ifs.good()) return Status::Corruption(message)`. -/
def good {α : Type} (message : String) : Option α → Result α
  | some x => .ok x
  | none => Status.corruption message

end Reads

/-! ## Load -/

section Load

variable {K : Type} [Field K] [LinearOrder K] (cells : FileCells K)

def kindOf (flags : UInt8) : RotationKind :=
  if flags &&& 2 ≠ 0 then .blockedHadamardPermuted
  else if flags &&& 4 ≠ 0 then .fhtKacRotator
  else if flags &&& 1 ≠ 0 then .hadamard
  else .randomMatrix

/-- The loop that adds up the blocks, in 32 bits. -/
def sumBlocks : UInt32 → List UInt32 → Result UInt32
  | total, [] => .ok total
  | total, block :: blocks =>
      if isPowerOf2 block then sumBlocks (total + block) blocks
      else Status.corruption "Blocked hadamard block is not power-of-2"

/-- The loop over the permutation: every entry below `dim`, and none seen before. -/
def permutationValid (dim : UInt32) : (ℕ → Bool) → List UInt32 → Bool
  | _, [] => true
  | seen, p :: permutation =>
      if dim ≤ p ∨ seen p.toNat then false
      else permutationValid dim (Function.update seen p.toNat true) permutation

/-- `diag_signs`, which only a fast rotation has that is not FHT-Kac. -/
def loadDiagSigns (flags : UInt8) (dim : UInt32) (ifs : List cells.Cell) :
    Result (List ℤ × List cells.Cell) :=
  if flags &&& 1 ≠ 0 ∧ flags &&& 4 = 0 then
    good "Failed to read diag_signs from rotation file" (readSigns cells dim.toNat ifs)
  else .ok ([], ifs)

/-- The seed, the count of blocks, the blocks and the permutation. -/
def loadBlocked (result : RotationMatrix K) (ifs : List cells.Cell) :
    Result (RotationMatrix K) := do
  let (_, ifs) ← good "Failed to read blocked hadamard metadata" (readBytes cells 8 ifs)
  let (numBlocks, ifs) ← good "Failed to read blocked hadamard metadata" (readWord cells ifs)
  let (blockSizes, ifs) ←
    good "Failed to read blocked hadamard payload" (readWords cells numBlocks.toNat ifs)
  let (permutation, _) ←
    good "Failed to read blocked hadamard payload" (readWords cells result.dim.toNat ifs)
  let total ← sumBlocks 0 blockSizes
  if total ≠ result.dim then
    Status.corruption "Blocked hadamard blocks do not cover dimension"
  else if permutationValid result.dim (fun _ => false) permutation then
    .ok { result with blockSizes := blockSizes, permutation := permutation }
  else Status.corruption "Blocked hadamard permutation is invalid"

/-- The seed, the three sizes and the signs of all rounds. -/
def loadFhtKac (result : RotationMatrix K) (ifs : List cells.Cell) :
    Result (RotationMatrix K) := do
  let (_, ifs) ← good "Failed to read fht-kac metadata" (readBytes cells 8 ifs)
  let (paddedDim, ifs) ← good "Failed to read fht-kac metadata" (readWord cells ifs)
  let (truncDim, ifs) ← good "Failed to read fht-kac metadata" (readWord cells ifs)
  let (numRounds, ifs) ← good "Failed to read fht-kac metadata" (readWord cells ifs)
  if paddedDim ≠ result.dim ∨ roundUpToMultiple result.dim 64 ≠ result.dim then
    Status.corruption "FhtKac padded dimension mismatch"
  else if ¬ isPowerOf2 truncDim ∨ result.dim < truncDim then
    Status.corruption "FhtKac trunc_dim is invalid"
  else do
    let (signs, _) ← good "Failed to read fht-kac sign payload"
      (readSigns cells (numRounds.toNat * result.dim.toNat) ifs)
    .ok { result with
      fhtKacPaddedDim := paddedDim
      fhtKacTruncDim := truncDim
      fhtKacNumRounds := numRounds.toNat
      fhtKacSigns := signs }

/-- What follows the flags. -/
def loadKind (dim : UInt32) (data : ℕ → K) (flags : UInt8) (ifs : List cells.Cell) :
    Result (RotationMatrix K) := do
  let (diagSigns, ifs) ← loadDiagSigns cells flags dim ifs
  let result : RotationMatrix K :=
    { dim := dim
      data := data
      kind := kindOf flags
      useFastHadamard := decide (flags &&& 1 ≠ 0 ∨ flags &&& 4 ≠ 0)
      diagSigns := diagSigns }
  if flags &&& 2 ≠ 0 then loadBlocked cells result ifs
  else if flags &&& 4 ≠ 0 then loadFhtKac cells result ifs
  else .ok result

/-- `RotationMatrix::Load`, on the content of a file that could be opened. -/
def RotationMatrix.load (ifs : List cells.Cell) (dim : UInt32) : Result (RotationMatrix K) := do
  let (fileDim, ifs) ← good "Failed to read dim from rotation file" (readWord cells ifs)
  if fileDim ≠ dim then
    Status.invalidArgument ("Rotation matrix dimension mismatch: expected " ++ toString dim ++
      ", got " ++ toString fileDim)
  else do
    let (data, ifs) ← good "Failed to read rotation matrix data"
      (readFloats cells (dim.toNat * dim.toNat) ifs)
    let (flags, ifs) ← good "Failed to read flags from rotation file" (readBytes cells 1 ifs)
    loadKind cells dim data (flags.headD 0) ifs

end Load

/-! ## Save -/

section Save

variable {K : Type} (cells : ExactCells K)

def writeBytes (bytes : List UInt8) : List cells.Cell := bytes.map cells.ofByte

def writeWords (words : List UInt32) : List cells.Cell :=
  writeBytes cells (words.flatMap fun w => leBytes 4 w.toNat)

def writeSigns (signs : List ℤ) : List cells.Cell :=
  writeBytes cells (signs.map fun s => (Int8.ofInt s).toUInt8)

/-- Bit 0 for a fast rotation, bits 1 and 2 for two of the kinds. -/
def flagsOf (r : RotationMatrix K) : UInt8 :=
  let flags : UInt8 := if r.useFastHadamard then 1 else 0
  if r.kind = .blockedHadamardPermuted then flags ||| 2
  else if r.kind = .fhtKacRotator then flags ||| 4
  else flags

def saveDiagSigns (r : RotationMatrix K) : List cells.Cell :=
  if r.useFastHadamard ∧ r.kind ≠ .fhtKacRotator then writeSigns cells r.diagSigns else []

def saveBlocked (seed : UInt64) (r : RotationMatrix K) : List cells.Cell :=
  writeBytes cells (leBytes 8 seed.toNat) ++
    (writeBytes cells (leBytes 4 (UInt32.ofNat r.blockSizes.length).toNat) ++
      (writeWords cells r.blockSizes ++ writeWords cells r.permutation))

def saveFhtKac (seed : UInt64) (r : RotationMatrix K) : List cells.Cell :=
  writeBytes cells (leBytes 8 seed.toNat) ++
    (writeBytes cells (leBytes 4 r.fhtKacPaddedDim.toNat) ++
      (writeBytes cells (leBytes 4 r.fhtKacTruncDim.toNat) ++
        (writeBytes cells (leBytes 4 r.fhtKacNumRounds) ++ writeSigns cells r.fhtKacSigns)))

/-- What `Save` writes behind the flags; `seed` is the one the rotation was made with. -/
def saveKind (seed : UInt64) (r : RotationMatrix K) : List cells.Cell :=
  saveDiagSigns cells r ++
    if flagsOf r &&& 2 ≠ 0 then saveBlocked cells seed r
    else if flagsOf r &&& 4 ≠ 0 then saveFhtKac cells seed r
    else []

/-- `RotationMatrix::Save`: what it leaves in the file. -/
def RotationMatrix.save (seed : UInt64) (r : RotationMatrix K) : List cells.Cell :=
  writeBytes cells (leBytes 4 r.dim.toNat) ++
    ((List.range (r.dim.toNat * r.dim.toNat)).flatMap (fun t => cells.ofFloat (r.data t)) ++
      (writeBytes cells [flagsOf r] ++ saveKind cells seed r))

end Save

/-! ## Reading what was written -/

section RoundTrip

variable {K : Type} (cells : ExactCells K)

theorem read_append {n : ℕ} {part : List cells.Cell} (whole : part.length = n)
    (rest : List cells.Cell) : read cells.toFileCells n (part ++ rest) = some (part, rest) := by
  subst whole
  rw [read, if_pos (by rw [List.length_append]; omega), List.take_left, List.drop_left]

theorem readBytes_append {n : ℕ} {bytes : List UInt8} (whole : bytes.length = n)
    (rest : List cells.Cell) :
    readBytes cells.toFileCells n (writeBytes cells bytes ++ rest) = some (bytes, rest) := by
  have back : (writeBytes cells bytes).map cells.byteOf = bytes := by
    rw [writeBytes, List.map_map]
    exact List.map_id'' (fun b => cells.byteOf_ofByte b) bytes
  rw [readBytes, read_append cells (by rw [writeBytes, List.length_map, whole]), Option.map_some,
    back]

theorem readWord_append {v : ℕ} (small : v < 2 ^ 32) (rest : List cells.Cell) :
    readWord cells.toFileCells (writeBytes cells (leBytes 4 v) ++ rest) =
      some (UInt32.ofNat v, rest) := by
  rw [readWord, readBytes_append cells (leBytes_length 4 v), Option.map_some,
    leValue_leBytes small]

theorem readWords_append {n : ℕ} {words : List UInt32} (whole : words.length = n)
    (rest : List cells.Cell) :
    readWords cells.toFileCells n (writeWords cells words ++ rest) = some (words, rest) := by
  subst whole
  have widths : (words.flatMap fun w => leBytes 4 w.toNat).length = words.length * 4 := by
    induction words with
    | nil => rfl
    | cons w words ih =>
        rw [List.flatMap_cons, List.length_append, ih, leBytes_length, List.length_cons]
        omega
  have back : (List.range words.length).map (fun i => UInt32.ofNat
      (word32 (words.flatMap fun w => leBytes 4 w.toNat) (i * 4))) = words := by
    refine List.ext_getElem (by rw [List.length_map, List.length_range]) fun i _ inside => ?_
    have here := slice_flatMap (f := fun w : UInt32 => leBytes 4 w.toNat)
      (fun w => leBytes_length 4 w.toNat) (List.getElem?_eq_getElem inside) []
    rw [List.append_nil] at here
    rw [List.getElem_map, List.getElem_range, word32_of_slice here (UInt32.toNat_lt _),
      UInt32.ofNat_toNat]
  rw [readWords, writeWords, readBytes_append cells widths, Option.map_some, back]

/-- `n` signs, one for each entry. -/
structure HasSigns (signs : List ℤ) (n : ℕ) : Prop where
  length : signs.length = n
  sign : ∀ s ∈ signs, s = 1 ∨ s = -1

theorem readSigns_append {n : ℕ} {signs : List ℤ} (stored : HasSigns signs n)
    (rest : List cells.Cell) :
    readSigns cells.toFileCells n (writeSigns cells signs ++ rest) = some (signs, rest) := by
  have back : (signs.map fun s => (Int8.ofInt s).toUInt8).map (fun b => b.toInt8.toInt) =
      signs := by
    rw [List.map_map]
    refine (List.map_congr_left fun s mem => ?_).trans (List.map_id signs)
    rcases stored.sign s mem with rfl | rfl <;> decide
  rw [readSigns, writeSigns, readBytes_append cells (by rw [List.length_map, stored.length]),
    Option.map_some, back]

/-- The floats that were written, entry by entry. -/
theorem readFloats_append (n : ℕ) (data : ℕ → K) (rest : List cells.Cell) :
    ∃ loaded : ℕ → K, (∀ t, t < n → loaded t = data t) ∧
      readFloats cells.toFileCells n ((List.range n).flatMap (fun t => cells.ofFloat (data t)) ++
        rest) = some (loaded, rest) := by
  have widths : ((List.range n).flatMap fun t => cells.ofFloat (data t)).length = n * 4 := by
    rw [List.length_flatMap]
    simp only [cells.ofFloat_length, List.map_const', List.length_range, List.sum_replicate,
      smul_eq_mul]
  refine ⟨_, fun t below => ?_, by rw [readFloats, read_append cells widths, Option.map_some]⟩
  have here := slice_flatMap (f := fun t => cells.ofFloat (data t))
    (fun t => cells.ofFloat_length (data t)) (List.getElem?_range below) []
  rw [List.append_nil] at here
  dsimp only
  rw [here, cells.floatOf_ofFloat]

end RoundTrip

/-! ## Load of Save -/

section LoadSave

variable {K : Type} [Field K] [LinearOrder K] (cells : ExactCells K)

/-- A rotation whose parts `Load` accepts. -/
inductive Storable : RotationMatrix K → Prop
  | random (dim : UInt32) (data : ℕ → K) : Storable { dim := dim, data := data }
  | hadamard {dim : UInt32} (data : ℕ → K) (fast : Bool) {signs : List ℤ}
      (stored : HasSigns signs dim.toNat) :
      Storable
        { dim := dim, data := data, kind := .hadamard, useFastHadamard := fast
          diagSigns := signs }
  | blocked {dim : UInt32} (data : ℕ → K) (fast : Bool) {signs : List ℤ}
      {blockSizes permutation : List UInt32} (stored : HasSigns signs dim.toNat)
      (few : blockSizes.length < 2 ^ 32) (covers : sumBlocks 0 blockSizes = .ok dim)
      (length : permutation.length = dim.toNat)
      (valid : permutationValid dim (fun _ => false) permutation = true) :
      Storable
        { dim := dim, data := data, kind := .blockedHadamardPermuted, useFastHadamard := fast
          diagSigns := signs, blockSizes := blockSizes, permutation := permutation }
  | fhtKac {dim : UInt32} (data : ℕ → K) (fast : Bool) {truncDim : UInt32} {numRounds : ℕ}
      {signs : List ℤ} (padded : roundUpToMultiple dim 64 = dim)
      (power : isPowerOf2 truncDim = true) (inside : truncDim ≤ dim) (few : numRounds < 2 ^ 32)
      (stored : HasSigns signs (numRounds * dim.toNat)) :
      Storable
        { dim := dim, data := data, kind := .fhtKacRotator, useFastHadamard := fast
          fhtKacPaddedDim := dim, fhtKacTruncDim := truncDim, fhtKacNumRounds := numRounds
          fhtKacSigns := signs }

/-- The kind that is read back: that of a slow Hadamard rotation is not kept. -/
def reloadedKind (r : RotationMatrix K) : RotationKind :=
  if r.kind = .hadamard ∧ r.useFastHadamard = false then .randomMatrix else r.kind

/-- The rotation that is read back, with the matrix as it was loaded. -/
def reloaded (r : RotationMatrix K) (data : ℕ → K) : RotationMatrix K :=
  { r with
    data := data
    kind := reloadedKind r
    useFastHadamard := r.useFastHadamard || decide (r.kind = .fhtKacRotator)
    diagSigns := if r.useFastHadamard then r.diagSigns else [] }

@[simp] theorem good_some {α : Type} (message : String) (x : α) :
    good message (some x) = .ok x := rfl

@[simp] theorem ok_bind {α β : Type} (x : α) (f : α → Result β) :
    ((Except.ok x : Result α) >>= f) = f x := rfl

omit [Field K] [LinearOrder K] in
theorem flagsOf_fast (r : RotationMatrix K) :
    flagsOf r &&& 1 ≠ 0 ↔ r.useFastHadamard = true := by
  rw [flagsOf]
  cases r.useFastHadamard <;> cases r.kind <;> decide

omit [Field K] [LinearOrder K] in
theorem flagsOf_blocked (r : RotationMatrix K) :
    flagsOf r &&& 2 ≠ 0 ↔ r.kind = .blockedHadamardPermuted := by
  rw [flagsOf]
  cases r.useFastHadamard <;> cases r.kind <;> decide

omit [Field K] [LinearOrder K] in
theorem flagsOf_fhtKac (r : RotationMatrix K) :
    flagsOf r &&& 4 ≠ 0 ↔ r.kind = .fhtKacRotator := by
  rw [flagsOf]
  cases r.useFastHadamard <;> cases r.kind <;> decide

omit [Field K] [LinearOrder K] in
theorem loadDiagSigns_save {r : RotationMatrix K}
    (stored : r.useFastHadamard = true → r.kind ≠ .fhtKacRotator →
      HasSigns r.diagSigns r.dim.toNat)
    (none : r.kind = .fhtKacRotator → r.diagSigns = []) (rest : List cells.Cell) :
    loadDiagSigns cells.toFileCells (flagsOf r) r.dim (saveDiagSigns cells r ++ rest) =
      .ok (if r.useFastHadamard then r.diagSigns else [], rest) := by
  have written_iff : flagsOf r &&& 1 ≠ 0 ∧ flagsOf r &&& 4 = 0 ↔
      r.useFastHadamard = true ∧ r.kind ≠ .fhtKacRotator := by
    rw [flagsOf_fast, ne_eq r.kind, ← not_iff_not.2 (flagsOf_fhtKac r), not_ne_iff]
  rw [loadDiagSigns, saveDiagSigns]
  by_cases written : r.useFastHadamard = true ∧ r.kind ≠ .fhtKacRotator
  · rw [if_pos (written_iff.2 written), if_pos written,
      readSigns_append cells (stored written.1 written.2), good_some, if_pos written.1]
  · rw [if_neg fun read => written (written_iff.1 read), if_neg written, List.nil_append]
    by_cases fast : r.useFastHadamard = true
    · rw [if_pos fast, none (not_not.1 fun other => written ⟨fast, other⟩)]
    · rw [if_neg fast]

omit [Field K] [LinearOrder K] in
theorem loadBlocked_save (seed : UInt64) {r result : RotationMatrix K}
    (same : result.dim = r.dim) (few : r.blockSizes.length < 2 ^ 32)
    (covers : sumBlocks 0 r.blockSizes = .ok r.dim)
    (length : r.permutation.length = r.dim.toNat)
    (valid : permutationValid r.dim (fun _ => false) r.permutation = true) :
    loadBlocked cells.toFileCells result (saveBlocked cells seed r) =
      .ok { result with blockSizes := r.blockSizes, permutation := r.permutation } := by
  have count : (UInt32.ofNat r.blockSizes.length).toNat = r.blockSizes.length := by
    rw [UInt32.toNat_ofNat', Nat.mod_eq_of_lt few]
  have permutation := readWords_append cells length []
  rw [List.append_nil] at permutation
  simp only [loadBlocked, saveBlocked, readBytes_append cells (leBytes_length 8 seed.toNat),
    readWord_append cells (UInt32.toNat_lt _), readWords_append cells count.symm, permutation,
    UInt32.ofNat_toNat, good_some, ok_bind, same, covers, valid, ne_eq, not_true_eq_false,
    if_false, if_true]

omit [Field K] [LinearOrder K] in
theorem loadFhtKac_save (seed : UInt64) {r result : RotationMatrix K}
    (same : result.dim = r.dim) (whole : r.fhtKacPaddedDim = r.dim)
    (padded : roundUpToMultiple r.dim 64 = r.dim) (power : isPowerOf2 r.fhtKacTruncDim = true)
    (inside : r.fhtKacTruncDim ≤ r.dim) (few : r.fhtKacNumRounds < 2 ^ 32)
    (stored : HasSigns r.fhtKacSigns (r.fhtKacNumRounds * r.dim.toNat)) :
    loadFhtKac cells.toFileCells result (saveFhtKac cells seed r) =
      .ok { result with
        fhtKacPaddedDim := r.fhtKacPaddedDim
        fhtKacTruncDim := r.fhtKacTruncDim
        fhtKacNumRounds := r.fhtKacNumRounds
        fhtKacSigns := r.fhtKacSigns } := by
  have rounds : (UInt32.ofNat r.fhtKacNumRounds).toNat = r.fhtKacNumRounds := by
    rw [UInt32.toNat_ofNat', Nat.mod_eq_of_lt few]
  have signs := readSigns_append cells stored []
  rw [List.append_nil] at signs
  simp only [loadFhtKac, saveFhtKac, readBytes_append cells (leBytes_length 8 seed.toNat),
    readWord_append cells (UInt32.toNat_lt _), readWord_append cells few, signs,
    UInt32.ofNat_toNat, good_some, ok_bind, same, whole, padded, power, rounds, ne_eq,
    not_true_eq_false, UInt32.not_lt.2 inside, or_self, if_false]

omit [Field K] [LinearOrder K] in
theorem kindOf_flagsOf {r : RotationMatrix K}
    (dense : r.kind = .randomMatrix → r.useFastHadamard = false) :
    kindOf (flagsOf r) = reloadedKind r := by
  rw [kindOf, reloadedKind, flagsOf]
  revert dense
  cases r.useFastHadamard <;> cases r.kind <;> decide

omit [Field K] [LinearOrder K] in
theorem fast_flagsOf (r : RotationMatrix K) :
    decide (flagsOf r &&& 1 ≠ 0 ∨ flagsOf r &&& 4 ≠ 0) =
      (r.useFastHadamard || decide (r.kind = .fhtKacRotator)) := by
  simp only [flagsOf_fast, flagsOf_fhtKac, Bool.decide_or, Bool.decide_eq_true]

omit [Field K] [LinearOrder K] in
/-- What is behind the flags, read back. -/
theorem loadKind_saveKind (seed : UInt64) {r : RotationMatrix K} (storable : Storable r)
    (data : ℕ → K) :
    loadKind cells.toFileCells r.dim data (flagsOf r) (saveKind cells seed r) =
      .ok (reloaded r data) := by
  have signs := loadDiagSigns_save cells (r := r)
    (by cases storable <;> simp_all) (by cases storable <;> simp)
  rw [loadKind, saveKind, signs, ok_bind]
  dsimp only
  rw [kindOf_flagsOf (by cases storable <;> simp), fast_flagsOf]
  have blocked_iff := flagsOf_blocked r
  have fhtKac_iff := flagsOf_fhtKac r
  have plain : r.kind ≠ .blockedHadamardPermuted → r.kind ≠ .fhtKacRotator →
      ¬ flagsOf r &&& 2 ≠ 0 ∧ ¬ flagsOf r &&& 4 ≠ 0 := fun other other' =>
    ⟨fun flag => other (blocked_iff.1 flag), fun flag => other' (fhtKac_iff.1 flag)⟩
  cases storable with
  | random dim old =>
      obtain ⟨notBlocked, notFhtKac⟩ := plain (by simp) (by simp)
      rw [if_neg notBlocked, if_neg notFhtKac]
      rfl
  | hadamard old fast stored =>
      obtain ⟨notBlocked, notFhtKac⟩ := plain (by simp) (by simp)
      rw [if_neg notBlocked, if_neg notFhtKac]
      rfl
  | blocked old fast stored few covers length valid =>
      rw [if_pos (blocked_iff.2 rfl), if_pos (blocked_iff.2 rfl)]
      exact loadBlocked_save cells seed rfl few covers length valid
  | fhtKac old fast padded power inside few stored =>
      have notBlocked := mt blocked_iff.1 (by simp)
      rw [if_neg notBlocked, if_neg notBlocked, if_pos (fhtKac_iff.2 rfl),
        if_pos (fhtKac_iff.2 rfl)]
      exact loadFhtKac_save cells seed rfl rfl padded power inside few stored

omit [Field K] [LinearOrder K] in
/-- **What was saved is loaded**, with the parts its kind has. -/
theorem load_save (seed : UInt64) {r : RotationMatrix K} (storable : Storable r) :
    ∃ data : ℕ → K, (∀ t, t < r.dim.toNat * r.dim.toNat → data t = r.data t) ∧
      RotationMatrix.load cells.toFileCells (r.save cells seed) r.dim = .ok (reloaded r data) := by
  obtain ⟨data, same, read⟩ := readFloats_append cells (r.dim.toNat * r.dim.toNat) r.data
    (writeBytes cells [flagsOf r] ++ saveKind cells seed r)
  refine ⟨data, same, ?_⟩
  rw [RotationMatrix.load, RotationMatrix.save, readWord_append cells (UInt32.toNat_lt _),
    UInt32.ofNat_toNat, good_some, ok_bind]
  dsimp only
  rw [if_neg (not_not.2 rfl), read, good_some, ok_bind]
  dsimp only
  rw [readBytes_append cells (List.length_singleton), good_some, ok_bind]
  exact loadKind_saveKind cells seed storable data

end LoadSave

/-! ## What the checks say -/

theorem isPowerOf2_iff {n : UInt32} : isPowerOf2 n = true ↔ IsPower n := by
  refine ⟨isPowerOf2_spec, ?_⟩
  rintro ⟨k, fits, value⟩
  have positive : 0 < n.toNat := value ▸ Nat.two_pow_pos k
  have atLeastOne : (1 : UInt32) ≤ n := UInt32.le_iff_toNat_le.2 positive
  rw [isPowerOf2, Bool.and_eq_true, decide_eq_true_iff, beq_iff_eq]
  refine ⟨UInt32.lt_iff_toNat_lt.2 positive, UInt32.toNat_inj.1 ?_⟩
  rw [UInt32.toNat_and, UInt32.toNat_sub_of_le _ _ atLeastOne]
  exact (Nat.and_sub_one_eq_zero_iff_isPowerOfTwo (Nat.ne_of_gt positive)).2 ⟨k, value⟩

/-- All blocks are powers of two; their sum wraps. -/
theorem sumBlocks_ok_iff {total value : UInt32} {blocks : List UInt32} :
    sumBlocks total blocks = .ok value ↔ (∀ b ∈ blocks, IsPower b) ∧
      value.toNat = (total.toNat + (blocks.map UInt32.toNat).sum) % 2 ^ 32 := by
  induction blocks generalizing total with
  | nil =>
      have wrapped : (total.toNat + 0) % 2 ^ 32 = total.toNat := by
        rw [Nat.add_zero, Nat.mod_eq_of_lt (UInt32.toNat_lt total)]
      rw [sumBlocks, List.map_nil, List.sum_nil, wrapped, UInt32.toNat_inj]
      refine ⟨fun same => ?_, fun same => congrArg _ same.2.symm⟩
      cases same
      exact ⟨fun b mem => absurd mem List.not_mem_nil, rfl⟩
  | cons b blocks ih =>
      rw [sumBlocks, List.forall_mem_cons, List.map_cons, List.sum_cons]
      split
      · rename_i power
        rw [ih, UInt32.toNat_add, Nat.mod_add_mod, Nat.add_assoc, ← isPowerOf2_iff,
          and_iff_right power]
      · rename_i other
        rw [← isPowerOf2_iff]
        exact ⟨fun fails => (by cases fails), fun all => absurd all.1.1 other⟩

theorem permutationValid_iff {dim : UInt32} {seen : ℕ → Bool} {permutation : List UInt32} :
    permutationValid dim seen permutation = true ↔
      (∀ p ∈ permutation, p < dim ∧ seen p.toNat = false) ∧ permutation.Nodup := by
  induction permutation generalizing seen with
  | nil => simp [permutationValid]
  | cons p permutation ih =>
      rw [permutationValid, List.forall_mem_cons, List.nodup_cons]
      split
      · rename_i bad
        refine ⟨fun fails => (by cases fails), fun all => ?_⟩
        obtain ⟨⟨⟨inside, fresh⟩, -⟩, -⟩ := all
        rcases bad with outside | twice
        · exact absurd inside (UInt32.not_lt.2 outside)
        · rw [fresh] at twice
          cases twice
      · rename_i fine
        rw [not_or, UInt32.not_le, Bool.not_eq_true] at fine
        rw [ih]
        constructor
        · rintro ⟨rest, distinct⟩
          have apart : ∀ q ∈ permutation, q ≠ p := by
            rintro q mem rfl
            have marked := (rest q mem).2
            rw [Function.update_self] at marked
            cases marked
          refine ⟨⟨fine, fun q mem => ⟨(rest q mem).1, ?_⟩⟩, fun mem => apart p mem rfl, distinct⟩
          have unmarked := (rest q mem).2
          rwa [Function.update_of_ne fun same => apart q mem (UInt32.toNat_inj.1 same)]
            at unmarked
        · rintro ⟨⟨-, rest⟩, absent, distinct⟩
          refine ⟨fun q mem => ⟨(rest q mem).1, ?_⟩, distinct⟩
          rw [Function.update_of_ne]
          · exact (rest q mem).2
          · intro same
            exact absent (UInt32.toNat_inj.1 same ▸ mem)

/-! ## Generated rotations -/

theorem randomSigns_hasSigns {K : Type} (rng : Rng K) (n : ℕ) :
    HasSigns (RotationMatrix.randomSigns rng n) n := by
  refine ⟨by rw [RotationMatrix.randomSigns, List.length_map, List.length_range],
    fun s mem => ?_⟩
  obtain ⟨i, -, rfl⟩ := List.mem_map.1 mem
  split
  · exact Or.inl rfl
  · exact Or.inr rfl

theorem greedyBlocks_length_le (fuel : ℕ) (remaining : UInt32) :
    (greedyBlocks fuel remaining).length ≤ fuel := by
  induction fuel generalizing remaining with
  | zero => exact Nat.le_refl 0
  | succ fuel ih =>
      rw [greedyBlocks]
      split
      · exact Nat.succ_le_succ (ih _)
      · exact Nat.zero_le _

theorem greedy_sumBlocks (dim : UInt32) : sumBlocks 0 (greedyPowerOf2Blocks dim) = .ok dim := by
  obtain ⟨powers, total⟩ := greedyBlocks_spec dim.toNat (Nat.le_refl dim.toNat)
  refine sumBlocks_ok_iff.2 ⟨powers, ?_⟩
  rw [greedyPowerOf2Blocks, total, UInt32.toNat_zero, Nat.zero_add,
    Nat.mod_eq_of_lt (UInt32.toNat_lt dim)]

theorem shuffle_valid {K : Type} (rng : Rng K) (dim : UInt32) :
    (rng.shuffle ((List.range dim.toNat).map UInt32.ofNat)).length = dim.toNat ∧
      permutationValid dim (fun _ => false)
        (rng.shuffle ((List.range dim.toNat).map UInt32.ofNat)) = true := by
  have perm := rng.shuffle_perm ((List.range dim.toNat).map UInt32.ofNat)
  have value : ∀ i ∈ List.range dim.toNat, (UInt32.ofNat i).toNat = i := fun i mem => by
    rw [UInt32.toNat_ofNat', Nat.mod_eq_of_lt]
    exact Nat.lt_trans (List.mem_range.1 mem) (UInt32.toNat_lt dim)
  refine ⟨by rw [perm.length_eq, List.length_map, List.length_range],
    permutationValid_iff.2 ⟨fun p mem => ⟨?_, rfl⟩, perm.nodup_iff.2 ?_⟩⟩
  · obtain ⟨i, inRange, rfl⟩ := List.mem_map.1 (perm.mem_iff.1 mem)
    rw [UInt32.lt_iff_toNat_lt, value i inRange]
    exact List.mem_range.1 inRange
  · refine List.Nodup.map_on (fun i inRange j inRange' same => ?_) List.nodup_range
    rw [← value i inRange, ← value j inRange', same]

section Produced

variable {K : Type} [Field K] [LinearOrder K] (avx512 : Bool) (arith : ExactArith K)

/-- What one of the generators has made. -/
inductive Produced (rng : Rng K) : RotationMatrix K → Prop
  | random (r : RotationMatrix K) : Produced rng (r.generateRandom arith rng)
  | hadamard {r r' : RotationMatrix K} {useFast : Bool}
      (accepted : r.generateHadamard arith rng useFast = (r', true)) : Produced rng r'
  | blocked {r r' : RotationMatrix K} {useFast : Bool}
      (accepted : r.generateBlockedHadamardPermuted avx512 arith rng useFast = (r', true)) :
      Produced rng r'
  | fhtKac {r r' : RotationMatrix K} {useFast : Bool}
      (accepted : r.generateFhtKacRotator avx512 arith rng useFast = (r', true)) :
      Produced rng r'

theorem hadamard_kind {r r' : RotationMatrix K} {rng : Rng K} {useFast : Bool}
    (accepted : r.generateHadamard arith rng useFast = (r', true)) : r'.kind = .hadamard := by
  rw [RotationMatrix.generateHadamard] at accepted
  split at accepted
  · rw [← (Prod.mk.inj accepted).1]
  · cases accepted

theorem blocked_kind {r r' : RotationMatrix K} {rng : Rng K} {useFast : Bool}
    (accepted : r.generateBlockedHadamardPermuted avx512 arith rng useFast = (r', true)) :
    r'.kind = .blockedHadamardPermuted := by
  rw [RotationMatrix.generateBlockedHadamardPermuted] at accepted
  split at accepted
  · cases accepted
  · rw [← (Prod.mk.inj accepted).1]

/-- The FHT-Kac rotation of a dimension and its signs. -/
def fhtKacRotation (dim : UInt32) (useFast : Bool) (signs : List ℤ) : RotationMatrix K :=
  { dim := dim
    data := fillMatrix dim.toNat fun i =>
      applyFhtKacFast avx512 arith signs dim.toNat (floorPowerOf2 dim).toNat 4
        (Function.update (fun _ => 0) i 1)
    kind := .fhtKacRotator
    useFastHadamard := useFast
    fhtKacPaddedDim := dim
    fhtKacTruncDim := floorPowerOf2 dim
    fhtKacNumRounds := 4
    fhtKacSigns := signs }

theorem fhtKac_accepted_iff {r r' : RotationMatrix K} {rng : Rng K} {useFast : Bool} :
    r.generateFhtKacRotator avx512 arith rng useFast = (r', true) ↔
      0 < r.dim ∧ roundUpToMultiple r.dim 64 = r.dim ∧
        fhtKacRotation avx512 arith r.dim useFast
          (RotationMatrix.randomSigns rng (4 * r.dim.toNat)) = r' := by
  rw [RotationMatrix.generateFhtKacRotator]
  split
  · rename_i zero
    rw [zero]
    simp
  · rename_i positive
    rw [and_iff_right (UInt32.pos_iff_ne_zero.2 positive)]
    dsimp only
    split
    · rename_i padded
      simp [padded]
    · rename_i padded
      rw [not_not] at padded
      rw [and_iff_right padded, fhtKacRotation, Prod.mk.injEq, and_iff_left rfl, padded]

theorem produced_storable {rng : Rng K} {r : RotationMatrix K}
    (produced : Produced avx512 arith rng r) : Storable r := by
  cases produced with
  | random r => exact .random _ _
  | hadamard accepted =>
      rw [RotationMatrix.generateHadamard] at accepted
      split at accepted
      · obtain ⟨rfl, -⟩ := Prod.mk.inj accepted
        exact .hadamard _ _ (randomSigns_hasSigns rng _)
      · cases accepted
  | @blocked r _ _ accepted =>
      rw [RotationMatrix.generateBlockedHadamardPermuted] at accepted
      split at accepted
      · cases accepted
      · obtain ⟨rfl, -⟩ := Prod.mk.inj accepted
        have few := greedyBlocks_length_le r.dim.toNat r.dim
        have small := UInt32.toNat_lt r.dim
        obtain ⟨length, valid⟩ := shuffle_valid rng r.dim
        exact .blocked _ _ (randomSigns_hasSigns rng _) (Nat.lt_of_le_of_lt few small)
          (greedy_sumBlocks r.dim) length valid
  | fhtKac accepted =>
      obtain ⟨positive, padded, rfl⟩ := (fhtKac_accepted_iff avx512 arith).1 accepted
      obtain ⟨power, inside⟩ := floorPowerOf2_spec positive
      exact .fhtKac _ _ padded (isPowerOf2_iff.2 power) inside (by decide)
        (randomSigns_hasSigns rng _)

/-! ## The loaded rotation -/

/-- Two rotations that do the same with every vector. -/
def SameRotation (r r' : RotationMatrix K) : Prop :=
  ∀ x i, i < r.dim.toNat →
    r'.apply avx512 arith x i = r.apply avx512 arith x i ∧
      r'.applyInverse avx512 arith x i = r.applyInverse avx512 arith x i

theorem entry_lt {n i j : ℕ} (row : i < n) (column : j < n) : i * n + j < n * n := by
  have next := Nat.mul_le_mul_right n (Nat.succ_le_of_lt row)
  rw [Nat.succ_mul] at next
  omega

theorem sameRotation_of_dense {r r' : RotationMatrix K} (slow : r.useFastHadamard = false)
    (slow' : r'.useFastHadamard = false) (dim : r'.dim = r.dim)
    (same : ∀ t, t < r.dim.toNat * r.dim.toNat → r'.data t = r.data t) :
    SameRotation avx512 arith r r' := by
  intro x i inside
  have inside' : i < r'.dim.toNat := dim ▸ inside
  rw [apply_dense avx512 arith slow, apply_dense avx512 arith slow',
    applyInverse_dense avx512 arith slow, applyInverse_dense avx512 arith slow',
    denseApply_eq r x inside, denseApply_eq r' x inside', denseApplyInverse_eq r x inside,
    denseApplyInverse_eq r' x inside', dim]
  constructor
  · refine Finset.sum_congr rfl fun k mem => ?_
    rw [same _ (entry_lt (Finset.mem_range.1 mem) inside)]
  · refine Finset.sum_congr rfl fun k mem => ?_
    rw [same _ (entry_lt inside (Finset.mem_range.1 mem))]

/-- A fast rotation does not look at the matrix. -/
theorem sameRotation_of_fast {r : RotationMatrix K} (fast : r.useFastHadamard = true)
    (data : ℕ → K) : SameRotation avx512 arith r (reloaded r data) := by
  intro x i _
  have kept : reloadedKind r = r.kind := by simp [reloadedKind, fast]
  simp only [RotationMatrix.apply, RotationMatrix.applyInverse, reloaded, kept, fast,
    Bool.true_or, if_true, and_self]

/-- A slow FHT-Kac rotation is loaded as a fast one. -/
theorem sameRotation_fhtKac [IsStrictOrderedRing K] {r r' : RotationMatrix K} {rng : Rng K}
    (accepted : r.generateFhtKacRotator avx512 arith rng false = (r', true)) (data : ℕ → K) :
    SameRotation avx512 arith r' (reloaded r' data) := by
  obtain ⟨positive, padded, rfl⟩ := (fhtKac_accepted_iff avx512 arith).1 accepted
  have fast : r.generateFhtKacRotator avx512 arith rng true = (_, true) :=
    (fhtKac_accepted_iff avx512 arith).2 ⟨positive, padded, rfl⟩
  have rotation := isRotation_fhtKac avx512 arith fast
  intro x i inside
  exact ⟨(rotation.dense x i inside).symm, (rotation.dense_inverse x i inside).symm⟩

/-- **A saved rotation is loaded as one that does the same**, whichever generator made it. -/
theorem load_save_applies [IsStrictOrderedRing K] (cells : ExactCells K) (seed : UInt64)
    {rng : Rng K} {r : RotationMatrix K} (produced : Produced avx512 arith rng r) :
    ∃ r', RotationMatrix.load cells.toFileCells (r.save cells seed) r.dim = .ok r' ∧
      SameRotation avx512 arith r r' := by
  obtain ⟨data, same, loaded⟩ := load_save cells seed (produced_storable avx512 arith produced)
  refine ⟨_, loaded, ?_⟩
  by_cases fast : r.useFastHadamard = true
  · exact sameRotation_of_fast avx512 arith fast data
  · rw [Bool.not_eq_true] at fast
    cases produced with
    | random r => exact sameRotation_of_dense avx512 arith fast rfl rfl same
    | hadamard accepted =>
        refine sameRotation_of_dense avx512 arith fast ?_ rfl same
        simp [reloaded, fast, hadamard_kind arith accepted]
    | blocked accepted =>
        refine sameRotation_of_dense avx512 arith fast ?_ rfl same
        simp [reloaded, fast, blocked_kind avx512 arith accepted]
    | @fhtKac _ _ useFast accepted =>
        cases useFast with
        | true =>
            obtain ⟨-, -, rfl⟩ := (fhtKac_accepted_iff avx512 arith).1 accepted
            cases fast
        | false => exact sameRotation_fhtKac avx512 arith accepted data

end Produced

/-- Bytes, and the numbers themselves, each in four cells. -/
def plainCells (K : Type) [Zero K] : ExactCells K where
  Cell := UInt8 ⊕ K
  byteOf cell := cell.elim id fun _ => 0
  floatOf part := ((part.head?.bind Sum.getRight?).getD 0)
  ofByte := .inl
  byteOf_ofByte _ := rfl
  ofFloat x := List.replicate 4 (.inr x)
  ofFloat_length _ := rfl
  floatOf_ofFloat _ := rfl

/-- The round trip of a slow rotation of 64 entries, which is read back as a fast one. -/
theorem load_save_applies_sixtyFour :
    ∃ r', RotationMatrix.load (plainCells ℝ).toFileCells
        (RotationMatrix.save (plainCells ℝ) 7
          (fhtKacRotation true realArith 64 false (RotationMatrix.randomSigns zeroRng 256))) 64 =
            .ok r' ∧
      SameRotation true realArith
        (fhtKacRotation true realArith 64 false (RotationMatrix.randomSigns zeroRng 256)) r' := by
  have accepted : RotationMatrix.generateFhtKacRotator true realArith
      { dim := 64, data := fun _ => 0 } zeroRng false =
        (fhtKacRotation true realArith 64 false (RotationMatrix.randomSigns zeroRng 256), true) :=
    (fhtKac_accepted_iff true realArith).2 ⟨by decide, by decide, rfl⟩
  exact load_save_applies true realArith (plainCells ℝ) 7 (.fhtKac accepted)

end VecFetch.Rabitq
