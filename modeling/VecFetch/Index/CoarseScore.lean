/-
# Index.CoarseScore -- the packed centroids and their scores

Centroids are packed in blocks of as many as a build scores at once, each block in pieces of
as many dimensions as a register holds; what lies past the last centroid or the last
dimension is zero.  Scoring sums the products piece by piece, with the query padded by zeros
as well, so a score is the negated inner product (`computeCoarseIPScores_spec`), as long as
the counts of blocks, computed in 32 bits, do not wrap.

Arithmetic is exact.  A result of `none` is an access outside a table.
-/
import VecFetch.Simd.FastScanLut
import VecFetch.Rabitq.RotationFast
import VecFetch.Theory.Fill

namespace VecFetch.Index

open VecFetch.Theory VecFetch.Simd VecFetch.Rabitq Finset

set_option autoImplicit false

/-- A `std::vector<float>`. -/
structure FloatVec (K : Type) where
  size : ℕ
  get : ℕ → K

/-! ## The layout -/

def kCoarseCentroidBlock : Build → ℕ
  | .avx512 => 8
  | .avx2 => 4
  | .scalar => 1

def kCoarseVecWidth : Build → ℕ
  | .avx512 => 16
  | .avx2 => 8
  | .scalar => 1

structure CoarsePackedLayout (K : Type) where
  data : FloatVec K
  numCentroidBlocks : UInt32
  numDimBlocks : UInt32
  packedDim : ℕ

/-- `CoarsePackedLayout::empty`. -/
def CoarsePackedLayout.empty {K : Type} (layout : CoarsePackedLayout K) : Bool :=
  layout.data.size == 0

/-- `(nlist + kCoarseCentroidBlock - 1) / kCoarseCentroidBlock`, in 32 bits. -/
def numCentroidBlocks (build : Build) (nlist : UInt32) : UInt32 :=
  (nlist + UInt32.ofNat (kCoarseCentroidBlock build) - 1) /
    UInt32.ofNat (kCoarseCentroidBlock build)

/-- `(dim + kCoarseVecWidth - 1) / kCoarseVecWidth`, in 32 bits. -/
def numDimBlocks (build : Build) (dim : UInt32) : UInt32 :=
  (dim + UInt32.ofNat (kCoarseVecWidth build) - 1) / UInt32.ofNat (kCoarseVecWidth build)

section Layout

variable {K : Type} [Field K]

/-- `std::memcpy` of `count` entries to offset `base`. -/
def copyTo (base count : ℕ) (src : ℕ → K) (dst : ℕ → K) (t : ℕ) : K :=
  if base ≤ t ∧ t < base + count then src (t - base) else dst t

/-- What the loops of `BuildCoarsePackedLayout` copy for one lane of a block. -/
def packLane (build : Build) (src : ℕ → K) (nlist dim ndb cb db lane : ℕ) (data : ℕ → K) : ℕ → K :=
  if nlist ≤ cb * kCoarseCentroidBlock build + lane then data
  else
    copyTo (((cb * ndb + db) * kCoarseCentroidBlock build + lane) * kCoarseVecWidth build)
      (min (kCoarseVecWidth build) (dim - db * kCoarseVecWidth build))
      (fun j => src ((cb * kCoarseCentroidBlock build + lane) * dim +
        db * kCoarseVecWidth build + j)) data

/-- The loops over the dimension blocks and the lanes of one centroid block. -/
def packBlock (build : Build) (src : ℕ → K) (nlist dim ndb cb : ℕ) (data : ℕ → K) : ℕ → K :=
  (List.range ndb).foldl
    (fun data db =>
      if dim ≤ db * kCoarseVecWidth build then data
      else
        (List.range (kCoarseCentroidBlock build)).foldl
          (fun data lane => packLane build src nlist dim ndb cb db lane data) data) data

/-- The layout of `nlist` rows. -/
def packedLayout (build : Build) (src : ℕ → K) (nlist dim : UInt32) : CoarsePackedLayout K where
  data :=
    { size := (numCentroidBlocks build nlist).toNat * (numDimBlocks build dim).toNat *
        kCoarseCentroidBlock build * kCoarseVecWidth build
      get := (List.range (numCentroidBlocks build nlist).toNat).foldl
        (fun data cb =>
          packBlock build src nlist.toNat dim.toNat (numDimBlocks build dim).toNat cb data)
        fun _ => 0 }
  numCentroidBlocks := numCentroidBlocks build nlist
  numDimBlocks := numDimBlocks build dim
  packedDim := (numDimBlocks build dim).toNat * kCoarseVecWidth build

/-- `BuildCoarsePackedLayout`: with blocks to fill it reads all rows. -/
def buildCoarsePackedLayout (build : Build) (src : FloatVec K) (nlist dim : UInt32) :
    Option (CoarsePackedLayout K) :=
  if 0 < numCentroidBlocks build nlist ∧ 0 < numDimBlocks build dim ∧
      src.size < nlist.toNat * dim.toNat then none
  else some (packedLayout build src.get nlist dim)

/-! ## The scores -/

/-- The sums of a lane: by register entry, then reduced; one after the other where the build
has no registers. -/
def laneAcc (build : Build) (query block : ℕ → K) (ndb lane : ℕ) : K :=
  let width := kCoarseVecWidth build
  let piece := fun db => (db * kCoarseCentroidBlock build + lane) * width
  match build with
  | .scalar =>
      (List.range ndb).foldl
        (fun acc db => (List.range width).foldl
          (fun acc j => acc + query (db * width + j) * block (piece db + j)) acc) 0
  | _ =>
      sumTo width fun j => (List.range ndb).foldl
        (fun acc db => query (db * width + j) * block (piece db + j) + acc) 0

/-- One centroid block: `scores[cb * B + lane] = -acc[lane]` for the lanes it has. -/
def scoreBlock (build : Build) (query data : ℕ → K) (nlist ndb cb : ℕ) (scores : ℕ → K) : ℕ → K :=
  (List.range (min (kCoarseCentroidBlock build) (nlist - cb * kCoarseCentroidBlock build))).foldl
    (fun scores lane => Function.update scores (cb * kCoarseCentroidBlock build + lane)
      (-laneAcc build query
        (fun t => data (cb * (ndb * kCoarseCentroidBlock build * kCoarseVecWidth build) + t))
        ndb lane)) scores

/-- `ComputeCoarseIPScoresDispatch`, onto what `scores` holds. -/
def computeCoarseIPScores (build : Build) (query : FloatVec K) (layout : CoarsePackedLayout K)
    (nlist : UInt32) (scores : ℕ → K) : Option (ℕ → K) :=
  let ncb := (numCentroidBlocks build nlist).toNat
  let ndb := layout.numDimBlocks.toNat
  if 0 < ncb ∧ 0 < ndb ∧ (query.size < ndb * kCoarseVecWidth build ∨
      layout.data.size < ncb * (ndb * kCoarseCentroidBlock build * kCoarseVecWidth build)) then none
  else
    some ((List.range ncb).foldl
      (fun scores cb => scoreBlock build query.get layout.data.get nlist.toNat ndb cb scores) scores)

end Layout

/-! ## What a layout holds -/

section Held

variable {K : Type} [Field K]

theorem block_pos (build : Build) : 0 < kCoarseCentroidBlock build := by cases build <;> decide

theorem width_pos (build : Build) : 0 < kCoarseVecWidth build := by cases build <;> decide

/-- The row and the dimension of a cell. -/
def cellRow (build : Build) (ndb t : ℕ) : ℕ :=
  t / kCoarseVecWidth build / kCoarseCentroidBlock build / ndb * kCoarseCentroidBlock build +
    t / kCoarseVecWidth build % kCoarseCentroidBlock build

def cellDim (build : Build) (ndb t : ℕ) : ℕ :=
  t / kCoarseVecWidth build / kCoarseCentroidBlock build % ndb * kCoarseVecWidth build +
    t % kCoarseVecWidth build

theorem quotient {w x j : ℕ} (inside : j < w) : (x * w + j) / w = x ∧ (x * w + j) % w = j := by
  have positive : 0 < w := by omega
  constructor
  · rw [Nat.add_comm, Nat.add_mul_div_right _ _ positive, Nat.div_eq_of_lt inside, Nat.zero_add]
  · rw [Nat.add_comm, Nat.add_mul_mod_self_right, Nat.mod_eq_of_lt inside]

variable (build : Build) (cb : ℕ) {ndb db lane j : ℕ}

theorem cell_spec (inBlock : db < ndb) (inLane : lane < kCoarseCentroidBlock build)
    (inPiece : j < kCoarseVecWidth build) :
    cellRow build ndb (((cb * ndb + db) * kCoarseCentroidBlock build + lane) *
        kCoarseVecWidth build + j) = cb * kCoarseCentroidBlock build + lane ∧
      cellDim build ndb (((cb * ndb + db) * kCoarseCentroidBlock build + lane) *
        kCoarseVecWidth build + j) = db * kCoarseVecWidth build + j := by
  rw [cellRow, cellDim, (quotient inPiece).1, (quotient inPiece).2, (quotient inLane).1,
    (quotient inLane).2, (quotient inBlock).1, (quotient inBlock).2]
  exact ⟨rfl, rfl⟩

variable (src : ℕ → K) (nlist dim : ℕ)

omit [Field K] in
theorem packLane_fills (inBlock : db < ndb) (inLane : lane < kCoarseCentroidBlock build)
    {lo : ℕ} (start : lo = ((cb * ndb + db) * kCoarseCentroidBlock build + lane) *
      kCoarseVecWidth build) :
    Fills (fun t => cellRow build ndb t < nlist ∧ cellDim build ndb t < dim)
      (fun t => src (cellRow build ndb t * dim + cellDim build ndb t)) lo
      (lo + kCoarseVecWidth build) (packLane build src nlist dim ndb cb db lane) := by
  intro table t
  have cell : lo ≤ t → t < lo + kCoarseVecWidth build →
      cellRow build ndb t = cb * kCoarseCentroidBlock build + lane ∧
        cellDim build ndb t = db * kCoarseVecWidth build + (t - lo) := by
    intro above below
    have spec := cell_spec build cb inBlock inLane (show t - lo <
      kCoarseVecWidth build by omega)
    rwa [← start, Nat.add_sub_cancel' above] at spec
  unfold packLane
  dsimp only
  rw [← start]
  refine ⟨fun above below marked => ?_, fun outside => ?_⟩
  · obtain ⟨row, column⟩ := cell above below
    rw [row, column] at marked ⊢
    rw [if_neg (by omega), copyTo, if_pos (by omega), Nat.add_assoc]
  · split
    · rfl
    next inside =>
      rw [copyTo, if_neg]
      intro within
      have below : t < lo + kCoarseVecWidth build := by omega
      obtain ⟨row, column⟩ := cell within.1 below
      refine outside ⟨within.1, below, ?_⟩
      rw [row, column]
      omega

omit [Field K] in
theorem packLane_past {dim : ℕ} (past : dim ≤ db * kCoarseVecWidth build) (data : ℕ → K) :
    packLane build src nlist dim ndb cb db lane data = data := by
  unfold packLane
  split
  · rfl
  · funext t
    rw [copyTo, if_neg (by omega)]

omit [Field K] in
theorem packBlock_fills {lo : ℕ}
    (start : lo = cb * (ndb * (kCoarseCentroidBlock build * kCoarseVecWidth build))) :
    Fills (fun t => cellRow build ndb t < nlist ∧ cellDim build ndb t < dim)
      (fun t => src (cellRow build ndb t * dim + cellDim build ndb t)) lo
      (lo + ndb * (kCoarseCentroidBlock build * kCoarseVecWidth build))
      (packBlock build src nlist dim ndb cb) := by
  unfold packBlock
  refine Fills.foldl _ _ _ _ fun db inBlock => ?_
  have ends : lo + (db + 1) * (kCoarseCentroidBlock build * kCoarseVecWidth build) =
      lo + db * (kCoarseCentroidBlock build * kCoarseVecWidth build) +
        kCoarseCentroidBlock build * kCoarseVecWidth build := by ring
  rw [ends]
  have cell : ∀ lane, lane < kCoarseCentroidBlock build →
      lo + db * (kCoarseCentroidBlock build * kCoarseVecWidth build) +
        lane * kCoarseVecWidth build =
      ((cb * ndb + db) * kCoarseCentroidBlock build + lane) * kCoarseVecWidth build := by
    intro lane _
    rw [start]
    ring
  have lanes := Fills.foldl (lo + db * (kCoarseCentroidBlock build * kCoarseVecWidth build))
    (kCoarseCentroidBlock build) (kCoarseVecWidth build)
    (fun lane => packLane build src nlist dim ndb cb db lane) fun lane inLane => by
      have fills := packLane_fills build cb src nlist dim inBlock inLane (cell lane inLane)
      rwa [show lo + db * (kCoarseCentroidBlock build * kCoarseVecWidth build) +
        (lane + 1) * kCoarseVecWidth build = lo + db * (kCoarseCentroidBlock build *
          kCoarseVecWidth build) + lane * kCoarseVecWidth build + kCoarseVecWidth build by ring]
  intro table t
  by_cases past : dim ≤ db * kCoarseVecWidth build
  · -- The skipped loop would have copied nothing.
    have skipped : ∀ lanes : List ℕ, lanes.foldl
        (fun data lane => packLane build src nlist dim ndb cb db lane data) table = table := by
      intro lanes
      induction lanes with
      | nil => rfl
      | cons lane rest ih =>
          rw [List.foldl_cons, packLane_past build cb src nlist past, ih]
    have fills := lanes table t
    dsimp only at fills ⊢
    rw [skipped] at fills
    rwa [if_pos past]
  · dsimp only
    rw [if_neg past]
    exact lanes table t

end Held

/-- **What a layout holds** at a lane's cell: the row's entry, or zero past the last row or
dimension. -/
theorem packedLayout_cell {K : Type} [Field K] (build : Build) (src : ℕ → K) (nlist dim : UInt32)
    {cb db lane j : ℕ} (block : cb < (numCentroidBlocks build nlist).toNat)
    (inBlock : db < (numDimBlocks build dim).toNat) (inLane : lane < kCoarseCentroidBlock build)
    (inPiece : j < kCoarseVecWidth build) :
    (packedLayout build src nlist dim).data.get
        (((cb * (numDimBlocks build dim).toNat + db) * kCoarseCentroidBlock build + lane) *
          kCoarseVecWidth build + j) =
      if cb * kCoarseCentroidBlock build + lane < nlist.toNat ∧
          db * kCoarseVecWidth build + j < dim.toNat then
        src ((cb * kCoarseCentroidBlock build + lane) * dim.toNat + (db * kCoarseVecWidth build + j))
      else 0 := by
  have fills := Fills.foldl 0 (numCentroidBlocks build nlist).toNat
    ((numDimBlocks build dim).toNat * (kCoarseCentroidBlock build * kCoarseVecWidth build))
    (fun cb => packBlock build src nlist.toNat dim.toNat (numDimBlocks build dim).toNat cb)
    fun cb _ => by
      have fills := @packBlock_fills _ build cb (numDimBlocks build dim).toNat src
        nlist.toNat dim.toNat _ rfl
      rwa [Nat.zero_add, Nat.zero_add, Nat.succ_mul]
  have cell := cell_spec build cb inBlock inLane inPiece
  have inside : ((cb * (numDimBlocks build dim).toNat + db) * kCoarseCentroidBlock build + lane) *
      kCoarseVecWidth build + j < 0 + (numCentroidBlocks build nlist).toNat *
        ((numDimBlocks build dim).toNat *
          (kCoarseCentroidBlock build * kCoarseVecWidth build)) := by
    calc ((cb * (numDimBlocks build dim).toNat + db) * kCoarseCentroidBlock build + lane) *
          kCoarseVecWidth build + j
      _ < ((cb * (numDimBlocks build dim).toNat + db) * kCoarseCentroidBlock build + lane + 1) *
          kCoarseVecWidth build := by rw [Nat.succ_mul]; omega
      _ ≤ ((cb * (numDimBlocks build dim).toNat + db + 1) * kCoarseCentroidBlock build) *
          kCoarseVecWidth build := Nat.mul_le_mul_right _ (by rw [Nat.succ_mul]; omega)
      _ ≤ ((cb + 1) * (numDimBlocks build dim).toNat * kCoarseCentroidBlock build) *
          kCoarseVecWidth build :=
        Nat.mul_le_mul_right _ (Nat.mul_le_mul_right _ (by rw [Nat.succ_mul]; omega))
      _ ≤ ((numCentroidBlocks build nlist).toNat * (numDimBlocks build dim).toNat *
          kCoarseCentroidBlock build) * kCoarseVecWidth build :=
        Nat.mul_le_mul_right _ (Nat.mul_le_mul_right _ (Nat.mul_le_mul_right _ block))
      _ = _ := by ring
  have held := fills (fun _ => 0)
    (((cb * (numDimBlocks build dim).toNat + db) * kCoarseCentroidBlock build + lane) *
      kCoarseVecWidth build + j)
  dsimp only at held
  rw [cell.1, cell.2] at held
  split
  next marked => exact held.1 (Nat.zero_le _) inside marked
  next unmarked => exact held.2 fun within => unmarked within.2.2

/-- The score block of some lanes fills their scores. -/
theorem scoreBlock_fills {K : Type} [Field K] (build : Build) (query data : ℕ → K)
    (nlist ndb cb : ℕ) {lo : ℕ} (start : lo = cb * kCoarseCentroidBlock build) :
    Fills (fun i => i < nlist)
      (fun i => -laneAcc build query
        (fun t => data (i / kCoarseCentroidBlock build *
          (ndb * kCoarseCentroidBlock build * kCoarseVecWidth build) + t))
        ndb (i % kCoarseCentroidBlock build)) lo
      (lo + kCoarseCentroidBlock build) (scoreBlock build query data nlist ndb cb) := by
  intro scores i
  have upTo : ∀ n, n ≤ kCoarseCentroidBlock build → ∀ i, (List.range n).foldl
      (fun scores lane => Function.update scores (cb * kCoarseCentroidBlock build + lane)
        (-laneAcc build query
          (fun t => data (cb * (ndb * kCoarseCentroidBlock build * kCoarseVecWidth build) + t))
          ndb lane)) scores i =
      if lo ≤ i ∧ i < lo + n then
        -laneAcc build query
          (fun t => data (i / kCoarseCentroidBlock build *
            (ndb * kCoarseCentroidBlock build * kCoarseVecWidth build) + t))
          ndb (i % kCoarseCentroidBlock build)
      else scores i := by
    intro n
    induction n with
    | zero => exact fun _ i => (if_neg (by omega)).symm
    | succ n ih =>
        intro within i
        rw [List.range_succ, List.foldl_append, List.foldl_cons, List.foldl_nil]
        by_cases here : i = cb * kCoarseCentroidBlock build + n
        · have parts := quotient (x := cb) (show n < kCoarseCentroidBlock build by omega)
          rw [if_pos (by omega), here, Function.update_self, parts.1, parts.2]
        · rw [Function.update_of_ne here, ih (by omega)]
          by_cases before : lo ≤ i ∧ i < lo + n
          · rw [if_pos before, if_pos (by omega)]
          · rw [if_neg before, if_neg (by omega)]
  unfold scoreBlock
  rw [upTo _ (Nat.min_le_left _ _)]
  dsimp only
  refine ⟨fun above below marked => if_pos (by omega), fun outside => if_neg fun within => ?_⟩
  exact outside (by omega)

/-! ## The scores are inner products -/

section Scores

variable {K : Type} [Field K]

theorem sum_range_pieces (f : ℕ → K) (n width : ℕ) :
    ∑ db ∈ range n, ∑ j ∈ range width, f (db * width + j) = ∑ d ∈ range (n * width), f d := by
  induction n with
  | zero => simp
  | succ n ih => rw [sum_range_succ, ih, Nat.succ_mul, sum_range_add]

theorem laneAcc_eq [LinearOrder K] (build : Build) (query block : ℕ → K) (ndb lane : ℕ) :
    laneAcc build query block ndb lane =
      ∑ db ∈ range ndb, ∑ j ∈ range (kCoarseVecWidth build),
        query (db * kCoarseVecWidth build + j) *
          block ((db * kCoarseCentroidBlock build + lane) * kCoarseVecWidth build + j) := by
  have registers : ∀ f : ℕ → ℕ → K, (sumTo (kCoarseVecWidth build) fun j =>
      (List.range ndb).foldl (fun acc db => f db j + acc) 0) =
      ∑ db ∈ range ndb, ∑ j ∈ range (kCoarseVecWidth build), f db j := by
    intro f
    rw [sumTo_eq, sum_comm]
    refine sum_congr rfl fun j _ => ?_
    rw [← sumTo_eq, sumTo]
    congr 1
    funext acc db
    rw [add_comm]
  cases build with
  | avx512 => exact registers _
  | avx2 => exact registers _
  | scalar =>
      have one : ∀ (f : ℕ → K) acc, (List.range 1).foldl (fun acc j => acc + f j) acc =
          acc + f 0 := fun f acc => rfl
      unfold laneAcc
      simp only [kCoarseVecWidth, one]
      rw [← sumTo_eq, sumTo]
      simp only [sum_range_one]

/-- The counts of blocks do not wrap. -/
structure NoWrap (build : Build) (nlist dim : UInt32) : Prop where
  rows : nlist.toNat + (kCoarseCentroidBlock build - 1) < 2 ^ 32
  columns : dim.toNat + (kCoarseVecWidth build - 1) < 2 ^ 32

namespace NoWrap

variable {build : Build} {nlist dim : UInt32} (wide : NoWrap build nlist dim)

include wide

theorem centroidBlocks : (numCentroidBlocks build nlist).toNat =
    (nlist.toNat + (kCoarseCentroidBlock build - 1)) / kCoarseCentroidBlock build := by
  have rows := wide.rows
  have positive := block_pos build
  have small : kCoarseCentroidBlock build ≤ 8 := by cases build <;> decide
  have below := nlist.toNat_lt
  rw [numCentroidBlocks, UInt32.toNat_div, UInt32.toNat_ofNat', Nat.mod_eq_of_lt (by omega)]
  congr 1
  rw [UInt32.toNat_sub, UInt32.toNat_add, UInt32.toNat_ofNat', Nat.mod_eq_of_lt (show
    kCoarseCentroidBlock build < 2 ^ 32 by omega), show UInt32.toNat 1 = 1 from rfl]
  omega

theorem dimBlocks : (numDimBlocks build dim).toNat =
    (dim.toNat + (kCoarseVecWidth build - 1)) / kCoarseVecWidth build := by
  have columns := wide.columns
  have positive := width_pos build
  have small : kCoarseVecWidth build ≤ 16 := by cases build <;> decide
  have below := dim.toNat_lt
  rw [numDimBlocks, UInt32.toNat_div, UInt32.toNat_ofNat', Nat.mod_eq_of_lt (by omega)]
  congr 1
  rw [UInt32.toNat_sub, UInt32.toNat_add, UInt32.toNat_ofNat', Nat.mod_eq_of_lt (show
    kCoarseVecWidth build < 2 ^ 32 by omega), show UInt32.toNat 1 = 1 from rfl]
  omega

theorem rows_le : nlist.toNat ≤
    (numCentroidBlocks build nlist).toNat * kCoarseCentroidBlock build := by
  have positive := block_pos build
  rw [wide.centroidBlocks]
  have := Nat.div_add_mod (nlist.toNat + (kCoarseCentroidBlock build - 1))
    (kCoarseCentroidBlock build)
  have := Nat.mod_lt (nlist.toNat + (kCoarseCentroidBlock build - 1)) positive
  rw [Nat.mul_comm]
  omega

theorem columns_le : dim.toNat ≤ (numDimBlocks build dim).toNat * kCoarseVecWidth build := by
  have positive := width_pos build
  rw [wide.dimBlocks]
  have := Nat.div_add_mod (dim.toNat + (kCoarseVecWidth build - 1)) (kCoarseVecWidth build)
  have := Nat.mod_lt (dim.toNat + (kCoarseVecWidth build - 1)) positive
  rw [Nat.mul_comm]
  omega

end NoWrap

/-- The query, padded with zeros to `size`. -/
def paddedQuery (dim size : ℕ) (query : ℕ → K) : FloatVec K where
  size := size
  get d := if d < dim then query d else 0

/-- The plain score of a row. -/
def plainScore (dim : ℕ) (query src : ℕ → K) (row : ℕ) : K :=
  -∑ d ∈ range dim, query d * src (row * dim + d)

/-- **The scores are negated inner products**, for every row and no other entry. -/
theorem computeCoarseIPScores_spec [LinearOrder K] {build : Build} {nlist dim : UInt32}
    (wide : NoWrap build nlist dim) (query src scores : ℕ → K) :
    ∃ scores', computeCoarseIPScores build
        (paddedQuery dim.toNat ((numDimBlocks build dim).toNat * kCoarseVecWidth build) query)
        (packedLayout build src nlist dim) nlist scores = some scores' ∧
      ∀ i, scores' i =
        if i < nlist.toNat then plainScore dim.toNat query src i else scores i := by
  have inside : ¬ (0 < (numCentroidBlocks build nlist).toNat ∧ 0 < (numDimBlocks build dim).toNat ∧
      ((numDimBlocks build dim).toNat * kCoarseVecWidth build <
        (numDimBlocks build dim).toNat * kCoarseVecWidth build ∨
      (numCentroidBlocks build nlist).toNat * (numDimBlocks build dim).toNat *
          kCoarseCentroidBlock build * kCoarseVecWidth build <
        (numCentroidBlocks build nlist).toNat * ((numDimBlocks build dim).toNat *
          kCoarseCentroidBlock build * kCoarseVecWidth build))) := by
    rintro ⟨_, _, outside⟩
    rcases outside with same | same
    · exact lt_irrefl _ same
    · rw [← Nat.mul_assoc, ← Nat.mul_assoc] at same
      exact lt_irrefl _ same
  refine ⟨_, if_neg inside, fun i => ?_⟩
  have fills := Fills.foldl 0 (numCentroidBlocks build nlist).toNat (kCoarseCentroidBlock build)
    (fun cb => scoreBlock build
      (paddedQuery dim.toNat ((numDimBlocks build dim).toNat * kCoarseVecWidth build) query).get
      (packedLayout build src nlist dim).data.get nlist.toNat (numDimBlocks build dim).toNat cb)
    fun cb _ => by
      have fills := scoreBlock_fills build
        (paddedQuery dim.toNat ((numDimBlocks build dim).toNat * kCoarseVecWidth build) query).get
        (packedLayout build src nlist dim).data.get nlist.toNat (numDimBlocks build dim).toNat
        cb rfl
      rwa [Nat.zero_add, Nat.zero_add, Nat.succ_mul]
  have score := fills scores i
  dsimp only at score
  by_cases row : i < nlist.toNat
  · rw [if_pos row]
    refine (score.1 (Nat.zero_le _) (by have := wide.rows_le; omega) row).trans ?_
    have block : i / kCoarseCentroidBlock build < (numCentroidBlocks build nlist).toNat :=
      Nat.div_lt_of_lt_mul (by
        have := wide.rows_le
        rw [Nat.mul_comm] at this
        omega)
    have inLane := Nat.mod_lt i (block_pos build)
    have whole : i / kCoarseCentroidBlock build * kCoarseCentroidBlock build +
        i % kCoarseCentroidBlock build = i := Nat.div_add_mod' i _
    rw [laneAcc_eq, plainScore]
    congr 1
    have cells : ∀ db, db < (numDimBlocks build dim).toNat → ∀ j, j < kCoarseVecWidth build →
        (packedLayout build src nlist dim).data.get (i / kCoarseCentroidBlock build *
          ((numDimBlocks build dim).toNat * kCoarseCentroidBlock build * kCoarseVecWidth build) +
          ((db * kCoarseCentroidBlock build + i % kCoarseCentroidBlock build) *
            kCoarseVecWidth build + j)) =
        if db * kCoarseVecWidth build + j < dim.toNat then
          src (i * dim.toNat + (db * kCoarseVecWidth build + j)) else 0 := by
      intro db inBlock j inPiece
      have cell := packedLayout_cell build src nlist dim block inBlock inLane inPiece
      rw [whole] at cell
      simp only [row, true_and] at cell
      rw [← cell]
      congr 1
      ring
    have padded : ∀ d, (paddedQuery dim.toNat
        ((numDimBlocks build dim).toNat * kCoarseVecWidth build) query).get d *
        (if d < dim.toNat then src (i * dim.toNat + d) else 0) =
        if d < dim.toNat then query d * src (i * dim.toNat + d) else 0 := by
      intro d
      rw [paddedQuery]
      dsimp only
      split <;> simp
    have pieces : ∀ db ∈ range (numDimBlocks build dim).toNat,
        ∀ j ∈ range (kCoarseVecWidth build), _ := fun db inBlock j inPiece => by
      have cell := cells db (mem_range.1 inBlock) j (mem_range.1 inPiece)
      exact congrArg ((paddedQuery dim.toNat
        ((numDimBlocks build dim).toNat * kCoarseVecWidth build) query).get
          (db * kCoarseVecWidth build + j) * ·) cell
    rw [sum_congr rfl fun db inBlock => sum_congr rfl fun j inPiece => pieces db inBlock j inPiece]
    simp only [padded]
    rw [sum_range_pieces (fun d => if d < dim.toNat then query d * src (i * dim.toNat + d) else 0)]
    refine (sum_subset (range_mono wide.columns_le) fun d _ out => ?_).symm.trans
      (sum_congr rfl fun d within => if_pos (mem_range.1 within))
    exact if_neg (mt mem_range.2 out)
  · rw [if_neg row]
    exact score.2 fun within => row within.2.2

end Scores

end VecFetch.Index
