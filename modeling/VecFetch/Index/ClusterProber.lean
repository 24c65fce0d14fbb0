/-
# Index.ClusterProber -- two-stage classification of a cluster's records

`Probe` walks a cluster in blocks of 32 records.  Stage 1 drops a record whose
estimate lies above the frontier and its SafeOut margin; an uncertain survivor goes
to stage 2 when the index has extra bits, in blocks of eight lanes; what stage 2
keeps joins the batch after what stage 1 settled.

The estimates of a record are inputs here: what the FastScan and ExRaBitQ kernels
compute for it is the business of the modules about them.  So is the lower bound of
the block-skip envelope.  Arithmetic is exact.  `ProbeRefinement` shows that the masks
of the code compute these batches.
-/
import VecFetch.Theory.CountingSort
import VecFetch.Query.Scheduler
import Mathlib.Data.List.Basic
import Mathlib.Algebra.Order.Field.Basic

namespace VecFetch.Index

open VecFetch.Query

open VecFetch.Theory

set_option autoImplicit false

/-! ## What the prober reads -/

/-- A record of a cluster under a query: its address, its norm, and its estimated
distance at each stage. -/
structure ProbeRecord where
  addr : AddressEntry
  normOc : ℚ
  estDistS1 : ℚ
  estDistS2 : ℚ
  deriving DecidableEq

/-- The records of one FastScan block. -/
structure ProbeBlock where
  records : List ProbeRecord
  count_le : records.length ≤ 32

/-- A cluster and the query's view of it. -/
structure ProbedCluster where
  blocks : List ProbeBlock
  safeinMarginFactor : ℚ
  safeoutMarginFactor : ℚ
  /-- The cluster has stage-2 data (`exrabitq_entries` or `exrabitq_batch_blocks`). -/
  hasExRaBitQ : Bool
  usesOfficial1PlusN : Bool
  /-- `lower_bound` of a block's stage-1 envelope, where it is finite. -/
  blockEnvelopeLowerBound : Nat → Option ℚ

/-- `ClusterProber`, by the total bits of its codes. -/
structure ClusterProber where
  totalBits : Nat

namespace ClusterProber

def hasS2 (p : ClusterProber) : Bool := decide (1 < p.totalBits)

def marginS2Divisor (p : ClusterProber) : ℚ :=
  if 1 < p.totalBits then 2 ^ (p.totalBits - 1) else 1

end ClusterProber

/-- A lane of a block: its place in the block and in the cluster, and its record. -/
structure ProbeLane where
  index : Nat
  globalIdx : Nat
  record : ProbeRecord

/-- The lanes of the `b`-th block. -/
def ProbeBlock.lanes (b : Nat) (block : ProbeBlock) : List ProbeLane :=
  block.records.zipIdx.map fun (record, j) => ⟨j, b * 32 + j, record⟩

/-! ## Margins -/

section Probe

variable (env : Env) (p : ClusterProber) (pc : ProbedCluster)
  (safeoutFrontierUpper safeinThresholdBase : Flt)

def safeinMarginS1 (r : ProbeRecord) : ℚ := pc.safeinMarginFactor * r.normOc

def safeoutMarginS1 (r : ProbeRecord) : ℚ := pc.safeoutMarginFactor * r.normOc

def safeinMarginS2 (r : ProbeRecord) : ℚ := safeinMarginS1 pc r / p.marginS2Divisor

def safeoutMarginS2 (r : ProbeRecord) : ℚ := safeoutMarginS1 pc r / p.marginS2Divisor

/-- The two margin factors differ by more than `1e-12`. -/
def splitStage2Margin : Bool :=
  decide (1 / 1000000000000 < |pc.safeinMarginFactor - pc.safeoutMarginFactor|)

/-- Stage 2 classifies whole blocks, with one margin for both tests. -/
def batchClassify : Bool :=
  !pc.usesOfficial1PlusN && env.config.enableStage2ScatterBatchClassify && !splitStage2Margin pc

/-- The margin of the stage-2 SafeOut test. -/
def stage2TestMargin (r : ProbeRecord) : ℚ :=
  if batchClassify env pc then safeinMarginS2 p pc r else safeoutMarginS2 p pc r

/-! ## Stage 1 -/

/-- The lane's bit in `safeout_mask`. -/
def stage1SafeOut (lane : ProbeLane) : Bool :=
  (safeoutFrontierUpper.add (.fin (safeoutMarginS1 pc lane.record))).lt (.fin lane.record.estDistS1)

/-- The lane's bit in `safein_mask`. -/
def stage1SafeIn (lane : ProbeLane) : Bool :=
  env.config.enableStage1Safein &&
    (Flt.fin lane.record.estDistS1).lt
      (safeinThresholdBase.sub (.fin (safeinMarginS1 pc lane.record)))

/-- An uncertain survivor that stage 2 takes. -/
def toStage2 (lane : ProbeLane) : Bool :=
  !stage1SafeIn env pc safeinThresholdBase lane && p.hasS2 && pc.hasExRaBitQ

/-- The candidate of a lane that stage 1 settles. -/
def stage1Candidate (lane : ProbeLane) : Candidate where
  globalIdx := lane.globalIdx
  estDist := .fin lane.record.estDistS1
  estError := .fin (safeoutMarginS1 pc lane.record)
  estimateLowerBound := .fin (lane.record.estDistS1 - safeoutMarginS1 pc lane.record)
  safeinUpperBound := .fin (lane.record.estDistS1 + safeinMarginS1 pc lane.record)
  cls := if stage1SafeIn env pc safeinThresholdBase lane then .safeIn else .uncertain
  decodedAddr := lane.record.addr

/-! ## Stage 2 -/

/-- `kStage2BatchSize`. -/
def kStage2BatchSize : Nat := 8

/-- `Stage2BlockScratch`: the lanes collected for one block of eight. -/
structure Stage2Block where
  blockId : Nat
  lanes : List ProbeLane

/-- Collection with one slot for each eight lanes of the FastScan block. -/
def collectBlockFirst (baseIdx : Nat) (lanes : List ProbeLane) : List Stage2Block :=
  ((List.range 4).map fun slot =>
    ⟨baseIdx / kStage2BatchSize + slot,
      lanes.filter fun lane => decide (lane.index / kStage2BatchSize = slot)⟩).filter
    fun block => !block.lanes.isEmpty

/-- Put a lane in the block with its id, or open one. -/
def addToBlock (lane : ProbeLane) : List Stage2Block → List Stage2Block
  | [] => [⟨lane.globalIdx / kStage2BatchSize, [lane]⟩]
  | block :: rest =>
      if block.blockId = lane.globalIdx / kStage2BatchSize then
        { block with lanes := block.lanes ++ [lane] } :: rest
      else block :: addToBlock lane rest

/-- Collection that looks each lane's block up. -/
def collectByLookup (lanes : List ProbeLane) : List Stage2Block :=
  lanes.foldl (fun blocks lane => addToBlock lane blocks) []

def collectStage2 (baseIdx : Nat) (lanes : List ProbeLane) : List Stage2Block :=
  if env.config.enableStage2CollectBlockFirst then collectBlockFirst baseIdx lanes
  else collectByLookup lanes

/-- The stage-2 SafeOut test. -/
def stage2SafeOut (lane : ProbeLane) : Bool :=
  (safeoutFrontierUpper.add (.fin (stage2TestMargin env p pc lane.record))).lt
    (.fin lane.record.estDistS2)

/-- The stage-2 SafeIn test, for a lane that is not SafeOut. -/
def stage2SafeIn (lane : ProbeLane) : Bool :=
  (Flt.fin lane.record.estDistS2).lt
    (safeinThresholdBase.sub (.fin (safeinMarginS2 p pc lane.record)))

/-- The candidate of a lane that stage 2 keeps. -/
def stage2Candidate (lane : ProbeLane) : Candidate where
  globalIdx := lane.globalIdx
  estDist := .fin lane.record.estDistS2
  estError := .fin (safeoutMarginS2 p pc lane.record)
  estimateLowerBound := .fin (lane.record.estDistS2 - safeoutMarginS2 p pc lane.record)
  safeinUpperBound := .fin (lane.record.estDistS2 + safeinMarginS2 p pc lane.record)
  cls := if stage2SafeIn p pc safeinThresholdBase lane then .safeIn else .uncertain
  decodedAddr := lane.record.addr

/-- Classify the lanes of a stage-2 block and keep what is not SafeOut. -/
def classifyStage2 (block : Stage2Block) : List Candidate :=
  (block.lanes.filter fun lane => !stage2SafeOut env p pc safeoutFrontierUpper lane).map
    (stage2Candidate p pc safeinThresholdBase)

/-! ## Probe -/

/-- The block-skip envelope drops the block. -/
def skipsBlock (b : Nat) : Bool :=
  env.config.enableStage1BlockSkipEnvelope &&
    match pc.blockEnvelopeLowerBound b, safeoutFrontierUpper with
    | some lowerBound, .fin upper => decide (upper < lowerBound)
    | _, _ => false

/-- The lanes of a block that stage 1 keeps. -/
def maybeIn (b : Nat) (block : ProbeBlock) : List ProbeLane :=
  (block.lanes b).filter fun lane => !stage1SafeOut pc safeoutFrontierUpper lane

/-- The survivors that stage 2 takes. -/
def stage2Lanes (b : Nat) (block : ProbeBlock) : List ProbeLane :=
  (maybeIn pc safeoutFrontierUpper b block).filter (toStage2 env p pc safeinThresholdBase)

/-- The candidates of a block, in the order the batch holds them. -/
def blockCandidates (b : Nat) (block : ProbeBlock) : List Candidate :=
  if skipsBlock env pc safeoutFrontierUpper b then []
  else
    ((maybeIn pc safeoutFrontierUpper b block).filter
        fun lane => !toStage2 env p pc safeinThresholdBase lane).map
      (stage1Candidate env pc safeinThresholdBase) ++
    (collectStage2 env (b * 32)
        (stage2Lanes env p pc safeoutFrontierUpper safeinThresholdBase b block)).flatMap
      (classifyStage2 env p pc safeoutFrontierUpper safeinThresholdBase)

end Probe

/-! ### The collected lanes are the stage-2 lanes -/

theorem addToBlock_lanes (lane : ProbeLane) : ∀ blocks : List Stage2Block,
    ((addToBlock lane blocks).flatMap Stage2Block.lanes).Perm
      (blocks.flatMap Stage2Block.lanes ++ [lane])
  | [] => by simp [addToBlock]
  | block :: rest => by
      unfold addToBlock
      split
      · simp only [List.flatMap_cons, List.append_assoc]
        exact List.perm_append_comm.append_left _
      · simp only [List.flatMap_cons, List.append_assoc]
        exact (addToBlock_lanes lane rest).append_left _

theorem collectByLookup_lanes (lanes : List ProbeLane) :
    ((collectByLookup lanes).flatMap Stage2Block.lanes).Perm lanes := by
  have fold : ∀ (lanes : List ProbeLane) (blocks : List Stage2Block),
      ((lanes.foldl (fun blocks lane => addToBlock lane blocks) blocks).flatMap
        Stage2Block.lanes).Perm (blocks.flatMap Stage2Block.lanes ++ lanes) := by
    intro lanes
    induction lanes with
    | nil => simp
    | cons lane lanes ih =>
        intro blocks
        have := (ih (addToBlock lane blocks)).trans
          ((addToBlock_lanes lane blocks).append_right lanes)
        simpa using this
  simpa [collectByLookup] using fold lanes []

theorem collectBlockFirst_lanes (baseIdx : Nat) {lanes : List ProbeLane}
    (inBlock : ∀ lane ∈ lanes, lane.index < 32) :
    ((collectBlockFirst baseIdx lanes).flatMap Stage2Block.lanes).Perm lanes := by
  have dropEmpty : ∀ blocks : List Stage2Block,
      (blocks.filter fun block => !block.lanes.isEmpty).flatMap Stage2Block.lanes =
        blocks.flatMap Stage2Block.lanes := by
    intro blocks
    induction blocks with
    | nil => rfl
    | cons block rest ih =>
        rw [List.filter_cons]
        split
        · simp [ih]
        · rename_i empty
          have : block.lanes = [] := by simpa using empty
          simp [ih, this]
  rw [collectBlockFirst, dropEmpty, List.flatMap_map]
  refine (flatMap_filter_perm (fun lane : ProbeLane => lane.index / kStage2BatchSize) lanes 4).trans
    (.of_eq (List.filter_eq_self.2 fun lane mem => ?_))
  have := inBlock lane mem
  exact decide_eq_true (by unfold kStage2BatchSize; omega)

theorem lanes_index {b : Nat} {block : ProbeBlock} {lane : ProbeLane} (mem : lane ∈ block.lanes b) :
    lane.index < 32 := by
  obtain ⟨⟨record, j⟩, inZip, rfl⟩ := List.mem_map.1 mem
  obtain ⟨-, bound, -⟩ := List.mem_zipIdx inZip
  have := block.count_le
  simp only at bound ⊢
  omega

section Probe

variable (env : Env) (p : ClusterProber) (pc : ProbedCluster)
  (safeoutFrontierUpper safeinThresholdBase : Flt)

/-- Both collection modes hand every stage-2 lane to a block, once. -/
theorem collectStage2_lanes (b : Nat) (block : ProbeBlock) :
    ((collectStage2 env (b * 32)
      (stage2Lanes env p pc safeoutFrontierUpper safeinThresholdBase b block)).flatMap
        Stage2Block.lanes).Perm
      (stage2Lanes env p pc safeoutFrontierUpper safeinThresholdBase b block) := by
  unfold collectStage2
  split
  · refine collectBlockFirst_lanes _ fun lane mem => @lanes_index b block lane ?_
    exact List.mem_of_mem_filter (List.mem_of_mem_filter mem)
  · exact collectByLookup_lanes _

/-- The blocks of stage 2 classify their lanes one after the other. -/
theorem classifyStage2_flatMap (blocks : List Stage2Block) :
    blocks.flatMap (classifyStage2 env p pc safeoutFrontierUpper safeinThresholdBase) =
      ((blocks.flatMap Stage2Block.lanes).filter
        fun lane => !stage2SafeOut env p pc safeoutFrontierUpper lane).map
          (stage2Candidate p pc safeinThresholdBase) := by
  induction blocks with
  | nil => rfl
  | cons block rest ih =>
      rw [List.flatMap_cons, ih, List.flatMap_cons, List.filter_append, List.map_append]
      rfl

/-- The candidates stage 2 contributes to a block. -/
theorem stage2_candidates_perm (b : Nat) (block : ProbeBlock) :
    ((collectStage2 env (b * 32)
      (stage2Lanes env p pc safeoutFrontierUpper safeinThresholdBase b block)).flatMap
        (classifyStage2 env p pc safeoutFrontierUpper safeinThresholdBase)).Perm
      (((stage2Lanes env p pc safeoutFrontierUpper safeinThresholdBase b block).filter
        fun lane => !stage2SafeOut env p pc safeoutFrontierUpper lane).map
          (stage2Candidate p pc safeinThresholdBase)) := by
  rw [classifyStage2_flatMap]
  exact ((collectStage2_lanes env p pc safeoutFrontierUpper safeinThresholdBase b block).filter
    _).map _

theorem blockCandidates_length (b : Nat) (block : ProbeBlock) :
    (blockCandidates env p pc safeoutFrontierUpper safeinThresholdBase b block).length ≤
      kMaxCandidates := by
  unfold blockCandidates
  split
  · exact Nat.zero_le _
  · have lanes : (block.lanes b).length ≤ 32 := by
      simpa [ProbeBlock.lanes] using block.count_le
    have kept : (maybeIn pc safeoutFrontierUpper b block).length ≤ (block.lanes b).length :=
      List.length_filter_le _ _
    have parts := (List.filter_append_perm (toStage2 env p pc safeinThresholdBase)
      (maybeIn pc safeoutFrontierUpper b block)).length_eq
    have stage2 := (stage2_candidates_perm env p pc safeoutFrontierUpper safeinThresholdBase b
      block).length_eq
    have notOut := List.length_filter_le
      (fun lane => !stage2SafeOut env p pc safeoutFrontierUpper lane)
      (stage2Lanes env p pc safeoutFrontierUpper safeinThresholdBase b block)
    rw [List.length_append, stage2]
    simp only [List.length_map, List.length_append, kMaxCandidates, stage2Lanes] at *
    omega

/-- The batch of a block; a block without candidates hands the sink none. -/
def probeBlock (b : Nat) (block : ProbeBlock) : Option CandidateBatch :=
  if (blockCandidates env p pc safeoutFrontierUpper safeinThresholdBase b block).isEmpty then none
  else
    some ⟨blockCandidates env p pc safeoutFrontierUpper safeinThresholdBase b block,
      blockCandidates_length env p pc safeoutFrontierUpper safeinThresholdBase b block⟩

end Probe

/-- `Probe`: the batches of a cluster's blocks, in order. -/
def ClusterProber.probe (env : Env) (p : ClusterProber) : Prober ProbedCluster :=
  fun pc safeoutFrontierUpper safeinThresholdBase =>
    pc.blocks.zipIdx.filterMap fun (block, b) =>
      probeBlock env p pc safeoutFrontierUpper safeinThresholdBase b block

end VecFetch.Index
