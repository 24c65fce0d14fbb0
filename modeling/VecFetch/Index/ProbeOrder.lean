/-
# Index.ProbeOrder -- the order of a block's batch

A block hands its sink what stage 1 settles, then what stage 2 keeps, each in the order of the
records: of the record-by-record probe whichever way it collects (`blockCandidates_eq`), and of the
masks (`probeStages_batch`).  There the waiting survivors come back from the scratch blocks in
order (`entries_eq`), and stage 2 treats a lane by its record alone where the estimates do
(`scatterBlock_batch`).
-/
import VecFetch.Index.ClusterProber
import VecFetch.Index.ProbeFlags

namespace VecFetch.Index

open VecFetch.Theory VecFetch.Query

set_option autoImplicit false

/-! ## Record by record: stage 2 keeps the order of the lanes -/

theorem collectBlockFirst_order (baseIdx : ℕ) {lanes : List ProbeLane}
    (ascending : lanes.Pairwise fun a b => a.index < b.index)
    (inBlock : ∀ lane ∈ lanes, lane.index < 32) :
    (collectBlockFirst baseIdx lanes).flatMap Stage2Block.lanes = lanes := by
  apply @List.Perm.eq_of_pairwise _ (fun a b : ProbeLane => a.index < b.index)
  · intro a b _ _ ab ba
    omega
  · rw [List.pairwise_flatMap]
    constructor
    · intro block mem
      obtain ⟨slot, _, rfl⟩ := List.mem_map.1 (List.mem_of_mem_filter mem)
      exact ascending.filter _
    · apply List.Pairwise.filter
      rw [List.pairwise_map]
      apply List.pairwise_lt_range.imp
      intro slot later below a inSlot b inLater
      have left := of_decide_eq_true (List.mem_filter.1 inSlot).2
      have right := of_decide_eq_true (List.mem_filter.1 inLater).2
      unfold kStage2BatchSize at left right
      omega
  · exact ascending
  · exact collectBlockFirst_lanes baseIdx inBlock

/-- A lane whose block is the last one, or new, goes behind the others. -/
theorem addToBlock_order (lane : ProbeLane) : ∀ blocks : List Stage2Block,
    (blocks.Pairwise fun a b => a.blockId < b.blockId) →
    (∀ block ∈ blocks, block.blockId ≤ lane.globalIdx / kStage2BatchSize) →
    (addToBlock lane blocks).flatMap Stage2Block.lanes =
        blocks.flatMap Stage2Block.lanes ++ [lane] ∧
      ((addToBlock lane blocks).map Stage2Block.blockId = blocks.map Stage2Block.blockId ∨
        (∀ block ∈ blocks, block.blockId < lane.globalIdx / kStage2BatchSize) ∧
          (addToBlock lane blocks).map Stage2Block.blockId =
            blocks.map Stage2Block.blockId ++ [lane.globalIdx / kStage2BatchSize])
  | [], _, _ => ⟨by simp [addToBlock], Or.inr ⟨by simp, by simp [addToBlock]⟩⟩
  | block :: rest, ascending, below => by
      obtain ⟨above, ascending'⟩ := List.pairwise_cons.1 ascending
      have below' : ∀ other ∈ rest, other.blockId ≤ lane.globalIdx / kStage2BatchSize :=
        fun other mem => below other (List.mem_cons_of_mem _ mem)
      unfold addToBlock
      split
      · next same =>
          have alone : rest = [] := by
            apply List.eq_nil_iff_forall_not_mem.2
            intro other mem
            have lower := above other mem
            have upper := below' other mem
            omega
          rw [alone]
          exact ⟨by simp, Or.inl rfl⟩
      · next apart =>
          have head := below block List.mem_cons_self
          obtain ⟨order, ids⟩ := addToBlock_order lane rest ascending' below'
          refine ⟨?_, ids.imp (fun same => ?_) fun new => ⟨?_, ?_⟩⟩
          · rw [List.flatMap_cons, order, List.flatMap_cons, List.append_assoc]
          · rw [List.map_cons, same, List.map_cons]
          · intro other mem
            rcases List.mem_cons.1 mem with rfl | later
            · omega
            · exact new.1 other later
          · rw [List.map_cons, new.2, List.map_cons, List.cons_append]

theorem collectByLookup_order {lanes : List ProbeLane}
    (ascending : lanes.Pairwise fun a b => a.globalIdx < b.globalIdx) :
    (collectByLookup lanes).flatMap Stage2Block.lanes = lanes := by
  have collected : (collectByLookup lanes).flatMap Stage2Block.lanes = lanes ∧
      ((collectByLookup lanes).map Stage2Block.blockId).Pairwise (· < ·) ∧
      ∀ id ∈ (collectByLookup lanes).map Stage2Block.blockId,
        ∃ lane ∈ lanes, id = lane.globalIdx / kStage2BatchSize := by
    induction lanes using List.reverseRecOn with
    | nil => exact ⟨rfl, List.Pairwise.nil, fun id mem => by cases mem⟩
    | append_singleton lanes lane ih =>
        obtain ⟨before, _, above⟩ := List.pairwise_append.1 ascending
        obtain ⟨order, ids, origin⟩ := ih before
        have turn : collectByLookup (lanes ++ [lane]) =
            addToBlock lane (collectByLookup lanes) := by
          rw [collectByLookup, List.foldl_append]
          rfl
        have below : ∀ block ∈ collectByLookup lanes,
            block.blockId ≤ lane.globalIdx / kStage2BatchSize := by
          intro block mem
          obtain ⟨earlier, held, same⟩ := origin _ (List.mem_map_of_mem mem)
          rw [same]
          exact Nat.div_le_div_right (above earlier held lane (List.mem_singleton.2 rfl)).le
        have kept : ∀ id ∈ (collectByLookup lanes).map Stage2Block.blockId,
            ∃ other ∈ lanes ++ [lane], id = other.globalIdx / kStage2BatchSize := by
          intro id mem
          obtain ⟨earlier, held, same⟩ := origin id mem
          exact ⟨earlier, List.mem_append_left _ held, same⟩
        obtain ⟨order', blocks⟩ := addToBlock_order lane _ (List.pairwise_map.1 ids) below
        rw [turn, order', order]
        refine ⟨rfl, ?_⟩
        rcases blocks with same | ⟨fresh, same⟩
        · rw [same]
          exact ⟨ids, kept⟩
        · rw [same]
          constructor
          · refine List.pairwise_append.2 ⟨ids, List.pairwise_singleton _ _, ?_⟩
            intro id mem last here
            obtain ⟨block, held, rfl⟩ := List.mem_map.1 mem
            rw [List.mem_singleton.1 here]
            exact fresh block held
          · intro id mem
            rcases List.mem_append.1 mem with old | new
            · exact kept id old
            · exact ⟨lane, List.mem_append_right _ List.mem_cons_self, List.mem_singleton.1 new⟩
  exact collected.1

/-- The lanes of a block are numbered from the first up. -/
theorem lanes_ascending (b : ℕ) (block : ProbeBlock) :
    (block.lanes b).Pairwise fun a c => a.index < c.index ∧ a.globalIdx < c.globalIdx := by
  have numbered : block.records.zipIdx.Pairwise fun a c => a.2 < c.2 := by
    apply List.pairwise_map.1
    rw [List.zipIdx_map_snd]
    exact List.pairwise_lt_range'
  rw [ProbeBlock.lanes, List.pairwise_map]
  apply numbered.imp
  intro a c below
  exact ⟨below, Nat.add_lt_add_left below _⟩

section Block

variable (env : Env) (p : ClusterProber) (pc : ProbedCluster)
  (safeoutFrontierUpper safeinThresholdBase : Flt)

/-- **The batch of a block**: what stage 1 settles, then what stage 2 keeps, each in the order of
the records. -/
theorem blockCandidates_eq (b : ℕ) (block : ProbeBlock) :
    blockCandidates env p pc safeoutFrontierUpper safeinThresholdBase b block =
      if skipsBlock env pc safeoutFrontierUpper b then []
      else
        ((maybeIn pc safeoutFrontierUpper b block).filter
            fun lane => !toStage2 env p pc safeinThresholdBase lane).map
          (stage1Candidate env pc safeinThresholdBase) ++
        ((stage2Lanes env p pc safeoutFrontierUpper safeinThresholdBase b block).filter
            fun lane => !stage2SafeOut env p pc safeoutFrontierUpper lane).map
          (stage2Candidate p pc safeinThresholdBase) := by
  have ascending : (stage2Lanes env p pc safeoutFrontierUpper safeinThresholdBase b block).Pairwise
      fun a c => a.index < c.index ∧ a.globalIdx < c.globalIdx :=
    ((lanes_ascending b block).filter _).filter _
  have inBlock : ∀ lane ∈ stage2Lanes env p pc safeoutFrontierUpper safeinThresholdBase b block,
      lane.index < 32 := fun lane mem =>
    @lanes_index b block lane (List.mem_of_mem_filter (List.mem_of_mem_filter mem))
  have order : (collectStage2 env (b * 32)
      (stage2Lanes env p pc safeoutFrontierUpper safeinThresholdBase b block)).flatMap
        Stage2Block.lanes =
      stage2Lanes env p pc safeoutFrontierUpper safeinThresholdBase b block := by
    unfold collectStage2
    split
    · exact collectBlockFirst_order _ (ascending.imp And.left) inBlock
    · exact collectByLookup_order (ascending.imp And.right)
  rw [blockCandidates, classifyStage2_flatMap, order]

end Block

namespace ProbeLanes

open VecFetch.Simd FloatArith

/-! ## The scratch blocks give the waiting survivors back in order -/

namespace Stage2BlockScratch

variable {F : Type} {block : Stage2BlockScratch F}

/-- A collected lane is where its record belongs. -/
theorem Keyed.entry (keyed : block.Keyed) {slot : ℕ × Stage2LaneEntry F}
    (mem : slot ∈ block.entries) :
    block.blockId = slot.2.globalIdx / kStage2BatchSize ∧
      slot.1 = (slot.2.globalIdx % kStage2BatchSize).toNat := by
  obtain ⟨_, set, held⟩ := mem_entries.1 mem
  obtain ⟨_, entry, here, block, lane⟩ := keyed slot.1 set
  rw [held, Option.some.injEq] at here
  rw [here]
  exact ⟨block.symm, lane.symm⟩

theorem Keyed.record_toNat (keyed : block.Keyed) {slot : ℕ × Stage2LaneEntry F}
    (mem : slot ∈ block.entries) :
    slot.2.globalIdx.toNat = 8 * block.blockId.toNat + slot.1 ∧ slot.1 < 8 := by
  obtain ⟨block, lane⟩ := keyed.entry mem
  rw [block, lane, UInt32.toNat_div, UInt32.toNat_mod, show kStage2BatchSize.toNat = 8 from rfl]
  omega

theorem Keyed.ascending (keyed : block.Keyed) :
    block.entries.Pairwise fun a b => a.2.globalIdx.toNat < b.2.globalIdx.toNat := by
  have lanes : (block.entries.map Prod.fst).Pairwise (· < ·) := by
    rw [entries_lanes keyed]
    exact List.pairwise_lt_range.filter _
  apply (List.pairwise_map.1 lanes).imp_of_mem
  intro a b first second below
  have left := keyed.record_toNat first
  have right := keyed.record_toNat second
  omega

end Stage2BlockScratch

namespace Collected

variable {F : Type}

/-- What the scratch blocks in use hold, block after block. -/
def entries (c : Collected F) : List (Stage2LaneEntry F) :=
  c.inUse.flatMap fun block => block.entries.map Prod.snd

theorem entries_records (c : Collected F) :
    c.entries.map Stage2LaneEntry.globalIdx = c.gathered := by
  have blocks : ∀ slots : List ℕ, (((slots.map c.blocks).filter Stage2BlockScratch.used).flatMap
      fun block => block.entries.map Prod.snd).map Stage2LaneEntry.globalIdx =
        slots.flatMap fun bi => (c.blocks bi).gathered := by
    intro slots
    induction slots with
    | nil => rfl
    | cons slot slots ih =>
        rw [List.flatMap_cons, ← ih, List.map_cons, List.filter_cons, Stage2BlockScratch.gathered]
        split
        · rw [List.flatMap_cons, List.map_append, List.map_map]
          rfl
        · rfl
  exact blocks (List.range 4)

/-- Block first, the records are held in their own order. -/
theorem Tables.ascending {base : UInt32} {c : Collected F} (tables : c.Tables true base) :
    c.gathered.Pairwise fun a b => a.toNat < b.toNat := by
  have bound := base.toNat_lt
  have held : ∀ bi < 4, ∀ record ∈ (c.blocks bi).gathered,
      8 * (base.toNat / 8 + bi) ≤ record.toNat ∧ record.toNat < 8 * (base.toNat / 8 + bi) + 8 := by
    intro bi four record mem
    rw [Stage2BlockScratch.gathered] at mem
    split at mem
    · next used =>
        obtain ⟨slot, inBlock, rfl⟩ := List.mem_map.1 mem
        have place := (tables.keyed bi used).record_toNat inBlock
        rw [tables.placed rfl bi used, UInt32.toNat_add, UInt32.toNat_div, UInt32.toNat_ofNat',
          show kStage2BatchSize.toNat = 8 from rfl] at place
        omega
    · cases mem
  rw [gathered, List.pairwise_flatMap]
  constructor
  · intro bi _
    rw [Stage2BlockScratch.gathered]
    split
    · next used =>
        rw [List.pairwise_map]
        exact (tables.keyed bi used).ascending
    · exact List.Pairwise.nil
  · apply List.pairwise_lt_range.imp_of_mem
    intro bi later first second below a inFirst b inLater
    have left := held bi (List.mem_range.1 first) a inFirst
    have right := held later (List.mem_range.1 second) b inLater
    omega

end Collected

section Collect

variable {F : Type} [FloatArith F] (args : ProbeArgs F) (pc : ParsedCluster F)
  (base safeinMask : UInt32) (norms : ℕ → F) (eval : FastScanStage1EvalResult F)

/-- A survivor waits for stage 2. -/
def waits (j : ℕ) : Bool := !hasLane safeinMask j && stage2Runs args pc

/-- The batch entry of a survivor that stage 1 settles. -/
def settledLane (j : ℕ) : BatchLane F where
  globalIdx := base + UInt32.ofNat j
  estDist := eval.dists j
  estError := safeoutMarginS1 args (norms j)
  estimateLowerBound := eval.dists j - safeoutMarginS1 args (norms j)
  safeinUpperBound := eval.dists j + safeinMarginS1 args (norms j)
  cls := if hasLane safeinMask j then .safeIn else .uncertain

/-- The survivor loop. -/
def survivorLoop (lanes : List ℕ) : Collected F :=
  lanes.foldl (collectSurvivor args pc base norms eval safeinMask) {}

omit [FloatArith F] in
theorem scratchBlock_batch (j : ℕ) (c : Collected F) :
    (scratchBlock args j base c).2.batch = c.batch := by
  unfold scratchBlock
  dsimp only
  split
  · split <;> rfl
  · split <;> rfl

theorem collect_batch (lanes : List ℕ) :
    (survivorLoop args pc base safeinMask norms eval lanes).batch =
      (lanes.filter fun j => !waits args pc safeinMask j).map
        (settledLane args base safeinMask norms eval) := by
  induction lanes using List.reverseRecOn with
  | nil => rfl
  | append_singleton lanes j ih =>
      rw [survivorLoop, List.foldl_append, List.foldl_cons, List.foldl_nil, ← survivorLoop,
        List.filter_append, List.map_append, ← ih]
      cases wait : waits args pc safeinMask j with
      | true =>
          rw [collectSurvivor_entry _ wait, List.filter_singleton, wait]
          exact (scratchBlock_batch args base j _).trans (List.append_nil _).symm
      | false =>
          rw [List.filter_singleton, wait]
          unfold collectSurvivor
          rw [if_neg (by rw [← waits, wait]; decide)]
          rfl

variable {args pc base safeinMask norms eval}

/-- **The scratch blocks' records**, block first, are those of the waiting survivors, in order. -/
theorem gathered_eq (mode : args.enableStage2CollectBlockFirst = true)
    (aligned : base.toNat % 32 = 0) {lanes : List ℕ} (ascending : lanes.Pairwise (· < ·))
    (inside : ∀ j ∈ lanes, j < 32) :
    (survivorLoop args pc base safeinMask norms eval lanes).gathered =
      (lanes.filter (waits args pc safeinMask)).map fun j => base + UInt32.ofNat j := by
  have gathers : Gathers args pc base safeinMask lanes
      (survivorLoop args pc base safeinMask norms eval lanes) :=
    collect_gathers aligned (ascending.imp Nat.ne_of_lt) inside
  have tables := gathers.tables
  rw [mode] at tables
  have perm : ((survivorLoop args pc base safeinMask norms eval lanes).gathered).Perm
      ((lanes.filter (waits args pc safeinMask)).map fun j => base + UInt32.ofNat j) := by
    have parts := (List.filter_append_perm (waits args pc safeinMask) lanes).map
      fun j => base + UInt32.ofNat j
    have all := gathers.records.trans parts.symm
    rw [collect_batch, List.map_map, List.map_append] at all
    exact (List.perm_append_right_iff _).1 all
  apply @List.Perm.eq_of_pairwise _ (fun a b : UInt32 => a.toNat < b.toNat)
  · intro a b _ _ ab ba
    omega
  · exact tables.ascending
  · rw [List.pairwise_map]
    apply (ascending.filter _).imp_of_mem
    intro i j first second below
    rw [record_toNat aligned (inside i (List.mem_of_mem_filter first)),
      record_toNat aligned (inside j (List.mem_of_mem_filter second))]
    omega
  · exact perm

/-- **The scratch blocks**, block first, hold the waiting survivors in order. -/
theorem entries_eq (mode : args.enableStage2CollectBlockFirst = true)
    (aligned : base.toNat % 32 = 0) {lanes : List ℕ} (ascending : lanes.Pairwise (· < ·))
    (inside : ∀ j ∈ lanes, j < 32) :
    (survivorLoop args pc base safeinMask norms eval lanes).entries =
      (lanes.filter (waits args pc safeinMask)).map (survivorEntry args pc base norms eval) := by
  have number : ∀ j ∈ lanes, (base + UInt32.ofNat j).toNat % 32 = j := by
    intro j mem
    have below := inside j mem
    rw [record_toNat aligned below]
    omega
  -- an entry is told by its record
  have own : ∀ entry ∈ (survivorLoop args pc base safeinMask norms eval lanes).entries,
      survivorEntry args pc base norms eval (entry.globalIdx.toNat % 32) = entry := by
    intro entry mem
    obtain ⟨block, inUse, held⟩ := List.mem_flatMap.1 mem
    obtain ⟨⟨lane, _⟩, inBlock, rfl⟩ := List.mem_map.1 held
    obtain ⟨bi, _, rfl⟩ := List.mem_map.1 (List.mem_of_mem_filter inUse)
    obtain ⟨j, survivor, same⟩ := collect_survivors lanes bi lane _
      (Stage2BlockScratch.mem_entries.1 inBlock).2.2
    have here := number j survivor
    dsimp only
    rw [same]
    change survivorEntry args pc base norms eval ((base + UInt32.ofNat j).toNat % 32) = _
    rw [here]
  have records := (Collected.entries_records _).trans
    (@gathered_eq _ _ _ pc _ safeinMask norms eval mode aligned _ ascending inside)
  have back : (survivorLoop args pc base safeinMask norms eval lanes).entries.map
      ((fun g : UInt32 => survivorEntry args pc base norms eval (g.toNat % 32)) ∘
        Stage2LaneEntry.globalIdx) =
          (survivorLoop args pc base safeinMask norms eval lanes).entries :=
    (List.map_congr_left own).trans (List.map_id' _)
  rw [← back, ← List.map_map, records, List.map_map]
  apply List.map_congr_left
  intro j mem
  rw [Function.comp_apply, number j (List.mem_of_mem_filter mem)]

end Collect

/-! ## A kept lane depends on its record only -/

section Scatter

variable {F : Type} [FloatArith F] (args : ProbeArgs F) (pc : ParsedCluster F)

/-- Stage 2 classifies its blocks at once. -/
def atOnce : Bool :=
  !pc.usesOfficial1PlusN && args.enableStage2ScatterBatchClassify && !splitStage2Margin args

/-- The stage-2 estimate of a collected lane, in its format. -/
def laneEstDist (block : Stage2BlockScratch F) (slot : ℕ × Stage2LaneEntry F) : F :=
  if pc.usesOfficial1PlusN then officialEstDist args pc block slot.1 slot.2
  else laneEstS2 args pc block slot

variable (est : Stage2LaneEntry F → F)

/-- Stage 2 drops the record, by its estimate. -/
def dropsEntry (entry : Stage2LaneEntry F) : Bool :=
  lt (args.safeoutFrontierUpper +
    (if atOnce args pc then entry.marginS1 else entry.safeoutMarginS1) / args.marginS2Divisor)
    (est entry)

/-- Stage 2 finds the record below the threshold, by its estimate. -/
def nearEntry (entry : Stage2LaneEntry F) : Bool :=
  lt (est entry) (args.safeinThresholdBase - entry.marginS1 / args.marginS2Divisor)

/-- The batch entry of a record that stage 2 keeps. -/
def keptLane (entry : Stage2LaneEntry F) : BatchLane F :=
  stage2Lane args entry (est entry) (if nearEntry args est entry then .safeIn else .uncertain)

/-- What stage 2 keeps of some records. -/
def keptLanes (entries : List (Stage2LaneEntry F)) : List (BatchLane F) :=
  (entries.filter fun entry => !dropsEntry args pc est entry).map (keptLane args est)

variable {args pc est} {block : Stage2BlockScratch F}

theorem scatterLane_batch (mode : atOnce args pc = false) {slot : ℕ × Stage2LaneEntry F}
    (own : laneEstDist args pc block slot = est slot.2) (o : BlockOutcome F) :
    (scatterLane args pc block o slot).batch = o.batch ++ keptLanes args pc est [slot.2] := by
  unfold laneEstDist laneEstS2 at own
  unfold scatterLane keptLanes keptLane nearEntry dropsEntry
  dsimp only
  rw [own, mode, List.filter_singleton, if_neg Bool.false_ne_true]
  cases lt (args.safeoutFrontierUpper + slot.2.safeoutMarginS1 / args.marginS2Divisor)
      (est slot.2) with
  | true => exact (List.append_nil _).symm
  | false =>
      cases near : lt (est slot.2)
          (args.safeinThresholdBase - slot.2.marginS1 / args.marginS2Divisor) with
      | true => simp [near]
      | false => simp [near]

theorem scatterLanes_batch (mode : atOnce args pc = false) (entries : List (ℕ × Stage2LaneEntry F))
    (own : ∀ slot ∈ entries, laneEstDist args pc block slot = est slot.2) (o : BlockOutcome F) :
    (entries.foldl (scatterLane args pc block) o).batch =
      o.batch ++ keptLanes args pc est (entries.map Prod.snd) := by
  induction entries generalizing o with
  | nil => exact (List.append_nil _).symm
  | cons slot entries ih =>
      rw [List.foldl_cons, ih fun later mem => own later (List.mem_cons_of_mem _ mem),
        scatterLane_batch mode (own slot List.mem_cons_self), List.append_assoc, List.map_cons]
      unfold keptLanes
      rw [← List.map_append, ← List.filter_append]
      rfl

theorem scatterBatch_batch (mode : atOnce args pc = true) (keyed : block.Keyed)
    (own : ∀ slot ∈ block.entries, laneEstS2 args pc block slot = est slot.2)
    (registers : ∀ slot ∈ block.entries, simdEstDist args slot.2.normOc (laneIpRaw pc block slot.1)
      (laneXipnorm pc block slot.1 slot.2) = laneEstS2 args pc block slot)
    (margins : ∀ slot ∈ block.entries, slot.2.marginS1 * (ofInt 1 / args.marginS2Divisor) =
      slot.2.marginS1 / args.marginS2Divisor) (o : BlockOutcome F) :
    (scatterBatch args pc block o).batch =
      o.batch ++ keptLanes args pc est (block.entries.map Prod.snd) := by
  generalize tested : stage2ClassifyBatch args (batchEst args pc block) (batchMargin args block)
    block.laneMask = masks
  have held := fun slot mem =>
    (@Stage2BlockScratch.mem_entries F block slot.1 slot.2).1 (show slot ∈ block.entries from mem)
  have classified := @classify_entries _ _ args pc block keyed (fun slot => est slot.2)
    (fun slot => slot.2.marginS1 / args.marginS2Divisor)
    (fun slot mem => (batchEst_held (held slot mem).2.2).elim (fun same => same.trans (own slot mem))
      fun simd => simd.trans ((registers slot mem).trans (own slot mem)))
    (fun slot mem => (batchMargin_held (held slot mem).2.2).trans (margins slot mem)) _ tested
  have byLane : ∀ slot ∈ block.entries,
      hasLane (masks.safein ||| masks.uncertain) slot.1 = (!dropsEntry args pc est slot.2) ∧
        hasLane masks.safein slot.1 =
          (!dropsEntry args pc est slot.2 && nearEntry args est slot.2) := by
    intro slot mem
    obtain ⟨_, safein, uncertain⟩ := classified slot mem
    have drops : lt (args.safeoutFrontierUpper + slot.2.marginS1 / args.marginS2Divisor)
        (est slot.2) = dropsEntry args pc est slot.2 := by
      rw [dropsEntry, mode, if_pos rfl]
    rw [drops, ← nearEntry] at safein uncertain
    rw [hasLane_or, safein, uncertain]
    refine ⟨?_, rfl⟩
    cases dropsEntry args pc est slot.2 <;> cases nearEntry args est slot.2 <;> rfl
  rw [scatterBatch_masks o tested]
  dsimp only
  rw [List.filter_congr fun slot mem => (byLane slot mem).1, keptLanes, List.filter_map,
    List.map_map]
  congr 1
  apply List.map_congr_left
  intro slot mem
  obtain ⟨held, kept⟩ := List.mem_filter.1 mem
  rw [(byLane slot held).2, kept, Bool.true_and, own slot held]
  rfl

/-- The estimates and margins of a block's lanes are those of their records. -/
structure Settles (args : ProbeArgs F) (pc : ParsedCluster F) (est : Stage2LaneEntry F → F)
    (block : Stage2BlockScratch F) : Prop where
  own : ∀ slot ∈ block.entries, laneEstDist args pc block slot = est slot.2
  registers : pc.usesOfficial1PlusN = false → ∀ slot ∈ block.entries,
    simdEstDist args slot.2.normOc (laneIpRaw pc block slot.1)
      (laneXipnorm pc block slot.1 slot.2) = laneEstS2 args pc block slot
  margins : ∀ slot ∈ block.entries, slot.2.marginS1 * (ofInt 1 / args.marginS2Divisor) =
    slot.2.marginS1 / args.marginS2Divisor

/-- **Stage 2 of a scratch block** adds what it keeps of the block's records. -/
theorem scatterBlock_batch (keyed : block.Keyed) (settles : Settles args pc est block)
    (o : BlockOutcome F) : (scatterBlock args pc block o).batch =
      o.batch ++ keptLanes args pc est (block.entries.map Prod.snd) := by
  cases mode : atOnce args pc with
  | true =>
      have legacy : pc.usesOfficial1PlusN = false := by
        cases official : pc.usesOfficial1PlusN with
        | false => rfl
        | true =>
            rw [atOnce, official] at mode
            cases mode
      have own : ∀ slot ∈ block.entries, laneEstS2 args pc block slot = est slot.2 := by
        intro slot mem
        rw [← settles.own slot mem, laneEstDist, legacy]
        rfl
      rw [scatterBlock, ← atOnce, mode, if_pos rfl]
      exact scatterBatch_batch mode keyed own (settles.registers legacy) settles.margins o
  | false =>
      rw [scatterBlock, ← atOnce, mode, if_neg Bool.false_ne_true]
      exact scatterLanes_batch mode _ settles.own o

theorem scatterBlocks_batch {blocks : List (Stage2BlockScratch F)}
    (keyed : ∀ block ∈ blocks, block.Keyed) (settles : ∀ block ∈ blocks, Settles args pc est block)
    (o : BlockOutcome F) : (blocks.foldl (fun o block => scatterBlock args pc block o) o).batch =
      o.batch ++
        keptLanes args pc est (blocks.flatMap fun block => block.entries.map Prod.snd) := by
  induction blocks generalizing o with
  | nil => exact (List.append_nil _).symm
  | cons block blocks ih =>
      rw [List.foldl_cons, ih (fun other mem => keyed other (List.mem_cons_of_mem _ mem))
        (fun other mem => settles other (List.mem_cons_of_mem _ mem)),
        scatterBlock_batch (keyed block List.mem_cons_self) (settles block List.mem_cons_self),
        List.flatMap_cons, List.append_assoc]
      unfold keptLanes
      rw [List.filter_append, List.map_append]

variable (args pc)

/-- The survivors of stage 1 in a block. -/
def survivors (b : UInt32) : List ℕ := compactMaskToIndices (maybeInMask args pc b)

/-- The entry of a survivor. -/
def blockEntry (b : UInt32) : ℕ → Stage2LaneEntry F :=
  survivorEntry args pc (baseIdx b) (pc.blockNorms b) (stage1Eval args pc b)

/-- Stage 2 of the block settles its records. -/
def BlockSettles (est : Stage2LaneEntry F → F) (b : UInt32) : Prop :=
  ∀ block : Stage2BlockScratch F, block.Keyed →
    (∀ slot ∈ block.entries, ∃ j ∈ survivors args pc b, slot.2 = blockEntry args pc b j) →
    Settles args pc est block

variable {args pc}

/-- What is collected of a block, block first. -/
theorem blockCollected_entries (mode : args.enableStage2CollectBlockFirst = true) (b : UInt32) :
    (blockCollected args pc b).entries =
      ((survivors args pc b).filter (waits args pc (stage1SafeinMask args pc b))).map
        (blockEntry args pc b) := by
  obtain ⟨ascending, inside⟩ := survivors_ascending (maybeInMask args pc b)
  exact entries_eq mode (baseIdx_aligned b) ascending inside

/-- Stage 2 of a block adds what it keeps of the collected records. -/
theorem settleCollected_batch {b : UInt32} (settles : BlockSettles args pc est b)
    (o : BlockOutcome F) : (settleCollected args pc (blockCollected args pc b) o).batch =
      o.batch ++ keptLanes args pc est (blockCollected args pc b).entries := by
  obtain ⟨ascending, inside⟩ := survivors_ascending (maybeInMask args pc b)
  have gathers : Gathers args pc (baseIdx b) (stage1SafeinMask args pc b) (survivors args pc b)
      (blockCollected args pc b) :=
    collect_gathers (baseIdx_aligned b) (ascending.imp Nat.ne_of_lt) inside
  have found : Survivors args pc (baseIdx b) (pc.blockNorms b) (stage1Eval args pc b)
      (survivors args pc b) (blockCollected args pc b) := collect_survivors _
  unfold settleCollected
  split
  · have keyed : ∀ block ∈ (blockCollected args pc b).inUse, block.Keyed := by
      intro block mem
      obtain ⟨inFour, used⟩ := List.mem_filter.1 mem
      obtain ⟨bi, _, rfl⟩ := List.mem_map.1 inFour
      exact gathers.tables.keyed bi used
    rw [scatterBlocks_batch keyed, Collected.entries]
    intro block mem
    apply settles block (keyed block mem)
    intro slot held
    obtain ⟨bi, _, rfl⟩ := List.mem_map.1 (List.mem_of_mem_filter mem)
    exact found bi slot.1 slot.2 (Stage2BlockScratch.mem_entries.1 held).2.2
  · next none =>
      have empty : (blockCollected args pc b).entries = [] := by
        rw [← List.length_eq_zero_iff, ← List.length_map Stage2LaneEntry.globalIdx,
          Collected.entries_records, ← gathers.counted]
        omega
      rw [empty]
      exact (List.append_nil _).symm

/-- **The batch of a block**: what stage 1 settles, then what stage 2 keeps, each in the order of
the records. -/
theorem probeStages_batch {b : UInt32} (settles : BlockSettles args pc est b) (stats : ProbeStats) :
    (probeStages args pc b stats).batch =
      ((survivors args pc b).filter fun j => !waits args pc (stage1SafeinMask args pc b) j).map
        (settledLane args (baseIdx b) (stage1SafeinMask args pc b) (pc.blockNorms b)
          (stage1Eval args pc b)) ++
      keptLanes args pc est
        (((survivors args pc b).filter (waits args pc (stage1SafeinMask args pc b))).map
          (blockEntry args pc b)) := by
  -- by search the blocks are those by place
  have byPlace : probeStages args pc b stats = probeStages (args.collecting true) pc b stats := by
    have same : args.collecting args.enableStage2CollectBlockFirst = args := rfl
    cases mode : args.enableStage2CollectBlockFirst with
    | true =>
        rw [mode] at same
        rw [same]
    | false =>
        rw [mode] at same
        rw [probeStages_collecting, same]
  have settles' : BlockSettles (args.collecting true) pc est b := by
    intro block keyed found
    obtain ⟨own, registers, margins⟩ := settles block keyed found
    exact ⟨own, registers, margins⟩
  have batch := settleCollected_batch settles' (stage1Outcome (args.collecting true) pc b
    (blockCollected (args.collecting true) pc b).batch stats)
  rw [blockCollected_entries rfl, ← probeStages_eq, ← byPlace] at batch
  rw [batch]
  congr 1
  exact collect_batch (args.collecting true) pc _ _ _ _ _

end Scatter

end ProbeLanes

end VecFetch.Index
