/-
# Index.ProbeFlags -- the stage-2 options do not change the outcome

The scratch blocks of a FastScan block are reached by their place or by a search for
their number, and their lanes are classified at once or one by one.  A survivor's block
of eight is either the last one opened or new, so the searched blocks are the indexed ones
in use, in the same order (`InStep`).  In exact arithmetic, and with one margin factor, the
classifier's registers compute what the lane loop computes (`scatterBatch_eq`).
-/
import VecFetch.Index.ProbePartition
import VecFetch.Common.ExactFloat
import Mathlib.Data.List.Sort
import Mathlib.Data.Set.Basic

namespace VecFetch.Index.ProbeLanes

open VecFetch.Theory VecFetch.Simd VecFetch.Query FloatArith

set_option autoImplicit false

namespace ProbeArgs

variable {F : Type}

/-- The settings with `enable_stage2_collect_block_first` on or off. -/
def collecting (args : ProbeArgs F) (blockFirst : Bool) : ProbeArgs F :=
  { args with enableStage2CollectBlockFirst := blockFirst }

/-- The settings with `enable_stage2_scatter_batch_classify` on or off. -/
def classifying (args : ProbeArgs F) (atOnce : Bool) : ProbeArgs F :=
  { args with enableStage2ScatterBatchClassify := atOnce }

end ProbeArgs

/-! ## Collecting by place and by search -/

namespace Collected

variable {F : Type}

/-- The scratch blocks in use, in the order stage 2 takes them. -/
def inUse (c : Collected F) : List (Stage2BlockScratch F) :=
  ((List.range 4).map c.blocks).filter Stage2BlockScratch.used

/-- The two ways of collecting, in step: `slots` are the places in use, and the searched
blocks are the ones there. -/
structure InStep (base : UInt32) (slots : List ℕ) (indexed searched : Collected F) : Prop where
  ascending : slots.Pairwise (· < ·)
  four : ∀ slot ∈ slots, slot < 4
  used : ∀ slot, (indexed.blocks slot).used = decide (slot ∈ slots)
  ids : ∀ slot ∈ slots, (indexed.blocks slot).blockId = base / kStage2BatchSize + UInt32.ofNat slot
  clear : ∀ slot, slot ∉ slots → indexed.blocks slot = {}
  same : ∀ place (inside : place < slots.length),
    searched.blocks place = indexed.blocks (slots.get ⟨place, inside⟩)
  rest : ∀ place, slots.length ≤ place → searched.blocks place = {}
  count : searched.blockCount = slots.length
  candidates : indexed.candidateCount = searched.candidateCount
  batch : indexed.batch = searched.batch

variable {base : UInt32} {slots : List ℕ} {indexed searched : Collected F}

theorem inStep_nil : InStep base [] ({} : Collected F) {} := by
  refine ⟨List.Pairwise.nil, ?_, fun _ => rfl, ?_, fun _ _ => rfl, ?_, fun _ _ => rfl, rfl, rfl,
    rfl⟩
  · intro slot mem
    cases mem
  · intro slot mem
    cases mem
  · intro place inside
    cases inside

/-- The slots in use are few. -/
theorem InStep.length_le (inStep : InStep base slots indexed searched) : slots.length ≤ 4 := by
  have distinct : slots.Nodup := inStep.ascending.imp fun below => Nat.ne_of_lt below
  have few := (distinct.subperm fun slot mem => List.mem_range.2 (inStep.four slot mem)).length_le
  rwa [List.length_range] at few

/-- Stage 2 takes the same blocks either way. -/
theorem InStep.inUse_eq (inStep : InStep base slots indexed searched) :
    indexed.inUse = searched.inUse := by
  have few := inStep.length_le
  have byPlace : indexed.inUse = slots.map indexed.blocks := by
    rw [inUse, List.filter_map]
    congr 1
    apply @List.Perm.eq_of_pairwise _ (· < ·)
    · intro a b _ _ ab ba
      omega
    · exact (List.pairwise_lt_range (n := 4)).filter _
    · exact inStep.ascending
    · apply (List.perm_ext_iff_of_nodup (List.nodup_range.filter _)
        (inStep.ascending.imp fun below => Nat.ne_of_lt below)).2
      intro slot
      rw [List.mem_filter, List.mem_range, Function.comp_apply, inStep.used, decide_eq_true_eq]
      exact ⟨fun both => both.2, fun mem => ⟨inStep.four slot mem, mem⟩⟩
  have bySearch : searched.inUse = slots.map indexed.blocks := by
    obtain ⟨more, four⟩ := Nat.exists_eq_add_of_le few
    have front : (List.range slots.length).map searched.blocks = slots.map indexed.blocks := by
      apply List.ext_get
      · rw [List.length_map, List.length_range, List.length_map]
      · intro place inside inside'
        have below : place < slots.length := by
          rwa [List.length_map, List.length_range] at inside
        simp only [List.get_eq_getElem, List.getElem_map, List.getElem_range]
        exact inStep.same place below
    rw [inUse, four, List.range_add, List.map_append, List.filter_append, front, List.map_map,
      List.filter_eq_self.2, List.filter_eq_nil_iff.2, List.append_nil]
    · intro block mem
      obtain ⟨place, _, rfl⟩ := List.mem_map.1 mem
      rw [Function.comp_apply, inStep.rest _ (Nat.le_add_right _ _)]
      exact Bool.false_ne_true
    · intro block mem
      obtain ⟨slot, held, rfl⟩ := List.mem_map.1 mem
      rw [inStep.used]
      exact decide_eq_true held
  rw [byPlace, bySearch]

/-- Both open a new block: by place at its slot, by search behind the others. -/
theorem InStep.openSlot (inStep : InStep base slots indexed searched) {slot : ℕ}
    {blockId : UInt32} (fits : slot < 4) (last : ∀ earlier ∈ slots, earlier < slot)
    (placed : blockId = base / kStage2BatchSize + UInt32.ofNat slot) :
    InStep base (slots ++ [slot]) (indexed.openSlot slot blockId)
      (searched.openSlot slots.length blockId) := by
  have new : slot ∉ slots := fun mem => Nat.lt_irrefl slot (last slot mem)
  have length : (slots ++ [slot]).length = slots.length + 1 := by
    rw [List.length_append, List.length_singleton]
  have fresh : (indexed.blocks slot).opened blockId =
      (searched.blocks slots.length).opened blockId := by
    rw [inStep.clear slot new, inStep.rest _ (Nat.le_refl _)]
  constructor
  · apply List.pairwise_append.2 ⟨inStep.ascending, List.pairwise_singleton _ _, ?_⟩
    intro earlier mem _ here
    rw [List.mem_singleton.1 here]
    exact last earlier mem
  · intro other mem
    rcases List.mem_append.1 mem with before | here
    · exact inStep.four other before
    · rw [List.mem_singleton.1 here]
      exact fits
  · intro other
    by_cases here : other = slot
    · rw [here, openSlot_same]
      exact (decide_eq_true (List.mem_append_right _ (List.mem_singleton.2 rfl))).symm
    · rw [openSlot_other here, inStep.used]
      simp [here]
  · intro other mem
    by_cases here : other = slot
    · rw [here, openSlot_same, Stage2BlockScratch.opened, placed]
    · rw [openSlot_other here]
      apply inStep.ids
      simpa [here] using mem
  · intro other absent
    have apart : other ≠ slot ∧ other ∉ slots := by
      simp only [List.mem_append, List.mem_singleton, not_or] at absent
      exact ⟨absent.2, absent.1⟩
    rw [openSlot_other apart.1, inStep.clear _ apart.2]
  · intro place inside
    rw [length] at inside
    rcases Nat.lt_or_ge place slots.length with before | after
    · have held : (slots ++ [slot]).get ⟨place, by omega⟩ = slots.get ⟨place, before⟩ :=
        List.getElem_append_left before
      rw [held, openSlot_other (Nat.ne_of_lt before), openSlot_other, inStep.same place before]
      intro same
      exact new (same ▸ List.get_mem _ _)
    · obtain rfl : place = slots.length := by omega
      have held : (slots ++ [slot]).get ⟨slots.length, by omega⟩ = slot := by
        simp
      rw [held, openSlot_same, openSlot_same, fresh]
  · intro place after
    rw [length] at after
    rw [openSlot_other (by omega), inStep.rest _ (by omega)]
  · rw [length]
    change searched.blockCount + 1 = _
    rw [inStep.count]
  · exact inStep.candidates
  · exact inStep.batch

/-- Both put a survivor in the block opened last. -/
theorem InStep.putLane {slot : ℕ} (inStep : InStep base (slots ++ [slot]) indexed searched)
    (lane : ℕ) (entry : Stage2LaneEntry F) :
    InStep base (slots ++ [slot]) (indexed.putLane slot lane entry)
      (searched.putLane slots.length lane entry) := by
  have length : (slots ++ [slot]).length = slots.length + 1 := by
    rw [List.length_append, List.length_singleton]
  have held : ∀ inside, (slots ++ [slot]).get ⟨slots.length, inside⟩ = slot := by
    intro inside
    simp
  have final : slot ∈ slots ++ [slot] := List.mem_append_right _ (List.mem_singleton.2 rfl)
  have earlier : ∀ other ∈ slots, other < slot := fun other mem =>
    (List.pairwise_append.1 inStep.ascending).2.2 other mem slot (List.mem_singleton.2 rfl)
  refine ⟨inStep.ascending, inStep.four, ?_, ?_, ?_, ?_, ?_, inStep.count, ?_, inStep.batch⟩
  · intro other
    by_cases here : other = slot
    · rw [here, putLane_same]
      exact inStep.used slot
    · rw [putLane_other here]
      exact inStep.used other
  · intro other mem
    by_cases here : other = slot
    · rw [here, putLane_same]
      exact inStep.ids slot final
    · rw [putLane_other here]
      exact inStep.ids other mem
  · intro other absent
    have apart : other ≠ slot := by
      rintro rfl
      exact absent final
    rw [putLane_other apart]
    exact inStep.clear other absent
  · intro place inside
    rcases Nat.lt_or_ge place slots.length with before | after
    · have there : (slots ++ [slot]).get ⟨place, inside⟩ = slots.get ⟨place, before⟩ :=
        List.getElem_append_left before
      have apart : slots.get ⟨place, before⟩ ≠ slot :=
        Nat.ne_of_lt (earlier _ (List.get_mem _ _))
      rw [putLane_other (Nat.ne_of_lt before), there, putLane_other apart, inStep.same place inside,
        there]
    · obtain rfl : place = slots.length := by omega
      rw [held, putLane_same, putLane_same, inStep.same _ inside, held]
  · intro place after
    rw [putLane_other (by omega)]
    exact inStep.rest place after
  · change indexed.candidateCount + 1 = searched.candidateCount + 1
    rw [inStep.candidates]

end Collected

section Collecting

open Collected

variable {F : Type} {args : ProbeArgs F} {base : UInt32} {slots : List ℕ}
  {indexed searched : Collected F} {j : ℕ}

/-- **The scratch block of a survivor**: both take the block opened last, or open one. -/
theorem scratchBlock_inStep (aligned : base.toNat % 32 = 0) (below : j < 32)
    (inStep : InStep base slots indexed searched) (ordered : ∀ slot ∈ slots, slot ≤ j / 8) :
    ∃ before, (∀ slot ∈ before, slot ∈ slots) ∧
      (scratchBlock (args.collecting true) j base indexed).1 = j / 8 ∧
      (scratchBlock (args.collecting false) j base searched).1 = before.length ∧
      InStep base (before ++ [j / 8]) (scratchBlock (args.collecting true) j base indexed).2
        (scratchBlock (args.collecting false) j base searched).2 := by
  have place : base / kStage2BatchSize + UInt32.ofNat (j / 8) =
      (base + UInt32.ofNat j) / kStage2BatchSize := record_block aligned below
  -- two slots in use have different numbers
  have apart : ∀ slot ∈ slots, base / kStage2BatchSize + UInt32.ofNat slot =
      (base + UInt32.ofNat j) / kStage2BatchSize → slot = j / 8 :=
    fun slot mem same => record_block_slot aligned below (inStep.four slot mem) same
  by_cases mem : j / 8 ∈ slots
  · obtain ⟨before, after, split⟩ := List.append_of_mem mem
    have alone : after = [] := by
      cases after with
      | nil => rfl
      | cons next after =>
          have later := ordered next (by rw [split]; simp)
          have ascending := inStep.ascending
          rw [split] at ascending
          have above := (List.pairwise_cons.1 (List.pairwise_append.1 ascending).2.1).1 next
            List.mem_cons_self
          omega
    rw [alone] at split
    have inside : before.length < slots.length := by
      rw [split, List.length_append, List.length_singleton]
      exact Nat.lt_succ_self _
    have held : slots.get ⟨before.length, inside⟩ = j / 8 := by
      simp [split]
    have opened : (indexed.blocks (j / 8)).used = true := by
      rw [inStep.used]
      exact decide_eq_true mem
    have byPlace : scratchBlock (args.collecting true) j base indexed = (j / 8, indexed) :=
      scratchBlock_of_used rfl opened
    have found : (List.range searched.blockCount).find? (fun bi =>
        (searched.blocks bi).blockId == (base + UInt32.ofNat j) / kStage2BatchSize) =
          some before.length := by
      rw [List.find?_range_eq_some, inStep.count]
      refine ⟨?_, List.mem_range.2 inside, ?_⟩
      · rw [inStep.same _ inside, held, inStep.ids _ mem, place]
        exact beq_self_eq_true _
      · intro earlier less
        have within : earlier < slots.length := Nat.lt_trans less inside
        rw [inStep.same _ within, inStep.ids _ (List.get_mem _ _), Bool.not_eq_true',
          beq_eq_false_iff_ne]
        intro same
        have again := apart _ (List.get_mem _ _) same
        have lower := List.pairwise_iff_getElem.1 inStep.ascending earlier before.length within inside
          less
        change slots.get ⟨earlier, within⟩ < slots.get ⟨before.length, inside⟩ at lower
        omega
    have bySearch : scratchBlock (args.collecting false) j base searched =
        (before.length, searched) := scratchBlock_of_found rfl found
    refine ⟨before, ?_, ?_, ?_, ?_⟩
    · intro slot earlier
      rw [split]
      exact List.mem_append_left _ earlier
    · rw [byPlace]
    · rw [bySearch]
    · rw [byPlace, bySearch, ← split]
      exact inStep
  · have last : ∀ earlier ∈ slots, earlier < j / 8 := by
      intro earlier held
      have le := ordered earlier held
      have ne : earlier ≠ j / 8 := fun same => mem (same ▸ held)
      omega
    have closed : (indexed.blocks (j / 8)).used = false := by
      rw [inStep.used]
      exact decide_eq_false mem
    have byPlace : scratchBlock (args.collecting true) j base indexed =
        (j / 8, indexed.openSlot (j / 8) ((base + UInt32.ofNat j) / kStage2BatchSize)) :=
      scratchBlock_of_unused aligned below rfl closed
    have missed : (List.range searched.blockCount).find? (fun bi =>
        (searched.blocks bi).blockId == (base + UInt32.ofNat j) / kStage2BatchSize) = none := by
      apply List.find?_eq_none.2
      intro bi within same
      rw [List.mem_range, inStep.count] at within
      rw [inStep.same _ within, inStep.ids _ (List.get_mem _ _), beq_iff_eq] at same
      exact mem (apart _ (List.get_mem _ _) same ▸ List.get_mem _ _)
    have bySearch : scratchBlock (args.collecting false) j base searched =
        (searched.blockCount,
          searched.openSlot searched.blockCount ((base + UInt32.ofNat j) / kStage2BatchSize)) :=
      scratchBlock_of_missed rfl missed
    rw [inStep.count] at bySearch
    refine ⟨slots, fun _ held => held, ?_, ?_, ?_⟩
    · rw [byPlace]
    · rw [bySearch]
    · rw [byPlace, bySearch]
      exact inStep.openSlot (by omega) last place.symm

variable [FloatArith F] {pc : ParsedCluster F} {norms : ℕ → F} {eval : FastScanStage1EvalResult F}
  {safeinMask : UInt32}

/-- What is collected of a survivor. -/
def survivorEntry (args : ProbeArgs F) (pc : ParsedCluster F) (base : UInt32) (norms : ℕ → F)
    (eval : FastScanStage1EvalResult F) (j : ℕ) : Stage2LaneEntry F where
  globalIdx := base + UInt32.ofNat j
  estDistS1 := eval.dists j
  marginS1 := safeinMarginS1 args (norms j)
  safeoutMarginS1 := safeoutMarginS1 args (norms j)
  normOc := norms j
  ipX0Qr := eval.ipX0Qr j
  xipnorm :=
    if 11 ≤ pc.exrabitqStorageVersion then ofInt 0 else pc.entryXipnorm (base + UInt32.ofNat j)

theorem collectSurvivor_entry (c : Collected F)
    (wait : (!hasLane safeinMask j && stage2Runs args pc) = true) :
    collectSurvivor args pc base norms eval safeinMask c j =
      (scratchBlock args j base c).2.putLane (scratchBlock args j base c).1
        ((base + UInt32.ofNat j) % kStage2BatchSize).toNat
        (survivorEntry args pc base norms eval j) := by
  unfold collectSurvivor
  rw [if_pos wait]
  rfl

/-- **The survivor loop**, by place and by search, stays in step. -/
theorem collect_inStep (aligned : base.toNat % 32 = 0) {lanes : List ℕ}
    (ascending : lanes.Pairwise (· < ·)) (inside : ∀ i ∈ lanes, i < 32) :
    ∃ slots, (∀ slot ∈ slots, ∃ i ∈ lanes, slot = i / 8) ∧ InStep base slots
      (lanes.foldl (collectSurvivor (args.collecting true) pc base norms eval safeinMask) {})
      (lanes.foldl (collectSurvivor (args.collecting false) pc base norms eval safeinMask) {}) := by
  induction lanes using List.reverseRecOn with
  | nil => exact ⟨[], fun slot mem => absurd mem List.not_mem_nil, inStep_nil⟩
  | append_singleton lanes j ih =>
      obtain ⟨before, _, above⟩ := List.pairwise_append.1 ascending
      have earlier : ∀ i ∈ lanes, i < 32 := fun i mem => inside i (List.mem_append_left _ mem)
      have below : j < 32 := inside j (List.mem_append_right _ List.mem_cons_self)
      obtain ⟨slots, origin, inStep⟩ := ih before earlier
      rw [List.foldl_append, List.foldl_append, List.foldl_cons, List.foldl_cons, List.foldl_nil,
        List.foldl_nil]
      generalize lanes.foldl (collectSurvivor (args.collecting true) pc base norms eval safeinMask)
        {} = indexed at inStep ⊢
      generalize lanes.foldl (collectSurvivor (args.collecting false) pc base norms eval safeinMask)
        {} = searched at inStep ⊢
      cases wait : (!hasLane safeinMask j && stage2Runs args pc) with
      | true =>
          have ordered : ∀ slot ∈ slots, slot ≤ j / 8 := by
            intro slot mem
            obtain ⟨i, held, rfl⟩ := origin slot mem
            exact Nat.div_le_div_right (Nat.le_of_lt (above i held j (List.mem_singleton.2 rfl)))
          obtain ⟨kept, subset, byPlace, bySearch, next⟩ :=
            @scratchBlock_inStep _ args _ _ _ _ _ aligned below inStep ordered
          refine ⟨kept ++ [j / 8], ?_, ?_⟩
          · intro slot mem
            rcases List.mem_append.1 mem with old | new
            · obtain ⟨i, held, same⟩ := origin slot (subset slot old)
              exact ⟨i, List.mem_append_left _ held, same⟩
            · exact ⟨j, List.mem_append_right _ List.mem_cons_self, List.mem_singleton.1 new⟩
          · rw [@collectSurvivor_entry _ (args.collecting true) _ _ _ _ _ _ _ indexed wait,
              @collectSurvivor_entry _ (args.collecting false) _ _ _ _ _ _ _ searched wait, byPlace,
              bySearch]
            exact next.putLane _ _
      | false =>
          refine ⟨slots, ?_, ?_⟩
          · intro slot mem
            obtain ⟨i, held, same⟩ := origin slot mem
            exact ⟨i, List.mem_append_left _ held, same⟩
          · unfold collectSurvivor
            have settled : ∀ blockFirst,
                (!hasLane safeinMask j && stage2Runs (args.collecting blockFirst) pc) ≠ true := by
              intro blockFirst
              change (!hasLane safeinMask j && stage2Runs args pc) ≠ true
              rw [wait]
              exact Bool.false_ne_true
            rw [if_neg (settled true), if_neg (settled false)]
            refine ⟨inStep.ascending, inStep.four, inStep.used, inStep.ids, inStep.clear,
              inStep.same, inStep.rest, inStep.count, inStep.candidates, ?_⟩
            dsimp only
            rw [inStep.batch]
            rfl

end Collecting

/-! ## Classifying at once and lane by lane -/

section Classifying

variable {F : Type} [FloatArith F] (args : ProbeArgs F) (pc : ParsedCluster F)
  (block : Stage2BlockScratch F)

/-- The stage-2 estimate of a collected lane. -/
def laneEstS2 (slot : ℕ × Stage2LaneEntry F) : F :=
  legacyEstDist args slot.2.normOc (laneIpRaw pc block slot.1) (laneXipnorm pc block slot.1 slot.2)

/-- Stage 2 drops the lane. -/
def dropsLane (slot : ℕ × Stage2LaneEntry F) : Bool :=
  lt (args.safeoutFrontierUpper + slot.2.safeoutMarginS1 / args.marginS2Divisor)
    (laneEstS2 args pc block slot)

/-- Stage 2 finds the lane below the threshold. -/
def nearLane (slot : ℕ × Stage2LaneEntry F) : Bool :=
  lt (laneEstS2 args pc block slot)
    (args.safeinThresholdBase - slot.2.marginS1 / args.marginS2Divisor)

/-- What stage 2 makes of a list of lanes, by the tests. -/
def settleLanes (entries : List (ℕ × Stage2LaneEntry F)) (o : BlockOutcome F) : BlockOutcome F :=
  let safe := fun slot => !dropsLane args pc block slot && nearLane args pc block slot
  let unsettled := fun slot => !dropsLane args pc block slot && !nearLane args pc block slot
  { o with
    stats := { o.stats with
      s2Safein := o.stats.s2Safein + UInt32.ofNat (entries.filter safe).length
      s2Safeout := o.stats.s2Safeout +
        UInt32.ofNat (entries.filter (dropsLane args pc block)).length
      s2Uncertain := o.stats.s2Uncertain + UInt32.ofNat (entries.filter unsettled).length }
    stage2Dropped := o.stage2Dropped ++ (entries.filter (dropsLane args pc block)).map fun slot =>
      slot.2.globalIdx
    batch := o.batch ++ (entries.filter fun slot => !dropsLane args pc block slot).map fun slot =>
      stage2Lane args slot.2 (laneEstS2 args pc block slot)
        (if nearLane args pc block slot then .safeIn else .uncertain) }

variable {args pc block}

/-- **The lane loop** settles its lanes by the tests. -/
theorem scatterLanes_eq (legacy : pc.usesOfficial1PlusN = false)
    (entries : List (ℕ × Stage2LaneEntry F)) (o : BlockOutcome F) :
    entries.foldl (scatterLane args pc block) o = settleLanes args pc block entries o := by
  have count : ∀ (counter : UInt32) (n : ℕ),
      counter + 1 + UInt32.ofNat n = counter + UInt32.ofNat (n + 1) := by
    intro counter n
    rw [UInt32.ofNat_add, UInt32.add_assoc, UInt32.add_comm 1]
    rfl
  induction entries generalizing o with
  | nil =>
      unfold settleLanes
      simp
  | cons slot entries ih =>
      rw [List.foldl_cons, ih]
      have turn : scatterLane args pc block o slot =
          if dropsLane args pc block slot then
            { o with
              stats := { o.stats with s2Safeout := o.stats.s2Safeout + 1 }
              stage2Dropped := o.stage2Dropped ++ [slot.2.globalIdx] }
          else if nearLane args pc block slot then
            { o with
              stats := { o.stats with s2Safein := o.stats.s2Safein + 1 }
              batch := o.batch ++ [stage2Lane args slot.2 (laneEstS2 args pc block slot) .safeIn] }
          else
            { o with
              stats := { o.stats with s2Uncertain := o.stats.s2Uncertain + 1 }
              batch := o.batch ++
                [stage2Lane args slot.2 (laneEstS2 args pc block slot) .uncertain] } := by
        unfold scatterLane
        rw [legacy]
        rfl
      rw [turn]
      unfold settleLanes
      cases drops : dropsLane args pc block slot with
      | true => simp [drops, count]
      | false =>
          cases near : nearLane args pc block slot with
          | true => simp [drops, near, count]
          | false => simp [drops, near, count]

omit [FloatArith F] in
/-- A mask over a keyed block counts the lanes of its test. -/
theorem popcount_entries (keyed : block.Keyed) {mask : UInt32}
    {test : ℕ × Stage2LaneEntry F → Bool}
    (inside : ∀ j, hasLane mask j = true → hasLane block.laneMask j = true)
    (tested : ∀ slot ∈ block.entries, hasLane mask slot.1 = test slot) :
    popcount mask = (block.entries.filter test).length := by
  have eight : ∀ lane, hasLane mask lane = true → lane < 8 := fun lane set =>
    (keyed lane (inside lane set)).1
  have lanes : setBits 8 mask.toNat = (setBits 8 block.laneMask.toNat).filter (hasLane mask) := by
    rw [setBits, setBits, List.filter_filter]
    apply List.filter_congr
    intro lane _
    change hasLane mask lane = (hasLane mask lane && hasLane block.laneMask lane)
    cases set : hasLane mask lane with
    | false => rfl
    | true =>
        rw [inside lane set]
        rfl
  rw [popcount_below (by decide) eight, lanes, ← Stage2BlockScratch.entries_lanes keyed,
    List.filter_map, List.length_map]
  congr 1
  exact List.filter_congr tested

/-- The classifier's estimate of a lane. -/
def batchEst (args : ProbeArgs F) (pc : ParsedCluster F) (block : Stage2BlockScratch F)
    (lane : ℕ) : F :=
  match block.lanes lane with
  | some entry =>
      (match args.build with
        | .scalar => legacyEstDist args
        | _ => simdEstDist args) entry.normOc (laneIpRaw pc block lane)
          (laneXipnorm pc block lane entry)
  | none => ofInt 0

/-- The classifier's margin of a lane. -/
def batchMargin (args : ProbeArgs F) (block : Stage2BlockScratch F) (lane : ℕ) : F :=
  match block.lanes lane with
  | some entry => entry.marginS1 * (ofInt 1 / args.marginS2Divisor)
  | none => ofInt 0

theorem batchEst_held {lane : ℕ} {entry : Stage2LaneEntry F}
    (held : block.lanes lane = some entry) :
    batchEst args pc block lane = laneEstS2 args pc block (lane, entry) ∨
      batchEst args pc block lane = simdEstDist args entry.normOc (laneIpRaw pc block lane)
        (laneXipnorm pc block lane entry) := by
  rw [batchEst, held]
  dsimp only
  cases args.build with
  | scalar => exact Or.inl rfl
  | avx2 | avx512 => exact Or.inr rfl

theorem batchMargin_held {lane : ℕ} {entry : Stage2LaneEntry F}
    (held : block.lanes lane = some entry) :
    batchMargin args block lane = entry.marginS1 * (ofInt 1 / args.marginS2Divisor) := by
  rw [batchMargin, held]

/-- The classifier, from its masks. -/
theorem scatterBatch_masks (o : BlockOutcome F) {masks : Stage2ClassifyMasks}
    (tested : stage2ClassifyBatch args (batchEst args pc block) (batchMargin args block)
      block.laneMask = masks) :
    scatterBatch args pc block o = { o with
      stats := { o.stats with
        s2Safein := o.stats.s2Safein + popcount32 masks.safein
        s2Safeout := o.stats.s2Safeout + popcount32 masks.safeout
        s2Uncertain := o.stats.s2Uncertain + popcount32 masks.uncertain }
      stage2Dropped := o.stage2Dropped ++ (block.entries.filter fun entry =>
        hasLane masks.safeout entry.1).map fun entry => entry.2.globalIdx
      batch := o.batch ++ (block.entries.filter fun entry =>
        hasLane (masks.safein ||| masks.uncertain) entry.1).map fun slot =>
          stage2Lane args slot.2 (laneEstS2 args pc block slot)
            (if hasLane masks.safein slot.1 then .safeIn else .uncertain) } := by
  rw [← tested]
  rfl

/-- The classifier's masks over the collected lanes of a block, by their estimates and margins. -/
theorem classify_entries (keyed : block.Keyed) {est margin : ℕ × Stage2LaneEntry F → F}
    (estimates : ∀ slot ∈ block.entries, batchEst args pc block slot.1 = est slot)
    (margins : ∀ slot ∈ block.entries, batchMargin args block slot.1 = margin slot)
    {masks : Stage2ClassifyMasks}
    (tested : stage2ClassifyBatch args (batchEst args pc block) (batchMargin args block)
      block.laneMask = masks) :
    ∀ slot ∈ block.entries,
      hasLane masks.safeout slot.1 = lt (args.safeoutFrontierUpper + margin slot) (est slot) ∧
        hasLane masks.safein slot.1 = (!lt (args.safeoutFrontierUpper + margin slot) (est slot) &&
          lt (est slot) (args.safeinThresholdBase - margin slot)) ∧
        hasLane masks.uncertain slot.1 =
          (!lt (args.safeoutFrontierUpper + margin slot) (est slot) &&
            !lt (est slot) (args.safeinThresholdBase - margin slot)) := by
  intro slot mem
  obtain ⟨inside, set, _⟩ := Stage2BlockScratch.mem_entries.1 mem
  have lanes := @stage2ClassifyBatch_lanes _ _ args (batchEst args pc block)
    (batchMargin args block) _ (fun lane set => (keyed lane set).1) slot.1 (by omega)
  rwa [tested, set, estimates slot mem, margins slot mem, Bool.true_and, Bool.true_and,
    Bool.true_and] at lanes

/-- **A block classified at once**, where the classifier's estimates and margins are those of
the lane loop, is settled as the lane loop settles it. -/
theorem scatterBatch_eq (keyed : block.Keyed) (legacy : pc.usesOfficial1PlusN = false)
    (estimates : ∀ slot ∈ block.entries,
      simdEstDist args slot.2.normOc (laneIpRaw pc block slot.1)
        (laneXipnorm pc block slot.1 slot.2) = laneEstS2 args pc block slot)
    (margins : ∀ slot ∈ block.entries,
      slot.2.marginS1 * (ofInt 1 / args.marginS2Divisor) =
          slot.2.safeoutMarginS1 / args.marginS2Divisor ∧
        slot.2.marginS1 * (ofInt 1 / args.marginS2Divisor) =
          slot.2.marginS1 / args.marginS2Divisor)
    (o : BlockOutcome F) :
    scatterBatch args pc block o = block.entries.foldl (scatterLane args pc block) o := by
  have eight : ∀ lane, hasLane block.laneMask lane = true → lane < 8 :=
    fun lane set => (keyed lane set).1
  have lanes := fun j (below : j < 32) =>
    @stage2ClassifyBatch_lanes _ _ args (batchEst args pc block) (batchMargin args block) _ eight j
      below
  generalize tested : stage2ClassifyBatch args (batchEst args pc block) (batchMargin args block)
    block.laneMask = masks at lanes
  have byLane : ∀ slot ∈ block.entries,
      hasLane masks.safeout slot.1 = dropsLane args pc block slot ∧
        hasLane masks.safein slot.1 =
          (!dropsLane args pc block slot && nearLane args pc block slot) ∧
        hasLane masks.uncertain slot.1 =
          (!dropsLane args pc block slot && !nearLane args pc block slot) := by
    intro slot mem
    have classified := @classify_entries _ _ args pc block keyed (laneEstS2 args pc block)
      (fun slot => slot.2.marginS1 * (ofInt 1 / args.marginS2Divisor))
      (fun slot mem => (batchEst_held (Stage2BlockScratch.mem_entries.1 mem).2.2).elim id
        fun simd => simd.trans (estimates slot mem))
      (fun slot mem => batchMargin_held (Stage2BlockScratch.mem_entries.1 mem).2.2) _ tested slot mem
    obtain ⟨asSafeout, asSafein⟩ := margins slot mem
    rwa [asSafeout, ← dropsLane, ← asSafeout, asSafein, ← nearLane] at classified
  have within : ∀ j, (hasLane masks.safeout j = true → hasLane block.laneMask j = true) ∧
      (hasLane masks.safein j = true → hasLane block.laneMask j = true) ∧
      (hasLane masks.uncertain j = true → hasLane block.laneMask j = true) := by
    intro j
    rcases Nat.lt_or_ge j 32 with below | high
    · obtain ⟨safeout, safein, uncertain⟩ := lanes j below
      rw [safeout, safein, uncertain]
      exact ⟨fun set => (Bool.and_eq_true_iff.1 set).1, fun set => (Bool.and_eq_true_iff.1 set).1,
        fun set => (Bool.and_eq_true_iff.1 set).1⟩
    · rw [hasLane_high masks.safeout high, hasLane_high masks.safein high,
        hasLane_high masks.uncertain high]
      exact ⟨fun set => absurd set Bool.false_ne_true, fun set => absurd set Bool.false_ne_true,
        fun set => absurd set Bool.false_ne_true⟩
  have kept : (block.entries.filter fun entry =>
      hasLane (masks.safein ||| masks.uncertain) entry.1) =
        block.entries.filter fun slot => !dropsLane args pc block slot := by
    apply List.filter_congr
    intro slot mem
    obtain ⟨_, safein, uncertain⟩ := byLane slot mem
    rw [hasLane_or, safein, uncertain]
    cases dropsLane args pc block slot <;> cases nearLane args pc block slot <;> rfl
  have dropped : (block.entries.filter fun entry => hasLane masks.safeout entry.1) =
      block.entries.filter (dropsLane args pc block) :=
    List.filter_congr fun slot mem => (byLane slot mem).1
  have classes : ((block.entries.filter fun slot => !dropsLane args pc block slot).map fun slot =>
      stage2Lane args slot.2 (laneEstS2 args pc block slot)
        (if hasLane masks.safein slot.1 then .safeIn else .uncertain)) =
      (block.entries.filter fun slot => !dropsLane args pc block slot).map fun slot =>
        stage2Lane args slot.2 (laneEstS2 args pc block slot)
          (if nearLane args pc block slot then .safeIn else .uncertain) := by
    apply List.map_congr_left
    intro slot mem
    obtain ⟨held, notDropped⟩ := List.mem_filter.1 mem
    rw [(byLane slot held).2.1, notDropped, Bool.true_and]
  rw [scatterLanes_eq legacy, scatterBatch_masks o tested, kept, dropped, classes]
  unfold settleLanes popcount32
  rw [popcount_entries keyed (fun j => (within j).1) fun slot mem => (byLane slot mem).1,
    popcount_entries keyed (fun j => (within j).2.1) fun slot mem => (byLane slot mem).2.1,
    popcount_entries keyed (fun j => (within j).2.2) fun slot mem => (byLane slot mem).2.2]

end Classifying

/-! ## Exact arithmetic -/

/-- The stage-2 inputs are finite, with one margin factor. -/
structure ExactStage2 {K F : Type} [Field K] (fin : K → F) (args : ProbeArgs F)
    (pc : ParsedCluster F) : Prop where
  normQc : args.normQc ∈ Set.range fin
  normQcSq : args.normQcSq ∈ Set.range fin
  factor : args.safeinMarginFactor ∈ Set.range fin
  oneFactor : args.safeinMarginFactor = args.safeoutMarginFactor
  divisor : ∃ k, k ≠ 0 ∧ args.marginS2Divisor = fin k
  norms : ∀ b lane, pc.blockNorms b lane ∈ Set.range fin
  xipnorms : ∀ block lane, pc.xipnorms block lane ∈ Set.range fin
  entryXipnorm : ∀ record, pc.entryXipnorm record ∈ Set.range fin
  batchKernel : ∀ block mask lane, pc.batchKernel block mask lane ∈ Set.range fin
  entryKernel : ∀ records place, pc.entryKernel records place ∈ Set.range fin

section Exact

variable {K F : Type} [Field K] [LinearOrder K] [FloatArith F] {fin : K → F}
  (exact : ExactOn fin) {args : ProbeArgs F} {pc : ParsedCluster F}

include exact

/-- The registers compute the lane loop's estimate. -/
theorem simdEstDist_eq {normOc ipRaw xipnorm : F} (normQc : args.normQc ∈ Set.range fin)
    (normQcSq : args.normQcSq ∈ Set.range fin) (finiteNorm : normOc ∈ Set.range fin)
    (finiteIp : ipRaw ∈ Set.range fin) (finiteXipnorm : xipnorm ∈ Set.range fin) :
    simdEstDist args normOc ipRaw xipnorm = legacyEstDist args normOc ipRaw xipnorm := by
  obtain ⟨q, hq⟩ := normQc
  obtain ⟨q2, hq2⟩ := normQcSq
  obtain ⟨n, rfl⟩ := finiteNorm
  obtain ⟨p, rfl⟩ := finiteIp
  obtain ⟨x, rfl⟩ := finiteXipnorm
  unfold simdEstDist legacyEstDist
  rw [← hq, ← hq2]
  simp only [exact.mul, exact.add, exact.sub, exact.ofInt, exact.stdMax, exact.simdMax]
  congr 2
  ring

/-- The reciprocal of the divisor divides. -/
theorem margin_eq {margin : F} (finite : margin ∈ Set.range fin)
    (divisor : ∃ k, k ≠ 0 ∧ args.marginS2Divisor = fin k) :
    margin * (ofInt 1 / args.marginS2Divisor) = margin / args.marginS2Divisor := by
  obtain ⟨m, rfl⟩ := finite
  obtain ⟨k, nonzero, same⟩ := divisor
  rw [same, exact.ofInt, exact.div _ _ nonzero, exact.div _ _ nonzero, exact.mul, Int.cast_one,
    mul_one_div]

/-- A collected lane is a survivor's. -/
def Survivors (args : ProbeArgs F) (pc : ParsedCluster F) (base : UInt32) (norms : ℕ → F)
    (eval : FastScanStage1EvalResult F) (lanes : List ℕ) (c : Collected F) : Prop :=
  ∀ bi lane entry, (c.blocks bi).lanes lane = some entry →
    ∃ j ∈ lanes, entry = survivorEntry args pc base norms eval j

omit [Field K] [LinearOrder K] exact

omit [FloatArith F] in
/-- Opening a scratch block puts no lane in it. -/
theorem scratchBlock_lanes (j : ℕ) (base : UInt32) (c : Collected F) (bi : ℕ) :
    ((scratchBlock args j base c).2.blocks bi).lanes = (c.blocks bi).lanes := by
  have update : ∀ (slot : ℕ) (block : Stage2BlockScratch F),
      block.lanes = (c.blocks slot).lanes →
        (Function.update c.blocks slot block bi).lanes = (c.blocks bi).lanes := by
    intro slot block same
    by_cases here : bi = slot
    · rw [here, Function.update_self, same]
    · rw [Function.update_of_ne here]
  unfold scratchBlock
  dsimp only
  split
  · split
    · rfl
    · exact update _ _ rfl
  · split
    · rfl
    · exact update _ _ rfl

theorem collectSurvivor_survivors {base safeinMask : UInt32} {norms : ℕ → F}
    {eval : FastScanStage1EvalResult F} {lanes : List ℕ} {c : Collected F}
    (survivors : Survivors args pc base norms eval lanes c) (j : ℕ) :
    Survivors args pc base norms eval (lanes ++ [j])
      (collectSurvivor args pc base norms eval safeinMask c j) := by
  have earlier : Survivors args pc base norms eval (lanes ++ [j]) c := by
    intro bi lane entry held
    obtain ⟨i, mem, same⟩ := survivors bi lane entry held
    exact ⟨i, List.mem_append_left _ mem, same⟩
  cases wait : (!hasLane safeinMask j && stage2Runs args pc) with
  | true =>
      rw [collectSurvivor_entry c wait]
      intro bi lane entry held
      have opened := @scratchBlock_lanes _ args j base c
      by_cases here : bi = (scratchBlock args j base c).1
      · rw [here, Collected.putLane_same, Stage2BlockScratch.put] at held
        dsimp only at held
        by_cases there : lane = ((base + UInt32.ofNat j) % kStage2BatchSize).toNat
        · rw [there, Function.update_self] at held
          exact ⟨j, List.mem_append_right _ List.mem_cons_self, (Option.some.inj held).symm⟩
        · rw [Function.update_of_ne there, opened] at held
          exact earlier _ _ _ held
      · rw [Collected.putLane_other here, opened] at held
        exact earlier _ _ _ held
  | false =>
      obtain ⟨_, _, settled⟩ := collectSurvivor_settled base norms eval c wait
      rw [settled]
      exact earlier

theorem collect_survivors {base safeinMask : UInt32} {norms : ℕ → F}
    {eval : FastScanStage1EvalResult F} (lanes : List ℕ) :
    Survivors args pc base norms eval lanes
      (lanes.foldl (collectSurvivor args pc base norms eval safeinMask) {}) := by
  induction lanes using List.reverseRecOn with
  | nil =>
      intro bi lane entry held
      cases held
  | append_singleton lanes j ih =>
      rw [List.foldl_append]
      exact collectSurvivor_survivors ih j

end Exact

/-! ## The probe -/

section Probe

variable {F : Type} [FloatArith F] {args : ProbeArgs F} {pc : ParsedCluster F}

/-- Stage 2 of a FastScan block is a fold over its scratch blocks in use. -/
theorem scatter_inUse (c : Collected F) (o : BlockOutcome F) :
    (List.range 4).foldl (fun o bi =>
        if (c.blocks bi).used then scatterBlock args pc (c.blocks bi) o else o) o =
      c.inUse.foldl (fun o block => scatterBlock args pc block o) o := by
  rw [Collected.inUse, List.foldl_filter, List.foldl_map]

/-- Probes of the same blocks are the same. -/
theorem probe_congr {args' : ProbeArgs F}
    (same : ∀ b stats, probeBlock args pc b stats = probeBlock args' pc b stats)
    (stats : ProbeStats) : probe args pc stats = probe args' pc stats := by
  unfold probe
  induction pc.numFastscanBlocks.toNat with
  | zero => rfl
  | succ n ih =>
      unfold probeBlocks
      rw [ih]
      dsimp only
      rw [same]

/-- A block's survivors come in ascending order. -/
theorem survivors_ascending (mask : UInt32) :
    (compactMaskToIndices mask).Pairwise (· < ·) ∧ ∀ i ∈ compactMaskToIndices mask, i < 32 := by
  rw [compactMaskToIndices_eq]
  constructor
  · exact List.pairwise_lt_range.filter _
  · intro i mem
    exact (mem_setBits.1 mem).1

variable (args pc)

/-- Stage 1 of a block. -/
def stage1Eval (b : UInt32) : FastScanStage1EvalResult F :=
  fastScanStage1Evaluate (stage1Args args) args.build (pc.rawAccu b) (pc.blockNorms b)
    (blockCount pc b).toNat

/-- The survivors of stage 1. -/
def maybeInMask (b : UInt32) : UInt32 :=
  ~~~(stage1Eval args pc b).safeoutMask &&& laneMaskForCount (blockCount pc b)

/-- The survivors that stage 1 settles. -/
def stage1SafeinMask (b : UInt32) : UInt32 :=
  if args.enableStage1Safein then (stage1Eval args pc b).safeinMask &&& maybeInMask args pc b else 0

/-- What the survivor loop collects. -/
def blockCollected (b : UInt32) : Collected F :=
  (compactMaskToIndices (maybeInMask args pc b)).foldl
    (collectSurvivor args pc (baseIdx b) (pc.blockNorms b) (stage1Eval args pc b)
      (stage1SafeinMask args pc b)) {}

/-- Stage 2 of a block, from its scratch blocks. -/
def settleCollected (c : Collected F) (o : BlockOutcome F) : BlockOutcome F :=
  if 0 < c.candidateCount then
    c.inUse.foldl (fun o block => scatterBlock args pc block o)
      { o with stats := { o.stats with
          numStage2Candidates := o.stats.numStage2Candidates + UInt32.ofNat c.candidateCount } }
  else o

/-- What stage 1 leaves of a block. -/
def stage1Outcome (b : UInt32) (batch : List (BatchLane F)) (stats : ProbeStats) :
    BlockOutcome F :=
  let soMask := (stage1Eval args pc b).safeoutMask
  let safeinMask := stage1SafeinMask args pc b
  let uncertainMask := maybeInMask args pc b &&& ~~~safeinMask
  { safeoutMask := soMask
    batch := batch
    stats := { stats with
      stage1FusedBlocks := stats.stage1FusedBlocks + 1
      stage1FusedSafeoutLanes := stats.stage1FusedSafeoutLanes + popcount32 soMask
      s1Safeout := stats.s1Safeout + popcount32 soMask
      stage1FusedSafeinLanes := stats.stage1FusedSafeinLanes + popcount32 safeinMask
      s1Safein := stats.s1Safein + popcount32 safeinMask
      s1Uncertain := stats.s1Uncertain + popcount32 uncertainMask } }

/-- Both stages: stage 1, the survivor loop, stage 2. -/
theorem probeStages_eq (b : UInt32) (stats : ProbeStats) :
    probeStages args pc b stats = settleCollected args pc (blockCollected args pc b)
      (stage1Outcome args pc b (blockCollected args pc b).batch stats) := by
  unfold settleCollected
  rw [← scatter_inUse]
  rfl

variable {args pc}

/-- **Both stages of a block**, by place and by search. -/
theorem probeStages_collecting (b : UInt32) (stats : ProbeStats) :
    probeStages (args.collecting true) pc b stats =
      probeStages (args.collecting false) pc b stats := by
  obtain ⟨ascending, inside⟩ := survivors_ascending (maybeInMask args pc b)
  obtain ⟨slots, _, inStep⟩ := @collect_inStep _ args _ _ pc (pc.blockNorms b)
    (stage1Eval args pc b) (stage1SafeinMask args pc b) (baseIdx_aligned b) _ ascending inside
  change Collected.InStep (baseIdx b) slots (blockCollected (args.collecting true) pc b)
    (blockCollected (args.collecting false) pc b) at inStep
  rw [probeStages_eq, probeStages_eq, settleCollected, settleCollected, inStep.inUse_eq,
    inStep.candidates, inStep.batch]
  rfl

/-- **Stage 2 of a scratch block**, at once and lane by lane. -/
theorem scatterBlock_classifying {K : Type} [Field K] [LinearOrder K] {fin : K → F}
    (exact : ExactOn fin) (inputs : ExactStage2 fin args pc) {block : Stage2BlockScratch F}
    (keyed : block.Keyed) {b base : UInt32} {eval : FastScanStage1EvalResult F}
    (survivors : ∀ lane entry, block.lanes lane = some entry →
      ∃ j, entry = survivorEntry args pc base (pc.blockNorms b) eval j)
    (o : BlockOutcome F) :
    scatterBlock (args.classifying true) pc block o =
      scatterBlock (args.classifying false) pc block o := by
  have lane : scatterBlock (args.classifying false) pc block o =
      block.entries.foldl (scatterLane args pc block) o := by
    unfold scatterBlock
    rw [if_neg]
    · rfl
    · simp [ProbeArgs.classifying]
  have finite : ∀ slot ∈ block.entries, slot.2.normOc ∈ Set.range fin ∧
      slot.2.marginS1 ∈ Set.range fin ∧ slot.2.safeoutMarginS1 = slot.2.marginS1 ∧
      laneIpRaw pc block slot.1 ∈ Set.range fin ∧
      laneXipnorm pc block slot.1 slot.2 ∈ Set.range fin := by
    rintro ⟨lane, entry⟩ mem
    obtain ⟨_, _, held⟩ := Stage2BlockScratch.mem_entries.1 mem
    obtain ⟨j, rfl⟩ := survivors lane entry held
    refine ⟨inputs.norms b j, ?_, ?_, ?_, ?_⟩
    · obtain ⟨f, hf⟩ := inputs.factor
      obtain ⟨n, hn⟩ := inputs.norms b j
      refine ⟨f * n, ?_⟩
      change _ = args.safeinMarginFactor * pc.blockNorms b j
      rw [← hf, ← hn, exact.mul]
    · change args.safeoutMarginFactor * _ = args.safeinMarginFactor * _
      rw [inputs.oneFactor]
    · unfold laneIpRaw
      split
      · exact inputs.batchKernel _ _ _
      · exact inputs.entryKernel _ _
    · unfold laneXipnorm
      split
      · exact inputs.xipnorms _ _
      · rename_i old
        change (if 11 ≤ pc.exrabitqStorageVersion then ofInt 0 else _) ∈ Set.range fin
        rw [if_neg old]
        exact inputs.entryXipnorm _
  rw [lane]
  unfold scatterBlock
  split
  · rename_i mode
    have legacy : pc.usesOfficial1PlusN = false := by
      cases official : pc.usesOfficial1PlusN with
      | false => rfl
      | true =>
          rw [official] at mode
          cases mode
    apply @scatterBatch_eq _ _ args pc block keyed legacy
    · intro slot mem
      obtain ⟨norm, _, _, ip, xipnorm⟩ := finite slot mem
      exact simdEstDist_eq exact inputs.normQc inputs.normQcSq norm ip xipnorm
    · intro slot mem
      obtain ⟨_, margin, one, _, _⟩ := finite slot mem
      rw [one]
      exact ⟨margin_eq exact margin inputs.divisor, margin_eq exact margin inputs.divisor⟩
  · rfl

/-- **Both stages of a block**, with either classifier. -/
theorem probeStages_classifying {K : Type} [Field K] [LinearOrder K] {fin : K → F}
    (exact : ExactOn fin) (inputs : ExactStage2 fin args pc) (b : UInt32) (stats : ProbeStats) :
    probeStages (args.classifying true) pc b stats =
      probeStages (args.classifying false) pc b stats := by
  obtain ⟨ascending, inside⟩ := survivors_ascending (maybeInMask args pc b)
  have gathers := @collect_gathers _ args pc (baseIdx b) (stage1SafeinMask args pc b) _
    (pc.blockNorms b) (stage1Eval args pc b) (baseIdx_aligned b) _
    (ascending.imp fun below => Nat.ne_of_lt below) inside
  have survivors := @collect_survivors _ _ args pc (baseIdx b) (stage1SafeinMask args pc b)
    (pc.blockNorms b) (stage1Eval args pc b) (compactMaskToIndices (maybeInMask args pc b))
  rw [probeStages_eq, probeStages_eq,
    show blockCollected (args.classifying true) pc b = blockCollected args pc b from rfl,
    show blockCollected (args.classifying false) pc b = blockCollected args pc b from rfl]
  unfold settleCollected
  split
  · rw [← scatter_inUse, ← scatter_inUse]
    apply List.foldl_ext
    intro o bi _
    split
    · rename_i used
      apply scatterBlock_classifying exact inputs (gathers.tables.keyed bi used)
      intro lane entry held
      obtain ⟨j, _, same⟩ := survivors bi lane entry held
      exact ⟨j, same⟩
    · rfl
  · rfl

theorem probeBlock_congr {args' : ProbeArgs F} {b : UInt32}
    (envelope : args.enableStage1BlockSkipEnvelope = args'.enableStage1BlockSkipEnvelope)
    (stages : ∀ stats, probeStages args pc b stats = probeStages args' pc b stats)
    (stats : ProbeStats) : probeBlock args pc b stats = probeBlock args' pc b stats := by
  unfold probeBlock
  dsimp only
  rw [envelope, stages, stages]

/-- What a probe hands to its sink, and its outcome. -/
def emitted (args : ProbeArgs F) (pc : ParsedCluster F) (stats : ProbeStats) :
    List (List (BatchLane F × AddressEntry)) × (List (BlockOutcome F) × ProbeStats) :=
  (sinkBatches args pc (probe args pc stats).1, probe args pc stats)

variable (args pc)

/-- **The stage-2 options** do not change what the probe emits: blocks by place or by search,
and, where the arithmetic is exact and there is one margin factor, the classifier or the
lane loop. -/
theorem stage2_options (stats : ProbeStats) :
    emitted (args.collecting true) pc stats = emitted (args.collecting false) pc stats ∧
      ∀ {K : Type} [Field K] [LinearOrder K] {fin : K → F}, ExactOn fin → ExactStage2 fin args pc →
        emitted (args.classifying true) pc stats = emitted (args.classifying false) pc stats := by
  constructor
  · have same : probe (args.collecting true) pc stats = probe (args.collecting false) pc stats := by
      apply probe_congr
      intro b
      apply probeBlock_congr
      · rfl
      · exact probeStages_collecting b
    unfold emitted
    rw [same]
    rfl
  · intro K _ _ fin exact inputs
    have same : probe (args.classifying true) pc stats =
        probe (args.classifying false) pc stats := by
      apply probe_congr
      intro b
      apply probeBlock_congr
      · rfl
      · exact probeStages_classifying exact inputs b
    unfold emitted
    rw [same]
    rfl

end Probe

/-- Nine records of a signed-magnitude cluster, the frontier far away. -/
def nineArgs : ProbeArgs Flt where
  build := .avx2
  invSqrtDim := .fin 1
  hasS2 := true
  marginS2Divisor := .fin 8
  fsShift := 0
  fsWidth := .fin 1
  sumQ := .fin 1
  normQc := .fin 1
  normQcSq := .fin 1
  safeinMarginFactor := .fin 1
  safeoutMarginFactor := .fin 1
  safeoutFrontierUpper := .posInf
  safeinThresholdBase := .fin 0
  enableAddressDecodeSimd := false
  enableStage1Safein := true
  enableStage1BlockSkipEnvelope := false
  enableStage2CollectBlockFirst := true
  enableStage2ScatterBatchClassify := true

def nineRecords : ParsedCluster Flt where
  numRecords := 9
  numFastscanBlocks := 1
  rawAccu := fun _ lane => UInt32.ofNat lane
  blockNorms := fun _ lane => .fin lane
  envelopeSafeOut := fun _ => false
  hasExrabitqEntries := false
  hasExrabitqBatchBlocks := true
  exrabitqStorageVersion := 11
  usesOfficial1PlusN := false
  rabitqExBits := 3
  entryXipnorm := fun _ => .fin 1
  xipnorms := fun _ _ => .fin 1
  officialFactorAdds := fun _ _ => .fin 0
  officialFactorRescales := fun _ _ => .fin 0
  batchKernel := fun _ _ lane => .fin lane
  entryKernel := fun _ place => .fin place
  decodedAddresses := none
  rawAddresses := none
  addressPageSize := 4096

theorem nineRecords_exact : ExactStage2 Flt.fin nineArgs nineRecords where
  normQc := ⟨1, rfl⟩
  normQcSq := ⟨1, rfl⟩
  factor := ⟨1, rfl⟩
  oneFactor := rfl
  divisor := ⟨8, by decide, rfl⟩
  norms _ _ := ⟨_, rfl⟩
  xipnorms _ _ := ⟨_, rfl⟩
  entryXipnorm _ := ⟨_, rfl⟩
  batchKernel _ _ _ := ⟨_, rfl⟩
  entryKernel _ _ := ⟨_, rfl⟩

/-- All nine reach stage 2, and no option changes what is emitted. -/
theorem stage2_options_nine :
    emitted (nineArgs.collecting true) nineRecords {} =
        emitted (nineArgs.collecting false) nineRecords {} ∧
      emitted (nineArgs.classifying true) nineRecords {} =
        emitted (nineArgs.classifying false) nineRecords {} :=
  ⟨(stage2_options nineArgs nineRecords {}).1,
    (stage2_options nineArgs nineRecords {}).2 Flt.exactOn nineRecords_exact⟩

end VecFetch.Index.ProbeLanes
