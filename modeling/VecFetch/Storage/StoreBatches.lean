/-
# Storage.StoreBatches -- where the lanes of a batch block are

A batch block has the blocks of its lanes in the order of its layout: lane by lane, block by block,
in groups of lanes, or with its empty planes left out.  The reader computes where a lane's blocks
are from the layout and the number of lanes, and finds them there.
-/
import VecFetch.Storage.StoreLanes

namespace VecFetch.Storage

open VecFetch.Theory VecFetch.Simd VecFetch.Rabitq

set_option autoImplicit false

/-! ## Emissions in place -/

namespace Emission

variable {check rest : Emission} {b : Buffer} {off n width i : ℕ} {part : ℕ → Emission}

/-- What is behind a check that writes nothing. -/
theorem append_silent (silent : check.bytes = []) (clean : (check.append rest).error = none) :
    rest.error = none ∧ (check.append rest).bytes = rest.bytes := by
  obtain ⟨passed, behind⟩ := append_clean.1 clean
  refine ⟨behind, ?_⟩
  rw [append_bytes passed, silent, List.nil_append]

/-- A part of a row of emissions, behind parts of one width. -/
theorem all_row (clean : (all ((List.range n).map part)).error = none)
    (has : b.Has off (all ((List.range n).map part)).bytes) (below : i < n)
    (widths : ∀ k, k < i → (part k).error = none → (part k).bytes.length = width) :
    (part i).error = none ∧ b.Has (off + i * width) (part i).bytes := by
  have each : ∀ k, k < n → (part k).error = none := fun k inside =>
    all_clean.1 clean _ (List.mem_map_of_mem (List.mem_range.2 inside))
  rw [all_bytes clean, List.flatMap_map] at has
  exact ⟨each i below, has.row below fun k before => widths k before (each k (by omega))⟩

end Emission

theorem checkFolded_clean {dim : UInt32} {message : String} {code : RaBitQCode}
    (clean : (checkFolded dim message code).error = none) :
    (checkFolded dim message code).bytes = [] ∧ code.exCode.length = dim.toNat := by
  have passed := Emission.all_clean.1 clean
  rw [List.forall_mem_cons] at passed
  refine ⟨?_, by simpa using Emission.require_clean.1 passed.1⟩
  rw [checkFolded, Emission.all_bytes clean]
  simp [Emission.require_bytes]

/-- What is written behind a check of a code. -/
theorem checked_clean {dim : UInt32} {message : String} {code : RaBitQCode} {rest : Emission}
    (clean : (Emission.all [checkFolded dim message code, rest]).error = none) :
    code.exCode.length = dim.toNat ∧ rest.error = none ∧
      (Emission.all [checkFolded dim message code, rest]).bytes = rest.bytes := by
  have passed := Emission.all_clean.1 clean
  rw [List.forall_mem_cons, List.forall_mem_singleton] at passed
  obtain ⟨silent, length⟩ := checkFolded_clean passed.1
  refine ⟨length, passed.2, ?_⟩
  rw [Emission.all_bytes clean]
  simp [silent]

/-! ## Places of packed blocks -/

section Packed

variable {config : StoreConfig} {dim : UInt32} {codes : List RaBitQCode} {n : UInt32} {bb lane : ℕ}
variable {b : Buffer} {start : ℕ}

/-- The blocks of a lane are at places that a function gives. -/
structure PackedAt (config : StoreConfig) (dim : UInt32) (b : Buffer) (code : RaBitQCode)
    (place : ℕ → ℕ) : Prop where
  length : code.exCode.length = dim.toNat
  blocks : ∀ db, db < (dimBlockCount dim).toNat →
    ∃ bytes, Packs config dim code db bytes ∧ b.Has (place db) bytes

/-- Lane by lane. -/
theorem laneMajor_placed (bits : PacksBits config) {message : String}
    {pack : RaBitQCode → ℕ → Emission}
    (packs : ∀ code db, (pack code db).error = none → Packs config dim code db (pack code db).bytes)
    (clean : (laneMajor dim codes n bb message pack).error = none)
    (has : b.Has start (laneMajor dim codes n bb message pack).bytes)
    (below : lane < validCount n bb) :
    PackedAt config dim b (laneCode codes bb lane) fun db =>
      start + (lane * (dimBlockCount dim).toNat + db) * (absLaneBytes config).toNat := by
  have width : ∀ code db, (pack code db).error = none →
      (pack code db).bytes.length = (absLaneBytes config).toNat :=
    fun code db packed => (packs code db packed).length bits
  have silent : ∀ {code}, (Emission.all (checkFolded dim message code ::
      (List.range (dimBlockCount dim).toNat).map (pack code))).error = none →
      code.exCode.length = dim.toNat ∧
        (Emission.all ((List.range (dimBlockCount dim).toNat).map (pack code))).error = none ∧
        (Emission.all (checkFolded dim message code ::
          (List.range (dimBlockCount dim).toNat).map (pack code))).bytes =
            (Emission.all ((List.range (dimBlockCount dim).toNat).map (pack code))).bytes := by
    intro code whole
    obtain ⟨empty, length⟩ := checkFolded_clean (Emission.append_clean.1 whole).1
    exact ⟨length, Emission.append_silent empty whole⟩
  obtain ⟨laneClean, here⟩ := @Emission.all_row _ _ _ ((dimBlockCount dim).toNat *
    (absLaneBytes config).toNat) _ _ clean has below fun k before whole => by
      obtain ⟨-, behind, bytes⟩ := silent whole
      rw [bytes, Emission.all_length behind, List.length_map, List.length_range]
      intro part mem partClean
      obtain ⟨db, -, rfl⟩ := List.mem_map.1 mem
      exact width _ _ partClean
  obtain ⟨length, behind, bytes⟩ := silent laneClean
  rw [bytes] at here
  refine ⟨length, fun db inside => ?_⟩
  obtain ⟨blockClean, block⟩ := Emission.all_row behind here inside fun k _ => width _ k
  refine ⟨_, packs _ _ blockClean, ?_⟩
  rwa [Nat.add_mul, Nat.mul_assoc, ← Nat.add_assoc]

/-- Block by block. -/
theorem blockMajor_placed {lanes : ℕ} {chunk : ℕ → ℕ → Emission} {width : ℕ}
    (widths : ∀ db lane, (chunk db lane).error = none → (chunk db lane).bytes.length = width)
    {blocks : ℕ} (clean : (Emission.all ((List.range blocks).map fun db =>
      .all ((List.range lanes).map (chunk db)))).error = none)
    (has : b.Has start (Emission.all ((List.range blocks).map fun db =>
      .all ((List.range lanes).map (chunk db)))).bytes)
    (below : lane < lanes) {db : ℕ} (inside : db < blocks) :
    (chunk db lane).error = none ∧
      b.Has (start + (db * lanes + lane) * width) (chunk db lane).bytes := by
  obtain ⟨blockClean, block⟩ := @Emission.all_row _ _ _ (lanes * width) _ _ clean has inside
    fun k _ whole => by
      rw [Emission.all_length whole, List.length_map, List.length_range]
      intro part mem partClean
      obtain ⟨lane, -, rfl⟩ := List.mem_map.1 mem
      exact widths _ _ partClean
  obtain ⟨chunkClean, here⟩ := Emission.all_row blockClean block below fun k _ => widths db k
  refine ⟨chunkClean, ?_⟩
  rwa [Nat.add_mul, Nat.mul_assoc, ← Nat.add_assoc]

theorem packBitplanes_packs (planes : laneCodec config = .directBitplanes config.stage2PayloadBits)
    {code : RaBitQCode} {db : ℕ} (clean : (packBitplanes config dim code db).error = none) :
    Packs config dim code db (packBitplanes config dim code db).bytes :=
  packedEmission_packs (by rw [planes]; rfl) clean

/-- Planes behind a check of their code. -/
theorem checkedPlanes_length (bits : PacksBits config)
    (planes : laneCodec config = .directBitplanes config.stage2PayloadBits) {message : String}
    {code : RaBitQCode} {db : ℕ} (clean : (Emission.all [checkFolded dim message code,
      packBitplanes config dim code db]).error = none) :
    (Emission.all [checkFolded dim message code, packBitplanes config dim code db]).bytes.length =
      (absLaneBytes config).toNat := by
  obtain ⟨-, packed, bytes⟩ := checked_clean clean
  rw [bytes]
  exact (packBitplanes_packs planes packed).length bits

/-- The lanes of a trimmed batch block. -/
theorem trimmed_placed (bits : PacksBits config)
    (planes : laneCodec config = .directBitplanes config.stage2PayloadBits)
    (clean : (trimmedBody config dim codes n bb).error = none)
    (has : b.Has start (trimmedBody config dim codes n bb).bytes) (below : lane < validCount n bb)
    (some : 0 < (dimBlockCount dim).toNat) :
    PackedAt config dim b (laneCode codes bb lane) fun db =>
      start + (db * validCount n bb + lane) * (absLaneBytes config).toNat := by
  have chunks := fun {db} => @blockMajor_placed lane b start (validCount n bb)
    (fun db lane => .all [checkFolded dim "official ExRaBitQ v15 requires sign-folded ExData"
      (laneCode codes bb lane), packBitplanes config dim (laneCode codes bb lane) db])
    (absLaneBytes config).toNat (fun _ _ => checkedPlanes_length bits planes) _ clean has below db
  refine ⟨(checked_clean (chunks some).1).1, fun db inside => ?_⟩
  obtain ⟨chunkClean, here⟩ := chunks inside
  obtain ⟨-, packed, bytes⟩ := checked_clean chunkClean
  rw [bytes] at here
  exact ⟨_, packBitplanes_packs planes packed, here⟩

/-- The lanes of a batch block in groups. -/
theorem smallLane_placed (bits : PacksBits config)
    (planes : laneCodec config = .directBitplanes config.stage2PayloadBits)
    (clean : (smallLaneBody config dim codes n bb).error = none)
    (has : b.Has start (smallLaneBody config dim codes n bb).bytes)
    (below : lane < validCount n bb) (some : 0 < (dimBlockCount dim).toNat) :
    let size := smallLaneBitplanesGroupSize config.effectiveExdataLayout
    let groupStart := lane / size * size
    PackedAt config dim b (laneCode codes bb lane) fun db =>
      start + groupStart * (dimBlockCount dim).toNat * (absLaneBytes config).toNat +
        (db * min size (validCount n bb - groupStart) + (lane - groupStart)) *
          (absLaneBytes config).toNat := by
  intro size groupStart
  have positive : 0 < size := by
    show 0 < smallLaneBitplanesGroupSize config.effectiveExdataLayout
    rw [smallLaneBitplanesGroupSize]
    split_ifs <;> decide
  have parts := Nat.div_add_mod lane size
  have rest := Nat.mod_lt lane positive
  have commuted : size * (lane / size) = groupStart := Nat.mul_comm _ _
  have widths := fun (group db localLane : ℕ) =>
    @checkedPlanes_length config dim bits planes
      "official ExRaBitQ small-lane layout requires sign-folded ExData"
      (laneCode codes bb (group * size + localLane)) db
  have inGroups : lane / size < (validCount n bb + size - 1) / size := by
    rw [Nat.div_lt_iff_lt_mul positive]
    have least := Nat.div_add_mod (validCount n bb + size - 1) size
    have small := Nat.mod_lt (validCount n bb + size - 1) positive
    rw [Nat.mul_comm]
    omega
  obtain ⟨groupClean, group⟩ := @Emission.all_row _ _ _ (size * (dimBlockCount dim).toNat *
    (absLaneBytes config).toNat) _ _ clean has inGroups fun k before whole => by
      have full : min size (validCount n bb - k * size) = size := by
        have next : (k + 1) * size ≤ lane / size * size := Nat.mul_le_mul_right _ before
        rw [Nat.succ_mul] at next
        omega
      rw [full] at whole ⊢
      rw [@Emission.all_length _ (size * (absLaneBytes config).toNat) whole, List.length_map,
        List.length_range, ← Nat.mul_assoc, Nat.mul_comm size]
      intro part mem partClean
      obtain ⟨db, -, rfl⟩ := List.mem_map.1 mem
      rw [@Emission.all_length _ (absLaneBytes config).toNat partClean, List.length_map,
        List.length_range]
      intro part mem partClean
      obtain ⟨localLane, -, rfl⟩ := List.mem_map.1 mem
      exact widths _ _ _ partClean
  have member : lane - groupStart < min size (validCount n bb - groupStart) := by omega
  have chunks := fun {db} => @blockMajor_placed (lane - groupStart) b _ _ _
    (absLaneBytes config).toNat (fun db localLane => widths (lane / size) db localLane) _
    groupClean group member db
  have back : lane / size * size + (lane - groupStart) = lane := by
    show groupStart + (lane - groupStart) = lane
    omega
  rw [back] at chunks
  refine ⟨(checked_clean (chunks some).1).1, fun db inside => ?_⟩
  obtain ⟨chunkClean, here⟩ := chunks inside
  obtain ⟨-, packed, bytes⟩ := checked_clean chunkClean
  rw [bytes] at here
  refine ⟨_, packBitplanes_packs planes packed, ?_⟩
  rwa [← Nat.mul_assoc, ← Nat.mul_assoc] at here

end Packed

end VecFetch.Storage
