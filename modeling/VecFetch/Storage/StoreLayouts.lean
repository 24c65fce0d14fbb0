/-
# Storage.StoreLayouts -- the lanes of every layout

The lanes of a written batch block are loaded as they were packed, in the variable layouts
(`VariableKept.loads_lane`) and in those whose batch blocks have one size (`FixedKept.loads_lane`).
-/
import VecFetch.Storage.StoreElided

namespace VecFetch.Storage

open VecFetch.Theory VecFetch.Simd VecFetch.Rabitq

set_option autoImplicit false

/-! ## Lanes with places -/

/-- A lane is loaded as it was packed, whatever memory its codes are put in. -/
def LaneLoads (build : Build) (g : ReaderGeometry) (codes : Buffer) (l : BatchLane)
    (code : RaBitQCode) : Prop :=
  ∀ old : Buffer, old.size = g.dim.toNat →
    ∃ lane, loadLane build g codes l ⟨old, Buffer.zeros (signRoom g), l.absBase⟩ = .ok lane ∧
      bytesOf lane.exCode g.dim.toNat = code.exCode ∧
      bytesOf lane.exSign (signRoom g) =
        if g.config.usesOfficial1PlusN then [] else code.exSignPacked

/-- The counters of a dimension do not wrap. -/
structure DimCounted (dim : UInt32) : Prop where
  blocks : (dimBlockCount dim).toNat = (dim.toNat + 63) / 64
  signs : (packedSignBytes dim).toNat = (dim.toNat + 7) / 8
  dims : 0 < dim.toNat

theorem DimCounted.positive {dim : UInt32} (counted : DimCounted dim) :
    0 < (dimBlockCount dim).toNat := by
  have dims := counted.dims
  rw [counted.blocks]
  omega

section Lanes

variable {g : ReaderGeometry} {codes : Buffer} {l : BatchLane} {code : RaBitQCode}

theorem LaneHeld.laneLoads {cursor : ℕ → ℕ} (held : LaneHeld g codes l code cursor)
    (first : cursor 0 = l.absBase)
    (untiled : (g.variableExBlocks && isVectorBitMajorTileLayout g.config.effectiveExdataLayout) =
      false) (counted : DimCounted g.dim) (length : code.exCode.length = g.dim.toNat)
    (signLength : g.config.usesOfficial1PlusN = false →
      code.exSignPacked.length = (packedSignBytes g.dim).toNat) (build : Build) :
    LaneLoads build g codes l code := by
  intro old room
  rw [loadLane, untiled, if_neg (by decide), ← first]
  exact held.loads build counted.blocks counted.signs length signLength room

/-- A lane whose blocks have places of their own. -/
theorem laneHeld_of_places
    (whole : ¬ (g.variableExBlocks = true ∧
      g.config.effectiveExdataLayout = .split3ZeroPlaneElide))
    (chunks : ∀ db, db < (dimBlockCount g.dim).toNat →
      ∃ bytes, LaneChunk g code db bytes ∧ codes.Has (l.absPtr g db) bytes)
    (signs : g.config.usesOfficial1PlusN = false → ∀ db, db < (dimBlockCount g.dim).toNat →
      codes.Has (signPtr g l db) (laneSigns g.dim code db)) :
    LaneHeld g codes l code fun _ => l.absBase where
  chunks := by
    intro db inside
    obtain ⟨bytes, chunk, has⟩ := chunks db inside
    refine ⟨bytesFrom codes (l.absPtr g db), bytes, ?_, chunk, ?_⟩
    · rw [BatchLane.absBytes, if_neg whole]
    · have here : codes.Has (l.absPtr g db + 0) bytes := has
      exact here.shift
  signs := signs

end Lanes

/-! ## Layouts -/

section Layout

variable {layout : RaBitQExDataLayout}

theorem contiguous_layout : isVectorContiguousOfficialLayout layout = true ↔
    isVectorBitplanesLayout layout = true ∨ isVectorBitMajorTileLayout layout = true ∨
      layout.resolveSelected = .vectorNibble4 ∨ layout.resolveSelected = .vector2Bit := by
  simp [isVectorContiguousOfficialLayout, or_assoc]

theorem smallLane_layout (small : isSmallLaneBitplanesLayout layout = true) :
    isVectorContiguousOfficialLayout layout = false ∧ layout ≠ .split3ZeroPlaneElide ∧
      isVectorBitMajorTileLayout layout = false := by
  revert small
  cases layout <;> decide

theorem vector_layout (vector : isVectorBitplanesLayout layout = true) :
    layout ≠ .split3ZeroPlaneElide ∧ isVectorBitMajorTileLayout layout = false := by
  revert vector
  cases layout <;> decide

/-- The layouts that are packed in bit planes. -/
def inPlanes (layout : RaBitQExDataLayout) : Bool :=
  isVectorBitplanesLayout layout || isSmallLaneBitplanesLayout layout ||
    decide (layout = .split3TrimmedBitplanes ∨ layout = .split3ZeroPlaneElide)

end Layout

/-- What the lanes of an official file of varying batch blocks have in common. -/
structure VariableKept (env : Option ℤ) (config : StoreConfig) : Prop where
  official : config.usesOfficial1PlusN = true
  varies : usesVariableOfficialExDataLayout config.effectiveExdataLayout = true
  bits : PacksBits config

section Kept

variable {env : Option ℤ} {config : StoreConfig} {dim : UInt32}

theorem laneCodec_planes (official : config.usesOfficial1PlusN = true)
    (planes : inPlanes config.effectiveExdataLayout = true) :
    laneCodec config = .directBitplanes config.stage2PayloadBits := by
  rw [laneCodec, official]
  generalize config.effectiveExdataLayout = layout at planes ⊢
  revert planes
  cases layout <;> first | exact fun none => absurd none (by decide) | exact fun _ => rfl

theorem absLaneBytes_counted (bits : PacksBits config) :
    (absLaneBytes config).toNat = 8 * config.stage2PayloadBits.toNat := by
  have low := UInt8.le_iff_toNat_le.1 bits.1
  have high := UInt8.le_iff_toNat_le.1 bits.2
  simp only [UInt8.reduceToNat] at low high
  have legal : ¬ (config.stage2PayloadBits < 1 ∨ 4 < config.stage2PayloadBits) := by
    rw [UInt8.lt_iff_toNat_lt, UInt8.lt_iff_toNat_lt]
    simp only [UInt8.reduceToNat]
    omega
  rw [absLaneBytes, exRaBitQPackedMagnitudeBytes, if_neg legal, UInt32.toNat_div, UInt32.toNat_add,
    UInt32.toNat_mul, UInt8.toNat_toUInt32]
  simp only [UInt32.reduceToNat]
  omega

theorem geometry_absBytes (bits : PacksBits config)
    (packed : 12 ≤ effectiveWriterFileVersion env config) :
    (fileGeometry env config dim).exrabitqAbsBytesPerLaneDimBlock = absLaneBytes config := by
  have eleven : ¬ effectiveWriterFileVersion env config < 11 :=
    UInt32.not_lt.2 (UInt32.le_trans (by decide) packed)
  have some : config.stage2PayloadBits ≠ 0 := by
    intro none
    have low := bits.1
    rw [none] at low
    exact absurd low (by decide)
  have legal : ¬ (config.stage2PayloadBits < 1 ∨ 4 < config.stage2PayloadBits) := by
    rintro (low | high)
    · exact UInt8.not_lt.2 bits.1 low
    · exact UInt8.not_lt.2 bits.2 high
  rw [ReaderGeometry.exrabitqAbsBytesPerLaneDimBlock, absLaneBytes, exRaBitQPackedMagnitudeBytes]
  exact (if_neg (not_or.2 ⟨some, eleven⟩)).trans ((if_pos packed).trans (if_neg legal).symm)

namespace VariableKept

theorem version (kept : VariableKept env config) : effectiveWriterFileVersion env config = 15 := by
  rw [effectiveWriterFileVersion, if_pos kept.official, if_pos kept.varies]

theorem variableExBlocks (kept : VariableKept env config) :
    (fileGeometry env config dim).variableExBlocks = true :=
  varies_iff.2 ⟨kept.official, kept.varies⟩

theorem absBytes (kept : VariableKept env config) :
    (fileGeometry env config dim).exrabitqAbsBytesPerLaneDimBlock = absLaneBytes config :=
  geometry_absBytes kept.bits (by rw [kept.version]; decide)

theorem chunk (kept : VariableKept env config) {code : RaBitQCode} {db : ℕ} {bytes : List UInt8}
    (packs : Packs config dim code db bytes) :
    LaneChunk (fileGeometry env config dim) code db bytes := by
  have packed : (fileGeometry env config dim).exrabitqMagnitudePacked = true := by
    have some : 0 < config.stage2PayloadBits :=
      UInt8.lt_of_lt_of_le (show (0 : UInt8) < 1 by decide) kept.bits.1
    have twelve : 12 ≤ effectiveWriterFileVersion env config := by
      rw [kept.version]
      decide
    exact Bool.and_eq_true_iff.2 ⟨decide_eq_true some, decide_eq_true twelve⟩
  rw [LaneChunk, if_pos packed]
  exact ⟨kept.bits, packs⟩

end VariableKept

end Kept

/-! ## Variable batch blocks -/

section Variable

variable {env : Option ℤ} {config : StoreConfig} {dim : UInt32} {codes : List RaBitQCode}
variable {n : UInt32} {bb lane : ℕ} {b : Buffer} {block : BatchBlock}

/-- The lane of a batch block, as the reader knows it. -/
def laneOf (block : BatchBlock) (n : UInt32) (bb lane : ℕ) : BatchLane :=
  ⟨block, UInt32.ofNat (validCount n bb), lane⟩

theorem laneOf_count : (laneOf block n bb lane).validCount.toNat = validCount n bb := by
  have few := validCount_le n bb
  rw [laneOf, UInt32.toNat_ofNat']
  omega

/-- A lane at the places where the reader looks. -/
theorem VariableKept.loads (kept : VariableKept env config) (counted : DimCounted dim)
    (whole : config.effectiveExdataLayout ≠ .split3ZeroPlaneElide)
    (untiled : isVectorBitMajorTileLayout config.effectiveExdataLayout = false)
    {place : ℕ → ℕ} (packed : PackedAt config dim b (laneCode codes bb lane) place)
    (places : ∀ db, place db = (laneOf block n bb lane).absPtr (fileGeometry env config dim) db)
    (build : Build) :
    LaneLoads build (fileGeometry env config dim) b (laneOf block n bb lane)
      (laneCode codes bb lane) := by
  have held : LaneHeld (fileGeometry env config dim) b (laneOf block n bb lane)
      (laneCode codes bb lane) fun _ => (laneOf block n bb lane).absBase :=
    laneHeld_of_places (fun elided => whole elided.2) (fun db inside => by
      obtain ⟨bytes, packs, has⟩ := packed.blocks db inside
      rw [places db] at has
      exact ⟨bytes, kept.chunk packs, has⟩) fun legacy => by
        exact absurd kept.official (Bool.eq_false_iff.1 legacy)
  refine held.laneLoads rfl (Bool.and_eq_false_iff.2 (.inr untiled)) counted packed.length
    (fun legacy => absurd kept.official (Bool.eq_false_iff.1 legacy)) build

theorem VariableKept.absPtr_contiguous (kept : VariableKept env config)
    (layout : isVectorContiguousOfficialLayout config.effectiveExdataLayout = true) (db : ℕ) :
    (laneOf block n bb lane).absPtr (fileGeometry env config dim) db =
      block.offset + 4 + (lane * (dimBlockCount dim).toNat + db) * (absLaneBytes config).toNat := by
  have varying := @VariableKept.variableExBlocks _ _ dim kept
  rw [BatchLane.absPtr, varying, kept.absBytes]
  exact if_pos (Bool.and_eq_true_iff.2 ⟨rfl, layout⟩)

theorem VariableKept.absPtr_smallLane (kept : VariableKept env config)
    (layout : isSmallLaneBitplanesLayout config.effectiveExdataLayout = true) (db : ℕ) :
    let size := smallLaneBitplanesGroupSize config.effectiveExdataLayout
    let groupStart := lane / size * size
    (laneOf block n bb lane).absPtr (fileGeometry env config dim) db =
      block.offset + 4 + groupStart * (dimBlockCount dim).toNat * (absLaneBytes config).toNat +
        (db * min size (validCount n bb - groupStart) + (lane - groupStart)) *
          (absLaneBytes config).toNat := by
  intro size groupStart
  have varying := @VariableKept.variableExBlocks _ _ dim kept
  have count := @laneOf_count n bb lane block
  rw [BatchLane.absPtr, varying, kept.absBytes, count]
  refine (if_neg ?_).trans (if_pos (Bool.and_eq_true_iff.2 ⟨rfl, layout⟩))
  rw [Bool.and_eq_true]
  rintro ⟨-, contiguous⟩
  exact absurd contiguous (Bool.eq_false_iff.1 (smallLane_layout layout).1)

theorem VariableKept.absPtr_blocks (kept : VariableKept env config)
    (layout : config.effectiveExdataLayout = .split3TrimmedBitplanes) (db : ℕ) :
    (laneOf block n bb lane).absPtr (fileGeometry env config dim) db =
      block.offset + 4 + (db * validCount n bb + lane) * (absLaneBytes config).toNat := by
  have varying := @VariableKept.variableExBlocks _ _ dim kept
  have count := @laneOf_count n bb lane block
  have stored : (laneOf block n bb lane).storedLanes (fileGeometry env config dim) =
      (laneOf block n bb lane).validCount := if_pos varying
  rw [BatchLane.absPtr, varying, kept.absBytes, stored, count]
  have plain : (fileGeometry env config dim).config.effectiveExdataLayout =
      .split3TrimmedBitplanes := layout
  rw [plain, if_neg (by decide), if_neg (by decide), Nat.add_mul, ← Nat.add_assoc]
  rfl

/-- A lane whose planes are elided. -/
theorem VariableKept.loads_elided (kept : VariableKept env config) (counted : DimCounted dim)
    (layout : config.effectiveExdataLayout = .split3ZeroPlaneElide)
    (clean : (zeroElideBody config dim codes n bb).error = none)
    (has : b.Has (block.offset + 4) (zeroElideBody config dim codes n bb).bytes)
    (below : lane < validCount n bb) (build : Build) :
    LaneLoads build (fileGeometry env config dim) b (laneOf block n bb lane)
      (laneCode codes bb lane) := by
  obtain ⟨bytes, checked⟩ := zeroElideBody_clean clean
  rw [bytes] at has
  have planes : laneCodec config = .directBitplanes config.stage2PayloadBits :=
    laneCodec_planes kept.official (by rw [layout]; decide)
  have width := absLaneBytes_counted kept.bits
  have few := UInt8.le_iff_toNat_le.1 kept.bits.2
  have chunk : ∀ db, db < (dimBlockCount dim).toNat → ∀ lane, lane < validCount n bb →
      Packs config dim (laneCode codes bb lane) db
          (packBitplanes config dim (laneCode codes bb lane) db).bytes ∧
        (packBitplanes config dim (laneCode codes bb lane) db).bytes.length =
          8 * config.stage2PayloadBits.toNat := by
    intro db inside lane below
    have packs := packBitplanes_packs planes (checked db inside lane below).2
    exact ⟨packs, (packs.length kept.bits).trans width⟩
  have held : LaneHeld (fileGeometry env config dim) b (laneOf block n bb lane)
      (laneCode codes bb lane) (planesAt config dim codes n bb (block.offset + 4)) := by
    refine ⟨fun db inside => ?_, fun legacy => absurd kept.official (Bool.eq_false_iff.1 legacy)⟩
    obtain ⟨packs, length⟩ := chunk db inside lane below
    obtain ⟨laneBuf, run, whole⟩ := loadElided (fun plane inPlanes lane below => by
      rw [laneWord, slice_length]
      rw [(chunk db inside lane below).2]
      omega) (has.nth inside) below few length
    refine ⟨laneBuf, _, ?_, kept.chunk packs, whole⟩
    rw [BatchLane.absBytes, if_pos ⟨kept.variableExBlocks, layout⟩]
    refine run.trans (congrArg (fun cursor => Except.ok (laneBuf, cursor)) ?_)
    rw [planesAt, List.range_succ, List.flatMap_append, List.length_append, List.flatMap_singleton,
      Nat.add_assoc]
  refine held.laneLoads (by simp [planesAt, BatchLane.absBase, laneOf]) ?_ counted
    (checked 0 counted.positive lane below).1
    (fun legacy => absurd kept.official (Bool.eq_false_iff.1 legacy)) build
  exact Bool.and_eq_false_iff.2 (.inr (by
    show isVectorBitMajorTileLayout config.effectiveExdataLayout = false
    rw [layout]
    decide))

/-- A lane of tiles. -/
theorem VariableKept.loads_tiles (kept : VariableKept env config) (counted : DimCounted dim)
    (layout : isVectorBitMajorTileLayout config.effectiveExdataLayout = true)
    (clean : (bitMajorBody config dim codes n bb).error = none)
    (has : b.Has (block.offset + 4) (bitMajorBody config dim codes n bb).bytes)
    (below : lane < validCount n bb) (build : Build) :
    LaneLoads build (fileGeometry env config dim) b (laneOf block n bb lane)
      (laneCode codes bb lane) := by
  set vectorBytes := exRaBitQBitMajorTileVectorBytes dim config.stage2PayloadBits with vectorDef
  have required : vectorBytes ≠ 0 := by
    simpa using Emission.require_clean.1 (Emission.append_clean.1 clean).1
  have legal : 1 ≤ config.stage2PayloadBits ∧ config.stage2PayloadBits ≤ 3 := by
    by_contra illegal
    refine required (if_pos ?_)
    rw [not_and_or, UInt8.not_le, UInt8.not_le] at illegal
    exact illegal
  obtain ⟨lanesClean, bytes⟩ := Emission.append_silent (Emission.require_bytes _ _) clean
  have whole : b.Has (block.offset + 4) _ := bytes ▸ has
  have sizes : ∀ {code packed}, exRaBitQPackOfficialBitMajorTiles (code : ℕ → UInt8) dim
      config.stage2PayloadBits vectorBytes = .ok packed → packed.size = vectorBytes.toNat :=
    fun run => ((ExDataCodec.bitMajorTiles_placed legal counted.dims).bytes _ _ _ run).1
  obtain ⟨laneClean, here⟩ := Emission.all_row lanesClean whole below fun k _ each => by
    obtain ⟨-, packed, same⟩ := checked_clean each
    rw [same]
    exact packed_length sizes packed
  obtain ⟨length, packClean, same⟩ := checked_clean laneClean
  rw [same] at here
  intro old room
  cases run : exRaBitQPackOfficialBitMajorTiles ((laneCode codes bb lane).exCode.getD · 0) dim
      config.stage2PayloadBits vectorBytes with
  | error fault =>
      rw [run] at packClean
      cases fault <;> cases packClean
  | ok packed =>
      rw [run] at here
      have inside := here.inside
      obtain ⟨placed⟩ := ExDataCodec.bitMajorTiles_places legal counted.dims
      obtain ⟨out, unpacked, size, codes⟩ := @ExDataCodec.Placed.unpacks_from _ _ placed _ _ packed
        (bytesFrom b (block.offset + 4 + lane * vectorBytes.toNat)) run (by
          simp only [packedEmission, Emission.ofBytes, Buffer.toList_length] at inside
          simp only [bytesFrom]
          omega) (fun k small => by
          have byte := here.bytes k (by
            simpa only [packedEmission, Emission.ofBytes, Buffer.toList_length] using small)
          rw [bytesFrom, byte]
          simp [packedEmission, Emission.ofBytes, Buffer.toList, small]) build old room
      refine ⟨⟨out, Buffer.zeros (signRoom (fileGeometry env config dim)),
        (laneOf block n bb lane).absBase⟩, ?_, bytesOf_eq length codes, ?_⟩
      · have varying := @VariableKept.variableExBlocks _ _ dim kept
        rw [loadLane, varying]
        refine (if_pos (Bool.and_eq_true_iff.2 ⟨rfl, layout⟩)).trans ((if_neg required).trans ?_)
        have reads : exRaBitQUnpackOfficialBitMajorTiles
            (bytesFrom b (block.offset + 4 + lane * vectorBytes.toNat)) dim
              config.stage2PayloadBits old = .ok out := unpacked
        exact congrArg (fun read => (unpackedOr "Failed to unpack vector_bitmajor_tiles payload"
          read).map fun exCode => (⟨exCode, _, _⟩ : LaneCodes)) reads
      · have official : (fileGeometry env config dim).config.usesOfficial1PlusN = true :=
          kept.official
        rw [signRoom, if_pos official, if_pos official]
        rfl

/-- **A lane of a variable batch block is loaded** as it was packed, in every layout. -/
theorem VariableKept.loads_lane (kept : VariableKept env config) (counted : DimCounted dim)
    (clean : (variableBody config dim codes n bb).error = none)
    (has : b.Has (block.offset + 4) (variableBody config dim codes n bb).bytes)
    (below : lane < validCount n bb) (build : Build) :
    LaneLoads build (fileGeometry env config dim) b (laneOf block n bb lane)
      (laneCode codes bb lane) := by
  have official := kept.official
  have varies := kept.varies
  rw [variableBody] at clean has
  by_cases vector : isVectorBitplanesLayout config.effectiveExdataLayout = true
  · rw [if_pos vector] at clean has
    obtain ⟨whole, untiled⟩ := vector_layout vector
    have planes := laneCodec_planes official (by rw [inPlanes, vector]; rfl)
    exact kept.loads counted whole untiled
      (laneMajor_placed kept.bits (fun _ _ => packBitplanes_packs planes) clean has below)
      (fun db => (kept.absPtr_contiguous (contiguous_layout.2 (.inl vector)) db).symm) build
  rw [if_neg vector] at clean has
  by_cases tiles : isVectorBitMajorTileLayout config.effectiveExdataLayout = true
  · rw [if_pos tiles] at clean has
    exact kept.loads_tiles counted tiles clean has below build
  rw [if_neg tiles] at clean has
  have untiled := Bool.eq_false_iff.2 tiles
  by_cases small : isSmallLaneBitplanesLayout config.effectiveExdataLayout = true
  · rw [if_pos small] at clean has
    have planes := laneCodec_planes official (by rw [inPlanes, small, Bool.or_true, Bool.true_or])
    exact kept.loads counted (smallLane_layout small).2.1 untiled
      (smallLane_placed kept.bits planes clean has below counted.positive)
      (fun db => (kept.absPtr_smallLane small db).symm) build
  rw [if_neg small] at clean has
  by_cases pairs : config.effectiveExdataLayout = .vector2Bit
  · rw [if_pos pairs] at clean has
    have codec : laneCodec config = .twoBit := by
      rw [laneCodec, official, pairs]
      rfl
    exact kept.loads counted (by rw [pairs]; decide) untiled
      (laneMajor_placed kept.bits (fun _ _ => packedEmission_packs (by rw [codec]; rfl)) clean has
        below)
      (fun db => (kept.absPtr_contiguous (by rw [pairs]; decide) db).symm) build
  rw [if_neg pairs] at clean has
  by_cases nibbles : config.effectiveExdataLayout = .vectorNibble4
  · rw [if_pos nibbles] at clean has
    have codec : laneCodec config = .nibble4 := by
      rw [laneCodec, official, nibbles]
      rfl
    exact kept.loads counted (by rw [nibbles]; decide) untiled
      (laneMajor_placed kept.bits (fun _ _ => packedEmission_packs (by rw [codec]; rfl)) clean has
        below)
      (fun db => (kept.absPtr_contiguous (by rw [nibbles]; decide) db).symm) build
  rw [if_neg nibbles] at clean has
  by_cases trimmed : config.effectiveExdataLayout = .split3TrimmedBitplanes
  · rw [if_pos trimmed] at clean has
    have planes := laneCodec_planes official (by rw [trimmed]; decide)
    exact kept.loads counted (by rw [trimmed]; decide) untiled
      (trimmed_placed kept.bits planes clean has below counted.positive)
      (fun db => (kept.absPtr_blocks trimmed db).symm) build
  rw [if_neg trimmed] at clean has
  by_cases elided : config.effectiveExdataLayout = .split3ZeroPlaneElide
  · rw [if_pos elided] at clean has
    exact kept.loads_elided counted elided clean has below build
  -- no other layout varies
  clear clean has
  generalize config.effectiveExdataLayout = layout at *
  cases layout <;> simp_all [usesVariableOfficialExDataLayout, isVectorBitplanesLayout,
    isVectorBitMajorTileLayout, isSmallLaneBitplanesLayout, RaBitQExDataLayout.resolveSelected,
    RaBitQExDataLayout.resolveSelectedForBits]

end Variable

/-! ## Batch blocks of one size -/

/-- What the lanes of a file have in common whose batch blocks have one size. -/
structure FixedKept (env : Option ℤ) (config : StoreConfig) : Prop where
  fixed : ¬ (config.usesOfficial1PlusN = true ∧
    usesVariableOfficialExDataLayout config.effectiveExdataLayout = true)
  batched : 11 ≤ effectiveWriterFileVersion env config
  extra : config.stage2PayloadBits ≠ 0
  bits : 12 ≤ effectiveWriterFileVersion env config → PacksBits config

section Fixed

variable {env : Option ℤ} {config : StoreConfig} {dim : UInt32} {codes : List RaBitQCode}
variable {n : UInt32} {bb db lane : ℕ} {b : Buffer} {block : BatchBlock}

/-- The magnitudes of a layout that does not vary are packed by its codec. -/
theorem packFixed_eq (fixed : ¬ (config.usesOfficial1PlusN = true ∧
      usesVariableOfficialExDataLayout config.effectiveExdataLayout = true)) (abs : ℕ → UInt8) :
    packFixed config abs =
      packedEmission outsideRange ((laneCodec config).pack abs 64 (absLaneBytes config)) := by
  rw [packFixed, laneCodec]
  cases official : config.usesOfficial1PlusN with
  | false => rfl
  | true =>
      rw [official] at fixed
      generalize config.effectiveExdataLayout = layout at fixed ⊢
      cases layout <;> first | rfl | exact absurd ⟨rfl, rfl⟩ fixed

theorem checkFixed_clean {code : RaBitQCode} (clean : (checkFixed config dim code).error = none) :
    code.exCode.length = dim.toNat ∧ (config.usesOfficial1PlusN = false →
      code.exSignPacked.length = (packedSignBytes dim).toNat) := by
  have passed := Emission.all_clean.1 clean
  simp only [List.forall_mem_cons] at passed
  refine ⟨by simpa using Emission.require_clean.1 passed.1, fun legacy => ?_⟩
  have signs := Emission.require_clean.1 passed.2.2.1
  rw [legacy, Bool.false_or] at signs
  exact of_decide_eq_true signs

/-- A block of a lane that holds a code. -/
theorem fixedChunk_held {packs : Bool} (below : lane < validCount n bb)
    (clean : (fixedChunk config dim packs codes n bb db lane).error = none) :
    (checkFixed config dim (laneCode codes bb lane)).error = none ∧
      (if packs then packFixed config (absBuf dim (laneCode codes bb lane) db)
        else .ofBytes ((List.range 64).map (absBuf dim (laneCode codes bb lane) db))).error = none ∧
      (fixedChunk config dim packs codes n bb db lane).bytes =
        (if packs then packFixed config (absBuf dim (laneCode codes bb lane) db)
          else .ofBytes ((List.range 64).map (absBuf dim (laneCode codes bb lane) db))).bytes := by
  rw [fixedChunk, decide_eq_true below] at clean ⊢
  have passed := Emission.all_clean.1 clean
  rw [List.forall_mem_cons, List.forall_mem_singleton] at passed
  refine ⟨passed.1, passed.2, ?_⟩
  rw [Emission.all_bytes clean, List.flatMap_cons, List.flatMap_singleton]
  rw [if_pos rfl, checkFixed_bytes passed.1, List.nil_append]
  rfl

/-- The places of a batch block. -/
structure FixedHeld (env : Option ℤ) (config : StoreConfig) (dim : UInt32)
    (codes : List RaBitQCode) (n : UInt32) (bb : ℕ) (b : Buffer) (start : ℕ) : Prop where
  count : b.Has start (leBytes 4 (UInt32.ofNat (validCount n bb)).toNat)
  chunks : ∀ db, db < (dimBlockCount dim).toNat → ∀ lane, lane < 8 →
    (fixedChunk config dim (decide (12 ≤ effectiveWriterFileVersion env config)) codes n bb db
        lane).error = none ∧
      b.Has (start + 4 + (db * 8 + lane) *
          chunkSize config (decide (12 ≤ effectiveWriterFileVersion env config)))
        (fixedChunk config dim (decide (12 ≤ effectiveWriterFileVersion env config)) codes n bb db
          lane).bytes
  tail : b.Has (start + 4 + (dimBlockCount dim).toNat *
      (8 * chunkSize config (decide (12 ≤ effectiveWriterFileVersion env config))))
    (if config.usesOfficial1PlusN then
      laneFactors codes RaBitQCode.exFactorAdd n bb ++
        laneFactors codes RaBitQCode.exFactorRescale n bb
    else (List.range (dimBlockCount dim).toNat).flatMap (fun db =>
        (List.range 8).flatMap (signChunk dim codes n bb db)) ++
      laneFactors codes RaBitQCode.xipnorm n bb)

theorem fixedBatch_held {start : ℕ}
    (clean : (fixedBatch config dim (decide (12 ≤ effectiveWriterFileVersion env config)) codes n
      bb).error = none)
    (has : b.Has start (fixedBatch config dim
      (decide (12 ≤ effectiveWriterFileVersion env config)) codes n bb).bytes) :
    FixedHeld env config dim codes n bb b start := by
  set packs := decide (12 ≤ effectiveWriterFileVersion env config) with packsDef
  have passed := Emission.all_clean.1 clean
  simp only [List.forall_mem_cons] at passed
  obtain ⟨-, chunksClean, -⟩ := passed
  have whole := has
  rw [fixedBatch, Emission.all_bytes clean, List.flatMap_cons, List.flatMap_cons,
    List.flatMap_singleton] at whole
  have chunks := whole.right.left
  have tail := whole.right.right
  have width := @Emission.all_length _ (8 * chunkSize config packs) chunksClean (by
    intro part mem each
    obtain ⟨db, -, rfl⟩ := List.mem_map.1 mem
    rw [@Emission.all_length _ (chunkSize config packs) each, List.length_map, List.length_range]
    intro part mem partClean
    obtain ⟨lane, -, rfl⟩ := List.mem_map.1 mem
    exact fixedChunk_length partClean)
  rw [List.length_map, List.length_range] at width
  have first : (Emission.u32 (UInt32.ofNat (validCount n bb))).bytes.length = 4 :=
    leBytes_length 4 _
  rw [first] at chunks tail
  rw [width] at tail
  refine ⟨whole.left, fun db inside lane below => ?_, ?_⟩
  · exact blockMajor_placed (fun _ _ => fixedChunk_length) chunksClean chunks below inside
  · cases official : config.usesOfficial1PlusN with
    | true =>
        rw [official] at tail
        exact tail
    | false =>
        rw [official] at tail
        exact tail

namespace FixedKept

theorem variableExBlocks (kept : FixedKept env config) :
    (fileGeometry env config dim).variableExBlocks = false :=
  Bool.eq_false_iff.2 fun varies => kept.fixed (varies_iff.1 varies)

theorem magnitudePacked (kept : FixedKept env config) :
    (fileGeometry env config dim).exrabitqMagnitudePacked =
      decide (12 ≤ effectiveWriterFileVersion env config) := by
  have some : 0 < config.stage2PayloadBits := UInt8.pos_iff_ne_zero.2 kept.extra
  exact (congrArg (· && decide (12 ≤ effectiveWriterFileVersion env config))
    (decide_eq_true some)).trans (Bool.true_and _)

theorem absBytes (kept : FixedKept env config) :
    (fileGeometry env config dim).exrabitqAbsBytesPerLaneDimBlock =
      if decide (12 ≤ effectiveWriterFileVersion env config) then absLaneBytes config else 64 := by
  by_cases packed : 12 ≤ effectiveWriterFileVersion env config
  · rw [geometry_absBytes (kept.bits packed) packed, if_pos (decide_eq_true packed)]
  · have batched : ¬ effectiveWriterFileVersion env config < 11 := UInt32.not_lt.2 kept.batched
    rw [decide_eq_false packed, ReaderGeometry.exrabitqAbsBytesPerLaneDimBlock]
    exact (if_neg (not_or.2 ⟨kept.extra, batched⟩)).trans (if_neg packed)

theorem absBytes_toNat (kept : FixedKept env config) :
    (fileGeometry env config dim).exrabitqAbsBytesPerLaneDimBlock.toNat =
      chunkSize config (decide (12 ≤ effectiveWriterFileVersion env config)) := by
  rw [kept.absBytes, chunkSize]
  split_ifs <;> rfl

/-- The blocks of a batch block have the size that the reader computes. -/
theorem batchBlockSize (kept : FixedKept env config) :
    (fileGeometry env config dim).exrabitqBatchBlockSize =
      fixedBatchBytes config dim (decide (12 ≤ effectiveWriterFileVersion env config)) := by
  have batched : ¬ effectiveWriterFileVersion env config < 11 := UInt32.not_lt.2 kept.batched
  rw [ReaderGeometry.exrabitqBatchBlockSize, kept.absBytes]
  exact if_neg (not_or.2 ⟨kept.extra, batched⟩)

theorem storedLanes (kept : FixedKept env config) (l : BatchLane) :
    l.storedLanes (fileGeometry env config dim) = 8 := by
  rw [BatchLane.storedLanes, kept.variableExBlocks]
  rfl

theorem absPtr (kept : FixedKept env config) (l : BatchLane) (db : ℕ) :
    l.absPtr (fileGeometry env config dim) db = l.block.offset + 4 + (db * 8 + l.laneId) *
      chunkSize config (decide (12 ≤ effectiveWriterFileVersion env config)) := by
  rw [BatchLane.absPtr, kept.variableExBlocks, kept.storedLanes, kept.absBytes_toNat]
  refine (if_neg Bool.false_ne_true).trans ((if_neg Bool.false_ne_true).trans ?_)
  rw [Nat.add_mul, ← Nat.add_assoc]
  rfl

theorem chunk (kept : FixedKept env config) (below : lane < validCount n bb)
    (clean : (fixedChunk config dim (decide (12 ≤ effectiveWriterFileVersion env config)) codes n
      bb db lane).error = none) :
    LaneChunk (fileGeometry env config dim) (laneCode codes bb lane) db
      (fixedChunk config dim (decide (12 ≤ effectiveWriterFileVersion env config)) codes n bb db
        lane).bytes := by
  obtain ⟨-, packed, bytes⟩ := fixedChunk_held below clean
  rw [bytes, LaneChunk, kept.magnitudePacked]
  by_cases packs : 12 ≤ effectiveWriterFileVersion env config
  · rw [decide_eq_true packs, if_pos rfl, packFixed_eq kept.fixed] at packed ⊢
    exact ⟨kept.bits packs, packedEmission_packs rfl packed⟩
  · rw [decide_eq_false packs]
    rfl

/-- The signs of a lane that holds a code. -/
theorem signChunk_eq (below : lane < validCount n bb) (db : ℕ) :
    signChunk dim codes n bb db lane = laneSigns dim (laneCode codes bb lane) db := by
  rw [signChunk, laneSigns]
  refine List.map_congr_left fun j _ => ?_
  simp only [below, true_and]

/-- **A lane of a batch block of one size is loaded** as it was packed. -/
theorem loads_lane (kept : FixedKept env config) (counted : DimCounted dim)
    (held : FixedHeld env config dim codes n bb b block.offset) (below : lane < validCount n bb)
    (small : fixedBatchSize config (dimBlockCount dim).toNat
      (decide (12 ≤ effectiveWriterFileVersion env config)) < 2 ^ 32) (build : Build) :
    LaneLoads build (fileGeometry env config dim) b (laneOf block n bb lane)
      (laneCode codes bb lane) := by
  have few := validCount_le n bb
  obtain ⟨checked, -⟩ := fixedChunk_held below (held.chunks 0 counted.positive lane (by omega)).1
  obtain ⟨length, signLength⟩ := checkFixed_clean checked
  have laneHeld : LaneHeld (fileGeometry env config dim) b (laneOf block n bb lane)
      (laneCode codes bb lane) fun _ => (laneOf block n bb lane).absBase := by
    refine laneHeld_of_places (fun elided => ?_) (fun db inside => ?_) fun legacy db inside => ?_
    · exact absurd elided.1 (Bool.eq_false_iff.1 kept.variableExBlocks)
    · obtain ⟨clean, has⟩ := held.chunks db inside lane (by omega)
      refine ⟨_, kept.chunk below clean, ?_⟩
      rw [kept.absPtr]
      exact has
    · have tail := held.tail
      rw [show config.usesOfficial1PlusN = false from legacy, if_neg (by decide)] at tail
      have signs := tail.left.row inside fun db _ =>
        flatMap_range_length (c := 8) fun lane _ => by simp [signChunk]
      have here := signs.row (show lane < 8 by omega) fun lane _ =>
        show (signChunk dim codes n bb db lane).length = 8 by simp [signChunk]
      rw [signChunk_eq below] at here
      have product : (dimBlockCount dim * 8 *
          (fileGeometry env config dim).exrabitqAbsBytesPerLaneDimBlock).toNat =
            (dimBlockCount dim).toNat *
              (8 * chunkSize config (decide (12 ≤ effectiveWriterFileVersion env config))) := by
        rw [fixedBatchSize] at small
        have eight : (dimBlockCount dim * 8).toNat = (dimBlockCount dim).toNat * 8 := by
          rw [UInt32.toNat_mul, counted.blocks]
          simp only [UInt32.reduceToNat]
          have bound := dim.toNat_lt
          omega
        rw [UInt32.toNat_mul, eight, kept.absBytes_toNat, Nat.mul_assoc]
        exact Nat.mod_eq_of_lt (by omega)
      rw [signPtr, kept.storedLanes]
      show b.Has (block.offset + 4 + _ + _ + _) _
      rw [show (fileGeometry env config dim).dim = dim from rfl, product]
      have place : db * 64 = db * 8 * 8 := by omega
      rwa [← place]
  refine laneHeld.laneLoads rfl ?_ counted length signLength build
  rw [kept.variableExBlocks]
  rfl

end FixedKept

end Fixed

end VecFetch.Storage
