/-
# Storage.StoreLanes -- a lane of a batch block is loaded as it was packed

A lane is loaded one block of 64 dimensions after the other.  Whatever the layout, a block's codes
are bytes that a packer wrote; `LaneHeld` says that a buffer has them where the reader looks, and
then the lane's codes and signs are read back (`LaneHeld.loads`).
-/
import VecFetch.Simd.ExDataRoundTrip
import VecFetch.Storage.StoreLoad
import VecFetch.Storage.StoreSigns
import VecFetch.Theory.MapM

namespace VecFetch.Storage

open VecFetch.Theory VecFetch.Simd VecFetch.Rabitq

set_option autoImplicit false

/-! ## Packed blocks -/

/-- The codec of a block of 64 dimensions. -/
def laneCodec (config : StoreConfig) : ExDataCodec :=
  let layout := config.effectiveExdataLayout
  if config.usesOfficial1PlusN && layout.isDirect then
    if layout = .split3TwoPlusOne then .direct3 layout
    else if layout = .vectorNibble4 then .nibble4
    else if layout = .vector2Bit then .twoBit
    else .directBitplanes config.stage2PayloadBits
  else .magnitudes config.stage2PayloadBits

theorem unpackLane_eq (build : Build) (g : ReaderGeometry) (packed : Buffer) :
    unpackLane build g packed =
      unpackedOr "Failed to unpack ExRaBitQ packed magnitude block"
        ((laneCodec g.config).unpack build packed 64 (Buffer.zeros 64)) := by
  simp only [unpackLane, laneCodec]
  split_ifs <;> rfl

theorem laneCodec_noWrap {config : StoreConfig} (bits : config.stage2PayloadBits ≤ 4) :
    (laneCodec config).NoWrap 64 := by
  have few : config.stage2PayloadBits.toNat ≤ 4 := UInt8.le_iff_toNat_le.1 bits
  rw [laneCodec]
  split_ifs
  · exact show 64 + 63 < 2 ^ 32 by decide
  · exact show 64 + 15 < 2 ^ 32 by decide
  · exact show 64 + 63 < 2 ^ 32 by decide
  · exact show 64 + 63 < 2 ^ 32 by decide
  · show 64 * config.stage2PayloadBits.toNat + 7 < 2 ^ 32
    omega

/-- Extra bits that packers know. -/
def PacksBits (config : StoreConfig) : Prop :=
  1 ≤ config.stage2PayloadBits ∧ config.stage2PayloadBits ≤ 4

theorem laneCodec_legal {config : StoreConfig} (bits : PacksBits config) :
    (laneCodec config).Legal := by
  rw [laneCodec]
  split_ifs with direct twoPlusOne
  · exact .inl twoPlusOne
  · trivial
  · trivial
  · exact bits
  · exact bits

/-- The bytes of block `db` of a code. -/
def Packs (config : StoreConfig) (dim : UInt32) (code : RaBitQCode) (db : ℕ)
    (bytes : List UInt8) : Prop :=
  ∃ packed, (laneCodec config).pack (absBuf dim code db) 64 (absLaneBytes config) = .ok packed ∧
    bytes = packed.toList

theorem packedEmission_packs {config : StoreConfig} {dim : UInt32} {code : RaBitQCode} {db : ℕ}
    {message : String} {run : Except Fault Buffer}
    (packs : run = (laneCodec config).pack (absBuf dim code db) 64 (absLaneBytes config))
    (clean : (packedEmission message run).error = none) :
    Packs config dim code db (packedEmission message run).bytes := by
  cases ran : run with
  | ok packed => exact ⟨packed, packs.symm.trans ran, rfl⟩
  | error fault =>
      rw [ran] at clean
      cases fault <;> cases clean

section Packed

variable {config : StoreConfig} {dim : UInt32} {code : RaBitQCode} {db : ℕ} {bytes : List UInt8}

theorem Packs.length (bits : PacksBits config) (packs : Packs config dim code db bytes) :
    bytes.length = (absLaneBytes config).toNat := by
  obtain ⟨packed, run, rfl⟩ := packs
  obtain ⟨placed⟩ := ExDataCodec.codec_places (laneCodec_legal bits)
    (show 0 < (64 : UInt32).toNat by decide) (laneCodec_noWrap bits.2)
  rw [Buffer.toList_length, (placed.round_trips.bytes _ _ _ run).1]

/-- **A packed block is unpacked from a buffer that has it.** -/
theorem Packs.unpacks (bits : PacksBits config) (packs : Packs config dim code db bytes)
    (build : Build) {g : ReaderGeometry} (same : g.config = config) {held : Buffer}
    (has : held.Has 0 bytes) :
    ∃ out, unpackLane build g held = .ok out ∧ ∀ j, j < 64 → out.byte j = absBuf dim code db j := by
  obtain ⟨packed, run, rfl⟩ := packs
  obtain ⟨placed⟩ := ExDataCodec.codec_places (laneCodec_legal bits)
    (show 0 < (64 : UInt32).toNat by decide) (laneCodec_noWrap bits.2)
  have inside := has.inside
  rw [Buffer.toList_length, Nat.zero_add] at inside
  obtain ⟨out, unpacked, -, codes⟩ := placed.unpacks_from run inside (fun k below => by
    have byte := has.bytes k (by rwa [Buffer.toList_length])
    rw [Nat.zero_add] at byte
    simpa [Buffer.toList, below] using byte) build
      (show (Buffer.zeros 64).size = _ from rfl)
  refine ⟨out, ?_, codes⟩
  rw [unpackLane_eq, same, unpacked]
  rfl

end Packed

/-! ## One block -/

/-- The bytes of block `db` of a code in a file: packed from version 12 on. -/
def LaneChunk (g : ReaderGeometry) (code : RaBitQCode) (db : ℕ) (bytes : List UInt8) : Prop :=
  if g.exrabitqMagnitudePacked then PacksBits g.config ∧ Packs g.config g.dim code db bytes
  else bytes = (List.range 64).map (absBuf g.dim code db)

/-- The packed signs of block `db` of a code. -/
def laneSigns (dim : UInt32) (code : RaBitQCode) (db : ℕ) : List UInt8 :=
  (List.range 8).map fun j =>
    if 8 * db + j < (packedSignBytes dim).toNat then code.exSignPacked.getD (8 * db + j) 0 else 0

/-- Where the signs of a lane in block `db` start. -/
def signPtr (g : ReaderGeometry) (l : BatchLane) (db : ℕ) : ℕ :=
  l.absBase +
    (dimBlockCount g.dim * l.storedLanes g * g.exrabitqAbsBytesPerLaneDimBlock).toNat +
    db * 8 * 8 + l.laneId * 8

/-- A buffer with the blocks of a lane, `cursor` being where those without a place of their own
start. -/
structure LaneHeld (g : ReaderGeometry) (codes : Buffer) (l : BatchLane) (code : RaBitQCode)
    (cursor : ℕ → ℕ) : Prop where
  chunks : ∀ db, db < (dimBlockCount g.dim).toNat → ∃ held bytes,
    l.absBytes g codes db (cursor db) = .ok (held, cursor (db + 1)) ∧
      LaneChunk g code db bytes ∧ held.Has 0 bytes
  signs : g.config.usesOfficial1PlusN = false → ∀ db, db < (dimBlockCount g.dim).toNat →
    codes.Has (signPtr g l db) (laneSigns g.dim code db)

/-- The bytes that a loaded code has of its signs. -/
def signRoom (g : ReaderGeometry) : ℕ :=
  if g.config.usesOfficial1PlusN then 0 else (packedSignBytes g.dim).toNat

/-- What is loaded of a lane before block `db`. -/
structure LaneDone (g : ReaderGeometry) (code : RaBitQCode) (cursor : ℕ → ℕ) (db : ℕ)
    (s : LaneCodes) : Prop where
  room : s.exCode.size = g.dim.toNat
  codes : ∀ j, j < min (64 * db) g.dim.toNat → s.exCode.byte j = code.exCode.getD j 0
  signRoom : s.exSign.size = signRoom g
  signs : ∀ j, j < min (8 * db) (Storage.signRoom g) →
    s.exSign.byte j = code.exSignPacked.getD j 0
  cursor : s.cursor = cursor db

section Lane

variable {g : ReaderGeometry} {codes : Buffer} {l : BatchLane} {code : RaBitQCode}
variable {cursor : ℕ → ℕ} {db : ℕ}

/-- A block's magnitudes are read back. -/
theorem LaneChunk.reads {bytes : List UInt8} (chunk : LaneChunk g code db bytes) (build : Build)
    {held : Buffer} (has : held.Has 0 bytes) :
    ∃ found : ℕ → UInt8,
      (if g.exrabitqMagnitudePacked then (unpackLane build g held).map Buffer.byte
        else Result.inBounds (held.load 0 (min 64 (g.dim.toNat - 64 * db)))) = .ok found ∧
        ∀ j, j < min 64 (g.dim.toNat - 64 * db) → found j = code.exCode.getD (64 * db + j) 0 := by
  by_cases packed : g.exrabitqMagnitudePacked = true
  · rw [LaneChunk, if_pos packed] at chunk
    obtain ⟨out, unpacked, bytes⟩ := chunk.2.unpacks chunk.1 build rfl has
    refine ⟨out.byte, by rw [if_pos packed, unpacked]; rfl, fun j below => ?_⟩
    rw [bytes j (by omega), absBuf, if_pos below]
  · rw [LaneChunk, if_neg packed] at chunk
    subst chunk
    have inside := has.inside
    rw [List.length_map, List.length_range] at inside
    refine ⟨held.byte, ?_, fun j below => ?_⟩
    · rw [if_neg packed, Buffer.load_inside (by omega)]
      exact congrArg Except.ok (funext fun j => congrArg held.byte (Nat.zero_add j))
    · have byte := has.bytes j (by rw [List.length_map, List.length_range]; omega)
      rw [Nat.zero_add] at byte
      have small : j < 64 := by omega
      rw [byte, List.getD_eq_getElem?_getD, List.getElem?_map, List.getElem?_range small,
        Option.map_some, Option.getD_some, absBuf, if_pos below]

/-- The signs of a block are read back. -/
theorem loadSigns_ok {exSign : Buffer} (room : exSign.size = (packedSignBytes g.dim).toNat)
    (here : codes.Has (signPtr g l db) (laneSigns g.dim code db))
    (before : ∀ j, j < min (8 * db) (packedSignBytes g.dim).toNat →
      exSign.byte j = code.exSignPacked.getD j 0) :
    ∃ exSign', loadSigns g codes l db exSign = .ok exSign' ∧ exSign'.size = exSign.size ∧
      ∀ j, j < min (8 * (db + 1)) (packedSignBytes g.dim).toNat →
        exSign'.byte j = code.exSignPacked.getD j 0 := by
  have inside := here.inside
  rw [laneSigns, List.length_map, List.length_range] at inside
  rw [loadSigns]
  by_cases some : 0 < min 8 (exSign.size - 8 * db)
  · obtain ⟨exSign', stored, size, written, kept⟩ := @Buffer.store_spec exSign (8 * db)
      (min 8 (exSign.size - 8 * db)) (by omega) fun j => codes.byte (signPtr g l db + j)
    refine ⟨exSign', ?_, size, fun j below => ?_⟩
    · have loaded := @Buffer.load_inside codes (signPtr g l db)
        (min 8 (exSign.size - 8 * db)) (by omega)
      rw [signPtr] at loaded
      rw [if_pos some, loaded]
      exact congrArg Result.inBounds stored
    · by_cases early : j < 8 * db
      · rw [kept j (.inl early), before j (by omega)]
      · have place : j = 8 * db + (j - 8 * db) := by omega
        have byte := here.bytes (j - 8 * db) (by
          rw [laneSigns, List.length_map, List.length_range]
          omega)
        have small : j - 8 * db < 8 := by omega
        rw [laneSigns, List.getD_eq_getElem?_getD, List.getElem?_map, List.getElem?_range small,
          Option.map_some, Option.getD_some, ← place, if_pos (by omega)] at byte
        rw [← byte, ← written (j - 8 * db) (by omega), ← place]
  · refine ⟨exSign, if_neg some, rfl, fun j below => before j ?_⟩
    omega

/-- **One block is loaded.** -/
theorem LaneHeld.loads_block (held : LaneHeld g codes l code cursor) (build : Build)
    (below : db < (dimBlockCount g.dim).toNat) (blocks : 64 * db < g.dim.toNat) {s : LaneCodes}
    (done : LaneDone g code cursor db s) :
    ∃ s', loadDimBlock build g codes l s db = .ok s' ∧ LaneDone g code cursor (db + 1) s' := by
  obtain ⟨abs, bytes, absRun, chunk, has⟩ := held.chunks db below
  obtain ⟨found, magnitudes, same⟩ := chunk.reads build has
  have room := done.room
  obtain ⟨exCode, stored, size, written, kept⟩ := @Buffer.store_spec s.exCode (64 * db)
    (min 64 (g.dim.toNat - 64 * db)) (by omega) found
  have allCodes : ∀ j, j < min (64 * (db + 1)) g.dim.toNat →
      exCode.byte j = code.exCode.getD j 0 := by
    intro j inside
    by_cases early : j < 64 * db
    · rw [kept j (.inl early), done.codes j (by omega)]
    · have place : j = 64 * db + (j - 64 * db) := by omega
      rw [place, written (j - 64 * db) (by omega), same (j - 64 * db) (by omega)]
  rw [loadDimBlock]
  rw [done.cursor, absRun]
  dsimp only [Except.bind]
  rw [magnitudes]
  dsimp only
  rw [stored]
  dsimp only [Result.inBounds]
  cases official : g.config.usesOfficial1PlusN with
  | true =>
      refine ⟨⟨exCode, s.exSign, cursor (db + 1)⟩, rfl, size.trans room, allCodes, done.signRoom,
        fun j inside => ?_, rfl⟩
      rw [Storage.signRoom, if_pos official] at inside
      omega
  | false =>
      have signRoom := done.signRoom
      have signs := done.signs
      have width : Storage.signRoom g = (packedSignBytes g.dim).toNat :=
        if_neg (Bool.eq_false_iff.1 official)
      rw [width] at signRoom signs
      obtain ⟨exSign, loaded, size', allSigns⟩ := loadSigns_ok signRoom
        (held.signs official db below) signs
      refine ⟨⟨exCode, exSign, cursor (db + 1)⟩, ?_, size.trans room, allCodes, ?_, ?_, rfl⟩
      · rw [if_neg (by decide), loaded]
        rfl
      · rw [width]
        exact size'.trans signRoom
      · rw [width]
        exact allSigns

/-! ## All blocks -/

/-- The bytes that hold a list. -/
theorem bytesOf_eq {b : Buffer} {bytes : List UInt8} {n : ℕ} (length : bytes.length = n)
    (same : ∀ j, j < n → b.byte j = bytes.getD j 0) : bytesOf b n = bytes := by
  refine List.ext_getElem (by simp [bytesOf, length]) fun j below below' => ?_
  rw [bytesOf, List.length_map, List.length_range] at below
  simp only [bytesOf, List.getElem_map, List.getElem_range]
  rw [same j below, List.getD_eq_getElem _ _ below']

/-- **A lane is loaded as it was packed.** -/
theorem LaneHeld.loads (held : LaneHeld g codes l code cursor) (build : Build)
    (blocks : (dimBlockCount g.dim).toNat = (g.dim.toNat + 63) / 64)
    (signBytes : (packedSignBytes g.dim).toNat = (g.dim.toNat + 7) / 8)
    (length : code.exCode.length = g.dim.toNat)
    (signLength : g.config.usesOfficial1PlusN = false →
      code.exSignPacked.length = (packedSignBytes g.dim).toNat) {old : Buffer}
    (room : old.size = g.dim.toNat) :
    ∃ lane, (List.range (dimBlockCount g.dim).toNat).foldlM (loadDimBlock build g codes l)
        ⟨old, Buffer.zeros (signRoom g), cursor 0⟩ = .ok lane ∧
      bytesOf lane.exCode g.dim.toNat = code.exCode ∧
      bytesOf lane.exSign (signRoom g) =
        if g.config.usesOfficial1PlusN then [] else code.exSignPacked := by
  have start : LaneDone g code cursor 0 ⟨old, Buffer.zeros (signRoom g), cursor 0⟩ :=
    ⟨room, fun j inside => by omega, rfl, fun j inside => by omega, rfl⟩
  obtain ⟨lane, run, done⟩ := foldlM_range_ok (LaneDone g code cursor) start
    fun db s below done => held.loads_block build below (by omega) done
  refine ⟨lane, run, bytesOf_eq length fun j below => done.codes j (by omega), ?_⟩
  cases official : g.config.usesOfficial1PlusN with
  | true =>
      rw [signRoom, if_pos official]
      rfl
  | false =>
      have width : signRoom g = (packedSignBytes g.dim).toNat :=
        if_neg (Bool.eq_false_iff.1 official)
      have signs := done.signs
      rw [width] at signs
      rw [width, if_neg (by decide)]
      exact bytesOf_eq (signLength official) fun j below => signs j (by omega)

end Lane

end VecFetch.Storage
