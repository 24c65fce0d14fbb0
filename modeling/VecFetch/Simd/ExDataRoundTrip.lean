/-
# Simd.ExDataRoundTrip -- extra codes survive packing

For every layout and width: memory below the layout's size is refused, a code over the
width is refused, and what is packed unpacks to the same codes on every build, provided
the layout's size and bit positions stay below `2 ^ 32` (`round_trips_iff`).  The tiles,
whose size is summed in 64 bits, need no such proviso.
-/
import VecFetch.Simd.ExDataTiles

namespace VecFetch.Simd

open VecFetch.Theory VecFetch.Rabitq

set_option autoImplicit false

/-! ## The vector loops -/

section Vector

variable {count : ℕ} {packed decoded : Buffer}

/-- Bytes whose lanes, shifted and masked, are stored as codes. -/
theorem assembled_field {width shift i : ℕ} {bytes : ℕ → UInt8} {n : UInt16} {mask : UInt8}
    {base j : ℕ} (loaded : ∀ j, bytes j = packed.byte (base + j)) (amount : n.toNat = shift)
    (low : mask.toNat = 2 ^ width - 1) (room : shift + width ≤ 8)
    (placed : i * width = 8 * (base + j) + shift) :
    (magnitudePlaces count width).Assembled packed i
      ((((Register.ofBytes bytes).shiftRight n).andByte mask).byte j) := by
  intro t _
  rw [Register.field_byte bytes amount low room, loaded]
  by_cases inWidth : t < width
  · have byte : (i * width + t) / 8 = base + j := by omega
    have bit : (i * width + t) % 8 = shift + t := by omega
    rw [show (magnitudePlaces count width).place i t = i * width + t from rfl, Buffer.bit, byte, bit]
  · rw [decide_eq_false inWidth, Bool.false_and, Bool.false_and]

theorem unpackBits4Simd_spec (large : (count * 4 + 7) / 8 ≤ packed.size)
    (start : (magnitudePlaces count 4).Unpacked packed 0 decoded) :
    ∃ out, unpackBits4Simd packed count decoded = some out ∧
      (magnitudePlaces count 4).Unpacked packed (count / 32 * 32) out := by
  refine forRange_spec (fun c => (magnitudePlaces count 4).Unpacked packed (c * 32)) start ?_
  intro c decoded below before
  set bytes : ℕ → UInt8 := fun j => packed.byte (16 * c + j) with loaded
  have lo : ∀ {i j}, i * 4 = 8 * (16 * c + j) →
      (magnitudePlaces count 4).Assembled packed i
        (((Register.ofBytes bytes).andByte 0x0F).byte j) := by
    intro i j placed
    rw [← Register.shiftRight_zero (Register.ofBytes bytes)]
    exact @assembled_field count packed 4 0 i bytes 0 0x0F (16 * c) j (fun _ => rfl) rfl rfl
      (by omega) (by omega)
  have hi : ∀ {i j}, i * 4 = 8 * (16 * c + j) + 4 →
      (magnitudePlaces count 4).Assembled packed i
        ((((Register.ofBytes bytes).shiftRight 4).andByte 0x0F).byte j) := by
    intro i j placed
    exact @assembled_field count packed 4 4 i bytes 4 0x0F (16 * c) j (fun _ => rfl) rfl rfl
      (by omega) (by omega)
  have codes : ∀ first, first ≤ 8 → ∀ t, t < 16 →
      (magnitudePlaces count 4).Assembled packed (32 * c + 2 * first + t)
        ((((Register.ofBytes bytes).andByte 0x0F).unpack8 first
          (((Register.ofBytes bytes).shiftRight 4).andByte 0x0F)).byte t) := by
    intro first _ t _
    rw [Register.unpack8_byte]
    split
    · exact lo (by omega)
    · exact hi (by omega)
  rw [Nat.mul_comm c 32] at before
  obtain ⟨half, stored, next⟩ := before.store (by omega) (codes 0 (by omega))
  obtain ⟨after, stored', done⟩ := next.store (by omega) (codes 8 (by omega))
  refine ⟨after, ?_, by rwa [show 32 * c + 16 + 16 = (c + 1) * 32 by omega] at done⟩
  rw [Buffer.load_inside (by omega), Option.bind_some]
  dsimp only
  rw [← loaded, stored, Option.bind_some, stored']

theorem unpackBits2Simd_spec (large : (count * 2 + 7) / 8 ≤ packed.size)
    (start : (magnitudePlaces count 2).Unpacked packed 0 decoded) :
    ∃ out, unpackBits2Simd packed count decoded = some out ∧
      (magnitudePlaces count 2).Unpacked packed (count / 64 * 64) out := by
  refine forRange_spec (fun c => (magnitudePlaces count 2).Unpacked packed (c * 64)) start ?_
  intro c decoded below before
  set bytes : ℕ → UInt8 := fun j => packed.byte (16 * c + j) with loaded
  have field : ∀ shift n {i j}, UInt16.toNat n = shift → shift + 2 ≤ 8 →
      i * 2 = 8 * (16 * c + j) + shift →
      (magnitudePlaces count 2).Assembled packed i
        ((((Register.ofBytes bytes).shiftRight n).andByte 0x03).byte j) := by
    intro shift n i j amount room placed
    exact @assembled_field count packed 2 shift i bytes n 0x03 (16 * c) j (fun _ => rfl) amount
      rfl room placed
  have lo : ∀ {i j}, i * 2 = 8 * (16 * c + j) →
      (magnitudePlaces count 2).Assembled packed i
        (((Register.ofBytes bytes).andByte 0x03).byte j) := by
    intro i j placed
    rw [← Register.shiftRight_zero (Register.ofBytes bytes)]
    exact field 0 0 rfl (by omega) placed
  -- a byte of the interleaved pairs, in the order of the four stores
  have codes : ∀ first lane, first ≤ 8 → lane ≤ 4 → first % 8 = 0 → lane % 4 = 0 →
      ∀ t, t < 16 → (magnitudePlaces count 2).Assembled packed (64 * c + 4 * (first + lane) + t)
        (((((Register.ofBytes bytes).andByte 0x03).unpack8 first
            (((Register.ofBytes bytes).shiftRight 2).andByte 0x03)).unpack16 lane
          ((((Register.ofBytes bytes).shiftRight 4).andByte 0x03).unpack8 first
            (((Register.ofBytes bytes).shiftRight 6).andByte 0x03))).byte t) := by
    intro first lane _ _ _ _ t _
    rw [Register.unpack16_byte]
    split <;> rw [Register.unpack8_byte] <;> split
    · exact lo (by omega)
    · exact field 2 2 rfl (by omega) (by omega)
    · exact field 4 4 rfl (by omega) (by omega)
    · exact field 6 6 rfl (by omega) (by omega)
  rw [Nat.mul_comm c 64] at before
  obtain ⟨out₁, stored₁, next₁⟩ := before.store (by omega)
    (codes 0 0 (by omega) (by omega) rfl rfl)
  obtain ⟨out₂, stored₂, next₂⟩ := next₁.store (by omega) (codes 0 4 (by omega) (by omega) rfl rfl)
  obtain ⟨out₃, stored₃, next₃⟩ := next₂.store (by omega) (codes 8 0 (by omega) (by omega) rfl rfl)
  obtain ⟨after, stored₄, done⟩ := next₃.store (by omega) (codes 8 4 (by omega) (by omega) rfl rfl)
  refine ⟨after, ?_, by rwa [show 64 * c + 16 + 16 + 16 + 16 = (c + 1) * 64 by omega] at done⟩
  rw [Buffer.load_inside (by omega), Option.bind_some]
  dsimp only
  rw [← loaded, stored₁, Option.bind_some, stored₂, Option.bind_some, stored₃, Option.bind_some,
    stored₄]

end Vector

/-! ## The layouts -/

inductive ExDataCodec where
  | magnitudes (bits : UInt8)
  | direct3 (layout : RaBitQExDataLayout)
  | directBitplanes (bits : UInt8)
  | bitMajorTiles (bits : UInt8)
  | nibble4
  | twoBit

namespace ExDataCodec

/-- The widths and layouts a codec is for. -/
def Legal : ExDataCodec → Prop
  | magnitudes bits => 1 ≤ bits ∧ bits ≤ 4
  | direct3 layout => layout = .split3TwoPlusOne ∨ layout = .split3Bitplanes
  | directBitplanes bits => 1 ≤ bits ∧ bits ≤ 4
  | bitMajorTiles bits => 1 ≤ bits ∧ bits ≤ 3
  | nibble4 => True
  | twoBit => True

def width : ExDataCodec → ℕ
  | magnitudes bits => bits.toNat
  | direct3 _ => 3
  | directBitplanes bits => bits.toNat
  | bitMajorTiles bits => bits.toNat
  | nibble4 => 4
  | twoBit => 2

/-- The size function of the layout. -/
def sizeBytes (count : UInt32) : ExDataCodec → UInt32
  | magnitudes bits => exRaBitQPackedMagnitudeBytes count bits
  | direct3 _ => blocksOf count kOfficialDirect3DimBlock * kOfficialDirect3BytesPerLane
  | directBitplanes bits =>
      blocksOf count kOfficialDirect3DimBlock *
        exRaBitQPackedMagnitudeBytes kOfficialDirect3DimBlock bits
  | bitMajorTiles bits => exRaBitQBitMajorTileVectorBytes count bits
  | nibble4 => blocksOf count kOfficialNibble4GroupDims * kOfficialNibble4BytesPerGroup
  | twoBit => blocksOf count kOfficial2BitDimBlock * kOfficial2BitBytesPerBlock

def pack (decoded : ℕ → UInt8) (count packedBytes : UInt32) : ExDataCodec → Except Fault Buffer
  | magnitudes bits => exRaBitQPackMagnitudes decoded count bits packedBytes
  | direct3 layout => exRaBitQPackOfficialDirect3 decoded count layout packedBytes
  | directBitplanes bits => exRaBitQPackOfficialDirectBitplanes decoded count bits packedBytes
  | bitMajorTiles bits => exRaBitQPackOfficialBitMajorTiles decoded count bits packedBytes
  | nibble4 => exRaBitQPackOfficialNibble4 decoded count packedBytes
  | twoBit => exRaBitQPackOfficial2Bit decoded count packedBytes

def unpack (build : Build) (packed : Buffer) (count : UInt32) (decoded : Buffer) :
    ExDataCodec → Except Fault Buffer
  | magnitudes bits => exRaBitQUnpackMagnitudes build packed count bits decoded
  | direct3 layout => exRaBitQUnpackOfficialDirect3 packed count layout decoded
  | directBitplanes bits => exRaBitQUnpackOfficialDirectBitplanes packed count bits decoded
  | bitMajorTiles bits => exRaBitQUnpackOfficialBitMajorTiles packed count bits decoded
  | nibble4 => exRaBitQUnpackOfficialNibble4 packed count decoded
  | twoBit => exRaBitQUnpackOfficial2Bit packed count decoded

/-- Memory below the size is refused; otherwise codes are accepted when all fit the width
and refused when one does not.  The packer writes the memory it is given, the codes take
the bytes of the size and the rest is zero, and every build unpacks the codes again. -/
structure RoundTrips (codec : ExDataCodec) (count : UInt32) : Prop where
  small : ∀ decoded packedBytes, packedBytes < codec.sizeBytes count →
    codec.pack decoded count packedBytes = .error .refused
  accepts : ∀ decoded packedBytes, codec.sizeBytes count ≤ packedBytes →
    ((∃ packed, codec.pack decoded count packedBytes = .ok packed) ↔
      ∀ i, i < count.toNat → (decoded i).toNat < 2 ^ codec.width)
  refuses : ∀ decoded packedBytes, codec.sizeBytes count ≤ packedBytes →
    (∃ i, i < count.toNat ∧ 2 ^ codec.width ≤ (decoded i).toNat) →
    codec.pack decoded count packedBytes = .error .refused
  bytes : ∀ decoded packedBytes packed, codec.pack decoded count packedBytes = .ok packed →
    packed.size = packedBytes.toNat ∧
      ∀ k, (codec.sizeBytes count).toNat ≤ k → packed.byte k = 0
  unpacks : ∀ decoded packedBytes packed, codec.pack decoded count packedBytes = .ok packed →
    ∀ (build : Build) (memory : Buffer), memory.size = count.toNat →
      ∃ out, codec.unpack build packed count memory = .ok out ∧ out.size = count.toNat ∧
        ∀ i, i < count.toNat → out.byte i = decoded i

/-- No 32-bit size or bit position of the layout wraps. -/
def NoWrap (codec : ExDataCodec) (count : UInt32) : Prop :=
  match codec with
  | magnitudes bits => count.toNat * bits.toNat + 7 < 2 ^ 32
  | direct3 _ => count.toNat + 63 < 2 ^ 32
  | directBitplanes _ => count.toNat + 63 < 2 ^ 32
  | bitMajorTiles _ => True
  | nibble4 => count.toNat + 15 < 2 ^ 32
  | twoBit => count.toNat + 63 < 2 ^ 32

/-- A codec that keeps each code at its places: its packer ors bytes in that set the bits
there, its unpacker reads them there. -/
structure Placed (codec : ExDataCodec) (count : UInt32) where
  size : ℕ
  size_eq : (codec.sizeBytes count).toNat = size
  places : Places count.toNat codec.width size
  ops : ℕ → UInt8 → List (ℕ × UInt8)
  filled : places.Filled ops
  packs : ∀ decoded packedBytes, codec.pack decoded count packedBytes =
    if packedBytes.toNat < size then .error .refused
    else packFields (2 ^ codec.width - 1) decoded ops count.toNat (.zeros packedBytes.toNat)
  reads : ∀ build packed memory, size ≤ packed.size → memory.size = count.toNat →
    ∃ out, codec.unpack build packed count memory = .ok out ∧
      places.Unpacked packed count.toNat out

theorem Placed.round_trips {codec : ExDataCodec} {count : UInt32} (placed : codec.Placed count) :
    codec.RoundTrips count := by
  have positive : 0 < 2 ^ codec.width := Nat.pow_pos (by decide)
  have accepted : ∀ decoded packedBytes packed, codec.pack decoded count packedBytes = .ok packed →
      placed.size ≤ packedBytes.toNat ∧
        ∀ i, i < count.toNat → (decoded i).toNat < 2 ^ codec.width := by
    intro decoded packedBytes packed run
    rw [placed.packs] at run
    split at run
    · cases run
    · next room =>
        refine ⟨by omega, fun i below => ?_⟩
        have within := ((packFields_of_ok run).2 i below).1
        omega
  refine ⟨?_, ?_, ?_, ?_, ?_⟩
  · intro decoded packedBytes below
    rw [UInt32.lt_iff_toNat_lt, placed.size_eq] at below
    rw [placed.packs, if_pos below]
  · intro decoded packedBytes room
    rw [UInt32.le_iff_toNat_le, placed.size_eq] at room
    constructor
    · intro held
      obtain ⟨packed, run⟩ := held
      exact (accepted decoded packedBytes packed run).2
    · intro fits
      obtain ⟨packed, run, -⟩ := placed.filled.pack fits room
      exact ⟨packed, by rw [placed.packs, if_neg (by omega), run]⟩
  · intro decoded packedBytes room wide
    rw [UInt32.le_iff_toNat_le, placed.size_eq] at room
    obtain ⟨i, below, tooWide⟩ := wide
    rw [placed.packs, if_neg (by omega)]
    refine packFields_refused (fun j inside within op mem => ?_) ⟨i, below, by omega⟩
    exact Nat.lt_of_lt_of_le (placed.filled.inside inside (by omega) op mem) room
  · intro decoded packedBytes packed run
    obtain ⟨room, fits⟩ := accepted decoded packedBytes packed run
    obtain ⟨packed', run', same, beyond, -⟩ := placed.filled.pack fits room
    rw [placed.packs, if_neg (by omega), run'] at run
    cases run
    refine ⟨same, fun k past => byte_ext fun j bit => ?_⟩
    rw [placed.size_eq] at past
    have clear := beyond (8 * k + j) (by omega)
    rw [Buffer.bit, show (8 * k + j) / 8 = k by omega, show (8 * k + j) % 8 = j by omega] at clear
    rw [clear]
    exact (Nat.zero_testBit j).symm
  · intro decoded packedBytes packed run build memory whole
    obtain ⟨room, fits⟩ := accepted decoded packedBytes packed run
    obtain ⟨packed', run', same, -, held⟩ := placed.filled.pack fits room
    rw [placed.packs, if_neg (by omega), run'] at run
    cases run
    obtain ⟨out, read, unpacked⟩ := placed.reads build packed memory (by omega) whole
    exact ⟨out, read, unpacked.1, fun i below => Places.round_trip fits held unpacked below⟩

/-- The codes are unpacked from whatever holds the bytes that were packed. -/
theorem Placed.unpacks_from {codec : ExDataCodec} {count : UInt32} (placed : codec.Placed count)
    {decoded : ℕ → UInt8} {packedBytes : UInt32} {packed held : Buffer}
    (run : codec.pack decoded count packedBytes = .ok packed) (large : packed.size ≤ held.size)
    (same : ∀ k, k < packed.size → held.byte k = packed.byte k) (build : Build) {memory : Buffer}
    (whole : memory.size = count.toNat) :
    ∃ out, codec.unpack build held count memory = .ok out ∧ out.size = count.toNat ∧
      ∀ i, i < count.toNat → out.byte i = decoded i := by
  rw [placed.packs] at run
  split at run
  · cases run
  · next room =>
      have fits : ∀ i, i < count.toNat → (decoded i).toNat < 2 ^ codec.width := by
        intro i below
        have within := ((packFields_of_ok run).2 i below).1
        have positive : 0 < 2 ^ codec.width := Nat.pow_pos (by decide)
        omega
      obtain ⟨packed', run', size, -, bits⟩ := placed.filled.pack fits (Nat.not_lt.1 room)
      rw [run'] at run
      cases run
      obtain ⟨out, read, unpacked⟩ := placed.reads build held memory (by omega) whole
      refine ⟨out, read, unpacked.1, fun i below => Places.round_trip fits ?_ unpacked below⟩
      intro i b below inWidth
      have inside := placed.places.inside below inWidth
      rw [Buffer.bit, same _ (by omega)]
      exact bits i b below inWidth

/-! ## Each layout -/

theorem blocksOf_64 (count : UInt32) :
    (blocksOf count 64).toNat = (count.toNat + 63) % 2 ^ 32 / 64 := by
  have small := count.toNat_lt
  simp only [blocksOf, UInt32.toNat_div, UInt32.toNat_sub, UInt32.toNat_add, UInt32.reduceToNat]
  omega

theorem blocksOf_16 (count : UInt32) :
    (blocksOf count 16).toNat = (count.toNat + 15) % 2 ^ 32 / 16 := by
  have small := count.toNat_lt
  simp only [blocksOf, UInt32.toNat_div, UInt32.toNat_sub, UInt32.toNat_add, UInt32.reduceToNat]
  omega

theorem packedMagnitudeBytes_toNat {count : UInt32} {bits : UInt8} (legal : 1 ≤ bits ∧ bits ≤ 4) :
    (exRaBitQPackedMagnitudeBytes count bits).toNat =
      (count.toNat * bits.toNat + 7) % 2 ^ 32 / 8 := by
  have low := UInt8.le_iff_toNat_le.1 legal.1
  have high := UInt8.le_iff_toNat_le.1 legal.2
  have inRange : ¬ (bits < 1 ∨ 4 < bits) := by
    simp only [UInt8.lt_iff_toNat_lt]
    omega
  rw [exRaBitQPackedMagnitudeBytes, if_neg inRange, UInt32.toNat_div, UInt32.toNat_add,
    UInt32.toNat_mul, UInt8.toNat_toUInt32, Nat.mod_add_mod]
  rfl

/-- Nothing is unpacked yet. -/
theorem unpacked_none {count width size : ℕ} (places : Places count width size) (packed : Buffer)
    {memory : Buffer} (whole : memory.size = count) : places.Unpacked packed 0 memory :=
  ⟨whole, fun i below => absurd below (Nat.not_lt_zero i)⟩

/-- An unpacker that only loops over a reader. -/
theorem read_whole {count width size : ℕ} {places : Places count width size} {packed memory : Buffer}
    {read : ℕ → Option UInt8} (reads : places.Read packed read) (whole : memory.size = count) :
    ∃ out, orOutside (unpackFields read 0 count memory) = .ok out ∧
      places.Unpacked packed count out := by
  obtain ⟨out, run, unpacked⟩ :=
    reads.unpackFields (Nat.zero_le count) (unpacked_none places packed whole)
  exact ⟨out, by rw [run, orOutside], unpacked⟩

theorem pairs_filled (count : ℕ) : (magnitudePlaces count 2).Filled pairOps :=
  @filled_field count 2 _ (magnitudePlaces count 2) (fun i => i / 4) (fun i => i % 4 * 2)
    (fun i below => by omega) (fun i _ => by omega)
    fun i b => show i * 2 + b = 8 * (i / 4) + i % 4 * 2 + b by omega

/-- The vector loops unpack a prefix, the scalar loop the rest. -/
theorem unpackMagnitudes_spec {build : Build} {packed : Buffer} {count : UInt32} {bits : UInt8}
    {memory : Buffer} (legal : 1 ≤ bits ∧ bits ≤ 4)
    (counted : count.toNat * bits.toNat + 7 < 2 ^ 32)
    (large : (count.toNat * bits.toNat + 7) / 8 ≤ packed.size) (whole : memory.size = count.toNat) :
    ∃ out, exRaBitQUnpackMagnitudes build packed count bits memory = .ok out ∧
      (magnitudePlaces count.toNat bits.toNat).Unpacked packed count.toNat out := by
  have low := UInt8.le_iff_toNat_le.1 legal.1
  have high := UInt8.le_iff_toNat_le.1 legal.2
  have inRange : ¬ (bits < 1 ∨ 4 < bits) := by
    simp only [UInt8.lt_iff_toNat_lt]
    omega
  have start := unpacked_none (magnitudePlaces count.toNat bits.toNat) packed whole
  have vector : ∃ n out, unpackMagnitudesSimd build packed count.toNat bits memory = some (n, out) ∧
      n ≤ count.toNat ∧ (magnitudePlaces count.toNat bits.toNat).Unpacked packed n out := by
    unfold unpackMagnitudesSimd
    split
    · exact ⟨0, memory, rfl, Nat.zero_le _, start⟩
    · by_cases four : bits = 4
      · subst four
        obtain ⟨out, run, unpacked⟩ := unpackBits4Simd_spec large start
        exact ⟨_, out, by rw [if_pos rfl, run]; rfl, by omega, unpacked⟩
      · by_cases two : bits = 2
        · subst two
          obtain ⟨out, run, unpacked⟩ := unpackBits2Simd_spec large start
          exact ⟨_, out, by rw [if_neg four, if_pos rfl, run]; rfl, by omega, unpacked⟩
        · exact ⟨0, memory, by rw [if_neg four, if_neg two], Nat.zero_le _, start⟩
  obtain ⟨n, simd, run, below, unpacked⟩ := vector
  obtain ⟨out, rest, done⟩ :=
    (read_magnitudes high (by exact low) counted large).unpackFields below unpacked
  exact ⟨out, by rw [exRaBitQUnpackMagnitudes, if_neg inRange, run, Option.bind_some, rest, orOutside],
    done⟩

theorem packMagnitudes_eq {decoded : ℕ → UInt8} {count packedBytes : UInt32} {bits : UInt8}
    (legal : 1 ≤ bits ∧ bits ≤ 4) (some : 0 < (exRaBitQPackedMagnitudeBytes count bits).toNat) :
    exRaBitQPackMagnitudes decoded count bits packedBytes =
      if packedBytes.toNat < (exRaBitQPackedMagnitudeBytes count bits).toNat then .error .refused
      else packFields (2 ^ bits.toNat - 1) decoded (if bits = 2 then pairOps else magnitudeOps bits)
        count.toNat (.zeros packedBytes.toNat) := by
  have expected : exRaBitQPackedMagnitudeBytes count bits ≠ 0 := by
    intro none
    rw [none] at some
    exact absurd some (by decide)
  simp only [exRaBitQPackMagnitudes, expected, false_or, UInt32.lt_iff_toNat_lt]
  by_cases small : packedBytes.toNat < (exRaBitQPackedMagnitudeBytes count bits).toNat
  · rw [if_pos small, if_pos small]
  · rw [if_neg small, if_neg small]
    by_cases two : bits = 2
    · subst two
      rfl
    · rw [if_neg two, if_neg two]

theorem magnitudes_places {count : UInt32} {bits : UInt8} (legal : 1 ≤ bits ∧ bits ≤ 4)
    (nonempty : 0 < count.toNat) (counted : count.toNat * bits.toNat + 7 < 2 ^ 32) :
    Nonempty ((magnitudes bits).Placed count) := by
  have low := UInt8.le_iff_toNat_le.1 legal.1
  have high := UInt8.le_iff_toNat_le.1 legal.2
  have size := @packedMagnitudeBytes_toNat count bits legal
  rw [Nat.mod_eq_of_lt counted] at size
  have product : 0 < count.toNat * bits.toNat := Nat.mul_pos nonempty low
  refine ⟨⟨_, size, magnitudePlaces count.toNat bits.toNat,
    if bits = 2 then pairOps else magnitudeOps bits, ?_, fun decoded packedBytes => ?_,
    fun build packed memory large whole => unpackMagnitudes_spec legal counted large whole⟩⟩
  · by_cases two : bits = 2
    · subst two
      exact pairs_filled count.toNat
    · rw [if_neg two]
      exact filled_magnitudes low (Nat.le_trans high (by decide)) counted
  · rw [← size]
    exact packMagnitudes_eq legal (by omega)

theorem magnitudes_placed {count : UInt32} {bits : UInt8} (legal : 1 ≤ bits ∧ bits ≤ 4)
    (nonempty : 0 < count.toNat) (counted : count.toNat * bits.toNat + 7 < 2 ^ 32) :
    (magnitudes bits).RoundTrips count :=
  (magnitudes_places legal nonempty counted).elim Placed.round_trips

/-- The check of a packer whose size is a number of blocks times a block's bytes. -/
theorem blocks_check {blocks bytes packedBytes : UInt32} {size : ℕ} {run : Except Fault Buffer}
    (sized : (blocks * bytes).toNat = size) (some : blocks ≠ 0) :
    (if blocks = 0 ∨ packedBytes < blocks * bytes then .error .refused else run) =
      if packedBytes.toNat < size then .error .refused else run := by
  simp only [some, false_or, UInt32.lt_iff_toNat_lt, sized]

theorem ne_zero_of_toNat {n : UInt32} (positive : 0 < n.toNat) : n ≠ 0 := by
  intro zero
  rw [zero] at positive
  exact absurd positive (by decide)

theorem direct3_places {count : UInt32} {layout : RaBitQExDataLayout}
    (legal : layout = .split3TwoPlusOne ∨ layout = .split3Bitplanes) (nonempty : 0 < count.toNat)
    (counted : count.toNat + 63 < 2 ^ 32) : Nonempty ((direct3 layout).Placed count) := by
  have chunks := blocksOf_64 count
  rw [Nat.mod_eq_of_lt counted] at chunks
  have size : (blocksOf count kOfficialDirect3DimBlock * kOfficialDirect3BytesPerLane).toNat =
      (count.toNat + 63) / 64 * 24 := by
    simp only [UInt32.toNat_mul, kOfficialDirect3DimBlock, chunks, kOfficialDirect3BytesPerLane,
      UInt32.reduceToNat]
    omega
  have some : blocksOf count kOfficialDirect3DimBlock ≠ 0 :=
    ne_zero_of_toNat (by rw [kOfficialDirect3DimBlock, chunks]; omega)
  rcases legal with rfl | rfl
  · refine ⟨⟨_, size, twoPlusOnePlaces count.toNat, twoPlusOneOps,
      filled_twoPlusOne count.toNat, fun decoded packedBytes => ?_,
      fun build packed memory large whole => read_whole (read_twoPlusOne large) whole⟩⟩
    exact blocks_check size some
  · have planes : (count.toNat - 1) / (8 * 8) * (8 * 3) + 3 * 8 = (count.toNat + 63) / 64 * 24 :=
      wholeChunks_size nonempty 3
    refine ⟨⟨_, size.trans planes.symm, (wholeChunks count.toNat).places 3,
      fun i => planeOps 3 (i / 64 * 24) 8 (i % 64), ?_, fun decoded packedBytes => ?_,
      fun build packed memory large whole => ?_⟩⟩
    · exact filled_planes fun _ _ => rfl
    · rw [planes]
      exact blocks_check size some
    · exact read_whole (read_planes large fun _ _ => rfl) whole

theorem direct3_placed {count : UInt32} {layout : RaBitQExDataLayout}
    (legal : layout = .split3TwoPlusOne ∨ layout = .split3Bitplanes) (nonempty : 0 < count.toNat)
    (counted : count.toNat + 63 < 2 ^ 32) : (direct3 layout).RoundTrips count :=
  (direct3_places legal nonempty counted).elim Placed.round_trips

theorem bytesPerLane_eq {bits : UInt8} (legal : 1 ≤ bits ∧ bits ≤ 4) :
    (exRaBitQPackedMagnitudeBytes kOfficialDirect3DimBlock bits).toNat = 8 * bits.toNat := by
  have high := UInt8.le_iff_toNat_le.1 legal.2
  rw [packedMagnitudeBytes_toNat legal]
  simp only [kOfficialDirect3DimBlock, UInt32.reduceToNat, UInt8.reduceToNat] at high ⊢
  omega

theorem directBitplanes_places {count : UInt32} {bits : UInt8} (legal : 1 ≤ bits ∧ bits ≤ 4)
    (nonempty : 0 < count.toNat) (counted : count.toNat + 63 < 2 ^ 32) :
    Nonempty ((directBitplanes bits).Placed count) := by
  have low := UInt8.le_iff_toNat_le.1 legal.1
  have high := UInt8.le_iff_toNat_le.1 legal.2
  have inRange : ¬ (bits < 1 ∨ 4 < bits) := by
    simp only [UInt8.lt_iff_toNat_lt]
    omega
  have chunks := blocksOf_64 count
  rw [Nat.mod_eq_of_lt counted] at chunks
  have lane := bytesPerLane_eq legal
  have small : (count.toNat + 63) / 64 * (8 * bits.toNat) ≤ (count.toNat + 63) / 64 * (8 * 4) :=
    Nat.mul_le_mul_left _ (Nat.mul_le_mul_left _ high)
  have size : (blocksOf count kOfficialDirect3DimBlock *
      exRaBitQPackedMagnitudeBytes kOfficialDirect3DimBlock bits).toNat =
      (count.toNat + 63) / 64 * (8 * bits.toNat) := by
    rw [UInt32.toNat_mul, lane, kOfficialDirect3DimBlock, chunks]
    exact Nat.mod_eq_of_lt (by omega)
  have some : blocksOf count kOfficialDirect3DimBlock ≠ 0 :=
    ne_zero_of_toNat (by rw [kOfficialDirect3DimBlock, chunks]; omega)
  have laneSome : exRaBitQPackedMagnitudeBytes kOfficialDirect3DimBlock bits ≠ 0 :=
    ne_zero_of_toNat (by rw [lane]; exact Nat.mul_pos (by decide) low)
  have planes := wholeChunks_size nonempty bits.toNat
  refine ⟨⟨_, size.trans planes.symm, (wholeChunks count.toNat).places bits.toNat,
    fun i => planeOps bits.toNat (i / 64 * (8 * bits.toNat)) 8 (i % 64), ?_,
    fun decoded packedBytes => ?_, fun build packed memory large whole => ?_⟩⟩
  · exact filled_planes fun _ _ => rfl
  · simp only [pack, exRaBitQPackOfficialDirectBitplanes, if_neg inRange, laneSome, false_or, lane]
    rw [planes]
    exact blocks_check size some
  · simp only [unpack, exRaBitQUnpackOfficialDirectBitplanes, if_neg inRange, if_neg laneSome, lane]
    exact read_whole (read_planes large fun _ _ => rfl) whole

theorem directBitplanes_placed {count : UInt32} {bits : UInt8} (legal : 1 ≤ bits ∧ bits ≤ 4)
    (nonempty : 0 < count.toNat) (counted : count.toNat + 63 < 2 ^ 32) :
    (directBitplanes bits).RoundTrips count :=
  (directBitplanes_places legal nonempty counted).elim Placed.round_trips

theorem bitMajorTiles_places {count : UInt32} {bits : UInt8} (legal : 1 ≤ bits ∧ bits ≤ 3)
    (nonempty : 0 < count.toNat) : Nonempty ((bitMajorTiles bits).Placed count) := by
  have low := UInt8.le_iff_toNat_le.1 legal.1
  have high := UInt8.le_iff_toNat_le.1 legal.2
  simp only [UInt8.reduceToNat] at low high
  have inRange : ¬ (bits < 1 ∨ 3 < bits) := by
    simp only [UInt8.lt_iff_toNat_lt, UInt8.reduceToNat]
    omega
  have summed := @tileVectorBytes_eq count.toNat bits.toNat high count.toNat_lt count.toNat 0
    nonempty (by omega)
  rw [Nat.zero_mul, Nat.mul_zero] at summed
  have plane : 8 ≤ tilePlane count.toNat ((count.toNat - 1) / 512) ∧
      tilePlane count.toNat ((count.toNat - 1) / 512) ≤ 64 := by
    have some := @tileDims_positive (count.toNat - 512 * ((count.toNat - 1) / 512)) (by omega)
    have most := tileDims_le (count.toNat - 512 * ((count.toNat - 1) / 512))
    rw [tilePlane]
    omega
  have tail : bits.toNat * tilePlane count.toNat ((count.toNat - 1) / 512) ≤ 3 * 64 :=
    Nat.mul_le_mul high plane.2
  have tail' : 1 * 8 ≤ bits.toNat * tilePlane count.toNat ((count.toNat - 1) / 512) :=
    Nat.mul_le_mul low plane.1
  have front : (count.toNat - 1) / 512 * (64 * bits.toNat) ≤ (count.toNat - 1) / 512 * (64 * 3) :=
    Nat.mul_le_mul_left _ (Nat.mul_le_mul_left _ high)
  have small := count.toNat_lt
  have size : (exRaBitQBitMajorTileVectorBytes count bits).toNat =
      (count.toNat - 1) / 512 * (64 * bits.toNat) +
        bits.toNat * tilePlane count.toNat ((count.toNat - 1) / 512) := by
    rw [exRaBitQBitMajorTileVectorBytes, if_neg inRange, UInt32.toNat_ofNat', summed]
    exact Nat.mod_eq_of_lt (by omega)
  have some : exRaBitQBitMajorTileVectorBytes count bits ≠ 0 :=
    ne_zero_of_toNat (by rw [size]; omega)
  refine ⟨⟨_, size, tilePlaces count.toNat bits.toNat,
    tileOps count.toNat bits.toNat, ?_, fun decoded packedBytes => ?_,
    fun build packed memory large whole => ?_⟩⟩
  · exact filled_planes (tile_placed count.toNat bits.toNat)
  · have packs := @packTiles_eq decoded count.toNat bits.toNat count.toNat 0
      (.zeros packedBytes.toNat) nonempty (by omega)
    simp only [Nat.zero_mul, Nat.mul_zero, Nat.zero_add, Nat.sub_zero] at packs
    simp only [pack, exRaBitQPackOfficialBitMajorTiles, if_neg inRange, some, false_or,
      UInt32.lt_iff_toNat_lt, size, packs]
    rfl
  · obtain ⟨cleared, stored, same, -⟩ :=
      @Buffer.store_spec memory 0 count.toNat (by omega) fun _ => 0
    obtain ⟨out, run, unpacked⟩ := @unpackTiles_spec packed count.toNat bits.toNat large
      count.toNat 0 cleared nonempty (by omega) (unpacked_none _ packed (same.trans whole))
    rw [Nat.zero_mul, Nat.mul_zero] at run
    exact ⟨out, by simp only [unpack, exRaBitQUnpackOfficialBitMajorTiles, if_neg inRange, stored,
      Option.bind_some, run, orOutside], unpacked⟩

theorem bitMajorTiles_placed {count : UInt32} {bits : UInt8} (legal : 1 ≤ bits ∧ bits ≤ 3)
    (nonempty : 0 < count.toNat) : (bitMajorTiles bits).RoundTrips count :=
  (bitMajorTiles_places legal nonempty).elim Placed.round_trips

/-- Two codes of a byte: the first eight of a group in the low nibbles. -/
def nibblePlaces (count : ℕ) : Places count 4 ((count + 15) / 16 * 8) where
  place i b := 8 * (i / 16 * 8 + i % 8) + (if 8 ≤ i % 16 then 4 else 0) + b
  inside := by
    intro i b below inWidth
    split <;> omega
  apart := by
    intro i b i' b' below inWidth below' inWidth' same
    split at same <;> split at same <;> omega

theorem low_three (n : ℕ) : n % 16 &&& 7 = n % 8 := by
  rw [show (7 : ℕ) = 2 ^ 3 - 1 from rfl, Nat.and_two_pow_sub_one_eq_mod]
  omega

theorem nibble4_places {count : UInt32} (nonempty : 0 < count.toNat)
    (counted : count.toNat + 15 < 2 ^ 32) : Nonempty (nibble4.Placed count) := by
  have groups := blocksOf_16 count
  rw [Nat.mod_eq_of_lt counted] at groups
  have size : (blocksOf count kOfficialNibble4GroupDims * kOfficialNibble4BytesPerGroup).toNat =
      (count.toNat + 15) / 16 * 8 := by
    simp only [UInt32.toNat_mul, kOfficialNibble4GroupDims, groups, kOfficialNibble4BytesPerGroup,
      UInt32.reduceToNat]
    omega
  have some : blocksOf count kOfficialNibble4GroupDims ≠ 0 :=
    ne_zero_of_toNat (by rw [kOfficialNibble4GroupDims, groups]; omega)
  have inside : ∀ i, i < count.toNat → i / 16 * 8 + (i % 16 &&& 7) < (count.toNat + 15) / 16 * 8 := by
    intro i below
    rw [low_three]
    omega
  have room : ∀ i, i < count.toNat → (if 8 ≤ i % 16 then 4 else 0) + 4 ≤ 8 := by
    intro i _
    split <;> omega
  have placed : ∀ i b, (nibblePlaces count.toNat).place i b =
      8 * (i / 16 * 8 + (i % 16 &&& 7)) + (if 8 ≤ i % 16 then 4 else 0) + b := by
    intro i b
    rw [low_three]
    rfl
  refine ⟨⟨_, size, nibblePlaces count.toNat, nibbleOps,
    filled_field inside room placed, fun decoded packedBytes => blocks_check size some,
    fun build packed memory large whole => read_whole ?_ whole⟩⟩
  exact read_field large rfl inside room placed

theorem nibble4_placed {count : UInt32} (nonempty : 0 < count.toNat)
    (counted : count.toNat + 15 < 2 ^ 32) : nibble4.RoundTrips count :=
  (nibble4_places nonempty counted).elim Placed.round_trips

theorem quarters_apart {i b i' b' : ℕ} (inWidth : b < 2) (inWidth' : b' < 2)
    (same : 8 * (i / 64 * 16 + i % 64 % 16) + i % 64 / 16 * 2 + b =
      8 * (i' / 64 * 16 + i' % 64 % 16) + i' % 64 / 16 * 2 + b') : i = i' ∧ b = b' := by
  have quarter : i % 64 / 16 < 4 := Nat.div_lt_of_lt_mul (Nat.mod_lt i (by decide))
  have quarter' : i' % 64 / 16 < 4 := Nat.div_lt_of_lt_mul (Nat.mod_lt i' (by decide))
  rw [Nat.add_assoc, Nat.add_assoc] at same
  obtain ⟨byte, field⟩ := digits_apart (by omega) (by omega) same
  rw [Nat.mul_comm, Nat.mul_comm (i' / 64)] at byte
  obtain ⟨chunk, lane⟩ := digits_apart (Nat.mod_lt _ (by decide)) (Nat.mod_lt _ (by decide)) byte
  rw [Nat.mul_comm, Nat.mul_comm (i' % 64 / 16)] at field
  obtain ⟨quarterSame, bit⟩ := digits_apart inWidth inWidth' field
  refine ⟨?_, bit⟩
  calc i = 64 * (i / 64) + (16 * (i % 64 / 16) + i % 64 % 16) := by
        rw [Nat.div_add_mod, Nat.div_add_mod]
    _ = i' := by rw [chunk, quarterSame, lane, Nat.div_add_mod, Nat.div_add_mod]

/-- Four codes of a byte, 16 apart. -/
def twoBitPlaces (count : ℕ) : Places count 2 ((count + 63) / 64 * 16) where
  place i b := 8 * (i / 64 * 16 + i % 64 % 16) + i % 64 / 16 * 2 + b
  inside := by
    intro i b below inWidth
    omega
  apart := fun _ inWidth _ inWidth' same => quarters_apart inWidth inWidth' same

theorem twoBit_places {count : UInt32} (nonempty : 0 < count.toNat)
    (counted : count.toNat + 63 < 2 ^ 32) : Nonempty (twoBit.Placed count) := by
  have blocks := blocksOf_64 count
  rw [Nat.mod_eq_of_lt counted] at blocks
  have size : (blocksOf count kOfficial2BitDimBlock * kOfficial2BitBytesPerBlock).toNat =
      (count.toNat + 63) / 64 * 16 := by
    simp only [UInt32.toNat_mul, kOfficial2BitDimBlock, blocks, kOfficial2BitBytesPerBlock,
      UInt32.reduceToNat]
    omega
  have some : blocksOf count kOfficial2BitDimBlock ≠ 0 :=
    ne_zero_of_toNat (by rw [kOfficial2BitDimBlock, blocks]; omega)
  have inside : ∀ i, i < count.toNat → i / 64 * 16 + i % 64 % 16 < (count.toNat + 63) / 64 * 16 := by
    intro i below
    omega
  have room : ∀ i, i < count.toNat → i % 64 / 16 * 2 + 2 ≤ 8 := by
    intro i _
    omega
  have placed : ∀ i b, (twoBitPlaces count.toNat).place i b =
      8 * (i / 64 * 16 + i % 64 % 16) + i % 64 / 16 * 2 + b := fun _ _ => rfl
  refine ⟨⟨_, size, twoBitPlaces count.toNat, twoBitOps,
    filled_field inside room placed, fun decoded packedBytes => blocks_check size some,
    fun build packed memory large whole => read_whole ?_ whole⟩⟩
  exact read_field large rfl inside room placed

theorem twoBit_placed {count : UInt32} (nonempty : 0 < count.toNat)
    (counted : count.toNat + 63 < 2 ^ 32) : twoBit.RoundTrips count :=
  (twoBit_places nonempty counted).elim Placed.round_trips

/-- **The codes of every layout have places.** -/
theorem codec_places {codec : ExDataCodec} {count : UInt32} (legal : codec.Legal)
    (nonempty : 0 < count.toNat) (counted : codec.NoWrap count) :
    Nonempty (codec.Placed count) := by
  cases codec with
  | magnitudes bits => exact magnitudes_places legal nonempty counted
  | direct3 layout => exact direct3_places legal nonempty counted
  | directBitplanes bits => exact directBitplanes_places legal nonempty counted
  | bitMajorTiles bits => exact bitMajorTiles_places legal nonempty
  | nibble4 => exact nibble4_places nonempty counted
  | twoBit => exact twoBit_places nonempty counted

/-! ## Where a size wraps -/

/-- Codes of zeros fit every width. -/
theorem RoundTrips.packs_zeros {codec : ExDataCodec} {count : UInt32} (trips : codec.RoundTrips count) :
    ∃ packed, codec.pack (fun _ => 0) count (codec.sizeBytes count) = .ok packed :=
  (trips.accepts _ _ (UInt32.le_refl _)).2 fun _ _ => Nat.pow_pos (by decide)

theorem blocks_wrapped {count : UInt32} (wraps : ¬ count.toNat + 63 < 2 ^ 32) :
    blocksOf count 64 = 0 := by
  have small := count.toNat_lt
  rw [← UInt32.toNat_inj, blocksOf_64, UInt32.toNat_zero]
  omega

/-- Where the size of the magnitudes wraps, it is zero or a code lies beyond it. -/
theorem magnitudes_wrapped {count : UInt32} {bits : UInt8} (legal : 1 ≤ bits ∧ bits ≤ 4)
    (wraps : ¬ count.toNat * bits.toNat + 7 < 2 ^ 32) {packed : Buffer} :
    exRaBitQPackMagnitudes (fun _ => 0) count bits (exRaBitQPackedMagnitudeBytes count bits) ≠
      .ok packed := by
  intro run
  have low := UInt8.le_iff_toNat_le.1 legal.1
  have high := UInt8.le_iff_toNat_le.1 legal.2
  simp only [UInt8.reduceToNat] at low high
  have small := count.toNat_lt
  have size := @packedMagnitudeBytes_toNat count bits legal
  by_cases none : (exRaBitQPackedMagnitudeBytes count bits).toNat = 0
  · have zero : exRaBitQPackedMagnitudeBytes count bits = 0 := UInt32.toNat_inj.1 none
    rw [exRaBitQPackMagnitudes, if_pos (.inl zero)] at run
    cases run
  · rw [packMagnitudes_eq legal (by omega), if_neg (Nat.lt_irrefl _)] at run
    have inside := (packFields_of_ok run).2
    rw [size] at inside none
    by_cases two : bits = 2
    · subst two
      simp only [UInt8.reduceToNat] at wraps inside none
      have last := (inside (count.toNat - 1) (by omega)).2
      rw [if_pos trivial] at last
      have byte := last _ (List.mem_singleton_self _)
      simp only [Buffer.zeros] at byte
      omega
    · rw [if_neg two] at inside
      -- the last code that starts below `2 ^ 32` starts in the last byte below it
      have starts : (2 ^ 32 - 1) / bits.toNat * bits.toNat ≤ 2 ^ 32 - 1 := Nat.div_mul_le_self _ _
      have late : 2 ^ 32 - 1 < (2 ^ 32 - 1) / bits.toNat * bits.toNat + bits.toNat :=
        Nat.lt_div_mul_add low
      have below : (2 ^ 32 - 1) / bits.toNat < count.toNat := by
        by_contra beyond
        have product : count.toNat * bits.toNat ≤ (2 ^ 32 - 1) / bits.toNat * bits.toNat :=
          Nat.mul_le_mul_right _ (by omega)
        omega
      have byte := (inside _ below).2 _ List.mem_cons_self
      have counter : (UInt32.ofNat ((2 ^ 32 - 1) / bits.toNat) * bits.toUInt32).toNat =
          (2 ^ 32 - 1) / bits.toNat * bits.toNat := by
        rw [UInt32.toNat_mul, UInt32.toNat_ofNat', UInt8.toNat_toUInt32, Nat.mod_mul_mod]
        exact Nat.mod_eq_of_lt (by omega)
      simp only [counter, Buffer.zeros] at byte
      omega

/-- **Extra codes survive packing** in every layout exactly where the layout's 32-bit
sizes and positions do not wrap. -/
theorem round_trips_iff {codec : ExDataCodec} {count : UInt32} (legal : codec.Legal)
    (nonempty : 0 < count) : codec.RoundTrips count ↔ codec.NoWrap count := by
  have some : 0 < count.toNat := UInt32.lt_iff_toNat_lt.1 nonempty
  constructor
  · intro trips
    obtain ⟨packed, run⟩ := trips.packs_zeros
    by_contra wraps
    cases codec with
    | magnitudes bits => exact magnitudes_wrapped legal wraps run
    | direct3 layout =>
        simp only [pack, exRaBitQPackOfficialDirect3, kOfficialDirect3DimBlock,
          blocks_wrapped wraps, true_or, if_true, ite_self] at run
        cases run
    | directBitplanes bits =>
        simp only [pack, exRaBitQPackOfficialDirectBitplanes, kOfficialDirect3DimBlock,
          blocks_wrapped wraps, true_or, if_true, ite_self] at run
        cases run
    | bitMajorTiles bits => exact wraps trivial
    | nibble4 =>
        have none : blocksOf count 16 = 0 := by
          have small := count.toNat_lt
          simp only [NoWrap] at wraps
          rw [← UInt32.toNat_inj, blocksOf_16, UInt32.toNat_zero]
          omega
        simp only [pack, exRaBitQPackOfficialNibble4, kOfficialNibble4GroupDims, none, true_or,
          if_true] at run
        cases run
    | twoBit =>
        simp only [pack, exRaBitQPackOfficial2Bit, kOfficial2BitDimBlock, blocks_wrapped wraps,
          true_or, if_true] at run
        cases run
  · intro counted
    cases codec with
    | magnitudes bits => exact magnitudes_placed legal some counted
    | direct3 layout => exact direct3_placed legal some counted
    | directBitplanes bits => exact directBitplanes_placed legal some counted
    | bitMajorTiles bits => exact bitMajorTiles_placed legal some
    | nibble4 => exact nibble4_placed some counted
    | twoBit => exact twoBit_placed some counted

/-- Sixty-four magnitudes of four bits. -/
theorem round_trips_64 : (magnitudes 4).RoundTrips 64 := by
  have legal : (magnitudes 4).Legal := ⟨by decide, by decide⟩
  exact (round_trips_iff legal (by decide)).2 (show 64 * 4 + 7 < 2 ^ 32 by decide)

/-- The size of `2 ^ 30` magnitudes of four bits wraps to zero, and codes of zeros are
refused. -/
theorem magnitudes_refused : ¬ (magnitudes 4).RoundTrips 1073741824 := by
  intro trips
  obtain ⟨packed, run⟩ := (trips.accepts (fun _ => 0) 0 (by decide)).2 fun _ _ => by decide
  have refused : exRaBitQPackMagnitudes (fun _ => 0) 1073741824 4 0 = .error .refused := rfl
  simp only [pack, refused] at run
  cases run

end ExDataCodec

end VecFetch.Simd
