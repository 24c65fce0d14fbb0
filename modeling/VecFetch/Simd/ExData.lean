/-
# Simd.ExData -- packing and unpacking extra codes

Each layout has a size function, a packer and an unpacker.  A packer refuses codes over
the width and memory below its size, zeroes the memory it is given and ors each code's
bits in; an unpacker assembles the codes again.  The memory given to a packer is exactly
the bytes it may write.

Sizes and bit positions are `uint32_t`, except for the tiles, whose size is summed in 64
bits.  The other counters stay below them and are natural numbers here.
-/
import VecFetch.Rabitq.ExDataLayout
import VecFetch.Theory.BitFields
import VecFetch.Theory.Lanes
import VecFetch.Simd.FastScanLut

namespace VecFetch.Simd

open VecFetch.Theory VecFetch.Rabitq

set_option autoImplicit false

/-! ## Size functions -/

def exRaBitQPackedMagnitudeBytes (dimBlock : UInt32) (bits : UInt8) : UInt32 :=
  if bits < 1 ∨ 4 < bits then 0 else (dimBlock * bits.toUInt32 + 7) / 8

def exRaBitQBitMajorTileDims (remainingDims : ℕ) : ℕ :=
  if remainingDims = 0 then 0
  else if 256 < remainingDims then 512
  else if 128 < remainingDims then 256
  else if 64 < remainingDims then 128
  else 64

/-- The loop of `ExRaBitQBitMajorTileVectorBytes`, from `done` dimensions and `bytes` on. -/
def tileVectorBytes (dim bits : ℕ) : ℕ → ℕ → ℕ → ℕ
  | 0, _, bytes => bytes
  | fuel + 1, done, bytes =>
      if done < dim then
        let tileDims := exRaBitQBitMajorTileDims (dim - done)
        if tileDims = 0 then 0
        else if 2 ^ 32 - 1 < bytes + bits * (tileDims / 8) then 0
        else tileVectorBytes dim bits fuel (done + min tileDims (dim - done))
          (bytes + bits * (tileDims / 8))
      else bytes

def exRaBitQBitMajorTileVectorBytes (dim : UInt32) (bits : UInt8) : UInt32 :=
  if bits < 1 ∨ 3 < bits then 0
  else UInt32.ofNat (tileVectorBytes dim.toNat bits.toNat dim.toNat 0 0)

def kOfficialDirect3DimBlock : UInt32 := 64
def kOfficialDirect3BytesPerLane : UInt32 := 24
def kOfficialNibble4GroupDims : UInt32 := 16
def kOfficialNibble4BytesPerGroup : UInt32 := 8
def kOfficial2BitDimBlock : UInt32 := 64
def kOfficial2BitBytesPerBlock : UInt32 := 16

/-- `(count + block - 1u) / block`. -/
def blocksOf (count block : UInt32) : UInt32 := (count + block - 1) / block

/-! ## Bytes of a code -/

/-- `packed[i / 4u] |= v << ((i % 4u) * 2u)`. -/
def pairOps (i : ℕ) (v : UInt8) : List (ℕ × UInt8) :=
  [(i / 4, UInt8.ofNat (v.toNat <<< (i % 4 * 2)))]

/-- The low byte of the shifted code, and the high byte where the code straddles. -/
def magnitudeOps (bits : UInt8) (i : ℕ) (v : UInt8) : List (ℕ × UInt8) :=
  let bitPos := (UInt32.ofNat i * bits.toUInt32).toNat
  let shifted := v.toNat <<< (bitPos % 8)
  (bitPos / 8, UInt8.ofNat shifted) ::
    if 8 < bitPos % 8 + bits.toNat then [(bitPos / 8 + 1, UInt8.ofNat (shifted >>> 8))] else []

/-- Two low bits among four codes of a byte, the high bit in a plane behind them. -/
def twoPlusOneOps (i : ℕ) (v : UInt8) : List (ℕ × UInt8) :=
  let dst := i / 64 * 24
  (dst + i % 64 / 4, UInt8.ofNat ((v.toNat &&& 0x03) <<< (i % 64 % 4 * 2))) ::
    if v.toNat &&& 0x04 ≠ 0 then [(dst + (16 + i % 64 / 8), UInt8.ofNat (1 <<< (i % 64 % 8)))]
    else []

/-- Bit `k` of the plane of each bit of the code, the planes `planeBytes` apart. -/
def planeOps (bits base planeBytes k : ℕ) (v : UInt8) : List (ℕ × UInt8) :=
  (List.range bits).flatMap fun bit =>
    if v.toNat &&& 1 <<< bit ≠ 0 then
      [(base + (bit * planeBytes + k / 8), UInt8.ofNat (1 <<< (k % 8)))]
    else []

def nibbleOps (i : ℕ) (v : UInt8) : List (ℕ × UInt8) :=
  [(i / 16 * 8 + (i % 16 &&& 7), UInt8.ofNat (v.toNat <<< (if 8 ≤ i % 16 then 4 else 0)))]

def twoBitOps (i : ℕ) (v : UInt8) : List (ℕ × UInt8) :=
  [(i / 64 * 16 + i % 64 % 16, UInt8.ofNat (v.toNat <<< (i % 64 / 16 * 2)))]

/-! ## Codes from bytes -/

/-- The byte at `k`, shifted and masked. -/
def readField (packed : Buffer) (k shift mask : ℕ) : Option UInt8 :=
  (packed.byteAt k).map fun byte => UInt8.ofNat (byte.toNat >>> shift &&& mask)

/-- Code `i` of `UnpackMagnitudesScalar`. -/
def readMagnitude (packed : Buffer) (bits : UInt8) (i : ℕ) : Option UInt8 :=
  if bits = 2 then readField packed (i / 4) (i % 4 * 2) 0x03
  else if bits = 4 then readField packed (i / 2) (i % 2 * 4) 0x0F
  else
    let bitPos := (UInt32.ofNat i * bits.toUInt32).toNat
    let window :=
      if 8 < bitPos % 8 + bits.toNat then
        (packed.byteAt (bitPos / 8)).bind fun low =>
          (packed.byteAt (bitPos / 8 + 1)).map fun high => low.toNat ||| high.toNat <<< 8
      else (packed.byteAt (bitPos / 8)).map UInt8.toNat
    window.map fun window => UInt8.ofNat (window >>> (bitPos % 8) &&& (2 ^ bits.toNat - 1))

def readTwoPlusOne (packed : Buffer) (i : ℕ) : Option UInt8 :=
  (readField packed (i / 64 * 24 + i % 64 / 4) (i % 64 % 4 * 2) 0x03).bind fun low =>
    (readField packed (i / 64 * 24 + (16 + i % 64 / 8)) (i % 64 % 8) 0x01).map fun high =>
      UInt8.ofNat (low.toNat ||| high.toNat <<< 2)

/-- The loop over the planes of a code. -/
def readPlaneBits (packed : Buffer) (base planeBytes k : ℕ) : ℕ → Option ℕ
  | 0 => some 0
  | bit + 1 =>
      (readPlaneBits packed base planeBytes k bit).bind fun v =>
        (readField packed (base + (bit * planeBytes + k / 8)) (k % 8) 0x01).map fun planeBit =>
          v ||| planeBit.toNat <<< bit

def readPlanes (packed : Buffer) (bits base planeBytes k : ℕ) : Option UInt8 :=
  (readPlaneBits packed base planeBytes k bits).map UInt8.ofNat

def readNibble (packed : Buffer) (i : ℕ) : Option UInt8 :=
  readField packed (i / 16 * 8 + (i % 16 &&& 7)) (if 8 ≤ i % 16 then 4 else 0) 0x0F

def readTwoBit (packed : Buffer) (i : ℕ) : Option UInt8 :=
  readField packed (i / 64 * 16 + i % 64 % 16) (i % 64 / 16 * 2) 0x03

/-! ## Generic magnitudes -/

def exRaBitQPackMagnitudes (decoded : ℕ → UInt8) (count : UInt32) (bits : UInt8)
    (packedBytes : UInt32) : Except Fault Buffer :=
  let expectedBytes := exRaBitQPackedMagnitudeBytes count bits
  if expectedBytes = 0 ∨ packedBytes < expectedBytes then .error .refused
  else if bits = 2 then packFields 3 decoded pairOps count.toNat (.zeros packedBytes.toNat)
  else
    packFields (2 ^ bits.toNat - 1) decoded (magnitudeOps bits) count.toNat
      (.zeros packedBytes.toNat)

/-- `UnpackBits4Simd`: 32 codes from 16 bytes at a time. -/
def unpackBits4Simd (packed : Buffer) (count : ℕ) (decoded : Buffer) : Option Buffer :=
  forRange (fun c decoded =>
    (packed.load (16 * c) 16).bind fun bytes =>
      let lo := (Register.ofBytes bytes).andByte 0x0F
      let hi := ((Register.ofBytes bytes).shiftRight 4).andByte 0x0F
      (decoded.store (32 * c) 16 (lo.unpack8 0 hi).byte).bind fun decoded =>
        decoded.store (32 * c + 16) 16 (lo.unpack8 8 hi).byte) (count / 32) decoded

/-- `UnpackBits2Simd`: 64 codes from 16 bytes at a time. -/
def unpackBits2Simd (packed : Buffer) (count : ℕ) (decoded : Buffer) : Option Buffer :=
  forRange (fun c decoded =>
    (packed.load (16 * c) 16).bind fun bytes =>
      let v0 := (Register.ofBytes bytes).andByte 0x03
      let v1 := ((Register.ofBytes bytes).shiftRight 2).andByte 0x03
      let v2 := ((Register.ofBytes bytes).shiftRight 4).andByte 0x03
      let v3 := ((Register.ofBytes bytes).shiftRight 6).andByte 0x03
      let a01Lo := v0.unpack8 0 v1
      let a01Hi := v0.unpack8 8 v1
      let a23Lo := v2.unpack8 0 v3
      let a23Hi := v2.unpack8 8 v3
      (decoded.store (64 * c) 16 (a01Lo.unpack16 0 a23Lo).byte).bind fun decoded =>
        (decoded.store (64 * c + 16) 16 (a01Lo.unpack16 4 a23Lo).byte).bind fun decoded =>
          (decoded.store (64 * c + 32) 16 (a01Hi.unpack16 0 a23Hi).byte).bind fun decoded =>
            decoded.store (64 * c + 48) 16 (a01Hi.unpack16 4 a23Hi).byte) (count / 64) decoded

/-- The vector loop of `ExRaBitQUnpackMagnitudes`, and where it stops. -/
def unpackMagnitudesSimd (build : Build) (packed : Buffer) (count : ℕ) (bits : UInt8)
    (decoded : Buffer) : Option (ℕ × Buffer) :=
  if build = .scalar then some (0, decoded)
  else if bits = 4 then (unpackBits4Simd packed count decoded).map fun out => (count / 32 * 32, out)
  else if bits = 2 then (unpackBits2Simd packed count decoded).map fun out => (count / 64 * 64, out)
  else some (0, decoded)

def exRaBitQUnpackMagnitudes (build : Build) (packed : Buffer) (count : UInt32) (bits : UInt8)
    (decoded : Buffer) : Except Fault Buffer :=
  if bits < 1 ∨ 4 < bits then .error .refused
  else orOutside ((unpackMagnitudesSimd build packed count.toNat bits decoded).bind fun simd =>
    unpackFields (readMagnitude packed bits) simd.1 count.toNat simd.2)

/-! ## Direct three-bit codes -/

def exRaBitQPackOfficialDirect3 (decoded : ℕ → UInt8) (count : UInt32)
    (layout : RaBitQExDataLayout) (packedBytes : UInt32) : Except Fault Buffer :=
  let effective := layout.resolveSelected
  let chunks := blocksOf count kOfficialDirect3DimBlock
  if effective ≠ .split3TwoPlusOne ∧ effective ≠ .split3Bitplanes then .error .refused
  else if chunks = 0 ∨ packedBytes < chunks * kOfficialDirect3BytesPerLane then .error .refused
  else
    packFields 7 decoded (fun i =>
      if effective = .split3TwoPlusOne then twoPlusOneOps i else planeOps 3 (i / 64 * 24) 8 (i % 64))
      count.toNat (.zeros packedBytes.toNat)

def exRaBitQUnpackOfficialDirect3 (packed : Buffer) (count : UInt32)
    (layout : RaBitQExDataLayout) (decoded : Buffer) : Except Fault Buffer :=
  let effective := layout.resolveSelected
  if effective ≠ .split3TwoPlusOne ∧ effective ≠ .split3Bitplanes then .error .refused
  else
    orOutside (unpackFields (fun i =>
      if effective = .split3TwoPlusOne then readTwoPlusOne packed i
      else readPlanes packed 3 (i / 64 * 24) 8 (i % 64)) 0 count.toNat decoded)

/-! ## Bitplanes -/

def exRaBitQPackOfficialDirectBitplanes (decoded : ℕ → UInt8) (count : UInt32) (bits : UInt8)
    (packedBytes : UInt32) : Except Fault Buffer :=
  let chunks := blocksOf count kOfficialDirect3DimBlock
  let bytesPerLane := exRaBitQPackedMagnitudeBytes kOfficialDirect3DimBlock bits
  if bits < 1 ∨ 4 < bits then .error .refused
  else if chunks = 0 ∨ bytesPerLane = 0 ∨ packedBytes < chunks * bytesPerLane then
    .error .refused
  else
    packFields (2 ^ bits.toNat - 1) decoded
      (fun i => planeOps bits.toNat (i / 64 * bytesPerLane.toNat) 8 (i % 64))
      count.toNat (.zeros packedBytes.toNat)

def exRaBitQUnpackOfficialDirectBitplanes (packed : Buffer) (count : UInt32) (bits : UInt8)
    (decoded : Buffer) : Except Fault Buffer :=
  let bytesPerLane := exRaBitQPackedMagnitudeBytes kOfficialDirect3DimBlock bits
  if bits < 1 ∨ 4 < bits then .error .refused
  else if bytesPerLane = 0 then .error .refused
  else
    orOutside (unpackFields (fun i =>
      readPlanes packed bits.toNat (i / 64 * bytesPerLane.toNat) 8 (i % 64)) 0 count.toNat decoded)

/-! ## Bit-major tiles -/

/-- The loop of the packer over the tiles, from `done` codes and the tile's address on. -/
def packTiles (decoded : ℕ → UInt8) (count bits : ℕ) : ℕ → ℕ → ℕ → Buffer → Except Fault Buffer
  | 0, _, _, packed => .ok packed
  | fuel + 1, done, tile, packed =>
      if done < count then
        let tileDims := exRaBitQBitMajorTileDims (count - done)
        let planeBytes := tileDims / 8
        let remaining := min tileDims (count - done)
        (packFields (2 ^ bits - 1) (fun i => decoded (done + i)) (planeOps bits tile planeBytes)
          remaining packed).bind
          (packTiles decoded count bits fuel (done + remaining) (tile + bits * planeBytes))
      else .ok packed

def exRaBitQPackOfficialBitMajorTiles (decoded : ℕ → UInt8) (count : UInt32) (bits : UInt8)
    (packedBytes : UInt32) : Except Fault Buffer :=
  let expectedBytes := exRaBitQBitMajorTileVectorBytes count bits
  if bits < 1 ∨ 3 < bits then .error .refused
  else if expectedBytes = 0 ∨ packedBytes < expectedBytes then .error .refused
  else packTiles decoded count.toNat bits.toNat count.toNat 0 0 (.zeros packedBytes.toNat)

/-- The loop of the unpacker over the tiles. -/
def unpackTiles (packed : Buffer) (count bits : ℕ) : ℕ → ℕ → ℕ → Buffer → Option Buffer
  | 0, _, _, decoded => some decoded
  | fuel + 1, done, tile, decoded =>
      if done < count then
        let tileDims := exRaBitQBitMajorTileDims (count - done)
        let planeBytes := tileDims / 8
        let remaining := min tileDims (count - done)
        (unpackFields (fun i => readPlanes packed bits tile planeBytes (i - done)) done
          (done + remaining) decoded).bind
          (unpackTiles packed count bits fuel (done + remaining) (tile + bits * planeBytes))
      else some decoded

def exRaBitQUnpackOfficialBitMajorTiles (packed : Buffer) (count : UInt32) (bits : UInt8)
    (decoded : Buffer) : Except Fault Buffer :=
  if bits < 1 ∨ 3 < bits then .error .refused
  else
    orOutside ((decoded.store 0 count.toNat fun _ => 0).bind
      (unpackTiles packed count.toNat bits.toNat count.toNat 0 0))

/-! ## Nibbles -/

def exRaBitQPackOfficialNibble4 (decoded : ℕ → UInt8) (count packedBytes : UInt32) :
    Except Fault Buffer :=
  let groups := blocksOf count kOfficialNibble4GroupDims
  if groups = 0 ∨ packedBytes < groups * kOfficialNibble4BytesPerGroup then .error .refused
  else packFields 0x0F decoded nibbleOps count.toNat (.zeros packedBytes.toNat)

def exRaBitQUnpackOfficialNibble4 (packed : Buffer) (count : UInt32) (decoded : Buffer) :
    Except Fault Buffer :=
  orOutside (unpackFields (readNibble packed) 0 count.toNat decoded)

/-! ## Two-bit codes -/

def exRaBitQPackOfficial2Bit (decoded : ℕ → UInt8) (count packedBytes : UInt32) :
    Except Fault Buffer :=
  let blocks := blocksOf count kOfficial2BitDimBlock
  if blocks = 0 ∨ packedBytes < blocks * kOfficial2BitBytesPerBlock then .error .refused
  else packFields 0x03 decoded twoBitOps count.toNat (.zeros packedBytes.toNat)

def exRaBitQUnpackOfficial2Bit (packed : Buffer) (count : UInt32) (decoded : Buffer) :
    Except Fault Buffer :=
  orOutside (unpackFields (readTwoBit packed) 0 count.toNat decoded)

end VecFetch.Simd
