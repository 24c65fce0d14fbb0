/-
# Codec.Bitpack -- fixed-width fields in a bit stream

`BitpackCodec::Encode` writes value `i` to the bits from `i * bit_width` on, least
significant first, byte by byte; `BitUnpack` reads them back.  Both count bits in a
`uint32_t`, so a field's bits lie at positions modulo `2 ^ 32` (`fieldBit`), and fields
that meet there are or-ed (`encode_spec`).
-/
import VecFetch.Theory.Bits
import VecFetch.Theory.Emit
import VecFetch.Simd.FastScanLut

namespace VecFetch.Codec

open VecFetch.Theory VecFetch.Simd

set_option autoImplicit false

/-! ## Bit widths -/

/-- The loop of `ComputeMinBitWidth`: shift until nothing is left, at most 32 times. -/
def countBits : ℕ → UInt32 → UInt8
  | 0, _ => 0
  | n + 1, shifted => if shifted = 0 then 0 else countBits n (shifted >>> 1) + 1

/-- The largest value, by the loop `if (values[i] > max_val) max_val = values[i]`. -/
def maxValue (values : List UInt32) : UInt32 :=
  values.foldl (fun maxVal v => if maxVal < v then v else maxVal) 0

/-- `BitpackCodec::ComputeMinBitWidth`. -/
def computeMinBitWidth (values : List UInt32) (maxPackableValue : UInt32) : UInt8 :=
  if values.isEmpty then 1
  else if maxPackableValue < maxValue values then 0
  else if maxValue values = 0 then 1
  else countBits 32 (maxValue values)

/-- `BitpackCodec::EncodedSize`. -/
def encodedSize (count : UInt32) (bitWidth : UInt8) : UInt32 :=
  ((count.toUInt64 * bitWidth.toUInt64 + 7) / 8).toUInt32

/-! ## Encoding -/

/-- The inner loop of `Encode`: or `bitsRemaining` bits of `val` in from `curBit` on. -/
def writeBits : ℕ → ℕ → ℕ → UInt32 → Buffer → Option Buffer
  | 0, _, _, _, packed => some packed
  | fuel + 1, val, bitsRemaining, curBit, packed =>
      if 0 < bitsRemaining then
        let byteIdx := curBit.toNat / 8
        let bitOff := curBit.toNat % 8
        let toWrite := min (8 - bitOff) bitsRemaining
        let mask := 2 ^ toWrite - 1
        (packed.orAt (byteIdx, UInt8.ofNat ((val &&& mask) <<< bitOff))).bind
          (writeBits fuel (val >>> toWrite) (bitsRemaining - toWrite)
            (curBit + UInt32.ofNat toWrite))
      else some packed

/-- The loop of `Encode` over the values. -/
def writeValues (bitWidth : UInt8) : List UInt32 → UInt32 → Buffer → Option Buffer
  | [], _, packed => some packed
  | v :: values, bitPos, packed =>
      (writeBits bitWidth.toNat v.toNat bitWidth.toNat bitPos packed).bind
        (writeValues bitWidth values (bitPos + bitWidth.toUInt32))

/-- `BitpackCodec::Encode`; `none` when a byte outside the output would be written. -/
def encode (values : List UInt32) (bitWidth : UInt8) : Option Buffer :=
  writeValues bitWidth values 0
    (.zeros (encodedSize (UInt32.ofNat values.length) bitWidth).toNat)

/-! ## Decoding -/

/-- The inner loop of `BitUnpackScalar`; `none` when a byte outside the input would be
read. -/
def readBits (packed : Buffer) (bitWidth : ℕ) : ℕ → ℕ → ℕ → UInt32 → Option ℕ
  | 0, val, _, _ => some val
  | fuel + 1, val, bitsRead, curBit =>
      if bitsRead < bitWidth then
        let byteIdx := curBit.toNat / 8
        let bitOff := curBit.toNat % 8
        let toRead := min (bitWidth - bitsRead) (8 - bitOff)
        (packed.load byteIdx 1).bind fun bytes =>
          let chunk := ((bytes 0).toNat >>> bitOff) &&& (2 ^ toRead - 1)
          readBits packed bitWidth fuel (val ||| chunk <<< bitsRead) (bitsRead + toRead)
            (curBit + UInt32.ofNat toRead)
      else some val

/-- Value `i` of `BitUnpackScalar`. -/
def unpackScalar (packed : Buffer) (bitWidth : UInt8) (i : ℕ) : Option UInt32 :=
  (readBits packed bitWidth.toNat bitWidth.toNat 0 0
    (UInt32.ofNat (i * bitWidth.toNat))).map UInt32.ofNat

/-- Value `i` of `BitUnpack1Bit_AVX2`: a whole byte expanded into eight lanes, or a bit of
the last one. -/
def unpack1BitAvx2 (packed : Buffer) (count i : ℕ) : Option UInt32 :=
  let fullBytes := count / 8
  if i < 8 * fullBytes then
    (packed.load (i / 8) 1).map fun bytes => UInt32.ofNat ((bytes 0).toNat >>> (i % 8) &&& 1)
  else
    (packed.load fullBytes 1).map fun bytes =>
      UInt32.ofNat ((bytes 0).toNat >>> (i - 8 * fullBytes) &&& 1)

/-- Value `i` of `BitUnpack1Bit_AVX512`: two bytes expanded into sixteen lanes, or a bit
of the tail. -/
def unpack1BitAvx512 (packed : Buffer) (count i : ℕ) : Option UInt32 :=
  let full16 := count / 16
  if i < 16 * full16 then
    (packed.load (2 * (i / 16)) 2).map fun bytes =>
      UInt32.ofNat (leNat bytes 2 >>> (i % 16) &&& 1)
  else
    (packed.load (i / 8) 1).map fun bytes => UInt32.ofNat ((bytes 0).toNat >>> (i % 8) &&& 1)

/-- `BitUnpack`. -/
def unpackValue (build : Build) (packed : Buffer) (bitWidth : UInt8) (count i : ℕ) :
    Option UInt32 :=
  match build with
  | .avx512 =>
      if bitWidth = 1 then unpack1BitAvx512 packed count i else unpackScalar packed bitWidth i
  | .avx2 =>
      if bitWidth = 1 then unpack1BitAvx2 packed count i else unpackScalar packed bitWidth i
  | .scalar => unpackScalar packed bitWidth i

/-! ## Where the bits are -/

/-- The position of bit `b` of field `i`, as the `uint32_t` counters give it. -/
def place (bitWidth i b : ℕ) : ℕ := (i * bitWidth + b) % 2 ^ 32

theorem add_ofNat_toNat (x : UInt32) (n : ℕ) :
    (x + UInt32.ofNat n).toNat = (x.toNat + n) % 2 ^ 32 := by
  rw [UInt32.toNat_add, UInt32.toNat_ofNat', Nat.add_mod_mod]

/-- One chunk: bits `0 .. toWrite` of `val`, shifted to `bitOff`. -/
theorem chunk_testBit {val toWrite bitOff j : ℕ} (room : bitOff + toWrite ≤ 8) :
    (UInt8.ofNat ((val &&& (2 ^ toWrite - 1)) <<< bitOff)).toNat.testBit j =
      (decide (bitOff ≤ j ∧ j < bitOff + toWrite) && val.testBit (j - bitOff)) := by
  rw [ofNat_testBit, Nat.testBit_shiftLeft, Nat.testBit_and, Nat.testBit_two_pow_sub_one]
  by_cases low : bitOff ≤ j
  · by_cases below : j < bitOff + toWrite
    · simp [low, below, show j < 8 by omega, show j - bitOff < toWrite by omega]
    · simp [low, below, show ¬ j - bitOff < toWrite by omega]
  · simp [low]

theorem writeBits_spec {fuel val bitsRemaining : ℕ} {curBit : UInt32} {packed : Buffer}
    (enough : bitsRemaining ≤ fuel)
    (inside : ∀ b, b < bitsRemaining → (curBit.toNat + b) % 2 ^ 32 / 8 < packed.size) :
    ∃ packed', writeBits fuel val bitsRemaining curBit packed = some packed' ∧
      packed'.size = packed.size ∧ ∀ m, packed'.bit m = true ↔
        packed.bit m = true ∨
          ∃ b, b < bitsRemaining ∧ (curBit.toNat + b) % 2 ^ 32 = m ∧ val.testBit b = true := by
  induction fuel generalizing val bitsRemaining curBit packed with
  | zero =>
      refine ⟨packed, rfl, rfl, fun m => ?_⟩
      simp [show bitsRemaining = 0 by omega]
  | succ fuel ih =>
      by_cases more : 0 < bitsRemaining
      · have small := curBit.toNat_lt
        set toWrite := min (8 - curBit.toNat % 8) bitsRemaining with chunk
        have first := inside 0 more
        rw [Nat.add_zero, Nat.mod_eq_of_lt small] at first
        obtain ⟨packed₁, ored, size₁, bits₁⟩ := Buffer.orAt_spec first
          (UInt8.ofNat ((val &&& (2 ^ toWrite - 1)) <<< (curBit.toNat % 8)))
        have next : ∀ b, ((curBit + UInt32.ofNat toWrite).toNat + b) % 2 ^ 32 =
            (curBit.toNat + (toWrite + b)) % 2 ^ 32 := by
          intro b
          rw [add_ofNat_toNat, Nat.mod_add_mod, Nat.add_assoc]
        obtain ⟨packed', rest, size', bits'⟩ := @ih (val >>> toWrite) (bitsRemaining - toWrite)
          (curBit + UInt32.ofNat toWrite) packed₁ (by omega) (by
            intro b below
            rw [next, size₁]
            exact inside _ (by omega))
        refine ⟨packed', ?_, size'.trans size₁, fun m => ?_⟩
        · rw [writeBits, if_pos more]
          dsimp only
          rw [← chunk, ored, Option.bind_some, rest]
        · -- the chunk's bits lie inside one byte, so they do not wrap
          have within : ∀ b, b < toWrite → (curBit.toNat + b) % 2 ^ 32 = curBit.toNat + b := by
            intro b below
            exact Nat.mod_eq_of_lt (by omega)
          rw [bits', bits₁, chunk_testBit (by omega)]
          simp only [Bool.or_eq_true, Bool.and_eq_true, decide_eq_true_eq, Nat.testBit_shiftRight]
          constructor
          · intro held
            rcases held with (before | ⟨byte, ⟨low, high⟩, set⟩) | ⟨b, below, at_m, set⟩
            · exact .inl before
            · refine .inr ⟨m % 8 - curBit.toNat % 8, by omega, ?_, set⟩
              rw [within _ (by omega)]
              omega
            · rw [next] at at_m
              exact .inr ⟨toWrite + b, by omega, at_m, set⟩
          · intro held
            rcases held with before | ⟨b, below, at_m, set⟩
            · exact .inl (.inl before)
            · by_cases here : b < toWrite
              · rw [within b here] at at_m
                refine .inl (.inr ⟨by omega, by omega, ?_⟩)
                rwa [show m % 8 - curBit.toNat % 8 = b by omega]
              · refine .inr ⟨b - toWrite, by omega, ?_, ?_⟩
                · rw [next, show toWrite + (b - toWrite) = b by omega, at_m]
                · rwa [show toWrite + (b - toWrite) = b by omega]
      · refine ⟨packed, by rw [writeBits, if_neg more], rfl, fun m => ?_⟩
        simp [show bitsRemaining = 0 by omega]

theorem writeValues_spec {bitWidth : UInt8} {values : List UInt32} {n : ℕ} {bitPos : UInt32}
    {packed : Buffer} (position : bitPos.toNat = n * bitWidth.toNat % 2 ^ 32)
    (inside : ∀ i, i < values.length → ∀ b, b < bitWidth.toNat →
      place bitWidth.toNat (n + i) b / 8 < packed.size) :
    ∃ packed', writeValues bitWidth values bitPos packed = some packed' ∧
      packed'.size = packed.size ∧ ∀ m, packed'.bit m = true ↔
        packed.bit m = true ∨ ∃ i, i < values.length ∧ ∃ b, b < bitWidth.toNat ∧
          place bitWidth.toNat (n + i) b = m ∧ (values.getD i 0).toNat.testBit b = true := by
  induction values generalizing n bitPos packed with
  | nil => exact ⟨packed, rfl, rfl, fun m => by simp⟩
  | cons v values ih =>
      have first : ∀ b, (bitPos.toNat + b) % 2 ^ 32 = place bitWidth.toNat n b := by
        intro b
        rw [position, Nat.mod_add_mod, place]
      obtain ⟨packed₁, wrote, size₁, bits₁⟩ := @writeBits_spec bitWidth.toNat v.toNat
        bitWidth.toNat bitPos packed (Nat.le_refl _) (by
          intro b below
          rw [first]
          exact inside 0 (by simp) b below)
      obtain ⟨packed', rest, size', bits'⟩ := @ih (n + 1) (bitPos + bitWidth.toUInt32) packed₁ (by
          have width : bitWidth.toUInt32 = UInt32.ofNat bitWidth.toNat := by
            apply UInt32.toNat_inj.1
            rw [UInt32.toNat_ofNat', UInt8.toNat_toUInt32]
            have := bitWidth.toNat_lt
            omega
          rw [width, add_ofNat_toNat, position, Nat.mod_add_mod, Nat.add_mul, Nat.one_mul]) (by
          intro i below b width
          rw [size₁, Nat.add_right_comm, Nat.add_assoc]
          exact inside (i + 1) (by simpa using below) b width)
      refine ⟨packed', by rw [writeValues, wrote, Option.bind_some, rest], size'.trans size₁, ?_⟩
      intro m
      rw [bits', bits₁]
      constructor
      · intro held
        rcases held with (before | ⟨b, width, at_m, set⟩) | ⟨i, below, b, width, at_m, set⟩
        · exact .inl before
        · refine .inr ⟨0, by simp, b, width, ?_, by simpa using set⟩
          rw [Nat.add_zero, ← first, at_m]
        · refine .inr ⟨i + 1, by simpa using below, b, width, ?_, by simpa using set⟩
          rw [show n + (i + 1) = n + 1 + i by omega, at_m]
      · intro held
        rcases held with before | ⟨i, below, b, width, at_m, set⟩
        · exact .inl (.inl before)
        · cases i with
          | zero =>
              refine .inl (.inr ⟨b, width, ?_, by simpa using set⟩)
              rw [first]
              simpa using at_m
          | succ i =>
              refine .inr ⟨i, by simpa using below, b, width, ?_, by simpa using set⟩
              rw [show n + 1 + i = n + (i + 1) by omega, at_m]

theorem encodedSize_toNat {count : UInt32} {bitWidth : UInt8}
    (fits : count.toNat * bitWidth.toNat + 7 < 2 ^ 35) :
    (encodedSize count bitWidth).toNat = (count.toNat * bitWidth.toNat + 7) / 8 := by
  have product : (count.toUInt64 * bitWidth.toUInt64 + 7).toNat =
      count.toNat * bitWidth.toNat + 7 := by
    rw [UInt64.toNat_add, UInt64.toNat_mul, UInt32.toNat_toUInt64, UInt8.toNat_toUInt64]
    simp only [UInt64.reduceToNat, Nat.mod_add_mod]
    omega
  rw [encodedSize, UInt64.toNat_toUInt32, UInt64.toNat_div, product]
  simp only [UInt64.reduceToNat]
  omega

/-- A position is below the bits in use. -/
theorem place_lt {bitWidth count i b : ℕ} (below : i < count) (width : b < bitWidth) :
    place bitWidth i b < count * bitWidth := by
  have row : (i + 1) * bitWidth ≤ count * bitWidth := Nat.mul_le_mul_right _ below
  have wrapped : place bitWidth i b ≤ i * bitWidth + b := Nat.mod_le _ _
  rw [Nat.add_mul, Nat.one_mul] at row
  omega

/-- Up to `2 ^ 32` bits no position wraps. -/
theorem place_eq {bitWidth count i b : ℕ} (fits : count * bitWidth ≤ 2 ^ 32) (inRange : i < count)
    (width : b < bitWidth) : place bitWidth i b = i * bitWidth + b := by
  have row : (i + 1) * bitWidth ≤ count * bitWidth := Nat.mul_le_mul_right _ inRange
  rw [Nat.add_mul, Nat.one_mul] at row
  exact Nat.mod_eq_of_lt (by omega)

/-- A position tells its field and its bit. -/
theorem row_unique {width i j b b' : ℕ} (inField : b < width) (inField' : b' < width)
    (same : j * width + b' = i * width + b) : j = i ∧ b' = b := by
  have row : ∀ k c, c < width → (k * width + c) / width = k := by
    intro k c inside
    rw [Nat.mul_comm, Nat.mul_add_div (by omega), Nat.div_eq_of_lt inside, Nat.add_zero]
  have rows : j = i := by
    rw [← row j b' inField', same, row i b inField]
  subst rows
  exact ⟨rfl, by omega⟩

/-- What `Encode` writes: at each position the or of the bits that lie there. -/
theorem encode_spec {values : List UInt32} {bitWidth : UInt8}
    (count : values.length < 2 ^ 32)
    (fits : values.length * bitWidth.toNat + 7 < 2 ^ 35) :
    ∃ packed, encode values bitWidth = some packed ∧
      packed.size = (values.length * bitWidth.toNat + 7) / 8 ∧
      ∀ m, packed.bit m = true ↔ ∃ i, i < values.length ∧ ∃ b, b < bitWidth.toNat ∧
        place bitWidth.toNat i b = m ∧ (values.getD i 0).toNat.testBit b = true := by
  have length : (UInt32.ofNat values.length).toNat = values.length := by
    rw [UInt32.toNat_ofNat', Nat.mod_eq_of_lt count]
  have size : (encodedSize (UInt32.ofNat values.length) bitWidth).toNat =
      (values.length * bitWidth.toNat + 7) / 8 := by
    rw [encodedSize_toNat (by rwa [length]), length]
  obtain ⟨packed, wrote, same, bits⟩ := @writeValues_spec bitWidth values 0 0
    (.zeros (encodedSize (UInt32.ofNat values.length) bitWidth).toNat) (by simp) (by
      intro i below b width
      have := place_lt below width
      rw [Nat.zero_add, show (Buffer.zeros (encodedSize (UInt32.ofNat values.length)
        bitWidth).toNat).size = _ from size]
      omega)
  refine ⟨packed, wrote, same.trans size, fun m => ?_⟩
  rw [bits]
  simp [Buffer.bit, Buffer.zeros]

theorem readBits_spec {packed : Buffer} {bitWidth : ℕ} {fuel val bitsRead start : ℕ}
    {curBit : UInt32} (enough : bitWidth ≤ fuel + bitsRead) (sofar : bitsRead ≤ bitWidth)
    (position : curBit.toNat = (start + bitsRead) % 2 ^ 32)
    (inside : ∀ b, b < bitWidth → (start + b) % 2 ^ 32 / 8 < packed.size)
    (read : ∀ b, val.testBit b =
      (decide (b < bitsRead) && packed.bit ((start + b) % 2 ^ 32))) :
    ∃ v, readBits packed bitWidth fuel val bitsRead curBit = some v ∧ ∀ b, v.testBit b =
      (decide (b < bitWidth) && packed.bit ((start + b) % 2 ^ 32)) := by
  induction fuel generalizing val bitsRead curBit with
  | zero =>
      obtain rfl : bitsRead = bitWidth := by omega
      exact ⟨val, rfl, read⟩
  | succ fuel ih =>
      by_cases more : bitsRead < bitWidth
      · have small := curBit.toNat_lt
        set toRead := min (bitWidth - bitsRead) (8 - curBit.toNat % 8) with chunk
        have here := inside bitsRead more
        rw [← position] at here
        have loaded := @Buffer.load_inside packed (curBit.toNat / 8) 1 (by omega)
        obtain ⟨v, rest, bits⟩ := @ih
          (val ||| (((packed.byte (curBit.toNat / 8)).toNat >>> (curBit.toNat % 8)) &&&
            (2 ^ toRead - 1)) <<< bitsRead) (bitsRead + toRead)
          (curBit + UInt32.ofNat toRead) (by omega) (by omega) (by
            rw [add_ofNat_toNat, position, Nat.mod_add_mod, Nat.add_assoc]) (by
            intro b
            rw [Nat.testBit_or, read, Nat.testBit_shiftLeft, Nat.testBit_and,
              Nat.testBit_two_pow_sub_one, Nat.testBit_shiftRight]
            by_cases before : b < bitsRead
            · simp [before, show b < bitsRead + toRead by omega,
                show ¬ bitsRead ≤ b by omega]
            · by_cases inChunk : b < bitsRead + toRead
              · -- the chunk lies inside the byte at the cursor
                have at_bit : (start + b) % 2 ^ 32 = curBit.toNat + (b - bitsRead) := by
                  have split : start + b = start + bitsRead + (b - bitsRead) := by omega
                  rw [split, Nat.add_mod, ← position, Nat.add_mod_mod]
                  exact Nat.mod_eq_of_lt (by omega)
                rw [at_bit, Buffer.bit,
                  show (curBit.toNat + (b - bitsRead)) / 8 = curBit.toNat / 8 by omega,
                  show (curBit.toNat + (b - bitsRead)) % 8 =
                    curBit.toNat % 8 + (b - bitsRead) by omega]
                simp [before, inChunk, show bitsRead ≤ b by omega,
                  show b - bitsRead < toRead by omega]
              · simp [before, inChunk, show ¬ b - bitsRead < toRead by omega])
        refine ⟨v, ?_, bits⟩
        rw [readBits, if_pos more]
        dsimp only
        rw [loaded, Option.bind_some]
        exact rest
      · obtain rfl : bitsRead = bitWidth := by omega
        exact ⟨val, by rw [readBits, if_neg more], read⟩

/-- The bits of a one-bit value. -/
theorem oneBit_testBit (n j b : ℕ) :
    (UInt32.ofNat (n >>> j &&& 1)).toNat.testBit b = (decide (b < 1) && n.testBit (j + b)) := by
  rw [UInt32.toNat_ofNat', Nat.testBit_mod_two_pow, show (1 : ℕ) = 2 ^ 1 - 1 from rfl,
    Nat.testBit_and, Nat.testBit_shiftRight, Nat.testBit_two_pow_sub_one]
  by_cases first : b < 1
  · simp [show b = 0 by omega]
  · simp [show ¬ b = 0 by omega]

/-- What `BitUnpack` reads: the bits at the value's positions. -/
theorem unpackValue_spec (build : Build) {packed : Buffer} {bitWidth : UInt8} {count i : ℕ}
    (small : bitWidth.toNat ≤ 32) (countFits : count < 2 ^ 32) (below : i < count)
    (inside : count * bitWidth.toNat ≤ 8 * packed.size) :
    ∃ v, unpackValue build packed bitWidth count i = some v ∧ ∀ b, v.toNat.testBit b =
      (decide (b < bitWidth.toNat) && packed.bit (place bitWidth.toNat i b)) := by
  have scalar : ∃ v, unpackScalar packed bitWidth i = some v ∧ ∀ b, v.toNat.testBit b =
      (decide (b < bitWidth.toNat) && packed.bit (place bitWidth.toNat i b)) := by
    obtain ⟨v, read, bits⟩ := @readBits_spec packed bitWidth.toNat bitWidth.toNat 0 0
      (i * bitWidth.toNat) (UInt32.ofNat (i * bitWidth.toNat)) (by omega) (by omega)
      (by rw [UInt32.toNat_ofNat', Nat.add_zero]) (by
        intro b width
        have := place_lt below width
        rw [place] at this
        omega) (by simp)
    refine ⟨UInt32.ofNat v, by rw [unpackScalar, read, Option.map_some], fun b => ?_⟩
    rw [UInt32.toNat_ofNat', Nat.testBit_mod_two_pow, bits, place]
    by_cases width : b < bitWidth.toNat
    · simp [width, show b < 32 by omega]
    · simp [width]
  have oneBit : bitWidth = 1 → ∀ b, (decide (b < 1) && packed.bit (place 1 i b)) =
      (decide (b < 1) && packed.bit i) := by
    intro one b
    by_cases first : b < 1
    · rw [place, show b = 0 by omega, Nat.mul_one, Nat.add_zero, Nat.mod_eq_of_lt (by omega)]
    · simp [first]
  cases build with
  | scalar => exact scalar
  | avx2 =>
      by_cases one : bitWidth = 1
      · have width : bitWidth.toNat = 1 := by rw [one]; rfl
        rw [width, Nat.mul_one] at inside
        have loaded := @Buffer.load_inside packed (i / 8) 1 (by omega)
        refine ⟨UInt32.ofNat ((packed.byte (i / 8)).toNat >>> (i % 8) &&& 1), ?_, ?_⟩
        · simp only [unpackValue, one, if_true, unpack1BitAvx2]
          by_cases whole : i < 8 * (count / 8)
          · rw [if_pos whole, loaded]
            rfl
          · rw [if_neg whole, show count / 8 = i / 8 by omega, loaded,
              show i - 8 * (i / 8) = i % 8 by omega]
            rfl
        · intro b
          rw [oneBit_testBit, width, oneBit one, Buffer.bit]
          by_cases first : b < 1
          · simp [show b = 0 by omega]
          · simp [first]
      · simp only [unpackValue, one, if_false]
        exact scalar
  | avx512 =>
      by_cases one : bitWidth = 1
      · have width : bitWidth.toNat = 1 := by rw [one]; rfl
        rw [width, Nat.mul_one] at inside
        simp only [unpackValue, one, if_true, unpack1BitAvx512]
        by_cases whole : i < 16 * (count / 16)
        · have loaded := @Buffer.load_inside packed (2 * (i / 16)) 2 (by omega)
          refine ⟨_, by rw [if_pos whole, loaded, Option.map_some], fun b => ?_⟩
          rw [oneBit_testBit, leNat_testBit, show (1 : UInt8).toNat = 1 from rfl, oneBit one,
            Buffer.bit]
          by_cases first : b < 1
          · rw [show b = 0 by omega, Nat.add_zero, show i % 16 % 8 = i % 8 by omega,
              show 2 * (i / 16) + i % 16 / 8 = i / 8 by omega]
            simp [show i % 16 < 16 by omega]
          · simp [first]
        · have loaded := @Buffer.load_inside packed (i / 8) 1 (by omega)
          refine ⟨_, by rw [if_neg whole, loaded, Option.map_some], fun b => ?_⟩
          rw [oneBit_testBit, show (1 : UInt8).toNat = 1 from rfl, oneBit one, Buffer.bit]
          by_cases first : b < 1
          · simp [show b = 0 by omega]
          · simp [first]
      · simp only [unpackValue, one, if_false]
        exact scalar

/-- The value whose bits lie at the places of field `i`. -/
def fieldValue (packed : Buffer) (bitWidth : UInt8) (i : ℕ) : UInt32 :=
  UInt32.ofNat (Nat.ofBits fun b : Fin bitWidth.toNat => packed.bit (place bitWidth.toNat i b))

theorem fieldValue_testBit {bitWidth : UInt8} (small : bitWidth.toNat ≤ 32) (packed : Buffer)
    (i b : ℕ) : (fieldValue packed bitWidth i).toNat.testBit b =
      (decide (b < bitWidth.toNat) && packed.bit (place bitWidth.toNat i b)) := by
  rw [fieldValue, UInt32.toNat_ofNat', Nat.testBit_mod_two_pow]
  by_cases width : b < bitWidth.toNat
  · rw [Nat.testBit_ofBits_lt _ _ width]
    simp [width, show b < 32 by omega]
  · rw [Nat.testBit_ofBits_ge _ _ (by omega)]
    simp [width]

/-- **Every build unpacks the value at a field's places.** -/
theorem unpackValue_eq (build : Build) {packed : Buffer} {bitWidth : UInt8} {count i : ℕ}
    (small : bitWidth.toNat ≤ 32) (countFits : count < 2 ^ 32) (below : i < count)
    (inside : count * bitWidth.toNat ≤ 8 * packed.size) :
    unpackValue build packed bitWidth count i = some (fieldValue packed bitWidth i) := by
  obtain ⟨v, read, bits⟩ := unpackValue_spec build small countFits below inside
  rw [read]
  congr 1
  apply UInt32.toNat_inj.1
  apply Nat.eq_of_testBit_eq
  intro b
  rw [bits, fieldValue_testBit small]

theorem fieldValue_congr {packed packed' : Buffer} {bitWidth : UInt8} {i : ℕ}
    (same : ∀ b, b < bitWidth.toNat → packed.bit (place bitWidth.toNat i b) =
      packed'.bit (place bitWidth.toNat i b)) :
    fieldValue packed bitWidth i = fieldValue packed' bitWidth i := by
  unfold fieldValue
  congr 2
  funext b
  exact same b b.isLt

/-! ## The width fits the values -/

theorem countBits_spec (n : ℕ) (v : UInt32) (bound : v.toNat < 2 ^ n) (small : n ≤ 32) :
    v.toNat < 2 ^ (countBits n v).toNat ∧ (countBits n v).toNat ≤ n := by
  induction n generalizing v with
  | zero => exact ⟨bound, Nat.le_refl _⟩
  | succ n ih =>
      rw [countBits]
      by_cases zero : v = 0
      · simp [zero]
      · have half : (v >>> 1).toNat = v.toNat / 2 := by
          rw [UInt32.toNat_shiftRight]
          simp [Nat.shiftRight_eq_div_pow]
        rw [Nat.pow_succ] at bound
        obtain ⟨fits, width⟩ := ih (v >>> 1) (by omega) (by omega)
        have next : (countBits n (v >>> 1) + 1).toNat = (countBits n (v >>> 1)).toNat + 1 := by
          rw [UInt8.toNat_add]
          simp only [UInt8.reduceToNat]
          omega
        rw [if_neg zero, next, Nat.pow_succ]
        omega

theorem le_maxValue (values : List UInt32) : ∀ v ∈ values, v ≤ maxValue values := by
  have grows : ∀ (values : List UInt32) (start : UInt32),
      start ≤ values.foldl (fun maxVal v => if maxVal < v then v else maxVal) start ∧
      ∀ v ∈ values, v ≤ values.foldl (fun maxVal v => if maxVal < v then v else maxVal) start := by
    intro values
    induction values with
    | nil => exact fun start => ⟨UInt32.le_refl _, fun v mem => by cases mem⟩
    | cons w values ih =>
        intro start
        obtain ⟨top', all⟩ := ih (if start < w then w else start)
        have top : start ≤ (if start < w then w else start) ∧
            w ≤ (if start < w then w else start) := by
          by_cases more : start < w
          · rw [if_pos more]
            exact ⟨UInt32.le_of_lt more, UInt32.le_refl _⟩
          · rw [if_neg more]
            exact ⟨UInt32.le_refl _, UInt32.not_lt.1 more⟩
        refine ⟨UInt32.le_trans top.1 top', fun v mem => ?_⟩
        rcases List.mem_cons.1 mem with rfl | inRest
        · exact UInt32.le_trans top.2 top'
        · exact all v inRest
  exact (grows values 0).2

/-- With no bound on the values, the width is between 1 and 32 and holds every value. -/
theorem computeMinBitWidth_spec (values : List UInt32) :
    1 ≤ (computeMinBitWidth values 0xFFFFFFFF).toNat ∧
      (computeMinBitWidth values 0xFFFFFFFF).toNat ≤ 32 ∧
      ∀ v ∈ values, v.toNat < 2 ^ (computeMinBitWidth values 0xFFFFFFFF).toNat := by
  have noBound : ¬ (0xFFFFFFFF : UInt32) < maxValue values := by
    have := (maxValue values).toNat_lt
    rw [UInt32.lt_iff_toNat_lt]
    simp only [UInt32.reduceToNat]
    omega
  unfold computeMinBitWidth
  by_cases empty : values.isEmpty = true
  · rw [if_pos empty]
    refine ⟨by decide, by decide, fun v mem => ?_⟩
    rw [List.isEmpty_iff.1 empty] at mem
    cases mem
  · rw [if_neg empty, if_neg noBound]
    have bounded := le_maxValue values
    by_cases zero : maxValue values = 0
    · rw [if_pos zero]
      refine ⟨by decide, by decide, fun v mem => ?_⟩
      have := UInt32.le_iff_toNat_le.1 (bounded v mem)
      rw [zero] at this
      simp only [UInt32.reduceToNat, UInt8.reduceToNat] at this ⊢
      omega
    · rw [if_neg zero]
      obtain ⟨fits, width⟩ := countBits_spec 32 (maxValue values) (maxValue values).toNat_lt
        (by omega)
      refine ⟨?_, width, fun v mem => ?_⟩
      · by_contra none
        rw [show (countBits 32 (maxValue values)).toNat = 0 by omega] at fits
        exact zero (UInt32.toNat_inj.1 (by simpa using fits))
      · exact Nat.lt_of_le_of_lt (UInt32.le_iff_toNat_le.1 (bounded v mem)) fits

end VecFetch.Codec
