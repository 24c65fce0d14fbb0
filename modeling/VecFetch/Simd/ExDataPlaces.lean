/-
# Simd.ExDataPlaces -- where each layout keeps the bits of a code

One byte per code (`Places.filled_field`), a plane per bit (`Places.filled_planes`), the
bit stream of the generic magnitudes and the mixed direct layout: in each the packer's
bytes set the bits at their places and the unpacker reads them there.
-/
import VecFetch.Simd.ExData
import Mathlib.Tactic.Ring

namespace VecFetch.Simd

open VecFetch.Theory VecFetch.Rabitq

set_option autoImplicit false

/-! ## Fields of a byte -/

/-- A field of `width` bits shifted into a byte. -/
theorem shifted_testBit {v width shift j : ℕ} (fits : v < 2 ^ width) (room : shift + width ≤ 8) :
    (UInt8.ofNat (v <<< shift)).toNat.testBit j = true ↔
      ∃ b, b < width ∧ shift + b = j ∧ v.testBit b = true := by
  rw [ofNat_testBit, Nat.testBit_shiftLeft]
  simp only [Bool.and_eq_true, decide_eq_true_eq]
  constructor
  · intro held
    obtain ⟨-, low, set⟩ := held
    have inWidth : j - shift < width := by
      by_contra beyond
      rw [testBit_of_le fits (by omega)] at set
      cases set
    exact ⟨j - shift, inWidth, by omega, set⟩
  · intro held
    obtain ⟨b, inWidth, rfl, set⟩ := held
    exact ⟨by omega, by omega, by rwa [show shift + b - shift = b by omega]⟩

/-- Reading `width` bits of the byte at `k`, from bit `shift` on. -/
theorem readField_spec {packed : Buffer} {k shift width mask : ℕ} (inside : k < packed.size)
    (room : shift + width ≤ 8) (low : mask = 2 ^ width - 1) :
    ∃ v, readField packed k shift mask = some v ∧
      ∀ j, v.toNat.testBit j = (decide (j < width) && packed.bit (8 * k + shift + j)) := by
  subst low
  refine ⟨_, by rw [readField, Buffer.byteAt_inside inside]; rfl, fun j => ?_⟩
  rw [ofNat_testBit, Nat.testBit_and, Nat.testBit_shiftRight, Nat.testBit_two_pow_sub_one]
  by_cases inWidth : j < width
  · have byte : (8 * k + shift + j) / 8 = k := by omega
    have bit : (8 * k + shift + j) % 8 = shift + j := by omega
    simp [Buffer.bit, byte, bit, inWidth, show j < 8 by omega]
  · simp [inWidth]

section Field

variable {count width size : ℕ} {places : Places count width size} {k shift : ℕ → ℕ}

/-- A layout with each code in one byte. -/
theorem filled_field (inside : ∀ i, i < count → k i < size)
    (room : ∀ i, i < count → shift i + width ≤ 8)
    (placed : ∀ i b, places.place i b = 8 * k i + shift i + b) :
    places.Filled fun i v => [(k i, UInt8.ofNat (v.toNat <<< shift i))] where
  inside := by
    intro i v below _ op mem
    rw [List.mem_singleton] at mem
    subst mem
    exact inside i below
  bits := by
    intro i v below fits m
    have fields := room i below
    simp only [List.mem_singleton, exists_eq_left, shifted_testBit fits fields, placed]
    constructor
    · intro held
      obtain ⟨byte, b, inWidth, bit, set⟩ := held
      exact ⟨b, inWidth, by omega, set⟩
    · intro held
      obtain ⟨b, inWidth, at_m, set⟩ := held
      exact ⟨by omega, b, inWidth, by omega, set⟩

theorem read_field {packed : Buffer} {mask : ℕ} (large : size ≤ packed.size)
    (low : mask = 2 ^ width - 1)
    (inside : ∀ i, i < count → k i < size) (room : ∀ i, i < count → shift i + width ≤ 8)
    (placed : ∀ i b, places.place i b = 8 * k i + shift i + b) :
    places.Read packed fun i => readField packed (k i) (shift i) mask := by
  intro i below
  have within := inside i below
  obtain ⟨v, read, bits⟩ := @readField_spec packed (k i) (shift i) width mask (by omega) (room i below) low
  exact ⟨v, read, fun j _ => by rw [bits, placed]⟩

end Field

/-! ## Planes -/

theorem and_shiftLeft_one_ne_zero (v b : ℕ) : v &&& 1 <<< b ≠ 0 ↔ v.testBit b = true := by
  rw [Nat.one_shiftLeft, Nat.and_two_pow]
  cases v.testBit b <;> simp

theorem planeBit_testBit {k j : ℕ} (bit : j < 8) :
    (UInt8.ofNat (1 <<< (k % 8))).toNat.testBit j = true ↔ k % 8 = j := by
  rw [ofNat_testBit, Nat.one_shiftLeft, Nat.testBit_two_pow]
  simp [bit]

theorem planeOps_mem {bits base planeBytes k : ℕ} {v : UInt8} {op : ℕ × UInt8}
    (mem : op ∈ planeOps bits base planeBytes k v) :
    ∃ b, b < bits ∧ v.toNat.testBit b = true ∧
      op = (base + (b * planeBytes + k / 8), UInt8.ofNat (1 <<< (k % 8))) := by
  simp only [planeOps, List.mem_flatMap, List.mem_range] at mem
  obtain ⟨b, below, mem⟩ := mem
  split at mem
  · next set => exact ⟨b, below, (and_shiftLeft_one_ne_zero _ _).1 set, List.mem_singleton.1 mem⟩
  · exact absurd mem List.not_mem_nil

/-- The planes hold bit `b` of the code at bit `k` of plane `b`. -/
theorem planeOps_bits {bits base planeBytes k : ℕ} {v : UInt8} {m : ℕ} :
    (∃ op ∈ planeOps bits base planeBytes k v, op.1 = m / 8 ∧ op.2.toNat.testBit (m % 8) = true) ↔
      ∃ b, b < bits ∧ 8 * (base + b * planeBytes) + k = m ∧ v.toNat.testBit b = true := by
  constructor
  · intro held
    obtain ⟨op, mem, byte, bit⟩ := held
    obtain ⟨b, below, set, rfl⟩ := planeOps_mem mem
    rw [planeBit_testBit (Nat.mod_lt _ (by decide))] at bit
    dsimp only at byte
    exact ⟨b, below, by omega, set⟩
  · intro held
    obtain ⟨b, below, at_m, set⟩ := held
    refine ⟨(base + (b * planeBytes + k / 8), UInt8.ofNat (1 <<< (k % 8))), ?_, ?_, ?_⟩
    · simp only [planeOps, List.mem_flatMap, List.mem_range]
      exact ⟨b, below, by rw [if_pos ((and_shiftLeft_one_ne_zero _ _).2 set)]; simp⟩
    · dsimp only
      omega
    · rw [planeBit_testBit (Nat.mod_lt _ (by decide))]
      omega

theorem readPlaneBits_spec {packed : Buffer} {base planeBytes k : ℕ} : ∀ {n : ℕ},
    (∀ b, b < n → base + (b * planeBytes + k / 8) < packed.size) →
    ∃ v, readPlaneBits packed base planeBytes k n = some v ∧
      ∀ j, v.testBit j = (decide (j < n) && packed.bit (8 * (base + j * planeBytes) + k))
  | 0, _ => ⟨0, rfl, fun j => by simp⟩
  | n + 1, inside => by
      obtain ⟨v, read, bits⟩ :=
        @readPlaneBits_spec packed base planeBytes k n fun b below => inside b (by omega)
      obtain ⟨planeBit, last, one⟩ := @readField_spec packed
        (base + (n * planeBytes + k / 8)) (k % 8) 1 0x01 (inside n (by omega)) (by omega) rfl
      refine ⟨v ||| planeBit.toNat <<< n, ?_, fun j => ?_⟩
      · rw [readPlaneBits, read, Option.bind_some, last, Option.map_some]
      · have here : 8 * (base + (n * planeBytes + k / 8)) + k % 8 + 0 =
            8 * (base + n * planeBytes) + k := by omega
        rw [Nat.testBit_or, Nat.testBit_shiftLeft, bits, one]
        rcases Nat.lt_trichotomy j n with before | rfl | after
        · simp [before, show j < n + 1 by omega, show ¬ n ≤ j by omega]
        · rw [Nat.sub_self, here]
          simp
        · simp [show ¬ j < n by omega, show ¬ j < n + 1 by omega, show ¬ j - n < 1 by omega]

section Planes

variable {count width size : ℕ} {places : Places count width size} {base planeBytes k : ℕ → ℕ}

/-- The bytes of a code's planes are inside, as its bits are. -/
theorem plane_inside (placed : ∀ i b, places.place i b = 8 * (base i + b * planeBytes i) + k i)
    {i b : ℕ} (below : i < count) (inWidth : b < width) :
    base i + (b * planeBytes i + k i / 8) < size := by
  have inside := places.inside below inWidth
  rw [placed] at inside
  omega

/-- A layout with a plane for each bit. -/
theorem filled_planes
    (placed : ∀ i b, places.place i b = 8 * (base i + b * planeBytes i) + k i) :
    places.Filled fun i => planeOps width (base i) (planeBytes i) (k i) where
  inside := by
    intro i v below _ op mem
    obtain ⟨b, inWidth, -, rfl⟩ := planeOps_mem mem
    exact plane_inside placed below inWidth
  bits := by
    intro i v below _ m
    rw [planeOps_bits]
    simp only [placed]

theorem read_planes {packed : Buffer} (large : size ≤ packed.size)
    (placed : ∀ i b, places.place i b = 8 * (base i + b * planeBytes i) + k i) :
    places.Read packed fun i => readPlanes packed width (base i) (planeBytes i) (k i) := by
  intro i below
  obtain ⟨v, read, bits⟩ := @readPlaneBits_spec packed (base i) (planeBytes i) (k i) width
    fun b inWidth => Nat.lt_of_lt_of_le (plane_inside placed below inWidth) large
  refine ⟨UInt8.ofNat v, by simp only [readPlanes, read, Option.map_some], fun j bit => ?_⟩
  rw [ofNat_testBit, decide_eq_true bit, Bool.true_and, bits, placed]

end Planes

/-! ## Planes in chunks -/

theorem magnitude_apart {width i b i' b' : ℕ} (inWidth : b < width) (inWidth' : b' < width)
    (same : i * width + b = i' * width + b') : i = i' ∧ b = b' := by
  have quotient := congrArg (fun n => n / width) same
  have remainder := congrArg (fun n => n % width) same
  have positive : 0 < width := by omega
  simp only [Nat.mul_comm _ width, Nat.mul_add_div positive, Nat.div_eq_of_lt inWidth,
    Nat.div_eq_of_lt inWidth', Nat.add_zero] at quotient
  simp only [Nat.mul_comm _ width, Nat.mul_add_mod, Nat.mod_eq_of_lt inWidth,
    Nat.mod_eq_of_lt inWidth'] at remainder
  exact ⟨quotient, remainder⟩

/-- Bit `b` of code `i`: its chunk of `8 * lane` codes takes `lane * width` bytes, and has
its planes `planeBytes` apart. -/
def chunkPlace (lane width : ℕ) (planeBytes : ℕ → ℕ) (i b : ℕ) : ℕ :=
  8 * (i / (8 * lane) * (lane * width) + b * planeBytes (i / (8 * lane))) + i % (8 * lane)

/-- Chunks of planes: whole ones, and a last one that may have shorter planes. -/
structure PlaneChunks (count lane : ℕ) (planeBytes : ℕ → ℕ) : Prop where
  positive : 0 < lane
  short : ∀ k, planeBytes k ≤ lane
  whole : ∀ k, k < (count - 1) / (8 * lane) → planeBytes k = lane
  room : ∀ i, i < count → i % (8 * lane) < 8 * planeBytes (i / (8 * lane))

namespace PlaneChunks

variable {count lane width : ℕ} {planeBytes : ℕ → ℕ}

/-- The bits of a code in its chunk. -/
theorem in_chunk {p r b : ℕ} (room : r < 8 * p) (inWidth : b < width) :
    8 * (b * p) + r < 8 * (width * p) := by
  have next : (b + 1) * p ≤ width * p := Nat.mul_le_mul_right _ inWidth
  rw [Nat.succ_mul] at next
  omega

theorem chunk_lt (chunks : PlaneChunks count lane planeBytes) {i b : ℕ} (below : i < count)
    (inWidth : b < width) :
    chunkPlace lane width planeBytes i b < 8 * ((i / (8 * lane) + 1) * (lane * width)) := by
  have bits := in_chunk (chunks.room i below) inWidth
  have short : width * planeBytes (i / (8 * lane)) ≤ width * lane :=
    Nat.mul_le_mul_left _ (chunks.short _)
  rw [Nat.mul_comm width lane] at short
  rw [chunkPlace, Nat.succ_mul (i / (8 * lane))]
  omega

theorem inside (chunks : PlaneChunks count lane planeBytes) {i b : ℕ} (below : i < count)
    (inWidth : b < width) :
    chunkPlace lane width planeBytes i b < 8 * ((count - 1) / (8 * lane) * (lane * width) +
      width * planeBytes ((count - 1) / (8 * lane))) := by
  have upTo : i / (8 * lane) ≤ (count - 1) / (8 * lane) := Nat.div_le_div_right (by omega)
  rcases Nat.lt_or_eq_of_le upTo with before | last
  · have chunk := chunks.chunk_lt below inWidth
    have next : (i / (8 * lane) + 1) * (lane * width) ≤ (count - 1) / (8 * lane) * (lane * width) :=
      Nat.mul_le_mul_right _ before
    omega
  · have bits := in_chunk (chunks.room i below) inWidth
    rw [chunkPlace, ← last]
    omega

theorem apart (chunks : PlaneChunks count lane planeBytes) {i b i' b' : ℕ} (below : i < count)
    (inWidth : b < width) (below' : i' < count) (inWidth' : b' < width)
    (same : chunkPlace lane width planeBytes i b = chunkPlace lane width planeBytes i' b') :
    i = i' ∧ b = b' := by
  have ordered : ∀ {i b i' b'}, i < count → b < width → i / (8 * lane) < i' / (8 * lane) →
      chunkPlace lane width planeBytes i b < chunkPlace lane width planeBytes i' b' := by
    intro i b i' b' below inWidth before
    have chunk := chunks.chunk_lt below inWidth
    have next : (i / (8 * lane) + 1) * (lane * width) ≤ i' / (8 * lane) * (lane * width) :=
      Nat.mul_le_mul_right _ before
    rw [chunkPlace] at chunk ⊢
    rw [chunkPlace]
    omega
  rcases Nat.lt_trichotomy (i / (8 * lane)) (i' / (8 * lane)) with before | chunk | after
  · exact absurd same (Nat.ne_of_lt (ordered below inWidth before))
  · have room := chunks.room i below
    have room' := chunks.room i' below'
    rw [chunkPlace, chunkPlace, chunk] at same
    rw [chunk] at room
    obtain ⟨plane, bit⟩ := @magnitude_apart (8 * planeBytes (i' / (8 * lane))) b
      (i % (8 * lane)) b' (i' % (8 * lane)) room room' (by
        rw [Nat.mul_left_comm b, Nat.mul_left_comm b']
        omega)
    refine ⟨?_, plane⟩
    rw [← Nat.div_add_mod i (8 * lane), ← Nat.div_add_mod i' (8 * lane), chunk, bit]
  · exact absurd same (Nat.ne_of_gt (ordered below' inWidth' after))

def places (chunks : PlaneChunks count lane planeBytes) (width : ℕ) :
    Places count width ((count - 1) / (8 * lane) * (lane * width) +
      width * planeBytes ((count - 1) / (8 * lane))) where
  place := chunkPlace lane width planeBytes
  inside := chunks.inside
  apart := chunks.apart

end PlaneChunks

/-- Chunks of 64 codes with planes of eight bytes. -/
theorem wholeChunks (count : ℕ) : PlaneChunks count 8 fun _ => 8 where
  positive := by decide
  short := fun _ => Nat.le_refl 8
  whole := fun _ _ => rfl
  room := fun i _ => Nat.mod_lt i (by decide)

theorem wholeChunks_size {count : ℕ} (nonempty : 0 < count) (width : ℕ) :
    (count - 1) / (8 * 8) * (8 * width) + width * 8 = (count + 63) / 64 * (8 * width) := by
  have chunks : (count + 63) / 64 = (count - 1) / (8 * 8) + 1 := by omega
  rw [chunks, Nat.succ_mul ((count - 1) / (8 * 8)), Nat.mul_comm width]

/-! ## The mixed direct layout -/

/-- Bits 0 and 1 of a code side by side, bit 2 in the plane behind. -/
def twoPlusOnePlace (i b : ℕ) : ℕ :=
  i / 64 * 192 + if b < 2 then i % 64 * 2 + b else 128 + i % 64

theorem twoPlusOne_inside {count i b : ℕ} (below : i < count) (inWidth : b < 3) :
    twoPlusOnePlace i b < 8 * ((count + 63) / 64 * 24) := by
  unfold twoPlusOnePlace
  split <;> omega

theorem twoPlusOne_apart {i b i' b' : ℕ} (inWidth : b < 3) (inWidth' : b' < 3)
    (same : twoPlusOnePlace i b = twoPlusOnePlace i' b') : i = i' ∧ b = b' := by
  unfold twoPlusOnePlace at same
  split at same <;> split at same <;> omega

def twoPlusOnePlaces (count : ℕ) : Places count 3 ((count + 63) / 64 * 24) where
  place := twoPlusOnePlace
  inside := twoPlusOne_inside
  apart := fun _ inWidth _ inWidth' same => twoPlusOne_apart inWidth inWidth' same

theorem twoPlusOneOps_bits {i m : ℕ} {v : UInt8} :
    (∃ op ∈ twoPlusOneOps i v, op.1 = m / 8 ∧ op.2.toNat.testBit (m % 8) = true) ↔
      ∃ b, b < 3 ∧ twoPlusOnePlace i b = m ∧ v.toNat.testBit b = true := by
  have pair : v.toNat &&& 0x03 < 2 ^ 2 := Nat.lt_succ_of_le Nat.and_le_right
  have low : ∀ b, b < 2 → (v.toNat &&& 0x03).testBit b = v.toNat.testBit b := by
    intro b below
    rw [Nat.testBit_and, show (0x03 : ℕ) = 2 ^ 2 - 1 from rfl, Nat.testBit_two_pow_sub_one]
    simp [below]
  have high : v.toNat &&& 0x04 ≠ 0 ↔ v.toNat.testBit 2 = true := and_shiftLeft_one_ne_zero _ 2
  have plane := @planeBit_testBit (i % 64) (m % 8) (Nat.mod_lt _ (by decide))
  rw [show i % 64 % 8 = i % 8 by omega] at plane
  have first := @shifted_testBit (v.toNat &&& 0x03) 2 (i % 64 % 4 * 2) (m % 8) pair (by omega)
  simp only [twoPlusOneOps, List.mem_cons, exists_eq_or_imp, first]
  constructor
  · intro held
    rcases held with ⟨byte, b, below, bit, set⟩ | ⟨op, mem, byte, bit⟩
    · rw [low b below] at set
      refine ⟨b, by omega, ?_, set⟩
      rw [twoPlusOnePlace, if_pos below]
      omega
    · split at mem
      · next set =>
          rw [List.mem_singleton] at mem
          subst mem
          rw [show i % 64 % 8 = i % 8 by omega, plane] at bit
          dsimp only at byte
          refine ⟨2, by omega, ?_, high.1 set⟩
          rw [twoPlusOnePlace, if_neg (by omega)]
          omega
      · exact absurd mem List.not_mem_nil
  · intro held
    obtain ⟨b, inWidth, at_m, set⟩ := held
    rw [twoPlusOnePlace] at at_m
    by_cases below : b < 2
    · rw [if_pos below] at at_m
      exact .inl ⟨by omega, b, below, by omega, by rwa [low b below]⟩
    · have two : b = 2 := by omega
      subst two
      rw [if_neg below] at at_m
      refine .inr ⟨_, by rw [if_pos (high.2 set)]; exact List.mem_singleton_self _, ?_, ?_⟩
      · dsimp only
        omega
      · rw [show i % 64 % 8 = i % 8 by omega, plane]
        omega

theorem filled_twoPlusOne (count : ℕ) : (twoPlusOnePlaces count).Filled twoPlusOneOps where
  inside := by
    intro i v below _ op mem
    simp only [twoPlusOneOps, List.mem_cons] at mem
    rcases mem with rfl | mem
    · dsimp only
      omega
    · split at mem
      · rw [List.mem_singleton] at mem
        subst mem
        dsimp only
        omega
      · exact absurd mem List.not_mem_nil
  bits := fun _ _ _ => twoPlusOneOps_bits

theorem read_twoPlusOne {count : ℕ} {packed : Buffer} (large : (count + 63) / 64 * 24 ≤ packed.size) :
    (twoPlusOnePlaces count).Read packed (readTwoPlusOne packed) := by
  intro i below
  obtain ⟨low, readLow, lowBits⟩ := @readField_spec packed (i / 64 * 24 + i % 64 / 4)
    (i % 64 % 4 * 2) 2 0x03 (by omega) (by omega) rfl
  obtain ⟨high, readHigh, highBits⟩ := @readField_spec packed (i / 64 * 24 + (16 + i % 64 / 8))
    (i % 64 % 8) 1 0x01 (by omega) (by omega) rfl
  refine ⟨_, by rw [readTwoPlusOne, readLow, Option.bind_some, readHigh, Option.map_some], ?_⟩
  intro j bit
  rw [ofNat_testBit, decide_eq_true bit, Bool.true_and, Nat.testBit_or, Nat.testBit_shiftLeft,
    lowBits, highBits, show (twoPlusOnePlaces count).place i j = twoPlusOnePlace i j from rfl,
    twoPlusOnePlace]
  rcases Nat.lt_trichotomy j 2 with before | rfl | after
  · rw [if_pos before, show 8 * (i / 64 * 24 + i % 64 / 4) + i % 64 % 4 * 2 + j =
      i / 64 * 192 + (i % 64 * 2 + j) by omega]
    simp [before, show j < 3 by omega, show ¬ 2 ≤ j by omega]
  · rw [if_neg (by omega), show 8 * (i / 64 * 24 + (16 + i % 64 / 8)) + i % 64 % 8 + (2 - 2) =
      i / 64 * 192 + (128 + i % 64) by omega]
    simp
  · simp [show ¬ j < 2 by omega, show ¬ j < 3 by omega, show ¬ j - 2 < 1 by omega]

/-! ## The bit stream of magnitudes -/

theorem magnitude_inside {count width i b : ℕ} (below : i < count) (inWidth : b < width) :
    i * width + b < 8 * ((count * width + 7) / 8) := by
  have next : (i + 1) * width ≤ count * width := Nat.mul_le_mul_right _ below
  rw [Nat.succ_mul] at next
  omega

/-- The codes one after another. -/
def magnitudePlaces (count width : ℕ) : Places count width ((count * width + 7) / 8) where
  place i b := i * width + b
  inside := magnitude_inside
  apart := fun _ inWidth _ inWidth' same => magnitude_apart inWidth inWidth' same

/-- No code of a vector whose bits can be counted starts behind `2 ^ 32`. -/
theorem bitPos_toNat {count i : ℕ} {bits : UInt8} (below : i < count)
    (counted : count * bits.toNat + 7 < 2 ^ 32) :
    (UInt32.ofNat i * bits.toUInt32).toNat = i * bits.toNat := by
  have next : (i + 1) * bits.toNat ≤ count * bits.toNat := Nat.mul_le_mul_right _ below
  rw [Nat.succ_mul] at next
  rw [UInt32.toNat_mul, UInt32.toNat_ofNat', UInt8.toNat_toUInt32, Nat.mod_mul_mod]
  exact Nat.mod_eq_of_lt (by omega)

/-- The one or two bytes of a code shifted to bit `pos % 8` of byte `pos / 8`. -/
theorem straddling_bits {pos width m : ℕ} {v : ℕ} (fits : v < 2 ^ width) (narrow : width ≤ 8) :
    (∃ op ∈ (pos / 8, UInt8.ofNat (v <<< (pos % 8))) ::
        if 8 < pos % 8 + width then [(pos / 8 + 1, UInt8.ofNat (v <<< (pos % 8) >>> 8))] else [],
      op.1 = m / 8 ∧ op.2.toNat.testBit (m % 8) = true) ↔
      ∃ b, b < width ∧ pos + b = m ∧ v.testBit b = true := by
  have beyond : ∀ {b}, v.testBit b = true → b < width := by
    intro b set
    by_contra high
    rw [testBit_of_le fits (by omega)] at set
    cases set
  have bit : m % 8 < 8 := Nat.mod_lt _ (by decide)
  simp only [List.mem_cons, exists_eq_or_imp, ofNat_testBit, Nat.testBit_shiftLeft,
    decide_eq_true bit, Bool.true_and, Bool.and_eq_true, decide_eq_true_eq]
  constructor
  · intro held
    rcases held with ⟨byte, low, set⟩ | ⟨op, mem, byte, set⟩
    · exact ⟨m % 8 - pos % 8, beyond set, by omega, set⟩
    · split at mem
      · rw [List.mem_singleton] at mem
        subst mem
        rw [ofNat_testBit, Nat.testBit_shiftRight, Nat.testBit_shiftLeft] at set
        simp only [Bool.and_eq_true, decide_eq_true_eq] at set
        dsimp only at byte
        exact ⟨8 + m % 8 - pos % 8, beyond set.2.2, by omega, set.2.2⟩
      · exact absurd mem List.not_mem_nil
  · intro held
    obtain ⟨b, inWidth, at_m, set⟩ := held
    by_cases here : pos % 8 + b < 8
    · refine .inl ⟨by omega, by omega, ?_⟩
      rwa [show m % 8 - pos % 8 = b by omega]
    · refine .inr ⟨_, by rw [if_pos (by omega)]; exact List.mem_singleton_self _, ?_, ?_⟩
      · dsimp only
        omega
      · rw [ofNat_testBit, Nat.testBit_shiftRight, Nat.testBit_shiftLeft,
          show 8 + m % 8 - pos % 8 = b by omega, set]
        simp only [Bool.and_true, Bool.and_eq_true, decide_eq_true_eq]
        omega

theorem filled_magnitudes {count : ℕ} {bits : UInt8} (positive : 0 < bits.toNat)
    (narrow : bits.toNat ≤ 8)
    (counted : count * bits.toNat + 7 < 2 ^ 32) :
    (magnitudePlaces count bits.toNat).Filled (magnitudeOps bits) where
  inside := by
    intro i v below _ op mem
    have next : (i + 1) * bits.toNat ≤ count * bits.toNat := Nat.mul_le_mul_right _ below
    rw [Nat.succ_mul] at next
    simp only [magnitudeOps, bitPos_toNat below counted, List.mem_cons] at mem
    rcases mem with rfl | mem
    · dsimp only
      omega
    · split at mem
      · rw [List.mem_singleton] at mem
        subst mem
        dsimp only
        omega
      · exact absurd mem List.not_mem_nil
  bits := by
    intro i v below fits m
    simp only [magnitudeOps, bitPos_toNat below counted]
    exact straddling_bits fits narrow

/-- The one or two bytes from byte `pos / 8` on hold the bits from `pos` on. -/
theorem window_spec {packed : Buffer} {pos width : ℕ} (narrow : width ≤ 8)
    (first : pos / 8 < packed.size) (second : 8 < pos % 8 + width → pos / 8 + 1 < packed.size) :
    ∃ window, (if 8 < pos % 8 + width then
        (packed.byteAt (pos / 8)).bind fun low =>
          (packed.byteAt (pos / 8 + 1)).map fun high => low.toNat ||| high.toNat <<< 8
      else (packed.byteAt (pos / 8)).map UInt8.toNat) = some window ∧
      ∀ j, j < width → window.testBit (pos % 8 + j) = packed.bit (pos + j) := by
  rw [Buffer.byteAt_inside first]
  by_cases straddles : 8 < pos % 8 + width
  · rw [if_pos straddles, Option.bind_some, Buffer.byteAt_inside (second straddles)]
    refine ⟨_, rfl, fun j inWidth => ?_⟩
    rw [Nat.testBit_or, Nat.testBit_shiftLeft, Buffer.bit]
    by_cases here : pos % 8 + j < 8
    · rw [show (pos + j) / 8 = pos / 8 by omega, show (pos + j) % 8 = pos % 8 + j by omega]
      simp [show ¬ 8 ≤ pos % 8 + j by omega]
    · rw [byte_testBit_high _ (by omega), show (pos + j) / 8 = pos / 8 + 1 by omega,
        show (pos + j) % 8 = pos % 8 + j - 8 by omega]
      simp [show 8 ≤ pos % 8 + j by omega]
  · rw [if_neg straddles]
    refine ⟨_, rfl, fun j inWidth => ?_⟩
    rw [Buffer.bit, show (pos + j) / 8 = pos / 8 by omega,
      show (pos + j) % 8 = pos % 8 + j by omega]

theorem read_magnitudes {count : ℕ} {bits : UInt8} {packed : Buffer} (narrow : bits.toNat ≤ 4)
    (positive : 0 < bits.toNat) (counted : count * bits.toNat + 7 < 2 ^ 32)
    (large : (count * bits.toNat + 7) / 8 ≤ packed.size) :
    (magnitudePlaces count bits.toNat).Read packed (readMagnitude packed bits) := by
  intro i below
  have next : (i + 1) * bits.toNat ≤ count * bits.toNat := Nat.mul_le_mul_right _ below
  rw [Nat.succ_mul] at next
  simp only [Places.ReadAt, Places.Assembled, show ∀ j, (magnitudePlaces count bits.toNat).place i j =
    i * bits.toNat + j from fun j => rfl]
  unfold readMagnitude
  by_cases two : bits = 2
  · subst two
    rw [if_pos rfl]
    simp only [UInt8.reduceToNat] at next large ⊢
    obtain ⟨v, read, held⟩ := @readField_spec packed (i / 4) (i % 4 * 2) 2 0x03 (by omega)
      (by omega) rfl
    refine ⟨v, read, fun j _ => ?_⟩
    rw [held, show 8 * (i / 4) + i % 4 * 2 + j = i * 2 + j by omega]
  · rw [if_neg two]
    by_cases four : bits = 4
    · subst four
      rw [if_pos rfl]
      simp only [UInt8.reduceToNat] at next large ⊢
      obtain ⟨v, read, held⟩ := @readField_spec packed (i / 2) (i % 2 * 4) 4 0x0F (by omega)
        (by omega) rfl
      refine ⟨v, read, fun j _ => ?_⟩
      rw [held, show 8 * (i / 2) + i % 2 * 4 + j = i * 4 + j by omega]
    · rw [if_neg four]
      simp only [bitPos_toNat below counted]
      obtain ⟨window, read, held⟩ := @window_spec packed (i * bits.toNat) bits.toNat (by omega)
        (by omega) (by omega)
      refine ⟨_, by rw [read, Option.map_some], fun j bit => ?_⟩
      rw [ofNat_testBit, decide_eq_true bit, Bool.true_and, Nat.testBit_and,
        Nat.testBit_shiftRight, Nat.testBit_two_pow_sub_one, Bool.and_comm]
      by_cases inWidth : j < bits.toNat
      · rw [held j inWidth]
      · simp [inWidth]

end VecFetch.Simd
