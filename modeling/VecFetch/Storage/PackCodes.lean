/-
# Storage.PackCodes -- the FastScan layout of sign bits

`PackSignBitsForFastScan` cuts the sign bits of up to 32 vectors into nibbles of four
dimensions and lays them out group by group: sixteen bytes to a group, two vectors to
a byte, in the order of `kPerm`.
-/
import VecFetch.Theory.Buffer
import VecFetch.Rabitq.Code
import Mathlib.Algebra.Ring.Nat

namespace VecFetch.Storage

open VecFetch.Theory VecFetch.Rabitq

set_option autoImplicit false

/-- The size of a block's packed codes, a `uint32_t`. -/
def fastScanPackedSize (dim : ℕ) : ℕ := (dim + 7) % 2 ^ 32 / 8 * 32 % 2 ^ 32

/-- The order of the vectors in a group's bytes. -/
def kPerm (j : ℕ) : ℕ := [0, 8, 1, 9, 2, 10, 3, 11, 4, 12, 5, 13, 6, 14, 7, 15].getD j 0

/-- The four sign bits of group `m`, the first dimension on top. -/
def signNibble (dim : ℕ) (c : RaBitQCode) (m : ℕ) : ℕ :=
  (List.range 4).foldl
    (fun nibble b =>
      if m * 4 + b < dim then nibble ||| c.signBit (m * 4 + b) <<< (3 - b) else nibble) 0

section Pack

variable (dim : ℕ) (codes : List RaBitQCode)

/-- A vector's byte for the groups `2i` and `2i + 1`; a missing vector's is zero. -/
def flatByte (k i : ℕ) : ℕ :=
  match codes[k]? with
  | none => 0
  | some c =>
      signNibble dim c (2 * i) |||
        (if 2 * i + 1 < dim / 4 then signNibble dim c (2 * i + 1) else 0) <<< 4

/-- Byte `j` of the 32 that hold the groups `2i` and `2i + 1`. -/
def pairByte (i j : ℕ) : UInt8 :=
  let nibble (k : ℕ) : ℕ :=
    if j < 16 then flatByte dim codes k i &&& 0x0F else flatByte dim codes k i >>> 4
  UInt8.ofNat (nibble (kPerm (j % 16)) ||| nibble (kPerm (j % 16) + 16) <<< 4)

/-- `PackSignBitsForFastScan`, into a zeroed buffer of `FastScanPackedSize` bytes. -/
def packSignBitsForFastScan : Option Buffer :=
  forRange (fun i out => out.store (32 * i) 32 (pairByte dim codes i)) ((dim / 4 + 1) / 2)
    (.zeros (fastScanPackedSize dim))

/-- The nibble of group `g` of vector `v`; a missing vector's is zero. -/
def codeNibble (v g : ℕ) : ℕ :=
  match codes[v]? with
  | none => 0
  | some c => signNibble dim c g

end Pack

/-! ## Nibbles -/

/-- Two nibbles in a byte. -/
theorem nibbles_or {x : ℕ} (nibble : x < 16) (y : ℕ) : x ||| y <<< 4 = x + 16 * y := by
  have := Nat.shiftLeft_add_eq_or_of_lt (show x < 2 ^ 4 from nibble) y
  rw [Nat.or_comm, ← this, Nat.shiftLeft_eq]
  omega

section Nibbles

variable {dim : ℕ} {codes : List RaBitQCode}

/-- The bits of a whole group's nibble. -/
theorem signNibble_eq (c : RaBitQCode) {m : ℕ} (whole : 4 * m + 4 ≤ dim) :
    signNibble dim c m = 8 * c.signBit (4 * m) + 4 * c.signBit (4 * m + 1) +
      2 * c.signBit (4 * m + 2) + c.signBit (4 * m + 3) := by
  have bits : ∀ a b c d : ℕ, a ≤ 1 → b ≤ 1 → c ≤ 1 → d ≤ 1 →
      0 ||| a <<< 3 ||| b <<< 2 ||| c <<< 1 ||| d <<< 0 = 8 * a + 4 * b + 2 * c + d := by
    intro a b c d ha hb hc hd
    rcases Nat.le_one_iff_eq_zero_or_eq_one.1 ha with rfl | rfl <;>
    rcases Nat.le_one_iff_eq_zero_or_eq_one.1 hb with rfl | rfl <;>
    rcases Nat.le_one_iff_eq_zero_or_eq_one.1 hc with rfl | rfl <;>
    rcases Nat.le_one_iff_eq_zero_or_eq_one.1 hd with rfl | rfl <;> rfl
  have unrolled : signNibble dim c m = 0 ||| c.signBit (m * 4) <<< 3 |||
      c.signBit (m * 4 + 1) <<< 2 ||| c.signBit (m * 4 + 2) <<< 1 |||
        c.signBit (m * 4 + 3) <<< 0 := by
    simp only [signNibble, List.range_succ, List.range_zero, List.nil_append, List.cons_append,
      List.foldl_cons, List.foldl_nil]
    rw [if_pos (by omega), if_pos (by omega), if_pos (by omega), if_pos (by omega)]
    rfl
  rw [unrolled, bits _ _ _ _ (c.signBit_le _) (c.signBit_le _) (c.signBit_le _) (c.signBit_le _),
    Nat.mul_comm m 4]

theorem signNibble_lt (c : RaBitQCode) {m : ℕ} (whole : 4 * m + 4 ≤ dim) :
    signNibble dim c m < 16 := by
  rw [signNibble_eq c whole]
  have := c.signBit_le (4 * m)
  have := c.signBit_le (4 * m + 1)
  have := c.signBit_le (4 * m + 2)
  have := c.signBit_le (4 * m + 3)
  omega

theorem codeNibble_lt (v : ℕ) {g : ℕ} (whole : 4 * g + 4 ≤ dim) :
    codeNibble dim codes v g < 16 := by
  unfold codeNibble
  split
  · decide
  · exact signNibble_lt _ whole

/-- The nibbles of a vector's byte; a last group stands alone. -/
theorem flatByte_eq (k : ℕ) {i : ℕ} (whole : 8 * i + 4 ≤ dim) :
    flatByte dim codes k i = codeNibble dim codes k (2 * i) +
      16 * if 2 * i + 1 < dim / 4 then codeNibble dim codes k (2 * i + 1) else 0 := by
  unfold flatByte codeNibble
  split
  · simp
  · rename_i c _
    rw [nibbles_or (signNibble_lt c (by omega))]

/-- Byte `j` of group `g` holds two vectors' nibbles. -/
theorem pairByte_eq {g : ℕ} (whole : 4 * g + 4 ≤ dim) {j : ℕ} (lane : j < 16) :
    (pairByte dim codes (g / 2) (g % 2 * 16 + j)).toNat =
      codeNibble dim codes (kPerm j) g + 16 * codeNibble dim codes (kPerm j + 16) g := by
  have half : ∀ k, (if g % 2 * 16 + j < 16 then flatByte dim codes k (g / 2) &&& 0x0F
      else flatByte dim codes k (g / 2) >>> 4) = codeNibble dim codes k g := by
    intro k
    have low := @codeNibble_lt dim codes k (2 * (g / 2)) (by omega)
    rw [flatByte_eq k (by omega), Nat.shiftRight_eq_div_pow,
      show ∀ n : ℕ, n &&& 0x0F = n % 16 from fun n => Nat.and_two_pow_sub_one_eq_mod n 4]
    split
    · rw [show 2 * (g / 2) = g by omega] at low ⊢
      omega
    · rw [if_pos (by omega), show 2 * (g / 2) + 1 = g by omega]
      omega
  have position : (g % 2 * 16 + j) % 16 = j := by omega
  have low := @codeNibble_lt dim codes (kPerm j) g (by omega)
  have high := @codeNibble_lt dim codes (kPerm j + 16) g (by omega)
  simp only [pairByte, half, position, UInt8.toNat_ofNat', nibbles_or low]
  omega

end Nibbles

/-! ## The packed block -/

section Packed

variable {dim : ℕ} {codes : List RaBitQCode}

/-- Where the pairs fit, packing succeeds and writes each pair's bytes. -/
theorem packSignBits_spec (codes : List RaBitQCode)
    (fits : 32 * ((dim / 4 + 1) / 2) ≤ fastScanPackedSize dim) :
    ∃ out, packSignBitsForFastScan dim codes = some out ∧ out.size = fastScanPackedSize dim ∧
      ∀ i < (dim / 4 + 1) / 2, ∀ j < 32, out.byte (32 * i + j) = pairByte dim codes i j := by
  refine forRange_spec (fun n (out : Buffer) => out.size = fastScanPackedSize dim ∧
    ∀ i < n, ∀ j < 32, out.byte (32 * i + j) = pairByte dim codes i j) ⟨rfl, ?_⟩ ?_
  · intro i none
    omega
  · rintro i out below ⟨size, written⟩
    obtain ⟨out', stored, size', here, frame⟩ :=
      Buffer.store_spec (show 32 * i + 32 ≤ out.size by omega) (pairByte dim codes i)
    refine ⟨out', stored, size'.trans size, fun k inside j lane => ?_⟩
    rcases Nat.lt_succ_iff_lt_or_eq.1 inside with earlier | rfl
    · rw [frame _ (.inl (by omega)), written k earlier j lane]
    · exact here j lane

/-- Packing that succeeds stays inside the buffer. -/
theorem packSignBits_inside {out : Buffer}
    (packed : packSignBitsForFastScan dim codes = some out) :
    32 * ((dim / 4 + 1) / 2) ≤ fastScanPackedSize dim := by
  refine (forRange_kept (fun n (out : Buffer) => out.size = fastScanPackedSize dim ∧
    32 * n ≤ fastScanPackedSize dim) ⟨rfl, Nat.zero_le _⟩ ?_ packed).2
  rintro i out out' - ⟨size, -⟩ stored
  refine ⟨(Buffer.store_size stored).trans size, ?_⟩
  by_contra outside
  rw [Buffer.store_outside (by omega)] at stored
  cases stored

end Packed

end VecFetch.Storage
