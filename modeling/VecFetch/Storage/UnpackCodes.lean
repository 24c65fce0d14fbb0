/-
# Storage.UnpackCodes -- reading a lane back out of the FastScan layout

`UnpackSignBitsFromFastScan` finds a vector's nibbles by the inverse of `kPerm` and sets its
sign bits in zeroed words.  It gives back what was packed, for every lane and with zeros for
the lanes without a vector, exactly where the size of a block, a `uint32_t`, does not wrap
(`signBits_roundTrip_iff`).
-/
import VecFetch.Storage.PackCodes
import Mathlib.Tactic.IntervalCases

namespace VecFetch.Storage

open VecFetch.Theory VecFetch.Rabitq

set_option autoImplicit false

/-- The place of a vector's nibble in its group. -/
def kInvPerm (lane : ℕ) : ℕ := [0, 2, 4, 6, 8, 10, 12, 14, 1, 3, 5, 7, 9, 11, 13, 15].getD lane 0

/-- `out_words[d / 64] |= static_cast<uint64_t>(bit) << (d % 64)`. -/
def orWordBit (words : ℕ → UInt64) (d bit : ℕ) : ℕ → UInt64 :=
  Function.update words (d / 64)
    (words (d / 64) ||| UInt64.ofNat bit <<< UInt64.ofNat (d % 64))

/-- The bits of group `g`, the first dimension on top. -/
def unpackNibble (dim nibble g : ℕ) (words : ℕ → UInt64) : ℕ → UInt64 :=
  (List.range 4).foldl
    (fun words b =>
      if g * 4 + b < dim then orWordBit words (g * 4 + b) ((nibble >>> (3 - b)) &&& 1) else words)
    words

/-- The nibble of a vector in the low or the high half of the lanes. -/
def halfNibble (inHighHalf : Bool) (byte : UInt8) : ℕ :=
  if inHighHalf then (byte.toNat >>> 4) &&& 0x0F else byte.toNat &&& 0x0F

/-- One turn of the loop: the groups `2i` and `2i + 1`. -/
def unpackPair (dim : ℕ) (packed : Buffer) (vecInBlock i : ℕ) (words : ℕ → UInt64) :
    Option (ℕ → UInt64) :=
  let inHighHalf := decide (16 ≤ vecInBlock)
  let laneIdx := if inHighHalf then vecInBlock - 16 else vecInBlock
  let permPos := kInvPerm laneIdx
  let pair := 32 * i % 2 ^ 32
  (packed.load (pair + permPos) 1).bind fun byte0 =>
    let words := unpackNibble dim (halfNibble inHighHalf (byte0 0)) (2 * i) words
    if 2 * i + 1 < dim / 4 then
      (packed.load (pair + (permPos + 16)) 1).map fun byte1 =>
        unpackNibble dim (halfNibble inHighHalf (byte1 0)) (2 * i + 1) words
    else some words

/-- `UnpackSignBitsFromFastScan`, onto what `out_words` holds. -/
def unpackSignBitsFromFastScan (dim : ℕ) (packed : Buffer) (vecInBlock : ℕ)
    (outWords : ℕ → UInt64) : Option (ℕ → UInt64) :=
  forRange (unpackPair dim packed vecInBlock) ((dim / 4 + 1) / 2)
    fun t => if t < (dim + 63) % 2 ^ 32 / 64 then 0 else outWords t

/-- Bit `d` of a row of words. -/
def wordBit (words : ℕ → UInt64) (d : ℕ) : Bool := (words (d / 64)).toNat.testBit (d % 64)

/-! ## Setting bits -/

theorem wordBit_orWordBit (words : ℕ → UInt64) (d : ℕ) {bit : ℕ} (small : bit ≤ 1) (e : ℕ) :
    wordBit (orWordBit words d bit) e = (wordBit words e || decide (e = d ∧ bit = 1)) := by
  have inside : d % 64 < 64 := Nat.mod_lt _ (by decide)
  unfold wordBit orWordBit
  by_cases same : e / 64 = d / 64
  · rw [same, Function.update_self, UInt64.toNat_or, Nat.testBit_or, UInt64.toNat_shiftLeft,
      UInt64.toNat_ofNat', UInt64.toNat_ofNat', Nat.mod_eq_of_lt (show d % 64 < 2 ^ 64 by omega),
      Nat.mod_eq_of_lt inside, Nat.mod_eq_of_lt (show bit < 2 ^ 64 by omega),
      Nat.testBit_mod_two_pow, decide_eq_true (show e % 64 < 64 by omega), Bool.true_and]
    congr 1
    rcases Nat.le_one_iff_eq_zero_or_eq_one.1 small with rfl | rfl
    · simp
    · rw [Nat.one_shiftLeft, Nat.testBit_two_pow]
      exact decide_eq_decide.2 (by omega)
  · rw [Function.update_of_ne same, decide_eq_false (fun at' => same (by rw [at'.1])),
      Bool.or_false]

theorem unpackNibble_spec {dim g : ℕ} (whole : 4 * g + 4 ≤ dim) (nibble : ℕ)
    (words : ℕ → UInt64) (e : ℕ) :
    wordBit (unpackNibble dim nibble g words) e =
      (wordBit words e || (decide (e / 4 = g) && nibble.testBit (3 - e % 4))) := by
  have bit : ∀ b, (nibble >>> b) &&& 1 ≤ 1 ∧
      ((nibble >>> b) &&& 1 = 1 ↔ nibble.testBit b = true) := by
    intro b
    refine ⟨Nat.and_le_right, ?_⟩
    rw [Nat.testBit, Nat.one_and_eq_mod_two, Nat.and_one_is_mod, bne_iff_ne]
    omega
  have unrolled : unpackNibble dim nibble g words =
      orWordBit (orWordBit (orWordBit (orWordBit words (4 * g) ((nibble >>> 3) &&& 1))
        (4 * g + 1) ((nibble >>> 2) &&& 1)) (4 * g + 2) ((nibble >>> 1) &&& 1))
        (4 * g + 3) ((nibble >>> 0) &&& 1) := by
    simp only [unpackNibble, List.range_succ, List.range_zero, List.nil_append, List.cons_append,
      List.foldl_cons, List.foldl_nil]
    rw [if_pos (by omega), if_pos (by omega), if_pos (by omega), if_pos (by omega),
      Nat.mul_comm g 4]
    rfl
  rw [unrolled, wordBit_orWordBit _ _ (bit 0).1, wordBit_orWordBit _ _ (bit 1).1,
    wordBit_orWordBit _ _ (bit 2).1, wordBit_orWordBit _ _ (bit 3).1]
  simp only [(bit 0).2, (bit 1).2, (bit 2).2, (bit 3).2, Bool.or_assoc]
  congr 1
  by_cases here : e / 4 = g
  · rw [decide_eq_true here, Bool.true_and]
    obtain last | last | last | last : e % 4 = 0 ∨ e % 4 = 1 ∨ e % 4 = 2 ∨ e % 4 = 3 := by omega
    all_goals
      rw [last]
      have whole' := Nat.div_add_mod e 4
      rw [here, last] at whole'
      subst whole'
      simp
  · rw [decide_eq_false here, Bool.false_and]
    simp only [Bool.or_eq_false_iff, decide_eq_false_iff_not]
    exact ⟨fun at' => here (by omega), fun at' => here (by omega), fun at' => here (by omega),
      fun at' => here (by omega)⟩

/-! ## The lane's nibbles -/

theorem kInvPerm_spec {lane : ℕ} (inside : lane < 16) :
    kInvPerm lane < 16 ∧ kPerm (kInvPerm lane) = lane := by
  interval_cases lane <;> decide

theorem halfNibble_eq {low high : ℕ} (small : low < 16) (small' : high < 16) {byte : UInt8}
    (both : byte.toNat = low + 16 * high) (inHighHalf : Bool) :
    halfNibble inHighHalf byte = if inHighHalf then high else low := by
  have masked : ∀ n : ℕ, n &&& 0x0F = n % 16 := fun n => Nat.and_two_pow_sub_one_eq_mod n 4
  rw [halfNibble, masked, masked, Nat.shiftRight_eq_div_pow, both]
  split <;> omega

section Lane

variable {dim : ℕ} {codes : List RaBitQCode}

theorem pairLane_lt {v : ℕ} (lane : v < 32) : (if decide (16 ≤ v) then v - 16 else v) < 16 := by
  simp only [decide_eq_true_eq]
  split <;> omega

/-- A lane's nibble of group `g` in a packed pair. -/
theorem packedNibble {g v : ℕ} (whole : 4 * g + 4 ≤ dim) (lane : v < 32) :
    halfNibble (decide (16 ≤ v)) (pairByte dim codes (g / 2)
      (g % 2 * 16 + kInvPerm (if decide (16 ≤ v) then v - 16 else v))) =
      codeNibble dim codes v g := by
  obtain ⟨place, back⟩ := kInvPerm_spec (pairLane_lt lane)
  rw [halfNibble_eq (codeNibble_lt _ whole) (codeNibble_lt _ whole) (pairByte_eq whole place), back]
  by_cases high : 16 ≤ v
  · rw [decide_eq_true high, if_pos rfl, if_pos rfl, Nat.sub_add_cancel high]
  · rw [decide_eq_false high, if_neg Bool.false_ne_true, if_neg Bool.false_ne_true]

/-- The sign bit of a lane; a missing vector's is zero. -/
def laneSign (codes : List RaBitQCode) (v d : ℕ) : Bool :=
  match codes[v]? with
  | none => false
  | some c => c.signBit d == 1

theorem codeNibble_testBit (v : ℕ) {d : ℕ} (whole : 4 * (d / 4) + 4 ≤ dim) :
    (codeNibble dim codes v (d / 4)).testBit (3 - d % 4) = laneSign codes v d := by
  unfold codeNibble laneSign
  cases codes[v]? with
  | none => exact Nat.zero_testBit _
  | some c =>
    dsimp only
    have first := c.signBit_le (4 * (d / 4))
    have second := c.signBit_le (4 * (d / 4) + 1)
    have third := c.signBit_le (4 * (d / 4) + 2)
    have fourth := c.signBit_le (4 * (d / 4) + 3)
    rw [signNibble_eq c whole, Nat.testBit, Nat.one_and_eq_mod_two, Nat.shiftRight_eq_div_pow,
      Bool.eq_iff_iff, bne_iff_ne, beq_iff_eq]
    have place : c.signBit d = c.signBit (4 * (d / 4) + d % 4) := by rw [Nat.div_add_mod]
    rw [place]
    obtain at' | at' | at' | at' : d % 4 = 0 ∨ d % 4 = 1 ∨ d % 4 = 2 ∨ d % 4 = 3 := by omega
    all_goals
      rw [at']
      simp only [Nat.add_zero, Nat.reducePow, Nat.reduceSub]
      omega

end Lane

/-! ## The round trip -/

/-- Up to 32 vectors of a dimension, each with its sign plane. -/
structure SignBlock (dim : ℕ) where
  codes : List RaBitQCode
  count_le : codes.length ≤ 32
  planes : ∀ c ∈ codes, (dim + 63) / 64 ≤ c.code.length

/-- Packing succeeds, and every lane is read back: its vector's sign bits up to the
dimension, and zeros past it and in a lane without a vector. -/
def SignBitsReadBack (dim : ℕ) (codes : List RaBitQCode) : Prop :=
  ∃ packed, packSignBitsForFastScan dim codes = some packed ∧
    ∀ v, v < 32 → ∀ outWords, ∃ words,
      unpackSignBitsFromFastScan dim packed v outWords = some words ∧
        ∀ d, d < 64 * ((dim + 63) / 64) → wordBit words d = (decide (d < dim) && laneSign codes v d)

section RoundTrip

variable {dim : ℕ} {codes : List RaBitQCode}

theorem unpackPair_spec (whole : 4 ∣ dim) (room : 32 * ((dim / 4 + 1) / 2) < 2 ^ 32)
    {packed : Buffer} (size : 32 * ((dim / 4 + 1) / 2) ≤ packed.size)
    (held : ∀ i < (dim / 4 + 1) / 2, ∀ j < 32, packed.byte (32 * i + j) = pairByte dim codes i j)
    {v : ℕ} (lane : v < 32) {i : ℕ} (inside : i < (dim / 4 + 1) / 2) (words : ℕ → UInt64) :
    ∃ words', unpackPair dim packed v i words = some words' ∧
      ∀ d, wordBit words' d =
        (wordBit words d || (decide (d / 8 = i ∧ d < dim) && laneSign codes v d)) := by
  have place : kInvPerm (if decide (16 ≤ v) then v - 16 else v) < 16 :=
    (kInvPerm_spec (pairLane_lt lane)).1
  have pair : 32 * i % 2 ^ 32 = 32 * i := Nat.mod_eq_of_lt (by omega)
  have first := @packedNibble dim codes (2 * i) v (by omega) lane
  rw [show 2 * i / 2 = i by omega, show 2 * i % 2 * 16 = 0 by omega, Nat.zero_add] at first
  have next : 2 * i + 1 < dim / 4 → halfNibble (decide (16 ≤ v)) (pairByte dim codes i
      (kInvPerm (if decide (16 ≤ v) then v - 16 else v) + 16)) =
        codeNibble dim codes v (2 * i + 1) := fun second => by
    have packed := @packedNibble dim codes (2 * i + 1) v (by omega) lane
    rwa [show (2 * i + 1) / 2 = i by omega, show (2 * i + 1) % 2 * 16 = 16 by omega,
      Nat.add_comm 16] at packed
  have bits : ∀ g, 4 * g + 4 ≤ dim → ∀ d, (decide (d / 4 = g) &&
      (codeNibble dim codes v g).testBit (3 - d % 4)) =
        (decide (d / 4 = g) && laneSign codes v d) := by
    intro g fits d
    by_cases here : d / 4 = g
    · subst here
      rw [codeNibble_testBit v fits]
    · rw [decide_eq_false here, Bool.false_and, Bool.false_and]
  unfold unpackPair
  dsimp only
  generalize kInvPerm (if decide (16 ≤ v) then v - 16 else v) = pos at place first next ⊢
  rw [pair, Buffer.load_inside (by omega), Option.bind_some]
  simp only [Nat.add_zero]
  rw [held i inside pos (by omega), first]
  by_cases second : 2 * i + 1 < dim / 4
  · rw [if_pos second, Buffer.load_inside (by omega), Option.map_some]
    refine ⟨_, rfl, fun d => ?_⟩
    simp only [Nat.add_zero]
    rw [held i inside (pos + 16) (by omega), next second,
      unpackNibble_spec (by omega), unpackNibble_spec (by omega), bits _ (by omega),
      bits _ (by omega), Bool.or_assoc,
      ← Bool.and_or_distrib_right, ← Bool.decide_or]
    congr 2
    exact decide_eq_decide.2 (by omega)
  · rw [if_neg second]
    refine ⟨_, rfl, fun d => ?_⟩
    rw [unpackNibble_spec (by omega), bits _ (by omega)]
    congr 2
    exact decide_eq_decide.2 (by omega)

/-- A lane is read from whatever holds its block. -/
theorem unpackSignBits_spec (whole : 4 ∣ dim) (room : (dim + 7) / 8 * 32 < 2 ^ 32)
    {packed : Buffer} (size : 32 * ((dim / 4 + 1) / 2) ≤ packed.size)
    (held : ∀ i < (dim / 4 + 1) / 2, ∀ j < 32, packed.byte (32 * i + j) = pairByte dim codes i j)
    {v : ℕ} (lane : v < 32) (outWords : ℕ → UInt64) : ∃ words,
      unpackSignBitsFromFastScan dim packed v outWords = some words ∧
        ∀ d, d < 64 * ((dim + 63) / 64) →
          wordBit words d = (decide (d < dim) && laneSign codes v d) := by
  have loop : ∃ words, unpackSignBitsFromFastScan dim packed v outWords = some words ∧
      ∀ d, d < 64 * ((dim + 63) / 64) → wordBit words d =
        (decide (d < 8 * ((dim / 4 + 1) / 2) ∧ d < dim) && laneSign codes v d) := by
    refine forRange_spec (fun n words => ∀ d, d < 64 * ((dim + 63) / 64) →
      wordBit words d = (decide (d < 8 * n ∧ d < dim) && laneSign codes v d)) ?_ ?_
    · intro d inside
      rw [Nat.mod_eq_of_lt (show dim + 63 < 2 ^ 32 by omega), wordBit, if_pos (by omega),
        decide_eq_false (by omega), Bool.false_and]
      exact Nat.zero_testBit _
    · intro i words below bits
      obtain ⟨words', turned, bits'⟩ := unpackPair_spec whole (by omega)
        size held lane below words
      refine ⟨words', turned, fun d inside => ?_⟩
      rw [bits' d, bits d inside, ← Bool.and_or_distrib_right, ← Bool.decide_or]
      congr 1
      exact decide_eq_decide.2 (by omega)
  obtain ⟨words, unpacked, bits⟩ := loop
  refine ⟨words, unpacked, fun d inside => ?_⟩
  rw [bits d inside]
  congr 1
  exact decide_eq_decide.2 (by omega)

/-- What was packed is read back where the block's size does not wrap. -/
theorem signBits_readBack (whole : 4 ∣ dim) (room : (dim + 7) / 8 * 32 < 2 ^ 32) :
    SignBitsReadBack dim codes := by
  have size : fastScanPackedSize dim = (dim + 7) / 8 * 32 := by
    rw [fastScanPackedSize, Nat.mod_eq_of_lt (show dim + 7 < 2 ^ 32 by omega), Nat.mod_eq_of_lt room]
  obtain ⟨packed, packs, length, held⟩ := packSignBits_spec codes
    (show 32 * ((dim / 4 + 1) / 2) ≤ fastScanPackedSize dim by omega)
  exact ⟨packed, packs, fun v lane outWords =>
    unpackSignBits_spec whole room (by omega) held lane outWords⟩

end RoundTrip

/-- **Sign bits are read back exactly where the size of their block, a `uint32_t`, does not
wrap**: for every number of vectors and whatever their bits. -/
theorem signBits_roundTrip_iff (dim : UInt32) (whole : 4 ∣ dim.toNat)
    (block : SignBlock dim.toNat) :
    SignBitsReadBack dim.toNat block.codes ↔ (dim.toNat + 7) / 8 * 32 < 2 ^ 32 := by
  refine ⟨fun ⟨packed, packs, _⟩ => ?_, signBits_readBack whole⟩
  have inside := packSignBits_inside packs
  have small : fastScanPackedSize dim.toNat < 2 ^ 32 := Nat.mod_lt _ (by decide)
  omega

/-- The law for one vector of twelve dimensions. -/
theorem signBits_roundTrip_iff_twelve :
    SignBitsReadBack 12 [⟨[0xA5F], 0, 0, 1, [], [], 0, false, 0, 0⟩] ↔ (12 + 7) / 8 * 32 < 2 ^ 32 :=
  signBits_roundTrip_iff 12 (by decide)
    ⟨[⟨[0xA5F], 0, 0, 1, [], [], 0, false, 0, 0⟩], by decide, by decide⟩

/-- A block of `2 ^ 30 - 4` dimensions has a size of `2 ^ 32` bytes, which is stored as zero. -/
theorem wide_block_not_packed : ¬ SignBitsReadBack 1073741820 [] := by
  rintro ⟨packed, packs, _⟩
  exact absurd (packSignBits_inside packs) (by decide)

end VecFetch.Storage
