/-
# Codec.BitpackRoundTrip -- when packed values come back

Fields whose bits lie at different positions come back.  From `2 ^ 32` bits on the positions
of the first and the last fields meet, and a list comes back exactly when the bits that meet
are equal and the output, whose size is a `uint32_t`, still holds every position
(`bitpack_round_trip_iff`).
-/
import VecFetch.Codec.Bitpack
import VecFetch.Theory.MapM

namespace VecFetch.Codec

open VecFetch.Theory VecFetch.Simd

set_option autoImplicit false

/-- `BitpackCodec::Decode`. -/
def decode (build : Build) (packed : Buffer) (bitWidth : UInt8) (count : ℕ) :
    Option (List UInt32) :=
  (List.range count).mapM (unpackValue build packed bitWidth count)

/-! ## Bytes touched -/

/-- Every position of the first `count` fields is in one of `size` bytes. -/
def PlacesIn (bitWidth count size : ℕ) : Prop :=
  ∀ i, i < count → ∀ b, b < bitWidth → place bitWidth i b / 8 < size

/-- A value that was written lay inside. -/
theorem writeBits_inside {fuel val bitsRemaining : ℕ} {curBit : UInt32} {packed packed' : Buffer}
    (enough : bitsRemaining ≤ fuel)
    (wrote : writeBits fuel val bitsRemaining curBit packed = some packed') :
    packed'.size = packed.size ∧
      ∀ b, b < bitsRemaining → (curBit.toNat + b) % 2 ^ 32 / 8 < packed.size := by
  induction fuel generalizing val bitsRemaining curBit packed with
  | zero =>
      cases wrote
      exact ⟨rfl, fun b below => by omega⟩
  | succ fuel ih =>
      rw [writeBits] at wrote
      by_cases more : 0 < bitsRemaining
      · have small := curBit.toNat_lt
        rw [if_pos more, Option.bind_eq_some_iff] at wrote
        obtain ⟨packed₁, ored, rest⟩ := wrote
        obtain ⟨size, here⟩ : packed₁.size = packed.size ∧
            curBit.toNat / 8 < packed.size := by
          rw [Buffer.orAt] at ored
          split at ored
          · next inside =>
              cases ored
              exact ⟨rfl, inside⟩
          · cases ored
        obtain ⟨size', later⟩ := ih (by omega) rest
        refine ⟨size'.trans size, fun b below => ?_⟩
        by_cases chunk : b < min (8 - curBit.toNat % 8) bitsRemaining
        · rw [Nat.mod_eq_of_lt (by omega)]
          omega
        · have next := later (b - min (8 - curBit.toNat % 8) bitsRemaining) (by omega)
          rw [add_ofNat_toNat, Nat.mod_add_mod, Nat.add_assoc, Nat.add_sub_of_le (by omega),
            size] at next
          exact next
      · rw [if_neg more] at wrote
        cases wrote
        exact ⟨rfl, fun b below => by omega⟩

theorem toUInt32_eq_ofNat (bitWidth : UInt8) :
    bitWidth.toUInt32 = UInt32.ofNat bitWidth.toNat := by
  apply UInt32.toNat_inj.1
  rw [UInt32.toNat_ofNat', UInt8.toNat_toUInt32]
  have := bitWidth.toNat_lt
  omega

/-- Values that were written lay inside. -/
theorem writeValues_inside {bitWidth : UInt8} {values : List UInt32} {n : ℕ} {bitPos : UInt32}
    {packed packed' : Buffer} (position : bitPos.toNat = n * bitWidth.toNat % 2 ^ 32)
    (wrote : writeValues bitWidth values bitPos packed = some packed') :
    ∀ i, i < values.length → ∀ b, b < bitWidth.toNat →
      place bitWidth.toNat (n + i) b / 8 < packed.size := by
  induction values generalizing n bitPos packed with
  | nil => exact fun i below => absurd below (by simp)
  | cons v values ih =>
      rw [writeValues, Option.bind_eq_some_iff] at wrote
      obtain ⟨packed₁, first, rest⟩ := wrote
      obtain ⟨size, inside⟩ := writeBits_inside (Nat.le_refl _) first
      have later := @ih (n + 1) (bitPos + bitWidth.toUInt32) packed₁ (by
        rw [toUInt32_eq_ofNat, add_ofNat_toNat, position, Nat.mod_add_mod, Nat.add_mul,
          Nat.one_mul]) rest
      intro i below b width
      cases i with
      | zero =>
          have here := inside b width
          rwa [position, Nat.mod_add_mod] at here
      | succ i =>
          have there := later i (by simpa using below) b width
          rwa [size, show n + 1 + i = n + (i + 1) by omega] at there

/-! ## The bytes written -/

/-- The size of the output, a `uint32_t`. -/
theorem encodedSize_eq {count : ℕ} {bitWidth : UInt8} (small : bitWidth.toNat ≤ 32)
    (countFits : count < 2 ^ 32) :
    (encodedSize (UInt32.ofNat count) bitWidth).toNat =
      (count * bitWidth.toNat + 7) / 8 % 2 ^ 32 := by
  have bound : count * bitWidth.toNat ≤ count * 32 := Nat.mul_le_mul_left _ small
  have product : ((UInt32.ofNat count).toUInt64 * bitWidth.toUInt64 + 7).toNat =
      count * bitWidth.toNat + 7 := by
    rw [UInt64.toNat_add, UInt64.toNat_mul, UInt32.toNat_toUInt64, UInt8.toNat_toUInt64,
      UInt32.toNat_ofNat', Nat.mod_eq_of_lt countFits]
    simp only [UInt64.reduceToNat, Nat.mod_add_mod]
    omega
  rw [encodedSize, UInt64.toNat_toUInt32, UInt64.toNat_div, product]
  rfl

/-- Where every position has a byte, `Encode` ors the values in. -/
theorem encode_places {values : List UInt32} {bitWidth : UInt8}
    (inside : PlacesIn bitWidth.toNat values.length
      (encodedSize (UInt32.ofNat values.length) bitWidth).toNat) :
    ∃ packed, encode values bitWidth = some packed ∧
      packed.size = (encodedSize (UInt32.ofNat values.length) bitWidth).toNat ∧
      ∀ m, packed.bit m = true ↔ ∃ i, i < values.length ∧ ∃ b, b < bitWidth.toNat ∧
        place bitWidth.toNat i b = m ∧ (values.getD i 0).toNat.testBit b = true := by
  obtain ⟨packed, wrote, size, bits⟩ := @writeValues_spec bitWidth values 0 0
    (.zeros (encodedSize (UInt32.ofNat values.length) bitWidth).toNat) (by simp) (by
      intro i below b width
      rw [Nat.zero_add]
      exact inside i below b width)
  refine ⟨packed, wrote, size, fun m => ?_⟩
  rw [bits]
  simp [Buffer.bit, Buffer.zeros]

/-- A list that was encoded has a byte for every position. -/
theorem encode_inside {values : List UInt32} {bitWidth : UInt8} {packed : Buffer}
    (wrote : encode values bitWidth = some packed) :
    PlacesIn bitWidth.toNat values.length
      (encodedSize (UInt32.ofNat values.length) bitWidth).toNat := by
  intro i below b width
  have inside := @writeValues_inside bitWidth values 0 0 _ _ (by simp) wrote i below b width
  rwa [Nat.zero_add] at inside

/-- Where every position has a byte, each build reads the bits at a value's positions. -/
theorem unpackValue_places (build : Build) {packed : Buffer} {bitWidth : UInt8} {count i : ℕ}
    (small : bitWidth.toNat ≤ 32) (countFits : count < 2 ^ 32) (below : i < count)
    (inside : PlacesIn bitWidth.toNat count packed.size) :
    ∃ v, unpackValue build packed bitWidth count i = some v ∧ ∀ b, v.toNat.testBit b =
      (decide (b < bitWidth.toNat) && packed.bit (place bitWidth.toNat i b)) := by
  by_cases one : bitWidth = 1
  · have width : bitWidth.toNat = 1 := by rw [one]; rfl
    have last := inside (count - 1) (by omega) 0 (by omega)
    rw [width, place, Nat.mul_one, Nat.add_zero, Nat.mod_eq_of_lt (by omega)] at last
    exact unpackValue_spec build small countFits below (by rw [width]; omega)
  · have scalar : unpackValue build packed bitWidth count i = unpackScalar packed bitWidth i := by
      cases build <;> simp [unpackValue, one]
    obtain ⟨v, read, bits⟩ := @readBits_spec packed bitWidth.toNat bitWidth.toNat 0 0
      (i * bitWidth.toNat) (UInt32.ofNat (i * bitWidth.toNat)) (by omega) (by omega)
      (by rw [UInt32.toNat_ofNat', Nat.add_zero]) (fun b width => inside i below b width) (by simp)
    refine ⟨UInt32.ofNat v, by rw [scalar, unpackScalar, read, Option.map_some], fun b => ?_⟩
    rw [UInt32.toNat_ofNat', Nat.testBit_mod_two_pow, bits, place]
    by_cases width : b < bitWidth.toNat
    · simp [width, show b < 32 by omega]
    · simp [width]

/-! ## Lists that come back -/

/-- Bits that meet at one position are equal. -/
def BitsAgree (values : List UInt32) (bitWidth : ℕ) : Prop :=
  ∀ i, i < values.length → ∀ b, b < bitWidth → ∀ j, j < values.length → ∀ c, c < bitWidth →
    place bitWidth i b = place bitWidth j c →
      (values.getD i 0).toNat.testBit b = (values.getD j 0).toNat.testBit c

/-- Decoding what `Encode` wrote gives the list back, in every build. -/
def RoundTrips (values : List UInt32) (bitWidth : UInt8) : Prop :=
  ∃ packed, encode values bitWidth = some packed ∧
    ∀ build, decode build packed bitWidth values.length = some values

/-- A list comes back from the bits it was or-ed into if those that meet agree. -/
theorem roundTrips_of_places {values : List UInt32} {bitWidth : UInt8}
    (small : bitWidth.toNat ≤ 32) (countFits : values.length < 2 ^ 32)
    (below : ∀ v ∈ values, v.toNat < 2 ^ bitWidth.toNat)
    (inside : PlacesIn bitWidth.toNat values.length
      (encodedSize (UInt32.ofNat values.length) bitWidth).toNat)
    (agree : BitsAgree values bitWidth.toNat) : RoundTrips values bitWidth := by
  obtain ⟨packed, wrote, size, bits⟩ := encode_places inside
  refine ⟨packed, wrote, fun build => (mapM_range_iff 0).2 ⟨rfl, fun i inRange => ?_⟩⟩
  obtain ⟨v, read, value⟩ := unpackValue_places build small countFits inRange
    (by rwa [size])
  rw [read]
  congr 1
  apply UInt32.toNat_inj.1
  apply Nat.eq_of_testBit_eq
  intro b
  rw [value]
  by_cases width : b < bitWidth.toNat
  · rw [decide_eq_true width, Bool.true_and, Bool.eq_iff_iff, bits]
    constructor
    · rintro ⟨j, inList, c, inWidth, meet, set⟩
      rwa [agree i inRange b width j inList c inWidth meet.symm]
    · intro set
      exact ⟨i, inRange, b, width, rfl, set⟩
  · have bound := below (values.getD i 0) (by
      rw [List.getD_eq_getElem _ _ inRange]
      exact List.getElem_mem _)
    rw [testBit_of_le bound (by omega)]
    simp [width]

/-- In a list that comes back the bits that meet agree. -/
theorem RoundTrips.agree {values : List UInt32} {bitWidth : UInt8}
    (small : bitWidth.toNat ≤ 32) (countFits : values.length < 2 ^ 32)
    (roundTrips : RoundTrips values bitWidth) : BitsAgree values bitWidth.toNat := by
  obtain ⟨packed, wrote, back⟩ := roundTrips
  have inside := encode_inside wrote
  obtain ⟨packed', wrote', size, _⟩ := encode_places inside
  obtain rfl : packed = packed' := Option.some.inj (wrote.symm.trans wrote')
  have stored : ∀ i, i < values.length → ∀ b, b < bitWidth.toNat →
      (values.getD i 0).toNat.testBit b = packed.bit (place bitWidth.toNat i b) := by
    intro i inRange b width
    obtain ⟨v, read, value⟩ := unpackValue_places .scalar small countFits inRange
      (by rwa [size])
    have given := ((mapM_range_iff 0).1 (back .scalar)).2 i inRange
    rw [← Option.some.inj (read.symm.trans given), value, decide_eq_true width, Bool.true_and]
  intro i inRange b width j inList c inWidth meet
  rw [stored i inRange b width, stored j inList c inWidth, meet]

/-- From `2 ^ 32` bits on every position is a field's. -/
theorem place_all {bitWidth count m : ℕ} (many : 2 ^ 32 ≤ count * bitWidth) (small : m < 2 ^ 32) :
    ∃ i, i < count ∧ ∃ b, b < bitWidth ∧ place bitWidth i b = m := by
  have positive : 0 < bitWidth := by
    rcases Nat.eq_zero_or_pos bitWidth with zero | positive
    · rw [zero, Nat.mul_zero] at many
      omega
    · exact positive
  refine ⟨m / bitWidth, ?_, m % bitWidth, Nat.mod_lt _ positive, ?_⟩
  · rw [Nat.div_lt_iff_lt_mul positive]
    omega
  · rw [place, Nat.div_add_mod', Nat.mod_eq_of_lt small]

/-- The lists that come back: the bits do not wrap, or, where they do, those that meet agree
and the `uint32_t` size still holds `2 ^ 29` bytes. -/
def Fits (values : List UInt32) (bitWidth : ℕ) : Prop :=
  values.length * bitWidth ≤ 2 ^ 32 ∨
    (2 ^ 29 ≤ (values.length * bitWidth + 7) / 8 % 2 ^ 32 ∧ BitsAgree values bitWidth)

theorem roundTrips_iff {values : List UInt32} {bitWidth : UInt8} (small : bitWidth.toNat ≤ 32)
    (countFits : values.length < 2 ^ 32)
    (below : ∀ v ∈ values, v.toNat < 2 ^ bitWidth.toNat) :
    RoundTrips values bitWidth ↔ Fits values bitWidth.toNat := by
  have size := encodedSize_eq small countFits
  constructor
  · intro roundTrips
    by_cases few : values.length * bitWidth.toNat ≤ 2 ^ 32
    · exact .inl few
    · refine .inr ⟨?_, roundTrips.agree small countFits⟩
      obtain ⟨packed, wrote, _⟩ := roundTrips
      obtain ⟨i, inRange, b, width, last⟩ := @place_all bitWidth.toNat values.length (2 ^ 32 - 1)
        (by omega) (by omega)
      have inside := encode_inside wrote i inRange b width
      rw [last, size] at inside
      omega
  · rintro (few | ⟨room, agree⟩)
    · refine roundTrips_of_places small countFits below ?_ ?_
      · intro i inRange b width
        have used := place_lt inRange width
        rw [size]
        omega
      · intro i inRange b width j inList c inWidth meet
        rw [place_eq few inRange width, place_eq few inList inWidth] at meet
        obtain ⟨rfl, rfl⟩ := row_unique inWidth width meet
        rfl
    · refine roundTrips_of_places small countFits below ?_ agree
      intro i inRange b width
      have wrapped : place bitWidth.toNat i b < 2 ^ 32 := Nat.mod_lt _ (by omega)
      rw [size]
      omega

/-! ## The least width -/

/-- The least width from 1 to 32 that holds every value. -/
structure LeastWidth (values : List UInt32) (bitWidth : ℕ) : Prop where
  low : 1 ≤ bitWidth
  high : bitWidth ≤ 32
  holds : ∀ v ∈ values, v.toNat < 2 ^ bitWidth
  least : ∀ width, 1 ≤ width → (∀ v ∈ values, v.toNat < 2 ^ width) → bitWidth ≤ width

theorem countBits_zero (n : ℕ) : countBits n 0 = 0 := by
  cases n <;> simp [countBits]

/-- A value needs all the bits that were counted. -/
theorem countBits_le {n : ℕ} (v : UInt32) (bound : v.toNat < 2 ^ n) (small : n ≤ 32)
    (nonzero : v ≠ 0) : 2 ^ ((countBits n v).toNat - 1) ≤ v.toNat := by
  induction n generalizing v with
  | zero => exact absurd (UInt32.toNat_inj.1 (by simpa using bound)) nonzero
  | succ n ih =>
      have half : (v >>> 1).toNat = v.toNat / 2 := by
        rw [UInt32.toNat_shiftRight]
        simp [Nat.shiftRight_eq_div_pow]
      have positive : v.toNat ≠ 0 := fun zero => nonzero (UInt32.toNat_inj.1 (by simpa using zero))
      rw [Nat.pow_succ] at bound
      have width := (countBits_spec n (v >>> 1) (by omega) (by omega)).2
      have next : (countBits n (v >>> 1) + 1).toNat = (countBits n (v >>> 1)).toNat + 1 := by
        rw [UInt8.toNat_add]
        simp only [UInt8.reduceToNat]
        omega
      rw [countBits, if_neg nonzero, next, Nat.add_sub_cancel]
      by_cases last : v >>> 1 = 0
      · rw [last, countBits_zero]
        simp only [UInt8.reduceToNat, Nat.pow_zero]
        omega
      · have rest := ih (v >>> 1) (by omega) (by omega) last
        obtain ⟨c, counted⟩ : ∃ c, (countBits n (v >>> 1)).toNat = c + 1 := by
          refine ⟨(countBits n (v >>> 1)).toNat - 1, ?_⟩
          have some_bit := (countBits_spec n (v >>> 1) (by omega) (by omega)).1
          by_contra none_counted
          rw [show (countBits n (v >>> 1)).toNat = 0 by omega] at some_bit
          exact last (UInt32.toNat_inj.1 (by simpa using some_bit))
        rw [counted] at rest ⊢
        rw [Nat.add_sub_cancel] at rest
        rw [Nat.pow_succ]
        omega

/-- The largest value is one of the list, or the 0 the loop starts from. -/
theorem maxValue_mem (values : List UInt32) : maxValue values = 0 ∨ maxValue values ∈ values := by
  have kept : ∀ (values : List UInt32) (start : UInt32),
      values.foldl (fun maxVal v => if maxVal < v then v else maxVal) start = start ∨
      values.foldl (fun maxVal v => if maxVal < v then v else maxVal) start ∈ values := by
    intro values
    induction values with
    | nil => exact fun start => .inl rfl
    | cons w values ih =>
        intro start
        rw [List.foldl_cons]
        rcases ih (if start < w then w else start) with same | mem
        · rw [same]
          by_cases more : start < w
          · rw [if_pos more]
            exact .inr List.mem_cons_self
          · rw [if_neg more]
            exact .inl rfl
        · exact .inr (List.mem_cons_of_mem _ mem)
  exact kept values 0

/-- With no bound on the values the width is the least that holds them. -/
theorem computeMinBitWidth_least (values : List UInt32) :
    LeastWidth values (computeMinBitWidth values 0xFFFFFFFF).toNat := by
  obtain ⟨low, high, holds⟩ := computeMinBitWidth_spec values
  refine ⟨low, high, holds, fun width positive fits => ?_⟩
  have noBound : ¬ (0xFFFFFFFF : UInt32) < maxValue values := by
    have := (maxValue values).toNat_lt
    rw [UInt32.lt_iff_toNat_lt]
    simp only [UInt32.reduceToNat]
    omega
  unfold computeMinBitWidth
  rw [if_neg noBound]
  by_cases empty : values.isEmpty = true
  · rw [if_pos empty]
    exact positive
  · rw [if_neg empty]
    by_cases zero : maxValue values = 0
    · rw [if_pos zero]
      exact positive
    · rw [if_neg zero]
      have held := fits _ ((maxValue_mem values).resolve_left zero)
      have needed := countBits_le (maxValue values) (maxValue values).toNat_lt (by omega) zero
      have exponents := (Nat.pow_lt_pow_iff_right (by omega)).1 (Nat.lt_of_le_of_lt needed held)
      omega

/-- **Packed values come back exactly where their bits fit**, and the width is the least. -/
theorem bitpack_round_trip_iff (values : List UInt32) (bitWidth : UInt8)
    (high : bitWidth.toNat ≤ 32) (countFits : values.length < 2 ^ 32)
    (below : ∀ v ∈ values, v.toNat < 2 ^ bitWidth.toNat) :
    (RoundTrips values bitWidth ∧ LeastWidth values (computeMinBitWidth values 0xFFFFFFFF).toNat) ↔
      Fits values bitWidth.toNat := by
  rw [roundTrips_iff high countFits below, and_iff_left (computeMinBitWidth_least values)]

theorem bitpack_round_trip_iff_of_two :
    (RoundTrips [5, 6] 3 ∧ LeastWidth [5, 6] (computeMinBitWidth [5, 6] 0xFFFFFFFF).toNat) ↔
      Fits [5, 6] 3 :=
  bitpack_round_trip_iff [5, 6] 3 (by decide) (by decide) (by simp)

/-- At 32 bits the value at `2 ^ 27` lies on the first one. -/
theorem first_value_lost {n : ℕ} (wraps : n = 2 ^ 27) :
    ¬ RoundTrips (List.replicate n 0 ++ [1]) 32 := by
  intro roundTrips
  have length : (List.replicate n (0 : UInt32) ++ [1]).length = n + 1 := by simp
  have first : (List.replicate n (0 : UInt32) ++ [1]).getD 0 0 = 0 := by
    rw [List.getD_append _ _ _ _ (by rw [List.length_replicate]; omega)]
    simp
  have last : (List.replicate n (0 : UInt32) ++ [1]).getD n 0 = 1 := by
    rw [List.getD_append_right _ _ _ _ (by simp)]
    simp
  have agree := roundTrips.agree (by decide) (by rw [length]; omega) 0 (by rw [length]; omega) 0
    (by decide) n (by rw [length]; omega) 0 (by decide) (by
      simp only [place, UInt8.reduceToNat, Nat.zero_mul, Nat.add_zero]
      omega)
  rw [first, last] at agree
  cases agree

/-- 2 ^ 27 zeros and a one: the first value reads back as one. -/
theorem bitpack_wraps :
    ¬ (RoundTrips (List.replicate 134217728 0 ++ [1]) 32 ∧
      LeastWidth (List.replicate 134217728 0 ++ [1])
        (computeMinBitWidth (List.replicate 134217728 0 ++ [1]) 0xFFFFFFFF).toNat) :=
  fun both => first_value_lost (by norm_num) both.1

end VecFetch.Codec
