/-
# Storage.StoreSigns -- the FastScan region of a written cluster

A buffer that has the FastScan region of a cluster gives each record its sign bits and its norm
back (`FastScanHeld.unpacks`, `FastScanHeld.norm`).
-/
import VecFetch.Storage.ClusterSizes
import VecFetch.Storage.ClusterTrailer
import VecFetch.Storage.UnpackCodes
import VecFetch.Theory.Parts

namespace VecFetch.Storage

open VecFetch.Theory VecFetch.Simd VecFetch.Rabitq

set_option autoImplicit false

/-! ## Words -/

theorem load32_has {b : Buffer} {off : ℕ} {v : UInt32} (has : b.Has off (leBytes 4 v.toNat)) :
    load32 b off = .ok v := by
  have inside := has.inside
  rw [leBytes_length] at inside
  rw [load32_inside inside, wordAt]
  exact congrArg Except.ok
    ((congrArg UInt32.ofNat (has.word v.toNat_lt)).trans UInt32.ofNat_toNat)

/-- A factor among factors. -/
theorem factor_has {b : Buffer} {off start count k : ℕ} {codes : List RaBitQCode}
    {factor : RaBitQCode → UInt32} {code : RaBitQCode}
    (has : b.Has off (factorBytes codes factor start count)) (below : k < count)
    (found : codes[start + k]? = some code) :
    b.Has (off + k * 4) (leBytes 4 (factor code).toNat) := by
  have part := has.row below fun _ _ => leBytes_length 4 _
  rwa [found] at part

/-- Words with the same bits. -/
theorem word64_ext {v w : UInt64} (bits : ∀ j, j < 64 → v.toNat.testBit j = w.toNat.testBit j) :
    v = w := by
  apply UInt64.toNat_inj.1
  apply Nat.eq_of_testBit_eq
  intro j
  by_cases small : j < 64
  · exact bits j small
  · have large : 2 ^ 64 ≤ 2 ^ j := Nat.pow_le_pow_right (by decide) (Nat.not_lt.1 small)
    rw [Nat.testBit_lt_two_pow (Nat.lt_of_lt_of_le v.toNat_lt large),
      Nat.testBit_lt_two_pow (Nat.lt_of_lt_of_le w.toNat_lt large)]

/-! ## Sign planes -/

/-- What a file keeps of a code's words: those of the first plane, up to the dimension. -/
def signWords (dim : ℕ) (code : RaBitQCode) : List UInt64 :=
  (List.range ((dim + 63) / 64)).map fun k =>
    UInt64.ofNat ((code.code.getD k 0).toNat % 2 ^ (dim - 64 * k))

theorem signBit_testBit (code : RaBitQCode) (d : ℕ) :
    (code.signBit d == 1) = (code.code.getD (d / 64) 0).toNat.testBit (d % 64) := by
  have amount : (UInt64.ofNat (d % 64)).toNat % 64 = d % 64 := by
    rw [UInt64.toNat_ofNat_of_lt' (by simp only [UInt64.size]; omega)]
    omega
  rw [RaBitQCode.signBit, UInt64.toNat_and, UInt64.toNat_shiftRight, amount, Nat.testBit,
    Nat.and_comm]
  have bit : (1 &&& (code.code.getD (d / 64) 0).toNat >>> (d % 64)) % 2 =
      1 &&& (code.code.getD (d / 64) 0).toNat >>> (d % 64) := by
    rw [Nat.one_and_eq_mod_two, Nat.mod_mod]
  show (1 &&& _ == 1) = (1 &&& _ != 0)
  rw [Bool.eq_iff_iff, beq_iff_eq, bne_iff_ne]
  omega

/-- The words of a plane are rebuilt from its bits. -/
theorem signWords_rebuilt {dim : ℕ} {code : RaBitQCode} {words : ℕ → UInt64}
    (bits : ∀ d, d < 64 * ((dim + 63) / 64) →
      wordBit words d = (decide (d < dim) && (code.signBit d == 1))) :
    (List.range ((dim + 63) / 64)).map words = signWords dim code := by
  refine List.map_congr_left fun k mem => word64_ext fun j small => ?_
  have below := List.mem_range.1 mem
  have word : (64 * k + j) / 64 = k := by omega
  have place : (64 * k + j) % 64 = j := by omega
  have bit := bits (64 * k + j) (by omega)
  have stored := signBit_testBit code (64 * k + j)
  have cut : (code.code.getD k 0).toNat % 2 ^ (dim - 64 * k) < 2 ^ 64 :=
    Nat.lt_of_le_of_lt (Nat.mod_le _ _) (UInt64.toNat_lt _)
  rw [wordBit, word, place] at bit
  rw [word, place] at stored
  rw [bit, stored, UInt64.toNat_ofNat', Nat.mod_eq_of_lt cut, Nat.testBit_mod_two_pow]
  exact congrArg (· && _) (decide_eq_decide.2 (by omega))

/-! ## The region -/

/-- A buffer with the FastScan region of codes that it holds. -/
structure FastScanHeld (dim : UInt32) (codes : List RaBitQCode) (b : Buffer) : Prop where
  whole : 4 ∣ dim.toNat
  small : fastScanBytes dim codes.length < 2 ^ 32
  clean : ∀ unit ∈ fastScanUnits dim codes, unit.emission.error = none
  has : b.Has 0 ((fastScanUnits dim codes).flatMap fun unit => unit.emission.bytes)

namespace FastScanHeld

variable {dim : UInt32} {codes : List RaBitQCode} {b : Buffer}

/-- The bytes of a block. -/
abbrev blockBytes (dim : UInt32) : ℕ := (dim.toNat + 7) / 8 * 32 + 128

/-- The block of a record, with its signs and its norms. -/
theorem block (held : FastScanHeld dim codes b) {k : ℕ} (below : k < (codes.length + 31) / 32) :
    ∃ packed, packSignBitsForFastScan dim.toNat
        (blockCodes codes (UInt32.ofNat codes.length) k) = some packed ∧
      b.Has (k * blockBytes dim) packed.toList ∧ packed.size = (dim.toNat + 7) / 8 * 32 ∧
      b.Has (k * blockBytes dim + (dim.toNat + 7) / 8 * 32)
        (factorBytes (blockCodes codes (UInt32.ofNat codes.length) k) RaBitQCode.norm 0 32) := by
  have count := numBlocks_counted held.small
  obtain ⟨-, size⟩ := fastScanBlockSize_counted (dim_small held.small (by omega))
  have clean : ∀ i, i < (codes.length + 31) / 32 →
      (fastScanUnit dim codes (UInt32.ofNat codes.length) i).emission.error = none := by
    intro i inside
    have each := held.clean
    rw [fastScanUnits, List.forall_mem_map] at each
    exact each i (List.mem_range.2 (by rw [count]; exact inside))
  have region := held.has
  rw [fastScanUnits, List.flatMap_map, count] at region
  have unit := region.row below fun i before => fastScanUnit_length (clean i (by omega))
  rw [size, Nat.zero_add] at unit
  have packs := clean k below
  simp only [fastScanUnit] at packs unit
  cases packed : packSignBitsForFastScan dim.toNat
      (blockCodes codes (UInt32.ofNat codes.length) k) with
  | none =>
      rw [packed] at packs
      cases packs
  | some out =>
      rw [packed] at unit
      have length : out.size = (dim.toNat + 7) / 8 * 32 := by rw [packSignBits_size packed, size]
      have norms := Buffer.Has.right unit
      rw [Buffer.toList_length, length] at norms
      exact ⟨out, rfl, Buffer.Has.left unit, length, norms⟩

/-- A record of a block. -/
theorem blockCodes_getElem? (held : FastScanHeld dim codes b) {i : ℕ} {code : RaBitQCode}
    (found : codes[i]? = some code) :
    (blockCodes codes (UInt32.ofNat codes.length) (i / 32))[i % 32]? = some code := by
  have below : i < codes.length := (List.getElem?_eq_some_iff.1 found).1
  rw [blockCodes, ofNat_count held.small, List.getElem?_take_of_lt (by omega), List.getElem?_drop,
    Nat.div_add_mod, found]

/-- **A record's signs are unpacked as they were.** -/
theorem unpacks (held : FastScanHeld dim codes b) {i : ℕ} {code : RaBitQCode}
    (found : codes[i]? = some code) : ∃ words,
      unpackSignBitsFromFastScan dim.toNat
          ⟨b.size - i / 32 * blockBytes dim, fun j => b.byte (i / 32 * blockBytes dim + j)⟩ (i % 32)
          (fun _ => 0) = some words ∧
        (List.range ((dim.toNat + 63) / 64)).map words = signWords dim.toNat code := by
  have below : i < codes.length := (List.getElem?_eq_some_iff.1 found).1
  have whole := held.whole
  have dims := dim_small held.small (by omega)
  obtain ⟨packed, packs, has, size, -⟩ := @block dim codes b held (i / 32) (by omega)
  have fits : 32 * ((dim.toNat / 4 + 1) / 2) ≤ fastScanPackedSize dim.toNat := by
    rw [(fastScanBlockSize_counted dims).2]
    omega
  obtain ⟨packed', packs', -, bytes⟩ := packSignBits_spec
    (blockCodes codes (UInt32.ofNat codes.length) (i / 32)) fits
  obtain rfl := Option.some.inj (packs.symm.trans packs')
  have inside := has.inside
  rw [Buffer.toList_length] at inside
  obtain ⟨words, unpacked, bits⟩ := @unpackSignBits_spec dim.toNat
    (blockCodes codes (UInt32.ofNat codes.length) (i / 32)) whole (by omega)
    ⟨b.size - i / 32 * blockBytes dim, fun j => b.byte (i / 32 * blockBytes dim + j)⟩
    (by show _ ≤ b.size - _; omega) (fun g inGroups j inPair => by
      rw [← bytes g inGroups j inPair]
      have byte := has.bytes (32 * g + j) (by rw [Buffer.toList_length]; omega)
      rw [byte, Buffer.toList, List.getD_eq_getElem?_getD, List.getElem?_map,
        List.getElem?_range (by omega)]
      rfl) (i % 32) (Nat.mod_lt _ (by decide)) fun _ => 0
  refine ⟨words, unpacked, signWords_rebuilt fun d below => ?_⟩
  rw [bits d below, laneSign, held.blockCodes_getElem? found]

/-- **A record's norm is read as it was.** -/
theorem norm (held : FastScanHeld dim codes b) {i : ℕ} {code : RaBitQCode}
    (found : codes[i]? = some code) :
    load32 b (i / 32 * blockBytes dim + (dim.toNat + 7) / 8 * 32 + i % 32 * 4) =
      .ok code.norm := by
  have below : i < codes.length := (List.getElem?_eq_some_iff.1 found).1
  obtain ⟨-, -, -, -, norms⟩ := @block dim codes b held (i / 32) (by omega)
  refine load32_has (factor_has norms (Nat.mod_lt _ (by decide)) ?_)
  rw [Nat.zero_add]
  exact held.blockCodes_getElem? found

end FastScanHeld

end VecFetch.Storage
