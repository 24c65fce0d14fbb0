/-
# Simd.ExDataTiles -- bit-major tiles

While more than 512 codes remain a tile has 512; the last tile is the smallest of 64, 128,
256 and 512 that holds the rest.  So code `i` lies in tile `i / 512`, whose planes have
`tilePlane` bytes, and the loops over the tiles are loops over the codes
(`packTiles_eq`, `unpackTiles_spec`).
-/
import VecFetch.Simd.ExDataPlaces

namespace VecFetch.Simd

open VecFetch.Theory

set_option autoImplicit false

/-! ## Tile sizes -/

theorem tileDims_le (n : ℕ) : exRaBitQBitMajorTileDims n ≤ 512 := by
  unfold exRaBitQBitMajorTileDims
  split_ifs <;> omega

theorem tileDims_positive {n : ℕ} (some : 0 < n) : 64 ≤ exRaBitQBitMajorTileDims n := by
  unfold exRaBitQBitMajorTileDims
  split_ifs <;> omega

theorem tileDims_large {n : ℕ} (large : 256 < n) : exRaBitQBitMajorTileDims n = 512 := by
  rw [exRaBitQBitMajorTileDims, if_neg (by omega), if_pos large]

/-- A tile holds what remains, up to 512 codes. -/
theorem tileDims_holds (n : ℕ) : min 512 n ≤ exRaBitQBitMajorTileDims n := by
  unfold exRaBitQBitMajorTileDims
  split_ifs <;> omega

theorem tileDims_eight (n : ℕ) : 8 * (exRaBitQBitMajorTileDims n / 8) = exRaBitQBitMajorTileDims n := by
  unfold exRaBitQBitMajorTileDims
  split_ifs <;> rfl

/-- The bytes of a plane of tile `k`. -/
def tilePlane (count k : ℕ) : ℕ := exRaBitQBitMajorTileDims (count - 512 * k) / 8

theorem tileChunks (count : ℕ) : PlaneChunks count 64 (tilePlane count) where
  positive := by decide
  short := by
    intro k
    have := tileDims_le (count - 512 * k)
    rw [tilePlane]
    omega
  whole := by
    intro k before
    rw [tilePlane, tileDims_large (by omega)]
  room := by
    intro i below
    rw [tilePlane, tileDims_eight]
    have := tileDims_holds (count - 512 * (i / (8 * 64)))
    omega

/-! ## The loops over the tiles -/

/-- A tile is the last one, or has 512 codes. -/
theorem tile_cases {count k : ℕ} (more : 512 * k < count) :
    (512 < count - 512 * k ∧ exRaBitQBitMajorTileDims (count - 512 * k) = 512) ∨
      (count - 512 * k ≤ 512 ∧ k = (count - 1) / 512 ∧
        min (exRaBitQBitMajorTileDims (count - 512 * k)) (count - 512 * k) = count - 512 * k) := by
  rcases Nat.lt_or_ge 512 (count - 512 * k) with large | last
  · exact .inl ⟨large, tileDims_large (by omega)⟩
  · have holds := tileDims_holds (count - 512 * k)
    exact .inr ⟨last, by omega, by omega⟩

/-- The size of the tiles from tile `k` on. -/
theorem tileVectorBytes_eq {dim bits : ℕ} (narrow : bits ≤ 3) (small : dim < 2 ^ 32) :
    ∀ {fuel k : ℕ}, 512 * k < dim → dim ≤ 512 * k + fuel →
      tileVectorBytes dim bits fuel (512 * k) (k * (64 * bits)) =
        (dim - 1) / 512 * (64 * bits) + bits * tilePlane dim ((dim - 1) / 512)
  | 0, k, more, enough => by omega
  | fuel + 1, k, more, enough => by
      have positive := tileDims_positive (show 0 < dim - 512 * k by omega)
      have plane : bits * (exRaBitQBitMajorTileDims (dim - 512 * k) / 8) ≤ bits * 64 := by
        have := tileDims_le (dim - 512 * k)
        exact Nat.mul_le_mul_left _ (by omega)
      have before : k * (64 * bits) ≤ k * 192 := Nat.mul_le_mul_left _ (by omega)
      rw [tileVectorBytes, if_pos more]
      dsimp only
      rw [if_neg (by omega), if_neg (by omega)]
      rcases tile_cases more with ⟨large, whole⟩ | ⟨-, last, rest⟩
      · rw [whole, Nat.min_eq_left (Nat.le_of_lt large), show 512 * k + 512 = 512 * (k + 1) by omega,
          show k * (64 * bits) + bits * (512 / 8) = (k + 1) * (64 * bits) by
            rw [Nat.succ_mul k, Nat.mul_comm bits]]
        exact tileVectorBytes_eq narrow small (by omega) (by omega)
      · rw [rest, show 512 * k + (dim - 512 * k) = dim by omega, ← last, tilePlane]
        cases fuel with
        | zero => rfl
        | succ fuel => rw [tileVectorBytes, if_neg (by omega)]

/-- The bytes of code `i` in its tile. -/
def tileOps (count bits i : ℕ) : UInt8 → List (ℕ × UInt8) :=
  planeOps bits (i / 512 * (64 * bits)) (tilePlane count (i / 512)) (i % 512)

/-- From tile `k` on, the loop packs the rest of the codes. -/
theorem packTiles_eq {decoded : ℕ → UInt8} {count bits : ℕ} :
    ∀ {fuel k : ℕ} {packed : Buffer}, 512 * k < count → count ≤ 512 * k + fuel →
      packTiles decoded count bits fuel (512 * k) (k * (64 * bits)) packed =
        packFields (2 ^ bits - 1) (fun i => decoded (512 * k + i))
          (fun i => tileOps count bits (512 * k + i)) (count - 512 * k) packed
  | 0, k, packed, more, enough => by omega
  | fuel + 1, k, packed, more, enough => by
      have tile : ∀ {n : ℕ} {packed : Buffer}, n ≤ 512 →
          packFields (2 ^ bits - 1) (fun i => decoded (512 * k + i))
            (planeOps bits (k * (64 * bits)) (exRaBitQBitMajorTileDims (count - 512 * k) / 8)) n
            packed =
          packFields (2 ^ bits - 1) (fun i => decoded (512 * k + i))
            (fun i => tileOps count bits (512 * k + i)) n packed := by
        intro n packed within
        refine packFields_congr fun i below => ?_
        rw [tileOps, show (512 * k + i) / 512 = k by omega,
          show (512 * k + i) % 512 = i by omega, tilePlane]
      rw [packTiles, if_pos more]
      dsimp only
      rcases tile_cases more with ⟨large, whole⟩ | ⟨short, -, rest⟩
      · have next : ∀ packed : Buffer, packTiles decoded count bits fuel (512 * k + 512)
            (k * (64 * bits) + bits * (512 / 8)) packed =
            packFields (2 ^ bits - 1) (fun i => decoded (512 * k + (512 + i)))
              (fun i => tileOps count bits (512 * k + (512 + i))) (count - 512 * (k + 1)) packed := by
          intro packed
          rw [show 512 * k + 512 = 512 * (k + 1) by omega,
            show k * (64 * bits) + bits * (512 / 8) = (k + 1) * (64 * bits) by
              rw [Nat.succ_mul k, Nat.mul_comm bits],
            packTiles_eq (by omega) (by omega)]
          simp only [show ∀ i, 512 * (k + 1) + i = 512 * k + (512 + i) by omega]
        rw [tile (by omega), whole, Nat.min_eq_left (Nat.le_of_lt large), funext next,
          show count - 512 * k = 512 + (count - 512 * (k + 1)) by omega, packFields_append]
      · rw [rest, tile short, show 512 * k + (count - 512 * k) = count by omega]
        cases packFields (2 ^ bits - 1) (fun i => decoded (512 * k + i))
            (fun i => tileOps count bits (512 * k + i)) (count - 512 * k) packed with
        | error fault => rfl
        | ok packed =>
            rw [Except.bind]
            cases fuel with
            | zero => rfl
            | succ fuel => rw [packTiles, if_neg (by omega)]

/-- The places of the tiles. -/
def tilePlaces (count bits : ℕ) := (tileChunks count).places bits

theorem tile_placed (count bits i b : ℕ) : (tilePlaces count bits).place i b =
    8 * (i / 512 * (64 * bits) + b * tilePlane count (i / 512)) + i % 512 := rfl

/-- From codes unpacked below tile `k`, the loop unpacks the rest. -/
theorem unpackTiles_spec {packed : Buffer} {count bits : ℕ}
    (large : (count - 1) / 512 * (64 * bits) + bits * tilePlane count ((count - 1) / 512) ≤
      packed.size) :
    ∀ {fuel k : ℕ} {decoded : Buffer}, 512 * k < count → count ≤ 512 * k + fuel →
      (tilePlaces count bits).Unpacked packed (512 * k) decoded →
      ∃ decoded', unpackTiles packed count bits fuel (512 * k) (k * (64 * bits)) decoded =
        some decoded' ∧ (tilePlaces count bits).Unpacked packed count decoded'
  | 0, k, decoded, more, enough, _ => by omega
  | fuel + 1, k, decoded, more, enough, before => by
      have reads : ∀ {stop}, stop ≤ count → stop ≤ 512 * k + 512 →
          ∀ i, 512 * k ≤ i → i < stop → (tilePlaces count bits).ReadAt packed (fun i =>
            readPlanes packed bits (k * (64 * bits))
              (exRaBitQBitMajorTileDims (count - 512 * k) / 8) (i - 512 * k)) i := by
        intro stop within tile i low below
        have read := read_planes large (tile_placed count bits) i (by omega)
        rw [Places.ReadAt, show i / 512 = k by omega, show i % 512 = i - 512 * k by omega] at read
        exact read
      rw [unpackTiles, if_pos more]
      dsimp only
      rcases tile_cases more with ⟨whole, dims⟩ | ⟨short, -, rest⟩
      · obtain ⟨after, run, unpacked⟩ := Places.unpackFields_spec
          (show 512 * k ≤ 512 * k + 512 by omega) (by omega) (reads (by omega) (by omega)) before
        rw [dims] at run
        rw [dims, Nat.min_eq_left (Nat.le_of_lt whole), run, Option.bind_some,
          show 512 * k + 512 = 512 * (k + 1) by omega,
          show k * (64 * bits) + bits * (512 / 8) = (k + 1) * (64 * bits) by
            rw [Nat.succ_mul k, Nat.mul_comm bits]]
        exact unpackTiles_spec large (by omega) (by omega) unpacked
      · obtain ⟨after, run, unpacked⟩ := Places.unpackFields_spec
          (show 512 * k ≤ count by omega) (by omega) (reads (by omega) (by omega)) before
        refine ⟨after, ?_, unpacked⟩
        rw [rest, show 512 * k + (count - 512 * k) = count by omega, run, Option.bind_some]
        cases fuel with
        | zero => rfl
        | succ fuel => rw [unpackTiles, if_neg (by omega)]

end VecFetch.Simd
