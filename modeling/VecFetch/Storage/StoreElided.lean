/-
# Storage.StoreElided -- batch blocks without their empty planes

A plane of a block is a mask of the lanes that have a word of it, and their words.  The reader
counts the mask's bits below a lane to find the lane's word, and all its bits to find the next
plane; what it puts together is the block as it was packed (`loadElided`).
-/
import VecFetch.Storage.StoreBatches

namespace VecFetch.Storage

open VecFetch.Theory VecFetch.Simd VecFetch.Rabitq

set_option autoImplicit false

/-! ## Masks -/

section Elided

theorem testBit_masked (l : List ℕ) (a i : ℕ) :
    (l.foldl (fun mask lane => mask ||| 1 <<< lane) a).testBit i =
      (a.testBit i || decide (i ∈ l)) := by
  induction l generalizing a with
  | nil => simp
  | cons lane l ih =>
      rw [List.foldl_cons, ih, Nat.testBit_or, Nat.one_shiftLeft, Nat.testBit_two_pow,
        Bool.or_assoc]
      simp only [List.mem_cons, Bool.decide_or, eq_comm]

theorem length_filter_range (p : ℕ → Bool) (m : ℕ) :
    ((List.range m).filter p).length = ∑ d ∈ Finset.range m, (p d).toNat := by
  induction m with
  | zero => rfl
  | succ m ih =>
      rw [List.range_succ, List.filter_append, List.length_append, ih, Finset.sum_range_succ]
      cases here : p m <;> simp [here]

/-- The set bits of a byte are the numbers below `m` that are picked. -/
theorem bitCount_picked {p : ℕ → Bool} {x m : ℕ} (few : m ≤ 8)
    (bits : ∀ d, d < 8 → x.testBit d = (decide (d < m) && p d)) :
    bitCount 8 x = ((List.range m).filter p).length := by
  rw [length_filter_range, bitCount]
  have inside : Finset.range m ⊆ Finset.range 8 := Finset.range_subset_range.2 few
  rw [← Finset.sum_subset inside fun d small large => by
    rw [bits d (Finset.mem_range.1 small),
      decide_eq_false (fun below => large (Finset.mem_range.2 below))]
    rfl]
  refine Finset.sum_congr rfl fun d small => ?_
  have below := Finset.mem_range.1 small
  rw [bits d (by omega), decide_eq_true below, Bool.true_and]

/-! ## One plane -/

variable {config : StoreConfig} {dim : UInt32} {codes : List RaBitQCode} {n : UInt32}
variable {bb db plane lane : ℕ} {b : Buffer}

/-- The plane of a lane has a word. -/
def hasWord (config : StoreConfig) (dim : UInt32) (codes : List RaBitQCode) (bb db plane lane : ℕ) :
    Bool :=
  (laneWord config dim (laneCode codes bb lane) db plane).any (· ≠ 0)

/-- The mask of a plane. -/
def planeMask (config : StoreConfig) (dim : UInt32) (codes : List RaBitQCode) (n : UInt32)
    (bb db plane : ℕ) : UInt8 :=
  UInt8.ofNat (((List.range (validCount n bb)).filter (hasWord config dim codes bb db plane)).foldl
    (fun mask lane => mask ||| 1 <<< lane) 0)

theorem elidedPlane_bytes : (elidedPlane config dim codes n bb db plane).bytes =
    planeMask config dim codes n bb db plane ::
      ((List.range (validCount n bb)).filter (hasWord config dim codes bb db plane)).flatMap
        fun lane => laneWord config dim (laneCode codes bb lane) db plane := rfl

theorem planeMask_testBit {d : ℕ} (small : d < 8) :
    (planeMask config dim codes n bb db plane).toNat.testBit d =
      (decide (d < validCount n bb) && hasWord config dim codes bb db plane d) := by
  rw [planeMask, UInt8.toNat_ofNat', Nat.testBit_mod_two_pow, decide_eq_true small, Bool.true_and,
    testBit_masked, Nat.zero_testBit, Bool.false_or, ← Bool.decide_coe (_ && _)]
  simp

theorem planeMask_count :
    popcountLow8 (planeMask config dim codes n bb db plane).toNat =
      ((List.range (validCount n bb)).filter (hasWord config dim codes bb db plane)).length :=
  bitCount_picked (validCount_le n bb) fun _ small => planeMask_testBit small

theorem planeMask_rank (below : lane < validCount n bb) :
    popcountLow8 ((planeMask config dim codes n bb db plane).toNat &&& (1 <<< lane - 1)) =
      ((List.range lane).filter (hasWord config dim codes bb db plane)).length := by
  have few := validCount_le n bb
  refine bitCount_picked (by omega) fun d small => ?_
  rw [Nat.testBit_and, Nat.one_shiftLeft, Nat.testBit_two_pow_sub_one, planeMask_testBit small]
  by_cases early : d < lane
  · have inside : d < validCount n bb := by omega
    simp [early, inside]
  · simp [early]

/-- The bytes of a plane. -/
theorem elidedPlane_length (words : ∀ lane, lane < validCount n bb →
      (laneWord config dim (laneCode codes bb lane) db plane).length = 8) :
    (elidedPlane config dim codes n bb db plane).bytes.length =
      1 + popcountLow8 (planeMask config dim codes n bb db plane).toNat * 8 := by
  rw [elidedPlane_bytes, List.length_cons, planeMask_count, List.length_flatMap,
    List.map_congr_left fun lane mem => words lane
      (List.mem_range.1 (List.mem_of_mem_filter mem)), List.map_const', List.sum_replicate,
    smul_eq_mul]
  exact Nat.add_comm _ _

/-- The word of a lane that has one. -/
theorem elidedPlane_word {cursor : ℕ} (words : ∀ lane, lane < validCount n bb →
      (laneWord config dim (laneCode codes bb lane) db plane).length = 8)
    (has : b.Has cursor (elidedPlane config dim codes n bb db plane).bytes)
    (below : lane < validCount n bb) (present : hasWord config dim codes bb db plane lane = true) :
    b.Has (cursor + 1 + popcountLow8 ((planeMask config dim codes n bb db plane).toNat &&&
        (1 <<< lane - 1)) * 8) (laneWord config dim (laneCode codes bb lane) db plane) := by
  have whole : b.Has cursor ([planeMask config dim codes n bb db plane] ++
      ((List.range (validCount n bb)).filter (hasWord config dim codes bb db plane)).flatMap
        fun lane => laneWord config dim (laneCode codes bb lane) db plane) := has
  have behind := whole.right
  rw [Buffer.range_around below, List.filter_append, List.filter_cons_of_pos present,
    List.flatMap_append, List.flatMap_cons] at behind
  have here := behind.right.left
  rw [List.length_flatMap, List.map_congr_left fun k mem => words k (by
    have early := List.mem_range.1 (List.mem_of_mem_filter mem)
    omega), List.map_const', List.sum_replicate, smul_eq_mul, ← planeMask_rank below] at here
  exact here

/-- What is loaded of a lane's block before a plane. -/
structure PlanesDone (config : StoreConfig) (dim : UInt32) (codes : List RaBitQCode) (n : UInt32)
    (bb db lane cursor plane : ℕ) (s : Buffer × ℕ) : Prop where
  room : s.1.size = 32
  words : ∀ j, j < 8 * plane →
    s.1.byte j = (packBitplanes config dim (laneCode codes bb lane) db).bytes.getD j 0
  clear : ∀ j, 8 * plane ≤ j → s.1.byte j = 0
  cursor : s.2 = cursor + ((List.range plane).flatMap fun k =>
    (elidedPlane config dim codes n bb db k).bytes).length

theorem laneWord_getD {code : RaBitQCode} {j : ℕ} (small : j < 8) :
    (laneWord config dim code db plane).getD j 0 =
      (packBitplanes config dim code db).bytes.getD (8 * plane + j) 0 := by
  rw [laneWord, slice, List.getD_eq_getElem?_getD, List.getElem?_take_of_lt small,
    List.getElem?_drop, ← List.getD_eq_getElem?_getD]

/-- A plane whose mask is known. -/
theorem loadElidedPlane_eq {s : Buffer × ℕ} {mask : UInt8} (inside : s.2 + 1 ≤ b.size)
    (byte : b.byte s.2 = mask) :
    loadElidedPlane b lane plane s =
      (if mask.toNat.testBit lane then
        (Result.inBounds (b.load (s.2 + 1 + popcountLow8 (mask.toNat &&& (1 <<< lane - 1)) * 8)
          8)).bind fun word => Result.inBounds (s.1.store (plane * 8) 8 word)
      else .ok s.1).map fun laneBuf =>
        (laneBuf, s.2 + 1 + popcountLow8 mask.toNat * 8) := by
  subst byte
  rw [loadElidedPlane, Buffer.load_inside inside]
  rfl

/-- **One plane is loaded.** -/
theorem PlanesDone.loads {cursor : ℕ} {s : Buffer × ℕ}
    (done : PlanesDone config dim codes n bb db lane cursor plane s)
    (words : ∀ lane, lane < validCount n bb →
      (laneWord config dim (laneCode codes bb lane) db plane).length = 8)
    (has : b.Has (cursor + ((List.range plane).flatMap fun k =>
      (elidedPlane config dim codes n bb db k).bytes).length)
        (elidedPlane config dim codes n bb db plane).bytes)
    (below : lane < validCount n bb) (room : plane < 4) :
    ∃ s', loadElidedPlane b lane plane s = .ok s' ∧
      PlanesDone config dim codes n bb db lane cursor (plane + 1) s' := by
  have few := validCount_le n bb
  rw [← done.cursor] at has
  have inside := has.inside
  rw [elidedPlane_length words] at inside
  have mask : b.byte s.2 = planeMask config dim codes n bb db plane := by
    have first := has.bytes 0 (by rw [elidedPlane_length words]; omega)
    rwa [elidedPlane_bytes] at first
  have next : s.2 + 1 + popcountLow8 (planeMask config dim codes n bb db plane).toNat * 8 =
      cursor + ((List.range (plane + 1)).flatMap fun k =>
        (elidedPlane config dim codes n bb db k).bytes).length := by
    rw [List.range_succ, List.flatMap_append, List.length_append, List.flatMap_singleton,
      elidedPlane_length words, done.cursor]
    omega
  rw [loadElidedPlane_eq (show s.2 + 1 ≤ b.size by omega) mask,
    planeMask_testBit (show lane < 8 by omega), decide_eq_true below, Bool.true_and]
  cases present : hasWord config dim codes bb db plane lane with
  | true =>
      have word := elidedPlane_word words has below present
      have wordInside := word.inside
      rw [words lane below] at wordInside
      obtain ⟨laneBuf, stored, size, written, kept⟩ := @Buffer.store_spec s.1 (plane * 8) 8
        (by rw [done.room]; omega) fun j => b.byte (s.2 + 1 + popcountLow8
          ((planeMask config dim codes n bb db plane).toNat &&& (1 <<< lane - 1)) * 8 + j)
      refine ⟨⟨laneBuf, _⟩, ?_, size.trans done.room, fun j early => ?_, fun j late => ?_, next⟩
      · rw [if_pos rfl, Buffer.load_inside wordInside]
        dsimp only [Result.inBounds, Except.bind]
        rw [stored]
        rfl
      · by_cases before : j < 8 * plane
        · rw [kept j (.inl (by omega)), done.words j before]
        · have place : j = plane * 8 + (j - 8 * plane) := by omega
          have byte := word.bytes (j - 8 * plane) (by rw [words lane below]; omega)
          rw [laneWord_getD (by omega)] at byte
          have back : 8 * plane + (j - 8 * plane) = j := by omega
          rw [back] at byte
          conv_lhs => rw [place]
          rw [written (j - 8 * plane) (by omega), byte]
      · rw [kept j (.inr (by omega)), done.clear j (by omega)]
  | false =>
      refine ⟨⟨s.1, _⟩, rfl, done.room, fun j early => ?_, fun j late => done.clear j (by omega),
        next⟩
      by_cases before : j < 8 * plane
      · exact done.words j before
      · rw [done.clear j (by omega)]
        have byte := @laneWord_getD config dim db plane (laneCode codes bb lane) (j - 8 * plane)
          (by omega)
        have back : 8 * plane + (j - 8 * plane) = j := by omega
        rw [back] at byte
        rw [← byte]
        have length := words lane below
        have zero : ∀ v ∈ laneWord config dim (laneCode codes bb lane) db plane, v = 0 := by
          simpa [hasWord] using present
        rw [List.getD_eq_getElem _ _ (by omega)]
        exact (zero _ (List.getElem_mem _)).symm

/-! ## All planes -/

/-- The planes of a block. -/
def blockPlanes (config : StoreConfig) (dim : UInt32) (codes : List RaBitQCode) (n : UInt32)
    (bb db : ℕ) : List UInt8 :=
  (List.range config.stage2PayloadBits.toNat).flatMap fun plane =>
    (elidedPlane config dim codes n bb db plane).bytes

/-- Where the planes of block `db` start. -/
def planesAt (config : StoreConfig) (dim : UInt32) (codes : List RaBitQCode) (n : UInt32)
    (bb start db : ℕ) : ℕ :=
  start + ((List.range db).flatMap (blockPlanes config dim codes n bb)).length

/-- A batch block of elided planes, with the checks of its codes. -/
theorem zeroElideBody_clean (clean : (zeroElideBody config dim codes n bb).error = none) :
    (zeroElideBody config dim codes n bb).bytes =
        (List.range (dimBlockCount dim).toNat).flatMap (blockPlanes config dim codes n bb) ∧
      ∀ db, db < (dimBlockCount dim).toNat → ∀ lane, lane < validCount n bb →
        (laneCode codes bb lane).exCode.length = dim.toNat ∧
          (packBitplanes config dim (laneCode codes bb lane) db).error = none := by
  have planes : ∀ db, (Emission.all ((List.range config.stage2PayloadBits.toNat).map
      (elidedPlane config dim codes n bb db))).bytes = blockPlanes config dim codes n bb db := by
    intro db
    rw [Emission.all_bytes, List.flatMap_map, blockPlanes]
    refine Emission.all_clean.2 fun part mem => ?_
    obtain ⟨plane, -, rfl⟩ := List.mem_map.1 mem
    rfl
  have checks : ∀ db, (Emission.all ((List.range (validCount n bb)).map fun lane =>
      Emission.silent (.all [checkFolded dim "official ExRaBitQ v15 requires sign-folded ExData"
        (laneCode codes bb lane), packBitplanes config dim (laneCode codes bb lane) db]))).error =
          none → (Emission.all ((List.range (validCount n bb)).map fun lane =>
      Emission.silent (.all [checkFolded dim "official ExRaBitQ v15 requires sign-folded ExData"
        (laneCode codes bb lane), packBitplanes config dim (laneCode codes bb lane) db]))).bytes =
          [] := by
    intro db passed
    rw [Emission.all_bytes passed, List.flatMap_map]
    exact List.flatMap_eq_nil_iff.2 fun _ _ => rfl
  have blocks := Emission.all_clean.1 clean
  rw [List.forall_mem_map] at blocks
  constructor
  · rw [zeroElideBody, Emission.all_bytes clean, List.flatMap_map]
    refine List.flatMap_congr fun db mem => ?_
    have whole := blocks db mem
    have passed := (Emission.append_clean.1 whole).1
    rw [← planes db]
    exact (Emission.append_silent (checks db passed) whole).2
  · intro db inside lane below
    have passed := (Emission.append_clean.1 (blocks db (List.mem_range.2 inside))).1
    have code := Emission.all_clean.1 passed _ (List.mem_map_of_mem (List.mem_range.2 below))
    obtain ⟨length, packed, -⟩ := checked_clean code
    exact ⟨length, packed⟩

/-- **A block of elided planes is loaded** as it was packed. -/
theorem loadElided {cursor : ℕ} (words : ∀ plane, plane < config.stage2PayloadBits.toNat →
      ∀ lane, lane < validCount n bb →
        (laneWord config dim (laneCode codes bb lane) db plane).length = 8)
    (has : b.Has cursor (blockPlanes config dim codes n bb db)) (below : lane < validCount n bb)
    (few : config.stage2PayloadBits.toNat ≤ 4)
    (length : (packBitplanes config dim (laneCode codes bb lane) db).bytes.length =
      8 * config.stage2PayloadBits.toNat) :
    ∃ laneBuf, (List.range config.stage2PayloadBits.toNat).foldlM
        (fun s plane => loadElidedPlane b lane plane s) (Buffer.zeros 32, cursor) =
          .ok (laneBuf, cursor + (blockPlanes config dim codes n bb db).length) ∧
      laneBuf.Has 0 (packBitplanes config dim (laneCode codes bb lane) db).bytes := by
  have start : PlanesDone config dim codes n bb db lane cursor 0 (Buffer.zeros 32, cursor) :=
    ⟨rfl, fun j early => by omega, fun _ _ => rfl, rfl⟩
  obtain ⟨⟨laneBuf, stop⟩, run, done⟩ := foldlM_range_ok
    (PlanesDone config dim codes n bb db lane cursor) start fun plane s inside done =>
      done.loads (words plane inside) (has.nth inside) below (by omega)
  obtain rfl : stop = _ := done.cursor
  refine ⟨laneBuf, run, ?_, fun j inside => ?_⟩
  · rw [done.room, length]
    omega
  · rw [Nat.zero_add]
    exact done.words j (by omega)

end Elided

end VecFetch.Storage
