/-
# Simd.Hadamard -- the fast Walsh-Hadamard transform in place

Each level replaces every pair of entries `len` apart by its sum and difference.  Within a
level no entry belongs to two pairs, so the loops, one pair or sixteen at a time, do the same
(`sweep_done`); after `k` levels every block of `2 ^ k` entries holds its transform, and both
builds end with the transform of the whole (`fwht_low`).

A vector is a function on indices.  `n` is a power of two at every call, so the 32-bit
counters of the loops do not wrap.
-/
import VecFetch.Theory.Walsh

namespace VecFetch.Simd

open VecFetch.Theory

set_option autoImplicit false

variable {K : Type}

/-! ## The loops -/

section Loops

variable [Add K] [Sub K]

/-- One pair: both entries are loaded before both are stored. -/
def butterfly (len p : ℕ) (vec : ℕ → K) : ℕ → K :=
  Function.update (Function.update vec p (vec p + vec (p + len))) (p + len)
    (vec p - vec (p + len))

/-- Sixteen pairs at once. -/
def butterfly16 (len p : ℕ) (vec : ℕ → K) (i : ℕ) : K :=
  if p + len ≤ i ∧ i < p + len + 16 then vec (i - len) - vec i
  else if p ≤ i ∧ i < p + 16 then vec i + vec (i + len)
  else vec i

/-- `for (i = 0; i < bound; i += step)`. -/
def upTo (bound step : ℕ) : List ℕ := (List.range ((bound + step - 1) / step)).map (· * step)

/-- Where the two inner loops of a level go, `step` pairs at a time. -/
def positions (n len step : ℕ) : List ℕ :=
  (upTo n (2 * len)).flatMap fun i => (upTo len step).map fun j => i + j

/-- One level. -/
def level (n len : ℕ) (vec : ℕ → K) : ℕ → K :=
  (positions n len 1).foldl (fun vec p => butterfly len p vec) vec

def level16 (n len : ℕ) (vec : ℕ → K) : ℕ → K :=
  (positions n len 16).foldl (fun vec p => butterfly16 len p vec) vec

/-- `for (; len < n; len <<= 1)`: a 32-bit number doubles at most 32 times. -/
def levels (body : ℕ → (ℕ → K) → ℕ → K) (n : ℕ) : ℕ → ℕ → (ℕ → K) → ℕ → K
  | 0, _, vec => vec
  | fuel + 1, len, vec =>
      if len < n then levels body n fuel (len * 2) (body len vec) else vec

def fwhtScalar (vec : ℕ → K) (n : ℕ) : ℕ → K := levels (level n) n 32 1 vec

/-- `FWHT_AVX512`: with AVX-512 the levels from 16 on take sixteen pairs at a time. -/
def fwht (avx512 : Bool) (vec : ℕ → K) (n : ℕ) : ℕ → K :=
  if avx512 then levels (fun len => if len < 16 then level n len else level16 n len) n 32 1 vec
  else fwhtScalar vec n

end Loops

/-! ## What a level does -/

section Levels

variable [CommRing K]

/-- The pairs that start in `P`, and only these, have been replaced. -/
structure Done (len : ℕ) (P : ℕ → Prop) (vec vec' : ℕ → K) : Prop where
  sums : ∀ i, P i → vec' i = vec i + vec (i + len)
  differences : ∀ i, P i → vec' (i + len) = vec i - vec (i + len)
  others : ∀ i, ¬ P i → (∀ j, i = j + len → ¬ P j) → vec' i = vec i

/-- The first entry of a pair of the level. -/
def Lower (len i : ℕ) : Prop := i / len % 2 = 0

theorem not_lower_add {len i : ℕ} (positive : 0 < len) (lower : Lower len i) :
    ¬ Lower len (i + len) := by
  unfold Lower at lower ⊢
  rw [Nat.add_div_right _ positive]
  omega

theorem Done.trans {len : ℕ} {P Q : ℕ → Prop} {vec vec' vec'' : ℕ → K} (positive : 0 < len)
    (first : Done len P vec vec') (second : Done len Q vec' vec'')
    (lowerP : ∀ i, P i → Lower len i) (lowerQ : ∀ i, Q i → Lower len i)
    (apart : ∀ i, P i → ¬ Q i) : Done len (fun i => P i ∨ Q i) vec vec'' := by
  -- what one of the two replaces the other leaves alone
  have keepsP : ∀ i, P i → vec'' i = vec' i ∧ vec'' (i + len) = vec' (i + len) := by
    intro i inP
    have lower := lowerP i inP
    refine ⟨second.others i (apart i inP) fun j shifted inQ => ?_,
      second.others _ (fun inQ => not_lower_add positive lower (lowerQ _ inQ))
        fun j same inQ => ?_⟩
    · exact not_lower_add positive (lowerQ j inQ) (shifted ▸ lower)
    · obtain rfl := Nat.add_right_cancel same
      exact apart i inP inQ
  have keepsQ : ∀ i, Q i → vec' i = vec i ∧ vec' (i + len) = vec (i + len) := by
    intro i inQ
    have lower := lowerQ i inQ
    refine ⟨first.others i (fun inP => apart i inP inQ) fun j shifted inP => ?_,
      first.others _ (fun inP => not_lower_add positive lower (lowerP _ inP))
        fun j same inP => ?_⟩
    · exact not_lower_add positive (lowerP j inP) (shifted ▸ lower)
    · obtain rfl := Nat.add_right_cancel same
      exact apart i inP inQ
  refine ⟨fun i either => ?_, fun i either => ?_, fun i neither partner => ?_⟩
  · rcases either with inP | inQ
    · rw [(keepsP i inP).1, first.sums i inP]
    · rw [second.sums i inQ, (keepsQ i inQ).1, (keepsQ i inQ).2]
  · rcases either with inP | inQ
    · rw [(keepsP i inP).2, first.differences i inP]
    · rw [second.differences i inQ, (keepsQ i inQ).1, (keepsQ i inQ).2]
  · rw [second.others i (fun inQ => neither (.inr inQ)) fun j same inQ => partner j same (.inr inQ),
      first.others i (fun inP => neither (.inl inP)) fun j same inP => partner j same (.inl inP)]

theorem Done.congr {len : ℕ} {P Q : ℕ → Prop} {vec vec' : ℕ → K} (done : Done len P vec vec')
    (same : ∀ i, P i ↔ Q i) : Done len Q vec vec' := by
  have equal : P = Q := funext fun i => propext (same i)
  rwa [← equal]

theorem butterfly_done {len : ℕ} (positive : 0 < len) (p : ℕ) (vec : ℕ → K) :
    Done len (fun i => p ≤ i ∧ i < p + 1) vec (butterfly len p vec) := by
  refine ⟨fun i here => ?_, fun i here => ?_, fun i apart partner => ?_⟩
  · obtain rfl : i = p := by omega
    rw [butterfly, Function.update_of_ne (by omega), Function.update_self]
  · obtain rfl : i = p := by omega
    rw [butterfly, Function.update_self]
  · rw [butterfly, Function.update_of_ne fun same => partner p same (by omega),
      Function.update_of_ne (by omega)]

theorem butterfly16_done {len : ℕ} (wide : 16 ≤ len) (p : ℕ) (vec : ℕ → K) :
    Done len (fun i => p ≤ i ∧ i < p + 16) vec (butterfly16 len p vec) := by
  refine ⟨fun i here => ?_, fun i here => ?_, fun i apart partner => ?_⟩
  · rw [butterfly16, if_neg (by omega), if_pos here]
  · rw [butterfly16, if_pos (by omega), Nat.add_sub_cancel]
  · rw [butterfly16, if_neg fun upper => partner (i - len) (by omega) (by omega), if_neg apart]

/-- A run over positions that are `step` apart. -/
theorem foldl_done {len step : ℕ} {body : ℕ → (ℕ → K) → ℕ → K} (positive : 0 < len)
    (each : ∀ p vec, Done len (fun i => p ≤ i ∧ i < p + step) vec (body p vec)) (ps : List ℕ)
    (rising : ps.Pairwise fun p q => p + step ≤ q)
    (lower : ∀ p ∈ ps, ∀ i, p ≤ i ∧ i < p + step → Lower len i) (vec : ℕ → K) :
    Done len (fun i => ∃ p ∈ ps, p ≤ i ∧ i < p + step) vec
      (ps.foldl (fun vec p => body p vec) vec) := by
  induction ps generalizing vec with
  | nil => exact ⟨by simp, by simp, fun i _ _ => rfl⟩
  | cons p ps ih =>
      have later := ih (List.pairwise_cons.1 rising).2
        (fun q mem => lower q (List.mem_cons_of_mem _ mem)) (body p vec)
      refine ((each p vec).trans positive later (lower p List.mem_cons_self) ?_ ?_).congr ?_
      · rintro i ⟨q, mem, here⟩
        exact lower q (List.mem_cons_of_mem _ mem) i here
      · rintro i here ⟨q, mem, there⟩
        have := (List.pairwise_cons.1 rising).1 q mem
        omega
      · intro i
        simp only [List.mem_cons, exists_eq_or_imp]

theorem upTo_eq {step : ℕ} (positive : 0 < step) (count : ℕ) :
    upTo (step * count) step = (List.range count).map (· * step) := by
  have number : (step * count + step - 1) / step = count := by
    rw [Nat.add_sub_assoc (show 1 ≤ step from positive), Nat.mul_add_div positive,
      Nat.div_eq_of_lt (by omega), Nat.add_zero]
  rw [upTo, number]

section Positions

variable {len step count parts : ℕ}

/-- The start of a run, from its block and its place in the block. -/
theorem mem_positions (positive : 0 < step) (whole : len = step * parts) (some_part : 0 < len)
    (p : ℕ) : p ∈ positions (2 * len * count) len step ↔
      ∃ m < count, ∃ j < parts, p = m * (2 * len) + j * step := by
  rw [positions, upTo_eq (by omega), show upTo len step = (List.range parts).map (· * step) by
    rw [whole]; exact upTo_eq positive parts]
  simp only [List.mem_flatMap, List.mem_map, List.mem_range]
  constructor
  · rintro ⟨i, ⟨m, inBlocks, rfl⟩, l, ⟨j, inParts, rfl⟩, rfl⟩
    exact ⟨m, inBlocks, j, inParts, rfl⟩
  · rintro ⟨m, inBlocks, j, inParts, rfl⟩
    exact ⟨_, ⟨m, inBlocks, rfl⟩, _, ⟨j, inParts, rfl⟩, rfl⟩

theorem place_lt (whole : len = step * parts) {j : ℕ} (inParts : j < parts) :
    j * step + step ≤ len := by
  have next := Nat.mul_le_mul_right step (Nat.succ_le_of_lt inParts)
  rw [Nat.succ_mul] at next
  rw [whole, Nat.mul_comm step]
  exact next

theorem positions_rising (positive : 0 < step) (whole : len = step * parts) (some_part : 0 < len) :
    (positions (2 * len * count) len step).Pairwise fun p q => p + step ≤ q := by
  rw [positions, upTo_eq (by omega), show upTo len step = (List.range parts).map (· * step) by
    rw [whole]; exact upTo_eq positive parts]
  rw [List.pairwise_flatMap]
  constructor
  · intro i _
    rw [List.pairwise_map, List.pairwise_map]
    refine List.pairwise_lt_range.imp fun before => ?_
    have next := Nat.mul_le_mul_right step (Nat.succ_le_of_lt before)
    rw [Nat.succ_mul] at next
    omega
  · rw [List.pairwise_map]
    refine List.pairwise_lt_range.imp fun before => ?_
    intro p inFirst q inSecond
    simp only [List.mem_map, List.mem_range] at inFirst inSecond
    obtain ⟨_, ⟨j, inParts, rfl⟩, rfl⟩ := inFirst
    obtain ⟨_, ⟨j', -, rfl⟩, rfl⟩ := inSecond
    have next := Nat.mul_le_mul_right (2 * len) (Nat.succ_le_of_lt before)
    have inside := place_lt whole inParts
    rw [Nat.succ_mul] at next
    omega

/-- The runs are the first entries of the pairs. -/
theorem mem_runs (positive : 0 < step) (whole : len = step * parts) (some_part : 0 < len) (i : ℕ) :
    (∃ p ∈ positions (2 * len * count) len step, p ≤ i ∧ i < p + step) ↔
      i < 2 * len * count ∧ Lower len i := by
  simp only [mem_positions positive whole some_part]
  constructor
  · rintro ⟨_, ⟨m, inBlocks, j, inParts, rfl⟩, from_, below⟩
    have inside := place_lt whole inParts
    have next := Nat.mul_le_mul_left (2 * len) (Nat.succ_le_of_lt inBlocks)
    rw [Nat.mul_succ, Nat.mul_comm _ m] at next
    refine ⟨by omega, ?_⟩
    obtain ⟨e, rfl⟩ := Nat.exists_eq_add_of_le from_
    rw [Lower, show m * (2 * len) + j * step + e = len * (2 * m) + (j * step + e) by ring,
      Nat.mul_add_div some_part, Nat.div_eq_of_lt (by omega)]
    omega
  · rintro ⟨inside, lower⟩
    refine ⟨_, ⟨i / (2 * len), ?_, i % len / step, ?_, rfl⟩, ?_⟩
    · exact Nat.div_lt_of_lt_mul inside
    · rw [Nat.div_lt_iff_lt_mul positive, Nat.mul_comm, ← whole]
      exact Nat.mod_lt _ some_part
    · have split := Nat.div_add_mod i len
      have split' := Nat.div_add_mod (i % len) step
      have small := Nat.mod_lt (i % len) positive
      have half : len * (i / len) = i / (2 * len) * (2 * len) := by
        rw [Lower] at lower
        rw [Nat.mul_comm 2 len, ← Nat.div_div_eq_div_mul]
        have even := Nat.div_add_mod (i / len) 2
        rw [lower, Nat.add_zero] at even
        calc len * (i / len) = len * (2 * (i / len / 2)) := by rw [even]
          _ = i / len / 2 * (len * 2) := by ring
      rw [Nat.mul_comm step] at split'
      omega

end Positions

/-- What a level does, in runs of any length. -/
theorem sweep_done {len step count parts : ℕ} {body : ℕ → (ℕ → K) → ℕ → K}
    (positive : 0 < step) (whole : len = step * parts) (some_part : 0 < len)
    (each : ∀ p vec, Done len (fun i => p ≤ i ∧ i < p + step) vec (body p vec)) (vec : ℕ → K) :
    Done len (fun i => i < 2 * len * count ∧ Lower len i) vec
      ((positions (2 * len * count) len step).foldl (fun vec p => body p vec) vec) := by
  refine (foldl_done some_part each _ (positions_rising positive whole some_part) ?_ vec).congr
    fun i => mem_runs positive whole some_part i
  intro p mem i here
  exact ((mem_runs positive whole some_part i).1 ⟨p, mem, here⟩).2

theorem level_done {k m : ℕ} (below : k < m) (vec : ℕ → K) :
    Done (2 ^ k) (fun i => i < 2 ^ m ∧ Lower (2 ^ k) i) vec (level (2 ^ m) (2 ^ k) vec) := by
  have size : 2 ^ m = 2 * 2 ^ k * 2 ^ (m - (k + 1)) := by
    rw [Nat.mul_comm 2, ← Nat.pow_succ, ← Nat.pow_add, Nat.add_sub_cancel' below]
  rw [level, size]
  exact sweep_done Nat.one_pos (Nat.one_mul _).symm (Nat.two_pow_pos k)
    (butterfly_done (Nat.two_pow_pos k)) vec

theorem level16_done {k m : ℕ} (below : k < m) (wide : 16 ≤ 2 ^ k) (vec : ℕ → K) :
    Done (2 ^ k) (fun i => i < 2 ^ m ∧ Lower (2 ^ k) i) vec (level16 (2 ^ m) (2 ^ k) vec) := by
  have size : 2 ^ m = 2 * 2 ^ k * 2 ^ (m - (k + 1)) := by
    rw [Nat.mul_comm 2, ← Nat.pow_succ, ← Nat.pow_add, Nat.add_sub_cancel' below]
  have four : 4 ≤ k := by
    by_contra small
    have := Nat.pow_lt_pow_right (show 1 < 2 by decide) (Nat.lt_of_not_le small)
    omega
  have parts : 2 ^ k = 16 * 2 ^ (k - 4) := by
    rw [show (16 : ℕ) = 2 ^ 4 from rfl, ← Nat.pow_add, Nat.add_sub_cancel' four]
  rw [level16, size]
  exact sweep_done (by decide) parts (Nat.two_pow_pos k) (butterfly16_done wide) vec

/-! ## The transform -/

/-- Every block of `2 ^ k` entries holds its transform, and nothing else has changed. -/
structure Blocks (n k : ℕ) (x vec : ℕ → K) : Prop where
  inside : ∀ q r, r < 2 ^ k → 2 ^ k * q + r < n →
    vec (2 ^ k * q + r) = walsh k (fun s => x (2 ^ k * q + s)) r
  outside : ∀ i, n ≤ i → vec i = x i

theorem Blocks.next {k m : ℕ} (below : k < m) {x vec vec' : ℕ → K}
    (blocks : Blocks (2 ^ m) k x vec)
    (done : Done (2 ^ k) (fun i => i < 2 ^ m ∧ Lower (2 ^ k) i) vec vec') :
    Blocks (2 ^ m) (k + 1) x vec' := by
  have positive := Nat.two_pow_pos k
  have size : 2 ^ m = 2 ^ (k + 1) * 2 ^ (m - (k + 1)) := by
    rw [← Nat.pow_add, Nat.add_sub_cancel' below]
  -- both entries of a pair, from the two blocks they are in
  have pair : ∀ q j, j < 2 ^ k → 2 ^ (k + 1) * q + j < 2 ^ m →
      (2 ^ (k + 1) * q + j < 2 ^ m ∧ Lower (2 ^ k) (2 ^ (k + 1) * q + j)) ∧
        vec (2 ^ (k + 1) * q + j) = walsh k (fun s => x (2 ^ (k + 1) * q + s)) j ∧
        vec (2 ^ (k + 1) * q + j + 2 ^ k) =
          walsh k (fun s => x (2 ^ (k + 1) * q + (2 ^ k + s))) j := by
    intro q j low inside
    have double : 2 ^ (k + 1) * q = 2 ^ k * (2 * q) := by
      rw [Nat.pow_succ]
      ring
    have half : 2 ^ (k + 1) * q + 2 ^ k = 2 ^ k * (2 * q + 1) := by
      rw [double]
      ring
    have whole : 2 ^ (k + 1) * q + 2 ^ (k + 1) ≤ 2 ^ m := by
      rw [size, ← Nat.mul_succ]
      refine Nat.mul_le_mul_left _ (Nat.succ_le_of_lt ?_)
      rw [size] at inside
      exact Nat.lt_of_mul_lt_mul_left (Nat.lt_of_le_of_lt (Nat.le_add_right _ j) inside)
    have twice : 2 ^ (k + 1) = 2 ^ k + 2 ^ k := by rw [Nat.pow_succ, Nat.mul_two]
    refine ⟨⟨inside, ?_⟩, ?_, ?_⟩
    · rw [Lower, double, Nat.mul_add_div positive, Nat.div_eq_of_lt low]
      omega
    · rw [double]
      exact blocks.inside (2 * q) j low (by omega)
    · have upper := blocks.inside (2 * q + 1) j low (by omega)
      rw [← half] at upper
      rw [Nat.add_right_comm, upper]
      simp only [Nat.add_assoc]
  constructor
  · intro q r small inside
    by_cases low : r < 2 ^ k
    · obtain ⟨here, first, second⟩ := pair q r low inside
      rw [done.sums _ here, first, second, walsh_succ_low low]
    · obtain ⟨j, rfl⟩ := Nat.exists_eq_add_of_le (Nat.le_of_not_lt low)
      have lowJ : j < 2 ^ k := by
        rw [Nat.pow_succ] at small
        omega
      obtain ⟨here, first, second⟩ := pair q j lowJ (by omega)
      rw [show 2 ^ (k + 1) * q + (2 ^ k + j) = 2 ^ (k + 1) * q + j + 2 ^ k by omega,
        done.differences _ here, first, second, walsh_succ_high lowJ]
  · intro i outside
    rw [done.others i (fun here => by omega) fun j same here => ?_, blocks.outside i outside]
    -- the partner of an entry below `2 ^ m` is below it, too
    obtain ⟨inside, lower⟩ := here
    rw [Lower] at lower
    have size' : 2 ^ m = 2 ^ k * (2 * 2 ^ (m - (k + 1))) := by
      rw [size, Nat.pow_succ]
      ring
    have block := Nat.div_lt_of_lt_mul (size' ▸ inside)
    have reach := Nat.lt_mul_div_succ j positive
    have whole := Nat.mul_le_mul_left (2 ^ k)
      (show j / 2 ^ k + 2 ≤ 2 * 2 ^ (m - (k + 1)) by omega)
    rw [← size', Nat.mul_add] at whole
    rw [Nat.mul_add] at reach
    omega

theorem levels_blocks {body : ℕ → (ℕ → K) → ℕ → K} {m : ℕ}
    (each : ∀ k, k < m → ∀ vec,
      Done (2 ^ k) (fun i => i < 2 ^ m ∧ Lower (2 ^ k) i) vec (body (2 ^ k) vec))
    (fuel k : ℕ) (enough : m ≤ k + fuel) (below : k ≤ m) {x vec : ℕ → K}
    (blocks : Blocks (2 ^ m) k x vec) :
    Blocks (2 ^ m) m x (levels body (2 ^ m) fuel (2 ^ k) vec) := by
  induction fuel generalizing k vec with
  | zero =>
      obtain rfl : k = m := by omega
      exact blocks
  | succ fuel ih =>
      rw [levels]
      by_cases last : k = m
      · rw [if_neg (by rw [last]; exact lt_irrefl _)]
        exact last ▸ blocks
      · have inside : k < m := by omega
        rw [if_pos (Nat.pow_lt_pow_right (by decide) inside), ← Nat.pow_succ]
        exact ih (k + 1) (by omega) inside (blocks.next inside (each k inside vec))

theorem blocks_start (m : ℕ) (x : ℕ → K) : Blocks (2 ^ m) 0 x x := by
  refine ⟨fun q r small _ => ?_, fun i _ => rfl⟩
  obtain rfl : r = 0 := by omega
  simp [walsh, walshSign]

theorem fwht_blocks (avx512 : Bool) {m : ℕ} (fits : m ≤ 32) (x : ℕ → K) :
    Blocks (2 ^ m) m x (fwht avx512 x (2 ^ m)) := by
  rw [fwht]
  split
  · refine levels_blocks (fun k below vec => ?_) 32 0 (by omega) (Nat.zero_le m)
      (blocks_start m x)
    split
    · exact level_done below vec
    · exact level16_done below (by omega) vec
  · exact levels_blocks (fun k below vec => level_done below vec) 32 0 (by omega) (Nat.zero_le m)
      (blocks_start m x)

/-- **Both builds compute the Walsh-Hadamard transform in place.** -/
theorem fwht_low (avx512 : Bool) {m : ℕ} (fits : m ≤ 32) (x : ℕ → K) {i : ℕ} (inside : i < 2 ^ m) :
    fwht avx512 x (2 ^ m) i = walsh m x i := by
  have block := (fwht_blocks avx512 fits x).inside 0 i inside (by omega)
  rw [Nat.mul_zero, Nat.zero_add] at block
  simpa only [Nat.zero_add] using block

/-- What lies behind the vector stays. -/
theorem fwht_high (avx512 : Bool) {m : ℕ} (fits : m ≤ 32) (x : ℕ → K) {i : ℕ}
    (outside : 2 ^ m ≤ i) : fwht avx512 x (2 ^ m) i = x i :=
  (fwht_blocks avx512 fits x).outside i outside

end Levels

example : (List.range 4).map (fwht true (fun i => (i : ℤ)) 4) = [6, -2, -4, 0] := by decide

end VecFetch.Simd
