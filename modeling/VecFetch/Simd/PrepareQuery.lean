/-
# Simd.PrepareQuery -- subtracting, normalising and taking signs

`SimdSubtractAndNormSq` and `SimdNormalizeSignSumMaxAbs`: whole registers first, then the
entries that are left, one by one.  A register is at most a quarter of a word of signs and
starts where a multiple of its lanes does, so its bits go into one word, and what lies behind
the entries done so far in that word is clear (`SignsTo`).

Arithmetic is exact.  A result of `none` is a store outside the words of the code, or a loop
whose 32-bit counter wraps.
-/
import VecFetch.Rabitq.EncoderLaws
import VecFetch.Simd.FusedLut
import VecFetch.Simd.Popcount

namespace VecFetch.Simd

open VecFetch.Theory VecFetch.Rabitq Finset

set_option autoImplicit false

/-! ## Words of signs -/

/-- `words[idx] = v`. -/
def storeWord (words : List UInt64) (idx : ℕ) (v : UInt64) : Option (List UInt64) :=
  if idx < words.length then some (words.set idx v) else none

/-- `words[idx] |= v`. -/
def orWord (words : List UInt64) (idx : ℕ) (v : UInt64) : Option (List UInt64) :=
  if idx < words.length then some (words.modify idx fun w => w ||| v) else none

section Code

variable {K : Type} [Field K] [LinearOrder K]

/-- The vector and the sums of the register loop, lane by lane. -/
structure SignLanes (K : Type) where
  vec : ℕ → K
  sum : ℕ → K
  max : ℕ → K
  words : List UInt64

/-- The vector, the sums and the code; in the end what the call leaves and returns. -/
structure NormalizeSignSum (K : Type) where
  vec : ℕ → K
  sum : K
  maxAbs : K
  words : List UInt64

/-- A turn of the register loop, over the entries from `lanes * c` on. -/
def signRegister (lanes numWords : ℕ) (invNorm : K) (c : ℕ) (st : SignLanes K) :
    Option (SignLanes K) :=
  let i := lanes * c
  let v := fun lane => st.vec (i + lane) * invNorm
  let mask := (scalarMask lanes fun lane => decide (0 ≤ v lane)).toUInt64
  let wordIdx := i / 64
  let bitOff := i % 64
  let bits := mask <<< UInt64.ofNat bitOff
  (if bitOff = 0 then storeWord st.words wordIdx bits else orWord st.words wordIdx bits).bind
    fun words =>
      (if 64 < bitOff + lanes ∧ wordIdx + 1 < numWords then
        orWord words (wordIdx + 1) (mask >>> UInt64.ofNat (64 - bitOff))
      else some words).map fun words =>
        { vec := fun d => if i ≤ d ∧ d < i + lanes then v (d - i) else st.vec d
          sum := fun lane => st.sum lane + v lane
          max := fun lane => if |v lane| < st.max lane then st.max lane else |v lane|
          words := words }

/-- `std::max`. -/
def stdMax (a b : K) : K := if a < b then b else a

omit [Field K] in
theorem stdMax_eq (a b : K) : stdMax a b = max a b := (max_def_lt a b).symm

/-- A turn of the loop over single entries. -/
def signEntry (invNorm : K) (first k : ℕ) (st : NormalizeSignSum K) :
    Option (NormalizeSignSum K) :=
  let i := first + k
  let v := st.vec i * invNorm
  (if i % 64 = 0 then storeWord st.words (i / 64) 0 else some st.words).bind fun words =>
    (if 0 ≤ v then orWord words (i / 64) ((1 : UInt64) <<< UInt64.ofNat (i % 64))
    else some words).map fun words =>
      { vec := Function.update st.vec i v
        sum := st.sum + v
        maxAbs := stdMax st.maxAbs |v|
        words := words }

/-- The lanes reduced. -/
def SignLanes.reduce (lanes : ℕ) (st : SignLanes K) : NormalizeSignSum K :=
  { vec := st.vec
    sum := sumTo lanes st.sum
    maxAbs := (List.range (lanes - 1)).foldl (fun m k => stdMax m (st.max (k + 1))) (st.max 0)
    words := st.words }

/-- `SimdNormalizeSignSumMaxAbs`. -/
def simdNormalizeSignSumMaxAbs (build : Build) (vec : ℕ → K) (invNorm : K) (words : List UInt64)
    (numWords dim : UInt32) : Option (NormalizeSignSum K) :=
  let lanes := FusedLut.registerLanes build
  (if dim.toNat % 64 ≠ 0 ∧ dim.toNat / 64 < numWords.toNat then storeWord words (dim.toNat / 64) 0
  else some words).bind fun words =>
    match build with
    | .scalar =>
        forRange (signEntry invNorm 0) dim.toNat
          { vec := vec, sum := 0, maxAbs := 0, words := words }
    | _ =>
        (FusedLut.registerTurns lanes dim).bind fun turns =>
          (forRange (signRegister lanes numWords.toNat invNorm) turns
            { vec := vec, sum := fun _ => 0, max := fun _ => 0, words := words }).bind fun st =>
              forRange (signEntry invNorm (lanes * turns)) (dim.toNat - lanes * turns)
                (st.reduce lanes)

/-- `a - b`, or `a` where no `b` is given. -/
def differences (a : ℕ → K) : Option (ℕ → K) → ℕ → K
  | some b => fun i => a i - b i
  | none => a

/-- `SimdSubtractAndNormSq`: the differences, in a buffer of `dim` entries, and the sum of
their squares; without `b` the entries themselves. -/
def simdSubtractAndNormSq (build : Build) (a : ℕ → K) (b : Option (ℕ → K)) (dim : UInt32) :
    Option ((ℕ → K) × K) :=
  let diff := differences a b
  let lanes := FusedLut.registerLanes build
  let tail := fun first count (result : K) =>
    (List.range count).foldl (fun result k => result + diff (first + k) * diff (first + k)) result
  match build with
  | .scalar => some (copyOf dim.toNat diff, tail 0 dim.toNat 0)
  | _ =>
      (FusedLut.registerTurns lanes dim).map fun turns =>
        let acc := fun lane => (List.range turns).foldl
          (fun acc c => diff (lanes * c + lane) * diff (lanes * c + lane) + acc) 0
        (copyOf dim.toNat diff,
          tail (lanes * turns) (dim.toNat - lanes * turns) (sumTo lanes acc))

end Code

/-! ## The words -/

section Words

variable {words words' : List UInt64} {idx : ℕ} {v : UInt64}

theorem planeBit_storeWord (stored : storeWord words idx v = some words') :
    words'.length = words.length ∧ ∀ d, planeBit words' d =
      if d / 64 = idx then v.toNat.testBit (d % 64) else planeBit words d := by
  rw [storeWord] at stored
  split at stored
  · rename_i inside
    obtain rfl := Option.some.inj stored
    refine ⟨List.length_set, fun d => ?_⟩
    rw [planeBit, planeBit, List.getD_eq_getElem?_getD, List.getElem?_set,
      List.getD_eq_getElem?_getD]
    by_cases here : d / 64 = idx
    · rw [if_pos here, if_pos here.symm, if_pos inside, Option.getD_some]
    · rw [if_neg here, if_neg fun same => here same.symm]
  · cases stored

theorem planeBit_orWord (stored : orWord words idx v = some words') :
    words'.length = words.length ∧ ∀ d, planeBit words' d =
      if d / 64 = idx then planeBit words d || v.toNat.testBit (d % 64)
      else planeBit words d := by
  rw [orWord] at stored
  split at stored
  · rename_i inside
    obtain rfl := Option.some.inj stored
    refine ⟨List.length_modify _ _ _, fun d => ?_⟩
    rw [planeBit, planeBit, List.getD_eq_getElem?_getD, List.getElem?_modify,
      List.getD_eq_getElem?_getD]
    by_cases here : d / 64 = idx
    · subst here
      rw [if_pos rfl, List.getElem?_eq_getElem inside]
      simp [UInt64.toNat_or]
    · rw [if_neg here]
      have apart : ¬ idx = d / 64 := fun same => here same.symm
      simp [apart]
  · cases stored

/-- The bits of a mask moved up in a word. -/
theorem shiftedMask_testBit (mask : UInt64) {off : ℕ} (below : off < 64) (j : ℕ) :
    (mask <<< UInt64.ofNat off).toNat.testBit j =
      (decide (j < 64) && (decide (off ≤ j) && mask.toNat.testBit (j - off))) := by
  have shift : (UInt64.ofNat off).toNat % 64 = off := by
    rw [UInt64.toNat_ofNat', Nat.mod_eq_of_lt (show off < 2 ^ 64 by omega), Nat.mod_eq_of_lt below]
  rw [UInt64.toNat_shiftLeft, shift, Nat.testBit_mod_two_pow, Nat.testBit_shiftLeft]

end Words

section Signs

variable {K : Type} [Field K] [LinearOrder K] (v : ℕ → K)

/-- Below `m` the words hold the signs of the first `n` entries, and nothing else. -/
def SignsTo (n m : ℕ) (words : List UInt64) : Prop :=
  ∀ d, d < m → planeBit words d = decide (d < n ∧ 0 ≤ v d)

variable {v}

/-- A run of signs within a word, as one mask. -/
theorem signsTo_put {n width m : ℕ} {mask : UInt64} {words words' : List UInt64}
    (bits : ∀ l, l < 64 → mask.toNat.testBit l = decide (l < width ∧ 0 ≤ v (n + l)))
    (before : SignsTo v n m words) (border : m = if n % 64 = 0 then n else 64 * (n / 64 + 1))
    (stored : (if n % 64 = 0 then storeWord words (n / 64) (mask <<< UInt64.ofNat (n % 64))
      else orWord words (n / 64) (mask <<< UInt64.ofNat (n % 64))) = some words') :
    words'.length = words.length ∧ SignsTo v (n + width) (64 * (n / 64 + 1)) words' := by
  have shifted := fun j => shiftedMask_testBit mask (show n % 64 < 64 by omega) j
  -- the bits of the word, counted from its start
  have moved : ∀ d, d / 64 = n / 64 → (mask <<< UInt64.ofNat (n % 64)).toNat.testBit (d % 64) =
      decide (n ≤ d ∧ d < n + width ∧ 0 ≤ v d) := by
    intro d here
    rw [shifted, decide_eq_true (show d % 64 < 64 by omega), Bool.true_and]
    by_cases above : n ≤ d
    · rw [decide_eq_true (show n % 64 ≤ d % 64 by omega), Bool.true_and, bits _ (by omega),
        show n + (d % 64 - n % 64) = d by omega]
      have place : d % 64 - n % 64 < width ↔ n ≤ d ∧ d < n + width := by omega
      rw [decide_eq_decide, place, and_assoc]
    · rw [decide_eq_false (show ¬ n % 64 ≤ d % 64 by omega), Bool.false_and, eq_comm,
        decide_eq_false_iff_not]
      exact fun inside => above inside.1
  have same : ∀ {d}, d < n → decide (d < n ∧ 0 ≤ v d) = decide (d < n + width ∧ 0 ≤ v d) :=
    fun below => by
      rw [decide_eq_decide, and_iff_right below, and_iff_right (Nat.lt_add_right width below)]
  split at stored
  · rename_i start
    rw [if_pos start] at border
    obtain ⟨length, put⟩ := planeBit_storeWord stored
    refine ⟨length, fun d below => ?_⟩
    rw [put]
    split
    · rename_i here
      rw [moved d here, decide_eq_decide, and_iff_right (show n ≤ d by omega)]
    · rw [before d (by omega), same (by omega)]
  · rename_i inWord
    rw [if_neg inWord] at border
    obtain ⟨length, put⟩ := planeBit_orWord stored
    refine ⟨length, fun d below => ?_⟩
    rw [put, before d (by omega)]
    split
    · rename_i here
      rw [moved d here, ← Bool.decide_or, decide_eq_decide]
      constructor
      · rintro (⟨old, sign⟩ | ⟨-, new, sign⟩)
        · exact ⟨by omega, sign⟩
        · exact ⟨new, sign⟩
      · rintro ⟨either, sign⟩
        by_cases old : d < n
        · exact Or.inl ⟨old, sign⟩
        · exact Or.inr ⟨by omega, either, sign⟩
    · exact same (by omega)

/-- Where the words in use end. -/
def border (n : ℕ) : ℕ := if n % 64 = 0 then n else 64 * (n / 64 + 1)

theorem border_add {n width : ℕ} (positive : 0 < width) (fits : n % 64 + width ≤ 64) :
    border (n + width) = 64 * (n / 64 + 1) := by
  rw [border]
  split <;> omega

/-- What the register loop keeps: `v` is the normalised vector. -/
structure LanesHold (vec v : ℕ → K) (size n : ℕ) (st : SignLanes K) : Prop where
  vec : ∀ d, st.vec d = if d < n then v d else vec d
  length : st.words.length = size
  signs : SignsTo v n (border n) st.words

theorem scalarMask_testBit (lanes : ℕ) (fits : lanes ≤ 32) (test : ℕ → Bool) (l : ℕ) :
    (scalarMask lanes test).toUInt64.toNat.testBit l = (decide (l < lanes) && test l) := by
  rw [UInt32.toNat_toUInt64]
  exact hasLane_scalarMask fits test l

theorem signRegister_spec {vec : ℕ → K} {invNorm : K} {lanes size numWords c : ℕ}
    {st : SignLanes K} (positive : 0 < lanes) (narrow : lanes ≤ 32)
    (fits : lanes * c % 64 + lanes ≤ 64) (inside : lanes * c < 64 * size)
    (holds : LanesHold vec (fun d => vec d * invNorm) size (lanes * c) st) :
    ∃ st', signRegister lanes numWords invNorm c st = some st' ∧
      LanesHold vec (fun d => vec d * invNorm) size (lanes * (c + 1)) st' := by
  obtain ⟨same, length, signs⟩ := holds
  have lane : ∀ l, st.vec (lanes * c + l) = vec (lanes * c + l) := fun l => by
    rw [same, if_neg (by omega)]
  have room : lanes * c / 64 < st.words.length := by omega
  obtain ⟨words, stored⟩ : ∃ words, (if lanes * c % 64 = 0 then
      storeWord st.words (lanes * c / 64)
        ((scalarMask lanes fun l => decide (0 ≤ vec (lanes * c + l) * invNorm)).toUInt64 <<<
          UInt64.ofNat (lanes * c % 64))
      else orWord st.words (lanes * c / 64)
        ((scalarMask lanes fun l => decide (0 ≤ vec (lanes * c + l) * invNorm)).toUInt64 <<<
          UInt64.ofNat (lanes * c % 64))) = some words := by
    rw [storeWord, orWord, if_pos room, if_pos room]
    split
    · exact ⟨_, rfl⟩
    · exact ⟨_, rfl⟩
  have put := signsTo_put (fun l _ => by
    rw [scalarMask_testBit lanes narrow, Bool.decide_and]) signs rfl stored
  have single : ¬ (64 < lanes * c % 64 + lanes ∧ lanes * c / 64 + 1 < numWords) := by omega
  refine ⟨_, by
    simp only [signRegister, lane, stored, Option.bind_some, if_neg single, Option.map_some]
    rfl, ?_, ?_, ?_⟩
  · intro d
    dsimp only
    rw [same, Nat.mul_succ]
    by_cases done : d < lanes * c
    · rw [if_neg (by omega), if_pos done, if_pos (by omega)]
    · by_cases here : d < lanes * c + lanes
      · rw [if_pos ⟨by omega, here⟩, if_pos here, Nat.add_sub_cancel' (by omega)]
      · rw [if_neg (by omega), if_neg done, if_neg here]
  · exact put.1.trans length
  · rw [Nat.mul_succ, border_add positive fits]
    exact put.2

/-- What the loop over single entries keeps. -/
structure EntriesHold (vec v : ℕ → K) (size n : ℕ) (st : NormalizeSignSum K) : Prop where
  vec : ∀ d, st.vec d = if d < n then v d else vec d
  length : st.words.length = size
  signs : SignsTo v n (border n) st.words

/-- A word is cleared when its first entry comes. -/
theorem signsTo_clear {n : ℕ} {words : List UInt64} (room : n / 64 < words.length)
    (signs : SignsTo v n (border n) words) :
    ∃ cleared, (if n % 64 = 0 then storeWord words (n / 64) 0 else some words) = some cleared ∧
      cleared.length = words.length ∧ SignsTo v n (64 * (n / 64 + 1)) cleared := by
  by_cases start : n % 64 = 0
  · rw [border, if_pos start] at signs
    have stored : storeWord words (n / 64) 0 = some (words.set (n / 64) 0) := if_pos room
    obtain ⟨length, bits⟩ := planeBit_storeWord stored
    refine ⟨_, (if_pos start).trans stored, length, fun d below => ?_⟩
    rw [bits]
    split
    · rename_i here
      rw [decide_eq_false (show ¬ (d < n ∧ 0 ≤ v d) by omega), show (0 : UInt64).toNat = 0 from rfl,
        Nat.zero_testBit]
    · exact signs d (by omega)
  · rw [border, if_neg start] at signs
    exact ⟨words, if_neg start, rfl, signs⟩

/-- The sign of one entry. -/
theorem signsTo_entry {n : ℕ} {words : List UInt64} (room : n / 64 < words.length)
    (signs : SignsTo v n (64 * (n / 64 + 1)) words) :
    ∃ words', (if 0 ≤ v n then orWord words (n / 64) ((1 : UInt64) <<< UInt64.ofNat (n % 64))
        else some words) = some words' ∧ words'.length = words.length ∧
      SignsTo v (n + 1) (64 * (n / 64 + 1)) words' := by
  by_cases sign : 0 ≤ v n
  · have stored : orWord words (n / 64) ((1 : UInt64) <<< UInt64.ofNat (n % 64)) = some _ :=
      if_pos room
    obtain ⟨length, bits⟩ := planeBit_orWord stored
    refine ⟨_, (if_pos sign).trans stored, length, fun d below => ?_⟩
    have one : ∀ j, (1 : UInt64).toNat.testBit j = decide (j = 0) := fun j => by
      rw [show (1 : UInt64).toNat = 2 ^ 0 from rfl, Nat.testBit_two_pow, decide_eq_decide]
      exact eq_comm
    rw [bits, signs d below, shiftedMask_testBit _ (by omega), one]
    split
    · rename_i here
      rw [← Bool.decide_and, ← Bool.decide_and, ← Bool.decide_or, decide_eq_decide]
      constructor
      · rintro (⟨old, positive⟩ | ⟨-, above, new⟩)
        · exact ⟨by omega, positive⟩
        · obtain rfl : d = n := by omega
          exact ⟨Nat.lt_succ_self d, sign⟩
      · rintro ⟨either, positive⟩
        by_cases old : d < n
        · exact Or.inl ⟨old, positive⟩
        · exact Or.inr ⟨by omega, by omega, by omega⟩
    · rw [decide_eq_decide]
      exact and_congr_left fun _ => by omega
  · refine ⟨words, if_neg sign, rfl, fun d below => ?_⟩
    rw [signs d below, decide_eq_decide]
    constructor
    · rintro ⟨old, positive⟩
      exact ⟨by omega, positive⟩
    · rintro ⟨either, positive⟩
      refine ⟨Nat.lt_of_le_of_ne (by omega) ?_, positive⟩
      rintro rfl
      exact sign positive

theorem signEntry_spec {vec : ℕ → K} {invNorm : K} {first size k : ℕ} {st : NormalizeSignSum K}
    (inside : first + k < 64 * size)
    (holds : EntriesHold vec (fun d => vec d * invNorm) size (first + k) st) :
    ∃ st', signEntry invNorm first k st = some st' ∧
      EntriesHold vec (fun d => vec d * invNorm) size (first + (k + 1)) st' := by
  obtain ⟨same, length, signs⟩ := holds
  rw [← Nat.add_assoc]
  simp only [signEntry]
  generalize first + k = n at *
  have lane : st.vec n = vec n := by rw [same, if_neg (Nat.lt_irrefl n)]
  obtain ⟨cleared, clear, wide, fresh⟩ := signsTo_clear (by omega) signs
  obtain ⟨words, stored, wide', put⟩ :=
    @signsTo_entry K _ _ (fun d => vec d * invNorm) n cleared (by omega) fresh
  refine ⟨_, by
    simp only [lane, clear, stored, Option.bind_some, Option.map_some]
    rfl, fun d => ?_, ?_, ?_⟩
  · dsimp only
    by_cases here : d = n
    · rw [here, Function.update_self, if_pos (Nat.lt_succ_self n)]
    · rw [Function.update_of_ne here, same]
      by_cases done : d < n
      · rw [if_pos done, if_pos (by omega)]
      · rw [if_neg done, if_neg (by omega)]
  · exact (wide'.trans wide).trans length
  · rw [border_add Nat.one_pos (by omega)]
    exact put

/-! ## The call -/

/-- What the call leaves: the normalised vector and its signs, in a code whose other bits are
clear. -/
structure SignsHold (vec v : ℕ → K) (size dim : ℕ) (out : NormalizeSignSum K) : Prop where
  vec : ∀ d, out.vec d = if d < dim then v d else vec d
  length : out.words.length = size
  signs : ∀ d, planeBit out.words d = decide (d < dim ∧ 0 ≤ v d)

theorem lanes_fit (build : Build) (c : ℕ) :
    FusedLut.registerLanes build * c % 64 + FusedLut.registerLanes build ≤ 64 := by
  cases build <;> simp only [FusedLut.registerLanes] <;> omega

theorem lanes_pos (build : Build) :
    0 < FusedLut.registerLanes build ∧ FusedLut.registerLanes build ≤ 32 := by
  cases build <;> decide

/-- Bits past the words are clear. -/
theorem planeBit_outside {words : List UInt64} {d : ℕ} (outside : 64 * words.length ≤ d) :
    planeBit words d = false := by
  rw [planeBit, List.getD_eq_getElem?_getD, List.getElem?_eq_none (by omega), Option.getD_none]
  exact Nat.zero_testBit _

theorem EntriesHold.finish {vec : ℕ → K} {numWords dim : ℕ} {out : NormalizeSignSum K}
    (whole : (dim + 63) / 64 = numWords) (holds : EntriesHold vec v numWords dim out) :
    SignsHold vec v numWords dim out := by
  obtain ⟨same, length, signs⟩ := holds
  refine ⟨same, length, fun d => ?_⟩
  have ends : border dim = 64 * numWords := by
    rw [border]
    split <;> omega
  rw [ends] at signs
  by_cases inside : d < 64 * numWords
  · exact signs d inside
  · rw [planeBit_outside (by omega), decide_eq_false]
    exact fun below => by omega

/-- The loop over the single entries that are left. -/
theorem entries_spec {vec : ℕ → K} {invNorm : K} {first count size : ℕ} {st : NormalizeSignSum K}
    (inside : first + count ≤ 64 * size)
    (holds : EntriesHold vec (fun d => vec d * invNorm) size first st) :
    ∃ out, forRange (signEntry invNorm first) count st = some out ∧
      EntriesHold vec (fun d => vec d * invNorm) size (first + count) out :=
  forRange_spec (fun k st => EntriesHold vec (fun d => vec d * invNorm) size (first + k) st) holds
    fun _ _ below holds => signEntry_spec (by omega) holds

/-- The register loop. -/
theorem registers_spec {vec : ℕ → K} {invNorm : K} {lanes size numWords turns : ℕ}
    {st : SignLanes K} (positive : 0 < lanes) (narrow : lanes ≤ 32)
    (fits : ∀ c, lanes * c % 64 + lanes ≤ 64) (inside : lanes * turns ≤ 64 * size)
    (holds : LanesHold vec (fun d => vec d * invNorm) size 0 st) :
    ∃ st', forRange (signRegister lanes numWords invNorm) turns st = some st' ∧
      LanesHold vec (fun d => vec d * invNorm) size (lanes * turns) st' := by
  refine forRange_spec (fun c st => LanesHold vec (fun d => vec d * invNorm) size (lanes * c) st)
    holds fun c st below holds => signRegister_spec positive narrow (fits c) ?_ holds
  have le := Nat.mul_le_mul_left lanes (Nat.succ_le_of_lt below)
  rw [Nat.mul_succ] at le
  omega

theorem registerTurns_some (build : Build) {dim : UInt32} (ends : dim.toNat + 63 < 2 ^ 32) :
    FusedLut.registerTurns (FusedLut.registerLanes build) dim =
      some (dim.toNat / FusedLut.registerLanes build) := by
  refine if_pos ?_
  have lanes := lanes_pos build
  have le := Nat.div_mul_le_self dim.toNat (FusedLut.registerLanes build)
  omega

theorem simdNormalizeSignSumMaxAbs_spec (build : Build) (vec : ℕ → K) (invNorm : K)
    {words : List UInt64} {numWords dim : UInt32} (length : words.length = numWords.toNat)
    (whole : (dim.toNat + 63) / 64 = numWords.toNat) (ends : dim.toNat + 63 < 2 ^ 32) :
    ∃ out, simdNormalizeSignSumMaxAbs build vec invNorm words numWords dim = some out ∧
      SignsHold vec (fun d => vec d * invNorm) numWords.toNat dim.toNat out := by
  obtain ⟨start, cleared, size⟩ : ∃ start,
      (if dim.toNat % 64 ≠ 0 ∧ dim.toNat / 64 < numWords.toNat then
        storeWord words (dim.toNat / 64) 0 else some words) = some start ∧
      start.length = numWords.toNat := by
    split
    · rename_i tail
      exact ⟨_, if_pos (length ▸ tail.2), List.length_set.trans length⟩
    · exact ⟨words, rfl, length⟩
  have nothing : SignsTo (fun d => vec d * invNorm) 0 (border 0) start := fun d below =>
    absurd below (Nat.not_lt_zero d)
  by_cases scalar : build = .scalar
  · subst scalar
    have fresh : EntriesHold vec (fun d => vec d * invNorm) numWords.toNat 0
        { vec := vec, sum := 0, maxAbs := 0, words := start } :=
      ⟨fun d => (if_neg (Nat.not_lt_zero d)).symm, size, nothing⟩
    obtain ⟨out, run, holds⟩ := @entries_spec K _ _ vec invNorm 0 dim.toNat _ _ (by omega) fresh
    rw [Nat.zero_add] at holds
    refine ⟨out, ?_, holds.finish whole⟩
    rw [simdNormalizeSignSumMaxAbs, cleared, Option.bind_some]
    exact run
  · have turns := registerTurns_some build ends
    obtain ⟨positive, narrow⟩ := lanes_pos build
    have le := Nat.div_mul_le_self dim.toNat (FusedLut.registerLanes build)
    rw [Nat.mul_comm] at le
    have fresh : LanesHold vec (fun d => vec d * invNorm) numWords.toNat 0
        { vec := vec, sum := fun _ => 0, max := fun _ => 0, words := start } :=
      ⟨fun d => (if_neg (Nat.not_lt_zero d)).symm, size, nothing⟩
    obtain ⟨st, registers, ⟨same, size', signs⟩⟩ := @registers_spec K _ _ vec invNorm
      (FusedLut.registerLanes build) numWords.toNat numWords.toNat
      (dim.toNat / FusedLut.registerLanes build) _ positive narrow (lanes_fit build) (by omega)
      fresh
    obtain ⟨out, run, holds⟩ := @entries_spec K _ _ vec invNorm
      (FusedLut.registerLanes build * (dim.toNat / FusedLut.registerLanes build))
      (dim.toNat - FusedLut.registerLanes build * (dim.toNat / FusedLut.registerLanes build)) _
      (st.reduce (FusedLut.registerLanes build)) (by omega) ⟨same, size', signs⟩
    rw [Nat.add_sub_cancel' le] at holds
    refine ⟨out, ?_, holds.finish whole⟩
    rw [simdNormalizeSignSumMaxAbs, cleared, Option.bind_some]
    cases build with
    | scalar => exact absurd rfl scalar
    | avx2 => simp only [turns, registers, Option.bind_some, run]
    | avx512 => simp only [turns, registers, Option.bind_some, run]

/-- Without words the first store is outside. -/
theorem simdNormalizeSignSumMaxAbs_noWords (build : Build) (vec : ℕ → K) (invNorm : K)
    {dim : UInt32} (large : 16 ≤ dim.toNat) :
    simdNormalizeSignSumMaxAbs build vec invNorm [] 0 dim = none := by
  have outside : ∀ idx w, storeWord [] idx w = none := fun idx w =>
    if_neg (Nat.not_lt_zero idx)
  have register : ∀ lanes (st : SignLanes K), st.words = [] →
      signRegister lanes 0 invNorm 0 st = none := by
    intro lanes st empty
    simp [signRegister, empty, outside]
  have entry : ∀ st : NormalizeSignSum K, st.words = [] → signEntry invNorm 0 0 st = none := by
    intro st empty
    simp [signEntry, empty, outside]
  have simd : ∀ lanes, 0 < lanes → lanes ≤ 16 → (FusedLut.registerTurns lanes dim).bind (fun turns =>
      (forRange (signRegister lanes 0 invNorm) turns
        { vec := vec, sum := fun _ => 0, max := fun _ => 0, words := [] }).bind fun st =>
          forRange (signEntry invNorm (lanes * turns)) (dim.toNat - lanes * turns)
            (st.reduce lanes)) = none := by
    intro lanes positive narrow
    rw [FusedLut.registerTurns]
    split
    · rw [Option.bind_some, forRange_none (register lanes _ rfl) _ (Nat.div_pos (by omega) positive),
        Option.bind_none]
    · rfl
  rw [simdNormalizeSignSumMaxAbs, if_neg (fun inside => Nat.not_lt_zero _ inside.2),
    Option.bind_some]
  cases build with
  | scalar => exact forRange_none (entry _ rfl) _ (by omega)
  | avx2 => exact simd 8 (by decide) (by decide)
  | avx512 => exact simd 16 (by decide) (by decide)

end Signs

/-! ## What the call depends on -/

section Products

variable {K : Type} [Field K] [LinearOrder K] {vec vec' v : ℕ → K} {invNorm invNorm' : K}

/-- Two runs of the register loop whose products agree. -/
structure LanesAgree (vec vec' v : ℕ → K) (n : ℕ) (st st' : SignLanes K) : Prop where
  left : ∀ d, st.vec d = if d < n then v d else vec d
  right : ∀ d, st'.vec d = if d < n then v d else vec' d
  sum : st.sum = st'.sum
  max : st.max = st'.max
  words : st.words = st'.words

/-- Two runs of the loop over single entries. -/
structure EntriesAgree (vec vec' v : ℕ → K) (n : ℕ) (st st' : NormalizeSignSum K) : Prop where
  left : ∀ d, st.vec d = if d < n then v d else vec d
  right : ∀ d, st'.vec d = if d < n then v d else vec' d
  sum : st.sum = st'.sum
  maxAbs : st.maxAbs = st'.maxAbs
  words : st.words = st'.words

omit [Field K] [LinearOrder K] in
theorem stored_lanes {lanes n : ℕ} {read stored : ℕ → K}
    (before : ∀ d, read d = if d < n then v d else vec d)
    (after : ∀ d, stored d = if n ≤ d ∧ d < n + lanes then v d else read d) (d : ℕ) :
    stored d = if d < n + lanes then v d else vec d := by
  rw [after, before]
  by_cases done : d < n
  · rw [if_neg (by omega), if_pos done, if_pos (by omega)]
  · by_cases here : d < n + lanes
    · rw [if_pos ⟨by omega, here⟩, if_pos here]
    · rw [if_neg (by omega), if_neg done, if_neg here]

theorem signRegister_agree (left : ∀ d, vec d * invNorm = v d) (right : ∀ d, vec' d * invNorm' = v d)
    (lanes numWords c : ℕ) {st st' : SignLanes K}
    (agree : LanesAgree vec vec' v (lanes * c) st st') :
    Option.Rel (LanesAgree vec vec' v (lanes * (c + 1))) (signRegister lanes numWords invNorm c st)
      (signRegister lanes numWords invNorm' c st') := by
  obtain ⟨before, before', sum, max, words⟩ := agree
  have lane : ∀ l, st.vec (lanes * c + l) * invNorm = v (lanes * c + l) := fun l => by
    rw [before, if_neg (by omega), left]
  have lane' : ∀ l, st'.vec (lanes * c + l) * invNorm' = v (lanes * c + l) := fun l => by
    rw [before', if_neg (by omega), right]
  have wrote : ∀ (read : ℕ → K) d,
      (if lanes * c ≤ d ∧ d < lanes * c + lanes then v (lanes * c + (d - lanes * c)) else read d) =
        if lanes * c ≤ d ∧ d < lanes * c + lanes then v d else read d := by
    intro read d
    split
    · rename_i here
      rw [Nat.add_sub_cancel' here.1]
    · rfl
  simp only [signRegister, lane, lane', sum, max, words]
  cases (if lanes * c % 64 = 0 then storeWord st'.words (lanes * c / 64)
    ((scalarMask lanes fun l => decide (0 ≤ v (lanes * c + l))).toUInt64 <<<
      UInt64.ofNat (lanes * c % 64))
    else orWord st'.words (lanes * c / 64)
    ((scalarMask lanes fun l => decide (0 ≤ v (lanes * c + l))).toUInt64 <<<
      UInt64.ofNat (lanes * c % 64))) with
  | none => exact .none
  | some stored =>
      rw [Option.bind_some, Option.bind_some]
      cases (if 64 < lanes * c % 64 + lanes ∧ lanes * c / 64 + 1 < numWords then
        orWord stored (lanes * c / 64 + 1)
          ((scalarMask lanes fun l => decide (0 ≤ v (lanes * c + l))).toUInt64 >>>
            UInt64.ofNat (64 - lanes * c % 64))
        else some stored) with
      | none => exact .none
      | some stored =>
          rw [Nat.mul_succ]
          exact .some ⟨stored_lanes before fun d => wrote st.vec d,
            stored_lanes before' fun d => wrote st'.vec d, rfl, rfl, rfl⟩

theorem signEntry_agree (left : ∀ d, vec d * invNorm = v d) (right : ∀ d, vec' d * invNorm' = v d)
    (first k : ℕ) {st st' : NormalizeSignSum K}
    (agree : EntriesAgree vec vec' v (first + k) st st') :
    Option.Rel (EntriesAgree vec vec' v (first + (k + 1))) (signEntry invNorm first k st)
      (signEntry invNorm' first k st') := by
  obtain ⟨before, before', sum, maxAbs, words⟩ := agree
  rw [← Nat.add_assoc]
  simp only [signEntry]
  generalize first + k = n at *
  have lane : st.vec n * invNorm = v n := by rw [before, if_neg (Nat.lt_irrefl n), left]
  have lane' : st'.vec n * invNorm' = v n := by rw [before', if_neg (Nat.lt_irrefl n), right]
  have update : ∀ d (read : ℕ → K), Function.update read n (v n) d =
      if n ≤ d ∧ d < n + 1 then v d else read d := by
    intro d read
    by_cases here : d = n
    · rw [here, Function.update_self, if_pos ⟨Nat.le_refl n, Nat.lt_succ_self n⟩]
    · rw [Function.update_of_ne here, if_neg (by omega)]
  simp only [lane, lane', sum, maxAbs, words]
  cases (if n % 64 = 0 then storeWord st'.words (n / 64) 0 else some st'.words) with
  | none => exact .none
  | some cleared =>
      rw [Option.bind_some, Option.bind_some]
      cases (if 0 ≤ v n then orWord cleared (n / 64) ((1 : UInt64) <<< UInt64.ofNat (n % 64))
        else some cleared) with
      | none => exact .none
      | some stored =>
          exact .some ⟨stored_lanes before fun d => update d _,
            stored_lanes before' fun d => update d _, rfl, rfl, rfl⟩

theorem entries_agree (left : ∀ d, vec d * invNorm = v d) (right : ∀ d, vec' d * invNorm' = v d)
    {first count : ℕ} {st st' : NormalizeSignSum K} (agree : EntriesAgree vec vec' v first st st')
    (outside : ∀ d, first + count ≤ d → vec d = vec' d) :
    forRange (signEntry invNorm first) count st = forRange (signEntry invNorm' first) count st' := by
  have run := forRange_rel (fun k => EntriesAgree vec vec' v (first + k)) agree
    fun k _ _ (_ : k < count) agree => signEntry_agree left right first k agree
  generalize forRange (signEntry invNorm first) count st = x at run ⊢
  generalize forRange (signEntry invNorm' first) count st' = x' at run ⊢
  cases run with
  | none => rfl
  | some agree =>
      rename_i out out'
      obtain ⟨after, after', sum, maxAbs, words⟩ := agree
      have vec : out.vec = out'.vec := by
        funext d
        rw [after, after']
        split
        · rfl
        · exact outside d (by omega)
      cases out
      cases out'
      simp only at vec sum maxAbs words
      rw [vec, sum, maxAbs, words]

/-- **The call depends on the products alone**: not on how the vector and the factor share
them. -/
theorem simdNormalizeSignSumMaxAbs_congr (build : Build) (words : List UInt64)
    (numWords : UInt32) {dim : UInt32} (products : ∀ d, vec d * invNorm = vec' d * invNorm')
    (outside : ∀ d, dim.toNat ≤ d → vec d = vec' d) :
    simdNormalizeSignSumMaxAbs build vec invNorm words numWords dim =
      simdNormalizeSignSumMaxAbs build vec' invNorm' words numWords dim := by
  have right : ∀ d, vec' d * invNorm' = vec d * invNorm := fun d => (products d).symm
  have scalar : ∀ words, forRange (signEntry invNorm 0) dim.toNat
      { vec := vec, sum := 0, maxAbs := 0, words := words } =
      forRange (signEntry invNorm' 0) dim.toNat
        { vec := vec', sum := 0, maxAbs := 0, words := words } := fun words =>
    entries_agree (fun _ => rfl) right
      ⟨fun _ => (if_neg (Nat.not_lt_zero _)).symm, fun _ => (if_neg (Nat.not_lt_zero _)).symm, rfl,
        rfl, rfl⟩ (by rwa [Nat.zero_add])
  have simd : ∀ words lanes, (FusedLut.registerTurns lanes dim).bind (fun turns =>
      (forRange (signRegister lanes numWords.toNat invNorm) turns
        { vec := vec, sum := fun _ => 0, max := fun _ => 0, words := words }).bind fun st =>
          forRange (signEntry invNorm (lanes * turns)) (dim.toNat - lanes * turns)
            (st.reduce lanes)) =
      (FusedLut.registerTurns lanes dim).bind fun turns =>
        (forRange (signRegister lanes numWords.toNat invNorm') turns
          { vec := vec', sum := fun _ => 0, max := fun _ => 0, words := words }).bind fun st =>
            forRange (signEntry invNorm' (lanes * turns)) (dim.toNat - lanes * turns)
              (st.reduce lanes) := by
    intro words lanes
    rw [FusedLut.registerTurns]
    split
    · rw [Option.bind_some, Option.bind_some]
      have le := Nat.div_mul_le_self dim.toNat lanes
      rw [Nat.mul_comm] at le
      have run := forRange_rel (fun c => LanesAgree vec vec' (fun d => vec d * invNorm) (lanes * c))
        (⟨fun _ => (if_neg (Nat.not_lt_zero _)).symm, fun _ => (if_neg (Nat.not_lt_zero _)).symm, rfl,
          rfl, rfl⟩ : LanesAgree _ _ _ _ ⟨vec, fun _ => 0, fun _ => 0, words⟩
            ⟨vec', fun _ => 0, fun _ => 0, words⟩)
        fun c _ _ (_ : c < dim.toNat / lanes) agree =>
          signRegister_agree (fun _ => rfl) right lanes numWords.toNat c agree
      generalize forRange (signRegister lanes numWords.toNat invNorm) _ _ = x at run ⊢
      generalize forRange (signRegister lanes numWords.toNat invNorm') _ _ = x' at run ⊢
      cases run with
      | none => rfl
      | some agree =>
          obtain ⟨after, after', sum, max, words⟩ := agree
          refine entries_agree (fun _ => rfl) right ⟨after, after', ?_, ?_, words⟩
            (by rwa [Nat.add_sub_cancel' le])
          · rw [SignLanes.reduce, SignLanes.reduce, sum]
          · rw [SignLanes.reduce, SignLanes.reduce, max]
    · rfl
  rw [simdNormalizeSignSumMaxAbs, simdNormalizeSignSumMaxAbs]
  refine congrArg _ (funext fun words => ?_)
  cases build with
  | scalar => exact scalar words
  | avx2 => exact simd words _
  | avx512 => exact simd words _

end Products

/-! ## The norm -/

section Norm

variable {K : Type} [Field K] [LinearOrder K]

omit [LinearOrder K] in
/-- Whole registers hold the entries up to their number. -/
theorem sum_lanes (f : ℕ → K) (width chunks : ℕ) :
    ∑ i ∈ range (width * chunks), f i =
      ∑ lane ∈ range width, ∑ c ∈ range chunks, f (width * c + lane) := by
  rw [sum_comm]
  induction chunks with
  | zero => simp
  | succ chunks ih => rw [Nat.mul_succ, sum_range_add, ih, sum_range_succ]

omit [LinearOrder K] in
theorem foldl_add_before (f : ℕ → K) (n : ℕ) :
    (List.range n).foldl (fun acc c => f c + acc) 0 = ∑ c ∈ range n, f c := by
  induction n with
  | zero => rfl
  | succ n ih =>
      rw [List.range_succ, List.foldl_append, List.foldl_cons, List.foldl_nil, ih, sum_range_succ,
        add_comm]

omit [LinearOrder K] in
theorem foldl_add_behind (f : ℕ → K) (start : K) (n : ℕ) :
    (List.range n).foldl (fun acc c => acc + f c) start = start + ∑ c ∈ range n, f c := by
  induction n with
  | zero => simp
  | succ n ih =>
      rw [List.range_succ, List.foldl_append, List.foldl_cons, List.foldl_nil, ih, sum_range_succ,
        add_assoc]

omit [LinearOrder K] in
theorem simdSubtractAndNormSq_ends {build : Build} {dim : UInt32}
    (ends : FusedLut.RegistersEnd build dim) (a : ℕ → K) (b : Option (ℕ → K)) :
    simdSubtractAndNormSq build a b dim = some (copyOf dim.toNat (differences a b),
      ∑ i ∈ range dim.toNat, differences a b i * differences a b i) := by
  have simd : ∀ (diff : ℕ → K) lanes, (FusedLut.registerTurns lanes dim).isSome →
      (FusedLut.registerTurns lanes dim).map (fun turns =>
        (copyOf dim.toNat diff,
          (List.range (dim.toNat - lanes * turns)).foldl
            (fun result k => result + diff (lanes * turns + k) * diff (lanes * turns + k))
            (sumTo lanes fun lane => (List.range turns).foldl
              (fun acc c => diff (lanes * c + lane) * diff (lanes * c + lane) + acc) 0))) =
        some (copyOf dim.toNat diff, ∑ i ∈ range dim.toNat, diff i * diff i) := by
    intro diff lanes ended
    rw [FusedLut.registerTurns] at ended ⊢
    split at ended
    · rename_i below
      have le := Nat.div_mul_le_self dim.toNat lanes
      rw [Nat.mul_comm] at le
      have whole := sum_range_add (fun i => diff i * diff i) (lanes * (dim.toNat / lanes))
        (dim.toNat - lanes * (dim.toNat / lanes))
      rw [Nat.add_sub_cancel' le, sum_lanes] at whole
      rw [if_pos below, Option.map_some, sumTo_eq,
        foldl_add_behind fun k => diff (lanes * (dim.toNat / lanes) + k) *
          diff (lanes * (dim.toNat / lanes) + k), whole]
      simp only [foldl_add_before fun c => diff (lanes * c + _) * diff (lanes * c + _)]
    · cases ended
  cases build with
  | scalar =>
      have tail := foldl_add_behind
        (fun k => differences a b (0 + k) * differences a b (0 + k)) 0 dim.toNat
      simp only [simdSubtractAndNormSq]
      rw [tail, zero_add]
      simp only [Nat.zero_add]
  | avx2 =>
      simp only [simdSubtractAndNormSq]
      refine simd _ _ ?_
      rw [FusedLut.registerTurns, if_pos (ends.resolve_left (by decide))]
      rfl
  | avx512 =>
      simp only [simdSubtractAndNormSq]
      refine simd _ _ ?_
      rw [FusedLut.registerTurns, if_pos (ends.resolve_left (by decide))]
      rfl

omit [LinearOrder K] in
theorem simdSubtractAndNormSq_endless {build : Build} {dim : UInt32}
    (endless : ¬ FusedLut.RegistersEnd build dim) (a : ℕ → K) (b : Option (ℕ → K)) :
    simdSubtractAndNormSq build a b dim = none := by
  rw [FusedLut.RegistersEnd, not_or] at endless
  cases build with
  | scalar => exact absurd rfl endless.1
  | avx2 =>
      simp only [simdSubtractAndNormSq]
      rw [FusedLut.registerTurns, if_neg endless.2, Option.map_none]
  | avx512 =>
      simp only [simdSubtractAndNormSq]
      rw [FusedLut.registerTurns, if_neg endless.2, Option.map_none]

end Norm

end VecFetch.Simd
