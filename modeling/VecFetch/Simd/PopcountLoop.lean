/-
# Simd.PopcountLoop -- the loops of PopcountXor and PopcountTotal

Four words at a time, then one, with 32-bit counters and every access checked.  Both functions
are one loop over what they load.  The test for four more words, `i + 4 <= num_words`, is a
32-bit sum: from `2 ^ 32 - 4` words on it holds at every multiple of 4, and the loop does not
end.  Just below that number both count the set bits, as the scalar loops do
(`popcounts_iff`).
-/
import VecFetch.Theory.WhileLoop
import VecFetch.Simd.Popcount
import Mathlib.Data.List.GetD
import Mathlib.Data.Vector.Basic

namespace VecFetch.Simd.PopcountLoop

open VecFetch.Theory Finset

set_option autoImplicit false

/-! ## Loads -/

/-- `_mm256_loadu_si256(words + i)`: four words, all of them there. -/
def loadu (words : List UInt64) (i : ℕ) : Option Register :=
  if i + 4 ≤ words.length then some (loadWords (fun k => words.getD k 0) i) else none

/-- `_mm256_xor_si256`, byte by byte. -/
def xorBytes (x y : Register) : Register := .ofBytes fun j => x.byte j ^^^ y.byte j

/-- `_mm256_xor_si256(va, vb)` of `PopcountXor`. -/
def loadXor (a b : List UInt64) (i : ℕ) : Option Register :=
  (loadu a i).bind fun va => (loadu b i).map fun vb => xorBytes va vb

/-- `a[i] ^ b[i]`. -/
def wordXor (a b : List UInt64) (i : ℕ) : Option UInt64 :=
  a[i]?.bind fun x => b[i]?.map fun y => x ^^^ y

/-! ## The loops -/

structure CountState where
  i : UInt32 := 0
  counts : ByteCounts := {}

section Loops

variable (load : ℕ → Option Register) (word : ℕ → Option UInt64) (numWords : UInt32)

/-- `i + 4 <= num_words`. -/
def moreRegisters (s : CountState) : Bool := decide (s.i + 4 ≤ numWords)

/-- `i < num_words`. -/
def moreWords (s : CountState) : Bool := decide (s.i < numWords)

def registerTurn (s : CountState) : Option CountState :=
  (load s.i.toNat).map fun v => ⟨s.i + 4, addRegister v s.counts⟩

def wordTurn (s : CountState) : Option CountState :=
  (word s.i.toNat).map fun x =>
    ⟨s.i + 1, { s.counts with total := s.counts.total + UInt32.ofNat (popcount64 x) }⟩

/-- `total += HorizSumBytes(acc)`. -/
def flush (s : CountState) : CountState :=
  { s with counts := { s.counts with total := s.counts.total + horizSumBytes s.counts.acc } }

/-- Registers, then words. -/
def popcountAVX2 (fuel : ℕ) : Option UInt32 :=
  (whileLoop (moreRegisters numWords) (registerTurn load) fuel {}).bind fun s =>
    (whileLoop (moreWords numWords) (wordTurn word) fuel (flush s)).map fun t => t.counts.total

/-- Words only. -/
def popcountScalar (fuel : ℕ) : Option UInt32 :=
  (whileLoop (moreWords numWords) (wordTurn word) fuel {}).map fun t => t.counts.total

end Loops

section Functions

variable (numWords : UInt32) (fuel : ℕ)

/-- `PopcountXor` of the AVX2 build. -/
def popcountXor (a b : List UInt64) : Option UInt32 :=
  popcountAVX2 (loadXor a b) (wordXor a b) numWords fuel

/-- `PopcountTotal` of the AVX2 build. -/
def popcountTotal (code : List UInt64) : Option UInt32 :=
  popcountAVX2 (loadu code) (fun i => code[i]?) numWords fuel

/-- `PopcountXor` of the scalar build. -/
def popcountXorScalar (a b : List UInt64) : Option UInt32 :=
  popcountScalar (wordXor a b) numWords fuel

/-- `PopcountTotal` of the scalar build. -/
def popcountTotalScalar (code : List UInt64) : Option UInt32 :=
  popcountScalar (fun i => code[i]?) numWords fuel

end Functions

/-! ## What is counted -/

/-- The set bits of all words. -/
def setBits (words : List UInt64) : ℕ := (words.map popcount64).sum

/-- The set bits of the words in which `a` and `b` differ are counted, as the scalar loop
counts them. -/
def CountsXor (numWords : UInt32) (a b : List.Vector UInt64 numWords.toNat) : Prop :=
  ∃ fuel total, popcountXor numWords fuel a.toList b.toList = some total ∧
    popcountXorScalar numWords fuel a.toList b.toList = some total ∧
    total = UInt32.ofNat (setBits (List.zipWith (· ^^^ ·) a.toList b.toList))

/-- The set bits of the code are counted, as the scalar loop counts them. -/
def CountsTotal (numWords : UInt32) (code : List.Vector UInt64 numWords.toNat) : Prop :=
  ∃ fuel total, popcountTotal numWords fuel code.toList = some total ∧
    popcountTotalScalar numWords fuel code.toList = some total ∧
    total = UInt32.ofNat (setBits code.toList)

/-- The set bits of the first `n` words. -/
def bitsBefore (w : ℕ → UInt64) (n : ℕ) : ℕ := ∑ k ∈ range n, popcount64 (w k)

theorem bitsBefore_eq (w : ℕ → UInt64) (first n : ℕ) :
    differing w (fun _ => 0) first n = ∑ k ∈ range n, popcount64 (w (first + k)) := by
  simp only [differing, UInt64.xor_zero]

theorem setBits_eq (words : List UInt64) (w : ℕ → UInt64)
    (same : ∀ i, i < words.length → words[i]? = some (w i)) :
    setBits words = bitsBefore w words.length := by
  induction words using List.reverseRecOn with
  | nil => rfl
  | append_singleton front x ih =>
      have last := same front.length (by simp)
      rw [List.getElem?_concat_length, Option.some.injEq] at last
      have before : ∀ i, i < front.length → front[i]? = some (w i) := by
        intro i inside
        rw [← List.getElem?_append_left inside]
        exact same i (by simp; omega)
      rw [List.length_append, List.length_singleton, bitsBefore, sum_range_succ, ← bitsBefore,
        ← ih before, setBits, setBits, last]
      simp

/-- The loads read the words of `w`, `n` of them. -/
structure Reads (load : ℕ → Option Register) (word : ℕ → Option UInt64) (w : ℕ → UInt64)
    (n : ℕ) : Prop where
  registers : ∀ i, i + 4 ≤ n → load i = some (loadWords w i)
  words : ∀ i, i < n → word i = some (w i)

theorem reads_code (code : List UInt64) :
    Reads (loadu code) (fun i => code[i]?) (fun k => code.getD k 0) code.length where
  registers i inside := if_pos inside
  words i inside := by simp [inside]

theorem xorBytes_loadWords (a b : ℕ → UInt64) (i : ℕ) :
    xorBytes (loadWords a i) (loadWords b i) = loadWords (fun k => a k ^^^ b k) i := by
  refine congrArg Register.ofBytes (funext fun j => ?_)
  rw [loadWords, loadWords, Register.byte_ofBytes, Register.byte_ofBytes, ← UInt8.ofNat_xor,
    ← Nat.shiftRight_xor_distrib, ← UInt64.toNat_xor]

theorem reads_xor (a b : List UInt64) (same : b.length = a.length) :
    Reads (loadXor a b) (wordXor a b) (fun k => a.getD k 0 ^^^ b.getD k 0) a.length where
  registers i inside := by
    rw [loadXor, loadu, loadu, if_pos inside, if_pos (same ▸ inside), Option.bind_some,
      Option.map_some, xorBytes_loadWords]
  words i inside := by
    have inside' : i < b.length := same ▸ inside
    simp [wordXor, inside, inside']

/-! ## The runs -/

section Runs

variable {load : ℕ → Option Register} {word : ℕ → Option UInt64} {w : ℕ → UInt64}
  {numWords : UInt32} {s : CountState}

theorem moreWords_iff : moreWords numWords s = true ↔ s.i.toNat < numWords.toNat := by
  rw [moreWords, decide_eq_true_eq, UInt32.lt_iff_toNat_lt]

/-- The test for four more words, with its sum in 32 bits. -/
theorem moreRegisters_iff :
    moreRegisters numWords s = true ↔ (s.i.toNat + 4) % 2 ^ 32 ≤ numWords.toNat := by
  rw [moreRegisters, decide_eq_true_eq, UInt32.le_iff_toNat_le, UInt32.toNat_add]
  rfl

/-- Total and bytes hold the set bits of the registers before word `i`. -/
structure InRegisters (w : ℕ → UInt64) (n : ℕ) (s : CountState) : Prop where
  inside : s.i.toNat ≤ n
  whole : 4 ∣ s.i.toNat
  counts : s.counts.Holds (bitsBefore w s.i.toNat)

/-- The total is the set bits before word `i`. -/
structure InTotal (w : ℕ → UInt64) (n : ℕ) (s : CountState) : Prop where
  inside : s.i.toNat ≤ n
  total : s.counts.total = UInt32.ofNat (bitsBefore w s.i.toNat)

theorem inRegisters_start (w : ℕ → UInt64) (n : ℕ) : InRegisters w n {} where
  inside := Nat.zero_le _
  whole := Nat.dvd_zero _
  counts := ⟨⟨0, rfl, by simp [Register.byte_toNat, Register.zero, bitsBefore]⟩,
    fun j => by simp [Register.byte_toNat, Register.zero], Nat.zero_lt_succ 30⟩

theorem inTotal_start (w : ℕ → UInt64) (n : ℕ) : InTotal w n {} where
  inside := Nat.zero_le _
  total := rfl

theorem InRegisters.flush {n : ℕ} (held : InRegisters w n s) : InTotal w n (flush s) where
  inside := held.inside
  total := by
    obtain ⟨m, total, split⟩ := held.counts.counted
    rw [PopcountLoop.flush]
    dsimp only
    rw [total, horizSumBytes_eq, ← UInt32.ofNat_add, split]

theorem InRegisters.turn (reads : Reads load word w numWords.toNat)
    (held : InRegisters w numWords.toNat s) (more : s.i.toNat + 4 ≤ numWords.toNat) :
    ∃ s', registerTurn load s = some s' ∧ InRegisters w numWords.toNat s' ∧
      s'.i.toNat = s.i.toNat + 4 := by
  have width := numWords.toNat_lt
  have next : (s.i + 4).toNat = s.i.toNat + 4 := by
    rw [UInt32.toNat_add]
    exact Nat.mod_eq_of_lt (by simp only [UInt32.reduceToNat]; omega)
  have index : 4 * (s.i.toNat / 4) = s.i.toNat := Nat.mul_div_cancel' held.whole
  have turned := ByteCounts.turn_holds w (fun _ => 0) (c := s.i.toNat / 4) held.counts
  rw [index, bitsBefore_eq] at turned
  refine ⟨_, by rw [registerTurn, reads.registers _ more]; rfl, ⟨?_, ?_, ?_⟩, next⟩
  · dsimp only
    omega
  · dsimp only
    rw [next]
    exact Nat.dvd_add held.whole (Nat.dvd_refl 4)
  · dsimp only
    rw [next, bitsBefore, sum_range_add]
    have same : ByteCounts.turn w (fun _ => 0) (s.i.toNat / 4) s.counts =
        addRegister (loadWords w s.i.toNat) s.counts := by
      simp only [ByteCounts.turn, UInt64.xor_zero, index]
    rw [← same]
    exact turned

theorem InTotal.turn (reads : Reads load word w numWords.toNat)
    (held : InTotal w numWords.toNat s) (more : s.i.toNat < numWords.toNat) :
    ∃ s', wordTurn word s = some s' ∧ InTotal w numWords.toNat s' ∧
      s'.i.toNat = s.i.toNat + 1 := by
  have width := numWords.toNat_lt
  have next : (s.i + 1).toNat = s.i.toNat + 1 := by
    rw [UInt32.toNat_add]
    exact Nat.mod_eq_of_lt (by simp only [UInt32.reduceToNat]; omega)
  refine ⟨_, by rw [wordTurn, reads.words _ more]; rfl, ⟨?_, ?_⟩, next⟩
  · dsimp only
    omega
  · dsimp only
    rw [next, held.total, ← UInt32.ofNat_add, bitsBefore, bitsBefore, sum_range_succ]

/-- The loop over words counts what is left. -/
theorem InTotal.tail (reads : Reads load word w numWords.toNat)
    (held : InTotal w numWords.toNat s) :
    ∃ t, whileLoop (moreWords numWords) (wordTurn word) numWords.toNat s = some t ∧
      t.counts.total = UInt32.ofNat (bitsBefore w numWords.toNat) := by
  have turn : ∀ s, InTotal w numWords.toNat s → moreWords numWords s = true →
      ∃ s', wordTurn word s = some s' ∧ InTotal w numWords.toNat s' ∧
        s.i.toNat < s'.i.toNat ∧ s'.i.toNat ≤ numWords.toNat := by
    intro s held more
    rw [moreWords_iff] at more
    obtain ⟨s', turned, held', next⟩ := held.turn reads more
    exact ⟨s', turned, held', by omega, by omega⟩
  obtain ⟨t, ends, done, stopped⟩ := whileLoop_upTo _ _ turn held
  rw [← Bool.not_eq_true, moreWords_iff] at stopped
  have inside := done.inside
  have last : t.i.toNat = numWords.toNat := by omega
  exact ⟨t, ends, last ▸ done.total⟩

/-- Below the last register that 32 bits can count, the loop over registers ends. -/
theorem registers_end (reads : Reads load word w numWords.toNat)
    (short : numWords.toNat < 2 ^ 32 - 4) :
    ∃ t, whileLoop (moreRegisters numWords) (registerTurn load) numWords.toNat {} = some t ∧
      InRegisters w numWords.toNat t := by
  have turn : ∀ s, InRegisters w numWords.toNat s → moreRegisters numWords s = true →
      ∃ s', registerTurn load s = some s' ∧ InRegisters w numWords.toNat s' ∧
        s.i.toNat < s'.i.toNat ∧ s'.i.toNat ≤ numWords.toNat := by
    intro s held more
    have inside := held.inside
    rw [moreRegisters_iff, Nat.mod_eq_of_lt (by omega)] at more
    obtain ⟨s', turned, held', next⟩ := held.turn reads more
    exact ⟨s', turned, held', by omega, by omega⟩
  obtain ⟨t, ends, done, -⟩ := whileLoop_upTo _ _ turn (inRegisters_start w numWords.toNat)
  exact ⟨t, ends, done⟩

/-- From there on every multiple of 4 passes for the start of one more register. -/
theorem registers_never_end (load : ℕ → Option Register) (long : 2 ^ 32 - 4 ≤ numWords.toNat)
    (fuel : ℕ) : whileLoop (moreRegisters numWords) (registerTurn load) fuel {} = none := by
  refine whileLoop_never (fun s => 4 ∣ s.i.toNat) ?_ ?_ fuel (Nat.dvd_zero _)
  · intro s aligned
    have width := s.i.toNat_lt
    rw [moreRegisters_iff]
    omega
  · intro s s' aligned turned
    obtain ⟨v, -, rfl⟩ := Option.map_eq_some_iff.1 turned
    have four : (4 : UInt32).toNat = 4 := rfl
    dsimp only
    rw [UInt32.toNat_add, four]
    omega

/-- The scalar loop counts any number of words. -/
theorem scalar_counts (reads : Reads load word w numWords.toNat) :
    popcountScalar word numWords numWords.toNat =
      some (UInt32.ofNat (bitsBefore w numWords.toNat)) := by
  obtain ⟨t, ends, total⟩ := (inTotal_start w numWords.toNat).tail reads
  rw [popcountScalar, ends, Option.map_some, total]

theorem avx2_counts (reads : Reads load word w numWords.toNat)
    (short : numWords.toNat < 2 ^ 32 - 4) :
    popcountAVX2 load word numWords numWords.toNat =
      some (UInt32.ofNat (bitsBefore w numWords.toNat)) := by
  obtain ⟨s, registers, held⟩ := registers_end reads short
  obtain ⟨t, ends, total⟩ := held.flush.tail reads
  rw [popcountAVX2, registers, Option.bind_some, ends, Option.map_some, total]

theorem avx2_never_ends (load : ℕ → Option Register) (word : ℕ → Option UInt64)
    (long : 2 ^ 32 - 4 ≤ numWords.toNat) (fuel : ℕ) :
    popcountAVX2 load word numWords fuel = none := by
  rw [popcountAVX2, registers_never_end load long, Option.bind_none]

end Runs

/-- What the two functions have in common: the AVX2 loop counts `bits` as the scalar one does. -/
theorem counts_iff {load : ℕ → Option Register} {word : ℕ → Option UInt64} {w : ℕ → UInt64}
    {numWords : UInt32} (reads : Reads load word w numWords.toNat) {bits : ℕ}
    (counted : bits = bitsBefore w numWords.toNat) :
    (∃ fuel total, popcountAVX2 load word numWords fuel = some total ∧
      popcountScalar word numWords fuel = some total ∧ total = UInt32.ofNat bits) ↔
      numWords.toNat < 2 ^ 32 - 4 := by
  constructor
  · rintro ⟨fuel, total, ran, -⟩
    by_contra long
    rw [avx2_never_ends load word (Nat.le_of_not_lt long)] at ran
    cases ran
  · intro short
    exact ⟨_, _, avx2_counts reads short, scalar_counts reads, by rw [counted]⟩

/-! ## Without the ends of the counters -/

section Unbounded

variable {numWords : UInt32} (a b code : List UInt64)

/-- **Below `2 ^ 32 - 4` words the loops of `PopcountXor` compute what the counters of any
width compute** (`Simd.popcountXor`). -/
theorem popcountXor_refines (aWords : a.length = numWords.toNat) (bWords : b.length = a.length)
    (short : numWords.toNat < 2 ^ 32 - 4) :
    popcountXor numWords numWords.toNat a b =
        some (Simd.popcountXor (fun k => a.getD k 0) (fun k => b.getD k 0) numWords.toNat .avx2) ∧
      popcountXorScalar numWords numWords.toNat a b =
        some (Simd.popcountXor (fun k => a.getD k 0) (fun k => b.getD k 0) numWords.toNat
          .scalar) := by
  have reads := aWords ▸ reads_xor a b bWords
  have counted : differing (fun k => a.getD k 0) (fun k => b.getD k 0) 0 numWords.toNat =
      bitsBefore (fun k => a.getD k 0 ^^^ b.getD k 0) numWords.toNat := by
    simp only [differing, bitsBefore, Nat.zero_add]
  rw [popcountXor_eq, popcountXor_eq, counted]
  exact ⟨avx2_counts reads short, scalar_counts reads⟩

/-- **Below `2 ^ 32 - 4` words the loops of `PopcountTotal` agree** (`Simd.popcountTotal`). -/
theorem popcountTotal_refines (words : code.length = numWords.toNat)
    (short : numWords.toNat < 2 ^ 32 - 4) :
    popcountTotal numWords numWords.toNat code =
        some (Simd.popcountTotal (fun k => code.getD k 0) numWords.toNat) ∧
      popcountTotalScalar numWords numWords.toNat code =
        some (Simd.popcountTotal (fun k => code.getD k 0) numWords.toNat) := by
  have reads := words ▸ reads_code code
  rw [popcountTotal_eq]
  exact ⟨avx2_counts reads short, scalar_counts reads⟩

end Unbounded

section Vectors

variable {numWords : UInt32} (a b code : List.Vector UInt64 numWords.toNat)

theorem countsXor_iff : CountsXor numWords a b ↔ numWords.toNat < 2 ^ 32 - 4 := by
  have reads := reads_xor a.toList b.toList (by simp)
  have zipped : (List.zipWith (· ^^^ ·) a.toList b.toList).length = numWords.toNat := by simp
  have bits := setBits_eq (List.zipWith (· ^^^ ·) a.toList b.toList)
    (fun k => a.toList.getD k 0 ^^^ b.toList.getD k 0) (fun i inside => by
      rw [zipped] at inside
      simp [inside])
  rw [zipped] at bits
  rw [a.toList_length] at reads
  exact counts_iff reads bits

theorem countsTotal_iff : CountsTotal numWords code ↔ numWords.toNat < 2 ^ 32 - 4 := by
  have reads := reads_code code.toList
  have bits := setBits_eq code.toList _ reads.words
  rw [code.toList_length] at reads bits
  exact counts_iff reads bits

end Vectors

/-- **Both functions count the set bits just below `2 ^ 32 - 4` words.** -/
theorem popcounts_iff (numWords : UInt32) (a b code : List.Vector UInt64 numWords.toNat) :
    (CountsXor numWords a b ↔ numWords.toNat < 2 ^ 32 - 4) ∧
      (CountsTotal numWords code ↔ numWords.toNat < 2 ^ 32 - 4) :=
  ⟨countsXor_iff a b, countsTotal_iff code⟩

/-- `2 ^ 32 - 4` empty words: the loop over registers goes on past them. -/
theorem popcounts_pass_end :
    ¬ CountsXor 0xFFFFFFFC (List.Vector.replicate _ 0) (List.Vector.replicate _ 0) ∧
      ¬ CountsTotal 0xFFFFFFFC (List.Vector.replicate _ 0) := by
  constructor
  · rintro ⟨fuel, total, ran, -⟩
    rw [popcountXor, avx2_never_ends _ _ (by decide)] at ran
    cases ran
  · rintro ⟨fuel, total, ran, -⟩
    rw [popcountTotal, avx2_never_ends _ _ (by decide)] at ran
    cases ran

end VecFetch.Simd.PopcountLoop
