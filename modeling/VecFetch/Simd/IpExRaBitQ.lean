/-
# Simd.IpExRaBitQ -- a query against a code with packed signs

`IPExRaBitQ` with packed signs: the SIMD builds add signed entries and their products with the
code in the lanes of their registers, turn after turn, and take half the sum of the entries in
the end; the entries that are left and the scalar build go one by one.  Whatever the build, the
result is the inner product with the signed code vector.

Arithmetic is exact.  A result of `none` is a loop whose 32-bit counter wraps.
-/
import VecFetch.Simd.PrepareQuery

namespace VecFetch.Simd

open VecFetch.Theory VecFetch.Rabitq Finset

set_option autoImplicit false

/-! ## The code -/

section Code

variable {K : Type} [Field K]

/-- The bit of an entry among the packed signs. -/
def packedSign (packed : List UInt8) (i : ℕ) : Bool := (packed.getD (i / 8) 0).toNat.testBit (i % 8)

/-- `positive ? query[i] : -query[i]`. -/
def signedQuery (positive : Bool) (q : K) : K := if positive = true then q else -q

/-- `LoadPackedSignChunk64`, bit by bit: up to eight bytes, as far as there are any. -/
def loadPackedSignChunk64 (packed : List UInt8) (bitOffset : ℕ) (dim : UInt32) (bit : ℕ) : Bool :=
  let totalBytes := ((dim + 7) / 8).toNat
  let byteIdx := bitOffset / 8
  decide (byteIdx < totalBytes ∧ bit / 8 < min 8 (totalBytes - byteIdx)) &&
    (packed.getD (byteIdx + bit / 8) 0).toNat.testBit (bit % 8)

/-- The accumulators, lane by lane. -/
structure SignedSums (K : Type) where
  dot : ℕ → ℕ → K
  bias : ℕ → ℕ → K

/-- A register of entries and one of the code go to an accumulator: `fmadd` and `add`. -/
def SignedSums.add (k : ℕ) (q a : ℕ → K) (sums : SignedSums K) : SignedSums K :=
  { dot := fun acc lane =>
      if acc = k then q lane * a lane + sums.dot acc lane else sums.dot acc lane
    bias := fun acc lane => if acc = k then sums.bias acc lane + q lane else sums.bias acc lane }

/-- A turn of `count` registers from entry `i` on, to the accumulators in turn. -/
def signedTurn (lanes accs count : ℕ) (query : ℕ → K) (code : List UInt8)
    (sign : ℕ → ℕ → ℕ → Bool) (i : ℕ) (sums : SignedSums K) : SignedSums K :=
  (List.range count).foldl
    (fun sums r => sums.add (r % accs)
      (fun lane => signedQuery (sign i r lane) (query (i + lanes * r + lane)))
      fun lane => ((code.getD (i + lanes * r + lane) 0).toNat : K))
    sums

/-- `for (; i + width <= dim; i += width)`, with the counter in 32 bits. -/
def turnLoop {α : Type} (width : ℕ) (dim : UInt32) (turn : ℕ → α → α) (st : ℕ × α) :
    Option (ℕ × α) :=
  let turns := (dim.toNat - st.1) / width
  if st.1 + width * turns + width < 2 ^ 32 then
    some (st.1 + width * turns,
      (List.range turns).foldl (fun s c => turn (st.1 + width * c) s) st.2)
  else none

/-- `result += signed_q * code + 0.5 * signed_q`, for the entries from `first` on. -/
def signedTail (query : ℕ → K) (code packed : List UInt8) (first dim : ℕ) (result : K) : K :=
  (List.range (dim - first)).foldl
    (fun result k =>
      let i := first + k
      let q := signedQuery (packedSign packed i) (query i)
      result + (q * ((code.getD i 0).toNat : K) + lit 0.5 * q))
    result

/-- The accumulators joined, and the entries that are left. -/
def SignedSums.finish (lanes accs : ℕ) (query : ℕ → K) (code packed : List UInt8) (dim : UInt32)
    (st : ℕ × SignedSums K) : K :=
  let reduce := fun f : ℕ → ℕ → K => sumTo lanes fun lane => sumTo accs fun acc => f acc lane
  signedTail query code packed st.1 dim.toNat (reduce st.2.dot + lit 0.5 * reduce st.2.bias)

/-- `IPExRaBitQPackedSign`, by build. -/
def ipExRaBitQPackedSign (build : Build) (query : ℕ → K) (codeAbs packed : List UInt8)
    (dim : UInt32) : Option K :=
  let zero : ℕ × SignedSums K := (0, ⟨fun _ _ => 0, fun _ _ => 0⟩)
  match build with
  | .avx512 =>
      let turn := fun count => signedTurn 16 1 count query codeAbs fun i r lane =>
        loadPackedSignChunk64 packed i dim (16 * r + lane)
      (turnLoop 64 dim (turn 4) zero).bind fun st =>
      (turnLoop 32 dim (turn 2) st).bind fun st =>
      (turnLoop 16 dim (turn 1) st).map (SignedSums.finish 16 1 query codeAbs packed dim)
  | .avx2 =>
      let turn := fun count => signedTurn 8 2 count query codeAbs fun i r lane =>
        (packed.getD ((i + 8 * r) / 8) 0).toNat.testBit lane
      (turnLoop 32 dim (turn 4) zero).bind fun st =>
      (turnLoop 16 dim (turn 2) st).bind fun st =>
      (turnLoop 8 dim (turn 1) st).map (SignedSums.finish 8 2 query codeAbs packed dim)
  | .scalar =>
      some (sumTo dim.toNat fun i =>
        signedQuery (packedSign packed i) (query i) * (((codeAbs.getD i 0).toNat : K) + lit 0.5))

end Code

/-! ## The sums -/

section Sums

variable {K : Type} [Field K] {lanes accs : ℕ} {query : ℕ → K} {code packed : List UInt8}
  {dim : UInt32}

/-- An entry with its sign. -/
def signedAt (query : ℕ → K) (packed : List UInt8) (i : ℕ) : K :=
  signedQuery (packedSign packed i) (query i)

/-- What the accumulators hold together after the first entries. -/
structure SumsTo (lanes accs : ℕ) (query : ℕ → K) (code packed : List UInt8) (n : ℕ)
    (sums : SignedSums K) : Prop where
  dot : ∑ lane ∈ range lanes, ∑ acc ∈ range accs, sums.dot acc lane =
    ∑ i ∈ range n, signedAt query packed i * ((code.getD i 0).toNat : K)
  bias : ∑ lane ∈ range lanes, ∑ acc ∈ range accs, sums.bias acc lane =
    ∑ i ∈ range n, signedAt query packed i

theorem SumsTo.add {n k : ℕ} {q a : ℕ → K} {sums : SignedSums K}
    (holds : SumsTo lanes accs query code packed n sums) (one : k < accs)
    (entries : ∀ lane, lane < lanes → q lane = signedAt query packed (n + lane))
    (codes : ∀ lane, lane < lanes → a lane = ((code.getD (n + lane) 0).toNat : K)) :
    SumsTo lanes accs query code packed (n + lanes) (sums.add k q a) := by
  have once : ∀ x : K, ∑ acc ∈ range accs, (if acc = k then x else 0) = x := fun x => by
    rw [sum_ite_eq' (range accs) k fun _ => x, if_pos (mem_range.2 one)]
  constructor
  · rw [sum_range_add, ← holds.dot, ← sum_add_distrib]
    refine sum_congr rfl fun lane inside => ?_
    rw [← entries lane (mem_range.1 inside), ← codes lane (mem_range.1 inside),
      ← once (q lane * a lane), ← sum_add_distrib]
    refine sum_congr rfl fun acc _ => ?_
    simp only [SignedSums.add]
    split
    · exact add_comm _ _
    · exact (add_zero _).symm
  · rw [sum_range_add, ← holds.bias, ← sum_add_distrib]
    refine sum_congr rfl fun lane inside => ?_
    rw [← entries lane (mem_range.1 inside), ← once (q lane), ← sum_add_distrib]
    refine sum_congr rfl fun acc _ => ?_
    simp only [SignedSums.add]
    split
    · rfl
    · exact (add_zero _).symm

/-- A turn adds the entries of its registers, where their signs are the packed ones. -/
theorem SumsTo.turn {i count : ℕ} {sign : ℕ → ℕ → ℕ → Bool} {sums : SignedSums K}
    (holds : SumsTo lanes accs query code packed i sums) (some : 0 < accs)
    (signs : ∀ r, r < count → ∀ lane, lane < lanes →
      sign i r lane = packedSign packed (i + lanes * r + lane)) :
    SumsTo lanes accs query code packed (i + lanes * count)
      (signedTurn lanes accs count query code sign i sums) := by
  induction count with
  | zero => exact holds
  | succ count ih =>
      have before := ih fun r below => signs r (Nat.lt_succ_of_lt below)
      rw [signedTurn, List.range_succ, List.foldl_append, List.foldl_cons, List.foldl_nil,
        ← signedTurn, Nat.mul_succ, ← Nat.add_assoc]
      refine before.add (Nat.mod_lt _ some) (fun lane inside => ?_) fun _ _ => rfl
      rw [signs count (Nat.lt_succ_self count) lane inside, signedAt]

/-- A loop adds whole turns. -/
theorem SumsTo.loop {first : ℕ} {sums : SignedSums K}
    (holds : SumsTo lanes accs query code packed first sums) (width : ℕ)
    {turn : ℕ → SignedSums K → SignedSums K} (wide : 0 < width) (narrow : width ≤ 64)
    (ends : dim.toNat + 64 < 2 ^ 32) (inside : first ≤ dim.toNat)
    (turns : ∀ c sums, first + width * c + width ≤ dim.toNat →
      SumsTo lanes accs query code packed (first + width * c) sums →
      SumsTo lanes accs query code packed (first + width * c + width)
        (turn (first + width * c) sums)) :
    ∃ c sums', turnLoop width dim turn (first, sums) = some (first + width * c, sums') ∧
      first + width * c ≤ dim.toNat ∧
      SumsTo lanes accs query code packed (first + width * c) sums' := by
  have most := Nat.mul_div_le (dim.toNat - first) width
  have upTo : ∀ n, n ≤ (dim.toNat - first) / width →
      SumsTo lanes accs query code packed (first + width * n)
        ((List.range n).foldl (fun s c => turn (first + width * c) s) sums) := by
    intro n
    induction n with
    | zero => exact fun _ => holds
    | succ n ih =>
        intro le
        have room := Nat.mul_le_mul_left width le
        rw [Nat.mul_succ] at room
        rw [List.range_succ, List.foldl_append, List.foldl_cons, List.foldl_nil, Nat.mul_succ,
          ← Nat.add_assoc]
        exact turns n _ (by omega) (ih (Nat.le_of_succ_le le))
  exact ⟨(dim.toNat - first) / width, _, if_pos (by dsimp only; omega), by omega, upTo _ le_rfl⟩

/-- What the call is meant to return: the inner product with the signed code vector. -/
def signedInner (query : ℕ → K) (code packed : List UInt8) (n : ℕ) : K :=
  ∑ i ∈ range n, signedAt query packed i * (((code.getD i 0).toNat : K) + lit 0.5)

theorem signedTail_eq {first n : ℕ} (le : first ≤ n) :
    signedTail query code packed first n (signedInner query code packed first) =
      signedInner query code packed n := by
  obtain ⟨k, rfl⟩ := Nat.exists_eq_add_of_le le
  rw [signedTail, Nat.add_sub_cancel_left]
  induction k with
  | zero => rfl
  | succ k ih =>
      rw [List.range_succ, List.foldl_append, List.foldl_cons, List.foldl_nil,
        ih (Nat.le_add_right _ _), ← Nat.add_assoc, signedInner, signedInner, sum_range_succ]
      dsimp only
      rw [signedAt]
      ring

theorem SumsTo.finish {first : ℕ} {sums : SignedSums K} (inside : first ≤ dim.toNat)
    (holds : SumsTo lanes accs query code packed first sums) :
    SignedSums.finish lanes accs query code packed dim (first, sums) =
      signedInner query code packed dim.toNat := by
  have joined : (sumTo lanes fun lane => sumTo accs fun acc => sums.dot acc lane) +
      lit 0.5 * (sumTo lanes fun lane => sumTo accs fun acc => sums.bias acc lane) =
      signedInner query code packed first := by
    simp only [sumTo_eq]
    rw [holds.dot, holds.bias, signedInner, mul_sum, ← sum_add_distrib]
    exact sum_congr rfl fun i _ => by ring
  rw [SignedSums.finish, joined, signedTail_eq inside]

/-- The chunk holds the signs of its entries. -/
theorem loadPackedSignChunk64_eq {i bit : ℕ} (aligned : 8 ∣ i) (chunk : bit < 64)
    (inside : i + bit < dim.toNat) (ends : dim.toNat + 64 < 2 ^ 32) :
    loadPackedSignChunk64 packed i dim bit = packedSign packed (i + bit) := by
  have bytes : ((dim + 7) / 8).toNat = (dim.toNat + 7) / 8 := by
    rw [UInt32.toNat_div, UInt32.toNat_add, show UInt32.toNat 7 = 7 from rfl,
      show UInt32.toNat 8 = 8 from rfl, Nat.mod_eq_of_lt (by omega)]
  rw [loadPackedSignChunk64, packedSign, bytes, decide_eq_true (by omega), Bool.true_and,
    show i / 8 + bit / 8 = (i + bit) / 8 by omega, show bit % 8 = (i + bit) % 8 by omega]

end Sums

/-! ## The result -/

/-- **In every build the call returns the inner product with the signed code vector.** -/
theorem ipExRaBitQPackedSign_eq {K : Type} [Field K] (build : Build) (query : ℕ → K)
    (codeAbs packed : List UInt8) {dim : UInt32} (ends : dim.toNat + 64 < 2 ^ 32) :
    ipExRaBitQPackedSign build query codeAbs packed dim =
      some (signedInner query codeAbs packed dim.toNat) := by
  have fresh : ∀ lanes accs, SumsTo lanes accs query codeAbs packed 0
      ⟨fun _ _ => 0, fun _ _ => 0⟩ := fun lanes accs => by
    constructor
    · simp
    · simp
  cases build with
  | scalar =>
      rw [ipExRaBitQPackedSign, sumTo_eq]
      rfl
  | avx512 =>
      have turn : ∀ count, count ≤ 4 → ∀ i sums, 16 ∣ i → i + 16 * count ≤ dim.toNat →
          SumsTo 16 1 query codeAbs packed i sums →
          SumsTo 16 1 query codeAbs packed (i + 16 * count)
            (signedTurn 16 1 count query codeAbs
              (fun i r lane => loadPackedSignChunk64 packed i dim (16 * r + lane)) i sums) := by
        intro count few i sums aligned inside holds
        refine holds.turn Nat.one_pos fun r below lane lane16 => ?_
        rw [loadPackedSignChunk64_eq (dvd_trans (by decide) aligned) (by omega) (by omega) ends,
          Nat.add_assoc]
      obtain ⟨c₁, sums₁, loop₁, inside₁, holds₁⟩ := (fresh 16 1).loop 64 (by decide)
        (by decide) ends (Nat.zero_le _) fun c sums room holds =>
          turn 4 le_rfl _ sums (by omega) room holds
      obtain ⟨c₂, sums₂, loop₂, inside₂, holds₂⟩ := holds₁.loop 32 (by decide) (by decide) ends
        inside₁ fun c sums room holds => turn 2 (by decide) _ sums (by omega) room holds
      obtain ⟨c₃, sums₃, loop₃, inside₃, holds₃⟩ := holds₂.loop 16 (by decide) (by decide) ends
        inside₂ fun c sums room holds => turn 1 (by decide) _ sums (by omega) room holds
      rw [ipExRaBitQPackedSign]
      dsimp only
      rw [loop₁, Option.bind_some, loop₂, Option.bind_some, loop₃, Option.map_some,
        holds₃.finish inside₃]
  | avx2 =>
      have turn : ∀ count i sums, 8 ∣ i → i + 8 * count ≤ dim.toNat →
          SumsTo 8 2 query codeAbs packed i sums →
          SumsTo 8 2 query codeAbs packed (i + 8 * count)
            (signedTurn 8 2 count query codeAbs
              (fun i r lane => (packed.getD ((i + 8 * r) / 8) 0).toNat.testBit lane) i sums) := by
        intro count i sums aligned inside holds
        refine holds.turn Nat.two_pos fun r below lane lane8 => ?_
        rw [packedSign, show (i + 8 * r + lane) / 8 = (i + 8 * r) / 8 by omega,
          show (i + 8 * r + lane) % 8 = lane by omega]
      obtain ⟨c₁, sums₁, loop₁, inside₁, holds₁⟩ := (fresh 8 2).loop 32 (by decide)
        (by decide) ends (Nat.zero_le _) fun c sums room holds =>
          turn 4 _ sums (by omega) room holds
      obtain ⟨c₂, sums₂, loop₂, inside₂, holds₂⟩ := holds₁.loop 16 (by decide) (by decide) ends
        inside₁ fun c sums room holds => turn 2 _ sums (by omega) room holds
      obtain ⟨c₃, sums₃, loop₃, inside₃, holds₃⟩ := holds₂.loop 8 (by decide) (by decide) ends
        inside₂ fun c sums room holds => turn 1 _ sums (by omega) room holds
      rw [ipExRaBitQPackedSign]
      dsimp only
      rw [loop₁, Option.bind_some, loop₂, Option.bind_some, loop₃, Option.map_some,
        holds₃.finish inside₃]

end VecFetch.Simd
