/-
# Theory.BitFields -- fixed-width codes packed into bytes

A packer ors the bytes of each code into zeroed memory (`packFields`), an unpacker
assembles each code from the bytes that hold it (`unpackFields`).  A layout is a place for
each bit of each code, no two the same (`Places`).  Where the packer's bytes set the bits
at their places (`Places.Filled`) and the unpacker reads them there (`Places.Read`),
unpacking gives the codes back (`Places.round_trip`).
-/
import VecFetch.Theory.Bits

namespace VecFetch.Theory

set_option autoImplicit false

/-- How a codec fails: it returns `false`, or goes outside its memory. -/
inductive Fault where
  | refused
  | outside
  deriving DecidableEq

/-- A memory access that fails is outside. -/
def orOutside {α : Type} : Option α → Except Fault α
  | some a => .ok a
  | none => .error .outside

/-! ## Packing -/

section Pack

variable (limit : ℕ) (decoded : ℕ → UInt8) (ops : ℕ → UInt8 → List (ℕ × UInt8))

/-- Or the bytes of the codes below an index in; a code over the limit is refused. -/
def packFields : ℕ → Buffer → Except Fault Buffer
  | 0, packed => .ok packed
  | n + 1, packed =>
      (packFields n packed).bind fun packed =>
        if limit < (decoded n).toNat then .error .refused
        else orOutside (packed.orAll (ops n (decoded n)))

variable {limit decoded ops} {n : ℕ} {packed : Buffer}

/-- Codes within the limit, with their bytes inside, pack, and set exactly their bits. -/
theorem packFields_ok (within : ∀ i, i < n → (decoded i).toNat ≤ limit)
    (inside : ∀ i, i < n → ∀ op ∈ ops i (decoded i), op.1 < packed.size) :
    ∃ packed', packFields limit decoded ops n packed = .ok packed' ∧
      packed'.size = packed.size ∧ ∀ m, packed'.bit m = true ↔ packed.bit m = true ∨
        ∃ i, i < n ∧ ∃ op ∈ ops i (decoded i), op.1 = m / 8 ∧ op.2.toNat.testBit (m % 8) = true := by
  induction n with
  | zero => exact ⟨packed, rfl, rfl, fun m => by simp⟩
  | succ n ih =>
      obtain ⟨before, run, size, bits⟩ :=
        ih (fun i below => within i (by omega)) fun i below => inside i (by omega)
      obtain ⟨after, ored, size', bits'⟩ := @Buffer.orAll_spec (ops n (decoded n)) before (by
        rw [size]
        exact inside n (by omega))
      refine ⟨after, ?_, size'.trans size, fun m => ?_⟩
      · have fits := within n (by omega)
        rw [packFields, run, Except.bind, if_neg (by omega), ored, orOutside]
      · rw [Buffer.bit, bits' (m / 8), ← Buffer.bit, bits m]
        constructor
        · intro held
          rcases held with (before | ⟨i, below, op⟩) | last
          · exact .inl before
          · exact .inr ⟨i, by omega, op⟩
          · exact .inr ⟨n, by omega, last⟩
        · intro held
          rcases held with before | ⟨i, below, op⟩
          · exact .inl (.inl before)
          · rcases Nat.lt_succ_iff_lt_or_eq.1 below with earlier | rfl
            · exact .inl (.inr ⟨i, earlier, op⟩)
            · exact .inr op

/-- What packing accepts is within the limit and has its bytes inside. -/
theorem packFields_of_ok {packed' : Buffer}
    (run : packFields limit decoded ops n packed = .ok packed') :
    packed'.size = packed.size ∧ ∀ i, i < n → (decoded i).toNat ≤ limit ∧
      ∀ op ∈ ops i (decoded i), op.1 < packed.size := by
  induction n generalizing packed' with
  | zero =>
      cases run
      exact ⟨rfl, fun i below => absurd below (by omega)⟩
  | succ n ih =>
      rw [packFields] at run
      cases earlier : packFields limit decoded ops n packed with
      | error fault =>
          rw [earlier] at run
          cases run
      | ok before =>
          obtain ⟨size, held⟩ := ih earlier
          rw [earlier, Except.bind] at run
          split at run
          · cases run
          · next fits =>
              cases ored : before.orAll (ops n (decoded n)) with
              | none =>
                  rw [ored] at run
                  cases run
              | some after =>
                  obtain ⟨size', inside⟩ := Buffer.orAll_some ored
                  rw [ored] at run
                  cases run
                  refine ⟨size'.trans size, fun i below => ?_⟩
                  rcases Nat.lt_succ_iff_lt_or_eq.1 below with before | rfl
                  · exact held i before
                  · exact ⟨by omega, size ▸ inside⟩

/-- With the bytes of the codes inside, a code over the limit is refused. -/
theorem packFields_refused (inside : ∀ i, i < n → (decoded i).toNat ≤ limit →
      ∀ op ∈ ops i (decoded i), op.1 < packed.size)
    (tooLarge : ∃ i, i < n ∧ limit < (decoded i).toNat) :
    packFields limit decoded ops n packed = .error .refused := by
  induction n with
  | zero =>
      obtain ⟨i, below, -⟩ := tooLarge
      omega
  | succ n ih =>
      rw [packFields]
      by_cases earlier : ∃ i, i < n ∧ limit < (decoded i).toNat
      · rw [ih (fun i below => inside i (by omega)) earlier]
        rfl
      · have within : ∀ j, j < n → (decoded j).toNat ≤ limit := by
          intro j before
          by_contra tooWide
          exact earlier ⟨j, before, by omega⟩
        obtain ⟨i, below, tooWide⟩ := tooLarge
        have last : i = n := by
          by_contra other
          exact earlier ⟨i, by omega, tooWide⟩
        subst last
        obtain ⟨before, run, -, -⟩ := packFields_ok within fun j below =>
          inside j (by omega) (within j below)
        rw [run, Except.bind, if_pos tooWide]

/-- Packing in two parts. -/
theorem packFields_append (limit : ℕ) (decoded : ℕ → UInt8) (ops : ℕ → UInt8 → List (ℕ × UInt8))
    (m n : ℕ) (packed : Buffer) :
    packFields limit decoded ops (m + n) packed = (packFields limit decoded ops m packed).bind
      (packFields limit (fun i => decoded (m + i)) (fun i => ops (m + i)) n) := by
  induction n with
  | zero => cases packFields limit decoded ops m packed <;> rfl
  | succ n ih =>
      rw [← Nat.add_assoc, packFields, ih]
      cases packFields limit decoded ops m packed <;> rfl

theorem packFields_congr {ops' : ℕ → UInt8 → List (ℕ × UInt8)}
    (same : ∀ i, i < n → ops i (decoded i) = ops' i (decoded i)) :
    packFields limit decoded ops n packed = packFields limit decoded ops' n packed := by
  induction n with
  | zero => rfl
  | succ n ih => rw [packFields, packFields, ih fun i below => same i (by omega), same n (by omega)]

end Pack

/-! ## Unpacking -/

/-- Store the codes that a reader assembles, from an index up to a count. -/
def unpackFields (read : ℕ → Option UInt8) (start count : ℕ) (decoded : Buffer) : Option Buffer :=
  forRange (fun k decoded =>
    (read (start + k)).bind fun v => decoded.store (start + k) 1 fun _ => v) (count - start) decoded

/-- A number has one quotient and one rest. -/
theorem digits_apart {width x y x' y' : ℕ} (small : y < width) (small' : y' < width)
    (same : width * x + y = width * x' + y') : x = x' ∧ y = y' := by
  have quotient := congrArg (· / width) same
  have rest := congrArg (· % width) same
  simpa [Nat.mul_add_div, Nat.mul_add_mod, Nat.div_eq_of_lt, Nat.mod_eq_of_lt, small, small',
    Nat.zero_lt_of_lt small] using And.intro quotient rest

/-- A place for each of the `width` bits of `count` codes in `size` bytes, no two the
same. -/
structure Places (count width size : ℕ) where
  place : ℕ → ℕ → ℕ
  inside : ∀ {i b}, i < count → b < width → place i b < 8 * size
  apart : ∀ {i b i' b'}, i < count → b < width → i' < count → b' < width →
    place i b = place i' b' → i = i' ∧ b = b'

namespace Places

variable {count width size : ℕ} (places : Places count width size)

/-- The bytes of a code are inside and set its bits at their places. -/
structure Filled (ops : ℕ → UInt8 → List (ℕ × UInt8)) : Prop where
  inside : ∀ {i v}, i < count → v.toNat < 2 ^ width → ∀ op ∈ ops i v, op.1 < size
  bits : ∀ {i v}, i < count → v.toNat < 2 ^ width → ∀ m,
    (∃ op ∈ ops i v, op.1 = m / 8 ∧ op.2.toNat.testBit (m % 8) = true) ↔
      ∃ b, b < width ∧ places.place i b = m ∧ v.toNat.testBit b = true

/-- The bits of a byte are those at the places of code `i`. -/
def Assembled (packed : Buffer) (i : ℕ) (v : UInt8) : Prop :=
  ∀ j, j < 8 → v.toNat.testBit j = (decide (j < width) && packed.bit (places.place i j))

/-- The reader assembles code `i` from the bits at its places. -/
def ReadAt (packed : Buffer) (read : ℕ → Option UInt8) (i : ℕ) : Prop :=
  ∃ v, read i = some v ∧ places.Assembled packed i v

/-- The reader assembles each code from the bits at its places. -/
def Read (packed : Buffer) (read : ℕ → Option UInt8) : Prop :=
  ∀ i, i < count → places.ReadAt packed read i

/-- Every code below an index is unpacked. -/
def Unpacked (packed : Buffer) (n : ℕ) (decoded : Buffer) : Prop :=
  decoded.size = count ∧ ∀ i, i < n → places.Assembled packed i (decoded.byte i)

variable {places}

/-- Storing the next `m` codes. -/
theorem Unpacked.store {packed decoded : Buffer} {n m : ℕ}
    (before : places.Unpacked packed n decoded) (room : n + m ≤ count) {codes : ℕ → UInt8}
    (assembled : ∀ t, t < m → places.Assembled packed (n + t) (codes t)) :
    ∃ after, decoded.store n m codes = some after ∧ places.Unpacked packed (n + m) after := by
  obtain ⟨size, earlier⟩ := before
  obtain ⟨after, stored, size', here, rest⟩ := @Buffer.store_spec decoded n m (by omega) codes
  refine ⟨after, stored, size'.trans size, fun i below => ?_⟩
  by_cases old : i < n
  · rw [rest i (.inl old)]
    exact earlier i old
  · have code := assembled (i - n) (by omega)
    rw [← here (i - n) (by omega), show n + (i - n) = i by omega] at code
    exact code

/-- From codes unpacked below `start`, the loop unpacks the codes below `stop`. -/
theorem unpackFields_spec {packed : Buffer} {read : ℕ → Option UInt8} {start stop : ℕ}
    (forward : start ≤ stop) (within : stop ≤ count)
    (reads : ∀ i, start ≤ i → i < stop → places.ReadAt packed read i) {decoded : Buffer}
    (before : places.Unpacked packed start decoded) :
    ∃ decoded', unpackFields read start stop decoded = some decoded' ∧
      places.Unpacked packed stop decoded' := by
  have step : ∀ k decoded, k < stop - start → places.Unpacked packed (start + k) decoded →
      ∃ after, (read (start + k)).bind (fun v => decoded.store (start + k) 1 fun _ => v) =
        some after ∧ places.Unpacked packed (start + (k + 1)) after := by
    intro k decoded inside unpacked
    obtain ⟨v, assembled, bits⟩ := reads (start + k) (by omega) (by omega)
    obtain ⟨after, stored, next⟩ := @Unpacked.store _ _ _ _ _ _ _ 1 unpacked (by omega)
      (fun _ => v) fun t below => by rwa [Nat.lt_one_iff.1 below]
    exact ⟨after, by rw [assembled, Option.bind_some, stored], next⟩
  obtain ⟨decoded', run, holds⟩ := forRange_spec
    (fun k decoded => places.Unpacked packed (start + k) decoded) before step
  rw [show start + (stop - start) = stop by omega] at holds
  exact ⟨decoded', run, holds⟩

/-- From codes unpacked below `start`, the loop unpacks the rest. -/
theorem Read.unpackFields {packed : Buffer} {read : ℕ → Option UInt8}
    (reads : places.Read packed read) {start : ℕ} (below : start ≤ count) {decoded : Buffer}
    (before : places.Unpacked packed start decoded) :
    ∃ decoded', unpackFields read start count decoded = some decoded' ∧
      places.Unpacked packed count decoded' :=
  unpackFields_spec below (Nat.le_refl count) (fun i _ inside => reads i inside) before

/-- Codes that fit the width pack into zeroed memory, and stay inside the layout's bytes. -/
theorem Filled.pack {ops : ℕ → UInt8 → List (ℕ × UInt8)} (filled : places.Filled ops)
    {decoded : ℕ → UInt8} (fits : ∀ i, i < count → (decoded i).toNat < 2 ^ width) {bytes : ℕ}
    (room : size ≤ bytes) :
    ∃ packed, packFields (2 ^ width - 1) decoded ops count (.zeros bytes) = .ok packed ∧
      packed.size = bytes ∧ (∀ m, 8 * size ≤ m → packed.bit m = false) ∧
      ∀ i b, i < count → b < width →
        packed.bit (places.place i b) = (decoded i).toNat.testBit b := by
  obtain ⟨packed, run, same, bits⟩ := @packFields_ok (2 ^ width - 1) decoded ops count
    (.zeros bytes) (fun i below => Nat.le_pred_of_lt (fits i below)) fun i below op mem =>
      Nat.lt_of_lt_of_le (filled.inside below (fits i below) op mem) room
  have set : ∀ m, packed.bit m = true ↔
      ∃ i, i < count ∧ ∃ b, b < width ∧ places.place i b = m ∧ (decoded i).toNat.testBit b = true := by
    intro m
    rw [bits]
    constructor
    · intro held
      rcases held with zero | ⟨i, below, op⟩
      · simp [Buffer.bit, Buffer.zeros] at zero
      · exact ⟨i, below, (filled.bits below (fits i below) m).1 op⟩
    · rintro ⟨i, below, field⟩
      exact .inr ⟨i, below, (filled.bits below (fits i below) m).2 field⟩
  refine ⟨packed, run, same, fun m beyond => ?_, fun i b below inWidth => ?_⟩
  · by_contra held
    obtain ⟨i, below, b, inWidth, placed, -⟩ := (set m).1 (by simpa using held)
    have := places.inside below inWidth
    omega
  · rw [Bool.eq_iff_iff, set]
    constructor
    · rintro ⟨i', below', b', inWidth', placed, held⟩
      obtain ⟨rfl, rfl⟩ := places.apart below' inWidth' below inWidth placed
      exact held
    · intro held
      exact ⟨i, below, b, inWidth, rfl, held⟩

/-- Unpacking gives the codes back. -/
theorem round_trip {packed out : Buffer} {decoded : ℕ → UInt8}
    (fits : ∀ i, i < count → (decoded i).toNat < 2 ^ width)
    (held : ∀ i b, i < count → b < width →
      packed.bit (places.place i b) = (decoded i).toNat.testBit b)
    (unpacked : places.Unpacked packed count out) {i : ℕ} (below : i < count) :
    out.byte i = decoded i := by
  apply byte_ext
  intro j bit
  rw [unpacked.2 i below j bit]
  by_cases inWidth : j < width
  · rw [decide_eq_true inWidth, Bool.true_and, held i j below inWidth]
  · rw [decide_eq_false inWidth, Bool.false_and, testBit_of_le (fits i below) (by omega)]

end Places

end VecFetch.Theory
