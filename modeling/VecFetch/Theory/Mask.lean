/-
# Theory.Mask -- 32-bit masks and loops over their set bits

`while (m) { lane = ctz(m); ...; m &= m - 1; }` runs its body for the set bits of a
mask from the lowest up (`foldMask_eq`).  A mask built bit by bit, or register by
register (`chunkMask`), has the bits its tests have.
-/
import Mathlib.Data.Nat.Bitwise
import Mathlib.Algebra.Ring.Nat
import Mathlib.Data.List.Basic

namespace VecFetch.Theory

set_option autoImplicit false

/-- What holds below the next number holds below this one, or at it. -/
theorem below_succ_and (p : ℕ → Prop) (n d : ℕ) :
    d < n + 1 ∧ p d ↔ d < n ∧ p d ∨ d = n ∧ p n := by
  constructor
  · rintro ⟨below, holds⟩
    rcases Nat.lt_succ_iff_lt_or_eq.1 below with before | rfl
    · exact .inl ⟨before, holds⟩
    · exact .inr ⟨rfl, holds⟩
  · rintro (⟨before, holds⟩ | ⟨rfl, holds⟩)
    · exact ⟨Nat.lt_succ_of_lt before, holds⟩
    · exact ⟨Nat.lt_succ_self d, holds⟩

/-! ## The lowest set bit -/

/-- The number of trailing zeros of a nonzero number. -/
def ctz (m : ℕ) : ℕ :=
  if m = 0 then 0
  else if m % 2 = 1 then 0
  else ctz (m / 2) + 1
termination_by m
decreasing_by omega

/-- `m & (m - 1)`: the lowest set bit cleared. -/
def clearLowest (m : ℕ) : ℕ := m &&& (m - 1)

theorem clearLowest_lt {m : ℕ} (nonzero : m ≠ 0) : clearLowest m < m := by
  have : clearLowest m ≤ m - 1 := Nat.and_le_right
  omega

theorem ctz_odd {m : ℕ} (odd : m % 2 = 1) : ctz m = 0 := by
  rw [ctz, if_neg (by omega), if_pos odd]

theorem ctz_even {m : ℕ} (nonzero : m ≠ 0) (even : m % 2 = 0) : ctz m = ctz (m / 2) + 1 := by
  rw [ctz, if_neg nonzero, if_neg (by omega)]

theorem ctz_two_pow (n : ℕ) : ctz (2 ^ n) = n := by
  induction n with
  | zero => exact ctz_odd rfl
  | succ n ih =>
      have positive := Nat.two_pow_pos n
      rw [Nat.pow_succ, ctz_even (by omega) (by omega), Nat.mul_div_cancel _ (by decide), ih]

/-- A bit above does not move the lowest one. -/
theorem ctz_add_two_pow {m n : ℕ} (nonzero : m ≠ 0) (below : m < 2 ^ n) :
    ctz (2 ^ n + m) = ctz m := by
  induction n generalizing m with
  | zero => omega
  | succ n ih =>
      rw [Nat.pow_succ] at below ⊢
      by_cases odd : m % 2 = 1
      · rw [ctz_odd odd, ctz_odd (by omega)]
      · have half : (2 ^ n * 2 + m) / 2 = 2 ^ n + m / 2 := by omega
        rw [ctz_even (by omega) (by omega), half, ih (by omega) (by omega),
          ← ctz_even nonzero (by omega)]

theorem clearLowest_two_pow (n : ℕ) : clearLowest (2 ^ n) = 0 := by
  apply Nat.eq_of_testBit_eq
  intro j
  rw [clearLowest, Nat.testBit_and, Nat.testBit_two_pow, Nat.testBit_two_pow_sub_one,
    Nat.zero_testBit]
  by_cases same : n = j
  · simp [same]
  · simp [same]

theorem clearLowest_add_two_pow {m n : ℕ} (nonzero : m ≠ 0) (below : m < 2 ^ n) :
    clearLowest (2 ^ n + m) = 2 ^ n + clearLowest m := by
  have cleared : clearLowest m < 2 ^ n := Nat.lt_trans (clearLowest_lt nonzero) below
  have bits : ∀ x j, x < 2 ^ n →
      (2 ^ n + x).testBit j = if j < n then x.testBit j else (1 : ℕ).testBit (j - n) := by
    intro x j fits
    have := Nat.testBit_two_pow_mul_add 1 fits j
    rwa [Nat.mul_one] at this
  apply Nat.eq_of_testBit_eq
  intro j
  rw [bits _ j cleared, clearLowest, clearLowest, Nat.testBit_and, bits m j below,
    Nat.add_sub_assoc (by omega), bits (m - 1) j (by omega), Nat.testBit_and]
  split
  · rfl
  · exact Bool.and_self _

/-! ## Loops over set bits -/

/-- The set bits below `n`, from the lowest up. -/
def setBits (n m : ℕ) : List ℕ := (List.range n).filter m.testBit

theorem mem_setBits {n m j : ℕ} : j ∈ setBits n m ↔ j < n ∧ m.testBit j = true := by
  rw [setBits, List.mem_filter, List.mem_range]

theorem setBits_nodup (n m : ℕ) : (setBits n m).Nodup := List.nodup_range.filter _

theorem setBits_succ (n m : ℕ) :
    setBits (n + 1) m = setBits n m ++ if m.testBit n then [n] else [] := by
  rw [setBits, List.range_succ, List.filter_append, List.filter_singleton, setBits]
  cases m.testBit n <;> rfl

/-- Bits from `n` on do not matter below `n`. -/
theorem setBits_congr {n m m' : ℕ} (same : ∀ j, j < n → m.testBit j = m'.testBit j) :
    setBits n m = setBits n m' := by
  apply List.filter_congr
  intro j mem
  exact same j (List.mem_range.1 mem)

section Loop

variable {σ : Type}

/-- Run a body for each set bit of a mask, from the lowest up. -/
def foldMask (body : σ → ℕ → σ) (m : ℕ) (s : σ) : σ :=
  if m = 0 then s else foldMask body (clearLowest m) (body s (ctz m))
termination_by m
decreasing_by exact clearLowest_lt ‹_›

@[simp] theorem foldMask_zero (body : σ → ℕ → σ) (s : σ) : foldMask body 0 s = s := by
  rw [foldMask, if_pos rfl]

/-- The highest bit comes last. -/
theorem foldMask_add_two_pow (body : σ → ℕ → σ) {m n : ℕ} (below : m < 2 ^ n) (s : σ) :
    foldMask body (2 ^ n + m) s = body (foldMask body m s) n := by
  induction m using Nat.strong_induction_on generalizing s with
  | h m ih =>
      have positive := Nat.two_pow_pos n
      by_cases zero : m = 0
      · subst zero
        rw [foldMask, if_neg (by omega), Nat.add_zero, ctz_two_pow, clearLowest_two_pow,
          foldMask_zero, foldMask_zero]
      · have smaller := clearLowest_lt zero
        rw [foldMask, if_neg (by omega), ctz_add_two_pow zero below,
          clearLowest_add_two_pow zero below, ih _ smaller (by omega)]
        conv => rhs; rw [foldMask, if_neg zero]

/-- **The mask loop** runs its body at the set bits below any bound of the mask. -/
theorem foldMask_eq (body : σ → ℕ → σ) {m n : ℕ} (below : m < 2 ^ n) (s : σ) :
    foldMask body m s = (setBits n m).foldl body s := by
  induction n generalizing m with
  | zero =>
      have zero : m = 0 := by omega
      rw [zero, foldMask_zero]
      rfl
  | succ n ih =>
      rw [Nat.pow_succ] at below
      rw [setBits_succ, List.foldl_append]
      by_cases high : 2 ^ n ≤ m
      · have low : m - 2 ^ n < 2 ^ n := by omega
        have split : m = 2 ^ n + (m - 2 ^ n) := by omega
        have bits : ∀ j, m.testBit j =
            if j < n then (m - 2 ^ n).testBit j else (1 : ℕ).testBit (j - n) := by
          intro j
          have := Nat.testBit_two_pow_mul_add 1 low j
          rwa [Nat.mul_one, ← split] at this
        have top : m.testBit n = true := by
          rw [bits, if_neg (by omega), Nat.sub_self]
          rfl
        have rest : setBits n m = setBits n (m - 2 ^ n) := by
          apply setBits_congr
          intro j inside
          rw [bits, if_pos inside]
        rw [top, rest, ← ih low]
        conv => lhs; rw [split]
        rw [foldMask_add_two_pow body low]
        rfl
      · have bit : m.testBit n = false := Nat.testBit_lt_two_pow (by omega)
        rw [bit, ← ih (by omega)]
        rfl

end Loop

/-! ## Bits of 32-bit masks -/

/-- Bit `j` of a mask. -/
def hasLane (m : UInt32) (j : ℕ) : Bool := m.toNat.testBit j

theorem hasLane_high (m : UInt32) {j : ℕ} (high : 32 ≤ j) : hasLane m j = false :=
  Nat.testBit_lt_two_pow (lt_of_lt_of_le m.toNat_lt (Nat.pow_le_pow_right (by decide) high))

@[simp] theorem hasLane_or (a b : UInt32) (j : ℕ) : hasLane (a ||| b) j = (hasLane a j || hasLane b j) := by
  rw [hasLane, UInt32.toNat_or, Nat.testBit_or, hasLane, hasLane]

@[simp] theorem hasLane_and (a b : UInt32) (j : ℕ) : hasLane (a &&& b) j = (hasLane a j && hasLane b j) := by
  rw [hasLane, UInt32.toNat_and, Nat.testBit_and, hasLane, hasLane]

@[simp] theorem hasLane_zero (j : ℕ) : hasLane 0 j = false := by simp [hasLane]

theorem hasLane_not (a : UInt32) {j : ℕ} (below : j < 32) : hasLane (~~~a) j = !hasLane a j := by
  rw [hasLane, UInt32.toNat_not, hasLane]
  have bits := Nat.testBit_two_pow_sub_succ a.toNat_lt j
  rw [show UInt32.size - 1 - a.toNat = 2 ^ 32 - (a.toNat + 1) by
    have := a.toNat_lt
    simp only [UInt32.size]
    omega, bits]
  simp [below]

/-- `1u << j`. -/
def bitAt (j : ℕ) : UInt32 := 1 <<< UInt32.ofNat j

theorem bitAt_toNat {i : ℕ} (below : i < 32) : (bitAt i).toNat = 2 ^ i := by
  have small : 2 ^ i < 2 ^ 32 := Nat.pow_lt_pow_right (by decide) below
  rw [bitAt, UInt32.toNat_shiftLeft, UInt32.toNat_ofNat', UInt32.toNat_one, Nat.shiftLeft_eq,
    Nat.mod_eq_of_lt (show i < 2 ^ 32 by omega), Nat.mod_eq_of_lt below]
  omega

theorem hasLane_bitAt {i : ℕ} (below : i < 32) (j : ℕ) :
    hasLane (bitAt i) j = decide (i = j) := by
  rw [hasLane, bitAt_toNat below, Nat.testBit_two_pow]

/-- `__builtin_popcount`. -/
def popcount (m : UInt32) : ℕ := (setBits 32 m.toNat).length

/-- `(1u << n) - 1u`. -/
def lowMask (n : ℕ) : UInt32 := bitAt n - 1

theorem hasLane_lowMask {n : ℕ} (below : n < 32) (j : ℕ) :
    hasLane (lowMask n) j = decide (j < n) := by
  have positive := Nat.two_pow_pos n
  have value : (lowMask n).toNat = 2 ^ n - 1 := by
    have small := (bitAt n).toNat_lt
    have power := bitAt_toNat below
    rw [lowMask, UInt32.toNat_sub, power, UInt32.toNat_one]
    omega
  rw [hasLane, value, Nat.testBit_two_pow_sub_one]

theorem hasLane_shiftLeft (m : UInt32) {base : ℕ} (below : base < 32) {j : ℕ} (inside : j < 32) :
    hasLane (m <<< UInt32.ofNat base) j = (decide (base ≤ j) && hasLane m (j - base)) := by
  have shift : (UInt32.ofNat base).toNat % 32 = base := by
    rw [UInt32.toNat_ofNat', Nat.mod_eq_of_lt (show base < 2 ^ 32 by omega), Nat.mod_eq_of_lt below]
  rw [hasLane, UInt32.toNat_shiftLeft, shift, Nat.testBit_mod_two_pow, Nat.testBit_shiftLeft,
    decide_eq_true inside, Bool.true_and, hasLane]

/-! ## Masks split in two -/

/-- The set bits of a mask that is two masks without a common bit. -/
theorem setBits_split {n m a b : ℕ}
    (both : ∀ j, j < n → m.testBit j = (a.testBit j || b.testBit j))
    (apart : ∀ j, j < n → a.testBit j = true → b.testBit j = false) :
    (setBits n m).Perm (setBits n a ++ setBits n b) := by
  have first : (setBits n m).filter a.testBit = setBits n a := by
    rw [setBits, List.filter_filter, setBits]
    apply List.filter_congr
    intro j mem
    rw [both j (List.mem_range.1 mem)]
    cases a.testBit j <;> rfl
  have second : (setBits n m).filter (fun j => !a.testBit j) = setBits n b := by
    rw [setBits, List.filter_filter, setBits]
    apply List.filter_congr
    intro j mem
    have below := List.mem_range.1 mem
    rw [both j below]
    cases one : a.testBit j with
    | false => simp
    | true => simp [apart j below one]
  have parts := List.filter_append_perm a.testBit (setBits n m)
  rw [first, second] at parts
  exact parts.symm

theorem popcount_split {m a b : UInt32}
    (both : ∀ j, j < 32 → hasLane m j = (hasLane a j || hasLane b j))
    (apart : ∀ j, j < 32 → hasLane a j = true → hasLane b j = false) :
    popcount m = popcount a + popcount b := by
  have parts := (setBits_split both apart).length_eq
  rwa [List.length_append] at parts

/-- A mask without bits from `n` on has its set bits below `n`. -/
theorem popcount_below {m : UInt32} {n : ℕ} (fits : n ≤ 32)
    (below : ∀ j, hasLane m j = true → j < n) : popcount m = (setBits n m.toNat).length := by
  obtain ⟨rest, whole⟩ := Nat.exists_eq_add_of_le fits
  have above : (setBits 32 m.toNat) = setBits n m.toNat := by
    rw [setBits, whole, List.range_add, List.filter_append]
    have none : (List.map (fun x => n + x) (List.range rest)).filter m.toNat.testBit = [] := by
      apply List.filter_eq_nil_iff.2
      intro j mem set
      obtain ⟨i, _, rfl⟩ := List.mem_map.1 mem
      have := below _ set
      omega
    rw [none, List.append_nil, setBits]
  rw [popcount, above]

/-! ## Masks built from tests -/

/-- `for (v = 0; v < count; ++v) if (test) result |= 1u << v;` -/
def scalarMask (count : ℕ) (test : ℕ → Bool) : UInt32 :=
  (List.range count).foldl (fun result v => if test v then result ||| bitAt v else result) 0

theorem hasLane_scalarMask {count : ℕ} (fits : count ≤ 32) (test : ℕ → Bool) (j : ℕ) :
    hasLane (scalarMask count test) j = (decide (j < count) && test j) := by
  unfold scalarMask
  induction count with
  | zero => simp
  | succ count ih =>
      rw [List.range_succ, List.foldl_append]
      simp only [List.foldl_cons, List.foldl_nil]
      have below := ih (by omega)
      by_cases chosen : test count = true
      · rw [if_pos chosen, hasLane_or, below, hasLane_bitAt (by omega)]
        by_cases here : count = j
        · subst here
          simp [chosen]
        · have same : (j < count + 1) ↔ j < count := by omega
          simp [here, same]
      · rw [if_neg chosen, below]
        by_cases here : count = j
        · subst here
          simp [chosen]
        · have same : (j < count + 1) ↔ j < count := by omega
          simp [same]

/-- A register of a mask: `width` tests at once, those of the lanes past `count` cleared,
moved to the register's place. -/
def maskRegister (width count : ℕ) (test : ℕ → Bool) (c : ℕ) : UInt32 :=
  let base := width * c
  let valid := min width (count - base)
  let mask := scalarMask width fun i => test (base + i)
  let mask := if valid < width then mask &&& lowMask valid else mask
  mask <<< UInt32.ofNat base

theorem hasLane_maskRegister {width count c j : ℕ} (place : width * c + width ≤ 32)
    (positive : 0 < width) (test : ℕ → Bool) (inside : j < 32) :
    hasLane (maskRegister width count test c) j =
      (decide (width * c ≤ j ∧ j < width * c + width) && (decide (j < count) && test j)) := by
  have mask : hasLane (if min width (count - width * c) < width
      then (scalarMask width fun i => test (width * c + i)) &&&
        lowMask (min width (count - width * c))
      else scalarMask width fun i => test (width * c + i)) (j - width * c) =
        (decide (j - width * c < width) && (decide (j - width * c < count - width * c) &&
          test (width * c + (j - width * c)))) := by
    rw [Bool.eq_iff_iff]
    simp only [Bool.and_eq_true, decide_eq_true_eq]
    split
    · rename_i short
      rw [hasLane_and, hasLane_scalarMask (by omega), hasLane_lowMask (by omega)]
      simp only [Bool.and_eq_true, decide_eq_true_eq]
      constructor
      · intro ⟨⟨within, holds⟩, valid⟩
        exact ⟨within, by omega, holds⟩
      · intro ⟨within, valid, holds⟩
        exact ⟨⟨within, holds⟩, by omega⟩
    · rename_i full
      rw [hasLane_scalarMask (by omega)]
      simp only [Bool.and_eq_true, decide_eq_true_eq]
      constructor
      · intro ⟨within, holds⟩
        exact ⟨within, by omega, holds⟩
      · intro ⟨within, _, holds⟩
        exact ⟨within, holds⟩
  rw [maskRegister, hasLane_shiftLeft _ (by omega) inside, mask, Bool.eq_iff_iff]
  simp only [Bool.and_eq_true, decide_eq_true_eq]
  constructor
  · intro ⟨after, within, valid, holds⟩
    rw [show width * c + (j - width * c) = j by omega] at holds
    exact ⟨⟨after, by omega⟩, by omega, holds⟩
  · intro ⟨⟨after, within⟩, valid, holds⟩
    rw [show width * c + (j - width * c) = j by omega]
    exact ⟨after, by omega, by omega, holds⟩

/-- A mask filled register by register. -/
def chunkMask (width count : ℕ) (test : ℕ → Bool) : UInt32 :=
  (List.range ((count + width - 1) / width)).foldl
    (fun result c => result ||| maskRegister width count test c) 0

/-- **Register by register** or lane by lane, the mask is the same. -/
theorem hasLane_chunkMask {width count : ℕ} (positive : 0 < width) (whole : width ∣ 32)
    (fits : count ≤ 32) (test : ℕ → Bool) (j : ℕ) :
    hasLane (chunkMask width count test) j = (decide (j < count) && test j) := by
  by_cases high : 32 ≤ j
  · have out : ¬ j < count := by omega
    rw [hasLane_high _ high]
    simp [out]
  · have inside : j < 32 := by omega
    obtain ⟨registers, split⟩ := whole
    have filled : ∀ n, n ≤ registers → hasLane ((List.range n).foldl
        (fun result c => result ||| maskRegister width count test c) 0) j =
          (decide (j < width * n) && (decide (j < count) && test j)) := by
      intro n
      induction n with
      | zero => simp
      | succ n ih =>
          intro below
          have place : width * n + width ≤ 32 := by
            have step := Nat.mul_le_mul_left width below
            rw [← split, Nat.mul_succ] at step
            exact step
          rw [List.range_succ, List.foldl_append]
          simp only [List.foldl_cons, List.foldl_nil]
          rw [hasLane_or, ih (by omega), hasLane_maskRegister place positive test inside,
            Nat.mul_succ]
          cases decide (j < count) && test j with
          | false => simp
          | true =>
              rw [Bool.eq_iff_iff]
              simp only [Bool.and_true, Bool.or_eq_true, decide_eq_true_eq]
              omega
    have rounds : (count + width - 1) / width ≤ registers := by
      have top : count + width - 1 < width * (registers + 1) := by
        rw [Nat.mul_succ, ← split]
        omega
      exact Nat.lt_succ_iff.1 (Nat.div_lt_of_lt_mul top)
    have covered : count ≤ width * ((count + width - 1) / width) := by
      have parts := Nat.div_add_mod (count + width - 1) width
      have rest := Nat.mod_lt (count + width - 1) positive
      omega
    rw [chunkMask, filled _ rounds]
    by_cases valid : j < count
    · have within : j < width * ((count + width - 1) / width) := by omega
      simp [within]
    · simp [valid]

end VecFetch.Theory
