/-
# Theory.LatticeWalk -- the best cosine on a walk of codes

A code gives each coordinate of a vector of sizes a whole number, and stands for the vector of
these numbers and a half each.  A walk from one code to another raises a coordinate at a time, in
the order of the scales at which the multiples of the sizes get there.

Of all codes between the two, those with the best cosine are passed by every such walk, however
it orders the raises of one scale (`isSharp_of_best`, `IsSharp.eq_raise`).
-/
import Mathlib.Algebra.BigOperators.Field
import Mathlib.Algebra.Order.BigOperators.Ring.Finset
import Mathlib.Data.Int.Interval
import Mathlib.Data.Pi.Interval
import Mathlib.Tactic.FieldSimp
import Mathlib.Tactic.Linarith
import Mathlib.Tactic.Ring

namespace VecFetch.Theory

open Finset

set_option autoImplicit false

variable {ι : Type}

/-! ## Codes -/

section Raise

variable [DecidableEq ι]

/-- A coordinate raised by one. -/
def raise (code : ι → ℤ) (i : ι) : ι → ℤ := Function.update code i (code i + 1)

@[simp] theorem raise_self (code : ι → ℤ) (i : ι) : raise code i i = code i + 1 :=
  Function.update_self ..

theorem raise_of_ne (code : ι → ℤ) {i j : ι} (other : j ≠ i) : raise code i j = code j :=
  Function.update_of_ne other ..

theorem le_raise (code : ι → ℤ) (i : ι) : code ≤ raise code i := by
  intro k
  by_cases same : k = i
  · subst same
    rw [raise_self]
    exact Int.le_add_one le_rfl
  · exact (raise_of_ne code same).ge

/-- A coordinate lowered by one. -/
def lower (code : ι → ℤ) (i : ι) : ι → ℤ := Function.update code i (code i - 1)

theorem raise_lower (code : ι → ℤ) (i : ι) : raise (lower code i) i = code := by
  rw [raise, lower, Function.update_self, Function.update_idem, sub_add_cancel,
    Function.update_eq_self]

theorem raise_mem {first last code : ι → ℤ} {i : ι} (low : first ≤ code) (high : code ≤ last)
    (waits : code i < last i) : first ≤ raise code i ∧ raise code i ≤ last := by
  refine ⟨low.trans (le_raise code i), fun k => ?_⟩
  by_cases same : k = i
  · subst same
    rw [raise_self]
    exact waits
  · rw [raise_of_ne code same]
    exact high k

theorem lower_mem {first last code : ι → ℤ} {i : ι} (low : first ≤ code) (high : code ≤ last)
    (done : first i < code i) : first ≤ lower code i ∧ lower code i ≤ last := by
  constructor <;> intro k <;> by_cases same : k = i
  · subst same
    rw [lower, Function.update_self]
    exact Int.le_sub_one_of_lt done
  · rw [lower, Function.update_of_ne same]
    exact low k
  · subst same
    rw [lower, Function.update_self]
    exact (Int.sub_le_self _ zero_le_one).trans (high k)
  · rw [lower, Function.update_of_ne same]
    exact high k

end Raise

section Cosine

variable {K : Type} [Field K] [Fintype ι]

variable (K) in
/-- What a code's number stands for: the number and a half. -/
def codeMid (c : ℤ) : K := (c : K) + (1 + 1)⁻¹

/-- The inner product of a code's vector with the sizes. -/
def codeDot (sizes : ι → K) (code : ι → ℤ) : K := ∑ i, codeMid K (code i) * sizes i

variable (K) in
/-- The squared length of a code's vector. -/
def codeNormSq (code : ι → ℤ) : K := ∑ i, codeMid K (code i) ^ 2

/-- The squared cosine, but for the length of the sizes. -/
def codeScore (sizes : ι → K) (code : ι → ℤ) : K := codeDot sizes code ^ 2 / codeNormSq K code

omit [Fintype ι] in
variable (K) in
@[simp] theorem codeMid_eq (c : ℤ) : codeMid K c = (c : K) + 1 / 2 := by
  rw [codeMid, one_add_one_eq_two, one_div]

theorem codeDot_eq (sizes : ι → K) (code : ι → ℤ) :
    codeDot sizes code = ∑ i, ((code i : K) + 1 / 2) * sizes i := by
  simp only [codeDot, codeMid_eq]

variable (K) in
theorem codeNormSq_eq (code : ι → ℤ) : codeNormSq K code = ∑ i, ((code i : K) + 1 / 2) ^ 2 := by
  simp only [codeNormSq, codeMid_eq]

section Positive

variable [LinearOrder K] [IsStrictOrderedRing K] {sizes : ι → K} {code : ι → ℤ}

theorem codeDot_pos (nonneg : ∀ i, 0 ≤ sizes i) (positive : ∃ i, 0 < sizes i)
    (codes : ∀ i, 0 ≤ code i) : 0 < codeDot sizes code := by
  have half : ∀ i, (0 : K) < (code i : K) + 1 / 2 := fun i => by
    have := Int.cast_nonneg (R := K) (codes i)
    linarith
  obtain ⟨i, size⟩ := positive
  rw [codeDot_eq]
  exact sum_pos' (fun j _ => mul_nonneg (half j).le (nonneg j)) ⟨i, mem_univ i, mul_pos (half i) size⟩

theorem codeNormSq_pos [Nonempty ι] (codes : ∀ i, 0 ≤ code i) : 0 < codeNormSq K code := by
  rw [codeNormSq_eq]
  refine sum_pos (fun i _ => pow_pos ?_ 2) univ_nonempty
  have := Int.cast_nonneg (R := K) (codes i)
  linarith

end Positive

variable [DecidableEq ι]

/-- A sum over the coordinates, after one is raised. -/
theorem sum_raise (term : ι → ℤ → K) (code : ι → ℤ) (i : ι) :
    ∑ j, term j (raise code i j) =
      (∑ j, term j (code j)) + (term i (code i + 1) - term i (code i)) := by
  have rest : ∑ j ∈ univ.erase i, term j (raise code i j) = ∑ j ∈ univ.erase i, term j (code j) :=
    sum_congr rfl fun j mem => by rw [raise_of_ne code (ne_of_mem_erase mem)]
  rw [← add_sum_erase univ (fun j => term j (raise code i j)) (mem_univ i), rest,
    ← add_sum_erase univ (fun j => term j (code j)) (mem_univ i), raise_self]
  ring

theorem codeDot_raise (sizes : ι → K) (code : ι → ℤ) (i : ι) :
    codeDot sizes (raise code i) = codeDot sizes code + sizes i := by
  rw [codeDot_eq, sum_raise (fun j c => ((c : K) + 1 / 2) * sizes j), codeDot_eq]
  push_cast
  ring

variable [LinearOrder K] [IsStrictOrderedRing K] in
theorem codeNormSq_raise (code : ι → ℤ) (i : ι) :
    codeNormSq K (raise code i) = codeNormSq K code + 2 * ((code i : K) + 1) := by
  rw [codeNormSq_eq, sum_raise (fun _ c => ((c : K) + 1 / 2) ^ 2), codeNormSq_eq]
  push_cast
  ring

theorem codeDot_lower (sizes : ι → K) (code : ι → ℤ) (i : ι) :
    codeDot sizes (lower code i) = codeDot sizes code - sizes i := by
  have raised := codeDot_raise sizes (lower code i) i
  rw [raise_lower] at raised
  exact eq_sub_of_add_eq raised.symm

variable [LinearOrder K] [IsStrictOrderedRing K] in
theorem codeNormSq_lower (code : ι → ℤ) (i : ι) :
    codeNormSq K (lower code i) = codeNormSq K code - 2 * code i := by
  have raised := codeNormSq_raise (K := K) (lower code i) i
  rw [raise_lower, lower, Function.update_self, ← lower, Int.cast_sub, Int.cast_one,
    sub_add_cancel] at raised
  exact eq_sub_of_add_eq raised.symm

end Cosine

/-! ## Codes in order of their scales -/

section Order

variable {K : Type} [Field K] [LinearOrder K]

/-- No coordinate is raised past the scale at which another still waits. -/
structure InOrder (sizes : ι → K) (first last code : ι → ℤ) : Prop where
  low : first ≤ code
  high : code ≤ last
  ordered : ∀ i j, first i < code i → code j < last j →
    (code i : K) / sizes i ≤ ((code j : K) + 1) / sizes j

/-- All coordinates of one scale are raised, or none. -/
structure IsSharp (sizes : ι → K) (first last code : ι → ℤ) : Prop where
  low : first ≤ code
  high : code ≤ last
  ordered : ∀ i j, first i < code i → code j < last j →
    (code i : K) / sizes i < ((code j : K) + 1) / sizes j

/-- The code a walk has just reached, at scale `t`. -/
structure ReachedAt (sizes : ι → K) (first last code : ι → ℤ) (t : K) : Prop where
  low : first ≤ code
  high : code ≤ last
  raised : ∃ i, first i < code i ∧ (code i : K) / sizes i = t
  before : ∀ i, first i < code i → (code i : K) / sizes i ≤ t
  after : ∀ j, code j < last j → t ≤ ((code j : K) + 1) / sizes j

variable {sizes : ι → K} {first last code d : ι → ℤ} {t : K}

theorem ReachedAt.inOrder (reached : ReachedAt sizes first last code t) :
    InOrder sizes first last code :=
  ⟨reached.low, reached.high, fun i j done waits =>
    (reached.before i done).trans (reached.after j waits)⟩

variable [IsStrictOrderedRing K]

variable [DecidableEq ι]

/-- A walk raises the coordinate whose scale is least. -/
theorem InOrder.raise (order : InOrder sizes first last code) {i : ι} (size : 0 ≤ sizes i)
    (waits : code i < last i)
    (least : ∀ j, code j < last j → ((code i : K) + 1) / sizes i ≤ ((code j : K) + 1) / sizes j) :
    ReachedAt sizes first last (raise code i) (((code i : K) + 1) / sizes i) := by
  obtain ⟨low, high⟩ := raise_mem order.low order.high waits
  refine ⟨low, high, ⟨i, ?_, ?_⟩, fun j done => ?_, fun j left => ?_⟩
  · rw [raise_self]
    exact Int.lt_add_one_of_le (order.low i)
  · rw [raise_self, Int.cast_add, Int.cast_one]
  · by_cases same : j = i
    · subst same
      rw [raise_self, Int.cast_add, Int.cast_one]
    · rw [raise_of_ne code same] at done ⊢
      exact order.ordered j i done waits
  · by_cases same : j = i
    · subst same
      rw [raise_self, Int.cast_add, Int.cast_one]
      exact div_le_div_of_nonneg_right (by linarith) size
    · rw [raise_of_ne code same] at left ⊢
      exact least j left

/-- **A sharp code is passed**: it comes at the latest with the raise that leaves it behind. -/
theorem IsSharp.eq_raise (nonneg : ∀ i, 0 ≤ sizes i) (sharp : IsSharp sizes first last d)
    (order : InOrder sizes first last code) {i : ι} (waits : code i < last i)
    (below : d ≤ Theory.raise code i) (past : ¬ d ≤ code) : d = Theory.raise code i := by
  have here : d i = code i + 1 := by
    have upper := below i
    rw [raise_self] at upper
    refine le_antisymm upper (not_lt.1 fun less => past fun j => ?_)
    by_cases same : j = i
    · subst same
      exact Int.lt_add_one_iff.1 less
    · have here := below j
      rwa [raise_of_ne code same] at here
  refine le_antisymm below fun j => ?_
  by_cases same : j = i
  · subst same
    rw [raise_self, here]
  rw [raise_of_ne code same]
  -- a coordinate still to be raised would come after the one just raised
  by_contra less
  rw [not_le] at less
  have raised : first i < d i := by
    rw [here]
    exact Int.lt_add_one_of_le (order.low i)
  have later := sharp.ordered i j raised (less.trans_le (order.high j))
  have earlier := order.ordered j i ((sharp.low j).trans_lt less) waits
  rw [here, Int.cast_add, Int.cast_one] at later
  have next : (d j : K) + 1 ≤ code j := by exact_mod_cast less
  exact absurd (later.trans_le (div_le_div_of_nonneg_right next (nonneg j))) (not_lt.2 earlier)

end Order

/-! ## The best code -/

section Best

variable {K : Type} [Field K] [LinearOrder K] [Fintype ι] [DecidableEq ι] {first last : ι → ℤ}

theorem exists_best (sizes : ι → K) (order : first ≤ last) :
    ∃ code, first ≤ code ∧ code ≤ last ∧
      ∀ d, first ≤ d → d ≤ last → codeScore sizes d ≤ codeScore sizes code := by
  obtain ⟨code, mem, best⟩ := exists_max_image (Icc first last) (codeScore sizes)
    ⟨first, mem_Icc.2 ⟨le_rfl, order⟩⟩
  obtain ⟨low, high⟩ := mem_Icc.1 mem
  exact ⟨code, low, high, fun d low' high' => best d (mem_Icc.2 ⟨low', high'⟩)⟩

variable [IsStrictOrderedRing K]

/-- Raising a coordinate does not help: its scale is above the balance `D / N`. -/
theorem balance_of_raise {N D a k : K} (dot : 0 < N) (norm : 0 < D) (size : 0 < a)
    (norm' : 0 < D + 2 * k) (worse : (N + a) ^ 2 / (D + 2 * k) ≤ N ^ 2 / D) : D * a < k * N := by
  rw [div_le_div_iff₀ norm' norm] at worse
  have square : 0 < a ^ 2 * D := mul_pos (pow_pos size 2) norm
  have scaled : 2 * N * (D * a) < 2 * N * (k * N) := by linarith
  exact lt_of_mul_lt_mul_left scaled (by linarith)

/-- Lowering a coordinate does not help: its scale is below the balance. -/
theorem balance_of_lower {N D a k : K} (dot : 0 < N) (norm : 0 < D) (size : 0 < a)
    (norm' : 0 < D - 2 * k) (worse : (N - a) ^ 2 / (D - 2 * k) ≤ N ^ 2 / D) : k * N < D * a := by
  rw [div_le_div_iff₀ norm' norm] at worse
  have square : 0 < a ^ 2 * D := mul_pos (pow_pos size 2) norm
  have scaled : 2 * N * (k * N) < 2 * N * (D * a) := by linarith
  exact lt_of_mul_lt_mul_left scaled (by linarith)

variable {sizes : ι → K} {code : ι → ℤ}

omit [Fintype ι] [DecidableEq ι] in
theorem codes_of_le {code : ι → ℤ} (codes : ∀ i, 0 ≤ first i) (above : first ≤ code) (i : ι) :
    0 ≤ code i := (codes i).trans (above i)

omit [DecidableEq ι] in
/-- Raises of scales up to `t` add to the norm at most `2 * t` times what they add to the
product. -/
theorem codeNormSq_le_of_raised {code code' : ι → ℤ} {t : K} (le : code ≤ code')
    (within : ∀ i, code i < code' i → (code' i : K) ≤ t * sizes i) :
    codeNormSq K code' - codeNormSq K code ≤
      2 * t * (codeDot sizes code' - codeDot sizes code) := by
  rw [codeNormSq_eq, codeNormSq_eq, codeDot_eq, codeDot_eq, ← sum_sub_distrib,
    ← sum_sub_distrib, mul_sum]
  refine sum_le_sum fun i _ => ?_
  rcases (le i).eq_or_lt with same | more
  · rw [same]
    linarith
  · have scale := within i more
    have step : (code i : K) + 1 ≤ code' i := by exact_mod_cast more
    have positive : (0 : K) ≤ (code' i : K) - code i := by linarith
    have grows : (code' i : K) + code i + 1 ≤ 2 * (t * sizes i) := by linarith
    calc ((code' i : K) + 1 / 2) ^ 2 - ((code i : K) + 1 / 2) ^ 2
        = ((code' i : K) - code i) * ((code' i : K) + code i + 1) := by ring
      _ ≤ ((code' i : K) - code i) * (2 * (t * sizes i)) :=
          mul_le_mul_of_nonneg_left grows positive
      _ = 2 * t * (((code' i : K) + 1 / 2) * sizes i - ((code i : K) + 1 / 2) * sizes i) := by ring

variable (nonneg : ∀ i, 0 ≤ sizes i) (positive : ∃ i, 0 < sizes i) (codes : ∀ i, 0 ≤ first i)

include nonneg positive codes

/-- What a code of the best cosine has raised has a scale below the balance of its norm and its
product. -/
theorem scale_lt_balance (low : first ≤ code) (high : code ≤ last)
    (best : ∀ d, first ≤ d → d ≤ last → codeScore sizes d ≤ codeScore sizes code) {i : ι}
    (size : 0 < sizes i) (done : first i < code i) :
    (code i : K) / sizes i < codeNormSq K code / codeDot sizes code := by
  have := positive.nonempty
  have dot := codeDot_pos nonneg positive (codes_of_le codes low)
  have norm := codeNormSq_pos (K := K) (codes_of_le codes low)
  obtain ⟨inside, inside'⟩ := lower_mem low high done
  have worse := best _ inside inside'
  have norm' := codeNormSq_pos (K := K) (codes_of_le codes inside)
  rw [codeScore, codeScore, codeDot_lower, codeNormSq_lower] at worse
  rw [codeNormSq_lower] at norm'
  rw [div_lt_div_iff₀ size dot]
  exact balance_of_lower dot norm size norm' worse

/-- What it has not raised has a scale above the balance. -/
theorem balance_lt_scale (low : first ≤ code) (high : code ≤ last)
    (best : ∀ d, first ≤ d → d ≤ last → codeScore sizes d ≤ codeScore sizes code) {j : ι}
    (size : 0 < sizes j) (waits : code j < last j) :
    codeNormSq K code / codeDot sizes code < ((code j : K) + 1) / sizes j := by
  have := positive.nonempty
  have dot := codeDot_pos nonneg positive (codes_of_le codes low)
  have norm := codeNormSq_pos (K := K) (codes_of_le codes low)
  obtain ⟨inside, inside'⟩ := raise_mem low high waits
  have worse := best _ inside inside'
  have norm' := codeNormSq_pos (K := K) (codes_of_le codes inside)
  rw [codeScore, codeScore, codeDot_raise, codeNormSq_raise] at worse
  rw [codeNormSq_raise] at norm'
  rw [div_lt_div_iff₀ dot size]
  exact balance_of_raise dot norm size norm' worse

/-- **A code of the best cosine is sharp**: what is raised has a scale below the balance of its
norm and its product, and what is not has one above. -/
theorem isSharp_of_best (raised : ∀ i, first i < last i → 0 < sizes i) (low : first ≤ code)
    (high : code ≤ last)
    (best : ∀ d, first ≤ d → d ≤ last → codeScore sizes d ≤ codeScore sizes code) :
    IsSharp sizes first last code := by
  refine ⟨low, high, fun i j done waits => ?_⟩
  have below := scale_lt_balance nonneg positive codes low high best
    (raised i (done.trans_le (high i))) done
  have above := balance_lt_scale nonneg positive codes low high best
    (raised j ((low j).trans_lt waits)) waits
  exact below.trans above

omit [DecidableEq ι] in
/-- **More raises of scales up to `t`** do not lower the score of a code whose balance is at
least `t`. -/
theorem codeScore_le_of_raised {code' : ι → ℤ} {t : K} (low : first ≤ code) (le : code ≤ code')
    (within : ∀ i, code i < code' i → (code' i : K) ≤ t * sizes i)
    (balance : t ≤ codeNormSq K code / codeDot sizes code) :
    codeScore sizes code ≤ codeScore sizes code' := by
  have := positive.nonempty
  have dot := codeDot_pos nonneg positive (codes_of_le codes low)
  have norm := codeNormSq_pos (K := K) (codes_of_le codes low)
  have norm' := codeNormSq_pos (K := K) (codes_of_le codes (low.trans le))
  have grows := codeNormSq_le_of_raised le within
  have more : codeDot sizes code ≤ codeDot sizes code' := by
    rw [codeDot_eq, codeDot_eq]
    refine sum_le_sum fun i _ => mul_le_mul_of_nonneg_right ?_ (nonneg i)
    have : (code i : K) ≤ code' i := Int.cast_le.2 (le i)
    linarith
  rw [le_div_iff₀ dot] at balance
  rw [codeScore, codeScore, div_le_div_iff₀ norm norm']
  generalize codeDot sizes code = N at *
  generalize codeDot sizes code' = N' at *
  generalize codeNormSq K code = D at *
  generalize codeNormSq K code' = D' at *
  have gain : 0 ≤ N' - N := by linarith
  have paid : N * (2 * t * (N' - N)) ≤ 2 * D * (N' - N) := by
    have := mul_le_mul_of_nonneg_right balance gain
    linarith
  calc N ^ 2 * D' ≤ N ^ 2 * (D + 2 * t * (N' - N)) :=
        mul_le_mul_of_nonneg_left (by linarith) (sq_nonneg N)
    _ = N ^ 2 * D + N * (N * (2 * t * (N' - N))) := by ring
    _ ≤ N ^ 2 * D + N * (2 * D * (N' - N)) := by
        have := mul_le_mul_of_nonneg_left paid dot.le
        linarith
    _ ≤ N' ^ 2 * D := by
        have := mul_nonneg norm.le (sq_nonneg (N' - N))
        linarith

end Best

end VecFetch.Theory
