/-
# Theory.Buffer -- bounds-checked byte buffers and counted loops

A buffer has a size and a byte at each address below it.  A load or store that is not
inside fails, so a program of loads and stores that succeeds stays inside its buffers.
`forRange` runs a body that may fail for each index below a bound; `forRange_spec` is
its invariant rule.
-/
import Mathlib.Data.Nat.Notation
import Mathlib.Tactic.Common

namespace VecFetch.Theory

set_option autoImplicit false

/-! ## Buffers -/

structure Buffer where
  size : ℕ
  byte : ℕ → UInt8

namespace Buffer

/-- A buffer of zero bytes. -/
def zeros (size : ℕ) : Buffer := ⟨size, fun _ => 0⟩

/-- The `n` bytes from an address. -/
def load (b : Buffer) (off n : ℕ) : Option (ℕ → UInt8) :=
  if off + n ≤ b.size then some fun j => b.byte (off + j) else none

/-- Overwrite the `n` bytes from an address. -/
def store (b : Buffer) (off n : ℕ) (bytes : ℕ → UInt8) : Option Buffer :=
  if off + n ≤ b.size then
    some { b with byte := fun i => if off ≤ i ∧ i < off + n then bytes (i - off) else b.byte i }
  else none

theorem load_inside {b : Buffer} {off n : ℕ} (inside : off + n ≤ b.size) :
    b.load off n = some fun j => b.byte (off + j) := if_pos inside

theorem load_outside {b : Buffer} {off n : ℕ} (outside : b.size < off + n) :
    b.load off n = none := if_neg (by omega)

theorem store_outside {b : Buffer} {off n : ℕ} (outside : b.size < off + n) (bytes : ℕ → UInt8) :
    b.store off n bytes = none := if_neg (by omega)

/-- A store inside succeeds, writes its bytes and leaves the rest. -/
theorem store_spec {b : Buffer} {off n : ℕ} (inside : off + n ≤ b.size) (bytes : ℕ → UInt8) :
    ∃ b', b.store off n bytes = some b' ∧ b'.size = b.size ∧
      (∀ j, j < n → b'.byte (off + j) = bytes j) ∧
      (∀ i, i < off ∨ off + n ≤ i → b'.byte i = b.byte i) := by
  refine ⟨_, if_pos inside, rfl, fun j below => ?_, fun i apart => ?_⟩
  · have within : off ≤ off + j ∧ off + j < off + n := by omega
    simp [within]
  · have without : ¬ (off ≤ i ∧ i < off + n) := by omega
    simp [without]

theorem store_size {b b' : Buffer} {off n : ℕ} {bytes : ℕ → UInt8}
    (stored : b.store off n bytes = some b') : b'.size = b.size := by
  unfold store at stored
  split at stored
  · cases stored
    rfl
  · cases stored

end Buffer

/-! ## Counted loops -/

section Loop

variable {σ : Type}

/-- Run a body for the indices below a bound, in order, until one fails. -/
def forRange (body : ℕ → σ → Option σ) : ℕ → σ → Option σ
  | 0, s => some s
  | n + 1, s => (forRange body n s).bind (body n)

/-- An invariant each body keeps, and under which it succeeds, holds after the loop. -/
theorem forRange_spec {body : ℕ → σ → Option σ} {n : ℕ} {s : σ} (inv : ℕ → σ → Prop)
    (start : inv 0 s)
    (step : ∀ i s, i < n → inv i s → ∃ s', body i s = some s' ∧ inv (i + 1) s') :
    ∃ s', forRange body n s = some s' ∧ inv n s' := by
  induction n with
  | zero => exact ⟨s, rfl, start⟩
  | succ n ih =>
      obtain ⟨t, run, holds⟩ := ih fun i s below => step i s (by omega)
      obtain ⟨s', last, kept⟩ := step n t (by omega) holds
      exact ⟨s', by rw [forRange, run, Option.bind_some, last], kept⟩

/-- An invariant each successful body keeps holds after a loop that succeeds. -/
theorem forRange_kept {body : ℕ → σ → Option σ} {n : ℕ} {s s' : σ} (inv : ℕ → σ → Prop)
    (start : inv 0 s)
    (step : ∀ i s s', i < n → inv i s → body i s = some s' → inv (i + 1) s')
    (run : forRange body n s = some s') : inv n s' := by
  induction n generalizing s' with
  | zero =>
      cases run
      exact start
  | succ n ih =>
      rw [forRange, Option.bind_eq_some_iff] at run
      obtain ⟨t, before, last⟩ := run
      exact step n t s' (by omega) (ih (fun i s s' below => step i s s' (by omega)) before) last

/-- Two loops whose bodies keep a relation, and fail together, end related. -/
theorem forRange_rel {τ : Type} {body : ℕ → σ → Option σ} {body' : ℕ → τ → Option τ} {n : ℕ}
    {s : σ} {t : τ} (R : ℕ → σ → τ → Prop) (start : R 0 s t)
    (step : ∀ i s t, i < n → R i s t → Option.Rel (R (i + 1)) (body i s) (body' i t)) :
    Option.Rel (R n) (forRange body n s) (forRange body' n t) := by
  induction n with
  | zero => exact .some start
  | succ n ih =>
      have before := ih fun i s t below => step i s t (by omega)
      rw [forRange, forRange]
      generalize forRange body n s = first at before ⊢
      generalize forRange body' n t = second at before ⊢
      cases before with
      | some related => exact step n _ _ (by omega) related
      | none => exact .none

/-- A loop whose first body fails fails. -/
theorem forRange_none {body : ℕ → σ → Option σ} {s : σ} (first : body 0 s = none) :
    ∀ n, 0 < n → forRange body n s = none
  | 1, _ => by simp [forRange, first]
  | n + 2, _ => by rw [forRange, forRange_none first (n + 1) (by omega), Option.bind_none]

/-- A loop fails whose body fails at some index whatever the state. -/
theorem forRange_none_at {body : ℕ → σ → Option σ} {i : ℕ} (fails : ∀ s, body i s = none) {n : ℕ}
    (inside : i < n) (s : σ) : forRange body n s = none := by
  induction n with
  | zero => omega
  | succ n ih =>
      rw [forRange]
      rcases Nat.lt_succ_iff_lt_or_eq.1 inside with earlier | rfl
      · rw [ih earlier, Option.bind_none]
      · cases forRange body i s with
        | none => rfl
        | some t => exact fails t

theorem forRange_congr {body body' : ℕ → σ → Option σ} {n : ℕ}
    (same : ∀ i, i < n → body i = body' i) (s : σ) : forRange body n s = forRange body' n s := by
  induction n with
  | zero => rfl
  | succ n ih => rw [forRange, forRange, ih fun i below => same i (by omega), same n (by omega)]

/-- A loop in two parts. -/
theorem forRange_append (body : ℕ → σ → Option σ) (m n : ℕ) (s : σ) :
    forRange body (m + n) s =
      (forRange body m s).bind (forRange (fun i => body (m + i)) n) := by
  induction n with
  | zero => simp [forRange]
  | succ n ih =>
      rw [← Nat.add_assoc, forRange, ih, Option.bind_assoc]
      rfl

/-- A loop in chunks of `k`, the last of which may be short. -/
theorem forRange_chunks (body : ℕ → σ → Option σ) (k total n : ℕ) (s : σ) :
    forRange (fun c => forRange (fun i => body (k * c + i)) (min k (total - k * c))) n s =
      forRange body (min (k * n) total) s := by
  induction n with
  | zero => simp [forRange]
  | succ n ih =>
      have next : min (k * (n + 1)) total =
          min (k * n) total + min k (total - k * n) := by
        rw [Nat.mul_succ]
        omega
      rw [forRange, ih, next, forRange_append]
      congr 1
      by_cases within : k * n ≤ total
      · rw [Nat.min_eq_left within]
      · rw [show min k (total - k * n) = 0 by omega]
        rfl

/-- A loop in pairs, and what is left. -/
theorem forRange_pairs {body pair single : ℕ → σ → Option σ} {count : ℕ}
    (pairs : ∀ p, 2 * p + 2 ≤ count → pair p = forRange (fun i => body (2 * p + i)) 2)
    (rest : ∀ i, 2 * (count / 2) + i < count → single i = body (2 * (count / 2) + i)) (s : σ) :
    (forRange pair (count / 2) s).bind (forRange single (count - 2 * (count / 2))) =
      forRange body count s := by
  have chunks := forRange_chunks body 2 (2 * (count / 2)) (count / 2) s
  rw [Nat.min_self] at chunks
  have whole : forRange pair (count / 2) s = forRange body (2 * (count / 2)) s := by
    rw [← chunks]
    refine forRange_congr (fun p below => ?_) s
    rw [pairs p (by omega), show min 2 (2 * (count / 2) - 2 * p) = 2 by omega]
  have left : forRange single (count - 2 * (count / 2)) =
      forRange (fun i => body (2 * (count / 2) + i)) (count - 2 * (count / 2)) :=
    funext fun s => forRange_congr (fun i below => rest i (by omega)) s
  rw [whole, left, ← forRange_append, show 2 * (count / 2) + (count - 2 * (count / 2)) = count by
    omega]

/-- Loops of one body compose. -/
theorem forRange_add (step : σ → Option σ) (m n : ℕ) (s : σ) :
    forRange (fun _ => step) (m + n) s =
      (forRange (fun _ => step) m s).bind (forRange (fun _ => step) n) := by
  induction n with
  | zero => simp [forRange]
  | succ n ih =>
      rw [← Nat.add_assoc, forRange, ih, Option.bind_assoc]
      rfl

/-- A loop of loops of one body is one loop. -/
theorem forRange_mul (step : σ → Option σ) (k n : ℕ) (s : σ) :
    forRange (fun _ => forRange (fun _ => step) k) n s = forRange (fun _ => step) (n * k) s := by
  induction n with
  | zero => simp [forRange]
  | succ n ih => rw [forRange, ih, Nat.succ_mul, forRange_add]

end Loop

end VecFetch.Theory
