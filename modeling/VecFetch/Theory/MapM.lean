/-
# Theory.MapM -- lists of results that may fail
-/
import Mathlib.Data.Nat.Notation
import Mathlib.Tactic.Common
import Mathlib.Data.List.GetD

namespace VecFetch.Theory

set_option autoImplicit false

variable {α β : Type} {f : α → Option β} {l : List α}

/-- Where every element has a result, so has the list. -/
theorem mapM_eq_map {g : α → β} (each : ∀ x ∈ l, f x = some (g x)) :
    l.mapM f = some (l.map g) := by
  induction l with
  | nil => rfl
  | cons x l ih =>
      rw [List.mapM_cons, each x List.mem_cons_self,
        ih fun y inTail => each y (List.mem_cons_of_mem x inTail)]
      rfl

/-- The same for results that carry an error. -/
theorem mapM_except_map {ε : Type} {f : α → Except ε β} {g : α → β}
    (each : ∀ x ∈ l, f x = .ok (g x)) : l.mapM f = .ok (l.map g) := by
  induction l with
  | nil => rfl
  | cons x l ih =>
      rw [List.mapM_cons, each x List.mem_cons_self,
        ih fun y inTail => each y (List.mem_cons_of_mem x inTail)]
      rfl

/-- An invariant each step keeps, and under which it succeeds, holds after a fold over the indices
below a bound. -/
theorem foldlM_range_ok {ε σ : Type} {step : σ → ℕ → Except ε σ} {n : ℕ} {s : σ}
    (inv : ℕ → σ → Prop) (start : inv 0 s)
    (each : ∀ i s, i < n → inv i s → ∃ s', step s i = .ok s' ∧ inv (i + 1) s') :
    ∃ s', (List.range n).foldlM step s = .ok s' ∧ inv n s' := by
  induction n with
  | zero => exact ⟨s, rfl, start⟩
  | succ n ih =>
      obtain ⟨t, run, holds⟩ := ih fun i s below => each i s (by omega)
      obtain ⟨s', last, kept⟩ := each n t (by omega) holds
      refine ⟨s', ?_, kept⟩
      rw [List.range_succ, List.foldlM_append, run]
      show (step t n).bind pure = _
      rw [last]
      rfl

/-- A result after another. -/
theorem except_bind_ok {ε : Type} {e : Except ε α} {next : α → Except ε β} {y : β} :
    e.bind next = .ok y ↔ ∃ x, e = .ok x ∧ next x = .ok y := by
  cases e with
  | ok x => exact ⟨fun ok => ⟨x, rfl, ok⟩, fun ⟨_, same, ok⟩ => Except.ok.inj same ▸ ok⟩
  | error failure => exact ⟨fun ok => (by cases ok), fun ⟨_, ok, _⟩ => (by cases ok)⟩

theorem except_map_ok {ε : Type} {e : Except ε α} {g : α → β} {y : β} :
    e.map g = .ok y ↔ ∃ x, e = .ok x ∧ g x = y := by
  cases e with
  | ok x => exact ⟨fun ok => ⟨x, rfl, Except.ok.inj ok⟩,
      fun ⟨_, same, ok⟩ => congrArg Except.ok (Except.ok.inj same ▸ ok)⟩
  | error failure => exact ⟨fun ok => (by cases ok), fun ⟨_, ok, _⟩ => (by cases ok)⟩

theorem exists_mapM (each : ∀ x ∈ l, ∃ y, f x = some y) : ∃ found, l.mapM f = some found := by
  induction l with
  | nil => exact ⟨[], List.mapM_nil⟩
  | cons x l ih =>
      obtain ⟨y, here⟩ := each x List.mem_cons_self
      obtain ⟨rest, there⟩ := ih fun x' inTail => each x' (List.mem_cons_of_mem x inTail)
      refine ⟨y :: rest, ?_⟩
      rw [List.mapM_cons, here, there]
      rfl

theorem mem_of_mapM {found : List β} (all : l.mapM f = some found) {y : β} (mem : y ∈ found) :
    ∃ x ∈ l, f x = some y := by
  induction l generalizing found with
  | nil =>
      rw [List.mapM_nil] at all
      rw [← Option.some.inj all] at mem
      cases mem
  | cons x l ih =>
      rw [List.mapM_cons] at all
      obtain ⟨z, here, all⟩ := Option.bind_eq_some_iff.1 all
      obtain ⟨rest, there, all⟩ := Option.bind_eq_some_iff.1 all
      rw [← Option.some.inj all] at mem
      rcases List.mem_cons.1 mem with rfl | mem
      · exact ⟨x, List.mem_cons_self, here⟩
      · obtain ⟨x', inTail, same⟩ := ih there mem
        exact ⟨x', List.mem_cons_of_mem x inTail, same⟩

/-- If the list has a result, so has its first element. -/
theorem mapM_head {x : α} {found : List β} (all : (x :: l).mapM f = some found) :
    ∃ y, f x = some y := by
  rw [List.mapM_cons] at all
  obtain ⟨y, here, _⟩ := Option.bind_eq_some_iff.1 all
  exact ⟨y, here⟩

/-- The list of the results for the indices below a bound. -/
theorem mapM_range_iff {f : ℕ → Option β} {n : ℕ} {found : List β} (fallback : β) :
    (List.range n).mapM f = some found ↔
      found.length = n ∧ ∀ i, i < n → f i = some (found.getD i fallback) := by
  induction n generalizing found with
  | zero =>
      rw [List.range_zero, List.mapM_nil]
      constructor
      · intro same
        cases same
        exact ⟨rfl, fun i below => absurd below (by omega)⟩
      · rintro ⟨empty, _⟩
        rw [List.length_eq_zero_iff.1 empty]
        rfl
  | succ n ih =>
      have split : (List.range (n + 1)).mapM f = ((List.range n).mapM f).bind fun front =>
          (f n).map fun last => front ++ [last] := by
        rw [List.range_succ, List.mapM_append]
        cases (List.range n).mapM f with
        | none => rfl
        | some front =>
            rw [List.mapM_cons, List.mapM_nil]
            cases f n <;> rfl
      rw [split, Option.bind_eq_some_iff]
      constructor
      · rintro ⟨front, before, all⟩
        obtain ⟨length, each⟩ := ih.1 before
        obtain ⟨last, here, rfl⟩ := Option.map_eq_some_iff.1 all
        refine ⟨by simp [length], fun i below => ?_⟩
        by_cases earlier : i < n
        · rw [each i earlier, List.getD_append _ _ _ _ (by omega)]
        · obtain rfl : i = n := by omega
          rw [here, List.getD_append_right _ _ _ _ (by omega), length]
          simp
      · rintro ⟨length, each⟩
        have whole : found = found.take n ++ [found.getD n fallback] := by
          have inside : n < found.length := by omega
          rw [List.getD_eq_getElem _ _ inside, List.take_append_getElem inside,
            List.take_of_length_le (by omega)]
        refine ⟨found.take n, ih.2 ⟨by simp [length], fun i below => ?_⟩, ?_⟩
        · rw [each i (by omega)]
          have inside : i < (found.take n).length := by
            rw [List.length_take]
            omega
          conv_lhs => rw [whole, List.getD_append _ _ _ _ inside]
        · rw [each n (by omega), Option.map_some, ← whole]

end VecFetch.Theory
