/-
# Theory.Emit -- byte strings written in a loop

`emitRange` concatenates what a body writes for the indices below a bound, and fails as
soon as the body does.  `n` parts of length `w` make `n * w` bytes
(`flatMap_range_length`).
-/
import Mathlib.Data.Nat.Notation
import Mathlib.Tactic.Common
import Mathlib.Algebra.Ring.Nat
import Mathlib.Data.List.Basic
import Mathlib.Data.List.GetD

namespace VecFetch.Theory

set_option autoImplicit false

section Emit

variable {ε β : Type}

/-- Concatenate what a body writes for the indices below a bound. -/
def emitRange (body : ℕ → Except ε (List β)) : ℕ → Except ε (List β)
  | 0 => .ok []
  | n + 1 => (emitRange body n).bind fun out => (body n).map fun part => out ++ part

/-- A loop whose bodies write is the concatenation of what they wrote. -/
theorem emitRange_ok {body : ℕ → Except ε (List β)} {n : ℕ} {parts : ℕ → List β}
    (wrote : ∀ i, i < n → body i = .ok (parts i)) :
    emitRange body n = .ok ((List.range n).flatMap parts) := by
  induction n with
  | zero => rfl
  | succ n ih =>
      rw [emitRange, ih fun i below => wrote i (by omega), wrote n (by omega), List.range_succ,
        List.flatMap_append, List.flatMap_singleton]
      rfl

theorem emitRange_congr {body body' : ℕ → Except ε (List β)} {n : ℕ}
    (same : ∀ i, i < n → body i = body' i) : emitRange body n = emitRange body' n := by
  induction n with
  | zero => rfl
  | succ n ih => rw [emitRange, emitRange, ih fun i below => same i (by omega), same n (by omega)]

/-- In a loop that succeeds every body wrote its part. -/
theorem emitRange_parts {body : ℕ → Except ε (List β)} {n : ℕ} {out : List β}
    (run : emitRange body n = .ok out) :
    ∃ parts : ℕ → List β, (∀ i, i < n → body i = .ok (parts i)) ∧
      out = (List.range n).flatMap parts := by
  induction n generalizing out with
  | zero =>
      cases run
      exact ⟨fun _ => [], fun i below => absurd below (by omega), rfl⟩
  | succ n ih =>
      rw [emitRange] at run
      cases before : emitRange body n with
      | error e =>
          rw [before] at run
          cases run
      | ok earlier =>
          rw [before] at run
          cases last : body n with
          | error e =>
              rw [last] at run
              cases run
          | ok part =>
              rw [last] at run
              cases run
              obtain ⟨parts, wrote, whole⟩ := ih before
              refine ⟨fun i => if i = n then part else parts i, fun i below => ?_, ?_⟩
              · by_cases here : i = n
                · simp only [here, last, if_true]
                · simp only [here, if_false, wrote i (show i < n by omega)]
              · have same : (List.range n).flatMap (fun i => if i = n then part else parts i) =
                    (List.range n).flatMap parts := by
                  apply List.flatMap_congr
                  intro i mem
                  rw [if_neg (Nat.ne_of_lt (List.mem_range.1 mem))]
                rw [List.range_succ, List.flatMap_append, List.flatMap_singleton, same, whole,
                  if_pos rfl]

/-- Going through a list by index. -/
theorem flatMap_getD {α : Type} (l : List α) (f : α → List β) (d : α) :
    l.flatMap f = (List.range l.length).flatMap fun i => f (l.getD i d) := by
  have indexed : (List.range l.length).map (fun i => l.getD i d) = l := by
    apply List.ext_getElem
    · simp
    · intro i below below'
      simp [List.getD, below']
  conv_lhs => rw [← indexed]
  rw [List.flatMap_map]

/-- One part of a concatenation grows. -/
theorem flatMap_range_grow {α : Type} {f g : ℕ → List α} {xs : List α} {n i : ℕ} (below : i < n)
    (grown : (g i).Perm (xs ++ f i)) (others : ∀ j, j ≠ i → g j = f j) :
    ((List.range n).flatMap g).Perm (xs ++ (List.range n).flatMap f) := by
  induction n with
  | zero => omega
  | succ n ih =>
      rw [List.range_succ, List.flatMap_append, List.flatMap_append, List.flatMap_singleton,
        List.flatMap_singleton]
      by_cases last : i = n
      · have before : (List.range n).flatMap g = (List.range n).flatMap f := by
          apply List.flatMap_congr
          intro j mem
          exact others j (by have := List.mem_range.1 mem; omega)
        subst last
        rw [before]
        have moved : ((List.range i).flatMap f ++ (xs ++ f i)).Perm
            (xs ++ ((List.range i).flatMap f ++ f i)) := by
          rw [← List.append_assoc, ← List.append_assoc]
          exact List.perm_append_comm.append_right _
        exact (grown.append_left _).trans moved
      · rw [others n fun eq => last eq.symm, ← List.append_assoc]
        exact (ih (by omega)).append_right _

end Emit

/-! ## Parts of one length -/

section Chunks

variable {β : Type} {f : ℕ → List β} {c n : ℕ}

theorem flatMap_range_length (len : ∀ i, i < n → (f i).length = c) :
    ((List.range n).flatMap f).length = n * c := by
  induction n with
  | zero => simp
  | succ n ih =>
      rw [List.range_succ, List.flatMap_append, List.length_append, List.flatMap_singleton,
        ih fun i below => len i (by omega), len n (by omega), Nat.succ_mul]

/-- What lies before and after part `i`. -/
theorem flatMap_range_split {i : ℕ} (part : i < n) :
    ∃ after, (List.range n).flatMap f = (List.range i).flatMap f ++ (f i ++ after) := by
  induction n with
  | zero => omega
  | succ n ih =>
      rw [List.range_succ, List.flatMap_append, List.flatMap_singleton]
      by_cases last : i = n
      · subst last
        exact ⟨[], by rw [List.append_nil]⟩
      · obtain ⟨after, split⟩ := ih (by omega)
        exact ⟨after ++ f n, by rw [split, List.append_assoc, List.append_assoc]⟩

/-- Parts of the same lengths are told apart by the whole. -/
theorem flatMap_range_inj {g : ℕ → List β} (len : ∀ i, i < n → (f i).length = (g i).length) :
    (List.range n).flatMap f = (List.range n).flatMap g ↔ ∀ i, i < n → f i = g i := by
  induction n with
  | zero => simp
  | succ n ih =>
      have earlier := ih fun i below => len i (by omega)
      have sameLength : ∀ m, m ≤ n →
          ((List.range m).flatMap f).length = ((List.range m).flatMap g).length := by
        intro m below
        rw [List.length_flatMap, List.length_flatMap, List.map_congr_left fun i mem =>
          len i (by have := List.mem_range.1 mem; omega)]
      rw [List.range_succ, List.flatMap_append, List.flatMap_append, List.flatMap_singleton,
        List.flatMap_singleton]
      constructor
      · intro same
        obtain ⟨front, last⟩ := List.append_inj same (sameLength n (Nat.le_refl n))
        intro i below
        by_cases here : i = n
        · rw [here, last]
        · exact earlier.1 front i (by omega)
      · intro same
        rw [earlier.2 fun i below => same i (by omega), same n (by omega)]

end Chunks

end VecFetch.Theory
