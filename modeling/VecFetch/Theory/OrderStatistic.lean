/-
# Theory.OrderStatistic -- the `k`-th smallest of a list

Under a comparison that may leave elements incomparable the `k`-th smallest is known by
what is below it and what is not above it.  It is the front of a full heap that keeps the
`k` smallest, and it only gets smaller as more elements come.
-/
import VecFetch.Theory.StdAlgo

namespace VecFetch.Theory

set_option autoImplicit false

variable {α : Type}

/-- Fewer than `k` elements are below `v`, and at least `k` are not above it. -/
structure IsKth (lt : α → α → Bool) (k : ℕ) (l : List α) (v : α) : Prop where
  mem : v ∈ l
  below : l.countP (fun x => lt x v) < k
  upTo : k ≤ l.countP fun x => !lt v x

variable {lt : α → α → Bool} {k : ℕ}

/-- **More elements, a smaller value**: the later one is not above the earlier. -/
theorem IsKth.antitone {l more : List α} {v w : α} (order : StrictWeakOn lt (l ++ more))
    (first : IsKth lt k l v) (later : IsKth lt k (l ++ more) w) : lt v w = false := by
  by_contra above
  rw [Bool.not_eq_false] at above
  have vIn : v ∈ l ++ more := List.mem_append_left _ first.mem
  -- whatever is not above `v` is below `w`
  have counted : l.countP (fun x => !lt v x) ≤ l.countP fun x => lt x w := by
    refine List.countP_mono_left fun x mem notAbove => ?_
    have xIn : x ∈ l ++ more := List.mem_append_left _ mem
    rw [Bool.not_eq_true'] at notAbove
    by_contra notBelow
    rw [Bool.not_eq_true] at notBelow
    rw [order.negTrans v vIn x xIn w later.mem notAbove notBelow] at above
    cases above
  have total := later.below
  rw [List.countP_append] at total
  have enough := first.upTo
  omega

/-- Two `k`-th smallest elements are not told apart. -/
theorem IsKth.unique {l : List α} {v w : α} (order : StrictWeakOn lt l)
    (first : IsKth lt k l v) (second : IsKth lt k l w) : lt v w = false ∧ lt w v = false := by
  have order' : StrictWeakOn lt (l ++ []) := by
    rw [List.append_nil]
    exact order
  refine ⟨first.antitone order' ?_, second.antitone order' ?_⟩
  · rw [List.append_nil]
    exact second
  · rw [List.append_nil]
    exact first

/-- The elements of a list compared by a key, or their keys. -/
theorem IsKth.map {β : Type} {key : β → α} {l : List β} {v : β}
    (kth : IsKth (fun a b => lt (key a) (key b)) k l v) : IsKth lt k (l.map key) (key v) := by
  refine ⟨List.mem_map_of_mem kth.mem, ?_, ?_⟩
  · rw [List.countP_map]
    exact kth.below
  · rw [List.countP_map]
    exact kth.upTo

/-- **The front of a full heap** that keeps the `k` smallest is the `k`-th. -/
theorem StdAlgo.Smallest.isKth {std : StdAlgo} {seen rest : List α} {front : α}
    (order : StrictWeakOn lt seen) (small : std.Smallest lt k seen (front :: rest))
    (full : k ≤ (front :: rest).length) : IsKth lt k seen front := by
  have frontIn : front ∈ seen := small.mem_seen List.mem_cons_self
  have self : lt front front = false := by
    by_contra below
    rw [Bool.not_eq_false] at below
    rw [order.asymm front frontIn front frontIn below] at below
    cases below
  have onHeap : StrictWeakOn lt (front :: rest) := order.mono fun y mem => small.mem_seen mem
  have highest := std.isHeap_front onHeap small.isHeap
  have length := small.length_eq
  obtain ⟨dropped, perm, above⟩ := small.split
  refine ⟨frontIn, ?_, ?_⟩
  · have none_dropped : dropped.countP (fun x => lt x front) = 0 := by
      rw [List.countP_eq_zero]
      intro d mem
      rw [above d mem front List.mem_cons_self]
      exact Bool.false_ne_true
    have inRest := List.countP_le_length (p := fun x => lt x front) (l := rest)
    rw [← perm.countP_eq, List.countP_append, none_dropped, List.countP_cons_of_neg (by simp [self])]
    rw [List.length_cons] at length full
    omega
  · have all : (front :: rest).countP (fun x => !lt front x) = (front :: rest).length := by
      rw [List.countP_eq_length]
      intro y mem
      rcases List.mem_cons.1 mem with rfl | inRest
      · rw [self]
        rfl
      · rw [highest y inRest]
        rfl
    rw [← perm.countP_eq, List.countP_append, all]
    omega

end VecFetch.Theory
