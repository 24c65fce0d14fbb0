/-
# Theory.Select -- selecting the first `k` of a range

`SelectAlgo` adds `std::nth_element` and `std::make_heap` to a standard library, with what
the standard promises of them.  Three ways to the first `k` of a range, sorted, are the same
up to the order of equivalent elements (`TopK`): partition and sort the front, offer
everything to a bounded heap, and start that heap from the first `k`.  A heap is sorted, or
emptied from its top and reversed.
-/
import VecFetch.Theory.StdAlgo
import VecFetch.Theory.KSmallest

namespace VecFetch.Theory

set_option autoImplicit false

variable {α : Type}

/-- A standard library with `std::nth_element` and `std::make_heap`. -/
structure SelectAlgo extends StdAlgo where
  nthElement : {α : Type} → (α → α → Bool) → ℕ → List α → List α
  makeHeap : {α : Type} → (α → α → Bool) → List α → List α
  nthElement_perm : ∀ {α : Type} (lt : α → α → Bool) (n : ℕ) (l : List α),
    (nthElement lt n l).Perm l
  nthElement_parts : ∀ {α : Type} {lt : α → α → Bool} {n : ℕ} {l : List α}, StrictWeakOn lt l →
    ∀ x ∈ (nthElement lt n l).take n, ∀ y ∈ (nthElement lt n l).drop n, lt y x = false
  makeHeap_perm : ∀ {α : Type} (lt : α → α → Bool) (l : List α), (makeHeap lt l).Perm l
  makeHeap_isHeap : ∀ {α : Type} {lt : α → α → Bool} {l : List α}, StrictWeakOn lt l →
    IsHeap lt (makeHeap lt l)

/-- `sel` is the first `k` of `l`, sorted: nothing left out is strictly below what is in. -/
structure TopK (lt : α → α → Bool) (k : ℕ) (l sel : List α) : Prop where
  length : sel.length = min k l.length
  ascending : Ascending lt sel
  split : ∃ dropped, (sel ++ dropped).Perm l ∧ ∀ d ∈ dropped, ∀ y ∈ sel, lt d y = false

namespace TopK

variable {lt : α → α → Bool} {k : ℕ} {l sel : List α}

theorem subset (top : TopK lt k l sel) : sel ⊆ l := by
  obtain ⟨dropped, perm, _⟩ := top.split
  exact fun x mem => perm.subset (List.mem_append_left dropped mem)

theorem nodup (top : TopK lt k l sel) (distinct : l.Nodup) : sel.Nodup := by
  obtain ⟨dropped, perm, _⟩ := top.split
  exact (List.nodup_append.1 (perm.nodup_iff.2 distinct)).1

theorem perm {l' : List α} (top : TopK lt k l sel) (same : l.Perm l') : TopK lt k l' sel where
  length := top.length.trans (by rw [same.length_eq])
  ascending := top.ascending
  split := by
    obtain ⟨dropped, perm, above⟩ := top.split
    exact ⟨dropped, perm.trans same, above⟩

/-- Elements that have `k` others strictly below them change nothing. -/
theorem append_of_below {l' : List α} (order : StrictWeakOn lt (l ++ l')) (top : TopK lt k l sel)
    (below : ∀ d ∈ l', k ≤ l.countP fun x => lt x d) : TopK lt k (l ++ l') sel := by
  obtain ⟨dropped, perm, above⟩ := top.split
  refine ⟨?_, top.ascending, dropped ++ l', ?_, fun d out y inside => ?_⟩
  · rw [top.length, List.length_append]
    cases l' with
    | nil => rfl
    | cons d rest =>
        have many := (below d List.mem_cons_self).trans List.countP_le_length
        omega
  · rw [← List.append_assoc]
    exact perm.append_right l'
  · rcases List.mem_append.1 out with left | far
    · exact above d left y inside
    · by_contra under
      rw [Bool.not_eq_false] at under
      have yIn := List.mem_append_left l' (top.subset inside)
      have dIn := List.mem_append_right l far
      -- what is below `d` is below `y`, so it is selected beside `y`
      have counted : l.countP (fun x => lt x d) ≤ l.countP fun x => lt x y := by
        refine List.countP_mono_left fun x mem closer => ?_
        by_contra notBelow
        have xIn := List.mem_append_left l' mem
        rw [order.negTrans x xIn y yIn d dIn (Bool.not_eq_true _ ▸ notBelow)
          (order.asymm d dIn y yIn under)] at closer
        cases closer
      have none : dropped.countP (fun x => lt x y) = 0 :=
        List.countP_eq_zero.2 fun x mem closer => by
          rw [above x mem y inside] at closer
          cases closer
      have fewer : sel.countP (fun x => lt x y) < sel.length := by
        refine lt_of_le_of_ne List.countP_le_length fun all => ?_
        have self := List.countP_eq_length.1 all y inside
        rw [order.asymm y yIn y yIn self] at self
        cases self
      have total := perm.countP_eq fun x => lt x y
      have length := top.length
      have many := below d far
      rw [List.countP_append] at total
      omega

/-- What comes after all others is not selected if anything is left out. -/
theorem not_mem_of_worst (top : TopK lt k l sel) (distinct : l.Nodup) (fewer : k < l.length)
    {x : α} (worst : ∀ y ∈ l, y ≠ x → lt y x = true) : x ∉ sel := by
  intro selected
  obtain ⟨dropped, perm, above⟩ := top.split
  have count := perm.length_eq
  rw [List.length_append, top.length] at count
  obtain ⟨y, left⟩ := List.exists_mem_of_length_pos (show 0 < dropped.length by omega)
  have apart := (List.nodup_append.1 (perm.nodup_iff.2 distinct)).2.2 x selected y left
  have before := worst y (perm.subset (List.mem_append_right _ left)) (Ne.symm apart)
  rw [above y left x selected] at before
  cases before

/-- Nothing left out is strictly below what is in. -/
theorem not_below (top : TopK lt k l sel) {x y : α} (mem : x ∈ l) (out : x ∉ sel) (inside : y ∈ sel) :
    lt x y = false := by
  obtain ⟨dropped, perm, above⟩ := top.split
  rcases List.mem_append.1 (perm.symm.subset mem) with here | there
  · exact absurd here out
  · exact above x there y inside

/-- What a finer order picks a coarser one picks as well. -/
theorem mono {lt' : α → α → Bool} (coarser : ∀ a b, lt a b = false → lt' a b = false)
    (top : TopK lt k l sel) : TopK lt' k l sel where
  length := top.length
  ascending := top.ascending.imp fun notBelow => coarser _ _ notBelow
  split := by
    obtain ⟨dropped, perm, above⟩ := top.split
    exact ⟨dropped, perm, fun d out y inside => coarser _ _ (above d out y inside)⟩

/-- By a key, the keys are the `k` smallest. -/
theorem map_key {K : Type} [LinearOrder K] {key : α → K}
    (top : TopK (fun a b => decide (key a < key b)) k l sel) :
    sel.map key = kSmallest k (l.map key) := by
  obtain ⟨dropped, perm, above⟩ := top.split
  set rest := (dropped.map key).mergeSort (· ≤ ·) with hrest
  have restPerm : rest.Perm (dropped.map key) := List.mergeSort_perm _ _
  have ascending : (sel.map key).Pairwise (· ≤ ·) := by
    rw [List.pairwise_map]
    exact top.ascending.imp fun notBelow => by simpa using notBelow
  have whole : (sel.map key ++ rest).Pairwise (· ≤ ·) := by
    refine List.pairwise_append.2 ⟨ascending, mergeSort_pairwise _, ?_⟩
    intro x inSel y inRest
    obtain ⟨a, aIn, rfl⟩ := List.mem_map.1 inSel
    obtain ⟨d, dIn, rfl⟩ := List.mem_map.1 (restPerm.subset inRest)
    simpa using above d dIn a aIn
  have same : ((l.map key).mergeSort (· ≤ ·)).Perm (sel.map key ++ rest) :=
    calc (l.map key).mergeSort (· ≤ ·)
      _ |>.Perm (l.map key) := List.mergeSort_perm _ _
      _ |>.Perm ((sel ++ dropped).map key) := (perm.map key).symm
      _ |>.Perm (sel.map key ++ rest) := by
          rw [List.map_append]
          exact restPerm.symm.append_left _
  have sorted : (l.map key).mergeSort (· ≤ ·) = sel.map key ++ rest :=
    same.eq_of_pairwise (fun _ _ _ _ h h' => le_antisymm h h') (mergeSort_pairwise _) whole
  have length := top.length
  rw [kSmallest, sorted]
  by_cases long : k ≤ l.length
  · rw [List.take_left' (by rw [List.length_map, length, min_eq_left long])]
  · -- nothing was left out
    have total := perm.length_eq
    rw [List.length_append] at total
    have none : dropped = [] := List.eq_nil_of_length_eq_zero (by omega)
    rw [none] at hrest
    rw [hrest, List.map_nil, List.mergeSort_nil, List.append_nil,
      List.take_of_length_le (by rw [List.length_map]; omega)]

theorem sorted (std : StdAlgo) (order : StrictWeakOn lt l) {kept : List α} (dropped : List α)
    (length : kept.length = min k l.length) (perm : (kept ++ dropped).Perm l)
    (above : ∀ d ∈ dropped, ∀ y ∈ kept, lt d y = false) : TopK lt k l (std.sort lt kept) := by
  have inside : ∀ x ∈ kept, x ∈ l := fun x mem => perm.subset (List.mem_append_left dropped mem)
  obtain ⟨ascending, same⟩ := std.sort_spec (order.mono inside)
  refine ⟨same.length_eq.trans length, ascending, dropped, (same.append_right dropped).trans perm, ?_⟩
  exact fun d out y mem => above d out y (same.subset mem)

end TopK

namespace StdAlgo.Smallest

variable {std : StdAlgo} {lt : α → α → Bool} {k : ℕ} {seen heap : List α}

/-- A bounded heap, sorted. -/
theorem topK_sort (small : std.Smallest lt k seen heap) (order : StrictWeakOn lt seen) :
    TopK lt k seen (std.sort lt heap) := by
  obtain ⟨dropped, perm, above⟩ := small.split
  exact TopK.sorted std order dropped small.length_eq perm above

/-- A bounded heap, sorted as a heap. -/
theorem topK_sortHeap (small : std.Smallest lt k seen heap) (order : StrictWeakOn lt seen) :
    TopK lt k seen (std.sortHeap lt heap) := by
  obtain ⟨dropped, perm, above⟩ := small.split
  have same := std.sortHeap_perm lt heap
  refine ⟨same.length_eq.trans small.length_eq,
    std.sortHeap_ascending (order.mono fun x mem => small.mem_seen mem) small.isHeap, dropped,
    (same.append_right dropped).trans perm, ?_⟩
  exact fun d out y mem => above d out y (same.subset mem)

end StdAlgo.Smallest

/-! ## Emptying a heap -/

namespace StdAlgo

variable (std : StdAlgo) (lt : α → α → Bool)

/-- What the front was, and again after each pop, for `n` pops at most. -/
def drain : ℕ → List α → List α
  | 0, _ => []
  | _ + 1, [] => []
  | n + 1, front :: rest => front :: drain n (std.popHeap lt (front :: rest)).dropLast

variable {std lt}

theorem drain_perm {n : ℕ} {heap : List α} (whole : heap.length = n) :
    (std.drain lt n heap).Perm heap := by
  induction n generalizing heap with
  | zero =>
      obtain rfl := List.eq_nil_of_length_eq_zero whole
      exact .refl _
  | succ n ih =>
      cases heap with
      | nil => exact .refl _
      | cons front rest =>
          obtain ⟨kept, popped, perm⟩ := std.popHeap_perm lt front rest
          rw [drain, popped, List.dropLast_concat]
          refine ((ih ?_).trans perm).cons front
          rw [perm.length_eq]
          simpa using whole

/-- Each front is not below what is popped after it. -/
theorem drain_descending {n : ℕ} {heap : List α} (whole : heap.length = n)
    (order : StrictWeakOn lt heap) (isHeap : std.IsHeap lt heap) :
    (std.drain lt n heap).Pairwise fun a b => lt a b = false := by
  induction n generalizing heap with
  | zero => exact List.Pairwise.nil
  | succ n ih =>
      cases heap with
      | nil => exact List.Pairwise.nil
      | cons front rest =>
          obtain ⟨kept, popped, perm⟩ := std.popHeap_perm lt front rest
          have left := std.popHeap_isHeap order isHeap
          rw [popped, List.dropLast_concat] at left
          have length : kept.length = n := by
            rw [perm.length_eq]
            simpa using whole
          rw [drain, popped, List.dropLast_concat]
          refine List.pairwise_cons.2 ⟨fun y mem => ?_, ih length ?_ left⟩
          · exact std.isHeap_front order isHeap y (perm.subset ((drain_perm length).subset mem))
          · exact order.mono fun y mem => List.mem_cons_of_mem _ (perm.subset mem)

/-- A bounded heap, emptied and reversed. -/
theorem Smallest.topK_drain {k : ℕ} {seen heap : List α} (small : std.Smallest lt k seen heap)
    (order : StrictWeakOn lt seen) :
    TopK lt k seen (std.drain lt heap.length heap).reverse := by
  obtain ⟨dropped, perm, above⟩ := small.split
  have same : (std.drain lt heap.length heap).reverse.Perm heap :=
    (List.reverse_perm _).trans (drain_perm rfl)
  refine ⟨same.length_eq.trans small.length_eq, ?_, dropped,
    (same.append_right dropped).trans perm, fun d out y mem => above d out y (same.subset mem)⟩
  exact List.pairwise_reverse.2
    (drain_descending rfl (order.mono fun x mem => small.mem_seen mem) small.isHeap)

/-- The flag of an offer says whether the heap holds the element once more than before; it is
left alone otherwise. -/
theorem addBounded_flag [DecidableEq α] {k : ℕ} {x : α} {heap : List α} (irrefl : lt x x = false) :
    ((std.addBounded lt k x heap).2 = true →
      (std.addBounded lt k x heap).1.count x = heap.count x + 1) ∧
    ((std.addBounded lt k x heap).2 = false → (std.addBounded lt k x heap).1 = heap) := by
  unfold addBounded
  split
  · refine ⟨fun _ => ?_, fun refused => by cases refused⟩
    dsimp only
    rw [(std.pushHeap_perm lt (heap ++ [x])).count_eq, List.count_append, List.count_singleton_self]
  · cases heap with
    | nil => exact ⟨fun taken => absurd taken Bool.false_ne_true, fun _ => rfl⟩
    | cons front tail =>
        dsimp only
        split
        · rename_i below
          refine ⟨fun _ => ?_, fun refused => by cases refused⟩
          -- the front that goes is another element
          have other : front ≠ x := by
            rintro rfl
            rw [irrefl] at below
            exact Bool.false_ne_true below
          obtain ⟨rest, popped, perm⟩ := std.popHeap_perm lt front tail
          dsimp only
          rw [popped, List.dropLast_concat, (std.pushHeap_perm lt (rest ++ [x])).count_eq,
            List.count_append, List.count_singleton_self, perm.count_eq,
            List.count_cons_of_ne other]
        · exact ⟨fun taken => absurd taken Bool.false_ne_true, fun _ => rfl⟩

end StdAlgo

namespace SelectAlgo

variable (std : SelectAlgo) {lt : α → α → Bool}

/-- Partition around `k`, and sort the front. -/
theorem nthElement_topK {k : ℕ} {l : List α} (order : StrictWeakOn lt l) :
    TopK lt k l (std.sort lt ((std.nthElement lt k l).take k)) := by
  have perm := std.nthElement_perm lt k l
  refine TopK.sorted std.toStdAlgo order ((std.nthElement lt k l).drop k) ?_ ?_ ?_
  · rw [List.length_take, perm.length_eq]
  · rw [List.take_append_drop]
    exact perm
  · exact fun d out y mem => std.nthElement_parts order y mem d out

/-- A heap made of a range is its own smallest. -/
theorem makeHeap_smallest {l : List α} (order : StrictWeakOn lt l) :
    std.Smallest lt l.length l (std.makeHeap lt l) where
  isHeap := std.makeHeap_isHeap order
  length_eq := by rw [(std.makeHeap_perm lt l).length_eq, min_self]
  split := ⟨[], by simpa using std.makeHeap_perm lt l, fun d none => by cases none⟩

theorem reference_parts {α : Type} {lt : α → α → Bool} {n : ℕ} {l : List α}
    (order : StrictWeakOn lt l) (x : α) (front : x ∈ (sortAscending lt l).take n) (y : α)
    (back : y ∈ (sortAscending lt l).drop n) : lt y x = false := by
  have ascending := sortAscending_ascending order
  rw [Ascending, ← List.take_append_drop n (sortAscending lt l), List.pairwise_append]
    at ascending
  exact ascending.2.2 x front y back

theorem reference_nthElement_perm {α : Type} (lt : α → α → Bool) (_ : ℕ) (l : List α) :
    (sortAscending lt l).Perm l := sortAscending_perm lt l

theorem reference_heap_perm {α : Type} (lt : α → α → Bool) (l : List α) :
    (sortAscending lt l).reverse.Perm l :=
  (List.reverse_perm _).trans (sortAscending_perm _ _)

theorem reference_isHeap {α : Type} {lt : α → α → Bool} {l : List α} (order : StrictWeakOn lt l) :
    (sortAscending lt l).reverse.Pairwise fun a b => lt a b = false :=
  List.pairwise_reverse.2 (sortAscending_ascending order)

/-- The reference library. -/
def reference : SelectAlgo where
  toStdAlgo := StdAlgo.reference
  nthElement lt _ l := sortAscending lt l
  makeHeap lt l := (sortAscending lt l).reverse
  nthElement_perm := reference_nthElement_perm
  nthElement_parts := reference_parts
  makeHeap_perm := reference_heap_perm
  makeHeap_isHeap := reference_isHeap

end SelectAlgo

end VecFetch.Theory
