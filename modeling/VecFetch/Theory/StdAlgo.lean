/-
# Theory.StdAlgo -- what `<algorithm>` promises about heaps and sorting

The standard fixes the heap algorithms and `std::sort` only up to the order of
equivalent elements: which of two equal keys is at the front of a heap, or comes
first in a sorted range, is the library's choice.  `StdAlgo` is a library that
keeps the standard's promises; everything proved over a `StdAlgo` holds whichever
choice the build's library makes.

The order is promised for ranges on which the comparison is a strict weak order
(`StrictWeakOn`).  A range of floats with a NaN in it is not one, and no order is
promised; the heap algorithms still only exchange elements of their range.

`addBounded` is the one loop body the queries are built on: a heap of at most `k`
elements that keeps the `k` smallest of everything it was ever offered
(`addBounded_smallest`).
-/
import Mathlib.Data.List.Sort
import Mathlib.Data.List.Perm.Basic

namespace VecFetch.Theory

set_option autoImplicit false

variable {α : Type}

/-- `lt` is a strict weak order on the elements of `l`: it is asymmetric there and
its incomparability is transitive. -/
structure StrictWeakOn (lt : α → α → Bool) (l : List α) : Prop where
  asymm : ∀ a ∈ l, ∀ b ∈ l, lt a b = true → lt b a = false
  negTrans : ∀ a ∈ l, ∀ b ∈ l, ∀ c ∈ l, lt a b = false → lt b c = false → lt a c = false

theorem StrictWeakOn.mono {lt : α → α → Bool} {l m : List α} (order : StrictWeakOn lt l)
    (sub : ∀ a ∈ m, a ∈ l) : StrictWeakOn lt m where
  asymm a ha b hb := order.asymm a (sub a ha) b (sub b hb)
  negTrans a ha b hb c hc := order.negTrans a (sub a ha) b (sub b hb) c (sub c hc)

/-- Comparing by a key in a linear order is a strict weak order on every list. -/
theorem strictWeakOn_of_key {K : Type} [LinearOrder K] (key : α → K) (l : List α) :
    StrictWeakOn (fun a b => decide (key a < key b)) l where
  asymm a _ b _ h := by
    simp only [decide_eq_true_eq, decide_eq_false_iff_not, not_lt] at h ⊢
    exact h.le
  negTrans a _ b _ c _ h h' := by
    simp only [decide_eq_false_iff_not, not_lt] at h h' ⊢
    exact h'.trans h

/-- Ascending: no element is strictly below one that comes before it. -/
def Ascending (lt : α → α → Bool) (l : List α) : Prop :=
  l.Pairwise fun a b => lt b a = false

/-- A standard library's heap algorithms and `std::sort`, with what the standard
promises.  The arguments are whole ranges: `pushHeap` takes the heap with the new
element at its back, `popHeap` leaves the removed maximum at the back. -/
structure StdAlgo : Type 1 where
  IsHeap : {α : Type} → (α → α → Bool) → List α → Prop
  pushHeap : {α : Type} → (α → α → Bool) → List α → List α
  popHeap : {α : Type} → (α → α → Bool) → List α → List α
  sortHeap : {α : Type} → (α → α → Bool) → List α → List α
  sort : {α : Type} → (α → α → Bool) → List α → List α
  isHeap_nil : ∀ {α : Type} (lt : α → α → Bool), IsHeap lt []
  isHeap_front : ∀ {α : Type} {lt : α → α → Bool} {x : α} {t : List α},
    StrictWeakOn lt (x :: t) → IsHeap lt (x :: t) → ∀ y ∈ t, lt x y = false
  pushHeap_perm : ∀ {α : Type} (lt : α → α → Bool) (h : List α), (pushHeap lt h).Perm h
  pushHeap_isHeap : ∀ {α : Type} {lt : α → α → Bool} {x : α} {h : List α},
    StrictWeakOn lt (h ++ [x]) → IsHeap lt h → IsHeap lt (pushHeap lt (h ++ [x]))
  popHeap_perm : ∀ {α : Type} (lt : α → α → Bool) (x : α) (t : List α),
    ∃ h, popHeap lt (x :: t) = h ++ [x] ∧ h.Perm t
  popHeap_isHeap : ∀ {α : Type} {lt : α → α → Bool} {x : α} {t : List α},
    StrictWeakOn lt (x :: t) → IsHeap lt (x :: t) → IsHeap lt (popHeap lt (x :: t)).dropLast
  sortHeap_perm : ∀ {α : Type} (lt : α → α → Bool) (h : List α), (sortHeap lt h).Perm h
  sortHeap_ascending : ∀ {α : Type} {lt : α → α → Bool} {h : List α},
    StrictWeakOn lt h → IsHeap lt h → Ascending lt (sortHeap lt h)
  sort_spec : ∀ {α : Type} {lt : α → α → Bool} {l : List α},
    StrictWeakOn lt l → Ascending lt (sort lt l) ∧ (sort lt l).Perm l

/-- Sorting by a key that tells the elements apart gives one answer, whatever order
they come in. -/
theorem StdAlgo.sort_eq_of_perm (std : StdAlgo) {K : Type} [LinearOrder K] (key : α → K)
    {l l' : List α} (perm : l.Perm l') (distinct : (l.map key).Nodup) :
    std.sort (fun a b => decide (key a < key b)) l =
      std.sort (fun a b => decide (key a < key b)) l' := by
  obtain ⟨ascending, sorted⟩ := std.sort_spec (strictWeakOn_of_key key l)
  obtain ⟨ascending', sorted'⟩ := std.sort_spec (strictWeakOn_of_key key l')
  refine List.Perm.eq_of_pairwise ?_ ascending ascending' (sorted.trans (perm.trans sorted'.symm))
  intro a b aIn bIn notAbove notBelow
  simp only [decide_eq_false_iff_not, not_lt] at notAbove notBelow
  have bIn' : b ∈ l := perm.symm.subset (sorted'.subset bIn)
  exact List.inj_on_of_nodup_map distinct (sorted.subset aIn) bIn' (le_antisymm notAbove notBelow)

/-! ## A heap of at most `k` elements -/

namespace StdAlgo

variable (std : StdAlgo) (lt : α → α → Bool)

/-- Offer `x` to a heap bounded by `k`: push it while there is room, else let it
replace the front if it is strictly below the front.  The flag says whether the
heap took `x`. -/
def addBounded (k : Nat) (x : α) (heap : List α) : List α × Bool :=
  if heap.length < k then (std.pushHeap lt (heap ++ [x]), true)
  else
    match heap with
    | [] => (heap, false)
    | front :: _ =>
        if lt x front then
          (std.pushHeap lt ((std.popHeap lt heap).dropLast ++ [x]), true)
        else (heap, false)

/-- `heap` holds the `k` smallest of `seen`: `seen` is the heap and the elements it
dropped, and no dropped element is strictly below one it kept. -/
structure Smallest (k : Nat) (seen heap : List α) : Prop where
  isHeap : std.IsHeap lt heap
  length_eq : heap.length = min k seen.length
  split : ∃ dropped, (heap ++ dropped).Perm seen ∧ ∀ d ∈ dropped, ∀ y ∈ heap, lt d y = false

theorem smallest_nil (k : Nat) : std.Smallest lt k [] [] where
  isHeap := std.isHeap_nil lt
  length_eq := by simp
  split := ⟨[], by simp⟩

variable {std lt}

theorem Smallest.mem_seen {k : Nat} {seen heap : List α} (small : std.Smallest lt k seen heap)
    {y : α} (mem : y ∈ heap) : y ∈ seen := by
  obtain ⟨dropped, perm, -⟩ := small.split
  exact perm.subset (List.mem_append_left _ mem)

section Offer

variable {k : Nat} {x : α} {seen heap : List α}

theorem strictWeakOn_offer {ys : List α} (order : StrictWeakOn lt (x :: seen))
    (inSeen : ∀ y ∈ ys, y ∈ x :: seen) : StrictWeakOn lt (ys ++ [x]) := by
  refine order.mono fun y hy => ?_
  rcases List.mem_append.1 hy with h | h
  · exact inSeen y h
  · rw [List.mem_singleton.1 h]
    exact List.mem_cons_self

theorem Smallest.inOrder (small : std.Smallest lt k seen heap) : ∀ y ∈ heap, y ∈ x :: seen :=
  fun _ mem => List.mem_cons_of_mem _ (small.mem_seen mem)

/-- While there is room nothing has been dropped, so nothing can be below what is pushed. -/
theorem Smallest.push (order : StrictWeakOn lt (x :: seen)) (small : std.Smallest lt k seen heap)
    (room : heap.length < k) :
    std.Smallest lt k (seen ++ [x]) (std.pushHeap lt (heap ++ [x])) := by
  obtain ⟨dropped, perm, -⟩ := small.split
  have sizes := small.length_eq
  have total : heap.length + dropped.length = seen.length := by
    simpa using perm.length_eq
  have none_dropped : dropped = [] := List.eq_nil_of_length_eq_zero (by omega)
  subst none_dropped
  have pushed := std.pushHeap_perm lt (heap ++ [x])
  have isHeap := std.pushHeap_isHeap (strictWeakOn_offer order small.inOrder) small.isHeap
  refine ⟨isHeap, ?_, [], ?_, by simp⟩
  · rw [pushed.length_eq]
    simp only [List.length_append, List.length_singleton]
    omega
  · rw [List.append_nil]
    exact pushed.trans (by simpa using perm.append_right [x])

/-- A full heap that keeps its elements drops one that is below none of them. -/
theorem Smallest.keep (small : std.Smallest lt k seen heap) (full : ¬ heap.length < k)
    (notBelow : ∀ y ∈ heap, lt x y = false) : std.Smallest lt k (seen ++ [x]) heap := by
  obtain ⟨dropped, perm, above⟩ := small.split
  have sizes := small.length_eq
  refine ⟨small.isHeap, ?_, dropped ++ [x], by simpa using perm.append_right [x], ?_⟩
  · rw [List.length_append, List.length_singleton]
    omega
  · intro d hd y hy
    rcases List.mem_append.1 hd with h | h
    · exact above d h y hy
    · rw [List.mem_singleton.1 h]
      exact notBelow y hy

/-- A full heap drops its front for one that is below it. -/
theorem Smallest.replace {front : α} {tail : List α} (order : StrictWeakOn lt (x :: seen))
    (small : std.Smallest lt k seen (front :: tail)) (full : ¬ (front :: tail).length < k)
    (below : lt x front = true) :
    std.Smallest lt k (seen ++ [x])
      (std.pushHeap lt ((std.popHeap lt (front :: tail)).dropLast ++ [x])) := by
  obtain ⟨dropped, perm, above⟩ := small.split
  have inSeen : ∀ y ∈ front :: tail, y ∈ x :: seen := small.inOrder
  have onHeap : StrictWeakOn lt (front :: tail) := order.mono inSeen
  have frontIn := inSeen front List.mem_cons_self
  have xIn : x ∈ x :: seen := List.mem_cons_self
  have frontMax := std.isHeap_front onHeap small.isHeap
  have sizes := small.length_eq
  obtain ⟨rest, popped, restPerm⟩ := std.popHeap_perm lt front tail
  have restHeap := std.popHeap_isHeap onHeap small.isHeap
  rw [popped, List.dropLast_concat] at restHeap
  have restIn : ∀ y ∈ rest, y ∈ x :: seen := fun y hy =>
    inSeen y (List.mem_cons_of_mem _ (restPerm.subset hy))
  have pushed := std.pushHeap_perm lt (rest ++ [x])
  have frontAboveX : lt front x = false := order.asymm x xIn front frontIn below
  rw [popped, List.dropLast_concat]
  have isHeap := std.pushHeap_isHeap (strictWeakOn_offer order restIn) restHeap
  refine ⟨isHeap, ?_, front :: dropped, ?_, ?_⟩
  · rw [pushed.length_eq]
    have := restPerm.length_eq
    simp only [List.length_append, List.length_cons, List.length_nil] at sizes full ⊢
    omega
  · calc std.pushHeap lt (rest ++ [x]) ++ front :: dropped
      _ |>.Perm ((tail ++ [x]) ++ front :: dropped) :=
          (pushed.trans (restPerm.append_right [x])).append_right _
      _ |>.Perm ((front :: tail) ++ dropped ++ [x]) := by
          classical
          rw [List.perm_iff_count]
          intro a
          simp only [List.count_append, List.count_cons]
          omega
      _ |>.Perm (seen ++ [x]) := perm.append_right [x]
  · intro d hd y hy
    have hy' : y ∈ tail ∨ y = x := by
      have := pushed.subset hy
      simp only [List.mem_append, List.mem_singleton] at this
      exact this.imp_left fun h => restPerm.subset h
    rcases List.mem_cons.1 hd with rfl | hd
    · rcases hy' with h | rfl
      · exact frontMax y h
      · exact frontAboveX
    · rcases hy' with h | rfl
      · exact above d hd y (List.mem_cons_of_mem _ h)
      · have dIn := List.mem_cons_of_mem y (perm.subset (List.mem_append_right _ hd))
        exact order.negTrans d dIn front frontIn _ xIn (above d hd front List.mem_cons_self)
          frontAboveX

end Offer

/-- **One offer keeps the `k` smallest.** -/
theorem addBounded_smallest {k : Nat} {x : α} {seen heap : List α}
    (order : StrictWeakOn lt (x :: seen)) (small : std.Smallest lt k seen heap) :
    std.Smallest lt k (seen ++ [x]) (std.addBounded lt k x heap).1 := by
  unfold addBounded
  split
  · next room => exact small.push order room
  · next full =>
      cases heap with
      | nil => exact small.keep full (by simp)
      | cons front tail =>
          have inSeen : ∀ y ∈ front :: tail, y ∈ x :: seen := small.inOrder
          have frontMax := std.isHeap_front (order.mono inSeen) small.isHeap
          dsimp only
          split
          · next below => exact small.replace order full below
          · next notBelow =>
              have aboveFront : lt x front = false := by simpa using notBelow
              refine small.keep full fun y hy => ?_
              rcases List.mem_cons.1 hy with rfl | mem
              · exact aboveFront
              · exact order.negTrans x List.mem_cons_self front (inSeen front List.mem_cons_self) y
                  (inSeen y hy) aboveFront (frontMax y mem)

/-- **A run of offers keeps the `k` smallest of everything offered.** -/
theorem foldl_addBounded_smallest {k : Nat} (xs : List α) {seen heap : List α}
    (order : StrictWeakOn lt (seen ++ xs)) (small : std.Smallest lt k seen heap) :
    std.Smallest lt k (seen ++ xs)
      (xs.foldl (fun heap x => (std.addBounded lt k x heap).1) heap) := by
  induction xs generalizing seen heap with
  | nil => simpa using small
  | cons x xs ih =>
      have step := addBounded_smallest (x := x) (order.mono (by
        intro y hy
        rcases List.mem_cons.1 hy with rfl | h
        · simp
        · exact List.mem_append_left _ h)) small
      have := @ih (seen ++ [x]) _ (by simpa using order) step
      simpa using this

/-- Whatever the comparison, an offer keeps elements or drops them. -/
theorem addBounded_perm (std : StdAlgo) (lt : α → α → Bool) (k : Nat) (x : α) (heap : List α) :
    ∃ dropped, ((std.addBounded lt k x heap).1 ++ dropped).Perm (heap ++ [x]) := by
  unfold addBounded
  split
  · exact ⟨[], by simpa using std.pushHeap_perm lt (heap ++ [x])⟩
  · cases heap with
    | nil => exact ⟨[x], .refl _⟩
    | cons front tail =>
        dsimp only
        split
        · obtain ⟨rest, popped, restPerm⟩ := std.popHeap_perm lt front tail
          refine ⟨[front], ?_⟩
          rw [popped, List.dropLast_concat]
          calc std.pushHeap lt (rest ++ [x]) ++ [front]
            _ |>.Perm ((tail ++ [x]) ++ [front]) :=
                ((std.pushHeap_perm lt _).trans (restPerm.append_right [x])).append_right _
            _ |>.Perm (front :: tail ++ [x]) := by
                simpa using @List.perm_append_comm _ (tail ++ [x]) [front]
        · exact ⟨[x], .refl _⟩

theorem foldl_addBounded_perm (std : StdAlgo) (lt : α → α → Bool) (k : Nat) (xs heap : List α) :
    ∃ dropped, ((xs.foldl (fun heap x => (std.addBounded lt k x heap).1) heap) ++ dropped).Perm
      (heap ++ xs) := by
  induction xs generalizing heap with
  | nil => exact ⟨[], by simp⟩
  | cons x xs ih =>
      obtain ⟨first, perm⟩ := addBounded_perm std lt k x heap
      obtain ⟨later, perm'⟩ := ih (std.addBounded lt k x heap).1
      refine ⟨later ++ first, ?_⟩
      calc xs.foldl (fun heap x => (std.addBounded lt k x heap).1)
            (std.addBounded lt k x heap).1 ++ (later ++ first)
        _ |>.Perm ((std.addBounded lt k x heap).1 ++ xs ++ first) := by
            rw [← List.append_assoc]
            exact perm'.append_right first
        _ |>.Perm ((std.addBounded lt k x heap).1 ++ first ++ xs) := by
            rw [List.append_assoc, List.append_assoc]
            exact List.perm_append_comm.append_left _
        _ |>.Perm (heap ++ [x] ++ xs) := perm.append_right xs
        _ |>.Perm (heap ++ x :: xs) := by simp

end StdAlgo

/-! ## One library that keeps the promises

Insertion sort, and heaps kept in descending order. -/

/-- Insert before the first element that `x` is strictly below. -/
def insertAscending (lt : α → α → Bool) (x : α) : List α → List α
  | [] => [x]
  | y :: rest => if lt x y then x :: y :: rest else y :: insertAscending lt x rest

def sortAscending (lt : α → α → Bool) : List α → List α
  | [] => []
  | x :: rest => insertAscending lt x (sortAscending lt rest)

theorem insertAscending_perm (lt : α → α → Bool) (x : α) :
    ∀ l : List α, (insertAscending lt x l).Perm (x :: l)
  | [] => .refl _
  | y :: rest => by
      unfold insertAscending
      split
      · exact .refl _
      · exact ((insertAscending_perm lt x rest).cons y).trans (.swap x y rest)

theorem sortAscending_perm (lt : α → α → Bool) : ∀ l : List α, (sortAscending lt l).Perm l
  | [] => .refl _
  | x :: rest =>
      (insertAscending_perm lt x _).trans ((sortAscending_perm lt rest).cons x)

theorem insertAscending_ascending {lt : α → α → Bool} {x : α} :
    ∀ {l : List α}, StrictWeakOn lt (x :: l) → Ascending lt l →
      Ascending lt (insertAscending lt x l)
  | [], _, _ => by simp [insertAscending, Ascending]
  | y :: rest, order, sorted => by
      have xIn : x ∈ x :: y :: rest := List.mem_cons_self
      have yIn : y ∈ x :: y :: rest := by simp
      obtain ⟨yBelow, restSorted⟩ := List.pairwise_cons.1 sorted
      unfold insertAscending
      split
      · rename_i below
        have yAbove := order.asymm x xIn y yIn below
        refine List.pairwise_cons.2 ⟨fun z mem => ?_, sorted⟩
        rcases List.mem_cons.1 mem with rfl | inRest
        · exact yAbove
        · exact order.negTrans z (by simp [inRest]) y yIn x xIn (yBelow z inRest) yAbove
      · rename_i notBelow
        refine List.pairwise_cons.2 ⟨fun z mem => ?_,
          insertAscending_ascending (order.mono (by simp +contextual)) restSorted⟩
        rcases List.mem_cons.1 ((insertAscending_perm lt x rest).subset mem) with rfl | inRest
        · simpa using notBelow
        · exact yBelow z inRest

theorem sortAscending_ascending {lt : α → α → Bool} :
    ∀ {l : List α}, StrictWeakOn lt l → Ascending lt (sortAscending lt l)
  | [], _ => List.Pairwise.nil
  | x :: rest, order => by
      have sorted := sortAscending_ascending (order.mono (by simp +contextual) :
        StrictWeakOn lt rest)
      refine insertAscending_ascending (order.mono fun y mem => ?_) sorted
      rcases List.mem_cons.1 mem with rfl | h
      · exact List.mem_cons_self
      · exact List.mem_cons_of_mem _ ((sortAscending_perm lt rest).subset h)

/-- The reference library. -/
def StdAlgo.reference : StdAlgo where
  IsHeap lt h := h.Pairwise fun a b => lt a b = false
  pushHeap lt v := (sortAscending lt v).reverse
  popHeap _ v := v.drop 1 ++ v.take 1
  sortHeap := sortAscending
  sort := sortAscending
  isHeap_nil _ := List.Pairwise.nil
  isHeap_front _ isHeap := (List.pairwise_cons.1 isHeap).1
  pushHeap_perm _ _ := (List.reverse_perm _).trans (sortAscending_perm _ _)
  pushHeap_isHeap order _ := List.pairwise_reverse.2 (sortAscending_ascending order)
  popHeap_perm _ _ t := ⟨t, rfl, .refl _⟩
  popHeap_isHeap _ isHeap := by
    simpa using (List.pairwise_cons.1 isHeap).2
  sortHeap_perm := sortAscending_perm
  sortHeap_ascending order _ := sortAscending_ascending order
  sort_spec order := ⟨sortAscending_ascending order, sortAscending_perm _ _⟩

end VecFetch.Theory
