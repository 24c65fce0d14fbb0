/-
# Theory.CountingSort -- buckets by counting

Items `0 … n - 1` go to buckets: the bucket sizes are counted, summed up to offsets, and
each item is written at its bucket's cursor.  The items of a bucket then stand together, in
ascending order (`placed_bucket`), and the buckets together hold every item once
(`buckets_perm`).
-/
import Mathlib.Algebra.BigOperators.Group.Finset.Basic
import Mathlib.Algebra.Order.BigOperators.Group.Finset
import Mathlib.Data.List.Perm.Basic
import Mathlib.Data.List.GetD

namespace VecFetch.Theory

set_option autoImplicit false

/-- The elements with a key below `n`, taken key by key. -/
theorem flatMap_filter_perm {α : Type} (key : α → Nat) (l : List α) : ∀ n : Nat,
    ((List.range n).flatMap fun i => l.filter fun x => decide (key x = i)).Perm
      (l.filter fun x => decide (key x < n))
  | 0 => by simp
  | n + 1 => by
      rw [List.range_succ, List.flatMap_append]
      have split : (l.filter fun x => decide (key x < n + 1)).Perm
          ((l.filter fun x => decide (key x < n)) ++ l.filter fun x => decide (key x = n)) := by
        have := (List.filter_append_perm (fun x => decide (key x < n))
          (l.filter fun x => decide (key x < n + 1))).symm
        rw [List.filter_filter, List.filter_filter] at this
        refine this.trans (.of_eq ?_)
        congr 1
        · refine List.filter_congr fun x _ => ?_
          by_cases below : key x < n
          · simp [below, Nat.lt_succ_of_lt below]
          · simp [below]
        · refine List.filter_congr fun x _ => ?_
          rw [Bool.eq_iff_iff]
          simp only [Bool.and_eq_true, Bool.not_eq_true', decide_eq_true_eq, decide_eq_false_iff_not]
          omega
      refine ((flatMap_filter_perm key l n).append ?_).trans split.symm
      simp

namespace CountingSort

open Finset

variable (assign : ℕ → ℕ)

/-- The items of a bucket, ascending. -/
def bucket (n s : ℕ) : List ℕ := (List.range n).filter fun c => assign c = s

/-- Entry `s + 1` counts bucket `s`. -/
def counts (n : ℕ) : ℕ → ℕ :=
  (List.range n).foldl
    (fun offsets c => Function.update offsets (assign c + 1) (offsets (assign c + 1) + 1)) fun _ => 0

/-- Each entry adds the one before it. -/
def prefixSums (m : ℕ) (offsets : ℕ → ℕ) : ℕ → ℕ :=
  (List.range m).foldl
    (fun offsets s => Function.update offsets (s + 1) (offsets (s + 1) + offsets s)) offsets

/-- Each item is written at its bucket's cursor. -/
def place (n : ℕ) (offsets : ℕ → ℕ) : (ℕ → ℕ) × (ℕ → ℕ) :=
  (List.range n).foldl
    (fun st c => (Function.update st.1 (assign c) (st.1 (assign c) + 1),
      Function.update st.2 (st.1 (assign c)) c))
    (offsets, fun _ => 0)

/-- Where a bucket starts. -/
def bucketStart (n s : ℕ) : ℕ := ∑ t ∈ range s, (bucket assign n t).length

variable {assign}

theorem bucket_succ (n s : ℕ) :
    bucket assign (n + 1) s = bucket assign n s ++ if assign n = s then [n] else [] := by
  rw [bucket, List.range_succ, List.filter_append, ← bucket]
  congr 1
  by_cases here : assign n = s
  · simp [here]
  · simp [here]

variable (assign) in
theorem bucket_length_mono {n n' : ℕ} (le : n ≤ n') (s : ℕ) :
    (bucket assign n s).length ≤ (bucket assign n' s).length := by
  induction le with
  | refl => exact le_rfl
  | step _ ih =>
      rw [bucket_succ, List.length_append]
      omega

theorem counts_eq (n s : ℕ) :
    counts assign n (s + 1) = (bucket assign n s).length ∧ counts assign n 0 = 0 := by
  induction n with
  | zero => exact ⟨rfl, rfl⟩
  | succ n ih =>
      rw [counts, List.range_succ, List.foldl_append, List.foldl_cons, List.foldl_nil, ← counts]
      refine ⟨?_, ?_⟩
      · rw [bucket_succ, List.length_append]
        by_cases here : assign n = s
        · rw [if_pos here, here, Function.update_self, ih.1]
          rfl
        · rw [if_neg here, Function.update_of_ne (by omega), ih.1]
          rfl
      · rw [Function.update_of_ne (by omega), ih.2]

theorem prefixSums_eq (offsets : ℕ → ℕ) (m s : ℕ) :
    prefixSums m offsets s = if s ≤ m then ∑ t ∈ range (s + 1), offsets t else offsets s := by
  induction m generalizing s with
  | zero =>
      rcases Nat.eq_zero_or_pos s with rfl | positive
      · simp [prefixSums]
      · rw [if_neg (by omega)]
        rfl
  | succ m ih =>
      rw [prefixSums, List.range_succ, List.foldl_append, List.foldl_cons, List.foldl_nil,
        ← prefixSums]
      by_cases last : s = m + 1
      · rw [last, Function.update_self, ih, ih, if_neg (by omega), if_pos le_rfl, if_pos le_rfl,
          sum_range_succ _ (m + 1), add_comm]
      · rw [Function.update_of_ne last, ih]
        by_cases before : s ≤ m
        · rw [if_pos before, if_pos (by omega)]
        · rw [if_neg before, if_neg (by omega)]

/-- The summed counts are where the buckets start. -/
theorem prefixSums_counts (n : ℕ) {m s : ℕ} (inside : s ≤ m) :
    prefixSums m (counts assign n) s = bucketStart assign n s := by
  rw [prefixSums_eq, if_pos inside, sum_range_succ', (counts_eq n 0).2, add_zero, bucketStart]
  exact sum_congr rfl fun t _ => (counts_eq n t).1

variable (assign) in
theorem bucketStart_succ (n s : ℕ) :
    bucketStart assign n (s + 1) = bucketStart assign n s + (bucket assign n s).length :=
  sum_range_succ _ s

variable (assign) in
theorem bucketStart_mono (n : ℕ) {s t : ℕ} (le : s ≤ t) :
    bucketStart assign n s ≤ bucketStart assign n t :=
  sum_le_sum_of_subset (range_mono le)

variable (assign) in
/-- Cursors and items, after the first `k` items. -/
structure Placed (n k : ℕ) (offsets : ℕ → ℕ) (st : (ℕ → ℕ) × (ℕ → ℕ)) : Prop where
  cursors : ∀ c, c < n → st.1 (assign c) = offsets (assign c) + (bucket assign k (assign c)).length
  items : ∀ s i, i < (bucket assign k s).length → st.2 (bucketStart assign n s + i) =
    (bucket assign k s).getD i 0

theorem place_spec {n : ℕ} {offsets : ℕ → ℕ}
    (starts : ∀ c, c < n → offsets (assign c) = bucketStart assign n (assign c)) {k : ℕ}
    (within : k ≤ n) : Placed assign n k offsets (place assign k offsets) := by
  induction k with
  | zero => exact ⟨fun c _ => rfl, fun s i none => absurd none (Nat.not_lt_zero i)⟩
  | succ k ih =>
      obtain ⟨cursors, items⟩ := ih (by omega)
      have cursor := cursors k within
      rw [starts k within] at cursor
      have grown : (bucket assign (k + 1) (assign k)).length =
          (bucket assign k (assign k)).length + 1 := by
        rw [bucket_succ, if_pos rfl, List.length_append, List.length_singleton]
      rw [place, List.range_succ, List.foldl_append, List.foldl_cons, List.foldl_nil, ← place]
      refine ⟨fun c inside => ?_, fun s i inside => ?_⟩
      · dsimp only
        by_cases here : assign c = assign k
        · rw [here, Function.update_self, grown, cursors k within, Nat.add_assoc]
        · rw [Function.update_of_ne here, cursors c inside, bucket_succ,
            if_neg fun same => here same.symm, List.append_nil]
      · dsimp only
        rw [cursor]
        by_cases here : assign k = s
        · rw [← here] at inside ⊢
          rw [bucket_succ, if_pos rfl]
          by_cases last : i = (bucket assign k (assign k)).length
          · rw [last, Function.update_self, List.getD_append_right _ _ _ _ le_rfl, Nat.sub_self]
            rfl
          · rw [Function.update_of_ne (by omega), items _ i (by omega),
              List.getD_append _ _ _ _ (by omega)]
        · rw [bucket_succ, if_neg here, List.append_nil] at inside ⊢
          -- Another bucket's items end before this one starts, or start after it ends.
          have full := bucket_length_mono assign (show k ≤ n by omega) s
          have full' := bucket_length_mono assign within (assign k)
          have next := bucketStart_succ assign n s
          have next' := bucketStart_succ assign n (assign k)
          rw [Function.update_of_ne, items s i inside]
          rcases Nat.lt_or_gt_of_ne here with before | after
          · have order := bucketStart_mono assign n (Nat.succ_le_of_lt before)
            rw [Nat.succ_eq_add_one] at order
            omega
          · have order := bucketStart_mono assign n (Nat.succ_le_of_lt after)
            rw [Nat.succ_eq_add_one] at order
            omega

/-- **The items of a bucket stand together**, in ascending order, from its offset on. -/
theorem placed_bucket {n m : ℕ} (below : ∀ c, c < n → assign c < m) {s : ℕ} (inside : s < m) :
    (List.range (prefixSums m (counts assign n) (s + 1) - prefixSums m (counts assign n) s)).map
      (fun i => (place assign n (prefixSums m (counts assign n))).2
        (prefixSums m (counts assign n) s + i)) = bucket assign n s := by
  have placed : Placed assign n n (prefixSums m (counts assign n))
      (place assign n (prefixSums m (counts assign n))) :=
    place_spec (fun c item => prefixSums_counts n (below c item).le) le_rfl
  rw [prefixSums_counts n inside.le, prefixSums_counts n inside, bucketStart_succ,
    Nat.add_sub_cancel_left]
  refine List.ext_getElem (by simp) fun i one two => ?_
  rw [List.getElem_map, List.getElem_range, placed.items s i two, List.getD_eq_getElem _ _ two]

/-- **The buckets hold every item once.** -/
theorem buckets_perm {n m : ℕ} (below : ∀ c, c < n → assign c < m) :
    ((List.range m).flatMap (bucket assign n)).Perm (List.range n) := by
  refine (flatMap_filter_perm assign (List.range n) m).trans (.of_eq ?_)
  exact List.filter_eq_self.2 fun c item => decide_eq_true (below c (List.mem_range.1 item))

theorem bucketStart_eq (n m : ℕ) :
    bucketStart assign n m = ((List.range m).flatMap (bucket assign n)).length := by
  induction m with
  | zero => rfl
  | succ m ih =>
      rw [bucketStart_succ, ih, List.range_succ, List.flatMap_append, List.length_append]
      simp

theorem bucketStart_total {n m : ℕ} (below : ∀ c, c < n → assign c < m) :
    bucketStart assign n m = n := by
  rw [bucketStart_eq, (buckets_perm below).length_eq, List.length_range]

end CountingSort

end VecFetch.Theory
