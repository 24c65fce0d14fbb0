/-
# Theory.Buckets -- items pushed into buckets

Items `0 … n - 1` are pushed one after the other, each at the end of its bucket.  An item whose
bucket does not exist stops the loop.  Where it comes to its end, a bucket has its items in
ascending order (`pushAll_eq`), and every item stands at one place of one bucket
(`exists_place`).
-/
import Mathlib.Data.List.Basic
import Mathlib.Data.List.Nodup
import Mathlib.Data.List.Perm.Basic

namespace VecFetch.Theory

set_option autoImplicit false

variable (assign : ℕ → Option ℕ)

/-- Pushes an item into its bucket, if there is one. -/
def pushItem (buckets : List (List ℕ)) (i : ℕ) : Option (List (List ℕ)) :=
  (assign i).bind fun a =>
    if a < buckets.length then some (buckets.modify a fun bucket => bucket ++ [i]) else none

/-- The loop over `n` items, from `m` empty buckets. -/
def pushAll (m n : ℕ) : Option (List (List ℕ)) :=
  (List.range n).foldlM (pushItem assign) (List.replicate m [])

/-- The items of a bucket, ascending. -/
def itemsOf (n s : ℕ) : List ℕ := (List.range n).filter fun i => assign i = some s

variable {assign}

theorem mem_itemsOf {n s i : ℕ} : i ∈ itemsOf assign n s ↔ i < n ∧ assign i = some s := by
  rw [itemsOf, List.mem_filter, List.mem_range, decide_eq_true_iff]

theorem itemsOf_succ (n s : ℕ) : itemsOf assign (n + 1) s =
    if assign n = some s then itemsOf assign n s ++ [n] else itemsOf assign n s := by
  rw [itemsOf, itemsOf, List.range_succ, List.filter_append, List.filter_singleton]
  split <;> simp_all

theorem itemsOf_length_le (n s : ℕ) : (itemsOf assign n s).length ≤ n := by
  have most := List.length_filter_le (fun i => decide (assign i = some s)) (List.range n)
  rwa [List.length_range] at most

/-- One item, pushed behind the items before it. -/
theorem pushItem_itemsOf {m n : ℕ} {buckets : List (List ℕ)} :
    pushItem assign ((List.range m).map (itemsOf assign n)) n = some buckets ↔
      (∃ a, assign n = some a ∧ a < m) ∧ buckets = (List.range m).map (itemsOf assign (n + 1)) := by
  cases there : assign n with
  | none => simp [pushItem, there]
  | some a =>
      have pushed : (((List.range m).map (itemsOf assign n)).modify a fun bucket => bucket ++ [n]) =
          (List.range m).map (itemsOf assign (n + 1)) := by
        refine List.ext_getElem (by simp) fun s below below' => ?_
        rw [List.getElem_modify, List.getElem_map, List.getElem_map, List.getElem_range,
          itemsOf_succ, there]
        simp only [Option.some.injEq]
      rw [pushItem, there, Option.bind_some, List.length_map, List.length_range]
      by_cases below : a < m
      · rw [if_pos below, Option.some.injEq, pushed]
        exact ⟨fun same => ⟨⟨a, rfl, below⟩, same.symm⟩, fun same => same.2.symm⟩
      · rw [if_neg below]
        refine ⟨fun none => (by cases none), ?_⟩
        rintro ⟨⟨b, same, inside⟩, -⟩
        exact absurd (Option.some.inj same ▸ inside) below

/-- **The buckets that the loop leaves**: every item has one, and each holds its own. -/
theorem pushAll_eq {m n : ℕ} {buckets : List (List ℕ)} :
    pushAll assign m n = some buckets ↔
      (∀ i, i < n → ∃ a, assign i = some a ∧ a < m) ∧
        buckets = (List.range m).map (itemsOf assign n) := by
  induction n generalizing buckets with
  | zero =>
      have empty : List.replicate m [] = (List.range m).map (itemsOf assign 0) := by
        refine (List.eq_replicate_iff.2 ⟨by simp, fun bucket mem => ?_⟩).symm
        obtain ⟨s, -, rfl⟩ := List.mem_map.1 mem
        rfl
      rw [pushAll, List.range_zero, List.foldlM_nil, empty]
      exact ⟨fun same =>
          ⟨fun i none => absurd none (Nat.not_lt_zero i), (Option.some.inj same).symm⟩,
        fun same => congrArg some same.2.symm⟩
  | succ n ih =>
      rw [pushAll, List.range_succ, List.foldlM_append]
      constructor
      · intro ran
        obtain ⟨before, first, last⟩ := Option.bind_eq_some_iff.1 ran
        obtain ⟨each, rfl⟩ := ih.1 first
        obtain ⟨after, pushed, same⟩ := Option.bind_eq_some_iff.1 last
        obtain rfl := Option.some.inj same
        obtain ⟨here, rfl⟩ := pushItem_itemsOf.1 pushed
        refine ⟨fun i below => ?_, rfl⟩
        rcases Nat.lt_succ_iff_lt_or_eq.1 below with before | rfl
        · exact each i before
        · exact here
      · rintro ⟨each, rfl⟩
        have first : pushAll assign m n = some ((List.range m).map (itemsOf assign n)) :=
          ih.2 ⟨fun i below => each i (Nat.lt_succ_of_lt below), rfl⟩
        have last := pushItem_itemsOf.2 ⟨each n (Nat.lt_succ_self n), rfl⟩
        rw [pushAll] at first
        show ((List.range n).foldlM (pushItem assign) (List.replicate m [])).bind _ = _
        rw [first, Option.bind_some, List.foldlM_cons, last]
        rfl

/-- Every item stands in its bucket. -/
theorem exists_place {n i a : ℕ} (below : i < n) (there : assign i = some a) :
    ∃ p : ℕ, (itemsOf assign n a)[p]? = some i :=
  List.mem_iff_getElem?.1 (mem_itemsOf.2 ⟨below, there⟩)

/-- Different buckets have different items, each once. -/
theorem itemsOf_nodup {ss : List ℕ} (distinct : ss.Nodup) (n : ℕ) :
    (ss.flatMap (itemsOf assign n)).Nodup := by
  rw [List.nodup_flatMap]
  refine ⟨fun s _ => List.nodup_range.filter _, ?_⟩
  refine distinct.imp fun {s t} apart => ?_
  refine List.disjoint_left.2 fun i inS inT => ?_
  have same := (mem_itemsOf.1 inS).2.symm.trans (mem_itemsOf.1 inT).2
  exact apart (Option.some.inj same)

/-- The buckets together hold every item once. -/
theorem itemsOf_perm {m n : ℕ} (each : ∀ i, i < n → ∃ a, assign i = some a ∧ a < m) :
    ((List.range m).flatMap (itemsOf assign n)).Perm (List.range n) := by
  rw [List.perm_ext_iff_of_nodup (itemsOf_nodup List.nodup_range n) List.nodup_range]
  intro i
  rw [List.mem_flatMap, List.mem_range]
  constructor
  · rintro ⟨s, -, mem⟩
    exact (mem_itemsOf.1 mem).1
  · intro below
    obtain ⟨a, there, inside⟩ := each i below
    exact ⟨a, List.mem_range.2 inside, mem_itemsOf.2 ⟨below, there⟩⟩

end VecFetch.Theory
