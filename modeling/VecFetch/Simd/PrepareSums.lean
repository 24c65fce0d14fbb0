/-
# Simd.PrepareSums -- the sum and the largest entry

`SimdNormalizeSignSumMaxAbs` adds up and compares in the lanes of its registers, and goes on with
the entries that are left.  Whatever the lanes, the sum is that of the normalised vector, and the
largest absolute value is an upper bound of its entries and one of them.
-/
import VecFetch.Simd.PrepareQuery

namespace VecFetch.Simd

open VecFetch.Theory VecFetch.Rabitq Finset

set_option autoImplicit false

variable {K : Type} [Field K] [LinearOrder K]

/-! ## The largest -/

omit [Field K] in
/-- A reduction over lanes gives one of them, and none is larger. -/
theorem reduce_stdMax (f : ℕ → K) (n : ℕ) :
    let m := (List.range n).foldl (fun m k => stdMax m (f (k + 1))) (f 0)
    (∀ k, k ≤ n → f k ≤ m) ∧ ∃ k, k ≤ n ∧ m = f k := by
  intro m
  induction n with
  | zero => exact ⟨fun k le => (congrArg f (Nat.le_zero.1 le)).le, 0, le_rfl, rfl⟩
  | succ n ih =>
      have step : m = stdMax ((List.range n).foldl (fun m k => stdMax m (f (k + 1))) (f 0))
          (f (n + 1)) := by
        change (List.range (n + 1)).foldl _ _ = _
        rw [List.range_succ, List.foldl_append, List.foldl_cons, List.foldl_nil]
      obtain ⟨above, k, le, same⟩ := ih
      rw [stdMax_eq] at step
      refine ⟨fun j le' => ?_, ?_⟩
      · rw [step]
        rcases Nat.le_or_eq_of_le_succ le' with before | rfl
        · exact (above j before).trans (le_max_left _ _)
        · exact le_max_right _ _
      · rcases max_choice ((List.range n).foldl (fun m k => stdMax m (f (k + 1))) (f 0))
          (f (n + 1)) with old | new
        · exact ⟨k, Nat.le_succ_of_le le, step.trans (old.trans same)⟩
        · exact ⟨n + 1, le_rfl, step.trans new⟩

/-- An upper bound of the first entries that is one of them, or zero. -/
structure IsMaxAbs (v : ℕ → K) (n : ℕ) (m : K) : Prop where
  above : ∀ d, d < n → |v d| ≤ m
  attained : m = 0 ∨ ∃ d, d < n ∧ m = |v d|

theorem IsMaxAbs.succ {v : ℕ → K} {n : ℕ} {m : K} (isMax : IsMaxAbs v n m) :
    IsMaxAbs v (n + 1) (stdMax m |v n|) := by
  rw [stdMax_eq]
  refine ⟨fun d below => ?_, ?_⟩
  · rcases Nat.lt_succ_iff_lt_or_eq.1 below with before | rfl
    · exact (isMax.above d before).trans (le_max_left _ _)
    · exact le_max_right _ _
  · rcases max_choice m |v n| with old | new
    · rw [old]
      refine isMax.attained.imp_right fun ⟨d, below, same⟩ => ⟨d, Nat.lt_succ_of_lt below, same⟩
    · exact .inr ⟨n, Nat.lt_succ_self n, new⟩

/-! ## The registers -/

section Registers

variable {vec : ℕ → K} {invNorm : K} {lanes numWords : ℕ}

/-- What the lanes hold after the first entries. -/
structure LanesReduce (vec : ℕ → K) (invNorm : K) (lanes n : ℕ) (st : SignLanes K) : Prop where
  rest : ∀ d, n ≤ d → st.vec d = vec d
  sum : ∑ lane ∈ range lanes, st.sum lane = ∑ d ∈ range n, vec d * invNorm
  above : ∀ d, d < n → ∃ lane, lane < lanes ∧ |vec d * invNorm| ≤ st.max lane
  attained : ∀ lane, lane < lanes →
    st.max lane = 0 ∨ ∃ d, d < n ∧ st.max lane = |vec d * invNorm|

theorem signRegister_reduce {c : ℕ} {st st' : SignLanes K}
    (run : signRegister lanes numWords invNorm c st = some st')
    (holds : LanesReduce vec invNorm lanes (lanes * c) st) :
    LanesReduce vec invNorm lanes (lanes * (c + 1)) st' := by
  obtain ⟨stored, -, mapped⟩ := Option.bind_eq_some_iff.1 run
  obtain ⟨words, -, rfl⟩ := Option.map_eq_some_iff.1 mapped
  have lane : ∀ l, st.vec (lanes * c + l) = vec (lanes * c + l) := fun l =>
    holds.rest _ (Nat.le_add_right _ l)
  rw [Nat.mul_succ]
  refine ⟨fun d past => ?_, ?_, fun d below => ?_, fun l inside => ?_⟩
  · dsimp only
    rw [if_neg (by omega)]
    exact holds.rest d (by omega)
  · dsimp only
    rw [sum_add_distrib, holds.sum, sum_range_add]
    congr 1
    exact sum_congr rfl fun l _ => by rw [lane]
  · have grown : ∀ l, |st.vec (lanes * c + l) * invNorm| ≤
        stdMax |st.vec (lanes * c + l) * invNorm| (st.max l) ∧
        st.max l ≤ stdMax |st.vec (lanes * c + l) * invNorm| (st.max l) := fun l => by
      rw [stdMax_eq]
      exact ⟨le_max_left _ _, le_max_right _ _⟩
    by_cases before : d < lanes * c
    · obtain ⟨l, inside, le⟩ := holds.above d before
      exact ⟨l, inside, le.trans (grown l).2⟩
    · refine ⟨d - lanes * c, by omega, ?_⟩
      have here : vec d = st.vec (lanes * c + (d - lanes * c)) := by
        rw [lane, Nat.add_sub_cancel' (not_lt.1 before)]
      exact (congrArg (fun x => |x * invNorm|) here).le.trans (grown _).1
  · have chosen := max_choice |st.vec (lanes * c + l) * invNorm| (st.max l)
    rw [← stdMax_eq] at chosen
    rcases chosen with new | old
    · exact .inr ⟨lanes * c + l, by omega, new.trans (congrArg (fun x => |x * invNorm|) (lane l))⟩
    · exact (holds.attained l inside).imp old.trans fun ⟨d, below, same⟩ =>
        ⟨d, by omega, old.trans same⟩

/-- What the entries done one by one have summed. -/
structure EntriesReduce (vec : ℕ → K) (invNorm : K) (n : ℕ) (st : NormalizeSignSum K) : Prop where
  rest : ∀ d, n ≤ d → st.vec d = vec d
  sum : st.sum = ∑ d ∈ range n, vec d * invNorm
  isMax : IsMaxAbs (fun d => vec d * invNorm) n st.maxAbs

theorem signEntry_reduce {first k : ℕ} {st st' : NormalizeSignSum K}
    (run : signEntry invNorm first k st = some st')
    (holds : EntriesReduce vec invNorm (first + k) st) :
    EntriesReduce vec invNorm (first + (k + 1)) st' := by
  obtain ⟨stored, -, mapped⟩ := Option.bind_eq_some_iff.1 run
  obtain ⟨words, -, rfl⟩ := Option.map_eq_some_iff.1 mapped
  have here := holds.rest (first + k) le_rfl
  rw [← Nat.add_assoc]
  refine ⟨fun d past => ?_, ?_, ?_⟩
  · dsimp only
    rw [Function.update_of_ne (by omega)]
    exact holds.rest d (by omega)
  · dsimp only
    rw [here, holds.sum, sum_range_succ]
  · dsimp only
    rw [here]
    exact holds.isMax.succ

/-- The lanes reduced. -/
theorem LanesReduce.reduce {n : ℕ} {st : SignLanes K} (positive : 0 < lanes)
    (holds : LanesReduce vec invNorm lanes n st) :
    EntriesReduce vec invNorm n (st.reduce lanes) := by
  obtain ⟨above, lane, inside, same⟩ := reduce_stdMax st.max (lanes - 1)
  refine ⟨holds.rest, (sumTo_eq _ _).trans holds.sum, fun d below => ?_, ?_⟩
  · obtain ⟨l, inside', le⟩ := holds.above d below
    exact le.trans (above l (by omega))
  · change (List.range (lanes - 1)).foldl _ _ = 0 ∨ ∃ d, d < n ∧
      (List.range (lanes - 1)).foldl _ _ = _
    rw [same]
    exact holds.attained lane (by omega)

end Registers

/-! ## The call -/

/-- **The call sums the normalised vector and finds its largest entry.** -/
theorem simdNormalizeSignSumMaxAbs_reduce {build : Build} {vec : ℕ → K} {invNorm : K}
    {words : List UInt64} {numWords dim : UInt32} {out : NormalizeSignSum K}
    (run : simdNormalizeSignSumMaxAbs build vec invNorm words numWords dim = some out) :
    out.sum = ∑ d ∈ range dim.toNat, vec d * invNorm ∧
      IsMaxAbs (fun d => vec d * invNorm) dim.toNat out.maxAbs := by
  obtain ⟨start, -, loops⟩ := Option.bind_eq_some_iff.1 run
  have entries : ∀ {first : ℕ} {st : NormalizeSignSum K}, first ≤ dim.toNat →
      EntriesReduce vec invNorm first st →
      forRange (signEntry invNorm first) (dim.toNat - first) st = some out →
      EntriesReduce vec invNorm dim.toNat out := by
    intro first st le holds run
    have done := forRange_kept (fun k st => EntriesReduce vec invNorm (first + k) st) holds
      (fun _ _ _ _ holds run => signEntry_reduce run holds) run
    rwa [Nat.add_sub_cancel' le] at done
  have done : EntriesReduce vec invNorm dim.toNat out := by
    by_cases scalar : build = .scalar
    · subst scalar
      refine entries (Nat.zero_le _) ⟨fun _ _ => rfl, rfl, fun d below => ?_, .inl rfl⟩ loops
      exact absurd below (Nat.not_lt_zero d)
    · have turned : ∃ turns, FusedLut.registerTurns (FusedLut.registerLanes build) dim = some turns ∧
          ∃ st, forRange (signRegister (FusedLut.registerLanes build) numWords.toNat invNorm) turns
            { vec := vec, sum := fun _ => 0, max := fun _ => 0, words := start } = some st ∧
          forRange (signEntry invNorm (FusedLut.registerLanes build * turns))
            (dim.toNat - FusedLut.registerLanes build * turns)
            (st.reduce (FusedLut.registerLanes build)) = some out := by
        cases build with
        | scalar => exact absurd rfl scalar
        | avx2 =>
            obtain ⟨turns, ends, rest⟩ := Option.bind_eq_some_iff.1 loops
            exact ⟨turns, ends, Option.bind_eq_some_iff.1 rest⟩
        | avx512 =>
            obtain ⟨turns, ends, rest⟩ := Option.bind_eq_some_iff.1 loops
            exact ⟨turns, ends, Option.bind_eq_some_iff.1 rest⟩
      obtain ⟨turns, ends, st, registers, rest⟩ := turned
      have inside : FusedLut.registerLanes build * turns ≤ dim.toNat := by
        rw [FusedLut.registerTurns] at ends
        split at ends
        · obtain rfl := Option.some.inj ends
          exact Nat.mul_div_le _ _
        · cases ends
      have fresh : LanesReduce vec invNorm (FusedLut.registerLanes build)
          (FusedLut.registerLanes build * 0)
          { vec := vec, sum := fun _ => 0, max := fun _ => 0, words := start } := by
        refine ⟨fun _ _ => rfl, ?_, fun d below => absurd below (Nat.not_lt_zero d), fun _ _ =>
          .inl rfl⟩
        rw [sum_const_zero]
        rfl
      have lanes := forRange_kept (fun c st => LanesReduce vec invNorm (FusedLut.registerLanes build)
        (FusedLut.registerLanes build * c) st) fresh
        (fun _ _ _ _ holds run => signRegister_reduce run holds) registers
      exact entries inside (lanes.reduce (lanes_pos build).1) rest
  exact ⟨done.sum, done.isMax⟩

end VecFetch.Simd
