/-
# Rabitq.RescaleOptimal -- what the rescale search finds

Of the codes that the search tries, the least of the best is the one whose scale it returns,
whatever it does at ties, unless the code it starts from is better than all (`exists_reached`):
the cosine of that one it never takes (`not_rescale_optimal`).  Where the code it found is as good
as all of the interval, and the quantiser's `kEps` brings no other change forward at its scale, the
factor that is returned is optimal; and but for what lies at the end of the interval it is optimal
nowhere else (`rescale_optimal_where`).
-/
import Mathlib.Tactic.IntervalCases
import VecFetch.Rabitq.RescaleSearch
import VecFetch.Rabitq.RotationSound

namespace VecFetch.Rabitq

open VecFetch.Theory Finset

set_option autoImplicit false

/-! ## The law and its condition -/

section Law

variable {K : Type} [Field K] [LinearOrder K] [FloorRing K] (absRot : ℕ → K) (dim exBits : ℕ)

/-- The cosine of two vectors. -/
def cosine {ι : Type} [Fintype ι] (arith : ExactArith K) (x y : ι → K) : K :=
  (∑ i, x i * y i) / (arith.sqrt (∑ i, x i * x i) * arith.sqrt (∑ i, y i * y i))

/-- The vector a code stands for. -/
def codeVector {ι : Type} (code : ι → ℤ) (i : ι) : K := (code i : K) + lit 0.5

/-- The factor that is returned gives a code of the best cosine in the interval. -/
def RescaleOptimal (arith : ExactArith K) : Prop :=
  ∃ best, bestRescaleFactorSlow arith absRot dim exBits = some best ∧
    ∀ t, searchStart absRot dim exBits ≤ t → t ≤ searchEnd absRot dim exBits →
      cosine arith (codeVector (codeAt absRot dim exBits t)) (sizesOf absRot dim) ≤
        cosine arith (codeVector (codeAt absRot dim exBits best)) (sizesOf absRot dim)

/-! ### The condition -/

/-- A multiple of an entry that is tried: the first after the start, and every one whose scale is
before the end. -/
def TriedAt (i : Fin dim) (k : ℤ) : Prop :=
  kEps < absRot i ∧ firstCode absRot dim exBits i < k ∧ k ≤ topCode exBits ∧
    (k = firstCode absRot dim exBits i + 1 ∨ (k : K) / absRot i < searchEnd absRot dim exBits)

/-- A code of such multiples, and of the start's own. -/
def Tried (code : Fin dim → ℤ) : Prop :=
  ∀ i, code i = firstCode absRot dim exBits i ∨ TriedAt absRot dim exBits i (code i)

/-- At least as good as every code quantised in the interval. -/
def BestOfInterval (arith : ExactArith K) (code : Fin dim → ℤ) : Prop :=
  ∀ t, searchStart absRot dim exBits ≤ t → t ≤ searchEnd absRot dim exBits →
    cosine arith (codeVector (codeAt absRot dim exBits t)) (sizesOf absRot dim) ≤
      cosine arith (codeVector code) (sizesOf absRot dim)

/-- The least of the best codes that are tried, the start's apart. -/
structure FirstBest (arith : ExactArith K) (code : Fin dim → ℤ) : Prop where
  tried : Tried absRot dim exBits code
  other : code ≠ firstCode absRot dim exBits
  best : ∀ d, Tried absRot dim exBits d → d ≠ firstCode absRot dim exBits →
    cosine arith (codeVector d) (sizesOf absRot dim) ≤
      cosine arith (codeVector code) (sizesOf absRot dim)
  least : ∀ d, Tried absRot dim exBits d → d ≠ firstCode absRot dim exBits →
    cosine arith (codeVector code) (sizesOf absRot dim) ≤
      cosine arith (codeVector d) (sizesOf absRot dim) → code ≤ d

/-- The scale of a code's last change. -/
structure IsScale (code : Fin dim → ℤ) (t : K) : Prop where
  last : ∃ i, firstCode absRot dim exBits i < code i ∧ (code i : K) / absRot i = t
  before : ∀ i, firstCode absRot dim exBits i < code i → (code i : K) / absRot i ≤ t

/-- No further multiple of an entry lies within `kEps` after a scale. -/
def KEpsApart (code : Fin dim → ℤ) (t : K) : Prop :=
  ∀ i (k : ℤ), code i < k → k ≤ topCode exBits → t * absRot i < k → t * absRot i + kEps < k

/-- Either nothing is tried and the first code is as good as all of the interval, or the least best
code that is tried is, and nothing lies within `kEps` after its scale. -/
def HoldsWhen (arith : ExactArith K) : Prop :=
  exBits ≤ 8 ∧
    ((∀ code, Tried absRot dim exBits code → code = firstCode absRot dim exBits) ∧
        BestOfInterval absRot dim exBits arith (firstCode absRot dim exBits) ∨
      ∃ code t, FirstBest absRot dim exBits arith code ∧
        BestOfInterval absRot dim exBits arith code ∧ IsScale absRot dim exBits code t ∧
        KEpsApart absRot dim exBits code t)

/-- No change of the interval is passed over, quantising past its end gives no better code than at
its end, and nothing lies within `kEps` after the scale of the least best code. -/
structure Undisturbed (arith : ExactArith K) : Prop where
  reached : ∀ i (k : ℤ), firstCode absRot dim exBits i < k → k ≤ topCode exBits →
    (k : K) ≤ searchEnd absRot dim exBits * absRot i + kEps →
      kEps < absRot i ∧ (k : K) / absRot i < searchEnd absRot dim exBits
  tail : ∀ t, searchEnd absRot dim exBits < t →
    codeAt absRot dim exBits t = codeAt absRot dim exBits (searchEnd absRot dim exBits) ∨
      cosine arith (codeVector (codeAt absRot dim exBits t)) (sizesOf absRot dim) <
        cosine arith (codeVector (codeAt absRot dim exBits (searchEnd absRot dim exBits)))
          (sizesOf absRot dim)
  apart : ∀ code t, FirstBest absRot dim exBits arith code → IsScale absRot dim exBits code t →
    KEpsApart absRot dim exBits code t

end Law

/-! ## The codes that are tried -/

section Codes

variable {K : Type} [Field K] [LinearOrder K] [IsStrictOrderedRing K] [FloorRing K]
  {absRot : ℕ → K} {dim exBits : ℕ}

/-- The codes that are tried are those between the first and the last. -/
theorem tried_iff {code : Fin dim → ℤ} : Tried absRot dim exBits code ↔
    firstCode absRot dim exBits ≤ code ∧ code ≤ lastCode absRot dim exBits := by
  have each : ∀ i, code i = firstCode absRot dim exBits i ∨ TriedAt absRot dim exBits i (code i) ↔
      firstCode absRot dim exBits i ≤ code i ∧ code i ≤ lastCode absRot dim exBits i := by
    intro i
    by_cases goes : kEps < absRot i ∧ firstCode absRot dim exBits i < topCode exBits
    · have before : (code i : K) / absRot i < searchEnd absRot dim exBits ↔
          code i < ⌈searchEnd absRot dim exBits * absRot i⌉ := by
        rw [div_lt_iff₀ (kEps_pos.trans goes.1), Int.lt_ceil]
      rw [TriedAt, before, lastCode, if_pos goes, and_iff_right goes.1]
      have := goes.2
      omega
    · have never : ¬ TriedAt absRot dim exBits i (code i) := fun tried =>
        goes ⟨tried.1, tried.2.1.trans_le tried.2.2.1⟩
      rw [lastCode, if_neg goes, or_iff_left never]
      omega
  rw [Tried, forall_congr' each, forall_and]
  rfl

omit [IsStrictOrderedRing K] in
theorem IsScale.unique {code : Fin dim → ℤ} {t t' : K} (scale : IsScale absRot dim exBits code t)
    (scale' : IsScale absRot dim exBits code t') : t = t' := by
  obtain ⟨i, raised, rfl⟩ := scale.last
  obtain ⟨j, raised', rfl⟩ := scale'.last
  exact le_antisymm (scale'.before i raised) (scale.before j raised')

variable (sizes : ∀ i : Fin dim, 0 ≤ absRot i)

include sizes

theorem Tried.nonneg {code : Fin dim → ℤ} (tried : Tried absRot dim exBits code) (i : Fin dim) :
    0 ≤ code i :=
  (firstCode_nonneg sizes i).trans ((tried_iff.1 tried).1 i)

/-- The scale of a code that is tried is past the start, and quantising there gives all of it. -/
theorem Tried.scale_spec {code : Fin dim → ℤ} {t : K} (tried : Tried absRot dim exBits code)
    (scale : IsScale absRot dim exBits code t) :
    searchStart absRot dim exBits ≤ t ∧ code ≤ codeAt absRot dim exBits t := by
  obtain ⟨low, high⟩ := tried_iff.1 tried
  have after : searchStart absRot dim exBits ≤ t := by
    obtain ⟨i, raised, rfl⟩ := scale.last
    exact (change_spec sizes raised (high i)).1
  refine ⟨after, fun i => ?_⟩
  rcases (low i).eq_or_lt with same | raised
  · rw [← same]
    exact codeAt_mono sizes searchStart_nonneg after i
  · obtain ⟨start, seen⟩ := change_spec sizes raised (high i)
    exact seen.trans (codeAt_mono sizes (searchStart_nonneg.trans start) (scale.before i raised) i)

/-- Of what the quantiser gives past a code, nothing comes after the scale, if nothing lies within
`kEps` there. -/
theorem KEpsApart.within {code : Fin dim → ℤ} {t : K} (apart : KEpsApart absRot dim exBits code t)
    (scale : 0 ≤ t) {i : Fin dim} (past : code i < codeAt absRot dim exBits t i) :
    (codeAt absRot dim exBits t i : K) ≤ t * absRot i := by
  by_contra after
  have beyond := apart i _ past (codeAt_le_top t i) (not_le.1 after)
  refine absurd beyond (not_lt.2 ?_)
  rw [codeAt, scaledCode_eq scale (sizes i)]
  exact (Int.cast_le.2 (min_le_right _ _)).trans (Int.floor_le _)

/-- Where no change of the interval is passed over, its codes are all tried. -/
theorem Undisturbed.tried {arith : ExactArith K} (calm : Undisturbed absRot dim exBits arith) {t : K}
    (after : searchStart absRot dim exBits ≤ t) (before : t ≤ searchEnd absRot dim exBits) :
    Tried absRot dim exBits (codeAt absRot dim exBits t) := by
  intro i
  have low : firstCode absRot dim exBits i ≤ codeAt absRot dim exBits t i :=
    codeAt_mono sizes searchStart_nonneg after i
  refine low.eq_or_lt.imp Eq.symm fun raised => ?_
  have top : codeAt absRot dim exBits t i ≤ topCode exBits := codeAt_le_top t i
  have inside : (codeAt absRot dim exBits t i : K) ≤ searchEnd absRot dim exBits * absRot i + kEps := by
    have scaled := mul_le_mul_of_nonneg_right before (sizes i)
    rw [codeAt, scaledCode_eq (searchStart_nonneg.trans after) (sizes i)]
    refine ((Int.cast_le.2 (min_le_right _ _)).trans (Int.floor_le _)).trans ?_
    linarith
  obtain ⟨large, ends⟩ := calm.reached i _ raised top inside
  exact ⟨large, raised, top, .inr ends⟩

end Codes

/-! ## The best code -/

section Best

variable {K : Type} [Field K] [LinearOrder K] [IsStrictOrderedRing K] [FloorRing K]
  {arith : ExactArith K} {absRot : ℕ → K} {dim exBits : ℕ}

omit [IsStrictOrderedRing K] in
/-- The table of tight starts has nine entries. -/
theorem few_of_found {t : K} (found : bestRescaleFactorSlow arith absRot dim exBits = some t) :
    exBits ≤ 8 := by
  rw [bestRescaleFactorSlow] at found
  split at found
  · cases found
  · obtain ⟨tight, entry, -⟩ := Option.map_eq_some_iff.1 found
    have length : kTightStart.length = 9 := rfl
    have := (List.getElem?_eq_some_iff.1 entry).1
    omega

section Sizes

variable (root : ∀ x, 0 ≤ arith.sqrt x) (sizes : ∀ i : Fin dim, 0 ≤ absRot i)
  (positive : ∃ i : Fin dim, 0 < absRot i)

include root sizes positive

omit sizes in
/-- The cosine is what the search compares, but for the length of the vector. -/
theorem cosine_le_iff (c d : Fin dim → ℤ) :
    cosine arith (codeVector c) (sizesOf absRot dim) ≤
        cosine arith (codeVector d) (sizesOf absRot dim) ↔
      codeIp arith absRot dim c ≤ codeIp arith absRot dim d := by
  have half : (lit 0.5 : K) = 1 / 2 := by norm_num [lit]
  have length : 0 < arith.sqrt (∑ i : Fin dim, absRot i * absRot i) := by
    refine (root _).lt_of_ne fun zero => ?_
    have sum : 0 < ∑ i : Fin dim, absRot i * absRot i := by
      obtain ⟨i, size⟩ := positive
      exact sum_pos' (fun j _ => mul_self_nonneg _) ⟨i, mem_univ i, mul_pos size size⟩
    have square := arith.sqrt_mul_self _ sum.le
    rw [← zero, mul_zero] at square
    exact sum.ne square
  have ratio : ∀ c : Fin dim → ℤ, cosine arith (codeVector c) (sizesOf absRot dim) =
      codeIp arith absRot dim c / arith.sqrt (∑ i : Fin dim, absRot i * absRot i) := fun c => by
    have norm : ∑ i, codeVector (K := K) c i * codeVector c i = codeNormSq K c :=
      sum_congr rfl fun i _ => by rw [codeVector, half, sq, codeMid_eq]
    have dot : ∑ i, codeVector c i * sizesOf absRot dim i = codeDot (sizesOf absRot dim) c :=
      sum_congr rfl fun i _ => by rw [codeVector, half, codeMid_eq]
    rw [cosine, norm, dot, codeIp, div_div]
    rfl
  rw [ratio, ratio, div_le_div_iff_of_pos_right length]

/-- Of two codes, the one with the better score has the better cosine. -/
theorem cosine_le_iff_score {c d : Fin dim → ℤ} (codes : ∀ i, 0 ≤ c i) (codes' : ∀ i, 0 ≤ d i) :
    cosine arith (codeVector c) (sizesOf absRot dim) ≤
        cosine arith (codeVector d) (sizesOf absRot dim) ↔
      codeScore (sizesOf absRot dim) c ≤ codeScore (sizesOf absRot dim) d :=
  (cosine_le_iff root positive c d).trans (codeIp_le_iff root sizes positive codes codes')

/-- A best code of those that are tried has the best score between the first and the last. -/
theorem score_of_best {code : Fin dim → ℤ} (tried : Tried absRot dim exBits code)
    (best : ∀ d, Tried absRot dim exBits d → cosine arith (codeVector d) (sizesOf absRot dim) ≤
      cosine arith (codeVector code) (sizesOf absRot dim)) (d : Fin dim → ℤ)
    (low : firstCode absRot dim exBits ≤ d) (high : d ≤ lastCode absRot dim exBits) :
    codeScore (sizesOf absRot dim) d ≤ codeScore (sizesOf absRot dim) code := by
  have tried' : Tried absRot dim exBits d := tried_iff.2 ⟨low, high⟩
  exact (cosine_le_iff_score root sizes positive (tried'.nonneg sizes) (tried.nonneg sizes)).1
    (best d tried')

/-- **What the search returns**: the scale of a code that is tried, which is the least of the best
ones if the start is not better than all of them. -/
theorem exists_reached (few : exBits ≤ 8)
    (more : firstCode absRot dim exBits ≠ lastCode absRot dim exBits) :
    ∃ t d, bestRescaleFactorSlow arith absRot dim exBits = some t ∧ Tried absRot dim exBits d ∧
      IsScale absRot dim exBits d t ∧
      ∀ e, Tried absRot dim exBits e → e ≠ firstCode absRot dim exBits →
        (∀ c, Tried absRot dim exBits c → cosine arith (codeVector c) (sizesOf absRot dim) ≤
          cosine arith (codeVector e) (sizesOf absRot dim)) →
        cosine arith (codeVector e) (sizesOf absRot dim) ≤
          cosine arith (codeVector d) (sizesOf absRot dim) ∧ d ≤ e := by
  obtain ⟨s, found, walks, last⟩ := bestRescaleFactorSlow_walks root sizes positive few
  obtain ⟨d, reached, ip, -, least⟩ := walks.best.resolve_left fun start =>
    more (start.1.symm.trans last)
  have tried : Tried absRot dim exBits d := tried_iff.2 ⟨reached.low, reached.high⟩
  refine ⟨s.bestT, d, found, tried, ⟨reached.raised, reached.before⟩, fun e triedE other best => ?_⟩
  -- a best code is sharp, so that the walk has passed it
  obtain ⟨low, high⟩ := tried_iff.1 triedE
  have sharp : IsSharp (sizesOf absRot dim) (firstCode absRot dim exBits)
      (lastCode absRot dim exBits) e :=
    isSharp_of_best sizes positive (firstCode_nonneg sizes)
      (fun _ raised => kEps_pos.trans (raised_size raised)) low high
      (score_of_best root sizes positive triedE best)
  have passed := walks.passed e sharp (high.trans_eq last.symm) other
  have as_good := (cosine_le_iff root positive d e).1 (best d tried)
  rw [← ip] at passed
  exact ⟨(cosine_le_iff root positive e d).2 passed,
    least e sharp (high.trans_eq last.symm) other ((as_good.antisymm passed).symm.trans ip)⟩

/-- Where nothing is tried the start is returned. -/
theorem start_returned (few : exBits ≤ 8)
    (none_tried : firstCode absRot dim exBits = lastCode absRot dim exBits) :
    bestRescaleFactorSlow arith absRot dim exBits = some (searchStart absRot dim exBits) := by
  obtain ⟨s, found, walks, -⟩ := bestRescaleFactorSlow_walks root sizes positive few
  rw [found]
  rcases walks.best with start | ⟨d, reached, -⟩
  · rw [start.2.2]
  · obtain ⟨i, raised, -⟩ := reached.raised
    have upper := reached.high i
    rw [← none_tried] at upper
    exact absurd raised (not_lt.2 upper)

/-- **Quantising at the scale of a best code** gives one that is as good, if nothing lies within
`kEps` after it. -/
theorem codeAt_scale {code : Fin dim → ℤ} {t : K} (tried : Tried absRot dim exBits code)
    (best : ∀ d, Tried absRot dim exBits d → cosine arith (codeVector d) (sizesOf absRot dim) ≤
      cosine arith (codeVector code) (sizesOf absRot dim))
    (scale : IsScale absRot dim exBits code t) (apart : KEpsApart absRot dim exBits code t) :
    cosine arith (codeVector code) (sizesOf absRot dim) ≤
      cosine arith (codeVector (codeAt absRot dim exBits t)) (sizesOf absRot dim) := by
  obtain ⟨after, seen⟩ := tried.scale_spec sizes scale
  have nonneg := searchStart_nonneg.trans after
  obtain ⟨low, high⟩ := tried_iff.1 tried
  have balance : t ≤ codeNormSq K code / codeDot (sizesOf absRot dim) code := by
    obtain ⟨i, raised, rfl⟩ := scale.last
    exact (scale_lt_balance sizes positive (firstCode_nonneg sizes) low high
      (score_of_best root sizes positive tried best)
      (kEps_pos.trans (raised_size (raised.trans_le (high i)))) raised).le
  rw [cosine_le_iff_score root sizes positive (tried.nonneg sizes) (codeAt_nonneg sizes nonneg)]
  exact codeScore_le_of_raised sizes positive (firstCode_nonneg sizes) low seen
    (fun i past => apart.within sizes nonneg past) balance

/-- **A start that is better than all that follows** is lost, if anything is tried. -/
theorem not_optimal_of_start (more : firstCode absRot dim exBits ≠ lastCode absRot dim exBits)
    (alone : ∀ t, searchStart absRot dim exBits ≤ t →
      codeAt absRot dim exBits t ≠ firstCode absRot dim exBits →
        cosine arith (codeVector (codeAt absRot dim exBits t)) (sizesOf absRot dim) <
          cosine arith (codeVector (firstCode absRot dim exBits)) (sizesOf absRot dim)) :
    ¬ RescaleOptimal absRot dim exBits arith := by
  rintro ⟨best, found, best_all⟩
  obtain ⟨t, d, found', tried, scale, -⟩ :=
    exists_reached root sizes positive (few_of_found found) more
  obtain rfl := Option.some.inj (found.symm.trans found')
  obtain ⟨after, seen⟩ := tried.scale_spec sizes scale
  refine absurd (best_all _ le_rfl searchStart_le) (not_le.2 (alone _ after fun same => ?_))
  obtain ⟨i, raised, -⟩ := scale.last
  have here := seen i
  rw [same] at here
  exact absurd here (not_le.2 raised)

theorem optimal_of_holdsWhen (holds : HoldsWhen absRot dim exBits arith) :
    RescaleOptimal absRot dim exBits arith := by
  obtain ⟨few, ⟨none_tried, best⟩ | ⟨code, t, isBest, best, scale, apart⟩⟩ := holds
  · have same := none_tried _ (tried_iff.2 ⟨first_le_last, le_rfl⟩)
    exact ⟨_, start_returned root sizes positive few same.symm, best⟩
  have more : firstCode absRot dim exBits ≠ lastCode absRot dim exBits := fun same => by
    obtain ⟨low, high⟩ := tried_iff.1 isBest.tried
    exact isBest.other ((high.trans_eq same.symm).antisymm low)
  -- the start is a code of the interval, so that the code is the best of all that are tried
  have all : ∀ d, Tried absRot dim exBits d → cosine arith (codeVector d) (sizesOf absRot dim) ≤
      cosine arith (codeVector code) (sizesOf absRot dim) := fun d tried => by
    by_cases same : d = firstCode absRot dim exBits
    · rw [same]
      exact best _ le_rfl searchStart_le
    · exact isBest.best d tried same
  obtain ⟨t', d, found, tried, scale', least⟩ := exists_reached root sizes positive few more
  obtain ⟨as_good, below⟩ := least code isBest.tried isBest.other all
  have other : d ≠ firstCode absRot dim exBits := by
    rintro rfl
    obtain ⟨i, raised, -⟩ := scale'.last
    exact absurd raised (lt_irrefl _)
  obtain rfl := below.antisymm (isBest.least d tried other as_good)
  obtain rfl := scale.unique scale'
  exact ⟨t, found, fun s after before => (best s after before).trans
    (codeAt_scale root sizes positive tried all scale apart)⟩

theorem holdsWhen_of_optimal (calm : Undisturbed absRot dim exBits arith)
    (optimal : RescaleOptimal absRot dim exBits arith) : HoldsWhen absRot dim exBits arith := by
  obtain ⟨best, found, best_all⟩ := optimal
  have few : exBits ≤ 8 := few_of_found found
  by_cases more : firstCode absRot dim exBits = lastCode absRot dim exBits
  · refine ⟨few, .inl ⟨fun code tried => ?_, ?_⟩⟩
    · obtain ⟨low, high⟩ := tried_iff.1 tried
      exact (high.trans_eq more.symm).antisymm low
    · obtain rfl := Option.some.inj (found.symm.trans (start_returned root sizes positive few more))
      exact best_all
  obtain ⟨t, d, found', tried, scale, least⟩ := exists_reached root sizes positive few more
  obtain rfl := Option.some.inj (found.symm.trans found')
  obtain ⟨after, seen⟩ := tried.scale_spec sizes scale
  have other : ∀ {c : Fin dim → ℤ}, d ≤ c → c ≠ firstCode absRot dim exBits := by
    rintro c above rfl
    obtain ⟨i, raised, -⟩ := scale.last
    exact absurd (above i) (not_le.2 raised)
  -- the code that is returned is one of those that are tried
  have triedBest : Tried absRot dim exBits (codeAt absRot dim exBits best) := by
    rcases le_or_gt best (searchEnd absRot dim exBits) with before | past
    · exact calm.tried sizes after before
    · rcases calm.tail best past with same | worse
      · rw [same]
        exact calm.tried sizes searchStart_le le_rfl
      · exact absurd (best_all _ searchStart_le le_rfl) (not_le.2 worse)
  -- so some best one is not the start
  obtain ⟨e, triedE, otherE, bestE⟩ : ∃ e, Tried absRot dim exBits e ∧
      e ≠ firstCode absRot dim exBits ∧ ∀ c, Tried absRot dim exBits c →
        cosine arith (codeVector c) (sizesOf absRot dim) ≤
          cosine arith (codeVector e) (sizesOf absRot dim) := by
    obtain ⟨c, low, high, top⟩ := exists_best (sizesOf absRot dim)
      (@first_le_last K _ _ _ absRot dim exBits)
    have triedC : Tried absRot dim exBits c := tried_iff.2 ⟨low, high⟩
    have topC : ∀ e, Tried absRot dim exBits e →
        cosine arith (codeVector e) (sizesOf absRot dim) ≤
          cosine arith (codeVector c) (sizesOf absRot dim) := fun e tried' =>
      (cosine_le_iff_score root sizes positive (tried'.nonneg sizes) (triedC.nonneg sizes)).2
        (top e (tried_iff.1 tried').1 (tried_iff.1 tried').2)
    by_cases same : c = firstCode absRot dim exBits
    · refine ⟨_, triedBest, other seen, fun e tried' => (topC e tried').trans ?_⟩
      rw [same]
      exact best_all _ le_rfl searchStart_le
    · exact ⟨c, triedC, same, topC⟩
  obtain ⟨as_good, -⟩ := least e triedE otherE bestE
  have bestD : ∀ c, Tried absRot dim exBits c → cosine arith (codeVector c) (sizesOf absRot dim) ≤
      cosine arith (codeVector d) (sizesOf absRot dim) := fun c tried' =>
    (bestE c tried').trans as_good
  have isBest : FirstBest absRot dim exBits arith d :=
    ⟨tried, other le_rfl, fun c tried' _ => bestD c tried', fun c tried' otherC as_good' =>
      (least c tried' otherC fun c' tried'' => (bestD c' tried'').trans as_good').2⟩
  exact ⟨few, .inr ⟨d, best, isBest, fun s after' before => bestD _ (calm.tried sizes after' before),
    scale, calm.apart d best isBest scale⟩⟩

end Sizes

/-- **The rescale factor is optimal** wherever the condition holds; and where no change of the
interval is passed over, its end is not too early and the scale of the least best code is apart from
the changes after it, nowhere else. -/
theorem rescale_optimal_where (root : ∀ x, 0 ≤ arith.sqrt x) (sizes : ∀ i : Fin dim, 0 ≤ absRot i)
    (positive : ∃ i : Fin dim, 0 < absRot i) :
    (HoldsWhen absRot dim exBits arith → RescaleOptimal absRot dim exBits arith) ∧
      (Undisturbed absRot dim exBits arith → RescaleOptimal absRot dim exBits arith →
        HoldsWhen absRot dim exBits arith) :=
  ⟨optimal_of_holdsWhen root sizes positive, holdsWhen_of_optimal root sizes positive⟩

end Best

/-! ### Two coordinates, and three -/

section Examples

theorem realArith_root (x : ℝ) : 0 ≤ realArith.sqrt x := Real.sqrt_nonneg x

/-- The interval of a vector whose largest entry is one. -/
theorem interval_of_max {absRot : ℕ → ℝ} {dim : ℕ} (max : maxElement absRot dim = 1)
    (exBits : ℕ) : searchEnd absRot dim exBits = (topCode exBits : ℝ) + 10 := by
  have small : ¬ (1 : ℝ) < kEps := by norm_num [kEps, lit]
  rw [searchEnd, max, if_neg small, div_one]
  push_cast
  rfl

/-- The sizes one and one third. -/
noncomputable def thirdSizes (i : ℕ) : ℝ := if i = 0 then 1 else lit (1 / 3)

theorem thirdSizes_max : maxElement thirdSizes 2 = 1 := by
  norm_num [maxElement, List.range_succ, thirdSizes, lit]

theorem thirdSizes_first : firstCode thirdSizes 2 1 = ![1, 0] := by
  have tStart : searchStart thirdSizes 2 1 = 1.65 := by
    rw [searchStart, interval_of_max thirdSizes_max 1]
    norm_num [topCode, kTightStart, lit]
  funext i
  rw [firstCode, tStart, codeAt]
  fin_cases i
  · rw [scaledCode_eq (by norm_num) (by norm_num [thirdSizes])]
    norm_num [thirdSizes, topCode, kEps, lit, Int.floor_eq_iff]
  · rw [scaledCode_eq (by norm_num) (by norm_num [thirdSizes, lit])]
    norm_num [thirdSizes, topCode, kEps, lit, Int.floor_eq_iff]

theorem thirdSizes_last : lastCode thirdSizes 2 1 = ![1, 1] := by
  funext i
  rw [lastCode, thirdSizes_first]
  fin_cases i
  · norm_num [topCode]
  · have large : kEps < thirdSizes 1 := by norm_num [thirdSizes, kEps, lit]
    rw [if_pos ⟨large, by norm_num [topCode]⟩]
    norm_num [topCode]

/-- **The first code is never tried**: for the sizes one and one third its cosine is one, and the
factor that is returned gives two equal codes. -/
theorem not_rescale_optimal : ¬ RescaleOptimal thirdSizes 2 1 realArith := by
  have sizes : ∀ i : Fin 2, 0 ≤ thirdSizes i := fun i => by
    fin_cases i <;> norm_num [thirdSizes, lit]
  have positive : ∃ i : Fin 2, 0 < thirdSizes i := ⟨0, by norm_num [thirdSizes]⟩
  refine not_optimal_of_start realArith_root sizes positive ?_ fun t after other => ?_
  · rw [thirdSizes_first, thirdSizes_last]
    decide
  -- the only other code is that of two ones
  have low : codeAt thirdSizes 2 1 (searchStart thirdSizes 2 1) ≤ codeAt thirdSizes 2 1 t :=
    codeAt_mono sizes searchStart_nonneg after
  have high : ∀ i, codeAt thirdSizes 2 1 t i ≤ 1 := codeAt_le_top t
  rw [← firstCode, thirdSizes_first] at low
  rw [thirdSizes_first] at other ⊢
  have zero : codeAt thirdSizes 2 1 t 0 = 1 := le_antisymm (high 0) (low 0)
  have one : codeAt thirdSizes 2 1 t 1 = 1 := by
    have low1 : 0 ≤ codeAt thirdSizes 2 1 t 1 := low 1
    have high1 := high 1
    rcases lt_or_ge (codeAt thirdSizes 2 1 t 1) 1 with less | least
    · refine absurd ?_ other
      funext i
      fin_cases i
      · exact zero
      · exact le_antisymm (Int.lt_add_one_iff.1 less) low1
    · exact le_antisymm high1 least
  refine not_le.1 fun score => absurd ((cosine_le_iff_score realArith_root sizes positive ?_ ?_).1
    score) ?_
  · intro i
    fin_cases i <;> decide
  · exact codeAt_nonneg sizes (searchStart_nonneg.trans after)
  · norm_num [codeScore, codeDot_eq, codeNormSq_eq, sizesOf, thirdSizes, lit, Fin.sum_univ_two, zero,
      one]

/-- The sizes one, one fifth and one twentieth. -/
noncomputable def fifthSizes (i : ℕ) : ℝ := if i = 0 then 1 else if i = 1 then 1 / 5 else 1 / 20

theorem fifthSizes_nonneg (i : Fin 3) : 0 ≤ fifthSizes i := by
  fin_cases i <;> norm_num [fifthSizes]

theorem fifthSizes_end : searchEnd fifthSizes 3 2 = 13 := by
  rw [interval_of_max (by norm_num [maxElement, List.range_succ, fifthSizes]) 2]
  norm_num [topCode]

theorem fifthSizes_first : firstCode fifthSizes 3 2 = ![2, 0, 0] := by
  funext i
  rw [firstCode, searchStart, fifthSizes_end, codeAt, scaledCode_eq (by norm_num [kTightStart, lit])
    (fifthSizes_nonneg i)]
  fin_cases i <;> norm_num [fifthSizes, topCode, kTightStart, kEps, lit, Int.floor_eq_iff]

/-- The change of the last entry is tried, far past the end of the interval. -/
theorem fifthSizes_last : lastCode fifthSizes 3 2 = ![3, 2, 1] := by
  have second : ⌈(13 : ℝ) * 5⁻¹⌉ = 3 := by norm_num [Int.ceil_eq_iff]
  have third : ⌈(13 : ℝ) * 20⁻¹⌉ = 1 := by norm_num [Int.ceil_eq_iff]
  funext i
  rw [lastCode, fifthSizes_first, fifthSizes_end]
  fin_cases i <;> norm_num [fifthSizes, topCode, kEps, lit, second, third]

theorem fifthSizes_score {d : Fin 3 → ℤ} {a b c : ℤ} (here : d 0 = a ∧ d 1 = b ∧ d 2 = c) :
    codeScore (sizesOf fifthSizes 3) d =
      (((a : ℝ) + 1 / 2) + ((b : ℝ) + 1 / 2) / 5 + ((c : ℝ) + 1 / 2) / 20) ^ 2 /
        (((a : ℝ) + 1 / 2) ^ 2 + ((b : ℝ) + 1 / 2) ^ 2 + ((c : ℝ) + 1 / 2) ^ 2) := by
  obtain ⟨rfl, rfl, rfl⟩ := here
  simp [codeScore, codeDot_eq, codeNormSq_eq, sizesOf, fifthSizes, Fin.sum_univ_three]
  ring

theorem triple_ext {d : Fin 3 → ℤ} {a b c : ℤ} (same : d 0 = a ∧ d 1 = b ∧ d 2 = c) :
    d = ![a, b, c] := by
  obtain ⟨rfl, rfl, rfl⟩ := same
  funext i
  fin_cases i <;> rfl

/-- Of what is tried, one code is better than all others. -/
theorem fifthSizes_best {d : Fin 3 → ℤ} (tried : Tried fifthSizes 3 2 d) (other : d ≠ ![3, 0, 0]) :
    codeScore (sizesOf fifthSizes 3) d < codeScore (sizesOf fifthSizes 3) ![3, 0, 0] := by
  have best : codeScore (sizesOf fifthSizes 3) ![3, 0, 0] = 841 / 816 := by
    have here : (![3, 0, 0] : Fin 3 → ℤ) 0 = 3 ∧ (![3, 0, 0] : Fin 3 → ℤ) 1 = 0 ∧
        (![3, 0, 0] : Fin 3 → ℤ) 2 = 0 := ⟨rfl, rfl, rfl⟩
    rw [fifthSizes_score here]
    norm_num
  obtain ⟨low, high⟩ := tried_iff.1 tried
  rw [fifthSizes_first] at low
  rw [fifthSizes_last] at high
  have low0 : 2 ≤ d 0 := low 0
  have low1 : 0 ≤ d 1 := low 1
  have low2 : 0 ≤ d 2 := low 2
  have high0 : d 0 ≤ 3 := high 0
  have high1 : d 1 ≤ 2 := high 1
  have high2 : d 2 ≤ 1 := high 2
  have differs := mt triple_ext other
  rw [best, fifthSizes_score ⟨rfl, rfl, rfl⟩]
  generalize d 0 = a at *
  generalize d 1 = b at *
  generalize d 2 = c at *
  interval_cases a <;> interval_cases b <;> interval_cases c <;>
    first | exact absurd ⟨rfl, rfl, rfl⟩ differs | norm_num

/-- Past the end of the interval it only gets worse. -/
theorem fifthSizes_tail {d : Fin 3 → ℤ} (low : ![3, 2, 0] ≤ d) (high : ∀ i, d i ≤ 3)
    (other : d ≠ ![3, 2, 0]) :
    codeScore (sizesOf fifthSizes 3) d < codeScore (sizesOf fifthSizes 3) ![3, 2, 0] := by
  have ends : codeScore (sizesOf fifthSizes 3) ![3, 2, 0] = 25921 / 30000 := by
    have here : (![3, 2, 0] : Fin 3 → ℤ) 0 = 3 ∧ (![3, 2, 0] : Fin 3 → ℤ) 1 = 2 ∧
        (![3, 2, 0] : Fin 3 → ℤ) 2 = 0 := ⟨rfl, rfl, rfl⟩
    rw [fifthSizes_score here]
    norm_num
  have low0 : 3 ≤ d 0 := low 0
  have low1 : 2 ≤ d 1 := low 1
  have low2 : 0 ≤ d 2 := low 2
  have high0 := high 0
  have high1 := high 1
  have high2 := high 2
  have differs := mt triple_ext other
  rw [ends, fifthSizes_score ⟨rfl, rfl, rfl⟩]
  generalize d 0 = a at *
  generalize d 1 = b at *
  generalize d 2 = c at *
  interval_cases a
  interval_cases b <;> interval_cases c <;>
    first | exact absurd ⟨rfl, rfl, rfl⟩ differs | norm_num

theorem fifthSizes_firstBest {d : Fin 3 → ℤ} :
    FirstBest fifthSizes 3 2 realArith d ↔ d = ![3, 0, 0] := by
  have positive : ∃ i : Fin 3, 0 < fifthSizes i := ⟨0, by norm_num [fifthSizes]⟩
  have tried : Tried fifthSizes 3 2 ![3, 0, 0] := by
    rw [tried_iff, fifthSizes_first, fifthSizes_last]
    constructor <;> intro i <;> fin_cases i <;> decide
  have other : ![3, 0, 0] ≠ firstCode fifthSizes 3 2 := by
    rw [fifthSizes_first]
    decide
  have only : ∀ d, Tried fifthSizes 3 2 d →
      cosine realArith (codeVector ![3, 0, 0]) (sizesOf fifthSizes 3) ≤
        cosine realArith (codeVector d) (sizesOf fifthSizes 3) → d = ![3, 0, 0] := by
    intro d tried' as_good
    by_contra differs
    exact absurd ((cosine_le_iff_score realArith_root fifthSizes_nonneg positive
      (tried.nonneg fifthSizes_nonneg) (tried'.nonneg fifthSizes_nonneg)).1 as_good)
      (not_le.2 (fifthSizes_best tried' differs))
  constructor
  · intro best
    exact only d best.tried (best.best _ tried other)
  · rintro rfl
    refine ⟨tried, other, fun d tried' _ => ?_, fun d tried' _ as_good => (only d tried' as_good).ge⟩
    by_contra better
    exact better (only d tried' (not_le.1 better).le ▸ le_rfl)

theorem fifthSizes_scale {t : ℝ} : IsScale fifthSizes 3 2 ![3, 0, 0] t ↔ t = 3 := by
  have scale : IsScale fifthSizes 3 2 ![3, 0, 0] 3 := by
    refine ⟨⟨0, ?_, ?_⟩, fun i raised => ?_⟩
    · rw [fifthSizes_first]
      decide
    · norm_num [fifthSizes]
    · rw [fifthSizes_first] at raised
      fin_cases i
      · norm_num [fifthSizes]
      · exact absurd raised (by decide)
      · exact absurd raised (by decide)
  exact ⟨fun scale' => scale'.unique scale, fun same => same ▸ scale⟩

theorem fifthSizes_apart : KEpsApart fifthSizes 3 2 ![3, 0, 0] 3 := by
  intro i k past top _
  have step : (![3, 0, 0] i + 1 : ℤ) ≤ k := past
  fin_cases i
  · exact absurd top (not_le.2 past)
  · have : (1 : ℝ) ≤ k := by exact_mod_cast step
    norm_num [fifthSizes, kEps, lit]
    linarith
  · have : (1 : ℝ) ≤ k := by exact_mod_cast step
    norm_num [fifthSizes, kEps, lit]
    linarith

/-- No change of the interval is passed over: the one of the last entry comes after its end. -/
theorem fifthSizes_calm : Undisturbed fifthSizes 3 2 realArith := by
  have positive : ∃ i : Fin 3, 0 < fifthSizes i := ⟨0, by norm_num [fifthSizes]⟩
  have ends : codeAt fifthSizes 3 2 (searchEnd fifthSizes 3 2) = ![3, 2, 0] := by
    funext i
    rw [fifthSizes_end, codeAt, scaledCode_eq (by norm_num) (fifthSizes_nonneg i)]
    fin_cases i <;> norm_num [fifthSizes, topCode, kEps, lit, Int.floor_eq_iff]
  refine ⟨fun i k past top inside => ?_, fun t past => ?_, fun code t best scale => ?_⟩
  · rw [fifthSizes_end] at inside ⊢
    have step : firstCode fifthSizes 3 2 i + 1 ≤ k := past
    rw [fifthSizes_first] at step
    fin_cases i
    · have least : (k : ℝ) ≤ 3 := by exact_mod_cast top
      norm_num [fifthSizes, kEps, lit]
      linarith
    · norm_num [fifthSizes, kEps, lit] at inside ⊢
      have next : (k : ℝ) < 3 := by linarith
      have least : (k : ℝ) ≤ 2 := by exact_mod_cast Int.lt_add_one_iff.1 (by exact_mod_cast next)
      linarith
    · norm_num [fifthSizes, kEps, lit] at inside
      have one : (1 : ℝ) ≤ k := by exact_mod_cast step
      linarith
  · have after : 0 ≤ t := searchEnd_nonneg.trans past.le
    have grows : codeAt fifthSizes 3 2 (searchEnd fifthSizes 3 2) ≤ codeAt fifthSizes 3 2 t :=
      codeAt_mono fifthSizes_nonneg searchEnd_nonneg past.le
    by_cases same : codeAt fifthSizes 3 2 t = codeAt fifthSizes 3 2 (searchEnd fifthSizes 3 2)
    · exact .inl same
    · refine .inr (not_le.1 fun better => ?_)
      have score := (cosine_le_iff_score realArith_root fifthSizes_nonneg positive
        (codeAt_nonneg fifthSizes_nonneg searchEnd_nonneg)
        (codeAt_nonneg fifthSizes_nonneg after)).1 better
      rw [ends] at same grows score
      exact absurd score (not_le.2 (fifthSizes_tail grows (codeAt_le_top t) same))
  · rw [fifthSizes_firstBest] at best
    subst best
    rw [fifthSizes_scale.1 scale]
    exact fifthSizes_apart

/-- The first change of the least entry is past the end of the interval, and the search tries it
all the same. -/
theorem rescale_optimal_where_fifth : HoldsWhen fifthSizes 3 2 realArith ∧
    Undisturbed fifthSizes 3 2 realArith ∧ RescaleOptimal fifthSizes 3 2 realArith := by
  have best := fifthSizes_firstBest.2 rfl
  have positive : ∃ i : Fin 3, 0 < fifthSizes i := ⟨0, by norm_num [fifthSizes]⟩
  have holds : HoldsWhen fifthSizes 3 2 realArith := by
    refine ⟨by decide, .inr ⟨![3, 0, 0], 3, best, fun t after before => ?_, fifthSizes_scale.2 rfl,
      fifthSizes_apart⟩⟩
    have tried := fifthSizes_calm.tried fifthSizes_nonneg after before
    refine (cosine_le_iff_score realArith_root fifthSizes_nonneg positive
      (tried.nonneg fifthSizes_nonneg) (best.tried.nonneg fifthSizes_nonneg)).2 ?_
    by_cases same : codeAt fifthSizes 3 2 t = ![3, 0, 0]
    · rw [same]
    · exact (fifthSizes_best tried same).le
  exact ⟨holds, fifthSizes_calm,
    (rescale_optimal_where realArith_root fifthSizes_nonneg positive).1 holds⟩

end Examples

end VecFetch.Rabitq
