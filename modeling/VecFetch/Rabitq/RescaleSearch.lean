/-
# Rabitq.RescaleSearch -- the walk of the rescale search

`BestRescaleFactorSlow` raises the codes one by one, in the order of the scales at which they
change, and keeps the scale with the best cosine.  The state of its loop is a walk of
`Theory.LatticeWalk` with its queue, its sums and the best of the codes it has passed
(`Search.Walks`), and it ends at the last code (`Search.Walks.loop`).
-/
import VecFetch.Rabitq.EncoderLaws
import VecFetch.Theory.LatticeWalk

namespace VecFetch.Rabitq

open VecFetch.Theory Finset

set_option autoImplicit false

/-! ## The queue -/

section Queue

variable {K : Type} [LinearOrder K]

theorem popLeast_eq_none {pq : List (K × ℕ)} (empty : popLeast pq = none) : pq = [] := by
  cases pq with
  | nil => rfl
  | cons e rest =>
      rw [popLeast] at empty
      split at empty
      · cases empty
      · split at empty <;> cases empty

theorem popLeast_perm {pq others : List (K × ℕ)} {top : K × ℕ}
    (popped : popLeast pq = some (top, others)) : pq.Perm (top :: others) := by
  induction pq generalizing top others with
  | nil => cases popped
  | cons e rest ih =>
      rw [popLeast] at popped
      split at popped
      next empty =>
        obtain ⟨rfl, rfl⟩ := Prod.mk.inj (Option.some.inj popped)
        rw [popLeast_eq_none empty]
      next f left found =>
        split at popped
        · obtain ⟨rfl, rfl⟩ := Prod.mk.inj (Option.some.inj popped)
          exact .refl _
        · obtain ⟨rfl, rfl⟩ := Prod.mk.inj (Option.some.inj popped)
          exact ((ih found).cons e).trans (.swap ..)

theorem popLeast_least {pq others : List (K × ℕ)} {top : K × ℕ}
    (popped : popLeast pq = some (top, others)) : ∀ e ∈ pq, top.1 ≤ e.1 := by
  induction pq generalizing top others with
  | nil => cases popped
  | cons e rest ih =>
      intro e' mem
      rw [popLeast] at popped
      split at popped
      next empty =>
        obtain ⟨rfl, rfl⟩ := Prod.mk.inj (Option.some.inj popped)
        rw [popLeast_eq_none empty, List.mem_singleton] at mem
        rw [mem]
      next f left found =>
        split at popped
        next before =>
          obtain ⟨rfl, rfl⟩ := Prod.mk.inj (Option.some.inj popped)
          rcases List.mem_cons.1 mem with rfl | later
          · exact le_rfl
          · refine le_trans ?_ (ih found e' later)
            rcases before with less | same
            · exact less.le
            · exact same.1.le
        next after =>
          obtain ⟨rfl, rfl⟩ := Prod.mk.inj (Option.some.inj popped)
          rcases List.mem_cons.1 mem with rfl | later
          · exact not_lt.1 fun less => after (.inl less)
          · exact ih found e' later

end Queue

/-! ## The interval and its codes -/

section Interval

variable {K : Type} [Field K] [LinearOrder K] [FloorRing K] (absRot : ℕ → K) (dim exBits : ℕ)

/-- `max_code`. -/
def topCode : ℤ := 2 ^ exBits - 1

/-- `t_end`. -/
def searchEnd : K :=
  ((topCode exBits + 10 : ℤ) : K) /
    (if maxElement absRot dim < kEps then kEps else maxElement absRot dim)

/-- `t_start`. -/
def searchStart : K := searchEnd absRot dim exBits * lit (kTightStart.getD exBits 0)

/-- The vector as the search reads it. -/
def sizesOf (i : Fin dim) : K := absRot i

/-- The code of the vector quantised at a scale. -/
def codeAt (t : K) (i : Fin dim) : ℤ := scaledCode t (topCode exBits) (absRot i)

/-- The code the search starts from. -/
def firstCode : Fin dim → ℤ := codeAt absRot dim exBits (searchStart absRot dim exBits)

/-- The code it ends with: a coordinate above `kEps` goes on while its next change is before
`t_end`, and its first change is made wherever it is. -/
def lastCode (i : Fin dim) : ℤ :=
  if kEps < absRot i ∧ firstCode absRot dim exBits i < topCode exBits then
    min (topCode exBits) (max (firstCode absRot dim exBits i + 1)
      (⌈searchEnd absRot dim exBits * absRot i⌉ - 1))
  else firstCode absRot dim exBits i

end Interval

/-! ## Codes of the interval -/

section Codes

variable {K : Type} [Field K] [LinearOrder K] [IsStrictOrderedRing K] [FloorRing K]
  {absRot : ℕ → K} {dim exBits : ℕ}

theorem topCode_nonneg : 0 ≤ topCode exBits := by
  have := @Int.pow_pos 2 exBits (by decide)
  rw [topCode]
  omega

theorem searchEnd_nonneg : 0 ≤ searchEnd absRot dim exBits := by
  have top := @topCode_nonneg exBits
  refine div_nonneg (Int.cast_nonneg (by omega)) ?_
  split
  · exact kEps_pos.le
  · exact kEps_pos.le.trans (not_lt.1 ‹_›)

theorem kTightStart_range (exBits : ℕ) :
    0 ≤ kTightStart.getD exBits 0 ∧ kTightStart.getD exBits 0 ≤ 1 := by
  have all : kTightStart.all (fun q => decide (0 ≤ q ∧ q ≤ 1)) = true := by decide +kernel
  rw [List.getD_eq_getElem?_getD]
  cases entry : kTightStart[exBits]? with
  | none => exact ⟨le_rfl, zero_le_one⟩
  | some tight => exact of_decide_eq_true (List.all_eq_true.1 all tight (List.mem_of_getElem? entry))

theorem searchStart_nonneg : 0 ≤ searchStart absRot dim exBits :=
  mul_nonneg searchEnd_nonneg (Rat.cast_nonneg.2 (kTightStart_range exBits).1)

theorem searchStart_le : searchStart absRot dim exBits ≤ searchEnd absRot dim exBits := by
  refine mul_le_of_le_one_right searchEnd_nonneg ?_
  exact (Rat.cast_le.2 (kTightStart_range exBits).2).trans_eq Rat.cast_one

/-- A scaled value, rounded down. -/
theorem scaledCode_eq {t a : K} (scale : 0 ≤ t) (size : 0 ≤ a) (top : ℤ) :
    scaledCode t top a = min top ⌊t * a + kEps⌋ := by
  have nonneg : 0 ≤ t * a + kEps := add_nonneg (mul_nonneg scale size) kEps_pos.le
  rw [scaledCode, toInt, if_pos nonneg]
  split
  next above => rw [min_eq_left above.le]
  next below => rw [min_eq_right (not_lt.1 below)]

variable (sizes : ∀ i : Fin dim, 0 ≤ absRot i)

include sizes

theorem codeAt_mono {t t' : K} (scale : 0 ≤ t) (le : t ≤ t') :
    codeAt absRot dim exBits t ≤ codeAt absRot dim exBits t' := by
  intro i
  have size := sizes i
  rw [codeAt, codeAt, scaledCode_eq scale size, scaledCode_eq (scale.trans le) size]
  refine min_le_min_left _ (Int.floor_le_floor ?_)
  have := mul_le_mul_of_nonneg_right le size
  linarith

theorem codeAt_nonneg {t : K} (scale : 0 ≤ t) (i : Fin dim) : 0 ≤ codeAt absRot dim exBits t i :=
  scaledCode_nonneg scale (sizes i) topCode_nonneg

theorem firstCode_nonneg (i : Fin dim) : 0 ≤ firstCode absRot dim exBits i :=
  codeAt_nonneg sizes searchStart_nonneg i

omit sizes [IsStrictOrderedRing K] in
theorem codeAt_le_top (t : K) (i : Fin dim) : codeAt absRot dim exBits t i ≤ topCode exBits :=
  scaledCode_le _ _ _

omit sizes [IsStrictOrderedRing K] in
theorem first_le_last : firstCode absRot dim exBits ≤ lastCode absRot dim exBits := by
  intro i
  rw [lastCode]
  split
  next goes => exact le_min goes.2.le (le_max_of_le_left (Int.le_add_one le_rfl))
  next => exact le_rfl

omit sizes [IsStrictOrderedRing K] in
theorem last_le_top (i : Fin dim) : lastCode absRot dim exBits i ≤ topCode exBits := by
  rw [lastCode]
  split
  · exact min_le_left _ _
  · exact codeAt_le_top _ i

omit sizes [IsStrictOrderedRing K] in
/-- A coordinate that is raised is above `kEps`. -/
theorem raised_size {i : Fin dim}
    (raised : firstCode absRot dim exBits i < lastCode absRot dim exBits i) : kEps < absRot i := by
  rw [lastCode] at raised
  split at raised
  next goes => exact goes.1
  next => exact absurd raised (lt_irrefl _)

omit sizes in
/-- After the first change, a code goes on while the next one is before the end. -/
theorem lt_last_iff {i : Fin dim} {c : ℤ}
    (raised : firstCode absRot dim exBits i < lastCode absRot dim exBits i)
    (past : firstCode absRot dim exBits i < c) :
    c < lastCode absRot dim exBits i ↔
      c < topCode exBits ∧ ((c : K) + 1) / absRot i < searchEnd absRot dim exBits := by
  have size : 0 < absRot i := kEps_pos.trans (raised_size raised)
  have next : ((c : K) + 1) / absRot i < searchEnd absRot dim exBits ↔
      c + 1 < ⌈searchEnd absRot dim exBits * absRot i⌉ := by
    rw [div_lt_iff₀ size, Int.lt_ceil, Int.cast_add, Int.cast_one]
  rw [next]
  rw [lastCode] at raised ⊢
  split at raised
  next goes =>
    rw [if_pos goes]
    omega
  next => exact absurd raised (lt_irrefl _)

/-- A change comes after the start, and is seen by the quantiser. -/
theorem change_spec {i : Fin dim} {c : ℤ} (past : firstCode absRot dim exBits i < c)
    (within : c ≤ lastCode absRot dim exBits i) :
    searchStart absRot dim exBits ≤ (c : K) / absRot i ∧
      c ≤ codeAt absRot dim exBits ((c : K) / absRot i) i := by
  have size : 0 < absRot i := kEps_pos.trans (raised_size (past.trans_le within))
  have top := within.trans (last_le_top i)
  have start := @searchStart_nonneg K _ _ _ _ absRot dim exBits
  have after : searchStart absRot dim exBits ≤ (c : K) / absRot i := by
    rw [firstCode, codeAt, scaledCode_eq start (sizes i)] at past
    have floor := (min_lt_iff.1 past).resolve_left (not_lt.2 top)
    have below := (Int.floor_lt.1 floor).le
    rw [le_div_iff₀ size]
    have := @kEps_pos K _ _ _
    linarith
  refine ⟨after, ?_⟩
  rw [codeAt, scaledCode_eq (start.trans after) size.le, div_mul_cancel₀ _ size.ne']
  refine le_min top (Int.le_floor.2 ?_)
  have := @kEps_pos K _ _ _
  linarith

end Codes

/-! ## The search -/

section Run

variable {K : Type} [Field K] [LinearOrder K] [FloorRing K] (arith : ExactArith K)
  (absRot : ℕ → K) (dim exBits : ℕ)

/-- `numer / std::sqrt(sqr_denom)` for a code. -/
def codeIp (code : Fin dim → ℤ) : K :=
  codeDot (sizesOf absRot dim) code / arith.sqrt (codeNormSq K code)

/-- The codes of a state. -/
def Search.code (s : Search K) (i : Fin dim) : ℤ := s.curCode i

/-- What the search keeps: its queue, its sums, and of the codes it has passed the first that is
best. -/
structure Search.Walks (s : Search K) : Prop where
  queued : ∀ e, e ∈ s.pq ↔ ∃ i : Fin dim,
    s.code dim i < lastCode absRot dim exBits i ∧ e = (((s.code dim i : K) + 1) / absRot i, (i : ℕ))
  nodup : s.pq.Nodup
  order : InOrder (sizesOf absRot dim) (firstCode absRot dim exBits) (lastCode absRot dim exBits)
    (s.code dim)
  numer : s.numer = codeDot (sizesOf absRot dim) (s.code dim)
  sqrDenom : s.sqrDenom = codeNormSq K (s.code dim)
  passed : ∀ d, IsSharp (sizesOf absRot dim) (firstCode absRot dim exBits)
    (lastCode absRot dim exBits) d → d ≤ s.code dim → d ≠ firstCode absRot dim exBits →
      codeIp arith absRot dim d ≤ s.maxIp
  best : s.code dim = firstCode absRot dim exBits ∧ s.maxIp = 0 ∧
      s.bestT = searchStart absRot dim exBits ∨
    ∃ d, ReachedAt (sizesOf absRot dim) (firstCode absRot dim exBits) (lastCode absRot dim exBits)
      d s.bestT ∧ codeIp arith absRot dim d = s.maxIp ∧ d ≤ s.code dim ∧
      ∀ e, IsSharp (sizesOf absRot dim) (firstCode absRot dim exBits) (lastCode absRot dim exBits)
        e → e ≤ s.code dim → e ≠ firstCode absRot dim exBits →
          codeIp arith absRot dim e = s.maxIp → d ≤ e

variable {arith absRot dim exBits}

omit [FloorRing K] in
/-- A turn raises the coordinate on top of the queue. -/
theorem Search.code_turn {tEnd curT : K} {top : ℤ} {i : Fin dim} (s : Search K)
    (others : List (K × ℕ)) :
    (Search.turn arith absRot top tEnd curT i { s with pq := others }).code dim =
      raise (s.code dim) i := by
  funext j
  by_cases same : j = i
  · subst same
    rw [raise_self]
    exact Function.update_self ..
  · rw [raise_of_ne _ same]
    exact Function.update_of_ne (fun equal => same (Fin.ext equal)) ..

/-- The top of the queue is the next change; the rest are those of the other coordinates. -/
theorem Search.Walks.pop {s : Search K} (walks : s.Walks arith absRot dim exBits) {top : K × ℕ}
    {others : List (K × ℕ)} (popped : popLeast s.pq = some (top, others)) :
    ∃ i : Fin dim, s.code dim i < lastCode absRot dim exBits i ∧
      top = (((s.code dim i : K) + 1) / absRot i, (i : ℕ)) ∧
      (∀ j, s.code dim j < lastCode absRot dim exBits j →
        ((s.code dim i : K) + 1) / absRot i ≤ ((s.code dim j : K) + 1) / absRot j) ∧
      others.Nodup ∧ ∀ e, e ∈ others ↔ ∃ j, j ≠ i ∧ s.code dim j < lastCode absRot dim exBits j ∧
        e = (((s.code dim j : K) + 1) / absRot j, (j : ℕ)) := by
  have perm := popLeast_perm popped
  have distinct := List.nodup_cons.1 (perm.nodup_iff.1 walks.nodup)
  obtain ⟨i, waits, rfl⟩ := (walks.queued top).1 (perm.mem_iff.2 List.mem_cons_self)
  refine ⟨i, waits, rfl, fun j left => ?_, distinct.2, fun e => ⟨fun mem => ?_, ?_⟩⟩
  · exact popLeast_least popped _ ((walks.queued _).2 ⟨j, left, rfl⟩)
  · obtain ⟨j, left, rfl⟩ := (walks.queued e).1 (perm.mem_iff.2 (List.mem_cons_of_mem _ mem))
    refine ⟨j, ?_, left, rfl⟩
    rintro rfl
    exact distinct.1 mem
  · rintro ⟨j, other, left, rfl⟩
    have mem := perm.mem_iff.1 ((walks.queued _).2 ⟨j, left, rfl⟩)
    refine (List.mem_cons.1 mem).resolve_left fun same => other ?_
    exact Fin.ext (Prod.mk.inj same).2

/-- The search before its loop. -/
theorem Search.walks_start : (Search.start absRot dim (topCode exBits)
    (searchStart absRot dim exBits)).Walks arith absRot dim exBits := by
  have half : (lit 0.5 : K) = 1 / 2 := by norm_num [lit]
  have quarter : (lit 0.25 : K) = 1 / 4 := by norm_num [lit]
  have code : (Search.start absRot dim (topCode exBits) (searchStart absRot dim exBits)).code dim =
      firstCode absRot dim exBits := rfl
  have goes : ∀ i : Fin dim,
      firstCode absRot dim exBits i < lastCode absRot dim exBits i ↔
        kEps < absRot i ∧ firstCode absRot dim exBits i < topCode exBits := by
    intro i
    rw [lastCode]
    split
    next goes => simp only [goes, lt_min_iff, lt_max_iff, lt_add_one, true_or, and_self]
    next stays => simp only [stays, lt_irrefl]
  refine ⟨fun e => ?_, ?_, ⟨le_rfl, first_le_last, fun i j done => absurd done (lt_irrefl _)⟩, ?_, ?_,
    fun d sharp below other => absurd (le_antisymm below sharp.low) other, .inl ⟨rfl, rfl, rfl⟩⟩
  · rw [code]
    constructor
    · intro mem
      obtain ⟨i, inside, entry⟩ := List.mem_filterMap.1 mem
      dsimp only at entry
      split at entry
      next waits =>
        have inside := List.mem_range.1 inside
        exact ⟨⟨i, inside⟩, (goes ⟨i, inside⟩).2 waits, (Option.some.inj entry).symm⟩
      next => cases entry
    · rintro ⟨i, waits, rfl⟩
      refine List.mem_filterMap.2 ⟨i, List.mem_range.2 i.2, ?_⟩
      exact if_pos ((goes i).1 waits)
  · refine List.Nodup.filterMap (fun i j e mem mem' => ?_) List.nodup_range
    rw [Option.mem_def] at mem mem'
    split at mem
    next =>
      split at mem'
      next => exact (Prod.mk.inj ((Option.some.inj mem).trans (Option.some.inj mem').symm)).2
      next => cases mem'
    next => cases mem
  · rw [code, codeDot_eq]
    change sumTo dim _ = _
    rw [sumTo_eq, sum_range, half]
    rfl
  · rw [code, codeNormSq_eq]
    change (dim : K) * lit 0.25 + sumTo dim _ = _
    rw [sumTo_eq, sum_range, quarter]
    have square : ∀ c : ℤ, ((c : K) + 1 / 2) ^ 2 = 1 / 4 + ((c : K) * c + c) := fun c => by ring
    have parts : ∑ i, ((firstCode absRot dim exBits i : K) + 1 / 2) ^ 2 = (dim : K) * (1 / 4) +
        ∑ i, ((firstCode absRot dim exBits i : K) * firstCode absRot dim exBits i +
          firstCode absRot dim exBits i) := by
      rw [sum_congr rfl fun i _ => square (firstCode absRot dim exBits i), sum_add_distrib,
        sum_const, card_univ, Fintype.card_fin, nsmul_eq_mul]
    exact parts.symm

variable [IsStrictOrderedRing K]

/-- The queue after a turn. -/
theorem Search.Walks.queued_turn {s : Search K} (walks : s.Walks arith absRot dim exBits)
    {i : Fin dim} (waits : s.code dim i < lastCode absRot dim exBits i) {others : List (K × ℕ)}
    (distinct : others.Nodup) (left : ∀ e, e ∈ others ↔ ∃ j, j ≠ i ∧
      s.code dim j < lastCode absRot dim exBits j ∧
        e = (((s.code dim j : K) + 1) / absRot j, (j : ℕ))) (curT : K) :
    let s' := Search.turn arith absRot (topCode exBits) (searchEnd absRot dim exBits) curT i
      { s with pq := others }
    (∀ e, e ∈ s'.pq ↔ ∃ j, s'.code dim j < lastCode absRot dim exBits j ∧
      e = (((s'.code dim j : K) + 1) / absRot j, (j : ℕ))) ∧ s'.pq.Nodup := by
  intro s'
  have code : s'.code dim = raise (s.code dim) i := Search.code_turn s others
  have first := walks.order.low i
  have goes : s.code dim i + 1 < lastCode absRot dim exBits i ↔
      s.code dim i + 1 < topCode exBits ∧
        (((s.code dim i + 1 : ℤ) : K) + 1) / absRot i < searchEnd absRot dim exBits :=
    lt_last_iff (first.trans_lt waits) (Int.lt_add_one_of_le first)
  have pq : s'.pq = if s.code dim i + 1 < lastCode absRot dim exBits i then
      ((((s.code dim i + 1 : ℤ) : K) + 1) / absRot i, (i : ℕ)) :: others else others := by
    rw [if_congr goes rfl rfl]
    rfl
  have fresh : ((((s.code dim i + 1 : ℤ) : K) + 1) / absRot i, (i : ℕ)) ∉ others := by
    intro mem
    obtain ⟨j, other, -, same⟩ := (left _).1 mem
    exact other (Fin.ext (Prod.mk.inj same).2.symm)
  rw [pq, code]
  constructor
  · intro e
    have rest : (∃ j, j ≠ i ∧ s.code dim j < lastCode absRot dim exBits j ∧
        e = (((s.code dim j : K) + 1) / absRot j, (j : ℕ))) ↔
        ∃ j, j ≠ i ∧ raise (s.code dim) i j < lastCode absRot dim exBits j ∧
          e = (((raise (s.code dim) i j : K) + 1) / absRot j, (j : ℕ)) := by
      refine exists_congr fun j => and_congr_right fun other => ?_
      rw [raise_of_ne _ other]
    have byCase : (∃ j, raise (s.code dim) i j < lastCode absRot dim exBits j ∧
        e = (((raise (s.code dim) i j : K) + 1) / absRot j, (j : ℕ))) ↔
        (s.code dim i + 1 < lastCode absRot dim exBits i ∧
          e = ((((s.code dim i + 1 : ℤ) : K) + 1) / absRot i, (i : ℕ))) ∨ e ∈ others := by
      rw [left, rest]
      constructor
      · rintro ⟨j, here⟩
        by_cases same : j = i
        · subst same
          rw [raise_self] at here
          exact .inl here
        · exact .inr ⟨j, same, here⟩
      · rintro (here | ⟨j, -, here⟩)
        · refine ⟨i, ?_⟩
          rw [raise_self]
          exact here
        · exact ⟨j, here⟩
    rw [byCase]
    by_cases more : s.code dim i + 1 < lastCode absRot dim exBits i
    · rw [if_pos more, List.mem_cons, and_iff_right more]
    · rw [if_neg more]
      exact (or_iff_right fun bad => more bad.1).symm
  · split
    · exact List.nodup_cons.2 ⟨fresh, distinct⟩
    · exact distinct

section Sizes

variable (root : ∀ x, 0 ≤ arith.sqrt x) (sizes : ∀ i : Fin dim, 0 ≤ absRot i)
  (positive : ∃ i : Fin dim, 0 < absRot i)

include root sizes positive

omit [FloorRing K] in
theorem codeIp_pos {code : Fin dim → ℤ} (codes : ∀ i, 0 ≤ code i) : 0 < codeIp arith absRot dim code := by
  have := positive.nonempty
  have norm := codeNormSq_pos (K := K) codes
  refine div_pos (codeDot_pos sizes positive codes) ((root _).lt_of_ne fun zero => ?_)
  have square := arith.sqrt_mul_self _ norm.le
  rw [← zero, mul_zero] at square
  exact norm.ne square

/-- **A turn keeps what the search keeps.** -/
theorem Search.Walks.turn {s : Search K} (walks : s.Walks arith absRot dim exBits) {top : K × ℕ}
    {others : List (K × ℕ)} (popped : popLeast s.pq = some (top, others)) :
    let s' := Search.turn arith absRot (topCode exBits) (searchEnd absRot dim exBits) top.1 top.2
      { s with pq := others }
    s'.Walks arith absRot dim exBits ∧
      ∃ i, s.code dim i < lastCode absRot dim exBits i ∧ s'.code dim = raise (s.code dim) i := by
  obtain ⟨i, waits, rfl, least, distinct, left⟩ := walks.pop popped
  intro s'
  have code : s'.code dim = raise (s.code dim) i := Search.code_turn s others
  have reached := walks.order.raise (sizes i) waits least
  have queue := walks.queued_turn waits distinct left (((s.code dim i : K) + 1) / absRot i)
  have two : (lit 2.0 : K) = 2 := by norm_num [lit]
  have numer : s'.numer = codeDot (sizesOf absRot dim) (s'.code dim) := by
    rw [code, codeDot_raise, ← walks.numer]
    rfl
  have sqrDenom : s'.sqrDenom = codeNormSq K (s'.code dim) := by
    rw [code, codeNormSq_raise, ← walks.sqrDenom]
    change s.sqrDenom + lit 2.0 * ((s.code dim i + 1 : ℤ) : K) = _
    rw [two, Int.cast_add, Int.cast_one]
  have curIp : s'.numer / arith.sqrt s'.sqrDenom = codeIp arith absRot dim (s'.code dim) := by
    rw [numer, sqrDenom, codeIp]
  have maxIp : s'.maxIp = if s.maxIp < codeIp arith absRot dim (s'.code dim) then
      codeIp arith absRot dim (s'.code dim) else s.maxIp := by
    rw [← curIp]
    rfl
  have bestT : s'.bestT = if s.maxIp < codeIp arith absRot dim (s'.code dim) then
      ((s.code dim i : K) + 1) / absRot i else s.bestT := by
    rw [← curIp]
    rfl
  have grows : s.code dim ≤ s'.code dim := by
    rw [code]
    exact le_raise _ i
  have passed : ∀ d, IsSharp (sizesOf absRot dim) (firstCode absRot dim exBits)
      (lastCode absRot dim exBits) d → d ≤ s'.code dim → d ≠ firstCode absRot dim exBits →
        d ≤ s.code dim ∧ codeIp arith absRot dim d ≤ s.maxIp ∨ d = s'.code dim := by
    intro d sharp below other
    by_cases old : d ≤ s.code dim
    · exact .inl ⟨old, walks.passed d sharp old other⟩
    · rw [code] at below ⊢
      exact .inr (sharp.eq_raise sizes walks.order waits below old)
  refine ⟨⟨queue.1, queue.2, ?_, numer, sqrDenom, fun d sharp below other => ?_, ?_⟩, i, waits, code⟩
  · rw [code]
    exact reached.inOrder
  · -- what was passed before, or the code of this turn
    rcases passed d sharp below other with ⟨old, le⟩ | rfl
    · refine le.trans ?_
      rw [maxIp]
      split
      next less => exact less.le
      next => exact le_rfl
    · rw [maxIp]
      split
      next => exact le_rfl
      next less => exact not_lt.1 less
  · right
    by_cases better : s.maxIp < codeIp arith absRot dim (s'.code dim)
    · rw [bestT, maxIp, if_pos better, if_pos better]
      refine ⟨s'.code dim, ?_, rfl, le_rfl, fun e sharp below other same => ?_⟩
      · rw [code]
        exact reached
      · rcases passed e sharp below other with ⟨-, le⟩ | rfl
        · exact absurd (same.symm.le.trans le) (not_le.2 better)
        · exact le_rfl
    · rw [bestT, maxIp, if_neg better, if_neg better]
      obtain ⟨d, scale, ip, low, least⟩ := walks.best.resolve_left fun start => better <| by
        rw [start.2.1]
        refine codeIp_pos root sizes positive fun j => ?_
        rw [code]
        exact (firstCode_nonneg sizes j).trans (reached.low j)
      refine ⟨d, scale, ip, low.trans grows, fun e sharp below other same => ?_⟩
      rcases passed e sharp below other with ⟨old, -⟩ | rfl
      · exact least e sharp old other same
      · exact low.trans grows

omit [FloorRing K] in
/-- The score orders the codes as the search does. -/
theorem codeIp_le_iff {c d : Fin dim → ℤ} (codes : ∀ i, 0 ≤ c i) (codes' : ∀ i, 0 ≤ d i) :
    codeIp arith absRot dim c ≤ codeIp arith absRot dim d ↔
      codeScore (sizesOf absRot dim) c ≤ codeScore (sizesOf absRot dim) d := by
  have := positive.nonempty
  have square : ∀ {c : Fin dim → ℤ}, (∀ i, 0 ≤ c i) →
      codeIp arith absRot dim c ^ 2 = codeScore (sizesOf absRot dim) c := fun codes => by
    rw [codeIp, codeScore, div_pow, sq (arith.sqrt _),
      arith.sqrt_mul_self _ (codeNormSq_pos codes).le]
  rw [← square codes, ← square codes', sq_le_sq₀ (codeIp_pos root sizes positive codes).le
    (codeIp_pos root sizes positive codes').le]

omit [FloorRing K] root sizes positive in
/-- The changes that are left. -/
theorem sum_left_raise {last code : Fin dim → ℤ} {i : Fin dim} (waits : code i < last i) :
    (∑ j, (last j - raise code i j).toNat) + 1 = ∑ j, (last j - code j).toNat := by
  rw [← add_sum_erase univ (fun j => (last j - raise code i j).toNat) (mem_univ i),
    ← add_sum_erase univ (fun j => (last j - code j).toNat) (mem_univ i),
    sum_congr rfl fun j mem => by rw [raise_of_ne code (ne_of_mem_erase mem)], raise_self]
  omega

/-- **The search ends at the last code**, with the best it has passed. -/
theorem Search.Walks.loop (fuel : ℕ) {s : Search K} (walks : s.Walks arith absRot dim exBits)
    (enough : ∑ i, (lastCode absRot dim exBits i - s.code dim i).toNat ≤ fuel) :
    let out := Search.loop arith absRot (topCode exBits) (searchEnd absRot dim exBits) fuel s
    out.Walks arith absRot dim exBits ∧ out.code dim = lastCode absRot dim exBits := by
  induction fuel generalizing s with
  | zero =>
      refine ⟨walks, le_antisymm walks.order.high fun i => ?_⟩
      have none_left := (sum_eq_zero_iff.1 (Nat.le_zero.1 enough)) i (mem_univ i)
      exact sub_nonpos.1 (Int.toNat_eq_zero.1 none_left)
  | succ fuel ih =>
      intro out
      cases popped : popLeast s.pq with
      | none =>
          have stops : out = s := by
            change Search.loop _ _ _ _ _ _ = s
            rw [Search.loop, popped]
          rw [stops]
          refine ⟨walks, le_antisymm walks.order.high fun i => not_lt.1 fun waits => ?_⟩
          have mem := (walks.queued _).2 ⟨i, waits, rfl⟩
          rw [popLeast_eq_none popped] at mem
          cases mem
      | some found =>
          obtain ⟨top, others⟩ := found
          obtain ⟨walks', i, waits, code⟩ := walks.turn root sizes positive popped
          have goes : out = Search.loop arith absRot (topCode exBits) (searchEnd absRot dim exBits)
              fuel (Search.turn arith absRot (topCode exBits) (searchEnd absRot dim exBits) top.1
                top.2 { s with pq := others }) := by
            change Search.loop _ _ _ _ _ _ = _
            rw [Search.loop, popped]
          rw [goes]
          refine ih walks' ?_
          rw [code]
          have less := @sum_left_raise dim _ _ _ waits
          omega

/-- The factor that is returned, and the search that found it. -/
theorem bestRescaleFactorSlow_walks (few : exBits ≤ 8) :
    ∃ s : Search K, bestRescaleFactorSlow arith absRot dim exBits = some s.bestT ∧
      s.Walks arith absRot dim exBits ∧ s.code dim = lastCode absRot dim exBits := by
  have nonempty : dim ≠ 0 := by
    rintro rfl
    obtain ⟨i, -⟩ := positive
    exact i.elim0
  have length : kTightStart.length = 9 := rfl
  have entry : kTightStart[exBits]? = some (kTightStart.getD exBits 0) := by
    rw [List.getD_eq_getElem?_getD, List.getElem?_eq_getElem (by omega), Option.getD_some]
  have start := @Search.walks_start K _ _ _ arith absRot dim exBits
  have enough : ∑ i, (lastCode absRot dim exBits i - (Search.start absRot dim (topCode exBits)
      (searchStart absRot dim exBits)).code dim i).toNat ≤ dim * (topCode exBits).toNat := by
    have each : ∀ i ∈ univ, (lastCode absRot dim exBits i - (Search.start absRot dim (topCode exBits)
        (searchStart absRot dim exBits)).code dim i).toNat ≤ (topCode exBits).toNat := fun i _ => by
      have top : lastCode absRot dim exBits i ≤ topCode exBits := last_le_top i
      have low : 0 ≤ (Search.start absRot dim (topCode exBits)
        (searchStart absRot dim exBits)).code dim i := firstCode_nonneg sizes i
      omega
    refine (sum_le_card_nsmul univ _ _ each).trans_eq ?_
    rw [card_univ, Fintype.card_fin, smul_eq_mul]
  obtain ⟨walks, last⟩ := start.loop root sizes positive _ enough
  refine ⟨_, ?_, walks, last⟩
  rw [bestRescaleFactorSlow, if_neg nonempty, entry]
  rfl

end Sizes

end Run

end VecFetch.Rabitq
