/-
# Query.FrontierOrder -- the frontiers are order statistics

Any estimates added to the two frontiers, in any order and read at any moment.  The SafeOut
frontier is the `topK`-th smallest upper bound so far and the SafeIn frontier the `topK`-th
smallest finite lower bound so far (`frontiers_exact`); lower bounds that are not finite are
never added, so they may be anything.
-/
import VecFetch.Theory.OrderStatistic
import VecFetch.Query.Frontier

namespace VecFetch.Query

open VecFetch.Theory

set_option autoImplicit false

/-! ## Estimates and what they add -/

inductive FrontierEvent where
  | safeOut (estimate : EstimateHeapEntry)
  | safeIn (lowerBound : Flt)

def EstimateHeapEntry.upperBound (e : EstimateHeapEntry) : Flt := e.distance.add e.errorBound

variable (std : StdAlgo) (env : Env)

def addEstimate (s : Sched) : FrontierEvent → Sched
  | .safeOut estimate => addSafeOutFrontierEstimate std env estimate s
  | .safeIn lowerBound => addSafeInFrontierEstimate std env lowerBound s

def addEstimates (events : List FrontierEvent) (s : Sched) : Sched :=
  events.foldl (addEstimate std env) s

def FrontierEvent.upper : FrontierEvent → Option Flt
  | .safeOut estimate => some estimate.upperBound
  | .safeIn _ => none

def FrontierEvent.lower : FrontierEvent → Option Flt
  | .safeOut _ => none
  | .safeIn lowerBound => if lowerBound.isFinite then some lowerBound else none

/-- The upper bounds added; without a frontier none is. -/
def uppersOf (events : List FrontierEvent) : List Flt :=
  if env.useEstimateFrontier then events.filterMap FrontierEvent.upper else []

/-- The finite lower bounds added. -/
def lowersOf (events : List FrontierEvent) : List Flt :=
  if env.useEstimateFrontier then events.filterMap FrontierEvent.lower else []

/-- The value is the `topK`-th smallest of the bounds, and infinite while there are fewer. -/
def IsFrontier (bounds : List Flt) (value : Flt) : Prop :=
  if bounds.length < env.config.topK.toNat then value = .posInf
  else IsKth Flt.lt env.config.topK.toNat bounds value

/-- Once finite, the value never increases. -/
def NeverIncreases (before after : Flt) : Prop := before.isFinite = true → after.le before = true

/-- Both frontiers are exact now, and have not increased since any earlier moment. -/
structure FrontiersExact (events : List FrontierEvent) (s : Sched) : Prop where
  upper : IsFrontier env (uppersOf env events) (safeOutFrontierUpper env (addEstimates std env events s))
  lower : IsFrontier env (lowersOf env events) (safeInFrontierLower env (addEstimates std env events s))
  upper_antitone : ∀ before later, events = before ++ later →
    NeverIncreases (safeOutFrontierUpper env (addEstimates std env before s))
      (safeOutFrontierUpper env (addEstimates std env events s))
  lower_antitone : ∀ before later, events = before ++ later →
    NeverIncreases (safeInFrontierLower env (addEstimates std env before s))
      (safeInFrontierLower env (addEstimates std env events s))

/-! ## Order -/

theorem numbers_order {l : List Flt} (numbers : ∀ x ∈ l, x ≠ .nan) : StrictWeakOn Flt.lt l where
  asymm _ _ _ _ below := Flt.lt_asymm below
  negTrans _ _ b inB _ _ first second := Flt.lt_negTrans (numbers b inB) first second

/-- Bounds compared through what carries them. -/
theorem carried_order {β : Type} {key : β → Flt} {l : List β} (numbers : ∀ x ∈ l, key x ≠ .nan) :
    StrictWeakOn (fun a b => (key a).lt (key b)) l where
  asymm _ _ _ _ below := Flt.lt_asymm below
  negTrans _ _ b inB _ _ first second := Flt.lt_negTrans (numbers b inB) first second

/-- Among numbers there is one `k`-th smallest. -/
theorem isKth_eq {k : ℕ} {l : List Flt} {v w : Flt} (numbers : ∀ x ∈ l, x ≠ .nan)
    (first : IsKth Flt.lt k l v) (second : IsKth Flt.lt k l w) : v = w := by
  obtain ⟨notBelow, notAbove⟩ := first.unique (numbers_order numbers) second
  have numberV := numbers v first.mem
  have numberW := numbers w second.mem
  cases v <;> cases w <;> simp_all [Flt.lt]
  exact le_antisymm notAbove notBelow

variable {env}

/-- A frontier over more bounds is not above the frontier before. -/
theorem IsFrontier.antitone {bounds more : List Flt} {value next : Flt}
    (numbers : ∀ x ∈ bounds ++ more, x ≠ .nan) (before : IsFrontier env bounds value)
    (after : IsFrontier env (bounds ++ more) next) : NeverIncreases value next := by
  intro isFinite
  rw [IsFrontier] at before after
  split at before
  · rw [before] at isFinite
    cases isFinite
  · next full =>
      rw [if_neg (by rw [List.length_append]; omega)] at after
      have notAbove := before.antitone (numbers_order numbers) after
      have numberV := numbers value (List.mem_append_left _ before.mem)
      have numberW := numbers next after.mem
      cases value <;> cases next <;> simp_all [Flt.le]

/-- What a heap's front carries. -/
def frontOf {β : Type} (key : β → Flt) : List β → Flt
  | [] => .posInf
  | front :: _ => key front

/-- A heap that keeps the `topK` smallest carriers gives the frontier of their bounds. -/
theorem isFrontier_of_smallest {β : Type} {key : β → Flt} {seen heap : List β}
    (numbers : ∀ x ∈ seen, key x ≠ .nan) (some_k : 0 < env.config.topK.toNat)
    (small : std.Smallest (fun a b => (key a).lt (key b)) env.config.topK.toNat seen heap) :
    IsFrontier env (seen.map key)
      (if heap.length < env.config.topK.toNat then .posInf else frontOf key heap) := by
  have length := small.length_eq
  rw [IsFrontier, List.length_map]
  by_cases fewer : seen.length < env.config.topK.toNat
  · rw [if_pos fewer, if_pos (by omega)]
  · rw [if_neg fewer, if_neg (by omega)]
    cases heap with
    | nil =>
        rw [List.length_nil] at length
        omega
    | cons front rest => exact (small.isKth (carried_order numbers) (by omega)).map

/-! ## What the heaps hold -/

variable (env)

/-- The heaps keep the `topK` smallest of what was added. -/
structure HeapsKeep (outs : List SafeOutFrontierEntry) (ins : List SafeInFrontierEntry)
    (s : Sched) : Prop where
  out : std.Smallest SafeOutFrontierEntry.lt env.config.topK.toNat outs s.safeoutFrontierHeap
  inn : std.Smallest SafeInFrontierEntry.lt env.config.topK.toNat ins s.safeinFrontierHeap

variable {std env} {outs : List SafeOutFrontierEntry} {ins : List SafeInFrontierEntry} {s : Sched}

theorem HeapsKeep.addSafeOut (keeps : HeapsKeep std env outs ins s)
    (on : env.useEstimateFrontier = true) (some_k : env.config.topK ≠ 0)
    {estimate : EstimateHeapEntry} (number : estimate.upperBound ≠ .nan)
    (numbers : ∀ x ∈ outs, x.upperBound ≠ .nan) :
    HeapsKeep std env
      (outs ++ [⟨estimate.distance, estimate.errorBound, estimate.upperBound⟩]) ins
      (addSafeOutFrontierEstimate std env estimate s) := by
  have order : StrictWeakOn SafeOutFrontierEntry.lt
      (⟨estimate.distance, estimate.errorBound, estimate.upperBound⟩ :: outs) := by
    refine carried_order fun x mem => ?_
    rcases List.mem_cons.1 mem with rfl | before
    · exact number
    · exact numbers x before
  rw [addSafeOutFrontierEstimate, if_neg (by simp [on, some_k])]
  exact ⟨StdAlgo.addBounded_smallest order keeps.out, keeps.inn⟩

theorem HeapsKeep.addSafeIn (keeps : HeapsKeep std env outs ins s)
    (on : env.useEstimateFrontier = true) (some_k : env.config.topK ≠ 0) {lowerBound : Flt}
    (isFinite : lowerBound.isFinite = true) (numbers : ∀ x ∈ ins, x.lowerBound ≠ .nan) :
    HeapsKeep std env outs (ins ++ [⟨lowerBound⟩])
      (addSafeInFrontierEstimate std env lowerBound s) := by
  have order : StrictWeakOn SafeInFrontierEntry.lt (⟨lowerBound⟩ :: ins) := by
    refine carried_order fun x mem => ?_
    rcases List.mem_cons.1 mem with rfl | before
    · rintro same
      dsimp only at same
      rw [same] at isFinite
      cases isFinite
    · exact numbers x before
  rw [addSafeInFrontierEstimate, if_neg (by simp [on, some_k, isFinite])]
  exact ⟨keeps.out, StdAlgo.addBounded_smallest order keeps.inn⟩

/-- A run of estimates, with what the heaps were given. -/
theorem HeapsKeep.run (on : env.useEstimateFrontier = true) (some_k : env.config.topK ≠ 0)
    (events : List FrontierEvent)
    (numbers : ∀ estimate, .safeOut estimate ∈ events → estimate.upperBound ≠ .nan)
    (keeps : HeapsKeep std env outs ins s) (outNumbers : ∀ x ∈ outs, x.upperBound ≠ .nan)
    (inNumbers : ∀ x ∈ ins, x.lowerBound ≠ .nan) :
    ∃ outs' ins', HeapsKeep std env outs' ins' (addEstimates std env events s) ∧
      (outs'.map (·.upperBound) = outs.map (·.upperBound) ++ events.filterMap FrontierEvent.upper ∧
        ins'.map (·.lowerBound) = ins.map (·.lowerBound) ++ events.filterMap FrontierEvent.lower) ∧
      (∀ x ∈ outs', x.upperBound ≠ .nan) ∧ ∀ x ∈ ins', x.lowerBound ≠ .nan := by
  induction events generalizing outs ins s with
  | nil => exact ⟨outs, ins, keeps, by simp, outNumbers, inNumbers⟩
  | cons event events ih =>
      have later : ∀ estimate, .safeOut estimate ∈ events → estimate.upperBound ≠ .nan :=
        fun estimate mem => numbers estimate (List.mem_cons_of_mem _ mem)
      cases event with
      | safeOut estimate =>
          have number := numbers estimate List.mem_cons_self
          obtain ⟨outs', ins', keeps', ⟨uppers, lowers⟩, rest⟩ :=
            ih later (keeps.addSafeOut on some_k number outNumbers) (by
              intro x mem
              rcases List.mem_append.1 mem with before | new
              · exact outNumbers x before
              · rw [List.mem_singleton.1 new]
                exact number) inNumbers
          refine ⟨outs', ins', keeps', ⟨?_, lowers⟩, rest⟩
          rw [uppers, List.map_append, List.append_assoc]
          rfl
      | safeIn lowerBound =>
          cases isFinite : lowerBound.isFinite with
          | false =>
              have same : addSafeInFrontierEstimate std env lowerBound s = s := by
                rw [addSafeInFrontierEstimate, if_pos (by simp [isFinite])]
              obtain ⟨outs', ins', keeps', ⟨uppers, lowers⟩, rest⟩ :=
                ih later keeps outNumbers inNumbers
              refine ⟨outs', ins', ?_, ⟨uppers, ?_⟩, rest⟩
              · rw [addEstimates, List.foldl_cons, addEstimate, same]
                exact keeps'
              · rw [lowers, List.filterMap_cons_none (by simp [FrontierEvent.lower, isFinite])]
          | true =>
              obtain ⟨outs', ins', keeps', ⟨uppers, lowers⟩, rest⟩ :=
                ih later (keeps.addSafeIn on some_k isFinite inNumbers) outNumbers (by
                  intro x mem
                  rcases List.mem_append.1 mem with before | new
                  · exact inNumbers x before
                  · rw [List.mem_singleton.1 new]
                    rintro rfl
                    cases isFinite)
              refine ⟨outs', ins', keeps', ⟨uppers, ?_⟩, rest⟩
              rw [lowers, List.map_append, List.append_assoc, List.filterMap_cons_some
                (by simp [FrontierEvent.lower, isFinite] : FrontierEvent.lower (.safeIn lowerBound) =
                  some lowerBound)]
              rfl

theorem safeOutFrontierUpper_eq (on : env.useEstimateFrontier = true)
    (some_k : env.config.topK ≠ 0) (s : Sched) :
    safeOutFrontierUpper env s =
      if s.safeoutFrontierHeap.length < env.config.topK.toNat then .posInf
      else frontOf (·.upperBound) s.safeoutFrontierHeap := by
  rw [safeOutFrontierUpper]
  cases s.safeoutFrontierHeap <;> simp [on, some_k, frontOf]

theorem safeInFrontierLower_eq (on : env.useEstimateFrontier = true)
    (some_k : env.config.topK ≠ 0) (s : Sched) :
    safeInFrontierLower env s =
      if s.safeinFrontierHeap.length < env.config.topK.toNat then .posInf
      else frontOf (·.lowerBound) s.safeinFrontierHeap := by
  rw [safeInFrontierLower]
  cases s.safeinFrontierHeap <;> simp [on, some_k, frontOf]

variable (std) in
/-- Both frontiers after some estimates. -/
theorem frontiers_now (some_k : 0 < env.config.topK) {s : Sched}
    (outEmpty : s.safeoutFrontierHeap = []) (inEmpty : s.safeinFrontierHeap = [])
    (events : List FrontierEvent)
    (numbers : ∀ estimate, .safeOut estimate ∈ events → estimate.upperBound ≠ .nan) :
    IsFrontier env (uppersOf env events)
        (safeOutFrontierUpper env (addEstimates std env events s)) ∧
      IsFrontier env (lowersOf env events)
        (safeInFrontierLower env (addEstimates std env events s)) := by
  have positive : 0 < env.config.topK.toNat := UInt32.lt_iff_toNat_lt.1 some_k
  have nonzero : env.config.topK ≠ 0 := by
    rintro none
    rw [none] at positive
    cases positive
  cases on : env.useEstimateFrontier with
  | false =>
      constructor
      · rw [uppersOf, on, IsFrontier, safeOutFrontierUpper, on]
        rw [if_neg Bool.false_ne_true, List.length_nil, if_pos positive]
        rfl
      · rw [lowersOf, on, IsFrontier, safeInFrontierLower, on]
        rw [if_neg Bool.false_ne_true, List.length_nil, if_pos positive]
        rfl
  | true =>
      have keeps : HeapsKeep std env [] [] s := by
        refine ⟨?_, ?_⟩
        · rw [outEmpty]
          exact std.smallest_nil _ _
        · rw [inEmpty]
          exact std.smallest_nil _ _
      obtain ⟨outs, ins, kept, ⟨uppers, lowers⟩, outNumbers, inNumbers⟩ :=
        keeps.run on nonzero events numbers (by simp) (by simp)
      rw [List.map_nil, List.nil_append] at uppers lowers
      constructor
      · have frontier := isFrontier_of_smallest std outNumbers positive kept.out
        rw [uppers] at frontier
        rw [uppersOf, if_pos on, safeOutFrontierUpper_eq on nonzero]
        exact frontier
      · have frontier := isFrontier_of_smallest std inNumbers positive kept.inn
        rw [lowers] at frontier
        rw [lowersOf, if_pos on, safeInFrontierLower_eq on nonzero]
        exact frontier

theorem uppersOf_append (events later : List FrontierEvent) :
    uppersOf env (events ++ later) = uppersOf env events ++ uppersOf env later := by
  rw [uppersOf, uppersOf, uppersOf]
  split
  · exact List.filterMap_append
  · rfl

theorem lowersOf_append (events later : List FrontierEvent) :
    lowersOf env (events ++ later) = lowersOf env events ++ lowersOf env later := by
  rw [lowersOf, lowersOf, lowersOf]
  split
  · exact List.filterMap_append
  · rfl

variable (env) in
theorem uppersOf_numbers {events : List FrontierEvent}
    (numbers : ∀ estimate, .safeOut estimate ∈ events → estimate.upperBound ≠ .nan) :
    ∀ x ∈ uppersOf env events, x ≠ .nan := by
  intro x mem
  rw [uppersOf] at mem
  split at mem
  · obtain ⟨event, among, upper⟩ := List.mem_filterMap.1 mem
    cases event with
    | safeOut estimate =>
        cases upper
        exact numbers estimate among
    | safeIn lowerBound => cases upper
  · cases mem

variable (env) in
theorem lowersOf_numbers (events : List FrontierEvent) : ∀ x ∈ lowersOf env events, x ≠ .nan := by
  intro x mem
  rw [lowersOf] at mem
  split at mem
  · obtain ⟨event, -, lower⟩ := List.mem_filterMap.1 mem
    cases event with
    | safeOut estimate => cases lower
    | safeIn lowerBound =>
        rw [FrontierEvent.lower] at lower
        split at lower
        · next isFinite =>
            obtain rfl := Option.some.inj lower
            rintro rfl
            cases isFinite
        · cases lower
  · cases mem

/-- **The frontiers are the `topK`-th smallest bounds**, for every sequence of estimates whose
upper bounds are numbers, and neither increases once it is finite. -/
theorem frontiers_exact (std : StdAlgo) (env : Env) (s : Sched)
    (some_k : 0 < env.config.topK) (outEmpty : s.safeoutFrontierHeap = [])
    (inEmpty : s.safeinFrontierHeap = []) (events : List FrontierEvent)
    (numbers : ∀ estimate, .safeOut estimate ∈ events → estimate.upperBound ≠ .nan) :
    FrontiersExact std env events s := by
  obtain ⟨upper, lower⟩ := frontiers_now std some_k outEmpty inEmpty events numbers
  refine ⟨upper, lower, ?_, ?_⟩
  · rintro before later rfl
    have earlier := (frontiers_now std some_k outEmpty inEmpty before
      fun estimate mem => numbers estimate (List.mem_append_left _ mem)).1
    have allNumbers := uppersOf_numbers env numbers
    rw [uppersOf_append] at upper allNumbers
    exact earlier.antitone allNumbers upper
  · rintro before later rfl
    have earlier := (frontiers_now std some_k outEmpty inEmpty before
      fun estimate mem => numbers estimate (List.mem_append_left _ mem)).2
    have allNumbers := lowersOf_numbers env (before ++ later)
    rw [lowersOf_append] at lower allNumbers
    exact earlier.antitone allNumbers lower

/-- Three estimates and an infinite lower bound, for the best result. -/
theorem frontiers_exact_three :
    FrontiersExact .reference ⟨{ topK := 1 }, .posInf, 8, false⟩
      [.safeOut ⟨.fin 3, .fin 1, .fin 2⟩, .safeIn (.fin 2), .safeIn .posInf,
        .safeOut ⟨.fin 2, .fin 1, .fin 1⟩] {} := by
  refine frontiers_exact .reference _ {} (by decide) rfl rfl _ ?_
  intro estimate mem
  simp only [List.mem_cons, FrontierEvent.safeOut.injEq, reduceCtorEq, List.not_mem_nil, or_false,
    false_or] at mem
  rcases mem with rfl | rfl
  · simp [EstimateHeapEntry.upperBound]
  · simp [EstimateHeapEntry.upperBound]

end VecFetch.Query
