/-
# Theory.Trace -- runs of a deterministic step over a list of events

Everything an environment may choose is in the event, so a step is a partial
function and a run is a list of events.  An event the state does not allow ends the
run.
-/
import Mathlib.Data.List.Basic

namespace VecFetch.Theory

set_option autoImplicit false

variable {S E : Type} (step : S → E → Option S)

/-- One step of a run. -/
structure Transition (S E : Type) where
  before : S
  event : E
  after : S

/-- The steps a run takes. -/
def transitions : S → List E → List (Transition S E)
  | _, [] => []
  | s, e :: es =>
      match step s e with
      | some s' => ⟨s, e, s'⟩ :: transitions s' es
      | none => []

/-- The states a run visits, the first included. -/
def states (s : S) (es : List E) : List S := s :: (transitions step s es).map Transition.after

variable {step}

@[simp] theorem mem_states_self (s : S) (es : List E) : s ∈ states step s es :=
  List.mem_cons_self

theorem mem_states_after {s : S} {es : List E} {t : Transition S E}
    (mem : t ∈ transitions step s es) : t.after ∈ states step s es :=
  List.mem_cons_of_mem _ (List.mem_map_of_mem mem)

/-- A transition is a step, taken from a state of the run. -/
theorem transition_step {s : S} {es : List E} {t : Transition S E}
    (mem : t ∈ transitions step s es) :
    step t.before t.event = some t.after ∧ t.before ∈ states step s es := by
  induction es generalizing s with
  | nil => simp [transitions] at mem
  | cons e es ih =>
      unfold transitions at mem
      split at mem
      · rename_i s' taken
        rcases List.mem_cons.1 mem with rfl | inRest
        · exact ⟨taken, mem_states_self s _⟩
        · obtain ⟨stepped, visited⟩ := ih inRest
          refine ⟨stepped, List.mem_cons_of_mem _ ?_⟩
          simp only [transitions, taken, List.map_cons]
          exact visited
      · simp at mem

/-- **The invariant rule.**  What holds first and is kept by every step the run takes
holds of every state it visits. -/
theorem invariant_states {Inv : S → Prop} {s : S} {es : List E} (start : Inv s)
    (kept : ∀ t ∈ transitions step s es, Inv t.before → Inv t.after) :
    ∀ v ∈ states step s es, Inv v := by
  induction es generalizing s with
  | nil =>
      intro v mem
      simp only [states, transitions, List.map_nil, List.mem_singleton] at mem
      exact mem ▸ start
  | cons e es ih =>
      intro v mem
      rcases List.mem_cons.1 mem with rfl | inRest
      · exact start
      · simp only [transitions] at inRest kept
        split at inRest
        · rename_i s' taken
          simp only [taken, List.mem_cons, forall_eq_or_imp] at kept
          exact ih (kept.1 start) kept.2 v inRest
        · simp at inRest

/-! ## Runs to their end -/

variable (step)

/-- The state after all the events, if every one of them is allowed. -/
def run : S → List E → Option S
  | s, [] => some s
  | s, e :: es => (step s e).bind fun s' => run s' es

variable {step}

theorem run_append (s : S) (es fs : List E) :
    run step s (es ++ fs) = (run step s es).bind fun s' => run step s' fs := by
  induction es generalizing s with
  | nil => rfl
  | cons e es ih =>
      rw [List.cons_append, run, run, Option.bind_assoc]
      exact Option.bind_congr fun s' _ => ih s'

/-- A run visits the state it ends in. -/
theorem run_mem_states {s t : S} {es : List E} (ran : run step s es = some t) :
    t ∈ states step s es := by
  induction es generalizing s with
  | nil =>
      obtain rfl := Option.some.inj ran
      exact mem_states_self s []
  | cons e es ih =>
      obtain ⟨s', stepped, rest⟩ := Option.bind_eq_some_iff.1 ran
      refine List.mem_cons_of_mem _ ?_
      simp only [transitions, stepped, List.map_cons]
      exact ih rest

variable (step) in
/-- Every event of a run meets a condition on the state before it. -/
def Meets (ok : S → E → Prop) : S → List E → Prop
  | _, [] => True
  | s, e :: es => ok s e ∧ ∀ s', step s e = some s' → Meets ok s' es

/-- **The rule of runs under a condition.**  Where the condition makes every event allowed and
keeps the invariant, a run that meets it goes to its end. -/
theorem Meets.run {Inv : S → Prop} {ok : S → E → Prop} {s : S} {es : List E}
    (meets : Meets step ok s es) (start : Inv s)
    (each : ∀ s e, Inv s → ok s e → ∃ s', step s e = some s' ∧ Inv s') :
    ∃ t, Theory.run step s es = some t ∧ Inv t := by
  induction es generalizing s with
  | nil => exact ⟨s, rfl, start⟩
  | cons e es ih =>
      obtain ⟨s', stepped, inv⟩ := each s e start meets.1
      obtain ⟨t, ran, last⟩ := ih (meets.2 s' stepped) inv
      refine ⟨t, ?_, last⟩
      rw [Theory.run, stepped]
      exact ran

/-- **The simulation rule.**  Where each step that meets a condition is a run of another machine
between related states, a run of such steps is one too. -/
theorem run_simulates {S' E' : Type} {step' : S' → E' → Option S'} {related : S → S' → Prop}
    {ok : S → E → Prop} {sim : E → List E'}
    (each : ∀ s t e s', related s t → ok s e → step s e = some s' →
      ∃ t', Theory.run step' t (sim e) = some t' ∧ related s' t')
    {s s' : S} {t : S'} {es : List E} (start : related s t)
    (meets : ∀ tr ∈ transitions step s es, ok tr.before tr.event)
    (ran : Theory.run step s es = some s') :
    ∃ t', Theory.run step' t (es.flatMap sim) = some t' ∧ related s' t' := by
  induction es generalizing s t with
  | nil =>
      obtain rfl := Option.some.inj ran
      exact ⟨t, rfl, start⟩
  | cons e es ih =>
      obtain ⟨between, stepped, rest⟩ := Option.bind_eq_some_iff.1 ran
      rw [transitions, stepped] at meets
      obtain ⟨middle, first, here⟩ :=
        each s t e between start (meets _ List.mem_cons_self) stepped
      obtain ⟨last, second, there⟩ :=
        ih here (fun tr mem => meets tr (List.mem_cons_of_mem _ mem)) rest
      refine ⟨last, ?_, there⟩
      rw [List.flatMap_cons, run_append, first]
      exact second

end VecFetch.Theory
