import Mathlib.Data.Option.Basic

/-!
# Conditions along a run

A partial step function takes a state through a list of events.  A condition
on single steps holds throughout a run when every step that the run takes
meets it; an invariant turns one condition into another.
-/

namespace Runs

open List Option

universe u v

variable {State : Type u} {Event : Type v}

/-- Every step of the run over `events` meets `condition`. -/
def Throughout (step : State → Event → Option State) (condition : State → Event → Prop) :
    State → List Event → Prop
  | _, [] => True
  | state, event :: rest =>
    condition state event ∧
      ∀ next, step state event = some next → Throughout step condition next rest

instance Throughout.decidable (step : State → Event → Option State)
    (condition : State → Event → Prop) [∀ state event, Decidable (condition state event)] :
    ∀ (state : State) (events : List Event), Decidable (Throughout step condition state events)
  | _, [] => inferInstanceAs (Decidable True)
  | state, event :: rest =>
    match taken : step state event with
    | none =>
      decidable_of_iff (condition state event) <| by
        simp [Throughout, taken]
    | some next =>
      have := Throughout.decidable step condition next rest
      decidable_of_iff (condition state event ∧ Throughout step condition next rest) <| by
        simp [Throughout, taken]

def after (step : State → Event → Option State) (state : State) (events : List Event) :
    Option State :=
  events.foldlM step state

theorem after_cons (step : State → Event → Option State) (state : State) (event : Event)
    (rest : List Event) :
    after step state (event :: rest) = (step state event).bind fun next => after step next rest :=
  foldlM_cons ..

theorem after_append (step : State → Event → Option State) (state : State)
    (events rest : List Event) :
    after step state (events ++ rest) =
      (after step state events).bind fun next => after step next rest :=
  foldlM_append ..

namespace Throughout

theorem of_forall {step : State → Event → Option State} {condition : State → Event → Prop}
    (met : ∀ state event, condition state event) :
    ∀ {events : List Event} {state : State}, Throughout step condition state events
  | [], _ => trivial
  | _ :: _, _ => ⟨met _ _, fun _ _ => of_forall met⟩

theorem at_step {step : State → Event → Option State} {condition : State → Event → Prop}
    {before rest : List Event} {event : Event} :
    ∀ {state reached : State}, Throughout step condition state (before ++ event :: rest) →
      after step state before = some reached → condition reached event := by
  induction before with
  | nil =>
    intro state reached met arrives
    cases arrives
    exact met.1
  | cons first later ih =>
    intro state reached met arrives
    rw [after, foldlM_cons, bind_eq_bind, bind_eq_some_iff] at arrives
    obtain ⟨next, taken, arrives⟩ := arrives
    exact ih (met.2 next taken) arrives

theorem invariant_after {step : State → Event → Option State}
    {condition : State → Event → Prop} {Invariant : State → Prop}
    (keeps : ∀ state event next, Invariant state → condition state event →
      step state event = some next → Invariant next) :
    ∀ {events : List Event} {state reached : State}, Invariant state →
      Throughout step condition state events → after step state events = some reached →
        Invariant reached := by
  intro events
  induction events with
  | nil =>
    intro state reached invariant _ arrives
    cases arrives
    exact invariant
  | cons event rest ih =>
    intro state reached invariant met arrives
    rw [after, foldlM_cons, bind_eq_bind, bind_eq_some_iff] at arrives
    obtain ⟨next, taken, arrives⟩ := arrives
    exact ih (keeps state event next invariant met.1 taken)
      (met.2 next taken) arrives

theorem simulates_after {State' : Type v} {step : State → Event → Option State}
    {step' : State' → Event → Option State'} {condition : State → Event → Prop}
    {Related : State → State' → Prop}
    (keeps : ∀ state event next state', Related state state' → condition state event →
      step state event = some next →
        ∃ next', step' state' event = some next' ∧ Related next next') :
    ∀ {events : List Event} {state reached : State} {state' : State'}, Related state state' →
      Throughout step condition state events → after step state events = some reached →
        ∃ reached', after step' state' events = some reached' ∧ Related reached reached' := by
  intro events
  induction events with
  | nil =>
    intro state reached state' related _ arrives
    cases arrives
    exact ⟨state', rfl, related⟩
  | cons event rest ih =>
    intro state reached state' related met arrives
    rw [after_cons, bind_eq_some_iff] at arrives
    obtain ⟨next, taken, arrives⟩ := arrives
    obtain ⟨next', taken', related⟩ := keeps state event next state' related met.1 taken
    rw [after_cons, taken', bind_some]
    exact ih related (met.2 next taken) arrives

theorem arrives_with {step : State → Event → Option State}
    {condition : State → Event → Prop} {Invariant : State → Prop}
    (progress : ∀ state event, Invariant state → condition state event →
      ∃ next, step state event = some next ∧ Invariant next) :
    ∀ {events : List Event} {state : State}, Invariant state →
      Throughout step condition state events →
        ∃ reached, after step state events = some reached ∧ Invariant reached := by
  intro events
  induction events with
  | nil =>
    exact fun invariant _ => ⟨_, rfl, invariant⟩
  | cons event rest ih =>
    intro state invariant met
    obtain ⟨next, taken, kept⟩ := progress state event invariant met.1
    obtain ⟨reached, arrives, holds⟩ := ih kept (met.2 next taken)
    refine ⟨reached, ?_, holds⟩
    rw [after, foldlM_cons, bind_eq_bind, taken, bind_some]
    exact arrives

variable {step : State → Event → Option State} {condition goal : State → Event → Prop}
variable (Invariant : State → Prop)

section

variable (keeps : ∀ state event next, Invariant state → condition state event →
  step state event = some next → Invariant next)
include keeps

/-- An invariant that steps under the condition keep, and that gives the goal
under the condition, gives the goal throughout. -/
theorem of_invariant
    (holds : ∀ state event, Invariant state → condition state event → goal state event) :
    ∀ {events : List Event} {state : State}, Invariant state →
      Throughout step condition state events → Throughout step goal state events := by
  intro events
  induction events with
  | nil =>
    exact fun _ _ => trivial
  | cons event rest ih =>
    intro state invariant met
    refine ⟨holds state event invariant met.1, fun next taken => ?_⟩
    exact ih (keeps state event next invariant met.1 taken)
      (met.2 next taken)

theorem iff_of_invariant
    (same : ∀ state event, Invariant state → (goal state event ↔ condition state event)) :
    ∀ {events : List Event} {state : State}, Invariant state →
      (Throughout step goal state events ↔ Throughout step condition state events) := by
  intro events
  induction events with
  | nil =>
    exact fun _ => Iff.rfl
  | cons event rest ih =>
    intro state invariant
    constructor
    · intro reached
      have met := (same state event invariant).mp reached.1
      exact ⟨met, fun next taken => (ih
        (keeps state event next invariant met taken)).mp (reached.2 next taken)⟩
    · intro met
      exact ⟨(same state event invariant).mpr met.1, fun next taken => (ih
        (keeps state event next invariant met.1 taken)).mpr (met.2 next taken)⟩

end

end Throughout

end Runs
