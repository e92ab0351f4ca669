import Mathlib.Init

/-!
# Computations that may fault

Computations in `Option`, where `none` stands for a fault: a read outside a
buffer, or a loop that does not end.  `Yields` says that there is no fault and
what the result is; loops have a rule with an invariant and a measure.
-/

namespace Guarded

universe u v w

variable {State : Type u} {Result : Type v} {Value : Type w}

def Yields (computation : Option Value) (post : Value → Prop) : Prop :=
  ∃ value, computation = some value ∧ post value

theorem yields_some {value : Value} {post : Value → Prop} (holds : post value) :
    Yields (some value) post :=
  ⟨value, rfl, holds⟩

theorem Yields.mono {computation : Option Value} {post post' : Value → Prop}
    (yields : Yields computation post) (weaker : ∀ value, post value → post' value) :
    Yields computation post' := by
  obtain ⟨value, same, holds⟩ := yields
  exact ⟨value, same, weaker value holds⟩

/-- What yields goes on with what yields. -/
theorem Yields.bind {computation : Option Value} {next : Value → Option Result}
    {middle : Value → Prop} {post : Result → Prop} (yields : Yields computation middle)
    (continues : ∀ value, middle value → Yields (next value) post) :
    Yields (computation.bind next) post := by
  obtain ⟨value, rfl, holds⟩ := yields
  exact continues value holds

def loop (step : State → Option (State ⊕ Result)) : Nat → State → Option Result
  | 0, _ => none
  | fuel + 1, state =>
    (step state).bind fun
      | .inl state => loop step fuel state
      | .inr result => some result

def Keeps (invariant : State → Prop) (measure : State → Nat) (post : Result → Prop)
    (bound : Nat) : State ⊕ Result → Prop
  | .inl state => invariant state ∧ measure state < bound
  | .inr result => post result

section

variable {step : State → Option (State ⊕ Result)} (invariant : State → Prop) {fuel : Nat}
    {start : State}
include invariant

/-- A loop that keeps its invariant and lowers its measure yields a result. -/
theorem yields_loop (measure : State → Nat) {post : Result → Prop}
    (keeps : ∀ state, invariant state →
      Yields (step state) (Keeps invariant measure post (measure state)))
    (holds : invariant start) (enough : measure start < fuel) :
    Yields (loop step fuel start) post := by
  induction fuel generalizing start with
  | zero => exact absurd enough (Nat.not_lt_zero _)
  | succ fuel ih =>
    apply (keeps start holds).bind
    intro outcome kept
    cases outcome with
    | inl state =>
      exact ih kept.1 (Nat.lt_of_lt_of_le kept.2 (Nat.le_of_lt_succ enough))
    | inr result => exact yields_some kept

/-- The result of a loop that keeps its invariant has the property. -/
theorem loop_result (post : Result → Prop)
    (keeps : ∀ state outcome, invariant state → step state = some outcome →
      Sum.elim invariant post outcome) {result : Result} (holds : invariant start)
    (ends : loop step fuel start = some result) : post result := by
  induction fuel generalizing start with
  | zero => cases ends
  | succ fuel ih =>
    rw [loop, Option.bind_eq_some_iff] at ends
    obtain ⟨outcome, taken, ends⟩ := ends
    have kept := keeps start outcome holds taken
    cases outcome with
    | inl state => exact ih kept ends
    | inr result' =>
      cases ends
      exact kept

end

end Guarded
