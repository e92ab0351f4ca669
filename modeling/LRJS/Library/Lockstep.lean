import LRJS.Library.Guarded
import Mathlib.Data.Option.Basic
import Mathlib.Data.Sum.Basic

/-!
# Two computations in lockstep

Computations in `Option` that fault together, or have related results: the
rules for sequences and for loops.
-/

namespace Guarded

universe u v w z

variable {Value : Type u} {Value' : Type v} {Result : Type w} {Result' : Type z}

def Lockstep (related : Value → Value' → Prop) : Option Value → Option Value' → Prop :=
  Option.Rel related

variable {related : Value → Value' → Prop} {results : Result → Result' → Prop}

theorem lockstep_some {value : Value} {value' : Value'} (holds : related value value') :
    Lockstep related (some value) (some value') :=
  .some holds

/-- Two programs in lockstep go on in lockstep. -/
theorem Lockstep.bind {first : Option Value} {first' : Option Value'}
    {next : Value → Option Result} {next' : Value' → Option Result'}
    (lockstep : Lockstep related first first') (continues : ∀ value value', related value value' →
      Lockstep results (next value) (next' value')) :
    Lockstep results (first.bind next) (first'.bind next') := by
  cases lockstep with
  | some holds => exact continues _ _ holds
  | none => exact .none

theorem lockstep_read {read read' : Option Value} {next : Value → Option Result}
    {next' : Value → Option Result'} (same : read' = read)
    (continues : ∀ value, Lockstep results (next value) (next' value)) :
    Lockstep results (read.bind next) (read'.bind next') := by
  cases read with
  | none =>
    subst same
    exact .none
  | some value =>
    subst same
    exact continues value

/-- Two loops in lockstep at every turn end in lockstep. -/
theorem lockstep_loop {states : Value → Value' → Prop}
    {step : Value → Option (Value ⊕ Result)} {step' : Value' → Option (Value' ⊕ Result')}
    (keeps : ∀ state state', states state state' →
      Lockstep (Sum.LiftRel states results) (step state) (step' state'))
    (fuel : Nat) {start : Value} {start' : Value'} (holds : states start start') :
    Lockstep results (loop step fuel start) (loop step' fuel start') := by
  induction fuel generalizing start start' with
  | zero => exact .none
  | succ fuel ih =>
    apply (keeps start start' holds).bind
    intro outcome outcome' related
    cases related with
    | inl states => exact ih states
    | inr results => exact lockstep_some results

end Guarded
