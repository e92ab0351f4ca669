import Mathlib.Data.Sum.Basic

/-!
# Simulation of deterministic machines

A machine is a function `step` that gives the next state or an outcome.  Two
machines have the same outcomes when a relation between their states is kept by
one step of the first and one or more steps of the second.
-/

namespace Simulation

universe u v w

variable {S : Type u} {T : Type v} {O : Type w}

/-- Run at most `fuel` steps for the outcome. -/
def run (step : S → S ⊕ O) : Nat → S → Option O
  | 0, _ => none
  | fuel + 1, s =>
    match step s with
    | .inr outcome => some outcome
    | .inl s' => run step fuel s'

/-- The machine stops with `outcome`. -/
def Yields (step : S → S ⊕ O) (s : S) (outcome : O) : Prop :=
  ∃ fuel, run step fuel s = some outcome

/-- Exactly `count` steps, unless an outcome comes first. -/
def steps (step : S → S ⊕ O) : Nat → S → S ⊕ O
  | 0, s => .inl s
  | count + 1, s =>
    match step s with
    | .inr outcome => .inr outcome
    | .inl s' => steps step count s'

variable {step : S → S ⊕ O} {s s' : S} {outcome outcome' : O}

theorem run_of_inr (fuel : Nat) (stops : step s = .inr outcome) :
    run step (fuel + 1) s = some outcome := by
  simp only [run, stops]

theorem run_of_inl (fuel : Nat) (moves : step s = .inl s') :
    run step (fuel + 1) s = run step fuel s' := by
  simp only [run, moves]

theorem steps_of_inr (count : Nat) (stops : step s = .inr outcome) :
    steps step (count + 1) s = .inr outcome := by
  simp only [steps, stops]

theorem steps_of_inl (count : Nat) (moves : step s = .inl s') :
    steps step (count + 1) s = steps step count s' := by
  simp only [steps, moves]

variable {count : Nat}

theorem run_of_steps_inr (leads : steps step count s = .inr outcome) :
    run step count s = some outcome := by
  induction count generalizing s with
  | zero =>
    cases leads
  | succ count ih =>
    cases next : step s with
    | inr final =>
      rw [steps_of_inr count next] at leads
      cases leads
      exact run_of_inr count next
    | inl s' =>
      rw [steps_of_inl count next] at leads
      exact (run_of_inl count next).trans (ih leads)

theorem run_of_steps_inl {fuel : Nat} (leads : steps step count s = .inl s') :
    run step (count + fuel) s = run step fuel s' := by
  induction count generalizing s with
  | zero =>
    cases leads
    rw [Nat.zero_add]
  | succ count ih =>
    rw [Nat.add_right_comm]
    cases next : step s with
    | inr final =>
      rw [steps_of_inr count next] at leads
      cases leads
    | inl middle =>
      rw [steps_of_inl count next] at leads
      exact (run_of_inl _ next).trans (ih leads)

/-- A run that stops goes on to its outcome behind any of its steps. -/
theorem run_after_steps {fuel : Nat} (leads : steps step (count + 1) s = .inl s')
    (stops : run step fuel s = some outcome) : ∃ less < fuel, run step less s' = some outcome := by
  induction count generalizing s fuel with
  | zero =>
    cases fuel with
    | zero =>
      cases stops
    | succ fuel =>
      cases next : step s with
      | inr final =>
        rw [steps_of_inr 0 next] at leads
        cases leads
      | inl middle =>
        rw [steps_of_inl 0 next] at leads
        cases leads
        exact ⟨fuel, Nat.lt_succ_self fuel, (run_of_inl fuel next).symm.trans stops⟩
  | succ count ih =>
    cases fuel with
    | zero =>
      cases stops
    | succ fuel =>
      cases next : step s with
      | inr final =>
        rw [steps_of_inr _ next] at leads
        cases leads
      | inl middle =>
        rw [steps_of_inl _ next] at leads
        obtain ⟨less, bound, rest⟩ :=
          ih leads ((run_of_inl fuel next).symm.trans stops)
        exact ⟨less, Nat.lt_succ_of_lt bound, rest⟩

/-- Steps that end in an outcome end in the one of the run. -/
theorem outcome_of_steps {fuel : Nat} (leads : steps step count s = .inr outcome)
    (stops : run step fuel s = some outcome') : outcome' = outcome := by
  induction count generalizing s fuel with
  | zero =>
    cases leads
  | succ count ih =>
    cases fuel with
    | zero =>
      cases stops
    | succ fuel =>
      cases next : step s with
      | inr final =>
        rw [steps_of_inr count next] at leads
        rw [run_of_inr fuel next] at stops
        cases leads
        cases stops
        rfl
      | inl middle =>
        rw [steps_of_inl count next] at leads
        exact ih leads ((run_of_inl fuel next).symm.trans stops)

/-- One or more steps from `t` give the same outcome, or a state related to the
next one. -/
def MatchedBy (stepT : T → T ⊕ O) (R : S → T → Prop) (t : T) : S ⊕ O → Prop
  | .inr outcome => ∃ count, steps stepT (count + 1) t = .inr outcome
  | .inl s' => ∃ count t', steps stepT (count + 1) t = .inl t' ∧ R s' t'

def Matches (stepS : S → S ⊕ O) (stepT : T → T ⊕ O) (R : S → T → Prop) : Prop :=
  ∀ s t, R s t → MatchedBy stepT R t (stepS s)

variable {stepS : S → S ⊕ O} {stepT : T → T ⊕ O} {R : S → T → Prop} {t : T}

section

variable (simulates : Matches stepS stepT R) (related : R s t)
include simulates related

/-- An outcome of the source is one of the target. -/
theorem Matches.forward (stops : Yields stepS s outcome) : Yields stepT t outcome := by
  obtain ⟨fuel, stops⟩ := stops
  induction fuel generalizing s t with
  | zero =>
    cases stops
  | succ fuel ih =>
    have matched := simulates s t related
    cases next : stepS s with
    | inr final =>
      rw [next] at matched
      obtain ⟨count, leads⟩ := matched
      rw [run_of_inr fuel next] at stops
      cases stops
      exact ⟨count + 1, run_of_steps_inr leads⟩
    | inl s' =>
      rw [next] at matched
      obtain ⟨count, t', leads, related'⟩ := matched
      obtain ⟨fuel', rest⟩ :=
        ih related' ((run_of_inl fuel next).symm.trans stops)
      exact ⟨count + 1 + fuel', (run_of_steps_inl leads).trans rest⟩

/-- An outcome of the target is one of the source. -/
theorem Matches.backward (stops : Yields stepT t outcome) : Yields stepS s outcome := by
  obtain ⟨fuel, stops⟩ := stops
  induction fuel using Nat.strongRecOn generalizing s t with
  | ind fuel ih =>
    have matched := simulates s t related
    cases next : stepS s with
    | inr final =>
      rw [next] at matched
      obtain ⟨count, leads⟩ := matched
      cases outcome_of_steps leads stops
      exact ⟨1, run_of_inr 0 next⟩
    | inl s' =>
      rw [next] at matched
      obtain ⟨count, t', leads, related'⟩ := matched
      obtain ⟨less, bound, rest⟩ := run_after_steps leads stops
      obtain ⟨fuel', rest'⟩ := ih less bound related' rest
      exact ⟨fuel' + 1, (run_of_inl fuel' next).trans rest'⟩

theorem Matches.yields_iff : Yields stepS s outcome ↔ Yields stepT t outcome :=
  ⟨simulates.forward related, simulates.backward related⟩

end

end Simulation
