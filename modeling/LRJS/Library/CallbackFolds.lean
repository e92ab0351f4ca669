import Mathlib.Data.List.Infix

/-!
# Folds over a callback

A computation that visits items in order and calls a function for each: the call may depend
on what was computed so far, the function sees all calls up to its own, and its reply carries
the computation on, ends it with a result, or is an exception that ends it.
-/

structure CallbackFold (State Item Call Reply Result : Type) where
  call : State → Item → Call
  absorb : State → Item → Reply → State ⊕ Result
  finish : State → Result

namespace CallbackFold

variable {State Item Call Reply Result : Type}
variable (fold : CallbackFold State Item Call Reply Result) (callback : List Call → Option Reply)

def run : State → List Item → List Call → Option Result × List Call
  | state, [], calls => (some (fold.finish state), calls)
  | state, item :: items, calls =>
    let calls := calls ++ [fold.call state item]
    match callback calls with
    | none => (none, calls)
    | some reply =>
      match fold.absorb state item reply with
      | .inl state => run state items calls
      | .inr result => (some result, calls)

variable {fold callback} {state : State} {item : Item} {items : List Item} {calls : List Call}

theorem run_throw (thrown : callback (calls ++ [fold.call state item]) = none) :
    fold.run callback state (item :: items) calls = (none, calls ++ [fold.call state item]) := by
  simp only [run, thrown]

theorem run_next {reply : Reply} (next : State)
    (replied : callback (calls ++ [fold.call state item]) = some reply)
    (absorbed : fold.absorb state item reply = .inl next) :
    fold.run callback state (item :: items) calls =
      fold.run callback next items (calls ++ [fold.call state item]) := by
  simp only [run, replied, absorbed]

theorem run_stop {reply : Reply} (result : Result)
    (replied : callback (calls ++ [fold.call state item]) = some reply)
    (absorbed : fold.absorb state item reply = .inr result) :
    fold.run callback state (item :: items) calls =
      (some result, calls ++ [fold.call state item]) := by
  simp only [run, replied, absorbed]

theorem prefix_run (state : State) (items : List Item) (calls : List Call) :
    calls <+: (fold.run callback state items calls).2 := by
  induction items generalizing state calls with
  | nil => exact List.prefix_refl _
  | cons item items ih =>
    have one : calls <+: calls ++ [fold.call state item] := List.prefix_append _ _
    cases replied : callback (calls ++ [fold.call state item]) with
    | none =>
      rw [run_throw replied]
      exact one
    | some reply =>
      cases absorbed : fold.absorb state item reply with
      | inl next =>
        rw [run_next next replied absorbed]
        exact one.trans (ih next _)
      | inr result =>
        rw [run_stop result replied absorbed]
        exact one

theorem call_prefix_run (state : State) (item : Item) (items : List Item) :
    calls ++ [fold.call state item] <+: (fold.run callback state (item :: items) calls).2 := by
  cases replied : callback (calls ++ [fold.call state item]) with
  | none => rw [run_throw replied]
  | some reply =>
    cases absorbed : fold.absorb state item reply with
    | inl next =>
      rw [run_next next replied absorbed]
      exact prefix_run next items _
    | inr result => rw [run_stop result replied absorbed]

theorem run_calls_eq_self (state : State) (items : List Item) :
    (fold.run callback state items calls).2 = calls ↔ items = [] := by
  cases items with
  | nil => exact iff_of_true rfl rfl
  | cons item items =>
    refine iff_of_false (fun none => ?_) (List.cons_ne_nil _ _)
    have one : calls ++ [fold.call state item] <+:
        (fold.run callback state (item :: items) calls).2 := call_prefix_run state item items
    have longer := one.length_le
    rw [none, List.length_append, List.length_singleton] at longer
    omega

theorem run_none (state : State) (items : List Item)
    (more : (fold.run callback state items calls).2 ≠ calls)
    (thrown : callback (fold.run callback state items calls).2 = none) :
    (fold.run callback state items calls).1 = none := by
  induction items generalizing state calls with
  | nil => exact absurd rfl more
  | cons item items ih =>
    cases replied : callback (calls ++ [fold.call state item]) with
    | none => rw [run_throw replied]
    | some reply =>
      cases absorbed : fold.absorb state item reply with
      | inl next =>
        rw [run_next next replied absorbed] at thrown ⊢
        refine ih next (fun same => ?_) thrown
        rw [same, replied] at thrown
        cases thrown
      | inr result =>
        rw [run_stop result replied absorbed, replied] at thrown
        cases thrown

/-- All calls but the last one have a reply. -/
theorem replied_before {earlier : List Call} (state : State) (items : List Item)
    (after : calls <+: earlier) (more : earlier ≠ calls)
    (before : earlier <+: (fold.run callback state items calls).2)
    (less : earlier ≠ (fold.run callback state items calls).2) : (callback earlier).isSome := by
  induction items generalizing state calls with
  | nil => exact absurd (before.eq_of_length_le after.length_le) less
  | cons item items ih =>
    have made : calls ++ [fold.call state item] <+: earlier := by
      have one : calls ++ [fold.call state item] <+:
          (fold.run callback state (item :: items) calls).2 := call_prefix_run state item items
      refine List.prefix_of_prefix_length_le one before ?_
      rw [List.length_append, List.length_singleton]
      exact Nat.lt_of_le_of_ne after.length_le fun same => more (after.eq_of_length same).symm
    by_cases here : earlier = calls ++ [fold.call state item]
    · rw [here] at less ⊢
      by_contra thrown
      exact less (by rw [run_throw (Option.not_isSome_iff_eq_none.mp thrown)])
    · cases replied : callback (calls ++ [fold.call state item]) with
      | none =>
        rw [run_throw replied] at before
        exact absurd (before.eq_of_length_le made.length_le) here
      | some reply =>
        cases absorbed : fold.absorb state item reply with
        | inl next =>
          rw [run_next next replied absorbed] at before less
          exact ih next made here before less
        | inr result =>
          rw [run_stop result replied absorbed] at before
          exact absurd (before.eq_of_length_le made.length_le) here

section Tolerant

variable {tolerant : List Call → Option Reply}
variable (same : ∀ calls reply, callback calls = some reply → tolerant calls = some reply)
include same

/-- A function that replies where another throws makes no difference if it throws at the end. -/
theorem run_eq (state : State) (items : List Item)
    (thrown : callback (fold.run callback state items calls).2 = none →
      tolerant (fold.run callback state items calls).2 = none) :
    fold.run tolerant state items calls = fold.run callback state items calls := by
  induction items generalizing state calls with
  | nil => rfl
  | cons item items ih =>
    cases replied : callback (calls ++ [fold.call state item]) with
    | none =>
      rw [run_throw replied] at thrown ⊢
      exact run_throw (thrown replied)
    | some reply =>
      cases absorbed : fold.absorb state item reply with
      | inl next =>
        rw [run_next next replied absorbed] at thrown ⊢
        rw [run_next next (same _ _ replied) absorbed]
        exact ih next thrown
      | inr result =>
        rw [run_stop result replied absorbed, run_stop result (same _ _ replied) absorbed]

/-- Where the fold goes on after such a reply, it makes the same calls exactly if the reply is to
the call for the last item. -/
theorem run_calls_iff
    (goesOn : ∀ calls reply, callback calls = none → tolerant calls = some reply →
      ∀ state item, ∃ next, fold.absorb state item reply = .inl next)
    (state : State) (items : List Item) :
    (fold.run tolerant state items calls).2 = (fold.run callback state items calls).2 ↔
      (callback (fold.run callback state items calls).2 = none →
        (tolerant (fold.run callback state items calls).2).isSome →
        (fold.run callback state items calls).2.length = calls.length + items.length) := by
  induction items generalizing state calls with
  | nil => exact iff_of_true rfl fun _ _ => rfl
  | cons item items ih =>
    have longer : (calls ++ [fold.call state item]).length = calls.length + 1 := by
      rw [List.length_append, List.length_singleton]
    cases replied : callback (calls ++ [fold.call state item]) with
    | none =>
      rw [run_throw replied]
      cases tolerated : tolerant (calls ++ [fold.call state item]) with
      | none =>
        rw [run_throw tolerated]
        refine iff_of_true rfl fun _ there => ?_
        cases there
      | some reply =>
        obtain ⟨next, absorbed⟩ := goesOn _ _ replied tolerated state item
        rw [run_next next tolerated absorbed]
        simp only [replied, Option.isSome_some, forall_const, longer, List.length_cons]
        rw [run_calls_eq_self]
        constructor
        · rintro rfl
          rfl
        · intro last
          exact List.length_eq_zero_iff.mp (by omega)
    | some reply =>
      cases absorbed : fold.absorb state item reply with
      | inl next =>
        rw [run_next next replied absorbed, run_next next (same _ _ replied) absorbed, ih next,
          longer, List.length_cons, Nat.add_assoc, Nat.add_comm 1]
      | inr result =>
        rw [run_stop result replied absorbed, run_stop result (same _ _ replied) absorbed]
        refine iff_of_true rfl fun thrown => ?_
        rw [replied] at thrown
        cases thrown

/-- Where the fold ends with such a reply, it makes the same calls. -/
theorem run_calls_eq (ends : ∀ calls reply, callback calls = none → tolerant calls = some reply →
      ∀ state item, ∃ result, fold.absorb state item reply = .inr result)
    (state : State) (items : List Item) :
    (fold.run tolerant state items calls).2 = (fold.run callback state items calls).2 := by
  induction items generalizing state calls with
  | nil => rfl
  | cons item items ih =>
    cases replied : callback (calls ++ [fold.call state item]) with
    | none =>
      rw [run_throw replied]
      cases tolerated : tolerant (calls ++ [fold.call state item]) with
      | none => rw [run_throw tolerated]
      | some reply =>
        obtain ⟨result, absorbed⟩ := ends _ _ replied tolerated state item
        rw [run_stop result tolerated absorbed]
    | some reply =>
      cases absorbed : fold.absorb state item reply with
      | inl next =>
        rw [run_next next replied absorbed, run_next next (same _ _ replied) absorbed]
        exact ih next
      | inr result =>
        rw [run_stop result replied absorbed, run_stop result (same _ _ replied) absorbed]

end Tolerant

end CallbackFold
