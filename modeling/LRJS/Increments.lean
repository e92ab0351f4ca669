import LRJS.UpdateAgreement

/-!
# Increments

`BC_INC_LOCAL`, `BC_INC_LOCAL_DISCARD` and `BC_INC_VAR`, with the instructions that `cincdec` puts
behind them.  `--` has no instruction of its own.
-/

namespace LRJS.Increments

open Assignments

inductive Use where
  | old
  | new
  | discarded
deriving DecidableEq

structure Variable where
  value : Computed
  mirror : Option Computed

def Use.pushed (use : Use) (old new : Computed) : Option Computed :=
  match use with
  | .old => some old
  | .new => some new
  | .discarded => none

/-- A slot and a cache entry are written in place; `interp_bc_store_var` writes the mirror, too. -/
def increment (E : Engine) (e : EngineState) (inPlace mirrored : Bool) (use : Use) (old : LRValue) :
    Option ((Option Computed × Variable) × EngineState) := do
  let (new, e) ← incremented E e inPlace old
  return ((use.pushed (.value old) new,
    ⟨new, if mirrored then some (if inPlace then .value old else new) else none⟩), e)

/-- `ToNumeric`, which a symbol does not have. -/
def numeric (e : EngineState) : LRValue → Option Computed
  | .symbol _ | .exception => none
  | .object p =>
    match e.bigints p with
    | some n => some (.bigint n)
    | none => some (.value (.bcv_number (lr_to_float64 (.object p))))
  | v => some (.value (.bcv_number (lr_to_float64 v)))

def plusOne : Computed → Computed
  | .value v => .value (.bcv_number (stepped true (lr_to_float64 v)))
  | .bigint n => .bigint (n + 1)

def Right (E : Engine) (e : EngineState) (inPlace mirrored : Bool) (use : Use) (old : LRValue) :
    Prop :=
  ∃ n r e', numeric e old = some n ∧ increment E e inPlace mirrored use old = some (r, e') ∧
    Option.Rel Computed.Same (use.pushed n (plusOne n)) r.1 ∧ (plusOne n).Same r.2.value ∧
      ∀ m ∈ r.2.mirror, (plusOne n).Same m

def Plain : LRValue → Prop
  | .undefined | .null | .bool _ | .int32 _ | .float64 _ => True
  | _ => False

structure Fits (inPlace mirrored : Bool) (use : Use) (old : LRValue) : Prop where
  plain : Plain old
  below : inPlace = true → ∀ n, old = .int32 n → Double.InInt32 (n + 1)
  number : use = .old → old.number?.isSome = true
  mirror : inPlace = true → mirrored = true →
    LRValue.Same (.bcv_number (stepped true (lr_to_float64 old))) old

variable {E : Engine} {e : EngineState} {inPlace mirrored : Bool} {use : Use} {old : LRValue}

theorem numeric_plain (plain : Plain old) :
    numeric e old = some (.value (.bcv_number (lr_to_float64 old))) := by
  cases old with
  | string | object | symbol | exception => cases plain
  | _ => rfl

theorem plusOne_number (x : Double) :
    plusOne (.value (.bcv_number x)) = .value (.bcv_number (stepped true x)) := by
  rw [plusOne, lr_to_float64_of_number? (LRValue.number?_bcv_number x)]

theorem increments_plain (plain : Plain old)
    (below : inPlace = true → ∀ n, old = .int32 n → Double.InInt32 (n + 1)) :
    Increments e inPlace old := by
  refine ⟨?_, ?_, below⟩
  · cases old with
    | string => cases plain
    | _ => rfl
  · rintro ⟨object, -⟩
    cases old with
    | object => cases plain
    | _ => cases object

/-- Converting a value gives the value itself exactly if it is a number. -/
theorem same_self_iff :
    LRValue.Same (.bcv_number (lr_to_float64 old)) old ↔ old.number?.isSome = true := by
  have number := LRValue.number?_bcv_number (lr_to_float64 old)
  unfold LRValue.Same
  rw [number]
  cases known : old.number? with
  | none => exact iff_of_false id Bool.false_ne_true
  | some d =>
    rw [lr_to_float64_of_number? known]
    exact iff_of_true (.inl rfl) rfl

/-- On a plain value an increment is right but for old values that are no numbers and a mirror that
is not refreshed. -/
theorem increment_plain (range : InRange old) (plain : Plain old)
    (below : inPlace = true → ∀ n, old = .int32 n → Double.InInt32 (n + 1)) :
    Right E e inPlace mirrored use old ↔
      (use = .old → old.number?.isSome = true) ∧ (inPlace = true → mirrored = true →
        LRValue.Same (.bcv_number (stepped true (lr_to_float64 old))) old) := by
  have sum : (plusOne (.value (.bcv_number (lr_to_float64 old)))).Same
      (.value (incrementSum old)) := by
    rw [plusOne_number]
    exact (LRValue.same_of_number? (LRValue.number?_bcv_number _)
      (number?_incrementSum range)).mpr (.inl rfl)
  unfold Right increment
  rw [numeric_plain plain, incremented_fits (increments_plain plain below)]
  constructor
  · rintro ⟨n, r, e', same, run, pushed, -, mirror⟩
    cases same
    cases run
    constructor
    · rintro rfl
      cases pushed with
      | some same => exact same_self_iff.mp same
    · rintro rfl rfl
      have same := mirror _ rfl
      rw [plusOne_number] at same
      exact same
  · rintro ⟨number, mirror⟩
    refine ⟨_, _, _, rfl, rfl, ?_, sum, ?_⟩
    · cases use with
      | old => exact .some (same_self_iff.mpr (number rfl))
      | new => exact .some sum
      | discarded => exact .none
    · intro m member
      cases mirrored with
      | false => cases member
      | true =>
        cases inPlace with
        | false =>
          cases member
          exact sum
        | true =>
          cases member
          rw [plusOne_number]
          exact mirror rfl rfl

theorem Right.increments (right : Right E e inPlace mirrored use old) (range : InRange old)
    (converted : numeric e old = some (.value (.bcv_number (lr_to_float64 old)))) :
    Increments e inPlace old := by
  obtain ⟨n, r, e', same, run, -, value, -⟩ := right
  rw [converted] at same
  cases same
  obtain ⟨⟨new, e''⟩, found, stored⟩ := Option.bind_eq_some_iff.mp run
  cases stored
  rw [plusOne_number, LRValue.bcv_number, if_neg (stepped_ne_negZero _ _)] at value
  by_contra misfit
  exact incremented_misfit range misfit found value

/-- An increment is right on plain values only. -/
theorem Right.plain (right : Right E e inPlace mirrored use old) (range : InRange old) :
    Plain old := by
  have numbers := right.increments range
  obtain ⟨n, r, e', same, run, -, value, -⟩ := right
  cases old with
  | string text => cases (numbers rfl).1
  | object p =>
    cases known : e.bigints p with
    | none =>
      have converted : numeric e (.object p) =
          some (.value (.bcv_number (lr_to_float64 (.object p)))) := by
        unfold numeric
        dsimp only
        rw [known]
      exact absurd ⟨rfl, Option.isNone_iff_eq_none.mpr known⟩ (numbers converted).2.1
    | some k =>
      have big : numeric e (.object p) = some (.bigint k) := by
        unfold numeric
        dsimp only
        rw [known]
      rw [big] at same
      cases same
      have increments : Increments e inPlace (.object p) := by
        refine ⟨rfl, fun other => ?_, fun _ n same => by cases same⟩
        cases known.symm.trans (Option.isNone_iff_eq_none.mp other.2)
      unfold increment at run
      rw [incremented_fits increments] at run
      cases run
      cases value
  | symbol | exception => cases same
  | _ => trivial

end LRJS.Increments
