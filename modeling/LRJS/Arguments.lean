import Mathlib.Algebra.Ring.Int.Defs
import Mathlib.Data.List.Basic

/-!
# Argument lists

The loop of `eval_call` and `eval_new` (`lr_interp.c`) that collects the arguments in a vector,
next to what `spread_into_array` puts into an array literal.  How the evaluation of an argument
ends is given with it, and so are the items of an iterable.  Allocations succeed.
-/

namespace LRJS.Arguments

open List Option

variable {V : Type}

/-- A value behind `...`: `len` is the length of an array as an `int32_t`. -/
inductive Spread (V : Type) where
  | array (len : Int) (item : Nat → V)
  | string (bytes : List UInt8)
  | iterable (items : Option (List V))
  | other

inductive Argument (V : Type) where
  | plain (value : Option V)
  | spread (value : Option (Spread V))

inductive Ended (V : Type) where
  | built (argv : List V)
  /-- `released` is given up, and `left` arguments are not evaluated. -/
  | threw (left : Nat) (released : List V)
deriving DecidableEq

/-- `spread_into_array`; `letter` makes the string of one byte. -/
def spread_into_array (letter : UInt8 → V) : Spread V → Option (List V)
  | .array len item => some ((List.range len.toNat).map item)
  | .string bytes => some ((bytes.takeWhile (· ≠ 0)).map letter)
  | .iterable items => items
  | .other => none

/-- What should come of the arguments behind `values`. -/
def expected (letter : UInt8 → V) : List (Argument V) → List V → Ended V
  | [], values => .built values
  | .plain (some value) :: args, values => expected letter args (values ++ [value])
  | .plain none :: args, values | .spread none :: args, values => .threw args.length values
  | .spread (some value) :: args, values =>
    match spread_into_array letter value with
    | some items => expected letter args (values ++ items)
    | none => .threw args.length values

def EVAL_CALL_STACK_ARGS : Nat := 16

/-- `total_argc` is the length of `argv`. -/
structure Argv (V : Type) where
  argv : List V
  argv_cap : Nat
  argv_on_heap : Bool

namespace Argv

variable (a : Argv V)

/-- The cells behind `argv`. -/
def room : Nat :=
  if a.argv_on_heap then a.argv_cap else EVAL_CALL_STACK_ARGS

/-- `argv[total_argc++] = value`; `none` is a write behind the vector. -/
def store (value : V) : Option (Argv V) :=
  if a.argv.length < a.room then some { a with argv := a.argv ++ [value] } else none

/-- The vector grows to `argv_cap` cells; `none` if they do not hold what is copied. -/
def grow (argv_cap : Nat) : Option (Argv V) :=
  if a.argv.length ≤ argv_cap then
    some { a with argv_cap := argv_cap, argv_on_heap := true }
  else
    none

/-- The values of an array; `none` also if `total_argc + len` overflows. -/
def spread (len : Int) (item : Nat → V) : Option (Argv V) := do
  if 2 ^ 31 ≤ a.argv.length + len then
    none
  else
    let a ← if a.argv_cap < a.argv.length + len then a.grow (a.argv.length + len).toNat else some a
    (List.range len.toNat).foldlM (fun a j => a.store (item j)) a

end Argv

def collect : List (Argument V) → Argv V → Option (Ended V)
  | [], a => some (.built a.argv)
  | .plain (some value) :: args, a => do collect args (← a.store value)
  | .plain none :: args, a =>
    -- the value of the failed evaluation is stored as well
    if a.argv.length < a.room then some (.threw args.length a.argv) else none
  | .spread none :: args, a => some (.threw args.length a.argv)
  | .spread (some (.array len item)) :: args, a => do collect args (← a.spread len item)
  | .spread (some _) :: args, a => collect args a

def eval_call (args : List (Argument V)) : Option (Ended V) :=
  collect args ⟨[], args.length, EVAL_CALL_STACK_ARGS < args.length⟩

def eval_new (args : List (Argument V)) : Option (Ended V) :=
  collect args ⟨[], args.length, true⟩

/-- The condition behind `count` values.  A plain argument needs fewer values before it than there
are arguments; with at most 16 arguments, fewer than 16 until an array has left more values than
arguments (`heap`).  What is spread is an array, or spreads to nothing. -/
def Fits (letter : UInt8 → V) (argc : Nat) : Bool → Nat → List (Argument V) → Prop
  | _, _, [] | _, _, .spread none :: _ => True
  | heap, count, .plain value :: args =>
    count < (if heap then argc else EVAL_CALL_STACK_ARGS) ∧
      (value = none ∨ Fits letter argc heap (count + 1) args)
  | heap, count, .spread (some (.array len _)) :: args =>
    count + len < 2 ^ 31 ∧ (heap ∨ 0 ≤ len ∨ count + len ≤ argc) ∧
      Fits letter argc (heap || argc < count + len) (count + len.toNat) args
  | heap, count, .spread (some value) :: args =>
    spread_into_array letter value = some [] ∧ Fits letter argc heap count args

structure Argv.Sized (argc : Nat) (a : Argv V) : Prop where
  least : argc ≤ a.argv_cap
  heap : a.argv_on_heap = true → a.argv.length ≤ a.argv_cap ∧
    (a.argv_cap = argc ∨ a.argv_cap = a.argv.length)
  stack : a.argv_on_heap = false →
    a.argv_cap = argc ∧ argc ≤ EVAL_CALL_STACK_ARGS ∧ a.argv.length ≤ EVAL_CALL_STACK_ARGS

variable {argc : Nat} {a : Argv V}

theorem Argv.Sized.room (sized : a.Sized argc) : a.argv.length < a.room ↔
    a.argv.length < if a.argv_on_heap then argc else EVAL_CALL_STACK_ARGS := by
  unfold Argv.room
  cases here : a.argv_on_heap with
  | true =>
    have bound := sized.least
    have known := sized.heap here
    simp only [if_true]
    omega
  | false => rfl

theorem Argv.Sized.store (sized : a.Sized argc) (value : V) (fits : a.argv.length < a.room) :
    Argv.Sized argc { a with argv := a.argv ++ [value] } where
  least := sized.least
  heap here := by
    have bound := sized.room.mp fits
    have least := sized.least
    have known := sized.heap here
    rw [here, if_pos rfl] at bound
    simp only [length_append, length_singleton]
    omega
  stack here := by
    obtain ⟨cap, few, _⟩ := sized.stack here
    have bound := sized.room.mp fits
    rw [here] at bound
    refine ⟨cap, few, ?_⟩
    simp only [length_append, length_singleton]
    exact bound

theorem Argv.stores {items : List V} (fits : a.argv.length + items.length ≤ a.room) :
    items.foldlM Argv.store a = some { a with argv := a.argv ++ items } := by
  induction items generalizing a with
  | nil => simp
  | cons item items ih =>
    have cell : a.argv.length < a.room := by
      rw [length_cons] at fits
      omega
    rw [foldlM_cons, Argv.store, if_pos cell]
    refine (ih ?_).trans ?_
    · change (a.argv ++ [item]).length + items.length ≤ a.room
      rw [length_append, length_singleton]
      rw [length_cons] at fits
      omega
    · simp

/-- A spread that fits appends its items and keeps the sizes. -/
theorem Argv.Sized.spread (sized : a.Sized argc) {len : Int} (item : Nat → V)
    (small : a.argv.length + len < 2 ^ 31)
    (copied : a.argv_on_heap = true ∨ 0 ≤ len ∨ a.argv.length + len ≤ argc) :
    ∃ a', a.spread len item = some a' ∧
      a'.argv = a.argv ++ (List.range len.toNat).map item ∧
      a'.argv_on_heap = (a.argv_on_heap || decide (argc < a.argv.length + len)) ∧
      a'.Sized argc := by
  have least := sized.least
  have heap := sized.heap
  have stack := sized.stack
  have count : ((range len.toNat).map item).length = len.toNat := by
    rw [length_map, length_range]
  rw [Argv.spread, if_neg (Int.not_le.mpr small)]
  simp only [← foldlM_map]
  by_cases grows : a.argv_cap < a.argv.length + len
  · have cells : a.argv.length + len.toNat = (a.argv.length + len).toNat := by
      cases here : a.argv_on_heap with
      | true =>
        have known := heap here
        omega
      | false =>
        have copied := copied.resolve_left (by rw [here]; nofun)
        omega
    have kept : a.argv.length ≤ (a.argv.length + len).toNat := cells ▸ Nat.le_add_right ..
    rw [if_pos grows, Argv.grow, if_pos kept]
    refine ⟨_, Argv.stores ?_, rfl, ?_, ?_⟩
    · rw [count]
      exact Nat.le_of_eq cells
    · have more : (argc : Int) < a.argv.length + len := by omega
      simp [more]
    · refine ⟨by simp only; omega, fun _ => ?_, nofun⟩
      simp only [length_append, count]
      omega
  · rw [if_neg grows]
    have room : a.argv.length + len.toNat ≤ a.room := by
      unfold Argv.room
      cases here : a.argv_on_heap with
      | true =>
        have known := heap here
        simp only [if_true]
        omega
      | false =>
        have known := stack here
        simp only [Bool.false_eq_true, if_false]
        omega
    refine ⟨_, Argv.stores (by rw [count]; exact room), rfl, ?_, ⟨least, fun here => ?_,
      fun here => ?_⟩⟩
    · cases here : a.argv_on_heap with
      | true => rfl
      | false =>
        have known := stack here
        have few : ¬ (argc : Int) < a.argv.length + len := by omega
        simp [few]
    · have known := heap here
      simp only [length_append, count]
      omega
    · have known := stack here
      simp only [length_append, count]
      omega

/-- Any other spread writes outside of the buffer or counts beyond an `int`. -/
theorem Argv.Sized.no_spread (sized : a.Sized argc) {len : Int} {item : Nat → V}
    (bad : ¬ (a.argv.length + len < 2 ^ 31 ∧
      (a.argv_on_heap = true ∨ 0 ≤ len ∨ a.argv.length + len ≤ argc))) :
    a.spread len item = none := by
  rw [Argv.spread]
  split
  · rfl
  · rename_i small
    have stack : a.argv_on_heap = false := by
      refine Bool.eq_false_iff.mpr fun heap => bad ⟨Int.not_le.mp small, .inl heap⟩
    have known := sized.stack stack
    have grows : a.argv_cap < a.argv.length + len := by omega
    have lost : ¬ a.argv.length ≤ (a.argv.length + len).toNat := by omega
    rw [if_pos grows, Argv.grow, if_neg lost]
    rfl

theorem collect_left {args : List (Argument V)} {left : Nat} {released : List V}
    (ended : collect args a = some (.threw left released)) : left < args.length := by
  fun_induction collect args a with
  | case1 => cases ended
  | case2 a value args ih =>
    obtain ⟨a', _, ended⟩ := bind_eq_some_iff.mp ended
    exact Nat.lt_succ_of_lt (ih a' ended)
  | case3 | case5 =>
    cases ended
    exact Nat.lt_succ_self _
  | case4 => cases ended
  | case6 a len item args ih =>
    obtain ⟨a', _, ended⟩ := bind_eq_some_iff.mp ended
    exact Nat.lt_succ_of_lt (ih a' ended)
  | case7 a value args _ ih => exact Nat.lt_succ_of_lt (ih ended)

variable {letter : UInt8 → V}

/-- A spread argument is collected right exactly if it has no items and the rest is right. -/
theorem skipped_iff {args : List (Argument V)} {values : List V} {value : Spread V} {fits : Prop}
    (upto : a.argv.length ≤ values.length) (rest : ∀ values, a.argv.length ≤ values.length →
      (collect args a = some (expected letter args values) ↔ a.argv = values ∧ fits)) :
    collect args a = some (expected letter (.spread (some value) :: args) values) ↔
      a.argv = values ∧ spread_into_array letter value = some [] ∧ fits := by
  rw [expected]
  cases spread_into_array letter value with
  | none =>
    refine iff_of_false (fun same => ?_) nofun
    exact Nat.lt_irrefl _ (collect_left same)
  | some items =>
    have longer : a.argv.length ≤ (values ++ items).length := by
      rw [length_append]
      exact Nat.le_add_right_of_le upto
    refine (rest _ longer).trans ?_
    cases items with
    | nil => rw [append_nil, eq_self, true_and]
    | cons item items =>
      refine iff_of_false (fun found => ?_) nofun
      rw [found.1, length_append, length_cons] at upto
      omega

/-- A vector that has come short of `values` stays short. -/
theorem collect_iff (sized : a.Sized argc) (args : List (Argument V)) {values : List V}
    (upto : a.argv.length ≤ values.length) :
    collect args a = some (expected letter args values) ↔
      a.argv = values ∧ Fits letter argc a.argv_on_heap a.argv.length args := by
  induction args generalizing a values with
  | nil => simp [collect, expected, Fits]
  | cons arg args ih =>
    cases arg with
    | plain value =>
      cases value with
      | none => simp [collect, expected, Fits, sized.room, and_comm]
      | some value =>
        rw [collect, expected, Fits, ← sized.room, Argv.store]
        by_cases fits : a.argv.length < a.room
        · have next := @ih _ (sized.store value fits) (values ++ [value])
            (by simpa using upto)
          rw [if_pos fits]
          refine next.trans ?_
          simp [fits]
        · simp [fits]
    | spread value =>
      cases value with
      | none => simp [collect, expected, Fits]
      | some value =>
        cases value with
        | array len item =>
          rw [collect, expected, Fits]
          by_cases good : a.argv.length + len < 2 ^ 31 ∧
              (a.argv_on_heap = true ∨ 0 ≤ len ∨ a.argv.length + len ≤ argc)
          · obtain ⟨a', taken, argv, heap, sized'⟩ := sized.spread item good.1 good.2
            have next := @ih _ sized' (values ++ (range len.toNat).map item)
              (by simpa [argv] using upto)
            rw [taken]
            refine next.trans ?_
            rw [argv, heap, append_left_inj, length_append, length_map,
              length_range]
            exact and_congr_right fun _ =>
              ⟨fun rest => ⟨good.1, good.2, rest⟩, fun found => found.2.2⟩
          · rw [sized.no_spread good]
            exact iff_of_false nofun fun found => good ⟨found.2.1, found.2.2.1⟩
        | string bytes => exact skipped_iff upto fun values => ih sized
        | iterable items => exact skipped_iff upto fun values => ih sized
        | other => exact skipped_iff upto fun values => ih sized

/-- The arguments come as they should, all inside the vector, exactly where they fit. -/
theorem arguments_built_iff (letter : UInt8 → V) (args : List (Argument V)) :
    (eval_call args = some (expected letter args []) ↔
        Fits letter args.length (EVAL_CALL_STACK_ARGS < args.length) 0 args) ∧
      (eval_new args = some (expected letter args []) ↔
        Fits letter args.length true 0 args) := by
  refine ⟨?_, ?_⟩
  · have sized : Argv.Sized args.length
        (⟨[], args.length, EVAL_CALL_STACK_ARGS < args.length⟩ : Argv V) := by
      refine ⟨Nat.le_refl _, fun _ => ⟨Nat.zero_le _, .inl rfl⟩,
        fun few => ⟨rfl, ?_, Nat.zero_le _⟩⟩
      exact Nat.not_lt.mp (of_decide_eq_false few)
    refine (collect_iff sized args (Nat.le_refl _)).trans ?_
    exact and_iff_right rfl
  · have sized : Argv.Sized args.length (⟨[], args.length, true⟩ : Argv V) :=
      ⟨Nat.le_refl _, fun _ => ⟨Nat.zero_le _, .inl rfl⟩, nofun⟩
    refine (collect_iff sized args (Nat.le_refl _)).trans ?_
    exact and_iff_right rfl

/-- `f(...[0, 1, 2], 3)` -/
theorem spread_before_plain_overflows :
    ¬ eval_call [.spread (some (.array 3 id)), .plain (some 3)] =
      some (expected UInt8.toNat [.spread (some (.array 3 id)), .plain (some 3)] []) := by
  decide

end LRJS.Arguments
