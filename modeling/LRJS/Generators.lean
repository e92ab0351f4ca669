import Mathlib.Data.List.Basic

/-!
# Generators

`gen_next_cfunc`, `gen_return_cfunc`, `gen_throw_cfunc`, `gen_delegate` and the evaluation of
`yield` (`lr_interp.c`): the first `next` runs the body to its end, and its yields are handed out
from a buffer afterwards.

A body yields, delegates with `yield*`, and ends.  It may use what a call sends and read the world.
The same bodies have a meaning by suspension.
-/

namespace LRJS
namespace Generators

/-- What a call of `next`, `return` or `throw` sends to a suspended body. -/
inductive Resumption (V : Type) where
  | next (value : V)
  | «return» (value : V)
  | throw (exception : V)

/-- The rest of a generator's body.  `finish` has the value of the statements. -/
inductive Body (V W : Type) where
  | finish (value : V)
  | returns (value : V)
  | throws (exception : V)
  | yield (value : V) (resume : Resumption V → W → Body V W)
  /-- `yield*` of an array, from one of its elements on. -/
  | yieldItems (count : W → Nat) (item : Nat → W → V) (first : Nat) (next : V → W → Body V W)
  /-- `yield*` of what is left of a string; `string` makes the string of some bytes. -/
  | yieldString (text : List Char) (string : List UInt8 → V) (next : V → W → Body V W)
  /-- `yield*` of a generator that nothing else uses. -/
  | yieldFrom (start : W → Body V W) (next : V → W → Body V W)

inductive Ending (V : Type) where
  | finish (value : V)
  | returns (value : V)
  | throws (exception : V)
deriving DecidableEq

inductive Reply (V : Type) where
  | result (value : V) (done : Bool)
  | value (value : V)
  | raised (exception : V)
deriving DecidableEq

inductive Call (V : Type) where
  | next (value : V)
  | «return» (value : V)
  | throw (exception : V)

structure Event (V W : Type) where
  world : W
  object : Nat
  call : Call V

variable {V W : Type}

/-- The fields of `Interpreter` that the evaluation of a generator's body uses, and
`gen_delegate_depth`. -/
structure Interp (V : Type) where
  current_scope : Nat
  gen_active : Bool
  gen_items : List V
  gen_count : Nat
  has_returned : Bool
  return_value : V
  break_target : Bool
  continue_target : Bool
  error_flag : Bool
  exception_pending : Bool
  gen_delegate_depth : Nat

/-- `LREagerGenData`, and the body with its scope. -/
structure GenData (V W : Type) where
  body : W → Body V W
  scope : Nat
  done : Bool
  ret : V
  items : List V
  count : Nat
  idx : Nat

/-- `GEN_DELEGATE_MAX_DEPTH`. -/
def maxDepth : Nat := 8192

section Evaluation

variable (undefined : V)

/-- `gen_build_object`. -/
def GenData.build (body : W → Body V W) (scope : Nat) : GenData V W :=
  ⟨body, scope, false, undefined, [], 0, 0⟩

namespace Interp

/-- `gen_append`. -/
def append (s : Interp V) (value : V) : Interp V :=
  { s with gen_items := s.gen_items ++ [value], gen_count := s.gen_count + 1 }

def raise (s : Interp V) : Interp V :=
  { s with error_flag := true, exception_pending := true }

/-- The state in which `gen_next_cfunc` runs the body. -/
def enter (s : Interp V) (gd : GenData V W) : Interp V :=
  { s with current_scope := gd.scope, gen_active := true, gen_items := gd.items,
           gen_count := gd.count, has_returned := false }

def leave (s s₁ : Interp V) : Interp V :=
  { s₁ with current_scope := s.current_scope, gen_active := s.gen_active,
            gen_items := s.gen_items, gen_count := s.gen_count, has_returned := s.has_returned,
            error_flag := false }

end Interp

def GenData.drain (gd : GenData V W) : Reply V × GenData V W :=
  if gd.idx < gd.count then
    (.result (gd.items.getD gd.idx undefined) false, { gd with idx := gd.idx + 1 })
  else
    (.result gd.ret true, { gd with done := true })

/-- `gen_next_cfunc`; `run` evaluates the body. -/
def gen_next (run : Interp V → V × Interp V) (gd : GenData V W) (s : Interp V) :
    Reply V × GenData V W × Interp V :=
  if gd.done then
    (.result undefined true, gd, s)
  else if 0 < gd.count then
    let (reply, gd) := gd.drain undefined
    (reply, gd, s)
  else
    let (value, s₁) := run (s.enter gd)
    let ret := if s₁.has_returned then s₁.return_value else value
    let (reply, gd) :=
      { gd with ret := ret, items := s₁.gen_items, count := s₁.gen_count }.drain undefined
    (reply, gd, s.leave s₁)

/-- The loop of `gen_delegate` over a generator, after the first call of `next`. -/
def delegateRest (run : Interp V → V × Interp V) : Nat → GenData V W → Interp V → Interp V
  | 0, _, s => s
  | calls + 1, gd, s =>
    match gen_next undefined run gd s with
    | (.result value false, gd, s) => delegateRest run calls gd (s.append value)
    | (_, _, s) => s

/-- `gen_delegate` over a generator: call `next` and append, up to the end. -/
def delegateTo (run : Interp V → V × Interp V) (gd : GenData V W) (s : Interp V) : Interp V :=
  match gen_next undefined run gd s with
  | (.result value false, gd, s) => delegateRest undefined run gd.count gd (s.append value)
  | (_, _, s) => s

/-- The values that `gen_delegate` appends for a string: each byte, up to the first zero. -/
def byteValues (text : List Char) (string : List UInt8 → V) : List V :=
  ((text.flatMap String.utf8EncodeChar).takeWhile (· ≠ 0)).map fun byte => string [byte]

/-- The evaluation of the body by `interp_eval_node`: nothing is sent to a `yield`. -/
def evalBody (world : W) : Body V W → Interp V → V × Interp V
  | .finish value, s => (value, s)
  | .returns value, s => (undefined, { s with has_returned := true, return_value := value })
  | .throws _, s => (undefined, s.raise)
  | .yield value resume, s => evalBody world (resume (.next undefined) world) (s.append value)
  | .yieldItems count item first next, s =>
    if maxDepth ≤ s.gen_delegate_depth then
      (undefined, s.raise)
    else
      let items := (List.range' first (count world - first)).map fun i => item i world
      evalBody world (next undefined world) (items.foldl Interp.append s)
  | .yieldString text string next, s =>
    if maxDepth ≤ s.gen_delegate_depth then
      (undefined, s.raise)
    else
      evalBody world (next undefined world) ((byteValues text string).foldl Interp.append s)
  | .yieldFrom start next, s =>
    if maxDepth ≤ s.gen_delegate_depth then
      (undefined, s.raise)
    else
      let run := evalBody world (start world)
      let inner : GenData V W := GenData.build undefined start s.current_scope
      let deeper := { s with gen_delegate_depth := s.gen_delegate_depth + 1 }
      let s₁ := delegateTo undefined run inner deeper
      evalBody world (next undefined world)
        { s₁ with gen_delegate_depth := s₁.gen_delegate_depth - 1 }

def invoke (world : W) (gd : GenData V W) (s : Interp V) :
    Call V → Reply V × GenData V W × Interp V
  | .next _ => gen_next undefined (evalBody undefined world (gd.body world)) gd s
  | .return value => (.result value true, { gd with done := true }, s)
  | .throw exception => (.value exception, { gd with done := true }, s)

structure Machine (V W : Type) where
  interp : Interp V
  objects : Nat → GenData V W

def Machine.step (m : Machine V W) (event : Event V W) : Reply V × Machine V W :=
  let (reply, gd, s) := invoke undefined event.world (m.objects event.object) m.interp event.call
  (reply, ⟨s, Function.update m.objects event.object gd⟩)

def Machine.run : Machine V W → List (Event V W) → List (Reply V) × Machine V W
  | m, [] => ([], m)
  | m, event :: events =>
    let (reply, m) := m.step undefined event
    let (replies, last) := Machine.run m events
    (reply :: replies, last)

end Evaluation

section Suspension

variable (undefined : V)

inductive Stretch (V W : Type) where
  | yields (value : V) (resume : Resumption V → W → Body V W)
  | ended (ending : Ending V)

def stretch (world : W) : Body V W → Stretch V W
  | .finish value => .ended (.finish value)
  | .returns value => .ended (.returns value)
  | .throws exception => .ended (.throws exception)
  | .yield value resume => .yields value resume
  | .yieldItems count item first next =>
    if first < count world then
      .yields (item first world) fun resumption _ =>
        match resumption with
        | .next _ => .yieldItems count item (first + 1) next
        | .return value => .returns value
        | .throw exception => .throws exception
    else
      stretch world (next undefined world)
  | .yieldString [] _ next => stretch world (next undefined world)
  | .yieldString (char :: text) string next =>
    .yields (string (String.utf8EncodeChar char)) fun resumption _ =>
      match resumption with
      | .next _ => .yieldString text string next
      | .return value => .returns value
      | .throw exception => .throws exception
  | .yieldFrom start next =>
    match stretch world (start world) with
    | .yields value resume => .yields value fun resumption world =>
      match resumption, resume resumption world with
      | .return _, .returns value => .returns value
      | _, rest => .yieldFrom (fun _ => rest) next
    | .ended (.finish _) => stretch world (next undefined world)
    | .ended (.returns value) => stretch world (next value world)
    | .ended (.throws exception) => .ended (.throws exception)

/-- The state of a suspended generator.  The world of its first call is kept for the condition
below only. -/
inductive Status (V W : Type) where
  | fresh (body : W → Body V W)
  | suspended (begun : W) (resume : Resumption V → W → Body V W)
  | finished

def answer (begun : W) : Stretch V W → Reply V × Status V W
  | .yields value resume => (.result value false, .suspended begun resume)
  | .ended (.finish _) => (.result undefined true, .finished)
  | .ended (.returns value) => (.result value true, .finished)
  | .ended (.throws exception) => (.raised exception, .finished)

def Call.resumption : Call V → Resumption V
  | .next value => .next value
  | .return value => .return value
  | .throw exception => .throw exception

def Call.idle : Call V → Reply V
  | .next _ => .result undefined true
  | .return value => .result value true
  | .throw exception => .raised exception

def Status.call (world : W) (call : Call V) : Status V W → Reply V × Status V W
  | .finished => (call.idle undefined, .finished)
  | .suspended begun resume =>
    answer undefined begun (stretch undefined world (resume call.resumption world))
  | .fresh body =>
    match call with
    | .next _ => answer undefined world (stretch undefined world (body world))
    | call => (call.idle undefined, .finished)

def runSuspended : (Nat → Status V W) → List (Event V W) → List (Reply V)
  | _, [] => []
  | objects, event :: events =>
    let (reply, status) := (objects event.object).call undefined event.world event.call
    reply :: runSuspended (Function.update objects event.object status) events

end Suspension

end Generators
end LRJS
