import LRJS.Conversions
import LRJS.Library.CallbackFolds
import LRJS.Library.Ledgers

/-!
# Array methods with callbacks

`every`, `filter`, `find`, `findIndex`, `findLast`, `findLastIndex`, `flatMap`, `forEach`, `reduce`,
`reduceRight` and `some` of `lr_builtins_core.c`.  A log keeps the calls of the callback and a
ledger of the references that a method takes and gives up.

The callback sees all calls up to its own.  A reply that is an array comes with its elements.
-/

namespace LRJS.ArrayCallbacks

structure Call where
  this : LRValue
  args : List LRValue

structure Reply where
  value : LRValue
  elements : Option (List LRValue)

/-- How a call of the callback ends.  A script function that throws leaves its error to the
interpreter and answers `undefined`; other functions answer `JS_EXCEPTION`. -/
inductive Outcome where
  | replied (reply : Reply)
  | scriptThrew
  | nativeThrew

abbrev Callback := List Call → Outcome

/-- What the calls answer, where `none` is an exception. -/
abbrev Answers := List Call → Option Reply

namespace Callback

variable (callback : Callback)

/-- What the loops get from `JS_Call`. -/
def answers : Answers := fun calls =>
  match callback calls with
  | .replied reply => some reply
  | .scriptThrew => some ⟨.undefined, none⟩
  | .nativeThrew => none

/-- The replies of the callback, and its exceptions. -/
def replies : Answers := fun calls =>
  match callback calls with
  | .replied reply => some reply
  | .scriptThrew | .nativeThrew => none

def Strays (calls : List Call) : Prop :=
  callback calls = .scriptThrew

instance (calls : List Call) : Decidable (callback.Strays calls) :=
  match found : callback calls with
  | .replied _ | .nativeThrew => isFalse fun strays => by cases found.symm.trans strays
  | .scriptThrew => isTrue found

/-- `error_flag` behind the calls. -/
def error_flag (calls : List Call) : Bool :=
  calls.inits.tail.any fun made => callback.Strays made

end Callback

inductive Result where
  | value (v : LRValue)
  | array (xs : List LRValue)
  | exception
  | typeError (text : String)

structure Log where
  ledger : Ledger
  calls : List Call

structure Owned where
  value : LRValue
  ref : Nat

section Code

def own (value : LRValue) : StateM Log Owned :=
  fun log => (⟨value, log.ledger.next⟩, { log with ledger := log.ledger.acquire })

/-- `JS_FreeValue`, or a call that takes the reference. -/
def release (val : Owned) : StateM Log Unit :=
  fun log => ((), { log with ledger := log.ledger.release val.ref })

variable (callback : Answers)

def JS_Call (this : LRValue) (args : List Owned) :
    StateM Log (Option (Owned × Option (List LRValue))) :=
  fun log =>
    let calls := log.calls ++ [⟨this, args.map Owned.value⟩]
    match callback calls with
    | none => (none, { log with calls })
    | some reply =>
      (some (⟨reply.value, log.ledger.next⟩, reply.elements), ⟨log.ledger.acquire, calls⟩)

variable (this_val this_arg : LRValue) (xs : List LRValue)

/-- The element at an index, and the callback called for it with `this_arg`; the index and the
array are released after the call. -/
def visit (i : Nat) : StateM Log (Owned × Option (Owned × Option (List LRValue))) := do
  let val ← own (xs.getD i .undefined)
  let index ← own (.int32 i)
  let self ← own this_val
  let result ← JS_Call callback this_arg [val, index, self]
  release index
  release self
  return (val, result)

/-- The loops of `every`, `some`, `findIndex`, `findLastIndex` and `forEach`: the first result
whose truth stops the loop decides. -/
def test (stops : Bool → Bool) (found : Nat → LRValue) (missing : LRValue) :
    List Nat → StateM Log Result
  | [] => return .value missing
  | i :: rest => do
      let (val, result) ← visit callback this_val this_arg xs i
      release val
      match result with
      | none => return .exception
      | some (result, _) =>
        release result
        if stops (lr_to_bool result.value) then return .value (found i)
        else test stops found missing rest

/-- The loops of `find` and `findLast`. -/
def pick : List Nat → StateM Log Result
  | [] => return .value .undefined
  | i :: rest => do
      let (val, result) ← visit callback this_val this_arg xs i
      match result with
      | none =>
        release val
        return .exception
      | some (result, _) =>
        release result
        release val
        if lr_to_bool result.value then return .value val.value else pick rest

/-- The loop of `filter`. -/
def select (array : Owned) : List Nat → List LRValue → StateM Log Result
  | [], out => do
      release array
      return .array out
  | i :: rest, out => do
      let (val, result) ← visit callback this_val this_arg xs i
      match result with
      | none =>
        release val
        release array
        return .exception
      | some (result, _) =>
        release result
        release val
        select array rest (if lr_to_bool result.value then out ++ [val.value] else out)

def ownAll : List LRValue → StateM Log Unit
  | [] => return ()
  | item :: rest => do
      let item ← own item
      release item
      ownAll rest

/-- The loop of `flatMap`: a mapped array is not released. -/
def spread (array : Owned) : List Nat → List LRValue → StateM Log Result
  | [], out => do
      release array
      return .array out
  | i :: rest, out => do
      let (val, result) ← visit callback this_val this_arg xs i
      release val
      match result with
      | none =>
        release array
        return .exception
      | some (_, some items) =>
        ownAll items
        spread array rest (out ++ items.filter (· ≠ .undefined))
      | some (mapped, none) =>
        release mapped
        spread array rest (out ++ [mapped.value])

/-- The loops of `reduce` and `reduceRight`: the copy of the accumulator and the element are
not released. -/
def accumulate : List Nat → Owned → StateM Log Result
  | [], accumulator => do
      release accumulator
      return .value accumulator.value
  | i :: rest, accumulator => do
      let val ← own (xs.getD i .undefined)
      let copy ← own accumulator.value
      release accumulator
      let index ← own (.int32 i)
      let self ← own this_val
      let result ← JS_Call callback .undefined [copy, val, index, self]
      release index
      release self
      match result with
      | none => return .exception
      | some (accumulator, _) => accumulate rest accumulator

/-- The sum of the fast path of `reduce`. -/
def fastSum (init : LRValue) : LRValue :=
  let start := match init with
    | .int32 _ | .float64 _ => lr_to_int32 init
    | _ => 0
  let sum := xs.foldl (fun sum v =>
    match v with
    | .int32 n => sum + n
    | _ => sum) start
  if Double.InInt32 sum then .int32 sum else .float64 (.ofInt sum)

/-- `for (i = 0; i < len; i++)`. -/
def upwards : List Nat := List.range xs.length

/-- `for (i = len - 1; i >= 0; i--)`. -/
def downwards : List Nat := (List.range xs.length).reverse

def js_array_proto_every : StateM Log Result :=
  test callback this_val this_arg xs (fun ok => !ok) (fun _ => .bool false) (.bool true)
    (upwards xs)

def js_array_proto_some : StateM Log Result :=
  test callback this_val this_arg xs (fun ok => ok) (fun _ => .bool true) (.bool false)
    (upwards xs)

def js_array_proto_find_index : StateM Log Result :=
  test callback this_val this_arg xs (fun ok => ok) (fun i => .int32 i) (.int32 (-1)) (upwards xs)

def js_array_proto_find_last_index : StateM Log Result :=
  test callback this_val this_arg xs (fun ok => ok) (fun i => .int32 i) (.int32 (-1))
    (downwards xs)

/-- `js_array_proto_for_each`: the results are not looked at. -/
def js_array_proto_for_each : StateM Log Result :=
  test callback this_val this_arg xs (fun _ => false) (fun _ => .undefined) .undefined
    (upwards xs)

def js_array_proto_find : StateM Log Result :=
  pick callback this_val this_arg xs (upwards xs)

def js_array_proto_find_last : StateM Log Result :=
  pick callback this_val this_arg xs (downwards xs)

/-- `js_array_proto_filter`; `array` is the new array. -/
def js_array_proto_filter (array : LRValue) : StateM Log Result := do
  let result ← own array
  select callback this_val this_arg xs result (upwards xs) []

def js_array_proto_flat_map (array : LRValue) : StateM Log Result := do
  let result ← own array
  spread callback this_val this_arg xs result (upwards xs) []

/-- `js_array_proto_reduce`: an initial value takes the fast path. -/
def js_array_proto_reduce (init : Option LRValue) : StateM Log Result :=
  match init with
  | some init => return .value (fastSum xs init)
  | none =>
    if xs.length = 0 then
      return .typeError "Reduce of empty array with no initial value"
    else do
      let accumulator ← own (xs.getD 0 .undefined)
      accumulate callback this_val xs (upwards xs).tail accumulator

def js_array_proto_reduce_right (init : Option LRValue) : StateM Log Result :=
  match init with
  | some init => do
      let accumulator ← own init
      accumulate callback this_val xs (downwards xs) accumulator
  | none =>
    if xs.length = 0 then
      return .typeError "ReduceRight of empty array with no initial value"
    else do
      let accumulator ← own (xs.getD (xs.length - 1) .undefined)
      accumulate callback this_val xs (downwards xs).tail accumulator

end Code

inductive Method where
  | every (this_arg : LRValue)
  | filter (this_arg : LRValue)
  | find (this_arg : LRValue)
  | findIndex (this_arg : LRValue)
  | findLast (this_arg : LRValue)
  | findLastIndex (this_arg : LRValue)
  | flatMap (this_arg : LRValue)
  | forEach (this_arg : LRValue)
  | reduce (init : Option LRValue)
  | reduceRight (init : Option LRValue)
  | some (this_arg : LRValue)

/-- A call on an array with these elements; `array` is the array that a method makes. -/
def callMethod (callback : Answers) (this_val array : LRValue) (xs : List LRValue) :
    Method → Result × Log
  | .every this_arg => js_array_proto_every callback this_val this_arg xs ⟨.empty, []⟩
  | .filter this_arg => js_array_proto_filter callback this_val this_arg xs array ⟨.empty, []⟩
  | .find this_arg => js_array_proto_find callback this_val this_arg xs ⟨.empty, []⟩
  | .findIndex this_arg => js_array_proto_find_index callback this_val this_arg xs ⟨.empty, []⟩
  | .findLast this_arg => js_array_proto_find_last callback this_val this_arg xs ⟨.empty, []⟩
  | .findLastIndex this_arg =>
    js_array_proto_find_last_index callback this_val this_arg xs ⟨.empty, []⟩
  | .flatMap this_arg => js_array_proto_flat_map callback this_val this_arg xs array ⟨.empty, []⟩
  | .forEach this_arg => js_array_proto_for_each callback this_val this_arg xs ⟨.empty, []⟩
  | .reduce init => js_array_proto_reduce callback this_val xs init ⟨.empty, []⟩
  | .reduceRight init => js_array_proto_reduce_right callback this_val xs init ⟨.empty, []⟩
  | .some this_arg => js_array_proto_some callback this_val this_arg xs ⟨.empty, []⟩

/-- What the caller of a method gets: an error that a script function has left becomes the
exception. -/
def run (callback : Callback) (this_val array : LRValue) (xs : List LRValue) (method : Method) :
    Result × Log :=
  let (result, log) := callMethod callback.answers this_val array xs method
  (if callback.error_flag log.calls then .exception else result, log)

section Meaning

variable (callback : Answers) (this_val : LRValue) (xs : List LRValue)

def visitCall (this_arg : LRValue) (i : Nat) : Call :=
  ⟨this_arg, [xs.getD i .undefined, .int32 i, this_val]⟩

def searching (this_arg : LRValue) (stops : Bool → Bool) (found : Nat → LRValue)
    (missing : LRValue) : CallbackFold Unit Nat Call Reply Result where
  call _ i := visitCall this_val xs this_arg i
  absorb _ i reply :=
    if stops (lr_to_bool reply.value) then .inr (.value (found i)) else .inl ()
  finish _ := .value missing

def building (this_arg : LRValue) (pieces : Nat → Reply → List LRValue) :
    CallbackFold (List LRValue) Nat Call Reply Result where
  call _ i := visitCall this_val xs this_arg i
  absorb out i reply := .inl (out ++ pieces i reply)
  finish := .array

/-- `filter` keeps the elements with a true reply. -/
def filtering (this_arg : LRValue) : CallbackFold (List LRValue) Nat Call Reply Result :=
  building this_val xs this_arg fun i reply =>
    if lr_to_bool reply.value then [xs.getD i .undefined] else []

/-- `flatMap` takes the elements of a reply that is an array. -/
def flattening (this_arg : LRValue) : CallbackFold (List LRValue) Nat Call Reply Result :=
  building this_val xs this_arg fun _ reply => reply.elements.getD [reply.value]

def folding : CallbackFold LRValue Nat Call Reply Result where
  call accumulator i := ⟨.undefined, [accumulator, xs.getD i .undefined, .int32 i, this_val]⟩
  absorb _ _ reply := .inl reply.value
  finish := .value

def ended (outcome : Option Result × List Call) : Result × List Call :=
  (outcome.1.getD .exception, outcome.2)

def meant : Method → Result × List Call
  | .every this_arg =>
    ended ((searching this_val xs this_arg (fun ok => !ok) (fun _ => .bool false)
      (.bool true)).run callback () (upwards xs) [])
  | .some this_arg =>
    ended ((searching this_val xs this_arg (fun ok => ok) (fun _ => .bool true)
      (.bool false)).run callback () (upwards xs) [])
  | .find this_arg =>
    ended ((searching this_val xs this_arg (fun ok => ok) (fun i => xs.getD i .undefined)
      .undefined).run callback () (upwards xs) [])
  | .findIndex this_arg =>
    ended ((searching this_val xs this_arg (fun ok => ok) (fun i => .int32 i)
      (.int32 (-1))).run callback () (upwards xs) [])
  | .findLast this_arg =>
    ended ((searching this_val xs this_arg (fun ok => ok) (fun i => xs.getD i .undefined)
      .undefined).run callback () (downwards xs) [])
  | .findLastIndex this_arg =>
    ended ((searching this_val xs this_arg (fun ok => ok) (fun i => .int32 i)
      (.int32 (-1))).run callback () (downwards xs) [])
  | .forEach this_arg =>
    ended ((searching this_val xs this_arg (fun _ => false) (fun _ => .undefined)
      .undefined).run callback () (upwards xs) [])
  | .filter this_arg =>
    ended ((filtering this_val xs this_arg).run callback [] (upwards xs) [])
  | .flatMap this_arg =>
    ended ((flattening this_val xs this_arg).run callback [] (upwards xs) [])
  | .reduce (some init) => ended ((folding this_val xs).run callback init (upwards xs) [])
  | .reduce none =>
    match upwards xs with
    | [] => (.typeError "", [])
    | first :: rest =>
      ended ((folding this_val xs).run callback (xs.getD first .undefined) rest [])
  | .reduceRight (some init) => ended ((folding this_val xs).run callback init (downwards xs) [])
  | .reduceRight none =>
    match downwards xs with
    | [] => (.typeError "", [])
    | last :: rest =>
      ended ((folding this_val xs).run callback (xs.getD last .undefined) rest [])

/-- The same result: an integer may be returned for the double that it is, and the text of a
TypeError is free. -/
def Result.Same : Result → Result → Prop
  | .value v, .value w => v = w ∨ ∃ n, v = .int32 n ∧ w = .float64 (.ofInt n)
  | .array xs, .array ys => xs = ys
  | .exception, .exception | .typeError _, .typeError _ => True
  | _, _ => False

end Meaning

/-- The method makes the calls that are meant, returns what is meant, and gives up each
reference exactly once. -/
def Right (callback : Callback) (this_val : LRValue) (xs : List LRValue) (array : LRValue)
    (method : Method) : Prop :=
  let (result, log) := run callback this_val array xs method
  let (wanted, calls) := meant callback.replies this_val xs method
  result.Same wanted ∧ log.calls = calls ∧ log.ledger.Settled

end LRJS.ArrayCallbacks
