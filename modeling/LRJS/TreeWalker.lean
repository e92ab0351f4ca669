import LRJS.Syntax

/-!
# The control flow of the tree-walker

`interp_eval_node` and the statement evaluators of `lr_interp.c`: blocks, loops, `switch`, labels,
jumps, `throw` and `try`, with the flags that report that a statement was left early.

Values and scopes are the parameters `V` and `W`.  An expression, a declaration or a class is a
program `Prog` of the host.  Reference counts, the time limit and asynchronous functions are left
out.
-/

namespace LRJS
namespace TreeWalker

/-- A value that was thrown, the failure of a C function (what it has thrown, and its message), or
an error message of the interpreter. -/
inductive Raised (V : Type) where
  | thrown (value : V)
  | native (value : V) (message : String)
  | engine (message : String)
deriving DecidableEq, Repr

/-- What the evaluator of an expression does.  `leave` puts the caller's scope back. -/
inductive Prog (V W : Type) where
  | ret (value : V) (world : W)
  | raise (raised : Raised V) (world : W)
  | operand (node : ASTNode) (world : W) (next : V → W → Prog V W)
  | call (body : ASTNode) (world : W) (leave : W → W) (next : V → W → Prog V W)
  | resume (body : ASTNode) (world : W) (leave : W → W) (next : V → W → Prog V W)

/-- The sources of a `for-of`: a string or an array by its items, another object, or neither. -/
inductive Iteration (V W : Type) where
  | items (count : Nat) (item : Nat → W → Prog V W)
  | object
  | notIterable

structure Host (V W : Type) where
  undefined : V
  toBool : V → Bool
  isObject : V → Bool
  strict_eq : V → V → Bool
  push_scope : W → W
  pop_scope : W → W
  /-- `scope_declare_name(interp, name, value, 1)`. -/
  declare_name : Name → V → W → W
  /-- A new object with the prototype of `Error` and this message. -/
  error_object : String → W → V × W
  expression : ASTNode → W → Prog V W
  get_property : V → Name → W → Prog V W
  /-- `lr_get_own_property_names`; `listed` are the names that it has found. -/
  own_property_names : V → W → Prog V W
  listed : W → List Name
  string : Name → V
  is_function : V → Bool
  /-- Call a function on an object. -/
  call : V → V → W → Prog V W
  /-- Give the loop variable of a `for-in` its value. -/
  for_in_assign_var : ASTNode → V → W → Prog V W
  for_of_assign_var : ASTNode → V → W → Prog V W
  iteration : V → W → Iteration V W

/-- A label in the buffers `break_label` and `continue_label`: its bytes. -/
abbrev LabelText := List UInt8

def labelBytes (name : Name) : LabelText :=
  name.toByteArray.data.toList

theorem labelBytes_injective : Function.Injective labelBytes := by
  intro left right same
  apply String.toByteArray_inj.mp
  apply ByteArray.ext
  exact Array.toList_inj.mp same

/-- `snprintf` into a buffer of 64 bytes. -/
def labelBuffer (name : Name) : LabelText :=
  (labelBytes name).take 63

/-- The fields of `Interpreter` that steer statements, and everything else. -/
structure Interp (V W : Type) where
  world : W
  break_target : Bool
  continue_target : Bool
  break_label : LabelText
  continue_label : LabelText
  pending_label : Option Name
  has_returned : Bool
  return_value : V
  error_flag : Bool
  error_message : String
  exception_pending : Bool
  /-- `none` is the tag `LR_TYPE_EXCEPTION`. -/
  exception_value : Option V
  /-- The values that `eval_try` has given to `lr_free_value` as overridden. -/
  released : List V

/-- The evaluation of a node; `none` when it does not come to an end. -/
abbrev Eval (V W : Type) := ASTNode → Interp V W → Option (V × Interp V W)

variable {V W : Type}

namespace Interp

def initial (host : Host V W) (world : W) : Interp V W :=
  { world := world, break_target := false, continue_target := false, break_label := [],
    continue_label := [], pending_label := none, has_returned := false,
    return_value := host.undefined, error_flag := false, error_message := "",
    exception_pending := false, exception_value := some host.undefined, released := [] }

def stopped (s : Interp V W) : Bool :=
  s.break_target || s.has_returned || s.error_flag

def break_is_mine (label : Option Name) (s : Interp V W) : Bool :=
  s.break_target && (s.break_label = [] || label.map labelBytes = some s.break_label)

def continue_is_mine (label : Option Name) (s : Interp V W) : Bool :=
  s.continue_target && (s.continue_label = [] || label.map labelBytes = some s.continue_label)

def consume_break (s : Interp V W) : Interp V W :=
  { s with break_target := false, break_label := [] }

def consume_continue (s : Interp V W) : Interp V W :=
  { s with continue_target := false, continue_label := [] }

def settle_break (label : Option Name) (s : Interp V W) : Interp V W :=
  if s.break_is_mine label then s.consume_break else s

def push_scope (host : Host V W) (s : Interp V W) : Interp V W :=
  { s with world := host.push_scope s.world }

def pop_scope (host : Host V W) (s : Interp V W) : Interp V W :=
  { s with world := host.pop_scope s.world }

def raise (host : Host V W) (raised : Raised V) (s : Interp V W) : Interp V W :=
  match raised with
  | .thrown value =>
    { s with error_flag := true, exception_pending := true, exception_value := some value }
  | .native _ message =>
    { s with error_flag := true, error_message := message, exception_pending := true,
             exception_value := none }
  | .engine message =>
    { s with error_flag := true, error_message := message,
             exception_value := some host.undefined }

end Interp

section Evaluators

variable (host : Host V W) (eval : Eval V W)

def Interp.enter (s : Interp V W) : Interp V W :=
  { s with break_target := false, continue_target := false, break_label := [],
           continue_label := [], pending_label := none, has_returned := false,
           return_value := host.undefined, error_flag := false }

def Interp.restore (saved s : Interp V W) : Interp V W :=
  { s with break_target := saved.break_target, continue_target := saved.continue_target,
           pending_label := saved.pending_label, has_returned := saved.has_returned,
           return_value := saved.return_value,
           error_flag := if s.error_flag then true else saved.error_flag }

/-- `interp_call_function`, from the evaluation of the body on. -/
def interp_call_function (body : ASTNode) (leave : W → W) (s : Interp V W) :
    Option (V × Interp V W) := do
  let (value, s₁) ← eval body (s.enter host)
  let result := if s₁.has_returned then s₁.return_value else value
  return (result, s.restore { s₁ with world := leave s₁.world })

/-- `gen_next_cfunc`, where it runs the whole body. -/
def gen_next (body : ASTNode) (leave : W → W) (s : Interp V W) : Option (V × Interp V W) := do
  let (value, s₁) ← eval body { s with has_returned := false }
  let result := if s₁.has_returned then s₁.return_value else value
  return (result, { s₁ with world := leave s₁.world, has_returned := s.has_returned,
                            error_flag := false })

def runProg : Prog V W → Interp V W → Option (V × Interp V W)
  | .ret value world, s => some (value, { s with world := world })
  | .raise raised world, s => some (host.undefined, { s with world := world }.raise host raised)
  | .operand node world next, s => do
      let (value, s) ← eval node { s with world := world }
      if s.error_flag then
        return (value, s)
      else
        runProg (next value s.world) s
  | .call body world leave next, s => do
      let (value, s) ← interp_call_function host eval body leave { s with world := world }
      if s.error_flag then
        return (value, s)
      else
        runProg (next value s.world) s
  | .resume body world leave next, s => do
      let (value, s) ← gen_next eval body leave { s with world := world }
      if s.error_flag then
        return (value, s)
      else
        runProg (next value s.world) s

def eval_program : List ASTNode → V → Interp V W → Option (V × Interp V W)
  | [], result, s => some (result, s)
  | item :: items, result, s =>
    if s.error_flag || s.has_returned then
      some (result, s)
    else do
      let (result, s) ← eval item s
      eval_program items result s

/-- The statement loop of `eval_block`. -/
def blockItems : List ASTNode → V → Interp V W → Option (V × Interp V W)
  | [], result, s => some (result, s)
  | item :: items, result, s =>
    if s.stopped || s.continue_target then
      some (result, s)
    else do
      let (result, s) ← eval item s
      if s.error_flag then
        return (result, s)
      else
        blockItems items result s

def eval_block (items : List ASTNode) (s : Interp V W) : Option (V × Interp V W) := do
  let (result, s) ← blockItems eval items host.undefined (s.push_scope host)
  return (result, s.pop_scope host)

def eval_if (cond body elseBody : ASTNode) (s : Interp V W) : Option (V × Interp V W) := do
  let (cond, s) ← eval cond s
  if s.error_flag then
    return (cond, s)
  else if host.toBool cond then
    eval body s
  else
    eval elseBody s

/-- The properties of the object become variables; no error of a read ends the loop. -/
def withDeclare (obj : V) : List Name → Interp V W → Option (Interp V W)
  | [], s => some s
  | name :: names, s => do
      let (value, s) ← runProg host eval (host.get_property obj name s.world) s
      withDeclare obj names { s with world := host.declare_name name value s.world }

def eval_with (obj body : ASTNode) (s : Interp V W) : Option (V × Interp V W) := do
  let (obj, s) ← eval obj s
  if s.error_flag then
    return (obj, s)
  else if !host.isObject obj then
    return (host.undefined, s.raise host (.engine "with statement requires an object"))
  else
    let s := s.push_scope host
    let (_, s) ← runProg host eval (host.own_property_names obj s.world) s
    let s ← withDeclare host eval obj (host.listed s.world) s
    let (result, s) ← eval body s
    return (result, s.pop_scope host)

/-- What follows the body of a `for`, `while` or `do-while`: `true` to go on. -/
def afterBody (label : Option Name) (s : Interp V W) : Bool × Interp V W :=
  if s.break_target then
    (false, s.settle_break label)
  else if s.has_returned || s.error_flag then
    (false, s)
  else if s.continue_target then
    if s.continue_is_mine label then (true, s.consume_continue) else (false, s)
  else
    (true, s)

/-- The loop of `eval_for`. -/
def forTurns (test update body : ASTNode) (label : Option Name) :
    Nat → V → Interp V W → Option (V × Interp V W)
  | 0, _, _ => none
  | turns + 1, result, s =>
    if s.stopped then
      some (result, s)
    else do
      let (go, s) ← forTest s
      if !go then
        return (result, s)
      else
        let (result, s) ← eval body s
        match afterBody label s with
        | (false, s) => return (result, s)
        | (true, s) => do
            let (_, s) ← eval update s
            if s.error_flag then
              return (result, s)
            else
              forTurns test update body label turns result s
where
  forTest (s : Interp V W) : Option (Bool × Interp V W) :=
    match test with
    | .null => some (true, s)
    | test => do
        let (value, s) ← eval test s
        return (host.toBool value, s)

def eval_for (turns : Nat) (init test update body : ASTNode) (s : Interp V W) :
    Option (V × Interp V W) := do
  let label := s.pending_label
  let (_, s) ← eval init ({ s with pending_label := none }.push_scope host)
  if s.error_flag then
    return (host.undefined, s.pop_scope host)
  else
    let (result, s) ← forTurns host eval test update body label turns host.undefined s
    return (result, s.pop_scope host)

/-- The loop of `eval_while`. -/
def whileTurns (cond body : ASTNode) (label : Option Name) :
    Nat → V → Interp V W → Option (V × Interp V W)
  | 0, _, _ => none
  | turns + 1, result, s =>
    if s.stopped then
      some (result, s)
    else do
      let (value, s) ← eval cond s
      if !host.toBool value then
        return (result, s)
      else
        let (result, s) ← eval body s
        match afterBody label s with
        | (false, s) => return (result, s)
        | (true, s) => whileTurns cond body label turns result s

def eval_while (turns : Nat) (cond body : ASTNode) (s : Interp V W) : Option (V × Interp V W) :=
  whileTurns host eval cond body s.pending_label turns host.undefined
    { s with pending_label := none }

/-- The loop of `eval_do_while`. -/
def doWhileTurns (cond body : ASTNode) (label : Option Name) :
    Nat → Interp V W → Option (V × Interp V W)
  | 0, _ => none
  | turns + 1, s => do
      let (result, s) ← eval body s
      match afterBody label s with
      | (false, s) => return (result, s)
      | (true, s) => do
          let (value, s) ← eval cond s
          if !host.toBool value || s.stopped then
            return (result, s)
          else
            doWhileTurns cond body label turns s

def eval_do_while (turns : Nat) (cond body : ASTNode) (s : Interp V W) :
    Option (V × Interp V W) :=
  doWhileTurns host eval cond body s.pending_label turns { s with pending_label := none }

/-- The loops of `eval_for_in` and `eval_for_of`: `next` is the value of a turn, which `assign`
gives to the loop variable. -/
def itemTurns (assign : V → W → Prog V W) (body : ASTNode) (label : Option Name)
    (next : Nat → Interp V W → Option (Option V × Interp V W)) :
    Nat → Nat → V → Interp V W → Option (V × Interp V W)
  | 0, _, result, s => if s.stopped then some (result, s) else none
  | turns + 1, i, result, s =>
    if s.stopped then
      some (result, s)
    else do
      let (item, s) ← next i s
      match item with
      | none => return (result, s)
      | some item => do
          let (_, s) ← runProg host eval (assign item s.world) s
          let (result, s) ← eval body s
          if s.continue_target then
            if s.continue_is_mine label then
              itemTurns assign body label next turns (i + 1) result s.consume_continue
            else
              return (result, s)
          else
            itemTurns assign body label next turns (i + 1) result s

def nextName (names : List V) (i : Nat) (s : Interp V W) : Option (Option V × Interp V W) :=
  some (names[i]?, s)

def eval_for_in (turns : Nat) (each source body : ASTNode) (s : Interp V W) :
    Option (V × Interp V W) := do
  let label := s.pending_label
  let (source, s) ← eval source { s with pending_label := none }
  if s.error_flag then
    return (source, s)
  else
    let (_, s) ← runProg host eval (host.own_property_names source s.world) s
    let names := (host.listed s.world).map host.string
    let (result, s) ← itemTurns host eval (host.for_in_assign_var each) body label
      (nextName names) turns 0 host.undefined (s.push_scope host)
    return (result, (s.settle_break label).pop_scope host)

def nextItem (count : Nat) (item : Nat → W → Prog V W) (i : Nat) (s : Interp V W) :
    Option (Option V × Interp V W) :=
  if i < count then do
    let (value, s) ← runProg host eval (item i s.world) s
    return (some value, s)
  else
    some (none, s)

/-- One call of `iter.next()`; no error of a read is looked at. -/
def nextResult (iter next_fn : V) (_ : Nat) (s : Interp V W) :
    Option (Option V × Interp V W) := do
  let (nr, s) ← runProg host eval (host.call next_fn iter s.world) s
  if s.error_flag then
    return (none, s)
  else
    let (done, s) ← runProg host eval (host.get_property nr "done" s.world) s
    if host.toBool done then
      return (none, s)
    else
      let (value, s) ← runProg host eval (host.get_property nr "value" s.world) s
      return (some value, s)

def eval_for_of (turns : Nat) (each source body : ASTNode) (s : Interp V W) :
    Option (V × Interp V W) := do
  let label := s.pending_label
  let (source, s) ← eval source { s with pending_label := none }
  if s.error_flag then
    return (source, s)
  else
    let s := s.push_scope host
    let loop := itemTurns host eval (host.for_of_assign_var each) body label
    let leave (s : Interp V W) := (s.settle_break label).pop_scope host
    match host.iteration source s.world with
    | .items count item => do
        let (result, s) ← loop (nextItem host eval count item) turns 0 host.undefined s
        return (result, leave s)
    | .object => do
        let (iter_fn, s) ← runProg host eval (host.get_property source "Symbol.iterator" s.world) s
        if host.is_function iter_fn then
          let (iter, s) ← runProg host eval (host.call iter_fn source s.world) s
          if s.error_flag then
            return (host.undefined, s.pop_scope host)
          else if !host.isObject iter then
            return (host.undefined, leave s)
          else
            let (next_fn, s) ← runProg host eval (host.get_property iter "next" s.world) s
            let (result, s) ← loop (nextResult host eval iter next_fn) turns 0 host.undefined s
            return (result, leave s)
        else
          return (host.undefined, leave (s.raise host (.engine "value is not iterable")))
    | .notIterable =>
      return (host.undefined, leave (s.raise host (.engine "value is not iterable")))

def caseItems : List ASTNode → V → Interp V W → Option (V × Interp V W)
  | [], result, s => some (result, s)
  | item :: items, result, s =>
    if s.stopped then
      some (result, s)
    else do
      let (result, s) ← eval item s
      caseItems items result s

def caseBody : ASTNode → List ASTNode
  | .caseClause _ (.block items) => items
  | .defaultClause (.block items) => items
  | _ => []

def caseMatched (test : V) (case_node : ASTNode) (matched : Bool) (s : Interp V W) :
    Option (Except V Bool × Interp V W) :=
  match case_node with
  | .defaultClause _ => some (.ok true, s)
  | .caseClause cond _ =>
    if matched then
      some (.ok true, s)
    else do
      let (case_test, s) ← eval cond s
      if s.error_flag then
        return (.error case_test, s)
      else
        return (.ok (host.strict_eq test case_test), s)
  | _ => some (.ok matched, s)

/-- The loop of `eval_switch`. -/
def switchCases (test : V) (label : Option Name) :
    List ASTNode → Bool → V → Interp V W → Option (V × Interp V W)
  | [], _, result, s => some (result, s)
  | case_node :: cases, matched, result, s => do
      let (matched, s) ← caseMatched host eval test case_node matched s
      match matched with
      | .error case_test => return (case_test, s)
      | .ok false => switchCases test label cases false result s
      | .ok true => do
          let (result, s) ← caseItems eval (caseBody case_node) result s
          if s.break_target then
            return (result, s.settle_break label)
          else if s.has_returned || s.error_flag then
            return (result, s)
          else
            switchCases test label cases true result s

def eval_switch (test : ASTNode) (cases : List ASTNode) (s : Interp V W) :
    Option (V × Interp V W) := do
  let label := s.pending_label
  let (test, s) ← eval test { s with pending_label := none }
  if s.error_flag then
    return (test, s)
  else
    switchCases host eval test label cases false host.undefined s

def is_breakable : ASTNode → Bool
  | .forStmt .. | .whileStmt .. | .doWhile .. | .forIn .. | .forOf .. | .switchStmt .. => true
  | _ => false

def identifierName : ASTNode → Option Name
  | .identifier name => some name
  | _ => none

def Interp.settle_label (lname : Option Name) (s : Interp V W) : Interp V W :=
  if s.break_target ∧ s.break_label ≠ [] ∧ lname.map labelBytes = some s.break_label then
    s.consume_break
  else
    s

/-- `AST_LABEL`. -/
def eval_label (label stmt : ASTNode) (s : Interp V W) : Option (V × Interp V W) := do
  let lname := identifierName label
  let saved_pending := s.pending_label
  if is_breakable stmt then
    let (result, s) ← eval stmt { s with pending_label := lname }
    return (result, { s with pending_label := saved_pending }.settle_label lname)
  else
    let (result, s) ← eval stmt s
    return (result, s.settle_label lname)

/-- What `eval_break` and `eval_continue` write into the label buffer. -/
def jumpLabel (label : ASTNode) : LabelText :=
  ((identifierName label).map labelBuffer).getD []

def eval_break (label : ASTNode) (s : Interp V W) : Option (V × Interp V W) :=
  some (host.undefined, { s with break_label := jumpLabel label, break_target := true })

def eval_continue (label : ASTNode) (s : Interp V W) : Option (V × Interp V W) :=
  some (host.undefined, { s with continue_label := jumpLabel label, continue_target := true })

/-- `has_returned` is set before the operand is evaluated. -/
def eval_return (arg : ASTNode) (s : Interp V W) : Option (V × Interp V W) := do
  let (value, s) ← eval arg { s with has_returned := true }
  return (host.undefined, { s with return_value := value })

def eval_throw (arg : ASTNode) (s : Interp V W) : Option (V × Interp V W) := do
  let (arg, s) ← eval arg s
  if s.error_flag then
    return (arg, s)
  else
    return (host.undefined, s.raise host (.thrown arg))

def caughtValue (s : Interp V W) : V × W :=
  if s.exception_pending then
    match s.exception_value with
    | none => host.error_object s.error_message s.world
    | some value => (value, s.world)
  else if s.error_message ≠ "" then
    host.error_object s.error_message s.world
  else
    (host.undefined, s.world)

def bindCaught (catch_var : Option Name) (s : Interp V W) : Interp V W :=
  match catch_var with
  | none => s
  | some name =>
    let (value, world) := caughtValue host s
    { s with world := host.declare_name name value world }

def isNull : ASTNode → Bool
  | .null => true
  | _ => false

def predeclare (catch_body : ASTNode) (catch_var : Option Name) (world : W) : W :=
  match catch_var with
  | some name => if isNull catch_body then world else host.declare_name name host.undefined world
  | none => world

/-- `eval_try` down to `finally_check`: the result, and whether an exception was caught. -/
def tryCatch (body catch_body : ASTNode) (catch_var : Option Name) (s : Interp V W) :
    Option (V × Bool × Interp V W) := do
  let (result, s) ← eval body { s with exception_pending := false, error_flag := false,
                                       world := predeclare host catch_body catch_var s.world }
  if s.error_flag && isNull catch_body then
    return (result, false, s)
  else if s.error_flag then
    let s := bindCaught host catch_var ({ s with error_flag := false }.push_scope host)
    let (catch_result, s) ← eval catch_body { s with exception_pending := false }
    return (catch_result, true, s.pop_scope host)
  else
    return (result, false, s)

/-- After the finally clause: `saved` is the state at the entry, `s` the one before the clause and
`s₁` the one after it. -/
def afterFinally (catch_body : ASTNode) (caught : Bool) (saved s : Interp V W)
    (result finally_result : V) (s₁ : Interp V W) : V × Interp V W :=
  if s₁.error_flag then
    let released := if s.has_returned then s.return_value :: s₁.released else s₁.released
    (finally_result, { s₁ with released := released })
  else if s₁.has_returned then
    (host.undefined, { s₁ with released := s.return_value :: s₁.released })
  else
    let s₁ := { s₁ with
      has_returned := s.has_returned
      return_value := if s.has_returned then s.return_value else s₁.return_value }
    if !caught && saved.exception_pending && isNull catch_body then
      (result, { s₁ with exception_pending := true, error_flag := true,
                         exception_value := saved.exception_value })
    else
      (result, s₁)

/-- `eval_try` from `finally_check` on: the flag of a return is set aside while the clause
runs. -/
def finallyCheck (finally_body catch_body : ASTNode) (caught : Bool) (saved : Interp V W)
    (result : V) (s : Interp V W) : Option (V × Interp V W) :=
  if isNull finally_body then
    some (result, s)
  else do
    let (finally_result, s₁) ← eval finally_body { s with has_returned := false }
    return afterFinally host catch_body caught saved s result finally_result s₁

def eval_try (body catch_body finally_body : ASTNode) (catch_var : Option Name)
    (s : Interp V W) : Option (V × Interp V W) := do
  let (result, caught, s₁) ← tryCatch host eval body catch_body catch_var s
  let (result, s₂) ← finallyCheck host eval finally_body catch_body caught s result s₁
  if caught then
    return (result, { s₂ with exception_pending := false, error_flag := false,
                              exception_value := some host.undefined })
  else
    return (result, s₂)

end Evaluators

section Dispatch

variable (host : Host V W)

def dispatch (eval : Eval V W) (turns : Nat) (node : ASTNode) (s : Interp V W) :
    Option (V × Interp V W) :=
  match node with
  | .null | .debugger => some (host.undefined, s)
  | .program items => eval_program eval items host.undefined s
  | .block items => eval_block host eval items s
  | .exprStmt expr => eval expr s
  | .ifStmt cond body elseBody => eval_if host eval cond body elseBody s
  | .forStmt init test update body => eval_for host eval turns init test update body s
  | .whileStmt cond body => eval_while host eval turns cond body s
  | .doWhile cond body => eval_do_while host eval turns cond body s
  | .forIn each source body => eval_for_in host eval turns each source body s
  | .forOf each source body => eval_for_of host eval turns each source body s
  | .switchStmt test cases => eval_switch host eval test cases s
  | .breakStmt label => eval_break host label s
  | .continueStmt label => eval_continue host label s
  | .returnStmt arg => eval_return host eval arg s
  | .throwStmt arg => eval_throw host eval arg s
  | .tryStmt body catchBody finallyBody catchVar =>
    eval_try host eval body catchBody finallyBody catchVar s
  | .labelStmt label stmt => eval_label eval label stmt s
  | .withStmt obj body => eval_with host eval obj body s
  | node => runProg host eval (host.expression node s.world) s

/-- `interp_eval_node`, down to a given depth: nothing is evaluated while an error is on its
way. -/
def interp_eval_node : Nat → Eval V W
  | 0, _, s => if s.error_flag then some (host.undefined, s) else none
  | depth + 1, node, s =>
    if s.error_flag then
      some (host.undefined, s)
    else
      dispatch host (interp_eval_node depth) depth node s

end Dispatch

end TreeWalker
end LRJS
