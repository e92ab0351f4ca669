import LRJS.OperatorAgreement

/-!
# Compound assignments

`op=`, `&&=`, `||=`, `??=`, `++` and `--`: in the tree-walker (`eval_assign` and `eval_unary`), as
compiled by `cassign` and `cincdec`, and as they should be.

Object, key and right-hand side are arbitrary expressions.  What is observed is their order, the
values that are stored, and the value or error at the end.
-/

namespace LRJS
namespace Assignments

/-- An observed step: an expression is evaluated, a property read, or a value stored in the
variable or the property. -/
inductive Event where
  | object
  | key
  | value
  | get
  | store (result : Computed)
  | set (result : Computed)

structure State (W : Type) where
  engine : EngineState
  rest : W
  log : List Event

/-- An `int32_t` is in its range. -/
def InRange : LRValue → Prop
  | .int32 n => Double.InInt32 n
  | _ => True

/-- What the engines call: evaluation of the object, the key and the right-hand side, and access to
the variable and the property; a member without a key has its name as key. -/
structure Host (W : Type) where
  E : Engine
  object : EngineState → W → LRValue × EngineState × W
  key : EngineState → W → LRValue × EngineState × W
  value : EngineState → W → LRValue × EngineState × W
  load : EngineState → W → LRValue × EngineState × W
  get : LRValue → Option LRValue → EngineState → W → LRValue × EngineState × W
  store : Computed → W → W
  set : LRValue → Option LRValue → Computed → EngineState → W → EngineState × W
  value_range : ∀ s w, InRange (value s w).1
  load_range : ∀ s w, InRange (load s w).1

inductive Target where
  | identifier
  | member
  | computed
deriving DecidableEq

namespace State

variable {W : Type}

/-- `error_flag`. -/
def raised (s : State W) : Bool :=
  s.engine.error.isSome

def act (events : List Event) (f : EngineState → W → LRValue × EngineState × W) (s : State W) :
    LRValue × State W :=
  let out := f s.engine s.rest
  (out.1, ⟨out.2.1, out.2.2, s.log ++ events⟩)

end State

variable {W : Type}

namespace Host

variable (host : Host W)

def evalObject (s : State W) : LRValue × State W :=
  s.act [.object] host.object

def evalKey (s : State W) : LRValue × State W :=
  s.act [.key] host.key

def evalValue (s : State W) : LRValue × State W :=
  s.act [.value] host.value

def loadVariable (s : State W) : LRValue × State W :=
  s.act [] host.load

def getProperty (obj : LRValue) (key : Option LRValue) (s : State W) : LRValue × State W :=
  s.act [.get] (host.get obj key)

def storeVariable (result : Computed) (s : State W) : State W :=
  ⟨s.engine, host.store result s.rest, s.log ++ [.store result]⟩

def setProperty (obj : LRValue) (key : Option LRValue) (result : Computed) (s : State W) :
    State W :=
  let out := host.set obj key result s.engine s.rest
  ⟨out.1, out.2, s.log ++ [.set result]⟩

/-- `interp_eval_node` on the target. -/
def evalTarget (target : Target) (s : State W) : LRValue × State W :=
  match target with
  | .identifier => host.loadVariable s
  | .member =>
    let (obj, s) := host.evalObject s
    if s.raised then (obj, s) else host.getProperty obj none s
  | .computed =>
    let (obj, s) := host.evalObject s
    if s.raised then
      (obj, s)
    else
      let (prop, s) := host.evalKey s
      if s.raised then (prop, s) else host.getProperty obj (some prop) s

def assignBack (target : Target) (result : Computed) (s : State W) : State W :=
  match target with
  | .identifier => host.storeVariable result s
  | .member =>
    let (obj, s) := host.evalObject s
    if s.raised then s else host.setProperty obj none result s
  | .computed =>
    let (obj, s) := host.evalObject s
    let (prop, s) := host.evalKey s
    if s.raised then s else host.setProperty obj (some prop) result s

end Host

/-- Whether `&&=`, `||=` or `??=` leaves the target as it is. -/
def shortCircuits (op : BinaryOp) (left : LRValue) : Bool :=
  match op with
  | .andAnd => !lr_to_bool left
  | .orOr => lr_to_bool left
  | .nullish => decide (left ≠ .null ∧ left ≠ .undefined)
  | _ => false

/-- The arithmetic of `eval_assign`; an operator without a branch keeps the left value. -/
def compound (E : Engine) (s : EngineState) (op : BinaryOp) (left right : LRValue) :
    Option (Computed × EngineState) :=
  let da := lr_to_float64 left
  let db := lr_to_float64 right
  match op with
  | .add =>
    if left.isString ∨ right.isString then do
      let (sl, s) ← E.lr_to_cstring s left
      let (sr, s) ← E.lr_to_cstring s right
      s.give (.string (sl ++ sr))
    else
      s.give (.demoted (da.add db))
  | .sub => s.give (.demoted (da.sub db))
  | .mul => s.give (.demoted (da.mul db))
  | .div => s.give (.float64 (da.div db))
  | .mod => s.give (.demoted (da.fmod db))
  | .pow => s.give (.float64 (E.pow da db))
  | _ => s.give left

section Engines

variable (host : Host W)

/-- `eval_assign` for an operator other than `=`. -/
def eval_assign (op : BinaryOp) (target : Target) (s : State W) : Option (Computed × State W) :=
  let (left, s) := host.evalTarget target s
  if s.raised then
    some (.value left, s)
  else if op = .andAnd ∨ op = .orOr ∨ op = .nullish then
    if shortCircuits op left then
      some (.value left, s)
    else
      let (right, s) := host.evalValue s
      if s.raised then
        some (.value right, s)
      else
        some (.value right, host.assignBack target (.value right) s)
  else
    let (right, s) := host.evalValue s
    if s.raised then
      some (.value right, s)
    else do
      let (result, engine) ← compound host.E s.engine op left right
      some (result, host.assignBack target result { s with engine := engine })

/-- `eval_unary` for `++` and `--`: only an identifier is assigned. -/
def eval_update (isInc isPrefix : Bool) (target : Target) (s : State W) :
    Option (Computed × State W) :=
  let (arg, s) := host.evalTarget target s
  if s.raised then
    some (.value arg, s)
  else
    let old_val := lr_to_float64 arg
    let one := Double.ofInt 1
    let new_val := if isInc then old_val.add one else old_val.sub one
    let s :=
      if target = .identifier then host.storeVariable (.value (.demoted new_val)) s else s
    some (.value (.demoted (if isPrefix then new_val else old_val)), s)

/-- The instructions for these operators.  The code of the object, the key and the right-hand side
is one step each; `self` is `BC_ADD_SELF` or `BC_MUL_SELF`, `inc` is `BC_INC_LOCAL` or `BC_INC_VAR`,
which wraps only where its cache hits. -/
inductive Step where
  | object
  | key
  | value
  | load
  | store
  | pop
  | dup
  | dup2
  | swap
  | pushOne
  | pos
  | getProp
  | getElem
  | setProp
  | setElem
  | binary (form : Form) (op : BinaryOp)
  | self (form : Form) (op : BinaryOp)
  | inc (wraps : Bool)
  | evalNode (run : State W → Option (Computed × State W))

/-- The stack after a step, or `none` at `vm_abort`. -/
abbrev Stack (W : Type) := Option (List Computed) × State W

def check (stack : List Computed) (s : State W) : Stack W :=
  if s.raised then (none, s) else (some stack, s)

/-- The value that `BC_INC_LOCAL` and `BC_INC_VAR` store. -/
def incremented (E : Engine) (s : EngineState) (wraps : Bool) (old : LRValue) :
    Option (Computed × EngineState) :=
  match wraps, old with
  | true, .int32 n => s.give (.int32 (castInt32 (n + 1)))
  | _, old => bcv_binop E s .add old (.int32 1)

def exec (step : Step (W := W)) (stack : List Computed) (s : State W) : Option (Stack W) :=
  match step, stack with
  | .object, stack =>
    let (v, s) := host.evalObject s
    some (check (.value v :: stack) s)
  | .key, stack =>
    let (v, s) := host.evalKey s
    some (check (.value v :: stack) s)
  | .value, stack =>
    let (v, s) := host.evalValue s
    some (check (.value v :: stack) s)
  | .load, stack =>
    let (v, s) := host.loadVariable s
    some (check (.value v :: stack) s)
  | .store, v :: stack => some (check stack (host.storeVariable v s))
  | .pop, _ :: stack => some (some stack, s)
  | .dup, v :: stack => some (some (v :: v :: stack), s)
  | .dup2, w :: v :: stack => some (some (w :: v :: w :: v :: stack), s)
  | .swap, w :: v :: stack => some (some (v :: w :: stack), s)
  | .pushOne, stack => some (some (.value (.int32 1) :: stack), s)
  | .pos, .value v :: stack =>
    some (some (.value (.bcv_number (lr_to_float64 v)) :: stack), s)
  | .getProp, .value obj :: stack =>
    let (v, s) := host.getProperty obj none s
    some (check (.value v :: stack) s)
  | .getElem, .value key :: .value obj :: stack =>
    let (v, s) := host.getProperty obj (some key) s
    some (check (.value v :: stack) s)
  | .setProp, v :: .value obj :: stack =>
    some (some (v :: stack), host.setProperty obj none v s)
  | .setElem, v :: .value key :: .value obj :: stack =>
    some (some (v :: stack), host.setProperty obj (some key) v s)
  | .binary form op, .value b :: .value a :: stack => do
      let (result, engine) ← form.exec host.E s.engine op a b
      some (check (result :: stack) { s with engine := engine })
  | .self form op, .value b :: stack => do
      let (result, engine) ← form.exec host.E s.engine op (host.loadVariable s).1 b
      let s := { s with engine := engine }
      if s.raised then
        some (none, s)
      else
        some (some (result :: stack), host.storeVariable result s)
  | .inc wraps, stack => do
      let (old, s) := host.loadVariable s
      if s.raised then
        some (none, s)
      else
        let (result, engine) ← incremented host.E s.engine wraps old
        some (some (.value old :: stack),
          host.storeVariable result { s with engine := engine })
  | .evalNode run, stack => do
      let (v, s) ← run s
      some (check (v :: stack) s)
  | _, _ => none

/-- The steps one after the other, up to the end or `vm_abort`. -/
def runSteps : List (Step (W := W)) → List Computed → State W → Option (Stack W)
  | [], stack, s => some (some stack, s)
  | step :: steps, stack, s => do
      match ← exec host step stack s with
      | (none, s) => some (none, s)
      | (some stack, s) => runSteps steps stack s

def settle : Stack W → Computed × State W
  | (some (v :: _), s) => (v, s)
  | (_, s) => (.value .undefined, s)

/-- How compiler and caches see the expression: the identifier has a slot, and is read without
effects; the right-hand side ends with a fused property read; the cache of `BC_INC_VAR` hits. -/
structure Site (host : Host W) where
  slot : Bool
  fused : Option Bool
  hit : Bool
  slot_pure : slot = true → ∀ s w, (host.load s w).2 = (s, w)

variable {host}

def Site.form (site : Site host) (op : BinaryOp) : Form :=
  match op, site.fused with
  | .add, some hit => .loadPropAdd hit
  | _, _ => .opcode

variable (host)

/-- `cassign` for an operator other than `=`. -/
def cassign (site : Site host) (op : BinaryOp) (target : Target) : List (Step (W := W)) :=
  match binop_of op, target with
  | none, _ => [.evalNode (eval_assign host op target)]
  | some _, .identifier =>
    match site.slot, op with
    | true, .add => [.value, .self .addSelf .add]
    | true, .mul => [.value, .self .mulSelf .mul]
    | _, _ => [.load, .value, .binary (site.form op) op, .dup, .store]
  | some _, .member => [.object, .dup, .getProp, .value, .binary (site.form op) op, .setProp]
  | some _, .computed =>
    [.object, .key, .dup2, .getElem, .value, .binary (site.form op) op, .setElem]

def cincdec (site : Site host) (isInc isPrefix : Bool) (target : Target) : List (Step (W := W)) :=
  let aop : Step := .binary .opcode (if isInc then .add else .sub)
  match target, isInc, isPrefix with
  | .identifier, true, true => [.inc (site.slot || site.hit), .pop, .load]
  | .identifier, true, false => [.inc (site.slot || site.hit)]
  | .identifier, false, true => [.load, .pos, .pushOne, aop, .dup, .store]
  | .identifier, false, false => [.load, .pos, .dup, .pushOne, aop, .store]
  | .member, _, true => [.object, .dup, .getProp, .pos, .pushOne, aop, .setProp]
  | .member, _, false =>
    [.object, .dup, .getProp, .pos, .dup2, .pushOne, aop, .setProp, .pop, .swap, .pop]
  | .computed, _, true => [.object, .key, .dup2, .getElem, .pos, .pushOne, aop, .setElem]
  | .computed, _, false =>
    [.object, .key, .dup2, .getElem, .pos, .evalNode (eval_update host isInc isPrefix target)]

def runCode (code : List (Step (W := W))) (s : State W) : Option (Computed × State W) :=
  (runSteps host code [] s).map settle

inductive Place where
  | binding
  | property (obj : LRValue) (key : Option LRValue)

def locate (target : Target) (s : State W) : Option Place × State W :=
  match target with
  | .identifier => (some .binding, s)
  | .member =>
    let (obj, s) := host.evalObject s
    if s.raised then (none, s) else (some (.property obj none), s)
  | .computed =>
    let (obj, s) := host.evalObject s
    if s.raised then
      (none, s)
    else
      let (key, s) := host.evalKey s
      if s.raised then (none, s) else (some (.property obj (some key)), s)

def readPlace (place : Place) (s : State W) : LRValue × State W :=
  match place with
  | .binding => host.loadVariable s
  | .property obj key => host.getProperty obj key s

def writePlace (place : Place) (result : Computed) (s : State W) : State W :=
  match place with
  | .binding => host.storeVariable result s
  | .property obj key => host.setProperty obj key result s

def readThen (place : Place) (rest : Place → LRValue → State W → Option (Computed × State W))
    (s : State W) : Option (Computed × State W) :=
  let (left, s) := readPlace host place s
  if s.raised then some (.value .undefined, s) else rest place left s

def withTarget (target : Target) (rest : Place → LRValue → State W → Option (Computed × State W))
    (s : State W) : Option (Computed × State W) :=
  match locate host target s with
  | (none, s) => some (.value .undefined, s)
  | (some place, s) => readThen host place rest s

def finish (place : Place) (value : Computed → Computed) (s : State W)
    (outcome : Computed × EngineState) : Computed × State W :=
  let s := { s with engine := outcome.2 }
  if s.raised then
    (.value .undefined, s)
  else
    (value outcome.1, writePlace host place outcome.1 s)

def assignOnce (form : Form) (op : BinaryOp) (target : Target) (s : State W) :
    Option (Computed × State W) :=
  withTarget host target (fun place left s =>
    if shortCircuits op left then
      some (.value left, s)
    else
      let (right, s) := host.evalValue s
      if s.raised then
        some (.value .undefined, s)
      else if op = .andAnd ∨ op = .orOr ∨ op = .nullish then
        some (.value right, writePlace host place (.value right) s)
      else
        (form.exec host.E s.engine op left right).map (finish host place id s)) s

/-- `++` and `--`. -/
def updateOnce (isInc isPrefix : Bool) (target : Target) (s : State W) :
    Option (Computed × State W) :=
  withTarget host target (fun place left s =>
    let old : LRValue := .bcv_number (lr_to_float64 left)
    let op : BinaryOp := if isInc then .add else .sub
    (Form.opcode.exec host.E s.engine op old (.int32 1)).map
      (finish host place (fun new => if isPrefix then new else .value old) s)) s

inductive Expression where
  | assign (op : BinaryOp)
  | update (isInc isPrefix : Bool)

def evaluate (expression : Expression) (target : Target) (s : State W) :
    Option (Computed × State W) :=
  match expression with
  | .assign op => eval_assign host op target s
  | .update isInc isPrefix => eval_update host isInc isPrefix target s

def evaluateOnce (expression : Expression) (target : Target) (s : State W) :
    Option (Computed × State W) :=
  match expression with
  | .assign op => assignOnce host .opcode op target s
  | .update isInc isPrefix => updateOnce host isInc isPrefix target s

def compile (site : Site host) (expression : Expression) (target : Target) :
    List (Step (W := W)) :=
  match expression with
  | .assign op => cassign host site op target
  | .update isInc isPrefix => cincdec host site isInc isPrefix target

end Engines

def Event.Same : Event → Event → Prop
  | .object, .object | .key, .key | .value, .value | .get, .get => True
  | .store c, .store d | .set c, .set d => c.Same d
  | _, _ => False

def SameRun (E : Engine) (x y : Computed × State W) : Prop :=
  List.Forall₂ Event.Same x.2.log y.2.log ∧
    E.SameOutcome (x.1, x.2.engine) (y.1, y.2.engine)

def Agree (E : Engine) (x y : Option (Computed × State W)) : Prop :=
  Option.Rel (SameRun E) x y

def Faithful {host : Host W} (site : Site host) (expression : Expression) (target : Target)
    (s : State W) : Prop :=
  Agree host.E (evaluate host expression target s) (evaluateOnce host expression target s) ∧
    Agree host.E (evaluate host expression target s)
      (runCode host (compile host site expression target) s)

end Assignments
end LRJS
