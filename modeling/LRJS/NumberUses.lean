import LRJS.OperatorTables
import LRJS.PropertySites

/-!
# Uses of numbers

The opcodes and conversions of the virtual machine that look at a number: the
binary operators with their fused forms, the unary operators, the conversions,
the jumps, the increments and the element accesses.
-/

namespace LRJS

/-- The result of a use: a value, the choice of a jump, the new value of a slot
with the value that is pushed, the reply of a property operation, or a key. -/
inductive Seen where
  | computed (c : Computed)
  | jumps (taken : Bool)
  | slot (pushed : Option LRValue) (stored : Computed)
  | replied (reply : Reply)
  | key (name : Name)
deriving DecidableEq, Repr

inductive JumpOp where
  | ifFalse | ifTrue | ifFalseKeep | ifTrueKeep | ifNotNullish
deriving DecidableEq, Repr

/-- The increments: `BC_INC_LOCAL`, `BC_INC_LOCAL_DISCARD`, and `BC_INC_VAR` where
its cache hits or misses. -/
inductive IncOp where
  | local | localDiscard | var (hit : Bool)
deriving DecidableEq, Repr

inductive NumberUse where
  | left (form : Form) (op : BinaryOp) (right : LRValue)
  | right (form : Form) (op : BinaryOp) (left : LRValue)
  | unary (op : UnOp)
  | toString
  | toNumber
  | toBool
  | toInt32
  | jump (op : JumpOp)
  | increment (op : IncOp)
  | receiver (name : Name)
  | elementKey
  | getElem (obj : LRValue)
  | setElem (obj val : LRValue) (at_ : Addr)
deriving DecidableEq, Repr

def bcv_typeof (E : Engine) (s : EngineState) (v : LRValue) : Option Name :=
  match v with
  | .undefined | .exception => some "undefined"
  | .null => some "object"
  | .bool _ => some "boolean"
  | .int32 _ | .float64 _ => some "number"
  | .string _ => some "string"
  | .symbol _ => some "symbol"
  | .object a =>
    if (s.bigints a).isSome then
      some "bigint"
    else
      (lr_is_function E.fuel s.heap v).map fun callable =>
        if callable then "function" else "object"

/-- `~x`. -/
def Int32.not (x : Int) : Int :=
  (~~~ BitVec.ofInt 32 x).toInt

/-- The opcodes `BC_NEG` to `BC_VOID`. -/
def unaryOpcode (E : Engine) (s : EngineState) (op : UnOp) (v : LRValue) :
    Option (Computed × EngineState) :=
  match op with
  | .neg => s.give (.bcv_number (lr_to_float64 v).neg)
  | .pos => s.give (.bcv_number (lr_to_float64 v))
  | .not => s.give (.bool (!lr_to_bool v))
  | .bitNot => s.give (.int32 (Int32.not (lr_to_int32 v)))
  | .typeof => (bcv_typeof E s v).bind fun name => s.give (.string name)
  | .void => s.give .undefined

/-- The integer path of `BC_JUMP_IF_FALSE` and `BC_JUMP_IF_TRUE`. -/
def jumpTruth (v : LRValue) : Bool :=
  match v with
  | .int32 n => if n = 0 ∨ n = 1 then n ≠ 0 else lr_to_bool v
  | _ => lr_to_bool v

def JumpOp.taken (op : JumpOp) (v : LRValue) : Bool :=
  match op with
  | .ifFalse => !jumpTruth v
  | .ifTrue => jumpTruth v
  | .ifFalseKeep => !lr_to_bool v
  | .ifTrueKeep => lr_to_bool v
  | .ifNotNullish => v.tag ≠ .undefined && v.tag ≠ .null

/-- The path without `int32_t`: `bcv_binop` with one. -/
def incSlow (E : Engine) (s : EngineState) (pushed : Option LRValue) (old : LRValue) :
    Option (Seen × EngineState) :=
  (bcv_binop E s .add old (.int32 1)).map fun (new, s) => (.slot pushed new, s)

def IncOp.exec (E : Engine) (s : EngineState) (op : IncOp) (old : LRValue) :
    Option (Seen × EngineState) :=
  let pushed := if op = .localDiscard then none else some old
  match op, old with
  | .var false, old => incSlow E s pushed old
  | _, .int32 n => some (.slot pushed (.value (.int32 (castInt32 (n + 1)))), s)
  | _, old => incSlow E s pushed old

/-- `lr_to_atom` of a number. -/
def numberKey (E : Engine) (s : EngineState) (key : LRValue) : Option (Name × EngineState) :=
  E.lr_to_cstring s key

def repliedValue (result : Option (LRValue × EngineState)) : Option (Seen × EngineState) :=
  result.map fun (v, s) => (.replied (.value v), s)

section Elements

variable (E : Engine) (s : EngineState) (caches : PropCaches)

def propVM : PropVM :=
  ⟨s.heap, caches, []⟩

def repliedVM (result : Option (PropVM × Reply)) : Option (Seen × EngineState) :=
  result.map fun (vm, reply) => (.replied reply, { s with heap := vm.heap })

/-- `BC_GET_ELEM` with a number as key. -/
def getElemNumber (obj key : LRValue) : Option (Seen × EngineState) :=
  let general : Option (Seen × EngineState) := do
    let (name, s) ← numberKey E s key
    match obj with
    | .object a => repliedVM s ((propVM s caches).getElem E.fuel a (s.heap.atom name))
    | _ => repliedValue (E.lr_get_property_str s obj name)
  match key with
  | .int32 n =>
    if 0 ≤ n then
      match obj with
      | .object a => repliedVM s ((propVM s caches).getIndex E.fuel a n.toNat)
      | _ => repliedValue (E.lr_get_property_str s obj (toString n.toNat))
    else
      general
  | _ => general

/-- `BC_SET_ELEM` with a number as key; a receiver that is no object is ignored. -/
def setElemNumber (obj key val : LRValue) (at_ : Addr) : Option (Seen × EngineState) :=
  match obj with
  | .object a =>
    let vm := propVM s caches
    let general : Option (Seen × EngineState) := do
      let (name, s) ← numberKey E s key
      repliedVM s (vm.engine (lr_set_property E.fuel s.heap a (s.heap.atom name) val at_))
    match key with
    | .int32 n =>
      if 0 ≤ n then repliedVM s (vm.setIndex E.fuel a n.toNat val at_) else general
    | _ => general
  | _ => some (.replied (.status (-1)), s)

end Elements

namespace NumberUse

def Emitted (use : NumberUse) (v : LRValue) : Prop :=
  match use with
  | .left form op b => form.Carries op b
  | .right form op _ => form.Carries op v
  | _ => True

def exec (E : Engine) (s : EngineState) (caches : PropCaches) (use : NumberUse) (v : LRValue) :
    Option (Seen × EngineState) :=
  let computed (result : Option (Computed × EngineState)) : Option (Seen × EngineState) :=
    result.map fun (c, s) => (.computed c, s)
  match use with
  | .left form op b => computed (form.exec E s op v b)
  | .right form op a => computed (form.exec E s op a v)
  | .unary op => computed (unaryOpcode E s op v)
  | .toString => (E.lr_to_cstring s v).map fun (text, s) => (.computed (.value (.string text)), s)
  | .toNumber => computed (s.give (.bcv_number (lr_to_float64 v)))
  | .toBool => computed (s.give (.bool (lr_to_bool v)))
  | .toInt32 => computed (s.give (.int32 (lr_to_int32 v)))
  | .jump op => some (.jumps (op.taken v), s)
  | .increment op => op.exec E s v
  | .receiver name => repliedValue (E.lr_get_property_str s v name)
  | .elementKey => (numberKey E s v).map fun (name, s) => (.key name, s)
  | .getElem obj => getElemNumber E s caches obj v
  | .setElem obj val at_ => setElemNumber E s caches obj v val at_

end NumberUse

end LRJS
