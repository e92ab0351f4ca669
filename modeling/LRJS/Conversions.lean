import LRJS.NumberText
import LRJS.PropertyWrites

/-!
# Conversions of values

The conversions of `lr_engine.c` that both engines apply to the operands of an
operator.  No conversion calls `valueOf` or `toString`, but the text of an array
reads its elements, and reading a property may run a function.
-/

namespace LRJS

/-- What `error_flag` announces: a thrown value, or the text of `error_message`. -/
inductive Raised where
  | exception (v : LRValue)
  | message (text : String)
deriving DecidableEq, Repr

/-- The state that an operator works on.  `bigints` gives the payload of a BigInt,
`natives` the name of a C function. -/
structure EngineState where
  heap : Heap
  bigints : Addr → Option Int
  natives : Addr → Name
  error : Option Raised

/-- The parts of the engine below the operators.  `run` carries out the call of a
reply, and the rest of the operation that replied. -/
structure Engine where
  fuel : Nat
  global_obj : LRValue
  run : Reply → EngineState → Option (LRValue × EngineState)
  pow : Double → Double → Double
  errorName : Raised → Name

def cstring (str : Name) : Name :=
  String.ofList (str.toList.takeWhile (· ≠ '\x00'))

namespace EngineState

variable (s : EngineState)

def fail (text : String) : EngineState :=
  { s with error := some (.message text) }

end EngineState

namespace Engine

variable (E : Engine)

def answer (s : EngineState) (result : Heap × Reply) : Option (LRValue × EngineState) :=
  let s := { s with heap := result.1 }
  match result.2 with
  | .value v => some (v, s)
  | .truth b => some (.bool b, s)
  | .status code => some (.int32 code, s)
  | .names _ => some (.undefined, s)
  | .call func this args use => E.run (.call func this args use) s

/-- `lr_get_property_direct` with the function that it may call. -/
def getDirect (s : EngineState) (obj : LRValue) (name : Name) :
    Option (LRValue × EngineState) := do
  let reply ← lr_get_property_direct E.fuel s.heap obj (s.heap.atom name)
  E.answer s (s.heap, reply)

def lr_primitive_proto_get (s : EngineState) (ctor_name name : Name) :
    Option (LRValue × EngineState) := do
  let (ctor, s) ← E.getDirect s E.global_obj ctor_name
  if ctor.isObject then
    let (proto, s) ← E.getDirect s ctor "prototype"
    if proto.isObject then E.getDirect s proto name else some (.undefined, s)
  else
    some (.undefined, s)

/-- `lr_get_property` on a string. -/
def stringGet (s : EngineState) (str : Name) (name : Name) : Option (LRValue × EngineState) :=
  if name = "length" then
    some (.int32 (castInt32 str.length), s)
  else
    match lr_is_numeric_index (s.heap.atom name) with
    | some idx =>
      match str.toList[idx]? with
      | some c => some (.string (cstring (String.singleton c)), s)
      | none => some (.undefined, s)
    | none => E.lr_primitive_proto_get s "String" name

def lr_get_property_str (s : EngineState) (obj : LRValue) (name : Name) :
    Option (LRValue × EngineState) :=
  match obj with
  | .object a => do
      let result ← lr_get_property E.fuel s.heap a (s.heap.atom name)
      E.answer s result
  | .string str => E.stringGet s str name
  | .int32 _ | .float64 _ => E.lr_primitive_proto_get s "Number" name
  | .bool _ => E.lr_primitive_proto_get s "Boolean" name
  | _ => some (.undefined, s)

end Engine

def lr_to_float64 : LRValue → Double
  | .null => .ofInt 0
  | .bool b => .ofInt (if b then 1 else 0)
  | .int32 n => .ofInt n
  | .float64 d => d
  | .string s => stringToDouble s
  | _ => .nan

def lr_to_bool : LRValue → Bool
  | .undefined => false
  | .null => false
  | .bool b => b
  | .int32 n => n ≠ 0
  | .float64 d => !d.ceq (.ofInt 0) && !d.isNaN
  | .string s => s ≠ ""
  | .object _ => true
  | .symbol _ => true
  | .exception => false

/-- `lr_is_string`. -/
def LRValue.isString : LRValue → Bool
  | .string _ => true
  | _ => false

/-- The payload of a BigInt; `lr_is_bigint` tests for it. -/
def LRValue.bigint? (s : EngineState) : LRValue → Option Int
  | .object a => s.bigints a
  | _ => none

/-- What `snprintf` leaves in a buffer. -/
def snprintf (size : Nat) (text : String) : Name :=
  String.ofList (text.toList.take (size - 1))

/-- The text of a `double`. -/
def floatText (d : Double) : Name :=
  if d.isNaN then
    "NaN"
  else if d.isInf then
    if d.negative then "-Infinity" else "Infinity"
  else
    d.format17

namespace Engine

variable (E : Engine)

/-- The element texts of `lr_to_cstring` on an array, from an index on. -/
def joinElements (text : EngineState → LRValue → Option (Name × EngineState)) (a : Addr) :
    Nat → Nat → Name → EngineState → Option (Name × EngineState)
  | 0, _, joined, s => some (joined, s)
  | remaining + 1, i, joined, s => do
      let result ← lr_get_property_uint32 E.fuel s.heap a i
      let (elem, s) ← E.answer s result
      let (elem_str, s) ← text s elem
      let comma := if 0 < i then "," else ""
      joinElements text a remaining (i + 1) (joined ++ comma ++ elem_str) s

/-- `lr_to_cstring`, with fuel for nested arrays. -/
def toCString : Nat → EngineState → LRValue → Option (Name × EngineState)
  | _, s, .undefined => some ("undefined", s)
  | _, s, .null => some ("null", s)
  | _, s, .bool b => some (if b then "true" else "false", s)
  | _, s, .int32 n => some (toString n, s)
  | _, s, .float64 d => some (floatText d, s)
  | _, s, .string str => some (cstring str, s)
  | _, s, .symbol description => some (snprintf 256 ("Symbol(" ++ description ++ ")"), s)
  | _, s, .exception => some ("exception", s)
  | 0, _, .object _ => none
  | fuel + 1, s, .object a =>
    match s.bigints a with
    | some n => some (toString n ++ "n", s)
    | none => do
        let o ← s.heap.objs a
        match o.type with
        | .cfunction =>
          some (snprintf 128 ("function " ++ s.natives a ++ "() \x7b [native code] \x7d"), s)
        | .array _ =>
          let (length, s) ← E.lr_get_property_str s (.object a) "length"
          let count := match length with
            | .int32 n => n.toNat
            | _ => 0
          E.joinElements (toCString fuel) a count 0 "" s
        | _ => some ("[object Object]", s)

def lr_to_cstring (s : EngineState) (v : LRValue) : Option (Name × EngineState) :=
  E.toCString E.fuel s v

end Engine

end LRJS
