import LRJS.Objects

/-!
# Property operations

The property operations of `lr_engine.c` on objects.  An operation that calls a function (an
accessor, a proxy trap) replies with the call, and `ResultUse` says what it makes of the value.

The loops over prototype chains take `fuel`; a reply `none` means that it did not suffice, or that a
pointer dangles.
-/

namespace LRJS

def castInt32 (n : Int) : Int :=
  (BitVec.ofInt 32 n).toInt

namespace Double

def truncate? (d : Double) : Option Int :=
  if d.exponent = 2047 then
    none
  else
    let power := max d.exponent 1
    let magnitude := d.significand * 2 ^ (power - 1075) / 2 ^ (1075 - power)
    some (if d.negative then -(magnitude : Int) else magnitude)

/-- `(int32_t)d`; what does not fit becomes `INT32_MIN`, as on x86-64. -/
def toInt32 (d : Double) : Int :=
  match d.truncate? with
  | some n => if -2 ^ 31 ≤ n ∧ n < 2 ^ 31 then n else -2 ^ 31
  | none => -2 ^ 31

end Double

/-- `isspace` in the C locale. -/
def isspace (c : Char) : Bool :=
  c ∈ [' ', '\t', '\n', '\x0b', '\x0c', '\r']

def digit? (base : Nat) (c : Char) : Option Nat :=
  let value :=
    if c.isDigit then some (c.toNat - '0'.toNat)
    else if 'a' ≤ c ∧ c ≤ 'f' then some (c.toNat - 'a'.toNat + 10)
    else if 'A' ≤ c ∧ c ≤ 'F' then some (c.toNat - 'A'.toNat + 10)
    else none
  value.filter fun digit => digit < base

def leadingDigits (base : Nat) (acc : Nat) : List Char → Nat
  | [] => acc
  | c :: rest =>
    match digit? base c with
    | some digit => leadingDigits base (acc * base + digit) rest
    | none => acc

/-- `strtol(str, NULL, 0)`. -/
def strtol (str : String) : Int :=
  let chars := str.toList.dropWhile isspace
  let (negative, digits) :=
    match chars with
    | '-' :: rest => (true, rest)
    | '+' :: rest => (false, rest)
    | _ => (false, chars)
  let magnitude :=
    match digits with
    | '0' :: x :: d :: rest =>
      if (x = 'x' ∨ x = 'X') ∧ (digit? 16 d).isSome then leadingDigits 16 0 (d :: rest)
      else leadingDigits 8 0 digits
    | '0' :: _ => leadingDigits 8 0 digits
    | _ => leadingDigits 10 0 digits
  if negative then max (-2 ^ 63) (-magnitude) else min (2 ^ 63 - 1) magnitude

/-- `lr_to_int32`; the error status of the other tags is ignored by its callers. -/
def lr_to_int32 : LRValue → Int
  | .bool b => if b then 1 else 0
  | .int32 n => n
  | .float64 d => d.toInt32
  | .string s => castInt32 (strtol s)
  | _ => 0

/-- `lr_is_numeric_index`; the accumulator is a `uint32_t`. -/
def lr_is_numeric_index (atom : LRString) : Option Nat :=
  let chars := atom.str.toList
  if chars.length = 0 ∨ 10 < chars.length then
    none
  else if 1 < chars.length ∧ chars.head? = some '0' then
    none
  else
    (chars.mapM (digit? 10)).map fun digits =>
      digits.foldl (fun val digit => (val * 10 + digit) % 2 ^ 32) 0

inductive ResultUse where
  | result
  | ignored
  | success
  | truth
  | names
  | trap (name : Name)
  | prototype
  | construct (new : Addr)
deriving DecidableEq, Repr

inductive Reply where
  | value (v : LRValue)
  | status (code : Int)
  | truth (b : Bool)
  | names (tab : List LRString)
  | call (func this : LRValue) (args : List LRValue) (use : ResultUse)
deriving DecidableEq, Repr

def lr_atom_to_value (atom : LRString) : LRValue :=
  .string atom.str

def lr_property_get (receiver : LRValue) (prop : LRProperty) : Reply :=
  if prop.flags.getter then
    if prop.value.isObject then .call prop.value receiver [] .result else .value .undefined
  else
    .value prop.value

/-- `lr_property_try_set_accessor`; `none` for a data property. -/
def lr_property_try_set_accessor (receiver : LRValue) (prop : LRProperty) (val : LRValue) :
    Option Reply :=
  if prop.flags.accessor then
    if prop.flags.setter ∧ prop.setter.isObject then
      some (.call prop.setter receiver [val] .ignored)
    else
      some (.status 0)
  else
    none

/-- The walk of `lr_get_property_direct` over the prototypes. -/
def protoGetDirect (h : Heap) (receiver : LRValue) (atom : LRString) :
    Nat → LRValue → Option Reply
  | 0, .object _ => none
  | fuel + 1, .object p => do
      let po ← h.objs p
      match po.find_own_prop atom with
      | some found => some (lr_property_get receiver found)
      | none => protoGetDirect h receiver atom fuel po.proto
  | _, _ => some (.value .undefined)

def lr_get_property_direct (fuel : Nat) (h : Heap) (obj : LRValue) (atom : LRString) :
    Option Reply :=
  match obj with
  | .object a => do
      let o ← h.objs a
      match o.find_own_prop atom with
      | some found => some (lr_property_get obj found)
      | none => protoGetDirect h obj atom fuel o.proto
  | _ => some (.value .undefined)

def lr_is_function : Nat → Heap → LRValue → Option Bool
  | fuel, h, .object a => do
      let o ← h.objs a
      match o.type, fuel with
      | .cfunction, _ | .function, _ | .bytecodeFunc, _ => some true
      | .proxy (some ⟨.object _, _⟩), 0 => none
      | .proxy (some ⟨.object target, _⟩), fuel + 1 => lr_is_function fuel h (.object target)
      | _, _ => some false
  | _, _, _ => some false

def withTrap (fuel : Nat) (h : Heap) (handler : LRValue) (name : Name)
    (onTrap : LRValue → Option (Heap × Reply)) (forward : Option (Heap × Reply)) :
    Option (Heap × Reply) := do
  match ← lr_get_property_direct fuel h handler (h.atom name) with
  | .value trap => if ← lr_is_function fuel h trap then onTrap trap else forward
  | .call getter this args _ => some (h, .call getter this args (.trap name))
  | _ => none

def trapOr (fuel : Nat) (h : Heap) (handler : LRValue) (name : Name) (onTrap : LRValue → Reply)
    (forward : Option (Heap × Reply)) : Option (Heap × Reply) :=
  withTrap fuel h handler name (fun trap => some (h, onTrap trap)) forward

/-- `lr_get_property` on a proxy. -/
def proxyGet (fuel : Nat) (h : Heap) (obj : LRValue) (data : Option LRProxyData)
    (atom : LRString) : Option (Heap × Reply) :=
  match data with
  | none => some (h, .value .undefined)
  | some pd =>
    trapOr fuel h pd.handler "get"
      (fun trap => .call trap pd.handler [pd.target, lr_atom_to_value atom, obj] .result)
      ((lr_get_property_direct fuel h pd.target atom).map fun reply => (h, reply))

/-- The walk of `lr_get_property` over the prototypes. -/
def protoGet (h : Heap) (receiver : LRValue) (atom : LRString) :
    Nat → LRValue → Option (Heap × Reply)
  | 0, .object _ => none
  | fuel + 1, .object p => do
      let po ← h.objs p
      match po.type with
      | .proxy data => proxyGet fuel h (.object p) data atom
      | _ =>
        match po.find_own_prop atom with
        | some found => some (h, lr_property_get receiver found)
        | none => protoGet h receiver atom fuel po.proto
  | _, _ => some (h, .value .undefined)

def slowGet (fuel : Nat) (h : Heap) (a : Addr) (o : LRObject) (atom : LRString) :
    Option (Heap × Reply) :=
  match h.shape_cache_lookup a atom with
  | some cached => some (h, .value cached)
  | none =>
    match o.find_own_prop atom with
    | some found => some (h.shape_cache_update a atom found, lr_property_get (.object a) found)
    | none => protoGet h (.object a) atom fuel o.proto

/-- The shape fast path of `lr_get_property`: it skips undefined slots. -/
def fastGet (o : LRObject) (atom : LRString) : Option LRValue :=
  ((o.fastSlot atom).map o.slotValue).filter fun v => v ≠ .undefined

/-- The dense array paths of `lr_get_property`. -/
def denseGet (data : Option LRArrayData) (atom : LRString) : Option LRValue := do
  let ad ← data
  match (lr_is_numeric_index atom).filter fun idx =>
      idx < ad.length ∧ ad.elements idx ≠ .undefined with
  | some idx => some (ad.elements idx)
  | none =>
    if atom.str = "length" then
      some (.int32 (castInt32 ad.length))
    else
      none

/-- `lr_get_property` on an object. -/
def lr_get_property (fuel : Nat) (h : Heap) (a : Addr) (atom : LRString) :
    Option (Heap × Reply) := do
  let o ← h.objs a
  match fastGet o atom with
  | some v => some (h, .value v)
  | none =>
    match o.type with
    | .proxy data => proxyGet fuel h (.object a) data atom
    | .typedArray (some tad) =>
      match lr_is_numeric_index atom with
      | some idx =>
        some (h, .value (if idx < tad.length then tad.elements idx else .undefined))
      | none => slowGet fuel h a o atom
    | .array data =>
      match denseGet data atom with
      | some v => some (h, .value v)
      | none => slowGet fuel h a o atom
    | _ => slowGet fuel h a o atom

/-- `lr_get_property_uint32`, with the atom of the printed index. -/
def lr_get_property_uint32 (fuel : Nat) (h : Heap) (a : Addr) (idx : Nat) :
    Option (Heap × Reply) := do
  let o ← h.objs a
  match o.type with
  | .array (some ad) =>
    if idx < ad.length ∧ ad.elements idx ≠ .undefined then
      some (h, .value (ad.elements idx))
    else
      lr_get_property fuel h a (h.atom (toString idx))
  | _ => lr_get_property fuel h a (h.atom (toString idx))

end LRJS
