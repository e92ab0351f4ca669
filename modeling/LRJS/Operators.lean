import LRJS.Bytecode
import LRJS.Conversions

/-!
# Binary operators

The operators on evaluated operands: `eval_binary` of the tree-walker (`lr_interp.c`), and the
opcodes of the machine, each an inline path of `bc_execute` in front of `bcv_binop`
(`lr_bytecode_value.c`), with fused forms.

A new BigInt is given by its payload.  A shift of an `int32_t` uses the low five bits of the
distance, signed overflow wraps, and the smallest `int64_t` divided by -1 ends the process.
-/

namespace LRJS

namespace Int32

/-- `x & y`. -/
def and (x y : Int) : Int :=
  (BitVec.ofInt 32 x &&& BitVec.ofInt 32 y).toInt

/-- `x | y`. -/
def or (x y : Int) : Int :=
  (BitVec.ofInt 32 x ||| BitVec.ofInt 32 y).toInt

/-- `x ^ y`. -/
def xor (x y : Int) : Int :=
  (BitVec.ofInt 32 x ^^^ BitVec.ofInt 32 y).toInt

def distance (y : Int) : Nat :=
  (BitVec.ofInt 32 y).toNat % 32

/-- `x << (y & 31)`. -/
def shl (x y : Int) : Int :=
  (BitVec.ofInt 32 x <<< distance y).toInt

/-- `x >> (y & 31)`. -/
def sar (x y : Int) : Int :=
  ((BitVec.ofInt 32 x).sshiftRight (distance y)).toInt

/-- `(uint32_t)x >> (y & 31)`, stored in an `int32_t`. -/
def shr (x y : Int) : Int :=
  (BitVec.ofInt 32 x >>> distance y).toInt

end Int32

def castInt64 (n : Int) : Int :=
  (BitVec.ofInt 64 n).toInt

inductive Computed where
  | value (v : LRValue)
  | bigint (n : Int)
deriving DecidableEq, Repr

namespace EngineState

variable (s : EngineState)

def give (v : LRValue) : Option (Computed × EngineState) :=
  some (.value v, s)

def giveBigint (n : Int) : Option (Computed × EngineState) :=
  some (.bigint (castInt64 n), s)

def raise (text : String) : Option (Computed × EngineState) :=
  some (.value .undefined, s.fail text)

end EngineState

namespace LRValue

/-- A double, as an `int32_t` where it is equal to one. -/
def demoted (d : Double) : LRValue :=
  match d.int32? with
  | some n => .int32 n
  | none => .float64 d

/-- `bcv_number`: negative zero stays a double. -/
def bcv_number (d : Double) : LRValue :=
  if d = .negZero then .float64 d else demoted d

/-- An integer, as an `int32_t` where it fits. -/
def ofInt64 (n : Int) : LRValue :=
  if Double.InInt32 n then .int32 n else .float64 (.ofInt n)

end LRValue

inductive LRTag where
  | undefined | null | bool | int32 | float64 | string | object | symbol | exception
deriving DecidableEq, Repr

namespace LRValue

/-- `val.tag`. -/
def tag : LRValue → LRTag
  | .undefined => .undefined
  | .null => .null
  | .bool _ => .bool
  | .int32 _ => .int32
  | .float64 _ => .float64
  | .string _ => .string
  | .object _ => .object
  | .symbol _ => .symbol
  | .exception => .exception

def weight : LRValue → Nat
  | .bool _ | .object _ => 1
  | _ => 0

end LRValue

def strict_eq : LRValue → LRValue → Bool
  | .undefined, .undefined => true
  | .null, .null => true
  | .bool a, .bool b => a = b
  | .int32 a, .int32 b => a = b
  | .float64 a, .float64 b => a.ceq b
  | .string a, .string b => a = b
  | .object a, .object b => a = b
  | .symbol a, .symbol b => a = b
  | _, _ => false

def bcv_strict_eq : LRValue → LRValue → Bool :=
  strict_eq

/-- `to_number` on both sides, and `==`. -/
def numberEq (a b : LRValue) : Bool :=
  (lr_to_float64 a).ceq (lr_to_float64 b)

def bcv_is_number (v : LRValue) : Bool :=
  v.tag = .int32 || v.tag = .float64

namespace Engine

variable (E : Engine)

def abstract_eq (s : EngineState) (a b : LRValue) : Option (Bool × EngineState) :=
  if a.tag = b.tag then
    some (strict_eq a b, s)
  else
    match a, b with
    | .undefined, .null | .null, .undefined => some (true, s)
    | .string _, .int32 _ | .string _, .float64 _ | .int32 _, .string _ | .float64 _, .string _ =>
      some (numberEq a b, s)
    | .bool x, b => abstract_eq s (.int32 (if x then 1 else 0)) b
    | a, .bool y => abstract_eq s a (.int32 (if y then 1 else 0))
    | .object p, b =>
      if b.tag = .string ∨ b.tag = .int32 ∨ b.tag = .float64 then do
        let (str, s) ← E.lr_to_cstring s (.object p)
        abstract_eq s (.string str) b
      else
        some (false, s)
    | a, .object p =>
      if a.tag = .string ∨ a.tag = .int32 ∨ a.tag = .float64 then do
        let (str, s) ← E.lr_to_cstring s (.object p)
        abstract_eq s a (.string str)
      else
        some (false, s)
    | _, _ => some (false, s)
termination_by a.weight + b.weight
decreasing_by all_goals simp [LRValue.weight]

def bcv_abstract_eq (s : EngineState) (a b : LRValue) : Option (Bool × EngineState) :=
  if a.tag = b.tag then
    some (bcv_strict_eq a b, s)
  else if (a.tag = .undefined ∧ b.tag = .null) ∨ (a.tag = .null ∧ b.tag = .undefined) then
    some (true, s)
  else if (bcv_is_number a ∧ b.tag = .string) ∨ (a.tag = .string ∧ bcv_is_number b) ∨
      a.tag = .bool ∨ b.tag = .bool then
    if a.tag = .undefined ∨ a.tag = .null ∨ b.tag = .undefined ∨ b.tag = .null then
      some (false, s)
    else
      match a, b with
      | .object p, b => do
          let (str, s) ← E.lr_to_cstring s (.object p)
          bcv_abstract_eq s (.string str) b
      | a, .object p => do
          let (str, s) ← E.lr_to_cstring s (.object p)
          bcv_abstract_eq s a (.string str)
      | a, b => some (numberEq a b, s)
  else
    match a, b with
    | .object p, b =>
      if b.tag = .string ∨ bcv_is_number b then do
        let (str, s) ← E.lr_to_cstring s (.object p)
        bcv_abstract_eq s (.string str) b
      else
        some (false, s)
    | a, .object p =>
      if a.tag = .string ∨ bcv_is_number a then do
        let (str, s) ← E.lr_to_cstring s (.object p)
        bcv_abstract_eq s a (.string str)
      else
        some (false, s)
    | _, _ => some (false, s)
termination_by a.weight + b.weight
decreasing_by all_goals simp [LRValue.weight]

/-- The `in` of both engines. -/
def hasIn (s : EngineState) (a b : LRValue) : Option (Computed × EngineState) :=
  match b with
  | .object p => do
      let (prop, s) ← E.lr_to_cstring s a
      let result ← lr_has_property E.fuel s.heap p (s.heap.atom prop)
      let (found, s) ← E.answer s result
      s.give found
  | _ => s.raise "right-hand side of 'in' must be an object"

def chainHas (h : Heap) (proto : LRValue) : Nat → LRValue → Option Bool
  | 0, .object _ => none
  | fuel + 1, .object p =>
    if strict_eq (.object p) proto then
      some true
    else do
      let o ← h.objs p
      chainHas h proto fuel o.proto
  | _, _ => some false

/-- The `instanceof` of `eval_binary`, and `bcv_instanceof`. -/
def instanceOf (s : EngineState) (a b : LRValue) : Option (Computed × EngineState) :=
  match a with
  | .object p => do
      let (proto, s) ← E.lr_get_property_str s b "prototype"
      if proto.isObject then
        let o ← s.heap.objs p
        let found ← chainHas s.heap proto E.fuel o.proto
        s.give (.bool found)
      else
        s.give (.bool false)
  | _ => s.give (.bool false)

end Engine

def numberOrder (op : BinOp) (x y : Double) : Bool :=
  match op with
  | .lt => x.lt y
  | .gt => y.lt x
  | .le => x.le y
  | .ge => y.le x
  | _ => false

def intOrder (op : BinOp) (x y : Int) : Bool :=
  match op with
  | .lt => x < y
  | .gt => x > y
  | .le => x ≤ y
  | .ge => x ≥ y
  | _ => false

/-- `memcmp`, then the lengths; UTF-8 is ordered like its characters. -/
def memcmp : List Char → List Char → Ordering
  | [], [] => .eq
  | [], _ :: _ => .lt
  | _ :: _, [] => .gt
  | a :: as, b :: bs => if a < b then .lt else if b < a then .gt else memcmp as bs

def textOrder (op : BinOp) (x y : Name) : Bool :=
  let cmp := memcmp x.toList y.toList
  match op with
  | .lt => cmp = .lt
  | .gt => cmp = .gt
  | .le => cmp ≠ .gt
  | .ge => cmp ≠ .lt
  | _ => false

def bcv_relational (op : BinOp) (a b : LRValue) : Bool :=
  match a, b with
  | .string x, .string y => textOrder op x y
  | _, _ =>
    let da := lr_to_float64 a
    let db := lr_to_float64 b
    if da.isNaN ∨ db.isNaN then false else numberOrder op da db

def bitOp (op : BinOp) (x y : Int) : Int :=
  match op with
  | .bitAnd => Int32.and x y
  | .bitOr => Int32.or x y
  | .bitXor => Int32.xor x y
  | .shl => Int32.shl x y
  | .sar => Int32.sar x y
  | .shr => Int32.shr x y
  | _ => 0

def BinOp.isShift : BinOp → Bool
  | .shl | .sar | .shr => true
  | _ => false

/-- `(int32_t)d`, where C defines the cast. -/
def Double.cast? (d : Double) : Option Int :=
  d.truncate?.filter fun n => Double.InInt32 n

namespace Double

variable {d : Double} {n : Int}

theorem cast?_eq_some : d.cast? = some n ↔ d.truncate? = some n ∧ InInt32 n := by
  unfold cast?
  rw [Option.filter_eq_some_iff, decide_eq_true_iff]

theorem toInt32_of_cast? (cast : d.cast? = some n) : d.toInt32 = n := by
  obtain ⟨truncated, range⟩ := cast?_eq_some.mp cast
  unfold InInt32 at range
  rw [toInt32, truncated]
  exact if_pos (by omega)

theorem cast?_ofInt (range : InInt32 n) : (ofInt n).cast? = some n :=
  cast?_eq_some.mpr ⟨truncate?_ofInt range.exact, range⟩

end Double

/-- The bitwise operators of `eval_binary` on `double`s: the distance of a shift is not masked.
`none` stands for what C leaves undefined. -/
def treeBits (op : BinOp) (da db : Double) : Option LRValue := do
  let m ← da.cast?
  let n ← db.cast?
  if op.isShift ∧ ¬(0 ≤ n ∧ n < 32) then none else some (.int32 (bitOp op m n))

/-- The integer fast path of `eval_binary`; the arithmetic wraps. -/
def treeInt (op : BinaryOp) (a b : LRValue) : Option LRValue :=
  match a, b with
  | .int32 m, .int32 n =>
    match op with
    | .add => some (.int32 (castInt32 (m + n)))
    | .sub => some (.int32 (castInt32 (m - n)))
    | .mul => some (.int32 (castInt32 (m * n)))
    | .bitAnd => some (.int32 (Int32.and m n))
    | .bitOr => some (.int32 (Int32.or m n))
    | .bitXor => some (.int32 (Int32.xor m n))
    | .shl => some (.int32 (Int32.shl m n))
    | .sar => some (.int32 (Int32.sar m n))
    | .shr => some (.int32 (Int32.shr m n))
    | .lt => some (.bool (m < n))
    | .gt => some (.bool (m > n))
    | .le => some (.bool (m ≤ n))
    | .ge => some (.bool (m ≥ n))
    | _ => none
  | _, _ => none

/-- `eval_binary` behind the integer fast path; a cast that only decides how a number is kept has
the value of the number where that fits. -/
def treeGeneric (E : Engine) (s : EngineState) (op : BinaryOp) (left right : LRValue) :
    Option (Computed × EngineState) :=
  let da := lr_to_float64 left
  let db := lr_to_float64 right
  match op with
  | .add =>
    if left.isString ∨ right.isString then do
      let (sl, s) ← E.lr_to_cstring s left
      let (sr, s) ← E.lr_to_cstring s right
      s.give (.string (sl ++ sr))
    else
      s.give (.demoted (da.add db))
  | .sub => s.give (.demoted (da.sub db))
  | .mul => s.give (.demoted (da.mul db))
  | .div => s.give (.float64 (da.div db))
  | .mod => s.give (if db.ceq (.ofInt 0) then .float64 .nan else .demoted (da.fmod db))
  | .pow => s.give (.float64 (E.pow da db))
  | .lt => s.give (.bool (da.lt db))
  | .gt => s.give (.bool (db.lt da))
  | .le => s.give (.bool (da.le db))
  | .ge => s.give (.bool (db.le da))
  | .eq => do
      let (equal, s) ← E.abstract_eq s left right
      s.give (.bool equal)
  | .ne => do
      let (equal, s) ← E.abstract_eq s left right
      s.give (.bool (!equal))
  | .strictEq => s.give (.bool (strict_eq left right))
  | .strictNe => s.give (.bool (!strict_eq left right))
  | .bitAnd => (treeBits .bitAnd da db).bind s.give
  | .bitOr => (treeBits .bitOr da db).bind s.give
  | .bitXor => (treeBits .bitXor da db).bind s.give
  | .shl => (treeBits .shl da db).bind s.give
  | .sar => (treeBits .sar da db).bind s.give
  | .shr => (treeBits .shr da db).bind s.give
  | .in => E.hasIn s left right
  | .instanceof => E.instanceOf s left right
  | .andAnd | .orOr | .nullish => s.give .undefined

/-- `eval_binary` on evaluated operands. -/
def eval_binary (E : Engine) (s : EngineState) (op : BinaryOp) (left right : LRValue) :
    Option (Computed × EngineState) :=
  match op with
  | .andAnd => s.give (if lr_to_bool left then right else left)
  | .orOr => s.give (if lr_to_bool left then left else right)
  | .nullish => s.give (if left = .null ∨ left = .undefined then right else left)
  | op =>
    match treeInt op left right with
    | some v => s.give v
    | none => treeGeneric E s op left right

def binopFloat (op : BinOp) (a b : LRValue) : Option LRValue :=
  match a, b with
  | .float64 x, .float64 y =>
    match op with
    | .add => some (.float64 (x.add y))
    | .sub => some (.float64 (x.sub y))
    | .mul => some (.float64 (x.mul y))
    | .div => some (.float64 (x.div y))
    | .lt | .gt | .le | .ge => some (.bool (numberOrder op x y))
    | .eq | .strictEq => some (.bool (x.ceq y))
    | .ne | .strictNe => some (.bool (!x.ceq y))
    | _ => none
  | _, _ => none

/-- A division in `int64_t`. -/
def bigintDivide (s : EngineState) (divide : Int → Int → Int) (x y : Int) :
    Option (Computed × EngineState) :=
  if y = 0 then
    s.raise "Division by zero"
  else if x = -2 ^ 63 ∧ y = -1 then
    none
  else
    s.giveBigint (divide x y)

/-- The path for two BigInts: `none` for the operators that it leaves to the others. -/
def binopBigint (s : EngineState) (op : BinOp) (x y : Int) :
    Option (Option (Computed × EngineState)) :=
  let bits (f : BitVec 64 → BitVec 64 → BitVec 64) : Option (Option (Computed × EngineState)) :=
    some (s.giveBigint (f (BitVec.ofInt 64 x) (BitVec.ofInt 64 y)).toInt)
  match op with
  | .add => some (s.giveBigint (x + y))
  | .sub => some (s.giveBigint (x - y))
  | .mul => some (s.giveBigint (x * y))
  | .div => some (bigintDivide s Int.tdiv x y)
  | .mod => some (bigintDivide s Int.tmod x y)
  | .pow => some (s.giveBigint (x ^ y.toNat))
  | .lt | .gt | .le | .ge => some (s.give (.bool (intOrder op x y)))
  | .eq | .strictEq => some (s.give (.bool (x = y)))
  | .ne | .strictNe => some (s.give (.bool (x ≠ y)))
  | .shl => bits fun a b => a <<< (b.toNat % 64)
  | .shr | .sar => bits fun a b => a.sshiftRight (b.toNat % 64)
  | .bitAnd => bits (· &&& ·)
  | .bitOr => bits (· ||| ·)
  | .bitXor => bits (· ^^^ ·)
  | .in | .instanceof => none

def binopInt (op : BinOp) (a b : LRValue) : Option LRValue :=
  match a, b with
  | .int32 m, .int32 n =>
    match op with
    | .add => some (.ofInt64 (m + n))
    | .sub => some (.ofInt64 (m - n))
    | .mul => some (.bcv_number ((Double.ofInt m).mul (.ofInt n)))
    | .mod =>
      if n = 0 then
        none
      else if m = -2 ^ 31 ∧ n = -1 then
        some (.int32 0)
      else
        some (.int32 (m.tmod n))
    | .bitAnd | .bitOr | .bitXor | .shl | .shr | .sar => some (.int32 (bitOp op m n))
    | .lt | .gt | .le | .ge => some (.bool (intOrder op m n))
    | .eq | .strictEq => some (.bool (m = n))
    | .ne | .strictNe => some (.bool (m ≠ n))
    | .div | .pow | .in | .instanceof => none
  | _, _ => none

/-- `bcv_concat`: a string on the left keeps its NULs, and so does one behind it. -/
def bcv_concat (E : Engine) (s : EngineState) (a b : LRValue) : Option (Computed × EngineState) :=
  match a, b with
  | .string x, .string y => s.give (.string (x ++ y))
  | .string x, .int32 n => s.give (.string (x ++ toString n))
  | .string x, .float64 d => s.give (.string (x ++ floatText d))
  | .string x, b => do
      let (sb, s) ← E.lr_to_cstring s b
      s.give (.string (x ++ sb))
  | a, b => do
      let (sa, s) ← E.lr_to_cstring s a
      let (sb, s) ← E.lr_to_cstring s b
      s.give (.string (sa ++ sb))

/-- `bcv_binop` behind its fast paths. -/
def binopGeneric (E : Engine) (s : EngineState) (op : BinOp) (a b : LRValue) :
    Option (Computed × EngineState) :=
  let da := lr_to_float64 a
  let db := lr_to_float64 b
  match op with
  | .add =>
    if a.isString ∨ b.isString then
      bcv_concat E s a b
    else if (a.isObject ∧ (a.bigint? s).isNone) ∨ (b.isObject ∧ (b.bigint? s).isNone) then
      bcv_concat E s a b
    else
      s.give (.bcv_number (da.add db))
  | .sub => s.give (.bcv_number (da.sub db))
  | .mul => s.give (.bcv_number (da.mul db))
  | .div => s.give (.float64 (da.div db))
  | .mod => s.give (if db.ceq (.ofInt 0) then .float64 .nan else .bcv_number (da.fmod db))
  | .pow => s.give (.float64 (E.pow da db))
  | .lt | .gt | .le | .ge => s.give (.bool (bcv_relational op a b))
  | .eq => do
      let (equal, s) ← E.bcv_abstract_eq s a b
      s.give (.bool equal)
  | .ne => do
      let (equal, s) ← E.bcv_abstract_eq s a b
      s.give (.bool (!equal))
  | .strictEq => s.give (.bool (bcv_strict_eq a b))
  | .strictNe => s.give (.bool (!bcv_strict_eq a b))
  | .bitAnd | .bitOr | .bitXor | .shl | .shr | .sar =>
    s.give (.int32 (bitOp op (lr_to_int32 a) (lr_to_int32 b)))
  | .in => E.hasIn s a b
  | .instanceof => E.instanceOf s a b

def bcv_binop (E : Engine) (s : EngineState) (op : BinOp) (a b : LRValue) :
    Option (Computed × EngineState) :=
  match binopFloat op a b with
  | some v => s.give v
  | none =>
    let onBigints : Option (Option (Computed × EngineState)) := do
      binopBigint s op (← a.bigint? s) (← b.bigint? s)
    match onBigints with
    | some result => result
    | none =>
      match binopInt op a b with
      | some v => s.give v
      | none => binopGeneric E s op a b

def inlineFloat (f : Double → Double → LRValue) (a b : LRValue) : Option LRValue :=
  match a, b with
  | .float64 x, .float64 y => some (f x y)
  | .int32 m, .float64 y => some (f (.ofInt m) y)
  | .float64 x, .int32 n => some (f x (.ofInt n))
  | _, _ => none

/-- The inline paths of `BC_ADD`. -/
def inlineAdd (a b : LRValue) : Option LRValue :=
  match a, b with
  | .int32 m, .int32 n => some (.ofInt64 (m + n))
  | .string x, .string y => some (.string (x ++ y))
  | .string x, .int32 n => some (.string (x ++ toString n))
  | .int32 m, .string y => some (.string (toString m ++ y))
  | a, b => inlineFloat (fun x y => .float64 (x.add y)) a b

/-- The inline paths of `BC_SUB`. -/
def inlineSub (a b : LRValue) : Option LRValue :=
  match a, b with
  | .int32 m, .int32 n => some (.ofInt64 (m - n))
  | a, b => inlineFloat (fun x y => .float64 (x.sub y)) a b

/-- The inline paths of `BC_MUL`; a product that is negative zero is demoted. -/
def inlineMul (a b : LRValue) : Option LRValue :=
  match a, b with
  | .int32 m, .int32 n => some (.demoted ((Double.ofInt m).mul (.ofInt n)))
  | a, b => inlineFloat (fun x y => .float64 (x.mul y)) a b

/-- The inline paths of a comparison: on integers, and `NUM_CMP_QUICK`. -/
def inlineCompare (onInts : Int → Int → Bool) (onDoubles : Double → Double → Bool)
    (a b : LRValue) : Option LRValue :=
  match a, b with
  | .int32 m, .int32 n => some (.bool (onInts m n))
  | a, b => inlineFloat (fun x y => .bool (onDoubles x y)) a b

/-- `STRICT_NUM_CMP_QUICK`. -/
def inlineStrict (onInts : Int → Int → Bool) (onDoubles : Double → Double → Bool)
    (a b : LRValue) : Option LRValue :=
  match a, b with
  | .float64 x, .float64 y => some (.bool (onDoubles x y))
  | .int32 m, .int32 n => some (.bool (onInts m n))
  | _, _ => none

def inlineInt (f : Int → Int → LRValue) (a b : LRValue) : Option LRValue :=
  match a, b with
  | .int32 m, .int32 n => some (f m n)
  | _, _ => none

/-- The inline paths in front of `binop_shared`. -/
def inlinePath (op : BinOp) (a b : LRValue) : Option LRValue :=
  match op with
  | .add => inlineAdd a b
  | .sub => inlineSub a b
  | .mul => inlineMul a b
  | .lt | .gt | .ge => inlineCompare (intOrder op) (numberOrder op) a b
  | .le => inlineInt (fun m n => .bool (intOrder .le m n)) a b
  | .eq => inlineCompare (fun m n => m = n) Double.ceq a b
  | .ne => inlineCompare (fun m n => m ≠ n) (fun x y => !x.ceq y) a b
  | .strictEq => inlineStrict (fun m n => m = n) Double.ceq a b
  | .strictNe => inlineStrict (fun m n => m ≠ n) (fun x y => !x.ceq y) a b
  | .shl | .shr | .sar | .bitAnd | .bitOr | .bitXor =>
    inlineInt (fun m n => .int32 (bitOp op m n)) a b
  | .div | .mod | .pow | .in | .instanceof => none

/-- An inline path, or `bcv_binop`. -/
def orBinop (E : Engine) (s : EngineState) (op : BinOp) (path : Option LRValue)
    (a b : LRValue) : Option (Computed × EngineState) :=
  match path with
  | some v => s.give v
  | none => bcv_binop E s op a b

def opcode (E : Engine) (s : EngineState) (op : BinOp) (a b : LRValue) :
    Option (Computed × EngineState) :=
  orBinop E s op (inlinePath op a b) a b

/-- The inline paths of `BC_ADD_SELF`: the slot holds a string. -/
def addSelfPath (a b : LRValue) : Option LRValue :=
  match a, b with
  | .string x, .string y => some (.string (x ++ y))
  | .string x, .int32 n => some (.string (x ++ toString n))
  | _, _ => none

/-- The inline paths of `BC_LOAD_PROP_ADD`. -/
def loadPropAddPath (a b : LRValue) : Option LRValue :=
  match a, b with
  | .int32 m, .int32 n => some (.ofInt64 (m + n))
  | a, b => inlineFloat (fun x y => .float64 (x.add y)) a b

/-- The condition of `BC_JUMP_IF_LOCAL_LT_IMM`. -/
def localLtImm (v : LRValue) (imm : Int) : Bool :=
  match v with
  | .int32 n => n < imm
  | v => (lr_to_float64 v).lt (.ofInt imm)

/-- The instructions that carry out an operator; `BC_LOAD_PROP_ADD` has its inline
paths only where its cache hits. -/
inductive Form where
  | opcode
  | addSelf
  | mulSelf
  | loadPropAdd (hit : Bool)
  | localLtImm (imm : Int)
deriving DecidableEq, Repr

namespace Form

def Carries (form : Form) (op : BinaryOp) (b : LRValue) : Prop :=
  match form with
  | .opcode => True
  | .addSelf | .loadPropAdd _ => op = .add
  | .mulSelf => op = .mul
  | .localLtImm imm => op = .lt ∧ b = .int32 imm

/-- The operator on the virtual machine.  The short-circuit operators are jumps:
the left value stays where the jump is taken. -/
def exec (E : Engine) (s : EngineState) (form : Form) (op : BinaryOp) (a b : LRValue) :
    Option (Computed × EngineState) :=
  match form with
  | .addSelf => orBinop E s .add (addSelfPath a b) a b
  | .mulSelf => orBinop E s .mul (inlineMul a b) a b
  | .loadPropAdd hit => orBinop E s .add (if hit then loadPropAddPath a b else none) a b
  | .localLtImm imm => s.give (.bool (LRJS.localLtImm a imm))
  | .opcode =>
    match op, binop_of op with
    | _, some bop => LRJS.opcode E s bop a b
    | .andAnd, none => s.give (if !lr_to_bool a then a else b)
    | .orOr, none => s.give (if lr_to_bool a then a else b)
    | .nullish, none => s.give (if a.tag ≠ .undefined ∧ a.tag ≠ .null then a else b)
    | _, none => s.give .undefined

end Form

end LRJS
