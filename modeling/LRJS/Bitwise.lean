import LRJS.Operators

/-!
# Bitwise operators

`&`, `|`, `^`, `<<`, `>>` and `>>>` on numbers.  The tree-walker casts two `double`s and shifts
by the whole right operand; the machine casts what is not an `int32_t` and shifts by its low
five bits.  C defines the cast of a `double` whose integral part fits, and a shift by less than
the width.
-/

namespace LRJS.Bitwise

inductive Number where
  | int32 (n : Int) (range : Double.InInt32 n)
  | float64 (d : Double)

inductive Operator where
  | bitAnd | bitOr | bitXor | shl | sar | shr
deriving DecidableEq, Repr

namespace Operator

def binary : Operator → BinaryOp
  | .bitAnd => .bitAnd
  | .bitOr => .bitOr
  | .bitXor => .bitXor
  | .shl => .shl
  | .sar => .sar
  | .shr => .shr

def opcode : Operator → BinOp
  | .bitAnd => .bitAnd
  | .bitOr => .bitOr
  | .bitXor => .bitXor
  | .shl => .shl
  | .sar => .sar
  | .shr => .shr

def isShift : Operator → Bool
  | .shl | .sar | .shr => true
  | _ => false

end Operator

namespace Number

def value : Number → LRValue
  | .int32 n _ => .int32 n
  | .float64 d => .float64 d

def isDouble : Number → Bool
  | .int32 .. => false
  | .float64 _ => true

/-- `(int32_t)d` and `bcv_to_int32`, where C defines the cast. -/
def cast? : Number → Option Int
  | .int32 n _ => some n
  | .float64 d => do
      let n ← d.truncate?
      if Double.InInt32 n then some n else none

end Number

/-- `eval_binary`: the distance is masked for two `int32_t` only. -/
def tree (op : Operator) (a b : Number) : Option LRValue := do
  let m ← a.cast?
  let n ← b.cast?
  if op.isShift ∧ (a.isDouble ∨ b.isDouble) ∧ ¬(0 ≤ n ∧ n < 32) then
    none
  else
    some (.int32 (bitOp op.opcode m n))

/-- The inline paths of the opcodes, and `bcv_binop`. -/
def machine (op : Operator) (a b : Number) : Option LRValue := do
  let m ← a.cast?
  let n ← b.cast?
  some (.int32 (bitOp op.opcode m n))

namespace Number

def integral : Number → Int
  | .int32 n _ => n
  | .float64 d => d.truncate?.getD 0

/-- `ToInt32` and `ToUint32`. -/
def word (a : Number) : BitVec 32 :=
  BitVec.ofInt 32 a.integral

end Number

def Operator.ecma (op : Operator) (a b : Number) : Int :=
  let count := b.word.toNat % 32
  match op with
  | .bitAnd => (a.word &&& b.word).toInt
  | .bitOr => (a.word ||| b.word).toInt
  | .bitXor => (a.word ^^^ b.word).toInt
  | .shl => (a.word <<< count).toInt
  | .sar => (a.word.sshiftRight count).toInt
  | .shr => (a.word >>> count).toNat

def Right (op : Operator) (a b : Number) : Prop :=
  ∃ v, tree op a b = some v ∧ machine op a b = some v ∧
    lr_to_float64 v = Double.ofInt (op.ecma a b) ∧
    ∀ E s, eval_binary E s op.binary a.value b.value = s.give v ∧
      LRJS.opcode E s op.opcode a.value b.value = s.give v ∧
      bcv_binop E s op.opcode a.value b.value = s.give v

/-- A `double` has an integral part in the range of `int32_t`, a distance by a `double` is less than
32, and `>>>` shifts a negative number. -/
structure Fits (op : Operator) (a b : Number) : Prop where
  left : ∀ d, a = .float64 d → ∃ n, d.truncate? = some n ∧ Double.InInt32 n
  right : ∀ d, b = .float64 d → ∃ n, d.truncate? = some n ∧ Double.InInt32 n
  distance : op.isShift = true → a.isDouble ∨ b.isDouble → 0 ≤ b.integral ∧ b.integral < 32
  unsigned : op = .shr → 0 ≤ a.integral ∨ b.integral % 32 ≠ 0

section Casts

variable {a b : Number} {op : Operator} {m n : Int}

theorem cast_eq_some (cast : a.cast? = some n) :
    a.integral = n ∧ Double.InInt32 n ∧ lr_to_int32 a.value = n ∧
      (lr_to_float64 a.value).cast? = some n := by
  cases a with
  | int32 k range =>
    cases cast
    exact ⟨rfl, range, rfl, Double.cast?_ofInt range⟩
  | float64 d =>
    obtain ⟨k, truncated, fits⟩ := Option.bind_eq_some_iff.mp cast
    split at fits
    · next range =>
      cases fits
      have defined := Double.cast?_eq_some.mpr ⟨truncated, range⟩
      refine ⟨?_, range, Double.toInt32_of_cast? defined, defined⟩
      change d.truncate?.getD 0 = n
      rw [truncated]
      rfl
    · cases fits

/-- The cast to `int32_t` is defined exactly if the double truncates into its range. -/
theorem cast_isSome_iff :
    (∃ n, a.cast? = some n) ↔
      ∀ d, a = .float64 d → ∃ n, d.truncate? = some n ∧ Double.InInt32 n := by
  cases a with
  | int32 k range => exact iff_of_true ⟨k, rfl⟩ fun d same => by cases same
  | float64 d =>
    constructor
    · rintro ⟨n, cast⟩ e same
      cases same
      obtain ⟨k, truncated, fits⟩ := Option.bind_eq_some_iff.mp cast
      split at fits
      · next range => exact ⟨k, truncated, range⟩
      · cases fits
    · intro fits
      obtain ⟨n, truncated, range⟩ := fits d rfl
      refine ⟨n, ?_⟩
      change d.truncate?.bind _ = some n
      rw [truncated]
      exact if_pos range

/-- Where casts and shift are defined, the engines compute on the cast numbers. -/
theorem engines_eq (castA : a.cast? = some m) (castB : b.cast? = some n)
    (inside : op.isShift = true → a.isDouble ∨ b.isDouble → 0 ≤ n ∧ n < 32) (E : Engine)
    (s : EngineState) :
    eval_binary E s op.binary a.value b.value = s.give (.int32 (bitOp op.opcode m n)) ∧
      LRJS.opcode E s op.opcode a.value b.value = s.give (.int32 (bitOp op.opcode m n)) ∧
      bcv_binop E s op.opcode a.value b.value = s.give (.int32 (bitOp op.opcode m n)) := by
  obtain ⟨-, -, intA, doubleA⟩ := cast_eq_some castA
  obtain ⟨-, -, intB, doubleB⟩ := cast_eq_some castB
  have bits (double : a.isDouble ∨ b.isDouble) :
      treeBits op.opcode (lr_to_float64 a.value) (lr_to_float64 b.value) =
        some (.int32 (bitOp op.opcode m n)) := by
    rw [treeBits, doubleA, doubleB]
    refine if_neg fun outside => outside.2 (inside ?_ double)
    cases op <;> exact outside.1
  have generic (double : a.isDouble ∨ b.isDouble) : treeGeneric E s op.binary a.value b.value =
      s.give (.int32 (bitOp op.opcode m n)) := by
    have defined := congrArg (·.bind s.give) (bits double)
    cases op <;> exact defined
  have behind : binopGeneric E s op.opcode a.value b.value =
      s.give (.int32 (bitOp op.opcode m n)) := by
    rw [← intA, ← intB]
    cases op <;> rfl
  cases a with
  | int32 x rangeA =>
    cases b with
    | int32 y rangeB =>
      cases castA
      cases castB
      cases op <;> exact ⟨rfl, rfl, rfl⟩
    | float64 e => cases op <;> exact ⟨generic (.inr rfl), behind, behind⟩
  | float64 d =>
    cases b with
    | int32 y rangeB | float64 e => cases op <;> exact ⟨generic (.inl rfl), behind, behind⟩

theorem bits_exact (op : BinOp) (m n : Int) : Double.Exact (bitOp op m n) := by
  have exact (x : BitVec 32) : Double.Exact x.toInt := by
    have lower := x.le_toInt
    have upper := x.toInt_lt
    unfold Double.Exact
    omega
  cases op <;> first | exact exact _ | exact Nat.zero_le _

/-- The unsigned number of a word is its signed one, unless the highest bit is set. -/
theorem shifted_eq_iff (range : Double.InInt32 m) :
    (BitVec.ofInt 32 m >>> Int32.distance n).toInt =
      ((BitVec.ofInt 32 m >>> Int32.distance n).toNat : Int) ↔ 0 ≤ m ∨ n % 32 ≠ 0 := by
  have count : (Int32.distance n : Int) = n % 32 := by
    unfold Int32.distance
    rw [BitVec.toNat_ofInt]
    omega
  have word : ((BitVec.ofInt 32 m).toNat : Int) = m % 2 ^ 32 := by
    rw [BitVec.toNat_ofInt]
    omega
  have half : (BitVec.ofInt 32 m >>> Int32.distance n).toNat =
      (BitVec.ofInt 32 m).toNat / 2 ^ Int32.distance n := by
    rw [BitVec.toNat_ushiftRight, Nat.shiftRight_eq_div_pow]
  rw [BitVec.toInt_eq_toNat_cond, half]
  unfold Double.InInt32 at range
  by_cases none : Int32.distance n = 0
  · rw [none, Nat.pow_zero, Nat.div_one]
    split <;> omega
  · have two : 2 ^ 1 ≤ 2 ^ Int32.distance n := Nat.pow_le_pow_right (by decide) (by omega)
    have most : (BitVec.ofInt 32 m).toNat / 2 ^ Int32.distance n ≤
        (BitVec.ofInt 32 m).toNat / 2 ^ 1 := Nat.div_le_div_left two (by decide)
    split <;> omega

/-- The computed number is the one of ECMAScript, unless `>>>` makes it negative. -/
theorem ecma_eq_iff (castA : a.cast? = some m) (castB : b.cast? = some n) :
    lr_to_float64 (.int32 (bitOp op.opcode m n)) = Double.ofInt (op.ecma a b) ↔
      (op = .shr → 0 ≤ a.integral ∨ b.integral % 32 ≠ 0) := by
  obtain ⟨sameA, range, -, -⟩ := cast_eq_some castA
  obtain ⟨sameB, -, -, -⟩ := cast_eq_some castB
  have words : a.word = BitVec.ofInt 32 m ∧ b.word = BitVec.ofInt 32 n := by
    unfold Number.word
    rw [sameA, sameB]
    exact ⟨rfl, rfl⟩
  rw [sameA, sameB]
  by_cases unsigned : op = .shr
  · subst unsigned
    rw [eq_self_iff_true, true_implies, ← shifted_eq_iff range]
    unfold Operator.ecma
    rw [words.1, words.2]
    have bound := (BitVec.ofInt 32 m >>> Int32.distance n).isLt
    refine ⟨Double.ofInt_injective (bits_exact .shr m n) ?_, congrArg Double.ofInt⟩
    exact Nat.le_trans bound.le (by decide)
  · refine iff_of_true (congrArg Double.ofInt ?_) fun same => absurd same unsigned
    unfold Operator.ecma
    rw [words.1, words.2]
    cases op with
    | shr => exact absurd rfl unsigned
    | _ => rfl

end Casts

/-- The operators are those of ECMAScript exactly on operands that fit. -/
theorem bitwise_right (op : Operator) (a b : Number) : Right op a b ↔ Fits op a b := by
  constructor
  · rintro ⟨v, run, -, same, -⟩
    obtain ⟨m, castA, rest⟩ := Option.bind_eq_some_iff.mp run
    obtain ⟨n, castB, rest⟩ := Option.bind_eq_some_iff.mp rest
    split at rest
    · cases rest
    · next inside =>
      cases rest
      refine ⟨cast_isSome_iff.mp ⟨m, castA⟩, cast_isSome_iff.mp ⟨n, castB⟩, ?_,
        (ecma_eq_iff castA castB).mp same⟩
      intro shift double
      rw [(cast_eq_some castB).1]
      exact not_not.mp fun outside => inside ⟨shift, double, outside⟩
  · intro fits
    obtain ⟨m, castA⟩ := cast_isSome_iff.mpr fits.left
    obtain ⟨n, castB⟩ := cast_isSome_iff.mpr fits.right
    have inside : op.isShift = true → a.isDouble ∨ b.isDouble → 0 ≤ n ∧ n < 32 := by
      rw [← (cast_eq_some castB).1]
      exact fits.distance
    refine ⟨.int32 (bitOp op.opcode m n), ?_, ?_, (ecma_eq_iff castA castB).mpr fits.unsigned,
      engines_eq castA castB inside⟩
    · unfold tree
      rw [castA, castB]
      exact if_neg fun outside => outside.2.2 (inside outside.1 outside.2.1)
    · unfold machine
      rw [castA, castB]
      rfl

/-- `-1 >>> 0` is -1. -/
theorem unsigned_shift_negative :
    ¬ Right .shr (.int32 (-1) (by decide)) (.int32 0 (by decide)) := by
  rintro ⟨v, run, -, same, -⟩
  cases run
  exact absurd ((ecma_eq_iff rfl rfl).mp same rfl) (by decide)

end LRJS.Bitwise
