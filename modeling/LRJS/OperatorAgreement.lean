import LRJS.OperatorTables
import Mathlib.Data.List.TakeWhile

/-!
# Agreement of the operator tables

The operators on operands that are neither two `int32_t` nor two BigInts, and the
table of the exceptions as a whole.  Strings make `+` a concatenation; otherwise
the arithmetic of both engines is that of doubles, and they differ in what they
demote to `int32_t`.
-/

namespace LRJS

open List Option LRValue Engine Engine.Agree

section Others

variable {E : Engine} {s : EngineState} {a b : LRValue}

structure Others (s : EngineState) (a b : LRValue) : Prop where
  notInts : a.tag = .int32 → b.tag ≠ .int32
  notBigints : (a.bigint? s).isSome → b.bigint? s = none

section

variable (others : Others s a b)
include others

theorem binopInt_others (op : BinOp) : binopInt op a b = none := by
  unfold binopInt
  split
  · exact absurd rfl (others.notInts rfl)
  · rfl

theorem treeInt_others (op : BinaryOp) : treeInt op a b = none := by
  unfold treeInt
  split
  · exact absurd rfl (others.notInts rfl)
  · rfl

theorem inlineInt_others (f : Int → Int → LRValue) : inlineInt f a b = none := by
  unfold inlineInt
  split
  · exact absurd rfl (others.notInts rfl)
  · rfl

theorem inlineSub_others : inlineSub a b = inlineFloat (fun x y => .float64 (x.sub y)) a b := by
  unfold inlineSub
  split
  · exact absurd rfl (others.notInts rfl)
  · rfl

theorem inlineMul_others : inlineMul a b = inlineFloat (fun x y => .float64 (x.mul y)) a b := by
  unfold inlineMul
  split
  · exact absurd rfl (others.notInts rfl)
  · rfl

theorem inlineCompare_others (onInts : Int → Int → Bool) (onDoubles : Double → Double → Bool) :
    inlineCompare onInts onDoubles a b = inlineFloat (fun x y => .bool (onDoubles x y)) a b := by
  unfold inlineCompare
  split
  · exact absurd rfl (others.notInts rfl)
  · rfl

theorem loadPropAddPath_others :
    loadPropAddPath a b = inlineFloat (fun x y => .float64 (x.add y)) a b := by
  unfold loadPropAddPath
  split
  · exact absurd rfl (others.notInts rfl)
  · rfl

theorem bcv_binop_others (op : BinOp) : bcv_binop E s op a b =
    match binopFloat op a b with
    | some v => s.give v
    | none => binopGeneric E s op a b := by
  have noBigints : (do
      let x ← a.bigint? s
      let y ← b.bigint? s
      binopBigint s op x y) = none := by
    cases left : a.bigint? s with
    | none => rfl
    | some x =>
      rw [others.notBigints (by rw [left]; rfl)]
      rfl
  unfold bcv_binop
  cases binopFloat op a b with
  | some v => rfl
  | none => simp only [noBigints, binopInt_others others]

end

variable {f : Double → Double → LRValue}

theorem inlineFloat_some {v : LRValue} (found : inlineFloat f a b = some v) :
    v = f (lr_to_float64 a) (lr_to_float64 b) := by
  unfold inlineFloat at found
  split at found
  · exact (some.inj found).symm
  · exact (some.inj found).symm
  · exact (some.inj found).symm
  · cases found

variable {op : BinOp}

theorem binopFloat_some {v : LRValue}
    (onDoubles : ∀ x y, binopFloat op (.float64 x) (.float64 y) = some (f x y))
    (found : binopFloat op a b = some v) : v = f (lr_to_float64 a) (lr_to_float64 b) := by
  cases a with
  | float64 x =>
    cases b with
    | float64 y =>
      rw [onDoubles] at found
      exact (some.inj found).symm
    | _ => cases found
  | _ => cases found

def EngineState.GivesNumber (s : EngineState) (result : Option (Computed × EngineState))
    (d : Double) : Prop :=
  ∃ v, result = s.give v ∧ v.number? = some d

theorem orBinop_number (others : Others s a b) {f : Double → Double → Double}
    {path : Option LRValue}
    (inline : path = none ∨ path = inlineFloat (fun x y => .float64 (f x y)) a b)
    (onDoubles : ∀ x y, binopFloat op (.float64 x) (.float64 y) = some (.float64 (f x y)))
    (generic : s.GivesNumber (binopGeneric E s op a b) (f (lr_to_float64 a) (lr_to_float64 b))) :
    s.GivesNumber (orBinop E s op path a b) (f (lr_to_float64 a) (lr_to_float64 b)) := by
  have shared : s.GivesNumber (bcv_binop E s op a b) (f (lr_to_float64 a) (lr_to_float64 b)) := by
    rw [bcv_binop_others others]
    cases found : binopFloat op a b with
    | none => exact generic
    | some v =>
      refine ⟨v, rfl, ?_⟩
      rw [binopFloat_some (f := fun x y => .float64 (f x y)) onDoubles found]
      rfl
  rcases inline with rfl | rfl
  · exact shared
  · cases found : inlineFloat (fun x y => float64 (f x y)) a b with
    | none => exact shared
    | some v =>
      refine ⟨v, rfl, ?_⟩
      rw [inlineFloat_some found]
      rfl

variable {d : Double} {result : Option (Computed × EngineState)}

theorem agree_demoted (clean : s.error = none) (number : s.GivesNumber result d) :
    E.Agree (s.give (.demoted d)) result ↔ d ≠ .negZero := by
  obtain ⟨v, rfl, value⟩ := number
  rw [agree_give clean]
  exact demoted_same value

theorem opcode_sub (others : Others s a b) :
    s.GivesNumber (opcode E s .sub a b) ((lr_to_float64 a).sub (lr_to_float64 b)) :=
  orBinop_number others (.inr (inlineSub_others others)) (fun _ _ => rfl)
    ⟨_, rfl, number?_bcv_number _⟩

theorem opcode_mul (others : Others s a b) :
    s.GivesNumber (orBinop E s .mul (inlineMul a b) a b)
      ((lr_to_float64 a).mul (lr_to_float64 b)) :=
  orBinop_number others (.inr (inlineMul_others others)) (fun _ _ => rfl)
    ⟨_, rfl, number?_bcv_number _⟩

theorem agree_sub (clean : s.error = none) (others : Others s a b) :
    E.Agree (treeGeneric E s .sub a b) (opcode E s .sub a b) ↔
      ¬ (lr_to_float64 a = .negZero ∧ lr_to_float64 b = .ofInt 0) :=
  (agree_demoted clean (opcode_sub others)).trans (not_congr Double.sub_eq_negZero)

theorem agree_mul (clean : s.error = none) (others : Others s a b) :
    E.Agree (treeGeneric E s .mul a b) (orBinop E s .mul (inlineMul a b) a b) ↔
      ¬ (lr_to_float64 a).Vanishing (lr_to_float64 b) :=
  (agree_demoted clean (opcode_mul others)).trans (not_congr Double.mul_eq_negZero)

theorem opcode_generic (others : Others s a b) (noFast : op = .mod ∨ op = .pow) :
    opcode E s op a b = binopGeneric E s op a b := by
  have noInline : inlinePath op a b = none := by
    rcases noFast with rfl | rfl <;> rfl
  have noFloat : binopFloat op a b = none := by
    unfold binopFloat
    split
    · rcases noFast with rfl | rfl <;> rfl
    · rfl
  rw [opcode, noInline, orBinop, bcv_binop_others others, noFloat]

theorem agree_mod (clean : s.error = none) (others : Others s a b) :
    E.Agree (treeGeneric E s .mod a b) (opcode E s .mod a b) ↔
      ¬ (lr_to_float64 a).NegativeMultiple (lr_to_float64 b) := by
  rw [opcode_generic others (.inl rfl)]
  simp only [treeGeneric, binopGeneric]
  split
  · next zero =>
      refine iff_of_true (refl _) ?_
      rintro ⟨-, -, -, nonzero, -⟩
      exact nonzero (Double.units_of_ceq_zero zero)
  · exact (agree_demoted clean ⟨_, rfl, number?_bcv_number _⟩).trans
      (not_congr Double.fmod_eq_negZero)

theorem agree_same_number (clean : s.error = none) (number : s.GivesNumber result d) :
    E.Agree (s.give (.float64 d)) result := by
  obtain ⟨v, rfl, value⟩ := number
  rw [agree_give clean, same_of_number? rfl value]
  exact .inl rfl

theorem opcode_div (others : Others s a b) :
    s.GivesNumber (opcode E s .div a b) ((lr_to_float64 a).div (lr_to_float64 b)) :=
  orBinop_number others (f := Double.div) (.inl rfl) (fun _ _ => rfl) ⟨_, rfl, rfl⟩

theorem agree_div (clean : s.error = none) (others : Others s a b) :
    E.Agree (treeGeneric E s .div a b) (opcode E s .div a b) :=
  agree_same_number clean (opcode_div others)

theorem agree_pow (others : Others s a b) :
    E.Agree (treeGeneric E s .pow a b) (opcode E s .pow a b) := by
  rw [opcode_generic others (.inr rfl)]
  exact refl _

theorem inInt32_bitOp (op : BinOp) (x y : Int) : Double.InInt32 (bitOp op x y) := by
  have range (v : BitVec 32) : Double.InInt32 v.toInt := by
    have lower := BitVec.le_toInt v
    have upper := BitVec.toInt_lt (x := v)
    unfold Double.InInt32
    omega
  cases op with
  | bitAnd | bitOr | bitXor | shl | shr | sar => exact range _
  | _ => exact range 0

def BinOp.bitwise : BinOp → Bool
  | .bitAnd | .bitOr | .bitXor | .shl | .shr | .sar => true
  | _ => false

theorem opcode_bits (others : Others s a b) (bits : op.bitwise = true) :
    opcode E s op a b = s.give (.int32 (bitOp op (lr_to_int32 a) (lr_to_int32 b))) := by
  have noFloat : binopFloat op a b = none := by
    cases a with
    | float64 x => cases b <;> cases op <;> first | rfl | cases bits
    | _ => rfl
  have noPath : inlinePath op a b = none := by
    cases op <;> first | exact inlineInt_others others _ | cases bits
  rw [opcode, noPath, orBinop, bcv_binop_others others, noFloat]
  cases op <;> first | rfl | cases bits

/-- Only on strings do the two conversions differ. -/
theorem casts_of_cast? {m : Int} (operand : a.Operand) (noString : a.isString = false)
    (cast : (lr_to_float64 a).cast? = some m) : a.Casts := by
  have nothing : Double.nan.cast? = none := by decide
  cases a with
  | string x => cases noString
  | symbol x | exception => cases operand
  | undefined | object p =>
    rw [show lr_to_float64 _ = Double.nan from rfl, nothing] at cast
    cases cast
  | null => exact Double.cast?_ofInt (by decide)
  | bool x => exact Double.cast?_ofInt (by cases x <;> decide)
  | int32 n => exact Double.cast?_ofInt operand
  | float64 x => exact cast.trans (congrArg some (Double.toInt32_of_cast? cast).symm)

theorem agree_bits (others : Others s a b) (op : BinOp) (bits : op.bitwise = true)
    (agrees : BitsAgree op a b) :
    E.Agree ((treeBits op (lr_to_float64 a) (lr_to_float64 b)).bind s.give)
      (opcode E s op a b) := by
  obtain ⟨castA, castB, inside⟩ := agrees
  have tree : treeBits op (lr_to_float64 a) (lr_to_float64 b) =
      some (.int32 (bitOp op (lr_to_int32 a) (lr_to_int32 b))) := by
    rw [treeBits, castA, castB]
    exact if_neg fun outside => outside.2 (inside outside.1)
  rw [opcode_bits others bits, tree]
  exact refl _

theorem bitsAgree_of_agree (others : Others s a b) (operandA : a.Operand) (operandB : b.Operand)
    (op : BinOp) (bits : op.bitwise = true) (noString : ¬ (a.isString = true ∨ b.isString = true))
    (agree : E.Agree ((treeBits op (lr_to_float64 a) (lr_to_float64 b)).bind s.give)
      (opcode E s op a b)) : BitsAgree op a b := by
  rw [opcode_bits others bits] at agree
  rw [not_or, Bool.not_eq_true, Bool.not_eq_true] at noString
  cases tree : treeBits op (lr_to_float64 a) (lr_to_float64 b) with
  | none =>
    rw [tree] at agree
    exact absurd agree not_rel_none_some
  | some v =>
    obtain ⟨m, castA, tree⟩ := bind_eq_some_iff.mp tree
    obtain ⟨n, castB, tree⟩ := bind_eq_some_iff.mp tree
    have castsA := casts_of_cast? operandA noString.1 castA
    have castsB := casts_of_cast? operandB noString.2 castB
    refine ⟨castsA, castsB, fun shift => ?_⟩
    rw [← some.inj (castB.symm.trans castsB)]
    split at tree
    · cases tree
    · next inside => exact not_not.mp fun outside => inside ⟨shift, outside⟩

def BinOp.relational : BinOp → Bool
  | .lt | .gt | .le | .ge => true
  | _ => false

theorem numberOrder_nan {x y : Double} (notNumber : x.isNaN = true ∨ y.isNaN = true) :
    numberOrder op x y = false := by
  cases op with
  | lt | gt | le | ge =>
    rcases notNumber with nan | nan <;> simp [numberOrder, Double.lt, Double.le, nan]
  | _ => rfl

theorem bcv_relational_number (notStrings : a.isString → b.isString = false) :
    bcv_relational op a b = numberOrder op (lr_to_float64 a) (lr_to_float64 b) := by
  unfold bcv_relational
  split
  · cases notStrings rfl
  · dsimp only
    split
    · next notNumber => exact (numberOrder_nan notNumber).symm
    · rfl

/-- The machine orders operands as `bcv_relational` does. -/
theorem opcode_order (others : Others s a b) (order : op.relational = true) :
    opcode E s op a b = s.give (.bool (bcv_relational op a b)) := by
  have numbers {v : LRValue} (notStrings : a.isString → b.isString = false)
      (value : v = .bool (numberOrder op (lr_to_float64 a) (lr_to_float64 b))) :
      s.give v = s.give (.bool (bcv_relational op a b)) := by
    rw [value, bcv_relational_number notStrings]
  have shared : bcv_binop E s op a b = s.give (.bool (bcv_relational op a b)) := by
    rw [bcv_binop_others others]
    cases found : binopFloat op a b with
    | none => cases op <;> first | rfl | cases order
    | some v =>
      refine numbers ?_ (binopFloat_some (f := fun x y => .bool (numberOrder op x y)) ?_ found)
      · intro left
        cases a <;> cases left
        cases found
      · intro x y
        cases op <;> first | rfl | cases order
  have paths : inlinePath op a b = none ∨
      inlinePath op a b = inlineFloat (fun x y => .bool (numberOrder op x y)) a b := by
    cases op with
    | lt | gt | ge => exact .inr (inlineCompare_others others _ _)
    | le => exact .inl (inlineInt_others others _)
    | _ => cases order
  rw [opcode]
  rcases paths with path | path
  · rw [path]
    exact shared
  · rw [path]
    cases found : inlineFloat (fun x y => bool (numberOrder op x y)) a b with
    | none => exact shared
    | some v =>
      refine numbers ?_ (inlineFloat_some found)
      intro left
      cases a <;> cases left
      cases found

theorem textOrder_eq {x y : Name} {op : BinOp} (order : op.relational = true)
    (agrees : OrderAgrees (.string x) (.string y)) :
    textOrder op x y = numberOrder op (stringToDouble x) (stringToDouble y) := by
  obtain ⟨numberX, numberY, less, greater⟩ := agrees
  have total {u v : Double} (numberU : u.isNaN = false) (numberV : v.isNaN = false) :
      u.le v = !v.lt u := by
    unfold Double.le Double.lt
    simp [numberU, numberV, ← decide_not]
  unfold textOrder numberOrder
  cases op with
  | lt => exact Bool.eq_iff_iff.mpr (decide_eq_true_iff.trans less)
  | gt => exact Bool.eq_iff_iff.mpr (decide_eq_true_iff.trans greater)
  | le =>
    rw [total numberX numberY, Bool.eq_iff_iff, Bool.not_eq_true', ← Bool.not_eq_true, ← greater]
    exact decide_eq_true_iff
  | ge =>
    rw [total numberY numberX, Bool.eq_iff_iff, Bool.not_eq_true', ← Bool.not_eq_true, ← less]
    exact decide_eq_true_iff
  | _ => cases order

theorem agree_order (others : Others s a b) (op : BinOp) (order : op.relational = true)
    (agrees : OrderAgrees a b) :
    E.Agree (s.give (.bool (numberOrder op (lr_to_float64 a) (lr_to_float64 b))))
      (opcode E s op a b) := by
  have same : bcv_relational op a b = numberOrder op (lr_to_float64 a) (lr_to_float64 b) := by
    by_cases strings : a.isString = true ∧ b.isString = true
    · cases a <;> cases strings.1
      cases b <;> cases strings.2
      exact textOrder_eq order agrees
    · exact bcv_relational_number fun left => by simpa [left] using strings
  rw [opcode_order others order, same]
  exact refl _

theorem orderAgrees_or_strings (a b : LRValue) :
    (a.isString = true ∧ b.isString = true) ∨ OrderAgrees a b := by
  unfold OrderAgrees
  split
  · exact .inl ⟨rfl, rfl⟩
  · exact .inr trivial

theorem abstract_eq_number (textual : a.tag = .string ∧ (b.tag = .int32 ∨ b.tag = .float64) ∨
      (a.tag = .int32 ∨ a.tag = .float64) ∧ b.tag = .string) :
    E.abstract_eq s a b = some (numberEq a b, s) := by
  rw [abstract_eq.eq_def]
  cases a <;> cases b <;> simp_all [tag]

theorem bcv_abstract_eq_number
    (textual : a.tag = .string ∧ (b.tag = .int32 ∨ b.tag = .float64 ∨ b.tag = .bool) ∨
      (a.tag = .int32 ∨ a.tag = .float64 ∨ a.tag = .bool) ∧ b.tag = .string) :
    E.bcv_abstract_eq s a b = some (numberEq a b, s) := by
  rw [bcv_abstract_eq.eq_def]
  cases a <;> cases b <;> simp_all [tag, bcv_is_number]

variable {x : Name}

theorem abstract_eq_strings {y : Name} :
    E.abstract_eq s (.string x) (.string y) = E.bcv_abstract_eq s (.string x) (.string y) := by
  have same : (string x).tag = (string y).tag := rfl
  rw [abstract_eq_same same, bcv_abstract_eq_same same]

theorem abstract_eq_bool_left {x : Bool} (other : (LRValue.bool x).tag ≠ b.tag) :
    E.abstract_eq s (.bool x) b = E.abstract_eq s (.int32 (if x then 1 else 0)) b := by
  rw [abstract_eq.eq_def, if_neg other]

theorem abstract_eq_bool_right {y : Bool} (other : a.tag ≠ (LRValue.bool y).tag) :
    E.abstract_eq s a (.bool y) = E.abstract_eq s a (.int32 (if y then 1 else 0)) := by
  rw [abstract_eq.eq_def, if_neg other]
  cases a <;> first | rfl | exact absurd rfl other

theorem numberEq_bool (x : Bool) (v : LRValue) :
    numberEq (.bool x) v = numberEq (.int32 (if x then 1 else 0)) v ∧
      numberEq v (.bool x) = numberEq v (.int32 (if x then 1 else 0)) :=
  ⟨rfl, rfl⟩

theorem strict_eq_ints {m n : Int} (rangeM : Double.InInt32 m) (rangeN : Double.InInt32 n) :
    strict_eq (.int32 m) (.int32 n) = numberEq (.int32 m) (.int32 n) :=
  (Double.ceq_ofInt rangeM.exact rangeN.exact).symm

theorem inInt32_bool (x : Bool) : Double.InInt32 (if x then 1 else 0) := by
  cases x <;> decide

/-- The two engines compare alike except for an integer or boolean and a double. -/
theorem abstract_eq_eq (operandA : a.Operand) (operandB : b.Operand) (notMixed : ¬ Mixed a b) :
    E.abstract_eq s a b = E.bcv_abstract_eq s a b := by
  by_cases same : a.tag = b.tag
  · rw [abstract_eq_same same, bcv_abstract_eq_same same]
  · cases a with
    | bool x =>
      rw [abstract_eq_bool_left same]
      cases b with
      | int32 n =>
        have ints : (int32 (if x then 1 else 0)).tag = (int32 n).tag := rfl
        rw [abstract_eq_same ints, strict_eq_ints (inInt32_bool x) operandB,
          ← (numberEq_bool x _).1, bcv_abstract_eq.eq_def]
        simp [tag, bcv_is_number]
      | _ =>
        rw [abstract_eq.eq_def, bcv_abstract_eq.eq_def]
        simp_all [tag, bcv_is_number, abstract_eq_number, bcv_abstract_eq_number,
          numberEq_bool, Mixed, isIntegral, LRValue.Operand]
    | int32 m =>
      cases b with
      | bool y =>
        have ints : (int32 m).tag = (int32 (if y then 1 else 0)).tag := rfl
        rw [abstract_eq_bool_right same, abstract_eq_same ints,
          strict_eq_ints operandA (inInt32_bool y), ← (numberEq_bool y _).2,
          bcv_abstract_eq.eq_def]
        simp [tag, bcv_is_number]
      | _ =>
        rw [abstract_eq.eq_def, bcv_abstract_eq.eq_def]
        simp_all [tag, bcv_is_number, abstract_eq_number, bcv_abstract_eq_number,
          Mixed]
    | _ =>
      cases b with
      | bool y =>
        rw [abstract_eq_bool_right same, abstract_eq.eq_def,
          bcv_abstract_eq.eq_def]
        simp_all [tag, bcv_is_number, abstract_eq_number, bcv_abstract_eq_number,
          numberEq_bool, Mixed, isIntegral, LRValue.Operand]
      | _ =>
        rw [abstract_eq.eq_def, bcv_abstract_eq.eq_def]
        simp_all [tag, bcv_is_number, abstract_eq_number, bcv_abstract_eq_number,
          abstract_eq_strings, Mixed]

theorem abstract_eq_mixed (mixed : Mixed a b) : E.abstract_eq s a b = some (false, s) := by
  have integers {n : Int} {d : Double} : E.abstract_eq s (.int32 n) (.float64 d) = some (false, s) ∧
      E.abstract_eq s (.float64 d) (.int32 n) = some (false, s) := by
    constructor <;> rw [abstract_eq.eq_def] <;> simp [tag]
  rcases mixed with ⟨integral, double⟩ | ⟨double, integral⟩
  · cases b <;> cases double
    cases a with
    | int32 n => exact integers.1
    | bool x =>
      rw [abstract_eq_bool_left (by simp [tag])]
      exact integers.1
    | _ => cases integral
  · cases a <;> cases double
    cases b with
    | int32 n => exact integers.2
    | bool x =>
      rw [abstract_eq_bool_right (by simp [tag])]
      exact integers.2
    | _ => cases integral

theorem opcode_eq_mixed (mixed : Mixed a b) :
    opcode E s .eq a b = s.give (.bool (numberEq a b)) ∧
      opcode E s .ne a b = s.give (.bool (!numberEq a b)) := by
  have booleans {x : Bool} {d : Double} :
      E.bcv_abstract_eq s (.bool x) (.float64 d) = some (numberEq (.bool x) (.float64 d), s) ∧
        E.bcv_abstract_eq s (.float64 d) (.bool x) = some (numberEq (.float64 d) (.bool x), s) := by
    constructor <;> rw [bcv_abstract_eq.eq_def] <;> simp [tag, bcv_is_number]
  rcases mixed with ⟨integral, double⟩ | ⟨double, integral⟩
  · cases b <;> cases double
    cases a with
    | int32 n => exact ⟨rfl, rfl⟩
    | bool x =>
      constructor
      · change (E.bcv_abstract_eq s _ _ >>= _) = _
        rw [booleans.1]
        rfl
      · change (E.bcv_abstract_eq s _ _ >>= _) = _
        rw [booleans.1]
        rfl
    | _ => cases integral
  · cases a <;> cases double
    cases b with
    | int32 n => exact ⟨rfl, rfl⟩
    | bool x =>
      constructor
      · change (E.bcv_abstract_eq s _ _ >>= _) = _
        rw [booleans.2]
        rfl
      · change (E.bcv_abstract_eq s _ _ >>= _) = _
        rw [booleans.2]
        rfl
    | _ => cases integral

/-- The machine compares operands as `bcv_abstract_eq` does. -/
theorem opcode_eq (others : Others s a b) (notMixed : ¬ Mixed a b) :
    opcode E s .eq a b = (do
      let (equal, s) ← E.bcv_abstract_eq s a b
      s.give (.bool equal)) ∧
    opcode E s .ne a b = (do
      let (equal, s) ← E.bcv_abstract_eq s a b
      s.give (.bool (!equal))) := by
  by_cases floats : a.tag = .float64 ∧ b.tag = .float64
  · have same : E.bcv_abstract_eq s a b = some (strict_eq a b, s) :=
      bcv_abstract_eq_same (floats.1.trans floats.2.symm)
    rw [same]
    cases a <;> cases floats.1
    cases b <;> cases floats.2
    exact ⟨rfl, rfl⟩
  · have noInline (f : Double → Double → LRValue) : inlineFloat f a b = none := by
      unfold inlineFloat
      split
      · exact absurd ⟨rfl, rfl⟩ floats
      · exact absurd (.inl ⟨rfl, rfl⟩) notMixed
      · exact absurd (.inr ⟨rfl, rfl⟩) notMixed
      · rfl
    have noFloat (op : BinOp) : binopFloat op a b = none := by
      unfold binopFloat
      split
      · exact absurd ⟨rfl, rfl⟩ floats
      · rfl
    constructor <;>
      rw [opcode, inlinePath, inlineCompare_others others, noInline, orBinop,
        bcv_binop_others others, noFloat] <;> rfl

theorem agree_eq (clean : s.error = none) (others : Others s a b) (operandA : a.Operand)
    (operandB : b.Operand) :
    (E.Agree (treeGeneric E s .eq a b) (opcode E s .eq a b) ↔ ¬ (Mixed a b ∧ numberEq a b)) ∧
      (E.Agree (treeGeneric E s .ne a b) (opcode E s .ne a b) ↔ ¬ (Mixed a b ∧ numberEq a b)) := by
  by_cases mixed : Mixed a b
  · have tree : treeGeneric E s .eq a b = s.give (.bool false) ∧
        treeGeneric E s .ne a b = s.give (.bool true) := by
      simp only [treeGeneric, abstract_eq_mixed mixed]
      exact ⟨rfl, rfl⟩
    rw [tree.1, tree.2, (opcode_eq_mixed mixed).1, (opcode_eq_mixed mixed).2,
      agree_give clean, agree_give clean, same_bool, same_bool]
    cases numberEq a b <;> simp [mixed]
  · have same := abstract_eq_eq (E := E) (s := s) operandA operandB mixed
    rw [(opcode_eq others mixed).1, (opcode_eq others mixed).2, ← same]
    exact ⟨iff_of_true (refl _) fun both => mixed both.1,
      iff_of_true (refl _) fun both => mixed both.1⟩

theorem opcode_strict (others : Others s a b) :
    opcode E s .strictEq a b = s.give (.bool (strict_eq a b)) ∧
      opcode E s .strictNe a b = s.give (.bool (!strict_eq a b)) := by
  by_cases floats : a.tag = .float64 ∧ b.tag = .float64
  · cases a <;> cases floats.1
    cases b <;> cases floats.2
    exact ⟨rfl, rfl⟩
  · have noPath (f : Int → Int → Bool) (g : Double → Double → Bool) :
        inlineStrict f g a b = none := by
      unfold inlineStrict
      split
      · exact absurd ⟨rfl, rfl⟩ floats
      · exact absurd rfl (others.notInts rfl)
      · rfl
    have noFloat (op : BinOp) : binopFloat op a b = none := by
      unfold binopFloat
      split
      · exact absurd ⟨rfl, rfl⟩ floats
      · rfl
    constructor <;>
      rw [opcode, inlinePath, noPath, orBinop, bcv_binop_others others, noFloat] <;> rfl

theorem agree_strict (others : Others s a b) :
    E.Agree (treeGeneric E s .strictEq a b) (opcode E s .strictEq a b) ∧
      E.Agree (treeGeneric E s .strictNe a b) (opcode E s .strictNe a b) := by
  rw [(opcode_strict others).1, (opcode_strict others).2]
  exact ⟨refl _, refl _⟩

theorem cstring_eq_self : cstring x = x ↔ (LRValue.string x).Plain := by
  unfold cstring LRValue.Plain
  rw [← String.toList_inj, String.toList_ofList, takeWhile_eq_self_iff]
  constructor
  · intro plain member
    simpa using plain _ member
  · intro absent c member
    simp only [ne_eq, decide_eq_true_eq]
    rintro rfl
    exact absent member

theorem cstring_append {y : Name} :
    cstring x ++ cstring y = x ++ y ↔ cstring x = x ∧ cstring y = y := by
  have shorter (z : Name) : (cstring z).toList.length ≤ z.toList.length := by
    unfold cstring
    rw [String.toList_ofList]
    exact (List.takeWhile_prefix _).length_le
  constructor
  · intro same
    have lists := congrArg String.toList same
    rw [String.toList_append, String.toList_append] at lists
    have lengths := congrArg length lists
    rw [length_append, length_append] at lengths
    have left := shorter x
    have right := shorter y
    obtain ⟨sameLeft, sameRight⟩ := append_inj lists (by omega)
    exact ⟨String.toList_inj.mp sameLeft, String.toList_inj.mp sameRight⟩
  · rintro ⟨left, right⟩
    rw [left, right]

theorem cstring_append_left {t : Name} : cstring x ++ t = x ++ t ↔ cstring x = x := by
  rw [← String.toList_inj, String.toList_append, String.toList_append, append_left_inj,
    String.toList_inj]

theorem cstring_append_right {t y : Name} : t ++ cstring y = t ++ y ↔ cstring y = y := by
  rw [← String.toList_inj, String.toList_append, String.toList_append, append_right_inj,
    String.toList_inj]

theorem lr_to_cstring_string : E.lr_to_cstring s (.string x) = some (cstring x, s) := by
  unfold lr_to_cstring
  cases E.fuel <;> rfl

theorem lr_to_cstring_int32 {n : Int} : E.lr_to_cstring s (.int32 n) = some (toString n, s) := by
  unfold lr_to_cstring
  cases E.fuel <;> rfl

theorem lr_to_cstring_float64 : E.lr_to_cstring s (.float64 d) = some (floatText d, s) := by
  unfold lr_to_cstring
  cases E.fuel <;> rfl

/-- Two operations on one text agree exactly if they give the same text. -/
theorem agree_text {result : Option (Name × EngineState)} (f g : Name → Name) :
    E.Agree (result >>= fun got => got.2.give (.string (f got.1)))
        (result >>= fun got => got.2.give (.string (g got.1))) ↔
      ∀ text after, result = some (text, after) → after.error = none → f text = g text := by
  cases result with
  | none => exact iff_of_true rel_none_none nofun
  | some got =>
    obtain ⟨text, after⟩ := got
    cases raised : after.error with
    | none =>
      refine (agree_give raised).trans (same_string.trans ?_)
      constructor
      · intro same _ _ found _
        cases found
        exact same
      · intro same
        exact same text after rfl raised
    | some e =>
      refine iff_of_true ?_ ?_
      · refine rel_some_some.mpr ?_
        unfold Engine.SameOutcome
        simp only [raised]
      · intro _ _ found quiet
        cases found
        rw [raised] at quiet
        cases quiet

theorem not_agree_text (clean : s.error = none) {v : LRValue}
    (number : v.number? = some d) (result : Option (Name × EngineState)) :
    ¬ E.Agree (s.give v) (result >>= fun got => got.2.give (.string got.1)) := by
  cases result with
  | none => exact not_rel_some_none
  | some got =>
    intro agree
    have same := rel_some_some.mp agree
    have noNumber : (string got.1).number? = none := rfl
    unfold Engine.SameOutcome at same
    cases raised : got.2.error with
    | none =>
      simp only [clean, raised, Computed.Same, LRValue.Same, number, noNumber] at same
    | some e => simp only [clean, raised] at same

theorem tree_add_text (textual : a.isString ∨ b.isString) :
    treeGeneric E s .add a b =
      (E.lr_to_cstring s a >>= fun left => E.lr_to_cstring left.2 b >>= fun right =>
        right.2.give (.string (left.1 ++ right.1))) := by
  simp only [treeGeneric, if_pos textual]

theorem bcv_concat_left : bcv_concat E s (.string x) b =
    match b with
    | .string y => s.give (.string (x ++ y))
    | b => E.lr_to_cstring s b >>= fun right => right.2.give (.string (x ++ right.1)) := by
  cases b with
  | int32 n =>
    simp only [bcv_concat, lr_to_cstring_int32]
    rfl
  | float64 d =>
    simp only [bcv_concat, lr_to_cstring_float64]
    rfl
  | _ => rfl

theorem bcv_concat_other (notString : a.isString = false) : bcv_concat E s a b =
    (E.lr_to_cstring s a >>= fun left => E.lr_to_cstring left.2 b >>= fun right =>
      right.2.give (.string (left.1 ++ right.1))) := by
  cases a <;> first | rfl | cases notString

theorem bcv_binop_text (textual : a.isString ∨ b.isString) :
    bcv_binop E s .add a b = bcv_concat E s a b := by
  have noFloat : binopFloat .add a b = none := by
    unfold binopFloat
    split
    · rcases textual with left | right
      · cases left
      · cases right
    · rfl
  have noInts : a.tag = .int32 → b.tag ≠ .int32 := by
    intro left right
    cases a <;> cases left
    cases b <;> cases right
    rcases textual with left | right
    · cases left
    · cases right
  have noBigints : (a.bigint? s).isSome → b.bigint? s = none := by
    intro left
    cases a <;> first | cases left | skip
    cases b <;> first | rfl | skip
    rcases textual with left | right
    · cases left
    · cases right
  rw [bcv_binop_others ⟨noInts, noBigints⟩, noFloat]
  simp only [binopGeneric, if_pos textual]

theorem noInline_text (textual : a.isString ∨ b.isString) (f : Double → Double → LRValue) :
    inlineFloat f a b = none := by
  unfold inlineFloat
  split
  · rcases textual with left | right
    · cases left
    · cases right
  · rcases textual with left | right
    · cases left
    · cases right
  · rcases textual with left | right
    · cases left
    · cases right
  · rfl

variable {form : Form}

/-- `+` on a text concatenates as the tree-walker does, or by the path for an integer. -/
theorem exec_text (textual : a.isString ∨ b.isString) (carried : form.Carries .add b) :
    (form = .opcode → a.tag = .int32 → b.tag ≠ .string) ∧
        form.exec E s .add a b = bcv_concat E s a b ∨
      ∃ m y, a = .int32 m ∧ b = .string y ∧ form = .opcode ∧
        form.exec E s .add a b = s.give (.string (toString m ++ y)) := by
  have shared := bcv_binop_text (E := E) (s := s) textual
  have noFloat := noInline_text textual fun x y => .float64 (x.add y)
  cases form with
  | opcode =>
    change (_ ∧ orBinop E s .add (inlineAdd a b) a b = _) ∨ ∃ m y, a = _ ∧ b = _ ∧ _ ∧
      orBinop E s .add (inlineAdd a b) a b = _
    unfold inlineAdd
    split
    · rcases textual with left | right
      · cases left
      · cases right
    · exact .inl ⟨nofun, rfl⟩
    · exact .inl ⟨nofun, rfl⟩
    · exact .inr ⟨_, _, rfl, rfl, rfl, rfl⟩
    · next notSpecial =>
        refine .inl ⟨?_, ?_⟩
        · intro _ left right
          cases a <;> cases left
          cases b <;> cases right
          exact notSpecial _ _ rfl rfl
        · rw [noFloat]
          exact shared
  | addSelf =>
    refine .inl ⟨nofun, ?_⟩
    change orBinop E s .add (addSelfPath a b) a b = _
    unfold addSelfPath
    split
    · rfl
    · rfl
    · exact shared
  | loadPropAdd hit =>
    refine .inl ⟨nofun, ?_⟩
    cases hit with
    | false => exact shared
    | true =>
      change orBinop E s .add (loadPropAddPath a b) a b = _
      unfold loadPropAddPath
      split
      · rcases textual with left | right
        · cases left
        · cases right
      · rw [noFloat]
        exact shared
  | mulSelf => cases carried
  | localLtImm imm => cases carried.1

/-- On a text the engines add alike exactly on the condition. -/
theorem agree_add_text (clean : s.error = none) (textual : a.isString ∨ b.isString)
    (carried : form.Carries .add b) :
    E.Agree (treeGeneric E s .add a b) (form.exec E s .add a b) ↔ ConcatAgrees E s form a b := by
  rw [tree_add_text textual]
  rcases exec_text (E := E) (s := s) textual carried with ⟨notSpecial, concat⟩ |
    ⟨m, y, rfl, rfl, rfl, special⟩
  · rw [concat]
    cases left : a.isString with
    | true =>
      cases a <;> cases left
      next x =>
      rw [lr_to_cstring_string, bcv_concat_left]
      cases right : b.isString with
      | true =>
        cases b <;> cases right
        next y =>
        change E.Agree (E.lr_to_cstring s (.string y) >>= _) _ ↔ _
        rw [lr_to_cstring_string]
        refine (agree_give clean).trans (same_string.trans ?_)
        exact cstring_append.trans (and_congr cstring_eq_self cstring_eq_self)
      | false =>
        have texts : E.Agree
            (E.lr_to_cstring s b >>= fun got => got.2.give (.string (cstring x ++ got.1)))
            (E.lr_to_cstring s b >>= fun got => got.2.give (.string (x ++ got.1))) ↔ _ :=
          agree_text (fun text => cstring x ++ text) (fun text => x ++ text)
        have condition : (∀ text after, E.lr_to_cstring s b = some (text, after) →
            after.error = none → cstring x ++ text = x ++ text) ↔
              (string x).Plain ∨ E.Textless s b := by
          simp only [cstring_append_left, cstring_eq_self]
          constructor
          · intro all
            by_cases plain : (string x).Plain
            · exact .inl plain
            · exact .inr fun text after found quiet => plain (all text after found quiet)
          · rintro (plain | textless) text after found quiet
            · exact plain
            · exact absurd quiet (textless text after found)
        cases b <;> first | cases right; done | exact texts.trans condition
    | false =>
      have always : ConcatAgrees E s form a b := by
        unfold ConcatAgrees
        split
        · cases left
        · cases left
        · intro isOpcode
          exact absurd rfl (notSpecial isOpcode rfl)
        · trivial
      rw [bcv_concat_other left]
      exact iff_of_true (refl _) always
  · rw [special, lr_to_cstring_int32]
    change E.Agree (E.lr_to_cstring s (.string y) >>= _) _ ↔ _
    rw [lr_to_cstring_string]
    refine (agree_give clean).trans (same_string.trans ?_)
    rw [cstring_append_right, cstring_eq_self]
    exact ⟨fun plain _ => plain, fun plain => plain rfl⟩

theorem exec_add_path (others : Others s a b) (notText : ¬ (a.isString ∨ b.isString))
    (carried : form.Carries .add b) :
    ∃ path, (path = none ∨ path = inlineFloat (fun x y => .float64 (x.add y)) a b) ∧
      form.exec E s .add a b = orBinop E s .add path a b := by
  cases form with
  | opcode =>
    refine ⟨_, .inr ?_, rfl⟩
    change inlineAdd a b = _
    unfold inlineAdd
    split
    · exact absurd rfl (others.notInts rfl)
    · exact absurd (.inl rfl) notText
    · exact absurd (.inl rfl) notText
    · exact absurd (.inr rfl) notText
    · rfl
  | addSelf =>
    refine ⟨_, .inl ?_, rfl⟩
    unfold addSelfPath
    split
    · exact absurd (.inl rfl) notText
    · exact absurd (.inl rfl) notText
    · rfl
  | loadPropAdd hit =>
    cases hit with
    | false => exact ⟨_, .inl rfl, rfl⟩
    | true => exact ⟨_, .inr (loadPropAddPath_others others), rfl⟩
  | mulSelf => cases carried
  | localLtImm imm => cases carried.1

theorem noInline_object (object : a.isObject ∨ b.isObject) (f : Double → Double → LRValue) :
    inlineFloat f a b = none ∧ binopFloat .add a b = none := by
  rcases object with left | right
  · cases a <;> cases left
    exact ⟨rfl, rfl⟩
  · cases b <;> cases right
    cases a <;> exact ⟨rfl, rfl⟩

def LRValue.OtherObject (s : EngineState) (v : LRValue) : Prop :=
  v.isObject ∧ (v.bigint? s).isNone

theorem exec_add_objects (others : Others s a b) (notText : ¬ (a.isString ∨ b.isString))
    (objects : a.OtherObject s ∨ b.OtherObject s) (carried : form.Carries .add b) :
    form.exec E s .add a b = bcv_concat E s a b := by
  obtain ⟨path, paths, vm⟩ := exec_add_path (E := E) others notText carried
  have object : a.isObject ∨ b.isObject := objects.imp And.left And.left
  obtain ⟨noInline, noFloat⟩ := noInline_object object fun x y => .float64 (x.add y)
  have noPath : path = none := paths.elim id fun same => same.trans noInline
  unfold LRValue.OtherObject at objects
  rw [vm, noPath, orBinop, bcv_binop_others others, noFloat]
  simp only [binopGeneric, if_neg notText, if_pos objects]

theorem exec_add_numbers (others : Others s a b) (notText : ¬ (a.isString ∨ b.isString))
    (noObjects : ¬ (a.OtherObject s ∨ b.OtherObject s)) (carried : form.Carries .add b) :
    s.GivesNumber (form.exec E s .add a b) ((lr_to_float64 a).add (lr_to_float64 b)) := by
  obtain ⟨path, paths, vm⟩ := exec_add_path (E := E) others notText carried
  unfold LRValue.OtherObject at noObjects
  have generic : binopGeneric E s .add a b =
      s.give (.bcv_number ((lr_to_float64 a).add (lr_to_float64 b))) := by
    simp only [binopGeneric, if_neg notText, if_neg noObjects]
  rw [vm]
  exact orBinop_number others paths (fun _ _ => rfl) ⟨_, generic, number?_bcv_number _⟩

/-- On operands without texts the engines add alike exactly on the condition. -/
theorem agree_add (clean : s.error = none) (others : Others s a b) (carried : form.Carries .add b) :
    E.Agree (treeGeneric E s .add a b) (form.exec E s .add a b) ↔ AddAgrees E s form a b := by
  unfold AddAgrees
  by_cases textual : a.isString ∨ b.isString
  · rw [if_pos textual]
    exact agree_add_text clean textual carried
  · rw [if_neg textual]
    have tree : treeGeneric E s .add a b =
        s.give (.demoted ((lr_to_float64 a).add (lr_to_float64 b))) := by
      simp only [treeGeneric, if_neg textual]
    rw [tree]
    by_cases objects : a.OtherObject s ∨ b.OtherObject s
    · have notString : a.isString = false := by
        simpa using fun left => textual (.inl left)
      have concat : bcv_concat E s a b =
          (E.lr_to_cstring s a >>= fun left => E.lr_to_cstring left.2 b >>= fun right =>
            some (left.1 ++ right.1, right.2)) >>= fun got => got.2.give (.string got.1) := by
        rw [bcv_concat_other notString]
        cases E.lr_to_cstring s a with
        | none => rfl
        | some left =>
          change (E.lr_to_cstring left.2 b >>= _) = (E.lr_to_cstring left.2 b >>= _) >>= _
          cases E.lr_to_cstring left.2 b <;> rfl
      rw [exec_add_objects others textual objects carried, concat]
      refine iff_of_false (not_agree_text clean (number?_demoted _) _) ?_
      rintro ⟨left, right, -⟩
      exact objects.elim left right
    · refine (agree_demoted clean (exec_add_numbers others textual objects carried)).trans ?_
      unfold LRValue.OtherObject at objects
      rw [not_or] at objects
      simp only [objects.1, objects.2, not_false_eq_true, true_and]
      exact not_congr Double.add_eq_negZero

theorem noFloat_object (object : op = .in ∨ op = .instanceof) : binopFloat op a b = none := by
  unfold binopFloat
  split
  · rcases object with rfl | rfl <;> rfl
  · rfl

theorem Form.Carries.opcode_of {op : BinaryOp} (carried : form.Carries op b)
    (plain : op ≠ .add ∧ op ≠ .mul ∧ op ≠ .lt) : form = .opcode := by
  cases form with
  | opcode => rfl
  | addSelf | loadPropAdd hit => exact absurd carried plain.1
  | mulSelf => exact absurd carried plain.2.1
  | localLtImm imm => exact absurd carried.1 plain.2.2

theorem agree_localLtImm {imm : Int} (others : Others s a (.int32 imm)) :
    E.Agree (treeGeneric E s .lt a (.int32 imm))
      ((Form.localLtImm imm).exec E s .lt a (.int32 imm)) := by
  cases a with
  | int32 n => exact absurd rfl (others.notInts rfl)
  | _ => exact refl _

/-- What holds on the listed operands, and only there unless strings are read. -/
def Settles (agree agrees textual : Prop) : Prop :=
  (agrees → agree) ∧ (agree → textual ∨ agrees)

theorem Settles.of_iff {agree agrees textual : Prop} (same : agree ↔ agrees) :
    Settles agree agrees textual :=
  ⟨same.mpr, fun agree => .inr (same.mp agree)⟩

theorem settles_bits (others : Others s a b) (operandA : a.Operand) (operandB : b.Operand)
    (op : BinOp) (bits : op.bitwise = true) :
    Settles (E.Agree ((treeBits op (lr_to_float64 a) (lr_to_float64 b)).bind s.give)
      (opcode E s op a b)) (BitsAgree op a b) (a.isString = true ∨ b.isString = true) := by
  refine ⟨agree_bits others op bits, fun agree => ?_⟩
  by_cases strings : a.isString = true ∨ b.isString = true
  · exact .inl strings
  · exact .inr (bitsAgree_of_agree others operandA operandB op bits strings agree)

theorem settles_order (others : Others s a b) (op : BinOp) (order : op.relational = true) :
    Settles (E.Agree (s.give (.bool (numberOrder op (lr_to_float64 a) (lr_to_float64 b))))
      (opcode E s op a b)) (OrderAgrees a b) (a.isString = true ∧ b.isString = true) :=
  ⟨agree_order others op order, fun _ => orderAgrees_or_strings a b⟩

/-- On operands that are neither two integers nor two BigInts the table settles the agreement. -/
theorem agree_others (clean : s.error = none) (others : Others s a b) (operandA : a.Operand)
    (operandB : b.Operand) {op : BinaryOp} (carried : form.Carries op b) :
    Settles (E.Agree (eval_binary E s op a b) (form.exec E s op a b)) (OthersAgree E s form op a b)
      (Textual op a b) := by
  have generic (op : BinaryOp) (found : binop_of op ≠ none) :
      eval_binary E s op a b = treeGeneric E s op a b := by
    unfold eval_binary
    cases op <;> first | exact absurd rfl found | simp only [treeInt_others others]
  by_cases logical : binop_of op = none
  · obtain rfl := carried.opcode_of (by cases op <;> first | decide | cases logical)
    refine .of_iff (iff_of_true (agree_logical logical) ?_)
    cases op <;> trivial
  · rw [generic op logical]
    cases op with
    | add => exact .of_iff (agree_add clean others carried)
    | mul =>
      cases form with
      | opcode | mulSelf => exact .of_iff (agree_mul clean others)
      | addSelf | loadPropAdd hit => cases carried
      | localLtImm imm => cases carried.1
    | lt =>
      cases form with
      | opcode => exact settles_order others .lt rfl
      | localLtImm imm =>
        obtain rfl := carried.2
        refine .of_iff (iff_of_true (agree_localLtImm others) ?_)
        cases a <;> trivial
      | addSelf | mulSelf | loadPropAdd hit => cases carried
    | andAnd | orOr | nullish => exact absurd rfl logical
    | sub =>
      obtain rfl := carried.opcode_of (by decide)
      exact .of_iff (agree_sub clean others)
    | div =>
      obtain rfl := carried.opcode_of (by decide)
      exact .of_iff (iff_of_true (agree_div clean others) trivial)
    | mod =>
      obtain rfl := carried.opcode_of (by decide)
      exact .of_iff (agree_mod clean others)
    | pow =>
      obtain rfl := carried.opcode_of (by decide)
      exact .of_iff (iff_of_true (agree_pow others) trivial)
    | gt =>
      obtain rfl := carried.opcode_of (by decide)
      exact settles_order others .gt rfl
    | le =>
      obtain rfl := carried.opcode_of (by decide)
      exact settles_order others .le rfl
    | ge =>
      obtain rfl := carried.opcode_of (by decide)
      exact settles_order others .ge rfl
    | eq =>
      obtain rfl := carried.opcode_of (by decide)
      exact .of_iff (agree_eq clean others operandA operandB).1
    | ne =>
      obtain rfl := carried.opcode_of (by decide)
      exact .of_iff (agree_eq clean others operandA operandB).2
    | strictEq =>
      obtain rfl := carried.opcode_of (by decide)
      exact .of_iff (iff_of_true (agree_strict others).1 trivial)
    | strictNe =>
      obtain rfl := carried.opcode_of (by decide)
      exact .of_iff (iff_of_true (agree_strict others).2 trivial)
    | shl =>
      obtain rfl := carried.opcode_of (by decide)
      exact settles_bits others operandA operandB .shl rfl
    | sar =>
      obtain rfl := carried.opcode_of (by decide)
      exact settles_bits others operandA operandB .sar rfl
    | shr =>
      obtain rfl := carried.opcode_of (by decide)
      exact settles_bits others operandA operandB .shr rfl
    | bitAnd =>
      obtain rfl := carried.opcode_of (by decide)
      exact settles_bits others operandA operandB .bitAnd rfl
    | bitOr =>
      obtain rfl := carried.opcode_of (by decide)
      exact settles_bits others operandA operandB .bitOr rfl
    | bitXor =>
      obtain rfl := carried.opcode_of (by decide)
      exact settles_bits others operandA operandB .bitXor rfl
    | «in» =>
      obtain rfl := carried.opcode_of (by decide)
      refine .of_iff (iff_of_true ?_ trivial)
      change E.Agree _ (bcv_binop E s .in a b)
      rw [bcv_binop_others others, noFloat_object (.inl rfl)]
      exact refl _
    | «instanceof» =>
      obtain rfl := carried.opcode_of (by decide)
      refine .of_iff (iff_of_true ?_ trivial)
      change E.Agree _ (bcv_binop E s .instanceof a b)
      rw [bcv_binop_others others, noFloat_object (.inr rfl)]
      exact refl _

end Others

/-! ## The table of the exceptions -/

theorem operandsAgree_others {E : Engine} {s : EngineState} {a b : LRValue} (others : Others s a b)
    {form : Form} {op : BinaryOp} :
    OperandsAgree E s form op a b = OthersAgree E s form op a b := by
  unfold OperandsAgree
  split
  · exact absurd rfl (others.notInts rfl)
  · next x y foundX foundY =>
      rw [others.notBigints (by rw [foundX]; rfl)] at foundY
      cases foundY
  · rfl

/-- The engines agree on an operator where its operands are none of the exceptions; and only there,
unless the operator reads a string as an integer, or the order of two strings. -/
theorem operators_agree (E : Engine) {s : EngineState} (clean : s.error = none)
    {a b : LRValue} (operandA : a.Operand) (operandB : b.Operand)
    {form : Form} {op : BinaryOp} (carried : form.Carries op b) :
    (OperandsAgree E s form op a b → E.Agree (eval_binary E s op a b) (form.exec E s op a b)) ∧
      (E.Agree (eval_binary E s op a b) (form.exec E s op a b) →
        Textual op a b ∨ OperandsAgree E s form op a b) := by
  by_cases ints : a.tag = .int32 ∧ b.tag = .int32
  · cases a <;> cases ints.1
    cases b <;> cases ints.2
    exact Settles.of_iff (agree_ints clean operandA operandB carried)
  · by_cases bigints : (a.bigint? s).isSome ∧ (b.bigint? s).isSome
    · obtain ⟨x, foundX⟩ := isSome_iff_exists.mp bigints.1
      obtain ⟨y, foundY⟩ := isSome_iff_exists.mp bigints.2
      cases a <;> try cases foundX
      cases b <;> try cases foundY
      next p q =>
      have table : OperandsAgree E s form op (.object p) (.object q) =
          BigintsAgree op x y (object p = .object q) := by
        simp only [OperandsAgree, foundX, foundY]
      rw [table]
      exact Settles.of_iff (agree_bigints clean foundX foundY carried)
    · have others : Others s a b :=
        ⟨fun left right => ints ⟨left, right⟩,
          fun left => not_isSome_iff_eq_none.mp fun right => bigints ⟨left, right⟩⟩
      rw [operandsAgree_others others]
      exact agree_others clean others operandA operandB carried

def Engine.bare : Engine where
  fuel := 0
  global_obj := .undefined
  run _ s := some (.undefined, s)
  pow x _ := x
  errorName _ := "Error"

def EngineState.fresh : EngineState where
  heap := ⟨fun _ => none, fun _ => none, fun _ => 0, 0⟩
  bigints _ := none
  natives _ := ""
  error := none

theorem operators_agree_sum :
    Engine.bare.Agree (eval_binary .bare .fresh .add (.int32 2) (.int32 3))
      (Form.opcode.exec .bare .fresh .add (.int32 2) (.int32 3)) := by
  have two : Double.InInt32 2 := by decide
  have three : Double.InInt32 3 := by decide
  have carried : Form.opcode.Carries .add (.int32 3) := trivial
  have sum : Double.InInt32 (2 + 3) := by decide
  exact (operators_agree .bare (a := .int32 2) (b := .int32 3) rfl two three carried).1 sum

/-- `2147483647 + 1` wraps in the tree-walker. -/
theorem overflow_disagrees :
    ¬ Engine.bare.Agree (eval_binary .bare .fresh .add (.int32 2147483647) (.int32 1))
      (Form.opcode.exec .bare .fresh .add (.int32 2147483647) (.int32 1)) := by
  have outside : ¬ Double.InInt32 (2147483647 + 1) := by decide
  have carried : Form.opcode.Carries .add (.int32 1) := trivial
  exact fun agree => outside ((agree_ints rfl (by decide) (by decide) carried).mp agree)

end LRJS
