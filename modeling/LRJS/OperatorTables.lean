import LRJS.Operators

/-!
# When operator tables agree

When `eval_binary` and the opcode of an operator have the same value.  The
operands are sorted into two `int32_t`, two BigInts, and the others; for each of
the three the table of the exceptions is written down operator by operator, and
the first two are settled here.
-/

namespace LRJS

open List Option Double LRValue Engine

namespace LRValue

def number? : LRValue → Option Double
  | .int32 n => some (.ofInt n)
  | .float64 d => some d
  | _ => none

def Same (v w : LRValue) : Prop :=
  match v.number?, w.number? with
  | some x, some y => x.Same y
  | none, none => v = w
  | _, _ => False

def Operand : LRValue → Prop
  | .int32 n => Double.InInt32 n
  | .symbol _ | .exception => False
  | _ => True

end LRValue

def Computed.Same : Computed → Computed → Prop
  | .value v, .value w => v.Same w
  | .bigint m, .bigint n => m = n
  | _, _ => False

def Engine.SameOutcome (E : Engine) (x y : Computed × EngineState) : Prop :=
  match x.2.error, y.2.error with
  | none, none => x.1.Same y.1
  | some e, some e' => E.errorName e = E.errorName e'
  | _, _ => False

def Engine.Agree (E : Engine) (x y : Option (Computed × EngineState)) : Prop :=
  Option.Rel E.SameOutcome x y

/-- The operators on two `int32_t`: the tree-walker wraps. -/
def IntsAgree (op : BinaryOp) (m n : Int) : Prop :=
  match op with
  | .add => Double.InInt32 (m + n)
  | .sub => Double.InInt32 (m - n)
  | .mul => Double.InInt32 (m * n)
  | _ => True

/-- The operators on two BigInts: the tree-walker has no BigInt arithmetic, and
compares objects. -/
def BigintsAgree (op : BinaryOp) (x y : Int) (sameObject : Prop) : Prop :=
  match op with
  | .lt => ¬ x < y
  | .gt => ¬ y < x
  | .le => ¬ x ≤ y
  | .ge => ¬ y ≤ x
  | .eq | .ne | .strictEq | .strictNe => x = y → sameObject
  | .in | .instanceof | .andAnd | .orOr | .nullish => True
  | _ => False

def LRValue.Plain : LRValue → Prop
  | .string s => '\x00' ∉ s.toList
  | _ => True

def Engine.Textless (E : Engine) (s : EngineState) (v : LRValue) : Prop :=
  ∀ text after, E.lr_to_cstring s v = some (text, after) → after.error ≠ none

def ConcatAgrees (E : Engine) (s : EngineState) (form : Form) (a b : LRValue) : Prop :=
  match a, b with
  | .string _, .string _ => a.Plain ∧ b.Plain
  | .string _, _ => a.Plain ∨ E.Textless s b
  | .int32 _, .string _ => form = .opcode → b.Plain
  | _, _ => True

/-- Addition: objects are text for the virtual machine and numbers for the
tree-walker, which loses `-0 + -0`. -/
def AddAgrees (E : Engine) (s : EngineState) (form : Form) (a b : LRValue) : Prop :=
  if a.isString ∨ b.isString then
    ConcatAgrees E s form a b
  else
    ¬ (a.isObject ∧ (a.bigint? s).isNone) ∧ ¬ (b.isObject ∧ (b.bigint? s).isNone) ∧
      ¬ (lr_to_float64 a = .negZero ∧ lr_to_float64 b = .negZero)

/-- Two strings are numbers, whose order is that of the bytes. -/
def OrderAgrees (a b : LRValue) : Prop :=
  match a, b with
  | .string x, .string y =>
    let dx := stringToDouble x
    let dy := stringToDouble y
    dx.isNaN = false ∧ dy.isNaN = false ∧
      (memcmp x.toList y.toList = .lt ↔ dx.lt dy = true) ∧
      (memcmp x.toList y.toList = .gt ↔ dy.lt dx = true)
  | _, _ => True

/-- An `int32_t` or a boolean. -/
def LRValue.isIntegral (v : LRValue) : Bool :=
  v.tag = .int32 || v.tag = .bool

/-- An `int32_t` or boolean beside a double. -/
def Mixed (a b : LRValue) : Prop :=
  (a.isIntegral ∧ b.tag = .float64) ∨ (a.tag = .float64 ∧ b.isIntegral)

/-- C defines the cast of the operand's double, and `lr_to_int32` gives the same integer. -/
def LRValue.Casts (v : LRValue) : Prop :=
  (lr_to_float64 v).cast? = some (lr_to_int32 v)

def BitsAgree (op : BinOp) (a b : LRValue) : Prop :=
  a.Casts ∧ b.Casts ∧ (op.isShift = true → 0 ≤ lr_to_int32 b ∧ lr_to_int32 b < 32)

def OthersAgree (E : Engine) (s : EngineState) (form : Form) (op : BinaryOp) (a b : LRValue) :
    Prop :=
  let x := lr_to_float64 a
  let y := lr_to_float64 b
  match op with
  | .add => AddAgrees E s form a b
  | .sub => ¬ (x = .negZero ∧ y = .ofInt 0)
  | .mul => ¬ x.Vanishing y
  | .mod => ¬ x.NegativeMultiple y
  | .lt | .gt | .le | .ge => OrderAgrees a b
  | .eq | .ne => ¬ (Mixed a b ∧ numberEq a b)
  | .bitAnd => BitsAgree .bitAnd a b
  | .bitOr => BitsAgree .bitOr a b
  | .bitXor => BitsAgree .bitXor a b
  | .shl => BitsAgree .shl a b
  | .sar => BitsAgree .sar a b
  | .shr => BitsAgree .shr a b
  | _ => True

/-- Operators that read a string in two ways: their results can coincide all the same. -/
def Textual (op : BinaryOp) (a b : LRValue) : Prop :=
  match op with
  | .lt | .gt | .le | .ge => a.isString = true ∧ b.isString = true
  | .bitAnd | .bitOr | .bitXor | .shl | .sar | .shr => a.isString = true ∨ b.isString = true
  | _ => False

def OperandsAgree (E : Engine) (s : EngineState) (form : Form) (op : BinaryOp) (a b : LRValue) :
    Prop :=
  match a, b, a.bigint? s, b.bigint? s with
  | .int32 m, .int32 n, _, _ => IntsAgree op m n
  | _, _, some x, some y => BigintsAgree op x y (a = b)
  | _, _, _, _ => OthersAgree E s form op a b

theorem castInt32_of_inInt32 {n : Int} (range : Double.InInt32 n) : castInt32 n = n := by
  unfold Double.InInt32 at range
  rw [castInt32, BitVec.toInt_ofInt, Int.bmod_eq_of_le (by omega) (by omega)]

theorem inInt32_castInt32 (n : Int) : Double.InInt32 (castInt32 n) := by
  have lower := BitVec.le_toInt (BitVec.ofInt 32 n)
  have upper := BitVec.toInt_lt (x := BitVec.ofInt 32 n)
  unfold Double.InInt32 castInt32
  omega

section Representations

variable {v w : LRValue} {d : Double} {n : Int}

theorem LRValue.Same.refl (v : LRValue) : v.Same v := by
  cases v with
  | int32 n | float64 d => exact Or.inl rfl
  | _ => rfl

theorem Double.same_ofInt_injective {m n : Int} (exactM : Double.Exact m) (exactN : Double.Exact n)
    (same : (Double.ofInt m).Same (.ofInt n)) : m = n := by
  rcases same with equal | ⟨notNumber, -⟩
  · exact ofInt_injective exactM exactN equal
  · rw [isNaN_ofInt] at notNumber
    cases notNumber

theorem LRValue.number?_demoted (d : Double) :
    (LRValue.demoted d).number? = some (if d = .negZero then .ofInt 0 else d) := by
  unfold demoted
  split
  · next n found =>
      obtain ⟨range, integral⟩ := eq_of_int32? found
      rcases integral with rfl | ⟨rfl, rfl⟩
      · rw [number?, if_neg (ofInt_ne_negZero range.exact)]
      · rw [number?, if_pos rfl]
  · next fractional =>
      rw [number?, if_neg]
      rintro rfl
      rw [int32?_negZero] at fractional
      cases fractional

theorem LRValue.number?_bcv_number (d : Double) : (LRValue.bcv_number d).number? = some d := by
  unfold bcv_number
  split
  · rfl
  · next nonzero => rw [number?_demoted, if_neg nonzero]

theorem number?_ofInt64 (k : Int) : (LRValue.ofInt64 k).number? = some (.ofInt k) := by
  unfold ofInt64
  split <;> rfl

theorem Double.not_same_zero : ¬ (Double.ofInt 0).Same .negZero := by
  rintro (same | ⟨notNumber, -⟩)
  · exact ofInt_ne_negZero (by simp [Double.Exact]) same
  · rw [isNaN_ofInt] at notNumber
    cases notNumber

theorem LRValue.same_of_number? {x : Double} (left : v.number? = some x)
    (right : w.number? = some d) : v.Same w ↔ x.Same d := by
  unfold Same
  rw [left, right]

theorem LRValue.demoted_same (number : w.number? = some d) :
    (LRValue.demoted d).Same w ↔ d ≠ .negZero := by
  rw [same_of_number? (number?_demoted d) number]
  split
  · next zero =>
      rw [zero]
      exact iff_of_false not_same_zero (fun nonzero => nonzero rfl)
  · next nonzero => exact iff_of_true (Or.inl rfl) nonzero

/-- A wrapped result is the exact one exactly if that is in the range. -/
theorem LRValue.wrapped_same (exact_ : Double.Exact n) :
    (LRValue.int32 (castInt32 n)).Same (.ofInt64 n) ↔ Double.InInt32 n := by
  unfold ofInt64
  split
  · next range =>
      rw [castInt32_of_inInt32 range]
      exact iff_of_true (Same.refl _) range
  · next outside =>
      refine iff_of_false ?_ outside
      intro same
      have range := inInt32_castInt32 n
      exact outside (same_ofInt_injective range.exact exact_ same ▸ range)

/-- A wrapped product is the exact one exactly if that is in the range. -/
theorem LRValue.product_same {m n : Int} (rangeM : Double.InInt32 m) (rangeN : Double.InInt32 n) :
    (LRValue.int32 (castInt32 (m * n))).Same (.demoted ((Double.ofInt m).mul (.ofInt n))) ↔
      Double.InInt32 (m * n) := by
  have wrapped := inInt32_castInt32 (m * n)
  rw [mul_ofInt rangeM.exact rangeN.exact]
  split
  · next zero =>
      rw [zero.1, demoted, int32?_negZero]
      exact iff_of_true (Same.refl _) (by decide)
  · rw [demoted]
    by_cases exact_ : Double.Exact (m * n)
    · rw [int32?_ofInt exact_]
      by_cases range : Double.InInt32 (m * n)
      · rw [if_pos range, castInt32_of_inInt32 range]
        exact iff_of_true (Same.refl _) range
      · rw [if_neg range]
        refine iff_of_false ?_ range
        intro same
        exact range (same_ofInt_injective wrapped.exact exact_ same ▸ wrapped)
    · have large : 2 ^ 53 ≤ (m * n).natAbs := by
        unfold Double.Exact at exact_
        omega
      have noInteger := int32?_ofInt_large large
      rw [noInteger]
      refine iff_of_false ?_ fun range => exact_ range.exact
      intro same
      rcases same with equal | ⟨notNumber, -⟩
      · rw [← equal, int32?_ofInt wrapped.exact, if_pos wrapped] at noInteger
        cases noInteger
      · rw [isNaN_ofInt] at notNumber
        cases notNumber

theorem LRValue.same_bool {b c : Bool} : (LRValue.bool b).Same (.bool c) ↔ b = c := by
  simp [Same, number?]

theorem LRValue.same_string {x y : Name} : (LRValue.string x).Same (.string y) ↔ x = y := by
  simp [Same, number?]

end Representations

section Outcomes

variable {E : Engine} {s : EngineState} {v w : LRValue}

theorem Engine.agree_give (clean : s.error = none) : E.Agree (s.give v) (s.give w) ↔ v.Same w := by
  unfold Agree EngineState.give
  rw [rel_some_some]
  unfold SameOutcome
  simp only [clean, Computed.Same]

theorem Computed.Same.refl (c : Computed) : c.Same c := by
  cases c with
  | value v => exact LRValue.Same.refl v
  | bigint n => rfl

theorem Engine.Agree.refl (x : Option (Computed × EngineState)) : E.Agree x x := by
  cases x with
  | none => exact rel_none_none
  | some result =>
    refine rel_some_some.mpr ?_
    unfold SameOutcome
    cases result.2.error with
    | none => exact Computed.Same.refl _
    | some e => rfl

theorem Engine.not_agree_bigint (clean : s.error = none) (n : Int) :
    ¬ E.Agree (s.give v) (s.giveBigint n) := by
  unfold Agree EngineState.give EngineState.giveBigint
  unfold SameOutcome
  simp [clean, Computed.Same]

theorem Engine.not_agree_divide (clean : s.error = none) (divide : Int → Int → Int) (x y : Int) :
    ¬ E.Agree (s.give v) (bigintDivide s divide x y) := by
  unfold bigintDivide
  split
  · unfold Agree EngineState.give EngineState.raise EngineState.fail
    unfold SameOutcome
    simp [clean]
  · split
    · exact not_rel_some_none
    · exact not_agree_bigint clean _

theorem treeBits_nan (op : BinOp) (d : Double) : treeBits op nan d = none := by
  have cast : nan.cast? = none := by decide
  rw [treeBits, cast]
  rfl

end Outcomes

section AllOperands

variable {E : Engine} {s : EngineState} {a b : LRValue}

theorem abstract_eq_same (same : a.tag = b.tag) :
    E.abstract_eq s a b = some (strict_eq a b, s) := by
  rw [abstract_eq.eq_def, if_pos same]

theorem bcv_abstract_eq_same (same : a.tag = b.tag) :
    E.bcv_abstract_eq s a b = some (strict_eq a b, s) := by
  rw [bcv_abstract_eq.eq_def, if_pos same]
  rfl

/-- The logical operators agree on all operands. -/
theorem agree_logical {op : BinaryOp} (logical : binop_of op = none) :
    E.Agree (eval_binary E s op a b) (Form.opcode.exec E s op a b) := by
  cases op with
  | andAnd =>
    have same : (if lr_to_bool a then b else a) = if !lr_to_bool a then a else b := by
      cases lr_to_bool a <;> rfl
    change E.Agree (s.give _) (s.give _)
    rw [same]
    exact Engine.Agree.refl _
  | orOr => exact Engine.Agree.refl _
  | nullish =>
    have same : (if a = .null ∨ a = .undefined then b else a) =
        if a.tag ≠ .undefined ∧ a.tag ≠ .null then a else b := by
      cases a <;> rfl
    change E.Agree (s.give _) (s.give _)
    rw [same]
    exact Engine.Agree.refl _
  | _ => cases logical

end AllOperands

section Ints

variable {E : Engine} {s : EngineState} {m n : Int}

theorem inInt32_tmod (rangeN : Double.InInt32 n) (divisor : n ≠ 0) :
    Double.InInt32 (m.tmod n) := by
  have size := Int.natAbs_tmod m n
  have below : m.natAbs % n.natAbs < n.natAbs := Nat.mod_lt _ (by omega)
  unfold Double.InInt32 at *
  omega

theorem bcv_binop_ints (op : BinOp) : bcv_binop E s op (.int32 m) (.int32 n) =
    match binopInt op (.int32 m) (.int32 n) with
    | some v => s.give v
    | none => binopGeneric E s op (.int32 m) (.int32 n) := by
  rfl

theorem opcode_mod_ints (rangeN : Double.InInt32 n) :
    opcode E s .mod (.int32 m) (.int32 n) =
      s.give (if n = 0 then .float64 .nan else .int32 (m.tmod n)) := by
  have path : inlinePath .mod (.int32 m) (.int32 n) = none := rfl
  have zero : (ofInt n).ceq (.ofInt 0) = decide (n = 0) :=
    ceq_ofInt rangeN.exact (by simp [Double.Exact])
  have remainder : (if m = -2 ^ 31 ∧ n = -1 then some (int32 0)
      else some (.int32 (m.tmod n))) = some (.int32 (m.tmod n)) := by
    split
    · next smallest =>
        rw [smallest.1, smallest.2]
        rfl
    · rfl
  rw [opcode, path, orBinop, bcv_binop_ints]
  simp only [binopInt, binopGeneric, lr_to_float64, zero]
  by_cases divisor : n = 0
  · simp [divisor]
  · rw [if_neg divisor, if_neg divisor, remainder]

/-- On two integers `%` agrees. -/
theorem agree_mod_ints (rangeM : Double.InInt32 m) (rangeN : Double.InInt32 n) :
    E.Agree (eval_binary E s .mod (.int32 m) (.int32 n))
      (opcode E s .mod (.int32 m) (.int32 n)) := by
  have zero : (ofInt n).ceq (.ofInt 0) = decide (n = 0) :=
    ceq_ofInt rangeN.exact (by simp [Double.Exact])
  rw [opcode_mod_ints rangeN]
  simp only [eval_binary, treeInt, treeGeneric, lr_to_float64, zero]
  by_cases divisor : n = 0
  · simp only [divisor, decide_true, if_true]
    exact Engine.Agree.refl _
  · have range : Double.InInt32 (m.tmod n) := inInt32_tmod rangeN divisor
    have integral : ((ofInt m).fmod (.ofInt n)).int32? = some (m.tmod n) := by
      rw [fmod_ofInt rangeM.exact rangeN.exact divisor]
      split
      · next noRemainder => rw [int32?_negZero, noRemainder.1]
      · rw [int32?_ofInt range.exact, if_pos range]
    have demoted : demoted ((ofInt m).fmod (.ofInt n)) = .int32 (m.tmod n) := by
      rw [demoted, integral]
    rw [if_neg divisor, if_neg (by simpa using divisor), demoted]
    exact Engine.Agree.refl _

/-- On two integers the engines agree exactly where the table says so. -/
theorem agree_ints (clean : s.error = none) (rangeM : Double.InInt32 m) (rangeN : Double.InInt32 n)
    {form : Form} {op : BinaryOp} (carried : form.Carries op (.int32 n)) :
    E.Agree (eval_binary E s op (.int32 m) (.int32 n)) (form.exec E s op (.int32 m) (.int32 n)) ↔
      IntsAgree op m n := by
  have sumExact : Double.Exact (m + n) := by
    unfold Double.InInt32 at rangeM rangeN
    unfold Double.Exact
    omega
  have differenceExact : Double.Exact (m - n) := by
    unfold Double.InInt32 at rangeM rangeN
    unfold Double.Exact
    omega
  have sum : E.Agree (s.give (.int32 (castInt32 (m + n)))) (s.give (.ofInt64 (m + n))) ↔
      Double.InInt32 (m + n) :=
    (agree_give clean).trans (wrapped_same sumExact)
  have product : E.Agree (s.give (.int32 (castInt32 (m * n))))
      (s.give (.demoted ((ofInt m).mul (.ofInt n)))) ↔ Double.InInt32 (m * n) :=
    (agree_give clean).trans (product_same rangeM rangeN)
  cases form with
  | addSelf =>
    obtain rfl := carried
    exact sum
  | loadPropAdd hit =>
    obtain rfl := carried
    cases hit <;> exact sum
  | mulSelf =>
    obtain rfl := carried
    exact product
  | localLtImm imm =>
    obtain ⟨rfl, same⟩ := carried
    obtain rfl := int32.inj same
    exact iff_of_true (Engine.Agree.refl _) trivial
  | opcode =>
    cases op with
    | add => exact sum
    | sub => exact (agree_give clean).trans (wrapped_same differenceExact)
    | mul => exact product
    | mod => exact iff_of_true (agree_mod_ints rangeM rangeN) trivial
    | andAnd | orOr | nullish => exact iff_of_true (agree_logical rfl) trivial
    | eq =>
      have tree : eval_binary E s .eq (.int32 m) (.int32 n) =
          s.give (.bool (strict_eq (.int32 m) (.int32 n))) := by
        simp only [eval_binary, treeInt, treeGeneric, abstract_eq_same (E := E) (s := s)
          (a := .int32 m) (b := .int32 n) rfl]
        rfl
      rw [tree]
      exact iff_of_true (Engine.Agree.refl _) trivial
    | ne =>
      have tree : eval_binary E s .ne (.int32 m) (.int32 n) = s.give (.bool (m ≠ n)) := by
        simp only [eval_binary, treeInt, treeGeneric, abstract_eq_same (E := E) (s := s)
          (a := .int32 m) (b := .int32 n) rfl, decide_not]
        rfl
      rw [tree]
      exact iff_of_true (Engine.Agree.refl _) trivial
    | strictNe =>
      have tree : eval_binary E s .strictNe (.int32 m) (.int32 n) = s.give (.bool (m ≠ n)) := by
        simp only [decide_not]
        rfl
      rw [tree]
      exact iff_of_true (Engine.Agree.refl _) trivial
    | _ => exact iff_of_true (Engine.Agree.refl _) trivial

end Ints

section Bigints

variable {E : Engine} {s : EngineState} {p q : Addr} {x y : Int}

theorem bcv_binop_bigints (op : BinOp) (left : s.bigints p = some x)
    (right : s.bigints q = some y) : bcv_binop E s op (.object p) (.object q) =
    match binopBigint s op x y with
    | some result => result
    | none => binopGeneric E s op (.object p) (.object q) := by
  unfold bcv_binop
  simp only [bigint?, left, right]
  rfl

theorem opcode_objects (op : BinOp) : opcode E s op (.object p) (.object q) =
    bcv_binop E s op (.object p) (.object q) := by
  have path : inlinePath op (.object p) (.object q) = none := by
    cases op <;> rfl
  rw [opcode, path, orBinop]

/-- On two BigInts the engines agree exactly where the table says so. -/
theorem agree_bigints (clean : s.error = none) (left : s.bigints p = some x)
    (right : s.bigints q = some y) {form : Form} {op : BinaryOp}
    (carried : form.Carries op (.object q)) :
    E.Agree (eval_binary E s op (.object p) (.object q))
        (form.exec E s op (.object p) (.object q)) ↔
      BigintsAgree op x y (LRValue.object p = .object q) := by
  have order {v : Bool} (noOrder : v = false) (cmp : Bool) :
      (bool v).Same (.bool cmp) ↔ cmp = false := by
    rw [same_bool, noOrder]
    exact eq_comm
  have notLess : nan.lt .nan = false := by decide
  have notLe : nan.le .nan = false := by decide
  have equality : decide (p = q) = decide (x = y) ↔ (x = y → object p = .object q) := by
    have payload : p = q → x = y := by
      rintro rfl
      exact some.inj (left.symm.trans right)
    rw [object.injEq, decide_eq_decide]
    exact ⟨fun same => same.mpr, fun only => ⟨payload, only⟩⟩
  have inequality : (!decide (p = q)) = decide (x ≠ y) ↔
      (x = y → object p = .object q) := by
    rw [decide_not, Bool.not_inj_iff]
    exact equality
  have same : E.abstract_eq s (.object p) (.object q) =
      some (strict_eq (.object p) (.object q), s) :=
    abstract_eq_same rfl
  have sum : ¬ E.Agree (eval_binary E s .add (.object p) (.object q))
      (bcv_binop E s .add (.object p) (.object q)) := by
    rw [bcv_binop_bigints .add left right]
    exact not_agree_bigint clean _
  have product : ¬ E.Agree (eval_binary E s .mul (.object p) (.object q))
      (bcv_binop E s .mul (.object p) (.object q)) := by
    rw [bcv_binop_bigints .mul left right]
    exact not_agree_bigint clean _
  cases form with
  | addSelf =>
    obtain rfl := carried
    exact iff_of_false sum id
  | loadPropAdd hit =>
    obtain rfl := carried
    cases hit <;> exact iff_of_false sum id
  | mulSelf =>
    obtain rfl := carried
    exact iff_of_false product id
  | localLtImm imm => cases carried.2
  | opcode =>
    cases found : binop_of op with
    | none =>
      have always : BigintsAgree op x y (object p = .object q) := by
        cases op <;> trivial
      exact iff_of_true (agree_logical found) always
    | some bop =>
      have opcodeOf : Form.opcode.exec E s op (.object p) (.object q) =
          bcv_binop E s bop (.object p) (.object q) := by
        simp only [Form.exec, found, opcode_objects]
      rw [opcodeOf, bcv_binop_bigints bop left right]
      cases op with
      | add | sub | mul | pow =>
        obtain rfl := some.inj found
        exact iff_of_false (not_agree_bigint clean _) id
      | shl | sar | shr | bitAnd | bitOr | bitXor =>
        obtain rfl := some.inj found
        -- C leaves the cast of the NaN that stands for a BigInt undefined
        simp only [eval_binary, treeInt, treeGeneric, lr_to_float64, treeBits_nan, bind_none]
        exact iff_of_false not_rel_none_some id
      | div | mod =>
        obtain rfl := some.inj found
        exact iff_of_false (not_agree_divide clean _ _ _) id
      | lt | gt =>
        obtain rfl := some.inj found
        refine (agree_give clean).trans ((order notLess _).trans ?_)
        simp [intOrder, BigintsAgree]
      | le | ge =>
        obtain rfl := some.inj found
        refine (agree_give clean).trans ((order notLe _).trans ?_)
        simp [intOrder, BigintsAgree]
      | eq =>
        obtain rfl := some.inj found
        simp only [eval_binary, treeInt, treeGeneric, same]
        exact (agree_give clean).trans (same_bool.trans equality)
      | ne =>
        obtain rfl := some.inj found
        simp only [eval_binary, treeInt, treeGeneric, same]
        exact (agree_give clean).trans (same_bool.trans inequality)
      | strictEq =>
        obtain rfl := some.inj found
        exact (agree_give clean).trans (same_bool.trans equality)
      | strictNe =>
        obtain rfl := some.inj found
        exact (agree_give clean).trans (same_bool.trans inequality)
      | «in» | «instanceof» =>
        obtain rfl := some.inj found
        exact iff_of_true (Engine.Agree.refl _) trivial
      | andAnd | orOr | nullish => cases found

end Bigints

end LRJS
