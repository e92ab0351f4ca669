import LRJS.NumberUses
import LRJS.OperatorAgreement

/-!
# The representation of numbers

An integer in the range of `int32_t` is held as `INT32(n)` or as `FLOAT64(n)`.
Every conversion gives the same for both; a use tells them apart only where its
integer path does something else.
-/

namespace LRJS

open Engine.Agree LRValue Double Engine

def Reply.Same (r r' : Reply) : Prop :=
  match r, r' with
  | .value v, .value w => v.Same w
  | _, _ => r = r'

def Seen.Same : Seen → Seen → Prop
  | .computed c, .computed c' => c.Same c'
  | .jumps taken, .jumps taken' => taken = taken'
  | .slot pushed stored, .slot pushed' stored' =>
    Option.Rel LRValue.Same pushed pushed' ∧ stored.Same stored'
  | .replied r, .replied r' => r.Same r'
  | .key name, .key name' => name = name'
  | _, _ => False

def Engine.SameUse (E : Engine) (x y : Seen × EngineState) : Prop :=
  match x.2.error, y.2.error with
  | none, none => x.1.Same y.1
  | some e, some e' => E.errorName e = E.errorName e'
  | _, _ => False

def Engine.Indistinct (E : Engine) (x y : Option (Seen × EngineState)) : Prop :=
  Option.Rel E.SameUse x y

/-! ## The exceptions -/

def LeftAlike (form : Form) (op : BinaryOp) (n : Int) (b : LRValue) : Prop :=
  match op, b with
  | .add, .string _ => form = .opcode → b.Plain
  | .mul, .int32 m => ¬ (n * m = 0 ∧ (n < 0 ∨ m < 0))
  | .mod, .int32 m => ¬ (m ≠ 0 ∧ n.tmod m = 0 ∧ n < 0)
  | .strictEq, .int32 _ | .strictEq, .float64 _ | .strictNe, .int32 _ | .strictNe, .float64 _ =>
    numberEq (.int32 n) b = false
  | _, _ => True

def RightAlike (op : BinaryOp) (a : LRValue) (n : Int) : Prop :=
  match op, a with
  | .mul, .int32 m => ¬ (m * n = 0 ∧ (m < 0 ∨ n < 0))
  | .mod, .int32 m => ¬ (n ≠ 0 ∧ m.tmod n = 0 ∧ m < 0)
  | .strictEq, .int32 _ | .strictEq, .float64 _ | .strictNe, .int32 _ | .strictNe, .float64 _ =>
    numberEq a (.int32 n) = false
  | _, _ => True

/-- The element that `INT32(n)` reads from an array, also where none was written. -/
def LRObject.element? (o : LRObject) (idx : Nat) : Option LRValue :=
  match o.type with
  | .array (some ad) => if idx < ad.length then some (ad.elements idx) else none
  | _ => none

/-- What a read with `FLOAT64(n)` consults and `INT32(n)` does not: the element cache, and for an
undefined element the properties of its name. -/
structure ReadAlike (E : Engine) (s : EngineState) (caches : PropCaches) (a : Addr) (o : LRObject)
    (idx : Nat) (atom : LRString) : Prop where
  remembered : o.element? idx = none → ∀ v, caches.elemHit a o atom = some v →
    ∃ h w, lr_get_property E.fuel s.heap a atom = some (h, .value w) ∧ w.Same v
  element : ∀ v, o.element? idx = some v →
    match caches.elemHit a o atom with
    | some w => v.Same w
    | none => v = .undefined → ∃ h, slowGet E.fuel s.heap a o atom = some (h, .value .undefined)

def LRProperty.CallsSetter (prop : LRProperty) : Prop :=
  prop.flags.setter = true ∧ prop.setter.isObject = true

/-- What a write with `FLOAT64(n)` consults on an array, and `INT32(n)` does not: the setters of the
property and of the prototypes. -/
def WriteAlike (E : Engine) (s : EngineState) (o : LRObject) (atom : LRString) : Prop :=
  match o.type, o.find_own_prop atom with
  | .array (some _), some prop => ¬ prop.CallsSetter
  | .array (some _), none =>
    ∃ found, protoFind s.heap atom E.fuel o.proto = some found ∧
      ∀ prop ∈ found, ¬ prop.CallsSetter
  | _, _ => True

namespace NumberUse

/-- The uses that do not tell `INT32(n)` from `FLOAT64(n)`. -/
def Alike (E : Engine) (s : EngineState) (caches : PropCaches) (n : Int) : NumberUse → Prop
  | .left form op b => LeftAlike form op n b
  | .right _ op a => RightAlike op a n
  | .increment op => op ≠ .var false → n ≠ 2147483647
  | .getElem (.object a) => 0 ≤ n → ∀ o, s.heap.objs a = some o →
      ReadAlike E s caches a o n.toNat (s.heap.atom (ToString.toString n))
  | .setElem (.object a) _ _ => 0 ≤ n → ∀ o, s.heap.objs a = some o →
      WriteAlike E s o (s.heap.atom (ToString.toString n))
  | _ => True

/-- The integer of the other operand fits its field. -/
def OtherOperand : NumberUse → Prop
  | .left _ _ (.int32 m) | .right _ _ (.int32 m) => Double.InInt32 m
  | _ => True

end NumberUse

/-! ## The conversions -/

section Conversions

variable {E : Engine} {s : EngineState} {n : Int}

section

variable (range : Double.InInt32 n)
include range

theorem floatText_ofInt : floatText (.ofInt n) = toString n := by
  have bound : n.natAbs < 10 ^ 10 := by
    unfold Double.InInt32 at range
    omega
  rw [floatText, if_neg (by rw [isNaN_ofInt]; decide),
    if_neg (by rw [isInf_ofInt range.exact]; decide), format17_ofInt bound]

theorem lr_to_cstring_number :
    E.lr_to_cstring s (.float64 (.ofInt n)) = E.lr_to_cstring s (.int32 n) := by
  rw [lr_to_cstring_float64, lr_to_cstring_int32, floatText_ofInt range]

theorem lr_to_int32_number :
    lr_to_int32 (.float64 (.ofInt n)) = lr_to_int32 (.int32 n) :=
  toInt32_ofInt range

theorem lr_to_bool_number :
    lr_to_bool (.float64 (.ofInt n)) = lr_to_bool (.int32 n) := by
  have zero : (ofInt n).ceq (.ofInt 0) = decide (n = 0) :=
    ceq_ofInt range.exact (by simp [Double.Exact])
  simp [lr_to_bool, zero]

end

theorem LRValue.same_number : (LRValue.int32 n).Same (.float64 (.ofInt n)) := by
  exact .inl rfl

end Conversions

/-! ## Twins -/

inductive LRValue.Twin : LRValue → LRValue → Prop where
  | same (v : LRValue) : Twin v v
  | number {n : Int} (range : Double.InInt32 n) : Twin (.int32 n) (.float64 (.ofInt n))

namespace LRValue.Twin

variable {E : Engine} {s : EngineState} {v w : LRValue}

section

variable (twin : v.Twin w)
include twin

theorem alike : v.Same w := by
  cases twin with
  | same => exact Same.refl v
  | number range => exact same_number

theorem float : lr_to_float64 w = lr_to_float64 v := by
  cases twin <;> rfl

theorem int : lr_to_int32 w = lr_to_int32 v := by
  cases twin with
  | same => rfl
  | number range => exact lr_to_int32_number range

theorem truth : lr_to_bool w = lr_to_bool v := by
  cases twin with
  | same => rfl
  | number range => exact lr_to_bool_number range

theorem text : E.lr_to_cstring s w = E.lr_to_cstring s v := by
  cases twin with
  | same => rfl
  | number range => exact lr_to_cstring_number range

theorem isString : w.isString = v.isString := by
  cases twin <;> rfl

theorem otherObject : w.OtherObject s ↔ v.OtherObject s := by
  cases twin <;> rfl

theorem int32_of_right (integer : w.tag = .int32) : v = w := by
  cases twin with
  | same => rfl
  | number range => cases integer

theorem string_of_right (string_ : w.tag = .string) : v = w := by
  cases twin with
  | same => rfl
  | number range => cases string_

end

end LRValue.Twin

section Twins

variable {E : Engine} {s : EngineState} {a a' b b' : LRValue}

theorem bcv_concat_twins (twinA : a.Twin a') (twinB : b.Twin b') :
    bcv_concat E s a' b' = bcv_concat E s a b := by
  cases left : a.isString with
  | true =>
    cases a <;> cases left
    cases twinA
    rw [bcv_concat_left, bcv_concat_left]
    cases twinB with
    | same => rfl
    | number range =>
      dsimp only
      rw [lr_to_cstring_number range]
  | false =>
    rw [bcv_concat_other (twinA.isString.trans left), bcv_concat_other left, twinA.text]
    simp only [twinB.text]

theorem bcv_relational_twins (op : BinOp) (twinA : a.Twin a') (twinB : b.Twin b') :
    bcv_relational op a' b' = bcv_relational op a b := by
  cases twinA with
  | same =>
    cases twinB with
    | same => rfl
    | number range => cases a <;> rfl
  | number range =>
    cases twinB <;> rfl

theorem agree_numbers (clean : s.error = none) {x y : Option (Computed × EngineState)} {d : Double}
    (left : s.GivesNumber x d) (right : s.GivesNumber y d) : E.Agree x y := by
  obtain ⟨v, rfl, valueV⟩ := left
  obtain ⟨w, rfl, valueW⟩ := right
  rw [agree_give clean, same_of_number? valueV valueW]
  exact .inl rfl

/-- A number and another value compared with `==`: an object gives its text. -/
def Engine.equalsNumber (E : Engine) (s : EngineState) (compare : LRValue → Bool) (v : LRValue) :
    Option (Bool × EngineState) :=
  match v with
  | .undefined | .null | .symbol _ | .exception => some (false, s)
  | .object p => (E.lr_to_cstring s (.object p)).map fun (text, s) => (compare (.string text), s)
  | v => some (compare v, s)

/-- `==` and `!=` as they are compiled, from one comparison. -/
structure Engine.Loose (E : Engine) (s : EngineState) (a b : LRValue)
    (result : Option (Bool × EngineState)) : Prop where
  eq : opcode E s .eq a b = result >>= fun (equal, s) => s.give (.bool equal)
  ne : opcode E s .ne a b = result >>= fun (equal, s) => s.give (.bool (!equal))

theorem loose_mixed (mixed : Mixed a b) : E.Loose s a b (some (numberEq a b, s)) :=
  ⟨(opcode_eq_mixed mixed).1, (opcode_eq_mixed mixed).2⟩

theorem loose_others (others : Others s a b) (notMixed : ¬ Mixed a b) :
    E.Loose s a b (E.bcv_abstract_eq s a b) :=
  ⟨(opcode_eq others notMixed).1, (opcode_eq others notMixed).2⟩

theorem bcv_abstract_eq_text (number : bcv_is_number a = true) {p : Addr} :
    E.bcv_abstract_eq s a (.object p) = E.equalsNumber s (numberEq a) (.object p) ∧
      E.bcv_abstract_eq s (.object p) a =
        E.equalsNumber s (fun v => numberEq v a) (.object p) := by
  have kind : a.tag = .int32 ∨ a.tag = .float64 := by
    simpa [bcv_is_number] using number
  have compared (text : Name) (s : EngineState) :
      E.bcv_abstract_eq s a (.string text) = some (numberEq a (.string text), s) ∧
        E.bcv_abstract_eq s (.string text) a = some (numberEq (.string text) a, s) :=
    ⟨bcv_abstract_eq_number (.inr ⟨kind.imp id .inl, rfl⟩),
      bcv_abstract_eq_number (.inl ⟨rfl, kind.imp id .inl⟩)⟩
  constructor
  · rw [bcv_abstract_eq.eq_def, equalsNumber]
    cases a with
    | int32 | float64 =>
      simp only [tag, bcv_is_number, compared]
      cases E.lr_to_cstring s (.object p) <;> rfl
    | _ => cases number
  · rw [bcv_abstract_eq.eq_def, equalsNumber]
    cases a with
    | int32 | float64 =>
      simp only [tag, bcv_is_number, compared]
      cases E.lr_to_cstring s (.object p) <;> rfl
    | _ => cases number

theorem bcv_abstract_eq_beside (notInts : a.tag = .int32 → b.tag ≠ .int32)
    (notMixed : ¬ Mixed a b) (number : bcv_is_number a = true) :
    E.bcv_abstract_eq s a b = E.equalsNumber s (numberEq a) b ∧
      E.bcv_abstract_eq s b a = E.equalsNumber s (fun v => numberEq v a) b := by
  cases b with
  | object p => exact bcv_abstract_eq_text number
  | _ =>
    constructor <;>
    · rw [bcv_abstract_eq.eq_def]
      cases a with
      | int32 m =>
        first
        | exact absurd rfl (notInts rfl)
        | simp_all [tag, bcv_is_number, equalsNumber, Mixed, isIntegral]
      | float64 d =>
        first
        | rfl
        | simp_all [tag, bcv_is_number, Mixed, isIntegral]
      | _ => cases number

section

variable (others : Others s a b)
include others

theorem loose_left (number : bcv_is_number a = true) :
    E.Loose s a b (E.equalsNumber s (numberEq a) b) := by
  by_cases mixed : Mixed a b
  · have value : E.equalsNumber s (numberEq a) b = some (numberEq a b, s) := by
      rcases mixed with ⟨-, double⟩ | ⟨-, integral⟩
      · cases b <;> first | cases double; done | rfl
      · cases b <;> first | cases integral; done | rfl
    rw [value]
    exact loose_mixed mixed
  · rw [← (bcv_abstract_eq_beside others.notInts mixed number).1]
    exact loose_others others mixed

theorem loose_right (number : bcv_is_number b = true) :
    E.Loose s a b (E.equalsNumber s (fun v => numberEq v b) a) := by
  by_cases mixed : Mixed a b
  · have value : E.equalsNumber s (fun v => numberEq v b) a = some (numberEq a b, s) := by
      rcases mixed with ⟨integral, -⟩ | ⟨double, -⟩
      · cases a <;> first | cases integral; done | rfl
      · cases a <;> first | cases double; done | rfl
    rw [value]
    exact loose_mixed mixed
  · have apart : ¬ Mixed b a := fun swapped => mixed (swapped.symm.imp And.symm And.symm)
    rw [← (bcv_abstract_eq_beside (fun int int' => others.notInts int' int) apart number).2]
    exact loose_others others mixed

/-- Equality does not tell the forms of a number apart. -/
theorem opcode_eq_twins (others' : Others s a' b') (twinA : a.Twin a') (twinB : b.Twin b') :
    opcode E s .eq a' b' = opcode E s .eq a b ∧ opcode E s .ne a' b' = opcode E s .ne a b := by
  cases twinA with
  | @number n range =>
    have left := loose_left (E := E) others rfl
    have right := loose_left (E := E) others' rfl
    have same : E.equalsNumber s (numberEq (.float64 (.ofInt n))) b' =
        E.equalsNumber s (numberEq (.int32 n)) b := by
      cases twinB <;> rfl
    rw [left.eq, left.ne, right.eq, right.ne, same]
    exact ⟨rfl, rfl⟩
  | same =>
    cases twinB with
    | same => exact ⟨rfl, rfl⟩
    | @number n range =>
      have left := loose_right (E := E) others rfl
      have right := loose_right (E := E) others' rfl
      have same : E.equalsNumber s (fun v => numberEq v (.float64 (.ofInt n))) a =
          E.equalsNumber s (fun v => numberEq v (.int32 n)) a :=
        rfl
      rw [left.eq, left.ne, right.eq, right.ne, same]
      exact ⟨rfl, rfl⟩

end

/-- `+` does not tell an `int32` from the equal `float64` beside other operands. -/
theorem exec_add_twins (clean : s.error = none) (others : Others s a b) (others' : Others s a' b')
    (twinA : a.Twin a') (twinB : b.Twin b') {form : Form} (carried : form.Carries .add b)
    (carried' : form.Carries .add b') (noPath : form = .opcode → a.tag = .int32 → b.tag ≠ .string) :
    E.Agree (form.exec E s .add a b) (form.exec E s .add a' b') := by
  by_cases textual : a.isString ∨ b.isString
  · have textual' : a'.isString ∨ b'.isString := by
      rwa [twinA.isString, twinB.isString]
    have left : form.exec E s .add a b = bcv_concat E s a b := by
      rcases exec_text textual carried with ⟨-, concat⟩ | ⟨m, y, integer, string_, isOpcode, -⟩
      · exact concat
      · exact absurd (by rw [string_]; rfl) (noPath isOpcode (by rw [integer]; rfl))
    have right : form.exec E s .add a' b' = bcv_concat E s a' b' := by
      rcases exec_text textual' carried' with ⟨-, concat⟩ | ⟨m, y, integer, string_, isOpcode, -⟩
      · exact concat
      · have sameA : a = a' := twinA.int32_of_right (by rw [integer]; rfl)
        have sameB : b = b' := twinB.string_of_right (by rw [string_]; rfl)
        rw [sameA, sameB] at noPath
        exact absurd (by rw [string_]; rfl) (noPath isOpcode (by rw [integer]; rfl))
    rw [left, right, bcv_concat_twins twinA twinB]
    exact refl _
  · have notText' : ¬ (a'.isString ∨ b'.isString) := by
      rwa [twinA.isString, twinB.isString]
    by_cases objects : a.OtherObject s ∨ b.OtherObject s
    · have objects' : a'.OtherObject s ∨ b'.OtherObject s := by
        rwa [twinA.otherObject, twinB.otherObject]
      rw [exec_add_objects others textual objects carried,
        exec_add_objects others' notText' objects' carried', bcv_concat_twins twinA twinB]
      exact refl _
    · have noObjects' : ¬ (a'.OtherObject s ∨ b'.OtherObject s) := by
        rwa [twinA.otherObject, twinB.otherObject]
      have right := exec_add_numbers (E := E) others' notText' noObjects' carried'
      rw [twinA.float, twinB.float] at right
      exact agree_numbers clean (exec_add_numbers others textual objects carried) right

/-- A logical operator does not tell the forms of a number apart. -/
theorem exec_logical_twins (clean : s.error = none) (twinA : a.Twin a') (twinB : b.Twin b')
    {op : BinaryOp} (logical : binop_of op = none) :
    E.Agree (Form.opcode.exec E s op a b) (Form.opcode.exec E s op a' b') := by
  cases op with
  | andAnd =>
    change E.Agree (s.give (if !lr_to_bool a then a else b))
      (s.give (if !lr_to_bool a' then a' else b'))
    rw [agree_give clean, twinA.truth]
    cases lr_to_bool a
    · exact twinA.alike
    · exact twinB.alike
  | orOr =>
    change E.Agree (s.give (if lr_to_bool a then a else b))
      (s.give (if lr_to_bool a' then a' else b'))
    rw [agree_give clean, twinA.truth]
    cases lr_to_bool a
    · exact twinB.alike
    · exact twinA.alike
  | nullish =>
    change E.Agree (s.give (if a.tag ≠ .undefined ∧ a.tag ≠ .null then a else b))
      (s.give (if a'.tag ≠ .undefined ∧ a'.tag ≠ .null then a' else b'))
    rw [agree_give clean]
    cases twinA with
    | same =>
      split
      · exact LRValue.Same.refl _
      · exact twinB.alike
    | number range => exact same_number
  | _ => cases logical

theorem hasIn_twins (twinA : a.Twin a') (twinB : b.Twin b') : E.hasIn s a' b' = E.hasIn s a b := by
  cases twinB with
  | number range => rfl
  | same =>
    unfold hasIn
    rw [twinA.text]

theorem instanceOf_twins (twinA : a.Twin a') (twinB : b.Twin b') :
    E.instanceOf s a' b' = E.instanceOf s a b := by
  cases twinA with
  | number range => rfl
  | same =>
    cases twinB with
    | same | number range => rfl

theorem opcode_membership (others : Others s a b) {op : BinOp}
    (object : op = .in ∨ op = .instanceof) : opcode E s op a b = binopGeneric E s op a b := by
  have noInline : inlinePath op a b = none := by
    rcases object with rfl | rfl <;> rfl
  rw [opcode, noInline, orBinop, bcv_binop_others others, noFloat_object object]

/-- The operators look at the number, but for strict equality and for the path of an
integer and a string. -/
theorem exec_twins (clean : s.error = none) (others : Others s a b) (others' : Others s a' b')
    (twinA : a.Twin a') (twinB : b.Twin b') {form : Form} {op : BinaryOp}
    (carried : form.Carries op b) (carried' : form.Carries op b')
    (notStrict : op ≠ .strictEq ∧ op ≠ .strictNe)
    (noPath : op = .add → form = .opcode → a.tag = .int32 → b.tag ≠ .string) :
    E.Agree (form.exec E s op a b) (form.exec E s op a' b') := by
  have order {bop : BinOp} (relational : bop.relational = true) :
      E.Agree (opcode E s bop a b) (opcode E s bop a' b') := by
    rw [opcode_order others relational, opcode_order others' relational,
      bcv_relational_twins bop twinA twinB]
    exact refl _
  have bits {bop : BinOp} (bitwise : bop.bitwise = true) :
      E.Agree (opcode E s bop a b) (opcode E s bop a' b') := by
    rw [opcode_bits others bitwise, opcode_bits others' bitwise, twinA.int, twinB.int]
    exact refl _
  cases op with
  | add => exact exec_add_twins clean others others' twinA twinB carried carried' (noPath rfl)
  | mul =>
    have right := opcode_mul (E := E) others'
    rw [twinA.float, twinB.float] at right
    cases form with
    | opcode | mulSelf => exact agree_numbers clean (opcode_mul others) right
    | addSelf | loadPropAdd hit => cases carried
    | localLtImm imm => cases carried.1
  | lt =>
    cases form with
    | opcode => exact order rfl
    | localLtImm imm =>
      obtain rfl := carried.2
      cases twinA with
      | same => exact refl _
      | number range => exact absurd rfl (others.notInts rfl)
    | addSelf | mulSelf | loadPropAdd hit => cases carried
  | andAnd | orOr | nullish =>
    obtain rfl := carried.opcode_of (by decide)
    exact exec_logical_twins clean twinA twinB rfl
  | strictEq => exact absurd rfl notStrict.1
  | strictNe => exact absurd rfl notStrict.2
  | sub =>
    obtain rfl := carried.opcode_of (by decide)
    have right := opcode_sub (E := E) others'
    rw [twinA.float, twinB.float] at right
    exact agree_numbers clean (opcode_sub others) right
  | div =>
    obtain rfl := carried.opcode_of (by decide)
    have right := opcode_div (E := E) others'
    rw [twinA.float, twinB.float] at right
    exact agree_numbers clean (opcode_div others) right
  | mod =>
    obtain rfl := carried.opcode_of (by decide)
    change E.Agree (opcode E s .mod a b) (opcode E s .mod a' b')
    rw [opcode_generic others (.inl rfl), opcode_generic others' (.inl rfl)]
    simp only [binopGeneric, twinA.float, twinB.float]
    exact refl _
  | pow =>
    obtain rfl := carried.opcode_of (by decide)
    change E.Agree (opcode E s .pow a b) (opcode E s .pow a' b')
    rw [opcode_generic others (.inr rfl), opcode_generic others' (.inr rfl)]
    simp only [binopGeneric, twinA.float, twinB.float]
    exact refl _
  | gt | le | ge =>
    obtain rfl := carried.opcode_of (by decide)
    exact order rfl
  | eq =>
    obtain rfl := carried.opcode_of (by decide)
    change E.Agree (opcode E s .eq a b) (opcode E s .eq a' b')
    rw [(opcode_eq_twins others others' twinA twinB).1]
    exact refl _
  | ne =>
    obtain rfl := carried.opcode_of (by decide)
    change E.Agree (opcode E s .ne a b) (opcode E s .ne a' b')
    rw [(opcode_eq_twins others others' twinA twinB).2]
    exact refl _
  | shl | sar | shr | bitAnd | bitOr | bitXor =>
    obtain rfl := carried.opcode_of (by decide)
    exact bits rfl
  | «in» =>
    obtain rfl := carried.opcode_of (by decide)
    change E.Agree (opcode E s .in a b) (opcode E s .in a' b')
    rw [opcode_membership others (.inl rfl), opcode_membership others' (.inl rfl)]
    simp only [binopGeneric, hasIn_twins twinA twinB]
    exact refl _
  | «instanceof» =>
    obtain rfl := carried.opcode_of (by decide)
    change E.Agree (opcode E s .instanceof a b) (opcode E s .instanceof a' b')
    rw [opcode_membership others (.inr rfl), opcode_membership others' (.inr rfl)]
    simp only [binopGeneric, instanceOf_twins twinA twinB]
    exact refl _

end Twins

/-! ## Operators on two integers -/

/-- The operators on two integers: the integer path loses negative zero, and strict
equality compares the tags. -/
def IntsAlike (op : BinaryOp) (m n : Int) : Prop :=
  match op with
  | .mul => ¬ (m * n = 0 ∧ (m < 0 ∨ n < 0))
  | .mod => ¬ (n ≠ 0 ∧ m.tmod n = 0 ∧ m < 0)
  | .strictEq | .strictNe => m ≠ n
  | _ => True

section Ints

variable {E : Engine} {s : EngineState} {a b : LRValue} {m n : Int}

theorem others_mixed (mixed : Mixed a b) : Others s a b := by
  rcases mixed with ⟨integral, double⟩ | ⟨double, integral⟩
  · refine ⟨fun _ right => ?_, fun _ => ?_⟩
    · rw [double] at right
      cases right
    · cases b <;> cases double
      rfl
  · refine ⟨fun left => ?_, fun left => ?_⟩
    · rw [double] at left
      cases left
    · cases a <;> cases double
      cases left

theorem numberOrder_ofInt (rangeM : Double.InInt32 m) (rangeN : Double.InInt32 n) (op : BinOp) :
    numberOrder op (.ofInt m) (.ofInt n) = intOrder op m n := by
  cases op with
  | lt => exact lt_ofInt rangeM.exact rangeN.exact
  | gt => exact lt_ofInt rangeN.exact rangeM.exact
  | le => exact le_ofInt rangeM.exact rangeN.exact
  | ge => exact le_ofInt rangeN.exact rangeM.exact
  | _ => rfl

theorem opcode_order_ints {op : BinOp} (relational : op.relational = true) :
    opcode E s op (.int32 m) (.int32 n) = s.give (.bool (intOrder op m n)) := by
  cases op <;> first | rfl | cases relational

theorem opcode_bits_ints {op : BinOp} (bitwise : op.bitwise = true) :
    opcode E s op (.int32 m) (.int32 n) = s.give (.int32 (bitOp op m n)) := by
  cases op <;> first | rfl | cases bitwise

theorem exec_add_ints {form : Form} (carried : form.Carries .add (.int32 n)) :
    form.exec E s .add (.int32 m) (.int32 n) = s.give (.ofInt64 (m + n)) := by
  cases form with
  | opcode | addSelf => rfl
  | loadPropAdd hit => cases hit <;> rfl
  | mulSelf => cases carried
  | localLtImm imm => cases carried.1

/-- The remainder of integers is alike in both forms exactly if it is not -0. -/
theorem mod_ints (clean : s.error = none) (rangeM : Double.InInt32 m) (rangeN : Double.InInt32 n)
    (others : Others s a b) (floatA : lr_to_float64 a = .ofInt m)
    (floatB : lr_to_float64 b = .ofInt n) :
    E.Agree (opcode E s .mod (.int32 m) (.int32 n)) (opcode E s .mod a b) ↔
      IntsAlike .mod m n := by
  have zero : (ofInt n).ceq (.ofInt 0) = decide (n = 0) :=
    ceq_ofInt rangeN.exact (by simp [Double.Exact])
  rw [opcode_mod_ints rangeN, opcode_generic others (.inl rfl)]
  simp only [binopGeneric, floatA, floatB, zero, decide_eq_true_eq]
  by_cases divisor : n = 0
  · rw [if_pos divisor, if_pos divisor]
    exact iff_of_true (refl _) fun rest => rest.1 divisor
  · rw [if_neg divisor, if_neg divisor, agree_give clean,
      same_of_number? rfl (number?_bcv_number _),
      fmod_ofInt rangeM.exact rangeN.exact divisor]
    split
    · next noRemainder =>
        rw [noRemainder.1]
        exact iff_of_false not_same_zero fun rest => rest ⟨divisor, noRemainder⟩
    · next remainder => exact iff_of_true (.inl rfl) fun rest => remainder rest.2

/-- Two integers and their doubles agree exactly where the operator treats them alike. -/
theorem ints_twins (clean : s.error = none) (rangeM : Double.InInt32 m) (rangeN : Double.InInt32 n)
    (twinA : (LRValue.int32 m).Twin a) (twinB : (LRValue.int32 n).Twin b) (mixed : Mixed a b)
    {form : Form} {op : BinaryOp} (carried : form.Carries op (.int32 n))
    (carried' : form.Carries op b) :
    E.Agree (form.exec E s op (.int32 m) (.int32 n)) (form.exec E s op a b) ↔
      IntsAlike op m n := by
  have others : Others s a b := others_mixed mixed
  have floatA : lr_to_float64 a = .ofInt m := twinA.float
  have floatB : lr_to_float64 b = .ofInt n := twinB.float
  have textA : a.isString = false := twinA.isString
  have textB : b.isString = false := twinB.isString
  have equal : numberEq a b = decide (m = n) := by
    rw [numberEq, floatA, floatB]
    exact ceq_ofInt rangeM.exact rangeN.exact
  have oneDouble : a = .int32 m ∧ b = .float64 (.ofInt n) ∨
      a = .float64 (.ofInt m) ∧ b = .int32 n := by
    cases twinA with
    | same =>
      cases twinB with
      | same => rcases mixed with ⟨-, double⟩ | ⟨double, -⟩ <;> cases double
      | number => exact .inl ⟨rfl, rfl⟩
    | number =>
      cases twinB with
      | same => exact .inr ⟨rfl, rfl⟩
      | number => rcases mixed with ⟨integral, -⟩ | ⟨-, integral⟩ <;> cases integral
  have strict := opcode_strict (E := E) others
  have unequal : strict_eq a b = false := by
    rcases oneDouble with ⟨rfl, rfl⟩ | ⟨rfl, rfl⟩ <;> rfl
  have order {bop : BinOp} (relational : bop.relational = true) :
      E.Agree (opcode E s bop (.int32 m) (.int32 n)) (opcode E s bop a b) := by
    have notStrings : a.isString → b.isString = false := fun _ => textB
    rw [opcode_order_ints relational, opcode_order others relational,
      bcv_relational_number notStrings, floatA, floatB, numberOrder_ofInt rangeM rangeN]
    exact refl _
  have bits {bop : BinOp} (bitwise : bop.bitwise = true) :
      E.Agree (opcode E s bop (.int32 m) (.int32 n)) (opcode E s bop a b) := by
    rw [opcode_bits_ints bitwise, opcode_bits others bitwise, twinA.int, twinB.int]
    exact refl _
  cases op with
  | add =>
    have notText : ¬ (a.isString ∨ b.isString) := by
      rw [textA, textB]
      decide
    have noObjects : ¬ (a.OtherObject s ∨ b.OtherObject s) := by
      rw [twinA.otherObject, twinB.otherObject]
      rintro (⟨object, -⟩ | ⟨object, -⟩) <;> cases object
    have number := exec_add_numbers (E := E) others notText noObjects carried'
    rw [floatA, floatB, add_ofInt rangeM.exact rangeN.exact] at number
    rw [exec_add_ints carried]
    exact iff_of_true (agree_numbers clean ⟨_, rfl, number?_ofInt64 _⟩ number) trivial
  | mul =>
    have number := opcode_mul (E := E) others
    rw [floatA, floatB] at number
    have product : E.Agree (s.give (.demoted ((ofInt m).mul (.ofInt n))))
        (orBinop E s .mul (inlineMul a b) a b) ↔ IntsAlike .mul m n :=
      (agree_demoted clean number).trans
        (not_congr (mul_ofInt_eq_negZero rangeM.exact rangeN.exact))
    cases form with
    | opcode | mulSelf => exact product
    | addSelf | loadPropAdd hit => cases carried
    | localLtImm imm => cases carried.1
  | lt =>
    cases form with
    | opcode => exact iff_of_true (order rfl) trivial
    | localLtImm imm =>
      obtain rfl := int32.inj carried.2
      refine iff_of_true ?_ trivial
      cases twinA with
      | same => exact refl _
      | number range =>
        change E.Agree (s.give (.bool (m < n)))
          (s.give (.bool ((ofInt m).lt (.ofInt n))))
        rw [lt_ofInt rangeM.exact rangeN.exact]
        exact refl _
    | addSelf | mulSelf | loadPropAdd hit => cases carried
  | andAnd | orOr | nullish =>
    obtain rfl := carried.opcode_of (by decide)
    exact iff_of_true (exec_logical_twins clean twinA twinB rfl) trivial
  | sub =>
    obtain rfl := carried.opcode_of (by decide)
    have number := opcode_sub (E := E) others
    rw [floatA, floatB, sub_ofInt rangeM.exact rangeN.exact] at number
    exact iff_of_true (agree_numbers clean ⟨_, rfl, number?_ofInt64 _⟩ number) trivial
  | div =>
    obtain rfl := carried.opcode_of (by decide)
    have number := opcode_div (E := E) others
    rw [floatA, floatB] at number
    exact iff_of_true (agree_numbers clean ⟨_, rfl, rfl⟩ number) trivial
  | mod =>
    obtain rfl := carried.opcode_of (by decide)
    exact mod_ints clean rangeM rangeN others floatA floatB
  | pow =>
    obtain rfl := carried.opcode_of (by decide)
    refine iff_of_true ?_ trivial
    change E.Agree _ (opcode E s .pow a b)
    rw [opcode_generic others (.inr rfl)]
    simp only [binopGeneric, floatA, floatB]
    exact refl _
  | gt | le | ge =>
    obtain rfl := carried.opcode_of (by decide)
    exact iff_of_true (order rfl) trivial
  | eq =>
    obtain rfl := carried.opcode_of (by decide)
    refine iff_of_true ?_ trivial
    change E.Agree _ (opcode E s .eq a b)
    rw [(opcode_eq_mixed mixed).1, equal]
    exact refl _
  | ne =>
    obtain rfl := carried.opcode_of (by decide)
    refine iff_of_true ?_ trivial
    change E.Agree (s.give (.bool (m ≠ n))) (opcode E s .ne a b)
    rw [(opcode_eq_mixed mixed).2, equal, decide_not]
    exact refl _
  | strictEq =>
    obtain rfl := carried.opcode_of (by decide)
    change E.Agree (s.give (.bool (m = n))) (opcode E s .strictEq a b) ↔ m ≠ n
    rw [strict.1, unequal, agree_give clean, same_bool, decide_eq_false_iff_not]
  | strictNe =>
    obtain rfl := carried.opcode_of (by decide)
    change E.Agree (s.give (.bool (m ≠ n))) (opcode E s .strictNe a b) ↔ m ≠ n
    rw [strict.2, unequal, agree_give clean, same_bool]
    exact decide_eq_true_iff
  | shl | sar | shr | bitAnd | bitOr | bitXor =>
    obtain rfl := carried.opcode_of (by decide)
    exact iff_of_true (bits rfl) trivial
  | «in» =>
    obtain rfl := carried.opcode_of (by decide)
    refine iff_of_true ?_ trivial
    change E.Agree (E.hasIn s (.int32 m) (.int32 n)) (opcode E s .in a b)
    rw [opcode_membership others (.inl rfl)]
    simp only [binopGeneric, hasIn_twins twinA twinB]
    exact refl _
  | «instanceof» =>
    obtain rfl := carried.opcode_of (by decide)
    refine iff_of_true ?_ trivial
    change E.Agree (E.instanceOf s (.int32 m) (.int32 n)) (opcode E s .instanceof a b)
    rw [opcode_membership others (.inr rfl)]
    simp only [binopGeneric, instanceOf_twins twinA twinB]
    exact refl _

end Ints

/-! ## The number on either side -/

section Sides

variable {E : Engine} {s : EngineState} {n : Int}

theorem strict_alike (clean : s.error = none) {a a' b b' : LRValue} (others : Others s a b)
    (others' : Others s a' b') {op : BinaryOp} (strict : op = .strictEq ∨ op = .strictNe) :
    E.Agree (Form.opcode.exec E s op a b) (Form.opcode.exec E s op a' b') ↔
      strict_eq a b = strict_eq a' b' := by
  rcases strict with rfl | rfl
  · change E.Agree (opcode E s .strictEq a b) (opcode E s .strictEq a' b') ↔ _
    rw [(opcode_strict others).1, (opcode_strict others').1, agree_give clean,
      same_bool]
  · change E.Agree (opcode E s .strictNe a b) (opcode E s .strictNe a' b') ↔ _
    rw [(opcode_strict others).2, (opcode_strict others').2, agree_give clean,
      same_bool, Bool.not_inj_iff]

/-- Before a text the forms of an integer show exactly if the text is not plain. -/
theorem add_string_alike (clean : s.error = none) (range : Double.InInt32 n) {y : Name} :
    E.Agree (Form.opcode.exec E s .add (.int32 n) (.string y))
        (Form.opcode.exec E s .add (.float64 (.ofInt n)) (.string y)) ↔
      (LRValue.string y).Plain := by
  have left : Form.opcode.exec E s .add (.int32 n) (.string y) =
      s.give (.string (toString n ++ y)) :=
    rfl
  have right : Form.opcode.exec E s .add (.float64 (.ofInt n)) (.string y) =
      s.give (.string (toString n ++ cstring y)) := by
    change bcv_concat E s (.float64 (.ofInt n)) (.string y) = _
    rw [bcv_concat_other rfl, lr_to_cstring_float64, floatText_ofInt range]
    change (E.lr_to_cstring s (.string y) >>= _) = _
    rw [lr_to_cstring_string]
    rfl
  rw [left, right, agree_give clean, same_string, eq_comm, cstring_append_right,
    cstring_eq_self]

theorem others_number {v w : LRValue} (number : bcv_is_number v = true) (other : w.tag ≠ .int32) :
    Others s v w ∧ Others s w v := by
  have noBigint : v.bigint? s = none := by
    cases v <;> first | rfl | cases number
  refine ⟨⟨fun _ => other, fun left => ?_⟩, ⟨fun left => absurd left other, fun _ => noBigint⟩⟩
  rw [noBigint] at left
  cases left

theorem others_double {d : Double} {w : LRValue} :
    Others s (.float64 d) w ∧ Others s w (.float64 d) :=
  ⟨⟨nofun, nofun⟩, ⟨nofun, fun _ => rfl⟩⟩

/-- The form of an integer on the left shows exactly where the table says so. -/
theorem left_alike (clean : s.error = none) (range : Double.InInt32 n) {b : LRValue}
    (operand : ∀ m, b = .int32 m → Double.InInt32 m) {form : Form} {op : BinaryOp}
    (carried : form.Carries op b) :
    E.Agree (form.exec E s op (.int32 n) b) (form.exec E s op (.float64 (.ofInt n)) b) ↔
      LeftAlike form op n b := by
  by_cases integer : b.tag = .int32
  · cases b <;> cases integer
    next m =>
    have inside : Double.InInt32 m := operand m rfl
    refine (ints_twins clean range inside (.number range) (.same _) (.inr ⟨rfl, rfl⟩) carried
      carried).trans ?_
    have equal : numberEq (.int32 n) (.int32 m) = false ↔ n ≠ m := by
      rw [← strict_eq_ints range inside]
      exact decide_eq_false_iff_not
    cases op <;> first | exact Iff.rfl | exact equal.symm
  · have others : Others s (.int32 n) b := (others_number rfl integer).1
    have others' : Others s (.float64 (.ofInt n)) b := others_double.1
    by_cases strict : op = .strictEq ∨ op = .strictNe
    · obtain rfl := carried.opcode_of (by rcases strict with rfl | rfl <;> decide)
      refine (strict_alike clean others others' strict).trans ?_
      rcases strict with rfl | rfl
      all_goals
        cases b <;> first | exact iff_of_true rfl trivial | exact eq_comm | exact absurd rfl integer
    · by_cases path : op = .add ∧ form = .opcode ∧ b.isString
      · obtain ⟨rfl, rfl, string_⟩ := path
        cases b <;> cases string_
        refine (add_string_alike clean range).trans ?_
        exact ⟨fun plain _ => plain, fun plain => plain rfl⟩
      · refine iff_of_true ?_ ?_
        · refine exec_twins clean others others' (.number range) (.same _) carried carried
            (not_or.mp strict) ?_
          intro isAdd isOpcode _ string_
          exact path ⟨isAdd, isOpcode, by cases b <;> first | rfl | cases string_⟩
        · unfold LeftAlike
          split
          · intro isOpcode
            exact absurd ⟨rfl, isOpcode, rfl⟩ path
          · exact absurd rfl integer
          · exact absurd rfl integer
          all_goals
            first
            | exact absurd (.inl rfl) strict
            | exact absurd (.inr rfl) strict
            | trivial

/-- The form of an integer on the right shows exactly where the table says so. -/
theorem right_alike (clean : s.error = none) (range : Double.InInt32 n) {a : LRValue}
    (operand : ∀ m, a = .int32 m → Double.InInt32 m) {form : Form} {op : BinaryOp}
    (carried : form.Carries op (.int32 n)) (carried' : form.Carries op (.float64 (.ofInt n))) :
    E.Agree (form.exec E s op a (.int32 n)) (form.exec E s op a (.float64 (.ofInt n))) ↔
      RightAlike op a n := by
  by_cases integer : a.tag = .int32
  · cases a <;> cases integer
    next m =>
    have inside : Double.InInt32 m := operand m rfl
    refine (ints_twins clean inside range (.same _) (.number range) (.inl ⟨rfl, rfl⟩) carried
      carried').trans ?_
    have equal : numberEq (.int32 m) (.int32 n) = false ↔ m ≠ n := by
      rw [← strict_eq_ints inside range]
      exact decide_eq_false_iff_not
    cases op <;> first | exact Iff.rfl | exact equal.symm
  · have others : Others s a (.int32 n) := (others_number rfl integer).2
    have others' : Others s a (.float64 (.ofInt n)) := others_double.2
    by_cases strict : op = .strictEq ∨ op = .strictNe
    · obtain rfl := carried.opcode_of (by rcases strict with rfl | rfl <;> decide)
      refine (strict_alike clean others others' strict).trans ?_
      rcases strict with rfl | rfl
      all_goals
        cases a <;> first | exact iff_of_true rfl trivial | exact eq_comm | exact absurd rfl integer
    · refine iff_of_true ?_ ?_
      · exact exec_twins clean others others' (.same _) (.number range) carried carried'
          (not_or.mp strict) nofun
      · unfold RightAlike
        split
        · exact absurd rfl integer
        · exact absurd rfl integer
        all_goals
          first
          | exact absurd (.inl rfl) strict
          | exact absurd (.inr rfl) strict
          | trivial

end Sides

end LRJS
