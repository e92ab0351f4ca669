import LRJS.BitwiseAssignments

/-!
# When compound assignments agree

The tree-walker evaluates the target again for the assignment, has no branch for the bitwise
operators, and stores nothing for `++` and `--` on a member; for identifiers the values decide.
-/

namespace LRJS

open List Option
namespace Assignments

variable {W : Type} {E : Engine} {e : EngineState} {a b : LRValue}

/-- The operators that `eval_assign` computes. -/
def arithmetic : BinaryOp → Bool
  | .add | .sub | .mul | .div | .mod | .pow => true
  | _ => false

theorem compound_eq {op : BinaryOp} (known : arithmetic op = true) :
    compound E e op a b = treeGeneric E e op a b := by
  cases op with
  | mod =>
    simp only [compound, treeGeneric]
    by_cases zero : (lr_to_float64 b).ceq (.ofInt 0) = true
    · rw [if_pos zero, Double.fmod, if_pos (.inr (.inr (.inr (Double.units_of_ceq_zero zero))))]
      rfl
    · rw [if_neg zero]
  | add | sub | mul | div | pow => rfl
  | _ => cases known

def isLogical : BinaryOp → Bool
  | .andAnd | .orOr | .nullish => true
  | _ => false

/-- The operators that stand before a `=`. -/
def assignable : BinaryOp → Bool
  | .lt | .gt | .le | .ge | .eq | .ne | .strictEq | .strictNe | .in | .instanceof => false
  | _ => true

/-- The operands suit `eval_assign` and a form of the operator: two integers are added as doubles,
and a bitwise operator keeps its left operand. -/
def OperatorAgrees (E : Engine) (e : EngineState) (form : Form) (op : BinaryOp) (a b : LRValue) :
    Prop :=
  if arithmetic op then
    (a.tag = .int32 ∧ b.tag = .int32) ∨ OperandsAgree E e form op a b
  else
    ∀ bop, binop_of op = some bop → KeepsLeft bop a b

theorem sum_same {m n : Int} (rangeM : Double.InInt32 m) (rangeN : Double.InInt32 n) :
    (LRValue.demoted ((Double.ofInt m).add (.ofInt n))).Same (.ofInt64 (m + n)) := by
  have exact_ : Double.Exact (m + n) := by
    unfold Double.InInt32 at rangeM rangeN
    unfold Double.Exact
    omega
  rw [Double.add_ofInt rangeM.exact rangeN.exact]
  exact (LRValue.demoted_same (number?_ofInt64 _)).mpr (Double.ofInt_ne_negZero exact_)

theorem difference_same {m n : Int} (rangeM : Double.InInt32 m) (rangeN : Double.InInt32 n) :
    (LRValue.demoted ((Double.ofInt m).sub (.ofInt n))).Same (.ofInt64 (m - n)) := by
  have exact_ : Double.Exact (m - n) := by
    unfold Double.InInt32 at rangeM rangeN
    unfold Double.Exact
    omega
  rw [Double.sub_ofInt rangeM.exact rangeN.exact]
  exact (LRValue.demoted_same (number?_ofInt64 _)).mpr (Double.ofInt_ne_negZero exact_)

theorem compound_ints (clean : e.error = none) {m n : Int} (rangeM : Double.InInt32 m)
    (rangeN : Double.InInt32 n) {form : Form} {op : BinaryOp} (known : arithmetic op = true)
    (carried : form.Carries op (.int32 n)) :
    E.Agree (compound E e op (.int32 m) (.int32 n)) (form.exec E e op (.int32 m) (.int32 n)) := by
  have sum := (Engine.agree_give (E := E) clean).mpr (sum_same rangeM rangeN)
  cases form with
  | addSelf =>
    rw [show op = .add from carried]
    exact sum
  | loadPropAdd hit =>
    rw [show op = .add from carried]
    cases hit with
    | false | true => exact sum
  | mulSelf =>
    rw [show op = .mul from carried]
    exact Engine.Agree.refl _
  | localLtImm imm =>
    rw [carried.1] at known
    cases known
  | opcode =>
    cases op with
    | add => exact sum
    | sub => exact (Engine.agree_give clean).mpr (difference_same rangeM rangeN)
    | mul | div | pow => exact Engine.Agree.refl _
    | mod =>
      rw [compound_eq rfl]
      exact agree_mod_ints rangeM rangeN
    | _ => cases known

/-- On two values the operator of the tree-walker and the instruction agree exactly on the operands
of the condition. -/
theorem compound_agrees_iff (clean : e.error = none) (rangeA : InRange a) (rangeB : InRange b)
    {form : Form} {op : BinaryOp} (known : assignable op = true) (logical : isLogical op = false)
    (carried : form.Carries op b) :
    E.Agree (compound E e op a b) (form.exec E e op a b) ↔ OperatorAgrees E e form op a b := by
  unfold OperatorAgrees
  by_cases computed : arithmetic op = true
  · rw [if_pos computed]
    by_cases ints : a.tag = .int32 ∧ b.tag = .int32
    · refine iff_of_true ?_ (.inl ints)
      cases a <;> cases ints.1
      cases b <;> cases ints.2
      exact compound_ints clean rangeA rangeB computed carried
    · rw [or_iff_right ints, compound_eq computed]
      by_cases bigints : (a.bigint? e).isSome ∧ (b.bigint? e).isSome
      · obtain ⟨x, foundX⟩ := isSome_iff_exists.mp bigints.1
        obtain ⟨y, foundY⟩ := isSome_iff_exists.mp bigints.2
        cases a <;> try cases foundX
        cases b <;> try cases foundY
        next p q =>
        have table : OperandsAgree E e form op (.object p) (.object q) =
            BigintsAgree op x y (LRValue.object p = .object q) := by
          simp only [OperandsAgree, foundX, foundY]
        have generic : eval_binary E e op (.object p) (.object q) =
            treeGeneric E e op (.object p) (.object q) := by
          cases op <;> first | rfl | cases computed
        rw [table, ← generic]
        exact agree_bigints clean foundX foundY carried
      · have others : Others e a b :=
          ⟨fun left right => ints ⟨left, right⟩,
            fun left => not_isSome_iff_eq_none.mp fun right => bigints ⟨left, right⟩⟩
        rw [operandsAgree_others others]
        cases op with
        | add => exact agree_add clean others carried
        | mul =>
          cases form with
          | opcode | mulSelf => exact agree_mul clean others
          | addSelf | loadPropAdd hit => cases carried
          | localLtImm imm => cases carried.1
        | sub =>
          obtain rfl := carried.opcode_of (by decide)
          exact agree_sub clean others
        | div =>
          obtain rfl := carried.opcode_of (by decide)
          exact iff_of_true (agree_div clean others) trivial
        | mod =>
          obtain rfl := carried.opcode_of (by decide)
          exact agree_mod clean others
        | pow =>
          obtain rfl := carried.opcode_of (by decide)
          exact iff_of_true (agree_pow others) trivial
        | _ => cases computed
  · rw [if_neg computed]
    have kept : compound E e op a b = e.give a := by
      cases op <;> first | rfl | exact absurd rfl computed
    obtain ⟨bop, opcode, bits⟩ : ∃ bop, binop_of op = some bop ∧ bop.bitwise = true := by
      cases op <;> first
        | exact ⟨_, rfl, rfl⟩
        | exact absurd rfl computed
        | (cases known; done)
        | cases logical
    obtain rfl := carried.opcode_of (by
      cases op <;> first | decide | exact absurd rfl computed | cases known)
    have exec : Form.opcode.exec E e op a b = LRJS.opcode E e bop a b := by
      simp only [Form.exec, opcode]
    rw [kept, exec, give_left_agrees_iff clean rangeA bits, opcode]
    constructor
    · rintro keeps _ ⟨⟩
      exact keeps
    · exact fun keeps => keeps bop rfl

def Converts (E : Engine) (e : EngineState) (op : BinaryOp) (a b : LRValue) : Prop :=
  op = .add → a.isString ∨ b.isString →
    ∀ left, E.lr_to_cstring e a = some left →
      ∀ right, E.lr_to_cstring left.2 b = some right → right.2.error = none

/-- An operator raises no error exactly on operands whose conversions raise none. -/
theorem converts_iff (clean : e.error = none) (op : BinaryOp) :
    (∀ outcome, compound E e op a b = some outcome → outcome.2.error = none) ↔
      Converts E e op a b := by
  unfold Converts
  by_cases concatenates : op = .add ∧ (a.isString ∨ b.isString)
  · obtain ⟨rfl, textual⟩ := concatenates
    simp only [compound, if_pos textual]
    constructor
    · intro calm _ _ left foundLeft right foundRight
      refine calm (.value (.string (left.1 ++ right.1)), right.2) ?_
      rw [foundLeft]
      simp only [bind_eq_bind, bind_some, foundRight]
      rfl
    · intro calm outcome found
      obtain ⟨left, foundLeft, found⟩ := bind_eq_some_iff.mp found
      obtain ⟨right, foundRight, found⟩ := bind_eq_some_iff.mp found
      rw [← some.inj found]
      exact calm trivial textual left foundLeft right foundRight
  · refine iff_of_true ?_ fun add textual => absurd ⟨add, textual⟩ concatenates
    intro outcome found
    have given : ∃ v, compound E e op a b = e.give v := by
      cases op with
      | add =>
        have plain : ¬ (a.isString ∨ b.isString) := fun textual => concatenates ⟨rfl, textual⟩
        simp only [compound, if_neg plain]
        exact ⟨_, rfl⟩
      | _ => exact ⟨_, rfl⟩
    obtain ⟨v, given⟩ := given
    rw [given] at found
    rw [← some.inj found]
    exact clean

/-- The conversion of an operand of `+` to a string never ends. -/
def Endless (E : Engine) (e : EngineState) (op : BinaryOp) (a b : LRValue) : Prop :=
  op = .add ∧ (a.isString ∨ b.isString) ∧
    (E.lr_to_cstring e a >>= fun left => E.lr_to_cstring left.2 b) = none

theorem compound_eq_none_iff {op : BinaryOp} : compound E e op a b = none ↔ Endless E e op a b := by
  unfold Endless
  by_cases concatenates : op = .add ∧ (a.isString ∨ b.isString)
  · obtain ⟨rfl, textual⟩ := concatenates
    rw [compound_eq rfl, tree_add_text textual, and_iff_right rfl, and_iff_right textual]
    cases E.lr_to_cstring e a with
    | none => exact iff_of_true rfl rfl
    | some left =>
      change (E.lr_to_cstring left.2 b >>= _) = none ↔ E.lr_to_cstring left.2 b = none
      cases E.lr_to_cstring left.2 b with
      | none => exact iff_of_true rfl rfl
      | some right => exact iff_of_false nofun nofun
  · refine iff_of_false ?_ fun endless => concatenates ⟨endless.1, endless.2.1⟩
    cases op with
    | add =>
      have plain : ¬ (a.isString ∨ b.isString) := fun textual => concatenates ⟨rfl, textual⟩
      simp only [compound, if_neg plain]
      exact nofun
    | _ => exact nofun

theorem exec_eq_none {op : BinaryOp} {form : Form} (carried : form.Carries op b)
    (endless : Endless E e op a b) : form.exec E e op a b = none := by
  obtain ⟨rfl, textual, never⟩ := endless
  rcases exec_text (E := E) (s := e) textual carried with ⟨-, concat⟩ | ⟨m, y, rfl, rfl, -, -⟩
  · rw [concat]
    cases left : a.isString with
    | false =>
      rw [bcv_concat_other left]
      cases first : E.lr_to_cstring e a with
      | none => rfl
      | some left =>
        rw [first] at never
        change (E.lr_to_cstring left.2 b >>= _) = none
        rw [show E.lr_to_cstring left.2 b = none from never]
        rfl
    | true =>
      cases a <;> cases left
      rw [lr_to_cstring_string] at never
      have right : E.lr_to_cstring e b = none := never
      rw [bcv_concat_left]
      cases b with
      | string y =>
        rw [lr_to_cstring_string] at right
        cases right
      | _ => exact congrArg (· >>= _) right
  · rw [lr_to_cstring_int32] at never
    have right : E.lr_to_cstring e (.string y) = none := never
    rw [lr_to_cstring_string] at right
    cases right

/-! ## The compiled code -/

section Code

variable (host : Host W)

/-- The code that reads a target, and that which stores what lies on the stack over the object
and the key. -/
def readCode : Target → List (Step (W := W))
  | .identifier => [.load]
  | .member => [.object, .dup, .getProp]
  | .computed => [.object, .key, .dup2, .getElem]

def writeCode : Place → List (Step (W := W))
  | .binding => [.dup, .store]
  | .property _ none => [.setProp]
  | .property _ (some _) => [.setElem]

def Place.under : Place → List Computed
  | .binding => []
  | .property obj none => [.value obj]
  | .property obj (some key) => [.value key, .value obj]

def Place.Of (target : Target) : Place → Prop
  | .binding => target = .identifier
  | .property _ none => target = .member
  | .property _ (some _) => target = .computed

variable {stack : List Computed}

theorem runSteps_checked {step : Step (W := W)} {after : List Computed} {s s' : State W}
    (steps : List (Step (W := W))) (executed : exec host step stack s = some (check after s')) :
    runSteps host (step :: steps) stack s =
      if s'.raised then some (none, s') else runSteps host steps after s' := by
  simp only [runSteps, executed]
  cases raised : s'.raised with
  | true | false => simp [check, raised]

theorem runSteps_plain {step : Step (W := W)} {after : List Computed} {s s' : State W}
    (steps : List (Step (W := W))) (executed : exec host step stack s = some (some after, s')) :
    runSteps host (step :: steps) stack s = runSteps host steps after s' := by
  simp only [runSteps, executed]
  rfl

section

variable (next : Place → LRValue → State W → Option (Computed × State W)) (s : State W)
include next s

theorem withTarget_member :
    withTarget host .member next s =
      if (host.evalObject s).2.raised then
        some (.value .undefined, (host.evalObject s).2)
      else
        readThen host (.property (host.evalObject s).1 none) next (host.evalObject s).2 := by
  unfold withTarget locate
  by_cases evaluated : (host.evalObject s).2.raised = true
  · simp [evaluated]
  · simp [evaluated]

theorem withTarget_computed :
    withTarget host .computed next s =
      if (host.evalObject s).2.raised then
        some (.value .undefined, (host.evalObject s).2)
      else if (host.evalKey (host.evalObject s).2).2.raised then
        some (.value .undefined, (host.evalKey (host.evalObject s).2).2)
      else
        readThen host
          (.property (host.evalObject s).1 (some (host.evalKey (host.evalObject s).2).1)) next
          (host.evalKey (host.evalObject s).2).2 := by
  unfold withTarget locate
  by_cases evaluated : (host.evalObject s).2.raised = true
  · simp [evaluated]
  · by_cases keyed : (host.evalKey (host.evalObject s).2).2.raised = true
    · simp [evaluated, keyed]
    · simp [evaluated, keyed]

end

theorem run_read (rest : List (Step (W := W))) {step : Step (W := W)} (place : Place) (s : State W)
    (next : Place → LRValue → State W → Option (Computed × State W))
    (reading : exec host step stack s = some (check
      (.value (readPlace host place s).1 :: place.under) (readPlace host place s).2))
    (follows : ∀ left s,
      (runSteps host rest (.value left :: place.under) s).map settle = next place left s) :
    (runSteps host (step :: rest) stack s).map settle = readThen host place next s := by
  rw [runSteps_checked host rest reading]
  unfold readThen
  by_cases read : (readPlace host place s).2.raised = true
  · simp [read, settle]
  · simp only [read, Bool.false_eq_true, if_false]
    exact follows _ _

/-- The code of a target goes on with its place and its value. -/
theorem run_readCode (target : Target) (rest : List (Step (W := W))) (s : State W)
    (next : Place → LRValue → State W → Option (Computed × State W))
    (follows : ∀ place left s, place.Of target →
      (runSteps host rest (.value left :: place.under) s).map settle = next place left s) :
    runCode host (readCode target ++ rest) s = withTarget host target next s := by
  cases target with
  | identifier => exact run_read host rest .binding s next rfl (follows .binding · · rfl)
  | member =>
    have evaluating : exec host .object [] s =
        some (check [.value (host.evalObject s).1] (host.evalObject s).2) := rfl
    change (runSteps host (.object :: .dup :: .getProp :: rest) [] s).map settle = _
    rw [runSteps_checked host _ evaluating, withTarget_member]
    by_cases evaluated : (host.evalObject s).2.raised = true
    · rw [if_pos evaluated, if_pos evaluated]
      rfl
    · rw [if_neg evaluated, if_neg evaluated, runSteps_plain host _ rfl]
      exact run_read host rest (.property _ none) _ next rfl (follows (.property _ none) · · rfl)
  | computed =>
    have evaluating : exec host .object [] s =
        some (check [.value (host.evalObject s).1] (host.evalObject s).2) := rfl
    change (runSteps host (.object :: .key :: .dup2 :: .getElem :: rest) [] s).map settle = _
    rw [runSteps_checked host _ evaluating, withTarget_computed]
    by_cases evaluated : (host.evalObject s).2.raised = true
    · rw [if_pos evaluated, if_pos evaluated]
      rfl
    · have keying : exec host .key [.value (host.evalObject s).1] (host.evalObject s).2 =
          some (check [.value (host.evalKey (host.evalObject s).2).1,
            .value (host.evalObject s).1] (host.evalKey (host.evalObject s).2).2) := rfl
      rw [if_neg evaluated, if_neg evaluated, runSteps_checked host _ keying]
      by_cases keyed : (host.evalKey (host.evalObject s).2).2.raised = true
      · rw [if_pos keyed, if_pos keyed]
        rfl
      · rw [if_neg keyed, if_neg keyed, runSteps_plain host _ rfl]
        exact run_read host rest (.property _ (some _)) _ next rfl
          (follows (.property _ (some _)) · · rfl)

theorem run_writeCode (form : Form) (op : BinaryOp) (place : Place) (left right : LRValue)
    (s : State W) :
    (runSteps host (.binary form op :: writeCode place)
        (.value right :: .value left :: place.under) s).map settle =
      (form.exec host.E s.engine op left right).map (finish host place id s) := by
  cases result : form.exec host.E s.engine op left right with
  | none => simp [runSteps, exec, result]
  | some outcome =>
    have executed : exec host (.binary form op) (.value right :: .value left :: place.under) s =
        some (check (outcome.1 :: place.under) { s with engine := outcome.2 }) := by
      simp [exec, result]
    rw [runSteps_checked host _ executed]
    simp only [map_some, finish]
    split
    · rfl
    · next calm =>
        cases place with
        | binding =>
          have still : (host.storeVariable outcome.1 { s with engine := outcome.2 }).raised =
              false := Bool.eq_false_iff.mpr calm
          change (runSteps host [.dup, .store] [outcome.1] _).map settle = _
          rw [runSteps_plain host _ rfl, runSteps_checked host _ rfl, still]
          rfl
        | property obj key =>
          cases key with
          | none | some key => rfl

variable {target : Target}

theorem code_of_target (site : Site host) {op : BinaryOp} {bop : BinOp}
    (opcode : binop_of op = some bop) {place : Place} (of : place.Of target)
    (noSlot : target = .identifier → site.slot = false ∨ (op ≠ .add ∧ op ≠ .mul)) :
    cassign host site op target =
      readCode target ++ .value :: .binary (site.form op) op :: writeCode place := by
  unfold cassign
  rw [opcode]
  cases place with
  | binding =>
    obtain rfl := of
    rcases noSlot rfl with none | ⟨notAdd, notMul⟩
    · rw [none]
      rfl
    · cases site.slot with
      | false => rfl
      | true =>
        cases op with
        | add => exact absurd rfl notAdd
        | mul => exact absurd rfl notMul
        | _ => rfl
  | property obj key =>
    cases key with
    | none | some key =>
      obtain rfl := of
      rfl

theorem writeCode_of {place place' : Place} (of : place.Of target) (of' : place'.Of target) :
    writeCode (W := W) place = writeCode place' := by
  rcases place with _ | ⟨obj, _ | key⟩ <;> rcases place' with _ | ⟨obj', _ | key'⟩ <;>
    first | rfl | (rw [show target = _ from of] at of'; cases of')

/-- Where no slot is used, the compiled code carries out the assignment as it should be, with the
form of its operator. -/
theorem run_cassign (site : Site host) {op : BinaryOp} {bop : BinOp}
    (opcode : binop_of op = some bop)
    (noSlot : target = .identifier → site.slot = false ∨ (op ≠ .add ∧ op ≠ .mul)) (s : State W) :
    runCode host (cassign host site op target) s =
      assignOnce host (site.form op) op target s := by
  have plain : ¬ (op = .andAnd ∨ op = .orOr ∨ op = .nullish) := by
    rintro (rfl | rfl | rfl) <;> cases opcode
  have no_short : ∀ left, shortCircuits op left = false := by
    intro left
    cases op <;> first | rfl | cases opcode
  have tail : ∀ place left s,
      (runSteps host (.value :: .binary (site.form op) op :: writeCode place)
        (.value left :: place.under) s).map settle =
      if (host.evalValue s).2.raised then
        some (.value .undefined, (host.evalValue s).2)
      else
        ((site.form op).exec host.E (host.evalValue s).2.engine op left
          (host.evalValue s).1).map (finish host place id (host.evalValue s).2) := by
    intro place left s
    have evaluating : exec host .value (.value left :: place.under) s =
        some (check (.value (host.evalValue s).1 :: .value left :: place.under)
          (host.evalValue s).2) := rfl
    rw [runSteps_checked host _ evaluating]
    by_cases evaluated : (host.evalValue s).2.raised = true
    · rw [if_pos evaluated, if_pos evaluated]
      rfl
    · rw [if_neg evaluated, if_neg evaluated]
      exact run_writeCode host (site.form op) op place left _ _
  obtain ⟨place, of⟩ : ∃ place, Place.Of target place := by
    cases target with
    | identifier => exact ⟨.binding, rfl⟩
    | member => exact ⟨.property .null none, rfl⟩
    | computed => exact ⟨.property .null (some .null), rfl⟩
  rw [code_of_target host site opcode of noSlot]
  unfold assignOnce
  simp only [no_short, if_neg plain, Bool.false_eq_true, if_false]
  apply run_readCode host target
  intro place' left s of'
  rw [← tail place' left s, writeCode_of of of']

end Code

/-! ## Observations -/

section Observations

variable {host : Host W} {s : State W}

theorem Event.Same.refl (event : Event) : event.Same event := by
  cases event with
  | store result | set result => exact Computed.Same.refl result
  | _ => trivial

theorem same_log (log : List Event) : List.Forall₂ Event.Same log log := by
  induction log with
  | nil => exact .nil
  | cons event log ih => exact .cons (Event.Same.refl event) ih

theorem same_append_iff {log first second : List Event} :
    List.Forall₂ Event.Same (log ++ first) (log ++ second) ↔
      List.Forall₂ Event.Same first second := by
  induction log with
  | nil => rfl
  | cons event log ih =>
    rw [cons_append, cons_append, forall₂_cons, ih]
    exact and_iff_right (Event.Same.refl event)

theorem agree_some {c d : Computed} {t : State W} :
    Agree E (some (c, s)) (some (d, t)) ↔
      List.Forall₂ Event.Same s.log t.log ∧ E.SameOutcome (c, s.engine) (d, t.engine) :=
  rel_some_some

theorem agree_raised {c d : Computed} (raised : s.raised = true) :
    Agree E (some (c, s)) (some (d, s)) := by
  obtain ⟨error, found⟩ := isSome_iff_exists.mp raised
  refine agree_some.mpr ⟨same_log s.log, ?_⟩
  simp only [Engine.SameOutcome, found]

theorem agree_refl (x : Option (Computed × State W)) : Agree E x x := by
  cases x with
  | none => exact rel_none_none
  | some x =>
    refine agree_some.mpr ⟨same_log x.2.log, ?_⟩
    exact rel_some_some.mp (Engine.Agree.refl (some (x.1, x.2.engine)))

theorem raised_eq_false : s.raised = false ↔ s.engine.error = none := by
  exact isSome_eq_false_iff.trans isNone_iff_eq_none

/-- The variable is stored by both, or by the tree-walker only, which does not stop at an error
of the operator. -/
theorem agree_store_iff (tree vm : Option (Computed × EngineState)) :
    Agree E (tree.map fun o => (o.1, host.storeVariable o.1 { s with engine := o.2 }))
        (vm.map (finish host .binding id s)) ↔
      E.Agree tree vm ∧ ∀ o, tree = some o → o.2.error = none := by
  cases tree with
  | none =>
    cases vm with
    | none => exact iff_of_true rel_none_none ⟨rel_none_none, nofun⟩
    | some p => exact iff_of_false nofun fun both => nomatch both.1
  | some o =>
    cases vm with
    | none => exact iff_of_false nofun fun both => nomatch both.1
    | some p =>
      have only : (∀ o', some o = some o' → o'.2.error = none) ↔ o.2.error = none := by
        simp
      rw [only, map_some, map_some]
      cases raised : p.2.error with
      | some error =>
        have stops : finish host .binding id s p =
            (.value .undefined, { s with engine := p.2 }) := by
          simp [finish, State.raised, raised]
        rw [stops]
        refine iff_of_false ?_ ?_
        · intro agree
          have lengths := (agree_some.mp agree).1.length_eq
          simp [Host.storeVariable] at lengths
        · rintro ⟨agree, calm⟩
          have same := rel_some_some.mp agree
          simp only [Engine.SameOutcome, calm, raised] at same
      | none =>
        have goes_on : finish host .binding id s p =
            (p.1, host.storeVariable p.1 { s with engine := p.2 }) := by
          simp [finish, State.raised, raised, writePlace]
        rw [goes_on, agree_some]
        simp only [Host.storeVariable, same_append_iff, forall₂_cons]
        unfold Engine.Agree
        rw [rel_some_some]
        cases error : o.2.error with
        | some e => simp [Engine.SameOutcome, error, raised]
        | none =>
          simp only [Engine.SameOutcome, error, raised, Event.Same, and_true,
            List.Forall₂.nil]
          exact and_self_iff

/-- A member that is evaluated again is seen in the order of evaluations. -/
theorem not_agree_back {target : Target}
    (no_identifier : target ≠ .identifier) (result c d : Computed) (t : State W)
    (same : t.log = s.log) (u : State W)
    (wrote : u.log = s.log ∨ ∃ event, u.log = s.log ++ [event] ∧ event ≠ .object) :
    ¬ Agree E (some (c, host.assignBack target result t)) (some (d, u)) := by
  have again : ∃ rest, (host.assignBack target result t).log = s.log ++ .object :: rest := by
    cases target with
    | identifier => exact absurd rfl no_identifier
    | member =>
      simp only [Host.assignBack]
      split
      · exact ⟨[], by simp [Host.evalObject, State.act, same]⟩
      · exact ⟨[.set result], by simp [Host.setProperty, Host.evalObject, State.act, same]⟩
    | computed =>
      simp only [Host.assignBack]
      split
      · exact ⟨[.key], by simp [Host.evalKey, Host.evalObject, State.act, same]⟩
      · exact ⟨[.key, .set result], by
          simp [Host.setProperty, Host.evalKey, Host.evalObject, State.act, same]⟩
  obtain ⟨rest, again⟩ := again
  intro agree
  have logs := (agree_some.mp agree).1
  rw [again] at logs
  rcases wrote with none | ⟨event, wrote, other⟩
  · rw [none, ← append_nil s.log, append_assoc] at logs
    cases same_append_iff.mp logs
  · rw [wrote] at logs
    cases same_append_iff.mp logs with
    | cons head _ =>
      cases event with
      | object => exact other rfl
      | _ => exact head

theorem agree_member_iff {target : Target} (no_identifier : target ≠ .identifier)
    {obj : LRValue} {key : Option LRValue} (tree vm : Option (Computed × EngineState)) :
    Agree E (tree.map fun o => (o.1, host.assignBack target o.1 { s with engine := o.2 }))
        (vm.map (finish host (.property obj key) id s)) ↔ tree = none ∧ vm = none := by
  cases tree with
  | none =>
    cases vm with
    | none => exact iff_of_true rel_none_none ⟨rfl, rfl⟩
    | some p => exact iff_of_false nofun fun both => nomatch both.2
  | some o =>
    cases vm with
    | none => exact iff_of_false nofun fun both => nomatch both.1
    | some p =>
      refine iff_of_false ?_ fun both => nomatch both.1
      simp only [map_some, finish]
      split
      · exact not_agree_back no_identifier _ _ _ _ rfl _ (.inl rfl)
      · exact not_agree_back no_identifier _ _ _ _ rfl _
          (.inr ⟨.set _, rfl, fun same => nomatch same⟩)

end Observations

/-! ## Assignments -/

section Assignment

variable {host : Host W} {target : Target}

variable {s : State W}

theorem withTarget_raised (next : Place → LRValue → State W → Option (Computed × State W))
    (raised : (host.evalTarget target s).2.raised = true) :
    withTarget host target next s =
      some (.value .undefined, (host.evalTarget target s).2) := by
  cases target with
  | identifier => exact if_pos raised
  | member =>
    rw [withTarget_member]
    simp only [Host.evalTarget] at raised ⊢
    by_cases evaluated : (host.evalObject s).2.raised = true
    · simp [evaluated]
    · simp only [evaluated, Bool.false_eq_true, if_false] at raised ⊢
      exact if_pos raised
  | computed =>
    rw [withTarget_computed]
    simp only [Host.evalTarget] at raised ⊢
    by_cases evaluated : (host.evalObject s).2.raised = true
    · simp [evaluated]
    · by_cases keyed : (host.evalKey (host.evalObject s).2).2.raised = true
      · simp [evaluated, keyed]
      · simp only [evaluated, keyed, Bool.false_eq_true, if_false] at raised ⊢
        exact if_pos raised

theorem withTarget_calm (calm : (host.evalTarget target s).2.raised = false) :
    ∃ place, Place.Of target place ∧
      ∀ next : Place → LRValue → State W → Option (Computed × State W),
        withTarget host target next s =
          next place (host.evalTarget target s).1 (host.evalTarget target s).2 := by
  have not_raised := Bool.eq_false_iff.mp calm
  cases target with
  | identifier => exact ⟨.binding, rfl, fun next => if_neg not_raised⟩
  | member =>
    simp only [Host.evalTarget] at not_raised ⊢
    by_cases evaluated : (host.evalObject s).2.raised = true
    · simp only [evaluated, if_true] at not_raised
      exact absurd rfl not_raised
    · simp only [evaluated, Bool.false_eq_true, if_false] at not_raised ⊢
      refine ⟨.property (host.evalObject s).1 none, rfl, fun next => ?_⟩
      rw [withTarget_member, if_neg evaluated]
      exact if_neg not_raised
  | computed =>
    simp only [Host.evalTarget] at not_raised ⊢
    by_cases evaluated : (host.evalObject s).2.raised = true
    · simp only [evaluated, if_true] at not_raised
      exact absurd rfl not_raised
    · by_cases keyed : (host.evalKey (host.evalObject s).2).2.raised = true
      · simp only [evaluated, keyed, Bool.false_eq_true, if_false, if_true] at not_raised
        exact absurd rfl not_raised
      · simp only [evaluated, keyed, Bool.false_eq_true, if_false] at not_raised ⊢
        refine ⟨.property (host.evalObject s).1
          (some (host.evalKey (host.evalObject s).2).1), rfl, fun next => ?_⟩
        rw [withTarget_computed, if_neg evaluated, if_neg keyed]
        exact if_neg not_raised

theorem logical_iff (op : BinaryOp) :
    (op = .andAnd ∨ op = .orOr ∨ op = .nullish) ↔ isLogical op = true := by
  cases op <;> decide

theorem isLogical_iff_binop_of (op : BinaryOp) : isLogical op = true ↔ binop_of op = none := by
  cases op <;> decide

variable {op : BinaryOp}

theorem eval_assign_raised (raised : (host.evalTarget target s).2.raised = true) :
    eval_assign host op target s =
      some (.value (host.evalTarget target s).1, (host.evalTarget target s).2) :=
  if_pos raised

theorem eval_assign_logical (logical : isLogical op = true)
    (calm : (host.evalTarget target s).2.raised = false) :
    eval_assign host op target s =
      if shortCircuits op (host.evalTarget target s).1 then
        some (.value (host.evalTarget target s).1, (host.evalTarget target s).2)
      else if (host.evalValue (host.evalTarget target s).2).2.raised then
        some (.value (host.evalValue (host.evalTarget target s).2).1,
          (host.evalValue (host.evalTarget target s).2).2)
      else
        some (.value (host.evalValue (host.evalTarget target s).2).1,
          host.assignBack target (.value (host.evalValue (host.evalTarget target s).2).1)
            (host.evalValue (host.evalTarget target s).2).2) := by
  unfold eval_assign
  simp only [calm, Bool.false_eq_true, if_false, if_pos ((logical_iff op).mpr logical)]

theorem eval_assign_compound (other : isLogical op = false)
    (calm : (host.evalTarget target s).2.raised = false) :
    eval_assign host op target s =
      if (host.evalValue (host.evalTarget target s).2).2.raised then
        some (.value (host.evalValue (host.evalTarget target s).2).1,
          (host.evalValue (host.evalTarget target s).2).2)
      else
        (compound host.E (host.evalValue (host.evalTarget target s).2).2.engine op
          (host.evalTarget target s).1 (host.evalValue (host.evalTarget target s).2).1).map
            fun o => (o.1, host.assignBack target o.1
              { (host.evalValue (host.evalTarget target s).2).2 with engine := o.2 }) := by
  have plain : ¬ (op = .andAnd ∨ op = .orOr ∨ op = .nullish) := by
    rw [logical_iff, other]
    exact Bool.false_ne_true
  unfold eval_assign
  simp only [calm, Bool.false_eq_true, if_false, if_neg plain]
  split
  · rfl
  · cases compound host.E (host.evalValue (host.evalTarget target s).2).2.engine op
      (host.evalTarget target s).1 (host.evalValue (host.evalTarget target s).2).1 with
    | none | some o => rfl

theorem agree_evalNode (run : State W → Option (Computed × State W)) (s : State W) :
    Agree E (run s) (runCode host [.evalNode run] s) := by
  unfold runCode
  cases result : run s with
  | none =>
    have executed : runSteps host [.evalNode run] [] s = none := by
      simp [runSteps, exec, result]
    rw [executed]
    exact rel_none_none
  | some o =>
    have executed : exec host (.evalNode run) [] s = some (check [o.1] o.2) := by
      simp [exec, result]
    rw [runSteps_checked host [] executed]
    by_cases raised : o.2.raised = true
    · rw [if_pos raised]
      exact agree_raised raised
    · rw [if_neg raised]
      exact agree_refl (some o)

theorem Place.Of.not_identifier {obj : LRValue} {key : Option LRValue}
    (of : Place.Of target (.property obj key)) : target ≠ .identifier := by
  cases key with
  | none | some key =>
    obtain rfl := of
    exact fun same => nomatch same

/-- `BC_ADD_SELF` or `BC_MUL_SELF` is used. -/
def Site.usesSlot (site : Site host) (op : BinaryOp) : Bool :=
  site.slot && (op == .add || op == .mul)

def selfForm : BinaryOp → Form
  | .mul => .mulSelf
  | _ => .addSelf

/-- The instruction suits the operands.  A slot has the value after the right-hand side, which must
be the old one. -/
def Site.OperatorFits (site : Site host) (op : BinaryOp) (left right : LRValue) (s : State W) :
    Prop :=
  if site.usesSlot op then
    (host.loadVariable s).1 = left ∧ OperatorAgrees host.E s.engine (selfForm op) op left right
  else
    OperatorAgrees host.E s.engine (site.form op) op left right

/-- The right-hand side changes the variable, which a slot holds: the results can coincide. -/
def Changes (site : Site host) (op : BinaryOp) (target : Target) (s : State W) : Prop :=
  let left := host.evalTarget target s
  target = .identifier ∧ site.usesSlot op = true ∧
    (host.loadVariable (host.evalValue left.2).2).1 ≠ left.1

/-- The assignment ends before anything is stored, or its target is an identifier and the values
suit its operator. -/
def AssignFits (site : Site host) (op : BinaryOp) (target : Target) (s : State W) : Prop :=
  let left := host.evalTarget target s
  let right := host.evalValue left.2
  left.2.raised = true ∨ shortCircuits op left.1 = true ∨ right.2.raised = true ∨
    match target with
    | .identifier =>
      isLogical op = true ∨
        (Converts host.E right.2.engine op left.1 right.1 ∧
          OperatorAgrees host.E right.2.engine .opcode op left.1 right.1 ∧
          site.OperatorFits op left.1 right.1 right.2)
    | _ => isLogical op = false ∧ Endless host.E right.2.engine op left.1 right.1

/-- A logical assignment is faithful exactly on its condition. -/
theorem logical_faithful_iff (site : Site host) (logical : isLogical op = true)
    (target : Target) (s : State W) :
    Faithful site (.assign op) target s ↔ AssignFits site op target s := by
  have code : compile host site (.assign op) target = [.evalNode (eval_assign host op target)] := by
    simp only [compile, cassign, (isLogical_iff_binop_of op).mp logical]
  have named := (logical_iff op).mpr logical
  unfold Faithful AssignFits
  rw [code]
  refine (and_iff_left (agree_evalNode (eval_assign host op target) s)).trans ?_
  simp only [evaluate, evaluateOnce, assignOnce]
  by_cases raised : (host.evalTarget target s).2.raised = true
  · rw [withTarget_raised _ raised, eval_assign_raised raised]
    exact iff_of_true (agree_raised raised) (.inl raised)
  · have calm := Bool.eq_false_iff.mpr raised
    obtain ⟨place, of, reads⟩ := withTarget_calm calm
    rw [or_iff_right raised, reads, eval_assign_logical logical calm]
    by_cases short : shortCircuits op (host.evalTarget target s).1 = true
    · rw [if_pos short, if_pos short]
      exact iff_of_true (agree_refl _) (.inl short)
    · rw [or_iff_right short, if_neg short, if_neg short]
      by_cases failed : (host.evalValue (host.evalTarget target s).2).2.raised = true
      · rw [if_pos failed, if_pos failed]
        exact iff_of_true (agree_raised failed) (.inl failed)
      · rw [or_iff_right failed, if_neg failed, if_neg failed, if_pos named]
        cases place with
        | binding =>
          obtain rfl := of
          exact iff_of_true (agree_refl _) (.inl logical)
        | property obj key =>
          have no_identifier := of.not_identifier
          refine iff_of_false ?_ ?_
          · exact not_agree_back no_identifier _ _ _ _ rfl _
              (.inr ⟨.set _, rfl, fun same => nomatch same⟩)
          · intro fits
            cases target with
            | identifier => exact no_identifier rfl
            | member | computed => exact absurd logical (Bool.eq_false_iff.mp fits.1)

/-- An assignment agrees with the one that evaluates its target once exactly if an evaluation raises
an error, or the target is a name and the operands agree. -/
theorem assignOnce_agrees_iff (host : Host W) (target : Target)
    (known : assignable op = true) (other : isLogical op = false) (form : Form)
    (carried : ∀ b, form.Carries op b) (s : State W) :
    Agree host.E (eval_assign host op target s) (assignOnce host form op target s) ↔
      let left := host.evalTarget target s
      let right := host.evalValue left.2
      left.2.raised = true ∨ right.2.raised = true ∨
        match target with
        | .identifier =>
          Converts host.E right.2.engine op left.1 right.1 ∧
            OperatorAgrees host.E right.2.engine form op left.1 right.1
        | _ =>
          compound host.E right.2.engine op left.1 right.1 = none ∧
            form.exec host.E right.2.engine op left.1 right.1 = none := by
  have plain : ¬ (op = .andAnd ∨ op = .orOr ∨ op = .nullish) := by
    rw [logical_iff, other]
    exact Bool.false_ne_true
  have no_short : ∀ left, shortCircuits op left = false := by
    intro left
    cases op <;> first | rfl | cases other
  simp only [assignOnce, no_short, if_neg plain, Bool.false_eq_true, if_false]
  by_cases raised : (host.evalTarget target s).2.raised = true
  · rw [withTarget_raised _ raised, eval_assign_raised raised]
    exact iff_of_true (agree_raised raised) (.inl raised)
  · have calm := Bool.eq_false_iff.mpr raised
    obtain ⟨place, of, reads⟩ := withTarget_calm calm
    rw [or_iff_right raised, reads, eval_assign_compound other calm]
    by_cases failed : (host.evalValue (host.evalTarget target s).2).2.raised = true
    · rw [if_pos failed, if_pos failed]
      exact iff_of_true (agree_raised failed) (.inl failed)
    · rw [or_iff_right failed, if_neg failed, if_neg failed]
      cases place with
      | binding =>
        obtain rfl := of
        have clean := raised_eq_false.mp (Bool.eq_false_iff.mpr failed)
        have table := compound_agrees_iff (E := host.E) clean
          (host.load_range s.engine s.rest)
          (host.value_range (host.loadVariable s).2.engine (host.loadVariable s).2.rest)
          known other (carried _)
        refine (agree_store_iff _ _).trans ((and_congr table (converts_iff clean op)).trans ?_)
        exact And.comm
      | property obj key =>
        have no_identifier := of.not_identifier
        have ends : Agree host.E
            ((compound host.E (host.evalValue (host.evalTarget target s).2).2.engine op
              (host.evalTarget target s).1
              (host.evalValue (host.evalTarget target s).2).1).map fun o =>
                (o.1, host.assignBack target o.1
                  { (host.evalValue (host.evalTarget target s).2).2 with engine := o.2 }))
            ((form.exec host.E (host.evalValue (host.evalTarget target s).2).2.engine op
              (host.evalTarget target s).1
              (host.evalValue (host.evalTarget target s).2).1).map
                (finish host (.property obj key) id
                  (host.evalValue (host.evalTarget target s).2).2)) ↔ _ ∧ _ :=
          agree_member_iff no_identifier _ _
        cases target with
        | identifier => exact absurd rfl no_identifier
        | member | computed => exact ends

theorem loadVariable_slot (site : Site host) (slotted : site.slot = true) (s : State W) :
    (host.loadVariable s).2 = s := by
  have pure_ := site.slot_pure slotted s.engine s.rest
  simp [Host.loadVariable, State.act, pure_]

variable {site : Site host}

theorem usesSlot_iff : site.usesSlot op = true ↔ site.slot = true ∧ (op = .add ∨ op = .mul) := by
  unfold Site.usesSlot
  cases site.slot <;> cases op <;> decide

theorem run_self (form : Form) (op : BinaryOp) (right : LRValue) (s : State W) :
    (runSteps host [.self form op] [.value right] s).map settle =
      (form.exec host.E s.engine op (host.loadVariable s).1 right).map
        (finish host .binding id s) := by
  cases result : form.exec host.E s.engine op (host.loadVariable s).1 right with
  | none => simp [runSteps, exec, result]
  | some outcome =>
    by_cases raised : State.raised { s with engine := outcome.2 } = true
    · simp [runSteps, exec, result, finish, raised, settle]
    · simp [runSteps, exec, result, finish, raised, settle, writePlace]

theorem run_cassign_slot (slot : site.usesSlot op = true) (s : State W) :
    runCode host (cassign host site op .identifier) s =
      if (host.evalValue s).2.raised then
        some (.value .undefined, (host.evalValue s).2)
      else
        ((selfForm op).exec host.E (host.evalValue s).2.engine op
          (host.loadVariable (host.evalValue s).2).1 (host.evalValue s).1).map
            (finish host .binding id (host.evalValue s).2) := by
  have code : cassign host site op .identifier = [.value, .self (selfForm op) op] := by
    obtain ⟨slotted, rfl | rfl⟩ := usesSlot_iff.mp slot
    · unfold cassign
      rw [slotted]
      rfl
    · unfold cassign
      rw [slotted]
      rfl
  have evaluating : exec host .value [] s =
      some (check [.value (host.evalValue s).1] (host.evalValue s).2) := rfl
  rw [code]
  unfold runCode
  rw [runSteps_checked host _ evaluating]
  by_cases evaluated : (host.evalValue s).2.raised = true
  · rw [if_pos evaluated, if_pos evaluated]
    rfl
  · rw [if_neg evaluated, if_neg evaluated]
    exact run_self (selfForm op) op _ _

theorem operatorFits_slot (slot : site.usesSlot op = true) (clean : s.raised = false)
    (rangeA : InRange a) (rangeB : InRange b) (again : (host.loadVariable s).1 = a) :
    host.E.Agree (compound host.E s.engine op a b)
        ((selfForm op).exec host.E s.engine op (host.loadVariable s).1 b) ↔
      site.OperatorFits op a b s := by
  have still := raised_eq_false.mp clean
  have which := (usesSlot_iff.mp slot).2
  have carried : (selfForm op).Carries op b := by
    rcases which with rfl | rfl <;> rfl
  have known : assignable op = true ∧ isLogical op = false := by
    rcases which with rfl | rfl <;> exact ⟨rfl, rfl⟩
  simp only [Site.OperatorFits, if_pos slot]
  rw [and_iff_right again, again]
  exact compound_agrees_iff still rangeA rangeB known.1 known.2 carried

theorem slot_agrees_iff (slot : site.usesSlot op = true) (clean : s.raised = false) :
    Agree host.E (eval_assign host op .identifier s)
        (runCode host (cassign host site op .identifier) s) ↔
      let left := host.loadVariable s
      let right := host.evalValue left.2
      right.2.raised = true ∨
        (Converts host.E right.2.engine op left.1 right.1 ∧
          host.E.Agree (compound host.E right.2.engine op left.1 right.1)
            ((selfForm op).exec host.E right.2.engine op (host.loadVariable right.2).1
              right.1)) := by
  obtain ⟨slotted, which⟩ := usesSlot_iff.mp slot
  have unchanged := loadVariable_slot site slotted s
  have other : isLogical op = false := by rcases which with rfl | rfl <;> rfl
  have calm : (host.evalTarget .identifier s).2.raised = false := by
    rw [show host.evalTarget .identifier s = host.loadVariable s from rfl, unchanged]
    exact clean
  rw [eval_assign_compound other calm, run_cassign_slot slot]
  simp only [Host.evalTarget, unchanged]
  by_cases failed : (host.evalValue s).2.raised = true
  · rw [if_pos failed, if_pos failed]
    exact iff_of_true (agree_raised failed) (.inl failed)
  · rw [or_iff_right failed, if_neg failed, if_neg failed]
    have still := raised_eq_false.mp (Bool.eq_false_iff.mpr failed)
    refine (agree_store_iff _ _).trans ?_
    rw [converts_iff still op]
    exact And.comm

theorem Site.form_carries (site : Site host) (op : BinaryOp) (b : LRValue) :
    (site.form op).Carries op b := by
  unfold Site.form
  split <;> trivial

/-- For a name in a slot the two directions meet except where the right-hand side changes it. -/
theorem slot_faithful (site : Site host) (slot : site.usesSlot op = true)
    (clean : s.raised = false) :
    (AssignFits site op .identifier s → Faithful site (.assign op) .identifier s) ∧
      (Faithful site (.assign op) .identifier s →
        Changes site op .identifier s ∨ AssignFits site op .identifier s) := by
  have which := (usesSlot_iff.mp slot).2
  have known : assignable op = true ∧ isLogical op = false := by
    rcases which with rfl | rfl <;> exact ⟨rfl, rfl⟩
  have no_short : ∀ left, shortCircuits op left = false := by
    rcases which with rfl | rfl <;> exact fun _ => rfl
  have tree := assignOnce_agrees_iff host .identifier known.1 known.2 .opcode (fun _ => trivial) s
  have vm := slot_agrees_iff slot clean
  have unchanged := loadVariable_slot site (usesSlot_iff.mp slot).1 s
  have calm : ¬ (host.loadVariable s).2.raised = true := by
    rw [unchanged, clean]
    exact Bool.false_ne_true
  have fits (still : (host.evalValue (host.loadVariable s).2).2.raised = false) :=
    operatorFits_slot slot still (host.load_range s.engine s.rest)
      (host.value_range (host.loadVariable s).2.engine (host.loadVariable s).2.rest)
  unfold Faithful AssignFits Changes
  simp only [no_short, Bool.false_eq_true, false_or, known.2]
  simp only [Host.evalTarget, or_iff_right calm] at tree ⊢
  by_cases failed : (host.evalValue (host.loadVariable s).2).2.raised = true
  · exact ⟨fun _ => ⟨tree.mpr (.inl failed), vm.mpr (.inl failed)⟩, fun _ => .inr (.inl failed)⟩
  · have still := Bool.eq_false_iff.mpr failed
    rw [or_iff_right failed]
    constructor
    · rintro ⟨converts, agrees, suits⟩
      have again := (show _ ∧ _ by simpa only [Site.OperatorFits, if_pos slot] using suits).1
      exact ⟨tree.mpr (.inr ⟨converts, agrees⟩),
        vm.mpr (.inr ⟨converts, (fits still again).mpr suits⟩)⟩
    · rintro ⟨once, run⟩
      by_cases again : (host.loadVariable (host.evalValue (host.loadVariable s).2).2).1 =
          (host.loadVariable s).1
      · obtain ⟨converts, agrees⟩ := (tree.mp once).resolve_left failed
        have same := ((vm.mp run).resolve_left failed).2
        exact .inr ⟨converts, agrees, (fits still again).mp same⟩
      · exact .inl ⟨trivial, slot, again⟩

/-- Any other compound assignment is faithful exactly on its condition. -/
theorem compound_faithful_iff (site : Site host) (known : assignable op = true)
    (other : isLogical op = false) (target : Target)
    (slot : ¬ (target = .identifier ∧ site.usesSlot op = true)) :
    Faithful site (.assign op) target s ↔ AssignFits site op target s := by
  obtain ⟨bop, opcode⟩ : ∃ bop, binop_of op = some bop := by
    apply isSome_iff_exists.mp
    cases op <;> first | rfl | cases other
  have no_short : ∀ left, shortCircuits op left = false := by
    intro left
    cases op <;> first | rfl | cases other
  have tree := assignOnce_agrees_iff host target known other .opcode
    (fun _ => trivial) s
  unfold Faithful AssignFits
  simp only [no_short, Bool.false_eq_true, false_or, other]
  have noSlot : target = .identifier → site.slot = false ∨ (op ≠ .add ∧ op ≠ .mul) := by
    intro identifier
    by_cases slotted : site.slot = true
    · refine .inr ⟨?_, ?_⟩
      · rintro rfl
        exact slot ⟨identifier, usesSlot_iff.mpr ⟨slotted, .inl rfl⟩⟩
      · rintro rfl
        exact slot ⟨identifier, usesSlot_iff.mpr ⟨slotted, .inr rfl⟩⟩
    · exact .inl (Bool.eq_false_iff.mpr slotted)
  have vm := assignOnce_agrees_iff host target known other (site.form op)
    (site.form_carries op) s
  have code : runCode host (compile host site (.assign op) target) s =
      assignOnce host (site.form op) op target s :=
    run_cassign host site opcode noSlot s
  rw [code]
  refine (and_congr tree vm).trans ?_
  rw [← or_and_left, ← or_and_left]
  refine or_congr_right (or_congr_right ?_)
  cases target with
  | identifier =>
    have unused : ¬ site.usesSlot op = true := fun used => slot ⟨rfl, used⟩
    simp only [Site.OperatorFits, if_neg unused]
    constructor
    · intro both
      exact ⟨both.1.1, both.1.2, both.2.2⟩
    · intro fits
      exact ⟨⟨fits.1, fits.2.1⟩, fits.1, fits.2.2⟩
  | member | computed =>
    simp only [true_and, compound_eq_none_iff]
    constructor
    · exact fun both => both.1.1
    · intro endless
      exact ⟨⟨endless, exec_eq_none trivial endless⟩, endless,
        exec_eq_none (site.form_carries op _) endless⟩

theorem assign_faithful (site : Site host) (known : assignable op = true) (target : Target)
    (clean : s.raised = false) :
    (AssignFits site op target s → Faithful site (.assign op) target s) ∧
      (Faithful site (.assign op) target s →
        Changes site op target s ∨ AssignFits site op target s) := by
  by_cases slot : target = .identifier ∧ site.usesSlot op = true
  · obtain ⟨rfl, slot⟩ := slot
    exact slot_faithful site slot clean
  · have exact_ : Faithful site (.assign op) target s ↔ AssignFits site op target s := by
      cases logical : isLogical op with
      | true => exact logical_faithful_iff site logical target s
      | false => exact compound_faithful_iff site known logical target slot
    exact ⟨exact_.mpr, fun faithful => .inr (exact_.mp faithful)⟩

end Assignment

end Assignments
end LRJS
