import LRJS.NumberForms

/-!
# Self-updates

`BC_ADD_SELF` and `BC_MUL_SELF` beside `LOAD`, the right-hand side, `ADD` or `MUL`, and `STORE`.
-/

namespace LRJS.SelfUpdates

open List Option

/-- The operators of `x = x + e`, `x += e` and `x *= e`. -/
inductive Operator where
  | add
  | mul

def Operator.op : Operator → BinaryOp
  | .add => .add
  | .mul => .mul

def Operator.form : Operator → Form
  | .add => .addSelf
  | .mul => .mulSelf

structure Rhs where
  value : LRValue
  x : LRValue
  state : EngineState

structure Outcome where
  pushed : Option Computed
  x : Computed
  state : EngineState
  overfreed : Bool

def stored (x : LRValue) (overfreed : Bool) (r : Computed × EngineState) : Outcome :=
  if r.2.error.isSome then ⟨none, .value x, r.2, overfreed⟩ else ⟨some r.1, r.1, r.2, overfreed⟩

/-- `LRValue`s with a reference count. -/
def isHeap : LRValue → Bool
  | .string _ | .object _ | .symbol _ => true
  | _ => false

/-- `BC_MUL_SELF` frees a value that it has not duplicated. -/
def Operator.overfrees : Operator → LRValue → Bool
  | .add, _ => false
  | .mul, x => isHeap x

section Forms

variable (E : Engine) (operator : Operator) (rhs : Rhs)

def fused : Option Outcome :=
  if rhs.state.error.isSome then
    some ⟨none, .value rhs.x, rhs.state, false⟩
  else
    (operator.form.exec E rhs.state operator.op rhs.x rhs.value).map
      (stored rhs.x (operator.overfrees rhs.x))

def unfused (old : LRValue) : Option Outcome :=
  if rhs.state.error.isSome then
    some ⟨none, .value rhs.x, rhs.state, false⟩
  else
    (Form.opcode.exec E rhs.state operator.op old rhs.value).map (stored rhs.x false)

end Forms

def Outcome.Same (E : Engine) (x y : Outcome) : Prop :=
  Option.Rel Computed.Same x.pushed y.pushed ∧ x.x.Same y.x ∧
    Option.Rel (fun a b => E.errorName a = E.errorName b) x.state.error y.state.error ∧
    x.overfreed = y.overfreed

def Right (E : Engine) (operator : Operator) (rhs : Rhs) (old : LRValue) : Prop :=
  Option.Rel (Outcome.Same E) (fused E operator rhs) (unfused E operator rhs old)

/-- `BC_ADD_SELF` cuts a string that is added to an integer at its first NUL. -/
def Cuts (a b : LRValue) : Prop :=
  ∃ m y, a = .int32 m ∧ b = .string y ∧ cstring y ≠ y

/-- The right-hand side raises an error; or it leaves the local as it was, no reference is released
twice, and no string is cut. -/
def Fits (operator : Operator) (rhs : Rhs) (old : LRValue) : Prop :=
  rhs.state.error.isSome = true ∨
    rhs.x = old ∧ operator.overfrees old = false ∧ (operator = .add → ¬ Cuts old rhs.value)

variable {E : Engine} {s : EngineState} {a b : LRValue}

/-- An integer before a text with a NUL is the case that cuts. -/
theorem addSelf_cuts (clean : s.error = none) {m : Int} {y : Name} :
    E.Agree (Form.addSelf.exec E s .add (.int32 m) (.string y))
        (Form.opcode.exec E s .add (.int32 m) (.string y)) ↔ cstring y = y := by
  have text : Form.addSelf.exec E s .add (.int32 m) (.string y) =
      s.give (.string (toString m ++ cstring y)) := by
    have carried : Form.addSelf.Carries .add (.string y) := rfl
    rcases exec_text (E := E) (s := s) (.inr rfl : (LRValue.int32 m).isString ∨ _) carried with
      ⟨-, concat⟩ | ⟨_, _, -, -, form, -⟩
    swap
    · cases form
    rw [concat, bcv_concat_other rfl, lr_to_cstring_int32]
    change (E.lr_to_cstring s (.string y) >>= _) = _
    rw [lr_to_cstring_string]
    rfl
  rw [text]
  refine (Engine.agree_give clean).trans (LRValue.same_string.trans ?_)
  exact ⟨fun same => String.append_right_inj (toString m) |>.mp same, congrArg (toString m ++ ·)⟩

/-- `BC_ADD_SELF` is `BC_ADD` exactly on operands that it does not cut. -/
theorem addSelf_agrees_iff (clean : s.error = none) :
    E.Agree (Form.addSelf.exec E s .add a b) (Form.opcode.exec E s .add a b) ↔ ¬ Cuts a b := by
  by_cases special : ∃ m y, a = .int32 m ∧ b = .string y
  · obtain ⟨m, y, rfl, rfl⟩ := special
    refine (addSelf_cuts clean).trans ⟨?_, fun whole => ?_⟩
    · rintro same ⟨_, _, left, right, cut⟩
      cases left
      cases right
      exact cut same
    · by_contra cut
      exact whole ⟨m, y, rfl, rfl, cut⟩
  refine iff_of_true ?_ fun ⟨m, y, left, right, _⟩ => special ⟨m, y, left, right⟩
  by_cases ints : a.tag = .int32 ∧ b.tag = .int32
  · cases a <;> cases ints.1
    cases b <;> cases ints.2
    exact Engine.Agree.refl _
  by_cases bigints : (a.bigint? s).isSome ∧ (b.bigint? s).isSome
  · obtain ⟨x, left⟩ := isSome_iff_exists.mp bigints.1
    obtain ⟨y, right⟩ := isSome_iff_exists.mp bigints.2
    cases a <;> try cases left
    cases b <;> try cases right
    exact Engine.Agree.refl _
  have others : Others s a b := by
    refine ⟨fun left right => ints ⟨left, right⟩, fun left => ?_⟩
    rw [not_and, not_isSome_iff_eq_none] at bigints
    exact bigints left
  have self : Form.addSelf.Carries .add b := rfl
  have plain : Form.opcode.Carries .add b := trivial
  by_cases textual : a.isString ∨ b.isString
  · rcases exec_text (E := E) (s := s) textual self with ⟨-, concat⟩ | ⟨m, y, left, right, -⟩
    · rcases exec_text (E := E) (s := s) textual plain with ⟨-, same⟩ | ⟨m, y, left, right, -⟩
      · rw [concat, same]
        exact Engine.Agree.refl _
      · exact absurd ⟨m, y, left, right⟩ special
    · exact absurd ⟨m, y, left, right⟩ special
  by_cases objects : a.OtherObject s ∨ b.OtherObject s
  · rw [exec_add_objects others textual objects self, exec_add_objects others textual objects plain]
    exact Engine.Agree.refl _
  · exact agree_numbers clean (exec_add_numbers others textual objects self)
      (exec_add_numbers others textual objects plain)

theorem mulSelf_ends : ∃ r, Form.mulSelf.exec E s .mul a b = some r := by
  change ∃ r, orBinop E s .mul (inlineMul a b) a b = some r
  unfold orBinop
  cases inlineMul a b with
  | some v => exact ⟨_, rfl⟩
  | none =>
    unfold bcv_binop
    cases binopFloat .mul a b with
    | some v => exact ⟨_, rfl⟩
    | none =>
      cases a.bigint? s <;> cases b.bigint? s <;> cases binopInt .mul a b <;> exact ⟨_, rfl⟩

/-- The outcomes are the same exactly if those of the operators are, and nothing is overfreed. -/
theorem stored_same_iff {x y : Option (Computed × EngineState)} {v : LRValue} {overfreed : Bool}
    (ends : overfreed = true → ∃ r, x = some r) :
    Option.Rel (Outcome.Same E) (x.map (stored v overfreed)) (y.map (stored v false)) ↔
      overfreed = false ∧ E.Agree x y := by
  cases x with
  | none =>
    have still : overfreed = false := by
      rw [← Bool.not_eq_true]
      intro freed
      obtain ⟨r, same⟩ := ends freed
      cases same
    cases y with
    | none => exact iff_of_true .none ⟨still, .none⟩
    | some q => exact iff_of_false not_rel_none_some fun both => by cases both.2
  | some r =>
    cases y with
    | none => exact iff_of_false not_rel_some_none fun both => by cases both.2
    | some q =>
      unfold Engine.Agree
      unfold Outcome.Same Engine.SameOutcome stored
      cases left : r.2.error with
      | none =>
        cases right : q.2.error with
        | none => simp [left, right, and_comm]
        | some e => simp [left, right]
      | some e =>
        cases right : q.2.error with
        | none => simp [left, right]
        | some e' => simp [left, right, Computed.Same.refl, and_comm]

/-- Behind an error of the right-hand side nothing is stored. -/
theorem right_of_raised (operator : Operator) {rhs : Rhs} (old : LRValue)
    (raised : rhs.state.error.isSome = true) : Right E operator rhs old := by
  unfold Right fused unfused
  rw [if_pos raised, if_pos raised]
  refine .some ⟨.none, Computed.Same.refl _, ?_, rfl⟩
  obtain ⟨e, error⟩ := isSome_iff_exists.mp raised
  rw [error]
  exact .some rfl

/-- Where the right-hand side leaves the local, a fused self-update equals the unfused form exactly
if it fits. -/
theorem right_iff_fits (operator : Operator) {rhs : Rhs} {old : LRValue} (left : rhs.x = old) :
    Right E operator rhs old ↔ Fits operator rhs old := by
  subst left
  by_cases raised : rhs.state.error.isSome = true
  · exact iff_of_true (right_of_raised operator _ raised) (.inl raised)
  · unfold Right Fits fused unfused
    rw [if_neg raised, if_neg raised, or_iff_right raised, and_iff_right rfl]
    rw [Bool.not_eq_true, isSome_eq_false_iff, isNone_iff_eq_none] at raised
    rw [stored_same_iff]
    · refine and_congr_right fun _ => ?_
      cases operator with
      | add =>
        refine (addSelf_agrees_iff raised).trans ?_
        exact ⟨fun uncut _ => uncut, fun uncut => uncut rfl⟩
      | mul => exact iff_of_true (Engine.Agree.refl _) fun same => by cases same
    · intro freed
      cases operator with
      | add => cases freed
      | mul => exact mulSelf_ends

/-- The right-hand side of `x = x + (x = 5)`. -/
def assigning : Rhs :=
  ⟨.int32 5, .int32 5, .fresh⟩

end LRJS.SelfUpdates
