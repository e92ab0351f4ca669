import LRJS.Compile
import Mathlib.Logic.Relation

/-!
# The control skeleton of the machine

What `bc_execute` does to the program counter, the height of the operand stack and the scope chain
in one activation.  Every outcome of a test is a possible step, and an instruction that fails has no
successor.  `takes` and `gives` are the cells that a handler pops and pushes, `declares` says which
handlers may add names to the function scope.
-/

namespace LRJS

namespace Instr

def takes : Instr → Nat
  | .pop | .storeVar _ | .storeLocal _ _ | .declareVar _ _ | .setResult | .throw | .ret => 1
  | .dup | .addSelf _ _ | .mulSelf _ _ | .un _ | .getProp _ | .loadPropAdd _ _ _
  | .deleteProp _ | .toString | .toNumber | .toBool | .iterInit => 1
  | .jumpIfFalse _ | .jumpIfTrue _ | .jumpIfFalseKeep _ | .jumpIfTrueKeep _
  | .jumpIfNotNullish _ => 1
  | .dup2 | .swap | .bin _ | .defProp _ | .setProp _ | .getElem | .deleteElem => 2
  | .rot3 | .defElem | .setElem | .iterNext _ | .iterClose => 3
  | .call argc | .callMethod _ argc | .new argc => argc + 1
  | .callElem argc => argc + 2
  | .newArray count => count
  | _ => 0

def gives : Instr → Nat
  | .pushUndefined | .pushNull | .pushTrue | .pushFalse | .pushThis | .pushInt32 _
  | .pushFloat64 _ | .pushString _ => 1
  | .loadVar _ | .loadLocal _ _ | .incLocal _ _ | .incVar _ | .typeofVar _
  | .addSelf _ _ | .mulSelf _ _ | .bin _ | .un _ => 1
  | .jumpIfFalseKeep _ | .jumpIfTrueKeep _ | .jumpIfNotNullish _ => 1
  | .call _ | .callMethod _ _ | .callElem _ | .new _ => 1
  | .newObject | .newArray _ | .defProp _ | .defElem | .getProp _ | .loadProp _ _ _
  | .loadPropAdd _ _ _ | .setProp _ | .getElem | .setElem | .deleteProp _ | .deleteElem => 1
  | .evalNode _ | .toString | .toNumber | .toBool => 1
  | .dup | .swap => 2
  | .rot3 | .iterInit => 3
  | .dup2 | .iterNext _ => 4
  | _ => 0

/-- The operand cells pushed when the jump is taken: `BC_ITER_NEXT` pushes no
value when the iteration is over. -/
def jumpGives : Instr → Nat
  | .iterNext _ => 3
  | ins => ins.gives

def falls : Instr → Bool
  | .stop | .jump _ | .ret | .throw => false
  | _ => true

section

variable (target : Nat) (ins : Instr)
include target ins

@[simp]
theorem takes_setTarget : (ins.setTarget target).takes = ins.takes := by
  cases ins <;> rfl

@[simp]
theorem gives_setTarget : (ins.setTarget target).gives = ins.gives := by
  cases ins <;> rfl

@[simp]
theorem jumpGives_setTarget : (ins.setTarget target).jumpGives = ins.jumpGives := by
  cases ins <;> rfl

@[simp]
theorem falls_setTarget : (ins.setTarget target).falls = ins.falls := by
  cases ins <;> rfl

end

def scopesAfter : Instr → Nat → Nat
  | .scopeEnter, open_ => open_ + 1
  | .scopeLeave, open_ => open_ - 1
  | _, open_ => open_

@[simp]
theorem scopesAfter_setTarget (target open_ : Nat) (ins : Instr) :
    (ins.setTarget target).scopesAfter open_ = ins.scopesAfter open_ := by
  cases ins <;> rfl

/-- A handler that can run other code or create an unbound variable, so that it
may add names to the function scope. -/
def runsOtherCode : Instr → Bool
  | .evalNode _ | .evalNodePop _ | .storeVar _ | .incVar _
  | .call _ | .callMethod _ _ | .callElem _ | .new _
  | .getProp _ | .loadProp _ _ _ | .loadPropAdd _ _ _ | .setProp _ | .getElem | .setElem
  | .defProp _ | .defElem | .deleteProp _ | .deleteElem | .newArray _
  | .iterInit | .iterNext _ | .bin _ | .un _ | .addSelf _ _ | .mulSelf _ _
  | .incLocal _ _ | .incLocalDiscard _ _ | .loadVar _ | .typeofVar _
  | .toString | .toNumber | .toBool => true
  | _ => false

/-- The names of the function scope after the instruction: `scope_declare_name` appends a name that
is not there yet. -/
def declared (ins : Instr) (before : List Name) : List Name :=
  match ins with
  | .declareVar name _ => if name ∈ before then before else before ++ [name]
  | _ => before

def Declares (ins : Instr) (before after : List Name) : Prop :=
  after = ins.declared before ∨ (ins.runsOtherCode = true ∧ before <+: after)

end Instr

structure Control where
  pc : Nat
  depth : Nat
  blocks : List Nat
  fresh : Nat
  /-- `names` of the function scope -/
  names : List Name
deriving DecidableEq, Repr

namespace Control

def start (names : List Name) : Control where
  pc := 0
  depth := 0
  blocks := []
  fresh := 0
  names := names

def blocksAfter (ins : Instr) (s : Control) : List Nat :=
  match ins with
  | .scopeEnter => s.fresh :: s.blocks
  | .scopeLeave => s.blocks.tail
  | _ => s.blocks

/-- The state after an instruction that leaves `depth` cells and continues at `pc`. -/
def after (s : Control) (ins : Instr) (pc depth : Nat) (names : List Name) : Control where
  pc := pc
  depth := depth
  blocks := s.blocksAfter ins
  fresh := s.fresh + 1
  names := names

end Control

/-- One step of an activation, which may take the jump of its instruction.  An instruction that pops
too many cells still steps: the machine pops those of its caller, or `undefined`. -/
inductive Step (code : List Instr) : Control → Bool → Control → Prop where
  | fall (s : Control) (ins : Instr) (names : List Name)
      (fetch : code[s.pc]? = some ins) (falls : ins.falls = true)
      (declares : ins.Declares s.names names) :
      Step code s false (s.after ins (s.pc + 1) (s.depth - ins.takes + ins.gives) names)
  | jump (s : Control) (ins : Instr) (target : Nat) (names : List Name)
      (fetch : code[s.pc]? = some ins) (hasTarget : ins.target? = some target)
      (declares : ins.Declares s.names names) :
      Step code s true (s.after ins target (s.depth - ins.takes + ins.jumpGives) names)

/-- A run all of whose steps satisfy `allowed`. -/
def Run (code : List Instr) (allowed : Control → Bool → Control → Prop) :
    Control → Control → Prop :=
  Relation.ReflTransGen fun s t => ∃ taken, Step code s taken t ∧ allowed s taken t

variable {code : List Instr}

/-- A run under a condition is a run under every weaker one. -/
theorem Run.weaken {allowed allowed' : Control → Bool → Control → Prop}
    {s t : Control} (run : Run code allowed s t)
    (weaker : ∀ s taken t, allowed s taken t → allowed' s taken t) : Run code allowed' s t := by
  induction run with
  | refl =>
    exact .refl
  | tail _ step ih =>
    obtain ⟨taken, step, isAllowed⟩ := step
    exact ih.tail ⟨taken, step, weaker _ _ _ isAllowed⟩

/-- The step from `s` that takes the jump or falls through. -/
def advance? (code : List Instr) (taken : Bool) (s : Control) : Option Control :=
  match code[s.pc]? with
  | none => none
  | some ins =>
    if taken then
      ins.target?.map fun target =>
        s.after ins target (s.depth - ins.takes + ins.jumpGives) (ins.declared s.names)
    else if ins.falls then
      some (s.after ins (s.pc + 1) (s.depth - ins.takes + ins.gives) (ins.declared s.names))
    else
      none

def follow? (code : List Instr) : List Bool → Control → Option Control
  | [], s => some s
  | taken :: path, s => (advance? code taken s).bind (follow? code path)

/-- The computed step is a step of the relation. -/
theorem step_of_advance? {taken : Bool} {s t : Control}
    (advances : advance? code taken s = some t) : Step code s taken t := by
  unfold advance? at advances
  split at advances
  · cases advances
  · rename_i ins fetch
    cases taken with
    | true =>
      obtain ⟨target, hasTarget, equality⟩ := Option.map_eq_some_iff.mp advances
      subst equality
      exact .jump s ins target _ fetch hasTarget (Or.inl rfl)
    | false =>
      simp only [Bool.false_eq_true, if_false] at advances
      split at advances
      · rename_i falls
        cases advances
        exact .fall s ins _ fetch falls (Or.inl rfl)
      · cases advances

/-- A path that can be followed is a run. -/
theorem run_of_follow? (path : List Bool) {s t : Control}
    (follows : follow? code path s = some t) : Run code (fun _ _ _ => True) s t := by
  induction path generalizing s with
  | nil =>
    cases follows
    exact .refl
  | cons taken path ih =>
    obtain ⟨middle, advances, rest⟩ := Option.bind_eq_some_iff.mp follows
    exact .head ⟨taken, step_of_advance? advances, trivial⟩ (ih rest)

end LRJS
