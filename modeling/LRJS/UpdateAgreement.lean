import LRJS.AssignmentAgreement

/-!
# When increments and decrements agree

The tree-walker assigns identifiers only.  For them the instructions of `++` concatenate strings,
wrap at the largest `int32_t`, give the old value as it is, and read the variable again.
-/

namespace LRJS

open List Option LRValue Double
namespace Assignments

variable {W : Type} {E : Engine} {e : EngineState}

def stepped (isInc : Bool) (x : Double) : Double :=
  if isInc then x.add (.ofInt 1) else x.sub (.ofInt 1)

theorem inInt32_one : Double.InInt32 1 := by decide

theorem stepped_inc (x : Double) : stepped true x = x.add (.ofInt 1) :=
  rfl

theorem stepped_dec (x : Double) : stepped false x = x.sub (.ofInt 1) :=
  rfl

variable (isInc : Bool)

theorem stepped_ne_negZero (x : Double) : stepped isInc x ≠ .negZero := by
  cases isInc with
  | true =>
    intro same
    exact ofInt_ne_negZero inInt32_one.exact (add_eq_negZero.mp same).2
  | false =>
    intro same
    have zero : Double.InInt32 0 := by decide
    have equal := (sub_eq_negZero.mp same).2
    exact absurd (ofInt_injective inInt32_one.exact zero.exact equal) (by decide)

theorem others_one {v : LRValue} (double : v.tag ≠ .int32) : Others e v (.int32 1) :=
  ⟨fun integral => absurd integral double, fun _ => rfl⟩

theorem lr_to_float64_of_number? {v : LRValue} {d : Double} (number : v.number? = some d) :
    lr_to_float64 v = d := by
  cases v with
  | int32 n | float64 x => exact some.inj number
  | _ => cases number

theorem inRange_bcv_number (x : Double) : InRange (.bcv_number x) := by
  unfold bcv_number demoted
  split
  · trivial
  · split
    · next n found => exact (eq_of_int32? found).1
    · trivial

/-- The operator of `++` or `--`. -/
def stepOp (isInc : Bool) : BinaryOp :=
  if isInc then .add else .sub

theorem exec_stepped_int {n : Int} (range : Double.InInt32 n) :
    e.GivesNumber (Form.opcode.exec E e (stepOp isInc) (.int32 n) (.int32 1))
      (stepped isInc (.ofInt n)) := by
  cases isInc with
  | true =>
    have sum : (ofInt n).add (.ofInt 1) = .ofInt (n + 1) :=
      add_ofInt range.exact inInt32_one.exact
    have result : Form.opcode.exec E e .add (.int32 n) (.int32 1) = e.give (.ofInt64 (n + 1)) :=
      rfl
    refine ⟨.ofInt64 (n + 1), result, ?_⟩
    rw [number?_ofInt64, stepped_inc, sum]
  | false =>
    have difference : (ofInt n).sub (.ofInt 1) = .ofInt (n - 1) :=
      sub_ofInt range.exact inInt32_one.exact
    have result : Form.opcode.exec E e .sub (.int32 n) (.int32 1) = e.give (.ofInt64 (n - 1)) :=
      rfl
    refine ⟨.ofInt64 (n - 1), result, ?_⟩
    rw [number?_ofInt64, stepped_dec, difference]

theorem exec_stepped_double (x : Double) :
    e.GivesNumber (Form.opcode.exec E e (stepOp isInc) (.float64 x) (.int32 1))
      (stepped isInc x) := by
  have others : Others e (.float64 x) (.int32 1) := others_one (by simp [tag])
  cases isInc with
  | true =>
    have noText : ¬ ((float64 x).isString ∨ (int32 1).isString) := by
      rintro (text | text) <;> cases text
    have noObjects : ¬ ((float64 x).OtherObject e ∨ (int32 1).OtherObject e) := by
      rintro (object | object) <;> cases object.1
    have carried : Form.opcode.Carries .add (.int32 1) := trivial
    exact exec_add_numbers others noText noObjects carried
  | false => exact opcode_sub others

theorem exec_stepped (x : Double) :
    e.GivesNumber
      (Form.opcode.exec E e (stepOp isInc) (.bcv_number x) (.int32 1)) (stepped isInc x) := by
  have range := inRange_bcv_number x
  have value := number?_bcv_number x
  cases shape : bcv_number x with
  | int32 n =>
    rw [shape] at range value
    rw [← some.inj value]
    exact exec_stepped_int isInc range
  | float64 y =>
    rw [shape] at value
    rw [← some.inj value]
    exact exec_stepped_double isInc y
  | _ =>
    rw [shape] at value
    cases value

/-- The values to which `BC_INC_LOCAL` and `BC_INC_VAR` add one as a number. -/
def Increments (e : EngineState) (wraps : Bool) (old : LRValue) : Prop :=
  old.isString = false ∧ ¬ old.OtherObject e ∧
    (wraps = true → ∀ n, old = .int32 n → Double.InInt32 (n + 1))

def incrementSum : LRValue → LRValue
  | .int32 n => .ofInt64 (n + 1)
  | old => .bcv_number (stepped true (lr_to_float64 old))

variable {old : LRValue}

theorem number?_incrementSum (range : InRange old) :
    (incrementSum old).number? = some (stepped true (lr_to_float64 old)) := by
  cases old with
  | int32 n =>
    have sum : (ofInt n).add (.ofInt 1) = .ofInt (n + 1) :=
      add_ofInt (Double.InInt32.exact range) inInt32_one.exact
    exact (number?_ofInt64 _).trans (congrArg some sum.symm)
  | _ => exact number?_bcv_number _

theorem bcv_binop_numbers (double : old.tag ≠ .int32)
    (noText : old.isString = false) (noObject : ¬ old.OtherObject e) :
    bcv_binop E e .add old (.int32 1) =
      e.give (.bcv_number (stepped true (lr_to_float64 old))) := by
  have noFloat : binopFloat .add old (.int32 1) = none := by
    unfold binopFloat
    split
    · cases ‹int32 1 = _›
    · rfl
  have noTexts : ¬ (old.isString ∨ (int32 1).isString) := by
    rintro (text | text)
    · rw [noText] at text
      cases text
    · cases text
  have noObjects : ¬ (old.OtherObject e ∨ (int32 1).OtherObject e) := by
    rintro (object | object)
    · exact noObject object
    · cases object.1
  unfold LRValue.OtherObject at noObjects
  rw [bcv_binop_others (others_one double), noFloat]
  simp only [binopGeneric, if_neg noTexts, if_neg noObjects]
  rfl

theorem incremented_fits {wraps : Bool} (fits : Increments e wraps old) :
    incremented E e wraps old = e.give (incrementSum old) := by
  obtain ⟨noText, noObject, inRange⟩ := fits
  by_cases integral : old.tag = .int32
  · cases old <;> cases integral
    next n =>
    cases wraps with
    | true =>
      have range := inRange rfl n rfl
      have inside : ofInt64 (n + 1) = .int32 (n + 1) := if_pos range
      simp only [incremented, incrementSum, castInt32_of_inInt32 range, inside]
    | false => rfl
  · have sum := bcv_binop_numbers (E := E) integral noText noObject
    have plain : incremented E e wraps old = bcv_binop E e .add old (.int32 1) := by
      cases old <;> first | exact absurd rfl integral | (cases wraps <;> rfl)
    have stored : incrementSum old = .bcv_number (stepped true (lr_to_float64 old)) := by
      cases old <;> first | exact absurd rfl integral | rfl
    rw [plain, sum, stored]

variable {outcome : Computed × EngineState}

theorem bcv_concat_string {a b : LRValue} (found : bcv_concat E e a b = some outcome) :
    ∃ text, outcome.1 = .value (.string text) := by
  by_cases left : a.isString = true
  · cases a <;> cases left
    next x =>
    rw [bcv_concat_left] at found
    split at found
    · exact ⟨_, congrArg Prod.fst (some.inj found).symm⟩
    · obtain ⟨right, _, found⟩ := bind_eq_some_iff.mp found
      exact ⟨_, congrArg Prod.fst (some.inj found).symm⟩
  · rw [bcv_concat_other (Bool.eq_false_iff.mpr left)] at found
    obtain ⟨left, _, found⟩ := bind_eq_some_iff.mp found
    obtain ⟨right, _, found⟩ := bind_eq_some_iff.mp found
    exact ⟨_, congrArg Prod.fst (some.inj found).symm⟩

/-- Off the condition the instruction's increment is not the exact one. -/
theorem incremented_misfit {wraps : Bool} (range : InRange old)
    (misfit : ¬ Increments e wraps old) (found : incremented E e wraps old = some outcome) :
    ¬ (Computed.value (.demoted (stepped true (lr_to_float64 old)))).Same outcome.1 := by
  have no_string : ∀ text, ¬ (Computed.value (.demoted (stepped true (lr_to_float64 old)))).Same
      (.value (.string text)) := by
    intro text same
    have number := LRValue.number?_demoted (stepped true (lr_to_float64 old))
    simp only [Computed.Same, LRValue.Same, number] at same
    exact same
  by_cases text : old.isString = true
  · cases old <;> cases text
    next text =>
    have concat : incremented E e wraps (.string text) =
        bcv_concat E e (.string text) (.int32 1) := by
      have textual : (LRValue.string text).isString ∨ (LRValue.int32 1).isString := .inl rfl
      cases wraps <;> exact bcv_binop_text textual
    rw [concat] at found
    obtain ⟨joined, string⟩ := bcv_concat_string found
    rw [string]
    exact no_string joined
  · by_cases object : old.OtherObject e
    · have isObject := object.1
      cases old <;> cases isObject
      next p =>
      have others : Others e (.object p) (.int32 1) := others_one (by simp [LRValue.tag])
      have noTexts : ¬ ((LRValue.object p).isString ∨ (LRValue.int32 1).isString) := by
        rintro (text | text) <;> cases text
      have concat : incremented E e wraps (.object p) =
          bcv_concat E e (.object p) (.int32 1) := by
        have carried : Form.addSelf.Carries .add (.int32 1) := rfl
        cases wraps <;> exact exec_add_objects others noTexts (.inl object) carried
      rw [concat] at found
      obtain ⟨joined, string⟩ := bcv_concat_string found
      rw [string]
      exact no_string joined
    · have wrapped : wraps = true ∧ ∃ n, old = .int32 n ∧ ¬ Double.InInt32 (n + 1) := by
        unfold Increments at misfit
        simp only [Bool.eq_false_iff.mpr text, object, not_false_eq_true, true_and,
          Classical.not_imp, not_forall] at misfit
        obtain ⟨wraps, n, same, outside⟩ := misfit
        exact ⟨wraps, n, same, outside⟩
      obtain ⟨rfl, n, rfl, outside⟩ := wrapped
      have exact_ : Double.Exact (n + 1) := by
        have range : Double.InInt32 n := range
        unfold Double.InInt32 at range
        unfold Double.Exact
        omega
      have sum : stepped true (lr_to_float64 (.int32 n)) = .ofInt (n + 1) :=
        add_ofInt (Double.InInt32.exact range) inInt32_one.exact
      have wrapped := inInt32_castInt32 (n + 1)
      have number := LRValue.number?_demoted (ofInt (n + 1))
      rw [if_neg (ofInt_ne_negZero exact_)] at number
      rw [← some.inj found, sum]
      intro same
      have equal := (LRValue.same_of_number? number rfl).mp same
      rw [same_ofInt_injective exact_ wrapped.exact equal] at outside
      exact outside wrapped

section Update

variable {host : Host W} {target : Target} {s : State W}

theorem eval_update_raised {isInc isPrefix : Bool}
    (raised : (host.evalTarget target s).2.raised = true) :
    eval_update host isInc isPrefix target s =
      some (.value (host.evalTarget target s).1, (host.evalTarget target s).2) :=
  if_pos raised

theorem eval_update_identifier {isInc isPrefix : Bool}
    (calm : (host.loadVariable s).2.raised = false) :
    eval_update host isInc isPrefix .identifier s =
      let old := host.loadVariable s
      let new := stepped isInc (lr_to_float64 old.1)
      some (.value (.demoted (if isPrefix then new else lr_to_float64 old.1)),
        host.storeVariable (.value (.demoted new)) old.2) :=
  if_neg (Bool.eq_false_iff.mp calm)

theorem eval_update_member (isInc isPrefix : Bool) (no_identifier : target ≠ .identifier)
    (calm : (host.evalTarget target s).2.raised = false) :
    ∃ v, eval_update host isInc isPrefix target s = some (v, (host.evalTarget target s).2) := by
  let x := lr_to_float64 (host.evalTarget target s).1
  refine ⟨.value (.demoted (if isPrefix then stepped isInc x else x)), ?_⟩
  unfold eval_update
  simp only [calm, Bool.false_eq_true, if_false, if_neg no_identifier]
  rfl

/-- An update that evaluates its target once steps its number by one. -/
theorem updateOnce_calm (isInc isPrefix : Bool)
    (calm : (host.evalTarget target s).2.raised = false) :
    ∃ place new, Place.Of target place ∧
      new.number? = some (stepped isInc (lr_to_float64 (host.evalTarget target s).1)) ∧
      updateOnce host isInc isPrefix target s =
        some (if isPrefix then .value new
            else .value (.bcv_number (lr_to_float64 (host.evalTarget target s).1)),
          writePlace host place (.value new) (host.evalTarget target s).2) := by
  obtain ⟨place, of, reads⟩ := withTarget_calm calm
  obtain ⟨new, executed, number⟩ := exec_stepped (E := host.E)
    (e := (host.evalTarget target s).2.engine) isInc
    (lr_to_float64 (host.evalTarget target s).1)
  refine ⟨place, new, of, number, ?_⟩
  have calm' : State.raised { (host.evalTarget target s).2 with
      engine := (host.evalTarget target s).2.engine } = false := calm
  unfold updateOnce
  rw [reads]
  change (Form.opcode.exec host.E _ (stepOp isInc) _ _).map _ = _
  rw [executed]
  simp [EngineState.give, finish, calm']

theorem agree_updates {c r : LRValue} {d r' : Computed} {t u : State W} (calm : t.raised = false)
    (logged : u.log = t.log ++ [.store r']) :
    Agree E (some (.value c, host.storeVariable (.value r) t)) (some (d, u)) ↔
      (Computed.value r).Same r' ∧ u.raised = false ∧ (Computed.value c).Same d := by
  have clean := raised_eq_false.mp calm
  rw [agree_some, logged, raised_eq_false]
  simp only [Host.storeVariable, same_append_iff, forall₂_cons, forall₂_nil_left_iff,
    Engine.SameOutcome, clean, Event.Same, and_true]
  cases error : u.engine.error with
  | none | some e => simp

theorem demoted_stepped_same {isInc : Bool} {x : Double} {new : LRValue}
    (number : new.number? = some (stepped isInc x)) :
    (Computed.value (.demoted (stepped isInc x))).Same (.value new) :=
  (demoted_same number).mpr (stepped_ne_negZero isInc x)

/-- An update agrees with the one that evaluates its target once exactly for names. -/
theorem updateOnce_agrees_iff (host : Host W) (target : Target) (s : State W)
    (isInc isPrefix : Bool) :
    Agree host.E (eval_update host isInc isPrefix target s)
        (updateOnce host isInc isPrefix target s) ↔
      (host.evalTarget target s).2.raised = true ∨
        (target = .identifier ∧
          (isPrefix = false → lr_to_float64 (host.evalTarget target s).1 ≠ .negZero)) := by
  by_cases raised : (host.evalTarget target s).2.raised = true
  · have stops : updateOnce host isInc isPrefix target s =
        some (.value .undefined, (host.evalTarget target s).2) := withTarget_raised _ raised
    rw [eval_update_raised raised, stops]
    exact iff_of_true (agree_raised raised) (.inl raised)
  · have calm := Bool.eq_false_iff.mpr raised
    obtain ⟨place, new, of, number, once⟩ := updateOnce_calm isInc isPrefix calm
    rw [or_iff_right raised, once]
    cases place with
    | binding =>
      obtain rfl := of
      have stored := demoted_stepped_same number
      have old := demoted_same
        (number?_bcv_number (lr_to_float64 (host.loadVariable s).1))
      rw [eval_update_identifier calm]
      cases isPrefix with
      | true =>
        refine (agree_updates calm rfl).trans (iff_of_true ⟨stored, calm, stored⟩ ⟨rfl, ?_⟩)
        intro postfixed
        cases postfixed
      | false =>
        refine (agree_updates calm rfl).trans ((and_iff_right stored).trans ?_)
        refine (and_iff_right calm).trans (old.trans ?_)
        simp [Host.evalTarget]
    | property obj key =>
      have no_identifier := of.not_identifier
      obtain ⟨v, read⟩ := eval_update_member isInc isPrefix no_identifier calm
      rw [read]
      refine iff_of_false ?_ fun fits => no_identifier fits.1
      intro agree
      have lengths := (agree_some.mp agree).1.length_eq
      simp [writePlace, Host.setProperty] at lengths

theorem Place.Of.binding {place : Place} (of : Place.Of .identifier place) : place = .binding := by
  cases place with
  | binding => rfl
  | property obj key => exact absurd rfl of.not_identifier

theorem run_storeCode (form : Form) (op : BinaryOp) (left right old : LRValue) (s : State W) :
    (runSteps host [.binary form op, .store] [.value right, .value left, .value old] s).map settle =
      (form.exec host.E s.engine op left right).map
        (finish host .binding (fun _ => .value old) s) := by
  cases result : form.exec host.E s.engine op left right with
  | none => simp [runSteps, exec, result]
  | some outcome =>
    have executed : exec host (.binary form op) [.value right, .value left, .value old] s =
        some (check [outcome.1, .value old] { s with engine := outcome.2 }) := by
      simp [exec, result]
    rw [runSteps_checked host _ executed]
    simp only [map_some, finish]
    split
    · rfl
    · next calm =>
        have still : (host.storeVariable outcome.1 { s with engine := outcome.2 }).raised =
            false := Bool.eq_false_iff.mpr calm
        rw [runSteps_checked host _ rfl, still]
        rfl

variable (site : Site host) (isPrefix : Bool)

theorem run_decrement (s : State W) :
    runCode host (cincdec host site false isPrefix .identifier) s =
      updateOnce host false isPrefix .identifier s := by
  cases isPrefix with
  | true =>
    apply run_readCode host .identifier
      [.pos, .pushOne, .binary .opcode .sub, .dup, .store]
    intro place left s of
    obtain rfl := of.binding
    exact run_writeCode host .opcode .sub .binding _ (.int32 1) s
  | false =>
    apply run_readCode host .identifier
      [.pos, .dup, .pushOne, .binary .opcode .sub, .store]
    intro place left s of
    obtain rfl := of.binding
    exact run_storeCode .opcode .sub _ (.int32 1) _ s

/-- Behind an error of the target nothing is stored. -/
theorem run_update_raised (isInc isPrefix : Bool)
    (raised : (host.evalTarget target s).2.raised = true) :
    runCode host (cincdec host site isInc isPrefix target) s =
      some (.value .undefined, (host.evalTarget target s).2) := by
  have stops : ∀ rest : List (Step (W := W)), runCode host (readCode target ++ rest) s =
      some (.value .undefined, (host.evalTarget target s).2) := by
    intro rest
    have reads := run_readCode host target rest s
      (fun place left s => (runSteps host rest (.value left :: place.under) s).map settle)
      fun place left s _ => rfl
    rw [reads]
    exact withTarget_raised _ raised
  have increments : ∀ (wraps : Bool) (rest : List (Step (W := W))), target = .identifier →
      runCode host (.inc wraps :: rest) s =
        some (.value .undefined, (host.evalTarget target s).2) := by
    rintro wraps rest rfl
    have loaded : (host.loadVariable s).2.raised = true := raised
    have executed : exec host (.inc wraps) [] s = some (none, (host.loadVariable s).2) := by
      simp [exec, loaded]
    simp only [runCode, runSteps, executed]
    rfl
  cases target with
  | identifier =>
    cases isInc with
    | true => cases isPrefix <;> exact increments _ _ rfl
    | false => cases isPrefix <;> exact stops _
  | member | computed => cases isPrefix <;> exact stops _

theorem run_inc {wraps : Bool} (rest : List (Step (W := W)))
    (calm : (host.loadVariable s).2.raised = false) :
    runSteps host (.inc wraps :: rest) [] s =
      (incremented host.E (host.loadVariable s).2.engine wraps (host.loadVariable s).1).bind
        fun outcome => runSteps host rest [.value (host.loadVariable s).1]
          (host.storeVariable outcome.1 { (host.loadVariable s).2 with engine := outcome.2 }) := by
  cases result : incremented host.E (host.loadVariable s).2.engine wraps
      (host.loadVariable s).1 with
  | none | some outcome => simp [runSteps, exec, calm, result]

def Host.ReadsBack (host : Host W) (v : LRValue) (s : State W) : Prop :=
  let read := host.loadVariable (host.storeVariable (.value v) s)
  read.2.raised = false ∧ v.Same read.1

def IncrementFits (host : Host W) (wraps isPrefix : Bool) (s : State W) : Prop :=
  let old := host.loadVariable s
  Increments old.2.engine wraps old.1 ∧
    if isPrefix then host.ReadsBack (incrementSum old.1) old.2
    else old.1.number?.isSome = true ∧ lr_to_float64 old.1 ≠ .negZero

def incrementRest (isPrefix : Bool) : List (Step (W := W)) :=
  if isPrefix then [.pop, .load] else []

theorem run_incrementRest (old : Computed) (t : State W) :
    (runSteps host (incrementRest isPrefix) [old] t).map settle =
      if isPrefix then
        if (host.loadVariable t).2.raised then
          some (.value .undefined, (host.loadVariable t).2)
        else
          some (.value (host.loadVariable t).1, (host.loadVariable t).2)
      else
        some (old, t) := by
  cases isPrefix with
  | false => rfl
  | true =>
    have loading : exec host .load [] t =
        some (check [.value (host.loadVariable t).1] (host.loadVariable t).2) := rfl
    change (runSteps host [.pop, .load] [old] t).map settle = _
    rw [runSteps_plain host _ rfl, runSteps_checked host _ loading, if_pos rfl]
    by_cases raised : (host.loadVariable t).2.raised = true
    · rw [if_pos raised, if_pos raised]
      rfl
    · rw [if_neg raised, if_neg raised]
      rfl

theorem run_incrementRest_log (host : Host W) (isPrefix : Bool) (old : Computed) (t : State W) :
    ∃ c u, (runSteps host (incrementRest isPrefix) [old] t).map settle = some (c, u) ∧
      u.log = t.log := by
  have still : (host.loadVariable t).2.log = t.log := append_nil _
  rw [run_incrementRest]
  cases isPrefix with
  | false => exact ⟨old, t, rfl, rfl⟩
  | true =>
    rw [if_pos rfl]
    split
    · exact ⟨_, _, rfl, still⟩
    · exact ⟨_, _, rfl, still⟩

theorem run_increment (calm : (host.loadVariable s).2.raised = false) :
    runCode host (cincdec host site true isPrefix .identifier) s =
      (incremented host.E (host.loadVariable s).2.engine (site.slot || site.hit)
          (host.loadVariable s).1).bind fun outcome =>
        (runSteps host (incrementRest isPrefix) [.value (host.loadVariable s).1]
          (host.storeVariable outcome.1
            { (host.loadVariable s).2 with engine := outcome.2 })).map settle := by
  have code : cincdec host site true isPrefix .identifier =
      .inc (site.slot || site.hit) :: incrementRest isPrefix := by
    cases isPrefix <;> rfl
  unfold runCode
  rw [code, run_inc _ calm, map_bind]
  rfl

theorem same_congr_number {v w u : LRValue} {d : Double} (left : v.number? = some d)
    (right : w.number? = some d) : v.Same u ↔ w.Same u := by
  unfold LRValue.Same
  rw [left, right]
  cases u.number? <;> exact Iff.rfl

/-- On a name the tree-walker and the instructions increment alike exactly on the condition. -/
theorem increment_agrees_iff (calm : (host.loadVariable s).2.raised = false) :
    Agree host.E (eval_update host true isPrefix .identifier s)
        (runCode host (cincdec host site true isPrefix .identifier) s) ↔
      IncrementFits host (site.slot || site.hit) isPrefix s := by
  have range : InRange (host.loadVariable s).1 := host.load_range _ _
  unfold IncrementFits
  rw [eval_update_identifier calm, run_increment site isPrefix calm]
  by_cases fits : Increments (host.loadVariable s).2.engine (site.slot || site.hit)
      (host.loadVariable s).1
  · have number := number?_incrementSum range
    have stored := demoted_stepped_same number
    have demoted :
        (demoted (stepped true (lr_to_float64 (host.loadVariable s).1))).number? =
          some (stepped true (lr_to_float64 (host.loadVariable s).1)) :=
      (number?_demoted _).trans (congrArg some (if_neg (stepped_ne_negZero _ _)))
    rw [incremented_fits fits]
    simp only [EngineState.give, bind_some]
    rw [run_incrementRest, and_iff_right fits]
    cases isPrefix with
    | false =>
      refine (agree_updates calm rfl).trans ((and_iff_right stored).trans ?_)
      refine (and_iff_right calm).trans ?_
      cases old : (host.loadVariable s).1.number? with
      | some d =>
        have value := lr_to_float64_of_number? old
        simp only [Bool.false_eq_true, if_false, value]
        exact (demoted_same old).trans (by simp)
      | none =>
        have numbered := number?_demoted (lr_to_float64 (host.loadVariable s).1)
        simp [Computed.Same, LRValue.Same, old, numbered]
    | true =>
      simp only [if_true]
      split
      · next raised =>
          refine (agree_updates calm (append_nil _)).trans ?_
          exact iff_of_false (fun both => Bool.eq_false_iff.mp both.2.1 raised)
            fun both => Bool.eq_false_iff.mp both.1 raised
      · next still =>
          refine (agree_updates calm (append_nil _)).trans ((and_iff_right stored).trans ?_)
          exact and_congr_right fun _ => same_congr_number demoted number
  · refine iff_of_false ?_ fun both => fits both.1
    cases result : incremented host.E (host.loadVariable s).2.engine (site.slot || site.hit)
        (host.loadVariable s).1 with
    | none => exact not_rel_some_none
    | some outcome =>
      rw [bind_some]
      obtain ⟨c, u, ends, logged⟩ := run_incrementRest_log host isPrefix
        (.value (host.loadVariable s).1)
        (host.storeVariable outcome.1 { (host.loadVariable s).2 with engine := outcome.2 })
      rw [ends]
      intro agree
      have same := ((agree_updates calm logged).mp agree).1
      exact incremented_misfit range fits result same

def UpdateFits (site : Site host) (isInc isPrefix : Bool) (target : Target) (s : State W) : Prop :=
  (host.evalTarget target s).2.raised = true ∨
    (target = .identifier ∧
      (isPrefix = false → lr_to_float64 (host.evalTarget target s).1 ≠ .negZero) ∧
      (isInc = true → IncrementFits host (site.slot || site.hit) isPrefix s))

/-- An update is faithful exactly on its condition. -/
theorem update_faithful_iff (isInc isPrefix : Bool) (target : Target) (s : State W) :
    Faithful site (.update isInc isPrefix) target s ↔ UpdateFits site isInc isPrefix target s := by
  have once := updateOnce_agrees_iff host target s isInc isPrefix
  unfold Faithful UpdateFits
  refine (and_congr_left' once).trans ?_
  simp only [evaluate, compile]
  by_cases raised : (host.evalTarget target s).2.raised = true
  · rw [eval_update_raised raised, run_update_raised site isInc isPrefix raised]
    exact iff_of_true ⟨.inl raised, agree_raised raised⟩ (.inl raised)
  · rw [or_iff_right raised, or_iff_right raised, and_assoc]
    refine and_congr_right fun identifier => and_congr_right fun nonzero => ?_
    subst identifier
    cases isInc with
    | true =>
      refine (increment_agrees_iff site isPrefix (Bool.eq_false_iff.mpr raised)).trans ?_
      simp
    | false =>
      rw [run_decrement site isPrefix s]
      have fits := once.mpr (.inr ⟨rfl, nonzero⟩)
      exact iff_of_true fits fun increments => absurd increments Bool.false_ne_true

end Update

def Expression.Known : Expression → Prop
  | .assign op => assignable op = true
  | .update _ _ => True

def Fits {host : Host W} (site : Site host) (expression : Expression) (target : Target)
    (s : State W) : Prop :=
  match expression with
  | .assign op => AssignFits site op target s
  | .update isInc isPrefix => UpdateFits site isInc isPrefix target s

def Rewrites {host : Host W} (site : Site host) (expression : Expression) (target : Target)
    (s : State W) : Prop :=
  match expression with
  | .assign op => Changes site op target s
  | .update _ _ => False

theorem inInt32_five : Double.InInt32 5 := by decide

def Host.five : Host Unit where
  E := .bare
  object s w := (.null, s, w)
  key s w := (.int32 0, s, w)
  value s w := (.int32 1, s, w)
  load s w := (.int32 5, s, w)
  get _ _ s w := (.int32 5, s, w)
  store _ w := w
  set _ _ _ s w := (s, w)
  value_range _ _ := inInt32_one
  load_range _ _ := inInt32_five

def Site.plain (host : Host W) : Site host where
  slot := false
  fused := none
  hit := false
  slot_pure slotted := by cases slotted

def State.start : State Unit :=
  ⟨.fresh, (), []⟩

end Assignments
end LRJS
