import LRJS.CallFrames

/-!
# The discipline of calls

Every call puts back what it found, as long as no push on the call stack is dropped, no function
yields into the generator of another, no exception is dropped while a call binds parameters or
initializes fields, no binding of parameters throws before a body that does not look, and the
statements outside of functions leave the control flow as it was.
-/

namespace LRJS.CallFrames

open Logged Course Interp

namespace Event

def Met : Event → Prop
  | .pushed full => full = false
  | .appended own => own = true
  | .evaluated before behind => before = true → behind = true
  | .resolved found => found = true
  | .bound threw unchecked => ¬(threw = true ∧ unchecked = true)
  | .ran exposed before behind => exposed = true → behind = before
  | .returned .. => True

/-- A call returns with the frame that it found, with the error flag set exactly if an exception is
uncaught or was pending, and its body did not begin behind an exception of its parameters. -/
def Holds : Event → Prop
  | .returned before error behind error' uncaught threw executed =>
    behind = before ∧ error' = (error || uncaught) ∧ ¬(threw = true ∧ executed = true)
  | _ => True

instance : DecidablePred Met := fun event => by
  cases event <;> unfold Met <;> infer_instance

instance : DecidablePred Holds := fun event => by
  cases event <;> unfold Holds <;> infer_instance

end Event

section Discipline

variable {World : Type} {own : Bool} {place : Place} {s s' s'' : Interp World}

/-- What the evaluation of an expression leaves as it was; a generator may count what its own
code yields. -/
structure Keeps (place : Place) (s s' : Interp World) : Prop where
  depth : s'.depth = s.depth
  scope : s'.current_scope = s.current_scope
  flags : place.exposed = true → s'.flags = s.flags
  stack : s'.call_stack = s.call_stack
  active : s'.gen.gen_active = s.gen.gen_active
  items : s'.gen.gen_items = s.gen.gen_items
  count : place.own = false → s'.gen.gen_count = s.gen.gen_count

structure Guards (own : Bool) (s s' : Interp World) : Prop where
  depth : s'.depth = s.depth
  stack : s'.call_stack = s.call_stack
  active : s'.gen.gen_active = s.gen.gen_active
  items : s'.gen.gen_items = s.gen.gen_items
  count : own = false → s'.gen.gen_count = s.gen.gen_count

theorem Keeps.of_frame (same : s'.toFrame = s.toFrame) : Keeps place s s' := by
  obtain ⟨⟨depth, scope, flags, gen, stack⟩, rest⟩ := s
  obtain ⟨⟨depth', scope', flags', gen', stack'⟩, rest'⟩ := s'
  cases same
  exact ⟨rfl, rfl, fun _ => rfl, rfl, rfl, rfl, fun _ => rfl⟩

theorem Keeps.frame (keeps : Keeps ⟨false, true⟩ s s') : s'.toFrame = s.toFrame := by
  obtain ⟨⟨depth, scope, flags, ⟨active, items, count⟩, stack⟩, rest⟩ := s
  obtain ⟨rfl, rfl, flags, rfl, rfl, rfl, count⟩ := keeps
  obtain rfl := flags rfl
  obtain rfl := count rfl
  rfl

theorem Keeps.trans (first : Keeps place s s') (second : Keeps place s' s'') :
    Keeps place s s'' where
  depth := second.depth.trans first.depth
  scope := second.scope.trans first.scope
  flags exposed := (second.flags exposed).trans (first.flags exposed)
  stack := second.stack.trans first.stack
  active := second.active.trans first.active
  items := second.items.trans first.items
  count outside := (second.count outside).trans (first.count outside)

theorem Keeps.guards (keeps : Keeps place s s') : Guards place.own s s' :=
  ⟨keeps.depth, keeps.stack, keeps.active, keeps.items, keeps.count⟩

theorem Guards.trans (first : Guards own s s') (second : Guards own s' s'') : Guards own s s'' where
  depth := second.depth.trans first.depth
  stack := second.stack.trans first.stack
  active := second.active.trans first.active
  items := second.items.trans first.items
  count outside := (second.count outside).trans (first.count outside)

theorem Guards.gen (guards : Guards false s s') : s'.gen = s.gen := by
  obtain ⟨⟨depth, scope, flags, ⟨active, items, count⟩, stack⟩, rest⟩ := s
  obtain ⟨rfl, rfl, rfl, rfl, count⟩ := guards
  obtain rfl := count rfl
  rfl

/-! ## Evaluations by the calls -/

abbrev Sound {Value : Type} (run : Course Event Value) (post : Value → Prop) : Prop :=
  run.Obeys Event.Met Event.Holds post

def Activation.Tracked (error : Bool) (a : Activation World) : Prop :=
  a.interp.error_flag = (error || a.threw)

structure Advances (place : Place) (a b : Activation World) : Prop where
  keeps : Keeps place a.interp b.interp
  tracked : ∀ error, a.Tracked error → b.Tracked error

section Calls

variable {E : Engine World} {a b c : Activation World}
  {run : Place → Expr World → Interp World → Outcome World}
  {runStmt : Bool → Stmt World → Interp World → Outcome World}

def Disciplined (run : Place → Expr World → Interp World → Outcome World) : Prop :=
  ∀ place code s, Sound (run place code s) fun r => Keeps place s r.2

def DisciplinedStmt (runStmt : Bool → Stmt World → Interp World → Outcome World) : Prop :=
  ∀ own code s, Sound (runStmt own code s) fun r => Guards own s r.2

theorem Advances.trans (first : Advances place a b) (second : Advances place b c) :
    Advances place a c :=
  ⟨first.keeps.trans second.keeps,
    fun error tracked => second.tracked error (first.tracked error tracked)⟩

theorem Advances.of_same (frame : b.interp.toFrame = a.interp.toFrame)
    (flag : b.interp.error_flag = a.interp.error_flag) (threw : b.threw = a.threw) :
    Advances place a b := by
  refine ⟨.of_frame frame, fun error tracked => ?_⟩
  unfold Activation.Tracked
  rw [flag, threw]
  exact tracked

theorem advances_refl : Advances place a a :=
  .of_same rfl rfl rfl

theorem advances_declare (id : Nat) (name : String) (value : LRValue) :
    Advances place a (a.declare E id name value) :=
  .of_same rfl rfl rfl

theorem sound_nested {outcome : Interp World → Outcome World}
    (sound : Sound (outcome a.interp) fun r => Keeps place a.interp r.2) :
    Sound (nested outcome a) fun r => Advances place a r.2 := by
  apply sound.andThen
  intro r keeps
  apply Course.Obeys.log (fun _ => trivial)
  intro pending
  apply obeys_done
  refine ⟨keeps, fun error tracked => ?_⟩
  unfold Activation.Tracked at tracked ⊢
  rw [tracked] at pending
  cases here : r.2.error_flag with
  | true => simp
  | false =>
    rw [here] at pending
    simp only [Bool.or_false]
    exact (Bool.eq_false_of_not_eq_true fun up => Bool.noConfusion (pending up)).symm

section

variable (well : Disciplined run)
include well

theorem sound_evaluate (code : Expr World) :
    Sound (evaluate run place code a) fun r => Advances place a r.2 :=
  sound_nested (well place code a.interp)

theorem sound_extendsParent (ext : Extends World) :
    Sound (extendsParent E run place ext a) fun r => Advances place a r.2 := by
  unfold extendsParent
  dsimp only
  split
  · exact obeys_done advances_refl
  · apply (sound_evaluate well ext.code).andThen
    intro r advances
    split
    · exact obeys_done (advances.trans (.of_same rfl rfl rfl))
    · exact obeys_done advances

theorem sound_bindSuper (ext : Extends World) (id : Nat) :
    Sound (bindSuper E run place ext id a) (Advances place a) := by
  unfold bindSuper
  split
  · exact obeys_done ((advances_declare _ _ _).trans (advances_declare _ _ _))
  · apply (sound_extendsParent well ext).andThen
    intro r advances
    split
    · apply (sound_evaluate well _).andThen
      intro p further
      apply obeys_done
      apply (advances.trans further).trans
      exact .of_same rfl rfl rfl
    · exact obeys_done advances

theorem sound_bindMethodSuper (func : FuncNode World) (id : Nat) :
    Sound (bindMethodSuper E run place func id a) (Advances place a) := by
  unfold bindMethodSuper
  split
  · exact sound_bindSuper well _ id
  · exact obeys_done advances_refl

theorem sound_bindDefault (id : Nat) (target : Option String) (value : Expr World) (arg : LRValue) :
    Sound (bindDefault E run place id target value arg a) (Advances place a) := by
  cases target with
  | none => exact obeys_done advances_refl
  | some pname =>
    unfold bindDefault
    dsimp only
    split
    · apply (sound_evaluate well value).andThen
      intro r advances
      exact obeys_done (advances.trans (advances_declare _ _ _))
    · exact obeys_done (advances_declare _ _ _)

/-- Binding the parameters leaves all but the scope and the values it stores. -/
theorem sound_bindParams (id : Nat) (params : List (Param World))
    (args : List LRValue) : Sound (bindParams E run place id params args a) (Advances place a) := by
  induction params generalizing args a with
  | nil => exact obeys_done advances_refl
  | cons param params ih =>
    have first {b : Activation World} (before : Advances place a b) :
        Sound (bindParams E run place id params args.tail b) (Advances place a) :=
      (ih args.tail).mono fun c behind => before.trans behind
    cases param with
    | identifier pname => exact first (advances_declare _ _ _)
    | rest target =>
      cases target with
      | none => exact obeys_done advances_refl
      | some pname => exact obeys_done (.of_same rfl rfl rfl)
    | defaultValue left right => exact (sound_bindDefault well _ _ _ _).andThen fun _ => first
    | pattern eval_pattern => exact (sound_evaluate well _).andThen fun _ => first
    | assign target value => exact (sound_bindDefault well _ _ _ _).andThen fun _ => first
    | other => exact first advances_refl

end

theorem advances_bindArguments (func : FuncNode World) (id : Nat) (args : List LRValue) :
    Advances place a (bindArguments E func id args a) := by
  unfold bindArguments
  split
  · exact .of_same rfl rfl rfl
  · exact advances_refl

/-! ## Bodies -/

theorem pop_guards (s : Interp World) : Guards own s (s.interp_pop_scope E) := by
  unfold interp_pop_scope
  split <;> exact ⟨rfl, rfl, rfl, rfl, fun _ => rfl⟩

theorem pop_error (s : Interp World) : (s.interp_pop_scope E).error_flag = s.error_flag := by
  unfold interp_pop_scope
  split <;> rfl

theorem push_guards (s : Interp World) : Guards own s (s.interp_push_scope E) :=
  ⟨rfl, rfl, rfl, rfl, fun _ => rfl⟩

theorem pop_keeps (keeps : Keeps place (s.interp_push_scope E) s') :
    Keeps place s (s'.interp_pop_scope E) := by
  have scope := keeps.scope
  unfold interp_pop_scope
  split
  · next empty =>
      rw [empty] at scope
      cases scope
  · next id parents here =>
      rw [here] at scope
      exact ⟨keeps.depth, (List.cons.inj scope).2, keeps.flags, keeps.stack, keeps.active,
        keeps.items, keeps.count⟩

theorem sound_runBody (well : Disciplined run) (wellStmt : DisciplinedStmt runStmt)
    (body : Body World) : Sound (runBody E run runStmt body s) fun r => Guards false s r.2 := by
  cases body with
  | program code => exact wellStmt false code s
  | expression code => exact (well ⟨false, false⟩ code s).mono fun r keeps => keeps.guards
  | block code =>
    unfold runBody
    dsimp only
    split
    · exact obeys_done ((push_guards s).trans (pop_guards _))
    · apply (wellStmt false code _).andThen
      intro r guards
      exact obeys_done (((push_guards s).trans guards).trans (pop_guards r.2))

theorem sound_evalBody (well : Disciplined run) (wellStmt : DisciplinedStmt runStmt)
    (func : FuncNode World) :
    Sound (evalBody E run runStmt func s) fun r => Guards false s r.2 := by
  have idle : Guards false s s := ⟨rfl, rfl, rfl, rfl, fun _ => rfl⟩
  unfold evalBody
  split
  · exact obeys_done idle
  · split
    · exact obeys_done idle
    · exact sound_runBody well wellStmt _

/-- Behind an exception the first statement of a block is not reached. -/
theorem not_executes {func : FuncNode World} (checked : func.unchecked = false)
    (pending : s.error_flag = true) : func.executes s = false := by
  have stops : s.stopped = true := by simp [stopped, pending]
  unfold FuncNode.unchecked at checked
  unfold FuncNode.executes
  cases body : func.body with
  | none => rfl
  | some body' =>
    rw [body] at checked
    cases body' with
    | program code | expression code => exact checked
    | block code => simp [stops]

/-- A body that is not executed leaves the frame and the pending exception. -/
theorem evalBody_skipped (func : FuncNode World) (skipped : func.executes s = false) :
    Sound (evalBody E run runStmt func s) fun r =>
      Guards false s r.2 ∧ r.2.error_flag = s.error_flag := by
  have idle : Guards false s s := ⟨rfl, rfl, rfl, rfl, fun _ => rfl⟩
  unfold evalBody
  unfold FuncNode.executes at skipped
  split
  · exact obeys_done ⟨idle, rfl⟩
  · next body found =>
      split
      · exact obeys_done ⟨idle, rfl⟩
      · next plain =>
          have plain : func.is_generator = false := Bool.eq_false_of_not_eq_true plain
          rw [found, plain] at skipped
          cases body with
          | program code | expression code => cases skipped
          | block code =>
            have stops : s.stopped = true := by simpa using skipped
            have stops : (s.interp_push_scope E).stopped = true := stops
            simp only [runBody, if_pos stops]
            apply obeys_done
            exact ⟨(push_guards s).trans (pop_guards _), pop_error _⟩

theorem bodyResult_keeps (func : FuncNode World) (value : LRValue) (s : Interp World) :
    Keeps ⟨false, true⟩ s (bodyResult E func value s).2 ∧
      (bodyResult E func value s).2.error_flag = s.error_flag := by
  unfold bodyResult
  split
  · split
    · exact ⟨.of_frame rfl, rfl⟩
    · exact ⟨.of_frame rfl, rfl⟩
  · exact ⟨.of_frame rfl, rfl⟩

/-- The body keeps what it has to; an exception of the parameters is pending behind it, and
then it was not executed. -/
structure Completes (func : FuncNode World) (a : Activation World) (s : Interp World) : Prop where
  guards : Guards false a.interp s
  error : a.threw = true → s.error_flag = true
  skipped : ¬(a.threw = true ∧ func.executes a.interp = true)

/-- A body returns with the frame it was called in, and is skipped behind a pending exception. -/
theorem sound_callBody (well : Disciplined run) (wellStmt : DisciplinedStmt runStmt)
    (func : FuncNode World) (tracked : a.Tracked false) :
    Sound (callBody E run runStmt func a) fun r => Completes func a r.2 := by
  apply Course.Obeys.log (fun _ => trivial)
  intro met
  have pending (threw : a.threw = true) : a.interp.error_flag = true := by
    rw [tracked, threw]
    rfl
  have skipped (threw : a.threw = true) : func.executes a.interp = false :=
    have checked := Bool.eq_false_of_not_eq_true fun unchecked => met ⟨threw, unchecked⟩
    not_executes checked (pending threw)
  have evaluated : Sound (evalBody E run runStmt func a.interp) fun r =>
      Guards false a.interp r.2 ∧ (a.threw = true → r.2.error_flag = true) := by
    cases threw : a.threw with
    | true =>
      exact (evalBody_skipped func (skipped threw)).mono fun r here =>
        ⟨here.1, fun _ => here.2.trans (pending threw)⟩
    | false =>
      exact (sound_evalBody well wellStmt func).mono fun r guards =>
        ⟨guards, fun impossible => by cases impossible⟩
  apply evaluated.andThen
  intro r here
  have kept := bodyResult_keeps (E := E) func r.1 r.2
  apply obeys_done
  refine ⟨here.1.trans kept.1.guards, fun threw => kept.2.trans (here.2 threw), ?_⟩
  rintro ⟨threw, begun⟩
  rw [skipped threw] at begun
  cases begun

/-! ## Functions -/

theorem sound_tooDeep : Sound (callTooDeep s) fun r => Keeps place s r.2 := by
  apply Course.Obeys.log
  · intro _
    refine ⟨rfl, ?_, fun both => by cases both.1⟩
    exact (Bool.or_true _).symm
  · intro _
    exact obeys_done (.of_frame rfl)

variable {func : FuncNode World}

theorem startGenerator_plain (plain : func.is_generator = false) : startGenerator E func s = s := by
  simp [startGenerator, plain]

theorem startGenerator_keeps (func : FuncNode World) :
    (startGenerator E func s).depth = s.depth ∧
      (startGenerator E func s).call_stack = s.call_stack ∧
        (startGenerator E func s).error_flag = s.error_flag := by
  unfold startGenerator
  split <;> exact ⟨rfl, rfl, rfl⟩

structure Within (func : FuncNode World) (s s' : Interp World) : Prop where
  depth : s'.depth = s.depth
  stack : s'.call_stack = s.call_stack
  gen : func.is_generator = false → s'.gen = s.gen

theorem Within.of_guards
    (guards : Guards func.is_generator (startGenerator E func s) s') : Within func s s' := by
  have started := startGenerator_keeps (E := E) (s := s) func
  refine ⟨guards.depth.trans started.1, guards.stack.trans started.2.1, fun plain => ?_⟩
  rw [plain, startGenerator_plain plain] at guards
  exact guards.gen

theorem Within.guards (within : Within func s s')
    (guards : Guards false s' s'') : Within func s s'' :=
  ⟨guards.depth.trans within.depth, guards.stack.trans within.stack,
    fun plain => guards.gen.trans (within.gen plain)⟩

/-- Binding for compiled code leaves the frame of the caller to be restored. -/
theorem sound_bcBind (well : Disciplined run) (func : FuncNode World)
    (closure : Option InterpScope) (this : LRValue) (args : List LRValue)
    (calm : s.error_flag = false) :
    Sound (bcBind E run func closure this args s) fun b =>
      Guards func.is_generator s b.2.interp ∧ b.2.Tracked false := by
  unfold bcBind
  dsimp only
  split
  · exact obeys_done ⟨⟨rfl, rfl, rfl, rfl, fun _ => rfl⟩, calm⟩
  · apply (sound_bindMethodSuper well func _).andThen
    intro a advances
    apply (sound_bindParams well _ _ _).andThen
    intro b further
    have whole := (advances.trans (advances_bindArguments func _ args)).trans further
    have keeps := whole.keeps
    apply obeys_done
    exact ⟨⟨keeps.depth, keeps.stack, keeps.active, keeps.items, keeps.count⟩,
      whole.tracked false calm⟩

/-- Binding for the tree-walker leaves the frame of the caller to be restored. -/
theorem sound_callBind (well : Disciplined run) (func : FuncNode World)
    (closure : Option InterpScope) (this : LRValue) (args : List LRValue)
    (calm : s.error_flag = false) :
    Sound (callBind E run func closure this args s) fun b =>
      Within func s b.2.interp ∧ b.2.Tracked false := by
  apply (sound_bindMethodSuper well func _).andThen
  intro a advances
  have keeps := advances.keeps
  have begun : Within func s a.interp :=
    ⟨keeps.depth, keeps.stack, fun _ => keeps.guards.gen⟩
  apply (sound_bindParams well _ _ _).andThen
  intro b further
  apply obeys_done
  have bound := (advances_bindArguments func _ args).trans further
  have started := startGenerator_keeps (E := E) (s := a.interp) func
  have within := Within.of_guards bound.keeps.guards
  refine ⟨⟨within.depth.trans begun.depth, within.stack.trans begun.stack, fun plain => ?_⟩, ?_⟩
  · exact (within.gen plain).trans (begun.gen plain)
  · apply bound.tracked false
    have tracked : a.Tracked false := advances.tracked false calm
    exact started.2.2.trans tracked

theorem leaveCall_frame (E : Engine World) (id : Nat)
    (depth : s'.depth = s.depth + 1) (stack : s'.call_stack = s.call_stack)
    (gen : func.is_generator = false → s'.gen = s.gen) :
    (restoreGenerator func s.gen (leaveCall E s id s')).toFrame = s.toFrame := by
  have shallower : s'.depth - 1 = s.depth := by omega
  unfold restoreGenerator
  split
  · simp only [leaveCall, shallower, stack]
  · next plain =>
      have gen := gen (Bool.eq_false_of_not_eq_true plain)
      simp only [leaveCall, shallower, stack, gen]

theorem leaveCall_error (E : Engine World) (s s' : Interp World) (func : FuncNode World)
    (id : Nat) (gen : GenState) :
    (restoreGenerator func gen (leaveCall E s id s')).error_flag =
      (s.error_flag || s'.error_flag) := by
  unfold restoreGenerator leaveCall
  cases s'.error_flag <;> cases s.error_flag <;> split <;> rfl

/-- A call of compiled code that meets the condition keeps the caller's frame. -/
theorem sound_interp_bc_call_function (well : Disciplined run)
    (wellStmt : DisciplinedStmt runStmt) (func : FuncNode World) (closure : Option InterpScope)
    (this : LRValue) (args : List LRValue) :
    Sound (interp_bc_call_function E run runStmt func closure this args s) fun r =>
      Keeps place s r.2 := by
  unfold interp_bc_call_function
  split
  · exact sound_tooDeep
  · apply (sound_bcBind well func closure this args (startGenerator_keeps func).2.2).andThen
    intro b here
    have within := Within.of_guards here.1
    apply (sound_callBody well wellStmt func here.2).andThen
    intro r completes
    have after := within.guards completes.guards
    have frame := leaveCall_frame E b.1 after.depth after.stack after.gen
    have error := leaveCall_error E s r.2 func b.1 s.gen
    apply Course.Obeys.log
    · intro _
      refine ⟨frame, ?_, completes.skipped⟩
      rw [error]
      cases threw : b.2.threw with
      | true => simp [completes.error threw]
      | false => rfl
    · intro _
      exact obeys_done (.of_frame frame)

theorem sound_wrapAsync (well : Disciplined run) (result : LRValue) :
    Sound (wrapAsync E run result s) fun r => Keeps ⟨false, false⟩ s r.2 := by
  apply (well ⟨false, false⟩ E.new_promise s).andThen
  intro p first
  split
  · apply (well ⟨false, false⟩ _ _).andThen
    intro r second
    have entered : Keeps ⟨false, false⟩ p.2 { p.2 with world := (rejection E p.2).2 } :=
      .of_frame rfl
    apply obeys_done
    exact ((first.trans entered).trans second).trans (.of_frame rfl)
  · apply (well ⟨false, false⟩ _ _).andThen
    intro r second
    exact obeys_done (first.trans second)

theorem sound_settle (well : Disciplined run) (func : FuncNode World) (result : LRValue) :
    Sound (settle E run func result s) fun r => Keeps ⟨false, false⟩ s r.2 ∧
      (¬(func.is_async = true ∧ ¬func.is_generator = true) → r.2.error_flag = s.error_flag) := by
  unfold settle
  split
  · next async =>
      exact (sound_wrapAsync well result).mono fun r keeps =>
        ⟨keeps, fun plain => absurd async plain⟩
  · exact obeys_done ⟨.of_frame rfl, fun _ => rfl⟩

theorem restoreGenerator_within {saved : GenState}
    (within : Within func s s') (same : s.gen = saved) :
    (restoreGenerator func saved s').depth = s.depth ∧
      (restoreGenerator func saved s').call_stack = s.call_stack ∧
        (restoreGenerator func saved s').gen = saved ∧
          (restoreGenerator func saved s').error_flag = s'.error_flag := by
  unfold restoreGenerator
  split
  · exact ⟨within.depth, within.stack, rfl, rfl⟩
  · next plain =>
      have gen := within.gen (Bool.eq_false_of_not_eq_true plain)
      exact ⟨within.depth, within.stack, gen.trans same, rfl⟩

theorem popped_frame {frame : CallFrame} {id : Nat} (message : String)
    (depth : s'.depth = s.depth + 1) (stack : s'.call_stack = frame :: s.call_stack)
    (gen : s'.gen = s.gen) :
    (Interp.lr_pop_call_frame { leaveCall E s id s' with error_message := message }).toFrame =
      s.toFrame := by
  have shallower : s'.depth - 1 = s.depth := by omega
  simp [lr_pop_call_frame, leaveCall, shallower, stack, gen]

/-- A call by the tree-walker that meets the condition keeps the caller's frame. -/
theorem sound_interp_call_function (well : Disciplined run)
    (wellStmt : DisciplinedStmt runStmt) (func : FuncNode World) (this : LRValue)
    (args : List LRValue) :
    Sound (interp_call_function E run runStmt func this args s) fun r => Keeps place s r.2 := by
  unfold interp_call_function
  dsimp only
  split
  · have consumed : Keeps place s { s with pending_closure := none } := .of_frame rfl
    exact sound_tooDeep.mono fun r keeps => consumed.trans keeps
  · apply Course.Obeys.log (fun _ => trivial)
    intro room
    have room : s.callStackFull = false := room
    -- the interpreter in which the function is entered
    generalize entering : lr_push_call_frame _ _ = framed
    have pushed : framed.depth = s.depth + 1 ∧ framed.gen = s.gen ∧
        framed.call_stack = ⟨func.name.getD "", func.line⟩ :: s.call_stack := by
      unfold lr_push_call_frame at entering
      rw [if_neg (by simpa [callStackFull] using room)] at entering
      subst entering
      exact ⟨rfl, rfl, rfl⟩
    apply (sound_callBind well func _ this args rfl).andThen
    intro b here
    apply (sound_callBody well wellStmt func here.2).andThen
    intro r completes
    have within := here.1.guards completes.guards
    obtain ⟨depth, stack, gen, error⟩ := restoreGenerator_within within pushed.2.1
    apply (sound_settle well func _).andThen
    intro w settled
    obtain ⟨keeps, plain⟩ := settled
    have back {id : Nat} (message : String) :
        (lr_pop_call_frame
          { leaveCall E s id w.2 with error_message := message }).toFrame = s.toFrame :=
      popped_frame message (keeps.depth.trans (depth.trans pushed.1))
        (keeps.stack.trans (stack.trans pushed.2.2)) (keeps.guards.gen.trans gen)
    have flag : (leaveCall E s b.1 w.2).error_flag = (s.error_flag || w.2.error_flag) := by
      unfold leaveCall
      cases w.2.error_flag <;> cases s.error_flag <;> rfl
    apply Course.Obeys.log
    · intro _
      refine ⟨back _, flag.trans ?_, completes.skipped⟩
      split
      · rfl
      · next notAsync =>
          cases threw : b.2.threw with
          | true =>
            have pending : w.2.error_flag = true :=
              (plain notAsync).trans (error.trans (completes.error threw))
            simp [pending]
          | false => rfl
    · intro _
      exact obeys_done (.of_frame (back _))

/-! ## Classes -/

theorem sound_implicitSuper (well : Disciplined run) (ext : Extends World) (this : LRValue)
    (args : List LRValue) :
    Sound (implicitSuper E run ext this args a) (Advances ⟨false, true⟩ a) := by
  apply (sound_extendsParent well ext).andThen
  intro r advances
  split
  · split
    · next extra def_scope _ =>
        have handed : Advances ⟨false, true⟩ r.2
            { r.2 with interp := { r.2.interp with pending_closure := def_scope } } :=
          .of_same rfl rfl rfl
        apply (sound_evaluate well _).andThen
        intro p further
        exact obeys_done ((advances.trans handed).trans further)
    · apply (sound_evaluate well _).andThen
      intro p further
      exact obeys_done (advances.trans further)
    · exact obeys_done advances
  · exact obeys_done advances

theorem sound_superReferences (well : Disciplined run) (ext : Extends World) :
    Sound (superReferences E run ext a) fun r => Advances ⟨false, true⟩ a r.2 := by
  have lost {Value : Type} {next : Course Event Value} {post : Value → Prop} :
      Sound (.log (.resolved false) next) post :=
    Course.Obeys.log (fun _ => trivial) fun impossible => by cases impossible
  unfold superReferences
  split
  · exact Course.Obeys.log (fun _ => trivial) fun _ => obeys_done advances_refl
  · apply (sound_evaluate well ext.code).andThen
    intro r advances
    split
    · exact lost
    · split
      · apply (sound_evaluate well _).andThen
        intro p further
        apply Course.Obeys.log (fun _ => trivial)
        intro _
        exact obeys_done ((advances.trans further).trans (.of_same rfl rfl rfl))
      · exact lost

structure Inside (a b : Activation World) : Prop where
  scope : ∃ id, b.interp.current_scope = id :: a.interp.current_scope
  keeps : Keeps ⟨false, true⟩ a.interp { b.interp with current_scope := a.interp.current_scope }
  tracked : ∀ error, a.Tracked error → b.Tracked error

theorem Inside.advances (inside : Inside a b) (advances : Advances ⟨false, true⟩ b c) :
    Inside a c := by
  obtain ⟨id, here⟩ := inside.scope
  have keeps := inside.keeps
  have further := advances.keeps
  refine ⟨⟨id, further.scope.trans here⟩, ?_, fun error tracked =>
    advances.tracked error (inside.tracked error tracked)⟩
  exact ⟨further.depth.trans keeps.depth, rfl, fun _ => (further.flags rfl).trans (keeps.flags rfl),
    further.stack.trans keeps.stack, further.active.trans keeps.active,
    further.items.trans keeps.items, fun _ => (further.count rfl).trans (keeps.count rfl)⟩

theorem Inside.pop (inside : Inside a b) :
    Advances ⟨false, true⟩ a { b with interp := b.interp.interp_pop_scope E } := by
  obtain ⟨id, here⟩ := inside.scope
  have keeps := inside.keeps
  refine ⟨?_, fun error tracked => ?_⟩
  · unfold interp_pop_scope
    rw [here]
    exact ⟨keeps.depth, rfl, keeps.flags, keeps.stack, keeps.active, keeps.items, keeps.count⟩
  · unfold Activation.Tracked
    rw [pop_error]
    exact inside.tracked error tracked

section

variable (well : Disciplined run)
include well

theorem sound_enterClass (cls : ClassNode World) (this : LRValue) :
    Sound (enterClass E run cls this a) (Inside a) := by
  unfold enterClass
  split
  · exact obeys_done ⟨⟨_, rfl⟩, .of_frame rfl, fun _ tracked => tracked⟩
  · next ext _ =>
      apply (sound_superReferences well ext).andThen
      intro r advances
      have keeps := advances.keeps
      apply obeys_done
      refine ⟨⟨_, congrArg _ keeps.scope⟩, ?_, advances.tracked⟩
      exact ⟨keeps.depth, rfl, keeps.flags, keeps.stack, keeps.active, keeps.items, keeps.count⟩

theorem sound_setField (this : LRValue) (key : Option (FieldKey World))
    (v : LRValue) : Sound (setField E run this key v a) (Advances ⟨false, true⟩ a) := by
  unfold setField
  split
  · apply (sound_evaluate well _).andThen
    exact fun r advances => obeys_done advances
  · apply (sound_evaluate well _).andThen
    intro k first
    apply (sound_evaluate well _).andThen
    exact fun r second => obeys_done (first.trans second)
  · exact obeys_done advances_refl

theorem sound_fieldValue (val : Option (Expr World)) :
    Sound (fieldValue run val a) fun r => Advances ⟨false, true⟩ a r.2 := by
  unfold fieldValue
  split
  · exact sound_evaluate well _
  · exact obeys_done advances_refl

theorem sound_initFields (this : LRValue) (members : List (Member World)) :
    Sound (initFields E run this members a) (Advances ⟨false, true⟩ a) := by
  induction members generalizing a with
  | nil => exact obeys_done advances_refl
  | cons m members ih =>
    cases m with
    | method name is_static is_getter is_setter func | other => exact ih
    | property is_static key val =>
      cases is_static with
      | true => exact ih
      | false =>
        apply (sound_fieldValue well val).andThen
        intro r first
        split
        · exact obeys_done first
        · apply (sound_setField well this key r.1).andThen
          intro b second
          exact ih.mono fun c third => (first.trans second).trans third

/-- The constructor of a class leaves all but the values it returns and throws. -/
theorem sound_constructClass (wellStmt : DisciplinedStmt runStmt)
    (cls : ClassNode World) (closure : Option InterpScope) (this : LRValue) (args : List LRValue) :
    Sound (constructClass E run runStmt cls closure this args a) fun r =>
      Advances ⟨false, true⟩ a r.2 := by
  unfold constructClass
  split
  · next ctor _ =>
      apply (sound_enterClass well cls this).andThen
      intro b inside
      apply (sound_initFields well this cls.methods).andThen
      intro c fields
      have here := inside.advances fields
      split
      · exact obeys_done here.pop
      · have handed : Advances ⟨false, true⟩ c
            { c with interp := { c.interp with pending_closure := closure } } :=
          .of_same rfl rfl rfl
        apply (sound_nested (sound_interp_call_function well wellStmt ctor this args)).andThen
        intro r further
        exact obeys_done ((here.advances handed).advances further).pop
  · split
    · apply (sound_enterClass well cls this).andThen
      intro b inside
      apply (sound_initFields well this cls.methods).andThen
      intro c fields
      exact obeys_done (inside.advances fields).pop
    · exact obeys_done advances_refl

end

theorem sound_returnFrom (value : LRValue) {s : Interp World}
    (advances : Advances ⟨false, true⟩ ⟨{ s with pending_closure := none }, false⟩ a) :
    Sound (returnFrom s value a) fun r => Keeps place s r.2 := by
  have frame : a.interp.toFrame = s.toFrame := advances.keeps.frame
  have tracked := advances.tracked s.error_flag (Bool.or_false _).symm
  apply Course.Obeys.log
  · intro _
    exact ⟨frame, tracked, fun both => by cases both.2⟩
  · intro _
    exact obeys_done (.of_frame frame)

theorem sound_interp_call_class_function (well : Disciplined run)
    (wellStmt : DisciplinedStmt runStmt) (cls : ClassNode World) (this : LRValue)
    (args : List LRValue) :
    Sound (interp_call_class_function E run runStmt cls this args s) fun r =>
      Keeps place s r.2 := by
  unfold interp_call_class_function
  split
  · next ext _ _ =>
      apply (sound_implicitSuper well ext this args).andThen
      intro b first
      split
      · exact sound_returnFrom _ first
      · apply (sound_constructClass well wellStmt cls _ this args).andThen
        intro r second
        exact sound_returnFrom _ (first.trans second)
  · apply (sound_constructClass well wellStmt cls _ this args).andThen
    intro r advances
    exact sound_returnFrom _ advances

theorem sound_interp_invoke_function_ast (well : Disciplined run)
    (wellStmt : DisciplinedStmt runStmt) (ast : Option Nat) (this : LRValue) (args : List LRValue) :
    Sound (interp_invoke_function_ast E run runStmt ast this args s) fun r =>
      Keeps place s r.2 := by
  unfold interp_invoke_function_ast
  split
  · exact sound_interp_call_class_function well wellStmt _ this args
  · exact sound_interp_call_function well wellStmt _ this args
  · exact obeys_done (.of_frame rfl)

end Calls

/-! ## Runs -/

section Running

variable (E : Engine World)

theorem leaveGenerator_keeps {before behind : Interp World} {scope : Option InterpScope}
    {items : LRValue} {count : Nat}
    (guards : Guards true (enterGenerator scope items count before) behind)
    (flags : place.exposed = true → (leaveGenerator before behind).flags = before.flags) :
    Keeps place before (leaveGenerator before behind) :=
  ⟨guards.depth, rfl, flags, guards.stack, rfl, rfl, fun _ => rfl⟩

theorem leaveUnit_keeps {before behind : Interp World} {sandboxed : Bool}
    {scope : Option InterpScope}
    (guards : Guards place.own (enterUnit sandboxed scope before) behind)
    (flags : place.exposed = true → (leaveUnit sandboxed before behind).flags = before.flags) :
    Keeps place before (leaveUnit sandboxed before behind) :=
  ⟨guards.depth, rfl, flags, guards.stack, guards.active, guards.items, guards.count⟩

/-- Everything that runs with some fuel is disciplined, by induction on the fuel. -/
theorem exec_disciplined (fuel : Nat) :
    Disciplined (exec E fuel) ∧ DisciplinedStmt (execStmt E fuel) := by
  induction fuel with
  | zero => exact ⟨fun _ _ _ => obeys_diverge, fun _ _ _ => obeys_diverge⟩
  | succ fuel ih =>
    obtain ⟨well, wellStmt⟩ := ih
    constructor
    · intro place code s
      -- what follows a step is run with less fuel
      have rest {s' : Interp World} (keeps : Keeps place s s') (next : Expr World) :
          Sound (exec E fuel place next s') fun r => Keeps place s r.2 :=
        (well place next s').mono fun r further => keeps.trans further
      cases code with
      | done value => exact obeys_done (.of_frame rfl)
      | look next => exact well place (next s) s
      | change open_ next =>
        have kept : Keeps place s { s with toOpen := open_ } := .of_frame rfl
        exact rest kept next
      | invoke ast this args next =>
        exact (sound_interp_invoke_function_ast well wellStmt ast this args).andThen
          fun r keeps => rest keeps (next r.1)
      | call ast this args next =>
        exact (sound_interp_call_function well wellStmt _ this args).andThen
          fun r keeps => rest keeps (next r.1)
      | bcCall ast closure this args next =>
        exact (sound_interp_bc_call_function well wellStmt _ closure this args).andThen
          fun r keeps => rest keeps (next r.1)
      | guarded code next =>
        unfold exec
        split
        · have kept : Keeps place s s.overflow := .of_frame rfl
          exact rest kept _
        · apply (well place code _).andThen
          intro r keeps
          have depth : r.2.depth = s.depth + 1 := keeps.depth
          have kept : Keeps place s { r.2 with depth := r.2.depth - 1 } :=
            ⟨by simp [depth], keeps.scope, keeps.flags, keeps.stack,
              keeps.active, keeps.items, keeps.count⟩
          exact rest kept (next r.1)
      | framed frame code next =>
        apply Course.Obeys.log (fun _ => trivial)
        intro room
        have room : s.callStackFull = false := room
        apply (well place code _).andThen
        intro r keeps
        simp only [lr_push_call_frame, room, Bool.false_eq_true, if_false] at keeps
        have stack : r.2.call_stack = frame :: s.call_stack := keeps.stack
        have kept : Keeps place s r.2.lr_pop_call_frame :=
          ⟨keeps.depth, keeps.scope, keeps.flags,
            by simp [lr_pop_call_frame, stack],
            keeps.active, keeps.items, keeps.count⟩
        exact rest kept (next r.1)
      | inScope code next =>
        apply (well place code _).andThen
        exact fun r keeps => rest (pop_keeps keeps) (next r.1)
      | append value next =>
        apply Course.Obeys.log (fun _ => trivial)
        intro mine
        have kept : Keeps place s { s with
            gen := { s.gen with gen_count := s.gen.gen_count + 1 }
            world := E.gen_items_set s.gen.gen_items s.gen.gen_count value s.world } :=
          ⟨rfl, rfl, fun _ => rfl, rfl, rfl, rfl,
            fun outside => by rw [outside] at mine; cases mine⟩
        exact rest kept next
      | resume scope items count body store next =>
        apply (wellStmt true body _).andThen
        intro r guards
        apply Course.Obeys.log (fun _ => trivial)
        intro flags
        generalize store _ r.2 = open_ at flags ⊢
        have stored : Guards true (enterGenerator scope items count s)
            { r.2 with toOpen := open_ } :=
          ⟨guards.depth, guards.stack, guards.active, guards.items, guards.count⟩
        exact rest (leaveGenerator_keeps stored flags) next
      | unit sandboxed scope body next =>
        apply (wellStmt place.own body _).andThen
        intro r guards
        apply Course.Obeys.log (fun _ => trivial)
        exact fun flags => rest (leaveUnit_keeps guards flags) (next r.1)
    · intro own code s
      have rest {s' : Interp World} (guards : Guards own s s') (next : Stmt World) :
          Sound (execStmt E fuel own next s') fun r => Guards own s r.2 :=
        (wellStmt own next s').mono fun r further => guards.trans further
      have idle : Guards own s s := ⟨rfl, rfl, rfl, rfl, fun _ => rfl⟩
      cases code with
      | done value => exact obeys_done idle
      | look next => exact wellStmt own (next s) s
      | change open_ next =>
        have kept : Guards own s { s with toOpen := open_ } :=
          ⟨rfl, rfl, rfl, rfl, fun _ => rfl⟩
        exact rest kept next
      | control flags next =>
        have kept : Guards own s { s with flags := flags } :=
          ⟨rfl, rfl, rfl, rfl, fun _ => rfl⟩
        exact rest kept next
      | scope chain next =>
        have kept : Guards own s { s with current_scope := chain } :=
          ⟨rfl, rfl, rfl, rfl, fun _ => rfl⟩
        exact rest kept next
      | eval code next =>
        exact (well ⟨own, false⟩ code s).andThen fun r keeps => rest keeps.guards (next r.1)

/-- In a run in which all that the calls rely on is met, every call that returns holds the
discipline. -/
theorem call_discipline (fuel : Nat) (place : Place) (code : Expr World) (s : Interp World)
    (met : ∀ event ∈ (exec E fuel place code s).events, event.Met) :
    ∀ event ∈ (exec E fuel place code s).events, event.Holds :=
  ((exec_disciplined E fuel).1 place code s met).1

end Running

end Discipline

/-! ## A function with a default -/

def bareEngine (functions : Nat → FunctionAst Unit) : Engine Unit where
  functions := functions
  scope_new _ world := (0, world)
  scope_new_inline _ _ world := (0, world)
  scope_declare_name_direct _ _ _ world := world
  scope_declare_this _ _ world := world
  pop_scope _ world := world
  scope_release _ world := world
  lr_new_array world := (.object 1, world)
  arguments_object _ world := (.object 2, world)
  rest_array _ world := (.object 3, world)
  extends_cache_get _ _ := .undefined
  extends_cache_set _ _ world := world
  extends_cache_get_super _ _ := none
  extends_cache_set_super _ _ _ world := world
  lr_get_property_str _ _ := .done .undefined
  lr_set_property_str _ _ _ := .done .undefined
  lr_set_property_value _ _ _ := .done .undefined
  gen_build_object _ _ _ world := (.object 4, world)
  new_promise := .done (.object 5)
  lr_promise_reject_internal _ _ := .done .undefined
  lr_promise_resolve_internal _ _ := .done .undefined
  lr_new_string text world := (.string text, world)
  gen_items_set _ _ _ world := world
  callee _ _ := .other
  lr_call _ _ _ := .done .undefined
  unset _ := .undefined

def idleInterp : Interp Unit :=
  { depth := 0, current_scope := [0], flags := .start, gen := ⟨false, .undefined, 0⟩
    call_stack := [], error_flag := false, exception_pending := false
    exception_value := .undefined, error_message := "", break_label := "", continue_label := ""
    pending_closure := none, world := () }

def simpleFunction (body : Stmt Unit) : FuncNode Unit :=
  ⟨.func, some "g", 1, false, false, [], some (.program body), false, none⟩

/-- `function f(a = g()) { }`, and `g` with a body. -/
def defaultProgram (body : Stmt Unit) : Nat → FunctionAst Unit
  | 0 => .func ⟨.func, some "f", 2, false, false,
      [.defaultValue (some "a") (.invoke (some 1) .undefined [] .done)],
      some (.program (.done .undefined)), false, none⟩
  | _ => .func (simpleFunction body)

theorem call_discipline_return :
    (exec (bareEngine (defaultProgram
        (.look fun s => .control { s.flags with
          has_returned := true, return_value := .int32 7 } (.done .undefined)))) 10
      ⟨false, true⟩ (.invoke (some 0) .undefined [] .done) idleInterp).events.all
        (fun event => decide event.Holds) = true := by
  rw [List.all_eq_true]
  intro event member
  exact decide_eq_true (call_discipline _ _ _ _ _ (by decide +kernel) event member)

/-- When `g` throws, the body of `f` is executed all the same. -/
theorem body_begins_behind_throw :
    ¬∀ (World : Type) (E : Engine World) (fuel : Nat) (place : Place) (code : Expr World)
      (s : Interp World), ∀ event ∈ (exec E fuel place code s).events, event.Holds := by
  intro all
  have holds := all Unit (bareEngine (defaultProgram
      (.look fun s => .change { s.toOpen with
        error_flag := true, exception_pending := true } (.done .undefined)))) 10 ⟨false, true⟩
    (.invoke (some 0) .undefined [] .done) idleInterp
  exact absurd holds (by decide +kernel)

end LRJS.CallFrames
