import LRJS.NativeCalls

/-!
# Native call identity

A native body reads its own function object exactly as long as none of its
nested calls has set the cell.  A bound function reads the cell first, so a
chain of bound functions is a call of the target with all bound arguments.
-/

namespace LRJS.NativeCalls

namespace Trace

def Disturbs : Trace → Bool
  | .done => false
  | .read _ rest => rest.Disturbs
  | .called cell _ inner rest => cell || inner.Disturbs || rest.Disturbs

def Faithful (self : LRValue) : Trace → Prop
  | .done => True
  | .read value rest => value = self ∧ rest.Faithful self
  | .called _ func inner rest => inner.Faithful func ∧ rest.Faithful self

def Prompt (disturbed : Bool) : Trace → Prop
  | .done => True
  | .read _ rest => disturbed = false ∧ rest.Prompt disturbed
  | .called cell _ inner rest =>
    inner.Prompt false ∧ rest.Prompt (disturbed || cell || inner.Disturbs)

def after (cell : LRValue) (trace : Trace) : LRValue :=
  if trace.Disturbs then .undefined else cell

def Reads (current : LRValue) : Trace → Prop
  | .done => True
  | .read value rest => value = current ∧ rest.Reads current
  | .called cell func inner rest =>
    inner.Reads (if cell then func else current) ∧
      rest.Reads (if cell then .undefined else inner.after current)

def Silent : Trace → Prop
  | .done => True
  | .read _ _ => False
  | .called _ _ _ rest => rest.Silent

def Framed : Trace → Prop
  | .done => True
  | .read _ rest => rest.Framed
  | .called cell func inner rest =>
    (inner.Silent ∨ cell = true ∧ func ≠ .undefined) ∧ inner.Framed ∧ rest.Framed

theorem disturbs_append (first second : Trace) :
    (first.append second).Disturbs = (first.Disturbs || second.Disturbs) := by
  induction first with
  | done => rfl
  | read value rest ih => exact ih
  | called cell func inner rest _ ih =>
    simp [append, Disturbs, ih, Bool.or_assoc]

theorem after_append (cell : LRValue) (first second : Trace) :
    (first.append second).after cell = second.after (first.after cell) := by
  cases here : first.Disturbs <;> cases there : second.Disturbs <;>
    simp [after, disturbs_append, here, there]

variable {first second : Trace}

theorem reads_append {current : LRValue} (before : first.Reads current)
    (behind : second.Reads (first.after current)) : (first.append second).Reads current := by
  induction first generalizing current with
  | done => exact behind
  | read value rest ih =>
    exact ⟨before.1, ih before.2 behind⟩
  | called cell func inner rest _ ih =>
    refine ⟨before.1, ih before.2 ?_⟩
    have same : (Trace.called cell func inner rest).after current =
        rest.after (if cell then .undefined else inner.after current) := by
      cases cell <;> cases nested : inner.Disturbs <;> simp [after, Disturbs, nested]
    exact same ▸ behind

theorem silent_append (before : first.Silent) (behind : second.Silent) :
    (first.append second).Silent := by
  induction first with
  | done => exact behind
  | read value rest => exact before.elim
  | called cell func inner rest _ ih => exact ih before

theorem framed_append (before : first.Framed) (behind : second.Framed) :
    (first.append second).Framed := by
  induction first with
  | done => exact behind
  | read value rest ih => exact ih before
  | called cell func inner rest _ ih =>
    exact ⟨before.1, before.2.1, ih before.2.2⟩

/-- A trace reads its own data exactly if each read is prompt. -/
theorem faithful_iff_prompt {trace : Trace} {current self : LRValue} {disturbed : Bool}
    (reads : trace.Reads current) (framed : trace.Framed) (cell : trace.Silent ∨ self ≠ .undefined ∧
      current = if disturbed then .undefined else self) :
    trace.Faithful self ↔ trace.Prompt disturbed := by
  induction trace generalizing current self disturbed with
  | done => exact Iff.rfl
  | read value rest ih =>
    obtain ⟨proper, same⟩ := cell.resolve_left id
    have here : value = self ↔ disturbed = false := by
      rw [reads.1, same]
      cases disturbed with
      | true => simpa using proper.symm
      | false => simp
    exact and_congr here (ih reads.2 framed (.inr ⟨proper, same⟩))
  | called set func inner rest innerHypothesis restHypothesis =>
    refine and_congr (innerHypothesis reads.1 framed.2.1 ?_)
      (restHypothesis reads.2 framed.2.2 ?_)
    · rcases framed.1 with silent | ⟨isSet, proper⟩
      · exact .inl silent
      · exact .inr ⟨proper, by simp [isSet]⟩
    · rcases cell with silent | ⟨proper, same⟩
      · exact .inl silent
      · refine .inr ⟨proper, ?_⟩
        cases set <;> cases nested : inner.Disturbs <;> cases disturbed <;>
          simp [after, nested, same]

end Trace

/-! ## Runs -/

section Runs

variable {World : Type} {engine : Engine World}

structure Keeps (current : LRValue) (outcome : Outcome World) : Prop where
  reads : outcome.1.Reads current
  framed : outcome.1.Framed
  after : ∀ result ctx, outcome.2 = some (result, ctx) →
    ctx.currentFunc = outcome.1.after current

variable {current : LRValue}

theorem keeps_done : Keeps current ((.done, none) : Outcome World) :=
  ⟨trivial, trivial, by simp⟩

variable {outcome : Outcome World} {next : LRValue → Context World → Outcome World}

theorem Keeps.andThen (keeps : Keeps current outcome)
    (later : ∀ result ctx, outcome.2 = some (result, ctx) →
      Keeps ctx.currentFunc (next result ctx)) : Keeps current (outcome.andThen next) := by
  obtain ⟨trace, result⟩ := outcome
  cases result with
  | none => exact ⟨keeps.reads, keeps.framed, by simp [Outcome.andThen]⟩
  | some ended =>
    obtain ⟨result, ctx⟩ := ended
    have behind := later result ctx rfl
    have same := keeps.after result ctx rfl
    rw [same] at behind
    refine ⟨Trace.reads_append keeps.reads behind.reads,
      Trace.framed_append keeps.framed behind.framed, ?_⟩
    intro result' ctx' ended
    rw [behind.after result' ctx' ended]
    exact (Trace.after_append ..).symm

theorem silent_andThen (before : outcome.1.Silent)
    (later : ∀ result ctx, (next result ctx).1.Silent) : (outcome.andThen next).1.Silent := by
  obtain ⟨trace, result⟩ := outcome
  cases result with
  | none => exact before
  | some ended => exact Trace.silent_append before (later ended.1 ended.2)

variable {func : LRValue}

theorem Keeps.close {cell : Bool} (keeps : Keeps (if cell then func else current) outcome)
    (frame : outcome.1.Silent ∨ cell = true ∧ func ≠ .undefined) (result : LRValue → LRValue) :
    Keeps current (outcome.close cell func result) := by
  refine ⟨⟨keeps.reads, trivial⟩, ⟨frame, keeps.framed, trivial⟩, ?_⟩
  obtain ⟨trace, ended⟩ := outcome
  intro value ctx closed
  cases ended with
  | none => cases closed
  | some last =>
    obtain ⟨_, rfl⟩ := Prod.mk.inj (Option.some.inj closed)
    have here := keeps.after last.1 last.2 rfl
    cases cell with
    | true => rfl
    | false =>
      change last.2.currentFunc = _
      rw [here]
      simp [Outcome.close, Trace.after, Trace.Disturbs]

theorem invocation_undefined (site : Site) (this : LRValue) (args : List LRValue) :
    engine.invocation site .undefined this args = .glue (.ret .exception) :=
  rfl

/-- A run leaves `current_func` as it was, by induction on the fuel. -/
theorem keeps_run (fuel : Nat) :
    (∀ ctx code, Keeps ctx.currentFunc (exec engine fuel ctx code) ∧
      (exec engine fuel ctx code).1.Silent) ∧
    (∀ ctx func invocation, (func = .undefined → ∃ code, invocation = .glue code) →
      Keeps ctx.currentFunc (invoke engine fuel ctx func invocation) ∧
        (invoke engine fuel ctx func invocation).1.Silent) ∧
    ∀ ctx body, Keeps ctx.currentFunc (execNative engine fuel ctx body) := by
  induction fuel with
  | zero =>
    refine ⟨fun ctx code => ⟨?_, ?_⟩, fun ctx func invocation _ => ⟨?_, ?_⟩, fun ctx body => ?_⟩
    · rw [exec]
      exact keeps_done
    · rw [exec]
      trivial
    · rw [invoke]
      exact keeps_done
    · rw [invoke]
      trivial
    · rw [execNative]
      exact keeps_done
  | succ fuel ih =>
    obtain ⟨runs, calls, bodies⟩ := ih
    refine ⟨fun ctx code => ?_, fun ctx func invocation proper => ?_, fun ctx body => ?_⟩
    · cases code with
      | ret result =>
        refine ⟨⟨trivial, trivial, ?_⟩, trivial⟩
        intro value ctx' ended
        obtain ⟨_, rfl⟩ := Prod.mk.inj (Option.some.inj ended)
        rfl
      | inspect next =>
        exact runs ctx (next ctx.world)
      | update world next =>
        exact runs { ctx with world := world } next
      | call site func this args next =>
        have called := calls ctx func (engine.invocation site func this args) (by
          rintro rfl
          exact ⟨_, invocation_undefined site this args⟩)
        exact ⟨called.1.andThen fun result ctx' _ => (runs ctx' (next result)).1,
          silent_andThen called.2 fun result ctx' => (runs ctx' (next result)).2⟩
    · have function {code : Prop} (notGlue : ¬code) (glue : func = .undefined → code) :
          func ≠ .undefined := fun same => notGlue (glue same)
      cases invocation with
      | glue code =>
        exact runs ctx code
      | native before body result =>
        have isFunction : func ≠ .undefined := function (by simp) proper
        have prepared := runs ctx before
        refine ⟨prepared.1.andThen fun this ctx' _ => ?_,
          silent_andThen prepared.2 fun _ _ => trivial⟩
        apply Keeps.close _ (.inr ⟨rfl, isFunction⟩)
        exact bodies { ctx' with currentFunc := func } (body this)
      | scripted cell before body result =>
        have prepared := runs ctx before
        refine ⟨prepared.1.andThen fun this ctx' _ => ?_,
          silent_andThen prepared.2 fun _ _ => trivial⟩
        have inside :=
          runs (if cell then { ctx' with currentFunc := func } else ctx') (body this)
        apply Keeps.close _ (.inl inside.2)
        cases cell <;> exact inside.1
    · cases body with
      | plain code =>
        exact (runs ctx code).1
      | reads next =>
        have behind := bodies ctx (next ctx.currentFunc)
        exact ⟨⟨rfl, behind.reads⟩, behind.framed, behind.after⟩
      | after code next =>
        exact (runs ctx code).1.andThen fun result ctx' _ => bodies ctx' (next result)

theorem run_faithful_iff (engine : Engine World) (fuel : Nat) (ctx : Context World)
    (code : Prog World) (self : LRValue) :
    (exec engine fuel ctx code).1.Faithful self ↔ (exec engine fuel ctx code).1.Prompt false := by
  have kept := (@keeps_run _ engine fuel).1 ctx code
  exact Trace.faithful_iff_prompt kept.1.reads kept.1.framed (.inl kept.2)

/-! ## Answers -/

def Outcome.answer (outcome : Outcome World) : Option (LRValue × World) :=
  outcome.2.map fun (result, ctx) => (result, ctx.world)

variable {first second : Outcome World} {next' : LRValue → Context World → Outcome World}

theorem answer_andThen (same : first.answer = second.answer)
    (later : ∀ result world cell cell',
      (next result ⟨cell, world⟩).answer = (next' result ⟨cell', world⟩).answer) :
    (first.andThen next).answer = (second.andThen next').answer := by
  obtain ⟨trace, ended⟩ := first
  obtain ⟨trace', ended'⟩ := second
  cases ended with
  | none =>
    cases ended' with
    | none => rfl
    | some last => cases same
  | some last =>
    cases ended' with
    | none => cases same
    | some last' =>
      obtain ⟨result, cell, world⟩ := last
      obtain ⟨result', cell', world'⟩ := last'
      obtain ⟨rfl, rfl⟩ := Prod.mk.inj (Option.some.inj same)
      exact later result world cell cell'

theorem answer_close (same : first.answer = second.answer)
    (cell : Bool) (func : LRValue) (result : LRValue → LRValue) :
    (first.close cell func result).answer = (second.close cell func result).answer := by
  have shape (outcome : Outcome World) : (outcome.close cell func result).answer =
      outcome.answer.map fun (value, world) => (result value, world) := by
    obtain ⟨trace, ended⟩ := outcome
    cases ended with
    | none => rfl
    | some last => cases cell <;> rfl
  rw [shape, shape, same]

def Outcome.Stable (first second : Outcome World) : Prop :=
  first.2.isSome → second = first

theorem stable_none {trace : Trace} : Outcome.Stable (trace, none) second := by
  intro ended
  cases ended

theorem Outcome.Stable.andThen (stable : first.Stable second)
    (later : ∀ result ctx, (next result ctx).Stable (next' result ctx)) :
    (first.andThen next).Stable (second.andThen next') := by
  obtain ⟨trace, ended⟩ := first
  cases ended with
  | none => exact stable_none
  | some last =>
    obtain rfl := stable rfl
    intro ended
    have same := later last.1 last.2 ended
    simp only [Outcome.andThen, same]

theorem Outcome.Stable.close (stable : first.Stable second)
    (cell : Bool) (func : LRValue) (result : LRValue → LRValue) :
    (first.close cell func result).Stable (second.close cell func result) := by
  obtain ⟨trace, ended⟩ := first
  cases ended with
  | none => exact stable_none
  | some last =>
    obtain rfl := stable rfl
    exact fun _ => rfl

/-- More fuel does not change what a run that ended has done. -/
theorem stable_run (fuel : Nat) :
    (∀ ctx code, (exec engine fuel ctx code).Stable (exec engine (fuel + 1) ctx code)) ∧
    (∀ ctx func invocation, (invoke engine fuel ctx func invocation).Stable
      (invoke engine (fuel + 1) ctx func invocation)) ∧
    ∀ ctx body,
      (execNative engine fuel ctx body).Stable (execNative engine (fuel + 1) ctx body) := by
  induction fuel with
  | zero =>
    refine ⟨fun ctx code => ?_, fun ctx func invocation => ?_, fun ctx body => ?_⟩
    · rw [exec]
      exact stable_none
    · rw [invoke]
      exact stable_none
    · rw [execNative]
      exact stable_none
  | succ fuel ih =>
    obtain ⟨runs, calls, bodies⟩ := ih
    refine ⟨fun ctx code => ?_, fun ctx func invocation => ?_, fun ctx body => ?_⟩
    · cases code with
      | ret result =>
        exact fun _ => rfl
      | inspect next =>
        exact runs ctx (next ctx.world)
      | update world next =>
        exact runs { ctx with world := world } next
      | call site func this args next =>
        exact (calls ctx func _).andThen fun result ctx' => runs ctx' (next result)
    · cases invocation with
      | glue code =>
        exact runs ctx code
      | native before body result =>
        exact (runs ctx before).andThen fun this ctx' => (bodies _ (body this)).close _ _ _
      | scripted cell before body result =>
        exact (runs ctx before).andThen fun this ctx' => (runs _ (body this)).close _ _ _
    · cases body with
      | plain code =>
        exact runs ctx code
      | reads next =>
        rw [execNative, execNative]
        intro ended
        have same := bodies ctx (next ctx.currentFunc) ended
        simp only [same]
      | after code next =>
        exact (runs ctx code).andThen fun result ctx' => bodies ctx' (next result)

variable {last : LRValue × World}

theorem Outcome.Stable.answer (stable : first.Stable second) (answered : first.answer = some last) :
    second.answer = some last := by
  obtain ⟨trace, ended⟩ := first
  cases ended with
  | none => cases answered
  | some _ =>
    obtain rfl := stable rfl
    exact answered

theorem invoke_answer_add {fuel : Nat} {ctx : Context World} {invocation : Engine.Invocation World}
    (answered : (invoke engine fuel ctx func invocation).answer = some last) (more : Nat) :
    (invoke engine (fuel + more) ctx func invocation).answer = some last := by
  induction more with
  | zero => exact answered
  | succ more ih =>
    exact ((stable_run (fuel + more)).2.1 ctx func invocation).answer ih

/-- What a call answers does not depend on `current_func` before it. -/
theorem answer_run (fuel : Nat) :
    (∀ code cell cell' world, (exec engine fuel ⟨cell, world⟩ code).answer =
      (exec engine fuel ⟨cell', world⟩ code).answer) ∧
    ∀ func invocation cell cell' world,
      (invoke engine fuel ⟨cell, world⟩ func invocation).answer =
        (invoke engine fuel ⟨cell', world⟩ func invocation).answer := by
  induction fuel with
  | zero =>
    refine ⟨fun code cell cell' world => ?_, fun func invocation cell cell' world => ?_⟩
    · rw [exec, exec]
    · rw [invoke, invoke]
  | succ fuel ih =>
    obtain ⟨runs, calls⟩ := ih
    refine ⟨fun code cell cell' world => ?_, fun func invocation cell cell' world => ?_⟩
    · cases code with
      | ret result =>
        rfl
      | inspect next =>
        exact runs (next world) cell cell' world
      | update world' next =>
        exact runs next cell cell' world'
      | call site func this args next =>
        apply answer_andThen (calls func _ cell cell' world)
        intro result world₁ cell₁ cell₂
        exact runs (next result) cell₁ cell₂ world₁
    · cases invocation with
      | glue code =>
        exact runs code cell cell' world
      | native before body result =>
        apply answer_andThen (runs before cell cell' world)
        intro this world₁ cell₁ cell₂
        rfl
      | scripted set before body result =>
        apply answer_andThen (runs before cell cell' world)
        intro this world₁ cell₁ cell₂
        apply answer_close
        cases set with
        | true => rfl
        | false => exact runs (body this) cell₁ cell₂ world₁

def Answers (engine : Engine World) (world : World) (site : Site) (func this : LRValue)
    (args : List LRValue) (result : LRValue) (world' : World) : Prop :=
  ∃ fuel cell, (invoke engine fuel ⟨cell, world⟩ func
    (engine.invocation site func this args)).answer = some (result, world')

/-! ## Bound functions -/

def Site.Ordinary (site : Site) : Prop :=
  site = .lrCall ∨ site = .lrCallDirect ∨ site = .vmCall

variable {site : Site} {ptr : Addr}

theorem invocation_native (ordinary : site.Ordinary) {code : NativeCode World} {data : PrivateData}
    (holds : engine.objects ptr = .native code data) (this : LRValue) (args : List LRValue) :
    ∃ this', (site ≠ .vmCall ∨ this ≠ .undefined → this' = this) ∧
      engine.invocation site (.object ptr) this args =
        .native (.ret this') (fun this => engine.body this args code) fun _ result => result := by
  rcases ordinary with rfl | rfl | rfl
  · exact ⟨this, fun _ => rfl, by simp [Engine.invocation, holds]⟩
  · exact ⟨this, fun _ => rfl, by simp [Engine.invocation, holds]⟩
  · refine ⟨if this = .undefined then engine.globalObject else this, ?_, ?_⟩
    · rintro (other | proper)
      · exact absurd rfl other
      · exact if_neg proper
    · simp [Engine.invocation, holds]

theorem answer_handed {fuel : Nat} :
    (outcome.andThen fun result ctx => exec engine (fuel + 1) ctx (.ret result)).answer =
      outcome.answer := by
  obtain ⟨trace, ended⟩ := outcome
  cases ended with
  | none => rfl
  | some last =>
    rfl

variable {this : LRValue} {body : LRValue → NativeBody World}

theorem answer_native {fuel : Nat} {cell : LRValue} {world : World} :
    (invoke engine (fuel + 2) ⟨cell, world⟩ func
      (.native (.ret this) body fun _ result => result)).answer =
        (execNative engine (fuel + 1) ⟨func, world⟩ (body this)).answer := by
  rw [invoke, exec]
  simp only [Outcome.andThen]
  generalize execNative engine (fuel + 1) ⟨func, world⟩ (body this) = outcome
  obtain ⟨trace, ended⟩ := outcome
  cases ended <;> rfl

section

variable (ordinary : site.Ordinary) {data : BoundFunctionData}
    (holds : engine.objects ptr = .native .boundFunctionCall (.bound data)) (world : World)
include ordinary holds world

/-- A bound function answers as its target does with the bound values. -/
theorem answer_bound (cell this : LRValue) (args : List LRValue) (fuel : Nat) :
    (invoke engine (fuel + 4) ⟨cell, world⟩ (.object ptr)
      (engine.invocation site (.object ptr) this args)).answer =
    (invoke engine fuel ⟨cell, world⟩ data.target
      (engine.invocation .lrCall data.target data.boundThis (data.args ++ args))).answer := by
  obtain ⟨this', -, shape⟩ := invocation_native ordinary holds this args
  have found : engine.dataOf (.object ptr) = .bound data := by
    simp [Engine.dataOf, holds]
  rw [shape, answer_native]
  change (execNative engine (fuel + 2 + 1) _ (engine.js_bound_function_call args)).answer = _
  rw [Engine.js_bound_function_call, execNative]
  simp only [found]
  rw [((answer_run fuel).2 _ _ cell (.object ptr) world)]
  cases fuel with
  | zero =>
    rfl
  | succ fuel => exact answer_handed

theorem answers_bound (this : LRValue) (args : List LRValue) (result : LRValue) (world' : World) :
    Answers engine world site (.object ptr) this args result world' ↔
      Answers engine world .lrCall data.target data.boundThis (data.args ++ args)
        result world' := by
  constructor
  · rintro ⟨fuel, cell, answered⟩
    have more := invoke_answer_add answered 4
    exact ⟨fuel, cell, (answer_bound ordinary holds world cell this args fuel).symm.trans more⟩
  · rintro ⟨fuel, cell, answered⟩
    exact ⟨fuel + 4, cell, (answer_bound ordinary holds world cell this args fuel).trans answered⟩

end

def Ends (engine : Engine World) (code : Prog World) (result : LRValue) (world' : World) : Prop :=
  ∃ fuel ctx, (exec engine fuel ctx code).answer = some (result, world')

theorem andThen_answer (answered : (outcome.andThen next).answer = some last) :
    ∃ result ctx, (next result ctx).answer = some last := by
  obtain ⟨trace, ended⟩ := outcome
  cases ended with
  | none => cases answered
  | some middle => exact ⟨middle.1, middle.2, answered⟩

variable {result : LRValue} {world' : World}

theorem ends_ret {value : LRValue}
    (ends : Ends engine (.ret value) result world') : result = value := by
  obtain ⟨fuel, ctx, answered⟩ := ends
  cases fuel with
  | zero =>
    cases answered
  | succ fuel =>
    cases answered
    rfl

theorem ends_inspect {next : World → Prog World}
    (ends : Ends engine (.inspect next) result world') :
    ∃ world, Ends engine (next world) result world' := by
  obtain ⟨fuel, ctx, answered⟩ := ends
  cases fuel with
  | zero =>
    cases answered
  | succ fuel =>
    exact ⟨ctx.world, fuel, ctx, answered⟩

theorem ends_update {world : World} {next : Prog World}
    (ends : Ends engine (.update world next) result world') : Ends engine next result world' := by
  obtain ⟨fuel, ctx, answered⟩ := ends
  cases fuel with
  | zero =>
    cases answered
  | succ fuel =>
    exact ⟨fuel, _, answered⟩

variable {args : List LRValue}

theorem ends_call {next : LRValue → Prog World}
    (ends : Ends engine (.call site func this args next) result world') :
    ∃ value, Ends engine (next value) result world' := by
  obtain ⟨fuel, ctx, answered⟩ := ends
  cases fuel with
  | zero =>
    cases answered
  | succ fuel =>
    obtain ⟨value, ctx', behind⟩ := andThen_answer answered
    exact ⟨value, fuel, ctx', behind⟩

theorem ends_bind {code : Prog World} {next : LRValue → Prog World}
    (ends : Ends engine (code.bind next) result world') :
    ∃ value, Ends engine (next value) result world' := by
  induction code with
  | ret value => exact ⟨value, ends⟩
  | inspect look ih =>
    obtain ⟨world, behind⟩ := ends_inspect ends
    exact ih world behind
  | update world rest ih => exact ih (ends_update ends)
  | call site func this args rest ih =>
    obtain ⟨value, behind⟩ := ends_call ends
    exact ih value behind

theorem ends_change {step : World → LRValue × World} {next : LRValue → Prog World}
    (ends : Ends engine (.change step next) result world') :
    ∃ world, Ends engine (next (step world).1) result world' := by
  obtain ⟨world, behind⟩ := ends_inspect ends
  exact ⟨world, ends_update behind⟩

theorem ends_throws {message : String}
    (ends : Ends engine (engine.throws message) result world') : result = .exception := by
  obtain ⟨world, behind⟩ := ends_inspect ends
  exact ends_ret (ends_update behind)

theorem bind_returns
    (ends : Ends engine (engine.js_function_proto_bind this args) (.object ptr) world') :
    engine.objects ptr = .native .boundFunctionCall
      (.bound ⟨this, args.headD .undefined, args.tail⟩) := by
  rw [Engine.js_function_proto_bind] at ends
  split at ends
  · obtain ⟨length, ends⟩ := ends_bind ends
    obtain ⟨length, ends⟩ := ends_bind ends
    obtain ⟨world, ends⟩ := ends_change ends
    obtain ⟨proto, ends⟩ := ends_bind ends
    obtain ⟨_, ends⟩ := ends_bind ends
    obtain ⟨name, ends⟩ := ends_bind ends
    obtain ⟨text, ends⟩ := ends_bind ends
    obtain ⟨_, ends⟩ := ends_bind ends
    exact engine.newBound_native _ _ _ ptr (ends_ret ends).symm
  · cases ends_throws ends

/-- `f.bind(args)` has returned `g`. -/
def BindCall (engine : Engine World) (f : LRValue) (args : List LRValue) (g : LRValue) : Prop :=
  ∃ site ptr data world world', Site.Ordinary site ∧
    engine.objects ptr = .native .functionProtoBind data ∧ engine.isFunction f ∧ g.isObject ∧
    Answers engine world site (.object ptr) f args g world'

/-- `g` comes from `f` by calls of `bind`, with the first bound `this` and all bound
arguments. -/
inductive BindChain (engine : Engine World) (f : LRValue) :
    LRValue → LRValue → List LRValue → Prop where
  | one {g : LRValue} {args : List LRValue} (call : BindCall engine f args g) :
      BindChain engine f g (args.headD .undefined) args.tail
  | more {g g' boundThis : LRValue} {bound args : List LRValue}
      (chain : BindChain engine f g boundThis bound) (call : BindCall engine g args g') :
      BindChain engine f g' boundThis (bound ++ args.tail)

theorem bind_call {f g : LRValue} (call : BindCall engine f args g) :
    ∃ ptr, g = .object ptr ∧ engine.objects ptr = .native .boundFunctionCall
      (.bound ⟨f, args.headD .undefined, args.tail⟩) := by
  obtain ⟨site, ptr, data, world, world', ordinary, holds, isFunction, isObject, answered⟩ := call
  obtain ⟨this, same, shape⟩ := invocation_native ordinary holds f args
  have proper : f ≠ .undefined := by
    rintro rfl
    cases isFunction
  obtain rfl := same (.inr proper)
  obtain ⟨fuel, cell, answered⟩ := answered
  have more := invoke_answer_add answered 2
  rw [shape, answer_native] at more
  cases g with
  | object result => exact ⟨result, rfl, bind_returns ⟨fuel, _, more⟩⟩
  | _ => cases isObject

theorem chain_answers {f g boundThis : LRValue} {bound : List LRValue}
    (chain : BindChain engine f g boundThis bound) (ordinary : site.Ordinary)
    (world : World) (this : LRValue) (args : List LRValue) (result : LRValue) (world' : World) :
    Answers engine world site g this args result world' ↔
      Answers engine world .lrCall f boundThis (bound ++ args) result world' := by
  induction chain generalizing site this args with
  | one call =>
    obtain ⟨ptr, rfl, holds⟩ := bind_call call
    exact answers_bound ordinary holds world this args result world'
  | more chain call ih =>
    obtain ⟨ptr, rfl, holds⟩ := bind_call call
    rw [answers_bound ordinary holds, ih (.inl rfl), List.append_assoc]

/-! ## Reading at the entry -/

namespace NativeBody

def Unread : NativeBody World → Prop
  | .plain _ => True
  | .reads _ => False
  | .after _ next => ∀ result, (next result).Unread

def EntryOnly : NativeBody World → Prop
  | .plain _ => True
  | .reads next => ∀ value, (next value).EntryOnly
  | .after _ next => ∀ result, (next result).Unread

end NativeBody

def Engine.EntryOnly (engine : Engine World) : Prop :=
  ∀ ptr code data, engine.objects ptr = .native code data →
    ∀ this args, (engine.body this args code).EntryOnly

theorem invocation_entryOnly (entry : engine.EntryOnly) {before : Prog World}
    {result : LRValue → LRValue → LRValue}
    (native : engine.invocation site func this args = .native before body result)
    (this' : LRValue) : (body this').EntryOnly := by
  cases func with
  | object ptr =>
    cases holds : engine.objects ptr with
    | native code data =>
      cases site <;> simp only [Engine.invocation, holds] at native <;> cases native <;>
        exact entry ptr code data holds this' args
    | _ => cases site <;> simp [Engine.invocation, holds] at native
  | _ => cases native

theorem Trace.prompt_append {first second : Trace} {disturbed : Bool}
    (before : first.Prompt disturbed) (behind : ∀ disturbed, second.Prompt disturbed) :
    (first.append second).Prompt disturbed := by
  induction first generalizing disturbed with
  | done => exact behind disturbed
  | read value rest ih => exact ⟨before.1, ih before.2⟩
  | called cell func inner rest _ ih =>
    exact ⟨before.1, ih before.2⟩

theorem prompt_andThen {disturbed : Bool} (before : outcome.1.Prompt disturbed)
    (later : ∀ result ctx disturbed, (next result ctx).1.Prompt disturbed) :
    (outcome.andThen next).1.Prompt disturbed := by
  obtain ⟨trace, ended⟩ := outcome
  cases ended with
  | none => exact before
  | some last => exact Trace.prompt_append before (later last.1 last.2)

/-- Native code that reads its data at entry only reads its own. -/
theorem prompt_run (entry : engine.EntryOnly) (fuel : Nat) :
    (∀ ctx code disturbed, (exec engine fuel ctx code).1.Prompt disturbed) ∧
    (∀ ctx func invocation disturbed,
      (∀ before body result, invocation = .native before body result →
        ∀ this, (body this).EntryOnly) →
      (invoke engine fuel ctx func invocation).1.Prompt disturbed) ∧
    (∀ ctx body disturbed, body.Unread → (execNative engine fuel ctx body).1.Prompt disturbed) ∧
    ∀ ctx body, body.EntryOnly → (execNative engine fuel ctx body).1.Prompt false := by
  induction fuel with
  | zero =>
    refine ⟨fun ctx code disturbed => ?_, fun ctx func invocation disturbed _ => ?_,
      fun ctx body disturbed _ => ?_, fun ctx body _ => ?_⟩
    · rw [exec]
      trivial
    · rw [invoke]
      trivial
    · rw [execNative]
      trivial
    · rw [execNative]
      trivial
  | succ fuel ih =>
    obtain ⟨runs, calls, unread, bodies⟩ := ih
    refine ⟨fun ctx code disturbed => ?_, fun ctx func invocation disturbed proper => ?_,
      fun ctx body disturbed proper => ?_, fun ctx body proper => ?_⟩
    · cases code with
      | ret result =>
        trivial
      | inspect next | update world next =>
        apply runs
      | call site func this args next =>
        apply prompt_andThen
        · apply calls
          intro before body result native
          exact invocation_entryOnly entry native
        · intro result ctx' disturbed
          apply runs
    · cases invocation with
      | glue code =>
        apply runs
      | native before body result =>
        apply prompt_andThen (runs ctx before disturbed)
        intro this ctx' disturbed
        exact ⟨bodies _ (body this) (proper before body result rfl this), trivial⟩
      | scripted cell before body result =>
        apply prompt_andThen (runs ctx before disturbed)
        intro this ctx' disturbed
        exact ⟨runs _ (body this) false, trivial⟩
    · cases body with
      | plain code =>
        apply runs
      | reads next => exact proper.elim
      | after code next =>
        apply prompt_andThen (runs ctx code disturbed)
        intro result ctx' disturbed
        exact unread ctx' (next result) disturbed (proper result)
    · cases body with
      | plain code =>
        apply runs
      | reads next =>
        exact ⟨rfl, bodies ctx _ (proper ctx.currentFunc)⟩
      | after code next =>
        apply prompt_andThen (runs ctx code false)
        intro result ctx' disturbed
        exact unread ctx' (next result) disturbed (proper result)

/-- A run is faithful exactly when no native body reads the cell behind a nested call that has set
it; and a chain of bound functions is always a call of the target with all bound arguments. -/
theorem native_identity (engine : Engine World) :
    (∀ fuel ctx code self,
      (exec engine fuel ctx code).1.Faithful self ↔
        (exec engine fuel ctx code).1.Prompt false) ∧
    (engine.EntryOnly → ∀ fuel ctx code, (exec engine fuel ctx code).1.Prompt false) ∧
    ∀ f g boundThis bound, BindChain engine f g boundThis bound → ∀ site, Site.Ordinary site →
      ∀ world this args result world',
        Answers engine world site g this args result world' ↔
          Answers engine world .lrCall f boundThis (bound ++ args) result world' := by
  refine ⟨run_faithful_iff engine, ?_, ?_⟩
  · intro entry fuel ctx code
    exact (prompt_run entry fuel).1 ctx code false
  · intro f g boundThis bound chain site ordinary world this args result world'
    exact chain_answers chain ordinary world this args result world'

end Runs

/-! ## A small engine -/

instance Trace.decidableFaithful (self : LRValue) :
    (trace : Trace) → Decidable (trace.Faithful self)
  | .done => isTrue trivial
  | .read value rest =>
    have := rest.decidableFaithful self
    inferInstanceAs (Decidable (value = self ∧ rest.Faithful self))
  | .called _ func inner rest =>
    have := inner.decidableFaithful func
    have := rest.decidableFaithful self
    inferInstanceAs (Decidable (inner.Faithful func ∧ rest.Faithful self))

/-- `bind`, a function that counts its arguments, an `import.meta.resolve`, and an object whose
accessor `resolve` is the second. -/
def smallObjects : Addr → CallKind Unit
  | 0 => .native .functionProtoBind .none
  | 1 => .native (.other fun _ args => .reads fun _ => .plain (.ret (.int32 args.length))) .none
  | 2 => .native .importMetaResolve (.directory "lib")
  | 3 => .ordinary .none
  | 4 => .native .boundFunctionCall (.bound ⟨.object 1, .int32 7, [.int32 1]⟩)
  | 5 => .native .boundFunctionCall (.bound ⟨.object 4, .int32 8, [.int32 2]⟩)
  | _ => .ordinary .none

def smallBound (data : BoundFunctionData) : LRValue :=
  if data = ⟨.object 1, .int32 7, [.int32 1]⟩ then .object 4
  else if data = ⟨.object 4, .int32 8, [.int32 2]⟩ then .object 5
  else .exception

theorem smallBound_native (data : BoundFunctionData) (ptr : Addr)
    (made : smallBound data = .object ptr) :
    smallObjects ptr = .native .boundFunctionCall (.bound data) := by
  rw [smallBound] at made
  split at made
  · next same =>
      cases made
      rw [same]
      rfl
  · split at made
    · next same =>
        cases made
        rw [same]
        rfl
    · cases made

def smallEngine : Engine Unit where
  objects := smallObjects
  globalObject := .undefined
  getProperty value name :=
    if value = .object 3 ∧ name = "resolve" then .call .lrCall (.object 1) value [] .ret
    else .ret .undefined
  getPropertyDirect _ _ := .ret .undefined
  setProperty _ _ _ := .ret .undefined
  setPropertyUint32 _ _ _ := .ret .undefined
  toInt32 value := .ret value
  toCString value := .ret value
  throwTypeError _ world := world
  newObject world := (.exception, world)
  newArray _ world := (.exception, world)
  setPrototype _ _ world := world
  promiseAll _ _ := ⟨0, 0, .undefined, .undefined, false⟩
  setPromiseAll _ _ world := world
  newBound data _ world := (smallBound data, world)
  newBound_native data _ _ ptr made := smallBound_native data ptr made
  clip _ text := text
  bytesOf _ := ""

/-- The accessor of the receiver enters a native function, and `import.meta.resolve` reads
undefined behind it. -/
theorem resolve_reads_undefined :
    ¬ (exec smallEngine 20 ⟨.undefined, ()⟩
      (.call .lrCall (.object 2) (.object 3) [.string "./x"] .ret)).1.Faithful .undefined := by
  decide +kernel

/-- A function bound twice. -/
theorem native_identity_bound_twice :
    Answers smallEngine () .lrCall (.object 1) (.int32 7) [.int32 1, .int32 2, .int32 3]
      (.int32 3) () ∧
    Answers smallEngine () .vmCall (.object 5) .undefined [.int32 3] (.int32 3) () := by
  have direct : Answers smallEngine () .lrCall (.object 1) (.int32 7)
      [.int32 1, .int32 2, .int32 3] (.int32 3) () := ⟨20, .undefined, rfl⟩
  have first : BindCall smallEngine (.object 1) [.int32 7, .int32 1] (.object 4) :=
    ⟨.lrCall, 0, .none, (), (), .inl rfl, rfl, rfl, rfl, 30, .undefined, rfl⟩
  have second : BindCall smallEngine (.object 4) [.int32 8, .int32 2] (.object 5) :=
    ⟨.lrCall, 0, .none, (), (), .inl rfl, rfl, rfl, rfl, 30, .undefined, rfl⟩
  refine ⟨direct, ?_⟩
  exact ((native_identity smallEngine).2.2 _ _ _ _ (.more (.one first) second) .vmCall
    (.inr (.inr rfl)) () .undefined [.int32 3] (.int32 3) ()).mpr direct

end LRJS.NativeCalls
