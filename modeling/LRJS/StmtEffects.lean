import LRJS.ExprEffects
import LRJS.LoopRules

/-!
# Stack effects of the statement compiler

`cstmt` compiles every statement to code that leaves the operand cells and the
block scopes as it found them, up to the recorded jumps.
-/

namespace LRJS

open List Option Instr Levelled

variable {origin c c' : BCComp} {originLevel level level' : Nat → Level}
variable {pending pending' : List (Nat × Level)} {base depth scopes : Nat}
variable {f g : Comp}

theorem Effect.stmt (effect : Effect f 0 0) : StmtEffect f where
  ok := effect.ok
  run := fun c level pending base scopes state isOk =>
    effect.run c level pending base 0 scopes state isOk

theorem Stage.stmt (stage : Stage origin originLevel c pending base 0 scopes)
    (effect : StmtEffect f) (isOk : (f c).ok = true) :
    Stage origin originLevel (f c) pending base 0 scopes :=
  stage.bind fun level state => effect.run c level pending base scopes state isOk

theorem StmtEffect.seq (first : StmtEffect f) (second : StmtEffect g) :
    StmtEffect (fun c => g (f c)) where
  ok := fun c isOk => first.ok c (second.ok _ isOk)
  run := fun _ _ _ _ _ state isOk =>
    (state.stage.stmt first (second.ok _ isOk)).stmt second isOk

theorem StmtEffect.idle : StmtEffect id :=
  (Effect.idle 0).stmt

theorem StmtEffect.guarded (same : ∀ c, g c = if !c.ok then c else f c)
    (effect : StmtEffect f) : StmtEffect g where
  ok := fun _ isOk => (ok_of_guarded same isOk).1
  run := by
    intro c level pending base scopes state isOk
    have equality := (ok_of_guarded same isOk).2
    rw [equality] at isOk ⊢
    exact effect.run c level pending base scopes state isOk

/-- The range of a block that is recorded keeps the levels. -/
theorem Stage.recordRange (stage : Stage c level c' pending base depth scopes)
    (start : (level (here c)).scopes = scopes) (sameDepth : c.localScopeDepth = scopes) :
    Stage c level (recordRange (here c) c') pending base depth scopes := by
  obtain ⟨level', state, extends_⟩ := stage
  have startScopes : (level' (here c)).scopes = scopes := by
    rw [extends_.topScopes, start]
  refine ⟨level', ⟨state.top, state.scopeDepth, ?_, ?_, ?_, state.jumps, ?_⟩,
    ⟨extends_.grows, extends_.agrees, extends_.topDepth, extends_.topScopes, extends_.names,
      extends_.scopeDepth, extends_.loops, extends_.floor⟩⟩
  · intro pos ins fetch
    exact (state.code pos ins fetch).transport le_rfl rfl rfl id id
      (fun _ _ _ => ⟨fun _ => rfl, rfl⟩) id prefix_rfl
  · intro pos goal member
    obtain ⟨ins, fetch, hasTarget, arrives⟩ := state.pending pos goal member
    exact ⟨ins, fetch, hasTarget, arrives.of_keeps rfl id id⟩
  · exact state.loops.transport le_rfl (fun _ _ => rfl) fun _ _ exit =>
      ⟨exit.isJump, exit.recorded, exit.entry⟩
  · intro range member
    rcases mem_append.mp member with old | new
    · exact state.ranges range old
    · cases mem_singleton.mp new
      refine ⟨extends_.grows, le_rfl, ?_, ?_⟩
      · rw [startScopes, state.top]
      · intro pos lower upper
        rw [startScopes, ← sameDepth]
        exact (extends_.floor pos lower upper).2

/-! ## Declarations -/

structure Registers (f : Comp) : Prop where
  same : ∀ c, SameCode c (f c)
  ok : ∀ c, (f c).ok = c.ok

theorem Registers.effect (registers : Registers f) : Effect f 0 0 :=
  .of_same registers.same fun c isOk => (registers.ok c).symm.trans isOk

theorem Registers.idle : Registers id :=
  ⟨fun _ => ⟨rfl, rfl, .rfl, rfl, rfl, rfl, rfl⟩, fun _ => rfl⟩

theorem Registers.seq (first : Registers f) (second : Registers g) :
    Registers (fun c => g (f c)) where
  same := fun c => by
    obtain ⟨code, loop, names, scopeDepth, orphans, jumps, ranges⟩ := first.same c
    obtain ⟨code', loop', names', scopeDepth', orphans', jumps', ranges'⟩ := second.same (f c)
    exact ⟨code'.trans code, loop'.trans loop, names.trans names', scopeDepth'.trans scopeDepth,
      orphans'.trans orphans, jumps'.trans jumps, ranges'.trans ranges⟩
  ok := fun c => (second.ok (f c)).trans (first.ok c)

variable (name : Name)

theorem registers_local_name : Registers (register_local_name name) where
  same := by
    intro c
    unfold register_local_name
    split_ifs with room
    · exact Registers.idle.same c
    · simp only [ge_iff_le, Bool.or_eq_true, decide_eq_true_eq, not_or, Nat.not_le] at room
      exact ⟨rfl, rfl, .append room.1, rfl, rfl, rfl, rfl⟩
  ok := by
    intro c
    unfold register_local_name
    split <;> rfl

theorem registers_function_name (name : Option Name) : Registers (register_function_name name) where
  same := by
    intro c
    unfold register_function_name
    split
    · split_ifs with room
      · exact ⟨rfl, rfl, .append room, rfl, rfl, rfl, rfl⟩
      · exact Registers.idle.same c
    · exact Registers.idle.same c
  ok := by
    intro c
    unfold register_function_name
    split
    · split <;> rfl
    · rfl

theorem registers_target (target : ASTNode) : Registers (registerTarget target) := by
  unfold registerTarget
  split
  · exact registers_local_name _
  · exact .idle

theorem registers_optional_name (name : Option Name) : Registers (register_optional_name name) := by
  cases name with
  | none =>
    exact .idle
  | some name =>
    exact registers_local_name name

mutual

theorem registers_pattern_names (n : ASTNode) : Registers (register_pattern_names n) := by
  unfold register_pattern_names
  split
  · exact registers_props _
  · exact registers_props _
  · exact registers_elements _
  · exact registers_elements _
  · exact .idle

theorem registers_elements (elements : List ASTNode) : Registers (register_elements elements) := by
  unfold register_elements
  split
  · exact .idle
  · exact registers_target _
  · exact registers_target _
  · exact (registers_target _).seq (registers_elements _)
  · exact (registers_local_name _).seq (registers_elements _)
  · exact (registers_target _).seq (registers_elements _)
  · exact (registers_pattern_names _).seq (registers_elements _)

theorem registers_props (props : List ASTNode) : Registers (register_props props) := by
  unfold register_props
  split
  · exact .idle
  · exact registers_target _
  · exact registers_target _
  · exact registers_target _
  · refine Registers.seq ?_ (registers_props _)
    split
    · exact registers_target _
    · split
      · exact registers_local_name _
      · exact registers_local_name _
    · exact registers_target _
    · exact registers_pattern_names _
  · exact registers_props _

end

theorem registers_declarators (vars : List ASTNode) : Registers (register_declarators vars) := by
  induction vars with
  | nil =>
    exact .idle
  | cons declarator vars ih =>
    refine Registers.seq (f := register_declarator declarator) ?_ ih
    unfold register_declarator
    split
    · exact registers_local_name _
    · exact registers_pattern_names _
    · exact .idle

theorem registers_each (each : ASTNode) : Registers (register_each each) := by
  unfold register_each
  split
  · exact registers_declarators _
  · exact registers_pattern_names _

theorem registers_for_in (each : ASTNode) : Registers (register_for_in each) := by
  unfold register_for_in
  split
  · exact registers_local_name _
  · exact .idle

variable (kind : DeclKind)

theorem effect_emit_declare : Effect (emit_declare name kind) 1 0 :=
  effect_pooled (.declareVar name kind) (effect_pool_add_str name) rfl

theorem effect_cdeclarator (declarator : ASTNode) :
    Effect (cdeclarator kind declarator) 0 0 := by
  unfold cdeclarator
  split
  · rename_i name init
    have value : Effect (if init.isNull then emit .pushUndefined else cexpr init) 0 1 := by
      split
      · exact effect_emit .pushUndefined rfl
      · exact effect_cexpr init
    exact (value.seq (effect_emit_declare name kind)).seq (registers_local_name name).effect
  · exact .idle 0

theorem effect_cdeclarators (vars : List ASTNode) :
    Effect (fun c => vars.foldl (fun c d => cdeclarator kind d c) c) 0 0 := by
  induction vars with
  | nil =>
    exact .idle 0
  | cons declarator vars ih =>
    exact (effect_cdeclarator kind declarator).seq ih

theorem effect_cvar_decl (node : ASTNode) (kind : DeclKind) (vars : List ASTNode) :
    Effect (cvar_decl node kind vars) 0 0 := by
  unfold cvar_decl
  split
  · exact effect_cdeclarators kind vars
  · exact (registers_declarators vars).effect.seq (effect_emit_eval_pop node)

/-! ## Loops -/

theorem Levelled.loop_tick {cells : Nat}
    (state : Levelled c level pending base cells scopes) (isOk : c.ok = true) :
    Stage (loop_push false cells c) level (emit .loopTick (loop_push false cells c)) pending
      (base + cells) 0 scopes :=
  state.loop_enter .loopTick false 0 isOk nofun []
    { enough := Nat.zero_le _
      leave := nofun
      fallDepth := fun _ _ => rfl
      fallLeast := fun _ => le_rfl
      fallScopes := fun _ => rfl
      slot := nofun }
    nofun nofun

/-- Close a loop: the jump back, the exits of its test, and the pending `break`
and `continue` jumps. -/
theorem Levelled.close_loop (cells : Nat) (exits : List Nat) {back continueTarget : Nat}
    (state : Levelled c' level' ((back, ⟨base + cells + 0, scopes⟩) ::
      (exits.map (fun pos => (pos, ⟨base + cells + 0, scopes⟩)) ++ pending))
      (base + cells) 0 scopes)
    (extends_ : Extends (base + cells) (loop_push false cells c) level c' level')
    (start : level (here c) = ⟨base + cells, scopes⟩) (sameDepth : c.localScopeDepth = scopes)
    (isOk : c'.ok = true) (bound : continueTarget ≤ here c')
    (atContinue : level' continueTarget = ⟨base + cells, scopes⟩) :
    Stage c level (LRJS.loop_pop (here c') continueTarget
      (LRJS.patch_list exits (here c') (patch_jump_to back (here c) c'))) pending base cells
        scopes := by
  obtain ⟨state₁, extends₁⟩ : Levelled (patch_jump_to back (here c) c') level'
      (exits.map (fun pos => (pos, ⟨base + cells + 0, scopes⟩)) ++ pending)
      (base + cells) 0 scopes ∧
        Extends (base + cells) c' level' (patch_jump_to back (here c) c') level' :=
    patch_list [back] state isOk extends_.grows (extends_.top_eq start)
  have end_ : here (patch_jump_to back (here c) c') = here c' :=
    here_patch back (here c)
  have okPatched : (patch_jump_to back (here c) c').ok = true :=
    (ok_patch back (here c)).trans isOk
  obtain ⟨state₂, extends₂⟩ := state₁.patch_list exits okPatched end_.ge state.top
  have closed := loop_pop cells continueTarget state₂
    ((extends_.trans extends₁).trans extends₂) ((ok_patch_list _ _).trans okPatched) sameDepth
    (fun _ => by rw [here_patch_list, end_]; exact bound) fun _ => atContinue
  rw [here_patch_list, end_] at closed
  exact closed

variable (cond : ASTNode)

theorem effect_cwhile (body : StmtEffect g) : StmtEffect (cwhile cond g) := by
  have okChain {c : BCComp} (isOk : (cwhile cond g c).ok = true) :
      (g (emit (.jumpIfFalse 0) (cexpr cond (emit .loopTick (
        loop_push false 0 c))))).ok = true := by
    simp only [cwhile, recordRange, ok_loop_pop, ok_patch] at isOk
    exact ok_of_emit isOk
  constructor
  · intro c isOk
    exact ok_of_emit (c := loop_push false 0 c) ((effect_cexpr cond).ok _
      (ok_of_emit (body.ok _ (okChain isOk))))
  · intro c level pending base scopes state isOk
    have okBody := okChain isOk
    have okTest := ok_of_emit (body.ok _ okBody)
    have ok : c.ok = true := ok_of_emit (c := loop_push false 0 c) ((effect_cexpr cond).ok _ okTest)
    have tested := ((state.loop_tick ok).run (effect_cexpr cond) okTest).jump (.jumpIfFalse 0) 0
      okTest rfl rfl fun _ => rfl
    obtain ⟨level', state', extends'⟩ :=
      (tested.stmt body okBody).jump (.jump 0) 0 okBody rfl rfl nofun
    have closed := close_loop 0 [_] state' extends' state.top state.scopeDepth
      ((ok_emit _).trans okBody) extends'.grows (extends'.top_eq state.top)
    have ranged := closed.recordRange (by rw [state.top]) state.scopeDepth
    simp only [cwhile, here_patch]
    exact ranged

theorem effect_cdo_while (body : StmtEffect g) :
    StmtEffect (cdo_while cond g) := by
  have okChain {c : BCComp} (isOk : (cdo_while cond g c).ok = true) :
      (cexpr cond (g (emit .loopTick (loop_push false 0 c)))).ok = true := by
    simp only [cdo_while, recordRange, ok_loop_pop, ok_patch] at isOk
    exact ok_of_emit isOk
  constructor
  · intro c isOk
    exact ok_of_emit (c := loop_push false 0 c) (body.ok _
      ((effect_cexpr cond).ok _ (okChain isOk)))
  · intro c level pending base scopes state isOk
    have okTest := okChain isOk
    have okBody := (effect_cexpr cond).ok _ okTest
    have ok : c.ok = true := ok_of_emit (c := loop_push false 0 c) (body.ok _ okBody)
    obtain ⟨level₁, state₁, extends₁⟩ := (state.loop_tick ok).stmt body okBody
    obtain ⟨level₂, state₂, extends₂⟩ := (state₁.stage.run (effect_cexpr cond) okTest).jump
      (.jumpIfTrue 0) 0 okTest rfl rfl fun _ => rfl
    have closed := close_loop 0 [] state₂ (extends₁.trans extends₂) state.top
      state.scopeDepth ((ok_emit _).trans okTest) extends₂.grows (extends₂.top_eq state₁.top)
    have ranged := closed.recordRange (by rw [state.top]) state.scopeDepth
    simp only [cdo_while, here_patch]
    exact ranged

theorem holdsSlot_of_localLtImm {test : ASTNode} {slot : Nat} {name : Name} {imm : Int}
    (found : localLtImm? c test = some (slot, name, imm)) : HoldsSlot c slot name := by
  unfold localLtImm? at found
  split at found
  · split at found
    · rename_i isSlot _
      cases found
      exact holdsSlot_of_find isSlot
    · cases found
  · cases found

theorem emit16_of_ok {ins : Instr} {operand : Nat} (isOk : (emit16 ins operand c).ok = true) :
    emit16 ins operand c = emit ins c := by
  unfold emit16 at isOk ⊢
  split_ifs at isOk with small
  · cases isOk
  · rw [if_neg small]

theorem ok_of_cfor_test {test : ASTNode} (isOk : (cfor_test test c).2.ok = true) : c.ok = true := by
  unfold cfor_test at isOk
  split at isOk
  · exact isOk
  · split at isOk
    · exact ok_of_emit16 isOk
    · exact (effect_cexpr test).ok c (ok_of_emit isOk)

theorem Levelled.cfor_test (test : ASTNode)
    (state : Levelled c level pending base 0 scopes) (isOk : (cfor_test test c).2.ok = true) :
    Stage c level (cfor_test test c).2
      ((cfor_test test c).1.toList.map (fun pos => (pos, ⟨base + 0, scopes⟩)) ++ pending)
      base 0 scopes := by
  unfold LRJS.cfor_test at isOk ⊢
  split_ifs with notNull
  · exact state.stage
  · rw [if_neg notNull] at isOk
    split
    · rename_i slot name imm found
      simp only [found] at isOk
      have ok := ok_of_emit16 isOk
      rw [emit16_of_ok isOk]
      refine state.emit_jump (.jumpIfLocalLtImm slot name imm 0) 0 0 ok rfl ?_
        (Nat.zero_le _) (fun _ => rfl) rfl
      intro slot' name' hasSlot
      cases hasSlot
      exact holdsSlot_of_localLtImm found
    · rename_i notFound
      simp only [notFound] at isOk
      have ok := ok_of_emit isOk
      exact (state.stage.run (effect_cexpr test) ok).jump (.jumpIfFalse 0) 0 ok rfl rfl
        fun _ => rfl

theorem holdsSlot_of_postfixLocal {update : ASTNode} {slot : Nat} {name : Name}
    (found : postfixLocal? c update = some (slot, name)) : HoldsSlot c slot name := by
  unfold postfixLocal? at found
  split at found
  · obtain ⟨slot', isSlot, equality⟩ := map_eq_some_iff.mp found
    cases equality
    exact holdsSlot_of_find isSlot
  · obtain ⟨slot', isSlot, equality⟩ := map_eq_some_iff.mp found
    cases equality
    exact holdsSlot_of_find isSlot
  · cases found

theorem effect_cfor_update (update : ASTNode) : Effect (cfor_update update) 0 0 := by
  refine .of_from fun c => ?_
  cases isNull : update.isNull with
  | true =>
    exact ((Effect.idle 0).at c).of_eq (by simp [cfor_update, isNull])
  | false =>
    cases found : postfixLocal? c update with
    | none =>
      have code := (effect_cexpr update).seq (effect_emit .pop rfl)
      exact (code.at c).of_eq (by simp [cfor_update, isNull, found])
    | some local_ =>
      obtain ⟨slot, name⟩ := local_
      have code := ((Effect.idle 0).at c).slot (.incLocalDiscard slot name) rfl rfl
        (holdsSlot_of_postfixLocal found)
      exact code.of_eq (by simp [cfor_update, isNull, found])

/-- `for` leaves the operand stack as it was. -/
theorem effect_cfor (test update : ASTNode) (init : StmtEffect f) (body : StmtEffect g) :
    StmtEffect (cfor test update f g) := by
  have updated := effect_cfor_update update
  have okChain {c : BCComp} (isOk : (cfor test update f g c).ok = true) :
      (cfor_update update
        (g (cfor_test test (emit .loopTick (loop_push false 0 (f c)))).2)).ok = true := by
    simp only [cfor, recordRange, ok_loop_pop] at isOk
    split at isOk
    · simpa using isOk
    · simpa using isOk
  constructor
  · intro c isOk
    have okTest := body.ok _ (updated.ok _ (okChain isOk))
    exact init.ok c (ok_of_emit (c := loop_push false 0 (f c)) (ok_of_cfor_test okTest))
  · intro c level pending base scopes state isOk
    have okUpdate := okChain isOk
    have okBody := updated.ok _ okUpdate
    have okTest := body.ok _ okBody
    have okInit : (f c).ok = true :=
      ok_of_emit (c := loop_push false 0 (f c)) (ok_of_cfor_test okTest)
    refine Stage.recordRange ?_ (by rw [state.top]) state.scopeDepth
    refine (state.stage.stmt init okInit).bind fun level₀ state₀ => ?_
    obtain ⟨level₁, state₁, extends₁⟩ := state₀.loop_tick okInit
    obtain ⟨level₂, state₂, extends₂⟩ :=
      (state₁.cfor_test test okTest).stmt body okBody
    obtain ⟨level₃, state₃, extends₃⟩ :=
      (state₂.stage.run updated okUpdate).jump (.jump 0) 0 okUpdate rfl rfl nofun
    have closed := close_loop 0 _ state₃ ((extends₁.trans extends₂).trans extends₃)
      state₀.top state₀.scopeDepth ((ok_emit _).trans okUpdate) extends₃.grows
      (extends₃.top_eq state₂.top)
    cases exit : (LRJS.cfor_test test (emit .loopTick (loop_push false 0 (f c)))).1 with
    | none | some pos =>
      rw [exit] at closed
      simp only [here_patch]
      exact closed

/-! ## For-of -/

variable (kind : Option DeclKind)

theorem effect_emit_each :
    Effect (emit_each name kind) 1 0 := by
  cases kind with
  | none =>
    exact effect_pooled (.storeVar name) (effect_pool_add_str name) rfl
  | some kind =>
    exact effect_emit_declare name kind

theorem Levelled.cfor_of_loop (body : StmtEffect g)
    (state : Levelled c level pending base 3 scopes)
    (isOk : (cfor_of_loop name kind g c).ok = true) :
    Stage c level (cfor_of_loop name kind g c) pending base 3 scopes := by
  have bind := effect_emit_each name kind
  have okBody : (g (emit_each name kind (emit (.iterNext 0)
      (emit .loopTick (loop_push false 3 c))))).ok = true := by
    simpa only [LRJS.cfor_of_loop, ok_loop_pop, ok_patch, ok_emit] using isOk
  have okBind := body.ok _ okBody
  have okTick := ok_of_emit (bind.ok _ okBind)
  have ok : c.ok = true := ok_of_emit (c := loop_push false 3 c) okTick
  have next := (state.loop_tick ok).bind fun _ ticked =>
    ticked.emit_jump (.iterNext 0) 1 0 okTick rfl (fun _ _ same => by cases same)
      (by simp only [takes]; omega)
      (fun _ => by simp only [takes, gives]; omega)
      (by simp only [takes, jumpGives]; omega)
  obtain ⟨level', state', extends'⟩ := ((next.run bind okBind).stmt body okBody).jump
    (.jump 0) 0 okBody rfl rfl (fun falls => by cases falls)
  have closed := close_loop 3 [_] state' extends' state.top state.scopeDepth
    ((ok_emit _).trans okBody) extends'.grows (extends'.top_eq state.top)
  simp only [LRJS.cfor_of_loop, here_patch]
  exact closed

theorem ok_of_cfor_of_loop {name : Name} {kind : Option DeclKind} (body : StmtEffect g)
    (isOk : (cfor_of_loop name kind g c).ok = true) : c.ok = true := by
  have okBody : (g (emit_each name kind (emit (.iterNext 0)
      (emit .loopTick (loop_push false 3 c))))).ok = true := by
    simpa only [LRJS.cfor_of_loop, ok_loop_pop, ok_patch, ok_emit] using isOk
  exact ok_of_emit (c := loop_push false 3 c)
    (ok_of_emit ((effect_emit_each name kind).ok _ (body.ok _ okBody)))

theorem Levelled.iterate (body : StmtEffect g) (state : Levelled c level pending base 1 scopes)
    (isOk : (LRJS.cfor_of_loop name kind g (emit .iterInit c)).ok = true) :
    Stage c level (emit .iterClose (LRJS.cfor_of_loop name kind g (emit .iterInit c)))
      pending base 0 scopes := by
  have opened := state.stage.run (effect_emit .iterInit rfl : Effect _ 1 3)
    (ok_of_cfor_of_loop body isOk)
  have looped := opened.bind fun _ state' => state'.cfor_of_loop name kind body isOk
  exact looped.run (effect_emit .iterClose rfl : Effect _ 3 0) ((ok_emit _).trans isOk)

@[simp]
theorem ok_scope_enter : (scope_enter c).ok = c.ok := by
  rw [scope_enter, ok_emit]

@[simp]
theorem ok_scope_leave : (scope_leave c).ok = c.ok := by
  simp [scope_leave]

/-- `for-of` leaves the operand stack as it was. -/
theorem effect_cfor_of (node each source : ASTNode) (body : StmtEffect g) :
    StmtEffect (cfor_of node each source g) := by
  unfold cfor_of
  split
  · exact ((registers_each each).effect.seq (effect_emit_eval_pop node)).stmt
  · rename_i name kind _
    have registered : Effect (fun c =>
        if kind.isSome then register_local_name name c else c) 0 0 := by
      split
      · exact (registers_local_name name).effect
      · exact .idle 0
    have source_ := registered.seq (effect_cexpr source)
    cases hasBlock : kind.any fun kind => kind ≠ .var with
    | false =>
      constructor
      · intro c isOk
        simp only [recordRange, Bool.false_eq_true, if_false] at isOk
        exact source_.ok c (ok_of_emit (ok_of_cfor_of_loop body (ok_of_emit isOk)))
      · intro c level pending base scopes state isOk
        simp only [recordRange, Bool.false_eq_true, if_false] at isOk
        have okLoop := ok_of_emit isOk
        refine Stage.recordRange ?_ (by rw [state.top]) state.scopeDepth
        exact (state.stage.run source_ (ok_of_emit (ok_of_cfor_of_loop body okLoop))).bind
          fun _ state' => state'.iterate name kind body okLoop
    | true =>
      constructor
      · intro c isOk
        simp only [recordRange, if_true, ok_scope_leave] at isOk
        have okEnter := ok_of_emit (ok_of_cfor_of_loop body (ok_of_emit isOk))
        exact source_.ok c (ok_scope_enter.symm.trans okEnter)
      · intro c level pending base scopes state isOk
        simp only [recordRange, if_true, ok_scope_leave] at isOk
        have okLoop := ok_of_emit isOk
        have okEnter := ok_of_emit (ok_of_cfor_of_loop body okLoop)
        rw [ok_scope_enter] at okEnter
        refine Stage.recordRange ?_ (by rw [state.top]) state.scopeDepth
        exact (state.stage.run source_ okEnter).bind fun _ state' =>
          state'.block (fun _ inside => inside.iterate name kind body okLoop) okEnter isOk

/-! ## Switch -/

theorem Stage.reorder (stage : Stage origin originLevel c pending base depth scopes)
    (same : ∀ jump, jump ∈ pending ↔ jump ∈ pending') :
    Stage origin originLevel c pending' base depth scopes := by
  obtain ⟨level, state, extends_⟩ := stage
  exact ⟨level, state.reorder same, extends_⟩

theorem ok_of_ccase_tests {cases : List ASTNode} (isOk : (ccase_tests cases c).2.ok = true) :
    c.ok = true := by
  fun_induction ccase_tests cases c with
  | case1 c =>
    exact isOk
  | case2 cond body cases c c' pos rest ih =>
    have okTest := ok_of_emit (ih isOk)
    exact ok_of_emit ((effect_cexpr cond).ok _ (ok_of_emit okTest))
  | case3 clause cases notCase c rest ih =>
    exact ih isOk

def caseJumps (goal : Level) : List (Option Nat) → List (Nat × Level)
  | [] => []
  | some pos :: jumps => (pos, goal) :: caseJumps goal jumps
  | none :: jumps => caseJumps goal jumps

theorem Stage.case_test (stage : Stage origin originLevel c pending base 1 scopes)
    (isOk : (cexpr cond c).ok = true) :
    Stage origin originLevel
      (emit (.jumpIfTrue 0) (emit (.bin .strictEq) (cexpr cond c)))
      ((here (emit (.bin .strictEq) (cexpr cond c)), ⟨base + 0, scopes⟩) :: pending)
      base 0 scopes := by
  have okEq := (ok_emit (.bin .strictEq)).trans isOk
  have compared := ((effect_cexpr cond).above 1).seq (effect_emit (.bin .strictEq) rfl)
  exact (stage.run (compared : Effect _ 1 1) okEq).jump (.jumpIfTrue 0) 0 okEq rfl rfl fun _ => rfl

variable (cases : List ASTNode)

/-- The tests of a switch leave its value and their jumps. -/
theorem Stage.ccase_tests (stage : Stage origin originLevel c pending (base + 1) 0 scopes)
    (isOk : (ccase_tests cases c).2.ok = true) :
    Stage origin originLevel (ccase_tests cases c).2
      (caseJumps ⟨base + 1 + 0, scopes⟩ (ccase_tests cases c).1 ++ pending) (base + 1) 0
        scopes := by
  fun_induction LRJS.ccase_tests cases c generalizing pending with
  | case1 c =>
    exact stage
  | case2 cond body cases c c' pos rest =>
    rename_i ih
    have okTest := ok_of_emit (ok_of_ccase_tests isOk)
    have okCond := ok_of_emit okTest
    have okDup := ok_of_emit ((effect_cexpr cond).ok _ okCond)
    have copied : Stage origin originLevel (emit .dup c) pending (base + 1) 1 scopes := by
      refine stage.bind fun _ state => ?_
      have appended : emit .dup c = appendInstr .dup c :=
        emit_of_ok okDup nofun
      rw [appended]
      exact state.append_straight .dup 1 (by simp only [takes]; omega)
        (by simp only [takes, gives]; omega) rfl nofun rfl nofun
    refine (ih (copied.case_test cond okCond) isOk).reorder fun jump => ?_
    simp only [caseJumps, cons_append, mem_append, mem_cons]
    tauto
  | case3 clause cases c notCase rest =>
    rename_i ih
    exact ih stage isOk

/-- The tests, from the copy of the discriminant that opens the switch to the
jump that is taken when no test succeeds. -/
theorem Levelled.ccase_tests (state : Levelled c level pending base 1 scopes)
    (isOk : (LRJS.ccase_tests cases (loop_push true 1 c)).2.ok = true) :
    Stage (loop_push true 1 c) level
      (emit (.jump 0) (LRJS.ccase_tests cases (loop_push true 1 c)).2)
      (caseJumps ⟨base + 1 + 0, scopes⟩ (LRJS.ccase_tests cases (loop_push true 1 c)).1 ++
        (here (LRJS.ccase_tests cases (loop_push true 1 c)).2, ⟨base + 1 + 0, scopes⟩) :: pending)
      (base + 1) 0 scopes := by
  generalize opened : loop_push true 1 c = c₀ at isOk ⊢
  fun_induction LRJS.ccase_tests cases c₀ with
  | case1 c₀ =>
    subst opened
    exact state.loop_enter (.jump 0) true 0 isOk nofun [⟨base + 1 + 0, scopes⟩]
      { enough := Nat.zero_le _
        leave := nofun
        fallDepth := nofun
        fallLeast := nofun
        fallScopes := nofun
        slot := nofun }
      (by simp) (by
        intro goal member
        cases mem_singleton.mp member
        exact ⟨rfl, rfl⟩)
  | case2 cond body cases c₀ c' pos rest ih =>
    subst opened
    have okTest := ok_of_emit (ok_of_ccase_tests isOk)
    have okCond := ok_of_emit okTest
    have okDup := ok_of_emit ((effect_cexpr cond).ok _ okCond)
    have copied := state.loop_enter .dup true 1 okDup nofun []
      { enough := by simp only [takes]; omega
        leave := nofun
        fallDepth := fun _ _ => by simp only [takes, gives]; omega
        fallLeast := fun _ => by simp only [takes, gives]; omega
        fallScopes := fun _ => rfl
        slot := nofun }
      nofun nofun
    have tested := (copied.case_test cond okCond).ccase_tests cases isOk
    have last := tested.jump (.jump 0) 0 isOk rfl rfl nofun
    refine last.reorder fun jump => ?_
    simp only [caseJumps, map_nil, nil_append, cons_append, mem_append,
      mem_cons]
    tauto
  | case3 clause cases c₀ notCase rest ih =>
    exact ih opened isOk

theorem length_ccase_tests :
    (ccase_tests cases c).1.length = cases.length := by
  fun_induction LRJS.ccase_tests cases c with
  | case1 c =>
    rfl
  | case2 cond body cases c c' pos rest ih | case3 clause cases c notCase rest ih =>
    exact congrArg Nat.succ ih

@[simp]
theorem ok_patch_cases (jumps : List (Option Nat)) (positions : List Nat) :
    (patch_cases jumps positions c).ok = c.ok := by
  fun_induction LRJS.patch_cases jumps positions generalizing c with
  | case1 jump jumps pos positions ih =>
    rw [ih, ok_patch]
  | case2 jumps pos positions ih =>
    exact ih
  | case3 jumps positions _ _ =>
    rfl

/-- The jumps of the tests arrive at the bodies of their clauses. -/
theorem Levelled.patch_cases {jumps : List (Option Nat)} {positions : List Nat} {goal : Level}
    (state : Levelled c level (caseJumps goal jumps ++ pending) base depth scopes)
    (isOk : c.ok = true) (length : jumps.length = positions.length)
    (bodies : ∀ pos ∈ positions, pos ≤ here c ∧ level pos = goal) :
    Levelled (patch_cases jumps positions c) level pending base depth scopes ∧
      Extends base c level (patch_cases jumps positions c) level ∧
      here (patch_cases jumps positions c) = here c := by
  induction jumps generalizing c positions with
  | nil =>
    exact ⟨state, .refl state.topFits, rfl⟩
  | cons jump jumps ih =>
    cases positions with
    | nil =>
      cases length
    | cons pos positions =>
      have rest := fun other member => bodies other (mem_cons_of_mem pos member)
      cases jump with
      | none =>
        exact ih state isOk (Nat.succ.inj length) rest
      | some jump =>
        obtain ⟨bound, atBody⟩ := bodies pos mem_cons_self
        obtain ⟨state₁, extends₁⟩ := patch_list [jump] state isOk bound atBody
        obtain ⟨state₂, extends₂, here₂⟩ := ih state₁
          ((ok_patch jump pos).trans isOk) (Nat.succ.inj length) fun other member => by
            rw [LRJS.patch_list, foldl_cons, foldl_nil, here_patch]
            exact rest other member
        exact ⟨state₂, extends₁.trans extends₂, here₂.trans (here_patch jump pos)⟩

theorem defaultPos_cases (positions : List Nat) (found : Nat) :
    defaultPos cases positions found ∈ positions ∨ defaultPos cases positions found = found := by
  fun_induction defaultPos cases positions found with
  | case1 body cases pos positions found ih =>
    rcases ih with inside | equality
    · exact Or.inl (mem_cons_of_mem _ inside)
    · rw [equality]
      exact Or.inl mem_cons_self
  | case2 clause cases pos positions found notDefault ih =>
    exact ih.imp_left (mem_cons_of_mem _)
  | case3 cases positions found _ _ =>
    exact Or.inr rfl

/-- `h` compiles the bodies of a switch with `count` clauses and reports where
each starts. -/
structure BodiesEffect (h : BCComp → List Nat × BCComp) (count : Nat) : Prop where
  ok : ∀ c, (h c).2.ok = true → c.ok = true
  length : ∀ c, (h c).1.length = count
  run : ∀ c level pending base scopes,
    Levelled c level pending base 0 scopes → (h c).2.ok = true →
      ∃ level', Levelled (h c).2 level' pending base 0 scopes ∧
        Extends base c level (h c).2 level' ∧
        ∀ pos ∈ (h c).1, pos ≤ here (h c).2 ∧ level' pos = ⟨base, scopes⟩

/-- A switch leaves the operand stack as it was. -/
theorem effect_cswitch {h : BCComp → List Nat × BCComp} (test : ASTNode) (cases : List ASTNode)
    (bodies : BodiesEffect h cases.length) : StmtEffect (cswitch test cases h) := by
  have okChain {c : BCComp} (isOk : (cswitch test cases h c).ok = true) :
      (h (emit (.jump 0) (ccase_tests cases (loop_push true 1 (cexpr test c))).2)).2.ok = true := by
    simpa only [cswitch, ok_emit, ok_loop_pop, ok_patch, ok_patch_cases] using isOk
  have okTests {c : BCComp} (isOk : (cswitch test cases h c).ok = true) :
      (ccase_tests cases (loop_push true 1 (cexpr test c))).2.ok = true :=
    ok_of_emit (bodies.ok _ (okChain isOk))
  constructor
  · intro c isOk
    exact (effect_cexpr test).ok c (ok_of_ccase_tests (c := loop_push true 1 _) (okTests isOk))
  · intro c level pending base scopes state isOk
    have okBodies := okChain isOk
    have okTest : (cexpr test c).ok = true :=
      ok_of_ccase_tests (c := loop_push true 1 _) (okTests isOk)
    refine (state.stage.run (effect_cexpr test) okTest).bind fun level₁ state₁ => ?_
    obtain ⟨level₂, state₂, extends₂⟩ := state₁.ccase_tests cases (okTests isOk)
    obtain ⟨level₃, state₃, extends₃, positions⟩ := bodies.run _ _ _ _ _ state₂ okBodies
    obtain ⟨state₄, extends₄, here₄⟩ := state₃.patch_cases okBodies
      ((length_ccase_tests cases).trans (bodies.length _).symm) positions
    -- the jump taken when no test succeeds goes to a body or to the end
    obtain ⟨bound, atDefault⟩ :
        defaultPos cases (h _).1 (here (h _).2) ≤ here (h _).2 ∧
          level₃ (defaultPos cases (h _).1 (here (h _).2)) = ⟨base + 1, scopes⟩ := by
      rcases defaultPos_cases cases (h _).1 (here (h _).2) with inside | equality
      · exact positions _ inside
      · rw [equality]
        exact ⟨le_rfl, state₃.top⟩
    obtain ⟨state₅, extends₅⟩ := Levelled.patch_list [_] state₄
      ((ok_patch_cases _ _).trans okBodies) (here₄.symm ▸ bound) atDefault
    have popped := Levelled.loop_pop 1
      (here (h (emit (.jump 0) (ccase_tests cases (loop_push true 1 (cexpr test c))).2)).2) state₅
      (((extends₂.trans extends₃).trans extends₄).trans extends₅)
      ((ok_patch_list _ _).trans ((ok_patch_cases _ _).trans okBodies)) state₁.scopeDepth
      nofun nofun
    rw [here_patch_list, here₄] at popped
    exact popped.run (effect_emit .pop rfl : Effect _ 1 0) isOk

/-! ## Statements -/

theorem effect_clearIfTop (top : Bool) : Effect (clearIfTop top) 0 0 := by
  cases top with
  | true =>
    exact effect_emit .clearResult rfl
  | false =>
    exact .idle 0

theorem effect_emit_result (top : Bool) : Effect (emit_result top) 1 0 := by
  cases top with
  | true =>
    exact effect_emit .setResult rfl
  | false =>
    exact effect_emit .pop rfl

theorem effect_emit_leave (ins : Instr) (plain : ins.isPlain = true) (takes : ins.takes = 1)
    (noFall : ins.falls = false) : Effect (emit ins) 1 0 where
  ok := fun _ => ok_of_emit
  run := by
    intro c level pending base depth scopes state isOk
    have notAdd : ins ≠ .bin .add := by
      rintro rfl
      cases noFall
    rw [emit_of_ok (ok_of_emit isOk) notAdd]
    have admits : Admits c (base + (depth + 1)) scopes ins ⟨base + (depth + 0), scopes⟩ :=
      { enough := by omega
        leave := fun isLeave => absurd isLeave (isPlain_leave plain)
        fallDepth := fun isFall => by
          rw [noFall] at isFall
          cases isFall
        fallLeast := fun isFall => by
          rw [noFall] at isFall
          cases isFall
        fallScopes := fun _ => (isPlain_scopes plain scopes).symm
        slot := by simp [isPlain_slot plain] }
    have appended := state.append [] admits (by simp [isPlain_target plain]) (by simp)
      state.loops
    rw [append_scopeDepth state.scopeDepth] at appended
    exact ⟨_, appended, state.append_extends ..⟩

/-- Both branches of a conditional leave the operand stack as it was. -/
theorem effect_if {elseBody : ASTNode} (body : StmtEffect f) (alternate : StmtEffect g) :
    StmtEffect (fun c =>
      let c := cexpr cond c
      let jfalse := here c
      let c := c |> emit (.jumpIfFalse 0) |> f
      if elseBody.isNull then
        patch_here jfalse c
      else
        let jend := here c
        c |> emit (.jump 0) |> patch_here jfalse |> g |> patch_here jend) := by
  constructor
  · intro c isOk
    split at isOk
    · rw [patch_here, ok_patch] at isOk
      exact (effect_cexpr cond).ok c (ok_of_emit (body.ok _ isOk))
    · rw [patch_here, ok_patch] at isOk
      have okThen := alternate.ok _ isOk
      rw [patch_here, ok_patch, ok_emit] at okThen
      exact (effect_cexpr cond).ok c (ok_of_emit (body.ok _ okThen))
  · intro c level pending base scopes state isOk
    split_ifs at isOk with isNull
    · rw [if_pos isNull]
      rw [patch_here, ok_patch] at isOk
      have okTest := ok_of_emit (body.ok _ isOk)
      have tested := (state.stage.run (effect_cexpr cond) okTest).jump (.jumpIfFalse 0) 0 okTest
        rfl rfl fun _ => rfl
      exact (tested.stmt body isOk).patch_here isOk
    · rw [if_neg isNull]
      rw [patch_here, ok_patch] at isOk
      have okThen := alternate.ok _ isOk
      rw [patch_here, ok_patch, ok_emit] at okThen
      have okTest := ok_of_emit (body.ok _ okThen)
      have tested := (state.stage.run (effect_cexpr cond) okTest).jump (.jumpIfFalse 0) 0 okTest
        rfl rfl fun _ => rfl
      have first := (tested.stmt body okThen).jump (.jump 0) 0 okThen rfl rfl fun falls =>
        by cases falls
      exact ((first.swap.patch_here ((ok_emit _).trans okThen)).stmt alternate isOk).patch_here
        isOk

theorem effect_block {needsScope : Bool} (body : StmtEffect f) :
    StmtEffect (fun c =>
      let c := if needsScope then scope_enter c else c
      let c := f c
      if needsScope then scope_leave c else c) := by
  cases needsScope with
  | false =>
    exact body
  | true =>
    constructor
    · intro c isOk
      simp only [if_true, ok_scope_leave] at isOk
      exact ok_scope_enter.symm.trans (body.ok _ isOk)
    · intro c level pending base scopes state isOk
      simp only [if_true, ok_scope_leave] at isOk ⊢
      exact state.block (fun _ inside => body.run _ _ _ _ _ inside isOk)
        (ok_scope_enter.symm.trans (body.ok _ isOk)) isOk

mutual

/-- Every statement leaves the operand stack as it was, by induction on the syntax tree. -/
theorem effect_cstmt (n : ASTNode) (top : Bool) : StmtEffect (cstmt n top) := by
  have cleared {f : Comp} (effect : StmtEffect f) :
      StmtEffect (fun c => clearIfTop top (f c)) :=
    effect.seq (effect_clearIfTop top).stmt
  have delegated : StmtEffect (fun c => clearIfTop top (emit_eval n false c)) :=
    cleared (effect_emit_eval_pop n).stmt
  refine .guarded (cstmt.eq_def n top) ?_
  cases n with
  | null =>
    exact .idle
  | program items =>
    exact (effect_cstmts items true true).seq (effect_cstmts items false true)
  | block items =>
    exact effect_block ((effect_cstmts items true false).seq (effect_cstmts items false false))
  | exprStmt expr =>
    exact ((effect_cexpr expr).seq (effect_emit_result top)).stmt
  | varDecl kind vars =>
    exact cleared (effect_cvar_decl _ kind vars).stmt
  | ifStmt cond body elseBody =>
    exact cleared (effect_if cond (effect_cstmt body false) (effect_cstmt elseBody false))
  | forStmt init test update body =>
    exact cleared (effect_cfor test update (effect_cstmt init false) (effect_cstmt body false))
  | whileStmt cond body =>
    exact cleared (effect_cwhile cond (effect_cstmt body false))
  | doWhile cond body =>
    exact cleared (effect_cdo_while cond (effect_cstmt body false))
  | forOf each source body =>
    exact cleared (effect_cfor_of _ each source (effect_cstmt body false))
  | forIn each source body =>
    exact (registers_for_in each).effect.stmt.seq delegated
  | tryStmt body catchBody finallyBody catchVar =>
    exact (registers_optional_name catchVar).effect.stmt.seq delegated
  | switchStmt test cases =>
    exact cleared (effect_cswitch test cases (effect_ccase_bodies cases))
  | breakStmt label =>
    exact effect_cbreak _
  | continueStmt label =>
    exact effect_ccontinue _
  | labelStmt label stmt =>
    have labelled (name : Option Name) : StmtEffect fun c => { c with pendingLabel := name } :=
      (Effect.of_same (f := fun c => { c with pendingLabel := name })
        (fun _ => ⟨rfl, rfl, .rfl, rfl, rfl, rfl, rfl⟩) fun _ isOk => isOk).stmt
    dsimp only
    split
    · exact (effect_emit_eval_pop _).stmt
    · split
      · exact (effect_emit_eval_pop _).stmt
      · split
        · exact cleared (((labelled _).seq (effect_cstmt stmt false)).seq (labelled none))
        · exact delegated
  | throwStmt arg =>
    exact ((effect_cexpr arg).seq (effect_emit_leave .throw rfl rfl rfl)).stmt
  | returnStmt arg =>
    have value : Effect (if arg.isNull then emit .pushUndefined else cexpr arg) 0 1 := by
      split
      · exact effect_emit .pushUndefined rfl
      · exact effect_cexpr arg
    exact (value.seq (effect_emit_leave .ret rfl rfl rfl)).stmt
  | debugger =>
    exact (effect_emit .nop rfl).stmt
  | funcDecl name params body isAsync isGenerator derived =>
    exact (registers_function_name name).effect.stmt.seq delegated
  | classDecl name extends_ methods =>
    exact (registers_optional_name name).effect.stmt.seq delegated
  | _ =>
    dsimp only
    split
    · exact ((effect_cexpr _).seq (effect_emit_result top)).stmt
    · exact delegated

theorem effect_cstmts (items : List ASTNode) (functions top : Bool) :
    StmtEffect (cstmts items functions top) := by
  cases items with
  | nil =>
    exact .idle
  | cons item items =>
    rw [funext (cstmts.eq_def (item :: items) functions top)]
    dsimp only
    split
    · exact (effect_cstmt item top).seq (effect_cstmts items functions top)
    · exact effect_cstmts items functions top

theorem effect_ccase_bodies (clauses : List ASTNode) :
    BodiesEffect (ccase_bodies clauses) clauses.length := by
  cases clauses with
  | nil =>
    exact
      { ok := fun _ isOk => isOk
        length := fun _ => rfl
        run := fun _ level _ _ _ state _ => ⟨level, state, .refl state.topFits, nofun⟩ }
  | cons clause clauses =>
    have first := effect_ccase_body clause
    have rest := effect_ccase_bodies clauses
    constructor
    · exact fun c isOk => first.ok c (rest.ok _ isOk)
    · exact fun c => congrArg Nat.succ (rest.length (ccase_body clause c))
    · intro c level pending base scopes state isOk
      obtain ⟨level₁, state₁, extends₁⟩ :=
        first.run c level pending base scopes state (rest.ok _ isOk)
      obtain ⟨level₂, state₂, extends₂, positions⟩ :=
        rest.run _ level₁ pending base scopes state₁ isOk
      have through := extends₁.trans extends₂
      refine ⟨level₂, state₂, through, ?_⟩
      intro pos member
      rcases mem_cons.mp member with rfl | later
      · exact ⟨through.grows, through.top_eq state.top⟩
      · exact positions pos later

theorem effect_ccase_body (clause : ASTNode) : StmtEffect (ccase_body clause) := by
  rw [funext (ccase_body.eq_def clause)]
  split
  · exact effect_ccase_items _
  · exact effect_ccase_items _
  · exact effect_cstmt _ false
  · exact effect_cstmt _ false
  · exact .idle

theorem effect_ccase_items (items : List ASTNode) : StmtEffect (ccase_items items) := by
  cases items with
  | nil =>
    exact .idle
  | cons item items =>
    exact (effect_cstmt item false).seq (effect_ccase_items items)

end

end LRJS
