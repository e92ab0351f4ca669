import LRJS.StmtEffects
import Mathlib.Data.List.Forall2

/-!
# Levels of compilation units

The whole unit compiled by `bc_compile_ex` respects one assignment of levels,
and every run that takes none of the defective edges follows it.
-/

namespace LRJS

variable {c : BCComp} {level : Nat → Level}

/-- Hoisting a declarator leaves the operand stack as it was. -/
theorem effect_hoist_declarator (declarator : ASTNode) :
    Effect (hoist_declarator declarator) 0 0 := by
  unfold hoist_declarator
  split
  · rename_i name _
    refine .of_from fun c => ?_
    by_cases known : c.localNames.contains name || c.localNames.length ≥ 256
    · exact ((Effect.idle 0).at c).of_eq (by simp only [known, if_true, id])
    · have register : Registers fun c : BCComp =>
          if c.localNames.contains name || c.localNames.length ≥ 256 then c
          else { c with localNames := c.localNames ++ [name] } := by
        constructor
        · intro c
          split_ifs with room
          · exact Registers.idle.same c
          · simp only [ge_iff_le, Bool.or_eq_true, decide_eq_true_eq, not_or, Nat.not_le] at room
            exact ⟨rfl, rfl, .append room.2, rfl, rfl, rfl, rfl⟩
        · intro c
          split <;> rfl
      have declared := ((register.effect.seq (effect_pool_add_str name)).seq
        (effect_emit .pushUndefined rfl)).seq (effect_emit (.declareVar name .var) rfl)
      exact (declared.at c).of_eq (by simp only [known, if_false, Bool.false_eq_true])
  · exact .idle 0

theorem effect_hoist_declarators (vars : List ASTNode) :
    Effect (fun c => vars.foldl (fun c d => hoist_declarator d c) c) 0 0 := by
  induction vars with
  | nil =>
    exact .idle 0
  | cons declarator vars ih =>
    exact (effect_hoist_declarator declarator).seq ih

mutual

/-- Hoisting leaves the operand stack as it was. -/
theorem effect_collect_vars_hoist (n : ASTNode) : Effect (bc_collect_vars_hoist n) 0 0 := by
  refine .guarded (bc_collect_vars_hoist.eq_def n) ?_
  cases n with
  | program items | block items =>
    exact effect_collect_list items
  | ifStmt cond body elseBody =>
    exact (effect_collect_vars_hoist body).seq (effect_collect_vars_hoist elseBody)
  | forStmt init test update body =>
    exact (effect_collect_vars_hoist init).seq (effect_collect_vars_hoist body)
  | whileStmt cond body | doWhile cond body | forIn each source body | forOf each source body =>
    exact effect_collect_vars_hoist body
  | switchStmt test cases =>
    exact effect_collect_list cases
  | tryStmt body catchBody finallyBody catchVar =>
    exact ((effect_collect_vars_hoist body).seq (effect_collect_vars_hoist catchBody)).seq
      (effect_collect_vars_hoist finallyBody)
  | varDecl kind vars =>
    cases kind with
    | var =>
      exact effect_hoist_declarators vars
    | _ =>
      exact .idle 0
  | _ =>
    exact .idle 0

theorem effect_collect_list (items : List ASTNode) : Effect (collect_list items) 0 0 := by
  cases items with
  | nil =>
    exact .idle 0
  | cons item items =>
    exact (effect_collect_vars_hoist item).seq (effect_collect_list items)

end

/-! ## Units -/

theorem levelled_initial (names : List Name) (disableLocalSlots forceNoFuse : Bool) :
    Levelled (BCComp.initial names disableLocalSlots forceNoFuse) (fun _ => ⟨0, 0⟩) [] 0 0 0 where
  top := rfl
  scopeDepth := rfl
  code := nofun
  pending := nofun
  loops := trivial
  jumps := nofun
  ranges := nofun

/-- Compiled code has a level of cells and scopes at every place, and no open loop. -/
theorem bc_compile_ex_levelled (node : ASTNode) (preNames : List Name)
    (disableLocalSlots forceNoFuse : Bool)
    (isOk : (bc_compile_ex node preNames disableLocalSlots forceNoFuse).ok = true) :
    ∃ level, Levelled (bc_compile_ex node preNames disableLocalSlots forceNoFuse) level [] 0 0 0 ∧
      (bc_compile_ex node preNames disableLocalSlots forceNoFuse).loop = [] ∧
      level 0 = ⟨0, 0⟩ ∧
      Tables.Grows 256 (preNames.take 256)
        (bc_compile_ex node preNames disableLocalSlots forceNoFuse).localNames := by
  have unit := ((effect_collect_vars_hoist node).stmt.seq
    (effect_cstmt node (!node.isProgram))).seq (effect_emit .stop rfl).stmt
  have initial := levelled_initial (preNames.take 256) disableLocalSlots forceNoFuse
  obtain ⟨level, state, extends_⟩ := unit.run _ _ _ _ _ initial isOk
  refine ⟨level, state, ?_, extends_.top_eq rfl, extends_.names⟩
  have loops := extends_.loops
  change List.Forall₂ LoopExtends [] (bc_compile_ex ..).loop at loops
  generalize (bc_compile_ex ..).loop = final at loops
  cases loops
  rfl

/-! ## Steps -/

variable {s t : Control} {taken : Bool}

theorem not_isOpen (closed : c.loop = []) (pos : Nat) : ¬ IsOpen c [] pos := by
  rintro (⟨goal, member⟩ | ⟨lp, member, -⟩)
  · cases member
  · rw [closed] at member
    cases member

theorem Levelled.arrives {base depth scopes : Nat}
    (state : Levelled c level [] base depth scopes) (closed : c.loop = [])
    {pos target : Nat} {ins : Instr}
    (fetch : c.code[pos]? = some ins)
    (hasTarget : ins.target? = some target) : ArrivesAt c level pos ins (level target) :=
  ((state.code pos ins fetch).target target hasTarget).elim
    (fun isOpen => absurd isOpen (not_isOpen closed pos)) And.right

/-- The step runs no delegated `a[k]++`, and takes no jump that skips over
operand cells or over a `BC_ADD` that was fused away. -/
def KeepsDepth (c : BCComp) (s : Control) (taken : Bool) (_ : Control) : Prop :=
  (∀ ins, c.code[s.pc]? = some ins → ins.leaky = false) ∧ (taken = true → KeepsCells c s.pc)

theorem Levelled.step_depth (state : Levelled c level [] 0 0 0) (closed : c.loop = [])
    (step : Step c.code s taken t) (keeps : KeepsDepth c s taken t)
    (here_ : s.depth = (level s.pc).depth) : t.depth = (level t.pc).depth := by
  obtain ⟨notLeaky, keepsCells⟩ := keeps
  cases step with
  | fall ins names fetch falls declares =>
    change s.depth - ins.takes + ins.gives = (level (s.pc + 1)).depth
    rw [here_, (state.code s.pc ins fetch).fallDepth falls (notLeaky ins fetch)]
  | jump ins target names fetch hasTarget declares =>
    change s.depth - ins.takes + ins.jumpGives = (level target).depth
    rw [here_, (state.arrives closed fetch hasTarget).depth (keepsCells rfl)]

/-- The step takes no jump out of a block scope, and the counter of open block
scopes never left its array. -/
def KeepsBlocks (c : BCComp) (s : Control) (taken : Bool) (_ : Control) : Prop :=
  c.scopeOverflow = false ∧ (taken = true → KeepsScopes c s.pc)

theorem length_blocksAfter (ins : Instr) (s : Control) :
    (s.blocksAfter ins).length = ins.scopesAfter s.blocks.length := by
  cases ins <;> simp [Control.blocksAfter, Instr.scopesAfter]

section

variable (state : Levelled c level [] 0 0 0) (closed : c.loop = [])
include state closed

/-- A step that keeps to its blocks opens the scopes of the next place. -/
theorem Levelled.step_blocks
    (step : Step c.code s taken t) (keeps : KeepsBlocks c s taken t)
    (here_ : s.blocks.length = (level s.pc).scopes) : t.blocks.length = (level t.pc).scopes := by
  cases step with
  | fall ins names fetch falls declares =>
    change (s.blocksAfter ins).length = (level (s.pc + 1)).scopes
    rw [length_blocksAfter, here_, (state.code s.pc ins fetch).fallScopes falls]
  | jump ins target names fetch hasTarget declares =>
    change (s.blocksAfter ins).length = (level target).scopes
    rw [length_blocksAfter, here_, Instr.target_scopes hasTarget,
      (state.arrives closed fetch hasTarget).scopes (keeps.2 rfl)]

/-! ## Runs -/

theorem Levelled.run_depth
    (run : Run c.code (KeepsDepth c) s t) (start : s.depth = (level s.pc).depth) :
    t.depth = (level t.pc).depth := by
  induction run with
  | refl =>
    exact start
  | tail _ step ih =>
    obtain ⟨taken, step, keeps⟩ := step
    exact state.step_depth closed step keeps ih

theorem Levelled.run_blocks
    (run : Run c.code (KeepsBlocks c) s t) (start : s.blocks.length = (level s.pc).scopes) :
    t.blocks.length = (level t.pc).scopes := by
  induction run with
  | refl =>
    exact start
  | tail _ step ih =>
    obtain ⟨taken, step, keeps⟩ := step
    exact state.step_blocks closed step keeps ih

end

/-! ## The operand stack -/

/-- In runs of `c` by `allowed` steps, every position has one operand depth, no instruction pops
below the entry depth, and jumps arrive with the depth the loop or switch was entered with. -/
def DepthDiscipline (c : BCComp) (allowed : Control → Bool → Control → Prop) : Prop :=
  ∃ depthAt : Nat → Nat, ∀ names s, Run c.code allowed (.start names) s →
    s.depth = depthAt s.pc ∧
    (∀ ins, c.code[s.pc]? = some ins → ins.takes ≤ s.depth) ∧
    ∀ t record, Step c.code s true t → allowed s true t → record ∈ c.jumps →
      record.pos = s.pc → t.depth = depthAt record.entry

/-- Every unit keeps the operand-stack discipline, in every run that takes none
of the defective edges. -/
theorem operand_stack_discipline (node : ASTNode) (preNames : List Name)
    (disableLocalSlots forceNoFuse : Bool)
    (isOk : (bc_compile_ex node preNames disableLocalSlots forceNoFuse).ok = true) :
    DepthDiscipline (bc_compile_ex node preNames disableLocalSlots forceNoFuse)
      (KeepsDepth (bc_compile_ex node preNames disableLocalSlots forceNoFuse)) := by
  obtain ⟨level, state, closed, start, -⟩ :=
    bc_compile_ex_levelled node preNames disableLocalSlots forceNoFuse isOk
  refine ⟨fun pos => (level pos).depth, fun names s run => ?_⟩
  have depth : s.depth = (level s.pc).depth :=
    state.run_depth closed run (by change 0 = (level 0).depth; rw [start])
  refine ⟨depth, fun ins fetch => depth ▸ (state.code s.pc ins fetch).enough, ?_⟩
  intro t record step keeps recorded atPos
  obtain ⟨⟨goal, isJump⟩, -, keepsCells, -⟩ := state.jumps record recorded
  rw [atPos] at isJump keepsCells
  cases step with
  | jump ins target names fetch hasTarget declares =>
    cases isJump.symm.trans fetch
    change s.depth - 0 + 0 = _
    rw [Nat.sub_zero, Nat.add_zero, depth]
    exact keepsCells ((keeps.2 rfl).2 record recorded atPos)

/-- `while (x) { switch (y) { default: continue } }` -/
def continueInSwitch : ASTNode :=
  .program [.whileStmt (.identifier "x")
    (.block [.switchStmt (.identifier "y") [.defaultClause (.continueStmt .null)]])]

theorem operand_stack_discipline_continueInSwitch :
    DepthDiscipline (bc_compile_ex continueInSwitch [] false false)
      (KeepsDepth (bc_compile_ex continueInSwitch [] false false)) :=
  operand_stack_discipline continueInSwitch [] false false rfl

/-- The `continue` leaves the discriminant of the switch on the stack. -/
theorem continueInSwitch_depth :
    ¬ DepthDiscipline (bc_compile_ex continueInSwitch [] false false) fun _ _ _ => True := by
  rintro ⟨depthAt, holds⟩
  have again : Run (bc_compile_ex continueInSwitch [] false false).code (fun _ _ _ => True)
      (.start []) ⟨0, 1, [], 6, []⟩ :=
    run_of_follow? [false, false, false, false, true, true] rfl
  have atEntry : 0 = depthAt 0 :=
    (holds [] _ .refl).1
  have atReturn : 1 = depthAt 0 :=
    (holds [] _ again).1
  omega

/-! ## Block scopes -/

/-- The step stays in the code between `start` and `stop`. -/
def Within (start stop : Nat) (s t : Control) : Prop :=
  start ≤ s.pc ∧ s.pc < stop ∧ start ≤ t.pc ∧ t.pc ≤ stop

/-- In runs of `c` by `allowed` steps, every position has one number of open block scopes, slot
instructions run with none open, and after a loop the scope is the one before it. -/
def BlockDiscipline (c : BCComp) (allowed : Control → Bool → Control → Prop) : Prop :=
  ∃ scopesAt : Nat → Nat, ∀ names s, Run c.code allowed (.start names) s →
    s.blocks.length = scopesAt s.pc ∧
    (∀ ins, c.code[s.pc]? = some ins → ins.slot?.isSome = true → s.blocks = []) ∧
    ∀ range ∈ c.ranges, s.pc = range.1 → ∀ t,
      Run c.code (fun s taken t => allowed s taken t ∧ Within range.1 range.2 s t) s t →
        t.pc = range.2 → t.blocks = s.blocks

/-- An instruction that leaves at least as many blocks as `outer` has leaves
those of `outer`. -/
theorem suffix_blocksAfter {outer : List Nat} (ins : Instr) (s : Control)
    (inside : outer <:+ s.blocks) (enough : outer.length ≤ (s.blocksAfter ins).length) :
    outer <:+ s.blocksAfter ins := by
  cases ins with
  | scopeEnter =>
    exact inside.trans (List.suffix_cons _ _)
  | scopeLeave =>
    obtain ⟨added, equality⟩ := inside
    change outer.length ≤ s.blocks.tail.length at enough
    change outer <:+ s.blocks.tail
    rw [← equality] at enough ⊢
    cases added with
    | nil =>
      cases outer with
      | nil =>
        exact List.nil_suffix
      | cons block outer =>
        exact absurd enough (by simp)
    | cons block added =>
      exact List.suffix_append _ _
  | _ =>
    exact inside

theorem blocks_of_step {code : List Instr} (step : Step code s taken t) :
    ∃ ins, t.blocks = s.blocksAfter ins := by
  cases step with
  | fall ins names fetch falls declares | jump ins target names fetch hasTarget declares =>
    exact ⟨ins, rfl⟩

/-- A run inside the range of a block leaves the scopes that were open at its start. -/
theorem Levelled.run_within (state : Levelled c level [] 0 0 0) (closed : c.loop = [])
    {range : Nat × Nat} (member : range ∈ c.ranges)
    (run : Run c.code (fun s taken t => KeepsBlocks c s taken t ∧ Within range.1 range.2 s t) s t)
    (atStart : s.pc = range.1) (start : s.blocks.length = (level s.pc).scopes) :
    t.blocks.length = (level t.pc).scopes ∧ s.blocks <:+ t.blocks := by
  obtain ⟨-, -, -, floor⟩ := state.ranges range member
  induction run with
  | refl =>
    exact ⟨start, List.suffix_rfl⟩
  | tail _ step ih =>
    obtain ⟨taken, step, keeps, -, -, lower, upper⟩ := step
    obtain ⟨length, inside⟩ := ih
    have length' := state.step_blocks closed step keeps length
    obtain ⟨ins, blocks⟩ := blocks_of_step step
    refine ⟨length', ?_⟩
    rw [blocks]
    refine suffix_blocksAfter ins _ inside ?_
    rw [← blocks, length', start, atStart]
    exact floor _ lower upper

/-- Every unit keeps the block-scope discipline, in every run that takes no
jump out of a block scope. -/
theorem block_scope_discipline (node : ASTNode) (preNames : List Name)
    (disableLocalSlots forceNoFuse : Bool)
    (isOk : (bc_compile_ex node preNames disableLocalSlots forceNoFuse).ok = true) :
    BlockDiscipline (bc_compile_ex node preNames disableLocalSlots forceNoFuse)
      (KeepsBlocks (bc_compile_ex node preNames disableLocalSlots forceNoFuse)) := by
  obtain ⟨level, state, closed, start, -⟩ :=
    bc_compile_ex_levelled node preNames disableLocalSlots forceNoFuse isOk
  refine ⟨fun pos => (level pos).scopes, fun names s run => ?_⟩
  have scopes : s.blocks.length = (level s.pc).scopes :=
    state.run_blocks closed run (by change 0 = (level 0).scopes; rw [start])
  refine ⟨scopes, ?_, ?_⟩
  · intro ins fetch hasSlot
    obtain ⟨⟨slot, name⟩, isSlot⟩ := Option.isSome_iff_exists.mp hasSlot
    rw [((state.code s.pc ins fetch).slot slot name isSlot).1] at scopes
    exact List.length_eq_zero_iff.mp scopes
  · intro range member atStart t within atStop
    obtain ⟨length, inside⟩ := state.run_within closed member within atStart scopes
    obtain ⟨-, -, balanced, -⟩ := state.ranges range member
    refine (inside.eq_of_length ?_).symm
    rw [length, scopes, atStart, atStop, balanced]

/-- `while (x) { let y = true; break }` -/
def breakInBlock : ASTNode :=
  .program [.whileStmt (.identifier "x")
    (.block [
      .varDecl .let [.varDeclarator (.identifier "y") (.literal (.bool true))],
      .breakStmt .null])]

theorem block_scope_discipline_breakInBlock :
    BlockDiscipline (bc_compile_ex breakInBlock [] false false)
      (KeepsBlocks (bc_compile_ex breakInBlock [] false false)) :=
  block_scope_discipline breakInBlock [] false false rfl

/-- The `break` leaves the scope of the block open. -/
theorem breakInBlock_scopes :
    ¬ BlockDiscipline (bc_compile_ex breakInBlock [] false false) fun _ _ _ => True := by
  rintro ⟨scopesAt, holds⟩
  have byTest : Run (bc_compile_ex breakInBlock [] false false).code (fun _ _ _ => True)
      (.start []) ⟨9, 0, [], 3, []⟩ :=
    run_of_follow? [false, false, true] rfl
  have byBreak : Run (bc_compile_ex breakInBlock [] false false).code (fun _ _ _ => True)
      (.start []) ⟨9, 0, [3], 7, ["y"]⟩ :=
    run_of_follow? [false, false, false, false, false, false, true] rfl
  have closed : 0 = scopesAt 9 :=
    (holds [] _ byTest).1
  have left : 1 = scopesAt 9 :=
    (holds [] _ byBreak).1
  omega

/-! ## The end of the code -/

/-- A step on code that ends with `BC_STOP` comes to it at most. -/
theorem Levelled.step_inside (state : Levelled c level [] 0 0 0) (closed : c.loop = [])
    (step : Step (appendInstr .stop c).code s taken t) : t.pc ≤ here c := by
  cases step with
  | fall ins names fetch falls declares =>
    obtain ⟨before, -⟩ | ⟨-, rfl⟩ := getElem?_append_cases fetch
    · exact before
    · cases falls
  | jump ins target names fetch hasTarget declares =>
    obtain ⟨-, fetch⟩ | ⟨-, rfl⟩ := getElem?_append_cases fetch
    · obtain isOpen | ⟨reached, -⟩ := (state.code s.pc ins fetch).target target hasTarget
      · exact absurd isOpen (not_isOpen closed s.pc)
      · exact reached
    · cases hasTarget

/-- In every run of a unit, also over the edges that break a discipline, the machine finds an
instruction wherever it comes. -/
theorem bc_execute_stays_in_code (node : ASTNode) (preNames : List Name)
    (disableLocalSlots forceNoFuse : Bool)
    (isOk : (bc_compile_ex node preNames disableLocalSlots forceNoFuse).ok = true)
    (names : List Name) (s : Control)
    (run : Run (bc_compile_ex node preNames disableLocalSlots forceNoFuse).code
      (fun _ _ _ => True) (.start names) s) :
    s.pc < (bc_compile_ex node preNames disableLocalSlots forceNoFuse).code.length := by
  unfold bc_compile_ex at isOk run ⊢
  have ok := ok_of_emit isOk
  rw [show emit .stop _ = _ from emit_of_ok ok nofun] at run ⊢
  obtain ⟨level, state, extends_⟩ :=
    ((effect_collect_vars_hoist node).stmt.seq (effect_cstmt node (!node.isProgram))).run _ _ _ _ _
      (levelled_initial (preNames.take 256) disableLocalSlots forceNoFuse) ok
  refine Nat.lt_of_lt_of_eq (Nat.lt_succ_of_le ?_) (here_append .stop).symm
  cases run with
  | refl =>
    exact Nat.zero_le _
  | tail _ step =>
    obtain ⟨taken, step, -⟩ := step
    exact state.step_inside (List.forall₂_nil_left_iff.mp extends_.loops) step

theorem bc_execute_stays_in_code_breakInBlock :
    9 < (bc_compile_ex breakInBlock [] false false).code.length :=
  bc_execute_stays_in_code breakInBlock [] false false rfl [] ⟨9, 0, [3], 7, ["y"]⟩
    (run_of_follow? [false, false, false, false, false, false, true] rfl)

end LRJS
