import LRJS.Discipline

/-!
# Direct slots

The compiler numbers the names of the function scope in textual order; the
machine appends them in the order of execution.  A slot instruction reaches its
own identifier as long as the two orders agree.
-/

namespace LRJS

variable {c : BCComp} {level : Nat → Level} {s t : Control} {taken : Bool}

/-- In runs of `c` from the names `entry` by `allowed` steps, an instruction on a slot for `name`
runs in the function scope, where a search by name finds that slot. -/
def SlotDiscipline (c : BCComp) (entry : List Name)
    (allowed : Control → Bool → Control → Prop) : Prop :=
  ∀ s t taken, Run c.code allowed (.start entry) s → Step c.code s taken t →
    allowed s taken t → ∀ ins slot name, c.code[s.pc]? = some ins →
      ins.slot? = some (slot, name) →
        s.blocks = [] ∧ s.names[slot]? = some name ∧ s.names.idxOf? name = some slot

def Compatible (names table : List Name) : Prop :=
  names <+: table ∨ table <+: names

/-- The step keeps the block scopes and adds the next names of the table to the function scope; a
slot instruction runs after its identifier was declared. -/
def KeepsSlots (c : BCComp) (s : Control) (taken : Bool) (t : Control) : Prop :=
  KeepsBlocks c s taken t ∧
    (t.names = s.names ∨ t.names <+: c.localNames ∨ c.localNames <+: s.names) ∧
    ∀ ins slot name, c.code[s.pc]? = some ins → ins.slot? = some (slot, name) → name ∈ s.names

/-- A step keeps the names of the scope as a prefix. -/
theorem names_of_step {code : List Instr} (step : Step code s taken t) : s.names <+: t.names := by
  have grows {ins : Instr} {names : List Name} (declares : ins.Declares s.names names) :
      s.names <+: names := by
    rcases declares with rfl | ⟨-, grown⟩
    · unfold Instr.declared
      split
      · split
        · exact List.prefix_rfl
        · exact List.prefix_append _ _
      · exact List.prefix_rfl
    · exact grown
  cases step with
  | fall ins names fetch falls declares | jump ins target names fetch hasTarget declares =>
    exact grows declares

/-- A step that keeps slots keeps the names compatible. -/
theorem compatible_step (step : Step c.code s taken t) (keeps : KeepsSlots c s taken t)
    (compatible : Compatible s.names c.localNames) : Compatible t.names c.localNames := by
  obtain ⟨-, same | next | exhausted, -⟩ := keeps
  · rw [same]
    exact compatible
  · exact .inl next
  · exact .inr (exhausted.trans (names_of_step step))

/-- A run that keeps slots keeps the names compatible. -/
theorem compatible_run {entry : List Name} (run : Run c.code (KeepsSlots c) (.start entry) s)
    (compatible : Compatible entry c.localNames) : Compatible s.names c.localNames := by
  induction run with
  | refl =>
    exact compatible
  | tail _ step ih =>
    obtain ⟨taken, step, keeps⟩ := step
    exact compatible_step step keeps ih

/-- Slot instructions reach their identifiers in every unit, from every entry
scope whose names are compatible with the table. -/
theorem slotDiscipline_of_compatible (node : ASTNode) (preNames entry : List Name)
    (disableLocalSlots forceNoFuse : Bool)
    (isOk : (bc_compile_ex node preNames disableLocalSlots forceNoFuse).ok = true)
    (compatible : Compatible entry
      (bc_compile_ex node preNames disableLocalSlots forceNoFuse).localNames) :
    SlotDiscipline (bc_compile_ex node preNames disableLocalSlots forceNoFuse) entry
      (KeepsSlots (bc_compile_ex node preNames disableLocalSlots forceNoFuse)) := by
  obtain ⟨level, state, closed, start, -⟩ :=
    bc_compile_ex_levelled node preNames disableLocalSlots forceNoFuse isOk
  generalize bc_compile_ex node preNames disableLocalSlots forceNoFuse = c at *
  intro s t taken run step keeps ins slot name fetch isSlot
  obtain ⟨noScopes, index⟩ := (state.code s.pc ins fetch).slot slot name isSlot
  have found : s.names.idxOf? name = some slot :=
    Tables.idxOf?_of_comparable (compatible_run run compatible).symm index
      (keeps.2.2 ins slot name fetch isSlot)
  refine ⟨?_, Tables.getElem?_of_idxOf? found, found⟩
  have runBlocks : Run c.code (KeepsBlocks c) (.start entry) s :=
    run.weaken fun _ _ _ keeps => keeps.1
  have scopes := state.run_blocks closed runBlocks (by change 0 = (level 0).scopes; rw [start])
  rw [noScopes] at scopes
  exact List.length_eq_zero_iff.mp scopes

/-- The names of a fresh activation of a function: `this` and the parameters. -/
def activationNames (func : ASTNode) : List Name :=
  "this" :: (paramNames? func.params).getD []

theorem isFunction_of_slot_safe {func : ASTNode} (slotSafe : bc_func_slot_safe func = true) :
    func.isFunction = true := by
  cases func with
  | funcDecl name params body isAsync isGenerator derived
  | funcExpr name params body isAsync isGenerator isGetter isSetter derived
  | arrow params body isAsync =>
    rfl
  | _ =>
    cases slotSafe

/-- The slots of a function whose layout is known are aligned with the scope of
its activations. -/
theorem function_slots_aligned (func : ASTNode) (forceNoFuse : Bool)
    (slotSafe : bc_func_slot_safe func = true)
    (isOk : (bc_compile_func func forceNoFuse).ok = true) :
    SlotDiscipline (bc_compile_func func forceNoFuse) (activationNames func)
      (KeepsSlots (bc_compile_func func forceNoFuse)) := by
  have unit : bc_compile_func func forceNoFuse =
      bc_compile_ex func.body (activationNames func) false forceNoFuse := by
    simp [bc_compile_func, isFunction_of_slot_safe slotSafe, slotSafe, activationNames]
  rw [unit] at isOk ⊢
  obtain ⟨-, -, -, -, grows⟩ := bc_compile_ex_levelled _ _ _ _ isOk
  exact slotDiscipline_of_compatible _ _ _ _ _ isOk grows.comparable

/-- `function f(xs, ys) { for (var x of xs) {} for (var y of ys) {} return y }` -/
def twoLoops : ASTNode :=
  .funcDecl (some "f") [.identifier "xs", .identifier "ys"]
    (.block [
      .forOf (.varDecl .var [.varDeclarator (.identifier "x") .null]) (.identifier "xs")
        (.block []),
      .forOf (.varDecl .var [.varDeclarator (.identifier "y") .null]) (.identifier "ys")
        (.block []),
      .returnStmt (.identifier "y")])
    false false false

theorem function_slots_aligned_twoLoops :
    SlotDiscipline (bc_compile_func twoLoops false) (activationNames twoLoops)
      (KeepsSlots (bc_compile_func twoLoops false)) :=
  function_slots_aligned twoLoops false rfl rfl

/-- The first loop runs zero times and never declares `x`; the slot of `y` is
then one past the names of the scope. -/
theorem twoLoops_not_aligned :
    ¬ SlotDiscipline (bc_compile_func twoLoops false) (activationNames twoLoops)
      fun _ _ _ => True := by
  intro aligned
  have run : Run (bc_compile_func twoLoops false).code (fun _ _ _ => True)
      (.start (activationNames twoLoops)) ⟨14, 0, [], 14, ["this", "xs", "ys", "y"]⟩ :=
    run_of_follow? [false, false, false, true, false, false, false, false, false, false, true,
      false, true, false] rfl
  have load : (bc_compile_func twoLoops false).code[14]? = some (.loadLocal 4 "y") :=
    rfl
  obtain ⟨-, outOfRange, -⟩ := aligned _ _ false run
    (.fall _ _ _ load rfl (.inl rfl)) trivial _ 4 "y" load rfl
  cases outOfRange

/-- The slots of a program are aligned with every entry scope whose names are
compatible with its table. -/
theorem program_slots_aligned (items : List ASTNode) (entry : List Name) (forceNoFuse : Bool)
    (isOk : (bc_compile (.program items) forceNoFuse).ok = true)
    (compatible : Compatible entry (bc_compile (.program items) forceNoFuse).localNames) :
    SlotDiscipline (bc_compile (.program items) forceNoFuse) entry
      (KeepsSlots (bc_compile (.program items) forceNoFuse)) :=
  slotDiscipline_of_compatible _ _ _ _ _ isOk compatible

/-- `var b = 2; b` -/
def secondProgram : ASTNode :=
  .program [.varDecl .var [.varDeclarator (.identifier "b")
    (.literal (.number ⟨0x4000000000000000⟩))],
    .exprStmt (.identifier "b")]

theorem program_slots_aligned_secondProgram :
    SlotDiscipline (bc_compile secondProgram false) []
      (KeepsSlots (bc_compile secondProgram false)) :=
  program_slots_aligned _ [] false rfl (.inl List.nil_prefix)

/-- A program that runs after `var a = 1` finds `a` in the slot of its own `b`. -/
theorem secondProgram_not_aligned :
    ¬ SlotDiscipline (bc_compile secondProgram false) ["a"] fun _ _ _ => True := by
  intro aligned
  have run : Run (bc_compile secondProgram false).code (fun _ _ _ => True)
      (.start ["a"]) ⟨5, 0, [], 5, ["a", "b"]⟩ :=
    run_of_follow? [false, false, false, false, false] rfl
  have load : (bc_compile secondProgram false).code[5]? = some (.loadLocal 0 "b") :=
    rfl
  obtain ⟨-, otherName, -⟩ := aligned _ _ false run
    (.fall _ _ _ load rfl (.inl rfl)) trivial _ 0 "b" load rfl
  exact absurd otherName (by decide)

end LRJS
