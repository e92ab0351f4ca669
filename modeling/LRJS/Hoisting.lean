import LRJS.Slots

/-!
# Hoisting

Which of the names that `var` declares in a function body the compiler declares ahead of the
first statement.
-/

namespace LRJS

open List Option
namespace Hoisting

mutual

def patternNames : ASTNode → List Name
  | .identifier name => [name]
  | .pattern _ elements => elementNames elements
  | .property _ val _ _ => patternNames val
  | .defaultValue left _ => patternNames left
  | .rest arg => patternNames arg
  | _ => []

def elementNames : List ASTNode → List Name
  | [] => []
  | element :: elements => patternNames element ++ elementNames elements

end

def declaratorNames : ASTNode → List Name
  | .varDeclarator var _ => patternNames var
  | _ => []

mutual

/-- The names that a statement declares by `var`, outside of nested functions. -/
def varNames : ASTNode → List Name
  | .program items | .block items | .switchStmt _ items => varNamesAll items
  | .ifStmt _ body elseBody => varNames body ++ varNames elseBody
  | .forStmt init _ _ body => varNames init ++ varNames body
  | .forIn each _ body | .forOf each _ body => varNames each ++ varNames body
  | .whileStmt _ body | .doWhile _ body | .withStmt _ body => varNames body
  | .caseClause _ body | .defaultClause body | .labelStmt _ body => varNames body
  | .tryStmt body catchBody finallyBody _ =>
    varNames body ++ (varNames catchBody ++ varNames finallyBody)
  | .varDecl .var vars => vars.flatMap declaratorNames
  | _ => []

def varNamesAll : List ASTNode → List Name
  | [] => []
  | item :: items => varNames item ++ varNamesAll items

end

def plainName : ASTNode → List Name
  | .varDeclarator (.identifier name) _ => [name]
  | _ => []

mutual

/-- The declarators that `bc_collect_vars_hoist` visits: no loop head but that of `for`, no clause
of a `switch`, no labelled statement, `with` or pattern. -/
def visited : ASTNode → List Name
  | .program items | .block items | .switchStmt _ items => visitedAll items
  | .ifStmt _ body elseBody => visited body ++ visited elseBody
  | .forStmt init _ _ body => visited init ++ visited body
  | .whileStmt _ body | .doWhile _ body => visited body
  | .forIn _ _ body | .forOf _ _ body => visited body
  | .tryStmt body catchBody finallyBody _ =>
    visited body ++ (visited catchBody ++ visited finallyBody)
  | .varDecl .var vars => vars.flatMap plainName
  | _ => []

def visitedAll : List ASTNode → List Name
  | [] => []
  | item :: items => visited item ++ visitedAll items

end

def declaration (name : Name) : List Instr :=
  [.pushUndefined, .declareVar name .var]

/-- `f` enters names into the table, and emits a declaration for each that is new. -/
structure Collects (f : Comp) (names : List Name) : Prop where
  ok : ∀ c, (f c).ok = true → c.ok = true
  table : ∀ c, (f c).ok = true →
    (f c).localNames = c.localNames ++ Tables.added 256 c.localNames names
  code : ∀ c, (f c).ok = true →
    (f c).code = c.code ++ (Tables.added 256 c.localNames names).flatMap declaration

theorem collects_id : Collects id [] where
  ok := fun _ isOk => isOk
  table := fun c _ => (append_nil c.localNames).symm
  code := fun c _ => (append_nil c.code).symm

theorem Collects.seq {f g : Comp} {first second : List Name} (left : Collects f first)
    (right : Collects g second) : Collects (fun c => g (f c)) (first ++ second) where
  ok := fun c isOk => left.ok c (right.ok _ isOk)
  table := by
    intro c isOk
    rw [right.table _ isOk, left.table c (right.ok _ isOk), Tables.added_append,
      append_assoc]
  code := by
    intro c isOk
    rw [right.code _ isOk, left.code c (right.ok _ isOk), left.table c (right.ok _ isOk),
      Tables.added_append, flatMap_append, append_assoc]

theorem Collects.guarded {f g : Comp} {names : List Name}
    (same : ∀ c, f c = if !c.ok then c else g c) (collects : Collects g names) :
    Collects f names := by
  refine ⟨fun c isOk => (ok_of_guarded same isOk).1, fun c isOk => ?_, fun c isOk => ?_⟩
  · have equality := (ok_of_guarded same isOk).2
    rw [equality] at isOk ⊢
    exact collects.table c isOk
  · have equality := (ok_of_guarded same isOk).2
    rw [equality] at isOk ⊢
    exact collects.code c isOk

theorem pool_add_str_kept (value : String) (c : BCComp) :
    (pool_add_str value c).localNames = c.localNames ∧ (pool_add_str value c).code = c.code := by
  unfold pool_add_str pool_add
  split
  · exact ⟨rfl, rfl⟩
  · split <;> exact ⟨rfl, rfl⟩

theorem emit_of_ok {ins : Instr} {c : BCComp} (isOk : c.ok = true) (other : ins ≠ .bin .add) :
    emit ins c = appendInstr ins c := by
  unfold emit
  rw [isOk]
  cases ins with
  | bin op =>
    cases op with
    | add => exact absurd rfl other
    | _ => rfl
  | _ => rfl

/-- A hoisted name gets the two instructions of its declaration. -/
theorem declaration_emitted {name : Name} {c : BCComp}
    (isOk : (emit (.declareVar name .var) (emit .pushUndefined (pool_add_str name c))).ok = true) :
    c.ok = true ∧
      (emit (.declareVar name .var) (emit .pushUndefined (pool_add_str name c))).localNames =
        c.localNames ∧
      (emit (.declareVar name .var) (emit .pushUndefined (pool_add_str name c))).code =
        c.code ++ declaration name := by
  have pushed := (effect_emit (.declareVar name .var) rfl).ok _ isOk
  have pooled := (effect_emit .pushUndefined rfl).ok _ pushed
  obtain ⟨names, code⟩ := pool_add_str_kept name c
  have first : emit .pushUndefined (pool_add_str name c) =
      appendInstr .pushUndefined (pool_add_str name c) := emit_of_ok pooled (by simp)
  have second : emit (.declareVar name .var) (emit .pushUndefined (pool_add_str name c)) =
      appendInstr (.declareVar name .var) (emit .pushUndefined (pool_add_str name c)) :=
    emit_of_ok pushed (by simp)
  refine ⟨(effect_pool_add_str name).ok _ pooled, ?_, ?_⟩
  · rw [second, first]
    exact names
  · rw [second, first]
    change (_ ++ [_]) ++ [_] = _
    rw [code, append_assoc]
    rfl

/-- A declarator with a plain name is hoisted. -/
theorem collects_declarator (declarator : ASTNode) :
    Collects (hoist_declarator declarator) (plainName declarator) := by
  unfold hoist_declarator
  split
  · next name _ =>
    change Collects _ [name]
    have known (c : BCComp) : (c.localNames.contains name || c.localNames.length ≥ 256) = true ↔
        name ∈ c.localNames ∨ 256 ≤ c.localNames.length := by
      simp
    refine ⟨fun c isOk => ?_, fun c isOk => ?_, fun c isOk => ?_⟩
    · split at isOk
      · exact isOk
      · exact (declaration_emitted isOk).1
    · rw [Tables.added, Tables.added]
      split at isOk
      · next old => rw [if_pos old, if_pos ((known c).mp old), append_nil]
      · next new =>
        rw [if_neg new, if_neg fun old => new ((known c).mpr old)]
        exact (declaration_emitted isOk).2.1
    · rw [Tables.added, Tables.added]
      split at isOk
      · next old =>
        rw [if_pos old, if_pos ((known c).mp old)]
        exact (append_nil _).symm
      · next new =>
        rw [if_neg new, if_neg fun old => new ((known c).mpr old)]
        exact (declaration_emitted isOk).2.2
  · next other =>
    have none : plainName declarator = [] := by
      unfold plainName
      split
      · exact absurd rfl (other _ _)
      · rfl
    rw [none]
    exact collects_id

theorem collects_declarators (vars : List ASTNode) :
    Collects (fun c => vars.foldl (fun c d => hoist_declarator d c) c)
      (vars.flatMap plainName) := by
  induction vars with
  | nil => exact collects_id
  | cons declarator vars ih => exact (collects_declarator declarator).seq ih

mutual

/-- The code hoists the names of the nodes that it visits. -/
theorem collects_vars (n : ASTNode) : Collects (bc_collect_vars_hoist n) (visited n) := by
  refine .guarded (bc_collect_vars_hoist.eq_def n) ?_
  cases n with
  | program items | block items => exact collects_all items
  | switchStmt test cases => exact collects_all cases
  | ifStmt cond body elseBody => exact (collects_vars body).seq (collects_vars elseBody)
  | forStmt init test update body => exact (collects_vars init).seq (collects_vars body)
  | whileStmt cond body | doWhile cond body | forIn each source body | forOf each source body =>
    exact collects_vars body
  | tryStmt body catchBody finallyBody catchVar =>
    exact (collects_vars body).seq ((collects_vars catchBody).seq (collects_vars finallyBody))
  | varDecl kind vars =>
    cases kind with
    | var => exact collects_declarators vars
    | _ => exact collects_id
  | _ => exact collects_id

theorem collects_all (items : List ASTNode) : Collects (collect_list items) (visitedAll items) := by
  cases items with
  | nil => exact collects_id
  | cons item items => exact (collects_vars item).seq (collects_all items)

end

/-- The names of the table that `bc_compile_func` starts with. -/
def entryNames (func : ASTNode) : List Name :=
  if bc_func_slot_safe func then (activationNames func).take 256 else []

/-- The state in which `bc_compile_func` begins with the statements. -/
def hoistedState (func : ASTNode) (forceNoFuse : Bool) : BCComp :=
  bc_collect_vars_hoist func.body
    (BCComp.initial (entryNames func) (!bc_func_slot_safe func) forceNoFuse)

theorem bc_compile_func_eq {func : ASTNode} (isFunction : func.isFunction = true)
    (forceNoFuse : Bool) :
    bc_compile_func func forceNoFuse =
      emit .stop (cstmt func.body (!func.body.isProgram) (hoistedState func forceNoFuse)) := by
  unfold bc_compile_func hoistedState entryNames
  rw [if_pos isFunction]
  cases safe : bc_func_slot_safe func with
  | false | true => rfl

theorem hoisted_code {func : ASTNode} {forceNoFuse : Bool} (isFunction : func.isFunction = true)
    (compiled : (bc_compile_func func forceNoFuse).ok = true) :
    (hoistedState func forceNoFuse).code =
      (Tables.added 256 (entryNames func) (visited func.body)).flatMap declaration := by
  rw [bc_compile_func_eq isFunction] at compiled
  exact (collects_vars func.body).code _
    ((effect_cstmt _ _).ok _ ((effect_emit .stop rfl).ok _ compiled))

/-- The names that the tree-walker declares ahead of the first statement.  `eval_block` goes to
the statements, and `eval_var_declarator` declares a name when the tree-walker comes to it. -/
def treeWalkerAhead (_body : ASTNode) : List Name :=
  []

section Scope

variable (func : ASTNode) (forceNoFuse : Bool) (scope : List Name)

/-- Every name that the body declares by `var` is in the function scope, with the names that the
call has bound, or the code ahead of the statements declares it. -/
def CodeHoists : Prop :=
  ∀ name ∈ varNames func.body,
    name ∈ scope ∨ .declareVar name .var ∈ (hoistedState func forceNoFuse).code

/-- So it is when the tree-walker runs the body. -/
def TreeWalkerHoists : Prop :=
  ∀ name ∈ varNames func.body, name ∈ scope ∨ name ∈ treeWalkerAhead func.body

/-- Every `var` is declared ahead of the first statement, by both engines. -/
def EveryVarHoisted : Prop :=
  CodeHoists func forceNoFuse scope ∧ TreeWalkerHoists func scope

end Scope

/-- The code hoists every variable exactly if each is in the scope or added to it. -/
theorem codeHoists_iff {func : ASTNode} {forceNoFuse : Bool} {scope : List Name}
    (isFunction : func.isFunction = true)
    (compiled : (bc_compile_func func forceNoFuse).ok = true) :
    CodeHoists func forceNoFuse scope ↔
      ∀ name ∈ varNames func.body,
        name ∈ scope ++ Tables.added 256 (entryNames func) (visited func.body) := by
  refine forall₂_congr fun name _ => ?_
  rw [hoisted_code isFunction compiled, mem_append, mem_flatMap]
  refine or_congr_right ⟨?_, fun member => ⟨name, member, by simp [declaration]⟩⟩
  rintro ⟨other, member, declares⟩
  have same : name = other := by
    simpa [declaration] using declares
  exact same ▸ member

/-- `function f(n) { if (n) { var x } return x }` -/
def branchVar : ASTNode :=
  .funcDecl (some "f") [.identifier "n"]
    (.block [
      .ifStmt (.identifier "n") (.block [.varDecl .var [.varDeclarator (.identifier "x") .null]])
        .null,
      .returnStmt (.identifier "x")])
    false false false

/-- `function f(n) { switch (n) { case 1: var x } return x }` -/
def clauseVar : ASTNode :=
  .funcDecl (some "f") [.identifier "n"]
    (.block [
      .switchStmt (.identifier "n") [.caseClause (.literal (.number ⟨0x3ff0000000000000⟩))
        (.block [.varDecl .var [.varDeclarator (.identifier "x") .null]])],
      .returnStmt (.identifier "x")])
    false false false

end Hoisting
end LRJS
