import LRJS.Compile

/-!
# References to `arguments`

What a function evaluates in its own activation, against what the scan of its body enters.
-/

namespace LRJS.ArgumentReferences

open List

/-- The children that are evaluated; those of a declaration are the initial values. -/
def evaluated : ASTNode → List ASTNode
  | .program items | .block items | .sequence items | .array items | .object items
  | .template _ items | .pattern _ items | .export items _ => items
  | .exprStmt a | .returnStmt a | .throwStmt a | .defaultClause a | .labelStmt _ a | .arrow _ a _
  | .unary _ _ a | .member a _ _ | .optionalMember a _ | .spread a | .spreadElement a | .rest a
  | .await a | .yield a _ | .exportDefault a => [a]
  | .whileStmt a b | .doWhile a b | .caseClause a b | .withStmt a b | .binary _ a b
  | .computedMember a b | .assign _ a b | .defaultValue a b => [a, b]
  | .ifStmt a b c | .forIn a b c | .forOf a b c | .tryStmt a b c _ | .conditional a b c => [a, b, c]
  | .forStmt a b c d => [a, b, c, d]
  | .switchStmt a items | .call a items _ | .optionalCall a items | .new a items
  | .taggedTemplate a _ items | .classDecl _ a items => a :: items
  | .property key val computed _ => if computed then [key, val] else [val]
  | .varDecl _ vars => vars.flatMap fun
    | .varDeclarator _ init => [init]
    | _ => []
  | _ => []

/-- The children that are bound. -/
def bound : ASTNode → List ASTNode
  | .arrow params _ _ => params
  | .varDecl _ vars => vars.flatMap fun
    | .varDeclarator var _ => [var]
    | _ => []
  | _ => []

inductive Role where
  | value
  | target

/-- `key_expr` is the computed key of a method. -/
def own (key_expr : ASTNode → ASTNode) : Role → ASTNode → List (Role × ASTNode)
  | .target, .identifier _ => []
  | .target, .pattern _ elements => elements.map (.target, ·)
  | .target, .rest arg => [(.target, arg)]
  | .target, .defaultValue left right => [(.target, left), (.value, right)]
  | .target, .property key val computed _ =>
    (if computed then [(.value, key)] else []) ++ [(.target, val)]
  | _, .funcExpr name params body isAsync isGenerator isGetter isSetter derived =>
    [(.value, key_expr (.funcExpr name params body isAsync isGenerator isGetter isSetter derived))]
  | _, n => (evaluated n).map (.value, ·) ++ (bound n).map (.target, ·)

inductive Refers (key_expr : ASTNode → ASTNode) : Role → ASTNode → Prop where
  | here : Refers key_expr .value (.identifier "arguments")
  | inside {role role' : Role} {n m : ASTNode} (member : (role', m) ∈ own key_expr role n)
      (refers : Refers key_expr role' m) : Refers key_expr role n

/-- A parameter or the body refers to `arguments`. -/
def Uses (key_expr : ASTNode → ASTNode) (func : ASTNode) : Prop :=
  (∃ param ∈ func.params, Refers key_expr .target param) ∨ Refers key_expr .value func.body

/-- What is inside these is not scanned. -/
def hides : ASTNode → Bool
  | .computedMember _ _ | .optionalMember _ _ | .optionalCall _ _ | .arrow _ _ _
  | .classDecl _ _ _ | .taggedTemplate _ _ _ | .pattern _ _ | .rest _ | .defaultValue _ _
  | .await _ | .yield _ _ | .defaultClause _ | .labelStmt _ _ | .withStmt _ _
  | .export _ _ | .exportDefault _ => true
  | _ => false

/-- The children of a node that hides nothing, and the keys of properties. -/
def entered (n : ASTNode) : List ASTNode :=
  if hides n then
    []
  else
    match n with
    | .property key val _ _ => [key, val]
    | n => evaluated n

inductive Open : ASTNode → Prop where
  | here : Open (.identifier "arguments")
  | inside {n m : ASTNode} (member : m ∈ entered n) (isOpen : Open m) : Open n

theorem ast_scans_args_list_eq (items : List ASTNode) :
    ast_scans_args_list items = items.any ast_scans_arguments := by
  induction items with
  | nil => rfl
  | cons item items ih => rw [ast_scans_args_list, ih, any_cons]

theorem ast_scans_inits_eq (kind : DeclKind) (vars : List ASTNode) :
    ast_scans_inits vars = (entered (.varDecl kind vars)).any ast_scans_arguments := by
  change _ = (vars.flatMap _).any _
  induction vars with
  | nil => rfl
  | cons item vars ih =>
    rw [flatMap_cons, any_append, ← ih]
    cases item <;> simp [ast_scans_inits]

/-- The scan answers yes at the name itself or at a node that it enters. -/
theorem ast_scans_arguments_iff (n : ASTNode) : ast_scans_arguments n = true ↔
    n = .identifier "arguments" ∨ ∃ m ∈ entered n, ast_scans_arguments m = true := by
  rw [← any_eq_true]
  cases n with
  | varDecl kind vars =>
    rw [ast_scans_arguments, ast_scans_inits_eq kind]
    simp
  | _ => simp [ast_scans_arguments, ast_scans_args_list_eq, entered, hides, evaluated, or_assoc]

theorem sizeOf_entered {n m : ASTNode} (member : m ∈ entered n) : sizeOf m < sizeOf n := by
  have listed {items : List ASTNode} (member : m ∈ items) := sizeOf_lt_of_mem member
  unfold entered at member
  split at member
  · cases member
  · cases n with
    | varDecl kind vars =>
      obtain ⟨declarator, among, member⟩ := mem_flatMap.mp member
      have inside := sizeOf_lt_of_mem among
      cases declarator <;> grind
    | property key val computed shorthand => grind
    | _ => grind [evaluated]

/-- What the scan finds is open, by induction on the size of the node. -/
theorem open_of_scans (n : ASTNode) (scans : ast_scans_arguments n = true) : Open n := by
  rcases (ast_scans_arguments_iff n).mp scans with rfl | ⟨m, member, scans⟩
  · exact .here
  · exact .inside member (open_of_scans m scans)
termination_by sizeOf n
decreasing_by exact sizeOf_entered member

theorem scans_iff_open (n : ASTNode) : ast_scans_arguments n = true ↔ Open n := by
  refine ⟨open_of_scans n, fun isOpen => ?_⟩
  induction isOpen with
  | here => rfl
  | inside member _ scans => exact (ast_scans_arguments_iff _).mpr (.inr ⟨_, member, scans⟩)

/-- The scan of the body finds out about a use of `arguments` where an occurrence is open. -/
theorem arguments_found_iff (key_expr : ASTNode → ASTNode) (func : ASTNode) :
    (Uses key_expr func → ast_scans_arguments func.body = true) ↔
      (Uses key_expr func → Open func.body) := by
  rw [scans_iff_open]

/-- `function () { return arguments[0]; }` is taken for one without `arguments`. -/
theorem first_argument_missed :
    ¬ (Uses (fun _ => .null) (.funcExpr none [] (.block [.returnStmt (.computedMember
        (.identifier "arguments") (.literal (.number ⟨0⟩)))]) false false false false false) →
      ast_scans_arguments (.block [.returnStmt (.computedMember (.identifier "arguments")
        (.literal (.number ⟨0⟩)))]) = true) := by
  intro found
  refine absurd (found (.inr ?_)) (by decide)
  exact .inside mem_cons_self (.inside mem_cons_self (.inside mem_cons_self .here))

end LRJS.ArgumentReferences
