import LRJS.CompileStmt

/-!
# Compilation units

The entry points `bc_compile`, `bc_compile_func` and `bc_compile_ex`, with the
scans that decide how a unit is compiled: hoisting of `var` declarations, the
search for `arguments`, and the layout check `bc_func_slot_safe`.
-/

namespace LRJS

/-- One declarator of a hoisted `var`. -/
def hoist_declarator : ASTNode → Comp
  | .varDeclarator (.identifier name) _ => fun c =>
    if c.localNames.contains name || c.localNames.length ≥ 256 then
      c
    else
      { c with localNames := c.localNames ++ [name] }
        |> pool_add_str name |> emit .pushUndefined |> emit (.declareVar name .var)
  | _ => id

mutual

/-- Declare every `var` before the first statement.  Clauses of a switch, labelled statements and
loop heads are not visited. -/
def bc_collect_vars_hoist (n : ASTNode) : Comp := fun c =>
  if !c.ok then
    c
  else
    match n with
    | .program items | .block items => collect_list items c
    | .ifStmt _ body elseBody =>
      c |> bc_collect_vars_hoist body |> bc_collect_vars_hoist elseBody
    | .forStmt init _ _ body => c |> bc_collect_vars_hoist init |> bc_collect_vars_hoist body
    | .whileStmt _ body | .doWhile _ body => bc_collect_vars_hoist body c
    | .forIn _ _ body | .forOf _ _ body => bc_collect_vars_hoist body c
    | .switchStmt _ cases => collect_list cases c
    | .tryStmt body catchBody finallyBody _ =>
      c |> bc_collect_vars_hoist body |> bc_collect_vars_hoist catchBody
        |> bc_collect_vars_hoist finallyBody
    | .varDecl .var vars => vars.foldl (fun c d => hoist_declarator d c) c
    | _ => c

def collect_list (items : List ASTNode) : Comp := fun c =>
  match items with
  | [] => c
  | item :: items => c |> bc_collect_vars_hoist item |> collect_list items

end

mutual

/-- `ast_scans_arguments`: the body refers to `arguments`. -/
def ast_scans_arguments : ASTNode → Bool
  | .identifier name => name = "arguments"
  | .program items | .block items => ast_scans_args_list items
  | .exprStmt expr => ast_scans_arguments expr
  | .returnStmt arg => ast_scans_arguments arg
  | .binary _ left right => ast_scans_arguments left || ast_scans_arguments right
  | .unary _ _ arg => ast_scans_arguments arg
  | .assign _ target value => ast_scans_arguments target || ast_scans_arguments value
  | .call callee args _ => ast_scans_arguments callee || ast_scans_args_list args
  | .member obj _ _ => ast_scans_arguments obj
  | .ifStmt cond body elseBody =>
    ast_scans_arguments cond || ast_scans_arguments body || ast_scans_arguments elseBody
  | .forStmt init test update body =>
    ast_scans_arguments init || ast_scans_arguments test || ast_scans_arguments update ||
      ast_scans_arguments body
  | .whileStmt cond body | .doWhile cond body =>
    ast_scans_arguments cond || ast_scans_arguments body
  | .forIn each source body | .forOf each source body =>
    ast_scans_arguments each || ast_scans_arguments source || ast_scans_arguments body
  | .conditional cond consequent alternate =>
    ast_scans_arguments cond || ast_scans_arguments consequent ||
      ast_scans_arguments alternate
  | .array elements => ast_scans_args_list elements
  | .object props => ast_scans_args_list props
  | .property key val _ _ => ast_scans_arguments key || ast_scans_arguments val
  | .new callee args => ast_scans_arguments callee || ast_scans_args_list args
  | .sequence exprs => ast_scans_args_list exprs
  | .switchStmt test cases => ast_scans_arguments test || ast_scans_args_list cases
  | .caseClause cond body => ast_scans_arguments cond || ast_scans_arguments body
  | .throwStmt arg => ast_scans_arguments arg
  | .tryStmt body catchBody finallyBody _ =>
    ast_scans_arguments body || ast_scans_arguments catchBody ||
      ast_scans_arguments finallyBody
  | .template _ exprs => ast_scans_args_list exprs
  | .spread arg | .spreadElement arg => ast_scans_arguments arg
  | .varDecl _ vars => ast_scans_inits vars
  | _ => false

def ast_scans_args_list : List ASTNode → Bool
  | [] => false
  | item :: items => ast_scans_arguments item || ast_scans_args_list items

def ast_scans_inits : List ASTNode → Bool
  | [] => false
  | .varDeclarator _ init :: vars => ast_scans_arguments init || ast_scans_inits vars
  | _ :: vars => ast_scans_inits vars

end

def paramName? : ASTNode → Option Name
  | .identifier name => some name
  | _ => none

def paramNames? (params : List ASTNode) : Option (List Name) :=
  params.mapM paramName?

/-- `bc_func_slot_safe`: slot 0 is `this` and slots `1 ..` are the parameters. -/
def bc_func_slot_safe : ASTNode → Bool
  | .funcDecl _ params body _ _ derived | .funcExpr _ params body _ _ _ _ derived =>
    !derived && !ast_scans_arguments body && (paramNames? params).isSome
  | .arrow params _ _ => (paramNames? params).isSome
  | _ => false

namespace ASTNode

/-- `n->type == AST_PROGRAM`. -/
def isProgram : ASTNode → Bool
  | .program _ => true
  | _ => false

def params : ASTNode → List ASTNode
  | .funcDecl _ params _ _ _ _ | .funcExpr _ params _ _ _ _ _ _ | .arrow params _ _ => params
  | _ => []

def body : ASTNode → ASTNode
  | .funcDecl _ _ body _ _ _ | .funcExpr _ _ body _ _ _ _ _ | .arrow _ body _ => body
  | _ => .null

end ASTNode

/-- The compiler state that `bc_compile_ex` ends with. -/
def bc_compile_ex
    (node : ASTNode) (preNames : List Name) (disableLocalSlots forceNoFuse : Bool) :
    BCComp :=
  BCComp.initial (preNames.take 256) disableLocalSlots forceNoFuse
    |> bc_collect_vars_hoist node |> cstmt node (!node.isProgram) |> emit .stop

/-- `bc_compile`: no name is bound in advance. -/
def bc_compile (node : ASTNode) (forceNoFuse : Bool) : BCComp :=
  bc_compile_ex node [] false forceNoFuse

/-- `this` and the parameters are bound in advance when the layout is known, and every name is
looked up by name otherwise. -/
def bc_compile_func (func : ASTNode) (forceNoFuse : Bool) : BCComp :=
  if func.isFunction then
    if bc_func_slot_safe func then
      bc_compile_ex func.body ("this" :: (paramNames? func.params).getD []) false forceNoFuse
    else
      bc_compile_ex func.body [] true forceNoFuse
  else
    bc_compile func forceNoFuse

end LRJS
