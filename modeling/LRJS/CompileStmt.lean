import LRJS.CompileExpr

/-!
# The statement compiler

`cstmt` and the functions around it (`lr_bytecode_compile.c`): loop bookkeeping, block-scope
elision, the table of slot locals, and the entry points `bc_compile_ex` and `bc_compile_func`.

The table `localNames` only grows: first by `bc_collect_vars_hoist`, then by every other declaration
where it is compiled.
-/

namespace LRJS

def loop_push (isSwitch : Bool) (cells : Nat) : Comp := fun c =>
  { c with
    loop :=
      { label := c.pendingLabel
        isSwitch := isSwitch
        brk := []
        cont := []
        entry := here c
        scopes := c.localScopeDepth
        cells := cells } :: c.loop
    pendingLabel := none }

/-- `loop_pop`: patch the pending jumps of the innermost loop. -/
def loop_pop (breakTarget continueTarget : Nat) : Comp := fun c =>
  match c.loop with
  | [] => c
  | lp :: loops =>
    let c := patch_list lp.brk breakTarget c
    let c := if lp.isSwitch then c else patch_list lp.cont continueTarget c
    { c with loop := loops }

/-- `find_target`: how many loops further out the target of a `break` or
`continue` is. -/
def find_target (loops : List BCLoop) (label : Option Name) (needLoop : Bool) :
    Option Nat :=
  loops.findIdx? fun lp =>
    match label with
    | none => !needLoop || !lp.isSwitch
    | some label => lp.label = some label

/-- Record a jump out to `lp`, which is `depth` loops further out. -/
def recordJump (depth : Nat) (lp : BCLoop) : Comp := fun c =>
  { c with
    jumps := c.jumps ++
      [{ pos := here c
         entry := lp.entry
         cells := ((c.loop.take depth).map BCLoop.cells).sum
         scopes := c.localScopeDepth - lp.scopes }] }

/-- `AST_BREAK`. -/
def cbreak (label : Option Name) : Comp := fun c =>
  match find_target c.loop label false with
  | none => fail c
  | some depth =>
    match c.loop[depth]? with
    | none => fail c
    | some lp =>
      let pos := here c
      let c := c |> recordJump depth lp |> emit (.jump 0)
      { c with loop := c.loop.set depth { lp with brk := lp.brk ++ [pos] } }

/-- `AST_CONTINUE`. -/
def ccontinue (label : Option Name) : Comp := fun c =>
  match find_target c.loop label true with
  | none => fail c
  | some depth =>
    match c.loop[depth]? with
    | none => fail c
    | some lp =>
      if lp.isSwitch then
        fail c
      else
        let pos := here c
        let c := c |> recordJump depth lp |> emit (.jump 0)
        { c with loop := c.loop.set depth { lp with cont := lp.cont ++ [pos] } }

/-- Record the code of a loop that started at `start`. -/
def recordRange (start : Nat) : Comp := fun c =>
  { c with ranges := c.ranges ++ [(start, here c)] }

def label_name : ASTNode → Option Name
  | .identifier name => if name = "" then none else some name
  | _ => none

mutual

/-- `node_has_lexical`: the node declares a lexical binding of the block that
directly contains it. -/
def node_has_lexical : ASTNode → Bool
  | .varDecl kind _ => kind ≠ .var
  | .classDecl .. | .funcDecl .. => true
  | .ifStmt _ body elseBody => node_has_lexical body || node_has_lexical elseBody
  | .forStmt init _ _ body => node_has_lexical init || node_has_lexical body
  | .forIn _ _ body | .forOf _ _ body => node_has_lexical body
  | .whileStmt _ body | .doWhile _ body => node_has_lexical body
  | .labelStmt _ stmt => node_has_lexical stmt
  | .tryStmt body catchBody finallyBody _ =>
    node_has_lexical body || node_has_lexical catchBody || node_has_lexical finallyBody
  | .switchStmt _ cases => block_has_lexical cases
  | .caseClause _ body | .defaultClause body => node_has_lexical body
  | _ => false

def block_has_lexical : List ASTNode → Bool
  | [] => false
  | item :: items => node_has_lexical item || block_has_lexical items

end

/-- `c->local_scope_stack[c->local_scope_depth++] = ...; emit(BC_SCOPE_ENTER)`.
The array has 64 entries and is never read. -/
def scope_enter : Comp := fun c =>
  { c with
    localScopeDepth := c.localScopeDepth + 1
    scopeOverflow := c.scopeOverflow || c.localScopeDepth ≥ 64 }
  |> emit .scopeEnter

/-- `emit(BC_SCOPE_LEAVE); c->local_scope_depth--`. -/
def scope_leave : Comp := fun c =>
  let c := emit .scopeLeave c
  { c with localScopeDepth := c.localScopeDepth - 1 }

def register_local_name (name : Name) : Comp := fun c =>
  if c.localNames.length ≥ 256 || c.localNames.contains name then
    c
  else
    { c with localNames := c.localNames ++ [name] }

def registerTarget : ASTNode → Comp
  | .identifier name => register_local_name name
  | _ => id

mutual

/-- `register_pattern_names`: the names a destructuring pattern binds. -/
def register_pattern_names : ASTNode → Comp
  | .object props => register_props props
  | .pattern true props => register_props props
  | .pattern false elements | .array elements => register_elements elements
  | _ => id

/-- The array branch of `register_pattern_names`; a rest element ends it. -/
def register_elements : List ASTNode → Comp
  | [] => id
  | .rest target :: _ | .spreadElement target :: _ => registerTarget target
  | .defaultValue left _ :: elements => fun c =>
    c |> registerTarget left |> register_elements elements
  | .identifier name :: elements => fun c =>
    c |> register_local_name name |> register_elements elements
  | .assign _ target _ :: elements => fun c =>
    c |> registerTarget target |> register_elements elements
  | elem :: elements => fun c =>
    c |> register_pattern_names elem |> register_elements elements

/-- The object branch of `register_pattern_names`. -/
def register_props : List ASTNode → Comp
  | [] => id
  | .rest target :: _ | .spread target :: _ | .spreadElement target :: _ =>
    registerTarget target
  | .property key val _ shorthand :: props => fun c =>
    let c :=
      match val with
      | .defaultValue left _ => registerTarget left c
      | .identifier name =>
        match shorthand, key with
        | true, .identifier keyName => register_local_name keyName c
        | _, _ => register_local_name name c
      | .assign _ target _ => registerTarget target c
      | _ => register_pattern_names val c
    register_props props c
  | _ :: props => register_props props

end

def register_declarator : ASTNode → Comp
  | .varDeclarator (.identifier name) _ => register_local_name name
  | .varDeclarator var _ => register_pattern_names var
  | _ => id

def register_declarators (vars : List ASTNode) : Comp := fun c =>
  vars.foldl (fun c d => register_declarator d c) c

/-- A declarator that `cvar_decl` compiles itself. -/
def isPlainDeclarator : ASTNode → Bool
  | .varDeclarator (.identifier _) _ => true
  | .varDeclarator _ _ => false
  | _ => true

/-- `BC_DECLARE_VAR`. -/
def emit_declare (name : Name) (kind : DeclKind) : Comp := fun c =>
  c |> pool_add_str name |> emit (.declareVar name kind)

/-- One declarator of `cvar_decl`.  A missing initialiser is `undefined`. -/
def cdeclarator (kind : DeclKind) : ASTNode → Comp
  | .varDeclarator (.identifier name) init => fun c =>
    c |> (if init.isNull then emit .pushUndefined else cexpr init)
      |> emit_declare name kind |> register_local_name name
  | _ => id

/-- `cvar_decl`: a declaration with a pattern is delegated as a whole. -/
def cvar_decl (node : ASTNode) (kind : DeclKind) (vars : List ASTNode) : Comp := fun c =>
  if vars.all isPlainDeclarator then
    vars.foldl (fun c d => cdeclarator kind d c) c
  else
    c |> register_declarators vars |> emit_eval node false

/-- The binding of a compiled `for-of`: its name, and the kind when the head
declares it. -/
def forOfBinding? : ASTNode → Option (Name × Option DeclKind)
  | .varDecl kind [.varDeclarator (.identifier name) _] => some (name, some kind)
  | .identifier name => some (name, none)
  | _ => none

/-- The names a delegated `for-of` binds. -/
def register_each : ASTNode → Comp
  | .varDecl _ vars => register_declarators vars
  | each => register_pattern_names each

def emit_each (name : Name) : Option DeclKind → Comp
  | some kind => emit_declare name kind
  | none => fun c => c |> pool_add_str name |> emit (.storeVar name)

/-- The loop of `cfor_of`, between `BC_ITER_INIT` and `BC_ITER_CLOSE`. -/
def cfor_of_loop (name : Name) (kind : Option DeclKind) (cBody : Comp) : Comp := fun c =>
  let c := loop_push false 3 c
  let top := here c
  let c := emit .loopTick c
  let done := here c
  let c := c |> emit (.iterNext 0) |> emit_each name kind |> cBody
  let back := here c
  let c := c |> emit (.jump 0) |> patch_jump_to back top
  let stop := here c
  c |> patch_jump_to done stop |> loop_pop stop top

def cfor_of (node each source : ASTNode) (cBody : Comp) : Comp := fun c =>
  match forOfBinding? each with
  | none => c |> register_each each |> emit_eval node false
  | some (name, kind) =>
    let hasBlock := kind.any fun kind => kind ≠ .var
    let start := here c
    let c := if kind.isSome then register_local_name name c else c
    let c := cexpr source c
    let c := if hasBlock then scope_enter c else c
    let c := c |> emit .iterInit |> cfor_of_loop name kind cBody |> emit .iterClose
    recordRange start (if hasBlock then scope_leave c else c)

/-- The tests of `cswitch`, with the pending jump of each clause. -/
def ccase_tests : List ASTNode → BCComp → List (Option Nat) × BCComp
  | [], c => ([], c)
  | .caseClause cond _ :: cases, c =>
    let c := c |> emit .dup |> cexpr cond |> emit (.bin .strictEq)
    let pos := here c
    let rest := ccase_tests cases (emit (.jumpIfTrue 0) c)
    (some pos :: rest.1, rest.2)
  | _ :: cases, c =>
    let rest := ccase_tests cases c
    (none :: rest.1, rest.2)

def patch_cases : List (Option Nat) → List Nat → Comp
  | some jump :: jumps, pos :: positions => fun c =>
    c |> patch_jump_to jump pos |> patch_cases jumps positions
  | none :: jumps, _ :: positions => patch_cases jumps positions
  | _, _ => id

/-- The body position of the last `default` clause. -/
def defaultPos : List ASTNode → List Nat → Nat → Nat
  | .defaultClause _ :: cases, pos :: positions, _ => defaultPos cases positions pos
  | _ :: cases, _ :: positions, found => defaultPos cases positions found
  | _, _, found => found

/-- `cswitch`: the discriminant stays on the stack until the end. -/
def cswitch
    (test : ASTNode) (cases : List ASTNode)
    (cBodies : BCComp → List Nat × BCComp) : Comp := fun c =>
  let c := c |> cexpr test |> loop_push true 1
  let tests := ccase_tests cases c
  let noMatch := here tests.2
  let bodies := cBodies (emit (.jump 0) tests.2)
  let stop := here bodies.2
  bodies.2 |> patch_cases tests.1 bodies.1
    |> patch_jump_to noMatch (defaultPos cases bodies.1 stop)
    |> loop_pop stop stop |> emit .pop

/-- The test `local < constant` that one opcode performs. -/
def localLtImm? (c : BCComp) : ASTNode → Option (Nat × Name × Int)
  | .binary .lt (.identifier name) (.literal (.number num)) =>
    match find_local_slot c name, num.int32? with
    | some slot, some imm => some (slot, name, imm)
    | _, _ => none
  | _ => none

/-- The test of a `for`, with the position of its exit jump. -/
def cfor_test (test : ASTNode) (c : BCComp) : Option Nat × BCComp :=
  if test.isNull then
    (none, c)
  else
    match localLtImm? c test with
    | some (slot, name, imm) =>
      (some (here c), c |> emit16 (.jumpIfLocalLtImm slot name imm 0) slot)
    | none =>
      let c := cexpr test c
      (some (here c), c |> emit (.jumpIfFalse 0))

def postfixLocal? (c : BCComp) : ASTNode → Option (Nat × Name)
  | .unary .inc false (.identifier name) | .unary .plus false (.identifier name) =>
    (find_local_slot c name).map fun slot => (slot, name)
  | _ => none

/-- The update of a `for`: a postfix increment of a slot local pushes nothing. -/
def cfor_update (update : ASTNode) : Comp := fun c =>
  if update.isNull then
    c
  else
    match postfixLocal? c update with
    | some (slot, name) => c |> emit16 (.incLocalDiscard slot name) slot
    | none => c |> cexpr update |> emit .pop

/-- `AST_FOR`. -/
def cfor (test update : ASTNode) (cInit cBody : Comp) : Comp := fun c =>
  let start := here c
  let c := c |> cInit |> loop_push false 0
  let testPos := here c
  let tested := cfor_test test (emit .loopTick c)
  let c := cBody tested.2
  let updatePos := here c
  let c := cfor_update update c
  let back := here c
  let c := c |> emit (.jump 0) |> patch_jump_to back testPos
  let stop := here c
  let c :=
    match tested.1 with
    | some exit => patch_jump_to exit stop c
    | none => c
  c |> loop_pop stop updatePos |> recordRange start

/-- `AST_WHILE`. -/
def cwhile (cond : ASTNode) (cBody : Comp) : Comp := fun c =>
  let start := here c
  let c := loop_push false 0 c
  let testPos := here c
  let c := c |> emit .loopTick |> cexpr cond
  let exit := here c
  let c := c |> emit (.jumpIfFalse 0) |> cBody
  let back := here c
  let c := c |> emit (.jump 0) |> patch_jump_to back testPos
  let stop := here c
  c |> patch_jump_to exit stop |> loop_pop stop testPos |> recordRange start

/-- `AST_DO_WHILE`. -/
def cdo_while (cond : ASTNode) (cBody : Comp) : Comp := fun c =>
  let start := here c
  let c := loop_push false 0 c
  let bodyPos := here c
  let c := c |> emit .loopTick |> cBody
  let testPos := here c
  let c := cexpr cond c
  let back := here c
  let c := c |> emit (.jumpIfTrue 0) |> patch_jump_to back bodyPos
  let stop := here c
  c |> loop_pop stop testPos |> recordRange start

namespace ASTNode

/-- `n->type == AST_FUNC_DECL`. -/
def isFuncDecl : ASTNode → Bool
  | .funcDecl .. => true
  | _ => false

def isLabelTarget : ASTNode → Bool
  | .forStmt .. | .whileStmt .. | .doWhile .. | .forOf .. | .switchStmt .. => true
  | _ => false

/-- The expression nodes that `cstmt` compiles as the body of an arrow. -/
def isExprBody : ASTNode → Bool
  | .literal .. | .identifier .. | .binary .. | .unary .. | .conditional ..
  | .call .. | .new .. | .member .. | .computedMember .. | .assign .. | .sequence ..
  | .array .. | .object .. | .template .. | .taggedTemplate .. | .this | .super
  | .spread .. | .spreadElement .. | .optionalCall .. | .optionalMember .. => true
  | _ => false

end ASTNode

/-- `if (top) emit(c, BC_CLEAR_RESULT)`. -/
def clearIfTop (top : Bool) : Comp :=
  if top then emit .clearResult else id

def emit_result (top : Bool) : Comp :=
  emit (if top then .setResult else .pop)

/-- `AST_FUNC_DECL` enters its name without looking for a duplicate. -/
def register_function_name (name : Option Name) : Comp := fun c =>
  match name with
  | some name =>
    if c.localNames.length < 256 then
      { c with localNames := c.localNames ++ [name] }
    else
      c
  | none => c

/-- The binding that `AST_FOR_IN` registers: the first declarator, when plain. -/
def register_for_in : ASTNode → Comp
  | .varDecl _ (.varDeclarator (.identifier name) _ :: _) => register_local_name name
  | _ => id

def register_optional_name : Option Name → Comp
  | some name => register_local_name name
  | none => id

mutual

def cstmt (n : ASTNode) (top : Bool) : Comp := fun c =>
  if !c.ok then
    c
  else
    match n with
    | .null => c
    | .program items => c |> cstmts items true true |> cstmts items false true
    | .block items =>
      let needsScope := block_has_lexical items
      let c := if needsScope then scope_enter c else c
      let c := c |> cstmts items true false |> cstmts items false false
      if needsScope then scope_leave c else c
    | .exprStmt expr => c |> cexpr expr |> emit_result top
    | .varDecl kind vars => c |> cvar_decl n kind vars |> clearIfTop top
    | .ifStmt cond body elseBody =>
      let c := cexpr cond c
      let jfalse := here c
      let c := c |> emit (.jumpIfFalse 0) |> cstmt body false
      let c :=
        if elseBody.isNull then
          patch_here jfalse c
        else
          let jend := here c
          c |> emit (.jump 0) |> patch_here jfalse |> cstmt elseBody false
            |> patch_here jend
      clearIfTop top c
    | .forStmt init test update body =>
      c |> cfor test update (cstmt init false) (cstmt body false) |> clearIfTop top
    | .whileStmt cond body => c |> cwhile cond (cstmt body false) |> clearIfTop top
    | .doWhile cond body => c |> cdo_while cond (cstmt body false) |> clearIfTop top
    | .forOf each source body =>
      c |> cfor_of n each source (cstmt body false) |> clearIfTop top
    | .forIn each _ _ =>
      c |> register_for_in each |> emit_eval n false |> clearIfTop top
    | .tryStmt _ _ _ catchVar =>
      c |> register_optional_name catchVar |> emit_eval n false |> clearIfTop top
    | .switchStmt test cases => c |> cswitch test cases (ccase_bodies cases) |> clearIfTop top
    | .breakStmt label => cbreak (label_name label) c
    | .continueStmt label => ccontinue (label_name label) c
    | .labelStmt label stmt =>
      match label_name label with
      | none => emit_eval n false c
      | some name =>
        if stmt.isNull then
          emit_eval n false c
        else if stmt.isLabelTarget then
          let c := cstmt stmt false { c with pendingLabel := some name }
          clearIfTop top { c with pendingLabel := none }
        else
          c |> emit_eval n false |> clearIfTop top
    | .throwStmt arg => c |> cexpr arg |> emit .throw
    | .returnStmt arg =>
      c |> (if arg.isNull then emit .pushUndefined else cexpr arg) |> emit .ret
    | .debugger => emit .nop c
    | .funcDecl name _ _ _ _ _ =>
      c |> register_function_name name |> emit_eval n false |> clearIfTop top
    | .classDecl name _ _ =>
      c |> register_optional_name name |> emit_eval n false |> clearIfTop top
    | _ =>
      if n.isExprBody then
        c |> cexpr n |> emit_result top
      else
        c |> emit_eval n false |> clearIfTop top

def cstmts (items : List ASTNode) (functions top : Bool) : Comp := fun c =>
  match items with
  | [] => c
  | item :: items =>
    if item.isFuncDecl = functions then
      c |> cstmt item top |> cstmts items functions top
    else
      cstmts items functions top c

/-- The bodies of `cswitch`, with the position of each. -/
def ccase_bodies (cases : List ASTNode) (c : BCComp) : List Nat × BCComp :=
  match cases with
  | [] => ([], c)
  | clause :: cases =>
    let rest := ccase_bodies cases (ccase_body clause c)
    (here c :: rest.1, rest.2)

def ccase_body (clause : ASTNode) : Comp := fun c =>
  match clause with
  | .caseClause _ (.block items) | .defaultClause (.block items) => ccase_items items c
  | .caseClause _ body => cstmt body false c
  | .defaultClause body => cstmt body false c
  | _ => c

def ccase_items (items : List ASTNode) : Comp := fun c =>
  match items with
  | [] => c
  | item :: items => c |> cstmt item false |> ccase_items items

end

end LRJS
