import LRJS.Bytecode

/-!
# The expression compiler

`cexpr` and its helpers (`lr_bytecode_compile.c`).

The compiler recurses on grandchildren in several places: the receiver of a called member, the right
operand of `x = x + e`, the key and value of a property.  A helper takes such a child compiled, and
`cobj`, `cprop` and `cright` select it.
-/

namespace LRJS

namespace ASTNode

/-- `!n`. -/
def isNull : ASTNode → Bool
  | .null => true
  | _ => false

/-- `n->type == AST_SUPER`. -/
def isSuper : ASTNode → Bool
  | .super => true
  | _ => false

/-- `is_plain_member`, with the property name. -/
def plainMember? : ASTNode → Option Name
  | .member obj (.identifier name) false =>
    if obj.isNull || obj.isSuper then none else some name
  | _ => none

def isComputedMember : ASTNode → Bool
  | .computedMember obj prop => !obj.isNull && !obj.isSuper && !prop.isNull
  | _ => false

/-- A member access whose receiver is `super`. -/
def isSuperMember : ASTNode → Bool
  | .member obj _ _ | .computedMember obj _ => obj.isSuper
  | _ => false

/-- `AST_SPREAD_ELEMENT` or `AST_SPREAD`. -/
def isSpread : ASTNode → Bool
  | .spreadElement _ | .spread _ => true
  | _ => false

/-- `is_pure_node`: safe to evaluate in another order. -/
def isPureNode : ASTNode → Bool
  | .identifier _ | .this | .literal _ => true
  | _ => false

/-- `AST_FUNC_EXPR`, `AST_ARROW` or `AST_FUNC_DECL`. -/
def isFunction : ASTNode → Bool
  | .funcExpr .. | .arrow .. | .funcDecl .. => true
  | _ => false

end ASTNode

def has_spread (args : List ASTNode) : Bool :=
  args.any ASTNode.isSpread

/-- `emit_eval`: delegate a subtree to the tree-walking interpreter. -/
def emit_eval (node : ASTNode) (keepValue : Bool) : Comp := fun c =>
  if !c.ok then
    c
  else
    c |> pool_add_node |> emit (if keepValue then .evalNode node else .evalNodePop node)

def emit_push_string (value : String) : Comp := fun c =>
  c |> pool_add_str value |> emit (.pushString value)

def emit_push_number (value : Double) : Comp := fun c =>
  match value.int32? with
  | some int => c |> emit (.pushInt32 int)
  | none => c |> pool_add_f64 value |> emit (.pushFloat64 value)

/-- `find_local_slot`: only valid while no block scope is open. -/
def find_local_slot (c : BCComp) (name : Name) : Option Nat :=
  if c.localScopeDepth ≠ 0 || c.disableLocalSlots then
    none
  else
    c.localNames.idxOf? name

/-- The opcodes that `emit_name_op` is called with. -/
inductive NameOp where
  | loadVar | storeVar | incVar | typeofVar
  | defProp | getProp | setProp | deleteProp
deriving DecidableEq, Repr

def NameOp.instr (name : Name) : NameOp → Instr
  | .loadVar => .loadVar name
  | .storeVar => .storeVar name
  | .incVar => .incVar name
  | .typeofVar => .typeofVar name
  | .defProp => .defProp name
  | .getProp => .getProp name
  | .setProp => .setProp name
  | .deleteProp => .deleteProp name

/-- `emit_name_op`: a load or store of a slot local uses its slot. -/
def emit_name_op (op : NameOp) (name : Name) : Comp := fun c =>
  match op, find_local_slot c name with
  | .loadVar, some slot => c |> emit16 (.loadLocal slot name) slot
  | .storeVar, some slot => c |> emit16 (.storeLocal slot name) slot
  | _, _ => c |> pool_add_str name |> emit (op.instr name)

/-- `&&`, `||` and `??`: the left value is kept when the jump is taken. -/
def shortCircuit (op : Nat → Instr) (left right : Comp) : Comp := fun c =>
  let c := left c
  let j := here c
  c |> emit (op 0) |> emit .pop |> right |> patch_here j

def cliteral (value : Literal) : Comp :=
  match value with
  | .number num => emit_push_number num
  | .string str => emit_push_string str
  | .bool val => emit (if val then .pushTrue else .pushFalse)
  | .null => emit .pushNull
  | .undefined => emit .pushUndefined
  | .bigint _ | .regexp _ => emit_eval (.literal value) true

/-- `this`. -/
def cthis : Comp := fun c =>
  { c with usesThis := true } |> emit .pushThis

/-- The code of an identifier, `this` or literal. -/
def cleaf : ASTNode → Comp
  | .identifier name => emit_name_op .loadVar name
  | .this => cthis
  | .literal value => cliteral value
  | _ => id

/-- `is_mul_with_ident`: the other factor of `ident * X` or `X * ident`. -/
def mulWithIdent? (ident : Name) : ASTNode → Option ASTNode
  | .binary .mul left right =>
    match left, right with
    | .identifier name, _ =>
      if name = ident then
        some right
      else
        match right with
        | .identifier name => if name = ident then some left else none
        | _ => none
    | _, .identifier name => if name = ident then some left else none
    | _, _ => none
  | _ => none

/-- One case of `try_factor_cse`: the shared identifier with the two other
factors, when both are pure. -/
def factorBy? (shared leftOther right : ASTNode) :
    Option (ASTNode × ASTNode × ASTNode) :=
  match shared with
  | .identifier ident =>
    match mulWithIdent? ident right with
    | some rightOther =>
      if leftOther.isPureNode && rightOther.isPureNode then
        some (shared, leftOther, rightOther)
      else
        none
    | none => none
  | _ => none

/-- The test of `try_factor_cse`, which never applies: it compares the node type with `TOK_NUMBER`,
which no pure node has. -/
def factor? (left right : ASTNode) : Option (ASTNode × ASTNode × ASTNode) :=
  match left with
  | .binary .mul first second =>
    match factorBy? first second right with
    | some factors => some factors
    | none => factorBy? second first right
  | _ => none

/-- `try_factor_cse`: `a * b + a * c` becomes `a * (b + c)`. -/
def cfactor (op : BinOp) (factors : ASTNode × ASTNode × ASTNode) : Comp := fun c =>
  c |> cleaf factors.1 |> cleaf factors.2.1 |> cleaf factors.2.2
    |> emit (.bin op) |> emit (.bin .mul)

/-- `AST_BINARY` on an operator that has an opcode. -/
def cbinary (bop : BinOp) (left right : ASTNode) (cLeft cRight : Comp) : Comp := fun c =>
  match (if bop = .add ∨ bop = .sub then factor? left right else none) with
  | some factors => cfactor bop factors c
  | none => c |> cLeft |> cRight |> emit (.bin bop)

def ccall
    (node callee : ASTNode) (args : List ASTNode) (isOptional : Bool)
    (cCallee cObj cProp cArgs : Comp) : Comp := fun c =>
  let argc := args.length
  if callee.isNull || isOptional || callee.isSuper || has_spread args ||
      argc > 0xFFFF || callee.isSuperMember then
    c |> emit_eval node true
  else
    match callee.plainMember? with
    | some name =>
      c |> cObj |> cArgs |> pool_add_str name |> emit16 (.callMethod name argc) argc
    | none =>
      if callee.isComputedMember then
        c |> cObj |> cProp |> cArgs |> emit16 (.callElem argc) argc
      else if callee.isFunction then
        c |> emit_eval node true
      else
        match callee with
        | .identifier name =>
          if name = "import" then
            c |> emit_eval node true
          else if argc = 1 ∧ name = "String" then
            c |> cArgs |> emit .toString
          else if argc = 1 ∧ name = "Number" then
            c |> cArgs |> emit .toNumber
          else if argc = 1 ∧ name = "Boolean" then
            c |> cArgs |> emit .toBool
          else
            c |> cCallee |> cArgs |> emit16 (.call argc) argc
        | _ => c |> cCallee |> cArgs |> emit16 (.call argc) argc

/-- `AST_NEW`. -/
def cnew (node : ASTNode) (args : List ASTNode) (cCallee cArgs : Comp) : Comp := fun c =>
  if has_spread args || args.length > 0xFFFF then
    c |> emit_eval node true
  else
    c |> cCallee |> cArgs |> emit16 (.new args.length) args.length

/-- `x + e` for the given `x`. -/
def isSelfAdd (name : Name) : ASTNode → Bool
  | .binary .add (.identifier left) _ => left = name
  | _ => false

/-- The assignment to an identifier: fused when it is `x = x + e` on a slot. -/
def cassignName (name : Name) (val : ASTNode) (cVal cValRight : Comp) : Comp := fun c =>
  match find_local_slot c name, isSelfAdd name val with
  | some slot, true => c |> cValRight |> emit16 (.addSelf slot name) slot
  | _, _ => c |> cVal |> emit .dup |> emit_name_op .storeVar name

/-- `x op= e` on an identifier: fused for `+` and `*` on a slot. -/
def ccompoundName (name : Name) (bop : BinOp) (cVal : Comp) : Comp := fun c =>
  match find_local_slot c name, bop with
  | some slot, .add => c |> cVal |> emit16 (.addSelf slot name) slot
  | some slot, .mul => c |> cVal |> emit16 (.mulSelf slot name) slot
  | _, _ =>
    c |> emit_name_op .loadVar name |> cVal |> emit (.bin bop) |> emit .dup
      |> emit_name_op .storeVar name

def cassign
    (node : ASTNode) (op : AssignOp) (tgt val : ASTNode)
    (cObj cProp cVal cValRight : Comp) : Comp := fun c =>
  if tgt.isNull then
    fail c
  else
    match op with
    | .assign =>
      match tgt with
      | .identifier name => c |> cassignName name val cVal cValRight
      | _ =>
        match tgt.plainMember? with
        | some prop => c |> cObj |> cVal |> emit_name_op .setProp prop
        | none =>
          if tgt.isComputedMember then
            c |> cObj |> cProp |> cVal |> emit .setElem
          else
            c |> emit_eval node true
    | .compound op =>
      match binop_of op with
      | none => c |> emit_eval node true
      | some bop =>
        match tgt with
        | .identifier name => c |> ccompoundName name bop cVal
        | _ =>
          match tgt.plainMember? with
          | some prop =>
            c |> cObj |> emit .dup |> emit_name_op .getProp prop |> cVal
              |> emit (.bin bop) |> emit_name_op .setProp prop
          | none =>
            if tgt.isComputedMember then
              c |> cObj |> cProp |> emit .dup2 |> emit .getElem |> cVal
                |> emit (.bin bop) |> emit .setElem
            else
              c |> emit_eval node true

/-- `++` and `--` on an identifier. -/
def cincdecName (isInc isPrefix : Bool) (name : Name) : Comp := fun c =>
  match isInc, find_local_slot c name with
  | true, some slot =>
    let c := c |> emit16 (.incLocal slot name) slot
    if isPrefix then
      c |> emit .pop |> emit16 (.loadLocal slot name) slot
    else
      c
  | true, none =>
    let c := c |> emit_name_op .incVar name
    if isPrefix then
      c |> emit .pop |> emit_name_op .loadVar name
    else
      c
  | false, _ =>
    let c := c |> emit_name_op .loadVar name |> emit (.un .pos)
    if isPrefix then
      c |> emit (.pushInt32 1) |> emit (.bin .sub) |> emit .dup
        |> emit_name_op .storeVar name
    else
      c |> emit .dup |> emit (.pushInt32 1) |> emit (.bin .sub)
        |> emit_name_op .storeVar name

/-- `cincdec`.  The postfix form on a computed member has already pushed
`obj key n` when it delegates the whole node. -/
def cincdec
    (node : ASTNode) (isInc isPrefix : Bool) (tgt : ASTNode)
    (cObj cProp : Comp) : Comp := fun c =>
  let aop : Instr := .bin (if isInc then .add else .sub)
  match tgt with
  | .identifier name => c |> cincdecName isInc isPrefix name
  | _ =>
    match tgt.plainMember? with
    | some prop =>
      let c := c |> cObj |> emit .dup |> emit_name_op .getProp prop |> emit (.un .pos)
      if isPrefix then
        c |> emit (.pushInt32 1) |> emit aop |> emit_name_op .setProp prop
      else
        c |> emit .dup2 |> emit (.pushInt32 1) |> emit aop
          |> emit_name_op .setProp prop |> emit .pop |> emit .swap |> emit .pop
    | none =>
      if tgt.isComputedMember then
        let c := c |> cObj |> cProp |> emit .dup2 |> emit .getElem |> emit (.un .pos)
        if isPrefix then
          c |> emit (.pushInt32 1) |> emit aop |> emit .setElem
        else
          c |> emit_eval node true
      else
        c |> emit_eval node true

/-- The checks of `cobject`: accessors and spreads stay with the interpreter. -/
def isPlainProperty : ASTNode → Bool
  | .property key (.funcExpr _ _ _ _ _ isGetter isSetter _) _ _ =>
    !isGetter && !isSetter && !key.isNull
  | .property key _ _ _ => !key.isNull
  | _ => false

/-- One property of `cobject`. -/
def cproperty (key : ASTNode) (cKey cVal : Comp) : Comp := fun c =>
  match key with
  | .identifier name => c |> cVal |> emit_name_op .defProp name
  | .literal (.string name) => c |> cVal |> emit_name_op .defProp name
  | _ => c |> cKey |> cVal |> emit .defElem

/-- `AST_MEMBER`: a read through a slot local is one `BC_LOAD_PROP`. -/
def cmember (node obj : ASTNode) (cObj : Comp) : Comp := fun c =>
  match node.plainMember? with
  | none => c |> emit_eval node true
  | some prop =>
    let slot :=
      match obj with
      | .identifier name =>
        if c.forceNoFuse then none else (find_local_slot c name).map fun slot => (slot, name)
      | _ => none
    match slot with
    | some (slot, name) => c |> pool_add_str prop |> emit16 (.loadProp slot name prop) slot
    | none => c |> cObj |> emit_name_op .getProp prop

mutual

def cexpr (n : ASTNode) : Comp := fun c =>
  if !c.ok then
    c
  else
    match n with
    | .null => emit .pushUndefined c
    | .literal value => cliteral value c
    | .identifier name => emit_name_op .loadVar name c
    | .this => cthis c
    | .super => { c with usesSuper := true } |> emit_eval .super true
    | .binary op left right =>
      match op with
      | .andAnd => shortCircuit .jumpIfFalseKeep (cexpr left) (cexpr right) c
      | .orOr => shortCircuit .jumpIfTrueKeep (cexpr left) (cexpr right) c
      | .nullish => shortCircuit .jumpIfNotNullish (cexpr left) (cexpr right) c
      | _ =>
        match binop_of op with
        | none => emit_eval (.binary op left right) true c
        | some bop => cbinary bop left right (cexpr left) (cexpr right) c
    | .unary op isPrefix arg =>
      match op with
      | .inc => cincdec n true isPrefix arg (cobj arg) (cprop arg) c
      | .dec => cincdec n false isPrefix arg (cobj arg) (cprop arg) c
      | .typeof =>
        match arg with
        | .identifier name => emit_name_op .typeofVar name c
        | _ => c |> cexpr arg |> emit (.un .typeof)
      | .void => c |> cexpr arg |> emit (.un .void)
      | .delete =>
        match arg.plainMember? with
        | some prop => c |> cobj arg |> emit_name_op .deleteProp prop
        | none =>
          if arg.isComputedMember then
            c |> cobj arg |> cprop arg |> emit .deleteElem
          else
            emit .pushTrue c
      | .not => c |> cexpr arg |> emit (.un .not)
      | .bitNot => c |> cexpr arg |> emit (.un .bitNot)
      | .minus =>
        if isPrefix then c |> cexpr arg |> emit (.un .neg) else emit_eval n true c
      | .plus =>
        if isPrefix then c |> cexpr arg |> emit (.un .pos) else emit_eval n true c
    | .conditional cond consequent alternate =>
      let c := cexpr cond c
      let jfalse := here c
      let c := c |> emit (.jumpIfFalse 0) |> cexpr consequent
      let jend := here c
      c |> emit (.jump 0) |> patch_here jfalse |> cexpr alternate |> patch_here jend
    | .call callee args isOptional =>
      ccall n callee args isOptional (cexpr callee) (cobj callee) (cprop callee) (cargs args) c
    | .optionalCall _ _ => emit_eval n true c
    | .new callee args => cnew n args (cexpr callee) (cargs args) c
    | .member obj _ _ => cmember n obj (cexpr obj) c
    | .computedMember obj prop =>
      if n.isComputedMember then
        c |> cexpr obj |> cexpr prop |> emit .getElem
      else
        emit_eval n true c
    | .array elements =>
      if elements.length > 0xFFFF || has_spread elements then
        emit_eval n true c
      else
        c |> cargs elements |> emit16 (.newArray elements.length) elements.length
    | .object props =>
      if props.all isPlainProperty then
        c |> emit .newObject |> cprops props
      else
        emit_eval n true c
    | .assign op target value =>
      cassign n op target value (cobj target) (cprop target) (cexpr value) (cright value) c
    | .sequence exprs =>
      if exprs.isEmpty then emit .pushUndefined c else csequence exprs c
    | .template parts exprs =>
      c |> emit_push_string (parts.headD "") |> ctemplate exprs parts.tail
    | _ => emit_eval n true c

def cobj : ASTNode → Comp
  | .member obj _ _ | .computedMember obj _ => cexpr obj
  | _ => id

def cprop : ASTNode → Comp
  | .computedMember _ prop => cexpr prop
  | _ => id

def cright : ASTNode → Comp
  | .binary _ _ right => cexpr right
  | _ => id

def cargs : List ASTNode → Comp
  | [] => id
  | arg :: args => fun c => c |> cexpr arg |> cargs args

/-- `AST_SEQUENCE`: every value but the last is dropped. -/
def csequence : List ASTNode → Comp
  | [] => id
  | expr :: exprs => fun c =>
    if exprs.isEmpty then
      cexpr expr c
    else
      c |> cexpr expr |> emit .pop |> csequence exprs

/-- The interpolations of `ctemplate` with the text after each. -/
def ctemplate : List ASTNode → List String → Comp
  | [], _ => id
  | expr :: exprs, parts => fun c =>
    let c := c |> cexpr expr |> emit (.bin .add)
    let text := parts.headD ""
    let c :=
      if text = "" then c else c |> emit_push_string text |> emit (.bin .add)
    ctemplate exprs parts.tail c

/-- The properties of `cobject`. -/
def cprops : List ASTNode → Comp
  | [] => id
  | .property key val _ _ :: props => fun c =>
    c |> cproperty key (cexpr key) (cexpr val) |> cprops props
  | _ :: props => cprops props

end

end LRJS
