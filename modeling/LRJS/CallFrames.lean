import LRJS.Library.Logged
import LRJS.Objects

/-!
# Calls of scripted functions

`interp_bc_call_function`, `interp_call_function` and `interp_call_class_function`, which save what
they change of the interpreter and put it back.  What they evaluate in between is arbitrary code.

A run logs what the calls rely on and, for every call that returns, the interpreter before and after
it.
-/

namespace LRJS.CallFrames

open Logged

/-- A scope and its parents, the innermost first; the empty chain is `NULL`. -/
abbrev InterpScope := List Nat

/-- `LRCallStackFrame`. -/
structure CallFrame where
  function_name : String
  line_number : Nat
deriving DecidableEq

structure Flags where
  break_target : Bool
  continue_target : Bool
  return_target : Bool
  has_returned : Bool
  return_value : LRValue
  pending_label : Option String
deriving DecidableEq

structure GenState where
  gen_active : Bool
  gen_items : LRValue
  gen_count : Nat
deriving DecidableEq

structure Frame where
  depth : Nat
  current_scope : InterpScope
  flags : Flags
  gen : GenState
  call_stack : List CallFrame
deriving DecidableEq

/-- What any code may change: the pending exception, the labels of pending jumps, the closure that
is handed over, and the objects and scopes. -/
structure Open (World : Type) where
  error_flag : Bool
  exception_pending : Bool
  exception_value : LRValue
  error_message : String
  break_label : String
  continue_label : String
  pending_closure : Option InterpScope
  world : World
deriving DecidableEq

/-- `Interpreter`, with the call stack of its context. -/
structure Interp (World : Type) extends Frame, Open World
deriving DecidableEq

/-! ## Code -/

mutual

inductive Expr (World : Type) where
  | done (value : LRValue)
  | look (next : Interp World → Expr World)
  | change (rest : Open World) (next : Expr World)
  /-- `interp_invoke_function_ast`. -/
  | invoke (ast : Option Nat) (this : LRValue) (args : List LRValue)
      (next : LRValue → Expr World)
  /-- `interp_call_function`. -/
  | call (ast : Nat) (this : LRValue) (args : List LRValue) (next : LRValue → Expr World)
  /-- `interp_bc_call_function`. -/
  | bcCall (ast : Nat) (closure : Option InterpScope) (this : LRValue) (args : List LRValue)
      (next : LRValue → Expr World)
  /-- `interp_bc_call`, which counts the depth. -/
  | guarded (code : Expr World) (next : LRValue → Expr World)
  /-- Code between `lr_push_call_frame` and `lr_pop_call_frame`. -/
  | framed (frame : CallFrame) (code : Expr World) (next : LRValue → Expr World)
  /-- Code between `interp_push_scope` and `interp_pop_scope`, for the members of a class. -/
  | inScope (code : Expr World) (next : LRValue → Expr World)
  /-- `gen_append`. -/
  | append (value : LRValue) (next : Expr World)
  /-- `gen_next_cfunc` where it runs the body; `store` writes down what came of it. -/
  | resume (scope : Option InterpScope) (items : LRValue) (count : Nat) (body : Stmt World)
      (store : LRValue → Interp World → Open World) (next : Expr World)
  /-- `lr_engine_exec_unit`, in a sandbox when it is called for an eval. -/
  | unit (sandboxed : Bool) (scope : Option InterpScope) (body : Stmt World)
      (next : LRValue → Expr World)

inductive Stmt (World : Type) where
  | done (value : LRValue)
  | look (next : Interp World → Stmt World)
  | change (rest : Open World) (next : Stmt World)
  | control (flags : Flags) (next : Stmt World)
  | scope (chain : InterpScope) (next : Stmt World)
  | eval (code : Expr World) (next : LRValue → Stmt World)

end

/-! ## Functions -/

section Functions

variable (World : Type)

/-- A node behind `extends`; the caches know it by its address. -/
structure Extends where
  node : Nat
  code : Expr World

inductive Param where
  | identifier (name : String)
  | rest (target : Option String)
  | defaultValue (left : Option String) (right : Expr World)
  | pattern (eval_pattern : LRValue → Expr World)
  | assign (target : Option String) (value : Expr World)
  | other

inductive Body where
  | program (code : Stmt World)
  | block (code : Stmt World)
  | expression (code : Expr World)

/-- `AST_FUNC_EXPR` and `AST_FUNC_DECL`, `AST_ARROW`, and a class that is called by `super`. -/
inductive FuncKind where
  | func | arrow | cls
deriving DecidableEq

structure FuncNode where
  kind : FuncKind
  name : Option String
  line : Nat
  is_async : Bool
  is_generator : Bool
  params : List (Param World)
  body : Option (Body World)
  /-- `ast_scans_arguments` of the body. -/
  scans_arguments : Bool
  /-- `class_node->u.class_decl.extends`. -/
  «extends» : Option (Extends World)

inductive FieldKey where
  | identifier (name : String)
  | computed (code : Expr World)

inductive Member where
  | method (name : Option String) (is_static is_getter is_setter : Bool) (func : FuncNode World)
  | property (is_static : Bool) (key : Option (FieldKey World)) (val : Option (Expr World))
  | other

structure ClassNode where
  line : Nat
  methods : List (Member World)
  «extends» : Option (Extends World)

inductive FunctionAst where
  | func (node : FuncNode World)
  | cls (node : ClassNode World)
  | other

/-- What a class object or constructor is: `LR_OBJ_FUNCTION` with its node and scope,
`LR_OBJ_CFUNCTION`, or another object. -/
inductive Callee where
  | scripted (extra : Nat) (def_scope : Option InterpScope)
  | native
  | other

/-- The engine around the calls: the functions of the program, and what scopes, caches, allocator
and property operations do. -/
structure Engine where
  functions : Nat → FunctionAst World
  scope_new : InterpScope → World → Nat × World
  scope_new_inline : InterpScope → List (String × LRValue) → World → Nat × World
  scope_declare_name_direct : Nat → String → LRValue → World → World
  /-- `scope_declare_name` for `this` in the scope that was pushed last. -/
  scope_declare_this : LRValue → InterpScope → World → World
  /-- `shadow_restore_for_scope` and `scope_release`. -/
  pop_scope : Nat → World → World
  scope_release : Nat → World → World
  lr_new_array : World → LRValue × World
  arguments_object : List LRValue → World → LRValue × World
  rest_array : List LRValue → World → LRValue × World
  extends_cache_get : Nat → World → LRValue
  extends_cache_set : Nat → LRValue → World → World
  extends_cache_get_super : Nat → World → Option (LRValue × LRValue)
  extends_cache_set_super : Nat → LRValue → LRValue → World → World
  lr_get_property_str : LRValue → String → Expr World
  lr_set_property_str : LRValue → String → LRValue → Expr World
  /-- `lr_to_atom` and `lr_set_property`. -/
  lr_set_property_value : LRValue → LRValue → LRValue → Expr World
  gen_build_object : Option (Body World) → InterpScope → LRValue → World → LRValue × World
  /-- `lr_new_promise`, and its prototype from the global `Promise`. -/
  new_promise : Expr World
  lr_promise_reject_internal : LRValue → LRValue → Expr World
  lr_promise_resolve_internal : LRValue → LRValue → Expr World
  lr_new_string : String → World → LRValue × World
  gen_items_set : LRValue → Nat → LRValue → World → World
  callee : LRValue → World → Callee
  lr_call : LRValue → LRValue → List LRValue → Expr World
  unset : World → LRValue

end Functions

/-- A class or another node as `interp_call_function` sees it: without parameters and body. -/
def FunctionAst.node {World : Type} : FunctionAst World → FuncNode World
  | .func node => node
  | .cls node => ⟨.cls, none, node.line, false, false, [], none, false, node.extends⟩
  | .other => ⟨.cls, none, 0, false, false, [], none, false, none⟩

/-! ## Events -/

/-- Where code stands: whether it belongs to the generator that collects, and whether a call
relies on the control flow behind it. -/
structure Place where
  own : Bool
  exposed : Bool
deriving DecidableEq

inductive Event where
  | pushed (full : Bool)
  /-- A value is yielded; `own` if the code belongs to the generator that collects it. -/
  | appended (own : Bool)
  | evaluated (before behind : Bool)
  /-- A constructor has looked for the references of `super`. -/
  | resolved (found : Bool)
  /-- The parameters are bound: whether one of the bindings threw, and whether the body is one that
  begins without a look at `error_flag`. -/
  | bound (threw unchecked : Bool)
  | ran (exposed : Bool) (before behind : Flags)
  /-- The interpreter before and behind the call, whether an exception is uncaught in it, whether a
  binding of its parameters threw and whether its body was begun. -/
  | returned (before : Frame) (error : Bool) (behind : Frame) (error' : Bool)
      (uncaught threw executed : Bool)
deriving DecidableEq

abbrev Outcome (World : Type) := Course Event (LRValue × Interp World)

/-! ## Calls -/

def maxCallDepth : Nat := 4096

/-- `LR_MAX_CALL_STACK_DEPTH`. -/
def maxCallStackDepth : Nat := 1024

def Flags.start : Flags :=
  ⟨false, false, false, false, .undefined, none⟩

namespace Interp

variable {World : Type}

def callStackFull (s : Interp World) : Bool :=
  maxCallStackDepth ≤ s.call_stack.length

def lr_push_call_frame (frame : CallFrame) (s : Interp World) : Interp World :=
  if s.callStackFull then s else { s with call_stack := frame :: s.call_stack }

def lr_pop_call_frame (s : Interp World) : Interp World :=
  { s with call_stack := s.call_stack.tail }

def overflow (s : Interp World) : Interp World :=
  { s with error_message := "Maximum call stack size exceeded", error_flag := true }

def stopped (s : Interp World) : Bool :=
  s.flags.break_target || s.flags.continue_target || s.flags.has_returned || s.error_flag

def interp_push_scope (E : Engine World) (s : Interp World) : Interp World :=
  let made := E.scope_new s.current_scope s.world
  { s with current_scope := made.1 :: s.current_scope, world := made.2 }

def interp_pop_scope (E : Engine World) (s : Interp World) : Interp World :=
  match s.current_scope with
  | [] => s
  | id :: parents => { s with current_scope := parents, world := E.pop_scope id s.world }

def popTo (E : Engine World) (id : Nat) : InterpScope → World → World
  | [], world => world
  | top :: parents, world =>
    if top = id then world else popTo E id parents (E.pop_scope top world)

end Interp

structure Activation (World : Type) where
  interp : Interp World
  threw : Bool

namespace Activation

variable {World : Type}

def declare (E : Engine World) (id : Nat) (name : String) (value : LRValue)
    (a : Activation World) : Activation World :=
  { a with
    interp := { a.interp with
      world := E.scope_declare_name_direct id name value a.interp.world } }

end Activation

section Calls

variable {World : Type} (E : Engine World)
  (run : Place → Expr World → Interp World → Outcome World)
  (runStmt : Bool → Stmt World → Interp World → Outcome World)

def nested (outcome : Interp World → Outcome World) (a : Activation World) :
    Course Event (LRValue × Activation World) :=
  (outcome a.interp).andThen fun r =>
    .log (.evaluated a.interp.error_flag r.2.error_flag)
      (.done (r.1, ⟨r.2, a.threw || r.2.error_flag⟩))

def evaluate (place : Place) (code : Expr World) (a : Activation World) :
    Course Event (LRValue × Activation World) :=
  nested (run place code) a

/-- The value of the node behind `extends`, from the cache when it holds an object. -/
def extendsParent (place : Place) (ext : Extends World) (a : Activation World) :
    Course Event (LRValue × Activation World) :=
  let cached := E.extends_cache_get ext.node a.interp.world
  if cached.isObject then
    .done (cached, a)
  else
    (evaluate run place ext.code a).andThen fun r =>
      if r.2.interp.error_flag = false ∧ r.1.isObject then
        .done (r.1, { r.2 with
          interp := { r.2.interp with
            world := E.extends_cache_set ext.node r.1 r.2.interp.world } })
      else
        .done r

/-- The references of `super` for a method of a derived class. -/
def bindSuper (place : Place) (ext : Extends World) (id : Nat) (a : Activation World) :
    Course Event (Activation World) :=
  match E.extends_cache_get_super ext.node a.interp.world with
  | some (superctor, sproto) =>
    .done ((a.declare E id "%superctor%" superctor).declare E id "%superproto%" sproto)
  | none =>
    let cached := E.extends_cache_get ext.node a.interp.world
    (extendsParent E run place ext a).andThen fun r =>
    if cached.isObject ∨ r.1.isObject ∧ r.2.interp.error_flag = false then
      (evaluate run place (E.lr_get_property_str r.1 "prototype") r.2).andThen fun p =>
        let a := (p.2.declare E id "%superctor%" r.1).declare E id "%superproto%" p.1
        .done { a with
          interp := { a.interp with
            world := E.extends_cache_set_super ext.node r.1 p.1 a.interp.world } }
    else
      .done r.2

def bindMethodSuper (place : Place) (func : FuncNode World) (id : Nat) (a : Activation World) :
    Course Event (Activation World) :=
  match func.extends with
  | some ext => bindSuper E run place ext id a
  | none => .done a

def bindDefault (place : Place) (id : Nat) (target : Option String) (value : Expr World)
    (arg : LRValue) (a : Activation World) : Course Event (Activation World) :=
  match target with
  | none => .done a
  | some pname =>
    if arg = .undefined then
      (evaluate run place value a).andThen fun r => .done (r.2.declare E id pname r.1)
    else
      .done (a.declare E id pname arg)

def bindParams (place : Place) (id : Nat) :
    List (Param World) → List LRValue → Activation World → Course Event (Activation World)
  | [], _, a => .done a
  | .identifier pname :: params, args, a =>
    bindParams place id params args.tail (a.declare E id pname (args.headD .undefined))
  | .rest target :: _, args, a =>
    match target with
    | none => .done a
    | some pname =>
      let made := E.rest_array args a.interp.world
      .done (Activation.declare E id pname made.1
        { a with interp := { a.interp with world := made.2 } })
  | .defaultValue left right :: params, args, a =>
    (bindDefault E run place id left right (args.headD .undefined) a).andThen fun a =>
      bindParams place id params args.tail a
  | .pattern eval_pattern :: params, args, a =>
    (evaluate run place (eval_pattern (args.headD .undefined)) a).andThen fun r =>
      bindParams place id params args.tail r.2
  | .assign target value :: params, args, a =>
    (bindDefault E run place id target value (args.headD .undefined) a).andThen fun a =>
      bindParams place id params args.tail a
  | .other :: params, args, a => bindParams place id params args.tail a

/-- Bind `arguments` where the body refers to it. -/
def bindArguments (func : FuncNode World) (id : Nat) (args : List LRValue)
    (a : Activation World) : Activation World :=
  if func.kind ≠ .arrow ∧ func.body.isSome ∧ func.scans_arguments then
    let made := E.arguments_object args a.interp.world
    Activation.declare E id "arguments" made.1 { a with
      interp := { a.interp with world := made.2 } }
  else
    a

def startGenerator (func : FuncNode World) (s : Interp World) : Interp World :=
  if func.is_generator then
    let made := E.lr_new_array s.world
    { s with gen := ⟨true, made.1, 0⟩, world := made.2 }
  else
    s

def restoreGenerator (func : FuncNode World) (saved : GenState) (s : Interp World) :
    Interp World :=
  if func.is_generator then { s with gen := saved } else s

def FuncNode.executes {World : Type} (func : FuncNode World) (s : Interp World) : Bool :=
  match func.body with
  | none => false
  | some (.block _) => !func.is_generator && !s.stopped
  | some _ => !func.is_generator

/-- Only the statements of a block look at `error_flag` before the first of them, and the body of a
generator waits for `next`. -/
def FuncNode.unchecked {World : Type} (func : FuncNode World) : Bool :=
  match func.body with
  | none | some (.block _) => false
  | some _ => !func.is_generator

def runBody (body : Body World) (s : Interp World) : Outcome World :=
  match body with
  | .program code => runStmt false code s
  | .expression code => run ⟨false, false⟩ code s
  | .block code =>
    let pushed := s.interp_push_scope E
    if pushed.stopped then
      .done (.undefined, pushed.interp_pop_scope E)
    else
      (runStmt false code pushed).andThen fun r => .done (r.1, r.2.interp_pop_scope E)

def evalBody (func : FuncNode World) (s : Interp World) : Outcome World :=
  match func.body with
  | none => .done (.undefined, s)
  | some body =>
    if func.is_generator then .done (.undefined, s) else runBody E run runStmt body s

def bodyResult (func : FuncNode World) (value : LRValue) (s : Interp World) :
    LRValue × Interp World :=
  if func.is_generator then
    if s.error_flag then
      (.undefined, s)
    else
      let made := E.gen_build_object func.body s.current_scope s.gen.gen_items s.world
      (made.1, { s with world := made.2 })
  else
    (if s.flags.has_returned then s.flags.return_value else value, s)

def callBody (func : FuncNode World) (a : Activation World) : Outcome World :=
  .log (.bound a.threw func.unchecked) <|
  (evalBody E run runStmt func a.interp).andThen fun r => .done (bodyResult E func r.1 r.2)

def leaveCall (saved : Interp World) (id : Nat) (s : Interp World) : Interp World :=
  { s with
    current_scope := saved.current_scope
    depth := s.depth - 1
    -- `return_value` is assigned in any case
    flags := saved.flags
    error_flag := if s.error_flag then true else saved.error_flag
    world := E.scope_release id (Interp.popTo E id s.current_scope s.world) }

def callTooDeep (s : Interp World) : Outcome World :=
  .log (.returned s.toFrame s.error_flag s.overflow.toFrame s.overflow.error_flag true false false)
    (.done (.undefined, s.overflow))

/-- The parameters that `scope_new_inline` binds. -/
def Param.simple {World : Type} : Param World → Option String
  | .identifier name => some name
  | _ => none

/-- The scope of a function and its bindings, in `interp_bc_call_function`. -/
def bcBind (func : FuncNode World) (closure : Option InterpScope) (this : LRValue)
    (args : List LRValue) (s : Interp World) : Course Event (Nat × Activation World) :=
  let parent := closure.getD s.current_scope
  let has_args := func.kind ≠ .arrow ∧ func.body.isSome ∧ func.scans_arguments
  let names := func.params.filterMap Param.simple
  if func.extends.isNone ∧ ¬has_args ∧ 0 < func.params.length ∧
      names.length = func.params.length then
    let values := (List.range names.length).map fun i => args.getD i .undefined
    let made := E.scope_new_inline parent (("this", this) :: names.zip values) s.world
    .done (made.1, ⟨{ s with current_scope := made.1 :: parent, world := made.2 }, false⟩)
  else
    let made := E.scope_new parent s.world
    let a : Activation World :=
      ⟨{ s with current_scope := made.1 :: parent, world := made.2 }, false⟩
    let a := a.declare E made.1 "this" this
    (bindMethodSuper E run ⟨func.is_generator, false⟩ func made.1 a).andThen fun a =>
    (bindParams E run ⟨func.is_generator, false⟩ made.1 func.params args
      (bindArguments E func made.1 args a)).andThen fun a =>
    .done (made.1, a)

def interp_bc_call_function (func : FuncNode World) (closure : Option InterpScope)
    (this : LRValue) (args : List LRValue) (s : Interp World) : Outcome World :=
  if maxCallDepth ≤ s.depth then
    callTooDeep s
  else
    let entered := { s with depth := s.depth + 1, flags := .start, error_flag := false }
    (bcBind E run func closure this args (startGenerator E func entered)).andThen fun b =>
    (callBody E run runStmt func b.2).andThen fun r =>
    let left := restoreGenerator func s.gen (leaveCall E s b.1 r.2)
    .log (.returned s.toFrame s.error_flag left.toFrame left.error_flag
        (b.2.threw || r.2.error_flag) b.2.threw (func.executes b.2.interp)) <|
    .done (r.1, left)

def rejection (s : Interp World) : LRValue × World :=
  if s.exception_pending ∧ s.exception_value ≠ .exception ∧ s.exception_value ≠ .undefined then
    (s.exception_value, s.world)
  else
    E.lr_new_string s.error_message s.world

def wrapAsync (result : LRValue) (s : Interp World) : Outcome World :=
  (run ⟨false, false⟩ E.new_promise s).andThen fun p =>
  if p.2.error_flag then
    let reason := rejection E p.2
    (run ⟨false, false⟩ (E.lr_promise_reject_internal p.1 reason.1)
      { p.2 with world := reason.2 }).andThen fun r =>
    .done (p.1, { r.2 with
      error_flag := false
      exception_pending := false
      exception_value := if r.2.exception_pending then .undefined else r.2.exception_value
      error_message := "" })
  else
    (run ⟨false, false⟩ (E.lr_promise_resolve_internal p.1 result) p.2).andThen fun r =>
    .done (p.1, r.2)

def settle (func : FuncNode World) (result : LRValue) (s : Interp World) : Outcome World :=
  if func.is_async ∧ ¬func.is_generator then wrapAsync E run result s else .done (result, s)

/-- The scope of a function and its bindings, in `interp_call_function`: the references of
`super` come before the generator is set up. -/
def callBind (func : FuncNode World) (closure : Option InterpScope) (this : LRValue)
    (args : List LRValue) (s : Interp World) : Course Event (Nat × Activation World) :=
  let parent := closure.getD s.current_scope
  let made := E.scope_new parent s.world
  let a : Activation World :=
    ⟨{ s with current_scope := made.1 :: parent, world := made.2 }, false⟩
  let a := a.declare E made.1 "this" this
  (bindMethodSuper E run ⟨false, false⟩ func made.1 a).andThen fun a =>
  (bindParams E run ⟨func.is_generator, false⟩ made.1 func.params args
    (bindArguments E func made.1 args
      { a with interp := startGenerator E func a.interp })).andThen fun a =>
  .done (made.1, a)

def interp_call_function (func : FuncNode World) (this : LRValue) (args : List LRValue)
    (s : Interp World) : Outcome World :=
  let closure := s.pending_closure
  let s := { s with pending_closure := none }
  if maxCallDepth ≤ s.depth then
    callTooDeep s
  else
    .log (.pushed s.callStackFull) <|
    let deeper := { s with depth := s.depth + 1 }
    let framed := deeper.lr_push_call_frame ⟨func.name.getD "", func.line⟩
    let entered := { framed with
      flags := .start, break_label := "", continue_label := "", error_flag := false }
    (callBind E run func closure this args entered).andThen fun b =>
    (callBody E run runStmt func b.2).andThen fun r =>
    let plain := restoreGenerator func s.gen r.2
    (settle E run func r.1 plain).andThen fun w =>
    let left := leaveCall E s b.1 w.2
    let message := if w.2.error_flag = false ∧ s.error_flag then s.error_message
      else left.error_message
    let back := { left with error_message := message }.lr_pop_call_frame
    let uncaught := if func.is_async ∧ ¬func.is_generator then w.2.error_flag
      else b.2.threw || w.2.error_flag
    .log (.returned s.toFrame s.error_flag back.toFrame back.error_flag uncaught b.2.threw
        (func.executes b.2.interp)) <|
    .done (w.1, back)

/-! ## Classes -/

def findConstructor {World : Type} (cls : ClassNode World) : Option (FuncNode World) :=
  cls.methods.findSome? fun
    | .method (some "constructor") false false false func => some func
    | _ => none

def hasFields {World : Type} (cls : ClassNode World) : Bool :=
  cls.methods.any fun
    | .property false _ _ => true
    | _ => false

/-- `super(...args)` of a derived class without a constructor. -/
def implicitSuper (ext : Extends World) (this : LRValue) (args : List LRValue)
    (a : Activation World) : Course Event (Activation World) :=
  let cached := E.extends_cache_get ext.node a.interp.world
  (extendsParent E run ⟨false, true⟩ ext a).andThen fun r =>
  if cached.isObject ∨ r.1.isObject ∧ r.2.interp.error_flag = false then
    match E.callee r.1 r.2.interp.world with
    | .scripted extra def_scope =>
      (evaluate run ⟨false, true⟩ (.invoke (some extra) this args .done)
        { r.2 with interp := { r.2.interp with pending_closure := def_scope } }).andThen
          fun p => .done p.2
    | .native =>
      (evaluate run ⟨false, true⟩ (E.lr_call r.1 this args) r.2).andThen fun p => .done p.2
    | .other => .done r.2
  else
    .done r.2

/-- The references of `super`.  An exception of the node behind `extends` is dropped; the variables
keep what was in them then, and when the value is no object. -/
def superReferences (ext : Extends World) (a : Activation World) :
    Course Event ((LRValue × LRValue) × Activation World) :=
  match E.extends_cache_get_super ext.node a.interp.world with
  | some references => .log (.resolved true) (.done (references, a))
  | none =>
    (evaluate run ⟨false, true⟩ ext.code a).andThen fun r =>
    let unset := E.unset r.2.interp.world
    if r.2.interp.error_flag then
      .log (.resolved false) (.done ((unset, unset),
        { r.2 with interp := { r.2.interp with error_flag := false } }))
    else if r.1.isObject then
      (evaluate run ⟨false, true⟩ (E.lr_get_property_str r.1 "prototype") r.2).andThen fun p =>
      .log (.resolved true) (.done ((r.1, p.1), { p.2 with
        interp := { p.2.interp with
          world := E.extends_cache_set_super ext.node r.1 p.1 p.2.interp.world } }))
    else
      .log (.resolved false) (.done ((unset, unset), r.2))

def enterClass (cls : ClassNode World) (this : LRValue) (a : Activation World) :
    Course Event (Activation World) :=
  let declareThis (a : Activation World) : Activation World :=
    { a with interp := { a.interp with
        world := E.scope_declare_this this a.interp.current_scope a.interp.world } }
  let push (a : Activation World) : Activation World :=
    { a with interp := a.interp.interp_push_scope E }
  match cls.extends with
  | none => .done (declareThis (push a))
  | some ext =>
    (superReferences E run ext a).andThen fun r =>
    let a := push r.2
    let id := a.interp.current_scope.headD 0
    .done (declareThis
      ((a.declare E id "%superctor%" r.1.1).declare E id "%superproto%" r.1.2))

def setField (this : LRValue) (key : Option (FieldKey World)) (v : LRValue)
    (a : Activation World) : Course Event (Activation World) :=
  match key with
  | some (.identifier name) =>
    (evaluate run ⟨false, true⟩ (E.lr_set_property_str this name v) a).andThen fun r => .done r.2
  | some (.computed code) =>
    (evaluate run ⟨false, true⟩ code a).andThen fun k =>
    (evaluate run ⟨false, true⟩ (E.lr_set_property_value this k.1 v) k.2).andThen fun r =>
    .done r.2
  | none => .done a

def fieldValue (val : Option (Expr World)) (a : Activation World) :
    Course Event (LRValue × Activation World) :=
  match val with
  | some code => evaluate run ⟨false, true⟩ code a
  | none => .done (.undefined, a)

def initFields (this : LRValue) :
    List (Member World) → Activation World → Course Event (Activation World)
  | [], a => .done a
  | .property false key val :: members, a =>
    (fieldValue run val a).andThen fun r =>
    if r.2.interp.error_flag then
      .done r.2
    else
      (setField E run this key r.1 r.2).andThen fun a => initFields this members a
  | _ :: members, a => initFields this members a

def returnFrom (before : Interp World) (value : LRValue) (a : Activation World) :
    Outcome World :=
  .log (.returned before.toFrame before.error_flag a.interp.toFrame a.interp.error_flag a.threw
    false false) (.done (value, a.interp))

/-- The part behind the implicit `super`. -/
def constructClass (cls : ClassNode World) (closure : Option InterpScope) (this : LRValue)
    (args : List LRValue) (a : Activation World) :
    Course Event (LRValue × Activation World) :=
  let pop (a : Activation World) : Activation World :=
    { a with interp := a.interp.interp_pop_scope E }
  match findConstructor cls with
  | some ctor =>
    (enterClass E run cls this a).andThen fun a =>
    (initFields E run this cls.methods a).andThen fun a =>
    if hasFields cls ∧ a.interp.error_flag then
      .done (.undefined, pop a)
    else
      (nested (interp_call_function E run runStmt ctor this args) { a with
        interp := { a.interp with pending_closure := closure } }).andThen fun r =>
      .done (r.1, pop r.2)
  | none =>
    if hasFields cls then
      (enterClass E run cls this a).andThen fun a =>
      (initFields E run this cls.methods a).andThen fun a => .done (.undefined, pop a)
    else
      .done (.undefined, a)

def interp_call_class_function (cls : ClassNode World) (this : LRValue) (args : List LRValue)
    (s : Interp World) : Outcome World :=
  let cls_closure := s.pending_closure
  let a : Activation World := ⟨{ s with pending_closure := none }, false⟩
  match findConstructor cls, cls.extends with
  | none, some ext =>
    (implicitSuper E run ext this args a).andThen fun a =>
    if a.interp.error_flag then
      returnFrom s .undefined a
    else
      (constructClass E run runStmt cls cls_closure this args a).andThen fun r =>
      returnFrom s r.1 r.2
  | _, _ =>
    (constructClass E run runStmt cls cls_closure this args a).andThen fun r =>
    returnFrom s r.1 r.2

def interp_invoke_function_ast (ast : Option Nat) (this : LRValue) (args : List LRValue)
    (s : Interp World) : Outcome World :=
  match ast.map E.functions with
  | some (.cls node) => interp_call_class_function E run runStmt node this args s
  | some (.func node) => interp_call_function E run runStmt node this args s
  | _ => .done (.undefined, { s with pending_closure := none })

end Calls

/-! ## Running -/

section Running

variable {World : Type}

def enterGenerator (scope : Option InterpScope) (items : LRValue) (count : Nat)
    (s : Interp World) : Interp World :=
  { s with
    current_scope := scope.getD s.current_scope
    gen := ⟨true, items, count⟩
    flags := { s.flags with has_returned := false } }

def leaveGenerator (before s : Interp World) : Interp World :=
  { s with
    current_scope := before.current_scope
    gen := before.gen
    flags := { s.flags with has_returned := before.flags.has_returned }
    error_flag := false }

/-- `lr_eval_sandbox_enter` and the scope of a unit. -/
def enterUnit (sandboxed : Bool) (scope : Option InterpScope) (s : Interp World) :
    Interp World :=
  { s with
    current_scope := scope.getD s.current_scope
    flags := if sandboxed then
        { s.flags with
          break_target := false, continue_target := false, return_target := false,
          has_returned := false }
      else s.flags }

def leaveUnit (sandboxed : Bool) (before s : Interp World) : Interp World :=
  { s with
    current_scope := before.current_scope
    flags := if sandboxed then
        { s.flags with
          break_target := before.flags.break_target
          continue_target := before.flags.continue_target
          return_target := before.flags.return_target
          has_returned := before.flags.has_returned }
      else s.flags }

mutual

/-- Run the code of an expression; `place` says where it stands. -/
def exec (E : Engine World) : Nat → Place → Expr World → Interp World → Outcome World
  | 0, _, _, _ => .diverge
  | _ + 1, _, .done value, s => .done (value, s)
  | fuel + 1, place, .look next, s => exec E fuel place (next s) s
  | fuel + 1, place, .change rest next, s => exec E fuel place next { s with toOpen := rest }
  | fuel + 1, place, .invoke ast this args next, s =>
    (interp_invoke_function_ast E (exec E fuel) (execStmt E fuel) ast this args s).andThen
      fun r => exec E fuel place (next r.1) r.2
  | fuel + 1, place, .call ast this args next, s =>
    (interp_call_function E (exec E fuel) (execStmt E fuel) (E.functions ast).node this args
      s).andThen fun r => exec E fuel place (next r.1) r.2
  | fuel + 1, place, .bcCall ast closure this args next, s =>
    (interp_bc_call_function E (exec E fuel) (execStmt E fuel) (E.functions ast).node closure
      this args s).andThen fun r => exec E fuel place (next r.1) r.2
  | fuel + 1, place, .guarded code next, s =>
    if maxCallDepth ≤ s.depth then
      exec E fuel place (next .undefined) s.overflow
    else
      (exec E fuel place code { s with depth := s.depth + 1 }).andThen fun r =>
        exec E fuel place (next r.1) { r.2 with depth := r.2.depth - 1 }
  | fuel + 1, place, .framed frame code next, s =>
    .log (.pushed s.callStackFull) <|
    (exec E fuel place code (s.lr_push_call_frame frame)).andThen fun r =>
      exec E fuel place (next r.1) r.2.lr_pop_call_frame
  | fuel + 1, place, .inScope code next, s =>
    (exec E fuel place code (s.interp_push_scope E)).andThen fun r =>
      exec E fuel place (next r.1) (r.2.interp_pop_scope E)
  | fuel + 1, place, .append value next, s =>
    .log (.appended place.own) <|
    exec E fuel place next { s with
      gen := { s.gen with gen_count := s.gen.gen_count + 1 }
      world := E.gen_items_set s.gen.gen_items s.gen.gen_count value s.world }
  | fuel + 1, place, .resume scope items count body store next, s =>
    (execStmt E fuel true body (enterGenerator scope items count s)).andThen fun r =>
      let ret := if r.2.flags.has_returned then r.2.flags.return_value else r.1
      let left := leaveGenerator s { r.2 with toOpen := store ret r.2 }
      .log (.ran place.exposed s.flags left.flags) (exec E fuel place next left)
  | fuel + 1, place, .unit sandboxed scope body next, s =>
    (execStmt E fuel place.own body (enterUnit sandboxed scope s)).andThen fun r =>
      let left := leaveUnit sandboxed s r.2
      .log (.ran place.exposed s.flags left.flags) (exec E fuel place (next r.1) left)

def execStmt (E : Engine World) : Nat → Bool → Stmt World → Interp World → Outcome World
  | 0, _, _, _ => .diverge
  | _ + 1, _, .done value, s => .done (value, s)
  | fuel + 1, own, .look next, s => execStmt E fuel own (next s) s
  | fuel + 1, own, .change rest next, s => execStmt E fuel own next { s with toOpen := rest }
  | fuel + 1, own, .control flags next, s => execStmt E fuel own next { s with flags := flags }
  | fuel + 1, own, .scope chain next, s =>
    execStmt E fuel own next { s with current_scope := chain }
  | fuel + 1, own, .eval code next, s =>
    (exec E fuel ⟨own, false⟩ code s).andThen fun r => execStmt E fuel own (next r.1) r.2

end

end Running

end LRJS.CallFrames
