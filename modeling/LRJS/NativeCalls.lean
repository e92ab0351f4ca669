import LRJS.Objects

/-!
# Native calls

Native functions find their private data through `ctx->current_func`, a cell
that every call site sets before a native body runs and resets to undefined
behind it.  Scripted code never reads the cell.  A run leaves a trace of the
bodies that were entered and of what they read.
-/

namespace LRJS.NativeCalls

/-- The ways to call a function object; `vmCall` is `BC_CALL` of the VM. -/
inductive Site where
  | lrCall | lrCallDirect | lrCallConstructor | lrCallConstructorDirect | vmCall
deriving DecidableEq, Repr

/-- Code that does not read the cell: it looks at the rest of the state, changes it, calls
function objects and answers a value. -/
inductive Prog (World : Type) where
  | ret (result : LRValue)
  | inspect (next : World → Prog World)
  | update (world : World) (next : Prog World)
  | call (site : Site) (func this : LRValue) (args : List LRValue) (next : LRValue → Prog World)

/-- The body of a native function; `reads` is a read of `ctx->current_func`. -/
inductive NativeBody (World : Type) where
  | plain (code : Prog World)
  | reads (next : LRValue → NativeBody World)
  | after (code : Prog World) (next : LRValue → NativeBody World)

structure BoundFunctionData where
  target : LRValue
  boundThis : LRValue
  args : List LRValue
deriving DecidableEq

structure PromiseAllData where
  remaining : Int
  total : Int
  resultArr : LRValue
  rejectFn : LRValue
  rejected : Bool

/-- The `opaque` pointer of an object, or the data and magic of a native function. -/
inductive PrivateData where
  | none
  | bound (data : BoundFunctionData)
  | promiseAll (data : Nat) (magic : Nat)
  | directory (path : String)

inductive NativeCode (World : Type) where
  | boundFunctionCall
  | functionProtoBind
  | promiseAllFulfill
  | promiseAllReject
  | importMetaResolve
  | other (body : LRValue → List LRValue → NativeBody World)

/-- A proxy has its handler and its target, until it has lost its data; the flag says whether its
target is a function. -/
inductive CallKind (World : Type) where
  | native (code : NativeCode World) (data : PrivateData)
  | scripted (body : LRValue → List LRValue → Prog World)
  | proxy (handlerAndTarget : World → Option (LRValue × LRValue)) (callable : Bool)
  | ordinary (data : PrivateData)

namespace Prog

variable {World : Type}

def bind : Prog World → (LRValue → Prog World) → Prog World
  | ret result, next => next result
  | inspect look, next => inspect fun world => (look world).bind next
  | update world rest, next => update world (rest.bind next)
  | call site func this args rest, next => call site func this args fun r => (rest r).bind next

def change (step : World → LRValue × World) (next : LRValue → Prog World) : Prog World :=
  inspect fun world => update (step world).2 (next (step world).1)

end Prog

/-- The engine around the calls.  An address stands for one object; property operations and
conversions may run code. -/
structure Engine (World : Type) where
  objects : Addr → CallKind World
  globalObject : LRValue
  getProperty : LRValue → Name → Prog World
  getPropertyDirect : LRValue → Name → Prog World
  setProperty : LRValue → Name → LRValue → Prog World
  setPropertyUint32 : LRValue → Nat → LRValue → Prog World
  toInt32 : LRValue → Prog World
  toCString : LRValue → Prog World
  throwTypeError : String → World → World
  newObject : World → LRValue × World
  newArray : List LRValue → World → LRValue × World
  setPrototype : LRValue → LRValue → World → World
  promiseAll : Nat → World → PromiseAllData
  setPromiseAll : Nat → PromiseAllData → World → World
  newBound : BoundFunctionData → Int → World → LRValue × World
  newBound_native : ∀ data length world ptr, (newBound data length world).1 = .object ptr →
    objects ptr = .native .boundFunctionCall (.bound data)
  /-- What a buffer of `char` holds of a text. -/
  clip : Nat → String → String
  bytesOf : PrivateData → String

namespace Engine

variable {World : Type} (engine : Engine World)

def dataOf : LRValue → PrivateData
  | .object ptr =>
    match engine.objects ptr with
    | .native _ data => data
    | .ordinary data => data
    | _ => .none
  | _ => .none

/-- `lr_is_function`. -/
def isFunction : LRValue → Bool
  | .object ptr =>
    match engine.objects ptr with
    | .native _ _ => true
    | .scripted _ => true
    | .proxy _ callable => callable
    | .ordinary _ => false
  | _ => false

def throws (message : String) : Prog World :=
  .inspect fun world => .update (engine.throwTypeError message world) (.ret .exception)

def js_bound_function_call (args : List LRValue) : NativeBody World :=
  .reads fun func => .plain <|
    match engine.dataOf func with
    | .bound data => .call .lrCall data.target data.boundThis (data.args ++ args) .ret
    | _ => engine.throws "Bound function has no data"

def boundLength (targetLength : LRValue) (args : List LRValue) : Int :=
  match targetLength with
  | .int32 n => max 0 (n - args.tail.length)
  | _ => 0

/-- `js_function_proto_bind`; the lookups on the target may run its accessors. -/
def js_function_proto_bind (this : LRValue) (args : List LRValue) : Prog World :=
  if engine.isFunction this then
    (engine.getProperty this "length").bind fun length =>
    (if length = .undefined then .ret (.int32 0) else engine.toInt32 length).bind fun length =>
    .change (engine.newBound ⟨this, args.headD .undefined, args.tail⟩
      (boundLength length args)) fun bound =>
    (engine.getProperty this "prototype").bind fun proto =>
    (if proto = .undefined then .ret .undefined
      else engine.setProperty bound "prototype" proto).bind fun _ =>
    (engine.getProperty this "name").bind fun name =>
    (engine.toCString name).bind fun text =>
    (match text with
      | .string s => engine.setProperty bound "name" (.string (engine.clip 256 ("bound " ++ s)))
      | _ => .ret .undefined).bind fun _ =>
    .ret bound
  else
    engine.throws "Function.prototype.bind called on non-function"

def promise_all_fulfill (args : List LRValue) : NativeBody World :=
  .reads fun func => .plain <|
    match engine.dataOf func with
    | .promiseAll ptr index =>
      .inspect fun world =>
        let pd := engine.promiseAll ptr world
        if pd.rejected then
          .ret .undefined
        else
          (engine.setPropertyUint32 pd.resultArr index (args.headD .undefined)).bind fun _ =>
          .inspect fun world =>
            let pd := engine.promiseAll ptr world
            let pd := { pd with remaining := pd.remaining - 1 }
            .update (engine.setPromiseAll ptr pd world) <|
            if pd.remaining ≤ 0 then
              (engine.setProperty pd.resultArr "length" (.int32 pd.total)).bind fun _ =>
              (engine.getProperty func "_resolve").bind fun resolve =>
              .call .lrCall resolve .undefined [pd.resultArr] fun _ => .ret .undefined
            else
              .ret .undefined
    | _ => .ret .undefined

def promise_all_reject (args : List LRValue) : NativeBody World :=
  .reads fun func => .plain <|
    match engine.dataOf func with
    | .promiseAll ptr _ =>
      .inspect fun world =>
        let pd := engine.promiseAll ptr world
        if pd.rejected then
          .ret .undefined
        else
          .update (engine.setPromiseAll ptr { pd with rejected := true } world) <|
          .call .lrCall pd.rejectFn .undefined [args.headD .undefined] fun _ => .ret .undefined
    | _ => .ret .undefined

def directoryOf (value : LRValue) : Option String :=
  match engine.dataOf value with
  | .none => none
  | .directory path => some path
  | data => some (engine.bytesOf data)

def resolveSpecifier (args : List LRValue) (base : Option String) : Prog World :=
  let resolve (text : LRValue) : Prog World :=
    let spec := match text with
      | .string s => s
      | _ => ""
    if "./".isPrefixOf spec ∨ "../".isPrefixOf spec then
      .ret (.string (engine.clip 4096 (base.getD "." ++ "/" ++ spec)))
    else
      .ret (.string (engine.clip 4096 spec))
  match args with
  | [] => resolve (.string "")
  | first :: _ => (engine.toCString first).bind resolve

/-- `import_meta_resolve_cfunc`: the cell is the fallback behind a lookup on `this`. -/
def import_meta_resolve_cfunc (this : LRValue) (args : List LRValue) : NativeBody World :=
  let fallback : NativeBody World :=
    .reads fun func => .plain (engine.resolveSpecifier args (engine.directoryOf func))
  if this.isObject then
    .after (engine.getProperty this "resolve") fun resolve =>
      match engine.directoryOf resolve with
      | some path => .plain (engine.resolveSpecifier args (some path))
      | none => fallback
  else
    fallback

/-- `cf->func(ctx, this_val, argc, argv)`. -/
def body (this : LRValue) (args : List LRValue) : NativeCode World → NativeBody World
  | .boundFunctionCall => engine.js_bound_function_call args
  | .functionProtoBind => .plain (engine.js_function_proto_bind this args)
  | .promiseAllFulfill => engine.promise_all_fulfill args
  | .promiseAllReject => engine.promise_all_reject args
  | .importMetaResolve => engine.import_meta_resolve_cfunc this args
  | .other code => code this args

/-- A call site runs code of its own, or the body of the function between some preparation, which
finds `this`, and a choice of the result.  The body of a native function always runs with the cell
set, a scripted one only when it is constructed. -/
inductive Invocation (World : Type) where
  | glue (code : Prog World)
  | native (before : Prog World) (body : LRValue → NativeBody World)
      (result : LRValue → LRValue → LRValue)
  | scripted (cell : Bool) (before : Prog World) (body : LRValue → Prog World)
      (result : LRValue → LRValue → LRValue)

def constructed (newObj result : LRValue) : LRValue :=
  if result = .exception ∨ result.isObject then result else newObj

def createNative (func : LRValue) : Prog World :=
  .change engine.newObject fun newObj =>
  (engine.getProperty func "prototype").bind fun proto =>
  if proto.isObject then
    .inspect fun world => .update (engine.setPrototype newObj proto world) (.ret newObj)
  else
    .ret newObj

def newPrototype (func : LRValue) : Prog World :=
  .change engine.newObject fun proto =>
  (engine.setProperty proto "constructor" func).bind fun _ =>
  (engine.setProperty func "prototype" proto).bind fun _ => .ret proto

def createScripted (func : LRValue) : Prog World :=
  (engine.getProperty func "prototype").bind fun proto =>
  (if proto.isObject then .ret proto else engine.newPrototype func).bind fun proto =>
  .change engine.newObject fun newObj =>
  .inspect fun world => .update (engine.setPrototype newObj proto world) (.ret newObj)

def proxyCall (read : World → Option (LRValue × LRValue)) (trap : Name)
    (trapArgs : LRValue → LRValue → List LRValue) (args : List LRValue)
    (direct : Site) (this : LRValue) : Prog World :=
  .inspect fun world =>
    match read world with
    | none => .ret .exception
    | some (handler, target) =>
      (engine.getPropertyDirect handler trap).bind fun trap =>
      if engine.isFunction trap then
        .change (engine.newArray args) fun argsArr =>
        .call .lrCallDirect trap handler (trapArgs target argsArr) .ret
      else
        .call direct target this args .ret

/-- `lr_call`, `lr_call_direct`, `lr_call_constructor`, `lr_call_constructor_direct` and the
native path of `BC_CALL`. -/
def invocation (site : Site) (func this : LRValue) (args : List LRValue) : Invocation World :=
  match func with
  | .object ptr =>
    match engine.objects ptr, site with
    | .native code _, .lrCall | .native code _, .lrCallDirect =>
      .native (.ret this) (fun this => engine.body this args code) fun _ result => result
    | .native code _, .vmCall =>
      .native (.ret (if this = .undefined then engine.globalObject else this))
        (fun this => engine.body this args code) fun _ result => result
    | .native code _, .lrCallConstructor =>
      .native (engine.createNative func) (fun this => engine.body this args code) constructed
    | .native code _, .lrCallConstructorDirect =>
      .native (.ret func) (fun this => engine.body this args code) fun _ result => result
    | .scripted body, .lrCallConstructor =>
      .scripted true (engine.createScripted func) (fun this => body this args) constructed
    | .scripted _, .lrCallConstructorDirect => .glue (.ret .undefined)
    | .scripted body, _ =>
      .scripted false (.ret this) (fun this => body this args) fun _ result => result
    | .proxy read _, .lrCall | .proxy read _, .vmCall =>
      .glue (engine.proxyCall read "apply" (fun target arr => [target, this, arr]) args
        .lrCallDirect this)
    | .proxy read _, .lrCallConstructor =>
      .glue (engine.proxyCall read "construct" (fun target arr => [target, arr, func]) args
        .lrCallConstructorDirect .undefined)
    | _, _ => .glue (.ret .undefined)
  | _ => .glue (.ret .exception)

end Engine

/-- What was entered and read.  `called cell func inner rest` is a body of `func`; `cell` says that
the call site set the cell. -/
inductive Trace where
  | done
  | read (value : LRValue) (rest : Trace)
  | called (cell : Bool) (func : LRValue) (inner rest : Trace)

def Trace.append : Trace → Trace → Trace
  | .done, later => later
  | .read value rest, later => .read value (rest.append later)
  | .called cell func inner rest, later => .called cell func inner (rest.append later)

/-- `LRContext`: the cell and the rest of the state. -/
structure Context (World : Type) where
  currentFunc : LRValue
  world : World

abbrev Outcome (World : Type) :=
  Trace × Option (LRValue × Context World)

section Run

variable {World : Type}

def Outcome.andThen (outcome : Outcome World)
    (next : LRValue → Context World → Outcome World) : Outcome World :=
  match outcome.2 with
  | none => (outcome.1, none)
  | some (result, ctx) =>
    (outcome.1.append (next result ctx).1, (next result ctx).2)

def Outcome.close (outcome : Outcome World) (cell : Bool) (func : LRValue)
    (result : LRValue → LRValue) : Outcome World :=
  (.called cell func outcome.1 .done, outcome.2.map fun (value, ctx) =>
    (result value, if cell then { ctx with currentFunc := .undefined } else ctx))

mutual

def exec (engine : Engine World) : Nat → Context World → Prog World → Outcome World
  | 0, _, _ => (.done, none)
  | _ + 1, ctx, .ret result => (.done, some (result, ctx))
  | fuel + 1, ctx, .inspect next => exec engine fuel ctx (next ctx.world)
  | fuel + 1, ctx, .update world next => exec engine fuel { ctx with world := world } next
  | fuel + 1, ctx, .call site func this args next =>
    (invoke engine fuel ctx func (engine.invocation site func this args)).andThen
      fun result ctx => exec engine fuel ctx (next result)

def invoke (engine : Engine World) :
    Nat → Context World → LRValue → Engine.Invocation World → Outcome World
  | 0, _, _, _ => (.done, none)
  | fuel + 1, ctx, _, .glue code => exec engine fuel ctx code
  | fuel + 1, ctx, func, .native before body result =>
    (exec engine fuel ctx before).andThen fun this ctx =>
      Outcome.close (execNative engine fuel { ctx with currentFunc := func } (body this))
        true func (result this)
  | fuel + 1, ctx, func, .scripted cell before body result =>
    (exec engine fuel ctx before).andThen fun this ctx =>
      Outcome.close (exec engine fuel
        (if cell then { ctx with currentFunc := func } else ctx) (body this))
        cell func (result this)

def execNative (engine : Engine World) :
    Nat → Context World → NativeBody World → Outcome World
  | 0, _, _ => (.done, none)
  | fuel + 1, ctx, .plain code => exec engine fuel ctx code
  | fuel + 1, ctx, .reads next =>
    let outcome := execNative engine fuel ctx (next ctx.currentFunc)
    (.read ctx.currentFunc outcome.1, outcome.2)
  | fuel + 1, ctx, .after code next =>
    (exec engine fuel ctx code).andThen fun result ctx => execNative engine fuel ctx (next result)

end

end Run

end LRJS.NativeCalls
