import LRJS.Library.Monitored
import LRJS.TreeWalker

/-!
# Completions

The evaluation of a tree to a completion, without flags: it runs on the same host as the
tree-walker, and says of each statement how it ends.

While it runs it takes notes of the situations that the tree-walker's flags cannot tell apart, or
loses: the hazards.  A note changes nothing of the run.
-/

namespace LRJS
namespace TreeWalker

/-- How an evaluation ends.  `returning` says that the error came out of the operand of a
`return` of this activation. -/
inductive Completion (V : Type) where
  | normal (value : V)
  | break (label : Option Name) (value : V)
  | continue (label : Option Name) (value : V)
  | return (value : V)
  | throw (raised : Raised V) (returning : Bool)
deriving DecidableEq, Repr

inductive Hazard where
  /-- A catch clause takes an error that came out of the operand of a `return`. -/
  | returnInterrupted
  | catchThrew
  | finallyAfterJump
  | jumpOverReturn
  | throwOverReturn
  /-- `continue` leaves a `switch` that has statements after it. -/
  | continueInSwitch
  /-- `continue` names a label of a loop that is not its innermost one. -/
  | outerLabel
  | longLabel
  | generatorThrew
  /-- A read that a `for-in`, `for-of` or `with` makes itself ends with an error. -/
  | readThrew
  /-- A catch clause with a variable takes the error of a C function. -/
  | nativeCaught
deriving DecidableEq, Repr

/-- The nodes that are evaluated statement by statement; the others are expressions and
declarations. -/
def isControl : ASTNode → Bool
  | .debugger | .program .. | .block .. | .exprStmt .. | .ifStmt .. | .forStmt ..
  | .whileStmt .. | .doWhile .. | .forIn .. | .forOf .. | .switchStmt .. | .breakStmt ..
  | .continueStmt .. | .returnStmt .. | .throwStmt .. | .tryStmt .. | .labelStmt ..
  | .withStmt .. => true
  | _ => false

variable {V W : Type}

namespace Completion

def isThrow : Completion V → Bool
  | .throw .. => true
  | _ => false

def isReturn : Completion V → Bool
  | .return .. => true
  | _ => false

def isJump : Completion V → Bool
  | .break .. | .continue .. => true
  | _ => false

def isNormal : Completion V → Bool
  | .normal .. => true
  | _ => false

def value (undefined : V) : Completion V → V
  | .normal value | .break _ value | .continue _ value => value
  | .return _ | .throw .. => undefined

/-- The end of a statement whose finally clause was reached by the first completion and ended
with the second. -/
def override (undefined : V) (before : Completion V) : Completion V → Completion V
  | .normal _ => before
  | .break label _ => .break label (before.value undefined)
  | .continue label _ => .continue label (before.value undefined)
  | last => last

def ofBody : Completion V → Completion V
  | .return value => .normal value
  | .throw raised _ => .throw raised false
  | completion => completion

end Completion

abbrev Ending (V W : Type) := Completion V × W

abbrev Noted : Type → Type := Monitored Hazard

abbrev Meaning (V W : Type) := List Name → ASTNode → W → Noted (Ending V W)

section Statements

variable (host : Host V W) (ref : Meaning V W)

def refOperand (node : ASTNode) (world : W)
    (next : V → W → Noted (Ending V W)) : Noted (Ending V W) :=
  if isControl node then
    .stuck
  else do
    let (completion, world) ← ref [] node world
    match completion with
    | .normal value => next value world
    | completion => return (completion, world)

def refBody (body : ASTNode) (world : W) : Noted (Ending V W) := do
  let (completion, world) ← ref [] body world
  if completion.isJump then
    .stuck
  else
    return (completion, world)

def refProg : Prog V W → Noted (Ending V W)
  | .ret value world => return (.normal value, world)
  | .raise raised world => return (.throw raised false, world)
  | .operand node world next =>
    refOperand ref node world fun value world => refProg (next value world)
  | .call body world leave next => do
      let (completion, world) ← refBody ref body world
      match completion.ofBody with
      | .normal value => refProg (next value (leave world))
      | completion => return (completion, leave world)
  | .resume body world leave next => do
      let (completion, world) ← refBody ref body world
      Monitored.note completion.isThrow .generatorThrew
      match completion.ofBody with
      | .normal value => refProg (next value (leave world))
      | completion => return (completion, leave world)

/-- A read, behind which no error is looked at. -/
def refRead (prog : Prog V W) (next : V → W → Noted (Ending V W)) : Noted (Ending V W) := do
  let (completion, world) ← refProg ref prog
  Monitored.note completion.isThrow .readThrew
  match completion with
  | .normal value => next value world
  | completion => return (completion, world)

def refItems : List ASTNode → V → W → Noted (Ending V W)
  | [], result, world => return (.normal result, world)
  | item :: items, _, world => do
      let (completion, world) ← ref [] item world
      match completion with
      | .normal value => refItems items value world
      | completion => return (completion, world)

def refProgram (items : List ASTNode) (world : W) : Noted (Ending V W) := do
  let (completion, world) ← refItems ref items host.undefined world
  if completion.isJump then
    .stuck
  else
    return (completion, world)

def refBlock (items : List ASTNode) (world : W) : Noted (Ending V W) := do
  let (completion, world) ← refItems ref items host.undefined (host.push_scope world)
  return (completion, host.pop_scope world)

def refIf (cond body elseBody : ASTNode) (world : W) : Noted (Ending V W) :=
  refOperand ref cond world fun value world =>
    if host.toBool value then ref [] body world else ref [] elseBody world

def refDeclare (obj : V) : List Name → W → (W → Noted (Ending V W)) → Noted (Ending V W)
  | [], world, next => next world
  | name :: names, world, next =>
    refRead ref (host.get_property obj name world) fun value world =>
      refDeclare obj names (host.declare_name name value world) next

def refWith (obj body : ASTNode) (world : W) : Noted (Ending V W) :=
  refOperand ref obj world fun obj world =>
    if host.isObject obj then do
      let (completion, world) ←
        refRead ref (host.own_property_names obj (host.push_scope world)) fun _ world =>
          refDeclare host ref obj (host.listed world) world fun world => ref [] body world
      return (completion, host.pop_scope world)
    else
      return (.throw (.engine "with statement requires an object") false, world)

def loopStep (labels : List Name) : Completion V → Noted (V ⊕ Completion V)
  | .normal value => return .inl value
  | .break none value => return .inr (.normal value)
  | .continue none value => return .inl value
  | .continue (some label) value => do
      if label ∈ labels then
        Monitored.note (labels.head? ≠ some label) .outerLabel
        return .inl value
      else
        return .inr (.continue (some label) value)
  | completion => return .inr completion

def refForTest (test : ASTNode) (world : W) (result : V)
    (next : W → Noted (Ending V W)) : Noted (Ending V W) :=
  match test with
  | .null => next world
  | test => refOperand ref test world fun value world =>
    if host.toBool value then next world else return (.normal result, world)

def refForTurns (test update body : ASTNode) (labels : List Name) :
    Nat → V → W → Noted (Ending V W)
  | 0, _, _ => .stuck
  | turns + 1, result, world =>
    refForTest host ref test world result fun world => do
      let (completion, world) ← ref [] body world
      match ← loopStep labels completion with
      | .inr completion => return (completion, world)
      | .inl value =>
        refOperand ref update world fun _ world =>
          refForTurns test update body labels turns value world

def refWhileTurns (cond body : ASTNode) (labels : List Name) :
    Nat → V → W → Noted (Ending V W)
  | 0, _, _ => .stuck
  | turns + 1, result, world =>
    refOperand ref cond world fun value world =>
      if host.toBool value then do
        let (completion, world) ← ref [] body world
        match ← loopStep labels completion with
        | .inr completion => return (completion, world)
        | .inl value => refWhileTurns cond body labels turns value world
      else
        return (.normal result, world)

def refDoWhileTurns (cond body : ASTNode) (labels : List Name) :
    Nat → W → Noted (Ending V W)
  | 0, _ => .stuck
  | turns + 1, world => do
      let (completion, world) ← ref [] body world
      match ← loopStep labels completion with
      | .inr completion => return (completion, world)
      | .inl result =>
        refOperand ref cond world fun value world =>
          if host.toBool value then
            refDoWhileTurns cond body labels turns world
          else
            return (.normal result, world)

/-- A declaration in the head of a `for`, or an expression. -/
def refFor (turns : Nat) (init test update body : ASTNode) (labels : List Name) (world : W) :
    Noted (Ending V W) := do
  let (completion, world) ← refOperand ref init (host.push_scope world) fun _ world =>
    refForTurns host ref test update body labels turns host.undefined world
  return (completion, host.pop_scope world)

/-- The loop of `for-in` and `for-of`; `next` has the items of the source. -/
def refItemTurns (assign : V → W → Prog V W) (body : ASTNode) (labels : List Name)
    (next : Nat → W → (Option V → W → Noted (Ending V W)) →
      Noted (Ending V W)) :
    Nat → Nat → V → W → Noted (Ending V W)
  | 0, _, _, _ => .stuck
  | turns + 1, i, result, world =>
    next i world fun item world =>
      match item with
      | none => return (.normal result, world)
      | some item => do
          let (assigned, world) ← refProg ref (assign item world)
          match assigned with
          | .normal _ => do
              let (completion, world) ← ref [] body world
              match ← loopStep labels completion with
              | .inr completion => return (completion, world)
              | .inl value =>
                refItemTurns assign body labels next turns (i + 1) value world
          | completion => return (completion, world)

def refNextName (names : List V) (i : Nat) (world : W)
    (next : Option V → W → Noted (Ending V W)) : Noted (Ending V W) :=
  next names[i]? world

def refForIn (turns : Nat) (each source body : ASTNode) (labels : List Name) (world : W) :
    Noted (Ending V W) :=
  refOperand ref source world fun source world =>
    refRead ref (host.own_property_names source world) fun _ world => do
      let names := (host.listed world).map host.string
      let (completion, world) ← refItemTurns ref (host.for_in_assign_var each) body labels
        (refNextName names) turns 0 host.undefined (host.push_scope world)
      return (completion, host.pop_scope world)

def refNextItem (count : Nat) (item : Nat → W → Prog V W) (i : Nat) (world : W)
    (next : Option V → W → Noted (Ending V W)) : Noted (Ending V W) :=
  if i < count then
    refRead ref (item i world) fun value world => next (some value) world
  else
    next none world

def refNextResult (iter next_fn : V) (_ : Nat) (world : W)
    (continuation : Option V → W → Noted (Ending V W)) :
    Noted (Ending V W) := do
  let (completion, world) ← refProg ref (host.call next_fn iter world)
  match completion with
  | .normal nr =>
    refRead ref (host.get_property nr "done" world) fun done world =>
      if host.toBool done then
        continuation none world
      else
        refRead ref (host.get_property nr "value" world) fun value world =>
          continuation (some value) world
  | completion => return (completion, world)

/-- The loop of `for-of`, by the kind of its source. -/
def refIteration (loop : (Nat → W → (Option V → W → Noted (Ending V W)) → Noted (Ending V W)) →
    W → Noted (Ending V W)) (source : V) (world : W) : Iteration V W → Noted (Ending V W)
  | .items count item => loop (refNextItem ref count item) world
  | .object =>
    refRead ref (host.get_property source "Symbol.iterator" world) fun iter_fn world =>
      if host.is_function iter_fn then do
        let (completion, world) ← refProg ref (host.call iter_fn source world)
        match completion with
        | .normal iter =>
          if host.isObject iter then
            refRead ref (host.get_property iter "next" world) fun next_fn world =>
              loop (refNextResult host ref iter next_fn) world
          else
            return (.normal host.undefined, world)
        | completion => return (completion, world)
      else
        return (.throw (.engine "value is not iterable") false, world)
  | .notIterable => return (.throw (.engine "value is not iterable") false, world)

def refForOf (turns : Nat) (each source body : ASTNode) (labels : List Name) (world : W) :
    Noted (Ending V W) :=
  refOperand ref source world fun source world => do
    let world := host.push_scope world
    let loop next world :=
      refItemTurns ref (host.for_of_assign_var each) body labels next turns 0 host.undefined world
    let (completion, world) ←
      refIteration host ref loop source world (host.iteration source world)
    return (completion, host.pop_scope world)

/-- All statements from the entered case to the end of the `switch`. -/
def caseStatements (cases : List ASTNode) : List ASTNode :=
  cases.flatMap caseBody

/-- The statements of a `switch` from the entered case on. -/
def refCaseItems : List ASTNode → V → W → Noted (Ending V W)
  | [], result, world => return (.normal result, world)
  | item :: items, _, world => do
      let (completion, world) ← ref [] item world
      match completion with
      | .normal value => refCaseItems items value world
      | .break none value => return (.normal value, world)
      | .continue label value => do
          Monitored.note (!items.isEmpty) .continueInSwitch
          return (.continue label value, world)
      | completion => return (completion, world)

/-- The cases in their order, up to the one that is entered; `default` is entered where it
stands, as in this engine. -/
def refCases (test : V) : List ASTNode → W → Noted (Ending V W)
  | [], world => return (.normal host.undefined, world)
  | .defaultClause body :: cases, world =>
    refCaseItems ref (caseStatements (.defaultClause body :: cases)) host.undefined world
  | .caseClause cond body :: cases, world =>
    refOperand ref cond world fun case_test world =>
      if host.strict_eq test case_test then
        refCaseItems ref (caseStatements (.caseClause cond body :: cases)) host.undefined world
      else
        refCases test cases world
  | _ :: cases, world => refCases test cases world

def refSwitch (test : ASTNode) (cases : List ASTNode) (world : W) :
    Noted (Ending V W) :=
  refOperand ref test world fun test world => refCases host ref test cases world

def refLabel (labels : List Name) (label stmt : ASTNode) (world : W) :
    Noted (Ending V W) :=
  match label with
  | .identifier name => do
      let (completion, world) ← ref (name :: labels) stmt world
      match completion with
      | .break (some target) value =>
        if target = name then
          return (.normal value, world)
        else
          return (.break (some target) value, world)
      | completion => return (completion, world)
  | _ => .stuck

def refJump (label : ASTNode) (jump : Option Name → Completion V) (world : W) :
    Noted (Ending V W) :=
  match label with
  | .null => return (jump none, world)
  | .identifier name =>
    if name = "" then
      .stuck
    else do
      Monitored.note (64 ≤ name.utf8ByteSize) .longLabel
      return (jump (some name), world)
  | _ => .stuck

def refReturn (arg : ASTNode) (world : W) : Noted (Ending V W) :=
  if isControl arg then
    .stuck
  else do
    let (completion, world) ← ref [] arg world
    match completion with
    | .normal value => return (.return value, world)
    | .throw raised _ => return (.throw raised true, world)
    | completion => return (completion, world)

def refThrow (arg : ASTNode) (world : W) : Noted (Ending V W) :=
  refOperand ref arg world fun value world => return (.throw (.thrown value) false, world)

def Raised.isNative : Raised V → Bool
  | .native .. => true
  | _ => false

/-- The value that was thrown: for an error of the interpreter, the `Error` object that stands
for it. -/
def Raised.value (raised : Raised V) (world : W) : V × W :=
  match raised with
  | .thrown value => (value, world)
  | .native value _ => (value, world)
  | .engine message =>
    if message = "" then (host.undefined, world) else host.error_object message world

def refBindCaught (catch_var : Option Name) (raised : Raised V) (world : W) : W :=
  match catch_var with
  | none => world
  | some name =>
    host.declare_name name (raised.value host world).1 (raised.value host world).2

def refTryCatch (body catch_body : ASTNode) (catch_var : Option Name) (world : W) :
    Noted (Bool × Ending V W) := do
  let (completion, world) ← ref [] body (predeclare host catch_body catch_var world)
  match completion with
  | .throw raised returning =>
    if isNull catch_body then
      return (false, .throw raised returning, world)
    else do
      Monitored.note returning .returnInterrupted
      Monitored.note (raised.isNative && catch_var.isSome) .nativeCaught
      let world := refBindCaught host catch_var raised (host.push_scope world)
      let (completion, world) ← ref [] catch_body world
      return (true, completion, host.pop_scope world)
  | completion => return (false, completion, world)

/-- The finally clause: it runs in any case, and its own completion counts unless it is a
normal one. -/
def refFinally (finally_body : ASTNode) (completion : Completion V) (world : W) :
    Noted (Ending V W) :=
  if isNull finally_body then
    return (completion, world)
  else do
    Monitored.note (completion.isThrow || completion.isJump) .finallyAfterJump
    let (last, world) ← ref [] finally_body world
    Monitored.note (completion.isReturn && last.isJump) .jumpOverReturn
    Monitored.note (completion.isReturn && last.isThrow) .throwOverReturn
    return (completion.override host.undefined last, world)

def refTry (body catch_body finally_body : ASTNode) (catch_var : Option Name) (world : W) :
    Noted (Ending V W) := do
  let (caught, completion, world) ← refTryCatch host ref body catch_body catch_var world
  let (completion, world) ← refFinally host ref finally_body completion world
  Monitored.note (caught && completion.isThrow) .catchThrew
  return (completion, world)

end Statements

section Meanings

variable (host : Host V W)

def meaningStep (ref : Meaning V W) (turns : Nat) : Meaning V W := fun labels node world =>
  match node with
  | .null | .debugger => return (.normal host.undefined, world)
  | .program items => refProgram host ref items world
  | .block items => refBlock host ref items world
  | .exprStmt expr => refOperand ref expr world fun value world => return (.normal value, world)
  | .ifStmt cond body elseBody => refIf host ref cond body elseBody world
  | .forStmt init test update body => refFor host ref turns init test update body labels world
  | .whileStmt cond body => refWhileTurns host ref cond body labels turns host.undefined world
  | .doWhile cond body => refDoWhileTurns host ref cond body labels turns world
  | .forIn each source body => refForIn host ref turns each source body labels world
  | .forOf each source body => refForOf host ref turns each source body labels world
  | .switchStmt test cases => refSwitch host ref test cases world
  | .breakStmt label => refJump label (fun target => .break target host.undefined) world
  | .continueStmt label => refJump label (fun target => .continue target host.undefined) world
  | .returnStmt arg => refReturn ref arg world
  | .throwStmt arg => refThrow ref arg world
  | .tryStmt body catchBody finallyBody catchVar =>
    refTry host ref body catchBody finallyBody catchVar world
  | .labelStmt label stmt => refLabel ref labels label stmt world
  | .withStmt obj body => refWith host ref obj body world
  | node => refProg ref (host.expression node world)

def meaning : Nat → Meaning V W
  | 0, _, _, _ => .stuck
  | depth + 1, labels, node, world =>
    meaningStep host (meaning depth) depth labels node world

end Meanings

end TreeWalker
end LRJS
