import LRJS.CompileExpr

/-!
# Additions at a join

`emit` looks only at the last instruction before `BC_ADD`, so it matters whether the code of a right
operand ends in a property read through a slot local, right behind which the jump of an operator
arrives.  `joins` finds these additions.  It follows `cexpr` and its helpers.
-/

namespace LRJS

structure SlotView where
  slot : Name → Option Nat
  forceNoFuse : Bool

/-- The slots that `c` makes visible. -/
def slotView (c : BCComp) : SlotView where
  slot := find_local_slot c
  forceNoFuse := c.forceNoFuse

inductive Tail where
  /-- not in `BC_LOAD_PROP` -/
  | other
  /-- in a `BC_LOAD_PROP` -/
  | read
  /-- in a `BC_LOAD_PROP` behind which a jump arrives -/
  | join
deriving DecidableEq, Repr

def Tail.joined : Tail → Tail
  | .other => .other
  | _ => .join

variable (view : SlotView)

/-- `cmember` emits a `BC_LOAD_PROP`. -/
def readsSlot (node obj : ASTNode) : Bool :=
  match obj with
  | .identifier name =>
    node.plainMember?.isSome && !view.forceNoFuse && (view.slot name).isSome
  | _ => false

mutual

def tail (n : ASTNode) : Tail :=
  match n with
  | .member obj _ _ => if readsSlot view n obj then .read else .other
  | .binary op _ right =>
    match op with
    | .andAnd | .orOr | .nullish => (tail right).joined
    | _ => .other
  | .conditional _ _ alternate => (tail alternate).joined
  | .sequence exprs => lastTail exprs
  | _ => .other

def lastTail : List ASTNode → Tail
  | [] => .other
  | expr :: exprs => if exprs.isEmpty then tail expr else lastTail exprs

end

/-- In `cbinary`: factored products are not compiled as they stand. -/
def binaryJoins (bop : BinOp) (left right : ASTNode) (inLeft inRight : Bool) (last : Tail) : Bool :=
  match (if bop = .add ∨ bop = .sub then factor? left right else none) with
  | some _ => false
  | none => inLeft || inRight || (bop == .add && last == .join)

/-- In `ccall`. -/
def callJoins
    (callee : ASTNode) (args : List ASTNode) (isOptional : Bool)
    (inCallee inObj inProp inArgs : Bool) : Bool :=
  let argc := args.length
  if callee.isNull || isOptional || callee.isSuper || has_spread args ||
      argc > 0xFFFF || callee.isSuperMember then
    false
  else if callee.plainMember?.isSome then
    inObj || inArgs
  else if callee.isComputedMember then
    inObj || inProp || inArgs
  else if callee.isFunction then
    false
  else
    match callee with
    | .identifier name =>
      if name = "import" then
        false
      else if argc = 1 ∧ (name = "String" ∨ name = "Number" ∨ name = "Boolean") then
        inArgs
      else
        inCallee || inArgs
    | _ => inCallee || inArgs

def assignNameJoins (name : Name) (val : ASTNode) (inVal inRight : Bool) : Bool :=
  if (view.slot name).isSome && isSelfAdd name val then inRight else inVal

/-- In `x op= e`: only an `x` without a slot is compiled to an addition. -/
def compoundNameJoins (name : Name) (bop : BinOp) (inVal : Bool) (last : Tail) : Bool :=
  inVal || ((view.slot name).isNone && bop == .add && last == .join)

/-- In `cassign`. -/
def assignJoins
    (op : AssignOp) (tgt val : ASTNode) (inObj inProp inVal inRight : Bool) (last : Tail) : Bool :=
  match op with
  | .assign =>
    match tgt with
    | .identifier name => assignNameJoins view name val inVal inRight
    | _ =>
      if tgt.plainMember?.isSome then
        inObj || inVal
      else
        tgt.isComputedMember && (inObj || inProp || inVal)
  | .compound op =>
    match binop_of op with
    | none => false
    | some bop =>
      match tgt with
      | .identifier name => compoundNameJoins view name bop inVal last
      | _ =>
        if tgt.plainMember?.isSome then
          inObj || inVal || (bop == .add && last == .join)
        else
          tgt.isComputedMember && (inObj || inProp || inVal || (bop == .add && last == .join))

/-- In `cincdec`, whose own additions follow a constant. -/
def incdecJoins (tgt : ASTNode) (inObj inProp : Bool) : Bool :=
  if tgt.plainMember?.isSome then inObj else tgt.isComputedMember && (inObj || inProp)

/-- In `cproperty`. -/
def propertyJoins (key : ASTNode) (inKey inVal : Bool) : Bool :=
  match key with
  | .identifier _ | .literal (.string _) => inVal
  | _ => inKey || inVal

mutual

def joins (n : ASTNode) : Bool :=
  match n with
  | .binary op left right =>
    match op with
    | .andAnd | .orOr | .nullish => joins left || joins right
    | _ =>
      match binop_of op with
      | none => false
      | some bop => binaryJoins bop left right (joins left) (joins right) (tail view right)
  | .unary op isPrefix arg =>
    match op with
    | .inc | .dec => incdecJoins arg (joinsObj arg) (joinsProp arg)
    | .typeof =>
      match arg with
      | .identifier _ => false
      | _ => joins arg
    | .void | .not | .bitNot => joins arg
    | .delete =>
      if arg.plainMember?.isSome then
        joinsObj arg
      else
        arg.isComputedMember && (joinsObj arg || joinsProp arg)
    | .minus | .plus => isPrefix && joins arg
  | .conditional cond consequent alternate => joins cond || joins consequent || joins alternate
  | .call callee args isOptional =>
    callJoins callee args isOptional (joins callee) (joinsObj callee) (joinsProp callee)
      (joinsArgs args)
  | .new callee args =>
    !(has_spread args || args.length > 0xFFFF) && (joins callee || joinsArgs args)
  | .member obj _ _ => n.plainMember?.isSome && !readsSlot view n obj && joins obj
  | .computedMember obj prop => n.isComputedMember && (joins obj || joins prop)
  | .array elements =>
    !(elements.length > 0xFFFF || has_spread elements) && joinsArgs elements
  | .object props => props.all isPlainProperty && joinsProps props
  | .assign op target value =>
    assignJoins view op target value (joinsObj target) (joinsProp target) (joins value)
      (joinsRight value) (tail view value)
  | .sequence exprs => joinsArgs exprs
  | .template _ exprs => joinsTemplate exprs
  | _ => false

/-- In `cobj`. -/
def joinsObj : ASTNode → Bool
  | .member obj _ _ | .computedMember obj _ => joins obj
  | _ => false

/-- In `cprop`. -/
def joinsProp : ASTNode → Bool
  | .computedMember _ prop => joins prop
  | _ => false

/-- In `cright`. -/
def joinsRight : ASTNode → Bool
  | .binary _ _ right => joins right
  | _ => false

/-- In `cargs` and `csequence`. -/
def joinsArgs : List ASTNode → Bool
  | [] => false
  | arg :: args => joins arg || joinsArgs args

/-- In `ctemplate`: every interpolation is added to the text before it. -/
def joinsTemplate : List ASTNode → Bool
  | [] => false
  | expr :: exprs => joins expr || tail view expr == .join || joinsTemplate exprs

/-- In `cprops`. -/
def joinsProps : List ASTNode → Bool
  | [] => false
  | .property key val _ _ :: props => propertyJoins key (joins key) (joins val) || joinsProps props
  | _ :: props => joinsProps props

end

end LRJS
