import Mathlib.Algebra.Ring.Nat
import Mathlib.Data.List.Basic

/-!
# Abstract syntax

The AST that the parser hands to both engines (`lr_ast.h`), with one constructor per node type that
either engine distinguishes.  A `NULL` child is `ASTNode.null`, operator strings are enumerations,
and numeric literals carry the bits of the `double`.  `while`, `do-while` and `case` store their
children in the `if_stmt` fields.
-/

namespace LRJS

abbrev Name := String

/-- A C `double`, by its IEEE 754 bit pattern. -/
structure Double where
  bits : BitVec 64
deriving DecidableEq, Repr

namespace Double

def exponent (d : Double) : Nat :=
  d.bits.toNat / 2 ^ 52 % 2 ^ 11

def significand (d : Double) : Nat :=
  if d.exponent = 0 then
    d.bits.toNat % 2 ^ 52
  else
    d.bits.toNat % 2 ^ 52 + 2 ^ 52

def negative (d : Double) : Bool :=
  d.bits.msb

/-- `isnan(d)`. -/
def isNaN (d : Double) : Bool :=
  d.exponent = 2047 && d.bits.toNat % 2 ^ 52 ≠ 0

def natAbs? (d : Double) : Option Nat :=
  let power := max d.exponent 1
  if d.exponent = 2047 then
    none
  else if 1075 ≤ power then
    some (d.significand * 2 ^ (power - 1075))
  else if d.significand % 2 ^ (1075 - power) = 0 then
    some (d.significand / 2 ^ (1075 - power))
  else
    none

/-- The `int32_t` that `d` is equal to, when there is one:
`d == (double)(int32_t)d` with `d` in range. -/
def int32? (d : Double) : Option Int :=
  match d.natAbs? with
  | none => none
  | some magnitude =>
    let value : Int := if d.negative then -magnitude else magnitude
    if -2147483648 ≤ value ∧ value ≤ 2147483647 then some value else none

/-- C `==` on doubles: NaN equals nothing, and the two zeros are equal. -/
def ceq (left right : Double) : Bool :=
  !left.isNaN && !right.isNaN &&
    (left = right || (left.natAbs? = some 0 && right.natAbs? = some 0))

end Double

/-- The strings of `u.binary.op`. -/
inductive BinaryOp where
  | add | sub | mul | div | mod | pow
  | lt | gt | le | ge
  | eq | ne | strictEq | strictNe
  | shl | sar | shr
  | bitAnd | bitOr | bitXor
  | «in» | «instanceof»
  | andAnd | orOr | nullish
deriving DecidableEq, Repr

/-- The strings of `u.unary.op`. -/
inductive UnaryOp where
  | inc | dec | typeof | void | delete | not | bitNot | minus | plus
deriving DecidableEq, Repr

/-- The strings of `u.assign.op`: plain `=`, or `op=` for a binary `op`. -/
inductive AssignOp where
  | assign
  | compound (op : BinaryOp)
deriving DecidableEq, Repr

/-- `var_decl_kind`: `var` is 0, `let` is 1, `const` is 2. -/
inductive DeclKind where
  | var | let | const
deriving DecidableEq, Repr

/-- The payload of an `AST_LITERAL`, by the type of its token. -/
inductive Literal where
  | number (num : Double)
  | string (str : String)
  | bool (val : Bool)
  | null
  | undefined
  | bigint (val : Int)
  | regexp (source : String)
deriving DecidableEq, Repr

inductive ASTNode where
  | null
  -- statements
  | program (items : List ASTNode)
  | block (items : List ASTNode)
  | exprStmt (expr : ASTNode)
  | ifStmt (cond body elseBody : ASTNode)
  | forStmt (init test update body : ASTNode)
  | whileStmt (cond body : ASTNode)
  | doWhile (cond body : ASTNode)
  | forIn (each source body : ASTNode)
  | forOf (each source body : ASTNode)
  | switchStmt (test : ASTNode) (cases : List ASTNode)
  | caseClause (cond body : ASTNode)
  | defaultClause (body : ASTNode)
  | breakStmt (label : ASTNode)
  | continueStmt (label : ASTNode)
  | returnStmt (arg : ASTNode)
  | throwStmt (arg : ASTNode)
  | tryStmt (body catchBody finallyBody : ASTNode) (catchVar : Option Name)
  | labelStmt (label stmt : ASTNode)
  | withStmt (obj body : ASTNode)
  | debugger
  -- declarations
  | varDecl (kind : DeclKind) (vars : List ASTNode)
  | varDeclarator (var init : ASTNode)
  | funcDecl (name : Option Name) (params : List ASTNode) (body : ASTNode)
      (isAsync isGenerator derived : Bool)
  | funcExpr (name : Option Name) (params : List ASTNode) (body : ASTNode)
      (isAsync isGenerator isGetter isSetter derived : Bool)
  | arrow (params : List ASTNode) (body : ASTNode) (isAsync : Bool)
  | classDecl (name : Option Name) (extends_ : ASTNode) (methods : List ASTNode)
  -- expressions
  | literal (value : Literal)
  | identifier (name : Name)
  | this
  | super
  | binary (op : BinaryOp) (left right : ASTNode)
  | unary (op : UnaryOp) (isPrefix : Bool) (arg : ASTNode)
  | conditional (cond consequent alternate : ASTNode)
  | call (callee : ASTNode) (args : List ASTNode) (isOptional : Bool)
  | optionalCall (callee : ASTNode) (args : List ASTNode)
  | new (callee : ASTNode) (args : List ASTNode)
  | member (obj prop : ASTNode) (isOptional : Bool)
  | computedMember (obj prop : ASTNode)
  | optionalMember (obj prop : ASTNode)
  | assign (op : AssignOp) (target value : ASTNode)
  | sequence (exprs : List ASTNode)
  | array (elements : List ASTNode)
  | object (props : List ASTNode)
  | property (key val : ASTNode) (computed shorthand : Bool)
  | spread (arg : ASTNode)
  | spreadElement (arg : ASTNode)
  | template (parts : List String) (exprs : List ASTNode)
  | taggedTemplate (tag : ASTNode) (parts : List String) (exprs : List ASTNode)
  | pattern (isObject : Bool) (elements : List ASTNode)
  | rest (arg : ASTNode)
  | defaultValue (left right : ASTNode)
  | await (arg : ASTNode)
  | yield (arg : ASTNode) (isDelegate : Bool)
  -- modules
  | «import» (specifiers : List ASTNode) (source : ASTNode)
  | export (specifiers : List ASTNode) (source : ASTNode)
  | exportDefault (value : ASTNode)

end LRJS
