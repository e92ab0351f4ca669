import LRJS.Syntax

/-!
# Instructions and the compiler state

The opcode stream of `lr_bytecode.h` as whole instructions: a jump operand is the index of its
target, a pool index is the constant, and an instruction on a direct slot also carries its
identifier, which no machine reads.  The second half is the compiler state (`BCComp`) and the
emission functions of `lr_bytecode_emit.c`.
-/

namespace LRJS

/-- The binary opcodes `BC_ADD .. BC_INSTANCEOF`. -/
inductive BinOp where
  | add | sub | mul | div | mod | pow
  | lt | gt | le | ge
  | eq | ne | strictEq | strictNe
  | shl | shr | sar
  | bitAnd | bitOr | bitXor
  | «in» | «instanceof»
deriving DecidableEq, Repr

/-- The unary opcodes `BC_NEG .. BC_VOID`. -/
inductive UnOp where
  | neg | pos | not | bitNot | typeof | void
deriving DecidableEq, Repr

/-- One instruction, `BCOpcode` with its operands. -/
inductive Instr where
  | stop
  | nop
  -- constants
  | pushUndefined
  | pushNull
  | pushTrue
  | pushFalse
  | pushThis
  | pushInt32 (value : Int)
  | pushFloat64 (value : Double)
  | pushString (value : String)
  -- stack shuffling
  | pop
  | dup
  | dup2
  | swap
  | rot3
  -- variables
  | loadVar (name : Name)
  | storeVar (name : Name)
  | loadLocal (slot : Nat) (name : Name)
  | storeLocal (slot : Nat) (name : Name)
  | incLocal (slot : Nat) (name : Name)
  | incLocalDiscard (slot : Nat) (name : Name)
  | incVar (name : Name)
  | declareVar (name : Name) (kind : DeclKind)
  | typeofVar (name : Name)
  | addSelf (slot : Nat) (name : Name)
  | mulSelf (slot : Nat) (name : Name)
  -- operators
  | bin (op : BinOp)
  | un (op : UnOp)
  -- control flow
  | jump (target : Nat)
  | jumpIfFalse (target : Nat)
  | jumpIfTrue (target : Nat)
  | jumpIfFalseKeep (target : Nat)
  | jumpIfTrueKeep (target : Nat)
  | jumpIfNotNullish (target : Nat)
  | jumpIfLocalLtImm (slot : Nat) (name : Name) (imm : Int) (target : Nat)
  | loopTick
  -- calls
  | call (argc : Nat)
  | callMethod (name : Name) (argc : Nat)
  | callElem (argc : Nat)
  | new (argc : Nat)
  | ret
  -- objects and arrays
  | newObject
  | newArray (count : Nat)
  | defProp (name : Name)
  | defElem
  | getProp (name : Name)
  | loadProp (slot : Nat) (receiver : Name) (name : Name)
  | loadPropAdd (slot : Nat) (receiver : Name) (name : Name)
  | setProp (name : Name)
  | getElem
  | setElem
  | deleteProp (name : Name)
  | deleteElem
  -- iteration
  | iterInit
  | iterNext (target : Nat)
  | iterClose
  -- interpreter interoperability
  | scopeEnter
  | scopeLeave
  | evalNode (node : ASTNode)
  | evalNodePop (node : ASTNode)
  | setResult
  | clearResult
  | throw
  -- type conversion
  | toString
  | toNumber
  | toBool

namespace Instr

def target? : Instr → Option Nat
  | .jump t | .jumpIfFalse t | .jumpIfTrue t | .jumpIfFalseKeep t | .jumpIfTrueKeep t
  | .jumpIfNotNullish t | .jumpIfLocalLtImm _ _ _ t | .iterNext t => some t
  | _ => none

/-- Rewrite the jump operand: the four bytes that `patch_jump_to` stores. -/
def setTarget (target : Nat) : Instr → Instr
  | .jump _ => .jump target
  | .jumpIfFalse _ => .jumpIfFalse target
  | .jumpIfTrue _ => .jumpIfTrue target
  | .jumpIfFalseKeep _ => .jumpIfFalseKeep target
  | .jumpIfTrueKeep _ => .jumpIfTrueKeep target
  | .jumpIfNotNullish _ => .jumpIfNotNullish target
  | .jumpIfLocalLtImm slot name imm _ => .jumpIfLocalLtImm slot name imm target
  | .iterNext _ => .iterNext target
  | ins => ins

def slot? : Instr → Option (Nat × Name)
  | .loadLocal slot name | .storeLocal slot name | .incLocal slot name
  | .incLocalDiscard slot name | .addSelf slot name | .mulSelf slot name
  | .loadProp slot name _ | .loadPropAdd slot name _
  | .jumpIfLocalLtImm slot name _ _ => some (slot, name)
  | _ => none

@[simp]
theorem target?_setTarget (target : Nat) (ins : Instr) :
    (ins.setTarget target).target? = ins.target?.map fun _ => target := by
  cases ins <;> rfl

@[simp]
theorem slot?_setTarget (target : Nat) (ins : Instr) :
    (ins.setTarget target).slot? = ins.slot? := by
  cases ins <;> rfl

end Instr

/-- `binop_of`: the opcode of a binary operator, `none` for `BC_NOP`. -/
def binop_of : BinaryOp → Option BinOp
  | .add => some .add
  | .sub => some .sub
  | .mul => some .mul
  | .div => some .div
  | .mod => some .mod
  | .pow => some .pow
  | .lt => some .lt
  | .gt => some .gt
  | .le => some .le
  | .ge => some .ge
  | .eq => some .eq
  | .ne => some .ne
  | .strictEq => some .strictEq
  | .strictNe => some .strictNe
  | .shl => some .shl
  | .sar => some .sar
  | .shr => some .shr
  | .bitAnd => some .bitAnd
  | .bitOr => some .bitOr
  | .bitXor => some .bitXor
  | .in => some .in
  | .instanceof => some .instanceof
  | .andAnd | .orOr | .nullish => none

/-- A constant-pool entry (`BCConst`); the pool itself only decides when an
index no longer fits in 16 bits. -/
inductive BCConst where
  | float64 (value : Double)
  | string (value : String)
  | node

/-- An open loop or switch with its pending jumps.  The last three fields are a record that the
compiler does not read: the entry of the loop, the block scopes open there, and the operand cells
kept while its body runs. -/
structure BCLoop where
  label : Option Name
  isSwitch : Bool
  brk : List Nat
  cont : List Nat
  entry : Nat
  scopes : Nat
  cells : Nat
deriving DecidableEq, Repr

/-- One compiled `break` or `continue`: its position, the entry of its loop, and the operand cells
and block scopes of the statements it leaves. -/
structure LoopJump where
  pos : Nat
  entry : Nat
  cells : Nat
  scopes : Nat
deriving DecidableEq, Repr

/-- `BCComp`.  The stack-depth counters of the source only size a buffer and
are left out. -/
structure BCComp where
  code : List Instr
  pool : List BCConst
  loop : List BCLoop
  pendingLabel : Option Name
  ok : Bool
  localNames : List Name
  disableLocalSlots : Bool
  localScopeDepth : Nat
  /-- an entry was written past the 64 of `local_scope_stack` -/
  scopeOverflow : Bool
  usesThis : Bool
  usesSuper : Bool
  /-- `getenv("LR_FORCE_NO_FUSE") != NULL` -/
  forceNoFuse : Bool
  /-- the `LOAD_PROP; ADD` peephole of `emit` is enabled -/
  peephole : Bool
  /-- record: the jumps whose target `BC_ADD` was fused away -/
  orphans : List Nat
  /-- record: the `break` and `continue` jumps -/
  jumps : List LoopJump
  ranges : List (Nat × Nat)

namespace BCComp

/-- `memset(&c, 0, sizeof(c))` and the settings of `bc_compile_ex`. -/
def initial (names : List Name) (disableLocalSlots forceNoFuse : Bool) : BCComp where
  code := []
  pool := []
  loop := []
  pendingLabel := none
  ok := true
  localNames := names
  disableLocalSlots := disableLocalSlots
  localScopeDepth := 0
  scopeOverflow := false
  usesThis := false
  usesSuper := false
  forceNoFuse := forceNoFuse
  peephole := true
  orphans := []
  jumps := []
  ranges := []

end BCComp

abbrev Comp := BCComp → BCComp

/-- `c->ok = 0`. -/
def fail : Comp := fun c =>
  { c with ok := false }

/-- `here`: the position of the next instruction. -/
def here (c : BCComp) : Nat :=
  c.code.length

/-- The `BC_LOAD_PROP` that ends the code, if the code ends with one: what the
instruction boundary tracker of `emit` finds. -/
def lastLoadProp? (code : List Instr) : Option (Nat × Name × Name) :=
  match code.getLast? with
  | some (.loadProp slot receiver name) => some (slot, receiver, name)
  | _ => none

/-- The positions of the jumps that are patched to `target`. -/
def jumpsTo (code : List Instr) (target : Nat) : List Nat :=
  (List.range code.length).filter fun pos =>
    (code[pos]?.bind Instr.target?) = some target

def appendInstr (ins : Instr) : Comp := fun c =>
  { c with code := c.code ++ [ins] }

/-- The peephole of `emit`: the final `BC_LOAD_PROP` is rewritten in place. -/
def fuse (slot : Nat) (receiver name : Name) : Comp := fun c =>
  { c with
    code := c.code.dropLast ++ [.loadPropAdd slot receiver name]
    orphans := c.orphans ++ jumpsTo c.code (here c) }

/-- `emit` of a complete instruction.  `BC_ADD` right after a `BC_LOAD_PROP`
rewrites that instruction and appends nothing. -/
def emit (ins : Instr) : Comp := fun c =>
  if !c.ok then
    c
  else
    match ins, lastLoadProp? c.code with
    | .bin .add, some (slot, receiver, name) =>
      if c.peephole then fuse slot receiver name c else appendInstr ins c
    | _, _ => appendInstr ins c

/-- `emit` followed by `emit16` of `operand`, which must fit in 16 bits. -/
def emit16 (ins : Instr) (operand : Nat) : Comp := fun c =>
  if operand > 0xFFFF then fail c else emit ins c

def patch_jump_to (pos target : Nat) : Comp := fun c =>
  if !c.ok then
    c
  else
    { c with code := c.code.modify pos (Instr.setTarget target) }

def patch_here (pos : Nat) : Comp := fun c =>
  patch_jump_to pos (here c) c

def patch_list (positions : List Nat) (target : Nat) : Comp := fun c =>
  positions.foldl (fun c pos => patch_jump_to pos target c) c

/-- Add `entry` unless an entry matching `same` is there already. -/
def pool_add (entry : BCConst) (same : BCConst → Bool) : Comp := fun c =>
  if !c.ok then
    c
  else if c.pool.any same then
    c
  else
    { c with pool := c.pool ++ [entry], ok := c.pool.length ≤ 0xFFFF }

def pool_add_f64 (value : Double) : Comp :=
  pool_add (.float64 value) fun
    | .float64 other => other.ceq value
    | _ => false

def pool_add_str (value : String) : Comp :=
  pool_add (.string value) fun
    | .string other => other = value
    | _ => false

/-- `pool_add_node`: never shared. -/
def pool_add_node : Comp :=
  pool_add .node fun _ => false

end LRJS
