import LRJS.Bytecode
import LRJS.Archive

/-!
# Opcodes as bytes

The encoding of instructions in a code buffer, and what each handler of
`bc_execute` does to the operand stack, the constant pool and the slots of the
current scope, as far as positions are concerned.
-/

namespace LRJS

inductive BCOpcode where
  | stop | nop
  | push_undefined | push_null | push_true | push_false | push_this
  | push_int32 | push_float64 | push_string
  | pop | dup | dup2 | swap | rot3
  | load_var | store_var | load_local | store_local | inc_local | inc_local_discard | inc_var
  | declare_var | typeof_var | add_self | mul_self
  | binary (op : BinOp)
  | unary (op : UnOp)
  | jump | jump_if_false | jump_if_true | jump_if_false_keep | jump_if_true_keep
  | jump_if_not_nullish | jump_if_local_lt_imm | loop_tick
  | call | call_method | call_elem | new | «return»
  | new_object | new_array | def_prop | def_elem | get_prop | load_prop | load_prop_add
  | set_prop | get_elem | set_elem | delete_prop | delete_elem
  | iter_init | iter_next | iter_close
  | scope_enter | scope_leave | eval_node | eval_node_pop | set_result | clear_result | throw
  | to_string | to_number | to_bool
deriving DecidableEq

namespace BCOpcode

/-- The opcodes in the order of their numbers, `BC_OPCODE_COUNT` of them. -/
def table : List BCOpcode :=
  [.stop, .nop, .push_undefined, .push_null, .push_true, .push_false, .push_this,
    .push_int32, .push_float64, .push_string, .pop, .dup, .dup2, .swap, .rot3,
    .load_var, .store_var, .load_local, .store_local, .inc_local, .inc_local_discard, .inc_var,
    .declare_var, .typeof_var, .add_self, .mul_self,
    .binary .add, .binary .sub, .binary .mul, .binary .div, .binary .mod, .binary .pow,
    .binary .lt, .binary .gt, .binary .le, .binary .ge,
    .binary .eq, .binary .ne, .binary .strictEq, .binary .strictNe,
    .binary .shl, .binary .shr, .binary .sar,
    .binary .bitAnd, .binary .bitOr, .binary .bitXor, .binary .in, .binary .instanceof,
    .unary .neg, .unary .pos, .unary .not, .unary .bitNot, .unary .typeof, .unary .void,
    .jump, .jump_if_false, .jump_if_true, .jump_if_false_keep, .jump_if_true_keep,
    .jump_if_not_nullish, .jump_if_local_lt_imm, .loop_tick,
    .call, .call_method, .call_elem, .new, .return,
    .new_object, .new_array, .def_prop, .def_elem, .get_prop, .load_prop, .load_prop_add,
    .set_prop, .get_elem, .set_elem, .delete_prop, .delete_elem,
    .iter_init, .iter_next, .iter_close,
    .scope_enter, .scope_leave, .eval_node, .eval_node_pop, .set_result, .clear_result, .throw,
    .to_string, .to_number, .to_bool]

/-- The handler that `dispatch` finds for a byte. -/
def ofByte (byte : UInt8) : Option BCOpcode :=
  table[byte.toNat]?

/-- A pool index, a slot, a number of cells, a declaration kind, an immediate or a jump offset. -/
inductive Operand where
  | const
  | slot
  | count
  | kind
  | imm
  | offset
deriving DecidableEq

def Operand.width : Operand → Nat
  | .const | .slot | .count => 2
  | .kind => 1
  | .imm | .offset => 4

def operands : BCOpcode → List Operand
  | .push_int32 => [.imm]
  | .push_float64 | .push_string | .load_var | .store_var | .inc_var | .typeof_var
  | .def_prop | .get_prop | .set_prop | .delete_prop | .eval_node | .eval_node_pop => [.const]
  | .load_local | .store_local | .inc_local | .inc_local_discard | .add_self | .mul_self => [.slot]
  | .declare_var => [.const, .kind]
  | .jump | .jump_if_false | .jump_if_true | .jump_if_false_keep | .jump_if_true_keep
  | .jump_if_not_nullish | .iter_next => [.offset]
  | .jump_if_local_lt_imm => [.slot, .imm, .offset]
  | .call | .call_elem | .new | .new_array => [.count]
  | .call_method => [.const, .count]
  | .load_prop | .load_prop_add => [.slot, .const]
  | _ => []

end BCOpcode

structure Operands where
  const : Nat := 0
  slot : Nat := 0
  count : Nat := 0
  kind : Nat := 0
  imm : Int := 0
  offset : Int := 0

namespace Operands

/-- A number read as `int32_t`. -/
def signed (value : Nat) : Int :=
  Int.bmod value (2 ^ 32)

def set (values : Operands) (value : Nat) : BCOpcode.Operand → Operands
  | .const => { values with const := value }
  | .slot => { values with slot := value }
  | .count => { values with count := value }
  | .kind => { values with kind := value }
  | .imm => { values with imm := signed value }
  | .offset => { values with offset := signed value }

/-- `rd16`, `rd32` and `*ip++`: the operands and the number of bytes read, unless the code ends
before. -/
def read : List BCOpcode.Operand → List UInt8 → Operands → Option (Operands × Nat)
  | [], _, values => some (values, 0)
  | operand :: others, bytes, values =>
    if bytes.length < operand.width then none
    else
      (read others (bytes.drop operand.width)
        (values.set (LittleEndian.get (bytes.take operand.width)) operand)).map
        fun (values, width) => (values, operand.width + width)

end Operands

structure Decoded where
  op : BCOpcode
  values : Operands
  next : Int

def decode (code : List UInt8) (ip : Int) : Option Decoded :=
  if ip < 0 then none
  else do
    let byte ← code[ip.toNat]?
    let op ← BCOpcode.ofByte byte
    let (values, width) ← Operands.read op.operands (code.drop (ip.toNat + 1)) {}
    return ⟨op, values, ip + 1 + width⟩

/-- What a handler does to the cells of the operand stack and with the operands
of its instruction, one access at a time. -/
inductive Micro where
  /-- `if (sp < n) goto vm_abort` -/
  | need (n : Nat)
  | pop
  | push
  /-- `stack[sp - d]` -/
  | peek (d : Nat)
  /-- `sp > 0 ? stack[sp - 1] : LR_VALUE_UNDEFINED` -/
  | top
  | merge
  | float
  | name
  | node
  | slot
  | slotName
deriving DecidableEq

namespace BCOpcode

def micro (op : BCOpcode) (count : Nat) (jumps : Bool) : List Micro :=
  match op with
  | .stop | .nop | .loop_tick | .jump | .scope_enter | .scope_leave | .clear_result => []
  | .push_undefined | .push_null | .push_true | .push_false | .push_this | .push_int32
  | .new_object => [.push]
  | .push_float64 => [.float, .push]
  | .push_string => [.name, .push]
  | .pop | .set_result | .throw | .return | .jump_if_false | .jump_if_true => [.pop]
  | .dup => [.top, .push]
  | .dup2 => [.need 2, .peek 2, .peek 1, .push, .push]
  | .swap => [.need 2, .peek 1, .peek 2]
  | .rot3 => [.need 3, .peek 1, .peek 2, .peek 3]
  | .load_var | .inc_var | .typeof_var => [.name, .push]
  | .store_var | .declare_var => [.pop, .name]
  | .load_local | .inc_local => [.slot, .push]
  | .store_local => [.pop, .slot]
  | .inc_local_discard | .jump_if_local_lt_imm => [.slot]
  | .add_self | .mul_self => [.pop, .slot, .push]
  | .binary _ => [.need 2, .peek 1, .peek 2, .pop, .pop, .push]
  | .unary _ | .to_string | .to_number | .to_bool => [.pop, .push]
  | .jump_if_false_keep | .jump_if_true_keep | .jump_if_not_nullish => [.need 1, .peek 1]
  | .call | .new => .need count :: List.replicate count .pop ++ [.pop, .push]
  | .call_method => .need count :: List.replicate count .pop ++ [.pop, .name, .push]
  | .call_elem => .need count :: List.replicate count .pop ++ [.pop, .pop, .push]
  | .new_array => .need count :: List.replicate count .pop ++ [.push]
  | .def_prop => [.need 2, .pop, .name, .peek 1]
  | .def_elem => [.need 3, .pop, .pop, .peek 1]
  | .get_prop => [.pop, .name, .push]
  | .load_prop => [.slotName, .push]
  | .load_prop_add => [.slot, .top, .push, .name, .peek 1, .merge]
  | .set_prop => [.need 2, .pop, .pop, .name, .push]
  | .get_elem => [.need 2, .pop, .pop, .push]
  | .set_elem => [.need 3, .pop, .pop, .pop, .push]
  | .delete_prop => [.pop, .name, .push]
  | .delete_elem => [.need 2, .pop, .pop, .push]
  | .iter_init => [.pop, .push, .push, .push]
  | .iter_next =>
    [.need 3, .peek 1, .peek 2, .peek 3] ++ if jumps then [] else [.push]
  | .iter_close => [.need 3, .pop, .pop, .pop]
  | .eval_node => [.node, .push]
  | .eval_node_pop => [.node]

/-- The handlers that do not go on at the next instruction: `none` ends the
run, `some` jumps. -/
def ends : BCOpcode → Bool
  | .stop | .return | .throw => true
  | _ => false

def branches : BCOpcode → Bool
  | .jump_if_false | .jump_if_true | .jump_if_false_keep | .jump_if_true_keep
  | .jump_if_not_nullish | .jump_if_local_lt_imm | .iter_next => true
  | _ => false

end BCOpcode

end LRJS
