import LRJS.ArchiveRoundTrip
import LRJS.AstCodec
import LRJS.ContainerIntegrity

/-!
# Warm runs

`lr_exec_file_cached` (`lr_runtime.c`) and the parts of `lr_engine.c` that it goes through: an
archive that was loaded is executed, otherwise, and when that fails, the source.  The world is
whatever programs and the host can see of a runtime.  Precompiled bodies, machine code, files and
failed allocations are left out.
-/

namespace LRJS.WarmRuns

open Logged
open AstCodec (Node lr_ast_serialize lr_ast_deserialize)
open Containers (Kind Manifest)
open Lz4 (Bytes)

/-- A program that `bc_compile` has made. -/
abbrev Compiled :=
  { p : BCProgram // p.Produced }

structure Engine (World Value : Type) where
  parse_program : Bytes → Option Node
  bc_compile : Node → Option Compiled
  handlers : HandlerSet World Value
  enter : (is_module : Bool) → World → World
  leave : (before after : World) → World
  run_jobs : (fuel : Nat) → World → Option World
  /-- `error_flag || exception_pending`. -/
  raised : World → Bool
  surface : World → World
  lr_throw_syntax_error : World → World
  compilation_failed : World → World
  lr_check_exception : World → World
  lr_iome586_restore_globals : (globals : Option Bytes) → World → World

inductive Fault where
  | machine
  /-- `strlen` of `NULL`. -/
  | no_text
  /-- An access of `lr_ast_deserialize`. -/
  | tree
  /-- An access of `bc_deserialize`. -/
  | program (why : ReadFault)

inductive Finish (World : Type) where
  | value (world : World)
  | exception (world : World)
  | fault (why : Fault)

inductive Ended (World : Type) where
  | returned (ret : Int) (world : World)
  | fault (why : Fault)

structure Body where
  is_module : Bool

structure LREvalUnit where
  ast : Node
  src : Option Bytes
  bc_prog : Option BCProgram

namespace Engine

variable {World Value : Type} (e : Engine World Value)

/-- `lr_engine_exec_unit`, from `exec_done` on. -/
def exec_done (fuel : Nat) (before after : World) : Course Body (Finish World) :=
  match e.run_jobs fuel (e.leave before after) with
  | none => .diverge
  | some world =>
    .done (if e.raised world = true then .exception (e.surface world) else .value world)

/-- `bc_execute` in `lr_engine_exec_unit`, and what follows. -/
def execute (fuel : Nat) (is_module : Bool) (p : BCProgram) (world : World) :
    Course Body (Finish World) :=
  .log ⟨is_module⟩ <|
  match e.handlers.bc_execute p fuel (e.enter is_module world) with
  | .running _ => .diverge
  | .bad => .done (.fault .machine)
  | .ended after => e.exec_done fuel world after

/-- `lr_engine_exec_unit`; `cached` is what stands in the cache of compiled programs under the hash
of the text. -/
def lr_engine_exec_unit (cached : Option Compiled) (fuel : Nat) (is_module : Bool)
    (unit : LREvalUnit) (world : World) : Course Body (Finish World) :=
  match unit.bc_prog with
  | some p => e.execute fuel is_module p world
  | none =>
    match unit.src with
    | none => .done (.fault .no_text)
    | some _ =>
      match cached with
      | some p => e.execute fuel is_module p.1 world
      | none =>
        match e.bc_compile unit.ast with
        | some p => e.execute fuel is_module p.1 world
        | none => e.exec_done fuel world (e.compilation_failed (e.enter is_module world))

def lr_engine_eval_ast (cached : Option Compiled) (fuel : Nat) (ast : Node) (is_module : Bool)
    (world : World) : Course Body (Finish World) :=
  e.lr_engine_exec_unit cached fuel is_module ⟨ast, none, none⟩ world

/-- `lr_engine_eval_ast_with_bytecode`; `bc_deserialize` has set `compiled`. -/
def lr_engine_eval_ast_with_bytecode (cached : Option Compiled) (fuel : Nat) (ast : Node)
    (is_module : Bool) (bc_data : Bytes) (world : World) : Course Body (Finish World) :=
  match bc_deserialize bc_data with
  | .fault why => .done (.fault (.program why))
  | .null => e.lr_engine_exec_unit cached fuel is_module ⟨ast, none, none⟩ world
  | .done p => e.lr_engine_exec_unit cached fuel is_module ⟨ast, none, some p⟩ world

end Engine

/-- A call of `lr_exec_file_cached`. -/
structure Call (World : Type) where
  src : Bytes
  is_module : Bool
  restore_globals : Bool
  /-- The allocations of `lr_ast_deserialize`. -/
  memory : List AstCodec.Entry → AstCodec.Request → Bool
  cached : Option Compiled
  world : World

/-- The bit of `LR_IOME586_FLAG_MODULE`. -/
def FLAG_MODULE : Nat := 1

section Calls

variable {World Value : Type} (e : Engine World Value) (call : Call World)

/-- The cold path of `lr_exec_file_cached`. -/
def exec_cold (fuel : Nat) (world : World) : Course Body (Ended World) :=
  match e.parse_program call.src with
  | none => .done (.returned (-1) (e.lr_check_exception (e.lr_throw_syntax_error world)))
  | some ast =>
    (e.lr_engine_exec_unit call.cached fuel call.is_module ⟨ast, some call.src, none⟩
        world).andThen fun
      | .value world => .done (.returned 0 world)
      | .exception world => .done (.returned (-1) (e.lr_check_exception world))
      | .fault why => .done (.fault why)

def restored_world (mf : Manifest) : World :=
  if call.restore_globals = true then e.lr_iome586_restore_globals (mf.data .globals) call.world
  else call.world

def exec_archived (mf : Manifest) (ast : Node) (fuel : Nat) : Course Body (Finish World) :=
  let warm_module := mf.header.flags.testBit FLAG_MODULE
  match mf.data .bytecode with
  | none =>
    e.lr_engine_eval_ast call.cached fuel ast warm_module (restored_world e call mf)
  | some bytecode =>
    if 0 < bytecode.length then
      e.lr_engine_eval_ast_with_bytecode call.cached fuel ast warm_module bytecode
        (restored_world e call mf)
    else
      e.lr_engine_eval_ast call.cached fuel ast warm_module (restored_world e call mf)

def warm_result (fuel : Nat) : Finish World → Course Body (Ended World)
  | .value world => .done (.returned 0 world)
  | .exception world => exec_cold e call fuel (e.lr_check_exception world)
  | .fault why => .done (.fault why)

/-- `lr_ast_deserialize`, where it writes to nothing but its own blocks. -/
def read_tree (ast_data : Bytes) : Option Node :=
  (lr_ast_deserialize call.memory ast_data).bind fun (root, st) =>
    if st.wild = true then none else some root

def exec_warm (mf : Manifest) (fuel : Nat) : Course Body (Ended World) :=
  match read_tree call ((mf.data .ast).getD []) with
  | none => .done (.fault .tree)
  | some .null => exec_cold e call fuel call.world
  | some (.node type token linked values) =>
    (exec_archived e call mf (.node type token linked values) fuel).andThen
      (warm_result e call fuel)

/-- `lr_exec_file_cached`, with what `lr_iome586_load` has loaded. -/
def lr_exec_file_cached (mf : Option Manifest) (fuel : Nat) : Course Body (Ended World) :=
  match mf with
  | none => exec_cold e call fuel call.world
  | some mf => exec_warm e call mf fuel

end Calls

section Archives

variable {World Value : Type}

structure CompleteRun (e : Engine World Value) where
  call : Call World
  ast : Node
  parsed : e.parse_program call.src = some ast
  completes : ∃ fuel world, (exec_cold e call fuel call.world).result = some (.returned 0 world)

variable {e : Engine World Value}

/-- `bc_ser`; it is made when the run compiles the tree. -/
def CompleteRun.bytecode (run : CompleteRun e) : Option Bytes :=
  match run.call.cached with
  | some _ => none
  | none => (e.bc_compile run.ast).bind fun p => bc_serialize p.1

structure CompleteRun.Archived (run : CompleteRun e) (mf : Manifest) : Prop where
  ast : mf.data .ast = some (lr_ast_serialize run.ast)
  bytecode : mf.data .bytecode = run.bytecode
  mode : mf.header.flags.testBit FLAG_MODULE = run.call.is_module

theorem name_plain (kind : Kind) : ∀ letter ∈ kind.name, letter ≠ 0 := by
  cases kind <;> decide +kernel

def entryOf (kind : Kind) (data : Bytes) : Containers.Entry :=
  ⟨kind.name, data, name_plain kind⟩

/-- What an archive holds; `texts` and `mir` is what does not depend on the tree. -/
def CompleteRun.data (run : CompleteRun e) (texts : Kind → Bytes) (mir : Option Bytes) :
    Kind → Option Bytes
  | .ast => some (lr_ast_serialize run.ast)
  | .bytecode => run.bytecode
  | .mir => mir
  | kind => some (texts kind)

/-- The entries that `lr_iome586_commit` adds. -/
def CompleteRun.entries (run : CompleteRun e) (texts : Kind → Bytes) (mir : Option Bytes) :
    List Containers.Entry :=
  [.meta, .path, .config, .init, .ast, .nodes, .globals, .state, .bytecode, .mir].filterMap
    fun kind => (run.data texts mir kind).map (entryOf kind)

end Archives

end LRJS.WarmRuns
