import LRJS.WarmRuns

/-!
# The effects of warm runs

A call that finds the archive of a complete run of its source does what it
does without an archive, and runs the body once, if the archived program is
accepted, does not throw, and is that of the source in the mode of the call; or
if the tree cannot be read.
-/

namespace LRJS.WarmRuns

open Logged List Option Containers
open AstCodec (Node lr_ast_serialize)
open Containers (Kind Manifest)
open Lz4 (Bytes)

variable {World Value : Type} {e : Engine World Value}

section Written

variable {run : CompleteRun e} {texts : Kind → Bytes} {mir : Option Bytes}

theorem mem_entries_iff {entry : Containers.Entry} : entry ∈ run.entries texts mir ↔
    ∃ kind data, run.data texts mir kind = some data ∧ entryOf kind data = entry := by
  have every : ∀ kind : Kind, kind ∈ ([.meta, .path, .config, .init, .ast, .nodes, .globals,
      .state, .bytecode, .mir] : List Kind) := by
    intro kind
    cases kind <;> decide
  unfold CompleteRun.entries
  rw [mem_filterMap]
  constructor
  · rintro ⟨kind, _, found⟩
    exact ⟨kind, map_eq_some_iff.mp found⟩
  · rintro ⟨kind, found⟩
    exact ⟨kind, every kind, map_eq_some_iff.mpr found⟩

theorem entries_loadable (short : (Containers.payload (run.entries texts mir)).length < 2 ^ 32) :
    Containers.Loadable (run.entries texts mir) where
  named := by
    intro entry member
    obtain ⟨kind, data, _, rfl⟩ := mem_entries_iff.mp member
    exact ⟨kind, rfl⟩
  single := by
    intro entry member other member' same
    obtain ⟨kind, data, found, rfl⟩ := mem_entries_iff.mp member
    obtain ⟨kind', data', found', rfl⟩ := mem_entries_iff.mp member'
    obtain rfl := name_injective same
    exact some.inj (found.symm.trans found')
  tree := ⟨entryOf .ast _, mem_entries_iff.mpr ⟨.ast, _, rfl, rfl⟩, rfl⟩
  short := short

theorem testBit_module (w : Containers.Writing) (compressed : Bool) :
    (w.flags compressed).testBit FLAG_MODULE = w.is_module := by
  unfold Containers.Writing.flags
  cases w.strict <;> cases w.is_module <;> cases compressed <;> decide

/-- What a cold run writes is loaded back as its archive. -/
theorem written_archived (fresh : Nat → UInt8) (w : Containers.Writing)
    (mode : w.is_module = run.call.is_module)
    (short : (Containers.payload (run.entries texts mir)).length < 2 ^ 32) :
    ∃ mf, (Containers.lr_iome586_load fresh w.script
        (w.write_container (Containers.payload (run.entries texts mir)))).result =
          some (.loaded mf) ∧ run.Archived mf := by
  obtain ⟨mf, loaded, _, places⟩ :=
    loadable_returns fresh w (entries_loadable short)
  have stored : ∀ kind, mf.data kind = run.data texts mir kind := by
    intro kind
    ext data
    constructor
    · intro found
      obtain ⟨entry, member, named, rfl⟩ := (places kind.name data).mpr ⟨kind, rfl, found⟩
      obtain ⟨kind', data, held, rfl⟩ := mem_entries_iff.mp member
      obtain rfl := name_injective named
      exact held
    · intro found
      obtain ⟨kind', named, here⟩ := (places kind.name data).mp
        ⟨_, mem_entries_iff.mpr ⟨kind, data, found, rfl⟩, rfl, rfl⟩
      obtain rfl := name_injective named
      exact here
  refine ⟨mf, loaded, stored .ast, stored .bytecode, ?_⟩
  obtain ⟨_, _, _, _, _, rfl⟩ := load_loaded_iff.mp loaded
  show (readHeader _).flags.testBit FLAG_MODULE = run.call.is_module
  rw [readHeader_written, ← mode]
  exact testBit_module w _

end Written

def finished (e : Engine World Value) (fuel : Nat) (before : World) :
    SeenRun World Value → Option (Finish World)
  | .running _ _ _ => none
  | .bad => some (.fault .machine)
  | .ended after => (e.exec_done fuel before after).result

theorem result_execute (fuel : Nat) (is_module : Bool) (p : BCProgram) (world : World) :
    (e.execute fuel is_module p world).result =
      finished e fuel world (e.handlers.bc_execute p fuel (e.enter is_module world)).seen := by
  unfold Engine.execute
  cases e.handlers.bc_execute p fuel (e.enter is_module world) with
  | running s | ended after | bad => rfl

theorem execute_alike {p q : BCProgram} (alike : p.Alike q) (fuel : Nat) (is_module : Bool)
    (world : World) :
    (e.execute fuel is_module p world).result = (e.execute fuel is_module q world).result := by
  rw [result_execute, result_execute, alike World Value e.handlers]

theorem events_exec_done (fuel : Nat) (before after : World) :
    (e.exec_done fuel before after).events = [] := by
  unfold Engine.exec_done
  cases e.run_jobs fuel (e.leave before after) with
  | none | some world => rfl

theorem exec_done_ne_fault (fuel : Nat) (before after : World) (why : Fault) :
    (e.exec_done fuel before after).result ≠ some (.fault why) := by
  unfold Engine.exec_done
  cases e.run_jobs fuel (e.leave before after) with
  | none =>
    intro ends
    cases ends
  | some world =>
    intro same
    have ends := some.inj same
    split at ends <;> cases ends

theorem events_execute (fuel : Nat) (is_module : Bool) (p : BCProgram) (world : World) :
    (e.execute fuel is_module p world).events = [⟨is_module⟩] := by
  unfold Engine.execute
  cases e.handlers.bc_execute p fuel (e.enter is_module world) with
  | running s => rfl
  | ended after => exact congrArg (cons _) (events_exec_done fuel world after)
  | bad => rfl

theorem execute_fault {fuel : Nat} {is_module : Bool} {p : BCProgram} {world : World}
    {why : Fault} (ends : (e.execute fuel is_module p world).result = some (.fault why)) :
    why = .machine := by
  rw [result_execute] at ends
  cases seen : (e.handlers.bc_execute p fuel (e.enter is_module world)).seen with
  | running ip stack after =>
    rw [seen] at ends
    cases ends
  | ended after =>
    rw [seen] at ends
    exact absurd ends (exec_done_ne_fault _ _ _ _)
  | bad =>
    rw [seen] at ends
    cases ends
    rfl

section Units

variable {cached : Option Compiled} {ast : Node} {src : Bytes}

def Executes (e : Engine World Value) (cached : Option Compiled) (ast : Node) (p : Compiled) :
    Prop :=
  cached = some p ∨ cached = none ∧ e.bc_compile ast = some p

theorem exec_unit_executes {p : Compiled} (executes : Executes e cached ast p) (fuel : Nat)
    (is_module : Bool) (world : World) :
    e.lr_engine_exec_unit cached fuel is_module ⟨ast, some src, none⟩ world =
      e.execute fuel is_module p.1 world := by
  obtain found | ⟨absent, compiled⟩ := executes
  · rw [found]
    rfl
  · unfold Engine.lr_engine_exec_unit
    rw [absent]
    rw [compiled]

theorem exec_unit_stops (absent : cached = none) (failed : e.bc_compile ast = none) (fuel : Nat)
    (is_module : Bool) (world : World) :
    e.lr_engine_exec_unit cached fuel is_module ⟨ast, some src, none⟩ world =
      e.exec_done fuel world (e.compilation_failed (e.enter is_module world)) := by
  unfold Engine.lr_engine_exec_unit
  rw [absent]
  rw [failed]

theorem executes_or_stops (e : Engine World Value) (cached : Option Compiled) (ast : Node) :
    (∃ p, Executes e cached ast p) ∨ cached = none ∧ e.bc_compile ast = none := by
  cases cached with
  | some p => exact .inl ⟨p, .inl rfl⟩
  | none =>
    cases compiled : e.bc_compile ast with
    | some p => exact .inl ⟨p, .inr ⟨rfl, compiled⟩⟩
    | none => exact .inr ⟨rfl, rfl⟩

theorem length_events_exec_unit (fuel : Nat) (is_module : Bool) (world : World) :
    (e.lr_engine_exec_unit cached fuel is_module ⟨ast, some src, none⟩ world).events.length ≤
      1 := by
  obtain ⟨p, executes⟩ | ⟨absent, failed⟩ := executes_or_stops e cached ast
  · rw [exec_unit_executes executes, events_execute]
    exact Nat.le_refl _
  · rw [exec_unit_stops absent failed, events_exec_done]
    exact Nat.zero_le _

theorem exec_unit_fault {fuel : Nat} {is_module : Bool} {world : World} {why : Fault}
    (ends : (e.lr_engine_exec_unit cached fuel is_module ⟨ast, some src, none⟩ world).result =
      some (.fault why)) : why = .machine := by
  obtain ⟨p, executes⟩ | ⟨absent, failed⟩ := executes_or_stops e cached ast
  · rw [exec_unit_executes executes] at ends
    exact execute_fault ends
  · rw [exec_unit_stops absent failed] at ends
    exact absurd ends (exec_done_ne_fault _ _ _ _)

end Units

structure WarmCall (e : Engine World Value) where
  call : Call World
  run : CompleteRun e
  mf : Manifest
  same : run.call.src = call.src
  archived : run.Archived mf

namespace WarmCall

variable (c : WarmCall e)

def Faithful : Prop :=
  (∀ ended, (∃ fuel, (lr_exec_file_cached e c.call (some c.mf) fuel).result = some ended) ↔
      ∃ fuel, (lr_exec_file_cached e c.call none fuel).result = some ended) ∧
    ∀ fuel, (lr_exec_file_cached e c.call (some c.mf) fuel).events.length ≤ 1

def start : World :=
  restored_world e c.call c.mf

def Accepts (q : BCProgram) : Prop :=
  ∃ data, c.run.bytecode = some data ∧ bc_deserialize data = .done q

def Quiet (q : BCProgram) : Prop :=
  ∀ fuel world,
    (e.execute fuel c.run.call.is_module q c.start).result ≠ some (.exception world)

/-- The call has the mode of the archive and its own world and program, and the program survives
its archive. -/
structure Matches : Prop where
  mode : c.run.call.is_module = c.call.is_module
  world : c.start = c.call.world
  program : ∀ p, c.call.cached = some p → e.bc_compile c.run.ast = some p
  sized : ∀ p : Compiled, e.bc_compile c.run.ast = some p → p.1.code.length + 16 < 2 ^ 31
  short : ∀ p : Compiled, e.bc_compile c.run.ast = some p →
    ∀ chars, .string chars ∈ p.1.consts → chars.length + 1 < 2 ^ 32

/-- The tree is read, and it is `NULL`, or the program is accepted, does not throw, and is that of
the call. -/
def Repeats : Prop :=
  ∃ root, read_tree c.call (lr_ast_serialize c.run.ast) = some root ∧
    (root = .null ∨ ∃ q, c.Accepts q ∧ c.Quiet q ∧ c.Matches)

end WarmCall

def Finish.ended (e : Engine World Value) : Finish World → Ended World
  | .value world => .returned 0 world
  | .exception world => .returned (-1) (e.lr_check_exception world)
  | .fault why => .fault why

section Cold

variable {call : Call World} {ast : Node} (parsed : e.parse_program call.src = some ast)
include parsed

theorem result_exec_cold (fuel : Nat) (world : World) :
    (exec_cold e call fuel world).result =
      (e.lr_engine_exec_unit call.cached fuel call.is_module ⟨ast, some call.src, none⟩
        world).result.map (Finish.ended e) := by
  unfold exec_cold
  rw [parsed]
  apply (Course.result_andThen _ _).trans
  rw [map_eq_bind]
  apply congrArg
  funext finish
  cases finish with
  | value world | exception world | fault why => rfl

theorem events_exec_cold (fuel : Nat) (world : World) :
    (exec_cold e call fuel world).events =
      (e.lr_engine_exec_unit call.cached fuel call.is_module ⟨ast, some call.src, none⟩
        world).events := by
  unfold exec_cold
  rw [parsed]
  unfold Course.andThen
  dsimp only
  cases (e.lr_engine_exec_unit call.cached fuel call.is_module ⟨ast, some call.src, none⟩
    world).result with
  | none => rfl
  | some finish =>
    cases finish with
    | value world | exception world | fault why => exact append_nil _

end Cold

namespace WarmCall

variable {c : WarmCall e}

theorem parsed : e.parse_program c.call.src = some c.run.ast :=
  c.same ▸ c.run.parsed

variable {q : BCProgram}

theorem Accepts.compiled (accepts : c.Accepts q) :
    ∃ (p : Compiled) (data : Bytes), e.bc_compile c.run.ast = some p ∧
      bc_serialize p.1 = some data ∧ bc_deserialize data = .done q := by
  obtain ⟨data, bytes, read⟩ := accepts
  unfold CompleteRun.bytecode at bytes
  split at bytes
  · cases bytes
  · obtain ⟨p, compiled, written⟩ := bind_eq_some_iff.mp bytes
    exact ⟨p, data, compiled, written, read⟩

theorem Accepts.archived (accepts : c.Accepts q) (ast : Node) (fuel : Nat) :
    exec_archived e c.call c.mf ast fuel =
      e.execute fuel c.run.call.is_module q c.start := by
  obtain ⟨data, bytes, read⟩ := accepts
  have long : 0 < data.length := by
    apply length_pos_of_ne_nil
    intro empty
    rw [empty] at read
    cases read
  unfold exec_archived Engine.lr_engine_eval_ast_with_bytecode
  rw [c.archived.bytecode, c.archived.mode, bytes]
  dsimp only
  rw [if_pos long, read]
  rfl

/-- An archive whose bytecode is refused ends in a fault that no cold run has. -/
theorem archived_refused (refused : ¬∃ q, c.Accepts q) (ast : Node) :
    ∃ why, why ≠ .machine ∧ ∀ fuel,
      exec_archived e c.call c.mf ast fuel = .done (.fault why) := by
  have text : Fault.no_text ≠ .machine := by
    intro same
    cases same
  unfold exec_archived Engine.lr_engine_eval_ast_with_bytecode
  rw [c.archived.bytecode]
  cases bytes : c.run.bytecode with
  | none => exact ⟨.no_text, text, fun fuel => rfl⟩
  | some data =>
    dsimp only
    split
    · cases read : bc_deserialize data with
      | null => exact ⟨.no_text, text, fun fuel => rfl⟩
      | fault why =>
        refine ⟨.program why, ?_, fun fuel => rfl⟩
        intro same
        cases same
      | done q => exact absurd ⟨q, data, bytes, read⟩ refused
    · exact ⟨.no_text, text, fun fuel => rfl⟩

section Read

variable {type : Nat} {token : AstCodec.Token} {linked : Bool} {values : AstCodec.Values}
  (tree : read_tree c.call (lr_ast_serialize c.run.ast) = some (.node type token linked values))
include tree

theorem warm_read (fuel : Nat) : lr_exec_file_cached e c.call (some c.mf) fuel =
    (exec_archived e c.call c.mf (.node type token linked values) fuel).andThen
      (warm_result e c.call fuel) := by
  unfold lr_exec_file_cached exec_warm
  dsimp only
  rw [c.archived.ast, getD_some, tree]

variable {q : BCProgram} (accepts : c.Accepts q)
include accepts

theorem result_quiet (quiet : c.Quiet q) (fuel : Nat) :
    (lr_exec_file_cached e c.call (some c.mf) fuel).result =
      (e.execute fuel c.run.call.is_module q c.start).result.map (Finish.ended e) := by
  rw [warm_read tree, accepts.archived, Course.result_andThen]
  have calm := quiet fuel
  cases ends : (e.execute fuel c.run.call.is_module q c.start).result with
  | none => rfl
  | some finish =>
    cases finish with
    | value world => rfl
    | exception world => exact absurd ends (calm world)
    | fault why => rfl

theorem events_quiet (quiet : c.Quiet q) (fuel : Nat) :
    (lr_exec_file_cached e c.call (some c.mf) fuel).events.length ≤ 1 := by
  have once := congrArg length
    (events_execute fuel c.run.call.is_module q (e := e) c.start)
  have calm := quiet fuel
  rw [warm_read tree, accepts.archived]
  unfold Course.andThen
  cases ends : (e.execute fuel c.run.call.is_module q c.start).result with
  | none => exact once.le
  | some finish =>
    cases finish with
    | value world => exact (congrArg length (append_nil _)).trans_le once.le
    | exception world => exact absurd ends (calm world)
    | fault why => exact (congrArg length (append_nil _)).trans_le once.le

/-- If the body runs at most once, the archived program does not throw. -/
theorem quiet_of_once
    (once : ∀ fuel, (lr_exec_file_cached e c.call (some c.mf) fuel).events.length ≤ 1) :
    c.Quiet q := by
  intro fuel world throws
  have few := once fuel
  obtain ⟨p, _, compiled, _⟩ := accepts.compiled
  have again : ∃ p, Executes e c.call.cached c.run.ast p := by
    cases found : c.call.cached with
    | some p => exact ⟨p, .inl rfl⟩
    | none => exact ⟨p, .inr ⟨rfl, compiled⟩⟩
  obtain ⟨p, executes⟩ := again
  rw [warm_read tree, accepts.archived] at few
  unfold Course.andThen at few
  rw [throws] at few
  dsimp only at few
  rw [events_execute, warm_result, events_exec_cold parsed, exec_unit_executes executes,
    events_execute] at few
  exact Nat.not_succ_le_self 1 few

end Read

/-- A program that is read back has no nodes. -/
theorem no_nodes {p : BCProgram} {data : Bytes}
    (written : bc_serialize p = some data) (read : bc_deserialize data = .done q) :
    p.node_refs = 0 := by
  by_contra nodes
  unfold bc_serialize at written
  split at written
  · cases written
  · obtain refused | ⟨file, rfl⟩ := refused_or_file data
    · rw [refused] at read
      cases read
    · have header : archive_header BC_SER_FLAG_NODE_REFS p.code.length p.pool.length ++
          (p.code ++ p.consts.flatMap PoolConst.bytes) = file.bytes := by
        simpa [nodes] using written
      have here := (archive_drops BC_SER_FLAG_NODE_REFS p.code.length p.pool.length
        (p.code ++ p.consts.flatMap PoolConst.bytes)).2.1
      have there := (archive_drops file.flags file.code.length file.pool_count
        (file.code ++ file.rest)).2.1
      have flags : get_u32 (file.bytes.drop 8) = .done file.flags := by
        rw [ArchiveFile.bytes, there, get_u32_append, Nat.mod_eq_of_lt file.flags_small]
      rw [← header, here, get_u32_append] at flags
      have odd : 1 = file.flags := by
        injection flags
      have even := file.restorable
      rw [← odd] at even
      cases even

/-- The program from the archive, in its mode and world, ends as that of the source in the mode and
world of the call. -/
theorem Matches.result (fits : c.Matches) (accepts : c.Accepts q) (fuel : Nat) :
    (e.execute fuel c.run.call.is_module q c.start).result =
      (e.lr_engine_exec_unit c.call.cached fuel c.call.is_module
        ⟨c.run.ast, some c.call.src, none⟩ c.call.world).result := by
  obtain ⟨p, data, compiled, written, read⟩ := accepts.compiled
  obtain ⟨data', q', wrote, restored, _, _, alike⟩ := BCProgram.round_trips_of_fits p.2
    (no_nodes written read) (fits.sized p compiled) (fits.short p compiled)
  obtain rfl := some.inj (written.symm.trans wrote)
  rw [read] at restored
  cases restored
  have executes : Executes e c.call.cached c.run.ast p := by
    cases found : c.call.cached with
    | none => exact .inr ⟨rfl, compiled⟩
    | some other =>
      have same := fits.program other found
      rw [compiled] at same
      exact .inl same.symm
  rw [exec_unit_executes executes, fits.mode, fits.world, execute_alike alike]

theorem result_none (fuel : Nat) : (lr_exec_file_cached e c.call none fuel).result =
    (e.lr_engine_exec_unit c.call.cached fuel c.call.is_module
      ⟨c.run.ast, some c.call.src, none⟩ c.call.world).result.map (Finish.ended e) :=
  result_exec_cold parsed fuel c.call.world

/-- A warm run that repeats the cold one has its effects. -/
theorem Repeats.faithful (repeats : c.Repeats) : c.Faithful := by
  obtain ⟨root, tree, condition⟩ := repeats
  cases root with
  | null =>
    have cold : ∀ fuel, lr_exec_file_cached e c.call (some c.mf) fuel =
        lr_exec_file_cached e c.call none fuel := by
      intro fuel
      unfold lr_exec_file_cached exec_warm
      dsimp only
      rw [c.archived.ast, getD_some, tree]
    refine ⟨fun ended => by simp only [cold], fun fuel => ?_⟩
    rw [cold]
    show (exec_cold e c.call fuel c.call.world).events.length ≤ 1
    rw [events_exec_cold parsed]
    exact length_events_exec_unit ..
  | node type token linked values =>
    obtain impossible | ⟨q, accepts, quiet, fits⟩ := condition
    · cases impossible
    have same : ∀ fuel, (lr_exec_file_cached e c.call (some c.mf) fuel).result =
        (lr_exec_file_cached e c.call none fuel).result := by
      intro fuel
      rw [result_quiet tree accepts quiet, result_none, fits.result accepts]
    exact ⟨fun ended => by simp only [same], events_quiet tree accepts quiet⟩

theorem cold_fault {fuel : Nat} {why : Fault}
    (ends : (lr_exec_file_cached e c.call none fuel).result = some (.fault why)) :
    why = .machine := by
  rw [result_none] at ends
  obtain ⟨finish, ends, same⟩ := map_eq_some_iff.mp ends
  cases finish with
  | value world | exception world => cases same
  | fault other =>
    cases same
    exact exec_unit_fault ends

/-- A run with the same effects and matching programs repeats the cold one. -/
theorem Faithful.repeats (faithful : c.Faithful) (fits : c.Matches) : c.Repeats := by
  obtain ⟨same, once⟩ := faithful
  cases tree : read_tree c.call (lr_ast_serialize c.run.ast) with
  | none =>
    have faults : (lr_exec_file_cached e c.call (some c.mf) 0).result =
        some (.fault .tree) := by
      unfold lr_exec_file_cached exec_warm
      dsimp only
      rw [c.archived.ast, getD_some, tree]
      rfl
    obtain ⟨fuel, ends⟩ := (same _).mp ⟨0, faults⟩
    cases cold_fault ends
  | some root =>
    refine ⟨root, tree, ?_⟩
    cases root with
    | null => exact .inl rfl
    | node type token linked values =>
      right
      by_cases accepted : ∃ q, c.Accepts q
      · obtain ⟨q, accepts⟩ := accepted
        exact ⟨q, accepts, quiet_of_once tree accepts once, fits⟩
      · obtain ⟨why, other, faults⟩ :=
          archived_refused accepted (.node type token linked values)
        have ends : (lr_exec_file_cached e c.call (some c.mf) 0).result =
            some (.fault why) := by
          rw [warm_read tree, faults]
          rfl
        obtain ⟨fuel, ends⟩ := (same _).mp ⟨0, ends⟩
        exact absurd (cold_fault ends) other

/-- A call with an archive does what it does without one, and runs the body once, if the tree is
`NULL`, or the program is accepted, does not throw, and is that of the call.  Where it is that of
the call, this is exact. -/
theorem warm_run_iff (c : WarmCall e) :
    (c.Repeats → c.Faithful) ∧ (c.Matches → (c.Faithful ↔ c.Repeats)) :=
  ⟨Repeats.faithful, fun fits => ⟨fun faithful => faithful.repeats fits, Repeats.faithful⟩⟩

end WarmCall

/-- The world of the script `flag`. -/
structure FlagWorld where
  /-- There is a global `flag`. -/
  defined : Bool
  raised : Bool

def flagHandlers : HandlerSet FlagWorld Unit where
  slot_count _ := 0
  handle d _ stack world :=
    match d.op with
    | .load_var =>
      if world.defined = true then .goes false (() :: stack) world
      else .aborts { world with raised := true }
    | .set_result => .goes false stack.tail world
    | .stop => .goes false stack world
    | _ => .aborts world
  vm_abort world := world
  depth := by
    rintro ⟨op, values, behind⟩ consts stack after world next jumps left handled flows
    cases op
    case load_var =>
      dsimp only at handled
      split at handled
      · cases handled
        simp only [Decoded.micro, BCOpcode.micro, Micro.flow] at flows
        split at flows
        · split at flows
          · exact Option.some.inj (Option.some.inj flows)
          · cases flows
        · cases flows
      · cases handled
    case set_result =>
      cases handled
      simp only [Decoded.micro, BCOpcode.micro, Micro.flow] at flows
      split at flows
      · exact List.length_tail.trans (Option.some.inj (Option.some.inj flows))
      · cases flows
    case stop =>
      cases handled
      exact Option.some.inj (Option.some.inj flows)
    all_goals cases handled

/-- What `bc_compile` makes of the script: `BC_LOAD_VAR`, `BC_SET_RESULT` and `BC_STOP`. -/
def flagProgram : BCProgram :=
  ((((((bc_new_program.pool_add_str (Containers.ascii "flag")).emit_byte 15).emit_byte
    0).emit_byte 0).emit_byte 86).emit_byte 0).describe
    { max_stack := 64
      compiled := true
      local_count := 0
      nparams := 0
      is_pure := false
      uses_this := false
      uses_super := false
      uses_name_ops := true
      scans_arguments := false
      can_inline := false
      touches_eval_node := false }

theorem flag_produced : flagProgram.Produced := by
  have pool : (bc_new_program.pool_add_str (ascii "flag")).Emitted :=
    .string _ .new (Nat.le_of_ble_eq_true rfl)
  have opcode := pool.emit_byte 15 (Nat.le_of_ble_eq_true rfl)
  have low := opcode.emit_byte 0 (Nat.le_of_ble_eq_true rfl)
  have high := low.emit_byte 0 (Nat.le_of_ble_eq_true rfl)
  have result := high.emit_byte 86 (Nat.le_of_ble_eq_true rfl)
  have stop := result.emit_byte 0 (Nat.le_of_ble_eq_true rfl)
  exact ⟨.described _ stop, rfl, nofun⟩

def flagTree : Node :=
  let token : AstCodec.Token := ⟨1, 1, 1, 0⟩
  let identifier : Node := .node AstCodec.NodeType.identifier.code token false
    (.cons (.text (some (Containers.ascii "flag"))) .nil)
  let statement : Node := .node AstCodec.NodeType.exprStmt.code token false
    (.cons (.child identifier) .nil)
  .node AstCodec.NodeType.program.code token false
    (.cons (.list 1 (.cons statement .nil)) .nil)

def flagEngine : Engine FlagWorld Unit where
  parse_program src := if src = Containers.ascii "flag" then some flagTree else none
  bc_compile _ := some ⟨flagProgram, flag_produced⟩
  handlers := flagHandlers
  enter _ world := world
  leave _ after := after
  run_jobs _ world := some world
  raised world := world.raised
  surface world := { world with raised := false }
  lr_throw_syntax_error world := world
  compilation_failed world := { world with raised := true }
  lr_check_exception world := world
  lr_iome586_restore_globals _ world := world

/-- A call for the script, with or without a global `flag`. -/
def flagCall (defined : Bool) : Call FlagWorld where
  src := Containers.ascii "flag"
  is_module := false
  restore_globals := false
  memory _ _ := true
  cached := none
  world := ⟨defined, false⟩

/-- A complete run, with a global `flag`. -/
def flagRun : CompleteRun flagEngine where
  call := flagCall true
  ast := flagTree
  parsed := rfl
  completes := ⟨3, ⟨true, false⟩, rfl⟩

def flagWriting : Containers.Writing where
  script := ⟨false, 0, Containers.ascii "flag", by decide⟩
  strict := false
  is_module := false
  created_at := 0
  opt_ratio := 0
  desc := []
  desc_fits := by decide
  compression := false
  enough _ _ := false
  enough_shrinks _ _ _ enough := by cases enough

theorem flag_strings : ∀ chars, .string chars ∈ flagProgram.consts →
    chars.length + 1 < 2 ^ 32 := by
  intro chars member
  have only : flagProgram.consts = [.string (ascii "flag")] := by
    decide +kernel
  rw [only, mem_singleton] at member
  injection member with member
  rw [member]
  decide +kernel

theorem flag_round_trips : flagProgram.RoundTrips :=
  BCProgram.round_trips_of_fits flag_produced rfl (by decide) flag_strings

theorem flag_quiet (fuel : Nat) (world : FlagWorld) :
    (flagEngine.execute fuel false flagProgram ⟨true, false⟩).result ≠ some (.exception world) := by
  intro throws
  match fuel with
  | 0 | 1 | 2 => cases throws
  | fuel + 3 => cases throws

set_option maxRecDepth 4000 in
/-- With the global `flag` the archived script repeats what it did. -/
theorem warm_run_flag : ∃ c : WarmCall flagEngine, c.call = flagCall true ∧ c.Faithful := by
  have short : (payload (flagRun.entries (fun _ => []) none)).length < 2 ^ 32 := by
    decide +kernel
  obtain ⟨mf, _, archived⟩ := written_archived (fun _ => 0) flagWriting rfl short
  obtain ⟨data, q, written, read, _, _, alike⟩ := flag_round_trips
  let c : WarmCall flagEngine := ⟨flagCall true, flagRun, mf, rfl, archived⟩
  have quiet : c.Quiet q := by
    intro fuel world
    rw [← execute_alike alike]
    exact flag_quiet fuel world
  have fits : c.Matches := by
    refine ⟨rfl, rfl, nofun, ?_, ?_⟩
    · rintro _ ⟨⟩
      decide
    · rintro _ ⟨⟩
      exact flag_strings
  exact ⟨c, rfl, (WarmCall.warm_run_iff c).1
    ⟨flagTree, rfl, .inr ⟨q, ⟨data, written, read⟩, quiet, fits⟩⟩⟩

set_option maxRecDepth 4000 in
/-- The archived script throws without a global `flag`, and its source is executed once more. -/
theorem throwing_body_runs_twice :
    ¬∀ (World Value : Type) (e : Engine World Value) (c : WarmCall e), c.Faithful := by
  intro faithful
  have short : (payload (flagRun.entries (fun _ => []) none)).length < 2 ^ 32 := by
    decide +kernel
  obtain ⟨mf, _, archived⟩ := written_archived (fun _ => 0) flagWriting rfl short
  let c : WarmCall flagEngine := ⟨flagCall false, flagRun, mf, rfl, archived⟩
  obtain ⟨data, q, written, read, _, _, alike⟩ := flag_round_trips
  have accepts : c.Accepts q := ⟨data, written, read⟩
  have tree : read_tree c.call (lr_ast_serialize c.run.ast) = some flagTree := rfl
  have quiet := WarmCall.quiet_of_once tree accepts (faithful _ _ flagEngine c).2
  have throws : (flagEngine.execute 3 false q ⟨false, false⟩).result =
      some (.exception ⟨false, false⟩) := by
    rw [← execute_alike alike]
    rfl
  exact quiet 3 _ throws

end LRJS.WarmRuns
