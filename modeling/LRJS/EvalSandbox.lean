import Mathlib.Data.List.Basic

/-!
# Nested evals

`lr_engine_eval_code` runs a fragment inside a sandbox frame, which holds the limits and the control
state of the caller.  What a fragment does is a tree: its own work, function calls, modules it loads
and evals inside it, each with the jobs that are drained after it.
-/

namespace LRJS

open List Option

/-- The fields that running code writes; object and scope pointers are
addresses, `none` is `undefined`. -/
structure CodeState (Value : Type) where
  stmt_counter : Int
  break_target : Int
  continue_target : Int
  return_target : Int
  has_returned : Int
  current_scope : Nat
  error_flag : Bool
  error_message : String
  exception_pending : Bool
  exception_value : Option Value

structure Interpreter (Value : Type) extends CodeState Value where
  global_scope : Nat
  is_module : Bool
  module_ns : Option Nat
  filename : Option String
  import_meta : Option Nat
  timeout_ms : Int

structure LREvalSandbox where
  parent : Option LREvalSandbox
  depth : Int
  saved_timeout_ms : Int
  saved_stmt_counter : Int
  saved_break_target : Int
  saved_continue_target : Int
  saved_return_target : Int
  saved_has_returned : Int

/-- The fields of `LRContext` that an eval reads or writes. -/
structure EvalContext (Value : Type) where
  eval_sandbox : Option LREvalSandbox
  eval_depth : Int
  max_eval_depth : Int
  eval_timeout_ms : Int
  eval_disabled : Bool
  current_exception : Option Value
  error_message : Option String

/-- `LRPersistentInterp` with its context. -/
structure EvalMachine (Value : Type) where
  interp : Interpreter Value
  ctx : EvalContext Value
  keep_caller_scope : Bool

/-- What the parser and the compiler make of a source text: a program carries
its completion value. -/
inductive EvalText (Value : Type)
  | invalid (message : String)
  | uncompiled
  | program (completion : Value)

/-- What code does, as far as evals are concerned.  `work` leaves arbitrary values in the fields
that code writes; `load` evaluates a module or script. -/
inductive Act (Value : Type)
  | work (now : CodeState Value)
  | meta_object (address : Nat)
  | configure (max_eval_depth eval_timeout_ms : Int) (eval_disabled : Bool)
  | call (func_scope : Nat) (body : List (Act Value))
  | load (is_module : Bool) (filename : String) (ns : Nat) (text : EvalText Value)
      (body : List (Act Value)) (jobs : List (Nat × List (Act Value)))
  | eval (direct : Bool) (text : EvalText Value) (body : List (Act Value))
      (jobs : List (Nat × List (Act Value)))

/-- What is seen of a run: code that is running inside evals whose callers had
the listed deadlines, and evals that have returned. -/
inductive EvalReport (Value : Type)
  | running (enclosing : List Int) (timeout_ms : Int)
  | returned (before : EvalMachine Value) (text : EvalText Value) (after : EvalMachine Value)
      (result : Option Value)

namespace EvalMachine

variable {Value : Type}

/-! ## The sandbox -/

def LR_EVAL_MAX_DEPTH_DEFAULT : Int := 256

/-- The nesting depth at which `lr_eval_sandbox_enter` refuses. -/
def max_depth (machine : EvalMachine Value) : Int :=
  if machine.ctx.max_eval_depth > 0 then machine.ctx.max_eval_depth
  else LR_EVAL_MAX_DEPTH_DEFAULT

/-- The deadline that `lr_eval_sandbox_enter` installs. -/
def budget (machine : EvalMachine Value) : Int :=
  let budget := if machine.ctx.eval_timeout_ms > 0 then machine.ctx.eval_timeout_ms
    else machine.interp.timeout_ms
  if machine.interp.timeout_ms > 0 ∧ budget > machine.interp.timeout_ms then
    machine.interp.timeout_ms
  else budget

/-- The frame that `lr_eval_sandbox_enter` fills. -/
def frame (machine : EvalMachine Value) : LREvalSandbox where
  parent := machine.ctx.eval_sandbox
  depth := machine.ctx.eval_depth + 1
  saved_timeout_ms := machine.interp.timeout_ms
  saved_stmt_counter := machine.interp.stmt_counter
  saved_break_target := machine.interp.break_target
  saved_continue_target := machine.interp.continue_target
  saved_return_target := machine.interp.return_target
  saved_has_returned := machine.interp.has_returned

/-- What `lr_eval_sandbox_enter` installs. -/
def sandboxed (machine : EvalMachine Value) : EvalMachine Value :=
  { machine with
    interp := { machine.interp with
      timeout_ms := machine.budget
      stmt_counter := 0
      break_target := 0
      continue_target := 0
      return_target := 0
      has_returned := 0 }
    ctx := { machine.ctx with
      eval_sandbox := some machine.frame
      eval_depth := machine.frame.depth } }

/-- `lr_eval_sandbox_enter`, which refuses when the nesting is too deep. -/
def lr_eval_sandbox_enter (machine : EvalMachine Value) :
    Option (LREvalSandbox × EvalMachine Value) :=
  if machine.ctx.eval_depth ≥ machine.max_depth then none
  else some (machine.frame, machine.sandboxed)

def lr_eval_sandbox_leave (sb : LREvalSandbox) (machine : EvalMachine Value) :
    EvalMachine Value :=
  { machine with
    interp := { machine.interp with
      timeout_ms := sb.saved_timeout_ms
      stmt_counter := sb.saved_stmt_counter
      break_target := sb.saved_break_target
      continue_target := sb.saved_continue_target
      return_target := sb.saved_return_target
      has_returned := sb.saved_has_returned }
    ctx := { machine.ctx with
      eval_sandbox := sb.parent
      eval_depth := sb.depth - 1 } }

/-! ## Running a unit -/

section Units

variable (lr_build_error_object : String → String → Value)

def lr_throw_error_named (kind message : String) (machine : EvalMachine Value) :
    EvalMachine Value :=
  { machine with
    ctx := { machine.ctx with
      error_message := some message
      current_exception := some (lr_build_error_object kind message) } }

/-- The end of `lr_engine_exec_unit`: an error or exception is handed over to
the context. -/
def hand_over (machine : EvalMachine Value) (result : Option Value) :
    EvalMachine Value × Option Value :=
  if machine.interp.error_flag || machine.interp.exception_pending then
    let ctx :=
      if machine.interp.exception_pending then
        { machine.ctx with current_exception := machine.interp.exception_value }
      else if machine.ctx.error_message.isNone then
        { machine.ctx with
          error_message := some (if machine.interp.error_message = "" then "uncaught error"
            else machine.interp.error_message) }
      else machine.ctx
    ({ machine with
        ctx := ctx
        interp := { machine.interp with
          exception_value :=
            if machine.interp.exception_pending then none else machine.interp.exception_value
          error_flag := false
          exception_pending := false
          error_message := "" } },
      none)
  else (machine, result)

abbrev Seen (Value : Type) := EvalMachine Value × List (EvalReport Value)

/-- The fields that `lr_engine_exec_unit` sets before the unit runs. -/
def unit_entered (is_module : Bool) (filename : String) (ns : Nat)
    (machine : EvalMachine Value) : EvalMachine Value :=
  { machine with
    keep_caller_scope := false
    interp := { machine.interp with
      current_scope := if machine.keep_caller_scope then machine.interp.current_scope
        else machine.interp.global_scope
      is_module := is_module
      filename := some filename
      import_meta := none
      module_ns := if is_module then some ns else machine.interp.module_ns } }

/-- The fields that `lr_engine_exec_unit` puts back after it. -/
def unit_left (saved machine : EvalMachine Value) : EvalMachine Value :=
  { machine with
    interp := { machine.interp with
      current_scope := saved.interp.current_scope
      is_module := saved.interp.is_module
      module_ns := saved.interp.module_ns
      import_meta := saved.interp.import_meta
      filename := saved.interp.filename } }

/-- The part of `lr_engine_exec_unit` that compiles and runs the unit. -/
def unit_executed (text : EvalText Value) (body : EvalMachine Value → Seen Value)
    (machine : EvalMachine Value) : Seen Value :=
  match text with
  | .program _ => body machine
  | _ =>
    ({ machine with
        interp := { machine.interp with
          error_flag := true
          error_message := "bytecode compilation failed" } },
      [])

def completion : EvalText Value → Option Value
  | .program value => some value
  | _ => none

/-- `lr_engine_exec_unit`, which drains the pending jobs after the unit. -/
def lr_engine_exec_unit (text : EvalText Value) (is_module : Bool) (filename : String) (ns : Nat)
    (body jobs : EvalMachine Value → Seen Value) (machine : EvalMachine Value) :
    (EvalMachine Value × Option Value) × List (EvalReport Value) :=
  let ran := unit_executed text body (machine.unit_entered is_module filename ns)
  let drained := jobs (machine.unit_left ran.1)
  (drained.1.hand_over (completion text), ran.2 ++ drained.2)

/-- `lr_engine_eval_source`, which has no sandbox. -/
def lr_engine_eval_source (text : EvalText Value) (is_module : Bool) (filename : String)
    (ns : Nat) (body jobs : EvalMachine Value → Seen Value) (machine : EvalMachine Value) :
    (EvalMachine Value × Option Value) × List (EvalReport Value) :=
  match text with
  | .invalid message =>
    ((machine.lr_throw_error_named lr_build_error_object "SyntaxError" message, none), [])
  | _ => machine.lr_engine_exec_unit text is_module filename ns body jobs

def lr_engine_eval_code (direct : Bool) (text : EvalText Value)
    (body jobs : EvalMachine Value → Seen Value) (machine : EvalMachine Value) :
    (EvalMachine Value × Option Value) × List (EvalReport Value) :=
  if machine.ctx.eval_disabled then
    ((machine.lr_throw_error_named lr_build_error_object "TypeError"
      "eval is disabled in this context", none), [])
  else
    match machine.lr_eval_sandbox_enter with
    | none =>
      ((machine.lr_throw_error_named lr_build_error_object "RangeError"
        "maximum eval nesting depth exceeded", none), [])
    | some (sb, entered) =>
      match text with
      | .invalid message =>
        -- the syntax error is thrown before the sandbox is left
        (((entered.lr_throw_error_named lr_build_error_object "SyntaxError"
          message).lr_eval_sandbox_leave sb, none), [])
      | _ =>
        let ran := { entered with keep_caller_scope := direct }.lr_engine_exec_unit text
          false "<eval>" 0 body jobs
        ((ran.1.1.lr_eval_sandbox_leave sb, ran.1.2), ran.2)

/-- `interp_call_function`, as far as it saves and restores the caller's
state. -/
def interp_call_function (func_scope : Nat) (body : EvalMachine Value → Seen Value)
    (machine : EvalMachine Value) : Seen Value :=
  let ran := body
    { machine with
      interp := { machine.interp with
        break_target := 0
        continue_target := 0
        return_target := 0
        has_returned := 0
        error_flag := false
        current_scope := func_scope } }
  let failed := ran.1.interp.error_flag
  ({ ran.1 with
      interp := { ran.1.interp with
        current_scope := machine.interp.current_scope
        break_target := machine.interp.break_target
        continue_target := machine.interp.continue_target
        return_target := machine.interp.return_target
        has_returned := machine.interp.has_returned
        error_flag := failed || machine.interp.error_flag
        error_message := if !failed && machine.interp.error_flag then machine.interp.error_message
          else ran.1.interp.error_message } },
    ran.2)

/-- `interp_get_import_meta`: the object of the running unit, made at its first
use. -/
def interp_get_import_meta (address : Nat) (machine : EvalMachine Value) : EvalMachine Value :=
  match machine.interp.import_meta with
  | some _ => machine
  | none => { machine with interp := { machine.interp with import_meta := some address } }

/-! ## Runs -/

mutual

/-- One act of running code, inside evals whose callers have the `enclosing`
deadlines. -/
def perform (enclosing : List Int) (machine : EvalMachine Value) : Act Value → Seen Value
  | .work now => ({ machine with interp := { machine.interp with toCodeState := now } }, [])
  | .meta_object address => (machine.interp_get_import_meta address, [])
  | .configure max_eval_depth eval_timeout_ms eval_disabled =>
    ({ machine with
        ctx := { machine.ctx with
          max_eval_depth := max_eval_depth
          eval_timeout_ms := eval_timeout_ms
          eval_disabled := eval_disabled } },
      [])
  | .call func_scope body =>
    machine.interp_call_function func_scope fun entered => performAll enclosing entered body
  | .load is_module filename ns text body jobs =>
    let loaded := machine.lr_engine_eval_source lr_build_error_object text is_module filename ns
      (fun entered => performAll enclosing entered body)
      (fun left => performJobs enclosing left jobs)
    (loaded.1.1, loaded.2)
  | .eval direct text body jobs =>
    let inner := machine.interp.timeout_ms :: enclosing
    let evaluated := machine.lr_engine_eval_code lr_build_error_object direct text
      (fun entered => performAll inner entered body)
      (fun left => performJobs inner left jobs)
    (evaluated.1.1, evaluated.2 ++ [.returned machine text evaluated.1.1 evaluated.1.2])

def performAll (enclosing : List Int) (machine : EvalMachine Value) :
    List (Act Value) → Seen Value
  | [] => (machine, [.running enclosing machine.interp.timeout_ms])
  | act :: rest =>
    let one := perform enclosing machine act
    let others := performAll enclosing one.1 rest
    (others.1, .running enclosing machine.interp.timeout_ms :: one.2 ++ others.2)

def performJobs (enclosing : List Int) (machine : EvalMachine Value) :
    List (Nat × List (Act Value)) → Seen Value
  | [] => (machine, [])
  | (func_scope, body) :: rest =>
    let one := machine.interp_call_function func_scope fun entered =>
      performAll enclosing entered body
    let others := performJobs enclosing one.1 rest
    (others.1, one.2 ++ others.2)

end

end Units

/-! ## Settings -/

/-- What an eval changes and gives back: limits, deadline, scope, the unit it
belongs to, and the flags of control and of errors. -/
structure Settings where
  timeout_ms : Int
  stmt_counter : Int
  eval_sandbox : Option LREvalSandbox
  eval_depth : Int
  current_scope : Nat
  is_module : Bool
  module_ns : Option Nat
  filename : Option String
  keep_caller_scope : Bool
  break_target : Int
  continue_target : Int
  return_target : Int
  has_returned : Int
  error_flag : Bool
  exception_pending : Bool

def settings (machine : EvalMachine Value) : Settings where
  timeout_ms := machine.interp.timeout_ms
  stmt_counter := machine.interp.stmt_counter
  eval_sandbox := machine.ctx.eval_sandbox
  eval_depth := machine.ctx.eval_depth
  current_scope := machine.interp.current_scope
  is_module := machine.interp.is_module
  module_ns := machine.interp.module_ns
  filename := machine.interp.filename
  keep_caller_scope := machine.keep_caller_scope
  break_target := machine.interp.break_target
  continue_target := machine.interp.continue_target
  return_target := machine.interp.return_target
  has_returned := machine.interp.has_returned
  error_flag := machine.interp.error_flag
  exception_pending := machine.interp.exception_pending

def RunsUnit (machine : EvalMachine Value) (text : EvalText Value) : Prop :=
  machine.ctx.eval_disabled = false ∧ machine.ctx.eval_depth < machine.max_depth ∧
    ∀ message, text ≠ .invalid message

def Calm (machine : EvalMachine Value) : Prop :=
  machine.interp.error_flag = false ∧ machine.interp.exception_pending = false

def Tight (enclosing : List Int) (timeout_ms : Int) : Prop :=
  ∀ outer ∈ enclosing, 0 < outer → 0 < timeout_ms ∧ timeout_ms ≤ outer

end EvalMachine

namespace EvalReport

variable {Value : Type}

/-- Running code meets the enclosing deadlines; an eval gave back every setting, and the
`import.meta` of its caller. -/
def Balanced : EvalReport Value → Prop
  | .running enclosing timeout_ms => EvalMachine.Tight enclosing timeout_ms
  | .returned before _ after _ =>
    after.settings = before.settings ∧
      ∀ address, before.interp.import_meta = some address →
        after.interp.import_meta = some address

def Orderly : EvalReport Value → Prop
  | .running _ _ => True
  | .returned before text _ _ => before.RunsUnit text → before.Calm

end EvalReport

namespace EvalMachine

variable {Value : Type}

/-! ## What a piece of code keeps -/

structure Kept (before after : EvalMachine Value) : Prop where
  timeout_ms : after.interp.timeout_ms = before.interp.timeout_ms
  is_module : after.interp.is_module = before.interp.is_module
  module_ns : after.interp.module_ns = before.interp.module_ns
  filename : after.interp.filename = before.interp.filename
  eval_sandbox : after.ctx.eval_sandbox = before.ctx.eval_sandbox
  eval_depth : after.ctx.eval_depth = before.ctx.eval_depth
  keep_caller_scope : after.keep_caller_scope = before.keep_caller_scope
  import_meta : ∀ address, before.interp.import_meta = some address →
    after.interp.import_meta = some address

/-- A piece of code keeps those fields, and each of its reports is balanced
exactly when it is orderly. -/
structure Sound (machine : EvalMachine Value) (seen : Seen Value) : Prop where
  kept : Kept machine seen.1
  reports : ∀ report ∈ seen.2, report.Balanced ↔ report.Orderly

def SoundCode (enclosing : List Int) (code : EvalMachine Value → Seen Value) : Prop :=
  ∀ machine, Tight enclosing machine.interp.timeout_ms →
    machine.keep_caller_scope = false → Sound machine (code machine)

namespace Kept

variable {first second third : EvalMachine Value}

theorem refl (machine : EvalMachine Value) : Kept machine machine :=
  ⟨rfl, rfl, rfl, rfl, rfl, rfl, rfl, fun _ present => present⟩

theorem trans (one : Kept first second) (two : Kept second third) : Kept first third where
  timeout_ms := two.timeout_ms.trans one.timeout_ms
  is_module := two.is_module.trans one.is_module
  module_ns := two.module_ns.trans one.module_ns
  filename := two.filename.trans one.filename
  eval_sandbox := two.eval_sandbox.trans one.eval_sandbox
  eval_depth := two.eval_depth.trans one.eval_depth
  keep_caller_scope := two.keep_caller_scope.trans one.keep_caller_scope
  import_meta := fun address present => two.import_meta address (one.import_meta address present)

end Kept

/-! ## Deadlines -/

theorem tight_budget {enclosing : List Int} {machine : EvalMachine Value}
    (tight : Tight enclosing machine.interp.timeout_ms) :
    Tight (machine.interp.timeout_ms :: enclosing) machine.budget := by
  have capped (limited : 0 < machine.interp.timeout_ms) :
      0 < machine.budget ∧ machine.budget ≤ machine.interp.timeout_ms := by
    unfold budget
    dsimp only
    split <;> split <;> omega
  intro outer member limited
  rcases mem_cons.mp member with rfl | earlier
  · exact capped limited
  · have own := tight outer earlier limited
    have inner := capped own.1
    exact ⟨inner.1, Int.le_trans inner.2 own.2⟩

/-! ## Units -/

theorem hand_over_calm (machine : EvalMachine Value) (result : Option Value) :
    (machine.hand_over result).1.Calm := by
  unfold hand_over
  split
  · exact ⟨rfl, rfl⟩
  · next clear =>
      simp only [Bool.or_eq_true, not_or, Bool.not_eq_true] at clear
      exact clear

theorem hand_over_kept (machine : EvalMachine Value) (result : Option Value) :
    Kept machine (machine.hand_over result).1 ∧
      (machine.hand_over result).1.interp.current_scope = machine.interp.current_scope := by
  unfold hand_over
  split
  · refine ⟨?_, rfl⟩
    split
    · exact ⟨rfl, rfl, rfl, rfl, rfl, rfl, rfl, fun _ present => present⟩
    · split
      · exact ⟨rfl, rfl, rfl, rfl, rfl, rfl, rfl, fun _ present => present⟩
      · exact ⟨rfl, rfl, rfl, rfl, rfl, rfl, rfl, fun _ present => present⟩
  · exact ⟨Kept.refl machine, rfl⟩

section Units

variable {enclosing : List Int} {machine : EvalMachine Value}

variable {body : EvalMachine Value → Seen Value}

/-- A call of a function is sound, and gives the caller's scope back. -/
theorem Sound.call (sound : SoundCode enclosing body)
    (func_scope : Nat) (tight : Tight enclosing machine.interp.timeout_ms)
    (consumed : machine.keep_caller_scope = false) :
    Sound machine (machine.interp_call_function func_scope body) ∧
      (machine.interp_call_function func_scope body).1.interp.current_scope =
        machine.interp.current_scope := by
  have ran := sound
    { machine with
      interp := { machine.interp with
        break_target := 0
        continue_target := 0
        return_target := 0
        has_returned := 0
        error_flag := false
        current_scope := func_scope } } tight consumed
  have kept := ran.kept
  exact ⟨⟨⟨kept.timeout_ms, kept.is_module, kept.module_ns, kept.filename, kept.eval_sandbox,
    kept.eval_depth, kept.keep_caller_scope, kept.import_meta⟩, ran.reports⟩, rfl⟩

def SoundJobs (enclosing : List Int) (jobs : EvalMachine Value → Seen Value) : Prop :=
  SoundCode enclosing jobs ∧
    ∀ machine, (jobs machine).1.interp.current_scope = machine.interp.current_scope

theorem unit_executed_sound (sound : SoundCode enclosing body) (text : EvalText Value) :
    SoundCode enclosing (unit_executed text body) := by
  intro machine tight consumed
  cases text with
  | program completion =>
    exact sound machine tight consumed
  | invalid message | uncompiled =>
    refine ⟨⟨rfl, rfl, rfl, rfl, rfl, rfl, rfl, fun _ present => present⟩, ?_⟩
    exact fun report member => absurd member not_mem_nil

/-- What a unit and its jobs leave: the fields that it set are put back, and
no error is on its way. -/
theorem exec_unit_sound {jobs : EvalMachine Value → Seen Value}
    (sound : SoundCode enclosing body) (drains : SoundJobs enclosing jobs)
    (text : EvalText Value) (is_module : Bool) (filename : String) (ns : Nat)
    (tight : Tight enclosing machine.interp.timeout_ms) :
    Sound { machine with keep_caller_scope := false }
        ((machine.lr_engine_exec_unit text is_module filename ns body jobs).1.1,
          (machine.lr_engine_exec_unit text is_module filename ns body jobs).2) ∧
      (machine.lr_engine_exec_unit text is_module filename ns body jobs).1.1.Calm ∧
      (machine.lr_engine_exec_unit text is_module filename ns body jobs).1.1.interp.current_scope
        = machine.interp.current_scope := by
  have ran := unit_executed_sound sound text (machine.unit_entered is_module filename ns) tight rfl
  have limited : (machine.unit_left
      (unit_executed text body (machine.unit_entered is_module filename ns)).1).interp.timeout_ms =
        machine.interp.timeout_ms :=
    ran.kept.timeout_ms
  have drained := drains.1 (machine.unit_left _) (limited ▸ tight) ran.kept.keep_caller_scope
  have handed := hand_over_kept (jobs (machine.unit_left
    (unit_executed text body (machine.unit_entered is_module filename ns)).1)).1 (completion text)
  have left : Kept { machine with keep_caller_scope := false } (machine.unit_left
      (unit_executed text body (machine.unit_entered is_module filename ns)).1) :=
    ⟨ran.kept.timeout_ms, rfl, rfl, rfl, ran.kept.eval_sandbox, ran.kept.eval_depth,
      ran.kept.keep_caller_scope, fun _ present => present⟩
  refine ⟨⟨(left.trans drained.kept).trans handed.1, ?_⟩, hand_over_calm _ _, ?_⟩
  · intro report member
    rcases mem_append.mp member with own | later
    · exact ran.reports report own
    · exact drained.reports report later
  · exact handed.2.trans (drains.2 _)

end Units

/-! ## Evals -/

section Evals

variable {enclosing : List Int} {machine : EvalMachine Value}
variable (lr_build_error_object : String → String → Value)
variable {body jobs : EvalMachine Value → Seen Value} (direct : Bool)

theorem eval_code_refused (text : EvalText Value)
    (refused : machine.ctx.eval_disabled = true ∨ machine.max_depth ≤ machine.ctx.eval_depth) :
    ∃ kind message,
      machine.lr_engine_eval_code lr_build_error_object direct text body jobs =
        ((machine.lr_throw_error_named lr_build_error_object kind message, none), []) := by
  unfold lr_engine_eval_code
  by_cases disabled : machine.ctx.eval_disabled = true
  · rw [if_pos disabled]
    exact ⟨_, _, rfl⟩
  · have deep : machine.lr_eval_sandbox_enter = none :=
      if_pos (refused.resolve_left disabled)
    rw [if_neg disabled, deep]
    exact ⟨_, _, rfl⟩

theorem sandbox_entered (shallow : ¬ machine.max_depth ≤ machine.ctx.eval_depth) :
    machine.lr_eval_sandbox_enter = some (machine.frame, machine.sandboxed) :=
  if_neg shallow

theorem eval_code_invalid (message : String) (allowed : ¬ machine.ctx.eval_disabled = true)
    (shallow : ¬ machine.max_depth ≤ machine.ctx.eval_depth) :
    machine.lr_engine_eval_code lr_build_error_object direct (.invalid message) body jobs =
      (((machine.sandboxed.lr_throw_error_named lr_build_error_object "SyntaxError"
        message).lr_eval_sandbox_leave machine.frame, none), []) := by
  unfold lr_engine_eval_code
  rw [if_neg allowed, sandbox_entered shallow]

theorem eval_code_runs {text : EvalText Value} (parses : ∀ message, text ≠ .invalid message)
    (allowed : ¬ machine.ctx.eval_disabled = true)
    (shallow : ¬ machine.max_depth ≤ machine.ctx.eval_depth) :
    machine.lr_engine_eval_code lr_build_error_object direct text body jobs =
      let ran := { machine.sandboxed with keep_caller_scope := direct }.lr_engine_exec_unit text
        false "<eval>" 0 body jobs
      ((ran.1.1.lr_eval_sandbox_leave machine.frame, ran.1.2), ran.2) := by
  unfold lr_engine_eval_code
  rw [if_neg allowed, sandbox_entered shallow]
  cases text with
  | invalid message => exact absurd rfl (parses message)
  | uncompiled | program completion => rfl

/-- Leaving a sandbox gives back what entering it changed; it has no part in the error flags. -/
theorem leave_settings {after : EvalMachine Value} (kept : Kept machine.sandboxed after)
    (scope : after.interp.current_scope = machine.interp.current_scope) :
    Kept machine (after.lr_eval_sandbox_leave machine.frame) ∧
      ((after.lr_eval_sandbox_leave machine.frame).settings = machine.settings ↔
        after.interp.error_flag = machine.interp.error_flag ∧
          after.interp.exception_pending = machine.interp.exception_pending) := by
  have depth : machine.frame.depth - 1 = machine.ctx.eval_depth := Int.add_sub_cancel _ _
  refine ⟨⟨rfl, kept.is_module, kept.module_ns, kept.filename, rfl, depth,
    kept.keep_caller_scope, kept.import_meta⟩, ?_, ?_⟩
  · intro same
    exact ⟨congrArg Settings.error_flag same, congrArg Settings.exception_pending same⟩
  · rintro ⟨error, exception⟩
    unfold settings lr_eval_sandbox_leave
    rw [error, exception, scope, kept.is_module, kept.module_ns, kept.filename,
      kept.keep_caller_scope, depth]
    rfl

/-- An evaluation is sound; it gives the settings back exactly if a unit that runs is calm. -/
theorem eval_sound (text : EvalText Value)
    (sound : SoundCode (machine.interp.timeout_ms :: enclosing) body)
    (drains : SoundJobs (machine.interp.timeout_ms :: enclosing) jobs)
    (tight : Tight enclosing machine.interp.timeout_ms)
    (consumed : machine.keep_caller_scope = false) :
    let evaluated := machine.lr_engine_eval_code lr_build_error_object direct text body jobs
    Sound machine (evaluated.1.1, evaluated.2) ∧
      (evaluated.1.1.settings = machine.settings ↔ (machine.RunsUnit text → machine.Calm)) := by
  intro evaluated
  by_cases refused :
      machine.ctx.eval_disabled = true ∨ machine.max_depth ≤ machine.ctx.eval_depth
  · obtain ⟨kind, message, ends⟩ : ∃ kind message, evaluated =
        ((machine.lr_throw_error_named lr_build_error_object kind message, none), []) :=
      eval_code_refused lr_build_error_object direct text refused
    rw [ends]
    refine ⟨⟨⟨rfl, rfl, rfl, rfl, rfl, rfl, rfl, fun _ present => present⟩, ?_⟩, ?_⟩
    · exact fun report member => absurd member not_mem_nil
    · refine iff_of_true rfl fun runs => ?_
      rcases refused with disabled | deep
      · exact absurd (disabled.symm.trans runs.1) (by decide)
      · exact absurd runs.2.1 (Int.not_lt.mpr deep)
  · have allowed : ¬ machine.ctx.eval_disabled = true := fun disabled => refused (Or.inl disabled)
    have shallow : ¬ machine.max_depth ≤ machine.ctx.eval_depth := fun deep => refused (Or.inr deep)
    by_cases parses : ∀ message, text ≠ .invalid message
    · have ends : evaluated = _ :=
        eval_code_runs lr_build_error_object direct parses allowed shallow
      have runs : machine.RunsUnit text :=
        ⟨Bool.eq_false_iff.mpr allowed, Int.not_le.mp shallow, parses⟩
      obtain ⟨ran, calm, scope⟩ := exec_unit_sound sound drains text false "<eval>" 0
        (show Tight _ { machine.sandboxed with keep_caller_scope := direct }.interp.timeout_ms
          from tight_budget tight)
      have kept : Kept machine.sandboxed _ := ⟨ran.kept.timeout_ms, ran.kept.is_module,
        ran.kept.module_ns, ran.kept.filename, ran.kept.eval_sandbox, ran.kept.eval_depth,
        ran.kept.keep_caller_scope.trans consumed.symm, ran.kept.import_meta⟩
      obtain ⟨left, same⟩ := leave_settings kept scope
      rw [ends]
      refine ⟨⟨left, ran.reports⟩, same.trans ?_⟩
      rw [calm.1, calm.2]
      exact ⟨fun flags _ => ⟨flags.1.symm, flags.2.symm⟩,
        fun before => ⟨(before runs).1.symm, (before runs).2.symm⟩⟩
    · obtain ⟨message, rfl⟩ : ∃ message, text = .invalid message := by
        simpa only [not_forall, not_not] using parses
      have ends : evaluated = _ :=
        eval_code_invalid lr_build_error_object direct message allowed shallow
      have kept : Kept machine.sandboxed (machine.sandboxed.lr_throw_error_named
          lr_build_error_object "SyntaxError" message) :=
        ⟨rfl, rfl, rfl, rfl, rfl, rfl, rfl, fun _ present => present⟩
      obtain ⟨left, same⟩ := leave_settings kept rfl
      rw [ends]
      refine ⟨⟨left, fun report member => absurd member not_mem_nil⟩, ?_⟩
      exact iff_of_true (same.mpr ⟨rfl, rfl⟩) fun runs => absurd rfl (runs.2.2 message)

/-- An evaluation of a source is sound. -/
theorem source_sound {text : EvalText Value} {is_module : Bool} {filename : String} {ns : Nat}
    (sound : SoundCode enclosing body) (drains : SoundJobs enclosing jobs)
    (tight : Tight enclosing machine.interp.timeout_ms)
    (consumed : machine.keep_caller_scope = false) :
    Sound machine
      ((machine.lr_engine_eval_source lr_build_error_object text is_module filename ns body
          jobs).1.1,
        (machine.lr_engine_eval_source lr_build_error_object text is_module filename ns body
          jobs).2) := by
  have ran := (exec_unit_sound sound drains text is_module filename ns tight).1
  have kept : Kept machine _ := ⟨ran.kept.timeout_ms, ran.kept.is_module, ran.kept.module_ns,
    ran.kept.filename, ran.kept.eval_sandbox, ran.kept.eval_depth,
    ran.kept.keep_caller_scope.trans consumed.symm, ran.kept.import_meta⟩
  cases text with
  | invalid message =>
    exact ⟨⟨rfl, rfl, rfl, rfl, rfl, rfl, rfl, fun _ present => present⟩,
      fun report member => absurd member not_mem_nil⟩
  | uncompiled | program completion =>
    exact ⟨kept, ran.reports⟩

end Evals

/-! ## Runs -/

section Runs

variable (lr_build_error_object : String → String → Value)

theorem get_import_meta_kept (address : Nat) (machine : EvalMachine Value) :
    Kept machine (machine.interp_get_import_meta address) := by
  unfold interp_get_import_meta
  cases present : machine.interp.import_meta with
  | some object =>
    exact Kept.refl machine
  | none =>
    refine ⟨rfl, rfl, rfl, rfl, rfl, rfl, rfl, fun other made => ?_⟩
    exact absurd (present.symm.trans made) (by simp)

mutual

/-- Every act is sound, by induction on the acts inside. -/
theorem perform_sound (enclosing : List Int) : ∀ act : Act Value,
    SoundCode enclosing fun machine => perform lr_build_error_object enclosing machine act
  | .work now => by
      intro machine _ _
      exact ⟨⟨rfl, rfl, rfl, rfl, rfl, rfl, rfl, fun _ present => present⟩,
        fun report member => absurd member not_mem_nil⟩
  | .meta_object address => by
      intro machine _ _
      exact ⟨get_import_meta_kept address machine,
        fun report member => absurd member not_mem_nil⟩
  | .configure _ _ _ => by
      intro machine _ _
      exact ⟨⟨rfl, rfl, rfl, rfl, rfl, rfl, rfl, fun _ present => present⟩,
        fun report member => absurd member not_mem_nil⟩
  | .call func_scope body => by
      intro machine tight consumed
      exact (Sound.call (performAll_sound enclosing body) func_scope tight consumed).1
  | .load _ _ _ _ body jobs => by
      intro machine tight consumed
      exact source_sound lr_build_error_object (performAll_sound enclosing body)
        (performJobs_sound enclosing jobs) tight consumed
  | .eval direct text body jobs => by
      intro machine tight consumed
      obtain ⟨sound, balanced⟩ := eval_sound lr_build_error_object direct text
        (performAll_sound (machine.interp.timeout_ms :: enclosing) body)
        (performJobs_sound (machine.interp.timeout_ms :: enclosing) jobs) tight consumed
      refine ⟨sound.kept, fun report member => ?_⟩
      rcases mem_append.mp member with inner | own
      · exact sound.reports report inner
      · rcases mem_singleton.mp own with rfl
        exact ⟨fun all => balanced.mp all.1,
          fun orderly => ⟨balanced.mpr orderly, sound.kept.import_meta⟩⟩

theorem performAll_sound (enclosing : List Int) : ∀ acts : List (Act Value),
    SoundCode enclosing fun machine => performAll lr_build_error_object enclosing machine acts
  | [] => by
      intro machine tight _
      refine ⟨Kept.refl machine, fun report member => ?_⟩
      rcases mem_singleton.mp member with rfl
      exact iff_of_true tight trivial
  | act :: rest => by
      intro machine tight consumed
      have one := perform_sound enclosing act machine tight consumed
      have others := performAll_sound enclosing rest _ (one.kept.timeout_ms ▸ tight)
        (one.kept.keep_caller_scope.trans consumed)
      refine ⟨one.kept.trans others.kept, fun report member => ?_⟩
      rcases mem_cons.mp member with rfl | later
      · exact iff_of_true tight trivial
      · rcases mem_append.mp later with first | second
        · exact one.reports report first
        · exact others.reports report second

theorem performJobs_sound (enclosing : List Int) : ∀ jobs : List (Nat × List (Act Value)),
    SoundJobs enclosing fun machine => performJobs lr_build_error_object enclosing machine jobs
  | [] =>
    ⟨fun machine _ _ =>
        ⟨Kept.refl machine, fun report member => absurd member not_mem_nil⟩,
      fun _ => rfl⟩
  | (func_scope, body) :: rest => by
      have later := performJobs_sound enclosing rest
      refine ⟨fun machine tight consumed => ?_, fun machine => (later.2 _).trans rfl⟩
      have one := (Sound.call (performAll_sound enclosing body) func_scope tight consumed).1
      have others := later.1 _ (one.kept.timeout_ms ▸ tight)
        (one.kept.keep_caller_scope.trans consumed)
      refine ⟨one.kept.trans others.kept, fun report member => ?_⟩
      rcases mem_append.mp member with first | second
      · exact one.reports report first
      · exact others.reports report second

end

end Runs

/-! ## Whole scripts -/

/-- A machine whose scripts are about to run: `LRPersistentInterp` is
allocated cleared. -/
def attached (interp : Interpreter Value) (ctx : EvalContext Value) : EvalMachine Value :=
  ⟨interp, ctx, false⟩

/-- Deadlines nest, and an eval is balanced exactly when no error or exception of its caller is on
its way as it runs its unit. -/
theorem eval_sandbox_balanced (lr_build_error_object : String → String → Value)
    (interp : Interpreter Value) (ctx : EvalContext Value) (acts : List (Act Value)) :
    ∀ report ∈ ((attached interp ctx).performAll lr_build_error_object [] acts).2,
      report.Balanced ↔ report.Orderly := by
  apply Sound.reports
  apply performAll_sound
  · exact fun _ member => absurd member not_mem_nil
  · rfl

def started : CodeState String where
  stmt_counter := 0
  break_target := 0
  continue_target := 0
  return_target := 0
  has_returned := 0
  current_scope := 1
  error_flag := false
  error_message := ""
  exception_pending := false
  exception_value := none

/-- `eval("1")` in a script. -/
theorem eval_sandbox_balanced_calm :
    ∃ before text after result, .returned before text after result ∈
        ((attached ⟨started, 1, false, none, none, none, 0⟩
          ⟨none, 0, 0, 0, false, none, none⟩).performAll (fun kind message => kind ++ message) []
          [.eval true (.program "1") [] []]).2 ∧
      (EvalReport.returned before text after result).Balanced := by
  have balanced := eval_sandbox_balanced (fun kind message => kind ++ message)
    ⟨started, 1, false, none, none, none, 0⟩ ⟨none, 0, 0, 0, false, none, none⟩
    [.eval true (.program "1") [] []]
  refine ⟨_, _, _, _, .tail _ (.tail _ (.head _)), ?_⟩
  exact (balanced _ (.tail _ (.tail _ (.head _)))).mpr fun _ => ⟨rfl, rfl⟩

/-- `try { g().next(); eval("1") } catch (e) {}`: the `next` of a generator that throws clears the
error flag alone, and the eval takes the exception. -/
theorem pending_exception_taken :
    ¬ ∀ report ∈ ((attached ⟨started, 1, false, none, none, none, 0⟩
        ⟨none, 0, 0, 0, false, none, none⟩).performAll (fun kind message => kind ++ message) []
        [.work { started with
            error_message := "1", exception_pending := true, exception_value := some "1" },
          .eval true (.program "1") [] []]).2, report.Balanced := by
  intro balanced
  have given := balanced _ (.tail _ (.tail _ (.tail _ (.head _))))
  exact absurd (congrArg Settings.exception_pending given.1) (by decide)

end EvalMachine

end LRJS
