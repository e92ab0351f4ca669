import LRJS.TaskDispatch
import Mathlib.Data.List.Count

/-!
# Who frees a task

The scheduler together with its thread pool, as far as they pass tasks on: the
program gives a task to the scheduler or to the pool, the scheduler submits it,
a worker executes and frees it.  The queues of the workers count as one, since a
theft only moves a task from one to another.
-/

namespace LRJS.Scheduling

/-- `held` are the tasks of the program.  A submission that found the pool running is `pushing` when
the scheduler made it, else among `submitting`.  Behind the push it is `reading`, or among
`returning`, until it has read `task->task_id` for its answer. -/
structure System where
  sched : LR_Scheduler
  destroyed : Bool
  running : Bool
  freed : Bool
  pushing : Option Nat
  submitting : List Nat
  reading : Option Nat
  returning : List Nat
  queued : List Nat
  executing : List Nat
  held : List Nat
  created : Nat
  frees : Nat → Nat

inductive Deed where
  /-- `lr_task_create`. -/
  | create
  | schedule (task : Nat) (interval_us repeat_count now : Int)
  | schedule_delayed (task : Nat) (delay_us now : Int)
  | cancel (sched_task_id : Int)
  | process (now : Int)
  | turn
  /-- The submission of the scheduler gets to `lr_lfq_push`. -/
  | push
  /-- The submission of the scheduler reads `task->task_id`. -/
  | read
  /-- `lr_scheduler_destroy`. -/
  | destroy
  /-- The program calls `lr_thread_pool_submit`. -/
  | submit (task : Nat)
  | enqueue (task : Nat)
  /-- The submission of the program reads `task->task_id`. -/
  | answer (task : Nat)
  | take (task : Nat)
  | finish (task : Nat)
  /-- The program calls `lr_task_free`. -/
  | release (task : Nat)
  /-- `lr_thread_pool_destroy` lets nobody submit any more. -/
  | stop
  | terminate
  | drain (task : Nat)
  | freePool
  deriving DecidableEq

namespace System

variable (s : System)

def listed : List Nat :=
  s.sched.task_head.map LR_SchedTask.task

def owners : List Nat :=
  s.held ++ s.listed ++ s.pushing.toList ++ s.submitting ++ s.queued ++ s.executing

def lr_task_free (tasks : List Nat) : System :=
  { s with frees := fun t => s.frees t + tasks.count t }

/-- What a turn of the scheduler's loop does with a task; a pool that is not running refuses
it, and nobody looks at that. -/
def perform : Action → System
  | .submit st => if s.running = true then { s with pushing := some st.task } else s
  | .free st => s.lr_task_free [st.task]
  | .skip | .unlock => s

/-- `lr_lfq_push` for a task; the queues of a pool that has been freed are no more. -/
def enqueue (task : Nat) : System :=
  if s.freed = true then s else { s with queued := s.queued ++ [task] }

/-- `lr_scheduler_destroy` frees the tasks that are not cancelled. -/
def discarded : List Nat :=
  (s.sched.task_head.filter (·.cancelled = false)).map LR_SchedTask.task

def lr_scheduler_destroy : System :=
  { s.lr_task_free s.discarded with
    sched := { s.sched with kept := [], between := [], rest := [], now := none }
    destroyed := true }

def Idle : Prop :=
  s.destroyed = false ∧ s.sched.now = none

instance : Decidable s.Idle :=
  inferInstanceAs (Decidable (_ ∧ _))

/-- A step of the program, of the thread in the scheduler, of a worker, or of the thread that
destroys the pool. -/
def step : Deed → Option System
  | .create => some { s with created := s.created + 1, held := s.created :: s.held }
  | .schedule task interval_us repeat_count now =>
    if s.Idle ∧ task ∈ s.held then
      some { s with
        sched := s.sched.lr_scheduler_schedule task interval_us repeat_count now
        held := s.held.erase task }
    else none
  | .schedule_delayed task delay_us now =>
    if s.Idle ∧ task ∈ s.held then
      some { s with
        sched := s.sched.lr_scheduler_schedule_delayed task delay_us now
        held := s.held.erase task }
    else none
  | .cancel sched_task_id =>
    if s.Idle then
      match s.sched.lr_scheduler_cancel sched_task_id with
      | some sched => some { s with sched := sched }
      | none => some s
    else none
  | .process now =>
    if s.Idle then some { s with sched := { s.sched with now := some now } } else none
  | .turn =>
    match s.sched.now with
    | some now =>
      if s.pushing = none ∧ s.reading = none then
        let (sched, action) := s.sched.turn now
        some ({ s with sched := sched }.perform action)
      else none
    | none => none
  | .push =>
    match s.pushing with
    | some task => some ({ s with pushing := none, reading := some task }.enqueue task)
    | none => none
  | .read => if s.reading.isSome then some { s with reading := none } else none
  | .destroy => if s.destroyed = false then some s.lr_scheduler_destroy else none
  | .submit task =>
    if task ∈ s.held then
      if s.running = true then
        some { s with held := s.held.erase task, submitting := s.submitting ++ [task] }
      else some s
    else none
  | .enqueue task =>
    if task ∈ s.submitting then
      some ({ s with
        submitting := s.submitting.erase task
        returning := task :: s.returning }.enqueue task)
    else none
  | .answer task =>
    if task ∈ s.returning then some { s with returning := s.returning.erase task } else none
  | .take task =>
    if task ∈ s.queued then
      some { s with queued := s.queued.erase task, executing := task :: s.executing }
    else none
  | .finish task =>
    if task ∈ s.executing then
      some ({ s with executing := s.executing.erase task }.lr_task_free [task])
    else none
  | .release task =>
    if task ∈ s.held then some ({ s with held := s.held.erase task }.lr_task_free [task])
    else none
  | .stop => some { s with running := false }
  | .terminate =>
    if s.running = false ∧ s.freed = false then
      some { s with created := s.created + 1, queued := s.queued ++ [s.created] }
    else none
  | .drain task =>
    if s.running = false ∧ task ∈ s.queued then
      some ({ s with queued := s.queued.erase task }.lr_task_free [task])
    else none
  | .freePool =>
    if s.running = false ∧ s.queued = [] ∧ s.executing = [] then some { s with freed := true }
    else none

def start : System :=
  ⟨.lr_scheduler_create, false, true, false, none, [], none, [], [], [], [], 0, fun _ => 0⟩

def touches : Deed → List Nat
  | .create | .schedule _ _ _ _ | .schedule_delayed _ _ _ | .cancel _ | .process _ | .stop
  | .terminate | .freePool => []
  | .turn =>
    match s.sched.now with
    | some now =>
      match (s.sched.turn now).2 with
      | .submit st => if s.running = true then [st.task] else []
      | .free st => [st.task]
      | .skip | .unlock => []
    | none => []
  | .push => s.pushing.toList
  | .read => s.reading.toList
  | .destroy => s.discarded
  | .submit task => if s.running = true then [task] else []
  | .enqueue task | .answer task | .take task | .finish task | .release task | .drain task => [task]

def ReadsLive (deed : Deed) : Prop :=
  (s.step deed).isSome → ∀ t ∈ s.touches deed, s.frees t = 0

instance (deed : Deed) : Decidable (s.ReadsLive deed) :=
  inferInstanceAs (Decidable (_ → ∀ t ∈ _, _))

/-- A submission of the task has read its number. -/
def Answered (task : Nat) : Prop :=
  s.reading ≠ some task ∧ task ∉ s.returning

instance (task : Nat) : Decidable (s.Answered task) :=
  inferInstanceAs (Decidable (_ ∧ _))

/-- A dispatched task has no runs left, and the pool accepts it; a task is freed after its
submission has read it; the scheduler is not destroyed in a call or with cancelled tasks in its
list; and the pool is not freed during a submission. -/
def Meets : Deed → Prop
  | .turn => ∀ now ∈ s.sched.now, ∀ st ∈ s.sched.rest.head?, st.Due now →
      ¬st.ran.Rearms ∧ s.running = true
  | .destroy => s.sched.now = none ∧ ∀ st ∈ s.sched.task_head, st.cancelled = false
  | .finish task | .drain task => s.Answered task
  | .freePool => s.pushing = none ∧ s.submitting = []
  | _ => True

instance : (deed : Deed) → Decidable (s.Meets deed)
  | .turn => inferInstanceAs (Decidable (∀ now ∈ s.sched.now, ∀ st ∈ s.sched.rest.head?, _))
  | .destroy => inferInstanceAs (Decidable (_ ∧ ∀ st ∈ s.sched.task_head, _))
  | .freePool => inferInstanceAs (Decidable (_ ∧ _))
  | .finish task | .drain task => inferInstanceAs (Decidable (s.Answered task))
  | .create | .schedule _ _ _ _ | .schedule_delayed _ _ _ | .cancel _ | .process _ | .push | .read
  | .submit _ | .enqueue _ | .answer _ | .take _ | .release _ | .stop | .terminate =>
    inferInstanceAs (Decidable True)

end System

end LRJS.Scheduling
