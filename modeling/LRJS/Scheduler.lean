import LRJS.Library.Journals
import LRJS.Library.Runs
import Mathlib.Algebra.Ring.Nat
import Mathlib.Data.List.Sort

/-!
# The task scheduler

The list of scheduled tasks (`lr_scheduler.c`), and `lr_scheduler_process` as turns of its loop.
While the loop walks, the list is in three parts: up to and with `prev`, from there to the cursor
`st`, and from the cursor on.  To unlink the node at the cursor is to forget the middle part too.
-/

namespace LRJS.Scheduling

inductive LR_SchedType where
  | oneshot
  | repeat
  deriving DecidableEq

/-- A node of the list.  `node` is the number of nodes before it.  `run_count` is read only below a
positive `repeat_count`. -/
structure LR_SchedTask where
  node : Nat
  id : Int
  type : LR_SchedType
  task : Nat
  interval_us : Int
  next_run_us : Int
  repeat_count : Int
  run_count : Nat
  cancelled : Bool
  deriving DecidableEq

namespace LR_SchedTask

def ran (st : LR_SchedTask) : LR_SchedTask :=
  { st with run_count := st.run_count + 1 }

def Rearms (st : LR_SchedTask) : Prop :=
  st.type = .repeat ∧ (st.repeat_count < 0 ∨ st.run_count < st.repeat_count)

instance (st : LR_SchedTask) : Decidable st.Rearms :=
  inferInstanceAs (Decidable (_ ∧ _))

def rearmed (st : LR_SchedTask) (now : Int) : LR_SchedTask :=
  { st.ran with next_run_us := (now + st.interval_us).bmod (2 ^ 64) }

end LR_SchedTask

/-- `lr_scheduler_insert_task`: in front of the first node that is due later. -/
def lr_scheduler_insert_task (task_head : List LR_SchedTask) (st : LR_SchedTask) :
    List LR_SchedTask :=
  task_head.orderedInsert (fun st st' => st.next_run_us < st'.next_run_us) st

/-- `now` is the reading of the clock while `lr_scheduler_process` is under way; otherwise the
whole list is `rest`. -/
structure LR_Scheduler where
  kept : List LR_SchedTask
  between : List LR_SchedTask
  rest : List LR_SchedTask
  now : Option Int
  next_task_id : Int
  tasks_scheduled : Nat
  deriving DecidableEq

inductive Action where
  /-- `lr_thread_pool_submit`. -/
  | submit (st : LR_SchedTask)
  /-- `lr_task_free`. -/
  | free (st : LR_SchedTask)
  | skip
  | unlock
  deriving DecidableEq

namespace LR_Scheduler

variable (sched : LR_Scheduler)

def task_head : List LR_SchedTask :=
  sched.kept ++ sched.between ++ sched.rest

def insert (st : LR_SchedTask) : LR_Scheduler :=
  { sched with
    rest := lr_scheduler_insert_task sched.rest st
    next_task_id := (sched.next_task_id + 1).bmod (2 ^ 32)
    tasks_scheduled := sched.tasks_scheduled + 1 }

/-- The node of `lr_scheduler_schedule`. -/
def scheduled (task : Nat) (interval_us repeat_count now : Int) : LR_SchedTask where
  node := sched.tasks_scheduled
  id := sched.next_task_id
  type := if repeat_count ≠ 0 then .repeat else .oneshot
  task := task
  interval_us := interval_us
  next_run_us := now
  repeat_count := repeat_count
  run_count := 0
  cancelled := false

/-- `lr_scheduler_schedule`: the new node has the id that is returned. -/
def lr_scheduler_schedule (task : Nat) (interval_us repeat_count now : Int) : LR_Scheduler :=
  sched.insert (sched.scheduled task interval_us repeat_count now)

/-- The node of `lr_scheduler_schedule_delayed`. -/
def delayed (task : Nat) (delay_us now : Int) : LR_SchedTask where
  node := sched.tasks_scheduled
  id := sched.next_task_id
  type := .oneshot
  task := task
  interval_us := 0
  next_run_us := (now + delay_us).bmod (2 ^ 64)
  repeat_count := 0
  run_count := 0
  cancelled := false

/-- `lr_scheduler_schedule_delayed`; `lr_scheduler_schedule_now` is the case of delay 0. -/
def lr_scheduler_schedule_delayed (task : Nat) (delay_us now : Int) : LR_Scheduler :=
  sched.insert (sched.delayed task delay_us now)

end LR_Scheduler

def markCancelled (sched_task_id : Int) : List LR_SchedTask → List LR_SchedTask
  | [] => []
  | st :: rest =>
    if st.id = sched_task_id then { st with cancelled := true } :: rest
    else st :: markCancelled sched_task_id rest

namespace LR_Scheduler

variable (sched : LR_Scheduler)

/-- `lr_scheduler_cancel`, where it returns 0. -/
def lr_scheduler_cancel (sched_task_id : Int) : Option LR_Scheduler :=
  if ∃ st ∈ sched.rest, st.id = sched_task_id then
    some { sched with rest := markCancelled sched_task_id sched.rest }
  else
    none

/-- `prev->next` or the head of the list becomes the node behind the cursor. -/
def unlink (rest : List LR_SchedTask) : LR_Scheduler :=
  { sched with between := [], rest := rest }

/-- `lr_scheduler_insert_task` in the middle of the loop, where nothing is between `prev` and the
cursor. -/
def reinsert (st : LR_SchedTask) : LR_Scheduler :=
  if ∃ st' ∈ sched.kept, st.next_run_us < st'.next_run_us then
    { sched with kept := lr_scheduler_insert_task sched.kept st }
  else
    match sched.rest with
    | [] => { sched with between := [st] }
    | next :: _ =>
      if st.next_run_us < next.next_run_us then { sched with between := [st] }
      else { sched with rest := lr_scheduler_insert_task sched.rest st }

/-- A turn of the loop of `lr_scheduler_process`, or its end. -/
def turn (now : Int) : LR_Scheduler × Action :=
  match sched.rest with
  | [] => ({ sched with kept := [], between := [], rest := sched.task_head, now := none }, .unlock)
  | st :: rest =>
    if st.cancelled = true then
      (sched.unlink rest, .free st)
    else if st.next_run_us ≤ now then
      if st.ran.Rearms then ((sched.unlink rest).reinsert (st.rearmed now), .submit st)
      else (sched.unlink rest, .submit st)
    else
      ({ sched with kept := sched.kept ++ sched.between ++ [st], between := [], rest := rest },
        .skip)

def lr_scheduler_create : LR_Scheduler :=
  ⟨[], [], [], none, 1, 0⟩

end LR_Scheduler

inductive Note where
  /-- A task is scheduled, first for the time `due`; `limit` is the number of its runs. -/
  | scheduled (id due interval : Int) (limit : Option Nat)
  /-- `lr_scheduler_cancel` returns 0. -/
  | cancelled (id : Int)
  /-- `lr_scheduler_process` reads the clock. -/
  | process (now : Int)
  /-- A task goes to the pool; `node` is the number of those scheduled before it. -/
  | dispatched (node : Nat)
  /-- `lr_scheduler_process` returns. -/
  | processed
  deriving DecidableEq

structure Job where
  id : Int
  due : Int
  interval : Int
  limit : Option Nat
  runs : Nat
  cancelled : Bool
  served : Bool
  deriving DecidableEq

def Job.Live (job : Job) : Prop :=
  job.cancelled = false ∧ ∀ n ∈ job.limit, job.runs < n

instance (job : Job) : Decidable job.Live :=
  inferInstanceAs (Decidable (_ ∧ ∀ n ∈ job.limit, _))

structure Account where
  jobs : List Job
  now : Int
  deriving DecidableEq

def Job.cancel (id : Int) (job : Job) : Job :=
  { job with cancelled := job.cancelled || job.id == id }

def Job.dispatch (now : Int) (job : Job) : Job :=
  { job with due := now + job.interval, runs := job.runs + 1, served := true }

def Account.record (account : Account) : Note → Account
  | .scheduled id due interval limit =>
    { account with jobs := account.jobs ++ [⟨id, due, interval, limit, 0, false, false⟩] }
  | .cancelled id => { account with jobs := account.jobs.map (Job.cancel id) }
  | .process now => ⟨account.jobs.map fun job => { job with served := false }, now⟩
  | .dispatched node =>
    { account with jobs := account.jobs.modify node (Job.dispatch account.now) }
  | .processed => account

/-- A task is dispatched only while it is live and due; a call of `lr_scheduler_process` dispatches
every such task. -/
def Account.Allows (account : Account) : Note → Prop
  | .dispatched node => ∃ job, account.jobs[node]? = some job ∧ job.Live ∧ job.due ≤ account.now
  | .processed => ∀ job ∈ account.jobs, job.Live → account.now < job.due ∨ job.served = true
  | .scheduled _ _ _ _ | .cancelled _ | .process _ => True

def law : Journals.Law Note Account where
  opening := ⟨[], 0⟩
  record := Account.record
  Allows := Account.Allows

inductive Event where
  | schedule (task : Nat) (interval_us repeat_count now : Int)
  | schedule_delayed (task : Nat) (delay_us now : Int)
  | cancel (sched_task_id : Int)
  | process (now : Int)
  | turn
  deriving DecidableEq

structure State where
  sched : LR_Scheduler
  clock : Int
  journal : List Note
  deriving DecidableEq

/-- The number of runs that `lr_scheduler_schedule` is asked for. -/
def limitOf (repeat_count : Int) : Option Nat :=
  if repeat_count < 0 then none else if repeat_count = 0 then some 1 else some repeat_count.toNat

def Action.notes : Action → List Note
  | .submit st => [.dispatched st.node]
  | .free _ | .skip => []
  | .unlock => [.processed]

namespace State

variable (s : State)

def act : Event → Option State
  | .schedule task interval_us repeat_count now =>
    if s.clock ≤ now then
      some
        { sched := s.sched.lr_scheduler_schedule task interval_us repeat_count now
          clock := now
          journal := s.journal ++
            [.scheduled s.sched.next_task_id now interval_us (limitOf repeat_count)] }
    else none
  | .schedule_delayed task delay_us now =>
    if s.clock ≤ now then
      some
        { sched := s.sched.lr_scheduler_schedule_delayed task delay_us now
          clock := now
          journal := s.journal ++
            [.scheduled s.sched.next_task_id (now + delay_us) 0 (some 1)] }
    else none
  | .cancel sched_task_id =>
    match s.sched.lr_scheduler_cancel sched_task_id with
    | some sched => some ⟨sched, s.clock, s.journal ++ [.cancelled sched_task_id]⟩
    | none => some s
  | .process now =>
    if s.clock ≤ now then
      some ⟨{ s.sched with now := some now }, now, s.journal ++ [.process now]⟩
    else none
  | .turn => none

def step (event : Event) : Option State :=
  match s.sched.now with
  | none => s.act event
  | some now =>
    if event = .turn then
      let (sched, action) := s.sched.turn now
      some ⟨sched, s.clock, s.journal ++ action.notes⟩
    else none

def start : State :=
  ⟨.lr_scheduler_create, 0, []⟩

/-- Sums of times are in the range of `int64_t`. -/
def Fits (time : Int) : Prop :=
  time.bmod (2 ^ 64) = time

instance (time : Int) : Decidable (Fits time) :=
  inferInstanceAs (Decidable (_ = _))

end State

/-- The task is dispatched by a call that reads the clock at `now`. -/
def LR_SchedTask.Due (now : Int) (st : LR_SchedTask) : Prop :=
  st.cancelled = false ∧ st.next_run_us ≤ now

instance (now : Int) (st : LR_SchedTask) : Decidable (st.Due now) :=
  inferInstanceAs (Decidable (_ ∧ _))

def LR_SchedTask.Spins (now : Int) (st : LR_SchedTask) : Prop :=
  st.Due now ∧ st.type = .repeat ∧ st.repeat_count < 0 ∧ st.interval_us ≤ 0

instance (now : Int) (st : LR_SchedTask) : Decidable (st.Spins now) :=
  inferInstanceAs (Decidable (_ ∧ _ ∧ _ ∧ _))

/-- When the first task repeats, it does not get its place directly in front of a task that this
call removes. -/
def KeepsApart (now : Int) : List LR_SchedTask → Prop
  | st :: next :: _ =>
    st.Due now → st.ran.Rearms → now + st.interval_us < next.next_run_us →
      next.cancelled = false ∧ now < next.next_run_us
  | _ => True

instance (now : Int) : (rest : List LR_SchedTask) → Decidable (KeepsApart now rest)
  | [] | [_] => inferInstanceAs (Decidable True)
  | _ :: _ :: _ => inferInstanceAs (Decidable (_ → _ → _ → _ ∧ _))

namespace State

/-- A delay and the intervals of due tasks do not overflow; a cancelled id is that of one task only;
at most one due task repeats for ever without an interval; and no task is put directly in front of
one about to be removed. -/
def Meets (s : State) : Event → Prop
  | .schedule _ _ _ _ => True
  | .schedule_delayed _ delay_us now => Fits (now + delay_us)
  | .cancel sched_task_id => s.sched.rest.countP (·.id = sched_task_id) ≤ 1
  | .process now =>
    (∀ st ∈ s.sched.rest, st.Due now → st.ran.Rearms → Fits (now + st.interval_us)) ∧
      s.sched.rest.countP (LR_SchedTask.Spins now ·) ≤ 1
  | .turn => ∀ now ∈ s.sched.now, KeepsApart now s.sched.rest

instance (s : State) : (event : Event) → Decidable (s.Meets event)
  | .schedule _ _ _ _ => inferInstanceAs (Decidable True)
  | .schedule_delayed _ delay_us now => inferInstanceAs (Decidable (Fits (now + delay_us)))
  | .cancel _ => inferInstanceAs (Decidable (_ ≤ 1))
  | .process _ => inferInstanceAs (Decidable ((∀ st ∈ s.sched.rest, _) ∧ _ ≤ 1))
  | .turn => inferInstanceAs (Decidable (∀ now ∈ s.sched.now, _))

end State

end LRJS.Scheduling
