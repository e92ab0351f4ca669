import LRJS.Library.Journals
import LRJS.Library.Runs
import Mathlib.Algebra.Ring.Nat
import Mathlib.Data.Finset.Card

/-!
# The thread pool

Workers, submissions, waits and the destruction of a pool (`lr_thread_pool.c`)
as threads whose steps interleave.  An operation on a queue is one step, and so
is each access to a shared counter or flag; what is done under a mutex is one
step, or keeps the other users of the mutex from theirs.
-/

namespace LRJS.ThreadPool

inductive LR_TaskType where
  | LR_TASK_EVAL
  | LR_TASK_EVAL_FILE
  | LR_TASK_CALLBACK
  | LR_TASK_RENDER
  | LR_TASK_TERMINATE
  deriving DecidableEq

/-- A task in a queue: of some submission, or one that `lr_thread_pool_destroy` has made to stop a
worker. -/
inductive LR_Task where
  | submitted (call : Nat)
  | terminate
  deriving DecidableEq

inductive Stage where
  | fresh
  | accepted
  | executed
  /-- `on_complete` has been called. -/
  | completed
  | finished
  | freed
  deriving DecidableEq

def Stage.Pending (stage : Stage) : Prop :=
  stage = .accepted ∨ stage = .executed ∨ stage = .completed

instance (stage : Stage) : Decidable stage.Pending :=
  inferInstanceAs (Decidable (_ ∨ _))

inductive Note where
  | task (call : Nat) (stage : Stage)
  /-- `lr_thread_pool_wait_all` returns. -/
  | waited
  deriving DecidableEq

abbrev Account := Nat → Stage

def Stage.before : Stage → Stage
  | .fresh | .accepted => .fresh
  | .executed => .accepted
  | .completed => .executed
  | .finished => .completed
  | .freed => .finished

def record (account : Account) : Note → Account
  | .task call stage => Function.update account call stage
  | .waited => account

/-- A task goes through the stages one by one, each of them once; and waiting ends only when all
accepted tasks are finished. -/
def Allows (account : Account) : Note → Prop
  | .task call stage => stage ≠ .fresh ∧ account call = stage.before
  | .waited => ∀ call, ¬(account call).Pending

def law : Journals.Law Note Account where
  opening _ := .fresh
  record := record
  Allows := Allows

/-- Where a call of `lr_thread_pool_submit` or, with a worker as target, of
`lr_thread_pool_submit_to` is. -/
inductive Submission where
  /-- At the test of `running`. -/
  | running (target : Option Int)
  /-- At the addition to `next_task_id`. -/
  | taskId (target : Option Int)
  /-- At the addition to `round_robin_idx`. -/
  | roundRobin (task_id : Int)
  /-- At the addition to `tasks_pending`. -/
  | count (task_id idx : Int)
  /-- At `lr_lfq_push`. -/
  | push (task_id idx : Int)
  /-- At `pthread_cond_signal`. -/
  | signal (task_id idx : Int)
  | returned (answer : Int)
  deriving DecidableEq

/-- Where a worker is in `lr_worker_thread`. -/
inductive WorkerAt where
  /-- At `lr_runtime_new`. -/
  | boot
  | check
  /-- At `lr_lfq_pop` of its queue. -/
  | pop
  | execute (call : Nat)
  /-- At the call of `on_complete`. -/
  | complete (call : Nat)
  /-- At the subtraction from `tasks_pending`. -/
  | decrement (call : Nat)
  /-- At `pthread_cond_signal` of `done_cond`. -/
  | signalDone (call : Nat)
  /-- At `lr_task_free`. -/
  | free (call : Nat)
  /-- At the test of `tasks_pending` in front of a theft. -/
  | loadPending
  | probe (i : Nat)
  /-- At `lr_lfq_pop` of the queue of the neighbour. -/
  | rob (i : Nat)
  /-- At `lr_lfq_push` of a stolen task. -/
  | stolen (task : LR_Task)
  /-- At the lock of `signal_mutex`. -/
  | lock
  | testQueue
  | asleep
  | leave
  | gone
  deriving DecidableEq

structure LR_Worker where
  task_queue : List LR_Task
  running : Bool
  should_stop : Bool
  freed : Bool
  pc : WorkerAt
  deriving DecidableEq

/-- Where a call of `lr_thread_pool_wait_all` is. -/
inductive Wait where
  /-- At the test of `tasks_pending`, with the mutex. -/
  | check
  | asleep
  | returned
  deriving DecidableEq

/-- Where `lr_thread_pool_destroy` is. -/
inductive Destroyer where
  | idle
  | mark (i : Nat)
  | push (i : Nat)
  | signal (i : Nat)
  | join (i : Nat)
  | drain (i : Nat)
  | freePool
  | done
  deriving DecidableEq

structure State where
  num_workers : Nat
  running : Bool
  round_robin_idx : Int
  next_task_id : Int
  tasks_pending : Int
  workers : Nat → LR_Worker
  freed : Bool
  calls : Nat → Submission
  types : Nat → LR_TaskType
  called : Nat
  waits : Nat → Wait
  waiting : Nat
  destroyer : Destroyer
  journal : List Note

inductive Event where
  | submit (type : LR_TaskType) (target : Option Int)
  | call (call : Nat)
  /-- `lr_runtime_new` returns. -/
  | boot (i : Nat) (succeeds : Bool)
  | worker (i : Nat)
  /-- A worker signals `done_cond`, and wakes a wait if one is asleep. -/
  | signalDone (i : Nat) (woken : Option Nat)
  | wake (i : Nat)
  | wait_all
  | wait (j : Nat)
  | wakeWait (j : Nat)
  | destroy
  /-- `lr_thread_pool_destroy` goes on; `lr_task_create` fails if it is called. -/
  | destroyer (calloc_fails : Bool)
  deriving DecidableEq

namespace State

variable (s : State)

def account : Account :=
  law.account s.journal

def setCall (call : Nat) (pc : Submission) : State :=
  { s with calls := Function.update s.calls call pc }

def setWorker (i : Nat) (worker : LR_Worker) : State :=
  { s with workers := Function.update s.workers i worker }

def goto (i : Nat) (pc : WorkerAt) : State :=
  s.setWorker i { s.workers i with pc := pc }

def note (call : Nat) (stage : Stage) : State :=
  { s with journal := s.journal ++ [.task call stage] }

/-- `lr_lfq_push`. -/
def push (i : Nat) (task : LR_Task) : State :=
  s.setWorker i { s.workers i with task_queue := (s.workers i).task_queue ++ [task] }

/-- The worker has its `signal_mutex`. -/
def Locked (i : Nat) : Prop :=
  (s.workers i).pc = .testQueue

instance (i : Nat) : Decidable (s.Locked i) :=
  inferInstanceAs (Decidable (_ = _))

/-- `pthread_cond_signal` of a worker. -/
def signal (i : Nat) : State :=
  if (s.workers i).pc = .asleep then s.goto i .check else s

def InRange (idx : Int) : Prop :=
  0 ≤ idx ∧ idx < s.num_workers

instance (idx : Int) : Decidable (s.InRange idx) :=
  inferInstanceAs (Decidable (_ ∧ _))

def submission (call : Nat) : Option State :=
  match s.calls call with
  | .running target =>
    if s.running = true then
      match target with
      | none => some (s.setCall call (.taskId none))
      | some worker_id =>
        if worker_id < 0 ∨ worker_id ≥ s.num_workers then
          some (s.setCall call (.returned (-1)))
        else some (s.setCall call (.taskId (some worker_id)))
    else some (s.setCall call (.returned (-1)))
  | .taskId target =>
    let task_id := s.next_task_id
    let pc :=
      match target with
      | none => .roundRobin task_id
      | some worker_id => .count task_id worker_id
    some { s.setCall call pc with next_task_id := (task_id + 1).bmod (2 ^ 32) }
  | .roundRobin task_id =>
    let idx := s.round_robin_idx.tmod s.num_workers
    some { s.setCall call (.count task_id idx) with
      round_robin_idx := (s.round_robin_idx + 1).bmod (2 ^ 32) }
  | .count task_id idx =>
    some { (s.setCall call (.push task_id idx)).note call .accepted with
      tasks_pending := s.tasks_pending + 1 }
  | .push task_id idx =>
    if s.InRange idx then
      some ((s.push idx.toNat (.submitted call)).setCall call (.signal task_id idx))
    else none
  | .signal task_id idx =>
    if s.Locked idx.toNat then none
    else some ((s.signal idx.toNat).setCall call (.returned task_id))
  | .returned _ => none

def victim_id (worker_id i : Nat) : Nat :=
  (worker_id * 2654435761 % 2 ^ 32 + i) % 2 ^ 32 % s.num_workers

def max_probe : Nat :=
  if s.num_workers < 3 then s.num_workers else 2

def worker (w : Nat) : Option State :=
  match (s.workers w).pc with
  | .check =>
    if (s.workers w).should_stop = true then some (s.goto w .leave) else some (s.goto w .pop)
  | .pop =>
    match (s.workers w).task_queue with
    | [] => some (s.goto w .loadPending)
    | .terminate :: rest =>
      some (s.setWorker w { s.workers w with task_queue := rest, pc := .leave })
    | .submitted call :: rest =>
      if s.types call = .LR_TASK_TERMINATE then
        some ((s.setWorker w
          { s.workers w with task_queue := rest, pc := .leave }).note call .freed)
      else some (s.setWorker w { s.workers w with task_queue := rest, pc := .execute call })
  | .execute call => some ((s.goto w (.complete call)).note call .executed)
  | .complete call => some ((s.goto w (.decrement call)).note call .completed)
  | .decrement call =>
    let rem := s.tasks_pending - 1
    let pc := if rem = 0 then .signalDone call else .free call
    some { (s.goto w pc).note call .finished with tasks_pending := rem }
  | .free call => some ((s.goto w .check).note call .freed)
  | .loadPending =>
    if s.num_workers > 1 ∧ s.tasks_pending > 0 then some (s.goto w (.probe 0))
    else some (s.goto w .lock)
  | .probe i =>
    if i < s.max_probe then
      if s.victim_id w i = w then some (s.goto w (.probe (i + 1)))
      else if (s.workers (s.victim_id w i)).running = true then some (s.goto w (.rob i))
      else some (s.goto w (.probe (i + 1)))
    else some (s.goto w .lock)
  | .rob i =>
    let victim := s.victim_id w i
    match (s.workers victim).task_queue with
    | [] => some (s.goto w (.probe (i + 1)))
    | task :: rest =>
      some ((s.setWorker victim { s.workers victim with task_queue := rest }).goto w
        (.stolen task))
  | .stolen task => some ((s.push w task).goto w .check)
  | .lock =>
    if (s.workers w).should_stop = true then some (s.goto w .check)
    else some (s.goto w .testQueue)
  | .testQueue =>
    match (s.workers w).task_queue with
    | [] => some (s.goto w .asleep)
    | _ :: _ => some (s.goto w .check)
  | .leave => some (s.setWorker w { s.workers w with running := false, pc := .gone })
  | .boot | .signalDone _ | .asleep | .gone => none

/-- A step of `lr_thread_pool_destroy`. -/
def destruction (calloc_fails : Bool) : Option State :=
  match s.destroyer with
  | .idle | .done => none
  | .mark i =>
    if i < s.num_workers then
      if (s.workers i).running = true then
        some { s.setWorker i { s.workers i with should_stop := true } with
          destroyer := .push i }
      else some { s with destroyer := .mark (i + 1) }
    else some { s with destroyer := .join 0 }
  | .push i =>
    if calloc_fails = true then some { s with destroyer := .signal i }
    else some { s.push i .terminate with destroyer := .signal i }
  | .signal i =>
    if s.Locked i then none else some { s.signal i with destroyer := .mark (i + 1) }
  | .join i =>
    if i < s.num_workers then
      if (s.workers i).running = true then none else some { s with destroyer := .drain i }
    else some { s with destroyer := .freePool }
  | .drain i =>
    match (s.workers i).task_queue with
    | [] =>
      some { s.setWorker i { s.workers i with freed := true } with destroyer := .join (i + 1) }
    | .terminate :: rest => some (s.setWorker i { s.workers i with task_queue := rest })
    | .submitted call :: rest =>
      some ((s.setWorker i { s.workers i with task_queue := rest }).note call .freed)
  | .freePool => some { s with freed := true, destroyer := .done }

def step (event : Event) : Option State :=
  if s.freed = true then none
  else
    match event with
    | .submit type target =>
      some { s with
        calls := Function.update s.calls s.called (.running target)
        types := Function.update s.types s.called type
        called := s.called + 1 }
    | .call call => s.submission call
    | .boot i succeeds =>
      if i < s.num_workers ∧ (s.workers i).pc = .boot then
        if succeeds = true then some (s.goto i .check)
        else some (s.setWorker i { s.workers i with running := false, pc := .gone })
      else none
    | .worker i => if i < s.num_workers then s.worker i else none
    | .signalDone i woken =>
      match (s.workers i).pc, woken with
      | .signalDone call, none =>
        if ∃ j < s.waiting, s.waits j = .asleep then none else some (s.goto i (.free call))
      | .signalDone call, some j =>
        if s.waits j = .asleep then
          some { s.goto i (.free call) with waits := Function.update s.waits j .check }
        else none
      | _, _ => none
    | .wake i => if (s.workers i).pc = .asleep then some (s.goto i .check) else none
    | .wait_all =>
      some { s with
        waits := Function.update s.waits s.waiting .check
        waiting := s.waiting + 1 }
    | .wait j =>
      if s.waits j = .check then
        if s.tasks_pending > 0 then
          some { s with waits := Function.update s.waits j .asleep }
        else
          some { s with
            waits := Function.update s.waits j .returned
            journal := s.journal ++ [.waited] }
      else none
    | .wakeWait j =>
      if s.waits j = .asleep then
        some { s with waits := Function.update s.waits j .check }
      else none
    | .destroy =>
      if s.destroyer = .idle then some { s with running := false, destroyer := .mark 0 }
      else none
    | .destroyer calloc_fails => s.destruction calloc_fails

/-- `lr_thread_pool_create`. -/
def start (num_workers : Int) : State where
  num_workers := if num_workers ≤ 0 then 1 else if num_workers > 128 then 128 else num_workers.toNat
  running := true
  round_robin_idx := 0
  next_task_id := 1
  tasks_pending := 0
  workers _ := ⟨[], true, false, false, .boot⟩
  freed := false
  calls _ := .returned (-1)
  types _ := .LR_TASK_EVAL
  called := 0
  waits _ := .returned
  waiting := 0
  destroyer := .idle
  journal := []

end State

def WorkerAt.InLoop (pc : WorkerAt) : Prop :=
  pc ≠ .leave ∧ pc ≠ .gone

instance (pc : WorkerAt) : Decidable pc.InLoop :=
  inferInstanceAs (Decidable (_ ∧ _))

def Submission.Returned : Submission → Prop
  | .returned _ => True
  | .running _ | .taskId _ | .roundRobin _ | .count _ _ | .push _ _ | .signal _ _ => False

instance (pc : Submission) : Decidable pc.Returned := by
  unfold Submission.Returned
  split <;> infer_instance

def WorkerAt.hand : WorkerAt → Option (Nat × Stage)
  | .execute call | .stolen (.submitted call) => some (call, .accepted)
  | .complete call => some (call, .executed)
  | .decrement call => some (call, .completed)
  | .signalDone call | .free call => some (call, .finished)
  | .boot | .check | .pop | .loadPending | .probe _ | .rob _ | .stolen .terminate | .lock
  | .testQueue | .asleep | .leave | .gone => none

/-- The worker is about to signal `done_cond`. -/
def WorkerAt.Signals : WorkerAt → Prop
  | .signalDone _ => True
  | .boot | .check | .pop | .execute _ | .complete _ | .decrement _ | .free _ | .loadPending
  | .probe _ | .rob _ | .stolen _ | .lock | .testQueue | .asleep | .leave | .gone => False

instance (pc : WorkerAt) : Decidable pc.Signals := by
  unfold WorkerAt.Signals
  split <;> infer_instance

namespace State

variable (s : State)

def unfinished : Finset Nat :=
  (Finset.range s.called).filter fun call => (s.account call).Pending

def WillWake (i : Nat) : Prop :=
  (∃ call task_id idx, s.calls call = .signal task_id idx ∧ idx.toNat = i) ∨
    s.destroyer = .signal i

def Quiet : Prop :=
  (∀ i < s.num_workers, (s.workers i).pc = .asleep ∨ (s.workers i).pc = .gone) ∧
    (∀ call, (s.calls call).Returned) ∧ (∀ j, s.waits j ≠ .check) ∧
      ∀ i, s.destroyer ≠ .signal i

structure Correct : Prop where
  /-- `tasks_pending` is the number of unfinished tasks. -/
  pending : s.tasks_pending = s.unfinished.card
  range : ∀ call task_id idx, s.calls call = .push task_id idx → s.InRange idx
  losesNone : ∀ call, (s.account call).Pending →
    (∃ task_id idx, s.calls call = .push task_id idx) ∨
      ∃ i < s.num_workers, (s.workers i).pc.InLoop ∧
        (.submitted call ∈ (s.workers i).task_queue ∨
          ∃ stage, (s.workers i).pc.hand = some (call, stage))
  awake : ∀ i < s.num_workers, (s.workers i).pc = .asleep → (s.workers i).task_queue ≠ [] →
    s.WillWake i
  waits : ∀ j, s.waits j = .asleep → 0 < s.tasks_pending ∨
    ∃ i < s.num_workers, (s.workers i).pc.Signals
  settles : s.Quiet → (∀ call, ¬(s.account call).Pending) ∧ ∀ j, s.waits j ≠ .asleep

def CallMeets : Submission → Prop
  | .roundRobin _ => s.InRange (s.round_robin_idx.tmod s.num_workers)
  | .push _ idx => (s.workers idx.toNat).pc.InLoop
  | .signal _ idx => (s.workers idx.toNat).freed = false
  | .running _ | .taskId _ | .count _ _ | .returned _ => True

instance : (pc : Submission) → Decidable (s.CallMeets pc)
  | .roundRobin _ => inferInstanceAs (Decidable (s.InRange _))
  | .push _ _ => inferInstanceAs (Decidable (WorkerAt.InLoop _))
  | .signal _ _ => inferInstanceAs (Decidable (_ = _))
  | .running _ | .taskId _ | .count _ _ | .returned _ => inferInstanceAs (Decidable True)

def Drained (i : Nat) : Prop :=
  ∀ task ∈ (s.workers i).task_queue, task = .terminate

instance (i : Nat) : Decidable (s.Drained i) :=
  inferInstanceAs (Decidable (∀ task ∈ _, _))

/-- A worker leaves no task behind when it leaves its loop, and does not probe a neighbour that has
been freed. -/
def WorkerMeets (w : Nat) : WorkerAt → Prop
  | .check => (s.workers w).should_stop = true → s.Drained w
  | .pop => (s.workers w).task_queue.head? = some .terminate → s.Drained w
  | .probe i | .rob i => (s.workers (s.victim_id w i)).freed = false
  | .boot | .execute _ | .complete _ | .decrement _ | .signalDone _ | .free _ | .loadPending
  | .stolen _ | .lock | .testQueue | .asleep | .leave | .gone => True

instance (w : Nat) : (pc : WorkerAt) → Decidable (s.WorkerMeets w pc)
  | .check | .pop => inferInstanceAs (Decidable (_ → s.Drained w))
  | .probe _ | .rob _ => inferInstanceAs (Decidable (_ = _))
  | .boot | .execute _ | .complete _ | .decrement _ | .signalDone _ | .free _ | .loadPending
  | .stolen _ | .lock | .testQueue | .asleep | .leave | .gone => inferInstanceAs (Decidable True)

def OneAsleep : Prop :=
  ∀ j < s.waiting, ∀ j' < s.waiting, s.waits j = .asleep → s.waits j' = .asleep → j = j'

instance : Decidable s.OneAsleep :=
  inferInstanceAs (Decidable (∀ j < _, ∀ j' < _, _ → _ → _))

def Unused : Prop :=
  (∀ call < s.called, (s.calls call).Returned) ∧ ∀ j < s.waiting, s.waits j = .returned

instance : Decidable s.Unused :=
  inferInstanceAs (Decidable ((∀ call < _, _) ∧ ∀ j < _, _))

def Meets (s : State) : Event → Prop
  | .submit type _ => type ≠ .LR_TASK_TERMINATE
  | .call call => s.CallMeets (s.calls call)
  | .boot i succeeds => succeeds = true ∨ s.Drained i
  | .worker i => s.WorkerMeets i (s.workers i).pc
  | .signalDone i _ => s.OneAsleep ∨ 0 < s.tasks_pending ∨
      ∃ other < s.num_workers, other ≠ i ∧ (s.workers other).pc.Signals
  | .destroyer _ => s.destroyer = .freePool → s.Unused
  | .wake _ | .wait_all | .wait _ | .wakeWait _ | .destroy => True

instance (s : State) : (event : Event) → Decidable (s.Meets event)
  | .submit _ _ => inferInstanceAs (Decidable (_ ≠ _))
  | .call _ => inferInstanceAs (Decidable (s.CallMeets _))
  | .boot i _ => inferInstanceAs (Decidable (_ ∨ s.Drained i))
  | .worker i => inferInstanceAs (Decidable (s.WorkerMeets i _))
  | .signalDone _ _ => inferInstanceAs (Decidable (s.OneAsleep ∨ _ ∨ ∃ other < _, _))
  | .destroyer _ => inferInstanceAs (Decidable (_ → s.Unused))
  | .wake _ | .wait_all | .wait _ | .wakeWait _ | .destroy => inferInstanceAs (Decidable True)

end State

end LRJS.ThreadPool
