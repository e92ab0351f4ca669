import LRJS.ThreadPool

/-!
# What becomes of the tasks of a pool

Each task that has been accepted is in one place until it is freed: with its
submission, in the queue of a worker in its loop, or in the hands of a worker.
The place says how far it has come.
-/

namespace LRJS.ThreadPool

open Function List Option State

inductive Place where
  | call
  | queue (i : Nat)
  | hand (i : Nat)
  deriving DecidableEq

def Submission.Early : Submission → Prop
  | .running _ | .taskId _ | .roundRobin _ | .count _ _ => True
  | .push _ _ | .signal _ _ | .returned _ => False

def Submission.idx : Submission → Option Int
  | .taskId target => target
  | .count _ idx | .push _ idx | .signal _ idx => some idx
  | .running _ | .roundRobin _ | .returned _ => none

namespace State

def At (s : State) (call : Nat) : Place → Stage → Prop
  | .call, stage => (∃ task_id idx, s.calls call = .push task_id idx) ∧ stage = .accepted
  | .queue i, stage => .submitted call ∈ (s.workers i).task_queue ∧ stage = .accepted
  | .hand i, stage => (s.workers i).pc.hand = some (call, stage)

structure Placed (s : State) (place : Nat → Option Place) : Prop where
  located : ∀ call p stage, s.At call p stage ↔ place call = some p ∧ stage = s.account call
  single : ∀ i call, (s.workers i).task_queue.count (.submitted call) ≤ 1
  out : ∀ call, place call = none → s.account call = .fresh ∨ s.account call = .freed
  inLoop : ∀ i call, .submitted call ∈ (s.workers i).task_queue →
    i < s.num_workers ∧ (s.workers i).pc.InLoop

structure Kept (s : State) : Prop where
  lawful : law.Lawful s.journal
  placed : ∃ place, s.Placed place
  early : ∀ call, (s.calls call).Early ∨ s.called ≤ call → s.account call = .fresh
  range : ∀ call, ∀ idx ∈ (s.calls call).idx, s.InRange idx
  uncalled : ∀ call, s.called ≤ call → (s.calls call).Returned
  types : ∀ call < s.called, s.types call ≠ .LR_TASK_TERMINATE
  pending : s.tasks_pending = s.unfinished.card
  unborn : ∀ i, s.num_workers ≤ i → (s.workers i).pc = .boot
  awake : ∀ i, (s.workers i).pc = .asleep → (s.workers i).task_queue ≠ [] → s.WillWake i
  waits : ∀ j, s.waits j = .asleep → 0 < s.tasks_pending ∨
    ∃ i < s.num_workers, (s.workers i).pc.Signals
  unwaited : ∀ j, s.waiting ≤ j → s.waits j = .returned
  gone : ∀ i, (s.workers i).running = false → (s.workers i).pc = .gone
  drains : ∀ i, s.destroyer = .drain i → (s.workers i).running = false

variable {s s' : State}

/-! ## Places -/

section Moves

variable {place : Nat → Option Place}

section

variable (placed : s.Placed place)
include placed

theorem Placed.moves (call : Nat) (goal : Option Place) (others : ∀ other, other ≠ call →
      s'.account other = s.account other ∧ ∀ p stage, s'.At other p stage ↔ s.At other p stage)
    (self : ∀ p stage, s'.At call p stage ↔ goal = some p ∧ stage = s'.account call)
    (out : goal = none → s'.account call = .fresh ∨ s'.account call = .freed)
    (single : ∀ i call, (s'.workers i).task_queue.count (.submitted call) ≤ 1)
    (inLoop : ∀ i call, .submitted call ∈ (s'.workers i).task_queue →
      i < s'.num_workers ∧ (s'.workers i).pc.InLoop) :
    s'.Placed (Function.update place call goal) where
  located other p stage := by
    by_cases same : other = call
    · rw [same, update_self]
      exact self p stage
    · rw [update_of_ne same, (others other same).1, (others other same).2]
      exact placed.located other p stage
  single := single
  out other nowhere := by
    by_cases same : other = call
    · rw [same, update_self] at nowhere
      exact same ▸ out nowhere
    · rw [update_of_ne same] at nowhere
      rw [(others other same).1]
      exact placed.out other nowhere
  inLoop := inLoop

theorem Placed.stays (same : ∀ call, s'.account call = s.account call ∧
      ∀ p stage, s'.At call p stage ↔ s.At call p stage)
    (single : ∀ i call, (s'.workers i).task_queue.count (.submitted call) ≤ 1)
    (inLoop : ∀ i call, .submitted call ∈ (s'.workers i).task_queue →
      i < s'.num_workers ∧ (s'.workers i).pc.InLoop) : s'.Placed place where
  located call p stage := by
    rw [(same call).1, (same call).2]
    exact placed.located call p stage
  single := single
  out call nowhere := by
    rw [(same call).1]
    exact placed.out call nowhere
  inLoop := inLoop

theorem Placed.stage {call : Nat} {p : Place} {stage : Stage}
    (here : s.At call p stage) : s.account call = stage :=
  ((placed.located call p stage).mp here).2.symm

theorem Placed.alone {call : Nat} {p q : Place} {stage stage' : Stage}
    (here : s.At call p stage) (there : s.At call q stage') : p = q ∧ stage = stage' := by
  have first := (placed.located call p stage).mp here
  have second := (placed.located call q stage').mp there
  exact ⟨some.inj (first.1.symm.trans second.1), first.2.trans second.2.symm⟩

end

end Moves

/-! ## Counting -/

theorem account_note (s : State) (call : Nat) (stage : Stage) :
    law.account (s.journal ++ [.task call stage]) = Function.update s.account call stage :=
  law.account_note ..

variable {call : Nat}

theorem mem_unfinished : call ∈ s.unfinished ↔ call < s.called ∧ (s.account call).Pending := by
  rw [unfinished, Finset.mem_filter, Finset.mem_range]

theorem unfinished_same (same : ∀ call, call < s'.called ∧ (s'.account call).Pending ↔
    call < s.called ∧ (s.account call).Pending) : s'.unfinished = s.unfinished := by
  ext call
  rw [mem_unfinished, mem_unfinished, same]

theorem card_accepted (called : s'.called = s.called) (bound : call < s.called)
    (account : s'.account = Function.update s.account call .accepted)
    (fresh : s.account call = .fresh) : s'.unfinished.card = s.unfinished.card + 1 := by
  have absent : call ∉ s.unfinished := by
    rw [mem_unfinished, fresh]
    rintro ⟨_, pending⟩
    exact absurd pending (by decide)
  have inserted : s'.unfinished = insert call s.unfinished := by
    ext other
    rw [Finset.mem_insert, mem_unfinished, mem_unfinished, called, account]
    by_cases same : other = call
    · rw [same, update_self]
      exact ⟨fun _ => .inl rfl, fun _ => ⟨bound, .inl rfl⟩⟩
    · rw [update_of_ne same]
      exact ⟨.inr, fun member => member.resolve_left same⟩
  rw [inserted, Finset.card_insert_of_notMem absent]

theorem card_finished (called : s'.called = s.called) (bound : call < s.called)
    (account : s'.account = Function.update s.account call .finished)
    (completed : s.account call = .completed) : s'.unfinished.card + 1 = s.unfinished.card := by
  have member : call ∈ s.unfinished := by
    rw [mem_unfinished, completed]
    exact ⟨bound, .inr (.inr rfl)⟩
  have erased : s'.unfinished = s.unfinished.erase call := by
    ext other
    rw [Finset.mem_erase, mem_unfinished, mem_unfinished, called, account]
    by_cases same : other = call
    · rw [same, update_self]
      exact ⟨fun found => absurd found.2 (by decide), fun found => absurd rfl found.1⟩
    · rw [update_of_ne same]
      exact ⟨fun found => ⟨same, found⟩, And.right⟩
  rw [erased, Finset.card_erase_add_one member]

theorem unfinished_moved {stage : Stage} (called : s'.called = s.called)
    (account : s'.account = Function.update s.account call stage)
    (same : stage.Pending ↔ (s.account call).Pending) : s'.unfinished = s.unfinished := by
  refine unfinished_same fun other => ?_
  rw [called, account]
  by_cases here : other = call
  · rw [here, update_self, same]
  · rw [update_of_ne here]

/-! ## Steps without a task -/

variable {w i : Nat}

theorem workers_setWorker {worker : LR_Worker} :
    (s.setWorker w worker).workers i = if i = w then worker else s.workers i :=
  update_apply ..

theorem calls_setCall {other : Nat} {pc : Submission} :
    (s.setCall call pc).calls other = if other = call then pc else s.calls other :=
  update_apply ..

theorem WillWake.other (will : s.WillWake i)
    (calls : ∀ other, other ≠ call → s'.calls other = s.calls other)
    (not_signal : ∀ task_id idx, s.calls call ≠ .signal task_id idx)
    (destroyer : s'.destroyer = s.destroyer) : s'.WillWake i := by
  refine will.imp (fun signaller => ?_) fun here => destroyer.trans here
  obtain ⟨other, task_id, idx, here, same⟩ := signaller
  refine ⟨other, task_id, idx, (calls other fun is_call => ?_).trans here, same⟩
  exact not_signal task_id idx (is_call ▸ here)

theorem mem_of_count {queue queue' : List LR_Task}
    (same : queue.count (.submitted call) = queue'.count (.submitted call)) :
    .submitted call ∈ queue ↔ .submitted call ∈ queue' := by
  rw [← count_pos_iff, ← count_pos_iff, same]

theorem Kept.waits_setWorker (kept : s.Kept) {worker : LR_Worker}
    (signals : (s.workers w).pc.Signals → worker.pc.Signals) (j : Nat)
    (sleeps : s.waits j = .asleep) :
    0 < s.tasks_pending ∨
      ∃ i < s.num_workers, ((s.setWorker w worker).workers i).pc.Signals := by
  refine (kept.waits j sleeps).imp_right fun signaller => ?_
  obtain ⟨i, bound, at_signal⟩ := signaller
  refine ⟨i, bound, ?_⟩
  rw [workers_setWorker]
  split_ifs with here
  · exact signals (here ▸ at_signal)
  · exact at_signal

/-- A step of a worker that leaves the tasks keeps the invariant. -/
theorem Kept.setWorker (kept : s.Kept) {worker : LR_Worker}
    (queue : ∀ call, worker.task_queue.count (.submitted call) =
      (s.workers w).task_queue.count (.submitted call))
    (hand : worker.pc.hand = (s.workers w).pc.hand)
    (waits : ∀ j, s.waits j = .asleep → 0 < s.tasks_pending ∨
      ∃ i < s.num_workers, ((s.setWorker w worker).workers i).pc.Signals)
    (inLoop : worker.pc.InLoop ∨ s.Drained w ∨ worker.pc = (s.workers w).pc)
    (asleep : worker.pc = .asleep → worker.task_queue ≠ [] → s.WillWake w)
    (born : s.num_workers ≤ w → worker.pc = .boot)
    (gone : worker.running = false → worker.pc = .gone)
    (stays : (s.workers w).running = false → worker.running = false) :
    (s.setWorker w worker).Kept := by
  have same_count (i call : Nat) :
      ((s.setWorker w worker).workers i).task_queue.count (.submitted call) =
        (s.workers i).task_queue.count (.submitted call) := by
    rw [workers_setWorker]
    split_ifs with here
    · rw [queue, here]
    · rfl
  have same_hand (i : Nat) :
      ((s.setWorker w worker).workers i).pc.hand = (s.workers i).pc.hand := by
    rw [workers_setWorker]
    split_ifs with here
    · rw [hand, here]
    · rfl
  obtain ⟨place, placed⟩ := kept.placed
  refine { kept with
    placed := ⟨place, placed.stays (fun call => ⟨rfl, fun p stage => ?_⟩) (fun i call => ?_)
      fun i call member => ?_⟩
    unborn := fun i bound => ?_
    awake := fun i sleeps waiting => ?_
    waits := waits
    gone := fun i stopped => ?_
    drains := fun i draining => ?_ }
  · cases p with
    | call => rfl
    | queue i => exact and_congr_left fun _ => mem_of_count (same_count i call)
    | hand i => rw [At, same_hand]; rfl
  · rw [same_count]
    exact placed.single i call
  · rw [mem_of_count (same_count i call)] at member
    obtain ⟨bound, going⟩ := placed.inLoop i call member
    refine ⟨bound, ?_⟩
    rw [workers_setWorker]
    split_ifs with here
    · subst here
      rcases inLoop with stays | drained | same
      · exact stays
      · cases drained _ member
      · rw [same]
        exact going
    · exact going
  · rw [workers_setWorker]
    split_ifs with here
    · exact born (here ▸ bound)
    · exact kept.unborn i bound
  · rw [workers_setWorker] at sleeps waiting
    split_ifs at sleeps with here
    · rw [if_pos here] at waiting
      exact here ▸ asleep sleeps waiting
    · rw [if_neg here] at waiting
      exact kept.awake i sleeps waiting
  · rw [workers_setWorker] at stopped ⊢
    split_ifs at stopped with here
    · rw [if_pos here]
      exact gone stopped
    · rw [if_neg here]
      exact kept.gone i stopped
  · rw [workers_setWorker]
    have stopped := kept.drains i draining
    split_ifs with here
    · exact stays (here ▸ stopped)
    · exact stopped

variable {pc : WorkerAt}

theorem not_signals (empty : pc.hand = none) : ¬pc.Signals := by
  cases pc <;> first | exact id | cases empty

theorem Kept.goto (kept : s.Kept) (bound : w < s.num_workers)
    (old : (s.workers w).pc.hand = none) (here : (s.workers w).pc ≠ .gone)
    (new : pc.hand = none) (inLoop : pc.InLoop ∨ s.Drained w)
    (asleep : pc = .asleep → (s.workers w).task_queue = []) : (s.goto w pc).Kept :=
  kept.setWorker (fun _ => rfl) (new.trans old.symm)
    (kept.waits_setWorker fun signals => absurd signals (not_signals old))
    (inLoop.imp_right .inl)
    (fun sleeps waiting => absurd (asleep sleeps) waiting)
    (fun above => absurd bound (Nat.not_lt.mpr above))
    (fun stopped => absurd (kept.gone w stopped) here) id

theorem Kept.recalled (kept : s.Kept) {call : Nat} {pc : Submission} (bound : call < s.called)
    (calls : ∀ other, s'.calls other = if other = call then pc else s.calls other)
    (called : s'.called = s.called) (workers : s'.num_workers = s.num_workers)
    (account : ∀ other, other ≠ call → s'.account other = s.account other)
    (early : pc.Early → s'.account call = .fresh) (range : ∀ idx ∈ pc.idx, s.InRange idx) :
    (∀ other, (s'.calls other).Early ∨ s'.called ≤ other → s'.account other = .fresh) ∧
      (∀ other, ∀ idx ∈ (s'.calls other).idx, s'.InRange idx) ∧
      ∀ other, s'.called ≤ other → (s'.calls other).Returned := by
  refine ⟨fun other which => ?_, fun other idx here => ?_, fun other above => ?_⟩
  · rw [calls, called] at which
    by_cases same : other = call
    · subst same
      rw [if_pos rfl] at which
      exact early (which.resolve_right (Nat.not_le.mpr bound))
    · rw [if_neg same] at which
      rw [account other same]
      exact kept.early other which
  · rw [State.InRange, workers]
    rw [calls] at here
    split at here
    · exact range idx here
    · exact kept.range other idx here
  · rw [called] at above
    rw [calls, if_neg (by rintro rfl; exact absurd bound (Nat.not_lt.mpr above))]
    exact kept.uncalled other above

variable {task_id : Int} {idx : Int}

theorem Kept.setCall (kept : s.Kept) {pc : Submission} (early : (s.calls call).Early)
    (later : pc.Early ∨ pc.Returned) (range : ∀ idx ∈ pc.idx, s.InRange idx) :
    Kept { s.setCall call pc with next_task_id := task_id, round_robin_idx := idx } := by
  let t : State := { s.setCall call pc with next_task_id := task_id, round_robin_idx := idx }
  have calls (other : Nat) : t.calls other = if other = call then pc else s.calls other :=
    calls_setCall
  have bound : call < s.called := by
    refine Nat.not_le.mp fun above => ?_
    have returned := kept.uncalled call above
    cases here : s.calls call <;> rw [here] at early returned <;>
      first | exact early | exact returned
  have not_push (task_id idx : Int) : s.calls call ≠ .push task_id idx ∧ pc ≠ .push task_id idx ∧
      s.calls call ≠ .signal task_id idx := by
    refine ⟨fun same => ?_, fun same => ?_, fun same => ?_⟩
    · rw [same] at early
      exact early
    · rw [same] at later
      exact later.elim id id
    · rw [same] at early
      exact early
  obtain ⟨place, placed⟩ := kept.placed
  obtain ⟨fresh, ranges, uncalled⟩ := @Kept.recalled s t kept call pc bound calls rfl rfl
    (fun _ _ => rfl) (fun _ => kept.early call (.inl early)) range
  refine { kept with
    placed := ⟨place, placed.stays (fun other => ⟨rfl, fun p stage => ?_⟩) placed.single
      placed.inLoop⟩
    early := fresh
    range := ranges
    uncalled := uncalled
    awake := fun i sleeps waiting => ?_ }
  · cases p with
    | call =>
      refine and_congr_left fun _ => exists_congr fun a => exists_congr fun b => ?_
      rw [calls]
      split_ifs with same
      · rw [same]
        exact ⟨fun here => absurd here (not_push a b).2.1,
          fun here => absurd here (not_push a b).1⟩
      · rfl
    | queue i => rfl
    | hand i => rfl
  · exact (kept.awake i sleeps waiting).other (fun other different => update_of_ne different ..)
      (fun a b => (not_push a b).2.2) rfl

/-! ## Submissions -/

theorem hand_stage {stage : Stage} (here : pc.hand = some (call, stage)) :
    stage ≠ .fresh ∧ stage ≠ .freed := by
  cases pc with
  | execute | complete | decrement | signalDone | free =>
    cases here
    exact ⟨nofun, nofun⟩
  | stolen task =>
    cases task with
    | submitted call =>
      cases here
      exact ⟨nofun, nofun⟩
    | terminate => cases here
  | boot | check | pop | loadPending | probe | rob | lock | testQueue | asleep | leave | gone =>
    cases here

theorem Placed.nowhere {place : Nat → Option Place} (placed : s.Placed place)
    (out : s.account call = .fresh ∨ s.account call = .freed) (p : Place) (stage : Stage) :
    ¬s.At call p stage := by
  intro here
  have known := placed.stage here
  rw [known] at out
  cases p with
  | call | queue =>
    rw [here.2] at out
    cases out <;> contradiction
  | hand i => exact out.elim (hand_stage here).1 (hand_stage here).2

theorem not_returned_lt (kept : s.Kept) (going : ¬(s.calls call).Returned) : call < s.called :=
  Nat.not_le.mp fun above => going (kept.uncalled call above)

/-- A submission that begins is not accepted yet. -/
theorem Kept.submit (kept : s.Kept) {type : LR_TaskType} (target : Option Int)
    (proper : type ≠ .LR_TASK_TERMINATE) :
    Kept { s with
      calls := update s.calls s.called (.running target)
      types := update s.types s.called type
      called := s.called + 1 } := by
  let t : State :=
    { s with
      calls := update s.calls s.called (.running target)
      types := update s.types s.called type
      called := s.called + 1 }
  have calls (other : Nat) :
      t.calls other = if other = s.called then .running target else s.calls other :=
    update_apply ..
  have fresh : s.account s.called = .fresh := kept.early s.called (.inr (Nat.le_refl _))
  have returned := kept.uncalled s.called (Nat.le_refl _)
  obtain ⟨place, placed⟩ := kept.placed
  refine { kept with
    placed := ⟨place, placed.stays (fun other => ⟨rfl, fun p stage => ?_⟩) placed.single
      placed.inLoop⟩
    early := fun other which => ?_
    range := fun other idx here => ?_
    uncalled := fun other above => ?_
    types := fun other below => ?_
    pending := ?_
    awake := fun i sleeps waiting => (kept.awake i sleeps waiting).other
      (fun other different => update_of_ne different ..)
      (fun a b here => by rw [here] at returned; exact returned) rfl }
  · cases p with
    | call =>
      refine and_congr_left fun _ => exists_congr fun a => exists_congr fun b => ?_
      rw [calls]
      split_ifs with same
      · rw [same]
        constructor
        · nofun
        · intro here
          rw [here] at returned
          exact returned.elim
      · rfl
    | queue i => rfl
    | hand i => rfl
  · by_cases same : other = s.called
    · exact same ▸ fresh
    · refine kept.early other (which.imp (fun early => ?_) Nat.le_of_succ_le)
      rw [calls, if_neg same] at early
      exact early
  · rw [calls] at here
    split at here
    · cases here
    · exact kept.range other idx here
  · rw [calls, if_neg (Nat.ne_of_gt above)]
    exact kept.uncalled other (Nat.le_of_succ_le above)
  · change update s.types s.called type other ≠ _
    rw [update_apply]
    split_ifs with different
    · exact proper
    · exact kept.types other (Nat.lt_of_le_of_ne (Nat.le_of_lt_succ below) different)
  · rw [show t.unfinished = s.unfinished from unfinished_same fun other => ?_]
    · exact kept.pending
    · constructor
      · rintro ⟨below, pending⟩
        refine ⟨Nat.lt_of_le_of_ne (Nat.le_of_lt_succ below) fun same => ?_, pending⟩
        have pending : (s.account other).Pending := pending
        rw [same, fresh] at pending
        exact absurd pending (by decide)
      · exact fun found => ⟨Nat.lt_succ_of_lt found.1, found.2⟩

/-- A submission that is counted is accepted, and pending. -/
theorem Kept.count (kept : s.Kept) (here : s.calls call = .count task_id idx) :
    Kept { (s.setCall call (.push task_id idx)).note call .accepted with
      tasks_pending := s.tasks_pending + 1 } := by
  let t : State :=
    { (s.setCall call (.push task_id idx)).note call .accepted with
      tasks_pending := s.tasks_pending + 1 }
  have calls (other : Nat) :
      t.calls other = if other = call then .push task_id idx else s.calls other :=
    calls_setCall
  have bound : call < s.called := not_returned_lt kept (by rw [here]; exact id)
  have fresh : s.account call = .fresh := kept.early call (.inl (by rw [here]; trivial))
  have account : t.account = update s.account call .accepted := account_note ..
  obtain ⟨place, placed⟩ := kept.placed
  have nowhere := placed.nowhere (.inl fresh)
  obtain ⟨early, range, uncalled⟩ := @Kept.recalled s t kept call _ bound calls rfl rfl
    (fun other different => by rw [account, update_of_ne different]) False.elim
    fun idx' at_idx => kept.range call idx' (by rw [here]; exact at_idx)
  refine { kept with
    lawful := kept.lawful.note ⟨nofun, fresh⟩
    placed := ⟨_, placed.moves call (some .call) (fun other different => ⟨?_, fun p stage => ?_⟩)
      (fun p stage => ?_) nofun placed.single placed.inLoop⟩
    early := early
    range := range
    uncalled := uncalled
    pending := ?_
    awake := fun i sleeps waiting => (kept.awake i sleeps waiting).other
      (fun other different => update_of_ne different ..)
      (fun a b signals => by rw [here] at signals; cases signals) rfl
    waits := fun j sleeps => .inl ?_ }
  · rw [account, update_of_ne different]
  · cases p with
    | call => rw [At, At, calls, if_neg different]
    | queue i => rfl
    | hand i => rfl
  · rw [account, update_self]
    cases p with
    | call =>
      rw [At, calls, if_pos rfl]
      exact ⟨fun found => ⟨rfl, found.2⟩, fun found => ⟨⟨_, _, rfl⟩, found.2⟩⟩
    | queue i => exact ⟨fun found => absurd found (nowhere (.queue i) stage),
        fun found => nomatch found⟩
    | hand i => exact ⟨fun found => absurd found (nowhere (.hand i) stage),
        fun found => nomatch found⟩
  · have more : t.unfinished.card = s.unfinished.card + 1 := card_accepted rfl bound account fresh
    rw [more]
    have pending := kept.pending
    change s.tasks_pending + 1 = _
    omega
  · have pending := kept.pending
    change 0 < s.tasks_pending + 1
    omega

theorem lr_lfq_push_queue {task : LR_Task} :
    ((s.push i task).workers w).task_queue =
      if w = i then (s.workers i).task_queue ++ [task] else (s.workers w).task_queue := by
  rw [push, workers_setWorker]
  split <;> rfl

theorem lr_lfq_push_pc {task : LR_Task} : ((s.push i task).workers w).pc = (s.workers w).pc := by
  rw [push, workers_setWorker]
  split_ifs with here
  · rw [here]
  · rfl

theorem lr_lfq_push_running {task : LR_Task} :
    ((s.push i task).workers w).running = (s.workers w).running := by
  rw [push, workers_setWorker]
  split_ifs with here
  · rw [here]
  · rfl

theorem count_put {queue : List LR_Task} (absent : queue.count (.submitted call) = 0)
    (other : Nat) : (queue ++ [LR_Task.submitted call]).count (.submitted other) =
      if other = call then 1 else queue.count (.submitted other) := by
  rw [count_append]
  split_ifs with same
  · rw [same, absent, count_singleton_self]
  · have none_more : [LR_Task.submitted call].count (.submitted other) = 0 := by
      refine count_eq_zero.mpr fun found => ?_
      cases mem_singleton.mp found
      exact same rfl
    rw [none_more, Nat.add_zero]

/-- A submission that is pushed stands in the queue of its worker. -/
theorem Kept.pushes (kept : s.Kept) (here : s.calls call = .push task_id idx)
    (going : (s.workers idx.toNat).pc.InLoop) :
    Kept ((s.push idx.toNat (.submitted call)).setCall call (.signal task_id idx)) := by
  let t : State := (s.push idx.toNat (.submitted call)).setCall call (.signal task_id idx)
  have calls (other : Nat) :
      t.calls other = if other = call then .signal task_id idx else s.calls other :=
    calls_setCall
  have range : s.InRange idx := kept.range call idx (by rw [here]; rfl)
  have below : idx.toNat < s.num_workers := by
    obtain ⟨nonneg, below⟩ := range
    omega
  have bound : call < s.called := not_returned_lt kept (by rw [here]; exact id)
  have queue (w : Nat) : (t.workers w).task_queue =
      if w = idx.toNat then (s.workers idx.toNat).task_queue ++ [.submitted call]
      else (s.workers w).task_queue :=
    lr_lfq_push_queue
  have pc (w : Nat) : (t.workers w).pc = (s.workers w).pc := lr_lfq_push_pc
  have running (w : Nat) : (t.workers w).running = (s.workers w).running := lr_lfq_push_running
  obtain ⟨place, placed⟩ := kept.placed
  have at_call : s.At call .call .accepted := ⟨⟨task_id, idx, here⟩, rfl⟩
  have absent (i : Nat) : .submitted call ∉ (s.workers i).task_queue := by
    intro member
    have queued : s.At call (.queue i) .accepted := ⟨member, rfl⟩
    have same := (placed.alone at_call queued).1
    cases same
  obtain ⟨early, ranges, uncalled⟩ := @Kept.recalled s t kept call _ bound calls rfl rfl
    (fun _ _ => rfl) False.elim fun idx' at_idx => by cases at_idx; exact range
  refine { kept with
    placed := ⟨_, placed.moves call (some (.queue idx.toNat))
      (fun other different => ⟨rfl, fun p stage => ?_⟩) (fun p stage => ?_) nofun
      (fun i other => ?_) fun i other member => ?_⟩
    early := early
    range := ranges
    uncalled := uncalled
    unborn := fun i above => (pc i).trans (kept.unborn i above)
    awake := fun i sleeps waiting => ?_
    waits := fun j sleeps => (kept.waits j sleeps).imp_right fun signaller => ?_
    gone := fun i stopped => (pc i).trans (kept.gone i ((running i).symm.trans stopped))
    drains := fun i draining => (running i).trans (kept.drains i draining) }
  · cases p with
    | call =>
      rw [At, At, calls, if_neg different]
    | queue i =>
      rw [At, At, queue]
      split_ifs with same
      · rw [same, mem_append, mem_singleton]
        refine and_congr_left fun _ => or_iff_left fun is_call => ?_
        cases is_call
        exact different rfl
      · rfl
    | hand i => rw [At, At, pc]
  · have stage_eq : s.account call = .accepted := placed.stage at_call
    change _ ↔ _ ∧ stage = s.account call
    rw [stage_eq]
    cases p with
    | call =>
      rw [At, calls, if_pos rfl]
      constructor
      · rintro ⟨⟨_, _, found⟩, _⟩
        cases found
      · nofun
    | queue i =>
      rw [At, queue]
      split
      · rename_i same
        rw [same]
        exact ⟨fun found => ⟨rfl, found.2⟩,
          fun found => ⟨mem_append_right _ mem_cons_self, found.2⟩⟩
      · rename_i different
        constructor
        · exact fun found => absurd found.1 (absent i)
        · rintro ⟨same, _⟩
          cases same
          exact absurd rfl different
    | hand i =>
      rw [At, pc]
      constructor
      · intro found
        have held : s.At call (.hand i) stage := found
        have same := (placed.alone at_call held).1
        cases same
      · nofun
  · rw [queue]
    split
    · rw [count_put (count_eq_zero.mpr (absent _))]
      split
      · exact Nat.le_refl 1
      · exact placed.single _ other
    · exact placed.single i other
  · rw [pc]
    rw [queue] at member
    split_ifs at member with same
    · rw [same]
      exact ⟨below, going⟩
    · exact placed.inLoop i other member
  · rw [pc] at sleeps
    rw [queue] at waiting
    split_ifs at waiting with same
    · exact .inl ⟨call, task_id, idx, by rw [calls, if_pos rfl], same.symm⟩
    · exact (kept.awake i sleeps waiting).other
        (fun other different => update_of_ne different ..)
        (fun a b signals => by rw [here] at signals; cases signals) rfl
  · obtain ⟨i, below, signals⟩ := signaller
    exact ⟨i, below, (pc i).symm ▸ signals⟩

theorem Kept.signal (kept : s.Kept) (i : Nat) : (s.signal i).Kept := by
  unfold State.signal
  split_ifs with asleep
  · have bound : i < s.num_workers := by
      refine Nat.not_le.mp fun above => ?_
      rw [kept.unborn i above] at asleep
      cases asleep
    exact kept.goto bound (by rw [asleep]; rfl) (by rw [asleep]; nofun) rfl
      (.inl ⟨nofun, nofun⟩) nofun
  · exact kept

theorem not_asleep_signal (i : Nat) : ((s.signal i).workers i).pc ≠ .asleep := by
  unfold signal
  split
  · rw [goto, workers_setWorker, if_pos rfl]
    nofun
  · assumption

theorem signal_fields (i : Nat) :
    (s.signal i).calls = s.calls ∧ (s.signal i).destroyer = s.destroyer ∧
      (s.signal i).journal = s.journal := by
  unfold signal
  split <;> exact ⟨rfl, rfl, rfl⟩

/-- Behind the push the worker is woken or not asleep. -/
theorem Kept.signals (kept : s.Kept) (here : s.calls call = .signal task_id idx) :
    Kept ((s.signal idx.toNat).setCall call (.returned task_id)) := by
  have bound : call < s.called := not_returned_lt kept (by rw [here]; exact id)
  have awoken := not_asleep_signal (s := s) idx.toNat
  have after := kept.signal idx.toNat
  have here : (s.signal idx.toNat).calls call = .signal task_id idx := by
    rw [(signal_fields idx.toNat).1, here]
  revert bound awoken after here
  have called : (s.signal idx.toNat).called = s.called := by
    unfold State.signal
    split <;> rfl
  rw [← called]
  generalize s.signal idx.toNat = t
  intro bound awoken after here
  have calls (other : Nat) : (t.setCall call (.returned task_id)).calls other =
      if other = call then .returned task_id else t.calls other :=
    calls_setCall
  obtain ⟨place, placed⟩ := after.placed
  obtain ⟨early, range, uncalled⟩ := @Kept.recalled t (t.setCall call (.returned task_id)) after
    call _ bound calls rfl rfl (fun _ _ => rfl) False.elim nofun
  refine { after with
    placed := ⟨place, placed.stays (fun other => ⟨rfl, fun p stage => ?_⟩) placed.single
      placed.inLoop⟩
    early := early
    range := range
    uncalled := uncalled
    awake := fun i sleeps waiting => (after.awake i sleeps waiting).imp_left fun signaller => ?_ }
  · cases p with
    | call =>
      refine and_congr_left fun _ => exists_congr fun a => exists_congr fun b => ?_
      rw [calls]
      split_ifs with same
      · rw [same, here]
        exact ⟨nofun, nofun⟩
      · rfl
    | queue i => rfl
    | hand i => rfl
  · obtain ⟨other, a, b, signals, same⟩ := signaller
    refine ⟨other, a, b, ?_, same⟩
    rw [calls, if_neg]
    · exact signals
    · rintro rfl
      rw [here] at signals
      cases signals
      exact awoken (same ▸ sleeps)

/-! ## Tasks in the hands of workers -/

theorem hand_inLoop {task : Nat × Stage} (here : pc.hand = some task) :
    pc.InLoop ∧ pc ≠ .asleep ∧ pc ≠ .boot := by
  refine ⟨⟨?_, ?_⟩, ?_, ?_⟩
  all_goals
    rintro rfl
    cases here

theorem at_called (kept : s.Kept) {p : Place} {stage : Stage}
    (here : s.At call p stage) : call < s.called := by
  obtain ⟨place, placed⟩ := kept.placed
  refine Nat.not_le.mp fun above => ?_
  exact placed.nowhere (.inl (kept.early call (.inr above))) p stage here

theorem Placed.count_zero {place : Nat → Option Place} (placed : s.Placed place) {p : Place}
    {stage : Stage} (here : s.At call p stage) (elsewhere : p ≠ .queue i) :
    (s.workers i).task_queue.count (.submitted call) = 0 := by
  refine count_eq_zero.mpr fun member => elsewhere ?_
  have queued : s.At call (.queue i) .accepted := ⟨member, rfl⟩
  exact (placed.alone here queued).1

/-- A worker moves a task: from its hands or from a queue, to its hands, to its queue, or away. -/
theorem Kept.moves (kept : s.Kept) {workers : Nat → LR_Worker} {journal : List Note}
    {pending : Int} {origin : Place} {stage stage' : Stage} (goal : Option Place)
    (here : s.At call origin stage) (source : origin = .hand w ∨ ∃ v, origin = .queue v)
    (goes : ∀ p, goal = some p → p = .hand w ∨ p = .queue w ∧ stage' = .accepted)
    (out : goal = none → stage' = .freed) (lawful : law.Lawful journal)
    (account : law.account journal = Function.update s.account call stage')
    (queues : ∀ i other, (workers i).task_queue.count (.submitted other) =
      if other = call then if goal = some (.queue i) then 1 else 0
      else (s.workers i).task_queue.count (.submitted other))
    (empty : ∀ i, i ≠ w → (s.workers i).task_queue = [] → (workers i).task_queue = [])
    (pcs : ∀ i, (workers i).pc = if i = w then pc else (s.workers i).pc)
    (running : ∀ i, (workers i).running = (s.workers i).running)
    (bound : w < s.num_workers) (going : (s.workers w).pc ≠ .gone)
    (old : ∀ other stage, (s.workers w).pc.hand = some (other, stage) → other = call)
    (new : pc.hand = if goal = some (.hand w) then some (call, stage') else none)
    (inLoop : pc.InLoop) (awake : pc ≠ .asleep) (count : ∀ t : State, t.called = s.called →
      t.account = Function.update s.account call stage' → pending = t.unfinished.card)
    (waits : ∀ j, s.waits j = .asleep →
      0 < pending ∨ pc.Signals ∨ ∃ i < s.num_workers, i ≠ w ∧ (s.workers i).pc.Signals) :
    Kept { s with workers := workers, journal := journal, tasks_pending := pending } := by
  let t : State := { s with workers := workers, journal := journal, tasks_pending := pending }
  have account : t.account = update s.account call stage' := account
  obtain ⟨place, placed⟩ := kept.placed
  have only (p : Place) (stage : Stage) (there : s.At call p stage) : p = origin :=
    ((placed.alone here there).1).symm
  have member (i other : Nat) : .submitted other ∈ (workers i).task_queue ↔
      if other = call then goal = some (.queue i)
        else .submitted other ∈ (s.workers i).task_queue := by
    rw [← count_pos_iff, queues]
    split
    · split <;> simp only [*, Nat.lt_irrefl, Nat.zero_lt_one]
    · exact count_pos_iff
  have bounded {i : Nat} (above : s.num_workers ≤ i) : i ≠ w :=
    fun same => absurd bound (Nat.not_lt.mpr (same ▸ above))
  refine { kept with
    lawful := lawful
    placed := ⟨_, placed.moves call goal (fun other different => ⟨?_, fun p stage => ?_⟩)
      (fun p stage => ?_) (fun gone => .inr ?_) (fun i other => ?_) fun i other queued => ?_⟩
    early := fun other which => ?_
    pending := count t rfl account
    unborn := fun i above => ?_
    awake := fun i sleeps filled => ?_
    waits := fun j sleeps => ?_
    gone := fun i stopped => ?_
    drains := fun i draining => (running i).trans (kept.drains i draining) }
  · rw [account, update_of_ne different]
  · cases p with
    | call => rfl
    | queue i => exact and_congr_left fun _ => (member i other).trans (by rw [if_neg different])
    | hand i =>
      rw [At, At, pcs]
      split_ifs with same
      · rw [same, new]
        refine iff_of_false ?_ fun there => different (old other stage there)
        split <;> simp [different.symm]
      · rfl
  · rw [account, update_self]
    cases p with
    | call =>
      refine iff_of_false (fun there => ?_) fun there => ?_
      · have same := only .call stage there
        rcases source with rfl | ⟨v, rfl⟩ <;> cases same
      · rcases goes _ there.1 with same | ⟨same, _⟩ <;> cases same
    | queue i =>
      rw [At, member, if_pos rfl]
      refine and_congr_right fun inside => ?_
      rcases goes _ inside with same | ⟨_, accepted⟩
      · cases same
      · rw [accepted]
    | hand i =>
      rw [At, pcs]
      split
      · rename_i same
        rw [new, same]
        split_ifs with held
        · simp only [held, some.injEq, Prod.mk.injEq, true_and]
          exact eq_comm
        · exact iff_of_false nofun fun found => held found.1
      · rename_i different
        refine iff_of_false (fun there => ?_) fun there => ?_
        · have same := only (.hand i) stage there
          rcases source with rfl | ⟨v, rfl⟩ <;> cases same
          exact different rfl
        · rcases goes _ there.1 with same | ⟨same, _⟩ <;> cases same
          exact different rfl
  · rw [account, update_self]
    exact out gone
  · rw [queues]
    split
    · split <;> decide
    · exact placed.single i other
  · rw [member] at queued
    split at queued
    · rcases goes _ queued with same | ⟨same, _⟩ <;> cases same
      exact ⟨bound, by rw [pcs, if_pos rfl]; exact inLoop⟩
    · obtain ⟨below, stays⟩ := placed.inLoop i other queued
      refine ⟨below, ?_⟩
      rw [pcs]
      split
      · exact inLoop
      · exact stays
  · have fresh := kept.early other which
    rw [account, update_of_ne]
    · exact fresh
    · rintro rfl
      exact placed.nowhere (.inl fresh) _ _ here
  · rw [pcs, if_neg (bounded above)]
    exact kept.unborn i above
  · rw [pcs] at sleeps
    split_ifs at sleeps with different
    · exact absurd sleeps awake
    · exact kept.awake i sleeps fun none_there => filled (empty i different none_there)
  · refine (waits j sleeps).imp_right fun which => ?_
    rcases which with own | ⟨i, below, different, signals⟩
    · exact ⟨w, bound, by rw [pcs, if_pos rfl]; exact own⟩
    · exact ⟨i, below, by rw [pcs, if_neg different]; exact signals⟩
  · have ended := kept.gone i ((running i).symm.trans stopped)
    rw [pcs, if_neg]
    · exact ended
    · rintro rfl
      exact going ended

/-- A worker brings the task in its hands to the next stage, and lets go of it when it is freed. -/
theorem Kept.progress (kept : s.Kept) {stage stage' : Stage}
    {pending : Int} (here : (s.workers w).pc.hand = some (call, stage))
    (new : pc.hand = if stage' = .freed then none else some (call, stage'))
    (inLoop : pc.InLoop) (awake : pc ≠ .asleep) (real : stage' ≠ .fresh)
    (next : stage'.before = stage) (count : ∀ t : State, t.called = s.called →
      t.account = Function.update s.account call stage' → pending = t.unfinished.card)
    (waits : ∀ j, s.waits j = .asleep →
      0 < pending ∨ pc.Signals ∨ ∃ i < s.num_workers, i ≠ w ∧ (s.workers i).pc.Signals) :
    Kept { (s.goto w pc).note call stage' with tasks_pending := pending } := by
  have workers (i : Nat) : (s.goto w pc).workers i =
      if i = w then { s.workers w with pc := pc } else s.workers i :=
    workers_setWorker
  have held : s.At call (.hand w) stage := here
  obtain ⟨place, placed⟩ := kept.placed
  refine kept.moves (if stage' = .freed then none else some (.hand w)) held (.inl rfl)
    (fun p found => .inl ?_) (fun gone => ?_)
    (kept.lawful.note ⟨real, (placed.stage held).trans next.symm⟩) (account_note ..)
    (fun i other => ?_) (fun i different => ?_) (fun i => ?_) (fun i => ?_) ?_ ?_
    (fun other stage there => ?_) ?_ inLoop awake count waits
  · exact (some.inj (ite_none_left_eq_some.mp found).2).symm
  · by_contra stays
    rw [if_neg stays] at gone
    cases gone
  · have queue : ((s.goto w pc).workers i).task_queue = (s.workers i).task_queue := by
      rw [workers]
      split_ifs with same
      · rw [same]
      · rfl
    refine (congrArg _ queue).trans ?_
    split
    · rename_i same
      rw [same, placed.count_zero held nofun, if_neg]
      split <;> nofun
    · rfl
  · rw [show ((s.goto w pc).note call stage').workers i = _ from workers i, if_neg different]
    exact id
  · exact (congrArg _ (workers i)).trans (apply_ite LR_Worker.pc ..)
  · refine (congrArg _ (workers i)).trans ?_
    split_ifs with same
    · rw [same]
    · rfl
  · refine Nat.not_le.mp fun above => ?_
    rw [kept.unborn w above] at here
    cases here
  · intro gone
    rw [gone] at here
    cases here
  · rw [here] at there
    cases there
    rfl
  · rw [new]
    split
    · rfl
    · rw [if_pos rfl]

/-- A worker that takes a task has it in its hand. -/
theorem Kept.take (kept : s.Kept) {v : Nat} {rest : List LR_Task}
    (bound : w < s.num_workers) (old : (s.workers w).pc.hand = none)
    (here : (s.workers v).task_queue = .submitted call :: rest)
    (going : (s.workers w).pc ≠ .gone) (new : pc.hand = some (call, .accepted)) :
    ((s.setWorker v { s.workers v with task_queue := rest }).goto w pc).Kept := by
  let t : State := (s.setWorker v { s.workers v with task_queue := rest }).goto w pc
  have workers (i : Nat) : (t.workers i).task_queue =
        (if i = v then rest else (s.workers i).task_queue) ∧
      (t.workers i).pc = (if i = w then pc else (s.workers i).pc) ∧
      (t.workers i).running = (s.workers i).running := by
    simp only [t, State.goto, workers_setWorker]
    by_cases robber : i = w
    · by_cases robbed : i = v
      · simp [← robber, ← robbed]
      · have apart : w ≠ v := robber ▸ robbed
        simp only [robber, if_true, if_neg apart, and_self]
    · by_cases robbed : i = v
      · have apart : v ≠ w := robbed ▸ robber
        simp only [robbed, if_neg apart, if_true, and_self]
      · simp only [if_neg robber, if_neg robbed, and_self]
  obtain ⟨place, placed⟩ := kept.placed
  have queued : s.At call (.queue v) .accepted := by
    refine ⟨?_, rfl⟩
    rw [here]
    exact mem_cons_self
  have stays : s.account = update s.account call .accepted := by
    rw [← placed.stage queued, update_eq_self]
  have once := placed.single v call
  rw [here, count_cons_self] at once
  refine kept.moves (some (.hand w)) queued (.inr ⟨v, rfl⟩) (fun p found => ?_) nofun kept.lawful
    stays (fun i other => ?_) (fun i _ empty => ?_) (fun i => (workers i).2.1)
    (fun i => (workers i).2.2) bound going (fun other stage there => ?_) ?_ (hand_inLoop new).1
    (hand_inLoop new).2.1 (fun t called account => ?_) fun j sleeps => ?_
  · exact .inl (some.inj found).symm
  · refine (congrArg _ (workers i).1).trans ?_
    rw [if_neg (c := some (Place.hand w) = some (.queue i)) nofun]
    split
    · rename_i robbed
      rw [robbed, here]
      split
      · rename_i same
        rw [same]
        omega
      · rename_i different
        exact (count_cons_of_ne fun same => different (LR_Task.submitted.inj same).symm).symm
    · rename_i apart
      split_ifs with same
      · exact same ▸ placed.count_zero queued fun robbed => apart (Place.queue.inj robbed).symm
      · rfl
  · refine (workers i).1.trans ?_
    split_ifs with robbed
    · rw [robbed, here] at empty
      cases empty
    · exact empty
  · rw [old] at there
    cases there
  · rw [new, if_pos rfl]
  · rw [unfinished_same fun other => ?_]
    · exact kept.pending
    · rw [called, account, ← stays]
  · refine (kept.waits j sleeps).imp_right fun signaller => ?_
    obtain ⟨i, below, signals⟩ := signaller
    exact .inr ⟨i, below, by rintro rfl; exact not_signals old signals, signals⟩

theorem Kept.put (kept : s.Kept) (here : (s.workers w).pc = .stolen (.submitted call)) :
    ((s.push w (.submitted call)).goto w .check).Kept := by
  let t : State := (s.push w (.submitted call)).goto w .check
  have workers (i : Nat) : (t.workers i).task_queue = (if i = w
        then (s.workers w).task_queue ++ [.submitted call] else (s.workers i).task_queue) ∧
      (t.workers i).pc = (if i = w then .check else (s.workers i).pc) ∧
      (t.workers i).running = (s.workers i).running := by
    simp only [t, State.goto, State.push, workers_setWorker]
    by_cases same : i = w
    · simp [same]
    · simp only [if_neg same, and_self]
  have bound : w < s.num_workers := by
    refine Nat.not_le.mp fun above => ?_
    rw [kept.unborn w above] at here
    cases here
  obtain ⟨place, placed⟩ := kept.placed
  have held : s.At call (.hand w) .accepted := by
    rw [At, here]
    rfl
  have stays : s.account = update s.account call .accepted := by
    rw [← placed.stage held, update_eq_self]
  have absent (i : Nat) := placed.count_zero (i := i) held nofun
  refine kept.moves (some (.queue w)) held (.inl rfl) (fun p found => ?_) nofun kept.lawful
    stays (fun i other => ?_) (fun i different empty => ?_) (fun i => (workers i).2.1)
    (fun i => (workers i).2.2) bound (by rw [here]; nofun) (fun other stage there => ?_) rfl
    ⟨nofun, nofun⟩ nofun (fun t called account => ?_) fun j sleeps => ?_
  · exact .inr ⟨(some.inj found).symm, rfl⟩
  · refine (congrArg _ (workers i).1).trans ?_
    split
    · rename_i same
      rw [count_put (absent w), same, if_pos rfl]
    · rename_i different
      split
      · rename_i same
        rw [same, absent, if_neg]
        exact fun found => different (Place.queue.inj (some.inj found)).symm
      · rfl
  · exact (workers i).1.trans ((if_neg different).trans empty)
  · rw [here] at there
    cases there
    rfl
  · rw [unfinished_same fun other => ?_]
    · exact kept.pending
    · rw [called, account, ← stays]
  · refine (kept.waits j sleeps).imp_right fun signaller => ?_
    obtain ⟨i, below, signals⟩ := signaller
    exact .inr ⟨i, below, by rintro rfl; rw [here] at signals; exact signals, signals⟩

theorem setWorker_goto {worker : LR_Worker} :
    (s.setWorker w worker).goto w pc = s.setWorker w { worker with pc := pc } := by
  simp [goto, setWorker]

theorem Kept.drained (kept : s.Kept) (left : ¬(s.workers w).pc.InLoop) : s.Drained w := by
  intro task member
  cases task with
  | terminate => rfl
  | submitted call =>
    obtain ⟨place, placed⟩ := kept.placed
    exact absurd (placed.inLoop w call member).2 left

theorem count_terminate_cons {queue rest : List LR_Task} (here : queue = .terminate :: rest)
    (call : Nat) : rest.count (.submitted call) = queue.count (.submitted call) := by
  have other : LR_Task.terminate ≠ .submitted call := nofun
  rw [here, count_cons_of_ne other]

theorem count_terminate_append (queue : List LR_Task) (call : Nat) :
    (queue ++ [LR_Task.terminate]).count (.submitted call) = queue.count (.submitted call) := by
  have none_more : [LR_Task.terminate].count (.submitted call) = 0 :=
    count_eq_zero.mpr (by simp)
  rw [count_append, none_more, Nat.add_zero]

section

variable (kept : s.Kept)
include kept

theorem Kept.alive (here : (s.workers w).pc ≠ .gone) : (s.workers w).running ≠ false :=
  fun stopped => here (kept.gone w stopped)

theorem Kept.pops (bound : w < s.num_workers)
    (here : (s.workers w).pc = .pop) (meets : s.WorkerMeets w .pop)
    (taken : s.worker w = some s') : s'.Kept := by
  have empty : (s.workers w).pc.hand = none := by
    rw [here]
    rfl
  have going : (s.workers w).pc ≠ .gone := by
    rw [here]
    nofun
  simp only [worker, here] at taken
  cases queue : (s.workers w).task_queue with
  | nil =>
    simp only [queue, some.injEq] at taken
    subst taken
    exact kept.goto bound empty going rfl (.inl ⟨nofun, nofun⟩) nofun
  | cons task rest =>
    cases task with
    | terminate =>
      simp only [queue, some.injEq] at taken
      subst taken
      refine kept.setWorker (count_terminate_cons queue) empty.symm
        (kept.waits_setWorker fun signals => absurd signals (not_signals empty))
        (.inr (.inl (meets (by rw [queue]; rfl)))) nofun
        (fun above => absurd bound (Nat.not_lt.mpr above))
        (fun stopped => absurd stopped (kept.alive going)) id
    | submitted call =>
      have member : s.At call (.queue w) .accepted := by
        refine ⟨?_, rfl⟩
        rw [queue]
        exact mem_cons_self
      have proper := kept.types call (at_called kept member)
      simp only [queue, if_neg proper, some.injEq] at taken
      subst taken
      have took : ((s.setWorker w { s.workers w with task_queue := rest }).goto w
          (.execute call)).Kept :=
        kept.take bound empty queue going rfl
      rw [setWorker_goto] at took
      exact took

theorem Kept.robs (bound : w < s.num_workers)
    (here : (s.workers w).pc = .rob i) (taken : s.worker w = some s') : s'.Kept := by
  have empty : (s.workers w).pc.hand = none := by
    rw [here]
    rfl
  have going : (s.workers w).pc ≠ .gone := by
    rw [here]
    nofun
  let v := s.victim_id w i
  simp only [worker, here] at taken
  cases queue : (s.workers v).task_queue with
  | nil =>
    simp only [v] at queue
    simp only [queue, some.injEq] at taken
    subst taken
    exact kept.goto bound empty going rfl (.inl ⟨nofun, nofun⟩) nofun
  | cons task rest =>
    have queue' : (s.workers (s.victim_id w i)).task_queue = task :: rest := queue
    simp only [queue', some.injEq] at taken
    subst taken
    cases task with
    | terminate =>
      let t : State := s.setWorker v { s.workers v with task_queue := rest }
      have pc : (t.workers w).pc = .rob i := by
        refine Eq.trans ?_ here
        simp only [t, workers_setWorker]
        split_ifs with same
        · rw [same]
        · rfl
      have robbed : t.Kept := by
        refine kept.setWorker (count_terminate_cons queue) rfl
          (kept.waits_setWorker id) (.inr (.inr rfl)) (fun asleep _ => ?_)
          (kept.unborn v) (kept.gone v) id
        refine kept.awake v asleep fun none_there => ?_
        rw [queue] at none_there
        cases none_there
      exact robbed.goto bound (by rw [pc]; rfl) (by rw [pc]; nofun) rfl
        (.inl ⟨nofun, nofun⟩) nofun
    | submitted call => exact kept.take bound empty queue going rfl

theorem Kept.decrements
    (here : (s.workers w).pc = .decrement call) (taken : s.worker w = some s') : s'.Kept := by
  have held : s.At call (.hand w) .completed := by
    rw [At, here]
    rfl
  obtain ⟨place, placed⟩ := kept.placed
  have completed := placed.stage held
  have called := at_called kept held
  have pending := kept.pending
  have some_left : 0 < s.unfinished.card := by
    refine Finset.card_pos.mpr ⟨call, ?_⟩
    rw [mem_unfinished, completed]
    exact ⟨called, .inr (.inr rfl)⟩
  have count (t : State) (same : t.called = s.called)
      (account : t.account = update s.account call .finished) :
      s.tasks_pending - 1 = t.unfinished.card := by
    have fewer := card_finished same called account completed
    omega
  have hand : (s.workers w).pc.hand = some (call, .completed) := held
  simp only [worker, here, some.injEq] at taken
  subst taken
  by_cases last : s.tasks_pending - 1 = 0
  · rw [if_pos last]
    exact kept.progress hand rfl ⟨nofun, nofun⟩ nofun nofun rfl count
      fun j _ => .inr (.inl trivial)
  · rw [if_neg last]
    exact kept.progress hand rfl ⟨nofun, nofun⟩ nofun nofun rfl count
      fun j _ => .inl (by omega)

theorem Kept.treats {stage stage' : Stage}
    (here : (s.workers w).pc.hand = some (call, stage)) (quiet : ¬(s.workers w).pc.Signals)
    (new : pc.hand = if stage' = .freed then none else some (call, stage'))
    (inLoop : pc.InLoop) (awake : pc ≠ .asleep) (real : stage' ≠ .fresh)
    (next : stage'.before = stage) (same : stage'.Pending ↔ stage.Pending) :
    ((s.goto w pc).note call stage').Kept := by
  obtain ⟨place, placed⟩ := kept.placed
  have held : s.At call (.hand w) stage := here
  refine kept.progress here new inLoop awake real next (fun t called account => ?_)
    fun j sleeps => (kept.waits j sleeps).imp_right fun signaller => .inr ?_
  · rw [unfinished_moved called account (by rw [placed.stage held, same])]
    exact kept.pending
  · obtain ⟨i, below, signals⟩ := signaller
    exact ⟨i, below, by rintro rfl; exact quiet signals, signals⟩

/-- A step of a worker that meets the condition keeps the invariant. -/
theorem Kept.worker (bound : w < s.num_workers)
    (meets : s.WorkerMeets w (s.workers w).pc) (taken : s.worker w = some s') : s'.Kept := by
  have goes {pc : WorkerAt} (old : (s.workers w).pc.hand = none) (here : (s.workers w).pc ≠ .gone)
      (new : pc.hand = none) (inLoop : pc.InLoop) (awake : pc ≠ .asleep) : (s.goto w pc).Kept :=
    kept.goto bound old here new (.inl inLoop) fun asleep => absurd asleep awake
  cases here : (s.workers w).pc with
  | check =>
    have empty : (s.workers w).pc.hand = none := by rw [here]; rfl
    have going : (s.workers w).pc ≠ .gone := by rw [here]; nofun
    rw [here] at meets
    simp only [State.worker, here] at taken
    split_ifs at taken with stop
    · cases taken
      exact kept.goto bound empty going rfl (.inr (meets stop)) nofun
    · cases taken
      exact goes empty going rfl ⟨nofun, nofun⟩ nofun
  | pop => exact kept.pops bound here (here ▸ meets) taken
  | execute call =>
    simp only [State.worker, here, some.injEq] at taken
    subst taken
    exact kept.treats (by rw [here]; rfl) (by rw [here]; exact id) rfl ⟨nofun, nofun⟩ nofun nofun
      rfl (by decide)
  | complete call =>
    simp only [State.worker, here, some.injEq] at taken
    subst taken
    exact kept.treats (by rw [here]; rfl) (by rw [here]; exact id) rfl ⟨nofun, nofun⟩ nofun nofun
      rfl (by decide)
  | decrement call => exact kept.decrements here taken
  | free call =>
    simp only [State.worker, here, some.injEq] at taken
    subst taken
    exact kept.treats (by rw [here]; rfl) (by rw [here]; exact id) rfl ⟨nofun, nofun⟩ nofun nofun
      rfl (by decide)
  | loadPending =>
    simp only [State.worker, here] at taken
    split at taken <;>
    · cases taken
      exact goes (by rw [here]; rfl) (by rw [here]; nofun) rfl ⟨nofun, nofun⟩ nofun
  | probe i =>
    have probed {pc : WorkerAt} (new : pc.hand = none) (inLoop : pc.InLoop)
        (awake : pc ≠ .asleep) : (s.goto w pc).Kept :=
      goes (by rw [here]; rfl) (by rw [here]; nofun) new inLoop awake
    simp only [State.worker, here] at taken
    split at taken
    · split at taken
      · cases taken
        exact probed rfl ⟨nofun, nofun⟩ nofun
      · split at taken <;>
        · cases taken
          exact probed rfl ⟨nofun, nofun⟩ nofun
    · cases taken
      exact probed rfl ⟨nofun, nofun⟩ nofun
  | rob i => exact kept.robs bound here taken
  | stolen task =>
    simp only [State.worker, here, some.injEq] at taken
    subst taken
    cases task with
    | submitted call => exact kept.put here
    | terminate =>
      have empty : (s.workers w).pc.hand = none := by rw [here]; rfl
      have going : (s.workers w).pc ≠ .gone := by rw [here]; nofun
      rw [State.push, setWorker_goto]
      exact kept.setWorker (count_terminate_append _) empty.symm
        (kept.waits_setWorker fun signals => absurd signals (not_signals empty))
        (.inl ⟨nofun, nofun⟩) nofun (fun above => absurd bound (Nat.not_lt.mpr above))
        (fun stopped => absurd stopped (kept.alive going)) id
  | lock =>
    simp only [State.worker, here] at taken
    split at taken <;>
    · cases taken
      exact goes (by rw [here]; rfl) (by rw [here]; nofun) rfl ⟨nofun, nofun⟩ nofun
  | testQueue =>
    have empty : (s.workers w).pc.hand = none := by rw [here]; rfl
    have going : (s.workers w).pc ≠ .gone := by rw [here]; nofun
    simp only [State.worker, here] at taken
    split at taken
    · rename_i none_there
      cases taken
      exact kept.goto bound empty going rfl (.inl ⟨nofun, nofun⟩) fun _ => none_there
    · cases taken
      exact goes empty going rfl ⟨nofun, nofun⟩ nofun
  | leave =>
    have left : ¬(s.workers w).pc.InLoop := fun inLoop => inLoop.1 here
    have empty : (s.workers w).pc.hand = none := by rw [here]; rfl
    simp only [State.worker, here, some.injEq] at taken
    subst taken
    exact kept.setWorker (fun _ => rfl) empty.symm
      (kept.waits_setWorker fun signals => absurd signals (not_signals empty))
      (.inr (.inl (kept.drained left))) nofun
      (fun above => absurd bound (Nat.not_lt.mpr above)) (fun _ => rfl) fun _ => rfl
  | boot | signalDone | asleep | gone =>
    simp [State.worker, here] at taken

theorem Kept.boots (bound : w < s.num_workers)
    (here : (s.workers w).pc = .boot) {succeeds : Bool} (meets : succeeds = true ∨ s.Drained w) :
    (if succeeds = true then s.goto w .check
      else s.setWorker w { s.workers w with running := false, pc := .gone }).Kept := by
  have empty : (s.workers w).pc.hand = none := by
    rw [here]
    rfl
  split_ifs with fails
  · exact kept.goto bound empty (by rw [here]; nofun) rfl (.inl ⟨nofun, nofun⟩) nofun
  · exact kept.setWorker (fun _ => rfl) empty.symm
      (kept.waits_setWorker fun signals => absurd signals (not_signals empty))
      (.inr (.inl (meets.resolve_left fails))) nofun
      (fun above => absurd bound (Nat.not_lt.mpr above)) (fun _ => rfl) fun _ => rfl

/-! ## Submissions go on -/

/-- A step of a submission that meets the condition keeps the invariant. -/
theorem Kept.submission (meets : s.CallMeets (s.calls call))
    (taken : s.submission call = some s') : s'.Kept := by
  cases here : s.calls call with
  | running target =>
    have early : (s.calls call).Early := by rw [here]; trivial
    simp only [State.submission, here] at taken
    split at taken
    · cases target with
      | none =>
        cases taken
        exact kept.setCall early (.inl trivial) nofun
      | some worker_id =>
        simp only at taken
        split_ifs at taken with proper
        · cases taken
          exact kept.setCall early (.inr trivial) nofun
        · cases taken
          refine kept.setCall early (.inl trivial) fun idx is_idx => ?_
          cases is_idx
          exact ⟨Int.not_lt.mp (not_or.mp proper).1, Int.not_le.mp (not_or.mp proper).2⟩
    · cases taken
      exact kept.setCall early (.inr trivial) nofun
  | taskId target =>
    have early : (s.calls call).Early := by rw [here]; trivial
    simp only [State.submission, here, some.injEq] at taken
    subst taken
    cases target with
    | none => exact kept.setCall early (.inl trivial) nofun
    | some worker_id =>
      refine kept.setCall early (.inl trivial) fun idx is_idx => ?_
      cases is_idx
      exact kept.range call worker_id (by rw [here]; rfl)
  | roundRobin task_id =>
    have early : (s.calls call).Early := by rw [here]; trivial
    rw [here] at meets
    simp only [State.submission, here, some.injEq] at taken
    subst taken
    refine kept.setCall early (.inl trivial) fun idx is_idx => ?_
    cases is_idx
    exact meets
  | count task_id idx =>
    simp only [State.submission, here, some.injEq] at taken
    subst taken
    exact kept.count here
  | push task_id idx =>
    rw [here] at meets
    simp only [State.submission, here] at taken
    obtain ⟨_, taken⟩ := ite_none_right_eq_some.mp taken
    cases taken
    exact kept.pushes here meets
  | signal task_id idx =>
    simp only [State.submission, here] at taken
    obtain ⟨_, taken⟩ := ite_none_left_eq_some.mp taken
    cases taken
    exact kept.signals here
  | returned answer => simp [State.submission, here] at taken

/-! ## Destruction -/

theorem Kept.destroys {running freed : Bool} {destroyer : Destroyer}
    (awake : ∀ i, s.destroyer = .signal i → (s.workers i).pc ≠ .asleep)
    (drains : ∀ i, destroyer = .drain i → (s.workers i).running = false) :
    Kept { s with running := running, freed := freed, destroyer := destroyer } := by
  obtain ⟨place, placed⟩ := kept.placed
  exact { kept with
    placed := ⟨place, placed.stays (fun _ => ⟨rfl, fun p stage => by cases p <;> rfl⟩)
      placed.single placed.inLoop⟩
    awake := fun i sleeps waiting => .inl
      ((kept.awake i sleeps waiting).resolve_right fun here => awake i here sleeps)
    drains := drains }

/-- A step of the destruction keeps the invariant. -/
theorem Kept.destruction {calloc_fails : Bool}
    (taken : s.destruction calloc_fails = some s') : s'.Kept := by
  cases here : s.destroyer with
  | idle | done => simp [State.destruction, here] at taken
  | mark i =>
    have other (i : Nat) (signals : s.destroyer = .signal i) : (s.workers i).pc ≠ .asleep := by
      rw [here] at signals
      cases signals
    simp only [State.destruction, here] at taken
    split at taken
    · split at taken
      · cases taken
        have marked : (s.setWorker i { s.workers i with should_stop := true }).Kept :=
          kept.setWorker (fun _ => rfl) rfl (kept.waits_setWorker id) (.inr (.inr rfl))
            (kept.awake i) (kept.unborn i) (kept.gone i) id
        refine marked.destroys (fun j signals => ?_) nofun
        have signals : s.destroyer = .signal j := signals
        rw [here] at signals
        cases signals
      · cases taken
        exact kept.destroys other nofun
    · cases taken
      exact kept.destroys other nofun
  | push i =>
    have signals : Kept { s with destroyer := .signal i } := by
      refine kept.destroys (fun j signals => ?_) nofun
      rw [here] at signals
      cases signals
    simp only [State.destruction, here] at taken
    split at taken
    · cases taken
      exact signals
    · cases taken
      exact signals.setWorker (count_terminate_append _) rfl (signals.waits_setWorker id)
        (.inr (.inr rfl)) (fun _ _ => .inr rfl) (kept.unborn i) (kept.gone i) id
  | signal i =>
    simp only [State.destruction, here] at taken
    obtain ⟨_, taken⟩ := ite_none_left_eq_some.mp taken
    cases taken
    refine (kept.signal i).destroys (fun j signals => ?_) nofun
    rw [(signal_fields i).2.1, here] at signals
    cases signals
    exact not_asleep_signal i
  | join i =>
    have other (i : Nat) (signals : s.destroyer = .signal i) : (s.workers i).pc ≠ .asleep := by
      rw [here] at signals
      cases signals
    simp only [State.destruction, here] at taken
    split at taken
    · obtain ⟨stopped, taken⟩ := ite_none_left_eq_some.mp taken
      cases taken
      refine kept.destroys other fun j drains => ?_
      cases drains
      exact Bool.eq_false_iff.mpr stopped
    · cases taken
      exact kept.destroys other nofun
  | drain i =>
    have stopped := kept.drains i here
    have left := kept.gone i stopped
    have asleep {P : Prop} (sleeps : (s.workers i).pc = .asleep) : P := by
      rw [left] at sleeps
      cases sleeps
    simp only [State.destruction, here] at taken
    cases queue : (s.workers i).task_queue with
    | nil =>
      simp only [queue, some.injEq] at taken
      subst taken
      have freed : (s.setWorker i ⟨[], (s.workers i).running, (s.workers i).should_stop, true,
          (s.workers i).pc⟩).Kept :=
        kept.setWorker (fun _ => by rw [queue]) rfl (kept.waits_setWorker id) (.inr (.inr rfl))
          (fun sleeps _ => asleep sleeps) (kept.unborn i) (kept.gone i) id
      refine freed.destroys (fun j signals => ?_) nofun
      have signals : s.destroyer = .signal j := signals
      rw [here] at signals
      cases signals
    | cons task rest =>
      cases task with
      | terminate =>
        simp only [queue, some.injEq] at taken
        subst taken
        exact kept.setWorker (count_terminate_cons queue) rfl (kept.waits_setWorker id)
          (.inr (.inr rfl)) (fun sleeps _ => asleep sleeps) (kept.unborn i) (kept.gone i) id
      | submitted call =>
        have drained := kept.drained (w := i) (by rw [left]; exact fun inLoop => inLoop.2 rfl)
        have member : LR_Task.submitted call ∈ (s.workers i).task_queue := by
          rw [queue]
          exact mem_cons_self
        cases drained _ member
  | freePool =>
    simp only [State.destruction, here, some.injEq] at taken
    subst taken
    refine kept.destroys (fun j signals => ?_) nofun
    rw [here] at signals
    cases signals

/-! ## Waits -/

theorem Kept.setWait {j : Nat} {wait : Wait} (bound : j < s.waiting)
    (awake : wait = .asleep → 0 < s.tasks_pending) :
    Kept { s with waits := update s.waits j wait } := by
  obtain ⟨place, placed⟩ := kept.placed
  refine { kept with
    placed := ⟨place, placed.stays (fun _ => ⟨rfl, fun p stage => by cases p <;> rfl⟩)
      placed.single placed.inLoop⟩
    waits := fun k sleeps => ?_
    unwaited := fun k above => ?_ }
  · change update s.waits j wait k = .asleep at sleeps
    rw [update_apply] at sleeps
    split at sleeps
    · exact .inl (awake sleeps)
    · exact kept.waits k sleeps
  · change update s.waits j wait k = .returned
    rw [update_of_ne (by rintro rfl; exact absurd bound (Nat.not_lt.mpr above))]
    exact kept.unwaited k above

theorem waiting_of {j : Nat} (going : s.waits j ≠ .returned) : j < s.waiting :=
  Nat.not_le.mp fun above => going (kept.unwaited j above)

theorem Kept.none_pending (few : s.tasks_pending ≤ 0) (call : Nat) : ¬(s.account call).Pending := by
  intro pending
  have called : call < s.called := by
    refine Nat.not_le.mp fun above => ?_
    rw [kept.early call (.inr above)] at pending
    exact absurd pending (by decide)
  have some_left : 0 < s.unfinished.card :=
    Finset.card_pos.mpr ⟨call, mem_unfinished.mpr ⟨called, pending⟩⟩
  have count := kept.pending
  omega

theorem Kept.waited {j : Nat} (bound : j < s.waiting) (few : s.tasks_pending ≤ 0) :
    Kept { s with
      waits := update s.waits j .returned
      journal := s.journal ++ [.waited] } := by
  have account : law.account (s.journal ++ [.waited]) = s.account := law.account_note ..
  have after : Kept { s with waits := update s.waits j .returned } :=
    kept.setWait bound nofun
  obtain ⟨place, placed⟩ := kept.placed
  let t : State :=
    { s with waits := update s.waits j .returned, journal := s.journal ++ [.waited] }
  have same : t.account = s.account := account
  exact { after with
    lawful := kept.lawful.note (kept.none_pending few)
    placed := ⟨place, placed.stays
      (fun call => ⟨congrFun same call, fun p stage => by cases p <;> rfl⟩) placed.single
      placed.inLoop⟩
    early := fun call which => (congrFun same call).trans (kept.early call which)
    pending := kept.pending.trans (by
      rw [show t.unfinished = s.unfinished from unfinished_same fun call => by rw [same]]) }

theorem Kept.waits_all :
    Kept { s with
      waits := update s.waits s.waiting .check
      waiting := s.waiting + 1 } := by
  obtain ⟨place, placed⟩ := kept.placed
  refine { kept with
    placed := ⟨place, placed.stays (fun _ => ⟨rfl, fun p stage => by cases p <;> rfl⟩)
      placed.single placed.inLoop⟩
    waits := fun k sleeps => ?_
    unwaited := fun k above => ?_ }
  · change update s.waits s.waiting .check k = .asleep at sleeps
    rw [update_apply] at sleeps
    split at sleeps
    · cases sleeps
    · exact kept.waits k sleeps
  · change update s.waits s.waiting .check k = .returned
    rw [update_of_ne (Nat.ne_of_gt above)]
    exact kept.unwaited k (Nat.le_of_succ_le above)

theorem Kept.signalsDone (here : (s.workers w).pc = .signalDone call)
    (others : ∀ j, s.waits j = .asleep → 0 < s.tasks_pending ∨
      ∃ i < s.num_workers, i ≠ w ∧ (s.workers i).pc.Signals) : (s.goto w (.free call)).Kept := by
  refine kept.setWorker (fun _ => rfl) ?_ (fun j sleeps => (others j sleeps).imp_right ?_)
    (.inl ⟨nofun, nofun⟩) nofun (fun above => ?_) (fun stopped => ?_) id
  · rw [here]
    rfl
  · rintro ⟨i, below, different, signals⟩
    refine ⟨i, below, ?_⟩
    rw [workers_setWorker, if_neg different]
    exact signals
  · rw [kept.unborn w above] at here
    cases here
  · rw [kept.gone w stopped] at here
    cases here

theorem Kept.wakes {woken : Option Nat}
    (here : (s.workers w).pc = .signalDone call) (meets : s.Meets (.signalDone w woken))
    (going : s.freed = false) (taken : s.step (.signalDone w woken) = some s') : s'.Kept := by
  have others (j j' : Nat) (sleeps : s.waits j = .asleep) (sleeps' : s.waits j' = .asleep)
      (different : j' ≠ j) : 0 < s.tasks_pending ∨
        ∃ i < s.num_workers, i ≠ w ∧ (s.workers i).pc.Signals := by
    refine meets.resolve_left fun one => different ?_
    exact one j' (waiting_of kept (by rw [sleeps']; nofun)) j
      (waiting_of kept (by rw [sleeps]; nofun)) sleeps' sleeps
  cases woken with
  | none =>
    simp only [step, going, here, Bool.false_eq_true, if_false] at taken
    obtain ⟨none_asleep, taken⟩ := ite_none_left_eq_some.mp taken
    cases taken
    refine kept.signalsDone here fun j sleeps => absurd ⟨j, ?_, sleeps⟩ none_asleep
    exact waiting_of kept (by rw [sleeps]; nofun)
  | some j =>
    simp only [step, going, here, Bool.false_eq_true, if_false] at taken
    obtain ⟨sleeps, taken⟩ := ite_none_right_eq_some.mp taken
    cases taken
    have bound : j < s.waiting := waiting_of kept (by rw [sleeps]; nofun)
    have awoken : Kept { s with waits := update s.waits j .check } :=
      kept.setWait bound nofun
    refine awoken.signalsDone here fun j' sleeps' => ?_
    change update s.waits j .check j' = .asleep at sleeps'
    rw [update_apply] at sleeps'
    split at sleeps'
    · cases sleeps'
    · rename_i different
      exact others j j' sleeps sleeps' different

/-! ## Runs -/

/-- Every step that meets the condition keeps the invariant. -/
theorem Kept.step {event : Event} (meets : s.Meets event)
    (taken : s.step event = some s') : s'.Kept := by
  have all := taken
  obtain ⟨going, taken⟩ := ite_none_left_eq_some.mp taken
  have going : s.freed = false := Bool.eq_false_iff.mpr going
  cases event with
  | submit type target =>
    cases taken
    exact kept.submit target meets
  | call call => exact kept.submission meets taken
  | boot i succeeds =>
    obtain ⟨⟨bound, here⟩, taken⟩ := ite_none_right_eq_some.mp taken
    have booted := kept.boots bound here meets
    split at taken <;>
    · rename_i which
      cases taken
      first | rw [if_pos which] at booted | rw [if_neg which] at booted
      exact booted
  | worker i =>
    obtain ⟨bound, taken⟩ := ite_none_right_eq_some.mp taken
    exact kept.worker bound meets taken
  | signalDone i woken =>
    cases here : (s.workers i).pc with
    | signalDone call => exact kept.wakes here meets going all
    | boot | check | pop | execute | complete | decrement | free | loadPending | probe | rob
    | stolen | lock | testQueue | asleep | leave | gone =>
      simp [here] at taken
  | wake i =>
    obtain ⟨asleep, taken⟩ := ite_none_right_eq_some.mp taken
    cases taken
    have awoken := kept.signal i
    rw [State.signal, if_pos asleep] at awoken
    exact awoken
  | wait_all =>
    cases taken
    exact kept.waits_all
  | wait j =>
    obtain ⟨checks, taken⟩ := ite_none_right_eq_some.mp taken
    have bound : j < s.waiting := waiting_of kept (by rw [checks]; nofun)
    split_ifs at taken with pending
    · cases taken
      exact kept.setWait bound fun _ => pending
    · cases taken
      exact kept.waited bound (Int.not_lt.mp pending)
  | wakeWait j =>
    obtain ⟨sleeps, taken⟩ := ite_none_right_eq_some.mp taken
    cases taken
    exact kept.setWait (waiting_of kept (by rw [sleeps]; nofun)) nofun
  | destroy =>
    obtain ⟨idle, taken⟩ := ite_none_right_eq_some.mp taken
    cases taken
    refine kept.destroys (fun i signals => ?_) nofun
    rw [idle] at signals
    cases signals
  | destroyer calloc_fails => exact kept.destruction taken

end

theorem kept_start (num_workers : Int) : (start num_workers).Kept where
  lawful := law.lawful_nil
  placed := by
    refine ⟨fun _ => none, ⟨fun call p stage => ⟨fun here => ?_, nofun⟩, fun _ _ => Nat.zero_le _,
      fun _ _ => .inl rfl, nofun⟩⟩
    cases p with
    | call =>
      obtain ⟨⟨_, _, here⟩, _⟩ := here
      cases here
    | queue i => cases here.1
    | hand i => cases here
  early _ _ := rfl
  range := nofun
  uncalled _ _ := trivial
  types := nofun
  pending := rfl
  unborn _ _ := rfl
  awake := nofun
  waits := nofun
  unwaited _ _ := rfl
  gone := nofun
  drains := nofun

theorem Kept.losesNone (kept : s.Kept) (pending : (s.account call).Pending) :
    (∃ task_id idx, s.calls call = .push task_id idx) ∨
      ∃ i < s.num_workers, (s.workers i).pc.InLoop ∧
        (.submitted call ∈ (s.workers i).task_queue ∨
          ∃ stage, (s.workers i).pc.hand = some (call, stage)) := by
  obtain ⟨place, placed⟩ := kept.placed
  cases here : place call with
  | none =>
    cases placed.out call here with
    | inl fresh =>
      rw [fresh] at pending
      exact absurd pending (by decide)
    | inr freed =>
      rw [freed] at pending
      exact absurd pending (by decide)
  | some p =>
    have located := (placed.located call p (s.account call)).mpr ⟨here, rfl⟩
    cases p with
    | call => exact .inl located.1
    | queue i =>
      obtain ⟨bound, going⟩ := placed.inLoop i call located.1
      exact .inr ⟨i, bound, going, .inl located.1⟩
    | hand i =>
      have held : (s.workers i).pc.hand = some (call, s.account call) := located
      refine .inr ⟨i, ?_, (hand_inLoop held).1, .inr ⟨_, held⟩⟩
      refine Nat.not_le.mp fun above => ?_
      exact (hand_inLoop held).2.2 (kept.unborn i above)

theorem Kept.settles (kept : s.Kept) (quiet : s.Quiet) (call : Nat) :
    ¬(s.account call).Pending := by
  obtain ⟨workers, calls, _, destroyer⟩ := quiet
  intro pending
  rcases kept.losesNone pending with ⟨task_id, idx, pushing⟩ | ⟨i, bound, going, has⟩
  · have returned := calls call
    rw [pushing] at returned
    exact returned
  · cases workers i bound with
    | inl asleep =>
      cases has with
      | inl queued =>
        cases kept.awake i asleep (ne_nil_of_mem queued) with
        | inl signaller =>
          obtain ⟨other, task_id, idx, signals, _⟩ := signaller
          have returned := calls other
          rw [signals] at returned
          exact returned
        | inr signals => exact destroyer i signals
      | inr held =>
        obtain ⟨stage, held⟩ := held
        rw [asleep] at held
        cases held
    | inr gone => exact going.2 gone

theorem Kept.correct (kept : s.Kept) : s.Correct where
  pending := kept.pending
  range call task_id idx pushing := kept.range call idx (by rw [pushing]; rfl)
  losesNone call pending := kept.losesNone pending
  awake i _ asleep waiting := kept.awake i asleep waiting
  waits := kept.waits
  settles quiet := by
    refine ⟨kept.settles quiet, fun j sleeps => ?_⟩
    have none_left : s.unfinished = ∅ :=
      Finset.filter_eq_empty_iff.mpr fun call _ => kept.settles quiet call
    cases kept.waits j sleeps with
    | inl pending =>
      rw [kept.pending, none_left] at pending
      cases pending
    | inr signaller =>
      obtain ⟨i, bound, signals⟩ := signaller
      cases quiet.1 i bound with
      | inl asleep =>
        rw [asleep] at signals
        exact signals
      | inr gone =>
        rw [gone] at signals
        exact signals

/-- In every run whose steps meet the condition, each task goes through its stages once and in
order, and waiting ends only when all accepted tasks are finished. -/
theorem pool_executes_once {num_workers : Int} {events : List Event} {s : State}
    (met : Runs.Throughout State.step Meets (start num_workers) events)
    (arrives : Runs.after State.step (start num_workers) events = some s) :
    law.Lawful s.journal ∧ s.Correct := by
  have kept : s.Kept := Runs.Throughout.invariant_after
    (fun _ _ _ kept meets taken => kept.step meets taken) (kept_start num_workers) met arrives
  exact ⟨kept.lawful, kept.correct⟩

/-- A task is stolen by a neighbour and waited for, and the pool is destroyed. -/
theorem pool_executes_once_sample :
    let events : List Event :=
      [.boot 0 true, .boot 1 true, .submit .LR_TASK_CALLBACK none, .call 0, .call 0, .call 0,
        .call 0, .call 0, .wait_all, .wait 0, .worker 1, .worker 1, .worker 1, .worker 1,
        .worker 1, .worker 1, .worker 1, .call 0, .worker 1, .worker 1, .worker 1, .worker 1,
        .worker 1, .signalDone 1 (some 0), .wait 0, .worker 1, .worker 0, .worker 0, .worker 0,
        .worker 0, .worker 0, .destroy, .destroyer false, .destroyer false, .destroyer false,
        .destroyer false, .destroyer true, .destroyer false, .destroyer false, .worker 0,
        .worker 0, .worker 1, .worker 1, .destroyer false, .destroyer false, .destroyer false,
        .destroyer false, .destroyer false, .destroyer false, .destroyer false]
    ∃ s, Runs.after step (start 2) events = some s ∧ law.Lawful s.journal ∧ s.Correct := by
  intro events
  have met : Runs.Throughout step Meets (start 2) events := by
    decide +kernel
  obtain ⟨s, arrives⟩ : ∃ s, Runs.after step (start 2) events = some s :=
    isSome_iff_exists.mp (by decide +kernel)
  exact ⟨s, arrives, pool_executes_once met arrives⟩

/-- Of two waits that sleep until the last task is finished, one sleeps for ever. -/
theorem second_wait_sleeps :
    ∃ s, Runs.after State.step (start 1)
        [.boot 0 true, .submit .LR_TASK_EVAL none, .call 0, .call 0, .call 0, .call 0, .call 0,
          .call 0, .wait_all, .wait_all, .wait 0, .wait 1, .worker 0, .worker 0, .worker 0,
          .worker 0, .worker 0, .signalDone 0 (some 0), .wait 0, .worker 0] = some s ∧
      ¬s.Correct := by
  refine ⟨_, rfl, fun correct => ?_⟩
  cases correct.waits 1 rfl with
  | inl pending => exact absurd pending (by decide)
  | inr signaller =>
    obtain ⟨i, bound, signals⟩ := signaller
    have first : i = 0 := Nat.lt_one_iff.mp bound
    subst first
    exact signals

end State

end LRJS.ThreadPool
