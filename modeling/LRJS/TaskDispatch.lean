import LRJS.Scheduler

/-!
# Which tasks the scheduler dispatches

The list stays in the order of the times, and each task of it is booked in the
account that an observer keeps.  As long as no task is put directly in front of
one that is about to be removed, no task is lost, and each call dispatches what
is due.
-/

namespace LRJS.Scheduling

open List Option LR_Scheduler LR_SchedTask

def ByTime (tasks : List LR_SchedTask) : Prop :=
  tasks.Pairwise fun st st' => st.next_run_us ≤ st'.next_run_us

theorem perm_insert_task (tasks : List LR_SchedTask) (st : LR_SchedTask) :
    (lr_scheduler_insert_task tasks st).Perm (st :: tasks) :=
  perm_orderedInsert _ _ _

variable {tasks : List LR_SchedTask} {st : LR_SchedTask}

theorem mem_insert_task {other : LR_SchedTask} :
    other ∈ lr_scheduler_insert_task tasks st ↔ other = st ∨ other ∈ tasks := by
  rw [(perm_insert_task tasks st).mem_iff, mem_cons]

theorem insert_task_cons (head : LR_SchedTask) (tail : List LR_SchedTask) (st : LR_SchedTask) :
    lr_scheduler_insert_task (head :: tail) st =
      if st.next_run_us < head.next_run_us then st :: head :: tail
      else head :: lr_scheduler_insert_task tail st :=
  rfl

theorem ByTime.insert_task (sorted : ByTime tasks)
    (st : LR_SchedTask) : ByTime (lr_scheduler_insert_task tasks st) := by
  induction tasks with
  | nil => exact pairwise_singleton _ _
  | cons head tail ih =>
    obtain ⟨first, later⟩ := pairwise_cons.mp sorted
    rw [insert_task_cons]
    split_ifs with before
    · refine pairwise_cons.mpr ⟨fun other member => ?_, sorted⟩
      cases mem_cons.mp member with
      | inl same => rw [same]; exact before.le
      | inr inTail => exact before.le.trans (first other inTail)
    · refine pairwise_cons.mpr ⟨fun other member => ?_, ih later⟩
      cases mem_insert_task.mp member with
      | inl same => rw [same]; exact Int.not_lt.mp before
      | inr inTail => exact first other inTail

theorem insert_task_append_left {front : List LR_SchedTask}
    (later : ∃ st' ∈ front, st.next_run_us < st'.next_run_us) :
    lr_scheduler_insert_task (front ++ tasks) st = lr_scheduler_insert_task front st ++ tasks := by
  induction front with
  | nil => simp at later
  | cons head tail ih =>
    rw [cons_append, insert_task_cons, insert_task_cons]
    split_ifs with notBefore
    · rfl
    · obtain ⟨st', member, before⟩ := later
      have inTail : st' ∈ tail := by
        cases mem_cons.mp member with
        | inl same => exact absurd (same ▸ before) notBefore
        | inr inTail => exact inTail
      rw [ih ⟨st', inTail, before⟩, cons_append]

theorem insert_task_append_right {front : List LR_SchedTask}
    (earlier : ¬∃ st' ∈ front, st.next_run_us < st'.next_run_us) :
    lr_scheduler_insert_task (front ++ tasks) st = front ++ lr_scheduler_insert_task tasks st := by
  induction front with
  | nil => rfl
  | cons head tail ih =>
    rw [cons_append, insert_task_cons, if_neg fun before =>
      earlier ⟨head, mem_cons_self, before⟩, cons_append,
      ih fun ⟨st', member, before⟩ =>
        earlier ⟨st', mem_cons_of_mem _ member, before⟩]

/-- Where a task gets its place in the middle of the loop: before `prev`, directly before the
cursor, or behind the cursor. -/
theorem reinsert_cases (sched : LR_Scheduler) (st : LR_SchedTask) :
    (sched.reinsert st = { sched with kept := lr_scheduler_insert_task sched.kept st } ∧
        ∃ st' ∈ sched.kept, st.next_run_us < st'.next_run_us) ∨
      (sched.reinsert st = { sched with between := [st] } ∧
        (¬∃ st' ∈ sched.kept, st.next_run_us < st'.next_run_us) ∧
        ∀ next ∈ sched.rest.head?, st.next_run_us < next.next_run_us) ∨
      (sched.reinsert st = { sched with rest := lr_scheduler_insert_task sched.rest st } ∧
        (¬∃ st' ∈ sched.kept, st.next_run_us < st'.next_run_us) ∧
        ∃ next ∈ sched.rest.head?, ¬st.next_run_us < next.next_run_us) := by
  unfold reinsert
  split_ifs with later
  · exact .inl ⟨rfl, later⟩
  · cases sched.rest with
    | nil => exact .inr (.inl ⟨rfl, later, by simp⟩)
    | cons next rest =>
      simp only [head?_cons, mem_some_iff]
      split_ifs with before
      · exact .inr (.inl ⟨rfl, later, fun _ same => same ▸ before⟩)
      · exact .inr (.inr ⟨rfl, later, next, rfl, before⟩)

theorem task_head_reinsert {sched : LR_Scheduler} (nothing : sched.between = [])
    (st : LR_SchedTask) :
    (sched.reinsert st).task_head = lr_scheduler_insert_task sched.task_head st := by
  have whole : sched.task_head = sched.kept ++ sched.rest := by
    rw [task_head, nothing, append_nil]
  rcases reinsert_cases sched st with ⟨same, later⟩ | ⟨same, earlier, first⟩ |
    ⟨same, earlier, _⟩
  · rw [same, whole, insert_task_append_left later, task_head, nothing, append_nil]
  · have front : lr_scheduler_insert_task sched.rest st = st :: sched.rest := by
      cases rest : sched.rest with
      | nil => rfl
      | cons next tail =>
        rw [insert_task_cons, if_pos (first next (by rw [rest]; rfl))]
    rw [same, whole, insert_task_append_right earlier, front, task_head, append_assoc]
    rfl
  · rw [same, whole, insert_task_append_right earlier, task_head, nothing, append_nil]

/-! ## Turns -/

theorem turn_cases (sched : LR_Scheduler) (now : Int) :
    (sched.rest = [] ∧ sched.turn now =
        ({ sched with kept := [], between := [], rest := sched.task_head, now := none },
          .unlock)) ∨
      ∃ st rest, sched.rest = st :: rest ∧
        (st.cancelled = true ∧ sched.turn now = (sched.unlink rest, .free st) ∨
          st.Due now ∧ st.ran.Rearms ∧
            sched.turn now = ((sched.unlink rest).reinsert (st.rearmed now), .submit st) ∨
          st.Due now ∧ ¬st.ran.Rearms ∧ sched.turn now = (sched.unlink rest, .submit st) ∨
          (st.cancelled = false ∧ now < st.next_run_us) ∧ sched.turn now =
            ({ sched with
                kept := sched.kept ++ sched.between ++ [st], between := [], rest := rest },
              .skip)) := by
  unfold turn
  cases sched.rest with
  | nil => exact .inl ⟨rfl, rfl⟩
  | cons st rest =>
    refine .inr ⟨st, rest, rfl, ?_⟩
    by_cases cancelled : st.cancelled = true
    · exact .inl ⟨cancelled, if_pos cancelled⟩
    · have live : st.cancelled = false := Bool.eq_false_iff.mpr cancelled
      by_cases due : st.next_run_us ≤ now
      · by_cases rearms : st.ran.Rearms
        · exact .inr (.inl ⟨⟨live, due⟩, rearms, by simp only [live, due, rearms]; rfl⟩)
        · exact .inr (.inr (.inl ⟨⟨live, due⟩, rearms, by simp only [live, due, rearms]; rfl⟩))
      · exact .inr (.inr (.inr ⟨⟨live, Int.not_le.mp due⟩, by simp only [live, due]; rfl⟩))

variable {now : Int}

theorem spins_rearmed (due : st.Due now)
    (fits : State.Fits (now + st.interval_us)) : (st.rearmed now).Spins now ↔ st.Spins now := by
  have time : (st.rearmed now).next_run_us = now + st.interval_us := fits
  have same : (st.rearmed now).cancelled = false := due.1
  constructor
  · intro ⟨_, type, count, interval⟩
    exact ⟨due, type, count, interval⟩
  · intro ⟨_, type, count, interval⟩
    exact ⟨⟨same, by omega⟩, type, count, interval⟩

def LR_SchedTask.weight (now : Int) (st : LR_SchedTask) : Nat :=
  if st.Due now then
    if st.type = .repeat ∧ st.repeat_count < 0 then if 0 < st.interval_us then 2 else 0
    else (st.repeat_count - st.run_count).toNat + 1
  else 1

def work (now : Int) (rest : List LR_SchedTask) : Nat :=
  2 * (rest.map (LR_SchedTask.weight now)).sum + if ∃ st ∈ rest.head?, st.Spins now then 1 else 0

theorem weight_spins (spins : st.Spins now) : st.weight now = 0 := by
  obtain ⟨due, type, count, interval⟩ := spins
  rw [weight, if_pos due, if_pos ⟨type, count⟩, if_neg (Int.not_lt.mpr interval)]

theorem weight_pos (settles : ¬st.Spins now) : 0 < st.weight now := by
  unfold weight
  split
  · rename_i due
    split
    · rename_i endless
      have long : 0 < st.interval_us := by
        by_contra short
        exact settles ⟨due, endless.1, endless.2, Int.not_lt.mp short⟩
      rw [if_pos long]
      exact Nat.two_pos
    · exact Nat.succ_pos _
  · exact Nat.one_pos

theorem weight_rearmed (due : st.Due now) (rearms : st.ran.Rearms)
    (fits : State.Fits (now + st.interval_us)) (settles : ¬st.Spins now) :
    (st.rearmed now).weight now < st.weight now := by
  have time : (st.rearmed now).next_run_us = now + st.interval_us := fits
  have type : st.type = .repeat := rearms.1
  by_cases endless : st.repeat_count < 0
  · have long : 0 < st.interval_us := by
      by_contra short
      exact settles ⟨due, type, endless, Int.not_lt.mp short⟩
    have later : ¬(st.rearmed now).Due now := fun again => by
      have := again.2
      omega
    rw [weight, if_neg later, weight, if_pos due,
      if_pos ⟨type, endless⟩, if_pos long]
    exact Nat.one_lt_two
  · have runs : ((st.run_count + 1 : Nat) : Int) < st.repeat_count :=
      rearms.2.resolve_left endless
    have here : st.weight now = (st.repeat_count - st.run_count).toNat + 1 := by
      rw [weight, if_pos due, if_neg fun both => endless both.2]
    have after : (st.rearmed now).weight now ≤
        (st.repeat_count - (st.run_count + 1)).toNat + 1 := by
      unfold weight
      split
      · rw [if_neg fun both => endless both.2]
        exact Nat.le_refl _
      · exact Nat.le_add_left _ _
    omega

structure Winds (now : Int) (rest : List LR_SchedTask) : Prop where
  spinning : rest.countP (LR_SchedTask.Spins now ·) ≤ 1
  fits : ∀ st ∈ rest, st.Due now → st.ran.Rearms → State.Fits (now + st.interval_us)

namespace Winds

variable {now : Int} {st : LR_SchedTask} {rest : List LR_SchedTask}

theorem tail (winds : Winds now (st :: rest)) : Winds now rest where
  spinning := by
    have bound := winds.spinning
    rw [countP_cons] at bound
    omega
  fits other member := winds.fits other (mem_cons_of_mem _ member)

theorem alone (winds : Winds now (st :: rest)) (spins : st.Spins now) :
    ∀ other ∈ rest, ¬other.Spins now := by
  have bound := winds.spinning
  rw [countP_cons, if_pos (decide_eq_true spins)] at bound
  intro other member spins'
  have found : 0 < rest.countP (LR_SchedTask.Spins now ·) :=
    countP_pos_iff.mpr ⟨other, member, decide_eq_true spins'⟩
  omega

theorem insert_rearmed (winds : Winds now (st :: rest)) (due : st.Due now)
    (rearms : st.ran.Rearms) : Winds now (lr_scheduler_insert_task rest (st.rearmed now)) where
  spinning := by
    have fits := winds.fits st mem_cons_self due rearms
    have bound := winds.spinning
    rw [countP_cons] at bound
    rw [(perm_insert_task rest _).countP_eq, countP_cons]
    simp only [spins_rearmed due fits]
    exact bound
  fits other member due' rearms' := by
    cases mem_insert_task.mp member with
    | inl same =>
      rw [same]
      exact winds.fits st mem_cons_self due rearms
    | inr inRest => exact winds.fits other (mem_cons_of_mem _ inRest) due' rearms'

end Winds

/-- A turn of the loop lowers the work that is left. -/
theorem Winds.turn {sched : LR_Scheduler} (winds : Winds now sched.rest) (going : sched.rest ≠ []) :
    Winds now (sched.turn now).1.rest ∧ work now (sched.turn now).1.rest < work now sched.rest ∧
      (sched.turn now).1.now = sched.now := by
  rcases turn_cases sched now with ⟨none_left, _⟩ | ⟨st, rest, here, which⟩
  · exact absurd none_left going
  rw [here] at winds ⊢
  have less (settles : ¬st.Spins now) : work now rest < work now (st :: rest) := by
    have := weight_pos settles
    simp only [work, map_cons, sum_cons]
    split <;> omega
  rcases which with ⟨cancelled, same⟩ | ⟨due, rearms, same⟩ | ⟨due, ends, same⟩ | ⟨later, same⟩
  · rw [same]
    refine ⟨winds.tail, less fun spins => ?_, rfl⟩
    rw [spins.1.1] at cancelled
    cases cancelled
  · have fits := winds.fits st mem_cons_self due rearms
    have dropped : work now rest < work now (st :: rest) := by
      by_cases spins : st.Spins now
      · have quiet : ¬∃ st ∈ rest.head?, st.Spins now := fun ⟨other, first, spins'⟩ =>
          winds.alone spins other (mem_of_mem_head? first) spins'
        simp only [work, map_cons, sum_cons, weight_spins spins, if_neg quiet]
        rw [if_pos ⟨st, rfl, spins⟩]
        omega
      · exact less spins
    rw [same]
    rcases reinsert_cases (sched.unlink rest) (st.rearmed now) with ⟨placed, _⟩ |
      ⟨placed, _⟩ | ⟨placed, _, next, first, notBefore⟩
    · rw [placed]
      exact ⟨winds.tail, dropped, rfl⟩
    · rw [placed]
      exact ⟨winds.tail, dropped, rfl⟩
    · rw [placed]
      refine ⟨winds.insert_rearmed due rearms, ?_, rfl⟩
      have front : (lr_scheduler_insert_task rest (st.rearmed now)).head? = rest.head? := by
        cases rest with
        | nil => cases first
        | cons head tail =>
          cases first
          rw [insert_task_cons, if_neg notBefore]
          rfl
      have total : ((lr_scheduler_insert_task rest (st.rearmed now)).map
          (weight now)).sum =
            (st.rearmed now).weight now + (rest.map (weight now)).sum :=
        ((perm_insert_task rest _).map _).sum_nat.trans rfl
      by_cases spins : st.Spins now
      · have again := weight_spins ((spins_rearmed due fits).mpr spins)
        simp only [work, map_cons, sum_cons, weight_spins spins] at dropped ⊢
        rw [show (unlink sched rest).rest = rest from rfl, total, front, again, Nat.zero_add]
        simpa only [Nat.zero_add] using dropped
      · have lighter := weight_rearmed due rearms fits spins
        simp only [work, map_cons, sum_cons]
        rw [show (unlink sched rest).rest = rest from rfl, total, front]
        split <;> omega
  · rw [same]
    refine ⟨winds.tail, less fun spins => ?_, rfl⟩
    exact ends ⟨spins.2.1, .inl spins.2.2.1⟩
  · rw [same]
    refine ⟨winds.tail, less fun spins => ?_, rfl⟩
    have := spins.1.2
    omega

namespace State

/-- The call of `lr_scheduler_process` that is under way comes to its end. -/
def Returns (s : State) : Prop :=
  ∃ turns reached, Runs.after State.step s (List.replicate turns .turn) = some reached ∧
    reached.sched.now = none

theorem step_turn {s : State} {now : Int} (reading : s.sched.now = some now) :
    s.step .turn = some ⟨(s.sched.turn now).1, s.clock,
        s.journal ++ (s.sched.turn now).2.notes⟩ := by
  unfold State.step
  rw [reading]
  rfl

theorem returns_of_winds {s : State} {now : Int} (reading : s.sched.now = some now)
    (winds : Winds now s.sched.rest) : s.Returns := by
  induction bound : work now s.sched.rest using Nat.strong_induction_on generalizing s with
  | _ left ih =>
    by_cases empty : s.sched.rest = []
    · refine ⟨1, ⟨(s.sched.turn now).1, _, _⟩, by
        rw [replicate_succ, Runs.after_cons, step_turn reading]
        rfl, ?_⟩
      rcases turn_cases s.sched now with ⟨_, same⟩ | ⟨st, rest, here, _⟩
      · rw [same]
      · rw [empty] at here
        cases here
    · obtain ⟨winds', less, same⟩ := winds.turn empty
      obtain ⟨turns, reached, arrives, free⟩ :=
        ih _ (bound ▸ less) (s := ⟨(s.sched.turn now).1, s.clock, _⟩)
          (same.trans reading) winds' rfl
      refine ⟨turns + 1, reached, ?_, free⟩
      rw [replicate_succ, Runs.after_cons, step_turn reading]
      exact arrives

end State

/-! ## The account of the observer -/

structure Job.Books (job : Job) (st : LR_SchedTask) : Prop where
  id : job.id = st.id
  due : job.due = st.next_run_us
  interval : job.interval = st.interval_us
  limit : job.limit = limitOf st.repeat_count
  runs : job.runs = st.run_count
  cancelled : job.cancelled = st.cancelled
  type : st.type = .repeat ↔ st.repeat_count ≠ 0
  live : st.cancelled = false → job.Live

theorem Job.Books.live_dispatch {job : Job} (books : job.Books st)
    (going : st.cancelled = false) (now : Int) : (job.dispatch now).Live ↔ st.ran.Rearms := by
  have runs := books.runs
  have limit := books.limit
  have cancelled : job.cancelled = false := books.cancelled.trans going
  have left := (books.live going).2
  have type := books.type
  rw [limit, limitOf] at left
  simp only [Job.Live, Job.dispatch, cancelled, limit, limitOf, LR_SchedTask.Rearms,
    ran, runs, true_and]
  split at left
  · rename_i endless
    simp only [if_pos endless]
    exact ⟨fun _ => ⟨type.mpr (Int.ne_of_lt endless), .inl endless⟩,
      fun _ n member => by cases member⟩
  · rename_i counted
    simp only [if_neg counted]
    split_ifs at left with once
    · have not_repeat : st.type ≠ .repeat := fun same => type.mp same once
      simp only [if_pos once, not_repeat, false_and, iff_false]
      intro more
      have := more 1 rfl
      omega
    · simp only [if_neg once, type.mpr once, counted, true_and, false_or]
      constructor
      · intro more
        have := more _ rfl
        omega
      · intro more n member
        cases member
        omega

structure Booked (jobs : List Job) (tasks : List LR_SchedTask) : Prop where
  distinct : (tasks.map LR_SchedTask.node).Nodup
  booked : ∀ st ∈ tasks, ∃ job, jobs[st.node]? = some job ∧ job.Books st
  complete : ∀ (node : Nat) (job : Job), jobs[node]? = some job → job.Live →
    ∃ st ∈ tasks, st.node = node

namespace Booked

variable {jobs : List Job} {tasks tasks' : List LR_SchedTask} {st : LR_SchedTask}

section

variable (booked : Booked jobs tasks)
include booked

theorem perm (same : tasks.Perm tasks') : Booked jobs tasks' where
  distinct := (same.map _).nodup_iff.mp booked.distinct
  booked other member := booked.booked other (same.mem_iff.mpr member)
  complete node job found live := by
    obtain ⟨other, member, here⟩ := booked.complete node job found live
    exact ⟨other, same.mem_iff.mp member, here⟩

theorem node_lt (member : st ∈ tasks) : st.node < jobs.length := by
  obtain ⟨job, found, _⟩ := booked.booked st member
  exact (List.getElem?_eq_some_iff.mp found).1

theorem schedule {job : Job} (node : st.node = jobs.length) (books : job.Books st) :
    Booked (jobs ++ [job]) (st :: tasks) where
  distinct := by
    refine nodup_cons.mpr ⟨fun member => ?_, booked.distinct⟩
    obtain ⟨other, inTasks, same⟩ := mem_map.mp member
    have := booked.node_lt inTasks
    omega
  booked other member := by
    cases mem_cons.mp member with
    | inl same =>
      refine ⟨job, ?_, same ▸ books⟩
      rw [same, node, getElem?_append_right (Nat.le_refl _), Nat.sub_self]
      rfl
    | inr inTasks =>
      obtain ⟨job', found, books'⟩ := booked.booked other inTasks
      exact ⟨job', (getElem?_append_left (booked.node_lt inTasks)).trans found, books'⟩
  complete node' job' found live := by
    rcases Nat.lt_or_ge node' jobs.length with old | new
    · rw [getElem?_append_left old] at found
      obtain ⟨other, inTasks, here⟩ := booked.complete node' job' found live
      exact ⟨other, mem_cons_of_mem _ inTasks, here⟩
    · have bound := (List.getElem?_eq_some_iff.mp found).1
      rw [length_append, length_singleton] at bound
      exact ⟨st, mem_cons_self, by omega⟩

theorem process :
    Booked (jobs.map fun job => { job with served := false }) tasks where
  distinct := booked.distinct
  booked other member := by
    obtain ⟨job, found, books⟩ := booked.booked other member
    refine ⟨{ job with served := false }, ?_, ⟨books.id, books.due, books.interval, books.limit,
      books.runs, books.cancelled, books.type, books.live⟩⟩
    rw [getElem?_map, found]
    rfl
  complete node job found live := by
    rw [getElem?_map] at found
    obtain ⟨before, there, rfl⟩ := map_eq_some_iff.mp found
    exact booked.complete node before there live

end

theorem remove (booked : Booked jobs (st :: tasks)) (ended : st.cancelled = true) :
    Booked jobs tasks where
  distinct := (nodup_cons.mp booked.distinct).2
  booked other member := booked.booked other (mem_cons_of_mem _ member)
  complete node job found live := by
    obtain ⟨other, member, here⟩ := booked.complete node job found live
    cases mem_cons.mp member with
    | inl same =>
      obtain ⟨job', found', books⟩ := booked.booked st mem_cons_self
      rw [← same, here, found] at found'
      cases found'
      rw [← books.cancelled, live.1] at ended
      cases ended
    | inr inTasks => exact ⟨other, inTasks, here⟩

theorem getElem?_dispatch {node : Nat} {now : Int} {job : Job}
    (found : (jobs.modify st.node (Job.dispatch now))[node]? = some job) :
    (node = st.node ∧ ∃ before, jobs[node]? = some before ∧ job = before.dispatch now) ∨
      node ≠ st.node ∧ jobs[node]? = some job := by
  by_cases here : node = st.node
  · rw [here, List.getElem?_modify_eq] at found
    obtain ⟨before, there, same⟩ := map_eq_some_iff.mp found
    exact .inl ⟨here, before, here ▸ there, same.symm⟩
  · rw [getElem?_modify_ne _ _ (Ne.symm here)] at found
    exact .inr ⟨here, found⟩

theorem others_dispatched (booked : Booked jobs (st :: tasks)) (now : Int) {other : LR_SchedTask}
    (member : other ∈ tasks) :
    ∃ job, (jobs.modify st.node (Job.dispatch now))[other.node]? = some job ∧ job.Books other := by
  obtain ⟨job, found, books⟩ := booked.booked other (mem_cons_of_mem _ member)
  have different : st.node ≠ other.node := fun same =>
    (nodup_cons.mp booked.distinct).1 (mem_map.mpr ⟨other, member, same.symm⟩)
  refine ⟨job, ?_, books⟩
  rw [getElem?_modify_ne _ _ different]
  exact found

theorem finish {now : Int} (booked : Booked jobs (st :: tasks)) (going : st.cancelled = false)
    (ends : ¬st.ran.Rearms) : Booked (jobs.modify st.node (Job.dispatch now)) tasks where
  distinct := (nodup_cons.mp booked.distinct).2
  booked _ member := booked.others_dispatched now member
  complete node job found live := by
    rcases getElem?_dispatch found with ⟨here, before, there, same⟩ | ⟨different, there⟩
    · obtain ⟨job', found', books⟩ := booked.booked st mem_cons_self
      rw [← here, there] at found'
      cases found'
      rw [same] at live
      exact absurd ((books.live_dispatch going now).mp live) ends
    · obtain ⟨other, member, here⟩ := booked.complete node job there live
      cases mem_cons.mp member with
      | inl same => exact absurd (same ▸ here.symm) different
      | inr inTasks => exact ⟨other, inTasks, here⟩

theorem rearm {now : Int} (booked : Booked jobs (st :: tasks)) (going : st.cancelled = false)
    (rearms : st.ran.Rearms) (fits : State.Fits (now + st.interval_us)) :
    Booked (jobs.modify st.node (Job.dispatch now)) (st.rearmed now :: tasks) where
  distinct := booked.distinct
  booked other member := by
    cases mem_cons.mp member with
    | inl same =>
      obtain ⟨job, found, books⟩ := booked.booked st mem_cons_self
      have time : (st.rearmed now).next_run_us = now + st.interval_us := fits
      refine ⟨job.dispatch now, ?_, ?_⟩
      · rw [same]
        exact (List.getElem?_modify_eq ..).trans (congrArg (Option.map _) found)
      · rw [same]
        exact ⟨books.id, by rw [time, ← books.interval]; rfl, books.interval, books.limit,
          congrArg (· + 1) books.runs, books.cancelled, books.type,
          fun _ => (books.live_dispatch going now).mpr rearms⟩
    | inr inTasks => exact booked.others_dispatched now inTasks
  complete node job found live := by
    rcases getElem?_dispatch found with ⟨here, _⟩ | ⟨different, there⟩
    · exact ⟨st.rearmed now, mem_cons_self, here.symm⟩
    · obtain ⟨other, member, here⟩ := booked.complete node job there live
      cases mem_cons.mp member with
      | inl same => exact absurd (same ▸ here.symm) different
      | inr inTasks => exact ⟨other, mem_cons_of_mem _ inTasks, here⟩

end Booked

theorem markCancelled_eq_map {id : Int} (single : tasks.countP (·.id = id) ≤ 1) :
    markCancelled id tasks =
      tasks.map fun st => { st with cancelled := st.cancelled || st.id == id } := by
  induction tasks with
  | nil => rfl
  | cons st rest ih =>
    rw [countP_cons] at single
    rw [markCancelled, map_cons]
    split_ifs with here
    · rw [if_pos (decide_eq_true here)] at single
      have others : ∀ other ∈ rest, other.id ≠ id := by
        intro other member same
        have found : 0 < rest.countP (·.id = id) :=
          countP_pos_iff.mpr ⟨other, member, decide_eq_true same⟩
        omega
      have kept : rest.map (fun st => { st with cancelled := st.cancelled || st.id == id }) =
          rest := by
        refine (map_congr_left fun other member => ?_).trans (map_id rest)
        rw [beq_eq_false_iff_ne.mpr (others other member), Bool.or_false]
        rfl
      rw [kept]
      simp [here]
    · rw [ih (by omega), beq_eq_false_iff_ne.mpr here, Bool.or_false]

theorem Booked.cancel {jobs : List Job} {id : Int}
    (booked : Booked jobs tasks) (single : tasks.countP (·.id = id) ≤ 1) :
    Booked (jobs.map (Job.cancel id)) (markCancelled id tasks) where
  distinct := by
    rw [markCancelled_eq_map single, List.map_map]
    exact booked.distinct
  booked other member := by
    rw [markCancelled_eq_map single] at member
    obtain ⟨st, inTasks, rfl⟩ := mem_map.mp member
    obtain ⟨job, found, books⟩ := booked.booked st inTasks
    refine ⟨job.cancel id, ?_, books.id, books.due, books.interval, books.limit, books.runs, ?_,
      books.type, fun going => ?_⟩
    · rw [getElem?_map, found]
      rfl
    · rw [Job.cancel, books.cancelled, books.id]
    · have parts := Bool.or_eq_false_iff.mp going
      refine ⟨?_, (books.live parts.1).2⟩
      rw [Job.cancel, books.cancelled, books.id]
      exact going
  complete node job found live := by
    rw [getElem?_map] at found
    obtain ⟨before, there, rfl⟩ := map_eq_some_iff.mp found
    have stays := (Bool.or_eq_false_iff.mp live.1).1
    obtain ⟨st, inTasks, here⟩ := booked.complete node before there ⟨stays, live.2⟩
    rw [markCancelled_eq_map single]
    exact ⟨_, mem_map_of_mem inTasks, here⟩

/-! ## How often tasks are dispatched -/

structure Counts (journal : List Note) (jobs : List Job) : Prop where
  runs : ∀ (node : Nat) (job : Job), jobs[node]? = some job →
    job.runs = journal.count (.dispatched node) ∧ ∀ n ∈ job.limit, job.runs ≤ n
  unknown : ∀ node, jobs.length ≤ node → journal.count (.dispatched node) = 0

theorem Counts.other {journal : List Note} {jobs jobs' : List Job} {note : Note}
    (counts : Counts journal jobs) (quiet : ∀ node, note ≠ .dispatched node)
    (same : ∀ (node : Nat) (job : Job), jobs'[node]? = some job →
      (∃ before, jobs[node]? = some before ∧ job.runs = before.runs ∧ job.limit = before.limit) ∨
        jobs.length ≤ node ∧ job.runs = 0)
    (longer : jobs.length ≤ jobs'.length) : Counts (journal ++ [note]) jobs' := by
  have count (node : Nat) : (journal ++ [note]).count (.dispatched node) =
      journal.count (.dispatched node) := by
    rw [count_append, count_singleton, if_neg (by simpa using quiet node)]
    rfl
  constructor
  · intro node job found
    rw [count]
    rcases same node job found with ⟨before, there, runs, limit⟩ | ⟨new, runs⟩
    · rw [runs, limit]
      exact counts.runs node before there
    · rw [runs, counts.unknown node new]
      exact ⟨rfl, fun n _ => Nat.zero_le n⟩
  · intro node new
    rw [count]
    exact counts.unknown node (longer.trans new)

/-- Each task of a lawful journal is dispatched as often as the account says, and never more often
than it was scheduled for. -/
theorem counts_of_lawful {journal : List Note} (lawful : law.Lawful journal) :
    Counts journal (law.account journal).jobs := by
  induction journal using reverseRecOn with
  | nil => exact ⟨fun _ _ found => (by cases found), fun _ _ => rfl⟩
  | append_singleton journal note ih =>
    have counts := ih lawful.earlier
    have allowed := lawful.last
    rw [law.account_note]
    generalize law.account journal = account at counts allowed
    have kept (f : Job → Job) (runs : ∀ job, (f job).runs = job.runs)
        (limit : ∀ job, (f job).limit = job.limit) (quiet : ∀ node, note ≠ .dispatched node) :
        Counts (journal ++ [note]) (account.jobs.map f) := by
      refine counts.other quiet (fun node job found => .inl ?_)
        (Nat.le_of_eq (length_map _).symm)
      rw [getElem?_map] at found
      obtain ⟨before, there, rfl⟩ := map_eq_some_iff.mp found
      exact ⟨before, there, runs before, limit before⟩
    cases note with
    | scheduled id due interval limit =>
      refine counts.other (fun _ same => by cases same) (fun node job found => ?_) ?_
      · rcases Nat.lt_or_ge node account.jobs.length with old | new
        · exact .inl ⟨job, (getElem?_append_left old).symm.trans found, rfl, rfl⟩
        · have last := (getElem?_append_right new).symm.trans found
          rw [getElem?_singleton] at last
          split at last
          · cases last
            exact .inr ⟨new, rfl⟩
          · cases last
      · exact Nat.le.intro length_append.symm
    | cancelled id | process now =>
      exact kept _ (fun _ => rfl) (fun _ => rfl) fun _ same => by cases same
    | processed =>
      exact counts.other (fun _ same => by cases same)
        (fun node job found => .inl ⟨job, found, rfl, rfl⟩) (Nat.le_refl _)
    | dispatched node =>
      obtain ⟨job, found, live, _⟩ := allowed
      constructor
      · intro node' job' found'
        rw [count_append, count_singleton]
        by_cases here : node' = node
        · subst here
          have now := (List.getElem?_modify_eq ..).symm.trans found'
          rw [found] at now
          cases now
          have before := counts.runs node' job found
          rw [if_pos (beq_self_eq_true _)]
          refine ⟨congrArg (· + 1) before.1, fun n member => ?_⟩
          exact live.2 n member
        · have before := (getElem?_modify_ne _ _ (Ne.symm here)).symm.trans found'
          rw [if_neg (by simpa using Ne.symm here)]
          exact counts.runs node' job' before
      · intro node' new
        have length : (account.jobs.modify node (Job.dispatch account.now)).length =
            account.jobs.length := length_modify ..
        have beyond : account.jobs.length ≤ node' := length ▸ new
        have different : node ≠ node' := by
          rintro rfl
          have := (List.getElem?_eq_some_iff.mp found).1
          omega
        rw [count_append, count_singleton, if_neg (by simpa using different)]
        exact counts.unknown node' beyond

/-! ## The invariant -/

/-- In a call that has read the clock at `now`: what the loop has behind it is not due, or has been
dispatched, and what it put directly in front of the cursor stays. -/
structure Going (account : Account) (sched : LR_Scheduler) (now : Int) : Prop where
  reading : account.now = now
  winds : Winds now sched.rest
  front : sched.between ≠ [] → ∀ next ∈ sched.rest.head?,
    next.cancelled = false ∧ now < next.next_run_us
  passed : ∀ st ∈ sched.kept ++ sched.between, st.cancelled = true ∨ now < st.next_run_us ∨
    ∃ job, account.jobs[st.node]? = some job ∧ job.served = true

namespace State

def account (s : State) : Account :=
  law.account s.journal

structure Kept (s : State) : Prop where
  lawful : law.Lawful s.journal
  counted : s.account.jobs.length = s.sched.tasks_scheduled
  sorted : ByTime s.sched.task_head
  booked : Booked s.account.jobs s.sched.task_head
  idle : s.sched.now = none → s.sched.kept = [] ∧ s.sched.between = []
  going : ∀ now ∈ s.sched.now, Going s.account s.sched now

variable {s s' : State}

theorem Kept.whole (kept : s.Kept) (idle : s.sched.now = none) :
    s.sched.task_head = s.sched.rest := by
  rw [task_head, (kept.idle idle).1, (kept.idle idle).2]
  rfl

theorem limit_pos (repeat_count : Int) : ∀ n ∈ limitOf repeat_count, 0 < n := by
  intro n member
  unfold limitOf at member
  split at member
  · cases member
  · split at member
    · cases member
      exact Nat.one_pos
    · cases member
      omega

variable {st : LR_SchedTask} {now : Int}

theorem Kept.schedule (kept : s.Kept) (idle : s.sched.now = none)
    (node : st.node = s.sched.tasks_scheduled) (fresh : st.run_count = 0)
    (going : st.cancelled = false) (type : st.type = .repeat ↔ st.repeat_count ≠ 0) :
    Kept ⟨s.sched.insert st, now, s.journal ++
      [.scheduled st.id st.next_run_us st.interval_us (limitOf st.repeat_count)]⟩ := by
  have whole := kept.whole idle
  have parts := kept.idle idle
  let job : Job :=
    ⟨st.id, st.next_run_us, st.interval_us, limitOf st.repeat_count, 0, false, false⟩
  have account : law.account (s.journal ++
      [.scheduled st.id st.next_run_us st.interval_us (limitOf st.repeat_count)]) =
        { s.account with jobs := s.account.jobs ++ [job] } :=
    law.account_note ..
  have list : (s.sched.insert st).task_head = lr_scheduler_insert_task s.sched.rest st := by
    rw [LR_Scheduler.task_head, LR_Scheduler.insert, parts.1, parts.2]
    rfl
  have books : job.Books st :=
    ⟨rfl, rfl, rfl, rfl, fresh.symm, going.symm, type, fun _ => ⟨rfl, limit_pos _⟩⟩
  exact
    { lawful := kept.lawful.note trivial
      counted := by
        rw [State.account, account, length_append, kept.counted]
        rfl
      sorted := by
        rw [list, ← whole]
        exact kept.sorted.insert_task st
      booked := by
        rw [State.account, account, list, ← whole]
        exact (kept.booked.schedule (node.trans kept.counted.symm) books).perm
          (perm_insert_task _ st).symm
      idle := fun _ => parts
      going := fun now reading => by
        rw [show (s.sched.insert st).now = s.sched.now from rfl, idle] at reading
        cases reading }

variable {sched : LR_Scheduler}

theorem Kept.cancel (kept : s.Kept) (idle : s.sched.now = none) {id : Int}
    (single : s.sched.rest.countP (·.id = id) ≤ 1)
    (found : s.sched.lr_scheduler_cancel id = some sched) :
    Kept ⟨sched, s.clock, s.journal ++ [.cancelled id]⟩ := by
  have whole := kept.whole idle
  have parts := kept.idle idle
  have account : law.account (s.journal ++ [.cancelled id]) =
      { s.account with jobs := s.account.jobs.map (Job.cancel id) } :=
    law.account_note ..
  unfold lr_scheduler_cancel at found
  split at found
  · cases found
    have list : ({ s.sched with rest := markCancelled id s.sched.rest } :
        LR_Scheduler).task_head = markCancelled id s.sched.rest := by
      rw [task_head, parts.1, parts.2]
      rfl
    exact
      { lawful := kept.lawful.note trivial
        counted := by
          rw [State.account, account, length_map]
          exact kept.counted
        sorted := by
          rw [list, markCancelled_eq_map single]
          refine pairwise_map.mpr ?_
          rw [← whole]
          exact kept.sorted
        booked := by
          rw [State.account, account, list]
          exact (whole ▸ kept.booked).cancel single
        idle := fun _ => parts
        going := fun now reading => by
          rw [idle] at reading
          cases reading }
  · cases found

theorem Kept.process (kept : s.Kept) (idle : s.sched.now = none) (winds : Winds now s.sched.rest) :
    Kept ⟨{ s.sched with now := some now }, now, s.journal ++ [.process now]⟩ := by
  have parts := kept.idle idle
  have account : law.account (s.journal ++ [.process now]) =
      ⟨s.account.jobs.map fun job => { job with served := false }, now⟩ :=
    law.account_note ..
  exact
    { lawful := kept.lawful.note trivial
      counted := by
        rw [State.account, account, length_map]
        exact kept.counted
      sorted := kept.sorted
      booked := by
        rw [State.account, account]
        exact kept.booked.process
      idle := fun none_reads => by cases none_reads
      going := fun now' reading => by
        cases reading
        exact
          { reading := by rw [State.account, account]
            winds := winds
            front := fun something => absurd parts.2 something
            passed := fun st member => by
              rw [show ({ s.sched with now := some now } : LR_Scheduler).kept = s.sched.kept
                from rfl, show ({ s.sched with now := some now } : LR_Scheduler).between =
                  s.sched.between from rfl, parts.1, parts.2] at member
              cases member } }

variable {rest : List LR_SchedTask}

section

variable (kept : s.Kept)
include kept

theorem Kept.unlinked (here : s.sched.rest = st :: rest) (nothing : s.sched.between = []) :
    ByTime (s.sched.unlink rest).task_head ∧
      Booked s.account.jobs (st :: (s.sched.unlink rest).task_head) := by
  have list : (s.sched.unlink rest).task_head = s.sched.kept ++ rest := by
    rw [task_head, unlink, append_nil]
  have whole : s.sched.task_head = s.sched.kept ++ st :: rest := by
    rw [task_head, nothing, here, append_nil]
  rw [list]
  constructor
  · have sorted := kept.sorted
    rw [whole] at sorted
    exact sorted.sublist ((sublist_cons_self st rest).append_left s.sched.kept)
  · have booked := kept.booked
    rw [whole] at booked
    exact booked.perm perm_middle

theorem Kept.unlock (reading : s.sched.now = some now) (empty : s.sched.rest = []) :
    Kept ⟨{ s.sched with kept := [], between := [], rest := s.sched.task_head, now := none },
      s.clock, s.journal ++ [.processed]⟩ := by
  have going := kept.going now reading
  have account : law.account (s.journal ++ [.processed]) = s.account :=
    law.account_note ..
  refine ⟨kept.lawful.note fun job member live => ?_, ?_, kept.sorted, ?_, fun _ => ⟨rfl, rfl⟩,
    fun _ none_reads => by cases none_reads⟩
  · obtain ⟨node, found⟩ := getElem?_of_mem member
    obtain ⟨st, inList, rfl⟩ := kept.booked.complete node job found live
    obtain ⟨job', found', books⟩ := kept.booked.booked st inList
    obtain rfl : job = job' := some.inj (found.symm.trans found')
    rw [task_head, empty, append_nil] at inList
    have clock : (law.account s.journal).now = now := going.reading
    rcases going.passed st inList with ended | later | ⟨job', found', served⟩
    · rw [← books.cancelled, live.1] at ended
      cases ended
    · rw [clock, books.due]
      exact .inl later
    · obtain rfl : job = job' := some.inj (found.symm.trans found')
      exact .inr served
  · rw [State.account, account]
    exact kept.counted
  · rw [State.account, account]
    exact kept.booked

theorem Kept.free {now : Int} (reading : s.sched.now = some now) {st : LR_SchedTask}
    {rest : List LR_SchedTask} (here : s.sched.rest = st :: rest) (ended : st.cancelled = true) :
    Kept ⟨s.sched.unlink rest, s.clock, s.journal⟩ := by
  have going := kept.going now reading
  have nothing : s.sched.between = [] := by
    by_contra something
    have front := (going.front something st (by rw [here]; rfl)).1
    rw [front] at ended
    cases ended
  obtain ⟨sorted, booked⟩ := kept.unlinked here nothing
  refine ⟨kept.lawful, kept.counted, sorted, booked.remove ended, fun idle => ?_,
    fun now' reading' => ?_⟩
  · rw [show (s.sched.unlink rest).now = s.sched.now from rfl, reading] at idle
    cases idle
  · obtain rfl : now' = now := some.inj (reading'.symm.trans reading)
    exact
      { reading := going.reading
        winds := (here ▸ going.winds).tail
        front := fun something => absurd rfl something
        passed := fun other member => going.passed other <| by
          rw [nothing]
          exact member }

theorem Kept.skip (reading : s.sched.now = some now) (here : s.sched.rest = st :: rest)
    (later : now < st.next_run_us)
    (same : sched = { s.sched with
      kept := s.sched.kept ++ s.sched.between ++ [st], between := [], rest := rest }) :
    Kept ⟨sched, s.clock, s.journal⟩ := by
  have going := kept.going now reading
  have list : sched.task_head = s.sched.task_head := by
    simp [same, task_head, here]
  have still : sched.now = s.sched.now := by rw [same]
  refine ⟨kept.lawful, ?_, list ▸ kept.sorted, list ▸ kept.booked, fun idle => ?_,
    fun now' reading' => ?_⟩
  · rw [same]
    exact kept.counted
  · rw [still, reading] at idle
    cases idle
  · obtain rfl : now' = now := some.inj (reading'.symm.trans (still.trans reading))
    subst same
    refine ⟨going.reading, (here ▸ going.winds).tail, fun something => absurd rfl something,
      fun other member => ?_⟩
    rw [append_nil, mem_append, mem_singleton] at member
    cases member with
    | inl before => exact going.passed other before
    | inr last => exact .inr (.inl (last ▸ later))

/-- A due task is dispatched once, and in order of time. -/
theorem Kept.submit (reading : s.sched.now = some now) (here : s.sched.rest = st :: rest)
    (due : st.Due now) (scheduled : sched.tasks_scheduled = s.sched.tasks_scheduled)
    (still : sched.now = some now) (sorted : ByTime sched.task_head)
    (booked : s.sched.between = [] →
      Booked (s.account.jobs.modify st.node (Job.dispatch now)) sched.task_head)
    (winds : Winds now sched.rest)
    (front : sched.between ≠ [] → ∀ next ∈ sched.rest.head?,
      next.cancelled = false ∧ now < next.next_run_us)
    (passed : ∀ other ∈ sched.kept ++ sched.between, other.node = st.node ∨ other ∈ s.sched.kept) :
    Kept ⟨sched, s.clock, s.journal ++ [.dispatched st.node]⟩ := by
  have going := kept.going now reading
  have nothing : s.sched.between = [] := by
    by_contra something
    have later := (going.front something st (by rw [here]; rfl)).2
    have := due.2
    omega
  have inList : st ∈ s.sched.task_head := by
    rw [task_head, here]
    exact mem_append_right _ mem_cons_self
  obtain ⟨job, found, books⟩ := kept.booked.booked st inList
  have account : law.account (s.journal ++ [.dispatched st.node]) =
      { s.account with jobs := s.account.jobs.modify st.node (Job.dispatch now) } := by
    rw [law.account_note, ← going.reading]
    rfl
  have served : ∃ job, (s.account.jobs.modify st.node (Job.dispatch now))[st.node]? = some job ∧
      job.served = true := by
    refine ⟨job.dispatch now, ?_, rfl⟩
    exact (List.getElem?_modify_eq ..).trans (congrArg (Option.map _) found)
  refine ⟨kept.lawful.note ⟨job, found, books.live due.1, ?_⟩, ?_, sorted, ?_, fun idle => ?_,
    fun now' reading' => ?_⟩
  · have clock : (law.account s.journal).now = now := going.reading
    rw [books.due, clock]
    exact due.2
  · rw [State.account, account, length_modify, scheduled]
    exact kept.counted
  · rw [State.account, account]
    exact booked nothing
  · rw [still] at idle
    cases idle
  · obtain rfl : now' = now := some.inj (reading'.symm.trans still)
    refine ⟨?_, winds, front, fun other member => ?_⟩
    · rw [State.account, account]
      exact going.reading
    · rw [State.account, account]
      cases passed other member with
      | inl same => exact .inr (.inr (same ▸ served))
      | inr before =>
        rcases going.passed other (mem_append_left _ before) with ended | later |
          ⟨job', found', served'⟩
        · exact .inl ended
        · exact .inr (.inl later)
        · refine .inr (.inr ?_)
          by_cases equal : st.node = other.node
          · rw [← equal]
            exact served
          · refine ⟨job', ?_, served'⟩
            rw [getElem?_modify_ne _ _ equal]
            exact found'

/-- A turn that keeps the times apart keeps the invariant. -/
theorem Kept.turn (reading : s.sched.now = some now) (apart : KeepsApart now s.sched.rest) :
    Kept ⟨(s.sched.turn now).1, s.clock, s.journal ++ (s.sched.turn now).2.notes⟩ := by
  have going := kept.going now reading
  rcases turn_cases s.sched now with ⟨empty, same⟩ | ⟨st, rest, here, which⟩
  · rw [same]
    exact kept.unlock reading empty
  have busy : s.sched.rest ≠ [] := by
    rw [here]
    exact cons_ne_nil _ _
  have winds := Winds.turn going.winds busy
  rcases which with ⟨ended, same⟩ | ⟨due, rearms, same⟩ | ⟨due, ends, same⟩ | ⟨⟨_, later⟩, same⟩
  · rw [same, Action.notes, append_nil]
    exact kept.free reading here ended
  · have fits := going.winds.fits st (by rw [here]; exact mem_cons_self) due rearms
    have nothing : (s.sched.unlink rest).between = [] := rfl
    have list := task_head_reinsert nothing (st.rearmed now)
    have time : (st.rearmed now).next_run_us = now + st.interval_us := fits
    rw [same] at winds ⊢
    refine kept.submit reading here due ?_ (winds.2.2.trans reading) ?_ (fun empty => ?_) winds.1
      ?_ ?_
    · rcases reinsert_cases (s.sched.unlink rest) (st.rearmed now) with ⟨placed, _⟩ |
        ⟨placed, _⟩ | ⟨placed, _⟩ <;> rw [placed] <;> rfl
    · rw [list]
      by_cases empty : s.sched.between = []
      · exact (kept.unlinked here empty).1.insert_task _
      · have later := (going.front empty st (by rw [here]; rfl)).2
        have := due.2
        omega
    · rw [list]
      exact ((kept.unlinked here empty).2.rearm due.1 rearms fits).perm
        (perm_insert_task _ _).symm
    · rcases reinsert_cases (s.sched.unlink rest) (st.rearmed now) with ⟨placed, _⟩ |
        ⟨placed, _, first⟩ | ⟨placed, _⟩
      · rw [placed]
        exact fun something => absurd rfl something
      · rw [placed]
        intro _ next isNext
        have before := first next isNext
        rw [time] at before
        rw [here] at apart
        cases rest with
        | nil => cases isNext
        | cons head tail =>
          cases isNext
          exact apart due rearms before
      · rw [placed]
        exact fun something => absurd rfl something
    · rcases reinsert_cases (s.sched.unlink rest) (st.rearmed now) with ⟨placed, _⟩ |
        ⟨placed, _⟩ | ⟨placed, _⟩
      · rw [placed]
        intro other member
        rw [show (s.sched.unlink rest).between = [] from rfl, append_nil] at member
        exact (mem_insert_task.mp member).imp (fun same => by rw [same]; rfl) id
      · rw [placed]
        intro other member
        cases mem_append.mp member with
        | inl before => exact .inr before
        | inr here => exact .inl (by rw [mem_singleton.mp here]; rfl)
      · rw [placed]
        intro other member
        rw [show (s.sched.unlink rest).between = [] from rfl, append_nil] at member
        exact .inr member
  · rw [same] at winds ⊢
    refine kept.submit reading here due rfl (winds.2.2.trans reading) ?_ (fun empty => ?_) winds.1
      (fun something => absurd rfl something) (fun other member => ?_)
    · by_cases empty : s.sched.between = []
      · exact (kept.unlinked here empty).1
      · have later := (going.front empty st (by rw [here]; rfl)).2
        have := due.2
        omega
    · exact (kept.unlinked here empty).2.finish due.1 ends
    · rw [show (s.sched.unlink rest).between = [] from rfl, append_nil] at member
      exact .inr member
  · rw [same, Action.notes, append_nil]
    exact kept.skip reading here later rfl

/-! ## Runs -/

/-- Every step that meets the condition keeps the invariant. -/
theorem Kept.step {event : Event} (meets : s.Meets event) (taken : s.step event = some s') :
    s'.Kept := by
  unfold State.step at taken
  split at taken
  · rename_i idle
    cases event with
    | schedule task interval_us repeat_count now =>
      simp only [State.act] at taken
      split at taken
      · cases taken
        refine kept.schedule idle rfl rfl rfl ?_
        simp only [scheduled]
        split <;> simp_all
      · cases taken
    | schedule_delayed task delay_us now =>
      simp only [State.act] at taken
      split at taken
      · cases taken
        let st := s.sched.delayed task delay_us now
        have added : Kept ⟨s.sched.insert st, now, s.journal ++
            [.scheduled st.id st.next_run_us st.interval_us (limitOf st.repeat_count)]⟩ :=
          kept.schedule idle rfl rfl rfl (by simp [st, delayed])
        have time : st.next_run_us = now + delay_us := meets
        rw [time] at added
        exact added
      · cases taken
    | cancel sched_task_id =>
      simp only [State.act] at taken
      split at taken
      · rename_i found
        cases taken
        exact kept.cancel idle meets found
      · cases taken
        exact kept
    | process now =>
      simp only [State.act] at taken
      split at taken
      · cases taken
        exact kept.process idle ⟨meets.2, meets.1⟩
      · cases taken
    | turn => cases taken
  · rename_i now reading
    split at taken
    · rename_i same
      subst same
      cases taken
      exact kept.turn reading (meets now reading)
    · cases taken

end

theorem kept_start : start.Kept where
  lawful := law.lawful_nil
  counted := rfl
  sorted := List.Pairwise.nil
  booked :=
    { distinct := nodup_nil
      booked := fun _ member => by cases member
      complete := fun _ _ found => by cases found }
  idle := fun _ => ⟨rfl, rfl⟩
  going := fun _ reading => by cases reading

/-- The list is in order and has every task that is not cancelled and has runs left, no task was
dispatched too often, and `lr_scheduler_process` returns. -/
structure LosesNone (s : State) : Prop where
  sorted : ByTime s.sched.task_head
  complete : ∀ (node : Nat) (job : Job), s.account.jobs[node]? = some job → job.Live →
    ∃ st ∈ s.sched.task_head, st.node = node
  counts : Counts s.journal s.account.jobs
  returns : s.sched.now ≠ none → s.Returns

/-- In every run whose steps meet the condition, the list stays in order and loses no task, every
call of `lr_scheduler_process` returns, and dispatches exactly the tasks that are due, have runs
left and have not been cancelled. -/
theorem scheduler_loses_no_task {events : List Event} {s : State}
    (met : Runs.Throughout State.step Meets start events)
    (arrives : Runs.after State.step start events = some s) :
    law.Lawful s.journal ∧ s.LosesNone := by
  have kept : s.Kept := Runs.Throughout.invariant_after
    (fun _ _ _ kept meets taken => kept.step meets taken) kept_start met arrives
  refine ⟨kept.lawful, kept.sorted, kept.booked.complete, counts_of_lawful kept.lawful,
    fun busy => ?_⟩
  obtain ⟨now, reading⟩ := ne_none_iff_exists'.mp busy
  exact returns_of_winds reading (kept.going now reading).winds

/-- A task that repeats, a delayed task and a cancelled one. -/
theorem scheduler_loses_no_task_sample :
    ∃ s, Runs.after State.step start
        [.schedule 0 5 2 0, .schedule_delayed 1 3 0, .schedule_delayed 2 4 1, .cancel 3, .process 1,
          .turn, .turn, .turn, .turn, .turn, .process 6, .turn, .turn, .turn] = some s ∧
      law.Lawful s.journal ∧ s.LosesNone := by
  have met : Runs.Throughout State.step Meets start [.schedule 0 5 2 0, .schedule_delayed 1 3 0,
      .schedule_delayed 2 4 1, .cancel 3, .process 1, .turn, .turn, .turn, .turn, .turn, .process 6,
      .turn, .turn, .turn] := by
    decide +kernel
  exact ⟨_, rfl, scheduler_loses_no_task met rfl⟩

/-- A task that repeats gets its place in front of a cancelled one, and is forgotten with it. -/
theorem repeating_task_lost :
    ∃ s, Runs.after State.step start [.schedule 0 5 3 0, .schedule_delayed 1 10 0, .cancel 2,
        .process 0, .turn, .turn, .turn] = some s ∧ ¬s.LosesNone := by
  refine ⟨_, rfl, fun loses => ?_⟩
  obtain ⟨st, member, _⟩ := loses.complete 0 ⟨1, 5, 5, some 3, 1, false, true⟩ rfl (by decide)
  cases member

end State

end LRJS.Scheduling
