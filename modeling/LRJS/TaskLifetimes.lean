import LRJS.TaskOwners

/-!
# When tasks are freed

As long as no task is dispatched that has runs left or that the pool refuses,
and none is freed before its submission has answered, each task has one owner
until it is freed, and is freed once.
-/

namespace LRJS.Scheduling

open List Option LR_Scheduler

namespace System

def Quiet (s : System) : Prop :=
  s.running = false ∧ s.pushing = none ∧ s.submitting = [] ∧ s.queued = [] ∧ s.executing = []

/-- Each task has one owner, or has been freed once; one that a submission is to read is in the
pool; nothing is between `prev` and the cursor; a destroyed scheduler has no tasks; and a freed pool
is quiet. -/
structure Owned (s : System) : Prop where
  once : ∀ t, s.frees t + s.owners.count t = if t < s.created then 1 else 0
  unread : ∀ t, ¬s.Answered t → t ∈ s.queued ∨ t ∈ s.executing
  gap : s.sched.between = []
  emptied : s.destroyed = true → s.sched.now = none ∧ s.sched.task_head = []
  gone : s.freed = true → s.Quiet

variable {s s' : System}

theorem count_owners (s : System) (t : Nat) :
    s.owners.count t = s.held.count t + s.listed.count t + s.pushing.toList.count t +
      s.submitting.count t + s.queued.count t + s.executing.count t := by
  simp only [owners, count_append]

theorem count_erase_add {tasks : List Nat} {task : Nat} (member : task ∈ tasks) (t : Nat) :
    (tasks.erase task).count t + [task].count t = tasks.count t := by
  rw [(perm_cons_erase member).count_eq t]
  simp only [count_cons, count_nil]
  omega

theorem Owned.moved (owned : s.Owned) (created : s'.created = s.created)
    (counts : ∀ t, s'.frees t + s'.owners.count t = s.frees t + s.owners.count t)
    (unread : ∀ t, ¬s'.Answered t → t ∈ s'.queued ∨ t ∈ s'.executing)
    (gap : s'.sched.between = [])
    (emptied : s'.destroyed = true → s'.sched.now = none ∧ s'.sched.task_head = [])
    (gone : s'.freed = true → s'.Quiet) : s'.Owned where
  once t := by rw [counts, created, owned.once]
  unread := unread
  gap := gap
  emptied := emptied
  gone := gone

theorem not_answered {t : Nat} : ¬s.Answered t ↔ s.reading = some t ∨ t ∈ s.returning := by
  unfold Answered
  tauto

theorem Owned.returning (owned : s.Owned) {t : Nat} (member : t ∈ s.returning) :
    t ∈ s.queued ∨ t ∈ s.executing :=
  owned.unread t (not_answered.mpr (.inr member))

theorem Owned.live (owned : s.Owned) {t : Nat} (member : t ∈ s.owners) : s.frees t = 0 := by
  have once := owned.once t
  have here : 0 < s.owners.count t := count_pos_iff.mpr member
  split at once <;> omega

theorem Idle.going (idle : s.Idle) (ended : s.destroyed = true) : False := by
  have := idle.1
  rw [ended] at this
  cases this

variable {st : LR_SchedTask}

theorem Owned.insert (owned : s.Owned) (idle : s.Idle) (member : st.task ∈ s.held) :
    Owned { s with sched := s.sched.insert st, held := s.held.erase st.task } := by
  refine owned.moved rfl (fun t => ?_) owned.unread owned.gap
    (fun ended => (idle.going ended).elim) owned.gone
  have list : ({ s with sched := s.sched.insert st, held := s.held.erase st.task } :
      System).listed.count t = s.listed.count t + [st.task].count t := by
    have same := ((perm_insert_task s.sched.rest st).map LR_SchedTask.task).count_eq t
    simp only [listed, LR_Scheduler.task_head, LR_Scheduler.insert, map_append,
      count_append, same, map_cons, count_cons, count_nil]
    omega
  have erased := count_erase_add member t
  rw [count_owners, count_owners, list]
  simp only
  omega

theorem map_task_markCancelled (id : Int) (tasks : List LR_SchedTask) :
    (markCancelled id tasks).map LR_SchedTask.task = tasks.map LR_SchedTask.task := by
  induction tasks with
  | nil => rfl
  | cons st rest ih =>
    rw [markCancelled]
    split
    · rfl
    · rw [map_cons, map_cons, ih]

theorem Owned.cancel (owned : s.Owned) (idle : s.Idle) {id : Int} {sched : LR_Scheduler}
    (found : s.sched.lr_scheduler_cancel id = some sched) : Owned { s with sched := sched } := by
  unfold lr_scheduler_cancel at found
  split at found
  · cases found
    refine owned.moved rfl (fun t => ?_) owned.unread owned.gap
      (fun ended => (idle.going ended).elim) owned.gone
    simp [count_owners, listed, task_head, map_task_markCancelled]
  · cases found

theorem listed_unlink (owned : s.Owned) {rest : List LR_SchedTask}
    (here : s.sched.rest = st :: rest) (t : Nat) :
    s.listed.count t =
      ((s.sched.unlink rest).task_head.map LR_SchedTask.task).count t + [st.task].count t := by
  simp only [listed, task_head, unlink, here, owned.gap, map_append,
    count_append, map_cons, count_cons, map_nil, count_nil]
  omega

/-- A turn of the scheduler hands over tasks that it owns. -/
theorem Owned.turn (owned : s.Owned) {now : Int} (reading : s.sched.now = some now)
    (idle : s.pushing = none) (meets : s.Meets .turn) :
    Owned ({ s with sched := (s.sched.turn now).1 }.perform (s.sched.turn now).2) := by
  have meets := meets now reading
  have going (ended : s.destroyed = true) : False := by
    rw [(owned.emptied ended).1] at reading
    cases reading
  rcases turn_cases s.sched now with ⟨empty, same⟩ | ⟨st, rest, here, which⟩
  · rw [same]
    refine owned.moved rfl (fun t => ?_) owned.unread rfl (fun ended => (going ended).elim)
      owned.gone
    simp [perform, count_owners, listed, task_head, empty]
  rw [here] at meets
  have unlinked := listed_unlink owned here
  rcases which with ⟨_, same⟩ | ⟨due, rearms, same⟩ | ⟨due, ends, same⟩ | ⟨_, same⟩
  · rw [same]
    refine owned.moved rfl (fun t => ?_) owned.unread rfl (fun ended => (going ended).elim)
      owned.gone
    have list := unlinked t
    simp only [perform, lr_task_free, count_owners, listed] at list ⊢
    omega
  · exact absurd rearms (meets st rfl due).1
  · rw [same]
    have accepts := (meets st rfl due).2
    simp only [perform, if_pos accepts]
    refine owned.moved rfl (fun t => ?_) owned.unread rfl (fun ended => (going ended).elim)
      fun freed => ?_
    · have list := unlinked t
      simp only [count_owners, idle, listed, toList, count_nil] at list ⊢
      omega
    · have quiet := (owned.gone freed).1
      rw [accepts] at quiet
      cases quiet
  · rw [same]
    refine owned.moved rfl (fun t => ?_) owned.unread rfl (fun ended => (going ended).elim)
      owned.gone
    simp [perform, count_owners, listed, task_head, here]

theorem enqueue_eq (going : s.freed = false) (task : Nat) :
    s.enqueue task = { s with queued := s.queued ++ [task] } :=
  if_neg (Bool.eq_false_iff.mp going)

theorem Owned.destroy (owned : s.Owned) (whole : ∀ st ∈ s.sched.task_head, st.cancelled = false) :
    s.lr_scheduler_destroy.Owned := by
  have all : s.discarded = s.listed :=
    congrArg (map LR_SchedTask.task) (filter_eq_self.mpr fun st member =>
      decide_eq_true (whole st member))
  refine owned.moved rfl (fun t => ?_) owned.unread rfl (fun _ => ⟨rfl, rfl⟩) owned.gone
  simp only [lr_scheduler_destroy, lr_task_free, count_owners, all, listed, task_head,
    append_nil, map_nil, count_nil]
  omega

/-- A new task has one owner. -/
theorem Owned.fresh (owned : s.Owned) (created : s'.created = s.created + 1)
    (frees : s'.frees = s.frees)
    (owners : ∀ t, s'.owners.count t = s.owners.count t + [s.created].count t) (t : Nat) :
    s'.frees t + s'.owners.count t = if t < s'.created then 1 else 0 := by
  have once := owned.once t
  rw [created, frees, owners, count_singleton]
  by_cases new : t = s.created
  · subst new
    simp at once ⊢
    omega
  · rw [if_neg (by simpa using Ne.symm new)]
    split at once <;> split <;> omega

theorem Owned.create (owned : s.Owned) :
    Owned { s with created := s.created + 1, held := s.created :: s.held } := by
  refine ⟨owned.fresh rfl rfl fun t => ?_, owned.unread, owned.gap, owned.emptied, owned.gone⟩
  simp only [count_owners, listed, count_cons, count_nil]
  omega

/-- The submission of the scheduler has still to read the task that it pushes. -/
theorem Owned.push (owned : s.Owned) {task : Nat} (pushing : s.pushing = some task) :
    ({ s with pushing := none, reading := some task }.enqueue task).Owned := by
  have going : s.freed = false := by
    by_contra freed
    have quiet := (owned.gone (Bool.eq_true_of_not_eq_false freed)).2.1
    rw [pushing] at quiet
    cases quiet
  rw [enqueue_eq (s := { s with pushing := none, reading := some task }) going]
  refine owned.moved rfl (fun t => ?_) (fun t unread => ?_) owned.gap owned.emptied
    fun freed => ?_
  · simp only [count_owners, listed, pushing, toList, count_append, count_nil]
    omega
  · rcases not_answered.mp unread with same | member
    · cases same
      exact .inl (mem_append_right _ (mem_singleton_self _))
    · exact (owned.returning member).imp_left (mem_append_left _)
  · rw [going] at freed
    cases freed

/-- A submission of the program has still to read the task that it pushes. -/
theorem Owned.enqueue (owned : s.Owned) {task : Nat} (member : task ∈ s.submitting) :
    ({ s with
      submitting := s.submitting.erase task
      returning := task :: s.returning }.enqueue task).Owned := by
  have going : s.freed = false := by
    by_contra freed
    have quiet := (owned.gone (Bool.eq_true_of_not_eq_false freed)).2.2.1
    rw [quiet] at member
    cases member
  rw [enqueue_eq (s := { s with
    submitting := s.submitting.erase task
    returning := task :: s.returning }) going]
  refine owned.moved rfl (fun t => ?_) (fun t unread => ?_) owned.gap owned.emptied
    fun freed => ?_
  · have erased := count_erase_add member t
    simp only [count_owners, listed, count_append] at erased ⊢
    omega
  · rcases not_answered.mp unread with same | member
    · exact (owned.unread t (not_answered.mpr (.inl same))).imp_left (mem_append_left _)
    · rcases mem_cons.mp member with rfl | member
      · exact .inl (mem_append_right _ (mem_singleton_self _))
      · exact (owned.returning member).imp_left (mem_append_left _)
  · rw [going] at freed
    cases freed

theorem Owned.take (owned : s.Owned) {task : Nat} (member : task ∈ s.queued) :
    Owned { s with queued := s.queued.erase task, executing := task :: s.executing } := by
  refine owned.moved rfl (fun t => ?_) (fun t unread => ?_) owned.gap owned.emptied
    fun freed => ?_
  · have erased := count_erase_add member t
    simp only [count_owners, listed, count_cons, count_nil] at erased ⊢
    omega
  · rcases owned.unread t unread with queued | executing
    · by_cases same : t = task
      · exact .inr (mem_cons.mpr (.inl same))
      · exact .inl ((mem_erase_of_ne same).mpr queued)
    · exact .inr (mem_cons_of_mem _ executing)
  · rw [(owned.gone freed).2.2.2.1] at member
    cases member

/-- A worker frees a task that no submission has still to read. -/
theorem Owned.finish (owned : s.Owned) {task : Nat} (member : task ∈ s.executing)
    (answered : s.Answered task) :
    ({ s with executing := s.executing.erase task }.lr_task_free [task]).Owned := by
  refine owned.moved rfl (fun t => ?_) (fun t unread => ?_) owned.gap owned.emptied
    fun freed => ?_
  · have erased := count_erase_add member t
    simp only [lr_task_free, count_owners, listed] at erased ⊢
    omega
  · have other : t ≠ task := fun same => unread (same ▸ answered)
    exact (owned.unread t unread).imp_right (mem_erase_of_ne other).mpr
  · rw [(owned.gone freed).2.2.2.2] at member
    cases member

theorem Owned.drain (owned : s.Owned) {task : Nat} (member : task ∈ s.queued)
    (answered : s.Answered task) :
    ({ s with queued := s.queued.erase task }.lr_task_free [task]).Owned := by
  refine owned.moved rfl (fun t => ?_) (fun t unread => ?_) owned.gap owned.emptied
    fun freed => ?_
  · have erased := count_erase_add member t
    simp only [lr_task_free, count_owners, listed] at erased ⊢
    omega
  · have other : t ≠ task := fun same => unread (same ▸ answered)
    exact (owned.unread t unread).imp_left (mem_erase_of_ne other).mpr
  · rw [(owned.gone freed).2.2.2.1] at member
    cases member

theorem Owned.terminate (owned : s.Owned) (going : s.freed = false) :
    Owned { s with created := s.created + 1, queued := s.queued ++ [s.created] } := by
  refine ⟨owned.fresh rfl rfl fun t => ?_, fun t unread => ?_, owned.gap, owned.emptied,
    fun freed => ?_⟩
  · simp only [count_owners, listed, count_append]
    omega
  · exact (owned.unread t unread).imp_left (mem_append_left _)
  · rw [show s.freed = true from freed] at going
    cases going

/-- Every step that meets the condition keeps one owner for each task. -/
theorem Owned.step {deed : Deed} (owned : s.Owned) (meets : s.Meets deed)
    (taken : s.step deed = some s') : s'.Owned := by
  cases deed with
  | create =>
    cases taken
    exact owned.create
  | schedule task interval_us repeat_count now =>
    simp only [System.step] at taken
    split at taken
    · rename_i met
      cases taken
      have held : (s.sched.scheduled task interval_us repeat_count now).task ∈ s.held := met.2
      exact owned.insert met.1 held
    · cases taken
  | schedule_delayed task delay_us now =>
    simp only [System.step] at taken
    split at taken
    · rename_i met
      cases taken
      have held : (s.sched.delayed task delay_us now).task ∈ s.held := met.2
      exact owned.insert met.1 held
    · cases taken
  | cancel sched_task_id =>
    simp only [System.step] at taken
    split at taken
    · rename_i free
      split at taken
      · rename_i found
        cases taken
        exact owned.cancel free found
      · cases taken
        exact owned
    · cases taken
  | process now =>
    simp only [System.step] at taken
    split at taken
    · rename_i free
      cases taken
      exact owned.moved rfl (fun t => rfl) owned.unread owned.gap
        (fun ended => (free.going ended).elim) owned.gone
    · cases taken
  | turn =>
    simp only [System.step] at taken
    split at taken
    · rename_i now reading
      split at taken
      · rename_i idle
        cases taken
        exact owned.turn reading idle.1 meets
      · cases taken
    · cases taken
  | push =>
    simp only [System.step] at taken
    split at taken
    · rename_i task pushing
      cases taken
      exact owned.push pushing
    · cases taken
  | read =>
    simp only [System.step] at taken
    split at taken
    · cases taken
      refine owned.moved rfl (fun t => rfl) (fun t unread => ?_) owned.gap owned.emptied owned.gone
      rcases not_answered.mp unread with same | member
      · cases same
      · exact owned.returning member
    · cases taken
  | destroy =>
    simp only [System.step] at taken
    split at taken
    · cases taken
      exact owned.destroy meets.2
    · cases taken
  | submit task =>
    simp only [System.step] at taken
    split at taken
    · rename_i member
      split_ifs at taken with accepts
      · cases taken
        refine owned.moved rfl (fun t => ?_) owned.unread owned.gap owned.emptied fun freed => ?_
        · have erased := count_erase_add member t
          simp only [count_owners, listed, count_append] at erased ⊢
          omega
        · have quiet := (owned.gone freed).1
          rw [accepts] at quiet
          cases quiet
      · cases taken
        exact owned
    · cases taken
  | enqueue task =>
    simp only [System.step] at taken
    split at taken
    · rename_i member
      cases taken
      exact owned.enqueue member
    · cases taken
  | answer task =>
    simp only [System.step] at taken
    split at taken
    · cases taken
      refine owned.moved rfl (fun t => rfl) (fun t unread => ?_) owned.gap owned.emptied owned.gone
      refine owned.unread t (not_answered.mpr ?_)
      exact (not_answered.mp unread).imp_right mem_of_mem_erase
    · cases taken
  | take task =>
    simp only [System.step] at taken
    split at taken
    · rename_i member
      cases taken
      exact owned.take member
    · cases taken
  | finish task =>
    simp only [System.step] at taken
    split at taken
    · rename_i member
      cases taken
      exact owned.finish member meets
    · cases taken
  | release task =>
    simp only [System.step] at taken
    split at taken
    · rename_i member
      cases taken
      refine owned.moved rfl (fun t => ?_) owned.unread owned.gap owned.emptied owned.gone
      have erased := count_erase_add member t
      simp only [lr_task_free, count_owners, listed] at erased ⊢
      omega
    · cases taken
  | stop =>
    cases taken
    exact owned.moved rfl (fun t => rfl) owned.unread owned.gap owned.emptied
      fun freed => ⟨rfl, (owned.gone freed).2⟩
  | terminate =>
    simp only [System.step] at taken
    split at taken
    · rename_i met
      cases taken
      exact owned.terminate met.2
    · cases taken
  | drain task =>
    simp only [System.step] at taken
    split at taken
    · rename_i met
      cases taken
      exact owned.drain met.2 meets
    · cases taken
  | freePool =>
    simp only [System.step] at taken
    split at taken
    · rename_i met
      cases taken
      exact owned.moved rfl (fun t => rfl) owned.unread owned.gap owned.emptied fun _ =>
        ⟨met.1, meets.1, meets.2, met.2.1, met.2.2⟩
    · cases taken

theorem owned_start : start.Owned where
  once _ := rfl
  unread t unread := absurd ⟨nofun, not_mem_nil⟩ unread
  gap := rfl
  emptied ended := by cases ended
  gone freed := by cases freed

theorem listed_mem_owners {t : Nat} (member : t ∈ s.listed) : t ∈ s.owners := by
  simp only [owners, mem_append]
  exact .inl (.inl (.inl (.inl (.inr member))))

theorem cursor_mem_owners {rest : List LR_SchedTask}
    (here : s.sched.rest = st :: rest) : st.task ∈ s.owners := by
  refine listed_mem_owners (mem_map_of_mem (mem_append_right _ ?_))
  rw [here]
  exact mem_cons_self

theorem Owned.pool_mem_owners (owned : s.Owned) {t : Nat} (unread : ¬s.Answered t) :
    t ∈ s.owners := by
  simp only [owners, mem_append]
  exact (owned.unread t unread).elim (fun queued => .inl (.inr queued)) .inr

/-- A step touches only tasks that someone owns. -/
theorem Owned.touches_mem_owners (ownership : s.Owned) {deed : Deed}
    (taken : (s.step deed).isSome) :
    ∀ t ∈ s.touches deed, t ∈ s.owners := by
  intro t touched
  have owner {tasks : List Nat} {task : Nat} (member : task ∈ tasks) (same : t ∈ [task])
      (owned : ∀ t ∈ tasks, t ∈ s.owners) : t ∈ s.owners :=
    owned t (mem_singleton.mp same ▸ member)
  cases deed with
  | create | schedule | schedule_delayed | cancel | process | stop | terminate | freePool =>
    cases touched
  | turn =>
    simp only [touches] at touched
    split at touched
    · rename_i now reading
      rcases turn_cases s.sched now with ⟨_, same⟩ | ⟨st, rest, here, ⟨_, same⟩ | ⟨_, _, same⟩ |
        ⟨_, _, same⟩ | ⟨_, same⟩⟩ <;> rw [same] at touched
      · cases touched
      · exact mem_singleton.mp touched ▸ cursor_mem_owners here
      · simp only at touched
        split at touched
        · exact mem_singleton.mp touched ▸ cursor_mem_owners here
        · cases touched
      · simp only at touched
        split at touched
        · exact mem_singleton.mp touched ▸ cursor_mem_owners here
        · cases touched
      · cases touched
    · cases touched
  | push =>
    simp only [owners, mem_append]
    exact .inl (.inl (.inl (.inr touched)))
  | read =>
    have reading : s.reading = some t := mem_toList.mp touched
    exact ownership.pool_mem_owners (not_answered.mpr (.inl reading))
  | answer task =>
    simp only [System.step] at taken
    split_ifs at taken with member
    · exact mem_singleton.mp touched ▸ ownership.pool_mem_owners (not_answered.mpr (.inr member))
    · cases taken
  | destroy =>
    obtain ⟨st, member, same⟩ := mem_map.mp touched
    exact listed_mem_owners (mem_map.mpr ⟨st, (mem_filter.mp member).1, same⟩)
  | submit task =>
    simp only [touches, System.step] at touched taken
    split at touched
    · split_ifs at taken with member
      · exact owner member touched fun t held => by simp [owners, held]
      · cases taken
    · cases touched
  | enqueue task | take task | finish task | release task =>
    simp only [System.step] at taken
    split_ifs at taken with member
    · exact owner member touched fun t here => by simp [owners, here]
    · cases taken
  | drain task =>
    simp only [System.step] at taken
    split_ifs at taken with met
    · exact owner met.2 touched fun t here => by simp [owners, here]
    · cases taken

theorem Owned.readsLive (owned : s.Owned) (deed : Deed) : s.ReadsLive deed :=
  fun taken t touched => owned.live (owned.touches_mem_owners taken t touched)

def Over (s : System) : Prop :=
  s.destroyed = true ∧ s.freed = true ∧ s.held = []

/-- Each task has one owner until it is freed, and is freed once.  A task that can be dispatched has
not been freed. -/
structure FreesOnce (s : System) : Prop where
  owner : ∀ t < s.created, s.frees t + s.owners.count t = 1
  all : s.Over → ∀ t < s.created, s.frees t = 1
  again : ∀ st ∈ s.sched.task_head, st.cancelled = false → s.frees st.task = 0

theorem Owned.freesOnce (owned : s.Owned) : s.FreesOnce where
  owner t bound := by
    have once := owned.once t
    rwa [if_pos bound] at once
  all ended t bound := by
    have once := owned.once t
    have quiet := owned.gone ended.2.1
    have nobody : s.owners = [] := by
      rw [owners, ended.2.2, listed, (owned.emptied ended.1).2, quiet.2.1, quiet.2.2.1,
        quiet.2.2.2.1, quiet.2.2.2.2]
      rfl
    rwa [if_pos bound, nobody, count_nil] at once
  again st member _ := owned.live (listed_mem_owners (mem_map_of_mem member))

end System

end LRJS.Scheduling
