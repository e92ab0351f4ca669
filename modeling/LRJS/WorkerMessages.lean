import LRJS.Workers

/-!
# The messages of workers

The queues of each worker hold what its entry in the account expects, and a
poll leaves nothing old behind it in the workers that it has passed.
-/

namespace LRJS.Workers

open Function List Option Entry

/-- `worker_rt` is set. -/
def WorkerAt.Alive (pc : WorkerAt) : Prop :=
  pc.Made ∧ pc ≠ .start ∧ pc ≠ .finish ∧ pc ≠ .gone

/-- Behind the end of the in queue. -/
def WorkerAt.Leaving (pc : WorkerAt) : Prop :=
  pc = .free ∨ pc = .clear ∨ pc = .finish

def WorkerAt.Ended (pc : WorkerAt) : Prop :=
  pc = .unstarted ∨ pc.Leaving ∨ pc = .gone

instance (pc : WorkerAt) : Decidable pc.Alive :=
  inferInstanceAs (Decidable (_ ∧ _))

instance (pc : WorkerAt) : Decidable pc.Leaving :=
  inferInstanceAs (Decidable (_ ∨ _))

instance (pc : WorkerAt) : Decidable pc.Ended :=
  inferInstanceAs (Decidable (_ ∨ _))

structure Entry.Agrees (entry : Entry) (wd : LR_WorkerData) : Prop where
  parent : wd.pc ≠ .unborn → entry.parent = some wd.parent_rt
  handlers : ∀ handler, entry.handlers handler = wd.handler handler
  outbound : entry.outbound.map (fun sent => some sent.1) = wd.out_queue
  inbound : entry.stopped = false → entry.inbound.map some = wd.in_queue
  stopped : entry.stopped = true → wd.pc.Ended
  told : wd.running = false ∨ wd.should_stop = true ∨ wd.pc = .drain ∨ wd.pc.Leaving →
    entry.terminated = true
  runtime : wd.pc.Alive → ∃ rt, wd.worker_rt = some rt
  silent : ¬wd.pc.Made → wd.out_queue = []
  room : wd.out_queue.length ≤ capacity

variable {entry : Entry} {wd : LR_WorkerData}

theorem Entry.Agrees.running
    (agrees : entry.Agrees wd) (runs : ¬wd.pc.Ended) : entry.stopped = false := by
  cases stopped : entry.stopped with
  | false => rfl
  | true => exact absurd (agrees.stopped stopped) runs

theorem Entry.Agrees.goto {pc : WorkerAt}
    (agrees : entry.Agrees wd) (alive : wd.pc.Alive) (runs : ¬wd.pc.Ended) (goes : pc.Alive)
    (told : pc = .drain ∨ pc.Leaving → entry.terminated = true) : entry.Agrees (wd.goto pc) where
  parent _ := agrees.parent alive.1.1
  handlers handler := (agrees.handlers handler).trans (by cases handler <;> rfl)
  outbound := agrees.outbound
  inbound := agrees.inbound
  stopped stopped := absurd (agrees.stopped stopped) runs
  told reason := by
    rcases reason with dead | stop | there
    · exact agrees.told (.inl dead)
    · exact agrees.told (.inr (.inl stop))
    · exact told there
  runtime _ := agrees.runtime alive
  silent dead := absurd goes.1 dead
  room := agrees.room

variable {wire : LR_WireValue} {rest : List (Option LR_WireValue)}

theorem Entry.Agrees.take (agrees : entry.Agrees wd) (alive : wd.pc.Alive) (runs : ¬wd.pc.Ended)
    (queue : wd.in_queue = some wire :: rest) :
    entry.inbound.head? = some wire ∧
      (entry.take .toWorker).Agrees { wd.goto .handle with in_queue := rest } := by
  have inbound := agrees.inbound (agrees.running runs)
  rw [queue] at inbound
  obtain ⟨first, later, same, head, tail⟩ := map_eq_cons_iff.mp inbound
  have goes : entry.Agrees (wd.goto .handle) := agrees.goto alive runs (by decide)
    (by simp [WorkerAt.Leaving])
  refine ⟨?_, goes.parent, goes.handlers, goes.outbound, fun _ => ?_, goes.stopped, goes.told,
    goes.runtime, goes.silent, goes.room⟩
  · rw [same, head?_cons]
    exact head
  · rw [Entry.take, same]
    exact tail

theorem Entry.Agrees.stop
    (agrees : entry.Agrees wd) (alive : wd.pc.Alive) (drain : wd.pc = .drain) :
    Entry.Agrees { entry with inbound := [], stopped := true }
      { wd.goto .free with in_queue := [] } where
  parent _ := agrees.parent alive.1.1
  handlers handler := (agrees.handlers handler).trans (by cases handler <;> rfl)
  outbound := agrees.outbound
  inbound := nofun
  stopped _ := .inr (.inl (.inl rfl))
  told _ := agrees.told (.inr (.inr (.inl drain)))
  runtime _ := agrees.runtime alive
  silent dead := absurd ⟨nofun, nofun, nofun⟩ dead
  room := agrees.room

/-- The last steps of a thread. -/
theorem Entry.Agrees.leave {pc : WorkerAt} {worker_rt : Option LR_Runtime} {running : Bool}
    (agrees : entry.Agrees wd) (leaves : wd.pc.Leaving) (made : pc.Made) (ended : pc.Ended)
    (kept : pc.Alive → ∃ rt, worker_rt = some rt) :
    entry.Agrees { wd.goto pc with worker_rt := worker_rt, running := running } where
  parent _ := agrees.parent fun unborn => by rw [unborn] at leaves; exact absurd leaves (by decide)
  handlers handler := (agrees.handlers handler).trans (by cases handler <;> rfl)
  outbound := agrees.outbound
  inbound := agrees.inbound
  stopped _ := ended
  told _ := agrees.told (.inr (.inr (.inr leaves)))
  runtime := kept
  silent dead := absurd made dead
  room := agrees.room

theorem Entry.Agrees.blank (k : Nat) :
    (law.opening.entries k).Agrees (.new 0 (.host 0) .unborn) where
  parent born := absurd rfl born
  handlers handler := by cases handler <;> rfl
  outbound := rfl
  inbound _ := rfl
  stopped := nofun
  told reason := by
    rcases reason with dead | stop | there
    · cases dead
    · cases stop
    · exact absurd there (by decide)
  runtime alive := absurd rfl alive.1.1
  silent _ := rfl
  room := Nat.zero_le _

theorem Entry.Agrees.create {entry : Entry}
    (agrees : entry.Agrees (.new 0 (.host 0) .unborn)) (id : Int) (rt : LR_Runtime) :
    Entry.Agrees { entry with parent := some rt } { LR_WorkerData.new 0 rt .create with id := id }
    where
  parent _ := rfl
  handlers handler := (agrees.handlers handler).trans (by cases handler <;> rfl)
  outbound := agrees.outbound
  inbound := agrees.inbound
  stopped stopped := absurd (agrees.stopped stopped) (by decide)
  told reason := by
    rcases reason with dead | stop | there
    · cases dead
    · cases stop
    · exact absurd (show WorkerAt.create = .drain ∨ WorkerAt.create.Leaving from there) (by decide)
  runtime alive := absurd rfl alive.1.2.1
  silent _ := rfl
  room := Nat.zero_le _

section

variable (agrees : entry.Agrees wd)
include agrees

theorem Entry.Agrees.launch (create : wd.pc = .create) : entry.Agrees (wd.goto .start) where
  parent _ := agrees.parent (by rw [create]; nofun)
  handlers handler := (agrees.handlers handler).trans (by cases handler <;> rfl)
  outbound := agrees.outbound
  inbound := agrees.inbound
  stopped stopped := absurd (agrees.stopped stopped) (by rw [create]; decide)
  told reason := by
    rcases reason with dead | stop | there
    · exact agrees.told (.inl dead)
    · exact agrees.told (.inr (.inl stop))
    · exact absurd there (by simp [LR_WorkerData.goto, WorkerAt.Leaving])
  runtime alive := absurd rfl alive.2.1
  silent dead := absurd ⟨nofun, nofun, nofun⟩ dead
  room := agrees.room

theorem Entry.Agrees.boot (rt : LR_Runtime) (start : wd.pc = .start) :
    entry.Agrees { wd.goto .script with worker_rt := some rt } where
  parent _ := agrees.parent (by rw [start]; nofun)
  handlers handler := (agrees.handlers handler).trans (by cases handler <;> rfl)
  outbound := agrees.outbound
  inbound := agrees.inbound
  stopped stopped := absurd (agrees.stopped stopped) (by rw [start]; decide)
  told reason := by
    rcases reason with dead | stop | there
    · exact agrees.told (.inl dead)
    · exact agrees.told (.inr (.inl stop))
    · exact absurd there (by simp [LR_WorkerData.goto, WorkerAt.Leaving])
  runtime _ := ⟨rt, rfl⟩
  silent dead := absurd ⟨nofun, nofun, nofun⟩ dead
  room := agrees.room

theorem Entry.Agrees.fail {pc : WorkerAt} {running : Bool} (born : wd.pc ≠ .unborn)
    (ends : pc = .unstarted ∧ wd.pc = .create ∨ pc = .gone) :
    Entry.Agrees { entry with inbound := [], terminated := true, stopped := true }
      { wd.goto pc with running := running } where
  parent _ := agrees.parent born
  handlers handler := (agrees.handlers handler).trans (by cases handler <;> rfl)
  outbound := agrees.outbound
  inbound := nofun
  stopped _ := by
    cases ends with
    | inl create => exact .inl create.1
    | inr gone => exact .inr (.inr gone)
  told _ := rfl
  runtime alive := by
    cases ends with
    | inl create => exact absurd create.1 alive.1.2.2
    | inr gone => exact absurd gone alive.2.2.2
  silent dead := by
    cases ends with
    | inl create => exact agrees.silent (by rw [create.2]; decide)
    | inr gone => exact absurd ⟨by rw [gone]; nofun, by rw [gone]; nofun, by rw [gone]; nofun⟩ dead
  room := agrees.room

theorem Entry.Agrees.setHandler (handler : Handler) (present : Bool) :
    Entry.Agrees { entry with handlers := update entry.handlers handler present }
      (wd.setHandler present handler) := by
  have handlers (other : Handler) : update entry.handlers handler present other =
      (wd.setHandler present handler).handler other := by
    by_cases same : other = handler
    · rw [same, update_self]
      cases handler <;> rfl
    · rw [update_of_ne same, agrees.handlers other]
      cases handler <;> cases other <;> first | rfl | exact absurd rfl same
  cases handler <;>
    exact ⟨agrees.parent, handlers, agrees.outbound, agrees.inbound, agrees.stopped, agrees.told,
      agrees.runtime, agrees.silent, agrees.room⟩

theorem Entry.Agrees.send (made : wd.pc.Made) (room : wd.out_queue.length < capacity) :
    (entry.accept wire .toParent).Agrees
      { wd with out_queue := wd.out_queue ++ [some wire] } where
  parent := agrees.parent
  handlers handler := (agrees.handlers handler).trans (by cases handler <;> rfl)
  outbound := by
    rw [accept, map_append, agrees.outbound]
    rfl
  inbound := agrees.inbound
  stopped := agrees.stopped
  told := agrees.told
  runtime := agrees.runtime
  silent dead := absurd made dead
  room := by
    rw [length_append]
    exact room

theorem Entry.Agrees.receive :
    (entry.accept wire .toWorker).Agrees { wd with in_queue := wd.in_queue ++ [some wire] } := by
  have handlers (handler : Handler) : entry.handlers handler =
      LR_WorkerData.handler { wd with in_queue := wd.in_queue ++ [some wire] } handler :=
    (agrees.handlers handler).trans (by cases handler <;> rfl)
  rw [accept]
  split_ifs with ended
  · exact ⟨agrees.parent, handlers, agrees.outbound,
      fun running => absurd (running.symm.trans ended) nofun, agrees.stopped, agrees.told,
      agrees.runtime, agrees.silent, agrees.room⟩
  · refine ⟨agrees.parent, handlers, agrees.outbound, fun running => ?_, agrees.stopped,
      agrees.told, agrees.runtime, agrees.silent, agrees.room⟩
    rw [map_append, agrees.inbound running]
    rfl

theorem Entry.Agrees.terminate :
    Entry.Agrees { entry with terminated := true }
      { wd with should_stop := true, running := false } where
  parent := agrees.parent
  handlers handler := (agrees.handlers handler).trans (by cases handler <;> rfl)
  outbound := agrees.outbound
  inbound := agrees.inbound
  stopped := agrees.stopped
  told _ := rfl
  runtime := agrees.runtime
  silent := agrees.silent
  room := agrees.room

theorem Entry.Agrees.mark (rt : LR_Runtime) : (entry.mark rt).Agrees wd := by
  unfold Entry.mark
  split
  · refine ⟨agrees.parent, agrees.handlers, ?_, agrees.inbound, agrees.stopped, agrees.told,
      agrees.runtime, agrees.silent, agrees.room⟩
    rw [List.map_map]
    exact agrees.outbound
  · exact agrees

end

theorem Entry.mark_parent (entry : Entry) (rt : LR_Runtime) :
    (entry.mark rt).parent = entry.parent := by
  unfold mark
  split <;> rfl

theorem Entry.Agrees.takeOut (agrees : entry.Agrees wd)
    (queue : wd.out_queue = some wire :: rest) :
    entry.first .toParent = some wire ∧
      (entry.take .toParent).Agrees { wd with out_queue := rest } := by
  have outbound := agrees.outbound
  rw [queue] at outbound
  obtain ⟨first, later, same, head, tail⟩ := map_eq_cons_iff.mp outbound
  have room := agrees.room
  rw [queue, length_cons] at room
  refine ⟨?_, agrees.parent, fun handler => ?_, ?_, agrees.inbound, agrees.stopped, agrees.told,
    agrees.runtime, fun dead => ?_, Nat.le_of_succ_le room⟩
  · rw [Entry.first, same]
    exact head
  · exact (agrees.handlers handler).trans (by cases handler <;> rfl)
  · rw [Entry.take, same]
    exact tail
  · have silent := agrees.silent dead
    rw [queue] at silent
    cases silent

/-! ## All workers -/

namespace State

structure Polling (s : State) (rt : LR_Runtime) (poll : Poll) : Prop where
  children : ∀ k ∈ poll.remaining,
    (s.workers k).pc ≠ .unborn ∧ (s.workers k).parent_rt = rt
  passed : ∀ k, (s.account.entries k).parent = some rt → k ∉ poll.remaining →
    ∀ sent ∈ (s.account.entries k).outbound, sent.2 = false
  taken : s.account.taken rt = poll.taken
  bounded : ∀ k ∈ poll.remaining.head?,
    (s.workers k).out_queue.length + poll.taken ≤ capacity

/-- No other worker has the runtime. -/
def Owns (s : State) (k : Nat) (worker_rt : Option LR_Runtime) : Prop :=
  ∀ rt ∈ worker_rt, ∀ other, (s.workers other).worker_rt = some rt → other = k

structure Kept (s : State) : Prop where
  lawful : law.Lawful s.journal
  fresh : ∀ k, s.created ≤ k → s.workers k = .new 0 (.host 0) .unborn
  known : ∀ k ∈ s.registry, (s.workers k).pc ≠ .unborn
  registered : ∀ k, (s.workers k).pc = .create ∨ (s.workers k).pc.Made → k ∈ s.registry
  agrees : ∀ k, (s.account.entries k).Agrees (s.workers k)
  posting : ∀ found ∈ s.posting, found.1 = found.2 ∧ (s.workers found.1).pc.Made
  owned : ∀ k, s.Owns k (s.workers k).worker_rt

def PollsKept (s : State) : Prop :=
  ∀ rt poll, s.polls rt = some poll → s.Polling rt poll

variable {s s' : State}

/-! ## Changes of one worker -/

/-- The worker `k` becomes `wd`, and its entry changes accordingly. -/
structure Changes (s s' : State) (k : Nat) (wd : LR_WorkerData) (entry : Entry) : Prop where
  workers : s'.workers = Function.update s.workers k wd
  entries : s'.account.entries = Function.update s.account.entries k entry
  lawful : law.Lawful s'.journal
  known : ∀ other ∈ s'.registry, other ∈ s.registry
  registered : ∀ other ∈ s.registry, other ≠ k ∨ wd.pc.Made → other ∈ s'.registry
  created : s'.created = s.created
  posting : ∀ found ∈ s'.posting, found ∈ s.posting
  before : (s.workers k).pc = .create ∨ (s.workers k).pc.Made
  after : wd.pc.Made ∨ wd.pc = .unstarted ∧ (s.workers k).pc = .create
  agrees : entry.Agrees wd
  owns : s.Owns k wd.worker_rt

variable {k : Nat} {wd : LR_WorkerData} {entry : Entry}

theorem Changes.born (changes : Changes s s' k wd entry) : wd.pc ≠ .unborn := by
  intro unborn
  cases changes.after with
  | inl made => exact made.1 unborn
  | inr failed => rw [unborn] at failed; cases failed.1

theorem WorkerAt.born {pc : WorkerAt} (started : pc = .create ∨ pc.Made) : pc ≠ .unborn := by
  intro unborn
  cases started with
  | inl create => rw [create] at unborn; cases unborn
  | inr made => exact made.1 unborn

/-- A step that changes one worker keeps the invariant of the others. -/
theorem Kept.changes (kept : s.Kept) (changes : Changes s s' k wd entry) : s'.Kept where
  lawful := changes.lawful
  fresh := by
    intro other above
    rw [changes.created] at above
    have different : other ≠ k := by
      intro same
      have blank := kept.fresh other above
      rw [same] at blank
      exact WorkerAt.born changes.before (by rw [blank]; rfl)
    rw [changes.workers, update_of_ne different]
    exact kept.fresh other above
  known := by
    intro other member
    rw [changes.workers]
    by_cases same : other = k
    · rw [same, update_self]
      exact changes.born
    · rw [update_of_ne same]
      exact kept.known other (changes.known other member)
  registered := by
    intro other started
    by_cases same : other = k
    · rw [same, changes.workers, update_self] at started
      rw [same]
      refine changes.registered k (kept.registered k changes.before) (.inr ?_)
      cases changes.after with
      | inl made => exact made
      | inr failed =>
        rw [failed.1] at started
        exact absurd started (by decide)
    · rw [changes.workers, update_of_ne same] at started
      exact changes.registered other (kept.registered other started) (.inl same)
  agrees := by
    intro other
    rw [changes.workers, changes.entries]
    by_cases same : other = k
    · rw [same, update_self, update_self]
      exact changes.agrees
    · rw [update_of_ne same, update_of_ne same]
      exact kept.agrees other
  posting := by
    intro found member
    obtain ⟨meant, made⟩ := kept.posting found (changes.posting found member)
    refine ⟨meant, ?_⟩
    rw [changes.workers]
    by_cases same : found.1 = k
    · rw [same, update_self]
      rw [same] at made
      cases changes.after with
      | inl made' => exact made'
      | inr failed =>
        rw [failed.2] at made
        exact absurd made (by decide)
    · rw [update_of_ne same]
      exact made
  owned := by
    intro one rt here other there
    rw [changes.workers] at here there
    by_cases same : one = k
    · rw [same, update_self] at here
      by_cases same' : other = k
      · rw [same, same']
      · rw [update_of_ne same'] at there
        exact absurd (changes.owns rt here other there) same'
    · rw [update_of_ne same] at here
      by_cases same' : other = k
      · rw [same', update_self] at there
        exact absurd (changes.owns rt there one here) same
      · rw [update_of_ne same'] at there
        exact kept.owned one rt here other there

structure Respects (s : State) (k : Nat) (wd : LR_WorkerData) (entry : Entry) : Prop where
  parent_rt : wd.parent_rt = (s.workers k).parent_rt
  parent : entry.parent = (s.account.entries k).parent
  sent : ∀ sent ∈ entry.outbound, sent.2 = true → sent ∈ (s.account.entries k).outbound

variable {rt : LR_Runtime}

/-- A step that respects a poll under way keeps its count. -/
theorem Polling.changes {poll : Poll} (polling : s.Polling rt poll)
    (taken : Nat) (changes : Changes s s' k wd entry)
    (respects : Respects s k wd entry) (counted : s'.account.taken rt = taken)
    (which : taken = poll.taken ∨ poll.remaining.head? = some k)
    (bounded : poll.remaining.head? = some k → wd.out_queue.length + taken ≤ capacity) :
    s'.Polling rt { poll with taken := taken } where
  children := by
    intro other member
    rw [changes.workers]
    by_cases same : other = k
    · rw [same, update_self]
      rw [same] at member
      exact ⟨changes.born, respects.parent_rt.trans (polling.children k member).2⟩
    · rw [update_of_ne same]
      exact polling.children other member
  passed := by
    intro other parent passed sent member
    rw [changes.entries] at parent member
    by_cases same : other = k
    · rw [same, update_self] at parent member
      rw [same] at passed
      cases old : sent.2 with
      | false => rfl
      | true =>
        rw [respects.parent] at parent
        have never := polling.passed k parent passed sent (respects.sent sent member old)
        rw [old] at never
        cases never
    · rw [update_of_ne same] at parent member
      exact polling.passed other parent passed sent member
  taken := counted
  bounded := by
    intro other head
    rw [changes.workers]
    by_cases same : other = k
    · rw [same, update_self]
      rw [same] at head
      exact bounded head
    · rw [update_of_ne same]
      cases which with
      | inl unchanged =>
        rw [show Poll.taken { poll with taken := taken } = poll.taken from unchanged]
        exact polling.bounded other head
      | inr here => exact absurd (some.inj (head.symm.trans here)) same

theorem takenOf_eq {poll : Poll} (here : s.polls rt = some poll)
    (polling : s.Polling rt poll) (head : poll.remaining.head? = some k) :
    s.takenOf k = poll.taken := by
  have parent := (polling.children k (mem_of_mem_head? head)).2
  rw [takenOf, parent, here]
  exact if_pos head

theorem PollsKept.changes (polls : s.PollsKept)
    (changes : Changes s s' k wd entry) (respects : Respects s k wd entry)
    (taken : s'.account.taken = s.account.taken) (same : s'.polls = s.polls)
    (room : wd.out_queue.length + s.takenOf k ≤ capacity) : s'.PollsKept := by
  intro rt poll here
  rw [same] at here
  have polling := polls rt poll here
  refine polling.changes poll.taken changes respects
    ((congrFun taken rt).trans polling.taken) (.inl rfl) fun head => ?_
  rw [← takenOf_eq here polling head]
  exact room

def Holds (s : State) : Prop :=
  s.Kept ∧ s.PollsKept

section

variable (holds : s.Holds)
include holds

theorem Holds.room (k : Nat) :
    (s.workers k).out_queue.length + s.takenOf k ≤ capacity := by
  have room := (holds.1.agrees k).room
  rw [takenOf]
  split
  · exact room
  · rename_i poll here
    split_ifs with head
    · exact (holds.2 _ poll here).bounded k head
    · exact room

theorem Holds.setWorker (before : (s.workers k).pc = .create ∨ (s.workers k).pc.Made)
    (after : wd.pc.Made) (parent_rt : wd.parent_rt = (s.workers k).parent_rt)
    (out_queue : wd.out_queue = (s.workers k).out_queue)
    (agrees : (s.account.entries k).Agrees wd) (owns : s.Owns k wd.worker_rt) :
    (s.setWorker k wd).Holds := by
  have changes : Changes s (s.setWorker k wd) k wd (s.account.entries k) :=
    { workers := rfl
      entries := (update_eq_self k s.account.entries).symm
      lawful := holds.1.lawful
      known := fun _ member => member
      registered := fun _ member _ => member
      created := rfl
      posting := fun _ member => member
      before := before
      after := .inl after
      agrees := agrees
      owns := owns }
  have respects : Respects s k wd (s.account.entries k) :=
    ⟨parent_rt, rfl, fun _ member _ => member⟩
  refine ⟨holds.1.changes changes, holds.2.changes changes respects rfl rfl ?_⟩
  rw [out_queue]
  exact holds.room k

theorem Holds.setWorker_note (note : Note) (posting : List (Nat × Nat))
    (allowed : s.account.Allows note)
    (entries : (s.account.record note).entries = Function.update s.account.entries k entry)
    (taken : (s.account.record note).taken = s.account.taken)
    (before : (s.workers k).pc = .create ∨ (s.workers k).pc.Made) (after : wd.pc.Made)
    (agrees : entry.Agrees wd) (respects : Respects s k wd entry)
    (room : wd.out_queue.length + s.takenOf k ≤ capacity)
    (fewer : ∀ found ∈ posting, found ∈ s.posting)
    (kept : wd.worker_rt = (s.workers k).worker_rt) :
    (State.note { s.setWorker k wd with posting := posting } note).Holds := by
  have account : (State.note { s.setWorker k wd with posting := posting } note).account =
      s.account.record note :=
    law.account_note ..
  have changes : Changes s (State.note { s.setWorker k wd with posting := posting } note) k wd
      entry :=
    { workers := rfl
      entries := by rw [account, entries]
      lawful := holds.1.lawful.note allowed
      known := fun _ member => member
      registered := fun _ member _ => member
      created := rfl
      posting := fewer
      before := before
      after := .inl after
      agrees := agrees
      owns := kept ▸ holds.1.owned k }
  refine ⟨holds.1.changes changes, holds.2.changes changes respects ?_ rfl room⟩
  rw [account, taken]

theorem Holds.note (note : Note) (posting : List (Nat × Nat)) (allowed : s.account.Allows note)
    (same : s.account.record note = s.account) (fewer : ∀ found ∈ posting, found ∈ s.posting) :
    (State.note { s with posting := posting } note).Holds := by
  have account : (State.note { s with posting := posting } note).account = s.account :=
    (law.account_note ..).trans same
  have kept := holds.1
  refine ⟨⟨kept.lawful.note allowed, kept.fresh, kept.known, kept.registered, ?_, ?_, kept.owned⟩,
    ?_⟩
  · intro k
    rw [account]
    exact kept.agrees k
  · intro found member
    exact kept.posting found (fewer found member)
  · intro rt poll here
    have polling := holds.2 rt poll here
    refine ⟨polling.children, ?_, ?_, polling.bounded⟩
    · rw [account]
      exact polling.passed
    · rw [account]
      exact polling.taken

/-! ## The thread of a worker -/

/-- A worker takes the oldest message of its queue. -/
theorem Holds.receive (here : (s.workers k).pc = .receive) :
    (s.receive k).Holds := by
  have agrees := holds.1.agrees k
  have alive : (s.workers k).pc.Alive := by
    rw [here]
    decide
  have runs : ¬(s.workers k).pc.Ended := by
    rw [here]
    decide
  have inbound := agrees.inbound (agrees.running runs)
  simp only [State.receive]
  split
  · rename_i empty
    rw [empty] at inbound
    exact holds.setWorker_note (.idle k) s.posting
      (map_eq_nil_iff.mp inbound) (update_eq_self k _).symm rfl (.inr alive.1)
      ⟨nofun, nofun, nofun⟩ (agrees.goto alive runs (by decide)
      fun there => absurd there (by decide))
      ⟨rfl, rfl, fun _ member _ => member⟩ (holds.room k) (fun _ member => member) rfl
  · rename_i rest unserialized
    rw [unserialized] at inbound
    obtain ⟨first, later, same, head, tail⟩ := map_eq_cons_iff.mp inbound
    cases head
  · rename_i wire rest queue
    obtain ⟨head, takes⟩ := agrees.take alive runs queue
    exact holds.setWorker_note (.took k .toWorker wire _) s.posting
      ⟨head, (agrees.handlers .onmessage).symm, nofun⟩ rfl rfl (.inr alive.1)
      ⟨nofun, nofun, nofun⟩ takes ⟨rfl, rfl, fun _ member _ => member⟩ (holds.room k)
      (fun _ member => member) rfl

/-- A step of a worker's thread holds to the journal. -/
theorem Holds.thread (taken : s.lr_worker_thread_fn k = some s') : s'.Holds := by
  have agrees := holds.1.agrees k
  have loops {pc pc' : WorkerAt} (here : (s.workers k).pc = pc) (alive : pc.Alive)
      (runs : ¬pc.Ended) (goes : pc'.Alive)
      (told : pc' = .drain ∨ pc'.Leaving → (s.account.entries k).terminated = true) :
      (s.setWorker k ((s.workers k).goto pc')).Holds := by
    rw [← here] at alive runs
    exact holds.setWorker (.inr alive.1) goes.1 rfl rfl (agrees.goto alive runs goes told)
      (holds.1.owned k)
  have leaves {pc : WorkerAt} (pc' : WorkerAt) {worker_rt : Option LR_Runtime} {running : Bool}
      (here : (s.workers k).pc = pc) (leaving : pc.Leaving) (made : pc'.Made) (ended : pc'.Ended)
      (kept : pc'.Alive → ∃ rt, worker_rt = some rt) (owns : s.Owns k worker_rt) :
      (s.setWorker k { (s.workers k).goto pc' with
        worker_rt := worker_rt, running := running }).Holds := by
    rw [← here] at leaving
    have before : (s.workers k).pc.Made := by
      rcases leaving with free | clear | finish
      · rw [free]; decide
      · rw [clear]; decide
      · rw [finish]; decide
    exact holds.setWorker (.inr before) made rfl rfl
      (agrees.leave leaving made ended kept) owns
  simp only [lr_worker_thread_fn] at taken
  split at taken
  case h_1 here =>
    split at taken
    · cases taken
      exact loops here (by decide) (by decide) (by decide) fun there => absurd there (by decide)
    · cases taken
  case h_2 here =>
    split at taken
    · cases taken
      exact loops here (by decide) (by decide) (by decide) fun there => absurd there (by decide)
    · cases taken
  case h_3 here =>
    split_ifs at taken with ends
    · cases taken
      exact loops here (by decide) (by decide) (by decide) fun there => absurd there (by decide)
    · cases taken
      refine loops here (by decide) (by decide) (by decide) fun _ => agrees.told ?_
      cases running : (s.workers k).running with
      | false => exact .inl rfl
      | true =>
        cases stop : (s.workers k).should_stop with
        | false => exact absurd ⟨running, stop⟩ ends
        | true => exact .inr (.inl rfl)
  case h_4 here =>
    cases taken
    exact holds.receive here
  case h_5 here =>
    cases taken
    have alive : (s.workers k).pc.Alive := by
      rw [here]
      decide
    exact holds.setWorker_note (.stopped k) s.posting
      (agrees.told (.inr (.inr (.inl here)))) rfl rfl (.inr alive.1)
      ⟨nofun, nofun, nofun⟩ (agrees.stop alive here) ⟨rfl, rfl, fun _ member _ => member⟩
      (holds.room k) (fun _ member => member) rfl
  case h_6 here =>
    cases taken
    exact leaves .clear here (by decide) (by decide) (by decide)
      (fun _ => agrees.runtime (by rw [here]; decide)) (holds.1.owned k)
  case h_7 here =>
    cases taken
    exact leaves .finish here (by decide) (by decide) (by decide)
      (fun alive => absurd alive (by decide)) nofun
  case h_8 here =>
    cases taken
    exact leaves .gone here (by decide) (by decide) (by decide)
      (fun alive => absurd alive (by decide)) (holds.1.owned k)
  all_goals cases taken

end

/-! ## Beginnings and ends -/

theorem mem_eraseP_of_find {p : Nat → Bool} {other : Nat} {registry : List Nat}
    (found : registry.find? p = some k) (different : other ≠ k) (member : other ∈ registry) :
    other ∈ registry.eraseP p := by
  obtain ⟨_, before, after, rfl, none⟩ := find?_eq_some_iff_append.mp found
  have holds : p k = true := find?_some found
  rw [eraseP_append_right _ (fun other member => by simpa using none other member),
    eraseP_cons_of_pos holds]
  cases mem_append.mp member with
  | inl early => exact mem_append_left _ early
  | inr late => exact mem_append_right _ ((mem_cons.mp late).resolve_left different)

section

variable (holds : s.Holds)
include holds

theorem Holds.unstarted (create : (s.workers k).pc = .create) (addressed : s.Addressed k) :
    (s.pthread_create k false).Holds := by
  have agrees := holds.1.agrees k
  have account : (s.pthread_create k false).account = s.account.record (.failed k) :=
    law.account_note ..
  have changes : Changes s (s.pthread_create k false) k ((s.workers k).goto .unstarted)
      { s.account.entries k with inbound := [], terminated := true, stopped := true } :=
    { workers := rfl
      entries := by
        rw [account]
        rfl
      lawful := holds.1.lawful.note trivial
      known := fun _ member => mem_of_mem_eraseP member
      registered := fun other member which => by
        refine mem_eraseP_of_find addressed (which.resolve_right fun made => ?_) member
        exact made.2.2 rfl
      created := rfl
      posting := fun _ member => member
      before := .inl create
      after := .inr ⟨rfl, create⟩
      agrees := agrees.fail (by rw [create]; nofun) (.inl ⟨rfl, create⟩)
      owns := holds.1.owned k }
  refine ⟨holds.1.changes changes, holds.2.changes changes ⟨rfl, rfl, fun _ member _ => member⟩ ?_
    rfl (holds.room k)⟩
  rw [account]
  rfl

theorem Holds.pthread_create {succeeds : Bool} (create : (s.workers k).pc = .create)
    (addressed : succeeds = false → s.Addressed k) :
    (s.pthread_create k succeeds).Holds := by
  cases succeeds with
  | false => exact holds.unstarted create (addressed rfl)
  | true =>
    exact holds.setWorker (.inl create) ⟨nofun, nofun, nofun⟩ rfl rfl
      ((holds.1.agrees k).launch create) (holds.1.owned k)

theorem Holds.lr_runtime_new {address : Option Nat} (start : (s.workers k).pc = .start)
    (met : Meets s (.lr_runtime_new k address)) : (s.lr_runtime_new k address).Holds := by
  have agrees := holds.1.agrees k
  have made : (s.workers k).pc.Made := by
    rw [start]
    decide
  cases address with
  | none =>
    exact holds.setWorker_note (.failed k) s.posting trivial rfl rfl
      (.inr made) ⟨nofun, nofun, nofun⟩ (agrees.fail made.1 (.inr rfl))
      ⟨rfl, rfl, fun _ member _ => member⟩ (holds.room k) (fun _ member => member) rfl
  | some address =>
    refine holds.setWorker (.inr made) ⟨nofun, nofun, nofun⟩ rfl rfl (agrees.boot _ start) ?_
    intro rt new other there
    cases new
    by_cases born : other < s.created
    · exact absurd there (met other born).1
    · rw [holds.1.fresh other (Nat.le_of_not_lt born)] at there
      cases there

/-! ## Messages -/

theorem Holds.send {wire : LR_WireValue} (made : (s.workers k).pc.Made)
    (agrees : (s.account.entries k).Agrees wd) (made' : wd.pc.Made)
    (parent_rt : wd.parent_rt = (s.workers k).parent_rt)
    (out_queue : wd.out_queue = (s.workers k).out_queue)
    (kept : wd.worker_rt = (s.workers k).worker_rt) (room : s.HasRoom k) :
    ((s.setWorker k { wd with out_queue := wd.out_queue ++ [some wire] }).note
      (.accepted k .toParent wire)).Holds := by
  have fits : wd.out_queue.length + s.takenOf k < capacity := by
    rw [out_queue]
    exact room
  refine holds.setWorker_note (.accepted k .toParent wire) s.posting trivial
    rfl rfl (.inr made) made' (agrees.send made' (by omega)) ⟨parent_rt, rfl, ?_⟩ ?_
    (fun _ member => member) kept
  · intro sent member old
    rw [accept, mem_append, mem_singleton] at member
    cases member with
    | inl before => exact before
    | inr new => rw [new] at old; cases old
  · rw [length_append, length_singleton]
    omega

theorem Holds.scriptFails {err : Option String} {allocates : Bool}
    (script : (s.workers k).pc = .script)
    (room : allocates = true → (s.workers k).out_queue.length < capacity → s.HasRoom k) :
    (s.scriptFails k err allocates).Holds := by
  have alive : (s.workers k).pc.Alive := by
    rw [script]
    decide
  have agrees : (s.account.entries k).Agrees ((s.workers k).goto .check) :=
    (holds.1.agrees k).goto alive (by rw [script]; decide) (by decide)
      fun there => absurd there (by decide)
  simp only [State.scriptFails]
  split_ifs with fits
  · exact holds.send alive.1 agrees ⟨nofun, nofun, nofun⟩ rfl rfl rfl (room fits.1 fits.2)
  · exact holds.setWorker (.inr alive.1) ⟨nofun, nofun, nofun⟩ rfl rfl agrees (holds.1.owned k)

end

theorem Kept.finds_itself (kept : s.Kept) (alive : (s.workers k).pc.Alive) :
    (s.workers k).worker_rt.bind s.lr_worker_lookup_by_worker_rt = some k := by
  obtain ⟨rt, here⟩ := (kept.agrees k).runtime alive
  have member := kept.registered k (.inr alive.1)
  rw [here]
  change s.lr_worker_lookup_by_worker_rt rt = some k
  cases found : s.lr_worker_lookup_by_worker_rt rt with
  | none =>
    have absent := find?_eq_none.mp found k member
    exact absurd (decide_eq_true here) absent
  | some other =>
    have holds : decide ((s.workers other).worker_rt = some rt) = true :=
      find?_some (p := fun other => decide ((s.workers other).worker_rt = _)) found
    exact congrArg some (kept.owned k rt here other (of_decide_eq_true holds))

theorem Runs.alive (runs : (s.workers k).Runs) : (s.workers k).pc.Alive := by
  cases runs with
  | inl script => rw [script]; decide
  | inr handle => rw [handle]; decide

section

variable (holds : s.Holds)
include holds

theorem Holds.postMessage_external {value : Nat} {serializes : Bool}
    (runs : (s.workers k).Runs) (met : serializes = true ∧ s.HasRoom k) :
    (s.lr_worker_postMessage_external k value serializes).Holds := by
  obtain ⟨rfl, room⟩ := met
  have alive := Runs.alive runs
  have fits : (s.workers k).out_queue.length < capacity := by
    unfold HasRoom at room
    omega
  simp only [lr_worker_postMessage_external, holds.1.finds_itself alive, if_pos fits]
  exact holds.send alive.1 (holds.1.agrees k) alive.1 rfl rfl rfl room

theorem Holds.postMessage (reachable : s.Reachable k) (addressed : s.Addressed k) :
    (s.lr_worker_postMessage k).Holds := by
  have lookup : s.lr_worker_lookup (s.workers k).id = some k := addressed
  simp only [lr_worker_postMessage, lookup]
  split
  · have kept := holds.1
    refine ⟨⟨kept.lawful, kept.fresh, kept.known, kept.registered, kept.agrees, ?_,
      kept.owned⟩, fun rt poll here => ?_⟩
    rotate_left
    · have polling := holds.2 rt poll here
      exact ⟨polling.children, polling.passed, polling.taken, polling.bounded⟩
    intro found member
    cases mem_cons.mp member with
    | inl new => rw [new]; exact ⟨rfl, reachable.1⟩
    | inr before => exact kept.posting found before
  · exact holds.note (.refused k _) s.posting trivial rfl
      fun _ member => member

theorem Holds.enqueue {found value : Nat} {serializes : Bool} (posting : (k, found) ∈ s.posting)
    (met : serializes = true ∨ capacity ≤ (s.workers found).in_queue.length) :
    (s.enqueue k found value serializes).Holds := by
  obtain ⟨meant, made⟩ := holds.1.posting _ posting
  cases meant
  have fewer (other : Nat × Nat) (member : other ∈ s.posting.erase (k, k)) : other ∈ s.posting :=
    mem_of_mem_erase member
  simp only [State.enqueue]
  split_ifs with fits
  · exact holds.note (.refused k _) _ trivial rfl fewer
  · obtain rfl := met.resolve_right fits
    refine holds.setWorker_note (.accepted k .toWorker (.message value)) _ trivial rfl rfl
      (.inr made) made (holds.1.agrees k).receive ⟨rfl, ?_, ?_⟩ (holds.room k) fewer rfl
    · rw [accept]
      split <;> rfl
    · intro sent member _
      revert member
      rw [accept]
      split <;> exact id

theorem Holds.terminate (reachable : s.Reachable k) (addressed : s.Addressed k) :
    (s.lr_worker_terminate k).Holds := by
  have lookup : s.lr_worker_lookup (s.workers k).id = some k := addressed
  simp only [lr_worker_terminate, lookup]
  exact holds.setWorker_note (.terminated k) s.posting trivial rfl rfl
    (.inr reachable.1) reachable.1 (holds.1.agrees k).terminate
    ⟨rfl, rfl, fun _ member _ => member⟩ (holds.room k) (fun _ member => member) rfl

theorem Holds.setHandler (handler : Handler) (present : Bool) (made : (s.workers k).pc.Made) :
    ((s.setWorker k ((s.workers k).setHandler present handler)).note
      (.handler k handler present)).Holds := by
  have agrees := (holds.1.agrees k).setHandler handler present
  cases handler <;>
    exact holds.setWorker_note _ s.posting trivial rfl rfl (.inr made) made agrees
      ⟨rfl, rfl, fun _ member _ => member⟩ (holds.room k) (fun _ member => member) rfl

theorem Holds.setCallback (handler : Handler) (present : Bool) (reachable : s.Reachable k)
    (addressed : s.Addressed k) :
    (s.setCallback k handler present).Holds := by
  have lookup : s.lr_worker_lookup (s.workers k).id = some k := addressed
  simp only [State.setCallback, lookup]
  exact holds.setHandler handler present reachable.1

/-! ## Constructors -/

/-- A new worker has empty queues. -/
theorem Holds.construct (rt : LR_Runtime) : (s.construct rt).Holds := by
  have kept := holds.1
  have blank := kept.fresh s.created (Nat.le_refl _)
  have agrees := kept.agrees s.created
  rw [blank] at agrees
  have account : (s.construct rt).account = s.account.record (.created s.created rt) :=
    law.account_note ..
  have old {k : Nat} (born : (s.workers k).pc ≠ .unborn) : k ≠ s.created := by
    intro same
    rw [same, blank] at born
    exact born rfl
  have workers {k : Nat} (other : k ≠ s.created) : (s.construct rt).workers k = s.workers k :=
    update_of_ne other ..
  have entries {k : Nat} (other : k ≠ s.created) :
      (s.construct rt).account.entries k = s.account.entries k := by
    rw [account]
    exact update_of_ne other ..
  have new : (s.construct rt).workers s.created =
      { LR_WorkerData.new 0 rt .create with id := s.next_id } :=
    update_self ..
  have entry : (s.construct rt).account.entries s.created =
      { s.account.entries s.created with parent := some rt } := by
    rw [account]
    exact update_self ..
  refine ⟨⟨kept.lawful.note trivial, ?_, ?_, ?_, ?_, ?_, ?_⟩, ?_⟩
  · intro k above
    rw [workers (Nat.ne_of_gt above)]
    exact kept.fresh k (Nat.le_of_lt above)
  · intro k member
    cases mem_cons.mp member with
    | inl same => rw [same, new]; nofun
    | inr before =>
      have born := kept.known k before
      rw [workers (old born)]
      exact born
  · intro k started
    by_cases same : k = s.created
    · rw [same]
      exact mem_cons_self
    · rw [workers same] at started
      exact mem_cons_of_mem _ (kept.registered k started)
  · intro k
    by_cases same : k = s.created
    · rw [same, new, entry]
      exact agrees.create _ _
    · rw [workers same, entries same]
      exact kept.agrees k
  · intro found member
    obtain ⟨meant, made⟩ := kept.posting found member
    rw [workers (old made.1)]
    exact ⟨meant, made⟩
  · intro k own here other there
    have mine {j : Nat} (runs : ((s.construct rt).workers j).worker_rt = some own) :
        (s.workers j).worker_rt = some own := by
      by_cases same : j = s.created
      · rw [same, new] at runs
        cases runs
      · rwa [workers same] at runs
    exact kept.owned k own (mine here) other (mine there)
  · intro other poll here
    have polling := holds.2 other poll here
    refine ⟨?_, ?_, ?_, ?_⟩
    · intro k member
      have child := polling.children k member
      rw [workers (old child.1)]
      exact child
    · intro k parent passed sent member
      by_cases same : k = s.created
      · rw [same, entry] at member
        rw [map_eq_nil_iff.mp agrees.outbound] at member
        cases member
      · rw [entries same] at parent member
        exact polling.passed k parent passed sent member
    · rw [account]
      exact polling.taken
    · intro k head
      have child := polling.children k (mem_of_mem_head? head)
      rw [workers (old child.1)]
      exact polling.bounded k head

end

/-! ## Polls -/

theorem Kept.outside (kept : s.Kept)
    (met : ∀ k ∈ (s.children rt).drop snapshot, (s.workers k).out_queue = [])
    (parent : (s.account.entries k).parent = some rt)
    (outside : k ∉ (s.children rt).take snapshot) : (s.workers k).out_queue = [] := by
  by_cases made : (s.workers k).pc.Made
  · have parent_rt : (s.workers k).parent_rt = rt :=
      some.inj (((kept.agrees k).parent made.1).symm.trans parent)
    have member : k ∈ s.children rt :=
      mem_filter.mpr ⟨kept.registered k (.inr made), decide_eq_true parent_rt⟩
    rw [← take_append_drop snapshot (s.children rt)] at member
    exact met k ((mem_append.mp member).resolve_left outside)
  · exact (kept.agrees k).silent made

/-- A poll begins with the first workers of its runtime. -/
theorem Holds.poll (holds : s.Holds)
    (met : ∀ k ∈ (s.children rt).drop snapshot, (s.workers k).out_queue = []) :
    (s.lr_worker_poll rt).Holds := by
  have kept := holds.1
  have account : (s.lr_worker_poll rt).account = s.account.record (.polling rt) :=
    law.account_note ..
  refine ⟨⟨kept.lawful.note trivial, kept.fresh, kept.known, kept.registered, ?_, kept.posting,
    kept.owned⟩, ?_⟩
  · intro k
    rw [account]
    exact (kept.agrees k).mark rt
  · intro other poll here
    by_cases same : other = rt
    · rw [same] at here ⊢
      have this : some poll = some _ := here.symm.trans (update_self ..)
      cases this
      refine ⟨?_, ?_, ?_, ?_⟩
      · intro k member
        obtain ⟨registered, parent_rt⟩ := mem_filter.mp (mem_of_mem_take member)
        exact ⟨kept.known k registered, of_decide_eq_true parent_rt⟩
      · intro k parent outside sent member
        rw [account] at parent member
        have empty := kept.outside met ((mark_parent _ rt).symm.trans parent) outside
        have none := ((kept.agrees k).mark rt).outbound
        rw [empty] at none
        have nothing : ((s.account.entries k).mark rt).outbound = [] := map_eq_nil_iff.mp none
        rw [show (s.account.record (.polling rt)).entries k =
          (s.account.entries k).mark rt from rfl,
          nothing] at member
        cases member
      · rw [account]
        exact update_self ..
      · intro k _
        exact (kept.agrees k).room
    · have before : s.polls other = some poll := (update_of_ne same ..).symm.trans here
      have polling := holds.2 other poll before
      refine ⟨polling.children, ?_, ?_, polling.bounded⟩
      · intro k parent passed sent member
        rw [account] at parent member
        have unmarked : (s.account.entries k).mark rt = s.account.entries k := by
          refine if_neg fun mine => same ?_
          have parent' := (mark_parent _ rt).symm.trans parent
          exact some.inj (parent'.symm.trans mine)
        rw [show (s.account.record (.polling rt)).entries k =
          (s.account.entries k).mark rt from rfl,
          unmarked] at parent member
        exact polling.passed k parent passed sent member
      · rw [account]
        exact (update_of_ne same ..).trans polling.taken

/-- A poll goes on behind a worker without messages. -/
theorem Holds.advance (holds : s.Holds) {poll : Poll}
    {remaining : List Nat} (here : s.polls rt = some poll) (at_k : poll.remaining = k :: remaining)
    (empty : (s.workers k).out_queue = []) :
    ((s.setPoll rt (some ⟨poll.alive, remaining, 0⟩)).note (.turn rt)).Holds := by
  have kept := holds.1
  have polling := holds.2 rt poll here
  let s' := (s.setPoll rt (some ⟨poll.alive, remaining, 0⟩)).note (.turn rt)
  have account : s'.account = s.account.record (.turn rt) :=
    law.account_note ..
  refine ⟨⟨kept.lawful.note trivial, kept.fresh, kept.known, kept.registered, ?_, kept.posting,
    kept.owned⟩, ?_⟩
  · intro k
    rw [account]
    exact kept.agrees k
  · intro other poll' here'
    by_cases same : other = rt
    · rw [same] at here' ⊢
      have this : some poll' = some _ := here'.symm.trans (update_self ..)
      cases this
      refine ⟨?_, ?_, ?_, ?_⟩
      · intro child member
        exact polling.children child (at_k ▸ mem_cons_of_mem k member)
      · intro child parent passed sent member
        rw [account] at parent member
        by_cases mine : child = k
        · have outbound := (kept.agrees k).outbound
          rw [empty] at outbound
          rw [mine] at member
          have nothing : (s.account.entries k).outbound = [] := map_eq_nil_iff.mp outbound
          rw [show ((s.account.record (.turn rt)).entries k).outbound = [] from nothing] at member
          cases member
        · refine polling.passed child parent (fun inside => ?_) sent member
          rw [at_k] at inside
          exact passed ((mem_cons.mp inside).resolve_left mine)
      · change s'.account.taken rt = 0
        rw [account]
        exact update_self ..
      · intro child _
        exact (kept.agrees child).room
    · have before : s.polls other = some poll' := (update_of_ne same ..).symm.trans here'
      have polling := holds.2 other poll' before
      refine ⟨polling.children, ?_, ?_, polling.bounded⟩
      · change ∀ child, (s'.account.entries child).parent = some other → _ →
          ∀ sent ∈ (s'.account.entries child).outbound, _
        rw [account]
        exact polling.passed
      · change s'.account.taken other = poll'.taken
        rw [account]
        exact (update_of_ne same ..).trans polling.taken

/-- A message that is taken is the oldest one of its queue. -/
theorem Holds.take (holds : s.Holds) {poll : Poll} {wire : LR_WireValue} {remaining : List Nat}
    (here : s.polls rt = some poll) (at_k : poll.remaining = k :: remaining)
    (queue : (s.workers k).out_queue = some wire :: rest) :
    (((s.setWorker k { s.workers k with out_queue := rest }).setPoll rt
      (some { poll with taken := poll.taken + 1 })).note
        (.took k .toParent wire ((s.workers k).handler wire.handler))).Holds := by
  have kept := holds.1
  have polling := holds.2 rt poll here
  have agrees := kept.agrees k
  have head : poll.remaining.head? = some k := by
    rw [at_k]
    rfl
  obtain ⟨born, parent_rt⟩ := polling.children k (mem_of_mem_head? head)
  have parent : (s.account.entries k).parent = some rt := by
    rw [agrees.parent born, parent_rt]
  have bounded := polling.bounded k head
  rw [queue, length_cons] at bounded
  obtain ⟨first, takes⟩ := agrees.takeOut queue
  have made : (s.workers k).pc.Made := by
    by_contra dead
    have silent := agrees.silent dead
    rw [queue] at silent
    cases silent
  let s' := ((s.setWorker k { s.workers k with out_queue := rest }).setPoll rt
    (some { poll with taken := poll.taken + 1 })).note
      (.took k .toParent wire ((s.workers k).handler wire.handler))
  have account : s'.account =
      { s.account.enter k ((s.account.entries k).take .toParent) with
        taken := update s.account.taken rt (s.account.taken rt + 1) } := by
    have recorded : s'.account = s.account.record (.took k .toParent wire
        ((s.workers k).handler wire.handler)) :=
      law.account_note ..
    rw [recorded, Account.record, parent]
  have changes : Changes s s' k { s.workers k with out_queue := rest }
      ((s.account.entries k).take .toParent) :=
    { workers := rfl
      entries := by
        rw [account]
        rfl
      lawful := by
        refine kept.lawful.note ⟨first, (agrees.handlers _).symm, fun _ other mine => ?_⟩
        have same : other = rt := some.inj (Eq.trans (Eq.symm mine) parent)
        have counted : s.account.taken rt = poll.taken := polling.taken
        rw [same]
        change s.account.taken rt < capacity
        omega
      known := fun _ member => member
      registered := fun _ member _ => member
      created := rfl
      posting := fun _ member => member
      before := .inr made
      after := .inl made
      agrees := takes
      owns := kept.owned k }
  have respects : Respects s k { s.workers k with out_queue := rest }
      ((s.account.entries k).take .toParent) :=
    ⟨rfl, rfl, fun _ member _ => mem_of_mem_tail member⟩
  refine ⟨kept.changes changes, fun other poll' here' => ?_⟩
  by_cases same : other = rt
  · rw [same] at here' ⊢
    have this : some poll' = some _ := here'.symm.trans (update_self ..)
    cases this
    refine polling.changes (poll.taken + 1) changes respects ?_ (.inr head) fun _ => ?_
    · rw [account]
      exact (update_self ..).trans (congrArg (· + 1) polling.taken)
    · change rest.length + (poll.taken + 1) ≤ capacity
      omega
  · have before : s.polls other = some poll' := (update_of_ne same ..).symm.trans here'
    have polling' := holds.2 other poll' before
    refine polling'.changes poll'.taken changes respects ?_ (.inl rfl) fun head' => ?_
    · rw [account]
      exact (update_of_ne same ..).trans polling'.taken
    · have mine := (polling'.children k (mem_of_mem_head? head')).2
      exact absurd (mine.symm.trans parent_rt) same

/-- A turn of a poll holds to the journal. -/
theorem Holds.turn (holds : s.Holds) {poll : Poll}
    (here : s.polls rt = some poll) : (s.turn rt poll).Holds := by
  have kept := holds.1
  have polling := holds.2 rt poll here
  simp only [State.turn]
  split
  · rename_i nobody
    have account : ((s.setPoll rt none).note (.polled rt poll.alive)).account = s.account :=
      law.account_note ..
    have allowed : s.account.Allows (.polled rt poll.alive) := by
      intro k parent
      exact polling.passed k parent (by rw [nobody]; nofun)
    refine ⟨⟨kept.lawful.note allowed, kept.fresh, kept.known, kept.registered, ?_, kept.posting,
      kept.owned⟩, fun other poll' here' => ?_⟩
    · rw [account]
      exact kept.agrees
    · by_cases same : other = rt
      · rw [same] at here'
        exact absurd ((update_self ..).symm.trans here') nofun
      · have before : s.polls other = some poll' :=
          (update_of_ne same ..).symm.trans here'
        have polling' := holds.2 other poll' before
        refine ⟨polling'.children, ?_, ?_, polling'.bounded⟩
        · rw [account]
          exact polling'.passed
        · rw [account]
          exact polling'.taken
  · rename_i k remaining at_k
    split
    · rename_i empty
      exact holds.advance here at_k empty
    · rename_i rest unserialized
      have outbound := (kept.agrees k).outbound
      rw [unserialized] at outbound
      obtain ⟨first, later, same, head, tail⟩ := map_eq_cons_iff.mp outbound
      cases head
    · rename_i wire rest queue
      exact holds.take here at_k queue

/-! ## Runs -/

theorem holds_start : start.Holds := by
  refine ⟨⟨law.lawful_nil, fun _ _ => rfl, nofun, fun k started => ?_, Entry.Agrees.blank, nofun,
    nofun⟩, nofun⟩
  exact absurd (show (start.workers k).pc = .unborn from rfl) (WorkerAt.born started)

theorem of_guard {guard : Prop} [Decidable guard] {next : State}
    (taken : (if guard then some next else none) = some s') : guard ∧ next = s' := by
  rw [ite_none_right_eq_some] at taken
  exact ⟨taken.1, some.inj taken.2⟩

/-- Every step that meets the condition holds to the journal. -/
theorem Holds.step (holds : s.Holds) {event : Event} (met : Meets s event)
    (taken : s.step event = some s') : s'.Holds := by
  cases event with
  | construct rt =>
    obtain ⟨guard, rfl⟩ := of_guard taken
    exact holds.construct rt
  | pthread_create k succeeds =>
    obtain ⟨guard, rfl⟩ := of_guard taken
    exact holds.pthread_create guard met
  | lr_runtime_new k address =>
    obtain ⟨guard, rfl⟩ := of_guard taken
    exact holds.lr_runtime_new guard.1 met
  | scriptFails k err allocates =>
    obtain ⟨guard, rfl⟩ := of_guard taken
    exact holds.scriptFails guard.1 met
  | worker k => exact holds.thread taken
  | setOnmessage k present =>
    obtain ⟨guard, rfl⟩ := of_guard taken
    exact holds.setHandler .onmessage present (Runs.alive guard).1
  | postMessage_external k value serializes =>
    obtain ⟨guard, rfl⟩ := of_guard taken
    exact holds.postMessage_external guard met
  | postMessage k =>
    obtain ⟨guard, rfl⟩ := of_guard taken
    exact holds.postMessage guard met
  | enqueue k found value serializes =>
    obtain ⟨guard, rfl⟩ := of_guard taken
    exact holds.enqueue guard met
  | terminate k =>
    obtain ⟨guard, rfl⟩ := of_guard taken
    exact holds.terminate guard met
  | setCallback k is_err present =>
    obtain ⟨guard, rfl⟩ := of_guard taken
    exact holds.setCallback _ present guard met
  | poll rt =>
    obtain ⟨guard, rfl⟩ := of_guard taken
    exact holds.poll met
  | turn rt =>
    obtain ⟨poll, here, rfl⟩ := map_eq_some_iff.mp taken
    exact holds.turn here

theorem Kept.loses_none (kept : s.Kept) : s.LosesNone := fun k =>
  ⟨(kept.agrees k).outbound, (kept.agrees k).inbound⟩

/-- While workers can be told apart, messages can be serialized, workers post only where there is
room and no poll passes over a worker, each message is taken once and in order, and every poll takes
all that is there. -/
theorem workers_deliver {events : List Event} {s : State}
    (met : Runs.Throughout State.step Meets start events)
    (arrives : Runs.after State.step start events = some s) :
    law.Lawful s.journal ∧ s.LosesNone := by
  have holds : s.Holds := Runs.Throughout.invariant_after
    (fun _ _ _ holds met taken => holds.step met taken) holds_start met arrives
  exact ⟨holds.1.lawful, holds.1.loses_none⟩

/-- A worker answers, fails, has its message and is terminated. -/
theorem workers_deliver_sample :
    ∃ s, Runs.after State.step start
        [.construct (.host 0), .pthread_create 0 true, .postMessage 0, .enqueue 0 0 3 true,
          .lr_runtime_new 0 (some 0), .setCallback 0 false true, .setOnmessage 0 true,
          .postMessage_external 0 7 true, .poll (.host 0), .turn (.host 0),
          .scriptFails 0 none true, .worker 0, .worker 0, .turn (.host 0), .turn (.host 0),
          .turn (.host 0), .terminate 0, .worker 0, .postMessage 0, .worker 0, .worker 0,
          .worker 0, .worker 0, .worker 0] = some s ∧ law.Lawful s.journal ∧ s.LosesNone := by
  have met : Runs.Throughout State.step Meets start
      [.construct (.host 0), .pthread_create 0 true, .postMessage 0, .enqueue 0 0 3 true,
        .lr_runtime_new 0 (some 0), .setCallback 0 false true, .setOnmessage 0 true,
        .postMessage_external 0 7 true, .poll (.host 0), .turn (.host 0),
        .scriptFails 0 none true, .worker 0, .worker 0, .turn (.host 0), .turn (.host 0),
        .turn (.host 0), .terminate 0, .worker 0, .postMessage 0, .worker 0, .worker 0,
        .worker 0, .worker 0, .worker 0] := by
    decide +kernel
  exact ⟨_, rfl, workers_deliver met rfl⟩

/-- Of the messages that a worker posts without a poll, the one behind the first 64 is lost. -/
theorem message_dropped :
    ∃ s, Runs.after State.step start
        ([.construct (.host 0), .pthread_create 0 true, .lr_runtime_new 0 (some 0)] ++
          List.replicate 65 (.postMessage_external 0 7 true)) = some s ∧ ¬s.LosesNone := by
  have lost : ∀ s ∈ Runs.after State.step start
      ([.construct (.host 0), .pthread_create 0 true, .lr_runtime_new 0 (some 0)] ++
        replicate 65 (.postMessage_external 0 7 true)),
      (s.account.entries 0).outbound.length ≠ (s.workers 0).out_queue.length := by
    decide +kernel
  obtain ⟨s, arrives⟩ := isSome_iff_exists.mp (show (Runs.after State.step start
    ([.construct (.host 0), .pthread_create 0 true, .lr_runtime_new 0 (some 0)] ++
      replicate 65 (.postMessage_external 0 7 true))).isSome = true by decide +kernel)
  refine ⟨s, arrives, fun loses => lost s arrives ?_⟩
  rw [← (loses 0).1, length_map]

end State

end LRJS.Workers
