import LRJS.Library.Runs
import Mathlib.Data.List.Chain
import Mathlib.Data.Fintype.Defs

/-!
# Programs of operations on shared state

A program is a tree of operations whose next part depends on the answers.  In a pool, the operations
of many programs interleave; some form a section that a program enters once.  When nobody changes
the state or enters while another is inside, each section sees the state as if it ran alone.
-/

namespace Interaction

open Function List Option

universe u v w x

theorem isChain_append_of_last {α : Type*} {relation : α → α → Prop} {first : α}
    {left right : List α} (chain : List.IsChain relation (first :: left))
    (chain' : List.IsChain relation (left.getLastD first :: right)) :
    List.IsChain relation (first :: (left ++ right)) := by
  induction left generalizing first with
  | nil => exact chain'
  | cons second rest ih =>
    rw [isChain_cons_cons] at chain
    rw [getLastD_cons] at chain'
    exact isChain_cons_cons.mpr ⟨chain.1, ih chain.2 chain'⟩

inductive Program (Operation : Type u) (Answer : Operation → Type v) (Value : Type w)
  | done (value : Value)
  | act (operation : Operation) (next : Answer operation → Program Operation Answer Value)

variable {Operation : Type u} {Answer : Operation → Type v} {State : Type x}
variable {Value : Type w} {Value' : Type w}

namespace Program

def bind (next : Value → Program Operation Answer Value') :
    Program Operation Answer Value → Program Operation Answer Value'
  | .done value => next value
  | .act operation continuation => .act operation fun answer => bind next (continuation answer)

instance : Monad (Program Operation Answer) where
  pure := .done
  bind program next := program.bind next

@[simp] theorem act_bind (operation : Operation)
    (continuation : Answer operation → Program Operation Answer Value)
    (next : Value → Program Operation Answer Value') :
    (.act operation continuation >>= next) =
      .act operation fun answer => continuation answer >>= next :=
  rfl

theorem bind_done (program : Program Operation Answer Value) : (program >>= .done) = program := by
  induction program with
  | done value => rfl
  | act operation next ih =>
    exact congrArg (Program.act operation) (funext ih)

theorem bind_bind {Value'' : Type w} (program : Program Operation Answer Value)
    (next : Value → Program Operation Answer Value')
    (next' : Value' → Program Operation Answer Value'') :
    (program >>= next >>= next') = (program >>= fun value => next value >>= next') := by
  induction program with
  | done value => rfl
  | act operation following ih =>
    exact congrArg (Program.act operation) (funext ih)

instance : LawfulMonad (Program Operation Answer) :=
  LawfulMonad.mk' _ bind_done (fun _ _ => rfl) bind_bind

def finished : Program Operation Answer Value → Bool
  | .done _ => true
  | .act _ _ => false

section Alone

variable (perform : (operation : Operation) → State → Answer operation × State)

def states : Program Operation Answer Value → State → List State
  | .done _, _ => []
  | .act operation next, state =>
    (perform operation state).2 ::
      states (next (perform operation state).1) (perform operation state).2

def value : Program Operation Answer Value → State → Value
  | .done value, _ => value
  | .act operation next, state =>
    value (next (perform operation state).1) (perform operation state).2

/-- Each operation of the program run alone is fine, and so are the result
and the state at the end. -/
def Along (fine : State → Operation → Prop) (post : Value → State → Prop) :
    Program Operation Answer Value → State → Prop
  | .done value, state => post value state
  | .act operation next, state =>
    fine state operation ∧
      Along fine post (next (perform operation state).1) (perform operation state).2

variable {perform} {fine : State → Operation → Prop}

variable {program : Program Operation Answer Value}

theorem Along.mono {fine' : State → Operation → Prop} {post post' : Value → State → Prop}
    (weaker : ∀ state operation, fine state operation → fine' state operation)
    (weaker' : ∀ value state, post value state → post' value state) {state : State}
    (along : program.Along perform fine post state) : program.Along perform fine' post' state := by
  induction program generalizing state with
  | done value => exact weaker' value state along
  | act operation next ih =>
    exact ⟨weaker _ _ along.1, ih _ along.2⟩

/-- What runs well behind a program that runs well does so together. -/
theorem Along.bind {middle : Value → State → Prop} {post : Value' → State → Prop}
    {next : Value → Program Operation Answer Value'} {state : State}
    (along : program.Along perform fine middle state)
    (continues : ∀ value state, middle value state → (next value).Along perform fine post state) :
    (program >>= next).Along perform fine post state := by
  induction program generalizing state with
  | done value => exact continues value state along
  | act operation following ih =>
    exact ⟨along.1, ih _ along.2⟩

/-- A program whose operations are related leaves a chain of states. -/
theorem Along.isChain {relation : State → State → Prop} {post : Value → State → Prop}
    {state : State}
    (along : program.Along perform
      (fun state operation => relation state (perform operation state).2) post state) :
    List.IsChain relation (state :: program.states perform state) := by
  induction program generalizing state with
  | done value => exact isChain_singleton state
  | act operation next ih =>
    exact isChain_cons_cons.mpr ⟨along.1, ih _ along.2⟩

end Alone

def Everywhere (property : Operation → Prop) (post : Value → Prop) :
    Program Operation Answer Value → Prop
  | .done value => post value
  | .act operation next => property operation ∧ ∀ answer, Everywhere property post (next answer)

/-- What every operation of both parts satisfies, all of them do. -/
theorem Everywhere.bind {property : Operation → Prop} {middle : Value → Prop}
    {post : Value' → Prop} {next : Value → Program Operation Answer Value'}
    {program : Program Operation Answer Value} (everywhere : program.Everywhere property middle)
    (continues : ∀ value, middle value → (next value).Everywhere property post) :
    (program >>= next).Everywhere property post := by
  induction program with
  | done value => exact continues value everywhere
  | act operation following ih =>
    exact ⟨everywhere.1, fun answer => ih answer (everywhere.2 answer)⟩

end Program

structure Thread (Operation : Type u) (Answer : Operation → Type v) (Value : Type w) where
  inside : Bool
  rest : Program Operation Answer Value

structure Pool (Name : Type*) (State : Type x) (Operation : Type u)
    (Answer : Operation → Type v) (Value : Type w) where
  state : State
  threads : Name → Thread Operation Answer Value

def Thread.busy (thread : Thread Operation Answer Value) : Bool :=
  thread.inside && !thread.rest.finished

structure Discipline (State : Type x) (Operation : Type u) (Answer : Operation → Type v) where
  perform : (operation : Operation) → State → Answer operation × State
  within : Operation → Bool
  quiet : Operation → Bool
  same_of_quiet : ∀ operation state, quiet operation = true → (perform operation state).2 = state

variable {Name : Type*} [DecidableEq Name]

def step (discipline : Discipline State Operation Answer)
    (pool : Pool Name State Operation Answer Value) (name : Name) :
    Option (Pool Name State Operation Answer Value) :=
  match (pool.threads name).rest with
  | .done _ => none
  | .act operation next =>
    let taken := discipline.perform operation pool.state
    some ⟨taken.2, Function.update pool.threads name
      ⟨(pool.threads name).inside || discipline.within operation, next taken.1⟩⟩

def Next (property : State → Operation → Prop) (pool : Pool Name State Operation Answer Value)
    (name : Name) : Prop :=
  match (pool.threads name).rest with
  | .done _ => True
  | .act operation _ => property pool.state operation

instance (property : State → Operation → Prop)
    [∀ state operation, Decidable (property state operation)]
    (pool : Pool Name State Operation Answer Value) (name : Name) :
    Decidable (Next property pool name) := by
  unfold Next
  split <;> infer_instance

/-- Nobody else is in the section when the next operation of a thread belongs
to the section or changes the state. -/
def Alone (discipline : Discipline State Operation Answer)
    (pool : Pool Name State Operation Answer Value) (name : Name) : Prop :=
  Next (fun _ operation =>
    discipline.within operation = false ∧ discipline.quiet operation = true ∨
      ∀ other, other ≠ name → (pool.threads other).busy = false) pool name

instance [Fintype Name] (discipline : Discipline State Operation Answer)
    (pool : Pool Name State Operation Answer Value) (name : Name) :
    Decidable (Alone discipline pool name) :=
  inferInstanceAs (Decidable (Next _ pool name))

section Threads

variable {discipline : Discipline State Operation Answer}
variable {pool : Pool Name State Operation Answer Value} {name : Name} {inside : Bool}

theorem step_done {value : Value} (found : pool.threads name = ⟨inside, .done value⟩) :
    step discipline pool name = none := by
  simp only [step, found]

theorem step_act {operation : Operation} {next : Answer operation → Program Operation Answer Value}
    (found : pool.threads name = ⟨inside, .act operation next⟩) :
    step discipline pool name = some ⟨(discipline.perform operation pool.state).2,
      Function.update pool.threads name ⟨inside || discipline.within operation,
        next (discipline.perform operation pool.state).1⟩⟩ := by
  simp only [step, found]

variable {property : State → Operation → Prop}

omit [DecidableEq Name] in
theorem next_done {value : Value} (found : pool.threads name = ⟨inside, .done value⟩) :
    Next property pool name := by
  simp only [Next, found]

omit [DecidableEq Name] in
theorem next_act {operation : Operation}
    {next : Answer operation → Program Operation Answer Value}
    (found : pool.threads name = ⟨inside, .act operation next⟩) :
    Next property pool name ↔ property pool.state operation := by
  simp only [Next, found]

end Threads

section Sections

variable (discipline : Discipline State Operation Answer) (Idle : State → Prop)
variable (fine : State → Operation → Prop)

/-- From an idle state, a section is fine and ends in an idle state, and so does each change outside
of it. -/
def Ready (post : Value → Prop) : Program Operation Answer Value → Prop
  | .done value => post value
  | .act operation next =>
    if discipline.within operation = true then
      ∀ state, Idle state → (Program.act operation next).Along discipline.perform fine
        (fun value state => Idle state ∧ post value) state
    else if discipline.quiet operation = true then
      (∀ state, fine state operation) ∧ ∀ answer, Ready post (next answer)
    else
      ∀ state, Idle state → fine state operation ∧ Idle (discipline.perform operation state).2 ∧
        Ready post (next (discipline.perform operation state).1)

variable {discipline Idle fine}

variable {operation : Operation} {next : Answer operation → Program Operation Answer Value}

section

variable {post : Value → Prop} (outside : discipline.within operation = false)
include outside

theorem ready_quiet (quiet : discipline.quiet operation = true)
    (here : ∀ state, fine state operation)
    (continues : ∀ answer, Ready discipline Idle fine post (next answer)) :
    Ready discipline Idle fine post (.act operation next) := by
  rw [Ready, outside, if_neg Bool.false_ne_true, if_pos quiet]
  exact ⟨here, continues⟩

theorem ready_change (loud : discipline.quiet operation = false) (changes : ∀ state, Idle state →
      fine state operation ∧ Idle (discipline.perform operation state).2)
    (continues : ∀ answer, Ready discipline Idle fine post (next answer)) :
    Ready discipline Idle fine post (.act operation next) := by
  rw [Ready, outside, loud, if_neg Bool.false_ne_true, if_neg Bool.false_ne_true]
  intro state idle
  exact ⟨(changes state idle).1, (changes state idle).2, continues _⟩

end

theorem ready_section {post : Value → Prop} (within : discipline.within operation = true)
    (along : ∀ state, Idle state → (Program.act operation next).Along discipline.perform fine
      (fun value state => Idle state ∧ post value) state) :
    Ready discipline Idle fine post (.act operation next) := by
  rw [Ready, if_pos within]
  exact along

variable {state : State} {program : Program Operation Answer Value}

/-- A program that is ready runs well from every idle state. -/
theorem Ready.along {post : Value → Prop} (ready : Ready discipline Idle fine post program)
    (idle : Idle state) :
    program.Along discipline.perform fine (fun value state => Idle state ∧ post value) state := by
  induction program generalizing state with
  | done value => exact ⟨idle, ready⟩
  | act operation next ih =>
    unfold Ready at ready
    split at ready
    · exact ready state idle
    · split_ifs at ready with quiet
      · refine ⟨ready.1 state, ih _ (ready.2 _) ?_⟩
        rw [discipline.same_of_quiet operation state quiet]
        exact idle
      · have here := ready state idle
        exact ⟨here.1, ih _ here.2.2 here.2.1⟩

/-- What is ready behind a ready program makes a ready one. -/
theorem Ready.bind {middle : Value → Prop} {post : Value' → Prop}
    {next : Value → Program Operation Answer Value'}
    (ready : Ready discipline Idle fine middle program)
    (continues : ∀ value, middle value → Ready discipline Idle fine post (next value)) :
    Ready discipline Idle fine post (program >>= next) := by
  induction program with
  | done value => exact continues value ready
  | act operation following ih =>
    unfold Ready at ready
    rw [Program.act_bind]
    unfold Ready
    split at ready
    · rename_i within
      rw [if_pos within]
      intro state idle
      apply (ready state idle).bind
      intro value reached both
      exact (continues value both.2).along both.1
    · rename_i outside
      rw [if_neg outside]
      split_ifs at ready with quiet
      · rw [if_pos quiet]
        exact ⟨ready.1, fun answer => ih answer (ready.2 answer)⟩
      · rw [if_neg quiet]
        intro state idle
        have here := ready state idle
        exact ⟨here.1, here.2.1, ih _ here.2.2⟩

variable (discipline Idle fine)

structure Orderly (post : Name → Value → Prop) (pool : Pool Name State Operation Answer Value) :
    Prop where
  waiting : ∀ name, (pool.threads name).inside = false →
    Ready discipline Idle fine (post name) (pool.threads name).rest
  working : ∀ name, (pool.threads name).busy = true →
    (pool.threads name).rest.Along discipline.perform fine
      (fun value state => Idle state ∧ post name value) pool.state
  single : ∀ name other, (pool.threads name).busy = true → (pool.threads other).busy = true →
    other = name
  idle : (∀ name, (pool.threads name).busy = false) → Idle pool.state

variable {discipline Idle fine} {post : Name → Value → Prop}
variable {pool : Pool Name State Operation Answer Value} {name : Name}

theorem busy_of_inside {inside : Bool} : Thread.busy ⟨inside, .act operation next⟩ = inside :=
  Bool.and_true inside

theorem not_busy_of_outside {thread : Thread Operation Answer Value}
    (outside : thread.inside = false) : thread.busy = false := by
  unfold Thread.busy
  rw [outside, Bool.false_and]

section

variable (orderly : Orderly discipline Idle fine post pool)
include orderly

variable {rest : Program Operation Answer Value}

/-- A thread that holds the lock moves while no other one is busy. -/
theorem Orderly.moved_inside (others : ∀ other, other ≠ name → (pool.threads other).busy = false)
    (along : rest.Along discipline.perform fine
      (fun value state => Idle state ∧ post name value) state) :
    Orderly discipline Idle fine post
      ⟨state, Function.update pool.threads name ⟨true, rest⟩⟩ where
  waiting other outside := by
    by_cases same : other = name
    · subst same
      simp at outside
    · simp only [update_of_ne same] at outside ⊢
      exact orderly.waiting other outside
  working other busy := by
    by_cases same : other = name
    · subst same
      simp only [update_self]
      exact along
    · simp only [update_of_ne same, others other same, Bool.false_eq_true] at busy
  single first second busy busy' := by
    have only : ∀ other,
        (update pool.threads name ⟨true, rest⟩ other).busy = true → other = name := by
      intro other busy
      by_contra different
      rw [update_of_ne different, others other different] at busy
      cases busy
    rw [only first busy, only second busy']
  idle none_busy := by
    have here := none_busy name
    simp only [update_self] at here
    cases rest with
    | done value => exact along.1
    | act operation next => cases here

/-- A thread outside of the lock moves without touching the state. -/
theorem Orderly.moved_outside (outside : (pool.threads name).inside = false)
    (unseen : state = pool.state ∨
      (∀ other, other ≠ name → (pool.threads other).busy = false) ∧ Idle state)
    (ready : Ready discipline Idle fine (post name) rest) :
    Orderly discipline Idle fine post
      ⟨state, Function.update pool.threads name ⟨false, rest⟩⟩ := by
  have not_busy : ∀ other,
      (update pool.threads name ⟨false, rest⟩ other).busy =
        (pool.threads other).busy := by
    intro other
    by_cases same : other = name
    · subst same
      rw [update_self, not_busy_of_outside outside, not_busy_of_outside rfl]
    · rw [update_of_ne same]
  constructor
  · intro other waits
    by_cases same : other = name
    · subst same
      simp only [update_self]
      exact ready
    · simp only [update_of_ne same] at waits ⊢
      exact orderly.waiting other waits
  · intro other busy
    rw [not_busy other] at busy
    by_cases same : other = name
    · subst same
      rw [not_busy_of_outside outside] at busy
      cases busy
    · simp only [update_of_ne same]
      cases unseen with
      | inl kept =>
        rw [kept]
        exact orderly.working other busy
      | inr alone =>
        rw [alone.1 other same] at busy
        cases busy
  · intro first second busy busy'
    rw [not_busy] at busy busy'
    exact orderly.single first second busy busy'
  · intro none_busy
    cases unseen with
    | inl kept =>
      rw [kept]
      exact orderly.idle fun other => (not_busy other).symm.trans (none_busy other)
    | inr alone => exact alone.2

theorem Orderly.idle_of_others (outside : (pool.threads name).inside = false)
    (others : ∀ other, other ≠ name → (pool.threads other).busy = false) : Idle pool.state := by
  apply orderly.idle
  intro other
  by_cases same : other = name
  · rw [same]
    exact not_busy_of_outside outside
  · exact others other same

/-- Behind each operation that keeps the rule the pool is as before, and the operation is fine. -/
theorem Orderly.step (alone : Alone discipline pool name) : Next fine pool name ∧
      ∀ after, step discipline pool name = some after →
        Orderly discipline Idle fine post after := by
  rcases found : pool.threads name with ⟨inside, rest⟩
  cases rest with
  | done value =>
    refine ⟨next_done found, fun after taken => ?_⟩
    rw [step_done found] at taken
    cases taken
  | act operation next =>
    have ready := orderly.waiting name
    have along := orderly.working name
    have single := orderly.single name
    rw [found] at ready along single
    rw [Alone, next_act found] at alone
    rw [next_act found, step_act found]
    cases inside with
    | true =>
      have here := along busy_of_inside
      refine ⟨here.1, fun after taken => ?_⟩
      rw [← some.inj taken]
      apply orderly.moved_inside _ here.2
      intro other different
      by_contra busy
      rw [Bool.not_eq_false] at busy
      exact different (single other busy_of_inside busy)
    | false =>
      have here := ready rfl
      have outside : (pool.threads name).inside = false := by rw [found]
      unfold Ready at here
      split at here
      · rename_i within
        have others := alone.resolve_left fun both =>
          Bool.false_ne_true (both.1.symm.trans within)
        have running := here pool.state (orderly.idle_of_others outside others)
        refine ⟨running.1, fun after taken => ?_⟩
        rw [← some.inj taken, within, Bool.or_true]
        exact orderly.moved_inside others running.2
      · rename_i without
        rw [Bool.not_eq_true] at without
        rw [without, Bool.or_false]
        split_ifs at here with quiet
        · refine ⟨here.1 pool.state, fun after taken => ?_⟩
          rw [← some.inj taken]
          exact orderly.moved_outside outside
            (.inl (discipline.same_of_quiet operation pool.state quiet)) (here.2 _)
        · have others := alone.resolve_left fun both => quiet both.2
          have changed := here pool.state (orderly.idle_of_others outside others)
          refine ⟨changed.1, fun after taken => ?_⟩
          rw [← some.inj taken]
          exact orderly.moved_outside outside (.inr ⟨others, changed.2.1⟩) changed.2.2

end

omit [DecidableEq Name] in
theorem Orderly.idle_of_finished (orderly : Orderly discipline Idle fine post pool)
    (finished : ∀ name, (pool.threads name).rest.finished = true) : Idle pool.state := by
  apply orderly.idle
  intro name
  rw [Thread.busy, finished name, Bool.not_true, Bool.and_false]

section

variable (orderly : Orderly discipline Idle fine post pool) {names : List Name}
    (alone : Runs.Throughout (Interaction.step discipline) (Alone discipline) pool names)
include orderly alone

theorem Orderly.throughout : Runs.Throughout (Interaction.step discipline) (Next fine) pool names :=
  Runs.Throughout.of_invariant (Orderly discipline Idle fine post)
    (fun _ _ after orderly alone taken => (orderly.step alone).2 after taken)
    (fun _ _ orderly alone => (orderly.step alone).1) orderly alone

theorem Orderly.after {reached : Pool Name State Operation Answer Value}
    (arrives : Runs.after (Interaction.step discipline) pool names = some reached) :
    Orderly discipline Idle fine post reached :=
  Runs.Throughout.invariant_after
    (fun _ _ after orderly alone taken => (orderly.step alone).2 after taken)
    orderly alone arrives

end

omit [DecidableEq Name] in
theorem Orderly.of_ready {programs : Name → Program Operation Answer Value}
    (idle : Idle state) (ready : ∀ name, Ready discipline Idle fine (post name) (programs name)) :
    Orderly discipline Idle fine post ⟨state, fun name => ⟨false, programs name⟩⟩ where
  waiting name _ := ready name
  working _ busy := absurd (not_busy_of_outside rfl) (Bool.not_eq_false _ ▸ busy)
  single _ _ busy _ := absurd (not_busy_of_outside rfl) (Bool.not_eq_false _ ▸ busy)
  idle _ := idle

end Sections

/-- What every operation keeps is kept by every interleaving. -/
theorem after_of_everywhere {discipline : Discipline State Operation Answer}
    {property : Name → Operation → Prop} {Kept : State → Prop}
    (keeps : ∀ name operation state, property name operation → Kept state →
      Kept (discipline.perform operation state).2)
    {names : List Name} {pool reached : Pool Name State Operation Answer Value}
    (everywhere : ∀ name, (pool.threads name).rest.Everywhere (property name) fun _ => True)
    (kept : Kept pool.state)
    (arrives : Runs.after (step discipline) pool names = some reached) : Kept reached.state := by
  induction names generalizing pool with
  | nil =>
    cases arrives
    exact kept
  | cons name rest ih =>
    rw [Runs.after_cons, bind_eq_some_iff] at arrives
    obtain ⟨middle, taken, arrives⟩ := arrives
    rcases found : pool.threads name with ⟨inside, program⟩
    have here := everywhere name
    rw [found] at here
    cases program with
    | done value =>
      rw [step_done found] at taken
      cases taken
    | act operation next =>
      rw [step_act found] at taken
      cases taken
      refine ih (fun other => ?_)
        (keeps name operation pool.state here.1 kept) arrives
      by_cases same : other = name
      · subst same
        simp only [update_self]
        exact here.2 _
      · simp only [update_of_ne same]
        exact everywhere other

end Interaction
